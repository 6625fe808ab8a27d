import CommonLoader.Proof.IniText

/-!
# What the INI reader can read

The reader takes any text. A header between brackets gives a section, a line with an
equals sign an option, and any other line an option that is its own value. Almost
everything it makes is legible. The exception is a name of length zero, in front of an
equals sign or between brackets: the library takes zero for a string that ends at its
terminator, and the name is all the rest of the text.
-/

namespace CommonLoader

open CText

/-- The name of a section after the first. -/
def ReadName (data name : Bytes) : Prop :=
  LegibleName name ∨ (name <:+ data ∧ name.head? = some 0x5D)

def ReadKey (data key : Bytes) : Prop :=
  LegibleKey key ∨ (key <:+ data ∧ key.head? = some 0x3D)

/-- A value is trimmed, unless it is its own key. -/
structure ReadOption (data key value : Bytes) : Prop where
  isKey : ReadKey data key
  isLegible : LegibleValue value
  trimmed : tidyValue value = value ∨ (value = key ∧ (0x0D : UInt8) ∉ key)

/-- What one round adds: nothing, a section or an option. -/
inductive ReadStep (data : Bytes) (ini : Ini) (s : Nat) : Ini → Nat → Prop where
  | skip : ReadStep data ini s ini s
  | header {name : Bytes} : ReadName data name →
      ReadStep data ini s ⟨ini.sections ++ [name], ini.properties⟩ ini.sections.length
  | option {key value : Bytes} : ReadOption data key value →
      ReadStep data ini s ⟨ini.sections, ini.properties ++ [⟨s, key, value⟩]⟩ s

theorem ReadOption.suffix {ptr data key value : Bytes} (h : ReadOption ptr key value)
    (hsuf : ptr <:+ data) : ReadOption data key value :=
  ⟨h.isKey.imp_right fun hk => ⟨hk.1.trans hsuf, hk.2⟩, h.isLegible, h.trimmed⟩

theorem ReadStep.suffix {ptr data : Bytes} {ini ini' : Ini} {s s' : Nat}
    (h : ReadStep ptr ini s ini' s') (hsuf : ptr <:+ data) : ReadStep data ini s ini' s' := by
  cases h with
  | skip => exact .skip
  | header hname => exact .header (hname.imp_right fun hn => ⟨hn.1.trans hsuf, hn.2⟩)
  | option hopt => exact .option (hopt.suffix hsuf)

/-! ## Cutting strings out of the text -/

/-- Nothing is cut off a prefix that has a length. -/
theorem take_iniLength_prefix {text : Bytes} (h : ∀ c ∈ text, readable c = true)
    (hne : text.length ≠ 0) (rest : Bytes) :
    CText.cstr ((text ++ rest).take (iniLength (text ++ rest) text.length)) = text := by
  unfold iniLength
  rw [if_neg hne, List.take_left, cstr_of_readable h]

/-- **The length zero** takes everything. -/
theorem take_iniLength_zero {text : Bytes} (h : Accepted text) :
    CText.cstr (text.take (iniLength text 0)) = text := by
  unfold iniLength
  rw [if_pos rfl, h.cstr, List.take_length, h.cstr]

/-! ## One round -/

section Round

variable {ptr rest : Bytes} {c : UInt8} {ini : Ini} {s : Nat}

/-- The text between the brackets. -/
theorem iniSectionAdd_read {start : Bytes} (h : Accepted start)
    (hclosed : start.dropWhile (fun c => c ≠ 0x5D && c ≠ 0x0A) = 0x5D :: rest) (ini : Ini) (s : Nat) :
    ReadStep start ini s
      (iniSectionAdd ini start (start.takeWhile fun c => c ≠ 0x5D && c ≠ 0x0A).length).1
      (iniSectionAdd ini start (start.takeWhile fun c => c ≠ 0x5D && c ≠ 0x0A).length).2 := by
  have hsplit := List.takeWhile_append_dropWhile (p := fun c : UInt8 => c ≠ 0x5D && c ≠ 0x0A)
    (l := start)
  generalize hname : start.takeWhile (fun c => c ≠ 0x5D && c ≠ 0x0A) = name at hsplit
  have hplain : ∀ x ∈ name, x ≠ 0x5D ∧ x ≠ 0x0A := by
    intro x hx
    rw [← hname] at hx
    simpa using List.mem_takeWhile_imp hx
  have hchars : ∀ x ∈ name, readable x = true := by
    intro x hx
    exact (h x (hsplit ▸ List.mem_append_left _ hx)).resolve_right (hplain x hx).2
  unfold iniSectionAdd
  dsimp only
  refine .header ?_
  by_cases hlen : name.length = 0
  · -- nothing between the brackets, and so all that follows
    have hnil := List.length_eq_zero_iff.mp hlen
    rw [hlen, take_iniLength_zero h]
    refine Or.inr ⟨List.suffix_refl _, ?_⟩
    rw [← hsplit, hnil, hclosed]
    rfl
  · have hcut := take_iniLength_prefix hchars hlen (0x5D :: rest)
    rw [← hclosed, hsplit] at hcut
    rw [hcut]
    exact Or.inl ⟨fun hnil => hlen (List.length_eq_zero_iff.mpr hnil),
      fun x hx => ⟨hchars x hx, (hplain x hx).1⟩⟩

/-- A piece of a line, from its first character on. -/
theorem key_cut {start key : Bytes} (h : Accepted start) (hstart : start = c :: rest)
    (hblank : leSpace c = false) (hsemi : c ≠ 0x3B) (hbracket : c ≠ 0x5B) (hkey : key <+: start)
    (hne : key ≠ []) (hplain : ∀ x ∈ key, x ≠ 0x3D ∧ x ≠ 0x0A) :
    LegibleKey key ∧ CText.cstr (start.take (iniLength start key.length)) = key := by
  obtain ⟨r, hr⟩ := hkey
  have hchars : ∀ x ∈ key, readable x = true := by
    intro x hx
    have hmem : x ∈ start := hr ▸ List.mem_append_left r hx
    exact (h x hmem).resolve_right (hplain x hx).2
  have hlen : key.length ≠ 0 := fun h0 => hne (List.length_eq_zero_iff.mp h0)
  refine ⟨⟨hne, fun x hx => ⟨hchars x hx, (hplain x hx).1⟩, ?_⟩, ?_⟩
  · intro x hx
    obtain ⟨l, rfl⟩ := List.head?_eq_some_iff.mp hx
    rw [hstart] at hr
    obtain rfl : x = c := (List.cons.inj hr).1
    exact ⟨hblank, hsemi, hbracket⟩
  · have hcut := take_iniLength_prefix hchars hlen r
    rwa [hr] at hcut

/-- What a run of a line is made of, when the run does not go past the line. -/
theorem plain_of_takeWhile {start : Bytes} {p : UInt8 → Bool}
    (hp : ∀ x ∈ (start.dropWhile fun c => c ≠ 0x3D && c ≠ 0x0A).head?, p x = false) :
    ∀ x ∈ start.takeWhile p, x ≠ 0x3D ∧ x ≠ 0x0A := by
  intro x hx
  simpa using List.mem_takeWhile_imp (takeWhile_subset_takeWhile hp hx)

/-- The text before the equals sign. -/
theorem readKey_cut {start : Bytes} (h : Accepted start) (hstart : start = c :: rest)
    (hblank : leSpace c = false) (hsemi : c ≠ 0x3B) (hbracket : c ≠ 0x5B) {ptr : Bytes}
    (hline : start.dropWhile (fun c => c ≠ 0x3D && c ≠ 0x0A) = 0x3D :: ptr) :
    ReadKey start (CText.cstr (start.take
      (iniLength start (start.takeWhile fun c => c ≠ 0x3D && c ≠ 0x20).length))) := by
  have hspace : c ≠ 0x20 := by
    intro he
    rw [he] at hblank
    exact absurd hblank (by decide)
  have hplain : ∀ x ∈ start.takeWhile (fun c => c ≠ 0x3D && c ≠ 0x20), x ≠ 0x3D ∧ x ≠ 0x0A := by
    refine plain_of_takeWhile fun x hx => ?_
    rw [hline] at hx
    obtain rfl : 0x3D = x := Option.some.inj hx
    rfl
  by_cases hc : c = 0x3D
  · -- nothing before it, and so all the text
    have hnil : start.takeWhile (fun c => c ≠ 0x3D && c ≠ 0x20) = [] := by
      rw [hstart, hc]
      rfl
    rw [hnil, List.length_nil, take_iniLength_zero h]
    refine Or.inr ⟨List.suffix_refl _, ?_⟩
    rw [hstart, hc]
    rfl
  · have hne : start.takeWhile (fun c => c ≠ 0x3D && c ≠ 0x20) ≠ [] := by
      rw [hstart, List.takeWhile_cons_of_pos (by simp [hc, hspace])]
      exact List.cons_ne_nil _ _
    obtain ⟨hlegible, hcut⟩ := key_cut h hstart hblank hsemi hbracket (List.takeWhile_prefix _) hne
      hplain
    rw [hcut]
    exact Or.inl hlegible

/-- The text behind the equals sign, up to the end of the line. -/
theorem readValue_cut {start : Bytes} (h : Accepted start) {value : Bytes}
    (hvalue : ((start.dropWhile fun c => leSpace c && c ≠ 0x0A).takeWhile (· ≠ 0x0A)).rdropWhile
      leSpace = value) :
    LegibleValue value ∧ tidyValue value = value
      ∧ ∃ r, start.dropWhile (fun c => leSpace c && c ≠ 0x0A) = value ++ r := by
  generalize hstart2 : start.dropWhile (fun c => leSpace c && c ≠ 0x0A) = start2 at hvalue
  obtain ⟨r1, hr1⟩ := List.rdropWhile_prefix leSpace (start2.takeWhile (· ≠ 0x0A))
  obtain ⟨r2, hr2⟩ := List.takeWhile_prefix (fun c : UInt8 => c ≠ 0x0A) (l := start2)
  rw [hvalue] at hr1
  have hin : ∀ x ∈ value, x ∈ start2.takeWhile (· ≠ 0x0A) := by
    intro x hx
    rw [← hr1]
    exact List.mem_append_left _ hx
  have hend : ∀ x ∈ value, x ≠ 0x0A := by
    intro x hx
    simpa using List.mem_takeWhile_imp (hin x hx)
  have hlegible : LegibleValue value := by
    intro x hx
    have hmem : x ∈ start := (List.dropWhile_suffix _).subset
      (hstart2 ▸ List.takeWhile_subset _ (hin x hx))
    exact (h x hmem).resolve_right (hend x hx)
  refine ⟨hlegible, tidyValue_eq_self ?_ ?_, r1 ++ r2, ?_⟩
  · intro x hx
    obtain ⟨xs, hxs⟩ := List.head?_eq_some_iff.mp hx
    have hhead : start.dropWhile (fun c => leSpace c && c ≠ 0x0A) = x :: (xs ++ (r1 ++ r2)) := by
      rw [hstart2, ← hr2, ← hr1, hxs]
      simp
    have := head_dropWhile hhead
    have hx' := hend x (by rw [hxs]; exact List.mem_cons_self ..)
    simpa [hx'] using this
  · intro x hx
    have hne : value ≠ [] := by
      intro hnil
      rw [hnil] at hx
      cases hx
    subst hvalue
    have hlast := List.rdropWhile_last_not leSpace _ hne
    rw [List.getLast?_eq_some_getLast hne] at hx
    obtain rfl := Option.some.inj hx
    simpa using hlast
  · rw [← hr2, ← hr1, List.append_assoc]

/-- A line without an equals sign, up to the first control character. -/
theorem readBare_cut {start : Bytes} (h : Accepted start) (hstart : start = c :: rest)
    (hblank : leSpace c = false) (hsemi : c ≠ 0x3B) (hbracket : c ≠ 0x5B)
    (hline : ∀ ptr, start.dropWhile (fun c => c ≠ 0x3D && c ≠ 0x0A) ≠ 0x3D :: ptr) :
    ReadOption start
      (CText.cstr (start.take (iniLength start (start.takeWhile geSpace).length)))
      (CText.cstr (start.take (iniLength start (start.takeWhile geSpace).length))) := by
  have hplain : ∀ x ∈ start.takeWhile geSpace, x ≠ 0x3D ∧ x ≠ 0x0A := by
    refine plain_of_takeWhile fun x hx => ?_
    obtain ⟨ptr, hd⟩ := List.head?_eq_some_iff.mp hx
    have hx' : x = 0x3D ∨ x = 0x0A := by
      have := head_dropWhile hd
      by_cases hequals : x = 0x3D
      · exact Or.inl hequals
      · exact Or.inr (by simpa [hequals] using this)
    -- the line ends without an equals sign
    rcases hx' with rfl | rfl
    · exact absurd hd (hline ptr)
    · rfl
  have hne : start.takeWhile geSpace ≠ [] := by
    have hge : geSpace c = true := by
      unfold leSpace at hblank
      unfold geSpace
      rw [Bool.or_eq_false_iff, decide_eq_false_iff_not, decide_eq_false_iff_not] at hblank
      rw [Bool.and_eq_true, decide_eq_true_eq, decide_eq_true_eq]
      exact ⟨Nat.le_of_lt (Nat.not_le.mp hblank.1), Nat.not_le.mp hblank.2⟩
    rw [hstart, List.takeWhile_cons_of_pos hge]
    exact List.cons_ne_nil _ _
  obtain ⟨hlegible, hcut⟩ := key_cut h hstart hblank hsemi hbracket (List.takeWhile_prefix _) hne
    hplain
  rw [hcut]
  refine ⟨Or.inl hlegible, fun x hx => (hlegible.chars x hx).1, Or.inr ⟨rfl, ?_⟩⟩
  intro hcr
  exact absurd (List.mem_takeWhile_imp hcr) (by decide)

/-- **One round** ends the text, or takes something from its front and adds what it says. -/
theorem iniLoadLoop_round (fuel : Nat) (hs : s < ini.sections.length) (h : Accepted ptr) :
    iniLoadLoop (fuel + 1) ini s ptr = ini
      ∨ ∃ ini' s' ptr', iniLoadLoop (fuel + 1) ini s ptr = iniLoadLoop fuel ini' s' ptr'
        ∧ ptr' <:+ ptr ∧ ReadStep ptr ini s ini' s' := by
  cases hd : ptr.dropWhile leSpace with
  | nil =>
    refine Or.inl ?_
    rw [iniLoadLoop, hd]
  | cons c rest =>
    have hsuf : (c :: rest) <:+ ptr := hd ▸ List.dropWhile_suffix _
    have hrest : rest <:+ ptr := (List.suffix_cons c rest).trans hsuf
    have hblank := head_dropWhile hd
    refine Or.inr ?_
    rw [iniLoadLoop, hd]
    dsimp only
    -- a comment, a header, a line with an equals sign, or one without
    by_cases hsemi : c = 0x3B
    · rw [if_pos hsemi]
      exact ⟨ini, s, _, rfl, (List.dropWhile_suffix _).trans hsuf, .skip⟩
    · rw [if_neg hsemi]
      by_cases hbracket : c = 0x5B
      · rw [if_pos hbracket]
        split
        · rename_i ptr' hclosed
          refine ⟨_, _, ptr', rfl, ?_, (iniSectionAdd_read (h.suffix hrest) hclosed ini s).suffix hrest⟩
          exact (List.suffix_cons _ _).trans (hclosed ▸ (List.dropWhile_suffix _).trans hrest)
        · exact ⟨ini, s, _, rfl, (List.dropWhile_suffix _).trans hrest, .skip⟩
      · rw [if_neg hbracket]
        split
        · rename_i ptr' hline
          have hptr : ptr' <:+ ptr :=
            (List.suffix_cons _ _).trans (hline ▸ (List.dropWhile_suffix _).trans hsuf)
          have hkey := readKey_cut (h.suffix hsuf) rfl hblank hsemi hbracket hline
          obtain ⟨hlegible, htrim, r, hr⟩ := readValue_cut (h.suffix hptr) rfl
          generalize hv : ((ptr'.dropWhile fun c => leSpace c && c ≠ 0x0A).takeWhile
            (· ≠ 0x0A)).rdropWhile leSpace = value at hlegible htrim hr
          refine ⟨_, s, _, rfl, ?_, ?_⟩
          · exact (List.drop_suffix _ _).trans ((List.dropWhile_suffix _).trans hptr)
          · rw [hr, iniPropertyAdd_value hs _ _ hlegible]
            exact (ReadStep.option ⟨hkey, hlegible, Or.inl htrim⟩).suffix hsuf
        · rename_i hline
          have hstart : (c :: rest).dropWhile (fun c => leSpace c && c ≠ 0x0A) = c :: rest :=
            List.dropWhile_cons_of_neg (by simp [hblank])
          rw [hstart]
          refine ⟨_, s, _, rfl, (List.dropWhile_suffix _).trans hsuf, ?_⟩
          unfold iniPropertyAdd
          rw [if_pos hs]
          exact (ReadStep.option (readBare_cut (h.suffix hsuf) rfl hblank hsemi hbracket hline)).suffix
            hsuf

end Round

/-! ## All rounds -/

/-- **What every round keeps**, the whole reader keeps. -/
theorem iniLoadLoop_induct {data : Bytes} (h : Accepted data) {P : Ini → Nat → Prop}
    (hstep : ∀ {ini ini' : Ini} {s s' : Nat}, s < ini.sections.length →
      ReadStep data ini s ini' s' → P ini s → P ini' s') :
    ∀ (fuel : Nat) {ini : Ini} {s : Nat} {ptr : Bytes}, ptr <:+ data → s < ini.sections.length →
      P ini s → ∃ s', P (iniLoadLoop fuel ini s ptr) s' := by
  intro fuel
  induction fuel with
  | zero =>
    intro _ s _ _ _ hp
    exact ⟨s, hp⟩
  | succ fuel ih =>
    intro ini s ptr hsuf hs hp
    rcases iniLoadLoop_round fuel hs (h.suffix hsuf) with hend | ⟨ini', s', ptr', hgo, hptr, hread⟩
    · rw [hend]
      exact ⟨s, hp⟩
    · have hread := hread.suffix hsuf
      have hs' : s' < ini'.sections.length := by
        cases hread with
        | skip => exact hs
        | header _ => simp
        | option _ => exact hs
      rw [hgo]
      exact ih (hptr.trans hsuf) hs' (hstep hs hread hp)

/-- All that was read of a text. -/
structure ReadFrom (data : Bytes) (ini : Ini) : Prop where
  sections : ∃ names, ini.sections = [] :: names ∧ ∀ name ∈ names, ReadName data name
  options : ∀ p ∈ ini.properties, ReadOption data p.name p.value

theorem ReadFrom.step {data : Bytes} {ini ini' : Ini} {s s' : Nat} (h : ReadFrom data ini)
    (hread : ReadStep data ini s ini' s') : ReadFrom data ini' := by
  obtain ⟨names, hsections, hnames⟩ := h.sections
  cases hread with
  | skip => exact h
  | header hname =>
    refine ⟨⟨names ++ [_], by rw [hsections]; rfl, ?_⟩, h.options⟩
    intro name hmem
    rcases List.mem_append.mp hmem with hmem | hmem
    · exact hnames name hmem
    · rw [List.mem_singleton.mp hmem]
      exact hname
  | option hopt =>
    refine ⟨⟨names, hsections, hnames⟩, ?_⟩
    intro p hp
    rcases List.mem_append.mp hp with hp | hp
    · exact h.options p hp
    · rw [List.mem_singleton.mp hp]
      exact hopt

/-- **Whatever the text**, this is what is read of it. -/
theorem iniLoad_readFrom {data : Bytes} (h : Accepted data) : ReadFrom data (iniLoad data) := by
  have hcreate : ReadFrom data iniCreate := ⟨⟨[], rfl, fun _ hn => by cases hn⟩, fun _ hp => by cases hp⟩
  unfold iniLoad
  rw [h.cstr]
  obtain ⟨_, hread⟩ := iniLoadLoop_induct h (P := fun ini _ => ReadFrom data ini)
    (fun _ hread hini => hini.step hread) data.length (List.suffix_refl data) Nat.one_pos hcreate
  exact hread

/-- What was read stays. -/
theorem iniLoadLoop_grows {data : Bytes} (h : Accepted data) (fuel : Nat) {ini : Ini} {s : Nat}
    {ptr : Bytes} (hsuf : ptr <:+ data) (hs : s < ini.sections.length) :
    ini.properties <+: (iniLoadLoop fuel ini s ptr).properties := by
  obtain ⟨_, hgrown⟩ := iniLoadLoop_induct h (P := fun ini' _ => ini.properties <+: ini'.properties)
    (fun _ hread hini => by
      cases hread with
      | skip => exact hini
      | header _ => exact hini
      | option _ => exact hini.trans (List.prefix_append ..)) fuel hsuf hs (List.prefix_refl _)
  exact hgrown

/-- Behind the first header, no option goes to the global section. -/
theorem iniLoadLoop_index {data : Bytes} (h : Accepted data) (fuel : Nat) {ini : Ini} {s : Nat}
    {ptr : Bytes} (hsuf : ptr <:+ data) (hs : s < ini.sections.length) (hpos : 1 ≤ s)
    (hini : ∀ p ∈ ini.properties, 1 ≤ p.sectionIndex) :
    ∀ p ∈ (iniLoadLoop fuel ini s ptr).properties, 1 ≤ p.sectionIndex := by
  obtain ⟨_, _, hread⟩ := iniLoadLoop_induct h
    (P := fun ini s => 1 ≤ s ∧ ∀ p ∈ ini.properties, 1 ≤ p.sectionIndex)
    (fun hs hread ⟨hpos, hini⟩ => by
      cases hread with
      | skip => exact ⟨hpos, hini⟩
      | header _ => exact ⟨by omega, hini⟩
      | option _ =>
        refine ⟨hpos, ?_⟩
        intro p hp
        rcases List.mem_append.mp hp with hp | hp
        · exact hini p hp
        · rw [List.mem_singleton.mp hp]
          exact hpos) fuel hsuf hs ⟨hpos, hini⟩
  exact hread

/-! ## Texts that begin with a header or an equals sign -/

theorem iniLoad_header {start ptr : Bytes} (h : Accepted (0x5B :: start))
    (hclosed : start.dropWhile (fun c => c ≠ 0x5D && c ≠ 0x0A) = 0x5D :: ptr) :
    ∀ p ∈ (iniLoad (0x5B :: start)).properties, 1 ≤ p.sectionIndex := by
  have hdrop : (0x5B :: start).dropWhile leSpace = 0x5B :: start :=
    List.dropWhile_cons_of_neg (by decide)
  have hptr : ptr <:+ 0x5B :: start :=
    (List.suffix_cons _ _).trans (hclosed ▸ (List.dropWhile_suffix _).trans (List.suffix_cons _ _))
  unfold iniLoad
  rw [h.cstr, List.length_cons, iniLoadLoop, hdrop]
  dsimp only
  rw [if_neg (by decide), if_pos rfl, hclosed]
  exact iniLoadLoop_index h _ hptr (by simp [iniSectionAdd, iniCreate])
    (by simp [iniSectionAdd, iniCreate]) fun p hp => by cases hp

/-- **A text that begins with an equals sign** is a key. -/
theorem iniLoad_zeroKey {rest : Bytes} (h : Accepted (0x3D :: rest)) :
    ∃ value, (⟨0, 0x3D :: rest, value⟩ : IniProperty) ∈ (iniLoad (0x3D :: rest)).properties := by
  have hdrop : (0x3D :: rest).dropWhile leSpace = 0x3D :: rest :=
    List.dropWhile_cons_of_neg (by decide)
  have hline : (0x3D :: rest).dropWhile (fun c => c ≠ 0x3D && c ≠ 0x0A) = 0x3D :: rest :=
    List.dropWhile_cons_of_neg (by decide)
  have hkey : (0x3D :: rest).takeWhile (fun c => c ≠ 0x3D && c ≠ 0x20) = [] :=
    List.takeWhile_cons_of_neg (by decide)
  have hrest : rest <:+ 0x3D :: rest := List.suffix_cons _ _
  obtain ⟨hlegible, _, r, hr⟩ := readValue_cut (h.suffix hrest) rfl
  generalize hv : ((rest.dropWhile fun c => leSpace c && c ≠ 0x0A).takeWhile
    (· ≠ 0x0A)).rdropWhile leSpace = value at hlegible hr
  have hptr : r <:+ 0x3D :: rest :=
    (hr ▸ List.suffix_append value r).trans ((List.dropWhile_suffix _).trans hrest)
  refine ⟨value, ?_⟩
  unfold iniLoad
  rw [h.cstr, List.length_cons, iniLoadLoop, hdrop]
  dsimp only
  rw [if_neg (by decide), if_neg (by decide), hline]
  split
  · rename_i ptr heq
    obtain rfl : rest = ptr := (List.cons.inj heq).2
    rw [hv, hr, List.drop_left, hkey, iniPropertyAdd_value Nat.one_pos _ _ hlegible,
      List.length_nil, take_iniLength_zero h]
    exact (iniLoadLoop_grows h _ hptr Nat.one_pos).subset (List.mem_singleton_self _)
  · rename_i hno
    exact absurd rfl (hno rest)

end CommonLoader
