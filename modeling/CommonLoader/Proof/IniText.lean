import CommonLoader.Model.Ini

/-!
# What the INI writer writes, the INI reader reads

A `Doc` is what an INI file is about: sections and their options, in order. In a
legible one no text ends what it is part of: no bracket in the name of a section, no
equals sign in a key, no end of line anywhere. Reading the text of such a document
gives it back, section by section and line by line. Keys are cut at their first space
and values trimmed, and the sections that have no name leave no trace in the text.

Text is storable when none of that applies to it.
-/

namespace CommonLoader

open CText

/-- Sections with their options, in order. -/
abbrev Doc := List (Bytes × List (Bytes × Bytes))

/-! ## Storable text -/

/-- A character from the space to the tilde. -/
def printable (c : UInt8) : Bool := 0x20 ≤ c && c ≤ 0x7E

structure StorableName (name : Bytes) : Prop where
  ne_nil : name ≠ []
  chars : ∀ c ∈ name, printable c = true ∧ c ≠ 0x5D

structure StorableKey (key : Bytes) : Prop where
  ne_nil : key ≠ []
  chars : ∀ c ∈ key, printable c = true ∧ c ≠ 0x3D ∧ c ≠ 0x20
  head : ∀ c ∈ key.head?, c ≠ 0x3B ∧ c ≠ 0x5B

structure StorableValue (value : Bytes) : Prop where
  chars : ∀ c ∈ value, printable c = true
  head : ∀ c ∈ value.head?, c ≠ 0x20
  last : ∀ c ∈ value.getLast?, c ≠ 0x20

instance (name : Bytes) : Decidable (StorableName name) :=
  decidable_of_iff ((!name.isEmpty && name.all fun c => printable c && c != 0x5D) = true) (by
    simp only [Bool.and_eq_true, Bool.not_eq_true', List.isEmpty_eq_false_iff, List.all_eq_true,
      bne_iff_ne]
    exact ⟨fun h => ⟨h.1, h.2⟩, fun h => ⟨h.ne_nil, h.chars⟩⟩)

instance (key : Bytes) : Decidable (StorableKey key) :=
  decidable_of_iff ((!key.isEmpty && (key.all fun c => printable c && (c != 0x3D && c != 0x20))
      && key.head?.all fun c => c != 0x3B && c != 0x5B) = true) (by
    simp only [Bool.and_eq_true, Bool.not_eq_true', List.isEmpty_eq_false_iff, List.all_eq_true,
      Option.all_eq_true, bne_iff_ne]
    exact ⟨fun h => ⟨h.1.1, h.1.2, h.2⟩, fun h => ⟨⟨h.ne_nil, h.chars⟩, h.head⟩⟩)

instance (value : Bytes) : Decidable (StorableValue value) :=
  decidable_of_iff (((value.all printable) && (value.head?.all fun c => c != 0x20)
      && value.getLast?.all fun c => c != 0x20) = true) (by
    simp only [Bool.and_eq_true, List.all_eq_true, Option.all_eq_true, bne_iff_ne]
    exact ⟨fun h => ⟨h.1.1, h.1.2, h.2⟩, fun h => ⟨⟨h.chars, h.head⟩, h.last⟩⟩)

/-- A section with a name, or one without a name and without options. -/
def StorableSection (sec : Bytes × List (Bytes × Bytes)) : Prop :=
  (sec.1 = [] ∧ sec.2 = [])
    ∨ (StorableName sec.1 ∧ ∀ p ∈ sec.2, StorableKey p.1 ∧ StorableValue p.2)

/-! ## Legible text -/

/-- A character that the check for corruption lets pass inside a line. -/
def readable (c : UInt8) : Bool := printable c || c == 0x0D

structure LegibleName (name : Bytes) : Prop where
  ne_nil : name ≠ []
  chars : ∀ c ∈ name, readable c = true ∧ c ≠ 0x5D

structure LegibleKey (key : Bytes) : Prop where
  ne_nil : key ≠ []
  chars : ∀ c ∈ key, readable c = true ∧ c ≠ 0x3D
  head : ∀ c ∈ key.head?, leSpace c = false ∧ c ≠ 0x3B ∧ c ≠ 0x5B

def LegibleValue (value : Bytes) : Prop := ∀ c ∈ value, readable c = true

def LegibleOption (p : Bytes × Bytes) : Prop := LegibleKey p.1 ∧ LegibleValue p.2

def LegibleSection (sec : Bytes × List (Bytes × Bytes)) : Prop :=
  (sec.1 = [] ∧ sec.2 = []) ∨ (LegibleName sec.1 ∧ ∀ p ∈ sec.2, LegibleOption p)

theorem readable_plain {c : UInt8} (h : readable c = true) :
    c ≠ 0 ∧ c ≠ 0x0A ∧ (leSpace c = true ↔ c = 0x20 ∨ c = 0x0D) := by
  have key : ∀ i : Fin 256, readable (UInt8.ofNat i) = true →
      UInt8.ofNat i ≠ 0 ∧ UInt8.ofNat i ≠ 0x0A
        ∧ (leSpace (UInt8.ofNat i) = true ↔ UInt8.ofNat i = 0x20 ∨ UInt8.ofNat i = 0x0D) := by
    decide +kernel
  have := key ⟨c.toNat, c.toNat_lt⟩
  simpa only [UInt8.ofNat_toNat] using this (by simpa only [UInt8.ofNat_toNat] using h)

theorem readable_of_printable {c : UInt8} (h : printable c = true) :
    readable c = true ∧ (c ≠ 0x20 → leSpace c = false) := by
  have key : ∀ i : Fin 256, printable (UInt8.ofNat i) = true →
      readable (UInt8.ofNat i) = true
        ∧ (UInt8.ofNat i ≠ 0x20 → leSpace (UInt8.ofNat i) = false) := by decide +kernel
  have := key ⟨c.toNat, c.toNat_lt⟩
  simpa only [UInt8.ofNat_toNat] using this (by simpa only [UInt8.ofNat_toNat] using h)

theorem readable_iff {c : UInt8} : readable c = true ↔ printable c = true ∨ c = 0x0D := by
  unfold readable
  rw [Bool.or_eq_true, beq_iff_eq]

theorem cstr_of_readable {text : Bytes} (h : ∀ c ∈ text, readable c = true) : cstr text = text :=
  cstr_eq_self fun h0 => (readable_plain (h 0 h0)).1 rfl

/-- A text that the check for corruption lets pass. -/
def Accepted (data : Bytes) : Prop := ∀ c ∈ data, readable c = true ∨ c = 0x0A

theorem Accepted.suffix {ptr data : Bytes} (h : Accepted data) (hsuf : ptr <:+ data) :
    Accepted ptr := fun c hc => h c (hsuf.subset hc)

theorem Accepted.noNul {data : Bytes} (h : Accepted data) : (0 : UInt8) ∉ data := by
  intro h0
  rcases h 0 h0 with h0 | h0
  · exact (readable_plain h0).1 rfl
  · exact absurd h0 (by decide)

theorem Accepted.cstr {data : Bytes} (h : Accepted data) : cstr data = data :=
  cstr_eq_self h.noNul

/-! ## What the reader makes of it -/

/-- A key ends at its first space. -/
def tidyKey (key : Bytes) : Bytes := key.takeWhile (· ≠ 0x20)

/-- A value is trimmed. -/
def tidyValue (value : Bytes) : Bytes := (value.dropWhile leSpace).rdropWhile leSpace

def tidyOption (p : Bytes × Bytes) : Bytes × Bytes := (tidyKey p.1, tidyValue p.2)

def tidySection (sec : Bytes × List (Bytes × Bytes)) : Bytes × List (Bytes × Bytes) :=
  (sec.1, sec.2.map tidyOption)

theorem tidyKey_eq_self {key : Bytes} (h : (0x20 : UInt8) ∉ key) : tidyKey key = key := by
  refine List.takeWhile_eq_self_iff.mpr fun c hc => ?_
  have hne : c ≠ 0x20 := fun he => h (he ▸ hc)
  simpa using hne

theorem tidyValue_eq_self {value : Bytes} (hhead : ∀ c ∈ value.head?, leSpace c = false)
    (hlast : ∀ c ∈ value.getLast?, leSpace c = false) : tidyValue value = value := by
  have hdrop : value.dropWhile leSpace = value := by
    cases value with
    | nil => rfl
    | cons c value =>
      exact List.dropWhile_cons_of_neg (by rw [hhead c rfl]; exact Bool.false_ne_true)
  unfold tidyValue
  rw [hdrop]
  refine List.rdropWhile_eq_self_iff.mpr fun hne => ?_
  rw [hlast _ (by rw [List.getLast?_eq_some_getLast hne]; rfl)]
  exact Bool.false_ne_true

theorem StorableName.legible {name : Bytes} (h : StorableName name) : LegibleName name :=
  ⟨h.ne_nil, fun c hc => ⟨(readable_of_printable (h.chars c hc).1).1, (h.chars c hc).2⟩⟩

theorem StorableKey.legible {key : Bytes} (h : StorableKey key) :
    LegibleKey key ∧ (0x20 : UInt8) ∉ key := by
  refine ⟨⟨h.ne_nil, ?_, ?_⟩, fun hc => (h.chars _ hc).2.2 rfl⟩
  · intro c hc
    exact ⟨(readable_of_printable (h.chars c hc).1).1, (h.chars c hc).2.1⟩
  · intro c hc
    obtain ⟨h1, _, h2⟩ := h.chars c (List.mem_of_mem_head? hc)
    exact ⟨(readable_of_printable h1).2 h2, h.head c hc⟩

theorem StorableValue.legible {value : Bytes} (h : StorableValue value) :
    LegibleValue value ∧ tidyValue value = value := by
  refine ⟨fun c hc => (readable_of_printable (h.chars c hc)).1, tidyValue_eq_self ?_ ?_⟩
  · intro c hc
    exact (readable_of_printable (h.chars c (List.mem_of_mem_head? hc))).2 (h.head c hc)
  · intro c hc
    exact (readable_of_printable (h.chars c (List.mem_of_getLast? hc))).2 (h.last c hc)

theorem StorableSection.legible {sec : Bytes × List (Bytes × Bytes)} (h : StorableSection sec) :
    LegibleSection sec ∧ ∀ p ∈ sec.2, tidyOption p = p := by
  rcases h with ⟨hname, hopts⟩ | ⟨hname, hopts⟩
  · refine ⟨Or.inl ⟨hname, hopts⟩, ?_⟩
    intro p hp
    rw [hopts] at hp
    cases hp
  · refine ⟨Or.inr ⟨hname.legible, ?_⟩, ?_⟩
    · intro p hp
      exact ⟨(hopts p hp).1.legible.1, (hopts p hp).2.legible.1⟩
    · intro p hp
      obtain ⟨hk, hv⟩ := hopts p hp
      exact Prod.ext (tidyKey_eq_self hk.legible.2) hv.legible.2

/-! ## The document as the library holds it -/

/-- The options of the sections, the first of which has index `i`. -/
def taggedOptions : Doc → Nat → List IniProperty
  | [], _ => []
  | sec :: d, i => sec.2.map (fun p => ⟨i, p.1, p.2⟩) ++ taggedOptions d (i + 1)

/-- The global section, and then the document. -/
def Doc.toIni (d : Doc) : Ini := ⟨[] :: d.map Prod.fst, taggedOptions d 1⟩

/-- What is read of options that stand before the first section, and of the sections. -/
def Doc.withGlobal (d : Doc) (options : List (Bytes × Bytes)) : Ini :=
  ⟨[] :: d.map Prod.fst, options.map (fun p => ⟨0, p.1, p.2⟩) ++ taggedOptions d 1⟩

/-- The document without its nameless sections. -/
def Doc.named (d : Doc) : Doc := d.filter fun sec => sec.1 ≠ []

theorem le_sectionIndex : ∀ (d : Doc) (i : Nat), ∀ p ∈ taggedOptions d i, i ≤ p.sectionIndex := by
  intro d
  induction d with
  | nil =>
    intro _ _ hp
    exact absurd hp List.not_mem_nil
  | cons sec d ih =>
    intro i p hp
    rcases List.mem_append.mp hp with h | h
    · obtain ⟨q, _, rfl⟩ := List.mem_map.mp h
      exact Nat.le_refl i
    · exact Nat.le_of_succ_le (ih (i + 1) p h)

/-- The options tagged with the first index are those of the first section. -/
theorem filter_taggedOptions (sec : Bytes × List (Bytes × Bytes)) (d : Doc) (i : Nat) :
    (taggedOptions (sec :: d) i).filter (fun p => p.sectionIndex = i)
      = sec.2.map fun p => ⟨i, p.1, p.2⟩ := by
  rw [taggedOptions, List.filter_append, List.filter_eq_self.mpr, List.filter_eq_nil_iff.mpr,
    List.append_nil]
  · intro p hp
    have := le_sectionIndex d (i + 1) p hp
    simp only [decide_eq_true_eq]
    omega
  · intro p hp
    obtain ⟨q, _, rfl⟩ := List.mem_map.mp hp
    simp only [decide_true]

theorem filter_taggedOptions_ne (sec : Bytes × List (Bytes × Bytes)) (d : Doc) {i k : Nat}
    (hk : i < k) : (taggedOptions (sec :: d) i).filter (fun p => p.sectionIndex = k)
      = (taggedOptions d (i + 1)).filter fun p => p.sectionIndex = k := by
  rw [taggedOptions, List.filter_append, List.filter_eq_nil_iff.mpr, List.nil_append]
  intro p hp
  obtain ⟨q, _, rfl⟩ := List.mem_map.mp hp
  simp only [decide_eq_true_eq]
  omega

/-! ## Writing -/

/-- One line. -/
def optionText (p : Bytes × Bytes) : Bytes := p.1 ++ [0x3D] ++ p.2 ++ [0x0A]

def sectionText (sec : Bytes × List (Bytes × Bytes)) : Bytes :=
  iniSaveHeader sec.1 ++ sec.2.flatMap optionText ++ [0x0A]

def docText (d : Doc) : Bytes := d.flatMap sectionText

/-- Once something is written, the loop appends the text of every section to come. -/
theorem iniSaveLoop_append {ini : Ini} : ∀ (d : Doc) (i : Nat) (data : Bytes), data ≠ [] →
    (∀ k, i ≤ k → iniProperties ini k = (taggedOptions d i).filter fun p => p.sectionIndex = k) →
    iniSaveLoop ini (d.map Prod.fst) i data = data ++ docText d
  | [], _, data, _, _ => (List.append_nil data).symm
  | sec :: d, i, data, hdata, hini => by
      have hlines : (iniProperties ini i).flatMap iniSaveProperty = sec.2.flatMap optionText := by
        rw [hini i (Nat.le_refl i), filter_taggedOptions, List.flatMap_map]
        rfl
      have hlong : 0 < (data ++ iniSaveHeader sec.1 ++ sec.2.flatMap optionText).length := by
        rw [List.append_assoc, List.length_append]
        exact Nat.add_pos_left (List.length_pos_iff.mpr hdata) _
      have ih := iniSaveLoop_append d (i + 1)
        (data ++ iniSaveHeader sec.1 ++ sec.2.flatMap optionText ++ [0x0A])
        (fun h => by simp at h) fun k hk => by
          rw [hini k (by omega), filter_taggedOptions_ne sec d hk]
      rw [List.map_cons, iniSaveLoop]
      rw [hlines, if_pos hlong, ih, show docText (sec :: d) = sectionText sec ++ docText d from rfl,
        sectionText]
      simp only [List.append_assoc]

/-- A section that leaves nothing in the text when it comes first. -/
def Silent (sec : Bytes × List (Bytes × Bytes)) : Prop := sec.1 = [] ∧ sec.2 = []

instance : DecidablePred Silent := fun _ => inferInstanceAs (Decidable (_ ∧ _))

theorem dropWhile_silent {sec : Bytes × List (Bytes × Bytes)} (h : Silent sec) (d : Doc) :
    (sec :: d).dropWhile (fun sec => Silent sec) = d.dropWhile fun sec => Silent sec :=
  List.dropWhile_cons_of_pos (decide_eq_true h)

theorem dropWhile_loud {sec : Bytes × List (Bytes × Bytes)} (h : ¬Silent sec) (d : Doc) :
    (sec :: d).dropWhile (fun sec => Silent sec) = sec :: d :=
  List.dropWhile_cons_of_neg (by simpa using h)

/-- A section that is not silent writes something. -/
theorem loud_length {sec : Bytes × List (Bytes × Bytes)} (hs : ¬Silent sec) :
    0 < (iniSaveHeader sec.1 ++ sec.2.flatMap optionText).length := by
  refine List.length_pos_iff.mpr fun hnil => hs ?_
  obtain ⟨hhead, hopts⟩ := List.append_eq_nil_iff.mp hnil
  refine ⟨?_, ?_⟩
  · by_contra hne
    unfold iniSaveHeader at hhead
    rw [if_pos (List.length_pos_iff.mpr hne)] at hhead
    simp at hhead
  · cases hsec : sec.2 with
    | nil => rfl
    | cons p options =>
      rw [hsec, List.flatMap_cons] at hopts
      simp [optionText] at hopts

/-- Before that, silent sections write nothing at all. -/
theorem iniSaveLoop_nil {ini : Ini} : ∀ (d : Doc) (i : Nat),
    (∀ k, i ≤ k → iniProperties ini k = (taggedOptions d i).filter fun p => p.sectionIndex = k) →
    iniSaveLoop ini (d.map Prod.fst) i [] = docText (d.dropWhile fun sec => Silent sec)
  | [], _, _ => rfl
  | sec :: d, i, hini => by
      have hlines : (iniProperties ini i).flatMap iniSaveProperty = sec.2.flatMap optionText := by
        rw [hini i (Nat.le_refl i), filter_taggedOptions, List.flatMap_map]
        rfl
      have hrest : ∀ k, i + 1 ≤ k →
          iniProperties ini k = (taggedOptions d (i + 1)).filter fun p => p.sectionIndex = k := by
        intro k hk
        rw [hini k (by omega), filter_taggedOptions_ne sec d hk]
      rw [List.map_cons, iniSaveLoop]
      rw [hlines, List.nil_append]
      by_cases hs : Silent sec
      · -- nothing yet
        rw [dropWhile_silent hs, hs.1, hs.2]
        exact iniSaveLoop_nil d (i + 1) hrest
      · -- from here on the text is not empty, and every section ends with a line of its own
        rw [if_pos (loud_length hs), dropWhile_loud hs,
          iniSaveLoop_append d (i + 1) _ (fun h => by simp at h) hrest]
        rfl

/-- **The text of a document.** -/
theorem iniSave_toIni (d : Doc) :
    iniSave d.toIni = docText (d.dropWhile fun sec => Silent sec) := by
  have hzero : iniProperties d.toIni 0 = [] := by
    refine List.filter_eq_nil_iff.mpr fun p hp => ?_
    have := le_sectionIndex d 1 p hp
    simp only [decide_eq_true_eq]
    omega
  have hhead : iniSaveHeader [] = [] := rfl
  unfold iniSave
  rw [show d.toIni.sections = [] :: d.map Prod.fst from rfl, iniSaveLoop]
  rw [hzero, hhead]
  exact iniSaveLoop_nil d 1 fun k _ => rfl

theorem iniSave_cons_silent (d : Doc) : iniSave (Doc.toIni (([], []) :: d)) = iniSave d.toIni := by
  rw [iniSave_toIni, iniSave_toIni, dropWhile_silent ⟨rfl, rfl⟩]

/-- Every character of the text is from the document, or one of the four that the writer adds. -/
theorem docText_chars {P : UInt8 → Prop} (hopen : P 0x5B) (hclose : P 0x5D) (hequals : P 0x3D)
    (hend : P 0x0A) {d : Doc} (hnames : ∀ sec ∈ d, ∀ c ∈ sec.1, P c)
    (hkeys : ∀ sec ∈ d, ∀ p ∈ sec.2, ∀ c ∈ p.1, P c)
    (hvalues : ∀ sec ∈ d, ∀ p ∈ sec.2, ∀ c ∈ p.2, P c) : ∀ c ∈ docText d, P c := by
  intro c hc
  obtain ⟨sec, hsec, hc⟩ := List.mem_flatMap.mp hc
  -- a header adds brackets and a line end, a line an equals sign and a line end
  have hhead : ∀ x ∈ iniSaveHeader sec.1, P x := by
    intro x hx
    unfold iniSaveHeader at hx
    split at hx
    · simp only [List.mem_append, List.mem_cons, List.not_mem_nil, or_false] at hx
      rcases hx with (rfl | hx) | rfl | rfl
      · exact hopen
      · exact hnames sec hsec x hx
      · exact hclose
      · exact hend
    · cases hx
  have hline : ∀ p ∈ sec.2, ∀ x ∈ optionText p, P x := by
    intro p hp x hx
    unfold optionText at hx
    simp only [List.mem_append, List.mem_cons, List.not_mem_nil, or_false] at hx
    rcases hx with ((hx | rfl) | hx) | rfl
    · exact hkeys sec hsec p hp x hx
    · exact hequals
    · exact hvalues sec hsec p hp x hx
    · exact hend
  unfold sectionText at hc
  rcases List.mem_append.mp hc with hc | hc
  · rcases List.mem_append.mp hc with hc | hc
    · exact hhead c hc
    · obtain ⟨p, hp, hc⟩ := List.mem_flatMap.mp hc
      exact hline p hp c hc
  · obtain rfl := List.mem_singleton.mp hc
    exact hend

/-! ## Reading -/

/-- Blanks before a line do not count. -/
theorem iniLoadLoop_blank {w : Bytes} (hw : ∀ c ∈ w, leSpace c = true) (fuel : Nat) (ini : Ini)
    (s : Nat) (ptr : Bytes) : iniLoadLoop fuel ini s (w ++ ptr) = iniLoadLoop fuel ini s ptr := by
  cases fuel with
  | zero => rfl
  | succ fuel =>
    rw [iniLoadLoop, iniLoadLoop, List.dropWhile_append_of_pos hw]

/-- Nor does an empty line. -/
theorem iniLoadLoop_newline (fuel : Nat) (ini : Ini) (s : Nat) (ptr : Bytes) :
    iniLoadLoop fuel ini s (0x0A :: ptr) = iniLoadLoop fuel ini s ptr :=
  iniLoadLoop_blank (w := [0x0A]) (fun c hc => by obtain rfl := List.mem_singleton.mp hc; rfl)
    fuel ini s ptr

theorem iniLoadLoop_header {name : Bytes} (h : LegibleName name) (fuel : Nat) (ini : Ini) (s : Nat)
    (ptr : Bytes) :
    iniLoadLoop (fuel + 1) ini s (0x5B :: (name ++ 0x5D :: ptr))
      = iniLoadLoop fuel ⟨ini.sections ++ [name], ini.properties⟩ ini.sections.length ptr := by
  have hrun := takeWhile_until (fun c => c ≠ 0x5D && c ≠ 0x0A) 0x5D ptr
    (fun c (hc : c ∈ name) => by
      have h1 := h.chars c hc
      have h2 := (readable_plain h1.1).2.1
      simp [h1.2, h2]) rfl
  have hlen : name.length ≠ 0 := fun h0 => h.ne_nil (List.length_eq_zero_iff.mp h0)
  have hdrop : (0x5B :: (name ++ 0x5D :: ptr)).dropWhile leSpace = 0x5B :: (name ++ 0x5D :: ptr) :=
    List.dropWhile_cons_of_neg (by decide)
  rw [iniLoadLoop, hdrop]
  dsimp only
  rw [if_neg (by decide), if_pos rfl, hrun.1, hrun.2]
  unfold iniSectionAdd iniLength
  rw [if_neg hlen, List.take_left, cstr_of_readable fun c hc => (h.chars c hc).1]
  rfl

/-- A property with a value, empty or not. -/
theorem iniPropertyAdd_value {ini : Ini} {s : Nat} (hs : s < ini.sections.length) (start : Bytes)
    (l : Nat) {value : Bytes} (h : LegibleValue value) (r : Bytes) :
    (if value.length = 0 then iniPropertyAdd ini s start l [] 1
      else iniPropertyAdd ini s start l (value ++ r) value.length)
      = ⟨ini.sections, ini.properties ++ [⟨s, cstr (start.take (iniLength start l)), value⟩]⟩ := by
  unfold iniPropertyAdd
  rw [if_pos hs, if_pos hs]
  split
  · rename_i h0
    rw [List.length_eq_zero_iff.mp h0]
    rfl
  · rename_i h0
    have hcut : iniLength (value ++ r) value.length = value.length := if_neg h0
    rw [hcut, List.take_left, cstr_of_readable h]

/-- The value of a line, and the blanks behind it that are left. -/
theorem tidyValue_append {value : Bytes} (h : LegibleValue value) (ptr : Bytes) :
    ∃ ws, (∀ c ∈ ws, leSpace c = true)
      ∧ (value ++ 0x0A :: ptr).dropWhile (fun c => leSpace c && c ≠ 0x0A)
        = tidyValue value ++ (ws ++ 0x0A :: ptr)
      ∧ (((value ++ 0x0A :: ptr).dropWhile (fun c => leSpace c && c ≠ 0x0A)).takeWhile
          (· ≠ 0x0A)).rdropWhile leSpace = tidyValue value := by
  have hplain : ∀ c ∈ value, (leSpace c && decide (c ≠ 0x0A)) = leSpace c := by
    intro c hc
    simp [(readable_plain (h c hc)).2.1]
  have hdrop : (value ++ 0x0A :: ptr).dropWhile (fun c => leSpace c && c ≠ 0x0A)
      = value.dropWhile leSpace ++ 0x0A :: ptr := by
    clear h
    induction value with
    | nil => exact List.dropWhile_cons_of_neg (by decide)
    | cons c value ih =>
      have hc := hplain c (List.mem_cons_self ..)
      rw [List.cons_append, List.dropWhile_cons, List.dropWhile_cons, hc,
        ih fun c' hc' => hplain c' (List.mem_cons_of_mem _ hc')]
      split <;> rfl
  have hline : (value.dropWhile leSpace ++ 0x0A :: ptr).takeWhile (· ≠ 0x0A)
      = value.dropWhile leSpace := by
    refine (takeWhile_until (fun c => c ≠ 0x0A) 0x0A ptr (fun c hc => ?_) rfl).1
    simp [(readable_plain (h c ((List.dropWhile_suffix _).subset hc))).2.1]
  refine ⟨(value.dropWhile leSpace).rtakeWhile leSpace, ?_, ?_, ?_⟩
  · intro c hc
    exact List.mem_rtakeWhile_imp hc
  · rw [hdrop, ← List.append_assoc]
    unfold tidyValue
    rw [List.rdropWhile_append_rtakeWhile]
  · rw [hdrop, hline]
    rfl

theorem LegibleValue.tidy {value : Bytes} (h : LegibleValue value) : LegibleValue (tidyValue value) :=
  fun x hx => h x ((List.dropWhile_suffix _).subset ((List.rdropWhile_prefix _ _).subset hx))

theorem tidyKey_ne_nil {key : Bytes} (h : LegibleKey key) : tidyKey key ≠ [] := by
  obtain ⟨c, cs, rfl⟩ := List.exists_cons_of_ne_nil h.ne_nil
  have hc : c ≠ 0x20 := by
    intro he
    have hblank := (h.head c rfl).1
    rw [he] at hblank
    exact absurd hblank (by decide)
  unfold tidyKey
  rw [List.takeWhile_cons_of_pos (by simpa using hc)]
  exact List.cons_ne_nil _ _

/-- The line is cut at the equals sign, and the key at its first space. -/
theorem tidyKey_append {key : Bytes} (h : LegibleKey key) (rest : Bytes) :
    (key ++ 0x3D :: rest).dropWhile (fun c => c ≠ 0x3D && c ≠ 0x0A) = 0x3D :: rest
      ∧ (key ++ 0x3D :: rest).takeWhile (fun c => c ≠ 0x3D && c ≠ 0x20) = tidyKey key
      ∧ cstr ((key ++ 0x3D :: rest).take (iniLength (key ++ 0x3D :: rest) (tidyKey key).length))
        = tidyKey key := by
  have hplain : ∀ c ∈ key, c ≠ 0x3D ∧ c ≠ 0x0A := by
    intro c hc
    obtain ⟨h1, h2⟩ := h.chars c hc
    exact ⟨h2, (readable_plain h1).2.1⟩
  refine ⟨?_, ?_, ?_⟩
  · exact (takeWhile_until (fun c => c ≠ 0x3D && c ≠ 0x0A) 0x3D rest
      (fun c (hc : c ∈ key) => by simp [hplain c hc]) rfl).2
  · rw [takeWhile_stop _ _ _ (by decide)]
    exact takeWhile_congr fun c hc => by simp [(hplain c hc).1]
  · have hkept : (tidyKey key).length ≠ 0 := fun h0 =>
      tidyKey_ne_nil h (List.length_eq_zero_iff.mp h0)
    obtain ⟨keyRest, hkeyRest⟩ := List.takeWhile_prefix (fun c : UInt8 => c ≠ 0x20) (l := key)
    have htext : key ++ 0x3D :: rest = tidyKey key ++ (keyRest ++ 0x3D :: rest) := by
      rw [← List.append_assoc]
      exact congrArg (· ++ _) hkeyRest.symm
    have hcut : iniLength (key ++ 0x3D :: rest) (tidyKey key).length = (tidyKey key).length :=
      if_neg hkept
    rw [hcut, htext, List.take_left]
    exact cstr_of_readable fun x hx => (h.chars x (List.takeWhile_subset _ hx)).1

theorem iniLoadLoop_option {p : Bytes × Bytes} (h : LegibleOption p)
    (fuel : Nat) (ini : Ini) {s : Nat} (hs : s < ini.sections.length) (ptr : Bytes) :
    iniLoadLoop (fuel + 1) ini s (optionText p ++ ptr)
      = iniLoadLoop fuel
          ⟨ini.sections, ini.properties ++ [⟨s, (tidyOption p).1, (tidyOption p).2⟩]⟩ s ptr := by
  obtain ⟨key, value⟩ := p
  obtain ⟨hk, hv⟩ : LegibleKey key ∧ LegibleValue value := h
  have htext : optionText (key, value) ++ ptr = key ++ 0x3D :: (value ++ 0x0A :: ptr) := by
    simp [optionText]
  obtain ⟨hwalk, hname, hkept⟩ := tidyKey_append hk (value ++ 0x0A :: ptr)
  obtain ⟨ws, hws, hstart, hvalue⟩ := tidyValue_append hv ptr
  obtain ⟨c, cs, rfl⟩ := List.exists_cons_of_ne_nil hk.ne_nil
  obtain ⟨hblank, hsemi, hbracket⟩ := hk.head c rfl
  have hdrop : (c :: cs ++ 0x3D :: (value ++ 0x0A :: ptr)).dropWhile leSpace
      = c :: (cs ++ 0x3D :: (value ++ 0x0A :: ptr)) :=
    List.dropWhile_cons_of_neg (by simp [hblank])
  have hcons : c :: (cs ++ 0x3D :: (value ++ 0x0A :: ptr))
      = c :: cs ++ 0x3D :: (value ++ 0x0A :: ptr) := rfl
  rw [htext, iniLoadLoop, hdrop]
  dsimp only
  rw [if_neg hsemi, if_neg hbracket, hcons, hwalk]
  split
  · rename_i ptr' heq
    obtain rfl : value ++ 0x0A :: ptr = ptr' := (List.cons.inj heq).2
    rw [hname, hvalue, hstart, List.drop_left, iniLoadLoop_blank hws, iniLoadLoop_newline,
      iniPropertyAdd_value hs _ _ hv.tidy, hkept]
    rfl
  · rename_i hno
    exact absurd rfl (hno _)

/-- The options of one section, and whatever follows them. -/
theorem iniLoadLoop_options {s : Nat} (ptr : Bytes) : ∀ (options : List (Bytes × Bytes)) (fuel : Nat)
    (ini : Ini), (∀ p ∈ options, LegibleOption p) → s < ini.sections.length →
    (options.flatMap optionText ++ ptr).length ≤ fuel →
    ∃ fuel', ptr.length ≤ fuel' ∧ iniLoadLoop fuel ini s (options.flatMap optionText ++ ptr)
      = iniLoadLoop fuel' ⟨ini.sections, ini.properties
          ++ (options.map tidyOption).map fun p => ⟨s, p.1, p.2⟩⟩ s ptr
  | [], fuel, ini, _, _, hf => ⟨fuel, hf, by rw [List.map_nil, List.map_nil, List.append_nil]; rfl⟩
  | p :: options, fuel, ini, hp, hs, hf => by
      have htext : (p :: options).flatMap optionText ++ ptr
          = optionText p ++ (options.flatMap optionText ++ ptr) := by
        rw [List.flatMap_cons, List.append_assoc]
      have hlong : 0 < (optionText p).length := by simp [optionText]
      rw [htext, List.length_append] at hf
      obtain ⟨fuel, rfl⟩ : ∃ n, fuel = n + 1 := ⟨fuel - 1, by omega⟩
      obtain ⟨fuel', hf', hrest⟩ := iniLoadLoop_options ptr options fuel
        ⟨ini.sections, ini.properties ++ [⟨s, (tidyOption p).1, (tidyOption p).2⟩]⟩
        (fun q hq => hp q (List.mem_cons_of_mem _ hq)) hs (by omega)
      refine ⟨fuel', hf', ?_⟩
      rw [htext, iniLoadLoop_option (hp p (List.mem_cons_self ..)) fuel ini hs, hrest]
      simp only [List.append_assoc, List.map_cons, List.singleton_append]

theorem iniLoadLoop_nil (fuel : Nat) (ini : Ini) (s : Nat) : iniLoadLoop fuel ini s [] = ini := by
  cases fuel <;> rfl

/-- **A document is read section by section**, whatever was read before it. -/
theorem iniLoadLoop_doc : ∀ (d : Doc) (fuel : Nat) (ini : Ini) (s : Nat),
    (∀ sec ∈ d, LegibleSection sec) → (docText d).length ≤ fuel →
    iniLoadLoop fuel ini s (docText d)
      = ⟨ini.sections ++ (d.named.map tidySection).map Prod.fst,
          ini.properties ++ taggedOptions (d.named.map tidySection) ini.sections.length⟩
  | [], fuel, ini, s, _, _ => by
      rw [show docText [] = [] from rfl, iniLoadLoop_nil]
      simp [Doc.named, taggedOptions]
  | sec :: d, fuel, ini, s, hd, hf => by
      have hrest := fun sec' h => hd sec' (List.mem_cons_of_mem _ h)
      have htext : docText (sec :: d) = sectionText sec ++ docText d := rfl
      rw [htext] at hf ⊢
      rcases hd sec (List.mem_cons_self ..) with ⟨hname, hopts⟩ | ⟨hname, hopts⟩
      · -- a section without name is a blank line
        have hblank : sectionText sec = [0x0A] := by
          unfold sectionText
          rw [hname, hopts]
          rfl
        have hnamed : Doc.named (sec :: d) = Doc.named d :=
          List.filter_cons_of_neg (by simpa using hname)
        rw [hblank, List.length_append, List.length_singleton] at hf
        rw [hblank, List.singleton_append, iniLoadLoop_newline, hnamed]
        exact iniLoadLoop_doc d fuel ini s hrest (by omega)
      · have hsec : sectionText sec ++ docText d = 0x5B :: (sec.1 ++ 0x5D :: (0x0A ::
            (sec.2.flatMap optionText ++ 0x0A :: docText d))) := by
          unfold sectionText iniSaveHeader
          rw [if_pos (List.length_pos_iff.mpr hname.ne_nil)]
          simp
        have hnamed : Doc.named (sec :: d) = sec :: Doc.named d :=
          List.filter_cons_of_pos (by simpa using hname.ne_nil)
        rw [hsec] at hf ⊢
        simp only [List.length_cons, List.length_append] at hf
        obtain ⟨fuel, rfl⟩ : ∃ n, fuel = n + 1 := ⟨fuel - 1, by omega⟩
        obtain ⟨fuel', hf', hopt⟩ := iniLoadLoop_options (s := ini.sections.length)
          (0x0A :: docText d) sec.2 fuel ⟨ini.sections ++ [sec.1], ini.properties⟩ hopts
          (by rw [List.length_append, List.length_singleton]; omega)
          (by rw [List.length_append, List.length_cons]; omega)
        rw [List.length_cons] at hf'
        rw [iniLoadLoop_header hname, iniLoadLoop_newline, hopt, iniLoadLoop_newline,
          iniLoadLoop_doc d fuel' _ _ hrest (by omega), hnamed]
        simp [taggedOptions, tidySection]

theorem named_dropWhile (d : Doc) : Doc.named (d.dropWhile fun sec => Silent sec) = d.named := by
  induction d with
  | nil => rfl
  | cons sec d ih =>
    by_cases h : Silent sec
    · rw [dropWhile_silent h, ih]
      exact (List.filter_cons_of_neg (by simpa using h.1)).symm
    · rw [dropWhile_loud h]

/-- No character of such a document ends the text. -/
theorem docText_accepted {d : Doc}
    (hd : ∀ sec ∈ d, (sec.1 = [] ∨ LegibleName sec.1) ∧ ∀ p ∈ sec.2, LegibleOption p) :
    Accepted (docText d) := by
  refine docText_chars (Or.inl rfl) (Or.inl rfl) (Or.inl rfl) (Or.inr rfl) ?_ ?_ ?_
  · intro sec hsec c hc
    rcases (hd sec hsec).1 with hnil | hname
    · rw [hnil] at hc
      cases hc
    · exact Or.inl (hname.chars c hc).1
  · intro sec hsec p hp c hc
    exact Or.inl (((hd sec hsec).2 p hp).1.chars c hc).1
  · intro sec hsec p hp c hc
    exact Or.inl (((hd sec hsec).2 p hp).2 c hc)

theorem LegibleSection.parts {sec : Bytes × List (Bytes × Bytes)} (h : LegibleSection sec) :
    (sec.1 = [] ∨ LegibleName sec.1) ∧ ∀ p ∈ sec.2, LegibleOption p := by
  rcases h with ⟨hname, hopts⟩ | ⟨hname, hopts⟩
  · refine ⟨Or.inl hname, ?_⟩
    intro p hp
    rw [hopts] at hp
    cases hp
  · exact ⟨Or.inr hname, hopts⟩

/--
**Round trip.** What was saved of a document is loaded again, tidied. Options without a
section can stand before all others.
-/
theorem iniLoad_iniSave {options : List (Bytes × Bytes)} {d : Doc}
    (ho : ∀ p ∈ options, LegibleOption p) (hd : ∀ sec ∈ d, LegibleSection sec) :
    iniLoad (iniSave (Doc.toIni (([], options) :: d)))
      = Doc.withGlobal (d.named.map tidySection) (options.map tidyOption) := by
  have hparts : ∀ sec ∈ (([], options) :: d : Doc),
      (sec.1 = [] ∨ LegibleName sec.1) ∧ ∀ p ∈ sec.2, LegibleOption p := by
    intro sec hsec
    rcases List.mem_cons.mp hsec with rfl | hsec
    · exact ⟨Or.inl rfl, ho⟩
    · exact (hd sec hsec).parts
  unfold iniLoad
  rw [iniSave_toIni, (docText_accepted fun sec h =>
    hparts sec ((List.dropWhile_sublist _).subset h)).cstr]
  by_cases hnil : options = []
  · rw [dropWhile_silent ⟨rfl, hnil⟩, iniLoadLoop_doc _ _ _ _ (fun sec h => hd sec ((List.dropWhile_sublist _).subset h))
      (Nat.le_refl _), named_dropWhile, hnil]
    rfl
  · have htext : docText (([], options) :: d)
        = options.flatMap optionText ++ 0x0A :: docText d := by
      change iniSaveHeader [] ++ options.flatMap optionText ++ [0x0A] ++ docText d = _
      rw [List.append_assoc]
      rfl
    rw [dropWhile_loud fun h => hnil h.2, htext]
    obtain ⟨fuel, hf, hopt⟩ := iniLoadLoop_options (s := 0) (0x0A :: docText d) options
      (options.flatMap optionText ++ 0x0A :: docText d).length iniCreate ho Nat.one_pos
      (Nat.le_refl _)
    rw [List.length_cons] at hf
    rw [hopt, iniLoadLoop_newline, iniLoadLoop_doc d _ _ _ hd (by omega)]
    rfl

end CommonLoader
