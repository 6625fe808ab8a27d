import CommonLoader.Proof.IniRead
import CommonLoader.Proof.StoreRoundTrip
import Mathlib.Data.List.GetD

/-!
# Saving what was loaded

A store that was loaded from some text, saved and loaded again. The writer puts a
nameless section behind others, where its options belong to the section before it, and
it writes names of length zero as they were read, as long as the text they were cut
from. A key with a space in it, which only a line without an equals sign has, is cut
at the space when there is an equals sign behind it.
-/

namespace CommonLoader

open CText LastWins

variable {b : Build}

/-! ## The map of a text -/

theorem configOfIni_lookup (ini : Ini) (config : Config) (name : Bytes) :
    (configOfIni ini config).lookup name
      = (last name ((List.range ini.sections.length).map fun i =>
          (ini.sections.getD i [], sectionMap (iniProperties ini i)))).or (config.lookup name) := by
  have hfold := lookup_foldl_insert name ((List.range ini.sections.length).map fun i =>
    (ini.sections.getD i [], sectionMap (iniProperties ini i))) config
  rw [List.foldl_map] at hfold
  exact hfold

theorem sectionMap_lookup (properties : List IniProperty) (key : Bytes) :
    (sectionMap properties).lookup key = last key (properties.map fun p => (p.name, p.value)) := by
  have hfold := lookup_foldl_insert key (properties.map fun p => (p.name, p.value)) ∅
  rw [List.foldl_map, AList.lookup_empty, Option.or_none] at hfold
  exact hfold

theorem mem_configOfIni {ini : Ini} {sec : Σ _ : Bytes, Options}
    (h : sec ∈ (configOfIni ini ∅).entries) :
    ∃ i, i < ini.sections.length ∧ ini.sections.getD i [] = sec.1
      ∧ sectionMap (iniProperties ini i) = sec.2 := by
  have hlast := (configOfIni_lookup ini ∅ sec.1).symm.trans (AList.mem_lookup_iff.mpr h)
  rw [AList.lookup_empty, Option.or_none] at hlast
  obtain ⟨i, hi, heq⟩ := List.mem_map.mp (mem_of_last hlast)
  exact ⟨i, List.mem_range.mp hi, (Prod.mk.inj heq).1, (Prod.mk.inj heq).2⟩

theorem mem_sectionMap {properties : List IniProperty} {p : Σ _ : Bytes, Bytes}
    (h : p ∈ (sectionMap properties).entries) :
    ∃ q ∈ properties, q.name = p.1 ∧ q.value = p.2 := by
  have hlast := (sectionMap_lookup properties p.1).symm.trans (AList.mem_lookup_iff.mpr h)
  obtain ⟨q, hq, heq⟩ := List.mem_map.mp (mem_of_last hlast)
  exact ⟨q, hq, (Prod.mk.inj heq).1, (Prod.mk.inj heq).2⟩

/-! ## What a load makes -/

theorem ReadName.ne_nil {data name : Bytes} (h : ReadName data name) : name ≠ [] := by
  rintro rfl
  rcases h with h | ⟨_, h⟩
  · exact h.ne_nil rfl
  · cases h

theorem ReadName.accepted {data name : Bytes} (h : ReadName data name) (hd : Accepted data) :
    Accepted name :=
  h.elim (fun h c hc => Or.inl (h.chars c hc).1) fun h => hd.suffix h.1

theorem ReadKey.accepted {data key : Bytes} (h : ReadKey data key) (hd : Accepted data) :
    Accepted key :=
  h.elim (fun h c hc => Or.inl (h.chars c hc).1) fun h => hd.suffix h.1

/-- Names, keys and values as they were read, and always a section without a name. -/
structure LoadedFrom (data : Bytes) (config : Config) : Prop where
  accepted : Accepted data
  nameless : (config.lookup []).isSome
  names : ∀ sec ∈ config.entries, sec.1 = [] ∨ ReadName data sec.1
  options : ∀ sec ∈ config.entries, ∀ p ∈ sec.2.entries, ReadOption data p.1 p.2

/-- Only the first section has no name. -/
theorem lookup_nameless {data : Bytes} (h : Accepted data) :
    (configOfIni (iniLoad data) ∅).lookup []
      = some (sectionMap (iniProperties (iniLoad data) 0)) := by
  obtain ⟨names, hsections, hnames⟩ := (iniLoad_readFrom h).sections
  have hrest : last [] ((List.range names.length).map fun i =>
      ((iniLoad data).sections.getD (i + 1) [],
        sectionMap (iniProperties (iniLoad data) (i + 1)))) = none := by
    refine Option.eq_none_iff_forall_not_mem.mpr fun options hlast => ?_
    obtain ⟨i, hi, heq⟩ := List.mem_map.mp (mem_of_last hlast)
    have hlt := List.mem_range.mp hi
    have hname : (iniLoad data).sections.getD (i + 1) [] = names.get ⟨i, hlt⟩ := by
      rw [hsections]
      exact List.getD_eq_getElem names [] hlt
    exact (hnames _ (List.get_mem names ⟨i, hlt⟩)).ne_nil (hname.symm.trans (Prod.mk.inj heq).1)
  have hlength : (iniLoad data).sections.length = names.length + 1 := by
    rw [hsections]
    rfl
  rw [configOfIni_lookup, AList.lookup_empty, Option.or_none, hlength, List.range_succ_eq_map, List.map_cons, List.map_map, last]
  refine (congrArg (Option.or · _) hrest).trans ?_
  rw [hsections]
  rfl

/-- What is read before the first header is in that section. -/
theorem get_nameless_isSome {data : Bytes} (h : Accepted data) {p : IniProperty}
    (hp : p ∈ (iniLoad data).properties) (h0 : p.sectionIndex = 0) :
    ((configOfIni (iniLoad data) ∅).get [] p.name).isSome := by
  unfold Config.get
  rw [lookup_nameless h, Option.bind_some, sectionMap_lookup, last_isSome, List.map_map]
  exact List.mem_map.mpr ⟨p, List.mem_filter.mpr ⟨hp, decide_eq_true h0⟩, rfl⟩

theorem loadedFrom_iniLoad {data : Bytes} (h : Accepted data) :
    LoadedFrom data (configOfIni (iniLoad data) ∅) := by
  have hread := iniLoad_readFrom h
  obtain ⟨names, hsections, hnames⟩ := hread.sections
  refine ⟨h, by rw [lookup_nameless h]; rfl, ?_, ?_⟩
  · intro sec hsec
    obtain ⟨i, hi, hname, _⟩ := mem_configOfIni hsec
    rw [hsections] at hi hname
    cases i with
    | zero => exact Or.inl hname.symm
    | succ i =>
      have hlt : i < names.length := Nat.lt_of_succ_lt_succ hi
      have hget : names.get ⟨i, hlt⟩ = sec.1 := (List.getD_eq_getElem names [] hlt).symm.trans hname
      exact Or.inr (hget ▸ hnames _ (List.get_mem names ⟨i, hlt⟩))
  · intro sec hsec p hp
    obtain ⟨i, _, _, hoptions⟩ := mem_configOfIni hsec
    rw [← hoptions] at hp
    obtain ⟨q, hq, hkey, hvalue⟩ := mem_sectionMap hp
    rw [← hkey, ← hvalue]
    exact hread.options q (List.mem_of_mem_filter hq)

/-- **Whatever was loaded**, it was loaded from some text. -/
theorem loadFrom_loadedFrom {s : Loader b} {path : WStr} {env : LoadEnv}
    (h : (loadFrom s path false env).1 = true) :
    ∃ data, LoadedFrom data (loadFrom s path false env).2.appConfig := by
  unfold loadFrom at h ⊢
  dsimp only at h ⊢
  rw [if_neg Bool.false_ne_true] at h ⊢
  split at h
  · cases h
  · split at h
    · rename_i hcheck
      rw [if_pos hcheck]
      exact ⟨_, loadedFrom_iniLoad (checkDataASCII_iff.mp hcheck.2)⟩
    · cases h

namespace LoadedFrom

variable {data : Bytes} {config : Config}

theorem noNul (h : LoadedFrom data config) : config.NoNul := by
  intro sec hsec
  refine ⟨?_, ?_⟩
  · rcases h.names sec hsec with hnil | hname
    · rw [hnil]
      exact List.not_mem_nil
    · exact (hname.accepted h.accepted).noNul
  · intro p hp
    obtain ⟨hkey, hvalue, _⟩ := h.options sec hsec p hp
    refine ⟨(hkey.accepted h.accepted).noNul, fun h0 => ?_⟩
    exact (readable_plain (hvalue 0 h0)).1 rfl

/-- Without names of length zero, everything is legible. -/
theorem legible (h : LoadedFrom data config)
    (hnames : ∀ sec ∈ config.entries, sec.1.head? ≠ some 0x5D)
    (hkeys : ∀ sec ∈ config.entries, ∀ p ∈ sec.2.entries, p.1.head? ≠ some 0x3D) :
    config.Legible := by
  intro sec hsec
  refine ⟨(h.names sec hsec).imp_right fun hname => hname.resolve_right fun hzero =>
    hnames sec hsec hzero.2, ?_⟩
  intro p hp
  obtain ⟨hkey, hvalue, _⟩ := h.options sec hsec p hp
  exact ⟨hkey.resolve_right fun hzero => hkeys sec hsec p hp hzero.2, hvalue⟩

/-- Keys without a space are read as they are, and so are the values. -/
theorem tidy (h : LoadedFrom data config)
    (hkeys : ∀ sec ∈ config.entries, ∀ p ∈ sec.2.entries, (0x20 : UInt8) ∉ p.1) : config.Tidy := by
  intro sec hsec p hp
  obtain ⟨_, hvalue, htrim⟩ := h.options sec hsec p hp
  have hkey := hkeys sec hsec p hp
  refine Prod.ext (tidyKey_eq_self hkey) ?_
  rcases htrim with htrim | ⟨heq, hcr⟩
  · exact htrim
  · -- a line without an equals sign is its own key
    have hplain : ∀ c ∈ p.2, leSpace c = false := by
      intro c hc
      refine Bool.eq_false_iff.mpr fun hspace => ?_
      rcases (readable_plain (hvalue c hc)).2.2.mp hspace with rfl | rfl
      · exact hkey (heq ▸ hc)
      · exact hcr (heq ▸ hc)
    exact tidyValue_eq_self (fun c hc => hplain c (List.mem_of_mem_head? hc))
      fun c hc => hplain c (List.mem_of_getLast? hc)

end LoadedFrom

/-! ## The orders that matter -/

/-- What satisfies `p` goes first. -/
def IterOrder.first {α : Type} (p : α → Bool) : IterOrder α :=
  ⟨fun l => l.filter p ++ l.filter fun a => !p a, List.filter_append_perm p⟩

theorem IterOrder.first_head {α : Type} {p : α → Bool} {l : List α} {a : α} (ha : a ∈ l)
    (hp : p a = true) :
    ∃ a' l', (IterOrder.first p).reorder l = a' :: l' ∧ a' ∈ l ∧ p a' = true := by
  have hmem : a ∈ l.filter p := List.mem_filter.mpr ⟨ha, hp⟩
  cases hl : l.filter p with
  | nil =>
    rw [hl] at hmem
    cases hmem
  | cons a' l' =>
    have ha' : a' ∈ l.filter p := hl ▸ List.mem_cons_self ..
    refine ⟨a', l' ++ l.filter fun a => !p a, ?_, (List.mem_filter.mp ha').1, (List.mem_filter.mp ha').2⟩
    change l.filter p ++ l.filter (fun a => !p a) = _
    rw [hl]
    rfl

/-- Nothing is left out of a text that begins with more than a silent section. -/
theorem saveText_loud {config : Config} (h : config.NoNul) {order : ConfigOrder}
    {sec : Bytes × List (Bytes × Bytes)} {d : Doc} (hdoc : docOf order config = sec :: d)
    (hloud : ¬Silent sec) : saveText order config = docText (sec :: d) := by
  rw [saveText_eq h, hdoc, dropWhile_loud hloud]

theorem docText_header {sec : Bytes × List (Bytes × Bytes)} (hname : sec.1 ≠ []) (d : Doc) :
    ∃ rest, docText (sec :: d) = 0x5B :: (sec.1 ++ 0x5D :: rest) := by
  refine ⟨0x0A :: (sec.2.flatMap optionText ++ 0x0A :: docText d), ?_⟩
  rw [show docText (sec :: d) = sectionText sec ++ docText d from rfl]
  unfold sectionText iniSaveHeader
  rw [if_pos (List.length_pos_iff.mpr hname)]
  simp

/-- Any section may come first. -/
theorem exists_docOf_head {config : Config} {sec : Σ _ : Bytes, Options} (hsec : sec ∈ config.entries) :
    ∃ order sec' d, docOf order config = sec' :: d ∧ sec'.1 = sec.1 := by
  let order : ConfigOrder := ⟨.first fun sec' => sec'.1 = sec.1, fun _ => .asIs⟩
  obtain ⟨sec', secs, hfirst, _, hname⟩ := IterOrder.first_head
    (p := fun sec' : Σ _ : Bytes, Options => decide (sec'.1 = sec.1)) hsec (decide_eq_true rfl)
  refine ⟨order, docSection order sec', secs.map (docSection order), ?_, of_decide_eq_true hname⟩
  unfold docOf
  rw [hfirst]
  rfl

def namedFirst : ConfigOrder := ⟨.first fun sec => sec.1 ≠ [], fun _ => .asIs⟩

def namedLast : ConfigOrder := ⟨.first fun sec => !decide (sec.1 ≠ []), fun _ => .asIs⟩

theorem saveText_namedFirst {config : Config} (h : config.NoNul) {sec : Σ _ : Bytes, Options}
    (hsec : sec ∈ config.entries) (hname : sec.1 ≠ []) :
    saveText namedFirst config = docText (docOf namedFirst config) := by
  obtain ⟨sec', secs, hfirst, _, hnamed⟩ := IterOrder.first_head
    (p := fun sec : Σ _ : Bytes, Options => decide (sec.1 ≠ [])) hsec (decide_eq_true hname)
  have hdoc : docOf namedFirst config
      = docSection namedFirst sec' :: secs.map (docSection namedFirst) := by
    change ((IterOrder.first fun sec : Σ _ : Bytes, Options => decide (sec.1 ≠ [])).reorder
      config.entries).map _ = _
    rw [hfirst]
    rfl
  rw [saveText_loud h hdoc fun hs => of_decide_eq_true hnamed hs.1, hdoc]

/-- There is one section without a name. -/
theorem filter_nameless {config : Config} {options : Options}
    (h : (⟨[], options⟩ : Σ _ : Bytes, Options) ∈ config.entries) :
    config.entries.filter (fun sec => !decide (sec.1 ≠ [])) = [⟨[], options⟩] := by
  refine nodupKeys_eq_singleton
    (List.NodupKeys.sublist List.filter_sublist config.nodupKeys) ?_ ?_
  · intro sec hsec
    simpa using (List.mem_filter.mp hsec).2
  · exact List.mem_filter.mpr ⟨h, by simp⟩

/-- **An empty section without a name** leaves an end of line, unless it comes first. -/
theorem saveText_namedLast {config : Config} (h : config.NoNul) {options : Options}
    (hnameless : (⟨[], options⟩ : Σ _ : Bytes, Options) ∈ config.entries)
    (hempty : options.entries = []) :
    saveText namedLast config ++ [0x0A] = docText (docOf namedFirst config) := by
  have hone := filter_nameless hnameless
  have hsection : docSection namedFirst ⟨[], options⟩ = ([], []) := by
    change (([] : Bytes), pairs options.entries) = _
    rw [hempty]
    rfl
  generalize hrest : (config.entries.filter fun sec => decide (sec.1 ≠ [])).map
    (docSection namedFirst) = rest
  have hfirst : docOf namedFirst config = rest ++ [([], [])] := by
    change (config.entries.filter (fun sec => decide (sec.1 ≠ []))
      ++ config.entries.filter fun sec => !decide (sec.1 ≠ [])).map (docSection namedFirst) = _
    rw [hone, List.map_append, List.map_singleton, hsection, hrest]
  have hlast : docOf namedLast config = ([], []) :: rest := by
    change (config.entries.filter (fun sec => !decide (sec.1 ≠ []))
      ++ config.entries.filter fun sec => !!decide (sec.1 ≠ [])).map (docSection namedFirst) = _
    simp only [Bool.not_not]
    rw [hone, List.singleton_append, List.map_cons, hsection, hrest]
  -- the others have a name
  have hloud : rest.dropWhile (fun sec => Silent sec) = rest := by
    have hnamed : ∀ sec ∈ rest, sec.1 ≠ [] := by
      rw [← hrest]
      intro sec hsec
      obtain ⟨sec', hsec', rfl⟩ := List.mem_map.mp hsec
      exact of_decide_eq_true (List.mem_filter.mp hsec').2
    cases rest with
    | nil => rfl
    | cons sec rest => exact dropWhile_loud (fun hs => hnamed sec (List.mem_cons_self ..) hs.1) rest
  rw [saveText_eq h, hfirst, hlast, dropWhile_silent ⟨rfl, rfl⟩, hloud]
  unfold docText
  rw [List.flatMap_append]
  rfl

/-! ## What must not be in the store -/

/-- Whatever the order, the text of the store is read as the store. -/
def Reread (config : Config) : Prop :=
  ∀ order, Accepted (saveText order config) ∧ Config.Same (reloaded order config) config

section Reread

variable {data : Bytes} {config : Config}

theorem Reread.loadedFrom (h : Reread config) (order : ConfigOrder) :
    LoadedFrom (saveText order config) (reloaded order config) :=
  loadedFrom_iniLoad (h order).1

/-- A name of length zero is all the rest of the text, of any text. -/
theorem Reread.suffix_name (h : Reread config) (order : ConfigOrder) {sec : Σ _ : Bytes, Options}
    (hsec : sec ∈ config.entries) (hzero : sec.1.head? = some 0x5D) :
    sec.1 <:+ saveText order config := by
  have hsome : ((reloaded order config).lookup sec.1).isSome := by
    rw [((h order).2 sec.1).1, AList.mem_lookup_iff.mpr hsec]
    rfl
  obtain ⟨options, hoptions⟩ := Option.isSome_iff_exists.mp hsome
  have hclose : (0x5D : UInt8) ∈ sec.1 := List.mem_of_mem_head? hzero
  rcases (h.loadedFrom order).names _ (AList.mem_lookup_iff.mp hoptions) with hnil | hname | hname
  · rw [hnil] at hclose
    cases hclose
  · exact absurd rfl (hname.chars _ hclose).2
  · exact hname.1

theorem Reread.suffix_key (h : Reread config) (order : ConfigOrder) {sec : Σ _ : Bytes, Options}
    (hsec : sec ∈ config.entries) {p : Σ _ : Bytes, Bytes} (hp : p ∈ sec.2.entries)
    (hzero : p.1.head? = some 0x3D) : p.1 <:+ saveText order config := by
  have hget := (((h order).2 sec.1).2 p.1).trans (Config.get_eq_some.mpr ⟨sec.2, hsec, hp⟩)
  obtain ⟨options, hsec', hp'⟩ := Config.get_eq_some.mp hget
  have hequals : (0x3D : UInt8) ∈ p.1 := List.mem_of_mem_head? hzero
  rcases ((h.loadedFrom order).options _ hsec' _ hp').isKey with hkey | hkey
  · exact absurd rfl (hkey.chars _ hequals).2
  · exact hkey.1

/-- Behind a header there are no options without a section. -/
theorem Reread.separate (h : Reread config) (hload : LoadedFrom data config) : config.Separate := by
  by_contra hno
  obtain ⟨hoptions, hother⟩ := not_or.mp hno
  obtain ⟨key, hkey⟩ := not_forall.mp hoptions
  simp only [not_forall] at hother
  obtain ⟨sec, hsec, hname⟩ := hother
  obtain ⟨order, sec', d, hdoc, hhead⟩ := exists_docOf_head hsec
  have hname' : sec'.1 ≠ [] := hhead ▸ hname
  obtain ⟨rest, hrest⟩ := docText_header hname' d
  have htext := (saveText_loud hload.noNul hdoc fun hs => hname' hs.1).trans hrest
  have haccepted := (h order).1
  have hclosed : ∃ ptr, (sec'.1 ++ 0x5D :: rest).dropWhile (fun c => c ≠ 0x5D && c ≠ 0x0A)
      = 0x5D :: ptr := by
    rw [hhead]
    rcases (hload.names sec hsec).resolve_left hname with hlegible | ⟨_, hzero⟩
    · refine ⟨rest, (takeWhile_until (fun c => c ≠ 0x5D && c ≠ 0x0A) 0x5D rest (fun c hc => ?_) rfl).2⟩
      obtain ⟨hc1, hc2⟩ := hlegible.chars c hc
      simp [hc2, (readable_plain hc1).2.1]
    · obtain ⟨l, hl⟩ := List.head?_eq_some_iff.mp hzero
      exact ⟨l ++ 0x5D :: rest, by rw [hl]; exact List.dropWhile_cons_of_neg (by decide)⟩
  obtain ⟨ptr, hptr⟩ := hclosed
  -- the global section is read as empty
  have hglobal : iniProperties (iniLoad (saveText order config)) 0 = [] := by
    refine List.filter_eq_nil_iff.mpr fun p hp => ?_
    rw [htext] at hp haccepted
    have := iniLoad_header haccepted hptr p hp
    simp only [decide_eq_true_eq]
    omega
  refine hkey ((((h order).2 []).2 key).symm.trans ?_)
  unfold Config.get reloaded
  rw [lookup_nameless haccepted, hglobal]
  rfl

/-- A line is longer than its key. -/
theorem key_length_lt {options : List (Bytes × Bytes)} {p : Bytes × Bytes} (h : p ∈ options) :
    p.1.length < (options.flatMap optionText).length := by
  obtain ⟨front, back, rfl⟩ := List.append_of_mem h
  rw [List.flatMap_append, List.flatMap_cons]
  simp only [List.length_append, List.length_singleton, optionText]
  omega

/-- Without other sections, a key of length zero is longer than the text. -/
theorem Reread.no_zeroKey (h : Reread config) (hload : LoadedFrom data config)
    (hall : ∀ sec ∈ config.entries, sec.1 = []) {sec : Σ _ : Bytes, Options}
    (hsec : sec ∈ config.entries) {p : Σ _ : Bytes, Bytes} (hp : p ∈ sec.2.entries) :
    p.1.head? ≠ some 0x3D := by
  intro hzero
  obtain ⟨name, options⟩ := sec
  obtain rfl : name = [] := hall _ hsec
  have hone := nodupKeys_eq_singleton config.nodupKeys hall hsec
  let order : ConfigOrder := ⟨.asIs, fun _ => .first fun q => q.1 = p.1⟩
  obtain ⟨q, l, hfirst, hq, hkey⟩ := IterOrder.first_head
    (p := fun q : Σ _ : Bytes, Bytes => decide (q.1 = p.1)) hp (decide_eq_true rfl)
  have hsection : docSection order ⟨[], options⟩ = ([], (q.1, q.2) :: pairs l) := by
    change (([] : Bytes), pairs ((IterOrder.first fun q : Σ _ : Bytes, Bytes =>
      decide (q.1 = p.1)).reorder options.entries)) = _
    rw [hfirst]
    rfl
  have hdoc : docOf order config = [docSection order ⟨[], options⟩] := by
    change config.entries.map (docSection order) = _
    rw [hone]
    rfl
  have htext : saveText order config
      = (docSection order ⟨[], options⟩).2.flatMap optionText ++ [0x0A] := by
    rw [saveText_loud hload.noNul hdoc (by rw [hsection]; exact fun hs => by cases hs.2)]
    exact List.append_nil _
  -- the text begins with the key
  obtain ⟨rest, hrest⟩ : ∃ rest, saveText order config = 0x3D :: rest := by
    obtain ⟨k, hk⟩ := List.head?_eq_some_iff.mp hzero
    rw [htext, hsection, List.flatMap_cons]
    unfold optionText
    rw [of_decide_eq_true hkey, hk]
    exact ⟨_, rfl⟩
  have haccepted := (h order).1
  obtain ⟨_, hread⟩ := iniLoad_zeroKey (hrest ▸ haccepted)
  rw [← hrest] at hread
  obtain ⟨value, hvalue⟩ := Option.isSome_iff_exists.mp (get_nameless_isSome haccepted hread rfl)
  obtain ⟨options', hsec', hp'⟩ := Config.get_eq_some.mp (((h order).2 []).2 _ ▸ hvalue)
  rw [hone, List.mem_singleton] at hsec'
  obtain rfl : options' = options := eq_of_heq (Sigma.mk.inj hsec').2
  -- but the text has a line for each key
  have hline : (saveText order config, value) ∈ (docSection order ⟨[], options'⟩).2 :=
    mem_docSection.mpr hp'
  have hlonger : (saveText order config).length < _ := key_length_lt hline
  have hlength := congrArg List.length htext
  rw [List.length_append] at hlength
  omega

/-- **No names of length zero.** -/
theorem Reread.legible (h : Reread config) (hload : LoadedFrom data config) : config.Legible := by
  obtain ⟨options, hoptions⟩ := Option.isSome_iff_exists.mp hload.nameless
  have hnameless := AList.mem_lookup_iff.mp hoptions
  rcases h.separate hload with hempty | hall
  · have hnil : options.entries = [] := by
      refine List.eq_nil_iff_forall_not_mem.mpr fun p hp => ?_
      have hget := Config.get_eq_some.mpr ⟨options, hnameless, hp⟩
      rw [hempty] at hget
      cases hget
    -- such a name ends two texts, one of which is longer by one character
    have hshift : ∀ {sec : Σ _ : Bytes, Options}, sec ∈ config.entries → sec.1 ≠ [] →
        ∀ {u : Bytes} {c : UInt8}, u.head? = some c → c ≠ 0x0A →
        ¬∀ order, u <:+ saveText order config := by
      intro sec hsec hname u c hu hc hsuf
      have hlong := hsuf namedFirst
      rw [saveText_namedFirst hload.noNul hsec hname,
        ← saveText_namedLast hload.noNul hnameless hnil] at hlong
      exact hc (head_of_suffix_shift hu (hsuf namedLast) hlong)
    refine hload.legible (fun sec hsec hzero => ?_) fun sec hsec p hp hzero => ?_
    · have hname : sec.1 ≠ [] := by
        intro hnil
        rw [hnil] at hzero
        cases hzero
      exact hshift hsec hname hzero (by decide) fun order => h.suffix_name order hsec hzero
    · have hname : sec.1 ≠ [] := by
        intro hnil'
        have hget := Config.get_eq_some.mpr ⟨sec.2, hsec, hp⟩
        rw [hnil', hempty] at hget
        cases hget
      exact hshift hsec hname hzero (by decide) fun order => h.suffix_key order hsec hp hzero
  · refine hload.legible (fun sec hsec hzero => ?_) fun sec hsec p hp =>
      h.no_zeroKey hload hall hsec hp
    rw [hall sec hsec] at hzero
    cases hzero

/-- Keys are read up to the first space. -/
theorem Reread.no_space (h : Reread config) (hload : LoadedFrom data config)
    {sec : Σ _ : Bytes, Options} (hsec : sec ∈ config.entries) {p : Σ _ : Bytes, Bytes}
    (hp : p ∈ sec.2.entries) : (0x20 : UInt8) ∉ p.1 := by
  have hget := (((h namedFirst).2 sec.1).2 p.1).trans (Config.get_eq_some.mpr ⟨sec.2, hsec, hp⟩)
  unfold Config.get at hget
  rw [reloaded_lookup (h.legible hload) (h.separate hload), AList.mem_lookup_iff.mpr hsec,
    Option.some_or, Option.map_some, Option.bind_some] at hget
  unfold reloadedOptions at hget
  rw [docOptions_lookup] at hget
  obtain ⟨q, _, hq⟩ := List.mem_map.mp (mem_of_last hget)
  intro hspace
  rw [← (Prod.mk.inj hq).1] at hspace
  exact absurd (List.mem_takeWhile_imp hspace) (by decide)

end Reread

/-! ## The length of the text -/

/-- A line for each header, a line for each option, and a line for the end of each section. -/
def Config.textLength (config : Config) : Nat :=
  (config.entries.map fun sec => (iniSaveHeader sec.1).length
    + (sec.2.entries.map fun p => p.1.length + p.2.length + 2).sum + 1).sum

theorem docText_length (order : ConfigOrder) (config : Config) :
    (docText (docOf order config)).length = config.textLength := by
  have hoption : ∀ p : Bytes × Bytes, (optionText p).length = p.1.length + p.2.length + 2 := by
    intro p
    unfold optionText
    simp only [List.length_append, List.length_singleton]
    omega
  have hsection : ∀ sec : Σ _ : Bytes, Options, (sectionText (docSection order sec)).length
      = (iniSaveHeader sec.1).length
        + (sec.2.entries.map fun p => p.1.length + p.2.length + 2).sum + 1 := by
    intro sec
    have hperm := ((order.options sec.1).perm sec.2.entries).map
      fun p : Σ _ : Bytes, Bytes => p.1.length + p.2.length + 2
    unfold sectionText docSection pairs
    rw [List.length_append, List.length_append, List.length_singleton, List.length_flatMap,
      List.map_map, ← hperm.sum_nat]
    simp only [hoption, Function.comp_def]
  have hperm := (order.sections.perm config.entries).map fun sec => (iniSaveHeader sec.1).length
    + (sec.2.entries.map fun p => p.1.length + p.2.length + 2).sum + 1
  unfold docText docOf Config.textLength
  rw [List.length_flatMap, List.map_map, ← hperm.sum_nat]
  simp only [hsection, Function.comp_def]

theorem saveText_length_le {config : Config} (h : config.NoNul) (order : ConfigOrder) :
    (saveText order config).length ≤ config.textLength := by
  have hsplit := List.takeWhile_append_dropWhile (p := fun sec => decide (Silent sec))
    (l := docOf order config)
  rw [saveText_eq h, ← docText_length order config]
  conv_rhs => rw [← hsplit]
  unfold docText
  rw [List.flatMap_append, List.length_append]
  exact Nat.le_add_left _ _

/-- One of the orders has a text of this length, unless the store is empty. -/
theorem exists_saveText_length {data : Bytes} {config : Config} (h : LoadedFrom data config) :
    config.textLength = 1 ∨ ∃ order, (saveText order config).length = config.textLength := by
  by_cases hall : ∀ sec ∈ config.entries, sec.1 = []
  · obtain ⟨options, hoptions⟩ := Option.isSome_iff_exists.mp h.nameless
    have hone := nodupKeys_eq_singleton config.nodupKeys hall (AList.mem_lookup_iff.mp hoptions)
    have hdoc : docOf namedFirst config = [docSection namedFirst ⟨[], options⟩] := by
      have hperm := namedFirst.sections.perm config.entries
      unfold docOf
      rw [hone] at hperm ⊢
      rw [List.perm_singleton.mp hperm]
      rfl
    by_cases hsilent : Silent (docSection namedFirst ⟨[], options⟩)
    · left
      rw [← docText_length namedFirst, hdoc]
      change (sectionText (docSection namedFirst ⟨[], options⟩) ++ []).length = 1
      unfold sectionText
      rw [hsilent.1, hsilent.2]
      rfl
    · exact Or.inr ⟨namedFirst, by rw [saveText_loud h.noNul hdoc hsilent, ← hdoc, docText_length]⟩
  · simp only [not_forall] at hall
    obtain ⟨sec, hsec, hname⟩ := hall
    exact Or.inr ⟨namedFirst, by rw [saveText_namedFirst h.noNul hsec hname, docText_length]⟩

/-! ## Load, save, load -/

/-- Saving the store and loading it again changes nothing, whatever the order. -/
def Resaves (s : Loader b) : Prop :=
  ∀ path save load, Unobstructed path save load →
    (saveTo s path save).1 = true ∧ (loadFrom (saveTo s path save).2 path false load).1 = true
      ∧ Config.Same (loadFrom (saveTo s path save).2 path false load).2.appConfig s.appConfig

theorem resaves_iff_reread {s : Loader b} :
    Resaves s ↔ (∀ order, (saveText order s.appConfig).length + 1 < 2 ^ 31) ∧ Reread s.appConfig := by
  refine ⟨?_, ?_⟩
  · intro h
    have horder : ∀ order, (saveText order s.appConfig).length + 1 < 2 ^ 31
        ∧ Accepted (saveText order s.appConfig)
        ∧ Config.Same (reloaded order s.appConfig) s.appConfig := by
      intro order
      have hok : Unobstructed [0x66] ⟨true, true, order⟩ .ok :=
        ⟨List.cons_ne_nil _ _, rfl, rfl, rfl, rfl⟩
      obtain ⟨hsaved, hloaded, hsame⟩ := h _ _ _ hok
      have hfits := (saveTo_fst hok).mp hsaved
      obtain ⟨hcheck, hconfig⟩ := saveTo_loadFrom hok hfits rfl
      have haccepted := hcheck.symm.trans hloaded
      exact ⟨hfits, checkDataASCII_iff.mp haccepted, hconfig haccepted ▸ hsame⟩
    exact ⟨fun order => (horder order).1, fun order => (horder order).2⟩
  · rintro ⟨hfits, h⟩ path save load hok
    obtain ⟨haccepted, hsame⟩ := h save.order
    have hcheck := checkDataASCII_iff.mpr haccepted
    obtain ⟨hload, hconfig⟩ := saveTo_loadFrom hok (hfits save.order) rfl
    exact ⟨(saveTo_fst hok).mpr (hfits save.order), hload.trans hcheck, (hconfig hcheck).symm ▸ hsame⟩

/-- What a store has to be for its text to be read as it was written. -/
structure Rereadable (config : Config) : Prop where
  /-- No name ends at a bracket of its own. -/
  names : ∀ sec ∈ config.entries, (0x5D : UInt8) ∉ sec.1
  /-- No key ends at an equals sign of its own, or at a space. -/
  keys : ∀ sec ∈ config.entries, ∀ p ∈ sec.2.entries, (0x3D : UInt8) ∉ p.1 ∧ (0x20 : UInt8) ∉ p.1
  separate : config.Separate
  fits : config.textLength + 1 < 2 ^ 31

/--
**Saving what was loaded** changes nothing just if there are no brackets in its names, no
equals signs and no spaces in its keys, and no options without a section next to other
sections.
-/
theorem resaves_iff {s : Loader b} {path : WStr} {env : LoadEnv}
    (h : (loadFrom s path false env).1 = true) :
    Resaves (loadFrom s path false env).2
      ↔ Rereadable (loadFrom s path false env).2.appConfig := by
  obtain ⟨data, hload⟩ := loadFrom_loadedFrom h
  rw [resaves_iff_reread]
  generalize (loadFrom s path false env).2.appConfig = config at hload ⊢
  refine ⟨fun ⟨hfits, hread⟩ => ?_, fun hr => ⟨fun order => ?_, fun order => ?_⟩⟩
  · have hlegible := hread.legible hload
    refine ⟨fun sec hsec hclose => ?_, fun sec hsec p hp => ⟨fun hequals => ?_, ?_⟩,
      hread.separate hload, ?_⟩
    · rcases (hlegible sec hsec).1 with hnil | hname
      · rw [hnil] at hclose
        cases hclose
      · exact (hname.chars _ hclose).2 rfl
    · exact (((hlegible sec hsec).2 p hp).1.chars _ hequals).2 rfl
    · exact hread.no_space hload hsec hp
    · rcases exists_saveText_length hload with hone | ⟨order, hlength⟩
      · rw [hone]
        decide
      · exact hlength ▸ hfits order
  · have := saveText_length_le hload.noNul order
    have := hr.fits
    omega
  · have hlegible : config.Legible := hload.legible
      (fun sec hsec hzero => hr.names sec hsec (List.mem_of_mem_head? hzero))
      fun sec hsec p hp hzero => (hr.keys sec hsec p hp).1 (List.mem_of_mem_head? hzero)
    have htidy := hload.tidy fun sec hsec p hp => (hr.keys sec hsec p hp).2
    refine ⟨checkDataASCII_iff.mp (checkDataASCII_saveText hlegible order), fun name => ⟨?_, ?_⟩⟩
    · -- the section that is added was there
      rw [reloaded_isSome hlegible hr.separate]
      by_cases hname : name = []
      · rw [hname, hload.nameless]
        rfl
      · rw [decide_eq_false hname, Bool.or_false]
    · exact reloaded_get hlegible hr.separate htidy order name

/-- A disk with one file. -/
def oneFile (text : Bytes) : Loader .win32 :=
  Loader.start ⟨0, 0⟩ (fun _ => 0) (fun _ => 0) fun path => if path = [0x66] then some text else none

theorem resaves_section :
    Resaves (loadFrom (oneFile (ascii "[Name]\nKey=a b\n")) [0x66] false .ok).2 := by
  refine (resaves_iff (by decide +kernel)).mpr ⟨by decide +kernel, by decide +kernel, ?_, by decide +kernel⟩
  exact Or.inl (Config.get_nameless (by decide +kernel))

/-- An option before the first section, which is written behind that section. -/
theorem global_option_moves :
    (loadFrom (oneFile (ascii "a=1\n[s]\nb=2\n")) [0x66] false .ok).1 = true
      ∧ ¬Resaves (loadFrom (oneFile (ascii "a=1\n[s]\nb=2\n")) [0x66] false .ok).2 := by
  refine ⟨by decide +kernel, fun h => ?_⟩
  have hsame := (h [0x66] .ok .ok ⟨List.cons_ne_nil _ _, rfl, rfl, rfl, rfl⟩).2.2
  exact absurd ((hsame []).2 (ascii "a")) (by decide +kernel)

end CommonLoader
