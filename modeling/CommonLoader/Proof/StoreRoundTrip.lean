import CommonLoader.Lib.LastWins
import CommonLoader.Model.ApplicationStore
import CommonLoader.Proof.IniText

/-!
# Saving and loading the option store

`Save` turns the two-level map into a document, in whatever order the maps are
walked, and `Load` turns the document it reads into a map again. With the round trip
of the text in between, a legible store comes back with its keys and values tidied,
and a store that contains nothing but storable text comes back with the same options.
-/

namespace CommonLoader

open CText LastWins

variable {b : Build}

/-- Sections and options that the text can hold; without a name, only an empty section. -/
def Config.Storable (config : Config) : Prop :=
  ∀ sec ∈ config.entries, (sec.1 = [] ∧ sec.2.entries = [])
    ∨ (StorableName sec.1 ∧ ∀ p ∈ sec.2.entries, StorableKey p.1 ∧ StorableValue p.2)

/-! ## The options of a store -/

/-- One option of the two-level map. -/
def Config.get (config : Config) (sectionName key : Bytes) : Option Bytes :=
  (config.lookup sectionName).bind fun options => options.lookup key

theorem getOption_eq (s : Loader b) (sectionName key : Bytes) :
    getOption s sectionName key = s.appConfig.get sectionName key := by
  unfold getOption Config.get
  cases s.appConfig.lookup sectionName <;> rfl

theorem Config.get_set (config : Config) (sectionName key value k : Bytes) :
    (config.set sectionName key value).get sectionName k
      = if key = k then some value else config.get sectionName k := by
  have hinsert : ∀ options : Options, (options.insert key value).lookup k
      = if key = k then some value else options.lookup k := by
    intro options
    by_cases hk : key = k
    · subst hk
      rw [AList.lookup_insert, if_pos rfl]
    · rw [AList.lookup_insert_ne (Ne.symm hk), if_neg hk]
  unfold Config.get Config.set
  cases config.lookup sectionName with
  | none =>
    rw [AList.lookup_insert, Option.bind_some, hinsert, AList.lookup_empty]
    rfl
  | some options => rw [AList.lookup_insert, Option.bind_some, hinsert, Option.bind_some]

theorem Config.get_set_ne (config : Config) {sectionName name : Bytes} (key value k : Bytes)
    (h : name ≠ sectionName) : (config.set sectionName key value).get name k = config.get name k := by
  unfold Config.get Config.set
  cases config.lookup sectionName <;> rw [AList.lookup_insert_ne h]

/-- The same sections, keys and values. -/
def Config.Same (config config' : Config) : Prop :=
  ∀ name, (config.lookup name).isSome = (config'.lookup name).isSome
    ∧ ∀ key, config.get name key = config'.get name key

/-- No string is cut at a terminator. -/
def Config.NoNul (config : Config) : Prop :=
  ∀ sec ∈ config.entries, (0 : UInt8) ∉ sec.1 ∧ ∀ p ∈ sec.2.entries, (0 : UInt8) ∉ p.1 ∧ (0 : UInt8) ∉ p.2

/-- Only legible text, and a name or none. -/
def Config.Legible (config : Config) : Prop :=
  ∀ sec ∈ config.entries, (sec.1 = [] ∨ LegibleName sec.1)
    ∧ ∀ p ∈ sec.2.entries, LegibleOption (p.1, p.2)

/-- Options without a section are no problem when there is no other section. -/
def Config.Separate (config : Config) : Prop :=
  (∀ key, config.get [] key = none) ∨ ∀ sec ∈ config.entries, sec.1 = []

/-- Keys and values that the reader does not cut. -/
def Config.Tidy (config : Config) : Prop :=
  ∀ sec ∈ config.entries, ∀ p ∈ sec.2.entries, tidyOption (p.1, p.2) = (p.1, p.2)

theorem Config.get_eq_some {config : Config} {name key value : Bytes} :
    config.get name key = some value ↔
      ∃ options, (⟨name, options⟩ : Σ _ : Bytes, Options) ∈ config.entries
        ∧ (⟨key, value⟩ : Σ _ : Bytes, Bytes) ∈ options.entries := by
  unfold Config.get
  rw [Option.bind_eq_some_iff]
  refine exists_congr fun options => and_congr AList.mem_lookup_iff AList.mem_lookup_iff

/-- An empty section without a name has no options. -/
theorem Config.get_nameless {config : Config}
    (h : ∀ sec ∈ config.entries, sec.1 = [] → sec.2.entries = []) (key : Bytes) :
    config.get [] key = none := by
  refine Option.eq_none_iff_forall_not_mem.mpr fun value hvalue => ?_
  obtain ⟨options, hsec, hp⟩ := Config.get_eq_some.mp hvalue
  rw [h _ hsec rfl] at hp
  cases hp

/-- Entries of one key are one entry. -/
theorem nodupKeys_eq_singleton {secs : List (Σ _ : Bytes, Options)} {name : Bytes} {options : Options}
    (hnd : secs.NodupKeys) (hall : ∀ sec ∈ secs, sec.1 = name)
    (h : (⟨name, options⟩ : Σ _ : Bytes, Options) ∈ secs) : secs = [⟨name, options⟩] := by
  cases secs with
  | nil => cases h
  | cons sec secs =>
    have hsec := hall sec (List.mem_cons_self ..)
    have hnone : secs = [] := by
      refine List.eq_nil_iff_forall_not_mem.mpr fun sec' hsec' => ?_
      refine (List.nodupKeys_cons.mp hnd).1 ?_
      rw [hsec, ← hall sec' (List.mem_cons_of_mem _ hsec')]
      exact List.mem_keys_of_mem hsec'
    rw [hnone] at h ⊢
    rw [List.mem_singleton.mp h]

theorem Config.Legible.noNul {config : Config} (h : config.Legible) : config.NoNul := by
  intro sec hsec
  obtain ⟨hname, hopts⟩ := h sec hsec
  refine ⟨?_, ?_⟩
  · intro h0
    rcases hname with hnil | hname
    · rw [hnil] at h0
      cases h0
    · exact (readable_plain (hname.chars 0 h0).1).1 rfl
  · intro p hp
    obtain ⟨hk, hv⟩ := hopts p hp
    exact ⟨fun h0 => (readable_plain (hk.chars 0 h0).1).1 rfl,
      fun h0 => (readable_plain (hv 0 h0)).1 rfl⟩

theorem Config.Storable.nameless {config : Config} (h : config.Storable) (key : Bytes) :
    config.get [] key = none := by
  refine Config.get_nameless (fun sec hsec hnil => ?_) key
  rcases h sec hsec with ⟨_, hempty⟩ | ⟨hname, _⟩
  · exact hempty
  · exact absurd hnil hname.ne_nil

theorem Config.Storable.legible {config : Config} (h : config.Storable) :
    config.Legible ∧ config.Separate ∧ config.Tidy := by
  have hsec : ∀ sec ∈ config.entries, StorableSection (sec.1, pairs sec.2.entries) := by
    intro sec hsec
    refine (h sec hsec).imp (fun ⟨hname, hnil⟩ => ⟨hname, congrArg pairs hnil⟩) ?_
    intro ⟨hname, hopts⟩
    refine ⟨hname, fun p hp => ?_⟩
    obtain ⟨q, hq, rfl⟩ := List.mem_map.mp hp
    exact hopts q hq
  have hpair : ∀ (options : Options) (p : Σ _ : Bytes, Bytes), p ∈ options.entries →
      (p.1, p.2) ∈ pairs options.entries := fun _ p hp => List.mem_map_of_mem hp
  refine ⟨?_, Or.inl h.nameless, ?_⟩
  · intro sec h'
    obtain ⟨hname, hopts⟩ := (hsec sec h').legible.1.parts
    exact ⟨hname, fun p hp => hopts _ (hpair sec.2 p hp)⟩
  · intro sec h' p hp
    exact (hsec sec h').legible.2 _ (hpair sec.2 p hp)

/-! ## From the map to the document -/

/-- One section as `Save` walks it. -/
def docSection (order : ConfigOrder) (sec : Σ _ : Bytes, Options) : Bytes × List (Bytes × Bytes) :=
  (sec.1, pairs ((order.options sec.1).reorder sec.2.entries))

/-- The document `Save` writes. -/
def docOf (order : ConfigOrder) (config : Config) : Doc :=
  (order.sections.reorder config.entries).map (docSection order)

theorem mem_docOf {order : ConfigOrder} {config : Config} {sec : Bytes × List (Bytes × Bytes)} :
    sec ∈ docOf order config ↔ ∃ sec' ∈ config.entries, docSection order sec' = sec :=
  List.mem_map.trans (exists_congr fun _ => and_congr_left' (order.sections.perm _).mem_iff)

theorem mem_docSection {order : ConfigOrder} {sec : Σ _ : Bytes, Options} {p : Bytes × Bytes} :
    p ∈ (docSection order sec).2 ↔ (⟨p.1, p.2⟩ : Σ _ : Bytes, Bytes) ∈ sec.2.entries := by
  unfold docSection pairs
  rw [List.mem_map]
  refine ⟨?_, fun h => ⟨_, ((order.options sec.1).perm _).mem_iff.mpr h, rfl⟩⟩
  rintro ⟨q, hq, rfl⟩
  exact ((order.options sec.1).perm _).mem_iff.mp hq

/-- A string is added as it is. -/
theorem take_iniLength {text : Bytes} (h : (0 : UInt8) ∉ text) :
    cstr (text.take (iniLength text text.length)) = text := by
  have htake : text.take (iniLength text text.length) = text := by
    unfold iniLength
    split
    · rename_i h0
      rw [List.length_eq_zero_iff.mp h0]
      rfl
    · exact List.take_length
  rw [htake, cstr_eq_self h]

theorem iniAddOptions_eq {sid : Nat} : ∀ (options : List (Σ _ : Bytes, Bytes)) (ini : Ini),
    (∀ p ∈ options, (0 : UInt8) ∉ p.1 ∧ (0 : UInt8) ∉ p.2) → sid < ini.sections.length →
    iniAddOptions ini sid options
      = ⟨ini.sections, ini.properties ++ (pairs options).map fun p => ⟨sid, p.1, p.2⟩⟩ := by
  intro options
  induction options with
  | nil =>
    intro ini _ _
    simp [iniAddOptions, pairs]
  | cons p options ih =>
    intro ini hp hs
    obtain ⟨hk, hv⟩ := hp p (List.mem_cons_self ..)
    have hadd : iniPropertyAdd ini sid p.1 p.1.length p.2 p.2.length
        = ⟨ini.sections, ini.properties ++ [⟨sid, p.1, p.2⟩]⟩ := by
      unfold iniPropertyAdd
      rw [if_pos hs, take_iniLength hk, take_iniLength hv]
    have hrest := ih ⟨ini.sections, ini.properties ++ [⟨sid, p.1, p.2⟩]⟩
      (fun q hq => hp q (List.mem_cons_of_mem _ hq)) hs
    unfold iniAddOptions at hrest ⊢
    rw [List.foldl_cons, hadd, hrest]
    simp [pairs]

/-- The outer loop of `Save`, section by section. -/
theorem iniOfConfig_loop (order : ConfigOrder) : ∀ (secs : List (Σ _ : Bytes, Options)) (ini : Ini),
    (∀ sec ∈ secs, (0 : UInt8) ∉ sec.1
      ∧ ∀ p ∈ sec.2.entries, (0 : UInt8) ∉ p.1 ∧ (0 : UInt8) ∉ p.2) →
    secs.foldl (fun ini sec =>
        let (ini, sid) := iniSectionAdd ini sec.1 sec.1.length
        iniAddOptions ini sid ((order.options sec.1).reorder sec.2.entries)) ini
      = ⟨ini.sections ++ (secs.map (docSection order)).map Prod.fst,
          ini.properties ++ taggedOptions (secs.map (docSection order)) ini.sections.length⟩ := by
  intro secs
  induction secs with
  | nil =>
    intro ini _
    simp [taggedOptions]
  | cons sec secs ih =>
    intro ini h
    obtain ⟨hname, hopts⟩ := h sec (List.mem_cons_self ..)
    have hopts' : ∀ p ∈ (order.options sec.1).reorder sec.2.entries,
        (0 : UInt8) ∉ p.1 ∧ (0 : UInt8) ∉ p.2 :=
      fun p hp => hopts p (((order.options sec.1).perm _).mem_iff.mp hp)
    have hadd : iniSectionAdd ini sec.1 sec.1.length
        = (⟨ini.sections ++ [sec.1], ini.properties⟩, ini.sections.length) := by
      unfold iniSectionAdd
      rw [take_iniLength hname]
    rw [List.foldl_cons, hadd]
    dsimp only
    rw [iniAddOptions_eq _ _ hopts' (by simp), ih _
      fun sec' h' => h sec' (List.mem_cons_of_mem _ h')]
    simp [taggedOptions, docSection]

/-- **`Save` writes the document.** -/
theorem saveText_eq {config : Config} (h : config.NoNul) (order : ConfigOrder) :
    saveText order config = docText ((docOf order config).dropWhile fun sec => Silent sec) := by
  unfold saveText iniOfConfig
  rw [iniOfConfig_loop order _ iniCreate fun sec hsec =>
    h sec ((order.sections.perm _).mem_iff.mp hsec)]
  exact iniSave_toIni (docOf order config)

/-! ## From the document to the map -/

/-- The map of one section of a document. -/
def docOptions (options : List (Bytes × Bytes)) : Options :=
  options.foldl (fun m p => m.insert p.1 p.2) ∅

theorem sectionMap_tagged (options : List (Bytes × Bytes)) (i : Nat) :
    sectionMap (options.map fun p => ⟨i, p.1, p.2⟩) = docOptions options := by
  unfold sectionMap docOptions
  rw [List.foldl_map]

theorem docOptions_lookup (options : List (Bytes × Bytes)) (key : Bytes) :
    (docOptions options).lookup key = last key options := by
  unfold docOptions
  rw [lookup_foldl_insert, AList.lookup_empty, Option.or_none]

/-- The section loop of `Load`, from index `i` on. -/
theorem configOfIni_loop {ini : Ini} : ∀ (d : Doc) (i : Nat) (config : Config),
    (∀ k, i ≤ k → iniProperties ini k = (taggedOptions d i).filter fun p => p.sectionIndex = k) →
    (∀ j, ini.sections.getD (i + j) [] = (d.map Prod.fst).getD j []) →
    (List.range' i d.length).foldl (fun config k =>
        config.insert (ini.sections.getD k []) (sectionMap (iniProperties ini k))) config
      = d.foldl (fun config sec => config.insert sec.1 (docOptions sec.2)) config := by
  intro d
  induction d with
  | nil =>
    intro _ _ _ _
    rfl
  | cons sec d ih =>
    intro i config hprops hnames
    have hname : ini.sections.getD i [] = sec.1 := hnames 0
    have hopts : sectionMap (iniProperties ini i) = docOptions sec.2 := by
      rw [hprops i (Nat.le_refl i), filter_taggedOptions, sectionMap_tagged]
    rw [List.length_cons, List.range'_succ, List.foldl_cons, List.foldl_cons, hname, hopts]
    refine ih (i + 1) _ (fun k hk => ?_) fun j => ?_
    · rw [hprops k (by omega), filter_taggedOptions_ne sec d hk]
    · rw [show i + 1 + j = i + (j + 1) by omega, hnames]
      rfl

/-- **`Load` reads the document**, after the options without a section. -/
theorem configOfIni_withGlobal (d : Doc) (options : List (Bytes × Bytes)) (config : Config) :
    configOfIni (d.withGlobal options) config
      = d.foldl (fun config sec => config.insert sec.1 (docOptions sec.2))
          (config.insert [] (docOptions options)) := by
  have hini : d.withGlobal options = ⟨[] :: d.map Prod.fst, taggedOptions (([], options) :: d) 0⟩ := rfl
  have hlen : (d.withGlobal options).sections.length = d.length + 1 := by simp [Doc.withGlobal]
  unfold configOfIni
  rw [hlen, List.range_eq_range']
  refine configOfIni_loop (([], options) :: d) 0 config (fun k _ => ?_) fun j => ?_
  · rw [hini]
    rfl
  · rw [Nat.zero_add]
    rfl

/-! ## There and back -/

/-- The store after a save and a load. -/
def reloaded (order : ConfigOrder) (config : Config) : Config :=
  configOfIni (iniLoad (saveText order config)) ∅

/-- The options of one section as they come back. -/
def reloadedOptions (order : ConfigOrder) (name : Bytes) (options : Options) : Options :=
  docOptions ((pairs ((order.options name).reorder options.entries)).map tidyOption)

/-- The sections as the map has them, keyed by name. -/
theorem last_docSections (order : ConfigOrder) (config : Config) (name : Bytes) :
    last name ((docOf order config).map fun sec => (sec.1, docOptions (tidySection sec).2))
      = (config.lookup name).map (reloadedOptions order name) := by
  have hlist : (docOf order config).map (fun sec => (sec.1, docOptions (tidySection sec).2))
      = (pairs (order.sections.reorder config.entries)).map fun p =>
          (p.1, reloadedOptions order p.1 p.2) := by
    unfold docOf pairs docSection
    rw [List.map_map, List.map_map]
    rfl
  rw [hlist, ← last_pairs (order.sections.perm config.entries) name]
  exact last_mapValues (reloadedOptions order) name _

/-- What is read of a store without options outside its sections. -/
theorem iniLoad_sections {config : Config} (h : config.Legible)
    (hs : ∀ key, config.get [] key = none) (order : ConfigOrder) :
    iniLoad (saveText order config)
      = Doc.withGlobal ((docOf order config).named.map tidySection) [] := by
  have hd : ∀ sec ∈ docOf order config, LegibleSection sec := by
    intro sec hsec
    obtain ⟨sec', hsec', rfl⟩ := mem_docOf.mp hsec
    obtain ⟨hname, hopts⟩ := h sec' hsec'
    rcases hname with hnil | hname
    · refine Or.inl ⟨hnil, List.eq_nil_iff_forall_not_mem.mpr fun p hp => ?_⟩
      have hget : config.get [] p.1 = some p.2 :=
        Config.get_eq_some.mpr ⟨sec'.2, hnil ▸ hsec', mem_docSection.mp hp⟩
      rw [hs] at hget
      cases hget
    · exact Or.inr ⟨hname, fun p hp => hopts ⟨p.1, p.2⟩ (mem_docSection.mp hp)⟩
  rw [saveText_eq h.noNul, ← iniSave_toIni, ← iniSave_cons_silent,
    iniLoad_iniSave (fun p hp => by cases hp) hd]
  rfl

/-- What is read of a store that has nothing but these. -/
theorem iniLoad_global {config : Config} (h : config.Legible) {options : Options}
    (hc : config.entries = [⟨[], options⟩]) (order : ConfigOrder) :
    iniLoad (saveText order config)
      = Doc.withGlobal [] ((pairs ((order.options []).reorder options.entries)).map tidyOption) := by
  have hdoc : docOf order config = [docSection order ⟨[], options⟩] := by
    have hperm := order.sections.perm config.entries
    unfold docOf
    rw [hc] at hperm ⊢
    rw [List.perm_singleton.mp hperm]
    rfl
  have hopts : ∀ p ∈ pairs ((order.options []).reorder options.entries), LegibleOption p := by
    intro p hp
    have hp' : p ∈ (docSection order ⟨[], options⟩).2 := hp
    exact (h ⟨[], options⟩ (hc ▸ List.mem_singleton_self _)).2 ⟨p.1, p.2⟩ (mem_docSection.mp hp')
  rw [saveText_eq h.noNul, ← iniSave_toIni, hdoc]
  exact iniLoad_iniSave hopts fun sec hsec => by cases hsec

/-- Nothing comes back as nothing. -/
theorem reloadedOptions_empty (order : ConfigOrder) (name : Bytes) :
    reloadedOptions order name ∅ = ∅ := by
  have hperm := (order.options name).perm ([] : List (Σ _ : Bytes, Bytes))
  unfold reloadedOptions
  rw [show (∅ : Options).entries = [] from rfl, hperm.eq_nil]
  rfl

/-- A store without options outside its sections, read section by section. -/
theorem reloaded_sections {config : Config} (h : config.Legible)
    (hs : ∀ key, config.get [] key = none) (order : ConfigOrder) (name : Bytes) :
    (reloaded order config).lookup name
      = if name = [] then some ∅ else (config.lookup name).map (reloadedOptions order name) := by
  have hlist : ((docOf order config).named.map tidySection).map (fun sec => (sec.1, docOptions sec.2))
      = ((docOf order config).map fun sec => (sec.1, docOptions (tidySection sec).2)).filter
          fun b => decide (b.1 ≠ []) := by
    unfold Doc.named
    rw [List.filter_map, List.map_map]
    rfl
  have hfold := lookup_foldl_insert name
    (((docOf order config).named.map tidySection).map fun sec => (sec.1, docOptions sec.2))
    ((∅ : Config).insert [] (docOptions []))
  rw [List.foldl_map] at hfold
  unfold reloaded
  rw [iniLoad_sections h hs, configOfIni_withGlobal]
  refine hfold.trans ?_
  rw [hlist, last_filter (fun k : Bytes => decide (k ≠ [])), last_docSections]
  by_cases hname : name = []
  · rw [hname, if_neg (by simp), if_pos rfl, Option.none_or]
    exact AList.lookup_insert _
  · rw [if_pos (by simpa using hname), if_neg hname, AList.lookup_insert_ne hname,
      AList.lookup_empty, Option.or_none]

/-- A store of options without a section. -/
theorem reloaded_global {config : Config} (h : config.Legible) {options : Options}
    (hc : config.entries = [⟨[], options⟩]) (order : ConfigOrder) (name : Bytes) :
    (reloaded order config).lookup name = (config.lookup name).map (reloadedOptions order name) := by
  have hlookup : config = (∅ : Config).insert [] options := AList.ext (by rw [hc]; rfl)
  unfold reloaded
  rw [iniLoad_global h hc, configOfIni_withGlobal, hlookup]
  by_cases hname : name = []
  · subst hname
    rw [AList.lookup_insert]
    exact AList.lookup_insert _
  · rw [AList.lookup_insert_ne hname]
    exact AList.lookup_insert_ne hname

/-- **A legible store comes back tidied**, with an empty section without a name if it had none. -/
theorem reloaded_lookup {config : Config} (h : config.Legible) (hs : config.Separate)
    (order : ConfigOrder) (name : Bytes) :
    (reloaded order config).lookup name
      = ((config.lookup name).or (if name = [] then some ∅ else none)).map
          (reloadedOptions order name) := by
  by_cases hget : ∀ key, config.get [] key = none
  · rw [reloaded_sections h hget]
    by_cases hname : name = []
    · subst hname
      rw [if_pos rfl, if_pos rfl]
      -- a nameless section that is there is empty, and its options come back as none
      cases hl : config.lookup [] with
      | none => rw [Option.none_or, Option.map_some, reloadedOptions_empty]
      | some options =>
        have hnil : options = ∅ := by
          refine AList.ext (List.eq_nil_iff_forall_not_mem.mpr fun p hp => ?_)
          have := Config.get_eq_some.mpr ⟨options, AList.mem_lookup_iff.mp hl, hp⟩
          rw [hget] at this
          cases this
        rw [Option.some_or, Option.map_some, hnil, reloadedOptions_empty]
    · rw [if_neg hname, if_neg hname, Option.or_none]
  · -- there are such options, and so no other section
    obtain ⟨key, hkey⟩ := not_forall.mp hget
    obtain ⟨value, hvalue⟩ := Option.ne_none_iff_exists'.mp hkey
    obtain ⟨options, hsec, _⟩ := Config.get_eq_some.mp hvalue
    have hc := nodupKeys_eq_singleton config.nodupKeys (hs.resolve_left hget) hsec
    rw [reloaded_global h hc]
    by_cases hname : name = []
    · rw [hname, AList.mem_lookup_iff.mpr hsec, Option.some_or]
    · rw [if_neg hname, Option.or_none]

/-- **A tidy one comes back as it was.** -/
theorem reloaded_get {config : Config} (h : config.Legible) (hs : config.Separate) (ht : config.Tidy)
    (order : ConfigOrder) (name key : Bytes) :
    (reloaded order config).get name key = config.get name key := by
  have hoptions : ∀ options : Options, (⟨name, options⟩ : Σ _ : Bytes, Options) ∈ config.entries →
      (reloadedOptions order name options).lookup key = options.lookup key := by
    intro options hsec
    have hsame : ∀ p ∈ pairs ((order.options name).reorder options.entries), tidyOption p = p := by
      intro p hp
      have hp' : p ∈ (docSection order ⟨name, options⟩).2 := hp
      exact ht _ hsec ⟨p.1, p.2⟩ (mem_docSection.mp hp')
    unfold reloadedOptions
    rw [(List.map_congr_left hsame).trans (List.map_id' _), docOptions_lookup,
      last_pairs ((order.options name).perm _)]
  unfold Config.get
  rw [reloaded_lookup h hs]
  cases hl : config.lookup name with
  | some options => exact hoptions options (AList.mem_lookup_iff.mp hl)
  | none =>
    by_cases hname : name = []
    · rw [if_pos hname, Option.none_or, Option.map_some, reloadedOptions_empty]
      rfl
    · rw [if_neg hname]
      rfl

theorem reloaded_isSome {config : Config} (h : config.Legible) (hs : config.Separate)
    (order : ConfigOrder) (name : Bytes) :
    ((reloaded order config).lookup name).isSome
      = ((config.lookup name).isSome || decide (name = [])) := by
  rw [reloaded_lookup h hs, Option.isSome_map, Option.isSome_or]
  by_cases hname : name = []
  · rw [if_pos hname, decide_eq_true hname]
    rfl
  · rw [if_neg hname, decide_eq_false hname]
    rfl

/-- What the check of `Load` lets pass. -/
theorem checkDataASCII_iff {data : Bytes} :
    checkDataASCII data = true ↔ Accepted data := by
  have hchar : ∀ c : UInt8, (c == 0x0D || c == 0x0A || (0x20 ≤ c && c ≤ 0x7E)) = true
      ↔ readable c = true ∨ c = 0x0A := by
    intro c
    unfold readable printable
    simp only [Bool.or_eq_true, beq_iff_eq]
    tauto
  unfold checkDataASCII
  rw [List.all_eq_true]
  exact forall₂_congr fun c _ => hchar c

theorem checkDataASCII_saveText {config : Config} (h : config.Legible) (order : ConfigOrder) :
    checkDataASCII (saveText order config) = true := by
  rw [saveText_eq h.noNul, checkDataASCII_iff]
  refine docText_accepted fun sec hsec => ?_
  obtain ⟨sec', hsec', rfl⟩ := mem_docOf.mp ((List.dropWhile_sublist _).subset hsec)
  obtain ⟨hname, hopts⟩ := h sec' hsec'
  exact ⟨hname, fun p hp => hopts ⟨p.1, p.2⟩ (mem_docSection.mp hp)⟩

/-- **Loading a text.** -/
theorem loadFrom_text {s : Loader b} {path : WStr} {text : Bytes} {env : LoadEnv}
    (hopen : env.opened = true) (hread : env.read = true) (hlen : text.length < 2 ^ 31)
    (hfile : s.files path = some text) :
    loadFrom s path false env
      = if checkDataASCII text = true then (true, { s with appConfig := configOfIni (iniLoad text) ∅ })
        else (false, { s with appConfig := ∅ }) := by
  have hwhole : text.take (text.length % 2 ^ 32) = text := by
    rw [Nat.mod_eq_of_lt (by omega), List.take_length]
  unfold loadFrom
  dsimp only
  rw [if_neg Bool.false_ne_true, if_pos hopen, hfile]
  dsimp only
  rw [hwhole, hread]
  simp only [true_and]

/-- **Loading the file that a save wrote.** -/
theorem loadFrom_saved {s : Loader b} {path : WStr} {config : Config} {order : ConfigOrder}
    {env : LoadEnv} (hopen : env.opened = true) (hread : env.read = true)
    (h : config.Legible) (hlen : (saveText order config).length < 2 ^ 31)
    (hfile : s.files path = some (saveText order config)) :
    loadFrom s path false env = (true, { s with appConfig := reloaded order config }) := by
  rw [loadFrom_text hopen hread hlen hfile, if_pos (checkDataASCII_saveText h order)]
  rfl

/-! ## Save, then load -/

/-- No call of the operating system fails. -/
structure Unobstructed (path : WStr) (save : SaveEnv) (load : LoadEnv) : Prop where
  path : path ≠ []
  created : save.created = true
  written : save.written = true
  opened : load.opened = true
  read : load.read = true

/-- The save is a matter of the length alone. -/
theorem saveTo_fst {s : Loader b} {path : WStr} {save : SaveEnv} {load : LoadEnv}
    (hok : Unobstructed path save load) :
    (saveTo s path save).1 = true ↔ (saveText save.order s.appConfig).length + 1 < 2 ^ 31 := by
  unfold saveTo
  rw [if_pos ⟨hok.created, hok.path⟩]
  dsimp only
  rw [hok.written]
  split
  · rename_i hfits
    exact ⟨fun _ => hfits.2, fun _ => rfl⟩
  · rename_i hfits
    exact ⟨fun h => absurd h Bool.false_ne_true, fun h => absurd ⟨rfl, h⟩ hfits⟩

/-- **What a save leaves at its path.** -/
theorem saveTo_file {s : Loader b} {path : WStr} {save : SaveEnv} {load : LoadEnv}
    (hok : Unobstructed path save load)
    (hfits : (saveText save.order s.appConfig).length + 1 < 2 ^ 31) :
    (saveTo s path save).2.files path = some (saveText save.order s.appConfig) := by
  unfold saveTo
  rw [if_pos ⟨hok.created, hok.path⟩]
  dsimp only
  rw [if_pos ⟨hok.written, hfits⟩]
  exact Function.update_self ..

/-- Whoever finds that file loads the text, whatever was in the store before. -/
theorem saveTo_loadFrom {b' : Build} {s : Loader b} {s' : Loader b'} {path : WStr} {save : SaveEnv}
    {load : LoadEnv} (hok : Unobstructed path save load)
    (hfits : (saveText save.order s.appConfig).length + 1 < 2 ^ 31)
    (hfile : s'.files path = (saveTo s path save).2.files path) :
    (loadFrom s' path false load).1 = checkDataASCII (saveText save.order s.appConfig)
      ∧ (checkDataASCII (saveText save.order s.appConfig) = true →
          (loadFrom s' path false load).2.appConfig = reloaded save.order s.appConfig) := by
  rw [loadFrom_text hok.opened hok.read (by omega) (hfile.trans (saveTo_file hok hfits))]
  cases hcheck : checkDataASCII (saveText save.order s.appConfig) with
  | false => exact ⟨rfl, fun h => by cases h⟩
  | true => exact ⟨rfl, fun _ => rfl⟩

/--
**Load undoes save** on a storable store, in whatever order it was walked: a process that
finds the saved file, whatever its own store held and whatever its build, has what was
saved. All that is added is an empty section without a name.
-/
theorem load_undoes_save {b' : Build} {s : Loader b} {s' : Loader b'} {path : WStr} {save : SaveEnv}
    {load : LoadEnv} (h : s.appConfig.Storable) (hok : Unobstructed path save load)
    (hfits : (saveText save.order s.appConfig).length + 1 < 2 ^ 31)
    (hfile : s'.files path = (saveTo s path save).2.files path) :
    (saveTo s path save).1 = true ∧ (loadFrom s' path false load).1 = true
      ∧ Config.Same (loadFrom s' path false load).2.appConfig (s.appConfig.insert [] ∅) := by
  obtain ⟨hlegible, hseparate, htidy⟩ := h.legible
  have hcheck := checkDataASCII_saveText hlegible save.order
  obtain ⟨hload, hconfig⟩ := saveTo_loadFrom hok hfits hfile
  refine ⟨(saveTo_fst hok).mpr hfits, hload.trans hcheck, fun name => ?_⟩
  rw [hconfig hcheck, reloaded_isSome hlegible hseparate]
  by_cases hname : name = []
  · subst hname
    refine ⟨?_, fun key => ?_⟩
    · rw [AList.lookup_insert, decide_eq_true rfl, Bool.or_true]
      rfl
    · rw [reloaded_get hlegible hseparate htidy, h.nameless]
      unfold Config.get
      rw [AList.lookup_insert]
      rfl
  · refine ⟨?_, fun key => ?_⟩
    · rw [AList.lookup_insert_ne hname, decide_eq_false hname, Bool.or_false]
    · rw [reloaded_get hlegible hseparate htidy]
      unfold Config.get
      rw [AList.lookup_insert_ne hname]

/-- A store with an empty value and an empty section. -/
def smallStore : Loader .win32 :=
  { Loader.start ⟨0, 0⟩ (fun _ => 0) (fun _ => 0) fun _ => none with
    appConfig := (Config.set ∅ (ascii "Name") (ascii "Key") []).insert (ascii "Empty") ∅ }

/-- The next process, of the other build, which finds the file and nothing else. -/
def nextStore : Loader .win64 :=
  Loader.start ⟨0, 0⟩ (fun _ => 0) (fun _ => 0) (saveTo smallStore [0x66] .ok).2.files

theorem load_undoes_save_small :
    (saveTo smallStore [0x66] .ok).1 = true
      ∧ (loadFrom nextStore [0x66] false .ok).1 = true
      ∧ Config.Same (loadFrom nextStore [0x66] false .ok).2.appConfig
          (smallStore.appConfig.insert [] ∅) :=
  load_undoes_save (by unfold Config.Storable; decide +kernel)
    ⟨by decide +kernel, rfl, rfl, rfl, rfl⟩ (by decide +kernel) rfl

/-! ## Setting and listing options -/

/-- What is in a store after an option was set. -/
theorem mem_set {config : Config} {name key value : Bytes} {sec : Σ _ : Bytes, Options}
    (h : sec ∈ (config.set name key value).entries) :
    sec ∈ config.entries ∨ (sec.1 = name ∧ ∀ p ∈ sec.2.entries, p = ⟨key, value⟩
      ∨ ∃ options, (⟨name, options⟩ : Σ _ : Bytes, Options) ∈ config.entries ∧ p ∈ options.entries) := by
  unfold Config.set at h
  cases hl : config.lookup name with
  | none =>
    rw [hl, AList.entries_insert] at h
    rcases List.mem_cons.mp h with rfl | h
    · refine Or.inr ⟨rfl, ?_⟩
      intro p hp
      exact Or.inl (List.mem_singleton.mp hp)
    · exact Or.inl ((List.kerase_sublist ..).subset h)
  | some options =>
    rw [hl, AList.entries_insert] at h
    rcases List.mem_cons.mp h with rfl | h
    · refine Or.inr ⟨rfl, ?_⟩
      intro p hp
      rw [AList.entries_insert] at hp
      rcases List.mem_cons.mp hp with rfl | hp
      · exact Or.inl rfl
      · exact Or.inr ⟨options, AList.mem_lookup_iff.mp hl, (List.kerase_sublist ..).subset hp⟩
    · exact Or.inl ((List.kerase_sublist ..).subset h)

theorem mem_getOptions {s : Loader b} {name : Bytes} {order : IterOrder (Σ _ : Bytes, Bytes)}
    {p : Σ _ : Bytes, Bytes} :
    p ∈ getOptions s name order ↔ s.appConfig.get name p.1 = some p.2 := by
  unfold getOptions Config.get
  cases s.appConfig.lookup name with
  | none => simp
  | some options => exact (order.perm _).mem_iff.trans AList.mem_lookup_iff.symm

theorem last_getOptions (s : Loader b) (name : Bytes) (order : IterOrder (Σ _ : Bytes, Bytes))
    (key : Bytes) : last key (pairs (getOptions s name order)) = s.appConfig.get name key := by
  unfold getOptions Config.get
  cases s.appConfig.lookup name with
  | none => rfl
  | some options => exact last_pairs (order.perm _) key

end CommonLoader
