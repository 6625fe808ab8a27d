import CommonLoader.Proof.KeyText
import CommonLoader.Proof.StoreRoundTrip

/-!
# The cache across a restart

A commit writes the key and the offset of the result into the store; the next
process reads the store and rebuilds the cache for its own module base. Null has no
offset and is stored as zero, and zero is read back as null. The module base has the
offset zero too.
-/

namespace CommonLoader

open ByteMemory CText LastWins

variable {b : Build}

/-! ## One entry -/

/-- What the next process makes of the offset of a result. -/
def rebuiltAddress (first second : ModuleInfo b) (a : Addr b) : Addr b :=
  if addressUnBased first a = 0 then 0 else addressUnBased first a + second.base

/-- **An offset is read back, and moved to the new base.** -/
theorem rebase_offset (first second : ModuleInfo b) (a : Addr b) :
    rebase second (BitVec.ofNat 64 (addressUnBased first a).toNat)
      = rebuiltAddress first second a := by
  have hwide : ∀ x : Addr b, BitVec.ofNat 64 x.toNat = x.setWidth 64 := fun x => BitVec.ofNat_toNat _ _
  have hback : ∀ x : Addr b, (x.setWidth 64).setWidth b.bits = x := by
    intro x
    cases b with
    | win32 => exact (BitVec.setWidth_setWidth_of_le x (by decide)).trans (BitVec.setWidth_eq x)
    | win64 => rfl
  have hsign := setWidth_signExtend b.bits_le second.base
  unfold rebase rebuiltAddress
  rw [hwide]
  by_cases h0 : addressUnBased first a = 0
  · rw [if_pos h0, h0]
    cases b <;> rfl
  · have h0' : (addressUnBased first a).setWidth 64 ≠ 0 := by
      intro h
      refine h0 ?_
      rw [← hback (addressUnBased first a), h]
      cases b <;> rfl
    rw [if_pos h0', if_neg h0, BitVec.setWidth_add _ _ b.bits_le, hback, hsign]

/-! ## The section of the scanner -/

/-- One committed result as the store has it. -/
def storedEntry (moduleInfo : ModuleInfo b) (p : SignatureKey × Addr b) : Bytes × Bytes :=
  (p.1.text, offsetText moduleInfo p.2)

theorem initSigScannerStep_stored (first second : ModuleInfo b)
    (cache : UnorderedMap SignatureKey (Addr b)) (p : SignatureKey × Addr b) :
    initSigScannerStep second cache ⟨(storedEntry first p).1, (storedEntry first p).2⟩
      = cache.insert p.1 (rebuiltAddress first second p.2) := by
  have hlt : (addressUnBased first p.2).toNat < 2 ^ 64 :=
    Nat.lt_of_lt_of_le (BitVec.isLt _) (Nat.pow_le_pow_right (by decide) b.bits_le)
  have hoffset := scanHex_printHex hlt endsHex_nil
  rw [List.append_nil] at hoffset
  unfold initSigScannerStep storedEntry offsetText
  simp only [parseString_text, hoffset]
  rw [rebase_offset]

/-- The loop of `InitSigScanner` over entries that were all committed. -/
theorem initSigScanner_fold (first second : ModuleInfo b) (l : List (SignatureKey × Addr b))
    (cache : UnorderedMap SignatureKey (Addr b)) (key : SignatureKey) :
    ((l.map fun p => (⟨(storedEntry first p).1, (storedEntry first p).2⟩ : Σ _ : Bytes, Bytes)).foldl
        (initSigScannerStep second) cache).lookup key
      = ((last key l).map (rebuiltAddress first second)).or (cache.lookup key) := by
  have hlist := last_map (f := fun key : SignatureKey => key) (fun _ _ h => h)
    (rebuiltAddress first second) key l
  rw [List.foldl_map, ← hlist, ← lookup_foldl_insert, List.foldl_map]
  simp only [initSigScannerStep_stored]

/-- Equal texts are read as equal addresses. -/
theorem rebuiltAddress_congr {first second : ModuleInfo b} {a a' : Addr b}
    (h : offsetText first a = offsetText first a') :
    rebuiltAddress first second a = rebuiltAddress first second a' := by
  have hl := initSigScannerStep_stored first second ∅ (⟨0, 0⟩, a)
  have hr := initSigScannerStep_stored first second ∅ (⟨0, 0⟩, a')
  unfold storedEntry at hl hr
  dsimp only at hl hr
  rw [h, hr] at hl
  have := congrArg (AList.lookup ⟨0, 0⟩) hl
  rw [AList.lookup_insert, AList.lookup_insert] at this
  exact (Option.some.inj this).symm

/-- A list of options that were all committed is the list of some results. -/
theorem exists_results {moduleInfo : ModuleInfo b} : ∀ l : List (Σ _ : Bytes, Bytes),
    (∀ p ∈ l, ∃ r : SignatureKey × Addr b, (p.1, p.2) = storedEntry moduleInfo r) →
    ∃ rs : List (SignatureKey × Addr b),
      l = rs.map fun r => ⟨(storedEntry moduleInfo r).1, (storedEntry moduleInfo r).2⟩ := by
  intro l
  induction l with
  | nil =>
    intro _
    exact ⟨[], rfl⟩
  | cons p l ih =>
    intro h
    obtain ⟨r, hr⟩ := h p (List.mem_cons_self ..)
    obtain ⟨rs, rfl⟩ := ih fun q hq => h q (List.mem_cons_of_mem _ hq)
    refine ⟨r :: rs, ?_⟩
    rw [List.map_cons, ← hr]

/-- **The cache rebuilt from the options**: by key, the last result, moved to the new base. -/
theorem initSigScanner_lookup {s : Loader b} {first : ModuleInfo b}
    {results : List (SignatureKey × Addr b)} (order : IterOrder (Σ _ : Bytes, Bytes))
    (hempty : s.sigLookupCache = ∅)
    (hopts : ∀ k, s.appConfig.get scannerSection k = last k (results.map (storedEntry first)))
    (key : SignatureKey) :
    (initSigScanner s order).sigLookupCache.lookup key
      = (last key results).map (rebuiltAddress first s.moduleInfo) := by
  have hcommitted : ∀ p ∈ getOptions s scannerSection order,
      ∃ r : SignatureKey × Addr b, (p.1, p.2) = storedEntry first r := by
    intro p hp
    have hmem := mem_of_last ((hopts p.1).symm.trans (mem_getOptions.mp hp))
    obtain ⟨r, _, hr⟩ := List.mem_map.mp hmem
    exact ⟨r, hr.symm⟩
  obtain ⟨rs, hrs⟩ := exists_results _ hcommitted
  -- both lists bind the text of the key to the same offset
  have hsame : (last key rs).map (offsetText first) = (last key results).map (offsetText first) := by
    rw [← last_map SignatureKey.text_injective, ← last_map SignatureKey.text_injective]
    change _ = last _ (results.map (storedEntry first))
    rw [← hopts, ← last_getOptions s scannerSection order, hrs]
    unfold pairs
    rw [List.map_map]
    rfl
  unfold initSigScanner
  dsimp only
  rw [hrs, initSigScanner_fold, hempty, AList.lookup_empty, Option.or_none]
  cases hl : last key rs with
  | none =>
    rw [hl, Option.map_none] at hsame
    rw [Option.map_eq_none_iff.mp hsame.symm]
  | some a =>
    rw [hl, Option.map_some] at hsame
    obtain ⟨a', hl', ha'⟩ := Option.map_eq_some_iff.mp hsame.symm
    rw [hl', Option.map_some, Option.map_some, rebuiltAddress_congr ha']

/-! ## A process that commits -/

/-- One commit: a key, a result, and what its save meets. -/
structure Commit (b : Build) where
  key : SignatureKey
  result : Addr b
  save : SaveEnv

def commitAll (s : Loader b) (cs : List (Commit b)) : Loader b :=
  cs.foldl (fun s c => commitSignatureCache s c.key c.result c.save) s

/-- What the last save met: the one of the last commit, or else the one before. -/
def lastSave (env : SaveEnv) (cs : List (Commit b)) : SaveEnv :=
  cs.foldl (fun _ c => c.save) env

/-- The results by key, in the order they were committed. -/
def committedResults (cs : List (Commit b)) : List (SignatureKey × Addr b) :=
  cs.map fun c => (c.key, c.result)

/-- The file holds the options, unless the last save failed. -/
def Stored (env : SaveEnv) (s : Loader b) : Prop :=
  env.created = true → env.written = true → (saveText env.order s.appConfig).length + 1 < 2 ^ 31 →
    s.files s.appStoragePath = some (saveText env.order s.appConfig)

/-- What holds from the initialisation on, through every commit. -/
structure Committing (moduleInfo : ModuleInfo b) (path : WStr) (env : SaveEnv)
    (results : List (SignatureKey × Addr b)) (s : Loader b) : Prop where
  info : s.moduleInfo = moduleInfo
  path : s.appStoragePath = path
  storable : s.appConfig.Storable
  options : ∀ k, s.appConfig.get scannerSection k = last k (results.map (storedEntry moduleInfo))
  stored : Stored env s

/-- The same for a name that need not be storable. -/
structure NamedStore (moduleInfo : ModuleInfo b) (path : WStr) (name : Bytes) (env : SaveEnv)
    (results : List (SignatureKey × Addr b)) (s : Loader b) : Prop where
  info : s.moduleInfo = moduleInfo
  path : s.appStoragePath = path
  named : s.appConfig.get defaultSection (ascii "Name") = some name
  options : ∀ k, s.appConfig.get scannerSection k = last k (results.map (storedEntry moduleInfo))
  content : ∀ sec ∈ s.appConfig.entries, StorableName sec.1
    ∧ ∀ p ∈ sec.2.entries, StorableKey p.1 ∧ (StorableValue p.2 ∨ p.2 = name)
  stored : Stored env s

/-- What a save leaves. -/
theorem save_frame (s : Loader b) (env : SaveEnv) :
    (save s env).2.moduleInfo = s.moduleInfo ∧ (save s env).2.appStoragePath = s.appStoragePath
      ∧ (save s env).2.appConfig = s.appConfig
      ∧ (save s env).2.sigLookupCache = s.sigLookupCache := by
  unfold save saveTo
  split
  · dsimp only
    split <;> exact ⟨rfl, rfl, rfl, rfl⟩
  · exact ⟨rfl, rfl, rfl, rfl⟩

theorem stored_save {s : Loader b} (hpath : s.appStoragePath ≠ []) (env : SaveEnv) :
    Stored env (save s env).2 := by
  intro hc hw hfits
  obtain ⟨_, hp, hcfg, _⟩ := save_frame s env
  rw [hcfg] at hfits ⊢
  rw [hp]
  unfold save saveTo
  rw [if_pos ⟨hc, hpath⟩]
  dsimp only
  rw [if_pos ⟨hw, hfits⟩]
  exact Function.update_self ..

/-- **What a commit does** to the store. -/
theorem commitSignatureCache_store (s : Loader b) (key : SignatureKey) (v : Addr b) (env : SaveEnv) :
    (commitSignatureCache s key v env).moduleInfo = s.moduleInfo
      ∧ (commitSignatureCache s key v env).appStoragePath = s.appStoragePath
      ∧ (commitSignatureCache s key v env).appConfig
        = s.appConfig.set scannerSection key.text (offsetText s.moduleInfo v)
      ∧ (s.appStoragePath ≠ [] → Stored env (commitSignatureCache s key v env)) := by
  rw [commitSignatureCache_eq]
  obtain ⟨hm, hp, hcfg, _⟩ := save_frame (setOption { s with
    sigLookupCache := s.sigLookupCache.insert key v } scannerSection key.text
      (offsetText s.moduleInfo v)) env
  refine ⟨hm, hp, hcfg, ?_⟩
  intro hpath
  exact stored_save (by exact hpath) env

theorem scannerSection_ne : scannerSection ≠ defaultSection := by decide +kernel

/-- A commit leaves the name alone. -/
theorem NamedStore.commit {moduleInfo : ModuleInfo b} {path : WStr} {name : Bytes} {env : SaveEnv}
    {results : List (SignatureKey × Addr b)} {s : Loader b}
    (h : NamedStore moduleInfo path name env results s) (hpath : path ≠ []) (c : Commit b) :
    NamedStore moduleInfo path name c.save (results ++ [(c.key, c.result)])
      (commitSignatureCache s c.key c.result c.save) := by
  obtain ⟨hm, hp, hcfg, hstored⟩ := commitSignatureCache_store s c.key c.result c.save
  refine ⟨hm.trans h.info, hp.trans h.path, ?_, fun k => ?_, fun sec hsec => ?_,
    hstored fun hnil => hpath (h.path.symm.trans hnil)⟩
  · rw [hcfg, Config.get_set_ne _ _ _ _ (Ne.symm scannerSection_ne), h.named]
  · rw [hcfg, Config.get_set, List.map_append, List.map_singleton, last_snoc, h.options, h.info]
    rfl
  · rw [hcfg] at hsec
    rcases mem_set hsec with hold | ⟨hname, hopts⟩
    · exact h.content sec hold
    · refine ⟨hname ▸ storableName_scannerSection, fun p hp => ?_⟩
      rcases hopts p hp with rfl | ⟨options, hold, hp'⟩
      · exact ⟨storableKey_text c.key, Or.inl (storableValue_printHex _)⟩
      · exact (h.content _ hold).2 p hp'

/-- **Through a run of commits.** -/
theorem NamedStore.commitAll {moduleInfo : ModuleInfo b} {path : WStr} {name : Bytes} {env : SaveEnv}
    {results : List (SignatureKey × Addr b)} {s : Loader b}
    (h : NamedStore moduleInfo path name env results s) (hpath : path ≠ []) (cs : List (Commit b)) :
    NamedStore moduleInfo path name (lastSave env cs) (results ++ committedResults cs)
      (commitAll s cs) := by
  induction cs generalizing env results s with
  | nil =>
    unfold committedResults
    rw [List.map_nil, List.append_nil]
    exact h
  | cons c cs ih =>
    have := ih (h.commit hpath c)
    rw [List.append_assoc] at this
    exact this

/-- With a name that comes back, everything does. -/
theorem NamedStore.legible {moduleInfo : ModuleInfo b} {path : WStr} {name : Bytes} {env : SaveEnv}
    {results : List (SignatureKey × Addr b)} {s : Loader b}
    (h : NamedStore moduleInfo path name env results s) (hname : LegibleValue name)
    (htidy : tidyValue name = name) :
    s.appConfig.Legible ∧ s.appConfig.Separate ∧ s.appConfig.Tidy := by
  have hvalue : ∀ {value : Bytes}, StorableValue value ∨ value = name →
      LegibleValue value ∧ tidyValue value = value := by
    rintro value (hv | rfl)
    · exact hv.legible
    · exact ⟨hname, htidy⟩
  refine ⟨?_, Or.inl (Config.get_nameless ?_), ?_⟩
  · intro sec hsec
    refine ⟨Or.inr (h.content sec hsec).1.legible, fun p hp => ?_⟩
    obtain ⟨hk, hv⟩ := (h.content sec hsec).2 p hp
    exact ⟨hk.legible.1, (hvalue hv).1⟩
  · intro sec hsec hnil
    exact absurd hnil (h.content sec hsec).1.ne_nil
  · intro sec hsec p hp
    obtain ⟨hk, hv⟩ := (h.content sec hsec).2 p hp
    exact Prod.ext (tidyKey_eq_self hk.legible.2) (hvalue hv).2

theorem NamedStore.committing {moduleInfo : ModuleInfo b} {path : WStr} {name : Bytes}
    {env : SaveEnv} {results : List (SignatureKey × Addr b)} {s : Loader b}
    (h : NamedStore moduleInfo path name env results s) (hname : StorableValue name) :
    Committing moduleInfo path env results s := by
  refine ⟨h.info, h.path, fun sec hsec => Or.inr ⟨(h.content sec hsec).1, fun p hp => ?_⟩,
    h.options, h.stored⟩
  obtain ⟨hk, hv⟩ := (h.content sec hsec).2 p hp
  exact ⟨hk, hv.elim id fun he => he ▸ hname⟩

/-! ## Two processes -/

theorem storagePath_ne_nil (szPath : WStr) (uid : UInt32) : storagePath szPath uid ≠ [] := by
  have hfolder : storageFolder ≠ [] := by decide +kernel
  intro h
  unfold storagePath at h
  exact hfolder (List.append_eq_nil_iff.mp (List.append_eq_nil_iff.mp h).1).2

theorem storableName_defaultSection : StorableName defaultSection := by decide +kernel

theorem storableKey_name : StorableKey (ascii "Name") := by decide +kernel

/-- The path of the store of a process that starts. -/
def storePathOf (s : Loader b) (szPath : WStr) : WStr :=
  storagePath szPath (xxh32 (moduleHeaders s) 0)

theorem storePathOf_congr {s t : Loader b} (h : moduleHeaders s = moduleHeaders t) (szPath : WStr) :
    storePathOf s szPath = storePathOf t szPath := by
  unfold storePathOf
  rw [h]

/-- The state in which `ApplicationStore::Init` loads. -/
def beforeLoad (s : Loader b) (szPath : WStr) : Loader b :=
  { s with
    isInit := true
    appConfig := ∅
    appUid := xxh32 (moduleHeaders s) 0
    appStoragePath := storePathOf s szPath }

theorem init_eq {s : Loader b} {env : InitEnv} {szPath : WStr} (hinit : s.isInit = false)
    (hsz : env.szPath = some szPath) :
    init s env = initSigScanner
      (if (loadFrom (beforeLoad s szPath) (storePathOf s szPath) false env.load).1 then
        (loadFrom (beforeLoad s szPath) (storePathOf s szPath) false env.load).2
      else
        (save (setOption (loadFrom (beforeLoad s szPath) (storePathOf s szPath) false env.load).2
          defaultSection (ascii "Name") (narrow env.fileName)) env.save).2) env.scannerOrder := by
  have hheaders : moduleHeaders { s with isInit := true } = moduleHeaders s := rfl
  unfold init initStore beforeLoad storePathOf
  rw [if_neg (by rw [hinit]; exact Bool.false_ne_true), hsz]
  dsimp only
  rw [hheaders]

theorem loadFrom_missing {s : Loader b} {path : WStr} (hno : s.files path = none) (env : LoadEnv) :
    loadFrom s path false env = (false, { s with appConfig := ∅ }) := by
  unfold loadFrom
  dsimp only
  rw [if_neg Bool.false_ne_true]
  dsimp only
  rw [hno, ite_self]

/-- **An initialisation that finds no store** makes one with the name in it. -/
theorem init_missing {s : Loader b} {env : InitEnv} {szPath : WStr} (hinit : s.isInit = false)
    (hsz : env.szPath = some szPath) (hno : s.files (storePathOf s szPath) = none) :
    (init s env).moduleInfo = s.moduleInfo
      ∧ (init s env).appStoragePath = storePathOf s szPath
      ∧ (init s env).appConfig = Config.set ∅ defaultSection (ascii "Name") (narrow env.fileName)
      ∧ Stored env.save (init s env) := by
  rw [init_eq hinit hsz, loadFrom_missing (show (beforeLoad s szPath).files _ = none from hno)]
  dsimp only
  rw [if_neg Bool.false_ne_true]
  generalize hs' : setOption _ defaultSection (ascii "Name") (narrow env.fileName) = s'
  have hm' : s'.moduleInfo = s.moduleInfo := by rw [← hs']; rfl
  have hp' : s'.appStoragePath = storePathOf s szPath := by rw [← hs']; rfl
  have hcfg' : s'.appConfig = Config.set ∅ defaultSection (ascii "Name") (narrow env.fileName) := by
    rw [← hs']
    rfl
  obtain ⟨hm, hp, hcfg, _⟩ := save_frame s' env.save
  -- the walk over the section of the scanner touches the cache only
  refine ⟨hm.trans hm', hp.trans hp', hcfg.trans hcfg', ?_⟩
  exact stored_save (by rw [hp']; exact storagePath_ne_nil _ _) env.save

theorem namedStore_init {s : Loader b} {env : InitEnv} {szPath : WStr} (hinit : s.isInit = false)
    (hsz : env.szPath = some szPath) (hno : s.files (storePathOf s szPath) = none) :
    NamedStore s.moduleInfo (storePathOf s szPath) (narrow env.fileName) env.save [] (init s env) := by
  obtain ⟨hm, hp, hcfg, hstored⟩ := init_missing hinit hsz hno
  refine ⟨hm, hp, ?_, fun k => ?_, fun sec hsec => ?_, hstored⟩
  · rw [hcfg, Config.get_set, if_pos rfl]
  · rw [hcfg, Config.get_set_ne _ _ _ _ scannerSection_ne]
    rfl
  · rw [hcfg] at hsec
    rcases mem_set hsec with hold | ⟨hname, hopts⟩
    · cases hold
    · refine ⟨hname ▸ storableName_defaultSection, fun p hp => ?_⟩
      rcases hopts p hp with rfl | ⟨options, hold, _⟩
      · exact ⟨storableKey_name, Or.inr rfl⟩
      · cases hold

/--
Two processes of one executable. The first finds no store, and commits; the second
finds what the first has stored.
-/
structure PersistedRun (b : Build) where
  first : ModuleInfo b
  firstMem : Mem b.bits
  firstProt : Nat → BitVec 32
  files : WStr → Option Bytes
  szPath : WStr
  firstInit : InitEnv
  commits : List (Commit b)
  second : ModuleInfo b
  secondMem : Mem b.bits
  secondProt : Nat → BitVec 32
  secondInit : InitEnv
  noStore : files (storePathOf (Loader.start first firstMem firstProt files) szPath) = none
  firstPath : firstInit.szPath = some szPath
  secondPath : secondInit.szPath = some szPath
  sameExecutable : moduleHeaders (Loader.start second secondMem secondProt files)
    = moduleHeaders (Loader.start first firstMem firstProt files)
  name : StorableValue (narrow firstInit.fileName)
  -- the last save went through, and so does the load
  created : (lastSave firstInit.save commits).created = true
  written : (lastSave firstInit.save commits).written = true
  fits : (saveText (lastSave firstInit.save commits).order (commitAll
    (init (Loader.start first firstMem firstProt files) firstInit) commits).appConfig).length + 1
      < 2 ^ 31
  opened : secondInit.load.opened = true
  read : secondInit.load.read = true

/-- The end of the first process. -/
def PersistedRun.committed (r : PersistedRun b) : Loader b :=
  commitAll (init (Loader.start r.first r.firstMem r.firstProt r.files) r.firstInit) r.commits

/-- The second process, after its initialisation. -/
def PersistedRun.restarted (r : PersistedRun b) : Loader b :=
  init (Loader.start r.second r.secondMem r.secondProt r.committed.files) r.secondInit

theorem PersistedRun.committing (r : PersistedRun b) :
    Committing r.first (storePathOf (Loader.start r.first r.firstMem r.firstProt r.files) r.szPath)
      (lastSave r.firstInit.save r.commits) (committedResults r.commits) r.committed := by
  have hinit := namedStore_init (s := Loader.start r.first r.firstMem r.firstProt r.files) rfl
    r.firstPath r.noStore
  have := (hinit.commitAll (storagePath_ne_nil _ _) r.commits).committing r.name
  rwa [List.nil_append] at this

/-- **The cache of the second process.** -/
theorem PersistedRun.restarted_lookup (r : PersistedRun b) (key : SignatureKey) :
    r.restarted.sigLookupCache.lookup key
      = (last key (committedResults r.commits)).map (rebuiltAddress r.first r.second) := by
  have h := r.committing
  have hfits : (saveText (lastSave r.firstInit.save r.commits).order
      r.committed.appConfig).length + 1 < 2 ^ 31 := r.fits
  have hpath : storePathOf (Loader.start r.second r.secondMem r.secondProt r.committed.files)
      r.szPath = r.committed.appStoragePath :=
    (storePathOf_congr r.sameExecutable r.szPath).trans h.path.symm
  have hfile := h.stored r.created r.written r.fits
  have hload := loadFrom_saved (s := beforeLoad (Loader.start r.second r.secondMem r.secondProt
    r.committed.files) r.szPath) r.opened r.read h.storable.legible.1
    (by omega) hfile
  unfold PersistedRun.restarted
  rw [init_eq rfl r.secondPath, hpath, hload]
  dsimp only
  rw [if_pos rfl]
  obtain ⟨hlegible, hseparate, htidy⟩ := h.storable.legible
  refine @initSigScanner_lookup b _ r.first _ _ rfl (fun k => ?_) key
  exact (reloaded_get hlegible hseparate htidy _ _ k).trans (h.options k)

/--
What the store is for: each key has the last result it had, at the new base, there
is no other key, and null is what it was before and nothing else.
-/
def PersistedRun.Survives (r : PersistedRun b) : Prop :=
  (∀ key, r.restarted.sigLookupCache.lookup key
    = (last key (committedResults r.commits)).map fun a =>
        if a = 0 then 0 else a - r.first.base + r.second.base)
  ∧ ∀ key a, last key (committedResults r.commits) = some a →
      (r.restarted.sigLookupCache.lookup key = some 0 ↔ a = 0)

/--
**What survives a restart**: the results that are neither the module base itself nor
moved to the address zero.
-/
theorem cache_survives (r : PersistedRun b) :
    r.Survives ↔ ∀ key a, last key (committedResults r.commits) = some a → a ≠ 0 →
      a ≠ r.first.base ∧ a - r.first.base + r.second.base ≠ 0 := by
  have hrebuilt : ∀ a : Addr b, a ≠ 0 → a ≠ r.first.base →
      rebuiltAddress r.first r.second a = a - r.first.base + r.second.base := by
    intro a h0 hb
    unfold rebuiltAddress addressUnBased
    rw [if_neg h0, if_neg (show ¬a - r.first.base = 0 from
      fun h => hb ((BitVec.sub_eq_iff_eq_add.mp h).trans (BitVec.zero_add _)))]
  have hnull : rebuiltAddress r.first r.second 0 = 0 := by
    unfold rebuiltAddress addressUnBased
    rw [if_pos rfl, if_pos rfl]
  refine ⟨fun ⟨hvalue, hzero⟩ key a hl h0 => ?_, fun h => ⟨fun key => ?_, fun key a hl => ?_⟩⟩
  · -- the base is stored as offset zero, which is read as null
    have hkey := r.restarted_lookup key
    rw [hl, Option.map_some] at hkey
    have hne : rebuiltAddress r.first r.second a ≠ 0 := fun he =>
      h0 ((hzero key a hl).mp (hkey.trans (congrArg some he)))
    have hb : a ≠ r.first.base := by
      intro hb
      refine hne ?_
      unfold rebuiltAddress addressUnBased
      rw [if_neg h0, hb, BitVec.sub_self]
      exact if_pos rfl
    exact ⟨hb, hrebuilt a h0 hb ▸ hne⟩
  · rw [r.restarted_lookup]
    cases hl : last key (committedResults r.commits) with
    | none => rfl
    | some a =>
      rw [Option.map_some, Option.map_some]
      by_cases h0 : a = 0
      · rw [if_pos h0, h0, hnull]
      · rw [if_neg h0, hrebuilt a h0 (h key a hl h0).1]
  · rw [r.restarted_lookup, hl, Option.map_some, Option.some_inj]
    by_cases h0 : a = 0
    · rw [h0, hnull]
    · rw [hrebuilt a h0 (h key a hl h0).1]
      exact ⟨fun he => absurd he (h key a hl h0).2, fun he => absurd he h0⟩

/-- A process at `0x400000` that commits one result, and the next one at `0x500000`. -/
def oneResult (result : Addr .win32)
    (hfits : (saveText SaveEnv.ok.order (commitAll
      (init (Loader.start ⟨BitVec.ofNat _ 0x400000, 0⟩ (fun _ => 0) (fun _ => 0) fun _ => none)
        ⟨some [], [0x61], .ok, .ok, .asIs⟩)
      [⟨⟨1, 2⟩, result, .ok⟩]).appConfig).length + 1 < 2 ^ 31) : PersistedRun .win32 where
  first := ⟨BitVec.ofNat _ 0x400000, 0⟩
  firstMem := fun _ => 0
  firstProt := fun _ => 0
  files := fun _ => none
  szPath := []
  firstInit := ⟨some [], [0x61], .ok, .ok, .asIs⟩
  commits := [⟨⟨1, 2⟩, result, .ok⟩]
  second := ⟨BitVec.ofNat _ 0x500000, 0⟩
  secondMem := fun _ => 0
  secondProt := fun _ => 0
  secondInit := ⟨some [], [0x61], .ok, .ok, .asIs⟩
  noStore := rfl
  firstPath := rfl
  secondPath := rfl
  sameExecutable := rfl
  name := by decide +kernel
  created := rfl
  written := rfl
  fits := hfits
  opened := rfl
  read := rfl

/-- A result inside the module survives. -/
theorem cache_survives_inside :
    (oneResult (BitVec.ofNat _ 0x401000) (by decide +kernel)).Survives := by
  refine (cache_survives _).mpr fun key a hl h0 => ?_
  obtain ⟨rfl, rfl⟩ := Prod.mk.inj (List.mem_singleton.mp (mem_of_last hl))
  decide +kernel

/-- The module base itself comes back as null, that is as not found. -/
theorem base_forgotten : ¬(oneResult (BitVec.ofNat _ 0x400000) (by decide +kernel)).Survives := by
  intro h
  have hzero := (h.2 ⟨1, 2⟩ (BitVec.ofNat _ 0x400000) rfl).mp (by
    rw [PersistedRun.restarted_lookup]
    rfl)
  exact absurd hzero (by decide)

end CommonLoader
