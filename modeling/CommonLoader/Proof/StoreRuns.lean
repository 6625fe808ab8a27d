import CommonLoader.Lib.Runs
import CommonLoader.Proof.CacheStore

/-!
# The store over many processes

The options of an initialised process and the file it keeps them in say the same things,
whatever they are: a property of the options that holds of the file when a process starts,
and that commits keep, holds in every process from its initialisation on and of every file
that it saves. What can break it is a save that stops after the file was emptied, and an
initialisation that cannot read the file and puts one with a name in its place.
-/

namespace CommonLoader

open ByteMemory CText LastWins Runs

variable {b : Build} {s : Loader b} {Q : (Bytes → Bytes → Option Bytes) → Prop} {path : WStr}

/-- Storable options with a property. -/
structure Config.Holds (Q : (Bytes → Bytes → Option Bytes) → Prop) (config : Config) : Prop where
  storable : config.Storable
  options : Q config.get

/-- A text that loads as such options. -/
structure TextHolds (Q : (Bytes → Bytes → Option Bytes) → Prop) (text : Bytes) : Prop where
  fits : text.length < 2 ^ 31
  accepted : checkDataASCII text = true
  loads : (configOfIni (iniLoad text) ∅).Holds Q

/-- Before the initialisation there is no path, after it file and options have the property. -/
structure StoreHolds (Q : (Bytes → Bytes → Option Bytes) → Prop) (path : WStr) (s : Loader b) :
    Prop where
  file : ∀ text, s.files path = some text → TextHolds Q text
  early : s.isInit = false → s.appStoragePath = []
  late : s.isInit = true → s.appStoragePath = path ∧ s.appConfig.Holds Q

/-! ## Options that are saved and loaded -/

/-- One option more. -/
theorem Config.Storable.set {config : Config} (h : config.Storable) {name key value : Bytes}
    (hname : StorableName name) (hkey : StorableKey key) (hvalue : StorableValue value) :
    (config.set name key value).Storable := by
  intro sec hsec
  rcases mem_set hsec with hold | ⟨hsecname, hopts⟩
  · exact h sec hold
  · refine Or.inr ⟨hsecname ▸ hname, fun p hp => ?_⟩
    rcases hopts p hp with rfl | ⟨options, hold, hp'⟩
    · exact ⟨hkey, hvalue⟩
    · rcases h _ hold with ⟨_, hnil⟩ | ⟨_, hall⟩
      · rw [hnil] at hp'
        cases hp'
      · exact hall p hp'

/-- **What is storable comes back storable.** -/
theorem Config.Storable.reloaded {config : Config} (h : config.Storable) (order : ConfigOrder) :
    (reloaded order config).Storable := by
  obtain ⟨hlegible, hseparate, htidy⟩ := h.legible
  intro sec hsec
  have hopts : ∀ p ∈ sec.2.entries, ∃ options,
      (⟨sec.1, options⟩ : Σ _ : Bytes, Options) ∈ config.entries ∧ p ∈ options.entries := by
    intro p hp
    have hget := Config.get_eq_some.mpr ⟨sec.2, hsec, hp⟩
    rw [reloaded_get hlegible hseparate htidy] at hget
    exact Config.get_eq_some.mp hget
  -- a load always adds a nameless section, but nothing is in it
  by_cases hname : sec.1 = []
  · refine Or.inl ⟨hname, List.eq_nil_iff_forall_not_mem.mpr fun p hp => ?_⟩
    obtain ⟨options, hold, hp'⟩ := hopts p hp
    rcases h _ hold with ⟨_, hnil⟩ | ⟨hstorable, _⟩
    · rw [hnil] at hp'
      cases hp'
    · exact hstorable.ne_nil hname
  · have hsome : ((CommonLoader.reloaded order config).lookup sec.1).isSome = true := by
      rw [AList.mem_lookup_iff.mpr hsec]
      rfl
    rw [reloaded_isSome hlegible hseparate, decide_eq_false hname, Bool.or_false] at hsome
    obtain ⟨options, hlookup⟩ := Option.isSome_iff_exists.mp hsome
    rcases h _ (AList.mem_lookup_iff.mp hlookup) with ⟨hnil, _⟩ | ⟨hstorable, _⟩
    · exact absurd hnil hname
    · refine Or.inr ⟨hstorable, fun p hp => ?_⟩
      obtain ⟨options', hold, hp'⟩ := hopts p hp
      rcases h _ hold with ⟨hnil, _⟩ | ⟨_, hall⟩
      · exact absurd hnil hname
      · exact hall p hp'

theorem Config.Holds.reloaded {config : Config} (h : config.Holds Q) (order : ConfigOrder) :
    (reloaded order config).Holds Q := by
  obtain ⟨hlegible, hseparate, htidy⟩ := h.storable.legible
  have hget : (CommonLoader.reloaded order config).get = config.get := by
    funext name key
    exact reloaded_get hlegible hseparate htidy order name key
  exact ⟨h.storable.reloaded order, hget ▸ h.options⟩

/-- **The text of a save.** -/
theorem Config.Holds.saved {config : Config} (h : config.Holds Q) {order : ConfigOrder}
    (hfits : (saveText order config).length + 1 < 2 ^ 31) : TextHolds Q (saveText order config) :=
  ⟨by omega, checkDataASCII_saveText h.storable.legible.1 order, h.reloaded order⟩

/-- The empty file loads as no options at all. -/
theorem textHolds_nil (h : Q fun _ _ => none) : TextHolds Q [] := by
  have hempty : (∅ : Config).Holds Q := by
    refine ⟨fun sec hsec => ?_, h⟩
    cases hsec
  have hnil : saveText SaveEnv.ok.order ∅ = [] := by decide +kernel
  rw [← hnil]
  exact hempty.saved (by rw [hnil]; decide)

/-! ## What happens to the store -/

/-- A save that goes through, does not begin, or may leave an empty file. -/
def SafeSave (Q : (Bytes → Bytes → Option Bytes) → Prop) (env : SaveEnv) (config : Config) : Prop :=
  env.created = true →
    (env.written = true ∧ (saveText env.order config).length + 1 < 2 ^ 31) ∨ Q fun _ _ => none

/-- A save touches files. -/
theorem save_eq (s : Loader b) (env : SaveEnv) : ∃ files, (save s env).2 = { s with files } := by
  unfold save saveTo
  split
  · dsimp only
    split <;> exact ⟨_, rfl⟩
  · exact ⟨s.files, rfl⟩

/-- A load touches options. -/
theorem loadFrom_eq (s : Loader b) (path : WStr) (append : Bool) (env : LoadEnv) :
    ∃ appConfig, (loadFrom s path append env).2 = { s with appConfig } := by
  unfold loadFrom
  dsimp only
  split
  · split <;> exact ⟨_, rfl⟩
  · split <;> split <;> exact ⟨_, rfl⟩

/-- `ApplicationStore::Init` touches the store. -/
theorem initStore_eq (s : Loader b) (env : InitEnv) :
    ∃ appConfig appUid appStoragePath files,
      initStore s env = { s with appConfig, appUid, appStoragePath, files } := by
  have hload : ∀ (s : Loader b) (path : WStr), ∃ appConfig files,
      (if (loadFrom s path false env.load).1 then (loadFrom s path false env.load).2
      else (save (setOption (loadFrom s path false env.load).2 defaultSection (ascii "Name")
        (narrow env.fileName)) env.save).2) = { s with appConfig, files } := by
    intro s path
    obtain ⟨appConfig, hload⟩ := loadFrom_eq s path false env.load
    rw [hload]
    split
    · exact ⟨appConfig, s.files, rfl⟩
    · obtain ⟨files, hsave⟩ := save_eq (setOption { s with appConfig } defaultSection
        (ascii "Name") (narrow env.fileName)) env.save
      exact ⟨_, files, hsave⟩
  unfold initStore
  split
  · exact ⟨_, _, _, s.files, rfl⟩
  · rename_i szPath _
    obtain ⟨appConfig, files, h⟩ := hload
      { s with
        appConfig := ∅
        appUid := xxh32 (moduleHeaders s) 0
        appStoragePath := storagePath szPath (xxh32 (moduleHeaders s) 0) }
      (storagePath szPath (xxh32 (moduleHeaders s) 0))
    exact ⟨appConfig, _, _, files, h⟩

theorem init_mem (s : Loader b) (env : InitEnv) : (init s env).mem = s.mem := by
  obtain ⟨appConfig, appUid, appStoragePath, files, hstore⟩ :=
    initStore_eq { s with isInit := true } env
  unfold init
  split
  · rfl
  · rw [hstore]
    rfl

theorem StoreHolds.congr (h : StoreHolds Q path s) {s' : Loader b} (hfiles : s'.files = s.files)
    (hinit : s'.isInit = s.isInit) (hpath : s'.appStoragePath = s.appStoragePath)
    (hconfig : s'.appConfig = s.appConfig) : StoreHolds Q path s' := by
  refine ⟨?_, ?_, ?_⟩
  · rw [hfiles]
    exact h.file
  · rw [hinit, hpath]
    exact h.early
  · rw [hinit, hpath, hconfig]
    exact h.late

/-- **A save.** -/
theorem StoreHolds.save (h : StoreHolds Q path s) {env : SaveEnv}
    (hsafe : SafeSave Q env s.appConfig) : StoreHolds Q path (save s env).2 := by
  cases hinit : s.isInit with
  | false => rwa [save_noPath (h.early hinit)]
  | true =>
    obtain ⟨hpath, hholds⟩ := h.late hinit
    unfold CommonLoader.save saveTo
    split
    · rename_i hbegun
      dsimp only
      split
      · -- written: the text of options that have the property
        rename_i hdone
        refine ⟨fun text htext => ?_, h.early, h.late⟩
        dsimp only at htext
        rw [hpath, Function.update_self] at htext
        obtain rfl := Option.some.inj htext
        exact hholds.saved hdone.2
      · -- the file was emptied and not written
        rename_i hstopped
        refine ⟨fun text htext => ?_, h.early, h.late⟩
        dsimp only at htext
        rw [hpath, Function.update_self] at htext
        obtain rfl := Option.some.inj htext
        exact textHolds_nil ((hsafe hbegun.1).resolve_left hstopped)
    · exact h

/-- **A commit**, if its option keeps the property. -/
theorem StoreHolds.commit (h : StoreHolds Q path s) {key : SignatureKey} {v : Addr b} {env : SaveEnv}
    (hset : ∀ config : Config, Q config.get →
      Q (config.set scannerSection key.text (offsetText s.moduleInfo v)).get)
    (hsafe : SafeSave Q env
      (s.appConfig.set scannerSection key.text (offsetText s.moduleInfo v))) :
    StoreHolds Q path (commitSignatureCache s key v env) := by
  have hoption : StoreHolds Q path (setOption { s with
      sigLookupCache := s.sigLookupCache.insert key v } scannerSection key.text
        (offsetText s.moduleInfo v)) := by
    refine ⟨h.file, h.early, fun hinit => ?_⟩
    obtain ⟨hpath, hholds⟩ := h.late hinit
    refine ⟨hpath, hholds.storable.set storableName_scannerSection (storableKey_text key)
      (storableValue_printHex _), hset _ hholds.options⟩
  rw [commitSignatureCache_eq]
  exact hoption.save hsafe

/-- **A scan.** -/
theorem StoreHolds.scan (h : StoreHolds Q path s) {c : ScanCall b}
    (hset : c.answer s = none → ∀ config : Config, Q config.get →
      Q (config.set scannerSection c.key.text (offsetText s.moduleInfo (scan s c).address)).get)
    (hsafe : SafeSave Q c.save (CommonLoader.scan s c).loader.appConfig) :
    StoreHolds Q path (CommonLoader.scan s c).loader := by
  rcases scan_loader s c with ⟨-, hl⟩ | ⟨hmiss, states, hl⟩
  · rwa [hl]
  · rw [hl] at hsafe ⊢
    rw [(commitSignatureCache_store _ _ _ _).2.2.1] at hsafe
    have hreported : StoreHolds Q path { s with states } := h.congr rfl rfl rfl rfl
    exact hreported.commit (hset hmiss) hsafe

/-- The options of a process that made its own. -/
def namedConfig (fileName : WStr) : Config :=
  Config.set ∅ defaultSection (ascii "Name") (narrow fileName)

/--
**An initialisation.** It reads the file, or it makes one with the name in it, of which
the property then has to hold.
-/
theorem StoreHolds.init (h : StoreHolds Q path s) {env : InitEnv} {szPath : WStr}
    (hsz : env.szPath = some szPath) (hpath : storePathOf s szPath = path)
    (hload : (s.files path ≠ none ∧ env.load.opened = true ∧ env.load.read = true)
      ∨ ((namedConfig env.fileName).Holds Q ∧ SafeSave Q env.save (namedConfig env.fileName))) :
    StoreHolds Q path (init s env) := by
  cases hinit : s.isInit with
  | true =>
    unfold CommonLoader.init
    rwa [if_pos hinit]
  | false =>
    have hstart : (beforeLoad s szPath).files = s.files := rfl
    rw [init_eq hinit hsz, hpath]
    -- the walk over the section of the scanner leaves the store alone
    refine StoreHolds.congr (s := ite _ _ _) ?_ rfl rfl rfl rfl
    -- it reads the file, or it fails in any of three ways and makes one
    by_cases hgood : s.files path ≠ none ∧ env.load.opened = true ∧ env.load.read = true
    · obtain ⟨hfile, hopen, hread⟩ := hgood
      obtain ⟨text, htext⟩ := Option.ne_none_iff_exists'.mp hfile
      have hholds := h.file text htext
      rw [loadFrom_text hopen hread hholds.fits (hstart ▸ htext), if_pos hholds.accepted]
      dsimp only
      rw [if_pos rfl]
      exact ⟨h.file, fun hfalse => (nomatch hfalse), fun _ => ⟨hpath, hholds.loads⟩⟩
    · obtain ⟨hnamed, hsafe⟩ := hload.resolve_left hgood
      have hfail : loadFrom (beforeLoad s szPath) path false env.load
          = (false, { beforeLoad s szPath with appConfig := ∅ }) := by
        by_cases hfile : s.files path = none
        · exact loadFrom_missing (hstart ▸ hfile) env.load
        · obtain ⟨text, htext⟩ := Option.ne_none_iff_exists'.mp hfile
          unfold loadFrom
          dsimp only
          rw [if_neg Bool.false_ne_true]
          by_cases hopen : env.load.opened = true
          · have hread : ¬ env.load.read = true := fun hread => hgood ⟨hfile, hopen, hread⟩
            rw [if_pos hopen, show ({ beforeLoad s szPath with appConfig := ∅ } : Loader b).files path
              = some text from htext]
            dsimp only
            rw [if_neg fun hr => hread hr.1]
          · rw [if_neg hopen]
      rw [hfail]
      dsimp only
      rw [if_neg Bool.false_ne_true]
      refine StoreHolds.save ?_ hsafe
      exact ⟨h.file, fun hfalse => (nomatch hfalse), fun _ => ⟨hpath, hnamed⟩⟩

/-- **A restart** keeps the file. -/
theorem StoreHolds.restart (h : StoreHolds Q path s) (moduleInfo : ModuleInfo b) (mem : Mem b.bits)
    (prot : Nat → BitVec 32) : StoreHolds Q path (Loader.start moduleInfo mem prot s.files) :=
  ⟨h.file, fun _ => rfl, fun hinit => (nomatch hinit)⟩

end CommonLoader
