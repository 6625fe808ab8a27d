import CommonLoader.Proof.ScanReport
import CommonLoader.Proof.StoreRuns

/-!
# The options of the user

The store file is also where a user writes options for the mods. The loader reads it when
a process starts and writes it again with every signature it commits, in an order and
with a text of its own. What a mod is told about an option, in any later process, is all
the same what the file said first; the section of the scanner is the loader's alone.
-/

namespace CommonLoader

open ByteMemory CText Runs

variable {b : Build} {s : Loader b} {path szPath : WStr}

/-- Outside of the section of the scanner, these are the options of the user. -/
def SameOutside (user : Config) (get : Bytes → Bytes → Option Bytes) : Prop :=
  ∀ name, name ≠ scannerSection → ∀ key, get name key = user.get name key

/-- A save that goes through, or does not begin. -/
def WholeSave (env : SaveEnv) (config : Config) : Prop :=
  env.created = true → env.written = true ∧ (saveText env.order config).length + 1 < 2 ^ 31

theorem WholeSave.safe {env : SaveEnv} {config : Config} (h : WholeSave env config)
    (Q : (Bytes → Bytes → Option Bytes) → Prop) : SafeSave Q env config := fun hc => Or.inl (h hc)

/-- A history in which every file operation goes through. Any scans, writes and restarts. -/
def FilesWork (szPath path : WStr) (s : Loader b) : Event b → Prop
  | .init env => s.isInit = false → env.szPath = some szPath ∧ storePathOf s szPath = path
      ∧ env.load.opened = true ∧ env.load.read = true
  | .scan c => WholeSave c.save (scan s c).loader.appConfig
  | .saveOptions env => WholeSave env s.appConfig
  | _ => True

/-! ## No file goes away -/

theorem save_files (h : s.files path ≠ none) (env : SaveEnv) : (save s env).2.files path ≠ none := by
  have hupdate : ∀ path' text, Function.update s.files path' (some text) path ≠ none := by
    intro path' text
    by_cases hp : path = path'
    · rw [hp, Function.update_self]
      exact Option.some_ne_none text
    · rwa [Function.update_of_ne hp]
  unfold save saveTo
  split
  · dsimp only
    split
    · exact hupdate _ _
    · exact hupdate _ _
  · exact h

theorem scan_files (h : s.files path ≠ none) (c : ScanCall b) :
    (scan s c).loader.files path ≠ none := by
  rcases scan_loader s c with ⟨-, hl⟩ | ⟨-, states, hl⟩
  · rwa [hl]
  · rw [hl]
    exact save_files (by exact h) c.save

theorem init_files (h : s.files path ≠ none) (env : InitEnv) : (init s env).files path ≠ none := by
  have hstore : (initStore { s with isInit := true } env).files path ≠ none := by
    have hload : ∀ (s : Loader b) (path' : WStr), s.files path ≠ none →
        (if (loadFrom s path' false env.load).1 then (loadFrom s path' false env.load).2
        else (save (setOption (loadFrom s path' false env.load).2 defaultSection (ascii "Name")
          (narrow env.fileName)) env.save).2).files path ≠ none := by
      intro s path' h
      obtain ⟨appConfig, hload⟩ := loadFrom_eq s path' false env.load
      rw [hload]
      split
      · exact h
      · exact save_files (by exact h) env.save
    unfold initStore
    split
    · exact h
    · exact hload _ _ h
  unfold init
  split
  · exact h
  · exact hstore

/-! ## Every event keeps the options -/

/-- The store has the options of the user, and there is a file. -/
structure UserHolds (user : Config) (path : WStr) (s : Loader b) : Prop where
  store : StoreHolds (SameOutside user) path s
  file : s.files path ≠ none

theorem SameOutside.set {user config : Config} (h : SameOutside user config.get) (key value : Bytes) :
    SameOutside user (config.set scannerSection key value).get := by
  intro name hname k
  rw [Config.get_set_ne _ _ _ _ hname]
  exact h name hname k

/-- **Preserved by every event.** -/
theorem userHolds_step {user : Config} (s : Loader b) (e : Event b)
    (he : FilesWork szPath path s e) (h : UserHolds user path s) : UserHolds user path (step s e) := by
  cases e with
  | init env =>
    refine ⟨?_, init_files h.file env⟩
    cases hinit : s.isInit with
    | true =>
      rw [step, init, if_pos hinit]
      exact h.store
    | false =>
      obtain ⟨hsz, hpath, hopen, hread⟩ := he hinit
      -- the file is there and can be read, so none is made in its place
      exact h.store.init hsz hpath (Or.inl ⟨h.file, hopen, hread⟩)
  | scan c =>
    exact ⟨h.store.scan (fun _ _ hconfig => hconfig.set _ _) (he.safe _), scan_files h.file c⟩
  | setState state value =>
    obtain ⟨states, hst⟩ := setState_eq (s := s) state value
    rw [step, hst]
    exact ⟨h.store.congr rfl rfl rfl rfl, h.file⟩
  | setStateFlag state flag set =>
    obtain ⟨states, hst⟩ := setStateFlag_eq s state flag set
    rw [step, hst]
    exact ⟨h.store.congr rfl rfl rfl rfl, h.file⟩
  | writeMemory address data => exact ⟨h.store.congr rfl rfl rfl rfl, h.file⟩
  | saveOptions env => exact ⟨h.store.save (he.safe _), save_files h.file env⟩
  | restart moduleInfo mem prot => exact ⟨h.store.restart moduleInfo mem prot, h.file⟩

/-! ## What a mod is told -/

/-- What a caller gets for an option that is set, and for one that is not. -/
def ToldOption (s : Loader b) (sectionName : Option Bytes) (key : Bytes) : Option Bytes → Prop
  | some value => ∀ out outSize,
      (getApplicationOptionExImpl s sectionName key out outSize).1 = BitVec.ofNat 32 value.length
        ∧ (out ≠ 0 → value.length ≤ outSize.toNat →
          load (getApplicationOptionExImpl s sectionName key out outSize).2.mem out value.length
            = value)
  | none => ∀ out outSize, getApplicationOptionExImpl s sectionName key out outSize = (-1, s)

/-- **The size first and then the value**, of whatever is in the map. -/
theorem toldOption (s : Loader b) (sectionName : Option Bytes) (key : Bytes) :
    ToldOption s sectionName key
      (s.appConfig.get (cstr (sectionName.getD defaultSection)) (cstr key)) := by
  have hget := getOption_eq s (cstr (sectionName.getD defaultSection)) (cstr key)
  cases hvalue : s.appConfig.get (cstr (sectionName.getD defaultSection)) (cstr key) with
  | none =>
    intro out outSize
    unfold getApplicationOptionExImpl
    rw [hget, hvalue]
  | some value =>
    intro out outSize
    unfold getApplicationOptionExImpl
    rw [hget, hvalue]
    dsimp only
    refine ⟨by split <;> rfl, fun hout hroom => ?_⟩
    rw [if_neg hout, Nat.min_eq_left hroom, List.take_length]
    exact load_store (Nat.le_of_lt (Nat.lt_of_le_of_lt hroom outSize.isLt))

/--
**The options of the user stay.** However often the loader has saved and restarted since,
an initialised process tells a mod of every option outside of the scanner's section what
the file of the user said.
-/
theorem user_options_kept {moduleInfo : ModuleInfo b} {mem : Mem b.bits} {prot : Nat → BitVec 32}
    {files : WStr → Option Bytes} {text : Bytes} (hfile : files path = some text)
    (hfits : text.length < 2 ^ 31) (haccepted : checkDataASCII text = true)
    (hstorable : (configOfIni (iniLoad text) ∅).Storable) {es : List (Event b)}
    (hes : Along step (FilesWork szPath path) (Loader.start moduleInfo mem prot files) es)
    (hinit : (run (Loader.start moduleInfo mem prot files) es).isInit = true)
    {sectionName : Option Bytes} (hname : cstr (sectionName.getD defaultSection) ≠ scannerSection)
    (key : Bytes) :
    ToldOption (run (Loader.start moduleInfo mem prot files) es) sectionName key
      ((configOfIni (iniLoad text) ∅).get (cstr (sectionName.getD defaultSection)) (cstr key)) := by
  -- before the initialisation the options are those of the file
  have hstart : UserHolds (configOfIni (iniLoad text) ∅) path
      (Loader.start moduleInfo mem prot files) := by
    refine ⟨⟨fun text' htext => ?_, fun _ => rfl, fun hinit => (nomatch hinit)⟩, ?_⟩
    · obtain rfl := Option.some.inj (hfile.symm.trans htext)
      exact ⟨hfits, haccepted, hstorable, fun _ _ _ => rfl⟩
    · exact fun hnone => Option.some_ne_none text (hfile.symm.trans hnone)
  have hend : UserHolds _ path (run _ es) := (invariant userHolds_step hes hstart).1
  have hsame := (hend.store.late hinit).2.options _ hname (cstr key)
  have htold := toldOption (run (Loader.start moduleInfo mem prot files) es) sectionName key
  rwa [hsame] at htold

/-- A file with an option in it. -/
def userText : Bytes := ascii "[User]\nKey=1\n"

/-- The path of its store, in a process of one letter. -/
def userPath : WStr := storePathOf oneLetter ((ascii "C:").map UInt8.toUInt16)

def userFiles : WStr → Option Bytes := fun path => if path = userPath then some userText else none

/-- A process that commits a signature, and the next one. -/
def commitAndRestart : List (Event .win32) :=
  [.init initOk, .scan (scanByte 0x41 0x401000 0x10),
    .restart ⟨0x400000, 0x2000⟩ oneLetter.mem oneLetter.prot, .init initOk]

theorem user_options_kept_key :
    ToldOption (run (Loader.start ⟨0x400000, 0x2000⟩ oneLetter.mem oneLetter.prot userFiles)
        commitAndRestart) (some (ascii "User")) (ascii "Key")
      ((configOfIni (iniLoad userText) ∅).get (cstr (ascii "User")) (cstr (ascii "Key"))) := by
  have hes : Along step (FilesWork ((ascii "C:").map UInt8.toUInt16) userPath)
      (Loader.start ⟨0x400000, 0x2000⟩ oneLetter.mem oneLetter.prot userFiles) commitAndRestart := by
    refine ⟨fun _ => ⟨rfl, by decide +kernel, rfl, rfl⟩, fun _ => ⟨rfl, by decide +kernel⟩, trivial,
      fun _ => ⟨rfl, by decide +kernel, rfl, rfl⟩, trivial⟩
  exact user_options_kept (if_pos rfl) (by decide +kernel) (by decide +kernel)
    (by unfold Config.Storable; decide +kernel) hes (by decide +kernel) (by decide +kernel) (ascii "Key")

end CommonLoader
