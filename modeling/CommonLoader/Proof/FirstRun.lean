import CommonLoader.Proof.Persist
import CommonLoader.Proof.Resave

/-!
# The first run and the second

The first run of an executable finds no store and makes one, with the file name in it,
one byte for each UTF-16 unit. The second run finds that store. Commits in between put
nothing but storable text into it, so all depends on the name: the check for corruption
turns the whole store away when a byte of the name is not text, and the reader trims
what is left.
-/

namespace CommonLoader

open CText LastWins

variable {b : Build}

/-! ## Names that are read as they were written -/

/-- Text without line breaks, and no blanks around it. -/
structure StoredName (name : Bytes) : Prop where
  chars : ∀ c ∈ name, printable c = true ∨ c = 0x0D
  head : ∀ c ∈ name.head?, c ≠ 0x20 ∧ c ≠ 0x0D
  last : ∀ c ∈ name.getLast?, c ≠ 0x20 ∧ c ≠ 0x0D

/-- What is trimmed has no blanks at its ends. -/
theorem ends_of_tidyValue {value : Bytes} (h : tidyValue value = value) :
    (∀ c ∈ value.head?, leSpace c = false) ∧ ∀ c ∈ value.getLast?, leSpace c = false := by
  have hprefix : tidyValue value <+: value.dropWhile leSpace := List.rdropWhile_prefix ..
  rw [h] at hprefix
  have hdrop : value.dropWhile leSpace = value :=
    (List.dropWhile_suffix _).eq_of_length
      (Nat.le_antisymm (List.dropWhile_suffix _).length_le hprefix.length_le)
  refine ⟨fun c hc => ?_, fun c hc => ?_⟩
  · obtain ⟨l, hl⟩ := List.head?_eq_some_iff.mp hc
    rw [hl] at hdrop
    exact head_dropWhile hdrop
  · unfold tidyValue at h
    rw [hdrop] at h
    have hne : value ≠ [] := by
      rintro rfl
      cases hc
    have hlast := List.rdropWhile_eq_self_iff.mp h hne
    rw [List.getLast?_eq_some_getLast hne] at hc
    obtain rfl := Option.some.inj hc
    exact Bool.eq_false_iff.mpr hlast

theorem storedName_iff {name : Bytes} :
    StoredName name ↔ LegibleValue name ∧ tidyValue name = name := by
  have hblank : LegibleValue name → ∀ c ∈ name,
      (leSpace c = false ↔ c ≠ 0x20 ∧ c ≠ 0x0D) := by
    intro h c hc
    rw [← Bool.not_eq_true, (readable_plain (h c hc)).2.2, not_or]
  refine ⟨fun h => ?_, fun ⟨hlegible, htidy⟩ => ?_⟩
  · have hlegible : LegibleValue name := fun c hc => readable_iff.mpr (h.chars c hc)
    refine ⟨hlegible, tidyValue_eq_self (fun c hc => ?_) fun c hc => ?_⟩
    · exact (hblank hlegible c (List.mem_of_mem_head? hc)).mpr (h.head c hc)
    · exact (hblank hlegible c (List.mem_of_getLast? hc)).mpr (h.last c hc)
  · obtain ⟨hhead, hlast⟩ := ends_of_tidyValue htidy
    refine ⟨fun c hc => readable_iff.mp (hlegible c hc), fun c hc => ?_, fun c hc => ?_⟩
    · exact (hblank hlegible c (List.mem_of_mem_head? hc)).mp (hhead c hc)
    · exact (hblank hlegible c (List.mem_of_getLast? hc)).mp (hlast c hc)

/-! ## Two runs -/

/-- The first run, which finds no store, and the next one. Nothing is in the way of either. -/
structure FirstRun (b : Build) where
  start : Loader b
  firstInit : InitEnv
  szPath : WStr
  commits : List (Commit b)
  next : Loader b
  nextInit : InitEnv
  starts : start.isInit = false
  noStore : start.files (storePathOf start szPath) = none
  firstPath : firstInit.szPath = some szPath
  created : (lastSave firstInit.save commits).created = true
  written : (lastSave firstInit.save commits).written = true
  fits : (saveText (lastSave firstInit.save commits).order
    (commitAll (init start firstInit) commits).appConfig).length + 1 < 2 ^ 31
  restarts : next.isInit = false
  sameFiles : next.files = (commitAll (init start firstInit) commits).files
  sameExecutable : moduleHeaders next = moduleHeaders start
  nextPath : nextInit.szPath = some szPath
  opened : nextInit.load.opened = true
  read : nextInit.load.read = true

namespace FirstRun

/-- The end of the first run. -/
def committed (r : FirstRun b) : Loader b := commitAll (init r.start r.firstInit) r.commits

/-- The load of the second. -/
def load (r : FirstRun b) : Bool × Loader b :=
  loadFrom (beforeLoad r.next r.szPath) (storePathOf r.next r.szPath) false r.nextInit.load

/-- The second run, after its initialisation. -/
def restarted (r : FirstRun b) : Loader b := init r.next r.nextInit

/-- The second run has what the first one stored. -/
structure Kept (r : FirstRun b) : Prop where
  loaded : r.load.1 = true
  name : getOption r.restarted defaultSection (ascii "Name") = some (narrow r.firstInit.fileName)
  entries : ∀ key a, last key (committedResults r.commits) = some a →
    getOption r.restarted scannerSection key.text = some (offsetText r.start.moduleInfo a)

theorem namedStore (r : FirstRun b) :
    NamedStore r.start.moduleInfo (storePathOf r.start r.szPath) (narrow r.firstInit.fileName)
      (lastSave r.firstInit.save r.commits) (committedResults r.commits) r.committed := by
  have hinit := namedStore_init r.starts r.firstPath r.noStore
  have := hinit.commitAll (storagePath_ne_nil _ _) r.commits
  rwa [List.nil_append] at this

/-- What was loaded is the store of the second run. -/
theorem restarted_appConfig {r : FirstRun b} (h : r.load.1 = true) :
    r.restarted.appConfig = r.load.2.appConfig := by
  have hcondition : (loadFrom (beforeLoad r.next r.szPath) (storePathOf r.next r.szPath) false
    r.nextInit.load).1 = true := h
  unfold restarted load
  rw [init_eq r.restarts r.nextPath, if_pos hcondition]
  rfl

theorem Kept.storedName {r : FirstRun b} (h : r.Kept) : StoredName (narrow r.firstInit.fileName) := by
  have hname := h.name
  rw [getOption_eq, restarted_appConfig h.loaded] at hname
  obtain ⟨options, hsec, hp⟩ := Config.get_eq_some.mp hname
  obtain ⟨data, hload⟩ := loadFrom_loadedFrom h.loaded
  obtain ⟨_, hlegible, htrim⟩ := hload.options _ hsec _ hp
  refine storedName_iff.mpr ⟨hlegible, htrim.elim id ?_⟩
  -- a line that is its own value would be the key
  rintro ⟨heq, _⟩
  rw [show narrow r.firstInit.fileName = ascii "Name" from heq]
  decide +kernel

/-- **The second run** reads the whole store. -/
theorem load_eq {r : FirstRun b} (hname : StoredName (narrow r.firstInit.fileName)) :
    r.load.1 = true ∧ ∀ name key,
      r.load.2.appConfig.get name key = r.committed.appConfig.get name key := by
  have h := r.namedStore
  obtain ⟨hlegible, hseparate, htidy⟩ := h.legible (storedName_iff.mp hname).1
    (storedName_iff.mp hname).2
  have hpath : storePathOf r.next r.szPath = r.committed.appStoragePath :=
    (storePathOf_congr r.sameExecutable r.szPath).trans h.path.symm
  have hfile : (beforeLoad r.next r.szPath).files r.committed.appStoragePath
      = some (saveText (lastSave r.firstInit.save r.commits).order r.committed.appConfig) := by
    have hstored := h.stored r.created r.written r.fits
    change r.next.files _ = _
    rw [r.sameFiles]
    exact hstored
  have hfits : (saveText (lastSave r.firstInit.save r.commits).order
      r.committed.appConfig).length + 1 < 2 ^ 31 := r.fits
  unfold load
  rw [hpath, loadFrom_saved r.opened r.read hlegible (by omega) hfile]
  exact ⟨rfl, fun name key => reloaded_get hlegible hseparate htidy _ name key⟩

end FirstRun

/--
**The store of the first run is read by the second** if the name is text, and only
then: a byte of it that is not loses all of the store.
-/
theorem first_run_kept (r : FirstRun b) :
    r.Kept ↔ StoredName (narrow r.firstInit.fileName) := by
  refine ⟨fun h => h.storedName, fun hname => ?_⟩
  obtain ⟨hloaded, hget⟩ := r.load_eq hname
  refine ⟨hloaded, ?_, fun key a hlast => ?_⟩
  · rw [getOption_eq, FirstRun.restarted_appConfig hloaded, hget]
    exact r.namedStore.named
  · rw [getOption_eq, FirstRun.restarted_appConfig hloaded, hget, r.namedStore.options]
    exact (last_map SignatureKey.text_injective (offsetText r.start.moduleInfo) key _).trans
      (congrArg (Option.map _) hlast)

/-- A process at `0x400000` over an empty disk. -/
def emptyDisk : Loader .win32 :=
  Loader.start ⟨BitVec.ofNat _ 0x400000, 0⟩ (fun _ => 0) (fun _ => 0) fun _ => none

def oneCommit : Commit .win32 := ⟨⟨1, 2⟩, BitVec.ofNat _ 0x401000, .ok⟩

/-- The process commits one result, and the next one starts at `0x500000`. -/
def runNamed (fileName : WStr)
    (hfits : (saveText SaveEnv.ok.order
      (commitAll (init emptyDisk ⟨some [], fileName, .ok, .ok, .asIs⟩) [oneCommit]).appConfig).length
        + 1 < 2 ^ 31) : FirstRun .win32 where
  start := emptyDisk
  firstInit := ⟨some [], fileName, .ok, .ok, .asIs⟩
  szPath := []
  commits := [oneCommit]
  next := Loader.start ⟨BitVec.ofNat _ 0x500000, 0⟩ (fun _ => 0) (fun _ => 0)
    (commitAll (init emptyDisk ⟨some [], fileName, .ok, .ok, .asIs⟩) [oneCommit]).files
  nextInit := ⟨some [], fileName, .ok, .ok, .asIs⟩
  starts := rfl
  noStore := rfl
  firstPath := rfl
  created := rfl
  written := rfl
  fits := hfits
  restarts := rfl
  sameFiles := by dsimp only [Loader.start]
  sameExecutable := rfl
  nextPath := rfl
  opened := rfl
  read := rfl

/-- `a.exe`. -/
theorem first_run_kept_plain :
    (runNamed ((ascii "a.exe").map UInt8.toUInt16) (by decide +kernel)).Kept :=
  (first_run_kept _).mpr ⟨by decide +kernel, by decide +kernel, by decide +kernel⟩

/-- `é.exe`: the store is not text. -/
theorem first_run_lost :
    ¬(runNamed (0xE9 :: (ascii ".exe").map UInt8.toUInt16) (by decide +kernel)).Kept := by
  intro h
  exact absurd (h.storedName.chars 0xE9 (List.mem_cons_self ..)) (by decide)

end CommonLoader
