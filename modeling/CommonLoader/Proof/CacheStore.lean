import CommonLoader.Proof.CacheRuns
import CommonLoader.Proof.Persist

/-!
# The cache and the store in one process

A commit writes a result twice: into the cache, and into the options, from where it
is saved. `Init` throws the options away and reads them from the file, and keeps the
cache. What was committed before `Init` is then in the cache only.
-/

namespace CommonLoader

open ByteMemory CText LastWins

variable {b : Build} {s : Loader b}

/-- Scans one after the other. -/
def scanAll (s : Loader b) (cs : List (ScanCall b)) : Loader b :=
  cs.foldl (fun s c => (scan s c).loader) s

/-- What the scans commit: the result of each that the cache has no answer for. -/
def commitsOf (s : Loader b) : List (ScanCall b) → List (SignatureKey × Addr b)
  | [] => []
  | c :: cs =>
      (if c.answer s = none then [(c.key, (scan s c).address)] else [])
        ++ commitsOf (scan s c).loader cs

/-! ## What a scan does to the options -/

theorem scan_moduleInfo (s : Loader b) (c : ScanCall b) :
    (scan s c).loader.moduleInfo = s.moduleInfo := by
  rcases scan_loader s c with ⟨_, hl⟩ | ⟨_, _, hl⟩
  · rw [hl]
  · rw [hl, (commitSignatureCache_store ..).1]

/-- **One scan**: a commit is the last word on its key. -/
theorem scan_get (s : Loader b) (c : ScanCall b) (k : Bytes) :
    (scan s c).loader.appConfig.get scannerSection k
      = (last k ((commitsOf s [c]).map (storedEntry s.moduleInfo))).or
          (s.appConfig.get scannerSection k) := by
  rcases scan_loader s c with ⟨ha, hl⟩ | ⟨ha, states, hl⟩
  · rw [hl, commitsOf, if_neg ha]
    rfl
  · rw [hl, (commitSignatureCache_store ..).2.2.1, Config.get_set, commitsOf, if_pos ha]
    change _ = ((none : Option Bytes).or (if c.key.text = k then _ else none)).or _
    rw [Option.none_or]
    split <;> rfl

/-- **Any number of scans.** -/
theorem scanAll_get (k : Bytes) : ∀ (cs : List (ScanCall b)) (s : Loader b),
    (scanAll s cs).moduleInfo = s.moduleInfo
      ∧ (scanAll s cs).appConfig.get scannerSection k
        = (last k ((commitsOf s cs).map (storedEntry s.moduleInfo))).or
            (s.appConfig.get scannerSection k)
  | [], s => ⟨rfl, rfl⟩
  | c :: cs, s => by
      obtain ⟨hm, hget⟩ := scanAll_get k cs (scan s c).loader
      have happ : commitsOf s (c :: cs) = commitsOf s [c] ++ commitsOf (scan s c).loader cs := by
        rw [commitsOf, commitsOf, commitsOf, List.append_nil]
      refine ⟨hm.trans (scan_moduleInfo s c), ?_⟩
      rw [happ, List.map_append, last_append, Option.or_assoc, ← scan_get, ← scan_moduleInfo s c]
      exact hget

/-! ## Before `Init` -/

/-- The process has no store yet, and is the one that started, but for cache, options and flags. -/
structure NoStoreYet (s₀ s : Loader b) : Prop where
  moduleInfo : s.moduleInfo = s₀.moduleInfo
  mem : s.mem = s₀.mem
  files : s.files = s₀.files
  path : s.appStoragePath = []
  isInit : s.isInit = false

/-- Without a path nothing is saved. -/
theorem save_noPath (h : s.appStoragePath = []) (env : SaveEnv) : (save s env).2 = s := by
  unfold save saveTo
  rw [if_neg fun hc => hc.2 h]

theorem NoStoreYet.scan {s₀ : Loader b} (h : NoStoreYet s₀ s) (c : ScanCall b) :
    NoStoreYet s₀ (scan s c).loader := by
  rcases scan_loader s c with ⟨_, hl⟩ | ⟨_, states, hl⟩
  · rw [hl]
    exact h
  · rw [hl]
    rw [commitSignatureCache_eq, save_noPath (by exact h.path)]
    exact ⟨h.moduleInfo, h.mem, h.files, h.path, h.isInit⟩

theorem NoStoreYet.scanAll {s₀ : Loader b} : ∀ (cs : List (ScanCall b)) {s : Loader b},
    NoStoreYet s₀ s → NoStoreYet s₀ (scanAll s cs)
  | [], _, h => h
  | c :: cs, _, h => NoStoreYet.scanAll cs (h.scan c)

/-! ## `Init` -/

theorem loadFrom_moduleInfo (s : Loader b) (path : WStr) (append : Bool) (env : LoadEnv) :
    (loadFrom s path append env).2.moduleInfo = s.moduleInfo := by
  unfold loadFrom
  dsimp only
  cases append <;> split <;> try split
  all_goals rfl

theorem init_moduleInfo (s : Loader b) (env : InitEnv) : (init s env).moduleInfo = s.moduleInfo := by
  unfold init initStore
  split
  · rfl
  · cases env.szPath with
    | none => rfl
    | some szPath =>
      unfold initSigScanner
      dsimp only
      split
      · exact loadFrom_moduleInfo ..
      · exact (save_frame _ env.save).1.trans (loadFrom_moduleInfo ..)

theorem loadFrom_congr {s s' : Loader b} (h : s.files = s'.files) (path : WStr) (env : LoadEnv) :
    (loadFrom s path false env).1 = (loadFrom s' path false env).1
      ∧ (loadFrom s path false env).2.appConfig = (loadFrom s' path false env).2.appConfig := by
  unfold loadFrom
  dsimp only
  rw [if_neg Bool.false_ne_true, if_neg Bool.false_ne_true]
  dsimp only
  rw [h]
  split
  · exact ⟨rfl, rfl⟩
  · split <;> exact ⟨rfl, rfl⟩

/-- The options in the store file, or those that `Init` makes when it cannot be loaded. -/
def foundConfig (s : Loader b) (env : InitEnv) : Config :=
  match env.szPath with
  | none => ∅
  | some szPath =>
      let loaded := loadFrom s (storePathOf s szPath) false env.load
      if loaded.1 then loaded.2.appConfig
      else loaded.2.appConfig.set defaultSection (ascii "Name") (narrow env.fileName)

/-- **The options after `Init`** come from the file, whatever was scanned before. -/
theorem NoStoreYet.init_config {s₀ : Loader b} (h : NoStoreYet s₀ s) (env : InitEnv) :
    (init s env).appConfig = foundConfig s₀ env := by
  have hheaders : moduleHeaders s = moduleHeaders s₀ := by
    unfold moduleHeaders
    rw [h.moduleInfo, h.mem]
  unfold foundConfig
  cases hsz : env.szPath with
  | none =>
    unfold init initStore
    rw [h.isInit, hsz]
    rfl
  | some szPath =>
    have hpath : storePathOf s szPath = storePathOf s₀ szPath := by
      unfold storePathOf
      rw [hheaders]
    have hfiles : (beforeLoad s szPath).files = s₀.files := h.files
    obtain ⟨hload, hcfg⟩ := loadFrom_congr hfiles (storePathOf s₀ szPath) env.load
    rw [init_eq h.isInit hsz, hpath, hload]
    unfold initSigScanner
    dsimp only
    split
    · exact hcfg
    · rw [(save_frame _ env.save).2.2.1]
      unfold setOption
      dsimp only
      rw [hcfg]

/-! ## A process that scans before and after `Init` -/

/-- One process, from its start: scans, `Init`, and more scans. -/
structure InitRun (b : Build) where
  moduleInfo : ModuleInfo b
  mem : Mem b.bits
  prot : Nat → BitVec 32
  files : WStr → Option Bytes
  early : List (ScanCall b)
  env : InitEnv
  late : List (ScanCall b)

namespace InitRun

variable (r : InitRun b)

def start : Loader b := Loader.start r.moduleInfo r.mem r.prot r.files

def initialised : Loader b := init (scanAll r.start r.early) r.env

def final : Loader b := scanAll r.initialised r.late

/-- What the scans before `Init` commit, and those after it. -/
def earlyCommits : List (SignatureKey × Addr b) := commitsOf r.start r.early

def lateCommits : List (SignatureKey × Addr b) := commitsOf r.initialised r.late

/-- The last result of every key is among the options, where the next `Save` takes it from. -/
def InStep : Prop :=
  ∀ key a, last key (r.earlyCommits ++ r.lateCommits) = some a →
    getOption r.final scannerSection key.text = some (offsetText r.moduleInfo a)

theorem noStoreYet : NoStoreYet r.start (scanAll r.start r.early) :=
  NoStoreYet.scanAll r.early ⟨rfl, rfl, rfl, rfl, rfl⟩

/-- The text of a key leads to its last late commit, or else to what `Init` found. -/
theorem final_option (key : SignatureKey) :
    getOption r.final scannerSection key.text
      = ((last key r.lateCommits).map (offsetText r.moduleInfo)).or
          ((foundConfig r.start r.env).get scannerSection key.text) := by
  have hinfo : r.initialised.moduleInfo = r.moduleInfo :=
    (init_moduleInfo _ r.env).trans r.noStoreYet.moduleInfo
  have hcfg : r.initialised.appConfig = foundConfig r.start r.env :=
    r.noStoreYet.init_config r.env
  have hget := (scanAll_get key.text r.late r.initialised).2
  have hmap := last_map SignatureKey.text_injective (offsetText r.moduleInfo) key r.lateCommits
  rw [getOption_eq, ← hcfg, ← hmap]
  rw [hinfo] at hget
  exact hget

end InitRun

/--
**When cache and store stay in step**: when all that was committed before `Init`,
and not again after it, is already in the store that `Init` reads.
-/
theorem commits_in_step (r : InitRun b) :
    r.InStep ↔ ∀ key a, last key r.earlyCommits = some a → last key r.lateCommits = none →
      (foundConfig r.start r.env).get scannerSection key.text = some (offsetText r.moduleInfo a) := by
  unfold InitRun.InStep
  refine forall_congr' fun key => forall_congr' fun a => ?_
  rw [last_append, r.final_option]
  cases last key r.lateCommits with
  | none => simp
  | some a' =>
    simp only [Option.some_or, Option.map_some, Option.some_inj, reduceCtorEq, false_imp_iff,
      implies_true, iff_true]
    intro he
    rw [he]

/-- A letter is searched for once, either before or after `Init`; no store file exists. -/
def letterAround (early late : List (ScanCall .win32)) : InitRun .win32 where
  moduleInfo := oneLetter.moduleInfo
  mem := oneLetter.mem
  prot := oneLetter.prot
  files := oneLetter.files
  early
  env := ⟨some [], [0x61], .ok, .ok, .asIs⟩
  late

/-- **A result from before `Init`** stays in the cache, and is not among the options. -/
theorem early_commit_lost :
    ¬(letterAround [scanByte 0x41 0x401000 0x10] []).InStep
      ∧ ∃ key, (letterAround [scanByte 0x41 0x401000 0x10] []).final.sigLookupCache.lookup key
          = some 0x401008
        ∧ getOption (letterAround [scanByte 0x41 0x401000 0x10] []).final scannerSection
          key.text = none := by
  have hlost : getOption (letterAround [scanByte 0x41 0x401000 0x10] []).final scannerSection
      (scanByte 0x41 0x401000 0x10).key.text = none := by decide +kernel
  have hcommit : last (scanByte 0x41 0x401000 0x10).key
      ((letterAround [scanByte 0x41 0x401000 0x10] []).earlyCommits ++ []) = some 0x401008 := by
    decide +kernel
  refine ⟨?_, _, by decide +kernel, hlost⟩
  intro h
  have := h _ _ hcommit
  rw [hlost] at this
  cases this

end CommonLoader
