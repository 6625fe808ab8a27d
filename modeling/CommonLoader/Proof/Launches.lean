import CommonLoader.Proof.ScanReport
import CommonLoader.Proof.StoreRuns

/-!
# The scanner over many processes

The cache, the section of the scanner in the store and the file say of a signature where
it is in the executable, as an offset from the base or as none. For an executable that has
each signature at one offset, wherever it is loaded, none of the three is ever wrong: not
after any number of restarts at other bases, not when saves fail or stop half way, and not
when the file cannot be read. A scan of the module then returns what a search of the module
returns, in every process.
-/

namespace CommonLoader

open ByteMemory CText FirstMatch Runs

variable {b : Build} {s : Loader b}

/-- A signature that is looked for in the module. -/
structure Signature (b : Build) where
  pattern : Buf
  mask : Buf
  patternLength : SizeT b

namespace Signature

variable (q : Signature b)

def key : SignatureKey := makePatternHash q.pattern q.mask q.patternLength

/-- The scan of the module for it. -/
def callIn (moduleInfo : ModuleInfo b) (save : SaveEnv) : ScanCall b :=
  ⟨q.pattern, q.mask, q.patternLength, moduleInfo.base, moduleInfo.size.setWidth _, save⟩

/-- It is in the module, so many bytes behind the base. -/
def In (s : Loader b) : Nat → Prop :=
  MatchFrom s.mem q.pattern q.mask q.patternLength.toNat s.moduleInfo.base

instance (s : Loader b) : DecidablePred (q.In s) :=
  fun i => inferInstanceAs (Decidable (MatchFrom _ _ _ _ _ i))

end Signature

/-- An executable: its signatures, and the offset at which each of them comes first. -/
structure Image (b : Build) where
  sigs : List (Signature b)
  home : Signature b → Option Nat
  nonempty : ∀ q ∈ sigs, q.patternLength ≠ 0
  -- the size of a module has 32 bits, and it begins with its headers
  inside : ∀ q ∈ sigs, ∀ o, home q = some o → 0 < o ∧ o < 2 ^ 32
  noCollision : ∀ q ∈ sigs, ∀ q' ∈ sigs, q.key = q'.key →
    (q.pattern.take q.patternLength.toNat, q.mask.take q.patternLength.toNat)
      = (q'.pattern.take q'.patternLength.toNat, q'.mask.take q'.patternLength.toNat)

namespace Image

variable (img : Image b)

/-- The address of a signature in a module, or null. -/
def place (moduleInfo : ModuleInfo b) (q : Signature b) : Addr b :=
  match img.home q with
  | some o => moduleInfo.base + BitVec.ofNat _ o
  | none => 0

/-- What the store says of it. -/
def offset (q : Signature b) : Bytes := printHex ((img.home q).getD 0)

/-- The executable is loaded, and has its signatures where they should be. -/
structure LoadedIn (s : Loader b) : Prop where
  base : s.moduleInfo.base ≠ 0
  noWrap : s.moduleInfo.base.toNat + s.moduleInfo.size.toNat ≤ 2 ^ b.bits
  found : ∀ q ∈ img.sigs, ∀ o, img.home q = some o →
    IsFirst (q.In s) s.moduleInfo.size.toNat o
  missing : ∀ q ∈ img.sigs, img.home q = none → NoneBelow (q.In s) s.moduleInfo.size.toNat

/-- Every entry of the cache is the place of a signature. -/
def CacheHolds (s : Loader b) : Prop :=
  ∀ key v, s.sigLookupCache.lookup key = some v →
    ∃ q ∈ img.sigs, q.key = key ∧ v = img.place s.moduleInfo q

/-- Every option of the scanner is the offset of a signature. -/
def OptionsHold (get : Bytes → Bytes → Option Bytes) : Prop :=
  ∀ k v, get scannerSection k = some v →
    ∃ q ∈ img.sigs, k = q.key.text ∧ v = img.offset q

variable {img}

/-! ## Where a signature is -/

theorem size_toNat (moduleInfo : ModuleInfo b) :
    (moduleInfo.size.setWidth b.bits).toNat = moduleInfo.size.toNat := by
  have := moduleInfo.size.isLt
  have := b.pow_bits
  rw [BitVec.toNat_setWidth, Nat.mod_eq_of_lt (by omega)]

/-- **The place is the result of a search.** -/
theorem LoadedIn.isResult (h : img.LoadedIn s) {q : Signature b} (hq : q ∈ img.sigs) (save : SaveEnv) :
    (q.callIn s.moduleInfo save).IsResult s.mem (img.place s.moduleInfo q) := by
  have hfound := h.found q hq
  have hmissing := h.missing q hq
  unfold ScanCall.IsResult IsLeftmost Signature.callIn place
  dsimp only
  rw [size_toNat]
  cases hhome : img.home q with
  | some o => exact Or.inl ⟨o, hfound o hhome, rfl⟩
  | none => exact Or.inr ⟨hmissing hhome, rfl⟩

/-- In a module that is loaded the offset of the place is the offset of the signature. -/
theorem LoadedIn.offsetText (h : img.LoadedIn s) {q : Signature b} (hq : q ∈ img.sigs) :
    offsetText s.moduleInfo (img.place s.moduleInfo q) = img.offset q := by
  have hfound := h.found q hq
  unfold CommonLoader.offsetText addressUnBased place offset
  -- null has the offset zero, which is the offset of no signature
  cases hhome : img.home q with
  | none => rfl
  | some o =>
    have hlt := (hfound o hhome).1
    have hwrap := h.noWrap
    have hpos : s.moduleInfo.base.toNat ≠ 0 := fun hz => h.base (BitVec.eq_of_toNat_eq hz)
    dsimp only
    rw [if_neg (range_ne_zero h.base hwrap hlt).2, toNat_add_sub (by omega)]
    rfl

/-- The number of an offset is moved to the base; zero is null. -/
theorem rebase_ofNat (moduleInfo : ModuleInfo b) {o : Nat} (ho : o < 2 ^ b.bits) :
    rebase moduleInfo (BitVec.ofNat 64 o)
      = if o = 0 then 0 else moduleInfo.base + BitVec.ofNat _ o := by
  have h0 : (BitVec.ofNat b.bits o = 0) ↔ o = 0 := by
    refine ⟨fun h => ?_, fun h => by rw [h]; rfl⟩
    have := congrArg BitVec.toNat h
    rwa [BitVec.toNat_ofNat, Nat.mod_eq_of_lt ho] at this
  have hback := rebase_offset ⟨0, 0⟩ moduleInfo (BitVec.ofNat b.bits o)
  have hunbased : addressUnBased ⟨0, 0⟩ (BitVec.ofNat b.bits o) = BitVec.ofNat b.bits o := by
    unfold addressUnBased
    split
    · rename_i hz
      exact hz.symm
    · exact BitVec.sub_zero _
  rw [rebuiltAddress, hunbased, BitVec.toNat_ofNat, Nat.mod_eq_of_lt ho] at hback
  rw [hback, BitVec.add_comm moduleInfo.base]
  exact if_congr h0 rfl rfl

/-- A key and a number, as texts. -/
theorem initSigScannerStep_printHex (moduleInfo : ModuleInfo b)
    (cache : UnorderedMap SignatureKey (Addr b)) (key : SignatureKey) {n : Nat} (hn : n < 2 ^ 64) :
    initSigScannerStep moduleInfo cache ⟨key.text, printHex n⟩
      = cache.insert key (rebase moduleInfo (BitVec.ofNat 64 n)) := by
  have hnumber := scanHex_printHex hn endsHex_nil
  rw [List.append_nil] at hnumber
  unfold initSigScannerStep
  simp only [parseString_text, hnumber]

/-- **An option of the scanner becomes a place** in the module of the next process. -/
theorem initSigScannerStep_offset (moduleInfo : ModuleInfo b) {q : Signature b} (hq : q ∈ img.sigs)
    (cache : UnorderedMap SignatureKey (Addr b)) :
    initSigScannerStep moduleInfo cache ⟨q.key.text, img.offset q⟩
      = cache.insert q.key (img.place moduleInfo q) := by
  have hnumber : (img.home q).getD 0 < 2 ^ b.bits := by
    cases hhome : img.home q with
    | none => exact Nat.two_pow_pos _
    | some o => exact Nat.lt_of_lt_of_le (img.inside q hq o hhome).2 b.pow_bits
  have hlt64 : (img.home q).getD 0 < 2 ^ 64 :=
    Nat.lt_of_lt_of_le hnumber (Nat.pow_le_pow_right (by decide) b.bits_le)
  have hplace : rebase moduleInfo (BitVec.ofNat 64 ((img.home q).getD 0)) = img.place moduleInfo q := by
    rw [rebase_ofNat moduleInfo hnumber]
    unfold place
    cases hhome : img.home q with
    | none => exact if_pos rfl
    | some o => exact if_neg (Nat.pos_iff_ne_zero.mp (img.inside q hq o hhome).1)
  unfold offset
  rw [initSigScannerStep_printHex moduleInfo cache q.key hlt64, hplace]

/-! ## What happens to a process -/

variable (img) in
/--
What a history may consist of: scans of the module for the signatures, while it is loaded
as it should be, and initialisations that find the same path. All else is free: writes of
memory and state words, saves, restarts at any base.
-/
def Allows (szPath path : WStr) (s : Loader b) : Event b → Prop
  | .init env => s.isInit = false → env.szPath = some szPath ∧ storePathOf s szPath = path
      ∧ StorableValue (narrow env.fileName)
  | .scan c => img.LoadedIn s ∧ ∃ q ∈ img.sigs, c = q.callIn s.moduleInfo c.save
  | _ => True

variable (img) in
/-- Cache, options and file are right. -/
structure Holds (path : WStr) (s : Loader b) : Prop where
  cache : img.CacheHolds s
  store : StoreHolds img.OptionsHold path s

variable {path szPath : WStr}

/-- **A scan of the module returns the place of its signature.** -/
theorem Holds.scan_address (h : img.Holds path s) (hload : img.LoadedIn s) {q : Signature b}
    (hq : q ∈ img.sigs) (save : SaveEnv) :
    (scan s (q.callIn s.moduleInfo save)).address = img.place s.moduleInfo q := by
  -- the cache is sound for the calls that look for the signatures in this module
  have hsound : CacheSound s.mem (img.sigs.map fun q => q.callIn s.moduleInfo SaveEnv.ok)
      s.moduleInfo.base (s.moduleInfo.size.setWidth _) s := by
    refine ⟨rfl, fun key v hv => ?_⟩
    obtain ⟨q', hq', hkey, rfl⟩ := h.cache key v hv
    exact ⟨q'.callIn s.moduleInfo .ok, List.mem_map.mpr ⟨q', hq', rfl⟩, rfl, rfl, hkey,
      hload.isResult hq' .ok⟩
  have hno : ∀ c ∈ img.sigs.map (fun q => q.callIn s.moduleInfo SaveEnv.ok),
      c.key = (q.callIn s.moduleInfo save).key →
      c.signature = (q.callIn s.moduleInfo save).signature := by
    intro c hc hkey
    obtain ⟨q', hq', rfl⟩ := List.mem_map.mp hc
    exact img.noCollision q' hq' q hq hkey
  exact (scan_of_cacheSound hsound hload.base ⟨rfl, rfl, img.nonempty q hq⟩ hno).unique
    (hload.isResult hq save)

/-- The commit of a place keeps the options right. -/
theorem OptionsHold.set {config : Config} (h : img.OptionsHold config.get) {q : Signature b}
    (hq : q ∈ img.sigs) :
    img.OptionsHold (config.set scannerSection q.key.text (img.offset q)).get := by
  intro k v hv
  rw [Config.get_set] at hv
  split at hv
  · rename_i hk
    exact ⟨q, hq, hk.symm, (Option.some.inj hv).symm⟩
  · exact h k v hv

theorem Holds.scan (h : img.Holds path s) {c : ScanCall b}
    (hc : img.Allows szPath path s (.scan c)) : img.Holds path (CommonLoader.scan s c).loader := by
  obtain ⟨hload, q, hq, hcall⟩ := hc
  have haddress := h.scan_address hload hq c.save
  rw [← hcall] at haddress
  have hkey : c.key = q.key := by
    rw [hcall]
    rfl
  -- only a miss commits, and it commits what the search has found
  refine ⟨fun key v hv => ?_, h.store.scan (fun _ config hconfig => ?_) fun _ => Or.inr ?_⟩
  · rw [scan_moduleInfo]
    rcases scan_cache s c with hsame | ⟨-, hnew⟩
    · exact h.cache key v (hsame ▸ hv)
    · rw [hnew] at hv
      by_cases hk : key = c.key
      · rw [hk, AList.lookup_insert] at hv
        exact ⟨q, hq, (hk.trans hkey).symm, (Option.some.inj hv).symm.trans haddress⟩
      · rw [AList.lookup_insert_ne hk] at hv
        exact h.cache key v hv
  · rw [haddress, hload.offsetText hq, hkey]
    exact OptionsHold.set hconfig hq
  · intro k v hv
    cases hv

/-- The walk of an initialisation over the section of the scanner. -/
theorem init_cache (env : InitEnv) (hinit : s.isInit = false) :
    (init s env).isInit = true
      ∧ (init s env).sigLookupCache
        = (getOptions (init s env) scannerSection env.scannerOrder).foldl
            (initSigScannerStep s.moduleInfo) s.sigLookupCache := by
  obtain ⟨appConfig, appUid, appStoragePath, files, hstore⟩ :=
    initStore_eq { s with isInit := true } env
  unfold init
  rw [if_neg (by rw [hinit]; exact Bool.false_ne_true), hstore]
  exact ⟨rfl, rfl⟩

theorem Holds.init (h : img.Holds path s) {env : InitEnv}
    (hc : img.Allows szPath path s (.init env)) : img.Holds path (CommonLoader.init s env) := by
  cases hinit : s.isInit with
  | true =>
    unfold CommonLoader.init
    rwa [if_pos hinit]
  | false =>
    obtain ⟨hsz, hpath, hname⟩ := hc hinit
    have hnamed : (namedConfig env.fileName).Holds img.OptionsHold := by
      refine ⟨Config.Storable.set (fun sec hsec => by cases hsec) storableName_defaultSection
        storableKey_name hname, fun k v hv => ?_⟩
      rw [namedConfig, Config.get_set_ne _ _ _ _ scannerSection_ne] at hv
      cases hv
    have hstore : StoreHolds img.OptionsHold path (CommonLoader.init s env) :=
      h.store.init hsz hpath (Or.inr ⟨hnamed, fun _ => Or.inr fun k v hv => (nomatch hv)⟩)
    obtain ⟨hdone, hcache⟩ := init_cache env hinit
    refine ⟨?_, hstore⟩
    have hoptions := (hstore.late hdone).2.options
    -- each option of the section adds the place of its signature
    have hfold : ∀ (l : List (Σ _ : Bytes, Bytes)) (cache : UnorderedMap SignatureKey (Addr b)),
        (∀ p ∈ l, ∃ q ∈ img.sigs, p.1 = q.key.text ∧ p.2 = img.offset q) →
        (∀ key v, cache.lookup key = some v → ∃ q ∈ img.sigs, q.key = key ∧ v = img.place s.moduleInfo q) →
        ∀ key v, (l.foldl (initSigScannerStep s.moduleInfo) cache).lookup key = some v →
          ∃ q ∈ img.sigs, q.key = key ∧ v = img.place s.moduleInfo q := by
      intro l
      induction l with
      | nil =>
        intro cache _ hentries
        exact hentries
      | cons p l ih =>
        intro cache hl hentries
        obtain ⟨k, v⟩ := p
        obtain ⟨q, hq, rfl, rfl⟩ := hl ⟨k, v⟩ (List.mem_cons_self ..)
        rw [List.foldl_cons, initSigScannerStep_offset s.moduleInfo hq]
        refine ih _ (fun p hp => hl p (List.mem_cons_of_mem _ hp)) fun key v hv => ?_
        by_cases hk : key = q.key
        · rw [hk, AList.lookup_insert] at hv
          exact ⟨q, hq, hk.symm, (Option.some.inj hv).symm⟩
        · rw [AList.lookup_insert_ne hk] at hv
          exact hentries key v hv
    intro key v hv
    rw [hcache] at hv
    rw [init_moduleInfo]
    refine hfold _ _ (fun p hp => ?_) h.cache key v hv
    exact hoptions p.1 p.2 (mem_getOptions.mp hp)

/-- **Every event of the history keeps all three right.** -/
theorem holds_step (s : Loader b) (e : Event b) (he : img.Allows szPath path s e)
    (h : img.Holds path s) : img.Holds path (step s e) := by
  cases e with
  | init env => exact h.init he
  | scan c => exact h.scan he
  | setState state value =>
    obtain ⟨states, hst⟩ := setState_eq (s := s) state value
    rw [step, hst]
    exact ⟨h.cache, h.store.congr rfl rfl rfl rfl⟩
  | setStateFlag state flag set =>
    obtain ⟨states, hst⟩ := setStateFlag_eq s state flag set
    rw [step, hst]
    exact ⟨h.cache, h.store.congr rfl rfl rfl rfl⟩
  | writeMemory address data => exact ⟨h.cache, h.store.congr rfl rfl rfl rfl⟩
  | saveOptions env =>
    obtain ⟨hinfo, -, -, hcache⟩ := save_frame s env
    refine ⟨fun key v hv => ?_, h.store.save fun _ => Or.inr fun k v hv => (nomatch hv)⟩
    rw [step, hcache] at hv
    rw [step, hinfo]
    exact h.cache key v hv
  | restart moduleInfo mem prot =>
    refine ⟨fun key v hv => ?_, h.store.restart moduleInfo mem prot⟩
    rw [step, Loader.start, AList.lookup_empty] at hv
    cases hv

end Image

/-- A signature of one byte. -/
def letterSig (letter : UInt8) : Signature .win32 := ⟨fun _ => letter, fun _ => 0x78, 1⟩

theorem letterSig_in {s : Loader .win32} {letter : UInt8} {i : Nat} :
    (letterSig letter).In s i ↔ letter = s.mem (s.moduleInfo.base + BitVec.ofNat _ i) := by
  unfold Signature.In MatchFrom MatchAt AgreesAt
  refine ⟨fun h => ?_, fun h j hj => Or.inr ?_⟩
  · have hletter := (h 0 Nat.one_pos).resolve_left (show ¬(0x78 : UInt8) = wildcard by decide)
    rwa [BitVec.add_zero] at hletter
  · obtain rfl : j = 0 := Nat.lt_one_iff.mp hj
    rwa [BitVec.add_zero]

/-- An executable with the letter `A` four bytes behind its base, and no `B`. -/
def lettersImage : Image .win32 where
  sigs := [letterSig 0x41, letterSig 0x42]
  home := fun q => if q.pattern 0 = 0x41 then some 4 else none
  nonempty := by decide
  inside := by
    intro q _ o ho
    split at ho
    · obtain rfl := Option.some.inj ho
      decide
    · cases ho
  noCollision := by decide +kernel

theorem lettersImage_loadedIn {s : Loader .win32} (hbase : s.moduleInfo.base ≠ 0)
    (hwrap : s.moduleInfo.base.toNat + s.moduleInfo.size.toNat ≤ 2 ^ Build.win32.bits)
    (hsize : s.moduleInfo.size.toNat = 0x10)
    (hmem : ∀ i, i < 0x10 → s.mem (s.moduleInfo.base + BitVec.ofNat _ i) = if i = 4 then 0x41 else 0) :
    lettersImage.LoadedIn s := by
  refine ⟨hbase, hwrap, fun q hq o ho => ?_, fun q hq ho i hi hin => ?_⟩
  · rcases List.mem_pair.mp hq with rfl | rfl
    · obtain rfl : 4 = o := Option.some.inj ho
      refine ⟨by omega, letterSig_in.mpr (hmem 4 (by decide)).symm, fun j hj hin => ?_⟩
      have := (letterSig_in.mp hin).trans (hmem j (by omega))
      rw [if_neg (by omega)] at this
      exact absurd this (by decide)
    · cases ho
  · rcases List.mem_pair.mp hq with rfl | rfl
    · cases ho
    · have := (letterSig_in.mp hin).trans (hmem i (by omega))
      split at this
      · exact absurd this (by decide)
      · exact absurd this (by decide)

/-- The executable at a base. -/
def lettersAt (base : Addr .win32) : Mem Build.win32.bits := fun a => if a = base + 4 then 0x41 else 0

theorem lettersAt_loadedIn {s : Loader .win32} {base : Addr .win32}
    (hbase : base = 0x400000 ∨ base = 0x500000) (hinfo : s.moduleInfo = ⟨base, 0x10⟩)
    (hmem : s.mem = lettersAt base) : lettersImage.LoadedIn s := by
  refine lettersImage_loadedIn ?_ ?_ ?_ ?_ <;> rw [hinfo]
  · rcases hbase with rfl | rfl <;> decide
  · rcases hbase with rfl | rfl <;> decide
  · rfl
  · rw [hmem]
    rcases hbase with rfl | rfl <;> decide +kernel

/-- A process with the executable at its first base. -/
def lettersProcess : Loader .win32 :=
  Loader.start ⟨0x400000, 0x10⟩ (lettersAt 0x400000) (fun _ => 0x40) fun _ => none

/-- The scan for `A` at the other. -/
def lettersAgain : ScanCall .win32 := (letterSig 0x41).callIn ⟨0x500000, 0x10⟩ .ok

/-- The process looks for both letters, and then the next one is there. -/
def lettersTwice : List (Event .win32) :=
  [.init initOk, .scan ((letterSig 0x41).callIn ⟨0x400000, 0x10⟩ .ok),
    .scan ((letterSig 0x42).callIn ⟨0x400000, 0x10⟩ .ok),
    .restart ⟨0x500000, 0x10⟩ (lettersAt 0x500000) (fun _ => 0x40), .init initOk]

end CommonLoader
