import CommonLoader.Proof.KeyText
import CommonLoader.Proof.Search

/-!
# One `Scan`

A scan ends in one of three ways: the cache answers and is believed, the cache
answers and its answer is searched again in a window as long as the signature, or
the cache says nothing and the range is searched and the result committed.
`scan_cases` says so once; what follows in later files starts from there.
-/

namespace CommonLoader

open ByteMemory CText FirstMatch

variable {b : Build} {s : Loader b} {c : ScanCall b} {v : Addr b}

/-- The bytes of the signature a call looks for. -/
def ScanCall.signature (c : ScanCall b) : Bytes × Bytes :=
  (c.pattern.take c.patternLength.toNat, c.mask.take c.patternLength.toNat)

/-- The signature of the call is in memory `i` bytes after its begin. -/
def ScanCall.Found (c : ScanCall b) (mem : Mem b.bits) : Nat → Prop :=
  MatchFrom mem c.pattern c.mask c.patternLength.toNat c.pBegin

instance (mem : Mem b.bits) : DecidablePred (c.Found mem) :=
  fun i => inferInstanceAs (Decidable (MatchFrom _ _ _ _ _ i))

/-- The result a call is for. -/
def ScanCall.IsResult (c : ScanCall b) (mem : Mem b.bits) (r : Addr b) : Prop :=
  IsLeftmost mem c.pattern c.mask c.patternLength.toNat c.pBegin c.size.toNat r

/-! ## State words -/

theorem stateSlot_failed : stateSlot (initSigScanFailed : SizeT b) = some 1 := by cases b <;> rfl

@[simp] theorem setState_mem (state value : SizeT b) : (setState s state value).mem = s.mem := by
  unfold setState; split <;> rfl

@[simp] theorem setState_cache (state value : SizeT b) :
    (setState s state value).sigLookupCache = s.sigLookupCache := by
  unfold setState; split <;> rfl

theorem getState_failed_setState :
    getState (setState s initSigScanFailed 1) initSigScanFailed = 1 := by
  unfold getState setState
  rw [stateSlot_failed]
  exact Function.update_self (1 : Fin (stateMax + 1)) 1 s.states

/-! ## Committing -/

@[simp] theorem save_mem (env : SaveEnv) : (save s env).2.mem = s.mem := by
  unfold save saveTo; split
  · dsimp only; split <;> rfl
  · rfl

@[simp] theorem save_cache (env : SaveEnv) : (save s env).2.sigLookupCache = s.sigLookupCache := by
  unfold save saveTo; split
  · dsimp only; split <;> rfl
  · rfl

@[simp] theorem save_states (env : SaveEnv) : (save s env).2.states = s.states := by
  unfold save saveTo; split
  · dsimp only; split <;> rfl
  · rfl

@[simp] theorem commitSignatureCache_mem (key : SignatureKey) (env : SaveEnv) :
    (commitSignatureCache s key v env).mem = s.mem := by
  rw [commitSignatureCache_eq, save_mem]; rfl

@[simp] theorem commitSignatureCache_cache (key : SignatureKey) (env : SaveEnv) :
    (commitSignatureCache s key v env).sigLookupCache = s.sigLookupCache.insert key v := by
  rw [commitSignatureCache_eq, save_cache]; rfl

@[simp] theorem commitSignatureCache_getState (key : SignatureKey) (env : SaveEnv) (state : SizeT b) :
    getState (commitSignatureCache s key v env) state = getState s state := by
  rw [commitSignatureCache_eq]; unfold getState; rw [save_states]; rfl

/-! ## The cache -/

/-- **When the cache answers**: there is an entry, and it is null or inside the range. -/
theorem searchSignatureCache_eq_some {key : SignatureKey} {pBegin : Addr b} {size : SizeT b} :
    searchSignatureCache s key pBegin size = some v ↔
      s.sigLookupCache.lookup key = some v ∧ ((pBegin ≤ v ∧ v < pBegin + size) ∨ v = 0) := by
  unfold searchSignatureCache
  cases hl : s.sigLookupCache.lookup key with
  | none => simp only [reduceCtorEq, false_and]
  | some address =>
    dsimp only
    split
    · rename_i hr
      simp only [Option.some.injEq]
      exact ⟨fun he => ⟨he, he ▸ hr⟩, fun ⟨he, _⟩ => he⟩
    · rename_i hr
      simp only [reduceCtorEq, Option.some.injEq, false_iff]
      exact fun ⟨he, hr'⟩ => hr (he ▸ hr')

/-- How far into the range of the call an address lies. -/
def ScanCall.offset (c : ScanCall b) (v : Addr b) : Nat := v.toNat - c.pBegin.toNat

/--
**A non-null answer lies in the range**, and the range does not wrap: the test of
the cache is false everywhere in a range that does.
-/
theorem offset_of_hit (h : searchSignatureCache s c.key c.pBegin c.size = some v) (hv : v ≠ 0) :
    c.offset v < c.size.toNat ∧ v.toNat = c.pBegin.toNat + c.offset v
      ∧ v = c.pBegin + BitVec.ofNat _ (c.offset v)
      ∧ c.pBegin.toNat + c.size.toNat < 2 ^ b.bits := by
  obtain ⟨_, hrange⟩ := searchSignatureCache_eq_some.mp h
  obtain ⟨hle, hlt⟩ := hrange.resolve_right hv
  have hle' : c.pBegin.toNat ≤ v.toNat := hle
  have hlt' : v.toNat < (c.pBegin.toNat + c.size.toNat) % 2 ^ b.bits := by
    rw [← BitVec.toNat_add]; exact hlt
  have hnowrap : c.pBegin.toNat + c.size.toNat < 2 ^ b.bits := by
    -- a sum that wraps comes out below both its parts
    by_cases hw : c.pBegin.toNat + c.size.toNat < 2 ^ b.bits
    · exact hw
    · have h1 : (c.pBegin.toNat + c.size.toNat) % 2 ^ b.bits
          = c.pBegin.toNat + c.size.toNat - 2 ^ b.bits := by
        rw [Nat.mod_eq_sub_mod (by omega), Nat.mod_eq_of_lt]
        have := c.pBegin.isLt
        have := c.size.isLt
        omega
      have := c.size.isLt
      omega
  rw [Nat.mod_eq_of_lt hnowrap] at hlt'
  unfold ScanCall.offset
  refine ⟨by omega, by omega, ?_, hnowrap⟩
  apply BitVec.eq_of_toNat_eq
  rw [BitVec.toNat_add, BitVec.toNat_ofNat, Nat.add_mod_mod, Nat.mod_eq_of_lt]
  · omega
  · have := v.isLt
    omega

/-- The answer of the cache to a call. -/
def ScanCall.answer (c : ScanCall b) (s : Loader b) : Option (Addr b) :=
  searchSignatureCache s c.key c.pBegin c.size

/-! ## The three ways a scan ends -/

theorem scan_skip (h : searchSignatureCache s c.key c.pBegin c.size = some v)
    (hs : getState s skipSigValidation ≠ 0) : scan s c = ⟨v, [], s⟩ := by
  unfold scan
  rw [h]
  exact if_pos hs

theorem scan_validate (h : searchSignatureCache s c.key c.pBegin c.size = some v)
    (hs : getState s skipSigValidation = 0) :
    scan s c = scanUncached s c.pattern c.mask c.patternLength v c.patternLength false := by
  unfold scan
  rw [h]
  exact if_neg (not_not_intro hs)

theorem scan_miss (h : searchSignatureCache s c.key c.pBegin c.size = none) :
    (scan s c).address = (scanUncached s c.pattern c.mask c.patternLength c.pBegin c.size true).address
      ∧ (scan s c).reads = (scanUncached s c.pattern c.mask c.patternLength c.pBegin c.size true).reads
      ∧ (scan s c).loader = commitSignatureCache
          (scanUncached s c.pattern c.mask c.patternLength c.pBegin c.size true).loader
          c.key (scan s c).address c.save := by
  unfold scan
  rw [h]
  exact ⟨rfl, rfl, rfl⟩

theorem scan_cases (s : Loader b) (c : ScanCall b) :
    (∃ v, searchSignatureCache s c.key c.pBegin c.size = some v
        ∧ getState s skipSigValidation ≠ 0)
      ∨ (∃ v, searchSignatureCache s c.key c.pBegin c.size = some v
        ∧ getState s skipSigValidation = 0)
      ∨ searchSignatureCache s c.key c.pBegin c.size = none := by
  cases h : searchSignatureCache s c.key c.pBegin c.size with
  | none => exact Or.inr (Or.inr rfl)
  | some v =>
    by_cases hs : getState s skipSigValidation = 0
    · exact Or.inr (Or.inl ⟨v, rfl, hs⟩)
    · exact Or.inl ⟨v, rfl, hs⟩

/-- A null answer is never searched again. -/
theorem scan_hit_null (h : searchSignatureCache s c.key c.pBegin c.size = some 0) :
    scan s c = ⟨0, [], s⟩ := by
  by_cases hs : getState s skipSigValidation = 0
  · rw [scan_validate h hs, scanUncached_null]
  · exact scan_skip h hs

/--
**The second search.** It looks from the cached address on, over as many start
positions as the signature is long, and says nothing when it fails.
-/
theorem scan_window (h : searchSignatureCache s c.key c.pBegin c.size = some v)
    (hs : getState s skipSigValidation = 0) (hv : v ≠ 0) :
    (scan s c).loader = s ∧
      ((∃ k, IsFirst (fun k => c.Found s.mem (c.offset v + k)) c.patternLength.toNat k
          ∧ (scan s c).address = c.pBegin + BitVec.ofNat _ (c.offset v + k))
        ∨ (NoneBelow (fun k => c.Found s.mem (c.offset v + k)) c.patternLength.toNat
          ∧ (scan s c).address = 0)) := by
  obtain ⟨_, _, hve, _⟩ := offset_of_hit h hv
  have hfound : (fun k => c.Found s.mem (c.offset v + k))
      = MatchFrom s.mem c.pattern c.mask c.patternLength.toNat v := by
    funext k
    unfold ScanCall.Found MatchFrom
    rw [← add_add_ofNat, ← hve]
  rw [scan_validate h hs, hfound]
  rcases scanUncached_cases c.pattern c.mask s c.patternLength c.patternLength false hv with
    ⟨k, hk, ha, hl⟩ | ⟨hn, ha, hl⟩
  · refine ⟨hl, Or.inl ⟨k, hk, ?_⟩⟩
    rw [ha, ← add_add_ofNat, ← hve]
  · exact ⟨hl, Or.inr ⟨hn, ha⟩⟩

/-! ## What a scan leaves alone -/

theorem scanUncached_mem {pattern mask : Buf} {n size : SizeT b} {pBegin : Addr b} {w : Bool} :
    (scanUncached s pattern mask n pBegin size w).loader.mem = s.mem
      ∧ (scanUncached s pattern mask n pBegin size w).loader.sigLookupCache = s.sigLookupCache := by
  by_cases h0 : pBegin = 0
  · subst h0; rw [scanUncached_null]; exact ⟨rfl, rfl⟩
  · rcases scanUncached_cases pattern mask s n size w h0 with ⟨_, _, _, hl⟩ | ⟨_, _, hl⟩
    · rw [hl]; exact ⟨rfl, rfl⟩
    · rw [hl]
      split
      · exact ⟨setState_mem _ _, setState_cache _ _⟩
      · exact ⟨rfl, rfl⟩

/-- **A scan writes no memory.** -/
@[simp] theorem scan_mem (s : Loader b) (c : ScanCall b) : (scan s c).loader.mem = s.mem := by
  rcases scan_cases s c with ⟨v, h, hs⟩ | ⟨v, h, hs⟩ | h
  · rw [scan_skip h hs]
  · rw [scan_validate h hs]; exact scanUncached_mem.1
  · rw [(scan_miss h).2.2, commitSignatureCache_mem]; exact scanUncached_mem.1

/-- **Only a scan the cache does not answer changes the cache**, by its own result. -/
theorem scan_cache (s : Loader b) (c : ScanCall b) :
    (scan s c).loader.sigLookupCache = s.sigLookupCache
      ∨ (searchSignatureCache s c.key c.pBegin c.size = none
        ∧ (scan s c).loader.sigLookupCache = s.sigLookupCache.insert c.key (scan s c).address) := by
  rcases scan_cases s c with ⟨v, h, hs⟩ | ⟨v, h, hs⟩ | h
  · exact Or.inl (by rw [scan_skip h hs])
  · exact Or.inl (by rw [scan_validate h hs]; exact scanUncached_mem.2)
  · refine Or.inr ⟨h, ?_⟩
    rw [(scan_miss h).2.2, commitSignatureCache_cache, scanUncached_mem.2]

/-- A scan past the cache does what it is for. -/
theorem scan_miss_isResult (h : searchSignatureCache s c.key c.pBegin c.size = none)
    (h0 : c.pBegin ≠ 0) : c.IsResult s.mem (scan s c).address := by
  unfold ScanCall.IsResult
  rw [(scan_miss h).1]
  exact scanUncached_isLeftmost h0

theorem setState_eq (state value : SizeT b) :
    ∃ states, setState s state value = { s with states } := by
  unfold setState
  split
  · exact ⟨s.states, rfl⟩
  · exact ⟨_, rfl⟩

theorem setStateFlag_eq (s : Loader b) (state flag : SizeT b) (set : Bool) :
    ∃ states, setStateFlag s state flag set = { s with states } := by
  unfold setStateFlag
  split
  · exact ⟨s.states, rfl⟩
  · exact ⟨_, rfl⟩

/-- **What a scan does to the process**: nothing, or a commit after a report that may be due. -/
theorem scan_loader (s : Loader b) (c : ScanCall b) :
    (c.answer s ≠ none ∧ (scan s c).loader = s)
      ∨ (c.answer s = none ∧ ∃ states, (scan s c).loader
        = commitSignatureCache { s with states } c.key (scan s c).address c.save) := by
  rcases scan_cases s c with ⟨v, h, hs⟩ | ⟨v, h, hs⟩ | h
  · have hne : c.answer s ≠ none := by
      intro hn
      cases hn.symm.trans h
    exact Or.inl ⟨hne, by rw [scan_skip h hs]⟩
  · have hne : c.answer s ≠ none := by
      intro hn
      cases hn.symm.trans h
    refine Or.inl ⟨hne, ?_⟩
    by_cases hv : v = 0
    · subst hv
      rw [scan_hit_null h]
    · exact (scan_window h hs hv).1
  · refine Or.inr ⟨h, ?_⟩
    rw [(scan_miss h).2.2]
    by_cases h0 : c.pBegin = 0
    · rw [h0, scanUncached_null]
      exact ⟨s.states, rfl⟩
    · rcases scanUncached_cases c.pattern c.mask s c.patternLength c.size true h0 with
        ⟨_, _, _, hl⟩ | ⟨_, _, hl⟩
      · rw [hl]
        exact ⟨s.states, rfl⟩
      · obtain ⟨states, hst⟩ := setState_eq (s := s) initSigScanFailed 1
        rw [hl, if_pos rfl, hst]
        exact ⟨states, rfl⟩

/-! ## A range that does not wrap -/

/-- No offset inside such a range leads to null. -/
theorem range_ne_zero {pBegin : Addr b} {size i : Nat} (h0 : pBegin ≠ 0)
    (hw : pBegin.toNat + size ≤ 2 ^ b.bits) (hi : i < size) :
    (pBegin + BitVec.ofNat _ i).toNat = pBegin.toNat + i ∧ pBegin + BitVec.ofNat _ i ≠ 0 := by
  have hn : (pBegin + BitVec.ofNat _ i).toNat = pBegin.toNat + i := by
    rw [BitVec.toNat_add, BitVec.toNat_ofNat, Nat.add_mod_mod, Nat.mod_eq_of_lt (by omega)]
  refine ⟨hn, fun he => h0 (BitVec.eq_of_toNat_eq ?_)⟩
  have hz : (0 : Addr b).toNat = 0 := rfl
  rw [he, hz] at hn
  omega

/-- So null means that there is no match. -/
theorem ScanCall.IsResult.zero_iff {mem : Mem b.bits} {r : Addr b} (hr : c.IsResult mem r)
    (h0 : c.pBegin ≠ 0) (hw : c.pBegin.toNat + c.size.toNat ≤ 2 ^ b.bits) :
    r = 0 ↔ NoneBelow (c.Found mem) c.size.toNat := by
  rcases hr with ⟨i, hi, he⟩ | ⟨hn, he⟩
  · refine ⟨?_, fun hn => absurd hn hi.not_noneBelow⟩
    intro hz
    exact absurd (he ▸ hz) (range_ne_zero h0 hw hi.1).2
  · exact ⟨fun _ => hn, fun _ => he⟩

end CommonLoader
