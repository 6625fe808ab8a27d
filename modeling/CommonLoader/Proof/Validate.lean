import CommonLoader.Proof.CacheRuns

/-!
# What the second search is worth

The cache is a file anyone may edit, and the memory under it changes. A cached
address is therefore searched again before it is returned, in a window as long as
the signature. That makes every address that is returned a match, whatever was in
the cache; but the window has more than one start position, so the match need not be
where the cache said.
-/

namespace CommonLoader

open ByteMemory CText FirstMatch

variable {b : Build} {s : Loader b} {c c' : ScanCall b} {v : Addr b}

theorem IsLeftmost.matchAt {mem : Mem b.bits} {pattern mask : Buf} {n size : Nat}
    {pBegin r : Addr b} (h : IsLeftmost mem pattern mask n pBegin size r) (hr : r ≠ 0) :
    MatchAt mem pattern mask n r := by
  rcases h with ⟨i, hi, he⟩ | ⟨_, he⟩
  · rw [he]
    exact hi.2.1
  · exact absurd he hr

/-- The window of a cached address is searched like any other range. -/
theorem scan_window_isLeftmost (h : searchSignatureCache s c.key c.pBegin c.size = some v)
    (hs : getState s skipSigValidation = 0) (hv : v ≠ 0) :
    IsLeftmost s.mem c.pattern c.mask c.patternLength.toNat v c.patternLength.toNat
      (scan s c).address := by
  rw [scan_validate h hs]
  exact scanUncached_isLeftmost hv

/--
**A result is a match.** Whatever is in the cache, in the store it came from and in
the memory by now, an address that a scan returns is one where the signature is.
-/
theorem scan_isMatch (s : Loader b) (es : List (Event b)) (c : ScanCall b)
    (hs : getState (run s es) skipSigValidation = 0) (hne : (scan (run s es) c).address ≠ 0) :
    ∀ j, j < c.patternLength.toNat → c.mask j = wildcard
      ∨ c.pattern j = (run s es).mem ((scan (run s es) c).address + BitVec.ofNat _ j) := by
  generalize run s es = s at hs hne ⊢
  change MatchAt s.mem c.pattern c.mask c.patternLength.toNat (scan s c).address
  rcases scan_cases s c with ⟨v, h, hskip⟩ | ⟨v, h, _⟩ | h
  · exact absurd hs hskip
  · by_cases hv : v = 0
    · subst hv
      rw [scan_hit_null h] at hne
      exact absurd rfl hne
    · exact (scan_window_isLeftmost h hs hv).matchAt hne
  · by_cases h0 : c.pBegin = 0
    · have haddr := (scan_miss h).1
      rw [h0, scanUncached_null] at haddr
      exact absurd haddr hne
    · exact (scan_miss_isResult h h0).matchAt hne

/-! ## The address that was cached -/

/-- The signature `AB`. -/
def scanAB : ScanCall .win32 where
  pattern := fun j => if j = 0 then 0x41 else 0x42
  mask := fun _ => 0x78
  patternLength := 2
  pBegin := 0x401000
  size := 2
  save := .ok

/-- A process with `AB` at `0x401000`. -/
def lettersAB : Loader .win32 :=
  Loader.start ⟨0x400000, 0x2000⟩ (store (fun _ => 0) 0x401000 [0x41, 0x42]) (fun _ => 0x40)
    (fun _ => none)

theorem scan_isMatch_letters :
    scanAB.mask 1 = wildcard ∨ scanAB.pattern 1
      = (run lettersAB [.scan scanAB]).mem ((scan (run lettersAB [.scan scanAB]) scanAB).address
        + BitVec.ofNat _ 1) :=
  scan_isMatch lettersAB [.scan scanAB] scanAB (by decide +kernel) (by decide +kernel) 1 (by decide)

/-- The call gives the cached address or null, and so nothing at or past the end of the range. -/
def ScanCall.Confirms (c : ScanCall b) (s : Loader b) (v : Addr b) : Prop :=
  ((scan s c).address = v ∨ (scan s c).address = 0)
    ∧ ((scan s c).address ≠ 0 → c.pBegin.toNat ≤ (scan s c).address.toNat
      ∧ (scan s c).address.toNat < c.pBegin.toNat + c.size.toNat)

/--
**When validation confirms or rejects**: when the cache has null, or when the first
match among the start positions of the window, if there is one, is at the cached
address itself (or at address zero, which a result cannot show).
-/
theorem scan_confirms (s : Loader b) (es : List (Event b)) (c : ScanCall b) (v : Addr b)
    (h : searchSignatureCache (run s es) c.key c.pBegin c.size = some v)
    (hs : getState (run s es) skipSigValidation = 0) :
    c.Confirms (run s es) v ↔ v = 0 ∨ ∀ k,
      IsFirst (MatchFrom (run s es).mem c.pattern c.mask c.patternLength.toNat v)
        c.patternLength.toNat k → k = 0 ∨ v + BitVec.ofNat _ k = 0 := by
  generalize run s es = s at h hs ⊢
  by_cases hv : v = 0
  · subst hv
    unfold ScanCall.Confirms
    rw [scan_hit_null h]
    exact ⟨fun _ => Or.inl rfl, fun _ => ⟨Or.inl rfl, fun hne => absurd rfl hne⟩⟩
  · obtain ⟨hlt, hnat, _, _⟩ := offset_of_hit h hv
    have hwin := scan_window_isLeftmost h hs hv
    refine ⟨?_, ?_⟩
    · intro hconf
      refine Or.inr ?_
      intro k hk
      have ha : (scan s c).address = v + BitVec.ofNat _ k := hwin.unique (Or.inl ⟨k, hk, rfl⟩)
      rcases hconf.1 with he | he
      · -- only the first start position has the address itself
        refine Or.inl ?_
        rw [ha] at he
        have hzero : BitVec.ofNat b.bits k = 0 := by
          have := congrArg (· - v) he
          simpa [BitVec.add_comm v, BitVec.add_sub_cancel] using this
        have := congrArg BitVec.toNat hzero
        rw [BitVec.toNat_ofNat, Nat.mod_eq_of_lt (Nat.lt_trans hk.1 (BitVec.isLt _))] at this
        exact this
      · exact Or.inr (ha ▸ he)
    · intro hcond
      have hcond := hcond.resolve_left hv
      have hor : (scan s c).address = v ∨ (scan s c).address = 0 := by
        rcases hwin with ⟨k, hk, ha⟩ | ⟨_, ha⟩
        · rcases hcond k hk with rfl | hz
          · exact Or.inl (ha.trans (BitVec.add_zero v))
          · exact Or.inr (ha.trans hz)
        · exact Or.inr ha
      refine ⟨hor, ?_⟩
      intro hne
      rw [hor.resolve_right hne]
      omega

theorem scan_confirms_letters : scanAB.Confirms (run lettersAB [.scan scanAB]) 0x401000 := by
  refine (scan_confirms lettersAB [.scan scanAB] scanAB 0x401000 (by decide +kernel)
    (by decide +kernel)).mpr (Or.inr ?_)
  intro k hk
  have hzero : MatchFrom (run lettersAB [.scan scanAB]).mem scanAB.pattern scanAB.mask
      scanAB.patternLength.toNat 0x401000 0 := by decide +kernel
  rcases Nat.eq_zero_or_pos k with hk0 | hpos
  · exact Or.inl hk0
  · exact absurd hzero (hk.2.2 0 hpos)

/-- `AB` moves one byte up after it was cached. -/
def movedAB : List (Event .win32) :=
  [.scan scanAB, .writeMemory 0x401000 [0x00, 0x41, 0x42]]

/-- **The second search returns the address behind the cached one.** -/
theorem scan_confirms_other :
    searchSignatureCache (run lettersAB movedAB) scanAB.key scanAB.pBegin scanAB.size
        = some 0x401000
      ∧ (scan (run lettersAB movedAB) scanAB).address = 0x401001
      ∧ ¬ scanAB.Confirms (run lettersAB movedAB) 0x401000 := by
  have haddr : (scan (run lettersAB movedAB) scanAB).address = 0x401001 := by decide +kernel
  refine ⟨by decide +kernel, haddr, ?_⟩
  intro h
  rcases h.1 with he | he
  · exact absurd (haddr.symm.trans he) (by decide)
  · exact absurd (haddr.symm.trans he) (by decide)

end CommonLoader
