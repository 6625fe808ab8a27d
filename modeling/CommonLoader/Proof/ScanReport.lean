import CommonLoader.Proof.CacheRuns

/-!
# Is a scan that fails reported?

Only a search that the cache does not answer raises `INIT_SIG_SCAN_FAILED`. A scan
that trusts the cache stays silent because, as the source has it, an entry means
that the signature was found before. A null entry means the opposite, and it may
come from an earlier process, whose report is gone, or from a scan of null, which
made none.
-/

namespace CommonLoader

open ByteMemory CText FirstMatch

variable {b : Build} {s : Loader b} {c : ScanCall b} {v : Addr b}

/-- What the scans of a history returned, and for which signature. -/
def scanLog (s : Loader b) : List (Event b) → List ((Bytes × Bytes) × Addr b)
  | [] => []
  | .scan c :: es => (c.signature, (scan s c).address) :: scanLog (step s (.scan c)) es
  | e :: es => scanLog (step s e) es

/-- No scan of the history, in this process or an earlier one, found the signature. -/
def NeverFound (s : Loader b) (es : List (Event b)) (signature : Bytes × Bytes) : Prop :=
  ∀ p ∈ scanLog s es, p.1 = signature → p.2 = 0

instance (s : Loader b) (es : List (Event b)) (signature : Bytes × Bytes) :
    Decidable (NeverFound s es signature) :=
  inferInstanceAs (Decidable (∀ p ∈ scanLog s es, _))

/-- The first match in the range, if there is one, has an address other than null. -/
def ScanCall.NotAtNull (c : ScanCall b) (mem : Mem b.bits) : Prop :=
  ∀ i, IsFirst (c.Found mem) c.size.toNat i → c.pBegin + BitVec.ofNat _ i ≠ 0

/-- A range that does not come round to address zero has no match there. -/
theorem notAtNull_of_le (h0 : c.pBegin ≠ 0) (hw : c.pBegin.toNat + c.size.toNat ≤ 2 ^ b.bits)
    (mem : Mem b.bits) : c.NotAtNull mem := fun _ hi => (range_ne_zero h0 hw hi.1).2

/-- A search that the cache does not answer reports that nothing matches, and only that. -/
theorem scan_miss_reports (h : searchSignatureCache s c.key c.pBegin c.size = none)
    (h0 : c.pBegin ≠ 0) (ha : (scan s c).address = 0) :
    getState (scan s c).loader initSigScanFailed = 1
      ↔ getState s initSigScanFailed = 1 ∨ c.NotAtNull s.mem := by
  obtain ⟨haddr, _, hloader⟩ := scan_miss h
  rw [hloader, commitSignatureCache_getState]
  rcases scanUncached_cases c.pattern c.mask s c.patternLength c.size true h0 with
    ⟨i, hi, hai, hl⟩ | ⟨hn, _, hl⟩
  · -- found, at the address that stands for not found
    have hnull : ¬ c.NotAtNull s.mem := fun hz => hz i hi (hai.symm.trans (haddr.symm.trans ha))
    rw [hl, or_iff_left hnull]
  · have hz : c.NotAtNull s.mem := fun i hi => absurd hn hi.not_noneBelow
    rw [hl]
    exact iff_of_true getState_failed_setState (Or.inr hz)

theorem notAtNull_of_address_ne (h : searchSignatureCache s c.key c.pBegin c.size = none)
    (h0 : c.pBegin ≠ 0) (ha : (scan s c).address ≠ 0) : c.NotAtNull s.mem := by
  rw [(scan_miss h).1] at ha
  intro i hi hz
  rcases scanUncached_cases c.pattern c.mask s c.patternLength c.size true h0 with
    ⟨i', hi', hai, _⟩ | ⟨hn, _, _⟩
  · obtain rfl := hi.unique hi'
    exact ha (hai.trans hz)
  · exact absurd hn hi.not_noneBelow

/-- A call that the cache answers with an address at which the signature still is. -/
def ScanCall.StillThere (c : ScanCall b) (s : Loader b) : Prop :=
  ∃ v, searchSignatureCache s c.key c.pBegin c.size = some v ∧ v ≠ 0
    ∧ ∃ k, IsFirst (fun k => c.Found s.mem (c.offset v + k)) c.patternLength.toNat k
      ∧ c.pBegin + BitVec.ofNat _ (c.offset v + k) ≠ 0

/-- A hit returns an address exactly when the signature is still there, and reports nothing. -/
theorem scan_hit_silent (h : searchSignatureCache s c.key c.pBegin c.size = some v)
    (hs : getState s skipSigValidation = 0) :
    (scan s c).loader = s ∧ ((scan s c).address ≠ 0 ↔ c.StillThere s) := by
  by_cases hv : v = 0
  · subst hv
    rw [scan_hit_null h]
    refine ⟨rfl, fun hne => absurd rfl hne, fun ⟨v', h', hv', _⟩ => ?_⟩
    exact absurd (Option.some.inj (h'.symm.trans h)) hv'
  · obtain ⟨hl, hcases⟩ := scan_window h hs hv
    refine ⟨hl, fun hne => ?_, fun ⟨v', h', _, k, hk, hne⟩ => ?_⟩
    · rcases hcases with ⟨k, hk, ha⟩ | ⟨_, ha⟩
      · exact ⟨v, h, hv, k, hk, ha ▸ hne⟩
      · exact absurd ha hne
    · obtain rfl := Option.some.inj (h'.symm.trans h)
      rcases hcases with ⟨k', hk', ha⟩ | ⟨hn, _⟩
      · obtain rfl := hk.unique hk'
        rwa [ha]
      · exact absurd hn hk.not_noneBelow

/--
**When a signature that was never found is reported**, after any history: when the
report is there already, when the cache has no answer and no match hides behind
null, or when the answer it has leads to the signature after all.
-/
theorem scan_reported (s : Loader b) (es : List (Event b)) (c : ScanCall b) (h0 : c.pBegin ≠ 0)
    (hs : getState (run s es) skipSigValidation = 0) :
    ((scan (run s es) c).address = 0 → NeverFound s es c.signature →
        getState (scan (run s es) c).loader initSigScanFailed = 1) ↔
      (NeverFound s es c.signature →
        getState (run s es) initSigScanFailed = 1
          ∨ (searchSignatureCache (run s es) c.key c.pBegin c.size = none
            ∧ c.NotAtNull (run s es).mem)
          ∨ c.StillThere (run s es)) := by
  cases h : searchSignatureCache (run s es) c.key c.pBegin c.size with
  | none =>
    refine ⟨?_, ?_⟩
    · intro hrep hnever
      by_cases ha : (scan (run s es) c).address = 0
      · rcases (scan_miss_reports h h0 ha).mp (hrep ha hnever) with hflag | hz
        · exact Or.inl hflag
        · exact Or.inr (Or.inl ⟨rfl, hz⟩)
      · exact Or.inr (Or.inl ⟨rfl, notAtNull_of_address_ne h h0 ha⟩)
    · intro hcond ha hnever
      rcases hcond hnever with hflag | ⟨_, hz⟩ | ⟨v, hv, _⟩
      · exact (scan_miss_reports h h0 ha).mpr (Or.inl hflag)
      · exact (scan_miss_reports h h0 ha).mpr (Or.inr hz)
      · cases h.symm.trans hv
  | some v =>
    -- an answer from the cache reports nothing, so the report must be there already
    obtain ⟨hl, hthere⟩ := scan_hit_silent h hs
    rw [hl]
    refine ⟨?_, ?_⟩
    · intro hrep hnever
      by_cases ha : (scan (run s es) c).address = 0
      · exact Or.inl (hrep ha hnever)
      · exact Or.inr (Or.inr (hthere.mp ha))
    · intro hcond ha hnever
      rcases hcond hnever with hflag | ⟨hmiss, _⟩ | hstill
      · exact hflag
      · cases hmiss
      · exact absurd ha (hthere.mpr hstill)

/-- An `Init` under which everything works. -/
def initOk : InitEnv where
  szPath := some ((ascii "C:").map UInt8.toUInt16)
  fileName := (ascii "Game.exe").map UInt8.toUInt16
  load := .ok
  save := .ok
  scannerOrder := .asIs

/-- A process that looks for a letter that is not there, and then the next process. -/
def failAndRestart : List (Event .win32) :=
  [.init initOk, .scan (scanByte 0x42 0x401000 0x10),
    .restart ⟨0x400000, 0x2000⟩ oneLetter.mem oneLetter.prot, .init initOk]

theorem scan_reported_oneLetter :
    getState (scan (run oneLetter [.init initOk]) (scanByte 0x42 0x401000 0x10)).loader
      initSigScanFailed = 1 := by
  have hfree : (scanByte 0x42 0x401000 0x10).NotAtNull (run oneLetter [.init initOk]).mem :=
    notAtNull_of_le (by decide) (by decide) _
  refine (scan_reported oneLetter [.init initOk] (scanByte 0x42 0x401000 0x10) (by decide)
    (by decide +kernel)).mpr (fun _ => Or.inr (Or.inl ⟨?_, hfree⟩)) ?_ ?_
  · decide +kernel
  · decide +kernel
  · decide +kernel

/-- **The second process says nothing about a signature that was never found.** -/
theorem scan_unreported_after_restart :
    NeverFound oneLetter failAndRestart (scanByte 0x42 0x401000 0x10).signature
      ∧ getState (run oneLetter failAndRestart) skipSigValidation = 0
      ∧ (scan (run oneLetter failAndRestart) (scanByte 0x42 0x401000 0x10)).address = 0
      ∧ getState (scan (run oneLetter failAndRestart) (scanByte 0x42 0x401000 0x10)).loader
          initSigScanFailed = 0 := by
  refine ⟨?_, ?_, ?_, ?_⟩
  · decide +kernel
  · decide +kernel
  · decide +kernel
  · decide +kernel

end CommonLoader
