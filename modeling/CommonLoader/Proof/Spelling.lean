import CommonLoader.Proof.CacheRuns
import Mathlib.Order.Bounds.Basic

/-!
# Two spellings of one signature

What lies under a wildcard means nothing to the matcher, and neither does the letter of the
mask that stands for an exact byte. The key of the cache is made of all of them, so a
signature spelled in two ways has two entries, of two pasts. Whether that shows is a
matter of what the cache answers for either, and of what is in the memory by now.
-/

namespace CommonLoader

open ByteMemory CText FirstMatch

variable {b : Build} {s : Loader b} {c c' : ScanCall b} {v v' : Addr b}

/-- The same range, and the same signature up to what the matcher ignores. -/
structure SameSignature (c c' : ScanCall b) : Prop where
  patternLength : c'.patternLength = c.patternLength
  pBegin : c'.pBegin = c.pBegin
  size : c'.size = c.size
  wildcards : ∀ j, j < c.patternLength.toNat → (c'.mask j = wildcard ↔ c.mask j = wildcard)
  bytes : ∀ j, j < c.patternLength.toNat → c.mask j ≠ wildcard → c'.pattern j = c.pattern j

theorem SameSignature.matchFrom (h : SameSignature c c') (mem : Mem b.bits) (a : Addr b) :
    MatchFrom mem c'.pattern c'.mask c'.patternLength.toNat a
      = MatchFrom mem c.pattern c.mask c.patternLength.toNat a := by
  funext i
  unfold MatchFrom MatchAt AgreesAt
  rw [h.patternLength, eq_iff_iff]
  refine forall_congr' fun j => imp_congr_right fun hj => ?_
  by_cases hw : c.mask j = wildcard
  · exact iff_of_true (Or.inl ((h.wildcards j hj).mpr hw)) (Or.inl hw)
  · rw [h.wildcards j hj, h.bytes j hj hw]

theorem SameSignature.found (h : SameSignature c c') (mem : Mem b.bits) : c'.Found mem = c.Found mem := by
  unfold ScanCall.Found
  rw [h.matchFrom, h.pBegin]

theorem SameSignature.isResult (h : SameSignature c c') (mem : Mem b.bits) (a : Addr b) :
    c'.IsResult mem a ↔ c.IsResult mem a := by
  unfold ScanCall.IsResult IsLeftmost
  rw [h.matchFrom, h.pBegin, h.size]

/-- The range can be searched, and there is nothing in it. -/
def ScanCall.Missing (c : ScanCall b) (mem : Mem b.bits) : Prop :=
  c.pBegin ≠ 0 ∧ NoneBelow (c.Found mem) c.size.toNat

theorem SameSignature.missing (h : SameSignature c c') (mem : Mem b.bits) :
    c'.Missing mem ↔ c.Missing mem := by
  unfold ScanCall.Missing
  rw [h.found, h.pBegin, h.size]

/-- **A scan reports** a missing signature that the cache knows nothing about. -/
theorem scan_flag (s : Loader b) (c : ScanCall b) [Decidable (c.answer s = none ∧ c.Missing s.mem)] :
    getState (scan s c).loader initSigScanFailed
      = if c.answer s = none ∧ c.Missing s.mem then 1 else getState s initSigScanFailed := by
  rcases scan_cases s c with ⟨v, h, hs⟩ | ⟨v, h, hs⟩ | h
  · rw [scan_skip h hs, if_neg fun hn => by cases hn.1.symm.trans h]
  · rw [if_neg fun hn => by cases hn.1.symm.trans h]
    by_cases hv : v = 0
    · subst hv
      rw [scan_hit_null h]
    · rw [(scan_window h hs hv).1]
  · rw [(scan_miss h).2.2, commitSignatureCache_getState]
    by_cases h0 : c.pBegin = 0
    · rw [h0, scanUncached_null, if_neg fun hn => hn.2.1 h0]
    · rcases scanUncached_cases c.pattern c.mask s c.patternLength c.size true h0 with
        ⟨i, hi, _, hl⟩ | ⟨hn, _, hl⟩
      · rw [hl, if_neg fun hn => hi.not_noneBelow hn.2.2]
      · rw [hl, if_pos rfl, if_pos ⟨h, h0, hn⟩]
        exact getState_failed_setState

/-- A hit leaves the state word alone. -/
theorem scan_flag_of_hit (h : c.answer s = some v) :
    getState (scan s c).loader initSigScanFailed = getState s initSigScanFailed := by
  classical
  rw [scan_flag s c, if_neg]
  intro hn
  cases h.symm.trans hn.1

/-! ## The windows of two answers -/

/-- The matches at the start positions of the second search. For null there is no such search. -/
def ScanCall.window (c : ScanCall b) (mem : Mem b.bits) (v : Addr b) : Set Nat :=
  {i | v ≠ 0 ∧ c.offset v ≤ i ∧ i < c.offset v + c.patternLength.toNat ∧ c.Found mem i}

theorem SameSignature.window (h : SameSignature c c') (mem : Mem b.bits) (v : Addr b) :
    c'.window mem v = c.window mem v := by
  unfold ScanCall.window ScanCall.offset
  rw [h.found, h.pBegin, h.patternLength]

/-- What comes of the second search: its first match, or null. -/
theorem scan_first_of_window (h : c.answer s = some v) (hs : getState s skipSigValidation = 0) :
    (∃ i, IsLeast (c.window s.mem v) i ∧ (scan s c).address = c.pBegin + BitVec.ofNat _ i)
      ∨ (c.window s.mem v = ∅ ∧ (scan s c).address = 0) := by
  by_cases hv : v = 0
  · subst hv
    refine Or.inr ⟨Set.eq_empty_of_forall_notMem fun i hi => hi.1 rfl, ?_⟩
    rw [scan_hit_null h]
  · rcases (scan_window h hs hv).2 with ⟨k, hk, ha⟩ | ⟨hn, ha⟩
    · have hk1 := hk.1
      refine Or.inl ⟨c.offset v + k, ⟨⟨hv, by omega, by omega, hk.2.1⟩, ?_⟩, ha⟩
      rintro j ⟨_, hj1, _, hj3⟩
      by_contra hlt
      have hbefore : ¬ c.Found s.mem (c.offset v + (j - c.offset v)) := hk.2.2 _ (by omega)
      rw [show c.offset v + (j - c.offset v) = j by omega] at hbefore
      exact hbefore hj3
    · exact Or.inr ⟨Set.eq_empty_of_forall_notMem fun i hi => hn.of_shift hi.2.1 hi.2.2.1 hi.2.2.2, ha⟩

/-- A match in a window that does not come round is at an address, and not at null. -/
theorem window_address (h : c.answer s = some v)
    (hw : c.pBegin.toNat + c.size.toNat + c.patternLength.toNat ≤ 2 ^ b.bits) {i : Nat}
    (hi : i ∈ c.window s.mem v) : (c.pBegin + BitVec.ofNat _ i).toNat = c.pBegin.toNat + i
      ∧ c.pBegin + BitVec.ofNat _ i ≠ 0 := by
  obtain ⟨hv, hlow, hhigh, _⟩ := hi
  obtain ⟨hlt, hnat, _, _⟩ := offset_of_hit h hv
  have hsum : (c.pBegin + BitVec.ofNat _ i).toNat = c.pBegin.toNat + i := by
    rw [BitVec.toNat_add, BitVec.toNat_ofNat, Nat.add_mod_mod, Nat.mod_eq_of_lt (by omega)]
  refine ⟨hsum, fun hz => hv (BitVec.eq_of_toNat_eq ?_)⟩
  have hzero : (0 : Addr b).toNat = 0 := rfl
  rw [hz, hzero] at hsum
  omega

/-- Two windows have their first match at one place, or no match at all. -/
def ScanCall.WindowsAgree (c : ScanCall b) (mem : Mem b.bits) (v v' : Addr b) : Prop :=
  (∃ i, IsLeast (c.window mem v) i ∧ IsLeast (c.window mem v') i)
    ∨ (c.window mem v = ∅ ∧ c.window mem v' = ∅)

theorem scan_of_windowsAgree (h : SameSignature c c') (ha : c.answer s = some v)
    (ha' : c'.answer s = some v') (hs : getState s skipSigValidation = 0)
    (hagree : c.WindowsAgree s.mem v v') : (scan s c').address = (scan s c).address := by
  have hcase' := scan_first_of_window ha' hs
  rw [h.window, h.pBegin] at hcase'
  rcases scan_first_of_window ha hs with ⟨i, hi, hr⟩ | ⟨hn, hr⟩
  · rcases hcase' with ⟨i', hi', hr'⟩ | ⟨hn', _⟩
    · rcases hagree with ⟨k, hk, hk'⟩ | ⟨hn, _⟩
      · rw [hr, hr', hi.unique hk, hi'.unique hk']
      · exact absurd (hn ▸ hi.1) (Set.notMem_empty i)
    · rcases hagree with ⟨k, _, hk'⟩ | ⟨hn, _⟩
      · exact absurd (hn' ▸ hk'.1) (Set.notMem_empty k)
      · exact absurd (hn ▸ hi.1) (Set.notMem_empty i)
  · rcases hcase' with ⟨i', hi', _⟩ | ⟨_, hr'⟩
    · rcases hagree with ⟨k, hk, _⟩ | ⟨_, hn'⟩
      · exact absurd (hn ▸ hk.1) (Set.notMem_empty k)
      · exact absurd (hn' ▸ hi'.1) (Set.notMem_empty i')
    · rw [hr, hr']

theorem windowsAgree_of_scan (h : SameSignature c c') (ha : c.answer s = some v)
    (ha' : c'.answer s = some v') (hs : getState s skipSigValidation = 0)
    (hw : c.pBegin.toNat + c.size.toNat + c.patternLength.toNat ≤ 2 ^ b.bits)
    (he : (scan s c').address = (scan s c).address) : c.WindowsAgree s.mem v v' := by
  have hcase' := scan_first_of_window ha' hs
  have haddr' : ∀ {i}, i ∈ c.window s.mem v' →
      (c.pBegin + BitVec.ofNat _ i).toNat = c.pBegin.toNat + i ∧ c.pBegin + BitVec.ofNat _ i ≠ 0 := by
    intro i hi
    have hadd := window_address ha' (by rw [h.pBegin, h.size, h.patternLength]; exact hw)
      (i := i) (by rw [h.window]; exact hi)
    rwa [h.pBegin] at hadd
  rw [h.window, h.pBegin, he] at hcase'
  rcases scan_first_of_window ha hs with ⟨i, hi, hr⟩ | ⟨hn, hr⟩
  · have hi1 := window_address ha hw hi.1
    rcases hcase' with ⟨i', hi', hr'⟩ | ⟨_, hr'⟩
    · -- one address is one place
      have hsame := congrArg BitVec.toNat (hr.symm.trans hr')
      rw [hi1.1, (haddr' hi'.1).1] at hsame
      obtain rfl : i = i' := by omega
      exact Or.inl ⟨i, hi, hi'⟩
    · exact absurd (hr.symm.trans hr') hi1.2
  · rcases hcase' with ⟨i', hi', hr'⟩ | ⟨hn', _⟩
    · exact absurd (hr'.symm.trans hr) (haddr' hi'.1).2
    · exact Or.inr ⟨hn, hn'⟩

/-! ## An answer for the one spelling only -/

/--
An entry serves as well as a search of the range that it saves. Null does when the search
finds nothing and the report of that was made before; an entry that is believed, when it is
the first match; and one that is searched again, when it agrees with the memory and there
is a match, or that report was made.
-/
def ScanCall.EntryServes (c : ScanCall b) (s : Loader b) (v : Addr b) : Prop :=
  if c.pBegin = 0 then v = 0 ∨ (getState s skipSigValidation = 0 ∧ c.window s.mem v = ∅)
  else if v = 0 then NoneBelow (c.Found s.mem) c.size.toNat ∧ getState s initSigScanFailed = 1
  else if getState s skipSigValidation ≠ 0 then IsFirst (c.Found s.mem) c.size.toNat (c.offset v)
  else c.EntryAgrees s.mem v
    ∧ ((∃ i, i < c.size.toNat ∧ c.Found s.mem i) ∨ getState s initSigScanFailed = 1)

theorem SameSignature.entryAgrees (h : SameSignature c c') (mem : Mem b.bits) (v : Addr b) :
    c'.EntryAgrees mem v ↔ c.EntryAgrees mem v := by
  unfold ScanCall.EntryAgrees ScanCall.offset
  rw [h.found, h.pBegin, h.size, h.patternLength]

theorem SameSignature.entryServes (h : SameSignature c c') (s : Loader b) (v : Addr b) :
    c'.EntryServes s v ↔ c.EntryServes s v := by
  unfold ScanCall.EntryServes
  rw [h.window, h.entryAgrees, h.found, h.pBegin, h.size]
  unfold ScanCall.offset
  rw [h.pBegin]

/-- Two calls return the same, and leave the same said about missing signatures. -/
def ScanCall.Interchangeable (c c' : ScanCall b) (s : Loader b) : Prop :=
  (scan s c').address = (scan s c).address
    ∧ getState (scan s c').loader initSigScanFailed = getState (scan s c).loader initSigScanFailed

theorem ScanCall.Interchangeable.symm (h : c.Interchangeable c' s) : c'.Interchangeable c s :=
  ⟨h.1.symm, h.2.symm⟩

/-- Of such two calls only the one that searches may have something to report. -/
theorem interchangeable_iff_of_hit (ha : c.answer s = none) (ha' : c'.answer s = some v) :
    c.Interchangeable c' s ↔ (scan s c').address = (scan s c).address
      ∧ (c.Missing s.mem → getState s initSigScanFailed = 1) := by
  classical
  unfold ScanCall.Interchangeable
  rw [scan_flag s c, scan_flag_of_hit ha']
  by_cases hmissing : c.Missing s.mem
  · rw [if_pos ⟨ha, hmissing⟩]
    exact and_congr_right fun _ => ⟨fun hf _ => hf, fun hf => hf hmissing⟩
  · rw [if_neg fun hn => hmissing hn.2]
    exact and_congr_right fun _ => ⟨fun _ hn => absurd hn hmissing, fun _ => rfl⟩

/-- Without a range to search, both calls give null or the entry decides. -/
theorem entryServes_nullRange (h : SameSignature c c') (ha : c.answer s = none)
    (ha' : c'.answer s = some v) (h0 : c.pBegin = 0) :
    (c.EntryServes s v → c.Interchangeable c' s)
      ∧ (c.pBegin.toNat + c.size.toNat + c.patternLength.toNat ≤ 2 ^ b.bits →
        c.Interchangeable c' s → c.EntryServes s v) := by
  have hmissing : ¬ c.Missing s.mem := fun hm => hm.1 h0
  have hnull : (scan s c).address = 0 := by rw [(scan_miss ha).1, h0, scanUncached_null]
  rw [interchangeable_iff_of_hit ha ha', hnull]
  unfold ScanCall.EntryServes
  rw [if_pos h0]
  refine ⟨fun hserves => ⟨?_, fun hm => absurd hm hmissing⟩, fun hw hsame => ?_⟩
  · rcases hserves with rfl | ⟨hs, hempty⟩
    · rw [scan_hit_null ha']
    · rcases scan_first_of_window ha' hs with ⟨i, hi, _⟩ | ⟨_, hr⟩
      · rw [h.window, hempty] at hi
        exact absurd hi.1 (Set.notMem_empty i)
      · exact hr
  · by_cases hv : v = 0
    · exact Or.inl hv
    · by_cases hs : getState s skipSigValidation = 0
      · refine Or.inr ⟨hs, ?_⟩
        rcases scan_first_of_window ha' hs with ⟨i, hi, hr⟩ | ⟨hempty, _⟩
        · have hne := (window_address ha' (by rw [h.pBegin, h.size, h.patternLength]; exact hw) hi.1).2
          exact absurd (hr.symm.trans hsame.1) hne
        · rw [← h.window]
          exact hempty
      · -- an entry that is believed is not null
        rw [scan_skip ha' hs] at hsame
        exact absurd hsame.1 hv

/-- **When an entry serves** as well as the search of its range. -/
theorem entryServes_iff (h : SameSignature c c') (ha : c.answer s = none)
    (ha' : c'.answer s = some v) :
    (c.EntryServes s v → c.Interchangeable c' s)
      ∧ (c.pBegin.toNat + c.size.toNat + c.patternLength.toNat ≤ 2 ^ b.bits →
        c.Interchangeable c' s → c.EntryServes s v) := by
  by_cases h0 : c.pBegin = 0
  · exact entryServes_nullRange h ha ha' h0
  have hres := scan_miss_isResult ha h0
  rw [interchangeable_iff_of_hit ha ha']
  unfold ScanCall.EntryServes
  rw [if_neg h0]
  by_cases hv : v = 0
  · subst hv
    rw [if_pos rfl, scan_hit_null ha']
    refine ⟨fun ⟨hn, hf⟩ => ⟨(IsLeftmost.unique hres (Or.inr ⟨hn, rfl⟩)).symm, fun _ => hf⟩, ?_⟩
    intro hw ⟨hsame, hf⟩
    have hn := (hres.zero_iff h0 (by omega)).mp hsame.symm
    exact ⟨hn, hf ⟨h0, hn⟩⟩
  rw [if_neg hv]
  by_cases hs : getState s skipSigValidation = 0
  · rw [if_neg (not_not_intro hs)]
    refine ⟨fun ⟨hagree, hrep⟩ => ⟨?_, fun hm => ?_⟩, fun hw ⟨hsame, hf⟩ => ⟨?_, ?_⟩⟩
    · have hres' := isResult_of_entryAgrees ha' hs hv ((h.entryAgrees s.mem v).mpr hagree)
      exact ((h.isResult s.mem _).mp hres').unique hres
    · rcases hrep with ⟨i, hi, hfound⟩ | hf
      · exact absurd hfound (hm.2 i hi)
      · exact hf
    · have hres' : c'.IsResult s.mem (scan s c').address := by
        rw [hsame, h.isResult]
        exact hres
      have hagree := entryAgrees_of_isResult ha' hs hv (h.pBegin ▸ h0)
        (by rw [h.pBegin, h.size, h.patternLength, ← Nat.add_assoc]; exact hw) hres'
      exact (h.entryAgrees s.mem v).mp hagree
    · by_cases hn : NoneBelow (c.Found s.mem) c.size.toNat
      · exact Or.inr (hf ⟨h0, hn⟩)
      · unfold NoneBelow at hn
        push Not at hn
        exact Or.inl hn
  · -- the entry itself is returned
    obtain ⟨_, hnat, hve, hrange⟩ := offset_of_hit ha' hv
    have hoff : c'.offset v = c.offset v := by
      unfold ScanCall.offset
      rw [h.pBegin]
    rw [hoff, h.pBegin] at hnat hve
    rw [h.pBegin, h.size] at hrange
    rw [if_pos hs, scan_skip ha' hs]
    refine ⟨fun hfirst => ⟨?_, fun hm => absurd hm.2 hfirst.not_noneBelow⟩, fun _ ⟨hsame, _⟩ => ?_⟩
    · exact hve.trans (IsLeftmost.unique hres (Or.inl ⟨_, hfirst, rfl⟩)).symm
    · obtain ⟨i, hi, hie⟩ := hres.resolve_right fun hn => hv (hsame.trans hn.2)
      have hi1 := hi.1
      have hsum : (c.pBegin + BitVec.ofNat _ i).toNat = c.pBegin.toNat + i := by
        rw [BitVec.toNat_add, BitVec.toNat_ofNat, Nat.add_mod_mod, Nat.mod_eq_of_lt (by omega)]
      rw [← hie, ← show v = (scan s c).address from hsame, hnat] at hsum
      obtain rfl : c.offset v = i := by omega
      exact hi

/-! ## Any two spellings -/

/--
The answers of the cache serve the two spellings alike: there is none for either, or the
same, or two whose windows agree with validation on, or one that does what the search does.
-/
def ScanCall.AnswersAgree (c c' : ScanCall b) (s : Loader b) : Prop :=
  match c.answer s, c'.answer s with
  | none, none => True
  | some v, some v' => v = v' ∨ (getState s skipSigValidation = 0 ∧ c.WindowsAgree s.mem v v')
  | none, some v => c.EntryServes s v
  | some v, none => c.EntryServes s v

/-- Equal answers do. -/
theorem answersAgree_of_eq (h : c.answer s = c'.answer s) : c.AnswersAgree c' s := by
  unfold ScanCall.AnswersAgree
  rw [← h]
  cases c.answer s with
  | none => trivial
  | some v => exact Or.inl rfl

theorem SameSignature.symm (h : SameSignature c c') : SameSignature c' c := by
  refine ⟨h.patternLength.symm, h.pBegin.symm, h.size.symm, fun j hj => ?_, fun j hj hw => ?_⟩
  · rw [h.patternLength] at hj
    exact (h.wildcards j hj).symm
  · rw [h.patternLength] at hj
    exact (h.bytes j hj fun hw' => hw ((h.wildcards j hj).mpr hw')).symm

/-- Two searches of one range are the same search. -/
theorem interchangeable_of_misses (h : SameSignature c c') (ha : c.answer s = none)
    (ha' : c'.answer s = none) : c.Interchangeable c' s := by
  classical
  refine ⟨?_, ?_⟩
  · by_cases h0 : c.pBegin = 0
    · rw [(scan_miss ha).1, (scan_miss ha').1, h.pBegin, h0, scanUncached_null, scanUncached_null]
    · have hres' := scan_miss_isResult ha' (h.pBegin ▸ h0)
      exact ((h.isResult s.mem _).mp hres').unique (scan_miss_isResult ha h0)
  · rw [scan_flag s c, scan_flag s c', h.missing, ha, ha']

/-- Two hits report nothing, and give their entries or what their windows hold. -/
theorem interchangeable_of_hits (h : SameSignature c c') (ha : c.answer s = some v)
    (ha' : c'.answer s = some v') :
    (v = v' ∨ (getState s skipSigValidation = 0 ∧ c.WindowsAgree s.mem v v') →
        c.Interchangeable c' s)
      ∧ (c.pBegin.toNat + c.size.toNat + c.patternLength.toNat ≤ 2 ^ b.bits →
        c.Interchangeable c' s →
        v = v' ∨ (getState s skipSigValidation = 0 ∧ c.WindowsAgree s.mem v v')) := by
  have hflag : getState (scan s c').loader initSigScanFailed
      = getState (scan s c).loader initSigScanFailed := by
    rw [scan_flag_of_hit ha, scan_flag_of_hit ha']
  by_cases hs : getState s skipSigValidation = 0
  · refine ⟨fun hor => ⟨?_, hflag⟩, fun hw hsame =>
      Or.inr ⟨hs, windowsAgree_of_scan h ha ha' hs hw hsame.1⟩⟩
    refine scan_of_windowsAgree h ha ha' hs ?_
    rcases hor with rfl | ⟨_, hagree⟩
    · -- one window agrees with itself
      rcases scan_first_of_window ha hs with ⟨i, hi, _⟩ | ⟨hn, _⟩
      · exact Or.inl ⟨i, hi, hi⟩
      · exact Or.inr ⟨hn, hn⟩
    · exact hagree
  · refine ⟨fun hor => ⟨?_, hflag⟩, fun _ hsame => Or.inl ?_⟩
    · rw [scan_skip ha hs, scan_skip ha' hs]
      exact (hor.resolve_right fun hn => hs hn.1).symm
    · have haddr := hsame.1
      rw [scan_skip ha hs, scan_skip ha' hs] at haddr
      exact haddr.symm

/--
**When two spellings are interchangeable**, in any state: when the answers of the cache
serve them alike, and in a range whose windows do not come round only then.
-/
theorem scan_spelling (s : Loader b) (es : List (Event b)) (c c' : ScanCall b)
    (h : SameSignature c c') :
    (c.AnswersAgree c' (run s es) → c.Interchangeable c' (run s es))
      ∧ (c.pBegin.toNat + c.size.toNat + c.patternLength.toNat ≤ 2 ^ b.bits →
        c.Interchangeable c' (run s es) → c.AnswersAgree c' (run s es)) := by
  generalize run s es = s
  unfold ScanCall.AnswersAgree
  cases ha : c.answer s with
  | none =>
    cases ha' : c'.answer s with
    | none => exact ⟨fun _ => interchangeable_of_misses h ha ha', fun _ _ => trivial⟩
    | some v' => exact entryServes_iff h ha ha'
  | some v =>
    cases ha' : c'.answer s with
    | none =>
      -- the same with the calls exchanged
      obtain ⟨hserves, hback⟩ := entryServes_iff h.symm ha' ha
      rw [h.entryServes, h.pBegin, h.size, h.patternLength] at hback
      rw [h.entryServes] at hserves
      exact ⟨fun hs => (hserves hs).symm, fun hw hsame => hback hw hsame.symm⟩
    | some v' => exact interchangeable_of_hits h ha ha'

/-- The letter `A` and any byte after it, which is spelled in two ways. -/
def scanAnyAfterA (spelled : UInt8) : ScanCall .win32 where
  pattern := fun j => if j = 0 then 0x41 else spelled
  mask := fun j => if j = 0 then 0x78 else wildcard
  patternLength := 2
  pBegin := 0x401000
  size := 0x10
  save := .ok

theorem sameSignature_anyAfterA (x y : UInt8) :
    SameSignature (scanAnyAfterA x) (scanAnyAfterA y) := by
  refine ⟨rfl, rfl, rfl, fun _ _ => Iff.rfl, ?_⟩
  intro j _ hj
  by_cases h0 : j = 0
  · subst h0
    rfl
  · exact absurd (if_neg h0) hj

theorem scan_spelling_fresh :
    (scanAnyAfterA 1).Interchangeable (scanAnyAfterA 2) (run oneLetter []) := by
  have hanswer : ∀ c : ScanCall .win32, c.answer (run oneLetter []) = none := fun _ => rfl
  exact (scan_spelling oneLetter [] _ _ (sameSignature_anyAfterA 1 2)).1
    (answersAgree_of_eq ((hanswer _).trans (hanswer _).symm))

/-- The signature is found under one spelling, and then written over. -/
def foundAndPatched : List (Event .win32) :=
  [.scan (scanAnyAfterA 1), .writeMemory 0x401008 [0x90]]

/-- **After that the one spelling fails in silence, and the other with a report.** -/
theorem scan_spelling_reported :
    SameSignature (scanAnyAfterA 1) (scanAnyAfterA 2)
      ∧ (scan (run oneLetter [.scan (scanAnyAfterA 1)]) (scanAnyAfterA 1)).address = 0x401008
      ∧ getState (scan (run oneLetter foundAndPatched) (scanAnyAfterA 1)).loader initSigScanFailed = 0
      ∧ getState (scan (run oneLetter foundAndPatched) (scanAnyAfterA 2)).loader initSigScanFailed
        = 1 :=
  ⟨sameSignature_anyAfterA 1 2, by decide +kernel, by decide +kernel, by decide +kernel⟩

end CommonLoader
