import CommonLoader.Proof.Scan

/-!
# The cache over whole histories

A cache entry carries no range. It is the result of the call that made it, and it
answers for every later call with the same key whose range contains it, or for
every call at all when it is null.

Over one range that is harmless: an entry is the result of some call for the same
signature in the same range, which is what `CacheSound` says of every state a
history over the range can reach. Over several ranges an entry may be the wrong
answer, or no answer at all, and the rest of the file says exactly when.
-/

namespace CommonLoader

open ByteMemory CText FirstMatch

variable {b : Build} {s : Loader b} {c c' : ScanCall b} {v : Addr b}

/-! ## Signatures -/

theorem Buf.take_inj {p q : Buf} {n m : Nat} (h : p.take n = q.take m) :
    n = m ∧ ∀ j, j < n → p j = q j := by
  have hlen : n = m := by
    have := congrArg List.length h
    unfold Buf.take at this
    simpa using this
  subst hlen
  refine ⟨rfl, ?_⟩
  intro j hj
  unfold Buf.take at h
  exact List.map_inj_left.mp h j (List.mem_range.mpr hj)

/-- Calls for the same signature look for the same thing. -/
theorem found_congr (h : c.signature = c'.signature) (hb : c.pBegin = c'.pBegin)
    (mem : Mem b.bits) : c.Found mem = c'.Found mem := by
  obtain ⟨hp, hm⟩ := Prod.mk.inj h
  obtain ⟨hn, hpat⟩ := Buf.take_inj hp
  obtain ⟨_, hmask⟩ := Buf.take_inj hm
  funext i
  unfold ScanCall.Found MatchFrom MatchAt AgreesAt
  rw [← hn, ← hb, eq_iff_iff]
  refine forall_congr' fun j => imp_congr_right fun hj => ?_
  rw [hpat j hj, hmask j hj]

theorem isResult_congr (h : c.signature = c'.signature) (hb : c.pBegin = c'.pBegin)
    (hs : c.size = c'.size) {mem : Mem b.bits} {r : Addr b} (hr : c.IsResult mem r) :
    c'.IsResult mem r := by
  have hf := found_congr h hb mem
  unfold ScanCall.Found at hf
  unfold ScanCall.IsResult IsLeftmost at hr ⊢
  rwa [← hf, ← hb, ← hs]

/-! ## One range -/

/-- The scans of a history. -/
def scanCalls (es : List (Event b)) : List (ScanCall b) :=
  es.filterMap fun e => match e with
    | .scan c => some c
    | _ => none

/-- Different signatures among the calls have different keys. -/
def NoCollision (calls : List (ScanCall b)) : Prop :=
  ∀ c ∈ calls, ∀ c' ∈ calls, c.key = c'.key → c.signature = c'.signature

/-- Scans of one range, and any writes of the state words. -/
def OverRange (pBegin : Addr b) (size : SizeT b) : Event b → Prop
  | .scan c => c.pBegin = pBegin ∧ c.size = size ∧ c.patternLength ≠ 0
  | .setState _ _ => True
  | .setStateFlag _ _ _ => True
  | _ => False

/-- The memory is still the same, and every entry is the result of a call in the range. -/
def CacheSound (mem : Mem b.bits) (calls : List (ScanCall b)) (pBegin : Addr b) (size : SizeT b)
    (s : Loader b) : Prop :=
  s.mem = mem ∧ ∀ key v, s.sigLookupCache.lookup key = some v →
    ∃ c ∈ calls, c.pBegin = pBegin ∧ c.size = size ∧ c.key = key ∧ c.IsResult mem v

variable {mem : Mem b.bits} {calls : List (ScanCall b)} {pBegin : Addr b} {size : SizeT b}

theorem cacheSound_init (h : s.sigLookupCache = ∅) : CacheSound s.mem calls pBegin size s := by
  refine ⟨rfl, ?_⟩
  intro key v hv
  rw [h, AList.lookup_empty] at hv
  cases hv

theorem setStateFlag_frame (state flag : SizeT b) (set : Bool) :
    (setStateFlag s state flag set).mem = s.mem
      ∧ (setStateFlag s state flag set).sigLookupCache = s.sigLookupCache := by
  unfold setStateFlag; split <;> exact ⟨rfl, rfl⟩

/-- **Preserved by every event over the range.** -/
theorem cacheSound_step (h0 : pBegin ≠ 0) {e : Event b} (he : OverRange pBegin size e)
    (hcalls : ∀ c, e = .scan c → c ∈ calls) (h : CacheSound mem calls pBegin size s) :
    CacheSound mem calls pBegin size (step s e) := by
  obtain ⟨hmem, hentry⟩ := h
  cases e with
  | scan c =>
    obtain ⟨hb, hsize, _⟩ := he
    refine ⟨(scan_mem s c).trans hmem, ?_⟩
    intro key v hv
    rcases scan_cache s c with hsame | ⟨hmiss, hnew⟩
    · exact hentry key v (hsame ▸ hv)
    · -- the new entry is the result of this very call
      have hv' : (s.sigLookupCache.insert c.key (scan s c).address).lookup key = some v := hnew ▸ hv
      by_cases hk : key = c.key
      · subst hk
        rw [AList.lookup_insert] at hv'
        have hres : c.IsResult s.mem (scan s c).address := scan_miss_isResult hmiss (hb ▸ h0)
        rw [hmem, Option.some.inj hv'] at hres
        exact ⟨c, hcalls c rfl, hb, hsize, rfl, hres⟩
      · rw [AList.lookup_insert_ne hk] at hv'
        exact hentry key v hv'
  | setState state value =>
    exact ⟨(setState_mem state value).trans hmem, fun key v hv =>
      hentry key v (setState_cache (s := s) state value ▸ hv)⟩
  | setStateFlag state flag set =>
    obtain ⟨hm, hc⟩ := setStateFlag_frame (s := s) state flag set
    exact ⟨hm.trans hmem, fun key v hv => hentry key v (hc ▸ hv)⟩
  | init env => exact he.elim
  | writeMemory address data => exact he.elim
  | saveOptions env => exact he.elim
  | restart moduleInfo mem prot => exact he.elim

theorem cacheSound_run (h0 : pBegin ≠ 0) {es : List (Event b)}
    (hes : ∀ e ∈ es, OverRange pBegin size e) (hcalls : ∀ c ∈ scanCalls es, c ∈ calls)
    (h : CacheSound mem calls pBegin size s) : CacheSound mem calls pBegin size (run s es) := by
  induction es generalizing s with
  | nil => exact h
  | cons e es ih =>
    refine ih (fun e' he' => hes e' (List.mem_cons_of_mem _ he')) (fun c hc => hcalls c ?_) ?_
    · obtain ⟨e', he', hce⟩ := List.mem_filterMap.mp hc
      exact List.mem_filterMap.mpr ⟨e', List.mem_cons_of_mem _ he', hce⟩
    · refine cacheSound_step h0 (hes e (List.mem_cons_self ..)) (fun c hce => hcalls c ?_) h
      exact List.mem_filterMap.mpr ⟨e, List.mem_cons_self .., by rw [hce]⟩

/-- In a sound state the second search finds the cached address again, and nothing else. -/
theorem scan_of_cacheSound (h : CacheSound mem calls pBegin size s) (h0 : pBegin ≠ 0)
    (hc : OverRange pBegin size (.scan c)) (hno : ∀ c' ∈ calls, c'.key = c.key →
      c'.signature = c.signature) : c.IsResult mem (scan s c).address := by
  obtain ⟨hmem, hentry⟩ := h
  obtain ⟨hb, hsize, hlen⟩ := hc
  rcases scan_cases s c with ⟨v, hv, hs⟩ | ⟨v, hv, hs⟩ | hmiss
  · obtain ⟨c', hc', hb', hsize', hkey, hres⟩ := hentry _ v (searchSignatureCache_eq_some.mp hv).1
    rw [scan_skip hv hs]
    exact isResult_congr (hno c' hc' hkey) (hb'.trans hb.symm) (hsize'.trans hsize.symm) hres
  · obtain ⟨c', hc', hb', hsize', hkey, hres⟩ := hentry _ v (searchSignatureCache_eq_some.mp hv).1
    have hres : c.IsResult mem v :=
      isResult_congr (hno c' hc' hkey) (hb'.trans hb.symm) (hsize'.trans hsize.symm) hres
    by_cases hz : v = 0
    · subst hz
      rwa [scan_hit_null hv]
    · obtain ⟨i, hi, hve⟩ := hres.resolve_right fun hn => hz hn.2
      -- the match is at the first position of the window
      have hfirst : IsFirst (MatchFrom s.mem c.pattern c.mask c.patternLength.toNat v)
          c.patternLength.toNat 0 := by
        refine ⟨?_, ?_, fun j hj => absurd hj (Nat.not_lt_zero j)⟩
        · exact Nat.pos_of_ne_zero fun hz => hlen (BitVec.eq_of_toNat_eq hz)
        · have hm := hi.2.1
          unfold MatchFrom at hm ⊢
          rw [hmem, hve, BitVec.add_zero]
          exact hm
      rw [scan_validate hv hs]
      rcases scanUncached_cases c.pattern c.mask s c.patternLength c.patternLength false hz with
        ⟨k, hk, ha, _⟩ | ⟨hn, _, _⟩
      · obtain rfl := hk.unique hfirst
        rw [ha, BitVec.add_zero]
        exact Or.inl ⟨i, hi, hve⟩
      · exact absurd hn hfirst.not_noneBelow
  · rw [← hmem]
    exact scan_miss_isResult hmiss (hb ▸ h0)

/--
**Over one range the cache is transparent.** After any history of scans over the
range and of writes to the state words, from an empty cache, a scan returns what
the search without a cache returns.
-/
theorem scan_transparent (s : Loader b) (hempty : s.sigLookupCache = ∅) (pBegin : Addr b)
    (size : SizeT b) (h0 : pBegin ≠ 0) (es : List (Event b)) (c : ScanCall b)
    (hes : ∀ e ∈ es ++ [.scan c], OverRange pBegin size e)
    (hno : NoCollision (scanCalls (es ++ [.scan c]))) :
    c.IsResult s.mem (scan (run s es) c).address
      ∧ (scan (run s es) c).address
        = (scanUncached s c.pattern c.mask c.patternLength c.pBegin c.size true).address := by
  have hlast : Event.scan c ∈ es ++ [.scan c] := List.mem_append_right _ (List.mem_singleton_self _)
  have hc := hes _ hlast
  have hmem : ∀ {c'}, c' ∈ scanCalls es → c' ∈ scanCalls (es ++ [.scan c]) := by
    intro c' hc'
    unfold scanCalls at hc' ⊢
    rw [List.filterMap_append]
    exact List.mem_append_left _ hc'
  have hsound : CacheSound s.mem (scanCalls (es ++ [.scan c])) pBegin size (run s es) :=
    cacheSound_run h0 (fun e he => hes e (List.mem_append_left _ he)) (fun c' hc' => hmem hc')
      (cacheSound_init hempty)
  have hres := scan_of_cacheSound hsound h0 hc fun c' hc' hkey =>
    hno c' hc' c (List.mem_filterMap.mpr ⟨_, hlast, rfl⟩) hkey
  refine ⟨hres, hres.unique ?_⟩
  have hb : c.pBegin ≠ 0 := hc.1 ▸ h0
  exact scanUncached_isLeftmost hb

/-- A process with one letter `A` in its memory, at `0x401008`. -/
def oneLetter : Loader .win32 :=
  Loader.start ⟨0x400000, 0x2000⟩ (fun a => if a = 0x401008 then 0x41 else 0) (fun _ => 0x40)
    (fun _ => none)

/-- A search for one byte. -/
def scanByte (letter : UInt8) (pBegin : Addr .win32) (size : SizeT .win32) : ScanCall .win32 where
  pattern := fun _ => letter
  mask := fun _ => 0x78
  patternLength := 1
  pBegin := pBegin
  size := size
  save := .ok

theorem scan_transparent_oneLetter :
    (scanByte 0x41 0x401000 0x10).IsResult oneLetter.mem
      (scan (run oneLetter [.scan (scanByte 0x41 0x401000 0x10), .setState skipSigValidation 1,
        .scan (scanByte 0x42 0x401000 0x10)]) (scanByte 0x41 0x401000 0x10)).address := by
  have hno : NoCollision (scanCalls [.scan (scanByte 0x41 0x401000 0x10),
      .setState skipSigValidation 1, .scan (scanByte 0x42 0x401000 0x10),
      .scan (scanByte 0x41 0x401000 0x10)]) := by
    intro c hc c' hc'
    simp only [scanCalls, List.filterMap_cons, List.filterMap_nil, List.mem_cons,
      List.not_mem_nil, or_false] at hc hc'
    rcases hc with rfl | rfl | rfl <;> rcases hc' with rfl | rfl | rfl <;> decide +kernel
  refine (scan_transparent oneLetter rfl 0x401000 0x10 (by decide) _ _ (fun e he => ?_) hno).1
  simp only [List.cons_append, List.nil_append, List.mem_cons, List.not_mem_nil, or_false] at he
  rcases he with rfl | rfl | rfl | rfl
  · exact ⟨rfl, rfl, by decide⟩
  · trivial
  · exact ⟨rfl, rfl, by decide⟩
  · exact ⟨rfl, rfl, by decide⟩

/-! ## Several ranges -/

/-- The call returns what it would return with an empty cache: the leftmost match. -/
def ScanCall.LikeFresh (c : ScanCall b) (s : Loader b) : Prop :=
  (scan s c).address = (scan { s with sigLookupCache := ∅ } c).address
    ∧ c.IsResult s.mem (scan s c).address

/--
A cached address in the range is the right answer when nothing matches before it,
and when the first match from there on is either inside the range and close enough
for the window of the second search, or outside of both.
-/
def ScanCall.EntryAgrees (c : ScanCall b) (mem : Mem b.bits) (v : Addr b) : Prop :=
  NoneBelow (c.Found mem) (c.offset v)
    ∧ ((∃ i, c.offset v ≤ i ∧ i < c.size.toNat ∧ i < c.offset v + c.patternLength.toNat
          ∧ c.Found mem i)
      ∨ ∀ i, c.offset v ≤ i → (i < c.size.toNat ∨ i < c.offset v + c.patternLength.toNat) →
          ¬ c.Found mem i)

/-- The cache says nothing, or the right thing; null is right when the range has no match. -/
def ScanCall.CacheAgrees (c : ScanCall b) (s : Loader b) : Prop :=
  ∀ v, searchSignatureCache s c.key c.pBegin c.size = some v →
    if v = 0 then NoneBelow (c.Found s.mem) c.size.toNat else c.EntryAgrees s.mem v

theorem likeFresh_iff (h0 : c.pBegin ≠ 0) : c.LikeFresh s ↔ c.IsResult s.mem (scan s c).address := by
  have hfresh := scan_miss_isResult (s := { s with sigLookupCache := ∅ }) (c := c) rfl h0
  exact ⟨fun h => h.2, fun h => ⟨h.unique hfresh, h⟩⟩

theorem isResult_of_entryAgrees (h : searchSignatureCache s c.key c.pBegin c.size = some v)
    (hs : getState s skipSigValidation = 0) (hv : v ≠ 0) (hagree : c.EntryAgrees s.mem v) :
    c.IsResult s.mem (scan s c).address := by
  obtain ⟨hbefore, hafter⟩ := hagree
  rcases (scan_window h hs hv).2 with ⟨k, hk, ha⟩ | ⟨hn, ha⟩
  · have hk1 := hk.1
    have hk' := (isFirst_shift hbefore).mp hk
    rcases hafter with ⟨i, _, hi2, _, hi4⟩ | hnone
    · -- the first match is no later than the one known to be in the range
      have hle : c.offset v + k ≤ i := by
        rcases Nat.lt_or_ge i (c.offset v + k) with hlt | hge
        · exact absurd hi4 (hk'.2.2 i hlt)
        · exact hge
      exact Or.inl ⟨_, hk'.rebound (by omega), ha⟩
    · exact absurd hk'.2.1 (hnone _ (Nat.le_add_right _ _) (Or.inr (by omega)))
  · refine Or.inr ⟨fun i hi => ?_, ha⟩
    rcases Nat.lt_or_ge i (c.offset v) with hlt | hge
    · exact hbefore i hlt
    · rcases hafter with ⟨i', h1, _, h3, h4⟩ | hnone
      · exact absurd h4 (hn.of_shift h1 h3)
      · exact hnone i hge (Or.inl hi)

theorem entryAgrees_of_isResult (h : searchSignatureCache s c.key c.pBegin c.size = some v)
    (hs : getState s skipSigValidation = 0) (hv : v ≠ 0) (h0 : c.pBegin ≠ 0)
    (hw : c.pBegin.toNat + (c.size.toNat + c.patternLength.toNat) ≤ 2 ^ b.bits)
    (hr : c.IsResult s.mem (scan s c).address) : c.EntryAgrees s.mem v := by
  obtain ⟨hlt, _, _, _⟩ := offset_of_hit h hv
  rcases (scan_window h hs hv).2 with ⟨k, hk, ha⟩ | ⟨hn, ha⟩
  · -- what the window found is an address, and the address tells where it found it
    have hk1 := hk.1
    obtain ⟨hnat, hne⟩ := range_ne_zero (i := c.offset v + k) h0 hw (by omega)
    obtain ⟨i, hi, hie⟩ := hr.resolve_right fun hn => hne (ha ▸ hn.2)
    have hi1 := hi.1
    obtain ⟨hnat', _⟩ := range_ne_zero (i := i) h0 hw (by omega)
    have hik : i = c.offset v + k := by
      rw [← hie, ha, hnat] at hnat'
      omega
    exact ⟨fun j hj => hi.2.2 j (by omega), Or.inl ⟨i, by omega, hi1, by omega, hi.2.1⟩⟩
  · have hnone := (hr.zero_iff h0 (by omega)).mp ha
    refine ⟨fun j hj => hnone j (by omega), Or.inr fun i h1 h2 => ?_⟩
    rcases h2 with h2 | h2
    · exact hnone i h2
    · exact hn.of_shift h1 h2

/--
**When a scan is not changed by the scans before it**: exactly when the cache they
left agrees with the memory.
-/
theorem scan_likeFresh (s : Loader b) (es : List (Event b)) (c : ScanCall b) (h0 : c.pBegin ≠ 0)
    (hs : getState (run s es) skipSigValidation = 0) :
    (c.CacheAgrees (run s es) → c.LikeFresh (run s es))
      ∧ (c.pBegin.toNat + c.size.toNat + c.patternLength.toNat ≤ 2 ^ b.bits →
        c.LikeFresh (run s es) → c.CacheAgrees (run s es)) := by
  generalize run s es = s at hs ⊢
  rw [likeFresh_iff h0]
  refine ⟨?_, ?_⟩
  · intro hagree
    cases h : searchSignatureCache s c.key c.pBegin c.size with
    | none => exact scan_miss_isResult h h0
    | some v =>
      have hv := hagree v h
      by_cases hz : v = 0
      · rw [if_pos hz] at hv
        subst hz
        rw [scan_hit_null h]
        exact Or.inr ⟨hv, rfl⟩
      · rw [if_neg hz] at hv
        exact isResult_of_entryAgrees h hs hz hv
  · intro hw hr v hv
    by_cases hz : v = 0
    · subst hz
      rw [if_pos rfl]
      refine (hr.zero_iff h0 (by omega)).mp ?_
      rw [scan_hit_null hv]
    · rw [if_neg hz]
      exact entryAgrees_of_isResult hv hs hz h0 (by omega) hr

theorem scan_likeFresh_oneLetter :
    (scanByte 0x41 0x401000 0x10).LikeFresh (run oneLetter [.scan (scanByte 0x42 0x401000 0x10)]) := by
  refine (scan_likeFresh oneLetter _ _ (by decide) (by decide +kernel)).1 fun v hv => ?_
  have hmiss : searchSignatureCache (run oneLetter [.scan (scanByte 0x42 0x401000 0x10)])
      (scanByte 0x41 0x401000 0x10).key 0x401000 0x10 = none := by decide +kernel
  cases hmiss.symm.trans hv

/-- **A scan of the first four bytes, without the letter, hides it from a scan of sixteen.** -/
theorem scan_hidden_by_subrange :
    (scan oneLetter (scanByte 0x41 0x401000 0x10)).address = 0x401008
      ∧ (scan (run oneLetter [.scan (scanByte 0x41 0x401000 4)])
          (scanByte 0x41 0x401000 0x10)).address = 0
      ∧ ¬ (scanByte 0x41 0x401000 0x10).LikeFresh
          (run oneLetter [.scan (scanByte 0x41 0x401000 4)]) := by
  have hzero : (scan (run oneLetter [.scan (scanByte 0x41 0x401000 4)])
      (scanByte 0x41 0x401000 0x10)).address = 0 := by decide +kernel
  refine ⟨by decide +kernel, hzero, ?_⟩
  intro h
  have hnone := (h.2.zero_iff (by decide) (by decide)).mp hzero
  exact hnone 8 (by decide) (by decide +kernel)

end CommonLoader
