import CommonLoader.Proof.Scan

/-!
# The managed scan

`MemoryProvider::ScanSignature` hands its arrays to the scan that measures the mask
itself, and that goes by the first zero byte, in the array or behind it. A length
that is not the one meant changes the key under which the result is cached, the bytes
that are compared, and the window in which a cached result is looked for again.
-/

namespace CommonLoader

open ByteMemory CText FirstMatch

variable {b : Build} {pattern mask mask' : Buf}

/-! ## The compared bytes -/

/-- An index of the signature whose byte is compared. -/
def Plain (mask : Buf) (n j : Nat) : Prop := j < n ∧ mask j ≠ wildcard

theorem matchAt_iff_plain (mem : Mem b.bits) (n : Nat) (a : Addr b) :
    MatchAt mem pattern mask n a ↔
      ∀ j, Plain mask n j → pattern j = mem (a + BitVec.ofNat _ j) := by
  unfold MatchAt AgreesAt Plain
  refine forall_congr' fun j => ?_
  rw [and_imp]
  exact imp_congr_right fun _ => or_iff_not_imp_left

theorem matchFrom_congr (pattern : Buf) {n n' : Nat} (h : ∀ j, Plain mask n j ↔ Plain mask' n' j)
    (mem : Mem b.bits) (a : Addr b) :
    MatchFrom mem pattern mask n a = MatchFrom mem pattern mask' n' a := by
  funext i
  unfold MatchFrom
  rw [eq_iff_iff, matchAt_iff_plain, matchAt_iff_plain]
  exact forall_congr' fun j => imp_congr_left (h j)

/-- Two searches for the same bytes, over the same start positions or up to a match at once. -/
theorem scanUncached_congr {s : Loader b} {n n' : SizeT b} {pBegin : Addr b} {size size' : SizeT b}
    {validate : Bool} (hmatch : MatchFrom s.mem pattern mask n.toNat pBegin
      = MatchFrom s.mem pattern mask' n'.toNat pBegin)
    (hsize : size = size' ∨ (0 < size.toNat ∧ 0 < size'.toNat
      ∧ MatchFrom s.mem pattern mask n.toNat pBegin 0)) :
    (scanUncached s pattern mask n pBegin size validate).address
        = (scanUncached s pattern mask' n' pBegin size' validate).address
      ∧ (scanUncached s pattern mask n pBegin size validate).loader
        = (scanUncached s pattern mask' n' pBegin size' validate).loader := by
  by_cases h0 : pBegin = 0
  · subst h0
    rw [scanUncached_null, scanUncached_null]
    exact ⟨rfl, rfl⟩
  · have hcases := scanUncached_cases pattern mask' s n' size' validate h0
    rw [← hmatch] at hcases
    rcases scanUncached_cases pattern mask s n size validate h0 with ⟨i, hi, ha, hl⟩ | ⟨hn, ha, hl⟩
    · rcases hcases with ⟨i', hi', ha', hl'⟩ | ⟨hn', _, _⟩
      · obtain rfl := hi.unique hi'
        exact ⟨ha.trans ha'.symm, hl.trans hl'.symm⟩
      · rcases hsize with rfl | ⟨_, hpos', hmatch0⟩
        · exact absurd hn' hi.not_noneBelow
        · exact absurd hmatch0 (hn' 0 hpos')
    · rcases hcases with ⟨i', hi', _, _⟩ | ⟨_, ha', hl'⟩
      · rcases hsize with rfl | ⟨hpos, _, hmatch0⟩
        · exact absurd hn hi'.not_noneBelow
        · exact absurd hmatch0 (hn 0 hpos)
      · exact ⟨ha.trans ha'.symm, hl.trans hl'.symm⟩

/-! ## Interchangeable masks -/

/-- In no state does it matter which of the two masks a scan of the module is given. -/
def SameScans (b : Build) (pattern mask mask' : Buf) (n n' : SizeT b) : Prop :=
  ∀ (s : Loader b) (save : SaveEnv),
    (scan s (moduleCall s pattern mask n save)).address
        = (scan s (moduleCall s pattern mask' n' save)).address
      ∧ (scan s (moduleCall s pattern mask n save)).loader
        = (scan s (moduleCall s pattern mask' n' save)).loader

/-- The same key, the same compared bytes, and a window of the same length if any is compared. -/
structure Interchangeable (b : Build) (pattern mask mask' : Buf) (n n' : SizeT b) : Prop where
  key : makePatternHash pattern mask n = makePatternHash pattern mask' n'
  plain : ∀ j, Plain mask n.toNat j ↔ Plain mask' n'.toNat j
  window : n = n' ∨ (0 < n.toNat ∧ 0 < n'.toNat ∧ ∀ j, ¬Plain mask n.toNat j)

section Masks

variable {n n' : SizeT b}

theorem Interchangeable.sameScans (h : Interchangeable b pattern mask mask' n n') :
    SameScans b pattern mask mask' n n' := by
  intro s save
  have hkey : (moduleCall s pattern mask n save).key = (moduleCall s pattern mask' n' save).key :=
    h.key
  have hmatch := matchFrom_congr pattern h.plain s.mem
  -- the key decides which of the three it is, and it is the same one
  rcases scan_cases s (moduleCall s pattern mask n save) with ⟨v, hv, hs⟩ | ⟨v, hv, hs⟩ | hv
  · rw [scan_skip hv hs, scan_skip (hkey ▸ hv) hs]
    exact ⟨rfl, rfl⟩
  · rw [scan_validate hv hs, scan_validate (hkey ▸ hv) hs]
    refine scanUncached_congr (hmatch v) ?_
    rcases h.window with he | ⟨hpos, hpos', hnone⟩
    · exact Or.inl he
    · exact Or.inr ⟨hpos, hpos', (matchAt_iff_plain ..).mpr fun j hj => absurd hj (hnone j)⟩
  · have hv' : searchSignatureCache s (moduleCall s pattern mask' n' save).key
        (moduleCall s pattern mask' n' save).pBegin (moduleCall s pattern mask' n' save).size = none :=
      hkey ▸ hv
    obtain ⟨ha, _, hl⟩ := scan_miss hv
    obtain ⟨ha', _, hl'⟩ := scan_miss hv'
    have hcongr : ∀ size : SizeT b,
        (scanUncached s pattern mask n s.moduleInfo.base size true).address
            = (scanUncached s pattern mask' n' s.moduleInfo.base size true).address
          ∧ (scanUncached s pattern mask n s.moduleInfo.base size true).loader
            = (scanUncached s pattern mask' n' s.moduleInfo.base size true).loader := fun _ =>
      scanUncached_congr (hmatch _) (Or.inl rfl)
    obtain ⟨haddr, hload⟩ := hcongr (moduleCall s pattern mask n save).size
    have haddr' := ha.trans (haddr.trans ha'.symm)
    refine ⟨haddr', ?_⟩
    rw [hl, hl', haddr', hkey]
    exact congrArg (fun l => commitSignatureCache l _ _ _) hload

/-! ## The states that tell two masks apart -/

/-- A module of one byte at address one, and an empty cache. -/
def oneStart (mem : Mem b.bits) : Loader b :=
  Loader.start ⟨1, 1⟩ mem (fun _ => 0) (fun _ => none)

theorem one_ne_zero_addr : (1 : Addr b) ≠ 0 := by cases b <;> decide

theorem oneStart_size (mem : Mem b.bits) (save : SaveEnv) :
    (moduleCall (oneStart mem) pattern mask n save).size.toNat = 1 := by cases b <;> rfl

/-- A scan of it gives the module or null, by whether the signature is there. -/
theorem scan_oneStart (mem : Mem b.bits) (save : SaveEnv) :
    (scan (oneStart mem) (moduleCall (oneStart mem) pattern mask n save)).address = 1 ↔
      MatchAt mem pattern mask n.toNat 1 := by
  have hmiss := scan_miss (s := oneStart mem)
    (c := moduleCall (oneStart mem) pattern mask n save) rfl
  have hfirst : MatchFrom mem pattern mask n.toNat 1 0 ↔ MatchAt mem pattern mask n.toNat 1 := by
    unfold MatchFrom
    rw [BitVec.add_zero]
  rw [hmiss.1, ← hfirst]
  rcases scanUncached_cases pattern mask (oneStart mem) n
    (moduleCall (oneStart mem) pattern mask n save).size true (one_ne_zero_addr (b := b)) with
    ⟨i, hi, ha, _⟩ | ⟨hn, ha, _⟩
  · rw [oneStart_size] at hi
    obtain rfl : i = 0 := Nat.lt_one_iff.mp hi.1
    refine iff_of_true (ha.trans ?_) hi.2.1
    exact BitVec.add_zero 1
  · rw [oneStart_size] at hn
    refine iff_of_false ?_ (hn 0 Nat.one_pos)
    intro h
    exact one_ne_zero_addr (h.symm.trans ha)

/-- Where nothing is cached, the key of a scan becomes visible. -/
theorem SameScans.key (h : SameScans b pattern mask mask' n n') :
    makePatternHash pattern mask n = makePatternHash pattern mask' n' := by
  have hcache := congrArg Loader.sigLookupCache (h (oneStart fun _ => 0) .ok).2
  have hleft := scan_miss (s := oneStart fun _ => 0)
    (c := moduleCall (oneStart fun _ => 0) pattern mask n .ok) rfl
  have hright := scan_miss (s := oneStart fun _ => 0)
    (c := moduleCall (oneStart fun _ => 0) pattern mask' n' .ok) rfl
  rw [hleft.2.2, hright.2.2, commitSignatureCache_cache, commitSignatureCache_cache,
    scanUncached_mem.2, scanUncached_mem.2] at hcache
  -- each left an entry under its own key, and nothing else
  by_contra hne
  have hlookup := congrArg (AList.lookup (makePatternHash pattern mask n)) hcache
  have hnone : ∀ a : Addr b, AList.lookup (makePatternHash pattern mask n)
      ((oneStart (b := b) fun _ => 0).sigLookupCache.insert (makePatternHash pattern mask' n') a)
        = none := fun _ => (AList.lookup_insert_ne hne).trans (AList.lookup_empty _)
  exact absurd ((AList.lookup_insert _).symm.trans (hlookup.trans (hnone _))) (by simp)

/-- One changed byte is seen by those that compare it. -/
theorem SameScans.plain_of (h : SameScans b pattern mask mask' n n') {j : Nat}
    (hj : Plain mask n.toNat j) : Plain mask' n'.toNat j := by
  by_contra hno
  have hlt : ∀ {m : SizeT b} {mask : Buf} {k : Nat}, Plain mask m.toNat k → k < 2 ^ b.bits :=
    fun hk => Nat.lt_trans hk.1 (BitVec.isLt _)
  let mem : Mem b.bits := fun x => if (x - 1).toNat = j then pattern j + 1 else pattern (x - 1).toNat
  have hmem : ∀ k, k < 2 ^ b.bits →
      mem (1 + BitVec.ofNat _ k) = if k = j then pattern j + 1 else pattern k := by
    intro k hk
    change (if (1 + BitVec.ofNat b.bits k - 1).toNat = j then _ else _) = _
    rw [toNat_add_sub hk]
  have hright : MatchAt mem pattern mask' n'.toNat 1 := by
    rw [matchAt_iff_plain]
    intro k hk
    rw [hmem k (hlt hk), if_neg fun he : k = j => hno (he ▸ hk)]
  have hleft := (matchAt_iff_plain _ _ _).mp ((scan_oneStart mem .ok).mp
    ((h (oneStart mem) .ok).1.trans ((scan_oneStart mem .ok).mpr hright))) j hj
  rw [hmem j (hlt hj), if_pos rfl] at hleft
  exact absurd hleft (by simp)

/-- The same module, whose byte is cached as the result for a key. -/
def cachedOne (mem : Mem b.bits) (key : SignatureKey) : Loader b :=
  { oneStart mem with sigLookupCache := (∅ : UnorderedMap SignatureKey (Addr b)).insert key 1 }

/-- A scan with that key looks for the signature again, from there on. -/
theorem scan_cachedOne (mem : Mem b.bits) {key : SignatureKey} (save : SaveEnv)
    (hkey : makePatternHash pattern mask n = key) :
    (∃ i, IsFirst (MatchFrom mem pattern mask n.toNat 1) n.toNat i
        ∧ (scan (cachedOne mem key) (moduleCall (cachedOne mem key) pattern mask n save)).address
          = 1 + BitVec.ofNat _ i)
      ∨ (NoneBelow (MatchFrom mem pattern mask n.toNat 1) n.toNat
        ∧ (scan (cachedOne mem key) (moduleCall (cachedOne mem key) pattern mask n save)).address
          = 0) := by
  have hhit : searchSignatureCache (cachedOne mem key)
      (moduleCall (cachedOne mem key) pattern mask n save).key
      (moduleCall (cachedOne mem key) pattern mask n save).pBegin
      (moduleCall (cachedOne mem key) pattern mask n save).size = some 1 := by
    refine searchSignatureCache_eq_some.mpr ⟨?_, Or.inl ⟨BitVec.le_refl _, ?_⟩⟩
    · subst hkey
      exact AList.lookup_insert _
    · change (1 : Addr b) < 1 + (1 : BitVec 32).setWidth _
      cases b <;> decide
  have hflag : getState (cachedOne mem key) skipSigValidation = 0 := by cases b <;> rfl
  rw [scan_validate hhit hflag]
  rcases scanUncached_cases pattern mask (cachedOne mem key) n n false
    (one_ne_zero_addr (b := b)) with ⟨i, hi, ha, _⟩ | ⟨hn, ha, _⟩
  · exact Or.inl ⟨i, hi, ha⟩
  · exact Or.inr ⟨hn, ha⟩

/-- What the longer window finds, the shorter one has to find as well. -/
theorem SameScans.isFirst_lt (h : SameScans b pattern mask mask' n n')
    (hplain : ∀ j, Plain mask n.toNat j ↔ Plain mask' n'.toNat j) {mem : Mem b.bits} {i : Nat}
    (hi : i < 2 ^ 31) (hfirst : IsFirst (MatchFrom mem pattern mask n.toNat 1) n'.toNat i) :
    i < n.toNat := by
  have hbits := b.pow_bits
  have hne : (1 : Addr b) + BitVec.ofNat _ i ≠ 0 := by
    intro he
    have hsum := congrArg BitVec.toNat he
    rw [BitVec.toNat_add, BitVec.toNat_ofNat, Nat.add_mod_mod,
      show (1 : Addr b).toNat = 1 by cases b <;> rfl, Nat.mod_eq_of_lt (by omega)] at hsum
    have hzero : (0 : Addr b).toNat = 0 := by cases b <;> rfl
    omega
  have hsame := (h (cachedOne mem (makePatternHash pattern mask' n')) .ok).1
  rcases scan_cachedOne mem .ok h.key with ⟨j, hj, _⟩ | ⟨_, ha⟩
  · obtain rfl := hj.unique hfirst
    exact hj.1
  · rw [matchFrom_congr pattern hplain] at hfirst
    have hkey : makePatternHash pattern mask' n' = _ := rfl
    rcases scan_cachedOne mem .ok hkey with ⟨j, hj, ha'⟩ | ⟨hn', _⟩
    · obtain rfl := hj.unique hfirst
      exact absurd (ha'.symm.trans (hsame.symm.trans ha)) hne
    · exact absurd hn' hfirst.not_noneBelow

/-- The signature `n` bytes on, and before it nothing that begins like it. -/
theorem exists_mem_isFirst (pattern mask : Buf) {n limit : Nat} (hlt : n < limit)
    (hsmall : n < 2 ^ 31) (hany : ∃ j, j < n ∧ Plain mask n j) :
    ∃ mem : Mem b.bits, IsFirst (MatchFrom mem pattern mask n 1) limit n := by
  have hbits := b.pow_bits
  obtain ⟨j, hjn, hj, hleast⟩ := exists_isFirst hany
  let mem : Mem b.bits := fun x =>
    if (x - 1).toNat < n + j then pattern j + 1 else pattern ((x - 1).toNat - n)
  have hmem : ∀ i k, i ≤ n → k < n →
      mem (1 + BitVec.ofNat _ i + BitVec.ofNat _ k)
        = if i + k < n + j then pattern j + 1 else pattern (i + k - n) := by
    intro i k hi hk
    change (if (1 + BitVec.ofNat b.bits i + BitVec.ofNat b.bits k - 1).toNat < _ then _ else _) = _
    rw [add_add_ofNat, toNat_add_sub (by omega)]
  refine ⟨mem, hlt, ?_, ?_⟩
  · refine (matchAt_iff_plain ..).mpr fun k hk => ?_
    have hjk : j ≤ k := Nat.le_of_not_lt fun hkj => hleast k hkj hk
    rw [hmem _ k (Nat.le_refl _) hk.1, if_neg (by omega), Nat.add_sub_cancel_left]
  · intro i hi hmatch
    have hbyte := (matchAt_iff_plain ..).mp hmatch j hj
    rw [hmem i j (Nat.le_of_lt hi) hjn, if_pos (by omega)] at hbyte
    exact absurd hbyte (by simp)

/-- So a shorter window is possible only where nothing is compared. -/
theorem SameScans.window_of_lt (h : SameScans b pattern mask mask' n n')
    (hplain : ∀ j, Plain mask n.toNat j ↔ Plain mask' n'.toNat j) (hlt : n.toNat < n'.toNat)
    (hsmall : n.toNat < 2 ^ 31) : 0 < n.toNat ∧ ∀ j, ¬Plain mask n.toNat j := by
  have hnone : ∀ j, ¬Plain mask n.toNat j := by
    intro j hj
    obtain ⟨mem, hfirst⟩ := exists_mem_isFirst (b := b) pattern mask hlt hsmall ⟨j, hj.1, hj⟩
    exact absurd (h.isFirst_lt hplain hsmall hfirst) (Nat.lt_irrefl _)
  have hfirst : IsFirst (MatchFrom (fun _ => 0) pattern mask n.toNat (1 : Addr b)) n'.toNat 0 :=
    ⟨by omega, (matchAt_iff_plain ..).mpr fun j hj => absurd hj (hnone j),
      fun i hi => absurd hi (Nat.not_lt_zero i)⟩
  exact ⟨h.isFirst_lt hplain (by decide) hfirst, hnone⟩

theorem SameScans.symm (h : SameScans b pattern mask mask' n n') :
    SameScans b pattern mask' mask n' n :=
  fun s save => ⟨(h s save).1.symm, (h s save).2.symm⟩

/-- **When two masks are interchangeable** in every state. -/
theorem sameScans_iff (hsmall : n'.toNat < 2 ^ 31) :
    SameScans b pattern mask mask' n n' ↔ Interchangeable b pattern mask mask' n n' := by
  refine ⟨?_, Interchangeable.sameScans⟩
  intro h
  have hplain : ∀ j, Plain mask n.toNat j ↔ Plain mask' n'.toNat j := fun _ =>
    ⟨h.plain_of, h.symm.plain_of⟩
  refine ⟨h.key, hplain, ?_⟩
  rcases Nat.lt_trichotomy n.toNat n'.toNat with hlt | heq | hgt
  · obtain ⟨hpos, hnone⟩ := h.window_of_lt hplain hlt (by omega)
    exact Or.inr ⟨hpos, by omega, hnone⟩
  · exact Or.inl (BitVec.eq_of_toNat_eq heq)
  · obtain ⟨hpos, hnone⟩ := h.symm.window_of_lt (fun j => (hplain j).symm) hgt hsmall
    exact Or.inr ⟨by omega, hpos, fun j hj => hnone j ((hplain j).mp hj)⟩

end Masks

/-! ## Arrays and strings -/

theorem ofArray_lt {elements : Bytes} {j : Nat} (beyond : Buf) (h : j < elements.length) :
    Buf.ofArray elements beyond j = elements.get ⟨j, h⟩ := by
  unfold Buf.ofArray
  rw [List.getElem?_eq_getElem h]
  rfl

theorem ofArray_length (elements : Bytes) (beyond : Buf) :
    Buf.ofArray elements beyond elements.length = beyond elements.length := by
  unfold Buf.ofArray
  rw [List.getElem?_eq_none (Nat.le_refl _)]
  rfl

theorem strlen_eq_some {p : Buf} {n : SizeT b} :
    strlen b p = some n ↔ IsFirst (fun i => p i = 0) (2 ^ b.bits) n.toNat := by
  have hsearch : ∀ i, search (fun i => p i == 0) (2 ^ b.bits) 0 = some i ↔
      IsFirst (fun i => p i = 0) (2 ^ b.bits) i := fun _ => search_isFirst fun _ => beq_iff_eq
  unfold strlen
  rw [Option.map_eq_some_iff]
  refine ⟨?_, ?_⟩
  · rintro ⟨i, hi, rfl⟩
    rw [BitVec.toNat_ofNat, Nat.mod_eq_of_lt ((hsearch i).mp hi).1]
    exact (hsearch i).mp hi
  · intro h
    exact ⟨n.toNat, (hsearch _).mpr h, by rw [BitVec.ofNat_toNat, BitVec.setWidth_eq]⟩

theorem makePatternHash_congr {n : SizeT b} (h : ∀ j, j < n.toNat → mask j = mask' j) :
    makePatternHash pattern mask n = makePatternHash pattern mask' n := by
  have htake : mask.take n.toNat = mask'.take n.toNat :=
    List.map_congr_left fun j hj => h j (List.mem_range.mp hj)
  unfold makePatternHash
  rw [htake]

/-- What a native caller has for the characters of a mask; for ASCII there is no choice. -/
structure CharSet where
  char : UInt16 → UInt8
  ascii : ∀ c, c < 0x80 → char c = c.toUInt8

/-- A pattern and a mask of the same length, which is an `Int32` and not zero. -/
structure ManagedSignature where
  pattern : Bytes
  mask : WStr
  nonempty : 0 < pattern.length
  length : mask.length = pattern.length
  int32 : pattern.length < 2 ^ 31

namespace ManagedSignature

variable (sig : ManagedSignature) (set : CharSet) (beyondPattern beyondMask : Buf)

/-- The pattern as the scan gets it. -/
def patternBuf : Buf := Buf.ofArray sig.pattern beyondPattern

/-- The mask as the scan gets it. -/
def maskBuf : Buf := Buf.ofArray (asciiGetBytes sig.mask) beyondMask

/-- The mask as a native caller has it. -/
def nativeMask : Buf := Buf.ofArray (sig.mask.map set.char) fun _ => 0

/-- The length a native caller gives. -/
def patternLength (b : Build) : SizeT b := BitVec.ofNat _ sig.pattern.length

theorem patternLength_toNat : (sig.patternLength b).toNat = sig.pattern.length := by
  have hbits := b.pow_bits
  have hint := sig.int32
  unfold patternLength
  rw [BitVec.toNat_ofNat, Nat.mod_eq_of_lt (by omega)]

/-- One character, as the array has it and as the native caller has it. -/
theorem masks_get {j : Nat} (hj : j < sig.mask.length) :
    sig.maskBuf beyondMask j
        = (if sig.mask.get ⟨j, hj⟩ < 0x80 then (sig.mask.get ⟨j, hj⟩).toUInt8 else 0x3F)
      ∧ sig.nativeMask set j = set.char (sig.mask.get ⟨j, hj⟩) := by
  unfold maskBuf nativeMask asciiGetBytes
  rw [ofArray_lt _ (by rw [List.length_map]; exact hj),
    ofArray_lt _ (by rw [List.length_map]; exact hj)]
  simp

/-- The two differ only where the native caller has no question mark outside ASCII. -/
theorem masks_agree (hset : ∀ c ∈ sig.mask, 0x80 ≤ c → set.char c = wildcard) {j : Nat}
    (hj : j < sig.pattern.length) : sig.maskBuf beyondMask j = sig.nativeMask set j := by
  have hmask : j < sig.mask.length := by rw [sig.length]; exact hj
  obtain ⟨hm, hn⟩ := sig.masks_get set beyondMask hmask
  rw [hm, hn]
  split
  · rename_i hascii
    exact (set.ascii _ hascii).symm
  · rename_i hwide
    exact (hset _ (List.get_mem _ _) (UInt16.not_lt.mp hwide)).symm

/-- A zero in the array is a zero in the mask, and a native caller has it too. -/
theorem maskBuf_zero {j : Nat} (hj : j < sig.mask.length) :
    sig.maskBuf beyondMask j = 0 ↔ sig.mask.get ⟨j, hj⟩ = 0 := by
  rw [(sig.masks_get ⟨fun c => c.toUInt8, fun _ _ => rfl⟩ beyondMask hj).1]
  split
  · rename_i hascii
    have hlt : (sig.mask.get ⟨j, hj⟩).toNat < 0x80 := hascii
    rw [← UInt8.toNat_inj, ← UInt16.toNat_inj, UInt16.toNat_toUInt8, Nat.mod_eq_of_lt (by omega)]
    rfl
  · rename_i hwide
    refine iff_of_false (by decide) ?_
    intro hzero
    rw [hzero] at hwide
    exact hwide (by decide)

/-- What `ScanSignature` comes to, once the mask has been measured. -/
theorem scanSignature_eq (s : Loader b) (save : SaveEnv) :
    MemoryProvider.scanSignature s sig.pattern sig.mask beyondPattern beyondMask save
      = (strlen b (sig.maskBuf beyondMask)).map fun n =>
          scan s (moduleCall s (sig.patternBuf beyondPattern) (sig.maskBuf beyondMask) n save) := by
  unfold MemoryProvider.scanSignature
  rw [if_neg (not_not_intro sig.length.symm),
    if_neg fun hnil => absurd sig.nonempty (by rw [hnil]; exact Nat.lt_irrefl 0)]
  rfl

/-! ## The two scans -/

/-- In every state the managed scan does what the native one does with exactly these bytes. -/
def Agrees (b : Build) : Prop :=
  ∀ (s : Loader b) (save : SaveEnv), ∃ r,
    MemoryProvider.scanSignature s sig.pattern sig.mask beyondPattern beyondMask save = some r
      ∧ r.address = (scan s (moduleCall s (sig.patternBuf beyondPattern) (sig.nativeMask set)
          (sig.patternLength b) save)).address
      ∧ r.loader = (scan s (moduleCall s (sig.patternBuf beyondPattern) (sig.nativeMask set)
          (sig.patternLength b) save)).loader

/-- The mask ends where its array does: no zero in it, and one right behind it. -/
def Terminated : Prop := 0 ∉ sig.mask ∧ beyondMask sig.pattern.length = 0

/-- The array and what follows it up to a zero are all wildcards, and both hashes collide. -/
def Collides (b : Build) : Prop :=
  ∃ n : SizeT b, strlen b (sig.maskBuf beyondMask) = some n ∧ sig.pattern.length < n.toNat
    ∧ (∀ j, j < n.toNat → sig.maskBuf beyondMask j = wildcard)
    ∧ makePatternHash (sig.patternBuf beyondPattern) (sig.maskBuf beyondMask) n
      = makePatternHash (sig.patternBuf beyondPattern) (sig.maskBuf beyondMask) (sig.patternLength b)

theorem maskBuf_length : sig.maskBuf beyondMask sig.pattern.length = beyondMask sig.pattern.length := by
  have hlen : (asciiGetBytes sig.mask).length = sig.pattern.length := by
    unfold asciiGetBytes
    rw [List.length_map, sig.length]
  unfold maskBuf
  rw [← hlen, ofArray_length]

theorem strlen_eq_patternLength :
    strlen b (sig.maskBuf beyondMask) = some (sig.patternLength b) ↔ sig.Terminated beyondMask := by
  have hlt := (sig.patternLength b).isLt
  rw [patternLength_toNat] at hlt
  rw [strlen_eq_some, patternLength_toNat]
  unfold IsFirst Terminated
  dsimp only
  rw [maskBuf_length]
  refine ⟨?_, ?_⟩
  · rintro ⟨_, hzero, hfirst⟩
    refine ⟨?_, hzero⟩
    intro hmem
    obtain ⟨⟨j, hj⟩, hget⟩ := List.get_of_mem hmem
    exact hfirst j (by rw [← sig.length]; exact hj) ((sig.maskBuf_zero beyondMask hj).mpr hget)
  · rintro ⟨hmem, hzero⟩
    refine ⟨hlt, hzero, ?_⟩
    intro j hj hjzero
    have hmask : j < sig.mask.length := by rw [sig.length]; exact hj
    exact hmem ((sig.maskBuf_zero beyondMask hmask).mp hjzero ▸ List.get_mem _ _)

/-- A length as it was measured is no shorter than the mask, unless the scans differ. -/
theorem length_le_of_plain {n : SizeT b} (hn : strlen b (sig.maskBuf beyondMask) = some n)
    (hplain : ∀ j, Plain (sig.maskBuf beyondMask) n.toNat j
      ↔ Plain (sig.nativeMask set) sig.pattern.length j) : sig.pattern.length ≤ n.toNat := by
  obtain ⟨_, hzero, _⟩ := strlen_eq_some.mp hn
  refine Nat.le_of_not_lt fun hlt => ?_
  have hmask : n.toNat < sig.mask.length := by rw [sig.length]; exact hlt
  -- a native caller compares the byte that ended the mask
  have hnative : sig.nativeMask set n.toNat = 0 := by
    rw [(sig.masks_get set beyondMask hmask).2, (sig.maskBuf_zero beyondMask hmask).mp hzero]
    exact set.ascii 0 (by decide)
  have hcompared : Plain (sig.nativeMask set) sig.pattern.length n.toNat := by
    refine ⟨hlt, ?_⟩
    rw [hnative]
    decide
  exact absurd ((hplain _).mpr hcompared).1 (Nat.lt_irrefl _)

/-- The managed scan agrees if the mask is measured, and as measured stands in for the native one. -/
theorem agrees_iff :
    sig.Agrees set beyondPattern beyondMask b ↔
      ∃ n, strlen b (sig.maskBuf beyondMask) = some n
        ∧ Interchangeable b (sig.patternBuf beyondPattern) (sig.maskBuf beyondMask)
          (sig.nativeMask set) n (sig.patternLength b) := by
  have hsmall : (sig.patternLength b).toNat < 2 ^ 31 := by
    rw [patternLength_toNat]
    exact sig.int32
  refine ⟨?_, ?_⟩
  · intro h
    obtain ⟨n, hn⟩ : ∃ n, strlen b (sig.maskBuf beyondMask) = some n := by
      obtain ⟨r, hr, _⟩ := h (oneStart fun _ => 0) .ok
      rw [scanSignature_eq] at hr
      obtain ⟨n, hn, _⟩ := Option.map_eq_some_iff.mp hr
      exact ⟨n, hn⟩
    refine ⟨n, hn, (sameScans_iff hsmall).mp ?_⟩
    intro s save
    obtain ⟨r, hr, hagree⟩ := h s save
    rw [scanSignature_eq, hn] at hr
    obtain rfl := Option.some.inj hr
    exact hagree
  · rintro ⟨n, hn, hinter⟩ s save
    exact ⟨_, by rw [scanSignature_eq, hn]; rfl, hinter.sameScans s save⟩

/-- What the array writes as a wildcard is one for the native caller too. -/
theorem wildcard_of_plain {n : SizeT b}
    (hplain : ∀ j, Plain (sig.maskBuf beyondMask) n.toNat j
      ↔ Plain (sig.nativeMask set) sig.pattern.length j) :
    ∀ c ∈ sig.mask, 0x80 ≤ c → set.char c = wildcard := by
  intro c hc hwide
  obtain ⟨⟨j, hj⟩, rfl⟩ := List.get_of_mem hc
  have hlt : j < sig.pattern.length := by rw [← sig.length]; exact hj
  obtain ⟨hm, hn⟩ := sig.masks_get set beyondMask hj
  rw [if_neg (UInt16.not_lt.mpr hwide)] at hm
  by_contra hne
  exact ((hplain j).mpr ⟨hlt, hn ▸ hne⟩).2 hm

section CharSet

variable (hset : ∀ c ∈ sig.mask, 0x80 ≤ c → set.char c = wildcard)

include hset

theorem masks_key :
    makePatternHash (sig.patternBuf beyondPattern) (sig.maskBuf beyondMask) (sig.patternLength b)
      = makePatternHash (sig.patternBuf beyondPattern) (sig.nativeMask set)
        (sig.patternLength b) := by
  refine makePatternHash_congr fun j hj => sig.masks_agree set beyondMask hset ?_
  rwa [patternLength_toNat] at hj

theorem interchangeable_of_terminated :
    Interchangeable b (sig.patternBuf beyondPattern) (sig.maskBuf beyondMask) (sig.nativeMask set)
      (sig.patternLength b) (sig.patternLength b) := by
  refine ⟨sig.masks_key set beyondPattern beyondMask hset, ?_, Or.inl rfl⟩
  intro j
  rw [patternLength_toNat]
  exact and_congr_right fun hj => by rw [sig.masks_agree set beyondMask hset hj]

theorem interchangeable_of_collides {n : SizeT b} (hlt : sig.pattern.length < n.toNat)
    (hwild : ∀ j, j < n.toNat → sig.maskBuf beyondMask j = wildcard)
    (hcollide : makePatternHash (sig.patternBuf beyondPattern) (sig.maskBuf beyondMask) n
      = makePatternHash (sig.patternBuf beyondPattern) (sig.maskBuf beyondMask)
        (sig.patternLength b)) :
    Interchangeable b (sig.patternBuf beyondPattern) (sig.maskBuf beyondMask) (sig.nativeMask set)
      n (sig.patternLength b) := by
  have hnone : ∀ j, ¬Plain (sig.maskBuf beyondMask) n.toNat j := fun j hj => hj.2 (hwild j hj.1)
  have hnone' : ∀ j, ¬Plain (sig.nativeMask set) (sig.patternLength b).toNat j := by
    rintro j ⟨hj, hne⟩
    rw [patternLength_toNat] at hj
    rw [← sig.masks_agree set beyondMask hset hj] at hne
    exact hne (hwild j (Nat.lt_trans hj hlt))
  refine ⟨hcollide.trans (sig.masks_key set beyondPattern beyondMask hset),
    fun j => iff_of_false (hnone j) (hnone' j), Or.inr ⟨by omega, ?_, hnone⟩⟩
  rw [patternLength_toNat]
  exact sig.nonempty

/-- A mask that is measured as too long compares nothing, and has the key of the right one. -/
theorem collides_of_interchangeable {n : SizeT b} (hn : strlen b (sig.maskBuf beyondMask) = some n)
    (hlt : sig.pattern.length < n.toNat)
    (h : Interchangeable b (sig.patternBuf beyondPattern) (sig.maskBuf beyondMask)
      (sig.nativeMask set) n (sig.patternLength b)) : sig.Collides beyondPattern beyondMask b := by
  have hnone : ∀ j, ¬Plain (sig.maskBuf beyondMask) n.toNat j := by
    rcases h.window with rfl | ⟨_, _, hnone⟩
    · rw [patternLength_toNat] at hlt
      exact absurd hlt (Nat.lt_irrefl _)
    · exact hnone
  refine ⟨n, hn, hlt, ?_, h.key.trans (sig.masks_key set beyondPattern beyondMask hset).symm⟩
  intro j hj
  exact Decidable.not_not.mp fun hne => hnone j ⟨hj, hne⟩

end CharSet

/--
**When the managed scan agrees with the native one**: when a zero byte follows the array
of the mask and none is in it, and a native caller writes a question mark for what is not
ASCII. Past that only a collision of both hashes helps, and only if nothing is compared.
-/
theorem managedScan_agrees :
    sig.Agrees set beyondPattern beyondMask b ↔
      (∀ c ∈ sig.mask, 0x80 ≤ c → set.char c = wildcard)
        ∧ (sig.Terminated beyondMask ∨ sig.Collides beyondPattern beyondMask b) := by
  rw [agrees_iff]
  refine ⟨?_, ?_⟩
  · rintro ⟨n, hn, hinter⟩
    have hplain := hinter.plain
    rw [patternLength_toNat] at hplain
    have hle := sig.length_le_of_plain set beyondMask hn hplain
    have hset := sig.wildcard_of_plain set beyondMask hplain
    refine ⟨hset, ?_⟩
    rcases Nat.eq_or_lt_of_le hle with heq | hlt
    · obtain rfl : n = sig.patternLength b :=
        BitVec.eq_of_toNat_eq (heq.symm.trans sig.patternLength_toNat.symm)
      exact Or.inl ((sig.strlen_eq_patternLength beyondMask).mp hn)
    · exact Or.inr (sig.collides_of_interchangeable set beyondPattern beyondMask hset hn hlt hinter)
  · rintro ⟨hset, hterm | ⟨n, hn, hlt, hwild, hcollide⟩⟩
    · exact ⟨_, (sig.strlen_eq_patternLength beyondMask).mpr hterm,
        sig.interchangeable_of_terminated set beyondPattern beyondMask hset⟩
    · exact ⟨n, hn, sig.interchangeable_of_collides set beyondPattern beyondMask hset hlt hwild
        hcollide⟩

end ManagedSignature

/-- One letter. -/
def oneLetterManaged : ManagedSignature :=
  ⟨[0x61], [0x78], by decide, by decide, by decide⟩

/-- The characters of Latin-1. -/
def latin1 : CharSet := ⟨UInt16.toUInt8, fun _ _ => rfl⟩

/-- A byte behind the mask that is no terminator. -/
def byteBehind : Buf := fun i => if i = 1 then 0x79 else 0

/-- **The letter is in the module, and the managed scan looks for two.** -/
theorem managedScan_overruns :
    ¬ oneLetterManaged.Agrees latin1 (fun _ => 7) byteBehind .win32 := by
  intro h
  obtain ⟨r, hr, ha, _⟩ := h (oneStart fun x => if x = 1 then 0x61 else 0) .ok
  have hmanaged : (MemoryProvider.scanSignature
      (oneStart (b := .win32) fun x => if x = 1 then 0x61 else 0) oneLetterManaged.pattern
      oneLetterManaged.mask (fun _ => 7) byteBehind .ok).map ScanResult.address = some 0 := by
    decide +kernel
  rw [hr, Option.map_some, ha] at hmanaged
  exact absurd (Option.some.inj hmanaged) (by decide +kernel)

end CommonLoader
