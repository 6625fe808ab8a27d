import CommonLoader.Proof.Scan

/-!
# Does a scan stay inside its range?

The search bounds the start position by the size of the range and the index by
the length of the signature, each on its own. A start position near the end of the
range is compared with bytes behind it, unless some byte inside the range already
disagrees. `EndsInside` is that condition on the memory, and `endsInside_iff` says
that it is exact, for the reads and for the match together.
-/

namespace CommonLoader

open ByteMemory FirstMatch

variable {b : Build}

/--
The search from `pBegin` over `starts` positions reaches none at which the
signature sticks out of the first `limit` bytes, unless a byte among these
disagrees.
-/
def EndsInside (mem : Mem b.bits) (pattern mask : Buf) (n : Nat) (pBegin : Addr b)
    (starts limit : Nat) : Prop :=
  ∀ i, i < starts → (∀ k, k < i → ¬ MatchFrom mem pattern mask n pBegin k) → limit < i + n →
    ∃ j, j < n ∧ i + j < limit ∧ ¬ AgreesAt mem pattern mask (pBegin + BitVec.ofNat _ i) j

instance (mem : Mem b.bits) (pattern mask : Buf) (n : Nat) (pBegin : Addr b) (starts limit : Nat) :
    Decidable (EndsInside mem pattern mask n pBegin starts limit) :=
  inferInstanceAs (Decidable (∀ i, i < starts → _))

section Search

variable {mem : Mem b.bits} {pattern mask : Buf} {n starts limit : Nat} {pBegin : Addr b}

theorem EndsInside.reads (h : EndsInside mem pattern mask n pBegin starts limit) {i j : Nat}
    (hr : Reads mem pattern mask n pBegin starts i j) : i + j < limit := by
  have hidx := hr.index
  by_cases hlt : i + j < limit
  · exact hlt
  · obtain ⟨j', _, hj', hno⟩ := h i hr.inside hr.first (by omega)
    exact absurd (hr.agrees j' (by omega)) hno

theorem EndsInside.first (h : EndsInside mem pattern mask n pBegin starts limit) {i : Nat}
    (hi : IsFirst (MatchFrom mem pattern mask n pBegin) starts i) : i + n ≤ limit := by
  by_cases hle : i + n ≤ limit
  · exact hle
  · obtain ⟨j, hj, _, hno⟩ := h i hi.1 hi.2.2 (by omega)
    exact absurd (hi.2.1 j hj) hno

/-- A start position without a match ends its comparison at a byte it reads. -/
theorem reads_of_not_match {i : Nat} (hi : i < starts)
    (hbefore : ∀ k, k ≤ i → ¬ MatchFrom mem pattern mask n pBegin k) :
    ∃ j, Reads mem pattern mask n pBegin starts i j
      ∧ ¬ AgreesAt mem pattern mask (pBegin + BitVec.ofNat _ i) j := by
  have hm := hbefore i (Nat.le_refl _)
  unfold MatchFrom MatchAt at hm
  have hex : ∃ j, j < n ∧ ¬ AgreesAt mem pattern mask (pBegin + BitVec.ofNat _ i) j := by
    obtain ⟨j, hj⟩ := Classical.not_forall.mp hm
    exact ⟨j, Classical.not_imp.mp hj⟩
  obtain ⟨j, hlt, hno, hagrees⟩ := exists_isFirst hex
  exact ⟨j, ⟨hi, fun k hk => hbefore k (by omega), hlt, fun hw => hno (Or.inl hw),
    fun k hk => Decidable.not_not.mp (hagrees k hk)⟩, hno⟩

/-- **The condition is exact** for what a search reads and what it finds. -/
theorem endsInside_iff : EndsInside mem pattern mask n pBegin starts limit ↔
    (∀ i j, Reads mem pattern mask n pBegin starts i j → i + j < limit)
      ∧ ∀ i, IsFirst (MatchFrom mem pattern mask n pBegin) starts i → i + n ≤ limit := by
  refine ⟨fun h => ⟨fun i j hr => h.reads hr, fun i hi => h.first hi⟩, fun ⟨hreads, hfirst⟩ => ?_⟩
  intro i hi hbefore hout
  by_cases hm : MatchFrom mem pattern mask n pBegin i
  · have := hfirst i ⟨hi, hm, hbefore⟩
    omega
  · obtain ⟨j, hr, hno⟩ := reads_of_not_match hi fun k hk => by
      rcases Nat.eq_or_lt_of_le hk with he | hlt
      · exact he ▸ hm
      · exact hbefore k hlt
    exact ⟨j, hr.index, hreads i j hr, hno⟩

end Search

/-! ## The call -/

/-- Every byte compared is in the range of the call, and a match is wholly in it. -/
def ScanCall.StaysInside (c : ScanCall b) (s : Loader b) : Prop :=
  (∀ x ∈ (scan s c).reads, c.pBegin.toNat ≤ x ∧ x < c.pBegin.toNat + c.size.toNat)
    ∧ ((scan s c).address ≠ 0 →
        (scan s c).address.toNat + c.patternLength.toNat ≤ c.pBegin.toNat + c.size.toNat)

/--
What keeps a call inside its range. A cached address is taken as it is or
searched from, over as many positions as the signature is long.
-/
def ScanCall.EndsInside (c : ScanCall b) (s : Loader b) : Prop :=
  match searchSignatureCache s c.key c.pBegin c.size with
  | none => CommonLoader.EndsInside s.mem c.pattern c.mask c.patternLength.toNat c.pBegin
      c.size.toNat c.size.toNat
  | some v => v = 0 ∨
      if getState s skipSigValidation ≠ 0 then c.offset v + c.patternLength.toNat ≤ c.size.toNat
      else CommonLoader.EndsInside s.mem c.pattern c.mask c.patternLength.toNat v
        c.patternLength.toNat (c.size.toNat - c.offset v)

section Call

variable {s : Loader b} {c : ScanCall b} {v : Addr b}

/-- A search of the range itself. -/
theorem staysInside_miss (h : searchSignatureCache s c.key c.pBegin c.size = none)
    (h0 : c.pBegin ≠ 0) :
    (CommonLoader.EndsInside s.mem c.pattern c.mask c.patternLength.toNat c.pBegin
        c.size.toNat c.size.toNat → c.StaysInside s)
      ∧ (c.pBegin.toNat + c.size.toNat ≤ 2 ^ b.bits → c.StaysInside s →
        CommonLoader.EndsInside s.mem c.pattern c.mask c.patternLength.toNat c.pBegin
          c.size.toNat c.size.toNat) := by
  obtain ⟨haddr, hreads, _⟩ := scan_miss h
  have hcases := scanUncached_cases c.pattern c.mask s c.patternLength c.size true h0
  refine ⟨fun hin => ⟨fun x hx => ?_, fun hne => ?_⟩, fun hw ⟨hrd, had⟩ => ?_⟩
  · rw [hreads, mem_scanUncached_reads h0] at hx
    obtain ⟨i, j, hr, hx⟩ := hx
    have := hin.reads hr
    omega
  · rcases hcases with ⟨i, hi, ha, _⟩ | ⟨_, ha, _⟩
    · have hle := hin.first hi
      have hmod := Nat.mod_le (c.pBegin.toNat + i) (2 ^ b.bits)
      rw [haddr, ha, BitVec.toNat_add, BitVec.toNat_ofNat, Nat.add_mod_mod]
      omega
    · exact absurd (haddr.trans ha) hne
  · refine endsInside_iff.mpr ⟨fun i j hr => ?_, fun i hi => ?_⟩
    · have hx : c.pBegin.toNat + i + j ∈ (scan s c).reads := by
        rw [hreads, mem_scanUncached_reads h0]
        exact ⟨i, j, hr, rfl⟩
      have := hrd _ hx
      omega
    · -- a match at null would not show, and in this range there is none
      rcases hcases with ⟨i', hi', ha, _⟩ | ⟨hn, _, _⟩
      · obtain ⟨hnat, hne⟩ := range_ne_zero h0 hw hi'.1
        rw [haddr, ha] at had
        have := had hne
        have := hi.unique hi'
        omega
      · exact absurd hn hi.not_noneBelow

/-- A second search, from a cached address on. -/
theorem staysInside_validate (h : searchSignatureCache s c.key c.pBegin c.size = some v)
    (hs : getState s skipSigValidation = 0) (hv : v ≠ 0) :
    c.StaysInside s ↔ CommonLoader.EndsInside s.mem c.pattern c.mask c.patternLength.toNat v
      c.patternLength.toNat (c.size.toNat - c.offset v) := by
  obtain ⟨hlt, hnat, _, hw⟩ := offset_of_hit h hv
  have hscan := scan_validate h hs
  have hcases := scanUncached_cases c.pattern c.mask s c.patternLength c.patternLength false hv
  refine ⟨fun ⟨hrd, had⟩ => ?_, fun hin => ⟨fun x hx => ?_, fun hne => ?_⟩⟩
  · have hinside : ∀ i j, Reads s.mem c.pattern c.mask c.patternLength.toNat v
        c.patternLength.toNat i j → i + j < c.size.toNat - c.offset v := by
      intro i j hr
      have hx : v.toNat + i + j ∈ (scan s c).reads := by
        rw [hscan, mem_scanUncached_reads hv]
        exact ⟨i, j, hr, rfl⟩
      have := hrd _ hx
      omega
    refine endsInside_iff.mpr ⟨hinside, fun i hi => ?_⟩
    -- a search that has come as far as the wrap has read past the range before
    have hsmall : v.toNat + i < 2 ^ b.bits := by
      rcases Nat.eq_zero_or_pos i with hz | hpos
      · rw [hz]; exact v.isLt
      · have hlast : i - 1 < c.patternLength.toNat := by have := hi.1; omega
        obtain ⟨j, hr, _⟩ := reads_of_not_match hlast fun k hk => hi.2.2 k (by omega)
        have := hinside _ _ hr
        omega
    rcases hcases with ⟨i', hi', ha, _⟩ | ⟨hn, _, _⟩
    · obtain rfl := hi.unique hi'
      have hn : (v + BitVec.ofNat _ i).toNat = v.toNat + i := by
        rw [BitVec.toNat_add, BitVec.toNat_ofNat, Nat.add_mod_mod, Nat.mod_eq_of_lt hsmall]
      rw [hscan, ha] at had
      have := had (range_ne_zero hv (Nat.succ_le_of_lt hsmall) (Nat.lt_succ_self i)).2
      omega
    · exact absurd hn hi.not_noneBelow
  · rw [hscan, mem_scanUncached_reads hv] at hx
    obtain ⟨i, j, hr, hx⟩ := hx
    have := hin.reads hr
    omega
  · rcases hcases with ⟨i, hi, ha, _⟩ | ⟨_, ha, _⟩
    · have hle := hin.first hi
      have hmod := Nat.mod_le (v.toNat + i) (2 ^ b.bits)
      rw [hscan, ha, BitVec.toNat_add, BitVec.toNat_ofNat, Nat.add_mod_mod]
      omega
    · rw [hscan] at hne
      exact absurd ha hne

/--
**When a scan stays inside its range**, whatever the memory and whatever the
cache: exactly when no comparison it comes to sticks out.
-/
theorem scan_staysInside (s : Loader b) (c : ScanCall b) (h0 : c.pBegin ≠ 0) :
    (c.EndsInside s → c.StaysInside s)
      ∧ (c.pBegin.toNat + c.size.toNat ≤ 2 ^ b.bits → c.StaysInside s → c.EndsInside s) := by
  unfold ScanCall.EndsInside
  cases h : searchSignatureCache s c.key c.pBegin c.size with
  | none => exact staysInside_miss h h0
  | some v =>
    dsimp only
    by_cases hv : v = 0
    · subst hv
      have hin : c.StaysInside s := by
        unfold ScanCall.StaysInside
        rw [scan_hit_null h]
        exact ⟨fun x hx => absurd hx List.not_mem_nil, fun hne => absurd rfl hne⟩
      exact ⟨fun _ => hin, fun _ _ => Or.inl rfl⟩
    · by_cases hs : getState s skipSigValidation = 0
      · rw [if_neg (not_not_intro hs)]
        have hiff := staysInside_validate h hs hv
        exact ⟨fun hin => hiff.mpr (hin.resolve_left hv), fun _ hin => Or.inr (hiff.mp hin)⟩
      · -- the cached address is returned unread
        rw [if_pos hs]
        obtain ⟨hlt, hnat, _, _⟩ := offset_of_hit h hv
        unfold ScanCall.StaysInside
        rw [scan_skip h hs]
        refine ⟨fun hin => ⟨fun x hx => absurd hx List.not_mem_nil, fun _ => ?_⟩,
          fun _ ⟨_, hin⟩ => Or.inr ?_⟩
        · have := hin.resolve_left hv
          dsimp only
          omega
        · have := hin hv
          dsimp only at this
          omega

end Call

/-! ## Past the end -/

/-- A process with the letter `A` all over its memory. -/
def lettersA : Loader .win32 :=
  Loader.start ⟨0x400000, 0x1000⟩ (fun _ => 0x41) (fun _ => 0x40) (fun _ => none)

/-- The signature `AA` in a range of the given size. -/
def scanAA (size : SizeT .win32) : ScanCall .win32 where
  pattern := fun _ => 0x41
  mask := fun _ => 0x78
  patternLength := 2
  pBegin := 0x401000
  size := size
  save := .ok

theorem scan_staysInside_scanAA : (scanAA 2).StaysInside lettersA := by
  refine (scan_staysInside lettersA (scanAA 2) (by decide)).1 ?_
  have hmiss : searchSignatureCache lettersA (scanAA 2).key (scanAA 2).pBegin (scanAA 2).size
      = none := rfl
  unfold ScanCall.EndsInside
  rw [hmiss]
  decide +kernel

/-- **In a range of one byte the second letter is read and matched behind the end.** -/
theorem scan_leaves_range :
    0x401001 ∈ (scan lettersA (scanAA 1)).reads
      ∧ (scan lettersA (scanAA 1)).address = 0x401000
      ∧ ¬ (scanAA 1).StaysInside lettersA := by
  have hread : 0x401001 ∈ (scan lettersA (scanAA 1)).reads := by decide +kernel
  refine ⟨hread, by decide +kernel, ?_⟩
  intro h
  exact absurd (h.1 _ hread).2 (by decide)

end CommonLoader
