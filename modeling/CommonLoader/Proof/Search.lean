import CommonLoader.Model.SigScanner

/-!
# What the search finds, and what it reads

`ScanUncached` is two nested loops with data-dependent exits. The inner one
reaches the end of the pattern exactly when the bytes match, and reads the bytes
up to and including the first that does not. The outer one therefore computes the
first matching start position, and reads from every start position up to it.

`IsLeftmost` is what a scan is for; `scanUncached_isLeftmost` says that the
uncached scan does it.
-/

namespace CommonLoader

open ByteMemory FirstMatch

variable {b : Build} {mem : Mem b.bits} {pattern mask : Buf}

/-- Index `j` of the signature agrees with the memory at `a`. -/
def AgreesAt (mem : Mem b.bits) (pattern mask : Buf) (a : Addr b) (j : Nat) : Prop :=
  mask j = wildcard ∨ pattern j = mem (a + BitVec.ofNat _ j)

instance (a : Addr b) (j : Nat) : Decidable (AgreesAt mem pattern mask a j) :=
  inferInstanceAs (Decidable (_ ∨ _))

/-- Every byte of the signature that is not a wildcard is in memory at `a`. -/
def MatchAt (mem : Mem b.bits) (pattern mask : Buf) (n : Nat) (a : Addr b) : Prop :=
  ∀ j, j < n → AgreesAt mem pattern mask a j

instance (n : Nat) (a : Addr b) : Decidable (MatchAt mem pattern mask n a) :=
  inferInstanceAs (Decidable (∀ j, j < n → _))

/-- The signature is in memory `i` bytes after `pBegin`. -/
def MatchFrom (mem : Mem b.bits) (pattern mask : Buf) (n : Nat) (pBegin : Addr b) (i : Nat) : Prop :=
  MatchAt mem pattern mask n (pBegin + BitVec.ofNat _ i)

instance (n : Nat) (a : Addr b) : DecidablePred (MatchFrom mem pattern mask n a) :=
  fun _ => inferInstanceAs (Decidable (MatchAt ..))

/--
**The purpose of a scan.** The leftmost start position in the range at which the
signature matches, or null when there is none.
-/
def IsLeftmost (mem : Mem b.bits) (pattern mask : Buf) (n : Nat) (pBegin : Addr b) (size : Nat)
    (r : Addr b) : Prop :=
  (∃ i, IsFirst (MatchFrom mem pattern mask n pBegin) size i ∧ r = pBegin + BitVec.ofNat _ i)
    ∨ (NoneBelow (MatchFrom mem pattern mask n pBegin) size ∧ r = 0)

/-- There is only one leftmost position. -/
theorem IsLeftmost.unique {n size : Nat} {pBegin r r' : Addr b}
    (h : IsLeftmost mem pattern mask n pBegin size r)
    (h' : IsLeftmost mem pattern mask n pBegin size r') : r = r' := by
  rcases h with ⟨i, hi, hr⟩ | ⟨hn, hr⟩
  · rcases h' with ⟨j, hj, hr'⟩ | ⟨hn', _⟩
    · rw [hr, hr', hi.unique hj]
    · exact absurd hn' hi.not_noneBelow
  · rcases h' with ⟨j, hj, _⟩ | ⟨_, hr'⟩
    · exact absurd hn hj.not_noneBelow
    · rw [hr, hr']

/-! ## The inner loop -/

/-- **The inner loop reaches the end exactly on a match.** -/
theorem compareLoop_end (memory : Addr b) : ∀ (left j : Nat),
    (compareLoop mem pattern mask memory left j).1 = j + left ↔
      ∀ k, j ≤ k → k < j + left → AgreesAt mem pattern mask memory k
  | 0, j => by
      simp only [compareLoop, Nat.add_zero, true_iff]
      intro k h1 h2; omega
  | left + 1, j => by
      have ih := compareLoop_end memory left (j + 1)
      rw [show j + 1 + left = j + (left + 1) by omega] at ih
      -- one index is settled here, the rest by the induction hypothesis
      rw [forall_from (by omega), ← ih, compareLoop]
      split
      · rename_i hm
        split
        · rename_i hp
          have hno : ¬ AgreesAt mem pattern mask memory j := by
            intro ha
            rcases ha with ha | ha
            · exact hm ha
            · exact hp ha
          simp only [hno, false_and, iff_false]
          omega
        · rename_i hp
          have hyes : AgreesAt mem pattern mask memory j := Or.inr (Decidable.not_not.mp hp)
          simp only [hyes, true_and]
      · rename_i hm
        have hyes : AgreesAt mem pattern mask memory j := Or.inl (Decidable.not_not.mp hm)
        simp only [hyes, true_and]

/-- One round reads an index that is not a wildcard, and goes on if it agrees. -/
theorem mem_compareLoop_succ (memory : Addr b) (left j x : Nat) :
    x ∈ (compareLoop mem pattern mask memory (left + 1) j).2 ↔
      (x = j ∧ mask j ≠ wildcard) ∨ (AgreesAt mem pattern mask memory j
        ∧ x ∈ (compareLoop mem pattern mask memory left (j + 1)).2) := by
  unfold AgreesAt
  rw [compareLoop]
  split
  · rename_i hm
    split
    · rename_i hp
      simp [hm, hp]
    · rename_i hp
      simp [hm, Decidable.not_not.mp hp]
  · rename_i hm
    simp [Decidable.not_not.mp hm]

/-- **What the inner loop reads**: every index that is not a wildcard and comes
after nothing but agreement. -/
theorem mem_compareLoop_reads (memory : Addr b) : ∀ (left j x : Nat),
    x ∈ (compareLoop mem pattern mask memory left j).2 ↔
      j ≤ x ∧ x < j + left ∧ mask x ≠ wildcard ∧
        ∀ k, j ≤ k → k < x → AgreesAt mem pattern mask memory k
  | 0, j, x => by simp only [compareLoop, List.not_mem_nil, false_iff]; omega
  | left + 1, j, x => by
      rw [mem_compareLoop_succ, mem_compareLoop_reads memory left (j + 1) x]
      refine ⟨?_, ?_⟩
      · rintro (⟨rfl, hm⟩ | ⟨hj, h1, h2, h3, h4⟩)
        · exact ⟨Nat.le_refl _, by omega, hm, fun k h1 h2 => absurd h2 (by omega)⟩
        · exact ⟨by omega, by omega, h3, (forall_from h1).mpr ⟨hj, h4⟩⟩
      · rintro ⟨h1, h2, h3, h4⟩
        rcases Nat.eq_or_lt_of_le h1 with rfl | hlt
        · exact Or.inl ⟨rfl, h3⟩
        · obtain ⟨hj, h4⟩ := (forall_from hlt).mp h4
          exact Or.inr ⟨hj, hlt, by omega, h3, h4⟩

theorem compareLoop_match (memory : Addr b) (n : Nat) :
    (compareLoop mem pattern mask memory n 0).1 = n ↔ MatchAt mem pattern mask n memory := by
  have h : (compareLoop mem pattern mask memory n 0).1 = 0 + n ↔ _ := compareLoop_end memory n 0
  rw [Nat.zero_add] at h
  rw [h]
  exact ⟨fun h j hj => h j (Nat.zero_le _) hj, fun h j _ hj => h j hj⟩

/-! ## The outer loop -/

theorem searchLoop_index (n : Nat) (pBegin : Addr b) : ∀ (left i : Nat),
    (searchLoop mem pattern mask n pBegin left i).1
      = search (fun i => decide (MatchFrom mem pattern mask n pBegin i)) left i
  | 0, _ => rfl
  | left + 1, i => by
      have ih := searchLoop_index n pBegin left (i + 1)
      have hm : (compareLoop mem pattern mask (pBegin + BitVec.ofNat _ i) n 0).1 = n ↔ _ :=
        compareLoop_match (pBegin + BitVec.ofNat _ i) n
      rw [searchLoop, search]
      by_cases h : (compareLoop mem pattern mask (pBegin + BitVec.ofNat _ i) n 0).1 = n
      · have hd : decide (MatchFrom mem pattern mask n pBegin i) = true := decide_eq_true (hm.mp h)
        rw [if_pos h, if_pos hd]
      · have hd : ¬ decide (MatchFrom mem pattern mask n pBegin i) = true := fun hd =>
          h (hm.mpr (of_decide_eq_true hd))
        rw [if_neg h, if_neg hd]
        exact ih

/-- Start position `i`, index `j` of the signature: a byte some search compares. -/
structure Reads (mem : Mem b.bits) (pattern mask : Buf) (n : Nat) (pBegin : Addr b) (size i j : Nat) :
    Prop where
  inside : i < size
  /-- no earlier start position ended the search -/
  first : ∀ k, k < i → ¬ MatchFrom mem pattern mask n pBegin k
  index : j < n
  plain : mask j ≠ wildcard
  /-- nothing before `j` ended the comparison -/
  agrees : ∀ k, k < j → AgreesAt mem pattern mask (pBegin + BitVec.ofNat _ i) k

/-- One round reads what its comparison does, and goes on if that did not match. -/
theorem mem_searchLoop_succ (n : Nat) (pBegin : Addr b) (left i x : Nat) :
    x ∈ (searchLoop mem pattern mask n pBegin (left + 1) i).2 ↔
      (∃ j, j < n ∧ mask j ≠ wildcard
          ∧ (∀ j', j' < j → AgreesAt mem pattern mask (pBegin + BitVec.ofNat _ i) j')
          ∧ x = pBegin.toNat + i + j)
        ∨ (¬ MatchFrom mem pattern mask n pBegin i
          ∧ x ∈ (searchLoop mem pattern mask n pBegin left (i + 1)).2) := by
  have hm : (compareLoop mem pattern mask (pBegin + BitVec.ofNat _ i) n 0).1 = n ↔
      MatchFrom mem pattern mask n pBegin i := compareLoop_match (pBegin + BitVec.ofNat _ i) n
  -- the reads of the start position `i` itself
  have hhere : x ∈ (compareLoop mem pattern mask (pBegin + BitVec.ofNat _ i) n 0).2.map
        (pBegin.toNat + i + ·) ↔
      ∃ j, j < n ∧ mask j ≠ wildcard
        ∧ (∀ j', j' < j → AgreesAt mem pattern mask (pBegin + BitVec.ofNat _ i) j')
        ∧ x = pBegin.toNat + i + j := by
    rw [List.mem_map]
    refine ⟨fun ⟨j, hj, he⟩ => ?_, fun ⟨j, h1, h2, h3, he⟩ => ⟨j, ?_, he.symm⟩⟩
    · obtain ⟨_, h2, h3, h4⟩ := (mem_compareLoop_reads _ _ _ _).mp hj
      exact ⟨j, by omega, h3, fun j' hj' => h4 j' (Nat.zero_le _) hj', he.symm⟩
    · exact (mem_compareLoop_reads _ _ _ _).mpr
        ⟨Nat.zero_le _, by omega, h2, fun k _ hk => h3 k hk⟩
  rw [← hhere, ← hm, searchLoop]
  dsimp only
  split
  · rename_i hend
    simp [hend]
  · rename_i hend
    rw [List.mem_append]
    simp [hend]

theorem mem_searchLoop_reads (n : Nat) (pBegin : Addr b) (x : Nat) : ∀ (left i : Nat),
    x ∈ (searchLoop mem pattern mask n pBegin left i).2 ↔
      ∃ k j, i ≤ k ∧ k < i + left ∧ (∀ k', i ≤ k' → k' < k → ¬ MatchFrom mem pattern mask n pBegin k')
        ∧ j < n ∧ mask j ≠ wildcard
        ∧ (∀ j', j' < j → AgreesAt mem pattern mask (pBegin + BitVec.ofNat _ k) j')
        ∧ x = pBegin.toNat + k + j
  | 0, i => by
      simp only [searchLoop, List.not_mem_nil, false_iff]
      intro ⟨k, j, h1, h2, _⟩; omega
  | left + 1, i => by
      rw [mem_searchLoop_succ, mem_searchLoop_reads n pBegin x left (i + 1)]
      refine ⟨?_, ?_⟩
      · rintro (⟨j, h4⟩ | ⟨hno, k, j, h1, h2, h3, h4⟩)
        · exact ⟨i, j, Nat.le_refl _, by omega, fun k' h1 h2 => absurd h2 (by omega), h4⟩
        · exact ⟨k, j, by omega, by omega, (forall_from h1).mpr ⟨hno, h3⟩, h4⟩
      · rintro ⟨k, j, h1, h2, h3, h4⟩
        rcases Nat.eq_or_lt_of_le h1 with rfl | hlt
        · exact Or.inl ⟨j, h4⟩
        · obtain ⟨hno, h3⟩ := (forall_from hlt).mp h3
          exact Or.inr ⟨hno, k, j, hlt, by omega, h3, h4⟩

/-! ## `ScanUncached` -/

section Uncached

variable {s : Loader b} {n : SizeT b} {pBegin : Addr b} {size : SizeT b} {validate : Bool}

/-- On null the scan returns at once. -/
theorem scanUncached_null :
    scanUncached s pattern mask n 0 size validate = ⟨0, [], s⟩ := by
  unfold scanUncached
  rw [if_pos rfl]

variable (s pattern mask n size validate) in
/-- Either way a scan of a real address ends, with everything it returns. -/
theorem scanUncached_cases (h0 : pBegin ≠ 0) :
    (∃ i, IsFirst (MatchFrom s.mem pattern mask n.toNat pBegin) size.toNat i
        ∧ (scanUncached s pattern mask n pBegin size validate).address = pBegin + BitVec.ofNat _ i
        ∧ (scanUncached s pattern mask n pBegin size validate).loader = s)
      ∨ (NoneBelow (MatchFrom s.mem pattern mask n.toNat pBegin) size.toNat
        ∧ (scanUncached s pattern mask n pBegin size validate).address = 0
        ∧ (scanUncached s pattern mask n pBegin size validate).loader
            = if validate then setState s initSigScanFailed 1 else s) := by
  have hidx : (searchLoop s.mem pattern mask n.toNat pBegin size.toNat 0).1 = _ :=
    searchLoop_index n.toNat pBegin size.toNat 0
  have hdec : ∀ i, decide (MatchFrom s.mem pattern mask n.toNat pBegin i) = true ↔
      MatchFrom s.mem pattern mask n.toNat pBegin i := fun _ => decide_eq_true_iff
  unfold scanUncached
  rw [if_neg h0]
  dsimp only
  cases hr : (searchLoop s.mem pattern mask n.toNat pBegin size.toNat 0).1 with
  | some i =>
    rw [hr] at hidx
    exact Or.inl ⟨i, (search_isFirst hdec).mp hidx.symm, rfl, rfl⟩
  | none =>
    rw [hr] at hidx
    exact Or.inr ⟨(search_noneBelow hdec).mp hidx.symm, rfl, rfl⟩

/-- **The uncached scan returns the leftmost match.** -/
theorem scanUncached_isLeftmost (h0 : pBegin ≠ 0) :
    IsLeftmost s.mem pattern mask n.toNat pBegin size.toNat
      (scanUncached s pattern mask n pBegin size validate).address := by
  rcases scanUncached_cases pattern mask s n size validate h0 with ⟨i, hi, ha, _⟩ | ⟨hn, ha, _⟩
  · exact Or.inl ⟨i, hi, ha⟩
  · exact Or.inr ⟨hn, ha⟩

/-- **The bytes the uncached scan compares.** -/
theorem mem_scanUncached_reads (h0 : pBegin ≠ 0) (x : Nat) :
    x ∈ (scanUncached s pattern mask n pBegin size validate).reads ↔
      ∃ i j, Reads s.mem pattern mask n.toNat pBegin size.toNat i j ∧ x = pBegin.toNat + i + j := by
  have hreads : (scanUncached s pattern mask n pBegin size validate).reads
      = (searchLoop s.mem pattern mask n.toNat pBegin size.toNat 0).2 := by
    unfold scanUncached
    rw [if_neg h0]
    dsimp only
    split <;> rfl
  rw [hreads, mem_searchLoop_reads]
  refine ⟨fun ⟨i, j, _, h2, h3, h4, h5, h6, he⟩ => ?_, fun ⟨i, j, h, he⟩ => ?_⟩
  · exact ⟨i, j, ⟨by omega, fun k hk => h3 k (Nat.zero_le _) hk, h4, h5, h6⟩, he⟩
  · exact ⟨i, j, Nat.zero_le _, by have := h.inside; omega, fun k _ hk => h.first k hk,
      h.index, h.plain, h.agrees, he⟩

end Uncached

end CommonLoader
