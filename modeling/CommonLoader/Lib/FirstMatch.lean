import Mathlib.Data.Nat.Find

/-!
# The first index below a bound

A search that walks indices upwards and stops at the first hit computes the least
index with a property, or finds out that there is none below the bound. The
search is stated over an arbitrary decidable property, so that a caller only has
to say what its loop tests.
-/

namespace FirstMatch

/-- `i` is the least index below `n` with `p`. -/
def IsFirst (p : Nat → Prop) (n i : Nat) : Prop := i < n ∧ p i ∧ ∀ j, j < i → ¬ p j

/-- No index below `n` has `p`. -/
def NoneBelow (p : Nat → Prop) (n : Nat) : Prop := ∀ i, i < n → ¬ p i

variable {p : Nat → Prop} {n m i j : Nat}

theorem IsFirst.unique (hi : IsFirst p n i) (hj : IsFirst p m j) : i = j := by
  rcases Nat.lt_trichotomy i j with h | h | h
  · exact absurd hi.2.1 (hj.2.2 i h)
  · exact h
  · exact absurd hj.2.1 (hi.2.2 j h)

theorem IsFirst.not_noneBelow (hi : IsFirst p n i) : ¬ NoneBelow p n :=
  fun h => h i hi.1 hi.2.1

/-- The bound may be moved anywhere above the index found. -/
theorem IsFirst.rebound (hi : IsFirst p n i) (h : i < m) : IsFirst p m i := ⟨h, hi.2⟩

/-- A stretch of indices is its first one and the rest. -/
theorem forall_from (h : i < n) :
    (∀ k, i ≤ k → k < n → p k) ↔ p i ∧ ∀ k, i + 1 ≤ k → k < n → p k := by
  refine ⟨fun hall => ⟨hall i (Nat.le_refl _) h, fun k hk => hall k (Nat.le_of_succ_le hk)⟩, ?_⟩
  rintro ⟨hi, hrest⟩ k hk hkn
  rcases Nat.eq_or_lt_of_le hk with rfl | hlt
  · exact hi
  · exact hrest k hlt hkn

/-- Having some index with `p` is having a first one. -/
theorem exists_isFirst (h : ∃ i, i < n ∧ p i) : ∃ i, IsFirst p n i := by
  classical
  obtain ⟨i, hi, hp⟩ := h
  have hex : ∃ i, p i := ⟨i, hp⟩
  exact ⟨Nat.find hex, Nat.lt_of_le_of_lt (Nat.find_min' hex hp) hi, Nat.find_spec hex,
    fun _ hj => Nat.find_min hex hj⟩

/-- Shifting the property shifts the first index, when nothing was skipped. -/
theorem isFirst_shift {d : Nat} (hd : ∀ j, j < d → ¬ p j) :
    IsFirst (fun k => p (d + k)) n i ↔ IsFirst p (d + n) (d + i) := by
  refine ⟨fun ⟨h1, h2, h3⟩ => ?_, fun ⟨h1, h2, h3⟩ => ?_⟩
  · refine ⟨by omega, h2, ?_⟩
    intro j hj
    rcases Nat.lt_or_ge j d with h | h
    · exact hd j h
    · have hj' : ¬ p (d + (j - d)) := h3 (j - d) (by omega)
      rwa [show d + (j - d) = j by omega] at hj'
  · exact ⟨by omega, h2, fun j hj => h3 (d + j) (by omega)⟩

theorem NoneBelow.of_shift {d : Nat} (h : NoneBelow (fun k => p (d + k)) n) (hd : d ≤ i)
    (hi : i < d + n) : ¬ p i := by
  have hk : ¬ p (d + (i - d)) := h (i - d) (by omega)
  rwa [show d + (i - d) = i by omega] at hk

/-! ## The search -/

/-- Walk `left` indices from `i` on and stop at the first with `p`. -/
def search (p : Nat → Bool) : Nat → Nat → Option Nat
  | 0, _ => none
  | left + 1, i => if p i then some i else search p left (i + 1)

theorem search_eq_some {p : Nat → Bool} :
    ∀ {left s i : Nat}, search p left s = some i ↔
      s ≤ i ∧ i < s + left ∧ p i = true ∧ ∀ j, s ≤ j → j < i → p j = false
  | 0, s, i => by simp only [search, reduceCtorEq, false_iff]; omega
  | left + 1, s, i => by
      rw [search]
      split
      · rename_i hs
        simp only [Option.some.injEq]
        refine ⟨fun he => ?_, fun ⟨h1, _, _, h4⟩ => ?_⟩
        · subst he
          exact ⟨Nat.le_refl _, by omega, hs, fun j h1 h2 => absurd h2 (by omega)⟩
        · rcases Nat.eq_or_lt_of_le h1 with h | h
          · exact h
          · exact absurd hs (by rw [h4 s (Nat.le_refl _) h]; simp)
      · rename_i hs
        rw [search_eq_some]
        refine ⟨fun ⟨h1, h2, h3, h4⟩ => ?_, fun ⟨h1, h2, h3, h4⟩ => ?_⟩
        · exact ⟨by omega, by omega, h3, (forall_from h1).mpr ⟨Bool.eq_false_iff.mpr hs, h4⟩⟩
        · have hne : s ≠ i := fun h => hs (h ▸ h3)
          exact ⟨by omega, by omega, h3, fun j hj hji => h4 j (by omega) hji⟩

theorem search_eq_none {p : Nat → Bool} :
    ∀ {left s : Nat}, search p left s = none ↔ ∀ j, s ≤ j → j < s + left → p j = false
  | 0, s => by simp only [search, true_iff]; intro j h1 h2; omega
  | left + 1, s => by
      rw [forall_from (by omega), search]
      split
      · rename_i hs
        simp [hs]
      · rename_i hs
        rw [search_eq_none, show s + 1 + left = s + (left + 1) by omega]
        exact (and_iff_right (Bool.eq_false_iff.mpr hs)).symm

/-- **The search from zero finds the first index, or there is none.** -/
theorem search_isFirst {q : Nat → Bool} (h : ∀ i, q i = true ↔ p i) :
    search q n 0 = some i ↔ IsFirst p n i := by
  rw [search_eq_some]
  refine ⟨fun ⟨_, h2, h3, h4⟩ => ?_, fun ⟨h1, h2, h3⟩ => ?_⟩
  · refine ⟨by omega, (h i).mp h3, ?_⟩
    intro j hj hp
    rw [← h j, h4 j (Nat.zero_le _) hj] at hp
    exact Bool.noConfusion hp
  · refine ⟨Nat.zero_le _, by omega, (h i).mpr h2, ?_⟩
    intro j _ hj
    exact Bool.eq_false_iff.mpr fun hq => h3 j hj ((h j).mp hq)

theorem search_noneBelow {q : Nat → Bool} (h : ∀ i, q i = true ↔ p i) :
    search q n 0 = none ↔ NoneBelow p n := by
  rw [search_eq_none]
  refine ⟨?_, ?_⟩
  · intro hq i hi hp
    have h1 := hq i (Nat.zero_le _) (by omega)
    rw [(h i).mpr hp] at h1
    exact Bool.noConfusion h1
  · intro hn j _ hj
    exact Bool.eq_false_iff.mpr fun hq => hn j (by omega) ((h j).mp hq)

end FirstMatch
