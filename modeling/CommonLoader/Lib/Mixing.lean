import Mathlib.Data.List.Basic

/-!
# Mixing

A hash works its input into a state one piece at a time. Where every step is injective in
the state and in the piece, two inputs that differ in one piece are told apart at once and
never meet again. The steps themselves are made of multiplications by units, rotations and
exclusive ors with a shifted copy, which are injective each.
-/

namespace Mixing

/-! ## Lists that differ in one place -/

section Lists

variable {α σ : Type*} {x y : List α} {i m : Nat}

/-- The lists differ at one index, and nowhere else. -/
structure DifferAt (i : Nat) (x y : List α) : Prop where
  length : x.length = y.length
  here : x[i]? ≠ y[i]?
  elsewhere : ∀ j, j ≠ i → x[j]? = y[j]?

theorem DifferAt.symm (h : DifferAt i x y) : DifferAt i y x :=
  ⟨h.length.symm, h.here.symm, fun j hj => (h.elsewhere j hj).symm⟩

theorem DifferAt.lt (h : DifferAt i x y) : i < x.length := by
  by_contra hout
  refine h.here ?_
  rw [List.getElem?_eq_none (by omega), List.getElem?_eq_none (by have := h.length; omega)]

theorem DifferAt.take_eq (h : DifferAt i x y) (hm : m ≤ i) : x.take m = y.take m := by
  refine List.ext_getElem? fun j => ?_
  rw [List.getElem?_take, List.getElem?_take]
  split
  · exact h.elsewhere j (by omega)
  · rfl

theorem DifferAt.drop_eq (h : DifferAt i x y) (hm : i < m) : x.drop m = y.drop m := by
  refine List.ext_getElem? fun j => ?_
  rw [List.getElem?_drop, List.getElem?_drop]
  exact h.elsewhere _ (by omega)

theorem DifferAt.take (h : DifferAt i x y) (hm : i < m) : DifferAt i (x.take m) (y.take m) := by
  refine ⟨?_, ?_, fun j hj => ?_⟩
  · rw [List.length_take, List.length_take, h.length]
  · rw [List.getElem?_take_of_lt hm, List.getElem?_take_of_lt hm]
    exact h.here
  · rw [List.getElem?_take, List.getElem?_take, h.elsewhere j hj]

theorem DifferAt.drop (h : DifferAt i x y) (hm : m ≤ i) :
    DifferAt (i - m) (x.drop m) (y.drop m) := by
  refine ⟨?_, ?_, fun j hj => ?_⟩
  · rw [List.length_drop, List.length_drop, h.length]
  · rw [List.getElem?_drop, List.getElem?_drop, Nat.add_sub_cancel' hm]
    exact h.here
  · rw [List.getElem?_drop, List.getElem?_drop]
    exact h.elsewhere _ (by omega)

theorem differAt_set {a : α} (hi : i < x.length) (hne : x[i] ≠ a) : DifferAt i x (x.set i a) := by
  refine ⟨List.length_set.symm, ?_, fun j hj => (List.getElem?_set_ne (Ne.symm hj)).symm⟩
  rw [List.getElem?_eq_getElem hi, List.getElem?_set_self hi]
  exact fun h => hne (Option.some.inj h)

/-- The lists differ in one place. -/
def Near (x y : List α) : Prop := ∃ i, DifferAt i x y

/-- Two tables that differ in one entry. -/
theorem differAt_map_range {f g : Nat → α} {n : Nat} (hi : i < n) (hne : f i ≠ g i)
    (heq : ∀ j, j < n → j ≠ i → f j = g j) :
    DifferAt i ((List.range n).map f) ((List.range n).map g) := by
  refine ⟨by simp, ?_, fun j hj => ?_⟩
  · rw [List.getElem?_map, List.getElem?_map, List.getElem?_range hi]
    exact fun h => hne (Option.some.inj h)
  · rw [List.getElem?_map, List.getElem?_map]
    by_cases hlt : j < n
    · rw [List.getElem?_range hlt, Option.map_some, Option.map_some, heq j hlt hj]
    · rw [List.getElem?_eq_none (by rw [List.length_range]; omega), Option.map_none, Option.map_none]

/-! ## Folds -/

variable {f : σ → α → σ}

theorem foldl_injective (hstate : ∀ a, Function.Injective fun s => f s a) :
    ∀ l : List α, Function.Injective fun s => l.foldl f s
  | [], _, _, h => h
  | a :: l, _, _, h => hstate a (foldl_injective hstate l h)

/-- **Told apart once, told apart for good.** -/
theorem foldl_separates (hstate : ∀ a, Function.Injective fun s => f s a)
    (hpiece : ∀ s, Function.Injective (f s)) (h : DifferAt i x y) (s : σ) :
    x.foldl f s ≠ y.foldl f s := by
  have hx : i < x.length := h.lt
  have hy : i < y.length := h.length ▸ hx
  have hne : x[i] ≠ y[i] := by
    intro he
    refine h.here ?_
    rw [List.getElem?_eq_getElem hx, List.getElem?_eq_getElem hy, he]
  rw [← List.take_append_drop i x, ← List.take_append_drop i y, List.drop_eq_getElem_cons hx,
    List.drop_eq_getElem_cons hy, h.take_eq (Nat.le_refl i), h.drop_eq (Nat.lt_succ_self i),
    List.foldl_append, List.foldl_append, List.foldl_cons, List.foldl_cons]
  exact fun he => hne (hpiece _ (foldl_injective hstate _ he))

end Lists

/-! ## The steps -/

section Steps

variable {w k r : Nat}

/-- The top bits of a word are in the clear, and each of the others is hidden by a higher one. -/
theorem xorShift_injective (hk : 0 < k) : Function.Injective fun x : BitVec w => x ^^^ (x >>> k) := by
  intro x y hxy
  have hbits : ∀ d i, w ≤ i + d → x.getLsbD i = y.getLsbD i := by
    intro d
    induction d with
    | zero =>
      intro i hi
      rw [BitVec.getLsbD_of_ge x i hi, BitVec.getLsbD_of_ge y i hi]
    | succ d ih =>
      intro i hi
      have hbit : (x ^^^ (x >>> k)).getLsbD i = (y ^^^ (y >>> k)).getLsbD i := by
        rw [show x ^^^ (x >>> k) = y ^^^ (y >>> k) from hxy]
      rw [BitVec.getLsbD_xor, BitVec.getLsbD_xor, BitVec.getLsbD_ushiftRight,
        BitVec.getLsbD_ushiftRight, ih (k + i) (by omega)] at hbit
      exact Bool.xor_left_inj.mp hbit
  exact BitVec.eq_of_getLsbD_eq fun i _ => hbits w i (by omega)

/-- Where a rotation takes a bit. -/
theorem getLsbD_rotated (x : BitVec w) (hr : r < w) {i : Nat} (hi : i < w) :
    (x.rotateLeft r).getLsbD ((i + r) % w) = x.getLsbD i := by
  rw [BitVec.getLsbD_rotateLeft_of_le hr]
  by_cases hin : i + r < w
  · rw [Nat.mod_eq_of_lt hin, decide_eq_false (show ¬ i + r < r by omega), cond_false,
      decide_eq_true hin, Bool.true_and, Nat.add_sub_cancel]
  · have hmod : (i + r) % w = i + r - w := by
      rw [Nat.mod_eq_sub_mod (by omega), Nat.mod_eq_of_lt (by omega)]
    rw [hmod, decide_eq_true (show i + r - w < r by omega), cond_true,
      show w - r + (i + r - w) = i by omega]

theorem rotateLeft_injective (hr : r < w) :
    Function.Injective fun x : BitVec w => x.rotateLeft r := by
  intro x y hxy
  refine BitVec.eq_of_getLsbD_eq fun i hi => ?_
  rw [← getLsbD_rotated x hr hi, ← getLsbD_rotated y hr hi]
  exact congrArg (fun z : BitVec w => z.getLsbD ((i + r) % w)) hxy

/-- A factor with an inverse. -/
theorem mul_injective {p q : UInt32} (h : p * q = 1) : Function.Injective fun x : UInt32 => x * p := by
  intro x y hxy
  have hmul : x * p * q = y * p * q := congrArg (· * q) hxy
  rwa [UInt32.mul_assoc, UInt32.mul_assoc, h, UInt32.mul_one, UInt32.mul_one] at hmul

end Steps

end Mixing
