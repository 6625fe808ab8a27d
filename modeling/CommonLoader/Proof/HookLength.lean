import CommonLoader.Proof.HookLayout
import CommonLoader.Proof.Nops
import Mathlib.Order.Bounds.Defs

/-!
# How many bytes a hook displaces

The loop of `WriteASMHook` adds up instructions until they are long enough. It stops
at the first prefix that is, and where there is none it has added up everything the
disassembler found. It found no more because of the bytes there: an instruction has
fifteen at most, and more than that is left of the window.
-/

namespace CommonLoader

open ByteMemory CText

variable {b : Build} {w : Nat}

/-! ## Prefixes of a list of instructions -/

theorem totalSize_cons (size : UInt16) (sizes : List UInt16) :
    totalSize (size :: sizes) = size.toNat + totalSize sizes := by
  unfold totalSize
  rw [List.map_cons, List.sum_cons]

theorem totalSize_take_le (sizes : List UInt16) (k : Nat) :
    totalSize (sizes.take k) ≤ totalSize sizes := by
  unfold totalSize
  conv_rhs => rw [← List.take_append_drop k sizes, List.map_append, List.sum_append]
  exact Nat.le_add_right _ _

/-- Where the instructions are long enough, the loop stops at the first prefix that is. -/
theorem hookLenLoop_least : ∀ (insn : List UInt16) (n : Nat), n < b.minHookLength →
    b.minHookLength ≤ n + totalSize insn →
    (∃ k, hookLenLoop b insn n = n + totalSize (insn.take k))
      ∧ b.minHookLength ≤ hookLenLoop b insn n
      ∧ ∀ k, b.minHookLength ≤ n + totalSize (insn.take k) →
          hookLenLoop b insn n ≤ n + totalSize (insn.take k) := by
  intro insn
  induction insn with
  | nil =>
    intro n hn hlong
    exact absurd (Nat.lt_of_lt_of_le hn hlong) (Nat.lt_irrefl n)
  | cons size insn ih =>
    intro n hn hlong
    rw [totalSize_cons] at hlong
    rw [hookLenLoop]
    split
    · rename_i hge
      refine ⟨⟨1, ?_⟩, hge, ?_⟩
      · rw [List.take_succ_cons, totalSize_cons, List.take_zero]
        rfl
      · intro k hk
        cases k with
        | zero => exact absurd (Nat.lt_of_lt_of_le hn hk) (Nat.lt_irrefl n)
        | succ k =>
          rw [List.take_succ_cons, totalSize_cons]
          omega
    · rename_i hlt
      obtain ⟨⟨k, hk⟩, hmin, hleast⟩ := ih (n + size.toNat) (Nat.not_le.mp hlt) (by omega)
      refine ⟨⟨k + 1, ?_⟩, hmin, ?_⟩
      · rw [hk, List.take_succ_cons, totalSize_cons, Nat.add_assoc]
      · intro k hk
        cases k with
        | zero => exact absurd (Nat.lt_of_lt_of_le hn hk) (Nat.lt_irrefl n)
        | succ k =>
          rw [List.take_succ_cons, totalSize_cons, ← Nat.add_assoc] at hk ⊢
          exact hleast k hk

/-- Where they are not, the loop has gone through all of them. -/
theorem hookLenLoop_all : ∀ (insn : List UInt16) (n : Nat), n + totalSize insn < b.minHookLength →
    hookLenLoop b insn n = n + totalSize insn := by
  intro insn
  induction insn with
  | nil =>
    intro n _
    rfl
  | cons size insn ih =>
    intro n hn
    rw [totalSize_cons, ← Nat.add_assoc] at hn ⊢
    rw [hookLenLoop, if_neg (by omega)]
    exact ih _ hn

/-! ## What a sweep found, and why it stopped -/

theorem mem_sweep {sizeAt : BitVec w → Option UInt16} {k : UInt16} :
    ∀ {fuel : Nat} {a : BitVec w} {n : Nat}, k ∈ sweep sizeAt fuel a n → ∃ a', sizeAt a' = some k := by
  intro fuel
  induction fuel with
  | zero =>
    intro _ _ h
    cases h
  | succ fuel ih =>
    intro a n h
    rcases sweep_cases sizeAt a n fuel with ⟨_, hnil⟩ | ⟨size, hsize, _, hcons⟩
    · rw [hnil] at h
      cases h
    · rw [hcons] at h
      rcases List.mem_cons.mp h with rfl | h
      · exact ⟨a, hsize⟩
      · exact ih h

/-- Its prefixes end where the instructions of the memory do. -/
theorem extent_sweep {sizeAt : BitVec w → Option UInt16} :
    ∀ (k fuel : Nat) (a : BitVec w) (n : Nat), k ≤ (sweep sizeAt fuel a n).length →
      extent sizeAt k a = some (totalSize ((sweep sizeAt fuel a n).take k)) := by
  intro k
  induction k with
  | zero =>
    intro _ _ _ _
    rfl
  | succ k ih =>
    intro fuel a n hk
    cases fuel with
    | zero => cases hk
    | succ fuel =>
      rcases sweep_cases sizeAt a n fuel with ⟨_, hnil⟩ | ⟨size, hsize, _, hcons⟩
      · rw [hnil] at hk
        cases hk
      · rw [hcons] at hk ⊢
        rw [extent_succ hsize, ih _ _ _ (Nat.le_of_succ_le_succ hk), List.take_succ_cons,
          totalSize_cons, Option.map_some]

/-- Behind the last one nothing decodes, or what does is longer than what is left. -/
theorem sweep_stop {sizeAt : BitVec w → Option UInt16}
    (hpos : ∀ a k, sizeAt a = some k → 1 ≤ k.toNat) :
    ∀ (fuel : Nat) (a : BitVec w) (n : Nat), n ≤ fuel →
      ∀ k, sizeAt (a + BitVec.ofNat w (totalSize (sweep sizeAt fuel a n))) = some k →
        n < totalSize (sweep sizeAt fuel a n) + k.toNat := by
  intro fuel
  induction fuel with
  | zero =>
    intro a n hn k hk
    have := hpos _ k hk
    omega
  | succ fuel ih =>
    intro a n hn k hk
    rcases sweep_cases sizeAt a n fuel with ⟨hlong, hnil⟩ | ⟨size, hsize, hfits, hcons⟩
    · rw [hnil] at hk ⊢
      have hzero : totalSize [] = 0 := rfl
      rw [hzero, BitVec.add_zero] at hk
      rw [hzero, Nat.zero_add]
      exact hlong k hk
    · have h1 := hpos a size hsize
      rw [hcons, totalSize_cons] at hk ⊢
      rw [BitVec.ofNat_add, ← BitVec.add_assoc] at hk
      have := ih _ (n - size.toNat) (by omega) k hk
      omega

/-! ## What the disassembler found in the window -/

section Window

variable {d : Disassembler b} {env : HookEnv b} (henv : env.csDisasm = d.csDisasm) (s : Loader b)
  (address : Addr b)

include henv

theorem decodedSizes_eq_sweep :
    decodedSizes env s address = sweep (d.sizeAt s.mem) disasmWindow address disasmWindow := by
  unfold decodedSizes
  rw [henv]
  exact d.window _ _ _

theorem decodedSizes_le : ∀ size ∈ decodedSizes env s address, size.toNat ≤ 15 := by
  intro size h
  rw [decodedSizes_eq_sweep henv] at h
  obtain ⟨a, ha⟩ := mem_sweep h
  exact (d.sizes s.mem a size ha).2

theorem extent_decodedSizes (k : Nat) :
    extent (d.sizeAt s.mem) (min k (decodedSizes env s address).length) address
      = some (totalSize ((decodedSizes env s address).take k)) := by
  rw [List.take_eq_take_min, decodedSizes_eq_sweep henv]
  exact extent_sweep _ _ _ _ (Nat.min_le_right _ _)

/-- Where fifteen bytes are left no instruction is too long, so none is there. -/
theorem decodedSizes_stop (hleft : totalSize (decodedSizes env s address) + 15 ≤ disasmWindow) :
    d.sizeAt s.mem (address + BitVec.ofNat _ (totalSize (decodedSizes env s address))) = none := by
  rw [Option.eq_none_iff_forall_ne_some]
  intro k hk
  rw [decodedSizes_eq_sweep henv] at hk hleft
  have hstop := sweep_stop (fun a k h => (d.sizes s.mem a k h).1) disasmWindow address
    disasmWindow (Nat.le_refl _) k hk
  have := (d.sizes s.mem _ k hk).2
  omega

end Window

/-! ## The displaced length -/

/-- What a displaced length has to be, for the instructions a disassembler finds at an address. -/
structure DisplacedLength (d : Disassembler b) (s : Loader b) (address : Addr b) (sizes : List UInt16)
    (len : SizeT b) : Prop where
  boundary : ∃ k, len.toNat = totalSize (sizes.take k)
    ∧ extent (d.sizeAt s.mem) k address = some len.toNat
  least : (∃ k, b.minHookLength ≤ totalSize (sizes.take k)) →
    IsLeast {n | b.minHookLength ≤ n ∧ ∃ k, n = totalSize (sizes.take k)} len.toNat
      ∧ len.toNat ≤ b.minHookLength + 14
  short : (¬∃ k, b.minHookLength ≤ totalSize (sizes.take k)) →
    len.toNat = totalSize sizes
      ∧ d.sizeAt s.mem (address + len) = none
      ∧ len.toNat + 15 ≤ disasmWindow

section Displaced

variable {d : Disassembler b} {env : HookEnv b} (henv : env.csDisasm = d.csDisasm) {s : Loader b}
  {address : Addr b}

include henv

theorem displacedLength_long (hlong : b.minHookLength ≤ totalSize (decodedSizes env s address)) :
    DisplacedLength d s address (decodedSizes env s address) (hookLen env s address) := by
  have hpos := minHookLength_pos b
  have hlen := hookLen_toNat env s address
  obtain ⟨⟨k, hk⟩, hge, hleast⟩ :=
    hookLenLoop_least (b := b) (decodedSizes env s address) 0 (by omega) (by omega)
  rw [Nat.zero_add] at hk
  refine ⟨⟨min k (decodedSizes env s address).length, ?_, ?_⟩, ?_, ?_⟩
  · rw [hlen, hk, ← List.take_eq_take_min]
  · rw [hlen, hk, extent_decodedSizes henv]
  · intro _
    -- before the last instruction it was too short, and that one has fifteen bytes at most
    have hlt := hookLenLoop_lt (b := b) _ 0 (by omega) (decodedSizes_le henv s address)
    rw [hlen]
    refine ⟨⟨⟨hge, k, hk⟩, ?_⟩, by omega⟩
    rintro _ ⟨hn, j, rfl⟩
    have := hleast j (by omega)
    omega
  · intro hnone
    exact absurd ⟨_, by rwa [List.take_length]⟩ hnone

theorem displacedLength_short (hshort : totalSize (decodedSizes env s address) < b.minHookLength) :
    DisplacedLength d s address (decodedSizes env s address) (hookLen env s address) := by
  have hmin := minHookLength_le b
  have hlen : (hookLen env s address).toNat = totalSize (decodedSizes env s address) := by
    rw [hookLen_toNat, hookLenLoop_all _ 0 (by omega), Nat.zero_add]
  have hleft : totalSize (decodedSizes env s address) + 15 ≤ disasmWindow := by
    unfold disasmWindow
    omega
  have hall := extent_decodedSizes henv s address (decodedSizes env s address).length
  rw [Nat.min_self, List.take_length] at hall
  refine ⟨⟨(decodedSizes env s address).length, ?_, ?_⟩, ?_, ?_⟩
  · rw [hlen, List.take_length]
  · rw [hlen, hall]
  · rintro ⟨k, hk⟩
    exact absurd (Nat.le_trans hk (totalSize_take_le _ k)) (Nat.not_le.mpr hshort)
  · intro _
    have haddr : hookLen env s address = BitVec.ofNat _ (totalSize (decodedSizes env s address)) := by
      rw [← hlen, BitVec.ofNat_toNat, BitVec.setWidth_eq]
    refine ⟨hlen, ?_, by rw [hlen]; exact hleft⟩
    rw [haddr]
    exact decodedSizes_stop henv s address hleft

end Displaced

/--
**The displaced length.** It is that of the shortest run of whole instructions which
the patch fits in; a shorter one is all there is before bytes that are no instruction.
-/
theorem hookLen_displaced (d : Disassembler b) (assembler : Assembler b) (hookPtr : Addr b)
    (s : Loader b) (address : Addr b) :
    DisplacedLength d s address (decodedSizes ⟨d.csDisasm, assembler, hookPtr⟩ s address)
      (hookLen ⟨d.csDisasm, assembler, hookPtr⟩ s address) := by
  by_cases hlong : b.minHookLength
      ≤ totalSize (decodedSizes ⟨d.csDisasm, assembler, hookPtr⟩ s address)
  · exact displacedLength_long rfl hlong
  · exact displacedLength_short rfl (Nat.not_le.mp hlong)

end CommonLoader
