import CommonLoader.Model.State

/-!
# The processor

As much of it as runs the code a hook consists of: no-ops, returns, and the near
jumps and calls, relative and through memory. The stack holds return addresses.
-/

namespace CommonLoader

open ByteMemory

variable {b : Build}

structure Cpu (b : Build) where
  ip : Addr b
  stack : List (Addr b)
deriving DecidableEq

/-- A pointer in memory. -/
def readPointer (mem : Mem b.bits) (a : Addr b) : Addr b :=
  BitVec.ofNat _ (ofLeBytes (load mem a b.sizeofSizeT))

/-- A 4-byte displacement, sign-extended. -/
def readDisp (mem : Mem b.bits) (a : Addr b) : Addr b :=
  (BitVec.ofNat 32 (ofLeBytes (load mem a 4))).signExtend b.bits

/--
The memory operand of `FF 15` and `FF 25` at `ip`: an absolute address in 32-bit
code, and relative to the end of the instruction in 64-bit code.
-/
def operandAddress (mem : Mem b.bits) (ip : Addr b) : Addr b :=
  match b with
  | .win32 => readDisp mem (ip + 2)
  | .win64 => ip + 6 + readDisp mem (ip + 2)

/-- One instruction. -/
def Cpu.step (mem : Mem b.bits) (c : Cpu b) : Option (Cpu b) :=
  if mem c.ip = 0x90 then some ⟨c.ip + 1, c.stack⟩
  else if mem c.ip = 0xC3 then
    match c.stack with
    | [] => none
    | ret :: stack => some ⟨ret, stack⟩
  else if mem c.ip = 0xE9 then some ⟨c.ip + 5 + readDisp mem (c.ip + 1), c.stack⟩
  else if mem c.ip = 0xE8 then
    some ⟨c.ip + 5 + readDisp mem (c.ip + 1), (c.ip + 5) :: c.stack⟩
  else if mem c.ip = 0xFF ∧ mem (c.ip + 1) = 0x25 then
    some ⟨readPointer mem (operandAddress mem c.ip), c.stack⟩
  else if mem c.ip = 0xFF ∧ mem (c.ip + 1) = 0x15 then
    some ⟨readPointer mem (operandAddress mem c.ip), (c.ip + 6) :: c.stack⟩
  else none

/-- `n` instructions. -/
def Cpu.steps (mem : Mem b.bits) : Nat → Cpu b → Option (Cpu b)
  | 0, c => some c
  | n + 1, c => (c.step mem).bind (Cpu.steps mem n)

theorem Cpu.step_nop {mem : Mem b.bits} {c : Cpu b} (h : mem c.ip = 0x90) :
    c.step mem = some ⟨c.ip + 1, c.stack⟩ := by
  unfold Cpu.step
  rw [if_pos h]

theorem Cpu.step_ret {mem : Mem b.bits} {ip ret : Addr b} {stack : List (Addr b)}
    (h : mem ip = 0xC3) : Cpu.step mem ⟨ip, ret :: stack⟩ = some ⟨ret, stack⟩ := by
  unfold Cpu.step
  rw [if_neg (by rw [h]; decide), if_pos h]

/-- **A run of no-ops** is executed from end to end. -/
theorem Cpu.steps_nops {mem : Mem b.bits} (a : Addr b) (stack : List (Addr b)) : ∀ (n k : Nat),
    (∀ i, k ≤ i → i < k + n → mem (a + BitVec.ofNat _ i) = 0x90) →
    Cpu.steps mem n ⟨a + BitVec.ofNat _ k, stack⟩ = some ⟨a + BitVec.ofNat _ (k + n), stack⟩
  | 0, k, _ => rfl
  | n + 1, k, h => by
      have hstep : Cpu.step mem ⟨a + BitVec.ofNat _ k, stack⟩
          = some ⟨a + BitVec.ofNat _ k + 1, stack⟩ := Cpu.step_nop (h k (Nat.le_refl _) (by omega))
      have hnext : a + BitVec.ofNat b.bits k + 1 = a + BitVec.ofNat _ (k + 1) :=
        add_add_ofNat a k 1
      have ih := steps_nops a stack n (k + 1)
        fun i h1 h2 => h i (by omega) (by omega)
      rw [Cpu.steps, hstep, Option.bind_some, hnext, ih, show k + 1 + n = k + (n + 1) by omega]

end CommonLoader
