import CommonLoader.Model.Cpu
import CommonLoader.Model.HookService

/-!
# Jumps and calls

A hook is entered and left through one kind of instruction: a near jump, or a call
in its place. In 32-bit code that is an opcode and a displacement, in 64-bit code an
indirect jump through the pointer that follows it. `transfer` is its bytes, and
`step_transfer` what the processor does with them.
-/

namespace CommonLoader

open ByteMemory CText

variable {b : Build}

/-- The instruction at `a` that goes to `target`. -/
def transfer (call : Bool) (a target : Addr b) : Bytes :=
  match b with
  | .win32 => [if call then 0xE8 else 0xE9] ++ leBytes 4 (target - (a + 1 + 4)).toNat
  | .win64 => [0xFF, if call then 0x15 else 0x25] ++ [0x00, 0x00, 0x00, 0x00]
      ++ leBytes 8 target.toNat

/-- The length of the instruction itself: the pointer after `FF 15` is not part of it. -/
def Build.transferLength : Build → Nat
  | win32 => 5
  | win64 => 6

@[simp] theorem length_transfer (call : Bool) (a target : Addr b) :
    (transfer call a target).length = b.minHookLength := by
  cases b <;> rfl

theorem minHookLength_le (b : Build) : b.minHookLength ≤ 14 := by cases b <;> decide

theorem minHookLength_pos (b : Build) : 5 ≤ b.minHookLength := by cases b <;> decide

/-! ## Reading the instruction back -/

theorem load_one {w : Nat} {mem : Mem w} {a : BitVec w} {x : UInt8} (h : load mem a 1 = [x]) :
    mem a = x := by
  have hx : load mem a [x].length = [x] := h
  have h0 := load_eq_iff.mp hx 0 Nat.one_pos
  rwa [BitVec.add_zero] at h0

/-- A load of two known strings gives each at its place. -/
theorem load_append {w : Nat} {mem : Mem w} {a : BitVec w} (xs ys : Bytes)
    (h : load mem a (xs.length + ys.length) = xs ++ ys) :
    load mem a xs.length = xs ∧ load mem (a + BitVec.ofNat w xs.length) ys.length = ys := by
  rw [load_add] at h
  exact List.append_inj h (length_load ..)

theorem readDisp_leBytes {mem : Mem Build.win32.bits} {a : Addr .win32} {d : Addr .win32}
    (h : load mem a 4 = leBytes 4 d.toNat) : readDisp mem a = d := by
  unfold readDisp
  rw [h, ofLeBytes_leBytes_of_lt d.isLt, BitVec.ofNat_toNat]
  exact (BitVec.signExtend_eq _).trans (BitVec.setWidth_eq _)

theorem readPointer_leBytes {mem : Mem b.bits} {a p : Addr b}
    (h : load mem a b.sizeofSizeT = leBytes b.sizeofSizeT p.toNat) : readPointer mem a = p := by
  have hlt : p.toNat < 256 ^ b.sizeofSizeT := by cases b <;> exact p.isLt
  unfold readPointer
  rw [h, ofLeBytes_leBytes_of_lt hlt, BitVec.ofNat_toNat, BitVec.setWidth_eq]

/-- In 32-bit code the displacement counts from the end of the instruction. -/
theorem step_transfer32 (call : Bool) {mem : Mem Build.win32.bits} {a target : Addr .win32}
    {stack : List (Addr .win32)} (h : load mem a 5 = transfer (b := .win32) call a target) :
    Cpu.step mem ⟨a, stack⟩
      = some ⟨target, if call then (a + 5) :: stack else stack⟩ := by
  obtain ⟨hop, hrel⟩ := load_append ([if call then 0xE8 else 0xE9]) (leBytes 4 (target - (a + 1 + 4)).toNat) h
  have hop : mem a = if call then 0xE8 else 0xE9 := load_one hop
  have hdisp : readDisp mem (a + 1) = target - (a + 1 + 4) := readDisp_leBytes hrel
  have hgo : a + 5 + (target - (a + 1 + 4)) = target := by
    have : a + 1 + 4 = a + 5 := BitVec.add_assoc a 1 4
    rw [this, BitVec.add_comm, BitVec.sub_add_cancel]
  unfold Cpu.step
  dsimp only
  rw [hdisp, hgo, hop]
  cases call <;> rfl

/-- In 64-bit code the pointer lies right behind the instruction. -/
theorem step_transfer64 (call : Bool) {mem : Mem Build.win64.bits} {a target : Addr .win64}
    {stack : List (Addr .win64)} (h : load mem a 14 = transfer (b := .win64) call a target) :
    Cpu.step mem ⟨a, stack⟩
      = some ⟨target, if call then (a + 6) :: stack else stack⟩ := by
  obtain ⟨hhead, hptr⟩ := load_append ([0xFF, if call then 0x15 else 0x25] ++ [0x00, 0x00, 0x00, 0x00]) (leBytes 8 target.toNat) h
  obtain ⟨hop, hdisp⟩ := load_append ([0xFF, if call then 0x15 else 0x25]) ([0x00, 0x00, 0x00, 0x00]) hhead
  obtain ⟨h0, h1⟩ := load_append ([0xFF]) ([if call then 0x15 else 0x25]) hop
  have h0 : mem a = 0xFF := load_one h0
  have h1 : mem (a + 1) = if call then 0x15 else 0x25 := load_one h1
  have hzero : operandAddress mem a = a + 6 := by
    have hd : load mem (a + 2) 4 = [0x00, 0x00, 0x00, 0x00] := hdisp
    unfold operandAddress readDisp
    dsimp only
    rw [hd]
    exact BitVec.add_zero _
  have hp : readPointer mem (a + 6) = target := readPointer_leBytes hptr
  unfold Cpu.step
  dsimp only
  rw [hzero, hp, h0, h1]
  cases call <;> rfl

/-- **What the processor does with a transfer.** A call pushes the address after it. -/
theorem step_transfer (call : Bool) {mem : Mem b.bits} {a target : Addr b} {stack : List (Addr b)}
    (h : load mem a b.minHookLength = transfer call a target) :
    Cpu.step mem ⟨a, stack⟩
      = some ⟨target, if call then (a + BitVec.ofNat _ b.transferLength) :: stack else stack⟩ := by
  cases b with
  | win32 => exact step_transfer32 call h
  | win64 => exact step_transfer64 call h

end CommonLoader
