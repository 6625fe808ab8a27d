import CommonLoader.Model.AssemblerService

/-!
# The hook service

`HookService.cpp`. A hook displaces whole instructions at an address: they are
copied into a trampoline on the heap together with the assembled code, and a jump
or a call to the trampoline is written over them.

The disassembler, the assembler and the allocator are parameters. A write goes
through whatever the protection of its page says.
-/

namespace CommonLoader

open ByteMemory CText

variable {b : Build}

/-- `MIN_HOOK_LENGTH`. -/
def Build.minHookLength : Build → Nat
  | win32 => 5
  | win64 => 14

/-! ## `EHookBehavior` and `EHookParameter`, as the `int`s they are passed as -/

def eHookBehaviorBefore : BitVec 32 := 0
def eHookBehaviorAfter : BitVec 32 := 1
def eHookBehaviorReplace : BitVec 32 := 2

/-- One of the three behaviours. -/
def KnownBehavior (behavior : BitVec 32) : Prop :=
  behavior = eHookBehaviorBefore ∨ behavior = eHookBehaviorAfter ∨ behavior = eHookBehaviorReplace

instance (behavior : BitVec 32) : Decidable (KnownBehavior behavior) :=
  inferInstanceAs (Decidable (_ ∨ _))

def eHookParameterJump : BitVec 32 := 0
def eHookParameterCall : BitVec 32 := 1

/-! ## Page protections -/

/-- `PAGE_READWRITE`. -/
def pageReadWrite : BitVec 32 := 0x04

/-- `PAGE_EXECUTE_READWRITE`. -/
def pageExecuteReadWrite : BitVec 32 := 0x40

/-- Bytes in a page. -/
def pageSize : Nat := 0x1000

/-- The page of a byte. -/
def pageOf (x : Addr b) : Nat := x.toNat / pageSize

/--
`VirtualProtect`: every page the range meets gets the protection, the one of the
first page is given back. Of an empty range it fails, and leaves `oldProtect` as
it was.
-/
def virtualProtect (prot : Nat → BitVec 32) (address : Addr b) (size : SizeT b)
    (newProtect oldProtect : BitVec 32) : BitVec 32 × (Nat → BitVec 32) :=
  if size = 0 then (oldProtect, prot)
  else
    (prot (address.toNat / pageSize), fun page =>
      if address.toNat / pageSize ≤ page
          ∧ page ≤ (address.toNat + size.toNat - 1) / pageSize then newProtect
      else prot page)

/-! ## `WriteASMHook` -/

/-- What a hook is written with. -/
structure HookEnv (b : Build) where
  /-- `cs_disasm`: the sizes of the instructions it decodes from these bytes -/
  csDisasm : Bytes → Addr b → List UInt16
  assembler : Assembler b
  /-- the block `_aligned_malloc` returns -/
  hookPtr : Addr b

/-- The bytes handed to the disassembler. -/
def disasmWindow : Nat := 64

/-- `CALCULATE_JUMP`. -/
def calculateJump (destination target : SizeT b) : SizeT b := target - (destination + 4)

/-- The loop over the decoded instructions, from `hookLen` on. -/
def hookLenLoop (b : Build) : List UInt16 → Nat → Nat
  | [], hookLen => hookLen
  | size :: insn, hookLen =>
      if hookLen + size.toNat ≥ b.minHookLength then hookLen + size.toNat
      else hookLenLoop b insn (hookLen + size.toNat)

/-- `hookLen` for a hook at an address. -/
def hookLen (env : HookEnv b) (s : Loader b) (address : Addr b) : SizeT b :=
  BitVec.ofNat _ (hookLenLoop b (env.csDisasm (load s.mem address disasmWindow) address) 0)

/--
The `switch` over the behaviour, with `pos` running through the trampoline. The
result is the memory and the last `pos`; an unknown behaviour has none.
-/
def writeBody (mem : Mem b.bits) (behavior : BitVec 32) (pos : Addr b) (code : Bytes)
    (address : Addr b) (hookLen : SizeT b) : Option (Mem b.bits × Addr b) :=
  if behavior = eHookBehaviorBefore then
    let mem := store mem pos code
    let pos := pos + BitVec.ofNat _ code.length
    let mem := store mem pos (load mem address hookLen.toNat)
    let pos := pos + hookLen
    some (mem, pos)
  else if behavior = eHookBehaviorAfter then
    let mem := store mem pos (load mem address hookLen.toNat)
    let pos := pos + hookLen
    let mem := store mem pos code
    let pos := pos + BitVec.ofNat _ code.length
    some (mem, pos)
  else if behavior = eHookBehaviorReplace then
    let mem := store mem pos code
    let pos := pos + BitVec.ofNat _ code.length
    some (mem, pos)
  else none

/-- The end of the trampoline: back to `target`, or return. -/
def writeTail (mem : Mem b.bits) (parameter : BitVec 32) (pos target : Addr b) : Mem b.bits :=
  match b with
  | .win32 =>
      if parameter = eHookParameterJump then
        let mem := store mem pos [0xE9]
        let pos := pos + 1
        store mem pos (leBytes 4 (calculateJump pos target).toNat)
      else store mem pos [0xC3]
  | .win64 =>
      if parameter = eHookParameterJump then
        let mem := store mem pos [0xFF, 0x25, 0x00, 0x00, 0x00, 0x00]
        store mem (pos + 6) (leBytes 8 target.toNat)
      else store mem pos [0xC3]

/-- The loop that fills the displaced bytes, `for (ptr = address; ptr < address + hookLen; ptr++)`. -/
def writeNops (mem : Mem b.bits) (address : Addr b) (hookLen : SizeT b) : Mem b.bits :=
  store mem address (List.replicate ((address + hookLen).toNat - address.toNat) 0x90)

/-- The jump or call to the trampoline. -/
def writePatch (mem : Mem b.bits) (parameter : BitVec 32) (address hookPtr : Addr b) : Mem b.bits :=
  match b with
  | .win32 =>
      let mem := store mem address [if parameter = eHookParameterJump then 0xE9 else 0xE8]
      store mem (address + 1) (leBytes 4 (calculateJump (address + 1) hookPtr).toNat)
  | .win64 =>
      let mem := store mem address
        [0xFF, if parameter = eHookParameterJump then 0x25 else 0x15, 0x00, 0x00, 0x00, 0x00]
      store mem (address + 6) (leBytes 8 hookPtr.toNat)

/-- The source is assembled for the base of the module. -/
def compileHook (env : HookEnv b) (s : Loader b) (source : Bytes) : AssemblerResult b :=
  compileAssembly env.assembler s source (s.moduleInfo.base.signExtend 64)

/-- `HookService::WriteASMHook`. -/
def writeASMHook (env : HookEnv b) (s : Loader b) (source : Bytes) (address : Addr b)
    (behavior parameter : BitVec 32) : Bool × Loader b :=
  let hookLen := hookLen env s address
  let compiledCode := compileHook env s source
  let s := if compiledCode.errors ≠ [] then onError s compiledCode else s
  match writeBody s.mem behavior env.hookPtr compiledCode.code address hookLen with
  | none => (false, s)
  | some (mem, pos) =>
      let mem := writeTail mem parameter pos (address + hookLen)
      let (oldProtect, prot) := virtualProtect s.prot address hookLen pageReadWrite 0
      let mem := writeNops mem address hookLen
      let mem := writePatch mem parameter address env.hookPtr
      let (oldProtect, prot) := virtualProtect prot address hookLen oldProtect oldProtect
      let (_, prot) := virtualProtect prot env.hookPtr
        (BitVec.ofNat _ compiledCode.code.length) pageExecuteReadWrite oldProtect
      (true, { s with mem, prot })

/-- The size asked of `_aligned_malloc`. -/
def trampolineSize (env : HookEnv b) (s : Loader b) (source : Bytes) (address : Addr b) : Nat :=
  (compileHook env s source).code.length + (hookLen env s address).toNat + b.minHookLength

/-! ## `NopInstructions` -/

/-- The length, the entries of `insn` that were read, and the new state. -/
structure NopResult (b : Build) where
  length : BitVec 32
  reads : List Nat
  loader : Loader b

/-- The size loop: entries to go, the next one, the sum so far. -/
def nopLenLoop (size : Nat → UInt16) : Nat → Nat → SizeT b → SizeT b × List Nat
  | 0, _, nopLen => (nopLen, [])
  | left + 1, i, nopLen =>
      let r := nopLenLoop size left (i + 1) (nopLen + BitVec.ofNat _ (size i).toNat)
      (r.1, i :: r.2)

/-- The bytes `NopInstructions` overwrites: the sizes it was asked for, added up. -/
def nopLength (csDisasm : Bytes → Addr b → List UInt16) (beyond : Nat → UInt16) (s : Loader b)
    (address : Addr b) (count : BitVec 32) : SizeT b :=
  (nopLenLoop (fun i =>
    ((csDisasm (load s.mem address (16 * count).toNat) address)[i]?).getD (beyond i)) count.toNat 0 0).1

/--
`HookService::NopInstructions`. The window is an `unsigned` product. `beyond` is
what lies behind the entries that `cs_disasm` filled in.
-/
def nopInstructions (csDisasm : Bytes → Addr b → List UInt16) (beyond : Nat → UInt16)
    (s : Loader b) (address : Addr b) (count : BitVec 32) : NopResult b :=
  let insn := csDisasm (load s.mem address (16 * count).toNat) address
  let r := nopLenLoop (fun i => (insn[i]?).getD (beyond i)) count.toNat 0 0
  let nopLen := r.1
  let (oldProtect, prot) := virtualProtect s.prot address nopLen pageReadWrite 0
  let mem := store s.mem address (List.replicate nopLen.toNat 0x90)
  let (_, prot) := virtualProtect prot address nopLen oldProtect oldProtect
  ⟨nopLen.setWidth 32, r.2, { s with mem, prot }⟩

end CommonLoader
