import CommonLoader.Lib.Runs
import CommonLoader.Model.HookService
import CommonLoader.Model.SigScanner

/-!
# A process that serves its mods

`MemoryProvider.h`, and what codes ask of the loader while it runs their
initialisers: writes, hooks, no-ops, assemblies, symbols, scans, states. The calls of a
process are one list, in the order in which they come.

The provider writes nothing below the base of the module. That is the whole of
its test: it asks for the first byte only. A call it lets through may still throw, or
end the process: memory may be read everywhere, but not written everywhere, and before
`Init` there is no assembler and no disassembler.
-/

namespace CommonLoader

open ByteMemory CText Runs

variable {b : Build}

/-! ## `MemoryProvider` -/

/-- `IsMemoryWritable`. -/
def MemoryProvider.isMemoryWritable (s : Loader b) (mem : Addr b) : Bool :=
  !decide (mem < s.moduleInfo.base)

/-- `WriteMemory`, of any of its three kinds: the bytes that `memcpy` takes from the data. -/
def MemoryProvider.writeMemory (s : Loader b) (address : Addr b) (data : Bytes) : Loader b :=
  if MemoryProvider.isMemoryWritable s address then { s with mem := store s.mem address data }
  else s

/-- `ReadMemory`, which does not ask. -/
def MemoryProvider.readMemory (s : Loader b) (address : Addr b) (length : Nat) : Bytes :=
  load s.mem address length

/-- `WriteASMHook`; the result of the service is dropped. -/
def MemoryProvider.writeASMHook (env : HookEnv b) (s : Loader b) (instructions : Bytes)
    (address : Addr b) (behavior parameter : BitVec 32) : Loader b :=
  if MemoryProvider.isMemoryWritable s address then
    (CommonLoader.writeASMHook env s instructions address behavior parameter).2
  else s

/-- `NopInstructions`. -/
def MemoryProvider.nopInstructions (csDisasm : Bytes → Addr b → List UInt16) (beyond : Nat → UInt16)
    (s : Loader b) (address : Addr b) (count : BitVec 32) : BitVec 32 × Loader b :=
  if MemoryProvider.isMemoryWritable s address then
    if count = 0 then (0, s)
    else
      let r := CommonLoader.nopInstructions csDisasm beyond s address count
      (r.length, r.loader)
  else (0, s)

/-! ## Calls -/

/-- The three kinds of `WriteMemory`: of a pointer and a length, of an array, of one value. -/
inductive WriteKind where
  | pointer
  | array
  | value
deriving DecidableEq

/-- What a code asks of the loader. -/
inductive Call (b : Build) where
  | writeMemory (kind : WriteKind) (address : Addr b) (data : Bytes)
  | writeASMHook (env : HookEnv b) (instructions : Bytes) (address : Addr b)
      (behavior parameter : BitVec 32)
  | nopInstructions (csDisasm : Bytes → Addr b → List UInt16) (beyond : Nat → UInt16)
      (address : Addr b) (count : BitVec 32)
  | assembleInstructions (assembler : Assembler b) (instructions : Bytes)
  | setSymbol (name : Option Bytes) (value : BitVec 64)
  | removeSymbol (name : Option Bytes)
  | scan (call : ScanCall b)
  | setState (state value : SizeT b)
  | setStateFlag (state flag : SizeT b) (set : Bool)
  | saveOptions (env : SaveEnv)

/-- What a call does to the process, which it does not end. -/
def serve (s : Loader b) : Call b → Loader b
  | .writeMemory _ address data => MemoryProvider.writeMemory s address data
  | .writeASMHook env instructions address behavior parameter =>
      MemoryProvider.writeASMHook env s instructions address behavior parameter
  | .nopInstructions csDisasm beyond address count =>
      (MemoryProvider.nopInstructions csDisasm beyond s address count).2
  | .assembleInstructions assembler instructions =>
      (assembleInstructions assembler s instructions).2
  | .setSymbol name value => setSymbol s name value
  | .removeSymbol name => (removeSymbol s name).2
  | .scan call => (scan s call).loader
  | .setState state value => setState s state value
  | .setStateFlag state flag set => setStateFlag s state flag set
  | .saveOptions env => (save s env).2

/-- The process after a list of calls. -/
def serveAll (s : Loader b) (cs : List (Call b)) : Loader b := cs.foldl serve s

/-! ## Calls that fail -/

/-- How something fails: with an exception, which can be caught, or at an access violation. -/
inductive Failure where
  | exception
  | fault
deriving DecidableEq

/-- `PAGE_READWRITE` or `PAGE_WRITECOPY`, with or without `EXECUTE`, and no `PAGE_GUARD`. -/
def Writable (prot : BitVec 32) : Prop := prot &&& 0xCC ≠ 0 ∧ prot &&& 0x100 = 0

instance (prot : BitVec 32) : Decidable (Writable prot) := inferInstanceAs (Decidable (_ ∧ _))

/-- Every byte of a block lies on a page that can be written. -/
def CanWrite (prot : Nat → BitVec 32) (address : Addr b) (size : Nat) : Prop :=
  ∀ k, k < size → Writable (prot (pageOf (address + BitVec.ofNat _ k)))

instance (prot : Nat → BitVec 32) (address : Addr b) (size : Nat) :
    Decidable (CanWrite prot address size) := inferInstanceAs (Decidable (∀ _, _ → _))

/-- The protections while a patch is written. -/
def openedProt (s : Loader b) (address : Addr b) (size : SizeT b) : Nat → BitVec 32 :=
  (virtualProtect s.prot address size pageReadWrite 0).2

/-- The bytes that `WriteASMHook` overwrites: no-ops, and the patch however few of them there are. -/
def patchLength (env : HookEnv b) (s : Loader b) (address : Addr b) : Nat :=
  max ((address + hookLen env s address).toNat - address.toNat) b.minHookLength

/--
Whether a call fails, and how. `&data[0]` and `&bytes[0]` throw for an empty array; `ks_asm`
follows its engine, and `NopInstructions` the array of instructions, also where it is null.
-/
def Call.outcome (s : Loader b) : Call b → Option Failure
  | .writeMemory kind address data =>
      if MemoryProvider.isMemoryWritable s address then
        if kind = .array ∧ data = [] then some .exception
        else if CanWrite s.prot address data.length then none
        else some .fault
      else none
  | .writeASMHook env _ address behavior _ =>
      if MemoryProvider.isMemoryWritable s address then
        if s.isInit = false then some .fault
        else if KnownBehavior behavior ∧ ¬ CanWrite (openedProt s address (hookLen env s address)) address
            (patchLength env s address) then some .fault
        else none
      else none
  | .nopInstructions csDisasm beyond address count =>
      if MemoryProvider.isMemoryWritable s address ∧ count ≠ 0 then
        let nopLen := nopLength csDisasm beyond s address count
        if s.isInit = false ∨ csDisasm (load s.mem address (16 * count).toNat) address = [] then
          some .fault
        else if CanWrite (openedProt s address nopLen) address nopLen.toNat then none
        else some .fault
      else none
  | .assembleInstructions assembler instructions =>
      if s.isInit = false then some .fault
      else if (CommonLoader.assembleInstructions assembler s instructions).1 = none then some .exception
      else none
  | _ => none

/--
What a code does: it makes a call, which may throw into a handler of the code, or it throws an
exception of its own and does not catch it.
-/
inductive Action (b : Build) where
  | call (call : Call b) (caught : Bool)
  | throw

/-- The calls of an action. -/
def Action.calls : Action b → List (Call b)
  | .call c _ => [c]
  | .throw => []

/-- Whether an action fails, and how: an access violation has no handler. -/
def Action.outcome (s : Loader b) : Action b → Option Failure
  | .call c caught =>
      match c.outcome s with
      | some .exception => if caught then none else some .exception
      | failure => failure
  | .throw => some .exception

/-- What it does to the process. -/
def Action.perform (s : Loader b) (a : Action b) : Except Failure (Loader b) :=
  match a.outcome s with
  | some failure => .error failure
  | none => .ok (serveAll s a.calls)

/-- What a code does, up to the first action that fails. -/
def performAll (s : Loader b) (as : List (Action b)) : Except Failure (Loader b) :=
  attempt Action.perform s as

/-! ## The log -/

/-- `"Error assembling statements in hook at 0x{:08X}."` -/
def hookErrorMessage (address : Addr b) : Bytes :=
  ascii "Error assembling statements in hook at 0x"
    ++ (printDigits 16 address.toNat).leftpad 8 0x30 ++ ascii "."

/-- What a call hands to `Logger::Error`, which shows it if there is a console window. -/
def serveErrors (strerror : BitVec 32 → Bytes) (s : Loader b) : Call b → List Bytes
  | .writeASMHook env instructions address _ _ =>
      if MemoryProvider.isMemoryWritable s address then
        onErrorErrors strerror s (some (hookErrorMessage address)) (compileHook env s instructions)
      else []
  | .assembleInstructions assembler instructions =>
      onErrorErrors strerror s (some (ascii "Error assembling statements."))
        (compileAssembly assembler s instructions 0)
  | .scan call => scanErrors s call
  | _ => []

/-- What a session hands to it. -/
def sessionErrors (strerror : BitVec 32 → Bytes) (s : Loader b) (cs : List (Call b)) : List Bytes :=
  collect serve (serveErrors strerror) s cs

/-! ## `RaiseInitializers` -/

/-- The text of the message box, if the flags call for one. -/
def initErrorText (sigFailed asmFailed : Bool) : Option String :=
  if sigFailed || asmFailed then
    let reason :=
      if sigFailed && asmFailed then
        "One or more critical errors occurred upon initialisation."
      else if sigFailed then "Failed to find signatures."
      else "Failed to compile assembly in one or more codes."
    some (reason ++ "\n\n"
      ++ "This may lead to unstable behaviour and could potentially result in a game crash."
      ++ "\n\n" ++ "Would you like to continue anyway?")
  else none

/--
`CommonLoader::RaiseInitializers`: what the initialisers do, then the flags. Nobody looks at
these when an initialiser fails.
-/
def raiseInitializers (s : Loader b) (initializers : List (Action b)) :
    Except Failure (Option String × Loader b) :=
  match performAll s initializers with
  | .error failure => .error failure
  | .ok s =>
      let sigFailed := getState s initSigScanFailed ≠ 0
      let asmFailed := getState s initAssemblyFailed ≠ 0
      .ok (initErrorText sigFailed asmFailed, s)

end CommonLoader
