import CommonLoader.Model.ApplicationStore

/-!
# The assembler

`AssemblerService.cpp` over keystone's `ks_asm`. Keystone has three ways to say
that something went wrong: its return code, the error number of the parser, and a
list with one error for each statement that was skipped. What the parser and the
emitter make of a source is a parameter; what `ks_asm` and the wrapper make of
that is written out.
-/

namespace CommonLoader

open CText

variable {b : Build}

/-- `ks_err_context`, as `AssemblerError` passes it on. -/
structure AssemblerError where
  lineNum : Nat
  lineChar : Nat
  errNum : BitVec 32
  line : Bytes

/-- `KS_ERR_ASM`: error numbers of the parser start here. -/
def ksErrAsm : BitVec 32 := 128

/-- `KS_ERR_ASM_SYMBOL_MISSING`. -/
def ksErrAsmSymbolMissing : BitVec 32 := 144

/-- What keystone's parser leaves behind for `ks_asm`. -/
structure KsParse (b : Build) where
  /-- `MemoryBuffer::getMemBuffer` gave an error -/
  bufferError : Bool
  /-- the result of `Parser->Run`: statements that assembled -/
  statCount : SizeT b
  parserErrors : List AssemblerError
  /-- `Parser->KsError` -/
  ksError : BitVec 32
  /-- `Msg`, the bytes emitted -/
  msg : Bytes

/-- Keystone with its symbol resolver, given a source and the address of its first byte. -/
abbrev Assembler (b : Build) :=
  (Bytes → Option (BitVec 64)) → Bytes → BitVec 64 → KsParse b

/-- `AssemblerResult`; `length` and `errors_size` are the lengths of the two lists. -/
structure AssemblerResult (b : Build) where
  instructionCount : SizeT b
  /-- null when nothing was assembled -/
  data : Option Bytes
  errors : List AssemblerError

/-- The bytes `data` and `length` describe. -/
def AssemblerResult.code (r : AssemblerResult b) : Bytes := r.data.getD []

/-- `ks_asm`: the return code, and what it puts into a fresh result. -/
def ksAsm (parse : KsParse b) : Int × AssemblerResult b :=
  if parse.bufferError then (-1, ⟨0, none, []⟩)
  else if parse.ksError ≥ ksErrAsm then (-1, ⟨parse.statCount, none, parse.parserErrors⟩)
  else (0, ⟨parse.statCount, some parse.msg, parse.parserErrors⟩)

/-- `MakeStringHash`, of a string that is not null. -/
def makeStringHash (str : Bytes) : UInt32 := xxh32 str 0

/-- `AssemblerServiceImpl::ResolveSymbol`. -/
def resolveSymbol (s : Loader b) (symbol : Bytes) : Option (BitVec 64) :=
  s.symbolMap.lookup (makeStringHash symbol)

/-- `AssemblerService::CompileAssembly`; the return code of `ks_asm` is dropped. -/
def compileAssembly (assembler : Assembler b) (s : Loader b) (source : Bytes)
    (base : BitVec 64) : AssemblerResult b :=
  (ksAsm (assembler (resolveSymbol s) source base)).2

/-- `AssemblerService::OnError`. -/
def onError (s : Loader b) (result : AssemblerResult b) : Loader b :=
  if result.errors = [] then s else setState s initAssemblyFailed 1

/-- The line of one error; `strerror` is `ks_strerror`, a table of texts. -/
def errorText (strerror : BitVec 32 → Bytes) (indent : Bytes) (err : AssemblerError) : Bytes :=
  indent ++ ascii "(" ++ printDigits 10 err.lineNum ++ ascii "," ++ printDigits 10 err.lineChar
    ++ ascii "): error " ++ printDigits 10 err.errNum.toNat ++ ascii ": '" ++ cstr err.line
    ++ ascii "': " ++ strerror err.errNum

/-- What `OnError` hands to `Logger::Error`. -/
def onErrorErrors (strerror : BitVec 32 → Bytes) (s : Loader b) (message : Option Bytes)
    (result : AssemblerResult b) : List Bytes :=
  if result.errors = [] then []
  else
    let s := setState s initAssemblyFailed 1
    if getState s disableLogging ≠ 0 then []
    else
      let indent := if message.isSome then ascii "    " else []
      message.toList ++ result.errors.map (errorText strerror indent)

/--
`MemoryProvider::AssembleInstructions`. There is no result when the code is empty:
the address of the first element of an empty array throws.
-/
def assembleInstructions (assembler : Assembler b) (s : Loader b) (source : Bytes) :
    Option Bytes × Loader b :=
  let result := compileAssembly assembler s source 0
  let s := if result.errors ≠ [] then onError s result else s
  (if result.code = [] then none else some result.code, s)

/-! ## Symbols -/

/-- `MakeStringHash` of any pointer; `none` is null. -/
def symbolHash : Option Bytes → UInt32
  | none => 0
  | some str => makeStringHash str

def setSymbol (s : Loader b) (name : Option Bytes) (value : BitVec 64) : Loader b :=
  { s with symbolMap := s.symbolMap.insert (symbolHash name) value }

def getSymbol (s : Loader b) (name : Option Bytes) : Option (BitVec 64) :=
  s.symbolMap.lookup (symbolHash name)

/-- `erase` counts what it has erased. -/
def removeSymbol (s : Loader b) (name : Option Bytes) : Bool × Loader b :=
  ((s.symbolMap.lookup (symbolHash name)).isSome,
    { s with symbolMap := s.symbolMap.erase (symbolHash name) })

def setAssemblerSymbolImpl (s : Loader b) (name : Option Bytes) (value : BitVec 64) : Loader b :=
  if name = none then s else setSymbol s name value

/-- `out`: there is room for the value. -/
def getAssemblerSymbolImpl (s : Loader b) (name : Option Bytes) (out : Bool) : Option (BitVec 64) :=
  if name = none ∨ out = false then none else getSymbol s name

def removeAssemblerSymbolImpl (s : Loader b) (name : Option Bytes) : Bool × Loader b :=
  if name = none then (false, s) else removeSymbol s name

/-- `ManagedStringANSI`: the string in the code page, read up to its terminator. -/
def managedStringANSI (ansi : WStr → Bytes) (str : Option WStr) : Option Bytes :=
  str.map fun str => cstr (ansi str)

/-! `MemoryProvider`; its `unsigned long` has 32 bits. -/

def MemoryProvider.setAssemblerSymbol (ansi : WStr → Bytes) (s : Loader b) (name : Option WStr)
    (value : BitVec 32) : Loader b :=
  setSymbol s (managedStringANSI ansi name) (value.setWidth 64)

def MemoryProvider.getAssemblerSymbol (ansi : WStr → Bytes) (s : Loader b) (name : Option WStr) :
    Bool × BitVec 32 :=
  let result := getSymbol s (managedStringANSI ansi name)
  (result.isSome, (result.getD 0).setWidth 32)

def MemoryProvider.removeAssemblerSymbol (ansi : WStr → Bytes) (s : Loader b)
    (name : Option WStr) : Bool × Loader b :=
  removeSymbol s (managedStringANSI ansi name)

end CommonLoader
