import CommonLoader.Lib.FirstMatch
import CommonLoader.Model.ApplicationStore

/-!
# The signature scanner

`SigScanner.cpp`: the search, the cache in front of it, and the text form in which
the cache outlives the process.

A search also returns the positions of the memory bytes it compared. They are
numbers, not addresses: a position past the end of the address space stays past
the end instead of coming round to the beginning.
-/

namespace CommonLoader

open ByteMemory CText

variable {b : Build}

/-- `'?'` -/
def wildcard : UInt8 := 0x3F

/-- `ScannerSection`. -/
def scannerSection : Bytes := ascii "SigScanner"

/-! ## Keys and their text -/

/-- `char buf[32]`, for a key or an offset. -/
def keyBuffer : Nat := 32

/-- What `"%x.%x"` makes of a key. -/
def SignatureKey.text (key : SignatureKey) : Bytes :=
  printHex key.pattern.toNat ++ [0x2E] ++ printHex key.mask.toNat

/-- `SignatureKey::MakeString`, which takes every buffer for one of 32 bytes. -/
def SignatureKey.makeString (key : SignatureKey) : Option Bytes := sprintfS keyBuffer key.text

/-- `%x` into a `uint32_t`. -/
def scanUint32 (s : Bytes) : Option (UInt32 × Bytes) :=
  (scanHex s).map fun r => (UInt32.ofBitVec (r.1.setWidth 32), r.2)

/-- `SignatureKey::ParseString`. -/
def SignatureKey.parseString (str : Bytes) : Option SignatureKey :=
  match scanUint32 str with
  | some (pattern, 0x2E :: rest) =>
      match scanUint32 rest with
      | some (mask, _) => some ⟨pattern, mask⟩
      | none => none
  | _ => none

/-- `MakePatternHash`. -/
def makePatternHash (pattern mask : Buf) (patternLength : SizeT b) : SignatureKey :=
  ⟨xxh32 (pattern.take patternLength.toNat) 0, xxh32 (mask.take patternLength.toNat) 0⟩

/-! ## The search -/

/--
The inner loop of `ScanUncached` at `memory`, from index `j` on with `left` indices
to go. The result is the index it stops at and the indices whose byte it read; a
wildcard is passed over without a read.
-/
def compareLoop (mem : Mem b.bits) (pattern mask : Buf) (memory : Addr b) :
    Nat → Nat → Nat × List Nat
  | 0, j => (j, [])
  | left + 1, j =>
      if mask j ≠ wildcard then
        if pattern j ≠ mem (memory + BitVec.ofNat _ j) then (j, [j])
        else
          let r := compareLoop mem pattern mask memory left (j + 1)
          (r.1, j :: r.2)
      else compareLoop mem pattern mask memory left (j + 1)

/-- The outer loop, from index `i` on with `left` start positions to go. -/
def searchLoop (mem : Mem b.bits) (pattern mask : Buf) (patternLength : Nat) (pBegin : Addr b) :
    Nat → Nat → Option Nat × List Nat
  | 0, _ => (none, [])
  | left + 1, i =>
      let r := compareLoop mem pattern mask (pBegin + BitVec.ofNat _ i) patternLength 0
      let reads := r.2.map (pBegin.toNat + i + ·)
      if r.1 = patternLength then (some i, reads)
      else
        let rest := searchLoop mem pattern mask patternLength pBegin left (i + 1)
        (rest.1, reads ++ rest.2)

/-- What a scan gives back: the address or null, the positions compared, the new state. -/
structure ScanResult (b : Build) where
  address : Addr b
  reads : List Nat
  loader : Loader b

/-- `ScanUncached`. -/
def scanUncached (s : Loader b) (pattern mask : Buf) (patternLength : SizeT b)
    (pBegin : Addr b) (size : SizeT b) (validate : Bool) : ScanResult b :=
  if pBegin = 0 then ⟨0, [], s⟩
  else
    let r := searchLoop s.mem pattern mask patternLength.toNat pBegin size.toNat 0
    match r.1 with
    | some i => ⟨pBegin + BitVec.ofNat _ i, r.2, s⟩
    | none => ⟨0, r.2, if validate then setState s initSigScanFailed 1 else s⟩

/-! ## The cache -/

/-- `SearchSignatureCache`: a null entry answers for every range. -/
def searchSignatureCache (s : Loader b) (key : SignatureKey) (pBegin : Addr b) (size : SizeT b) :
    Option (Addr b) :=
  match s.sigLookupCache.lookup key with
  | none => none
  | some address =>
      if (pBegin ≤ address ∧ address < pBegin + size) ∨ address = 0 then some address else none

/-- The offset `CommitSignatureCache` stores for a result. -/
def addressUnBased (moduleInfo : ModuleInfo b) (pMemory : Addr b) : Addr b :=
  if pMemory = 0 then 0 else pMemory - moduleInfo.base

/-- Its text, `%llx` of the zero-extended offset. -/
def offsetText (moduleInfo : ModuleInfo b) (pMemory : Addr b) : Bytes :=
  printHex (addressUnBased moduleInfo pMemory).toNat

/--
The string in a buffer after `sprintf_s`: an empty one if there was no room, unless the
handler of invalid parameters ends the process first.
-/
def bufferText (written : Option Bytes) : Bytes := (written.map cstr).getD []

/-- `CommitSignatureCache`, which drops the result of `Save`. -/
def commitSignatureCache (s : Loader b) (key : SignatureKey) (pMemory : Addr b)
    (env : SaveEnv) : Loader b :=
  let hashKey := bufferText key.makeString
  let buf := bufferText (sprintfS keyBuffer (offsetText s.moduleInfo pMemory))
  let s := { s with sigLookupCache := s.sigLookupCache.insert key pMemory }
  (save (setOption s scannerSection hashKey buf) env).2

/-- The arguments of one `Scan`, and what its `Save` meets. -/
structure ScanCall (b : Build) where
  pattern : Buf
  mask : Buf
  patternLength : SizeT b
  pBegin : Addr b
  size : SizeT b
  save : SaveEnv

/-- The key of a call. -/
def ScanCall.key (c : ScanCall b) : SignatureKey :=
  makePatternHash c.pattern c.mask c.patternLength

/-- `Scan(p_pattern, p_mask, pattern_length, p_begin, size)`. -/
def scan (s : Loader b) (c : ScanCall b) : ScanResult b :=
  match searchSignatureCache s c.key c.pBegin c.size with
  | some cachedResult =>
      if getState s skipSigValidation ≠ 0 then ⟨cachedResult, [], s⟩
      else scanUncached s c.pattern c.mask c.patternLength cachedResult c.patternLength false
  | none =>
      let r := scanUncached s c.pattern c.mask c.patternLength c.pBegin c.size true
      { r with loader := commitSignatureCache r.loader c.key r.address c.save }

/-- `strlen`. Where no byte is zero, the read leaves the memory and there is no result. -/
def strlen (b : Build) (p : Buf) : Option (SizeT b) :=
  (FirstMatch.search (fun i => p i == 0) (2 ^ b.bits) 0).map (BitVec.ofNat _)

/-- `FormatSignature`: as many bytes of the pattern as the mask has characters, and the mask. -/
def formatSignature (b : Build) (pattern mask : Buf) : Option Bytes :=
  (strlen b mask).map fun length =>
    [0x22] ++ (pattern.take length.toNat).flatMap (fun c => [0x5C, 0x78] ++ printByte c)
      ++ [0x22, 0x2C, 0x20, 0x22] ++ mask.take length.toNat ++ [0x22]

/-- What `ScanUncached` hands to `Logger::Error`. -/
def scanUncachedErrors (s : Loader b) (pattern mask : Buf) (patternLength : SizeT b)
    (pBegin : Addr b) (size : SizeT b) (validate : Bool) : List Bytes :=
  if pBegin = 0 then []
  else
    match (searchLoop s.mem pattern mask patternLength.toNat pBegin size.toNat 0).1 with
    | some _ => []
    | none =>
        if validate then
          let s := setState s initSigScanFailed 1
          if getState s disableLogging ≠ 0 then []
          else ((formatSignature b pattern mask).map (ascii "Signature scan failed: " ++ ·)).toList
        else []

/-- What a `Scan` hands to `Logger::Error`. -/
def scanErrors (s : Loader b) (c : ScanCall b) : List Bytes :=
  match searchSignatureCache s c.key c.pBegin c.size with
  | some cachedResult =>
      if getState s skipSigValidation ≠ 0 then []
      else scanUncachedErrors s c.pattern c.mask c.patternLength cachedResult c.patternLength false
  | none => scanUncachedErrors s c.pattern c.mask c.patternLength c.pBegin c.size true

/-- A call over the range of the module. -/
def moduleCall (s : Loader b) (pattern mask : Buf) (patternLength : SizeT b) (save : SaveEnv) :
    ScanCall b :=
  ⟨pattern, mask, patternLength, s.moduleInfo.base, s.moduleInfo.size.setWidth _, save⟩

/-- `Scan(p_pattern, p_mask)`: the mask ends where a C string does. -/
def scanModule (s : Loader b) (pattern mask : Buf) (save : SaveEnv) : Option (ScanResult b) :=
  (strlen b mask).map fun patternLength => scan s (moduleCall s pattern mask patternLength save)

/-- `Encoding::ASCII->GetBytes`: what is not ASCII becomes a question mark. -/
def asciiGetBytes (str : WStr) : Bytes := str.map fun c => if c < 0x80 then c.toUInt8 else 0x3F

/-- A pinned array: its elements, and then whatever lies behind them. -/
def Buf.ofArray (elements : Bytes) (beyond : Buf) : Buf := fun i => (elements[i]?).getD (beyond i)

/--
`MemoryProvider::ScanSignature`. There is no result when the arrays are empty: the
address of the first element throws.
-/
def MemoryProvider.scanSignature (s : Loader b) (pattern : Bytes) (mask : WStr)
    (beyondPattern beyondMask : Buf) (save : SaveEnv) : Option (ScanResult b) :=
  if pattern.length ≠ mask.length then some ⟨0, [], s⟩
  else if pattern = [] then none
  else
    scanModule s (Buf.ofArray pattern beyondPattern) (Buf.ofArray (asciiGetBytes mask) beyondMask)
      save

/-! ## Rebuilding the cache -/

/-- The value `InitSigScanner` turns a stored offset into. -/
def rebase (moduleInfo : ModuleInfo b) (address : BitVec 64) : Addr b :=
  (if address ≠ 0 then address + moduleInfo.base.signExtend 64 else address).setWidth b.bits

/-- One round of the loop of `InitSigScanner`. -/
def initSigScannerStep (moduleInfo : ModuleInfo b) (cache : UnorderedMap SignatureKey (Addr b))
    (v : Σ _ : Bytes, Bytes) : UnorderedMap SignatureKey (Addr b) :=
  match SignatureKey.parseString v.1 with
  | none => cache
  | some key =>
      match scanHex v.2 with
      | none => cache
      | some (address, _) => cache.insert key (rebase moduleInfo address)

/-- `InitSigScanner`. -/
def initSigScanner (s : Loader b) (order : IterOrder (Σ _ : Bytes, Bytes)) : Loader b :=
  { s with
    sigLookupCache := (getOptions s scannerSection order).foldl
      (initSigScannerStep s.moduleInfo) s.sigLookupCache }

/-- `CommonLoader::Init`. -/
def init (s : Loader b) (env : InitEnv) : Loader b :=
  if s.isInit then s
  else initSigScanner (initStore { s with isInit := true } env) env.scannerOrder

/-! ## Runs -/

/-- What can happen to a process, or to the machine between two processes. -/
inductive Event (b : Build) where
  | init (env : InitEnv)
  | scan (call : ScanCall b)
  | setState (state value : SizeT b)
  | setStateFlag (state flag : SizeT b) (set : Bool)
  | writeMemory (address : Addr b) (data : Bytes)
  | saveOptions (env : SaveEnv)
  | restart (moduleInfo : ModuleInfo b) (mem : Mem b.bits) (prot : Nat → BitVec 32)

def step (s : Loader b) : Event b → Loader b
  | .init env => init s env
  | .scan call => (scan s call).loader
  | .setState state value => setState s state value
  | .setStateFlag state flag set => setStateFlag s state flag set
  | .writeMemory address data => { s with mem := store s.mem address data }
  | .saveOptions env => (save s env).2
  | .restart moduleInfo mem prot => Loader.start moduleInfo mem prot s.files

/-- The state after a history. -/
def run (s : Loader b) (es : List (Event b)) : Loader b := es.foldl step s

end CommonLoader
