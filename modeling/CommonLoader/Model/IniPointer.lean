import CommonLoader.Lib.Cursor
import CommonLoader.Model.ApplicationStore

/-!
# The INI reader and writer over their buffers

`externals/ini.h` once more, as the pointers run: positions in a terminated buffer,
lengths in an `int`, the fixed arrays and the allocations beside them, the two tables
that double when they are full. Every read and every write is checked, and none is the
answer of a run that leaves a buffer, an array or a table. Allocations succeed.
-/

namespace CommonLoader

open CText Cursor

/-- A length or a count, converted to `int`. -/
def toInt (n : Nat) : Int := (BitVec.ofNat 32 n).toInt

/-! ## Strings -/

/-- `char name[size]; char* name_large;`, as far as they are written. -/
structure IniChars where
  small : Bytes
  large : Option Bytes
deriving DecidableEq

/-- `name_large ? name_large : name` -/
def IniChars.chars (s : IniChars) : Bytes := s.large.getD s.small

/-- `INI_STRLEN` of what starts at `ptr`. -/
def strlenAt (src : Bytes) (ptr : Nat) : Option Nat := (walk (· ≠ 0) src ptr).map (· - ptr)

/-- `if (length <= 0) length = (int)INI_STRLEN(name);` -/
def orStrlen (src : Bytes) (ptr : Nat) (length : Int) : Option Int :=
  if length ≤ 0 then (strlenAt src ptr).map toInt else some length

/-- `length` characters and a terminator, into the array if that leaves room, else into an allocation. -/
def IniChars.copy (size : Nat) (src : Bytes) (ptr : Nat) (length : Int) : Option IniChars :=
  -- a negative length is a `size_t` that no buffer has
  if length < 0 then none
  else do
    let chars ← slice src ptr length.toNat
    if size ≤ length.toNat + 1 then
      let large ← fill (length.toNat + 1) (chars ++ [0])
      return ⟨[], some large⟩
    else
      let small ← fill size (chars ++ [0])
      return ⟨small, none⟩

/-! ## Tables -/

/-- `ini_internal_section_t`. -/
structure IniInternalSection where
  name : IniChars
deriving DecidableEq

/-- `ini_internal_property_t`. -/
structure IniInternalProperty where
  sectionIndex : Nat
  name : IniChars
  value : IniChars
deriving DecidableEq

/-- `ini_t`; the counts are the lengths of the tables. -/
structure IniT where
  sections : List IniInternalSection
  sectionCapacity : Nat
  properties : List IniInternalProperty
  propertyCapacity : Nat
deriving DecidableEq

def initialCapacity : Nat := 256

/-- `ini_create`. -/
def IniT.create : IniT := ⟨[⟨⟨[0], none⟩⟩], initialCapacity, [], initialCapacity⟩

/-- A full table is replaced by one of twice its size. -/
def grown (count capacity : Nat) : Nat := if capacity ≤ count then capacity * 2 else capacity

/-- `ini_section_add`: the new index, if its slot is there. -/
def IniT.sectionAdd (ini : IniT) (src : Bytes) (name : Nat) (length : Int) : Option (IniT × Nat) := do
  let length ← orStrlen src name length
  let capacity := grown ini.sections.length ini.sectionCapacity
  let chars ← IniChars.copy 32 src name length
  if ini.sections.length < capacity then
    return ({ ini with sections := ini.sections ++ [⟨chars⟩], sectionCapacity := capacity },
      ini.sections.length)
  else none

/-- `ini_property_add`. -/
def IniT.propertyAdd (ini : IniT) (sectionIndex : Nat) (nameSrc : Bytes) (name : Nat)
    (nameLength : Int) (valueSrc : Bytes) (value : Nat) (valueLength : Int) : Option IniT :=
  if sectionIndex < ini.sections.length then do
    let nameLength ← orStrlen nameSrc name nameLength
    let valueLength ← orStrlen valueSrc value valueLength
    let capacity := grown ini.properties.length ini.propertyCapacity
    let name ← IniChars.copy 32 nameSrc name nameLength
    let value ← IniChars.copy 64 valueSrc value valueLength
    if ini.properties.length < capacity then
      return { ini with
        properties := ini.properties ++ [⟨sectionIndex, name, value⟩]
        propertyCapacity := capacity }
    else none
  else some ini

/-! ## Reading -/

/-- A section, from the character after its bracket on. -/
def IniT.loadSection (data : Bytes) (ini : IniT) (s start : Nat) : Option (IniT × Nat × Nat) := do
  let ptr ← walk (fun c => c ≠ 0 && (c ≠ 0x5D && c ≠ 0x0A)) data start
  if (← data[ptr]?) = 0x5D then
    let (ini, s) ← ini.sectionAdd data start (toInt (ptr - start))
    return (ini, s, ptr + 1)
  else return (ini, s, ptr)

/-- What stands after the `=` at `ptr`, for the property whose name starts at `start`. -/
def IniT.loadValue (data : Bytes) (ini : IniT) (s start ptr : Nat) : Option (IniT × Nat × Nat) := do
  let nameEnd ← walk (fun c => c ≠ 0 && (c ≠ 0x3D && c ≠ 0x20)) data start
  let start2 ← walk (fun c => c ≠ 0 && (leSpace c && c ≠ 0x0A)) data (ptr + 1)
  let lineEnd ← walk (fun c => c ≠ 0 && c ≠ 0x0A) data start2
  let ptr ← walkBack leSpace data start2 lineEnd
  if ptr = start2 then
    -- the literal `""`, of length 1: its terminator is copied
    let ini ← ini.propertyAdd s data start (toInt (nameEnd - start)) [0] 0 1
    return (ini, s, ptr)
  else
    let ini ← ini.propertyAdd s data start (toInt (nameEnd - start)) data start2 (toInt (ptr - start2))
    return (ini, s, ptr)

/-- A property, from its first character on. -/
def IniT.loadProperty (data : Bytes) (ini : IniT) (s start : Nat) : Option (IniT × Nat × Nat) := do
  let ptr ← walk (fun c => c ≠ 0 && (c ≠ 0x3D && c ≠ 0x0A)) data start
  let c ← data[ptr]?
  if c = 0x3D then ini.loadValue data s start ptr
  else if c = 0x0A ∨ c = 0 then
    let start ← walk (fun c => c ≠ 0 && (leSpace c && c ≠ 0x0A)) data start
    let start2 ← walk (fun c => c ≠ 0 && geSpace c) data start
    let ini ← ini.propertyAdd s data start (toInt (start2 - start)) data start (toInt (start2 - start))
    return (ini, s, ptr)
  else return (ini, s, ptr)

/-- What the loop does at a character that is neither blank nor the terminator. -/
def IniT.loadEntry (data : Bytes) (ini : IniT) (s ptr : Nat) (c : UInt8) :
    Option (IniT × Nat × Nat) :=
  if c = 0x3B then do
    let ptr ← walk (fun c => c ≠ 0 && c ≠ 0x0A) data ptr
    return (ini, s, ptr)
  else if c = 0x5B then ini.loadSection data s (ptr + 1)
  else ini.loadProperty data s ptr

/-- The `while (*ptr)` loop of `ini_load`; none also when the rounds do not suffice. -/
def IniT.loadLoop (data : Bytes) : Nat → IniT → Nat → Nat → Option IniT
  | 0, _, _, _ => none
  | fuel + 1, ini, s, ptr => do
      if (← data[ptr]?) = 0 then return ini
      let ptr ← walk (fun c => c ≠ 0 && leSpace c) data ptr
      let c ← data[ptr]?
      if c = 0 then return ini
      let (ini, s, ptr) ← ini.loadEntry data s ptr c
      loadLoop data fuel ini s ptr

/-- `ini_load`. -/
def IniT.load (data : Bytes) (fuel : Nat) : Option IniT := loadLoop data fuel .create 0 0

/-! ## Access -/

/-- The loop of `ini_internal_property_index`, at index `i` with `p` of the section passed. -/
def propertyIndexLoop (sectionIndex property : Nat) : List IniInternalProperty → Nat → Nat → Option Nat
  | [], _, _ => none
  | q :: rest, i, p =>
      if q.sectionIndex = sectionIndex then
        if p = property then some i else propertyIndexLoop sectionIndex property rest (i + 1) (p + 1)
      else propertyIndexLoop sectionIndex property rest (i + 1) p

/-- `ini_internal_property_index`. -/
def IniT.internalPropertyIndex (ini : IniT) (sectionIndex property : Nat) : Option Nat :=
  if sectionIndex < ini.sections.length then
    propertyIndexLoop sectionIndex property ini.properties 0 0
  else none

/-- `ini_section_name`, null for an index that is not there. -/
def IniT.sectionName (ini : IniT) (sectionIndex : Nat) : Option Bytes :=
  (ini.sections[sectionIndex]?).map fun q => q.name.chars

/-- `ini_property_count`. -/
def IniT.propertyCount (ini : IniT) (sectionIndex : Nat) : Nat :=
  ini.properties.countP fun q => q.sectionIndex = sectionIndex

/-- `ini_property_name`. -/
def IniT.propertyName (ini : IniT) (sectionIndex property : Nat) : Option Bytes := do
  let p ← ini.internalPropertyIndex sectionIndex property
  let q ← ini.properties[p]?
  return q.name.chars

/-- `ini_property_value`. -/
def IniT.propertyValue (ini : IniT) (sectionIndex property : Nat) : Option Bytes := do
  let p ← ini.internalPropertyIndex sectionIndex property
  let q ← ini.properties[p]?
  return q.value.chars

/-! ## Writing -/

/-- The buffer of `ini_save`, if there is one, and `pos`. -/
structure IniOut where
  data : Option Bytes
  pos : Nat

/-- `if (data && pos < size) data[pos] = c; ++pos;` -/
def IniOut.emit (size : Nat) (out : IniOut) (c : UInt8) : Option IniOut :=
  match out.data with
  | none => some ⟨none, out.pos + 1⟩
  | some data =>
      if out.pos < size then (put data out.pos c).map fun data => ⟨some data, out.pos + 1⟩
      else some ⟨some data, out.pos + 1⟩

/-- `for (i = 0; i < l; ++i)` over the characters of a string. -/
def IniOut.emitString (size : Nat) (out : IniOut) (chars : Bytes) : Option IniOut := do
  let l ← strlenAt chars 0
  (List.range l).foldlM (fun out i => do out.emit size (← chars[i]?)) out

/-- A section header, for a name that is not empty. -/
def IniOut.emitHeader (size : Nat) (out : IniOut) (name : Bytes) : Option IniOut := do
  if 0 < (← strlenAt name 0) then
    let out ← out.emit size 0x5B
    let out ← out.emitString size name
    let out ← out.emit size 0x5D
    out.emit size 0x0A
  else return out

/-- One property line. -/
def IniOut.emitProperty (size : Nat) (out : IniOut) (q : IniInternalProperty) : Option IniOut := do
  let out ← out.emitString size q.name.chars
  let out ← out.emit size 0x3D
  let out ← out.emitString size q.value.chars
  out.emit size 0x0A

/-- One round of the section loop of `ini_save`. -/
def IniT.saveSection (ini : IniT) (size : Nat) (out : IniOut) (s : Nat) : Option IniOut := do
  let q ← ini.sections[s]?
  let out ← out.emitHeader size q.name.chars
  let out ← ini.properties.foldlM
    (fun out q => if q.sectionIndex = s then out.emitProperty size q else some out) out
  if 0 < out.pos then out.emit size 0x0A else return out

/-- `ini_save`: the buffer after it, and how many characters there are. -/
def IniT.save (ini : IniT) (data : Option Bytes) (size : Nat) : Option IniOut := do
  let out ← (List.range ini.sections.length).foldlM (fun out s => ini.saveSection size out s) ⟨data, 0⟩
  let out ← out.emit size 0
  -- `pos` is an `int` that only grows: it has overflowed if it ends beyond
  if out.pos < 2 ^ 31 then return out else none

/-! ## The store over them -/

/-- `std::string(chars)`: up to the terminator. -/
def stringOf (chars : Bytes) : Option Bytes := (strlenAt chars 0).map fun n => chars.take n

/-- The inner loop of `Load`. -/
def IniT.sectionMap (ini : IniT) (i : Nat) : Option Options :=
  (List.range (ini.propertyCount i)).foldlM
    (fun m j => do
      let key ← stringOf (← ini.propertyName i j)
      let value ← stringOf (← ini.propertyValue i j)
      return m.insert key value) ∅

/-- The section loop of `Load`. -/
def IniT.config (ini : IniT) (config : Config) : Option Config :=
  (List.range ini.sections.length).foldlM
    (fun config i => do
      let name ← stringOf (← ini.sectionName i)
      return config.insert name (← ini.sectionMap i)) config

/-- `Load`, from the contents of the file to the options. -/
def loadBuffer (contents : Bytes) (config : Config) : Option Config := do
  let ini ← IniT.load (contents ++ [0]) (contents.length + 1)
  ini.config config

/-- The loops of `Save` that build the `ini_t`. -/
def iniTOfConfig (order : ConfigOrder) (config : Config) : Option IniT :=
  (order.sections.reorder config.entries).foldlM
    (fun ini sec => do
      let (ini, sid) ← ini.sectionAdd (sec.1 ++ [0]) 0 (toInt sec.1.length)
      ((order.options sec.1).reorder sec.2.entries).foldlM
        (fun ini p => ini.propertyAdd sid (p.1 ++ [0]) 0 (toInt p.1.length)
          (p.2 ++ [0]) 0 (toInt p.2.length)) ini) IniT.create

/-- `Save`, from the options to what `WriteFile` is given: one pass counts, one writes. -/
def saveBuffer (order : ConfigOrder) (config : Config) : Option Bytes := do
  let ini ← iniTOfConfig order config
  let counted ← ini.save none 0
  let bufSize := counted.pos
  let out ← ini.save (some (List.replicate bufSize 0)) bufSize
  slice (← out.data) 0 (bufSize - 1)

end CommonLoader
