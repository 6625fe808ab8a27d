import CommonLoader.Lib.CText
import Mathlib.Data.List.DropRight

/-!
# The INI reader and writer

`externals/ini.h`, as far as the option store uses it. An `Ini` is a list of
section names and one flat list of properties, each tagged with the index of its
section; index 0 is the nameless global section that `ini_create` makes.

Names and values are read back through `strlen`, so what is stored is the C
string of the bytes that were copied. The split between the fixed buffers and the
`_large` allocations is a matter of storage only and is left out, and so are strings
of `2^31` characters, whose length an `int` does not hold.

Characters are signed, as the compiler has them: a byte from `0x80` on is below
the space.
-/

namespace CommonLoader

open CText

/-- `ini_internal_property_t`. -/
structure IniProperty where
  sectionIndex : Nat
  name : Bytes
  value : Bytes
deriving DecidableEq

/-- `ini_t`. -/
structure Ini where
  sections : List Bytes
  properties : List IniProperty
deriving DecidableEq

/-- `ini_create`: the global section and nothing else. -/
def iniCreate : Ini := ⟨[[]], []⟩

/-- `length <= 0` asks for `strlen`. -/
def iniLength (s : Bytes) (length : Nat) : Nat :=
  if length = 0 then (cstr s).length else length

def iniSectionAdd (ini : Ini) (name : Bytes) (length : Nat) : Ini × Nat :=
  ({ ini with sections := ini.sections ++ [cstr (name.take (iniLength name length))] },
    ini.sections.length)

def iniPropertyAdd (ini : Ini) (sectionIndex : Nat) (name : Bytes) (nameLength : Nat)
    (value : Bytes) (valueLength : Nat) : Ini :=
  if sectionIndex < ini.sections.length then
    { ini with
      properties := ini.properties ++
        [⟨sectionIndex, cstr (name.take (iniLength name nameLength)),
          cstr (value.take (iniLength value valueLength))⟩] }
  else ini

/-- What `ini_property_name` and `ini_property_value` see for `0, 1, …` in one section. -/
def iniProperties (ini : Ini) (sectionIndex : Nat) : List IniProperty :=
  ini.properties.filter fun p => p.sectionIndex = sectionIndex

/-! ## Reading -/

/-- `c <= ' '`. -/
def leSpace (c : UInt8) : Bool := c ≤ 0x20 || 0x80 ≤ c

/-- `c >= ' '`. -/
def geSpace (c : UInt8) : Bool := 0x20 ≤ c && c < 0x80

/--
The `while (*ptr)` loop of `ini_load`. `s` is the current section and `ptr` what
is left of the text, without its terminator. Every round takes at least one
character, so the length of the text is fuel enough.
-/
def iniLoadLoop : Nat → Ini → Nat → Bytes → Ini
  | 0, ini, _, _ => ini
  | fuel + 1, ini, s, ptr =>
      match ptr.dropWhile leSpace with
      | [] => ini
      | c :: rest =>
          if c = 0x3B then
            -- comment, up to the end of the line
            iniLoadLoop fuel ini s ((c :: rest).dropWhile (· ≠ 0x0A))
          else if c = 0x5B then
            -- section; an unclosed bracket is dropped with its line
            let name := rest.takeWhile fun c => c ≠ 0x5D && c ≠ 0x0A
            match rest.dropWhile (fun c => c ≠ 0x5D && c ≠ 0x0A) with
            | 0x5D :: ptr =>
                let (ini, s) := iniSectionAdd ini rest name.length
                iniLoadLoop fuel ini s ptr
            | ptr => iniLoadLoop fuel ini s ptr
          else
            let start := c :: rest
            match start.dropWhile (fun c => c ≠ 0x3D && c ≠ 0x0A) with
            | 0x3D :: ptr =>
                let l := (start.takeWhile fun c => c ≠ 0x3D && c ≠ 0x20).length
                let start2 := ptr.dropWhile fun c => leSpace c && c ≠ 0x0A
                -- the backward walk stops at `start2`, which is not blank unless the line ends
                let value := (start2.takeWhile (· ≠ 0x0A)).rdropWhile leSpace
                let ini :=
                  if value.length = 0 then iniPropertyAdd ini s start l [] 1
                  else iniPropertyAdd ini s start l start2 value.length
                iniLoadLoop fuel ini s (start2.drop value.length)
            | ptr =>
                -- no '=' on the line: the text is its own value
                let start := start.dropWhile fun c => leSpace c && c ≠ 0x0A
                let n := (start.takeWhile geSpace).length
                iniLoadLoop fuel (iniPropertyAdd ini s start n start n) s ptr

/-- `ini_load` on a terminated buffer. -/
def iniLoad (data : Bytes) : Ini :=
  iniLoadLoop (cstr data).length iniCreate 0 (cstr data)

/-! ## Writing -/

/-- One property line. -/
def iniSaveProperty (p : IniProperty) : Bytes := p.name ++ [0x3D] ++ p.value ++ [0x0A]

/-- The header of a section; the nameless one has none. -/
def iniSaveHeader (name : Bytes) : Bytes :=
  if 0 < name.length then [0x5B] ++ name ++ [0x5D, 0x0A] else []

/-- The section loop of `ini_save`: sections left, index of the first, text so far. -/
def iniSaveLoop (ini : Ini) : List Bytes → Nat → Bytes → Bytes
  | [], _, data => data
  | name :: rest, s, data =>
      let data := data ++ iniSaveHeader name ++ (iniProperties ini s).flatMap iniSaveProperty
      iniSaveLoop ini rest (s + 1) (if 0 < data.length then data ++ [0x0A] else data)

/-- `ini_save`, without the terminator it counts. -/
def iniSave (ini : Ini) : Bytes := iniSaveLoop ini ini.sections 0 []

end CommonLoader
