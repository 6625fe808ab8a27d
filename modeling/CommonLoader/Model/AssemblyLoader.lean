import CommonLoader.Model.State
import CommonLoader.Lib.CText

/-!
# Codes

`AssemblyLoader.h`, `CodeObject.h` and `FindCode` of the API. An assembly is the list
of its exported types, and of each type what reflection finds there. `marshal_as` is a
parameter. A load that throws is left to the host, which it ends.
-/

namespace CommonLoader

open CText

/-- The four strings of a `__META__` field, parsed. -/
structure Metadata where
  id : Bytes
  name : Bytes
  author : Bytes
  category : Bytes
deriving DecidableEq

/-- A `Type^`. -/
structure ExportedType where
  name : WStr
  /-- the method, if there is one, and the handle its `Invoke` returns: null, or a boxed `bool` -/
  isLoaderExecutable : Option (Option Bool)
  registerProvider : Bool
  metadata : Option Metadata
deriving DecidableEq

/-! ## `CodeObject` -/

structure CodeObject where
  baseType : ExportedType
  id : Bytes
  name : Bytes
  author : Bytes
  category : Bytes
deriving DecidableEq

/-- `getFullName`, which the constructor puts into `FullName`. -/
def CodeObject.fullName (c : CodeObject) : Bytes :=
  if c.name = [] then []
  else if c.category = [] then c.name
  else c.category ++ [0x2F] ++ c.name

/-- `reflectedName`: the name of the type up to the first underscore. -/
def reflectedName (name : Bytes) : Bytes := name.takeWhile (· ≠ 0x5F)

/-- The constructor. -/
def CodeObject.create (marshalAs : WStr → Bytes) (base : ExportedType) : CodeObject :=
  match base.metadata with
  | some m => ⟨base, m.id, m.name, m.author, m.category⟩
  | none => ⟨base, [], reflectedName (marshalAs base.name), [], []⟩

/-- `GetIdentifier`. -/
def CodeObject.getIdentifier (c : CodeObject) (useFullName : Bool) : Bytes :=
  if c.id = [] then if useFullName then c.fullName else c.name
  else c.id

/-! ## `AssemblyLoader` -/

/-- `Codes`, which is null until the first load, and the types that were given a provider. -/
structure AssemblyLoader where
  codes : Option (List CodeObject)
  providers : List ExportedType
deriving DecidableEq

/-- `"MemoryService"` -/
def memoryService : WStr := (ascii "MemoryService").map UInt8.toUInt16

/-- One round of the loop over the exported types. A handle is true when it is not null. -/
def loadType (marshalAs : WStr → Bytes) (a : AssemblyLoader) (type : ExportedType) :
    AssemblyLoader :=
  match type.isLoaderExecutable with
  | some (some _) => { a with codes := a.codes.map (· ++ [CodeObject.create marshalAs type]) }
  | _ =>
      if type.name = memoryService ∧ type.registerProvider then
        { a with providers := a.providers ++ [type] }
      else a

/-- `Load` that does not throw: the assembly at the path, if the file exists. -/
def AssemblyLoader.load (marshalAs : WStr → Bytes) (a : AssemblyLoader)
    (file : Option (List ExportedType)) : Bool × AssemblyLoader :=
  let a := { a with codes := some (a.codes.getD []) }
  match file with
  | none => (false, a)
  | some types => (true, types.foldl (loadType marshalAs) a)

/-! ## `FindCode` -/

/-- `Code_t`, with what its pointers point at. -/
structure CodeT where
  szCode : BitVec 32
  id : Option Bytes
  name : Option Bytes
  author : Option Bytes
  category : Option Bytes
deriving DecidableEq

/-- `Code_t(id, name, author, category)`. -/
def CodeObject.codeT (c : CodeObject) : CodeT :=
  ⟨0, some c.id, some c.name, some c.author, some c.category⟩

/-- `FindCodeImpl`. A `Code_t` of the wrong size is reported, and filled in all the same. -/
def findCodeImpl : List CodeObject → Bytes → Option CodeT → Bool × Option CodeT
  | [], _, code => (false, code)
  | hCodeObj :: codes, id, code =>
      if hCodeObj.id = cstr id ∨ hCodeObj.fullName = cstr id then
        (true, code.map fun _ => hCodeObj.codeT)
      else findCodeImpl codes id code

end CommonLoader
