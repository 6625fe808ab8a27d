import CommonLoader.Model.Xxhash
import Mathlib.Data.List.AList

/-!
# The state of a process with the loader in it

One flat record holds what the globals of the sources hold: the module, the
state words of the API, the signature cache, the option store with the path it
is saved to, the assembler symbols. Beside them stand the memory of the process
with its page protections and the files on disk, which outlive the process.

The project is built twice, for 32 and for 64 bits, and everything is written
for both.
-/

namespace CommonLoader

open ByteMemory CText

/-- The two builds. -/
inductive Build where
  | win32
  | win64
deriving DecidableEq, Repr

/-- Width of a pointer and of `size_t`. -/
def Build.bits : Build → Nat
  | win32 => 32
  | win64 => 64

/-- `sizeof(size_t)`. -/
def Build.sizeofSizeT : Build → Nat
  | win32 => 4
  | win64 => 8

theorem Build.bits_le (b : Build) : b.bits ≤ 64 := by cases b <;> decide

theorem Build.pow_bits (b : Build) : 2 ^ 32 ≤ 2 ^ b.bits := by cases b <;> decide

/-- A pointer. -/
abbrev Addr (b : Build) := BitVec b.bits

/-- A `size_t`. -/
abbrev SizeT (b : Build) := BitVec b.bits

/-- A wide string. -/
abbrev WStr := List UInt16

/-- The bytes a `const char*` argument points at, from the pointer on. -/
abbrev Buf := Nat → UInt8

/-- The first `n` of them. -/
def Buf.take (p : Buf) (n : Nat) : Bytes := (List.range n).map p

/-- `std::unordered_map`: unique keys, in no order anyone may rely on. -/
abbrev UnorderedMap (κ ν : Type) := AList (fun _ : κ => ν)

/-- Some order in which a map may be walked. -/
structure IterOrder (α : Type) where
  reorder : List α → List α
  perm : ∀ l, (reorder l).Perm l

/-- The order of the list itself. -/
def IterOrder.asIs {α : Type} : IterOrder α := ⟨id, List.Perm.refl⟩

/-- `SignatureKey`. -/
structure SignatureKey where
  pattern : UInt32
  mask : UInt32
deriving DecidableEq

/-- One section of the option store. -/
abbrev Options := UnorderedMap Bytes Bytes

/-- `app_config`. -/
abbrev Config := UnorderedMap Bytes Options

/-- `ModuleInfo`: where the executable lies. -/
structure ModuleInfo (b : Build) where
  base : Addr b
  size : BitVec 32

/-- `CMN_LOADER_STATE_MAX`. -/
def stateMax : Nat := 4

/-- The globals, the memory and the disk. -/
structure Loader (b : Build) where
  moduleInfo : ModuleInfo b
  mem : Mem b.bits
  /-- protection of each 4096-byte page -/
  prot : Nat → BitVec 32
  states : Fin (stateMax + 1) → SizeT b
  sigLookupCache : UnorderedMap SignatureKey (Addr b)
  appConfig : Config
  appUid : UInt32
  /-- empty until `ApplicationStore::Init` -/
  appStoragePath : WStr
  symbolMap : UnorderedMap UInt32 (BitVec 64)
  isInit : Bool
  files : WStr → Option Bytes

/-- A process that has just started: zeroed globals over the memory and the disk it finds. -/
def Loader.start {b : Build} (moduleInfo : ModuleInfo b) (mem : Mem b.bits)
    (prot : Nat → BitVec 32) (files : WStr → Option Bytes) : Loader b where
  moduleInfo
  mem
  prot
  states := fun _ => 0
  sigLookupCache := ∅
  appConfig := ∅
  appUid := 0
  appStoragePath := []
  symbolMap := ∅
  isInit := false
  files

end CommonLoader
