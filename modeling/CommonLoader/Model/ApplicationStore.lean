import CommonLoader.Model.Ini
import CommonLoader.Model.State

/-!
# The application store

`ApplicationStore.cpp`: the state words of the API, the two-level option map and
its text file.

What the operating system answers is a parameter of the call that asks: whether a
file could be created, written, opened or read, and in which order the unordered
maps were walked. Nothing else about a call is free.
-/

namespace CommonLoader

open CText

variable {b : Build}

/-! ## State words -/

def skipSigValidation : SizeT b := BitVec.ofNat _ 0
def initSigScanFailed : SizeT b := BitVec.ofNat _ 1
def initAssemblyFailed : SizeT b := BitVec.ofNat _ 2
def disableLogging : SizeT b := BitVec.ofNat _ 3

/-- `CMN_LOADER_STATE_INVALID`, as a `size_t`. -/
def stateInvalid : SizeT b := BitVec.allOnes _

/-- The slot of a state number, unless it is above `CMN_LOADER_STATE_MAX`. -/
def stateSlot (state : SizeT b) : Option (Fin (stateMax + 1)) :=
  if h : state.toNat ≤ stateMax then some ⟨state.toNat, Nat.lt_succ_of_le h⟩ else none

def setState (s : Loader b) (state value : SizeT b) : Loader b :=
  match stateSlot state with
  | none => s
  | some i => { s with states := Function.update s.states i value }

def setStateFlag (s : Loader b) (state flag : SizeT b) (set : Bool) : Loader b :=
  match stateSlot state with
  | none => s
  | some i =>
      { s with
        states := Function.update s.states i
          (if set then s.states i ||| flag else s.states i &&& ~~~flag) }

def getState (s : Loader b) (state : SizeT b) : SizeT b :=
  match stateSlot state with
  | none => stateInvalid
  | some i => s.states i

/-! ## Options -/

def defaultSection : Bytes := ascii "Application"

def getOption (s : Loader b) (sectionName key : Bytes) : Option Bytes :=
  match s.appConfig.lookup sectionName with
  | none => none
  | some options => options.lookup key

/-- `GetOptions`, in the order the map is walked. -/
def getOptions (s : Loader b) (sectionName : Bytes) (order : IterOrder (Σ _ : Bytes, Bytes)) :
    List (Σ _ : Bytes, Bytes) :=
  match s.appConfig.lookup sectionName with
  | none => []
  | some options => order.reorder options.entries

/--
`GetApplicationOptionExImpl`: the size of the value, or -1. A null section is the default
one, and a null `out` asks for the size only. No terminator is written.
-/
def getApplicationOptionExImpl (s : Loader b) (sectionName : Option Bytes) (key : Bytes)
    (out : Addr b) (outSize : SizeT b) : BitVec 32 × Loader b :=
  match getOption s (cstr (sectionName.getD defaultSection)) (cstr key) with
  | some outValue =>
      if out = 0 then (BitVec.ofNat 32 outValue.length, s)
      else
        (BitVec.ofNat 32 outValue.length,
          { s with
            mem := ByteMemory.store s.mem out (outValue.take (min outValue.length outSize.toNat)) })
  | none => (-1, s)

/-- `GetApplicationOptionImpl`. -/
def getApplicationOptionImpl (s : Loader b) (key : Bytes) (out : Addr b) (outSize : SizeT b) :
    BitVec 32 × Loader b :=
  getApplicationOptionExImpl s none key out outSize

/-- The two-level update of `SetOption`. -/
def Config.set (config : Config) (sectionName key value : Bytes) : Config :=
  match config.lookup sectionName with
  | none => config.insert sectionName ((∅ : Options).insert key value)
  | some options => config.insert sectionName (options.insert key value)

def setOption (s : Loader b) (sectionName key value : Bytes) : Loader b :=
  { s with appConfig := s.appConfig.set sectionName key value }

def clearSection (s : Loader b) (sectionName : Bytes) : Loader b :=
  { s with appConfig := s.appConfig.erase sectionName }

/-! ## Save -/

/-- The order in which one `Save` walks the sections, and the options of each. -/
structure ConfigOrder where
  sections : IterOrder (Σ _ : Bytes, Options)
  options : Bytes → IterOrder (Σ _ : Bytes, Bytes)

/-- What one `Save` meets: does `CreateFileW` give a handle, does `WriteFile` succeed. -/
structure SaveEnv where
  created : Bool
  written : Bool
  order : ConfigOrder

/-- A save that meets no obstacle. -/
def SaveEnv.ok : SaveEnv := ⟨true, true, ⟨.asIs, fun _ => .asIs⟩⟩

/-- The inner loop of `Save`: the options of the section just added. -/
def iniAddOptions (ini : Ini) (sid : Nat) (options : List (Σ _ : Bytes, Bytes)) : Ini :=
  options.foldl
    (fun ini p => iniPropertyAdd ini sid p.1 p.1.length p.2 p.2.length) ini

/-- The outer loop of `Save`. -/
def iniOfConfig (order : ConfigOrder) (config : Config) : Ini :=
  (order.sections.reorder config.entries).foldl
    (fun ini sec =>
      let (ini, sid) := iniSectionAdd ini sec.1 sec.1.length
      iniAddOptions ini sid ((order.options sec.1).reorder sec.2.entries))
    iniCreate

/-- The text `Save` hands to `WriteFile`. -/
def saveText (order : ConfigOrder) (config : Config) : Bytes := iniSave (iniOfConfig order config)

/--
`Save(path)`. The file is truncated when it is created, before anything is
written. `bufSize` is an `int` and counts the terminator: past `INT_MAX` the
buffer does not come into being, and the model lets the save fail there.
-/
def saveTo (s : Loader b) (path : WStr) (env : SaveEnv) : Bool × Loader b :=
  if env.created ∧ path ≠ [] then
    let buffer := saveText env.order s.appConfig
    if env.written ∧ buffer.length + 1 < 2 ^ 31 then
      (true, { s with files := Function.update s.files path (some buffer) })
    else
      (false, { s with files := Function.update s.files path (some []) })
  else (false, s)

/-- `Save()`. -/
def save (s : Loader b) (env : SaveEnv) : Bool × Loader b := saveTo s s.appStoragePath env

/-! ## Load -/

/-- `CheckDataASCII`. -/
def checkDataASCII (buffer : Bytes) : Bool :=
  buffer.all fun c => c == 0x0D || c == 0x0A || (0x20 ≤ c && c ≤ 0x7E)

/-- What one `Load` meets: can an existing file be opened, does `ReadFile` succeed. -/
structure LoadEnv where
  opened : Bool
  read : Bool

/-- A load that meets no obstacle. -/
def LoadEnv.ok : LoadEnv := ⟨true, true⟩

/-- The map of one section as `Load` fills it: a later definition of a key wins. -/
def sectionMap (properties : List IniProperty) : Options :=
  properties.foldl (fun m p => m.insert p.name p.value) ∅

/-- The section loop of `Load`: each occurrence of a section replaces the one before. -/
def configOfIni (ini : Ini) (config : Config) : Config :=
  (List.range ini.sections.length).foldl
    (fun config i =>
      config.insert (ini.sections.getD i []) (sectionMap (iniProperties ini i))) config

/--
`Load`. A file that cannot be opened yields `INVALID_HANDLE_VALUE`, which passes
the test for null and then fails in `ReadFile`; both exits leave the map as it is
after the optional clear. `GetFileSize` gives the low word of the size.
-/
def loadFrom (s : Loader b) (path : WStr) (append : Bool) (env : LoadEnv) : Bool × Loader b :=
  let s := if append then s else { s with appConfig := ∅ }
  match (if env.opened then s.files path else none) with
  | none => (false, s)
  | some contents =>
      let buffer := contents.take (contents.length % 2 ^ 32)
      if env.read ∧ checkDataASCII buffer then
        (true, { s with appConfig := configOfIni (iniLoad buffer) s.appConfig })
      else (false, s)

/-! ## Init -/

/-- `L"\\NeverFinishAnything\\CommonLoader\\.storage\\"`. -/
def storageFolder : WStr :=
  (ascii "\\NeverFinishAnything\\CommonLoader\\.storage\\").map UInt8.toUInt16

/-- The path of the store file of an executable. -/
def storagePath (szPath : WStr) (uid : UInt32) : WStr :=
  szPath ++ storageFolder ++ (printHex uid.toNat ++ ascii ".ini").map UInt8.toUInt16

/-- `sizeof(IMAGE_NT_HEADERS)`. -/
def sizeofImageNtHeaders : (b : Build) → SizeT b
  | .win32 => BitVec.ofNat _ 248
  | .win64 => BitVec.ofNat _ 264

/-- `e_lfanew + sizeof(IMAGE_NT_HEADERS)` bytes from the module base. -/
def moduleHeaders (s : Loader b) : Bytes :=
  let lfanew : BitVec 32 :=
    BitVec.ofNat 32 (ByteMemory.ofLeBytes (ByteMemory.load s.mem (s.moduleInfo.base + 0x3C) 4))
  ByteMemory.load s.mem s.moduleInfo.base
    (lfanew.signExtend b.bits + sizeofImageNtHeaders b).toNat

/-- `std::string(name.begin(), name.end())`: one byte for each UTF-16 unit. -/
def narrow (name : WStr) : Bytes := name.map UInt16.toUInt8

/-- What `ApplicationStore::Init` meets. -/
structure InitEnv where
  /-- `SHGetFolderPathW(CSIDL_LOCAL_APPDATA)` -/
  szPath : Option WStr
  /-- `PathFindFileNameW` of the executable -/
  fileName : WStr
  load : LoadEnv
  save : SaveEnv
  /-- the walk of `InitSigScanner` over its section -/
  scannerOrder : IterOrder (Σ _ : Bytes, Bytes)

/-- `ApplicationStore::Init`. -/
def initStore (s : Loader b) (env : InitEnv) : Loader b :=
  let s := { s with appConfig := ∅, appUid := xxh32 (moduleHeaders s) 0 }
  match env.szPath with
  | none => s
  | some szPath =>
      let s := { s with appStoragePath := storagePath szPath s.appUid }
      let (loaded, s) := loadFrom s s.appStoragePath false env.load
      if loaded then s
      else (save (setOption s defaultSection (ascii "Name") (narrow env.fileName)) env.save).2

end CommonLoader
