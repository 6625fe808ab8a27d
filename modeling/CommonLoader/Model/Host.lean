import CommonLoader.Model.AssemblyLoader
import CommonLoader.Model.Session

/-!
# The host

`CommonLoader.cpp`, `ManagedCommonLoader.h` and the rest of `AssemblyLoader.h`, as the host
of the loader uses them: it loads assemblies, raises the initialisers of their codes, and
raises their updates with every frame; and mods may use the API at any time.

The handle to the assembly loader is null until the first assembly, and a null handle ends
the history. So does the user, who is asked whether to go on, a code that fails, and an
assembly that cannot be loaded.
-/

namespace CommonLoader

open CText Runs

variable {b : Build}

/-- `ManagedCommonLoader::AssemblyLoader`, beside the rest of the process. -/
structure Host (b : Build) where
  loader : Loader b
  assemblyLoader : Option AssemblyLoader

/-- How a history ends early: the process is gone, or an exception has left the loader. -/
inductive Ending where
  | nullReference
  | exit
  | failed (failure : Failure)
deriving DecidableEq

/--
A use of the loader. Of `Init` and `OnFrame` of the codes it is known what each does this
time, by its place in the list; it may lack the method. An assembly `throws` when reading it
does, or reflection, or a constructor.
-/
inductive Use (b : Build) where
  | loadAssembly (env : InitEnv) (file : Option (List ExportedType)) (throws : Bool)
  | raiseInitializers (initMethod : Nat → Option (List (Action b))) (yes : Bool)
  | raiseUpdates (frameMethod : Nat → Option (List (Action b)))
  | findCode (id : Bytes) (code : Option CodeT)
  | api (action : Action b)

/-- `for each (CodeObject ^ code in Codes) code->Init()`, or `Update()`. -/
def invokeAll (method : Nat → Option (List (Action b))) (codes : List CodeObject) :
    List (Action b) :=
  (List.range codes.length).flatMap fun i => (method i).getD []

/-- `AssemblyLoader->Codes`. -/
def Host.codes (h : Host b) : Except Ending (List CodeObject) :=
  match h.assemblyLoader.bind AssemblyLoader.codes with
  | none => .error .nullReference
  | some codes => .ok codes

/-- `CommonLoader::LoadAssembly`, of an assembly that does not throw. -/
def Host.loadAssembly (marshalAs : WStr → Bytes) (h : Host b) (env : InitEnv)
    (file : Option (List ExportedType)) : Bool × Host b :=
  let a := h.assemblyLoader.getD ⟨none, []⟩
  let r := a.load marshalAs file
  (r.1, ⟨init h.loader env, some r.2⟩)

def Host.step (marshalAs : WStr → Bytes) (h : Host b) : Use b → Except Ending (Host b)
  | .loadAssembly env file throws =>
      if throws then .error (.failed .exception) else .ok (h.loadAssembly marshalAs env file).2
  | .raiseInitializers initMethod yes => do
      let codes ← h.codes
      let r ← (raiseInitializers h.loader (invokeAll initMethod codes)).mapError .failed
      if r.1.isSome && !yes then .error .exit else .ok { h with loader := r.2 }
  | .raiseUpdates frameMethod => do
      let codes ← h.codes
      let s ← (performAll h.loader (invokeAll frameMethod codes)).mapError .failed
      .ok { h with loader := s }
  | .findCode _ _ => do
      let _ ← h.codes
      .ok h
  | .api action => do
      let s ← (action.perform h.loader).mapError .failed
      .ok { h with loader := s }

/-- A history of the process. -/
def Host.run (marshalAs : WStr → Bytes) (h : Host b) (us : List (Use b)) : Except Ending (Host b) :=
  attempt (Host.step marshalAs) h us

/-- A process that starts, with nothing loaded. -/
def Host.start (s : Loader b) : Host b := ⟨s, none⟩

/-! ## How a mod finds the host -/

/-- `CMN_LOADER_HOST_MODULES`. -/
def hostModules : List String := ["d3d9.dll", "d3d11.dll", "dinput8.dll"]

/--
The modules of a process, by name: each may be loaded, may export the function that hands out
the API, and that may return null.
-/
abbrev Modules (α : Type) := String → Option (Option (Option α))

/-- The loop over the hosts; a function that returns null ends it too. -/
def searchHosts {α : Type} (modules : Modules α) : List String → Option α
  | [] => none
  | host :: hosts =>
      match modules host with
      | none => searchHosts modules hosts
      | some none => searchHosts modules hosts
      | some (some getAPI) => getAPI

/-- `CommonLoader_GetAPI`, with its static; what it returns is what it keeps. -/
def getAPI {α : Type} (api : Option α) (modules : Modules α) : Option α :=
  if api.isSome then api else searchHosts modules hostModules

end CommonLoader
