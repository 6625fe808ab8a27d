import CommonLoader.Model.Host
import CommonLoader.Proof.Codes
import CommonLoader.Proof.Session
import CommonLoader.Proof.StoreRuns

/-!
# Histories of a process

Whatever the host and the mods do in which order: the store is initialised once, by the
first assembly, behind every call that came before it; from then on the process does what
the calls of its codes say, those of an event in the order in which the codes were
registered; and a null handle is met exactly by who comes before the first assembly.
-/

namespace CommonLoader

open CText Runs

variable {b : Build} {s : Loader b} (marshalAs : WStr → Bytes)

/-! ## The mark of an initialised process -/

theorem init_isInit (s : Loader b) (env : InitEnv) : (init s env).isInit = true := by
  obtain ⟨appConfig, appUid, appStoragePath, files, hstore⟩ :=
    initStore_eq { s with isInit := true } env
  unfold init
  split
  · assumption
  · rw [hstore]
    rfl

theorem init_again (env : InitEnv) (h : s.isInit = true) : init s env = s := if_pos h

theorem commitSignatureCache_isInit (s : Loader b) (key : SignatureKey) (v : Addr b) (env : SaveEnv) :
    (commitSignatureCache s key v env).isInit = s.isInit := by
  rw [commitSignatureCache_eq]
  obtain ⟨files, h⟩ := save_eq (setOption { s with
    sigLookupCache := s.sigLookupCache.insert key v } scannerSection key.text
    (offsetText s.moduleInfo v)) env
  rw [h]
  rfl

/-- **No call initialises.** -/
theorem serve_isInit (s : Loader b) (c : Call b) : (serve s c).isInit = s.isInit := by
  cases c with
  | writeMemory kind address data =>
    rw [serve, MemoryProvider.writeMemory]
    split <;> rfl
  | writeASMHook env instructions address behavior parameter =>
    rw [serve, MemoryProvider.writeASMHook]
    split
    · obtain ⟨states, mem, prot, h⟩ := writeASMHook_eq env s instructions address behavior parameter
      rw [h]
    · rfl
  | nopInstructions csDisasm beyond address count =>
    rw [serve, MemoryProvider.nopInstructions]
    split
    · split <;> rfl
    · rfl
  | assembleInstructions assembler instructions =>
    obtain ⟨states, h⟩ := reported_eq (s := s) (compileAssembly assembler s instructions 0)
    exact (congrArg Loader.isInit h).trans rfl
  | setSymbol name value => rfl
  | removeSymbol name => rfl
  | scan call =>
    rcases scan_loader s call with ⟨_, h⟩ | ⟨_, states, h⟩
    · exact congrArg Loader.isInit h
    · rw [serve, h]
      exact commitSignatureCache_isInit _ _ _ _
  | setState state value =>
    obtain ⟨states, h⟩ := setState_eq (s := s) state value
    rw [serve, h]
  | setStateFlag state flag set =>
    obtain ⟨states, h⟩ := setStateFlag_eq s state flag set
    rw [serve, h]
  | saveOptions env =>
    obtain ⟨files, h⟩ := save_eq s env
    rw [serve, h]

theorem serveAll_isInit : ∀ (cs : List (Call b)) (s : Loader b), (serveAll s cs).isInit = s.isInit
  | [], _ => rfl
  | c :: cs, s => (serveAll_isInit cs (serve s c)).trans (serve_isInit s c)

/-! ## The assembler of a process that is not initialised -/

/-- The assembler runs. -/
def Call.Assembles (s : Loader b) : Call b → Prop
  | .writeASMHook _ _ address _ _ => MemoryProvider.isMemoryWritable s address = true
  | .assembleInstructions _ _ => True
  | _ => False

def Action.Assembles (s : Loader b) : Action b → Prop
  | .call c _ => c.Assembles s
  | .throw => False

/-- **It has no engine before `Init`.** -/
theorem Action.Assembles.perform {a : Action b} (h : a.Assembles s) (hinit : s.isInit = false) :
    a.perform s = .error .fault := by
  cases a with
  | throw => exact h.elim
  | call c caught =>
    have hfault : c.outcome s = some .fault := by
      cases c with
      | writeASMHook env instructions address behavior parameter =>
        rw [Call.outcome, if_pos (show _ = true from h), if_pos hinit]
      | assembleInstructions assembler instructions => rw [Call.outcome, if_pos hinit]
      | _ => exact h.elim
    rw [Action.perform, Action.outcome, hfault]

/-! ## What a history comes to -/

/-- The files a use loads. -/
def Use.files : Use b → List (Option (List ExportedType))
  | .loadAssembly _ file _ => [file]
  | _ => []

def filesOf (us : List (Use b)) : List (Option (List ExportedType)) := us.flatMap Use.files

/-- The codes it registers. -/
def Use.newCodes (u : Use b) : Nat := ((exportedTypes u.files).filter takenForCode).length

/-- What is done with it when there are `n` codes. -/
def Use.actions (n : Nat) : Use b → List (Action b)
  | .raiseInitializers method _ => (List.range n).flatMap fun i => (method i).getD []
  | .raiseUpdates method => (List.range n).flatMap fun i => (method i).getD []
  | .api action => [action]
  | _ => []

/-- The calls of a history that begins with `n` codes. -/
def callsOf : Nat → List (Use b) → List (Call b)
  | _, [] => []
  | n, u :: us => (u.actions n).flatMap Action.calls ++ callsOf (n + u.newCodes) us

/-- Neither a load nor a call of the API: something that is asked of the handle. -/
def Use.NeedsHandle : Use b → Prop
  | .loadAssembly .. | .api _ => False
  | _ => True

/-! ## After the first assembly -/

/-- The handle is there, with so many codes, and `Init` has run. -/
structure Host.Loaded (h : Host b) (a : AssemblyLoader) (n : Nat) : Prop where
  handle : h.assemblyLoader = some a
  codes : ∃ codes, a.codes = some codes ∧ codes.length = n
  isInit : h.loader.isInit = true

theorem Host.Loaded.codes_eq {h : Host b} {a : AssemblyLoader} {n : Nat} (hl : h.Loaded a n) :
    ∃ codes, h.codes = .ok codes ∧ codes.length = n := by
  obtain ⟨codes, hcodes, hlen⟩ := hl.codes
  refine ⟨codes, ?_, hlen⟩
  unfold Host.codes
  rw [hl.handle, Option.bind_some, hcodes]

/-- A load keeps the codes there are and adds its own. -/
theorem load_codes (a : AssemblyLoader) (file : Option (List ExportedType)) :
    ∃ codes, (a.load marshalAs file).2.codes = some codes ∧ codes.length
      = (a.codes.getD []).length + ((exportedTypes [file]).filter takenForCode).length := by
  rw [AssemblyLoader.load_eq]
  refine ⟨_, rfl, ?_⟩
  rw [List.length_append, List.length_map]
  unfold exportedTypes
  rw [List.flatMap_cons, List.flatMap_nil, List.append_nil]

/-- What has come of a use: it failed for another reason than the handle, or it made its calls. -/
inductive Host.Used (h : Host b) (a : AssemblyLoader) (n : Nat) (u : Use b) :
    Except Ending (Host b) → Prop
  | ended (ending : Ending) (hne : ending ≠ .nullReference) : Host.Used h a n u (.error ending)
  | done (h' : Host b) (hloader : h'.loader = serveAll h.loader ((u.actions n).flatMap Action.calls))
      (hloaded : h'.Loaded (loadAll marshalAs a u.files) (n + u.newCodes)) :
      Host.Used h a n u (.ok h')

/-- **One use.** -/
theorem Host.Loaded.step {h : Host b} {a : AssemblyLoader} {n : Nat} (hl : h.Loaded a n) (u : Use b) :
    h.Used marshalAs a n u (h.step marshalAs u) := by
  obtain ⟨codes, hcodes, hlen⟩ := hl.codes_eq
  have hsame : ∀ cs, Host.Loaded ⟨serveAll h.loader cs, h.assemblyLoader⟩ a n :=
    fun cs => ⟨hl.handle, hl.codes, (serveAll_isInit cs h.loader).trans hl.isInit⟩
  -- the actions of a use either fail, or are its calls
  have hactions : ∀ (as : List (Action b)) (s : Loader b), performAll h.loader as = .ok s →
      s = serveAll h.loader (as.flatMap Action.calls) := fun as s => performAll_ok
  cases u with
  | loadAssembly env file throws =>
    rw [Host.step]
    split
    · exact .ended _ (by decide)
    · obtain ⟨codes', hcodes', hlen'⟩ := load_codes marshalAs a file
      obtain ⟨codes₀, hcodes₀, hlen₀⟩ := hl.codes
      -- the process is initialised, so a second assembly only adds its codes
      refine .done _ (init_again env hl.isInit) ⟨?_, ⟨codes', hcodes', ?_⟩, init_isInit _ env⟩
      · unfold Host.loadAssembly
        rw [hl.handle]
        rfl
      · rw [hlen', hcodes₀, Option.getD_some, hlen₀]
        rfl
  | raiseInitializers method yes =>
    simp only [Host.step, raiseInitializers, hcodes, bind, Except.bind]
    cases hrun : performAll h.loader (invokeAll method codes) with
    | error failure => exact .ended _ (by simp)
    | ok s =>
      simp only [Except.mapError]
      -- the user may end the process at the message box
      split
      · exact .ended _ (by decide)
      · refine .done _ ?_ ?_
        · rw [Use.actions, ← hlen]
          exact hactions _ s hrun
        · rw [hactions _ s hrun]
          exact hsame _
  | raiseUpdates method =>
    simp only [Host.step, hcodes, bind, Except.bind]
    cases hrun : performAll h.loader (invokeAll method codes) with
    | error failure => exact .ended _ (by simp)
    | ok s =>
      refine .done _ ?_ ?_
      · rw [Use.actions, ← hlen]
        exact hactions _ s hrun
      · rw [hactions _ s hrun]
        exact hsame _
  | findCode id code =>
    rw [Host.step, hcodes]
    exact .done h rfl hl
  | api action =>
    simp only [Host.step, bind, Except.bind]
    cases hrun : action.perform h.loader with
    | error failure => exact .ended _ (by simp)
    | ok s =>
      have hs := Action.perform_ok hrun
      refine .done _ ?_ ?_
      · rw [Use.actions, List.flatMap_singleton]
        exact hs
      · rw [hs]
        exact hsame _

/-- **A history.** -/
theorem Host.Loaded.run : ∀ (us : List (Use b)) {h : Host b} {a : AssemblyLoader} {n : Nat},
    h.Loaded a n → h.run marshalAs us ≠ .error .nullReference ∧ ∀ h', h.run marshalAs us = .ok h' →
      h'.loader = serveAll h.loader (callsOf n us)
      ∧ h'.assemblyLoader = some (loadAll marshalAs a (filesOf us))
  | [], h, _, _, hl => by
    refine ⟨fun hnull => ?_, fun h' hok => ?_⟩
    · cases hnull
    · obtain rfl := Except.ok.inj hok
      exact ⟨rfl, hl.handle⟩
  | u :: us, h, a, n, hl => by
    have hstep := hl.step marshalAs u
    rw [Host.run, attempt]
    generalize h.step marshalAs u = outcome at hstep
    cases hstep with
    | ended ending hne =>
      refine ⟨fun hnull => hne (Except.error.inj hnull), fun h' hok => ?_⟩
      cases hok
    | done h₁ hloader hl₁ =>
      obtain ⟨hne, hall⟩ := Host.Loaded.run us hl₁
      refine ⟨hne, fun h' hok => ?_⟩
      obtain ⟨hloader', hhandle⟩ := hall h' hok
      refine ⟨?_, ?_⟩
      · rw [hloader', hloader, callsOf, serveAll_append]
      · rw [hhandle]
        unfold loadAll filesOf
        rw [List.flatMap_cons, List.foldl_append]

/-! ## Before the first assembly -/

theorem Host.run_api (us : List (Use b)) : ∀ (as : List (Action b)) (s : Loader b),
    (Host.start s).run marshalAs (as.map Use.api ++ us)
      = match performAll s as with
        | .error failure => .error (.failed failure)
        | .ok s => (Host.start s).run marshalAs us
  | [], _ => rfl
  | a :: as, s => by
    rw [List.map_cons, List.cons_append, Host.run, attempt, performAll, attempt]
    simp only [Host.step, bind, Except.bind, Host.start]
    cases a.perform s with
    | error failure => rfl
    | ok s => exact Host.run_api us as s

/-- A history is actions by the API, up to the first use of another kind. -/
theorem uses_cases : ∀ us : List (Use b), (∃ as : List (Action b), us = as.map Use.api)
    ∨ (∃ (as : List (Action b)) (env : InitEnv) (file : Option (List ExportedType)) (throws : Bool)
        (after : List (Use b)), us = as.map Use.api ++ .loadAssembly env file throws :: after)
    ∨ ∃ (as : List (Action b)) (u : Use b) (after : List (Use b)),
        us = as.map Use.api ++ u :: after ∧ u.NeedsHandle
  | [] => Or.inl ⟨[], rfl⟩
  | .loadAssembly env file throws :: us => Or.inr (Or.inl ⟨[], env, file, throws, us, rfl⟩)
  | .raiseInitializers method yes :: us => Or.inr (Or.inr ⟨[], _, us, rfl, trivial⟩)
  | .raiseUpdates method :: us => Or.inr (Or.inr ⟨[], _, us, rfl, trivial⟩)
  | .findCode id code :: us => Or.inr (Or.inr ⟨[], _, us, rfl, trivial⟩)
  | .api a :: us => by
    rcases uses_cases us with ⟨as, rfl⟩ | ⟨as, env, file, throws, after, rfl⟩ | ⟨as, u, after, rfl, hu⟩
    · exact Or.inl ⟨a :: as, rfl⟩
    · exact Or.inr (Or.inl ⟨a :: as, env, file, throws, after, rfl⟩)
    · exact Or.inr (Or.inr ⟨a :: as, u, after, rfl, hu⟩)

theorem Host.run_needsHandle (s : Loader b) {u : Use b} (hu : u.NeedsHandle) (us : List (Use b)) :
    (Host.start s).run marshalAs (u :: us) = .error .nullReference := by
  cases u with
  | loadAssembly env file throws => exact hu.elim
  | raiseInitializers method yes => rfl
  | raiseUpdates method => rfl
  | findCode id code => rfl
  | api action => exact hu.elim

/-- The first assembly initialises, and sets the handle. -/
theorem Host.loaded_first (s : Loader b) (env : InitEnv) (file : Option (List ExportedType)) :
    ((Host.start s).loadAssembly marshalAs env file).2.Loaded
      (loadAll marshalAs ⟨none, []⟩ [file]) ((exportedTypes [file]).filter takenForCode).length := by
  obtain ⟨codes, hcodes, hlen⟩ := load_codes marshalAs ⟨none, []⟩ file
  refine ⟨rfl, ⟨codes, hcodes, ?_⟩, init_isInit s env⟩
  rw [hlen, Option.getD_none, List.length_nil, Nat.zero_add]

/-- **From the first assembly on.** -/
theorem Host.run_first (s : Loader b) (env : InitEnv) (file : Option (List ExportedType))
    (throws : Bool) (after : List (Use b)) :
    (Host.start s).run marshalAs (.loadAssembly env file throws :: after) ≠ .error .nullReference
      ∧ ∀ h, (Host.start s).run marshalAs (.loadAssembly env file throws :: after) = .ok h →
        throws = false
        ∧ h.loader = serveAll (init s env)
            (callsOf ((exportedTypes [file]).filter takenForCode).length after)
        ∧ h.assemblyLoader = some (loadAll marshalAs ⟨none, []⟩ (file :: filesOf after)) := by
  rw [Host.run, attempt, Host.step]
  cases throws with
  | true =>
    refine ⟨fun hnull => ?_, fun h hok => ?_⟩
    · cases hnull
    · cases hok
  | false =>
    obtain ⟨hne, hall⟩ := (Host.loaded_first marshalAs s env file).run marshalAs after
    exact ⟨hne, fun h hok => ⟨rfl, hall h hok⟩⟩

/-- However the modules change from call to call, a mod keeps the first table that it gets. -/
theorem getAPI_run {α : Type} (history : List (Modules α)) : ∀ api : Option α,
    history.foldl getAPI api = api.or (history.findSome? (searchHosts · hostModules)) := by
  induction history with
  | nil => exact fun api => (Option.or_none ..).symm
  | cons modules history ih =>
    intro api
    rw [List.foldl_cons, ih, List.findSome?_cons, getAPI]
    cases api with
    | some table => rfl
    | none =>
      rw [Option.isSome_none, if_neg Bool.false_ne_true]
      cases searchHosts modules hostModules <;> rfl

end CommonLoader
