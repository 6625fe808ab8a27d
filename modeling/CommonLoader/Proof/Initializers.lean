import CommonLoader.Lib.Runs
import CommonLoader.Proof.Assembler
import CommonLoader.Proof.Session

/-!
# What the initialisers are reported for

After the initialisers have run, the loader looks at two state words and puts what it
finds there into a message box. The words are raised in the depths of the scanner and of
the assembler and never lowered, so that the box says what has failed in the whole of the
session: a search that the cache did not answer and that came to nothing, and a source in
which the assembler has skipped a statement. A scan that trusts the cache is not among
them, and neither is a hook the provider has refused. All this is so when every initialiser
returns: when one of them throws, nobody looks at the words.
-/

namespace CommonLoader

open ByteMemory CText FirstMatch Runs

variable {b : Build} {s : Loader b} {c : Call b}

/-- A search past the cache that finds nothing. -/
def Call.ScanFails (s : Loader b) : Call b → Prop
  | .scan c => c.answer s = none ∧ c.pBegin ≠ 0 ∧ NoneBelow (c.Found s.mem) c.size.toNat
  | _ => False

/-- The assembler comes back with errors. -/
def Call.AssemblyFails (s : Loader b) : Call b → Prop
  | .writeASMHook env instructions address _ _ =>
      MemoryProvider.isMemoryWritable s address = true ∧ (compileHook env s instructions).errors ≠ []
  | .assembleInstructions assembler instructions =>
      (compileAssembly assembler s instructions 0).errors ≠ []
  | _ => False

/-- A call that writes a state word of its own accord. -/
def Call.Writes (state : SizeT b) : Call b → Prop
  | .setState state' _ => stateSlot state' = stateSlot state
  | .setStateFlag state' _ _ => stateSlot state' = stateSlot state
  | _ => False

/-- A call in which neither the scanner nor the assembler runs. -/
def Call.Plain : Call b → Prop
  | .scan _ => False
  | .writeASMHook _ _ _ _ _ => False
  | .assembleInstructions _ _ => False
  | _ => True

/-! ## State words -/

theorem stateSlot_failed_ne :
    stateSlot (initSigScanFailed : SizeT b) ≠ stateSlot (initAssemblyFailed : SizeT b) := by
  rw [stateSlot_failed, stateSlot_assembly]
  decide

theorem one_ne_zero_word : (1 : SizeT b) ≠ 0 := by cases b <;> decide

theorem getState_congr {s s' : Loader b} (h : s'.states = s.states) (state : SizeT b) :
    getState s' state = getState s state := by
  unfold getState
  rw [h]

/-- What is put into one slot is not seen in another. -/
theorem getState_update_ne {state : SizeT b} {i : Fin (stateMax + 1)}
    (h : stateSlot state ≠ some i) (value : SizeT b) :
    getState { s with states := Function.update s.states i value } state = getState s state := by
  unfold getState
  cases hslot : stateSlot state with
  | none => rfl
  | some j =>
    have hne : j ≠ i := fun hji => h (hji ▸ hslot)
    exact Function.update_of_ne hne _ _

theorem getState_setState_ne {state state' : SizeT b} (h : stateSlot state' ≠ stateSlot state)
    (value : SizeT b) : getState (setState s state' value) state = getState s state := by
  unfold setState
  split
  · rfl
  · rename_i i hslot
    exact getState_update_ne (fun he => h (hslot.trans he.symm)) value

theorem getState_setStateFlag_ne {state state' : SizeT b} (h : stateSlot state' ≠ stateSlot state)
    (flag : SizeT b) (set : Bool) :
    getState (setStateFlag s state' flag set) state = getState s state := by
  unfold setStateFlag
  split
  · rfl
  · rename_i i hslot
    exact getState_update_ne (fun he => h (hslot.trans he.symm)) _

/-! ## One call -/

/-- A plain call writes the words it names. -/
theorem serve_plain {state : SizeT b} (hp : c.Plain) (hc : ¬ c.Writes state) :
    getState (serve s c) state = getState s state := by
  cases c with
  | writeMemory kind address data =>
    rw [serve, MemoryProvider.writeMemory]
    split <;> rfl
  | nopInstructions csDisasm beyond address count =>
    rw [serve, MemoryProvider.nopInstructions]
    split
    · split <;> rfl
    · rfl
  | setState state' value => exact getState_setState_ne hc value
  | setStateFlag state' flag set => exact getState_setStateFlag_ne hc flag set
  | saveOptions env => exact getState_congr (save_states env) state
  | setSymbol name value => rfl
  | removeSymbol name => rfl
  | scan call => exact hp.elim
  | writeASMHook env instructions address behavior parameter => exact hp.elim
  | assembleInstructions assembler instructions => exact hp.elim

/-- A hook that is let through changes the words as its assembly does. -/
theorem serve_hook {env : HookEnv b} {instructions : Bytes} {address : Addr b}
    {behavior parameter : BitVec 32} (hw : MemoryProvider.isMemoryWritable s address = true)
    (state : SizeT b) :
    getState (serve s (.writeASMHook env instructions address behavior parameter)) state
      = getState (reported s (compileHook env s instructions)) state := by
  rw [serve, MemoryProvider.writeASMHook, if_pos hw, writeASMHook_getState]

/-- The errors of a result go to the word of the assembler. -/
theorem reported_assemblyFailed (result : AssemblerResult b) :
    getState (reported s result) initAssemblyFailed ≠ 0
      ↔ getState s initAssemblyFailed ≠ 0 ∨ result.errors ≠ [] := by
  unfold reported
  by_cases hne : result.errors ≠ []
  · rw [if_pos hne, onError, if_neg hne, getState_assembly_setState]
    exact ⟨fun _ => Or.inr hne, fun _ => one_ne_zero_word⟩
  · rw [if_neg hne]
    exact ⟨Or.inl, fun h => h.resolve_right hne⟩

theorem reported_sigScanFailed (result : AssemblerResult b) :
    getState (reported s result) initSigScanFailed = getState s initSigScanFailed := by
  unfold reported onError
  split
  · exact getState_setState_ne stateSlot_failed_ne.symm 1
  · rfl

/-- A scan raises the word of the scanner when its search fails. -/
theorem scan_sigScanFailed (s : Loader b) (c : ScanCall b) :
    getState (scan s c).loader initSigScanFailed ≠ 0
      ↔ getState s initSigScanFailed ≠ 0 ∨ (Call.scan c).ScanFails s := by
  -- a hit runs no search, or one whose failure is not reported
  rcases scan_loader s c with ⟨hhit, hl⟩ | ⟨hmiss, -⟩
  · rw [hl]
    exact ⟨Or.inl, fun h => h.resolve_right fun hfails => hhit hfails.1⟩
  · rw [(scan_miss hmiss).2.2, commitSignatureCache_getState]
    by_cases h0 : c.pBegin = 0
    · rw [h0, scanUncached_null]
      exact ⟨Or.inl, fun h => h.resolve_right fun hfails => hfails.2.1 h0⟩
    · rcases scanUncached_cases c.pattern c.mask s c.patternLength c.size true h0 with
        ⟨i, hi, -, hl⟩ | ⟨hn, -, hl⟩
      · rw [hl]
        exact ⟨Or.inl, fun h => h.resolve_right fun hfails => hi.not_noneBelow hfails.2.2⟩
      · rw [hl, if_pos rfl, getState_failed_setState]
        exact ⟨fun _ => Or.inr ⟨hmiss, h0, hn⟩, fun _ => one_ne_zero_word⟩

theorem scan_assemblyFailed (s : Loader b) (c : ScanCall b) :
    getState (scan s c).loader initAssemblyFailed = getState s initAssemblyFailed := by
  rcases scan_loader s c with ⟨-, hl⟩ | ⟨hmiss, -⟩
  · rw [hl]
  · rw [(scan_miss hmiss).2.2, commitSignatureCache_getState]
    by_cases h0 : c.pBegin = 0
    · rw [h0, scanUncached_null]
    · rcases scanUncached_cases c.pattern c.mask s c.patternLength c.size true h0 with
        ⟨_, _, _, hl⟩ | ⟨_, _, hl⟩
      · rw [hl]
      · rw [hl, if_pos rfl, getState_setState_ne stateSlot_failed_ne]

/-- **What raises the word of the scanner.** -/
theorem serve_sigScanFailed (hc : ¬ c.Writes initSigScanFailed) (s : Loader b) :
    getState (serve s c) initSigScanFailed ≠ 0
      ↔ getState s initSigScanFailed ≠ 0 ∨ c.ScanFails s := by
  cases c with
  | scan call => exact scan_sigScanFailed s call
  | writeASMHook env instructions address behavior parameter =>
    by_cases hw : MemoryProvider.isMemoryWritable s address = true
    · rw [serve_hook hw, reported_sigScanFailed]
      exact ⟨Or.inl, fun h => h.resolve_right id⟩
    · rw [serve, MemoryProvider.writeASMHook, if_neg hw]
      exact ⟨Or.inl, fun h => h.resolve_right id⟩
  | assembleInstructions assembler instructions =>
    have hrep := reported_sigScanFailed (s := s) (compileAssembly assembler s instructions 0)
    exact ⟨fun h => Or.inl (hrep ▸ h), fun h => hrep.symm ▸ h.resolve_right id⟩
  | _ =>
    rw [serve_plain (by trivial) hc]
    exact ⟨Or.inl, fun h => h.resolve_right id⟩

/-- **What raises the word of the assembler.** -/
theorem serve_assemblyFailed (hc : ¬ c.Writes initAssemblyFailed) (s : Loader b) :
    getState (serve s c) initAssemblyFailed ≠ 0
      ↔ getState s initAssemblyFailed ≠ 0 ∨ c.AssemblyFails s := by
  cases c with
  | scan call =>
    rw [serve, scan_assemblyFailed]
    exact ⟨Or.inl, fun h => h.resolve_right id⟩
  | writeASMHook env instructions address behavior parameter =>
    -- a hook the provider refuses is not assembled at all
    by_cases hw : MemoryProvider.isMemoryWritable s address = true
    · rw [serve_hook hw, reported_assemblyFailed]
      exact or_congr_right ⟨fun hne => ⟨hw, hne⟩, fun h => h.2⟩
    · rw [serve, MemoryProvider.writeASMHook, if_neg hw]
      exact ⟨Or.inl, fun h => h.resolve_right fun hfails => hw hfails.1⟩
  | assembleInstructions assembler instructions =>
    exact reported_assemblyFailed (compileAssembly assembler s instructions 0)
  | _ =>
    rw [serve_plain (by trivial) hc]
    exact ⟨Or.inl, fun h => h.resolve_right id⟩

/-! ## The message box -/

/-- A call of the session that fails in the state it comes in. -/
def Fails (s : Loader b) (cs : List (Call b)) (fails : Loader b → Call b → Prop) : Prop :=
  ∃ s' c, Occurs serve s cs s' c ∧ fails s' c

theorem initErrorText_eq_none (sigFailed asmFailed : Bool) :
    initErrorText sigFailed asmFailed = none ↔ ¬ (sigFailed = true ∨ asmFailed = true) := by
  cases sigFailed <;> cases asmFailed <;> simp [initErrorText]

/-- **A word that is only raised** is up at the end when a call has raised it. -/
theorem serveAll_raised {state : SizeT b} {fails : Loader b → Call b → Prop} {cs : List (Call b)}
    (h : ∀ c ∈ cs, ∀ s, getState (serve s c) state ≠ 0 ↔ getState s state ≠ 0 ∨ fails s c)
    (h0 : getState s state = 0) : getState (serveAll s cs) state ≠ 0 ↔ Fails s cs fails :=
  (flag_iff (fun s => getState s state ≠ 0) fails h).trans (or_iff_right (not_not_intro h0))

/-- The first action that fails fails in this way. -/
def FailsFirst (s : Loader b) (as : List (Action b)) (failure : Failure) : Prop :=
  ∃ pre a post s', as = pre ++ a :: post ∧ performAll s pre = .ok s' ∧ a.outcome s' = some failure

theorem Action.perform_error {a : Action b} {failure : Failure} :
    a.perform s = .error failure ↔ a.outcome s = some failure := by
  unfold Action.perform
  cases a.outcome s with
  | none => simp
  | some other => simp

theorem raiseInitializers_error {as : List (Action b)} {failure : Failure} :
    raiseInitializers s as = .error failure ↔ FailsFirst s as failure := by
  have hall : raiseInitializers s as = .error failure ↔ performAll s as = .error failure := by
    unfold raiseInitializers
    cases performAll s as with
    | error other => simp
    | ok s' => simp
  rw [hall, performAll, attempt_error_iff]
  unfold FailsFirst
  simp only [Action.perform_error, performAll]

/-- One letter, in a process that is initialised. -/
def letterReady : Loader .win32 := { oneLetter with isInit := true }

/-- The no-op of `nopEnv`, among the zeros around the letter: `add`, `inc ecx`, and `add` again. -/
def letterEnv : HookEnv .win32 :=
  { nopEnv .win32 with csDisasm := fun _ _ => List.replicate 4 2 ++ 1 :: List.replicate 27 2 }

/-- Two scans of which the second finds nothing, a hook, and nothing to assemble, with a handler. -/
def scansAndHook : List (Action .win32) :=
  [.call (.scan (scanByte 0x41 0x401000 0x10)) false,
    .call (.scan (scanByte 0x42 0x401000 0x10)) false,
    .call (.writeASMHook letterEnv nopSource 0x401000 eHookBehaviorAfter eHookParameterJump) false,
    .call (.assembleInstructions (fun _ _ _ => ⟨false, 0, [], 0, []⟩) []) true]

end CommonLoader
