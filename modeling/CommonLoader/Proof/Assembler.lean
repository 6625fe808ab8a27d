import CommonLoader.Proof.HookControl

/-!
# Is a failed assembly reported?

The wrapper looks at the list of statement errors and at nothing else. Keystone also
fails with that list empty: the buffer cannot be made, or the parser ends with an
error number of its own, as it does for a symbol nobody defines.
-/

namespace CommonLoader

open ByteMemory CText

variable {b : Build} {s : Loader b}

theorem stateSlot_assembly : stateSlot (initAssemblyFailed : SizeT b) = some 2 := by
  cases b <;> rfl

theorem getState_assembly_setState :
    getState (setState s initAssemblyFailed 1) initAssemblyFailed = 1 := by
  unfold getState setState
  rw [stateSlot_assembly]
  exact Function.update_self (2 : Fin (stateMax + 1)) 1 s.states

/-- `ks_asm` returned an error or listed one. -/
def AssemblyFailed (parse : KsParse b) : Prop :=
  (ksAsm parse).1 ≠ 0 ∨ (ksAsm parse).2.errors ≠ []

/-- The state says so, and only then. -/
def ReportsFailure (parse : KsParse b) (s' : Loader b) : Prop :=
  getState s' initAssemblyFailed = 1 ↔ AssemblyFailed parse

/-- What the check of the callers makes of a result. -/
theorem reported_state (h : getState s initAssemblyFailed = 0) (result : AssemblerResult b) :
    getState (reported s result) initAssemblyFailed = 1 ↔ result.errors ≠ [] := by
  have h10 : (0 : SizeT b) ≠ 1 := by cases b <;> decide
  unfold reported
  split
  · rename_i hne
    unfold onError
    rw [if_neg hne]
    exact ⟨fun _ => hne, fun _ => getState_assembly_setState⟩
  · rename_i hnil
    rw [h]
    exact ⟨fun h01 => absurd h01 h10, fun hne => absurd hne hnil⟩

/-- **Failures that come with a statement error are reported, and no others.** -/
theorem reportsFailure_iff (h : getState s initAssemblyFailed = 0) (parse : KsParse b) :
    ReportsFailure parse (reported s (ksAsm parse).2) ↔
      (ksAsm parse).2.errors ≠ [] ∨ (ksAsm parse).1 = 0 := by
  have hstate := reported_state h (ksAsm parse).2
  refine ⟨fun hrep => ?_, fun hcond => hstate.trans ⟨fun hne => Or.inr hne, fun hfail => ?_⟩⟩
  · by_cases hne : (ksAsm parse).2.errors = []
    · refine Or.inr (Decidable.not_not.mp fun hret => ?_)
      exact hstate.mp (hrep.mpr (Or.inl hret)) hne
    · exact Or.inl hne
  · rcases hcond with hne | hret
    · exact hne
    · exact hfail.resolve_left (not_not_intro hret)

/-- `WriteASMHook` changes the state words in this way only, whatever the behaviour. -/
theorem writeASMHook_getState (env : HookEnv b) (source : Bytes) (address : Addr b)
    (behavior parameter : BitVec 32) (state : SizeT b) :
    getState (writeASMHook env s source address behavior parameter).2 state
      = getState (reported s (compileHook env s source)) state := by
  cases h : writeBody s.mem behavior env.hookPtr (compileHook env s source).code address
      (hookLen env s address) with
  | none => rw [writeASMHook_unknown (writeBody_eq_none.mp h)]
  | some r =>
    unfold getState
    rw [(writeASMHook_known parameter h).2.2]

/--
**When a failed assembly is reported**, by both callers: when `ks_asm` listed a
statement error. A failure that it only returns is lost.
-/
theorem assembly_reported (env : HookEnv b) (s : Loader b)
    (h : getState s initAssemblyFailed = 0) (source : Bytes) (address : Addr b)
    (behavior parameter : BitVec 32) :
    let hooked := env.assembler (resolveSymbol s) source (s.moduleInfo.base.signExtend 64)
    let assembled := env.assembler (resolveSymbol s) source 0
    (ReportsFailure hooked (writeASMHook env s source address behavior parameter).2 ↔
        (ksAsm hooked).2.errors ≠ [] ∨ (ksAsm hooked).1 = 0)
      ∧ (ReportsFailure assembled (assembleInstructions env.assembler s source).2 ↔
        (ksAsm assembled).2.errors ≠ [] ∨ (ksAsm assembled).1 = 0) := by
  intro hooked assembled
  refine ⟨?_, reportsFailure_iff h assembled⟩
  unfold ReportsFailure
  rw [writeASMHook_getState]
  exact reportsFailure_iff h hooked

/-- A call to a symbol that nobody has set. -/
def nobodySource : Bytes := ascii "call nobody"

/-- Keystone on it: every statement parses, and the symbol is missing at the end. -/
def missingSymbol (b : Build) : KsParse b := ⟨false, 1, [], ksErrAsmSymbolMissing, []⟩

/-- A hook with that source. -/
def missingSymbolEnv : HookEnv .win32 :=
  { nopEnv .win32 with assembler := fun _ _ _ => missingSymbol .win32 }

theorem assembly_reported_nops :
    ReportsFailure ⟨false, 1, [], 0, [0x90]⟩
      (writeASMHook (nopEnv .win32) (nopProcess .win32) nopSource 0x401000 eHookBehaviorAfter
        eHookParameterJump).2 :=
  (assembly_reported (nopEnv .win32) (nopProcess .win32) (by decide +kernel) nopSource 0x401000
    eHookBehaviorAfter eHookParameterJump).1.mpr (Or.inr (by decide +kernel))

/-- **A missing symbol goes unreported**, and the hook is installed around no code. -/
theorem missing_symbol_unreported :
    (ksAsm (missingSymbol .win32)).1 = -1
      ∧ (writeASMHook missingSymbolEnv (nopProcess .win32) nobodySource 0x401000 eHookBehaviorAfter
          eHookParameterJump).1 = true
      ∧ ¬ ReportsFailure (missingSymbol .win32)
          (writeASMHook missingSymbolEnv (nopProcess .win32) nobodySource 0x401000 eHookBehaviorAfter
            eHookParameterJump).2
      ∧ ¬ ReportsFailure (missingSymbol .win32)
          (assembleInstructions missingSymbolEnv.assembler (nopProcess .win32) nobodySource).2 := by
  have hfail : AssemblyFailed (missingSymbol .win32) := Or.inl (by decide +kernel)
  refine ⟨by decide +kernel, by decide +kernel, ?_, ?_⟩
  · intro h
    exact absurd (h.mpr hfail) (by decide +kernel)
  · intro h
    exact absurd (h.mpr hfail) (by decide +kernel)

end CommonLoader
