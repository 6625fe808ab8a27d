import CommonLoader.Proof.HookLayout

/-!
# Where control goes

A hook catches control at an address and has to give it back behind the bytes it
displaced. The jump form brings its own way back. The call form returns to the
address that the processor pushed, and that is the end of the call instruction,
not the end of the patch.
-/

namespace CommonLoader

open ByteMemory CText

variable {b : Build} {env : HookEnv b} {s : Loader b} {source : Bytes} {address : Addr b}
  {behavior parameter : BitVec 32}

theorem KnownBehavior.body (h : KnownBehavior behavior) (code orig : Bytes) :
    ∃ body, trampolineBody behavior code orig = some body := by
  rcases h with rfl | rfl | rfl
  · exact ⟨_, rfl⟩
  · exact ⟨_, rfl⟩
  · exact ⟨_, rfl⟩

/-! ## The jump form -/

/-- What a jump hook is for. -/
structure JumpHook (env : HookEnv b) (s : Loader b) (source : Bytes) (address : Addr b)
    (content : Bytes) (mem : Mem b.bits) : Prop where
  enter : ∀ stack, Cpu.step mem ⟨address, stack⟩ = some ⟨env.hookPtr, stack⟩
  holds : load mem env.hookPtr content.length = content
  leave : ∀ stack, Cpu.step mem ⟨env.hookPtr + BitVec.ofNat _ content.length, stack⟩
    = some ⟨address + hookLen env s address, stack⟩
  nops : ∀ i, b.minHookLength ≤ i → i < (hookLen env s address).toNat →
    mem (address + BitVec.ofNat _ i) = 0x90
  frame : ∀ x, ¬ InBlock env.hookPtr (trampolineSize env s source address) x →
    ¬ InBlock address (hookLen env s address).toNat x → mem x = s.mem x

/--
**A jump hook routes control.** Into the trampoline, which holds the code and the
displaced bytes in the order of the behaviour, from its end to the address behind
the displaced bytes; and nothing but the two blocks is written.
-/
theorem jumpHook_correct (h : Installable env s source address) (hb : KnownBehavior behavior) :
    ∃ content, trampolineBody behavior (compileHook env s source).code
        (load s.mem address (hookLen env s address).toNat) = some content
      ∧ (writeASMHook env s source address behavior eHookParameterJump).1 = true
      ∧ JumpHook env s source address content
        (writeASMHook env s source address behavior eHookParameterJump).2.mem := by
  obtain ⟨content, hcontent⟩ := hb.body (compileHook env s source).code
    (load s.mem address (hookLen env s address).toNat)
  obtain ⟨htrue, hlay⟩ := writeASMHook_layout eHookParameterJump h hcontent
  refine ⟨content, hcontent, htrue, ⟨fun stack => ?_, hlay.body, fun stack => ?_, hlay.nops,
    fun x hx hx' => writeASMHook_frame h.long hx hx'⟩⟩
  · exact step_transfer false hlay.patch
  · refine step_transfer false ?_
    have htail := hlay.tail
    unfold trampolineTail at htail
    rwa [if_pos rfl, length_transfer] at htail

/-- What a disassembler makes of a run of no-ops that something undecodable follows. -/
def decodeNops (window : Bytes) (_ : Addr b) : List UInt16 :=
  (window.takeWhile (· == 0x90)).map fun _ => 1

/-- A no-op, in assembly. -/
def nopSource : Bytes := ascii "nop"

/-- A hook with that for its code and a trampoline at `0x20000`. -/
def nopEnv (b : Build) : HookEnv b where
  csDisasm := decodeNops
  assembler := fun _ _ _ => ⟨false, 1, [], 0, [0x90]⟩
  hookPtr := 0x20000

/-- A process with no-ops all over its memory, after `Init`. -/
def nopProcess (b : Build) : Loader b :=
  { Loader.start ⟨0x400000, 0x10000⟩ (fun _ => 0x90) (fun _ => 0x20) (fun _ => none) with
    isInit := true }

theorem nopProcess_installable (b : Build) : Installable (nopEnv b) (nopProcess b) nopSource 0x401000 := by
  cases b with
  | win32 => exact ⟨by decide +kernel, by decide +kernel,
      Apart.of_le (by decide +kernel) (by decide +kernel)⟩
  | win64 => exact ⟨by decide +kernel, by decide +kernel,
      Apart.of_le (by decide +kernel) (by decide +kernel)⟩

theorem jumpHook_correct_nops :
    ∃ content, trampolineBody eHookBehaviorAfter
        (compileHook (nopEnv .win64) (nopProcess .win64) nopSource).code
        (load (nopProcess .win64).mem 0x401000 14) = some content
      ∧ (writeASMHook (nopEnv .win64) (nopProcess .win64) nopSource 0x401000 eHookBehaviorAfter
          eHookParameterJump).1 = true
      ∧ JumpHook (nopEnv .win64) (nopProcess .win64) nopSource 0x401000 content
        (writeASMHook (nopEnv .win64) (nopProcess .win64) nopSource 0x401000 eHookBehaviorAfter
          eHookParameterJump).2.mem :=
  jumpHook_correct (nopProcess_installable .win64) (Or.inr (Or.inl rfl))

/-! ## The call form -/

/--
A call hook comes back: the processor pushes an address in the patch, the return at
the end of the trampoline goes there, and from there on it runs through no-ops to the
end of the displaced bytes.
-/
def CallReturns (mem : Mem b.bits) (address hookPtr tramEnd : Addr b) (hookLen : Nat) : Prop :=
  ∀ stack, ∃ k, k ≤ hookLen
    ∧ Cpu.step mem ⟨address, stack⟩ = some ⟨hookPtr, (address + BitVec.ofNat _ k) :: stack⟩
    ∧ Cpu.step mem ⟨tramEnd, (address + BitVec.ofNat _ k) :: stack⟩
      = some ⟨address + BitVec.ofNat _ k, stack⟩
    ∧ (∀ i, k ≤ i → i < hookLen → mem (address + BitVec.ofNat _ i) = 0x90)
    ∧ Cpu.steps mem (hookLen - k) ⟨address + BitVec.ofNat _ k, stack⟩
      = some ⟨address + BitVec.ofNat _ hookLen, stack⟩

/-- The last byte of the trampoline of a call hook is a return. -/
theorem HookLayout.return {content : Bytes} {mem : Mem b.bits}
    (h : HookLayout env s address parameter content mem) (hp : parameter ≠ eHookParameterJump) :
    mem (env.hookPtr + BitVec.ofNat _ content.length) = 0xC3 := by
  have htail := h.tail
  unfold trampolineTail at htail
  rw [if_neg hp] at htail
  exact load_one htail

/-- What a call comes back to: the bytes behind the instruction, no-ops or not. -/
theorem callReturns_iff_nops {content : Bytes} {mem : Mem b.bits}
    (h : Installable env s source address)
    (hlay : HookLayout env s address parameter content mem) (hp : parameter ≠ eHookParameterJump) :
    CallReturns mem address env.hookPtr (env.hookPtr + BitVec.ofNat _ content.length)
        (hookLen env s address).toNat ↔
      ∀ i, b.transferLength ≤ i → i < b.minHookLength → mem (address + BitVec.ofNat _ i) = 0x90 := by
  have hlong := h.long
  have hbelow := h.below
  have hlen : b.transferLength ≤ b.minHookLength := by cases b <;> decide
  have hstep : ∀ stack, Cpu.step mem ⟨address, stack⟩
      = some ⟨env.hookPtr, (address + BitVec.ofNat _ b.transferLength) :: stack⟩ := by
    intro stack
    have hpatch := hlay.patch
    rw [decide_eq_true hp] at hpatch
    exact step_transfer true hpatch
  refine ⟨?_, ?_⟩
  · intro hret i hi hlt
    obtain ⟨k, hk, hcall, _, hrun, _⟩ := hret []
    -- the pushed address settles where execution resumes
    have hpush : address + BitVec.ofNat b.bits b.transferLength = address + BitVec.ofNat _ k := by
      have := (hstep []).symm.trans hcall
      simpa using this
    have hkt : k = b.transferLength := by
      have := congrArg (fun y => (y - address).toNat) hpush
      rw [toNat_add_sub (by omega), toNat_add_sub (by omega)] at this
      exact this.symm
    exact hrun i (by omega) (by omega)
  · intro hnops stack
    have hrun : ∀ i, b.transferLength ≤ i → i < (hookLen env s address).toNat →
        mem (address + BitVec.ofNat _ i) = 0x90 := by
      intro i hi hlt
      rcases Nat.lt_or_ge i b.minHookLength with hin | hout
      · exact hnops i hi hin
      · exact hlay.nops i hout hlt
    have hsteps : Cpu.steps mem _ _ = _ := Cpu.steps_nops address stack
      ((hookLen env s address).toNat - b.transferLength) b.transferLength
      fun i hi hlt => hrun i hi (by omega)
    rw [show b.transferLength + ((hookLen env s address).toNat - b.transferLength)
      = (hookLen env s address).toNat by omega] at hsteps
    exact ⟨b.transferLength, by omega, hstep stack, Cpu.step_ret (hlay.return hp), hrun, hsteps⟩

/-- In 64-bit code these bytes are the pointer to the trampoline. -/
theorem pointer_nops_iff {mem : Mem Build.win64.bits} {address hookPtr : Addr .win64}
    (h : load mem address 14 = transfer (b := .win64) true address hookPtr) :
    (∀ i, 6 ≤ i → i < 14 → mem (address + BitVec.ofNat _ i) = 0x90) ↔
      hookPtr.toNat = 0x9090909090909090 := by
  obtain ⟨_, hptr⟩ := load_append ([0xFF, 0x15] ++ [0x00, 0x00, 0x00, 0x00])
    (leBytes 8 hookPtr.toNat) h
  have hptr : load mem (address + BitVec.ofNat _ 6) 8 = leBytes 8 hookPtr.toNat := hptr
  have hnum : ofLeBytes (leBytes 8 hookPtr.toNat) = hookPtr.toNat :=
    ofLeBytes_leBytes_of_lt hookPtr.isLt
  refine ⟨?_, ?_⟩
  · intro hnops
    have hrep : load mem (address + BitVec.ofNat _ 6) (List.replicate 8 (0x90 : UInt8)).length
        = List.replicate 8 0x90 := by
      refine load_eq_iff.mpr fun k hk => ?_
      rw [List.length_replicate] at hk
      rw [add_add_ofNat, List.getElem_replicate]
      exact hnops _ (by omega) (by omega)
    rw [List.length_replicate] at hrep
    rw [← hnum, ← hptr, hrep]
    decide
  · intro hval i hi hlt
    have hrep : load mem (address + BitVec.ofNat _ 6) (List.replicate 8 (0x90 : UInt8)).length
        = List.replicate 8 0x90 := by
      rw [hval] at hptr
      exact hptr.trans (by decide)
    have := load_eq_iff.mp hrep (i - 6) (by rw [List.length_replicate]; omega)
    rwa [add_add_ofNat, show 6 + (i - 6) = i by omega, List.getElem_replicate] at this

/--
**When a call hook comes back**: always in 32-bit code, and in 64-bit code only if
the pointer behind the call happens to spell no-ops.
-/
theorem callHook_returns (h : Installable env s source address) (hb : KnownBehavior behavior) :
    ∃ content, trampolineBody behavior (compileHook env s source).code
        (load s.mem address (hookLen env s address).toNat) = some content
      ∧ (writeASMHook env s source address behavior eHookParameterCall).1 = true
      ∧ (CallReturns (writeASMHook env s source address behavior eHookParameterCall).2.mem address
          env.hookPtr (env.hookPtr + BitVec.ofNat _ content.length)
          (hookLen env s address).toNat ↔
        b = .win32 ∨ env.hookPtr.toNat = 0x9090909090909090) := by
  obtain ⟨content, hcontent⟩ := hb.body (compileHook env s source).code
    (load s.mem address (hookLen env s address).toNat)
  obtain ⟨htrue, hlay⟩ := writeASMHook_layout eHookParameterCall h hcontent
  have hp : eHookParameterCall ≠ eHookParameterJump := by decide
  refine ⟨content, hcontent, htrue, ?_⟩
  rw [callReturns_iff_nops h hlay hp]
  have hpatch := hlay.patch
  rw [decide_eq_true hp] at hpatch
  cases b with
  | win32 =>
    refine ⟨fun _ => Or.inl rfl, ?_⟩
    intro _ i hi hlt
    have h5 : (5 : Nat) ≤ i := hi
    have h5' : i < 5 := hlt
    omega
  | win64 =>
    refine Iff.trans (pointer_nops_iff hpatch) ⟨fun hv => Or.inr hv, fun hv => ?_⟩
    rcases hv with hv | hv
    · cases hv
    · exact hv

theorem callHook_returns_nops :
    ∃ content, trampolineBody eHookBehaviorReplace
        (compileHook (nopEnv .win32) (nopProcess .win32) nopSource).code
        (load (nopProcess .win32).mem 0x401000 5) = some content
      ∧ CallReturns (writeASMHook (nopEnv .win32) (nopProcess .win32) nopSource 0x401000
          eHookBehaviorReplace eHookParameterCall).2.mem 0x401000 0x20000
          (0x20000 + BitVec.ofNat _ content.length) 5 := by
  obtain ⟨content, hcontent, _, hiff⟩ := callHook_returns (nopProcess_installable .win32)
    (show KnownBehavior eHookBehaviorReplace from Or.inr (Or.inr rfl))
  exact ⟨content, hcontent, hiff.mpr (Or.inl rfl)⟩

/--
**In 64-bit code the hook returns into its own pointer**: six bytes behind the target
lies the low byte of `0x20000`, and that is no no-op.
-/
theorem callHook_returns_into_pointer :
    Installable (nopEnv .win64) (nopProcess .win64) nopSource 0x401000
      ∧ (writeASMHook (nopEnv .win64) (nopProcess .win64) nopSource 0x401000 eHookBehaviorReplace
          eHookParameterCall).1 = true
      ∧ ¬ CallReturns (writeASMHook (nopEnv .win64) (nopProcess .win64) nopSource 0x401000
          eHookBehaviorReplace eHookParameterCall).2.mem 0x401000 0x20000 0x20001 14 := by
  refine ⟨nopProcess_installable .win64, by decide +kernel, ?_⟩
  intro hret
  obtain ⟨k, hk, hcall, _, hrun, _⟩ := hret []
  have hpush : Cpu.step (writeASMHook (nopEnv .win64) (nopProcess .win64) nopSource 0x401000
      eHookBehaviorReplace eHookParameterCall).2.mem ⟨0x401000, []⟩
      = some ⟨0x20000, [0x401006]⟩ := by decide +kernel
  have hsix : (0x401006 : Addr .win64) = 0x401000 + BitVec.ofNat _ k := by
    have := hpush.symm.trans hcall
    simpa using this
  have hnum : (0x401006 : Addr .win64).toNat = (0x401000 + k) % 2 ^ 64 := by
    rw [hsix, BitVec.toNat_add, BitVec.toNat_ofNat, Nat.add_mod_mod]
    rfl
  have hbyte := hrun 6 (by have : (0x401006 : Addr .win64).toNat = 0x401006 := rfl; omega) (by decide)
  exact absurd hbyte (by decide +kernel)

end CommonLoader
