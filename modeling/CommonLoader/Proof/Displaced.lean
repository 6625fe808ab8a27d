import CommonLoader.Proof.HookControl

/-!
# The displaced instructions

Two things are asked of the bytes a hook overwrites. They should be whole
instructions, and enough of them for the patch: the loop that counts them stops
early when the disassembler does, and the patch does not ask how far it came. And
they should mean the same in the trampoline: they are copied byte for byte, which is
the same for everything but an operand that counts from its own position.
-/

namespace CommonLoader

open ByteMemory CText

variable {b : Build} {env : HookEnv b} {s : Loader b} {source : Bytes} {address : Addr b}
  {behavior parameter : BitVec 32}

/-! ## Enough of them -/

/--
A hook that was installed displaced enough bytes and wrote nothing else outside its
trampoline; one that was not installed wrote nothing.
-/
def WholeInstructions (env : HookEnv b) (s : Loader b) (source : Bytes) (address : Addr b)
    (behavior parameter : BitVec 32) : Prop :=
  ((writeASMHook env s source address behavior parameter).1 = true →
      b.minHookLength ≤ (hookLen env s address).toNat
      ∧ ∀ x, ¬ InBlock env.hookPtr (trampolineSize env s source address) x →
        ¬ InBlock address (hookLen env s address).toNat x →
        (writeASMHook env s source address behavior parameter).2.mem x = s.mem x)
    ∧ ((writeASMHook env s source address behavior parameter).1 = false →
      (writeASMHook env s source address behavior parameter).2.mem = s.mem)

theorem knownBehavior_iff : KnownBehavior behavior ↔ ¬ (behavior ≠ eHookBehaviorBefore
    ∧ behavior ≠ eHookBehaviorAfter ∧ behavior ≠ eHookBehaviorReplace) := by
  unfold KnownBehavior
  refine ⟨fun h ⟨h1, h2, h3⟩ => ?_, fun h => ?_⟩
  · rcases h with h | h | h
    · exact h1 h
    · exact h2 h
    · exact h3 h
  · by_cases h1 : behavior = eHookBehaviorBefore
    · exact Or.inl h1
    · by_cases h2 : behavior = eHookBehaviorAfter
      · exact Or.inr (Or.inl h2)
      · exact Or.inr (Or.inr (Decidable.not_not.mp fun h3 => h ⟨h1, h2, h3⟩))

/-- A known behaviour always has a body. -/
theorem KnownBehavior.writeBody (hb : KnownBehavior behavior) (mem : Mem b.bits) (hookPtr : Addr b)
    (code : Bytes) (address : Addr b) (hl : SizeT b) :
    ∃ r, CommonLoader.writeBody mem behavior hookPtr code address hl = some r := by
  rw [← Option.ne_none_iff_exists']
  exact fun h => knownBehavior_iff.mp hb (writeBody_eq_none.mp h)

/-- So it always installs the hook. -/
theorem writeASMHook_installs (hb : KnownBehavior behavior) :
    (writeASMHook env s source address behavior parameter).1 = true := by
  obtain ⟨r, h⟩ := hb.writeBody s.mem env.hookPtr (compileHook env s source).code address
    (hookLen env s address)
  exact (writeASMHook_known parameter h).1

/-- Any other leaves a report, and nothing else. -/
theorem writeASMHook_notKnown (hb : ¬KnownBehavior behavior) :
    writeASMHook env s source address behavior parameter
      = (false, reported s (compileHook env s source)) :=
  writeASMHook_unknown (Decidable.not_not.mp fun h => hb (knownBehavior_iff.mpr h))

/--
**When a hook overwrites whole instructions only**: when it is not installed at all,
or when the instructions the disassembler found are as long as the patch.
-/
theorem writeASMHook_wholeInstructions (env : HookEnv b) (s : Loader b) (source : Bytes)
    (address : Addr b) (behavior parameter : BitVec 32) :
    WholeInstructions env s source address behavior parameter ↔
      ¬ KnownBehavior behavior
        ∨ b.minHookLength ≤ totalSize (decodedSizes env s address) := by
  rw [← hookLen_long_iff]
  by_cases hb : KnownBehavior behavior
  · have htrue : (writeASMHook env s source address behavior parameter).1 = true :=
      writeASMHook_installs hb
    refine ⟨fun h => Or.inr (h.1 htrue).1, ?_⟩
    intro h
    have hlong := h.resolve_left (not_not_intro hb)
    refine ⟨fun _ => ⟨hlong, fun x hx hx' => writeASMHook_frame hlong hx hx'⟩, ?_⟩
    intro hfalse
    exact absurd (htrue.symm.trans hfalse) (by decide)
  · refine ⟨fun _ => Or.inl hb, ?_⟩
    intro _
    unfold WholeInstructions
    rw [writeASMHook_notKnown hb]
    exact ⟨fun htrue => absurd htrue Bool.false_ne_true, fun _ => reported_mem _⟩

/-- A process with one no-op at `0x401000` before bytes that are no instruction. -/
def loneNop : Loader .win64 :=
  { nopProcess .win64 with mem := fun a => if a = 0x401000 then 0x90 else 0x06 }

/-- **Thirteen bytes behind the only instruction are overwritten.** -/
theorem writeASMHook_short :
    totalSize (decodedSizes (nopEnv .win64) loneNop 0x401000) = 1
      ∧ (writeASMHook (nopEnv .win64) loneNop nopSource 0x401000 eHookBehaviorAfter
          eHookParameterJump).1 = true
      ∧ (writeASMHook (nopEnv .win64) loneNop nopSource 0x401000 eHookBehaviorAfter
          eHookParameterJump).2.mem 0x40100D ≠ loneNop.mem 0x40100D
      ∧ ¬ WholeInstructions (nopEnv .win64) loneNop nopSource 0x401000 eHookBehaviorAfter
          eHookParameterJump := by
  have htrue : (writeASMHook (nopEnv .win64) loneNop nopSource 0x401000 eHookBehaviorAfter
      eHookParameterJump).1 = true := by decide +kernel
  refine ⟨by decide +kernel, htrue, by decide +kernel, ?_⟩
  intro h
  exact absurd (h.1 htrue).1 (by decide +kernel)

/-! ## Moving them -/

/-- Where the displaced bytes begin in the trampoline. -/
def displacedStart (behavior : BitVec 32) (hookPtr : Addr b) (code : Bytes) : Addr b :=
  hookPtr + BitVec.ofNat _ (if behavior = eHookBehaviorBefore then code.length else 0)

/--
The address that the instruction of `size` bytes at `a` refers to with an operand of
`width` bytes at its byte `field`: relative to its own end.
-/
def relativeTarget (mem : Mem b.bits) (a : Addr b) (size field width : Nat) : Addr b :=
  a + BitVec.ofNat _ size
    + (BitVec.ofNat (8 * width) (ofLeBytes (load mem (a + BitVec.ofNat _ field) width))).signExtend _

/-- The block of the trampoline lies apart from all that the hook overwrites. -/
def FreshTrampoline (env : HookEnv b) (s : Loader b) (source : Bytes) (address : Addr b) : Prop :=
  Apart env.hookPtr (trampolineSize env s source address) address
    (max (hookLen env s address).toNat b.minHookLength)

theorem Installable.fresh (h : Installable env s source address) :
    FreshTrampoline env s source address := by
  unfold FreshTrampoline
  rw [Nat.max_eq_left h.long]
  exact h.apart

variable (parameter) in
/-- **The displaced bytes are copied as they are**, however few they are. -/
theorem load_displaced (h : FreshTrampoline env s source address)
    (hb : behavior = eHookBehaviorBefore ∨ behavior = eHookBehaviorAfter) :
    load (writeASMHook env s source address behavior parameter).2.mem
        (displacedStart behavior env.hookPtr (compileHook env s source).code)
        (hookLen env s address).toNat
      = load s.mem address (hookLen env s address).toNat := by
  unfold displacedStart
  rcases hb with rfl | rfl
  · have hbody := (writeASMHook_trampoline parameter h
      (show trampolineBody eHookBehaviorBefore _ _ = some _ from rfl)).2.1
    rw [List.length_append] at hbody
    rw [if_pos rfl]
    simpa using (load_append _ _ hbody).2
  · have hbody := (writeASMHook_trampoline parameter h
      (show trampolineBody eHookBehaviorAfter _ _ = some _ from rfl)).2.1
    rw [List.length_append] at hbody
    rw [if_neg (by decide), BitVec.add_zero]
    simpa using (load_append _ _ hbody).1

theorem displacedStart_ne (h : FreshTrampoline env s source address) (behavior : BitVec 32) :
    displacedStart behavior env.hookPtr (compileHook env s source).code ≠ address := by
  have hpos := minHookLength_pos b
  have hsize := h.le_pow (by omega)
  have hin : InBlock env.hookPtr (trampolineSize env s source address)
      (displacedStart behavior env.hookPtr (compileHook env s source).code) := by
    refine inBlock_add hsize ?_
    unfold trampolineSize
    split <;> omega
  exact fun he => h address (he ▸ hin) (inBlock_self (by omega))

/--
**What becomes of a displaced instruction.** It is copied byte for byte, and an
operand relative to its end refers to an address as far from the old one as the
trampoline is from the target. The blocks do not overlap, so that is another address.
-/
theorem displaced_relative (h : FreshTrampoline env s source address)
    (hb : behavior = eHookBehaviorBefore ∨ behavior = eHookBehaviorAfter)
    (parameter : BitVec 32) (offset size field width : Nat)
    (ho : offset + size ≤ (hookLen env s address).toNat) (hf : field + width ≤ size) :
    let mem := (writeASMHook env s source address behavior parameter).2.mem
    let start := displacedStart behavior env.hookPtr (compileHook env s source).code
    load mem (start + BitVec.ofNat _ offset) size
        = load s.mem (address + BitVec.ofNat _ offset) size
      ∧ relativeTarget mem (start + BitVec.ofNat _ offset) size field width
        = relativeTarget s.mem (address + BitVec.ofNat _ offset) size field width
          + (start - address)
      ∧ relativeTarget mem (start + BitVec.ofNat _ offset) size field width
        ≠ relativeTarget s.mem (address + BitVec.ofNat _ offset) size field width := by
  have hne := displacedStart_ne h behavior
  have hload := load_displaced parameter h hb
  intro mem start
  have hinsn := load_eq_part hload ho
  have hfield := load_eq_part hinsn hf
  have hmoved : relativeTarget mem (start + BitVec.ofNat _ offset) size field width
      = relativeTarget s.mem (address + BitVec.ofNat _ offset) size field width
        + (start - address) := by
    have hstart : start = address + (start - address) := by
      rw [BitVec.add_comm, BitVec.sub_add_cancel]
    -- everything is as far from the old place as the start is
    have hswap : ∀ x y z : Addr b, address + (start - address) + x + y + z
        = address + x + y + z + (start - address) := by
      intro x y z
      ac_rfl
    unfold relativeTarget
    rw [hfield, hstart, hswap, ← hstart]
  refine ⟨hinsn, hmoved, fun he => hne ?_⟩
  have hzero : start - address = 0#b.bits := by
    have := hmoved.symm.trans he
    simpa using this
  have hback := BitVec.sub_add_cancel start address
  rw [hzero, BitVec.zero_add] at hback
  exact hback.symm

/-- A process with `call 0x401015` at `0x401000`, and no-ops. -/
def callProcess : Loader .win32 :=
  { nopProcess .win32 with mem := store (fun _ => 0x90) 0x401000 [0xE8, 0x10, 0x00, 0x00, 0x00] }

/-- The disassembler knows the call as well. -/
def callEnv : HookEnv .win32 :=
  { nopEnv .win32 with
    csDisasm := fun window address =>
      if window.head? = some 0xE8 then 5 :: decodeNops (window.drop 5) (address + 5)
      else decodeNops window address }

theorem callProcess_installable : Installable callEnv callProcess nopSource 0x401000 :=
  ⟨by decide +kernel, by decide +kernel, Apart.of_le (by decide +kernel) (by decide +kernel)⟩

theorem displaced_relative_call :
    load (writeASMHook callEnv callProcess nopSource 0x401000 eHookBehaviorAfter eHookParameterJump).2.mem
        0x20000 5
      = [0xE8, 0x10, 0x00, 0x00, 0x00] := by
  have hcopy := (displaced_relative callProcess_installable.fresh (Or.inr rfl) eHookParameterJump
    0 5 1 4 (by decide +kernel) (by decide)).1
  have horig : load callProcess.mem (0x401000 + BitVec.ofNat _ 0) 5
      = [0xE8, 0x10, 0x00, 0x00, 0x00] := by decide +kernel
  exact hcopy.trans horig

/-- **The call in the trampoline goes to another address.** -/
theorem displaced_call_goes_astray :
    Installable callEnv callProcess nopSource 0x401000
      ∧ decodedSizes callEnv callProcess 0x401000 = 5 :: List.replicate 59 1
      ∧ relativeTarget callProcess.mem 0x401000 5 1 4 = 0x401015
      ∧ relativeTarget (writeASMHook callEnv callProcess nopSource 0x401000 eHookBehaviorAfter
          eHookParameterJump).2.mem 0x20000 5 1 4 = 0x20015 :=
  ⟨callProcess_installable, by decide +kernel, by decide +kernel, by decide +kernel⟩

end CommonLoader
