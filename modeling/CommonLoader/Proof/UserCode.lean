import CommonLoader.Proof.Displaced

/-!
# Branches in the code of a hook

The code of a hook is assembled for the base of the module, before the trampoline is
allocated. A branch to an absolute address becomes a distance from there, and the
processor adds the distance to where the branch lies in the trampoline. The two cancel
only when trampoline and base agree in their low 32 bits.
-/

namespace CommonLoader

open ByteMemory CText

variable {b : Build} {env : HookEnv b} {s : Loader b} {source : Bytes} {address : Addr b}
  {behavior parameter : BitVec 32}

/-! ## A displacement of 32 bits -/

/-- The distance fits in a signed displacement. -/
def InReach (d : Addr b) : Prop := -2 ^ 31 ≤ d.toInt ∧ d.toInt < 2 ^ 31

instance (d : Addr b) : Decidable (InReach d) := inferInstanceAs (Decidable (_ ∧ _))

theorem bits_ge (b : Build) : 32 ≤ b.bits := by cases b <;> decide

/-- **What is in reach** is what survives the cut to 32 bits. -/
theorem signExtend_setWidth_iff (d : Addr b) :
    (d.setWidth 32).signExtend b.bits = d ↔ InReach d := by
  have hcut : (d.setWidth 32).toInt = d.toInt.bmod (2 ^ 32) := by
    rw [← BitVec.signExtend_eq_setWidth_of_le d (bits_ge b),
      BitVec.toInt_signExtend_eq_toInt_bmod_of_le d (bits_ge b)]
  rw [← BitVec.toInt_inj, BitVec.toInt_signExtend_of_le (bits_ge b), hcut]
  unfold InReach
  refine ⟨?_, ?_⟩
  · intro h
    rw [← h]
    exact ⟨Int.le_bmod (by decide), Int.bmod_lt (by decide)⟩
  · intro ⟨hlo, hhi⟩
    exact Int.bmod_eq_of_le (by simpa using hlo) (by simpa using hhi)

theorem low_sub {w : Nat} (hw : 32 ≤ w) (x y : BitVec w) :
    (x - y).setWidth 32 = x.setWidth 32 - y.setWidth 32 := by
  rw [BitVec.sub_eq_add_neg, BitVec.setWidth_add _ _ hw, BitVec.setWidth_neg_of_le hw,
    ← BitVec.sub_eq_add_neg]

theorem low_signExtend (x : Addr b) : (x.signExtend 64).setWidth 32 = x.setWidth 32 := by
  rw [← BitVec.setWidth_setWidth_of_le (x.signExtend 64) (bits_ge b),
    setWidth_signExtend b.bits_le]

/-! ## Where the code is -/

/-- Where the compiled code begins in the trampoline. -/
def codeStart (behavior : BitVec 32) (hookPtr : Addr b) (hookLen : SizeT b) : Addr b :=
  if behavior = eHookBehaviorAfter then hookPtr + hookLen else hookPtr

variable (parameter) in
/-- **The code is in the trampoline** as it was compiled, however few bytes were displaced. -/
theorem load_code (h : FreshTrampoline env s source address) (hb : KnownBehavior behavior) :
    load (writeASMHook env s source address behavior parameter).2.mem
        (codeStart behavior env.hookPtr (hookLen env s address))
        (compileHook env s source).code.length
      = (compileHook env s source).code := by
  have hlen : (hookLen env s address)
      = BitVec.ofNat _ (load s.mem address (hookLen env s address).toNat).length := by
    rw [length_load, BitVec.ofNat_toNat, BitVec.setWidth_eq]
  unfold codeStart
  rcases hb with rfl | rfl | rfl
  · have hbody := (writeASMHook_trampoline parameter h
      (show trampolineBody eHookBehaviorBefore _ _ = some _ from rfl)).2.1
    rw [List.length_append] at hbody
    rw [if_neg (by decide)]
    exact (load_append _ _ hbody).1
  · have hbody := (writeASMHook_trampoline parameter h
      (show trampolineBody eHookBehaviorAfter _ _ = some _ from rfl)).2.1
    rw [List.length_append] at hbody
    rw [if_pos rfl, hlen]
    simpa using (load_append _ _ hbody).2
  · rw [if_neg (by decide)]
    exact (writeASMHook_trampoline parameter h
      (show trampolineBody eHookBehaviorReplace _ _ = some _ from rfl)).2.1

/-- A part of what was loaded. -/
theorem load_slice {w : Nat} {mem : Mem w} {a : BitVec w} {bs : Bytes}
    (h : load mem a bs.length = bs) {o l : Nat} (hl : o + l ≤ bs.length) :
    load mem (a + BitVec.ofNat w o) l = (bs.drop o).take l := by
  refine List.ext_getElem (by simp; omega) fun k hk _ => ?_
  rw [length_load] at hk
  rw [getElem_load, add_add_ofNat, load_eq_iff.mp h (o + k) (by omega), List.getElem_take,
    List.getElem_drop]

/-! ## A branch to an absolute address -/

/--
A relative branch or call in the compiled code, with its displacement at byte `o`:
the one `ks_asm` gives it for the address that is passed.
-/
structure RelativeBranch (env : HookEnv b) (s : Loader b) (source : Bytes) (o : Nat)
    (target : Addr b) : Prop where
  inside : o + 4 ≤ (compileHook env s source).code.length
  encoded : ((compileHook env s source).code.drop o).take 4
    = leBytes 4 (target.setWidth 64
        - (s.moduleInfo.base.signExtend 64 + BitVec.ofNat 64 (o + 4))).toNat

/--
**When a branch in user code reaches its target**: when the position of the code in
the trampoline is the module base modulo `2^32`, and the target is in reach from there.
-/
theorem branch_reaches (h : FreshTrampoline env s source address) (hb : KnownBehavior behavior)
    (parameter : BitVec 32) {o : Nat} {target : Addr b} (hbr : RelativeBranch env s source o target) :
    relativeTarget (writeASMHook env s source address behavior parameter).2.mem
        (codeStart behavior env.hookPtr (hookLen env s address) + BitVec.ofNat _ o) 4 0 4 = target ↔
      (codeStart behavior env.hookPtr (hookLen env s address)).setWidth 32
          = s.moduleInfo.base.setWidth 32
        ∧ InReach (target - (codeStart behavior env.hookPtr (hookLen env s address)
          + BitVec.ofNat _ (o + 4))) := by
  have hload := load_slice (load_code parameter h hb) hbr.inside
  rw [hbr.encoded] at hload
  generalize codeStart behavior env.hookPtr (hookLen env s address) = start at hload ⊢
  generalize hp : start + BitVec.ofNat _ (o + 4) = p
  -- the bytes are the low half of the distance from the base
  have hdisp : BitVec.ofNat (8 * 4) (ofLeBytes (load
      (writeASMHook env s source address behavior parameter).2.mem
        (start + BitVec.ofNat _ o + BitVec.ofNat _ 0) 4))
      = target.setWidth 32 - (s.moduleInfo.base.setWidth 32 + BitVec.ofNat 32 (o + 4)) := by
    have hlow : ∀ x : BitVec 64, BitVec.ofNat (8 * 4) (x.toNat % 256 ^ 4) = x.setWidth 32 := by
      intro x
      apply BitVec.eq_of_toNat_eq
      rw [BitVec.toNat_ofNat, BitVec.toNat_setWidth]
      exact Nat.mod_mod _ _
    rw [BitVec.add_zero, hload, ofLeBytes_leBytes, hlow, low_sub (by decide),
      BitVec.setWidth_add _ _ (by decide), low_signExtend, BitVec.setWidth_setWidth_of_le _ (by decide),
      BitVec.setWidth_ofNat_of_le (by decide)]
  have hgo : relativeTarget (writeASMHook env s source address behavior parameter).2.mem
      (start + BitVec.ofNat _ o) 4 0 4
      = p + (target.setWidth 32
          - (s.moduleInfo.base.setWidth 32 + BitVec.ofNat 32 (o + 4))).signExtend _ := by
    unfold relativeTarget
    rw [hdisp, add_add_ofNat, hp]
  have hdist : (target - p).setWidth 32
      = target.setWidth 32 - (start.setWidth 32 + BitVec.ofNat 32 (o + 4)) := by
    rw [← hp, low_sub (bits_ge b), BitVec.setWidth_add _ _ (bits_ge b),
      BitVec.setWidth_ofNat_of_le (bits_ge b)]
  rw [hgo, BitVec.add_comm, ← BitVec.eq_sub_iff_add_eq]
  refine ⟨?_, ?_⟩
  · intro hd
    have hcut := congrArg (BitVec.setWidth 32) hd
    rw [setWidth_signExtend (bits_ge b)] at hcut
    refine ⟨?_, ?_⟩
    · rw [hdist, BitVec.sub_right_inj, BitVec.add_left_inj] at hcut
      exact hcut.symm
    · rw [hcut] at hd
      exact (signExtend_setWidth_iff _).mp hd
  · intro ⟨hstart, hreach⟩
    rw [← hstart, ← hdist]
    exact (signExtend_setWidth_iff _).mpr hreach

/-- A call to an absolute address. -/
def callSource : Bytes := ascii "call 0x401100"

/-- Keystone for that source, and a trampoline at `hookPtr`. -/
def callingEnv (hookPtr : Addr b) : HookEnv b where
  csDisasm := decodeNops
  assembler := fun _ source base =>
    if source = callSource then ⟨false, 1, [], 0, 0xE8 :: leBytes 4 (0x401100 - (base + 5)).toNat⟩
    else ⟨false, 0, [], 0, []⟩
  hookPtr

/-- A trampoline at the base of the module, where the code was assembled for. -/
theorem branch_reaches_base :
    relativeTarget (writeASMHook (callingEnv 0x400000) (nopProcess .win32) callSource 0x401000
        eHookBehaviorBefore eHookParameterJump).2.mem
      (codeStart eHookBehaviorBefore 0x400000 (hookLen (callingEnv 0x400000) (nopProcess .win32)
        0x401000) + BitVec.ofNat _ 1) 4 0 4 = 0x401100 := by
  have hfresh : FreshTrampoline (callingEnv 0x400000) (nopProcess .win32) callSource 0x401000 :=
    Apart.of_le (by decide +kernel) (by decide +kernel)
  exact (branch_reaches hfresh (Or.inl rfl) eHookParameterJump
    ⟨by decide +kernel, by decide +kernel⟩).mpr (by decide +kernel)

/-- **The call in the trampoline goes as far from it as the target is from the module.** -/
theorem branch_goes_astray :
    FreshTrampoline (callingEnv 0x20000) (nopProcess .win32) callSource 0x401000
      ∧ RelativeBranch (callingEnv 0x20000) (nopProcess .win32) callSource 1 0x401100
      ∧ (writeASMHook (callingEnv 0x20000) (nopProcess .win32) callSource 0x401000
          eHookBehaviorReplace eHookParameterJump).1 = true
      ∧ relativeTarget (writeASMHook (callingEnv 0x20000) (nopProcess .win32) callSource 0x401000
          eHookBehaviorReplace eHookParameterJump).2.mem
        (codeStart eHookBehaviorReplace 0x20000 (hookLen (callingEnv 0x20000) (nopProcess .win32)
          0x401000) + BitVec.ofNat _ 1) 4 0 4 = 0x21100 :=
  ⟨Apart.of_le (by decide +kernel) (by decide +kernel), ⟨by decide +kernel, by decide +kernel⟩,
    by decide +kernel, by decide +kernel⟩

end CommonLoader
