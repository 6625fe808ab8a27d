import CommonLoader.Proof.PatchRuns

/-!
# Hooks in the call form

A call hook enters its trampoline with a call and leaves it with a return. In 32-bit code
the return comes back right behind the call, to the no-ops that fill what else was
displaced. What the hook does is what it would do in the jump form, but with a return
address on the stack, which it has to leave there: displaced instructions that push, pop or
look at the stack do something else than they did.

The stack may be a register or lie in memory. There the slot below the top keeps the return
address after the hook is done, and the program, like its hooks, keeps the stack away from
what was patched.
-/

namespace CommonLoader

open ByteMemory CText Machine StateTransition

variable {b : Build} {ρ : Type*}

/-- The processor carries out the calls and returns that call hooks consist of. -/
structure Calls (P : Processor b.bits ρ) (S : CallStack b.bits ρ) : Prop where
  call : ∀ a target d, load d.mem a b.minHookLength = transfer true a target →
    P (a, d) = some (target, S.push (a + BitVec.ofNat _ b.transferLength) d)
  ret : ∀ a d r d', d.mem a = 0xC3 → S.pop d = some (r, d') → P (a, d) = some (r, d')

namespace WrittenHook

variable (h : WrittenHook b)

/-- The call that wrote it, in the call form. -/
def callForm : Call b := .writeASMHook h.env h.source h.address h.behavior eHookParameterCall

/-- Patch and trampoline are where they were written, in the call form. -/
def CallInPlace (mem : Mem b.bits) : Prop :=
  HookLayout h.env h.before h.address eHookParameterCall h.content mem

/-- Where the program takes its detour, with a return address on the stack. -/
def callDetour (P : Processor b.bits ρ) (S : CallStack b.bits ρ) (hidden : Set (Addr b))
    (meaning : Data b.bits ρ → Data b.bits ρ → Prop) : Detour b.bits ρ :=
  ⟨h.address, h.address + h.length, S.Around hidden (h.address + BitVec.ofNat _ b.transferLength)
    (hookEffect h.behavior meaning (h.original P))⟩

/-- The hook in the call form, as a patch of the program. -/
def callPatch (P : Processor b.bits ρ) (S : CallStack b.bits ρ) (hidden : Set (Addr b))
    (meaning : Data b.bits ρ → Data b.bits ρ → Prop) : Patch b.bits ρ where
  detour := h.callDetour P S hidden meaning
  footprint := h.footprint
  inPlace := h.CallInPlace
  congr := fun _ _ => h.layout_congr eHookParameterCall

/-- The displaced bytes behind the call are no-ops, and end where the program goes on. -/
theorem CallInPlace.nops {h : WrittenHook .win32} {mem : Mem Build.win32.bits} (hin : h.CallInPlace mem) :
    (∀ k, k < h.length.toNat - 5 → mem (h.address + 5 + BitVec.ofNat _ k) = 0x90)
      ∧ h.address + 5 + BitVec.ofNat _ (h.length.toNat - 5) = h.address + h.length := by
  have hlong : 5 ≤ h.length.toNat := h.installable.long
  have hoffset : ∀ k, h.address + 5 + BitVec.ofNat _ k = h.address + BitVec.ofNat _ (5 + k) :=
    fun k => add_add_ofNat h.address 5 k
  refine ⟨fun k hk => ?_, ?_⟩
  · rw [hoffset]
    exact HookLayout.nops hin (5 + k) (Nat.le_add_right 5 k)
      (show 5 + k < h.length.toNat by omega)
  · rw [hoffset, Nat.add_sub_cancel' hlong, BitVec.ofNat_toNat, BitVec.setWidth_eq]

variable {hidden guarded : Set (Addr .win32)}

/-- **In 32-bit code a call hook that is in place does what it is for.** -/
theorem Means.realises_call {h : WrittenHook .win32} {P : Processor Build.win32.bits ρ}
    {S : CallStack Build.win32.bits ρ} (hcalls : Calls P S) (hskips : Skips P)
    {meaning : Data Build.win32.bits ρ → Data Build.win32.bits ρ → Prop}
    (hm : h.Means P hidden guarded meaning) (hsub : h.footprint ⊆ guarded) (hhid : guarded ⊆ hidden) :
    Realises P hidden guarded h.CallInPlace (h.callDetour P S hidden meaning) := by
  intro d e d' hagree hplace heffect
  have hcall : P (h.address, e) = some (h.env.hookPtr, S.push (h.address + 5) e) :=
    hcalls.call _ _ _ hplace.patch
  have hbody : ∀ k, k < h.content.length → h.env.hookPtr + BitVec.ofNat _ k ∈ guarded := by
    intro k hk
    have hcontent := h.content_length
    exact hsub (Or.inl (h.trampoline_mem (by omega)))
  have hret : ∀ e₂, Kept guarded e e₂ → ∀ r e', S.pop e₂ = some (r, e') →
      P (h.env.hookPtr + BitVec.ofNat _ h.content.length, e₂) = some (r, e') := by
    intro e₂ hkept r e' hpop
    -- the code has not written into the hook, so the return is still there
    have hplace₂ := h.layout_congr eHookParameterCall (fun x hx => hkept x (hsub hx)) hplace
    exact hcalls.ret _ _ _ _ (hplace₂.return (by decide)) hpop
  obtain ⟨e', hgo, hagree', hkept⟩ := (hm.content fun x hx => hsub (Or.inl hx)).routine hhid hbody
    hagree hplace.body hcall hret heffect
  have hplace' : h.CallInPlace e'.mem :=
    h.layout_congr eHookParameterCall (fun x hx => hkept x (hsub hx)) hplace
  obtain ⟨hnops, hend⟩ := hplace'.nops
  have hrun := hskips.reaches (h.length.toNat - 5) hnops
  rw [hend] at hrun
  exact ⟨e', hgo.trans hrun, hagree', hkept⟩

end WrittenHook

/-! ## A session -/

/-- The hooks of a session in either form, and the instructions it has taken out, as patches. -/
def bothFormsPatches (P : Processor Build.win32.bits ρ) (S : CallStack Build.win32.bits ρ)
    (hidden : Set (Addr .win32))
    (meaning : WrittenHook .win32 → Data Build.win32.bits ρ → Data Build.win32.bits ρ → Prop)
    (jumps calls : Set (WrittenHook .win32)) (nops : Set (WrittenNops .win32)) :
    Set (Patch Build.win32.bits ρ) :=
  {p | p ∈ sessionPatches P meaning jumps nops
    ∨ ∃ h ∈ calls, p = h.callPatch P S hidden (meaning h)}

/--
**In 32-bit code hooks of both forms take effect together.** A run of the program with the
session's data writes, in which each jump hook has its effect, each call hook has its effect
between a push and a pop of a return address, and each taken-out stretch of instructions is
skipped, is a run of the processor over the memory the session has left; and the patches are
still in place at its end.
-/
theorem both_forms_take_effect {s : Loader .win32} {P : Processor Build.win32.bits ρ}
    {S : CallStack Build.win32.bits ρ} (hjumps : Jumps P) (hcalls : Calls P S) (hskips : Skips P)
    {cs : List (Call .win32)} {jumps calls : Set (WrittenHook .win32)} {nops : Set (WrittenNops .win32)}
    (hjumpForm : ∀ h ∈ jumps, ∃ pre post, WrittenIn s cs h.before h.call h.footprint pre post)
    (hcallForm : ∀ h ∈ calls, ∃ pre post, WrittenIn s cs h.before h.callForm h.footprint pre post)
    (hnops : ∀ n ∈ nops, ∃ pre post, WrittenIn s cs n.before n.call n.footprint pre post)
    {hidden : Set (Addr .win32)} (hhidden : ∀ x, x ∉ hidden → Outside (patched s cs) x)
    {meaning : WrittenHook .win32 → Data Build.win32.bits ρ → Data Build.win32.bits ρ → Prop}
    (hmeans : ∀ h, h ∈ jumps ∨ h ∈ calls → h.Means P hidden
      (footprints (bothFormsPatches P S hidden meaning jumps calls nops)) (meaning h))
    {regs : ρ} {a : Addr .win32} {t : Addr .win32 × Data Build.win32.bits ρ}
    (hrun : Run P hidden (Patch.detour '' bothFormsPatches P S hidden meaning jumps calls nops)
      (a, ⟨regs, (serveAll s (cs.filter Call.isWrite)).mem⟩) t) :
    ∃ e', Reaches P (a, ⟨regs, (serveAll s cs).mem⟩) (t.1, e') ∧ Agree hidden t.2 e'
      ∧ ∀ p ∈ bothFormsPatches P S hidden meaning jumps calls nops, p.inPlace e'.mem := by
  have hleft : ∀ p ∈ bothFormsPatches P S hidden meaning jumps calls nops, LeftIn s cs p := by
    rintro p (hp | ⟨h, hh, rfl⟩)
    · exact sessionPatches_left hjumpForm hnops p hp
    · obtain ⟨pre, post, hw⟩ := hcallForm h hh
      exact WrittenIn.left (p := h.callPatch P S hidden (meaning h)) hw
        (fun _ hx => h.layout_patched eHookParameterCall hx) (h.layout_serve eHookParameterCall)
  refine session_simulates hhidden hleft ?_ hrun
  rintro p (hp | ⟨h, hh, rfl⟩)
  · exact sessionPatches_realise hjumps hskips (fun x ⟨q, hq, hx⟩ => ⟨q, Or.inl hq, hx⟩)
      (fun h hh => hmeans h (Or.inl hh)) p hp
  · exact (hmeans h (Or.inr hh)).realises_call hcalls hskips
      (fun x hx => ⟨_, Or.inr ⟨h, hh, rfl⟩, hx⟩) (footprints_hidden hhidden hleft)

/-! ## A stack in memory -/

theorem readPointer_congr {mem mem' : Mem b.bits} {a : Addr b}
    (hsame : ∀ x, InBlock a b.sizeofSizeT x → mem' x = mem x) :
    readPointer mem' a = readPointer mem a := by
  have hsize : b.sizeofSizeT ≤ 2 ^ b.bits := by cases b <;> decide
  unfold readPointer
  rw [load_congr fun k hk => hsame _ (inBlock_add hsize hk)]

section MemoryStack

variable {hidden : Set (Addr b)} {d : Data b.bits (Registers b)} {ret : Addr b}

theorem memoryStack_blindPush
    (hslot : ∀ x, InBlock (d.regs.sp - BitVec.ofNat _ b.sizeofSizeT) b.sizeofSizeT x → x ∉ hidden) :
    (memoryStack b).BlindPush hidden ret d := by
  intro e hagree
  have hlen := length_leBytes b.sizeofSizeT ret.toNat
  refine ⟨⟨congrArg (fun regs => { regs with sp := regs.sp - BitVec.ofNat _ b.sizeofSizeT }) hagree.regs,
    fun x hx => ?_⟩, fun x hx => store_outside fun hin => ?_⟩
  · unfold memoryStack
    dsimp only
    rw [← hagree.regs]
    by_cases hin : InBlock (d.regs.sp - BitVec.ofNat _ b.sizeofSizeT) b.sizeofSizeT x
    · rw [store_inside (by rw [hlen]; exact hin), store_inside (by rw [hlen]; exact hin)]
    · rw [store_outside (by rw [hlen]; exact hin), store_outside (by rw [hlen]; exact hin)]
      exact hagree.mem x hx
  · rw [hlen, ← hagree.regs] at hin
    exact hslot x hin hx

theorem memoryStack_blindPop (hslot : ∀ x, InBlock d.regs.sp b.sizeofSizeT x → x ∉ hidden) :
    (memoryStack b).BlindPop hidden d := by
  intro ret d' e hpop hagree
  obtain ⟨rfl, rfl⟩ := Prod.mk.inj (Option.some.inj hpop)
  have hread : readPointer e.mem e.regs.sp = readPointer d.mem d.regs.sp := by
    rw [← hagree.regs]
    exact readPointer_congr fun x hx => (hagree.mem x (hslot x hx)).symm
  refine ⟨_, congrArg some (Prod.ext hread rfl), ⟨?_, hagree.mem⟩, Kept.refl _ _⟩
  rw [hagree.regs]

/-- What was pushed is popped, and the slot keeps it. -/
theorem memoryStack_pop_push {d' : Data b.bits (Registers b)}
    (hsp : d'.regs.sp = ((memoryStack b).push ret d).regs.sp)
    (hmem : d'.mem = ((memoryStack b).push ret d).mem) :
    (memoryStack b).pop d' = some (ret, ⟨{ d'.regs with sp := d.regs.sp }, d'.mem⟩) := by
  have hsize : (leBytes b.sizeofSizeT ret.toNat).length ≤ 2 ^ b.bits := by
    rw [length_leBytes]
    cases b <;> decide
  have hload := @load_store _ d.mem (d.regs.sp - BitVec.ofNat _ b.sizeofSizeT) _ hsize
  rw [length_leBytes] at hload
  have htop : d'.regs.sp + BitVec.ofNat _ b.sizeofSizeT = d.regs.sp := by
    rw [hsp]
    exact BitVec.sub_add_cancel ..
  have hread : readPointer d'.mem d'.regs.sp = ret := by
    rw [hsp, hmem]
    exact readPointer_leBytes hload
  unfold memoryStack
  dsimp only
  rw [hread, htop]

end MemoryStack

theorem stackProcessor_calls (b : Build) : Calls (stackProcessor b) (memoryStack b) := by
  refine ⟨fun a target d hload => ?_, fun a d r d' hbyte hpop => ?_⟩
  · unfold stackProcessor
    rw [step_transfer true hload]
    rfl
  · obtain ⟨rfl, rfl⟩ := Prod.mk.inj (Option.some.inj hpop)
    unfold stackProcessor
    rw [Cpu.step_ret hbyte]

/-! ## A call hook, and a jump hook behind it -/

/-- For the call form. -/
def calledHook : WrittenHook .win32 where
  env := incEnv 0x30000
  before := countingProcess .win32
  source := incSource
  address := 0x401000
  behavior := eHookBehaviorBefore
  known := .before
  writable := countingProcess_writable .win32
  installable := ⟨by decide +kernel, by decide +kernel,
    Apart.of_le (by decide +kernel) (by decide +kernel)⟩

/-- For the jump form. -/
def jumpedHook : WrittenHook .win32 where
  env := incEnv 0x20000
  before := serve (countingProcess .win32) calledHook.callForm
  source := incSource
  address := 0x401006
  behavior := eHookBehaviorAfter
  known := .after
  writable := by decide +kernel
  installable := ⟨by decide +kernel, by decide +kernel,
    Apart.of_le (by decide +kernel) (by decide +kernel)⟩

def bothSession : List (Call .win32) :=
  [calledHook.callForm, jumpedHook.call, .writeMemory .array 0x402000 [0xC3]]

theorem calledHook_written : WrittenIn (countingProcess .win32) bothSession calledHook.before
    calledHook.callForm calledHook.footprint [] [jumpedHook.call, .writeMemory .array 0x402000 [0xC3]] := by
  refine ⟨rfl, rfl, fun x hx => ?_⟩
  rcases hx with hx | hx
  · exact ⟨outside_of_sides hx (by decide +kernel), outside_of_sides hx (by decide +kernel)⟩
  · exact ⟨outside_of_sides hx (by decide +kernel), outside_of_sides hx (by decide +kernel)⟩

theorem jumpedHook_written : WrittenIn (countingProcess .win32) bothSession jumpedHook.before
    jumpedHook.call jumpedHook.footprint [calledHook.callForm] [.writeMemory .array 0x402000 [0xC3]] := by
  refine ⟨rfl, rfl, fun x hx => ⟨fun _ hB => (nomatch hB), ?_⟩⟩
  rcases hx with hx | hx
  · exact outside_of_sides hx (by decide +kernel)
  · exact outside_of_sides hx (by decide +kernel)

/-- Each has one instruction for its code, whichever of the two it is. -/
theorem bothHooks_code {h : WrittenHook .win32} (hh : h = jumpedHook ∨ h = calledHook) :
    h.code = insnBytes (List.replicate 1 (incAl .win32)) := by
  rcases hh with rfl | rfl
  · decide +kernel
  · decide +kernel

/-- And displaces three. -/
theorem bothHooks_orig {h : WrittenHook .win32} (hh : h = jumpedHook ∨ h = calledHook) :
    h.orig = insnBytes (List.replicate 3 (incAl .win32)) := by
  rcases hh with rfl | rfl
  · decide +kernel
  · decide +kernel

theorem bothHooks_mean {h : WrittenHook .win32} (hh : h = jumpedHook ∨ h = calledHook)
    (hidden guarded : Set (Addr .win32)) :
    h.Means (stackProcessor .win32) hidden guarded (countsOnce h) :=
  WrittenHook.straight_means (bothHooks_code hh) (fun i hi => (executes_incs 1 i hi).1)
    (bothHooks_orig hh) (executes_incs 3) hidden guarded

/-- The program as the call has left it. -/
def bothPushed : Data Build.win32.bits (Registers .win32) :=
  (memoryStack .win32).push 0x401005 (counted (countingProcess .win32) bothSession 0)

/-- The return address lies apart from the patches. -/
theorem bothPushed_seen {x : Addr .win32} (hx : InBlock bothPushed.regs.sp Build.win32.sizeofSizeT x) :
    x ∉ patchedBytes (countingProcess .win32) bothSession :=
  notMem_patchedBytes.mpr (outside_of_sides hx (by decide +kernel))

theorem calledHook_effect : (calledHook.callDetour (stackProcessor .win32) (memoryStack .win32)
    (patchedBytes (countingProcess .win32) bothSession) (countsOnce calledHook)).effect
      (counted (countingProcess .win32) bothSession 0) ⟨⟨0x8000, 4⟩, bothPushed.mem⟩ := by
  let inside (al : BitVec 8) : Data Build.win32.bits (Registers .win32) :=
    ⟨{ bothPushed.regs with al := al }, bothPushed.mem⟩
  have horiginal : calledHook.original (stackProcessor .win32) (inside 1) (inside 4) :=
    (WrittenHook.original_straight (executes_incs 3) (bothHooks_orig (Or.inr rfl))).mpr ⟨by decide +kernel, rfl⟩
  have hpop : (memoryStack .win32).pop (inside 4) = some (0x401005, ⟨⟨0x8000, 4⟩, bothPushed.mem⟩) :=
    @memoryStack_pop_push .win32 (counted (countingProcess .win32) bothSession 0) 0x401005 (inside 4)
      rfl rfl
  exact ⟨inside 4, ⟨inside 1, rfl, horiginal⟩, hpop, memoryStack_blindPush fun _ hx => bothPushed_seen hx,
    memoryStack_blindPop fun _ hx => bothPushed_seen hx⟩

/-- Through the one hook with a return address on the stack, and then through the other. -/
theorem bothSession_run :
    Run (stackProcessor .win32) (patchedBytes (countingProcess .win32) bothSession)
      (Patch.detour '' bothFormsPatches (stackProcessor .win32) (memoryStack .win32)
        (patchedBytes (countingProcess .win32) bothSession) countsOnce {jumpedHook} {calledHook} ∅)
      (0x401000, counted (countingProcess .win32) bothSession 0)
      (0x40100C, ⟨⟨0x8000, 8⟩, bothPushed.mem⟩) := by
  let after (al : BitVec 8) : Data Build.win32.bits (Registers .win32) := ⟨⟨0x8000, al⟩, bothPushed.mem⟩
  have hjumped : (jumpedHook.detour (stackProcessor .win32) (countsOnce jumpedHook)).effect
      (after 4) (after 8) := by
    have horiginal : jumpedHook.original (stackProcessor .win32) (after 4) (after 7) :=
      (WrittenHook.original_straight (executes_incs 3) (bothHooks_orig (Or.inl rfl))).mpr ⟨by decide +kernel, rfl⟩
    exact ⟨after 7, horiginal, rfl⟩
  have hexit : calledHook.address + calledHook.length = 0x401006 := by decide +kernel
  have hexit' : jumpedHook.address + jumpedHook.length = 0x40100C := by decide +kernel
  refine .detour
    (D := calledHook.callDetour (stackProcessor .win32) (memoryStack .win32) _ (countsOnce calledHook))
    ⟨_, Or.inr ⟨calledHook, rfl, rfl⟩, rfl⟩ calledHook_effect ?_
  rw [WrittenHook.callDetour, hexit]
  refine .detour (D := jumpedHook.detour (stackProcessor .win32) (countsOnce jumpedHook))
    ⟨_, Or.inl (Or.inl ⟨jumpedHook, rfl, rfl⟩), rfl⟩ hjumped ?_
  rw [WrittenHook.detour, hexit']
  exact .refl _

/--
Through both hooks, which count once each besides the six they displace, with the return address
of the first left below the stack.
-/
theorem both_forms_take_effect_counting :
    ∃ e', Reaches (stackProcessor .win32)
        (0x401000, ⟨⟨0x8000, 0⟩, (serveAll (countingProcess .win32) bothSession).mem⟩) (0x40100C, e')
      ∧ e'.regs = ⟨0x8000, 8⟩ ∧ readPointer e'.mem 0x7FFC = 0x401005 ∧ e'.mem 0x402000 = 0xC3
      ∧ calledHook.CallInPlace e'.mem ∧ jumpedHook.InPlace e'.mem := by
  have hjumpForm : ∀ h ∈ ({jumpedHook} : Set (WrittenHook .win32)), ∃ pre post,
      WrittenIn (countingProcess .win32) bothSession h.before h.call h.footprint pre post := by
    intro h hh
    obtain rfl := Set.mem_singleton_iff.mp hh
    exact ⟨_, _, jumpedHook_written⟩
  have hcallForm : ∀ h ∈ ({calledHook} : Set (WrittenHook .win32)), ∃ pre post,
      WrittenIn (countingProcess .win32) bothSession h.before h.callForm h.footprint pre post := by
    intro h hh
    obtain rfl := Set.mem_singleton_iff.mp hh
    exact ⟨_, _, calledHook_written⟩
  obtain ⟨e', hgo, hagree, hplace⟩ := both_forms_take_effect (stackProcessor_jumps .win32)
    (stackProcessor_calls .win32) (stackProcessor_skips .win32) hjumpForm hcallForm
    (fun n hn => absurd hn (Set.notMem_empty n)) (fun _ hx => notMem_patchedBytes.mp hx)
    (fun h hh => bothHooks_mean hh _ _) bothSession_run
  have hdata : (0x402000 : Addr .win32) ∉ patchedBytes (countingProcess .win32) bothSession :=
    notMem_patchedBytes.mpr (outside_of_sides (inBlock_self Nat.one_pos) (by decide +kernel))
  refine ⟨e', hgo, hagree.regs.symm, ?_, ?_, hplace _ (Or.inr ⟨calledHook, rfl, rfl⟩),
    hplace _ (Or.inl (Or.inl ⟨jumpedHook, rfl, rfl⟩))⟩
  · have htop : bothPushed.regs.sp = 0x7FFC := by decide +kernel
    have hread : readPointer e'.mem bothPushed.regs.sp = readPointer bothPushed.mem bothPushed.regs.sp :=
      readPointer_congr fun x hx => (hagree.mem x (bothPushed_seen hx)).symm
    have hpushed : readPointer bothPushed.mem bothPushed.regs.sp = 0x401005 := by decide +kernel
    rw [← htop]
    exact hread.trans hpushed
  · rw [← hagree.mem _ hdata]
    decide +kernel

end CommonLoader
