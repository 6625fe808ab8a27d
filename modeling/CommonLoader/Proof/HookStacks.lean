import CommonLoader.Proof.PatchRuns
import Mathlib.Data.BitVec
import Mathlib.Tactic.Abel

/-!
# Hooks on top of each other

Two mods may hook one address. The second finds the patch of the first there, displaces it
like any other code, and puts its own in its place. Everything then hangs on one jump: the
one of the first patch, carried out from inside the trampoline of the second.

In 64-bit code that jump is absolute and arrives. Before-hooks stack, the last one written
runs first; an After-hook's code is never reached, since the jump does not come back to it;
and a Replace-hook cuts off all that is below it. In 32-bit code the jump is relative, and
goes as far astray as it was moved.
-/

namespace CommonLoader

open ByteMemory CText Machine StateTransition

variable {b : Build} {ρ : Type*}

/-! ## The displaced jump -/

/-- The second hook found the first in place. -/
structure Over (h h' : WrittenHook b) : Prop where
  address : h.address = h'.address
  inPlace : h'.InPlace h.before.mem

/-- The displaced bytes begin with the jump of the first patch. -/
theorem Over.orig {h h' : WrittenHook b} (ho : Over h h') :
    ∃ rest, h.orig = transfer false h.address h'.env.hookPtr ++ rest := by
  have hlong : b.minHookLength ≤ h.length.toNat := h.installable.long
  have hpatch := ho.inPlace.patch
  refine ⟨load h.before.mem (h.address + BitVec.ofNat _ b.minHookLength)
    (h.length.toNat - b.minHookLength), ?_⟩
  rw [← ho.address] at hpatch
  rw [WrittenHook.orig, show h.length.toNat = b.minHookLength + (h.length.toNat - b.minHookLength) by
    omega, load_add, hpatch, Nat.add_sub_cancel_left]
  rfl

/-- Where the jump lies in the trampoline of the second hook. -/
def WrittenHook.movedTo (h : WrittenHook b) : Addr b := displacedStart h.behavior h.env.hookPtr h.code

/-- **The jump is moved as it is.** -/
theorem Over.moved {h h' : WrittenHook b} (ho : Over h h') (hb : h.behavior ≠ eHookBehaviorReplace)
    {mem : Mem b.bits} (hin : h.TrampolineInPlace mem) :
    load mem h.movedTo b.minHookLength = transfer false h.address h'.env.hookPtr := by
  obtain ⟨rest, horig⟩ := ho.orig
  have hbody := hin.body
  have hcontent := h.content_eq
  have hjump := length_transfer false h.address h'.env.hookPtr
  unfold trampolineBody at hcontent
  unfold WrittenHook.movedTo displacedStart
  -- the jump lies behind the code, or at the start; a replacing hook does not move it
  rcases h.known with hk | hk | hk
  · rw [if_pos hk] at hcontent
    rw [if_pos hk]
    rw [← Option.some.inj hcontent, List.length_append] at hbody
    have hcode := (load_append _ _ hbody).2
    rw [horig, List.length_append] at hcode
    have := (load_append _ _ hcode).1
    rwa [hjump] at this
  · have hnot : h.behavior ≠ eHookBehaviorBefore := by rw [hk]; decide
    rw [if_neg hnot, if_pos hk] at hcontent
    rw [if_neg hnot, BitVec.add_zero]
    rw [← Option.some.inj hcontent, List.length_append] at hbody
    have hcode := (load_append _ _ hbody).1
    rw [horig, List.length_append] at hcode
    have := (load_append _ _ hcode).1
    rwa [hjump] at this
  · exact absurd hk hb

section Moved

variable {P : Processor b.bits ρ} {hidden guarded : Set (Addr b)} {h h' : WrittenHook b}

variable (h) in
/-- The code of a before-hook leads up to the moved jump. -/
theorem WrittenHook.before_code (hb : h.behavior = eHookBehaviorBefore)
    {E : Data b.bits ρ → Data b.bits ρ → Prop}
    (hcode : Performs P hidden guarded h.code E (codeStart h.behavior h.env.hookPtr h.length))
    {d e d' : Data b.bits ρ} (hagree : Agree hidden d e) (hin : h.TrampolineInPlace e.mem)
    (heffect : E d d') :
    ∃ e', Reaches P (h.env.hookPtr, e) (h.movedTo, e') ∧ Agree hidden d' e' ∧ Kept guarded e e' := by
  have hbody := hin.body
  have hcontent := h.content_eq
  unfold trampolineBody at hcontent
  rw [if_pos hb] at hcontent
  rw [← Option.some.inj hcontent, List.length_append] at hbody
  unfold codeStart at hcode
  rw [if_neg (by rw [hb]; decide)] at hcode
  unfold WrittenHook.movedTo displacedStart
  rw [if_pos hb]
  exact hcode d e d' hagree (load_append _ _ hbody).1 heffect

variable (h) in
/-- The displaced bytes of an after-hook come first, and so does the jump. -/
theorem WrittenHook.movedTo_after (hb : h.behavior = eHookBehaviorAfter) :
    h.movedTo = h.env.hookPtr := by
  unfold WrittenHook.movedTo displacedStart
  rw [if_neg (by rw [hb]; decide), BitVec.add_zero]

end Moved

/-! ## Stacks -/

/-- Hooks on one address, the last one written on top. -/
inductive HookStack where
  | base (h : WrittenHook .win64)
  | onTop (h : WrittenHook .win64) (below : HookStack)

namespace HookStack

def top : HookStack → WrittenHook .win64
  | base h => h
  | onTop h _ => h

def hooks : HookStack → List (WrittenHook .win64)
  | base h => [h]
  | onTop h below => h :: below.hooks

/-- Each found the one below it in place. -/
def Stacked : HookStack → Prop
  | base _ => True
  | onTop h below => Over h below.top ∧ below.Stacked

/-- Where control goes on in the program. -/
def exit : HookStack → Addr .win64
  | base h => h.address + h.length
  | onTop h below => if h.behavior = eHookBehaviorReplace then h.address + h.length else below.exit

/-- What they do together. -/
def effect (P : Processor Build.win64.bits ρ)
    (meaning : WrittenHook .win64 → Data Build.win64.bits ρ → Data Build.win64.bits ρ → Prop) :
    HookStack → Data Build.win64.bits ρ → Data Build.win64.bits ρ → Prop
  | base h => hookEffect h.behavior (meaning h) (h.original P)
  | onTop h below =>
      if h.behavior = eHookBehaviorBefore then Relation.Comp (meaning h) (below.effect P meaning)
      else if h.behavior = eHookBehaviorAfter then below.effect P meaning
      else meaning h

/--
The codes that are reached mean what they should, and at the bottom so do the displaced
instructions.
-/
def Means (P : Processor Build.win64.bits ρ) (hidden guarded : Set (Addr .win64))
    (meaning : WrittenHook .win64 → Data Build.win64.bits ρ → Data Build.win64.bits ρ → Prop) :
    HookStack → Prop
  | base h => h.Means P hidden guarded (meaning h)
  | onTop h below =>
      (h.behavior ≠ eHookBehaviorAfter →
        Performs P hidden guarded h.code (meaning h) (codeStart h.behavior h.env.hookPtr h.length))
        ∧ below.Means P hidden guarded meaning

variable {P : Processor Build.win64.bits ρ} {hidden guarded : Set (Addr .win64)}
  {meaning : WrittenHook .win64 → Data Build.win64.bits ρ → Data Build.win64.bits ρ → Prop}

/-- **In 64-bit code the moved jump arrives.** -/
theorem moved_arrives (hP : Jumps P) {h h' : WrittenHook .win64} (ho : Over h h')
    (hb : h.behavior ≠ eHookBehaviorReplace) {e : Data Build.win64.bits ρ}
    (hin : h.TrampolineInPlace e.mem) : P (h.movedTo, e) = some (h'.env.hookPtr, e) :=
  hP _ _ _ (ho.moved hb hin)

/-- A replacing hook runs its code and goes back behind what it displaced. -/
theorem replace_means {h : WrittenHook .win64} (hb : h.behavior = eHookBehaviorReplace)
    {E : Data Build.win64.bits ρ → Data Build.win64.bits ρ → Prop}
    (hcode : Performs P hidden guarded h.code E (codeStart h.behavior h.env.hookPtr h.length)) :
    h.Means P hidden guarded E := ⟨hcode, fun hnot => absurd hb hnot⟩

/--
**Through a stack**, from the trampoline on top to the exit. By induction on the stack: the
moved jump of each hook leads to the trampoline of the one below.
-/
theorem through (hP : Jumps P) : ∀ (st : HookStack) {d e d' : Data Build.win64.bits ρ},
    st.Stacked → st.Means P hidden guarded meaning →
    (∀ g ∈ st.hooks, g.trampoline ⊆ guarded) → Agree hidden d e →
    (∀ g ∈ st.hooks, g.TrampolineInPlace e.mem) → st.effect P meaning d d' →
    ∃ e', Reaches P (st.top.env.hookPtr, e) (st.exit, e') ∧ Agree hidden d' e' ∧ Kept guarded e e'
  | base h, _, _, _, _, hm, hsub, hagree, hin, heffect =>
    WrittenHook.Means.through hP hm (hsub h (List.mem_singleton_self h)) hagree
      (hin h (List.mem_singleton_self h)) heffect
  | onTop h below, d, e, d', ⟨ho, hstacked⟩, ⟨hcode, hm⟩, hsub, hagree, hin, heffect => by
    have hsub' : ∀ g ∈ below.hooks, g.trampoline ⊆ guarded :=
      fun g hg => hsub g (List.mem_cons_of_mem _ hg)
    have hin' : ∀ g ∈ below.hooks, g.TrampolineInPlace e.mem :=
      fun g hg => hin g (List.mem_cons_of_mem _ hg)
    have hinh := hin h (List.mem_cons_self ..)
    have hsubh := hsub h (List.mem_cons_self ..)
    rw [effect] at heffect
    rw [exit]
    rcases h.known with hb | hb | hb
    · -- before: its code, the moved jump, and the stack below
      have hnot : h.behavior ≠ eHookBehaviorReplace := by rw [hb]; decide
      rw [if_pos hb] at heffect
      rw [if_neg hnot]
      obtain ⟨d₁, hE, hbelow⟩ := heffect
      obtain ⟨e₁, hgo, hagree₁, hkept₁⟩ := h.before_code hb (hcode (by rw [hb]; decide)) hagree hinh hE
      have hjump := moved_arrives hP ho hnot
        (h.trampolineInPlace_congr (fun x hx => hkept₁ x (hsubh hx)) hinh)
      obtain ⟨e', hgo', hagree', hkept'⟩ := through hP below hstacked hm hsub' hagree₁
        (fun g hg => g.trampolineInPlace_congr (fun x hx => hkept₁ x (hsub' g hg hx)) (hin' g hg))
        hbelow
      exact ⟨e', (hgo.tail hjump).trans hgo', hagree', hkept₁.trans hkept'⟩
    · -- after: the moved jump comes first, and nothing comes back
      have hnot : h.behavior ≠ eHookBehaviorReplace := by rw [hb]; decide
      rw [if_neg (by rw [hb]; decide), if_pos hb] at heffect
      rw [if_neg hnot]
      have hjump := moved_arrives hP ho hnot hinh
      rw [h.movedTo_after hb] at hjump
      obtain ⟨e', hgo', hagree', hkept'⟩ := through hP below hstacked hm hsub' hagree hin' heffect
      exact ⟨e', Relation.ReflTransGen.head hjump hgo', hagree', hkept'⟩
    · -- replace: as if there were nothing below
      have hnot : h.behavior ≠ eHookBehaviorBefore := by rw [hb]; decide
      have hnot' : h.behavior ≠ eHookBehaviorAfter := by rw [hb]; decide
      rw [if_neg hnot, if_neg hnot'] at heffect
      rw [if_pos hb]
      refine WrittenHook.Means.through hP (replace_means hb (hcode (by rw [hb]; decide))) hsubh hagree hinh ?_
      unfold hookEffect
      rwa [if_neg hnot, if_neg hnot']

/-- The stack, as a patch of the program. -/
def patch (P : Processor Build.win64.bits ρ)
    (meaning : WrittenHook .win64 → Data Build.win64.bits ρ → Data Build.win64.bits ρ → Prop)
    (st : HookStack) : Patch Build.win64.bits ρ where
  detour := ⟨st.top.address, st.exit, st.effect P meaning⟩
  footprint := {x | x ∈ st.top.footprint ∨ ∃ g ∈ st.hooks, x ∈ g.trampoline}
  inPlace := fun mem => st.top.InPlace mem ∧ ∀ g ∈ st.hooks, g.TrampolineInPlace mem
  congr := fun _ _ hsame hin =>
    ⟨st.top.inPlace_congr (fun x hx => hsame x (Or.inl hx)) hin.1,
      fun g hg => g.trampolineInPlace_congr (fun x hx => hsame x (Or.inr ⟨g, hg, hx⟩)) (hin.2 g hg)⟩

theorem realises (hP : Jumps P) {st : HookStack} (hstacked : st.Stacked)
    (hm : st.Means P hidden guarded meaning) (hsub : (st.patch P meaning).footprint ⊆ guarded) :
    Realises P hidden guarded (st.patch P meaning).inPlace (st.patch P meaning).detour := by
  intro d e d' hagree hin heffect
  obtain ⟨e', hgo, hagree', hkept⟩ := st.through hP hstacked hm
    (fun g hg x hx => hsub (Or.inr ⟨g, hg, hx⟩)) hagree hin.2 heffect
  exact ⟨e', Relation.ReflTransGen.head (hP _ _ _ hin.1.patch) hgo, hagree', hkept⟩

/-- The calls of a session wrote the stack, and its top and its trampolines are still there. -/
structure WrittenIn (s : Loader .win64) (cs : List (Call .win64)) (st : HookStack) : Prop where
  stacked : st.Stacked
  top : ∃ pre post, CommonLoader.WrittenIn s cs st.top.before st.top.call st.top.footprint pre post
  hooks : ∀ g ∈ st.hooks, ∃ pre post, CommonLoader.WrittenIn s cs g.before g.call g.trampoline pre post

/-- Only the patch of the top is there; of the hooks below it the trampolines are. -/
theorem left {s : Loader .win64} {cs : List (Call .win64)} {st : HookStack} (h : st.WrittenIn s cs) :
    LeftIn s cs (st.patch P meaning) := by
  refine ⟨fun x hx => ?_, ?_, fun g hg => ?_⟩
  · rcases hx with hx | ⟨g, hg, hx⟩
    · obtain ⟨pre, post, hw⟩ := h.top
      exact hw.patched (st.top.footprint_patched hx)
    · obtain ⟨pre, post, hw⟩ := h.hooks g hg
      exact hw.patched (g.footprint_patched (Or.inl hx))
  · obtain ⟨pre, post, hw⟩ := h.top
    exact st.top.inPlace_congr (fun x hx => hw.mem hx) st.top.inPlace_serve
  · obtain ⟨pre, post, hw⟩ := h.hooks g hg
    exact g.trampolineInPlace_congr (fun x hx => hw.mem hx) g.inPlace_serve.trampoline

/-- The stacks of a session and the instructions it has taken out, as patches. -/
def sessionPatches (P : Processor Build.win64.bits ρ)
    (meaning : WrittenHook .win64 → Data Build.win64.bits ρ → Data Build.win64.bits ρ → Prop)
    (piles : Set HookStack) (nops : Set (WrittenNops .win64)) : Set (Patch Build.win64.bits ρ) :=
  {p | (∃ st ∈ piles, p = st.patch P meaning) ∨ ∃ n ∈ nops, p = n.patch}

end HookStack

/--
**In 64-bit code hooks stack**, as long as each finds fourteen decoded bytes in the patch below
it. A run of the program with its data writes, with what each stack of hooks does together and
without the instructions that were taken out, is a run of the processor over the memory the
session has left.
-/
theorem stacks_take_effect {s : Loader .win64} {P : Processor Build.win64.bits ρ} (hjumps : Jumps P)
    (hskips : Skips P) {cs : List (Call .win64)} {piles : Set HookStack}
    {nops : Set (WrittenNops .win64)} (hstacks : ∀ st ∈ piles, st.WrittenIn s cs)
    (hnops : ∀ n ∈ nops, ∃ pre post, WrittenIn s cs n.before n.call n.footprint pre post)
    {hidden : Set (Addr .win64)} (hhidden : ∀ x, x ∉ hidden → Outside (patched s cs) x)
    {meaning : WrittenHook .win64 → Data Build.win64.bits ρ → Data Build.win64.bits ρ → Prop}
    (hmeans : ∀ st ∈ piles,
      st.Means P hidden (footprints (HookStack.sessionPatches P meaning piles nops)) meaning)
    {regs : ρ} {a : Addr .win64} {t : Addr .win64 × Data Build.win64.bits ρ}
    (hrun : Run P hidden (Patch.detour '' HookStack.sessionPatches P meaning piles nops)
      (a, ⟨regs, (serveAll s (cs.filter Call.isWrite)).mem⟩) t) :
    ∃ e', Reaches P (a, ⟨regs, (serveAll s cs).mem⟩) (t.1, e') ∧ Agree hidden t.2 e'
      ∧ ∀ p ∈ HookStack.sessionPatches P meaning piles nops, p.inPlace e'.mem := by
  refine session_simulates hhidden ?_ ?_ hrun
  · rintro p (⟨st, hst, rfl⟩ | ⟨n, hn, rfl⟩)
    · exact HookStack.left (hstacks st hst)
    · exact WrittenNops.left (hnops n hn)
  · rintro p (⟨st, hst, rfl⟩ | ⟨n, hn, rfl⟩)
    · exact HookStack.realises hjumps (hstacks st hst).stacked (hmeans st hst)
        fun x hx => ⟨_, Or.inl ⟨st, hst, rfl⟩, hx⟩
    · exact n.realises hskips _ _

/-! ## 32 bits -/

/-- The displacement of the moved jump is taken from where it lies now. -/
theorem transfer_moved (call : Bool) (a p target : Addr .win32) :
    transfer (b := .win32) call a target = transfer call p (target + (p - a)) := by
  have hsame : target - (a + 1 + 4) = target + (p - a) - (p + 1 + 4) := by
    abel
  unfold transfer
  dsimp only
  rw [hsame]

/-- A trampoline lies apart from what it was written for. -/
theorem WrittenHook.movedTo_ne (h : WrittenHook b) : h.movedTo ≠ h.address := by
  intro he
  have hlong := h.installable.long
  have hpos := minHookLength_pos b
  have hsize := h.content_length
  have hmem : InBlock h.env.hookPtr (trampolineSize h.env h.before h.source h.address) h.movedTo := by
    unfold WrittenHook.movedTo displacedStart
    refine inBlock_add h.installable.size ?_
    unfold trampolineSize WrittenHook.code
    split <;> omega
  exact h.installable.apart h.address (he ▸ hmem) (inBlock_self (by omega))

/--
**In 32-bit code a hook on a hook goes astray.** The code of a before-hook is carried out, that
of an after-hook never; and then control goes as far from the trampoline of the first hook as
its jump was moved, which is never nowhere.
-/
theorem hook_over_hook_astray {P : Processor Build.win32.bits ρ} (hP : Jumps P)
    {h h' : WrittenHook .win32} (ho : Over h h') (hb : h.behavior ≠ eHookBehaviorReplace)
    {hidden guarded : Set (Addr .win32)} (hsub : h.footprint ⊆ guarded)
    {meaning : Data Build.win32.bits ρ → Data Build.win32.bits ρ → Prop}
    (hcode : h.behavior = eHookBehaviorBefore →
      Performs P hidden guarded h.code meaning (codeStart h.behavior h.env.hookPtr h.length))
    {d e d' : Data Build.win32.bits ρ} (hagree : Agree hidden d e) (hin : h.InPlace e.mem)
    (heffect : if h.behavior = eHookBehaviorBefore then meaning d d' else d' = d) :
    (∃ e', Reaches P (h.address, e) (h'.env.hookPtr + (h.movedTo - h.address), e')
      ∧ Agree hidden d' e' ∧ h.InPlace e'.mem)
      ∧ h'.env.hookPtr + (h.movedTo - h.address) ≠ h'.env.hookPtr := by
  have henter := hP _ _ _ hin.patch
  -- the jump is relative: read at its new place it is a jump to a target as far away
  have hjump : ∀ e' : Data Build.win32.bits ρ, h.TrampolineInPlace e'.mem →
      P (h.movedTo, e') = some (h'.env.hookPtr + (h.movedTo - h.address), e') := by
    intro e' hin'
    have hmoved := ho.moved hb hin'
    rw [transfer_moved false h.address h.movedTo] at hmoved
    exact hP _ _ _ hmoved
  refine ⟨?_, fun he => ?_⟩
  · rcases h.known with hk | hk | hk
    · rw [if_pos hk] at heffect
      obtain ⟨e', hgo, hagree', hkept⟩ := h.before_code hk (hcode hk) hagree hin.trampoline heffect
      have hin' := h.inPlace_congr (fun x hx => hkept x (hsub hx)) hin
      have hgo : Reaches P (h.address, e) (h.movedTo, e') := Relation.ReflTransGen.head henter hgo
      exact ⟨e', hgo.tail (hjump e' hin'.trampoline), hagree', hin'⟩
    · rw [if_neg (by rw [hk]; decide)] at heffect
      obtain rfl := heffect
      have hjump := hjump e hin.trampoline
      rw [h.movedTo_after hk] at hjump ⊢
      have hgo : Reaches P (h.address, e) (h.env.hookPtr, e) := Relation.ReflTransGen.single henter
      exact ⟨e, hgo.tail hjump, hagree, hin⟩
    · exact absurd hk hb
  · exact h.movedTo_ne (sub_eq_zero.mp (add_eq_left.mp he))

/-! ## Two hooks -/

/-- A before-hook on the address of `incHook`. -/
def secondHook (b : Build) : WrittenHook b where
  env := incEnv 0x30000
  before := serve (countingProcess b) (incHook b).call
  source := incSource
  address := 0x401000
  behavior := eHookBehaviorBefore
  known := .before
  writable := by cases b <;> decide +kernel
  installable := by
    cases b with
    | win32 => exact ⟨by decide +kernel, by decide +kernel,
        Apart.of_le (by decide +kernel) (by decide +kernel)⟩
    | win64 => exact ⟨by decide +kernel, by decide +kernel,
        Apart.of_le (by decide +kernel) (by decide +kernel)⟩

/--
What is decoded of the first patch: the jump, and in 64-bit code four times `add` in the bytes
of the pointer.
-/
example : (secondHook .win64).env.csDisasm (load (secondHook .win64).before.mem 0x401000 14) 0x401000
    = [6, 2, 2, 2, 2] := by decide +kernel

theorem secondHook_over (b : Build) : Over (secondHook b) (incHook b) :=
  ⟨rfl, (incHook b).inPlace_serve⟩

theorem secondHook_code (b : Build) : (secondHook b).code = insnBytes (List.replicate 1 (incAl b)) := by
  cases b <;> decide +kernel

/-- Its code counts. -/
theorem secondHook_performs (b : Build) (hidden guarded : Set (Addr b)) :
    Performs (stackProcessor b) hidden guarded (secondHook b).code (countsOnce (secondHook b))
      (codeStart (secondHook b).behavior (secondHook b).env.hookPtr (secondHook b).length) := by
  rw [secondHook_code]
  exact performs_straight (fun i hi => (executes_incs 1 i hi).1) hidden guarded _

theorem hook_over_hook_astray_counting :
    ∃ e', Reaches (stackProcessor .win32)
        (0x401000, ⟨⟨0x8000, 0⟩, (serve (secondHook .win32).before (secondHook .win32).call).mem⟩)
        (0xFFC4F002, e')
      ∧ e'.regs.al = 1 := by
  let program (al : BitVec 8) : Data Build.win32.bits (Registers .win32) :=
    ⟨⟨0x8000, al⟩, (serve (secondHook .win32).before (secondHook .win32).call).mem⟩
  have hmoved : (incHook .win32).env.hookPtr
      + ((secondHook .win32).movedTo - (secondHook .win32).address) = 0xFFC4F002 := by decide +kernel
  have heffect : if (secondHook .win32).behavior = eHookBehaviorBefore then
      countsOnce (secondHook .win32) (program 0) (program 1) else program 1 = program 0 := by
    rw [if_pos (show (secondHook .win32).behavior = eHookBehaviorBefore from rfl)]
    rfl
  obtain ⟨⟨e', hgo, hagree, _⟩, _⟩ := hook_over_hook_astray (stackProcessor_jumps .win32)
    (secondHook_over .win32) (by decide) (fun _ hx => hx)
    (fun _ => secondHook_performs .win32 Set.univ (secondHook .win32).footprint)
    (⟨rfl, fun x hx => absurd trivial hx⟩ : Agree Set.univ (program 0) (program 0))
    (secondHook .win32).inPlace_serve heffect
  rw [hmoved] at hgo
  exact ⟨e', hgo, congrArg Registers.al hagree.regs.symm⟩

/-- The one on the other. -/
def twoHooks : HookStack := .onTop (secondHook .win64) (.base (incHook .win64))

/-- A session with nothing but the two. -/
def twoSession : List (Call .win64) := [(incHook .win64).call, (secondHook .win64).call]

theorem twoHooks_written : twoHooks.WrittenIn (countingProcess .win64) twoSession := by
  have hlast : ∀ footprint, WrittenIn (countingProcess .win64) twoSession (secondHook .win64).before
      (secondHook .win64).call footprint [(incHook .win64).call] [] :=
    fun _ => ⟨rfl, rfl, fun _ _ => ⟨fun _ hB => (nomatch hB), fun _ hB => (nomatch hB)⟩⟩
  refine ⟨⟨secondHook_over .win64, trivial⟩, ⟨_, _, hlast _⟩, fun g hg => ?_⟩
  rcases List.mem_cons.mp hg with rfl | hg
  · exact ⟨_, _, hlast _⟩
  · obtain rfl := List.mem_singleton.mp hg
    refine ⟨[], [(secondHook .win64).call], rfl, rfl, fun x hx => ?_⟩
    exact ⟨outside_of_sides hx (by decide +kernel), outside_of_sides hx (by decide +kernel)⟩

theorem twoHooks_mean (hidden guarded : Set (Addr .win64)) :
    twoHooks.Means (stackProcessor .win64) hidden guarded countsOnce :=
  ⟨fun _ => secondHook_performs .win64 hidden guarded, incHook_means hidden guarded⟩

/-- The program: through both hooks, of which the second counts first. -/
theorem twoSession_run :
    Run (stackProcessor .win64) (patchedBytes (countingProcess .win64) twoSession)
      (Patch.detour '' HookStack.sessionPatches (stackProcessor .win64) countsOnce {twoHooks} ∅)
      (0x401000, counted (countingProcess .win64) twoSession 0)
      (0x40100E, counted (countingProcess .win64) twoSession 9) := by
  let program := counted (countingProcess .win64) twoSession
  have horiginal : (incHook .win64).original (stackProcessor .win64) (program 1) (program 8) :=
    (WrittenHook.original_straight (executes_incs 7) incHook_orig).mpr ⟨by decide +kernel, rfl⟩
  have heffect : twoHooks.effect (stackProcessor .win64) countsOnce (program 0) (program 9) :=
    ⟨program 1, rfl, program 8, horiginal, rfl⟩
  have hexit : twoHooks.exit = 0x40100E := by decide +kernel
  refine .detour (D := (twoHooks.patch (stackProcessor .win64) countsOnce).detour)
    ⟨_, Or.inl ⟨twoHooks, rfl, rfl⟩, rfl⟩ heffect ?_
  rw [← hexit]
  exact .refl _

/-- Two are counted by the hooks, and seven that the first of them displaced. -/
theorem stacks_take_effect_counting :
    ∃ e', Reaches (stackProcessor .win64)
        (0x401000, ⟨⟨0x8000, 0⟩, (serveAll (countingProcess .win64) twoSession).mem⟩) (0x40100E, e')
      ∧ e'.regs.al = 9 ∧ (secondHook .win64).InPlace e'.mem
      ∧ (incHook .win64).TrampolineInPlace e'.mem := by
  have hwritten : ∀ st ∈ ({twoHooks} : Set HookStack),
      st.WrittenIn (countingProcess .win64) twoSession := by
    intro st hst
    obtain rfl := Set.mem_singleton_iff.mp hst
    exact twoHooks_written
  have hmeans : ∀ st ∈ ({twoHooks} : Set HookStack), ∀ guarded,
      st.Means (stackProcessor .win64) (patchedBytes (countingProcess .win64) twoSession) guarded
        countsOnce := by
    intro st hst guarded
    obtain rfl := Set.mem_singleton_iff.mp hst
    exact twoHooks_mean _ guarded
  obtain ⟨e', hgo, hagree, hplace⟩ := stacks_take_effect (stackProcessor_jumps .win64)
    (stackProcessor_skips .win64) hwritten (fun n hn => absurd hn (Set.notMem_empty n))
    (fun _ hx => notMem_patchedBytes.mp hx) (fun st hst => hmeans st hst _) twoSession_run
  obtain ⟨htop, htramp⟩ := hplace _ (Or.inl ⟨twoHooks, rfl, rfl⟩)
  exact ⟨e', hgo, congrArg Registers.al hagree.regs.symm, htop,
    htramp _ (List.mem_cons_of_mem _ (List.mem_singleton_self _))⟩

end CommonLoader
