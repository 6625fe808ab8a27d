import CommonLoader.Lib.Machine
import CommonLoader.Proof.Session
import CommonLoader.Proof.UserCode

/-!
# What a hook does in a program

What a jump hook is for: where control comes to the hooked address the code of the hook
is carried out before the displaced instructions, after them or in their place. That is
said of the program as it was before anybody touched it. A hook that is in place does it,
if code and displaced instructions mean in the trampoline what they should.

The processor is a parameter that carries out the jumps, and it runs what lies in memory
whatever the protection of the page.
-/

namespace CommonLoader

open ByteMemory CText Machine StateTransition

variable {b : Build} {ρ : Type*}

theorem KnownBehavior.before : KnownBehavior eHookBehaviorBefore := Or.inl rfl

theorem KnownBehavior.after : KnownBehavior eHookBehaviorAfter := Or.inr (Or.inl rfl)

/-- A hook, and the state it was written in. -/
structure WrittenHook (b : Build) where
  env : HookEnv b
  before : Loader b
  source : Bytes
  address : Addr b
  behavior : BitVec 32
  known : KnownBehavior behavior
  writable : MemoryProvider.isMemoryWritable before address = true
  installable : Installable env before source address

namespace WrittenHook

variable (h : WrittenHook b)

/-- The assembled code. -/
def code : Bytes := (compileHook h.env h.before h.source).code

/-- `hookLen`. -/
def length : SizeT b := hookLen h.env h.before h.address

/-- The displaced bytes. -/
def orig : Bytes := load h.before.mem h.address h.length.toNat

/-- The call that wrote it, in the jump form. -/
def call : Call b := .writeASMHook h.env h.source h.address h.behavior eHookParameterJump

/-- The addresses of its trampoline. -/
def trampoline : Set (Addr b) :=
  {x | InBlock h.env.hookPtr (trampolineSize h.env h.before h.source h.address) x}

/-- The addresses it occupies. -/
def footprint : Set (Addr b) := {x | x ∈ h.trampoline ∨ InBlock h.address h.length.toNat x}

/-- The body of the trampoline. -/
def content : Bytes := (trampolineBody h.behavior h.code h.orig).getD []

/-- Patch and trampoline are where they were written. -/
def InPlace (mem : Mem b.bits) : Prop :=
  HookLayout h.env h.before h.address eHookParameterJump h.content mem

/-- The trampoline is as it was written, whatever has become of the patch. -/
structure TrampolineInPlace (mem : Mem b.bits) : Prop where
  body : load mem h.env.hookPtr h.content.length = h.content
  tail : load mem (h.env.hookPtr + BitVec.ofNat _ h.content.length) b.minHookLength
    = transfer false (h.env.hookPtr + BitVec.ofNat _ h.content.length) (h.address + h.length)

theorem content_eq : trampolineBody h.behavior h.code h.orig = some h.content := by
  obtain ⟨body, hbody⟩ := h.known.body h.code h.orig
  unfold content
  rw [hbody]
  rfl

theorem length_orig : h.orig.length = h.length.toNat := length_load ..

theorem content_length : h.content.length + b.minHookLength
    ≤ trampolineSize h.env h.before h.source h.address := by
  have := trampolineBody_length h.content_eq
  rw [length_orig] at this
  unfold trampolineSize
  unfold code length at this
  omega

/-- What lies at an offset in the trampoline. -/
theorem trampoline_mem {k : Nat} (hk : k < trampolineSize h.env h.before h.source h.address) :
    h.env.hookPtr + BitVec.ofNat _ k ∈ h.trampoline := inBlock_add h.installable.size hk

variable {h} in
theorem InPlace.trampoline {mem : Mem b.bits} (hin : h.InPlace mem) : h.TrampolineInPlace mem := by
  have htail := hin.tail
  unfold trampolineTail at htail
  rw [if_pos rfl, length_transfer] at htail
  exact ⟨hin.body, htail⟩

theorem trampolineInPlace_congr {mem mem' : Mem b.bits} (hsame : ∀ x ∈ h.trampoline, mem' x = mem x)
    (hin : h.TrampolineInPlace mem) : h.TrampolineInPlace mem' := by
  have hcontent := h.content_length
  refine ⟨?_, ?_⟩
  · rw [load_congr fun k hk => hsame _ (h.trampoline_mem (by omega))]
    exact hin.body
  · refine Eq.trans (load_congr fun k hk => ?_) hin.tail
    rw [add_add_ofNat]
    exact hsame _ (h.trampoline_mem (by omega))

variable (parameter : BitVec 32)

/-- **What a hook has written stays as long as nobody writes into it**, in either form. -/
theorem layout_congr {mem mem' : Mem b.bits} (hsame : ∀ x ∈ h.footprint, mem' x = mem x)
    (hin : HookLayout h.env h.before h.address parameter h.content mem) :
    HookLayout h.env h.before h.address parameter h.content mem' := by
  have hlong := h.installable.long
  have hbelow := h.installable.below
  have hcontent := h.content_length
  have htail := length_trampolineTail parameter
    (h.env.hookPtr + BitVec.ofNat _ h.content.length) (h.address + hookLen h.env h.before h.address)
  have htarget : ∀ k, k < (hookLen h.env h.before h.address).toNat →
      h.address + BitVec.ofNat _ k ∈ h.footprint :=
    fun k hk => Or.inr (inBlock_add (by omega) hk)
  -- body and tail lie in the trampoline, the jump and the no-ops at the target
  refine ⟨?_, ?_, ?_, fun i hi hlt => ?_⟩
  · rw [load_congr fun k hk => hsame _ (Or.inl (h.trampoline_mem (by omega)))]
    exact hin.body
  · refine Eq.trans (load_congr fun k hk => ?_) hin.tail
    rw [add_add_ofNat]
    exact hsame _ (Or.inl (h.trampoline_mem (by omega)))
  · rw [load_congr fun k hk => hsame _ (htarget k (by omega))]
    exact hin.patch
  · rw [hsame _ (htarget i hlt)]
    exact hin.nops i hi hlt

theorem layout_serve : HookLayout h.env h.before h.address parameter h.content
    (serve h.before (.writeASMHook h.env h.source h.address h.behavior parameter)).mem := by
  rw [serve, MemoryProvider.writeASMHook, if_pos h.writable]
  exact (writeASMHook_layout parameter h.installable h.content_eq).2

/-- Every address of the hook is written. -/
theorem layout_patched {x : Addr b} (hx : x ∈ h.footprint) : ¬ Outside
    ((Call.writeASMHook h.env h.source h.address h.behavior parameter).patched h.before) x := by
  intro hout
  rw [Call.patched_eq rfl, Call.trampoline, Call.target, if_pos h.writable,
    if_pos h.writable] at hout
  obtain ⟨htramp, htarget⟩ := outside_append.mp hout
  rcases hx with hx | hx
  · exact htramp.single hx
  · exact htarget.single (Nat.lt_of_lt_of_le hx (Nat.le_max_left _ _))

/-- The hook is in place as long as nobody writes into it. -/
theorem inPlace_congr {mem mem' : Mem b.bits} (hsame : ∀ x ∈ h.footprint, mem' x = mem x)
    (hin : h.InPlace mem) : h.InPlace mem' := h.layout_congr eHookParameterJump hsame hin

/-- The call puts it in place. -/
theorem inPlace_serve : h.InPlace (serve h.before h.call).mem := h.layout_serve eHookParameterJump

theorem footprint_patched {x : Addr b} (hx : x ∈ h.footprint) :
    ¬ Outside (h.call.patched h.before) x := h.layout_patched eHookParameterJump hx

/-! ## What a hook means -/

/-- What the displaced instructions do in the program, from the first to behind the last. -/
def original (P : Processor b.bits ρ) (d d' : Data b.bits ρ) : Prop :=
  load d.mem h.address h.orig.length = h.orig
    ∧ Through P {x | InBlock h.address h.length.toNat x} (h.address, d)
        (h.address + h.length, d')

end WrittenHook

/-- The order of the behaviour. -/
def hookEffect (behavior : BitVec 32) (code orig : Data b.bits ρ → Data b.bits ρ → Prop) :
    Data b.bits ρ → Data b.bits ρ → Prop :=
  if behavior = eHookBehaviorBefore then Relation.Comp code orig
  else if behavior = eHookBehaviorAfter then Relation.Comp orig code
  else code

/-- The processor carries out the jumps that hooks consist of. -/
def Jumps (P : Processor b.bits ρ) : Prop :=
  ∀ a target (d : Data b.bits ρ), load d.mem a b.minHookLength = transfer false a target →
    P (a, d) = some (target, d)

namespace WrittenHook

variable (h : WrittenHook b)

/-- Where the program takes its detour. -/
def detour (P : Processor b.bits ρ) (meaning : Data b.bits ρ → Data b.bits ρ → Prop) :
    Detour b.bits ρ :=
  ⟨h.address, h.address + h.length, hookEffect h.behavior meaning (h.original P)⟩

/-- Code and displaced instructions mean in the trampoline what they should. -/
structure Means (P : Processor b.bits ρ) (hidden guarded : Set (Addr b))
    (meaning : Data b.bits ρ → Data b.bits ρ → Prop) : Prop where
  code : Performs P hidden guarded h.code meaning (codeStart h.behavior h.env.hookPtr h.length)
  orig : h.behavior ≠ eHookBehaviorReplace →
    Performs P hidden guarded h.orig (h.original P) (displacedStart h.behavior h.env.hookPtr h.code)

variable {h} {P : Processor b.bits ρ} {hidden guarded : Set (Addr b)}
  {meaning : Data b.bits ρ → Data b.bits ρ → Prop}

/-- **The body of the trampoline**, in the order of the behaviour. -/
theorem Means.content (hm : h.Means P hidden guarded meaning) (hsub : h.trampoline ⊆ guarded) :
    Performs P hidden guarded h.content (hookEffect h.behavior meaning (h.original P))
      h.env.hookPtr := by
  have hlength : h.length = BitVec.ofNat _ h.orig.length := by
    rw [length_orig, BitVec.ofNat_toNat, BitVec.setWidth_eq]
  have hlen := h.content_length
  have hpos := minHookLength_pos b
  have hcontent := h.content_eq
  have hin : ∀ {first second : Bytes}, h.content = first ++ second → ∀ k, k < second.length →
      h.env.hookPtr + BitVec.ofNat _ (first.length + k) ∈ guarded := by
    intro first second hc k hk
    rw [hc, List.length_append] at hlen
    exact hsub (h.trampoline_mem (by omega))
  unfold trampolineBody at hcontent
  unfold hookEffect
  split at hcontent
  · -- before: the code, then what was displaced
    rename_i hb
    have hc := (Option.some.inj hcontent).symm
    have hcode := hm.code
    have horig := hm.orig (by rw [hb]; decide)
    unfold codeStart at hcode
    unfold displacedStart at horig
    rw [if_neg (by rw [hb]; decide)] at hcode
    rw [if_pos hb] at horig
    rw [if_pos hb, hc]
    exact hcode.append horig (hin hc)
  · rename_i hbefore
    rw [if_neg hbefore]
    split at hcontent
    · -- after: the other way round
      rename_i hb
      have hc := (Option.some.inj hcontent).symm
      have hcode := hm.code
      have horig := hm.orig (by rw [hb]; decide)
      unfold codeStart at hcode
      unfold displacedStart at horig
      rw [if_pos hb, hlength] at hcode
      rw [if_neg hbefore, BitVec.add_zero] at horig
      rw [if_pos hb, hc]
      exact horig.append hcode (hin hc)
    · -- in place of it: what was displaced is not even copied
      rename_i hafter
      rw [if_neg hafter]
      split at hcontent
      · have hc := (Option.some.inj hcontent).symm
        have hcode := hm.code
        unfold codeStart at hcode
        rw [if_neg hafter] at hcode
        rw [hc]
        exact hcode
      · cases hcontent

/-- **Through the trampoline** from its first byte, and back behind the displaced bytes. -/
theorem Means.through (hP : Jumps P) (hm : h.Means P hidden guarded meaning)
    (hsub : h.trampoline ⊆ guarded) {d e d' : Data b.bits ρ} (hagree : Agree hidden d e)
    (hin : h.TrampolineInPlace e.mem)
    (heffect : hookEffect h.behavior meaning (h.original P) d d') :
    ∃ e', Reaches P (h.env.hookPtr, e) (h.address + h.length, e') ∧ Agree hidden d' e'
      ∧ Kept guarded e e' := by
  obtain ⟨e', hgo, hagree', hkept⟩ := hm.content hsub d e d' hagree hin.body heffect
  -- the body may write, but not into the trampoline, so the jump back is still there
  have hin' := h.trampolineInPlace_congr (fun x hx => hkept x (hsub hx)) hin
  exact ⟨e', hgo.tail (hP _ _ _ hin'.tail), hagree', hkept⟩

/-- **A hook that is in place does what it is for.** -/
theorem Means.realises (hP : Jumps P) (hm : h.Means P hidden guarded meaning)
    (hsub : h.footprint ⊆ guarded) :
    Realises P hidden guarded h.InPlace (h.detour P meaning) := by
  intro d e d' hagree hplace heffect
  obtain ⟨e', hgo, hagree', hkept⟩ :=
    hm.through hP (fun x hx => hsub (Or.inl hx)) hagree hplace.trampoline heffect
  exact ⟨e', Relation.ReflTransGen.head (hP _ _ _ hplace.patch) hgo, hagree', hkept⟩

variable (h) in
/-- The hook, as a patch of the program. -/
def patch (P : Processor b.bits ρ) (meaning : Data b.bits ρ → Data b.bits ρ → Prop) :
    Patch b.bits ρ where
  detour := h.detour P meaning
  footprint := h.footprint
  inPlace := h.InPlace
  congr := fun _ _ => h.inPlace_congr

end WrittenHook

end CommonLoader
