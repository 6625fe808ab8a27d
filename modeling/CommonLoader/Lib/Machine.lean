import CommonLoader.Lib.Memory
import Mathlib.Computability.StateTransition
import Mathlib.Logic.Relation

/-!
# Detours in a program

A processor runs what lies in its memory. To make a program do something else at some
place one overwrites a few of its bytes there, so that control takes a detour, and
keeps what the detour needs in memory that the program knows nothing of. What the
program is meant to do then is the run of the untouched program with the effect of
the detour put in; and the patched program does it if every detour does what it says
and the rest of the program is blind to what was hidden from it.
-/

namespace Machine

open ByteMemory StateTransition

variable {w : Nat} {ρ : Type*}

/-- Registers and memory. -/
structure Data (w : Nat) (ρ : Type*) where
  regs : ρ
  mem : Mem w

/-- The instruction at an address, carried out on some data. -/
abbrev Processor (w : Nat) (ρ : Type*) := BitVec w × Data w ρ → Option (BitVec w × Data w ρ)

/-- Equal but for what is hidden. -/
structure Agree (hidden : Set (BitVec w)) (d e : Data w ρ) : Prop where
  regs : d.regs = e.regs
  mem : ∀ x, x ∉ hidden → d.mem x = e.mem x

/-- Nothing was written to these addresses. -/
def Kept (guarded : Set (BitVec w)) (e e' : Data w ρ) : Prop := ∀ x ∈ guarded, e'.mem x = e.mem x

/-- An instruction that neither sees nor changes what is hidden. -/
def Blind (P : Processor w ρ) (hidden : Set (BitVec w)) (a : BitVec w) (d : Data w ρ) : Prop :=
  ∀ a' d' e, P (a, d) = some (a', d') → Agree hidden d e →
    ∃ e', P (a, e) = some (a', e') ∧ Agree hidden d' e' ∧ Kept hidden e e'

/-- A run that stays inside of some addresses until it ends. -/
inductive Through (P : Processor w ρ) (inside : Set (BitVec w)) :
    BitVec w × Data w ρ → BitVec w × Data w ρ → Prop where
  | refl (s : BitVec w × Data w ρ) : Through P inside s s
  | step {a : BitVec w} {d : Data w ρ} {s t : BitVec w × Data w ρ} :
      a ∈ inside → P (a, d) = some s → Through P inside s t → Through P inside (a, d) t

/-- Control comes in at one address and goes on at another, with this effect. -/
structure Detour (w : Nat) (ρ : Type*) where
  entry : BitVec w
  exit : BitVec w
  effect : Data w ρ → Data w ρ → Prop

/--
What the program is meant to do: its own instructions, and at an entry the effect of
the detour.
-/
inductive Run (P : Processor w ρ) (hidden : Set (BitVec w)) (detours : Set (Detour w ρ)) :
    BitVec w × Data w ρ → BitVec w × Data w ρ → Prop where
  | refl (s : BitVec w × Data w ρ) : Run P hidden detours s s
  | step {a a' : BitVec w} {d d' : Data w ρ} {t : BitVec w × Data w ρ} :
      P (a, d) = some (a', d') → Blind P hidden a d →
      Run P hidden detours (a', d') t → Run P hidden detours (a, d) t
  | detour {D : Detour w ρ} {d d' : Data w ρ} {t : BitVec w × Data w ρ} :
      D ∈ detours → D.effect d d' →
      Run P hidden detours (D.exit, d') t → Run P hidden detours (D.entry, d) t

variable {P : Processor w ρ} {hidden guarded : Set (BitVec w)}

theorem Kept.refl (guarded : Set (BitVec w)) (e : Data w ρ) : Kept guarded e e := fun _ _ => rfl

theorem Kept.trans {e e' e'' : Data w ρ} (h : Kept guarded e e') (h' : Kept guarded e' e'') :
    Kept guarded e e'' := fun x hx => (h' x hx).trans (h x hx)

theorem Kept.mono {guarded' : Set (BitVec w)} {e e' : Data w ρ} (h : Kept guarded e e')
    (hsub : guarded' ⊆ guarded) : Kept guarded' e e' := fun x hx => h x (hsub hx)

/-- What was kept is still there. -/
theorem Kept.load {e e' : Data w ρ} (h : Kept guarded e e') {a : BitVec w} {n : Nat}
    (hin : ∀ k, k < n → a + BitVec.ofNat w k ∈ guarded) : load e'.mem a n = load e.mem a n :=
  List.map_congr_left fun _ hk => h _ (hin _ (List.mem_range.mp hk))

/-! ## Pieces of code -/

/--
Code at an address that runs from its first byte to behind its last, with an effect on
what is not hidden, and writes none of the guarded bytes.
-/
def Performs (P : Processor w ρ) (hidden guarded : Set (BitVec w)) (code : List UInt8)
    (effect : Data w ρ → Data w ρ → Prop) (a : BitVec w) : Prop :=
  ∀ d e d', Agree hidden d e → load e.mem a code.length = code → effect d d' →
    ∃ e', Reaches P (a, e) (a + BitVec.ofNat w code.length, e') ∧ Agree hidden d' e'
      ∧ Kept guarded e e'

/-- **One piece behind the other.** The second is still there after the first. -/
theorem Performs.append {first second : List UInt8} {E F : Data w ρ → Data w ρ → Prop}
    {a : BitVec w} (h : Performs P hidden guarded first E a)
    (h' : Performs P hidden guarded second F (a + BitVec.ofNat w first.length))
    (hin : ∀ k, k < second.length → a + BitVec.ofNat w (first.length + k) ∈ guarded) :
    Performs P hidden guarded (first ++ second) (Relation.Comp E F) a := by
  intro d e d'' hagree hload heffect
  obtain ⟨d', hE, hF⟩ := heffect
  rw [List.length_append, load_add] at hload
  obtain ⟨hfirst, hsecond⟩ := List.append_inj hload (length_load ..)
  obtain ⟨e', hgo, hagree', hkept⟩ := h d e d' hagree hfirst hE
  have hsecond' : load e'.mem (a + BitVec.ofNat w first.length) second.length = second := by
    rw [hkept.load fun k hk => by rw [add_add_ofNat]; exact hin k hk, hsecond]
  obtain ⟨e'', hgo', hagree'', hkept'⟩ := h' d' e' d'' hagree' hsecond' hF
  refine ⟨e'', ?_, hagree'', hkept.trans hkept'⟩
  rw [List.length_append, ← add_add_ofNat]
  exact hgo.trans hgo'

/-! ## Straight-line code -/

/-- An instruction that works on the registers, and goes on behind itself. -/
structure Insn (ρ : Type*) where
  bytes : List UInt8
  effect : ρ → ρ

/-- The bytes of instructions, one behind the other. -/
def insnBytes (insns : List (Insn ρ)) : List UInt8 := insns.flatMap Insn.bytes

/-- What they do, one after the other. -/
def Does (insns : List (Insn ρ)) (d d' : Data w ρ) : Prop :=
  d' = ⟨insns.foldl (fun regs i => i.effect regs) d.regs, d.mem⟩

/-- The processor carries the instruction out, wherever it lies. -/
def Executes (P : Processor w ρ) (i : Insn ρ) : Prop :=
  ∀ a (d : Data w ρ), load d.mem a i.bytes.length = i.bytes →
    P (a, d) = some (a + BitVec.ofNat w i.bytes.length, ⟨i.effect d.regs, d.mem⟩)

/-- It sees nothing that is hidden, unless it lies there itself. -/
theorem Executes.blind {i : Insn ρ} (hP : Executes P i) {a : BitVec w} {d : Data w ρ}
    (hload : load d.mem a i.bytes.length = i.bytes)
    (hseen : ∀ k, k < i.bytes.length → a + BitVec.ofNat w k ∉ hidden) : Blind P hidden a d := by
  intro a' d' e hstep hagree
  have hload' : load e.mem a i.bytes.length = i.bytes :=
    (load_congr fun k hk => (hagree.mem _ (hseen k hk)).symm).trans hload
  rw [hP a d hload] at hstep
  obtain ⟨rfl, rfl⟩ := Prod.mk.inj (Option.some.inj hstep)
  exact ⟨_, hP a e hload', ⟨congrArg i.effect hagree.regs, hagree.mem⟩, Kept.refl _ _⟩

/-- The first instruction, and the others behind it. -/
theorem load_insnBytes_cons {mem : Mem w} {a : BitVec w} {i : Insn ρ} {insns : List (Insn ρ)}
    (hload : load mem a (insnBytes (i :: insns)).length = insnBytes (i :: insns)) :
    load mem a i.bytes.length = i.bytes
      ∧ load mem (a + BitVec.ofNat w i.bytes.length) (insnBytes insns).length = insnBytes insns := by
  unfold insnBytes at hload ⊢
  rw [List.flatMap_cons, List.length_append, load_add] at hload
  exact List.append_inj hload (length_load ..)

/-- Straight-line code runs from its first byte to behind its last. -/
theorem straight_reaches : ∀ {insns : List (Insn ρ)}, (∀ i ∈ insns, Executes P i) →
    ∀ {a : BitVec w} {d d' : Data w ρ}, load d.mem a (insnBytes insns).length = insnBytes insns →
      Does insns d d' → Reaches P (a, d) (a + BitVec.ofNat w (insnBytes insns).length, d')
  | [], _, a, d, d', _, hdoes => by
    obtain rfl : d' = d := hdoes
    rw [insnBytes, List.flatMap_nil, List.length_nil, BitVec.add_zero]
    exact Relation.ReflTransGen.refl
  | i :: insns, hP, a, d, d', hload, hdoes => by
    obtain ⟨hfirst, hrest⟩ := load_insnBytes_cons hload
    have hstep := hP i (List.mem_cons_self ..) a d hfirst
    have hgo := straight_reaches (fun j hj => hP j (List.mem_cons_of_mem _ hj))
      (d := ⟨i.effect d.regs, d.mem⟩) hrest hdoes
    rw [add_add_ofNat, ← List.length_append] at hgo
    exact Relation.ReflTransGen.head hstep hgo

/-- **Straight-line code performs what it does**, also where it is moved to. -/
theorem performs_straight {insns : List (Insn ρ)} (hP : ∀ i ∈ insns, Executes P i)
    (hidden guarded : Set (BitVec w)) (a : BitVec w) :
    Performs P hidden guarded (insnBytes insns) (Does insns) a := by
  intro d e d' hagree hload hdoes
  obtain rfl := hdoes
  refine ⟨_, straight_reaches hP hload rfl, ⟨?_, hagree.mem⟩, Kept.refl _ _⟩
  rw [hagree.regs]

/--
**A run through straight-line code does what the code does**, and nothing else: in front of
each instruction the processor has one step to take, and behind the last it has left.
-/
theorem through_straight {a : BitVec w} {n : Nat} (hn : n < 2 ^ w) {d' : Data w ρ} :
    ∀ {insns : List (Insn ρ)}, (∀ i ∈ insns, Executes P i ∧ i.bytes ≠ []) →
      ∀ {k : Nat} {d : Data w ρ}, k + (insnBytes insns).length = n →
        load d.mem (a + BitVec.ofNat w k) (insnBytes insns).length = insnBytes insns →
        (Through P {x | InBlock a n x} (a + BitVec.ofNat w k, d) (a + BitVec.ofNat w n, d')
          ↔ Does insns d d') := by
  intro insns
  -- on the instructions that are left, from the offset `k` on
  induction insns with
  | nil =>
    intro _ k d hk _
    obtain rfl : k = n := hk
    refine ⟨fun hthrough => ?_, fun hdoes => hdoes ▸ .refl _⟩
    cases hthrough with
    | refl => rfl
    | step hin _ _ =>
      -- behind the last instruction the run has left the block
      have hlt : InBlock a k (a + BitVec.ofNat w k) := hin
      unfold InBlock at hlt
      rw [toNat_add_sub hn] at hlt
      omega
  | cons i insns ih =>
    intro hP k d hk hload
    obtain ⟨hfirst, hrest⟩ := load_insnBytes_cons hload
    obtain ⟨hexec, hne⟩ := hP i (List.mem_cons_self ..)
    have hstep := hexec _ d hfirst
    have hpos := List.length_pos_iff.mpr hne
    have hlength : (insnBytes (i :: insns)).length = i.bytes.length + (insnBytes insns).length := by
      unfold insnBytes
      rw [List.flatMap_cons, List.length_append]
    rw [add_add_ofNat] at hstep hrest
    have ih := ih (fun j hj => hP j (List.mem_cons_of_mem _ hj)) (k := k + i.bytes.length)
      (d := ⟨i.effect d.regs, d.mem⟩) (by omega) hrest
    refine Iff.trans ⟨fun hthrough => ?_, fun hthrough => ?_⟩ ih
    · generalize hs : (a + BitVec.ofNat w k, d) = s at hthrough
      generalize ht : (a + BitVec.ofNat w n, d') = t at hthrough
      cases hthrough with
      | refl =>
        -- it cannot have arrived: the offsets differ
        have hsame := congrArg (fun r => (r.1 - a).toNat) (hs.trans ht.symm)
        simp only [toNat_add_sub (show k < 2 ^ w by omega), toNat_add_sub hn] at hsame
        omega
      | step _ hgo hthrough =>
        obtain ⟨rfl, rfl⟩ := Prod.mk.inj hs
        rw [hstep] at hgo
        obtain rfl := Option.some.inj hgo
        exact hthrough
    · exact .step (inBlock_add (Nat.le_of_lt hn) (by omega)) hstep hthrough

/-! ## Routines -/

/-- How return addresses are kept, in a register or in memory. -/
structure CallStack (w : Nat) (ρ : Type*) where
  push : BitVec w → Data w ρ → Data w ρ
  pop : Data w ρ → Option (BitVec w × Data w ρ)

namespace CallStack

variable (S : CallStack w ρ)

/-- A push that neither sees nor changes what is hidden. -/
def BlindPush (hidden : Set (BitVec w)) (ret : BitVec w) (d : Data w ρ) : Prop :=
  ∀ e, Agree hidden d e →
    Agree hidden (S.push ret d) (S.push ret e) ∧ Kept hidden e (S.push ret e)

/-- And such a pop. -/
def BlindPop (hidden : Set (BitVec w)) (d : Data w ρ) : Prop :=
  ∀ ret d' e, S.pop d = some (ret, d') → Agree hidden d e →
    ∃ e', S.pop e = some (ret, e') ∧ Agree hidden d' e' ∧ Kept hidden e e'

/-- An effect between a call and its return: it leaves the return address on top. -/
def Around (hidden : Set (BitVec w)) (ret : BitVec w) (effect : Data w ρ → Data w ρ → Prop)
    (d d' : Data w ρ) : Prop :=
  ∃ d₂, effect (S.push ret d) d₂ ∧ S.pop d₂ = some (ret, d') ∧ S.BlindPush hidden ret d
    ∧ S.BlindPop hidden d₂

end CallStack

/-- **A routine** is called, runs, and returns to where its caller wanted. -/
theorem Performs.routine {S : CallStack w ρ} {code : List UInt8} {E : Data w ρ → Data w ρ → Prop}
    {a entry ret : BitVec w} {d e d' : Data w ρ} (h : Performs P hidden guarded code E a)
    (hsub : guarded ⊆ hidden) (hin : ∀ k, k < code.length → a + BitVec.ofNat w k ∈ guarded)
    (hagree : Agree hidden d e) (hload : load e.mem a code.length = code)
    (hcall : P (entry, e) = some (a, S.push ret e))
    (hret : ∀ e₂, Kept guarded e e₂ → ∀ r e', S.pop e₂ = some (r, e') →
      P (a + BitVec.ofNat w code.length, e₂) = some (r, e'))
    (heffect : S.Around hidden ret E d d') :
    ∃ e', Reaches P (entry, e) (ret, e') ∧ Agree hidden d' e' ∧ Kept guarded e e' := by
  obtain ⟨d₂, hE, hpop, hpush, hpopBlind⟩ := heffect
  obtain ⟨hagree₁, hkept⟩ := hpush e hagree
  have hkept₁ := hkept.mono hsub
  have hload₁ : load (S.push ret e).mem a code.length = code := (hkept₁.load hin).trans hload
  obtain ⟨e₂, hgo, hagree₂, hkept₂⟩ := h _ _ _ hagree₁ hload₁ hE
  obtain ⟨e', hpop', hagree', hkept'⟩ := hpopBlind ret d' e₂ hpop hagree₂
  have hreturn := hret e₂ (hkept₁.trans hkept₂) ret e' hpop'
  refine ⟨e', Relation.ReflTransGen.head hcall (hgo.tail hreturn), hagree', ?_⟩
  exact (hkept₁.trans hkept₂).trans (hkept'.mono hsub)

/-! ## Detours that are in place -/

/-- The code that is in place does what the detour says, and stays in place. -/
def Realises (P : Processor w ρ) (hidden guarded : Set (BitVec w)) (inPlace : Mem w → Prop)
    (D : Detour w ρ) : Prop :=
  ∀ d e d', Agree hidden d e → inPlace e.mem → D.effect d d' →
    ∃ e', Reaches P (D.entry, e) (D.exit, e') ∧ Agree hidden d' e' ∧ Kept guarded e e'

/--
**The patched program does what is meant.** Every run of the program with its detours
is a run of the processor over the patched memory, with the same registers at its end
and the same memory but for what is hidden; and the detours are still in place.
-/
theorem Run.simulate {detours : Set (Detour w ρ)} {inPlace : Mem w → Prop}
    (hsub : guarded ⊆ hidden)
    (hplace : ∀ e e' : Data w ρ, Kept guarded e e' → inPlace e.mem → inPlace e'.mem)
    (hreal : ∀ D ∈ detours, Realises P hidden guarded inPlace D)
    {s t : BitVec w × Data w ρ} (hrun : Run P hidden detours s t) :
    ∀ e, Agree hidden s.2 e → inPlace e.mem →
      ∃ e', Reaches P (s.1, e) (t.1, e') ∧ Agree hidden t.2 e' ∧ inPlace e'.mem
        ∧ Kept guarded e e' := by
  induction hrun with
  | refl s =>
    intro e hagree hin
    exact ⟨e, Relation.ReflTransGen.refl, hagree, hin, Kept.refl _ _⟩
  | step hstep hblind _ ih =>
    intro e hagree hin
    obtain ⟨e', hgo, hagree', hkept⟩ := hblind _ _ e hstep hagree
    have hkept := hkept.mono hsub
    obtain ⟨e'', hgo', hagree'', hin', hkept'⟩ := ih e' hagree' (hplace e e' hkept hin)
    exact ⟨e'', Relation.ReflTransGen.head hgo hgo', hagree'', hin', hkept.trans hkept'⟩
  | detour hD heffect _ ih =>
    intro e hagree hin
    obtain ⟨e', hgo, hagree', hkept⟩ := hreal _ hD _ e _ hagree hin heffect
    obtain ⟨e'', hgo', hagree'', hin', hkept'⟩ := ih e' hagree' (hplace e e' hkept hin)
    exact ⟨e'', hgo.trans hgo', hagree'', hin', hkept.trans hkept'⟩

/-! ## Patches -/

/-- What makes a program take a detour, and the addresses it lies at. -/
structure Patch (w : Nat) (ρ : Type*) where
  detour : Detour w ρ
  footprint : Set (BitVec w)
  inPlace : Mem w → Prop
  congr : ∀ m m', (∀ x ∈ footprint, m' x = m x) → inPlace m → inPlace m'

/-- Where patches lie, all of them. -/
def footprints (patches : Set (Patch w ρ)) : Set (BitVec w) := {x | ∃ p ∈ patches, x ∈ p.footprint}

/--
**Patches that each do what they say do it together**, if they are hidden and leave each
other alone.
-/
theorem Run.simulate_patches {patches : Set (Patch w ρ)} (hsub : footprints patches ⊆ hidden)
    (hreal : ∀ p ∈ patches, Realises P hidden (footprints patches) p.inPlace p.detour)
    {s t : BitVec w × Data w ρ} (hrun : Run P hidden (Patch.detour '' patches) s t)
    {e : Data w ρ} (hagree : Agree hidden s.2 e) (hin : ∀ p ∈ patches, p.inPlace e.mem) :
    ∃ e', Reaches P (s.1, e) (t.1, e') ∧ Agree hidden t.2 e' ∧ ∀ p ∈ patches, p.inPlace e'.mem := by
  have hplace : ∀ e e' : Data w ρ, Kept (footprints patches) e e' →
      (∀ p ∈ patches, p.inPlace e.mem) → ∀ p ∈ patches, p.inPlace e'.mem :=
    fun _ _ hkept hin p hp => p.congr _ _ (fun x hx => hkept x ⟨p, hp, hx⟩) (hin p hp)
  have hreal : ∀ D ∈ Patch.detour '' patches, Realises P hidden (footprints patches)
      (fun mem => ∀ p ∈ patches, p.inPlace mem) D := by
    rintro D ⟨p, hp, rfl⟩ d e d' hagree hin heffect
    exact hreal p hp d e d' hagree (hin p hp) heffect
  obtain ⟨e', hgo, hagree', hin', _⟩ := hrun.simulate hsub hplace hreal e hagree hin
  exact ⟨e', hgo, hagree', hin'⟩

end Machine
