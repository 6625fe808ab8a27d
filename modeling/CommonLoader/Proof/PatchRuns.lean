import CommonLoader.Proof.HookRuns
import CommonLoader.Proof.Nops
import CommonLoader.Proof.UserCode

/-!
# Programs with patches

A session hooks some places of a program, takes instructions out at others, and writes
data. What the program is meant to do from then on is said of the program with the data
written and nothing else: it runs as before, but where it comes to a hook it does what the
hook is for, and where instructions were taken out it goes on behind them. What has been
patched does it, for all the patches of the session at once and for runs of any length, if
the program does not look at what was patched.
-/

namespace CommonLoader

open ByteMemory CText Machine StateTransition

variable {b : Build} {ρ : Type*} {s : Loader b}

/-- No effect. -/
def NoEffect (d d' : Data b.bits ρ) : Prop := d' = d

/-- The processor carries out no-ops. -/
def Skips (P : Processor b.bits ρ) : Prop :=
  ∀ a (d : Data b.bits ρ), d.mem a = 0x90 → P (a, d) = some (a + 1, d)

theorem Skips.reaches {P : Processor b.bits ρ} (hP : Skips P) {a : Addr b} {e : Data b.bits ρ} :
    ∀ n, (∀ k, k < n → e.mem (a + BitVec.ofNat _ k) = 0x90) →
      Reaches P (a, e) (a + BitVec.ofNat _ n, e)
  | 0, _ => by
    rw [BitVec.add_zero]
    exact Relation.ReflTransGen.refl
  | n + 1, h => by
    have hstep := hP _ e (h n (Nat.lt_succ_self n))
    rw [show (1 : Addr b) = BitVec.ofNat _ 1 from rfl, add_add_ofNat] at hstep
    exact (hP.reaches n fun k hk => h k (Nat.lt_succ_of_lt hk)).tail hstep

/-! ## Instructions that were taken out -/

/-- Instructions overwritten with no-ops, and the state they were overwritten in. -/
structure WrittenNops (b : Build) where
  disassembler : Disassembler b
  beyond : Nat → UInt16
  before : Loader b
  address : Addr b
  count : BitVec 32
  writable : MemoryProvider.isMemoryWritable before address = true
  length : Nat
  decodes : extent (disassembler.sizeAt before.mem) count.toNat address = some length
  fits : length ≤ (16 * count).toNat

namespace WrittenNops

variable (n : WrittenNops b)

/-- The call that overwrote them. -/
def call : Call b := .nopInstructions n.disassembler.csDisasm n.beyond n.address n.count

/-- The addresses they occupied. -/
def footprint : Set (Addr b) := {x | InBlock n.address n.length x}

def InPlace (mem : Mem b.bits) : Prop := ∀ x ∈ n.footprint, mem x = 0x90

theorem length_lt : n.length < 2 ^ b.bits :=
  Nat.lt_of_le_of_lt n.fits (Nat.lt_of_lt_of_le (BitVec.isLt _) b.pow_bits)

theorem enough : n.count.toNat ≤ (n.disassembler.insn n.before n.address n.count).length :=
  (n.disassembler.fits_iff n.before n.address n.count).mp ⟨n.length, n.decodes, n.fits⟩

/-- The sizes that are added up. -/
theorem sum_insn : (((n.disassembler.insn n.before n.address n.count).take n.count.toNat).map
    UInt16.toNat).sum = n.length := by
  unfold Disassembler.insn
  rw [n.disassembler.window]
  exact sum_take_sweep _ _ _ _ _ (fun a k h => (n.disassembler.sizes n.before.mem a k h).1)
    (Nat.le_refl _) n.decodes n.fits

theorem nopLength_eq : (nopLength n.disassembler.csDisasm n.beyond n.before n.address n.count).toNat
    = n.length := by
  have hsum := nopLenLoop_inside (b := b) n.beyond n.enough
  rw [n.sum_insn] at hsum
  unfold nopLength
  rw [show n.disassembler.csDisasm _ n.address = n.disassembler.insn n.before n.address n.count from rfl,
    hsum, BitVec.toNat_ofNat, Nat.mod_eq_of_lt n.length_lt]

/-- Of no instructions there is nothing to overwrite. -/
theorem count_ne_zero {x : Addr b} (hx : x ∈ n.footprint) : n.count ≠ 0 := by
  intro h0
  have hlen := n.decodes
  rw [h0] at hlen
  obtain h0 : 0 = n.length := Option.some.inj hlen
  have hlt : (x - n.address).toNat < n.length := hx
  omega

/-- **The call overwrites them**, and no more. -/
theorem inPlace_serve : n.InPlace (serve n.before n.call).mem := by
  intro x hx
  obtain ⟨hlen, hmem⟩ := nopInstructions_inside n.beyond n.enough
  rw [hlen, n.sum_insn] at hmem
  rw [call, serve, MemoryProvider.nopInstructions, if_pos n.writable, if_neg (n.count_ne_zero hx)]
  refine (congrFun hmem x).trans ?_
  rw [store_inside (by rw [List.length_replicate]; exact hx), List.getElem_replicate]

theorem footprint_patched {x : Addr b} (hx : x ∈ n.footprint) :
    ¬ Outside (n.call.patched n.before) x := by
  intro hout
  rw [call, Call.patched_eq rfl, Call.target, if_pos ⟨n.writable, n.count_ne_zero hx⟩, nopLength_eq]
    at hout
  exact (outside_append.mp hout).2.single hx

/-- The no-ops, as a patch of the program: it goes on behind them. -/
def patch : Patch b.bits ρ where
  detour := ⟨n.address, n.address + BitVec.ofNat _ n.length, NoEffect⟩
  footprint := n.footprint
  inPlace := n.InPlace
  congr := fun _ _ hsame hin x hx => (hsame x hx).trans (hin x hx)

theorem realises {P : Processor b.bits ρ} (hP : Skips P) (hidden guarded : Set (Addr b)) :
    Realises P hidden guarded n.InPlace (n.patch : Patch b.bits ρ).detour := by
  intro d e d' hagree hin heffect
  obtain rfl : d' = d := heffect
  refine ⟨e, hP.reaches n.length fun k hk => hin _ ?_, hagree, Kept.refl _ _⟩
  exact inBlock_add (Nat.le_of_lt n.length_lt) hk

end WrittenNops

/-! ## A session -/

/-- The call came in this state, and no call since has written to these addresses. -/
structure WrittenIn (s : Loader b) (cs : List (Call b)) (before : Loader b) (call : Call b)
    (footprint : Set (Addr b)) (pre post : List (Call b)) : Prop where
  calls : cs = pre ++ call :: post
  state : before = serveAll s pre
  kept : ∀ x ∈ footprint, Outside (trampolines (serve before call) post) x
    ∧ Outside (targets (serve before call) post) x

section WrittenIn

variable {cs pre post : List (Call b)} {before : Loader b} {call : Call b} {footprint : Set (Addr b)}

/-- What the call has left there is what the session leaves. -/
theorem WrittenIn.mem (hw : WrittenIn s cs before call footprint pre post) {x : Addr b}
    (hx : x ∈ footprint) : (serveAll s cs).mem x = (serve before call).mem x := by
  have hend : serveAll s cs = serveAll (serve before call) post := by
    rw [hw.calls, serveAll_append, ← hw.state]
    rfl
  rw [hend]
  exact serveAll_outside post (hw.kept x hx).1 (hw.kept x hx).2

/-- What the call patches the session patches. -/
theorem WrittenIn.patched (hw : WrittenIn s cs before call footprint pre post) {x : Addr b}
    (hx : ¬ Outside (call.patched before) x) : ¬ Outside (patched s cs) x := by
  intro hout
  rw [hw.calls, patched_append, ← hw.state] at hout
  exact hx (outside_append.mp (outside_append.mp hout).2).1

/-- The session patched it, and has left it in place. -/
structure LeftIn (s : Loader b) (cs : List (Call b)) (p : Patch b.bits ρ) : Prop where
  patched : ∀ x ∈ p.footprint, ¬ Outside (patched s cs) x
  inPlace : p.inPlace (serveAll s cs).mem

/-- A patch that one of the calls has put in place. -/
theorem WrittenIn.left {p : Patch b.bits ρ} (hw : WrittenIn s cs before call p.footprint pre post)
    (hpatched : ∀ x ∈ p.footprint, ¬ Outside (call.patched before) x)
    (hplace : p.inPlace (serve before call).mem) : LeftIn s cs p :=
  ⟨fun x hx => hw.patched (hpatched x hx), p.congr _ _ (fun _ hx => hw.mem hx) hplace⟩

/-- A program that does not look at what was patched does not look at the patches. -/
theorem footprints_hidden {patches : Set (Patch b.bits ρ)} {hidden : Set (Addr b)}
    (hhidden : ∀ x, x ∉ hidden → Outside (CommonLoader.patched s cs) x)
    (hleft : ∀ p ∈ patches, LeftIn s cs p) : footprints patches ⊆ hidden := by
  rintro x ⟨p, hp, hx⟩
  by_contra hout
  exact (hleft p hp).patched x hx (hhidden x hout)

end WrittenIn

/--
**A session whose patches are in place does what they say.** Whatever the program does with
the session's data writes and the detours of the patches, the processor does over the memory
the session has left.
-/
theorem session_simulates {P : Processor b.bits ρ} {cs : List (Call b)} {patches : Set (Patch b.bits ρ)}
    {hidden : Set (Addr b)} (hhidden : ∀ x, x ∉ hidden → Outside (patched s cs) x)
    (hleft : ∀ p ∈ patches, LeftIn s cs p)
    (hreal : ∀ p ∈ patches, Realises P hidden (footprints patches) p.inPlace p.detour)
    {regs : ρ} {a : Addr b} {t : Addr b × Data b.bits ρ}
    (hrun : Run P hidden (Patch.detour '' patches)
      (a, ⟨regs, (serveAll s (cs.filter Call.isWrite)).mem⟩) t) :
    ∃ e', Reaches P (a, ⟨regs, (serveAll s cs).mem⟩) (t.1, e') ∧ Agree hidden t.2 e'
      ∧ ∀ p ∈ patches, p.inPlace e'.mem := by
  have hagree : Agree hidden (⟨regs, (serveAll s (cs.filter Call.isWrite)).mem⟩ : Data b.bits ρ)
      ⟨regs, (serveAll s cs).mem⟩ :=
    ⟨rfl, fun x hx => (serveAll_writes cs rfl (fun _ _ => rfl) hhidden x hx).symm⟩
  exact hrun.simulate_patches (footprints_hidden hhidden hleft) hreal hagree
    fun p hp => (hleft p hp).inPlace

/-- The hooks of a session and the instructions it has taken out, as patches. -/
def sessionPatches (P : Processor b.bits ρ)
    (meaning : WrittenHook b → Data b.bits ρ → Data b.bits ρ → Prop) (hooks : Set (WrittenHook b))
    (nops : Set (WrittenNops b)) : Set (Patch b.bits ρ) :=
  {p | (∃ h ∈ hooks, p = h.patch P (meaning h)) ∨ ∃ n ∈ nops, p = n.patch}

section Patches

variable {P : Processor b.bits ρ} {meaning : WrittenHook b → Data b.bits ρ → Data b.bits ρ → Prop}
  {cs : List (Call b)} {hooks : Set (WrittenHook b)} {nops : Set (WrittenNops b)}
  {hidden guarded : Set (Addr b)}

theorem WrittenNops.left {n : WrittenNops b}
    (hn : ∃ pre post, WrittenIn s cs n.before n.call n.footprint pre post) :
    LeftIn s cs (n.patch : Patch b.bits ρ) := by
  obtain ⟨pre, post, hw⟩ := hn
  exact WrittenIn.left (p := n.patch) hw (fun _ hx => n.footprint_patched hx) n.inPlace_serve

theorem sessionPatches_left
    (hhooks : ∀ h ∈ hooks, ∃ pre post, WrittenIn s cs h.before h.call h.footprint pre post)
    (hnops : ∀ n ∈ nops, ∃ pre post, WrittenIn s cs n.before n.call n.footprint pre post) :
    ∀ p ∈ sessionPatches P meaning hooks nops, LeftIn s cs p := by
  rintro p (⟨h, hh, rfl⟩ | ⟨n, hn, rfl⟩)
  · obtain ⟨pre, post, hw⟩ := hhooks h hh
    exact WrittenIn.left (p := h.patch P (meaning h)) hw (fun _ hx => h.footprint_patched hx)
      h.inPlace_serve
  · exact WrittenNops.left (hnops n hn)

theorem sessionPatches_realise (hjumps : Jumps P) (hskips : Skips P)
    (hsub : footprints (sessionPatches P meaning hooks nops) ⊆ guarded)
    (hmeans : ∀ h ∈ hooks, h.Means P hidden guarded (meaning h)) :
    ∀ p ∈ sessionPatches P meaning hooks nops, Realises P hidden guarded p.inPlace p.detour := by
  rintro p (⟨h, hh, rfl⟩ | ⟨n, hn, rfl⟩)
  · exact (hmeans h hh).realises hjumps fun x hx => hsub ⟨_, Or.inl ⟨h, hh, rfl⟩, hx⟩
  · exact n.realises hskips _ _

end Patches

/--
**The patches of a session take effect, all of them.** A run of the program with the
session's data writes, the effects of its hooks put in and the instructions it took out
left out, is a run of the processor over the memory the session has left; and the patches
are still in place at its end.
-/
theorem patches_take_effect {P : Processor b.bits ρ} (hjumps : Jumps P) (hskips : Skips P)
    {cs : List (Call b)} {hooks : Set (WrittenHook b)} {nops : Set (WrittenNops b)}
    (hhooks : ∀ h ∈ hooks, ∃ pre post, WrittenIn s cs h.before h.call h.footprint pre post)
    (hnops : ∀ n ∈ nops, ∃ pre post, WrittenIn s cs n.before n.call n.footprint pre post)
    {hidden : Set (Addr b)} (hhidden : ∀ x, x ∉ hidden → Outside (patched s cs) x)
    {meaning : WrittenHook b → Data b.bits ρ → Data b.bits ρ → Prop}
    (hmeans : ∀ h ∈ hooks,
      h.Means P hidden (footprints (sessionPatches P meaning hooks nops)) (meaning h))
    {regs : ρ} {a : Addr b} {t : Addr b × Data b.bits ρ}
    (hrun : Run P hidden (Patch.detour '' sessionPatches P meaning hooks nops)
      (a, ⟨regs, (serveAll s (cs.filter Call.isWrite)).mem⟩) t) :
    ∃ e', Reaches P (a, ⟨regs, (serveAll s cs).mem⟩) (t.1, e') ∧ Agree hidden t.2 e'
      ∧ ∀ p ∈ sessionPatches P meaning hooks nops, p.inPlace e'.mem := by
  refine session_simulates hhidden (sessionPatches_left hhooks hnops) ?_ hrun
  exact sessionPatches_realise hjumps hskips (fun _ hx => hx) hmeans

/-! ## Hooks of straight-line code -/

namespace WrittenHook

variable {h : WrittenHook b} {P : Processor b.bits ρ} {insns displaced : List (Insn ρ)}

/-- What displaced straight-line code does in the program. -/
theorem original_straight (hP : ∀ i ∈ displaced, Executes P i ∧ i.bytes ≠ [])
    (horig : h.orig = insnBytes displaced) {d d' : Data b.bits ρ} : h.original P d d'
      ↔ load d.mem h.address (insnBytes displaced).length = insnBytes displaced ∧ Does displaced d d' := by
  have hlength : (insnBytes displaced).length = h.length.toNat := by rw [← horig, length_orig]
  have hend : h.length = BitVec.ofNat _ h.length.toNat := by
    rw [BitVec.ofNat_toNat, BitVec.setWidth_eq]
  unfold original
  rw [horig]
  refine and_congr_right fun hload => ?_
  have hthrough : Through P {x | InBlock h.address h.length.toNat x}
      (h.address + BitVec.ofNat _ 0, d) (h.address + BitVec.ofNat _ h.length.toNat, d')
      ↔ Does displaced d d' :=
    through_straight h.length.isLt hP ((Nat.zero_add _).trans hlength) (by rwa [BitVec.add_zero])
  rwa [BitVec.add_zero, ← hend] at hthrough

/-- Moved to the trampoline, straight-line code means what it did. -/
theorem straight_means (hcode : h.code = insnBytes insns) (hP : ∀ i ∈ insns, Executes P i)
    (horig : h.orig = insnBytes displaced) (hP' : ∀ i ∈ displaced, Executes P i ∧ i.bytes ≠ [])
    (hidden guarded : Set (Addr b)) : h.Means P hidden guarded (Does insns) := by
  refine ⟨?_, fun _ => ?_⟩
  · rw [hcode]
    exact performs_straight hP hidden guarded _
  · intro d e d' hagree hload heffect
    have hdoes := ((original_straight hP' horig).mp heffect).2
    rw [horig] at hload ⊢
    exact performs_straight (fun i hi => (hP' i hi).1) hidden guarded _ d e d' hagree hload hdoes

end WrittenHook

/-! ## A processor for it -/

/-- A stack pointer and a register to count in. -/
structure Registers (b : Build) where
  sp : Addr b
  al : BitVec 8

/-- The stack lies in memory. -/
def memoryStack (b : Build) : CallStack b.bits (Registers b) where
  push ret d := ⟨{ d.regs with sp := d.regs.sp - BitVec.ofNat _ b.sizeofSizeT },
    store d.mem (d.regs.sp - BitVec.ofNat _ b.sizeofSizeT) (leBytes b.sizeofSizeT ret.toNat)⟩
  pop d := some (readPointer d.mem d.regs.sp,
    ⟨{ d.regs with sp := d.regs.sp + BitVec.ofNat _ b.sizeofSizeT }, d.mem⟩)

/-- The processor of the hooks themselves, which also counts. -/
def stackProcessor (b : Build) : Processor b.bits (Registers b) := fun s =>
  match Cpu.step s.2.mem ⟨s.1, [readPointer s.2.mem s.2.regs.sp]⟩ with
  | some ⟨ip, []⟩ =>
    some (ip, ⟨{ s.2.regs with sp := s.2.regs.sp + BitVec.ofNat _ b.sizeofSizeT }, s.2.mem⟩)
  | some ⟨ip, [_]⟩ => some (ip, s.2)
  | some ⟨ip, ret :: _⟩ => some (ip, (memoryStack b).push ret s.2)
  | none =>
    if s.2.mem s.1 = 0xFE ∧ s.2.mem (s.1 + 1) = 0xC0 then
      some (s.1 + 2, ⟨{ s.2.regs with al := s.2.regs.al + 1 }, s.2.mem⟩)
    else none

theorem stackProcessor_jumps (b : Build) : Jumps (stackProcessor b) := by
  intro a target d hload
  unfold stackProcessor
  rw [step_transfer false hload]
  rfl

theorem stackProcessor_skips (b : Build) : Skips (stackProcessor b) := by
  intro a d hbyte
  unfold stackProcessor
  rw [Cpu.step_nop hbyte]

/-- `inc al`. -/
def incAl (b : Build) : Insn (Registers b) := ⟨[0xFE, 0xC0], fun regs => { regs with al := regs.al + 1 }⟩

theorem stackProcessor_executes (b : Build) : Executes (stackProcessor b) (incAl b) := by
  intro a d hload
  have hbytes := load_eq_iff.mp hload
  have hfirst : d.mem a = 0xFE := by
    have := hbytes 0 Nat.zero_lt_two
    rwa [BitVec.add_zero] at this
  have hsecond : d.mem (a + 1) = 0xC0 := hbytes 1 Nat.one_lt_two
  -- none of the instructions that hooks are made of
  have hstep : Cpu.step d.mem ⟨a, [readPointer d.mem d.regs.sp]⟩ = none := by
    unfold Cpu.step
    rw [hfirst, hsecond]
    rfl
  unfold stackProcessor
  rw [hstep]
  exact if_pos ⟨hfirst, hsecond⟩

/-- A few times the same. -/
theorem executes_incs (n : Nat) :
    ∀ i ∈ List.replicate n (incAl b), Executes (stackProcessor b) i ∧ i.bytes ≠ [] := by
  intro i hi
  obtain rfl := List.eq_of_mem_replicate hi
  exact ⟨stackProcessor_executes b, List.cons_ne_nil _ _⟩

/-! ## A process that counts -/

/-- Jumps, no-ops, `inc al`, and `add` in between a byte register and the byte it points to. -/
def countingTable : OpcodeTable where
  opcodes := [⟨[0x90], 1⟩, ⟨[0xE9], 5⟩, ⟨[0xFF, 0x25], 6⟩, ⟨[0xFE, 0xC0], 2⟩, ⟨[0x00, 0x00], 2⟩,
    ⟨[0x02, 0x00], 2⟩]
  sizes := by decide
  separate := by decide

/-- `inc al`, in assembly. -/
def incSource : Bytes := ascii "inc al"

/-- A hook with that for its code, and a trampoline at `hookPtr`. -/
def incEnv (hookPtr : Addr b) : HookEnv b where
  csDisasm := (countingTable.disassembler b).csDisasm
  assembler := fun _ _ _ => ⟨false, 1, [], 0, [0xFE, 0xC0]⟩
  hookPtr

/-- Ten times `inc al` from `0x400FFE` on, and no-ops everywhere else. -/
def countingProcess (b : Build) : Loader b :=
  { openProcess b with
    mem := store (openProcess b).mem 0x400FFE (insnBytes (List.replicate 10 (incAl b))) }

theorem countingProcess_writable (b : Build) :
    MemoryProvider.isMemoryWritable (countingProcess b) 0x401000 = true := by
  cases b <;> decide +kernel

theorem countingProcess_installable (b : Build) :
    Installable (incEnv 0x20000) (countingProcess b) incSource 0x401000 := by
  cases b with
  | win32 => exact ⟨by decide +kernel, by decide +kernel,
      Apart.of_le (by decide +kernel) (by decide +kernel)⟩
  | win64 => exact ⟨by decide +kernel, by decide +kernel,
      Apart.of_le (by decide +kernel) (by decide +kernel)⟩

/-- Counts once more behind those it displaces, three in 32-bit code and seven in 64-bit code. -/
def incHook (b : Build) : WrittenHook b where
  env := incEnv 0x20000
  before := countingProcess b
  source := incSource
  address := 0x401000
  behavior := eHookBehaviorAfter
  known := .after
  writable := countingProcess_writable b
  installable := countingProcess_installable b

/-- What the hooks of this process are for. -/
def countsOnce (_ : WrittenHook b) : Data b.bits (Registers b) → Data b.bits (Registers b) → Prop :=
  Does (List.replicate 1 (incAl b))

/-- The program with the data of a session, as far as it has counted. -/
def counted (s : Loader b) (cs : List (Call b)) (al : BitVec 8) : Data b.bits (Registers b) :=
  ⟨⟨0x8000, al⟩, (serveAll s (cs.filter Call.isWrite)).mem⟩

/-- All that a session has patched. -/
def patchedBytes (s : Loader b) (cs : List (Call b)) : Set (Addr b) := {x | ¬ Outside (patched s cs) x}

theorem notMem_patchedBytes {x : Addr b} : x ∉ patchedBytes s cs ↔ Outside (patched s cs) x := not_not

/-- A write, and the last two taken out. -/
def takenOut : WrittenNops .win64 where
  disassembler := countingTable.disassembler .win64
  beyond := fun _ => 0
  before := serveAll (countingProcess .win64)
    [(incHook .win64).call, .writeMemory .array 0x402000 [0xC3]]
  address := 0x40100E
  count := 2
  writable := by decide +kernel
  length := 4
  decodes := by decide +kernel
  fits := by decide

/-- The hook, the write and the no-ops. -/
def countingSession : List (Call .win64) :=
  [(incHook .win64).call, .writeMemory .array 0x402000 [0xC3], takenOut.call]

theorem incHook_length : (incHook .win64).length = BitVec.ofNat _ 14 := by decide +kernel

theorem incHook_orig : (incHook .win64).orig = insnBytes (List.replicate 7 (incAl .win64)) := by
  decide +kernel

/-- Its code counts, and so does every instruction it displaces. -/
theorem incHook_means (hidden guarded : Set (Addr .win64)) :
    (incHook .win64).Means (stackProcessor .win64) hidden guarded (countsOnce (incHook .win64)) :=
  WrittenHook.straight_means (by decide +kernel) (fun i hi => (executes_incs 1 i hi).1) incHook_orig
    (executes_incs 7) hidden guarded

/-- Nothing that comes after the hook is written into it. -/
theorem incHook_written : WrittenIn (countingProcess .win64) countingSession (incHook .win64).before
    (incHook .win64).call (incHook .win64).footprint []
    [.writeMemory .array 0x402000 [0xC3], takenOut.call] := by
  refine ⟨rfl, rfl, fun x hx => ⟨fun _ hB => (nomatch hB), ?_⟩⟩
  rcases hx with hx | hx
  · exact outside_of_sides hx (by decide +kernel)
  · exact outside_of_sides hx (by decide +kernel)

theorem takenOut_written : WrittenIn (countingProcess .win64) countingSession takenOut.before
    takenOut.call takenOut.footprint [(incHook .win64).call, .writeMemory .array 0x402000 [0xC3]] [] :=
  ⟨rfl, rfl, fun _ _ => ⟨fun _ hB => (nomatch hB), fun _ hB => (nomatch hB)⟩⟩

/-- The program sees what lies apart from hook, trampoline and no-ops. -/
theorem countingSession_seen {x : Addr .win64}
    (hx : Outside [(0x20000, 30), (0x401000, 14), (0x40100E, 4)] x) :
    x ∉ patchedBytes (countingProcess .win64) countingSession := by
  have hpatched : patched (countingProcess .win64) countingSession
      = [(0x20000, 30), (0x401000, 14), (0x40100E, 4)] := by decide +kernel
  rw [notMem_patchedBytes, hpatched]
  exact hx

/-- The program: an instruction of its own, through the hook to the no-ops, and behind them. -/
theorem countingSession_run :
    Run (stackProcessor .win64) (patchedBytes (countingProcess .win64) countingSession)
      (Patch.detour '' sessionPatches (stackProcessor .win64) countsOnce {incHook .win64} {takenOut})
      (0x400FFE, counted (countingProcess .win64) countingSession 0)
      (0x401012, counted (countingProcess .win64) countingSession 9) := by
  let program := counted (countingProcess .win64) countingSession
  have hload : load (program 0).mem 0x400FFE 2 = [0xFE, 0xC0] := by decide +kernel
  have hown : ∀ k, k < 2 → (0x400FFE + BitVec.ofNat _ k : Addr .win64)
      ∉ patchedBytes (countingProcess .win64) countingSession := by
    intro k hk
    refine countingSession_seen ?_
    unfold Outside InBlock
    revert k
    decide +kernel
  refine .step (stackProcessor_executes .win64 _ _ hload)
    ((stackProcessor_executes .win64).blind hload hown) ?_
  have horiginal : (incHook .win64).original (stackProcessor .win64) (program 1) (program 8) :=
    (WrittenHook.original_straight (executes_incs 7) incHook_orig).mpr ⟨by decide +kernel, rfl⟩
  have heffect : ((incHook .win64).detour (stackProcessor .win64) (countsOnce (incHook .win64))).effect
      (program 1) (program 9) := ⟨program 8, horiginal, rfl⟩
  refine .detour (D := (incHook .win64).detour (stackProcessor .win64) (countsOnce (incHook .win64)))
    ⟨_, Or.inl ⟨incHook .win64, rfl, rfl⟩, rfl⟩ heffect ?_
  rw [WrittenHook.detour, incHook_length]
  exact .detour (D := takenOut.patch.detour) ⟨takenOut.patch, Or.inr ⟨takenOut, rfl, rfl⟩, rfl⟩
    (rfl : NoEffect (program 9) (program 9)) (.refl _)

/-- One is counted before the hook, eight in it, and two no longer; and the data is there. -/
theorem patches_take_effect_counting :
    ∃ e', Reaches (stackProcessor .win64)
        (0x400FFE, ⟨⟨0x8000, 0⟩, (serveAll (countingProcess .win64) countingSession).mem⟩) (0x401012, e')
      ∧ e'.regs.al = 9 ∧ e'.mem 0x402000 = 0xC3 ∧ (incHook .win64).InPlace e'.mem
      ∧ takenOut.InPlace e'.mem := by
  have hhooks : ∀ h ∈ ({incHook .win64} : Set (WrittenHook .win64)), ∃ pre post,
      WrittenIn (countingProcess .win64) countingSession h.before h.call h.footprint pre post := by
    intro h hh
    obtain rfl := Set.mem_singleton_iff.mp hh
    exact ⟨_, _, incHook_written⟩
  have hnops : ∀ n ∈ ({takenOut} : Set (WrittenNops .win64)), ∃ pre post,
      WrittenIn (countingProcess .win64) countingSession n.before n.call n.footprint pre post := by
    intro n hn
    obtain rfl := Set.mem_singleton_iff.mp hn
    exact ⟨_, _, takenOut_written⟩
  have hmeans : ∀ h ∈ ({incHook .win64} : Set (WrittenHook .win64)), ∀ guarded,
      h.Means (stackProcessor .win64) (patchedBytes (countingProcess .win64) countingSession) guarded
        (countsOnce h) := by
    intro h hh guarded
    obtain rfl := Set.mem_singleton_iff.mp hh
    exact incHook_means _ guarded
  obtain ⟨e', hgo, hagree, hplace⟩ := patches_take_effect (stackProcessor_jumps .win64)
    (stackProcessor_skips .win64) hhooks hnops (fun _ hx => notMem_patchedBytes.mp hx)
    (fun h hh => hmeans h hh _) countingSession_run
  -- the data write is not among what was patched, so the program sees it
  have hdata : (0x402000 : Addr .win64) ∉ patchedBytes (countingProcess .win64) countingSession := by
    refine countingSession_seen ?_
    unfold Outside InBlock
    decide +kernel
  refine ⟨e', hgo, congrArg Registers.al hagree.regs.symm, ?_, hplace _ (Or.inl ⟨incHook .win64, rfl, rfl⟩),
    hplace _ (Or.inr ⟨takenOut, rfl, rfl⟩)⟩
  rw [← hagree.mem _ hdata]
  decide +kernel

end CommonLoader
