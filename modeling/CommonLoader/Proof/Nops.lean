import CommonLoader.Model.HookService

/-!
# Overwriting instructions

`NopInstructions` asks the disassembler for sixteen bytes an instruction, and adds up
as many sizes as it was asked for, however many it got. It gets enough when so many
instructions decode and fit in the window; and the window is a 32-bit product.
-/

namespace CommonLoader

open ByteMemory CText

variable {b : Build} {w : Nat}

/-! ## A linear sweep -/

/--
The sizes of the instructions from `a` on, up to the first that does not decode or
does not fit in the `n` bytes that are left. Each takes a byte at least, so `n` is
fuel enough.
-/
def sweep (sizeAt : BitVec w → Option UInt16) : Nat → BitVec w → Nat → List UInt16
  | 0, _, _ => []
  | fuel + 1, a, n =>
      match sizeAt a with
      | none => []
      | some k =>
          if k.toNat ≤ n then k :: sweep sizeAt fuel (a + BitVec.ofNat w k.toNat) (n - k.toNat)
          else []

/-- The bytes of the first `count` instructions from `a` on, if they all decode. -/
def extent (sizeAt : BitVec w → Option UInt16) : Nat → BitVec w → Option Nat
  | 0, _ => some 0
  | count + 1, a =>
      match sizeAt a with
      | none => none
      | some k => (extent sizeAt count (a + BitVec.ofNat w k.toNat)).map (k.toNat + ·)

section Sweep

variable {sizeAt : BitVec w → Option UInt16} {a : BitVec w} {n : Nat} {k : UInt16}

/-- A sweep ends at what does not decode or does not fit. -/
theorem sweep_nil (h : ∀ k, sizeAt a = some k → n < k.toNat) (fuel : Nat) :
    sweep sizeAt fuel a n = [] := by
  cases fuel with
  | zero => rfl
  | succ fuel =>
    rw [sweep]
    split
    · rfl
    · rename_i k hk
      exact if_neg (Nat.not_le.mpr (h k hk))

theorem sweep_cons (hk : sizeAt a = some k) (hn : k.toNat ≤ n) (fuel : Nat) :
    sweep sizeAt (fuel + 1) a n
      = k :: sweep sizeAt fuel (a + BitVec.ofNat w k.toNat) (n - k.toNat) := by
  rw [sweep, hk]
  exact if_pos hn

variable (sizeAt a n) in
/-- A sweep either ends at once or goes on behind the first instruction. -/
theorem sweep_cases (fuel : Nat) :
    ((∀ k, sizeAt a = some k → n < k.toNat) ∧ sweep sizeAt (fuel + 1) a n = [])
      ∨ ∃ size, sizeAt a = some size ∧ size.toNat ≤ n ∧ sweep sizeAt (fuel + 1) a n
        = size :: sweep sizeAt fuel (a + BitVec.ofNat w size.toNat) (n - size.toNat) := by
  by_cases h : ∃ size, sizeAt a = some size ∧ size.toNat ≤ n
  · obtain ⟨size, hsize, hfits⟩ := h
    exact Or.inr ⟨size, hsize, hfits, sweep_cons hsize hfits fuel⟩
  · have hlong : ∀ k, sizeAt a = some k → n < k.toNat := fun k hk =>
      Nat.not_le.mp fun hfits => h ⟨k, hk, hfits⟩
    exact Or.inl ⟨hlong, sweep_nil hlong _⟩

theorem extent_succ (hk : sizeAt a = some k) (count : Nat) :
    extent sizeAt (count + 1) a
      = (extent sizeAt count (a + BitVec.ofNat w k.toNat)).map (k.toNat + ·) := by
  rw [extent, hk]

end Sweep

/-- The sizes a sweep finds are those of consecutive instructions inside the window. -/
theorem sum_sweep_le (sizeAt : BitVec w → Option UInt16) : ∀ (fuel : Nat) (a : BitVec w) (n : Nat),
    ((sweep sizeAt fuel a n).map UInt16.toNat).sum ≤ n := by
  intro fuel
  induction fuel with
  | zero =>
    intro _ _
    exact Nat.zero_le _
  | succ fuel ih =>
    intro a n
    rcases sweep_cases sizeAt a n fuel with ⟨_, hnil⟩ | ⟨k, _, hk, hcons⟩
    · rw [hnil]
      exact Nat.zero_le _
    · have ih := ih (a + BitVec.ofNat w k.toNat) (n - k.toNat)
      rw [hcons, List.map_cons, List.sum_cons]
      omega

/-- **How many a sweep finds**: `count` at least, if so many decode and fit. -/
theorem le_length_sweep {sizeAt : BitVec w → Option UInt16}
    (hpos : ∀ a k, sizeAt a = some k → 1 ≤ k.toNat) :
    ∀ (count fuel : Nat) (a : BitVec w) (n : Nat), n ≤ fuel →
      (count ≤ (sweep sizeAt fuel a n).length ↔ ∃ t, extent sizeAt count a = some t ∧ t ≤ n) := by
  intro count
  induction count with
  | zero =>
    intro _ _ n _
    exact ⟨fun _ => ⟨0, rfl, Nat.zero_le n⟩, fun _ => Nat.zero_le _⟩
  | succ count ih =>
    intro fuel a n hf
    cases hk : sizeAt a with
    | none =>
      rw [sweep_nil (by simp [hk]), extent, hk]
      simp
    | some k =>
      have h1 := hpos a k hk
      rw [extent_succ hk]
      by_cases hn : k.toNat ≤ n
      · obtain ⟨fuel, rfl⟩ : ∃ m, fuel = m + 1 := ⟨fuel - 1, by omega⟩
        rw [sweep_cons hk hn, List.length_cons, Nat.add_le_add_iff_right,
          ih fuel (a + BitVec.ofNat w k.toNat) (n - k.toNat) (by omega)]
        cases extent sizeAt count (a + BitVec.ofNat w k.toNat) with
        | none => simp
        | some t =>
          simp only [Option.map_some, Option.some_inj, exists_eq_left']
          omega
      · -- the first one does not fit, and the sum of all of them even less
        have hlong : ∀ k', sizeAt a = some k' → n < k'.toNat := by
          intro k' hk'
          obtain rfl := Option.some.inj (hk.symm.trans hk')
          exact Nat.not_le.mp hn
        rw [sweep_nil hlong]
        cases extent sizeAt count (a + BitVec.ofNat w k.toNat) with
        | none => simp
        | some t =>
          simp only [Option.map_some, Option.some_inj, exists_eq_left', List.length_nil]
          omega

theorem extent_le {sizeAt : BitVec w → Option UInt16} {most : Nat}
    (hmost : ∀ a k, sizeAt a = some k → k.toNat ≤ most) :
    ∀ (count : Nat) (a : BitVec w) (t : Nat), extent sizeAt count a = some t → t ≤ most * count := by
  intro count
  induction count with
  | zero =>
    intro _ t h
    obtain rfl : 0 = t := Option.some.inj h
    exact Nat.zero_le _
  | succ count ih =>
    intro a t h
    cases hk : sizeAt a with
    | none =>
      rw [extent, hk] at h
      cases h
    | some k =>
      rw [extent, hk] at h
      obtain ⟨t', ht', rfl⟩ := Option.map_eq_some_iff.mp h
      have h1 := hmost a k hk
      have ih := ih _ t' ht'
      rw [Nat.mul_succ]
      omega

/-- What the first `count` entries of a sweep add up to, if so many decode and fit. -/
theorem sum_take_sweep {sizeAt : BitVec w → Option UInt16} : ∀ (count fuel : Nat) (a : BitVec w)
    (n t : Nat), (∀ a k, sizeAt a = some k → 1 ≤ k.toNat) → n ≤ fuel →
    extent sizeAt count a = some t → t ≤ n →
    (((sweep sizeAt fuel a n).take count).map UInt16.toNat).sum = t := by
  intro count
  induction count with
  | zero =>
    intro _ _ _ _ _ _ h _
    rw [List.take_zero]
    exact Option.some.inj h
  | succ count ih =>
    intro fuel a n t hpos hf h hfits
    cases hk : sizeAt a with
    | none =>
      rw [extent, hk] at h
      cases h
    | some k =>
      rw [extent_succ hk] at h
      obtain ⟨t', ht', rfl⟩ := Option.map_eq_some_iff.mp h
      have h1 := hpos a k hk
      obtain ⟨fuel, rfl⟩ : ∃ m, fuel = m + 1 := ⟨fuel - 1, by omega⟩
      rw [sweep_cons hk (by omega), List.take_succ_cons, List.map_cons, List.sum_cons,
        ih fuel _ (n - k.toNat) t' hpos (by omega) ht' (by omega)]

/-! ## The disassembler -/

/-- A disassembler: the instruction at an address of a memory, and the sweep through a window. -/
structure Disassembler (b : Build) where
  csDisasm : Bytes → Addr b → List UInt16
  sizeAt : Mem b.bits → Addr b → Option UInt16
  sizes : ∀ mem a k, sizeAt mem a = some k → 1 ≤ k.toNat ∧ k.toNat ≤ 15
  window : ∀ mem a n, csDisasm (load mem a n) a = sweep (sizeAt mem) n a n

/-! ## A disassembler from a table -/

/-- The bytes that tell an instruction from others, and how many it has. -/
structure Opcode where
  bytes : Bytes
  size : UInt16
deriving DecidableEq

/-- Instructions of a byte at least and of fifteen at most, of which no two begin alike. -/
structure OpcodeTable where
  opcodes : List Opcode
  sizes : ∀ o ∈ opcodes, 1 ≤ o.size.toNat ∧ o.size.toNat ≤ 15 ∧ o.bytes.length ≤ o.size.toNat
  separate : ∀ o ∈ opcodes, ∀ o' ∈ opcodes, o.bytes <+: o'.bytes → o = o'

namespace OpcodeTable

variable (table : OpcodeTable) {code : Bytes} {k : UInt16} {n : Nat}

/-- The size of the instruction that some bytes begin with. -/
def insnSize (code : Bytes) : Option UInt16 :=
  (table.opcodes.find? fun o => o.bytes.isPrefixOf code && decide (o.size.toNat ≤ code.length)).map
    Opcode.size

/-- One after the other, as long as they are in the table. -/
def decode : Nat → Bytes → List UInt16
  | 0, _ => []
  | fuel + 1, code =>
      match table.insnSize code with
      | none => []
      | some k => k :: decode fuel (code.drop k.toNat)

/-- The instruction at an address; fifteen bytes tell every one. -/
def sizeAt (mem : Mem b.bits) (a : Addr b) : Option UInt16 := table.insnSize (load mem a 15)

theorem insnSize_eq_some : table.insnSize code = some k
    ↔ ∃ o ∈ table.opcodes, o.bytes <+: code ∧ o.size = k ∧ k.toNat ≤ code.length := by
  unfold insnSize
  rw [Option.map_eq_some_iff]
  refine ⟨?_, ?_⟩
  · rintro ⟨o, hfind, rfl⟩
    have ho := List.find?_some hfind
    rw [Bool.and_eq_true, decide_eq_true_eq, List.isPrefixOf_iff_prefix] at ho
    exact ⟨o, List.mem_of_find?_eq_some hfind, ho.1, rfl, ho.2⟩
  · rintro ⟨o, hmem, hbegins, rfl, hfits⟩
    have hsome : (table.opcodes.find? fun o =>
        o.bytes.isPrefixOf code && decide (o.size.toNat ≤ code.length)).isSome := by
      rw [List.find?_isSome]
      refine ⟨o, hmem, ?_⟩
      rw [Bool.and_eq_true, decide_eq_true_eq, List.isPrefixOf_iff_prefix]
      exact ⟨hbegins, hfits⟩
    obtain ⟨o', hfind⟩ := Option.isSome_iff_exists.mp hsome
    have ho' := List.find?_some hfind
    rw [Bool.and_eq_true, decide_eq_true_eq, List.isPrefixOf_iff_prefix] at ho'
    have hmem' := List.mem_of_find?_eq_some hfind
    -- both begin the same bytes, so one of them begins the other
    rcases List.prefix_or_prefix_of_prefix hbegins ho'.1 with h | h
    · exact ⟨o', hfind, congrArg _ (table.separate o hmem o' hmem' h).symm⟩
    · exact ⟨o', hfind, congrArg _ (table.separate o' hmem' o hmem h)⟩

theorem insnSize_bounds (h : table.insnSize code = some k) :
    1 ≤ k.toNat ∧ k.toNat ≤ 15 ∧ k.toNat ≤ code.length := by
  obtain ⟨o, hmem, _, rfl, hfits⟩ := table.insnSize_eq_some.mp h
  obtain ⟨hpos, hle, _⟩ := table.sizes o hmem
  exact ⟨hpos, hle, hfits⟩

/-- Cut short, some bytes begin with the same instruction, or with none. -/
theorem insnSize_take :
    table.insnSize (code.take n) = some k ↔ table.insnSize code = some k ∧ k.toNat ≤ n := by
  rw [insnSize_eq_some, insnSize_eq_some]
  refine ⟨?_, ?_⟩
  · rintro ⟨o, hmem, hbegins, rfl, hfits⟩
    rw [List.length_take, Nat.le_min] at hfits
    exact ⟨⟨o, hmem, (List.prefix_take_iff.mp hbegins).1, rfl, hfits.2⟩, hfits.1⟩
  · rintro ⟨⟨o, hmem, hbegins, rfl, hfits⟩, hn⟩
    have hlen := (table.sizes o hmem).2.2
    refine ⟨o, hmem, List.prefix_take_iff.mpr ⟨hbegins, Nat.le_trans hlen hn⟩, rfl, ?_⟩
    rw [List.length_take]
    exact Nat.le_min.mpr ⟨hn, hfits⟩

/-- In a window there is the instruction that lies there, if it fits. -/
theorem insnSize_load (mem : Mem b.bits) (a : Addr b) :
    table.insnSize (load mem a n) = some k ↔ table.sizeAt mem a = some k ∧ k.toNat ≤ n := by
  unfold sizeAt
  rw [← load_take (Nat.le_max_left n 15), ← load_take (Nat.le_max_right n 15), insnSize_take,
    insnSize_take, and_assoc]
  refine and_congr_right fun hk => ?_
  have hle := (table.insnSize_bounds hk).2.1
  exact ⟨fun hn => ⟨hle, hn⟩, fun h => h.2⟩

theorem decode_load (mem : Mem b.bits) : ∀ (fuel : Nat) (a : Addr b) (n : Nat),
    table.decode fuel (load mem a n) = sweep (table.sizeAt mem) fuel a n := by
  intro fuel
  induction fuel with
  | zero => intro _ _; rfl
  | succ fuel ih =>
    intro a n
    rcases sweep_cases (table.sizeAt mem) a n fuel with ⟨hlong, hnil⟩ | ⟨k, hk, hfits, hcons⟩
    · have hnone : table.insnSize (load mem a n) = none := by
        refine Option.eq_none_iff_forall_ne_some.mpr fun k hk => ?_
        obtain ⟨hk, hfits⟩ := (table.insnSize_load mem a).mp hk
        exact absurd hfits (Nat.not_le.mpr (hlong k hk))
      rw [hnil, decode, hnone]
    · have hsome := (table.insnSize_load mem a).mpr ⟨hk, hfits⟩
      rw [hcons, decode, hsome]
      dsimp only
      rw [load_drop hfits, ih]

/-- The disassembler that knows the instructions of a table. -/
def disassembler (b : Build) : Disassembler b where
  csDisasm := fun code _ => table.decode code.length code
  sizeAt := table.sizeAt
  sizes := fun _ _ _ hk => ⟨(table.insnSize_bounds hk).1, (table.insnSize_bounds hk).2.1⟩
  window := fun mem a n => by rw [length_load]; exact table.decode_load mem n a n

end OpcodeTable

/-! ## The size loop -/

theorem nopLenLoop_eq (size : Nat → UInt16) : ∀ (left i : Nat) (nopLen : SizeT b),
    nopLenLoop size left i nopLen
      = (nopLen + BitVec.ofNat _ ((List.range' i left).map fun k => (size k).toNat).sum,
          List.range' i left) := by
  intro left
  induction left with
  | zero =>
    intro _ nopLen
    simp [nopLenLoop]
  | succ left ih =>
    intro i nopLen
    unfold nopLenLoop
    dsimp only
    rw [ih (i + 1), List.range'_succ, List.map_cons, List.sum_cons,
      BitVec.ofNat_add, BitVec.add_assoc]

/-- Inside the array, the loop adds up its first entries. -/
theorem nopLenLoop_inside {insn : List UInt16} (beyond : Nat → UInt16) {count : Nat}
    (h : count ≤ insn.length) :
    (nopLenLoop (fun i => (insn[i]?).getD (beyond i)) count 0 (0 : SizeT b)).1
      = BitVec.ofNat _ ((insn.take count).map UInt16.toNat).sum := by
  have hentries : (List.range' 0 count).map (fun i => ((insn[i]?).getD (beyond i)).toNat)
      = (insn.take count).map UInt16.toNat := by
    refine List.ext_getElem (by simp [h]) fun i hi _ => ?_
    have hi' : i < insn.length := by simp at hi; omega
    simp [List.getElem?_eq_getElem hi']
  rw [nopLenLoop_eq, hentries]
  exact BitVec.zero_add _

/-! ## `NopInstructions` -/

/-- The entries `NopInstructions` gets. -/
def Disassembler.insn (d : Disassembler b) (s : Loader b) (address : Addr b) (count : BitVec 32) :
    List UInt16 := d.csDisasm (load s.mem address (16 * count).toNat) address

/-- The instructions that were asked for decode, and fit in the window. -/
def Disassembler.Fits (d : Disassembler b) (s : Loader b) (address : Addr b) (count : BitVec 32) :
    Prop := ∃ t, extent (d.sizeAt s.mem) count.toNat address = some t ∧ t ≤ (16 * count).toNat

/-- What the function is for: the first `count` instructions and nothing else, inside the array. -/
structure NopsExactly (d : Disassembler b) (s : Loader b) (address : Addr b) (count : BitVec 32)
    (r : NopResult b) : Prop where
  reads : ∀ i ∈ r.reads, i < (d.insn s address count).length
  length : r.length.toNat = (((d.insn s address count).take
    (min count.toNat (d.insn s address count).length)).map UInt16.toNat).sum
  nops : ∀ x, InBlock address r.length.toNat x → r.loader.mem x = 0x90
  frame : ∀ x, ¬ InBlock address r.length.toNat x → r.loader.mem x = s.mem x
  enough : (extent (d.sizeAt s.mem) count.toNat address).isSome →
    count.toNat ≤ (d.insn s address count).length

theorem Disassembler.fits_iff (d : Disassembler b) (s : Loader b) (address : Addr b)
    (count : BitVec 32) : d.Fits s address count ↔ count.toNat ≤ (d.insn s address count).length := by
  unfold Disassembler.Fits Disassembler.insn
  rw [d.window]
  exact (le_length_sweep (fun a k h => (d.sizes s.mem a k h).1) _ _ _ _ (Nat.le_refl _)).symm

theorem nopInstructions_reads (d : Disassembler b) (beyond : Nat → UInt16) (s : Loader b)
    (address : Addr b) (count : BitVec 32) :
    (nopInstructions d.csDisasm beyond s address count).reads = List.range' 0 count.toNat := by
  unfold nopInstructions
  dsimp only
  rw [nopLenLoop_eq]

/-- Enough entries make the length what they add up to, and it is the length of the store. -/
theorem nopInstructions_inside {d : Disassembler b} {s : Loader b} {address : Addr b}
    {count : BitVec 32} (beyond : Nat → UInt16) (h : count.toNat ≤ (d.insn s address count).length) :
    (nopInstructions d.csDisasm beyond s address count).length.toNat
        = (((d.insn s address count).take count.toNat).map UInt16.toNat).sum
      ∧ (nopInstructions d.csDisasm beyond s address count).loader.mem
        = store s.mem address (List.replicate
            (nopInstructions d.csDisasm beyond s address count).length.toNat 0x90) := by
  have hsum : (((d.insn s address count).take count.toNat).map UInt16.toNat).sum < 2 ^ 32 := by
    have hall := sum_sweep_le (d.sizeAt s.mem) (16 * count).toNat address (16 * count).toNat
    rw [← d.window, ← List.take_append_drop count.toNat (d.csDisasm _ _), List.map_append,
      List.sum_append] at hall
    exact Nat.lt_of_le_of_lt (Nat.le_trans (Nat.le_add_right _ _) hall) (BitVec.isLt _)
  have hnop := @nopLenLoop_inside b _ beyond _ h
  have hlong : (BitVec.ofNat b.bits
      (((d.insn s address count).take count.toNat).map UInt16.toNat).sum).toNat
        = (((d.insn s address count).take count.toNat).map UInt16.toNat).sum := by
    rw [BitVec.toNat_ofNat, Nat.mod_eq_of_lt (Nat.lt_of_lt_of_le hsum b.pow_bits)]
  have hlen : (nopInstructions d.csDisasm beyond s address count).length.toNat
      = (((d.insn s address count).take count.toNat).map UInt16.toNat).sum := by
    unfold nopInstructions
    dsimp only
    rw [show d.csDisasm _ address = d.insn s address count from rfl, hnop, BitVec.toNat_setWidth,
      hlong, Nat.mod_eq_of_lt hsum]
  refine ⟨hlen, ?_⟩
  rw [hlen]
  unfold nopInstructions
  dsimp only
  rw [show d.csDisasm _ address = d.insn s address count from rfl, hnop, hlong]

/--
**When `NopInstructions` does what it is for**: when the instructions it is asked for
decode and take no more than `16 * count` bytes, modulo `2^32`.
-/
theorem nopInstructions_exactly (d : Disassembler b) (beyond : Nat → UInt16) (s : Loader b)
    (address : Addr b) (count : BitVec 32) :
    NopsExactly d s address count (nopInstructions d.csDisasm beyond s address count) ↔
      d.Fits s address count := by
  rw [d.fits_iff]
  refine ⟨?_, ?_⟩
  · intro h
    rcases Nat.eq_zero_or_pos count.toNat with h0 | hpos
    · omega
    · -- the last entry that is read
      have hlast := h.reads (count.toNat - 1) (by
        rw [nopInstructions_reads, List.mem_range'_1]
        omega)
      omega
  · intro h
    obtain ⟨hlen, hmem⟩ := nopInstructions_inside beyond h
    refine ⟨?_, ?_, ?_, ?_, fun _ => h⟩
    · intro i hi
      rw [nopInstructions_reads, List.mem_range'_1] at hi
      omega
    · rw [hlen, Nat.min_eq_left h]
    · intro x hx
      rw [hmem, store_inside (by rw [List.length_replicate]; exact hx), List.getElem_replicate]
    · intro x hx
      rw [hmem]
      exact store_outside (by rw [List.length_replicate]; exact hx)

/-- Below `2^28` the product does not wrap, and what decodes also fits. -/
theorem Disassembler.fits_of_small {d : Disassembler b} {s : Loader b} {address : Addr b}
    {count : BitVec 32} (hcount : count.toNat < 2 ^ 28) :
    d.Fits s address count ↔ (extent (d.sizeAt s.mem) count.toNat address).isSome := by
  have hwindow : (16 * count).toNat = 16 * count.toNat := by
    rw [BitVec.toNat_mul, show (16 : BitVec 32).toNat = 16 from rfl, Nat.mod_eq_of_lt (by omega)]
  unfold Disassembler.Fits
  rw [Option.isSome_iff_exists, hwindow]
  refine exists_congr fun t => and_iff_left_of_imp ?_
  intro ht
  have := extent_le (fun a k h => (d.sizes s.mem a k h).2) _ _ _ ht
  omega

/-- A disassembler that knows `NOP` only. -/
def nopOnly (b : Build) : Disassembler b where
  csDisasm := fun code _ => (code.takeWhile (· = 0x90)).map fun _ => 1
  sizeAt := fun mem a => if mem a = 0x90 then some 1 else none
  sizes := by
    intro mem a k h
    split at h
    · obtain rfl := Option.some.inj h
      decide
    · cases h
  window := by
    intro mem a n
    induction n generalizing a with
    | zero => rfl
    | succ n ih =>
      have hload : load mem a (n + 1) = mem a :: load mem (a + 1) n := by
        rw [Nat.add_comm, load_add]
        simp [load]
      rw [hload, sweep]
      by_cases ha : mem a = 0x90
      · have := ih (a + 1)
        rw [if_pos ha, List.takeWhile_cons_of_pos (by simpa using ha), List.map_cons, this]
        rfl
      · rw [if_neg ha, List.takeWhile_cons_of_neg (by simpa using ha)]
        rfl

/-- One `NOP` at `0x401000`, and then `0x06`, which is no instruction in 64 bits. -/
def oneNop : Loader .win64 :=
  Loader.start ⟨0x400000, 0x2000⟩ (store (fun _ => 0) 0x401000 [0x90, 0x06]) (fun _ => 0x40)
    (fun _ => none)

/-- **The second size is read from behind the array**, and decides how much is overwritten. -/
theorem nopInstructions_beyond :
    ¬ NopsExactly (nopOnly .win64) oneNop 0x401000 2
        (nopInstructions (nopOnly .win64).csDisasm (fun _ => 0xFF) oneNop 0x401000 2)
      ∧ ((nopOnly .win64).insn oneNop 0x401000 2).length = 1
      ∧ (nopInstructions (nopOnly .win64).csDisasm (fun _ => 0xFF) oneNop 0x401000 2).reads = [0, 1]
      ∧ (nopInstructions (nopOnly .win64).csDisasm (fun _ => 0xFF) oneNop 0x401000 2).length
        = 0x100 := by
  have hinsn : ((nopOnly .win64).insn oneNop 0x401000 2).length = 1 := by decide +kernel
  refine ⟨?_, hinsn, by decide +kernel, by decide +kernel⟩
  intro h
  have := h.reads 1 (by decide +kernel)
  rw [hinsn] at this
  exact absurd this (by decide)

end CommonLoader
