import CommonLoader.Proof.Scan
import CommonLoader.Proof.Transfer

/-!
# What `WriteASMHook` writes

The running pointer of the source writes a trampoline that is a body and a tail, and
then no-ops and a transfer over the displaced instructions. `HookLayout` says where
everything ends up, for a hook that is long enough and whose two blocks do not
overlap; the frame needs only the length.
-/

namespace CommonLoader

open ByteMemory CText

variable {b : Build}

/-! ## The displaced length -/

/-- The sizes of the instructions the disassembler finds at an address. -/
def decodedSizes (env : HookEnv b) (s : Loader b) (address : Addr b) : List UInt16 :=
  env.csDisasm (load s.mem address disasmWindow) address

/-- Bytes in a list of instructions. -/
def totalSize (sizes : List UInt16) : Nat := (sizes.map UInt16.toNat).sum

/-- The loop gets to the minimum exactly when the instructions do. -/
theorem hookLenLoop_min : ∀ (insn : List UInt16) (n : Nat), n < b.minHookLength →
    (b.minHookLength ≤ hookLenLoop b insn n ↔ b.minHookLength ≤ n + totalSize insn)
  | [], n, _ => Iff.rfl
  | size :: insn, n, h => by
      have htotal : n + totalSize (size :: insn) = n + size.toNat + totalSize insn := by
        unfold totalSize
        rw [List.map_cons, List.sum_cons, Nat.add_assoc]
      rw [hookLenLoop, htotal]
      split
      · rename_i hge
        exact ⟨fun _ => Nat.le_trans hge (Nat.le_add_right _ _), fun _ => hge⟩
      · rename_i hlt
        exact hookLenLoop_min insn _ (Nat.not_le.mp hlt)

theorem hookLenLoop_lt {most : Nat} : ∀ (insn : List UInt16) (n : Nat), n < b.minHookLength →
    (∀ size ∈ insn, size.toNat ≤ most) → hookLenLoop b insn n < b.minHookLength + most
  | [], n, h, _ => by rw [hookLenLoop]; omega
  | size :: insn, n, h, hmost => by
      have := hmost size (List.mem_cons_self ..)
      rw [hookLenLoop]
      split
      · omega
      · exact hookLenLoop_lt insn _ (by omega) fun s hs => hmost s (List.mem_cons_of_mem _ hs)

theorem hookLen_toNat (env : HookEnv b) (s : Loader b) (address : Addr b) :
    (hookLen env s address).toNat = hookLenLoop b (decodedSizes env s address) 0 := by
  have hmin := minHookLength_le b
  have hpos := minHookLength_pos b
  have hbits := b.pow_bits
  have hlt := hookLenLoop_lt (b := b) (decodedSizes env s address) 0 (by omega)
    fun size _ => Nat.le_of_lt size.toNat_lt
  unfold hookLen
  rw [BitVec.toNat_ofNat]
  exact Nat.mod_eq_of_lt (by unfold decodedSizes at hlt; omega)

/-- **Enough bytes are displaced exactly when enough were decoded.** -/
theorem hookLen_long_iff (env : HookEnv b) (s : Loader b) (address : Addr b) :
    b.minHookLength ≤ (hookLen env s address).toNat ↔
      b.minHookLength ≤ totalSize (decodedSizes env s address) := by
  have hpos := minHookLength_pos b
  rw [hookLen_toNat, hookLenLoop_min _ _ (by omega), Nat.zero_add]

/-! ## The pieces -/

/-- What the trampoline holds, for each behaviour. -/
def trampolineBody (behavior : BitVec 32) (code orig : Bytes) : Option Bytes :=
  if behavior = eHookBehaviorBefore then some (code ++ orig)
  else if behavior = eHookBehaviorAfter then some (orig ++ code)
  else if behavior = eHookBehaviorReplace then some code
  else none

/-- And how it ends, at `pos`. -/
def trampolineTail (parameter : BitVec 32) (pos target : Addr b) : Bytes :=
  if parameter = eHookParameterJump then transfer false pos target else [0xC3]

theorem length_trampolineTail (parameter : BitVec 32) (pos target : Addr b) :
    (trampolineTail parameter pos target).length ≤ b.minHookLength := by
  unfold trampolineTail
  split
  · rw [length_transfer]
  · exact Nat.le_trans (by decide) (minHookLength_pos b)

theorem trampolineBody_length {behavior : BitVec 32} {code orig body : Bytes}
    (h : trampolineBody behavior code orig = some body) :
    body.length ≤ code.length + orig.length := by
  unfold trampolineBody at h
  split at h
  · obtain rfl := Option.some.inj h
    rw [List.length_append]
  · split at h
    · obtain rfl := Option.some.inj h
      rw [List.length_append, Nat.add_comm]
    · split at h
      · obtain rfl := Option.some.inj h
        omega
      · cases h

theorem le_length_trampolineBody {behavior : BitVec 32} {code orig body : Bytes}
    (h : trampolineBody behavior code orig = some body) : code.length ≤ body.length := by
  unfold trampolineBody at h
  split at h
  · obtain rfl := Option.some.inj h
    rw [List.length_append]
    exact Nat.le_add_right _ _
  · split at h
    · obtain rfl := Option.some.inj h
      rw [List.length_append]
      exact Nat.le_add_left _ _
    · split at h
      · obtain rfl := Option.some.inj h
        exact Nat.le_refl _
      · cases h

variable {mem : Mem b.bits} {behavior parameter : BitVec 32} {pos address target : Addr b}
  {code body : Bytes} {hl : SizeT b}

theorem writeTail_eq : writeTail mem parameter pos target
    = store mem pos (trampolineTail parameter pos target) := by
  unfold writeTail trampolineTail
  cases b with
  | win32 =>
    dsimp only
    split
    · exact store_append (by rw [length_leBytes]; decide)
    · rfl
  | win64 =>
    dsimp only
    split
    · exact store_append (by rw [length_leBytes]; decide)
    · rfl

theorem writePatch_eq : writePatch mem parameter address target
    = store mem address (transfer (decide (parameter ≠ eHookParameterJump)) address target) := by
  have hop : ∀ x y : UInt8, (if parameter = eHookParameterJump then x else y)
      = if decide (parameter ≠ eHookParameterJump) = true then y else x := by
    intro x y
    by_cases h : parameter = eHookParameterJump
    · rw [if_pos h, if_neg (by simpa using h)]
    · rw [if_neg h, if_pos (by simpa using h)]
  unfold writePatch transfer
  cases b with
  | win32 =>
    dsimp only
    rw [hop]
    exact store_append (by rw [length_leBytes]; exact (by decide : 1 + 4 ≤ 2 ^ 32))
  | win64 =>
    dsimp only
    rw [hop]
    exact store_append (by rw [length_leBytes]; exact (by decide : 6 + 8 ≤ 2 ^ 64))

theorem writeNops_eq (h : address.toNat + hl.toNat < 2 ^ b.bits) :
    writeNops mem address hl = store mem address (List.replicate hl.toNat 0x90) := by
  unfold writeNops
  rw [BitVec.toNat_add, Nat.mod_eq_of_lt h, Nat.add_sub_cancel_left]

/-- **The body.** The displaced bytes are still there when they are copied. -/
theorem writeBody_eq (hap : Apart pos (code.length + hl.toNat) address hl.toNat)
    (hsize : code.length + hl.toNat ≤ 2 ^ b.bits)
    (hb : trampolineBody behavior code (load mem address hl.toNat) = some body) :
    writeBody mem behavior pos code address hl
      = some (store mem pos body, pos + BitVec.ofNat _ body.length) := by
  have hhl : hl = BitVec.ofNat _ hl.toNat := by rw [BitVec.ofNat_toNat, BitVec.setWidth_eq]
  unfold trampolineBody at hb
  unfold writeBody
  split at hb
  · rename_i hbehavior
    obtain rfl := Option.some.inj hb
    have horig : load (store mem pos code) address hl.toNat = load mem address hl.toNat :=
      load_store_apart (hap.symm.mono (Nat.le_refl _) (by omega)) (by omega)
    rw [if_pos hbehavior]
    dsimp only
    rw [horig, store_append (by rw [length_load]; exact hsize), List.length_append, length_load,
      ← add_add_ofNat, ← hhl]
  · rename_i hbefore
    rw [if_neg hbefore]
    split at hb
    · rename_i hbehavior
      obtain rfl := Option.some.inj hb
      have hstore : store (store mem pos (load mem address hl.toNat))
          (pos + BitVec.ofNat _ (load mem address hl.toNat).length) code = _ :=
        store_append (by rw [length_load]; omega)
      rw [length_load, ← hhl] at hstore
      rw [if_pos hbehavior]
      dsimp only
      rw [hstore, List.length_append, length_load, ← add_add_ofNat, ← hhl]
    · rename_i hafter
      rw [if_neg hafter]
      split at hb
      · rename_i hbehavior
        obtain rfl := Option.some.inj hb
        rw [if_pos hbehavior]
      · cases hb

theorem writeBody_eq_none :
    writeBody mem behavior pos code address hl = none ↔
      behavior ≠ eHookBehaviorBefore ∧ behavior ≠ eHookBehaviorAfter
        ∧ behavior ≠ eHookBehaviorReplace := by
  unfold writeBody
  split
  · rename_i h
    exact ⟨fun hn => (nomatch hn), fun hn => absurd h hn.1⟩
  · rename_i hbefore
    split
    · rename_i h
      exact ⟨fun hn => (nomatch hn), fun hn => absurd h hn.2.1⟩
    · rename_i hafter
      split
      · rename_i h
        exact ⟨fun hn => (nomatch hn), fun hn => absurd h hn.2.2⟩
      · rename_i hreplace
        exact ⟨fun _ => ⟨hbefore, hafter, hreplace⟩, fun _ => rfl⟩

/-- Wherever the blocks lie, the body stays within its own. -/
theorem writeBody_frame {mem' : Mem b.bits} {pos' x : Addr b}
    (h : writeBody mem behavior pos code address hl = some (mem', pos')) :
    ∃ n, n ≤ code.length + hl.toNat ∧ pos' = pos + BitVec.ofNat _ n
      ∧ (¬ InBlock pos (code.length + hl.toNat) x → mem' x = mem x) := by
  have hhl : hl = BitVec.ofNat _ hl.toNat := by rw [BitVec.ofNat_toNat, BitVec.setWidth_eq]
  have hfirst : ∀ {bs : Bytes} (m : Mem b.bits), bs.length ≤ code.length + hl.toNat →
      ¬ InBlock pos (code.length + hl.toNat) x → store m pos bs x = m x := by
    intro bs m hle hx
    exact store_outside fun hin => hx (Nat.lt_of_lt_of_le hin hle)
  have hsecond : ∀ {bs : Bytes} {p : Addr b} (m : Mem b.bits) (i : Nat),
      p = pos + BitVec.ofNat _ i → i + bs.length ≤ code.length + hl.toNat →
      ¬ InBlock pos (code.length + hl.toNat) x → store m p bs x = m x := by
    intro bs p m i hp hle hx
    exact store_outside fun hin => hx (inBlock_part (hp ▸ hin) hle)
  unfold writeBody at h
  split at h
  · obtain ⟨rfl, rfl⟩ := Prod.mk.inj (Option.some.inj h)
    refine ⟨code.length + hl.toNat, Nat.le_refl _, by rw [← add_add_ofNat, ← hhl], ?_⟩
    intro hx
    rw [hsecond _ _ rfl (by rw [length_load]) hx, hfirst _ (by omega) hx]
  · split at h
    · obtain ⟨rfl, rfl⟩ := Prod.mk.inj (Option.some.inj h)
      refine ⟨hl.toNat + code.length, by omega, by rw [← add_add_ofNat, ← hhl], ?_⟩
      intro hx
      rw [hsecond _ hl.toNat (by rw [← hhl]) (by omega) hx, hfirst _ (by rw [length_load]; omega) hx]
    · split at h
      · obtain ⟨rfl, rfl⟩ := Prod.mk.inj (Option.some.inj h)
        exact ⟨code.length, by omega, rfl, fun hx => hfirst _ (by omega) hx⟩
      · cases h

/-! ## The whole function -/

section Whole

variable {env : HookEnv b} {s : Loader b} {source : Bytes}

/-- The state after the report of the assembler's errors. -/
def reported (s : Loader b) (result : AssemblerResult b) : Loader b :=
  if result.errors ≠ [] then onError s result else s

/-- A report is kept with the states, and nowhere else. -/
theorem reported_eq (result : AssemblerResult b) :
    ∃ states, reported s result = { s with states } := by
  unfold reported onError
  split
  · exact setState_eq _ _
  · exact ⟨s.states, rfl⟩

@[simp] theorem reported_mem (result : AssemblerResult b) : (reported s result).mem = s.mem := by
  obtain ⟨states, h⟩ := reported_eq (s := s) result
  rw [h]

/-- With an unknown behaviour nothing is written. -/
theorem writeASMHook_unknown (h : behavior ≠ eHookBehaviorBefore ∧ behavior ≠ eHookBehaviorAfter
      ∧ behavior ≠ eHookBehaviorReplace) :
    writeASMHook env s source address behavior parameter
      = (false, reported s (compileHook env s source)) := by
  unfold writeASMHook
  dsimp only
  rw [writeBody_eq_none.mpr h]
  rfl

variable (parameter) in
/-- With a known one, the body comes first, then the tail, the no-ops and the patch. -/
theorem writeASMHook_known {mem : Mem b.bits} (h : writeBody s.mem behavior env.hookPtr
      (compileHook env s source).code address (hookLen env s address) = some (mem, pos)) :
    (writeASMHook env s source address behavior parameter).1 = true
      ∧ (writeASMHook env s source address behavior parameter).2.mem
        = writePatch (writeNops
            (writeTail mem parameter pos (address + hookLen env s address))
            address (hookLen env s address)) parameter address env.hookPtr
      ∧ (writeASMHook env s source address behavior parameter).2.states
        = (reported s (compileHook env s source)).states := by
  have hmem : (if (compileHook env s source).errors ≠ [] then onError s (compileHook env s source)
      else s).mem = s.mem := reported_mem _
  unfold writeASMHook
  dsimp only
  rw [hmem, h]
  exact ⟨rfl, rfl, rfl⟩

/--
**The frame.** A hook that displaces enough bytes writes only its trampoline and
these bytes, wherever the two lie.
-/
theorem writeASMHook_frame (hlong : b.minHookLength ≤ (hookLen env s address).toNat) {x : Addr b}
    (hx : ¬ InBlock env.hookPtr (trampolineSize env s source address) x)
    (hx' : ¬ InBlock address (hookLen env s address).toNat x) :
    (writeASMHook env s source address behavior parameter).2.mem x = s.mem x := by
  cases h : writeBody s.mem behavior env.hookPtr (compileHook env s source).code address
      (hookLen env s address) with
  | none =>
    rw [writeASMHook_unknown (writeBody_eq_none.mp h), reported_mem]
  | some r =>
    obtain ⟨mem, pos⟩ := r
    obtain ⟨n, hn, rfl, hbody⟩ := writeBody_frame (x := x) h
    have hnops : ((address + hookLen env s address).toNat - address.toNat)
        ≤ (hookLen env s address).toNat := by
      have := Nat.mod_le (address.toNat + (hookLen env s address).toNat) (2 ^ b.bits)
      rw [BitVec.toNat_add]
      omega
    have htail := length_trampolineTail parameter (env.hookPtr + BitVec.ofNat _ n)
      (address + hookLen env s address)
    unfold trampolineSize at hx
    -- from the last store back to the first
    rw [(writeASMHook_known parameter h).2.1, writePatch_eq, store_outside, writeNops, store_outside,
      writeTail_eq, store_outside, hbody]
    · exact fun hin => hx (Nat.lt_of_lt_of_le hin (by omega))
    · exact fun hin => hx (inBlock_part hin (by omega))
    · rw [List.length_replicate]
      exact fun hin => hx' (Nat.lt_of_lt_of_le hin hnops)
    · rw [length_transfer]
      exact fun hin => hx' (Nat.lt_of_lt_of_le hin hlong)

/--
A place for a hook: enough bytes are displaced, they end below the top of the
address space, and the block the allocator returned lies elsewhere.
-/
structure Installable (env : HookEnv b) (s : Loader b) (source : Bytes) (address : Addr b) : Prop where
  long : b.minHookLength ≤ (hookLen env s address).toNat
  below : address.toNat + (hookLen env s address).toNat < 2 ^ b.bits
  apart : Apart env.hookPtr (trampolineSize env s source address) address
    (hookLen env s address).toNat

theorem Installable.size (h : Installable env s source address) :
    trampolineSize env s source address ≤ 2 ^ b.bits := by
  have hpos := minHookLength_pos b
  have hlong := h.long
  exact h.apart.le_pow (by omega)

/-- Where the pieces of a hook are: the body of the trampoline, its tail, the patch. -/
structure HookLayout (env : HookEnv b) (s : Loader b) (address : Addr b)
    (parameter : BitVec 32) (content : Bytes) (mem : Mem b.bits) : Prop where
  body : load mem env.hookPtr content.length = content
  tail : load mem (env.hookPtr + BitVec.ofNat _ content.length)
      (trampolineTail parameter (env.hookPtr + BitVec.ofNat _ content.length)
        (address + hookLen env s address)).length
    = trampolineTail parameter (env.hookPtr + BitVec.ofNat _ content.length)
        (address + hookLen env s address)
  patch : load mem address b.minHookLength
    = transfer (decide (parameter ≠ eHookParameterJump)) address env.hookPtr
  nops : ∀ i, b.minHookLength ≤ i → i < (hookLen env s address).toNat →
    mem (address + BitVec.ofNat _ i) = 0x90

variable (parameter) in
/-- **The trampoline holds its body and its tail**, if the overwritten bytes lie apart from it. -/
theorem writeASMHook_trampoline
    (hap : Apart env.hookPtr (trampolineSize env s source address) address
      (max (hookLen env s address).toNat b.minHookLength))
    (hb : trampolineBody behavior (compileHook env s source).code
      (load s.mem address (hookLen env s address).toNat) = some body) :
    (writeASMHook env s source address behavior parameter).1 = true
      ∧ load (writeASMHook env s source address behavior parameter).2.mem env.hookPtr body.length
        = body
      ∧ load (writeASMHook env s source address behavior parameter).2.mem
          (env.hookPtr + BitVec.ofNat _ body.length)
          (trampolineTail parameter (env.hookPtr + BitVec.ofNat _ body.length)
            (address + hookLen env s address)).length
        = trampolineTail parameter (env.hookPtr + BitVec.ofNat _ body.length)
            (address + hookLen env s address) := by
  have hpos := minHookLength_pos b
  have hsize := hap.le_pow (by omega)
  have hblen := trampolineBody_length hb
  rw [length_load] at hblen
  have hblock : body.length + b.minHookLength ≤ trampolineSize env s source address := by
    unfold trampolineSize; omega
  have htail := length_trampolineTail parameter (env.hookPtr + BitVec.ofNat _ body.length)
    (address + hookLen env s address)
  have hbody := writeBody_eq (hap.mono (by unfold trampolineSize; omega) (Nat.le_max_left _ _))
    (by unfold trampolineSize at hsize; omega) hb
  obtain ⟨htrue, hmem, _⟩ := writeASMHook_known parameter hbody
  rw [writeTail_eq, store_append (by omega), writeNops, writePatch_eq] at hmem
  have hnops : ((address + hookLen env s address).toNat - address.toNat)
      ≤ (hookLen env s address).toNat := by
    have := Nat.mod_le (address.toNat + (hookLen env s address).toNat) (2 ^ b.bits)
    rw [BitVec.toNat_add]
    omega
  -- neither store at the target reaches the trampoline
  have hfar : ∀ {a : Addr b} {n : Nat} (m : Mem b.bits), n ≤ 2 ^ b.bits →
      Apart a n address (max (hookLen env s address).toNat b.minHookLength) →
      load (store (store m address (List.replicate
          ((address + hookLen env s address).toNat - address.toNat) 0x90)) address
        (transfer (decide (parameter ≠ eHookParameterJump)) address env.hookPtr)) a n = load m a n := by
    intro a n m hn hap
    rw [load_store_apart (hap.mono (Nat.le_refl _) (by rw [length_transfer]; omega)) hn,
      load_store_apart (hap.mono (Nat.le_refl _) (by rw [List.length_replicate]; omega)) hn]
  obtain ⟨hw1, hw2⟩ := load_append body (trampolineTail parameter
      (env.hookPtr + BitVec.ofNat _ body.length) (address + hookLen env s address)) (by
    rw [← List.length_append]
    exact load_store (m := s.mem) (a := env.hookPtr) (by rw [List.length_append]; omega))
  refine ⟨htrue, ?_, ?_⟩
  · rw [hmem, hfar _ (by omega) (hap.mono (by omega) (Nat.le_refl _)), hw1]
  · rw [hmem, hfar _ (by omega) (hap.part hsize (by omega)), hw2]

variable (parameter) in
/-- **Where `WriteASMHook` puts the pieces.** -/
theorem writeASMHook_layout (h : Installable env s source address)
    (hb : trampolineBody behavior (compileHook env s source).code
      (load s.mem address (hookLen env s address).toNat) = some body) :
    (writeASMHook env s source address behavior parameter).1 = true
      ∧ HookLayout env s address parameter body
        (writeASMHook env s source address behavior parameter).2.mem := by
  have hlong := h.long
  have hbelow := h.below
  have hsize := h.size
  obtain ⟨htrue, hbody, htail⟩ := writeASMHook_trampoline parameter
    (by rw [Nat.max_eq_left hlong]; exact h.apart) hb
  have hknown := writeBody_eq (h.apart.mono (by unfold trampolineSize; omega) (Nat.le_refl _))
    (by unfold trampolineSize at hsize; omega) hb
  have hmem := (writeASMHook_known parameter hknown).2.1
  rw [writeNops_eq hbelow, writePatch_eq] at hmem
  refine ⟨htrue, ⟨hbody, htail, ?_, ?_⟩⟩
  · rw [hmem, ← length_transfer (decide (parameter ≠ eHookParameterJump)) address env.hookPtr]
    exact load_store (by rw [length_transfer]; omega)
  · intro i hi hlt
    have hout : ¬ InBlock address
        (transfer (decide (parameter ≠ eHookParameterJump)) address env.hookPtr).length
        (address + BitVec.ofNat _ i) := by
      unfold InBlock
      rw [length_transfer, toNat_add_sub (by omega)]
      omega
    rw [hmem, store_outside hout,
      store_add (by rw [List.length_replicate]; exact hlt) (by rw [List.length_replicate]; omega),
      List.getElem_replicate]

end Whole

end CommonLoader
