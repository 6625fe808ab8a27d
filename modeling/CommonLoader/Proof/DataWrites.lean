import CommonLoader.Lib.LastWins
import CommonLoader.Proof.Session

/-!
# What is read after a session

To a mod the memory is a map from addresses to bytes. Outside of what a session patched, a
read finds at every address the last byte that was written there through the provider, of
all the writes that it let through, or else what was there before the session.
-/

namespace CommonLoader

open ByteMemory CText LastWins

variable {b : Build} {s : Loader b} {w : Nat}

/-- A string at an address, byte by byte. -/
def bindings : BitVec w → Bytes → List (BitVec w × UInt8)
  | _, [] => []
  | a, c :: data => (a, c) :: bindings (a + 1) data

/-- **A store is its bindings**, if it does not come round. -/
theorem store_eq_last : ∀ {m : Mem w} {a x : BitVec w} (data : Bytes), data.length ≤ 2 ^ w →
    store m a data x = (last x (bindings a data)).getD (m x)
  | m, a, x, [], _ => rfl
  | m, a, x, c :: data, hlen => by
    rw [List.length_cons] at hlen
    have hone : store m a [c] x = if a = x then c else m x := by
      by_cases hx : a = x
      · subst hx
        have hzero := @store_add w m a [c] 0 Nat.one_pos (by rw [List.length_singleton]; omega)
        rw [BitVec.add_zero] at hzero
        rw [if_pos rfl, hzero]
        rfl
      · rw [if_neg hx, store_outside]
        intro hin
        obtain ⟨k, hk, rfl⟩ := (inBlock_iff (by rw [List.length_singleton]; omega)).mp hin
        obtain rfl : k = 0 := Nat.lt_one_iff.mp hk
        exact hx (BitVec.add_zero a).symm
    -- the first byte, and then the rest one address further; nothing comes round to it
    have hsplit : store m a (c :: data) = store (store m a [c]) (a + 1) data :=
      (@store_append w m a [c] data (by rw [List.length_singleton]; omega)).symm
    rw [hsplit, store_eq_last data (by omega), hone, bindings, last]
    cases last x (bindings (a + 1) data) with
    | some v => rfl
    | none =>
      rw [Option.none_or, Option.getD_none]
      split <;> rfl

/-- The bytes a call writes for a mod, above the base of the module. -/
def Call.bytes (base : Addr b) : Call b → List (Addr b × UInt8)
  | .writeMemory _ address data => if address < base then [] else bindings address data
  | _ => []

/-- The data of a call fits into the address space. -/
def Call.Fits : Call b → Prop
  | .writeMemory _ _ data => data.length ≤ 2 ^ b.bits
  | _ => True

/-- **One write.** -/
theorem serve_isWrite {c : Call b} (hc : c.isWrite = true) (hfits : c.Fits) (s : Loader b) (x : Addr b) :
    (serve s c).mem x = (last x (c.bytes s.moduleInfo.base)).getD (s.mem x) := by
  cases c with
  | writeMemory kind address data =>
    rw [serve, MemoryProvider.writeMemory, MemoryProvider.isMemoryWritable, Call.bytes]
    by_cases hbelow : address < s.moduleInfo.base
    · rw [if_pos hbelow, if_neg (by rw [decide_eq_true hbelow]; decide)]
      rfl
    · rw [if_neg hbelow, if_pos (by rw [decide_eq_false hbelow]; decide)]
      exact store_eq_last data hfits
  | _ => cases hc

/-- **All the writes**, the last one first. -/
theorem serveAll_filter_isWrite (x : Addr b) : ∀ (cs : List (Call b)) (s : Loader b),
    (∀ c ∈ cs, c.Fits) → (serveAll s (cs.filter Call.isWrite)).mem x
      = (last x (cs.flatMap (Call.bytes s.moduleInfo.base))).getD (s.mem x)
  | [], _, _ => rfl
  | c :: cs, s, hfits => by
    have hrest : ∀ c ∈ cs, c.Fits := fun c hc => hfits c (List.mem_cons_of_mem _ hc)
    rw [List.flatMap_cons, last_append]
    by_cases hc : c.isWrite = true
    · have ih := serveAll_filter_isWrite x cs (serve s c) hrest
      rw [serve_moduleInfo, serve_isWrite hc (hfits c (List.mem_cons_self ..))] at ih
      rw [List.filter_cons_of_pos hc]
      refine ih.trans ?_
      cases last x (cs.flatMap (Call.bytes s.moduleInfo.base)) <;> rfl
    · have hnone : c.bytes s.moduleInfo.base = [] := by
        cases c with
        | writeMemory kind address data => exact absurd rfl hc
        | _ => rfl
      rw [List.filter_cons_of_neg hc, serveAll_filter_isWrite x cs s hrest, hnone, last, Option.or_none]

/--
**A read finds the last write.** After any session, a read of a block that the session has
not patched gives for every address the byte of the last write that went there.
-/
theorem readMemory_last {cs : List (Call b)} (hfits : ∀ c ∈ cs, c.Fits) {a : Addr b} {n : Nat}
    (hout : ∀ k, k < n → Outside (patched s cs) (a + BitVec.ofNat _ k)) :
    MemoryProvider.readMemory (serveAll s cs) a n = (List.range n).map fun k =>
      (last (a + BitVec.ofNat _ k) (cs.flatMap (Call.bytes s.moduleInfo.base))).getD
        (s.mem (a + BitVec.ofNat _ k)) := by
  refine List.map_congr_left fun k hk => ?_
  -- outside of the patches the session is its writes, and these are their bindings
  rw [← serveAll_filter_isWrite _ cs s hfits]
  refine @serveAll_writes b {x | ¬ Outside (patched s cs) x} cs s s rfl (fun _ _ => rfl)
    (fun x hx => not_not.mp hx) _ ?_
  exact not_not.mpr (hout k (List.mem_range.mp hk))

/-- Two writes that overlap, a hook elsewhere, and a write that is refused. -/
def writesAndHook : List (Call .win64) :=
  [.writeMemory .array 0x402000 [1, 2, 3],
    .writeASMHook (nopEnv .win64) nopSource 0x401000 eHookBehaviorAfter eHookParameterJump,
    .writeMemory .array 0x402001 [9], .writeMemory .array 0x1000 [7]]

theorem readMemory_last_overlap :
    MemoryProvider.readMemory (serveAll (openProcess .win64) writesAndHook) 0x402000 4
      = [1, 9, 3, 0x90] := by
  have hpatched : patched (openProcess .win64) writesAndHook = [(0x20000, 29), (0x401000, 14)] := by
    decide +kernel
  have houtside : ∀ k, k < 4 → ∀ B ∈ ([(0x20000, 29), (0x401000, 14)] : List (Block .win64)),
      ¬ InBlock B.1 B.2 (0x402000 + BitVec.ofNat _ k) := by decide +kernel
  refine (readMemory_last (fun c hc => ?_) fun k hk => ?_).trans (by decide +kernel)
  · simp only [writesAndHook, List.mem_cons, List.not_mem_nil, or_false] at hc
    rcases hc with rfl | rfl | rfl | rfl
    · exact (by decide : 3 ≤ 2 ^ 64)
    · trivial
    · exact (by decide : 1 ≤ 2 ^ 64)
    · exact (by decide : 1 ≤ 2 ^ 64)
  · rw [hpatched]
    exact houtside k hk

end CommonLoader
