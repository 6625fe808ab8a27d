import CommonLoader.Lib.Runs
import CommonLoader.Model.Session
import CommonLoader.Proof.CacheRuns
import CommonLoader.Proof.Persist
import CommonLoader.Proof.Protection

/-!
# What the calls of a session write

A call writes the block it names, and a hook also the block of its trampoline. Every
other call leaves the memory alone, so that whatever lies outside of these blocks
survives the session, in whatever order the calls come.
-/

namespace CommonLoader

open ByteMemory CText Runs

variable {b : Build} {s : Loader b}

/-- An address and a number of bytes. -/
abbrev Block (b : Build) := Addr b × Nat

/-- The block a call is asked to write, unless it is refused. -/
def Call.target (s : Loader b) : Call b → List (Block b)
  | .writeMemory _ address data =>
      if MemoryProvider.isMemoryWritable s address then [(address, data.length)] else []
  | .writeASMHook env _ address _ _ =>
      if MemoryProvider.isMemoryWritable s address then
        [(address, max (hookLen env s address).toNat b.minHookLength)]
      else []
  | .nopInstructions csDisasm beyond address count =>
      if MemoryProvider.isMemoryWritable s address ∧ count ≠ 0 then
        [(address, (nopLength csDisasm beyond s address count).toNat)]
      else []
  | _ => []

/-- The block a hook takes from the heap. -/
def Call.trampoline (s : Loader b) : Call b → List (Block b)
  | .writeASMHook env instructions address _ _ =>
      if MemoryProvider.isMemoryWritable s address then
        [(env.hookPtr, trampolineSize env s instructions address)]
      else []
  | _ => []

/-- `WriteMemory`, which is for data. -/
def Call.isWrite : Call b → Bool
  | .writeMemory .. => true
  | _ => false

/-- What a call patches: its blocks, unless it writes data. -/
def Call.patched (s : Loader b) (c : Call b) : List (Block b) :=
  if c.isWrite then [] else c.trampoline s ++ c.target s

theorem Call.patched_eq {c : Call b} (hc : c.isWrite = false) :
    c.patched s = c.trampoline s ++ c.target s := if_neg (Bool.eq_false_iff.mp hc)

/-- No address of these blocks. -/
def Outside (blocks : List (Block b)) (x : Addr b) : Prop := ∀ B ∈ blocks, ¬ InBlock B.1 B.2 x

theorem Outside.single {a x : Addr b} {n : Nat} (h : Outside [(a, n)] x) : ¬ InBlock a n x :=
  h (a, n) (List.mem_singleton.mpr rfl)

/-- A block that lies before or behind each of them. -/
theorem outside_of_sides {blocks : List (Block b)} {a x : Addr b} {n : Nat} (hx : InBlock a n x)
    (h : ∀ B ∈ blocks, (a.toNat + n ≤ B.1.toNat ∧ B.1.toNat + B.2 ≤ 2 ^ b.bits)
      ∨ (B.1.toNat + B.2 ≤ a.toNat ∧ a.toNat + n ≤ 2 ^ b.bits)) : Outside blocks x := by
  intro B hB
  rcases h B hB with ⟨hle, hend⟩ | ⟨hle, hend⟩
  · exact Apart.of_le hle hend x hx
  · exact Apart.symm (Apart.of_le hle hend) x hx

theorem outside_append {xs ys : List (Block b)} {x : Addr b} :
    Outside (xs ++ ys) x ↔ Outside xs x ∧ Outside ys x := by
  unfold Outside
  refine ⟨fun h => ⟨fun B hB => h B (List.mem_append_left _ hB),
    fun B hB => h B (List.mem_append_right _ hB)⟩, fun ⟨h, h'⟩ B hB => ?_⟩
  exact (List.mem_append.mp hB).elim (h B) (h' B)

/-! ## One call -/

/-- A hook writes its two blocks, however few bytes were displaced. -/
theorem writeASMHook_outside {env : HookEnv b} {source : Bytes} {address x : Addr b}
    {behavior parameter : BitVec 32}
    (hx : ¬ InBlock env.hookPtr (trampolineSize env s source address) x)
    (hx' : ¬ InBlock address (max (hookLen env s address).toNat b.minHookLength) x) :
    (writeASMHook env s source address behavior parameter).2.mem x = s.mem x := by
  cases h : writeBody s.mem behavior env.hookPtr (compileHook env s source).code address
      (hookLen env s address) with
  | none => rw [writeASMHook_unknown (writeBody_eq_none.mp h), reported_mem]
  | some r =>
    obtain ⟨mem, pos⟩ := r
    obtain ⟨n, hn, rfl, hbody⟩ := writeBody_frame (x := x) h
    -- the count of no-ops comes of a wrapping sum, but never exceeds what was displaced
    have hnops : ((address + hookLen env s address).toNat - address.toNat)
        ≤ (hookLen env s address).toNat := by
      have := Nat.mod_le (address.toNat + (hookLen env s address).toNat) (2 ^ b.bits)
      rw [BitVec.toNat_add]
      omega
    have htail := length_trampolineTail parameter (env.hookPtr + BitVec.ofNat _ n)
      (address + hookLen env s address)
    unfold trampolineSize at hx
    rw [(writeASMHook_known parameter h).2.1, writePatch_eq, store_outside, writeNops, store_outside,
      writeTail_eq, store_outside, hbody]
    · exact fun hin => hx (Nat.lt_of_lt_of_le hin (by omega))
    · exact fun hin => hx (inBlock_part hin (by omega))
    · rw [List.length_replicate]
      exact fun hin => hx' (Nat.lt_of_lt_of_le hin (by omega))
    · rw [length_transfer]
      exact fun hin => hx' (Nat.lt_of_lt_of_le hin (by omega))

/-- **The frame of a call.** -/
theorem serve_outside (c : Call b) {x : Addr b} (h : Outside (c.trampoline s) x)
    (h' : Outside (c.target s) x) : (serve s c).mem x = s.mem x := by
  cases c with
  | writeMemory kind address data =>
    rw [Call.target] at h'
    rw [serve, MemoryProvider.writeMemory]
    by_cases hw : MemoryProvider.isMemoryWritable s address
    · rw [if_pos hw] at h' ⊢
      exact store_outside h'.single
    · rw [if_neg hw]
  | writeASMHook env instructions address behavior parameter =>
    rw [Call.target] at h'
    rw [Call.trampoline] at h
    rw [serve, MemoryProvider.writeASMHook]
    by_cases hw : MemoryProvider.isMemoryWritable s address
    · rw [if_pos hw] at h h' ⊢
      exact writeASMHook_outside h.single h'.single
    · rw [if_neg hw]
  | nopInstructions csDisasm beyond address count =>
    rw [Call.target] at h'
    rw [serve, MemoryProvider.nopInstructions]
    by_cases hw : MemoryProvider.isMemoryWritable s address
    · by_cases hc : count = 0
      · rw [if_pos hw, if_pos hc]
      · rw [if_pos ⟨hw, hc⟩] at h'
        rw [if_pos hw, if_neg hc]
        refine store_outside ?_
        rw [List.length_replicate]
        exact h'.single
    · rw [if_neg hw]
  | assembleInstructions assembler instructions =>
    exact congrFun (reported_mem (compileAssembly assembler s instructions 0)) x
  | setSymbol name value => rfl
  | removeSymbol name => rfl
  | scan call => exact congrFun (scan_mem s call) x
  | setState state value => exact congrFun (setState_mem _ _) x
  | setStateFlag state flag set => exact congrFun (setStateFlag_frame state flag set).1 x
  | saveOptions env => exact congrFun (save_mem env) x

/-- A hook touches memory, protections and states. -/
theorem writeASMHook_eq (env : HookEnv b) (s : Loader b) (source : Bytes) (address : Addr b)
    (behavior parameter : BitVec 32) :
    ∃ states mem prot, (writeASMHook env s source address behavior parameter).2
      = { s with states, mem, prot } := by
  obtain ⟨states, hrep⟩ := reported_eq (s := s) (compileHook env s source)
  unfold reported at hrep
  unfold writeASMHook
  dsimp only
  rw [hrep]
  split
  · exact ⟨states, s.mem, s.prot, rfl⟩
  · exact ⟨states, _, _, rfl⟩

/-- **No call moves the module.** -/
theorem serve_moduleInfo (s : Loader b) (c : Call b) : (serve s c).moduleInfo = s.moduleInfo := by
  cases c with
  | writeMemory kind address data =>
    rw [serve, MemoryProvider.writeMemory]
    split <;> rfl
  | writeASMHook env instructions address behavior parameter =>
    rw [serve, MemoryProvider.writeASMHook]
    split
    · obtain ⟨states, mem, prot, h⟩ := writeASMHook_eq env s instructions address behavior parameter
      rw [h]
    · rfl
  | nopInstructions csDisasm beyond address count =>
    rw [serve, MemoryProvider.nopInstructions]
    split
    · split <;> rfl
    · rfl
  | assembleInstructions assembler instructions =>
    obtain ⟨states, h⟩ := reported_eq (s := s) (compileAssembly assembler s instructions 0)
    exact (congrArg Loader.moduleInfo h).trans rfl
  | setSymbol name value => rfl
  | removeSymbol name => rfl
  | scan call =>
    rcases scan_loader s call with ⟨_, h⟩ | ⟨_, states, h⟩
    · exact congrArg Loader.moduleInfo h
    · rw [serve, h]
      exact (commitSignatureCache_store _ _ _ _).1
  | setState state value =>
    obtain ⟨states, h⟩ := setState_eq (s := s) state value
    rw [serve, h]
  | setStateFlag state flag set =>
    obtain ⟨states, h⟩ := setStateFlag_eq s state flag set
    rw [serve, h]
  | saveOptions env => exact (save_frame s env).1

/-! ## A session -/

theorem serveAll_moduleInfo : ∀ (cs : List (Call b)) (s : Loader b),
    (serveAll s cs).moduleInfo = s.moduleInfo
  | [], _ => rfl
  | c :: cs, s => (serveAll_moduleInfo cs (serve s c)).trans (serve_moduleInfo s c)

/-- The blocks that the calls of a session were asked to write. -/
def targets (s : Loader b) (cs : List (Call b)) : List (Block b) := collect serve Call.target s cs

/-- The trampolines of its hooks. -/
def trampolines (s : Loader b) (cs : List (Call b)) : List (Block b) :=
  collect serve Call.trampoline s cs

/-- **The frame of a session.** -/
theorem serveAll_outside : ∀ (cs : List (Call b)) {s : Loader b} {x : Addr b},
    Outside (trampolines s cs) x → Outside (targets s cs) x → (serveAll s cs).mem x = s.mem x
  | [], _, _, _, _ => rfl
  | c :: cs, s, x, h, h' => by
    obtain ⟨hc, hcs⟩ := outside_append.mp h
    obtain ⟨hc', hcs'⟩ := outside_append.mp h'
    exact (serveAll_outside cs hcs hcs').trans (serve_outside c hc hc')

theorem serveAll_append (s : Loader b) (pre post : List (Call b)) :
    serveAll s (pre ++ post) = serveAll (serveAll s pre) post := List.foldl_append

/-- What the calls of a session patch. -/
def patched (s : Loader b) (cs : List (Call b)) : List (Block b) := collect serve Call.patched s cs

theorem patched_append (pre post : List (Call b)) (s : Loader b) :
    patched s (pre ++ post) = patched s pre ++ patched (serveAll s pre) post :=
  collect_append pre post s

/-- A call that patches leaves the rest of the memory alone. -/
theorem serve_patch {c : Call b} (hc : c.isWrite = false) {x : Addr b}
    (h : Outside (c.patched s) x) : (serve s c).mem x = s.mem x := by
  rw [Call.patched_eq hc] at h
  exact serve_outside c (outside_append.mp h).1 (outside_append.mp h).2

/-- A write makes of equal bytes equal bytes, above one base. -/
theorem writeMemory_congr {s' : Loader b} (hbase : s.moduleInfo = s'.moduleInfo) {address x : Addr b}
    {data : Bytes} (h : s.mem x = s'.mem x) :
    (MemoryProvider.writeMemory s address data).mem x
      = (MemoryProvider.writeMemory s' address data).mem x := by
  unfold MemoryProvider.writeMemory MemoryProvider.isMemoryWritable
  rw [hbase]
  split
  · change store s.mem address data x = store s'.mem address data x
    by_cases hin : InBlock address data.length x
    · rw [store_inside hin, store_inside hin]
    · rw [store_outside hin, store_outside hin]
      exact h
  · exact h

/--
**Outside of its patches a session is its data writes.** The session and the session that
makes only the writes leave the same there.
-/
theorem serveAll_writes {hidden : Set (Addr b)} : ∀ (cs : List (Call b)) {s s' : Loader b},
    s.moduleInfo = s'.moduleInfo → (∀ x, x ∉ hidden → s.mem x = s'.mem x) →
    (∀ x, x ∉ hidden → Outside (patched s cs) x) →
    ∀ x, x ∉ hidden → (serveAll s cs).mem x = (serveAll s' (cs.filter Call.isWrite)).mem x
  | [], _, _, _, hmem, _ => hmem
  | c :: cs, s, s', hbase, hmem, hout => by
    have hrest : ∀ x, x ∉ hidden → Outside (patched (serve s c) cs) x :=
      fun x hx => (outside_append.mp (hout x hx)).2
    by_cases hc : c.isWrite = true
    · rw [List.filter_cons_of_pos hc]
      refine serveAll_writes cs ?_ ?_ hrest
      · rw [serve_moduleInfo, serve_moduleInfo, hbase]
      · -- both make the same write
        intro x hx
        cases c with
        | writeMemory kind address data => exact writeMemory_congr hbase (hmem x hx)
        | _ => cases hc
    · rw [List.filter_cons_of_neg hc]
      refine serveAll_writes cs ((serve_moduleInfo s c).trans hbase) (fun x hx => ?_) hrest
      rw [serve_patch (Bool.eq_false_iff.mpr hc) (outside_append.mp (hout x hx)).1]
      exact hmem x hx

/-! ## What codes do -/

theorem Action.perform_ok {a : Action b} {s' : Loader b} (h : a.perform s = .ok s') :
    s' = serveAll s a.calls := by
  unfold Action.perform at h
  cases hf : a.outcome s with
  | some failure => rw [hf] at h; cases h
  | none =>
    rw [hf] at h
    exact (Except.ok.inj h).symm

/-- **What comes of actions that do not fail**: their calls, in order. -/
theorem performAll_ok {as : List (Action b)} {s' : Loader b} (h : performAll s as = .ok s') :
    s' = serveAll s (as.flatMap Action.calls) := by
  have hfold : s' = as.foldl (fun s a => serveAll s a.calls) s :=
    attempt_ok (fun _ _ _ => Action.perform_ok) h
  exact hfold.trans List.foldl_flatMap.symm

/-! ## Below the module -/

/-- What the provider lets through begins at the base of the module or above it. -/
theorem Call.target_base (s : Loader b) (c : Call b) :
    ∀ B ∈ c.target s, s.moduleInfo.base.toNat ≤ B.1.toNat := by
  have hwrite : ∀ {address : Addr b}, MemoryProvider.isMemoryWritable s address = true →
      s.moduleInfo.base.toNat ≤ address.toNat := by
    intro address h
    unfold MemoryProvider.isMemoryWritable at h
    exact Nat.not_lt.mp (by simpa [BitVec.lt_def] using h)
  intro B hB
  cases c with
  | writeMemory kind address data =>
    rw [Call.target] at hB
    split at hB
    · rename_i hw
      obtain rfl := List.mem_singleton.mp hB
      exact hwrite hw
    · cases hB
  | writeASMHook env instructions address behavior parameter =>
    rw [Call.target] at hB
    split at hB
    · rename_i hw
      obtain rfl := List.mem_singleton.mp hB
      exact hwrite hw
    · cases hB
  | nopInstructions csDisasm beyond address count =>
    rw [Call.target] at hB
    split at hB
    · rename_i hw
      obtain rfl := List.mem_singleton.mp hB
      exact hwrite hw.1
    · cases hB
  | _ => cases hB

theorem targets_base (cs : List (Call b)) (s : Loader b) :
    ∀ B ∈ targets s cs, s.moduleInfo.base.toNat ≤ B.1.toNat := by
  intro B hB
  obtain ⟨_, c, ⟨pre, _, _, rfl⟩, hB⟩ := mem_collect.mp hB
  have hbase := c.target_base (serveAll s pre) B hB
  rwa [serveAll_moduleInfo] at hbase

/-- A block that does not come round lies at its first address or above it. -/
theorem toNat_le_of_inBlock {a x : Addr b} {n : Nat} (h : InBlock a n x)
    (hw : a.toNat + n ≤ 2 ^ b.bits) : a.toNat ≤ x.toNat := by
  obtain ⟨k, hk, rfl⟩ := (inBlock_iff (by omega)).mp h
  rw [BitVec.toNat_add, BitVec.toNat_ofNat, Nat.add_mod_mod, Nat.mod_eq_of_lt (by omega)]
  exact Nat.le_add_right _ _

/--
**Below the module a session writes its trampolines only**, as long as no write runs
past the end of the address space.
-/
theorem below_module_kept {cs : List (Call b)} {x : Addr b}
    (hend : ∀ B ∈ targets s cs, B.1.toNat + B.2 ≤ 2 ^ b.bits)
    (hbelow : x < s.moduleInfo.base) (htramp : Outside (trampolines s cs) x) :
    (serveAll s cs).mem x = s.mem x := by
  refine serveAll_outside cs htramp fun B hB hin => ?_
  have hbase := targets_base cs s B hB
  have hle := toNat_le_of_inBlock hin (hend B hB)
  exact Nat.not_lt.mpr (Nat.le_trans hbase hle) (BitVec.lt_def.mp hbelow)

/-- The process of the no-ops, on pages that can be written. -/
def openProcess (b : Build) : Loader b := { nopProcess b with prot := fun _ => 0x40 }

/-- A hook, and a write below the module that is refused. -/
def hookAndRefused : List (Call .win64) :=
  [.writeASMHook (nopEnv .win64) nopSource 0x401000 eHookBehaviorAfter eHookParameterJump,
    .writeMemory .array 0x1000 [0xC3]]

theorem below_module_kept_refused :
    (serveAll (openProcess .win64) hookAndRefused).mem 0x1000 = 0x90 := by
  have hend : ∀ B ∈ targets (openProcess .win64) hookAndRefused,
      B.1.toNat + B.2 ≤ 2 ^ Build.win64.bits := by decide +kernel
  have htramp : Outside (trampolines (openProcess .win64) hookAndRefused) 0x1000 := by
    unfold Outside InBlock
    decide +kernel
  exact below_module_kept hend (by decide) htramp

end CommonLoader
