import CommonLoader.Proof.Session
import CommonLoader.Proof.StoreRuns

/-!
# Page protections over a session

One patch may give the protection of its first page to all of its pages. Over a whole session
that is all that happens to the pages of the program: a protection comes from the page where
a patch begins, or is the one that trampolines get, and the writable one that a patch uses
for itself never stays. A block of pages that can be written stays one, so that a session
in it can be undone by writing back what was there.
-/

namespace CommonLoader

open ByteMemory CText Runs

variable {b : Build} {s : Loader b}

/-- The bytes whose pages a call makes writable, and protects again. -/
def Call.reprotected (s : Loader b) : Call b → List (Block b)
  | .writeASMHook env _ address behavior _ =>
      if MemoryProvider.isMemoryWritable s address ∧ KnownBehavior behavior then
        [(address, (hookLen env s address).toNat)]
      else []
  | .nopInstructions csDisasm beyond address count =>
      if MemoryProvider.isMemoryWritable s address ∧ count ≠ 0 then
        [(address, (nopLength csDisasm beyond s address count).toNat)]
      else []
  | _ => []

/-- The code in a trampoline, whose pages a call makes executable. -/
def Call.opened (s : Loader b) : Call b → List (Block b)
  | .writeASMHook env instructions address behavior _ =>
      if MemoryProvider.isMemoryWritable s address ∧ KnownBehavior behavior then
        [(env.hookPtr, (codeLength env s instructions).toNat)]
      else []
  | _ => []

/-- What has become of the protection of a page. -/
inductive Call.Protects (s : Loader b) (c : Call b) (page : Nat) : Prop where
  | opened (B : Block b) (hB : B ∈ c.opened s) (hin : InPages B.1 B.2 page)
      (h : (serve s c).prot page = pageExecuteReadWrite)
  | reprotected (B : Block b) (hB : B ∈ c.reprotected s) (hin : InPages B.1 B.2 page)
      (h : (serve s c).prot page = s.prot (pageOf B.1))
  | kept (h : (serve s c).prot page = s.prot page)

/-! ## One call -/

theorem save_prot (s : Loader b) (env : SaveEnv) : (save s env).2.prot = s.prot := by
  obtain ⟨files, h⟩ := save_eq s env
  rw [h]

theorem scan_prot (s : Loader b) (c : ScanCall b) : (scan s c).loader.prot = s.prot := by
  rcases scan_loader s c with ⟨_, h⟩ | ⟨_, states, h⟩
  · rw [h]
  · rw [h]
    exact save_prot _ _

/-- **What a call does to a page.** -/
theorem serve_protects (s : Loader b) (c : Call b) (page : Nat) : c.Protects s page := by
  cases c with
  | writeASMHook env instructions address behavior parameter =>
    by_cases hw : MemoryProvider.isMemoryWritable s address = true
    · have hserve : serve s (.writeASMHook env instructions address behavior parameter)
          = (writeASMHook env s instructions address behavior parameter).2 := if_pos hw
      by_cases hb : KnownBehavior behavior
      · have hprot : (writeASMHook env s instructions address behavior parameter).2.prot page = _ :=
          writeASMHook_prot hb page
        rw [← hserve] at hprot
        -- the trampoline is protected last, so its pages win
        by_cases hcode : InPages env.hookPtr (codeLength env s instructions).toNat page
        · exact .opened (env.hookPtr, _) (by rw [Call.opened, if_pos ⟨hw, hb⟩]; exact List.mem_singleton_self _)
            hcode (by rw [hprot, if_pos hcode])
        · rw [if_neg hcode, restoredProt] at hprot
          by_cases hpatch : InPages address (hookLen env s address).toNat page
          · exact .reprotected (address, _)
              (by rw [Call.reprotected, if_pos ⟨hw, hb⟩]; exact List.mem_singleton_self _) hpatch
              (by rw [hprot, if_pos hpatch])
          · exact .kept (by rw [hprot, if_neg hpatch])
      · exact .kept (by rw [hserve, writeASMHook_prot_unknown hb])
    · exact .kept (congrFun (congrArg Loader.prot (if_neg hw)) page)
  | nopInstructions csDisasm beyond address count =>
    by_cases hw : MemoryProvider.isMemoryWritable s address = true ∧ count ≠ 0
    · have hserve : serve s (.nopInstructions csDisasm beyond address count)
          = (nopInstructions csDisasm beyond s address count).loader := by
        rw [serve, MemoryProvider.nopInstructions, if_pos hw.1, if_neg hw.2]
      have hprot := congrFun (nopInstructions_prot csDisasm beyond s address count) page
      rw [← hserve, restoredProt] at hprot
      by_cases hpatch : InPages address (nopLength csDisasm beyond s address count).toNat page
      · exact .reprotected (address, _)
          (by rw [Call.reprotected, if_pos hw]; exact List.mem_singleton_self _) hpatch
          (by rw [hprot, if_pos hpatch])
      · exact .kept (by rw [hprot, if_neg hpatch])
    · -- refused, or nothing to take out
      refine .kept ?_
      rw [serve, MemoryProvider.nopInstructions]
      split
      · rename_i hmem
        rw [if_pos (not_not.mp fun hc => hw ⟨hmem, hc⟩)]
      · rfl
  | writeMemory kind address data =>
    refine .kept ?_
    rw [serve, MemoryProvider.writeMemory]
    split <;> rfl
  | assembleInstructions assembler instructions =>
    exact .kept (congrFun (reported_prot (compileAssembly assembler s instructions 0)) page)
  | setSymbol name value => exact .kept rfl
  | removeSymbol name => exact .kept rfl
  | scan call => exact .kept (congrFun (scan_prot s call) page)
  | setState state value =>
    obtain ⟨states, h⟩ := setState_eq (s := s) state value
    exact .kept (by rw [serve, h])
  | setStateFlag state flag set =>
    obtain ⟨states, h⟩ := setStateFlag_eq s state flag set
    exact .kept (by rw [serve, h])
  | saveOptions env => exact .kept (congrFun (save_prot s env) page)

/-! ## A session -/

/-- What a session reprotects, in order. -/
def reprotected (s : Loader b) (cs : List (Call b)) : List (Block b) :=
  collect serve Call.reprotected s cs

/-- The code in its trampolines. -/
def opened (s : Loader b) (cs : List (Call b)) : List (Block b) := collect serve Call.opened s cs

/-- **The frame of a session, for pages.** -/
theorem serveAll_prot_outside {page : Nat} : ∀ (cs : List (Call b)) {s : Loader b},
    (∀ B ∈ opened s cs, ¬ InPages B.1 B.2 page) → (∀ B ∈ reprotected s cs, ¬ InPages B.1 B.2 page) →
    (serveAll s cs).prot page = s.prot page
  | [], _, _, _ => rfl
  | c :: cs, s, hopen, hpatch => by
    have ih := serveAll_prot_outside cs (fun B hB => hopen B (List.mem_append_right _ hB))
      fun B hB => hpatch B (List.mem_append_right _ hB)
    refine ih.trans ?_
    -- a page that no patch meets is kept by the call
    cases serve_protects s c page with
    | opened B hB hin h => exact absurd hin (hopen B (List.mem_append_left _ hB))
    | reprotected B hB hin h => exact absurd hin (hpatch B (List.mem_append_left _ hB))
    | kept h => exact h

variable {pages : Set Nat} {allowed : Set (BitVec 32)}

theorem serveAll_prot_mem (hcode : pageExecuteReadWrite ∈ allowed) : ∀ (cs : List (Call b)) {s : Loader b},
    (∀ B ∈ reprotected s cs, ∀ page ∈ pages, InPages B.1 B.2 page → pageOf B.1 ∈ pages) →
    (∀ page ∈ pages, s.prot page ∈ allowed) → ∀ page ∈ pages, (serveAll s cs).prot page ∈ allowed
  | [], _, _, h => h
  | c :: cs, s, hfirst, h => by
    refine serveAll_prot_mem hcode cs (fun B hB => hfirst B (List.mem_append_right _ hB)) ?_
    intro page hpage
    cases serve_protects s c page with
    | opened B hB hin hprot =>
      rw [hprot]
      exact hcode
    | reprotected B hB hin hprot =>
      -- the patch begins on one of the pages, and that one was fine
      rw [hprot]
      exact h _ (hfirst B (List.mem_append_left _ hB) page hpage hin)
    | kept hprot =>
      rw [hprot]
      exact h page hpage

/--
**Code stays executable.** Take any pages, none of which is patched from a page before them,
and any protections that they may have, among them that of the trampolines: they have one
of these after every session. And no page is touched on which there is no patch.
-/
theorem session_protections {cs : List (Call b)} (hcode : pageExecuteReadWrite ∈ allowed)
    (hfirst : ∀ B ∈ reprotected s cs, ∀ page ∈ pages, InPages B.1 B.2 page → pageOf B.1 ∈ pages)
    (hpages : ∀ page ∈ pages, s.prot page ∈ allowed) :
    (∀ page ∈ pages, (serveAll s cs).prot page ∈ allowed)
      ∧ ∀ page, (∀ B ∈ opened s cs ++ reprotected s cs, ¬ InPages B.1 B.2 page) →
        (serveAll s cs).prot page = s.prot page :=
  ⟨serveAll_prot_mem hcode cs hfirst hpages, fun _ hout =>
    serveAll_prot_outside cs (fun B hB => hout B (List.mem_append_left _ hB))
      fun B hB => hout B (List.mem_append_right _ hB)⟩

/-- Two pages of code in between data. -/
def codePages : Loader .win32 :=
  { openProcess .win32 with prot := fun page => if page = 0x401 ∨ page = 0x402 then 0x20 else 0x02 }

/-- A hook from the first page to the second, and no-ops on the second. -/
def hookAcross : List (Call .win32) :=
  [.writeASMHook (nopEnv .win32) nopSource 0x401FFD eHookBehaviorAfter eHookParameterJump,
    .nopInstructions decodeNops (fun _ => 0) 0x402100 3]

theorem session_protections_across :
    Executable ((serveAll codePages hookAcross).prot 0x401)
      ∧ Executable ((serveAll codePages hookAcross).prot 0x402)
      ∧ (serveAll codePages hookAcross).prot 0x403 = 0x02 := by
  have hopened : opened codePages hookAcross = [(0x20000, 1)] := by decide +kernel
  have hpatches : reprotected codePages hookAcross = [(0x401FFD, 5), (0x402100, 3)] := by
    decide +kernel
  have hfirst : ∀ B ∈ reprotected codePages hookAcross, ∀ page ∈ {page | page = 0x401 ∨ page = 0x402},
      InPages B.1 B.2 page → pageOf B.1 ∈ {page | page = 0x401 ∨ page = 0x402} := by
    intro B hB page _ _
    rw [hpatches] at hB
    simp only [List.mem_cons, List.not_mem_nil, or_false] at hB
    rcases hB with rfl | rfl
    · exact Or.inl (by decide +kernel)
    · exact Or.inr (by decide +kernel)
  have hpages : ∀ page ∈ {page | page = 0x401 ∨ page = 0x402},
      codePages.prot page ∈ {prot | Executable prot} := by
    rintro page (rfl | rfl)
    · exact show Executable 0x20 by decide
    · exact show Executable 0x20 by decide
  obtain ⟨hcode, hout⟩ := session_protections (show Executable pageExecuteReadWrite by decide) hfirst
    hpages
  refine ⟨hcode 0x401 (Or.inl rfl), hcode 0x402 (Or.inr rfl), (hout 0x403 fun B hB => ?_).trans rfl⟩
  rw [hopened, hpatches] at hB
  simp only [List.cons_append, List.nil_append, List.mem_cons, List.not_mem_nil, or_false] at hB
  rcases hB with rfl | rfl | rfl
  · decide +kernel
  · decide +kernel
  · decide +kernel

/-! ## Undoing a session -/

/-- What is reprotected begins where a target begins. -/
theorem Call.reprotected_target {c : Call b} {B : Block b} (hB : B ∈ c.reprotected s) :
    ∃ n, B.2 ≤ n ∧ (B.1, n) ∈ c.target s := by
  cases c with
  | writeASMHook env instructions address behavior parameter =>
    rw [Call.reprotected] at hB
    split at hB
    · rename_i hw
      obtain rfl := List.mem_singleton.mp hB
      refine ⟨_, Nat.le_max_left _ b.minHookLength, ?_⟩
      rw [Call.target, if_pos hw.1]
      exact List.mem_singleton_self _
    · cases hB
  | nopInstructions csDisasm beyond address count =>
    rw [Call.reprotected] at hB
    split at hB
    · rename_i hw
      obtain rfl := List.mem_singleton.mp hB
      refine ⟨_, Nat.le_refl _, ?_⟩
      rw [Call.target, if_pos hw]
      exact List.mem_singleton_self _
    · cases hB
  | _ => cases hB

/-- **A block stays open** to writes that contains all that the session was asked to write. -/
theorem serveAll_canWrite {cs : List (Call b)} {a : Addr b} {n : Nat} (hpages : CanWrite s.prot a n)
    (hin : ∀ B ∈ targets s cs, ∀ x, InBlock B.1 B.2 x → InBlock a n x) :
    CanWrite (serveAll s cs).prot a n := by
  have hkept := @serveAll_prot_mem b {page | ∃ k, k < n ∧ page = pageOf (a + BitVec.ofNat _ k)}
    {prot | Writable prot} (show Writable pageExecuteReadWrite by decide) cs s
  intro k hk
  refine hkept ?_ ?_ _ ⟨k, hk, rfl⟩
  · rintro B hB page - hmeets
    obtain ⟨s', c, hoccurs, hB⟩ := mem_collect.mp hB
    obtain ⟨m, hm, htarget⟩ := Call.reprotected_target hB
    -- the patch is not empty, and begins inside the block
    have hstart : InBlock a n B.1 :=
      hin (B.1, m) (mem_collect.mpr ⟨s', c, hoccurs, htarget⟩) B.1
        (inBlock_self (Nat.lt_of_lt_of_le hmeets.1 hm))
    exact ⟨(B.1 - a).toNat, hstart, by rw [add_toNat_sub]⟩
  · rintro page ⟨i, hi, rfl⟩
    exact hpages i hi

/--
**Bytes that were saved undo everything**: whatever a session was asked to write, if all of it
lies in a block of pages that can be written, then the block can still be written, and writing
back what was read there before leaves nothing but the trampolines.
-/
theorem saved_bytes_restore {cs : List (Call b)} {kind : WriteKind} {a : Addr b} {n : Nat}
    (hn : 0 < n) (hw : MemoryProvider.isMemoryWritable s a = true) (hpages : CanWrite s.prot a n)
    (hin : ∀ B ∈ targets s cs, ∀ x, InBlock B.1 B.2 x → InBlock a n x) {x : Addr b}
    (htramp : Outside (trampolines s cs) x) :
    (Call.writeMemory kind a (MemoryProvider.readMemory s a n)).outcome (serveAll s cs) = none
      ∧ (serveAll s (cs ++ [.writeMemory kind a (MemoryProvider.readMemory s a n)])).mem x
        = s.mem x := by
  have hwritable : MemoryProvider.isMemoryWritable (serveAll s cs) a = true := by
    unfold MemoryProvider.isMemoryWritable at hw ⊢
    rwa [serveAll_moduleInfo]
  have hlen : (MemoryProvider.readMemory s a n).length = n := length_load ..
  have hsome : MemoryProvider.readMemory s a n ≠ [] := by
    intro hnil
    rw [hnil] at hlen
    exact absurd hlen (Nat.ne_of_lt hn)
  refine ⟨?_, ?_⟩
  · rw [Call.outcome, if_pos hwritable, if_neg fun h => hsome h.2, hlen,
      if_pos (serveAll_canWrite hpages hin)]
  · have hlast : (serveAll s (cs ++ [.writeMemory kind a (MemoryProvider.readMemory s a n)])).mem
        = store (serveAll s cs).mem a (MemoryProvider.readMemory s a n) := by
      rw [serveAll_append]
      change (MemoryProvider.writeMemory (serveAll s cs) a _).mem = _
      unfold MemoryProvider.writeMemory
      rw [if_pos hwritable]
    rw [hlast]
    -- inside, the saved bytes are written back; outside, only trampolines were written
    by_cases hx : InBlock a n x
    · exact store_load hx
    · rw [store_outside (by rw [hlen]; exact hx)]
      exact serveAll_outside cs htramp fun B hB hBx => hx (hin B hB x hBx)

/-- A hook is taken back. -/
theorem saved_bytes_restore_hook :
    (Call.writeMemory .array 0x401000 (MemoryProvider.readMemory (openProcess .win64) 0x401000 14)).outcome
        (serveAll (openProcess .win64) [.writeASMHook (nopEnv .win64) nopSource 0x401000 eHookBehaviorAfter
          eHookParameterJump]) = none
      ∧ (serveAll (openProcess .win64) ([.writeASMHook (nopEnv .win64) nopSource 0x401000 eHookBehaviorAfter
          eHookParameterJump] ++ [.writeMemory .array 0x401000
            (MemoryProvider.readMemory (openProcess .win64) 0x401000 14)])).mem 0x401000 = 0x90 := by
  have htargets : targets (openProcess .win64) [.writeASMHook (nopEnv .win64) nopSource 0x401000
      eHookBehaviorAfter eHookParameterJump] = [(0x401000, 14)] := by decide +kernel
  have htramp : trampolines (openProcess .win64) [.writeASMHook (nopEnv .win64) nopSource 0x401000
      eHookBehaviorAfter eHookParameterJump] = [(0x20000, 29)] := by decide +kernel
  refine saved_bytes_restore (by decide) (by decide +kernel) (fun _ _ => (by decide : Writable 0x40))
    (fun B hB x hx => ?_) ?_
  · rw [htargets] at hB
    obtain rfl := List.mem_singleton.mp hB
    exact hx
  · rw [htramp]
    unfold Outside InBlock
    decide +kernel

end CommonLoader
