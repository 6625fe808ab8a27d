import CommonLoader.Proof.Displaced

/-!
# Page protections

Code is patched between two calls of `VirtualProtect`, and the trampoline is made
executable by a third. The second call writes the protection of the first page over
the whole range; the third is given the length of the compiled code, and what stands
behind the code in the trampoline is executable only as far as its last page goes.
-/

namespace CommonLoader

open ByteMemory CText

variable {b : Build} {env : HookEnv b} {s : Loader b} {source : Bytes} {address : Addr b}
  {behavior parameter : BitVec 32}

/-! ## Ranges of pages -/

/-- A page that `size` bytes from an address meet. -/
def InPages (address : Addr b) (size page : Nat) : Prop :=
  0 < size ∧ pageOf address ≤ page ∧ page ≤ (address.toNat + size - 1) / pageSize

instance (address : Addr b) (size page : Nat) : Decidable (InPages address size page) :=
  inferInstanceAs (Decidable (_ ∧ _ ∧ _))

/-- The page of a byte of the range is one of its pages. -/
theorem inPages_pageOf {i size : Nat} (hi : i < size) (hfits : address.toNat + size ≤ 2 ^ b.bits) :
    pageOf (address + BitVec.ofNat _ i) = (address.toNat + i) / pageSize
      ∧ InPages address size (pageOf (address + BitVec.ofNat _ i)) := by
  have hpage : pageOf (address + BitVec.ofNat _ i) = (address.toNat + i) / pageSize := by
    unfold pageOf
    rw [BitVec.toNat_add, BitVec.toNat_ofNat, Nat.add_mod_mod, Nat.mod_eq_of_lt (by omega)]
  refine ⟨hpage, ?_⟩
  rw [hpage]
  exact ⟨by omega, Nat.div_le_div_right (by omega), Nat.div_le_div_right (by omega)⟩

/-! ## `VirtualProtect` -/

theorem virtualProtect_prot (prot : Nat → BitVec 32) (address : Addr b) (size : SizeT b)
    (newProtect oldProtect : BitVec 32) (page : Nat) :
    (virtualProtect prot address size newProtect oldProtect).2 page
      = if InPages address size.toNat page then newProtect else prot page := by
  unfold virtualProtect
  by_cases h : size = 0
  · rw [if_pos h, if_neg fun hin => absurd hin.1 (by rw [h]; exact Nat.lt_irrefl 0)]
  · have hpos : 0 < size.toNat := Nat.pos_of_ne_zero fun h0 => h (BitVec.eq_of_toNat_eq h0)
    rw [if_neg h]
    dsimp only
    unfold InPages pageOf
    simp only [hpos, true_and]

theorem virtualProtect_old {prot : Nat → BitVec 32} {size : SizeT b} (newProtect oldProtect : BitVec 32)
    (h : 0 < size.toNat) :
    (virtualProtect prot address size newProtect oldProtect).1 = prot (pageOf address) := by
  unfold virtualProtect
  rw [if_neg]
  · rfl
  · rintro rfl
    exact absurd h (Nat.lt_irrefl 0)

/-- What the pair of calls around a patch leaves of the protections. -/
def restoredProt (prot : Nat → BitVec 32) (address : Addr b) (size page : Nat) : BitVec 32 :=
  if InPages address size page then prot (pageOf address) else prot page

theorem virtualProtect_restore (prot : Nat → BitVec 32) (address : Addr b) (size : SizeT b) :
    (virtualProtect (virtualProtect prot address size pageReadWrite 0).2 address size
      (virtualProtect prot address size pageReadWrite 0).1
      (virtualProtect prot address size pageReadWrite 0).1).2
      = restoredProt prot address size.toNat := by
  funext page
  unfold restoredProt
  rw [virtualProtect_prot, virtualProtect_prot]
  by_cases h : InPages address size.toNat page
  · rw [if_pos h, if_pos h, virtualProtect_old _ _ h.1]
  · rw [if_neg h, if_neg h, if_neg h]

/-! ## What the two functions leave -/

/-- The length of the compiled code, as it is handed to `VirtualProtect`. -/
def codeLength (env : HookEnv b) (s : Loader b) (source : Bytes) : SizeT b :=
  BitVec.ofNat _ (compileHook env s source).code.length

theorem reported_prot (result : AssemblerResult b) : (reported s result).prot = s.prot := by
  obtain ⟨states, h⟩ := reported_eq (s := s) result
  rw [h]

/-- **The protections after a hook.** -/
theorem writeASMHook_prot (hb : KnownBehavior behavior) (page : Nat) :
    (writeASMHook env s source address behavior parameter).2.prot page
      = if InPages env.hookPtr (codeLength env s source).toNat page then pageExecuteReadWrite
        else restoredProt s.prot address (hookLen env s address).toNat page := by
  have hmem : (if (compileHook env s source).errors ≠ [] then onError s (compileHook env s source)
      else s).mem = s.mem := reported_mem _
  have hprot : (if (compileHook env s source).errors ≠ [] then onError s (compileHook env s source)
      else s).prot = s.prot := reported_prot _
  obtain ⟨r, h⟩ := hb.writeBody s.mem env.hookPtr (compileHook env s source).code address
    (hookLen env s address)
  unfold writeASMHook
  dsimp only
  rw [hmem, h, hprot]
  dsimp only
  rw [virtualProtect_prot, virtualProtect_restore]
  rfl

theorem writeASMHook_prot_unknown (hb : ¬KnownBehavior behavior) :
    (writeASMHook env s source address behavior parameter).2.prot = s.prot := by
  rw [writeASMHook_notKnown hb]
  exact reported_prot _

theorem nopInstructions_prot (csDisasm : Bytes → Addr b → List UInt16) (beyond : Nat → UInt16)
    (s : Loader b) (address : Addr b) (count : BitVec 32) :
    (nopInstructions csDisasm beyond s address count).loader.prot
      = restoredProt s.prot address (nopLength csDisasm beyond s address count).toNat := by
  unfold nopInstructions nopLength
  exact virtualProtect_restore _ _ _

/-! ## The patched code -/

/-- The pages of a range have the protections they had. -/
def KeepsProtection (address : Addr b) (size : Nat) (prot prot' : Nat → BitVec 32) : Prop :=
  ∀ page, InPages address size page → prot' page = prot page

/--
**When a patch leaves the protections as they were.** One value is saved and written
back over the range, so all its pages must have had it; and pages that the trampoline's
code lies on must have been executable and writable before.
-/
theorem patch_keepsProtection (s : Loader b) (address : Addr b) :
    (∀ (env : HookEnv b) (source : Bytes) (behavior parameter : BitVec 32),
      KeepsProtection address (hookLen env s address).toNat s.prot
          (writeASMHook env s source address behavior parameter).2.prot ↔
        (KnownBehavior behavior → ∀ page, InPages address (hookLen env s address).toNat page →
          s.prot page = if InPages env.hookPtr (codeLength env s source).toNat page
            then pageExecuteReadWrite else s.prot (pageOf address)))
      ∧ ∀ (csDisasm : Bytes → Addr b → List UInt16) (beyond : Nat → UInt16) (count : BitVec 32),
        KeepsProtection address (nopLength csDisasm beyond s address count).toNat s.prot
            (nopInstructions csDisasm beyond s address count).loader.prot ↔
          ∀ page, InPages address (nopLength csDisasm beyond s address count).toNat page →
            s.prot page = s.prot (pageOf address) := by
  refine ⟨?_, ?_⟩
  · intro env source behavior parameter
    unfold KeepsProtection
    by_cases hb : KnownBehavior behavior
    · rw [forall_prop_of_true hb]
      refine forall_congr' fun page => forall_congr' fun hin => ?_
      -- what is written back is what the first page had
      rw [writeASMHook_prot hb, restoredProt, if_pos hin]
      exact eq_comm
    · rw [writeASMHook_prot_unknown hb]
      exact ⟨fun _ h => absurd h hb, fun _ _ _ => rfl⟩
  · intro csDisasm beyond count
    unfold KeepsProtection
    refine forall_congr' fun page => forall_congr' fun hin => ?_
    rw [nopInstructions_prot, restoredProt, if_pos hin]
    exact eq_comm

/-- No-ops from one page to the next, the second of which cannot be executed. -/
def twoPages : Loader .win32 :=
  { nopProcess .win32 with prot := fun page => if page = 0x401 then 0x20 else 0x02 }

/-- **The second page gets the protection of the first**, from a hook and from no-ops. -/
theorem secondPage_changed :
    Build.win32.minHookLength ≤ (hookLen (nopEnv .win32) twoPages 0x401FFD).toNat
      ∧ ¬ KeepsProtection (b := .win32) 0x401FFD (hookLen (nopEnv .win32) twoPages 0x401FFD).toNat twoPages.prot
        (writeASMHook (nopEnv .win32) twoPages nopSource 0x401FFD eHookBehaviorAfter
          eHookParameterJump).2.prot
      ∧ 3 ≤ ((nopEnv .win32).csDisasm (load twoPages.mem 0x401FFE (16 * 3)) 0x401FFE).length
      ∧ ¬ KeepsProtection (b := .win32) 0x401FFE (nopLength (nopEnv .win32).csDisasm (fun _ => 0) twoPages
          0x401FFE 3).toNat
        twoPages.prot (nopInstructions (nopEnv .win32).csDisasm (fun _ => 0) twoPages
          0x401FFE 3).loader.prot := by
  refine ⟨by decide +kernel, ?_, by decide +kernel, ?_⟩
  · intro h
    have := h 0x402 (by decide +kernel)
    exact absurd this (by decide +kernel)
  · intro h
    have := h 0x402 (by decide +kernel)
    exact absurd this (by decide +kernel)

/-! ## The trampoline -/

/-- `PAGE_EXECUTE`, `_EXECUTE_READ`, `_EXECUTE_READWRITE` or `_EXECUTE_WRITECOPY`. -/
def Executable (prot : BitVec 32) : Prop := prot &&& 0xF0 ≠ 0

instance (prot : BitVec 32) : Decidable (Executable prot) := inferInstanceAs (Decidable (_ ≠ _))

/-- Bytes of the closing instruction. The 64-bit jump reads its target behind itself. -/
def closingLength (b : Build) (parameter : BitVec 32) : Nat :=
  if parameter = eHookParameterJump then
    match b with
    | .win32 => 5
    | .win64 => 6
  else 1

theorem closingLength_le (parameter : BitVec 32) :
    0 < closingLength b parameter ∧ closingLength b parameter ≤ b.minHookLength := by
  unfold closingLength
  cases b with
  | win32 => split <;> decide
  | win64 => split <;> decide

/-- How far control gets in the trampoline: through its body and the closing instruction. -/
def reachedLength (env : HookEnv b) (s : Loader b) (source : Bytes) (address : Addr b)
    (behavior parameter : BitVec 32) : Nat :=
  ((trampolineBody behavior (compileHook env s source).code
    (load s.mem address (hookLen env s address).toNat)).getD []).length + closingLength b parameter

/-- A block of the allocator: it does not wrap, and nothing else makes its pages executable. -/
structure HeapBlock (env : HookEnv b) (s : Loader b) (source : Bytes) (address : Addr b) : Prop where
  fits : env.hookPtr.toNat + trampolineSize env s source address ≤ 2 ^ b.bits
  data : ∀ page, InPages env.hookPtr (trampolineSize env s source address) page →
    ¬ Executable (restoredProt s.prot address (hookLen env s address).toNat page)

variable (address parameter) in
/-- Control stays in the block, and goes past the code. -/
theorem reachedLength_le (hb : KnownBehavior behavior) :
    (compileHook env s source).code.length < reachedLength env s source address behavior parameter
      ∧ reachedLength env s source address behavior parameter
        ≤ trampolineSize env s source address := by
  obtain ⟨hpos, hmin⟩ := closingLength_le (b := b) parameter
  obtain ⟨body, hbody⟩ := hb.body (compileHook env s source).code
    (load s.mem address (hookLen env s address).toNat)
  have hle := trampolineBody_length hbody
  have hge := le_length_trampolineBody hbody
  rw [length_load] at hle
  unfold reachedLength trampolineSize
  rw [hbody, Option.getD_some]
  omega

theorem HeapBlock.codeLength (h : HeapBlock env s source address) :
    (codeLength env s source).toNat = (compileHook env s source).code.length := by
  have hfits := h.fits
  have hmin := minHookLength_pos b
  unfold CommonLoader.codeLength
  rw [BitVec.toNat_ofNat]
  exact Nat.mod_eq_of_lt (by unfold trampolineSize at hfits; omega)

/-- After a hook, the code's pages of the block are the executable ones. -/
theorem HeapBlock.executable_iff (h : HeapBlock env s source address) (hb : KnownBehavior behavior)
    {page : Nat} (hpage : InPages env.hookPtr (trampolineSize env s source address) page) :
    Executable ((writeASMHook env s source address behavior parameter).2.prot page) ↔
      InPages env.hookPtr (compileHook env s source).code.length page := by
  rw [writeASMHook_prot hb, h.codeLength]
  by_cases hcode : InPages env.hookPtr (compileHook env s source).code.length page
  · rw [if_pos hcode]
    exact ⟨fun _ => hcode, fun _ => by decide⟩
  · rw [if_neg hcode]
    exact ⟨fun hex => absurd hex (h.data page hpage), fun hin => absurd hin hcode⟩

/--
**When all of the trampoline is executable**: when there is code in it, and the closing
instruction ends on the page that the code ends on.
-/
theorem trampoline_executable (h : HeapBlock env s source address) :
    ((writeASMHook env s source address behavior parameter).1 = true →
      ∀ i, i < reachedLength env s source address behavior parameter →
        Executable ((writeASMHook env s source address behavior parameter).2.prot
          (pageOf (env.hookPtr + BitVec.ofNat _ i)))) ↔
      (KnownBehavior behavior →
        0 < (compileHook env s source).code.length
          ∧ (env.hookPtr.toNat + reachedLength env s source address behavior parameter - 1) / pageSize
            ≤ (env.hookPtr.toNat + (compileHook env s source).code.length - 1) / pageSize) := by
  have hfits := h.fits
  by_cases hb : KnownBehavior behavior
  · obtain ⟨hpast, hin⟩ := reachedLength_le address parameter hb
    rw [forall_prop_of_true hb, forall_prop_of_true (writeASMHook_installs hb)]
    -- a byte that is reached lies in the block, and is executable if its page is one of the code's
    have hbyte : ∀ i, i < reachedLength env s source address behavior parameter →
        (Executable ((writeASMHook env s source address behavior parameter).2.prot
          (pageOf (env.hookPtr + BitVec.ofNat _ i))) ↔
        InPages env.hookPtr (compileHook env s source).code.length
          ((env.hookPtr.toNat + i) / pageSize)) := by
      intro i hi
      obtain ⟨hpage, hblock⟩ := inPages_pageOf (Nat.lt_of_lt_of_le hi hin) hfits
      rw [h.executable_iff hb hblock, hpage]
    refine ⟨?_, ?_⟩
    · intro hall
      -- the last byte that is reached decides
      have hlast : reachedLength env s source address behavior parameter - 1
          < reachedLength env s source address behavior parameter := by omega
      obtain ⟨hpos, _, hle⟩ := (hbyte _ hlast).mp (hall _ hlast)
      refine ⟨hpos, ?_⟩
      rwa [← Nat.add_sub_assoc (by omega)] at hle
    · rintro ⟨hpos, hle⟩ i hi
      refine (hbyte i hi).mpr ⟨hpos, Nat.div_le_div_right (by omega), ?_⟩
      exact Nat.le_trans (Nat.div_le_div_right (by omega)) hle
  · refine ⟨fun _ hk => absurd hk hb, ?_⟩
    intro _ htrue
    rw [writeASMHook_notKnown hb] at htrue
    exact absurd htrue Bool.false_ne_true

theorem trampoline_executable_nops :
    HeapBlock (nopEnv .win32) twoPages nopSource 0x401000
      ∧ ∀ i, i < reachedLength (nopEnv .win32) twoPages nopSource 0x401000 eHookBehaviorAfter
          eHookParameterJump →
        Executable ((writeASMHook (nopEnv .win32) twoPages nopSource 0x401000 eHookBehaviorAfter
          eHookParameterJump).2.prot (pageOf ((nopEnv .win32).hookPtr + BitVec.ofNat _ i))) := by
  have h : HeapBlock (nopEnv .win32) twoPages nopSource 0x401000 := by
    refine ⟨by decide +kernel, ?_⟩
    rintro page ⟨_, hge, hle⟩
    obtain rfl : page = 0x20 := Nat.le_antisymm (Nat.le_trans hle (by decide +kernel))
      (Nat.le_trans (by decide +kernel) hge)
    decide +kernel
  exact ⟨h, (trampoline_executable h).mpr (fun _ => ⟨by decide +kernel, by decide +kernel⟩)
    (by decide +kernel)⟩

/-- Four no-ops, in assembly. -/
def fourNops : Bytes := ascii "nop; nop; nop; nop"

/-- They end at the end of a page. -/
def pageEndEnv : HookEnv .win32 where
  csDisasm := decodeNops
  assembler := fun _ _ _ => ⟨false, 4, [], 0, List.replicate 4 0x90⟩
  hookPtr := 0x20FFC

/-- **The closing jump is on the next page**, which stays what the heap made it. -/
theorem closingJump_notExecutable :
    HeapBlock pageEndEnv twoPages fourNops 0x401000
      ∧ (writeASMHook pageEndEnv twoPages fourNops 0x401000 eHookBehaviorReplace eHookParameterJump).1 = true
      ∧ ¬ ∀ i, i < reachedLength pageEndEnv twoPages fourNops 0x401000 eHookBehaviorReplace
          eHookParameterJump →
        Executable ((writeASMHook pageEndEnv twoPages fourNops 0x401000 eHookBehaviorReplace
          eHookParameterJump).2.prot (pageOf (pageEndEnv.hookPtr + BitVec.ofNat _ i))) := by
  refine ⟨⟨by decide +kernel, ?_⟩, by decide +kernel, ?_⟩
  · rintro page ⟨_, hge, hle⟩
    have hfirst : 0x20 ≤ page := Nat.le_trans (by decide +kernel) hge
    have hlast : page ≤ 0x21 := Nat.le_trans hle (by decide +kernel)
    obtain rfl | rfl : page = 0x20 ∨ page = 0x21 := by omega
    · decide +kernel
    · decide +kernel
  · intro h
    exact absurd (h 4 (by decide +kernel)) (by decide +kernel)

end CommonLoader
