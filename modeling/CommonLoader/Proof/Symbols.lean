import CommonLoader.Lib.LastWins
import CommonLoader.Model.AssemblerService

/-!
# The symbol table

The table is keyed by a 32-bit hash of the name. Through every interface it is a map
from hashes to 64-bit values: what counts is the last thing that was done to a hash.
Names of one hash are one symbol.
-/

namespace CommonLoader

open CText LastWins

variable {b : Build} {s : Loader b} {ansi : WStr → Bytes}

/-- An operation, through the interface it is made by. -/
inductive SymbolOp where
  | apiSet (name : Option Bytes) (value : BitVec 64)
  | apiGet (name : Option Bytes) (out : Bool)
  | apiRemove (name : Option Bytes)
  | providerSet (name : Option WStr) (value : BitVec 32)
  | providerGet (name : Option WStr)
  | providerRemove (name : Option WStr)
  | resolve (symbol : Bytes)

def symbolStep (ansi : WStr → Bytes) (s : Loader b) : SymbolOp → Loader b
  | .apiSet name value => setAssemblerSymbolImpl s name value
  | .apiRemove name => (removeAssemblerSymbolImpl s name).2
  | .providerSet name value => MemoryProvider.setAssemblerSymbol ansi s name value
  | .providerRemove name => (MemoryProvider.removeAssemblerSymbol ansi s name).2
  | .apiGet .. | .providerGet _ | .resolve _ => s

/-- The state after a sequence of operations. -/
def symbolRun (ansi : WStr → Bytes) (s : Loader b) (ops : List SymbolOp) : Loader b :=
  ops.foldl (symbolStep ansi) s

/-! ## The table as a map -/

/-- What an operation makes of one hash: a value, or nothing. -/
def SymbolOp.effect (ansi : WStr → Bytes) : SymbolOp → Option (UInt32 × Option (BitVec 64))
  | .apiSet (some name) value => some (makeStringHash name, some value)
  | .apiRemove (some name) => some (makeStringHash name, none)
  | .providerSet name value =>
      some (symbolHash (managedStringANSI ansi name), some (value.setWidth 64))
  | .providerRemove name => some (symbolHash (managedStringANSI ansi name), none)
  | _ => none

/-- What the operations leave for a hash: the last value set, unless it was removed. -/
def symbolTable (ansi : WStr → Bytes) (ops : List SymbolOp) (hash : UInt32) : Option (BitVec 64) :=
  (last hash (ops.filterMap (SymbolOp.effect ansi))).join

theorem setSymbol_lookup (s : Loader b) (name : Option Bytes) (value : BitVec 64) (hash : UInt32) :
    (setSymbol s name value).symbolMap.lookup hash
      = (last hash [(symbolHash name, some value)]).getD (s.symbolMap.lookup hash) := by
  unfold setSymbol
  rw [last, last, Option.none_or]
  by_cases h : symbolHash name = hash
  · subst h
    rw [AList.lookup_insert, if_pos rfl, Option.getD_some]
  · rw [AList.lookup_insert_ne (Ne.symm h), if_neg h, Option.getD_none]

theorem removeSymbol_lookup (s : Loader b) (name : Option Bytes) (hash : UInt32) :
    (removeSymbol s name).2.symbolMap.lookup hash
      = (last hash [(symbolHash name, none)]).getD (s.symbolMap.lookup hash) := by
  unfold removeSymbol
  rw [last, last, Option.none_or]
  by_cases h : symbolHash name = hash
  · subst h
    rw [AList.lookup_erase, if_pos rfl, Option.getD_some]
  · rw [AList.lookup_erase_ne (Ne.symm h), if_neg h, Option.getD_none]

/-- **One operation.** -/
theorem symbolStep_lookup (s : Loader b) (op : SymbolOp) (hash : UInt32) :
    (symbolStep ansi s op).symbolMap.lookup hash
      = (last hash (op.effect ansi).toList).getD (s.symbolMap.lookup hash) := by
  cases op with
  | apiSet name value =>
    -- the exported functions return early on a null name, the managed ones hash it
    cases name with
    | none => rfl
    | some name => exact setSymbol_lookup s (some name) value hash
  | apiRemove name =>
    cases name with
    | none => rfl
    | some name => exact removeSymbol_lookup s (some name) hash
  | providerSet name value => exact setSymbol_lookup s _ _ hash
  | providerRemove name => exact removeSymbol_lookup s _ hash
  | apiGet name out => rfl
  | providerGet name => rfl
  | resolve symbol => rfl

/-- **Any number of operations.** -/
theorem symbolRun_lookup (hash : UInt32) : ∀ (ops : List SymbolOp) (s : Loader b),
    (symbolRun ansi s ops).symbolMap.lookup hash
      = (last hash (ops.filterMap (SymbolOp.effect ansi))).getD (s.symbolMap.lookup hash) := by
  intro ops
  induction ops with
  | nil =>
    intro _
    rfl
  | cons op ops ih =>
    intro s
    have hcons : (op :: ops).filterMap (SymbolOp.effect ansi)
        = (op.effect ansi).toList ++ ops.filterMap (SymbolOp.effect ansi) := by
      cases h : op.effect ansi with
      | none => rw [List.filterMap_cons_none h]; rfl
      | some p => rw [List.filterMap_cons_some h]; rfl
    have ih := ih (symbolStep ansi s op)
    rw [symbolStep_lookup] at ih
    rw [hcons, last_append]
    refine ih.trans ?_
    cases last hash (ops.filterMap (SymbolOp.effect ansi)) <;> rfl

/-- The interfaces show a table: each of them finds the value of the hash of a name. -/
structure ShowsTable (ansi : WStr → Bytes) (s : Loader b) (table : UInt32 → Option (BitVec 64)) :
    Prop where
  apiGet : ∀ name, getAssemblerSymbolImpl s (some name) true = table (makeStringHash name)
  resolve : ∀ symbol, resolveSymbol s symbol = table (makeStringHash symbol)
  apiRemove : ∀ name, (removeAssemblerSymbolImpl s (some name)).1
    = (table (makeStringHash name)).isSome
  providerFound : ∀ name, (MemoryProvider.getAssemblerSymbol ansi s name).1
    = (table (symbolHash (managedStringANSI ansi name))).isSome
  -- of a value that an `unsigned long` can hold
  providerValue : ∀ name value, table (symbolHash (managedStringANSI ansi name)) = some value →
    value.toNat < 2 ^ 32 →
    (MemoryProvider.getAssemblerSymbol ansi s name).2.toNat = value.toNat
  providerRemove : ∀ name, (MemoryProvider.removeAssemblerSymbol ansi s name).1
    = (table (symbolHash (managedStringANSI ansi name))).isSome

theorem showsTable_of_lookup {table : UInt32 → Option (BitVec 64)}
    (h : ∀ hash, s.symbolMap.lookup hash = table hash) : ShowsTable ansi s table := by
  refine ⟨?_, ?_, ?_, ?_, ?_, ?_⟩
  · intro name
    exact h _
  · intro symbol
    exact h _
  · intro name
    exact congrArg Option.isSome (h _)
  · intro name
    exact congrArg Option.isSome (h _)
  · intro name value hv hlt
    unfold MemoryProvider.getAssemblerSymbol getSymbol
    dsimp only
    rw [h, hv, Option.getD_some, BitVec.toNat_setWidth, Nat.mod_eq_of_lt hlt]
  · intro name
    exact congrArg Option.isSome (h _)

/--
**The symbol table is a map keyed by the hash of the name**, after any operations of
a process; and what is done to one hash changes no other.
-/
theorem symbols_by_hash (ansi : WStr → Bytes) (moduleInfo : ModuleInfo b) (mem : ByteMemory.Mem b.bits)
    (prot : Nat → BitVec 32) (files : WStr → Option Bytes) (ops : List SymbolOp) :
    ShowsTable ansi (symbolRun ansi (Loader.start moduleInfo mem prot files) ops)
        (symbolTable ansi ops)
      ∧ ∀ (op : SymbolOp) (hash : UInt32), (∀ p ∈ op.effect ansi, p.1 ≠ hash) →
        symbolTable ansi (ops ++ [op]) hash = symbolTable ansi ops hash := by
  refine ⟨showsTable_of_lookup ?_, ?_⟩
  · intro hash
    rw [symbolRun_lookup]
    unfold symbolTable
    cases last hash (ops.filterMap (SymbolOp.effect ansi)) <;> rfl
  · intro op hash hop
    unfold symbolTable
    rw [List.filterMap_append]
    cases he : op.effect ansi with
    | none => rw [List.filterMap_cons_none he, List.filterMap_nil, List.append_nil]
    | some p =>
      rw [List.filterMap_cons_some he, List.filterMap_nil, last_snoc, if_neg (hop p he)]

/-- A process at `0x400000` without a store. -/
def emptyProcess : Loader .win32 :=
  Loader.start ⟨0x400000, 0x2000⟩ (fun _ => 0) (fun _ => 0x40) fun _ => none

/-- **Two names of one hash**: setting the one makes the other appear. -/
theorem symbols_share_hash :
    ascii "tqt" ≠ ascii "dluw"
      ∧ getAssemblerSymbolImpl emptyProcess (some (ascii "dluw")) true = none
      ∧ getAssemblerSymbolImpl (symbolRun (fun _ => []) emptyProcess
          [.apiSet (some (ascii "tqt")) 0x401000]) (some (ascii "dluw")) true = some 0x401000 := by
  refine ⟨by decide +kernel, by decide +kernel, by decide +kernel⟩

end CommonLoader
