import CommonLoader.Proof.CacheRuns
import CommonLoader.Proof.HashSeparation
import CommonLoader.Proof.Symbols

/-!
# Neighbours

Signatures and symbol names are told apart by their hashes alone. Variants of one
signature, or of one name, that differ in a single byte are never taken for each other: the
hashes differ, so each has its own cache entry and its own symbol.
-/

namespace CommonLoader

open ByteMemory CText LastWins Mixing

variable {b : Build}

theorem xxh32_ne_of_near {x y : Bytes} (h : Near x y) (seed : UInt32) : xxh32 x seed ≠ xxh32 y seed :=
  let ⟨_, hi⟩ := h
  xxh32_ne hi seed

/-! ## Signatures -/

/-- The patterns differ in one byte, or the masks do. -/
def ScanCall.Near (c c' : ScanCall b) : Prop :=
  Mixing.Near c.signature.1 c'.signature.1 ∨ Mixing.Near c.signature.2 c'.signature.2

theorem ScanCall.Near.key_ne {c c' : ScanCall b} (h : c.Near c') : c.key ≠ c'.key := by
  intro hkey
  rcases h with hpattern | hmask
  · exact xxh32_ne_of_near hpattern 0 (congrArg SignatureKey.pattern hkey)
  · exact xxh32_ne_of_near hmask 0 (congrArg SignatureKey.mask hkey)

/--
**Variants of a signature never answer for it.** After any history of scans over a range
for the signature and for variants of it, in any order, a scan returns what the search
without a cache returns.
-/
theorem scan_among_variants (s : Loader b) (hempty : s.sigLookupCache = ∅) (pBegin : Addr b)
    (size : SizeT b) (h0 : pBegin ≠ 0) (es : List (Event b)) (c : ScanCall b)
    (hes : ∀ e ∈ es ++ [.scan c], OverRange pBegin size e)
    (hvariants : ∀ c' ∈ scanCalls es, c'.signature = c.signature ∨ c'.Near c) :
    c.IsResult s.mem (scan (run s es) c).address
      ∧ (scan (run s es) c).address
        = (scanUncached s c.pattern c.mask c.patternLength c.pBegin c.size true).address := by
  have hc : OverRange pBegin size (.scan c) :=
    hes _ (List.mem_append_right _ (List.mem_singleton_self _))
  have hsound : CacheSound s.mem (scanCalls es) pBegin size (run s es) :=
    cacheSound_run h0 (fun e he => hes e (List.mem_append_left _ he)) (fun _ hc' => hc')
      (cacheSound_init hempty)
  have hres : c.IsResult s.mem (scan (run s es) c).address := by
    refine scan_of_cacheSound hsound h0 hc fun c' hc' hkey => ?_
    rcases hvariants c' hc' with hsame | hnear
    · exact hsame
    · exact absurd hkey hnear.key_ne
  exact ⟨hres, hres.unique (scanUncached_isLeftmost (hc.1 ▸ h0))⟩

/-- Two letters are variants of each other. -/
theorem scanByte_near {letter letter' : UInt8} (hne : letter ≠ letter')
    (pBegin : Addr .win32) (size : SizeT .win32) :
    (scanByte letter pBegin size).Near (scanByte letter' pBegin size) :=
  Or.inl ⟨0, differAt_set (x := [letter]) (a := letter') (by simp) hne⟩

theorem scan_among_variants_letters :
    (scan (run oneLetter [.scan (scanByte 0x42 0x401000 0x10), .setState skipSigValidation 1,
        .scan (scanByte 0x41 0x401000 0x10)]) (scanByte 0x41 0x401000 0x10)).address = 0x401008 := by
  have hsearch : (scanUncached oneLetter (scanByte 0x41 0x401000 0x10).pattern
      (scanByte 0x41 0x401000 0x10).mask 1 0x401000 0x10 true).address = 0x401008 := by
    decide +kernel
  refine ((scan_among_variants oneLetter rfl 0x401000 0x10 (by decide) _ _ (fun e he => ?_)
    fun c hc => ?_).2).trans hsearch
  · simp only [List.cons_append, List.nil_append, List.mem_cons, List.not_mem_nil, or_false] at he
    rcases he with rfl | rfl | rfl | rfl
    · exact ⟨rfl, rfl, by decide⟩
    · trivial
    · exact ⟨rfl, rfl, by decide⟩
    · exact ⟨rfl, rfl, by decide⟩
  · simp only [scanCalls, List.filterMap_cons, List.filterMap_nil, List.mem_cons, List.not_mem_nil,
      or_false] at hc
    rcases hc with rfl | rfl
    · exact Or.inr (scanByte_near (by decide) _ _)
    · exact Or.inl rfl

/-! ## Symbols -/

/-- The name an operation is about, as it is hashed. -/
def SymbolOp.name (ansi : WStr → Bytes) : SymbolOp → Option Bytes
  | .apiSet name _ | .apiGet name _ | .apiRemove name => name
  | .providerSet name _ | .providerGet name | .providerRemove name => managedStringANSI ansi name
  | .resolve symbol => some symbol

/-- What an operation changes is the hash of its name. -/
theorem effect_hash {ansi : WStr → Bytes} {op : SymbolOp} {name : Bytes}
    (hname : op.name ansi = some name) {p : UInt32 × Option (BitVec 64)}
    (hp : p ∈ op.effect ansi) : p.1 = makeStringHash name := by
  cases op with
  | apiSet other value =>
    obtain rfl : other = some name := hname
    rw [← Option.some.inj hp]
  | apiRemove other =>
    obtain rfl : other = some name := hname
    rw [← Option.some.inj hp]
  | providerSet other value =>
    rw [← Option.some.inj hp, show managedStringANSI ansi other = some name from hname]
    rfl
  | providerRemove other =>
    rw [← Option.some.inj hp, show managedStringANSI ansi other = some name from hname]
    rfl
  | apiGet other out => cases hp
  | providerGet other => cases hp
  | resolve symbol => cases hp

/--
**Neighbours of a symbol never touch it.** Whatever is set and removed under names that
differ from it in one character, through any interface and in any order, the symbol
resolves as before.
-/
theorem symbol_among_neighbours (ansi : WStr → Bytes) (s : Loader b) (name : Bytes)
    (ops : List SymbolOp) (hops : ∀ op ∈ ops, ∃ other, op.name ansi = some other ∧ Near other name) :
    resolveSymbol (symbolRun ansi s ops) name = resolveSymbol s name := by
  have hnone : last (makeStringHash name) (ops.filterMap (SymbolOp.effect ansi)) = none := by
    rw [← Option.not_isSome_iff_eq_none, last_isSome]
    intro hmem
    obtain ⟨p, hp, hhash⟩ := List.mem_map.mp hmem
    obtain ⟨op, hop, heffect⟩ := List.mem_filterMap.mp hp
    obtain ⟨other, hother, hnear⟩ := hops op hop
    refine xxh32_ne_of_near hnear 0 ?_
    rw [← show p.1 = xxh32 other 0 from effect_hash hother heffect]
    exact hhash
  have hlookup : resolveSymbol (symbolRun ansi s ops) name = _ :=
    symbolRun_lookup (makeStringHash name) ops s
  rwa [hnone, Option.getD_none] at hlookup

theorem symbol_among_neighbours_sum :
    resolveSymbol (symbolRun (fun _ => []) (setSymbol emptyProcess (some (ascii "sum")) 0x401000)
      [.apiSet (some (ascii "sub")) 0x402000, .apiRemove (some (ascii "sun"))]) (ascii "sum")
      = some 0x401000 := by
  have hvariant : ∀ letter, (0x6D : UInt8) ≠ letter → Near [0x73, 0x75, letter] (ascii "sum") :=
    fun letter hne => ⟨2, (differAt_set (x := [0x73, 0x75, 0x6D]) (by decide) hne).symm⟩
  refine (symbol_among_neighbours _ _ _ _ fun op hop => ?_).trans (by decide +kernel)
  simp only [List.mem_cons, List.not_mem_nil, or_false] at hop
  rcases hop with rfl | rfl
  · exact ⟨ascii "sub", rfl, hvariant 0x62 (by decide)⟩
  · exact ⟨ascii "sun", rfl, hvariant 0x6E (by decide)⟩

end CommonLoader
