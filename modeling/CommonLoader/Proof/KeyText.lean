import CommonLoader.Model.SigScanner
import CommonLoader.Proof.IniText

/-!
# The text of a cache entry

The key of a result goes into the store as two hexadecimal numbers with a dot between
them, and its offset as one. A number never holds the dot, so the text of a pair can
be read in one way only; and none of these characters means anything to the INI
reader.
-/

namespace CommonLoader

open CText

/-! ## One entry -/

theorem printHex_chars {n : Nat} {c : UInt8} (h : c ∈ printHex n) :
    printable c = true ∧ c ≠ 0x3D ∧ c ≠ 0x20 ∧ c ≠ 0x3B ∧ c ≠ 0x5B := by
  have key : ∀ i : Fin 16, printable (hexDigit i) = true ∧ hexDigit i ≠ 0x3D ∧ hexDigit i ≠ 0x20
      ∧ hexDigit i ≠ 0x3B ∧ hexDigit i ≠ 0x5B := by decide +kernel
  obtain ⟨d, hd, rfl⟩ := mem_printHex h
  exact key ⟨d, hd⟩

theorem storableValue_printHex (n : Nat) : StorableValue (printHex n) where
  chars := fun _ hc => (printHex_chars hc).1
  head := fun _ hc => (printHex_chars (List.mem_of_mem_head? hc)).2.2.1
  last := fun _ hc => (printHex_chars (List.mem_of_getLast? hc)).2.2.1

theorem storableKey_text (key : SignatureKey) : StorableKey key.text := by
  have hchars : ∀ c ∈ key.text,
      printable c = true ∧ c ≠ 0x3D ∧ c ≠ 0x20 ∧ c ≠ 0x3B ∧ c ≠ 0x5B := by
    intro c hc
    unfold SignatureKey.text at hc
    rcases List.mem_append.mp hc with hc | hc
    · rcases List.mem_append.mp hc with hc | hc
      · exact printHex_chars hc
      · obtain rfl := List.mem_singleton.mp hc
        decide
    · exact printHex_chars hc
  refine ⟨?_, ?_, ?_⟩
  · intro h
    unfold SignatureKey.text at h
    simp at h
  · intro c hc
    obtain ⟨h1, h2, h3, _⟩ := hchars c hc
    exact ⟨h1, h2, h3⟩
  · intro c hc
    exact (hchars c (List.mem_of_mem_head? hc)).2.2.2

theorem scanUint32_printHex (x : UInt32) {rest : Bytes} (hr : EndsHex rest) :
    scanUint32 (printHex x.toNat ++ rest) = some (x, rest) := by
  have hlt := x.toNat_lt
  unfold scanUint32
  rw [scanHex_printHex (by omega) hr, Option.map_some]
  congr 2
  apply UInt32.toNat_inj.mp
  rw [UInt32.toNat_ofBitVec, BitVec.toNat_setWidth, BitVec.toNat_ofNat,
    Nat.mod_eq_of_lt (show x.toNat < 2 ^ 64 by omega), Nat.mod_eq_of_lt hlt]

/-- **The text of a key is read as the key.** -/
theorem parseString_text (key : SignatureKey) :
    SignatureKey.parseString key.text = some key := by
  have hdot : EndsHex (0x2E :: printHex key.mask.toNat) := by
    intro c hc
    obtain rfl : 0x2E = c := by simpa using hc
    decide
  have hmask := scanUint32_printHex key.mask endsHex_nil
  rw [List.append_nil] at hmask
  unfold SignatureKey.parseString SignatureKey.text
  rw [List.append_assoc, List.singleton_append, scanUint32_printHex key.pattern hdot]
  simp only [hmask]

theorem SignatureKey.text_injective : Function.Injective SignatureKey.text := fun k k' h => by
  have := parseString_text k
  rw [h, parseString_text k'] at this
  exact (Option.some.inj this).symm

theorem SignatureKey.text_chars {key : SignatureKey} {c : UInt8} (h : c ∈ key.text) :
    lowerHex c = true ∨ c = 0x2E := by
  unfold SignatureKey.text at h
  rcases List.mem_append.mp h with h | h
  · rcases List.mem_append.mp h with h | h
    · exact Or.inl (lowerHex_printHex h)
    · exact Or.inr (List.mem_singleton.mp h)
  · exact Or.inl (lowerHex_printHex h)

theorem count_dot_printHex (n : Nat) : (printHex n).count 0x2E = 0 := by
  rw [List.count_eq_zero]
  intro h
  exact absurd (lowerHex_printHex h) (by decide)

theorem count_dot_text (key : SignatureKey) : key.text.count 0x2E = 1 := by
  unfold SignatureKey.text
  rw [List.count_append, List.count_append, count_dot_printHex, count_dot_printHex]
  rfl

theorem SignatureKey.length_text_le (key : SignatureKey) : key.text.length ≤ 17 := by
  have hpattern := (length_printHex_le (n := key.pattern.toNat) (k := 8) (by decide)).mpr
    key.pattern.toNat_lt
  have hmask := (length_printHex_le (n := key.mask.toNat) (k := 8) (by decide)).mpr
    key.mask.toNat_lt
  unfold SignatureKey.text
  rw [List.length_append, List.length_append, List.length_singleton]
  omega

/-! ## The section in the store -/

theorem storableName_scannerSection : StorableName scannerSection := by decide +kernel

/-- The section of the scanner, as it is written. -/
def scannerDoc (entries : List (SignatureKey × BitVec 64)) : Doc :=
  [(scannerSection, entries.map fun e => (e.1.text, printHex e.2.toNat))]

/-- The reader takes nothing in an entry for anything else. -/
theorem iniLoad_scannerDoc (entries : List (SignatureKey × BitVec 64)) :
    iniLoad (iniSave (scannerDoc entries).toIni) = (scannerDoc entries).toIni := by
  have hstorable : StorableSection
      (scannerSection, entries.map fun e => (e.1.text, printHex e.2.toNat)) := by
    refine Or.inr ⟨storableName_scannerSection, ?_⟩
    intro p hp
    obtain ⟨e, _, rfl⟩ := List.mem_map.mp hp
    exact ⟨storableKey_text e.1, storableValue_printHex _⟩
  obtain ⟨hlegible, htidy⟩ := hstorable.legible
  have hnone : ∀ p ∈ ([] : List (Bytes × Bytes)), LegibleOption p := fun _ h => nomatch h
  rw [← iniSave_cons_silent, iniLoad_iniSave hnone (by
    intro sec hsec
    obtain rfl := List.mem_singleton.mp hsec
    exact hlegible)]
  have hnamed : Doc.named (scannerDoc entries) = scannerDoc entries := rfl
  rw [hnamed]
  unfold scannerDoc
  rw [List.map_singleton, tidySection, List.map_congr_left htidy, List.map_id']
  rfl

/-! ## The buffer -/

theorem printHex_fits (offset : BitVec 64) : (printHex offset.toNat).length + 1 ≤ keyBuffer := by
  have hlen := (length_printHex_le (n := offset.toNat) (k := 16) (by decide)).mpr offset.isLt
  unfold keyBuffer
  omega

theorem SignatureKey.text_fits (key : SignatureKey) : key.text.length + 1 ≤ keyBuffer := by
  have hlen := key.length_text_le
  unfold keyBuffer
  omega

/-- **Every key fits.** -/
theorem SignatureKey.makeString_eq (key : SignatureKey) : key.makeString = some (key.text ++ [0]) :=
  sprintfS_eq key.text_fits

theorem makeString_injective : Function.Injective SignatureKey.makeString := by
  intro k k' h
  rw [k.makeString_eq, k'.makeString_eq] at h
  exact SignatureKey.text_injective (List.append_cancel_right (Option.some.inj h))

theorem bufferText_makeString (key : SignatureKey) : bufferText key.makeString = key.text := by
  have hcstr : cstr (key.text ++ [0]) = key.text := by
    refine cstr_terminated fun h => ?_
    rcases SignatureKey.text_chars h with h | h
    · exact absurd h (by decide)
    · exact absurd h (by decide)
  unfold bufferText
  rw [key.makeString_eq, Option.map_some, hcstr]
  rfl

theorem bufferText_offset {b : Build} (moduleInfo : ModuleInfo b) (pMemory : Addr b) :
    bufferText (sprintfS keyBuffer (offsetText moduleInfo pMemory)) = offsetText moduleInfo pMemory := by
  have hbits : (addressUnBased moduleInfo pMemory).toNat < 2 ^ 64 :=
    Nat.lt_of_lt_of_le (BitVec.isLt _) (Nat.pow_le_pow_right (by decide) b.bits_le)
  have hfits : (offsetText moduleInfo pMemory).length + 1 ≤ keyBuffer := by
    have hhex := printHex_fits (BitVec.ofNat 64 (addressUnBased moduleInfo pMemory).toNat)
    rwa [BitVec.toNat_ofNat, Nat.mod_eq_of_lt hbits] at hhex
  have hcstr : cstr (offsetText moduleInfo pMemory ++ [0]) = offsetText moduleInfo pMemory :=
    cstr_terminated fun h => absurd (lowerHex_printHex h) (by decide)
  unfold bufferText
  rw [sprintfS_eq hfits, Option.map_some, hcstr]
  rfl

/-- **What is committed**: the text of the key and of the offset, as neither outgrows its buffer. -/
theorem commitSignatureCache_eq {b : Build} (s : Loader b) (key : SignatureKey) (pMemory : Addr b)
    (env : SaveEnv) : commitSignatureCache s key pMemory env
      = (save (setOption { s with sigLookupCache := s.sigLookupCache.insert key pMemory } scannerSection
          key.text (offsetText s.moduleInfo pMemory)) env).2 := by
  unfold commitSignatureCache
  rw [bufferText_makeString, bufferText_offset]

/-! ## A faithful code -/

/-- What the text of a key is good for. -/
structure FaithfulText (key : SignatureKey) (text : Bytes) : Prop where
  /-- The buffer holds the text and its terminator. -/
  written : key.makeString = some (text ++ [0])
  fits : text.length + 1 ≤ keyBuffer
  chars : ∀ c ∈ text, lowerHex c = true ∨ c = 0x2E
  oneDot : text.count 0x2E = 1
  storable : StorableKey text
  parsed : SignatureKey.parseString text = some key

/-- And that of an offset. -/
structure FaithfulOffset (offset : BitVec 64) (text : Bytes) : Prop where
  written : sprintfS keyBuffer (printHex offset.toNat) = some (text ++ [0])
  fits : text.length + 1 ≤ keyBuffer
  chars : ∀ c ∈ text, lowerHex c = true
  storable : StorableValue text
  parsed : scanHex text = some (offset, [])

theorem faithfulText (key : SignatureKey) : FaithfulText key key.text where
  written := key.makeString_eq
  fits := key.text_fits
  chars := fun _ => SignatureKey.text_chars
  oneDot := count_dot_text key
  storable := storableKey_text key
  parsed := parseString_text key

theorem faithfulOffset (offset : BitVec 64) : FaithfulOffset offset (printHex offset.toNat) where
  written := sprintfS_eq (printHex_fits offset)
  fits := printHex_fits offset
  chars := fun _ => lowerHex_printHex
  storable := storableValue_printHex _
  parsed := by
    have hscan := scanHex_printHex offset.isLt endsHex_nil
    rw [List.append_nil, BitVec.ofNat_toNat, BitVec.setWidth_eq] at hscan
    exact hscan

/--
**A cache entry is a faithful code.** The text of every key and of every offset fits its
buffer, terminator included, and is read as what it was written for, different keys have
different texts, and a section of such entries is read back from the store as it was.
-/
theorem signatureText_faithful :
    (∀ key : SignatureKey, FaithfulText key key.text)
      ∧ Function.Injective SignatureKey.makeString
      ∧ (∀ offset : BitVec 64, FaithfulOffset offset (printHex offset.toNat))
      ∧ ∀ entries, iniLoad (iniSave (scannerDoc entries).toIni) = (scannerDoc entries).toIni :=
  ⟨faithfulText, makeString_injective, faithfulOffset, iniLoad_scannerDoc⟩

end CommonLoader
