import Mathlib.Data.List.TakeWhile
import Mathlib.Tactic.NormNum

/-!
# Text as the C library reads and writes it

Character strings are byte lists. `%x` and `%llx` print a number in lower-case
hexadecimal without padding; the scanning conversions skip white space, take an
optional sign and an optional `0x`, and then the longest run of hexadecimal
digits, computed in 64 bits and cut to the width of the target.

Between them stand the runs of characters that a reader of text takes off its front.
The one law is the round trip: what a printing conversion wrote, followed by
something that cannot be mistaken for more digits, is scanned as the same number
and leaves exactly the rest.
-/

namespace CText

/-- A string of `char`s. -/
abbrev Bytes := List UInt8

/-- The bytes before the terminator: what a `char*` means as a C string. -/
def cstr (s : Bytes) : Bytes := s.takeWhile (· ≠ 0)

theorem cstr_eq_self {s : Bytes} (h : (0 : UInt8) ∉ s) : cstr s = s := by
  unfold cstr
  rw [List.takeWhile_eq_self_iff]
  intro c hc
  simp only [ne_eq, decide_not, Bool.not_eq_eq_eq_not, Bool.not_true, decide_eq_false_iff_not]
  exact fun h0 => h (h0 ▸ hc)

/-- The bytes of an ASCII literal. -/
def ascii (s : String) : Bytes := s.toList.map fun c => UInt8.ofNat c.toNat

/-! ## Printing -/

/-- `%x`: lower-case hexadecimal, no padding. -/
def printHex (n : Nat) : Bytes := (Nat.toDigits 16 n).map fun c => UInt8.ofNat c.toNat

/-- The character of one hexadecimal digit. -/
def hexDigit (d : Nat) : UInt8 := UInt8.ofNat d.digitChar.toNat

/-- The character of one upper-case digit. -/
def upperHexDigit (d : Nat) : UInt8 := UInt8.ofNat (if d < 10 then 0x30 + d else 0x37 + d)

/-- `%02X` of a byte. -/
def printByte (c : UInt8) : Bytes := [upperHexDigit (c.toNat / 16), upperHexDigit (c.toNat % 16)]

/-- `{}` and `{:X}`: the digits to a base, in upper case. -/
def printDigits (base n : Nat) : Bytes :=
  (Nat.toDigits base n).map fun c => UInt8.ofNat c.toUpper.toNat

theorem printHex_of_lt {n : Nat} (h : n < 16) : printHex n = [hexDigit n] := by
  unfold printHex
  rw [Nat.toDigits_of_lt_base h]
  rfl

theorem printHex_step {n : Nat} (h : 16 ≤ n) :
    printHex n = printHex (n / 16) ++ [hexDigit (n % 16)] := by
  unfold printHex
  rw [Nat.toDigits_of_base_le (by norm_num) h, List.map_append]
  rfl

theorem printHex_ne_nil (n : Nat) : printHex n ≠ [] := by
  unfold printHex
  simp [Nat.toDigits_ne_nil]

/-- The printed characters are the sixteen digits. -/
theorem mem_printHex {n : Nat} {c : UInt8} (h : c ∈ printHex n) :
    ∃ d, d < 16 ∧ c = hexDigit d := by
  induction n using Nat.strongRecOn with
  | ind n ih =>
    rcases Nat.lt_or_ge n 16 with hn | hn
    · rw [printHex_of_lt hn] at h
      exact ⟨n, hn, List.mem_singleton.mp h⟩
    · rw [printHex_step hn] at h
      rcases List.mem_append.mp h with h' | h'
      · exact ih (n / 16) (by omega) h'
      · exact ⟨n % 16, by omega, List.mem_singleton.mp h'⟩

/-- As many digits as the number has to that base. -/
theorem length_printHex_le {n k : Nat} (hk : 0 < k) : (printHex n).length ≤ k ↔ n < 16 ^ k := by
  unfold printHex
  rw [List.length_map]
  exact Nat.length_toDigits_le_iff (by norm_num) hk

/-- `0` to `9` and `a` to `f`. -/
def lowerHex (c : UInt8) : Bool := (0x30 ≤ c && c ≤ 0x39) || (0x61 ≤ c && c ≤ 0x66)

theorem lowerHex_printHex {n : Nat} {c : UInt8} (h : c ∈ printHex n) : lowerHex c = true := by
  have key : ∀ i : Fin 16, lowerHex (hexDigit i) = true := by decide
  obtain ⟨d, hd, rfl⟩ := mem_printHex h
  exact key ⟨d, hd⟩

/-- `sprintf_s`: the text and its terminator, if the buffer has room for them. -/
def sprintfS (bufferSize : Nat) (text : Bytes) : Option Bytes :=
  if text.length + 1 ≤ bufferSize then some (text ++ [0]) else none

theorem sprintfS_eq {bufferSize : Nat} {text : Bytes} (hsize : text.length + 1 ≤ bufferSize) :
    sprintfS bufferSize text = some (text ++ [0]) := if_pos hsize

/-- What was written is the C string that was meant. -/
theorem cstr_terminated {text : Bytes} (h : (0 : UInt8) ∉ text) : cstr (text ++ [0]) = text := by
  have hself := cstr_eq_self h
  unfold cstr at hself ⊢
  rw [List.takeWhile_append_of_pos (List.takeWhile_eq_self_iff.mp hself)]
  exact List.append_nil text

/-! ## Runs -/

theorem takeWhile_run (p : UInt8 → Bool) {xs rest : Bytes} (hx : ∀ c ∈ xs, p c = true)
    (hr : ∀ c ∈ rest.head?, p c = false) :
    (xs ++ rest).takeWhile p = xs ∧ (xs ++ rest).dropWhile p = rest := by
  induction xs with
  | nil =>
    cases rest with
    | nil => simp
    | cons c rest =>
      have hc : p c = false := hr c (by simp)
      simp [hc]
  | cons x xs ih =>
    have hx1 : p x = true := hx x (by simp)
    have ih' := ih fun c hc => hx c (by simp [hc])
    simp [hx1, ih'.1, ih'.2]

/-- A run up to a character that is not in it. -/
theorem takeWhile_until (p : UInt8 → Bool) {xs : Bytes} (c : UInt8) (ys : Bytes)
    (hx : ∀ c ∈ xs, p c = true) (hc : p c = false) :
    (xs ++ c :: ys).takeWhile p = xs ∧ (xs ++ c :: ys).dropWhile p = c :: ys := by
  refine takeWhile_run p hx fun c' hc' => ?_
  obtain rfl : c = c' := by simpa using hc'
  exact hc

/-- A run does not go past a character that is not in it. -/
theorem takeWhile_stop (p : UInt8 → Bool) (xs : Bytes) {c : UInt8} (ys : Bytes) (hc : p c = false) :
    (xs ++ c :: ys).takeWhile p = xs.takeWhile p := by
  induction xs with
  | nil => exact List.takeWhile_cons_of_neg (by rw [hc]; exact Bool.false_ne_true)
  | cons x xs ih => rw [List.cons_append, List.takeWhile_cons, List.takeWhile_cons, ih]

theorem takeWhile_congr {p q : UInt8 → Bool} {xs : Bytes} (h : ∀ c ∈ xs, p c = q c) :
    xs.takeWhile p = xs.takeWhile q := by
  induction xs with
  | nil => rfl
  | cons x xs ih =>
    rw [List.takeWhile_cons, List.takeWhile_cons, h x (List.mem_cons_self ..),
      ih fun c hc => h c (List.mem_cons_of_mem _ hc)]

/-- A run that ends where another one does, at the latest, is part of it. -/
theorem takeWhile_subset_takeWhile {p q : UInt8 → Bool} {l : Bytes}
    (h : ∀ x ∈ (l.dropWhile q).head?, p x = false) : l.takeWhile p ⊆ l.takeWhile q := by
  have hsplit := List.takeWhile_append_dropWhile (p := q) (l := l)
  cases hd : l.dropWhile q with
  | nil =>
    rw [hd, List.append_nil] at hsplit
    rw [hsplit]
    exact List.takeWhile_subset _
  | cons x rest =>
    have hcut : l.takeWhile p = (l.takeWhile q).takeWhile p := by
      rw [hd] at hsplit
      conv_lhs => rw [← hsplit]
      exact takeWhile_stop _ _ _ (h x (by rw [hd]; rfl))
    rw [hcut]
    exact List.takeWhile_subset _

theorem head_dropWhile {p : UInt8 → Bool} {l rest : Bytes} {c : UInt8}
    (h : l.dropWhile p = c :: rest) : p c = false := by
  have hne : l.dropWhile p ≠ [] := by rw [h]; exact List.cons_ne_nil c rest
  have := List.head_dropWhile_not p hne
  simpa [h] using this

/-- A rotated text begins with what it ends with. -/
theorem head_eq_of_rotation {x y : UInt8} {l : Bytes} (h : x :: l = l ++ [y]) : x = y := by
  induction l generalizing x with
  | nil => exact (List.cons.inj h).1
  | cons z l ih =>
    obtain ⟨rfl, hl⟩ := List.cons.inj h
    exact ih hl

/-- What ends a text and ends it one character later is this character over and over. -/
theorem head_of_suffix_shift {u text : Bytes} {x y : UInt8} (hu : u.head? = some x)
    (h : u <:+ text) (h' : u <:+ text ++ [y]) : x = y := by
  obtain ⟨front, rfl⟩ := h
  obtain ⟨front', heq⟩ := h'
  cases u with
  | nil => cases hu
  | cons z l =>
    obtain rfl : z = x := Option.some.inj hu
    have hsplit : front' ++ z :: l = (front ++ [z]) ++ (l ++ [y]) := by
      rw [heq]
      simp
    exact head_eq_of_rotation (List.append_inj' hsplit (by simp)).2

/-! ## Scanning -/

/-- `isspace`. -/
def isSpace (c : UInt8) : Bool := c == 0x20 || (0x09 ≤ c && c ≤ 0x0D)

/-- The value of a hexadecimal digit of either case. -/
def hexVal (c : UInt8) : Option Nat :=
  if 0x30 ≤ c ∧ c ≤ 0x39 then some (c.toNat - 0x30)
  else if 0x61 ≤ c ∧ c ≤ 0x66 then some (c.toNat - 0x57)
  else if 0x41 ≤ c ∧ c ≤ 0x46 then some (c.toNat - 0x37)
  else none

/-- The number a run of digits spells. -/
def hexNat (ds : Bytes) : Nat := ds.foldl (fun n c => 16 * n + (hexVal c).getD 0) 0

/-- The digits themselves: the longest run, which may not be empty. -/
def scanDigits (s : Bytes) : Option (Nat × Bytes) :=
  match s.takeWhile (fun c => (hexVal c).isSome) with
  | [] => none
  | ds => some (hexNat ds, s.dropWhile (fun c => (hexVal c).isSome))

/-- The optional `0x`. -/
def skip0x : Bytes → Bytes
  | 0x30 :: 0x78 :: s => s
  | 0x30 :: 0x58 :: s => s
  | s => s

/-- The optional sign: whether the number is negated, and the rest. -/
def scanSign : Bytes → Bool × Bytes
  | 0x2D :: s => (true, s)
  | 0x2B :: s => (false, s)
  | s => (false, s)

/-- `%x` and its wider forms, in 64 bits: saturating, then negated if signed. -/
def scanHex (s : Bytes) : Option (BitVec 64 × Bytes) :=
  let (neg, s) := scanSign (s.dropWhile isSpace)
  match scanDigits (skip0x s) with
  | none => none
  | some (n, rest) =>
      if 2 ^ 64 ≤ n then some (BitVec.allOnes 64, rest)
      else some (if neg then - BitVec.ofNat 64 n else BitVec.ofNat 64 n, rest)

/-! ## Round trip -/

theorem hexVal_hexDigit {d : Nat} (h : d < 16) : hexVal (hexDigit d) = some d := by
  have key : ∀ i : Fin 16, hexVal (hexDigit i) = some i.val := by decide
  exact key ⟨d, h⟩

theorem hexVal_upperHexDigit {d : Nat} (h : d < 16) : hexVal (upperHexDigit d) = some d := by
  have key : ∀ i : Fin 16, hexVal (upperHexDigit i) = some i.val := by decide
  exact key ⟨d, h⟩

/-- The two digits of a byte are read as the byte. -/
theorem hexNat_printByte (c : UInt8) : UInt8.ofNat (hexNat (printByte c)) = c := by
  have hlt := c.toNat_lt
  have hnat : hexNat (printByte c) = c.toNat := by
    simp only [hexNat, printByte, List.foldl_cons, List.foldl_nil,
      hexVal_upperHexDigit (show c.toNat / 16 < 16 by omega),
      hexVal_upperHexDigit (show c.toNat % 16 < 16 by omega), Option.getD_some]
    omega
  rw [hnat, UInt8.ofNat_toNat]

theorem hexVal_of_mem_printHex {n : Nat} {c : UInt8} (h : c ∈ printHex n) :
    (hexVal c).isSome := by
  obtain ⟨d, hd, rfl⟩ := mem_printHex h
  rw [hexVal_hexDigit hd]; rfl

/-- No digit is a character any earlier stage of the scan would take. -/
theorem hexVal_isSome_plain {c : UInt8} (h : (hexVal c).isSome) :
    isSpace c = false ∧ c ≠ 0x2D ∧ c ≠ 0x2B ∧ c ≠ 0x78 ∧ c ≠ 0x58 ∧ c ≠ 0 := by
  have key : ∀ i : Fin 256, (hexVal (UInt8.ofNat i)).isSome = true →
      isSpace (UInt8.ofNat i) = false ∧ UInt8.ofNat i ≠ 0x2D ∧ UInt8.ofNat i ≠ 0x2B
        ∧ UInt8.ofNat i ≠ 0x78 ∧ UInt8.ofNat i ≠ 0x58 ∧ UInt8.ofNat i ≠ 0 := by decide +kernel
  have := key ⟨c.toNat, c.toNat_lt⟩
  simpa only [UInt8.ofNat_toNat] using this (by simpa only [UInt8.ofNat_toNat] using h)

theorem hexNat_snoc (ds : Bytes) (c : UInt8) :
    hexNat (ds ++ [c]) = 16 * hexNat ds + (hexVal c).getD 0 := by
  simp [hexNat]

theorem hexNat_printHex (n : Nat) : hexNat (printHex n) = n := by
  induction n using Nat.strongRecOn with
  | ind n ih =>
    rcases Nat.lt_or_ge n 16 with hn | hn
    · rw [printHex_of_lt hn]
      simp [hexNat, hexVal_hexDigit hn]
    · rw [printHex_step hn, hexNat_snoc, ih (n / 16) (by omega),
        hexVal_hexDigit (show n % 16 < 16 by omega), Option.getD_some]
      omega

/-! ### To any base up to sixteen -/

/-- The number a run of digits spells to a base. -/
def readDigits (base : Nat) (ds : Bytes) : Nat :=
  ds.foldl (fun n c => base * n + (hexVal c).getD 0) 0

theorem printDigits_of_lt {base n : Nat} (h16 : base ≤ 16) (h : n < base) :
    printDigits base n = [upperHexDigit n] := by
  have key : ∀ i : Fin 16, UInt8.ofNat (Nat.digitChar i).toUpper.toNat = upperHexDigit i := by
    decide
  unfold printDigits
  rw [Nat.toDigits_of_lt_base h, List.map_singleton, key ⟨n, by omega⟩]

theorem printDigits_step {base n : Nat} (h1 : 1 < base) (h16 : base ≤ 16) (h : base ≤ n) :
    printDigits base n = printDigits base (n / base) ++ [upperHexDigit (n % base)] := by
  rw [← printDigits_of_lt h16 (Nat.mod_lt n (by omega))]
  unfold printDigits
  rw [Nat.toDigits_of_base_le h1 h, List.map_append,
    Nat.toDigits_of_lt_base (Nat.mod_lt n (by omega))]

theorem readDigits_snoc (base : Nat) (ds : Bytes) (c : UInt8) :
    readDigits base (ds ++ [c]) = base * readDigits base ds + (hexVal c).getD 0 := by
  unfold readDigits
  rw [List.foldl_append, List.foldl_cons, List.foldl_nil]

theorem readDigits_printDigits {base : Nat} (h1 : 1 < base) (h16 : base ≤ 16) (n : Nat) :
    readDigits base (printDigits base n) = n := by
  induction n using Nat.strongRecOn with
  | ind n ih =>
    rcases Nat.lt_or_ge n base with hn | hn
    · rw [printDigits_of_lt h16 hn]
      simp [readDigits, hexVal_upperHexDigit (show n < 16 by omega)]
    · have hmod := Nat.mod_lt n (show 0 < base by omega)
      rw [printDigits_step h1 h16 hn, readDigits_snoc, ih (n / base) (Nat.div_lt_self (by omega) h1),
        hexVal_upperHexDigit (by omega), Option.getD_some]
      exact Nat.div_add_mod n base

/-- Zeros in front do not count. -/
theorem readDigits_leftpad (base width : Nat) (ds : Bytes) :
    readDigits base (ds.leftpad width 0x30) = readDigits base ds := by
  have hzeros : ∀ k, (List.replicate k (0x30 : UInt8)).foldl
      (fun n c => base * n + (hexVal c).getD 0) 0 = 0 := by
    intro k
    induction k with
    | zero => rfl
    | succ k ih => rw [List.replicate_succ, List.foldl_cons]; exact ih
  unfold readDigits List.leftpad
  rw [List.foldl_append, hzeros]

theorem hexVal_of_mem_printDigits {base n : Nat} (h1 : 1 < base) (h16 : base ≤ 16) {c : UInt8}
    (h : c ∈ printDigits base n) : (hexVal c).isSome := by
  induction n using Nat.strongRecOn with
  | ind n ih =>
    rcases Nat.lt_or_ge n base with hn | hn
    · rw [printDigits_of_lt h16 hn] at h
      rw [List.mem_singleton.mp h, hexVal_upperHexDigit (by omega)]
      rfl
    · have hmod := Nat.mod_lt n (show 0 < base by omega)
      rw [printDigits_step h1 h16 hn] at h
      rcases List.mem_append.mp h with h' | h'
      · exact ih (n / base) (Nat.div_lt_self (by omega) h1) h'
      · rw [List.mem_singleton.mp h', hexVal_upperHexDigit (by omega)]
        rfl

/-- A number at the front of a text, and the rest. -/
def takeNumber (base : Nat) (text : Bytes) : Nat × Bytes :=
  (readDigits base (text.takeWhile fun c => (hexVal c).isSome),
    text.dropWhile fun c => (hexVal c).isSome)

theorem takeNumber_printDigits {base : Nat} (h1 : 1 < base) (h16 : base ≤ 16) (n : Nat) {stop : UInt8}
    (hstop : hexVal stop = none) (rest : Bytes) :
    takeNumber base (printDigits base n ++ stop :: rest) = (n, stop :: rest) := by
  obtain ⟨htake, hdrop⟩ := takeWhile_until (fun c => (hexVal c).isSome) stop rest
    (fun c (hc : c ∈ printDigits base n) => hexVal_of_mem_printDigits h1 h16 hc)
    (by rw [hstop]; rfl)
  unfold takeNumber
  rw [htake, hdrop, readDigits_printDigits h1 h16]

/-! ### Scanned -/

/-- What may follow a printed number without being read as part of it. -/
def EndsHex (rest : Bytes) : Prop :=
  ∀ c ∈ rest.head?, hexVal c = none ∧ c ≠ 0x78 ∧ c ≠ 0x58

theorem endsHex_nil : EndsHex [] := fun _ hc => by cases hc

theorem scanDigits_printHex {n : Nat} {rest : Bytes} (hr : EndsHex rest) :
    scanDigits (printHex n ++ rest) = some (n, rest) := by
  obtain ⟨h1, h2⟩ := takeWhile_run (fun c => (hexVal c).isSome)
    (fun c (hc : c ∈ printHex n) => hexVal_of_mem_printHex hc)
    (fun c hc => by rw [(hr c hc).1]; rfl)
  unfold scanDigits
  rw [h1, h2]
  split
  · rename_i h; exact absurd h (printHex_ne_nil n)
  · rw [hexNat_printHex]

/-- A printed number does not begin like a `0x` prefix. -/
theorem skip0x_printHex {n : Nat} {rest : Bytes} (hr : EndsHex rest) :
    skip0x (printHex n ++ rest) = printHex n ++ rest := by
  cases hp : printHex n with
  | nil => exact absurd hp (printHex_ne_nil n)
  | cons c cs =>
    have hsnd : ∀ x ∈ (cs ++ rest).head?, x ≠ 0x78 ∧ x ≠ 0x58 := by
      cases cs with
      | nil => intro x hx; exact (hr x (by simpa using hx)).2
      | cons c' cs =>
        intro x hx
        have hx' : x = c' := by simpa using hx.symm
        subst hx'
        have := hexVal_isSome_plain (hexVal_of_mem_printHex (n := n) (c := x) (by rw [hp]; simp))
        exact ⟨this.2.2.2.1, this.2.2.2.2.1⟩
    rw [List.cons_append]
    cases hq : cs ++ rest with
    | nil => simp [skip0x]
    | cons x xs =>
      have := hsnd x (by rw [hq]; simp)
      unfold skip0x
      split
      · rename_i h; injection h with _ h; injection h with h _; exact absurd h this.1
      · rename_i h; injection h with _ h; injection h with h _; exact absurd h this.2
      · rfl

/-- **Round trip.** What `%llx` wrote is scanned back, and the rest is left. -/
theorem scanHex_printHex {n : Nat} {rest : Bytes} (hn : n < 2 ^ 64) (hr : EndsHex rest) :
    scanHex (printHex n ++ rest) = some (BitVec.ofNat 64 n, rest) := by
  obtain ⟨c, cs, hp⟩ : ∃ c cs, printHex n = c :: cs :=
    List.exists_cons_of_ne_nil (printHex_ne_nil n)
  have hc : (hexVal c).isSome := hexVal_of_mem_printHex (n := n) (by rw [hp]; simp)
  obtain ⟨hsp, hm, hpl, _⟩ := hexVal_isSome_plain hc
  have hdrop : (printHex n ++ rest).dropWhile isSpace = printHex n ++ rest := by
    rw [hp, List.cons_append, List.dropWhile_cons_of_neg (by simp [hsp])]
  have hsign : scanSign (printHex n ++ rest) = (false, printHex n ++ rest) := by
    rw [hp, List.cons_append]
    unfold scanSign
    split
    · rename_i h; injection h with h _; exact absurd h hm
    · rename_i h; injection h with h _; exact absurd h hpl
    · rfl
  unfold scanHex
  rw [hdrop, hsign]
  simp only [skip0x_printHex hr, scanDigits_printHex hr]
  rw [if_neg (by omega)]
  rfl

end CText
