import Mathlib.Data.List.Range
import Mathlib.Tactic.Ring
import Mathlib.Tactic.NormNum

/-!
# Byte memory with wrap-around addresses

A flat memory is a function from `w`-bit addresses to bytes. A block is given by
its first address and its length, and an address belongs to it when its distance
from the start, taken modulo `2^w`, is below the length. That way a block is a
block wherever it lies, and nothing below has to ask whether it wraps.

Stores are whole byte strings. The laws a caller needs are the ones for a single
store (what is inside, what is outside), the splitting of a long store into two
adjacent ones, and the round trip of a little-endian number.
-/

namespace ByteMemory

/-- A memory of bytes with `w`-bit addresses. -/
abbrev Mem (w : Nat) := BitVec w → UInt8

variable {w : Nat}

/-- `x` is one of the `n` bytes from `a` on. -/
def InBlock (a : BitVec w) (n : Nat) (x : BitVec w) : Prop := (x - a).toNat < n

instance (a : BitVec w) (n : Nat) (x : BitVec w) : Decidable (InBlock a n x) :=
  inferInstanceAs (Decidable (_ < _))

/-- Two blocks share no address. -/
def Apart (a : BitVec w) (n : Nat) (b : BitVec w) (k : Nat) : Prop :=
  ∀ x, InBlock a n x → ¬ InBlock b k x

/-- Write `bs` from `a` on. -/
def store (m : Mem w) (a : BitVec w) (bs : List UInt8) : Mem w :=
  fun x => (bs[(x - a).toNat]?).getD (m x)

/-- Read `n` bytes from `a` on. -/
def load (m : Mem w) (a : BitVec w) (n : Nat) : List UInt8 :=
  (List.range n).map fun k => m (a + BitVec.ofNat w k)

/-! ## Addresses -/

/-- The distance from `a` to `a + k` is `k`, as long as `k` is a real offset. -/
theorem toNat_add_sub {a : BitVec w} {k : Nat} (h : k < 2 ^ w) :
    (a + BitVec.ofNat w k - a).toNat = k := by
  rw [BitVec.add_comm, BitVec.add_sub_cancel, BitVec.toNat_ofNat, Nat.mod_eq_of_lt h]

/-- Every address is its distance away from `a`. -/
theorem add_toNat_sub (a x : BitVec w) : a + BitVec.ofNat w (x - a).toNat = x := by
  rw [BitVec.ofNat_toNat, BitVec.setWidth_eq, BitVec.add_comm, BitVec.sub_add_cancel]

theorem add_add_ofNat (a : BitVec w) (i j : Nat) :
    a + BitVec.ofNat w i + BitVec.ofNat w j = a + BitVec.ofNat w (i + j) := by
  rw [BitVec.add_assoc, ← BitVec.ofNat_add]

/-- Widening with the sign and cutting back. -/
theorem setWidth_signExtend {v : Nat} (h : w ≤ v) (x : BitVec w) :
    (x.signExtend v).setWidth w = x := by
  refine BitVec.eq_of_getElem_eq fun i hi => ?_
  have hi' : i < v := Nat.lt_of_lt_of_le hi h
  rw [BitVec.getElem_setWidth, BitVec.getLsbD_eq_getElem hi', BitVec.getElem_signExtend, dif_pos hi]

theorem inBlock_iff {a x : BitVec w} {n : Nat} (hn : n ≤ 2 ^ w) :
    InBlock a n x ↔ ∃ k, k < n ∧ x = a + BitVec.ofNat w k := by
  refine ⟨fun h => ⟨(x - a).toNat, h, (add_toNat_sub a x).symm⟩, fun ⟨k, hk, hx⟩ => ?_⟩
  unfold InBlock
  rwa [hx, toNat_add_sub (by omega)]

theorem inBlock_add {a : BitVec w} {n k : Nat} (hn : n ≤ 2 ^ w) (hk : k < n) :
    InBlock a n (a + BitVec.ofNat w k) := (inBlock_iff hn).mpr ⟨k, hk, rfl⟩

theorem Apart.symm {a b : BitVec w} {n k : Nat} (h : Apart a n b k) : Apart b k a n :=
  fun x hb ha => h x ha hb

theorem inBlock_self {a : BitVec w} {n : Nat} (hn : 0 < n) : InBlock a n a := by
  have hzero : (0#w).toNat = 0 := BitVec.toNat_ofNat ..
  unfold InBlock
  rwa [BitVec.sub_self, hzero]

theorem inBlock_part {a x : BitVec w} {n i l : Nat} (h : InBlock (a + BitVec.ofNat w i) l x)
    (hl : i + l ≤ n) : InBlock a n x := by
  have hx := add_toNat_sub (a + BitVec.ofNat w i) x
  rw [add_add_ofNat] at hx
  unfold InBlock at h ⊢
  rw [← hx, BitVec.add_comm, BitVec.add_sub_cancel, BitVec.toNat_ofNat]
  exact Nat.lt_of_le_of_lt (Nat.mod_le _ _) (by omega)

theorem Apart.mono {a b : BitVec w} {n k n' k' : Nat} (h : Apart a n b k) (hn : n' ≤ n)
    (hk : k' ≤ k) : Apart a n' b k' :=
  fun x ha hb => h x (Nat.lt_of_lt_of_le ha hn) (Nat.lt_of_lt_of_le hb hk)

/-- A block that leaves room for another does not fill the address space. -/
theorem Apart.le_pow {a b : BitVec w} {n k : Nat} (h : Apart a n b k) (hk : 0 < k) : n ≤ 2 ^ w := by
  by_cases hn : n ≤ 2 ^ w
  · exact hn
  · exact absurd (inBlock_self hk) (h b (Nat.lt_of_lt_of_le (BitVec.isLt _) (by omega)))

/-- One block ends before the other begins, and neither wraps. -/
theorem Apart.of_le {a b : BitVec w} {n k : Nat} (h : a.toNat + n ≤ b.toNat)
    (hk : b.toNat + k ≤ 2 ^ w) : Apart a n b k := by
  intro x ha hb
  obtain ⟨i, hi, hxa⟩ := (inBlock_iff (by omega)).mp ha
  obtain ⟨j, hj, hxb⟩ := (inBlock_iff (by omega)).mp hb
  have h1 : x.toNat = a.toNat + i := by
    rw [hxa, BitVec.toNat_add, BitVec.toNat_ofNat, Nat.add_mod_mod, Nat.mod_eq_of_lt (by omega)]
  have h2 : x.toNat = b.toNat + j := by
    rw [hxb, BitVec.toNat_add, BitVec.toNat_ofNat, Nat.add_mod_mod, Nat.mod_eq_of_lt (by omega)]
  omega

/-- A part of one block is apart from whatever the block is apart from. -/
theorem Apart.part {a b : BitVec w} {n k i l : Nat} (h : Apart a n b k)
    (hn : n ≤ 2 ^ w) (hl : i + l ≤ n) : Apart (a + BitVec.ofNat w i) l b k := by
  intro x hx
  obtain ⟨j, hj, rfl⟩ := (inBlock_iff (by omega)).mp hx
  refine h _ ?_
  rw [add_add_ofNat]
  exact inBlock_add hn (by omega)

/-! ## One store -/

@[simp] theorem store_nil (m : Mem w) (a : BitVec w) : store m a [] = m := rfl

theorem store_inside {m : Mem w} {a x : BitVec w} {bs : List UInt8}
    (h : (x - a).toNat < bs.length) : store m a bs x = bs[(x - a).toNat] := by
  unfold store
  rw [List.getElem?_eq_getElem h]
  rfl

/-- **Frame.** A store changes nothing outside its block. -/
theorem store_outside {m : Mem w} {a x : BitVec w} {bs : List UInt8}
    (h : ¬ InBlock a bs.length x) : store m a bs x = m x := by
  unfold store
  rw [List.getElem?_eq_none (Nat.not_lt.mp h)]
  rfl

theorem store_add {m : Mem w} {a : BitVec w} {bs : List UInt8} {k : Nat}
    (hk : k < bs.length) (hw : bs.length ≤ 2 ^ w) :
    store m a bs (a + BitVec.ofNat w k) = bs[k] := by
  have hd : (a + BitVec.ofNat w k - a).toNat = k := toNat_add_sub (by omega)
  rw [store_inside (by omega)]
  simp only [hd]

/-- Two adjacent stores are one store of the concatenation. -/
theorem store_append {m : Mem w} {a : BitVec w} {bs cs : List UInt8}
    (hw : bs.length + cs.length ≤ 2 ^ w) :
    store (store m a bs) (a + BitVec.ofNat w bs.length) cs = store m a (bs ++ cs) := by
  funext x
  obtain ⟨k, hk, rfl⟩ : ∃ k, k < 2 ^ w ∧ x = a + BitVec.ofNat w k :=
    ⟨(x - a).toNat, (x - a).isLt, (add_toNat_sub a x).symm⟩
  have hd : (a + BitVec.ofNat w k - a).toNat = k := toNat_add_sub hk
  rcases Nat.lt_or_ge k bs.length with h | h
  · -- inside the first string: the second store does not reach it
    have hout : ¬ InBlock (a + BitVec.ofNat w bs.length) cs.length (a + BitVec.ofNat w k) := by
      intro hin
      obtain ⟨j, hj, he⟩ := (inBlock_iff (by omega)).mp hin
      rw [add_add_ofNat] at he
      have := congrArg (fun y => (y - a).toNat) he
      simp only [hd, toNat_add_sub (show bs.length + j < 2 ^ w by omega)] at this
      omega
    rw [store_outside hout, store_add h (by omega),
      store_add (by rw [List.length_append]; omega) (by rw [List.length_append]; exact hw)]
    exact (List.getElem_append_left h).symm
  · obtain ⟨j, rfl⟩ : ∃ j, k = bs.length + j := ⟨k - bs.length, by omega⟩
    rcases Nat.lt_or_ge j cs.length with hj | hj
    · rw [← add_add_ofNat, store_add hj (by omega), add_add_ofNat,
        store_add (by rw [List.length_append]; omega) (by rw [List.length_append]; exact hw)]
      simp
    · -- past both
      have h1 : ¬ InBlock (a + BitVec.ofNat w bs.length) cs.length
          (a + BitVec.ofNat w (bs.length + j)) := by
        unfold InBlock
        rw [← add_add_ofNat, toNat_add_sub (by omega)]
        omega
      have h2 : ¬ InBlock a bs.length (a + BitVec.ofNat w (bs.length + j)) := by
        unfold InBlock; omega
      have h3 : ¬ InBlock a (bs ++ cs).length (a + BitVec.ofNat w (bs.length + j)) := by
        unfold InBlock; rw [List.length_append]; omega
      rw [store_outside h1, store_outside h2, store_outside h3]

/-! ## Loading -/

@[simp] theorem length_load (m : Mem w) (a : BitVec w) (n : Nat) : (load m a n).length = n := by
  simp [load]

@[simp] theorem getElem_load {m : Mem w} {a : BitVec w} {n k : Nat} (h : k < (load m a n).length) :
    (load m a n)[k] = m (a + BitVec.ofNat w k) := by
  simp [load]

/-- Loads agree where the memories do. -/
theorem load_congr {m m' : Mem w} {a : BitVec w} {n : Nat}
    (h : ∀ k, k < n → m (a + BitVec.ofNat w k) = m' (a + BitVec.ofNat w k)) :
    load m a n = load m' a n := by
  refine List.ext_getElem (by simp) fun k hk _ => ?_
  simp only [length_load] at hk
  simp [h k hk]

theorem load_eq_iff {m : Mem w} {a : BitVec w} {bs : List UInt8} :
    load m a bs.length = bs ↔ ∀ k, (h : k < bs.length) → m (a + BitVec.ofNat w k) = bs[k] := by
  refine ⟨?_, ?_⟩
  · intro h k hk
    have hg : (load m a bs.length)[k]? = bs[k]? := by rw [h]
    rw [List.getElem?_eq_getElem (by simpa using hk), List.getElem?_eq_getElem hk] at hg
    simpa using hg
  · intro h
    refine List.ext_getElem (by simp) fun k hk hk' => ?_
    simpa using h k hk'

/-- What was stored is what is loaded. -/
theorem load_store {m : Mem w} {a : BitVec w} {bs : List UInt8} (hw : bs.length ≤ 2 ^ w) :
    load (store m a bs) a bs.length = bs :=
  load_eq_iff.mpr fun _ hk => store_add hk hw

/-- What was loaded is stored back where it came from, into whatever memory. -/
theorem store_load {m m' : Mem w} {a x : BitVec w} {n : Nat} (h : InBlock a n x) :
    store m' a (load m a n) x = m x := by
  rw [store_inside (by rw [length_load]; exact h), getElem_load, add_toNat_sub]

/-- A load from a block apart from the store sees the old memory. -/
theorem load_store_apart {m : Mem w} {a b : BitVec w} {bs : List UInt8} {n : Nat}
    (h : Apart b n a bs.length) (hn : n ≤ 2 ^ w) : load (store m a bs) b n = load m b n :=
  load_congr fun _ hk => store_outside (h _ (inBlock_add hn hk))

theorem load_add (m : Mem w) (a : BitVec w) (n k : Nat) :
    load m a (n + k) = load m a n ++ load m (a + BitVec.ofNat w n) k := by
  unfold load
  rw [List.range_add, List.map_append, List.map_map]
  congr 1
  refine List.map_congr_left fun j _ => ?_
  show m (a + BitVec.ofNat w (n + j)) = _
  rw [add_add_ofNat]

/-- Reading less. -/
theorem load_take {m : Mem w} {a : BitVec w} {n k : Nat} (h : k ≤ n) :
    (load m a n).take k = load m a k := by
  rw [← Nat.add_sub_cancel' h, load_add, List.take_left' (length_load m a k)]

/-- Reading from further behind. -/
theorem load_drop {m : Mem w} {a : BitVec w} {n k : Nat} (h : k ≤ n) :
    (load m a n).drop k = load m (a + BitVec.ofNat w k) (n - k) := by
  conv_lhs => rw [← Nat.add_sub_cancel' h, load_add, List.drop_left' (length_load m a k)]

/-- Equal blocks have equal parts. -/
theorem load_eq_part {m m' : Mem w} {a a' : BitVec w} {n i l : Nat}
    (h : load m a n = load m' a' n) (hl : i + l ≤ n) :
    load m (a + BitVec.ofNat w i) l = load m' (a' + BitVec.ofNat w i) l := by
  have hbyte : ∀ k, k < n → m (a + BitVec.ofNat w k) = m' (a' + BitVec.ofNat w k) := by
    intro k hk
    have hg : (load m a n)[k]? = (load m' a' n)[k]? := by rw [h]
    rw [List.getElem?_eq_getElem (by simpa using hk), List.getElem?_eq_getElem (by simpa using hk)]
      at hg
    simpa using hg
  refine List.ext_getElem (by simp) fun k hk _ => ?_
  rw [length_load] at hk
  rw [getElem_load, getElem_load, add_add_ofNat, add_add_ofNat]
  exact hbyte _ (by omega)

/-! ## Little-endian numbers -/

/-- The `k` low bytes of `n`, least significant first. -/
def leBytes : Nat → Nat → List UInt8
  | 0, _ => []
  | k + 1, n => UInt8.ofNat (n % 256) :: leBytes k (n / 256)

/-- The number a byte string spells, least significant first. -/
def ofLeBytes : List UInt8 → Nat
  | [] => 0
  | b :: bs => b.toNat + 256 * ofLeBytes bs

@[simp] theorem length_leBytes (k n : Nat) : (leBytes k n).length = k := by
  induction k generalizing n with
  | zero => rfl
  | succ k ih => simp [leBytes, ih]

theorem ofLeBytes_leBytes (k n : Nat) : ofLeBytes (leBytes k n) = n % 256 ^ k := by
  induction k generalizing n with
  | zero => simp [leBytes, ofLeBytes, Nat.mod_one]
  | succ k ih =>
    have hb : (UInt8.ofNat (n % 256)).toNat = n % 256 := by
      rw [UInt8.toNat_ofNat']; omega
    rw [leBytes, ofLeBytes, ih, hb, pow_succ', Nat.mod_mul]

theorem ofLeBytes_leBytes_of_lt {k n : Nat} (h : n < 256 ^ k) : ofLeBytes (leBytes k n) = n := by
  rw [ofLeBytes_leBytes, Nat.mod_eq_of_lt h]

theorem leBytes_ofLeBytes : ∀ bs : List UInt8, leBytes bs.length (ofLeBytes bs) = bs
  | [] => rfl
  | b :: bs => by
    have hb := b.toNat_lt
    rw [List.length_cons, leBytes, ofLeBytes, Nat.add_mul_mod_self_left,
      Nat.mod_eq_of_lt (by omega), UInt8.ofNat_toNat, Nat.add_mul_div_left _ _ (by decide),
      Nat.div_eq_of_lt (by omega), Nat.zero_add, leBytes_ofLeBytes bs]

theorem ofLeBytes_injective {bs bs' : List UInt8} (hlen : bs.length = bs'.length)
    (h : ofLeBytes bs = ofLeBytes bs') : bs = bs' := by
  rw [← leBytes_ofLeBytes bs, ← leBytes_ofLeBytes bs', hlen, h]

theorem ofLeBytes_lt (bs : List UInt8) : ofLeBytes bs < 256 ^ bs.length := by
  have h := ofLeBytes_leBytes bs.length (ofLeBytes bs)
  rw [leBytes_ofLeBytes] at h
  rw [h]
  exact Nat.mod_lt _ (Nat.pow_pos (by decide))

end ByteMemory
