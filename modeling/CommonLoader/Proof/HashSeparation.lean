import CommonLoader.Lib.Mixing
import CommonLoader.Model.Xxhash

/-!
# What XXH32 tells apart

Two inputs of one length that differ in a single byte never have the same hash. Every word
of the input goes into one lane, and in one round; lanes, words and bytes are mixed by
steps that are injective in what they add and in what they had; and of the four lanes that
are summed up at the end three are the same.
-/

namespace CommonLoader

open ByteMemory CText Mixing

/-! ## The steps -/

theorem xxhRotl32_toBitVec (x : UInt32) {r : UInt32} (h0 : 0 < r.toNat) (hr : r.toNat < 32) :
    (xxhRotl32 x r).toBitVec = x.toBitVec.rotateLeft r.toNat := by
  have hleft : (r.toBitVec % 32).toNat = r.toNat := by
    rw [BitVec.toNat_umod]
    exact Nat.mod_eq_of_lt hr
  have hright : ((32 - r).toBitVec % 32).toNat = 32 - r.toNat := by
    have hle : r ≤ 32 := UInt32.le_iff_toNat_le.mpr (Nat.le_of_lt hr)
    rw [BitVec.toNat_umod, UInt32.toNat_toBitVec, UInt32.toNat_sub_of_le _ _ hle]
    exact Nat.mod_eq_of_lt (show 32 - r.toNat < 32 by omega)
  unfold xxhRotl32
  rw [UInt32.toBitVec_or, UInt32.toBitVec_shiftLeft, UInt32.toBitVec_shiftRight,
    BitVec.rotateLeft_def, Nat.mod_eq_of_lt hr, BitVec.shiftLeft_eq', BitVec.ushiftRight_eq', hleft,
    hright]

theorem xxhRotl32_injective {r : UInt32} (h0 : 0 < r.toNat) (hr : r.toNat < 32) :
    Function.Injective fun x => xxhRotl32 x r := by
  intro x y hxy
  have hbits := congrArg UInt32.toBitVec (show xxhRotl32 x r = xxhRotl32 y r from hxy)
  rw [xxhRotl32_toBitVec x h0 hr, xxhRotl32_toBitVec y h0 hr] at hbits
  exact UInt32.toBitVec_inj.mp (rotateLeft_injective hr hbits)

/-- Add a multiple of the piece, rotate, multiply: the shape of every step. -/
theorem mix_injective {p p' q q' r : UInt32} (hp : p * p' = 1) (hq : q * q' = 1) (h0 : 0 < r.toNat)
    (hr : r.toNat < 32) :
    (∀ c, Function.Injective fun hash => xxhRotl32 (hash + c * p) r * q)
      ∧ ∀ hash, Function.Injective fun c => xxhRotl32 (hash + c * p) r * q := by
  refine ⟨fun c x y hxy => ?_, fun hash x y hxy => ?_⟩
  · exact (UInt32.add_left_inj _).mp (xxhRotl32_injective h0 hr (mul_injective hq hxy))
  · exact mul_injective hp ((UInt32.add_right_inj _).mp
      (xxhRotl32_injective h0 hr (mul_injective hq hxy)))

theorem xxh32Round_injective : (∀ input, Function.Injective fun acc => xxh32Round acc input)
    ∧ ∀ acc, Function.Injective (xxh32Round acc) :=
  mix_injective (show xxhPrime32_2 * 0xB6C92F47 = 1 by decide)
    (show xxhPrime32_1 * 0x0E8B2F51 = 1 by decide) (by decide) (by decide)

/-- `XXH_PROCESS4`, of one word. -/
def xxh32Process4Word (hash word : UInt32) : UInt32 :=
  xxhRotl32 (hash + word * xxhPrime32_3) 17 * xxhPrime32_4

theorem xxh32Process4Word_injective :
    (∀ word, Function.Injective fun hash => xxh32Process4Word hash word)
    ∧ ∀ hash, Function.Injective (xxh32Process4Word hash) :=
  mix_injective (show xxhPrime32_3 * 0xA89ED915 = 1 by decide)
    (show xxhPrime32_4 * 0xA0FE3BCF = 1 by decide) (by decide) (by decide)

theorem xxh32Process1_injective : (∀ c, Function.Injective fun hash => xxh32Process1 hash c)
    ∧ ∀ hash, Function.Injective (xxh32Process1 hash) := by
  obtain ⟨hstate, hpiece⟩ := mix_injective (show xxhPrime32_5 * 0xAE398151 = 1 by decide)
    (show xxhPrime32_1 * 0x0E8B2F51 = 1 by decide) (show 0 < (11 : UInt32).toNat by decide)
    (by decide)
  refine ⟨fun c => hstate c.toUInt32, fun hash c c' hcc => ?_⟩
  have hwide : c.toUInt32 = c'.toUInt32 := hpiece hash hcc
  exact UInt8.toNat_inj.mp (congrArg UInt32.toNat hwide)

theorem xxh32Avalanche_injective : Function.Injective xxh32Avalanche := by
  have hshift : ∀ k : UInt32, 0 < k.toNat → k.toNat < 32 →
      Function.Injective fun x : UInt32 => x ^^^ (x >>> k) := by
    intro k h0 hk x y hxy
    have hbits := congrArg UInt32.toBitVec (show x ^^^ (x >>> k) = y ^^^ (y >>> k) from hxy)
    have hnum : (k.toBitVec % 32).toNat = k.toNat := by
      rw [BitVec.toNat_umod]
      exact Nat.mod_eq_of_lt hk
    rw [UInt32.toBitVec_xor, UInt32.toBitVec_xor, UInt32.toBitVec_shiftRight,
      UInt32.toBitVec_shiftRight, BitVec.ushiftRight_eq', BitVec.ushiftRight_eq', hnum] at hbits
    exact UInt32.toBitVec_inj.mp (xorShift_injective h0 hbits)
  intro x y hxy
  have hmul2 := mul_injective (show xxhPrime32_2 * 0xB6C92F47 = 1 by decide)
  have hmul3 := mul_injective (show xxhPrime32_3 * 0xA89ED915 = 1 by decide)
  exact hshift 15 (by decide) (by decide) (hmul2 (hshift 13 (by decide) (by decide)
    (hmul3 (hshift 16 (by decide) (by decide) hxy))))

/-! ## Words -/

section Words

variable {x y : Bytes} {i : Nat}

theorem xxhGet32bits_ne (h : DifferAt i x y) (hi : i < 4) :
    xxhGet32bits x ≠ xxhGet32bits y := by
  have hlt : ∀ p : Bytes, ofLeBytes (p.take 4) < 2 ^ 32 := by
    intro p
    refine Nat.lt_of_lt_of_le (ofLeBytes_lt _) ?_
    exact Nat.le_trans (Nat.pow_le_pow_right (by decide) (List.length_take_le ..)) (by decide)
  intro he
  have hnum := congrArg UInt32.toNat he
  unfold xxhGet32bits at hnum
  rw [UInt32.toNat_ofNat_of_lt' (hlt x), UInt32.toNat_ofNat_of_lt' (hlt y)] at hnum
  exact (h.take hi).here (congrArg (·[i]?) (ofLeBytes_injective (h.take hi).length hnum))

/-- A word without the byte is the same. -/
theorem xxhGet32bits_drop_eq (h : DifferAt i x y) {p : Nat} (hp : i < p ∨ p + 4 ≤ i) :
    xxhGet32bits (x.drop p) = xxhGet32bits (y.drop p) := by
  unfold xxhGet32bits
  rcases hp with hp | hp
  · rw [h.drop_eq hp]
  · rw [(h.drop (Nat.le_of_add_right_le hp)).take_eq (by omega)]

/-- The words at every so many bytes. -/
def wordsAt (stride start n : Nat) (input : Bytes) : List UInt32 :=
  (List.range n).map fun s => xxhGet32bits (input.drop (stride * s + start))

theorem wordsAt_succ (stride start n : Nat) (input : Bytes) :
    wordsAt stride start (n + 1) input
      = xxhGet32bits (input.drop start) :: wordsAt stride start n (input.drop stride) := by
  unfold wordsAt
  rw [List.range_succ_eq_map, List.map_cons, List.map_map, Nat.mul_zero, Nat.zero_add]
  refine congrArg (_ :: ·) (List.map_congr_left fun s _ => ?_)
  rw [List.drop_drop, Function.comp_apply, Nat.mul_succ]
  congr 2
  omega

/-- The word of the byte is another, and the rest of the words are the same. -/
theorem wordsAt_differ (h : DifferAt i x y) {stride start n s : Nat} (hstride : 4 ≤ stride)
    (hs : s < n) (hlo : stride * s + start ≤ i) (hhi : i < stride * s + start + 4) :
    DifferAt s (wordsAt stride start n x) (wordsAt stride start n y) := by
  refine differAt_map_range hs ?_ fun t _ hts => ?_
  · exact xxhGet32bits_ne (h.drop hlo) (by omega)
  · refine xxhGet32bits_drop_eq h ?_
    rcases Nat.lt_or_gt_of_ne hts with hlt | hgt
    · have := Nat.mul_le_mul_left stride (show t + 1 ≤ s from hlt)
      rw [Nat.mul_succ] at this
      omega
    · have := Nat.mul_le_mul_left stride (show s + 1 ≤ t from hgt)
      rw [Nat.mul_succ] at this
      omega

theorem wordsAt_eq (h : DifferAt i x y) {stride start n : Nat}
    (hout : ∀ s, s < n → i < stride * s + start ∨ stride * s + start + 4 ≤ i) :
    wordsAt stride start n x = wordsAt stride start n y :=
  List.map_congr_left fun s hs => xxhGet32bits_drop_eq h (hout s (List.mem_range.mp hs))

end Words

/-! ## The loops as folds -/

theorem xxh32Process4_eq : ∀ (n : Nat) (hash : UInt32) (ptr : Bytes),
    xxh32Process4 n hash ptr = ((wordsAt 4 0 n ptr).foldl xxh32Process4Word hash, ptr.drop (4 * n))
  | 0, _, _ => rfl
  | n + 1, hash, ptr => by
    rw [xxh32Process4, xxh32Process4_eq n, wordsAt_succ, List.foldl_cons, List.drop_drop,
      Nat.mul_succ, Nat.add_comm]
    rfl

/-- **Each lane takes every fourth word.** -/
theorem xxh32Stripes_eq : ∀ (n : Nat) (v1 v2 v3 v4 : UInt32) (input : Bytes),
    xxh32Stripes n v1 v2 v3 v4 input
      = (xxhRotl32 ((wordsAt 16 0 n input).foldl xxh32Round v1) 1
          + xxhRotl32 ((wordsAt 16 4 n input).foldl xxh32Round v2) 7
          + xxhRotl32 ((wordsAt 16 8 n input).foldl xxh32Round v3) 12
          + xxhRotl32 ((wordsAt 16 12 n input).foldl xxh32Round v4) 18, input.drop (16 * n))
  | 0, _, _, _, _, _ => rfl
  | n + 1, v1, v2, v3, v4, input => by
    rw [xxh32Stripes, xxh32Stripes_eq n, wordsAt_succ, wordsAt_succ, wordsAt_succ, wordsAt_succ,
      List.drop_drop, Nat.mul_succ, Nat.add_comm 16]
    rfl

/-! ## Both halves of the hash -/

section Halves

variable {x y : Bytes} {i : Nat}

theorem xxh32Finalize_injective (ptr : Bytes) (len : Nat) :
    Function.Injective fun hash => xxh32Finalize hash ptr len := by
  intro a b hab
  simp only [xxh32Finalize, xxh32Process4_eq] at hab
  exact foldl_injective xxh32Process4Word_injective.1 _
    (foldl_injective xxh32Process1_injective.1 _ (xxh32Avalanche_injective hab))

/-- The words first, and what is left of the last one byte by byte. -/
theorem xxh32Finalize_separates (h : DifferAt i x y) {len : Nat} (hi : i < len) (hash : UInt32) :
    xxh32Finalize hash x len ≠ xxh32Finalize hash y len := by
  intro he
  simp only [xxh32Finalize, xxh32Process4_eq] at he
  have htails := xxh32Avalanche_injective he
  -- in one of the whole words, or among the bytes behind them
  rcases Nat.lt_or_ge i (4 * (len / 4)) with hword | hbyte
  · have hwords : DifferAt (i / 4) (wordsAt 4 0 (len / 4) x) (wordsAt 4 0 (len / 4) y) :=
      wordsAt_differ h (Nat.le_refl 4) (by omega) (by omega) (by omega)
    rw [h.drop_eq hword] at htails
    exact foldl_separates xxh32Process4Word_injective.1 xxh32Process4Word_injective.2 hwords hash
      (foldl_injective xxh32Process1_injective.1 _ htails)
  · have hwords : wordsAt 4 0 (len / 4) x = wordsAt 4 0 (len / 4) y :=
      wordsAt_eq h fun s hs => Or.inr (by omega)
    rw [hwords] at htails
    exact foldl_separates xxh32Process1_injective.1 xxh32Process1_injective.2
      ((h.drop hbyte).take (by omega)) _ htails

/-- The lane of the byte comes to something else. -/
theorem lane_ne (h : DifferAt i x y) {n start : Nat} (hi : i < 16 * n)
    (hlane : start = 4 * (i % 16 / 4)) (v : UInt32) :
    (wordsAt 16 start n x).foldl xxh32Round v ≠ (wordsAt 16 start n y).foldl xxh32Round v :=
  foldl_separates xxh32Round_injective.1 xxh32Round_injective.2
    (wordsAt_differ h (s := i / 16) (by decide) (by omega) (by omega) (by omega)) v

/-- The other lanes never see it. -/
theorem lane_eq (h : DifferAt i x y) {n : Nat} (start : Nat) (hstart : start < 16) (hmul : 4 ∣ start)
    (hlane : start ≠ 4 * (i % 16 / 4)) :
    wordsAt 16 start n x = wordsAt 16 start n y :=
  wordsAt_eq h fun s _ => by omega

/-- One summand is another, and the rest are the same. -/
theorem xxh32Stripes_separates (h : DifferAt i x y) {n : Nat} (hi : i < 16 * n)
    (v1 v2 v3 v4 : UInt32) :
    (xxh32Stripes n v1 v2 v3 v4 x).1 ≠ (xxh32Stripes n v1 v2 v3 v4 y).1 := by
  intro he
  rw [xxh32Stripes_eq, xxh32Stripes_eq] at he
  have hlanes : 4 * (i % 16 / 4) = 0 ∨ 4 * (i % 16 / 4) = 4 ∨ 4 * (i % 16 / 4) = 8
      ∨ 4 * (i % 16 / 4) = 12 := by omega
  -- the three summands of the other lanes cancel, and the rotation is injective
  rcases hlanes with hl | hl | hl | hl
  · rw [lane_eq h 4 (by decide) (by decide) (by omega),
      lane_eq h 8 (by decide) (by decide) (by omega),
      lane_eq h 12 (by decide) (by decide) (by omega), UInt32.add_left_inj,
      UInt32.add_left_inj, UInt32.add_left_inj] at he
    exact lane_ne h hi hl.symm _ (xxhRotl32_injective (by decide) (by decide) he)
  · rw [lane_eq h 0 (by decide) (by decide) (by omega),
      lane_eq h 8 (by decide) (by decide) (by omega),
      lane_eq h 12 (by decide) (by decide) (by omega), UInt32.add_left_inj,
      UInt32.add_left_inj, UInt32.add_right_inj] at he
    exact lane_ne h hi hl.symm _ (xxhRotl32_injective (by decide) (by decide) he)
  · rw [lane_eq h 0 (by decide) (by decide) (by omega),
      lane_eq h 4 (by decide) (by decide) (by omega),
      lane_eq h 12 (by decide) (by decide) (by omega), UInt32.add_left_inj,
      UInt32.add_right_inj] at he
    exact lane_ne h hi hl.symm _ (xxhRotl32_injective (by decide) (by decide) he)
  · rw [lane_eq h 0 (by decide) (by decide) (by omega),
      lane_eq h 4 (by decide) (by decide) (by omega),
      lane_eq h 8 (by decide) (by decide) (by omega), UInt32.add_right_inj] at he
    exact lane_ne h hi hl.symm _ (xxhRotl32_injective (by decide) (by decide) he)

theorem xxh32Stripes_eq_of_le (h : DifferAt i x y) {n : Nat} (hi : 16 * n ≤ i)
    (v1 v2 v3 v4 : UInt32) :
    (xxh32Stripes n v1 v2 v3 v4 x).1 = (xxh32Stripes n v1 v2 v3 v4 y).1 := by
  have hout : ∀ start, start < 16 → 4 ∣ start → wordsAt 16 start n x = wordsAt 16 start n y :=
    fun start hlt hmul => wordsAt_eq h fun s hs => Or.inr (by omega)
  rw [xxh32Stripes_eq, xxh32Stripes_eq, hout 0 (by decide) (by decide), hout 4 (by decide) (by decide),
    hout 8 (by decide) (by decide), hout 12 (by decide) (by decide)]

theorem xxh32_ne (h : DifferAt i x y) (seed : UInt32) : xxh32 x seed ≠ xxh32 y seed := by
  intro he
  have hlt := h.lt
  unfold xxh32 at he
  rw [← h.length] at he
  by_cases hbig : 16 ≤ x.length
  · simp only [if_pos hbig] at he
    -- in the stripes, or behind them; either way one half is the same on both sides
    rcases Nat.lt_or_ge i (16 * (x.length / 16)) with hin | hout
    · refine xxh32Stripes_separates h hin (seed + xxhPrime32_1 + xxhPrime32_2)
        (seed + xxhPrime32_2) seed (seed - xxhPrime32_1) ?_
      rw [xxh32Stripes_eq, xxh32Stripes_eq, h.drop_eq hin] at he
      rw [xxh32Stripes_eq, xxh32Stripes_eq]
      exact (UInt32.add_left_inj _).mp (xxh32Finalize_injective _ _ he)
    · rw [xxh32Stripes_eq_of_le h hout, xxh32Stripes_eq, xxh32Stripes_eq] at he
      exact xxh32Finalize_separates (h.drop hout) (by omega) _ he
  · simp only [if_neg hbig] at he
    exact xxh32Finalize_separates h (by omega) _ he

/-- **No byte of the input is lost**: whatever the others are, wherever it is, and whatever the
seed, its 256 values have 256 hashes. -/
theorem xxh32_byte_injective (input : Bytes) (seed : UInt32) (hi : i < input.length) :
    Function.Injective fun c => xxh32 (input.set i c) seed := by
  intro c c' he
  by_contra hne
  have hlt : i < (input.set i c).length := by rwa [List.length_set]
  have hdiffer : DifferAt i (input.set i c) (input.set i c') := by
    have hset := differAt_set (a := c') hlt ((List.getElem_set_self hlt).trans_ne hne)
    rwa [List.set_set] at hset
  exact xxh32_ne hdiffer seed he

/-- In the middle of a stripe, and among the bytes at the end. -/
theorem xxh32_byte_injective_alike :
    xxh32 (ascii "no two of these are alike") 0 ≠ xxh32 (ascii "no too of these are alike") 0
      ∧ xxh32 (ascii "no two of these are alike") 0 ≠ xxh32 (ascii "no two of these are alikE") 0 := by
  have hinside := (xxh32_byte_injective (i := 4) (ascii "no two of these are alike") 0
    (by decide +kernel)).ne (show (0x77 : UInt8) ≠ 0x6F by decide)
  have hend := (xxh32_byte_injective (i := 24) (ascii "no two of these are alike") 0
    (by decide +kernel)).ne (show (0x65 : UInt8) ≠ 0x45 by decide)
  exact ⟨hinside, hend⟩

end Halves

end CommonLoader
