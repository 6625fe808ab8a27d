import CommonLoader.Model.IniPointer
import CommonLoader.Proof.IniText

/-!
# The INI library stays inside its buffers

The pointers of `ini_load` and `ini_save` never leave what they point into, and what
they do is what the reader and the writer of lists do. The reader rests on the
terminator behind the text: every walk stops there at the latest, and every round of
the outer loop takes at least one character. The writer rests on the count of its
first pass.
-/

namespace CommonLoader

open CText Cursor

theorem toInt_of_lt {n : Nat} (h : n < 2 ^ 31) : toInt n = n := by
  unfold toInt
  rw [BitVec.toInt_ofNat', Int.bmod_eq_of_le (by omega) (by omega)]

/-! ## Strings -/

/-- The string as it is read back. -/
def IniChars.text (s : IniChars) : Bytes := cstr s.chars

/-- What is written of a string is terminated, and the array has room for its part. -/
structure IniChars.Fits (size : Nat) (s : IniChars) : Prop where
  small : s.small.length ≤ size
  terminated : (0 : UInt8) ∈ s.chars

/-- At a pointer stand these characters, and a terminator behind them. -/
def PointsTo (src : Bytes) (ptr : Nat) (text : Bytes) : Prop :=
  ∃ rest, src.drop ptr = text ++ 0 :: rest

theorem cstr_append_nul (text rest : Bytes) : cstr (text ++ 0 :: rest) = cstr text :=
  takeWhile_stop _ _ _ rfl

theorem strlenAt_eq {src text : Bytes} {ptr : Nat} (h : PointsTo src ptr text) :
    strlenAt src ptr = some (cstr text).length := by
  obtain ⟨rest, hdrop⟩ := h
  unfold strlenAt
  rw [walk_eq_some ⟨0, by rw [hdrop]; simp, rfl⟩, hdrop, Option.map_some, Nat.add_sub_cancel_left]
  exact congrArg (fun l => some (List.length l)) (cstr_append_nul text rest)

theorem iniLength_le {text : Bytes} {n : Nat} (h : n ≤ text.length + 1) :
    iniLength text n ≤ text.length + 1 := by
  unfold iniLength
  split
  · exact Nat.le_succ_of_le (List.takeWhile_prefix _).length_le
  · exact h

/-- The length that a call works with. -/
theorem orStrlen_eq {src text : Bytes} {ptr n : Nat} (h : PointsTo src ptr text)
    (hn : n ≤ text.length + 1) (hlen : text.length + 1 < 2 ^ 31) :
    orStrlen src ptr (toInt n) = some (iniLength text n : Int) := by
  have hle := iniLength_le hn
  unfold orStrlen
  rw [toInt_of_lt (by omega)]
  unfold iniLength at hle ⊢
  by_cases h0 : n = 0
  · rw [if_pos h0] at hle
    rw [if_pos (by omega), if_pos h0, strlenAt_eq h, Option.map_some, toInt_of_lt (by omega)]
  · rw [if_neg (by omega), if_neg h0]

/-- **A copy** of no more than the characters and their terminator. -/
theorem IniChars.copy_eq {src text : Bytes} {ptr n : Nat} (h : PointsTo src ptr text)
    (hn : n ≤ text.length + 1) (size : Nat) :
    ∃ s, IniChars.copy size src ptr n = some s ∧ s.Fits size ∧ s.text = cstr (text.take n) := by
  obtain ⟨rest, hdrop⟩ := h
  have hlen : src.length - ptr = text.length + (rest.length + 1) := by
    have := congrArg List.length hdrop
    rwa [List.length_drop, List.length_append, List.length_cons] at this
  have hread : slice src ptr n = some ((src.drop ptr).take n) := by
    unfold slice
    rw [if_pos (by omega)]
  have hchars : ((src.drop ptr).take n).length = n := by
    rw [List.length_take, List.length_drop]
    omega
  -- the terminator may be among the characters copied
  have htext : cstr ((src.drop ptr).take n ++ [0]) = cstr (text.take n) := by
    rw [cstr_append_nul, hdrop]
    rcases Nat.lt_or_ge text.length n with hlt | hge
    · obtain rfl : n = text.length + 1 := by omega
      rw [List.take_of_length_le (Nat.le_succ _), List.take_length_add_append]
      exact cstr_append_nul text []
    · rw [List.take_append_of_le_length hge]
  unfold IniChars.copy
  rw [if_neg (by omega), Int.toNat_natCast, hread]
  simp only [Option.bind_eq_bind, Option.bind_some]
  by_cases hsize : size ≤ n + 1
  · unfold fill
    rw [if_pos hsize, if_pos (by rw [List.length_append, hchars]; exact Nat.le_refl _)]
    exact ⟨_, rfl, ⟨Nat.zero_le _, by simp [IniChars.chars]⟩, htext⟩
  · unfold fill
    rw [if_neg hsize, if_pos (by rw [List.length_append, hchars, List.length_singleton]; omega)]
    refine ⟨_, rfl, ⟨?_, by simp [IniChars.chars]⟩, htext⟩
    dsimp only
    rw [List.length_append, hchars, List.length_singleton]
    omega

/-! ## Tables -/

/-- What the tables hold, as the reader and the writer of lists have it. -/
def IniT.ini (ini : IniT) : Ini :=
  ⟨ini.sections.map fun q => q.name.text,
    ini.properties.map fun q => ⟨q.sectionIndex, q.name.text, q.value.text⟩⟩

/-- The tables have room for their entries, and every string is where it should be. -/
structure IniT.Sound (ini : IniT) : Prop where
  sections_le : ini.sections.length ≤ ini.sectionCapacity
  sections_pos : 0 < ini.sectionCapacity
  properties_le : ini.properties.length ≤ ini.propertyCapacity
  properties_pos : 0 < ini.propertyCapacity
  sections : ∀ q ∈ ini.sections, q.name.Fits 32
  properties : ∀ q ∈ ini.properties,
    q.name.Fits 32 ∧ q.value.Fits 64 ∧ q.sectionIndex < ini.sections.length

theorem IniT.length_sections (ini : IniT) : ini.ini.sections.length = ini.sections.length :=
  List.length_map _

theorem IniT.create_sound : IniT.create.Sound where
  sections_le := by decide
  sections_pos := by decide
  properties_le := by decide
  properties_pos := by decide
  sections := by
    intro q hq
    obtain rfl := List.mem_singleton.mp hq
    exact ⟨by decide, by decide⟩
  properties := by
    intro q hq
    cases hq

theorem lt_grown {count capacity : Nat} (hpos : 0 < capacity) (hle : count ≤ capacity) :
    count < grown count capacity := by
  unfold grown
  split <;> omega

/-- **A section is added** inside of its table. -/
theorem IniT.sectionAdd_eq {ini : IniT} (h : ini.Sound) {src text : Bytes} {name n : Nat}
    (hsrc : PointsTo src name text) (hn : n ≤ text.length + 1) (hlen : text.length + 1 < 2 ^ 31) :
    ∃ ini', ini.sectionAdd src name (toInt n) = some (ini', ini.sections.length) ∧ ini'.Sound
      ∧ ini'.ini = (iniSectionAdd ini.ini text n).1 := by
  obtain ⟨chars, hcopy, hfits, htext⟩ := IniChars.copy_eq hsrc (iniLength_le hn) 32
  have hroom := lt_grown h.sections_pos h.sections_le
  unfold IniT.sectionAdd
  rw [orStrlen_eq hsrc hn hlen]
  simp only [Option.bind_eq_bind, Option.bind_some, hcopy]
  rw [if_pos hroom]
  refine ⟨_, rfl, ⟨?_, Nat.zero_lt_of_lt hroom, h.properties_le, h.properties_pos, ?_, ?_⟩, ?_⟩
  · dsimp only
    rw [List.length_append, List.length_singleton]
    exact hroom
  · intro q hq
    rcases List.mem_append.mp hq with hq | hq
    · exact h.sections q hq
    · obtain rfl := List.mem_singleton.mp hq
      exact hfits
  · intro q hq
    obtain ⟨hname, hvalue, hindex⟩ := h.properties q hq
    refine ⟨hname, hvalue, ?_⟩
    dsimp only
    rw [List.length_append]
    omega
  · unfold IniT.ini iniSectionAdd
    dsimp only
    rw [List.map_append, List.map_singleton, htext]

/-- **A property is added** inside of its table. -/
theorem IniT.propertyAdd_eq {ini : IniT} (h : ini.Sound) {nameSrc valueSrc nameText valueText : Bytes}
    {name value n m : Nat} (s : Nat) (hname : PointsTo nameSrc name nameText)
    (hvalue : PointsTo valueSrc value valueText) (hn : n ≤ nameText.length + 1)
    (hm : m ≤ valueText.length + 1) (hnlen : nameText.length + 1 < 2 ^ 31)
    (hmlen : valueText.length + 1 < 2 ^ 31) :
    ∃ ini', ini.propertyAdd s nameSrc name (toInt n) valueSrc value (toInt m) = some ini'
      ∧ ini'.Sound ∧ ini'.sections = ini.sections
      ∧ ini'.ini = iniPropertyAdd ini.ini s nameText n valueText m := by
  obtain ⟨nameChars, hcopyn, hfitsn, htextn⟩ := IniChars.copy_eq hname (iniLength_le hn) 32
  obtain ⟨valueChars, hcopym, hfitsm, htextm⟩ := IniChars.copy_eq hvalue (iniLength_le hm) 64
  have hroom := lt_grown h.properties_pos h.properties_le
  unfold IniT.propertyAdd iniPropertyAdd
  rw [IniT.length_sections]
  by_cases hs : s < ini.sections.length
  · rw [if_pos hs, if_pos hs, orStrlen_eq hname hn hnlen, orStrlen_eq hvalue hm hmlen]
    simp only [Option.bind_eq_bind, Option.bind_some, hcopyn, hcopym]
    rw [if_pos hroom]
    refine ⟨_, rfl, ⟨h.sections_le, h.sections_pos, ?_, Nat.zero_lt_of_lt hroom, h.sections, ?_⟩,
      rfl, ?_⟩
    · dsimp only
      rw [List.length_append, List.length_singleton]
      exact hroom
    · intro q hq
      rcases List.mem_append.mp hq with hq | hq
      · exact h.properties q hq
      · obtain rfl := List.mem_singleton.mp hq
        exact ⟨hfitsn, hfitsm, hs⟩
    · unfold IniT.ini
      dsimp only
      rw [List.map_append, List.map_singleton, htextn, htextm]
  · rw [if_neg hs, if_neg hs]
    exact ⟨ini, rfl, h, rfl, rfl⟩

/-! ## One round of the reader -/

section Load

variable {text rest : Bytes}

theorem pointsTo_text {ptr : Nat} (h : ptr ≤ text.length) (rest : Bytes) :
    PointsTo (text ++ 0 :: rest) ptr (text.drop ptr) :=
  ⟨rest, List.drop_append_of_le_length h⟩

/-- A walk that also stops at the terminator stops where the run of the text ends. -/
theorem walk_line (h0 : (0 : UInt8) ∉ text) (q : UInt8 → Bool) {ptr : Nat} (h : ptr ≤ text.length)
    (rest : Bytes) :
    walk (fun c => c ≠ 0 && q c) (text ++ 0 :: rest) ptr
      = some (ptr + ((text.drop ptr).takeWhile q).length) := by
  rw [walk_text rfl h]
  refine congrArg (fun l : Bytes => some (ptr + l.length)) (takeWhile_congr fun c hc => ?_)
  have hc0 : c ≠ 0 := fun he => h0 (he ▸ List.mem_of_mem_drop hc)
  rw [decide_eq_true hc0, Bool.true_and]

/--
A round from `ptr` on has a result: the tables stay sound, the pointer moves on inside
of the text, and the reader of lists does the same.
-/
def IniT.Reads (text : Bytes) (ini : IniT) (s ptr : Nat) (r : Option (IniT × Nat × Nat)) : Prop :=
  ∃ ini' s' ptr', r = some (ini', s', ptr') ∧ ini'.Sound ∧ ptr < ptr' ∧ ptr' ≤ text.length
    ∧ ∀ fuel, iniLoadLoop (fuel + 1) ini.ini s (text.drop ptr)
        = iniLoadLoop fuel ini'.ini s' (text.drop ptr')

variable {ini : IniT} {s ptr : Nat} {c : UInt8} {tail : Bytes}

/-- The list reader at a character that is not blank. -/
theorem dropWhile_leSpace (hblank : leSpace c = false) (tail : Bytes) :
    (c :: tail).dropWhile leSpace = c :: tail :=
  List.dropWhile_cons_of_neg (by rw [hblank]; exact Bool.false_ne_true)

theorem lt_of_drop_eq_cons (h : text.drop ptr = c :: tail) : ptr < text.length := by
  have := congrArg List.length h
  rw [List.length_drop, List.length_cons] at this
  omega

theorem drop_succ_of_drop_eq_cons (h : text.drop ptr = c :: tail) : text.drop (ptr + 1) = tail := by
  rw [← List.drop_drop, h]
  rfl

theorem exists_cons_of_headD {l : Bytes} (h : l.headD 0 = c) (hc : c ≠ 0) : ∃ tail, l = c :: tail := by
  cases l with
  | nil => exact absurd h.symm hc
  | cons x tail => exact ⟨tail, congrArg (· :: tail) h⟩

/-- A comment. -/
theorem IniT.reads_comment (h0 : (0 : UInt8) ∉ text) (hini : ini.Sound)
    (hptr : text.drop ptr = 0x3B :: tail) :
    ini.Reads text s ptr (ini.loadEntry (text ++ 0 :: rest) s ptr 0x3B) := by
  have hlt := lt_of_drop_eq_cons hptr
  unfold IniT.loadEntry
  rw [if_pos rfl, walk_line h0 (fun c => c ≠ 0x0A) (by omega)]
  refine ⟨ini, s, _, rfl, hini, ?_, run_le _ (by omega), fun fuel => ?_⟩
  · rw [hptr, List.takeWhile_cons_of_pos (by decide), List.length_cons]
    omega
  · rw [drop_run, hptr, iniLoadLoop, dropWhile_leSpace (by decide)]
    dsimp only
    rw [if_pos rfl]

/-- What a closed header leaves to the list reader. -/
theorem iniLoadLoop_closed {after : Bytes}
    (hclosed : tail.dropWhile (fun c => c ≠ 0x5D && c ≠ 0x0A) = 0x5D :: after) (i : Ini) (fuel : Nat) :
    iniLoadLoop (fuel + 1) i s (0x5B :: tail)
      = iniLoadLoop fuel
          (iniSectionAdd i tail (tail.takeWhile fun c => c ≠ 0x5D && c ≠ 0x0A).length).1
          (iniSectionAdd i tail (tail.takeWhile fun c => c ≠ 0x5D && c ≠ 0x0A).length).2 after := by
  rw [iniLoadLoop, dropWhile_leSpace (by decide)]
  dsimp only
  rw [if_neg (by decide), if_pos rfl, hclosed]
  rfl

/-- And one that is not closed on its line. -/
theorem iniLoadLoop_open
    (hopen : (tail.dropWhile fun c => c ≠ 0x5D && c ≠ 0x0A).headD 0 ≠ 0x5D) (i : Ini) (fuel : Nat) :
    iniLoadLoop (fuel + 1) i s (0x5B :: tail)
      = iniLoadLoop fuel i s (tail.dropWhile fun c => c ≠ 0x5D && c ≠ 0x0A) := by
  rw [iniLoadLoop, dropWhile_leSpace (by decide)]
  dsimp only
  rw [if_neg (by decide), if_pos rfl]
  split
  · rename_i after hafter
    rw [hafter] at hopen
    exact absurd rfl hopen
  · rfl

/-- A header, closed or not. -/
theorem IniT.reads_section (h0 : (0 : UInt8) ∉ text) (hlen : text.length + 1 < 2 ^ 31)
    (hini : ini.Sound) (hptr : text.drop ptr = 0x5B :: tail) :
    ini.Reads text s ptr (ini.loadEntry (text ++ 0 :: rest) s ptr 0x5B) := by
  have hlt := lt_of_drop_eq_cons hptr
  have htail := drop_succ_of_drop_eq_cons hptr
  have hle := run_le (fun c => c ≠ 0x5D && c ≠ 0x0A) (show ptr + 1 ≤ text.length by omega)
  have hend := drop_run (fun c => c ≠ 0x5D && c ≠ 0x0A) text (ptr + 1)
  have hpoints : PointsTo (text ++ 0 :: rest) (ptr + 1) tail := htail ▸ pointsTo_text hlt rest
  rw [htail] at hle hend
  unfold IniT.loadEntry IniT.loadSection
  rw [if_neg (by decide), if_pos rfl, walk_line h0 _ (by omega), htail]
  simp only [Option.bind_eq_bind, Option.bind_some]
  rw [getElem?_text hle, hend]
  simp only [Option.bind_some]
  split
  · rename_i hclosed
    obtain ⟨after, hafter⟩ := exists_cons_of_headD hclosed (by decide)
    obtain ⟨ini', hadd, hsound, habs⟩ := ini.sectionAdd_eq hini hpoints
      (Nat.le_succ_of_le (List.takeWhile_prefix fun c => c ≠ 0x5D && c ≠ 0x0A).length_le)
      (by rw [← htail, List.length_drop]; omega)
    rw [hafter] at hend
    have hclose := lt_of_drop_eq_cons hend
    rw [Nat.add_sub_cancel_left, hadd]
    refine ⟨ini', _, _, rfl, hsound, by omega, hclose, fun fuel => ?_⟩
    rw [hptr, iniLoadLoop_closed hafter, drop_succ_of_drop_eq_cons hend, habs, iniSectionAdd,
      IniT.length_sections]
  · rename_i hopen
    refine ⟨ini, s, _, rfl, hini, by omega, hle, fun fuel => ?_⟩
    rw [hptr, iniLoadLoop_open hopen, hend]

/-- What a line with an equals sign leaves to the list reader. -/
theorem iniLoadLoop_value {start after : Bytes} (hstart : start = c :: tail)
    (hblank : leSpace c = false) (hsemi : c ≠ 0x3B) (hbracket : c ≠ 0x5B)
    (hline : start.dropWhile (fun c => c ≠ 0x3D && c ≠ 0x0A) = 0x3D :: after) (i : Ini) (fuel : Nat)
    {start2 value : Bytes} (hstart2 : after.dropWhile (fun c => leSpace c && c ≠ 0x0A) = start2)
    (hvalue : (start2.takeWhile (· ≠ 0x0A)).rdropWhile leSpace = value) :
    iniLoadLoop (fuel + 1) i s start
      = iniLoadLoop fuel
          (if value.length = 0 then
            iniPropertyAdd i s start (start.takeWhile fun c => c ≠ 0x3D && c ≠ 0x20).length [] 1
          else
            iniPropertyAdd i s start (start.takeWhile fun c => c ≠ 0x3D && c ≠ 0x20).length start2
              value.length) s (start2.drop value.length) := by
  subst hstart hvalue hstart2
  rw [iniLoadLoop, dropWhile_leSpace hblank]
  dsimp only
  rw [if_neg hsemi, if_neg hbracket, hline]
  rfl

/-- And a line without one. -/
theorem iniLoadLoop_bare {start : Bytes} (hstart : start = c :: tail)
    (hblank : leSpace c = false) (hsemi : c ≠ 0x3B) (hbracket : c ≠ 0x5B)
    (hline : (start.dropWhile fun c => c ≠ 0x3D && c ≠ 0x0A).headD 0 ≠ 0x3D) (i : Ini) (fuel : Nat) :
    iniLoadLoop (fuel + 1) i s start
      = iniLoadLoop fuel
          (iniPropertyAdd i s start (start.takeWhile geSpace).length start
            (start.takeWhile geSpace).length) s
          (start.dropWhile fun c => c ≠ 0x3D && c ≠ 0x0A) := by
  subst hstart
  have hnotblank : (c :: tail).dropWhile (fun c => leSpace c && c ≠ 0x0A) = c :: tail :=
    List.dropWhile_cons_of_neg (by simp [hblank])
  rw [iniLoadLoop, dropWhile_leSpace hblank]
  dsimp only
  rw [if_neg hsemi, if_neg hbracket]
  split
  · rename_i after hafter
    rw [hafter] at hline
    exact absurd rfl hline
  · rw [hnotblank]

/-- A line with an equals sign. -/
theorem IniT.reads_value (h0 : (0 : UInt8) ∉ text) (hlen : text.length + 1 < 2 ^ 31)
    (hini : ini.Sound) (hptr : text.drop ptr = c :: tail) (hblank : leSpace c = false)
    (hsemi : c ≠ 0x3B) (hbracket : c ≠ 0x5B) {equals : Nat} {after : Bytes}
    (hequals : text.drop equals = 0x3D :: after)
    (hline : (text.drop ptr).dropWhile (fun c => c ≠ 0x3D && c ≠ 0x0A) = 0x3D :: after)
    (hle : ptr ≤ equals) :
    ini.Reads text s ptr (ini.loadValue (text ++ 0 :: rest) s ptr equals) := by
  have hlt := lt_of_drop_eq_cons hequals
  have hafter := drop_succ_of_drop_eq_cons hequals
  -- the start of the value
  have hle2 := run_le (fun c => leSpace c && c ≠ 0x0A)
    (show equals + 1 ≤ text.length by omega)
  have hdrop2 := drop_run (fun c => leSpace c && c ≠ 0x0A) text (equals + 1)
  rw [hafter] at hle2 hdrop2
  have hwalk2 := walk_line h0 (fun c => leSpace c && c ≠ 0x0A)
    (show equals + 1 ≤ text.length by omega) rest
  rw [hafter] at hwalk2
  generalize hstart2 : equals + 1 + (after.takeWhile fun c => leSpace c && c ≠ 0x0A).length = start2
    at hle2 hdrop2 hwalk2
  -- the end of the line, and back to the end of the value
  have hwalk3 := walk_line h0 (fun c => c ≠ 0x0A) hle2 rest
  have hle3 := run_le (fun c : UInt8 => c ≠ 0x0A) hle2
  generalize hrun : (text.drop start2).takeWhile (fun c => c ≠ 0x0A) = run at hwalk3 hle3
  have hback := walkBack_eq_some leSpace (text ++ 0 :: rest)
    (show 0 < start2 by omega) run.length (by rw [List.length_append]; omega)
  have hseg : ((text ++ 0 :: rest).drop start2).take run.length = run := by
    have hprefix : run <+: text.drop start2 := hrun ▸ List.takeWhile_prefix _
    rw [List.drop_append_of_le_length hle2, List.take_append_of_le_length hprefix.length_le]
    exact (List.prefix_iff_eq_take.mp hprefix).symm
  rw [hseg] at hback
  have hvle : (run.rdropWhile leSpace).length ≤ run.length := (List.rdropWhile_prefix _ _).length_le
  have hround := fun fuel => iniLoadLoop_value (s := s) hptr hblank hsemi hbracket hline ini.ini fuel
    hdrop2.symm (congrArg (List.rdropWhile leSpace) hrun)
  generalize run.rdropWhile leSpace = value at hback hvle hround
  -- the name
  have hwalk1 := walk_line h0 (fun c => c ≠ 0x3D && c ≠ 0x20)
    (show ptr ≤ text.length by omega) rest
  have hname := pointsTo_text (show ptr ≤ text.length by omega) rest
  have hnle := (List.takeWhile_prefix (l := text.drop ptr) fun c => c ≠ 0x3D && c ≠ 0x20).length_le
  generalize (text.drop ptr).takeWhile (fun c => c ≠ 0x3D && c ≠ 0x20) = name at hwalk1 hnle hround
  have hlong : (text.drop ptr).length + 1 < 2 ^ 31 := by
    rw [List.length_drop]
    omega
  unfold IniT.loadValue
  rw [hwalk1]
  simp only [Option.bind_eq_bind, Option.bind_some]
  rw [hwalk2]
  simp only [Option.bind_some]
  rw [hwalk3]
  simp only [Option.bind_some]
  rw [hback]
  simp only [Option.bind_some]
  rw [Nat.add_sub_cancel_left]
  by_cases hempty : value.length = 0
  · -- the literal for an empty value
    have hliteral : PointsTo [0] 0 [] := ⟨[], rfl⟩
    obtain ⟨ini', hadd, hsound, -, habs⟩ := ini.propertyAdd_eq hini s hname hliteral
      (Nat.le_succ_of_le hnle) (Nat.le_refl 1) hlong (by decide)
    rw [if_pos (by omega), show (1 : Int) = toInt 1 from rfl, hadd]
    refine ⟨ini', s, _, rfl, hsound, by omega, by omega, fun fuel => ?_⟩
    rw [hround, if_pos hempty, habs, ← List.drop_drop]
  · obtain ⟨ini', hadd, hsound, -, habs⟩ := ini.propertyAdd_eq hini s hname (pointsTo_text hle2 rest)
      (m := value.length) (Nat.le_succ_of_le hnle) (by rw [List.length_drop]; omega) hlong
      (by rw [List.length_drop]; omega)
    rw [if_neg (by omega), Nat.add_sub_cancel_left, hadd]
    refine ⟨ini', s, _, rfl, hsound, by omega, by omega, fun fuel => ?_⟩
    rw [hround, if_neg hempty, habs, ← List.drop_drop]

/-- A line of either kind. -/
theorem IniT.reads_property (h0 : (0 : UInt8) ∉ text) (hlen : text.length + 1 < 2 ^ 31)
    (hini : ini.Sound) (hptr : text.drop ptr = c :: tail) (hblank : leSpace c = false)
    (hsemi : c ≠ 0x3B) (hbracket : c ≠ 0x5B) :
    ini.Reads text s ptr (ini.loadProperty (text ++ 0 :: rest) s ptr) := by
  have hlt := lt_of_drop_eq_cons hptr
  have hle := run_le (fun c => c ≠ 0x3D && c ≠ 0x0A) (show ptr ≤ text.length by omega)
  have hend := drop_run (fun c => c ≠ 0x3D && c ≠ 0x0A) text ptr
  unfold IniT.loadProperty
  rw [walk_line h0 _ (by omega)]
  simp only [Option.bind_eq_bind, Option.bind_some]
  rw [getElem?_text hle, hend]
  simp only [Option.bind_some]
  by_cases hequals : ((text.drop ptr).dropWhile fun c => c ≠ 0x3D && c ≠ 0x0A).headD 0 = 0x3D
  · obtain ⟨after, hafter⟩ := exists_cons_of_headD hequals (by decide)
    rw [if_pos hequals]
    exact IniT.reads_value h0 hlen hini hptr hblank hsemi hbracket (hend.trans hafter) hafter
      (Nat.le_add_right _ _)
  · -- the walk has stopped at the end of the line or of the text
    have hstop : ((text.drop ptr).dropWhile fun c => c ≠ 0x3D && c ≠ 0x0A).headD 0 = 0x0A
        ∨ ((text.drop ptr).dropWhile fun c => c ≠ 0x3D && c ≠ 0x0A).headD 0 = 0 := by
      cases hd : (text.drop ptr).dropWhile (fun c => c ≠ 0x3D && c ≠ 0x0A) with
      | nil => exact Or.inr rfl
      | cons x after =>
        rw [hd] at hequals
        have := head_dropWhile hd
        exact Or.inl (by simpa [show x ≠ 0x3D from hequals] using this)
    have hnotblank : (text.drop ptr).takeWhile (fun c => leSpace c && c ≠ 0x0A) = [] := by
      rw [hptr]
      exact List.takeWhile_cons_of_neg (by simp [hblank])
    have hnle := (List.takeWhile_prefix (l := text.drop ptr) geSpace).length_le
    have hlong : (text.drop ptr).length + 1 < 2 ^ 31 := by
      rw [List.length_drop]
      omega
    have hpoints := pointsTo_text (Nat.le_of_lt hlt) rest
    obtain ⟨ini', hadd, hsound, -, habs⟩ := ini.propertyAdd_eq hini s hpoints hpoints
      (Nat.le_succ_of_le hnle) (Nat.le_succ_of_le hnle) hlong hlong
    rw [if_neg hequals, if_pos hstop, walk_line h0 (fun c => leSpace c && c ≠ 0x0A) (by omega),
      hnotblank]
    simp only [Option.bind_some, List.length_nil, Nat.add_zero]
    rw [walk_line h0 geSpace (by omega)]
    simp only [Option.bind_some]
    rw [Nat.add_sub_cancel_left, hadd]
    refine ⟨ini', s, _, rfl, hsound, ?_, hle, fun fuel => ?_⟩
    · have hpos : (text.drop ptr).takeWhile (fun c => c ≠ 0x3D && c ≠ 0x0A) ≠ [] := by
        intro hnil
        have hsplit := List.takeWhile_append_dropWhile (p := fun c : UInt8 => c ≠ 0x3D && c ≠ 0x0A)
          (l := text.drop ptr)
        rw [hnil, List.nil_append] at hsplit
        rw [hsplit, hptr] at hequals hstop
        rcases hstop with rfl | rfl
        · exact absurd hblank (by decide)
        · exact absurd hblank (by decide)
      have := List.length_pos_of_ne_nil hpos
      omega
    · rw [iniLoadLoop_bare hptr hblank hsemi hbracket hequals, habs, ← hend]

/-- **A round** of any kind. -/
theorem IniT.reads_entry (h0 : (0 : UInt8) ∉ text) (hlen : text.length + 1 < 2 ^ 31)
    (hini : ini.Sound) (hptr : text.drop ptr = c :: tail) (hblank : leSpace c = false) :
    ini.Reads text s ptr (ini.loadEntry (text ++ 0 :: rest) s ptr c) := by
  by_cases hsemi : c = 0x3B
  · subst hsemi
    exact IniT.reads_comment h0 hini hptr
  · by_cases hbracket : c = 0x5B
    · subst hbracket
      exact IniT.reads_section h0 hlen hini hptr
    · unfold IniT.loadEntry
      rw [if_neg hsemi, if_neg hbracket]
      exact IniT.reads_property h0 hlen hini hptr hblank hsemi hbracket

/-! ## The reader -/

/-- **All rounds**, if there is one for each character and one more. -/
theorem IniT.loadLoop_eq (h0 : (0 : UInt8) ∉ text) (hlen : text.length + 1 < 2 ^ 31) :
    ∀ (rounds fuel : Nat) {ini : IniT} {s ptr : Nat}, ini.Sound → ptr ≤ text.length →
      text.length - ptr < rounds → text.length - ptr ≤ fuel →
      ∃ ini', IniT.loadLoop (text ++ 0 :: rest) rounds ini s ptr = some ini' ∧ ini'.Sound
        ∧ ini'.ini = iniLoadLoop fuel ini.ini s (text.drop ptr) := by
  intro rounds
  induction rounds with
  | zero =>
    intro fuel ini s ptr _ _ hrounds
    omega
  | succ rounds ih =>
    intro fuel ini s ptr hini hptr hrounds hfuel
    have hle := run_le leSpace hptr
    have hend := drop_run leSpace text ptr
    have hblank : iniLoadLoop fuel ini.ini s (text.drop ptr)
        = iniLoadLoop fuel ini.ini s ((text.drop ptr).dropWhile leSpace) := by
      conv_lhs => rw [← List.takeWhile_append_dropWhile (p := leSpace) (l := text.drop ptr)]
      exact iniLoadLoop_blank (fun c hc => List.mem_takeWhile_imp hc) fuel ini.ini s _
    rw [hblank]
    unfold IniT.loadLoop
    rw [getElem?_text hptr, walk_line h0 leSpace hptr]
    simp only [Option.bind_eq_bind, Option.bind_some]
    rw [getElem?_text hle, hend]
    simp only [Option.bind_some]
    cases hd : (text.drop ptr).dropWhile leSpace with
    | nil =>
      rw [iniLoadLoop_nil]
      refine ⟨ini, ?_, hini, rfl⟩
      split
      · rfl
      · rfl
    | cons c tail =>
      have hc := head_dropWhile hd
      have hptr' := hend.trans hd
      have hmore := lt_of_drop_eq_cons hptr'
      have hc0 : c ≠ 0 := by
        rintro rfl
        exact absurd hc (by decide)
      have hhead : ¬(text.drop ptr).headD 0 = 0 := by
        intro he
        cases hl : text.drop ptr with
        | nil =>
          rw [hl] at hd
          cases hd
        | cons x xs =>
          rw [hl] at he
          refine h0 (List.mem_of_mem_drop (i := ptr) ?_)
          rw [hl, ← show x = 0 from he]
          exact List.mem_cons_self ..
      obtain ⟨ini', s', ptr', hread, hsound, hlt, hle', hround⟩ :
          ini.Reads text s _ (ini.loadEntry (text ++ 0 :: rest) s _ c) :=
        IniT.reads_entry h0 hlen hini hptr' hc
      obtain ⟨fuel, rfl⟩ : ∃ n, fuel = n + 1 := ⟨fuel - 1, by omega⟩
      obtain ⟨ini'', hload, hsound', habs⟩ := ih fuel (s := s') hsound hle' (by omega) (by omega)
      rw [if_neg hhead, if_neg (show ¬(c :: tail).headD 0 = 0 from hc0),
        show (c :: tail).headD 0 = c from rfl, hread]
      refine ⟨ini'', hload, hsound', ?_⟩
      rw [habs, ← hround fuel, hptr']

end Load

theorem IniT.create_ini : IniT.create.ini = iniCreate := rfl

/-- **The reader** of a terminated buffer. -/
theorem IniT.load_eq {contents : Bytes} (h : contents.length + 1 < 2 ^ 31) {rounds : Nat}
    (hrounds : contents.length < rounds) :
    ∃ ini, IniT.load (contents ++ [0]) rounds = some ini ∧ ini.Sound
      ∧ ini.ini = iniLoad contents := by
  obtain ⟨rest, hrest⟩ : ∃ rest, contents ++ [0] = cstr contents ++ 0 :: rest := by
    have hsplit := List.takeWhile_append_dropWhile (p := fun c : UInt8 => c ≠ 0) (l := contents)
    cases hd : contents.dropWhile (fun c : UInt8 => c ≠ 0) with
    | nil =>
      rw [hd, List.append_nil] at hsplit
      exact ⟨[], by rw [show cstr contents = contents from hsplit]⟩
    | cons c tail =>
      have hc : c = 0 := by simpa using head_dropWhile hd
      rw [hd, hc] at hsplit
      refine ⟨tail ++ [0], ?_⟩
      conv_lhs => rw [← hsplit]
      exact List.append_assoc _ _ _
  have hle : (cstr contents).length ≤ contents.length := (List.takeWhile_prefix _).length_le
  have h0 : (0 : UInt8) ∉ cstr contents := by
    intro hmem
    exact absurd (List.mem_takeWhile_imp hmem) (by decide)
  unfold IniT.load iniLoad
  rw [hrest]
  exact IniT.loadLoop_eq h0 (by omega) rounds _ IniT.create_sound (Nat.zero_le _) (by omega)
    (Nat.le_refl _)

end CommonLoader
