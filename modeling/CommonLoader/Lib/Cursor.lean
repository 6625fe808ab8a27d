import Mathlib.Data.List.DropRight
import Mathlib.Data.List.TakeWhile

/-!
# Walking a buffer by position

Code that reads text through a pointer moves a position and looks at the element
under it. Here every look is checked: a position outside of the buffer has no
element, and what depends on it has no result. A walk says where it stops; on a
terminated text it stops inside, at the end of the run that a reader of lists
takes off the front.
-/

namespace Cursor

variable {α : Type*}

/-- How far a walk goes, if it stops before the elements are out. -/
def span (p : α → Bool) : List α → Option Nat
  | [] => none
  | c :: cs => if p c then (span p cs).map (· + 1) else some 0

/-- `while (p(*ptr)) ++ptr;` -/
def walk (p : α → Bool) (buf : List α) (ptr : Nat) : Option Nat :=
  (span p (buf.drop ptr)).map (ptr + ·)

/-- `while (ptr >= start && p(*(--ptr))); ptr++;` -/
def walkBack (p : α → Bool) (buf : List α) (start : Nat) : Nat → Option Nat
  | 0 => if start = 0 then none else some 1
  | ptr + 1 =>
      if ptr + 1 < start then some (ptr + 2)
      else
        match buf[ptr]? with
        | none => none
        | some c => if p c then walkBack p buf start ptr else some (ptr + 1)

/-- The `n` elements from `ptr` on. -/
def slice (buf : List α) (ptr n : Nat) : Option (List α) :=
  if ptr + n ≤ buf.length then some ((buf.drop ptr).take n) else none

/-- Elements written to the front of an array of `size`. -/
def fill (size : Nat) (xs : List α) : Option (List α) :=
  if xs.length ≤ size then some xs else none

/-- One element written to an array. -/
def put (buf : List α) (pos : Nat) (x : α) : Option (List α) :=
  if pos < buf.length then some (buf.set pos x) else none

/-! ## Forward -/

theorem span_eq_some {p : α → Bool} {xs : List α} (h : ∃ c ∈ xs, p c = false) :
    span p xs = some (xs.takeWhile p).length := by
  induction xs with
  | nil =>
    obtain ⟨c, hc, _⟩ := h
    cases hc
  | cons x xs ih =>
    cases hx : p x with
    | true =>
      have hlater : ∃ c ∈ xs, p c = false := by
        obtain ⟨c, hc, hpc⟩ := h
        rcases List.mem_cons.mp hc with rfl | hc
        · rw [hx] at hpc
          cases hpc
        · exact ⟨c, hc, hpc⟩
      unfold span
      rw [hx, if_pos rfl, ih hlater, List.takeWhile_cons_of_pos hx]
      rfl
    | false =>
      unfold span
      rw [hx, if_neg Bool.false_ne_true, List.takeWhile_cons_of_neg (by rw [hx]; exact Bool.false_ne_true)]
      rfl

/-- **A walk** over a buffer that has something to stop at. -/
theorem walk_eq_some {p : α → Bool} {buf : List α} {ptr : Nat}
    (h : ∃ c ∈ buf.drop ptr, p c = false) :
    walk p buf ptr = some (ptr + ((buf.drop ptr).takeWhile p).length) := by
  unfold walk
  rw [span_eq_some h, Option.map_some]

/-! ## Backward -/

theorem walkBack_start {p : α → Bool} {buf : List α} {start : Nat} (h0 : 0 < start)
    (hstart : start ≤ buf.length) : walkBack p buf start start = some start := by
  obtain ⟨ptr, rfl⟩ : ∃ ptr, start = ptr + 1 := ⟨start - 1, by omega⟩
  unfold walkBack
  rw [if_neg (by omega), List.getElem?_eq_getElem (by omega)]
  dsimp only
  split
  · -- one step before the start the walk ends, and the step is taken back
    cases ptr with
    | zero => rfl
    | succ ptr =>
      unfold walkBack
      rw [if_pos (by omega)]
  · rfl

/-- **A walk back** drops the end of what lies between the two positions. -/
theorem walkBack_eq_some (p : α → Bool) (buf : List α) {start : Nat} (h0 : 0 < start) :
    ∀ n, start + n ≤ buf.length →
      walkBack p buf start (start + n)
        = some (start + (((buf.drop start).take n).rdropWhile p).length) := by
  intro n
  induction n with
  | zero =>
    intro h
    rw [List.take_zero, List.rdropWhile_nil]
    exact walkBack_start h0 h
  | succ n ih =>
    intro h
    have hlt : n < (buf.drop start).length := by
      rw [List.length_drop]
      omega
    have hlook : buf[start + n]? = some ((buf.drop start)[n]) := by
      rw [List.getElem?_eq_getElem (by omega), List.getElem_drop]
    rw [← List.take_append_getElem hlt, List.rdropWhile_concat,
      show start + (n + 1) = (start + n) + 1 from rfl]
    unfold walkBack
    rw [if_neg (by omega), hlook]
    dsimp only
    split
    · exact ih (by omega)
    · rw [List.length_append, List.length_take, List.length_singleton, Nat.min_eq_left (by omega)]
      rfl

/-! ## Terminated text -/

section Text

variable {text rest : List α} {nul : α} {ptr : Nat}

theorem getElem?_text (h : ptr ≤ text.length) :
    (text ++ nul :: rest)[ptr]? = some ((text.drop ptr).headD nul) := by
  rcases Nat.lt_or_ge ptr text.length with hlt | hge
  · rw [List.getElem?_append_left hlt, List.drop_eq_getElem_cons hlt, List.getElem?_eq_getElem hlt]
    rfl
  · obtain rfl : ptr = text.length := by omega
    rw [List.getElem?_append_right (by omega), Nat.sub_self, List.drop_length]
    rfl

/-- **A walk over a text** that passes no terminator ends with its run. -/
theorem walk_text {p : α → Bool} (hnul : p nul = false) (h : ptr ≤ text.length) :
    walk p (text ++ nul :: rest) ptr = some (ptr + ((text.drop ptr).takeWhile p).length) := by
  have hdrop : (text ++ nul :: rest).drop ptr = text.drop ptr ++ nul :: rest :=
    List.drop_append_of_le_length h
  have hstop : ∀ xs : List α, (xs ++ nul :: rest).takeWhile p = xs.takeWhile p := by
    intro xs
    induction xs with
    | nil => exact List.takeWhile_cons_of_neg (by rw [hnul]; exact Bool.false_ne_true)
    | cons x xs ih => rw [List.cons_append, List.takeWhile_cons, List.takeWhile_cons, ih]
  rw [walk_eq_some ⟨nul, by rw [hdrop]; simp, hnul⟩, hdrop, hstop]

/-- What is left where a run ends. -/
theorem drop_run (p : α → Bool) (text : List α) (ptr : Nat) :
    text.drop (ptr + ((text.drop ptr).takeWhile p).length) = (text.drop ptr).dropWhile p := by
  have hsplit := List.takeWhile_append_dropWhile (p := p) (l := text.drop ptr)
  rw [← List.drop_drop]
  generalize text.drop ptr = l at hsplit ⊢
  calc l.drop (l.takeWhile p).length
      = (l.takeWhile p ++ l.dropWhile p).drop (l.takeWhile p).length := by rw [hsplit]
    _ = l.dropWhile p := List.drop_left

theorem run_le (p : α → Bool) {text : List α} (h : ptr ≤ text.length) :
    ptr + ((text.drop ptr).takeWhile p).length ≤ text.length := by
  have := (List.takeWhile_prefix (l := text.drop ptr) p).length_le
  rw [List.length_drop] at this
  omega

end Text

/-! ## Loops that may leave the buffer -/

section Loops

variable {β γ : Type*} {R : β → γ → Prop}

/-- A checked loop that keeps up with an unchecked one round by round has a result. -/
theorem foldlM_sim {f : β → α → Option β} {g : γ → α → γ} :
    ∀ {l : List α} {b : β} {c : γ},
      (∀ b c, ∀ x ∈ l, R b c → ∃ b', f b x = some b' ∧ R b' (g c x)) → R b c →
      ∃ b', l.foldlM f b = some b' ∧ R b' (l.foldl g c)
  | [], b, _, _, hbc => ⟨b, rfl, hbc⟩
  | x :: l, b, c, h, hbc => by
    obtain ⟨b', hb', hbc'⟩ := h b c x (List.mem_cons_self ..) hbc
    rw [List.foldlM_cons, hb']
    exact foldlM_sim (fun b c y hy => h b c y (List.mem_cons_of_mem _ hy)) hbc'

/-- The same for a loop over the indices of a table, which may keep count of the rounds. -/
theorem foldlM_range_sim {R : Nat → β → γ → Prop} {f : β → Nat → Option β} {g : γ → α → γ}
    {l : List α} {b : β} {c : γ}
    (h : ∀ b c i x, l[i]? = some x → R i b c → ∃ b', f b i = some b' ∧ R (i + 1) b' (g c x))
    (hbc : R 0 b c) :
    ∃ b', (List.range l.length).foldlM f b = some b' ∧ R l.length b' (l.foldl g c) := by
  induction l using List.reverseRecOn with
  | nil => exact ⟨b, rfl, hbc⟩
  | append_singleton l x ih =>
    have hbefore : ∀ b c i y, l[i]? = some y → R i b c →
        ∃ b', f b i = some b' ∧ R (i + 1) b' (g c y) := by
      intro b c i y hy
      have hi : i < l.length := (List.getElem?_eq_some_iff.mp hy).1
      exact h b c i y (by rw [List.getElem?_append_left hi, hy])
    obtain ⟨b', hb', hbc'⟩ := ih hbefore
    obtain ⟨b'', hb'', hbc''⟩ := h b' _ l.length x List.getElem?_concat_length hbc'
    rw [List.length_append, List.length_singleton, List.range_succ, List.foldlM_append, hb',
      List.foldl_append]
    refine ⟨b'', ?_, hbc''⟩
    rw [Option.bind_eq_bind, Option.bind_some, List.foldlM_cons, hb'']
    rfl

end Loops

end Cursor
