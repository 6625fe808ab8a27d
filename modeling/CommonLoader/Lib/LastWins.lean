import Mathlib.Data.List.AList

/-!
# The last binding wins

A list of bindings read as a sequence of assignments: what counts for a key is the
last of them. Inserting the bindings into a finite map one after the other computes
just that.

Bindings may come in named groups, and the same name more than once. To take the last
group of a name is not the same as to take the last binding in any of them.
-/

namespace LastWins

variable {κ ν μ : Type} [DecidableEq κ]

/-- The last value bound to `k`. -/
def last (k : κ) : List (κ × ν) → Option ν
  | [] => none
  | p :: l => (last k l).or (if p.1 = k then some p.2 else none)

theorem last_append (k : κ) (l l' : List (κ × ν)) :
    last k (l ++ l') = (last k l').or (last k l) := by
  induction l with
  | nil => rw [List.nil_append, last, Option.or_none]
  | cons p l ih => rw [List.cons_append, last, last, ih, Option.or_assoc]

theorem last_snoc (k : κ) (l : List (κ × ν)) (p : κ × ν) :
    last k (l ++ [p]) = if p.1 = k then some p.2 else last k l := by
  rw [last_append, last, last, Option.none_or]
  split <;> rfl

theorem mem_of_last {k : κ} {v : ν} {l : List (κ × ν)} (h : last k l = some v) : (k, v) ∈ l := by
  induction l with
  | nil => cases h
  | cons p l ih =>
    rw [last] at h
    cases hl : last k l with
    | some v' =>
      rw [hl] at h
      obtain rfl : v' = v := Option.some.inj h
      exact List.mem_cons_of_mem _ (ih hl)
    | none =>
      rw [hl, Option.none_or] at h
      split at h
      · rename_i hk
        obtain rfl := Option.some.inj h
        exact hk ▸ List.mem_cons_self ..
      · cases h

theorem last_isSome {k : κ} {l : List (κ × ν)} : (last k l).isSome ↔ k ∈ l.map Prod.fst := by
  induction l with
  | nil => simp [last]
  | cons p l ih =>
    rw [last, Option.isSome_or, Bool.or_eq_true, ih, List.map_cons, List.mem_cons]
    by_cases hk : p.1 = k
    · simp [hk]
    · simp [hk, Ne.symm hk]

/-- When no key is bound twice, the bindings are the ones in the list. -/
theorem last_eq_some {k : κ} {v : ν} {l : List (κ × ν)} (hnd : (l.map Prod.fst).Nodup) :
    last k l = some v ↔ (k, v) ∈ l := by
  refine ⟨mem_of_last, ?_⟩
  intro h
  induction l with
  | nil => cases h
  | cons p l ih =>
    rw [List.map_cons, List.nodup_cons] at hnd
    rw [last]
    rcases List.mem_cons.mp h with he | hl
    · subst he
      have hnone : last k l = none := by
        rw [← Option.not_isSome_iff_eq_none, last_isSome]
        exact hnd.1
      rw [hnone, Option.none_or, if_pos rfl]
    · rw [ih hnd.2 hl, Option.some_or]

/-- Renaming the keys one to one, and mapping the values. -/
theorem last_map {κ' : Type} [DecidableEq κ'] {f : κ → κ'} (hf : Function.Injective f) (g : ν → μ)
    (k : κ) (l : List (κ × ν)) :
    last (f k) (l.map fun p => (f p.1, g p.2)) = (last k l).map g := by
  induction l with
  | nil => rfl
  | cons p l ih =>
    rw [List.map_cons, last, last, ih]
    by_cases hk : p.1 = k
    · rw [if_pos (congrArg f hk), if_pos hk]
      cases last k l <;> rfl
    · rw [if_neg fun h => hk (hf h), if_neg hk, Option.or_none, Option.or_none]

/-- Leaving out some of the keys. -/
theorem last_filter (p : κ → Bool) (k : κ) (l : List (κ × ν)) :
    last k (l.filter fun b => p b.1) = if p k then last k l else none := by
  induction l with
  | nil => rw [List.filter_nil, last, ite_self]
  | cons b l ih =>
    by_cases hb : p b.1 = true
    · have hcons : (b :: l).filter (fun b => p b.1) = b :: l.filter fun b => p b.1 :=
        List.filter_cons_of_pos hb
      rw [hcons, last, last, ih]
      by_cases hk : b.1 = k
      · rw [← hk, if_pos hb, if_pos hb]
      · rw [if_neg hk, Option.or_none, Option.or_none]
    · have hcons : (b :: l).filter (fun b => p b.1) = l.filter fun b => p b.1 :=
        List.filter_cons_of_neg hb
      rw [hcons, ih, last]
      by_cases hk : b.1 = k
      · rw [← hk, if_neg hb, if_neg hb]
      · rw [if_neg hk, Option.or_none]

/-- Mapping the values, each by its key. -/
theorem last_mapValues (g : κ → ν → μ) (k : κ) (l : List (κ × ν)) :
    last k (l.map fun p => (p.1, g p.1 p.2)) = (last k l).map (g k) := by
  induction l with
  | nil => rfl
  | cons p l ih =>
    rw [List.map_cons, last, last, ih]
    by_cases hk : p.1 = k
    · subst hk
      rw [if_pos rfl, if_pos rfl]
      cases last p.1 l <;> rfl
    · rw [if_neg hk, if_neg hk, Option.or_none, Option.or_none]

/-! ## Groups -/

section Groups

variable {κ' : Type} [DecidableEq κ']

/-- The last binding of `k'` in any group named `k`. -/
def lastIn (k : κ) (k' : κ') (d : List (κ × List (κ' × ν))) : Option ν :=
  last k' ((d.filter fun group => group.1 = k).flatMap Prod.snd)

theorem lastIn_isSome {k : κ} {k' : κ'} {d : List (κ × List (κ' × ν))} :
    (lastIn k k' d).isSome ↔ ∃ group ∈ d, group.1 = k ∧ k' ∈ group.2.map Prod.fst := by
  unfold lastIn
  rw [last_isSome, List.mem_map]
  refine ⟨?_, ?_⟩
  · rintro ⟨p, hp, hk'⟩
    obtain ⟨group, hgroup, hpg⟩ := List.mem_flatMap.mp hp
    obtain ⟨hd, hk⟩ := List.mem_filter.mp hgroup
    exact ⟨group, hd, of_decide_eq_true hk, List.mem_map.mpr ⟨p, hpg, hk'⟩⟩
  · rintro ⟨group, hd, hk, hk'⟩
    obtain ⟨p, hpg, hp⟩ := List.mem_map.mp hk'
    exact ⟨p, List.mem_flatMap.mpr
      ⟨group, List.mem_filter.mpr ⟨hd, decide_eq_true hk⟩, hpg⟩, hp⟩

/-- Without a group of that name there is no binding in one. -/
theorem lastIn_eq_none {k : κ} {d : List (κ × List (κ' × ν))} (h : last k d = none) (k' : κ') :
    lastIn k k' d = none := by
  rw [← Option.not_isSome_iff_eq_none, lastIn_isSome]
  rintro ⟨group, hd, hk, _⟩
  have hsome := last_isSome.mpr (List.mem_map.mpr ⟨group, hd, hk⟩)
  rw [h] at hsome
  cases hsome

/-- The last group of a name comes behind all others of that name. -/
theorem filter_of_last {k : κ} {v : ν} {d : List (κ × ν)} (h : last k d = some v) :
    ∃ front, (d.filter fun p => p.1 = k) = front ++ [(k, v)] := by
  induction d with
  | nil => cases h
  | cons p d ih =>
    rw [last] at h
    cases hd : last k d with
    | some v' =>
      rw [hd] at h
      obtain rfl : v' = v := Option.some.inj h
      obtain ⟨front, hfront⟩ := ih hd
      -- a group in front of the last one stays in front
      by_cases hk : p.1 = k
      · exact ⟨p :: front, by
          rw [List.filter_cons_of_pos (by simpa using hk), hfront, List.cons_append]⟩
      · exact ⟨front, by rw [List.filter_cons_of_neg (by simpa using hk), hfront]⟩
    | none =>
      rw [hd, Option.none_or] at h
      split at h
      · -- it is the only one
        rename_i hk
        obtain rfl := Option.some.inj h
        have hrest : (d.filter fun p => p.1 = k) = [] := by
          rw [List.filter_eq_nil_iff]
          intro q hq hqk
          have := last_isSome.mpr (List.mem_map.mpr ⟨q, hq, of_decide_eq_true hqk⟩)
          rw [hd] at this
          cases this
        refine ⟨[], ?_⟩
        rw [List.filter_cons_of_pos (by simpa using hk), hrest, ← hk]
        rfl
      · cases h

theorem lastIn_of_last {k : κ} {group : List (κ' × ν)} {d : List (κ × List (κ' × ν))}
    (h : last k d = some group) (k' : κ') (hk' : (last k' group).isSome) :
    lastIn k k' d = last k' group := by
  obtain ⟨front, hfront⟩ := filter_of_last h
  unfold lastIn
  rw [hfront, List.flatMap_append, List.flatMap_singleton, last_append, Option.or_of_isSome hk']

/--
**When the last group is enough**: when it binds what any other one does, and what is
bound before all of them.
-/
theorem last_eq_lastIn_or {k : κ} {group : List (κ' × ν)} {d : List (κ × List (κ' × ν))}
    (h : last k d = some group) (k' : κ') (before : Option ν) :
    last k' group = (lastIn k k' d).or before ↔
      (before.isSome ∨ (lastIn k k' d).isSome → (last k' group).isSome) := by
  by_cases hk' : (last k' group).isSome
  · have hsome : (lastIn k k' d).isSome := by rwa [lastIn_of_last h k' hk']
    rw [Option.or_of_isSome hsome, lastIn_of_last h k' hk']
    exact ⟨fun _ _ => hk', fun _ => rfl⟩
  · rw [Option.not_isSome_iff_eq_none.mp hk', eq_comm, Option.or_eq_none_iff]
    refine ⟨?_, ?_⟩
    · rintro ⟨hnone, hbefore⟩ (hsome | hsome)
      · rw [hbefore] at hsome
        cases hsome
      · rw [hnone] at hsome
        cases hsome
    · intro himp
      refine ⟨?_, ?_⟩
      · exact Option.not_isSome_iff_eq_none.mp fun hsome => absurd (himp (Or.inr hsome)) Bool.false_ne_true
      · exact Option.not_isSome_iff_eq_none.mp fun hsome => absurd (himp (Or.inl hsome)) Bool.false_ne_true

end Groups

/-! ## Finite maps -/

/-- **Inserting one after the other.** -/
theorem lookup_foldl_insert (k : κ) (l : List (κ × ν)) (m : AList fun _ : κ => ν) :
    (l.foldl (fun m p => m.insert p.1 p.2) m).lookup k = (last k l).or (m.lookup k) := by
  induction l generalizing m with
  | nil => rfl
  | cons p l ih =>
    rw [List.foldl_cons, ih, last, Option.or_assoc]
    congr 1
    by_cases hk : p.1 = k
    · subst hk
      rw [AList.lookup_insert, if_pos rfl, Option.some_or]
    · rw [AList.lookup_insert_ne (Ne.symm hk), if_neg hk, Option.none_or]

/-- The bindings of a finite map. -/
def pairs (m : List (Σ _ : κ, ν)) : List (κ × ν) := m.map fun p => (p.1, p.2)

/-- In whatever order the entries of a map are taken, the lookups are the same. -/
theorem last_pairs {m : AList fun _ : κ => ν} {l : List (Σ _ : κ, ν)} (hl : l.Perm m.entries)
    (k : κ) : last k (pairs l) = m.lookup k := by
  have hkeys : (pairs l).map Prod.fst = l.keys := by
    unfold pairs List.keys
    rw [List.map_map]
    rfl
  have hnd : ((pairs l).map Prod.fst).Nodup := by
    rw [hkeys]
    exact (List.perm_nodupKeys hl).mpr m.nodupKeys
  refine Option.ext fun v => ?_
  rw [last_eq_some hnd, ← Option.mem_def, AList.mem_lookup_iff, ← hl.mem_iff]
  unfold pairs
  refine ⟨?_, fun h => List.mem_map.mpr ⟨_, h, rfl⟩⟩
  intro h
  obtain ⟨p, hp, he⟩ := List.mem_map.mp h
  obtain ⟨rfl, rfl⟩ := Prod.mk.inj he
  exact hp

end LastWins
