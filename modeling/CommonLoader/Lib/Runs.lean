import Mathlib.Data.List.Basic

/-!
# Runs of a state machine

A run folds a step function over a list of events. What every step keeps under the
conditions of the run, the run keeps; and a flag that steps may raise but never lower is up
at the end exactly when it was up at the beginning or some event raised it, in the state
that it came in. What the events yield, each in its state, is collected in order. A step
may also fail, and then the run fails at the first step that does.
-/

namespace Runs

variable {σ ε α β γ : Type*} {step : σ → ε → σ}

/-- An event of the run, and the state it comes in. -/
def Occurs (step : σ → ε → σ) (s : σ) (es : List ε) (s' : σ) (e : ε) : Prop :=
  ∃ pre post, es = pre ++ e :: post ∧ s' = pre.foldl step s

theorem occurs_cons {s s' : σ} {e e' : ε} {es : List ε} :
    Occurs step s (e :: es) s' e' ↔ (s' = s ∧ e' = e) ∨ Occurs step (step s e) es s' e' := by
  refine ⟨?_, ?_⟩
  · rintro ⟨pre, post, hsplit, rfl⟩
    cases pre with
    | nil => exact Or.inl ⟨rfl, (List.cons.inj hsplit).1.symm⟩
    | cons x pre =>
      obtain ⟨hx, hrest⟩ := List.cons.inj hsplit
      subst hx
      exact Or.inr ⟨pre, post, hrest, rfl⟩
  · rintro (⟨rfl, rfl⟩ | ⟨pre, post, rfl, rfl⟩)
    · exact ⟨[], es, rfl, rfl⟩
    · exact ⟨e :: pre, post, rfl, rfl⟩

/-- **A flag that is only raised.** -/
theorem flag_iff (flag : σ → Prop) (raises : σ → ε → Prop) :
    ∀ {es : List ε} {s : σ}, (∀ e ∈ es, ∀ s, flag (step s e) ↔ flag s ∨ raises s e) →
      (flag (es.foldl step s) ↔ flag s ∨ ∃ s' e, Occurs step s es s' e ∧ raises s' e)
  | [], s, _ => by
    refine ⟨Or.inl, fun h => h.elim id ?_⟩
    rintro ⟨_, _, ⟨pre, post, hsplit, _⟩, _⟩
    exact absurd hsplit.symm (by simp)
  | e :: es, s, h => by
    rw [List.foldl_cons, flag_iff flag raises fun e' he' => h e' (List.mem_cons_of_mem _ he'),
      h e (List.mem_cons_self ..), or_assoc]
    refine or_congr_right ⟨?_, ?_⟩
    · rintro (hr | ⟨s', e', ho, hr⟩)
      · exact ⟨s, e, occurs_cons.mpr (Or.inl ⟨rfl, rfl⟩), hr⟩
      · exact ⟨s', e', occurs_cons.mpr (Or.inr ho), hr⟩
    · rintro ⟨s', e', ho, hr⟩
      rcases occurs_cons.mp ho with ⟨rfl, rfl⟩ | ho
      · exact Or.inl hr
      · exact Or.inr ⟨s', e', ho, hr⟩

/-- What the events of a run yield, each in the state that it comes in. -/
def collect (step : σ → ε → σ) (f : σ → ε → List α) : σ → List ε → List α
  | _, [] => []
  | s, e :: es => f s e ++ collect step f (step s e) es

theorem collect_append {f : σ → ε → List α} : ∀ (pre post : List ε) (s : σ),
    collect step f s (pre ++ post) = collect step f s pre ++ collect step f (pre.foldl step s) post
  | [], _, _ => rfl
  | e :: pre, post, s => by
    rw [List.cons_append, collect, collect, collect_append pre post, List.append_assoc]
    rfl

theorem mem_collect {f : σ → ε → List α} {x : α} : ∀ {es : List ε} {s : σ},
    x ∈ collect step f s es ↔ ∃ s' e, Occurs step s es s' e ∧ x ∈ f s' e
  | [], s => by
    refine ⟨fun h => (nomatch h), ?_⟩
    rintro ⟨_, _, ⟨pre, post, hsplit, _⟩, _⟩
    exact absurd hsplit.symm (by simp)
  | e :: es, s => by
    rw [collect, List.mem_append, mem_collect]
    refine ⟨?_, ?_⟩
    · rintro (hx | ⟨s', e', ho, hx⟩)
      · exact ⟨s, e, occurs_cons.mpr (Or.inl ⟨rfl, rfl⟩), hx⟩
      · exact ⟨s', e', occurs_cons.mpr (Or.inr ho), hx⟩
    · rintro ⟨s', e', ho, hx⟩
      rcases occurs_cons.mp ho with ⟨rfl, rfl⟩ | ho
      · exact Or.inl hx
      · exact Or.inr ⟨s', e', ho, hx⟩

/-- What is read off every event alike is read off the run alike. -/
theorem collect_map_congr {f : σ → ε → List α} {f' : σ → ε → List β} {g : α → γ} {g' : β → γ} :
    ∀ {es : List ε} {s : σ}, (∀ e ∈ es, ∀ s, (f s e).map g = (f' s e).map g') →
      (collect step f s es).map g = (collect step f' s es).map g'
  | [], _, _ => rfl
  | e :: es, s, h => by
    rw [collect, collect, List.map_append, List.map_append, h e (List.mem_cons_self ..),
      collect_map_congr fun e' he' => h e' (List.mem_cons_of_mem _ he')]

/-- The same for a reader that begins at the end, and needs nothing from there. -/
theorem collect_foldr {f : σ → ε → List α} {f' : σ → ε → List β} {r : α → γ × List β → γ × List β}
    {c : γ} : ∀ {es : List ε} {s : σ},
      (∀ e ∈ es, ∀ s rest, (f s e).foldr r (c, rest) = (c, f' s e ++ rest)) →
      (collect step f s es).foldr r (c, []) = (c, collect step f' s es)
  | [], _, _ => rfl
  | e :: es, s, h => by
    rw [collect, collect, List.foldr_append,
      collect_foldr fun e' he' => h e' (List.mem_cons_of_mem _ he'), h e (List.mem_cons_self ..)]

/-- A condition on every event of the run, in the state that it comes in. -/
def Along (step : σ → ε → σ) (R : σ → ε → Prop) : σ → List ε → Prop
  | _, [] => True
  | s, e :: es => R s e ∧ Along step R (step s e) es

/-- **An invariant** that such events keep holds whenever one of them comes, and at the end. -/
theorem invariant {R : σ → ε → Prop} {I : σ → Prop} (h : ∀ s e, R s e → I s → I (step s e)) :
    ∀ {es : List ε} {s : σ}, Along step R s es → I s →
      I (es.foldl step s) ∧ ∀ s' e, Occurs step s es s' e → R s' e ∧ I s'
  | [], _, _, hs => by
    refine ⟨hs, ?_⟩
    rintro _ _ ⟨pre, post, hsplit, _⟩
    exact absurd hsplit.symm (by simp)
  | e :: es, s, ⟨he, hes⟩, hs => by
    obtain ⟨hend, hall⟩ := invariant h hes (h s e he hs)
    refine ⟨hend, fun s' e' ho => ?_⟩
    rcases occurs_cons.mp ho with ⟨rfl, rfl⟩ | ho
    · exact ⟨he, hs⟩
    · exact hall s' e' ho

/-! ## Runs that may fail -/

variable {step' : σ → ε → Except α σ}

/-- The run up to the first step that fails. -/
def attempt (step' : σ → ε → Except α σ) : σ → List ε → Except α σ
  | s, [] => .ok s
  | s, e :: es =>
      match step' s e with
      | .error failure => .error failure
      | .ok s => attempt step' s es

theorem attempt_append : ∀ (pre post : List ε) {s s' : σ}, attempt step' s pre = .ok s' →
    attempt step' s (pre ++ post) = attempt step' s' post
  | [], _, _, _, h => by
    obtain rfl := Except.ok.inj h
    rfl
  | e :: pre, post, s, s', h => by
    rw [List.cons_append, attempt]
    rw [attempt] at h
    cases he : step' s e with
    | error failure => rw [he] at h; cases h
    | ok s₁ =>
      rw [he] at h
      exact attempt_append pre post h

/-- **How a run fails**: at a step that fails, behind steps that do not. -/
theorem attempt_error_iff {failure : α} : ∀ {es : List ε} {s : σ}, attempt step' s es = .error failure ↔
    ∃ pre e post s', es = pre ++ e :: post ∧ attempt step' s pre = .ok s' ∧ step' s' e = .error failure
  | [], s => by
    refine ⟨fun h => (nomatch h), ?_⟩
    rintro ⟨pre, _, _, _, hsplit, _⟩
    exact absurd hsplit.symm (by simp)
  | e :: es, s => by
    refine ⟨fun h => ?_, ?_⟩
    · rw [attempt] at h
      cases he : step' s e with
      | error other =>
        rw [he] at h
        exact ⟨[], e, es, s, rfl, rfl, he.trans h⟩
      | ok s₁ =>
        rw [he] at h
        obtain ⟨pre, e', post, s', rfl, hpre, hfail⟩ := attempt_error_iff.mp h
        refine ⟨e :: pre, e', post, s', rfl, ?_, hfail⟩
        rw [attempt, he]
        exact hpre
    · rintro ⟨pre, e', post, s', hsplit, hpre, hfail⟩
      rw [hsplit, attempt_append pre (e' :: post) hpre, attempt, hfail]

/-- What a step does when it does not fail, the run does. -/
theorem attempt_ok {step : σ → ε → σ} (h : ∀ s e s', step' s e = .ok s' → s' = step s e) :
    ∀ {es : List ε} {s s' : σ}, attempt step' s es = .ok s' → s' = es.foldl step s
  | [], _, _, hrun => (Except.ok.inj hrun).symm
  | e :: es, s, s', hrun => by
    rw [attempt] at hrun
    cases he : step' s e with
    | error failure => rw [he] at hrun; cases hrun
    | ok s₁ =>
      rw [he] at hrun
      rw [List.foldl_cons, ← h s e s₁ he]
      exact attempt_ok h hrun

end Runs
