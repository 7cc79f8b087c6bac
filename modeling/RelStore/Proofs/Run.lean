import Mathlib.Data.List.Forall2

/-!
# Runs of a machine

A machine takes an input, answers and moves on. `run` feeds it a list of inputs. Two machines that
are related step by step give the same answers (`run_simulation`); the relation can speak of the
inputs still to come, and so of what is left of a budget, or the inputs may be related themselves
(`run_forall₂`). A machine that may get stuck is run by
`run?`; it does not get stuck where each of its steps follows one of a machine that cannot
(`run?_simulation`).
-/

namespace RelStore

variable {σ τ ι ω : Type}

/-- The answers of a machine to inputs in order, and the state that it is left in. -/
def run (step : σ → ι → ω × σ) : σ → List ι → List ω × σ
  | s, [] => ([], s)
  | s, input :: rest =>
    let (answer, s) := step s input
    let (answers, s) := run step s rest
    (answer :: answers, s)

theorem run_cons (step : σ → ι → ω × σ) (s : σ) (input : ι) (rest : List ι) :
    run step s (input :: rest) =
      ((step s input).1 :: (run step (step s input).2 rest).1,
        (run step (step s input).2 rest).2) := rfl

theorem run_append (step : σ → ι → ω × σ) (s : σ) (inputs rest : List ι) :
    run step s (inputs ++ rest) =
      ((run step s inputs).1 ++ (run step (run step s inputs).2 rest).1,
        (run step (run step s inputs).2 rest).2) := by
  induction inputs generalizing s with
  | nil => rfl
  | cons input inputs ih => rw [List.cons_append, run_cons, run_cons, ih, List.cons_append]

theorem run_simulation {step : σ → ι → ω × σ} {step' : τ → ι → ω × τ}
    {R : List ι → σ → τ → Prop}
    (h : ∀ input rest s t, R (input :: rest) s t →
      (step s input).1 = (step' t input).1 ∧ R rest (step s input).2 (step' t input).2)
    (inputs : List ι) {s : σ} {t : τ} (hst : R inputs s t) :
    (run step s inputs).1 = (run step' t inputs).1 ∧
      R [] (run step s inputs).2 (run step' t inputs).2 := by
  induction inputs generalizing s t with
  | nil => exact ⟨rfl, hst⟩
  | cons input rest ih =>
    obtain ⟨ha, hn⟩ := h input rest s t hst
    obtain ⟨has, hr⟩ := ih hn
    rw [run_cons, run_cons, ha, has]
    exact ⟨rfl, hr⟩

/-- Two machines that are fed inputs which are related one by one. -/
theorem run_forall₂ {κ : Type} {step : σ → ι → ω × σ} {step' : τ → κ → ω × τ} {I : ι → κ → Prop}
    {R : σ → τ → Prop}
    (h : ∀ input input' s t, I input input' → R s t →
      (step s input).1 = (step' t input').1 ∧ R (step s input).2 (step' t input').2)
    {inputs : List ι} {inputs' : List κ} (hinputs : List.Forall₂ I inputs inputs') {s : σ} {t : τ}
    (hst : R s t) :
    (run step s inputs).1 = (run step' t inputs').1 ∧
      R (run step s inputs).2 (run step' t inputs').2 := by
  induction hinputs generalizing s t with
  | nil => exact ⟨rfl, hst⟩
  | cons hinput _ ih =>
    obtain ⟨ha, hn⟩ := h _ _ s t hinput hst
    obtain ⟨has, hr⟩ := ih hn
    rw [run_cons, run_cons, ha, has]
    exact ⟨rfl, hr⟩

/-- The answers of a machine that may get stuck, and the state that it is left in. -/
def run? (step : σ → ι → Option (ω × σ)) : σ → List ι → Option (List ω × σ)
  | s, [] => some ([], s)
  | s, input :: rest => do
    let (answer, s) ← step s input
    let (answers, s) ← run? step s rest
    return (answer :: answers, s)

theorem run?_simulation {step : σ → ι → Option (ω × σ)} {step' : τ → ι → ω × τ} {R : σ → τ → Prop}
    (h : ∀ input s t, R s t →
      ∃ s', step s input = some ((step' t input).1, s') ∧ R s' (step' t input).2)
    (inputs : List ι) {s : σ} {t : τ} (hst : R s t) :
    ∃ s', run? step s inputs = some ((run step' t inputs).1, s') ∧
      R s' (run step' t inputs).2 := by
  induction inputs generalizing s t with
  | nil => exact ⟨s, rfl, hst⟩
  | cons input rest ih =>
    obtain ⟨s₁, hstep, hst₁⟩ := h input s t hst
    obtain ⟨s', hrun, hst'⟩ := ih hst₁
    refine ⟨s', ?_, hst'⟩
    rw [run?, hstep]
    dsimp only [Option.bind_eq_bind, Option.bind_some]
    rw [hrun]
    rfl

end RelStore
