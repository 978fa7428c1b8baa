import Mathlib.Data.List.Basic

/-!
# Machines whose users do not interfere

A machine reads inputs one at a time and answers each.  An observer has some of the inputs as
its own and sees a part of the state.  The unwinding conditions speak of single steps: an
input of the observer is answered, and moves the observer's part, as that part says, and an
input of others does not touch it.

Main results:

- Theorem `Unwinding.outputsOf_eq`: the answers to the observer's inputs are those of the run
  from which the other inputs are removed.
- Theorem `Unwinding.view_finalState`: so is what the observer sees in the end.
-/

namespace BettingPlatform
namespace Unwinding

universe u v w z

variable {σ : Type u} {α : Type v} {ω : Type w} {δ : Type z}

/-- The state after some inputs. -/
def finalState (step : σ → α → ω × σ) (s : σ) (inputs : List α) : σ :=
  inputs.foldl (fun s input => (step s input).2) s

/-- The answers to some inputs, in their order. -/
def outputs (step : σ → α → ω × σ) (s : σ) : List α → List ω
  | [] => []
  | input :: inputs => (step s input).1 :: outputs step (step s input).2 inputs

/-- The answers to the observer's inputs, in the run of all inputs. -/
def outputsOf (own : α → Bool) (step : σ → α → ω × σ) (s : σ) : List α → List ω
  | [] => []
  | input :: inputs =>
      if own input then (step s input).1 :: outputsOf own step (step s input).2 inputs
      else outputsOf own step (step s input).2 inputs

/-- The unwinding conditions. -/
structure Conditions (own : α → Bool) (view : σ → δ) (step : σ → α → ω × σ) : Prop where
  output : ∀ {s t input}, own input → view s = view t → (step s input).1 = (step t input).1
  agree : ∀ {s t input}, own input → view s = view t → view (step s input).2 = view (step t input).2
  frame : ∀ {s input}, ¬ own input → view (step s input).2 = view s

section Purge

variable {own : α → Bool} {view : σ → δ} {step : σ → α → ω × σ}

/-- The answers to the observer's inputs are those of the run without the other inputs. -/
theorem outputsOf_eq (h : Conditions own view step) {s t : σ} (hview : view s = view t)
    (inputs : List α) : outputsOf own step s inputs = outputs step t (inputs.filter own) := by
  induction inputs generalizing s t with
  | nil => rfl
  | cons input inputs ih =>
      by_cases hown : own input
      · rw [outputsOf, if_pos hown, List.filter_cons_of_pos hown, outputs, h.output hown hview,
          ih (h.agree hown hview)]
      · rw [outputsOf, if_neg hown, List.filter_cons_of_neg hown]
        exact ih ((h.frame hown).trans hview)

/-- What the observer sees in the end is what it sees without the other inputs. -/
theorem view_finalState (h : Conditions own view step) {s t : σ} (hview : view s = view t)
    (inputs : List α) :
    view (finalState step s inputs) = view (finalState step t (inputs.filter own)) := by
  induction inputs generalizing s t with
  | nil => exact hview
  | cons input inputs ih =>
      by_cases hown : own input
      · rw [List.filter_cons_of_pos hown]
        exact ih (h.agree hown hview)
      · rw [List.filter_cons_of_neg hown]
        exact ih ((h.frame hown).trans hview)

end Purge

end Unwinding
end BettingPlatform
