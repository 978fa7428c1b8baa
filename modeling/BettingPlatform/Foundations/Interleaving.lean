import Mathlib.Algebra.BigOperators.Group.Finset.Basic
import Mathlib.Data.Fintype.BigOperators
import Mathlib.Algebra.Order.BigOperators.Group.Finset

/-!
# Interleaved calls over shared state

Any number of calls run over one shared state.  A call has local state of its own
(its program counter and its variables), and one atomic step of a call reads and
writes the shared state and that local state.  The label of a global step says which
call moves and what the scheduler decides for it.

Main results:

- Theorem `interleave_eq_some_iff`: a global step is one call's atomic step.
- Theorem `sum_update`: a sum over all calls changes by what the moving call's part
  changes.
-/

namespace BettingPlatform

universe u v w x

/-- The shared state and the local state of every call. -/
structure Interleaved (σ : Type u) (ι : Type v) (π : Type w) where
  shared : σ
  calls : ι → π

variable {σ : Type u} {ι : Type v} {π : Type w} {α : Type x}

/-- The global step in which one call takes an atomic step. -/
def interleave [DecidableEq ι] (advance : ι → σ → π → α → Option (σ × π))
    (s : Interleaved σ ι π) (label : ι × α) : Option (Interleaved σ ι π) :=
  (advance label.1 s.shared (s.calls label.1) label.2).map fun (shared, call) =>
    { shared := shared, calls := Function.update s.calls label.1 call }

/-- A global step is one call's atomic step. -/
theorem interleave_eq_some_iff [DecidableEq ι] {advance : ι → σ → π → α → Option (σ × π)}
    {s t : Interleaved σ ι π} {label : ι × α} :
    interleave advance s label = some t ↔
      ∃ shared call, advance label.1 s.shared (s.calls label.1) label.2 = some (shared, call) ∧
        t = { shared := shared, calls := Function.update s.calls label.1 call } := by
  simp [interleave, Prod.exists, eq_comm]

/-- What holds of every call holds after one of them moved. -/
theorem forall_update_iff [DecidableEq ι] {calls : ι → π} {good : ι → π → Prop} {i : ι} {call : π}
    (hgood : ∀ j, good j (calls j)) :
    (∀ j, good j (Function.update calls i call j)) ↔ good i call := by
  constructor
  · intro h
    simpa using h i
  · intro hcall j
    by_cases hj : j = i
    · subst hj
      simpa using hcall
    · simpa [Function.update_of_ne hj] using hgood j

/-- A call in a state that the moving call does not enter was in it before. -/
theorem before_update [DecidableEq ι] {calls : ι → π} {P : π → Prop} {i j : ι} {call : π}
    (hnot : ¬ P call) (hj : P (Function.update calls i call j)) : j ≠ i ∧ P (calls j) := by
  have hji : j ≠ i := by
    rintro rfl
    exact hnot (by simpa using hj)
  exact ⟨hji, by simpa [Function.update_of_ne hji] using hj⟩

/-- A sum over all calls changes by what the moving call's part changes. -/
theorem sum_update [Fintype ι] [DecidableEq ι] (part : π → Int) (calls : ι → π) (i : ι)
    (call : π) :
    ∑ j, part (Function.update calls i call j) =
      ∑ j, part (calls j) + (part call - part (calls i)) := by
  have hrest : ∑ j ∈ Finset.univ.erase i, part (Function.update calls i call j) =
      ∑ j ∈ Finset.univ.erase i, part (calls j) := by
    refine Finset.sum_congr rfl fun j hj => ?_
    rw [Function.update_of_ne (Finset.ne_of_mem_erase hj)]
  have hnew := Finset.add_sum_erase Finset.univ (fun j => part (Function.update calls i call j))
    (Finset.mem_univ i)
  have hold := Finset.add_sum_erase Finset.univ (fun j => part (calls j)) (Finset.mem_univ i)
  simp only [Function.update_self] at hnew
  rw [← hnew, ← hold, hrest]
  omega

/-- One call's part is at most the sum of all, when no part is negative. -/
theorem le_sum_calls [Fintype ι] {part : π → Int} {calls : ι → π}
    (hnonneg : ∀ j, 0 ≤ part (calls j)) (i : ι) : part (calls i) ≤ ∑ j, part (calls j) :=
  Finset.single_le_sum (f := fun j => part (calls j)) (fun j _ => hnonneg j) (Finset.mem_univ i)

end BettingPlatform
