import Mathlib.Data.List.Basic

/-!
# Runs of labelled transition systems

A system is a partial step function `step : σ → α → Option σ`: the label of a
step carries every choice the environment makes, so quantifying over labels is
quantifying over schedules.  A run may be asked to satisfy a guard at each of its
steps; the unguarded runs are the ones whose guard is always true.

Main results:

- Theorem `Reaches.invariant`: what one guarded step preserves, every guarded
  run preserves.
- Theorem `Reaches.of_foldlM`: executing a list of labels gives a run.
-/

namespace BettingPlatform
namespace Runs

universe u v

variable {σ : Type u} {α : Type v}

/-- `Reaches step guard s t`: some run leads from `s` to `t`, and each of its
steps is taken from a state and with a label that meet `guard`. -/
inductive Reaches (step : σ → α → Option σ) (guard : σ → α → Prop) (s : σ) : σ → Prop
  | refl : Reaches step guard s s
  | tail {t u : σ} {a : α} :
      Reaches step guard s t → guard t a → step t a = some u → Reaches step guard s u

/-- Runs whose steps are not restricted. -/
abbrev Reachable (step : σ → α → Option σ) (s t : σ) : Prop :=
  Reaches step (fun _ _ => True) s t

/-- The induction rule of runs: a property of the first state that every guarded
step preserves holds of every state a guarded run reaches. -/
theorem Reaches.invariant {step : σ → α → Option σ} {guard : σ → α → Prop}
    {inv : σ → Prop} {s t : σ} (hrun : Reaches step guard s t) (hinit : inv s)
    (hstep : ∀ {t u : σ} {a : α}, inv t → guard t a → step t a = some u → inv u) :
    inv t := by
  induction hrun with
  | refl => exact hinit
  | tail _ hguard hnext ih => exact hstep ih hguard hnext

/-- A guarded run is a run. -/
theorem Reaches.toReachable {step : σ → α → Option σ} {guard : σ → α → Prop} {s t : σ}
    (hrun : Reaches step guard s t) : Reachable step s t := by
  induction hrun with
  | refl => exact .refl
  | tail _ _ hnext ih => exact .tail ih trivial hnext

/-- Runs compose. -/
theorem Reaches.trans {step : σ → α → Option σ} {guard : σ → α → Prop} {s t u : σ}
    (hst : Reaches step guard s t) (htu : Reaches step guard t u) :
    Reaches step guard s u := by
  induction htu with
  | refl => exact hst
  | tail _ hguard hnext ih => exact .tail ih hguard hnext

/-- Executing a list of labels that always meet the guard is a guarded run. -/
theorem Reaches.of_foldlM_guarded {step : σ → α → Option σ} {guard : σ → α → Prop}
    {labels : List α} {s t : σ} (hguard : ∀ a ∈ labels, ∀ s, guard s a)
    (hexec : labels.foldlM step s = some t) : Reaches step guard s t := by
  induction labels generalizing s with
  | nil =>
      rw [List.foldlM_nil] at hexec
      obtain rfl : s = t := by simpa using hexec
      exact .refl
  | cons a labels ih =>
      rw [List.foldlM_cons] at hexec
      obtain ⟨mid, hmid, hrest⟩ := Option.bind_eq_some_iff.mp hexec
      have hfirst : Reaches step guard s mid :=
        Reaches.refl.tail (hguard a List.mem_cons_self s) hmid
      exact hfirst.trans (ih (fun b hb => hguard b (List.mem_cons_of_mem a hb)) hrest)

/-- Executing a list of labels with a test of the guard in front of each step is a guarded
run. -/
theorem Reaches.of_foldlM_checked {step : σ → α → Option σ} {guard : σ → α → Prop}
    {check : σ → α → Bool} {labels : List α} {s t : σ}
    (hcheck : ∀ s a, check s a = true → guard s a)
    (hexec : labels.foldlM (fun s a => if check s a then step s a else none) s = some t) :
    Reaches step guard s t := by
  have hweaken : ∀ {u v}, Reaches (fun s a => if check s a then step s a else none)
      (fun _ _ => True) u v → Reaches step guard u v := by
    intro u v hrun
    induction hrun with
    | refl => exact .refl
    | tail _ _ hnext ih =>
        split at hnext
        · rename_i hpassed
          exact ih.tail (hcheck _ _ hpassed) hnext
        · contradiction
  exact hweaken (Reaches.of_foldlM_guarded (fun _ _ _ => trivial) hexec)

/-- Executing a list of labels is a run. -/
theorem Reaches.of_foldlM {step : σ → α → Option σ} {labels : List α} {s t : σ}
    (hexec : labels.foldlM step s = some t) : Reachable step s t :=
  Reaches.of_foldlM_guarded (fun _ _ _ => trivial) hexec

end Runs
end BettingPlatform
