import Mathlib.Logic.Function.Basic
import Mathlib.Data.List.Nodup
import BettingPlatform.Foundations.Runs

/-!
# Serializable transactions

Any number of transactions run at once over one store.  A step of a transaction changes
the transaction alone, or commits it and changes the store.  The transactions that have
committed are kept in the order of their commits.

When each transaction stays in agreement with what it would do alone on the store as it is
now, the store is at every moment the one that the committed transactions leave when they
run one after the other.

Main results:

- Theorem `Serialized.step`: one step keeps the store serializable.
- Theorem `serialized_of_reachable`: so does every run.
- Theorem `serialized_of_guarded`: where the steps that meet a guard keep it serializable, so do
  the runs of such steps.
- Theorem `serial_invariant`: what every transaction preserves alone, they preserve one
  after the other.
-/

namespace BettingPlatform

open Runs

universe u v w x

/-! ## Serial execution -/

section Serial

variable {ι : Type u} {δ : Type v}

/-- Running transactions one after the other; `none` when one of them does not
commit. -/
def serial (run : ι → δ → Option δ) (db : δ) (order : List ι) : Option δ :=
  order.foldlM (fun db i => run i db) db

/-- Running one more transaction behind others. -/
theorem serial_append {run : ι → δ → Option δ} {db db' db'' : δ} {order : List ι}
    {i : ι} (h : serial run db order = some db') (hi : run i db' = some db'') :
    serial run db (order ++ [i]) = some db'' := by
  unfold serial at h ⊢
  rw [List.foldlM_append, h]
  simpa using hi

/-- What every transaction preserves, serial execution preserves. -/
theorem serial_invariant {run : ι → δ → Option δ} {inv : List ι → δ → Prop}
    {db db' : δ} {order : List ι} (hinit : inv [] db)
    (hstep : ∀ {done db₁ db₂ i}, inv done db₁ → run i db₁ = some db₂ → inv (done ++ [i]) db₂)
    (h : serial run db order = some db') : inv order db' := by
  suffices hgeneral : ∀ done db₁, inv done db₁ → ∀ rest, serial run db₁ rest = some db' →
      inv (done ++ rest) db' by
    simpa using hgeneral [] db hinit order h
  intro done db₁ hinv rest hrest
  induction rest generalizing done db₁ with
  | nil =>
      obtain rfl : db₁ = db' := by simpa [serial] using hrest
      simpa using hinv
  | cons i rest ih =>
      rw [serial, List.foldlM_cons] at hrest
      obtain ⟨db₂, hi, hrest⟩ := Option.bind_eq_some_iff.mp hrest
      have hnext := ih (done ++ [i]) db₂ (hstep hinv hi) hrest
      rwa [List.append_assoc] at hnext

end Serial

/-! ## Concurrent execution -/

section Concurrent

variable {ι : Type u} {δ : Type v} {κ : Type w} {μ : Type x}

/-- The store, the transactions, and those that have committed, in their order. -/
structure Concurrent (ι : Type u) (δ : Type v) (κ : Type w) where
  db : δ
  calls : ι → κ
  commits : List ι

/-- What a step of one transaction makes of it, and of the store when it commits. -/
inductive Outcome (δ : Type v) (κ : Type w)
  | moved (call : κ)
  | committed (call : κ) (db : δ)

variable [DecidableEq ι]

namespace Concurrent

/-- The outcome of a step of `i` takes effect. -/
def apply (s : Concurrent ι δ κ) (i : ι) : Outcome δ κ → Concurrent ι δ κ
  | .moved call => { s with calls := Function.update s.calls i call }
  | .committed call db =>
      { db, calls := Function.update s.calls i call, commits := s.commits ++ [i] }

/-- One step of one transaction. -/
def step (act : Concurrent ι δ κ → ι → μ → Option (Outcome δ κ)) (s : Concurrent ι δ κ)
    (label : ι × μ) : Option (Concurrent ι δ κ) :=
  (act s label.1 label.2).map (s.apply label.1)

end Concurrent

/-- The store is the one that the committed transactions leave when they run alone, one
after the other, and every transaction is in agreement with it. -/
structure Serialized (run : ι → δ → Option δ) (consistent : ι → δ → κ → Prop)
    (apart : (ι → κ) → Prop) (done : κ → Prop) (db₀ : δ) (s : Concurrent ι δ κ) : Prop where
  consistent : ∀ i, consistent i s.db (s.calls i)
  apart : apart s.calls
  serial : serial run db₀ s.commits = some s.db
  nodup : s.commits.Nodup
  committed : ∀ i, i ∈ s.commits ↔ done (s.calls i)

/-- What a system must keep so that its runs are serializable. -/
structure Serializes (act : Concurrent ι δ κ → ι → μ → Option (Outcome δ κ))
    (run : ι → δ → Option δ) (consistent : ι → δ → κ → Prop) (apart : (ι → κ) → Prop)
    (done : κ → Prop) : Prop where
  /-- A transaction that moves stays in agreement. -/
  moved : ∀ {s : Concurrent ι δ κ} {i : ι} {move : μ} {call : κ},
    (∀ j, consistent j s.db (s.calls j)) → apart s.calls → act s i move = some (.moved call) →
      consistent i s.db call ∧ apart (Function.update s.calls i call) ∧
        ¬ done (s.calls i) ∧ ¬ done call
  /-- A commit does what the transaction would do alone, and leaves the others in
  agreement. -/
  committed : ∀ {s : Concurrent ι δ κ} {i : ι} {move : μ} {call : κ} {db : δ},
    (∀ j, consistent j s.db (s.calls j)) → apart s.calls →
      act s i move = some (.committed call db) →
        run i s.db = some db ∧ consistent i db call ∧
          (∀ j, j ≠ i → consistent j db (s.calls j)) ∧
          apart (Function.update s.calls i call) ∧ ¬ done (s.calls i) ∧ done call

variable {act : Concurrent ι δ κ → ι → μ → Option (Outcome δ κ)} {run : ι → δ → Option δ}
  {consistent : ι → δ → κ → Prop} {apart : (ι → κ) → Prop} {done : κ → Prop} {db₀ : δ}
  {s s' : Concurrent ι δ κ} {label : ι × μ}

/-- One step keeps the store serializable. -/
theorem Serialized.step (h : Serialized run consistent apart done db₀ s)
    (hrules : Serializes act run consistent apart done)
    (hstep : Concurrent.step act s label = some s') :
    Serialized run consistent apart done db₀ s' := by
  obtain ⟨i, move⟩ := label
  obtain ⟨outcome, hact, rfl⟩ := Option.map_eq_some_iff.mp hstep
  cases outcome with
  | moved call =>
      obtain ⟨hcall, hapart, hbefore, hafter⟩ := hrules.moved h.consistent h.apart hact
      refine ⟨fun j => ?_, hapart, h.serial, h.nodup, fun j => ?_⟩
      · by_cases hj : j = i
        · subst hj
          simpa [Concurrent.apply] using hcall
        · simpa [Concurrent.apply, Function.update_of_ne hj] using h.consistent j
      · by_cases hj : j = i
        · subst hj
          simpa [Concurrent.apply, hafter] using mt (h.committed j).mp hbefore
        · simpa [Concurrent.apply, Function.update_of_ne hj] using h.committed j
  | committed call db =>
      obtain ⟨hrun, hcall, hothers, hapart, hbefore, hafter⟩ :=
        hrules.committed h.consistent h.apart hact
      refine ⟨fun j => ?_, hapart, serial_append h.serial hrun, ?_, fun j => ?_⟩
      · by_cases hj : j = i
        · subst hj
          simpa [Concurrent.apply] using hcall
        · simpa [Concurrent.apply, Function.update_of_ne hj] using hothers j hj
      · show (s.commits ++ [i]).Nodup
        rw [List.nodup_append_comm]
        exact List.nodup_cons.mpr ⟨mt (h.committed i).mp hbefore, h.nodup⟩
      · by_cases hj : j = i
        · subst hj
          simp [Concurrent.apply, hafter]
        · simpa [Concurrent.apply, Function.update_of_ne hj, hj] using h.committed j

/-- Every run keeps the store serializable. -/
theorem serialized_of_reachable (hrules : Serializes act run consistent apart done)
    (hinit : Serialized run consistent apart done db₀ s)
    (hrun : Reachable (Concurrent.step act) s s') :
    Serialized run consistent apart done db₀ s' :=
  hrun.invariant hinit fun h _ hstep => h.step hrules hstep

/-- Every run of steps that meet a guard keeps the store serializable, when these steps do. -/
theorem serialized_of_guarded {guard : Concurrent ι δ κ → ι × μ → Prop}
    [∀ s label, Decidable (guard s label)]
    (hrules : Serializes (fun s i move => if guard s (i, move) then act s i move else none)
      run consistent apart done)
    (hinit : Serialized run consistent apart done db₀ s)
    (hrun : Reaches (Concurrent.step act) guard s s') :
    Serialized run consistent apart done db₀ s' := by
  refine hrun.invariant hinit fun {t u label} h hguard hstep => ?_
  have hguarded : Concurrent.step (fun s i move => if guard s (i, move) then act s i move else none)
      t label = some u := by
    simpa [Concurrent.step, hguard] using hstep
  exact h.step hrules hguarded

end Concurrent

end BettingPlatform
