import Mathlib.Algebra.GroupWithZero.Nat
import Mathlib.Data.List.Basic
import Mathlib.Logic.Function.Basic
import BettingPlatform.Foundations.Runs
import BettingPlatform.Foundations.OffsetLog

/-!
# The settlement worker's consume loop

`run_worker` fetches batches with `getmany`, hands every message to
`process_raw_message` and commits `message.offset + 1` when that call returned.
When it raised, the loop prints the error and goes on with the next message, so
nothing is committed for the failed one, and nothing is sought back either.

A step of the model is one of the loop's effects: a fetch, a call that returns, a
call that raises, a commit, or a stop of the process followed by a restart from
the committed offsets.

Main results:

- Theorem `commitStep_safe_iff`: the loop keeps its promise at a commit exactly
  when every message of the partition that raised in this session was handled by
  an earlier delivery.
- Theorem `commits_behind_unhandled`: there is a run that commits past a message no
  call ever handled.
- Theorem `handled_while_commits_clean`: runs all of whose commits are clean never
  commit past an unprocessed message, and the first unclean commit does.
-/

namespace BettingPlatform
namespace Settlement
namespace RunWorker

open Runs

variable {P : Type} [DecidableEq P]

/-- The consumer process and the broker's view of its group.

`log p` is the partition `p` with the offset of the next message to process as its
position; `batch` holds the messages of the current `getmany` result that the loop
has not reached; `uncommitted` is the message whose call returned and whose commit
is the next statement. -/
structure Worker (P : Type) where
  log : P → OffsetLog
  batch : List (P × Nat)
  uncommitted : Option (P × Nat)

/-- A group that has consumed nothing. -/
def Worker.start : Worker P where
  log := fun _ => .fresh
  batch := []
  uncommitted := none

/-- What happens next; the label of `processed` and `raised` is the outcome of
`process_raw_message` for the message at the head of the batch. -/
inductive Action (P : Type)
  /-- `consumer.getmany(...)` returns so many messages of these partitions. -/
  | getmany (counts : List (P × Nat))
  /-- `process_raw_message` returns (`True` or `False`). -/
  | processed
  /-- `process_raw_message` raises: rollback, print, `continue`. -/
  | raised
  /-- `await consumer.commit({topic_partition: message.offset + 1})`. -/
  | commit
  /-- The process ends, for whatever reason, and a new one joins the group. -/
  | restart

/-- `max_records` of the `getmany` call. -/
def maxRecords : Nat := 100

/-- The messages of one fetch, partition by partition and in offset order. -/
def fetched (log : P → OffsetLog) (counts : List (P × Nat)) : List (P × Nat) :=
  counts.flatMap fun (p, k) => (List.range' (log p).position k).map fun n => (p, n)

/-- `getmany` groups records by partition and returns only records that exist. -/
def Fetchable (size : P → Nat) (log : P → OffsetLog) (counts : List (P × Nat)) : Prop :=
  (counts.map Prod.fst).Nodup ∧ (counts.map Prod.snd).sum ≤ maxRecords ∧
    ∀ c ∈ counts, (log c.1).position + c.2 ≤ size c.1

instance (size : P → Nat) (log : P → OffsetLog) (counts : List (P × Nat)) :
    Decidable (Fetchable size log counts) :=
  inferInstanceAs (Decidable (_ ∧ _ ∧ _))

/-- One effect of `run_worker`; `size p` is the number of messages in partition `p`. -/
def step (size : P → Nat) (w : Worker P) : Action P → Option (Worker P)
  | .getmany counts =>
      if w.batch = [] ∧ w.uncommitted = none ∧ Fetchable size w.log counts then
        some { w with batch := fetched w.log counts }
      else none
  | .processed =>
      match w.batch, w.uncommitted with
      | (p, n) :: rest, none =>
          some
            { log := Function.update w.log p (w.log p).complete
              batch := rest
              uncommitted := some (p, n) }
      | _, _ => none
  | .raised =>
      match w.batch, w.uncommitted with
      | (p, _) :: rest, none =>
          some { w with log := Function.update w.log p (w.log p).skip, batch := rest }
      | _, _ => none
  | .commit =>
      match w.uncommitted with
      | some (p, n) =>
          some
            { w with
              log := Function.update w.log p ((w.log p).commitTo (n + 1))
              uncommitted := none }
      | none => none
  | .restart =>
      some { log := fun p => (w.log p).restart, batch := [], uncommitted := none }

/-- No partition's committed offset is past a message that no
`process_raw_message` call has handled. -/
def Safe (w : Worker P) : Prop :=
  ∀ p, (w.log p).Safe

/-- The branch that goes wrong is not taken: a commit happens only when every
message of its partition up to the committed one that raised since the last restart
was handled by another delivery. -/
def CleanCommit (w : Worker P) : Action P → Prop
  | .commit =>
      ∀ c ∈ w.uncommitted, ∀ m ∈ (w.log c.1).missed, m ≤ c.2 → m ∈ (w.log c.1).finished
  | _ => True

/-! ## The batch follows the positions -/

/-- The offsets of partition `p` that the batch still holds. -/
def pendingOf (batch : List (P × Nat)) (p : P) : List Nat :=
  (batch.filter fun c => c.1 = p).map Prod.snd

/-- For every partition the batch continues at the position; a message waiting for
its commit is the last one the loop worked on. -/
structure Worker.InStep (w : Worker P) : Prop where
  batch : ∀ p, ∃ k, pendingOf w.batch p = List.range' (w.log p).position k
  uncommitted : ∀ c ∈ w.uncommitted, (w.log c.1).position = c.2 + 1

/-- The produced messages of a partition, the latest first. -/
theorem pendingOf_cons_self (p : P) (n : Nat) (rest : List (P × Nat)) :
    pendingOf ((p, n) :: rest) p = n :: pendingOf rest p := by
  simp [pendingOf]

/-- Those of another partition do not count. -/
theorem pendingOf_cons_of_ne {p q : P} (hne : q ≠ p) (n : Nat) (rest : List (P × Nat)) :
    pendingOf ((q, n) :: rest) p = pendingOf rest p := by
  simp [pendingOf, hne]

/-- A fetch holds, for each partition, a stretch of offsets from its position on. -/
theorem pendingOf_fetched (log : P → OffsetLog) {counts : List (P × Nat)}
    (hnodup : (counts.map Prod.fst).Nodup) (p : P) :
    ∃ k, pendingOf (fetched log counts) p = List.range' (log p).position k := by
  induction counts with
  | nil => exact ⟨0, rfl⟩
  | cons c counts ih =>
      obtain ⟨q, k⟩ := c
      obtain ⟨hnew, hrest⟩ := List.nodup_cons.mp hnodup
      obtain ⟨j, hj⟩ := ih hrest
      have hsplit : pendingOf (fetched log ((q, k) :: counts)) p =
          pendingOf ((List.range' (log q).position k).map fun n => (q, n)) p ++
            pendingOf (fetched log counts) p := by
        simp [pendingOf, fetched]
      by_cases hq : q = p
      · subst hq
        have hfront : pendingOf ((List.range' (log q).position k).map fun n => (q, n)) q =
            List.range' (log q).position k := by
          simp [pendingOf, List.filter_map, Function.comp_def]
        have hback : pendingOf (fetched log counts) q = [] := by
          simp only [pendingOf, fetched, List.map_eq_nil_iff, List.filter_eq_nil_iff,
            List.mem_flatMap, List.mem_map, decide_eq_true_eq]
          rintro _ ⟨⟨r, j'⟩, hr, m, _, rfl⟩ rfl
          exact hnew (List.mem_map.mpr ⟨(r, j'), hr, rfl⟩)
        exact ⟨k, by rw [hsplit, hfront, hback, List.append_nil]⟩
      · have hfront : pendingOf ((List.range' (log q).position k).map fun n => (q, n)) p =
            [] := by
          simp [pendingOf, List.filter_map, Function.comp_def, hq]
        exact ⟨j, by rw [hsplit, hfront, List.nil_append, hj]⟩

theorem Worker.start_inStep : (Worker.start : Worker P).InStep where
  batch := fun _ => ⟨0, rfl⟩
  uncommitted := by simp [Worker.start]

/-- The head of the batch sits at its partition's position, and the rest of the
batch continues behind it. -/
theorem Worker.InStep.head {w : Worker P} (hw : w.InStep) {p : P} {n : Nat}
    {rest : List (P × Nat)} (hbatch : w.batch = (p, n) :: rest) :
    n = (w.log p).position ∧
      ∃ k, pendingOf rest p = List.range' ((w.log p).position + 1) k := by
  obtain ⟨k, hk⟩ := hw.batch p
  rw [hbatch, pendingOf_cons_self] at hk
  cases k with
  | zero => simp at hk
  | succ k =>
      rw [List.range'_succ, List.cons.injEq] at hk
      exact ⟨hk.1, k, hk.2⟩

/-- Working on the head of the batch, with either outcome, advances its partition's
position by one and leaves the batch in step. -/
theorem Worker.InStep.advance {w : Worker P} (hw : w.InStep) {p : P} {n : Nat}
    {rest : List (P × Nat)} (hbatch : w.batch = (p, n) :: rest) {log' : OffsetLog}
    (hposition : log'.position = (w.log p).position + 1) (q : P) :
    ∃ k, pendingOf rest q = List.range' (Function.update w.log p log' q).position k := by
  by_cases hq : q = p
  · subst hq
    rw [Function.update_self, hposition]
    exact (hw.head hbatch).2
  · rw [Function.update_of_ne hq]
    obtain ⟨k, hk⟩ := hw.batch q
    exact ⟨k, by rw [← hk, hbatch, pendingOf_cons_of_ne (fun h => hq h.symm)]⟩

/-! ## What one step preserves -/

/-- The loop invariant: the promise, the bookkeeping behind it, and the batch in
step with the positions. -/
structure LoopInv (w : Worker P) : Prop where
  safe : Safe w
  tracked : ∀ p, (w.log p).Tracked
  inStep : w.InStep

/-- The invariant holds when the worker subscribes. -/
theorem start_loopInv : LoopInv (Worker.start : Worker P) where
  safe := fun _ => OffsetLog.fresh_safe
  tracked := fun _ => OffsetLog.fresh_tracked
  inStep := Worker.start_inStep

/-- A statement about every partition survives an update of one of them. -/
theorem forall_update {log : P → OffsetLog} {good : OffsetLog → Prop}
    (hgood : ∀ q, good (log q)) {p : P} {log' : OffsetLog} (hnew : good log') (q : P) :
    good (Function.update log p log' q) := by
  by_cases hq : q = p
  · subst hq
    rwa [Function.update_self]
  · rw [Function.update_of_ne hq]
    exact hgood q

/-- The loop keeps its promise at a commit exactly when every message of the
partition that raised in this session was handled by another delivery. -/
theorem commitStep_safe_iff {w : Worker P} (hw : LoopInv w) {p : P} {n : Nat}
    (hlast : w.uncommitted = some (p, n)) :
    ((w.log p).commitTo (n + 1)).Safe ↔ CleanCommit w .commit := by
  have hposition : (w.log p).position = n + 1 :=
    hw.inStep.uncommitted (p, n) (by simp [hlast])
  rw [OffsetLog.safe_commitTo_iff (hw.tracked p) (Nat.le_of_eq hposition.symm)]
  simp only [Nat.lt_add_one_iff, CleanCommit, hlast, Option.mem_def, Option.some.injEq,
    forall_eq']

/-- Everything one effect of the loop can do. -/
theorem step_cases {size : P → Nat} {w w' : Worker P} {a : Action P}
    (hstep : step size w a = some w') :
    (∃ counts, a = .getmany counts ∧ w.uncommitted = none ∧ Fetchable size w.log counts ∧
      w' = { w with batch := fetched w.log counts }) ∨
    (∃ p n rest, a = .processed ∧ w.batch = (p, n) :: rest ∧
      w' = { log := Function.update w.log p (w.log p).complete
             batch := rest
             uncommitted := some (p, n) }) ∨
    (∃ p n rest, a = .raised ∧ w.batch = (p, n) :: rest ∧ w.uncommitted = none ∧
      w' = { w with log := Function.update w.log p (w.log p).skip, batch := rest }) ∨
    (∃ p n, a = .commit ∧ w.uncommitted = some (p, n) ∧
      w' = { w with
             log := Function.update w.log p ((w.log p).commitTo (n + 1))
             uncommitted := none }) ∨
    (a = .restart ∧
      w' = { log := fun p => (w.log p).restart, batch := [], uncommitted := none }) := by
  cases a with
  | getmany counts =>
      simp only [step] at hstep
      split at hstep
      · rename_i hready
        exact Or.inl ⟨counts, rfl, hready.2.1, hready.2.2, by simpa using hstep.symm⟩
      · contradiction
  | processed =>
      simp only [step] at hstep
      split at hstep
      · rename_i p n rest hbatch _
        exact Or.inr (Or.inl ⟨p, n, rest, rfl, hbatch, by simpa using hstep.symm⟩)
      · contradiction
  | raised =>
      simp only [step] at hstep
      split at hstep
      · rename_i p n rest hbatch hnone
        exact Or.inr (Or.inr (Or.inl ⟨p, n, rest, rfl, hbatch, hnone, by
          simpa using hstep.symm⟩))
      · contradiction
  | commit =>
      simp only [step] at hstep
      split at hstep
      · rename_i p n hlast
        exact Or.inr (Or.inr (Or.inr (Or.inl ⟨p, n, rfl, hlast, by simpa using hstep.symm⟩)))
      · contradiction
  | restart =>
      exact Or.inr (Or.inr (Or.inr (Or.inr ⟨rfl, by simpa [step] using hstep.symm⟩)))

/-- From a state of a clean run, the next state keeps the promise exactly when the
step is clean. -/
theorem safe_step_iff {size : P → Nat} {w w' : Worker P} {a : Action P} (hw : LoopInv w)
    (hstep : step size w a = some w') : Safe w' ↔ CleanCommit w a := by
  obtain ⟨counts, rfl, -, -, rfl⟩ | ⟨p, n, rest, rfl, -, rfl⟩ | ⟨p, n, rest, rfl, -, -, rfl⟩ |
    ⟨p, n, rfl, hlast, rfl⟩ | ⟨rfl, rfl⟩ := step_cases hstep
  · exact iff_of_true hw.safe trivial
  · exact iff_of_true (forall_update hw.safe (hw.safe p).complete) trivial
  · exact iff_of_true (forall_update hw.safe (hw.safe p).skip) trivial
  · rw [← commitStep_safe_iff hw hlast]
    constructor
    · intro hsafe
      simpa using hsafe p
    · exact forall_update hw.safe
  · exact iff_of_true (fun p => (hw.safe p).restart) trivial

/-- A clean step preserves the loop invariant. -/
theorem loopInv_step {size : P → Nat} {w w' : Worker P} {a : Action P} (hw : LoopInv w)
    (hclean : CleanCommit w a) (hstep : step size w a = some w') : LoopInv w' := by
  have hsafe : Safe w' := (safe_step_iff hw hstep).mpr hclean
  obtain ⟨counts, rfl, hnone, hfetch, rfl⟩ | ⟨p, n, rest, rfl, hbatch, rfl⟩ |
    ⟨p, n, rest, rfl, hbatch, hnone, rfl⟩ | ⟨p, n, rfl, hlast, rfl⟩ | ⟨rfl, rfl⟩ :=
    step_cases hstep
  · exact ⟨hsafe, hw.tracked, pendingOf_fetched w.log hfetch.1, by simp [hnone]⟩
  · refine ⟨hsafe, forall_update hw.tracked (hw.tracked p).complete,
      hw.inStep.advance hbatch rfl, ?_⟩
    have hhead : n = (w.log p).position := (hw.inStep.head hbatch).1
    simp [OffsetLog.complete, hhead]
  · exact ⟨hsafe, forall_update hw.tracked (hw.tracked p).skip,
      hw.inStep.advance hbatch rfl, by simp [hnone]⟩
  · refine ⟨hsafe, forall_update hw.tracked ((hw.tracked p).commitTo (n + 1)), ?_, by simp⟩
    intro q
    obtain ⟨k, hk⟩ := hw.inStep.batch q
    refine ⟨k, ?_⟩
    by_cases hq : q = p
    · subst hq
      simpa [OffsetLog.commitTo] using hk
    · simpa [Function.update_of_ne hq] using hk
  · exact ⟨hsafe, fun p => .restart (hw.safe p), fun p => ⟨0, rfl⟩, by simp⟩

/-! ## Whole runs -/

/-- In every run whose commits are all clean, no committed offset is ever past an
unprocessed message; and the first unclean commit of a run breaks that promise. -/
theorem handled_while_commits_clean {size : P → Nat} {w : Worker P}
    (hrun : Reaches (step size) CleanCommit .start w) :
    Safe w ∧ ∀ a w', step size w a = some w' → (Safe w' ↔ CleanCommit w a) := by
  have hw : LoopInv w := hrun.invariant start_loopInv loopInv_step
  exact ⟨hw.safe, fun a w' => safe_step_iff hw⟩

/-- A run over a partition of two messages: both calls return, so its commits are
clean and the promise is kept. -/
theorem handled_while_commits_clean_twoMessages :
    ∃ w, Reaches (step fun _ : Unit => 2) CleanCommit .start w ∧
      (w.log ()).committed = 2 ∧ Safe w := by
  have hrun : Reaches (step fun _ : Unit => 2) CleanCommit .start
      { log := fun _ => ⟨2, 2, [1, 0], []⟩, batch := [], uncommitted := none } := by
    refine .tail (.tail (.tail (.tail (.tail .refl (a := .getmany [((), 2)]) trivial rfl)
      (a := .processed) trivial rfl) (a := .commit) ?_ rfl) (a := .processed) trivial rfl)
      (a := .commit) ?_ rfl
    all_goals simp [CleanCommit, Worker.start, OffsetLog.fresh, OffsetLog.complete,
      OffsetLog.commitTo]
  exact ⟨_, hrun, rfl, (handled_while_commits_clean hrun).1⟩

/-- The first of two messages raises and the second one returns: its commit makes 2
the resume offset, and no call has handled the message at offset 0. -/
theorem commits_behind_unhandled :
    ∃ w, Reachable (step fun _ : Unit => 2) .start w ∧
      (w.log ()).committed = 2 ∧ 0 ∉ (w.log ()).finished ∧ ¬ Safe w := by
  have hexec : [Action.getmany [((), 2)], .raised, .processed, .commit].foldlM
      (step fun _ : Unit => 2) .start =
      some { log := fun _ => ⟨2, 2, [1], [0]⟩, batch := [], uncommitted := none } := rfl
  refine ⟨_, .of_foldlM hexec, rfl, by simp, ?_⟩
  intro hsafe
  exact absurd (hsafe () 0 (by decide)) (by simp)

end RunWorker
end Settlement
end BettingPlatform
