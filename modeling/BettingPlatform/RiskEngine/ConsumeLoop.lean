import BettingPlatform.Foundations.Runs
import BettingPlatform.Foundations.OffsetLog

/-!
# The risk engine's consume loop

`main` consumes one message at a time, evaluates it, produces the result, flushes the
producer and commits the message's offset synchronously.  A failed produce and a
flush that times out both `continue` with the next `consume`; nothing is sought back.

Finishing a message means here that `produce_result` returned `true` for its result
and the flush right after it returned 0.  A result that its own flush left in the queue
may still be sent: a later flush that returns 0 has sent it as well.  A result whose
produce failed is in no queue, and is sent by no flush.

Main results:

- Theorem `commitSync_safe_iff`: a successful commit keeps the promise exactly when
  every message up to it whose publication failed in this session was published in
  another one.
- Theorem `commits_behind_unpublished`: there is a run that commits past a message
  whose result was never published.
- Theorem `published_while_commits_clean`: runs all of whose commits are clean never
  commit past an unpublished result, and the first unclean commit does.
-/

namespace BettingPlatform
namespace RiskEngine
namespace ConsumeLoop

open Runs

/-- Where the loop body stands. -/
inductive Phase
  /-- About to call `consumer->consume(100)`. -/
  | polling
  /-- `evaluate_json` has decided the message at the current position. -/
  | evaluated
  /-- `produce_result` returned `true`. -/
  | produced
  /-- `producer->flush(5000)` returned 0 for the message at this offset. -/
  | flushed (offset : Nat)
deriving DecidableEq

/-- The engine process and the broker's view of its group, for one partition. -/
structure Loop where
  log : OffsetLog
  phase : Phase

/-- A group that has consumed nothing. -/
def Loop.start : Loop where
  log := .fresh
  phase := .polling

/-- `RdKafka::ERR_NO_ERROR`. -/
def errNoError : Int := 0

/-- `RdKafka::ERR__TIMED_OUT`. -/
def errTimedOut : Int := -185

/-- `RdKafka::ERR__QUEUE_FULL`. -/
def errQueueFull : Int := -184

/-- What the calls of the loop body return. -/
inductive Action
  /-- `consume` returns a message without error. -/
  | consume
  /-- `consume` returns null, a timeout or another error. -/
  | idle
  /-- `producer.produce` returns this code. -/
  | produce (rc : Int)
  /-- `producer->flush` returns this code: 0, or `ERR__TIMED_OUT` when the queue is not empty
  after five seconds. -/
  | flush (rc : Int)
  /-- `consumer->commitSync` returns this code. -/
  | commitSync (rc : Int)
  /-- The process ends, for whatever reason, and a new one joins the group. -/
  | restart

/-- `produce_result`: true exactly when `produce` reported no error. -/
def produceResult (rc : Int) : Bool :=
  rc = errNoError

/-- One effect of the loop over a partition that holds `size` messages. -/
def step (size : Nat) (s : Loop) : Action → Option Loop
  | .consume =>
      if s.phase = .polling ∧ s.log.position < size then
        some { s with phase := .evaluated }
      else none
  | .idle => if s.phase = .polling then some s else none
  | .produce rc =>
      if s.phase = .evaluated then
        if produceResult rc then some { s with phase := .produced }
        else some { log := s.log.skip, phase := .polling }
      else none
  | .flush rc =>
      if s.phase = .produced then
        if rc ≠ 0 then some { log := s.log.skip, phase := .polling }
        else some { log := s.log.complete, phase := .flushed s.log.position }
      else none
  | .commitSync rc =>
      match s.phase with
      | .flushed n =>
          if rc = errNoError then some { log := s.log.commitTo (n + 1), phase := .polling }
          else some { s with phase := .polling }
      | _ => none
  | .restart => some { log := s.log.restart, phase := .polling }

/-- The branch that goes wrong is not taken: an offset is committed only when every
message up to it whose publication failed since the last restart was published in
another session. -/
def CleanCommit (s : Loop) : Action → Prop
  | .commitSync rc =>
      ∀ n, s.phase = .flushed n → rc = errNoError →
        ∀ m ∈ s.log.missed, m ≤ n → m ∈ s.log.finished
  | _ => True

/-! ## What one step preserves -/

/-- The loop invariant: the promise, the bookkeeping behind it, and the position
just past a message that waits for its commit. -/
structure LoopInv (s : Loop) : Prop where
  safe : s.log.Safe
  tracked : s.log.Tracked
  flushed : ∀ n, s.phase = .flushed n → s.log.position = n + 1

/-- The invariant holds when the engine subscribes. -/
theorem start_loopInv : LoopInv .start where
  safe := OffsetLog.fresh_safe
  tracked := OffsetLog.fresh_tracked
  flushed := by simp [Loop.start]

/-- A successful commit keeps the promise exactly when every message up to it whose
publication failed in this session was published in another one. -/
theorem commitSync_safe_iff {s : Loop} (hs : LoopInv s) {n : Nat}
    (hphase : s.phase = .flushed n) :
    (s.log.commitTo (n + 1)).Safe ↔ CleanCommit s (.commitSync errNoError) := by
  rw [OffsetLog.safe_commitTo_iff hs.tracked (Nat.le_of_eq (hs.flushed n hphase).symm)]
  simp only [Nat.lt_add_one_iff, CleanCommit, hphase, Phase.flushed.injEq, forall_const,
    forall_eq']

/-- Everything one effect of the loop can do: it moves between phases, passes over
the message at the position, finishes it, commits it, or starts over. -/
theorem step_cases {size : Nat} {s s' : Loop} {a : Action} (hstep : step size s a = some s') :
    (s'.log = s.log ∧ (∀ n, s'.phase ≠ .flushed n) ∧ CleanCommit s a) ∨
    (s' = { log := s.log.skip, phase := .polling } ∧ CleanCommit s a) ∨
    (s' = { log := s.log.complete, phase := .flushed s.log.position } ∧ CleanCommit s a) ∨
    (∃ n, a = .commitSync errNoError ∧ s.phase = .flushed n ∧
      s' = { log := s.log.commitTo (n + 1), phase := .polling }) ∨
    (s' = { log := s.log.restart, phase := .polling } ∧ CleanCommit s a) := by
  cases a with
  | consume =>
      simp only [step] at hstep
      split at hstep
      · obtain rfl := Option.some.inj hstep
        exact Or.inl ⟨rfl, by simp, trivial⟩
      · contradiction
  | idle =>
      simp only [step] at hstep
      split at hstep
      · rename_i hpolling
        obtain rfl := Option.some.inj hstep
        exact Or.inl ⟨rfl, by simp [hpolling], trivial⟩
      · contradiction
  | produce rc =>
      simp only [step] at hstep
      split at hstep
      · split at hstep
        · obtain rfl := Option.some.inj hstep
          exact Or.inl ⟨rfl, by simp, trivial⟩
        · exact Or.inr (Or.inl ⟨(Option.some.inj hstep).symm, trivial⟩)
      · contradiction
  | flush rc =>
      simp only [step] at hstep
      split at hstep
      · split at hstep
        · exact Or.inr (Or.inl ⟨(Option.some.inj hstep).symm, trivial⟩)
        · exact Or.inr (Or.inr (Or.inl ⟨(Option.some.inj hstep).symm, trivial⟩))
      · contradiction
  | commitSync rc =>
      simp only [step] at hstep
      split at hstep
      · rename_i n hphase
        split at hstep
        · rename_i hrc
          exact Or.inr (Or.inr (Or.inr (Or.inl
            ⟨n, by rw [hrc], hphase, (Option.some.inj hstep).symm⟩)))
        · rename_i hrc
          obtain rfl := Option.some.inj hstep
          exact Or.inl ⟨rfl, by simp, fun _ _ hok => absurd hok hrc⟩
      · contradiction
  | restart =>
      exact Or.inr (Or.inr (Or.inr (Or.inr ⟨(Option.some.inj hstep).symm, trivial⟩)))

/-- From a state of a clean run, the next state keeps the promise exactly when the
step is clean. -/
theorem safe_step_iff {size : Nat} {s s' : Loop} {a : Action} (hs : LoopInv s)
    (hstep : step size s a = some s') : s'.log.Safe ↔ CleanCommit s a := by
  obtain ⟨hlog, -, hclean⟩ | ⟨rfl, hclean⟩ | ⟨rfl, hclean⟩ | ⟨n, rfl, hphase, rfl⟩ |
    ⟨rfl, hclean⟩ := step_cases hstep
  · exact iff_of_true (hlog ▸ hs.safe) hclean
  · exact iff_of_true hs.safe.skip hclean
  · exact iff_of_true hs.safe.complete hclean
  · exact commitSync_safe_iff hs hphase
  · exact iff_of_true hs.safe.restart hclean

/-- A clean step preserves the loop invariant. -/
theorem loopInv_step {size : Nat} {s s' : Loop} {a : Action} (hs : LoopInv s)
    (hclean : CleanCommit s a) (hstep : step size s a = some s') : LoopInv s' := by
  have hsafe : s'.log.Safe := (safe_step_iff hs hstep).mpr hclean
  obtain ⟨hlog, hphase, -⟩ | ⟨rfl, -⟩ | ⟨rfl, -⟩ | ⟨n, rfl, hphase, rfl⟩ | ⟨rfl, -⟩ :=
    step_cases hstep
  · exact ⟨hsafe, hlog ▸ hs.tracked, fun n hn => absurd hn (hphase n)⟩
  · exact ⟨hsafe, hs.tracked.skip, by simp⟩
  · exact ⟨hsafe, hs.tracked.complete, by simp [OffsetLog.complete]⟩
  · exact ⟨hsafe, hs.tracked.commitTo (n + 1), by simp⟩
  · exact ⟨hsafe, .restart hs.safe, by simp⟩

/-! ## Whole runs -/

/-- In every run whose commits are all clean, the committed offset is never past a
message whose result was not published; and the first unclean commit of a run breaks
that promise. -/
theorem published_while_commits_clean {size : Nat} {s : Loop}
    (hrun : Reaches (step size) CleanCommit .start s) :
    s.log.Safe ∧ ∀ a s', step size s a = some s' → (s'.log.Safe ↔ CleanCommit s a) := by
  have hs : LoopInv s := hrun.invariant start_loopInv loopInv_step
  exact ⟨hs.safe, fun a s' => safe_step_iff hs⟩

/-- One message is consumed, published and committed: its commit is clean. -/
theorem published_while_commits_clean_oneMessage :
    ∃ s, Reaches (step 1) CleanCommit .start s ∧ s.log.committed = 1 ∧ s.log.Safe := by
  have hrun : Reaches (step 1) CleanCommit .start
      { log := ⟨1, 1, [0], []⟩, phase := .polling } := by
    refine .tail (.tail (.tail (.tail .refl (a := .consume) trivial rfl)
      (a := .produce 0) trivial rfl) (a := .flush 0) trivial rfl)
      (a := .commitSync 0) ?_ rfl
    simp [CleanCommit, Loop.start, OffsetLog.fresh, OffsetLog.complete]
  exact ⟨_, hrun, rfl, (published_while_commits_clean hrun).1⟩

/-- The queue is full for the first of two results and the second one goes through: its
commit makes 2 the resume offset, and the result of the message at offset 0 was never
produced. -/
theorem commits_behind_unpublished :
    ∃ s, Reachable (step 2) .start s ∧
      s.log.committed = 2 ∧ 0 ∉ s.log.finished ∧ ¬ s.log.Safe := by
  have hexec : [Action.consume, .produce errQueueFull, .consume, .produce 0, .flush 0,
      .commitSync 0].foldlM (step 2) .start =
      some { log := ⟨2, 2, [1], [0]⟩, phase := .polling } := rfl
  refine ⟨_, .of_foldlM hexec, rfl, by simp, ?_⟩
  intro hsafe
  exact absurd (hsafe 0 (by decide)) (by simp)

end ConsumeLoop
end RiskEngine
end BettingPlatform
