import Mathlib.Data.List.Basic

/-!
# One partition of a log, as its consumer group reads it

A consumer works through the offsets of a partition in order.  It finishes the
work of some messages, passes over others, and commits resume offsets to the
broker; a restart resumes from the committed offset.  Two ghost lists record
which offsets have been finished in any session and which have been passed over
in the present one.

Main results:

- Theorem `OffsetLog.safe_commitTo_iff`: a commit keeps the at-least-once
  promise exactly when every passed-over offset below it was finished in another
  session.
- Theorems `OffsetLog.Tracked.complete`, `OffsetLog.Tracked.skip` and
  `OffsetLog.Tracked.restart`: the bookkeeping is preserved by each operation.
-/

namespace BettingPlatform

/-- A partition's offsets as one consumer group sees them. -/
structure OffsetLog where
  /-- The offset from which the group resumes. -/
  committed : Nat
  /-- The offset of the next message the consumer works on. -/
  position : Nat
  /-- Offsets whose work finished, in this session or an earlier one. -/
  finished : List Nat
  /-- Offsets passed over since the consumer last (re)started. -/
  missed : List Nat
deriving DecidableEq, Repr

namespace OffsetLog

/-- A partition nobody has consumed yet. -/
def fresh : OffsetLog where
  committed := 0
  position := 0
  finished := []
  missed := []

/-- The work of the message at the current position finished. -/
def complete (log : OffsetLog) : OffsetLog :=
  { log with position := log.position + 1, finished := log.position :: log.finished }

/-- The consumer moves past the message at the current position without
finishing its work. -/
def skip (log : OffsetLog) : OffsetLog :=
  { log with position := log.position + 1, missed := log.position :: log.missed }

/-- The broker makes `n` the resume offset. -/
def commitTo (log : OffsetLog) (n : Nat) : OffsetLog :=
  { log with committed := n }

/-- The consumer stops and a new session starts from the committed offset. -/
def restart (log : OffsetLog) : OffsetLog :=
  { log with position := log.committed, missed := [] }

/-- The at-least-once promise: no message below the resume offset is unfinished. -/
def Safe (log : OffsetLog) : Prop :=
  ∀ m < log.committed, m ∈ log.finished

/-- Everything below the consumer's position was finished or passed over. -/
def Tracked (log : OffsetLog) : Prop :=
  ∀ m < log.position, m ∈ log.finished ∨ m ∈ log.missed

theorem fresh_safe : fresh.Safe := by
  intro m hm
  exact absurd hm (Nat.not_lt_zero m)

theorem fresh_tracked : fresh.Tracked := by
  intro m hm
  exact absurd hm (Nat.not_lt_zero m)

/-- A completed offset leaves the log safe. -/
theorem Safe.complete {log : OffsetLog} (hsafe : log.Safe) : log.complete.Safe :=
  fun m hm => List.mem_cons_of_mem _ (hsafe m hm)

/-- So does one that is skipped. -/
theorem Safe.skip {log : OffsetLog} (hsafe : log.Safe) : log.skip.Safe :=
  hsafe

/-- And a restart. -/
theorem Safe.restart {log : OffsetLog} (hsafe : log.Safe) : log.restart.Safe :=
  hsafe

/-- A completed offset leaves the log tracked. -/
theorem Tracked.complete {log : OffsetLog} (htracked : log.Tracked) :
    log.complete.Tracked := by
  intro m hm
  rcases Nat.lt_succ_iff_lt_or_eq.mp hm with hlt | rfl
  · exact (htracked m hlt).imp_left (List.mem_cons_of_mem _)
  · exact Or.inl List.mem_cons_self

/-- So does one that is skipped. -/
theorem Tracked.skip {log : OffsetLog} (htracked : log.Tracked) : log.skip.Tracked := by
  intro m hm
  rcases Nat.lt_succ_iff_lt_or_eq.mp hm with hlt | rfl
  · exact (htracked m hlt).imp_right (List.mem_cons_of_mem _)
  · exact Or.inr List.mem_cons_self

/-- A restart forgets what was passed over; the promise itself covers everything
below the position it resumes from. -/
theorem Tracked.restart {log : OffsetLog} (hsafe : log.Safe) : log.restart.Tracked :=
  fun m hm => Or.inl (hsafe m hm)

/-- And a commit. -/
theorem Tracked.commitTo {log : OffsetLog} (htracked : log.Tracked) (n : Nat) :
    (log.commitTo n).Tracked :=
  htracked

/-- Committing a resume offset at or below the position keeps the promise exactly
when every passed-over offset below it was finished in some session. -/
theorem safe_commitTo_iff {log : OffsetLog} {n : Nat} (htracked : log.Tracked)
    (hn : n ≤ log.position) :
    (log.commitTo n).Safe ↔ ∀ m ∈ log.missed, m < n → m ∈ log.finished := by
  constructor
  · intro hsafe m _ hlt
    exact hsafe m hlt
  · intro hmissed m hlt
    rcases htracked m (Nat.lt_of_lt_of_le hlt hn) with hdone | hskipped
    · exact hdone
    · exact hmissed m hskipped hlt

end OffsetLog
end BettingPlatform
