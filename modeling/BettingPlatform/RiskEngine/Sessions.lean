import Mathlib.Algebra.BigOperators.Group.Finset.Basic
import Mathlib.Algebra.Order.BigOperators.Group.Finset
import Mathlib.Algebra.Order.BigOperators.Group.List
import Mathlib.Data.List.Nodup
import BettingPlatform.RiskEngine.BalanceSeeds
import BettingPlatform.RiskEngine.ConsumeLoop
import BettingPlatform.RiskEngine.Redelivery

/-!
# The engine process and its topics

`main` evaluates one message after the other against the balances and exposures of its own
memory, and a new process starts again from the seeds and from the committed offset.  The
results go into the producer's queue; the broker takes them from there at any time, or their
delivery fails for good.  A session is the life of one process.

Main results:

- Theorem `step_cases`: what one effect of the loop, the producer or the broker does.
- Theorem `sessions_of_reachable`: in every run, what the published results have staked and
  promised on an account is bounded by the number of sessions.
- Theorem `published_of_committed`: in runs with clean commits and no lost delivery, every
  committed message has its result on the topic.
-/

namespace BettingPlatform
namespace RiskEngine
namespace Sessions

open Runs ConsumeLoop

variable {P : Type}

/-! ## The process -/

/-- One evaluation of a message: the session it was made in, the message's offset and
payload, and the result. -/
structure Decision where
  session : Nat
  offset : Nat
  payload : Bytes
  result : BetResult
deriving DecidableEq

/-- The topics and the present process.  `decided` keeps all evaluations there have been. -/
structure Process (P : Type) where
  /-- `bets-submitted`, one partition. -/
  submitted : List Bytes
  loop : Loop
  accounts : Accounts
  session : Nat
  /-- `result` in the body of the loop. -/
  current : Option Decision
  /-- The producer's queue. -/
  queued : List Decision
  /-- `bets-results`: each result with its partition, in the order the broker took them. -/
  published : List (P × Decision)
  decided : List Decision

/-- The first process, before its first `consume`. -/
def Process.start (seeds : Accounts) : Process P where
  submitted := []
  loop := .start
  accounts := seeds
  session := 0
  current := none
  queued := []
  published := []
  decided := []

/-- What happens next. -/
inductive Action (P : Type)
  /-- Another service appends a message to `bets-submitted`. -/
  | submit (payload : Bytes)
  /-- `consume` returns the message at the position, and `evaluate_json` decides it at this
  reading of the clock. -/
  | consume (now : Int)
  /-- `consume` returns null, a timeout or another error. -/
  | idle
  /-- `producer.produce` returns this code. -/
  | produce (rc : Int)
  /-- The broker takes the `i`-th queued result into partition `p`. -/
  | deliver (i : Nat) (p : P)
  /-- The delivery of the `i`-th queued result fails for good. -/
  | lose (i : Nat)
  /-- `producer->flush(5000)` returns. -/
  | flush
  /-- `consumer->commitSync` returns this code. -/
  | commitSync (rc : Int)
  /-- The process ends, and a new one is seeded and joins the group. -/
  | restart

/-- The code of `producer->flush(5000)`: what is still queued has outlasted its five seconds. -/
def flushCode (queued : List Decision) : Int :=
  if queued.isEmpty then errNoError else errTimedOut

/-- The flush succeeds when nothing is left in the queue. -/
theorem flushCode_eq_zero_iff {queued : List Decision} : flushCode queued = 0 ↔ queued = [] := by
  cases queued <;> simp [flushCode, errNoError, errTimedOut]

/-- One effect; `seeds` are the accounts `main` sets the engine up with. -/
def step [FieldOrder] (cap : Int) (seeds : Accounts) (s : Process P) : Action P → Option (Process P)
  | .submit payload => some { s with submitted := s.submitted ++ [payload] }
  | .consume now => do
      let loop ← ConsumeLoop.step s.submitted.length s.loop .consume
      let payload ← s.submitted[s.loop.log.position]?
      let (result, accounts) := evaluateJson cap s.accounts now payload
      let decision := ⟨s.session, s.loop.log.position, payload, result⟩
      some { s with loop, accounts, current := some decision, decided := decision :: s.decided }
  | .idle => do
      let loop ← ConsumeLoop.step s.submitted.length s.loop .idle
      some { s with loop }
  | .produce rc => do
      let loop ← ConsumeLoop.step s.submitted.length s.loop (.produce rc)
      let decision ← s.current
      some { s with loop, queued := if produceResult rc then s.queued ++ [decision] else s.queued }
  | .deliver i p => do
      let decision ← s.queued[i]?
      some { s with queued := s.queued.eraseIdx i, published := s.published ++ [(p, decision)] }
  | .lose i => if i < s.queued.length then some { s with queued := s.queued.eraseIdx i } else none
  | .flush => do
      let loop ← ConsumeLoop.step s.submitted.length s.loop (.flush (flushCode s.queued))
      some { s with loop }
  | .commitSync rc => do
      let loop ← ConsumeLoop.step s.submitted.length s.loop (.commitSync rc)
      some { s with loop }
  | .restart => do
      let loop ← ConsumeLoop.step s.submitted.length s.loop .restart
      some { s with loop, accounts := seeds, session := s.session + 1, current := none, queued := [] }

/-- No delivery fails for good, and every commit is clean. -/
def CarefulStep (s : Process P) : Action P → Prop
  | .commitSync rc => CleanCommit s.loop (.commitSync rc)
  | .lose _ => False
  | _ => True

/-- What one effect does. -/
inductive Stepped [FieldOrder] (cap : Int) (seeds : Accounts) (s : Process P) :
    Action P → Process P → Prop
  | submitted (payload : Bytes) :
      Stepped cap seeds s (.submit payload) { s with submitted := s.submitted ++ [payload] }
  | consumed {payload : Bytes} (now : Int) (polling : s.loop.phase = .polling)
      (message : s.submitted[s.loop.log.position]? = some payload) :
      Stepped cap seeds s (.consume now)
        { s with
          loop := { s.loop with phase := .evaluated }
          accounts := (evaluateJson cap s.accounts now payload).2
          current := some ⟨s.session, s.loop.log.position, payload,
            (evaluateJson cap s.accounts now payload).1⟩
          decided := ⟨s.session, s.loop.log.position, payload,
            (evaluateJson cap s.accounts now payload).1⟩ :: s.decided }
  | idle : Stepped cap seeds s .idle s
  | refused {rc : Int} (evaluated : s.loop.phase = .evaluated) :
      Stepped cap seeds s (.produce rc) { s with loop := ⟨s.loop.log.skip, .polling⟩ }
  | produced {rc : Int} {decision : Decision} (evaluated : s.loop.phase = .evaluated)
      (current : s.current = some decision) :
      Stepped cap seeds s (.produce rc)
        { s with loop := { s.loop with phase := .produced }, queued := s.queued ++ [decision] }
  | delivered {i : Nat} {p : P} {decision : Decision} (queued : s.queued[i]? = some decision) :
      Stepped cap seeds s (.deliver i p)
        { s with queued := s.queued.eraseIdx i, published := s.published ++ [(p, decision)] }
  | lost {i : Nat} : Stepped cap seeds s (.lose i) { s with queued := s.queued.eraseIdx i }
  | waiting (produced : s.loop.phase = .produced) :
      Stepped cap seeds s .flush { s with loop := ⟨s.loop.log.skip, .polling⟩ }
  | flushed (produced : s.loop.phase = .produced) (queued : s.queued = []) :
      Stepped cap seeds s .flush
        { s with loop := ⟨s.loop.log.complete, .flushed s.loop.log.position⟩ }
  | committed {n : Nat} (flushed : s.loop.phase = .flushed n) :
      Stepped cap seeds s (.commitSync errNoError)
        { s with loop := ⟨s.loop.log.commitTo (n + 1), .polling⟩ }
  | uncommitted {n : Nat} {rc : Int} (flushed : s.loop.phase = .flushed n) :
      Stepped cap seeds s (.commitSync rc) { s with loop := { s.loop with phase := .polling } }
  | restarted :
      Stepped cap seeds s .restart
        { s with
          loop := ⟨s.loop.log.restart, .polling⟩
          accounts := seeds
          session := s.session + 1
          current := none
          queued := [] }

/-- Everything a step of the process can do. -/
theorem step_cases [FieldOrder] {cap : Int} {seeds : Accounts} {s s' : Process P} {a : Action P}
    (hstep : step cap seeds s a = some s') : Stepped cap seeds s a s' := by
  cases a with
  | submit payload =>
      obtain rfl := Option.some.inj hstep
      exact .submitted payload
  | consume now =>
      obtain ⟨loop, hloop, hstep⟩ := Option.bind_eq_some_iff.mp hstep
      obtain ⟨payload, hpayload, hstep⟩ := Option.bind_eq_some_iff.mp hstep
      obtain rfl := Option.some.inj hstep
      simp only [ConsumeLoop.step] at hloop
      split at hloop
      · rename_i hready
        obtain rfl := Option.some.inj hloop
        exact .consumed now hready.1 hpayload
      · contradiction
  | idle =>
      obtain ⟨loop, hloop, hstep⟩ := Option.bind_eq_some_iff.mp hstep
      obtain rfl := Option.some.inj hstep
      simp only [ConsumeLoop.step] at hloop
      split at hloop
      · obtain rfl := Option.some.inj hloop
        exact .idle
      · contradiction
  | produce rc =>
      obtain ⟨loop, hloop, hstep⟩ := Option.bind_eq_some_iff.mp hstep
      obtain ⟨decision, hcurrent, hstep⟩ := Option.bind_eq_some_iff.mp hstep
      obtain rfl := Option.some.inj hstep
      simp only [ConsumeLoop.step] at hloop
      split at hloop
      · rename_i hevaluated
        split at hloop
        · rename_i hok
          obtain rfl := Option.some.inj hloop
          simpa only [hok, if_true] using Stepped.produced hevaluated hcurrent
        · rename_i hfailed
          obtain rfl := Option.some.inj hloop
          simpa only [hfailed, Bool.false_eq_true, if_false] using Stepped.refused hevaluated
      · contradiction
  | deliver i p =>
      obtain ⟨decision, hqueued, hstep⟩ := Option.bind_eq_some_iff.mp hstep
      obtain rfl := Option.some.inj hstep
      exact .delivered hqueued
  | lose i =>
      simp only [step] at hstep
      split at hstep
      · obtain rfl := Option.some.inj hstep
        exact .lost
      · contradiction
  | flush =>
      obtain ⟨loop, hloop, hstep⟩ := Option.bind_eq_some_iff.mp hstep
      obtain rfl := Option.some.inj hstep
      simp only [ConsumeLoop.step] at hloop
      split at hloop
      · rename_i hproduced
        split at hloop
        · obtain rfl := Option.some.inj hloop
          exact .waiting hproduced
        · rename_i hempty
          obtain rfl := Option.some.inj hloop
          exact .flushed hproduced (flushCode_eq_zero_iff.mp (not_not.mp hempty))
      · contradiction
  | commitSync rc =>
      obtain ⟨loop, hloop, hstep⟩ := Option.bind_eq_some_iff.mp hstep
      obtain rfl := Option.some.inj hstep
      simp only [ConsumeLoop.step] at hloop
      split at hloop
      · rename_i n hflushed
        split at hloop
        · rename_i hrc
          obtain rfl := Option.some.inj hloop
          subst hrc
          exact .committed hflushed
        · obtain rfl := Option.some.inj hloop
          exact .uncommitted hflushed
      · contradiction
  | restart =>
      obtain rfl := Option.some.inj hstep
      exact .restarted

/-! ## Where the results come from -/

/-- The results that have left the loop. -/
def Process.sent (s : Process P) : List Decision :=
  s.queued ++ s.published.map Prod.snd

/-- The bookkeeping of a run: which evaluations there have been, and that each of them is
sent at most once. -/
structure Traced [FieldOrder] (cap : Int) (s : Process P) : Prop where
  /-- No offset is evaluated twice in one session. -/
  distinct : (s.decided.map fun d => (d.session, d.offset)).Nodup
  /-- The present session has evaluated what is below its position, and the message at its
  position when the loop is working on it. -/
  bounded : ∀ d ∈ s.decided, d.session ≤ s.session ∧
    (d.session = s.session → d.offset < s.loop.log.position ∨
      (s.loop.phase = .evaluated ∨ s.loop.phase = .produced) ∧ d.offset = s.loop.log.position)
  source : ∀ d ∈ s.decided, s.submitted[d.offset]? = some d.payload ∧
    ∃ accounts now, d.result = (evaluateJson cap accounts now d.payload).1
  current : s.loop.phase = .evaluated ∨ s.loop.phase = .produced →
    ∃ d ∈ s.decided, s.current = some d ∧ d.offset = s.loop.log.position ∧
      (s.loop.phase = .evaluated → d ∉ s.sent)
  flushed : ∀ n, s.loop.phase = .flushed n → s.loop.log.position = n + 1
  sent : s.sent.Nodup ∧ ∀ d ∈ s.sent, d ∈ s.decided

/-- A process that starts has decided nothing. -/
theorem traced_start [FieldOrder] {cap : Int} {seeds : Accounts} :
    Traced cap (Process.start seeds : Process P) where
  distinct := by simp [Process.start]
  bounded := by simp [Process.start]
  source := by simp [Process.start]
  current := by simp [Process.start, Loop.start]
  flushed := by simp [Process.start, Loop.start]
  sent := by simp [Process.start, Process.sent]

/-- A result that leaves the queue for the topic is still sent once. -/
theorem sent_delivered_perm {s : Process P} {i : Nat} {decision : Decision} {p : P}
    (hqueued : s.queued[i]? = some decision) :
    ({ s with queued := s.queued.eraseIdx i, published := s.published ++ [(p, decision)] } :
      Process P).sent.Perm s.sent := by
  obtain ⟨hi, rfl⟩ := List.getElem?_eq_some_iff.mp hqueued
  simp only [Process.sent, List.map_append, List.map_cons, List.map_nil]
  rw [← List.append_assoc]
  refine List.perm_append_comm.trans ?_
  rw [List.singleton_append, ← List.cons_append]
  exact (List.getElem_cons_eraseIdx_perm hi).append_right _

/-- Evaluating the message at the position adds a decision that was not there. -/
theorem Traced.consumed [FieldOrder] {cap : Int} {s : Process P} (hs : Traced cap s)
    {payload : Bytes} (now : Int) (hpolling : s.loop.phase = .polling)
    (hmessage : s.submitted[s.loop.log.position]? = some payload) :
    Traced cap
      { s with
        loop := { s.loop with phase := .evaluated }
        accounts := (evaluateJson cap s.accounts now payload).2
        current := some ⟨s.session, s.loop.log.position, payload,
          (evaluateJson cap s.accounts now payload).1⟩
        decided := ⟨s.session, s.loop.log.position, payload,
          (evaluateJson cap s.accounts now payload).1⟩ :: s.decided } := by
  have hbelow : ∀ d ∈ s.decided, d.session = s.session → d.offset < s.loop.log.position := by
    intro d hd hsession
    rcases (hs.bounded d hd).2 hsession with hlt | ⟨hphase, -⟩
    · exact hlt
    · simp [hpolling] at hphase
  have hnew : (s.session, s.loop.log.position) ∉ s.decided.map fun d => (d.session, d.offset) := by
    intro hmem
    obtain ⟨d, hd, hkey⟩ := List.mem_map.mp hmem
    obtain ⟨hsession, hoffset⟩ := Prod.mk.inj hkey
    exact absurd (hbelow d hd hsession) (by omega)
  refine ⟨List.nodup_cons.mpr ⟨hnew, hs.distinct⟩, ?_, ?_, ?_, by simp, hs.sent.1, ?_⟩
  · refine List.forall_mem_cons.mpr ⟨⟨le_rfl, fun _ => Or.inr ⟨Or.inl rfl, rfl⟩⟩, fun d hd => ?_⟩
    exact ⟨(hs.bounded d hd).1, fun hsession => Or.inl (hbelow d hd hsession)⟩
  · exact List.forall_mem_cons.mpr ⟨⟨hmessage, s.accounts, now, rfl⟩, hs.source⟩
  · intro _
    refine ⟨_, List.mem_cons_self, rfl, rfl, fun _ hsent => hnew ?_⟩
    exact List.mem_map_of_mem (hs.sent.2 _ hsent)
  · exact fun d hd => List.mem_cons_of_mem _ (hs.sent.2 d hd)

/-- Passing over the message that the loop works on. -/
theorem Traced.skip [FieldOrder] {cap : Int} {s : Process P} (hs : Traced cap s) :
    Traced cap { s with loop := ⟨s.loop.log.skip, .polling⟩ } where
  distinct := hs.distinct
  bounded := by
    intro d hd
    refine ⟨(hs.bounded d hd).1, fun hsession => Or.inl ?_⟩
    rcases (hs.bounded d hd).2 hsession with hlt | ⟨-, heq⟩
    · exact Nat.lt_succ_of_lt hlt
    · exact Nat.lt_succ_of_le heq.le
  source := hs.source
  current := by simp
  flushed := by simp
  sent := hs.sent

/-- Each effect keeps the bookkeeping. -/
theorem traced_step [FieldOrder] {cap : Int} {seeds : Accounts} {s s' : Process P} {a : Action P}
    (hs : Traced cap s) (hstep : step cap seeds s a = some s') : Traced cap s' := by
  cases step_cases hstep with
  | submitted payload =>
      refine ⟨hs.distinct, hs.bounded, fun d hd => ?_, hs.current, hs.flushed, hs.sent⟩
      obtain ⟨hmessage, hresult⟩ := hs.source d hd
      obtain ⟨hlt, -⟩ := List.getElem?_eq_some_iff.mp hmessage
      exact ⟨by rw [List.getElem?_append_left hlt, hmessage], hresult⟩
  | consumed now hpolling hmessage => exact hs.consumed now hpolling hmessage
  | idle => exact hs
  | refused => exact hs.skip
  | @produced rc decision hevaluated hcurrent =>
      obtain ⟨d, hd, hsome, hoffset, hunsent⟩ := hs.current (Or.inl hevaluated)
      obtain rfl := Option.some.inj (hcurrent.symm.trans hsome)
      have hperm : ({ s with
          loop := { s.loop with phase := .produced }
          queued := s.queued ++ [decision] } : Process P).sent.Perm (decision :: s.sent) := by
        simp only [Process.sent, List.append_assoc, List.singleton_append]
        exact List.perm_middle
      refine ⟨hs.distinct, fun d' hd' => ⟨(hs.bounded d' hd').1, fun hsession => ?_⟩, hs.source,
        fun _ => ⟨decision, hd, hcurrent, hoffset, by simp⟩, by simp, ?_, fun d' hd' => ?_⟩
      · rcases (hs.bounded d' hd').2 hsession with hlt | ⟨-, heq⟩
        · exact Or.inl hlt
        · exact Or.inr ⟨Or.inr rfl, heq⟩
      · rw [hperm.nodup_iff, List.nodup_cons]
        exact ⟨hunsent hevaluated, hs.sent.1⟩
      · rcases List.mem_cons.mp (hperm.mem_iff.mp hd') with rfl | hd'
        · exact hd
        · exact hs.sent.2 d' hd'
  | @delivered i p decision hqueued =>
      have hperm := @sent_delivered_perm P s i decision p hqueued
      refine ⟨hs.distinct, hs.bounded, hs.source, fun hphase => ?_, hs.flushed, ?_, fun d hd => ?_⟩
      · obtain ⟨d, hd, hsome, hoffset, hunsent⟩ := hs.current hphase
        exact ⟨d, hd, hsome, hoffset, fun hevaluated hmem =>
          hunsent hevaluated (hperm.mem_iff.mp hmem)⟩
      · exact hperm.nodup_iff.mpr hs.sent.1
      · exact hs.sent.2 d (hperm.mem_iff.mp hd)
  | @lost i =>
      have hsub : (s.queued.eraseIdx i ++ s.published.map Prod.snd).Sublist s.sent :=
        (List.eraseIdx_sublist _ _).append_right _
      refine ⟨hs.distinct, hs.bounded, hs.source, fun hphase => ?_, hs.flushed,
        hs.sent.1.sublist hsub, fun d hd => hs.sent.2 d (hsub.mem hd)⟩
      obtain ⟨d, hd, hsome, hoffset, hunsent⟩ := hs.current hphase
      exact ⟨d, hd, hsome, hoffset, fun hevaluated hmem => hunsent hevaluated (hsub.mem hmem)⟩
  | waiting => exact hs.skip
  | flushed =>
      refine ⟨hs.distinct, fun d hd => ⟨(hs.bounded d hd).1, fun hsession => Or.inl ?_⟩,
        hs.source, by simp, by simp [OffsetLog.complete], hs.sent⟩
      rcases (hs.bounded d hd).2 hsession with hlt | ⟨-, heq⟩
      · exact Nat.lt_succ_of_lt hlt
      · exact Nat.lt_succ_of_le heq.le
  | committed hflushed =>
      refine ⟨hs.distinct, fun d hd => ⟨(hs.bounded d hd).1, fun hsession => Or.inl ?_⟩,
        hs.source, by simp, by simp, hs.sent⟩
      rcases (hs.bounded d hd).2 hsession with hlt | ⟨hphase, -⟩
      · exact hlt
      · simp [hflushed] at hphase
  | uncommitted hflushed =>
      refine ⟨hs.distinct, fun d hd => ⟨(hs.bounded d hd).1, fun hsession => Or.inl ?_⟩,
        hs.source, by simp, by simp, hs.sent⟩
      rcases (hs.bounded d hd).2 hsession with hlt | ⟨hphase, -⟩
      · exact hlt
      · simp [hflushed] at hphase
  | restarted =>
      have hsub : (([] : List Decision) ++ s.published.map Prod.snd).Sublist s.sent :=
        List.Sublist.append_right (List.nil_sublist _) _
      refine ⟨hs.distinct, fun d hd => ?_, hs.source, by simp, by simp,
        hs.sent.1.sublist hsub, fun d hd => hs.sent.2 d (hsub.mem hd)⟩
      have hle := (hs.bounded d hd).1
      exact ⟨by simp only; omega, fun hsession => by simp only at hsession; omega⟩

/-- In every run the decisions come from evaluations, one for each offset of a session. -/
theorem traced_of_reachable [FieldOrder] {cap : Int} {seeds : Accounts} {s : Process P}
    (hrun : Reachable (step cap seeds) (.start seeds) s) : Traced cap s :=
  hrun.invariant traced_start fun hs _ hstep => traced_step hs hstep

/-! ## What a session stakes and promises -/

/-- What the decision takes from an account. -/
def Decision.staked (account : Bytes) (d : Decision) : Int :=
  if d.result.accepted ∧ d.result.accountId = account then d.result.stakeCents else 0

/-- The payout that the decision promises an account. -/
def Decision.promised [FieldOrder] (account : Bytes) (d : Decision) : Int :=
  if d.result.accepted ∧ d.result.accountId = account then
    match parseBetJson d.payload with
    | .ok bet => bet.potentialPayoutCents
    | .error _ => 0
  else 0

/-- A sum over the decisions of one session. -/
def inSession (k : Nat) (f : Decision → Int) (ds : List Decision) : Int :=
  ((ds.filter fun d => d.session = k).map f).sum

/-- The sum over a session grows by the decision that is added. -/
theorem inSession_cons (k : Nat) (f : Decision → Int) (d : Decision) (ds : List Decision) :
    inSession k f (d :: ds) = (if d.session = k then f d else 0) + inSession k f ds := by
  by_cases hsession : d.session = k <;> simp [inSession, hsession]

/-- A session that has not begun has decided nothing. -/
theorem inSession_eq_zero {k : Nat} {f : Decision → Int} {ds : List Decision}
    (h : ∀ d ∈ ds, d.session < k) : inSession k f ds = 0 := by
  have hnone : ds.filter (fun d => d.session = k) = [] := by
    rw [List.filter_eq_nil_iff]
    intro d hd hsession
    exact absurd (of_decide_eq_true hsession) (h d hd).ne
  rw [inSession, hnone]
  rfl

/-- A sum over all decisions, session by session. -/
theorem sum_eq_sum_inSession {f : Decision → Int} {ds : List Decision} {n : Nat}
    (h : ∀ d ∈ ds, d.session < n) : (ds.map f).sum = ∑ k ∈ Finset.range n, inSession k f ds := by
  induction ds with
  | nil => simp [inSession]
  | cons d ds ih =>
      obtain ⟨hd, hds⟩ := List.forall_mem_cons.mp h
      simp only [List.map_cons, List.sum_cons, inSession_cons, Finset.sum_add_distrib, ih hds,
        Finset.sum_ite_eq, Finset.mem_range, hd, if_true]

section Books

variable {cap now : Int} {s : Accounts} {payload : Bytes} {d : Decision}

/-- A decision books what it takes and promises on its account, within the balance and the
cap, and nothing on any other. -/
theorem evaluateJson_books [FieldOrder] (hs : s.BalancesFit) (hpayload : d.payload = payload)
    (hresult : d.result = (evaluateJson cap s now payload).1) (account : Bytes) :
    (evaluateJson cap s now payload).2.balances account =
        (s.balances account).map (fun b => b - d.staked account) ∧
      (evaluateJson cap s now payload).2.exposure account =
        s.exposure account + d.promised account ∧
      (d.staked account ≠ 0 → ∃ b, s.balances account = some b ∧ d.staked account ≤ b) ∧
      (d.promised account ≠ 0 → s.exposure account + d.promised account ≤ cap) := by
  have hdecided := @decided_evaluateJson _ cap now s hs payload
  cases haccepted : (evaluateJson cap s now payload).1.accepted with
  | false =>
      obtain ⟨hbalances, hexposure⟩ := hdecided.unchanged haccepted
      have hstaked : d.staked account = 0 := by simp [Decision.staked, hresult, haccepted]
      have hpromised : d.promised account = 0 := by simp [Decision.promised, hresult, haccepted]
      refine ⟨?_, ?_, fun h => absurd hstaked h, fun h => absurd hpromised h⟩
      · simp [hbalances, hstaked]
      · simp [hexposure, hpromised]
  | true =>
      obtain ⟨bet, balance, hparse, hbalance, hcovered, hroom, haccept⟩ :=
        evaluateJson_accepted haccepted
      obtain ⟨bet', hparse', hbooked⟩ := hdecided.booked haccepted
      obtain rfl : bet = bet' := Except.ok.inj (hparse.symm.trans hparse')
      have hstaked : d.staked account = if bet.accountId = account then bet.stakeCents else 0 := by
        simp [Decision.staked, hresult, haccept, BetResult.acceptance, BetResult.ofBet]
      have hpromised : d.promised account =
          if bet.accountId = account then bet.potentialPayoutCents else 0 := by
        simp [Decision.promised, hresult, hpayload, haccept, hparse, BetResult.acceptance,
          BetResult.ofBet]
      rw [hstaked, hpromised]
      by_cases hown : bet.accountId = account
      · subst hown
        obtain ⟨b, hb, hafter⟩ := hbooked.balance
        obtain rfl := Option.some.inj (hbalance.symm.trans hb)
        simp only [if_true]
        exact ⟨by rw [hafter, hbalance]; rfl, hbooked.exposure, fun _ => ⟨balance, hbalance, hcovered⟩,
          fun _ => hroom⟩
      · obtain ⟨hbalances, hexposure⟩ := hbooked.frame account (Ne.symm hown)
        simp [hown, hbalances, hexposure]

end Books

/-- The most that an account can stake in one session: its seed, and nothing when the seed is
negative. -/
def stakeLimit (seeds : Accounts) (account : Bytes) : Int :=
  max ((seeds.balances account).getD 0) 0

/-- The balances and exposures are those of the present session, and no session has staked
or promised more than its seeds and the cap allow. -/
structure Accounted [FieldOrder] (cap : Int) (seeds : Accounts) (s : Process P) : Prop where
  fits : s.accounts.BalancesFit
  balance : ∀ account, s.accounts.balances account = (seeds.balances account).map fun seed =>
    seed - inSession s.session (Decision.staked account) s.decided
  exposure : ∀ account, s.accounts.exposure account =
    inSession s.session (Decision.promised account) s.decided
  limits : ∀ k account, inSession k (Decision.staked account) s.decided ≤ stakeLimit seeds account ∧
    inSession k (Decision.promised account) s.decided ≤ cap

section Accounted

variable {cap : Int} {seeds : Accounts} {s s' : Process P}

/-- The seeds pay for a process that has decided nothing. -/
theorem accounted_start [FieldOrder] (hcap : 0 < cap) (hseeds : seeds.BalancesFit)
    (hzero : ∀ account, seeds.exposure account = 0) :
    Accounted cap seeds (Process.start seeds : Process P) where
  fits := hseeds
  balance := by simp [Process.start, inSession]
  exposure := by simp [Process.start, inSession, hzero]
  limits := by
    intro k account
    have hnonneg : 0 ≤ stakeLimit seeds account := le_max_right _ _
    simpa [Process.start, inSession] using ⟨hnonneg, hcap.le⟩

/-- An evaluation is booked in the present session. -/
theorem Accounted.consumed [FieldOrder] (hs : Accounted cap seeds s) {payload : Bytes} (now : Int) :
    Accounted cap seeds
      { s with
        loop := { s.loop with phase := .evaluated }
        accounts := (evaluateJson cap s.accounts now payload).2
        current := some ⟨s.session, s.loop.log.position, payload,
          (evaluateJson cap s.accounts now payload).1⟩
        decided := ⟨s.session, s.loop.log.position, payload,
          (evaluateJson cap s.accounts now payload).1⟩ :: s.decided } := by
  have hbooks := @evaluateJson_books cap now s.accounts payload
    ⟨s.session, s.loop.log.position, payload, (evaluateJson cap s.accounts now payload).1⟩ _
    hs.fits rfl rfl
  refine ⟨balancesFit_evaluateDelivery hs.fits ⟨now, payload⟩, fun account => ?_,
    fun account => ?_, fun k account => ?_⟩
  · simp only [(hbooks account).1, hs.balance account, inSession_cons, if_true, Option.map_map]
    congr 1
    funext seed
    simp only [Function.comp_apply]
    omega
  · simp only [(hbooks account).2.1, hs.exposure account, inSession_cons, if_true]
    omega
  · obtain ⟨hbalance, hexposure, hcovered, hroom⟩ := hbooks account
    obtain ⟨hstaked, hpromised⟩ := hs.limits k account
    simp only [inSession_cons]
    split
    · rename_i hsession
      subst hsession
      constructor
      · by_cases hzero : Decision.staked account ⟨s.session, s.loop.log.position, payload,
          (evaluateJson cap s.accounts now payload).1⟩ = 0
        · rw [hzero, Int.zero_add]
          exact hstaked
        · obtain ⟨b, hb, hle⟩ := hcovered hzero
          rw [hs.balance account] at hb
          obtain ⟨seed, hseed, rfl⟩ := Option.map_eq_some_iff.mp hb
          have hlimit : seed ≤ stakeLimit seeds account := by
            rw [stakeLimit, hseed]
            exact le_max_left _ _
          omega
      · by_cases hzero : Decision.promised account ⟨s.session, s.loop.log.position, payload,
          (evaluateJson cap s.accounts now payload).1⟩ = 0
        · rw [hzero, Int.zero_add]
          exact hpromised
        · have hle := hroom hzero
          rw [hs.exposure account] at hle
          omega
    · rw [Int.zero_add, Int.zero_add]
      exact ⟨hstaked, hpromised⟩

/-- Each effect keeps the accounts. -/
theorem accounted_step [FieldOrder] (hseeds : seeds.BalancesFit)
    (hzero : ∀ account, seeds.exposure account = 0) (htraced : Traced cap s)
    (hs : Accounted cap seeds s) {a : Action P} (hstep : step cap seeds s a = some s') :
    Accounted cap seeds s' := by
  cases step_cases hstep with
  | consumed now => exact hs.consumed now
  | restarted =>
      have hnew : ∀ f, inSession (s.session + 1) f s.decided = 0 := fun f =>
        inSession_eq_zero fun d hd => Nat.lt_succ_of_le (htraced.bounded d hd).1
      exact ⟨hseeds, by simp [hnew], by simp [hnew, hzero], hs.limits⟩
  | submitted => exact ⟨hs.fits, hs.balance, hs.exposure, hs.limits⟩
  | idle => exact hs
  | refused => exact ⟨hs.fits, hs.balance, hs.exposure, hs.limits⟩
  | produced => exact ⟨hs.fits, hs.balance, hs.exposure, hs.limits⟩
  | delivered => exact ⟨hs.fits, hs.balance, hs.exposure, hs.limits⟩
  | lost => exact ⟨hs.fits, hs.balance, hs.exposure, hs.limits⟩
  | waiting => exact ⟨hs.fits, hs.balance, hs.exposure, hs.limits⟩
  | flushed => exact ⟨hs.fits, hs.balance, hs.exposure, hs.limits⟩
  | committed => exact ⟨hs.fits, hs.balance, hs.exposure, hs.limits⟩
  | uncommitted => exact ⟨hs.fits, hs.balance, hs.exposure, hs.limits⟩

/-- In every run the balances of the session account for its decisions. -/
theorem accounted_of_reachable [FieldOrder] {env : Environment}
    (henv : env.setUp = some (cap, seeds)) (hrun : Reachable (step cap seeds) (.start seeds) s) :
    Traced cap s ∧ Accounted cap seeds s := by
  obtain ⟨hcap, -, hfits, hzero⟩ := setUp_fits henv
  refine @Reaches.invariant _ _ _ _ (fun s => Traced cap s ∧ Accounted cap seeds s) _ _ hrun
    ⟨traced_start, accounted_start hcap hfits.balancesFit hzero⟩ fun hs _ hstep => ?_
  exact ⟨traced_step hs.1 hstep, accounted_step hfits.balancesFit hzero hs.1 hs.2 hstep⟩

end Accounted

/-! ## What the published results amount to -/

/-- A decision stakes and promises no less than nothing. -/
theorem Decision.staked_nonneg [FieldOrder] {cap : Int} {d : Decision} (account : Bytes)
    (hsource : ∃ accounts now, d.result = (evaluateJson cap accounts now d.payload).1) :
    0 ≤ d.staked account ∧ 0 ≤ d.promised account := by
  obtain ⟨accounts, now, hresult⟩ := hsource
  unfold Decision.staked Decision.promised
  split
  · rename_i haccepted
    have hdecision := haccepted.1
    rw [hresult] at hdecision
    obtain ⟨bet, balance, hparse, -, -, -, haccept⟩ := evaluateJson_accepted hdecision
    have hvalid := parseBetJson_valid hparse
    have hstake := hvalid.stake_pos
    have hpayout := hvalid.stake_le_payout
    rw [hresult, haccept, hparse]
    simp only [BetResult.acceptance, BetResult.ofBet]
    omega
  · exact ⟨le_rfl, le_rfl⟩

/-- A sum over distinct members of a list is at most the sum over the list. -/
theorem sum_le_of_subset {ds es : List Decision} {f : Decision → Int} (hnodup : ds.Nodup)
    (hsub : ∀ d ∈ ds, d ∈ es) (hnonneg : ∀ d ∈ es, 0 ≤ f d) :
    (ds.map f).sum ≤ (es.map f).sum := by
  obtain ⟨l, hperm, hsublist⟩ := List.subperm_of_subset hnodup hsub
  rw [← (hperm.map f).sum_eq]
  refine (hsublist.map f).sum_le_sum fun n hn => ?_
  obtain ⟨d, hd, rfl⟩ := List.mem_map.mp hn
  exact hnonneg d hd

/-- A sum over all sessions, each of which stays below a bound. -/
theorem sum_decided_le [FieldOrder] {cap bound : Int} {s : Process P} (htraced : Traced cap s)
    {f : Decision → Int} (hbound : ∀ k, inSession k f s.decided ≤ bound) :
    (s.decided.map f).sum ≤ (s.session + 1) * bound := by
  rw [sum_eq_sum_inSession fun d hd => Nat.lt_succ_of_le (htraced.bounded d hd).1]
  calc ∑ k ∈ Finset.range (s.session + 1), inSession k f s.decided
      ≤ ∑ _k ∈ Finset.range (s.session + 1), bound := Finset.sum_le_sum fun k _ => hbound k
    _ = (s.session + 1) * bound := by simp

/-- The published results are distinct evaluations. -/
theorem Traced.published [FieldOrder] {cap : Int} {s : Process P} (htraced : Traced cap s) :
    (s.published.map Prod.snd).Nodup ∧ ∀ d ∈ s.published.map Prod.snd, d ∈ s.decided :=
  ⟨(List.nodup_append.mp htraced.sent.1).2.1,
    fun d hd => htraced.sent.2 d (List.mem_append_right _ hd)⟩

/-- In every run of an engine that `main` has set up: no evaluation is published twice; the
balances and exposures in memory are the seeds less what the present session has staked and
what it has promised; and all published results together have staked on an account at most
its seed, a negative one counting as 0, for each session there has been, and promised at most
the cap for each. -/
theorem sessions_of_reachable [FieldOrder] {env : Environment} {cap : Int} {seeds : Accounts}
    {s : Process P} (henv : env.setUp = some (cap, seeds))
    (hrun : Reachable (step cap seeds) (.start seeds) s) (account : Bytes) :
    (s.published.map Prod.snd).Nodup ∧
      (s.accounts.balances account = (seeds.balances account).map fun seed =>
        seed - inSession s.session (Decision.staked account) s.decided) ∧
      s.accounts.exposure account = inSession s.session (Decision.promised account) s.decided ∧
      ((s.published.map Prod.snd).map (Decision.staked account)).sum ≤
        (s.session + 1) * stakeLimit seeds account ∧
      ((s.published.map Prod.snd).map (Decision.promised account)).sum ≤ (s.session + 1) * cap := by
  obtain ⟨htraced, haccounted⟩ := accounted_of_reachable henv hrun
  obtain ⟨hnodup, hsub⟩ := htraced.published
  have hnonneg := fun d hd => Decision.staked_nonneg account (htraced.source d hd).2
  refine ⟨hnodup, haccounted.balance account, haccounted.exposure account, ?_, ?_⟩
  · exact (sum_le_of_subset hnodup hsub fun d hd => (hnonneg d hd).1).trans
      (sum_decided_le htraced fun k => (haccounted.limits k account).1)
  · exact (sum_le_of_subset hnodup hsub fun d hd => (hnonneg d hd).2).trans
      (sum_decided_le htraced fun k => (haccounted.limits k account).2)

/-- An environment whose list of seeds has one account. -/
def sampleEnvironment : Environment where
  saecCapCents := none
  demoBalanceCents := none
  riskBalanceSeeds := some (seedsText [(utf8 "a", 100)])

/-- The seeds it amounts to. -/
def sampleSeeds : Accounts :=
  Accounts.fresh.seedAll [(utf8 "demo-account", 100000), (utf8 "a", 100)]

/-- The environment of the example sets the engine up. -/
theorem setUp_sampleEnvironment : sampleEnvironment.setUp = some (1000000, sampleSeeds) := by
  have hread : sampleEnvironment.seeds = some [(utf8 "demo-account", 100000), (utf8 "a", 100)] := by
    have hlist : ∀ seed ∈ [(utf8 "a", (100 : Int))], Listable seed.1 ∧ IsInt64 seed.2 := by
      simp [Listable]
      decide
    simp [Environment.seeds, sampleEnvironment, envI64Or, readSeed_seedsText hlist]
  exact setUp_eq_some_iff.mpr ⟨rfl, by decide, _, hread, rfl⟩

section Sample

attribute [local instance] insertionOrder

/-- The process is restarted after it has published the result of a bet of 100 cents, before
the commit, and publishes it again: the account whose seed is 100 has staked 200, as much
as two sessions can. -/
theorem sessions_of_reachable_restarted :
    ∃ s, Reachable (step (P := Unit) 1000000 sampleSeeds) (.start sampleSeeds) s ∧ s.session = 1 ∧
      ((s.published.map Prod.snd).map (Decision.staked (utf8 "a"))).sum = 200 ∧
      (200 : Int) ≤ (s.session + 1) * stakeLimit sampleSeeds (utf8 "a") := by
  have hexec : (([.submit samplePayload, .consume 1000, .produce 0, .deliver 0 (), .restart,
      .consume 1000, .produce 0, .deliver 0 ()] : List (Action Unit)).foldlM
        (step 1000000 sampleSeeds) (.start sampleSeeds)).map (fun s => (s.session,
          ((s.published.map Prod.snd).map (Decision.staked (utf8 "a"))).sum)) = some (1, 200) := by
    rw [samplePayload, utf8_ofList, utf8_ofList, utf8_ofList]
    decide +kernel
  obtain ⟨s, hs, hvalues⟩ := Option.map_eq_some_iff.mp hexec
  obtain ⟨hsession, hsum⟩ := Prod.mk.inj hvalues
  have hrun := Reaches.of_foldlM hs
  refine ⟨s, hrun, hsession, hsum, ?_⟩
  rw [← hsum]
  exact (sessions_of_reachable setUp_sampleEnvironment hrun (utf8 "a")).2.2.2.1

end Sample

/-! ## Delivery -/

/-- Every message that the loop has finished has its result on the topic, and so has the one
it works on, or the queue has it. -/
structure Delivered (s : Process P) : Prop where
  finished : ∀ n ∈ s.loop.log.finished, ∃ d ∈ s.published.map Prod.snd, d.offset = n
  produced : s.loop.phase = .produced → ∃ d ∈ s.sent, d.offset = s.loop.log.position

/-- Nothing is delivered at the start. -/
theorem delivered_start {seeds : Accounts} : Delivered (Process.start seeds : Process P) where
  finished := by simp [Process.start, Loop.start, OffsetLog.fresh]
  produced := by simp [Process.start, Loop.start]

/-- Each effect that loses no delivery keeps the deliveries. -/
theorem delivered_step [FieldOrder] {cap : Int} {seeds : Accounts} {s s' : Process P} {a : Action P}
    (htraced : Traced cap s) (hs : Delivered s) (hcareful : CarefulStep s a)
    (hstep : step cap seeds s a = some s') : Delivered s' := by
  cases step_cases hstep with
  | submitted => exact ⟨hs.finished, hs.produced⟩
  | consumed => exact ⟨hs.finished, by simp⟩
  | idle => exact hs
  | refused => exact ⟨hs.finished, by simp⟩
  | @produced rc decision hevaluated hcurrent =>
      obtain ⟨d, -, hsome, hoffset, -⟩ := htraced.current (Or.inl hevaluated)
      obtain rfl := Option.some.inj (hcurrent.symm.trans hsome)
      exact ⟨hs.finished, fun _ => ⟨decision, by simp [Process.sent], hoffset⟩⟩
  | @delivered i p decision hqueued =>
      have hperm := @sent_delivered_perm P s i decision p hqueued
      refine ⟨fun n hn => ?_, fun hproduced => ?_⟩
      · obtain ⟨d, hd, hoffset⟩ := hs.finished n hn
        exact ⟨d, by simp only [List.map_append, List.mem_append]; exact Or.inl hd, hoffset⟩
      · obtain ⟨d, hd, hoffset⟩ := hs.produced hproduced
        exact ⟨d, hperm.mem_iff.mpr hd, hoffset⟩
  | lost => exact hcareful.elim
  | waiting => exact ⟨hs.finished, by simp⟩
  | flushed hproduced hempty =>
      refine ⟨fun n hn => ?_, by simp⟩
      rcases List.mem_cons.mp hn with rfl | hn
      · obtain ⟨d, hd, hoffset⟩ := hs.produced hproduced
        rw [Process.sent, hempty, List.nil_append] at hd
        exact ⟨d, hd, hoffset⟩
      · exact hs.finished n hn
  | committed => exact ⟨hs.finished, by simp⟩
  | uncommitted => exact ⟨hs.finished, by simp⟩
  | restarted => exact ⟨hs.finished, by simp⟩

/-- The loop of the process is the consume loop. -/
theorem loop_step [FieldOrder] {cap : Int} {seeds : Accounts} {s s' : Process P} {a : Action P}
    (hs : LoopInv s.loop) (hcareful : CarefulStep s a) (hstep : step cap seeds s a = some s') :
    LoopInv s'.loop := by
  cases step_cases hstep with
  | submitted => exact hs
  | consumed => exact ⟨hs.safe, hs.tracked, by simp⟩
  | idle => exact hs
  | refused => exact ⟨hs.safe.skip, hs.tracked.skip, by simp⟩
  | produced => exact ⟨hs.safe, hs.tracked, by simp⟩
  | delivered => exact hs
  | lost => exact hs
  | waiting => exact ⟨hs.safe.skip, hs.tracked.skip, by simp⟩
  | flushed => exact ⟨hs.safe.complete, hs.tracked.complete, by simp [OffsetLog.complete]⟩
  | committed hflushed =>
      exact ⟨(commitSync_safe_iff hs hflushed).mpr hcareful, hs.tracked.commitTo _, by simp⟩
  | uncommitted => exact ⟨hs.safe, hs.tracked, by simp⟩
  | restarted => exact ⟨hs.safe.restart, .restart hs.safe, by simp⟩

/-- In every run with clean commits in which no delivery fails for good, the result of every
message below the committed offset is on the topic: one that the engine made of this very
payload. -/
theorem published_of_committed [FieldOrder] {cap : Int} {seeds : Accounts} {s : Process P}
    (hrun : Reaches (step cap seeds) CarefulStep (.start seeds) s) :
    ∀ n < s.loop.log.committed, ∃ p d, (p, d) ∈ s.published ∧ d.offset = n ∧
      s.submitted[n]? = some d.payload ∧
      ∃ accounts now, d.result = (evaluateJson cap accounts now d.payload).1 := by
  obtain ⟨htraced, hloop, hdelivered⟩ := @Reaches.invariant _ _ _ _
    (fun s => Traced cap s ∧ LoopInv s.loop ∧ Delivered s) _ _ hrun
    ⟨traced_start, start_loopInv, delivered_start⟩ fun ⟨htraced, hloop, hs⟩ hcareful hstep =>
      ⟨traced_step htraced hstep, loop_step hloop hcareful hstep,
        delivered_step htraced hs hcareful hstep⟩
  intro n hn
  obtain ⟨d, hd, rfl⟩ := hdelivered.finished n (hloop.safe n hn)
  obtain ⟨⟨p, _⟩, hmem, rfl⟩ := List.mem_map.mp hd
  obtain ⟨hpayload, hresult⟩ := htraced.source _ (htraced.published.2 _ hd)
  exact ⟨p, _, hmem, rfl, hpayload, hresult⟩

end Sessions
end RiskEngine
end BettingPlatform
