import BettingPlatform.RiskEngine.Sessions
import BettingPlatform.Settlement.Refusals
import BettingPlatform.Settlement.RunWorker
import BettingPlatform.Wire.DecidedBets

/-!
# From the submitted bet to its row

The engine process reads `bets-submitted` and publishes to `bets-results`; the settlement
worker reads the partitions of `bets-results` and writes to the database, which other
transactions of the settlement service write to as well.  Each of the two can be restarted
at any time, and messages are then delivered again.

Main results:

- Theorem `parts_of_reachable`: the pipeline refines the settlement service and the engine.
- Theorem `rows_have_origin`: every row of `bets` was decided by the engine, from a submitted
  message.
-/

namespace BettingPlatform
namespace Platform
namespace Pipeline

open Python Runs RiskEngine Settlement Wire GrowingRows
open Sessions (Process Decision Traced)

variable {P : Type} [DecidableEq P]

/-! ## The pipeline -/

/-- The value of the message that a decision becomes. -/
def valueOf (d : Decision) : Bytes :=
  toJson d.result

/-- Both consumers and the settlement service. -/
structure Stages (P : Type) where
  engine : Process P
  worker : RunWorker.Worker P
  service : Service

/-- Nothing has been submitted. -/
def Stages.start (seeds : Accounts) : Stages P where
  engine := .start seeds
  worker := .start
  service := .start

/-- A partition of `bets-results`. -/
def partition (published : List (P × Decision)) (p : P) : List Decision :=
  (published.filter fun m => m.1 = p).map Prod.snd

/-- The number of messages in each partition. -/
def Stages.size (s : Stages P) (p : P) : Nat :=
  (partition s.engine.published p).length

/-- `process_raw_message` in the service: a call that returns has committed, or has changed
nothing. -/
def handle (service : Service) (raw : Bytes) : Except Raised Service :=
  match processRawMessage raw service.db with
  | .error e => .error e
  | .ok (false, db) => .ok { service with db }
  | .ok (true, db) =>
      match eventOf raw with
      | none => .ok { service with db }
      | some event =>
          .ok { service with db, opening := opened service.opening event.userId openingBalanceCents }

/-- What happens next. -/
inductive Action (P : Type)
  /-- An effect of the engine process, of its producer or of the broker. -/
  | engine (action : Sessions.Action P)
  /-- The worker fetches a batch. -/
  | getmany (counts : List (P × Nat))
  /-- The worker calls `process_raw_message` for the head of its batch. -/
  | process
  /-- The worker commits. -/
  | commit
  /-- The worker ends, and a new one joins the group. -/
  | restart
  /-- Another transaction of the settlement service. -/
  | operate (operation : Operation)

/-- One step of the pipeline. -/
def step [FieldOrder] (pyRepr : Json → String) (cap : Int) (seeds : Accounts) (s : Stages P) :
    Action P → Option (Stages P)
  | .engine action => (Sessions.step cap seeds s.engine action).map fun engine => { s with engine }
  | .getmany counts =>
      (RunWorker.step s.size s.worker (.getmany counts)).map fun worker => { s with worker }
  | .process =>
      match s.worker.batch with
      | [] => none
      | (p, n) :: _ => do
          let decision ← (partition s.engine.published p)[n]?
          match handle s.service (valueOf decision) with
          | .error _ =>
              (RunWorker.step s.size s.worker .raised).map fun worker => { s with worker }
          | .ok service =>
              (RunWorker.step s.size s.worker .processed).map fun worker => { s with worker, service }
  | .commit => (RunWorker.step s.size s.worker .commit).map fun worker => { s with worker }
  | .restart => (RunWorker.step s.size s.worker .restart).map fun worker => { s with worker }
  | .operate operation =>
      if operation.isResult then none
      else (s.service.step pyRepr operation).map fun service => { s with service }

/-- No result is lost on the way to the topic, and the commits of both consumers are clean. -/
def CarefulStep (s : Stages P) : Action P → Prop
  | .engine action => Sessions.CarefulStep s.engine action
  | .commit => RunWorker.CleanCommit s.worker .commit
  | _ => True

/-- What one step does. -/
inductive Stepped [FieldOrder] (pyRepr : Json → String) (cap : Int) (seeds : Accounts)
    (s : Stages P) :
    Action P → Stages P → Prop
  | engine {action : Sessions.Action P} {engine : Process P}
      (move : Sessions.step cap seeds s.engine action = some engine) :
      Stepped pyRepr cap seeds s (.engine action) { s with engine }
  | getmany {counts : List (P × Nat)} {worker : RunWorker.Worker P}
      (move : RunWorker.step s.size s.worker (.getmany counts) = some worker) :
      Stepped pyRepr cap seeds s (.getmany counts) { s with worker }
  | raised {worker : RunWorker.Worker P}
      (move : RunWorker.step s.size s.worker .raised = some worker) :
      Stepped pyRepr cap seeds s .process { s with worker }
  | processed {worker : RunWorker.Worker P} {p : P} {n : Nat} {rest : List (P × Nat)}
      {decision : Decision} {service : Service} (batch : s.worker.batch = (p, n) :: rest)
      (message : (partition s.engine.published p)[n]? = some decision)
      (handled : handle s.service (valueOf decision) = .ok service)
      (move : RunWorker.step s.size s.worker .processed = some worker) :
      Stepped pyRepr cap seeds s .process { s with worker, service }
  | committed {worker : RunWorker.Worker P}
      (move : RunWorker.step s.size s.worker .commit = some worker) :
      Stepped pyRepr cap seeds s .commit { s with worker }
  | restarted {worker : RunWorker.Worker P}
      (move : RunWorker.step s.size s.worker .restart = some worker) :
      Stepped pyRepr cap seeds s .restart { s with worker }
  | operated {operation : Operation} {service : Service} (other : operation.isResult = false)
      (move : s.service.step pyRepr operation = some service) :
      Stepped pyRepr cap seeds s (.operate operation) { s with service }

/-- A step of the pipeline is one of its stages. -/
theorem step_cases [FieldOrder] {pyRepr : Json → String} {cap : Int} {seeds : Accounts}
    {s s' : Stages P} {a : Action P} (hstep : step pyRepr cap seeds s a = some s') :
    Stepped pyRepr cap seeds s a s' := by
  cases a with
  | engine action =>
      obtain ⟨engine, hmove, rfl⟩ := Option.map_eq_some_iff.mp hstep
      exact .engine hmove
  | getmany counts =>
      obtain ⟨worker, hmove, rfl⟩ := Option.map_eq_some_iff.mp hstep
      exact .getmany hmove
  | process =>
      simp only [step] at hstep
      split at hstep
      · contradiction
      · rename_i p n rest hbatch
        obtain ⟨decision, hmessage, hstep⟩ := Option.bind_eq_some_iff.mp hstep
        split at hstep
        · obtain ⟨worker, hmove, rfl⟩ := Option.map_eq_some_iff.mp hstep
          exact .raised hmove
        · rename_i service hhandled
          obtain ⟨worker, hmove, rfl⟩ := Option.map_eq_some_iff.mp hstep
          exact .processed hbatch hmessage hhandled hmove
  | commit =>
      obtain ⟨worker, hmove, rfl⟩ := Option.map_eq_some_iff.mp hstep
      exact .committed hmove
  | restart =>
      obtain rfl := Option.some.inj hstep
      exact .restarted rfl
  | operate operation =>
      simp only [step] at hstep
      split at hstep
      · contradiction
      · rename_i hother
        obtain ⟨service, hmove, rfl⟩ := Option.map_eq_some_iff.mp hstep
        exact .operated (by simpa using hother) hmove

/-- The worker handles the head of its batch. -/
theorem process_eq [FieldOrder] {pyRepr : Json → String} {cap : Int} {seeds : Accounts}
    {s : Stages P} {p : P} {n : Nat} {rest : List (P × Nat)} {decision : Decision}
    {service : Service} {worker : RunWorker.Worker P} (hbatch : s.worker.batch = (p, n) :: rest)
    (hmessage : (partition s.engine.published p)[n]? = some decision)
    (hhandled : handle s.service (valueOf decision) = .ok service)
    (hmove : RunWorker.step s.size s.worker .processed = some worker) :
    step pyRepr cap seeds s .process = some { s with worker, service } := by
  simp only [step, hbatch, hmessage, Option.bind_eq_bind, Option.bind_some, hhandled, hmove,
    Option.map_some]

/-! ## The service behind the worker -/

/-- Two handlings of one message, as the service sees them. -/
theorem handle_cases {pyRepr : Json → String} {service service' : Service} {raw : Bytes}
    (h : handle service raw = .ok service') :
    service' = service ∨
      ∃ event, eventOf raw = some event ∧ service.step pyRepr (.result event) = some service' := by
  unfold handle at h
  split at h
  · contradiction
  · rename_i db hprocess
    obtain rfl := Except.ok.inj h
    left
    have hsame : db = service.db := by
      rw [processRawMessage_eq] at hprocess
      split at hprocess
      · contradiction
      · split at hprocess
        · exact (Prod.mk.inj (Except.ok.inj hprocess)).2.symm
        · split at hprocess
          · exact (Prod.mk.inj (Except.ok.inj hprocess)).2.symm
          · rcases processBetResultEvent_eq_ok hprocess with ⟨-, hdb, -⟩ | ⟨htrue, -⟩
            · exact hdb
            · contradiction
    rw [hsame]
  · rename_i db hprocess
    cases hevent : eventOf raw with
    | none =>
        rw [processRawMessage_eq] at hprocess
        simp only [hevent] at hprocess
        split at hprocess <;> simp at hprocess
    | some event =>
        rw [hevent] at h
        obtain rfl := Except.ok.inj h
        have hpersisted := (processRawMessage_eq_true_iff hevent).mp hprocess
        exact Or.inr ⟨event, rfl, by simp only [Service.step, hpersisted]⟩

/-- Handling a message of a valid event is the service's transaction for the event. -/
theorem handle_of_step {pyRepr : Json → String} {service service' : Service} {raw : Bytes}
    {event : BetResultEvent} (hevent : eventOf raw = some event)
    (hstep : service.step pyRepr (.result event) = some service') :
    handle service raw = .ok service' := by
  obtain ⟨payload, hpayload, -⟩ := Option.bind_eq_some_iff.mp hevent
  simp only [Service.step] at hstep
  split at hstep
  · contradiction
  · rename_i db hduplicate
    obtain rfl := Option.some.inj hstep
    have hprocess : processRawMessage raw service.db = .ok (false, db) := by
      simp [processRawMessage_eq, hpayload, hevent, hduplicate]
    rw [handle, hprocess]
  · rename_i db hpersisted
    obtain rfl := Option.some.inj hstep
    have hprocess := (processRawMessage_eq_true_iff hevent).mpr hpersisted
    rw [handle, hprocess]
    simp only [hevent]

section Service

variable {pyRepr : Json → String} {cap : Int} {seeds : Accounts} {s s' : Stages P} {a : Action P}

/-- A step of the pipeline is at most one transaction of the service. -/
theorem service_step [FieldOrder] (hstep : step pyRepr cap seeds s a = some s') :
    s'.service = s.service ∨
      ∃ operation, s.service.step pyRepr operation = some s'.service := by
  cases step_cases hstep with
  | engine => exact Or.inl rfl
  | getmany => exact Or.inl rfl
  | raised => exact Or.inl rfl
  | processed _ _ hhandled =>
      rcases @handle_cases pyRepr _ _ _ hhandled with hsame | ⟨event, -, hmove⟩
      · exact Or.inl hsame
      · exact Or.inr ⟨.result event, hmove⟩
  | committed => exact Or.inl rfl
  | restarted => exact Or.inl rfl
  | operated _ hmove => exact Or.inr ⟨_, hmove⟩

/-- No step takes back what the service has written. -/
theorem evolves_pipeline [FieldOrder] (hstep : step pyRepr cap seeds s a = some s') :
    s.service.db.Evolves s'.service.db := by
  rcases service_step hstep with hsame | ⟨operation, hmove⟩
  · rw [hsame]
    exact .refl _
  · exact evolves_step hmove

/-- The engine of the pipeline runs as the engine alone does. -/
theorem engine_step [FieldOrder] (hstep : step pyRepr cap seeds s a = some s') :
    s'.engine = s.engine ∨
      ∃ action, a = .engine action ∧ Sessions.step cap seeds s.engine action = some s'.engine := by
  cases step_cases hstep with
  | engine hmove => exact Or.inr ⟨_, rfl, hmove⟩
  | getmany => exact Or.inl rfl
  | raised => exact Or.inl rfl
  | processed => exact Or.inl rfl
  | committed => exact Or.inl rfl
  | restarted => exact Or.inl rfl
  | operated => exact Or.inl rfl

end Service

/-- The pipeline refines both of its parts: the database is reached by the transactions of
the settlement service, and the engine by the effects of its process. -/
theorem parts_of_reachable [FieldOrder] {pyRepr : Json → String} {cap : Int} {seeds : Accounts}
    {s : Stages P} (hrun : Reachable (step pyRepr cap seeds) (.start seeds) s) :
    Reachable (Service.step pyRepr) .start s.service ∧
      Reachable (Sessions.step cap seeds) (.start seeds) s.engine := by
  refine @Reaches.invariant _ _ _ _ (fun s : Stages P =>
    Reachable (Service.step pyRepr) .start s.service ∧
      Reachable (Sessions.step cap seeds) (.start seeds) s.engine) _ _ hrun ⟨.refl, .refl⟩ ?_
  rintro s s' a ⟨hservice, hengine⟩ - hstep
  constructor
  · rcases service_step hstep with hsame | ⟨operation, hmove⟩
    · exact hsame ▸ hservice
    · exact hservice.tail trivial hmove
  · rcases engine_step hstep with hsame | ⟨action, -, hmove⟩
    · exact hsame ▸ hengine
    · exact hengine.tail trivial hmove

/-! ## Growing topics -/

omit [DecidableEq P] in
/-- The engine publishes behind what it has published. -/
theorem published_prefix [FieldOrder] {cap : Int} {seeds : Accounts} {e e' : Process P}
    {action : Sessions.Action P} (hstep : Sessions.step cap seeds e action = some e') :
    e.published <+: e'.published := by
  cases Sessions.step_cases hstep with
  | delivered => exact List.prefix_append _ _
  | submitted => exact List.prefix_rfl
  | consumed => exact List.prefix_rfl
  | idle => exact List.prefix_rfl
  | refused => exact List.prefix_rfl
  | produced => exact List.prefix_rfl
  | lost => exact List.prefix_rfl
  | waiting => exact List.prefix_rfl
  | flushed => exact List.prefix_rfl
  | committed => exact List.prefix_rfl
  | uncommitted => exact List.prefix_rfl
  | restarted => exact List.prefix_rfl

/-- So does the pipeline. -/
theorem published_prefix_pipeline [FieldOrder] {pyRepr : Json → String} {cap : Int}
    {seeds : Accounts} {s s' : Stages P} {a : Action P}
    (hstep : step pyRepr cap seeds s a = some s') :
    s.engine.published <+: s'.engine.published := by
  rcases engine_step hstep with hsame | ⟨action, -, hmove⟩
  · rw [hsame]
  · exact published_prefix hmove

/-- What a partition holds at an offset, it holds for good. -/
theorem partition_getElem? {published published' : List (P × Decision)}
    (hearlier : published <+: published') {p : P} {n : Nat} {d : Decision}
    (hd : (partition published p)[n]? = some d) : (partition published' p)[n]? = some d := by
  obtain ⟨rest, rfl⟩ := hearlier
  obtain ⟨hlt, -⟩ := List.getElem?_eq_some_iff.mp hd
  have happend : partition (published ++ rest) p = partition published p ++ partition rest p := by
    simp [partition]
  rwa [happend, List.getElem?_append_left hlt]

/-- What a partition holds was published. -/
theorem mem_published_of_partition {published : List (P × Decision)} {p : P} {n : Nat}
    {d : Decision} (hd : (partition published p)[n]? = some d) : (p, d) ∈ published := by
  obtain ⟨m, hm, rfl⟩ := List.mem_map.mp (List.mem_of_getElem? hd)
  obtain ⟨hm, hp⟩ := List.mem_filter.mp hm
  have hp : m.1 = p := of_decide_eq_true hp
  rwa [← hp]

/-! ## Where the rows come from -/

/-- The row was inserted for the event of this decision's message. -/
def Origin (published : List (P × Decision)) (row : Bet) (d : Decision) : Prop :=
  (∃ p, (p, d) ∈ published) ∧ ∃ event, eventOf (valueOf d) = some event ∧ event.bet.Becomes row

/-- Every row was inserted for the message of a decision. -/
def RowsHaveOrigin (s : Stages P) : Prop :=
  ∀ row ∈ s.service.db.bets.rows, ∃ d, Origin s.engine.published row d

/-- A transaction that delivers no result inserts no bet. -/
theorem bets_length_of_other {pyRepr : Json → String} {service service' : Service}
    {operation : Operation} (hother : operation.isResult = false)
    (hstep : service.step pyRepr operation = some service') :
    service'.db.bets.rows.length = service.db.bets.rows.length := by
  cases Service.step_cases hstep with
  | duplicate => contradiction
  | persisted => contradiction
  | settled hsettle => simp [(settles_of_ok hsettle).bets]
  | upserted hupsert =>
      obtain ⟨db₁, huser, hwallet⟩ := bind_eq_ok_iff.mp hupsert
      have hbets₁ := (upsertUser_eq_ok (sql_eq_ok_iff.mp huser)).2.2.1
      have hbets₂ := (upsertWallet_eq_ok (sql_eq_ok_iff.mp hwallet)).2.2.1
      rw [hbets₂, hbets₁]
  | recorded _ hinsert => rw [(Database.insertTransaction_eq_ok_iff.mp hinsert).2.2.2.2.1]
  | acknowledged => rfl
  | closed _ _ hclosed => rw [hclosed.bets]

/-- Each step keeps the origins. -/
theorem rowsHaveOrigin_step [FieldOrder] {pyRepr : Json → String} {cap : Int} {seeds : Accounts}
    {s s' : Stages P} {a : Action P} (hs : RowsHaveOrigin s)
    (hstep : step pyRepr cap seeds s a = some s') : RowsHaveOrigin s' := by
  have hgrow := published_prefix_pipeline hstep
  have hkept : ∀ {row d}, Origin s.engine.published row d → Origin s'.engine.published row d :=
    fun h => ⟨h.1.imp fun _ hmem => hgrow.subset hmem, h.2⟩
  cases step_cases hstep with
  | engine => exact fun row hrow => (hs row hrow).imp fun _ h => hkept h
  | getmany => exact hs
  | raised => exact hs
  | @processed worker p n rest decision service hbatch hmessage hhandled hmove =>
      rcases @handle_cases pyRepr _ _ _ hhandled with hsame | ⟨event, hevent, htransaction⟩
      · rw [hsame]
        exact hs
      · rcases result_step_cases htransaction with hdb | hpersisted
        · intro row hrow
          exact hs row (hdb ▸ hrow)
        · intro row hrow
          rw [hpersisted.bets] at hrow
          rcases List.mem_append.mp hrow with hrow | hrow
          · exact hs row hrow
          · obtain rfl := List.mem_singleton.mp hrow
            exact ⟨decision, ⟨p, mem_published_of_partition hmessage⟩, event, hevent,
              Bet.Becomes.refl _⟩
  | committed => exact hs
  | restarted => exact hs
  | operated hother hmove =>
      intro row hrow
      obtain ⟨row₀, hrow₀, hbecomes⟩ := (evolves_step hmove).bets.exists_of_length_eq
        (bets_length_of_other hother hmove) hrow
      obtain ⟨d, hpublished, event, hevent, hinserted⟩ := hs row₀ hrow₀
      exact ⟨d, hpublished, event, hevent, hinserted.trans hbecomes⟩

/-- In every run the rows have an origin. -/
theorem rowsHaveOrigin_of_reachable [FieldOrder] {pyRepr : Json → String} {cap : Int}
    {seeds : Accounts} {s : Stages P} (hrun : Reachable (step pyRepr cap seeds) (.start seeds) s) :
    RowsHaveOrigin s :=
  hrun.invariant (by simp [RowsHaveOrigin, Stages.start, Service.start, Database.empty, Table.empty])
    fun hs _ hstep => rowsHaveOrigin_step hs hstep

/-- The decision behind a row, and the bet in its payload. -/
theorem decision_of_row [FieldOrder] {pyRepr : Json → String} {cap : Int} {seeds : Accounts}
    {s : Stages P} (hrun : Reachable (step pyRepr cap seeds) (.start seeds) s) {row : Bet}
    (hrow : row ∈ s.service.db.bets.rows) :
    ∃ p d bet event, (p, d) ∈ s.engine.published ∧
      s.engine.submitted[d.offset]? = some d.payload ∧ parseBetJson d.payload = .ok bet ∧
      (∃ accounts now, d.result = (evaluateJson cap accounts now d.payload).1) ∧
      Reports event bet d.result ∧ event.bet.Becomes row := by
  obtain ⟨d, ⟨p, hpublished⟩, event, hevent, hbecomes⟩ := rowsHaveOrigin_of_reachable hrun row hrow
  have htraced := Sessions.traced_of_reachable (parts_of_reachable hrun).2
  have hdecided := htraced.published.2 d (List.mem_map.mpr ⟨_, hpublished, rfl⟩)
  obtain ⟨hsubmitted, accounts, now, hresult⟩ := htraced.source d hdecided
  rw [valueOf, hresult] at hevent
  obtain ⟨bet, hparse, hreports⟩ := eventOf_evaluateJson hevent
  rw [← hresult] at hreports
  exact ⟨p, d, bet, event, hpublished, hsubmitted, hparse, ⟨accounts, now, hresult⟩, hreports, hbecomes⟩

/-- A row stays `REJECTED` exactly when the engine rejected the bet. -/
theorem rejected_iff {event : BetResultEvent} {bet : BetSubmitted} {result : BetResult} {row : Bet}
    (hreports : Reports event bet result) (hbecomes : event.bet.Becomes row) :
    row.status = .rejected ↔ result.accepted = false := by
  have hinserted : event.bet.status = statusFromResult event := rfl
  rcases hbecomes.status with hsame | ⟨haccepted, hclosed⟩
  · rw [hsame, hinserted, ← Bool.not_eq_true, ← hreports.status]
    rcases statusFromResult_cases event with h | h <;> simp [h]
  · have htrue := hreports.status.mp (hinserted.symm.trans haccepted)
    rw [htrue]
    rcases hclosed with h | h <;> simp [h]

/-- In every run, however often either consumer is restarted, every row of `bets` has the
values of a bet that was submitted and that the engine decided: key, match, selection, stake
and odds; its status is `REJECTED`, with the engine's reason, exactly when the engine
rejected the bet. -/
theorem rows_have_origin [FieldOrder] {pyRepr : Json → String} {cap : Int} {seeds : Accounts}
    {s : Stages P} (hrun : Reachable (step pyRepr cap seeds) (.start seeds) s) :
    ∀ row ∈ s.service.db.bets.rows, ∃ p d bet event, (p, d) ∈ s.engine.published ∧
      s.engine.submitted[d.offset]? = some d.payload ∧ parseBetJson d.payload = .ok bet ∧
      (∃ accounts now, d.result = (evaluateJson cap accounts now d.payload).1) ∧
      Reports event bet d.result ∧ row = { event.bet with status := row.status } ∧
      (row.status = .rejected ↔ d.result.accepted = false) := by
  intro row hrow
  obtain ⟨p, d, bet, event, hpublished, hsubmitted, hparse, hresult, hreports, hbecomes⟩ :=
    decision_of_row hrun hrow
  exact ⟨p, d, bet, event, hpublished, hsubmitted, hparse, hresult, hreports, hbecomes.columns,
    rejected_iff hreports hbecomes⟩

/-! ## A sample run -/

/-- The pipeline can follow the engine. -/
theorem engine_run [FieldOrder] {pyRepr : Json → String} {cap : Int} {seeds : Accounts}
    {s : Stages P} {e : Process P}
    (hrun : Reaches (Sessions.step cap seeds) Sessions.CarefulStep s.engine e) :
    Reaches (step pyRepr cap seeds) CarefulStep s { s with engine := e } := by
  induction hrun with
  | refl => exact .refl
  | @tail e e' action hrun hcareful hmove ih =>
      exact ih.tail (a := .engine action) hcareful (by simp [step, hmove])

/-- A bet of user 7. -/
def samplePayload : Bytes :=
  utf8 "\x7b\"event_id\":\"e2\",\"bet_id\":\"00000000-0000-0000-0000-000000000002\"," ++
  utf8 "\"account_id\":\"00000000-0000-0000-0000-000000000007\",\"idempotency_key\":\"k2\"," ++
  utf8 "\"match_id\":\"m\",\"market_id\":\"w\",\"selection_id\":\"home\",\"odds\":\"2.9000\"," ++
  utf8 "\"stake_cents\":2500,\"potential_payout_cents\":7250,\"bet_timestamp_ms\":1000\x7d"

/-- The balances of an engine that knows the user. -/
def sampleSeeds : Accounts :=
  Accounts.fresh.seedAll [(utf8 "demo-account", 100000), (utf8 (Uuid.text 7), 100000)]

/-- The engine evaluates the bet, publishes the result and commits. -/
def sampleEffects : List (Sessions.Action Unit) :=
  [.submit samplePayload, .consume 1000, .produce 0, .deliver 0 (), .flush, .commitSync 0]

/-- No message has been passed over, and no delivery fails. -/
def nothingLost (e : Process Unit) : Sessions.Action Unit → Bool
  | .commitSync _ => e.loop.log.missed.isEmpty
  | .lose _ => false
  | _ => true

theorem careful_of_nothingLost (e : Process Unit) (a : Sessions.Action Unit)
    (h : nothingLost e a = true) : Sessions.CarefulStep e a := by
  cases a with
  | commitSync rc =>
      have hnone : e.loop.log.missed = [] := List.isEmpty_iff.mp h
      simp [Sessions.CarefulStep, ConsumeLoop.CleanCommit, hnone]
  | lose => contradiction
  | submit | consume | idle | produce | deliver | flush | restart => trivial

section Sample

attribute [local instance] insertionOrder

/-- A run of the engine that accepts one bet and commits it. -/
theorem exists_sampleEngine :
    ∃ e, Reaches (Sessions.step 1000000 sampleSeeds) Sessions.CarefulStep (.start sampleSeeds) e ∧
      e.published =
        [((), ⟨0, 0, samplePayload, .acceptance (onWire (secondBet 7)) 1000 7250 97500⟩)] ∧
      e.loop.log.committed = 1 ∧ e.session = 0 := by
  have hexec : (sampleEffects.foldlM (fun e a => if nothingLost e a then
      Sessions.step 1000000 sampleSeeds e a else none) (.start sampleSeeds)).map
        (fun e => (e.published, e.loop.log.committed, e.session)) =
      some ([((), ⟨0, 0, samplePayload, .acceptance (onWire (secondBet 7)) 1000 7250 97500⟩)],
        1, 0) := by
    rw [sampleEffects, samplePayload, utf8_ofList, utf8_ofList, utf8_ofList, utf8_ofList]
    decide +kernel
  obtain ⟨e, he, hvalues⟩ := Option.map_eq_some_iff.mp hexec
  simp only [Prod.mk.injEq] at hvalues
  exact ⟨e, .of_foldlM_checked careful_of_nothingLost he, hvalues⟩

/-- The bet is evaluated, published, persisted and committed twice. -/
theorem exists_sampleRun :
    ∃ s : Stages Unit, Reaches (step (fun _ => "") 1000000 sampleSeeds) CarefulStep
        (.start sampleSeeds) s ∧
      s.engine.loop.log.committed = 1 ∧ (s.worker.log ()).committed = 1 ∧ s.engine.session = 0 ∧
      (s.service.db.bets.rows.map fun row => (row.userId, row.stakeCents, row.status)) =
        [(7, 2500, .accepted)] := by
  obtain ⟨e, hengine, hpublished, hcommitted, hsession⟩ := exists_sampleEngine
  have hexec : (Service.start.step (fun _ => "") (.result (secondEvent 7))).map (fun s =>
      s.db.bets.rows.map fun row => (row.userId, row.stakeCents, row.status)) =
      some [(7, 2500, .accepted)] := by
    decide +kernel
  obtain ⟨service, hservice, hrows⟩ := Option.map_eq_some_iff.mp hexec
  have hhandled := handle_of_step (eventOf_secondMessage 7) hservice
  let log : Unit → OffsetLog := Function.update (fun _ => .fresh) () OffsetLog.fresh.complete
  let idle : Stages Unit := ⟨e, .start, .start⟩
  let fetched : Stages Unit := ⟨e, ⟨fun _ => .fresh, [((), 0)], none⟩, .start⟩
  let handled : Stages Unit := ⟨e, ⟨log, [], some ((), 0)⟩, service⟩
  let committed : Stages Unit :=
    ⟨e, ⟨Function.update log () ((log ()).commitTo 1), [], none⟩, service⟩
  have hidle : Reaches (step (fun _ => "") 1000000 sampleSeeds) CarefulStep (.start sampleSeeds) idle :=
    engine_run hengine
  have hgetmany : step (fun _ => "") 1000000 sampleSeeds idle (.getmany [((), 1)]) = some fetched := by
    have hfetchable : RunWorker.Fetchable idle.size idle.worker.log [((), 1)] := by
      simp [RunWorker.Fetchable, RunWorker.maxRecords, idle, Stages.size, partition, hpublished,
        RunWorker.Worker.start, OffsetLog.fresh]
    have hmove : RunWorker.step idle.size idle.worker (.getmany [((), 1)]) = some fetched.worker :=
      if_pos ⟨rfl, rfl, hfetchable⟩
    rw [step, hmove, Option.map_some]
  have hprocess : step (fun _ => "") 1000000 sampleSeeds fetched .process = some handled := by
    have hmessage : (partition e.published ())[0]? =
        some ⟨0, 0, samplePayload, .acceptance (onWire (secondBet 7)) 1000 7250 97500⟩ := by
      simp [partition, hpublished]
    exact process_eq rfl hmessage hhandled rfl
  have hcommit : step (fun _ => "") 1000000 sampleSeeds handled .commit = some committed := rfl
  have hfetched := hidle.tail (show CarefulStep idle (.getmany [((), 1)]) from trivial) hgetmany
  have hhandled := hfetched.tail (show CarefulStep fetched .process from trivial) hprocess
  have hclean : CarefulStep handled .commit := by
    simp [CarefulStep, RunWorker.CleanCommit, handled, log, OffsetLog.complete, OffsetLog.fresh]
  refine ⟨committed, hhandled.tail hclean hcommit, hcommitted, ?_, hsession, hrows⟩
  simp [committed, OffsetLog.commitTo]

/-- The row of the sample run is the engine's decision on the submitted bet. -/
theorem rows_have_origin_sample :
    ∃ (s : Stages Unit) (row : Bet), row ∈ s.service.db.bets.rows ∧ row.userId = 7 ∧
      ∃ p d bet, (p, d) ∈ s.engine.published ∧ parseBetJson d.payload = .ok bet ∧
        d.result.accepted = true := by
  obtain ⟨s, hrun, -, -, -, hrows⟩ := exists_sampleRun
  obtain ⟨row, hrow, hvalues⟩ := List.map_eq_singleton_iff.mp hrows
  simp only [Prod.mk.injEq] at hvalues
  obtain ⟨huser, -, hstatus⟩ := hvalues
  have hmem : row ∈ s.service.db.bets.rows := hrow ▸ List.mem_singleton_self row
  obtain ⟨p, d, bet, -, hpublished, -, hparse, -, -, -, hrejected⟩ :=
    rows_have_origin hrun.toReachable row hmem
  refine ⟨s, row, hmem, huser, p, d, bet, hpublished, hparse, ?_⟩
  by_contra hfalse
  have hnot := hrejected.mpr (by simpa using hfalse)
  rw [hstatus] at hnot
  contradiction

end Sample

end Pipeline
end Platform
end BettingPlatform
