import Mathlib.Algebra.BigOperators.Ring.Finset
import BettingPlatform.Platform.Pipeline

/-!
# What the pipeline delivers and what it stakes

Main results:

- Theorem `answered_of_committed`: in clean runs, a bet that both consumers have committed
  has been decided, and its result has been answered.
- Theorem `staked_of_reachable`: the rows of a user have staked at most the engine's seed
  for each session of the engine.
-/

namespace BettingPlatform
namespace Platform
namespace Pipeline

open Python Runs RiskEngine Settlement Wire
open Sessions (Process Decision Traced stakeLimit inSession)

variable {P : Type} [DecidableEq P] {pyRepr : Json → String} {cap : Int} {seeds : Accounts}

/-! ## Delivery -/

/-- After an update, only the updated partition can have finished more. -/
theorem finished_update {log : P → OffsetLog} {log' : OffsetLog} {p q : P} {m : Nat}
    (hm : m ∈ (Function.update log q log' p).finished) :
    m ∈ (log p).finished ∨ p = q ∧ m ∈ log'.finished := by
  by_cases hq : p = q
  · subst hq
    rw [Function.update_self] at hm
    exact Or.inr ⟨rfl, hm⟩
  · rw [Function.update_of_ne hq] at hm
    exact Or.inl hm

/-- Only a call that returns adds to the finished offsets of the worker. -/
theorem finished_step {size : P → Nat} {w w' : RunWorker.Worker P} {a : RunWorker.Action P}
    (hstep : RunWorker.step size w a = some w') {p : P} {m : Nat}
    (hm : m ∈ (w'.log p).finished) :
    m ∈ (w.log p).finished ∨
      a = .processed ∧ ∃ n rest, w.batch = (p, n) :: rest ∧ m = (w.log p).position := by
  obtain ⟨counts, rfl, -, -, rfl⟩ | ⟨q, n, rest, rfl, hbatch, rfl⟩ |
    ⟨q, n, rest, rfl, -, -, rfl⟩ | ⟨q, n, rfl, -, rfl⟩ | ⟨rfl, rfl⟩ :=
    RunWorker.step_cases hstep
  · exact Or.inl hm
  · rcases finished_update hm with hm | ⟨rfl, hm⟩
    · exact Or.inl hm
    · rcases List.mem_cons.mp hm with rfl | hm
      · exact Or.inr ⟨rfl, n, rest, hbatch, rfl⟩
      · exact Or.inl hm
  · rcases finished_update hm with hm | ⟨rfl, hm⟩
    · exact Or.inl hm
    · exact Or.inl hm
  · rcases finished_update hm with hm | ⟨rfl, hm⟩
    · exact Or.inl hm
    · exact Or.inl hm
  · exact Or.inl hm

/-- A handled message is a `process_raw_message` call that returned. -/
theorem handle_ok {service service' : Service} {raw : Bytes}
    (h : handle service raw = .ok service') :
    ∃ b, processRawMessage raw service.db = .ok (b, service'.db) := by
  unfold handle at h
  split at h
  · contradiction
  · rename_i db hprocess
    obtain rfl := Except.ok.inj h
    exact ⟨false, hprocess⟩
  · rename_i db hprocess
    split at h
    · obtain rfl := Except.ok.inj h
      exact ⟨true, hprocess⟩
    · obtain rfl := Except.ok.inj h
      exact ⟨true, hprocess⟩

/-- Every message that the worker has finished is in its partition, and is answered. -/
def FinishedAnswered (s : Stages P) : Prop :=
  ∀ p, ∀ m ∈ (s.worker.log p).finished, ∃ d,
    (partition s.engine.published p)[m]? = some d ∧ Answered s.service.db (valueOf d)

section Step

variable {s s' : Stages P} {a : Action P}

/-- What is answered stays answered while the topics grow and the database evolves. -/
theorem FinishedAnswered.kept [FieldOrder] (hs : FinishedAnswered s)
    (hstep : step pyRepr cap seeds s a = some s') {p : P} {m : Nat}
    (hm : m ∈ (s.worker.log p).finished) : ∃ d,
      (partition s'.engine.published p)[m]? = some d ∧ Answered s'.service.db (valueOf d) := by
  obtain ⟨d, hd, hanswered⟩ := hs p m hm
  exact ⟨d, partition_getElem? (published_prefix_pipeline hstep) hd,
    hanswered.evolves (evolves_pipeline hstep)⟩

/-- Each step keeps the finished messages answered. -/
theorem finishedAnswered_step [FieldOrder] (hworker : RunWorker.LoopInv s.worker)
    (hnamed : s.service.db.Named) (hs : FinishedAnswered s)
    (hstep : step pyRepr cap seeds s a = some s') :
    FinishedAnswered s' := by
  intro p m hm
  have hkept := fun h => hs.kept hstep (p := p) (m := m) h
  cases step_cases hstep with
  | engine => exact hkept hm
  | getmany hmove =>
      rcases finished_step hmove hm with hm | ⟨hprocessed, -⟩
      · exact hkept hm
      · cases hprocessed
  | raised hmove =>
      rcases finished_step hmove hm with hm | ⟨hprocessed, -⟩
      · exact hkept hm
      · cases hprocessed
  | @processed worker q n rest decision service hbatch hmessage hhandled hmove =>
      rcases finished_step hmove hm with hm | ⟨-, n', rest', hbatch', rfl⟩
      · exact hkept hm
      · -- the message at the head of the batch, which this step has handled
        obtain ⟨hhead, -⟩ := List.cons.inj (hbatch.symm.trans hbatch')
        obtain ⟨rfl, rfl⟩ := Prod.mk.inj hhead
        obtain ⟨b, hok⟩ := handle_ok hhandled
        obtain ⟨rfl, -⟩ := hworker.inStep.head hbatch
        exact ⟨decision, hmessage, answered_of_ok hnamed hok⟩
  | committed hmove =>
      rcases finished_step hmove hm with hm | ⟨hprocessed, -⟩
      · exact hkept hm
      · cases hprocessed
  | restarted hmove =>
      rcases finished_step hmove hm with hm | ⟨hprocessed, -⟩
      · exact hkept hm
      · cases hprocessed
  | operated => exact hkept hm

/-- A careful step keeps the worker's loop in order. -/
theorem worker_step [FieldOrder] (hworker : RunWorker.LoopInv s.worker) (hcareful : CarefulStep s a)
    (hstep : step pyRepr cap seeds s a = some s') : RunWorker.LoopInv s'.worker := by
  cases step_cases hstep with
  | engine => exact hworker
  | getmany hmove => exact RunWorker.loopInv_step (a := .getmany _) hworker trivial hmove
  | raised hmove => exact RunWorker.loopInv_step (a := .raised) hworker trivial hmove
  | processed _ _ _ hmove => exact RunWorker.loopInv_step (a := .processed) hworker trivial hmove
  | committed hmove => exact RunWorker.loopInv_step (a := .commit) hworker hcareful hmove
  | restarted hmove => exact RunWorker.loopInv_step (a := .restart) hworker trivial hmove
  | operated => exact hworker

/-- A careful step of the pipeline is at most a careful step of the engine. -/
theorem careful_engine_step [FieldOrder] (hcareful : CarefulStep s a)
    (hstep : step pyRepr cap seeds s a = some s') {e : Process P}
    (hrun : Reaches (Sessions.step cap seeds) Sessions.CarefulStep e s.engine) :
    Reaches (Sessions.step cap seeds) Sessions.CarefulStep e s'.engine := by
  rcases engine_step hstep with hsame | ⟨action, rfl, hmove⟩
  · rwa [hsame]
  · exact hrun.tail hcareful hmove

end Step

/-- The results of the messages that the engine has committed are on the topic, and the results
that the worker has committed are answered: in every run in which no result is lost on the way
to the topic and neither consumer commits past a message that it has not finished, and whatever
else the settlement service does meanwhile. -/
theorem answered_of_committed [FieldOrder] {s : Stages P}
    (hrun : Reaches (step pyRepr cap seeds) CarefulStep (.start seeds) s) :
    (∀ n < s.engine.loop.log.committed, ∃ (p : P) (m : Nat) (d : Decision),
      (partition s.engine.published p)[m]? = some d ∧ d.offset = n ∧
      s.engine.submitted[n]? = some d.payload ∧
      ∃ accounts now, d.result = (evaluateJson cap accounts now d.payload).1) ∧
    ∀ (p : P) (m : Nat) (d : Decision), m < (s.worker.log p).committed →
      (partition s.engine.published p)[m]? = some d → Answered s.service.db (valueOf d) := by
  obtain ⟨hengine, hworker, -, hfinished⟩ := @Reaches.invariant _ _ _ _ (fun s : Stages P =>
    Reaches (Sessions.step cap seeds) Sessions.CarefulStep (.start seeds) s.engine ∧
      RunWorker.LoopInv s.worker ∧ Reachable (Service.step pyRepr) .start s.service ∧
      FinishedAnswered s) _ _ hrun
    ⟨.refl, RunWorker.start_loopInv, .refl, by
      simp [FinishedAnswered, Stages.start, RunWorker.Worker.start, OffsetLog.fresh]⟩
    (by
      rintro s s' a ⟨hengine, hworker, hservice, hfinished⟩ hcareful hstep
      refine ⟨careful_engine_step hcareful hstep hengine, worker_step hworker hcareful hstep, ?_,
        finishedAnswered_step hworker (named_of_reachable hservice) hfinished hstep⟩
      rcases service_step hstep with hsame | ⟨operation, hmove⟩
      · exact hsame ▸ hservice
      · exact hservice.tail trivial hmove)
  constructor
  · intro n hn
    obtain ⟨p, d, hmem, hoffset, hpayload, hresult⟩ := Sessions.published_of_committed hengine n hn
    have hpartition : d ∈ partition s.engine.published p :=
      List.mem_map.mpr ⟨(p, d), List.mem_filter.mpr ⟨hmem, by simp⟩, rfl⟩
    obtain ⟨m, hm⟩ := List.mem_iff_getElem?.mp hpartition
    exact ⟨p, m, d, hm, hoffset, hpayload, hresult⟩
  · intro p m d hcommitted hd
    obtain ⟨d', hd', hanswered⟩ := hfinished p m (hworker.safe p m hcommitted)
    obtain rfl := Option.some.inj (hd.symm.trans hd')
    exact hanswered

section Delivered

attribute [local instance] insertionOrder

/-- The bet of the sample run has been decided, and the first message on the topic, which the
worker has committed, has been answered. -/
theorem answered_of_committed_sample :
    ∃ (s : Stages Unit) (m : Nat) (d d' : Decision),
      (partition s.engine.published ())[m]? = some d ∧ s.engine.submitted[0]? = some d.payload ∧
      (partition s.engine.published ())[0]? = some d' ∧ Answered s.service.db (valueOf d') := by
  obtain ⟨s, hrun, hengine, hworker, -⟩ := exists_sampleRun
  obtain ⟨hdecided, hanswered⟩ := answered_of_committed hrun
  obtain ⟨⟨⟩, m, d, hd, -, hpayload, -⟩ := hdecided 0 (by rw [hengine]; decide)
  have hpositive : 0 < (partition s.engine.published ()).length :=
    (Nat.zero_le m).trans_lt (List.getElem?_eq_some_iff.mp hd).1
  have hfirst := List.getElem?_eq_getElem hpositive
  exact ⟨s, m, d, _, hd, hpayload, hfirst,
    hanswered () 0 _ (by rw [hworker]; decide) hfirst⟩

end Delivered

/-! ## What a user's rows have staked -/

/-- The text of an account names a user. -/
def Names (account : Bytes) (user : Uuid) : Prop :=
  ∃ text, utf8 text = account ∧ Uuid.parse text = some user

/-- The rows of a user that were accepted. -/
def acceptedRows (db : Database) (user : Uuid) : List Bet :=
  db.bets.rows.filter fun row => row.userId = user ∧ row.status ≠ .rejected

/-- What a decision stakes on any of these accounts. -/
def stakedOn (accounts : Finset Bytes) (d : Decision) : Int :=
  ∑ account ∈ accounts, d.staked account

/-- The stakes on a set of accounts are the sum over the accounts. -/
theorem sum_stakedOn (accounts : Finset Bytes) (ds : List Decision) :
    (ds.map (stakedOn accounts)).sum = ∑ account ∈ accounts, (ds.map (Decision.staked account)).sum := by
  induction ds with
  | nil => simp
  | cons d ds ih => simp only [List.map_cons, List.sum_cons, ih, stakedOn, Finset.sum_add_distrib]

/-- An accepted decision stakes on its account, and on no other. -/
theorem stakedOn_of_mem {accounts : Finset Bytes} {d : Decision} (haccepted : d.result.accepted)
    (hmem : d.result.accountId ∈ accounts) : stakedOn accounts d = d.result.stakeCents := by
  simp only [stakedOn, Decision.staked, haccepted, true_and, Finset.sum_ite_eq, hmem, if_true]

omit [DecidableEq P] in
/-- The engine accepts bets of seeded accounts only. -/
theorem seeded_of_accepted [FieldOrder] {e : Process P} (htraced : Traced cap e)
    (haccounted : Sessions.Accounted cap seeds e) {d : Decision} (hd : d ∈ e.decided)
    (haccepted : d.result.accepted) : ∃ seed, seeds.balances d.result.accountId = some seed := by
  obtain ⟨accounts, now, hresult⟩ := (htraced.source d hd).2
  have hdecision := haccepted
  rw [hresult] at hdecision
  obtain ⟨bet, balance, hparse, -, -, -, haccept⟩ := evaluateJson_accepted hdecision
  have hpos : 0 < d.staked d.result.accountId := by
    simp only [Decision.staked, haccepted, and_self, if_true]
    rw [hresult, haccept]
    exact (parseBetJson_valid hparse).stake_pos
  by_contra hnone
  have hunseeded : seeds.balances d.result.accountId = none :=
    Option.eq_none_iff_forall_ne_some.mpr fun seed hseed => hnone ⟨seed, hseed⟩
  have hlimit := (haccounted.limits d.session d.result.accountId).1
  rw [stakeLimit, hunseeded, Option.getD_none, max_self] at hlimit
  have hmem : d.staked d.result.accountId ∈
      (e.decided.filter fun d' => d'.session = d.session).map (Decision.staked d.result.accountId) :=
    List.mem_map_of_mem (List.mem_filter.mpr ⟨hd, by simp⟩)
  have hle := List.single_le_sum (by
    intro n hn
    obtain ⟨d', hd', rfl⟩ := List.mem_map.mp hn
    exact (Decision.staked_nonneg _ (htraced.source d' (List.mem_filter.mp hd').1).2).1) _ hmem
  rw [inSession] at hlimit
  omega

/-- What the decision behind an accepted row has of the row. -/
structure Stakes [FieldOrder] (s : Stages P) (row : Bet) (d : Decision) : Prop where
  decided : d ∈ s.engine.decided
  key : ∃ bet, parseBetJson d.payload = .ok bet ∧ utf8 row.idempotencyKey = bet.idempotencyKey
  user : Names d.result.accountId row.userId
  stake : d.result.stakeCents = row.stakeCents
  accepted : d.result.accepted

/-- A row that is not rejected comes from a decision that staked. -/
theorem stakes_of_row [FieldOrder] {s : Stages P}
    (hrun : Reachable (step pyRepr cap seeds) (.start seeds) s) {row : Bet}
    (hrow : row ∈ s.service.db.bets.rows) (hstatus : row.status ≠ .rejected) : ∃ d, Stakes s row d := by
  obtain ⟨p, d, bet, event, hpublished, -, hparse, ⟨accounts, now, hresult⟩, hreports, hbecomes⟩ :=
    decision_of_row hrun hrow
  have haccepted : d.result.accepted := by
    by_contra hrejected
    exact hstatus ((rejected_iff hreports hbecomes).mpr (by simpa using hrejected))
  have hdecided := (Sessions.traced_of_reachable (parts_of_reachable hrun).2).published.2 d
    (List.mem_map.mpr ⟨_, hpublished, rfl⟩)
  have hdecision := haccepted
  rw [hresult] at hdecision
  obtain ⟨bet', balance, hparse', -, -, -, haccept⟩ := evaluateJson_accepted hdecision
  obtain rfl := Except.ok.inj (hparse.symm.trans hparse')
  rw [← hresult] at haccept
  have hcolumns := hbecomes.columns
  refine ⟨d, hdecided, ⟨bet, hparse, ?_⟩, ?_, ?_, haccepted⟩
  · rw [hcolumns]
    exact hreports.idempotencyKey
  · obtain ⟨text, htext, huser⟩ := hreports.userId
    refine ⟨text, ?_, ?_⟩
    · rw [haccept]
      exact htext
    · rw [hcolumns]
      exact huser
  · rw [haccept, hcolumns]
    exact hreports.stakeCents.symm

omit [DecidableEq P] in
/-- Two rows never stand for one decision. -/
theorem stakes_injective [FieldOrder] {s : Stages P} {row row' : Bet} {d : Decision}
    (hrow : row ∈ s.service.db.bets.rows) (hrow' : row' ∈ s.service.db.bets.rows)
    (h : Stakes s row d) (h' : Stakes s row' d) : row = row' := by
  obtain ⟨bet, hparse, hkey⟩ := h.key
  obtain ⟨bet', hparse', hkey'⟩ := h'.key
  obtain rfl := Except.ok.inj (hparse.symm.trans hparse')
  have hsame := utf8_injective (hkey.trans hkey'.symm)
  by_contra hne
  have hsymm : Std.Symm fun r r' : Bet => ¬ Schema.Clash r r' :=
    ⟨fun _ _ hfree hclash => hfree (Schema.clash_symm hclash)⟩
  exact s.service.db.bets.distinct.forall hrow hrow' hne (Or.inr hsame)

/-- In every run of the pipeline, however often its consumers are restarted: the accepted
bets of a user have together staked at most what the engine's accounts that name the user
are seeded with, negative seeds counting as 0, once for each session of the engine. -/
theorem staked_of_reachable [FieldOrder] {env : Environment} (henv : env.setUp = some (cap, seeds))
    {s : Stages P} (hrun : Reachable (step pyRepr cap seeds) (.start seeds) s) {user : Uuid}
    {accounts : Finset Bytes} (haccounts : ∀ account seed, seeds.balances account = some seed →
      Names account user → account ∈ accounts) :
    ((acceptedRows s.service.db user).map Bet.stakeCents).sum ≤
      (s.engine.session + 1) * ∑ account ∈ accounts, stakeLimit seeds account := by
  obtain ⟨htraced, haccounted⟩ := Sessions.accounted_of_reachable henv (parts_of_reachable hrun).2
  have hrows : ∀ row ∈ acceptedRows s.service.db user,
      row ∈ s.service.db.bets.rows ∧ row.userId = user ∧ row.status ≠ .rejected := fun row hrow => by
    obtain ⟨hmem, hrow⟩ := List.mem_filter.mp hrow
    exact ⟨hmem, of_decide_eq_true hrow⟩
  have : Nonempty Decision := ⟨⟨0, 0, [], (evaluateJson cap seeds 0 []).1⟩⟩
  choose! decision hdecision using fun row (hrow : row ∈ acceptedRows s.service.db user) =>
    stakes_of_row hrun (hrows row hrow).1 (hrows row hrow).2.2
  have hstake : ∀ row ∈ acceptedRows s.service.db user,
      row.stakeCents = stakedOn accounts (decision row) := by
    intro row hrow
    have hd := hdecision row hrow
    obtain ⟨seed, hseed⟩ := seeded_of_accepted htraced haccounted hd.decided hd.accepted
    rw [stakedOn_of_mem hd.accepted (haccounts _ seed hseed ((hrows row hrow).2.1 ▸ hd.user)), hd.stake]
  have hnodup : ((acceptedRows s.service.db user).map decision).Nodup := by
    refine List.Nodup.map_on (fun row hrow row' hrow' hsame => ?_) ?_
    · exact stakes_injective (hrows row hrow).1 (hrows row' hrow').1 (hdecision row hrow)
        (hsame ▸ hdecision row' hrow')
    · refine (s.service.db.bets.distinct.imp fun {r r'} hfree hsame => hfree ?_).filter _
      rw [hsame]
      exact Or.inl rfl
  have hnonneg : ∀ d ∈ s.engine.decided, 0 ≤ stakedOn accounts d := fun d hd =>
    Finset.sum_nonneg fun account _ => (Decision.staked_nonneg account (htraced.source d hd).2).1
  calc ((acceptedRows s.service.db user).map Bet.stakeCents).sum
      = (((acceptedRows s.service.db user).map decision).map (stakedOn accounts)).sum := by
        rw [List.map_map]
        exact congrArg List.sum (List.map_congr_left hstake)
    _ ≤ (s.engine.decided.map (stakedOn accounts)).sum := by
        refine Sessions.sum_le_of_subset hnodup (fun d hd => ?_) hnonneg
        obtain ⟨row, hrow, rfl⟩ := List.mem_map.mp hd
        exact (hdecision row hrow).decided
    _ = ∑ account ∈ accounts, (s.engine.decided.map (Decision.staked account)).sum :=
        sum_stakedOn accounts _
    _ ≤ ∑ account ∈ accounts, (s.engine.session + 1) * stakeLimit seeds account :=
        Finset.sum_le_sum fun account _ =>
          Sessions.sum_decided_le htraced fun k => (haccounted.limits k account).1
    _ = (s.engine.session + 1) * ∑ account ∈ accounts, stakeLimit seeds account := by
        rw [Finset.mul_sum]

section Sample

attribute [local instance] insertionOrder

/-- An environment that seeds the account of user 7. -/
def sampleEnvironment : Environment where
  saecCapCents := none
  demoBalanceCents := none
  riskBalanceSeeds := some (seedsText [(utf8 (Uuid.text 7), 100000)])

theorem setUp_sampleEnvironment : sampleEnvironment.setUp = some (1000000, sampleSeeds) := by
  have hlist : ∀ seed ∈ [(utf8 (Uuid.text 7), (100000 : Int))], Listable seed.1 ∧ IsInt64 seed.2 := by
    simp [Listable]
    decide
  have hread : sampleEnvironment.seeds =
      some [(utf8 "demo-account", 100000), (utf8 (Uuid.text 7), 100000)] := by
    simp [Environment.seeds, sampleEnvironment, envI64Or, readSeed_seedsText hlist]
  exact setUp_eq_some_iff.mpr ⟨rfl, by decide, _, hread, rfl⟩

/-- In the sample run user 7 has staked 2500 of the seed. -/
theorem staked_of_reachable_sample :
    ∃ s : Stages Unit, ((acceptedRows s.service.db 7).map Bet.stakeCents).sum = 2500 ∧
      (2500 : Int) ≤ (s.engine.session + 1) *
        ∑ account ∈ {utf8 (Uuid.text 7)}, stakeLimit sampleSeeds account := by
  obtain ⟨s, hrun, -, -, -, hrows⟩ := exists_sampleRun
  obtain ⟨row, hrow, hvalues⟩ := List.map_eq_singleton_iff.mp hrows
  simp only [Prod.mk.injEq] at hvalues
  obtain ⟨huser, hstake, hstatus⟩ := hvalues
  have hsum : ((acceptedRows s.service.db 7).map Bet.stakeCents).sum = 2500 := by
    simp [acceptedRows, hrow, huser, hstake, hstatus]
  refine ⟨s, hsum, hsum ▸ staked_of_reachable setUp_sampleEnvironment hrun.toReachable ?_⟩
  rintro account seed hseed ⟨text, rfl, hparse⟩
  by_contra hother
  have hdemo : utf8 text = utf8 "demo-account" := by
    by_contra hne
    rw [Finset.mem_singleton] at hother
    simp [sampleSeeds, Accounts.seedAll, Accounts.fresh, Accounts.setBalance, hother, hne] at hseed
  rw [utf8_injective hdemo] at hparse
  exact absurd hparse (by decide)

end Sample

end Pipeline
end Platform
end BettingPlatform
