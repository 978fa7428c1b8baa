import BettingPlatform.Settlement.WorkerRaces

/-!
# Runs of concurrent workers

Every run of concurrent `process_bet_result_event` calls leaves the committed database
that the calls which returned `True` would leave if they ran alone, one after the other in
the order of their commits.  What holds of such a sequence therefore holds of every
interleaving.

Main results:

- Theorem `workers_serialize`: statements and aborts leave a call in agreement with the
  committed rows, and a commit does what the call would do alone.
- Theorem `results_persisted_once`: one bet for each idempotency key, and one debit for
  each accepted one.
-/

namespace BettingPlatform
namespace Settlement
namespace WorkerRaces

open Runs Schema

variable {ι : Type}

/-! ## One step -/

section Step

variable [Fintype ι] [DecidableEq ι] {event : ι → BetResultEvent} {s : Workers ι} {i : ι}
  {move : Move}

/-- A statement does not commit. -/
theorem runStatement_phase {event : BetResultEvent} {call call' : Call}
    (h : runStatement event s i call = some call') : call'.phase ≠ .returned true := by
  obtain ⟨phase, pending⟩ := call
  cases phase with
  | checking =>
      simp only [runStatement] at h
      split at h <;> (obtain rfl := Option.some.inj h; simp)
  | upsertingUser =>
      simp only [runStatement] at h
      split at h
      · obtain rfl := Option.some.inj h
        simp
      · split at h
        · contradiction
        · obtain ⟨-, -, rfl⟩ | rfl := written_cases (Option.some.inj h) <;> simp
  | upsertingWallet =>
      have hnext : afterUpserts event ≠ .returned true := by
        unfold afterUpserts
        split <;> simp
      simp only [runStatement] at h
      split at h
      · obtain rfl := Option.some.inj h
        exact hnext
      · split at h
        · contradiction
        · split at h
          · obtain ⟨-, -, rfl⟩ | rfl := written_cases (Option.some.inj h)
            · exact hnext
            · simp
          · obtain rfl := Option.some.inj h
            simp
  | debiting =>
      simp only [runStatement] at h
      split at h
      · contradiction
      · split at h <;> (obtain rfl := Option.some.inj h; simp)
  | insertingBet =>
      have hnext : afterBet event ≠ .returned true := by
        unfold afterBet
        split <;> simp
      simp only [runStatement] at h
      split at h
      · contradiction
      · split at h
        · obtain ⟨-, -, rfl⟩ | rfl := written_cases (Option.some.inj h)
          · exact hnext
          · simp
        · obtain rfl := Option.some.inj h
          simp
  | insertingLedger =>
      simp only [runStatement] at h
      split at h
      · obtain ⟨-, -, rfl⟩ | rfl := written_cases (Option.some.inj h) <;> simp
      · obtain rfl := Option.some.inj h
        simp
  | committing => contradiction
  | returned value => contradiction
  | raised => contradiction

/-- A call that moves has run a statement or was aborted. -/
theorem act_eq_moved {call : Call} (h : act event s i move = some (.moved call)) :
    (call = ⟨.raised, .empty⟩ ∨ runStatement (event i) s i (s.calls i) = some call) ∧
      (s.calls i).phase ≠ .returned true := by
  unfold act at h
  split at h
  · contradiction
  · contradiction
  · rename_i hreturned _
    obtain rfl := Outcome.moved.inj (Option.some.inj h)
    exact ⟨Or.inl rfl, hreturned true⟩
  · split at h
    · contradiction
    · simp at h
  · rename_i hreturned _ _
    obtain ⟨call', hcall, hmoved⟩ := Option.map_eq_some_iff.mp h
    obtain rfl := Outcome.moved.inj hmoved
    exact ⟨Or.inr hcall, hreturned true⟩

/-- A call commits what it has pending. -/
theorem act_eq_committed {call : Call} {db : Database}
    (h : act event s i move = some (.committed call db)) :
    (s.calls i).phase = .committing ∧ install (s.calls i).pending s.db = .ok db ∧
      call = ⟨.returned true, .empty⟩ := by
  unfold act at h
  split at h
  · contradiction
  · contradiction
  · simp at h
  · rename_i hphase
    split at h
    · contradiction
    · rename_i hinstall
      obtain ⟨rfl, rfl⟩ := Outcome.committed.inj (Option.some.inj h)
      exact ⟨hphase, hinstall, rfl⟩
  · obtain ⟨_, -, hmoved⟩ := Option.map_eq_some_iff.mp h
    contradiction

end Step

/-! ## Every interleaving is serial -/

/-- What a call that returns `True` makes of the database. -/
def persist (event : BetResultEvent) (db : Database) : Option Database :=
  match processBetResultEvent event db with
  | .ok (true, db') => some db'
  | _ => none

theorem persist_eq_some {event : BetResultEvent} {db db' : Database}
    (h : persist event db = some db') : Persisted event db db' := by
  unfold persist at h
  split at h
  · rename_i hcall
    obtain rfl := Option.some.inj h
    rcases processBetResultEvent_eq_ok hcall with ⟨hfalse, -⟩ | ⟨-, hpersisted⟩
    · contradiction
    · exact hpersisted
  · contradiction

/-- No two calls hold versions of clashing rows. -/
structure CallsApart (calls : ι → Call) : Prop where
  user : Apart (held Call.user calls)
  wallet : Apart (held Call.wallet calls)
  bet : Apart (held Call.bet calls)

section Run

variable {event : ι → BetResultEvent} {db₀ : Database} {s s' : Workers ι} {i : ι}

/-- The committed database is the outcome of the calls that returned `True`, and every call
in flight is in agreement with it. -/
abbrev WorkersSerialized (event : ι → BetResultEvent) (db₀ : Database) (s : Workers ι) : Prop :=
  Serialized (fun i => persist (event i)) (fun i => Consistent (event i)) CallsApart
    (fun call => call.phase = .returned true) db₀ s

/-- Before the first commit the order is empty. -/
theorem serialized_start (event : ι → BetResultEvent) (db₀ : Database) :
    WorkersSerialized event db₀ (Workers.start db₀) where
  consistent _ := rfl
  apart := ⟨apart_none, apart_none, apart_none⟩
  serial := rfl
  nodup := List.nodup_nil
  committed i := by simp [Workers.start]

/-- A call's versions wait for no other call's. -/
theorem CallsApart.unblocked (h : CallsApart s.calls) (i : ι) :
    Unblocked s i (s.calls i).pending where
  user _ hr := h.user.not_blocked hr fun _ => id
  wallet _ hr := h.wallet.not_blocked hr fun _ => id
  bet _ hr := h.bet.not_blocked hr fun _ => id

variable [DecidableEq ι]

/-- A call whose rows are free stays apart from the others. -/
theorem CallsApart.update (h : CallsApart s.calls) {call : Call}
    (hfree : Unblocked s i call.pending) : CallsApart (Function.update s.calls i call) where
  user := held_update Call.user s.calls i call ▸ h.user.update hfree.user
  wallet := held_update Call.wallet s.calls i call ▸ h.wallet.update hfree.wallet
  bet := held_update Call.bet s.calls i call ▸ h.bet.update hfree.bet

variable [Fintype ι]

/-- Statements and aborts leave a call in agreement; a commit does what the call would do
alone. -/
theorem workers_serialize (event : ι → BetResultEvent) :
    Serializes (act event) (fun i => persist (event i)) (fun i => Consistent (event i)) CallsApart
      fun call => call.phase = .returned true where
  moved := by
    intro s i move call hconsistent hapart hact
    obtain ⟨hcall, hphase⟩ := act_eq_moved hact
    rcases hcall with rfl | hcall
    · exact ⟨rfl, hapart.update unblocked_empty, hphase, by simp⟩
    · obtain ⟨hnext, hfree⟩ :=
        agrees_runStatement ⟨hconsistent i, hapart.unblocked i⟩ hcall
      exact ⟨hnext, hapart.update hfree, hphase, runStatement_phase hcall⟩
  committed := by
    intro s i move call db hconsistent hapart hact
    obtain ⟨hphase, hinstall, rfl⟩ := act_eq_committed hact
    obtain ⟨db', hinstall', hprocess⟩ := (hconsistent i).commit hphase
    obtain rfl : db' = db := Except.ok.inj (hinstall'.symm.trans hinstall)
    refine ⟨by rw [persist, hprocess], rfl, fun j hj => ?_, hapart.update unblocked_empty,
      by simp [hphase], rfl⟩
    exact (hconsistent j).installed (install_eq_ok hinstall) (hapart.user j i hj)
      (hapart.wallet j i hj) (hapart.bet j i hj)

/-- Every run is one of the calls in the order of their commits. -/
theorem serialized_of_run (hrun : Reachable (step event) (Workers.start db₀) s) :
    WorkersSerialized event db₀ s :=
  serialized_of_reachable (workers_serialize event) (serialized_start event db₀) hrun

end Run

/-! ## What a run has persisted -/

/-- The stakes that the accepted events among `commits` take from a user's wallet. -/
def debits (event : ι → BetResultEvent) (commits : List ι) (user : Uuid) : Int :=
  ((commits.filter fun i => (event i).userId = user).map fun i => (event i).debit).sum

/-- The rows and balances that the calls in `commits` leave. -/
structure PersistedAll (event : ι → BetResultEvent) (db₀ : Database) (commits : List ι)
    (db : Database) : Prop where
  bets : db.bets.rows = db₀.bets.rows ++ commits.map fun i => (event i).bet
  ledger : db.ledger.rows = db₀.ledger.rows ++
    (commits.filter fun i => statusFromResult (event i) = .accepted).map fun i =>
      (event i).ledgerRow
  balance : ∀ user, db.balance user =
    if ∃ i ∈ commits, (event i).userId = user then
      some (openingBalance db₀ user openingBalanceCents - debits event commits user)
    else db₀.balance user

section Totals

variable {event : ι → BetResultEvent} {db₀ db db' : Database} {commits : List ι} {i : ι}

/-- The debits grow by the result that is added. -/
theorem debits_append (event : ι → BetResultEvent) (commits : List ι) (i : ι) (user : Uuid) :
    debits event (commits ++ [i]) user =
      debits event commits user + if (event i).userId = user then (event i).debit else 0 := by
  unfold debits
  rw [List.filter_append, List.map_append, List.sum_append]
  congr 1
  by_cases huser : (event i).userId = user <;> simp [huser]

/-- Where no call has committed for the user, none has taken anything. -/
theorem debits_eq_zero {user : Uuid} (h : ¬ ∃ i ∈ commits, (event i).userId = user) :
    debits event commits user = 0 := by
  have hnone : commits.filter (fun i => (event i).userId = user) = [] := by
    simpa using fun i hi heq => h ⟨i, hi, heq⟩
  rw [debits, hnone]
  rfl

/-- The balance a user would start the next call with. -/
theorem PersistedAll.openingBalance_eq (h : PersistedAll event db₀ commits db) (user : Uuid) :
    openingBalance db user openingBalanceCents =
      openingBalance db₀ user openingBalanceCents - debits event commits user := by
  rw [openingBalance, h.balance user]
  split
  · rfl
  · rename_i hnone
    rw [debits_eq_zero hnone, Int.sub_zero, openingBalance]

/-- A further result is persisted once. -/
theorem PersistedAll.append (h : PersistedAll event db₀ commits db)
    (hi : Persisted (event i) db db') : PersistedAll event db₀ (commits ++ [i]) db' := by
  refine ⟨?_, ?_, fun user => ?_⟩
  · rw [hi.bets, h.bets, List.append_assoc, List.map_append]
    rfl
  · rw [hi.ledger, h.ledger, List.append_assoc, List.filter_append, List.map_append]
    by_cases haccepted : statusFromResult (event i) = .accepted <;> simp [haccepted]
  · rw [hi.balance, h.openingBalance_eq, debits_append, h.balance]
    by_cases huser : user = (event i).userId
    · subst huser
      have hsome : ∃ j ∈ commits ++ [i], (event j).userId = (event i).userId := ⟨i, by simp, rfl⟩
      rw [if_pos rfl, if_pos hsome, if_pos rfl, Int.sub_sub]
    · have hsame : (∃ j ∈ commits ++ [i], (event j).userId = user) ↔
          ∃ j ∈ commits, (event j).userId = user := by
        constructor
        · rintro ⟨j, hj, rfl⟩
          rcases List.mem_append.mp hj with hj | hj
          · exact ⟨j, hj, rfl⟩
          · exact absurd (congrArg (fun i => (event i).userId) (List.mem_singleton.mp hj)) huser
        · rintro ⟨j, hj, rfl⟩
          exact ⟨j, List.mem_append_left _ hj, rfl⟩
      rw [if_neg huser, if_neg (Ne.symm huser), Int.add_zero]
      simp only [hsame]

/-- Results one after another are persisted once each. -/
theorem PersistedAll.of_serial
    (h : serial (fun i => persist (event i)) db₀ commits = some db) :
    PersistedAll event db₀ commits db := by
  refine serial_invariant ⟨by simp, by simp, by simp⟩ (fun hdone hi => ?_) h
  exact hdone.append (persist_eq_some hi)

end Totals

/-- For every interleaving of any calls: the committed database is the one that the calls
which returned `True` leave alone, so the others have left nothing; each key has one bet,
and the wallets have paid for the accepted events among those calls and no others. -/
theorem results_persisted_once [Fintype ι] [DecidableEq ι] {event : ι → BetResultEvent}
    {db₀ : Database} {s : Workers ι} (hrun : Reachable (step event) (Workers.start db₀) s) :
    s.commits.Nodup ∧ (∀ i, i ∈ s.commits ↔ (s.calls i).phase = .returned true) ∧
      serial (fun i => persist (event i)) db₀ s.commits = some s.db ∧
      (s.db.bets.rows.map Bet.idempotencyKey).Nodup ∧
      (∀ i ∈ s.commits, ∀ j ∈ s.commits,
        (event i).idempotencyKey = (event j).idempotencyKey → i = j) ∧
      (∀ i ∈ s.commits, ∀ b ∈ db₀.bets.rows, b.idempotencyKey ≠ (event i).idempotencyKey) ∧
      PersistedAll event db₀ s.commits s.db := by
  have h := serialized_of_run hrun
  have hall := PersistedAll.of_serial h.serial
  have hkeys : (s.db.bets.rows.map Bet.idempotencyKey).Nodup := Table.nodup_key fun _ _ => Or.inr
  have hsplit := hkeys
  rw [hall.bets, List.map_append, List.map_map] at hsplit
  obtain ⟨-, hcommits, hold⟩ := List.nodup_append.mp hsplit
  refine ⟨h.nodup, h.committed, h.serial, hkeys, fun i hi j hj hkey => ?_,
    fun i hi b hb hkey => ?_, hall⟩
  · exact List.inj_on_of_nodup_map hcommits hi hj hkey
  · exact hold _ (List.mem_map_of_mem hb) _ (List.mem_map_of_mem hi) hkey

/-- The deliveries of one key: a stake of 2500, and a conflicting one of 4000. -/
def sampleDeliveries (second : Bool) : BetResultEvent :=
  if second then { sampleEvent with betId := 2, stakeCents := 4000, stake_pos := by decide }
  else sampleEvent

/-- Both calls pass the check; the second one debits after the first one's commit, and
the unique constraint refuses its bet. -/
def sampleRace : List (Bool × Move) :=
  [(false, .run), (true, .run)] ++ List.replicate 6 (false, .run) ++
    List.replicate 4 (true, .run)

theorem results_persisted_once_race :
    ∃ s, Reachable (step sampleDeliveries) (Workers.start .empty) s ∧
      (s.calls true).phase = .raised ∧ s.db.balance 7 = some 97500 ∧
      PersistedAll sampleDeliveries .empty [false] s.db := by
  have hexec : (sampleRace.foldlM (step sampleDeliveries) (Workers.start .empty)).map
      (fun s => ((s.calls true).phase, s.db.balance 7, s.commits)) =
      some (.raised, some 97500, [false]) := by
    decide +kernel
  obtain ⟨s, hs, hvalues⟩ := Option.map_eq_some_iff.mp hexec
  obtain ⟨hraised, hrest⟩ := Prod.mk.inj hvalues
  obtain ⟨hbalance, hcommits⟩ := Prod.mk.inj hrest
  have hrun := Reaches.of_foldlM hs
  have hall := (results_persisted_once hrun).2.2.2.2.2.2
  rw [hcommits] at hall
  exact ⟨s, hrun, hraised, hbalance, hall⟩

end WorkerRaces
end Settlement
end BettingPlatform
