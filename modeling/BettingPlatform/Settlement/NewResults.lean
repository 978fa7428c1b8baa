import BettingPlatform.Settlement.Journal
import BettingPlatform.Settlement.Messages
import BettingPlatform.Settlement.Settled
import BettingPlatform.SettlementJava.Agreement
import BettingPlatform.Wire.AcceptedBets

/-!
# New results

A result with a new key and a new bet id, whose stake the wallet covers, should become a row of
`bets`.  The worker also inserts the user when there is none, under a name that is made of the
first eight characters of the id.  Names are unique, so when another user has the name, the
insert ends the transaction with an integrity error, and the worker takes the result for a
duplicate.  A text with a null character ends it with an error of the driver.

Main results:

- Theorem `named_of_reachable`: in every reachable database each name is made of the id.
- Theorem `processRawMessage_of_taken`: a result whose user's name is taken is acknowledged and
  lost.
- Theorem `new_result_persisted_iff`: a new result becomes a row exactly when the name is not
  taken and the texts can be held.
-/

namespace BettingPlatform
namespace Settlement

open Python Runs SettlementJava

/-! ## Names -/

/-- Each name is made of the id. -/
def Database.Named (db : Database) : Prop :=
  ∀ r ∈ db.users.rows, r.username = usernameOf r.id

/-- No other user's id begins with the same eight characters. -/
def OwnName (db : Database) (user : Uuid) : Prop :=
  ∀ r ∈ db.users.rows, r.id.text.toList.take 8 = user.text.toList.take 8 → r.id = user

/-- A generated name has the first eight characters of the id. -/
theorem usernameOf_eq_iff {user user' : Uuid} :
    usernameOf user = usernameOf user' ↔
      user.text.toList.take 8 = user'.text.toList.take 8 := by
  have hchars : ∀ id, (usernameOf id).toList = "user-".toList ++ id.text.toList.take 8 := by
    intro id
    rw [usernameOf, String.toList_append, String.toList_ofList, String.toList_ofList]
  rw [← String.toList_inj, hchars, hchars, List.append_cancel_left_eq]

/-- The row of a user is there or can be inserted exactly when the name is the user's own. -/
theorem Database.Named.username_iff {db : Database} (hdb : db.Named) {user : Uuid} :
    (HasUser db.users user ∨ ∀ r ∈ db.users.rows, r.username ≠ usernameOf user) ↔
      OwnName db user := by
  constructor
  · rintro (⟨owner, howner, rfl⟩ | hfree) r hr hsame
    · have hname : r.username = owner.username := by
        rw [hdb r hr, hdb owner howner]
        exact usernameOf_eq_iff.mpr hsame
      rw [Table.eq_of_clash hr howner (Or.inr hname)]
    · exact absurd ((hdb r hr).trans (usernameOf_eq_iff.mpr hsame)) (hfree r hr)
  · intro hown
    by_cases hhas : HasUser db.users user
    · exact Or.inl hhas
    · refine Or.inr fun r hr hname => hhas ⟨r, hr, hown r hr ?_⟩
      exact usernameOf_eq_iff.mp ((hdb r hr).symm.trans hname)

/-! ## What keeps the names -/

section Names

variable {db db' : Database}

/-- Whether users are named depends on the users alone. -/
theorem Database.Named.of_users (hdb : db.Named) (h : db'.users = db.users) : db'.Named := by
  unfold Database.Named
  rw [h]
  exact hdb

/-- An upserted user gets the generated name. -/
theorem Database.Named.upsertUser (hdb : db.Named) {user : Uuid}
    (h : upsertUser db user = .ok db') : db'.Named := by
  unfold Settlement.upsertUser at h
  split at h
  · obtain rfl := Except.ok.inj h
    exact hdb
  · intro r hr
    rw [Table.insert_rows (Database.insertUser_eq_ok_iff.mp h).1] at hr
    rcases List.mem_append.mp hr with hr | hr
    · exact hdb r hr
    · obtain rfl := List.mem_singleton.mp hr
      rfl

/-- So a prepared database has no other names. -/
theorem Database.Named.prepare (hdb : db.Named) {event : BetResultEvent}
    (h : prepare event db = .ok db') : db'.Named := by
  obtain ⟨db₁, huser, db₂, hwallet, h⟩ := prepare_eq_ok_iff.mp h
  have hdb₂ := (hdb.upsertUser huser).of_users (upsertWallet_eq_ok hwallet).2.1
  split at h
  · exact hdb₂.of_users (debitWallet_eq_ok h).2.1
  · obtain rfl := Except.ok.inj h
    exact hdb₂

/-- Nor has a persisted one. -/
theorem Database.Named.persisted (hdb : db.Named) {event : BetResultEvent}
    (h : processBetResultEvent event db = .ok (true, db')) : db'.Named := by
  obtain ⟨hfalse, -⟩ | ⟨-, hpersisted⟩ := processBetResultEvent_eq_ok h
  · contradiction
  have hmem : event.bet ∈ db'.bets.rows := by
    simp [hpersisted.bets]
  have htext : IsText event.idempotencyKey := (db'.bets.checked _ hmem).1.1.2
  obtain ⟨-, prepared, hprepare, inserted, hinsert, h⟩ :=
    (processBetResultEvent_eq_ok_iff htext hpersisted.key_new).mp h
  have hinserted := (hdb.prepare hprepare).of_users (Database.insertBet_eq_ok_iff.mp hinsert).2.2.1
  split at h
  · exact hinserted.of_users (Database.insertLedger_eq_ok_iff.mp h).2.2.1
  · obtain rfl := Except.ok.inj h
    exact hinserted

/-- Each committed transaction keeps the names. -/
theorem named_step {pyRepr : Json → String} {s s' : Service} {operation : Operation}
    (hs : s.db.Named) (hstep : s.step pyRepr operation = some s') : s'.db.Named := by
  cases Service.step_cases hstep with
  | duplicate => exact hs
  | persisted hprocess => exact hs.persisted hprocess
  | settled hsettle => exact hs.of_users (settles_of_ok hsettle).users
  | upserted hupsert =>
      obtain ⟨db₁, huser, hwallet⟩ := bind_eq_ok_iff.mp hupsert
      exact (hs.upsertUser (sql_eq_ok_iff.mp huser)).of_users
        (upsertWallet_eq_ok (sql_eq_ok_iff.mp hwallet)).2.1
  | recorded _ hinsert =>
      exact hs.of_users (Database.insertTransaction_eq_ok_iff.mp hinsert).2.2.1
  | acknowledged => exact hs
  | closed _ _ hclosed => exact hs.of_users hclosed.users

end Names

/-- In every run each user has the generated name. -/
theorem named_of_reachable {pyRepr : Json → String} {s : Service}
    (hrun : Reachable (Service.step pyRepr) .start s) : s.db.Named :=
  hrun.invariant (by simp [Service.start, Database.empty, Database.Named, Table.empty])
    fun hs _ hstep => named_step hs hstep

/-! ## A new result -/

/-- The event's key and bet id are not yet in `bets`, and the wallet covers what it takes. -/
structure IsNew (event : BetResultEvent) (db : Database) : Prop where
  key : ∀ r ∈ db.bets.rows, r.idempotencyKey ≠ event.idempotencyKey
  betId : ∀ r ∈ db.bets.rows, r.id ≠ event.betId
  covered : statusFromResult event = .accepted →
    event.stakeCents ≤ openingBalance db event.userId openingBalanceCents

/-- The call returns `True` and has committed one row for the event. -/
def PersistsRow (raw : Bytes) (event : BetResultEvent) (db : Database) : Prop :=
  ∃ db', processRawMessage raw db = .ok (true, db') ∧ db'.bets.rows = db.bets.rows ++ [event.bet]

section Message

variable {raw : Bytes} {event : BetResultEvent} {db : Database}

/-- The handler commits a row when the transaction of the event does. -/
theorem processRawMessage_eq_true_iff (hevent : eventOf raw = some event) {db' : Database} :
    processRawMessage raw db = .ok (true, db') ↔
      processBetResultEvent event db = .ok (true, db') := by
  obtain ⟨payload, hpayload, -⟩ := Option.bind_eq_some_iff.mp hevent
  simp only [processRawMessage_eq, hpayload, hevent]
  split
  · rename_i herror
    simp [herror]
  · rfl

/-- The handler takes an integrity error for a duplicate. -/
theorem processRawMessage_of_integrityError (hevent : eventOf raw = some event)
    (herror : processBetResultEvent event db = .error (.sql .integrityError)) :
    processRawMessage raw db = .ok (false, db) := by
  obtain ⟨payload, hpayload, -⟩ := Option.bind_eq_some_iff.mp hevent
  simp only [processRawMessage_eq, hpayload, hevent, herror]

/-- A new result that is accepted is covered. -/
theorem IsNew.covered_debit (hnew : IsNew event db) :
    event.debit ≤ openingBalance db event.userId openingBalanceCents := by
  unfold BetResultEvent.debit
  split
  · rename_i haccepted
    exact hnew.covered haccepted
  · exact openingBalance_nonneg _ _ (by decide)

/-- A new result becomes a row exactly when its statements meet no constraint. -/
theorem persistsRow_iff (hdb : db.Named) (hevent : eventOf raw = some event)
    (hlong : event.stakeCents < 2 ^ 63) (hnew : IsNew event db) :
    PersistsRow raw event db ↔
      (IsText event.idempotencyKey ∧ HasTexts event) ∧ OwnName db event.userId := by
  have hstake : IsBigInteger event.stakeCents := by
    have hpos := event.stake_pos
    exact ⟨by omega, hlong⟩
  have hrow : PersistsRow raw event db ↔
      ∃ db', processBetResultEvent event db = .ok (true, db') := by
    constructor
    · rintro ⟨db', h, -⟩
      exact ⟨db', (processRawMessage_eq_true_iff hevent).mp h⟩
    · rintro ⟨db', h⟩
      obtain ⟨hfalse, -⟩ | ⟨-, hpersisted⟩ := processBetResultEvent_eq_ok h
      · contradiction
      · exact ⟨db', (processRawMessage_eq_true_iff hevent).mpr h, hpersisted.bets⟩
  rw [hrow, exists_processBetResultEvent_iff hstake, ← hdb.username_iff]
  constructor
  · rintro ⟨hready, htexts, -⟩
    exact ⟨⟨hready.key_text, htexts⟩, hready.username⟩
  · rintro ⟨⟨hkey, htexts⟩, husername⟩
    exact ⟨⟨hkey, hnew.key, husername, hnew.covered_debit⟩, htexts, hnew.betId⟩

/-- A result whose user's name is taken is acknowledged and lost. -/
theorem processRawMessage_of_taken (hdb : db.Named) (hevent : eventOf raw = some event)
    (htext : IsText event.idempotencyKey) (hnew : IsNew event db)
    (htaken : ¬ OwnName db event.userId) : processRawMessage raw db = .ok (false, db) := by
  obtain ⟨hno, hname⟩ := not_or.mp fun h => htaken (hdb.username_iff.mp h)
  have hknown : idempotencyKeyExists db event.idempotencyKey = .ok false := by
    rw [idempotencyKeyExists, if_pos htext, Table.find_eq_none_iff.mpr hnew.key]
    rfl
  have hfree : ¬ db.users.Free ⟨event.userId, usernameOf event.userId⟩ := by
    intro hfree
    exact hname fun r hr husername => hfree r hr (Or.inr husername)
  have hinsert := Table.insert_of_not_free (usernameOf_varchar event.userId) hfree
  have hupsert : upsertUser db event.userId = .error .integrityError := by
    rw [upsertUser, if_neg hno]
    exact Database.insertUser_eq_error hinsert
  refine processRawMessage_of_integrityError hevent ?_
  simp [processBetResultEvent, hknown, hupsert, sql, bind, Except.bind]

end Message

/-- In every reachable database a new result, in a message of the JSON types that the engine
writes, becomes a row exactly when its texts hold no null character and no other user's id begins
with the same eight characters. -/
theorem new_result_persisted_iff {pyRepr : Json → String} {s : Service}
    (hrun : Reachable (Service.step pyRepr) .start s) {raw : Bytes} {event : BetResultEvent}
    (hevent : eventOf raw = some event) (hlong : event.stakeCents < 2 ^ 63)
    (hnew : IsNew event s.db) :
    PersistsRow raw event s.db ↔
      (IsText event.idempotencyKey ∧ HasTexts event) ∧ OwnName s.db event.userId :=
  persistsRow_iff (named_of_reachable hrun) hevent hlong hnew

/-! ## Two users with one name -/

/-- A second bet, as ingress submits it. -/
def secondBet (user : Uuid) : Ingress.BetSubmittedFields where
  eventId := "e2"
  betId := Uuid.text 2
  accountId := user.text
  idempotencyKey := "k2"
  matchId := "m"
  marketId := "w"
  selectionId := "home"
  stakeCents := 2500
  potentialPayoutCents := 7250
  odds := "2.9000"
  betTimestampMs := 1000

/-- The engine's result for it. -/
def secondMessage (user : Uuid) : Bytes :=
  RiskEngine.toJson (.acceptance (Wire.onWire (secondBet user)) 1000 7250 97500)

theorem secondEventId_length : 1 ≤ "e2".length ∧ "e2".length ≤ 128 := by
  decide

theorem secondKey_length : 1 ≤ "k2".length ∧ "k2".length ≤ 128 := by
  decide

theorem secondReason_length : ∀ r ∈ some "risk checks passed", r.length ≤ 1024 := by
  decide

/-- The event it is validated as. -/
def secondEvent (user : Uuid) : BetResultEvent :=
  { sampleEvent with
    eventId := "e2"
    betId := 2
    userId := user
    idempotencyKey := "k2"
    reason := some "risk checks passed"
    eventId_length := secondEventId_length
    idempotencyKey_length := secondKey_length
    reason_length := secondReason_length }

/-- The message of the example is read as its event. -/
theorem eventOf_secondMessage (user : Uuid) :
    eventOf (secondMessage user) = some (secondEvent user) := by
  have hfits : ∀ s ∈ ["e2", Uuid.text 2, user.text, "k2", "m", "w", "home", "2.9000"],
      Wire.FitsEngine s := by
    simp only [List.forall_mem_cons, List.not_mem_nil, false_implies, implies_true, and_true]
    exact ⟨by decide, Wire.fitsEngine_uuid 2, Wire.fitsEngine_uuid user, by decide, by decide,
      by decide, by decide, by decide⟩
  have hints : ∀ n ∈ [(2500 : Int), 7250, 97500, 1000], RiskEngine.IsInt64 n := by
    simp [RiskEngine.IsInt64]
  rw [secondMessage, ← Wire.acceptanceFields_result,
    Wire.eventOf_result (Wire.acceptanceFields_readable hints), Wire.acceptanceFields_items hfits]
  exact
    { eventId := rfl
      betId := Uuid.parse_text 2
      userId := user.parse_text
      idempotencyKey := rfl
      matchId := rfl
      selectionId := rfl
      stakeCents := rfl
      odds := ⟨"2.9000", ⟨false, 29000, -4⟩, rfl, by decide, rfl, rfl⟩
      accepted := rfl
      reasonCode := rfl
      reason := by
        show (reasonField (some (.str "risk checks passed"))).map Subtype.val =
          some (some "risk checks passed")
        decide }

/-- User 7 has made a bet. -/
theorem exists_sampleService :
    ∃ s, Reachable (Service.step fun _ => "") .start s ∧ s.db.users.rows.map User.id = [7] ∧
      (s.db.bets.rows.map fun r => (r.id, r.idempotencyKey)) = [(1, "k")] ∧
      s.db.balance 7 = some 97500 ∧ s.db.balance 8 = none := by
  have hexec : (([.result sampleEvent] : List Operation).foldlM (Service.step fun _ => "")
      .start).map (fun s => (s.db.users.rows.map User.id,
        s.db.bets.rows.map fun r => (r.id, r.idempotencyKey), s.db.balance 7, s.db.balance 8)) =
      some ([7], [(1, "k")], some 97500, none) := by
    decide +kernel
  obtain ⟨s, hs, hvalues⟩ := Option.map_eq_some_iff.mp hexec
  simp only [Prod.mk.injEq] at hvalues
  exact ⟨s, Reaches.of_foldlM hs, hvalues⟩

/-- The second bet is new when the wallet, or the new wallet, covers it. -/
theorem isNew_secondEvent {db : Database} {user : Uuid}
    (hbets : (db.bets.rows.map fun r => (r.id, r.idempotencyKey)) = [(1, "k")])
    (hcovered : 2500 ≤ openingBalance db user openingBalanceCents) :
    IsNew (secondEvent user) db := by
  have hrow : ∀ r ∈ db.bets.rows, r.id = 1 ∧ r.idempotencyKey = "k" := by
    intro r hr
    have hmem : (r.id, r.idempotencyKey) ∈ db.bets.rows.map fun r => (r.id, r.idempotencyKey) :=
      List.mem_map.mpr ⟨r, hr, rfl⟩
    rw [hbets, List.mem_singleton] at hmem
    exact Prod.mk.inj hmem
  refine ⟨fun r hr => ?_, fun r hr => ?_, fun _ => hcovered⟩
  · rw [(hrow r hr).2]
    show "k" ≠ "k2"
    decide
  · rw [(hrow r hr).1]
    show (1 : Uuid) ≠ 2
    decide

/-- A second bet of user 7 becomes a row. -/
theorem new_result_persisted_iff_sample :
    ∃ s : Service, s.db.balance 7 = some 97500 ∧ PersistsRow (secondMessage 7) (secondEvent 7) s.db := by
  obtain ⟨s, hrun, husers, hbets, hbalance, -⟩ := exists_sampleService
  have hnew : IsNew (secondEvent 7) s.db :=
    isNew_secondEvent hbets (by simp [openingBalance, hbalance])
  refine ⟨s, hbalance, ?_⟩
  refine (new_result_persisted_iff hrun (eventOf_secondMessage 7) (by decide) hnew).mpr
    ⟨⟨by decide, by decide, by decide, fun hrejected => absurd rfl hrejected⟩, fun r hr _ => ?_⟩
  have hid : r.id ∈ s.db.users.rows.map User.id := List.mem_map_of_mem hr
  rw [husers, List.mem_singleton] at hid
  exact hid

/-- The first bet of user 8, whose id begins like that of user 7, is acknowledged and lost. -/
theorem new_result_lost :
    ¬ ∀ (pyRepr : Json → String) (s : Service), Reachable (Service.step pyRepr) .start s →
      ∀ (raw : Bytes) (event : BetResultEvent), eventOf raw = some event →
        event.stakeCents < 2 ^ 63 → IsNew event s.db → PersistsRow raw event s.db := by
  obtain ⟨s, hrun, husers, hbets, -, hbalance⟩ := exists_sampleService
  have hnew : IsNew (secondEvent 8) s.db :=
    isNew_secondEvent hbets (by simp [openingBalance, hbalance, openingBalanceCents])
  have hname : (7 : Uuid).text.toList.take 8 = (8 : Uuid).text.toList.take 8 := by
    decide +kernel
  have htaken : ¬ OwnName s.db 8 := by
    intro hown
    have hmem : (7 : Uuid) ∈ s.db.users.rows.map User.id := by
      simp [husers]
    obtain ⟨r, hr, hid⟩ := List.mem_map.mp hmem
    have hsame := hown r hr (by rw [hid, hname])
    rw [hid] at hsame
    exact absurd hsame (by decide)
  intro hclaim
  obtain ⟨db', htrue, -⟩ := hclaim _ s hrun _ _ (eventOf_secondMessage 8) (by decide) hnew
  have hlost := processRawMessage_of_taken (named_of_reachable hrun) (eventOf_secondMessage 8)
    (by decide) hnew htaken
  rw [hlost] at htrue
  simp at htrue

end Settlement
end BettingPlatform
