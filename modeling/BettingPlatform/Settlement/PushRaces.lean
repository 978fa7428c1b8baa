import BettingPlatform.Settlement.CallbackRuns

/-!
# A push and its callbacks

`stk_push_deposit` commits the upserts, waits for the gateway and then commits the pending
transaction.  The gateway knows the checkout request id as soon as it has accepted the push,
so its callbacks for that id can arrive before the transaction is committed.  Such a
callback finds no transaction and is acknowledged all the same.

A step is one part of the push or one handled callback; handlings are one transaction each
and take effect one at a time.

Main results:

- Theorem `payment_kept_iff`: once the transaction is recorded, an acknowledged payment has
  been credited exactly when a callback for it was acknowledged behind the record.
- Theorem `payments_kept_behind_record`: so no payment is lost in the runs in which no
  callback comes before the record.
-/

namespace BettingPlatform
namespace Settlement
namespace PushRaces

open Runs Python CallbackRaces

/-! ## The push and its callbacks -/

/-- How far `stk_push_deposit` has come. -/
inductive Stage
  | requested
  | upserted
  | accepted
  | recorded
  | failed
deriving DecidableEq

/-- The database, the push, and what its callbacks have been answered. -/
structure Push where
  db : Database
  stage : Stage
  /-- A callback with result code 0 has been acknowledged. -/
  acknowledged : Bool
  /-- A callback with result code 0 has been acknowledged behind the record. -/
  acknowledgedBehind : Bool
  /-- A callback with another result code has been delivered. -/
  contradicted : Bool

/-- Nothing has happened yet. -/
def Push.start (db : Database) : Push where
  db := db
  stage := .requested
  acknowledged := false
  acknowledgedBehind := false
  contradicted := false

/-- What can happen next. -/
inductive Event
  /-- The transaction with the upserts commits, or raises. -/
  | upsert
  /-- The gateway accepts the push and creates its checkout request id. -/
  | accept
  /-- The transaction with the pending row commits, or raises. -/
  | record
  /-- The request is cancelled. -/
  | cancel
  /-- A callback for the checkout request id is handled. -/
  | callback (body : List (String × Json))

/-- The checkout request id in the gateway's answer. -/
def checkoutIdOf (gateway : Json) : Option String :=
  match gateway.get "CheckoutRequestID" .null with
  | .ok (.str id) => some id
  | _ => none

/-- One step; `gateway` is the gateway's answer to the push.  A push that has failed never
records its transaction, so what comes behind it is left out. -/
def step (pyRepr : Json → String) (payload : MpesaDepositRequest) (gateway : Json) (s : Push) :
    Event → Option Push
  | .upsert =>
      if s.stage = .requested then
        match stkPushUpsert payload s.db with
        | .error _ => some { s with stage := .failed }
        | .ok db => some { s with db, stage := .upserted }
      else none
  | .accept => if s.stage = .upserted then some { s with stage := .accepted } else none
  | .record =>
      if s.stage = .accepted then
        match stkPushRecord pyRepr payload gateway s.db with
        | .error _ => some { s with stage := .failed }
        | .ok (_, db) => some { s with db, stage := .recorded }
      else none
  | .cancel => if s.stage = .recorded then none else some { s with stage := .failed }
  | .callback body =>
      if (s.stage = .accepted ∨ s.stage = .recorded) ∧ (checkoutIdOf gateway).any (names body) then
        match mpesaStkCallback pyRepr body s.db with
        | .error _ => some { s with contradicted := s.contradicted || !reportsSuccess body }
        | .ok (_, db) =>
            some { s with
              db
              acknowledged := s.acknowledged || reportsSuccess body
              acknowledgedBehind :=
                s.acknowledgedBehind || (s.stage = .recorded && reportsSuccess body)
              contradicted := s.contradicted || !reportsSuccess body }
      else none

/-! ## What a callback for the push does -/

section Callback

variable {pyRepr : Json → String} {body : List (String × Json)} {db db' : Database}
  {ack : MpesaCallbackAck} {id : String}

/-- An acknowledged callback leaves the database alone when its id names no pending
transaction, and closes the pending transaction otherwise. -/
theorem mpesaStkCallback_eq_ok (h : mpesaStkCallback pyRepr body db = .ok (ack, db'))
    (hname : names body id) :
    (db' = db ∧ ∀ txn, db.transaction id = some txn → txn.status ≠ .pending) ∨
      ∃ txn columns, db.transaction id = some txn ∧ txn.status = .pending ∧
        ClosedTransaction txn columns (reportsSuccess body) db db' := by
  obtain ⟨callback, hread, h⟩ := bind_eq_ok_iff.mp h
  obtain ⟨db₁, happly, h⟩ := bind_eq_ok_iff.mp h
  obtain ⟨-, rfl⟩ := Prod.mk.inj (Except.ok.inj h)
  have hcode : reportsSuccess body = (callback.resultCode = 0 : Bool) := by simp [reportsSuccess, hread]
  obtain ⟨checkoutId, hid, -, hcases⟩ := applyCallback_eq_ok happly
  obtain rfl : checkoutId = id := by simpa [names, hread, hid, Json.isStr] using hname
  rw [hcode]
  rcases hcases with hsame | ⟨txn, columns, htxn, hpending, -, hclosed⟩
  · exact Or.inl hsame
  · exact Or.inr ⟨txn, columns, htxn, hpending, hclosed⟩

end Callback

/-! ## The invariant -/

section Invariant

variable (payload : MpesaDepositRequest) (gateway : Json) (db₀ : Database)

/-- The balance the push found or opened the wallet with, plus `cents`. -/
def HasBalance (db : Database) (cents : Int) : Prop :=
  db.balance payload.userId =
    some (openingBalance db₀ payload.userId depositOpeningCents + cents)

/-- The pending row is there, and nothing has been credited. -/
def Waiting (id : String) (db : Database) : Prop :=
  HasBalance payload db₀ db 0 ∧
    ∃ merchantId, db.transaction id = some (payload.transaction id merchantId)

/-- The transaction is `SUCCESS`, and its amount has been credited. -/
def Paid (id : String) (db : Database) : Prop :=
  HasBalance payload db₀ db (payload.amount * 100) ∧
    ∃ txn, db.transaction id = some txn ∧ txn.status = .success ∧
      txn.userId = payload.userId ∧ txn.amount = payload.amount

/-- What holds at each stage of the push. -/
def Tracked (s : Push) : Prop :=
  match s.stage with
  | .requested => s.db = db₀ ∧ s.acknowledgedBehind = false
  | .upserted => HasBalance payload db₀ s.db 0 ∧ s.acknowledgedBehind = false
  | .accepted =>
      (∀ id ∈ checkoutIdOf gateway, s.db.transaction id = none → HasBalance payload db₀ s.db 0) ∧
        s.acknowledgedBehind = false
  | .recorded =>
      ∃ id, checkoutIdOf gateway = some id ∧ (s.contradicted = false →
        if s.acknowledgedBehind then Paid payload db₀ id s.db else Waiting payload db₀ id s.db)
  | .failed => True

end Invariant

section Steps

variable {pyRepr : Json → String} {payload : MpesaDepositRequest} {gateway : Json}
  {db₀ db db' : Database} {id : String} {body : List (String × Json)}

/-- Recording a deposit credits nothing. -/
theorem stkPushUpsert_balance (h : stkPushUpsert payload db₀ = .ok db) :
    HasBalance payload db₀ db 0 := by
  obtain ⟨db₁, huser, hwallet⟩ := bind_eq_ok_iff.mp h
  obtain ⟨-, hwallets, -⟩ := upsertUser_eq_ok (sql_eq_ok_iff.mp huser)
  obtain ⟨hbalance, -⟩ := upsertWallet_eq_ok (sql_eq_ok_iff.mp hwallet)
  rw [HasBalance, hbalance, if_pos rfl, openingBalance, Database.balance_eq_of_wallets hwallets,
    Int.add_zero, openingBalance]

/-- The record finds the checkout request id new, and leaves the balances alone. -/
theorem stkPushRecord_waiting {response : MpesaStkPushResponse}
    (h : stkPushRecord pyRepr payload gateway db = .ok (response, db'))
    (hopened : ∀ id ∈ checkoutIdOf gateway, db.transaction id = none →
      HasBalance payload db₀ db 0) :
    ∃ id, checkoutIdOf gateway = some id ∧ Waiting payload db₀ id db' := by
  obtain ⟨id, merchantId, hget, -, -, hinsert⟩ := stkPushRecord_eq_ok h
  have hid : checkoutIdOf gateway = some id := by simp [checkoutIdOf, hget]
  obtain ⟨hrow, -, -, hwallets, -, -⟩ := Database.insertTransaction_eq_ok_iff.mp hinsert
  obtain ⟨-, -, hfree, hrows⟩ := Table.insert_eq_ok_iff.mp hrow
  have hnone : db.transaction id = none := Table.find_eq_none_iff.mpr hfree
  refine ⟨id, hid, ?_, merchantId, ?_⟩
  · rw [HasBalance, Database.balance_eq_of_wallets hwallets]
    exact hopened id hid hnone
  · refine Database.transaction_eq_some_iff.mpr ⟨?_, rfl⟩
    rw [hrows]
    exact List.mem_append_right _ List.mem_cons_self

/-- The id of a closed transaction is not free again. -/
theorem transaction_closed {txn : MpesaTransaction} {columns : CallbackColumns} {paid : Bool}
    (hclosed : ClosedTransaction txn columns paid db db') (htxn : db.transaction id = some txn) :
    db'.transaction id = some (txn.write columns) := by
  obtain ⟨-, rfl⟩ := Database.transaction_eq_some_iff.mp htxn
  rw [Database.transaction_of_rows hclosed.transactions, htxn]
  simp

/-- A success reported behind the record credits the payment. -/
theorem Waiting.paid (h : Waiting payload db₀ id db) {ack : MpesaCallbackAck}
    (hname : names body id) (hsuccess : reportsSuccess body)
    (hcallback : mpesaStkCallback pyRepr body db = .ok (ack, db')) :
    Paid payload db₀ id db' := by
  obtain ⟨hbalance, merchantId, htxn⟩ := h
  obtain ⟨-, hpending⟩ | ⟨txn, columns, htxn', -, hclosed⟩ := mpesaStkCallback_eq_ok hcallback hname
  · exact absurd rfl (hpending _ htxn)
  · obtain rfl := Option.some.inj (htxn'.symm.trans htxn)
    rw [hsuccess] at hclosed
    have hstatus : columns.status = .success := by simpa using hclosed.status
    refine ⟨?_, _, transaction_closed hclosed htxn, hstatus, rfl, rfl⟩
    have hcredited := hclosed.balance payload.userId
    rw [hbalance] at hcredited
    simpa [HasBalance, MpesaDepositRequest.transaction] using hcredited

/-- A paid transaction stays paid. -/
theorem Paid.callback (h : Paid payload db₀ id db) {ack : MpesaCallbackAck}
    (hname : names body id) (hcallback : mpesaStkCallback pyRepr body db = .ok (ack, db')) :
    db' = db := by
  obtain ⟨-, txn, htxn, hsuccess, -⟩ := h
  obtain ⟨rfl, -⟩ | ⟨txn', columns, htxn', hpending, -⟩ := mpesaStkCallback_eq_ok hcallback hname
  · rfl
  · obtain rfl := Option.some.inj (htxn'.symm.trans htxn)
    rw [hsuccess] at hpending
    contradiction

end Steps

/-! ## Runs -/

section Run

variable {pyRepr : Json → String} {payload : MpesaDepositRequest} {gateway : Json}
  {db₀ : Database} {s s' : Push}

/-- A callback keeps what holds at each stage. -/
theorem tracked_callback (h : Tracked payload gateway db₀ s) {body : List (String × Json)}
    (hstep : step pyRepr payload gateway s (.callback body) = some s') :
    Tracked payload gateway db₀ s' := by
  simp only [step] at hstep
  split at hstep
  · rename_i hguard
    obtain ⟨hstage, hnames⟩ := hguard
    obtain ⟨id, hid, hname⟩ := (Option.any_eq_true _ _).mp hnames
    rcases hstage with hstage | hstage
    · -- the push is accepted: a callback may close an older transaction with the id
      simp only [Tracked, hstage] at h
      obtain ⟨hopened, hbehind⟩ := h
      split at hstep
      · obtain rfl := Option.some.inj hstep
        simpa only [Tracked, hstage] using ⟨hopened, hbehind⟩
      · rename_i db hcallback
        obtain rfl := Option.some.inj hstep
        simp only [Tracked, hstage, hbehind]
        refine ⟨fun id' hid' hnone => ?_, by simp⟩
        obtain rfl := Option.some.inj (hid.symm.trans hid')
        obtain ⟨rfl, -⟩ | ⟨txn, columns, htxn, -, hclosed⟩ := mpesaStkCallback_eq_ok hcallback hname
        · exact hopened id hid hnone
        · rw [transaction_closed hclosed htxn] at hnone
          contradiction
    · -- the transaction is recorded: the first success credits it
      simp only [Tracked, hstage] at h
      obtain ⟨id', hid', hrecorded⟩ := h
      obtain rfl := Option.some.inj (hid.symm.trans hid')
      split at hstep
      · obtain rfl := Option.some.inj hstep
        simp only [Tracked, hstage]
        refine ⟨id, hid, fun hcontradicted => hrecorded ?_⟩
        exact (Bool.or_eq_false_iff.mp hcontradicted).1
      · rename_i ack db hcallback
        obtain rfl := Option.some.inj hstep
        simp only [Tracked, hstage]
        refine ⟨id, hid, fun hcontradicted => ?_⟩
        obtain ⟨hbefore, hsuccess⟩ := Bool.or_eq_false_iff.mp hcontradicted
        rw [Bool.not_eq_false'] at hsuccess
        have hstate := hrecorded hbefore
        simp only [hsuccess, decide_true, Bool.and_self, Bool.or_true, if_true]
        split at hstate
        · rwa [hstate.callback hname hcallback]
        · exact hstate.paid hname hsuccess hcallback
  · contradiction

/-- Each step keeps what holds at each stage. -/
theorem tracked_step (h : Tracked payload gateway db₀ s) {event : Event}
    (hstep : step pyRepr payload gateway s event = some s') : Tracked payload gateway db₀ s' := by
  cases event with
  | upsert =>
      simp only [step] at hstep
      split at hstep
      · rename_i hstage
        simp only [Tracked, hstage] at h
        obtain ⟨rfl, hbehind⟩ := h
        split at hstep
        · obtain rfl := Option.some.inj hstep
          trivial
        · rename_i hupsert
          obtain rfl := Option.some.inj hstep
          exact ⟨stkPushUpsert_balance hupsert, hbehind⟩
      · contradiction
  | accept =>
      simp only [step] at hstep
      split at hstep
      · rename_i hstage
        simp only [Tracked, hstage] at h
        obtain rfl := Option.some.inj hstep
        exact ⟨fun _ _ _ => h.1, h.2⟩
      · contradiction
  | record =>
      simp only [step] at hstep
      split at hstep
      · rename_i hstage
        simp only [Tracked, hstage] at h
        split at hstep
        · obtain rfl := Option.some.inj hstep
          trivial
        · rename_i hrecord
          obtain rfl := Option.some.inj hstep
          obtain ⟨id, hid, hwaiting⟩ := stkPushRecord_waiting hrecord h.1
          refine ⟨id, hid, fun _ => ?_⟩
          simpa only [h.2, Bool.false_eq_true, if_false] using hwaiting
      · contradiction
  | cancel =>
      simp only [step] at hstep
      split at hstep
      · contradiction
      · obtain rfl := Option.some.inj hstep
        trivial
  | callback body => exact tracked_callback h hstep

/-- In every run what its stage says of the push holds. -/
theorem tracked_of_reachable (hrun : Reachable (step pyRepr payload gateway) (Push.start db₀) s) :
    Tracked payload gateway db₀ s :=
  hrun.invariant ⟨rfl, rfl⟩ fun h _ hstep => tracked_step h hstep

/-- When a success has been acknowledged, no other result delivered, and the transaction
recorded, the payment is in the wallet. -/
def Kept (payload : MpesaDepositRequest) (gateway : Json) (db₀ : Database) (s : Push) : Prop :=
  s.stage = .recorded → s.acknowledged → s.contradicted = false →
    ∃ id ∈ checkoutIdOf gateway, Paid payload db₀ id s.db

/-- Once the transaction is recorded, an acknowledged payment has been credited exactly when
a success was acknowledged behind the record. -/
theorem payment_kept_iff (hrun : Reachable (step pyRepr payload gateway) (Push.start db₀) s) :
    Kept payload gateway db₀ s ↔
      (s.stage = .recorded → s.acknowledged → s.contradicted = false → s.acknowledgedBehind) := by
  have h := tracked_of_reachable hrun
  unfold Kept
  refine forall_congr' fun hstage => forall_congr' fun _ => forall_congr' fun hcontradicted => ?_
  simp only [Tracked, hstage] at h
  obtain ⟨id, hid, hrecorded⟩ := h
  have hstate := hrecorded hcontradicted
  constructor
  · rintro ⟨id', hid', -, txn, htxn, hsuccess, -⟩
    obtain rfl := Option.some.inj (hid.symm.trans hid')
    by_contra hbehind
    rw [if_neg hbehind] at hstate
    obtain ⟨-, merchantId, hwaiting⟩ := hstate
    obtain rfl := Option.some.inj (htxn.symm.trans hwaiting)
    contradiction
  · intro hbehind
    rw [if_pos hbehind] at hstate
    exact ⟨id, hid, hstate⟩

/-- The step handles no callback before the transaction is recorded. -/
def BehindRecord (s : Push) (event : Event) : Prop :=
  ∀ body, event = .callback body → s.stage = .recorded

/-- Every acknowledged success was acknowledged behind the record. -/
def AcknowledgedBehind (s : Push) : Prop :=
  s.acknowledged = s.acknowledgedBehind

/-- A callback that is handled behind the record is acknowledged behind it. -/
theorem acknowledgedBehind_step {event : Event} (h : AcknowledgedBehind s)
    (hguard : BehindRecord s event) (hstep : step pyRepr payload gateway s event = some s') :
    AcknowledgedBehind s' := by
  unfold AcknowledgedBehind at h ⊢
  cases event with
  | callback body =>
      have hstage := hguard body rfl
      simp only [step] at hstep
      split at hstep
      · split at hstep
        · obtain rfl := Option.some.inj hstep
          exact h
        · obtain rfl := Option.some.inj hstep
          simp [h, hstage]
      · contradiction
  | upsert =>
      simp only [step] at hstep
      split at hstep
      · split at hstep <;> (obtain rfl := Option.some.inj hstep; exact h)
      · contradiction
  | accept =>
      simp only [step] at hstep
      split at hstep
      · obtain rfl := Option.some.inj hstep
        exact h
      · contradiction
  | record =>
      simp only [step] at hstep
      split at hstep
      · split at hstep <;> (obtain rfl := Option.some.inj hstep; exact h)
      · contradiction
  | cancel =>
      simp only [step] at hstep
      split at hstep
      · contradiction
      · obtain rfl := Option.some.inj hstep
        exact h

/-- In the runs in which no callback comes before the record, no acknowledged payment is
lost; in any run, a recorded one is kept exactly when a success was acknowledged behind the
record. -/
theorem payments_kept_behind_record (pyRepr : Json → String) (payload : MpesaDepositRequest)
    (gateway : Json) (db₀ : Database) :
    (∀ s, Reaches (step pyRepr payload gateway) BehindRecord (Push.start db₀) s →
      Kept payload gateway db₀ s) ∧
      ∀ s, Reachable (step pyRepr payload gateway) (Push.start db₀) s →
        (Kept payload gateway db₀ s ↔ (s.stage = .recorded → s.acknowledged →
          s.contradicted = false → s.acknowledgedBehind)) := by
  refine ⟨fun s hrun => ?_, fun s hrun => payment_kept_iff hrun⟩
  have hbehind : AcknowledgedBehind s := hrun.invariant rfl acknowledgedBehind_step
  refine (payment_kept_iff hrun.toReachable).mpr fun _ hacknowledged _ => ?_
  exact hbehind ▸ hacknowledged

/-- A deposit of 50 of user 7. -/
def sampleRequest : MpesaDepositRequest :=
  sampleDepositRequest

/-- The gateway accepts the deposit. -/
def sampleAnswer : Json :=
  .dict [("ResponseCode", .str "0"), ("CheckoutRequestID", .str "ws_CO_1")]

/-- The event is no callback, or comes behind the record. -/
def isBehindRecord (s : Push) : Event → Bool
  | .callback _ => s.stage = .recorded
  | _ => true

theorem behindRecord_of_isBehindRecord (s : Push) (event : Event)
    (h : isBehindRecord s event = true) : BehindRecord s event := by
  rintro body rfl
  exact of_decide_eq_true h

/-- The transaction is recorded before the success is reported: the deposit is in the wallet. -/
theorem payments_kept_behind_record_sample :
    ∃ s, Reaches (step (fun _ => "") sampleRequest sampleAnswer) BehindRecord (Push.start .empty) s ∧
      s.stage = .recorded ∧ s.acknowledged ∧ s.contradicted = false ∧
      s.db.balance 7 = some 5000 ∧ Kept sampleRequest sampleAnswer .empty s := by
  have hexec : ([.upsert, .accept, .record, .callback (sampleCallback 0)].foldlM
      (fun s event => if isBehindRecord s event then
        step (fun _ => "") sampleRequest sampleAnswer s event else none) (Push.start .empty)).map
      (fun s => (s.stage, s.acknowledged, s.contradicted, s.db.balance 7)) =
      some (.recorded, true, false, some 5000) := by
    decide +kernel
  obtain ⟨s, hs, hvalues⟩ := Option.map_eq_some_iff.mp hexec
  simp only [Prod.mk.injEq] at hvalues
  obtain ⟨hstage, hacknowledged, hcontradicted, hbalance⟩ := hvalues
  have hrun : Reaches (step (fun _ => "") sampleRequest sampleAnswer) BehindRecord
      (Push.start .empty) s := .of_foldlM_checked behindRecord_of_isBehindRecord hs
  exact ⟨s, hrun, hstage, hacknowledged, hcontradicted, hbalance,
    (payments_kept_behind_record _ _ _ _).1 s hrun⟩

/-- The success is reported and acknowledged before the transaction is recorded: the
transaction stays pending and the wallet empty. -/
theorem payment_lost_before_record :
    ∃ s, Reachable (step (fun _ => "") sampleRequest sampleAnswer) (Push.start .empty) s ∧
      s.stage = .recorded ∧ s.acknowledged ∧ s.contradicted = false ∧
      s.db.balance 7 = some 0 ∧ ¬ Kept sampleRequest sampleAnswer .empty s := by
  have hexec : ([.upsert, .accept, .callback (sampleCallback 0), .record].foldlM
      (step (fun _ => "") sampleRequest sampleAnswer) (Push.start .empty)).map
      (fun s => (s.stage, s.acknowledged, s.contradicted, s.db.balance 7,
        (s.db.transaction "ws_CO_1").map MpesaTransaction.status)) =
      some (.recorded, true, false, some 0, some .pending) := by
    decide +kernel
  obtain ⟨s, hs, hvalues⟩ := Option.map_eq_some_iff.mp hexec
  simp only [Prod.mk.injEq] at hvalues
  obtain ⟨hstage, hacknowledged, hcontradicted, hbalance, hstatus⟩ := hvalues
  refine ⟨s, Reaches.of_foldlM hs, hstage, hacknowledged, hcontradicted, hbalance, fun hkept => ?_⟩
  obtain ⟨id, hid, -, txn, htxn, hsuccess, -⟩ := hkept hstage hacknowledged hcontradicted
  obtain rfl : "ws_CO_1" = id := Option.some.inj hid
  rw [htxn, Option.map_some, hsuccess] at hstatus
  contradiction

end Run

end PushRaces
end Settlement
end BettingPlatform
