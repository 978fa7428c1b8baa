import Mathlib.Algebra.BigOperators.Group.List.Basic
import BettingPlatform.Settlement.CallbackRaces

/-!
# Runs of concurrent callbacks

Every run of concurrent `mpesa_stk_callback` handlings leaves the committed database that
the acknowledged handlings would leave if they ran alone, one after the other in the order
of their commits.  Among those that name one transaction only the first one matters.

Main results:

- Theorem `handlings_serialize`: statements and aborts leave a handling in agreement with
  the committed rows, and a commit does what the handling would do alone.
- Theorem `payments_credited_once`: a pending transaction is closed by the first
  acknowledged callback for it, and credited when that callback reports success.
-/

namespace BettingPlatform
namespace Settlement
namespace CallbackRaces

open Runs Schema Python

variable {ι : Type}

/-! ## Every interleaving is serial -/

section Step

variable [Fintype ι] [DecidableEq ι] {pyRepr : Json → String} {body : ι → List (String × Json)}
  {s : Handlings ι} {i : ι} {move : Move} {call : Handling}

/-- A statement does not commit. -/
theorem runStatement_phase {body : List (String × Json)} {call' : Handling}
    (h : runStatement pyRepr body s i call = some call') : call'.phase ≠ .acknowledged := by
  obtain ⟨phase, pending⟩ := call
  cases phase with
  | selecting =>
      simp only [runStatement, select] at h
      split at h
      · obtain rfl := Option.some.inj h
        simp [Handling.ended]
      · split at h
        · obtain rfl := Option.some.inj h
          simp [Handling.ended]
        · split at h
          · obtain rfl := Option.some.inj h
            simp
          · split at h
            · contradiction
            · split at h
              · obtain rfl := Option.some.inj h
                simp
              · obtain rfl := Option.some.inj h
                unfold branch
                split
                · split <;> simp [Handling.ended]
                · simp
  | crediting callback txn receipt =>
      simp only [runStatement] at h
      split at h
      · contradiction
      · split at h <;> (obtain rfl := Option.some.inj h; simp [Handling.ended])
  | flushing callback txn status receipt ledger =>
      simp only [runStatement] at h
      split at h <;> (obtain rfl := Option.some.inj h; simp [Handling.ended])
  | committing locked => contradiction
  | acknowledged => contradiction
  | raised => contradiction

/-- A handling that moves has run a statement or was aborted. -/
theorem act_eq_moved (h : act pyRepr body s i move = some (.moved call)) :
    (call = .ended ∨ runStatement pyRepr (body i) s i (s.calls i) = some call) ∧
      (s.calls i).phase ≠ .acknowledged := by
  unfold act at h
  split at h
  · contradiction
  · contradiction
  · rename_i hacknowledged _
    obtain rfl := Outcome.moved.inj (Option.some.inj h)
    exact ⟨Or.inl rfl, hacknowledged⟩
  · split at h
    · contradiction
    · simp at h
  · rename_i hacknowledged _ _
    obtain ⟨call', hcall, hmoved⟩ := Option.map_eq_some_iff.mp h
    obtain rfl := Outcome.moved.inj hmoved
    exact ⟨Or.inr hcall, hacknowledged⟩

/-- A handling commits what it has pending. -/
theorem act_eq_committed {db : Database}
    (h : act pyRepr body s i move = some (.committed call db)) :
    (∃ locked, (s.calls i).phase = .committing locked) ∧
      install (s.calls i).pending s.db = .ok db ∧ call = ⟨.acknowledged, .empty⟩ := by
  unfold act at h
  split at h
  · contradiction
  · contradiction
  · simp at h
  · rename_i locked hphase
    split at h
    · contradiction
    · rename_i hinstall
      obtain ⟨rfl, rfl⟩ := Outcome.committed.inj (Option.some.inj h)
      exact ⟨⟨locked, hphase⟩, hinstall, rfl⟩
  · obtain ⟨_, -, hmoved⟩ := Option.map_eq_some_iff.mp h
    contradiction

end Step

/-- What an acknowledged callback makes of the database. -/
def acknowledge (pyRepr : Json → String) (body : List (String × Json)) (db : Database) :
    Option Database :=
  match mpesaStkCallback pyRepr body db with
  | .ok (_, db') => some db'
  | .error _ => none

/-- A callback is acknowledged when it is read and applied. -/
theorem acknowledge_eq_some {pyRepr : Json → String} {body : List (String × Json)}
    {db db' : Database} (h : acknowledge pyRepr body db = some db') :
    ∃ callback, readCallback body = .ok callback ∧ applyCallback pyRepr callback db = .ok db' := by
  unfold acknowledge at h
  split at h
  · rename_i hcall
    obtain rfl := Option.some.inj h
    obtain ⟨callback, hread, hcall⟩ := bind_eq_ok_iff.mp hcall
    obtain ⟨db', happly, hcall⟩ := bind_eq_ok_iff.mp hcall
    obtain ⟨-, rfl⟩ := Prod.mk.inj (Except.ok.inj hcall)
    exact ⟨callback, hread, happly⟩
  · contradiction

/-- No two handlings have locked one transaction or hold versions of one wallet. -/
structure HandlingsApart (calls : ι → Handling) : Prop where
  locked : Apart (held Handling.locked calls)
  wallet : Apart (held Handling.wallet calls)

section Run

variable {pyRepr : Json → String} {body : ι → List (String × Json)} {db₀ : Database}
  {s : Handlings ι} {i : ι}

/-- The committed database is the outcome of the acknowledged handlings, and every handling
in flight is in agreement with it. -/
abbrev HandlingsSerialized (pyRepr : Json → String) (body : ι → List (String × Json))
    (db₀ : Database) (s : Handlings ι) : Prop :=
  Serialized (fun i => acknowledge pyRepr (body i)) (fun i => Consistent pyRepr (body i))
    HandlingsApart (fun call => call.phase = .acknowledged) db₀ s

/-- Before the first commit the order is empty. -/
theorem serialized_start (pyRepr : Json → String) (body : ι → List (String × Json))
    (db₀ : Database) : HandlingsSerialized pyRepr body db₀ (Handlings.start db₀) where
  consistent _ := rfl
  apart := ⟨apart_none, apart_none⟩
  serial := rfl
  nodup := List.nodup_nil
  committed i := by simp [Handlings.start]

/-- A handling's rows wait for no other handling's. -/
theorem HandlingsApart.unblocked (h : HandlingsApart s.calls) (i : ι) :
    Unblocked s i (s.calls i) where
  locked _ hr := h.locked.not_blocked hr fun _ => id
  wallet _ hr := h.wallet.not_blocked hr fun _ => id

variable [DecidableEq ι]

/-- A handling whose rows are free stays apart from the others. -/
theorem HandlingsApart.update (h : HandlingsApart s.calls) {call : Handling}
    (hfree : Unblocked s i call) : HandlingsApart (Function.update s.calls i call) where
  locked := held_update Handling.locked s.calls i call ▸ h.locked.update hfree.locked
  wallet := held_update Handling.wallet s.calls i call ▸ h.wallet.update hfree.wallet

variable [Fintype ι]

/-- Statements and aborts leave a handling in agreement; a commit does what the handling
would do alone. -/
theorem handlings_serialize (pyRepr : Json → String) (body : ι → List (String × Json)) :
    Serializes (act pyRepr body) (fun i => acknowledge pyRepr (body i))
      (fun i => Consistent pyRepr (body i)) HandlingsApart
      fun call => call.phase = .acknowledged where
  moved := by
    intro s i move call hconsistent hapart hact
    obtain ⟨hcall, hphase⟩ := act_eq_moved hact
    rcases hcall with rfl | hcall
    · have hended : Agrees pyRepr (body i) s i .ended := agrees_ended
      exact ⟨rfl, hapart.update hended.2, hphase, by simp [Handling.ended]⟩
    · obtain ⟨hnext, hfree⟩ := agrees_runStatement ⟨hconsistent i, hapart.unblocked i⟩ hcall
      exact ⟨hnext, hapart.update hfree, hphase, runStatement_phase hcall⟩
  committed := by
    intro s i move call db hconsistent hapart hact
    obtain ⟨⟨locked, hphase⟩, hinstall, rfl⟩ := act_eq_committed hact
    obtain ⟨db', hinstall', hcallback⟩ := (hconsistent i).commit hphase
    obtain rfl : db' = db := Except.ok.inj (hinstall'.symm.trans hinstall)
    have hfree : Unblocked s i ⟨.acknowledged, .empty⟩ :=
      ⟨by simp [Handling.locked], by simp [Pending.empty]⟩
    refine ⟨by rw [acknowledge, hcallback], rfl, fun j hj => ?_, hapart.update hfree,
      by simp [hphase], rfl⟩
    refine (hconsistent j).installed (install_eq_ok hinstall) (fun t ht v hv hid => ?_)
      (hapart.wallet j i hj)
    obtain ⟨t', ht', hwritten⟩ := (hconsistent i).writes_locked v hv
    exact hapart.locked j i hj t ht t' ht' (hid.symm.trans hwritten.symm)

/-- Every run is one of the handlings in the order of their commits. -/
theorem serialized_of_run (hrun : Reachable (step pyRepr body) (Handlings.start db₀) s) :
    HandlingsSerialized pyRepr body db₀ s :=
  serialized_of_reachable (handlings_serialize pyRepr body) (serialized_start pyRepr body db₀) hrun

end Run

/-! ## What the acknowledged callbacks have done -/

section Totals

variable (body : ι → List (String × Json))

/-- The body's `CheckoutRequestID` is this id. -/
def names (body : List (String × Json)) (checkoutId : String) : Bool :=
  match readCallback body with
  | .ok callback => callback.checkoutId.isStr checkoutId
  | .error _ => false

/-- The body's `ResultCode` is 0. -/
def reportsSuccess (body : List (String × Json)) : Bool :=
  match readCallback body with
  | .ok callback => callback.resultCode = 0
  | .error _ => false

/-- The first acknowledged callback for an id. -/
def firstFor (commits : List ι) (checkoutId : String) : Option ι :=
  commits.find? fun i => names (body i) checkoutId

/-- The transaction was pending and the first acknowledged callback for it reported
success. -/
def isCredited (commits : List ι) (txn : MpesaTransaction) : Bool :=
  txn.status = .pending && (firstFor body commits txn.checkoutRequestId).any fun i =>
    reportsSuccess (body i)

/-- What has become of a recorded transaction: a pending one is closed by the first
acknowledged callback for it. -/
def Settled (commits : List ι) (txn row : MpesaTransaction) : Prop :=
  match (if txn.status = .pending then firstFor body commits txn.checkoutRequestId else none) with
  | none => row = txn
  | some i => ∃ callback columns, readCallback (body i) = .ok callback ∧ row = txn.write columns ∧
      columns.status = (if callback.resultCode = 0 then .success else .failed) ∧
      columns.resultCode = some callback.resultCode

/-- The amounts credited to one user. -/
def deposits (rows : List MpesaTransaction) (user : Uuid) : Int :=
  ((rows.filter fun txn => txn.userId = user).map fun txn => txn.amount * 100).sum

/-- The rows and balances that the acknowledged callbacks leave. -/
structure CreditedOnce (db₀ : Database) (commits : List ι) (db : Database) : Prop where
  users : db.users = db₀.users
  bets : db.bets = db₀.bets
  unknown : ∀ id, db₀.transaction id = none → db.transaction id = none
  settled : ∀ id txn, db₀.transaction id = some txn →
    ∃ row, db.transaction id = some row ∧ Settled body commits txn row
  ledger : db.ledger.rows.Perm
    (db₀.ledger.rows ++ (db₀.transactions.rows.filter (isCredited body commits)).map depositRow)
  balance : ∀ user, db.balance user = (db₀.balance user).map fun b =>
    b + deposits (db₀.transactions.rows.filter (isCredited body commits)) user

end Totals

section Append

variable {pyRepr : Json → String} {body : ι → List (String × Json)} {commits : List ι} {i : ι}
  {db₀ db db' : Database} {callback : StkCallback} {checkoutId : String}

/-- A callback names one id. -/
theorem names_iff (hread : readCallback (body i) = .ok callback)
    (hid : callback.checkoutId = .str checkoutId) (id : String) :
    names (body i) id ↔ checkoutId = id := by
  simp [names, hread, hid, Json.isStr]

/-- A later callback is the first one only where there was none. -/
theorem firstFor_append (body : ι → List (String × Json)) (commits : List ι) (i : ι) (id : String) :
    firstFor body (commits ++ [i]) id =
      (firstFor body commits id).or (if names (body i) id then some i else none) := by
  rw [firstFor, List.find?_append, firstFor]
  congr 1
  simp [List.find?_cons]
  split <;> simp_all

/-- One more callback settles no row whose id it does not name, and none that is closed. -/
theorem firstFor_append_of_closed {txn : MpesaTransaction}
    (h : ¬ names (body i) txn.checkoutRequestId ∨
      (firstFor body commits txn.checkoutRequestId).isSome) :
    firstFor body (commits ++ [i]) txn.checkoutRequestId =
      firstFor body commits txn.checkoutRequestId := by
  rw [firstFor_append]
  rcases h with hname | hsome
  · rw [if_neg hname, Option.or_none]
  · obtain ⟨j, hj⟩ := Option.isSome_iff_exists.mp hsome
    rw [hj, Option.some_or]

/-- What has become of a row depends on its first callback alone. -/
theorem Settled.congr {commits' : List ι} {txn row : MpesaTransaction}
    (h : Settled body commits txn row)
    (hfirst : txn.status = .pending → firstFor body commits' txn.checkoutRequestId =
      firstFor body commits txn.checkoutRequestId) : Settled body commits' txn row := by
  unfold Settled at h ⊢
  by_cases hpending : txn.status = .pending
  · rw [if_pos hpending, hfirst hpending]
    rwa [if_pos hpending] at h
  · rw [if_neg hpending]
    rwa [if_neg hpending] at h

/-- And so does the credit. -/
theorem isCredited_congr {commits' : List ι} {txn : MpesaTransaction}
    (hfirst : txn.status = .pending → firstFor body commits' txn.checkoutRequestId =
      firstFor body commits txn.checkoutRequestId) :
    isCredited body commits' txn = isCredited body commits txn := by
  unfold isCredited
  by_cases hpending : txn.status = .pending
  · rw [hfirst hpending]
  · simp [hpending]

/-- A row that is still pending is the recorded one, and no callback for it has been
acknowledged. -/
theorem Settled.of_pending {txn row : MpesaTransaction} (h : Settled body commits txn row)
    (hpending : row.status = .pending) :
    row = txn ∧ firstFor body commits txn.checkoutRequestId = none := by
  unfold Settled at h
  by_cases htxn : txn.status = .pending
  · rw [if_pos htxn] at h
    cases hfirst : firstFor body commits txn.checkoutRequestId with
    | none => exact ⟨by simpa [hfirst] using h, rfl⟩
    | some i =>
        rw [hfirst] at h
        obtain ⟨callback, columns, -, rfl, hstatus, -⟩ := h
        have hclosed : columns.status = .pending := hpending
        rw [hstatus] at hclosed
        split at hclosed <;> contradiction
  · rw [if_neg htxn] at h
    simp only at h
    exact absurd (h ▸ hpending) htxn

/-- A callback that finds no pending transaction leaves everything settled as it was. -/
theorem CreditedOnce.append_unchanged (h : CreditedOnce body db₀ commits db)
    (hread : readCallback (body i) = .ok callback) (hid : callback.checkoutId = .str checkoutId)
    (hclosed : ∀ txn, db.transaction checkoutId = some txn → txn.status ≠ .pending) :
    CreditedOnce body db₀ (commits ++ [i]) db := by
  have hfirst : ∀ txn ∈ db₀.transactions.rows, txn.status = .pending →
      firstFor body (commits ++ [i]) txn.checkoutRequestId =
        firstFor body commits txn.checkoutRequestId := by
    intro txn hmem hpending
    refine firstFor_append_of_closed ?_
    by_cases hname : names (body i) txn.checkoutRequestId
    · right
      obtain rfl := (names_iff hread hid _).mp hname
      obtain ⟨row, hrow, hsettled⟩ :=
        h.settled _ txn (Database.transaction_eq_some_iff.mpr ⟨hmem, rfl⟩)
      cases hfirst : firstFor body commits txn.checkoutRequestId with
      | some j => rfl
      | none =>
          rw [Settled, if_pos hpending, hfirst] at hsettled
          simp only at hsettled
          subst hsettled
          exact absurd hpending (hclosed _ hrow)
    · exact Or.inl hname
  have hcredited : db₀.transactions.rows.filter (isCredited body (commits ++ [i])) =
      db₀.transactions.rows.filter (isCredited body commits) :=
    List.filter_congr fun txn hmem => isCredited_congr (hfirst txn hmem)
  refine ⟨h.users, h.bets, h.unknown, fun id txn htxn => ?_, ?_, fun user => ?_⟩
  · obtain ⟨row, hrow, hsettled⟩ := h.settled id txn htxn
    exact ⟨row, hrow, hsettled.congr (hfirst txn (Database.transaction_eq_some_iff.mp htxn).1)⟩
  · rw [hcredited]
    exact h.ledger
  · rw [hcredited]
    exact h.balance user

/-- The deposits grow by the transaction that is added. -/
theorem deposits_append (rows : List MpesaTransaction) (txn : MpesaTransaction) (user : Uuid) :
    deposits (rows ++ [txn]) user =
      deposits rows user + if user = txn.userId then txn.amount * 100 else 0 := by
  unfold deposits
  rw [List.filter_append, List.map_append, List.sum_append]
  congr 1
  by_cases huser : txn.userId = user
  · simp [huser]
  · simp [huser, Ne.symm huser]

/-- They do not depend on the order. -/
theorem deposits_perm {rows rows' : List MpesaTransaction} (h : rows.Perm rows') (user : Uuid) :
    deposits rows user = deposits rows' user :=
  ((h.filter _).map _).sum_eq

/-- The first callback that finds the transaction pending settles it. -/
theorem CreditedOnce.append_closed (h : CreditedOnce body db₀ commits db)
    (hread : readCallback (body i) = .ok callback) (hid : callback.checkoutId = .str checkoutId)
    {txn : MpesaTransaction} (htxn : db.transaction checkoutId = some txn)
    (hpending : txn.status = .pending) {columns : CallbackColumns}
    (hresult : columns.resultCode = some callback.resultCode)
    (hclosed : ClosedTransaction txn columns (callback.resultCode = 0) db db') :
    CreditedOnce body db₀ (commits ++ [i]) db' := by
  obtain ⟨txn₀, htxn₀⟩ : ∃ txn₀, db₀.transaction checkoutId = some txn₀ := by
    refine Option.ne_none_iff_exists'.mp fun hnone => ?_
    rw [h.unknown _ hnone] at htxn
    contradiction
  obtain ⟨row, hrow, hsettled⟩ := h.settled _ _ htxn₀
  obtain rfl := Option.some.inj (htxn.symm.trans hrow)
  obtain ⟨rfl, hfirst⟩ := hsettled.of_pending hpending
  obtain ⟨hmem, rfl⟩ := Database.transaction_eq_some_iff.mp htxn₀
  have hname : ∀ id, names (body i) id ↔ txn.checkoutRequestId = id := names_iff hread hid
  have hfirst' : firstFor body (commits ++ [i]) txn.checkoutRequestId = some i := by
    rw [firstFor_append, hfirst, if_pos ((hname _).mpr rfl)]
    rfl
  have hothers : ∀ r : MpesaTransaction, r.checkoutRequestId ≠ txn.checkoutRequestId →
      firstFor body (commits ++ [i]) r.checkoutRequestId =
        firstFor body commits r.checkoutRequestId :=
    fun r hr => firstFor_append_of_closed (Or.inl fun hi => hr ((hname _).mp hi).symm)
  have hcredited : isCredited body (commits ++ [i]) txn = (callback.resultCode = 0 : Bool) := by
    simp [isCredited, hpending, hfirst', reportsSuccess, hread]
  have hrows : (db₀.transactions.rows.filter (isCredited body (commits ++ [i]))).Perm
      (db₀.transactions.rows.filter (isCredited body commits) ++
        if callback.resultCode = 0 then [txn] else []) := by
    have hbefore : isCredited body commits txn = false := by simp [isCredited, hfirst]
    have hperm : (db₀.transactions.rows.filter (isCredited body (commits ++ [i]))).Perm
        (db₀.transactions.rows.filter (isCredited body commits) ++
          if isCredited body (commits ++ [i]) txn then [txn] else []) :=
      Table.filter_perm hmem hbefore fun r _ hr => isCredited_congr fun _ => hothers r hr
    simpa [hcredited] using hperm
  have htransaction := Database.transaction_of_rows hclosed.transactions
  refine ⟨hclosed.users.trans h.users, hclosed.bets.trans h.bets, fun id hnone => ?_,
    fun id r hr => ?_, ?_, fun user => ?_⟩
  · rw [htransaction, h.unknown id hnone]
    rfl
  · obtain ⟨row, hrow, hsettled⟩ := h.settled id r hr
    obtain ⟨-, rfl⟩ := Database.transaction_eq_some_iff.mp hr
    rw [htransaction, hrow]
    by_cases hsame : r.checkoutRequestId = txn.checkoutRequestId
    · rw [hsame] at hr hrow
      obtain rfl := Option.some.inj (htxn₀.symm.trans hr)
      obtain rfl := Option.some.inj (htxn.symm.trans hrow)
      refine ⟨txn.write columns, by simp, ?_⟩
      rw [Settled, if_pos hpending, hfirst']
      exact ⟨callback, columns, hread, rfl, by simpa using hclosed.status, hresult⟩
    · refine ⟨row, by simp [hsame], hsettled.congr fun _ => hothers r hsame⟩
  · rw [hclosed.ledger]
    refine (h.ledger.append_right _).trans ?_
    rw [List.append_assoc]
    refine List.Perm.append_left _ ?_
    refine (List.Perm.of_eq ?_).trans (hrows.map depositRow).symm
    rw [List.map_append]
    split <;> simp_all
  · rw [hclosed.balance, h.balance, deposits_perm hrows]
    by_cases hcode : callback.resultCode = 0
    · simp only [hcode, if_true, decide_true, true_and, deposits_append]
      split
      · simp [Function.comp_def, Int.add_assoc]
      · simp
    · simp [hcode]

/-- Every acknowledged callback keeps the account of what the callbacks have done. -/
theorem CreditedOnce.append (h : CreditedOnce body db₀ commits db)
    (hi : acknowledge pyRepr (body i) db = some db') :
    CreditedOnce body db₀ (commits ++ [i]) db' := by
  obtain ⟨callback, hread, happly⟩ := acknowledge_eq_some hi
  obtain ⟨checkoutId, hid, -, ⟨rfl, hclosed⟩ | ⟨txn, columns, htxn, hpending, hresult, hclosed⟩⟩ :=
    applyCallback_eq_ok happly
  · exact h.append_unchanged hread hid hclosed
  · exact h.append_closed hread hid htxn hpending hresult hclosed

/-- Callbacks one after another credit every deposit once. -/
theorem CreditedOnce.of_serial
    (h : serial (fun i => acknowledge pyRepr (body i)) db₀ commits = some db) :
    CreditedOnce body db₀ commits db := by
  have hinit : CreditedOnce body db₀ [] db₀ := by
    have hnone : db₀.transactions.rows.filter (isCredited body []) = [] := by
      simp [isCredited, firstFor]
    refine ⟨rfl, rfl, fun _ => id, fun id txn htxn => ⟨txn, htxn, ?_⟩, ?_, fun user => ?_⟩
    · unfold Settled
      split <;> simp_all [firstFor]
    · simp [hnone]
    · simp [hnone, deposits]
  refine serial_invariant ?_ (fun hdone hi => ?_) h
  · exact hinit
  · exact hdone.append hi

/-- An acknowledged callback changes the database only as the first one for a transaction
recorded as pending. -/
theorem CreditedOnce.changes (h : CreditedOnce body db₀ commits db)
    (hi : acknowledge pyRepr (body i) db = some db') :
    db' = db ∨ ∃ id txn, names (body i) id ∧ db₀.transaction id = some txn ∧
      txn.status = .pending ∧ firstFor body commits id = none := by
  obtain ⟨callback, hread, happly⟩ := acknowledge_eq_some hi
  obtain ⟨id, hid, -, ⟨rfl, -⟩ | ⟨txn, columns, htxn, hpending, -, -⟩⟩ :=
    applyCallback_eq_ok happly
  · exact Or.inl rfl
  · cases hrecorded : db₀.transaction id with
    | none =>
        rw [h.unknown id hrecorded] at htxn
        contradiction
    | some txn₀ =>
        obtain ⟨row, hrow, hsettled⟩ := h.settled id txn₀ hrecorded
        obtain rfl := Option.some.inj (htxn.symm.trans hrow)
        obtain ⟨rfl, hfirst⟩ := hsettled.of_pending hpending
        obtain ⟨-, rfl⟩ := Database.transaction_eq_some_iff.mp hrecorded
        exact Or.inr ⟨_, txn, (names_iff hread hid _).mpr rfl, hrecorded, hpending, hfirst⟩

/-- `SUCCESS` and `FAILED` are never left. -/
theorem acknowledge_closed (hi : acknowledge pyRepr (body i) db = some db') {id : String}
    {txn : MpesaTransaction} (htxn : db.transaction id = some txn) (hclosed : txn.status ≠ .pending) :
    db'.transaction id = some txn := by
  obtain ⟨callback, hread, happly⟩ := acknowledge_eq_some hi
  obtain ⟨id', -, -, ⟨rfl, -⟩ | ⟨txn', columns, htxn', hpending, -, hwritten⟩⟩ :=
    applyCallback_eq_ok happly
  · exact htxn
  · have hne : id ≠ txn'.checkoutRequestId := by
      rintro rfl
      obtain ⟨-, rfl⟩ := Database.transaction_eq_some_iff.mp htxn'
      obtain rfl := Option.some.inj (htxn.symm.trans htxn')
      exact hclosed hpending
    rw [Database.transaction_of_rows hwritten.transactions, htxn]
    simp [hne]

end Append

/-- For every database, any callbacks and every interleaving of their handlings: the
committed database is the one that the acknowledged handlings leave alone, so those that
raised have left nothing.  A pending transaction is closed by the first acknowledged
callback for it, and its amount credited once when that callback reports success; every
other callback leaves the database as it is. -/
theorem payments_credited_once [Fintype ι] [DecidableEq ι] {pyRepr : Json → String}
    {body : ι → List (String × Json)} {db₀ : Database} {s : Handlings ι}
    (hrun : Reachable (step pyRepr body) (Handlings.start db₀) s) :
    s.commits.Nodup ∧ (∀ i, i ∈ s.commits ↔ (s.calls i).phase = .acknowledged) ∧
      serial (fun i => acknowledge pyRepr (body i)) db₀ s.commits = some s.db ∧
      CreditedOnce body db₀ s.commits s.db ∧
      ∀ label s', step pyRepr body s label = some s' →
        (s'.db = s.db ∨ (s'.commits = s.commits ++ [label.1] ∧
          ∃ id txn, names (body label.1) id ∧ db₀.transaction id = some txn ∧
            txn.status = .pending ∧ firstFor body s.commits id = none)) ∧
        ∀ id txn, s.db.transaction id = some txn → txn.status ≠ .pending →
          s'.db.transaction id = some txn := by
  have h := serialized_of_run hrun
  have honce := CreditedOnce.of_serial h.serial
  refine ⟨h.nodup, h.committed, h.serial, honce, fun label s' hstep => ?_⟩
  obtain ⟨outcome, hact, rfl⟩ := Option.map_eq_some_iff.mp hstep
  cases outcome with
  | moved call => exact ⟨Or.inl rfl, fun id txn htxn _ => htxn⟩
  | committed call db =>
      have hi := ((handlings_serialize pyRepr body).committed h.consistent h.apart hact).1
      refine ⟨?_, fun id txn htxn hclosed => acknowledge_closed hi htxn hclosed⟩
      rcases honce.changes hi with hsame | hfirst
      · exact Or.inl hsame
      · exact Or.inr ⟨rfl, hfirst⟩

/-- User 7 has an empty wallet and a pending deposit of 50. -/
def sampleDeposit : Database where
  users := ⟨[⟨7, "user-00000000"⟩], by decide, by simp⟩
  wallets := ⟨[⟨7, 0⟩], by decide, by simp⟩
  bets := .empty
  ledger := .empty
  transactions :=
    ⟨[⟨"ws_CO_1", none, 7, "254712345678", 50, .pending, none, none, none⟩], by decide, by simp⟩
  wallet_user := by decide
  bet_user := by simp [Table.empty]
  ledger_user := by simp [Table.empty]
  transaction_user := by decide

/-- A callback for the deposit with a result code. -/
def sampleCallback (code : Int) : List (String × Json) :=
  [("Body", .dict [("stkCallback",
    .dict [("CheckoutRequestID", .str "ws_CO_1"), ("ResultCode", .int code)])])]

/-- The success and the contradicting cancellation are handled at once; the cancellation
waits for the row and finds it closed. -/
theorem payments_credited_once_contradiction :
    ∃ s, Reachable (step (fun _ => "") fun second : Bool => sampleCallback (if second then 1032 else 0))
        (Handlings.start sampleDeposit) s ∧
      s.commits = [false, true] ∧ s.db.balance 7 = some 5000 ∧
      CreditedOnce (fun second : Bool => sampleCallback (if second then 1032 else 0)) sampleDeposit
        [false, true] s.db := by
  have hexec : (([(false, .run), (false, .run), (false, .run), (false, .run), (true, .run),
      (true, .run)] : List (Bool × Move)).foldlM
      (step (fun _ => "") fun second : Bool => sampleCallback (if second then 1032 else 0))
      (Handlings.start sampleDeposit)).map (fun s => (s.commits, s.db.balance 7)) =
      some ([false, true], some 5000) := by
    decide +kernel
  obtain ⟨s, hs, hvalues⟩ := Option.map_eq_some_iff.mp hexec
  obtain ⟨hcommits, hbalance⟩ := Prod.mk.inj hvalues
  have hrun := Reaches.of_foldlM hs
  have honce := (payments_credited_once hrun).2.2.2.1
  rw [hcommits] at honce
  exact ⟨s, hrun, hcommits, hbalance, honce⟩

end CallbackRaces
end Settlement
end BettingPlatform
