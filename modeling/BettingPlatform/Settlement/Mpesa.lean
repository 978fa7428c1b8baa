import BettingPlatform.Settlement.Worker

/-!
# M-Pesa deposits

`stk_push_deposit` makes sure user and wallet exist, asks the gateway for a push and
records a pending transaction; `mpesa_stk_callback` closes the transaction and credits
the wallet when the payment went through.

The push is two database transactions with the gateway call between them.  What the
gateway answered is an argument here; the texts Python gives to floats, lists and
dictionaries are a parameter.

Main results:

- Theorem `applyCallback_eq_ok`: everything an acknowledged callback can do.
-/

namespace BettingPlatform
namespace Settlement

open Python

/-! ## The push -/

/-- `MpesaDepositRequest`, without the two texts that only the gateway reads. -/
structure MpesaDepositRequest where
  userId : Uuid
  phoneNumber : String
  amount : Int
  phoneNumber_length : 12 ≤ phoneNumber.length ∧ phoneNumber.length ≤ 15
  amount_pos : 0 < amount

/-- A deposit of 50 by user 7. -/
def sampleDepositRequest : MpesaDepositRequest :=
  ⟨7, "254712345678", 50, by decide, by decide⟩

/-- `MpesaStkPushResponse`. -/
structure MpesaStkPushResponse where
  checkoutRequestId : String
  merchantRequestId : Option String
  customerMessage : Json
  responseCode : String
  responseDescription : String
  status : MpesaTransactionStatus

/-- A value bound to a text parameter: the driver takes strings only. -/
def textParameter : Json → Except SqlError String
  | .str s => if IsText s then .ok s else .error .dataError
  | _ => .error .dataError

/-- A value bound to a nullable text parameter. -/
def nullableTextParameter : Json → Except SqlError (Option String)
  | .null => .ok none
  | x => (textParameter x).map some

/-- The balance `stk_push_deposit` opens a wallet with. -/
def depositOpeningCents : Int := 0

/-- The first transaction of `stk_push_deposit`. -/
def stkPushUpsert (payload : MpesaDepositRequest) (db : Database) : Except Raised Database := do
  let db ← sql (upsertUser db payload.userId)
  sql (upsertWallet db payload.userId depositOpeningCents)

/-- The row of `mpesa_transactions` a push becomes. -/
def MpesaDepositRequest.transaction (payload : MpesaDepositRequest) (checkoutRequestId : String)
    (merchantRequestId : Option String) : MpesaTransaction where
  checkoutRequestId := checkoutRequestId
  merchantRequestId := merchantRequestId
  userId := payload.userId
  phoneNumber := payload.phoneNumber
  amount := payload.amount
  status := .pending
  resultCode := none
  resultDesc := none
  mpesaReceiptNumber := none

section Gateway

variable (pyRepr : Json → String)

/-- The part of `stk_push_deposit` behind the gateway call, with its second
transaction.  The response model's check of `customer_message` comes after the commit
and is left out. -/
def stkPushRecord (payload : MpesaDepositRequest) (gateway : Json) (db : Database) :
    Except Raised (MpesaStkPushResponse × Database) := do
  let get (key : String) (default : Json) : Except Raised Json :=
    (gateway.get key default).mapError .python
  let responseCode := (← get "ResponseCode" (.str "")).toStr pyRepr
  let checkoutRequestId ← get "CheckoutRequestID" .null
  if responseCode ≠ "0" ∨ ¬ checkoutRequestId.truthy then
    .error (.httpException 502 (.dict
      [("message", .str "Safaricom rejected STK Push"),
        ("response_code", .str responseCode),
        ("response_description", ← get "ResponseDescription" .null),
        ("gateway", gateway)]))
  else
    let merchantRequestId ← sql (nullableTextParameter (← get "MerchantRequestID" .null))
    let checkoutRequestId ← sql (textParameter checkoutRequestId)
    let db ← sql (db.insertTransaction (payload.transaction checkoutRequestId merchantRequestId))
    .ok
      ({ checkoutRequestId, merchantRequestId
         customerMessage := ← get "CustomerMessage" .null
         responseCode
         responseDescription := (← get "ResponseDescription" (.str "")).toStr pyRepr
         status := .pending }, db)

/-! ## The callback -/

/-- `MpesaCallbackAck`. -/
structure MpesaCallbackAck where
  resultCode : Int := 0
  resultDesc : String := "Accepted"
deriving DecidableEq, Repr

/-- What the handler reads from the body before its transaction. -/
structure StkCallback where
  checkoutId : Json
  resultCode : Int
  resultDesc : Json
  stkCallback : Json

/-- `body["Body"]["stkCallback"]`. -/
def stkCallbackOf (body : List (String × Json)) : Option Json :=
  match body.lookup "Body" with
  | some (.dict inner) => inner.lookup "stkCallback"
  | _ => none

/-- The part of `mpesa_stk_callback` before its transaction. -/
def readCallback (body : List (String × Json)) : Except Raised StkCallback :=
  match stkCallbackOf body with
  | none => .error (.httpException 400 (.str "Invalid M-Pesa callback payload"))
  | some stkCallback => do
      let checkoutId ← (stkCallback.get "CheckoutRequestID" .null).mapError .python
      if ¬ checkoutId.truthy then
        .error (.httpException 400 (.str "Missing CheckoutRequestID"))
      else
        let code ← (stkCallback.get "ResultCode" (.int (-1))).mapError .python
        let resultCode ← code.toInt.mapError .python
        let resultDesc ← (stkCallback.get "ResultDesc" .null).mapError .python
        .ok { checkoutId, resultCode, resultDesc, stkCallback }

/-- The loop of `_metadata_value`. -/
def scanMetadata (name : String) : List Json → Except PyError (Option String)
  | [] => .ok none
  | item :: items => do
      if (← item.get "Name" .null).isStr name then
        match ← item.get "Value" .null with
        | .null => .ok none
        | value => .ok (some (value.toStr pyRepr))
      else scanMetadata name items

/-- `_metadata_value`.  Iterating over a string or a dictionary yields strings, which
have no `get`. -/
def metadataValue (metadata : Json) (name : String) : Except PyError (Option String) :=
  if ¬ metadata.truthy then .ok none
  else
    match metadata with
    | .list items => scanMetadata pyRepr name items
    | .str _ | .dict _ => .error .attributeError
    | _ => .error .typeError

/-- The receipt number of a successful callback. -/
def receiptOf (stkCallback : Json) : Except PyError (Option String) := do
  let metadata ← stkCallback.get "CallbackMetadata" (.dict [])
  metadataValue pyRepr (← metadata.get "Item" .null) "MpesaReceiptNumber"

/-- The columns the handler writes on the pending transaction. -/
def callbackColumns (callback : StkCallback) (status : MpesaTransactionStatus)
    (mpesaReceiptNumber : Option String) : Except SqlError CallbackColumns := do
  let resultDesc ← nullableTextParameter callback.resultDesc
  .ok { status, resultCode := some callback.resultCode, resultDesc, mpesaReceiptNumber }

/-- The row of `wallet_ledger` for a deposit. -/
def depositRow (txn : MpesaTransaction) : WalletLedger where
  userId := txn.userId
  amountCents := txn.amount * 100
  type := .deposit
  referenceId := txn.checkoutRequestId

/-- The credit of a successful payment. -/
def creditWallet (txn : MpesaTransaction) (db : Database) : Except Raised Database := do
  let wallet := Database.walletWhere txn.userId fun _ => true
  let credited ← sql (db.updateWallets wallet fun balance => balance + txn.amount * 100)
  if db.rowcount wallet ≠ 1 then
    .error (.httpException 404 (.str ("Wallet not found for user_id=" ++ txn.userId.text)))
  else .ok credited

/-- What the block writes when it ends: the session does not flush before. -/
def flushCallback (txn : MpesaTransaction) (callback : StkCallback)
    (status : MpesaTransactionStatus) (receipt : Option String) (ledger : Option WalletLedger)
    (db : Database) : Except SqlError Database := do
  let columns ← callbackColumns callback status receipt
  let db ← db.writeTransaction txn.checkoutRequestId columns
  match ledger with
  | none => .ok db
  | some row => db.insertLedger row

/-- The transaction of `mpesa_stk_callback`. -/
def applyCallback (callback : StkCallback) (db : Database) : Except Raised Database := do
  let checkoutId ← sql (textParameter callback.checkoutId)
  match db.transaction checkoutId with
  | none => .ok db
  | some txn =>
      if txn.status ≠ .pending then .ok db
      else if callback.resultCode = 0 then do
        let receipt ← (receiptOf pyRepr callback.stkCallback).mapError .python
        let db ← creditWallet txn db
        sql (flushCallback txn callback .success receipt (some (depositRow txn)) db)
      else sql (flushCallback txn callback .failed txn.mpesaReceiptNumber none db)

/-- `mpesa_stk_callback`. -/
def mpesaStkCallback (body : List (String × Json)) (db : Database) :
    Except Raised (MpesaCallbackAck × Database) := do
  let callback ← readCallback body
  let db ← applyCallback pyRepr callback db
  .ok ({}, db)

/-! ## What a callback does -/

/-- Everything a callback that closes a pending transaction has done; `paid` says
whether its result code was 0. -/
structure ClosedTransaction (txn : MpesaTransaction) (columns : CallbackColumns) (paid : Bool)
    (db db' : Database) : Prop where
  users : db'.users = db.users
  bets : db'.bets = db.bets
  status : columns.status = if paid then .success else .failed
  transactions : db'.transactions.rows = db.transactions.rows.map fun r =>
    if r.checkoutRequestId = txn.checkoutRequestId then r.write columns else r
  ledger : db'.ledger.rows = db.ledger.rows ++ if paid then [depositRow txn] else []
  balance : ∀ user, db'.balance user =
    if paid ∧ user = txn.userId then (db.balance user).map fun b => b + txn.amount * 100
    else db.balance user
  balance_isSome : paid → (db.balance txn.userId).isSome

variable {pyRepr : Json → String} {callback : StkCallback} {db db' : Database}

/-- A text parameter takes the texts that PostgreSQL stores. -/
theorem textParameter_eq_ok_iff {x : Json} {s : String} :
    textParameter x = .ok s ↔ x = .str s ∧ IsText s := by
  cases x with
  | str t =>
      simp only [textParameter, Json.str.injEq]
      split
      · rename_i htext
        rw [Except.ok.injEq]
        constructor
        · rintro rfl
          exact ⟨rfl, htext⟩
        · exact fun h => h.1
      · rename_i htext
        constructor
        · intro h
          contradiction
        · rintro ⟨rfl, h⟩
          exact absurd h htext
  | _ => simp [textParameter]

/-- The columns repeat the callback. -/
theorem callbackColumns_eq_ok {status : MpesaTransactionStatus} {receipt : Option String}
    {columns : CallbackColumns} (h : callbackColumns callback status receipt = .ok columns) :
    columns.status = status ∧ columns.resultCode = some callback.resultCode := by
  obtain ⟨desc, -, h⟩ := bind_eq_ok_iff.mp h
  obtain rfl := Except.ok.inj h
  exact ⟨rfl, rfl⟩

/-- A credit adds the amount to an existing wallet. -/
theorem creditWallet_eq_ok {txn : MpesaTransaction} (h : creditWallet txn db = .ok db') :
    (db.balance txn.userId).isSome ∧
      (∀ user, db'.balance user =
        if user = txn.userId then (db.balance user).map fun b => b + txn.amount * 100
        else db.balance user) ∧
      db'.users = db.users ∧ db'.bets = db.bets ∧ db'.ledger = db.ledger ∧
      db'.transactions = db.transactions := by
  obtain ⟨credited, hcredit, h⟩ := bind_eq_ok_iff.mp h
  rw [sql_eq_ok_iff] at hcredit
  split at h
  · contradiction
  · rename_i hcount
    obtain rfl := Except.ok.inj h
    rw [Database.rowcount_walletWhere, ne_eq, not_not] at hcount
    refine ⟨?_, fun user => ?_, (Database.updateWallets_eq_ok_iff.mp hcredit).2⟩
    · cases hbalance : db.balance txn.userId with
      | none => simp [hbalance] at hcount
      | some amount => rfl
    · rw [Database.balance_updateWallets hcredit]
      split
      · rename_i huser
        subst huser
        simp
      · rfl

/-- The end of the block writes the transaction's columns, and the ledger row of a credit. -/
theorem flushCallback_eq_ok {txn : MpesaTransaction} {status : MpesaTransactionStatus}
    {receipt : Option String} {ledger : Option WalletLedger}
    (h : flushCallback txn callback status receipt ledger db = .ok db') :
    ∃ columns, callbackColumns callback status receipt = .ok columns ∧
      (db'.transactions.rows = db.transactions.rows.map fun r =>
        if r.checkoutRequestId = txn.checkoutRequestId then r.write columns else r) ∧
      db'.ledger.rows = db.ledger.rows ++ ledger.toList ∧ db'.users = db.users ∧
      db'.bets = db.bets ∧ db'.wallets = db.wallets := by
  obtain ⟨columns, hcolumns, h⟩ := bind_eq_ok_iff.mp h
  obtain ⟨db₁, hwrite, h⟩ := bind_eq_ok_iff.mp h
  obtain ⟨hupdate, husers₁, hwallets₁, hbets₁, hledger₁⟩ :=
    Database.writeTransaction_eq_ok_iff.mp hwrite
  have hrows := Table.update_rows hupdate
  simp only [Table.updatedRows, decide_eq_true_eq] at hrows
  refine ⟨columns, hcolumns, ?_⟩
  cases ledger with
  | none =>
      obtain rfl := Except.ok.inj h
      exact ⟨hrows, by simp [hledger₁], husers₁, hbets₁, hwallets₁⟩
  | some row =>
      obtain ⟨hledger₂, -, husers₂, hwallets₂, hbets₂, htransactions₂⟩ :=
        Database.insertLedger_eq_ok_iff.mp h
      refine ⟨?_, ?_, ?_, ?_, ?_⟩
      · rw [htransactions₂, hrows]
      · rw [Table.insert_rows hledger₂, hledger₁]
        rfl
      · rw [husers₂, husers₁]
      · rw [hbets₂, hbets₁]
      · rw [hwallets₂, hwallets₁]

/-- A recorded push is a pending transaction with the gateway's checkout request id. -/
theorem stkPushRecord_eq_ok {payload : MpesaDepositRequest} {gateway : Json}
    {response : MpesaStkPushResponse}
    (h : stkPushRecord pyRepr payload gateway db = .ok (response, db')) :
    ∃ checkoutId merchantId,
      gateway.get "CheckoutRequestID" .null = .ok (.str checkoutId) ∧ checkoutId ≠ "" ∧
        response.checkoutRequestId = checkoutId ∧
        db.insertTransaction (payload.transaction checkoutId merchantId) = .ok db' := by
  obtain ⟨code, -, h⟩ := bind_eq_ok_iff.mp h
  obtain ⟨checkout, hcheckout, h⟩ := bind_eq_ok_iff.mp h
  split at h
  · obtain ⟨_, -, h⟩ := bind_eq_ok_iff.mp h
    contradiction
  · rename_i haccepted
    simp only [bind_eq_ok_iff, sql_eq_ok_iff, textParameter_eq_ok_iff] at h
    obtain ⟨_, -, merchantId, -, checkoutId, ⟨rfl, -⟩, db₁, hinsert, _, -, _, -, h⟩ := h
    obtain ⟨rfl, rfl⟩ := Prod.mk.inj (Except.ok.inj h)
    refine ⟨checkoutId, merchantId, ?_, ?_, rfl, hinsert⟩
    · cases hget : gateway.get "CheckoutRequestID" .null with
      | error e => simp [hget, Except.mapError] at hcheckout
      | ok x => simpa [hget, Except.mapError] using hcheckout
    · rintro rfl
      simp [Json.truthy] at haccepted

/-- A callback that names no pending transaction changes nothing. -/
theorem applyCallback_of_not_pending {checkoutId : String}
    (hid : callback.checkoutId = .str checkoutId) (htext : IsText checkoutId)
    (hclosed : ∀ txn, db.transaction checkoutId = some txn → txn.status ≠ .pending) :
    applyCallback pyRepr callback db = .ok db := by
  have hparam : textParameter callback.checkoutId = .ok checkoutId :=
    textParameter_eq_ok_iff.mpr ⟨hid, htext⟩
  unfold applyCallback
  simp only [hparam, sql, bind, Except.bind]
  split
  · rfl
  · rename_i txn htxn
    rw [if_pos (hclosed txn htxn)]

/-- Everything an acknowledged callback can do: nothing, when its id names no pending
transaction, or close the pending transaction with that id. -/
theorem applyCallback_eq_ok (h : applyCallback pyRepr callback db = .ok db') :
    ∃ checkoutId, callback.checkoutId = .str checkoutId ∧ IsText checkoutId ∧
      ((db' = db ∧ ∀ txn, db.transaction checkoutId = some txn → txn.status ≠ .pending) ∨
        ∃ txn columns, db.transaction checkoutId = some txn ∧ txn.status = .pending ∧
          columns.resultCode = some callback.resultCode ∧
          ClosedTransaction txn columns (callback.resultCode = 0) db db') := by
  obtain ⟨checkoutId, hparam, h⟩ := bind_eq_ok_iff.mp h
  obtain ⟨hid, htext⟩ := textParameter_eq_ok_iff.mp (sql_eq_ok_iff.mp hparam)
  refine ⟨checkoutId, hid, htext, ?_⟩
  split at h
  · rename_i hnone
    left
    obtain rfl := Except.ok.inj h
    exact ⟨rfl, by simp [hnone]⟩
  · rename_i txn htxn
    split at h
    · rename_i hclosed
      left
      obtain rfl := Except.ok.inj h
      refine ⟨rfl, fun txn' htxn' => ?_⟩
      obtain rfl := Option.some.inj (htxn.symm.trans htxn')
      exact hclosed
    · rename_i hpending
      right
      have hstatus : txn.status = .pending := not_not.mp hpending
      split at h
      · rename_i hcode
        obtain ⟨receipt, -, h⟩ := bind_eq_ok_iff.mp h
        obtain ⟨db₁, hcredit, hflush⟩ := bind_eq_ok_iff.mp h
        obtain ⟨hsome, hbalance, husers₁, hbets₁, hledger₁, htransactions₁⟩ :=
          creditWallet_eq_ok hcredit
        obtain ⟨columns, hcolumns, hrows, hledger, husers, hbets, hwallets⟩ :=
          flushCallback_eq_ok (sql_eq_ok_iff.mp hflush)
        obtain ⟨hnew, hresult⟩ := callbackColumns_eq_ok hcolumns
        refine ⟨txn, columns, htxn, hstatus, hresult, ?_⟩
        refine ⟨husers.trans husers₁, hbets.trans hbets₁, by simpa [hcode] using hnew, ?_, ?_,
          fun user => ?_, fun _ => hsome⟩
        · rw [hrows, htransactions₁]
        · simp [hledger, hledger₁, hcode]
        · rw [Database.balance_eq_of_wallets hwallets, hbalance]
          simp [hcode]
      · rename_i hcode
        obtain ⟨columns, hcolumns, hrows, hledger, husers, hbets, hwallets⟩ :=
          flushCallback_eq_ok (sql_eq_ok_iff.mp h)
        obtain ⟨hnew, hresult⟩ := callbackColumns_eq_ok hcolumns
        refine ⟨txn, columns, htxn, hstatus, hresult, ?_⟩
        refine ⟨husers, hbets, by simpa [hcode] using hnew, hrows, by simp [hledger, hcode],
          fun user => ?_, fun hpaid => ?_⟩
        · rw [Database.balance_eq_of_wallets hwallets]
          simp [hcode]
        · simp [hcode] at hpaid

end Gateway

end Settlement
end BettingPlatform
