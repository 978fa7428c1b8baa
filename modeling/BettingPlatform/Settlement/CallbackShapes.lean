import BettingPlatform.Settlement.CallbackRuns
import BettingPlatform.Settlement.Settled

/-!
# Callbacks of any shape

The body of a callback is any JSON object.  The handler checks that the object has a
`stkCallback` with a checkout request id and reads the rest of it unchecked, partly inside its
transaction: an unexpected value ends it with an exception that is no HTTP error, and then a
payment that went through is not credited.

A text with a lone surrogate, which a `String` does not have, cannot be encoded for the driver
and fares as one with a NUL character.

Main results:

- Theorem `receiptOf_cases`: which metadata a receipt number can be looked up in.
- Theorem `applyCallback_cases`: which callbacks for a pending transaction run through.
- Theorem `handled_iff`: a body is handled as it should be exactly when it is well formed.
-/

namespace BettingPlatform
namespace Settlement
namespace CallbackShapes

open Python Schema CallbackRaces

/-! ## The endpoint -/

/-- A request to the endpoint: the acknowledgement or the exception, and the database, which an
exception leaves as it was. -/
def callbackRequest (pyRepr : Json → String) (body : List (String × Json)) (db : Database) :
    Except Raised MpesaCallbackAck × Database :=
  match mpesaStkCallback pyRepr body db with
  | .ok (ack, db') => (.ok ack, db')
  | .error e => (.error e, db)

/-- `items.get(key, default)` of a dictionary. -/
def field (items : List (String × Json)) (key : String) (default : Json) : Json :=
  (items.lookup key).getD default

/-- The body has no `stkCallback`, or this has no checkout request id. -/
def Malformed (body : List (String × Json)) : Prop :=
  stkCallbackOf body = none ∨
    ∃ stk, stkCallbackOf body = some (.dict stk) ∧
      (field stk "CheckoutRequestID" .null).truthy = false

/-- The body names a transaction and has a result code. -/
structure Names (body : List (String × Json)) (checkoutId : String) (code : Int) : Prop where
  named : ∃ stk, stkCallbackOf body = some (.dict stk) ∧
    field stk "CheckoutRequestID" .null = .str checkoutId ∧ checkoutId ≠ "" ∧
    (field stk "ResultCode" (.int (-1))).toInt = .ok code

/-- What the endpoint promises for a body and a database. -/
structure Handled (pyRepr : Json → String) (body : List (String × Json)) (db : Database) :
    Prop where
  ends : (∃ ack, (callbackRequest pyRepr body db).1 = .ok ack) ∨
    (Malformed body ∧
      ∃ detail, (callbackRequest pyRepr body db).1 = .error (.httpException 400 detail)) ∨
    ((∃ checkoutId txn, Names body checkoutId 0 ∧ db.transaction checkoutId = some txn ∧
        db.balance txn.userId = none) ∧
      ∃ detail, (callbackRequest pyRepr body db).1 = .error (.httpException 404 detail))
  unchanged : (∀ ack, (callbackRequest pyRepr body db).1 ≠ .ok ack) →
    (callbackRequest pyRepr body db).2 = db
  credited : ∀ checkoutId txn balance, Names body checkoutId 0 →
    db.transaction checkoutId = some txn → txn.status = .pending →
    db.balance txn.userId = some balance →
    (callbackRequest pyRepr body db).2.balance txn.userId = some (balance + txn.amount * 100)

/-! ## The shapes the handler can read -/

/-- The items of the metadata; none is a value that cannot be iterated over as items. -/
def metadataItems (stk : List (String × Json)) : Option (List Json) :=
  match field stk "CallbackMetadata" (.dict []) with
  | .dict metadata =>
      match field metadata "Item" .null with
      | .list items => some items
      | item => if item.truthy then none else some []
  | _ => none

/-- The items up to the first one with the name are dictionaries. -/
def ItemsReadable (name : String) : List Json → Prop
  | [] => True
  | .dict item :: items => (field item "Name" .null).isStr name = true ∨ ItemsReadable name items
  | _ :: _ => False

/-- The value of the first item with the name. -/
def itemValue (name : String) : List Json → Json
  | .dict item :: items =>
      if (field item "Name" .null).isStr name then field item "Value" .null
      else itemValue name items
  | _ => .null

/-- The receipt number in the items, as the handler writes it. -/
def receiptText (pyRepr : Json → String) (items : List Json) : Option String :=
  match itemValue "MpesaReceiptNumber" items with
  | .null => none
  | value => some (value.toStr pyRepr)

/-- A result description that the text column takes. -/
def IsDesc : Json → Prop
  | .null => True
  | .str s => IsText s
  | _ => False

/-- The callback can close the pending transaction: its metadata are readable, when it reports a
success, and its values fit the columns, unless the wallet is missing. -/
def Closable (pyRepr : Json → String) (stk : List (String × Json)) (code : Int)
    (txn : MpesaTransaction) (db : Database) : Prop :=
  if code = 0 then
    ∃ items, metadataItems stk = some items ∧ ItemsReadable "MpesaReceiptNumber" items ∧
      ∀ balance ∈ db.balance txn.userId,
        (0 ≤ balance + txn.amount * 100 ∧ balance + txn.amount * 100 < 2 ^ 63) ∧
          IsDesc (field stk "ResultDesc" .null) ∧
          ∀ receipt ∈ receiptText pyRepr items, IsVarchar 32 receipt
  else IsDesc (field stk "ResultDesc" .null) ∧ IsInteger code

/-- The result code is a number, the checkout request id a text, and the callback can close the
pending transaction of that id, if there is one. -/
def Readable (pyRepr : Json → String) (stk : List (String × Json)) (db : Database) : Prop :=
  ∃ code checkoutId, (field stk "ResultCode" (.int (-1))).toInt = .ok code ∧
    field stk "CheckoutRequestID" .null = .str checkoutId ∧ IsText checkoutId ∧
    ∀ txn, db.transaction checkoutId = some txn → txn.status = .pending →
      Closable pyRepr stk code txn db

/-- The body is one the handler can deal with on this database. -/
def WellFormed (pyRepr : Json → String) (body : List (String × Json)) (db : Database) : Prop :=
  match stkCallbackOf body with
  | none => True
  | some (.dict stk) =>
      (field stk "CheckoutRequestID" .null).truthy = false ∨ Readable pyRepr stk db
  | some _ => False

/-! ## The receipt number -/

/-- An exception that is no HTTP error. -/
def IsCrash (e : Raised) : Prop :=
  ∀ status detail, e ≠ .httpException status detail

theorem isCrash_python (e : PyError) : IsCrash (.python e) := by
  intro status detail h
  cases h

theorem isCrash_sql (e : SqlError) : IsCrash (.sql e) := by
  intro status detail h
  cases h

section Shapes

variable {pyRepr : Json → String} {stk : List (String × Json)} {db : Database}

/-- The scan of the items finds the value of the first one with the name, or meets an item it
cannot read. -/
theorem scanMetadata_cases (name : String) (items : List Json) :
    (ItemsReadable name items ∧ scanMetadata pyRepr name items =
        .ok (match itemValue name items with
          | .null => none
          | value => some (value.toStr pyRepr))) ∨
      (¬ ItemsReadable name items ∧ ∃ e, scanMetadata pyRepr name items = .error e) := by
  induction items with
  | nil => exact .inl ⟨trivial, rfl⟩
  | cons item items ih =>
      cases item with
      | dict item =>
          have hget : ∀ key, (Json.dict item).get key .null = .ok (field item key .null) :=
            fun _ => rfl
          simp only [scanMetadata, hget, bind, Except.bind, ItemsReadable, itemValue]
          by_cases hname : (field item "Name" .null).isStr name = true
          · rw [if_pos hname, if_pos hname]
            refine .inl ⟨.inl hname, ?_⟩
            cases field item "Value" .null <;> rfl
          · rw [if_neg hname, if_neg hname]
            simpa [hname] using ih
      | _ => exact .inr ⟨id, _, rfl⟩

/-- The receipt number is looked up in items that can be read, or the look-up crashes. -/
theorem receiptOf_cases (pyRepr : Json → String) (stk : List (String × Json)) :
    (∃ items, metadataItems stk = some items ∧ ItemsReadable "MpesaReceiptNumber" items ∧
        receiptOf pyRepr (.dict stk) = .ok (receiptText pyRepr items)) ∨
      ((¬ ∃ items, metadataItems stk = some items ∧ ItemsReadable "MpesaReceiptNumber" items) ∧
        ∃ e, receiptOf pyRepr (.dict stk) = .error e) := by
  have hreceipt : receiptOf pyRepr (.dict stk) =
      (field stk "CallbackMetadata" (.dict [])).get "Item" .null >>= fun item =>
        metadataValue pyRepr item "MpesaReceiptNumber" := rfl
  rw [hreceipt]
  unfold metadataItems
  cases field stk "CallbackMetadata" (.dict []) with
  | dict metadata =>
      have hitem : (Json.dict metadata).get "Item" .null = .ok (field metadata "Item" .null) := rfl
      rw [hitem, ok_bind]
      dsimp only
      generalize field metadata "Item" .null = item
      by_cases hempty : item.truthy = true
      · cases item with
        | list items =>
            have hscan : metadataValue pyRepr (.list items) "MpesaReceiptNumber" =
                scanMetadata pyRepr "MpesaReceiptNumber" items :=
              if_neg (not_not.mpr hempty)
            simp only [hscan, Option.some.injEq, exists_eq_left']
            exact scanMetadata_cases "MpesaReceiptNumber" items
        | _ => exact .inr ⟨by simp [hempty], _, if_neg (not_not.mpr hempty)⟩
      · have hnone : metadataValue pyRepr item "MpesaReceiptNumber" = .ok none :=
          if_pos hempty
        rw [hnone]
        refine .inl ⟨[], ?_, trivial, rfl⟩
        cases item with
        | list items => simpa [Json.truthy] using hempty
        | _ => simp [hempty]
  | _ => exact .inr ⟨by simp, _, rfl⟩

/-! ## The writes -/

/-- A description is bound when it is null or a text. -/
theorem nullableTextParameter_cases (x : Json) :
    (IsDesc x ∧ ∃ desc, nullableTextParameter x = .ok desc ∧ ∀ d ∈ desc, IsText d) ∨
      (¬ IsDesc x ∧ ∃ e, nullableTextParameter x = .error e) := by
  cases x with
  | null => exact .inl ⟨trivial, none, rfl, by simp⟩
  | str s =>
      by_cases htext : IsText s
      · exact .inl ⟨htext, some s,
          by simp [nullableTextParameter, textParameter, htext, Except.map], by simpa using htext⟩
      · exact .inr ⟨htext, .dataError,
          by simp [nullableTextParameter, textParameter, htext, Except.map]⟩
  | _ => exact .inr ⟨id, _, rfl⟩

variable {callback : StkCallback} {txn : MpesaTransaction}

/-- The end of the block writes the columns exactly when they hold the callback's values. -/
theorem flushCallback_isOk_iff {db₁ : Database} {status : MpesaTransactionStatus}
    {receipt : Option String} {ledger : Option WalletLedger}
    (hfound : db.transaction txn.checkoutRequestId = some txn)
    (hledger : ∀ row ∈ ledger, row = depositRow txn)
    (htransactions : db₁.transactions = db.transactions) (husers : db₁.users = db.users) :
    (∃ db', flushCallback txn callback status receipt ledger db₁ = .ok db') ↔
      IsDesc callback.resultDesc ∧ IsInteger callback.resultCode ∧
        ∀ r ∈ receipt, IsVarchar 32 r := by
  have hrow := (Database.transaction_eq_some_iff.mp hfound).1
  obtain ⟨hid, hmerchant, hphone, hamount, -, -, -⟩ := (db.transactions.checked txn hrow).1
  constructor
  · rintro ⟨db', hflush⟩
    obtain ⟨columns, hcolumns, hflush⟩ := bind_eq_ok_iff.mp hflush
    obtain ⟨db₂, hwrite, -⟩ := bind_eq_ok_iff.mp hflush
    obtain ⟨desc, hparam, hcolumns⟩ := bind_eq_ok_iff.mp hcolumns
    cases hcolumns
    have hstorable := ((Table.update_eq_ok_iff.mp
      (Database.writeTransaction_eq_ok_iff.mp hwrite).1).1 txn (htransactions ▸ hrow) (by simp)).1
    obtain ⟨-, -, -, -, hcode, -, hreceipt⟩ := hstorable
    obtain ⟨hdesc, -⟩ | ⟨-, e, herror⟩ := nullableTextParameter_cases callback.resultDesc
    · exact ⟨hdesc, hcode callback.resultCode rfl, hreceipt⟩
    · rw [hparam] at herror
      contradiction
  · rintro ⟨hdesc, hcode, hreceipt⟩
    obtain ⟨-, desc, hparam, htext⟩ | ⟨hno, -⟩ := nullableTextParameter_cases callback.resultDesc
    · have hcolumns : callbackColumns callback status receipt =
          .ok ⟨status, some callback.resultCode, desc, receipt⟩ := by
        rw [callbackColumns, hparam, ok_bind]
      have hstorable : Storable (txn.write ⟨status, some callback.resultCode, desc, receipt⟩) :=
        ⟨hid, hmerchant, hphone, hamount, by simpa [MpesaTransaction.write] using hcode, htext,
          hreceipt⟩
      have hdeposit : Storable (depositRow txn) := by
        refine ⟨?_, hid.1.trans (by norm_num), hid.2⟩
        simp only [depositRow, IsBigInteger, IsInteger] at hamount ⊢
        omega
      obtain ⟨-, db', -, -, hflush⟩ := exists_flushCallback hfound hcolumns hstorable
        (fun row hrow => hledger row hrow ▸ hdeposit) (fun row hrow => hledger row hrow ▸ rfl)
        htransactions husers
      exact ⟨db', hflush⟩
    · exact absurd hdesc hno

/-- A statement succeeds or ends the handler with an exception of the driver. -/
theorem sql_cases {α : Type} (x : Except SqlError α) :
    (∃ a, x = .ok a ∧ sql x = .ok a) ∨
      ((¬ ∃ a, x = .ok a) ∧ ∃ e, sql x = .error e ∧ IsCrash e) := by
  cases x with
  | ok a => exact .inl ⟨a, rfl, rfl⟩
  | error e => exact .inr ⟨by simp, .sql e, rfl, isCrash_sql e⟩

/-- The credit finds no wallet, or it succeeds, or the balance cannot take it. -/
theorem creditWallet_cases (txn : MpesaTransaction) (db : Database) :
    (db.balance txn.userId = none ∧
        ∃ detail, creditWallet txn db = .error (.httpException 404 detail)) ∨
      ∃ balance, db.balance txn.userId = some balance ∧
        (((0 ≤ balance + txn.amount * 100 ∧ balance + txn.amount * 100 < 2 ^ 63) ∧
            ∃ db₁, creditWallet txn db = .ok db₁) ∨
          (¬ (0 ≤ balance + txn.amount * 100 ∧ balance + txn.amount * 100 < 2 ^ 63) ∧
            ∃ e, creditWallet txn db = .error e ∧ IsCrash e)) := by
  have hcount := @Database.rowcount_walletWhere db txn.userId fun _ => true
  have hcredit := @exists_credit_iff db txn.userId (txn.amount * 100)
  unfold creditWallet
  cases hbalance : db.balance txn.userId with
  | none =>
      rw [hbalance] at hcount hcredit
      obtain ⟨db₁, hupdate⟩ := hcredit.mpr (by simp)
      refine .inl ⟨rfl, .str ("Wallet not found for user_id=" ++ txn.userId.text), ?_⟩
      simp only [hupdate, hcount]
      rfl
  | some balance =>
      rw [hbalance] at hcount hcredit
      refine .inr ⟨balance, rfl, ?_⟩
      rcases sql_cases (db.updateWallets (Database.walletWhere txn.userId fun _ => true)
        fun balance => balance + txn.amount * 100) with
        ⟨db₁, hupdate, hsql⟩ | ⟨hfails, e, hsql, hcrash⟩
      · refine .inl ⟨hcredit.mp ⟨db₁, hupdate⟩ balance rfl, db₁, ?_⟩
        simp only [hsql, hcount]
        rfl
      · refine .inr ⟨fun hrange => hfails (hcredit.mpr fun amount hamount => ?_), e, ?_, hcrash⟩
        · obtain rfl := Option.some.inj hamount
          exact hrange
        · simp only [hsql, error_bind]

/-- Of the callbacks for a pending transaction, those that can close it run through or find no
wallet, and the others crash. -/
theorem applyCallback_cases (pyRepr : Json → String) (callback : StkCallback)
    {checkoutId : String} (hid : callback.checkoutId = .str checkoutId)
    (htext : IsText checkoutId) (hstk : callback.stkCallback = .dict stk)
    (hdesc : callback.resultDesc = field stk "ResultDesc" .null)
    (htxn : db.transaction checkoutId = some txn) (hpending : txn.status = .pending) :
    (Closable pyRepr stk callback.resultCode txn db ∧
        ((∃ db', applyCallback pyRepr callback db = .ok db') ∨
          (callback.resultCode = 0 ∧ db.balance txn.userId = none ∧
            ∃ detail, applyCallback pyRepr callback db = .error (.httpException 404 detail)))) ∨
      (¬ Closable pyRepr stk callback.resultCode txn db ∧
        ∃ e, applyCallback pyRepr callback db = .error e ∧ IsCrash e) := by
  have hparam : sql (textParameter callback.checkoutId) = .ok checkoutId :=
    sql_eq_ok_iff.mpr (textParameter_eq_ok_iff.mpr ⟨hid, htext⟩)
  obtain rfl := (Database.transaction_eq_some_iff.mp htxn).2
  unfold applyCallback Closable
  rw [hparam, ok_bind, htxn, hstk, ← hdesc]
  simp only
  rw [if_neg (not_not.mpr hpending)]
  by_cases hcode : callback.resultCode = 0
  · rw [if_pos hcode, if_pos hcode]
    rcases receiptOf_cases pyRepr stk with ⟨items, hitems, hreadable, hreceipt⟩ |
      ⟨hunreadable, e, hreceipt⟩
    · have hstart : (receiptOf pyRepr (.dict stk)).mapError Raised.python =
          .ok (receiptText pyRepr items) := by
        rw [hreceipt]
        rfl
      simp only [hstart, ok_bind, hitems, Option.some.injEq, exists_eq_left', hreadable, true_and]
      rcases creditWallet_cases txn db with ⟨hnone, detail, hmissing⟩ |
        ⟨balance, hbalance, ⟨hrange, db₁, hcredit⟩ | ⟨hrange, e, hrefused, hcrash⟩⟩
      · rw [hmissing]
        exact .inl ⟨by simp [hnone], .inr ⟨hcode, hnone, detail, rfl⟩⟩
      · obtain ⟨-, -, husers, -, -, htransactions⟩ := creditWallet_eq_ok hcredit
        have hflush := @flushCallback_isOk_iff db callback txn db₁ .success
          (receiptText pyRepr items) (some (depositRow txn)) htxn (by simp) htransactions husers
        rw [hcredit, ok_bind]
        simp only [hbalance, Option.mem_def, Option.some.injEq, forall_eq', hrange, true_and]
        rcases sql_cases (flushCallback txn callback .success (receiptText pyRepr items)
          (some (depositRow txn)) db₁) with ⟨db', hwritten, hsql⟩ | ⟨hfails, e, hsql, hcrash⟩
        · obtain ⟨hisDesc, -, hfits⟩ := hflush.mp ⟨db', hwritten⟩
          exact .inl ⟨⟨hisDesc, hfits⟩, .inl ⟨db', hsql⟩⟩
        · refine .inr ⟨fun ⟨hisDesc, hfits⟩ => hfails (hflush.mpr ⟨hisDesc, ?_, hfits⟩), e, hsql,
            hcrash⟩
          rw [hcode]
          decide
      · rw [hrefused, error_bind]
        exact .inr ⟨fun h => hrange (h balance hbalance).1, e, rfl, hcrash⟩
    · rw [hreceipt]
      refine .inr ⟨fun ⟨items, hitems, hreadable, _⟩ => hunreadable ⟨items, hitems, hreadable⟩,
        .python e, rfl, isCrash_python e⟩
  · rw [if_neg hcode, if_neg hcode]
    have hflush := @flushCallback_isOk_iff db callback txn db .failed txn.mpesaReceiptNumber none
      htxn (by simp) rfl rfl
    rcases sql_cases (flushCallback txn callback .failed txn.mpesaReceiptNumber none db) with
      ⟨db', hwritten, hsql⟩ | ⟨hfails, e, hsql, hcrash⟩
    · obtain ⟨hisDesc, hinteger, -⟩ := hflush.mp ⟨db', hwritten⟩
      exact .inl ⟨⟨hisDesc, hinteger⟩, .inl ⟨db', hsql⟩⟩
    · refine .inr ⟨fun ⟨hisDesc, hinteger⟩ => hfails (hflush.mpr ⟨hisDesc, hinteger, ?_⟩), e, hsql,
        hcrash⟩
      exact (db.transactions.checked txn
        (Database.transaction_eq_some_iff.mp htxn).1).1.2.2.2.2.2.2

/-! ## Bodies -/

variable {body : List (String × Json)}

/-- What the handler reads from a dictionary. -/
theorem readCallback_dict (hstk : stkCallbackOf body = some (.dict stk)) :
    readCallback body =
      if ¬ (field stk "CheckoutRequestID" .null).truthy then
        .error (.httpException 400 (.str "Missing CheckoutRequestID"))
      else
        (field stk "ResultCode" (.int (-1))).toInt.mapError Raised.python >>= fun resultCode =>
          .ok
            { checkoutId := field stk "CheckoutRequestID" .null
              resultCode
              resultDesc := field stk "ResultDesc" .null
              stkCallback := .dict stk } := by
  unfold readCallback
  rw [hstk]
  rfl

/-- A body that is not read raises in front of the transaction. -/
theorem mpesaStkCallback_of_error {e : Raised} (h : readCallback body = .error e) :
    mpesaStkCallback pyRepr body db = .error e := by
  rw [mpesaStkCallback, h, error_bind]

/-- How the endpoint answers a body that it can deal with. -/
def Answered (pyRepr : Json → String) (body : List (String × Json)) (db : Database) : Prop :=
  (∃ ack db', mpesaStkCallback pyRepr body db = .ok (ack, db')) ∨
    (Malformed body ∧
      ∃ detail, mpesaStkCallback pyRepr body db = .error (.httpException 400 detail)) ∨
    ((∃ checkoutId txn, Names body checkoutId 0 ∧ db.transaction checkoutId = some txn ∧
        db.balance txn.userId = none) ∧
      ∃ detail, mpesaStkCallback pyRepr body db = .error (.httpException 404 detail))

/-- What makes a callback readable whose code and checkout request id can be read. -/
theorem readable_iff {code : Int} {checkoutId : String}
    (hcode : (field stk "ResultCode" (.int (-1))).toInt = .ok code)
    (hid : field stk "CheckoutRequestID" .null = .str checkoutId) (htext : IsText checkoutId) :
    Readable pyRepr stk db ↔
      ∀ txn, db.transaction checkoutId = some txn → txn.status = .pending →
        Closable pyRepr stk code txn db := by
  constructor
  · rintro ⟨code', checkoutId', hcode', hid', -, hclosable⟩
    obtain rfl := Except.ok.inj (hcode.symm.trans hcode')
    obtain rfl := Json.str.inj (hid.symm.trans hid')
    exact hclosable
  · intro hclosable
    exact ⟨code, checkoutId, hcode, hid, htext, hclosable⟩

/-- A callback that names a transaction is answered when it can be read, and crashes the handler
otherwise. -/
theorem named_cases (pyRepr : Json → String) (db : Database) {code : Int} {checkoutId : String}
    (hnames : Names body checkoutId code) (hstk : stkCallbackOf body = some (.dict stk))
    (htext : IsText checkoutId) :
    (Readable pyRepr stk db ∧ Answered pyRepr body db) ∨
      (¬ Readable pyRepr stk db ∧
        ∃ e, mpesaStkCallback pyRepr body db = .error e ∧ IsCrash e) := by
  obtain ⟨stk', hstk', hid, hne, hcode⟩ := hnames.named
  obtain rfl := Json.dict.inj (Option.some.inj (hstk'.symm.trans hstk))
  have htruthy : (Json.str checkoutId).truthy = true := by simpa [Json.truthy] using hne
  let callback : StkCallback :=
    ⟨.str checkoutId, code, field stk' "ResultDesc" .null, .dict stk'⟩
  have hrequest : mpesaStkCallback pyRepr body db =
      applyCallback pyRepr callback db >>= fun db' => .ok ({}, db') := by
    rw [mpesaStkCallback, readCallback_dict hstk, hid, hcode, if_neg (not_not.mpr htruthy)]
    rfl
  rw [readable_iff hcode hid htext]
  by_cases hopen : ∃ txn, db.transaction checkoutId = some txn ∧ txn.status = .pending
  · obtain ⟨txn, htxn, hpending⟩ := hopen
    rcases applyCallback_cases pyRepr callback rfl htext rfl rfl htxn hpending with
      ⟨hclosable, ⟨db', happly⟩ | ⟨hpaid, hnone, detail, happly⟩⟩ |
        ⟨hclosable, e, happly, hcrash⟩
    · refine .inl ⟨fun txn' htxn' _ => ?_, .inl ⟨{}, db', by rw [hrequest, happly, ok_bind]⟩⟩
      obtain rfl := Option.some.inj (htxn.symm.trans htxn')
      exact hclosable
    · obtain rfl : code = 0 := hpaid
      refine .inl ⟨fun txn' htxn' _ => ?_, .inr (.inr ⟨⟨checkoutId, txn, hnames, htxn, hnone⟩,
        detail, by rw [hrequest, happly, error_bind]⟩)⟩
      obtain rfl := Option.some.inj (htxn.symm.trans htxn')
      exact hclosable
    · exact .inr ⟨fun hall => hclosable (hall txn htxn hpending), e,
        by rw [hrequest, happly, error_bind], hcrash⟩
  · push Not at hopen
    have happly : applyCallback pyRepr callback db = .ok db :=
      applyCallback_of_not_pending rfl htext hopen
    refine .inl ⟨fun txn htxn hpending => absurd hpending (hopen txn htxn), ?_⟩
    exact .inl ⟨{}, db, by rw [hrequest, happly, ok_bind]⟩

/-- A callback with a checkout request id is answered when it can be read, and crashes the handler
otherwise. -/
theorem readable_cases (pyRepr : Json → String) (db : Database)
    (hstk : stkCallbackOf body = some (.dict stk))
    (htruthy : (field stk "CheckoutRequestID" .null).truthy = true) :
    (Readable pyRepr stk db ∧ Answered pyRepr body db) ∨
      (¬ Readable pyRepr stk db ∧ ∃ e, mpesaStkCallback pyRepr body db = .error e ∧ IsCrash e) := by
  have hread := readCallback_dict hstk
  rw [if_neg (not_not.mpr htruthy)] at hread
  cases hcode : (field stk "ResultCode" (.int (-1))).toInt with
  | error e =>
      rw [hcode] at hread
      refine .inr ⟨?_, .python e, mpesaStkCallback_of_error hread, isCrash_python e⟩
      rintro ⟨code, -, hcode', -⟩
      rw [hcode] at hcode'
      contradiction
  | ok code =>
      rw [hcode] at hread
      rcases sql_cases (textParameter (field stk "CheckoutRequestID" .null)) with
        ⟨checkoutId, hparam, -⟩ | ⟨hrefused, e, hsql, hcrash⟩
      · obtain ⟨hid, htext⟩ := textParameter_eq_ok_iff.mp hparam
        have hne : checkoutId ≠ "" := by simpa [hid, Json.truthy] using htruthy
        exact named_cases pyRepr db ⟨stk, hstk, hid, hne, hcode⟩ hstk htext
      · refine .inr ⟨?_, e, ?_, hcrash⟩
        · rintro ⟨-, checkoutId, -, hid, htext, -⟩
          exact hrefused ⟨checkoutId, textParameter_eq_ok_iff.mpr ⟨hid, htext⟩⟩
        · rw [mpesaStkCallback, hread]
          show (applyCallback pyRepr _ db >>= _) = _
          rw [applyCallback, hsql, error_bind, error_bind]

/-- A well-formed body is answered, any other one crashes the handler. -/
theorem mpesaStkCallback_cases (pyRepr : Json → String) (body : List (String × Json))
    (db : Database) :
    (WellFormed pyRepr body db ∧ Answered pyRepr body db) ∨
      (¬ WellFormed pyRepr body db ∧
        ∃ e, mpesaStkCallback pyRepr body db = .error e ∧ IsCrash e) := by
  unfold WellFormed
  cases hstk : stkCallbackOf body with
  | none =>
      have hread : readCallback body =
          .error (.httpException 400 (.str "Invalid M-Pesa callback payload")) := by
        rw [readCallback, hstk]
      exact .inl ⟨trivial, .inr (.inl ⟨.inl hstk, _, mpesaStkCallback_of_error hread⟩)⟩
  | some stkCallback =>
      cases stkCallback with
      | dict stk =>
          simp only
          have hread := readCallback_dict hstk
          by_cases htruthy : (field stk "CheckoutRequestID" .null).truthy = true
          · rcases readable_cases pyRepr db hstk htruthy with
              ⟨hreadable, hanswered⟩ | ⟨hunreadable, hcrash⟩
            · exact .inl ⟨.inr hreadable, hanswered⟩
            · exact .inr ⟨fun h => h.elim (by simp [htruthy]) hunreadable, hcrash⟩
          · rw [if_pos htruthy] at hread
            have hfalsy := Bool.eq_false_of_not_eq_true htruthy
            exact .inl ⟨.inl hfalsy,
              .inr (.inl ⟨.inr ⟨stk, hstk, hfalsy⟩, _, mpesaStkCallback_of_error hread⟩)⟩
      | _ =>
          refine .inr ⟨id, .python .attributeError, mpesaStkCallback_of_error ?_, isCrash_python _⟩
          rw [readCallback, hstk]
          rfl

/-! ## What the endpoint promises -/

theorem callbackRequest_of_ok {ack : MpesaCallbackAck} {db' : Database}
    (h : mpesaStkCallback pyRepr body db = .ok (ack, db')) :
    callbackRequest pyRepr body db = (.ok ack, db') := by
  rw [callbackRequest, h]

theorem callbackRequest_of_error {e : Raised} (h : mpesaStkCallback pyRepr body db = .error e) :
    callbackRequest pyRepr body db = (.error e, db) := by
  rw [callbackRequest, h]

/-- A malformed body names nothing. -/
theorem Malformed.not_names {checkoutId : String} {code : Int} (h : Malformed body) :
    ¬ Names body checkoutId code := by
  rintro ⟨stk, hstk, hid, hne, -⟩
  rcases h with hnone | ⟨stk', hstk', hfalsy⟩
  · rw [hnone] at hstk
    contradiction
  · obtain rfl := Json.dict.inj (Option.some.inj (hstk.symm.trans hstk'))
    rw [hid] at hfalsy
    exact hne (by simpa [Json.truthy] using hfalsy)

/-- A body names one transaction. -/
theorem Names.unique {checkoutId checkoutId' : String} {code code' : Int}
    (h : Names body checkoutId code) (h' : Names body checkoutId' code') :
    checkoutId = checkoutId' := by
  obtain ⟨stk, hstk, hid, -⟩ := h
  obtain ⟨stk', hstk', hid', -⟩ := h'
  obtain rfl := Json.dict.inj (Option.some.inj (hstk.symm.trans hstk'))
  exact Json.str.inj (hid.symm.trans hid')

/-- What the handler reads from a body that names a transaction. -/
theorem Names.read {checkoutId : String} {code : Int} {callback : StkCallback}
    (h : Names body checkoutId code) (hread : readCallback body = .ok callback) :
    callback.checkoutId = .str checkoutId ∧ callback.resultCode = code := by
  obtain ⟨stk, hstk, hid, hne, hcode⟩ := h
  have htruthy : (Json.str checkoutId).truthy = true := by simpa [Json.truthy] using hne
  rw [readCallback_dict hstk, hid, hcode, if_neg (not_not.mpr htruthy)] at hread
  cases hread
  exact ⟨rfl, rfl⟩

/-- An acknowledged success credits the pending transaction it names. -/
theorem credited_of_ok {checkoutId : String} {balance : Int} {ack : MpesaCallbackAck}
    {db' : Database} (h : mpesaStkCallback pyRepr body db = .ok (ack, db'))
    (hnames : Names body checkoutId 0) (htxn : db.transaction checkoutId = some txn)
    (hpending : txn.status = .pending) (hbalance : db.balance txn.userId = some balance) :
    db'.balance txn.userId = some (balance + txn.amount * 100) := by
  obtain ⟨callback, hread, h⟩ := bind_eq_ok_iff.mp h
  obtain ⟨db₁, happly, h⟩ := bind_eq_ok_iff.mp h
  cases h
  obtain ⟨hid, hcode⟩ := hnames.read hread
  obtain ⟨checkoutId', hid', -, ⟨-, hclosed⟩ | ⟨txn', columns, htxn', -, -, hclosed⟩⟩ :=
    applyCallback_eq_ok happly
  · obtain rfl := Json.str.inj (hid.symm.trans hid')
    exact absurd hpending (hclosed txn htxn)
  · obtain rfl := Json.str.inj (hid.symm.trans hid')
    obtain rfl := Option.some.inj (htxn.symm.trans htxn')
    rw [hclosed.balance]
    simp [hcode, hbalance]

/-- For every body and every database, the endpoint ends in an acknowledgement, in 400 for a
malformed body or in 404 for a missing wallet, changes nothing without an acknowledgement, and
credits every success of a pending transaction with a wallet, exactly when the body is one the
handler can deal with. -/
theorem handled_iff (pyRepr : Json → String) (body : List (String × Json)) (db : Database) :
    Handled pyRepr body db ↔ WellFormed pyRepr body db := by
  constructor
  · intro h
    rcases mpesaStkCallback_cases pyRepr body db with ⟨hformed, -⟩ | ⟨-, e, herror, hcrash⟩
    · exact hformed
    · have hends := h.ends
      simp only [callbackRequest_of_error herror] at hends
      rcases hends with ⟨ack, hack⟩ | ⟨-, detail, herror⟩ | ⟨-, detail, herror⟩
      · contradiction
      · exact absurd (Except.error.inj herror) (hcrash 400 detail)
      · exact absurd (Except.error.inj herror) (hcrash 404 detail)
  · intro hformed
    rcases mpesaStkCallback_cases pyRepr body db with
      ⟨-, ⟨ack, db', hok⟩ | ⟨hmalformed, detail, herror⟩ |
        ⟨⟨checkoutId, txn, hnames, htxn, hnone⟩, detail, herror⟩⟩ | ⟨hcrash, -⟩
    · have hrequest := callbackRequest_of_ok hok
      refine ⟨.inl ⟨ack, by rw [hrequest]⟩, fun hack => absurd (by rw [hrequest]) (hack ack), ?_⟩
      intro checkoutId txn balance hnames htxn hpending hbalance
      rw [hrequest]
      exact credited_of_ok hok hnames htxn hpending hbalance
    · have hrequest := callbackRequest_of_error herror
      refine ⟨.inr (.inl ⟨hmalformed, detail, by rw [hrequest]⟩), fun _ => by rw [hrequest], ?_⟩
      intro checkoutId txn balance hnames
      exact absurd hnames hmalformed.not_names
    · have hrequest := callbackRequest_of_error herror
      refine ⟨.inr (.inr ⟨⟨checkoutId, txn, hnames, htxn, hnone⟩, detail, by rw [hrequest]⟩),
        fun _ => by rw [hrequest], ?_⟩
      intro checkoutId' txn' balance hnames' htxn' hpending hbalance
      obtain rfl := hnames.unique hnames'
      obtain rfl := Option.some.inj (htxn.symm.trans htxn')
      rw [hnone] at hbalance
      contradiction
    · exact absurd hformed hcrash

end Shapes

/-- A success of the sample deposit without metadata. -/
def bareSuccess : List (String × Json) :=
  [("Body", .dict [("stkCallback",
    .dict [("CheckoutRequestID", .str "ws_CO_1"), ("ResultCode", .int 0),
      ("CallbackMetadata", .null)])])]

/-- A success whose metadata are `null` ends in an `AttributeError`. -/
theorem bareSuccess_not_handled :
    ¬ ∀ (pyRepr : Json → String) (body : List (String × Json)) (db : Database),
      Handled pyRepr body db := by
  intro h
  have hcrash : (callbackRequest (fun _ => "") bareSuccess sampleDeposit).1 =
      .error (.python .attributeError) := by
    rfl
  have hends := (h (fun _ => "") bareSuccess sampleDeposit).ends
  rw [hcrash] at hends
  rcases hends with ⟨ack, hack⟩ | ⟨-, detail, herror⟩ | ⟨-, detail, herror⟩
  · contradiction
  · cases herror
  · cases herror

end CallbackShapes
end Settlement
end BettingPlatform
