import BettingPlatform.Foundations.Serializability
import BettingPlatform.Settlement.Mpesa
import BettingPlatform.Settlement.Versions

/-!
# Concurrent callbacks

Any number of `mpesa_stk_callback` handlings run at once.  A handling selects the
transaction `FOR UPDATE`, which waits while another handling holds the row; credits the
wallet of a payment that went through; and writes the transaction and the ledger row when
its block ends.  Then it commits.  It can be aborted before.

Main results:

- Theorem `agrees_runStatement`: each statement leaves a handling in agreement with what it
  would do alone on the rows committed now.
- Theorem `Consistent.installed`: so does the commit of another handling.
- Theorem `Consistent.commit`: the commit of a handling in agreement installs what
  `mpesaStkCallback` would do alone.
-/

namespace BettingPlatform
namespace Settlement
namespace CallbackRaces

open Runs Schema Python

variable {ι : Type}

/-! ## Handlings and their statements -/

/-- The statement a handling runs next, with the values of its local variables. -/
inductive Phase
  | selecting
  | crediting (callback : StkCallback) (txn : MpesaTransaction) (receipt : Option String)
  | flushing (callback : StkCallback) (txn : MpesaTransaction) (status : MpesaTransactionStatus)
      (receipt : Option String) (ledger : Option WalletLedger)
  | committing (txn : Option MpesaTransaction)
  | acknowledged
  | raised

/-- A handling: its next statement and its uncommitted versions. -/
structure Handling where
  phase : Phase
  pending : Pending

/-- The row of `mpesa_transactions` that a handling has locked. -/
def Handling.locked (call : Handling) : Option MpesaTransaction :=
  match call.phase with
  | .crediting _ txn _ => some txn
  | .flushing _ txn _ _ _ => some txn
  | .committing txn => txn
  | .selecting | .acknowledged | .raised => none

/-- The wallet version that a handling holds. -/
abbrev Handling.wallet (call : Handling) : Option Wallet := call.pending.wallet

/-- The committed database, the handlings, and those that were acknowledged, in the order
of their commits. -/
abbrev Handlings (ι : Type) := Concurrent ι Database Handling

/-- No handling has begun. -/
def Handlings.start (db : Database) : Handlings ι where
  db := db
  calls := fun _ => ⟨.selecting, .empty⟩
  commits := []

/-- What happens to a handling. -/
inductive Move
  /-- It runs its next statement, or commits. -/
  | run
  /-- Its transaction is aborted. -/
  | abort
deriving DecidableEq

/-- The handling ends with an exception, and its transaction is rolled back. -/
def Handling.ended : Handling := ⟨.raised, .empty⟩

section Statements

variable [Fintype ι] [DecidableEq ι] (pyRepr : Json → String)

/-- What a handling does behind the lock of a pending row. -/
def branch (callback : StkCallback) (txn : MpesaTransaction) : Handling :=
  if callback.resultCode = 0 then
    match receiptOf pyRepr callback.stkCallback with
    | .error _ => .ended
    | .ok receipt => ⟨.crediting callback txn receipt, .empty⟩
  else ⟨.flushing callback txn .failed txn.mpesaReceiptNumber none, .empty⟩

/-- The body is read, and the transaction selected `FOR UPDATE`. -/
def select (body : List (String × Json)) (s : Handlings ι) (i : ι) : Option Handling :=
  match readCallback body with
  | .error _ => some .ended
  | .ok callback =>
      match textParameter callback.checkoutId with
      | .error _ => some .ended
      | .ok checkoutId =>
          match s.db.transaction checkoutId with
          | none => some ⟨.committing none, .empty⟩
          | some txn =>
              if Blocked (held Handling.locked s.calls) i txn then none
              else if txn.status ≠ .pending then some ⟨.committing (some txn), .empty⟩
              else some (branch pyRepr callback txn)

/-- The wallet version the credit writes on the committed one, when the wallet exists and
the new balance meets its constraints. -/
def credited (txn : MpesaTransaction) (current : Option Int) : Option Wallet :=
  match current with
  | some balance =>
      if IsBigInteger (balance + txn.amount * 100) ∧ 0 ≤ balance + txn.amount * 100 then
        some ⟨txn.userId, balance + txn.amount * 100⟩
      else none
  | none => none

/-- The next statement of handling `i`; `none` while it waits for another handling. -/
def runStatement (body : List (String × Json)) (s : Handlings ι) (i : ι) (call : Handling) :
    Option Handling :=
  match call.phase with
  | .selecting => select pyRepr body s i
  | .crediting callback txn receipt =>
      if Blocked (held Handling.wallet s.calls) i ⟨txn.userId, 0⟩ then none
      else
        match credited txn (s.db.balance txn.userId) with
        | none => some .ended
        | some wallet =>
            some ⟨.flushing callback txn .success receipt (some (depositRow txn)),
              { call.pending with wallet := some wallet }⟩
  | .flushing callback txn status receipt ledger =>
      match callbackColumns callback status receipt,
          flushCallback txn callback status receipt ledger s.db with
      | .ok columns, .ok _ =>
          some ⟨.committing (some txn),
            { call.pending with
              transaction := some (txn.checkoutRequestId, columns)
              ledger }⟩
      | _, _ => some .ended
  | .committing _ | .acknowledged | .raised => none

/-- What a step of handling `i` makes of it. -/
def act (body : ι → List (String × Json)) (s : Handlings ι) (i : ι) (move : Move) :
    Option (Outcome Database Handling) :=
  match (s.calls i).phase, move with
  | .acknowledged, _ | .raised, _ => none
  | _, .abort => some (.moved .ended)
  | .committing _, .run =>
      match install (s.calls i).pending s.db with
      | .error _ => none
      | .ok db => some (.committed ⟨.acknowledged, .empty⟩ db)
  | _, .run => (runStatement pyRepr (body i) s i (s.calls i)).map .moved

/-- One step of one handling. -/
abbrev step (body : ι → List (String × Json)) : Handlings ι → ι × Move → Option (Handlings ι) :=
  Concurrent.step (act pyRepr body)

end Statements

/-! ## Agreement with the rows committed now -/

section Agreement

variable (pyRepr : Json → String) (body : List (String × Json)) (db : Database)

/-- The body's id names this row of `mpesa_transactions`, if any. -/
structure Selected (callback : StkCallback) (checkoutId : String)
    (txn : Option MpesaTransaction) : Prop where
  read : readCallback body = .ok callback
  id : callback.checkoutId = .str checkoutId
  text : IsText checkoutId
  found : db.transaction checkoutId = txn

/-- The credit has run: the handling holds the wallet row plus the amount. -/
def Credited (txn : MpesaTransaction) (version : Option Wallet) : Prop :=
  ∃ balance, db.balance txn.userId = some balance ∧ IsBigInteger (balance + txn.amount * 100) ∧
    0 ≤ balance + txn.amount * 100 ∧ version = some ⟨txn.userId, balance + txn.amount * 100⟩

/-- The local variables and the wallet version at the end of the block. -/
def Branched (callback : StkCallback) (txn : MpesaTransaction) (status : MpesaTransactionStatus)
    (receipt : Option String) (ledger : Option WalletLedger) (version : Option Wallet) : Prop :=
  if callback.resultCode = 0 then
    receiptOf pyRepr callback.stkCallback = .ok receipt ∧ status = .success ∧
      ledger = some (depositRow txn) ∧ Credited db txn version
  else receipt = txn.mpesaReceiptNumber ∧ status = .failed ∧ ledger = none ∧ version = none

/-- A handling's versions are those its statements so far would write if they ran on the
rows committed now. -/
def Consistent (call : Handling) : Prop :=
  let p := call.pending
  match call.phase with
  | .selecting | .acknowledged | .raised => p = .empty
  | .crediting callback txn receipt =>
      Selected body db callback txn.checkoutRequestId (some txn) ∧ txn.status = .pending ∧
        callback.resultCode = 0 ∧ receiptOf pyRepr callback.stkCallback = .ok receipt ∧ p = .empty
  | .flushing callback txn status receipt ledger =>
      Selected body db callback txn.checkoutRequestId (some txn) ∧ txn.status = .pending ∧
        Branched pyRepr db callback txn status receipt ledger p.wallet ∧
        p = { Pending.empty with wallet := p.wallet }
  | .committing locked =>
      ∃ callback checkoutId, Selected body db callback checkoutId locked ∧
        (((∀ txn ∈ locked, txn.status ≠ .pending) ∧ p = .empty) ∨
          ∃ txn status receipt columns, locked = some txn ∧ txn.status = .pending ∧
            Branched pyRepr db callback txn status receipt p.ledger p.wallet ∧
            callbackColumns callback status receipt = .ok columns ∧
            Storable (txn.write columns) ∧ (∀ row ∈ p.ledger, Storable row) ∧
            p = { Pending.empty with
                  wallet := p.wallet
                  transaction := some (checkoutId, columns)
                  ledger := p.ledger })

end Agreement

/-! ## A commit does what the handling would do alone -/

section Commit

variable {pyRepr : Json → String} {body : List (String × Json)} {callback : StkCallback}
  {txn : MpesaTransaction} {db db₁ db' : Database}

/-- The credit of an existing wallet succeeds when the new balance meets its constraints. -/
theorem Credited.commit {version : Option Wallet} (h : Credited db txn version) :
    ∃ db₁, creditWallet txn db = .ok db₁ ∧ applyVersion putWallet version db = .ok db₁ := by
  obtain ⟨balance, hbalance, hstorable, hcheck, rfl⟩ := h
  obtain ⟨db₁, hupdate⟩ : ∃ db₁, db.updateWallets
      (Database.walletWhere txn.userId fun _ => true)
      (fun balance => balance + txn.amount * 100) = .ok db₁ := by
    refine Database.exists_updateWallets fun r hr hp => ?_
    have hown : db.balance r.userId = some r.balanceCents := Database.balance_eq_some_iff.mpr hr
    have huser : r.userId = txn.userId := by simpa [Database.walletWhere] using hp
    rw [huser, hbalance] at hown
    obtain rfl := Option.some.inj hown
    exact ⟨hstorable, hcheck⟩
  have hcount : db.rowcount (Database.walletWhere txn.userId fun _ => true) = 1 := by
    rw [Database.rowcount_walletWhere, hbalance]
    rfl
  refine ⟨db₁, by simp [creditWallet, hupdate, hcount, sql, bind, Except.bind], ?_⟩
  exact putWallet_of_update (f := fun balance => balance + txn.amount * 100) hbalance rfl hupdate

/-- The writes at the end of the block succeed when the rows meet their constraints. -/
theorem exists_flushCallback {status : MpesaTransactionStatus} {receipt : Option String}
    {ledger : Option WalletLedger} {columns : CallbackColumns}
    (hfound : db.transaction txn.checkoutRequestId = some txn)
    (hcolumns : callbackColumns callback status receipt = .ok columns)
    (hstorable : Storable (txn.write columns)) (hledger : ∀ row ∈ ledger, Storable row)
    (howner : ∀ row ∈ ledger, row.userId = txn.userId)
    (htransactions : db₁.transactions = db.transactions) (husers : db₁.users = db.users) :
    ∃ db₂ db', db₁.writeTransaction txn.checkoutRequestId columns = .ok db₂ ∧
      applyVersion Database.insertLedger ledger db₂ = .ok db' ∧
      flushCallback txn callback status receipt ledger db₁ = .ok db' := by
  obtain ⟨db₂, hwrite⟩ :
      ∃ db₂, db₁.writeTransaction txn.checkoutRequestId columns = .ok db₂ := by
    refine Database.exists_writeTransaction fun r hr hid => ?_
    rw [htransactions] at hr
    have hr' : db.transaction txn.checkoutRequestId = some r :=
      Database.transaction_eq_some_iff.mpr ⟨hr, hid⟩
    obtain rfl := Option.some.inj (hfound.symm.trans hr')
    exact hstorable
  obtain ⟨-, husers₂, -⟩ := Database.writeTransaction_eq_ok_iff.mp hwrite
  cases ledger with
  | none =>
      exact ⟨db₂, db₂, hwrite, rfl, by simp [flushCallback, hcolumns, hwrite, bind, Except.bind]⟩
  | some row =>
      have hrow : ∃ t, db₂.ledger.insert row = .ok t :=
        Table.exists_insert (hledger row rfl) trivial fun _ _ => id
      have huser : HasUser db₂.users row.userId := by
        rw [husers₂, husers, howner row rfl]
        exact db.transaction_user txn (Database.transaction_eq_some_iff.mp hfound).1
      obtain ⟨db', hinsert⟩ := Database.exists_insertLedger hrow huser
      exact ⟨db₂, db', hwrite, hinsert,
        by simp [flushCallback, hcolumns, hwrite, hinsert, bind, Except.bind]⟩

/-- The commit of the versions of a handling, table by table. -/
theorem install_eq {wallet : Option Wallet} {ledger : Option WalletLedger} {checkoutId : String}
    {columns : CallbackColumns} {db₂ : Database} (hput : applyVersion putWallet wallet db = .ok db₁)
    (hwrite : db₁.writeTransaction checkoutId columns = .ok db₂)
    (hinsert : applyVersion Database.insertLedger ledger db₂ = .ok db') :
    install { Pending.empty with wallet, transaction := some (checkoutId, columns), ledger } db =
      .ok db' := by
  unfold install
  rw [show applyVersion Database.insertUser Pending.empty.user db = .ok db from rfl]
  simp only [bind, Except.bind, hput, applyVersion_transaction, hwrite]
  exact hinsert

/-- The commit of a handling installs exactly what the handling would do if it ran alone on
the rows committed now. -/
theorem Consistent.commit {call : Handling} {locked : Option MpesaTransaction}
    (h : Consistent pyRepr body db call) (hphase : call.phase = .committing locked) :
    ∃ db', install call.pending db = .ok db' ∧
      mpesaStkCallback pyRepr body db = .ok ({}, db') := by
  obtain ⟨phase, pending⟩ := call
  simp only at hphase
  subst hphase
  obtain ⟨callback, checkoutId, hselected, hbranch⟩ := h
  suffices happly : ∃ db', install pending db = .ok db' ∧
      applyCallback pyRepr callback db = .ok db' by
    obtain ⟨db', hinstall, happly⟩ := happly
    refine ⟨db', hinstall, ?_⟩
    simp [mpesaStkCallback, hselected.read, happly, bind, Except.bind]
  obtain ⟨hclosed, rfl⟩ | ⟨txn, status, receipt, columns, rfl, hpending, hbranched, hcolumns,
    hstorable, hledger, hversions⟩ := hbranch
  · refine ⟨db, rfl, applyCallback_of_not_pending hselected.id hselected.text fun txn htxn => ?_⟩
    exact hclosed txn (hselected.found.symm.trans htxn)
  · obtain ⟨-, rfl⟩ := Database.transaction_eq_some_iff.mp hselected.found
    have hparam : textParameter callback.checkoutId = .ok txn.checkoutRequestId :=
      textParameter_eq_ok_iff.mpr ⟨hselected.id, hselected.text⟩
    obtain ⟨user, wallet, transaction, bet, ledger⟩ := pending
    simp only at hbranched hledger hversions
    obtain ⟨rfl, -, rfl, rfl, -⟩ := Pending.mk.inj hversions
    unfold Branched at hbranched
    split at hbranched
    · rename_i hcode
      obtain ⟨hreceipt, rfl, rfl, hcredited⟩ := hbranched
      obtain ⟨db₁, hcredit, hput⟩ := hcredited.commit
      obtain ⟨-, -, husers, -, -, htransactions⟩ := creditWallet_eq_ok hcredit
      obtain ⟨db₂, db', hwrite, hinsert, hflush⟩ := exists_flushCallback hselected.found hcolumns
        hstorable hledger (by rintro row ⟨rfl⟩; rfl) htransactions husers
      refine ⟨db', install_eq hput hwrite hinsert, ?_⟩
      simp [applyCallback, hparam, hselected.found, hpending, hcode, hreceipt, hcredit, hflush,
        sql, bind, Except.bind, Except.mapError]
    · rename_i hcode
      obtain ⟨rfl, rfl, rfl, rfl⟩ := hbranched
      obtain ⟨db₂, db', hwrite, hinsert, hflush⟩ := exists_flushCallback hselected.found hcolumns
        hstorable hledger (by simp) rfl rfl
      refine ⟨db', install_eq rfl hwrite hinsert, ?_⟩
      simp [applyCallback, hparam, hselected.found, hpending, hcode, hflush, sql, bind,
        Except.bind]

end Commit

/-! ## Other handlings' commits -/

section Others

variable {pyRepr : Json → String} {body : List (String × Json)} {callback : StkCallback}
  {txn : MpesaTransaction} {db db' : Database} {pending : Pending} {call : Handling}

/-- A handling writes the transaction it has locked. -/
theorem Consistent.writes_locked (h : Consistent pyRepr body db call) :
    ∀ v ∈ call.pending.transaction, ∃ t ∈ call.locked, t.checkoutRequestId = v.1 := by
  obtain ⟨phase, versions⟩ := call
  cases phase with
  | committing locked =>
      obtain ⟨callback, checkoutId, hselected, ⟨-, rfl⟩ | ⟨txn, _, _, columns, rfl, -, -, -, -, -,
        hversions⟩⟩ := h
      · simp [Pending.empty]
      · simp only at hversions
        rw [hversions]
        rintro _ ⟨rfl⟩
        exact ⟨txn, rfl, (Database.transaction_eq_some_iff.mp hselected.found).2⟩
  | flushing callback txn status receipt ledger =>
      obtain ⟨-, -, -, hversions⟩ := h
      simp only at hversions
      rw [hversions]
      simp [Pending.empty]
  | crediting callback txn receipt =>
      obtain ⟨-, -, -, -, hversions⟩ := h
      simp only at hversions
      rw [hversions]
      simp [Pending.empty]
  | selecting =>
      obtain rfl : versions = .empty := h
      simp [Pending.empty]
  | acknowledged =>
      obtain rfl : versions = .empty := h
      simp [Pending.empty]
  | raised =>
      obtain rfl : versions = .empty := h
      simp [Pending.empty]

/-- A commit of other rows leaves what was selected selected. -/
theorem Selected.installed {checkoutId : String} {locked : Option MpesaTransaction}
    (h : Selected body db callback checkoutId locked) (hinstalled : Installed pending db db')
    (hid : ∀ t ∈ locked, ∀ v ∈ pending.transaction, v.1 ≠ t.checkoutRequestId) :
    Selected body db' callback checkoutId locked := by
  refine ⟨h.read, h.id, h.text, ?_⟩
  rw [hinstalled.transaction_of_ne, h.found]
  intro v hv hsame
  cases hfound : db.transaction checkoutId with
  | none => rfl
  | some t =>
      obtain ⟨-, rfl⟩ := Database.transaction_eq_some_iff.mp hfound
      exact absurd hsame (hid t (h.found.symm.trans hfound) v hv)

/-- And its branch the one to take. -/
theorem Branched.installed {status : MpesaTransactionStatus} {receipt : Option String}
    {ledger : Option WalletLedger} {version : Option Wallet}
    (h : Branched pyRepr db callback txn status receipt ledger version)
    (hinstalled : Installed pending db db')
    (hapart : ∀ r ∈ version, ∀ s ∈ pending.wallet, ¬ Clash r s) :
    Branched pyRepr db' callback txn status receipt ledger version := by
  unfold Branched at h ⊢
  split
  · rename_i hcode
    rw [if_pos hcode] at h
    obtain ⟨hreceipt, hstatus, hledger, balance, hbalance, hstorable, hcheck, rfl⟩ := h
    refine ⟨hreceipt, hstatus, hledger, balance, ?_, hstorable, hcheck, rfl⟩
    rw [hinstalled.balance_of_apart ⟨_, rfl, rfl⟩ hapart, hbalance]
  · rename_i hcode
    rw [if_neg hcode] at h
    exact h

/-- The commit of a handling whose rows are apart leaves a handling in agreement. -/
theorem Consistent.installed (h : Consistent pyRepr body db call)
    (hinstalled : Installed pending db db')
    (hid : ∀ t ∈ call.locked, ∀ v ∈ pending.transaction, v.1 ≠ t.checkoutRequestId)
    (hwallets : ∀ r ∈ call.wallet, ∀ s ∈ pending.wallet, ¬ Clash r s) :
    Consistent pyRepr body db' call := by
  obtain ⟨phase, versions⟩ := call
  cases phase with
  | selecting => exact h
  | crediting callback txn receipt =>
      obtain ⟨hselected, hrest⟩ := h
      exact ⟨hselected.installed hinstalled hid, hrest⟩
  | flushing callback txn status receipt ledger =>
      obtain ⟨hselected, hpending, hbranched, hversions⟩ := h
      exact ⟨hselected.installed hinstalled hid, hpending,
        hbranched.installed hinstalled hwallets, hversions⟩
  | committing locked =>
      obtain ⟨callback, checkoutId, hselected, hclosed | ⟨txn, status, receipt, columns, hlocked,
        hpending, hbranched, hrest⟩⟩ := h
      · exact ⟨callback, checkoutId, hselected.installed hinstalled hid, Or.inl hclosed⟩
      · exact ⟨callback, checkoutId, hselected.installed hinstalled hid, Or.inr ⟨txn, status,
          receipt, columns, hlocked, hpending, hbranched.installed hinstalled hwallets, hrest⟩⟩
  | acknowledged => exact h
  | raised => exact h

end Others

/-! ## A handling's own statements -/

section Own

variable {pyRepr : Json → String} {body : List (String × Json)} {s : Handlings ι} {i : ι}
  {pending : Pending} {call' : Handling}

/-- The rows a step leaves a handling with do not wait for another handling's. -/
structure Unblocked (s : Handlings ι) (i : ι) (call : Handling) : Prop where
  locked : ∀ r ∈ call.locked, ¬ Blocked (held Handling.locked s.calls) i r
  wallet : ∀ r ∈ call.wallet, ¬ Blocked (held Handling.wallet s.calls) i r

/-- A handling is in agreement and its rows are its own. -/
def Agrees (pyRepr : Json → String) (body : List (String × Json)) (s : Handlings ι) (i : ι)
    (call : Handling) : Prop :=
  Consistent pyRepr body s.db call ∧ Unblocked s i call

/-- A handling that has ended knows nothing and holds nothing. -/
theorem agrees_ended : Agrees pyRepr body s i .ended :=
  ⟨rfl, by simp [Handling.ended, Handling.locked],
    by simp [Handling.ended, Pending.empty]⟩

/-- A handling that has locked a pending row takes the branch of its callback. -/
theorem agrees_branch {callback : StkCallback} {txn : MpesaTransaction}
    (hselected : Selected body s.db callback txn.checkoutRequestId (some txn))
    (hpending : txn.status = .pending)
    (hlock : ¬ Blocked (held Handling.locked s.calls) i txn) :
    Agrees pyRepr body s i (branch pyRepr callback txn) := by
  unfold branch
  split
  · rename_i hcode
    split
    · exact agrees_ended
    · rename_i hreceipt
      exact ⟨⟨hselected, hpending, hcode, hreceipt, rfl⟩, by simpa [Handling.locked] using hlock,
        by simp [Pending.empty]⟩
  · rename_i hcode
    refine ⟨⟨hselected, hpending, ?_, rfl⟩, by simpa [Handling.locked] using hlock,
      by simp [Pending.empty]⟩
    rw [Branched, if_neg hcode]
    exact ⟨rfl, rfl, rfl, rfl⟩

variable [Fintype ι] [DecidableEq ι]

/-- The select keeps a handling in agreement. -/
theorem agrees_selecting (hstep : select pyRepr body s i = some call') :
    Agrees pyRepr body s i call' := by
  unfold select at hstep
  split at hstep
  · obtain rfl := Option.some.inj hstep
    exact agrees_ended
  · rename_i callback hread
    split at hstep
    · obtain rfl := Option.some.inj hstep
      exact agrees_ended
    · rename_i checkoutId hparam
      obtain ⟨hid, htext⟩ := textParameter_eq_ok_iff.mp hparam
      split at hstep
      · rename_i hnone
        obtain rfl := Option.some.inj hstep
        exact ⟨⟨callback, checkoutId, ⟨hread, hid, htext, hnone⟩, Or.inl ⟨by simp, rfl⟩⟩,
          by simp [Handling.locked], by simp [Pending.empty]⟩
      · rename_i txn htxn
        obtain ⟨-, rfl⟩ := Database.transaction_eq_some_iff.mp htxn
        split at hstep
        · contradiction
        · rename_i hlock
          split at hstep
          · rename_i hclosed
            obtain rfl := Option.some.inj hstep
            exact ⟨⟨callback, _, ⟨hread, hid, htext, htxn⟩, Or.inl ⟨by simpa using hclosed, rfl⟩⟩,
              by simpa [Handling.locked] using hlock, by simp [Pending.empty]⟩
          · rename_i hpending
            obtain rfl := Option.some.inj hstep
            exact agrees_branch ⟨hread, hid, htext, htxn⟩ (not_not.mp hpending) hlock

/-- So does the credit. -/
theorem agrees_crediting {callback : StkCallback} {txn : MpesaTransaction}
    {receipt : Option String}
    (h : Agrees pyRepr body s i ⟨.crediting callback txn receipt, pending⟩)
    (hstep : runStatement pyRepr body s i ⟨.crediting callback txn receipt, pending⟩ =
      some call') : Agrees pyRepr body s i call' := by
  obtain ⟨⟨hselected, hpending, hcode, hreceipt, hempty⟩, hunblocked⟩ := h
  simp only at hempty
  subst hempty
  simp only [runStatement] at hstep
  split at hstep
  · contradiction
  · rename_i hwallet
    split at hstep
    · obtain rfl := Option.some.inj hstep
      exact agrees_ended
    · rename_i wallet hcredited
      obtain rfl := Option.some.inj hstep
      unfold credited at hcredited
      split at hcredited
      · rename_i balance hbalance
        split at hcredited
        · rename_i hvalue
          obtain rfl := Option.some.inj hcredited
          refine ⟨⟨hselected, hpending, ?_, rfl⟩, hunblocked.locked, ?_⟩
          · rw [Branched, if_pos hcode]
            exact ⟨hreceipt, rfl, rfl, balance, hbalance, hvalue.1, hvalue.2, rfl⟩
          · rintro _ ⟨rfl⟩ ⟨j, hj, w, hw, hclash⟩
            exact hwallet ⟨j, hj, w, hw, hclash⟩
        · contradiction
      · contradiction

/-- And the flush. -/
theorem agrees_flushing {callback : StkCallback} {txn : MpesaTransaction}
    {status : MpesaTransactionStatus} {receipt : Option String} {ledger : Option WalletLedger}
    (h : Agrees pyRepr body s i ⟨.flushing callback txn status receipt ledger, pending⟩)
    (hstep : runStatement pyRepr body s i ⟨.flushing callback txn status receipt ledger, pending⟩ =
      some call') : Agrees pyRepr body s i call' := by
  obtain ⟨⟨hselected, hpending, hbranched, hversions⟩, hunblocked⟩ := h
  simp only at hbranched hversions
  simp only [runStatement] at hstep
  split at hstep
  · rename_i columns db' hcolumns hflush
    obtain rfl := Option.some.inj hstep
    obtain ⟨columns', hcolumns', hflush⟩ := bind_eq_ok_iff.mp hflush
    obtain rfl := Except.ok.inj (hcolumns'.symm.trans hcolumns)
    obtain ⟨db₁, hwrite, hflush⟩ := bind_eq_ok_iff.mp hflush
    obtain ⟨hupdate, -⟩ := Database.writeTransaction_eq_ok_iff.mp hwrite
    have hmem := (Database.transaction_eq_some_iff.mp hselected.found).1
    have hstorable : Storable (txn.write columns') :=
      ((Table.update_eq_ok_iff.mp hupdate).1 txn hmem (by simp)).1
    have hledger : ∀ row ∈ ledger, Storable row := by
      rintro row ⟨rfl⟩
      exact (Table.insert_eq_ok_iff.mp (Database.insertLedger_eq_ok_iff.mp hflush).1).1
    refine ⟨⟨callback, txn.checkoutRequestId, hselected, Or.inr ⟨txn, status, receipt, columns',
      rfl, hpending, hbranched, hcolumns', hstorable, hledger, ?_⟩⟩, hunblocked.locked,
      hunblocked.wallet⟩
    simp only
    rw [hversions]
  · obtain rfl := Option.some.inj hstep
    exact agrees_ended

/-- Each statement of a handling keeps it in agreement, and locks and writes only rows that
no other handling holds. -/
theorem agrees_runStatement {call : Handling} (h : Agrees pyRepr body s i call)
    (hstep : runStatement pyRepr body s i call = some call') : Agrees pyRepr body s i call' := by
  obtain ⟨phase, pending⟩ := call
  cases phase with
  | selecting => exact agrees_selecting hstep
  | crediting callback txn receipt => exact agrees_crediting h hstep
  | flushing callback txn status receipt ledger => exact agrees_flushing h hstep
  | committing locked => contradiction
  | acknowledged => contradiction
  | raised => contradiction

end Own

end CallbackRaces
end Settlement
end BettingPlatform
