import BettingPlatform.Foundations.Table
import BettingPlatform.Foundations.Uuid
import BettingPlatform.Foundations.Decimal
import BettingPlatform.Foundations.Fallible

/-!
# The settlement database

The rows of `models.py` and what their columns and constraints declare, and the
database made of the five tables with its foreign keys.  Timestamps and the surrogate
keys of `wallet_ledger` and `mpesa_transactions` are left out: no query reads them.

A statement either yields the new database or raises; a raised statement aborts its
transaction, so the database it would have worked on is dropped.

Main results:

- Theorem `Database.balance_insertWallet` and `Database.balance_updateWallets`: what a
  write of the wallets does to every user's balance.
- Theorem `Database.wallet_balance_nonneg`: no balance is negative.
-/

namespace BettingPlatform
namespace Settlement

/-! ## Column types -/

/-- `String(n)` and `Text`: a server text holds no NUL character. -/
def IsText (s : String) : Prop :=
  '\x00' ∉ s.toList

/-- `String(n)`. -/
def IsVarchar (n : Nat) (s : String) : Prop :=
  s.length ≤ n ∧ IsText s

/-- `Integer`. -/
def IsInteger (n : Int) : Prop :=
  -2 ^ 31 ≤ n ∧ n < 2 ^ 31

/-- `BigInteger`. -/
def IsBigInteger (n : Int) : Prop :=
  -2 ^ 63 ≤ n ∧ n < 2 ^ 63

/-- `Numeric(10, 4)`, as the server stores it. -/
def IsNumeric104 (d : Decimal) : Prop :=
  d.exp = -4 ∧ d.coeff < 10 ^ 10

instance (s : String) : Decidable (IsText s) := inferInstanceAs (Decidable (_ ∉ _))
instance (n : Nat) (s : String) : Decidable (IsVarchar n s) :=
  inferInstanceAs (Decidable (_ ∧ _))
instance (n : Int) : Decidable (IsInteger n) := inferInstanceAs (Decidable (_ ∧ _))
instance (n : Int) : Decidable (IsBigInteger n) := inferInstanceAs (Decidable (_ ∧ _))
instance (d : Decimal) : Decidable (IsNumeric104 d) := inferInstanceAs (Decidable (_ ∧ _))

/-! ## Rows -/

/-- `BetStatus`. -/
inductive BetStatus
  | pending
  | accepted
  | rejected
  | won
  | lost
deriving DecidableEq, Repr

/-- `LedgerType`. -/
inductive LedgerType
  | deposit
  | betStake
  | betPayout
deriving DecidableEq, Repr

/-- `MpesaTransactionStatus`. -/
inductive MpesaTransactionStatus
  | pending
  | success
  | failed
deriving DecidableEq, Repr

/-- A row of `users`. -/
structure User where
  id : Uuid
  username : String
deriving DecidableEq

/-- A row of `wallets`. -/
structure Wallet where
  userId : Uuid
  balanceCents : Int
deriving DecidableEq

/-- A row of `bets`. -/
structure Bet where
  id : Uuid
  userId : Uuid
  idempotencyKey : String
  matchId : String
  selectionId : String
  stakeCents : Int
  odds : Decimal
  status : BetStatus
  rejectionReason : Option String
deriving DecidableEq

/-- A row of `wallet_ledger`. -/
structure WalletLedger where
  userId : Uuid
  amountCents : Int
  type : LedgerType
  referenceId : String
deriving DecidableEq

/-- A row of `mpesa_transactions`. -/
structure MpesaTransaction where
  checkoutRequestId : String
  merchantRequestId : Option String
  userId : Uuid
  phoneNumber : String
  amount : Int
  status : MpesaTransactionStatus
  resultCode : Option Int
  resultDesc : Option String
  mpesaReceiptNumber : Option String
deriving DecidableEq

/-- The columns of `mpesa_transactions` that a callback writes. -/
structure CallbackColumns where
  status : MpesaTransactionStatus
  resultCode : Option Int
  resultDesc : Option String
  mpesaReceiptNumber : Option String
deriving DecidableEq

/-- The row with these columns written. -/
def MpesaTransaction.write (r : MpesaTransaction) (columns : CallbackColumns) :
    MpesaTransaction :=
  { r with
    status := columns.status
    resultCode := columns.resultCode
    resultDesc := columns.resultDesc
    mpesaReceiptNumber := columns.mpesaReceiptNumber }

/-- `username` is unique, `id` the primary key. -/
instance : Schema User where
  Storable r := IsVarchar 128 r.username
  Check _ := True
  Clash r s := r.id = s.id ∨ r.username = s.username
  clash_symm h := h.imp Eq.symm Eq.symm
  decStorable _ := inferInstance
  decCheck _ := inferInstance
  decClash _ _ := inferInstance

/-- `user_id` is the primary key; `ck_wallets_balance_non_negative`. -/
instance : Schema Wallet where
  Storable r := IsBigInteger r.balanceCents
  Check r := 0 ≤ r.balanceCents
  Clash r s := r.userId = s.userId
  clash_symm h := h.symm
  decStorable _ := inferInstance
  decCheck _ := inferInstance
  decClash _ _ := inferInstance

/-- `id` is the primary key; `uq_bets_idempotency_key`. -/
instance : Schema Bet where
  Storable r := IsVarchar 128 r.idempotencyKey ∧ IsVarchar 128 r.matchId ∧
    IsVarchar 128 r.selectionId ∧ IsBigInteger r.stakeCents ∧ IsNumeric104 r.odds ∧
    ∀ reason ∈ r.rejectionReason, IsText reason
  Check _ := True
  Clash r s := r.id = s.id ∨ r.idempotencyKey = s.idempotencyKey
  clash_symm h := h.imp Eq.symm Eq.symm
  decStorable _ := inferInstanceAs (Decidable (_ ∧ _))
  decCheck _ := inferInstance
  decClash _ _ := inferInstance

/-- The primary key is a sequence number, so no two rows clash. -/
instance : Schema WalletLedger where
  Storable r := IsBigInteger r.amountCents ∧ IsVarchar 128 r.referenceId
  Check _ := True
  Clash _ _ := False
  clash_symm h := h
  decStorable _ := inferInstanceAs (Decidable (_ ∧ _))
  decCheck _ := inferInstance
  decClash _ _ := inferInstance

/-- `checkout_request_id` is unique. -/
instance : Schema MpesaTransaction where
  Storable r := IsVarchar 64 r.checkoutRequestId ∧
    (∀ id ∈ r.merchantRequestId, IsVarchar 64 id) ∧ IsVarchar 16 r.phoneNumber ∧
    IsInteger r.amount ∧ (∀ code ∈ r.resultCode, IsInteger code) ∧
    (∀ desc ∈ r.resultDesc, IsText desc) ∧ ∀ receipt ∈ r.mpesaReceiptNumber, IsVarchar 32 receipt
  Check _ := True
  Clash r s := r.checkoutRequestId = s.checkoutRequestId
  clash_symm h := h.symm
  decStorable _ := inferInstanceAs (Decidable (_ ∧ _))
  decCheck _ := inferInstance
  decClash _ _ := inferInstance

/-! ## The database -/

/-- A row of `users` has this primary key. -/
def HasUser (users : Table User) (id : Uuid) : Prop :=
  ∃ r ∈ users.rows, r.id = id

instance (users : Table User) (id : Uuid) : Decidable (HasUser users id) :=
  inferInstanceAs (Decidable (∃ r ∈ users.rows, r.id = id))

/-- The five tables and their foreign keys to `users`. -/
@[ext]
structure Database where
  users : Table User
  wallets : Table Wallet
  bets : Table Bet
  ledger : Table WalletLedger
  transactions : Table MpesaTransaction
  wallet_user : ∀ r ∈ wallets.rows, HasUser users r.userId
  bet_user : ∀ r ∈ bets.rows, HasUser users r.userId
  ledger_user : ∀ r ∈ ledger.rows, HasUser users r.userId
  transaction_user : ∀ r ∈ transactions.rows, HasUser users r.userId

namespace Database

/-- The database after the migrations. -/
def empty : Database where
  users := .empty
  wallets := .empty
  bets := .empty
  ledger := .empty
  transactions := .empty
  wallet_user := by simp [Table.empty]
  bet_user := by simp [Table.empty]
  ledger_user := by simp [Table.empty]
  transaction_user := by simp [Table.empty]

/-- `wallets.balance_cents` of a user, when the wallet row exists. -/
def balance (db : Database) (user : Uuid) : Option Int :=
  (db.wallets.find Wallet.userId user).map Wallet.balanceCents

/-- The row of `mpesa_transactions` with this checkout request id. -/
def transaction (db : Database) (checkoutId : String) : Option MpesaTransaction :=
  db.transactions.find MpesaTransaction.checkoutRequestId checkoutId

/-! ## Writes -/

/-- An inserted user leaves the others. -/
theorem hasUser_insert {users users' : Table User} {r : User} (h : users.insert r = .ok users')
    {id : Uuid} (hid : HasUser users id) : HasUser users' id := by
  obtain ⟨s, hs, rfl⟩ := hid
  refine ⟨s, ?_, rfl⟩
  rw [Table.insert_rows h]
  exact List.mem_append_left _ hs

/-- Insert a row of `users`. -/
def insertUser (db : Database) (r : User) : Except SqlError Database :=
  match h : db.users.insert r with
  | .error e => .error e
  | .ok users =>
      .ok
        { db with
          users := users
          wallet_user := fun s hs => hasUser_insert h (db.wallet_user s hs)
          bet_user := fun s hs => hasUser_insert h (db.bet_user s hs)
          ledger_user := fun s hs => hasUser_insert h (db.ledger_user s hs)
          transaction_user := fun s hs => hasUser_insert h (db.transaction_user s hs) }

/-- A foreign key survives an insert of a row that refers to an existing user. -/
theorem forall_hasUser_insert {ρ : Type} [Schema ρ] {t t' : Table ρ} {r : ρ} {userId : ρ → Uuid}
    {users : Table User} (h : t.insert r = .ok t') (hr : HasUser users (userId r))
    (ht : ∀ s ∈ t.rows, HasUser users (userId s)) : ∀ s ∈ t'.rows, HasUser users (userId s) := by
  intro s hs
  rw [Table.insert_rows h] at hs
  rcases List.mem_append.mp hs with hs | hs
  · exact ht s hs
  · obtain rfl := List.mem_singleton.mp hs
    exact hr

/-- Insert a row of `wallets`. -/
def insertWallet (db : Database) (r : Wallet) : Except SqlError Database :=
  match h : db.wallets.insert r with
  | .error e => .error e
  | .ok wallets =>
      if hr : HasUser db.users r.userId then
        .ok
          { db with
            wallets := wallets
            wallet_user := forall_hasUser_insert h hr db.wallet_user }
      else .error .integrityError

/-- Insert a row of `bets`. -/
def insertBet (db : Database) (r : Bet) : Except SqlError Database :=
  match h : db.bets.insert r with
  | .error e => .error e
  | .ok bets =>
      if hr : HasUser db.users r.userId then
        .ok { db with bets := bets, bet_user := forall_hasUser_insert h hr db.bet_user }
      else .error .integrityError

/-- Insert a row of `wallet_ledger`. -/
def insertLedger (db : Database) (r : WalletLedger) : Except SqlError Database :=
  match h : db.ledger.insert r with
  | .error e => .error e
  | .ok ledger =>
      if hr : HasUser db.users r.userId then
        .ok { db with ledger := ledger, ledger_user := forall_hasUser_insert h hr db.ledger_user }
      else .error .integrityError

/-- Insert a row of `mpesa_transactions`. -/
def insertTransaction (db : Database) (r : MpesaTransaction) : Except SqlError Database :=
  match h : db.transactions.insert r with
  | .error e => .error e
  | .ok transactions =>
      if hr : HasUser db.users r.userId then
        .ok
          { db with
            transactions := transactions
            transaction_user := forall_hasUser_insert h hr db.transaction_user }
      else .error .integrityError

/-- A foreign key survives an update that leaves it alone. -/
theorem forall_hasUser_update {ρ : Type} [Schema ρ] {t t' : Table ρ} {p : ρ → Bool} {f : ρ → ρ}
    {hkeys : ∀ r s, Schema.Clash (f r) s ↔ Schema.Clash r s} {userId : ρ → Uuid}
    {users : Table User} (h : t.update p f hkeys = .ok t') (hf : ∀ r, userId (f r) = userId r)
    (ht : ∀ s ∈ t.rows, HasUser users (userId s)) : ∀ s ∈ t'.rows, HasUser users (userId s) := by
  intro s hs
  rw [Table.update_rows h] at hs
  obtain ⟨r, hr, rfl⟩ := List.mem_map.mp hs
  split
  · exact hf r ▸ ht r hr
  · exact ht r hr

/-- `UPDATE wallets SET balance_cents = f(balance_cents) WHERE p`. -/
def updateWallets (db : Database) (p : Wallet → Bool) (f : Int → Int) :
    Except SqlError Database :=
  match h : db.wallets.update p (fun r => { r with balanceCents := f r.balanceCents })
      (fun _ _ => Iff.rfl) with
  | .error e => .error e
  | .ok wallets =>
      .ok
        { db with
          wallets := wallets
          wallet_user := forall_hasUser_update h (fun _ => rfl) db.wallet_user }

/-- `UPDATE bets SET status = status WHERE p`. -/
def updateBets (db : Database) (p : Bet → Bool) (status : BetStatus) : Except SqlError Database :=
  match h : db.bets.update p (fun r => { r with status := status }) (fun _ _ => Iff.rfl) with
  | .error e => .error e
  | .ok bets =>
      .ok
        { db with
          bets := bets
          bet_user := forall_hasUser_update h (fun _ => rfl) db.bet_user }

/-- `UPDATE mpesa_transactions SET ... WHERE checkout_request_id = checkoutId`. -/
def writeTransaction (db : Database) (checkoutId : String) (columns : CallbackColumns) :
    Except SqlError Database :=
  match h : db.transactions.update (fun r => r.checkoutRequestId = checkoutId)
      (fun r => r.write columns) (fun _ _ => Iff.rfl) with
  | .error e => .error e
  | .ok transactions =>
      .ok
        { db with
          transactions := transactions
          transaction_user := forall_hasUser_update h (fun _ => rfl) db.transaction_user }

/-! ## What the writes do -/

section Writes

variable {db db' : Database}

/-- What an inserted user changes. -/
theorem insertUser_eq_ok_iff {r : User} :
    db.insertUser r = .ok db' ↔
      db.users.insert r = .ok db'.users ∧ db'.wallets = db.wallets ∧ db'.bets = db.bets ∧
        db'.ledger = db.ledger ∧ db'.transactions = db.transactions := by
  unfold insertUser
  split
  · rename_i h
    simp [h]
  · rename_i h
    simp [h, Database.ext_iff, eq_comm]

/-- What an inserted wallet changes: it needs its user. -/
theorem insertWallet_eq_ok_iff {r : Wallet} :
    db.insertWallet r = .ok db' ↔
      db.wallets.insert r = .ok db'.wallets ∧ HasUser db.users r.userId ∧ db'.users = db.users ∧
        db'.bets = db.bets ∧ db'.ledger = db.ledger ∧ db'.transactions = db.transactions := by
  unfold insertWallet
  split
  · rename_i h
    simp [h]
  · rename_i h
    split
    · rename_i hr
      simp [h, hr, Database.ext_iff, eq_comm, and_left_comm]
    · rename_i hr
      simp [hr]

/-- What an inserted bet changes: it needs its user. -/
theorem insertBet_eq_ok_iff {r : Bet} :
    db.insertBet r = .ok db' ↔
      db.bets.insert r = .ok db'.bets ∧ HasUser db.users r.userId ∧ db'.users = db.users ∧
        db'.wallets = db.wallets ∧ db'.ledger = db.ledger ∧
        db'.transactions = db.transactions := by
  unfold insertBet
  split
  · rename_i h
    simp [h]
  · rename_i h
    split
    · rename_i hr
      simp [h, hr, Database.ext_iff, eq_comm, and_left_comm]
    · rename_i hr
      simp [hr]

/-- What an inserted ledger row changes: it needs its user. -/
theorem insertLedger_eq_ok_iff {r : WalletLedger} :
    db.insertLedger r = .ok db' ↔
      db.ledger.insert r = .ok db'.ledger ∧ HasUser db.users r.userId ∧ db'.users = db.users ∧
        db'.wallets = db.wallets ∧ db'.bets = db.bets ∧ db'.transactions = db.transactions := by
  unfold insertLedger
  split
  · rename_i h
    simp [h]
  · rename_i h
    split
    · rename_i hr
      simp [h, hr, Database.ext_iff, eq_comm, and_left_comm]
    · rename_i hr
      simp [hr]

/-- What an inserted transaction changes: it needs its user. -/
theorem insertTransaction_eq_ok_iff {r : MpesaTransaction} :
    db.insertTransaction r = .ok db' ↔
      db.transactions.insert r = .ok db'.transactions ∧ HasUser db.users r.userId ∧
        db'.users = db.users ∧ db'.wallets = db.wallets ∧ db'.bets = db.bets ∧
        db'.ledger = db.ledger := by
  unfold insertTransaction
  split
  · rename_i h
    simp [h]
  · rename_i h
    split
    · rename_i hr
      simp only [Except.ok.injEq, Database.ext_iff, h, hr, true_and]
      grind
    · rename_i hr
      simp [hr]

/-- What an update of balances changes. -/
theorem updateWallets_eq_ok_iff {p : Wallet → Bool} {f : Int → Int} :
    db.updateWallets p f = .ok db' ↔
      db.wallets.update p (fun r => { r with balanceCents := f r.balanceCents })
          (fun _ _ => Iff.rfl) = .ok db'.wallets ∧
        db'.users = db.users ∧ db'.bets = db.bets ∧ db'.ledger = db.ledger ∧
        db'.transactions = db.transactions := by
  unfold updateWallets
  split
  · rename_i h
    simp [h]
  · rename_i h
    simp [h, Database.ext_iff, eq_comm, and_left_comm]

/-- What an update of statuses changes. -/
theorem updateBets_eq_ok_iff {p : Bet → Bool} {status : BetStatus} :
    db.updateBets p status = .ok db' ↔
      db.bets.update p (fun r => { r with status := status }) (fun _ _ => Iff.rfl) =
          .ok db'.bets ∧
        db'.users = db.users ∧ db'.wallets = db.wallets ∧ db'.ledger = db.ledger ∧
        db'.transactions = db.transactions := by
  unfold updateBets
  split
  · rename_i h
    simp [h]
  · rename_i h
    simp [h, Database.ext_iff, eq_comm, and_left_comm]

/-- What the columns of a callback change. -/
theorem writeTransaction_eq_ok_iff {checkoutId : String} {columns : CallbackColumns} :
    db.writeTransaction checkoutId columns = .ok db' ↔
      db.transactions.update (fun r => r.checkoutRequestId = checkoutId)
          (fun r => r.write columns) (fun _ _ => Iff.rfl) = .ok db'.transactions ∧
        db'.users = db.users ∧ db'.wallets = db.wallets ∧ db'.bets = db.bets ∧
        db'.ledger = db.ledger := by
  unfold writeTransaction
  split
  · rename_i h
    simp [h]
  · rename_i h
    simp only [Except.ok.injEq, Database.ext_iff, h]
    grind

theorem exists_insertUser {r : User} (h : ∃ t, db.users.insert r = .ok t) :
    ∃ db', db.insertUser r = .ok db' := by
  obtain ⟨t, ht⟩ := h
  unfold insertUser
  split
  · rename_i herror
    rw [ht] at herror
    contradiction
  · exact ⟨_, rfl⟩

theorem insertUser_eq_error {r : User} {e : SqlError} (h : db.users.insert r = .error e) :
    db.insertUser r = .error e := by
  unfold insertUser
  split
  · rename_i herror
    rw [h] at herror
    rw [Except.error.inj herror]
  · rename_i hok
    rw [h] at hok
    contradiction

theorem exists_insertWallet {r : Wallet} (h : ∃ t, db.wallets.insert r = .ok t)
    (hr : HasUser db.users r.userId) : ∃ db', db.insertWallet r = .ok db' := by
  obtain ⟨t, ht⟩ := h
  unfold insertWallet
  split
  · rename_i herror
    rw [ht] at herror
    contradiction
  · exact ⟨_, dif_pos hr⟩

theorem exists_insertBet {r : Bet} (h : ∃ t, db.bets.insert r = .ok t)
    (hr : HasUser db.users r.userId) : ∃ db', db.insertBet r = .ok db' := by
  obtain ⟨t, ht⟩ := h
  unfold insertBet
  split
  · rename_i herror
    rw [ht] at herror
    contradiction
  · exact ⟨_, dif_pos hr⟩

theorem exists_insertLedger {r : WalletLedger} (h : ∃ t, db.ledger.insert r = .ok t)
    (hr : HasUser db.users r.userId) : ∃ db', db.insertLedger r = .ok db' := by
  obtain ⟨t, ht⟩ := h
  unfold insertLedger
  split
  · rename_i herror
    rw [ht] at herror
    contradiction
  · exact ⟨_, dif_pos hr⟩

/-- An update of balances succeeds when all of them can be stored. -/
theorem exists_updateWallets {p : Wallet → Bool} {f : Int → Int}
    (h : ∀ r ∈ db.wallets.rows, p r → IsBigInteger (f r.balanceCents) ∧ 0 ≤ f r.balanceCents) :
    ∃ db', db.updateWallets p f = .ok db' := by
  obtain ⟨t, ht⟩ : ∃ t, db.wallets.update p (fun r => { r with balanceCents := f r.balanceCents })
      (fun _ _ => Iff.rfl) = .ok t := Table.exists_update h
  unfold updateWallets
  split
  · rename_i herror
    rw [ht] at herror
    contradiction
  · exact ⟨_, rfl⟩

/-- So does one of a transaction. -/
theorem exists_writeTransaction {checkoutId : String} {columns : CallbackColumns}
    (h : ∀ r ∈ db.transactions.rows, r.checkoutRequestId = checkoutId →
      Schema.Storable (r.write columns)) :
    ∃ db', db.writeTransaction checkoutId columns = .ok db' := by
  obtain ⟨t, ht⟩ : ∃ t, db.transactions.update (fun r => r.checkoutRequestId = checkoutId)
      (fun r => r.write columns) (fun _ _ => Iff.rfl) = .ok t :=
    Table.exists_update fun r hr hp => ⟨h r hr (of_decide_eq_true hp), trivial⟩
  unfold writeTransaction
  split
  · rename_i herror
    rw [ht] at herror
    contradiction
  · exact ⟨_, rfl⟩

/-! ## Lookups -/

/-- A transaction's row after a write to the row of one id. -/
theorem transaction_of_rows {checkoutId : String} {columns : CallbackColumns}
    (h : db'.transactions.rows = db.transactions.rows.map fun r =>
      if r.checkoutRequestId = checkoutId then r.write columns else r) (id : String) :
    db'.transaction id =
      (db.transaction id).map fun r => if id = checkoutId then r.write columns else r := by
  have hkey : ∀ r : MpesaTransaction,
      (if r.checkoutRequestId = checkoutId then r.write columns else r).checkoutRequestId =
        r.checkoutRequestId := by
    intro r
    split <;> rfl
  unfold transaction Table.find
  rw [h, List.find?_map]
  simp only [Function.comp_def, hkey]
  cases hfind : db.transactions.rows.find? fun r => r.checkoutRequestId = id with
  | none => rfl
  | some r =>
      obtain rfl : r.checkoutRequestId = id := by simpa using List.find?_some hfind
      rfl

/-- A found transaction is the only row with its id. -/
theorem transaction_eq_some_iff {id : String} {txn : MpesaTransaction} :
    db.transaction id = some txn ↔ txn ∈ db.transactions.rows ∧ txn.checkoutRequestId = id :=
  Table.find_eq_some_iff fun _ _ hid => hid

/-! ## Balances -/

/-- Balances depend on the wallets alone. -/
theorem balance_eq_of_wallets (h : db'.wallets = db.wallets) (user : Uuid) :
    db'.balance user = db.balance user := by
  simp [balance, h]

/-- A balance is that of the user's only row. -/
theorem balance_eq_some_iff {user : Uuid} {amount : Int} :
    db.balance user = some amount ↔ ⟨user, amount⟩ ∈ db.wallets.rows := by
  have hfind : ∀ r, db.wallets.find Wallet.userId user = some r ↔
      r ∈ db.wallets.rows ∧ r.userId = user :=
    fun r => Table.find_eq_some_iff fun _ _ h => h
  constructor
  · intro h
    obtain ⟨r, hr, rfl⟩ := Option.map_eq_some_iff.mp h
    obtain ⟨hmem, rfl⟩ := (hfind r).mp hr
    exact hmem
  · intro hmem
    rw [balance, (hfind ⟨user, amount⟩).mpr ⟨hmem, rfl⟩]
    rfl

/-- No balance is negative. -/
theorem wallet_balance_nonneg {user : Uuid} {amount : Int} (h : db.balance user = some amount) :
    0 ≤ amount :=
  (db.wallets.checked _ (balance_eq_some_iff.mp h)).2

/-- A user without a row has none. -/
theorem balance_eq_none_iff {user : Uuid} :
    db.balance user = none ↔ ∀ r ∈ db.wallets.rows, r.userId ≠ user := by
  rw [balance, Option.map_eq_none_iff]
  exact Table.find_eq_none_iff

/-- A new wallet row gives its user a balance. -/
theorem balance_insertWallet {r : Wallet} (h : db.insertWallet r = .ok db') (user : Uuid) :
    db'.balance user = if r.userId = user then some r.balanceCents else db.balance user := by
  have hinsert := (insertWallet_eq_ok_iff.mp h).1
  unfold balance
  rw [Table.find_insert (fun _ _ hkey => hkey) hinsert]
  split <;> rfl

/-- The rows of one user's wallet whose balance meets a condition. -/
def walletWhere (user : Uuid) (cond : Int → Bool) (r : Wallet) : Bool :=
  r.userId = user && cond r.balanceCents

/-- An update of one user's wallet row changes that user's balance only. -/
theorem balance_updateWallets {user : Uuid} {cond : Int → Bool} {f : Int → Int}
    (h : db.updateWallets (walletWhere user cond) f = .ok db') (user' : Uuid) :
    db'.balance user' =
      if user' = user then
        (db.balance user).map fun b => if cond b then f b else b
      else db.balance user' := by
  have hupdate := (updateWallets_eq_ok_iff.mp h).1
  unfold balance
  rw [Table.find_update hupdate fun _ => rfl]
  cases hfind : db.wallets.find Wallet.userId user' with
  | none =>
      split
      · rename_i huser
        subst huser
        simp [hfind]
      · simp
  | some r =>
      obtain ⟨-, rfl⟩ := Table.find_eq_some hfind
      by_cases huser : r.userId = user
      · subst huser
        rw [if_pos rfl, hfind]
        simp only [walletWhere, Option.map_some, decide_true, Bool.true_and]
        split <;> simp_all
      · simp [walletWhere, huser]

/-- `rowcount` of a statement on `wallets`. -/
def rowcount (db : Database) (p : Wallet → Bool) : Nat :=
  (db.wallets.rows.filter p).length

/-- A statement on one user's wallet finds one row or none. -/
theorem rowcount_walletWhere (user : Uuid) (cond : Int → Bool) :
    db.rowcount (walletWhere user cond) =
      match db.balance user with
      | some b => if cond b then 1 else 0
      | none => 0 := by
  have hsplit : db.wallets.rows.filter (walletWhere user cond) =
      (db.wallets.rows.filter fun r => r.userId = user).filter fun r => cond r.balanceCents := by
    rw [List.filter_filter]
    congr 1
    funext r
    simp [walletWhere, Bool.and_comm]
  rw [rowcount, hsplit, Table.filter_key (fun _ _ hkey => hkey), balance]
  cases db.wallets.find Wallet.userId user with
  | none => rfl
  | some r =>
      simp only [Option.toList_some, Option.map_some, List.filter_cons, List.filter_nil]
      split <;> rfl

end Writes

end Database
end Settlement
end BettingPlatform
