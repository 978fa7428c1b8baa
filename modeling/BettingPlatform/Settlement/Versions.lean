import BettingPlatform.Foundations.RowLocks
import BettingPlatform.Settlement.Models

/-!
# Uncommitted row versions

What a transaction in flight has written: at most one row version of each table.  Its
commit installs the versions in the database; its abort drops them.  A wallet version
carries the balance the statement computed when it ran, so that a commit writes that
value and does not compute it again.

Main results:

- Theorem `install_eq_ok`: what a commit does to the five tables.
-/

namespace BettingPlatform
namespace Settlement

/-- The uncommitted versions of one transaction. -/
structure Pending where
  user : Option User
  wallet : Option Wallet
  /-- The columns written on the transaction with this checkout request id. -/
  transaction : Option (String × CallbackColumns)
  bet : Option Bet
  ledger : Option WalletLedger
deriving DecidableEq

/-- A transaction that has written nothing. -/
def Pending.empty : Pending where
  user := none
  wallet := none
  transaction := none
  bet := none
  ledger := none

/-- Make a wallet version the committed one. -/
def putWallet (db : Database) (r : Wallet) : Except SqlError Database :=
  if (db.balance r.userId).isSome then
    db.updateWallets (Database.walletWhere r.userId fun _ => true) fun _ => r.balanceCents
  else db.insertWallet r

/-- Apply a write for a version that may not be there. -/
def applyVersion {ν : Type} (write : Database → ν → Except SqlError Database)
    (version : Option ν) (db : Database) : Except SqlError Database :=
  match version with
  | none => .ok db
  | some r => write db r

/-- The commit of a transaction's versions. -/
def install (pending : Pending) (db : Database) : Except SqlError Database := do
  let db ← applyVersion Database.insertUser pending.user db
  let db ← applyVersion putWallet pending.wallet db
  let db ← applyVersion (fun db (id, columns) => db.writeTransaction id columns)
    pending.transaction db
  let db ← applyVersion Database.insertBet pending.bet db
  applyVersion Database.insertLedger pending.ledger db

section Install

variable {db db' : Database}

/-- A written version changes one balance. -/
theorem putWallet_eq_ok {r : Wallet} (h : putWallet db r = .ok db') :
    (∀ user, db'.balance user = if user = r.userId then some r.balanceCents else db.balance user) ∧
      db'.users = db.users ∧ db'.bets = db.bets ∧ db'.ledger = db.ledger ∧
      db'.transactions = db.transactions := by
  unfold putWallet at h
  split at h
  · rename_i hsome
    obtain ⟨amount, hamount⟩ := Option.isSome_iff_exists.mp hsome
    refine ⟨fun user => ?_, (Database.updateWallets_eq_ok_iff.mp h).2⟩
    rw [Database.balance_updateWallets h, hamount]
    simp
  · refine ⟨fun user => ?_, (Database.insertWallet_eq_ok_iff.mp h).2.2⟩
    rw [Database.balance_insertWallet h]
    simp only [eq_comm]

/-- Installing the value an update of one wallet computed is running the update. -/
theorem putWallet_of_update {user : Uuid} {amount : Int} {cond : Int → Bool} {f : Int → Int}
    (hamount : db.balance user = some amount) (hcond : cond amount)
    (h : db.updateWallets (Database.walletWhere user cond) f = .ok db') :
    putWallet db ⟨user, f amount⟩ = .ok db' := by
  have hsome : (db.balance user).isSome := by simp [hamount]
  rw [putWallet, if_pos hsome]
  obtain ⟨hrows, hrest⟩ := Database.updateWallets_eq_ok_iff.mp h
  refine Database.updateWallets_eq_ok_iff.mpr ⟨Table.update_congr (fun r hr => ?_) hrows, hrest⟩
  by_cases hown : r.userId = user
  · have hstored : r.balanceCents = amount := by
      have hfound : db.balance r.userId = some r.balanceCents :=
        Database.balance_eq_some_iff.mpr hr
      rw [hown, hamount] at hfound
      exact (Option.some.inj hfound).symm
    simp [Database.walletWhere, hown, hstored, hcond]
  · simp [Database.walletWhere, hown]

/-- Installing the version of a transaction is writing its columns. -/
theorem applyVersion_transaction (checkoutId : String) (columns : CallbackColumns)
    (db : Database) :
    applyVersion (fun db (id, columns) => db.writeTransaction id columns)
      (some (checkoutId, columns)) db = db.writeTransaction checkoutId columns :=
  rfl

/-- A user's balance once a wallet version is installed. -/
def balanceWith (wallet : Option Wallet) (balance : Uuid → Option Int) (user : Uuid) :
    Option Int :=
  match wallet with
  | some r => if user = r.userId then some r.balanceCents else balance user
  | none => balance user

/-- The rows of `mpesa_transactions` once a version is installed. -/
def transactionsWith (transaction : Option (String × CallbackColumns))
    (rows : List MpesaTransaction) : List MpesaTransaction :=
  match transaction with
  | some (id, columns) => rows.map fun r =>
      if r.checkoutRequestId = id then r.write columns else r
  | none => rows

/-- What a commit does to the five tables. -/
structure Installed (pending : Pending) (db db' : Database) : Prop where
  users : db'.users.rows = db.users.rows ++ pending.user.toList
  balance : ∀ user, db'.balance user = balanceWith pending.wallet db.balance user
  transactions : db'.transactions.rows = transactionsWith pending.transaction db.transactions.rows
  bets : db'.bets.rows = db.bets.rows ++ pending.bet.toList
  ledger : db'.ledger.rows = db.ledger.rows ++ pending.ledger.toList

/-- What a commit does to the five tables. -/
theorem install_eq_ok {pending : Pending} (h : install pending db = .ok db') :
    Installed pending db db' := by
  obtain ⟨user, wallet, transaction, bet, ledger⟩ := pending
  simp only [install, bind_eq_ok_iff] at h
  obtain ⟨db₁, huser, db₂, hwallet, db₃, htransaction, db₄, hbet, hledger⟩ := h
  have h₁ : db₁.users.rows = db.users.rows ++ user.toList ∧ db₁.wallets = db.wallets ∧
      db₁.bets = db.bets ∧ db₁.ledger = db.ledger ∧ db₁.transactions = db.transactions := by
    cases user with
    | none =>
        obtain rfl := Except.ok.inj huser
        simp
    | some r =>
        obtain ⟨hinsert, hrest⟩ := Database.insertUser_eq_ok_iff.mp huser
        exact ⟨Table.insert_rows hinsert, hrest⟩
  have h₂ : (∀ u, db₂.balance u = balanceWith wallet db₁.balance u) ∧
      db₂.users = db₁.users ∧ db₂.bets = db₁.bets ∧ db₂.ledger = db₁.ledger ∧
      db₂.transactions = db₁.transactions := by
    cases wallet with
    | none =>
        obtain rfl := Except.ok.inj hwallet
        simp [balanceWith]
    | some r => exact putWallet_eq_ok hwallet
  have h₃ : db₃.transactions.rows = transactionsWith transaction db₂.transactions.rows ∧
      db₃.users = db₂.users ∧ db₃.wallets = db₂.wallets ∧ db₃.bets = db₂.bets ∧
      db₃.ledger = db₂.ledger := by
    cases transaction with
    | none =>
        obtain rfl := Except.ok.inj htransaction
        simp [transactionsWith]
    | some columns =>
        obtain ⟨hupdate, hrest⟩ := Database.writeTransaction_eq_ok_iff.mp htransaction
        exact ⟨by simpa [Table.updatedRows, transactionsWith] using Table.update_rows hupdate, hrest⟩
  have h₄ : db₄.bets.rows = db₃.bets.rows ++ bet.toList ∧ db₄.users = db₃.users ∧
      db₄.wallets = db₃.wallets ∧ db₄.ledger = db₃.ledger ∧
      db₄.transactions = db₃.transactions := by
    cases bet with
    | none =>
        obtain rfl := Except.ok.inj hbet
        simp
    | some r =>
        obtain ⟨hinsert, -, hrest⟩ := Database.insertBet_eq_ok_iff.mp hbet
        exact ⟨Table.insert_rows hinsert, hrest⟩
  have h₅ : db'.ledger.rows = db₄.ledger.rows ++ ledger.toList ∧ db'.users = db₄.users ∧
      db'.wallets = db₄.wallets ∧ db'.bets = db₄.bets ∧
      db'.transactions = db₄.transactions := by
    cases ledger with
    | none =>
        obtain rfl := Except.ok.inj hledger
        simp
    | some r =>
        obtain ⟨hinsert, -, hrest⟩ := Database.insertLedger_eq_ok_iff.mp hledger
        exact ⟨Table.insert_rows hinsert, hrest⟩
  obtain ⟨husers₁, hwallets₁, hbets₁, hledger₁, htransactions₁⟩ := h₁
  obtain ⟨hbalance₂, husers₂, hbets₂, hledger₂, htransactions₂⟩ := h₂
  obtain ⟨htransactions₃, husers₃, hwallets₃, hbets₃, hledger₃⟩ := h₃
  obtain ⟨hbets₄, husers₄, hwallets₄, hledger₄, htransactions₄⟩ := h₄
  obtain ⟨hledger₅, husers₅, hwallets₅, hbets₅, htransactions₅⟩ := h₅
  refine ⟨?_, fun u => ?_, ?_, ?_, ?_⟩
  · rw [husers₅, husers₄, husers₃, husers₂, husers₁]
  · rw [Database.balance_eq_of_wallets hwallets₅, Database.balance_eq_of_wallets hwallets₄,
      Database.balance_eq_of_wallets hwallets₃, hbalance₂,
      funext (Database.balance_eq_of_wallets hwallets₁)]
  · rw [htransactions₅, htransactions₄, htransactions₃, htransactions₂, htransactions₁]
  · rw [hbets₅, hbets₄, hbets₃, hbets₂, hbets₁]
  · rw [hledger₅, hledger₄, hledger₃, hledger₂, hledger₁]

/-- A wallet version of another user leaves the user's balance alone. -/
theorem Installed.balance_of_apart {pending : Pending} {version : Option Wallet} {user : Uuid}
    (h : Installed pending db db') (hheld : ∃ r ∈ version, r.userId = user)
    (hapart : ∀ r ∈ version, ∀ s ∈ pending.wallet, ¬ Schema.Clash r s) :
    db'.balance user = db.balance user := by
  obtain ⟨r, hr, rfl⟩ := hheld
  rw [h.balance]
  unfold balanceWith
  split
  · rename_i s hs
    exact if_neg (hapart r hr s hs)
  · rfl

/-- The rows of `mpesa_transactions` with another id stay as they are. -/
theorem Installed.transaction_of_ne {pending : Pending} {id : String} (h : Installed pending db db')
    (hid : ∀ v ∈ pending.transaction, v.1 = id → db.transaction id = none) :
    db'.transaction id = db.transaction id := by
  have hrows := h.transactions
  unfold transactionsWith at hrows
  split at hrows
  · rename_i written columns hversion
    rw [Database.transaction_of_rows hrows]
    by_cases heq : written = id
    · simp [hid _ hversion heq]
    · simp [Ne.symm heq]
  · unfold Database.transaction Table.find
    rw [hrows]

end Install

end Settlement
end BettingPlatform
