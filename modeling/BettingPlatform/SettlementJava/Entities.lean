import BettingPlatform.Settlement.Models

/-!
# The entities of the Java settlement service

The Java service works on the tables of the Python service, with one more column:
`wallet_ledger.idempotency_key`, which is unique.  `save` of an entity with an assigned id
merges: it inserts the row when there is none with that id, and otherwise updates the
updatable columns of the row.

Main results:

- Theorems `JavaDatabase.insertEntry_eq_ok_iff` and `JavaDatabase.updateBet_eq_ok_iff`: what
  the writes do that the Python service does not have.
-/

namespace BettingPlatform
namespace SettlementJava

open Settlement

/-! ## The ledger with its key -/

/-- `WalletLedger`, the entity. -/
structure LedgerEntry extends WalletLedger where
  idempotencyKey : String
deriving DecidableEq

/-- `uq_wallet_ledger_idempotency_key`. -/
instance : Schema LedgerEntry where
  Storable r := Schema.Storable r.toWalletLedger ∧ IsVarchar 128 r.idempotencyKey
  Check _ := True
  Clash r s := r.idempotencyKey = s.idempotencyKey
  clash_symm h := h.symm
  decStorable _ := inferInstanceAs (Decidable (_ ∧ _))
  decCheck _ := inferInstance
  decClash _ _ := inferInstance

/-- The tables, and the rows of `wallet_ledger` with their keys. -/
@[ext]
structure JavaDatabase where
  tables : Database
  entries : Table LedgerEntry
  entries_rows : entries.rows.map LedgerEntry.toWalletLedger = tables.ledger.rows

namespace JavaDatabase

/-- The database after the migrations. -/
def empty : JavaDatabase where
  tables := .empty
  entries := .empty
  entries_rows := rfl

/-- The state with other tables and the same ledger. -/
theorem exists_tables (db : JavaDatabase) {tables : Database}
    (hledger : tables.ledger = db.tables.ledger) :
    ∃ db' : JavaDatabase, db'.tables = tables ∧ db'.entries = db.entries :=
  ⟨⟨tables, db.entries, by rw [hledger, db.entries_rows]⟩, rfl, rfl⟩

/-! ## Writes -/

/-- A write of another table than `wallet_ledger`. -/
def writing (db : JavaDatabase) (result : Except SqlError Database)
    (hledger : ∀ tables, result = .ok tables → tables.ledger = db.tables.ledger) :
    Except SqlError JavaDatabase :=
  match result, hledger with
  | .error e, _ => .error e
  | .ok tables, hledger =>
      .ok
        { tables
          entries := db.entries
          entries_rows := by rw [hledger tables rfl, db.entries_rows] }

/-- A statement on the shared tables leaves the entries. -/
theorem writing_eq_ok_iff {db db' : JavaDatabase} {result : Except SqlError Database}
    {hledger : ∀ tables, result = .ok tables → tables.ledger = db.tables.ledger} :
    db.writing result hledger = .ok db' ↔
      result = .ok db'.tables ∧ db'.entries = db.entries := by
  unfold writing
  split
  · simp
  · rename_i tables
    rw [Except.ok.injEq, JavaDatabase.ext_iff, Except.ok.injEq]
    constructor
    · rintro ⟨htables, hentries⟩
      exact ⟨htables, hentries.symm⟩
    · rintro ⟨htables, hentries⟩
      exact ⟨htables, hentries.symm⟩

/-- A write that the tables allow takes place, unless it is left out. -/
theorem ite_writing_eq_ok_iff {db db' : JavaDatabase} {result : Except SqlError Database}
    {hledger : ∀ tables, result = .ok tables → tables.ledger = db.tables.ledger} {c : Prop}
    [Decidable c] :
    (if c then .ok db else db.writing result hledger) = .ok db' ↔
      (if c then .ok db.tables else result) = .ok db'.tables ∧ db'.entries = db.entries := by
  split
  · rw [Except.ok.injEq, Except.ok.injEq, JavaDatabase.ext_iff, @eq_comm _ db.entries]
  · exact writing_eq_ok_iff

theorem insertUser_ledger {db db' : Database} {r : User} (h : db.insertUser r = .ok db') :
    db'.ledger = db.ledger :=
  (Database.insertUser_eq_ok_iff.mp h).2.2.2.1

theorem insertWallet_ledger {db db' : Database} {r : Wallet} (h : db.insertWallet r = .ok db') :
    db'.ledger = db.ledger :=
  (Database.insertWallet_eq_ok_iff.mp h).2.2.2.2.1

theorem insertBet_ledger {db db' : Database} {r : Bet} (h : db.insertBet r = .ok db') :
    db'.ledger = db.ledger :=
  (Database.insertBet_eq_ok_iff.mp h).2.2.2.2.1

theorem updateWallets_ledger {db db' : Database} {p : Wallet → Bool} {f : Int → Int}
    (h : db.updateWallets p f = .ok db') : db'.ledger = db.ledger :=
  (Database.updateWallets_eq_ok_iff.mp h).2.2.2.1

/-- The insert of a new `User`. -/
def insertUser (db : JavaDatabase) (r : User) : Except SqlError JavaDatabase :=
  db.writing (db.tables.insertUser r) fun _ h => insertUser_ledger h

/-- The insert of a new `Wallet`. -/
def insertWallet (db : JavaDatabase) (r : Wallet) : Except SqlError JavaDatabase :=
  db.writing (db.tables.insertWallet r) fun _ h => insertWallet_ledger h

/-- The insert of a new `Bet`. -/
def insertBet (db : JavaDatabase) (r : Bet) : Except SqlError JavaDatabase :=
  db.writing (db.tables.insertBet r) fun _ h => insertBet_ledger h

/-- `UPDATE wallets SET balance_cents = balanceCents WHERE user_id = user`. -/
def writeBalance (db : JavaDatabase) (user : Uuid) (balanceCents : Int) :
    Except SqlError JavaDatabase :=
  db.writing (db.tables.updateWallets (Database.walletWhere user fun _ => true) fun _ => balanceCents)
    fun _ h => updateWallets_ledger h

/-- The insert of a new `WalletLedger`. -/
def insertEntry (db : JavaDatabase) (r : LedgerEntry) : Except SqlError JavaDatabase :=
  match h : db.entries.insert r, h' : db.tables.insertLedger r.toWalletLedger with
  | .ok entries, .ok tables =>
      .ok
        { tables
          entries
          entries_rows := by
            rw [Table.insert_rows h, List.map_append, db.entries_rows,
              Table.insert_rows (Database.insertLedger_eq_ok_iff.mp h').1]
            rfl }
  | .error e, _ => .error e
  | _, .error e => .error e

/-- The row with the updatable columns of a merged entity. -/
def mergedInto (entity r : Bet) : Bet :=
  { r with
    status := entity.status
    rejectionReason := entity.rejectionReason }

/-- `UPDATE bets SET rejection_reason = ?, status = ? WHERE id = ?`. -/
def updateBet (db : JavaDatabase) (entity : Bet) : Except SqlError JavaDatabase :=
  match h : db.tables.bets.update (fun r => r.id = entity.id) (mergedInto entity)
      (fun _ _ => Iff.rfl) with
  | .error e => .error e
  | .ok bets =>
      .ok
        { tables :=
            { db.tables with
              bets
              bet_user := Database.forall_hasUser_update h (fun _ => rfl) db.tables.bet_user }
          entries := db.entries
          entries_rows := db.entries_rows }

/-- `betRepository.save` of a new `Bet`: the merge of an entity with an assigned id. -/
def saveBet (db : JavaDatabase) (entity : Bet) : Except SqlError JavaDatabase :=
  match db.tables.bets.find Bet.id entity.id with
  | none => db.insertBet entity
  | some _ => db.updateBet entity

/-! ## What the writes do -/

section Writes

variable {db db' : JavaDatabase}

/-- A ledger entry is inserted with its row. -/
theorem insertEntry_eq_ok_iff {r : LedgerEntry} :
    db.insertEntry r = .ok db' ↔
      db.entries.insert r = .ok db'.entries ∧
        db.tables.insertLedger r.toWalletLedger = .ok db'.tables := by
  unfold insertEntry
  split
  · rename_i hentries htables
    simp [hentries, htables, JavaDatabase.ext_iff, and_comm]
  · rename_i herror
    simp [herror]
  · rename_i herror _
    simp [herror]

/-- What an update of a bet changes. -/
theorem updateBet_eq_ok_iff {entity : Bet} :
    db.updateBet entity = .ok db' ↔
      db.tables.bets.update (fun r => r.id = entity.id) (mergedInto entity)
          (fun _ _ => Iff.rfl) = .ok db'.tables.bets ∧
        db'.tables.users = db.tables.users ∧ db'.tables.wallets = db.tables.wallets ∧
        db'.tables.ledger = db.tables.ledger ∧
        db'.tables.transactions = db.tables.transactions ∧ db'.entries = db.entries := by
  unfold updateBet
  split
  · rename_i h
    simp [h]
  · rename_i h
    simp only [h, Except.ok.injEq, JavaDatabase.ext_iff, Database.ext_iff]
    grind

/-- An update of a bet succeeds when the merged row can be stored. -/
theorem exists_updateBet {entity : Bet}
    (h : ∀ r ∈ db.tables.bets.rows, r.id = entity.id →
      Schema.Storable (mergedInto entity r)) : ∃ db', db.updateBet entity = .ok db' := by
  obtain ⟨t, ht⟩ : ∃ t, db.tables.bets.update (fun r => r.id = entity.id) (mergedInto entity)
      (fun _ _ => Iff.rfl) = .ok t :=
    Table.exists_update fun r hr hp => ⟨h r hr (of_decide_eq_true hp), trivial⟩
  unfold updateBet
  split
  · rename_i herror
    rw [ht] at herror
    contradiction
  · exact ⟨_, rfl⟩

/-- An entry can be inserted when its row can. -/
theorem exists_insertEntry {r : LedgerEntry} (hentries : ∃ t, db.entries.insert r = .ok t)
    (hledger : ∃ tables, db.tables.insertLedger r.toWalletLedger = .ok tables) :
    ∃ db', db.insertEntry r = .ok db' := by
  obtain ⟨entries, hentries⟩ := hentries
  obtain ⟨tables, htables⟩ := hledger
  unfold insertEntry
  split
  · exact ⟨_, rfl⟩
  · rename_i herror
    rw [hentries] at herror
    contradiction
  · rename_i herror _
    rw [htables] at herror
    contradiction

end Writes

end JavaDatabase
end SettlementJava
end BettingPlatform
