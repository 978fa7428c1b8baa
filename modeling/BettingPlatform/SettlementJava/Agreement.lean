import BettingPlatform.SettlementJava.Service

/-!
# The two settlement services

The Java service is documented as an alternative implementation of the Python worker with
the same business logic.  On an event that the worker accepts as valid, both check for the
key, open user and wallet, and debit an accepted stake in the same way.  They part where
Java also looks for the key in the ledger, where its save of the bet merges into a row
with the same id, and where it replaces a blank reason.

Main results:

- Theorem `processBetResultEvent_eq_ok_iff` and `processBetResult_eq_ok_iff`: both services
  write behind the same preparation.
- Theorem `servicesAgree_iff`: the services agree on an event exactly when they do not part
  in one of these three ways.
-/

namespace BettingPlatform
namespace SettlementJava

open Settlement

/-! ## The agreement -/

/-- The record with the values of a validated event. -/
def present (event : Settlement.BetResultEvent) (hlong : IsBigInteger event.stakeCents) :
    BetResultEvent where
  betId := event.betId
  accountId := event.userId
  idempotencyKey := event.idempotencyKey
  matchId := event.matchId
  selectionId := event.selectionId
  stakeCents := event.stakeCents
  odds := event.odds
  accepted := event.accepted
  reasonCode := event.reasonCode
  reason := event.reason
  stakeCents_long := hlong

/-- The tables behind a call of `processBetResult`. -/
def javaTables (event : BetResultEvent) (db : JavaDatabase) : Database :=
  match processBetResult event db with
  | .ok (_, db') => db'.tables
  | .error _ => db.tables

/-- The tables behind a call of `process_bet_result_event`. -/
def pythonTables (event : Settlement.BetResultEvent) (db : Database) : Database :=
  match processBetResultEvent event db with
  | .ok (_, db') => db'
  | .error _ => db

/-- Both services leave the tables alone, or both commit the same rows. -/
def ServicesAgree (event : Settlement.BetResultEvent) (hlong : IsBigInteger event.stakeCents)
    (db : JavaDatabase) : Prop :=
  javaTables (present event hlong) db = pythonTables event db.tables

/-! ## Where they can part -/

/-- The key is a text without a bet, the user exists or its name is free, and the wallet covers
what the event takes. -/
structure Ready (event : Settlement.BetResultEvent) (db : Database) : Prop where
  key_text : IsText event.idempotencyKey
  key_new : ∀ r ∈ db.bets.rows, r.idempotencyKey ≠ event.idempotencyKey
  username : HasUser db.users event.userId ∨
    ∀ r ∈ db.users.rows, r.username ≠ usernameOf event.userId
  covered : event.debit ≤ openingBalance db event.userId openingBalanceCents

/-- The server can hold the texts of the event's bet. -/
structure HasTexts (event : Settlement.BetResultEvent) : Prop where
  matchId : IsText event.matchId
  selectionId : IsText event.selectionId
  reason : statusFromResult event ≠ .accepted → IsText event.rejectionReason

/-- The ways in which the services part. -/
inductive Parts (event : Settlement.BetResultEvent) (hlong : IsBigInteger event.stakeCents)
    (db : JavaDatabase) : Prop
  /-- Python persists an event whose key Java finds in the ledger. -/
  | skipped (ready : Ready event db.tables) (texts : HasTexts event)
      (free : ∀ r ∈ db.tables.bets.rows, r.id ≠ event.betId)
      (known : ∃ r ∈ db.entries.rows, r.idempotencyKey = event.idempotencyKey)
  /-- Java changes the bet that has the event's id, or debits its stake again, where Python
  meets the primary key. -/
  | merged (ready : Ready event db.tables)
      (unknown : ∀ r ∈ db.entries.rows, r.idempotencyKey ≠ event.idempotencyKey)
      (r : Bet) (mem : r ∈ db.tables.bets.rows) (id : r.id = event.betId)
      (changed : statusFromResult event = .accepted ∨
        IsText (present event hlong).rejectionReason ∧
          (db.tables.balance event.userId = none ∨ r.status ≠ .rejected ∨
            r.rejectionReason ≠ some (present event hlong).rejectionReason))
  /-- The services persist a rejected bet with different reasons. -/
  | reworded (ready : Ready event db.tables) (texts : HasTexts event)
      (free : ∀ r ∈ db.tables.bets.rows, r.id ≠ event.betId)
      (unknown : ∀ r ∈ db.entries.rows, r.idempotencyKey ≠ event.idempotencyKey)
      (rejected : statusFromResult event ≠ .accepted)
      (different : event.rejectionReason ≠ (present event hlong).rejectionReason)

/-! ## The common preparation -/

/-- The statements in front of the bet's row: the upserts and the debit. -/
def prepare (event : Settlement.BetResultEvent) (db : Database) :
    Except Settlement.Raised Database := do
  let db ← sql (upsertUser db event.userId)
  let db ← sql (upsertWallet db event.userId openingBalanceCents)
  if statusFromResult event = .accepted then debitWallet db event.userId event.stakeCents
  else .ok db

section Preparation

variable {event : Settlement.BetResultEvent} {db db' : Database}

/-- The statements before the bet is inserted. -/
theorem prepare_eq_ok_iff :
    prepare event db = .ok db' ↔
      ∃ db₁, upsertUser db event.userId = .ok db₁ ∧
        ∃ db₂, upsertWallet db₁ event.userId openingBalanceCents = .ok db₂ ∧
          (if statusFromResult event = .accepted then
            debitWallet db₂ event.userId event.stakeCents else .ok db₂) = .ok db' := by
  simp only [prepare, bind_eq_ok_iff, sql_eq_ok_iff]

/-- What the upserts leave. -/
theorem balance_upserted {db₁ db₂ : Database} (huser : upsertUser db event.userId = .ok db₁)
    (hwallet : upsertWallet db₁ event.userId openingBalanceCents = .ok db₂) :
    db₂.balance event.userId = some (openingBalance db event.userId openingBalanceCents) := by
  obtain ⟨-, hwallets, -⟩ := upsertUser_eq_ok huser
  obtain ⟨hbalance, -⟩ := upsertWallet_eq_ok hwallet
  rw [hbalance, if_pos rfl, openingBalance, openingBalance,
    Database.balance_eq_of_wallets hwallets]

/-- They leave the user and the wallet, and no bet or ledger row. -/
theorem prepare_eq_ok (h : prepare event db = .ok db') :
    HasUser db'.users event.userId ∧ db'.bets = db.bets ∧ db'.ledger = db.ledger ∧
      (db'.balance event.userId).isSome := by
  obtain ⟨db₁, huser, db₂, hwallet, h⟩ := prepare_eq_ok_iff.mp h
  have hbalance := balance_upserted huser hwallet
  obtain ⟨hhas, -, hbets₁, hledger₁, -⟩ := upsertUser_eq_ok huser
  obtain ⟨-, husers₂, hbets₂, hledger₂, -⟩ := upsertWallet_eq_ok hwallet
  split at h
  · obtain ⟨⟨amount, -, -, hdebited⟩, husers₃, hbets₃, hledger₃, -⟩ := debitWallet_eq_ok h
    refine ⟨husers₃ ▸ husers₂ ▸ hhas, hbets₃.trans (hbets₂.trans hbets₁),
      hledger₃.trans (hledger₂.trans hledger₁), ?_⟩
    simp [hdebited]
  · obtain rfl := Except.ok.inj h
    exact ⟨husers₂ ▸ hhas, hbets₂.trans hbets₁, hledger₂.trans hledger₁, by simp [hbalance]⟩

/-- A user can be upserted when the generated name is free. -/
theorem exists_upsertUser {user : Uuid} (h : HasUser db.users user ∨
    ∀ r ∈ db.users.rows, r.username ≠ usernameOf user) :
    ∃ db', upsertUser db user = .ok db' := by
  unfold upsertUser
  split
  · exact ⟨db, rfl⟩
  · rename_i hno
    refine Database.exists_insertUser (Table.exists_insert (usernameOf_varchar user) trivial ?_)
    rintro r hr (hid | husername)
    · exact hno ⟨r, hr, hid⟩
    · exact (h.resolve_left hno) r hr husername

/-- A ready database can be prepared. -/
theorem exists_prepare (hlong : IsBigInteger event.stakeCents) (h : Ready event db) :
    ∃ db', prepare event db = .ok db' := by
  obtain ⟨db₁, huser⟩ := exists_upsertUser h.username
  obtain ⟨hhas, hwallets, -⟩ := upsertUser_eq_ok huser
  obtain ⟨db₂, hwallet⟩ : ∃ db₂, upsertWallet db₁ event.userId openingBalanceCents = .ok db₂ := by
    unfold upsertWallet
    split
    · exact ⟨db₁, rfl⟩
    · rename_i hnone
      exact exists_insertOpening hhas (Option.not_isSome_iff_eq_none.mp hnone) (by decide)
        (by decide)
  have hbalance := balance_upserted huser hwallet
  by_cases haccepted : statusFromResult event = .accepted
  · have hcovered := h.covered
    rw [BetResultEvent.debit, if_pos haccepted] at hcovered
    obtain ⟨db₃, hdebit, -⟩ := exists_debitWallet hbalance hlong event.stake_pos hcovered
    exact ⟨db₃, prepare_eq_ok_iff.mpr ⟨db₁, huser, db₂, hwallet, by rwa [if_pos haccepted]⟩⟩
  · exact ⟨db₂, prepare_eq_ok_iff.mpr ⟨db₁, huser, db₂, hwallet, by rw [if_neg haccepted]⟩⟩

/-- A rejected event whose wallet exists needs no preparation. -/
theorem prepare_eq_self (hrejected : statusFromResult event ≠ .accepted)
    (hwallet : (db.balance event.userId).isSome) : prepare event db = .ok db := by
  obtain ⟨amount, hamount⟩ := Option.isSome_iff_exists.mp hwallet
  have huser : HasUser db.users event.userId :=
    db.wallet_user _ (Database.balance_eq_some_iff.mp hamount)
  refine prepare_eq_ok_iff.mpr ⟨db, ?_, db, ?_, ?_⟩
  · rw [upsertUser, if_pos huser]
  · rw [upsertWallet, if_pos hwallet]
  · rw [if_neg hrejected]

/-- And one that can be is ready. -/
theorem ready_of_prepare (htext : IsText event.idempotencyKey)
    (hnew : ∀ r ∈ db.bets.rows, r.idempotencyKey ≠ event.idempotencyKey)
    (h : prepare event db = .ok db') : Ready event db := by
  obtain ⟨db₁, huser, db₂, hwallet, h⟩ := prepare_eq_ok_iff.mp h
  refine ⟨htext, hnew, ?_, ?_⟩
  · unfold upsertUser at huser
    split at huser
    · rename_i hhas
      exact Or.inl hhas
    · obtain ⟨hinsert, -⟩ := Database.insertUser_eq_ok_iff.mp huser
      obtain ⟨-, -, hfree, -⟩ := Table.insert_eq_ok_iff.mp hinsert
      exact Or.inr fun r hr hname => hfree r hr (Or.inr hname)
  · have hbalance := balance_upserted huser hwallet
    unfold BetResultEvent.debit
    split at h
    · rename_i haccepted
      obtain ⟨⟨amount, hamount, hcovered, -⟩, -⟩ := debitWallet_eq_ok h
      rw [if_pos haccepted]
      exact Option.some.inj (hamount.symm.trans hbalance) ▸ hcovered
    · rename_i hrejected
      rw [if_neg hrejected]
      exact openingBalance_nonneg _ _ (by decide)

/-- With a new key, the Python worker prepares, inserts the bet, and inserts a ledger row
for an accepted one. -/
theorem processBetResultEvent_eq_ok_iff (htext : IsText event.idempotencyKey)
    (hnew : ∀ r ∈ db.bets.rows, r.idempotencyKey ≠ event.idempotencyKey) {b : Bool} :
    processBetResultEvent event db = .ok (b, db') ↔
      b = true ∧ ∃ prepared, prepare event db = .ok prepared ∧
        ∃ inserted, prepared.insertBet event.bet = .ok inserted ∧
          (if statusFromResult event = .accepted then inserted.insertLedger event.ledgerRow
            else .ok inserted) = .ok db' := by
  have hknown : idempotencyKeyExists db event.idempotencyKey = .ok false := by
    rw [idempotencyKeyExists, if_pos htext, Table.find_eq_none_iff.mpr hnew]
    rfl
  unfold processBetResultEvent
  simp only [hknown, prepare_eq_ok_iff, bind_eq_ok_iff, sql_eq_ok_iff, Except.ok.injEq,
    exists_eq_left', Bool.false_eq_true, if_false]
  by_cases haccepted : statusFromResult event = .accepted
  · simp only [haccepted, if_true, bind_eq_ok_iff, sql_eq_ok_iff, Except.ok.injEq, Prod.mk.injEq]
    grind
  · simp only [haccepted, if_false, bind_eq_ok_iff, sql_eq_ok_iff, Except.ok.injEq,
      Prod.mk.injEq]
    grind

/-- With a key that neither table knows, the Java service prepares in the same way, saves the
bet, and inserts a ledger row for an accepted one. -/
theorem processBetResult_eq_ok_iff {hlong : IsBigInteger event.stakeCents}
    {db db' : JavaDatabase} (htext : IsText event.idempotencyKey)
    (hnew : ∀ r ∈ db.tables.bets.rows, r.idempotencyKey ≠ event.idempotencyKey)
    (hunknown : ∀ r ∈ db.entries.rows, r.idempotencyKey ≠ event.idempotencyKey) {b : Bool} :
    processBetResult (present event hlong) db = .ok (b, db') ↔
      b = true ∧ ∃ prepared : JavaDatabase,
        (prepare event db.tables = .ok prepared.tables ∧ prepared.entries = db.entries) ∧
        ∃ saved, prepared.saveBet (present event hlong).bet = .ok saved ∧
          (if statusFromResult event = .accepted then
            saved.insertEntry (present event hlong).entry else .ok saved) = .ok db' := by
  have hstatus : resolveStatus (present event hlong) = statusFromResult event := rfl
  have hduplicate : isDuplicate db (present event hlong).idempotencyKey = .ok false :=
    isDuplicate_new htext hnew hunknown
  unfold processBetResult
  simp only [hduplicate, hstatus, bind_eq_ok_iff, jpa_eq_ok_iff, Except.ok.injEq,
    exists_eq_left', Bool.false_eq_true, if_false]
  constructor
  · rintro ⟨opened, hensure, h⟩
    obtain ⟨⟨db₁, huser, hwallet⟩, hentries⟩ := ensureUserAndWallet_eq_ok_iff.mp hensure
    split at h
    · rename_i haccepted
      obtain ⟨db'', haccept, h⟩ := bind_eq_ok_iff.mp h
      obtain ⟨rfl, rfl⟩ : true = b ∧ db'' = db' := by simpa using h
      obtain ⟨debited, ⟨hdebit, hentries'⟩, saved, hsave, hentry⟩ :=
        (acceptBet_eq_ok_iff (balance_upserted huser hwallet)).mp haccept
      refine ⟨rfl, debited, ⟨prepare_eq_ok_iff.mpr ⟨db₁, huser, opened.tables, hwallet, ?_⟩,
        hentries'.trans hentries⟩, saved, hsave, ?_⟩
      · rw [if_pos haccepted]
        exact hdebit
      · rw [if_pos haccepted]
        exact hentry
    · rename_i hrejected
      obtain ⟨saved, hsave, h⟩ := bind_eq_ok_iff.mp h
      obtain ⟨rfl, rfl⟩ : true = b ∧ saved = db' := by simpa using h
      refine ⟨rfl, opened, ⟨prepare_eq_ok_iff.mpr ⟨db₁, huser, opened.tables, hwallet, ?_⟩,
        hentries⟩, saved, jpa_eq_ok_iff.mp hsave, ?_⟩
      · rw [if_neg hrejected]
      · rw [if_neg hrejected]
  · rintro ⟨rfl, prepared, ⟨hprepare, hentries⟩, saved, hsave, h⟩
    obtain ⟨db₁, huser, db₂, hwallet, hdebit⟩ := prepare_eq_ok_iff.mp hprepare
    have hledger : db₂.ledger = db.tables.ledger :=
      (upsertWallet_eq_ok hwallet).2.2.2.1.trans (upsertUser_eq_ok huser).2.2.2.1
    obtain ⟨opened, rfl, hentries'⟩ := db.exists_tables hledger
    refine ⟨opened, ensureUserAndWallet_eq_ok_iff.mpr ⟨⟨db₁, huser, hwallet⟩, hentries'⟩, ?_⟩
    by_cases haccepted : statusFromResult event = .accepted
    · rw [if_pos haccepted] at hdebit h ⊢
      refine bind_eq_ok_iff.mpr ⟨db', ?_, rfl⟩
      exact (acceptBet_eq_ok_iff (balance_upserted huser hwallet)).mpr
        ⟨prepared, ⟨hdebit, hentries.trans hentries'.symm⟩, saved, hsave, h⟩
    · rw [if_neg haccepted] at hdebit h ⊢
      obtain rfl : opened = prepared :=
        JavaDatabase.ext (Except.ok.inj hdebit) (hentries'.trans hentries.symm)
      obtain rfl := Except.ok.inj h
      exact bind_eq_ok_iff.mpr ⟨saved, jpa_eq_ok_iff.mpr hsave, rfl⟩

end Preparation

/-! ## What each service does -/

section Services

variable {event : Settlement.BetResultEvent} {hlong : IsBigInteger event.stakeCents}

/-- The ledger row of a stake can be stored. -/
theorem storable_ledgerRow (hlong : IsBigInteger event.stakeCents) :
    Schema.Storable event.ledgerRow := by
  have hpos := event.stake_pos
  refine ⟨?_, ?_, Uuid.nul_notMem_text event.betId⟩
  · unfold IsBigInteger at hlong ⊢
    simp only [BetResultEvent.ledgerRow]
    omega
  · simp [BetResultEvent.ledgerRow, Uuid.text_length]

/-- A bet can be stored when its texts can. -/
theorem storable_bet (hlong : IsBigInteger event.stakeCents)
    (htext : IsText event.idempotencyKey) :
    Schema.Storable event.bet ↔ HasTexts event := by
  have hodds : IsNumeric104 event.odds := ⟨event.odds_normal.2, event.odds_range.2⟩
  constructor
  · rintro ⟨-, ⟨-, hmatch⟩, ⟨-, hselection⟩, -, -, hreason⟩
    refine ⟨hmatch, hselection, fun hrejected => hreason _ ?_⟩
    simp [Settlement.BetResultEvent.bet, hrejected]
  · rintro ⟨hmatch, hselection, hreason⟩
    refine ⟨⟨event.idempotencyKey_length.2, htext⟩, ⟨event.matchId_length.2, hmatch⟩,
      ⟨event.selectionId_length.2, hselection⟩, hlong, hodds, ?_⟩
    intro reason hmem
    simp only [Settlement.BetResultEvent.bet] at hmem
    split at hmem
    · contradiction
    · rename_i hrejected
      obtain rfl : event.rejectionReason = reason := by simpa using hmem
      exact hreason hrejected

/-- The Python worker persists an event exactly when it is ready, its texts can be held, and
its bet id is free. -/
theorem exists_processBetResultEvent_iff {db : Database} (hlong : IsBigInteger event.stakeCents) :
    (∃ db', processBetResultEvent event db = .ok (true, db')) ↔
      Ready event db ∧ HasTexts event ∧ ∀ r ∈ db.bets.rows, r.id ≠ event.betId := by
  constructor
  · rintro ⟨db', h⟩
    obtain ⟨hfalse, -⟩ | ⟨-, hpersisted⟩ := processBetResultEvent_eq_ok h
    · contradiction
    have hmem : event.bet ∈ db'.bets.rows := by simp [hpersisted.bets]
    have hstorable : Schema.Storable event.bet := (db'.bets.checked _ hmem).1
    have htext : IsText event.idempotencyKey := hstorable.1.2
    obtain ⟨-, prepared, hprepare, inserted, hinsert, -⟩ :=
      (processBetResultEvent_eq_ok_iff htext hpersisted.key_new).mp h
    refine ⟨ready_of_prepare htext hpersisted.key_new hprepare,
      (storable_bet hlong htext).mp hstorable, fun r hr hid => ?_⟩
    obtain ⟨-, -, hfree, -⟩ := Table.insert_eq_ok_iff.mp
      (Database.insertBet_eq_ok_iff.mp hinsert).1
    rw [Table.Free, (prepare_eq_ok hprepare).2.1] at hfree
    exact hfree r hr (Or.inl hid)
  · rintro ⟨hready, htexts, hfree⟩
    obtain ⟨prepared, hprepare⟩ := exists_prepare hlong hready
    obtain ⟨huser, hbets, -, -⟩ := prepare_eq_ok hprepare
    obtain ⟨inserted, hinsert⟩ : ∃ inserted, prepared.insertBet event.bet = .ok inserted := by
      refine Database.exists_insertBet (Table.exists_insert
        ((storable_bet hlong hready.key_text).mpr htexts) trivial ?_) huser
      rw [Table.Free, hbets]
      rintro r hr (hid | hkey)
      · exact hfree r hr hid
      · exact hready.key_new r hr hkey
    have husers := (Database.insertBet_eq_ok_iff.mp hinsert).2.2.1
    obtain ⟨db', hledger⟩ : ∃ db', (if statusFromResult event = .accepted then
        inserted.insertLedger event.ledgerRow else .ok inserted) = .ok db' := by
      split
      · exact Database.exists_insertLedger (Table.exists_insert (storable_ledgerRow hlong) trivial
          fun _ _ => id) (show HasUser inserted.users event.userId from husers ▸ huser)
      · exact ⟨inserted, rfl⟩
    exact ⟨db', (processBetResultEvent_eq_ok_iff hready.key_text hready.key_new).mpr
      ⟨rfl, prepared, hprepare, inserted, hinsert, hledger⟩⟩

/-- The Python worker leaves the tables alone, or adds the event's bet. -/
theorem pythonTables_cases (hlong : IsBigInteger event.stakeCents) (db : Database) :
    (pythonTables event db = db ∧ ¬ (Ready event db ∧ HasTexts event ∧
        ∀ r ∈ db.bets.rows, r.id ≠ event.betId)) ∨
      ((pythonTables event db).bets.rows = db.bets.rows ++ [event.bet] ∧ Ready event db ∧
        HasTexts event ∧ ∀ r ∈ db.bets.rows, r.id ≠ event.betId) := by
  rw [← exists_processBetResultEvent_iff hlong]
  unfold pythonTables
  cases h : processBetResultEvent event db with
  | error e => simp
  | ok result =>
      obtain ⟨b, db'⟩ := result
      obtain ⟨rfl, rfl, -⟩ | ⟨rfl, hpersisted⟩ := processBetResultEvent_eq_ok h
      · simp
      · exact Or.inr ⟨hpersisted.bets, db', rfl⟩

/-- An event that is not ready, or whose key the ledger knows, leaves the Java service's tables
alone. -/
theorem javaTables_eq_self {db : JavaDatabase}
    (h : ¬ (Ready event db.tables ∧
      ∀ r ∈ db.entries.rows, r.idempotencyKey ≠ event.idempotencyKey)) :
    javaTables (present event hlong) db = db.tables := by
  unfold javaTables
  cases hjava : processBetResult (present event hlong) db with
  | error e => rfl
  | ok result =>
      obtain ⟨b, db'⟩ := result
      by_cases hknown : IsText event.idempotencyKey →
          (∃ r ∈ db.tables.bets.rows, r.idempotencyKey = event.idempotencyKey) ∨
            ∃ r ∈ db.entries.rows, r.idempotencyKey = event.idempotencyKey
      · exact congrArg JavaDatabase.tables (processBetResult_known hknown hjava)
      · push Not at hknown
        obtain ⟨htext, hnew, hunknown⟩ := hknown
        obtain ⟨-, prepared, ⟨hprepare, -⟩, -⟩ :=
          (processBetResult_eq_ok_iff htext hnew hunknown).mp hjava
        exact absurd ⟨ready_of_prepare htext hnew hprepare, hunknown⟩ h

/-- A ledger entry can be inserted under a new key. -/
theorem exists_insertEntry {saved : JavaDatabase}
    (hunknown : ∀ r ∈ saved.entries.rows, r.idempotencyKey ≠ event.idempotencyKey)
    (htext : IsText event.idempotencyKey) (huser : HasUser saved.tables.users event.userId) :
    ∃ db', saved.insertEntry (present event hlong).entry = .ok db' := by
  have hrow : Schema.Storable (present event hlong).entry.toWalletLedger :=
    storable_ledgerRow hlong
  refine JavaDatabase.exists_insertEntry ?_ ?_
  · exact Table.exists_insert ⟨hrow, event.idempotencyKey_length.2, htext⟩ trivial hunknown
  · exact Database.exists_insertLedger (Table.exists_insert hrow trivial fun _ _ => id) huser

/-- With a free bet id and equal reasons both services write the same rows. -/
theorem servicesAgree_of_free {db : JavaDatabase} (hready : Ready event db.tables)
    (hunknown : ∀ r ∈ db.entries.rows, r.idempotencyKey ≠ event.idempotencyKey)
    (hfree : ∀ r ∈ db.tables.bets.rows, r.id ≠ event.betId)
    (hbet : (present event hlong).bet = event.bet) : ServicesAgree event hlong db := by
  have hsave : ∀ prepared : JavaDatabase, prepare event db.tables = .ok prepared.tables →
      prepared.saveBet (present event hlong).bet = prepared.insertBet event.bet := by
    intro prepared hprepare
    have hnone : prepared.tables.bets.find Bet.id event.bet.id = none := by
      rw [(prepare_eq_ok hprepare).2.1]
      exact Table.find_eq_none_iff.mpr hfree
    rw [JavaDatabase.saveBet, hbet, hnone]
  unfold ServicesAgree javaTables pythonTables
  cases hpython : processBetResultEvent event db.tables with
  | ok result =>
      obtain ⟨b, tables⟩ := result
      obtain ⟨-, tables₁, hprepare, tables₂, hinsert, hledger⟩ :=
        (processBetResultEvent_eq_ok_iff hready.key_text hready.key_new).mp hpython
      obtain ⟨huser, -, hledger₁, -⟩ := prepare_eq_ok hprepare
      obtain ⟨prepared, rfl, hentries₁⟩ := db.exists_tables hledger₁
      obtain ⟨-, -, husers, -, hledger₂, -⟩ := Database.insertBet_eq_ok_iff.mp hinsert
      obtain ⟨saved, rfl, hentries₂⟩ := prepared.exists_tables hledger₂
      have hentries : saved.entries = db.entries := hentries₂.trans hentries₁
      obtain ⟨db', hentry, rfl⟩ : ∃ db', (if statusFromResult event = .accepted then
          saved.insertEntry (present event hlong).entry else .ok saved) = .ok db' ∧
          db'.tables = tables := by
        split at hledger
        · rename_i haccepted
          obtain ⟨db', hentry⟩ := @exists_insertEntry _ hlong saved (hentries ▸ hunknown)
            hready.key_text (husers ▸ huser)
          refine ⟨db', by rwa [if_pos haccepted], ?_⟩
          exact Except.ok.inj
            ((JavaDatabase.insertEntry_eq_ok_iff.mp hentry).2.symm.trans hledger)
        · rename_i hrejected
          exact ⟨saved, by rw [if_neg hrejected], Except.ok.inj hledger⟩
      have hjava : processBetResult (present event hlong) db = .ok (true, db') := by
        refine (processBetResult_eq_ok_iff hready.key_text hready.key_new hunknown).mpr
          ⟨rfl, prepared, ⟨hprepare, hentries₁⟩, saved, ?_, hentry⟩
        rw [hsave prepared hprepare]
        exact JavaDatabase.writing_eq_ok_iff.mpr ⟨hinsert, hentries₂⟩
      rw [hjava]
  | error e =>
      cases hjava : processBetResult (present event hlong) db with
      | error e => rfl
      | ok result =>
          obtain ⟨b, db'⟩ := result
          obtain ⟨-, prepared, ⟨hprepare, -⟩, saved, hsaved, hentry⟩ :=
            (processBetResult_eq_ok_iff hready.key_text hready.key_new hunknown).mp hjava
          rw [hsave prepared hprepare] at hsaved
          obtain ⟨hinsert, -⟩ := JavaDatabase.writing_eq_ok_iff.mp hsaved
          have hpython' : processBetResultEvent event db.tables = .ok (true, db'.tables) := by
            refine (processBetResultEvent_eq_ok_iff hready.key_text hready.key_new).mpr
              ⟨rfl, prepared.tables, hprepare, saved.tables, hinsert, ?_⟩
            split at hentry
            · rename_i haccepted
              rw [if_pos haccepted]
              exact (JavaDatabase.insertEntry_eq_ok_iff.mp hentry).2
            · rename_i hrejected
              rw [if_neg hrejected, Except.ok.inj hentry]
          rw [hpython] at hpython'
          contradiction

/-- The merge of a rejected bet changes nothing exactly when the wallet exists and the row has the
same decision. -/
theorem mergeRejected_eq_self_iff {db prepared saved : JavaDatabase} {r : Bet}
    (hrejected : statusFromResult event ≠ .accepted)
    (hprepare : prepare event db.tables = .ok prepared.tables)
    (hr : r ∈ db.tables.bets.rows) (hid : r.id = event.betId)
    (hmerge : prepared.updateBet (present event hlong).bet = .ok saved) :
    saved.tables = db.tables ↔
      (db.tables.balance event.userId).isSome ∧ r.status = .rejected ∧
        r.rejectionReason = some (present event hlong).rejectionReason := by
  have hstatus : resolveStatus (present event hlong) = statusFromResult event := rfl
  obtain ⟨-, hbets, -, hsome⟩ := prepare_eq_ok hprepare
  obtain ⟨hupdate, husers, hwallets, hledger, htransactions, -⟩ :=
    JavaDatabase.updateBet_eq_ok_iff.mp hmerge
  have hrows := Table.update_rows hupdate
  rw [Table.updatedRows, hbets] at hrows
  have hdecision : (present event hlong).bet.status = .rejected ∧
      (present event hlong).bet.rejectionReason =
        some (present event hlong).rejectionReason := by
    have hreject := (statusFromResult_cases event).resolve_left hrejected
    simp [BetResultEvent.bet, hstatus, hreject]
  constructor
  · intro hsame
    have hid' : r.id = (present event hlong).bet.id := hid
    have hrow : JavaDatabase.mergedInto (present event hlong).bet r = r := by
      rw [hsame] at hrows
      have hmap := List.map_inj_left.mp (hrows.symm.trans (List.map_id _).symm) r hr
      rwa [if_pos (decide_eq_true hid')] at hmap
    refine ⟨?_, ?_, ?_⟩
    · rw [← hsame, Database.balance_eq_of_wallets hwallets]
      exact hsome
    · rw [← hrow]
      exact hdecision.1
    · rw [← hrow]
      exact hdecision.2
  · rintro ⟨hwallet, hstatus', hreason⟩
    have hself := prepare_eq_self hrejected hwallet
    rw [hprepare] at hself
    have hprepared : prepared.tables = db.tables := Except.ok.inj hself
    have hrow : JavaDatabase.mergedInto (present event hlong).bet r = r := by
      rw [JavaDatabase.mergedInto, hdecision.1, hdecision.2, ← hstatus', ← hreason]
    have hkeep : saved.tables.bets.rows = db.tables.bets.rows := by
      rw [hrows]
      conv_rhs => rw [← List.map_id db.tables.bets.rows]
      refine List.map_congr_left fun s hs => ?_
      split
      · rename_i hsid
        have hclash : s.id = r.id := (of_decide_eq_true hsid).trans hid.symm
        rw [Table.eq_of_clash hs hr (Or.inl hclash), hrow]
        rfl
      · rfl
    refine Database.ext (husers.trans ?_) (hwallets.trans ?_) (Table.ext hkeep)
      (hledger.trans ?_) (htransactions.trans ?_)
    all_goals rw [hprepared]

/-- With a bet of this id, the Java service leaves the tables alone exactly when the event is
rejected and its decision cannot be held or is there already. -/
theorem javaTables_of_merge {db : JavaDatabase} {r : Bet} (hready : Ready event db.tables)
    (hunknown : ∀ r ∈ db.entries.rows, r.idempotencyKey ≠ event.idempotencyKey)
    (hr : r ∈ db.tables.bets.rows) (hid : r.id = event.betId) :
    javaTables (present event hlong) db = db.tables ↔
      statusFromResult event ≠ .accepted ∧
        (IsText (present event hlong).rejectionReason →
          (db.tables.balance event.userId).isSome ∧ r.status = .rejected ∧
            r.rejectionReason = some (present event hlong).rejectionReason) := by
  have hstatus : resolveStatus (present event hlong) = statusFromResult event := rfl
  have hsave : ∀ prepared : JavaDatabase, prepare event db.tables = .ok prepared.tables →
      prepared.saveBet (present event hlong).bet =
        prepared.updateBet (present event hlong).bet := by
    intro prepared hprepare
    have hfind : prepared.tables.bets.find Bet.id (present event hlong).bet.id = some r := by
      rw [(prepare_eq_ok hprepare).2.1]
      exact (Table.find_eq_some_iff fun _ _ heq => Or.inl heq).mpr ⟨hr, hid⟩
    rw [JavaDatabase.saveBet, hfind]
  obtain ⟨tables, hprepare⟩ := exists_prepare hlong hready
  obtain ⟨huser, -, hledger, -⟩ := prepare_eq_ok hprepare
  obtain ⟨prepared, rfl, hentries⟩ := db.exists_tables hledger
  have hmerges : (∀ reason ∈ (present event hlong).bet.rejectionReason, IsText reason) →
      ∃ saved, prepared.updateBet (present event hlong).bet = .ok saved := by
    intro hreason
    refine JavaDatabase.exists_updateBet fun s hs _ => ?_
    obtain ⟨hkey, hmatch, hselection, hstake, hodds, -⟩ := (prepared.tables.bets.checked s hs).1
    exact ⟨hkey, hmatch, hselection, hstake, hodds, hreason⟩
  by_cases haccepted : statusFromResult event = .accepted
  · obtain ⟨saved, hmerge⟩ := hmerges (by simp [BetResultEvent.bet, hstatus, haccepted])
    obtain ⟨-, husers, -, hledger', -, hentries'⟩ := JavaDatabase.updateBet_eq_ok_iff.mp hmerge
    obtain ⟨db', hentry⟩ := @exists_insertEntry _ hlong saved
      (hentries'.trans hentries ▸ hunknown) hready.key_text (husers ▸ huser)
    have hjava : processBetResult (present event hlong) db = .ok (true, db') :=
      (processBetResult_eq_ok_iff hready.key_text hready.key_new hunknown).mpr
        ⟨rfl, prepared, ⟨hprepare, hentries⟩, saved, hsave prepared hprepare ▸ hmerge,
          by rwa [if_pos haccepted]⟩
    have hrows : db'.tables.ledger.rows = db.tables.ledger.rows ++ [event.ledgerRow] := by
      have hinsert := (JavaDatabase.insertEntry_eq_ok_iff.mp hentry).2
      rw [Table.insert_rows (Database.insertLedger_eq_ok_iff.mp hinsert).1, hledger', hledger]
      rfl
    simp only [javaTables, hjava, haccepted, ne_eq, not_true, false_and, iff_false]
    intro hsame
    rw [hsame] at hrows
    simp at hrows
  · by_cases htext : IsText (present event hlong).rejectionReason
    · obtain ⟨saved, hmerge⟩ := hmerges (by
        simpa [BetResultEvent.bet, hstatus, haccepted] using htext)
      have hjava : processBetResult (present event hlong) db = .ok (true, saved) :=
        (processBetResult_eq_ok_iff hready.key_text hready.key_new hunknown).mpr
          ⟨rfl, prepared, ⟨hprepare, hentries⟩, saved, hsave prepared hprepare ▸ hmerge,
            by rw [if_neg haccepted]⟩
      simp only [javaTables, hjava, haccepted, ne_eq, not_false_eq_true, true_and, htext,
        true_implies]
      exact mergeRejected_eq_self_iff haccepted hprepare hr hid hmerge
    · refine iff_of_true ?_ ⟨haccepted, fun h => absurd h htext⟩
      unfold javaTables
      cases hjava : processBetResult (present event hlong) db with
      | error e => rfl
      | ok result =>
          obtain ⟨b, db'⟩ := result
          obtain ⟨-, prepared', ⟨hprepare', -⟩, saved, hsaved, -⟩ :=
            (processBetResult_eq_ok_iff hready.key_text hready.key_new hunknown).mp hjava
          rw [hsave prepared' hprepare'] at hsaved
          obtain ⟨hchecked, -⟩ := Table.update_eq_ok_iff.mp
            (JavaDatabase.updateBet_eq_ok_iff.mp hsaved).1
          have hr' : r ∈ prepared'.tables.bets.rows := (prepare_eq_ok hprepare').2.1 ▸ hr
          obtain ⟨-, -, -, -, -, hreason⟩ := (hchecked r hr' (decide_eq_true hid)).1
          refine absurd (hreason _ ?_) htext
          simp [JavaDatabase.mergedInto, BetResultEvent.bet, hstatus, haccepted]

/-- A reason that Java replaces is blank, so the server can hold it. -/
theorem isText_rejectionReason
    (h : event.rejectionReason ≠ (present event hlong).rejectionReason) :
    IsText event.rejectionReason := by
  have hreason : (present event hlong).reason = event.reason := rfl
  have hcode : (present event hlong).reasonCode = event.reasonCode := rfl
  unfold Settlement.BetResultEvent.rejectionReason BetResultEvent.rejectionReason at h
  unfold Settlement.BetResultEvent.rejectionReason
  rw [hreason, hcode] at h
  cases hcase : event.reason with
  | none => simp [hcase] at h
  | some reason =>
      simp only [hcase] at h ⊢
      by_cases hblank : isBlank reason
      · split
        · rename_i hempty
          subst hempty
          simp [isBlank] at h
        · exact isText_of_isBlank hblank
      · have hne : reason ≠ "" := by
          rintro rfl
          exact hblank rfl
        rw [if_neg hne, if_neg hblank] at h
        exact absurd rfl h

/-- With a free bet id, the Java service leaves the tables alone, or adds its own bet. -/
theorem javaTables_of_free {db : JavaDatabase} (hready : Ready event db.tables)
    (hunknown : ∀ r ∈ db.entries.rows, r.idempotencyKey ≠ event.idempotencyKey)
    (hfree : ∀ r ∈ db.tables.bets.rows, r.id ≠ event.betId) :
    javaTables (present event hlong) db = db.tables ∨
      (javaTables (present event hlong) db).bets.rows =
          db.tables.bets.rows ++ [(present event hlong).bet] ∧
        IsText event.matchId ∧ IsText event.selectionId := by
  unfold javaTables
  cases hjava : processBetResult (present event hlong) db with
  | error e => exact Or.inl rfl
  | ok result =>
      obtain ⟨b, db'⟩ := result
      obtain ⟨-, prepared, ⟨hprepare, -⟩, saved, hsaved, hentry⟩ :=
        (processBetResult_eq_ok_iff hready.key_text hready.key_new hunknown).mp hjava
      have hbets := (prepare_eq_ok hprepare).2.1
      have hnone : prepared.tables.bets.find Bet.id (present event hlong).bet.id = none := by
        rw [hbets]
        exact Table.find_eq_none_iff.mpr hfree
      rw [JavaDatabase.saveBet, hnone] at hsaved
      obtain ⟨hinsert, -⟩ := JavaDatabase.writing_eq_ok_iff.mp hsaved
      obtain ⟨⟨-, hmatch, hselection, -⟩, -, -, hrows⟩ := Table.insert_eq_ok_iff.mp
        (Database.insertBet_eq_ok_iff.mp hinsert).1
      have hbets' : db'.tables.bets = saved.tables.bets := by
        split at hentry
        · exact (Database.insertLedger_eq_ok_iff.mp
            (JavaDatabase.insertEntry_eq_ok_iff.mp hentry).2).2.2.2.2.1
        · rw [Except.ok.inj hentry]
      exact Or.inr ⟨by simp only [hbets', hrows, hbets], hmatch.2, hselection.2⟩

end Services

/-! ## When the services agree -/

section Agreement

variable {event : Settlement.BetResultEvent} {hlong : IsBigInteger event.stakeCents}
  {db : JavaDatabase}

/-- The two bets of an event differ in the reason of a rejection alone. -/
theorem bet_eq_iff :
    (present event hlong).bet = event.bet ↔
      (statusFromResult event ≠ .accepted →
        event.rejectionReason = (present event hlong).rejectionReason) := by
  have hjava : (present event hlong).bet =
      { event.bet with
        rejectionReason := if statusFromResult event = .accepted then none
          else some (present event hlong).rejectionReason } := rfl
  rw [hjava, Settlement.BetResultEvent.bet]
  by_cases haccepted : statusFromResult event = .accepted
  · simp [haccepted]
  · simp [haccepted, eq_comm]

/-- An event that is not ready, or whose key the ledger knows. -/
theorem servicesAgree_iff_of_known
    (h : ¬ (Ready event db.tables ∧
      ∀ r ∈ db.entries.rows, r.idempotencyKey ≠ event.idempotencyKey)) :
    ServicesAgree event hlong db ↔ ¬ Parts event hlong db := by
  rw [ServicesAgree, javaTables_eq_self h]
  obtain ⟨hself, hnot⟩ | ⟨hrows, hready, htexts, hfree⟩ := pythonTables_cases hlong db.tables
  · refine iff_of_true hself.symm fun hparts => ?_
    cases hparts with
    | skipped ready texts free known =>
        exact hnot ⟨ready, texts, free⟩
    | merged ready unknown r mem id changed =>
        exact h ⟨ready, unknown⟩
    | reworded ready texts free unknown rejected different =>
        exact h ⟨ready, unknown⟩
  · have hknown : ∃ r ∈ db.entries.rows, r.idempotencyKey = event.idempotencyKey := by
      by_contra hno
      push Not at hno
      exact h ⟨hready, hno⟩
    refine iff_of_false (fun hsame => ?_) (not_not.mpr (Parts.skipped hready htexts hfree hknown))
    rw [← hsame] at hrows
    simp at hrows

/-- A ready event whose bet id is free. -/
theorem servicesAgree_iff_of_free (hready : Ready event db.tables)
    (hunknown : ∀ r ∈ db.entries.rows, r.idempotencyKey ≠ event.idempotencyKey)
    (hfree : ∀ r ∈ db.tables.bets.rows, r.id ≠ event.betId) :
    ServicesAgree event hlong db ↔ ¬ Parts event hlong db := by
  by_cases hbet : (present event hlong).bet = event.bet
  · refine iff_of_true (servicesAgree_of_free hready hunknown hfree hbet) fun hparts => ?_
    cases hparts with
    | skipped ready texts free known =>
        obtain ⟨r, hr, hkey⟩ := known
        exact hunknown r hr hkey
    | merged ready unknown r mem id changed =>
        exact hfree r mem id
    | reworded ready texts free unknown rejected different =>
        exact different (bet_eq_iff.mp hbet rejected)
  · obtain ⟨hrejected, hdifferent⟩ := Classical.not_imp.mp (mt bet_eq_iff.mpr hbet)
    obtain ⟨hself, hnot⟩ | ⟨hrows, -, htexts, -⟩ := pythonTables_cases hlong db.tables
    · have htexts : ¬ HasTexts event := fun htexts => hnot ⟨hready, htexts, hfree⟩
      refine iff_of_true ?_ fun hparts => ?_
      · obtain hjava | ⟨-, hmatch, hselection⟩ :=
          @javaTables_of_free _ hlong _ hready hunknown hfree
        · exact hjava.trans hself.symm
        · exact absurd ⟨hmatch, hselection, fun _ => isText_rejectionReason hdifferent⟩ htexts
      · cases hparts with
        | skipped ready texts free known =>
            exact htexts texts
        | merged ready unknown r mem id changed =>
            exact hfree r mem id
        | reworded ready texts free unknown rejected different =>
            exact htexts texts
    · refine iff_of_false (fun hsame => ?_)
        (not_not.mpr (Parts.reworded hready htexts hfree hunknown hrejected hdifferent))
      rw [← hsame] at hrows
      obtain hjava | ⟨hjava, -⟩ := @javaTables_of_free _ hlong _ hready hunknown hfree
      · rw [hjava] at hrows
        simp at hrows
      · have hlast := List.append_cancel_left (hjava.symm.trans hrows)
        exact hbet (List.singleton_inj.mp hlast)

/-- A ready event whose bet id has a row. -/
theorem servicesAgree_iff_of_merge {r : Bet} (hready : Ready event db.tables)
    (hunknown : ∀ r ∈ db.entries.rows, r.idempotencyKey ≠ event.idempotencyKey)
    (hr : r ∈ db.tables.bets.rows) (hid : r.id = event.betId) :
    ServicesAgree event hlong db ↔ ¬ Parts event hlong db := by
  have hself : pythonTables event db.tables = db.tables := by
    obtain ⟨hself, -⟩ | ⟨-, -, -, hfree⟩ := pythonTables_cases hlong db.tables
    · exact hself
    · exact absurd hid (hfree r hr)
  rw [ServicesAgree, hself, javaTables_of_merge hready hunknown hr hid]
  constructor
  · rintro ⟨hrejected, hsame⟩ hparts
    cases hparts with
    | skipped ready texts free known =>
        exact free r hr hid
    | merged ready unknown r' mem id changed =>
        have hrow : r' = r := Table.eq_of_clash mem hr (Or.inl (id.trans hid.symm))
        subst hrow
        obtain haccepted | ⟨htext, hchanged⟩ := changed
        · exact hrejected haccepted
        · obtain ⟨hwallet, hstatus, hreason⟩ := hsame htext
          rcases hchanged with hnone | hne | hne
          · simp [hnone] at hwallet
          · exact hne hstatus
          · exact hne hreason
    | reworded ready texts free unknown rejected different =>
        exact free r hr hid
  · intro hnot
    by_contra hchanged
    refine hnot (Parts.merged hready hunknown r hr hid ?_)
    by_cases haccepted : statusFromResult event = .accepted
    · exact Or.inl haccepted
    · right
      by_contra hsame
      refine hchanged ⟨haccepted, fun htext => ?_⟩
      push Not at hsame
      obtain ⟨hwallet, hstatus, hreason⟩ := hsame htext
      exact ⟨Option.isSome_iff_ne_none.mpr hwallet, hstatus, hreason⟩

end Agreement

/-- The services agree on an event exactly when they do not part. -/
theorem servicesAgree_iff (event : Settlement.BetResultEvent)
    (hlong : IsBigInteger event.stakeCents) (db : JavaDatabase) :
    ServicesAgree event hlong db ↔ ¬ Parts event hlong db := by
  by_cases hready : Ready event db.tables ∧
      ∀ r ∈ db.entries.rows, r.idempotencyKey ≠ event.idempotencyKey
  · obtain ⟨hready, hunknown⟩ := hready
    by_cases hfree : ∀ r ∈ db.tables.bets.rows, r.id ≠ event.betId
    · exact servicesAgree_iff_of_free hready hunknown hfree
    · push Not at hfree
      obtain ⟨r, hr, hid⟩ := hfree
      exact servicesAgree_iff_of_merge hready hunknown hr hid
  · exact servicesAgree_iff_of_known hready

theorem sampleEvent_long : IsBigInteger sampleEvent.stakeCents := by
  decide

theorem servicesAgree_iff_sample : ServicesAgree sampleEvent sampleEvent_long .empty := by
  refine (servicesAgree_iff sampleEvent sampleEvent_long .empty).mpr fun hparts => ?_
  cases hparts with
  | skipped ready texts free known =>
      obtain ⟨r, hr, -⟩ := known
      exact absurd hr List.not_mem_nil
  | merged ready unknown r mem id changed =>
      exact absurd mem List.not_mem_nil
  | reworded ready texts free unknown rejected different =>
      exact rejected rfl

/-- The accepted sample event with another key. -/
def sampleRekeyed : Settlement.BetResultEvent :=
  { sampleEvent with
    idempotencyKey := "k2"
    idempotencyKey_length := by decide }

/-- The bet is there under another key: the Python worker meets its primary key, the Java service
debits the stake a second time. -/
theorem rekeyed_debited_again :
    ∃ db, processBetResult (present sampleEvent sampleEvent_long) .empty = .ok (true, db) ∧
      ¬ ServicesAgree sampleRekeyed sampleEvent_long db := by
  have hrun : (processBetResult (present sampleEvent sampleEvent_long) .empty).toOption.map
      (fun result =>
        (result.1, (javaTables (present sampleRekeyed sampleEvent_long) result.2).ledger.rows.length,
          (pythonTables sampleRekeyed result.2.tables).ledger.rows.length)) =
      some (true, 2, 1) := by
    decide +kernel
  obtain ⟨⟨b, db⟩, hresult, hobserved⟩ := Option.map_eq_some_iff.mp hrun
  obtain ⟨rfl, hjava, hpython⟩ : b = true ∧
      (javaTables (present sampleRekeyed sampleEvent_long) db).ledger.rows.length = 2 ∧
      (pythonTables sampleRekeyed db.tables).ledger.rows.length = 1 := by
    simpa using hobserved
  refine ⟨db, toOption_eq_some_iff.mp hresult, fun hagree => ?_⟩
  rw [hagree, hpython] at hjava
  contradiction

end SettlementJava
end BettingPlatform
