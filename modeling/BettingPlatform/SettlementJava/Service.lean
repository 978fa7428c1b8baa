import BettingPlatform.SettlementJava.Entities
import BettingPlatform.Settlement.Worker

/-!
# Persisting risk results in Java

`SettlementService.processBetResult` persists one result of the risk engine in one
transaction, with `save` and queries of Spring Data JPA in place of the statements that
the Python worker writes out.

Main results:

- Theorem `ensureUserAndWallet_eq_ok_iff`: user and wallet come about as in the Python worker.
- Theorem `writeBalance_eq_ok_iff`: a balance written after the check is the conditional
  debit.
- Theorem `processBetResult_known`: an event whose key is known leaves the state alone.
-/

namespace BettingPlatform
namespace SettlementJava

open Settlement

/-! ## Strings -/

/-- `Character.isWhitespace`. -/
def isWhitespace (c : Char) : Bool :=
  let n := c.toNat
  (9 ≤ n && n ≤ 13) || (28 ≤ n && n ≤ 32) || n = 0x1680 || (0x2000 ≤ n && n ≤ 0x2006) ||
    (0x2008 ≤ n && n ≤ 0x200A) || n = 0x2028 || n = 0x2029 || n = 0x205F || n = 0x3000

/-- `String.isBlank`. -/
def isBlank (s : String) : Bool :=
  s.toList.all isWhitespace

/-- The server can hold a blank text. -/
theorem isText_of_isBlank {s : String} (h : isBlank s) : IsText s := by
  intro hnul
  have hspace : isWhitespace '\x00' := List.all_eq_true.mp h _ hnul
  contradiction

/-! ## Events -/

/-- What a transaction can be left with. -/
inductive Thrown
  /-- A `DataAccessException` of a query or of a flushed write. -/
  | dataAccess (e : SqlError)
  | illegalState (message : String)
  | insufficientFunds (message : String)
deriving Repr

/-- A failed statement leaves the transaction. -/
def jpa {α : Type} : Except SqlError α → Except Thrown α
  | .ok a => .ok a
  | .error e => .error (.dataAccess e)

/-- The session changes no result. -/
theorem jpa_eq_ok_iff {α : Type} {x : Except SqlError α} {a : α} :
    jpa x = .ok a ↔ x = .ok a := by
  cases x <;> simp [jpa]

/-- The record `BetResultEvent`; its stake is a `long`. -/
structure BetResultEvent where
  betId : Uuid
  accountId : Uuid
  idempotencyKey : String
  matchId : String
  selectionId : String
  stakeCents : Int
  odds : Decimal
  accepted : Bool
  reasonCode : String
  reason : Option String
  stakeCents_long : IsBigInteger stakeCents

/-- `resolveStatus`. -/
def resolveStatus (event : BetResultEvent) : BetStatus :=
  if event.accepted ∧ event.reasonCode = "ACCEPTED" then .accepted else .rejected

/-- The reason a rejected bet is persisted with. -/
def BetResultEvent.rejectionReason (event : BetResultEvent) : String :=
  match event.reason with
  | some reason => if isBlank reason then event.reasonCode else reason
  | none => event.reasonCode

/-- The `Bet` the event becomes. -/
def BetResultEvent.bet (event : BetResultEvent) : Bet where
  id := event.betId
  userId := event.accountId
  idempotencyKey := event.idempotencyKey
  matchId := event.matchId
  selectionId := event.selectionId
  stakeCents := event.stakeCents
  odds := event.odds
  status := resolveStatus event
  rejectionReason :=
    if resolveStatus event = .accepted then none else some event.rejectionReason

/-- The `WalletLedger` an accepted event becomes. -/
def BetResultEvent.entry (event : BetResultEvent) : LedgerEntry where
  userId := event.accountId
  amountCents := -event.stakeCents
  type := .betStake
  referenceId := event.betId.text
  idempotencyKey := event.idempotencyKey

/-! ## The transaction -/

/-- `isDuplicate`; the server refuses a key it cannot hold. -/
def isDuplicate (db : JavaDatabase) (idempotencyKey : String) : Except SqlError Bool :=
  if IsText idempotencyKey then
    .ok ((db.tables.bets.find Bet.idempotencyKey idempotencyKey).isSome ||
      (db.entries.find LedgerEntry.idempotencyKey idempotencyKey).isSome)
  else .error .dataError

/-- `DEFAULT_WALLET_SEED_CENTS`. -/
def defaultWalletSeedCents : Int := 100000

/-- The first half of `ensureUserAndWallet`. -/
def ensureUser (db : JavaDatabase) (user : Uuid) : Except SqlError JavaDatabase :=
  if HasUser db.tables.users user then .ok db else db.insertUser ⟨user, usernameOf user⟩

/-- The second half of `ensureUserAndWallet`. -/
def ensureWallet (db : JavaDatabase) (user : Uuid) : Except SqlError JavaDatabase :=
  if (db.tables.balance user).isSome then .ok db
  else db.insertWallet ⟨user, defaultWalletSeedCents⟩

/-- `ensureUserAndWallet`. -/
def ensureUserAndWallet (db : JavaDatabase) (user : Uuid) : Except SqlError JavaDatabase := do
  let db ← ensureUser db user
  ensureWallet db user

/-- `acceptBet`. -/
def acceptBet (event : BetResultEvent) (db : JavaDatabase) : Except Thrown JavaDatabase :=
  match db.tables.balance event.accountId with
  | none => .error (.illegalState ("Wallet missing for user_id=" ++ event.accountId.text))
  | some balanceCents =>
      if balanceCents < event.stakeCents then
        .error (.insufficientFunds
          ("insufficient wallet balance for user_id=" ++ event.accountId.text))
      else do
        let db ← jpa (db.writeBalance event.accountId (balanceCents - event.stakeCents))
        let db ← jpa (db.saveBet event.bet)
        jpa (db.insertEntry event.entry)

/-- `persistRejectedBet`. -/
def persistRejectedBet (event : BetResultEvent) (db : JavaDatabase) :
    Except Thrown JavaDatabase :=
  jpa (db.saveBet event.bet)

/-- `processBetResult`: the returned value and the state to commit. -/
def processBetResult (event : BetResultEvent) (db : JavaDatabase) :
    Except Thrown (Bool × JavaDatabase) := do
  if ← jpa (isDuplicate db event.idempotencyKey) then .ok (false, db)
  else
    let db ← jpa (ensureUserAndWallet db event.accountId)
    if resolveStatus event = .accepted then
      let db ← acceptBet event db
      .ok (true, db)
    else
      let db ← persistRejectedBet event db
      .ok (true, db)

/-! ## What the statements do -/

section Statements

variable {db db' : JavaDatabase} {user : Uuid}

/-- An event whose key is known, or that the server cannot hold, leaves the state alone. -/
theorem processBetResult_known {event : BetResultEvent} {b : Bool}
    (hknown : IsText event.idempotencyKey →
      (∃ r ∈ db.tables.bets.rows, r.idempotencyKey = event.idempotencyKey) ∨
        ∃ r ∈ db.entries.rows, r.idempotencyKey = event.idempotencyKey)
    (h : processBetResult event db = .ok (b, db')) : db' = db := by
  obtain ⟨known, hduplicate, h⟩ := bind_eq_ok_iff.mp h
  have hduplicate := jpa_eq_ok_iff.mp hduplicate
  unfold isDuplicate at hduplicate
  split at hduplicate
  · rename_i htext
    have hsome : known = true := by
      rw [← Except.ok.inj hduplicate, Bool.or_eq_true]
      refine (hknown htext).imp ?_ ?_
      · rintro ⟨r, hr, hkey⟩
        rw [← Option.ne_none_iff_isSome, ne_eq, Table.find_eq_none_iff]
        exact fun hnone => hnone r hr hkey
      · rintro ⟨r, hr, hkey⟩
        rw [← Option.ne_none_iff_isSome, ne_eq, Table.find_eq_none_iff]
        exact fun hnone => hnone r hr hkey
    rw [hsome, if_pos rfl, Except.ok.injEq, Prod.mk.injEq] at h
    exact h.2.symm
  · contradiction

/-- A new key is no duplicate. -/
theorem isDuplicate_new {idempotencyKey : String} (htext : IsText idempotencyKey)
    (hbets : ∀ r ∈ db.tables.bets.rows, r.idempotencyKey ≠ idempotencyKey)
    (hentries : ∀ r ∈ db.entries.rows, r.idempotencyKey ≠ idempotencyKey) :
    isDuplicate db idempotencyKey = .ok false := by
  rw [isDuplicate, if_pos htext, Table.find_eq_none_iff.mpr hbets,
    Table.find_eq_none_iff.mpr hentries]
  rfl

/-- User and wallet come about as in the Python worker. -/
theorem ensureUserAndWallet_eq_ok_iff :
    ensureUserAndWallet db user = .ok db' ↔
      (∃ tables, upsertUser db.tables user = .ok tables ∧
        upsertWallet tables user openingBalanceCents = .ok db'.tables) ∧
        db'.entries = db.entries := by
  unfold ensureUserAndWallet
  rw [bind_eq_ok_iff]
  constructor
  · rintro ⟨db₁, huser, hwallet⟩
    obtain ⟨huser, hentries₁⟩ := JavaDatabase.ite_writing_eq_ok_iff.mp huser
    obtain ⟨hwallet, hentries₂⟩ := JavaDatabase.ite_writing_eq_ok_iff.mp hwallet
    exact ⟨⟨db₁.tables, huser, hwallet⟩, hentries₂.trans hentries₁⟩
  · rintro ⟨⟨tables, huser, hwallet⟩, hentries⟩
    obtain ⟨db₁, rfl, hentries₁⟩ := db.exists_tables (upsertUser_eq_ok huser).2.2.2.1
    refine ⟨db₁, JavaDatabase.ite_writing_eq_ok_iff.mpr ⟨huser, hentries₁⟩, ?_⟩
    exact JavaDatabase.ite_writing_eq_ok_iff.mpr ⟨hwallet, hentries.trans hentries₁.symm⟩

/-- A balance written after the check is the conditional debit. -/
theorem writeBalance_eq_ok_iff {amount stakeCents : Int}
    (hamount : db.tables.balance user = some amount) (hcovered : stakeCents ≤ amount)
    (hlong : IsBigInteger stakeCents) :
    db.writeBalance user (amount - stakeCents) = .ok db' ↔
      debitWallet db.tables user stakeCents = .ok db'.tables ∧ db'.entries = db.entries := by
  have hsame : ∀ r ∈ db.tables.wallets.rows,
      Database.walletWhere user (fun _ => true) r =
          Database.walletWhere user (fun balance => stakeCents ≤ balance) r ∧
        (Database.walletWhere user (fun _ => true) r →
          ({ r with balanceCents := amount - stakeCents } : Wallet) =
            { r with balanceCents := r.balanceCents - stakeCents }) := by
    intro r hr
    by_cases huser : r.userId = user
    · have hrow : r.balanceCents = amount := by
        have hbalance : db.tables.balance user = some r.balanceCents :=
          Database.balance_eq_some_iff.mpr (huser ▸ hr)
        exact Option.some.inj (hbalance.symm.trans hamount)
      simp [Database.walletWhere, hrow, hcovered]
    · simp [Database.walletWhere, huser]
  have hcount : db.tables.rowcount
      (Database.walletWhere user fun balance => stakeCents ≤ balance) = 1 := by
    rw [Database.rowcount_walletWhere, hamount]
    simp [hcovered]
  unfold JavaDatabase.writeBalance debitWallet
  rw [JavaDatabase.writing_eq_ok_iff]
  simp only [hlong, not_true, if_false, hcount, ne_eq, bind_eq_ok_iff, sql_eq_ok_iff,
    Except.ok.injEq, exists_eq_right]
  rw [Database.updateWallets_eq_ok_iff, Database.updateWallets_eq_ok_iff]
  refine and_congr_left fun _ => and_congr_left fun _ => ⟨?_, ?_⟩
  · exact Table.update_congr hsame
  · refine Table.update_congr fun r hr => ?_
    obtain ⟨hwhere, hset⟩ := hsame r hr
    exact ⟨hwhere.symm, fun hp => (hset (hwhere ▸ hp)).symm⟩

/-- An accepted bet is saved behind the debit, and its ledger row behind the bet. -/
theorem acceptBet_eq_ok_iff {event : BetResultEvent} {amount : Int}
    (hamount : db.tables.balance event.accountId = some amount) :
    acceptBet event db = .ok db' ↔
      ∃ debited : JavaDatabase,
        (debitWallet db.tables event.accountId event.stakeCents = .ok debited.tables ∧
          debited.entries = db.entries) ∧
        ∃ saved, debited.saveBet event.bet = .ok saved ∧
          saved.insertEntry event.entry = .ok db' := by
  unfold acceptBet
  rw [hamount]
  simp only
  split
  · rename_i hshort
    constructor
    · intro h
      contradiction
    · rintro ⟨debited, ⟨hdebit, -⟩, -⟩
      obtain ⟨⟨amount', hamount', hcovered, -⟩, -⟩ := debitWallet_eq_ok hdebit
      obtain rfl := Option.some.inj (hamount.symm.trans hamount')
      omega
  · rename_i hcovered
    simp only [bind_eq_ok_iff, jpa_eq_ok_iff,
      writeBalance_eq_ok_iff hamount (not_lt.mp hcovered) event.stakeCents_long]

end Statements

end SettlementJava
end BettingPlatform
