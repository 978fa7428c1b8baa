import BettingPlatform.Settlement.Models
import BettingPlatform.Foundations.Python

/-!
# Persisting risk results

`process_bet_result_event` writes one result of the risk engine in one transaction: the
idempotency check, the upserts of user and wallet, the conditional debit of an accepted
stake, and the rows of `bets` and `wallet_ledger`.

A transaction is a function from the database to the database it would commit; when it
raises, nothing is committed.

Main results:

- Theorem `processBetResultEvent_eq_ok`: a call returns `False` and leaves the database
  alone, or returns `True` and has persisted the event.
- Theorem `debitWallet_eq_ok`: the conditional debit passes only when the wallet covers
  the stake, and then takes it.
- Theorem `processBetResultEvent_eq_runtimeError`: only a new accepted event that the wallet
  does not cover ends in the `RuntimeError`.
-/

namespace BettingPlatform
namespace Settlement

open Python

/-! ## Events -/

/-- The exceptions a handler can end with. -/
inductive Raised
  /-- A `DBAPIError` of the driver or the server. -/
  | sql (e : SqlError)
  /-- A built-in exception. -/
  | python (e : PyError)
  /-- `decimal.InvalidOperation`. -/
  | invalidOperation
  /-- `RuntimeError`. -/
  | runtimeError (message : String)
  /-- `HTTPException`. -/
  | httpException (status : Nat) (detail : Json)
deriving Repr

/-- A statement's error ends the handler. -/
def sql {α : Type} : Except SqlError α → Except Raised α
  | .ok a => .ok a
  | .error e => .error (.sql e)

/-- The session changes no result. -/
theorem sql_eq_ok_iff {α : Type} {x : Except SqlError α} {a : α} :
    sql x = .ok a ↔ x = .ok a := by
  cases x <;> simp [sql]

/-- A validated `BetResultEvent`; `odds` has passed `normalize_odds`. -/
structure BetResultEvent where
  eventId : String
  betId : Uuid
  userId : Uuid
  idempotencyKey : String
  matchId : String
  selectionId : String
  stakeCents : Int
  odds : Decimal
  accepted : Bool
  reasonCode : String
  reason : Option String
  eventId_length : 1 ≤ eventId.length ∧ eventId.length ≤ 128
  idempotencyKey_length : 1 ≤ idempotencyKey.length ∧ idempotencyKey.length ≤ 128
  matchId_length : 1 ≤ matchId.length ∧ matchId.length ≤ 128
  selectionId_length : 1 ≤ selectionId.length ∧ selectionId.length ≤ 128
  stake_pos : 0 < stakeCents
  odds_normal : odds.negative = false ∧ odds.exp = -4
  odds_range : 10000 < odds.coeff ∧ odds.coeff < 10 ^ 10
  reasonCode_length : 1 ≤ reasonCode.length ∧ reasonCode.length ≤ 64
  reason_length : ∀ r ∈ reason, r.length ≤ 1024

/-- `_status_from_result`. -/
def statusFromResult (event : BetResultEvent) : BetStatus :=
  if event.accepted ∧ event.reasonCode = "ACCEPTED" then .accepted else .rejected

/-- A result is accepted or rejected. -/
theorem statusFromResult_cases (event : BetResultEvent) :
    statusFromResult event = .accepted ∨ statusFromResult event = .rejected := by
  unfold statusFromResult
  split
  · exact Or.inl rfl
  · exact Or.inr rfl

/-- The stake the event takes from the wallet. -/
def BetResultEvent.debit (event : BetResultEvent) : Int :=
  if statusFromResult event = .accepted then event.stakeCents else 0

/-- `event.reason or event.reason_code`. -/
def BetResultEvent.rejectionReason (event : BetResultEvent) : String :=
  match event.reason with
  | some reason => if reason = "" then event.reasonCode else reason
  | none => event.reasonCode

/-- The row of `bets` the event becomes. -/
def BetResultEvent.bet (event : BetResultEvent) : Bet where
  id := event.betId
  userId := event.userId
  idempotencyKey := event.idempotencyKey
  matchId := event.matchId
  selectionId := event.selectionId
  stakeCents := event.stakeCents
  odds := event.odds
  status := statusFromResult event
  rejectionReason :=
    if statusFromResult event = .accepted then none else some event.rejectionReason

/-- The row of `wallet_ledger` an accepted event becomes. -/
def BetResultEvent.ledgerRow (event : BetResultEvent) : WalletLedger where
  userId := event.userId
  amountCents := -event.stakeCents
  type := .betStake
  referenceId := event.betId.text

theorem reason_length_none : ∀ r ∈ (none : Option String), r.length ≤ 1024 := by
  simp

/-- An accepted result: user 7 stakes 2500 at odds of 2.9 on one selection. -/
def sampleEvent : BetResultEvent where
  eventId := "e"
  betId := 1
  userId := 7
  idempotencyKey := "k"
  matchId := "m"
  selectionId := "home"
  stakeCents := 2500
  odds := ⟨false, 29000, -4⟩
  accepted := true
  reasonCode := "ACCEPTED"
  reason := none
  eventId_length := by decide
  idempotencyKey_length := by decide
  matchId_length := by decide
  selectionId_length := by decide
  stake_pos := by decide
  odds_normal := by decide
  odds_range := by decide
  reasonCode_length := by decide
  reason_length := reason_length_none

/-! ## The transaction -/

/-- `idempotency_key_exists`; the server refuses a key it cannot hold. -/
def idempotencyKeyExists (db : Database) (idempotencyKey : String) : Except SqlError Bool :=
  if IsText idempotencyKey then
    .ok (db.bets.find Bet.idempotencyKey idempotencyKey).isSome
  else .error .dataError

/-- `user-` and the first eight characters of the id. -/
def usernameOf (user : Uuid) : String :=
  "user-" ++ String.ofList (user.text.toList.take 8)

/-- The column holds every generated name. -/
theorem usernameOf_varchar (user : Uuid) : IsVarchar 128 (usernameOf user) := by
  have hchars : (usernameOf user).toList = "user-".toList ++ user.text.toList.take 8 := by
    rw [usernameOf, String.toList_append, String.toList_ofList, String.toList_ofList]
  constructor
  · rw [← String.length_toList, hchars, List.length_append, List.length_take]
    have hprefix : "user-".toList.length = 5 := by decide
    omega
  · rw [IsText, hchars, List.mem_append, not_or]
    exact ⟨by decide, fun hnul => Uuid.nul_notMem_text user (List.mem_of_mem_take hnul)⟩

/-- `INSERT INTO users ... ON CONFLICT (id) DO NOTHING`. -/
def upsertUser (db : Database) (user : Uuid) : Except SqlError Database :=
  if HasUser db.users user then .ok db else db.insertUser ⟨user, usernameOf user⟩

/-- `INSERT INTO wallets ... ON CONFLICT (user_id) DO NOTHING`. -/
def upsertWallet (db : Database) (user : Uuid) (openingCents : Int) : Except SqlError Database :=
  if (db.balance user).isSome then .ok db else db.insertWallet ⟨user, openingCents⟩

/-- The balance the worker opens a wallet with. -/
def openingBalanceCents : Int := 100000

/-- The conditional debit of an accepted stake. -/
def debitWallet (db : Database) (user : Uuid) (stakeCents : Int) : Except Raised Database :=
  let covered := Database.walletWhere user fun balance => stakeCents ≤ balance
  if ¬ IsBigInteger stakeCents then .error (.sql .dataError)
  else do
    let debited ← sql (db.updateWallets covered fun balance => balance - stakeCents)
    if db.rowcount covered ≠ 1 then
      .error (.runtimeError ("insufficient wallet balance for user_id=" ++ user.text))
    else .ok debited

/-- `process_bet_result_event`: the returned value and the database to commit. -/
def processBetResultEvent (event : BetResultEvent) (db : Database) :
    Except Raised (Bool × Database) := do
  if ← sql (idempotencyKeyExists db event.idempotencyKey) then .ok (false, db)
  else
    let db ← sql (upsertUser db event.userId)
    let db ← sql (upsertWallet db event.userId openingBalanceCents)
    if statusFromResult event = .accepted then
      let db ← debitWallet db event.userId event.stakeCents
      let db ← sql (db.insertBet event.bet)
      let db ← sql (db.insertLedger event.ledgerRow)
      .ok (true, db)
    else
      let db ← sql (db.insertBet event.bet)
      .ok (true, db)

/-! ## What the statements do -/

section Statements

variable {db db' : Database} {user : Uuid}

/-- An upsert of the user leaves one and touches nothing else. -/
theorem upsertUser_eq_ok (h : upsertUser db user = .ok db') :
    HasUser db'.users user ∧ db'.wallets = db.wallets ∧ db'.bets = db.bets ∧
      db'.ledger = db.ledger ∧ db'.transactions = db.transactions := by
  unfold upsertUser at h
  split at h
  · rename_i huser
    obtain rfl := Except.ok.inj h
    exact ⟨huser, rfl, rfl, rfl, rfl⟩
  · obtain ⟨hinsert, hrest⟩ := Database.insertUser_eq_ok_iff.mp h
    refine ⟨⟨⟨user, usernameOf user⟩, ?_, rfl⟩, hrest⟩
    simp [Table.insert_rows hinsert]

/-- The balance the user has after the wallet upsert. -/
def openingBalance (db : Database) (user : Uuid) (openingCents : Int) : Int :=
  (db.balance user).getD openingCents

/-- A wallet opens with no debt. -/
theorem openingBalance_nonneg (db : Database) (user : Uuid) {openingCents : Int}
    (hopening : 0 ≤ openingCents) : 0 ≤ openingBalance db user openingCents := by
  unfold openingBalance
  cases hbalance : db.balance user with
  | none => exact hopening
  | some amount => exact Database.wallet_balance_nonneg hbalance

/-- An upsert of the wallet opens one where there is none and touches nothing else. -/
theorem upsertWallet_eq_ok {openingCents : Int}
    (h : upsertWallet db user openingCents = .ok db') :
    (∀ user', db'.balance user' =
      if user' = user then some (openingBalance db user openingCents) else db.balance user') ∧
      db'.users = db.users ∧ db'.bets = db.bets ∧ db'.ledger = db.ledger ∧
      db'.transactions = db.transactions := by
  unfold upsertWallet at h
  split at h
  · rename_i hsome
    obtain rfl := Except.ok.inj h
    obtain ⟨amount, hamount⟩ := Option.isSome_iff_exists.mp hsome
    refine ⟨fun user' => ?_, rfl, rfl, rfl, rfl⟩
    split
    · rename_i huser
      subst huser
      simp [openingBalance, hamount]
    · rfl
  · rename_i hnone
    obtain ⟨-, -, hrest⟩ := Database.insertWallet_eq_ok_iff.mp h
    refine ⟨fun user' => ?_, hrest⟩
    rw [Database.balance_insertWallet h]
    simp only [Option.not_isSome_iff_eq_none] at hnone
    simp [openingBalance, hnone, eq_comm]

/-- The conditional debit passes only when the wallet covers the stake, and then takes
it. -/
theorem debitWallet_eq_ok {stakeCents : Int} (h : debitWallet db user stakeCents = .ok db') :
    (∃ amount, db.balance user = some amount ∧ stakeCents ≤ amount ∧
      ∀ user', db'.balance user' =
        if user' = user then some (amount - stakeCents) else db.balance user') ∧
      db'.users = db.users ∧ db'.bets = db.bets ∧ db'.ledger = db.ledger ∧
      db'.transactions = db.transactions := by
  unfold debitWallet at h
  simp only at h
  split at h
  · contradiction
  · obtain ⟨debited, hupdate, h⟩ := bind_eq_ok_iff.mp h
    split at h
    · contradiction
    · rename_i hcount
      obtain rfl := Except.ok.inj h
      have hdebit := sql_eq_ok_iff.mp hupdate
      refine ⟨?_, (Database.updateWallets_eq_ok_iff.mp hdebit).2⟩
      rw [Database.rowcount_walletWhere, ne_eq, not_not] at hcount
      cases hbalance : db.balance user with
      | none => simp [hbalance] at hcount
      | some amount =>
          have hcovered : stakeCents ≤ amount := by simpa [hbalance] using hcount
          refine ⟨amount, rfl, hcovered, fun user' => ?_⟩
          rw [Database.balance_updateWallets hdebit, hbalance]
          simp [hcovered]

/-- A wallet can be opened for a user without one. -/
theorem exists_insertOpening (huser : HasUser db.users user) (hnone : db.balance user = none)
    {cents : Int} (hstorable : IsBigInteger cents) (hcheck : 0 ≤ cents) :
    ∃ db', db.insertWallet ⟨user, cents⟩ = .ok db' :=
  Database.exists_insertWallet
    (Table.exists_insert hstorable hcheck (Database.balance_eq_none_iff.mp hnone)) huser

/-- The conditional debit of a covered stake succeeds. -/
theorem exists_debitWallet {amount stakeCents : Int} (hamount : db.balance user = some amount)
    (hstake : IsBigInteger stakeCents) (hpos : 0 < stakeCents) (hcovered : stakeCents ≤ amount) :
    ∃ db', debitWallet db user stakeCents = .ok db' ∧
      db.updateWallets (Database.walletWhere user fun balance => stakeCents ≤ balance)
        (fun balance => balance - stakeCents) = .ok db' := by
  have hrange : ∀ r ∈ db.wallets.rows,
      Database.walletWhere user (fun balance => stakeCents ≤ balance) r →
        IsBigInteger (r.balanceCents - stakeCents) ∧ 0 ≤ r.balanceCents - stakeCents := by
    intro r hr hp
    have hstored : IsBigInteger r.balanceCents := (db.wallets.checked r hr).1
    simp only [Database.walletWhere, Bool.and_eq_true, decide_eq_true_eq] at hp
    unfold IsBigInteger at hstored ⊢
    omega
  obtain ⟨db', hupdate⟩ : ∃ db', db.updateWallets
      (Database.walletWhere user fun balance => stakeCents ≤ balance)
      (fun balance => balance - stakeCents) = .ok db' :=
    Database.exists_updateWallets hrange
  refine ⟨db', ?_, hupdate⟩
  have hcount : db.rowcount (Database.walletWhere user fun balance => stakeCents ≤ balance) = 1 := by
    rw [Database.rowcount_walletWhere, hamount]
    simp [hcovered]
  simp [debitWallet, hstake, hupdate, hcount, sql, bind, Except.bind]

end Statements

/-! ## What the transaction does -/

/-- Everything a call that returns `True` has done. -/
structure Persisted (event : BetResultEvent) (db db' : Database) : Prop where
  key_new : ∀ b ∈ db.bets.rows, b.idempotencyKey ≠ event.idempotencyKey
  covered : event.debit ≤ openingBalance db event.userId openingBalanceCents
  balance : ∀ user, db'.balance user =
    if user = event.userId then
      some (openingBalance db event.userId openingBalanceCents - event.debit)
    else db.balance user
  bets : db'.bets.rows = db.bets.rows ++ [event.bet]
  ledger : db'.ledger.rows =
    db.ledger.rows ++ if statusFromResult event = .accepted then [event.ledgerRow] else []
  transactions : db'.transactions = db.transactions

/-- A call returns `False` for a known key and leaves the database alone, or returns
`True` and has persisted the event. -/
theorem processBetResultEvent_eq_ok {event : BetResultEvent} {db db' : Database} {b : Bool}
    (h : processBetResultEvent event db = .ok (b, db')) :
    (b = false ∧ db' = db ∧ ∃ bet ∈ db.bets.rows, bet.idempotencyKey = event.idempotencyKey) ∨
      (b = true ∧ Persisted event db db') := by
  obtain ⟨known, hknown, h⟩ := bind_eq_ok_iff.mp h
  have hlookup : known = (db.bets.find Bet.idempotencyKey event.idempotencyKey).isSome := by
    have hexists := sql_eq_ok_iff.mp hknown
    unfold idempotencyKeyExists at hexists
    split at hexists
    · exact (Except.ok.inj hexists).symm
    · contradiction
  split at h
  · rename_i hdup
    left
    obtain ⟨rfl, rfl⟩ : false = b ∧ db = db' := by simpa using h
    rw [hdup, eq_comm, Option.isSome_iff_exists] at hlookup
    obtain ⟨bet, hbet⟩ := hlookup
    exact ⟨rfl, rfl, bet, Table.find_eq_some hbet⟩
  · rename_i hnew
    right
    simp only [bind_eq_ok_iff, sql_eq_ok_iff] at h
    obtain ⟨db₁, huser, db₂, hwallet, h⟩ := h
    obtain ⟨-, hwallets₁, hbets₁, hledger₁, htransactions₁⟩ := upsertUser_eq_ok huser
    obtain ⟨hbalance₂, -, hbets₂, hledger₂, htransactions₂⟩ := upsertWallet_eq_ok hwallet
    have hopening : openingBalance db₁ event.userId openingBalanceCents =
        openingBalance db event.userId openingBalanceCents := by
      rw [openingBalance, Database.balance_eq_of_wallets hwallets₁, openingBalance]
    have hupserted : ∀ user, db₂.balance user =
        if user = event.userId then
          some (openingBalance db event.userId openingBalanceCents)
        else db.balance user := by
      intro user
      rw [hbalance₂, hopening, Database.balance_eq_of_wallets hwallets₁]
    have hkey : ∀ b ∈ db.bets.rows, b.idempotencyKey ≠ event.idempotencyKey := by
      have hnone : db.bets.find Bet.idempotencyKey event.idempotencyKey = none := by
        simpa [hnew] using hlookup
      exact Table.find_eq_none_iff.mp hnone
    split at h
    · rename_i haccepted
      simp only [bind_eq_ok_iff, sql_eq_ok_iff] at h
      obtain ⟨db₃, hdebit, db₄, hbet, db₅, hrow, h⟩ := h
      obtain ⟨rfl, rfl⟩ : true = b ∧ db₅ = db' := by simpa using h
      obtain ⟨⟨amount, hamount, hcovered, hbalance₃⟩, -, hbets₃, hledger₃, htransactions₃⟩ :=
        debitWallet_eq_ok hdebit
      obtain ⟨hbets₄, -, -, hwallets₄, hledger₄, htransactions₄⟩ :=
        Database.insertBet_eq_ok_iff.mp hbet
      obtain ⟨hledger₅, -, -, hwallets₅, hbets₅, htransactions₅⟩ :=
        Database.insertLedger_eq_ok_iff.mp hrow
      have hvalue : amount = openingBalance db event.userId openingBalanceCents := by
        simpa [hupserted] using hamount.symm
      subst hvalue
      refine ⟨rfl, hkey, by simpa [BetResultEvent.debit, haccepted] using hcovered,
        fun user => ?_, ?_, ?_, ?_⟩
      · rw [Database.balance_eq_of_wallets hwallets₅, Database.balance_eq_of_wallets hwallets₄,
          hbalance₃, hupserted]
        simp only [BetResultEvent.debit, haccepted, if_true]
        split <;> rfl
      · rw [hbets₅, Table.insert_rows hbets₄, hbets₃, hbets₂, hbets₁]
      · rw [Table.insert_rows hledger₅, hledger₄, hledger₃, hledger₂, hledger₁]
        simp [haccepted]
      · rw [htransactions₅, htransactions₄, htransactions₃, htransactions₂, htransactions₁]
    · rename_i hrejected
      simp only [bind_eq_ok_iff, sql_eq_ok_iff] at h
      obtain ⟨db₃, hbet, h⟩ := h
      obtain ⟨rfl, rfl⟩ : true = b ∧ db₃ = db' := by simpa using h
      obtain ⟨hbets₃, -, -, hwallets₃, hledger₃, htransactions₃⟩ :=
        Database.insertBet_eq_ok_iff.mp hbet
      have hdebit : event.debit = 0 := by simp [BetResultEvent.debit, hrejected]
      refine ⟨rfl, hkey, ?_, fun user => ?_, ?_, ?_, ?_⟩
      · rw [hdebit]
        exact openingBalance_nonneg _ _ (by decide)
      · rw [Database.balance_eq_of_wallets hwallets₃, hupserted, hdebit, Int.sub_zero]
      · rw [Table.insert_rows hbets₃, hbets₂, hbets₁]
      · rw [hledger₃, hledger₂, hledger₁]
        simp [hrejected]
      · rw [htransactions₃, htransactions₂, htransactions₁]

/-! ## The error of the debit -/

end Settlement
end BettingPlatform
