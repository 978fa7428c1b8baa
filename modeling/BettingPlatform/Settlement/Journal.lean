import Mathlib.Data.List.Nodup
import Mathlib.Algebra.BigOperators.Group.List.Basic
import Mathlib.Data.List.Perm.Basic
import BettingPlatform.Foundations.Runs
import BettingPlatform.Settlement.Outcome
import BettingPlatform.Settlement.Mpesa

/-!
# The ledger is a journal of the wallets

Four transactions write balances and ledger rows.  Over any sequence of them from the
empty database, each balance is what its wallet row was inserted with plus the ledger
rows of its user, and the ledger rows are exactly those that the bets and the M-Pesa
transactions call for.

Main results:

- Theorem `Service.step_cases`: what a committed transaction has done.
- Theorem `journal_step`: each committed transaction preserves the journal.
- Theorem `ledger_is_journal`: the journal holds in every reachable database.
-/

namespace BettingPlatform
namespace Settlement

open Python Runs

/-! ## Committed transactions -/

/-- The service: its database, what each wallet row was inserted with, and the pushes
whose first transaction has committed and whose second one has not. -/
structure Service where
  db : Database
  opening : Uuid → Option Int
  awaiting : List MpesaDepositRequest

/-- The service after the migrations. -/
def Service.start : Service where
  db := .empty
  opening := fun _ => none
  awaiting := []

/-- A transaction of the service. -/
inductive Operation
  /-- `process_bet_result_event`. -/
  | result (event : BetResultEvent)
  /-- `settle_match_outcome`. -/
  | settle (matchId winningSelectionId : String)
  /-- The first transaction of `stk_push_deposit`. -/
  | pushUpsert (payload : MpesaDepositRequest)
  /-- The second transaction of an awaiting `stk_push_deposit`, with the gateway's
  answer. -/
  | pushRecord (index : Nat) (gateway : Json)
  /-- `mpesa_stk_callback`. -/
  | callback (body : List (String × Json))

/-- A wallet row is inserted with `openingCents` unless the user has one. -/
def opened (opening : Uuid → Option Int) (user : Uuid) (openingCents : Int) :
    Uuid → Option Int :=
  fun user' => if user' = user then some ((opening user).getD openingCents) else opening user'

/-- One committed transaction; a transaction that raises does not commit. -/
def Service.step (pyRepr : Json → String) (s : Service) : Operation → Option Service
  | .result event =>
      match processBetResultEvent event s.db with
      | .error _ => none
      | .ok (false, db) => some { s with db }
      | .ok (true, db) =>
          some { s with db, opening := opened s.opening event.userId openingBalanceCents }
  | .settle matchId winningSelectionId =>
      match settleMatchOutcome matchId winningSelectionId s.db with
      | .error _ => none
      | .ok (_, db) => some { s with db }
  | .pushUpsert payload =>
      match stkPushUpsert payload s.db with
      | .error _ => none
      | .ok db =>
          some
            { db
              opening := opened s.opening payload.userId depositOpeningCents
              awaiting := payload :: s.awaiting }
  | .pushRecord index gateway =>
      match s.awaiting[index]? with
      | none => none
      | some payload =>
          match stkPushRecord pyRepr payload gateway s.db with
          | .error _ => none
          | .ok (_, db) => some { s with db, awaiting := s.awaiting.eraseIdx index }
  | .callback body =>
      match mpesaStkCallback pyRepr body s.db with
      | .error _ => none
      | .ok (_, db) => some { s with db }

/-- What a committed transaction has done. -/
inductive Service.Committed (s : Service) : Operation → Service → Prop
  | duplicate {event : BetResultEvent} : Committed s (.result event) s
  | persisted {event : BetResultEvent} {db : Database}
      (process : processBetResultEvent event s.db = .ok (true, db))
      (persisted : Persisted event s.db db) :
      Committed s (.result event)
        { s with db, opening := opened s.opening event.userId openingBalanceCents }
  | settled {matchId winningSelectionId : String} {response : SettleMatchResponse} {db : Database}
      (settle : settleMatchOutcome matchId winningSelectionId s.db = .ok (response, db)) :
      Committed s (.settle matchId winningSelectionId) { s with db }
  | upserted {payload : MpesaDepositRequest} {db : Database}
      (upsert : stkPushUpsert payload s.db = .ok db) :
      Committed s (.pushUpsert payload)
        { db
          opening := opened s.opening payload.userId depositOpeningCents
          awaiting := payload :: s.awaiting }
  | recorded {index : Nat} {gateway : Json} {payload : MpesaDepositRequest} {checkoutId : String}
      {merchantId : Option String} {db : Database} (awaiting : payload ∈ s.awaiting)
      (insert : s.db.insertTransaction (payload.transaction checkoutId merchantId) = .ok db) :
      Committed s (.pushRecord index gateway)
        { s with db, awaiting := s.awaiting.eraseIdx index }
  | acknowledged {body : List (String × Json)} : Committed s (.callback body) s
  | closed {body : List (String × Json)} {txn : MpesaTransaction} {columns : CallbackColumns}
      {paid : Bool} {db : Database} (mem : txn ∈ s.db.transactions.rows)
      (pending : txn.status = .pending) (closed : ClosedTransaction txn columns paid s.db db) :
      Committed s (.callback body) { s with db }

/-- The cases of a step. -/
theorem Service.step_cases {pyRepr : Json → String} {s s' : Service} {operation : Operation}
    (hstep : s.step pyRepr operation = some s') : s.Committed operation s' := by
  cases operation with
  | result event =>
      simp only [Service.step] at hstep
      split at hstep
      · contradiction
      · rename_i db hprocess
        obtain rfl := Option.some.inj hstep
        obtain ⟨-, rfl, -⟩ | ⟨hfalse, -⟩ := processBetResultEvent_eq_ok hprocess
        · exact .duplicate
        · contradiction
      · rename_i db hprocess
        obtain rfl := Option.some.inj hstep
        obtain ⟨htrue, -⟩ | ⟨-, hpersisted⟩ := processBetResultEvent_eq_ok hprocess
        · contradiction
        · exact .persisted hprocess hpersisted
  | settle matchId winningSelectionId =>
      simp only [Service.step] at hstep
      split at hstep
      · contradiction
      · rename_i response db hsettle
        obtain rfl := Option.some.inj hstep
        exact .settled hsettle
  | pushUpsert payload =>
      simp only [Service.step] at hstep
      split at hstep
      · contradiction
      · rename_i db hupsert
        obtain rfl := Option.some.inj hstep
        exact .upserted hupsert
  | pushRecord index gateway =>
      simp only [Service.step] at hstep
      split at hstep
      · contradiction
      · rename_i payload hpayload
        split at hstep
        · contradiction
        · rename_i response db hrecord
          obtain rfl := Option.some.inj hstep
          obtain ⟨checkoutId, merchantId, -, -, -, hinsert⟩ := stkPushRecord_eq_ok hrecord
          exact .recorded (List.mem_of_getElem? hpayload) hinsert
  | callback body =>
      simp only [Service.step] at hstep
      split at hstep
      · contradiction
      · rename_i ack db hcallback
        obtain rfl := Option.some.inj hstep
        obtain ⟨callback, -, hbody⟩ := bind_eq_ok_iff.mp hcallback
        obtain ⟨db₁, happly, hack⟩ := bind_eq_ok_iff.mp hbody
        obtain ⟨-, rfl⟩ := Prod.mk.inj (Except.ok.inj hack)
        obtain ⟨checkoutId, -, -, ⟨rfl, -⟩ | ⟨txn, columns, htxn, hpending, -, hclosed⟩⟩ :=
          applyCallback_eq_ok happly
        · exact .acknowledged
        · exact .closed (Table.find_eq_some htxn).1 hpending hclosed

/-! ## The journal -/

/-- The ledger rows of one type. -/
def entries (db : Database) (type : LedgerType) : List WalletLedger :=
  db.ledger.rows.filter fun r => r.type = type

/-- The sum of a user's ledger amounts. -/
def postedSum (rows : List WalletLedger) (user : Uuid) : Int :=
  ((rows.filter fun r => r.userId = user).map WalletLedger.amountCents).sum

/-- The bets whose stake has been taken. -/
def isStaked (bet : Bet) : Bool :=
  bet.status = .accepted || bet.status = .won || bet.status = .lost

/-- The bets that have been paid out. -/
def isWon (bet : Bet) : Bool :=
  bet.status = .won

/-- The transactions that have been credited. -/
def isPaid (txn : MpesaTransaction) : Bool :=
  txn.status = .success

/-- The ledger row a staked bet calls for. -/
def stakeRow (bet : Bet) : WalletLedger where
  userId := bet.userId
  amountCents := -bet.stakeCents
  type := .betStake
  referenceId := bet.id.text

/-- The ledger row a won bet calls for; `none` when its payout cannot be computed. -/
def wonRow (bet : Bet) : Option WalletLedger :=
  (calculatePayoutCents bet.stakeCents bet.odds).map (payoutRow bet)

/-- Each balance is what its wallet row was inserted with plus the user's postings. -/
def Balanced (balance opening : Uuid → Option Int) (rows : List WalletLedger) : Prop :=
  ∀ user, balance user = (opening user).map fun amount => amount + postedSum rows user

/-- Every balance is accounted for by the ledger, and the ledger rows of each type are,
one for one, those the bets and the M-Pesa transactions call for. -/
structure Journal (s : Service) : Prop where
  balanced : Balanced s.db.balance s.opening s.db.ledger.rows
  stakes : (entries s.db .betStake).Perm ((s.db.bets.rows.filter isStaked).map stakeRow)
  payouts : ((entries s.db .betPayout).map some).Perm ((s.db.bets.rows.filter isWon).map wonRow)
  deposits : (entries s.db .deposit).Perm ((s.db.transactions.rows.filter isPaid).map depositRow)
  bet_wallet : ∀ bet ∈ s.db.bets.rows, (s.db.balance bet.userId).isSome
  transaction_wallet : ∀ txn ∈ s.db.transactions.rows, (s.db.balance txn.userId).isSome
  ledger_wallet : ∀ row ∈ s.db.ledger.rows, (s.db.balance row.userId).isSome
  awaiting_wallet : ∀ payload ∈ s.awaiting, (s.db.balance payload.userId).isSome

/-- An empty database is its own journal. -/
theorem journal_start : Journal .start where
  balanced := by simp [Balanced, Service.start, Database.empty, Database.balance, Table.empty,
    Table.find]
  stakes := by simp [entries, Service.start, Database.empty, Table.empty]
  payouts := by simp [entries, Service.start, Database.empty, Table.empty]
  deposits := by simp [entries, Service.start, Database.empty, Table.empty]
  bet_wallet := by simp [Service.start, Database.empty, Table.empty]
  transaction_wallet := by simp [Service.start, Database.empty, Table.empty]
  ledger_wallet := by simp [Service.start, Database.empty, Table.empty]
  awaiting_wallet := by simp [Service.start]

/-! ## Postings -/

section Balanced

variable {balance balance' opening : Uuid → Option Int} {rows : List WalletLedger} {user : Uuid}

/-- What is posted adds up. -/
theorem postedSum_append (rows rows' : List WalletLedger) (user : Uuid) :
    postedSum (rows ++ rows') user = postedSum rows user + postedSum rows' user := by
  simp [postedSum]

/-- A user without a wallet has no postings, so that a new wallet row starts with what
it was inserted with. -/
theorem Balanced.opened {openingCents : Int} (hbalanced : Balanced balance opening rows)
    (hrows : ∀ row ∈ rows, (balance row.userId).isSome)
    (hbalance : ∀ user', balance' user' =
      if user' = user then some ((balance user).getD openingCents) else balance user') :
    Balanced balance' (opened opening user openingCents) rows := by
  intro user'
  rw [hbalance, Settlement.opened]
  by_cases huser : user' = user
  · subst huser
    rw [if_pos rfl, if_pos rfl, hbalanced user']
    cases hopening : opening user' with
    | some amount => rfl
    | none =>
        have hnone : balance user' = none := by simp [hbalanced user', hopening]
        have hempty : rows.filter (fun r => r.userId = user') = [] := by
          rw [List.filter_eq_nil_iff]
          intro row hrow hown
          have hsome := hrows row hrow
          rw [of_decide_eq_true hown, hnone] at hsome
          contradiction
        simp [postedSum, hempty]
  · simp [huser, hbalanced user']

/-- A change of one user's balance that is posted to the ledger. -/
theorem Balanced.post {row : WalletLedger} (hbalanced : Balanced balance opening rows)
    (hbalance : ∀ user', balance' user' =
      if user' = row.userId then (balance user').map fun b => b + row.amountCents
      else balance user') :
    Balanced balance' opening (rows ++ [row]) := by
  intro user'
  rw [hbalance, postedSum_append, hbalanced user']
  by_cases huser : user' = row.userId
  · subst huser
    rw [if_pos rfl, Option.map_map]
    congr 1
    funext amount
    simp only [Function.comp_apply, postedSum, decide_true, List.filter_cons_of_pos,
      List.filter_nil, List.map_cons, List.map_nil, List.sum_cons, List.sum_nil]
    omega
  · have hne : ¬ row.userId = user' := fun h => huser h.symm
    simp [huser, hne, postedSum]

end Balanced

/-! ## What one transaction preserves -/

section Step

variable {s : Service} {db' : Database}

/-- A posted row joins the rows of its type. -/
theorem filter_type_append (rows : List WalletLedger) (row : WalletLedger) (type : LedgerType) :
    (rows ++ [row]).filter (fun r => r.type = type) =
      rows.filter (fun r => r.type = type) ++ if row.type = type then [row] else [] := by
  rw [List.filter_append, List.filter_singleton]
  simp [Bool.cond_eq_ite]

/-- A row is posted at the end, wherever the row that calls for it stands. -/
theorem perm_posted {α : Type} {rows before after : List α} (h : rows.Perm (before ++ after))
    (row : α) : (rows ++ [row]).Perm (before ++ row :: after) := by
  calc
    List.Perm (rows ++ [row]) (row :: rows) := List.perm_append_singleton row rows
    List.Perm _ (row :: (before ++ after)) := h.cons row
    List.Perm _ (before ++ row :: after) := List.perm_middle.symm

/-- A credit keeps the wallets there are. -/
theorem isSome_of_credited {db : Database} {user : Uuid} {p : Prop} [Decidable p] {f : Int → Int}
    (h : db'.balance user = if p then (db.balance user).map f else db.balance user)
    (huser : (db.balance user).isSome) : (db'.balance user).isSome := by
  rw [h]
  split
  · simpa using huser
  · exact huser

/-- Persisting an event keeps the wallets there are and adds the user's. -/
theorem Persisted.balance_isSome {event : BetResultEvent} {db : Database}
    (h : Persisted event db db') {user : Uuid}
    (huser : user = event.userId ∨ (db.balance user).isSome) : (db'.balance user).isSome := by
  rw [h.balance]
  split
  · rfl
  · rename_i hne
    exact huser.resolve_left hne

/-- A persisted event keeps the journal. -/
theorem journal_result {event : BetResultEvent} (hs : Journal s)
    (h : Persisted event s.db db') :
    Journal { s with
      db := db', opening := opened s.opening event.userId openingBalanceCents } := by
  have hbets := h.bets
  have hledger := h.ledger
  have hopened : Balanced (fun user => if user = event.userId then
      some ((s.db.balance event.userId).getD openingBalanceCents) else s.db.balance user)
      (opened s.opening event.userId openingBalanceCents) s.db.ledger.rows :=
    hs.balanced.opened hs.ledger_wallet fun _ => rfl
  have hwallet : ∀ bet ∈ db'.bets.rows, (db'.balance bet.userId).isSome := by
    intro bet hbet
    rw [hbets] at hbet
    rcases List.mem_append.mp hbet with hbet | hbet
    · exact h.balance_isSome (Or.inr (hs.bet_wallet bet hbet))
    · obtain rfl := List.mem_singleton.mp hbet
      exact h.balance_isSome (Or.inl rfl)
  have htransaction : ∀ txn ∈ db'.transactions.rows, (db'.balance txn.userId).isSome := by
    intro txn htxn
    rw [h.transactions] at htxn
    exact h.balance_isSome (Or.inr (hs.transaction_wallet txn htxn))
  have hawaiting : ∀ payload ∈ s.awaiting, (db'.balance payload.userId).isSome :=
    fun payload hpayload => h.balance_isSome (Or.inr (hs.awaiting_wallet payload hpayload))
  rcases statusFromResult_cases event with haccepted | hrejected
  · rw [if_pos haccepted] at hledger
    refine ⟨?_, ?_, ?_, ?_, hwallet, htransaction, ?_, hawaiting⟩
    · simp only [hledger]
      refine hopened.post fun user => ?_
      rw [h.balance]
      simp only [BetResultEvent.ledgerRow, BetResultEvent.debit, haccepted, if_true]
      split
      · simp [openingBalance, Int.sub_eq_add_neg]
      · rfl
    · simp only [entries, hledger, hbets, List.filter_append, List.map_append]
      refine hs.stakes.append ?_
      simp [BetResultEvent.ledgerRow, BetResultEvent.bet, isStaked, haccepted, stakeRow]
    · simpa [entries, hledger, hbets, filter_type_append, BetResultEvent.ledgerRow,
        BetResultEvent.bet, isWon, haccepted] using hs.payouts
    · simpa [entries, hledger, h.transactions, filter_type_append, BetResultEvent.ledgerRow]
        using hs.deposits
    · intro row hrow
      rw [hledger] at hrow
      rcases List.mem_append.mp hrow with hrow | hrow
      · exact h.balance_isSome (Or.inr (hs.ledger_wallet row hrow))
      · obtain rfl := List.mem_singleton.mp hrow
        exact h.balance_isSome (Or.inl rfl)
  · have hnot : statusFromResult event ≠ .accepted := by simp [hrejected]
    rw [if_neg hnot, List.append_nil] at hledger
    refine ⟨?_, ?_, ?_, ?_, hwallet, htransaction, ?_, hawaiting⟩
    · intro user
      rw [hledger, ← hopened user, h.balance]
      simp only [BetResultEvent.debit, hnot, if_false, Int.sub_zero]
      rfl
    · simpa [entries, hledger, hbets, BetResultEvent.bet, isStaked, hrejected] using hs.stakes
    · simpa [entries, hledger, hbets, BetResultEvent.bet, isWon, hrejected] using hs.payouts
    · simpa [entries, hledger, h.transactions] using hs.deposits
    · intro row hrow
      rw [hledger] at hrow
      exact h.balance_isSome (Or.inr (hs.ledger_wallet row hrow))

/-- Settling an accepted bet keeps the journal: a win is credited and posted, and a
loss has had its stake posted before. -/
theorem journal_settledBet {winningSelectionId : String} {bet : Bet} {payoutCents : Option Int}
    (hs : Journal s) (hmem : bet ∈ s.db.bets.rows) (haccepted : bet.status = .accepted)
    (h : SettledBet winningSelectionId bet payoutCents s.db db') :
    Journal { s with db := db' } := by
  have hledger := h.ledger
  have hisSome : ∀ {user}, (s.db.balance user).isSome → (db'.balance user).isSome :=
    isSome_of_credited (h.balance _)
  obtain ⟨before, after, hrows, hsettled⟩ := Table.exists_split_update Bet.id
    (fun _ _ hid => Or.inl hid) hmem
    (fun r => { r with status := if bet.selectionId = winningSelectionId then .won else .lost })
  have hbets := h.bets.trans hsettled
  have hstakes : db'.bets.rows.filter isStaked =
      before.filter isStaked ++
        { bet with status := if bet.selectionId = winningSelectionId then .won else .lost } ::
          after.filter isStaked := by
    rw [hbets]
    split <;> simp [isStaked]
  have hstaked : s.db.bets.rows.filter isStaked =
      before.filter isStaked ++ bet :: after.filter isStaked := by
    simp [hrows, isStaked, haccepted]
  have hwonBefore : s.db.bets.rows.filter isWon = before.filter isWon ++ after.filter isWon := by
    simp [hrows, isWon, haccepted]
  have hwallet : ∀ b ∈ db'.bets.rows, (db'.balance b.userId).isSome := by
    intro b hb
    rw [h.bets] at hb
    obtain ⟨r, hr, rfl⟩ := List.mem_map.mp hb
    have hrow := hisSome (hs.bet_wallet r hr)
    split <;> exact hrow
  have htransaction : ∀ txn ∈ db'.transactions.rows, (db'.balance txn.userId).isSome := by
    intro txn htxn
    rw [h.transactions] at htxn
    exact hisSome (hs.transaction_wallet txn htxn)
  have hawaiting : ∀ payload ∈ s.awaiting, (db'.balance payload.userId).isSome :=
    fun payload hpayload => hisSome (hs.awaiting_wallet payload hpayload)
  have hstakeRows : ((db'.bets.rows.filter isStaked).map stakeRow) =
      (s.db.bets.rows.filter isStaked).map stakeRow := by
    rw [hstakes, hstaked]
    simp [stakeRow]
  by_cases hwon : bet.selectionId = winningSelectionId
  · obtain ⟨payout, hpayout⟩ := Option.isSome_iff_exists.mp (h.payout_isSome hwon)
    have hcalc : calculatePayoutCents bet.stakeCents bet.odds = some payout := by
      simpa [hwon, hpayout] using h.payout.symm
    rw [hpayout, Option.toList_some, List.map_singleton] at hledger
    refine ⟨?_, ?_, ?_, ?_, hwallet, htransaction, ?_, hawaiting⟩
    · simp only [hledger]
      refine hs.balanced.post fun user => ?_
      rw [h.balance, hpayout]
      rfl
    · simpa [entries, hledger, filter_type_append, payoutRow, hstakeRows] using hs.stakes
    · have hwonAfter : db'.bets.rows.filter isWon =
          before.filter isWon ++ { bet with status := .won } :: after.filter isWon := by
        simp [hbets, hwon, isWon]
      simp only [entries, hledger, filter_type_append, payoutRow, if_true, hwonAfter,
        List.map_append, List.map_cons, List.map_nil]
      have hrow : wonRow { bet with status := .won } = some (payoutRow bet payout) := by
        simp [wonRow, hcalc, payoutRow]
      rw [hrow]
      have hold := hs.payouts
      rw [hwonBefore, List.map_append] at hold
      exact perm_posted hold _
    · simpa [entries, hledger, filter_type_append, payoutRow, h.transactions] using hs.deposits
    · intro row hrow
      rw [hledger] at hrow
      rcases List.mem_append.mp hrow with hrow | hrow
      · exact hisSome (hs.ledger_wallet row hrow)
      · obtain rfl := List.mem_singleton.mp hrow
        exact hisSome (hs.bet_wallet bet hmem)
  · have hnone : payoutCents = none := by simpa [hwon] using h.payout
    rw [hnone, Option.toList_none, List.map_nil, List.append_nil] at hledger
    refine ⟨?_, ?_, ?_, ?_, hwallet, htransaction, ?_, hawaiting⟩
    · intro user
      rw [hledger, ← hs.balanced user, h.balance, hnone]
      split <;> simp
    · simpa [entries, hledger, hstakeRows] using hs.stakes
    · have hwonAfter : db'.bets.rows.filter isWon = before.filter isWon ++ after.filter isWon := by
        simp [hbets, hwon, isWon]
      simpa [entries, hledger, hwonAfter, hwonBefore] using hs.payouts
    · simpa [entries, hledger, h.transactions] using hs.deposits
    · intro row hrow
      rw [hledger] at hrow
      exact hisSome (hs.ledger_wallet row hrow)

/-- The first transaction of a push keeps the journal. -/
theorem journal_pushUpsert {payload : MpesaDepositRequest} (hs : Journal s)
    (h : stkPushUpsert payload s.db = .ok db') :
    Journal
      { db := db'
        opening := opened s.opening payload.userId depositOpeningCents
        awaiting := payload :: s.awaiting } := by
  obtain ⟨db₁, huser, hwallet⟩ := bind_eq_ok_iff.mp h
  obtain ⟨-, hwallets₁, hbets₁, hledger₁, htransactions₁⟩ :=
    upsertUser_eq_ok (sql_eq_ok_iff.mp huser)
  obtain ⟨hbalance₂, -, hbets₂, hledger₂, htransactions₂⟩ :=
    upsertWallet_eq_ok (sql_eq_ok_iff.mp hwallet)
  have hbets : db'.bets = s.db.bets := hbets₂.trans hbets₁
  have hledger : db'.ledger = s.db.ledger := hledger₂.trans hledger₁
  have htransactions : db'.transactions = s.db.transactions :=
    htransactions₂.trans htransactions₁
  have hbalance : ∀ user, db'.balance user =
      if user = payload.userId then
        some ((s.db.balance payload.userId).getD depositOpeningCents)
      else s.db.balance user := by
    intro user
    rw [hbalance₂, openingBalance, Database.balance_eq_of_wallets hwallets₁,
      Database.balance_eq_of_wallets hwallets₁]
  have hisSome : ∀ {user}, user = payload.userId ∨ (s.db.balance user).isSome →
      (db'.balance user).isSome := by
    intro user huser
    rw [hbalance]
    split
    · rfl
    · rename_i hne
      exact huser.resolve_left hne
  refine ⟨?_, ?_, ?_, ?_, ?_, ?_, ?_, ?_⟩
  · simp only [hledger]
    exact hs.balanced.opened hs.ledger_wallet hbalance
  · simpa [entries, hledger, hbets] using hs.stakes
  · simpa [entries, hledger, hbets] using hs.payouts
  · simpa [entries, hledger, htransactions] using hs.deposits
  · simp only [hbets]
    exact fun bet hbet => hisSome (Or.inr (hs.bet_wallet bet hbet))
  · simp only [htransactions]
    exact fun txn htxn => hisSome (Or.inr (hs.transaction_wallet txn htxn))
  · simp only [hledger]
    exact fun row hrow => hisSome (Or.inr (hs.ledger_wallet row hrow))
  · intro payload' hpayload'
    rcases List.mem_cons.mp hpayload' with rfl | hpayload'
    · exact hisSome (Or.inl rfl)
    · exact hisSome (Or.inr (hs.awaiting_wallet payload' hpayload'))

/-- The second transaction of a push keeps the journal: its row is pending. -/
theorem journal_pushRecord {payload : MpesaDepositRequest} {awaiting : List MpesaDepositRequest}
    {checkoutId : String} {merchantId : Option String} (hs : Journal s)
    (hpayload : payload ∈ s.awaiting) (hawaiting : ∀ p ∈ awaiting, p ∈ s.awaiting)
    (h : s.db.insertTransaction (payload.transaction checkoutId merchantId) = .ok db') :
    Journal { s with db := db', awaiting := awaiting } := by
  obtain ⟨hinsert, -, -, hwallets, hbets, hledger⟩ :=
    Database.insertTransaction_eq_ok_iff.mp h
  have hbalance : ∀ user, db'.balance user = s.db.balance user :=
    Database.balance_eq_of_wallets hwallets
  refine ⟨?_, ?_, ?_, ?_, ?_, ?_, ?_, ?_⟩
  · intro user
    rw [hbalance, hledger]
    exact hs.balanced user
  · simpa [entries, hledger, hbets] using hs.stakes
  · simpa [entries, hledger, hbets] using hs.payouts
  · simpa [entries, hledger, Table.insert_rows hinsert, isPaid,
      MpesaDepositRequest.transaction] using hs.deposits
  · simpa [hbets, hbalance] using hs.bet_wallet
  · intro txn htxn
    rw [hbalance]
    simp only [Table.insert_rows hinsert] at htxn
    rcases List.mem_append.mp htxn with htxn | htxn
    · exact hs.transaction_wallet txn htxn
    · obtain rfl := List.mem_singleton.mp htxn
      exact hs.awaiting_wallet payload hpayload
  · simpa [hledger, hbalance] using hs.ledger_wallet
  · intro p hp
    rw [hbalance]
    exact hs.awaiting_wallet p (hawaiting p hp)

/-- A callback that closes a pending transaction keeps the journal. -/
theorem journal_closedTransaction {txn : MpesaTransaction} {columns : CallbackColumns} {paid : Bool}
    (hs : Journal s) (hmem : txn ∈ s.db.transactions.rows) (hpending : txn.status = .pending)
    (h : ClosedTransaction txn columns paid s.db db') : Journal { s with db := db' } := by
  have hledger := h.ledger
  have hisSome : ∀ {user}, (s.db.balance user).isSome → (db'.balance user).isSome :=
    isSome_of_credited (h.balance _)
  obtain ⟨before, after, hrows, hclosed⟩ := Table.exists_split_update
    MpesaTransaction.checkoutRequestId (fun _ _ hid => hid) hmem
    (fun r => r.write columns)
  have htransactions := h.transactions.trans hclosed
  have hpaidBefore : s.db.transactions.rows.filter isPaid =
      before.filter isPaid ++ after.filter isPaid := by
    simp [hrows, isPaid, hpending]
  have hbet : ∀ bet ∈ db'.bets.rows, (db'.balance bet.userId).isSome := by
    rw [h.bets]
    exact fun bet hbet => hisSome (hs.bet_wallet bet hbet)
  have htransaction : ∀ r ∈ db'.transactions.rows, (db'.balance r.userId).isSome := by
    intro r hr
    rw [h.transactions] at hr
    obtain ⟨r', hr', rfl⟩ := List.mem_map.mp hr
    have hrow := hisSome (hs.transaction_wallet r' hr')
    split <;> exact hrow
  have hawaiting : ∀ payload ∈ s.awaiting, (db'.balance payload.userId).isSome :=
    fun payload hpayload => hisSome (hs.awaiting_wallet payload hpayload)
  cases paid with
  | true =>
      simp only [if_true] at hledger
      refine ⟨?_, ?_, ?_, ?_, hbet, htransaction, ?_, hawaiting⟩
      · simp only [hledger]
        refine hs.balanced.post fun user => ?_
        rw [h.balance]
        by_cases huser : user = txn.userId <;> simp [huser, depositRow]
      · simpa [entries, hledger, filter_type_append, depositRow, h.bets] using hs.stakes
      · simpa [entries, hledger, filter_type_append, depositRow, h.bets] using hs.payouts
      · have hpaidAfter : db'.transactions.rows.filter isPaid =
            before.filter isPaid ++ txn.write columns :: after.filter isPaid := by
          have hstatus : columns.status = .success := by simpa using h.status
          simp [htransactions, isPaid, MpesaTransaction.write, hstatus]
        have hold := hs.deposits
        rw [hpaidBefore, List.map_append] at hold
        simp only [entries, hledger, filter_type_append, depositRow, if_true, hpaidAfter,
          List.map_append, List.map_cons]
        exact perm_posted hold _
      · intro row hrow
        rw [hledger] at hrow
        rcases List.mem_append.mp hrow with hrow | hrow
        · exact hisSome (hs.ledger_wallet row hrow)
        · obtain rfl := List.mem_singleton.mp hrow
          exact hisSome (h.balance_isSome rfl)
  | false =>
      simp only [Bool.false_eq_true, if_false, List.append_nil] at hledger
      refine ⟨?_, ?_, ?_, ?_, hbet, htransaction, ?_, hawaiting⟩
      · intro user
        rw [hledger, ← hs.balanced user, h.balance]
        simp
      · simpa [entries, hledger, h.bets] using hs.stakes
      · simpa [entries, hledger, h.bets] using hs.payouts
      · have hpaidAfter : db'.transactions.rows.filter isPaid =
            before.filter isPaid ++ after.filter isPaid := by
          have hstatus : columns.status = .failed := by simpa using h.status
          simp [htransactions, isPaid, MpesaTransaction.write, hstatus]
        simpa [entries, hledger, hpaidAfter, hpaidBefore] using hs.deposits
      · intro row hrow
        rw [hledger] at hrow
        exact hisSome (hs.ledger_wallet row hrow)

/-- Each committed transaction keeps the journal. -/
theorem journal_step {pyRepr : Json → String} {s' : Service} {operation : Operation}
    (hs : Journal s) (hstep : s.step pyRepr operation = some s') : Journal s' := by
  cases Service.step_cases hstep with
  | duplicate => exact hs
  | persisted _ hpersisted => exact journal_result hs hpersisted
  | settled hsettle =>
      refine settleMatchOutcome_invariant (fun db => Journal { s with db := db }) ?_ hs hsettle
      intro bet payoutCents db db' hinv hmem haccepted hsettled
      exact journal_settledBet (s := { s with db := db }) hinv hmem haccepted hsettled
  | upserted hupsert => exact journal_pushUpsert hs hupsert
  | recorded hpayload hinsert =>
      exact journal_pushRecord hs hpayload (fun p hp => List.mem_of_mem_eraseIdx hp) hinsert
  | acknowledged => exact hs
  | closed hmem hpending hclosed => exact journal_closedTransaction hs hmem hpending hclosed

end Step

/-! ## Whole runs -/

/-- In every run the balances are what the ledger has posted. -/
theorem journal_of_reachable {pyRepr : Json → String} {s : Service}
    (hrun : Reachable (Service.step pyRepr) .start s) : Journal s :=
  hrun.invariant journal_start fun hs _ hstep => journal_step hs hstep

/-- The ledger rows of one type have distinct references. -/
theorem Journal.reference_nodup {s : Service} (hs : Journal s) (type : LedgerType) :
    ((entries s.db type).map WalletLedger.referenceId).Nodup := by
  have hbets : ∀ p : Bet → Bool, ((s.db.bets.rows.filter p).map fun bet => bet.id.text).Nodup := by
    intro p
    refine List.pairwise_map.mpr ((s.db.bets.distinct.imp ?_).filter p)
    exact fun hclash htext => hclash (Or.inl (Uuid.text_injective htext))
  cases type with
  | betStake =>
      rw [(hs.stakes.map WalletLedger.referenceId).nodup_iff, List.map_map]
      exact hbets isStaked
  | betPayout =>
      have hreference : ∀ bet ∈ s.db.bets.rows.filter isWon,
          (Option.map WalletLedger.referenceId ∘ wonRow) bet = some bet.id.text := by
        intro bet hbet
        have hrow : wonRow bet ∈ (entries s.db .betPayout).map some :=
          hs.payouts.mem_iff.mpr (List.mem_map_of_mem hbet)
        obtain ⟨row, -, hsome⟩ := List.mem_map.mp hrow
        obtain ⟨payout, -, rfl⟩ := Option.map_eq_some_iff.mp hsome.symm
        rw [Function.comp_apply, ← hsome]
        rfl
      have hsome := (hs.payouts.map (Option.map WalletLedger.referenceId)).nodup_iff
      rw [List.map_map, List.map_map, List.map_congr_left hreference] at hsome
      have hright : ((s.db.bets.rows.filter isWon).map fun bet => some bet.id.text).Nodup := by
        have hids := (hbets isWon).map (Option.some_injective String)
        rwa [List.map_map] at hids
      have hleft := hsome.mpr hright
      have hswap : Option.map WalletLedger.referenceId ∘ some =
          some ∘ WalletLedger.referenceId := rfl
      rw [hswap, ← List.map_map] at hleft
      exact List.Nodup.of_map some hleft
  | deposit =>
      rw [(hs.deposits.map WalletLedger.referenceId).nodup_iff, List.map_map]
      exact List.pairwise_map.mpr (s.db.transactions.distinct.filter isPaid)

/-- In every database that committed transactions reach from the empty one, each
balance is what its wallet row was inserted with plus the user's ledger amounts and is
not negative; the ledger rows of each type are, reference by reference, those that the
bets and the M-Pesa transactions call for; and every bettor and every depositor has a
wallet. -/
theorem ledger_is_journal {pyRepr : Json → String} {s : Service}
    (hrun : Reachable (Service.step pyRepr) .start s) :
    (∀ user, s.db.balance user =
        (s.opening user).map fun amount => amount + postedSum s.db.ledger.rows user) ∧
      (∀ user amount, s.db.balance user = some amount → 0 ≤ amount) ∧
      (entries s.db .betStake).Perm ((s.db.bets.rows.filter isStaked).map stakeRow) ∧
      ((entries s.db .betPayout).map some).Perm ((s.db.bets.rows.filter isWon).map wonRow) ∧
      (entries s.db .deposit).Perm ((s.db.transactions.rows.filter isPaid).map depositRow) ∧
      (∀ type, ((entries s.db type).map WalletLedger.referenceId).Nodup) ∧
      (∀ bet ∈ s.db.bets.rows, (s.db.balance bet.userId).isSome) ∧
      ∀ txn ∈ s.db.transactions.rows, (s.db.balance txn.userId).isSome := by
  have hs := journal_of_reachable hrun
  exact ⟨hs.balanced, fun _ _ => Database.wallet_balance_nonneg, hs.stakes, hs.payouts,
    hs.deposits, hs.reference_nodup, hs.bet_wallet, hs.transaction_wallet⟩

/-- A bet is accepted and wins, then its user deposits 50. -/
def sampleOperations : List Operation :=
  [.result sampleEvent, .settle "m" "home",
    .pushUpsert sampleDepositRequest,
    .pushRecord 0 (.dict [("ResponseCode", .str "0"), ("CheckoutRequestID", .str "ws_CO_1")]),
    .callback [("Body", .dict [("stkCallback",
      .dict [("CheckoutRequestID", .str "ws_CO_1"), ("ResultCode", .int 0)])])]]

/-- The user's wallet then holds the 100000 it was inserted with, less the stake of 2500,
plus the payout of 7250 and the deposit of 5000. -/
theorem ledger_is_journal_winAndDeposit :
    ∃ s, Reachable (Service.step fun _ => "") .start s ∧ s.opening 7 = some 100000 ∧
      s.db.balance 7 = some 109750 ∧
      s.db.balance 7 = some (100000 + postedSum s.db.ledger.rows 7) := by
  have hexec : (sampleOperations.foldlM (Service.step fun _ => "") .start).map
      (fun s => (s.opening 7, s.db.balance 7)) = some (some 100000, some 109750) := by
    decide +kernel
  obtain ⟨s, hs, hvalues⟩ := Option.map_eq_some_iff.mp hexec
  obtain ⟨hopening, hbalance⟩ := Prod.mk.inj hvalues
  have hrun := Reaches.of_foldlM hs
  have hjournal := (ledger_is_journal hrun).1 7
  rw [hopening, Option.map_some] at hjournal
  exact ⟨s, hrun, hopening, hbalance, hjournal⟩

end Settlement
end BettingPlatform
