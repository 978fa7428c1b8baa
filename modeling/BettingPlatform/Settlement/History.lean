import BettingPlatform.Foundations.GrowingRows
import BettingPlatform.Settlement.Journal
import BettingPlatform.Settlement.Settled

/-!
# The history of the settlement database

No transaction deletes a row.  A bet keeps its columns, and its status changes at most
once, from `ACCEPTED` to `WON` or `LOST`; an M-Pesa transaction is closed at most once and
keeps what the push recorded; ledger rows and users never change.

Main results:

- Theorem `evolves_step`: what one committed transaction may do to the rows there are.
- Theorem `history_of_run`: what any run of transactions may do to them.
-/

namespace BettingPlatform
namespace Settlement

open Python Runs GrowingRows

/-! ## What may become of a row -/

/-- A bet keeps its columns, and only an accepted one gets another status. -/
structure Bet.Becomes (bet bet' : Bet) : Prop where
  columns : bet' = { bet with status := bet'.status }
  status : bet'.status = bet.status ∨
    bet.status = .accepted ∧ (bet'.status = .won ∨ bet'.status = .lost)

/-- A transaction keeps what the push recorded, and only a pending one is closed. -/
structure MpesaTransaction.Becomes (txn txn' : MpesaTransaction) : Prop where
  recorded : ∃ columns, txn' = txn.write columns
  status : txn' = txn ∨
    txn.status = .pending ∧ (txn'.status = .success ∨ txn'.status = .failed)

theorem Bet.Becomes.refl (bet : Bet) : bet.Becomes bet where
  columns := rfl
  status := Or.inl rfl

theorem Bet.Becomes.trans {a b c : Bet} (h : a.Becomes b) (h' : b.Becomes c) : a.Becomes c where
  columns := by
    rw [h'.columns, h.columns]
  status := by
    rcases h'.status with hsame | ⟨hopen, hclosed⟩
    · rw [hsame]
      exact h.status
    · rcases h.status with hsame | ⟨-, hwon | hlost⟩
      · exact Or.inr ⟨hsame ▸ hopen, hclosed⟩
      · rw [hwon] at hopen
        contradiction
      · rw [hlost] at hopen
        contradiction

theorem MpesaTransaction.Becomes.refl (txn : MpesaTransaction) : txn.Becomes txn where
  recorded := ⟨⟨txn.status, txn.resultCode, txn.resultDesc, txn.mpesaReceiptNumber⟩, rfl⟩
  status := Or.inl rfl

theorem MpesaTransaction.Becomes.trans {a b c : MpesaTransaction} (h : a.Becomes b)
    (h' : b.Becomes c) : a.Becomes c where
  recorded := by
    obtain ⟨_, rfl⟩ := h.recorded
    obtain ⟨columns, rfl⟩ := h'.recorded
    exact ⟨columns, rfl⟩
  status := by
    rcases h'.status with rfl | ⟨hopen, hclosed⟩
    · exact h.status
    · rcases h.status with rfl | ⟨-, hpaid | hfailed⟩
      · exact Or.inr ⟨hopen, hclosed⟩
      · rw [hpaid] at hopen
        contradiction
      · rw [hfailed] at hopen
        contradiction

/-- What a committed transaction may do to the database. -/
structure Database.Evolves (db db' : Database) : Prop where
  users : db.users.rows <+: db'.users.rows
  wallets : ∀ user, (db.balance user).isSome → (db'.balance user).isSome
  bets : Grows Bet.Becomes db.bets.rows db'.bets.rows
  ledger : db.ledger.rows <+: db'.ledger.rows
  transactions : Grows MpesaTransaction.Becomes db.transactions.rows db'.transactions.rows

section Evolves

variable {db db' db'' : Database}

theorem Database.Evolves.refl (db : Database) : db.Evolves db where
  users := List.prefix_rfl
  wallets := fun _ h => h
  bets := .refl Bet.Becomes.refl _
  ledger := List.prefix_rfl
  transactions := .refl MpesaTransaction.Becomes.refl _

theorem Database.Evolves.trans (h : db.Evolves db') (h' : db'.Evolves db'') :
    db.Evolves db'' where
  users := h.users.trans h'.users
  wallets := fun user hsome => h'.wallets user (h.wallets user hsome)
  bets := h.bets.trans Bet.Becomes.trans h'.bets
  ledger := h.ledger.trans h'.ledger
  transactions := h.transactions.trans MpesaTransaction.Becomes.trans h'.transactions

/-- A statement on users and wallets leaves the other tables as they are. -/
theorem Database.Evolves.of_wallets (husers : db.users.rows <+: db'.users.rows)
    (hwallets : ∀ user, (db.balance user).isSome → (db'.balance user).isSome)
    (hbets : db'.bets = db.bets) (hledger : db'.ledger = db.ledger)
    (htransactions : db'.transactions = db.transactions) : db.Evolves db' where
  users := husers
  wallets := hwallets
  bets := hbets ▸ .refl Bet.Becomes.refl _
  ledger := hledger ▸ List.prefix_rfl
  transactions := htransactions ▸ .refl MpesaTransaction.Becomes.refl _

/-! ## What the transactions may do -/

/-- An upserted user is a new row at most. -/
theorem evolves_upsertUser {user : Uuid} (h : upsertUser db user = .ok db') : db.Evolves db' := by
  obtain ⟨-, hwallets, hbets, hledger, htransactions⟩ := upsertUser_eq_ok h
  refine .of_wallets ?_ (fun user' hsome => ?_) hbets hledger htransactions
  · unfold upsertUser at h
    split at h
    · obtain rfl := Except.ok.inj h
      exact List.prefix_rfl
    · rw [Table.insert_rows (Database.insertUser_eq_ok_iff.mp h).1]
      exact List.prefix_append _ _
  · rwa [Database.balance_eq_of_wallets hwallets]

/-- An upserted wallet too. -/
theorem evolves_upsertWallet {user : Uuid} {openingCents : Int}
    (h : upsertWallet db user openingCents = .ok db') : db.Evolves db' := by
  obtain ⟨hbalance, husers, hbets, hledger, htransactions⟩ := upsertWallet_eq_ok h
  refine .of_wallets (husers ▸ List.prefix_rfl) (fun user' hsome => ?_) hbets hledger htransactions
  rw [hbalance]
  split
  · rfl
  · exact hsome

/-- A debit changes balances, which are no part of the history. -/
theorem evolves_debitWallet {user : Uuid} {stakeCents : Int}
    (h : debitWallet db user stakeCents = .ok db') : db.Evolves db' := by
  obtain ⟨⟨amount, -, -, hbalance⟩, husers, hbets, hledger, htransactions⟩ := debitWallet_eq_ok h
  refine .of_wallets (husers ▸ List.prefix_rfl) (fun user' hsome => ?_) hbets hledger htransactions
  rw [hbalance]
  split
  · rfl
  · exact hsome

/-- An inserted bet only adds a row. -/
theorem evolves_insertBet {r : Bet} (h : db.insertBet r = .ok db') : db.Evolves db' := by
  obtain ⟨hinsert, -, husers, hwallets, hledger, htransactions⟩ := Database.insertBet_eq_ok_iff.mp h
  have hrefl := Database.Evolves.refl db
  refine ⟨husers ▸ hrefl.users, fun user hsome => ?_, ?_, hledger ▸ hrefl.ledger,
    htransactions ▸ hrefl.transactions⟩
  · rwa [Database.balance_eq_of_wallets hwallets]
  · rw [Table.insert_rows hinsert]
    exact .append Bet.Becomes.refl _ _

/-- An inserted ledger row does the same. -/
theorem evolves_insertLedger {r : WalletLedger} (h : db.insertLedger r = .ok db') :
    db.Evolves db' := by
  obtain ⟨hinsert, -, husers, hwallets, hbets, htransactions⟩ :=
    Database.insertLedger_eq_ok_iff.mp h
  have hrefl := Database.Evolves.refl db
  refine ⟨husers ▸ hrefl.users, fun user hsome => ?_, hbets ▸ hrefl.bets, ?_,
    htransactions ▸ hrefl.transactions⟩
  · rwa [Database.balance_eq_of_wallets hwallets]
  · rw [Table.insert_rows hinsert]
    exact List.prefix_append _ _

/-- And an inserted transaction. -/
theorem evolves_insertTransaction {r : MpesaTransaction} (h : db.insertTransaction r = .ok db') :
    db.Evolves db' := by
  obtain ⟨hinsert, -, husers, hwallets, hbets, hledger⟩ :=
    Database.insertTransaction_eq_ok_iff.mp h
  have hrefl := Database.Evolves.refl db
  refine ⟨husers ▸ hrefl.users, fun user hsome => ?_, hbets ▸ hrefl.bets, hledger ▸ hrefl.ledger,
    ?_⟩
  · rwa [Database.balance_eq_of_wallets hwallets]
  · rw [Table.insert_rows hinsert]
    exact .append MpesaTransaction.Becomes.refl _ _

/-- A result that is written adds rows, statement by statement. -/
theorem evolves_processBetResultEvent {event : BetResultEvent} {b : Bool}
    (h : processBetResultEvent event db = .ok (b, db')) : db.Evolves db' := by
  obtain ⟨known, -, h⟩ := bind_eq_ok_iff.mp h
  split at h
  · obtain ⟨-, rfl⟩ := Prod.mk.inj (Except.ok.inj h)
    exact .refl db
  · simp only [bind_eq_ok_iff, sql_eq_ok_iff] at h
    obtain ⟨db₁, huser, db₂, hwallet, h⟩ := h
    have hupserted := (evolves_upsertUser huser).trans (evolves_upsertWallet hwallet)
    split at h
    · simp only [bind_eq_ok_iff, sql_eq_ok_iff] at h
      obtain ⟨db₃, hdebit, db₄, hbet, db₅, hledger, h⟩ := h
      obtain ⟨-, rfl⟩ := Prod.mk.inj (Except.ok.inj h)
      exact hupserted.trans ((evolves_debitWallet hdebit).trans
        ((evolves_insertBet hbet).trans (evolves_insertLedger hledger)))
    · simp only [bind_eq_ok_iff, sql_eq_ok_iff] at h
      obtain ⟨db₃, hbet, h⟩ := h
      obtain ⟨-, rfl⟩ := Prod.mk.inj (Except.ok.inj h)
      exact hupserted.trans (evolves_insertBet hbet)

/-- A deposit that is started adds a transaction. -/
theorem evolves_stkPushUpsert {payload : MpesaDepositRequest}
    (h : stkPushUpsert payload db = .ok db') : db.Evolves db' := by
  obtain ⟨db₁, huser, hwallet⟩ := bind_eq_ok_iff.mp h
  exact (evolves_upsertUser (sql_eq_ok_iff.mp huser)).trans
    (evolves_upsertWallet (sql_eq_ok_iff.mp hwallet))

/-- A settlement rewrites the status of the open bets of its match and pays the winners. -/
theorem evolves_settleMatchOutcome {matchId winningSelectionId : String}
    {response : SettleMatchResponse}
    (h : settleMatchOutcome matchId winningSelectionId db = .ok (response, db')) :
    db.Evolves db' := by
  have hs := settles_of_ok h
  have hrefl := Database.Evolves.refl db
  refine ⟨hs.users ▸ hrefl.users, fun user hsome => ?_, ?_, ?_, hs.transactions ▸ hrefl.transactions⟩
  · rw [hs.balance]
    simpa using hsome
  · rw [hs.bets]
    refine .map fun bet _ => ?_
    split
    · rename_i hopen
      simp only [isOpen, Bool.and_eq_true, decide_eq_true_eq] at hopen
      refine ⟨rfl, Or.inr ⟨hopen.2, ?_⟩⟩
      unfold verdict
      split
      · exact Or.inl rfl
      · exact Or.inr rfl
    · exact .refl bet
  · rw [hs.ledger]
    exact List.prefix_append _ _

/-- A callback closes the pending transaction it names. -/
theorem ClosedTransaction.evolves {txn : MpesaTransaction} {columns : CallbackColumns} {paid : Bool}
    (hmem : txn ∈ db.transactions.rows) (hpending : txn.status = .pending)
    (h : ClosedTransaction txn columns paid db db') : db.Evolves db' := by
  have hrefl := Database.Evolves.refl db
  refine ⟨h.users ▸ hrefl.users, fun user hsome => ?_, h.bets ▸ hrefl.bets, ?_, ?_⟩
  · exact isSome_of_credited (h.balance user) hsome
  · rw [h.ledger]
    exact List.prefix_append _ _
  · rw [h.transactions]
    refine .map fun r hr => ?_
    split
    · rename_i hid
      obtain rfl : r = txn := Table.eq_of_clash hr hmem hid
      refine ⟨⟨columns, rfl⟩, Or.inr ⟨hpending, ?_⟩⟩
      have hstatus := h.status
      unfold MpesaTransaction.write
      split at hstatus
      · exact Or.inl hstatus
      · exact Or.inr hstatus
    · exact .refl r

/-- Whatever a transaction of the service commits, the rows that are there stay. -/
theorem evolves_step {pyRepr : Json → String} {s s' : Service} {operation : Operation}
    (hstep : s.step pyRepr operation = some s') : s.db.Evolves s'.db := by
  cases Service.step_cases hstep with
  | duplicate => exact .refl s.db
  | persisted hprocess => exact evolves_processBetResultEvent hprocess
  | settled hsettle => exact evolves_settleMatchOutcome hsettle
  | upserted hupsert => exact evolves_stkPushUpsert hupsert
  | recorded _ hinsert => exact evolves_insertTransaction hinsert
  | acknowledged => exact .refl s.db
  | closed hmem hpending hclosed => exact hclosed.evolves hmem hpending

end Evolves

/-! ## Whole runs -/

section Runs

variable {pyRepr : Json → String} {s s' : Service}

/-- What a run has written, it does not take back. -/
theorem evolves_of_run (hrun : Reachable (Service.step pyRepr) s s') : s.db.Evolves s'.db :=
  @Reaches.invariant _ _ _ _ (fun t => s.db.Evolves t.db) _ _ hrun (.refl s.db)
    fun hs _ hstep => hs.trans (evolves_step hstep)

/-- What a wallet row was inserted with is never rewritten. -/
theorem opening_step {operation : Operation} (hstep : s.step pyRepr operation = some s')
    {user : Uuid} {amount : Int} (hopening : s.opening user = some amount) :
    s'.opening user = some amount := by
  have hopened : ∀ user' openingCents, opened s.opening user' openingCents user = some amount := by
    intro user' openingCents
    unfold opened
    split
    · rename_i huser
      rw [← huser, hopening, Option.getD_some]
    · exact hopening
  cases Service.step_cases hstep with
  | duplicate => exact hopening
  | persisted => exact hopened _ _
  | settled => exact hopening
  | upserted => exact hopened _ _
  | recorded => exact hopening
  | acknowledged => exact hopening
  | closed => exact hopening

/-- An opening balance is fixed once for all. -/
theorem opening_of_run (hrun : Reachable (Service.step pyRepr) s s') {user : Uuid} {amount : Int}
    (hopening : s.opening user = some amount) : s'.opening user = some amount :=
  @Reaches.invariant _ _ _ _ (fun t => t.opening user = some amount) _ _ hrun hopening
    fun hs _ hstep => opening_step hstep hs

/-- Between any two moments of a run, a balance has moved by exactly the user's rows among
those that were added to the ledger. -/
theorem balance_moved (hreached : Reachable (Service.step pyRepr) .start s)
    (hrun : Reachable (Service.step pyRepr) s s') :
    ∃ posted, s'.db.ledger.rows = s.db.ledger.rows ++ posted ∧
      ∀ user amount, s.db.balance user = some amount →
        s'.db.balance user = some (amount + postedSum posted user) := by
  obtain ⟨posted, hposted⟩ := (evolves_of_run hrun).ledger
  refine ⟨posted, hposted.symm, fun user amount hamount => ?_⟩
  have hbefore := (journal_of_reachable hreached).balanced user
  have hafter := (journal_of_reachable (hreached.trans hrun)).balanced user
  rw [hamount] at hbefore
  obtain ⟨opening, hopening, hsum⟩ := Option.map_eq_some_iff.mp hbefore.symm
  rw [hafter, opening_of_run hrun hopening, ← hposted, postedSum_append, Option.map_some]
  congr 1
  omega

/-- In every run of committed transactions, and between any two of its moments: the ledger
has only been added to, and each balance has moved by the rows added; every user and every
row of `bets` and `mpesa_transactions` is still in its place with the columns it was
inserted with; a bet's status has changed at most from `ACCEPTED` to `WON` or `LOST`, and a
transaction that was closed is as it was. -/
theorem history_of_run (hreached : Reachable (Service.step pyRepr) .start s)
    (hrun : Reachable (Service.step pyRepr) s s') :
    (∃ posted, s'.db.ledger.rows = s.db.ledger.rows ++ posted ∧
      ∀ user amount, s.db.balance user = some amount →
        s'.db.balance user = some (amount + postedSum posted user)) ∧
    s.db.users.rows <+: s'.db.users.rows ∧
    (∀ (n : Nat) bet, s.db.bets.rows[n]? = some bet →
      ∃ status, s'.db.bets.rows[n]? = some { bet with status := status } ∧
        (status = bet.status ∨ bet.status = .accepted ∧ (status = .won ∨ status = .lost))) ∧
    ∀ (n : Nat) txn, s.db.transactions.rows[n]? = some txn →
      ∃ columns, s'.db.transactions.rows[n]? = some (txn.write columns) ∧
        (txn.write columns = txn ∨
          txn.status = .pending ∧ (columns.status = .success ∨ columns.status = .failed)) := by
  have hevolves := evolves_of_run hrun
  refine ⟨balance_moved hreached hrun, hevolves.users, fun n bet hbet => ?_, fun n txn htxn => ?_⟩
  · obtain ⟨bet', hbet', hbecomes⟩ := hevolves.bets.getElem? hbet
    exact ⟨bet'.status, by rw [hbet', ← hbecomes.columns], hbecomes.status⟩
  · obtain ⟨txn', htxn', hbecomes⟩ := hevolves.transactions.getElem? htxn
    obtain ⟨columns, rfl⟩ := hbecomes.recorded
    exact ⟨columns, htxn', hbecomes.status⟩

end Runs

/-- The sample bet is in place before it wins, and its payout and the deposit that follows
are the rows by which the balance has moved since. -/
theorem history_of_run_winAndDeposit :
    ∃ s s', Reachable (Service.step fun _ => "") .start s ∧
      Reachable (Service.step fun _ => "") s s' ∧ s.db.balance 7 = some 97500 ∧
      ∃ posted, s'.db.ledger.rows = s.db.ledger.rows ++ posted ∧
        s'.db.balance 7 = some (97500 + postedSum posted 7) := by
  have hexec : ((sampleOperations.take 1).foldlM (Service.step fun _ => "") .start).map
      (fun s => (s.db.balance 7, ((sampleOperations.drop 1).foldlM (Service.step fun _ => "")
        s).isSome)) = some (some 97500, true) := by
    decide +kernel
  obtain ⟨s, hs, hvalues⟩ := Option.map_eq_some_iff.mp hexec
  obtain ⟨hbalance, hrest⟩ := Prod.mk.inj hvalues
  obtain ⟨s', hs'⟩ := Option.isSome_iff_exists.mp hrest
  have hreached := Reaches.of_foldlM hs
  have hrun := Reaches.of_foldlM hs'
  obtain ⟨⟨posted, hposted, hmoved⟩, -⟩ := history_of_run hreached hrun
  exact ⟨s, s', hreached, hrun, hbalance, posted, hposted, hmoved 7 _ hbalance⟩

end Settlement
end BettingPlatform
