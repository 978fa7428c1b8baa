import BettingPlatform.Foundations.DecimalRounding
import BettingPlatform.Settlement.Journal

/-!
# Transactions that take from no wallet

Only the debit of an accepted stake takes money from a wallet.  Settlements and M-Pesa
callbacks add to it, as long as the stored amounts are not negative; no constraint of the
tables says so, but every row the service writes has such amounts.

Main results:

- Theorem `amounts_of_reachable`: no stored amount is negative in any database that the
  service builds.
- Theorem `credits_step`: a transaction that delivers no result takes from no wallet and
  adds no key.
-/

namespace BettingPlatform
namespace Settlement

open Python Runs

/-! ## Amounts -/

/-- No stored stake, odds or deposit is negative. -/
structure Amounts (db : Database) : Prop where
  bets : ∀ bet ∈ db.bets.rows, 0 ≤ bet.stakeCents ∧ bet.odds.negative = false
  transactions : ∀ txn ∈ db.transactions.rows, 0 ≤ txn.amount

/-- An empty database holds no amount. -/
theorem amounts_empty : Amounts .empty where
  bets := by simp [Database.empty, Table.empty]
  transactions := by simp [Database.empty, Table.empty]

theorem Amounts.congr {db db' : Database} (h : Amounts db) (hbets : db'.bets = db.bets)
    (htransactions : db'.transactions = db.transactions) : Amounts db' where
  bets := by simpa [hbets] using h.bets
  transactions := by simpa [htransactions] using h.transactions

/-- The payout of a bet is not negative. -/
theorem calculatePayoutCents_nonneg {stakeCents payoutCents : Int} {odds : Decimal}
    (hstake : 0 ≤ stakeCents) (hodds : odds.negative = false)
    (h : calculatePayoutCents stakeCents odds = some payoutCents) : 0 ≤ payoutCents := by
  obtain ⟨payout, hquantize, rfl⟩ := Option.map_eq_some_iff.mp h
  have hsign : (Decimal.mul (.ofInt stakeCents) odds).negative = false := by
    rw [Decimal.mul, (Decimal.fix_fits _).1]
    simp [Decimal.ofInt, hodds, hstake]
  have hpayout : payout.negative = false := (Decimal.quantize_negative hquantize).trans hsign
  unfold Decimal.toInt
  simp only [hpayout, Bool.false_eq_true, if_false]
  positivity

/-- A persisted event keeps the amounts. -/
theorem Amounts.persisted {event : BetResultEvent} {db db' : Database} (h : Amounts db)
    (hpersisted : Persisted event db db') : Amounts db' where
  bets := by
    intro bet hbet
    rw [hpersisted.bets] at hbet
    rcases List.mem_append.mp hbet with hbet | hbet
    · exact h.bets bet hbet
    · obtain rfl := List.mem_singleton.mp hbet
      exact ⟨event.stake_pos.le, event.odds_normal.1⟩
  transactions := by simpa [hpersisted.transactions] using h.transactions

/-! ## Credits -/

/-- A bet with this key is stored. -/
def Known (db : Database) (key : String) : Prop :=
  ∃ bet ∈ db.bets.rows, bet.idempotencyKey = key

instance (db : Database) (key : String) : Decidable (Known db key) :=
  inferInstanceAs (Decidable (∃ bet ∈ db.bets.rows, bet.idempotencyKey = key))

/-- The stored amounts stay, no key is new, and no user who satisfies `users` can stake
less than before. -/
structure Credits (users : Uuid → Prop) (db db' : Database) : Prop where
  amounts : Amounts db'
  known : ∀ key, Known db' key ↔ Known db key
  balance : ∀ user, users user →
    openingBalance db user openingBalanceCents ≤ openingBalance db' user openingBalanceCents

section Credits

variable {users : Uuid → Prop} {db db' db'' : Database}

theorem Credits.refl (h : Amounts db) : Credits users db db where
  amounts := h
  known := fun _ => Iff.rfl
  balance := fun _ _ => le_rfl

/-- Credits add up. -/
theorem Credits.trans (h : Credits users db db') (h' : Credits users db' db'') :
    Credits users db db'' where
  amounts := h'.amounts
  known := fun key => (h'.known key).trans (h.known key)
  balance := fun user huser => (h.balance user huser).trans (h'.balance user huser)

/-- An amount that is added to one balance, when there is one. -/
theorem openingBalance_le_of_credit {user : Uuid} {amount : Int} (hamount : 0 ≤ amount)
    {credited : Prop} [Decidable credited]
    (hbalance : db'.balance user =
      if credited then (db.balance user).map fun b => b + amount else db.balance user) :
    openingBalance db user openingBalanceCents ≤ openingBalance db' user openingBalanceCents := by
  unfold openingBalance
  rw [hbalance]
  split
  · cases db.balance user with
    | none => exact le_rfl
    | some balance =>
        simp only [Option.map_some, Option.getD_some]
        omega
  · exact le_rfl

/-- Settling a bet takes from no wallet. -/
theorem Credits.settledBet {winningSelectionId : String} {bet : Bet} {payoutCents : Option Int}
    (hdb : Amounts db) (hbet : bet ∈ db.bets.rows)
    (h : SettledBet winningSelectionId bet payoutCents db db') : Credits users db db' := by
  obtain ⟨hstake, hodds⟩ := hdb.bets bet hbet
  have hpayout : 0 ≤ payoutCents.getD 0 := by
    cases payoutCents with
    | none => exact le_rfl
    | some payout =>
        have hvalue := h.payout
        split at hvalue
        · exact calculatePayoutCents_nonneg hstake hodds hvalue.symm
        · contradiction
  have hrow : ∀ r ∈ db'.bets.rows, ∃ b ∈ db.bets.rows, r.idempotencyKey = b.idempotencyKey ∧
      r.stakeCents = b.stakeCents ∧ r.odds = b.odds := by
    intro r hr
    rw [h.bets] at hr
    obtain ⟨b, hb, rfl⟩ := List.mem_map.mp hr
    refine ⟨b, hb, ?_⟩
    split <;> exact ⟨rfl, rfl, rfl⟩
  refine ⟨⟨fun r hr => ?_, by simpa [h.transactions] using hdb.transactions⟩, fun key => ?_,
    fun user _ => openingBalance_le_of_credit hpayout (h.balance user)⟩
  · obtain ⟨b, hb, -, hstake, hodds⟩ := hrow r hr
    rw [hstake, hodds]
    exact hdb.bets b hb
  · constructor
    · rintro ⟨r, hr, rfl⟩
      obtain ⟨b, hb, hkey, -⟩ := hrow r hr
      exact ⟨b, hb, hkey.symm⟩
    · rintro ⟨b, hb, rfl⟩
      refine ⟨_, by rw [h.bets]; exact List.mem_map_of_mem hb, ?_⟩
      split <;> rfl

/-- A settlement takes from no wallet. -/
theorem Credits.settleMatchOutcome {matchId winningSelectionId : String}
    {response : SettleMatchResponse} (hdb : Amounts db)
    (h : settleMatchOutcome matchId winningSelectionId db = .ok (response, db')) :
    Credits users db db' :=
  settleMatchOutcome_invariant (Credits users db)
    (fun hinv hmem _ hsettled => hinv.trans (.settledBet hinv.amounts hmem hsettled))
    (.refl hdb) h

/-- A callback that closes a transaction takes from no wallet. -/
theorem Credits.closedTransaction {txn : MpesaTransaction} {columns : CallbackColumns}
    {paid : Bool} (hdb : Amounts db) (htxn : txn ∈ db.transactions.rows)
    (h : ClosedTransaction txn columns paid db db') : Credits users db db' := by
  have hamount := hdb.transactions txn htxn
  refine ⟨⟨by simpa [h.bets] using hdb.bets, fun r hr => ?_⟩, fun key => ?_,
    fun user _ => openingBalance_le_of_credit (by omega) (h.balance user)⟩
  · rw [h.transactions] at hr
    obtain ⟨t, ht, rfl⟩ := List.mem_map.mp hr
    split
    · exact hdb.transactions t ht
    · exact hdb.transactions t ht
  · rw [Known, Known, h.bets]

/-- The upserts of a push take from no wallet that exists. -/
theorem Credits.stkPushUpsert {payload : MpesaDepositRequest} (hdb : Amounts db)
    (h : stkPushUpsert payload db = .ok db')
    (hopen : ∀ user, users user → user = payload.userId → (db.balance user).isSome) :
    Credits users db db' := by
  obtain ⟨db₁, huser, hwallet⟩ := bind_eq_ok_iff.mp h
  obtain ⟨-, hwallets₁, hbets₁, -, htransactions₁⟩ := upsertUser_eq_ok (sql_eq_ok_iff.mp huser)
  obtain ⟨hbalance₂, -, hbets₂, -, htransactions₂⟩ := upsertWallet_eq_ok (sql_eq_ok_iff.mp hwallet)
  have hbets : db'.bets = db.bets := hbets₂.trans hbets₁
  refine ⟨hdb.congr hbets (htransactions₂.trans htransactions₁), fun key => ?_,
    fun user hin => ?_⟩
  · rw [Known, Known, hbets]
  · have hbalance := hbalance₂ user
    rw [openingBalance, Database.balance_eq_of_wallets hwallets₁,
      Database.balance_eq_of_wallets hwallets₁] at hbalance
    unfold openingBalance
    rw [hbalance]
    split
    · rename_i hself
      obtain ⟨amount, hamount⟩ := Option.isSome_iff_exists.mp (hopen user hin hself)
      rw [← hself, hamount]
      exact le_rfl
    · exact le_rfl

/-- The record of a push takes from no wallet. -/
theorem Credits.insertTransaction {payload : MpesaDepositRequest} {checkoutId : String}
    {merchantId : Option String} (hdb : Amounts db)
    (h : db.insertTransaction (payload.transaction checkoutId merchantId) = .ok db') :
    Credits users db db' := by
  obtain ⟨hinsert, -, -, hwallets, hbets, -⟩ := Database.insertTransaction_eq_ok_iff.mp h
  refine ⟨⟨by simpa [hbets] using hdb.bets, fun r hr => ?_⟩, fun key => ?_, fun user _ => ?_⟩
  · rw [Table.insert_rows hinsert] at hr
    rcases List.mem_append.mp hr with hr | hr
    · exact hdb.transactions r hr
    · obtain rfl := List.mem_singleton.mp hr
      exact payload.amount_pos.le
  · rw [Known, Known, hbets]
  · rw [openingBalance, openingBalance, Database.balance_eq_of_wallets hwallets]

end Credits

/-! ## The service -/

section Step

variable {pyRepr : Json → String} {s s' : Service} {operation : Operation}

/-- Whether an operation is the delivery of a result. -/
def Operation.isResult : Operation → Bool
  | .result _ => true
  | _ => false

/-- A transaction that delivers no result takes from no wallet and adds no key; a push is
only harmless to the users it opens no wallet for. -/
theorem credits_step {users : Uuid → Prop} (hs : Amounts s.db)
    (hop : operation.isResult = false)
    (hopen : ∀ payload, operation = .pushUpsert payload → ∀ user, users user →
      user = payload.userId → (s.db.balance user).isSome)
    (hstep : s.step pyRepr operation = some s') : Credits users s.db s'.db := by
  cases Service.step_cases hstep with
  | duplicate => contradiction
  | persisted => contradiction
  | settled hsettle => exact .settleMatchOutcome hs hsettle
  | upserted hupsert => exact .stkPushUpsert hs hupsert (hopen _ rfl)
  | recorded _ hinsert => exact .insertTransaction hs hinsert
  | acknowledged => exact .refl hs
  | closed hmem _ hclosed => exact .closedTransaction hs hmem hclosed

/-- A delivered result is persisted, or its key is known and nothing changes. -/
theorem result_step_cases {event : BetResultEvent}
    (hstep : s.step pyRepr (.result event) = some s') :
    s'.db = s.db ∨ Persisted event s.db s'.db := by
  cases Service.step_cases hstep with
  | duplicate => exact Or.inl rfl
  | persisted _ hpersisted => exact Or.inr hpersisted

/-- Every transaction keeps the amounts. -/
theorem amounts_step (hs : Amounts s.db) (hstep : s.step pyRepr operation = some s') :
    Amounts s'.db := by
  cases hop : operation.isResult with
  | true =>
      cases operation with
      | result event =>
          rcases result_step_cases hstep with hdb | hpersisted
          · exact hdb ▸ hs
          · exact hs.persisted hpersisted
      | settle matchId winningSelectionId => contradiction
      | pushUpsert payload => contradiction
      | pushRecord index gateway => contradiction
      | callback body => contradiction
  | false =>
      have hcredits : Credits (fun _ => False) s.db s'.db :=
        credits_step hs hop (fun _ _ _ hnone => hnone.elim) hstep
      exact hcredits.amounts

/-- No stored amount is negative in any database that the service builds. -/
theorem amounts_of_reachable (hrun : Reachable (Service.step pyRepr) .start s) : Amounts s.db :=
  @Reaches.invariant _ _ _ _ (fun s => Amounts s.db) _ _ hrun amounts_empty fun hs _ hstep =>
    amounts_step hs hstep

end Step

end Settlement
end BettingPlatform
