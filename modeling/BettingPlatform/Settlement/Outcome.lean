import BettingPlatform.Settlement.Worker

/-!
# Settling a match

`settle_match_outcome` pays every accepted bet on the winning selection of a match and
closes the others as lost, in one transaction.

Main results:

- Theorem `settleBet_eq_ok`: what settling one bet does to the database.
- Theorem `settleMatchOutcome_invariant`: what settling one accepted bet preserves, the
  whole transaction preserves.
-/

namespace BettingPlatform
namespace Settlement

/-- `calculate_payout_cents`; `none` is `InvalidOperation`. -/
def calculatePayoutCents (stakeCents : Int) (odds : Decimal) : Option Int :=
  ((Decimal.mul (.ofInt stakeCents) odds).quantize 0 .halfUp).map Decimal.toInt

/-- The row of `wallet_ledger` for a won bet and its payout. -/
def payoutRow (bet : Bet) (payoutCents : Int) : WalletLedger where
  userId := bet.userId
  amountCents := payoutCents
  type := .betPayout
  referenceId := bet.id.text

/-- `SettleMatchResponse`. -/
structure SettleMatchResponse where
  matchId : String
  winningSelectionId : String
  winningBets : Nat
  losingBets : Nat
  totalPayoutCents : Int
deriving DecidableEq, Repr

/-- The bets of the match that the settlement selects. -/
def isOpen (matchId : String) (bet : Bet) : Bool :=
  bet.matchId = matchId && bet.status = .accepted

/-- `UPDATE bets SET status = ... WHERE id = ...`, the flush of `bet.status`. -/
def setStatus (db : Database) (bet : Bet) (status : BetStatus) : Except SqlError Database :=
  db.updateBets (fun r => r.id = bet.id) status

/-- The body of the loop for one accepted bet: the payout and the database.  The odds
read back through `Decimal(str(bet.odds))` are the stored ones. -/
def settleBet (winningSelectionId : String) (db : Database) (bet : Bet) :
    Except Raised (Option Int × Database) :=
  if bet.selectionId = winningSelectionId then
    match calculatePayoutCents bet.stakeCents bet.odds with
    | none => .error .invalidOperation
    | some payoutCents =>
        if ¬ IsBigInteger payoutCents then .error (.sql .dataError)
        else do
          let db ← sql (db.updateWallets (Database.walletWhere bet.userId fun _ => true)
            fun balance => balance + payoutCents)
          let db ← sql (setStatus db bet .won)
          let db ← sql (db.insertLedger (payoutRow bet payoutCents))
          .ok (some payoutCents, db)
  else do
    let db ← sql (setStatus db bet .lost)
    .ok (none, db)

/-- Count one settled bet. -/
def SettleMatchResponse.count (response : SettleMatchResponse) (payoutCents : Option Int) :
    SettleMatchResponse :=
  match payoutCents with
  | some payoutCents =>
      { response with
        winningBets := response.winningBets + 1
        totalPayoutCents := response.totalPayoutCents + payoutCents }
  | none => { response with losingBets := response.losingBets + 1 }

/-- The loop over the selected bets. -/
def settleBets (winningSelectionId : String) :
    List Bet → SettleMatchResponse → Database → Except Raised (SettleMatchResponse × Database)
  | [], response, db => .ok (response, db)
  | bet :: bets, response, db => do
      let (payoutCents, db) ← settleBet winningSelectionId db bet
      settleBets winningSelectionId bets (response.count payoutCents) db

/-- `settle_match_outcome` of a transaction that meets no locked row. -/
def settleMatchOutcome (matchId winningSelectionId : String) (db : Database) :
    Except Raised (SettleMatchResponse × Database) :=
  if ¬ IsText matchId then .error (.sql .dataError)
  else
    settleBets winningSelectionId (db.bets.rows.filter (isOpen matchId))
      { matchId, winningSelectionId, winningBets := 0, losingBets := 0, totalPayoutCents := 0 } db

/-! ## What settling one bet does -/

section SettleBet

variable {winningSelectionId : String} {db db' : Database} {bet : Bet} {payoutCents : Option Int}

/-- The rows of `bets` after one of them got a new status. -/
theorem setStatus_rows {status : BetStatus} (h : setStatus db bet status = .ok db') :
    db'.bets.rows =
      db.bets.rows.map fun r => if r.id = bet.id then { r with status := status } else r := by
  have hupdate := Table.update_rows (Database.updateBets_eq_ok_iff.mp h).1
  simpa [Table.updatedRows] using hupdate

/-- The status, the payout, the ledger row and the balance that settling a bet leaves. -/
structure SettledBet (winningSelectionId : String) (bet : Bet) (payoutCents : Option Int)
    (db db' : Database) : Prop where
  users : db'.users = db.users
  transactions : db'.transactions = db.transactions
  bets : db'.bets.rows = db.bets.rows.map fun r =>
    if r.id = bet.id then
      { r with status := if bet.selectionId = winningSelectionId then .won else .lost }
    else r
  payout : payoutCents =
    if bet.selectionId = winningSelectionId then calculatePayoutCents bet.stakeCents bet.odds
    else none
  ledger : db'.ledger.rows = db.ledger.rows ++ payoutCents.toList.map (payoutRow bet)
  balance : ∀ user, db'.balance user =
    if user = bet.userId then (db.balance user).map fun b => b + payoutCents.getD 0
    else db.balance user
  payout_isSome : bet.selectionId = winningSelectionId → payoutCents.isSome

/-- What settling one bet does to the database. -/
theorem settleBet_eq_ok (h : settleBet winningSelectionId db bet = .ok (payoutCents, db')) :
    SettledBet winningSelectionId bet payoutCents db db' := by
  unfold settleBet at h
  split at h
  · rename_i hwon
    split at h
    · contradiction
    · rename_i payout hpayout
      split at h
      · contradiction
      · simp only [bind_eq_ok_iff, sql_eq_ok_iff] at h
        obtain ⟨db₁, hcredit, db₂, hstatus, db₃, hrow, h⟩ := h
        obtain ⟨rfl, rfl⟩ : some payout = payoutCents ∧ db₃ = db' := by simpa using h
        obtain ⟨-, husers₁, hbets₁, hledger₁, htransactions₁⟩ :=
          Database.updateWallets_eq_ok_iff.mp hcredit
        obtain ⟨-, husers₂, hwallets₂, hledger₂, htransactions₂⟩ :=
          Database.updateBets_eq_ok_iff.mp hstatus
        obtain ⟨hledger₃, -, husers₃, hwallets₃, hbets₃, htransactions₃⟩ :=
          Database.insertLedger_eq_ok_iff.mp hrow
        refine ⟨?_, ?_, ?_, ?_, ?_, fun user => ?_, fun _ => rfl⟩
        · rw [husers₃, husers₂, husers₁]
        · rw [htransactions₃, htransactions₂, htransactions₁]
        · rw [hbets₃, setStatus_rows hstatus, hbets₁, if_pos hwon]
        · rw [if_pos hwon, hpayout]
        · rw [Table.insert_rows hledger₃, hledger₂, hledger₁]
          rfl
        · rw [Database.balance_eq_of_wallets hwallets₃, Database.balance_eq_of_wallets hwallets₂,
            Database.balance_updateWallets hcredit]
          split
          · rename_i huser
            subst huser
            simp
          · rfl
  · rename_i hlost
    simp only [bind_eq_ok_iff, sql_eq_ok_iff] at h
    obtain ⟨db₁, hstatus, h⟩ := h
    obtain ⟨rfl, rfl⟩ : none = payoutCents ∧ db₁ = db' := by simpa using h
    obtain ⟨-, husers₁, hwallets₁, hledger₁, htransactions₁⟩ :=
      Database.updateBets_eq_ok_iff.mp hstatus
    refine ⟨husers₁, htransactions₁, ?_, ?_, ?_, fun user => ?_, fun hwon => absurd hwon hlost⟩
    · rw [setStatus_rows hstatus, if_neg hlost]
    · rw [if_neg hlost]
    · simp [hledger₁]
    · rw [Database.balance_eq_of_wallets hwallets₁]
      split <;> simp

end SettleBet

/-! ## What the transaction preserves -/

/-- What settling one accepted bet preserves, settling a list of accepted bets with
distinct ids preserves: a settled bet leaves the other rows as they were read. -/
theorem settleBets_invariant (inv : Database → Prop) {winningSelectionId : String}
    (hstep : ∀ {bet payoutCents db db'}, inv db → bet ∈ db.bets.rows → bet.status = .accepted →
      SettledBet winningSelectionId bet payoutCents db db' → inv db')
    {bets : List Bet} {response response' : SettleMatchResponse} {db db' : Database}
    (hids : bets.Pairwise fun r s => r.id ≠ s.id)
    (hbets : ∀ bet ∈ bets, bet ∈ db.bets.rows ∧ bet.status = .accepted) (hinv : inv db)
    (h : settleBets winningSelectionId bets response db = .ok (response', db')) : inv db' := by
  induction bets generalizing response db with
  | nil =>
      obtain ⟨-, rfl⟩ : response = response' ∧ db = db' := by simpa [settleBets] using h
      exact hinv
  | cons bet bets ih =>
      obtain ⟨⟨payoutCents, db₁⟩, hbet, hrest⟩ := bind_eq_ok_iff.mp h
      have hsettled := settleBet_eq_ok hbet
      obtain ⟨hmem, haccepted⟩ := hbets bet List.mem_cons_self
      obtain ⟨hnew, hids'⟩ := List.pairwise_cons.mp hids
      refine ih hids' (fun bet' hbet' => ?_) (hstep hinv hmem haccepted hsettled) hrest
      obtain ⟨hmem', haccepted'⟩ := hbets bet' (List.mem_cons_of_mem _ hbet')
      refine ⟨?_, haccepted'⟩
      rw [hsettled.bets]
      refine List.mem_map.mpr ⟨bet', hmem', if_neg ?_⟩
      exact fun hid => hnew bet' hbet' hid.symm

/-- What settling one accepted bet preserves, the whole transaction preserves. -/
theorem settleMatchOutcome_invariant (inv : Database → Prop) {matchId winningSelectionId : String}
    (hstep : ∀ {bet payoutCents db db'}, inv db → bet ∈ db.bets.rows → bet.status = .accepted →
      SettledBet winningSelectionId bet payoutCents db db' → inv db')
    {response : SettleMatchResponse} {db db' : Database} (hinv : inv db)
    (h : settleMatchOutcome matchId winningSelectionId db = .ok (response, db')) : inv db' := by
  unfold settleMatchOutcome at h
  split at h
  · contradiction
  · have hids : (db.bets.rows.filter (isOpen matchId)).Pairwise fun r s => r.id ≠ s.id :=
      (db.bets.distinct.imp fun hclash hid => hclash (Or.inl hid)).filter _
    refine settleBets_invariant inv hstep hids (fun bet hbet => ?_) hinv h
    obtain ⟨hmem, hopen⟩ := List.mem_filter.mp hbet
    simp only [isOpen, Bool.and_eq_true, decide_eq_true_eq] at hopen
    exact ⟨hmem, hopen.2⟩

end Settlement
end BettingPlatform
