import Mathlib.Algebra.BigOperators.Group.List.Basic
import BettingPlatform.Settlement.Outcome

/-!
# What a settlement does

The loop of `settle_match_outcome` writes statuses, balances and ledger rows bet by bet.  Taken
together, it closes every accepted bet of the match, credits each user with the payouts of all
of that user's bets on the winner, and posts one row for each.  A column that cannot hold a
payout or a balance makes the transaction raise, and then nothing of this happens.

Main results:

- Theorem `settleBets_isOk_iff`: the loop runs through exactly when every balance stays in the
  range of its column.
- Theorem `settles_of_ok`: what a settlement that returns has done.
- Theorem `settleMatchOutcome_once`: a settlement that can be paid does this and reports it, and
  a second one finds nothing to do.
-/

namespace BettingPlatform
namespace Settlement

/-! ## What is due -/

/-- The payout of a bet. -/
def payoutOf (bet : Bet) : Int :=
  (calculatePayoutCents bet.stakeCents bet.odds).getD 0

/-- The bet is on the winning selection. -/
def wins (winningSelectionId : String) (bet : Bet) : Bool :=
  bet.selectionId = winningSelectionId

/-- The status a bet is closed with. -/
def verdict (winningSelectionId : String) (bet : Bet) : BetStatus :=
  if bet.selectionId = winningSelectionId then .won else .lost

/-- What a user wins with some bets. -/
def winnings (winningSelectionId : String) (bets : List Bet) (user : Uuid) : Int :=
  ((bets.filter fun bet => wins winningSelectionId bet && bet.userId = user).map payoutOf).sum

/-- The accepted bets of a match. -/
def Database.openBets (db : Database) (matchId : String) : List Bet :=
  db.bets.rows.filter (isOpen matchId)

theorem winnings_nil (winningSelectionId : String) (user : Uuid) :
    winnings winningSelectionId [] user = 0 :=
  rfl

/-- A bet adds its payout to the winnings of its user when it wins. -/
theorem winnings_cons (winningSelectionId : String) (bet : Bet) (bets : List Bet) (user : Uuid) :
    winnings winningSelectionId (bet :: bets) user =
      (if wins winningSelectionId bet ∧ user = bet.userId then payoutOf bet else 0) +
        winnings winningSelectionId bets user := by
  unfold winnings
  by_cases hwon : wins winningSelectionId bet = true
  · by_cases huser : bet.userId = user
    · simp [hwon, huser]
    · simp [hwon, huser, Ne.symm huser]
  · simp [hwon]

/-- A user without a winning bet wins nothing. -/
theorem winnings_eq_zero {winningSelectionId : String} {bets : List Bet} {user : Uuid}
    (h : ¬ ∃ bet ∈ bets, wins winningSelectionId bet ∧ bet.userId = user) :
    winnings winningSelectionId bets user = 0 := by
  have hnone : (bets.filter fun bet =>
      wins winningSelectionId bet && bet.userId = user) = [] := by
    rw [List.filter_eq_nil_iff]
    intro bet hbet hown
    exact h ⟨bet, hbet, by simpa using hown⟩
  rw [winnings, hnone]
  rfl

/-- Each winning payout fits its column, and so does each balance it is added to, with what the
user has won before. -/
def Payable (winningSelectionId : String) (bets : List Bet) (balance : Uuid → Option Int) : Prop :=
  ∀ before bet after, bets = before ++ bet :: after → bet.selectionId = winningSelectionId →
    (∃ payout, calculatePayoutCents bet.stakeCents bet.odds = some payout ∧ IsBigInteger payout) ∧
    ∀ amount ∈ balance bet.userId,
      0 ≤ amount + winnings winningSelectionId (before ++ [bet]) bet.userId ∧
        amount + winnings winningSelectionId (before ++ [bet]) bet.userId < 2 ^ 63

/-- The condition on the first bet. -/
def PayableBet (winningSelectionId : String) (bet : Bet) (balance : Uuid → Option Int) : Prop :=
  bet.selectionId = winningSelectionId →
    ∃ payout, calculatePayoutCents bet.stakeCents bet.odds = some payout ∧ IsBigInteger payout ∧
      ∀ amount ∈ balance bet.userId, 0 ≤ amount + payout ∧ amount + payout < 2 ^ 63

/-- The balances once a bet is paid. -/
def paidBalance (winningSelectionId : String) (bet : Bet) (balance : Uuid → Option Int) :
    Uuid → Option Int :=
  fun user => (balance user).map fun amount => amount + winnings winningSelectionId [bet] user

theorem payable_nil (winningSelectionId : String) (balance : Uuid → Option Int) :
    Payable winningSelectionId [] balance := by
  intro before bet after hsplit
  simp at hsplit

/-- Bets are payable when each is on the balances the former leave. -/
theorem payable_cons {winningSelectionId : String} {bet : Bet} {bets : List Bet}
    {balance : Uuid → Option Int} :
    Payable winningSelectionId (bet :: bets) balance ↔
      PayableBet winningSelectionId bet balance ∧
        Payable winningSelectionId bets (paidBalance winningSelectionId bet balance) := by
  have hshift : ∀ (before : List Bet) (later : Bet) (amount : Int),
      amount + winnings winningSelectionId [bet] later.userId +
          winnings winningSelectionId (before ++ [later]) later.userId =
        amount + winnings winningSelectionId (bet :: before ++ [later]) later.userId := by
    intro before later amount
    rw [List.cons_append, winnings_cons _ _ [], winnings_cons _ _ (before ++ [later]), winnings_nil]
    omega
  constructor
  · intro h
    constructor
    · intro hwon
      obtain ⟨⟨payout, hpayout, hfits⟩, hrange⟩ := h [] bet bets rfl hwon
      refine ⟨payout, hpayout, hfits, fun amount hamount => ?_⟩
      have hsingle : winnings winningSelectionId ([] ++ [bet]) bet.userId = payout := by
        simp [winnings, wins, hwon, payoutOf, hpayout]
      rw [← hsingle]
      exact hrange amount hamount
    · rintro before later after rfl hwon
      obtain ⟨hpayout, hrange⟩ := h (bet :: before) later after rfl hwon
      refine ⟨hpayout, fun amount hamount => ?_⟩
      obtain ⟨old, hold, rfl⟩ := Option.map_eq_some_iff.mp hamount
      rw [hshift]
      exact hrange old hold
  · rintro ⟨hfirst, hrest⟩ before later after hsplit hwon
    cases before with
    | nil =>
        obtain ⟨rfl, rfl⟩ := List.cons.inj hsplit
        obtain ⟨payout, hpayout, hfits, hrange⟩ := hfirst hwon
        have hsingle : winnings winningSelectionId ([] ++ [bet]) bet.userId = payout := by
          simp [winnings, wins, hwon, payoutOf, hpayout]
        rw [hsingle]
        exact ⟨⟨payout, hpayout, hfits⟩, hrange⟩
    | cons first before =>
        obtain ⟨rfl, rfl⟩ := List.cons.inj hsplit
        obtain ⟨hpayout, hrange⟩ := hrest before later after rfl hwon
        refine ⟨hpayout, fun amount hamount => ?_⟩
        rw [← hshift]
        exact hrange _ (Option.map_eq_some_iff.mpr ⟨amount, hamount, rfl⟩)

/-! ## One bet -/

section SettleBet

variable {winningSelectionId : String} {db db' : Database} {bet : Bet} {payoutCents : Option Int}

/-- The rows of `wallets` after a bet is settled. -/
theorem settleBet_wallets (h : settleBet winningSelectionId db bet = .ok (payoutCents, db')) :
    db'.wallets.rows = db.wallets.rows.map fun r =>
      { r with
        balanceCents := r.balanceCents + winnings winningSelectionId [bet] r.userId } := by
  unfold settleBet at h
  split at h
  · rename_i hwon
    split at h
    · contradiction
    · rename_i payout hpayout
      split at h
      · contradiction
      · simp only [bind_eq_ok_iff, sql_eq_ok_iff] at h
        obtain ⟨db₁, hcredit, db₂, hstatus, db₃, hrow, h⟩ := h
        obtain ⟨rfl, rfl⟩ : some payout = payoutCents ∧ db₃ = db' := by simpa using h
        have hupdate := Table.update_rows (Database.updateWallets_eq_ok_iff.mp hcredit).1
        rw [(Database.insertLedger_eq_ok_iff.mp hrow).2.2.2.1,
          (Database.updateBets_eq_ok_iff.mp hstatus).2.2.1, hupdate]
        refine List.map_congr_left fun r _ => ?_
        rw [winnings_cons, winnings_nil]
        by_cases huser : r.userId = bet.userId
        · simp [Database.walletWhere, huser, wins, hwon, payoutOf, hpayout]
        · simp [Database.walletWhere, huser]
  · rename_i hlost
    simp only [bind_eq_ok_iff, sql_eq_ok_iff] at h
    obtain ⟨db₁, hstatus, h⟩ := h
    obtain ⟨rfl, rfl⟩ : none = payoutCents ∧ db₁ = db' := by simpa using h
    rw [(Database.updateBets_eq_ok_iff.mp hstatus).2.2.1]
    conv_lhs => rw [← List.map_id db.wallets.rows]
    refine List.map_congr_left fun r _ => ?_
    simp [winnings_cons, winnings_nil, wins, hlost]

/-- Credits add to balances. -/
theorem balance_of_wallets_map {credit : Uuid → Int}
    (h : db'.wallets.rows = db.wallets.rows.map fun r =>
      { r with balanceCents := r.balanceCents + credit r.userId }) (user : Uuid) :
    db'.balance user = (db.balance user).map fun amount => amount + credit user := by
  unfold Database.balance Table.find
  rw [h, List.find?_map]
  simp only [Function.comp_def]
  cases hfind : db.wallets.rows.find? fun r => r.userId = user with
  | none => rfl
  | some r =>
      obtain rfl : r.userId = user := by simpa using List.find?_some hfind
      rfl

/-- A status can always be written. -/
theorem exists_setStatus (db : Database) (bet : Bet) (status : BetStatus) :
    ∃ db', setStatus db bet status = .ok db' := by
  obtain ⟨t, ht⟩ : ∃ t, db.bets.update (fun r => r.id = bet.id)
      (fun r => { r with status := status }) (fun _ _ => Iff.rfl) = .ok t :=
    Table.exists_update fun r hr _ => db.bets.checked r hr
  unfold setStatus Database.updateBets
  split
  · rename_i herror
    rw [ht] at herror
    contradiction
  · exact ⟨_, rfl⟩

/-- A balance takes a credit exactly when the sum stays in the range of the column. -/
theorem exists_credit_iff {user : Uuid} {amountCents : Int} :
    (∃ db', db.updateWallets (Database.walletWhere user fun _ => true)
        (fun balance => balance + amountCents) = .ok db') ↔
      ∀ amount ∈ db.balance user, 0 ≤ amount + amountCents ∧ amount + amountCents < 2 ^ 63 := by
  constructor
  · rintro ⟨db', hcredit⟩ amount hamount
    have hrow := Database.balance_eq_some_iff.mp hamount
    obtain ⟨hfits, hcheck⟩ := (Table.update_eq_ok_iff.mp
      (Database.updateWallets_eq_ok_iff.mp hcredit).1).1 _ hrow (by simp [Database.walletWhere])
    exact ⟨hcheck, hfits.2⟩
  · intro hrange
    refine Database.exists_updateWallets fun r hr hp => ?_
    obtain rfl : r.userId = user := by simpa [Database.walletWhere] using hp
    obtain ⟨hlow, hhigh⟩ := hrange r.balanceCents (Database.balance_eq_some_iff.mpr hr)
    exact ⟨⟨by omega, hhigh⟩, hlow⟩

/-- A ledger row for a payout can be posted for an existing user. -/
theorem exists_payoutRow {payoutCents : Int} (hbet : HasUser db.users bet.userId)
    (hfits : IsBigInteger payoutCents) :
    ∃ db', db.insertLedger (payoutRow bet payoutCents) = .ok db' := by
  refine Database.exists_insertLedger (Table.exists_insert ⟨hfits, ?_, ?_⟩ trivial ?_) hbet
  · simp [payoutRow, Uuid.text_length]
  · exact Uuid.nul_notMem_text bet.id
  · exact fun r _ hclash => hclash

/-- Settling a bet runs through exactly when its payout fits the columns it goes to. -/
theorem settleBet_isOk_iff (hbet : HasUser db.users bet.userId) :
    (∃ r, settleBet winningSelectionId db bet = .ok r) ↔
      PayableBet winningSelectionId bet db.balance := by
  unfold settleBet PayableBet
  by_cases hwon : bet.selectionId = winningSelectionId
  · simp only [hwon, if_true, forall_const]
    cases hpayout : calculatePayoutCents bet.stakeCents bet.odds with
    | none => simp
    | some payout =>
        by_cases hfits : IsBigInteger payout
        · have hcredit := @exists_credit_iff db bet.userId payout
          simp only [hfits, not_true_eq_false, if_false, Option.some.injEq, exists_eq_left', true_and]
          rw [← hcredit]
          constructor
          · rintro ⟨r, h⟩
            obtain ⟨db₁, h₁, -⟩ := bind_eq_ok_iff.mp h
            exact ⟨db₁, sql_eq_ok_iff.mp h₁⟩
          · rintro ⟨db₁, h₁⟩
            obtain ⟨-, husers₁, -⟩ := Database.updateWallets_eq_ok_iff.mp h₁
            obtain ⟨db₂, h₂⟩ := exists_setStatus db₁ bet .won
            obtain ⟨-, husers₂, -⟩ := Database.updateBets_eq_ok_iff.mp h₂
            have hbet₂ : HasUser db₂.users bet.userId := by
              rwa [husers₂, husers₁]
            obtain ⟨db₃, h₃⟩ := exists_payoutRow hbet₂ hfits
            simp [h₁, h₂, h₃, sql, bind, Except.bind]
        · simp [hfits]
  · obtain ⟨db₁, hstatus⟩ := exists_setStatus db bet .lost
    simp [hwon, hstatus, sql, bind, Except.bind]

end SettleBet

/-! ## The loop -/

/-- The loop runs through exactly when every balance stays in the range of its column. -/
theorem settleBets_isOk_iff {winningSelectionId : String} {bets : List Bet}
    {response : SettleMatchResponse} {db : Database}
    (hbets : ∀ bet ∈ bets, HasUser db.users bet.userId) :
    (∃ r, settleBets winningSelectionId bets response db = .ok r) ↔
      Payable winningSelectionId bets db.balance := by
  induction bets generalizing response db with
  | nil => simp [settleBets, payable_nil]
  | cons bet bets ih =>
      have hbet := @settleBet_isOk_iff winningSelectionId db bet (hbets bet List.mem_cons_self)
      have hrest : ∀ {payoutCents db'},
          settleBet winningSelectionId db bet = .ok (payoutCents, db') →
          ((∃ r, settleBets winningSelectionId bets (response.count payoutCents) db' = .ok r) ↔
            Payable winningSelectionId bets (paidBalance winningSelectionId bet db.balance)) := by
        intro payoutCents db' hsettle
        have husers := (settleBet_eq_ok hsettle).users
        have hbalance := funext (balance_of_wallets_map (settleBet_wallets hsettle))
        rw [ih fun later hlater => husers ▸ hbets later (List.mem_cons_of_mem _ hlater), hbalance]
        rfl
      rw [payable_cons, ← hbet]
      constructor
      · rintro ⟨r, h⟩
        obtain ⟨⟨payoutCents, db'⟩, hsettle, h⟩ := bind_eq_ok_iff.mp h
        exact ⟨⟨_, hsettle⟩, (hrest hsettle).mp ⟨r, h⟩⟩
      · rintro ⟨⟨⟨payoutCents, db'⟩, hsettle⟩, hpayable⟩
        obtain ⟨r, h⟩ := (hrest hsettle).mpr hpayable
        exact ⟨r, bind_eq_ok_iff.mpr ⟨_, hsettle, h⟩⟩

/-- The loop runs on with one more bet. -/
theorem settleBets_concat {winningSelectionId : String} {bets : List Bet} {bet : Bet}
    {response response' : SettleMatchResponse} {db db' db'' : Database} {payoutCents : Option Int}
    (h : settleBets winningSelectionId bets response db = .ok (response', db'))
    (hbet : settleBet winningSelectionId db' bet = .ok (payoutCents, db'')) :
    settleBets winningSelectionId (bets ++ [bet]) response db =
      .ok (response'.count payoutCents, db'') := by
  induction bets generalizing response db with
  | nil =>
      obtain ⟨rfl, rfl⟩ : response = response' ∧ db = db' := by simpa [settleBets] using h
      exact bind_eq_ok_iff.mpr ⟨_, hbet, rfl⟩
  | cons first bets ih =>
      obtain ⟨⟨payoutCents₁, db₁⟩, hfirst, hrest⟩ := bind_eq_ok_iff.mp h
      exact bind_eq_ok_iff.mpr ⟨_, hfirst, ih hrest⟩

/-- What the loop has done to the database and to its counters. -/
structure SettledBets (winningSelectionId : String) (selected : List Bet)
    (response response' : SettleMatchResponse) (db db' : Database) : Prop where
  users : db'.users = db.users
  transactions : db'.transactions = db.transactions
  bets : db'.bets.rows = db.bets.rows.map fun r =>
    if ∃ bet ∈ selected, bet.id = r.id then
      { r with status := verdict winningSelectionId r }
    else r
  wallets : db'.wallets.rows = db.wallets.rows.map fun r =>
    { r with balanceCents := r.balanceCents + winnings winningSelectionId selected r.userId }
  ledger : db'.ledger.rows = db.ledger.rows ++
    (selected.filter (wins winningSelectionId)).map fun bet => payoutRow bet (payoutOf bet)
  payouts : ∀ bet ∈ selected, wins winningSelectionId bet →
    calculatePayoutCents bet.stakeCents bet.odds = some (payoutOf bet)
  counts : response' =
    { response with
      winningBets := response.winningBets + (selected.filter (wins winningSelectionId)).length
      losingBets := response.losingBets +
        (selected.filter fun bet => !wins winningSelectionId bet).length
      totalPayoutCents := response.totalPayoutCents +
        ((selected.filter (wins winningSelectionId)).map payoutOf).sum }

/-- The payout a settled bet is counted with. -/
theorem SettledBet.payout_eq {winningSelectionId : String} {bet : Bet} {payoutCents : Option Int}
    {db db' : Database} (h : SettledBet winningSelectionId bet payoutCents db db') :
    payoutCents = if wins winningSelectionId bet then some (payoutOf bet) else none := by
  rw [h.payout]
  by_cases hwon : bet.selectionId = winningSelectionId
  · have hsome := h.payout_isSome hwon
    rw [h.payout, if_pos hwon] at hsome
    obtain ⟨payout, hpayout⟩ := Option.isSome_iff_exists.mp hsome
    simp [wins, hwon, payoutOf, hpayout]
  · simp [wins, hwon]

/-- The loop adds up what it does for each bet. -/
theorem settledBets_of_ok {winningSelectionId : String} {bets : List Bet}
    {response response' : SettleMatchResponse} {db db' : Database}
    (hread : ∀ bet ∈ bets, ∀ r ∈ db.bets.rows, bet.id = r.id → bet.selectionId = r.selectionId)
    (h : settleBets winningSelectionId bets response db = .ok (response', db')) :
    SettledBets winningSelectionId bets response response' db db' := by
  induction bets generalizing response db with
  | nil =>
      obtain ⟨rfl, rfl⟩ : response = response' ∧ db = db' := by simpa [settleBets] using h
      constructor <;> simp [winnings_nil]
  | cons bet bets ih =>
      obtain ⟨⟨payoutCents, db₁⟩, hsettle, hrest⟩ := bind_eq_ok_iff.mp h
      have hbet := settleBet_eq_ok hsettle
      have hpayout := hbet.payout_eq
      have hloop := ih (fun later hlater r hr hid => ?_) hrest
      · refine ⟨hloop.users.trans hbet.users, hloop.transactions.trans hbet.transactions,
          ?_, ?_, ?_, ?_, ?_⟩
        · rw [hloop.bets, hbet.bets, List.map_map]
          refine List.map_congr_left fun r hr => ?_
          have hsame := hread bet List.mem_cons_self r hr
          simp only [Function.comp_def, List.mem_cons, exists_eq_or_imp]
          by_cases hid : r.id = bet.id
          · simp [hid, verdict, hsame hid.symm]
          · simp [hid, Ne.symm hid]
        · rw [hloop.wallets, settleBet_wallets hsettle, List.map_map]
          refine List.map_congr_left fun r _ => ?_
          simp only [Function.comp_def, winnings_cons, winnings_nil]
          congr 1
          omega
        · rw [hloop.ledger, hbet.ledger, hpayout, List.filter_cons]
          split <;> simp
        · intro later hlater hwon
          rcases List.mem_cons.mp hlater with rfl | hlater
          · rw [if_pos hwon, hbet.payout, if_pos (by simpa [wins] using hwon)] at hpayout
            exact hpayout
          · exact hloop.payouts later hlater hwon
        · rw [hloop.counts, hpayout]
          by_cases hwon : wins winningSelectionId bet = true
          · simp [hwon, SettleMatchResponse.count]
            omega
          · simp [hwon, SettleMatchResponse.count]
            omega
      · rw [hbet.bets] at hr
        obtain ⟨s, hs, rfl⟩ := List.mem_map.mp hr
        have hsame := hread later (List.mem_cons_of_mem _ hlater) s hs
        by_cases hsettled : s.id = bet.id
        · simp only [hsettled, if_true] at hid ⊢
          exact hsame (hid.trans hsettled.symm)
        · simp only [hsettled, if_false] at hid ⊢
          exact hsame hid

/-! ## The transaction -/

/-- What a settlement that returns has done. -/
structure Settles (matchId winningSelectionId : String) (db : Database)
    (response : SettleMatchResponse) (db' : Database) : Prop where
  users : db'.users = db.users
  transactions : db'.transactions = db.transactions
  bets : db'.bets.rows = db.bets.rows.map fun bet =>
    if isOpen matchId bet then { bet with status := verdict winningSelectionId bet } else bet
  wallets : db'.wallets.rows = db.wallets.rows.map fun r =>
    { r with
      balanceCents := r.balanceCents +
        winnings winningSelectionId (db.openBets matchId) r.userId }
  balance : ∀ user, db'.balance user =
    (db.balance user).map fun amount =>
      amount + winnings winningSelectionId (db.openBets matchId) user
  ledger : db'.ledger.rows = db.ledger.rows ++
    ((db.openBets matchId).filter (wins winningSelectionId)).map fun bet =>
      payoutRow bet (payoutOf bet)
  payouts : ∀ bet ∈ db.openBets matchId, wins winningSelectionId bet →
    calculatePayoutCents bet.stakeCents bet.odds = some (payoutOf bet)
  counts : response =
    { matchId := matchId
      winningSelectionId := winningSelectionId
      winningBets := ((db.openBets matchId).filter (wins winningSelectionId)).length
      losingBets := ((db.openBets matchId).filter fun bet => !wins winningSelectionId bet).length
      totalPayoutCents :=
        (((db.openBets matchId).filter (wins winningSelectionId)).map payoutOf).sum }

/-- The response of a settlement that finds no accepted bet. -/
def nothingSettled (matchId winningSelectionId : String) : SettleMatchResponse where
  matchId := matchId
  winningSelectionId := winningSelectionId
  winningBets := 0
  losingBets := 0
  totalPayoutCents := 0

section Transaction

variable {matchId winningSelectionId : String} {db db' : Database} {response : SettleMatchResponse}

/-- A row of `bets` is selected exactly when the settlement looks for it. -/
theorem exists_openBets_iff {r : Bet} (hr : r ∈ db.bets.rows) :
    (∃ bet ∈ db.openBets matchId, bet.id = r.id) ↔ isOpen matchId r := by
  constructor
  · rintro ⟨bet, hbet, hid⟩
    obtain ⟨hmem, hopen⟩ := List.mem_filter.mp hbet
    obtain rfl := Table.eq_of_clash hmem hr (Or.inl hid)
    exact hopen
  · intro hopen
    exact ⟨r, List.mem_filter.mpr ⟨hr, hopen⟩, rfl⟩

/-- What a settlement that returns has done. -/
theorem settles_of_ok (h : settleMatchOutcome matchId winningSelectionId db = .ok (response, db')) :
    Settles matchId winningSelectionId db response db' := by
  unfold settleMatchOutcome at h
  split at h
  · contradiction
  · have hread : ∀ bet ∈ db.openBets matchId, ∀ r ∈ db.bets.rows, bet.id = r.id →
        bet.selectionId = r.selectionId := by
      intro bet hbet r hr hid
      rw [Table.eq_of_clash (List.mem_filter.mp hbet).1 hr (Or.inl hid)]
    have hsettled := settledBets_of_ok hread h
    refine ⟨hsettled.users, hsettled.transactions, ?_, hsettled.wallets,
      balance_of_wallets_map hsettled.wallets, hsettled.ledger, hsettled.payouts, ?_⟩
    · rw [hsettled.bets]
      refine List.map_congr_left fun r hr => ?_
      simp only [exists_openBets_iff hr]
    · rw [hsettled.counts]
      simp

/-- No accepted bet of the match is left. -/
theorem Settles.openBets_eq_nil (h : Settles matchId winningSelectionId db response db') :
    db'.openBets matchId = [] := by
  unfold Database.openBets
  rw [h.bets, List.filter_eq_nil_iff]
  intro bet hbet
  obtain ⟨r, -, rfl⟩ := List.mem_map.mp hbet
  split
  · unfold isOpen verdict
    split <;> simp
  · assumption

/-- A settlement without accepted bets changes nothing and reports zeros. -/
theorem settleMatchOutcome_of_nil (htext : IsText matchId) (hnil : db.openBets matchId = []) :
    settleMatchOutcome matchId winningSelectionId db =
      .ok (nothingSettled matchId winningSelectionId, db) := by
  unfold settleMatchOutcome
  rw [if_neg (not_not_intro htext)]
  change settleBets winningSelectionId (db.openBets matchId) _ db = _
  rw [hnil]
  rfl

/-- The settlement returns exactly when the match id is a text and its payouts can be paid. -/
theorem settleMatchOutcome_isOk_iff :
    (∃ r, settleMatchOutcome matchId winningSelectionId db = .ok r) ↔
      IsText matchId ∧ Payable winningSelectionId (db.openBets matchId) db.balance := by
  unfold settleMatchOutcome
  by_cases htext : IsText matchId
  · rw [if_neg (not_not_intro htext)]
    simp only [htext, true_and]
    refine settleBets_isOk_iff fun bet hbet => ?_
    exact db.bet_user bet (List.mem_filter.mp hbet).1
  · simp [htext]

end Transaction

/-- A settlement whose payouts fit their columns closes every accepted bet of the match, credits
each user with the payouts of that user's winning bets, posts one row for each of them, touches
nothing else and reports these numbers; any further settlement of the match changes nothing and
reports zeros.  Otherwise it raises, and the transaction changes nothing. -/
theorem settleMatchOutcome_once (matchId winningSelectionId : String) (db : Database) :
    ((∃ response db', settleMatchOutcome matchId winningSelectionId db = .ok (response, db')) ↔
      IsText matchId ∧ Payable winningSelectionId (db.openBets matchId) db.balance) ∧
    ∀ response db', settleMatchOutcome matchId winningSelectionId db = .ok (response, db') →
      Settles matchId winningSelectionId db response db' ∧
      ∀ winningSelectionId', settleMatchOutcome matchId winningSelectionId' db' =
        .ok (nothingSettled matchId winningSelectionId', db') := by
  constructor
  · rw [← settleMatchOutcome_isOk_iff, Prod.exists]
  · intro response db' h
    have hsettles := settles_of_ok h
    have htext := (settleMatchOutcome_isOk_iff.mp ⟨_, h⟩).1
    exact ⟨hsettles, fun winningSelectionId' =>
      settleMatchOutcome_of_nil htext hsettles.openBets_eq_nil⟩

/-- A bet of 100 at odds of 2 on `"ARS"`. -/
def sampleBet : Bet where
  id := 1
  userId := 7
  idempotencyKey := "k"
  matchId := "m1"
  selectionId := "ARS"
  stakeCents := 100
  odds := ⟨false, 20000, -4⟩
  status := .accepted
  rejectionReason := none

/-- The database with these rows; empty when they do not meet the constraints. -/
def databaseOf (users : List User) (wallets : List Wallet) (bets : List Bet) : Database :=
  let filled := do
    let db ← users.foldlM Database.insertUser .empty
    let db ← wallets.foldlM Database.insertWallet db
    bets.foldlM Database.insertBet db
  filled.toOption.getD .empty

/-- User 7 holds the largest balance and has made the bet. -/
def sampleFullWallet : Database :=
  databaseOf [⟨7, "user-00000000"⟩] [⟨7, 9223372036854775807⟩] [sampleBet]

/-- The credit does not fit the balance column: the settlement of the match raises, although
every bettor has a wallet. -/
theorem settleMatchOutcome_raises :
    ¬ ∀ (matchId winningSelectionId : String) (db : Database),
      (∀ bet ∈ db.bets.rows, (db.balance bet.userId).isSome) →
      ∃ response db', settleMatchOutcome matchId winningSelectionId db = .ok (response, db') ∧
        Settles matchId winningSelectionId db response db' ∧
        ∀ winningSelectionId', settleMatchOutcome matchId winningSelectionId' db' =
          .ok (nothingSettled matchId winningSelectionId', db') := by
  have hwallets : ∀ bet ∈ sampleFullWallet.bets.rows,
      (sampleFullWallet.balance bet.userId).isSome := by
    decide +kernel
  have hraises : (settleMatchOutcome "m1" "ARS" sampleFullWallet).isOk = false := by
    decide +kernel
  intro hclaim
  obtain ⟨response, db', hok, -⟩ := hclaim "m1" "ARS" sampleFullWallet hwallets
  rw [hok] at hraises
  contradiction

end Settlement
end BettingPlatform
