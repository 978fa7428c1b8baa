import BettingPlatform.Foundations.RowLocks
import BettingPlatform.Foundations.Serializability
import BettingPlatform.Settlement.Settled

/-!
# Concurrent settlements of a match

Any number of `settle_match_outcome` transactions run at once on one match, each with a winning
selection of its own.  The `SELECT ... FOR UPDATE SKIP LOCKED` takes its row locks one at a time:
it passes over a row that another settlement has locked, and reads the latest committed version
of one that it locks.  The credits of the loop run at once and wait for a wallet that another
settlement has written; statuses and ledger rows are written when the block ends, and with them
the transaction commits.  It can be aborted before.

Main results:

- Theorem `Consistent.commit`: the commit of a settlement that has passed over no row does what
  the settlement would do alone.
-/

namespace BettingPlatform
namespace Settlement
namespace OutcomeRaces

open Schema

variable {ι : Type}

/-! ## Settlements and their statements -/

/-- What a settlement has written and not committed: wallet versions, and the statuses and ledger
rows that wait for the end of the block. -/
structure Written where
  wallets : Uuid → Option Int
  statuses : Uuid → Option BetStatus
  ledger : List WalletLedger

/-- Nothing is written. -/
def Written.nothing : Written where
  wallets := fun _ => none
  statuses := fun _ => none
  ledger := []

/-- The statement a settlement runs next, with the values of its local variables. -/
inductive Phase
  | selecting
  /-- The `SELECT` runs: the rows of its snapshot that it has not come to. -/
  | scanning (rest : List Bet)
  /-- The loop runs: the bets it has not come to, and the counters. -/
  | settling (rest : List Bet) (response : SettleMatchResponse)
  | returned (response : SettleMatchResponse)
  | raised

/-- A settlement: its next statement, the rows it has locked, and what it has written. -/
structure Call where
  phase : Phase
  locked : List Bet
  written : Written

/-- The settlement ends with an exception, and its transaction is rolled back. -/
def Call.ended : Call := ⟨.raised, [], .nothing⟩

/-- The row whose lock the settlement tries next. -/
def Call.next (call : Call) : Option Bet :=
  match call.phase with
  | .scanning rest => rest.head?
  | _ => none

/-- The settlement has committed. -/
def Call.hasReturned (call : Call) : Prop :=
  ∃ response, call.phase = .returned response

/-- The committed database, the settlements, and those that have committed, in their order. -/
abbrev Calls (ι : Type) := Concurrent ι Database Call

/-- No settlement has begun. -/
def Calls.start (db : Database) : Calls ι where
  db := db
  calls := fun _ => ⟨.selecting, [], .nothing⟩
  commits := []

/-- The bet rows that each settlement has locked. -/
def lockedBets (calls : ι → Call) : ι → List Bet :=
  fun i => (calls i).locked

/-- Another settlement holds a version of the user's wallet. -/
def WalletHeld (s : Calls ι) (i : ι) (user : Uuid) : Prop :=
  ∃ j, j ≠ i ∧ ((s.calls j).written.wallets user).isSome

instance [Fintype ι] [DecidableEq ι] (s : Calls ι) (i : ι) (user : Uuid) :
    Decidable (WalletHeld s i user) :=
  inferInstanceAs (Decidable (∃ j, j ≠ i ∧ ((s.calls j).written.wallets user).isSome))

/-- What happens to a settlement. -/
inductive Move
  /-- It tries the next lock, or runs its next statement, or commits. -/
  | run
  /-- Its transaction is aborted. -/
  | abort
deriving DecidableEq

/-- `UPDATE wallets SET balance_cents = balance_cents + payout`, on the settlement's own version
or on the committed row; nothing when the new balance does not meet its constraints. -/
def credit (db : Database) (wallets : Uuid → Option Int) (user : Uuid) (payoutCents : Int) :
    Option (Uuid → Option Int) :=
  match (wallets user).or (db.balance user) with
  | none => some wallets
  | some balance =>
      if IsBigInteger (balance + payoutCents) ∧ 0 ≤ balance + payoutCents then
        some (Function.update wallets user (some (balance + payoutCents)))
      else none

section Statements

variable [Fintype ι] [DecidableEq ι]

/-- The row that the `SELECT` locks and returns when it comes to a row of its snapshot: none when
another settlement has locked it, or when its latest version does not match any more. -/
def lock (matchId : String) (s : Calls ι) (i : ι) (bet : Bet) : List Bet :=
  if BlockedRow (lockedBets s.calls) i bet then []
  else (s.db.bets.find Bet.id bet.id).toList.filter (isOpen matchId)

/-- The body of the loop for one bet; `none` while its credit waits for another settlement. -/
def settle (winningSelectionId : String) (s : Calls ι) (i : ι) (call : Call) (bet : Bet)
    (rest : List Bet) (response : SettleMatchResponse) : Option Call :=
  if bet.selectionId = winningSelectionId then
    match calculatePayoutCents bet.stakeCents bet.odds with
    | none => some .ended
    | some payoutCents =>
        if ¬ IsBigInteger payoutCents then some .ended
        else if WalletHeld s i bet.userId then none
        else
          match credit s.db call.written.wallets bet.userId payoutCents with
          | none => some .ended
          | some wallets => some
              { call with
                phase := .settling rest (response.count (some payoutCents))
                written :=
                  { wallets
                    statuses := Function.update call.written.statuses bet.id (some .won)
                    ledger := call.written.ledger ++ [payoutRow bet payoutCents] } }
  else some
    { call with
      phase := .settling rest (response.count none)
      written :=
        { call.written with
          statuses := Function.update call.written.statuses bet.id (some .lost) } }

/-- The next step of a settlement that does not commit; `none` while it waits. -/
def runStatement (matchId winningSelectionId : String) (s : Calls ι) (i : ι) (call : Call) :
    Option Call :=
  match call.phase with
  | .selecting =>
      if ¬ IsText matchId then some .ended
      else some { call with phase := .scanning (s.db.openBets matchId) }
  | .scanning (bet :: rest) => some
      { call with phase := .scanning rest, locked := call.locked ++ lock matchId s i bet }
  | .scanning [] => some
      { call with phase := .settling call.locked (nothingSettled matchId winningSelectionId) }
  | .settling (bet :: rest) response => settle winningSelectionId s i call bet rest response
  | .settling [] _ | .returned _ | .raised => none

end Statements

/-! ## The end of the block -/

/-- The wallet versions become the committed ones. -/
def putWallets (wallets : Uuid → Option Int) (db : Database) : Except SqlError Database :=
  match h : db.wallets.update (fun r => (wallets r.userId).isSome)
      (fun r => { r with balanceCents := (wallets r.userId).getD r.balanceCents })
      (fun _ _ => Iff.rfl) with
  | .error e => .error e
  | .ok wallets =>
      .ok
        { db with
          wallets := wallets
          wallet_user := Database.forall_hasUser_update h (fun _ => rfl) db.wallet_user }

/-- The flush of the statuses. -/
def putStatuses (statuses : Uuid → Option BetStatus) (db : Database) : Except SqlError Database :=
  match h : db.bets.update (fun r => (statuses r.id).isSome)
      (fun r => { r with status := (statuses r.id).getD r.status }) (fun _ _ => Iff.rfl) with
  | .error e => .error e
  | .ok bets =>
      .ok
        { db with
          bets := bets
          bet_user := Database.forall_hasUser_update h (fun _ => rfl) db.bet_user }

/-- The flush and the commit of what a settlement has written. -/
def install (written : Written) (db : Database) : Except SqlError Database := do
  let db ← putWallets written.wallets db
  let db ← putStatuses written.statuses db
  written.ledger.foldlM Database.insertLedger db

section Act

variable [Fintype ι] [DecidableEq ι]

/-- What a step of settlement `i` makes of it. -/
def act (matchId : String) (winner : ι → String) (s : Calls ι) (i : ι) (move : Move) :
    Option (Outcome Database Call) :=
  match (s.calls i).phase, move with
  | .returned _, _ | .raised, _ => none
  | _, .abort => some (.moved .ended)
  | .settling [] response, .run =>
      match install (s.calls i).written s.db with
      | .error _ => some (.moved .ended)
      | .ok db => some (.committed ⟨.returned response, [], .nothing⟩ db)
  | _, .run => (runStatement matchId (winner i) s i (s.calls i)).map .moved

/-- One step of one settlement. -/
abbrev step (matchId : String) (winner : ι → String) :
    Calls ι → ι × Move → Option (Calls ι) :=
  Concurrent.step (act matchId winner)

/-- The step does not come to a row that another settlement has locked. -/
def PassesNoLock (s : Calls ι) (label : ι × Move) : Prop :=
  label.2 = .run → ∀ bet ∈ (s.calls label.1).next, ¬ BlockedRow (lockedBets s.calls) label.1 bet

instance (s : Calls ι) (label : ι × Move) : Decidable (PassesNoLock s label) :=
  inferInstanceAs (Decidable (_ → ∀ bet ∈ _, _))

end Act

/-! ## What the commit installs -/

section Install

variable {db db' : Database}

/-- The flush writes the balances it is given and no others. -/
theorem putWallets_eq_ok_iff {wallets : Uuid → Option Int} :
    putWallets wallets db = .ok db' ↔
      db.wallets.update (fun r => (wallets r.userId).isSome)
          (fun r => { r with balanceCents := (wallets r.userId).getD r.balanceCents })
          (fun _ _ => Iff.rfl) = .ok db'.wallets ∧
        db'.users = db.users ∧ db'.bets = db.bets ∧ db'.ledger = db.ledger ∧
        db'.transactions = db.transactions := by
  unfold putWallets
  split
  · rename_i h
    simp [h]
  · rename_i h
    simp [h, Database.ext_iff, eq_comm, and_left_comm]

/-- And the statuses. -/
theorem putStatuses_eq_ok_iff {statuses : Uuid → Option BetStatus} :
    putStatuses statuses db = .ok db' ↔
      db.bets.update (fun r => (statuses r.id).isSome)
          (fun r => { r with status := (statuses r.id).getD r.status })
          (fun _ _ => Iff.rfl) = .ok db'.bets ∧
        db'.users = db.users ∧ db'.wallets = db.wallets ∧ db'.ledger = db.ledger ∧
        db'.transactions = db.transactions := by
  unfold putStatuses
  split
  · rename_i h
    simp [h]
  · rename_i h
    simp [h, Database.ext_iff, eq_comm, and_left_comm]

/-- Ledger rows that a database holds behind the rows of another one can be posted there. -/
theorem postRows_eq_ok {rows : List WalletLedger} (husers : db'.users = db.users)
    (hwallets : db'.wallets = db.wallets) (hbets : db'.bets = db.bets)
    (htransactions : db'.transactions = db.transactions)
    (hledger : db'.ledger.rows = db.ledger.rows ++ rows) :
    rows.foldlM Database.insertLedger db = .ok db' := by
  induction rows generalizing db with
  | nil =>
      have hsame : db'.ledger = db.ledger := Table.ext (by simpa using hledger)
      exact congrArg Except.ok (Database.ext husers hwallets hbets hsame htransactions).symm
  | cons row rows ih =>
      have hrow : row ∈ db'.ledger.rows := by
        simp [hledger]
      obtain ⟨db₁, hinsert⟩ := Database.exists_insertLedger
        (Table.exists_insert (db'.ledger.checked row hrow).1 trivial fun _ _ => id)
        (husers ▸ db'.ledger_user row hrow)
      obtain ⟨hinserted, -, husers₁, hwallets₁, hbets₁, htransactions₁⟩ :=
        Database.insertLedger_eq_ok_iff.mp hinsert
      rw [List.foldlM_cons, hinsert]
      refine ih (husers.trans husers₁.symm) (hwallets.trans hwallets₁.symm)
        (hbets.trans hbets₁.symm) (htransactions.trans htransactions₁.symm) ?_
      rw [hledger, Table.insert_rows hinserted, List.append_assoc]
      rfl

/-- The commit makes a database whose rows are what was written. -/
theorem install_eq_ok_of_rows {written : Written} (husers : db'.users = db.users)
    (hwallets : db'.wallets.rows = db.wallets.updatedRows
      (fun r => (written.wallets r.userId).isSome)
      (fun r => { r with balanceCents := (written.wallets r.userId).getD r.balanceCents }))
    (hbets : db'.bets.rows = db.bets.updatedRows (fun r => (written.statuses r.id).isSome)
      (fun r => { r with status := (written.statuses r.id).getD r.status }))
    (htransactions : db'.transactions = db.transactions)
    (hledger : db'.ledger.rows = db.ledger.rows ++ written.ledger) :
    install written db = .ok db' := by
  let db₁ : Database :=
    { db with
      wallets := db'.wallets
      wallet_user := fun r hr => husers ▸ db'.wallet_user r hr }
  let db₂ : Database :=
    { db₁ with
      bets := db'.bets
      bet_user := fun r hr => husers ▸ db'.bet_user r hr }
  have hfirst : putWallets written.wallets db = .ok db₁ := by
    refine putWallets_eq_ok_iff.mpr ⟨Table.update_eq_ok_iff.mpr ⟨fun r hr hp => ?_, hwallets⟩,
      rfl, rfl, rfl, rfl⟩
    refine db'.wallets.checked _ ?_
    rw [hwallets]
    exact List.mem_map.mpr ⟨r, hr, if_pos hp⟩
  have hsecond : putStatuses written.statuses db₁ = .ok db₂ := by
    refine putStatuses_eq_ok_iff.mpr ⟨Table.update_eq_ok_iff.mpr ⟨fun r hr hp => ?_, hbets⟩,
      rfl, rfl, rfl, rfl⟩
    refine db'.bets.checked _ ?_
    rw [hbets]
    exact List.mem_map.mpr ⟨r, hr, if_pos hp⟩
  have hthird : written.ledger.foldlM Database.insertLedger db₂ = .ok db' :=
    postRows_eq_ok husers rfl rfl htransactions hledger
  simp [install, hfirst, hsecond, hthird, bind, Except.bind]

end Install

/-! ## Agreement with the rows committed now -/

/-- What a settlement that has passed over no row has done in its loop: its versions are what
the loop alone would write for the bets it has come to, on the rows committed now. -/
structure Progress (winningSelectionId : String) (start : SettleMatchResponse) (db : Database)
    (processed : List Bet) (response : SettleMatchResponse) (written : Written)
    (reached : Database) : Prop where
  alone : settleBets winningSelectionId processed start db = .ok (response, reached)
  wallets : ∀ user, written.wallets user =
    if ∃ bet ∈ processed, wins winningSelectionId bet ∧ bet.userId = user then
      reached.balance user
    else none
  statuses : ∀ id status, written.statuses id = some status ↔
    ∃ bet ∈ processed, bet.id = id ∧ verdict winningSelectionId bet = status
  ledger : written.ledger = (processed.filter (wins winningSelectionId)).map fun bet =>
    payoutRow bet (payoutOf bet)

/-- A settlement has locked every accepted bet of the match that it has come to, and its versions
are those its statements so far would write if they ran on the rows committed now. -/
def Consistent (matchId winningSelectionId : String) (db : Database) (call : Call) : Prop :=
  match call.phase with
  | .selecting | .returned _ | .raised => call.locked = [] ∧ call.written = .nothing
  | .scanning rest =>
      IsText matchId ∧ call.written = .nothing ∧
        ((call.locked ++ rest).Pairwise fun r s => r.id ≠ s.id) ∧
        db.openBets matchId = call.locked ++ rest.filter (· ∈ db.openBets matchId)
  | .settling rest response =>
      IsText matchId ∧ db.openBets matchId = call.locked ∧
        ∃ processed reached, call.locked = processed ++ rest ∧
          Progress winningSelectionId (nothingSettled matchId winningSelectionId) db processed
            response call.written reached

/-! ## The loop keeps the agreement -/

section Loop

variable {winningSelectionId : String} {start response : SettleMatchResponse}
  {db reached : Database} {processed : List Bet} {written : Written} {bet : Bet}

/-- Nothing is settled before the first bet. -/
theorem progress_nil : Progress winningSelectionId start db [] start .nothing db where
  alone := rfl
  wallets := fun user => by simp [Written.nothing]
  statuses := fun id status => by simp [Written.nothing]
  ledger := rfl

/-- A settlement that has come to no bet has written nothing. -/
theorem Progress.of_nil (h : Progress winningSelectionId start db [] response written reached)
    (db' : Database) : Progress winningSelectionId start db' [] response written db' where
  alone := by
    obtain ⟨rfl, -⟩ : start = response ∧ db = reached := by simpa [settleBets] using h.alone
    rfl
  wallets := fun user => by simpa using h.wallets user
  statuses := fun id status => by simpa using h.statuses id status
  ledger := h.ledger

variable (hrows : ∀ r ∈ processed, r ∈ db.bets.rows)

include hrows in
/-- The bets processed so far are settled. -/
theorem Progress.settled
    (h : Progress winningSelectionId start db processed response written reached) :
    SettledBets winningSelectionId processed start response db reached := by
  refine settledBets_of_ok (fun r hr r' hr' hid => ?_) h.alone
  rw [Table.eq_of_clash (hrows r hr) hr' (Or.inl hid)]

include hrows in
/-- The settlement sees the balance that its loop alone would have reached. -/
theorem Progress.current
    (h : Progress winningSelectionId start db processed response written reached) (user : Uuid) :
    (written.wallets user).or (db.balance user) = reached.balance user := by
  have hbalance := balance_of_wallets_map (h.settled hrows).wallets user
  rw [h.wallets, hbalance]
  split
  · cases db.balance user <;> rfl
  · rename_i hnone
    rw [winnings_eq_zero hnone]
    simp

/-- A status written on one more bet of the table. -/
theorem Progress.statuses_concat
    (h : Progress winningSelectionId start db processed response written reached)
    (hbets : ∀ r ∈ processed ++ [bet], r ∈ db.bets.rows) (id : Uuid) (status : BetStatus) :
    Function.update written.statuses bet.id (some (verdict winningSelectionId bet)) id =
        some status ↔
      ∃ r ∈ processed ++ [bet], r.id = id ∧ verdict winningSelectionId r = status := by
  by_cases hid : id = bet.id
  · subst hid
    rw [Function.update_self]
    constructor
    · intro hstatus
      exact ⟨bet, by simp, rfl, Option.some.inj hstatus⟩
    · rintro ⟨r, hr, hid, rfl⟩
      rw [Table.eq_of_clash (hbets r hr) (hbets bet (by simp)) (Or.inl hid)]
  · rw [Function.update_of_ne hid, h.statuses]
    constructor
    · rintro ⟨r, hr, hr'⟩
      exact ⟨r, List.mem_append_left _ hr, hr'⟩
    · rintro ⟨r, hr, hrid, hverdict⟩
      rcases List.mem_append.mp hr with hr | hr
      · exact ⟨r, hr, hrid, hverdict⟩
      · obtain rfl := List.mem_singleton.mp hr
        exact absurd hrid.symm hid

/-- A bet that is lost gets its status. -/
theorem Progress.lost
    (h : Progress winningSelectionId start db processed response written reached)
    (hbets : ∀ r ∈ processed ++ [bet], r ∈ db.bets.rows)
    (hlost : bet.selectionId ≠ winningSelectionId) :
    ∃ reached', Progress winningSelectionId start db (processed ++ [bet]) (response.count none)
      { written with
        statuses := Function.update written.statuses bet.id (some .lost) } reached' := by
  obtain ⟨reached', hstatus⟩ := exists_setStatus reached bet .lost
  have hsettle : settleBet winningSelectionId reached bet = .ok (none, reached') := by
    simp [settleBet, hlost, hstatus, sql, bind, Except.bind]
  have hverdict : verdict winningSelectionId bet = .lost := if_neg hlost
  refine ⟨reached', settleBets_concat h.alone hsettle, fun user => ?_, fun id status => ?_, ?_⟩
  · have hbalance : reached'.balance user = reached.balance user := by
      rw [(settleBet_eq_ok hsettle).balance]
      split <;> simp
    simp [hbalance, h.wallets, wins, hlost, or_and_right, exists_or]
  · rw [← hverdict]
    exact h.statuses_concat hbets id status
  · simp [h.ledger, wins, hlost]

/-- A bet that is won is credited, when the credit does not fail. -/
theorem Progress.won
    (h : Progress winningSelectionId start db processed response written reached)
    (hbets : ∀ r ∈ processed ++ [bet], r ∈ db.bets.rows)
    (hwon : bet.selectionId = winningSelectionId) {payoutCents : Int}
    (hpayout : calculatePayoutCents bet.stakeCents bet.odds = some payoutCents)
    (hfits : IsBigInteger payoutCents) {wallets : Uuid → Option Int}
    (hcredit : credit db written.wallets bet.userId payoutCents = some wallets) :
    ∃ reached', Progress winningSelectionId start db (processed ++ [bet])
      (response.count (some payoutCents))
      { wallets
        statuses := Function.update written.statuses bet.id (some .won)
        ledger := written.ledger ++ [payoutRow bet payoutCents] } reached' := by
  have hprocessed : ∀ r ∈ processed, r ∈ db.bets.rows :=
    fun r hr => hbets r (List.mem_append_left _ hr)
  rw [credit, h.current hprocessed] at hcredit
  have hpayable : PayableBet winningSelectionId bet reached.balance := by
    intro _
    refine ⟨payoutCents, hpayout, hfits, fun amount hamount => ?_⟩
    rw [Option.mem_def] at hamount
    rw [hamount] at hcredit
    simp only [Option.ite_none_right_eq_some] at hcredit
    exact ⟨hcredit.1.2, hcredit.1.1.2⟩
  have husers := (h.settled hprocessed).users
  have hbettor : HasUser reached.users bet.userId := husers ▸ db.bet_user bet (hbets bet (by simp))
  obtain ⟨⟨settledCents, reached'⟩, hsettle⟩ := (settleBet_isOk_iff hbettor).mpr hpayable
  have hsettled := settleBet_eq_ok hsettle
  obtain rfl : settledCents = some payoutCents := by
    rw [hsettled.payout, if_pos hwon, hpayout]
  have hverdict : verdict winningSelectionId bet = .won := if_pos hwon
  have hwins : wins winningSelectionId bet = true := by simp [wins, hwon]
  refine ⟨reached', settleBets_concat h.alone hsettle, fun user => ?_, fun id status => ?_, ?_⟩
  · rw [hsettled.balance]
    by_cases huser : user = bet.userId
    · subst huser
      rw [if_pos ⟨bet, by simp, hwins, rfl⟩, if_pos rfl]
      cases hbalance : reached.balance bet.userId with
      | none =>
          rw [hbalance] at hcredit
          obtain rfl := Option.some.inj hcredit
          rw [h.wallets, hbalance, ite_self]
          rfl
      | some balance =>
          rw [hbalance] at hcredit
          simp only [Option.ite_none_right_eq_some] at hcredit
          obtain rfl := Option.some.inj hcredit.2
          exact Function.update_self ..
    · have hsame : wallets user = written.wallets user := by
        split at hcredit
        · obtain rfl := Option.some.inj hcredit
          rfl
        · simp only [Option.ite_none_right_eq_some] at hcredit
          obtain rfl := Option.some.inj hcredit.2
          exact Function.update_of_ne huser _ _
      simp [hsame, h.wallets, huser, Ne.symm huser, or_and_right, exists_or]
  · rw [← hverdict]
    exact h.statuses_concat hbets id status
  · simp [h.ledger, hwins, payoutOf, hpayout]

end Loop

/-! ## The commit does what the settlement would do alone -/

section Commit

variable {matchId winningSelectionId : String} {db db' : Database} {call : Call}

/-- What is written for the processed bets are the rows that the loop alone would reach. -/
theorem Progress.install {start response : SettleMatchResponse} {processed : List Bet}
    {written : Written} {reached : Database}
    (h : Progress winningSelectionId start db processed response written reached)
    (hrows : ∀ r ∈ processed, r ∈ db.bets.rows) : install written db = .ok reached := by
  have hsettled := h.settled hrows
  refine install_eq_ok_of_rows hsettled.users ?_ ?_ hsettled.transactions ?_
  · rw [hsettled.wallets]
    refine List.map_congr_left fun r hr => ?_
    have hbalance : db.balance r.userId = some r.balanceCents :=
      Database.balance_eq_some_iff.mpr hr
    simp only [h.wallets, balance_of_wallets_map hsettled.wallets, hbalance]
    by_cases hwon : ∃ bet ∈ processed, wins winningSelectionId bet ∧ bet.userId = r.userId
    · simp [hwon]
    · simp [hwon, winnings_eq_zero hwon]
  · rw [hsettled.bets]
    refine List.map_congr_left fun r hr => ?_
    cases hstatus : written.statuses r.id with
    | none =>
        have hno : ¬ ∃ bet ∈ processed, bet.id = r.id := by
          rintro ⟨bet, hbet, hid⟩
          have hsome := (h.statuses r.id _).mpr ⟨bet, hbet, hid, rfl⟩
          rw [hstatus] at hsome
          contradiction
        simp [hno, hstatus]
    | some status =>
        obtain ⟨bet, hbet, hid, rfl⟩ := (h.statuses r.id status).mp hstatus
        obtain rfl := Table.eq_of_clash (hrows bet hbet) hr (Or.inl hid)
        rw [if_pos ⟨bet, hbet, rfl⟩]
        simp [hstatus]
  · rw [hsettled.ledger, h.ledger]

/-- The commit of a settlement installs exactly what the settlement would do if it ran alone on
the rows committed now. -/
theorem Consistent.commit (h : Consistent matchId winningSelectionId db call)
    {response : SettleMatchResponse} (hphase : call.phase = .settling [] response) :
    ∃ db', install call.written db = .ok db' ∧
      settleMatchOutcome matchId winningSelectionId db = .ok (response, db') := by
  unfold Consistent at h
  rw [hphase] at h
  obtain ⟨htext, hopen, processed, reached, hlocked, hprogress⟩ := h
  rw [List.append_nil] at hlocked
  obtain rfl : processed = db.openBets matchId := by rw [hopen, hlocked]
  refine ⟨reached, hprogress.install fun r hr => (List.mem_filter.mp hr).1, ?_⟩
  unfold settleMatchOutcome
  rw [if_neg (not_not_intro htext)]
  exact hprogress.alone

/-- The locked rows of a settlement are accepted bets of the match. -/
theorem Consistent.locked_open (h : Consistent matchId winningSelectionId db call) :
    ∀ r ∈ call.locked, r ∈ db.openBets matchId := by
  unfold Consistent at h
  split at h
  · simp [h.1]
  · simp [h.1]
  · simp [h.1]
  · obtain ⟨-, -, -, hopen⟩ := h
    intro r hr
    rw [hopen]
    exact List.mem_append_left _ hr
  · obtain ⟨-, hopen, -⟩ := h
    intro r hr
    rwa [hopen]

/-- A settlement that commits has locked them all. -/
theorem Consistent.locked_all (h : Consistent matchId winningSelectionId db call)
    {response : SettleMatchResponse} (hphase : call.phase = .settling [] response) :
    call.locked = db.openBets matchId := by
  unfold Consistent at h
  rw [hphase] at h
  exact h.2.1.symm

/-- The commit of a settlement that has closed all bets leaves one that has locked none in
agreement. -/
theorem Consistent.closed (h : Consistent matchId winningSelectionId db call)
    (hlocked : call.locked = []) (hnil : db'.openBets matchId = []) :
    Consistent matchId winningSelectionId db' call := by
  unfold Consistent at h ⊢
  split
  · rename_i hphase
    simpa only [hphase] using h
  · rename_i hphase
    simpa only [hphase] using h
  · rename_i hphase
    simpa only [hphase] using h
  · rename_i hphase
    simp only [hphase] at h
    obtain ⟨htext, hwritten, hdistinct, -⟩ := h
    exact ⟨htext, hwritten, hdistinct, by simp [hnil, hlocked]⟩
  · rename_i hphase
    simp only [hphase] at h
    obtain ⟨htext, -, processed, reached, hsplit, hprogress⟩ := h
    rw [hlocked] at hsplit
    obtain ⟨rfl, rfl⟩ := List.append_eq_nil_iff.mp hsplit.symm
    exact ⟨htext, hnil.trans hlocked.symm, [], db', hlocked, hprogress.of_nil db'⟩

end Commit

end OutcomeRaces
end Settlement
end BettingPlatform
