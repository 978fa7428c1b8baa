import BettingPlatform.Foundations.Serializability
import BettingPlatform.Settlement.Worker
import BettingPlatform.Settlement.Versions

/-!
# Concurrent workers

Any number of `process_bet_result_event` calls run at once, each in its own database
transaction.  A step is one statement of one call under read committed isolation, its
commit, or its abort.  Statements read the committed rows and the call's own versions;
a write that meets another call's uncommitted version of the row waits.

The existence check and the insert of the bet are different steps, so two calls with one
idempotency key can both pass the check and both debit; the unique constraint stops the
second one, and its abort drops its debit with everything else.

Main results:

- Theorem `agrees_runStatement`: each statement leaves a call in agreement with what it
  would do alone on the rows committed now.
- Theorem `Consistent.installed`: so does the commit of another call.
- Theorem `Consistent.commit`: the commit of a call in agreement installs what
  `processBetResultEvent` would do alone.
-/

namespace BettingPlatform
namespace Settlement
namespace WorkerRaces

open Runs Schema

variable {ι : Type} [Fintype ι] [DecidableEq ι]

/-! ## Calls and their statements -/

/-- The statement a call runs next, or how it ended. -/
inductive Phase
  | checking
  | upsertingUser
  | upsertingWallet
  | debiting
  | insertingBet
  | insertingLedger
  | committing
  | returned (value : Bool)
  | raised
deriving DecidableEq

/-- A call: its next statement and its uncommitted versions. -/
structure Call where
  phase : Phase
  pending : Pending
deriving DecidableEq

/-- The versions of one table that a call holds. -/
abbrev Call.user (call : Call) : Option User := call.pending.user
abbrev Call.wallet (call : Call) : Option Wallet := call.pending.wallet
abbrev Call.bet (call : Call) : Option Bet := call.pending.bet

/-- The committed database, the calls, and those that returned `True`, in the order of
their commits. -/
abbrev Workers (ι : Type) := Concurrent ι Database Call

/-- No call has begun. -/
def Workers.start (db : Database) : Workers ι where
  db := db
  calls := fun _ => ⟨.checking, .empty⟩
  commits := []

/-- What happens to a call. -/
inductive Move
  /-- It runs its next statement, or commits. -/
  | run
  /-- Its transaction is aborted: a failed connection, a deadlock, a cancellation. -/
  | abort
deriving DecidableEq

/-- The statement behind the upserts. -/
def afterUpserts (event : BetResultEvent) : Phase :=
  if statusFromResult event = .accepted then .debiting else .insertingBet

/-- The statement behind the insert of the bet. -/
def afterBet (event : BetResultEvent) : Phase :=
  if statusFromResult event = .accepted then .insertingLedger else .committing

/-- A statement's row write: the new version, or the call raises. -/
def written {α : Type} (result : Except SqlError α) (next : Call) : Call :=
  match result with
  | .ok _ => next
  | .error _ => ⟨.raised, .empty⟩

/-- The wallet version the conditional debit writes on the current version, when its
`WHERE` clause holds. -/
def debited (event : BetResultEvent) (current : Option Int) : Option Wallet :=
  match current with
  | some balance =>
      if IsBigInteger event.stakeCents ∧ event.stakeCents ≤ balance then
        some ⟨event.userId, balance - event.stakeCents⟩
      else none
  | none => none

/-- The balance a call sees: its own version, or the committed one. -/
def seenBalance (db : Database) (pending : Pending) (user : Uuid) : Option Int :=
  balanceWith pending.wallet db.balance user

/-- The foreign key of a call's rows: the user is committed or the call's own. -/
def seesUser (db : Database) (pending : Pending) (user : Uuid) : Prop :=
  HasUser db.users user ∨ ∃ r ∈ pending.user, r.id = user

instance (db : Database) (pending : Pending) (user : Uuid) :
    Decidable (seesUser db pending user) :=
  inferInstanceAs (Decidable (_ ∨ ∃ r ∈ pending.user, r.id = user))

/-- The next statement of call `i`; `none` while it waits for another call. -/
def runStatement (event : BetResultEvent) (s : Workers ι) (i : ι) (call : Call) : Option Call :=
  let user := event.userId
  let pending := call.pending
  match call.phase with
  | .checking =>
      match idempotencyKeyExists s.db event.idempotencyKey with
      | .error _ => some ⟨.raised, .empty⟩
      | .ok true => some ⟨.returned false, .empty⟩
      | .ok false => some ⟨.upsertingUser, pending⟩
  | .upsertingUser =>
      let r : User := ⟨user, usernameOf user⟩
      if HasUser s.db.users user then some ⟨.upsertingWallet, pending⟩
      else if Blocked (held Call.user s.calls) i r then none
      else some (written (s.db.users.insert r) ⟨.upsertingWallet, { pending with user := some r }⟩)
  | .upsertingWallet =>
      let r : Wallet := ⟨user, openingBalanceCents⟩
      if (s.db.balance user).isSome then some ⟨afterUpserts event, pending⟩
      else if Blocked (held Call.wallet s.calls) i r then none
      else if seesUser s.db pending user then
        some (written (s.db.wallets.insert r)
          ⟨afterUpserts event, { pending with wallet := some r }⟩)
      else some ⟨.raised, .empty⟩
  | .debiting =>
      if Blocked (held Call.wallet s.calls) i ⟨user, 0⟩ then none
      else
        match debited event (seenBalance s.db pending user) with
        | none => some ⟨.raised, .empty⟩
        | some r => some ⟨.insertingBet, { pending with wallet := some r }⟩
  | .insertingBet =>
      if Blocked (held Call.bet s.calls) i event.bet then none
      else if seesUser s.db pending user then
        some (written (s.db.bets.insert event.bet)
          ⟨afterBet event, { pending with bet := some event.bet }⟩)
      else some ⟨.raised, .empty⟩
  | .insertingLedger =>
      if seesUser s.db pending user then
        some (written (s.db.ledger.insert event.ledgerRow)
          ⟨.committing, { pending with ledger := some event.ledgerRow }⟩)
      else some ⟨.raised, .empty⟩
  | .committing | .returned _ | .raised => none

/-- What a step of call `i` makes of it. -/
def act (event : ι → BetResultEvent) (s : Workers ι) (i : ι) (move : Move) :
    Option (Outcome Database Call) :=
  match (s.calls i).phase, move with
  | .returned _, _ | .raised, _ => none
  | _, .abort => some (.moved ⟨.raised, .empty⟩)
  | .committing, .run =>
      match install (s.calls i).pending s.db with
      | .error _ => none
      | .ok db => some (.committed ⟨.returned true, .empty⟩ db)
  | _, .run => (runStatement (event i) s i (s.calls i)).map .moved

/-- One step of one call. -/
abbrev step (event : ι → BetResultEvent) : Workers ι → ι × Move → Option (Workers ι) :=
  Concurrent.step (act event)

/-! ## Agreement with the rows committed now -/

/-- The user upsert has run: the user is committed, or the call holds the new row. -/
def UserUpserted (db : Database) (user : Uuid) (version : Option User) : Prop :=
  (version = none ∧ HasUser db.users user) ∨
    (version = some ⟨user, usernameOf user⟩ ∧ ¬ HasUser db.users user ∧
      Storable (⟨user, usernameOf user⟩ : User) ∧ db.users.Free ⟨user, usernameOf user⟩)

/-- The wallet upsert has run: the wallet is committed, or the call holds the new row. -/
def WalletUpserted (db : Database) (user : Uuid) (version : Option Wallet) : Prop :=
  (version = none ∧ (db.balance user).isSome) ∨
    (version = some ⟨user, openingBalanceCents⟩ ∧ db.balance user = none)

/-- The debit has run: the call holds the wallet row less the stake. -/
def Debited (event : BetResultEvent) (db : Database) (version : Option Wallet) : Prop :=
  version = some ⟨event.userId,
      openingBalance db event.userId openingBalanceCents - event.stakeCents⟩ ∧
    event.stakeCents ≤ openingBalance db event.userId openingBalanceCents ∧
    IsBigInteger event.stakeCents

/-- Upserts and debit have run. -/
def WalletDone (event : BetResultEvent) (db : Database) (version : Option Wallet) : Prop :=
  if statusFromResult event = .accepted then Debited event db version
  else WalletUpserted db event.userId version

/-- The insert of the bet has run. -/
def BetInserted (event : BetResultEvent) (db : Database) (version : Option Bet) : Prop :=
  version = some event.bet ∧ Storable event.bet ∧ db.bets.Free event.bet

/-- A call's versions are those its statements so far would write if they ran on the
rows committed now. -/
def Consistent (event : BetResultEvent) (db : Database) (call : Call) : Prop :=
  let p := call.pending
  match call.phase with
  | .checking | .returned _ | .raised => p = .empty
  | .upsertingUser => IsText event.idempotencyKey ∧ p = .empty
  | .upsertingWallet =>
      IsText event.idempotencyKey ∧ UserUpserted db event.userId p.user ∧
        p = { Pending.empty with user := p.user }
  | .debiting =>
      IsText event.idempotencyKey ∧ UserUpserted db event.userId p.user ∧
        WalletUpserted db event.userId p.wallet ∧ statusFromResult event = .accepted ∧
        p = { Pending.empty with user := p.user, wallet := p.wallet }
  | .insertingBet =>
      IsText event.idempotencyKey ∧ UserUpserted db event.userId p.user ∧
        WalletDone event db p.wallet ∧
        p = { Pending.empty with user := p.user, wallet := p.wallet }
  | .insertingLedger =>
      IsText event.idempotencyKey ∧ UserUpserted db event.userId p.user ∧
        WalletDone event db p.wallet ∧ BetInserted event db p.bet ∧
        statusFromResult event = .accepted ∧
        p = { Pending.empty with user := p.user, wallet := p.wallet, bet := p.bet }
  | .committing =>
      IsText event.idempotencyKey ∧ UserUpserted db event.userId p.user ∧
        WalletDone event db p.wallet ∧ BetInserted event db p.bet ∧
        (if statusFromResult event = .accepted then
          p.ledger = some event.ledgerRow ∧ Storable event.ledgerRow
        else p.ledger = none) ∧
        p.transaction = none

/-! ## A commit does what the call would do alone -/

section Commit

variable {event : BetResultEvent} {db db₁ db' : Database} {user : Uuid}

/-- The upserted user is committed as the serial upsert leaves it. -/
theorem UserUpserted.commit {version : Option User} (h : UserUpserted db user version) :
    ∃ db₁, upsertUser db user = .ok db₁ ∧
      applyVersion Database.insertUser version db = .ok db₁ := by
  obtain ⟨rfl, huser⟩ | ⟨rfl, hnew, hstorable, hfree⟩ := h
  · exact ⟨db, by rw [upsertUser, if_pos huser], rfl⟩
  · have hrow : ∃ t, db.users.insert ⟨user, usernameOf user⟩ = .ok t :=
      Table.exists_insert hstorable trivial hfree
    obtain ⟨db₁, hinsert⟩ := Database.exists_insertUser hrow
    exact ⟨db₁, by rw [upsertUser, if_neg hnew, hinsert], by rw [applyVersion, hinsert]⟩

/-- The wallet depends on the balance alone. -/
theorem WalletUpserted.of_balance {version : Option Wallet} (h : WalletUpserted db user version)
    (hbalance : db₁.balance user = db.balance user) : WalletUpserted db₁ user version := by
  unfold WalletUpserted
  rw [hbalance]
  exact h

/-- So does the debit. -/
theorem Debited.of_balance {version : Option Wallet} (h : Debited event db version)
    (hbalance : db₁.balance event.userId = db.balance event.userId) :
    Debited event db₁ version := by
  unfold Debited openingBalance
  rw [hbalance]
  exact h

/-- The upserted wallet is committed as the serial upsert leaves it. -/
theorem WalletUpserted.commit {version : Option Wallet} (h : WalletUpserted db user version)
    (huser : HasUser db.users user) :
    ∃ db₂, upsertWallet db user openingBalanceCents = .ok db₂ ∧
      applyVersion putWallet version db = .ok db₂ := by
  obtain ⟨rfl, hsome⟩ | ⟨rfl, hnone⟩ := h
  · exact ⟨db, by rw [upsertWallet, if_pos hsome], rfl⟩
  · obtain ⟨db₂, hinsert⟩ : ∃ db₂, db.insertWallet ⟨user, openingBalanceCents⟩ = .ok db₂ :=
      exists_insertOpening huser hnone (by decide) (by decide)
    have hnot : ¬ (db.balance user).isSome := by simp [hnone]
    exact ⟨db₂, by rw [upsertWallet, if_neg hnot, hinsert],
      by rw [applyVersion, putWallet, if_neg hnot, hinsert]⟩

/-- The wallet rows after a debit are those with the debited version in place. -/
theorem Debited.commit {version : Option Wallet} (h : Debited event db version)
    (huser : HasUser db.users event.userId) :
    ∃ db₂ db₃, upsertWallet db event.userId openingBalanceCents = .ok db₂ ∧
      debitWallet db₂ event.userId event.stakeCents = .ok db₃ ∧
      applyVersion putWallet version db = .ok db₃ := by
  obtain ⟨rfl, hcovered, hstake⟩ := h
  cases hbalance : db.balance event.userId with
  | some amount =>
      have hopening : openingBalance db event.userId openingBalanceCents = amount := by
        simp [openingBalance, hbalance]
      rw [hopening] at hcovered ⊢
      have hsome : (db.balance event.userId).isSome := by simp [hbalance]
      obtain ⟨db₃, hdebit, hupdate⟩ := exists_debitWallet hbalance hstake event.stake_pos hcovered
      refine ⟨db, db₃, by rw [upsertWallet, if_pos hsome], hdebit, ?_⟩
      exact putWallet_of_update (f := fun balance => balance - event.stakeCents) hbalance
        (decide_eq_true hcovered) hupdate
  | none =>
      have hopening : openingBalance db event.userId openingBalanceCents = openingBalanceCents := by
        simp [openingBalance, hbalance]
      rw [hopening] at hcovered ⊢
      have hnot : ¬ (db.balance event.userId).isSome := by simp [hbalance]
      obtain ⟨db₂, hinsert⟩ :
          ∃ db₂, db.insertWallet ⟨event.userId, openingBalanceCents⟩ = .ok db₂ :=
        exists_insertOpening huser hbalance (by decide) (by decide)
      have hopened : db₂.balance event.userId = some openingBalanceCents := by
        rw [Database.balance_insertWallet hinsert, if_pos rfl]
      obtain ⟨db₃, hdebit, hupdate⟩ := exists_debitWallet hopened hstake event.stake_pos hcovered
      refine ⟨db₂, db₃, by rw [upsertWallet, if_neg hnot, hinsert], hdebit, ?_⟩
      rw [applyVersion, putWallet, if_neg hnot]
      obtain ⟨hwallets₂, -, husers₂, hbets₂, hledger₂, htransactions₂⟩ :=
        Database.insertWallet_eq_ok_iff.mp hinsert
      obtain ⟨hwallets₃, husers₃, hbets₃, hledger₃, htransactions₃⟩ :=
        Database.updateWallets_eq_ok_iff.mp hupdate
      have hothers := Database.balance_eq_none_iff.mp hbalance
      have hkeep : db.wallets.updatedRows
          (Database.walletWhere event.userId fun balance => event.stakeCents ≤ balance)
          (fun r => { r with balanceCents := r.balanceCents - event.stakeCents }) =
          db.wallets.rows := by
        conv_rhs => rw [← List.map_id db.wallets.rows]
        refine List.map_congr_left fun r hr => if_neg ?_
        simp [Database.walletWhere, hothers r hr]
      have hrows : db₃.wallets.rows =
          db.wallets.rows ++ [⟨event.userId, openingBalanceCents - event.stakeCents⟩] := by
        rw [Table.update_rows hwallets₃, Table.updatedRows, Table.insert_rows hwallets₂,
          List.map_append]
        refine congrArg₂ _ hkeep ?_
        simp [Database.walletWhere, hcovered]
      refine Database.insertWallet_eq_ok_iff.mpr ⟨Table.insert_eq_ok_iff.mpr
        ⟨?_, ?_, hothers, hrows⟩, huser, ?_, ?_, ?_, ?_⟩
      · have hpos := event.stake_pos
        show IsBigInteger (openingBalanceCents - event.stakeCents)
        unfold IsBigInteger openingBalanceCents at *
        omega
      · show 0 ≤ openingBalanceCents - event.stakeCents
        omega
      · rw [husers₃, husers₂]
      · rw [hbets₃, hbets₂]
      · rw [hledger₃, hledger₂]
      · rw [htransactions₃, htransactions₂]

/-- The key of an inserted bet is new. -/
theorem BetInserted.key_new {version : Option Bet} (h : BetInserted event db version)
    (htext : IsText event.idempotencyKey) :
    idempotencyKeyExists db event.idempotencyKey = .ok false := by
  have hnone : db.bets.find Bet.idempotencyKey event.idempotencyKey = none :=
    Table.find_eq_none_iff.mpr fun r hr hkey => h.2.2 r hr (Or.inr hkey)
  simp [idempotencyKeyExists, htext, hnone]

/-- The insert of a bet that clashes with no committed one succeeds. -/
theorem exists_insertEventBet (hbets : db₁.bets = db.bets) (hstorable : Storable event.bet)
    (hfree : db.bets.Free event.bet) (huser : HasUser db₁.users event.userId) :
    ∃ db', db₁.insertBet event.bet = .ok db' := by
  have hrow : ∃ t, db₁.bets.insert event.bet = .ok t := by
    rw [hbets]
    exact Table.exists_insert hstorable trivial hfree
  exact Database.exists_insertBet hrow huser

/-- The commit of a call installs exactly what the call would do if it ran alone on the
rows committed now. -/
theorem Consistent.commit {call : Call} (h : Consistent event db call)
    (hphase : call.phase = .committing) :
    ∃ db', install call.pending db = .ok db' ∧
      processBetResultEvent event db = .ok (true, db') := by
  obtain ⟨phase, user, wallet, transaction, bet, ledger⟩ := call
  simp only at hphase
  subst hphase
  obtain ⟨htext, huser, hwallet, hbet, hledger, rfl⟩ := h
  have hknown := hbet.key_new htext
  obtain ⟨rfl, hstorable, hfree⟩ := hbet
  obtain ⟨db₁, hupsert₁, hinstall₁⟩ := huser.commit
  obtain ⟨huser₁, hwallets₁, hbets₁, hledger₁, -⟩ := upsertUser_eq_ok hupsert₁
  have hbalance₁ := Database.balance_eq_of_wallets hwallets₁ event.userId
  unfold WalletDone at hwallet
  by_cases haccepted : statusFromResult event = .accepted
  · rw [if_pos haccepted] at hwallet hledger
    obtain ⟨rfl, hledgerRow⟩ := hledger
    obtain ⟨db₂, db₃, hupsert₂, hdebit, hinstall₂⟩ := (hwallet.of_balance hbalance₁).commit huser₁
    obtain ⟨-, husers₂, hbets₂, -, -⟩ := upsertWallet_eq_ok hupsert₂
    obtain ⟨-, husers₃, hbets₃, -, -⟩ := debitWallet_eq_ok hdebit
    have husers : db₃.users = db₁.users := husers₃.trans husers₂
    obtain ⟨db₄, hinsert₄⟩ := exists_insertEventBet
      (hbets₃.trans (hbets₂.trans hbets₁)) hstorable hfree (husers ▸ huser₁)
    obtain ⟨-, -, husers₄, -, -, -⟩ := Database.insertBet_eq_ok_iff.mp hinsert₄
    have hrow : ∃ t, db₄.ledger.insert event.ledgerRow = .ok t :=
      Table.exists_insert hledgerRow trivial fun _ _ => id
    obtain ⟨db₅, hinsert₅⟩ := Database.exists_insertLedger hrow
      (show HasUser db₄.users event.userId from husers₄ ▸ husers ▸ huser₁)
    refine ⟨db₅, ?_, ?_⟩
    · simp only [install, bind, Except.bind, hinstall₁, hinstall₂]
      simp only [applyVersion, hinsert₄, hinsert₅]
    · simp only [processBetResultEvent, bind, Except.bind, hknown, sql, hupsert₁, hupsert₂,
        haccepted, hdebit, hinsert₄, hinsert₅, Bool.false_eq_true, if_false, if_true]
  · rw [if_neg haccepted] at hwallet hledger
    simp only at hledger
    subst hledger
    obtain ⟨db₂, hupsert₂, hinstall₂⟩ := (hwallet.of_balance hbalance₁).commit huser₁
    obtain ⟨-, husers₂, hbets₂, -, -⟩ := upsertWallet_eq_ok hupsert₂
    obtain ⟨db₃, hinsert₃⟩ := exists_insertEventBet
      (hbets₂.trans hbets₁) hstorable hfree (husers₂ ▸ huser₁)
    refine ⟨db₃, ?_, ?_⟩
    · simp only [install, bind, Except.bind, hinstall₁, hinstall₂]
      simp only [applyVersion, hinsert₃]
    · simp only [processBetResultEvent, bind, Except.bind, hknown, sql, hupsert₁, hupsert₂,
        haccepted, hinsert₃, Bool.false_eq_true, if_false]

end Commit

/-! ## Other calls' commits -/

section Others

variable {event : BetResultEvent} {db db' : Database} {pending : Pending} {user : Uuid}

/-- A commit takes no user away. -/
theorem HasUser.installed (huser : HasUser db.users user) (h : Installed pending db db') :
    HasUser db'.users user := by
  obtain ⟨r, hr, rfl⟩ := huser
  refine ⟨r, ?_, rfl⟩
  rw [h.users]
  exact List.mem_append_left _ hr

/-- A commit of other rows leaves the user upserted. -/
theorem UserUpserted.installed {version : Option User} (h : UserUpserted db user version)
    (hinstalled : Installed pending db db')
    (hapart : ∀ r ∈ version, ∀ s ∈ pending.user, ¬ Clash r s) :
    UserUpserted db' user version := by
  obtain ⟨rfl, huser⟩ | ⟨rfl, hnew, hstorable, hfree⟩ := h
  · exact Or.inl ⟨rfl, HasUser.installed huser hinstalled⟩
  · have hfree' : db'.users.Free ⟨user, usernameOf user⟩ := by
      intro r hr
      rw [hinstalled.users] at hr
      rcases List.mem_append.mp hr with hr | hr
      · exact hfree r hr
      · exact fun hclash => hapart _ rfl r (by simpa using hr) (clash_symm hclash)
    refine Or.inr ⟨rfl, ?_, hstorable, hfree'⟩
    rintro ⟨r, hr, hid⟩
    exact hfree' r hr (Or.inl hid)

/-- And the wallet. -/
theorem WalletUpserted.installed {version : Option Wallet} (h : WalletUpserted db user version)
    (hinstalled : Installed pending db db')
    (hapart : ∀ r ∈ version, ∀ s ∈ pending.wallet, ¬ Clash r s) :
    WalletUpserted db' user version := by
  obtain ⟨rfl, hsome⟩ | ⟨rfl, hnone⟩ := h
  · refine Or.inl ⟨rfl, ?_⟩
    rw [hinstalled.balance]
    unfold balanceWith
    split
    · split
      · rfl
      · exact hsome
    · exact hsome
  · refine Or.inr ⟨rfl, ?_⟩
    rw [hinstalled.balance_of_apart ⟨_, rfl, rfl⟩ hapart, hnone]

/-- And the debit. -/
theorem WalletDone.installed {version : Option Wallet} (h : WalletDone event db version)
    (hinstalled : Installed pending db db')
    (hapart : ∀ r ∈ version, ∀ s ∈ pending.wallet, ¬ Clash r s) :
    WalletDone event db' version := by
  unfold WalletDone at h ⊢
  split
  · rename_i haccepted
    rw [if_pos haccepted] at h
    exact h.of_balance (hinstalled.balance_of_apart ⟨_, h.1, rfl⟩ hapart)
  · rename_i hrejected
    rw [if_neg hrejected] at h
    exact h.installed hinstalled hapart

/-- And the bet. -/
theorem BetInserted.installed {version : Option Bet} (h : BetInserted event db version)
    (hinstalled : Installed pending db db')
    (hapart : ∀ r ∈ version, ∀ s ∈ pending.bet, ¬ Clash r s) :
    BetInserted event db' version := by
  obtain ⟨rfl, hstorable, hfree⟩ := h
  refine ⟨rfl, hstorable, fun r hr => ?_⟩
  rw [hinstalled.bets] at hr
  rcases List.mem_append.mp hr with hr | hr
  · exact hfree r hr
  · exact fun hclash => hapart _ rfl r (by simpa using hr) (clash_symm hclash)

/-- The commit of a call whose versions are apart leaves a call in agreement. -/
theorem Consistent.installed {call : Call} (h : Consistent event db call)
    (hinstalled : Installed pending db db')
    (husers : ∀ r ∈ call.pending.user, ∀ s ∈ pending.user, ¬ Clash r s)
    (hwallets : ∀ r ∈ call.pending.wallet, ∀ s ∈ pending.wallet, ¬ Clash r s)
    (hbets : ∀ r ∈ call.pending.bet, ∀ s ∈ pending.bet, ¬ Clash r s) :
    Consistent event db' call := by
  obtain ⟨phase, versions⟩ := call
  cases phase with
  | checking => exact h
  | upsertingUser => exact h
  | upsertingWallet =>
      obtain ⟨htext, huser, hrest⟩ := h
      exact ⟨htext, huser.installed hinstalled husers, hrest⟩
  | debiting =>
      obtain ⟨htext, huser, hwallet, hrest⟩ := h
      exact ⟨htext, huser.installed hinstalled husers, hwallet.installed hinstalled hwallets, hrest⟩
  | insertingBet =>
      obtain ⟨htext, huser, hwallet, hrest⟩ := h
      exact ⟨htext, huser.installed hinstalled husers, hwallet.installed hinstalled hwallets, hrest⟩
  | insertingLedger =>
      obtain ⟨htext, huser, hwallet, hbet, hrest⟩ := h
      exact ⟨htext, huser.installed hinstalled husers, hwallet.installed hinstalled hwallets,
        hbet.installed hinstalled hbets, hrest⟩
  | committing =>
      obtain ⟨htext, huser, hwallet, hbet, hrest⟩ := h
      exact ⟨htext, huser.installed hinstalled husers, hwallet.installed hinstalled hwallets,
        hbet.installed hinstalled hbets, hrest⟩
  | returned value => exact h
  | raised => exact h

end Others

/-! ## A call's own statements -/

section Own

variable {event : BetResultEvent} {s : Workers ι} {i : ι}

/-- The versions a step leaves a call with do not wait for another call's. -/
structure Unblocked (s : Workers ι) (i : ι) (pending : Pending) : Prop where
  user : ∀ r ∈ pending.user, ¬ Blocked (held Call.user s.calls) i r
  wallet : ∀ r ∈ pending.wallet, ¬ Blocked (held Call.wallet s.calls) i r
  bet : ∀ r ∈ pending.bet, ¬ Blocked (held Call.bet s.calls) i r

omit [Fintype ι] [DecidableEq ι] in
theorem unblocked_empty : Unblocked s i .empty where
  user := by simp [Pending.empty]
  wallet := by simp [Pending.empty]
  bet := by simp [Pending.empty]

/-- A row write that does not raise leaves the call at its next statement. -/
theorem written_cases {α : Type} {result : Except SqlError α} {next call : Call}
    (h : written result next = call) :
    (∃ a, result = .ok a ∧ call = next) ∨ call = ⟨.raised, .empty⟩ := by
  cases result with
  | ok a => exact Or.inl ⟨a, rfl, h.symm⟩
  | error e => exact Or.inr h.symm

/-- A call is in agreement and its versions are its own. -/
def Agrees (event : BetResultEvent) (s : Workers ι) (i : ι) (call : Call) : Prop :=
  Consistent event s.db call ∧ Unblocked s i call.pending

omit [Fintype ι] [DecidableEq ι] in
/-- A call that has raised holds nothing. -/
theorem agrees_raised : Agrees event s i ⟨.raised, .empty⟩ :=
  ⟨rfl, unblocked_empty⟩

section Statements

variable {pending : Pending} {call' : Call}

/-- The check of the key keeps a call in agreement. -/
theorem agrees_checking (h : Consistent event s.db ⟨.checking, pending⟩)
    (hstep : runStatement event s i ⟨.checking, pending⟩ = some call') :
    Agrees event s i call' := by
  obtain rfl : pending = .empty := h
  simp only [runStatement] at hstep
  split at hstep
  · obtain rfl := Option.some.inj hstep
    exact agrees_raised
  · obtain rfl := Option.some.inj hstep
    exact ⟨rfl, unblocked_empty⟩
  · rename_i hexists
    obtain rfl := Option.some.inj hstep
    refine ⟨⟨?_, rfl⟩, unblocked_empty⟩
    unfold idempotencyKeyExists at hexists
    split at hexists
    · assumption
    · contradiction

/-- So does the upsert of the user. -/
theorem agrees_upsertingUser (h : Consistent event s.db ⟨.upsertingUser, pending⟩)
    (hstep : runStatement event s i ⟨.upsertingUser, pending⟩ = some call') :
    Agrees event s i call' := by
  obtain ⟨htext, hempty⟩ := h
  simp only at hempty
  subst hempty
  simp only [runStatement] at hstep
  split at hstep
  · rename_i huser
    obtain rfl := Option.some.inj hstep
    exact ⟨⟨htext, Or.inl ⟨rfl, huser⟩, rfl⟩, unblocked_empty⟩
  · rename_i hnew
    split at hstep
    · contradiction
    · rename_i hblocked
      obtain ⟨t, hinsert, rfl⟩ | rfl := written_cases (Option.some.inj hstep)
      · obtain ⟨hstorable, -, hfree, -⟩ := Table.insert_eq_ok_iff.mp hinsert
        refine ⟨⟨htext, Or.inr ⟨rfl, hnew, hstorable, hfree⟩, rfl⟩, ?_, by simp [Pending.empty],
          by simp [Pending.empty]⟩
        simpa using hblocked
      · exact agrees_raised

omit [Fintype ι] [DecidableEq ι] in
/-- Behind the upserts, an accepted event is debited and a rejected one inserted. -/
theorem agrees_afterUpserts {user : Option User} {wallet : Option Wallet}
    (htext : IsText event.idempotencyKey) (huser : UserUpserted s.db event.userId user)
    (hwallet : WalletUpserted s.db event.userId wallet)
    (hunblocked : Unblocked s i { Pending.empty with user, wallet }) :
    Agrees event s i ⟨afterUpserts event, { Pending.empty with user, wallet }⟩ := by
  refine ⟨?_, hunblocked⟩
  unfold afterUpserts
  split
  · rename_i haccepted
    exact ⟨htext, huser, hwallet, haccepted, rfl⟩
  · rename_i hrejected
    refine ⟨htext, huser, ?_, rfl⟩
    rw [WalletDone, if_neg hrejected]
    exact hwallet

/-- So does the upsert of the wallet, which waits for its row. -/
theorem agrees_upsertingWallet (h : Consistent event s.db ⟨.upsertingWallet, pending⟩)
    (hunblocked : Unblocked s i pending)
    (hstep : runStatement event s i ⟨.upsertingWallet, pending⟩ = some call') :
    Agrees event s i call' := by
  obtain ⟨htext, huser, hpending⟩ := h
  simp only at huser hpending
  generalize pending.user = user at huser hpending
  subst hpending
  simp only [runStatement] at hstep
  split at hstep
  · rename_i hsome
    obtain rfl := Option.some.inj hstep
    exact agrees_afterUpserts htext huser (Or.inl ⟨rfl, hsome⟩) hunblocked
  · rename_i hnone
    split at hstep
    · contradiction
    · rename_i hblocked
      split at hstep
      · obtain ⟨t, hinsert, rfl⟩ | rfl := written_cases (Option.some.inj hstep)
        · refine agrees_afterUpserts htext huser (Or.inr ⟨rfl, by simpa using hnone⟩)
            ⟨hunblocked.user, ?_, hunblocked.bet⟩
          simpa using hblocked
        · exact agrees_raised
      · obtain rfl := Option.some.inj hstep
        exact agrees_raised

/-- Behind the wallet upsert a call sees the balance it would open the wallet with. -/
theorem WalletUpserted.seenBalance {db : Database}
    (h : WalletUpserted db event.userId pending.wallet) :
    seenBalance db pending event.userId =
      some (openingBalance db event.userId openingBalanceCents) := by
  obtain ⟨hwallet, hsome⟩ | ⟨hwallet, hnone⟩ := h
  · obtain ⟨amount, hamount⟩ := Option.isSome_iff_exists.mp hsome
    simp [WorkerRaces.seenBalance, balanceWith, hwallet, openingBalance, hamount]
  · simp [WorkerRaces.seenBalance, balanceWith, hwallet, openingBalance, hnone]

/-- So does the debit of that row. -/
theorem agrees_debiting (h : Consistent event s.db ⟨.debiting, pending⟩)
    (hunblocked : Unblocked s i pending)
    (hstep : runStatement event s i ⟨.debiting, pending⟩ = some call') :
    Agrees event s i call' := by
  obtain ⟨htext, huser, hwallet, haccepted, hpending⟩ := h
  have hseen := hwallet.seenBalance
  simp only [runStatement, hseen, debited] at hstep
  split at hstep
  · contradiction
  · rename_i hblocked
    split at hstep
    · obtain rfl := Option.some.inj hstep
      exact agrees_raised
    · rename_i r hdebited
      obtain rfl := Option.some.inj hstep
      split at hdebited
      · rename_i hcovered
        obtain rfl := Option.some.inj hdebited
        simp only at huser hpending
        refine ⟨⟨htext, huser, ?_, ?_⟩, hunblocked.user, ?_, hunblocked.bet⟩
        · rw [WalletDone, if_pos haccepted]
          exact ⟨rfl, hcovered.2, hcovered.1⟩
        · simp only
          rw [hpending]
        · rintro _ ⟨rfl⟩ ⟨j, hj, w, hw, hclash⟩
          exact hblocked ⟨j, hj, w, hw, hclash⟩
      · contradiction

/-- So does the insert of the bet, which waits for its key. -/
theorem agrees_insertingBet (h : Consistent event s.db ⟨.insertingBet, pending⟩)
    (hunblocked : Unblocked s i pending)
    (hstep : runStatement event s i ⟨.insertingBet, pending⟩ = some call') :
    Agrees event s i call' := by
  obtain ⟨htext, huser, hwallet, hpending⟩ := h
  simp only at huser hwallet hpending
  generalize pending.user = user at huser hpending
  generalize pending.wallet = wallet at hwallet hpending
  subst hpending
  simp only [runStatement] at hstep
  split at hstep
  · contradiction
  · rename_i hblocked
    split at hstep
    · obtain ⟨t, hinsert, rfl⟩ | rfl := written_cases (Option.some.inj hstep)
      · obtain ⟨hstorable, -, hfree, -⟩ := Table.insert_eq_ok_iff.mp hinsert
        refine ⟨?_, hunblocked.user, hunblocked.wallet, by simpa using hblocked⟩
        unfold afterBet
        split
        · rename_i haccepted
          exact ⟨htext, huser, hwallet, ⟨rfl, hstorable, hfree⟩, haccepted, rfl⟩
        · rename_i hrejected
          refine ⟨htext, huser, hwallet, ⟨rfl, hstorable, hfree⟩, ?_, rfl⟩
          rw [if_neg hrejected]
          rfl
      · exact agrees_raised
    · obtain rfl := Option.some.inj hstep
      exact agrees_raised

/-- And that of the ledger row. -/
theorem agrees_insertingLedger (h : Consistent event s.db ⟨.insertingLedger, pending⟩)
    (hunblocked : Unblocked s i pending)
    (hstep : runStatement event s i ⟨.insertingLedger, pending⟩ = some call') :
    Agrees event s i call' := by
  obtain ⟨htext, huser, hwallet, hbet, haccepted, hpending⟩ := h
  simp only [runStatement] at hstep
  split at hstep
  · obtain ⟨t, hinsert, rfl⟩ | rfl := written_cases (Option.some.inj hstep)
    · obtain ⟨hstorable, -⟩ := Table.insert_eq_ok_iff.mp hinsert
      refine ⟨⟨htext, huser, hwallet, hbet, ?_, ?_⟩, hunblocked.user, hunblocked.wallet,
        hunblocked.bet⟩
      · rw [if_pos haccepted]
        exact ⟨rfl, hstorable⟩
      · simp only at hpending ⊢
        rw [hpending]
        rfl
    · exact agrees_raised
  · obtain rfl := Option.some.inj hstep
    exact agrees_raised

end Statements

/-- Each statement of a call keeps it in agreement, and writes only rows that no other
call holds. -/
theorem agrees_runStatement {call call' : Call} (h : Agrees event s i call)
    (hstep : runStatement event s i call = some call') : Agrees event s i call' := by
  obtain ⟨phase, pending⟩ := call
  cases phase with
  | checking => exact agrees_checking h.1 hstep
  | upsertingUser => exact agrees_upsertingUser h.1 hstep
  | upsertingWallet => exact agrees_upsertingWallet h.1 h.2 hstep
  | debiting => exact agrees_debiting h.1 h.2 hstep
  | insertingBet => exact agrees_insertingBet h.1 h.2 hstep
  | insertingLedger => exact agrees_insertingLedger h.1 h.2 hstep
  | committing => contradiction
  | returned value => contradiction
  | raised => contradiction

end Own

end WorkerRaces
end Settlement
end BettingPlatform
