import BettingPlatform.Foundations.Serializability
import BettingPlatform.Foundations.RowLocks
import BettingPlatform.SettlementJava.Service

/-!
# Concurrent Java transactions

Any number of `processBetResult` calls run at once, each in its own database transaction
under read committed isolation.  A step is one query of one call, its wallet lock, the insert
of its ledger row, its commit, or its rollback.

`save` looks for the row and leaves the write to a flush.  The wallet lock flushes when a
wallet is queued, the ledger row flushes the queued inserts, and the commit flushes the
rest.  So the bet and the wallet are written as the lookup found them, whatever other calls
have committed since.

Main results:

- Theorem `CallSound.runStatement`: each statement leaves a call with a wallet that is new or
  less the stake, and with a bet that is new or has a row.
- Theorem `heldWallet_runStatement`: no two calls hold the lock of one wallet.
-/

namespace BettingPlatform
namespace SettlementJava
namespace ServiceRaces

open Settlement Runs Schema

variable {ι : Type}

/-! ## Calls -/

/-- The statement a call runs next, or how it ended. -/
inductive Phase
  | checkingBets
  | checkingLedger
  | lookingUpUser
  | savingUser
  | lookingUpWallet
  | savingWallet
  | lockingWallet
  | savingAccepted
  | insertingEntry
  | savingRejected
  | committingAccepted
  | committingRejected
  | returned (value : Bool)
  | raised
deriving DecidableEq

/-- The call holds the lock of its wallet. -/
def Phase.locked : Phase → Bool
  | .savingAccepted | .insertingEntry | .committingAccepted => true
  | _ => false

/-- The call flushes and commits next. -/
def Phase.committing : Phase → Bool
  | .committingAccepted | .committingRejected => true
  | _ => false

/-- Where the wallet of a call comes from. -/
inductive WalletSource
  /-- It is a new entity, to be inserted. -/
  | opened
  /-- It is a new entity, merged into a row that another call has committed since the
  lookup. -/
  | merged
  /-- The lock has read it. -/
  | loaded
deriving DecidableEq

/-- What `save` of a bet leaves to the flush. -/
inductive Save
  | insert
  | update
  | unchanged
deriving DecidableEq

/-- A call: its next statement and the entities that its commit will have written. -/
structure Call where
  phase : Phase
  user : Option User
  wallet : Option (WalletSource × Wallet)
  bet : Option (Save × Bet)
  entry : Option LedgerEntry
deriving DecidableEq

namespace Call

/-- A call without entities. -/
def fresh (phase : Phase) : Call where
  phase := phase
  user := none
  wallet := none
  bet := none
  entry := none

/-- The bet that a flush inserts. -/
def newBet (call : Call) : Option Bet :=
  match call.bet with
  | some (.insert, r) => some r
  | _ => none

/-- The uncommitted row of `users`: a queued wallet has flushed it at the lock, the ledger row at
the latest. -/
def heldUser (call : Call) : Option User :=
  if call.phase = .committingAccepted ∨
      (call.phase.locked ∧ ∀ w ∈ call.wallet, w.1 ≠ .loaded) then call.user
  else none

/-- The locked row of `wallets`. -/
def heldWallet (call : Call) : Option Wallet :=
  if call.phase.locked then call.wallet.map Prod.snd else none

/-- The uncommitted row of `bets`. -/
def heldBet (call : Call) : Option Bet :=
  if call.phase = .committingAccepted then call.newBet else none

/-- The uncommitted row of `wallet_ledger`. -/
def heldEntry (call : Call) : Option LedgerEntry :=
  if call.phase = .committingAccepted then call.entry else none

/-! ## Flushes -/

/-- The flush of a queued user. -/
def flushUser (user : Option User) (db : JavaDatabase) : Except SqlError JavaDatabase :=
  match user with
  | none => .ok db
  | some r => db.insertUser r

/-- The flush of a wallet. -/
def flushWallet (wallet : Option (WalletSource × Wallet)) (db : JavaDatabase) :
    Except SqlError JavaDatabase :=
  match wallet with
  | none => .ok db
  | some (.opened, r) => db.insertWallet r
  | some (_, r) => db.writeBalance r.userId r.balanceCents

/-- The flush of a bet. -/
def flushBet (bet : Option (Save × Bet)) (db : JavaDatabase) : Except SqlError JavaDatabase :=
  match bet with
  | some (.insert, r) => db.insertBet r
  | some (.update, r) => db.updateBet r
  | _ => .ok db

/-- The insert of a ledger row. -/
def flushEntry (entry : Option LedgerEntry) (db : JavaDatabase) : Except SqlError JavaDatabase :=
  match entry with
  | none => .ok db
  | some r => db.insertEntry r

/-- What a call has written once it has committed. -/
def install (call : Call) (db : JavaDatabase) : Except SqlError JavaDatabase := do
  let db ← flushUser call.user db
  let db ← flushWallet call.wallet db
  let db ← flushBet call.bet db
  flushEntry call.entry db

end Call

/-! ## Statements -/

/-- The committed state, the calls, and those that returned `true`, in the order of their
commits. -/
abbrev Services (ι : Type) := Concurrent ι JavaDatabase Call

/-- No call has begun. -/
def Services.start (db : JavaDatabase) : Services ι where
  db := db
  calls := fun _ => .fresh .checkingBets
  commits := []

/-- What happens to a call. -/
inductive Move
  /-- It runs its next statement, or commits. -/
  | run
  /-- Its transaction is rolled back: a failed connection, a deadlock, a cancellation. -/
  | abort
deriving DecidableEq

/-- The statement behind `ensureUserAndWallet`. -/
def afterWallet (event : BetResultEvent) : Phase :=
  if resolveStatus event = .accepted then .lockingWallet else .savingRejected

/-- What the lookup of `save` makes of a bet. -/
def saveOf (db : JavaDatabase) (entity : Bet) : Save :=
  match db.tables.bets.find Bet.id entity.id with
  | none => .insert
  | some r => if JavaDatabase.mergedInto entity r = r then .unchanged else .update

/-- The balance check and the debit, behind the lock. -/
def debited (event : BetResultEvent) (call : Call) (source : WalletSource) (balanceCents : Int) :
    Call :=
  if balanceCents < event.stakeCents then .fresh .raised
  else
    { call with
      phase := .savingAccepted
      wallet := some (source, ⟨event.accountId, balanceCents - event.stakeCents⟩) }

section Steps

variable [Fintype ι] [DecidableEq ι]

/-- The queued user waits for another call's. -/
def UserBlocked (s : Services ι) (i : ι) (call : Call) : Prop :=
  ∃ r ∈ call.user, Blocked (held Call.heldUser s.calls) i r

/-- The wallet waits for another call's lock. -/
def WalletBlocked (s : Services ι) (i : ι) (call : Call) : Prop :=
  ∃ w ∈ call.wallet, Blocked (held Call.heldWallet s.calls) i w.2

/-- The new bet waits for another call's. -/
def BetBlocked (s : Services ι) (i : ι) (call : Call) : Prop :=
  ∃ r ∈ call.newBet, Blocked (held Call.heldBet s.calls) i r

instance (s : Services ι) (i : ι) (call : Call) : Decidable (UserBlocked s i call) :=
  inferInstanceAs (Decidable (∃ r ∈ call.user, _))
instance (s : Services ι) (i : ι) (call : Call) : Decidable (WalletBlocked s i call) :=
  inferInstanceAs (Decidable (∃ w ∈ call.wallet, _))
instance (s : Services ι) (i : ι) (call : Call) : Decidable (BetBlocked s i call) :=
  inferInstanceAs (Decidable (∃ r ∈ call.newBet, _))

/-- The flush in front of the wallet lock. -/
def flushAtLock (call : Call) (db : JavaDatabase) : Except SqlError JavaDatabase := do
  let db ← Call.flushUser call.user db
  Call.flushWallet call.wallet db

/-- The inserts in front of the ledger row, and the ledger row. -/
def flushAtEntry (event : BetResultEvent) (call : Call) (db : JavaDatabase) :
    Except SqlError JavaDatabase := do
  let db ← Call.flushUser call.user db
  let db ← Call.flushBet (call.newBet.map fun r => (.insert, r)) db
  db.insertEntry event.entry

/-- A flush that fails leaves the transaction. -/
def flushed {α : Type} (result : Except SqlError α) (next : Call) : Call :=
  match result with
  | .ok _ => next
  | .error _ => .fresh .raised

/-- The next statement of call `i`; `none` while it waits for another call. -/
def runStatement (event : BetResultEvent) (s : Services ι) (i : ι) (call : Call) : Option Call :=
  let user := event.accountId
  let tables := s.db.tables
  match call.phase with
  | .checkingBets =>
      if ¬ IsText event.idempotencyKey then some (.fresh .raised)
      else if (tables.bets.find Bet.idempotencyKey event.idempotencyKey).isSome then
        some (.fresh (.returned false))
      else some { call with phase := .checkingLedger }
  | .checkingLedger =>
      if (s.db.entries.find LedgerEntry.idempotencyKey event.idempotencyKey).isSome then
        some (.fresh (.returned false))
      else some { call with phase := .lookingUpUser }
  | .lookingUpUser =>
      if HasUser tables.users user then some { call with phase := .lookingUpWallet }
      else some { call with phase := .savingUser }
  | .savingUser =>
      -- A row found here has been saved since, under the same generated name.
      if HasUser tables.users user then some { call with phase := .lookingUpWallet }
      else some { call with phase := .lookingUpWallet, user := some ⟨user, usernameOf user⟩ }
  | .lookingUpWallet =>
      if (tables.balance user).isSome then some { call with phase := afterWallet event }
      else some { call with phase := .savingWallet }
  | .savingWallet =>
      let source := if (tables.balance user).isSome then WalletSource.merged else .opened
      some
        { call with
          phase := afterWallet event
          wallet := some (source, ⟨user, defaultWalletSeedCents⟩) }
  | .lockingWallet =>
      match call.wallet with
      | none =>
          if Blocked (held Call.heldWallet s.calls) i ⟨user, 0⟩ then none
          else
            match tables.balance user with
            | none => some (.fresh .raised)
            | some balanceCents => some (debited event call .loaded balanceCents)
      | some (source, wallet) =>
          if UserBlocked s i call ∨ WalletBlocked s i call then none
          else
            some (flushed (flushAtLock call s.db) (debited event call source wallet.balanceCents))
  | .savingAccepted =>
      some { call with phase := .insertingEntry, bet := some (saveOf s.db event.bet, event.bet) }
  | .insertingEntry =>
      if UserBlocked s i call ∨ BetBlocked s i call ∨
          Blocked (held Call.heldEntry s.calls) i event.entry then none
      else
        some (flushed (flushAtEntry event call s.db)
          { call with phase := .committingAccepted, entry := some event.entry })
  | .savingRejected =>
      some
        { call with
          phase := .committingRejected
          bet := some (saveOf s.db event.bet, event.bet) }
  | .committingAccepted | .committingRejected | .returned _ | .raised => none

/-- The flush of a commit and the commit; `none` while the flush waits for another call. -/
def runCommit (s : Services ι) (i : ι) (call : Call) : Option (Outcome JavaDatabase Call) :=
  if UserBlocked s i call ∨ WalletBlocked s i call ∨ BetBlocked s i call then none
  else
    match call.install s.db with
    | .error _ => some (.moved (.fresh .raised))
    | .ok db => some (.committed (.fresh (.returned true)) db)

/-- What a step of call `i` makes of it. -/
def act (event : ι → BetResultEvent) (s : Services ι) (i : ι) (move : Move) :
    Option (Outcome JavaDatabase Call) :=
  let call := s.calls i
  match call.phase, move with
  | .returned _, _ | .raised, _ => none
  | _, .abort => some (.moved (.fresh .raised))
  | _, .run =>
      if call.phase.committing then runCommit s i call
      else (runStatement (event i) s i call).map .moved

/-- One step of one call. -/
abbrev step (event : ι → BetResultEvent) : Services ι → ι × Move → Option (Services ι) :=
  Concurrent.step (act event)

end Steps

/-! ## What a call knows -/

/-- The wallet a call writes: a new one opens at the seed, a loaded one is the committed one, and
behind the lock the stake is taken. -/
def WalletSound (event : BetResultEvent) (db : JavaDatabase) (call : Call) : Prop :=
  match call.wallet with
  | none => call.phase.locked = false
  | some (.loaded, r) =>
      call.phase.locked = true ∧ ∃ amount, db.tables.balance event.accountId = some amount ∧
        r = ⟨event.accountId, amount - event.stakeCents⟩
  | some (_, r) =>
      r = ⟨event.accountId,
        defaultWalletSeedCents - if call.phase.locked then event.stakeCents else 0⟩

/-- The bet a call writes: an update has a row, and an accepted bet without an update has an
accepted one. -/
def BetSound (event : BetResultEvent) (db : JavaDatabase) (call : Call) : Prop :=
  match call.bet with
  | none => call.phase.committing = false ∧ call.phase ≠ .insertingEntry
  | some (save, r) =>
      r = event.bet ∧ match save with
        | .insert => True
        | .update => ∃ row ∈ db.tables.bets.rows, row.id = event.betId
        | .unchanged => ∃ row ∈ db.tables.bets.rows, row.id = event.betId ∧
            (resolveStatus event = .accepted → row.status = .accepted)

/-- The phase of a call is one for its event's decision. -/
def Decided (event : BetResultEvent) : Phase → Prop
  | .lockingWallet | .savingAccepted | .insertingEntry | .committingAccepted =>
      resolveStatus event = .accepted
  | .savingRejected | .committingRejected => resolveStatus event = .rejected
  | _ => True

/-- What a call in flight knows of the committed state. -/
structure CallSound (event : BetResultEvent) (db : JavaDatabase) (call : Call) : Prop where
  wallet : WalletSound event db call
  bet : BetSound event db call
  decided : Decided event call.phase
  entry : call.entry = if call.phase = .committingAccepted then some event.entry else none

section Sound

variable {event : BetResultEvent} {db : JavaDatabase} {call call' : Call}

/-- A call without entities knows nothing. -/
theorem callSound_fresh {phase : Phase} (hlocked : phase.locked = false)
    (hcommitting : phase.committing = false) (hdecided : Decided event phase) :
    CallSound event db (.fresh phase) where
  wallet := hlocked
  bet := by
    refine ⟨hcommitting, ?_⟩
    rintro rfl
    contradiction
  decided := hdecided
  entry := by
    rw [if_neg]
    · rfl
    · rintro rfl
      contradiction

/-- Neither does one that has raised. -/
theorem callSound_raised : CallSound event db (.fresh .raised) :=
  callSound_fresh rfl rfl trivial

/-- Without the lock there is no ledger row yet. -/
theorem CallSound.entry_of_locked (h : CallSound event db call)
    (hlocked : call.phase.locked = false) :
    call.entry = none := by
  rw [h.entry, if_neg]
  intro hphase
  rw [hphase] at hlocked
  contradiction

/-- A call that holds no lock moves on to a statement in front of the lock. -/
theorem CallSound.advance (h : CallSound event db call) (hbefore : call.phase.locked = false)
    {phase : Phase} (hlocked : phase.locked = false) (hcommitting : phase.committing = false)
    (hdecided : Decided event phase) : CallSound event db { call with phase } where
  wallet := by
    have hwallet := h.wallet
    unfold WalletSound at hwallet ⊢
    simp only
    split
    · exact hlocked
    · rename_i hloaded
      simp [hloaded, hbefore] at hwallet
    · rename_i hsource
      simp only [hlocked]
      split at hwallet <;> simp_all
  bet := by
    have hbet := h.bet
    unfold BetSound at hbet ⊢
    simp only
    split
    · refine ⟨hcommitting, ?_⟩
      rintro rfl
      contradiction
    · rename_i hsome
      simpa [hsome] using hbet
  decided := hdecided
  entry := by
    rw [if_neg]
    · exact h.entry_of_locked hbefore
    · rintro rfl
      contradiction

/-- A result that is not accepted is rejected. -/
theorem resolveStatus_rejected (h : ¬ resolveStatus event = .accepted) :
    resolveStatus event = .rejected := by
  unfold resolveStatus at h ⊢
  split
  · rename_i haccepted
    rw [if_pos haccepted] at h
    contradiction
  · rfl

/-- Behind the wallet the lock is still to be taken. -/
theorem afterWallet_locked : (afterWallet event).locked = false := by
  unfold afterWallet
  split <;> rfl

/-- Behind the wallet the call goes on as its event is decided. -/
theorem CallSound.afterWallet (h : CallSound event db call) (hbefore : call.phase.locked = false) :
    CallSound event db { call with phase := afterWallet event } := by
  unfold ServiceRaces.afterWallet
  split
  · rename_i haccepted
    exact h.advance hbefore rfl rfl haccepted
  · rename_i hrejected
    exact h.advance hbefore rfl rfl (resolveStatus_rejected hrejected)

/-- A queued new wallet opens at the seed. -/
theorem CallSound.queueWallet (h : CallSound event db call) (hbefore : call.phase.locked = false)
    {source : WalletSource} (hsource : source ≠ .loaded) :
    CallSound event db
      { call with wallet := some (source, ⟨event.accountId, defaultWalletSeedCents⟩) } where
  wallet := by
    cases source with
    | opened => simp [WalletSound, hbefore]
    | merged => simp [WalletSound, hbefore]
    | loaded => contradiction
  bet := h.bet
  decided := h.decided
  entry := h.entry

/-- In front of the lock a queued wallet is not a loaded one and stands at the seed. -/
theorem CallSound.queued (h : CallSound event db call) (hbefore : call.phase.locked = false)
    {source : WalletSource} {wallet : Wallet} (hwallet : call.wallet = some (source, wallet)) :
    source ≠ .loaded ∧ wallet = ⟨event.accountId, defaultWalletSeedCents⟩ := by
  have hsound := h.wallet
  unfold WalletSound at hsound
  cases source with
  | opened =>
      simp only [hwallet, hbefore] at hsound
      exact ⟨WalletSource.noConfusion, by simpa using hsound⟩
  | merged =>
      simp only [hwallet, hbefore] at hsound
      exact ⟨WalletSource.noConfusion, by simpa using hsound⟩
  | loaded =>
      simp only [hwallet, hbefore] at hsound
      simp at hsound

/-- The check behind the lock leaves a covered wallet less the stake. -/
theorem CallSound.debited (h : CallSound event db call) (hphase : call.phase = .lockingWallet)
    {source : WalletSource} {balanceCents : Int}
    (hbalance : if source = .loaded then db.tables.balance event.accountId = some balanceCents
      else balanceCents = defaultWalletSeedCents) :
    CallSound event db (debited event call source balanceCents) := by
  unfold ServiceRaces.debited
  split
  · exact callSound_raised
  · refine ⟨?_, ?_, ?_, ?_⟩
    · cases source with
      | opened =>
          obtain rfl : balanceCents = defaultWalletSeedCents := hbalance
          rfl
      | merged =>
          obtain rfl : balanceCents = defaultWalletSeedCents := hbalance
          rfl
      | loaded => exact ⟨rfl, balanceCents, hbalance, rfl⟩
    · have hbet := h.bet
      unfold BetSound at hbet ⊢
      simp only
      split
      · simp [Phase.committing]
      · rename_i hsome
        simpa [hsome] using hbet
    · have hdecided := h.decided
      rw [hphase] at hdecided
      exact hdecided
    · rw [if_neg Phase.noConfusion]
      exact h.entry_of_locked (by rw [hphase]; rfl)

/-- The lookup of `save` tells what the flush finds. -/
theorem CallSound.saveBet (h : CallSound event db call) {phase : Phase}
    (hphase : (call.phase = .savingAccepted ∧ phase = .insertingEntry) ∨
      (call.phase = .savingRejected ∧ phase = .committingRejected)) :
    CallSound event db
      { call with phase, bet := some (saveOf db event.bet, event.bet) } where
  wallet := by
    have hlocked : phase.locked = call.phase.locked := by
      obtain ⟨hbefore, rfl⟩ | ⟨hbefore, rfl⟩ := hphase <;> rw [hbefore] <;> rfl
    have hwallet := h.wallet
    unfold WalletSound at hwallet ⊢
    simp only [hlocked]
    exact hwallet
  bet := by
    refine ⟨rfl, ?_⟩
    unfold saveOf
    cases hfind : db.tables.bets.find Bet.id event.bet.id with
    | none => trivial
    | some row =>
        obtain ⟨hrow, hid⟩ := Table.find_eq_some hfind
        by_cases hsame : JavaDatabase.mergedInto event.bet row = row
        · simp only [if_pos hsame]
          refine ⟨row, hrow, hid, fun haccepted => ?_⟩
          rw [← hsame]
          exact haccepted
        · simp only [if_neg hsame]
          exact ⟨row, hrow, hid⟩
  decided := by
    have hdecided := h.decided
    obtain ⟨hbefore, rfl⟩ | ⟨hbefore, rfl⟩ := hphase <;> rwa [hbefore] at hdecided
  entry := by
    have hentry := h.entry
    obtain ⟨hbefore, rfl⟩ | ⟨hbefore, rfl⟩ := hphase <;> rwa [hbefore] at hentry

/-- Behind the ledger row the call commits. -/
theorem CallSound.insertEntry (h : CallSound event db call)
    (hphase : call.phase = .insertingEntry) :
    CallSound event db
      { call with phase := .committingAccepted, entry := some event.entry } where
  wallet := by
    have hwallet := h.wallet
    unfold WalletSound at hwallet ⊢
    rw [hphase] at hwallet
    exact hwallet
  bet := by
    have hbet := h.bet
    unfold BetSound at hbet ⊢
    simp only
    split
    · rename_i hnone
      simp [hnone, hphase] at hbet
    · rename_i hsome
      simpa [hsome] using hbet
  decided := by
    have hdecided := h.decided
    rwa [hphase] at hdecided
  entry := rfl

end Sound

section Statements

variable [Fintype ι] [DecidableEq ι] {event : BetResultEvent} {s : Services ι} {i : ι}
  {call call' : Call}

/-- A flush that fails leaves nothing, any other leaves the call at its next statement. -/
theorem flushed_cases {α : Type} {result : Except SqlError α} {next : Call}
    (h : flushed result next = call) : call = next ∨ call = .fresh .raised := by
  cases result with
  | ok a => exact Or.inl h.symm
  | error e => exact Or.inr h.symm

/-- The lookup in `bets` leaves the service or goes on to the ledger. -/
theorem CallSound.checkBets (h : CallSound event s.db call) (hphase : call.phase = .checkingBets)
    (hstep : runStatement event s i call = some call') : CallSound event s.db call' := by
  simp only [runStatement, hphase] at hstep
  split at hstep
  · obtain rfl := Option.some.inj hstep
    exact callSound_raised
  · split at hstep
    · obtain rfl := Option.some.inj hstep
      exact callSound_fresh rfl rfl trivial
    · obtain rfl := Option.some.inj hstep
      exact h.advance (hphase ▸ rfl) rfl rfl trivial

/-- The lookup in `wallet_ledger` leaves the service or goes on to the user. -/
theorem CallSound.checkLedger (h : CallSound event s.db call)
    (hphase : call.phase = .checkingLedger) (hstep : runStatement event s i call = some call') :
    CallSound event s.db call' := by
  simp only [runStatement, hphase] at hstep
  split at hstep
  · obtain rfl := Option.some.inj hstep
    exact callSound_fresh rfl rfl trivial
  · obtain rfl := Option.some.inj hstep
    exact h.advance (hphase ▸ rfl) rfl rfl trivial

/-- The lookup of the user changes no entity. -/
theorem CallSound.lookUpUser (h : CallSound event s.db call)
    (hphase : call.phase = .lookingUpUser) (hstep : runStatement event s i call = some call') :
    CallSound event s.db call' := by
  simp only [runStatement, hphase] at hstep
  split at hstep
  · obtain rfl := Option.some.inj hstep
    exact h.advance (hphase ▸ rfl) rfl rfl trivial
  · obtain rfl := Option.some.inj hstep
    exact h.advance (hphase ▸ rfl) rfl rfl trivial

/-- `save` of a user queues a row, or finds one. -/
theorem CallSound.saveUser (h : CallSound event s.db call) (hphase : call.phase = .savingUser)
    (hstep : runStatement event s i call = some call') : CallSound event s.db call' := by
  have hnext : CallSound event s.db { call with phase := .lookingUpWallet } :=
    h.advance (hphase ▸ rfl) rfl rfl trivial
  simp only [runStatement, hphase] at hstep
  split at hstep
  · obtain rfl := Option.some.inj hstep
    exact hnext
  · obtain rfl := Option.some.inj hstep
    exact ⟨hnext.wallet, hnext.bet, hnext.decided, hnext.entry⟩

/-- The lookup of the wallet changes no entity. -/
theorem CallSound.lookUpWallet (h : CallSound event s.db call)
    (hphase : call.phase = .lookingUpWallet) (hstep : runStatement event s i call = some call') :
    CallSound event s.db call' := by
  simp only [runStatement, hphase] at hstep
  split at hstep
  · obtain rfl := Option.some.inj hstep
    exact h.afterWallet (hphase ▸ rfl)
  · obtain rfl := Option.some.inj hstep
    exact h.advance (hphase ▸ rfl) rfl rfl trivial

/-- `save` of a wallet queues one at the seed, which no lock has read. -/
theorem CallSound.saveWallet (h : CallSound event s.db call) (hphase : call.phase = .savingWallet)
    (hstep : runStatement event s i call = some call') : CallSound event s.db call' := by
  have hbefore : call.phase.locked = false := hphase ▸ rfl
  simp only [runStatement, hphase] at hstep
  obtain rfl := Option.some.inj hstep
  have hsource : (if (s.db.tables.balance event.accountId).isSome then WalletSource.merged
      else .opened) ≠ .loaded := by
    split <;> simp
  exact (h.queueWallet hbefore hsource).afterWallet hbefore

/-- The lock reads the committed balance, or flushes the queued wallet, and the stake is taken. -/
theorem CallSound.lockWallet (h : CallSound event s.db call) (hphase : call.phase = .lockingWallet)
    (hstep : runStatement event s i call = some call') : CallSound event s.db call' := by
  simp only [runStatement, hphase] at hstep
  split at hstep
  · split at hstep
    · contradiction
    · split at hstep
      · obtain rfl := Option.some.inj hstep
        exact callSound_raised
      · rename_i hbalance
        obtain rfl := Option.some.inj hstep
        exact h.debited hphase (by rwa [if_pos rfl])
  · rename_i source wallet hwallet
    obtain ⟨hsource, rfl⟩ := h.queued (hphase ▸ rfl) hwallet
    split at hstep
    · contradiction
    · obtain rfl | rfl := flushed_cases (Option.some.inj hstep)
      · exact h.debited hphase (by rw [if_neg hsource])
      · exact callSound_raised

/-- Each statement leaves a call sound. -/
theorem CallSound.runStatement (h : CallSound event s.db call)
    (hstep : runStatement event s i call = some call') : CallSound event s.db call' := by
  cases hphase : call.phase with
  | checkingBets => exact h.checkBets hphase hstep
  | checkingLedger => exact h.checkLedger hphase hstep
  | lookingUpUser => exact h.lookUpUser hphase hstep
  | savingUser => exact h.saveUser hphase hstep
  | lookingUpWallet => exact h.lookUpWallet hphase hstep
  | savingWallet => exact h.saveWallet hphase hstep
  | lockingWallet => exact h.lockWallet hphase hstep
  | savingAccepted =>
      simp only [ServiceRaces.runStatement, hphase] at hstep
      obtain rfl := Option.some.inj hstep
      exact h.saveBet (Or.inl ⟨hphase, rfl⟩)
  | insertingEntry =>
      simp only [ServiceRaces.runStatement, hphase] at hstep
      split at hstep
      · contradiction
      · obtain rfl | rfl := flushed_cases (Option.some.inj hstep)
        · exact h.insertEntry hphase
        · exact callSound_raised
  | savingRejected =>
      simp only [ServiceRaces.runStatement, hphase] at hstep
      obtain rfl := Option.some.inj hstep
      exact h.saveBet (Or.inr ⟨hphase, rfl⟩)
  | committingAccepted => simp [ServiceRaces.runStatement, hphase] at hstep
  | committingRejected => simp [ServiceRaces.runStatement, hphase] at hstep
  | returned value => simp [ServiceRaces.runStatement, hphase] at hstep
  | raised => simp [ServiceRaces.runStatement, hphase] at hstep

/-- A statement of a call without the lock takes it as the last step of `lockingWallet` only, behind
the locks of other calls. -/
theorem runStatement_locked (h : CallSound event s.db call)
    (hstep : runStatement event s i call = some call') (hbefore : call.phase.locked = false)
    (hafter : call'.phase.locked = true) :
    ∀ w ∈ call'.wallet, ¬ Blocked (held Call.heldWallet s.calls) i w.2 := by
  have hdebited : ∀ {source balanceCents},
      (debited event call source balanceCents).phase.locked = true →
      ∀ w ∈ (debited event call source balanceCents).wallet, w.2.userId = event.accountId := by
    intro source balanceCents hlocked w hw
    unfold debited at hlocked hw
    split at hw
    · contradiction
    · obtain rfl := Option.some.inj hw
      rfl
  cases hphase : call.phase with
  | lockingWallet =>
      simp only [ServiceRaces.runStatement, hphase] at hstep
      split at hstep
      · split at hstep
        · contradiction
        · rename_i hfree
          split at hstep
          · obtain rfl := Option.some.inj hstep
            contradiction
          · obtain rfl := Option.some.inj hstep
            rintro w hw ⟨j, hj, r, hr, hclash⟩
            exact hfree ⟨j, hj, r, hr, hclash.trans (hdebited hafter w hw)⟩
      · rename_i source wallet hwallet
        split at hstep
        · contradiction
        · rename_i hfree
          obtain rfl | rfl := flushed_cases (Option.some.inj hstep)
          · obtain ⟨-, huser⟩ := h.queued hbefore hwallet
            rintro w hw ⟨j, hj, r, hr, hclash⟩
            refine hfree (Or.inr ⟨_, hwallet, j, hj, r, hr, ?_⟩)
            rw [huser]
            exact hclash.trans (hdebited hafter w hw)
          · contradiction
  | savingAccepted => simp [hphase, Phase.locked] at hbefore
  | insertingEntry => simp [hphase, Phase.locked] at hbefore
  | committingAccepted => simp [hphase, Phase.locked] at hbefore
  | _ =>
      exfalso
      simp only [ServiceRaces.runStatement, hphase] at hstep
      grind [Call.fresh, Phase.locked, afterWallet_locked]

/-- A statement behind the lock keeps the wallet. -/
theorem runStatement_wallet (hstep : runStatement event s i call = some call')
    (hbefore : call.phase.locked = true) :
    call'.wallet = call.wallet ∨ call' = .fresh .raised := by
  cases hphase : call.phase with
  | savingAccepted =>
      simp only [ServiceRaces.runStatement, hphase] at hstep
      obtain rfl := Option.some.inj hstep
      exact Or.inl rfl
  | insertingEntry =>
      simp only [ServiceRaces.runStatement, hphase] at hstep
      split at hstep
      · contradiction
      · obtain rfl | rfl := flushed_cases (Option.some.inj hstep)
        · exact Or.inl rfl
        · exact Or.inr rfl
  | committingAccepted => simp [ServiceRaces.runStatement, hphase] at hstep
  | _ => simp [hphase, Phase.locked] at hbefore

/-- The wallet a statement leaves locked waits for no other call's. -/
theorem heldWallet_runStatement (h : CallSound event s.db call)
    (hown : ∀ r ∈ call.heldWallet, ¬ Blocked (held Call.heldWallet s.calls) i r)
    (hstep : runStatement event s i call = some call') :
    ∀ r ∈ call'.heldWallet, ¬ Blocked (held Call.heldWallet s.calls) i r := by
  intro r hr
  unfold Call.heldWallet at hr
  split at hr
  · rename_i hafter
    by_cases hbefore : call.phase.locked = true
    · obtain hwallet | rfl := runStatement_wallet hstep hbefore
      · rw [hwallet] at hr
        exact hown r (by rwa [Call.heldWallet, if_pos hbefore])
      · contradiction
    · obtain ⟨w, hw, rfl⟩ := Option.map_eq_some_iff.mp hr
      exact runStatement_locked h hstep (Bool.not_eq_true _ ▸ hbefore) hafter w hw
  · contradiction

end Statements

end ServiceRaces
end SettlementJava
end BettingPlatform
