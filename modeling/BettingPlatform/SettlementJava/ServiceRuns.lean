import BettingPlatform.SettlementJava.Agreement
import BettingPlatform.SettlementJava.ServiceRaces

/-!
# Runs of concurrent Java transactions

A debited stake belongs to an accepted bet as long as no commit writes over what another
call has committed: a rejected save over an accepted bet, an accepted save over the bet of
another key, or the seed over a wallet that has moved.  The unique keys do not stop such a
commit, since `save` turns into an update.

Main results:

- Theorem `CallSound.stakes`: a careful commit keeps stakes and accepted bets in correspondence.
- Theorem `settled_of_careful`: so does every run whose commits are careful.
- Theorem `rejected_over_accepted`: a redelivery decided otherwise takes the accepted bet from
  a debited stake.
-/

namespace BettingPlatform
namespace SettlementJava
namespace ServiceRaces

open Settlement Runs Schema

variable {ι : Type}

/-! ## What a commit does -/

/-- The rows of `bets` behind the flush of a bet. -/
def savedRows (bet : Option (Save × Bet)) (rows : List Bet) : List Bet :=
  match bet with
  | some (.insert, r) => rows ++ [r]
  | some (.update, r) => rows.map fun s => if s.id = r.id then JavaDatabase.mergedInto r s else s
  | _ => rows

/-- A user's balance behind the flush of a wallet. -/
def balanceWith (wallet : Option (WalletSource × Wallet)) (balance : Uuid → Option Int)
    (user : Uuid) : Option Int :=
  match wallet with
  | some (_, r) => if user = r.userId then some r.balanceCents else balance user
  | none => balance user

/-- What a commit does to balances, bets and ledger. -/
structure Installed (call : Call) (db db' : JavaDatabase) : Prop where
  balance : ∀ user, db'.tables.balance user = balanceWith call.wallet db.tables.balance user
  opened : ∀ r, call.wallet = some (.opened, r) → db.tables.balance r.userId = none
  bets : db'.tables.bets.rows = savedRows call.bet db.tables.bets.rows
  entries : db'.entries.rows = db.entries.rows ++ call.entry.toList
  entry_new : ∀ r ∈ call.entry, ∀ s ∈ db.entries.rows, s.idempotencyKey ≠ r.idempotencyKey

section Install

variable {db db' : JavaDatabase}

/-- The flush of a user touches no wallet, bet or entry. -/
theorem flushUser_eq_ok {user : Option User} (h : Call.flushUser user db = .ok db') :
    db'.tables.wallets = db.tables.wallets ∧ db'.tables.bets = db.tables.bets ∧
      db'.entries = db.entries := by
  cases user with
  | none =>
      obtain rfl := Except.ok.inj h
      exact ⟨rfl, rfl, rfl⟩
  | some r =>
      obtain ⟨hinsert, hentries⟩ := JavaDatabase.writing_eq_ok_iff.mp h
      obtain ⟨-, hwallets, hbets, -⟩ := Database.insertUser_eq_ok_iff.mp hinsert
      exact ⟨hwallets, hbets, hentries⟩

/-- A written balance is the user's. -/
theorem writeBalance_eq_ok {user : Uuid} {balanceCents : Int}
    (hsome : (db.tables.balance user).isSome)
    (h : db.writeBalance user balanceCents = .ok db') :
    (∀ user', db'.tables.balance user' =
      if user' = user then some balanceCents else db.tables.balance user') ∧
      db'.tables.bets = db.tables.bets ∧ db'.entries = db.entries := by
  obtain ⟨hupdate, hentries⟩ := JavaDatabase.writing_eq_ok_iff.mp h
  obtain ⟨-, -, hbets, -⟩ := Database.updateWallets_eq_ok_iff.mp hupdate
  refine ⟨fun user' => ?_, hbets, hentries⟩
  obtain ⟨amount, hamount⟩ := Option.isSome_iff_exists.mp hsome
  rw [Database.balance_updateWallets hupdate, hamount]
  simp

/-- The flush of a wallet changes one balance. -/
theorem flushWallet_eq_ok {wallet : Option (WalletSource × Wallet)}
    (hexists : ∀ source r, wallet = some (source, r) → source ≠ .opened →
      (db.tables.balance r.userId).isSome)
    (h : Call.flushWallet wallet db = .ok db') :
    (∀ user, db'.tables.balance user = balanceWith wallet db.tables.balance user) ∧
      (∀ r, wallet = some (.opened, r) → db.tables.balance r.userId = none) ∧
      db'.tables.bets = db.tables.bets ∧ db'.entries = db.entries := by
  cases wallet with
  | none =>
      obtain rfl := Except.ok.inj h
      simp [balanceWith]
  | some w =>
      obtain ⟨source, r⟩ := w
      have hupdated : source ≠ .opened → db.writeBalance r.userId r.balanceCents = .ok db' →
          (∀ user, db'.tables.balance user =
            balanceWith (some (source, r)) db.tables.balance user) ∧
            (∀ r', some (source, r) = some (.opened, r') →
              db.tables.balance r'.userId = none) ∧
            db'.tables.bets = db.tables.bets ∧ db'.entries = db.entries := by
        intro hsource hwrite
        obtain ⟨hbalance, hrest⟩ := writeBalance_eq_ok (hexists source r rfl hsource) hwrite
        exact ⟨hbalance, fun r' hr' => absurd (congrArg Prod.fst (Option.some.inj hr')) hsource,
          hrest⟩
      cases source with
      | merged => exact hupdated (by decide) h
      | loaded => exact hupdated (by decide) h
      | opened =>
          obtain ⟨hinsert, hentries⟩ := JavaDatabase.writing_eq_ok_iff.mp h
          obtain ⟨hrow, -, -, hbets, -⟩ := Database.insertWallet_eq_ok_iff.mp hinsert
          obtain ⟨-, -, hfree, -⟩ := Table.insert_eq_ok_iff.mp hrow
          refine ⟨fun user => ?_, ?_, hbets, hentries⟩
          · rw [Database.balance_insertWallet hinsert]
            simp only [balanceWith, eq_comm]
          · rintro r' hr'
            obtain rfl := congrArg Prod.snd (Option.some.inj hr')
            exact Database.balance_eq_none_iff.mpr hfree

/-- The flush of a bet saves its row. -/
theorem flushBet_eq_ok {bet : Option (Save × Bet)} (h : Call.flushBet bet db = .ok db') :
    db'.tables.bets.rows = savedRows bet db.tables.bets.rows ∧
      db'.tables.wallets = db.tables.wallets ∧ db'.entries = db.entries := by
  unfold Call.flushBet at h
  split at h
  · obtain ⟨hinsert, hentries⟩ := JavaDatabase.writing_eq_ok_iff.mp h
    obtain ⟨hrow, -, -, hwallets, -⟩ := Database.insertBet_eq_ok_iff.mp hinsert
    exact ⟨Table.insert_rows hrow, hwallets, hentries⟩
  · obtain ⟨hupdate, -, hwallets, -, -, hentries⟩ := JavaDatabase.updateBet_eq_ok_iff.mp h
    refine ⟨?_, hwallets, hentries⟩
    rw [Table.update_rows hupdate]
    simp [savedRows, Table.updatedRows]
  · rename_i hinsert hupdate
    obtain rfl := Except.ok.inj h
    refine ⟨?_, rfl, rfl⟩
    unfold savedRows
    split
    · rename_i r
      exact absurd rfl (hinsert r)
    · rename_i r
      exact absurd rfl (hupdate r)
    · rfl

/-- The flush of an entry adds one under a new key. -/
theorem flushEntry_eq_ok {entry : Option LedgerEntry} (h : Call.flushEntry entry db = .ok db') :
    db'.entries.rows = db.entries.rows ++ entry.toList ∧
      (∀ r ∈ entry, ∀ s ∈ db.entries.rows, s.idempotencyKey ≠ r.idempotencyKey) ∧
      db'.tables.wallets = db.tables.wallets ∧ db'.tables.bets = db.tables.bets := by
  cases entry with
  | none =>
      obtain rfl := Except.ok.inj h
      simp
  | some r =>
      obtain ⟨hentries, hledger⟩ := JavaDatabase.insertEntry_eq_ok_iff.mp h
      obtain ⟨-, -, -, hwallets, hbets, -⟩ := Database.insertLedger_eq_ok_iff.mp hledger
      obtain ⟨-, -, hfree, hrows⟩ := Table.insert_eq_ok_iff.mp hentries
      refine ⟨hrows, ?_, hwallets, hbets⟩
      rintro r' hr' s hs
      obtain rfl := Option.some.inj hr'
      exact hfree s hs

/-- What a commit does to balances, bets and ledger. -/
theorem install_eq_ok {call : Call}
    (hexists : ∀ source r, call.wallet = some (source, r) → source ≠ .opened →
      (db.tables.balance r.userId).isSome)
    (h : call.install db = .ok db') : Installed call db db' := by
  simp only [Call.install, bind_eq_ok_iff] at h
  obtain ⟨db₁, huser, db₂, hwallet, db₃, hbet, hentry⟩ := h
  obtain ⟨hwallets₁, hbets₁, hentries₁⟩ := flushUser_eq_ok huser
  have hbalance₁ := Database.balance_eq_of_wallets hwallets₁
  obtain ⟨hbalance₂, hopened, hbets₂, hentries₂⟩ := flushWallet_eq_ok
    (fun source r hr hsource => (hbalance₁ r.userId).symm ▸ hexists source r hr hsource) hwallet
  obtain ⟨hbets₃, hwallets₃, hentries₃⟩ := flushBet_eq_ok hbet
  obtain ⟨hentries₄, hnew, hwallets₄, hbets₄⟩ := flushEntry_eq_ok hentry
  refine ⟨fun user => ?_, fun r hr => ?_, ?_, ?_, ?_⟩
  · rw [Database.balance_eq_of_wallets hwallets₄, Database.balance_eq_of_wallets hwallets₃,
      hbalance₂, funext hbalance₁]
  · rw [← hbalance₁]
    exact hopened r hr
  · rw [hbets₄, hbets₃, hbets₂, hbets₁]
  · rw [hentries₄, hentries₃, hentries₂, hentries₁]
  · rw [← hentries₁, ← hentries₂, ← hentries₃]
    exact hnew

end Install

/-! ## Settled states -/

/-- The keys and amounts of the `BET_STAKE` rows. -/
def stakeRows (rows : List LedgerEntry) : List (String × Int) :=
  (rows.filter fun r => r.type = .betStake).map fun r => (r.idempotencyKey, r.amountCents)

/-- The keys and debits of the accepted bets. -/
def acceptedStakes (rows : List Bet) : List (String × Int) :=
  (rows.filter fun r => r.status = .accepted).map fun r => (r.idempotencyKey, -r.stakeCents)

/-- What the ledger says about a user. -/
def ledgerSum (rows : List LedgerEntry) (user : Uuid) : Int :=
  ((rows.filter fun r => r.userId = user).map fun r => r.amountCents).sum

/-- What a user's wallet held before its first ledger row; a wallet that is still to come opens
at the seed. -/
def openingCents (db : JavaDatabase) (user : Uuid) : Int :=
  openingBalance db.tables user defaultWalletSeedCents - ledgerSum db.entries.rows user

/-- A debited stake belongs to an accepted bet, and the ledger explains the wallets. -/
structure Settled (db₀ db : JavaDatabase) : Prop where
  stakes : (stakeRows db.entries.rows).Perm (acceptedStakes db.tables.bets.rows)
  keys : ((stakeRows db.entries.rows).map Prod.fst).Nodup
  balance : ∀ user amount, db.tables.balance user = some amount →
    amount = openingCents db₀ user + ledgerSum db.entries.rows user ∧ 0 ≤ amount

/-- Stakes are positive, and deliveries of one key are of one bet. -/
structure Deliveries (event : ι → BetResultEvent) : Prop where
  stake_pos : ∀ i, 0 < (event i).stakeCents
  same : ∀ i j, (event i).idempotencyKey = (event j).idempotencyKey →
    (event i).betId = (event j).betId ∧ (event i).accountId = (event j).accountId ∧
      (event i).matchId = (event j).matchId ∧ (event i).selectionId = (event j).selectionId ∧
      (event i).stakeCents = (event j).stakeCents ∧ (event i).odds = (event j).odds

/-- The bets that are there already are of the deliveries with their keys. -/
def Continues (event : ι → BetResultEvent) (rows : List Bet) : Prop :=
  ∀ i, ∀ r ∈ rows, r.idempotencyKey = (event i).idempotencyKey →
    r.stakeCents = (event i).stakeCents

/-- The commit of a call writes over nothing that other calls have committed. -/
structure Careful (event : BetResultEvent) (db : JavaDatabase) (call : Call) : Prop where
  /-- A merged wallet still holds the seed. -/
  wallet : ∀ r, call.wallet = some (.merged, r) →
    db.tables.balance r.userId = some defaultWalletSeedCents
  /-- The bet that an accepted save has found has the event's key. -/
  accepted : resolveStatus event = .accepted → call.newBet = none →
    ∀ row ∈ db.tables.bets.rows, row.id = event.betId →
      row.idempotencyKey = event.idempotencyKey
  /-- The bet that a rejected save updates has not been accepted. -/
  rejected : resolveStatus event = .rejected → (∃ r, call.bet = some (.update, r)) →
    ∀ row ∈ db.tables.bets.rows, row.id = event.betId → row.status ≠ .accepted

section Commit

variable {event : BetResultEvent} {db db' : JavaDatabase} {call : Call}

/-- A committing call is accepted and has a ledger row, or rejected and has none. -/
theorem CallSound.committing (h : CallSound event db call)
    (hphase : call.phase.committing = true) :
    (call.phase.locked = true ∧ resolveStatus event = .accepted ∧
        call.entry = some event.entry) ∨
      (call.phase.locked = false ∧ resolveStatus event = .rejected ∧ call.entry = none) := by
  have hdecided := h.decided
  have hentry := h.entry
  cases hcase : call.phase with
  | committingAccepted =>
      rw [hcase] at hdecided hentry
      exact Or.inl ⟨rfl, hdecided, hentry⟩
  | committingRejected =>
      rw [hcase] at hdecided hentry
      exact Or.inr ⟨rfl, hdecided, hentry⟩
  | _ =>
      rw [hcase] at hphase
      contradiction

/-- The wallet that a careful commit updates is there. -/
theorem CallSound.wallet_exists (h : CallSound event db call) (hcareful : Careful event db call)
    (source : WalletSource) (r : Wallet) (hwallet : call.wallet = some (source, r))
    (hsource : source ≠ .opened) : (db.tables.balance r.userId).isSome := by
  have hsound := h.wallet
  unfold WalletSound at hsound
  rw [hwallet] at hsound
  cases source with
  | opened => contradiction
  | merged => rw [hcareful.wallet r hwallet]; rfl
  | loaded =>
      obtain ⟨-, amount, hamount, rfl⟩ := hsound
      rw [hamount]
      rfl

/-- An accepted commit takes the stake from the wallet as it is, a rejected one takes nothing. -/
theorem CallSound.wallet_committed (h : CallSound event db call)
    (hcareful : Careful event db call) (hinstalled : Installed call db db') {source : WalletSource}
    {r : Wallet} (hwallet : call.wallet = some (source, r)) :
    r = ⟨event.accountId, openingBalance db.tables event.accountId defaultWalletSeedCents -
      if call.phase.locked then event.stakeCents else 0⟩ := by
  have hsound := h.wallet
  unfold WalletSound at hsound
  rw [hwallet] at hsound
  cases source with
  | opened =>
      have hnone := hinstalled.opened r hwallet
      have huser : r.userId = event.accountId := congrArg Wallet.userId hsound
      rw [huser] at hnone
      rw [hsound, openingBalance, hnone]
      rfl
  | merged =>
      have hseed := hcareful.wallet r hwallet
      have huser : r.userId = event.accountId := congrArg Wallet.userId hsound
      rw [huser] at hseed
      rw [hsound, openingBalance, hseed]
      rfl
  | loaded =>
      obtain ⟨hlocked, amount, hamount, rfl⟩ := hsound
      rw [if_pos hlocked, openingBalance, hamount]
      rfl

/-- The ledger explains the wallets behind a careful commit. -/
theorem CallSound.balanced (h : CallSound event db call) (hcareful : Careful event db call)
    (hphase : call.phase.committing = true) (hinstalled : Installed call db db')
    {opening : Uuid → Int} (hbalanced : ∀ user,
      openingBalance db.tables user defaultWalletSeedCents =
        opening user + ledgerSum db.entries.rows user) (user : Uuid) :
    openingBalance db'.tables user defaultWalletSeedCents =
      opening user + ledgerSum db'.entries.rows user := by
  have hsum : ledgerSum db'.entries.rows user = ledgerSum db.entries.rows user -
      if user = event.accountId then (if call.phase.locked then event.stakeCents else 0) else 0 := by
    unfold ledgerSum
    rw [hinstalled.entries, List.filter_append, List.map_append, List.sum_append]
    obtain ⟨hlocked, -, hentry⟩ | ⟨hlocked, -, hentry⟩ := h.committing hphase
    · rw [hentry, if_pos hlocked]
      by_cases huser : user = event.accountId
      · simp [huser, BetResultEvent.entry]
        omega
      · simp [huser, BetResultEvent.entry, Ne.symm huser]
    · simp [hentry, hlocked]
  rw [hsum, openingBalance, hinstalled.balance]
  cases hwallet : call.wallet with
  | none =>
      have hlocked := h.wallet
      unfold WalletSound at hlocked
      rw [hwallet] at hlocked
      simp only [hlocked, Bool.false_eq_true, if_false, ite_self, Int.sub_zero, balanceWith]
      exact hbalanced user
  | some w =>
      obtain ⟨source, r⟩ := w
      obtain rfl := h.wallet_committed hcareful hinstalled hwallet
      simp only [balanceWith]
      by_cases huser : user = event.accountId
      · subst huser
        rw [if_pos rfl, if_pos rfl, hbalanced, Option.getD_some]
        omega
      · rw [if_neg huser, if_neg huser, Int.sub_zero]
        exact hbalanced user

/-- A key without a ledger row has no accepted bet. -/
theorem not_accepted_of_new {rows : List Bet} {entries : List LedgerEntry} {row : Bet}
    (hstakes : (stakeRows entries).Perm (acceptedStakes rows)) (hrow : row ∈ rows)
    (hnew : ∀ r ∈ entries, r.idempotencyKey ≠ row.idempotencyKey) : row.status ≠ .accepted := by
  intro haccepted
  have hmem : (row.idempotencyKey, -row.stakeCents) ∈ acceptedStakes rows := by
    refine List.mem_map.mpr ⟨row, List.mem_filter.mpr ⟨hrow, ?_⟩, rfl⟩
    exact decide_eq_true haccepted
  obtain ⟨entry, hentry, hpair⟩ := List.mem_map.mp (hstakes.mem_iff.mpr hmem)
  exact hnew entry (List.mem_filter.mp hentry).1 (congrArg Prod.fst hpair)

/-- An update of one row's decision keeps keys and stakes. -/
theorem acceptedStakes_update (entity : Bet) (rows : List Bet) :
    acceptedStakes
        (rows.map fun s => if s.id = entity.id then JavaDatabase.mergedInto entity s else s) =
      (rows.filter fun s =>
        (if s.id = entity.id then entity.status else s.status) = .accepted).map
        fun r => (r.idempotencyKey, -r.stakeCents) := by
  unfold acceptedStakes
  rw [List.filter_map, List.map_map]
  have hfilter : ((fun r : Bet => decide (r.status = .accepted)) ∘ fun s =>
      if s.id = entity.id then JavaDatabase.mergedInto entity s else s) = fun s =>
      decide ((if s.id = entity.id then entity.status else s.status) = .accepted) := by
    funext s
    simp only [Function.comp_apply]
    split <;> rfl
  have hpair : ((fun r : Bet => (r.idempotencyKey, -r.stakeCents)) ∘ fun s =>
      if s.id = entity.id then JavaDatabase.mergedInto entity s else s) = fun r =>
      (r.idempotencyKey, -r.stakeCents) := by
    funext s
    simp only [Function.comp_apply]
    split <;> rfl
  rw [hfilter, hpair]

/-- Accepting a bet adds its stake. -/
theorem acceptedStakes_accept {t : Table Bet} {row entity : Bet} (hrow : row ∈ t.rows)
    (hid : row.id = entity.id) (hstatus : entity.status = .accepted)
    (hnot : row.status ≠ .accepted) :
    (acceptedStakes
        (t.rows.map fun s =>
          if s.id = entity.id then JavaDatabase.mergedInto entity s else s)).Perm
      (acceptedStakes t.rows ++ [(row.idempotencyKey, -row.stakeCents)]) := by
  have hperm := @Table.filter_perm _ _ t row (fun s => decide (s.status = .accepted))
    (fun s => decide ((if s.id = entity.id then entity.status else s.status) = .accepted))
    hrow (decide_eq_false hnot) fun s hs hclash => by
      have hne : s.id ≠ entity.id := fun heq => hclash (Or.inl (heq.trans hid.symm))
      simp only [if_neg hne]
  rw [if_pos hid, hstatus, decide_eq_true rfl, if_pos rfl] at hperm
  rw [acceptedStakes_update, hstatus, acceptedStakes]
  simpa only [List.map_append, List.map_singleton] using
    hperm.map fun r => (r.idempotencyKey, -r.stakeCents)

/-- Rejecting bets that are not accepted changes no stake. -/
theorem acceptedStakes_reject {rows : List Bet} {entity : Bet}
    (hstatus : entity.status = .rejected)
    (hnot : ∀ row ∈ rows, row.id = entity.id → row.status ≠ .accepted) :
    acceptedStakes
        (rows.map fun s => if s.id = entity.id then JavaDatabase.mergedInto entity s else s) =
      acceptedStakes rows := by
  rw [acceptedStakes_update, acceptedStakes]
  congr 1
  refine List.filter_congr fun s hs => ?_
  by_cases hid : s.id = entity.id
  · simp [hid, hstatus, hnot s hs hid]
  · simp [hid]

/-- A careful commit keeps the `BET_STAKE` rows and the accepted bets in correspondence. -/
theorem CallSound.stakes (h : CallSound event db call) (hcareful : Careful event db call)
    (hphase : call.phase.committing = true) (hinstalled : Installed call db db')
    (hsame : ∀ r ∈ db.tables.bets.rows, r.idempotencyKey = event.idempotencyKey →
      r.stakeCents = event.stakeCents)
    (hstakes : (stakeRows db.entries.rows).Perm (acceptedStakes db.tables.bets.rows)) :
    (stakeRows db'.entries.rows).Perm (acceptedStakes db'.tables.bets.rows) := by
  have hbet := h.bet
  unfold BetSound at hbet
  obtain ⟨-, haccepted, hentry⟩ | ⟨-, hrejected, hentry⟩ := h.committing hphase
  · have hnew : ∀ r ∈ db.entries.rows, r.idempotencyKey ≠ event.idempotencyKey :=
      hinstalled.entry_new event.entry hentry
    have hrows : stakeRows db'.entries.rows =
        stakeRows db.entries.rows ++ [(event.idempotencyKey, -event.stakeCents)] := by
      simp [stakeRows, hinstalled.entries, hentry, BetResultEvent.entry]
    rw [hrows, hinstalled.bets]
    cases hcase : call.bet with
    | none => simp [hcase, hphase] at hbet
    | some saved =>
        obtain ⟨save, r⟩ := saved
        rw [hcase] at hbet
        obtain ⟨rfl, hfound⟩ := hbet
        cases save with
        | insert =>
            have hadded : acceptedStakes (db.tables.bets.rows ++ [event.bet]) =
                acceptedStakes db.tables.bets.rows ++
                  [(event.idempotencyKey, -event.stakeCents)] := by
              simp [acceptedStakes, BetResultEvent.bet, haccepted]
            exact hadded ▸ hstakes.append_right _
        | update =>
            obtain ⟨row, hrow, hid⟩ := hfound
            have hkey : row.idempotencyKey = event.idempotencyKey :=
              hcareful.accepted haccepted (by rw [Call.newBet, hcase]) row hrow hid
            have hnot : row.status ≠ .accepted :=
              not_accepted_of_new hstakes hrow fun r hr => hkey ▸ hnew r hr
            have hadded := @acceptedStakes_accept _ _ event.bet hrow hid haccepted hnot
            rw [hkey, hsame row hrow hkey] at hadded
            exact (hstakes.append_right _).trans hadded.symm
        | unchanged =>
            obtain ⟨row, hrow, hid, hstatus⟩ := hfound
            have hkey : row.idempotencyKey = event.idempotencyKey :=
              hcareful.accepted haccepted (by rw [Call.newBet, hcase]) row hrow hid
            exact absurd (hstatus haccepted)
              (not_accepted_of_new hstakes hrow fun r hr => hkey ▸ hnew r hr)
  · have hrows : db'.entries.rows = db.entries.rows := by
      simp [hinstalled.entries, hentry]
    rw [hrows, hinstalled.bets]
    cases hcase : call.bet with
    | none => simp [hcase, hphase] at hbet
    | some saved =>
        obtain ⟨save, r⟩ := saved
        rw [hcase] at hbet
        obtain ⟨rfl, -⟩ := hbet
        have hstatus : event.bet.status = .rejected := hrejected
        cases save with
        | insert =>
            have hadded : acceptedStakes (db.tables.bets.rows ++ [event.bet]) =
                acceptedStakes db.tables.bets.rows := by
              simp [acceptedStakes, hstatus]
            exact hadded ▸ hstakes
        | update =>
            have hkept := @acceptedStakes_reject db.tables.bets.rows _ hstatus
              (hcareful.rejected hrejected ⟨_, hcase⟩)
            rw [savedRows, hkept]
            exact hstakes
        | unchanged => exact hstakes

/-- A commit writes its event's bet or keeps keys and stakes. -/
theorem CallSound.continues {ι : Type} {events : ι → BetResultEvent} {i : ι}
    (h : CallSound (events i) db call) (hdeliveries : Deliveries events)
    (hinstalled : Installed call db db') (hcontinues : Continues events db.tables.bets.rows) :
    Continues events db'.tables.bets.rows := by
  intro j r hr hkey
  rw [hinstalled.bets] at hr
  have hbet := h.bet
  unfold BetSound at hbet
  unfold savedRows at hr
  split at hr
  · rename_i entity hcase
    rw [hcase] at hbet
    obtain ⟨rfl, -⟩ := hbet
    rcases List.mem_append.mp hr with hr | hr
    · exact hcontinues j r hr hkey
    · obtain rfl := List.mem_singleton.mp hr
      exact (hdeliveries.same i j hkey).2.2.2.2.1
  · obtain ⟨row, hrow, rfl⟩ := List.mem_map.mp hr
    split at hkey
    · rename_i hid
      rw [if_pos hid]
      exact hcontinues j row hrow hkey
    · rename_i hid
      rw [if_neg hid]
      exact hcontinues j row hrow hkey
  · exact hcontinues j r hr hkey

/-- A careful commit keeps every bet, and the accepted ones accepted. -/
theorem CallSound.bet_kept (h : CallSound event db call) (hcareful : Careful event db call)
    (hinstalled : Installed call db db') {row : Bet} (hrow : row ∈ db.tables.bets.rows) :
    ∃ row' ∈ db'.tables.bets.rows, row'.id = row.id ∧
      (row.status = .accepted → row'.status = .accepted) := by
  rw [hinstalled.bets]
  have hbet := h.bet
  unfold BetSound at hbet
  unfold savedRows
  split
  · exact ⟨row, List.mem_append_left _ hrow, rfl, id⟩
  · rename_i entity hcase
    rw [hcase] at hbet
    obtain ⟨rfl, -⟩ := hbet
    refine ⟨_, List.mem_map_of_mem hrow, ?_, ?_⟩
    · split <;> rfl
    · intro haccepted
      split
      · rename_i hid
        by_cases hdecision : resolveStatus event = .accepted
        · exact hdecision
        · exact absurd haccepted
            (hcareful.rejected (resolveStatus_rejected hdecision) ⟨_, hcase⟩ row hrow hid)
      · exact haccepted
  · exact ⟨row, hrow, rfl, id⟩

/-- A careful commit leaves every other call sound. -/
theorem CallSound.installed {event' : BetResultEvent} {other : Call}
    (hother : CallSound event' db other) (h : CallSound event db call)
    (hcareful : Careful event db call) (hinstalled : Installed call db db')
    (hapart : ∀ r ∈ other.heldWallet, ∀ w ∈ call.wallet, ¬ Clash r w.2) :
    CallSound event' db' other where
  wallet := by
    have hwallet := hother.wallet
    unfold WalletSound at hwallet ⊢
    split
    · rename_i hnone
      simpa [hnone] using hwallet
    · rename_i r hloaded
      rw [hloaded] at hwallet
      obtain ⟨hlocked, amount, hamount, rfl⟩ := hwallet
      refine ⟨hlocked, amount, ?_, rfl⟩
      have hheld : other.heldWallet = some ⟨event'.accountId, amount - event'.stakeCents⟩ := by
        rw [Call.heldWallet, if_pos hlocked, hloaded]
        rfl
      rw [hinstalled.balance]
      unfold balanceWith
      split
      · rename_i w hcase
        have hne : event'.accountId ≠ w.userId := hapart _ hheld _ hcase
        rw [if_neg hne]
        exact hamount
      · exact hamount
    · rename_i source r hnot hsome
      rw [hsome] at hwallet
      cases source with
      | opened => exact hwallet
      | merged => exact hwallet
      | loaded => exact absurd rfl hnot
  bet := by
    have hbet := hother.bet
    unfold BetSound at hbet ⊢
    split
    · rename_i hnone
      simpa [hnone] using hbet
    · rename_i save r hsome
      rw [hsome] at hbet
      obtain ⟨hentity, hfound⟩ := hbet
      refine ⟨hentity, ?_⟩
      cases save with
      | insert => trivial
      | update =>
          obtain ⟨row, hrow, hid⟩ := hfound
          obtain ⟨row', hrow', hid', -⟩ := h.bet_kept hcareful hinstalled hrow
          exact ⟨row', hrow', hid'.trans hid⟩
      | unchanged =>
          obtain ⟨row, hrow, hid, hstatus⟩ := hfound
          obtain ⟨row', hrow', hid', hkept⟩ := h.bet_kept hcareful hinstalled hrow
          exact ⟨row', hrow', hid'.trans hid, fun haccepted => hkept (hstatus haccepted)⟩
  decided := hother.decided
  entry := hother.entry

end Commit

/-! ## Runs -/

section Runs

variable {event : ι → BetResultEvent} {db₀ : JavaDatabase} {s s' : Services ι} {i : ι}
  {move : Move} {label : ι × Move}

/-- The committed state is settled, and every call in flight knows enough of it. -/
structure Sound (event : ι → BetResultEvent) (db₀ : JavaDatabase) (s : Services ι) : Prop where
  calls : ∀ i, CallSound (event i) s.db (s.calls i)
  apart : Apart (held Call.heldWallet s.calls)
  continues : Continues event s.db.tables.bets.rows
  stakes : (stakeRows s.db.entries.rows).Perm (acceptedStakes s.db.tables.bets.rows)
  balanced : ∀ user, openingBalance s.db.tables user defaultWalletSeedCents =
    openingCents db₀ user + ledgerSum s.db.entries.rows user

/-- The services start with calls that know nothing. -/
theorem sound_start (hcontinues : Continues event db₀.tables.bets.rows)
    (hsettled : Settled db₀ db₀) : Sound event db₀ (Services.start db₀) where
  calls _ := callSound_fresh rfl rfl trivial
  apart := apart_none
  continues := hcontinues
  stakes := hsettled.stakes
  balanced user := by
    exact (Int.sub_add_cancel _ _).symm

/-- Sound services have settled what they have committed. -/
theorem Sound.settled (h : Sound event db₀ s) : Settled db₀ s.db where
  stakes := h.stakes
  keys := by
    have hkeys : (s.db.entries.rows.map LedgerEntry.idempotencyKey).Nodup :=
      Table.nodup_key fun _ _ => id
    refine List.Nodup.sublist ?_ hkeys
    rw [stakeRows, List.map_map]
    exact List.filter_sublist.map LedgerEntry.idempotencyKey
  balance user amount hamount := by
    have hbalanced := h.balanced user
    rw [openingBalance, hamount] at hbalanced
    exact ⟨hbalanced, Database.wallet_balance_nonneg hamount⟩

variable [Fintype ι] [DecidableEq ι]

/-- A call that moves has run a statement or has been rolled back. -/
theorem act_eq_moved {call : Call} (h : act event s i move = some (.moved call)) :
    call = .fresh .raised ∨ runStatement (event i) s i (s.calls i) = some call := by
  simp only [act] at h
  split at h
  · contradiction
  · contradiction
  · obtain rfl := Outcome.moved.inj (Option.some.inj h)
    exact Or.inl rfl
  · split at h
    · unfold runCommit at h
      split at h
      · contradiction
      · split at h
        · obtain rfl := Outcome.moved.inj (Option.some.inj h)
          exact Or.inl rfl
        · simp at h
    · obtain ⟨call', hcall, hmoved⟩ := Option.map_eq_some_iff.mp h
      obtain rfl := Outcome.moved.inj hmoved
      exact Or.inr hcall

/-- A commit writes the entities behind the lock of the wallet. -/
theorem act_eq_committed {call : Call} {db : JavaDatabase}
    (h : act event s i move = some (.committed call db)) :
    (s.calls i).phase.committing = true ∧ ¬ WalletBlocked s i (s.calls i) ∧
      (s.calls i).install s.db = .ok db ∧ call = .fresh (.returned true) := by
  simp only [act] at h
  split at h
  · contradiction
  · contradiction
  · simp at h
  · split at h
    · rename_i hphase
      unfold runCommit at h
      split at h
      · contradiction
      · rename_i hfree
        split at h
        · simp at h
        · rename_i hinstall
          obtain ⟨rfl, rfl⟩ := Outcome.committed.inj (Option.some.inj h)
          exact ⟨hphase, fun hblocked => hfree (Or.inr (Or.inl hblocked)), hinstall, rfl⟩
    · obtain ⟨call', -, hmoved⟩ := Option.map_eq_some_iff.mp h
      contradiction

/-- Every commit of the run writes over nothing that other calls have committed. -/
def CarefulCommits (event : ι → BetResultEvent) (s : Services ι) (label : ι × Move) : Prop :=
  ∀ call db, act event s label.1 label.2 = some (.committed call db) →
    Careful (event label.1) s.db (s.calls label.1)

/-- A statement or a rollback keeps the state sound. -/
theorem Sound.moved (h : Sound event db₀ s) {call : Call}
    (hact : act event s i move = some (.moved call)) :
    Sound event db₀ (s.apply i (.moved call)) := by
  have hown : ∀ r ∈ (s.calls i).heldWallet, ¬ Blocked (held Call.heldWallet s.calls) i r :=
    fun r hr => h.apart.not_blocked hr fun _ => id
  obtain ⟨hcall, hfree⟩ : CallSound (event i) s.db call ∧
      ∀ r ∈ call.heldWallet, ¬ Blocked (held Call.heldWallet s.calls) i r := by
    obtain rfl | hstep := act_eq_moved hact
    · exact ⟨callSound_raised, fun r hr => by contradiction⟩
    · exact ⟨(h.calls i).runStatement hstep, heldWallet_runStatement (h.calls i) hown hstep⟩
  refine ⟨fun j => ?_, ?_, h.continues, h.stakes, h.balanced⟩
  · by_cases hj : j = i
    · subst hj
      simpa [Concurrent.apply] using hcall
    · simpa [Concurrent.apply, Function.update_of_ne hj] using h.calls j
  · exact held_update Call.heldWallet s.calls i call ▸ h.apart.update hfree

/-- A careful commit keeps the state sound. -/
theorem Sound.committed (h : Sound event db₀ s) (hdeliveries : Deliveries event) {call : Call}
    {db : JavaDatabase} (hact : act event s i move = some (.committed call db))
    (hcareful : Careful (event i) s.db (s.calls i)) :
    Sound event db₀ (s.apply i (.committed call db)) := by
  obtain ⟨hphase, hwallet, hinstall, rfl⟩ := act_eq_committed hact
  have hcall := h.calls i
  have hinstalled : Installed (s.calls i) s.db db :=
    install_eq_ok (hcall.wallet_exists hcareful) hinstall
  refine ⟨fun j => ?_, ?_, hcall.continues hdeliveries hinstalled h.continues,
    hcall.stakes hcareful hphase hinstalled (h.continues i) h.stakes,
    hcall.balanced hcareful hphase hinstalled h.balanced⟩
  · by_cases hj : j = i
    · subst hj
      have hended : CallSound (event j) db (.fresh (.returned true)) :=
        callSound_fresh rfl rfl trivial
      simpa [Concurrent.apply] using hended
    · have hapart : ∀ r ∈ (s.calls j).heldWallet, ∀ w ∈ (s.calls i).wallet, ¬ Clash r w.2 :=
        fun r hr w hw hclash => hwallet ⟨w, hw, j, hj, r, hr, hclash⟩
      simpa [Concurrent.apply, Function.update_of_ne hj] using
        (h.calls j).installed hcall hcareful hinstalled hapart
  · refine held_update Call.heldWallet s.calls i _ ▸ h.apart.update ?_
    intro r hr
    contradiction

/-- A careful step keeps the services sound. -/
theorem Sound.step (h : Sound event db₀ s) (hdeliveries : Deliveries event)
    (hcareful : CarefulCommits event s label) (hstep : step event s label = some s') :
    Sound event db₀ s' := by
  obtain ⟨outcome, hact, rfl⟩ := Option.map_eq_some_iff.mp hstep
  cases outcome with
  | moved call => exact h.moved hact
  | committed call db => exact h.committed hdeliveries hact (hcareful call db hact)

/-- A step that does not end in a commit leaves the committed state alone. -/
theorem db_of_step (hstep : step event s label = some s')
    (hphase : (s'.calls label.1).phase ≠ .returned true) : s'.db = s.db := by
  obtain ⟨outcome, hact, rfl⟩ := Option.map_eq_some_iff.mp hstep
  cases outcome with
  | moved call => rfl
  | committed call db =>
      obtain ⟨-, -, -, rfl⟩ := act_eq_committed hact
      simp [Concurrent.apply, Call.fresh] at hphase

/-- In every run whose commits are careful, a debited stake belongs to an accepted bet and the
ledger explains the wallets, and a call that throws has changed nothing. -/
theorem settled_of_careful (hdeliveries : Deliveries event) (hsettled : Settled db₀ db₀)
    (hcontinues : Continues event db₀.tables.bets.rows)
    (hrun : Reaches (step event) (CarefulCommits event) (Services.start db₀) s) :
    Settled db₀ s.db ∧
      ∀ label s', step event s label = some s' →
        (s'.calls label.1).phase ≠ .returned true → s'.db = s.db := by
  have hsound : Sound event db₀ s := hrun.invariant (sound_start hcontinues hsettled)
    fun h hcareful hstep => h.step hdeliveries hcareful hstep
  exact ⟨hsound.settled, fun label s' => db_of_step⟩

end Runs

/-! ## A redelivery that is decided otherwise -/

/-- The accepted sample event and a redelivery that the risk engine has rejected. -/
def sampleRedelivered (rejected : Bool) : BetResultEvent :=
  if rejected then
    { present sampleEvent sampleEvent_long with
      accepted := false
      reasonCode := "INSUFFICIENT_FUNDS" }
  else present sampleEvent sampleEvent_long

theorem sampleRedelivered_deliveries : Deliveries sampleRedelivered where
  stake_pos i := by cases i <;> decide
  same i j _ := by cases i <;> cases j <;> decide

theorem settled_empty : Settled .empty .empty where
  stakes := .nil
  keys := List.nodup_nil
  balance user amount hamount := by
    rw [Database.balance_eq_some_iff] at hamount
    contradiction

/-- A commit whose bet and wallet no other call has committed is careful. -/
theorem carefulCommits_of_new {ι : Type} [Fintype ι] [DecidableEq ι] {event : ι → BetResultEvent}
    {s : Services ι} {label : ι × Move}
    (h : (s.calls label.1).phase.committing = true →
      (s.calls label.1).newBet.isSome ∧ ∀ w ∈ (s.calls label.1).wallet, w.1 ≠ .merged) :
    CarefulCommits event s label := by
  intro call db hact
  obtain ⟨hnew, hwallet⟩ := h (act_eq_committed hact).1
  refine ⟨fun r hr => absurd rfl (hwallet _ hr), fun _ hnone => ?_, fun _ hupdate => ?_⟩
  · rw [hnone] at hnew
    contradiction
  · obtain ⟨r, hr⟩ := hupdate
    rw [Call.newBet, hr] at hnew
    contradiction

/-- The accepted delivery commits in front of the redelivery's checks. -/
def sampleInOrder : List (Bool × Move) :=
  List.replicate 10 (false, .run) ++ [(true, .run)]

theorem settled_of_careful_sample :
    ∃ s, Reaches (step sampleRedelivered) (CarefulCommits sampleRedelivered)
        (Services.start .empty) s ∧
      (s.calls true).phase = .returned false ∧ Settled .empty s.db := by
  have hexec : (sampleInOrder.foldlM
      (fun s label =>
        if decide ((s.calls label.1).phase.committing = true →
            (s.calls label.1).newBet.isSome ∧ ∀ w ∈ (s.calls label.1).wallet, w.1 ≠ .merged) then
          step sampleRedelivered s label
        else none) (Services.start .empty)).map
      (fun s => (s.calls true).phase) = some (.returned false) := by
    decide +kernel
  obtain ⟨s, hs, hphase⟩ := Option.map_eq_some_iff.mp hexec
  have hrun : Reaches (step sampleRedelivered) (CarefulCommits sampleRedelivered)
      (Services.start .empty) s :=
    Reaches.of_foldlM_checked
      (fun s label hpassed => carefulCommits_of_new (of_decide_eq_true hpassed)) hs
  refine ⟨s, hrun, hphase, ?_⟩
  exact (settled_of_careful sampleRedelivered_deliveries settled_empty
    (fun i r hr => absurd hr List.not_mem_nil) hrun).1

/-- The redelivery passes its checks first, and its save finds the accepted bet. -/
def sampleOvertaken : List (Bool × Move) :=
  List.replicate 2 (true, .run) ++ List.replicate 10 (false, .run) ++
    List.replicate 4 (true, .run)

/-- The accepted bet is rejected, and its stake stays debited. -/
theorem rejected_over_accepted :
    ∃ s, Reachable (step sampleRedelivered) (Services.start .empty) s ∧
      Deliveries sampleRedelivered ∧ stakeRows s.db.entries.rows = [("k", -2500)] ∧
      s.db.tables.balance 7 = some 97500 ∧ acceptedStakes s.db.tables.bets.rows = [] ∧
      ¬ Settled .empty s.db := by
  have hexec : (sampleOvertaken.foldlM (step sampleRedelivered) (Services.start .empty)).map
      (fun s => (stakeRows s.db.entries.rows, s.db.tables.balance 7,
        acceptedStakes s.db.tables.bets.rows)) =
      some ([("k", -2500)], some 97500, []) := by
    decide +kernel
  obtain ⟨s, hs, hvalues⟩ := Option.map_eq_some_iff.mp hexec
  obtain ⟨hdebited, hrest⟩ := Prod.mk.inj hvalues
  obtain ⟨hbalance, haccepted⟩ := Prod.mk.inj hrest
  refine ⟨s, Reaches.of_foldlM hs, sampleRedelivered_deliveries, hdebited, hbalance, haccepted,
    fun hsettled => ?_⟩
  have hperm := hsettled.stakes
  rw [hdebited, haccepted] at hperm
  exact List.cons_ne_nil _ _ hperm.eq_nil

end ServiceRaces
end SettlementJava
end BettingPlatform
