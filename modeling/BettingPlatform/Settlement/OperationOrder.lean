import BettingPlatform.Foundations.FirstUse
import BettingPlatform.Settlement.Mpesa

/-!
# Orders of a user's operations

Results of a user's bets and M-Pesa deposits reach the settlement service in any order.
The first of them to touch a user without a wallet opens it, and the two handlers open it
with different balances.

Main results:

- Theorem `BalanceOperation.run_eq_ok`: what one committed operation does.
- Theorem `runAll_eq_ok`: the balance and the ledger amounts after a sequence of operations.
- Theorem `orders_agree_iff`: two orders leave the same balance exactly when the operations
  that open the wallet open it with the same balance.
-/

namespace BettingPlatform
namespace Settlement

open Python FirstUse

/-! ## The operations -/

/-- A deposit: the push, the gateway's answer, and the callback that reports the payment. -/
structure Deposit where
  payload : MpesaDepositRequest
  gateway : Json
  body : List (String × Json)
  callback : StkCallback
  read : readCallback body = .ok callback
  own : gateway.get "CheckoutRequestID" .null = .ok callback.checkoutId
  paid : callback.resultCode = 0

/-- The operations on a user's wallet. -/
inductive BalanceOperation
  | betResult (event : BetResultEvent)
  | deposit (deposit : Deposit)

namespace BalanceOperation

/-- The user the operation is about. -/
def user : BalanceOperation → Uuid
  | .betResult event => event.userId
  | .deposit d => d.payload.userId

/-- The idempotency key of a bet result. -/
def key : BalanceOperation → Option String
  | .betResult event => some event.idempotencyKey
  | .deposit _ => none

/-- The bet of a bet result. -/
def betId : BalanceOperation → Option Uuid
  | .betResult event => some event.betId
  | .deposit _ => none

/-- The balance with which the operation opens a missing wallet. -/
def openingCents : BalanceOperation → Int
  | .betResult _ => openingBalanceCents
  | .deposit _ => depositOpeningCents

/-- The amounts that the operation adds to the ledger. -/
def amounts : BalanceOperation → List Int
  | .betResult event =>
      if statusFromResult event = .accepted then [-event.stakeCents] else []
  | .deposit d => [d.payload.amount * 100]

/-- The worker knows the operation's key and skips it. -/
def known (db : Database) : BalanceOperation → Bool
  | .betResult event => (db.bets.find Bet.idempotencyKey event.idempotencyKey).isSome
  | .deposit _ => false

/-- What the operation brings to the wallet. -/
def entry (op : BalanceOperation) : Entry Int where
  opening := op.openingCents
  amount := op.amounts.sum

/-- The operation on its own, with all its transactions. -/
def run (pyRepr : Json → String) (op : BalanceOperation) (db : Database) :
    Except Raised Database :=
  match op with
  | .betResult event => (processBetResultEvent event db).map Prod.snd
  | .deposit d => do
      let db ← stkPushUpsert d.payload db
      let (_, db) ← stkPushRecord pyRepr d.payload d.gateway db
      let (_, db) ← mpesaStkCallback pyRepr d.body db
      .ok db

end BalanceOperation

/-- The operations one after the other. -/
def runAll (pyRepr : Json → String) (ops : List BalanceOperation) (db : Database) :
    Except Raised Database :=
  ops.foldlM (fun db op => op.run pyRepr db) db

/-- The amounts of the ledger. -/
def Database.ledgerAmounts (db : Database) : List Int :=
  db.ledger.rows.map WalletLedger.amountCents

/-! ## One operation -/

section One

variable {pyRepr : Json → String} {op : BalanceOperation} {db db' : Database}

/-- An operation is known when a bet with its key is stored. -/
theorem BalanceOperation.known_iff :
    op.known db ↔ ∃ bet ∈ db.bets.rows, op.key = some bet.idempotencyKey := by
  cases op with
  | betResult event =>
      rw [known, key, ← Option.ne_none_iff_isSome, ne_eq, Table.find_eq_none_iff]
      simp [eq_comm]
  | deposit d => simp [known, key]

/-- What an operation that is not skipped has done. -/
structure Posted (op : BalanceOperation) (db db' : Database) : Prop where
  balance : db'.balance op.user = post (db.balance op.user) op.entry
  ledger : db'.ledgerAmounts = db.ledgerAmounts ++ op.amounts
  keys : ∀ key : String, (∃ bet ∈ db'.bets.rows, bet.idempotencyKey = key) ↔
    (∃ bet ∈ db.bets.rows, bet.idempotencyKey = key) ∨ op.key = some key

/-- A persisted result posts its debit. -/
theorem Persisted.posted {event : BetResultEvent} (h : Persisted event db db') :
    Posted (.betResult event) db db' where
  balance := by
    have hdebit : event.debit = -(BalanceOperation.betResult event).amounts.sum := by
      by_cases haccepted : statusFromResult event = .accepted <;>
        simp [BetResultEvent.debit, BalanceOperation.amounts, haccepted]
    rw [BalanceOperation.user, h.balance, if_pos rfl, post, openingBalance, hdebit, Int.sub_neg]
    rfl
  ledger := by
    unfold Database.ledgerAmounts
    rw [h.ledger]
    by_cases haccepted : statusFromResult event = .accepted <;>
      simp [BalanceOperation.amounts, haccepted, BetResultEvent.ledgerRow]
  keys := fun key => by
    simp [h.bets, BalanceOperation.key, BetResultEvent.bet, or_and_right, exists_or]

/-- A deposit opens a missing wallet, and credits it. -/
theorem Deposit.posted {deposit : Deposit}
    (h : (BalanceOperation.deposit deposit).run pyRepr db = .ok db') :
    Posted (.deposit deposit) db db' := by
  obtain ⟨db₁, hupsert, h⟩ := bind_eq_ok_iff.mp h
  obtain ⟨⟨response, db₂⟩, hrecord, h⟩ := bind_eq_ok_iff.mp h
  obtain ⟨⟨ack, db₃⟩, hcallback, h⟩ := bind_eq_ok_iff.mp h
  obtain rfl := Except.ok.inj h
  -- the push opens the wallet
  simp only [stkPushUpsert, bind_eq_ok_iff, sql_eq_ok_iff] at hupsert
  obtain ⟨db₀, huser, hwallet⟩ := hupsert
  obtain ⟨-, hwallets₀, hbets₀, hledger₀, -⟩ := upsertUser_eq_ok huser
  obtain ⟨hbalance₁, -, hbets₁, hledger₁, -⟩ := upsertWallet_eq_ok hwallet
  -- it records a pending transaction
  obtain ⟨checkoutId, merchantId, hid, -, -, hinsert⟩ := stkPushRecord_eq_ok hrecord
  obtain ⟨hrow, -, -, hwallets₂, hbets₂, hledger₂⟩ := Database.insertTransaction_eq_ok_iff.mp hinsert
  have hpending : db₂.transaction checkoutId =
      some (deposit.payload.transaction checkoutId merchantId) := by
    rw [Database.transaction, Table.find_insert (fun _ _ hkey => hkey) hrow]
    exact if_pos rfl
  -- which the callback closes
  obtain ⟨callback, hread, hbody⟩ := bind_eq_ok_iff.mp hcallback
  obtain ⟨db₄, happly, hack⟩ := bind_eq_ok_iff.mp hbody
  obtain ⟨-, rfl⟩ := Prod.mk.inj (Except.ok.inj hack)
  obtain rfl := Except.ok.inj (deposit.read.symm.trans hread)
  have hown := Except.ok.inj (deposit.own.symm.trans hid)
  obtain ⟨id, hid', -, hcases⟩ := applyCallback_eq_ok happly
  obtain rfl := Json.str.inj (hown.symm.trans hid')
  rcases hcases with ⟨-, hclosed⟩ | ⟨txn, columns, htxn, -, -, hclosed⟩
  · exact absurd rfl (hclosed _ hpending)
  · obtain rfl := Option.some.inj (hpending.symm.trans htxn)
    rw [decide_eq_true deposit.paid] at hclosed
    refine ⟨?_, ?_, fun key => ?_⟩
    · have huser : (BalanceOperation.deposit deposit).user = deposit.payload.userId := rfl
      have htransaction : (deposit.payload.transaction checkoutId merchantId).userId =
          deposit.payload.userId := rfl
      rw [hclosed.balance, huser, htransaction, if_pos ⟨rfl, rfl⟩,
        Database.balance_eq_of_wallets hwallets₂, hbalance₁, if_pos rfl, openingBalance,
        Database.balance_eq_of_wallets hwallets₀]
      simp [post, BalanceOperation.entry, BalanceOperation.amounts, BalanceOperation.openingCents,
        MpesaDepositRequest.transaction]
    · simp [Database.ledgerAmounts, hclosed.ledger, hledger₂, hledger₁, hledger₀, depositRow,
        BalanceOperation.amounts, MpesaDepositRequest.transaction]
    · rw [hclosed.bets, hbets₂, hbets₁, hbets₀]
      simp [BalanceOperation.key]

/-- A committed operation is skipped for its key, or it is posted. -/
theorem BalanceOperation.run_eq_ok (h : op.run pyRepr db = .ok db') :
    (op.known db ∧ db' = db) ∨ (op.known db = false ∧ Posted op db db') := by
  cases op with
  | betResult event =>
      cases hprocess : processBetResultEvent event db with
      | error e => simp [run, hprocess, Except.map] at h
      | ok result =>
          obtain ⟨written, db₁⟩ := result
          obtain rfl : db₁ = db' := by simpa [run, hprocess, Except.map] using h
          rcases processBetResultEvent_eq_ok hprocess with
            ⟨-, hdb, bet, hbet, hkey⟩ | ⟨-, hpersisted⟩
          · exact Or.inl ⟨known_iff.mpr ⟨bet, hbet, congrArg some hkey.symm⟩, hdb⟩
          · refine Or.inr ⟨?_, hpersisted.posted⟩
            rw [← Bool.not_eq_true, known_iff]
            rintro ⟨bet, hbet, hkey⟩
            exact hpersisted.key_new bet hbet (Option.some.inj hkey).symm
  | deposit d => exact Or.inr ⟨rfl, Deposit.posted h⟩

end One

/-! ## A sequence of operations -/

section Sequence

variable {pyRepr : Json → String} {ops ops' : List BalanceOperation} {db db₁ db₂ : Database}
  {user : Uuid}

/-- The operations that the service does not skip. -/
def effective (db : Database) (ops : List BalanceOperation) : List BalanceOperation :=
  ops.filter fun op => !op.known db

/-- The balance with which the wallet is opened, when an operation opens it. -/
def opening (db : Database) (ops : List BalanceOperation) : Option Int :=
  ((effective db ops).head?).map BalanceOperation.openingCents

/-- An operation with another key leaves it open whether a key is known. -/
theorem Posted.known {op later : BalanceOperation} (h : Posted op db db₁)
    (hkeys : op.key.isSome → op.key ≠ later.key) : later.known db₁ = later.known db := by
  rw [Bool.eq_iff_iff, BalanceOperation.known_iff, BalanceOperation.known_iff]
  cases hlater : later.key with
  | none => simp
  | some key =>
      have hdiffers : op.key ≠ some key := by
        intro hsame
        exact hkeys (by simp [hsame]) (hsame.trans hlater.symm)
      have hsame := h.keys key
      simp only [hdiffers, or_false] at hsame
      simpa [eq_comm] using hsame

/-- The balance and the ledger amounts after a sequence of operations on one user. -/
theorem runAll_eq_ok (huser : ∀ op ∈ ops, op.user = user)
    (hkeys : (ops.filterMap BalanceOperation.key).Nodup) (h : runAll pyRepr ops db = .ok db₁) :
    db₁.balance user =
        ((effective db ops).map BalanceOperation.entry).foldl post (db.balance user) ∧
      db₁.ledgerAmounts =
        db.ledgerAmounts ++ (effective db ops).flatMap BalanceOperation.amounts := by
  induction ops generalizing db with
  | nil =>
      obtain rfl := Except.ok.inj h
      simp [effective]
  | cons op ops ih =>
      rw [runAll, List.foldlM_cons] at h
      obtain ⟨mid, hfirst, hrest⟩ := bind_eq_ok_iff.mp h
      have hrestUser : ∀ later ∈ ops, later.user = user :=
        fun later hlater => huser later (List.mem_cons_of_mem op hlater)
      have hrestKeys : (ops.filterMap BalanceOperation.key).Nodup := by
        refine hkeys.sublist ?_
        exact (List.sublist_cons_self op ops).filterMap _
      obtain ⟨hbalance, hledger⟩ := ih hrestUser hrestKeys hrest
      rcases BalanceOperation.run_eq_ok hfirst with ⟨hknown, rfl⟩ | ⟨hnew, hposted⟩
      · have hskip : effective mid (op :: ops) = effective mid ops := by
          simp [effective, hknown]
        rw [hskip]
        exact ⟨hbalance, hledger⟩
      · have hsame : effective mid ops = effective db ops := by
          refine List.filter_congr fun later hlater => ?_
          rw [hposted.known]
          rintro hsome hequal
          obtain ⟨key, hkey⟩ := Option.isSome_iff_exists.mp hsome
          rw [List.filterMap_cons_some hkey, List.nodup_cons] at hkeys
          exact hkeys.1 (List.mem_filterMap.mpr ⟨later, hlater, hequal.symm.trans hkey⟩)
        have htake : effective db (op :: ops) = op :: effective db ops := by
          simp [effective, hnew]
        rw [hsame] at hbalance hledger
        rw [htake, List.map_cons, List.foldl_cons, List.flatMap_cons, hbalance, hledger,
          hposted.ledger, List.append_assoc]
        have hown := hposted.balance
        rw [huser op List.mem_cons_self] at hown
        exact ⟨by rw [hown], rfl⟩

/-- Two orders of a user's operations leave the same ledger amounts, and the same balance
exactly when the operations that open the wallet open it with the same balance. -/
theorem orders_agree_iff (hwallet : db.balance user = none)
    (huser : ∀ op ∈ ops, op.user = user) (hkeys : (ops.filterMap BalanceOperation.key).Nodup)
    (hperm : ops.Perm ops')
    (h₁ : runAll pyRepr ops db = .ok db₁) (h₂ : runAll pyRepr ops' db = .ok db₂) :
    (db₁.balance user = db₂.balance user ∧ db₁.ledgerAmounts.Perm db₂.ledgerAmounts) ↔
      opening db ops = opening db ops' := by
  have huser' : ∀ op ∈ ops', op.user = user := fun op hop => huser op (hperm.mem_iff.mpr hop)
  have hkeys' := (hperm.filterMap BalanceOperation.key).nodup_iff.mp hkeys
  obtain ⟨hbalance₁, hledger₁⟩ := runAll_eq_ok huser hkeys h₁
  obtain ⟨hbalance₂, hledger₂⟩ := runAll_eq_ok huser' hkeys' h₂
  have heffective : (effective db ops).Perm (effective db ops') := hperm.filter _
  have hledger : db₁.ledgerAmounts.Perm db₂.ledgerAmounts := by
    rw [hledger₁, hledger₂]
    exact (heffective.flatMap_right BalanceOperation.amounts).append_left _
  have hopening : ∀ order, opening db order =
      ((effective db order).map BalanceOperation.entry).head?.map Entry.opening := by
    intro order
    rw [opening, List.head?_map, Option.map_map]
    rfl
  rw [and_iff_left hledger, hbalance₁, hbalance₂, hwallet,
    foldl_post_eq_iff (heffective.map BalanceOperation.entry), hopening, hopening]

end Sequence

/-- User 7 deposits 50, and the payment is reported. -/
def mobileDeposit : Deposit where
  payload := sampleDepositRequest
  gateway := .dict [("ResponseCode", .str "0"), ("CheckoutRequestID", .str "ws_CO_1")]
  body := [("Body", .dict [("stkCallback",
    .dict [("CheckoutRequestID", .str "ws_CO_1"), ("ResultCode", .int 0)])])]
  callback :=
    { checkoutId := .str "ws_CO_1"
      resultCode := 0
      resultDesc := .null
      stkCallback := .dict [("CheckoutRequestID", .str "ws_CO_1"), ("ResultCode", .int 0)] }
  read := rfl
  own := rfl
  paid := rfl

/-- The bet comes first. -/
def betFirst : List BalanceOperation := [.betResult sampleEvent, .deposit mobileDeposit]

/-- The deposit comes first. -/
def depositFirst : List BalanceOperation := [.deposit mobileDeposit, .betResult sampleEvent]

/-- The bet first: the deposit comes on top of the opening balance. -/
theorem runAll_betFirst :
    ∃ db, runAll (fun _ => "") betFirst .empty = .ok db ∧ db.balance 7 = some 102500 := by
  have hexec : (runAll (fun _ => "") betFirst .empty).toOption.map (fun db => db.balance 7) =
      some (some 102500) := by decide +kernel
  obtain ⟨db, hdb, hbalance⟩ := Option.map_eq_some_iff.mp hexec
  exact ⟨db, toOption_eq_some_iff.mp hdb, hbalance⟩

/-- The deposit first: there is no opening balance. -/
theorem runAll_depositFirst :
    ∃ db, runAll (fun _ => "") depositFirst .empty = .ok db ∧ db.balance 7 = some 2500 := by
  have hexec : (runAll (fun _ => "") depositFirst .empty).toOption.map (fun db => db.balance 7) =
      some (some 2500) := by decide +kernel
  obtain ⟨db, hdb, hbalance⟩ := Option.map_eq_some_iff.mp hexec
  exact ⟨db, toOption_eq_some_iff.mp hdb, hbalance⟩

/-- The bet and the deposit of user 7, in either order. -/
theorem orders_agree_iff_sample :
    ∃ db₁ db₂ : Database,
      (db₁.balance 7 = db₂.balance 7 ∧ db₁.ledgerAmounts.Perm db₂.ledgerAmounts) ↔
        opening .empty betFirst = opening .empty depositFirst := by
  obtain ⟨db₁, h₁, -⟩ := runAll_betFirst
  obtain ⟨db₂, h₂, -⟩ := runAll_depositFirst
  exact ⟨db₁, db₂, orders_agree_iff rfl (by decide) (by decide) (.swap _ _ _) h₁ h₂⟩

/-- With the bet first the wallet ends at 102500, with the deposit first at 2500. -/
theorem orders_disagree :
    ¬ ∀ (pyRepr : Json → String) (ops ops' : List BalanceOperation) (db db₁ db₂ : Database) (user : Uuid),
      db.balance user = none → (∀ op ∈ ops, op.user = user) →
      (ops.filterMap BalanceOperation.key).Nodup → (ops.filterMap BalanceOperation.betId).Nodup →
      ops.Perm ops' → runAll pyRepr ops db = .ok db₁ → runAll pyRepr ops' db = .ok db₂ →
      db₁.balance user = db₂.balance user ∧ db₁.ledgerAmounts.Perm db₂.ledgerAmounts := by
  intro hall
  obtain ⟨db₁, h₁, hbet⟩ := runAll_betFirst
  obtain ⟨db₂, h₂, hdeposit⟩ := runAll_depositFirst
  have hsame := (hall _ betFirst depositFirst .empty db₁ db₂ 7 rfl (by decide) (by decide)
    (by decide) (.swap _ _ _) h₁ h₂).1
  rw [hbet, hdeposit] at hsame
  exact absurd hsame (by decide)

end Settlement
end BettingPlatform
