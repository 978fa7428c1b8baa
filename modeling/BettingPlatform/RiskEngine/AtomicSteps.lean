import BettingPlatform.Foundations.Runs
import BettingPlatform.Foundations.Interleaving
import BettingPlatform.RiskEngine.Engine

/-!
# Concurrent evaluations, one atomic step at a time

Any number of threads may be inside `evaluate_json`.  What they share are the atomic
balance cells and the exposure map, so a call is a sequence of atomic steps: the
lookup of the cell, the load, each attempt of the compare-exchange loop, the exposure
check-and-add under its mutex, and the refund.  The checks between them read only the
call's own variables and belong to the step before or after.

Main results:

- Theorem `accounting_step`: one atomic step of one call preserves the accounting.
- Theorem `accounting_of_reachable`: in every reachable state each balance is the seed
  less what is debited and each exposure what is reserved, within their bounds.
- Theorem `reachable_evaluateJson`: a call that runs alone decides as `evaluateJson`.
-/

namespace BettingPlatform
namespace RiskEngine

open Runs

variable {ι : Type}

/-! ## Calls and their steps -/

/-- An engine as it is set up before the first evaluation: `cap` is
`single_account_exposure_cap_cents_`, `seed` the balances stored by `set_balance`. -/
structure Seeding where
  cap : Int
  seed : Bytes → Option Int
  cap_pos : 0 < cap
  cap_lt : cap < 2 ^ 63
  seed_nonneg : ∀ {account balance}, seed account = some balance → 0 ≤ balance
  seed_lt : ∀ {account balance}, seed account = some balance → balance < 2 ^ 63

/-- The accounts of an engine that has evaluated nothing. -/
def Seeding.accounts (engine : Seeding) : Accounts where
  balances := engine.seed
  exposure := fun _ => 0

/-- Where one call of `evaluate_json` stands, with the variables it still uses. -/
inductive Call
  /-- Not started. -/
  | idle
  /-- About to look up the account's balance cell. -/
  | find (bet : BetSubmitted) (now : Int)
  /-- About to load the balance. -/
  | load (bet : BetSubmitted) (now : Int)
  /-- At the top of the compare-exchange loop, with the last value observed. -/
  | compare (bet : BetSubmitted) (now current : Int)
  /-- Debited; about to reserve the exposure. -/
  | reserve (bet : BetSubmitted) (now remaining : Int)
  /-- The exposure did not fit; about to credit the stake back. -/
  | refund (bet : BetSubmitted) (now remaining : Int)
  /-- Returned; the bet is kept when the call got as far as the accounts. -/
  | returned (bet : Option BetSubmitted) (result : BetResult)
deriving DecidableEq

/-- What the scheduler decides about the call that moves. -/
inductive Move
  /-- The call starts, at this decision time. -/
  | start (now : Int)
  /-- The call takes its next atomic step. -/
  | atomic
  /-- The call's `compare_exchange_weak` fails although the values agree. -/
  | spurious

/-- One atomic step of the call for `payload i`. -/
def advance [FieldOrder] (cap : Int) (payload : ι → Bytes) (i : ι) (s : Accounts) :
    Call → Move → Option (Accounts × Call)
  | .idle, .start now =>
      match checkPayload now (payload i) with
      | .error result => some (s, .returned none result)
      | .ok bet => some (s, .find bet now)
  | .find bet now, .atomic =>
      match s.balances bet.accountId with
      | none => some (s, .returned bet (.accountNotFound bet now))
      | some _ => some (s, .load bet now)
  | .load bet now, .atomic =>
      (s.balances bet.accountId).map fun current => (s, .compare bet now current)
  | .compare bet now current, .atomic =>
      if current < bet.stakeCents then
        some (s, .returned bet (.insufficientFunds bet now current))
      else
        (s.balances bet.accountId).map fun balance =>
          if balance = current then
            (s.setBalance bet.accountId (current - bet.stakeCents),
              .reserve bet now (current - bet.stakeCents))
          else (s, .compare bet now balance)
  | .compare bet now current, .spurious =>
      if current < bet.stakeCents then none
      else (s.balances bet.accountId).map fun balance => (s, .compare bet now balance)
  | .reserve bet now remaining, .atomic =>
      match tryReserveExposure cap s bet.accountId bet.potentialPayoutCents with
      | none => some (s, .refund bet now remaining)
      | some (reserved, exposure) =>
          some (reserved, .returned bet (.acceptance bet now exposure remaining))
  | .refund bet now remaining, .atomic =>
      some (creditBalance s bet.accountId bet.stakeCents,
        .returned bet (.saecExceeded bet now remaining))
  | _, _ => none

/-- The engine with all its calls. -/
abbrev Threads (ι : Type) := Interleaved Accounts ι Call

/-- No call has started. -/
def Threads.start (engine : Seeding) : Threads ι where
  shared := engine.accounts
  calls := fun _ => .idle

/-- The engine's global step. -/
abbrev threadStep [FieldOrder] [DecidableEq ι] (cap : Int) (payload : ι → Bytes) :
    Threads ι → ι × Move → Option (Threads ι) :=
  interleave (advance cap payload)

/-! ## What a call has taken -/

/-- The stake the call has debited from an account and not refunded. -/
def Call.debited (account : Bytes) : Call → Int
  | .reserve bet _ _ | .refund bet _ _ => if bet.accountId = account then bet.stakeCents else 0
  | .returned (some bet) result =>
      if result.accepted ∧ bet.accountId = account then bet.stakeCents else 0
  | _ => 0

/-- The payout the call has reserved on an account. -/
def Call.reserved (account : Bytes) : Call → Int
  | .returned (some bet) result =>
      if result.accepted ∧ bet.accountId = account then bet.potentialPayoutCents else 0
  | _ => 0

/-- The bet the call works on, or decided. -/
def Call.bet? : Call → Option BetSubmitted
  | .idle => none
  | .find bet _ | .load bet _ | .compare bet _ _ | .reserve bet _ _ | .refund bet _ _ => bet
  | .returned bet _ => bet

/-- The result of a call that has returned. -/
def Call.result? : Call → Option BetResult
  | .returned _ result => result
  | _ => none

/-- The call works on the bet its payload holds, and a result names that bet. -/
structure Call.Faithful [FieldOrder] (payload : Bytes) (call : Call) : Prop where
  parsed : ∀ bet ∈ call.bet?, parseBetJson payload = .ok bet
  result : ∀ bet result, call = .returned bet result → result.accepted →
    ∃ b ∈ bet, result.accountId = b.accountId ∧ result.stakeCents = b.stakeCents

/-- The bet of a call is one the parser has checked. -/
theorem Call.Faithful.valid [FieldOrder] {payload : Bytes} {call : Call}
    (hcall : call.Faithful payload) :
    ∀ bet ∈ call.bet?, bet.Valid :=
  fun bet hbet => parseBetJson_valid (hcall.parsed bet hbet)

/-- A call never holds less than nothing. -/
theorem Call.debited_nonneg [FieldOrder] {payload : Bytes} {call : Call}
    (hcall : call.Faithful payload) (account : Bytes) : 0 ≤ call.debited account := by
  have hvalid := hcall.valid
  unfold Call.debited
  split
  all_goals
    try split
    all_goals first | exact Int.le_of_lt (hvalid _ rfl).stake_pos | exact Int.le_refl 0

/-! ## What one step does -/

/-- A step that leaves the accounts and what the call has taken as they are. -/
structure Local [FieldOrder] (payload : Bytes) (s s' : Accounts) (call call' : Call) : Prop where
  accounts : s' = s
  debited : ∀ account, call'.debited account = call.debited account
  reserved : ∀ account, call'.reserved account = call.reserved account
  faithful : call.Faithful payload → call'.Faithful payload

section Phases

variable [FieldOrder] {cap : Int} {payload : ι → Bytes} {i : ι} {s s' : Accounts} {call' : Call}
  {move : Move} {bet : BetSubmitted} {now current remaining : Int}

/-- The check of the payload touches no account. -/
theorem local_of_idle (hstep : advance cap payload i s .idle move = some (s', call')) :
    Local (payload i) s s' .idle call' := by
  cases move with
  | start now =>
      simp only [advance] at hstep
      split at hstep
      · rename_i result hcheck
        obtain ⟨rfl, rfl⟩ : s = s' ∧ _ = call' := by simpa using hstep
        have hrejected := checkPayload_error_accepted hcheck
        exact ⟨rfl, fun _ => rfl, fun _ => rfl, fun _ =>
          ⟨by simp [Call.bet?], by simp [hrejected]⟩⟩
      · rename_i bet hcheck
        obtain ⟨rfl, rfl⟩ : s = s' ∧ _ = call' := by simpa using hstep
        have hparsed := (checkPayload_eq_ok_iff.mp hcheck).1
        exact ⟨rfl, fun _ => rfl, fun _ => rfl, fun _ =>
          ⟨by simpa [Call.bet?] using hparsed, by simp⟩⟩
  | atomic => contradiction
  | spurious => contradiction

/-- Neither does the search for the balance cell. -/
theorem local_of_find (hstep : advance cap payload i s (.find bet now) move = some (s', call')) :
    Local (payload i) s s' (.find bet now) call' := by
  cases move with
  | atomic =>
      simp only [advance] at hstep
      split at hstep
      · obtain ⟨rfl, rfl⟩ : s = s' ∧ _ = call' := by simpa using hstep
        exact ⟨rfl, by simp [Call.debited, BetResult.accountNotFound, BetResult.ofBet],
          by simp [Call.reserved, BetResult.accountNotFound, BetResult.ofBet],
          fun hcall => ⟨hcall.parsed, by simp [BetResult.accountNotFound, BetResult.ofBet]⟩⟩
      · obtain ⟨rfl, rfl⟩ : s = s' ∧ _ = call' := by simpa using hstep
        exact ⟨rfl, fun _ => rfl, fun _ => rfl, fun hcall => ⟨hcall.parsed, by simp⟩⟩
  | start now => contradiction
  | spurious => contradiction

/-- Neither does the load of the balance. -/
theorem local_of_load (hstep : advance cap payload i s (.load bet now) move = some (s', call')) :
    Local (payload i) s s' (.load bet now) call' := by
  cases move with
  | atomic =>
      simp only [advance] at hstep
      obtain ⟨current, -, hnext⟩ := Option.map_eq_some_iff.mp hstep
      obtain ⟨rfl, rfl⟩ := Prod.mk.inj hnext
      exact ⟨rfl, fun _ => rfl, fun _ => rfl, fun hcall => ⟨hcall.parsed, by simp⟩⟩
  | start now => contradiction
  | spurious => contradiction

/-- An exchange that fails, or is not tried, touches no account; one that succeeds debits what
the observed balance covers. -/
theorem compare_cases
    (hstep : advance cap payload i s (.compare bet now current) move = some (s', call')) :
    Local (payload i) s s' (.compare bet now current) call' ∨
      bet.stakeCents ≤ current ∧ s.balances bet.accountId = some current ∧
        s' = s.setBalance bet.accountId (current - bet.stakeCents) ∧
        call' = .reserve bet now (current - bet.stakeCents) := by
  cases move with
  | atomic =>
      simp only [advance] at hstep
      split at hstep
      · left
        obtain ⟨rfl, rfl⟩ : s = s' ∧ _ = call' := by simpa using hstep
        exact ⟨rfl, by simp [Call.debited, BetResult.insufficientFunds, BetResult.ofBet],
          by simp [Call.reserved, BetResult.insufficientFunds, BetResult.ofBet],
          fun hcall => ⟨hcall.parsed, by simp [BetResult.insufficientFunds, BetResult.ofBet]⟩⟩
      · rename_i hcovered
        obtain ⟨balance, hbalance, hnext⟩ := Option.map_eq_some_iff.mp hstep
        split at hnext
        · rename_i hequal
          subst hequal
          obtain ⟨rfl, rfl⟩ := Prod.mk.inj hnext
          exact Or.inr ⟨by omega, hbalance, rfl, rfl⟩
        · left
          obtain ⟨rfl, rfl⟩ := Prod.mk.inj hnext
          exact ⟨rfl, fun _ => rfl, fun _ => rfl, fun hcall => ⟨hcall.parsed, by simp⟩⟩
  | spurious =>
      left
      simp only [advance] at hstep
      split at hstep
      · contradiction
      · obtain ⟨balance, -, hnext⟩ := Option.map_eq_some_iff.mp hstep
        obtain ⟨rfl, rfl⟩ := Prod.mk.inj hnext
        exact ⟨rfl, fun _ => rfl, fun _ => rfl, fun hcall => ⟨hcall.parsed, by simp⟩⟩
  | start now => contradiction

/-- A reservation fits under the cap, or touches no account. -/
theorem reserve_cases
    (hstep : advance cap payload i s (.reserve bet now remaining) move = some (s', call')) :
    Local (payload i) s s' (.reserve bet now remaining) call' ∨
      s.exposure bet.accountId + bet.potentialPayoutCents ≤ cap ∧
        s' = s.setExposure bet.accountId
          (s.exposure bet.accountId + bet.potentialPayoutCents) ∧
        call' = .returned bet (.acceptance bet now
          (s.exposure bet.accountId + bet.potentialPayoutCents) remaining) := by
  cases move with
  | atomic =>
      simp only [advance, tryReserveExposure] at hstep
      split at hstep
      · left
        obtain ⟨rfl, rfl⟩ : s = s' ∧ _ = call' := by simpa using hstep
        exact ⟨rfl, fun _ => rfl, fun _ => rfl, fun hcall => ⟨hcall.parsed, by simp⟩⟩
      · rename_i reserved exposure hreserve
        split at hreserve
        · contradiction
        · rename_i hfits
          obtain ⟨rfl, rfl⟩ := Prod.mk.inj (Option.some.inj hreserve)
          obtain ⟨rfl, rfl⟩ := Prod.mk.inj (Option.some.inj hstep)
          exact Or.inr ⟨by omega, rfl, rfl⟩
  | start now => contradiction
  | spurious => contradiction

/-- A refund credits the stake. -/
theorem refund_eq
    (hstep : advance cap payload i s (.refund bet now remaining) move = some (s', call')) :
    s' = creditBalance s bet.accountId bet.stakeCents ∧
      call' = .returned bet (.saecExceeded bet now remaining) := by
  cases move with
  | atomic =>
      obtain ⟨rfl, rfl⟩ := Prod.mk.inj (Option.some.inj hstep)
      exact ⟨rfl, rfl⟩
  | start now => contradiction
  | spurious => contradiction

end Phases

/-- Everything an atomic step can do to the accounts: nothing, a debit the observed
balance covers, a reservation that fits under the cap, or a refund. -/
theorem advance_cases [FieldOrder] {cap : Int} {payload : ι → Bytes} {i : ι} {s s' : Accounts}
    {call call' : Call} {move : Move}
    (hstep : advance cap payload i s call move = some (s', call')) :
    Local (payload i) s s' call call' ∨
    (∃ bet now current, call = .compare bet now current ∧ bet.stakeCents ≤ current ∧
      s.balances bet.accountId = some current ∧
      s' = s.setBalance bet.accountId (current - bet.stakeCents) ∧
      call' = .reserve bet now (current - bet.stakeCents)) ∨
    (∃ bet now remaining, call = .reserve bet now remaining ∧
      s.exposure bet.accountId + bet.potentialPayoutCents ≤ cap ∧
      s' = s.setExposure bet.accountId
        (s.exposure bet.accountId + bet.potentialPayoutCents) ∧
      call' = .returned bet (.acceptance bet now
        (s.exposure bet.accountId + bet.potentialPayoutCents) remaining)) ∨
    (∃ bet now remaining, call = .refund bet now remaining ∧
      s' = creditBalance s bet.accountId bet.stakeCents ∧
      call' = .returned bet (.saecExceeded bet now remaining)) := by
  cases call with
  | idle => exact .inl (local_of_idle hstep)
  | find bet now => exact .inl (local_of_find hstep)
  | load bet now => exact .inl (local_of_load hstep)
  | compare bet now current =>
      rcases compare_cases hstep with hlocal | hdebit
      · exact .inl hlocal
      · exact .inr (.inl ⟨bet, now, current, rfl, hdebit⟩)
  | reserve bet now remaining =>
      rcases reserve_cases hstep with hlocal | hreserve
      · exact .inl hlocal
      · exact .inr (.inr (.inl ⟨bet, now, remaining, rfl, hreserve⟩))
  | refund bet now remaining =>
      exact .inr (.inr (.inr ⟨bet, now, remaining, rfl, refund_eq hstep⟩))
  | returned bet result => cases move <;> contradiction

/-- A step keeps a call on its payload's bet. -/
theorem Call.Faithful.advance [FieldOrder] {cap : Int} {payload : ι → Bytes} {i : ι}
    {s s' : Accounts} {call call' : Call} {move : Move} (hcall : call.Faithful (payload i))
    (hstep : advance cap payload i s call move = some (s', call')) :
    call'.Faithful (payload i) := by
  obtain hlocal | ⟨bet, now, current, rfl, -, -, -, rfl⟩ | ⟨bet, now, remaining, rfl, -, -, rfl⟩ |
    ⟨bet, now, remaining, rfl, -, rfl⟩ := advance_cases hstep
  · exact hlocal.faithful hcall
  · exact ⟨hcall.parsed, by simp⟩
  · refine ⟨hcall.parsed, ?_⟩
    rintro _ _ ⟨rfl, rfl⟩ -
    exact ⟨bet, rfl, rfl, rfl⟩
  · refine ⟨hcall.parsed, ?_⟩
    rintro _ _ ⟨rfl, rfl⟩ -
    exact ⟨bet, rfl, rfl, rfl⟩

section Effect

variable {cap : Int} {payload : ι → Bytes} {i : ι} {s s' : Accounts} {call call' : Call}
  {move : Move}

/-- A refund that does not wrap around adds the stake to the account's balance. -/
theorem creditBalance_balances {account : Bytes} {stake : Int}
    (hroom : ∀ balance, s.balances account = some balance → IsInt64 (balance + stake))
    (account' : Bytes) :
    (creditBalance s account stake).balances account' =
      (s.balances account').map fun balance =>
        balance + if account = account' then stake else 0 := by
  unfold creditBalance
  split
  · rename_i hnone
    by_cases hown : account = account'
    · subst hown
      simp [hnone]
    · simp [hown]
  · rename_i balance hbalance
    by_cases hown : account = account'
    · subst hown
      have hnowrap : fetchAdd balance stake = balance + stake := by
        obtain ⟨hlow, hhigh⟩ := hroom balance hbalance
        unfold fetchAdd
        rw [Int.bmod_def]
        omega
      simp [Accounts.setBalance, hbalance, hnowrap]
    · simp [Accounts.setBalance, hown, Function.update_of_ne (Ne.symm hown)]

theorem creditBalance_exposure {account : Bytes} {stake : Int} :
    (creditBalance s account stake).exposure = s.exposure := by
  unfold creditBalance
  split <;> rfl

/-- A step changes a balance by what the call debits or refunds in it. -/
theorem advance_balances [FieldOrder]
    (hroom : ∀ account balance, s.balances account = some balance →
      IsInt64 (balance + call.debited account))
    (hstep : advance cap payload i s call move = some (s', call')) (account : Bytes) :
    s'.balances account = (s.balances account).map fun balance =>
      balance - (call'.debited account - call.debited account) := by
  obtain hlocal | ⟨bet, now, current, rfl, -, hcurrent, rfl, rfl⟩ |
    ⟨bet, now, remaining, rfl, -, rfl, rfl⟩ | ⟨bet, now, remaining, rfl, rfl, rfl⟩ :=
    advance_cases hstep
  · simp [hlocal.accounts, hlocal.debited]
  · -- the compare-exchange saw the balance it writes over, so nobody's debit is lost
    by_cases hown : bet.accountId = account
    · subst hown
      simp [Accounts.setBalance, Call.debited, hcurrent]
    · simp [Accounts.setBalance, Call.debited, hown, Function.update_of_ne (Ne.symm hown)]
  · simp [Call.debited, BetResult.acceptance, BetResult.ofBet]
  · rw [creditBalance_balances fun balance hbalance => by
      simpa [Call.debited] using hroom bet.accountId balance hbalance]
    simp [Call.debited, BetResult.saecExceeded, BetResult.ofBet]

/-- A step leaves no balance negative. -/
theorem advance_balance_nonneg [FieldOrder]
    (hroom : ∀ account balance, s.balances account = some balance →
      0 ≤ balance + call.debited account ∧ balance + call.debited account < 2 ^ 63)
    (hnonneg : ∀ account balance, s.balances account = some balance → 0 ≤ balance)
    (hstep : advance cap payload i s call move = some (s', call')) {account : Bytes}
    {balance : Int} (hbalance : s'.balances account = some balance) : 0 ≤ balance := by
  obtain hlocal | ⟨bet, now, current, rfl, hcovered, -, rfl, rfl⟩ |
    ⟨bet, now, remaining, rfl, -, rfl, rfl⟩ | ⟨bet, now, remaining, rfl, rfl, rfl⟩ :=
    advance_cases hstep
  · exact hnonneg account balance (hlocal.accounts ▸ hbalance)
  · by_cases hown : bet.accountId = account
    · subst hown
      have hvalue : current - bet.stakeCents = balance := by
        simpa [Accounts.setBalance] using hbalance
      omega
    · refine hnonneg account balance ?_
      simpa [Accounts.setBalance, Function.update_of_ne (Ne.symm hown)] using hbalance
  · exact hnonneg account balance hbalance
  · have hfits : ∀ balance, s.balances bet.accountId = some balance →
        IsInt64 (balance + bet.stakeCents) := by
      intro balance hbalance
      obtain ⟨hlow, hhigh⟩ : 0 ≤ balance + bet.stakeCents ∧ balance + bet.stakeCents < 2 ^ 63 := by
        simpa [Call.debited] using hroom bet.accountId balance hbalance
      exact ⟨by omega, hhigh⟩
    rw [creditBalance_balances hfits, Option.map_eq_some_iff] at hbalance
    obtain ⟨old, hold, rfl⟩ := hbalance
    simpa [Call.debited] using (hroom account old hold).1

/-- A step changes an exposure by what the call reserves on it. -/
theorem advance_exposure [FieldOrder] (hstep : advance cap payload i s call move = some (s', call'))
    (account : Bytes) :
    s'.exposure account = s.exposure account + (call'.reserved account - call.reserved account) := by
  obtain hlocal | ⟨bet, now, current, rfl, -, -, rfl, rfl⟩ |
    ⟨bet, now, remaining, rfl, -, rfl, rfl⟩ | ⟨bet, now, remaining, rfl, rfl, rfl⟩ :=
    advance_cases hstep
  · simp [hlocal.accounts, hlocal.reserved]
  · simp [Call.reserved]
  · by_cases hown : bet.accountId = account
    · subst hown
      simp [Accounts.setExposure, Call.reserved, BetResult.acceptance, BetResult.ofBet]
    · simp [Accounts.setExposure, Call.reserved, BetResult.acceptance, BetResult.ofBet, hown,
        Function.update_of_ne (Ne.symm hown)]
  · simp [creditBalance_exposure, Call.reserved, BetResult.saecExceeded, BetResult.ofBet]

/-- A step takes no exposure over the cap. -/
theorem advance_exposure_le [FieldOrder] (hle : ∀ account, s.exposure account ≤ cap)
    (hstep : advance cap payload i s call move = some (s', call')) (account : Bytes) :
    s'.exposure account ≤ cap := by
  obtain hlocal | ⟨bet, now, current, rfl, -, -, rfl, rfl⟩ |
    ⟨bet, now, remaining, rfl, hfits, rfl, rfl⟩ | ⟨bet, now, remaining, rfl, rfl, rfl⟩ :=
    advance_cases hstep
  · exact hlocal.accounts ▸ hle account
  · exact hle account
  · by_cases hown : bet.accountId = account
    · subst hown
      simpa [Accounts.setExposure] using hfits
    · simpa [Accounts.setExposure, Function.update_of_ne (Ne.symm hown)] using hle account
  · simpa [creditBalance_exposure] using hle account

end Effect

/-! ## The accounting of all calls -/

/-- Every balance is the seed less what calls have debited and not refunded, every
open exposure what calls have reserved, and both stay within their bounds. -/
structure Accounting [FieldOrder] [Fintype ι] (engine : Seeding) (payload : ι → Bytes)
    (s : Threads ι) :
    Prop where
  faithful : ∀ i, (s.calls i).Faithful (payload i)
  balance : ∀ account, s.shared.balances account =
    (engine.seed account).map fun seed => seed - ∑ i, (s.calls i).debited account
  balance_nonneg : ∀ account balance, s.shared.balances account = some balance → 0 ≤ balance
  exposure : ∀ account, s.shared.exposure account = ∑ i, (s.calls i).reserved account
  exposure_le : ∀ account, s.shared.exposure account ≤ engine.cap

/-- Before the first step no call holds anything. -/
theorem accounting_start [FieldOrder] [Fintype ι] (engine : Seeding) (payload : ι → Bytes) :
    Accounting engine payload (Threads.start engine) where
  faithful := fun _ => ⟨by simp [Threads.start, Call.bet?], by simp [Threads.start]⟩
  balance := by simp [Threads.start, Seeding.accounts, Call.debited]
  balance_nonneg := fun _ _ h => engine.seed_nonneg h
  exposure := by simp [Threads.start, Seeding.accounts, Call.reserved]
  exposure_le := fun _ => Int.le_of_lt engine.cap_pos

/-- What one call has debited was part of the seed, so refunding it cannot wrap around. -/
theorem Accounting.refund_room [FieldOrder] [Fintype ι] {engine : Seeding} {payload : ι → Bytes}
    {s : Threads ι} (hs : Accounting engine payload s) (i : ι) (account : Bytes) (balance : Int)
    (hbalance : s.shared.balances account = some balance) :
    0 ≤ balance + (s.calls i).debited account ∧
      balance + (s.calls i).debited account < 2 ^ 63 := by
  have hnonneg := hs.balance_nonneg account balance hbalance
  have hdebited := Call.debited_nonneg (hs.faithful i) account
  rw [hs.balance account, Option.map_eq_some_iff] at hbalance
  obtain ⟨seed, hseed, hvalue⟩ := hbalance
  have hle : (s.calls i).debited account ≤ ∑ j, (s.calls j).debited account :=
    le_sum_calls (fun j => Call.debited_nonneg (hs.faithful j) account) i
  have hlt := engine.seed_lt hseed
  omega

/-- A step of one call preserves the accounting. -/
theorem accounting_step [FieldOrder] [Fintype ι] [DecidableEq ι] {engine : Seeding}
    {payload : ι → Bytes} {s t : Threads ι} {label : ι × Move} (hs : Accounting engine payload s)
    (hstep : threadStep engine.cap payload s label = some t) : Accounting engine payload t := by
  obtain ⟨i, move⟩ := label
  obtain ⟨accounts, call, hadvance, rfl⟩ := interleave_eq_some_iff.mp hstep
  have hroom := hs.refund_room i
  refine ⟨(forall_update_iff hs.faithful).mpr ((hs.faithful i).advance hadvance), ?_,
    fun _ _ => advance_balance_nonneg hroom hs.balance_nonneg hadvance, ?_,
    advance_exposure_le hs.exposure_le hadvance⟩
  · intro account
    have hfits : ∀ account balance, s.shared.balances account = some balance →
        IsInt64 (balance + (s.calls i).debited account) := by
      intro account balance hbalance
      obtain ⟨hlow, hhigh⟩ := hroom account balance hbalance
      exact ⟨by omega, hhigh⟩
    rw [advance_balances hfits hadvance, hs.balance, Option.map_map,
      sum_update (Call.debited account)]
    congr 1
    funext seed
    simp only [Function.comp_apply]
    omega
  · intro account
    rw [advance_exposure hadvance, hs.exposure, sum_update (Call.reserved account)]

/-- In every reachable state the accounting holds. -/
theorem accounting_of_reachable [FieldOrder] [Fintype ι] [DecidableEq ι] {engine : Seeding}
    {payload : ι → Bytes} {s : Threads ι}
    (hrun : Reachable (threadStep engine.cap payload) (Threads.start engine) s) :
    Accounting engine payload s :=
  hrun.invariant (accounting_start engine payload) fun hs _ hstep => accounting_step hs hstep

/-! ## Accepted results -/

/-- The call has started and not returned. -/
def Call.InFlight (call : Call) : Prop :=
  call ≠ .idle ∧ call.result? = none

/-- The stake of an ACCEPTED result on an account. -/
def Call.acceptedStake (account : Bytes) (call : Call) : Int :=
  match call.result? with
  | some result => if result.accepted ∧ result.accountId = account then result.stakeCents else 0
  | none => 0

/-- The payout of the payload that got an ACCEPTED result on an account. -/
def Call.acceptedPayout [FieldOrder] (account payload : Bytes) (call : Call) : Int :=
  match call.result?, parseBetJson payload with
  | some result, .ok bet =>
      if result.accepted ∧ result.accountId = account then bet.potentialPayoutCents else 0
  | _, _ => 0

/-- A call that is not in flight has taken exactly what its result accepted. -/
theorem Call.Faithful.accepted_of_not_inFlight [FieldOrder] {payload : Bytes} {call : Call}
    (hcall : call.Faithful payload) (hdone : ¬ call.InFlight) (account : Bytes) :
    call.debited account = call.acceptedStake account ∧
      call.reserved account = call.acceptedPayout account payload := by
  cases call with
  | idle => exact ⟨rfl, rfl⟩
  | returned bet result =>
      have hresult := hcall.result bet result rfl
      cases bet with
      | none =>
          have hrejected : result.accepted = false := by
            by_contra haccepted
            simpa using hresult (by simpa using haccepted)
          simp [Call.debited, Call.reserved, Call.acceptedStake, Call.acceptedPayout,
            Call.result?, hrejected]
          split <;> simp_all
      | some bet =>
          have hparsed := hcall.parsed bet rfl
          by_cases haccepted : result.accepted
          · obtain ⟨_, ⟨rfl⟩, haccount, hstake⟩ := hresult haccepted
            simp [Call.debited, Call.reserved, Call.acceptedStake, Call.acceptedPayout,
              Call.result?, hparsed, haccepted, haccount, hstake]
          · simp [Call.debited, Call.reserved, Call.acceptedStake, Call.acceptedPayout,
              Call.result?, hparsed, haccepted]
  | find _ _ => exact absurd ⟨by simp, rfl⟩ hdone
  | load _ _ => exact absurd ⟨by simp, rfl⟩ hdone
  | compare _ _ _ => exact absurd ⟨by simp, rfl⟩ hdone
  | reserve _ _ _ => exact absurd ⟨by simp, rfl⟩ hdone
  | refund _ _ _ => exact absurd ⟨by simp, rfl⟩ hdone

/-- In every reachable state, each balance is the seed less the stakes debited and not
refunded and is not negative, each open exposure is what evaluations reserved and is
within the cap; and when no call is in flight these are the stakes and the payouts of
the ACCEPTED results. -/
theorem accounts_agree_with_calls [FieldOrder] [Fintype ι] [DecidableEq ι] {engine : Seeding}
    {payload : ι → Bytes} {s : Threads ι}
    (hrun : Reachable (threadStep engine.cap payload) (Threads.start engine) s) (account : Bytes) :
    (s.shared.balances account =
        (engine.seed account).map fun seed => seed - ∑ i, (s.calls i).debited account) ∧
      (∀ balance, s.shared.balances account = some balance → 0 ≤ balance) ∧
      s.shared.exposure account = ∑ i, (s.calls i).reserved account ∧
      s.shared.exposure account ≤ engine.cap ∧
      ((∀ i, ¬ (s.calls i).InFlight) →
        (s.shared.balances account =
          (engine.seed account).map fun seed => seed - ∑ i, (s.calls i).acceptedStake account) ∧
        s.shared.exposure account =
          ∑ i, (s.calls i).acceptedPayout account (payload i)) := by
  have hs := accounting_of_reachable hrun
  refine ⟨hs.balance account, hs.balance_nonneg account, hs.exposure account,
    hs.exposure_le account, fun hdone => ?_⟩
  have haccepted : ∀ i, _ := fun i => (hs.faithful i).accepted_of_not_inFlight (hdone i) account
  constructor
  · rw [hs.balance account, Finset.sum_congr rfl fun i _ => (haccepted i).1]
  · rw [hs.exposure account, Finset.sum_congr rfl fun i _ => (haccepted i).2]

/-- A payload that stakes 100 of account `a` for a payout of 200. -/
def samplePayload : Bytes :=
  utf8 "\x7b\"event_id\":\"e\",\"bet_id\":\"b\",\"account_id\":\"a\",\"idempotency_key\":\"k\"," ++
  utf8 "\"match_id\":\"m\",\"market_id\":\"w\",\"selection_id\":\"s\",\"odds\":\"2.0000\"," ++
  utf8 "\"stake_cents\":100,\"potential_payout_cents\":200,\"bet_timestamp_ms\":1000\x7d"

/-- The bet of the sample payload. -/
def sampleBet : BetSubmitted where
  eventId := utf8 "e"
  betId := utf8 "b"
  accountId := utf8 "a"
  idempotencyKey := utf8 "k"
  matchId := utf8 "m"
  marketId := utf8 "w"
  selectionId := utf8 "s"
  odds := utf8 "2.0000"
  stakeCents := 100
  potentialPayoutCents := 200
  betTimestampMs := 1000

/-- The payload is read as the bet. -/
theorem parseBetJson_samplePayload [order : FieldOrder] :
    parseBetJson samplePayload = .ok sampleBet := by
  have hread : @parseBetJson insertionOrder samplePayload = .ok sampleBet := by
    rw [samplePayload, utf8_ofList, utf8_ofList, utf8_ofList]
    decide +kernel
  exact parseBetJson_of_order insertionOrder order hread

/-- An engine whose account `a` holds 150. -/
def sampleEngine : Seeding where
  cap := 1000
  seed := fun account => if account = utf8 "a" then some 150 else none
  cap_pos := by decide
  cap_lt := by decide
  seed_nonneg := by
    intro account balance h
    split at h <;> simp_all
    omega
  seed_lt := by
    intro account balance h
    split at h <;> simp_all
    omega

/-- Two calls load the balance before either debits it; the one whose compare-exchange
comes second observes the debit of the other and is rejected. -/
def sampleSchedule : List (Fin 2 × Move) :=
  [(0, .start 1000), (1, .start 1000), (0, .atomic), (1, .atomic), (0, .atomic), (1, .atomic),
    (0, .atomic), (1, .atomic), (1, .atomic), (0, .atomic)]

section TwoCalls

attribute [local instance] insertionOrder

/-- After that schedule the account holds 50, with 200 of open exposure. -/
theorem accounts_agree_with_calls_twoCalls :
    ∃ s, Reachable (threadStep sampleEngine.cap fun _ : Fin 2 => samplePayload)
        (Threads.start sampleEngine) s ∧
      s.shared.balances (utf8 "a") = some 50 ∧ s.shared.exposure (utf8 "a") = 200 ∧
      50 = 150 - ∑ i, (s.calls i).debited (utf8 "a") ∧ 200 ≤ sampleEngine.cap := by
  have hexec : (sampleSchedule.foldlM (threadStep sampleEngine.cap fun _ => samplePayload)
      (Threads.start sampleEngine)).map
        (fun s => (s.shared.balances (utf8 "a"), s.shared.exposure (utf8 "a"))) =
      some (some 50, 200) := by
    rw [samplePayload, utf8_ofList, utf8_ofList, utf8_ofList]
    decide +kernel
  obtain ⟨s, hs, hvalues⟩ := Option.map_eq_some_iff.mp hexec
  obtain ⟨hbalance, hexposure⟩ := Prod.mk.inj hvalues
  have hrun := Reaches.of_foldlM hs
  have hagree := accounts_agree_with_calls hrun (utf8 "a")
  refine ⟨s, hrun, hbalance, hexposure, ?_, hexposure ▸ hagree.2.2.2.1⟩
  have hseed : sampleEngine.seed (utf8 "a") = some 150 := by decide
  have hvalue := hagree.1
  rw [hbalance, hseed, Option.map_some, Option.some.injEq] at hvalue
  exact hvalue

end TwoCalls

/-! ## A call that runs alone -/

section Alone

variable [DecidableEq ι] {cap : Int} {payload : ι → Bytes} {s : Threads ι} {i : ι}

/-- The state in which only call `i` has moved. -/
def movedTo (s : Threads ι) (i : ι) (accounts : Accounts) (call : Call) : Threads ι where
  shared := accounts
  calls := Function.update s.calls i call

/-- The runs in which only call `i` moves. -/
abbrev Alone [FieldOrder] (cap : Int) (payload : ι → Bytes) (i : ι) :
    Threads ι → Threads ι → Prop :=
  Reaches (threadStep cap payload) fun _ label => label.1 = i

/-- A further step of the same call keeps the run one of that call alone. -/
theorem Alone.advance [FieldOrder] {accounts accounts' : Accounts} {call call' : Call}
    (hrun : Alone cap payload i s (movedTo s i accounts call)) (move : Move)
    (hstep : advance cap payload i accounts call move = some (accounts', call')) :
    Alone cap payload i s (movedTo s i accounts' call') := by
  refine hrun.tail (a := (i, move)) rfl (interleave_eq_some_iff.mpr ⟨accounts', call', ?_, ?_⟩)
  · simpa [movedTo] using hstep
  · simp [movedTo]

/-- A call that runs alone decides, and leaves the accounts, as `evaluateJson` says. -/
theorem reachable_evaluateJson [FieldOrder] (hidle : s.calls i = .idle) (now : Int) :
    ∃ bet, Alone cap payload i s
      (movedTo s i (evaluateJson cap s.shared now (payload i)).2
        (.returned bet (evaluateJson cap s.shared now (payload i)).1)) := by
  have hstart : Alone cap payload i s (movedTo s i s.shared .idle) := by
    have hself : movedTo s i s.shared .idle = s := by simp [movedTo, ← hidle]
    rw [hself]
    exact .refl
  generalize hdecision : evaluateJson cap s.shared now (payload i) = decision
  unfold evaluateJson at hdecision
  cases hcheck : checkPayload now (payload i) with
  | error result =>
      obtain rfl : (result, s.shared) = decision := by simpa [hcheck] using hdecision
      exact ⟨none, hstart.advance (.start now) (by simp [RiskEngine.advance, hcheck])⟩
  | ok bet =>
      refine ⟨some bet, ?_⟩
      have hfind : Alone cap payload i s (movedTo s i s.shared (.find bet now)) :=
        hstart.advance (.start now) (by simp [RiskEngine.advance, hcheck])
      cases hbalance : s.shared.balances bet.accountId with
      | none =>
          obtain rfl : (.accountNotFound bet now, s.shared) = decision := by
            simpa [hcheck, hbalance] using hdecision
          exact hfind.advance .atomic (by simp [RiskEngine.advance, hbalance])
      | some balance =>
          have hload : Alone cap payload i s (movedTo s i s.shared (.load bet now)) :=
            hfind.advance .atomic (by simp [RiskEngine.advance, hbalance])
          have hcompare : Alone cap payload i s (movedTo s i s.shared (.compare bet now balance)) :=
            hload.advance .atomic (by simp [RiskEngine.advance, hbalance])
          by_cases hcovered : balance < bet.stakeCents
          · obtain rfl : (.insufficientFunds bet now balance, s.shared) = decision := by
              simpa [hcheck, hbalance, hcovered] using hdecision
            exact hcompare.advance .atomic (by simp [RiskEngine.advance, hcovered])
          · have hreserve : Alone cap payload i s
                (movedTo s i (s.shared.setBalance bet.accountId (balance - bet.stakeCents))
                  (.reserve bet now (balance - bet.stakeCents))) :=
              hcompare.advance .atomic (by simp [RiskEngine.advance, hcovered, hbalance])
            simp only [hcheck, hbalance, hcovered, if_false] at hdecision
            split at hdecision
            · rename_i hexposure
              obtain rfl := hdecision
              have hrefund : Alone cap payload i s
                  (movedTo s i (s.shared.setBalance bet.accountId (balance - bet.stakeCents))
                    (.refund bet now (balance - bet.stakeCents))) :=
                hreserve.advance .atomic (by simp only [RiskEngine.advance, hexposure])
              exact hrefund.advance .atomic rfl
            · rename_i reserved exposure hexposure
              obtain rfl := hdecision
              exact hreserve.advance .atomic (by simp only [RiskEngine.advance, hexposure])

end Alone

end RiskEngine
end BettingPlatform
