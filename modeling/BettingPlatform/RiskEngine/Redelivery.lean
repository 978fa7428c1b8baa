import BettingPlatform.Foundations.Redelivery
import BettingPlatform.RiskEngine.AtomicSteps

/-!
# Redelivered bets

The topic of submitted bets is consumed at least once, and the engine evaluates whatever it
is given: nothing in `evaluate_json` looks at the idempotency key.  A repeat is harmless as
long as it is refused.

Main results:

- Theorem `evaluateJson_unchanged_iff`: an evaluation leaves the accounts unchanged exactly
  when it refuses the bet.
- Theorem `accounts_ignore_repeats_iff`: the accounts stay those of the first deliveries
  exactly as long as every repeat is refused.
-/

namespace BettingPlatform
namespace RiskEngine

open Redelivery

/-! ## Deliveries -/

/-- A payload, and the clock reading at which it is evaluated. -/
structure Delivery where
  now : Int
  payload : Bytes
deriving DecidableEq

/-- The idempotency key of a payload that parses. -/
def Delivery.key [FieldOrder] (delivery : Delivery) : Option Bytes :=
  match parseBetJson delivery.payload with
  | .ok bet => some bet.idempotencyKey
  | .error _ => none

/-- What one evaluation leaves of the accounts. -/
def evaluateDelivery [FieldOrder] (cap : Int) (s : Accounts) (delivery : Delivery) : Accounts :=
  (evaluateJson cap s delivery.now delivery.payload).2

/-- What the evaluations of some deliveries, in their order, leave of the accounts. -/
def evaluateAll [FieldOrder] (cap : Int) (s : Accounts) (deliveries : List Delivery) : Accounts :=
  deliveries.foldl (evaluateDelivery cap) s

/-- The bet is refused: its quote is stale, its account has no cell, the balance is below
the stake, or the payout does not fit under the cap. -/
def Refused (cap : Int) (s : Accounts) (now : Int) (bet : BetSubmitted) : Prop :=
  staleQuoteProtectionMs < now - bet.betTimestampMs ∨ s.balances bet.accountId = none ∨
    (∃ balance, s.balances bet.accountId = some balance ∧ balance < bet.stakeCents) ∨
    cap < s.exposure bet.accountId + bet.potentialPayoutCents

/-- The balances are values of 64-bit cells. -/
def Accounts.BalancesFit (s : Accounts) : Prop :=
  ∀ account balance, s.balances account = some balance → IsInt64 balance

/-- The balances of accounts that fit do. -/
theorem Accounts.Fits.balancesFit {s : Accounts} (h : s.Fits) : s.BalancesFit :=
  fun _ _ => h.balances

/-- An evaluation leaves the accounts unchanged exactly when it refuses the bet. -/
theorem evaluateJson_unchanged_iff [FieldOrder] {cap now : Int} {s : Accounts} {payload : Bytes}
    {bet : BetSubmitted} (hs : s.BalancesFit) (hparse : parseBetJson payload = .ok bet) :
    (evaluateJson cap s now payload).2 = s ↔ Refused cap s now bet := by
  have hresult := @evaluated_evaluateJson _ cap now s payload bet hparse
  generalize evaluateJson cap s now payload = r at hresult
  cases hresult with
  | staleQuote hstale => exact iff_of_true rfl (Or.inl hstale)
  | accountNotFound hfresh hnone => exact iff_of_true rfl (Or.inr (Or.inl hnone))
  | insufficientFunds hfresh hbalance hshort =>
      exact iff_of_true rfl (Or.inr (Or.inr (Or.inl ⟨_, hbalance, hshort⟩)))
  | saecExceeded hfresh hbalance hcovered hroom =>
      refine iff_of_true ?_ (Or.inr (Or.inr (Or.inr hroom)))
      rw [fetchAdd_refund (hs _ _ hbalance), Accounts.setBalance_self hbalance]
  | @acceptance balance hfresh hbalance hcovered hroom =>
      refine iff_of_false (fun h => ?_) ?_
      · have hdebited := congrFun (congrArg Accounts.balances h) bet.accountId
        rw [Accounts.setExposure_balances, Accounts.setBalance_balances_self, hbalance,
          Option.some.injEq] at hdebited
        have hstake := (parseBetJson_valid hparse).stake_pos
        omega
      · rintro (hstale | hnone | ⟨balance', hbalance', hshort⟩ | hroom')
        · omega
        · simp [hbalance] at hnone
        · obtain rfl := Option.some.inj (hbalance.symm.trans hbalance')
          omega
        · omega

/-- An evaluation keeps the balances within 64 bits. -/
theorem balancesFit_evaluateDelivery [FieldOrder] {cap : Int} {s : Accounts} (hs : s.BalancesFit)
    (delivery : Delivery) : (evaluateDelivery cap s delivery).BalancesFit := by
  unfold evaluateDelivery
  cases hparse : parseBetJson delivery.payload with
  | error e =>
      rw [evaluateJson_of_error hparse]
      exact hs
  | ok bet =>
      have hresult := @evaluated_evaluateJson _ cap delivery.now s delivery.payload bet hparse
      generalize evaluateJson cap s delivery.now delivery.payload = r at hresult
      have hstake := (parseBetJson_valid hparse).stake_pos
      cases hresult with
      | staleQuote => exact hs
      | accountNotFound => exact hs
      | insufficientFunds => exact hs
      | saecExceeded hfresh hbalance =>
          rw [fetchAdd_refund (hs _ _ hbalance), Accounts.setBalance_self hbalance]
          exact hs
      | acceptance hfresh hbalance hcovered =>
          intro account balance' hbalance'
          rw [Accounts.setExposure_balances] at hbalance'
          by_cases hown : account = bet.accountId
          · subst hown
            rw [Accounts.setBalance_balances_self, Option.some.injEq] at hbalance'
            obtain ⟨hlow, hhigh⟩ := hs _ _ hbalance
            constructor <;> omega
          · rw [Accounts.setBalance_balances_of_ne _ _ hown] at hbalance'
            exact hs _ _ hbalance'

/-- Bets only lower the balances, so that they go on fitting. -/
theorem balancesFit_evaluateAll [FieldOrder] {cap : Int} {s : Accounts} (hs : s.BalancesFit)
    (deliveries : List Delivery) : (evaluateAll cap s deliveries).BalancesFit := by
  induction deliveries generalizing s with
  | nil => exact hs
  | cons delivery deliveries ih => exact ih (balancesFit_evaluateDelivery hs delivery)

/-- Every repeat among the deliveries is refused in the state it meets. -/
def RepeatsRefused [FieldOrder] (cap : Int) (s : Accounts) (deliveries : List Delivery) : Prop :=
  ∀ past delivery bet, past ++ [delivery] <+: deliveries →
    parseBetJson delivery.payload = .ok bet →
    (∃ earlier ∈ past, earlier.key = some bet.idempotencyKey) →
    Refused cap (evaluateAll cap s past) delivery.now bet

/-- The accounts stay, after every delivery, those that the first deliveries of each key
leave, exactly as long as every repeat is refused. -/
theorem accounts_ignore_repeats_iff [FieldOrder] {cap : Int} {s : Accounts} (hs : s.Fits)
    (deliveries : List Delivery) :
    (∀ past, past <+: deliveries →
      evaluateAll cap s past = evaluateAll cap s (firsts Delivery.key past)) ↔
      RepeatsRefused cap s deliveries := by
  refine (agrees_iff_repeats_inert (evaluateDelivery cap) Delivery.key s deliveries).trans ?_
  constructor
  · rintro hinert past delivery bet hprefix hparse ⟨earlier, hmem, hkey⟩
    have hown : delivery.key = some bet.idempotencyKey := by simp [Delivery.key, hparse]
    have hrepeat : repeats Delivery.key past delivery := by
      simp only [repeats, hown, Option.isSome_some, Bool.true_and, List.any_eq_true,
        decide_eq_true_eq]
      exact ⟨earlier, hmem, hkey⟩
    exact (evaluateJson_unchanged_iff (balancesFit_evaluateAll hs.balancesFit past) hparse).mp
      (hinert past delivery hprefix hrepeat)
  · intro hrefused past delivery hprefix hrepeat
    simp only [repeats, Bool.and_eq_true, List.any_eq_true, decide_eq_true_eq] at hrepeat
    obtain ⟨hsome, earlier, hmem, hkey⟩ := hrepeat
    cases hparse : parseBetJson delivery.payload with
    | error e => simp [Delivery.key, hparse] at hsome
    | ok bet =>
        have hown : delivery.key = some bet.idempotencyKey := by simp [Delivery.key, hparse]
        exact (evaluateJson_unchanged_iff (balancesFit_evaluateAll hs.balancesFit past) hparse).mpr
          (hrefused past delivery bet hprefix hparse ⟨earlier, hmem, hkey.trans hown⟩)

/-- An account that covers the sample bet twice. -/
def richAccounts : Accounts :=
  sampleEngine.accounts.setBalance (utf8 "a") 250

theorem richAccounts_fits : richAccounts.Fits where
  balances := by
    intro account balance h
    by_cases hown : account = utf8 "a"
    · subst hown
      obtain rfl : 250 = balance := by simpa [richAccounts] using h
      constructor <;> decide
    · rw [richAccounts, Accounts.setBalance_balances_of_ne _ _ hown] at h
      simp [Seeding.accounts, sampleEngine, hown] at h
  exposure := fun _ => by
    show IsInt64 0
    constructor <;> decide

section Sample

attribute [local instance] insertionOrder

/-- The sample bet comes again when its quote is stale. -/
theorem accounts_ignore_repeats_iff_sample :
    (∀ past, past <+: [⟨1000, samplePayload⟩, ⟨1300, samplePayload⟩] →
      evaluateAll 1000 richAccounts past =
        evaluateAll 1000 richAccounts (firsts Delivery.key past)) ↔
      RepeatsRefused 1000 richAccounts [⟨1000, samplePayload⟩, ⟨1300, samplePayload⟩] :=
  accounts_ignore_repeats_iff richAccounts_fits _

end Sample

/-- The deliveries with one key have one payload. -/
def RepeatsIdentical [FieldOrder] (deliveries : List Delivery) : Prop :=
  ∀ first ∈ deliveries, ∀ second ∈ deliveries, first.key.isSome → first.key = second.key →
    first.payload = second.payload

/-- A bet that is delivered twice is debited twice, whatever the order of its fields. -/
theorem repeat_debited_twice :
    ¬ ∃ _ : FieldOrder, ∀ (cap : Int) (s : Accounts) (deliveries : List Delivery), s.Fits →
      deliveries.Pairwise (fun first second => first.now ≤ second.now) →
      RepeatsIdentical deliveries →
      evaluateAll cap s deliveries = evaluateAll cap s (firsts Delivery.key deliveries) := by
  rintro ⟨_, hall⟩
  have hequal := hall 1000 richAccounts [⟨1000, samplePayload⟩, ⟨1000, samplePayload⟩]
    richAccounts_fits (by simp) (by simp [RepeatsIdentical])
  have hkey : (⟨1000, samplePayload⟩ : Delivery).key = some (utf8 "k") := by
    simp [Delivery.key, parseBetJson_samplePayload, sampleBet]
  have hfirsts : firsts Delivery.key [⟨1000, samplePayload⟩, ⟨1000, samplePayload⟩] =
      [⟨1000, samplePayload⟩] := by
    simp [firsts, firstsAfter, repeats, hkey]
  have hstate : evaluateDelivery 1000 richAccounts ⟨1000, samplePayload⟩ =
      (richAccounts.setBalance (utf8 "a") 150).setExposure (utf8 "a") 200 := by
    have hcheck : checkPayload 1000 samplePayload = .ok sampleBet :=
      checkPayload_eq_ok_iff.mpr ⟨parseBetJson_samplePayload, by decide⟩
    simp [evaluateDelivery, evaluateJson, hcheck, sampleBet, tryReserveExposure, richAccounts,
      Seeding.accounts]
  rw [hfirsts] at hequal
  have hunchanged : (evaluateJson 1000 ((richAccounts.setBalance (utf8 "a") 150).setExposure
      (utf8 "a") 200) 1000 samplePayload).2 =
      (richAccounts.setBalance (utf8 "a") 150).setExposure (utf8 "a") 200 := by
    have hfold : evaluateDelivery 1000 (evaluateDelivery 1000 richAccounts ⟨1000, samplePayload⟩)
        ⟨1000, samplePayload⟩ = evaluateDelivery 1000 richAccounts ⟨1000, samplePayload⟩ := hequal
    rwa [hstate] at hfold
  have hfits : ((richAccounts.setBalance (utf8 "a") 150).setExposure
      (utf8 "a") 200).BalancesFit := by
    rw [← hstate]
    exact balancesFit_evaluateDelivery richAccounts_fits.balancesFit _
  have hrefused := (evaluateJson_unchanged_iff hfits parseBetJson_samplePayload).mp hunchanged
  rcases hrefused with hstale | hnone | ⟨balance, hbalance, hshort⟩ | hroom
  · exact absurd hstale (by decide)
  · simp [sampleBet] at hnone
  · obtain rfl : 150 = balance := by simpa [sampleBet] using hbalance
    exact absurd hshort (by decide)
  · simp [sampleBet, Accounts.setExposure] at hroom

end RiskEngine
end BettingPlatform
