import BettingPlatform.Foundations.Unwinding
import BettingPlatform.RiskEngine.Redelivery

/-!
# Accounts do not interfere

What an evaluation answers and stores is about the account of its bet.  The unwinding
conditions hold with the cell and the exposure entry of one account as the part of the state
its owner sees, so a run is, for one account, the run of that account's bets alone.

Main results:

- Theorem `evaluateJson_congr`: an evaluation reads the account of its bet only.
- Theorem `evaluateJson_frame`: and it stores to no other account.
- Theorem `accounts_do_not_interfere`: results and final balances of an account do not depend
  on the payloads of others.
-/

namespace BettingPlatform
namespace RiskEngine

open Unwinding

/-- What the state holds of an account: its balance cell and its exposure entry. -/
def Accounts.at (s : Accounts) (account : Bytes) : Option Int × Int :=
  (s.balances account, s.exposure account)

/-- An account looks the same when its balance and its exposure do. -/
theorem Accounts.at_eq_iff {s t : Accounts} {account : Bytes} :
    s.at account = t.at account ↔
      s.balances account = t.balances account ∧ s.exposure account = t.exposure account :=
  Prod.mk_inj

/-- A balance that is set shows in its own account only. -/
theorem Accounts.setBalance_at_of_ne (s : Accounts) {account account' : Bytes} (balance : Int)
    (hne : account' ≠ account) : (s.setBalance account balance).at account' = s.at account' :=
  Accounts.at_eq_iff.mpr ⟨s.setBalance_balances_of_ne balance hne, rfl⟩

/-- So does an exposure. -/
theorem Accounts.setExposure_at_of_ne (s : Accounts) {account account' : Bytes} (exposure : Int)
    (hne : account' ≠ account) : (s.setExposure account exposure).at account' = s.at account' :=
  Accounts.at_eq_iff.mpr ⟨rfl, by simp [Accounts.setExposure, hne]⟩

/-- An evaluation stores to no other account. -/
theorem evaluateJson_frame [FieldOrder] {cap now : Int} {s : Accounts} {payload account : Bytes}
    (h : ∀ bet, parseBetJson payload = .ok bet → account ≠ bet.accountId) :
    (evaluateJson cap s now payload).2.at account = s.at account := by
  cases hparse : parseBetJson payload with
  | error e => rw [evaluateJson_of_error hparse]
  | ok bet =>
      have hne := h bet hparse
      have hresult := @evaluated_evaluateJson _ cap now s payload bet hparse
      generalize evaluateJson cap s now payload = r at hresult
      cases hresult with
      | staleQuote => rfl
      | accountNotFound => rfl
      | insufficientFunds => rfl
      | saecExceeded => exact s.setBalance_at_of_ne _ hne
      | acceptance =>
          exact (Accounts.setExposure_at_of_ne _ _ hne).trans (s.setBalance_at_of_ne _ hne)

/-- An evaluation reads the account of its bet only: where two states hold the same of that
account, it answers the same and leaves the same. -/
theorem evaluateJson_congr [FieldOrder] {cap now : Int} {s t : Accounts} {payload : Bytes}
    {bet : BetSubmitted} (hparse : parseBetJson payload = .ok bet)
    (hat : s.at bet.accountId = t.at bet.accountId) :
    (evaluateJson cap s now payload).1 = (evaluateJson cap t now payload).1 ∧
      (evaluateJson cap s now payload).2.at bet.accountId =
        (evaluateJson cap t now payload).2.at bet.accountId := by
  obtain ⟨hbalances, hexposure⟩ := Accounts.at_eq_iff.mp hat
  unfold evaluateJson
  cases hcheck : checkPayload now payload with
  | error result => exact ⟨rfl, hat⟩
  | ok checked =>
      obtain rfl : checked = bet :=
        Except.ok.inj ((checkPayload_eq_ok_iff.mp hcheck).1.symm.trans hparse)
      simp only [hbalances]
      cases t.balances checked.accountId with
      | none => exact ⟨rfl, hat⟩
      | some balance =>
          by_cases hcovered : balance < checked.stakeCents
          · simp only [hcovered, if_true, true_and]
            exact hat
          · simp only [hcovered, if_false, tryReserveExposure, Accounts.setBalance_exposure,
              hexposure]
            by_cases hroom : t.exposure checked.accountId > cap - checked.potentialPayoutCents
            · simp only [hroom, if_true, true_and]
              simp [creditBalance, Accounts.at, Accounts.setBalance, hexposure]
            · simp only [hroom, if_false, true_and]
              simp [Accounts.at, Accounts.setExposure, Accounts.setBalance]

/-! ## Runs -/

/-- One evaluation, as a step of the engine. -/
def evaluateStep [FieldOrder] (cap : Int) (s : Accounts) (delivery : Delivery) :
    BetResult × Accounts :=
  evaluateJson cap s delivery.now delivery.payload

/-- The payload parses to a bet of the account. -/
def Delivery.isOf [FieldOrder] (account : Bytes) (delivery : Delivery) : Bool :=
  match parseBetJson delivery.payload with
  | .ok bet => bet.accountId = account
  | .error _ => false

theorem Delivery.isOf_iff [FieldOrder] {account : Bytes} {delivery : Delivery} :
    delivery.isOf account ↔
      ∃ bet, parseBetJson delivery.payload = .ok bet ∧ bet.accountId = account := by
  unfold Delivery.isOf
  cases parseBetJson delivery.payload with
  | error e => simp
  | ok bet => simp

/-- One account's part of the state satisfies the unwinding conditions. -/
theorem unwinding_account [FieldOrder] (cap : Int) (account : Bytes) :
    Conditions (Delivery.isOf account) (fun s : Accounts => s.at account) (evaluateStep cap) where
  output := by
    intro s t delivery hown hview
    obtain ⟨bet, hparse, rfl⟩ := Delivery.isOf_iff.mp hown
    exact (evaluateJson_congr hparse hview).1
  agree := by
    intro s t delivery hown hview
    obtain ⟨bet, hparse, rfl⟩ := Delivery.isOf_iff.mp hown
    exact (evaluateJson_congr hparse hview).2
  frame := by
    intro s delivery hother
    exact evaluateJson_frame fun bet hparse howner =>
      hother (Delivery.isOf_iff.mpr ⟨bet, hparse, howner.symm⟩)

/-- For one account, a run of the engine is the run of that account's bets alone: the results
of these bets, and the account's balance and exposure in the end, are the same. -/
theorem accounts_do_not_interfere [FieldOrder] (cap : Int) (s : Accounts)
    (deliveries : List Delivery) (account : Bytes) :
    outputsOf (Delivery.isOf account) (evaluateStep cap) s deliveries =
        outputs (evaluateStep cap) s (deliveries.filter (Delivery.isOf account)) ∧
      (evaluateAll cap s deliveries).balances account =
        (evaluateAll cap s (deliveries.filter (Delivery.isOf account))).balances account ∧
      (evaluateAll cap s deliveries).exposure account =
        (evaluateAll cap s (deliveries.filter (Delivery.isOf account))).exposure account := by
  have hview : (evaluateAll cap s deliveries).at account =
      (evaluateAll cap s (deliveries.filter (Delivery.isOf account))).at account :=
    view_finalState (unwinding_account cap account) (s := s) rfl deliveries
  exact ⟨outputsOf_eq (unwinding_account cap account) rfl deliveries, Accounts.at_eq_iff.mp hview⟩

end RiskEngine
end BettingPlatform
