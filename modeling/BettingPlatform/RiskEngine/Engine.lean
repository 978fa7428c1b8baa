import BettingPlatform.RiskEngine.Parser
import Mathlib.Logic.Function.Basic

/-!
# The risk engine

`RiskEngine::evaluate_json` decides one payload against the engine's balances and
open exposures.  This file has the engine's data, the parts of the decision, the
decision of a call that runs alone, and the JSON encoder of results.

Main results:

- Theorem `checkPayload_eq_ok_iff`: the bets that reach the engine's accounts.
- Theorem `evaluated_evaluateJson`: what a call that runs alone can do with a bet.
-/

namespace BettingPlatform
namespace RiskEngine

/-! ## Results -/

/-- The values of `BetResult::reason_code`. -/
inductive ReasonCode
  | accepted
  | schemaInvalid
  | staleQuote
  | accountNotFound
  | insufficientFunds
  | saecExceeded
deriving DecidableEq, Repr

/-- The name of a reason code. -/
def ReasonCode.name : ReasonCode → String
  | .accepted => "ACCEPTED"
  | .schemaInvalid => "SCHEMA_INVALID"
  | .staleQuote => "STALE_QUOTE"
  | .accountNotFound => "ACCOUNT_NOT_FOUND"
  | .insufficientFunds => "INSUFFICIENT_FUNDS"
  | .saecExceeded => "SAEC_EXCEEDED"

/-- `BetResult`. -/
structure BetResult where
  eventId : Bytes
  betId : Bytes
  accountId : Bytes
  idempotencyKey : Bytes
  matchId : Bytes
  selectionId : Bytes
  odds : Bytes
  stakeCents : Int
  accepted : Bool
  reasonCode : ReasonCode
  reason : Bytes
  acceptedExposureCents : Int
  remainingBalanceCents : Int
  decisionTimestampMs : Int
deriving DecidableEq, Repr

/-- The result of a payload that does not parse. -/
def BetResult.invalid (now : Int) (error : Bytes) : BetResult where
  eventId := []
  betId := []
  accountId := []
  idempotencyKey := []
  matchId := []
  selectionId := []
  odds := []
  stakeCents := 0
  accepted := false
  reasonCode := .schemaInvalid
  reason := error
  acceptedExposureCents := 0
  remainingBalanceCents := 0
  decisionTimestampMs := now

/-- A result that carries the bet's fields and one of the decisions on it. -/
def BetResult.ofBet (bet : BetSubmitted) (now : Int) (accepted : Bool) (reasonCode : ReasonCode)
    (reason : Bytes) (acceptedExposureCents remainingBalanceCents : Int) : BetResult where
  eventId := bet.eventId
  betId := bet.betId
  accountId := bet.accountId
  idempotencyKey := bet.idempotencyKey
  matchId := bet.matchId
  selectionId := bet.selectionId
  odds := bet.odds
  stakeCents := bet.stakeCents
  accepted := accepted
  reasonCode := reasonCode
  reason := reason
  acceptedExposureCents := acceptedExposureCents
  remainingBalanceCents := remainingBalanceCents
  decisionTimestampMs := now

/-- The rejection of a quote that is too old. -/
def BetResult.staleQuote (bet : BetSubmitted) (now : Int) : BetResult :=
  .ofBet bet now false .staleQuote
    (utf8 "bet timestamp is more than 200ms older than decision time") 0 0

/-- The rejection of a bet on an account without a balance cell. -/
def BetResult.accountNotFound (bet : BetSubmitted) (now : Int) : BetResult :=
  .ofBet bet now false .accountNotFound (utf8 "no balance cell exists for account") 0 0

/-- The rejection of a bet whose stake the observed balance does not cover. -/
def BetResult.insufficientFunds (bet : BetSubmitted) (now observed : Int) : BetResult :=
  .ofBet bet now false .insufficientFunds (utf8 "available balance is below stake") 0 observed

/-- The rejection of a bet whose payout does not fit under the exposure cap. -/
def BetResult.saecExceeded (bet : BetSubmitted) (now remaining : Int) : BetResult :=
  .ofBet bet now false .saecExceeded
    (utf8 "single-account exposure cap would be exceeded") 0 (remaining + bet.stakeCents)

/-- The acceptance of a bet. -/
def BetResult.acceptance (bet : BetSubmitted) (now exposure remaining : Int) : BetResult :=
  .ofBet bet now true .accepted (utf8 "risk checks passed") exposure remaining

/-! ## The decision -/

/-- `kStaleQuoteProtectionMs`. -/
def staleQuoteProtectionMs : Int := 200

/-- The part of `evaluate_json` that touches no shared state: parsing and the check
of the quote's age.  The error is the result the call returns at once. -/
def checkPayload [FieldOrder] (now : Int) (payload : Bytes) : Except BetResult BetSubmitted :=
  match parseBetJson payload with
  | .error e => .error (.invalid now e)
  | .ok bet =>
      if now - bet.betTimestampMs > staleQuoteProtectionMs then .error (.staleQuote bet now)
      else .ok bet

/-- The bets that reach the engine's accounts: they parse and their quote is fresh. -/
theorem checkPayload_eq_ok_iff [FieldOrder] {now : Int} {payload : Bytes} {bet : BetSubmitted} :
    checkPayload now payload = .ok bet ↔
      parseBetJson payload = .ok bet ∧ now - bet.betTimestampMs ≤ staleQuoteProtectionMs := by
  unfold checkPayload
  split
  · rename_i e hparse
    simp [hparse]
  · rename_i parsed hparse
    rw [hparse, Except.ok.injEq]
    split
    · rename_i hstale
      constructor
      · intro h
        contradiction
      · rintro ⟨rfl, hfresh⟩
        omega
    · rename_i hfresh
      rw [Except.ok.injEq]
      constructor
      · rintro rfl
        exact ⟨rfl, by omega⟩
      · exact fun h => h.1

/-- A payload that reaches no account is rejected. -/
theorem checkPayload_error_accepted [FieldOrder] {now : Int} {payload : Bytes} {result : BetResult}
    (h : checkPayload now payload = .error result) : result.accepted = false := by
  unfold checkPayload at h
  split at h
  · obtain rfl := Except.error.inj h
    rfl
  · split at h
    · obtain rfl := Except.error.inj h
      rfl
    · contradiction

/-- The engine's shared state: `balances_`, the value of each account's atomic cell,
and `open_exposure_cents_by_account_`, where an absent entry reads as 0. -/
structure Accounts where
  balances : Bytes → Option Int
  exposure : Bytes → Int

/-- Store into the balance cell of an account. -/
def Accounts.setBalance (s : Accounts) (account : Bytes) (balance : Int) : Accounts :=
  { s with balances := Function.update s.balances account (some balance) }

/-- Store into the exposure entry of an account. -/
def Accounts.setExposure (s : Accounts) (account : Bytes) (exposure : Int) : Accounts :=
  { s with exposure := Function.update s.exposure account exposure }

@[simp]
theorem Accounts.setBalance_exposure (s : Accounts) (account : Bytes) (balance : Int) :
    (s.setBalance account balance).exposure = s.exposure :=
  rfl

@[simp]
theorem Accounts.setExposure_balances (s : Accounts) (account : Bytes) (exposure : Int) :
    (s.setExposure account exposure).balances = s.balances :=
  rfl

@[simp]
theorem Accounts.setBalance_balances_self (s : Accounts) (account : Bytes) (balance : Int) :
    (s.setBalance account balance).balances account = some balance := by
  simp [setBalance]

theorem Accounts.setBalance_balances_of_ne (s : Accounts) {account account' : Bytes}
    (balance : Int) (hne : account' ≠ account) :
    (s.setBalance account balance).balances account' = s.balances account' := by
  simp [setBalance, hne]

/-- Storing the balance that is there changes nothing. -/
theorem Accounts.setBalance_self {s : Accounts} {account : Bytes} {balance : Int}
    (h : s.balances account = some balance) : s.setBalance account balance = s := by
  rw [Accounts.setBalance, ← h, Function.update_eq_self]

/-- `try_reserve_exposure`: the state and the new total, or `none` when the payout
does not fit under the cap. -/
def tryReserveExposure (cap : Int) (s : Accounts) (account : Bytes) (exposureCents : Int) :
    Option (Accounts × Int) :=
  if s.exposure account > cap - exposureCents then none
  else
    some (s.setExposure account (s.exposure account + exposureCents),
      s.exposure account + exposureCents)

/-- `std::atomic<int64_t>::fetch_add` wraps around. -/
def fetchAdd (balance amount : Int) : Int :=
  Int.bmod (balance + amount) (2 ^ 64)

/-- A refund gives a 64-bit balance back. -/
theorem fetchAdd_refund {balance stake : Int} (h : IsInt64 balance) :
    fetchAdd (balance - stake) stake = balance := by
  rw [fetchAdd, Int.sub_add_cancel, Int.bmod_eq_of_le]
  · have hlow := h.1
    omega
  · have hhigh := h.2
    omega

/-- `credit_balance`. -/
def creditBalance (s : Accounts) (account : Bytes) (stakeCents : Int) : Accounts :=
  match s.balances account with
  | none => s
  | some balance => s.setBalance account (fetchAdd balance stakeCents)

/-- `evaluate_json` of a call that runs alone: the compare-exchange of
`try_debit_balance` succeeds at its first attempt. -/
def evaluateJson [FieldOrder] (cap : Int) (s : Accounts) (now : Int) (payload : Bytes) :
    BetResult × Accounts :=
  match checkPayload now payload with
  | .error result => (result, s)
  | .ok bet =>
      match s.balances bet.accountId with
      | none => (.accountNotFound bet now, s)
      | some balance =>
          if balance < bet.stakeCents then (.insufficientFunds bet now balance, s)
          else
            let remaining := balance - bet.stakeCents
            let debited := s.setBalance bet.accountId remaining
            match tryReserveExposure cap debited bet.accountId bet.potentialPayoutCents with
            | none =>
                (.saecExceeded bet now remaining,
                  creditBalance debited bet.accountId bet.stakeCents)
            | some (reserved, exposure) => (.acceptance bet now exposure remaining, reserved)

/-- The values of 64-bit cells. -/
structure Accounts.Fits (s : Accounts) : Prop where
  balances : ∀ {account balance}, s.balances account = some balance → IsInt64 balance
  exposure : ∀ account, IsInt64 (s.exposure account)

/-- What a call that runs alone can do with a bet it has parsed. -/
inductive Evaluated (cap : Int) (s : Accounts) (now : Int) (bet : BetSubmitted) :
    BetResult × Accounts → Prop
  | staleQuote : now - bet.betTimestampMs > staleQuoteProtectionMs →
      Evaluated cap s now bet (.staleQuote bet now, s)
  | accountNotFound : now - bet.betTimestampMs ≤ staleQuoteProtectionMs →
      s.balances bet.accountId = none → Evaluated cap s now bet (.accountNotFound bet now, s)
  | insufficientFunds {balance : Int} : now - bet.betTimestampMs ≤ staleQuoteProtectionMs →
      s.balances bet.accountId = some balance → balance < bet.stakeCents →
      Evaluated cap s now bet (.insufficientFunds bet now balance, s)
  | saecExceeded {balance : Int} : now - bet.betTimestampMs ≤ staleQuoteProtectionMs →
      s.balances bet.accountId = some balance → bet.stakeCents ≤ balance →
      cap < s.exposure bet.accountId + bet.potentialPayoutCents →
      Evaluated cap s now bet
        (.saecExceeded bet now (balance - bet.stakeCents),
          s.setBalance bet.accountId (fetchAdd (balance - bet.stakeCents) bet.stakeCents))
  | acceptance {balance : Int} : now - bet.betTimestampMs ≤ staleQuoteProtectionMs →
      s.balances bet.accountId = some balance → bet.stakeCents ≤ balance →
      s.exposure bet.accountId + bet.potentialPayoutCents ≤ cap →
      Evaluated cap s now bet
        (.acceptance bet now (s.exposure bet.accountId + bet.potentialPayoutCents)
            (balance - bet.stakeCents),
          (s.setBalance bet.accountId (balance - bet.stakeCents)).setExposure bet.accountId
            (s.exposure bet.accountId + bet.potentialPayoutCents))

/-- A payload that does not parse changes nothing. -/
theorem evaluateJson_of_error [FieldOrder] {cap now : Int} {s : Accounts} {payload e : Bytes}
    (h : parseBetJson payload = .error e) :
    evaluateJson cap s now payload = (.invalid now e, s) := by
  simp [evaluateJson, checkPayload, h]

/-- What becomes of a payload that parses. -/
theorem evaluated_evaluateJson [FieldOrder] {cap now : Int} {s : Accounts} {payload : Bytes}
    {bet : BetSubmitted} (hparse : parseBetJson payload = .ok bet) :
    Evaluated cap s now bet (evaluateJson cap s now payload) := by
  by_cases hstale : now - bet.betTimestampMs > staleQuoteProtectionMs
  · have hresult : evaluateJson cap s now payload = (.staleQuote bet now, s) := by
      simp [evaluateJson, checkPayload, hparse, hstale]
    exact hresult ▸ .staleQuote hstale
  · have hfresh := not_lt.mp hstale
    have hcheck := checkPayload_eq_ok_iff.mpr ⟨hparse, hfresh⟩
    unfold evaluateJson
    simp only [hcheck]
    split
    · rename_i hnone
      exact .accountNotFound hfresh hnone
    · rename_i balance hbalance
      split
      · rename_i hshort
        exact .insufficientFunds hfresh hbalance hshort
      · rename_i hcovered
        unfold tryReserveExposure
        rw [Accounts.setBalance_exposure]
        split
        · rename_i hreserve
          split at hreserve
          · rename_i hroom
            simp only [creditBalance, Accounts.setBalance, Function.update_self,
              Function.update_idem]
            exact .saecExceeded hfresh hbalance (by omega) (by omega)
          · contradiction
        · rename_i reserved exposure hreserve
          split at hreserve
          · contradiction
          · rename_i hroom
            obtain ⟨rfl, rfl⟩ := Prod.mk.inj (Option.some.inj hreserve)
            exact .acceptance hfresh hbalance (by omega) (by omega)

/-- A call that accepts has parsed its payload, the balance covers the stake, the payout
fits under the cap, and the result is the acceptance of the bet. -/
theorem evaluateJson_accepted [FieldOrder] {cap now : Int} {s : Accounts} {payload : Bytes}
    (h : (evaluateJson cap s now payload).1.accepted) :
    ∃ bet balance, parseBetJson payload = .ok bet ∧ s.balances bet.accountId = some balance ∧
      bet.stakeCents ≤ balance ∧ s.exposure bet.accountId + bet.potentialPayoutCents ≤ cap ∧
      (evaluateJson cap s now payload).1 =
        .acceptance bet now (s.exposure bet.accountId + bet.potentialPayoutCents)
          (balance - bet.stakeCents) := by
  cases hparse : parseBetJson payload with
  | error e =>
    rw [evaluateJson_of_error hparse] at h
    contradiction
  | ok bet =>
    have hdone := @evaluated_evaluateJson _ cap now s payload bet hparse
    generalize evaluateJson cap s now payload = outcome at h hdone
    cases hdone with
    | staleQuote | accountNotFound | insufficientFunds | saecExceeded => contradiction
    | acceptance _ hbalance hcovered hroom =>
      exact ⟨bet, _, rfl, hbalance, hcovered, hroom, rfl⟩

/-- A fresh bet that the balance covers and that fits under the cap is accepted. -/
theorem evaluateJson_acceptance [FieldOrder] {cap now balance : Int} {s : Accounts}
    {payload : Bytes} {bet : BetSubmitted} (hparse : parseBetJson payload = .ok bet)
    (hfresh : now - bet.betTimestampMs ≤ staleQuoteProtectionMs)
    (hbalance : s.balances bet.accountId = some balance) (hcovered : bet.stakeCents ≤ balance)
    (hroom : s.exposure bet.accountId + bet.potentialPayoutCents ≤ cap) :
    (evaluateJson cap s now payload).1 =
      .acceptance bet now (s.exposure bet.accountId + bet.potentialPayoutCents)
        (balance - bet.stakeCents) := by
  have hdone := @evaluated_evaluateJson _ cap now s payload bet hparse
  generalize evaluateJson cap s now payload = outcome at hdone ⊢
  cases hdone with
  | staleQuote hstale => omega
  | accountNotFound _ hnone => simp [hnone] at hbalance
  | insufficientFunds _ hfunds hshort =>
    cases hbalance.symm.trans hfunds
    omega
  | saecExceeded _ _ _ hcap => omega
  | acceptance _ hfunds =>
    cases hbalance.symm.trans hfunds
    rfl

/-! ## The result encoder -/

/-- `json_escape` of one byte. -/
def jsonEscapeByte (c : UInt8) : Bytes :=
  if c = ascii '"' then utf8 "\\\""
  else if c = ascii '\\' then utf8 "\\\\"
  else if c = 0x08 then utf8 "\\b"
  else if c = 0x0C then utf8 "\\f"
  else if c = ascii '\n' then utf8 "\\n"
  else if c = ascii '\r' then utf8 "\\r"
  else if c = ascii '\t' then utf8 "\\t"
  else if c < 0x20 then utf8 "?"
  else [c]

/-- `json_escape`. -/
def jsonEscape (value : Bytes) : Bytes :=
  value.flatMap jsonEscapeByte

/-- A string member of the encoder's output, with its separator. -/
def stringMember (name : String) (value : Bytes) : Bytes :=
  utf8 ("\"" ++ name ++ "\":\"") ++ jsonEscape value ++ utf8 "\","

/-- `RiskEngine::to_json`. -/
def toJson (result : BetResult) : Bytes :=
  utf8 "\x7b" ++
  stringMember "event_id" result.eventId ++
  stringMember "bet_id" result.betId ++
  stringMember "account_id" result.accountId ++
  stringMember "idempotency_key" result.idempotencyKey ++
  stringMember "match_id" result.matchId ++
  stringMember "selection_id" result.selectionId ++
  utf8 "\"stake_cents\":" ++ intDigits result.stakeCents ++ utf8 "," ++
  stringMember "odds" result.odds ++
  utf8 "\"accepted\":" ++ (if result.accepted then utf8 "true," else utf8 "false,") ++
  stringMember "reason_code" (utf8 result.reasonCode.name) ++
  stringMember "reason" result.reason ++
  utf8 "\"accepted_exposure_cents\":" ++ intDigits result.acceptedExposureCents ++ utf8 "," ++
  utf8 "\"remaining_balance_cents\":" ++ intDigits result.remainingBalanceCents ++ utf8 "," ++
  utf8 "\"decision_timestamp_ms\":" ++ intDigits result.decisionTimestampMs ++
  utf8 "\x7d"

end RiskEngine
end BettingPlatform
