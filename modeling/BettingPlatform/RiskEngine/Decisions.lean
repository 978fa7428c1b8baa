import BettingPlatform.RiskEngine.AtomicSteps
import BettingPlatform.RiskEngine.Isolation

/-!
# Decisions in 64-bit arithmetic

`evaluate_json` computes with signed 64-bit integers, and a signed operation that overflows is
undefined.  Here every operation is checked.  In a state the engine can reach none overflows,
so the call decides as with exact integers.

Main results:

- Theorem `Accounting.bounded`: the balances and exposures of a reachable state are in bounds.
- Theorem `evaluateJson64_eq`: within these bounds no operation overflows.
- Theorem `decided_evaluateJson`: what the evaluation with exact integers decides and stores.
- Theorem `evaluateJson64_decides`: the decision in every reachable state.
-/

namespace BettingPlatform
namespace RiskEngine

open Runs

/-! ## Checked arithmetic -/

instance (n : Int) : Decidable (IsInt64 n) :=
  inferInstanceAs (Decidable (-2 ^ 63 ≤ n ∧ n < 2 ^ 63))

/-- The value of a signed 64-bit operation whose exact value is `n`, if it does not overflow. -/
def int64 (n : Int) : Option Int :=
  if IsInt64 n then some n else none

/-- A value in range is computed. -/
theorem int64_eq {n : Int} (h : IsInt64 n) : int64 n = some n :=
  if_pos h

/-- `try_reserve_exposure`, with its operations checked. -/
def tryReserveExposure64 (cap : Int) (s : Accounts) (account : Bytes) (exposureCents : Int) :
    Option (Option (Accounts × Int)) := do
  let room ← int64 (cap - exposureCents)
  if s.exposure account > room then
    return none
  else
    let total ← int64 (s.exposure account + exposureCents)
    return some (s.setExposure account total, total)

/-- `credit_balance`, where the atomic addition is checked too. -/
def creditBalance64 (s : Accounts) (account : Bytes) (stakeCents : Int) : Option Accounts :=
  match s.balances account with
  | none => some s
  | some balance => (int64 (balance + stakeCents)).map (s.setBalance account)

/-- `evaluate_json` of a call that runs alone, or nothing if one of its operations overflows. -/
def evaluateJson64 [FieldOrder] (cap : Int) (s : Accounts) (now : Int) (payload : Bytes) :
    Option (BetResult × Accounts) :=
  match parseBetJson payload with
  | .error e => some (.invalid now e, s)
  | .ok bet => do
      let quoteAgeMs ← int64 (now - bet.betTimestampMs)
      if quoteAgeMs > staleQuoteProtectionMs then
        return (.staleQuote bet now, s)
      else
        match s.balances bet.accountId with
        | none => return (.accountNotFound bet now, s)
        | some balance =>
            if balance < bet.stakeCents then
              return (.insufficientFunds bet now balance, s)
            else
              let remaining ← int64 (balance - bet.stakeCents)
              let debited := s.setBalance bet.accountId remaining
              match ← tryReserveExposure64 cap debited bet.accountId bet.potentialPayoutCents with
              | none =>
                  let credited ← creditBalance64 debited bet.accountId bet.stakeCents
                  let reported ← int64 (remaining + bet.stakeCents)
                  return ({ BetResult.saecExceeded bet now remaining with
                    remainingBalanceCents := reported }, credited)
              | some (reserved, exposure) =>
                  return (.acceptance bet now exposure remaining, reserved)

/-! ## Bounds -/

/-- No balance is negative, and every open exposure is between zero and the cap. -/
structure Accounts.Bounded (cap : Int) (s : Accounts) : Prop where
  balances : ∀ {account balance}, s.balances account = some balance →
    0 ≤ balance ∧ balance < 2 ^ 63
  exposure : ∀ account, 0 ≤ s.exposure account ∧ s.exposure account ≤ cap

/-- A call never reserves less than nothing. -/
theorem Call.reserved_nonneg [FieldOrder] {payload : Bytes} {call : Call}
    (hcall : call.Faithful payload) (account : Bytes) : 0 ≤ call.reserved account := by
  have hvalid := hcall.valid
  unfold Call.reserved
  split
  · rename_i bet result
    split
    · have hbet := hvalid bet rfl
      have hpos := hbet.stake_pos
      have hle := hbet.stake_le_payout
      omega
    · exact le_rfl
  · exact le_rfl

/-- The accounts of a reachable state are within their bounds. -/
theorem Accounting.bounded [FieldOrder] {ι : Type} [Fintype ι] {engine : Seeding}
    {payload : ι → Bytes} {s : Threads ι} (hs : Accounting engine payload s) :
    s.shared.Bounded engine.cap where
  balances := by
    intro account balance hbalance
    refine ⟨hs.balance_nonneg account balance hbalance, ?_⟩
    rw [hs.balance account, Option.map_eq_some_iff] at hbalance
    obtain ⟨seed, hseed, rfl⟩ := hbalance
    have hlt := engine.seed_lt hseed
    have hdebited : 0 ≤ ∑ i, (s.calls i).debited account :=
      Finset.sum_nonneg fun i _ => Call.debited_nonneg (hs.faithful i) account
    omega
  exposure := by
    intro account
    refine ⟨?_, hs.exposure_le account⟩
    rw [hs.exposure account]
    exact Finset.sum_nonneg fun i _ => Call.reserved_nonneg (hs.faithful i) account

section Arithmetic

variable {cap now : Int} {s : Accounts} {payload : Bytes}

/-- In range the 64-bit reservation is the exact one. -/
theorem tryReserveExposure64_eq {account : Bytes} {exposureCents : Int} (hcap : 0 < cap)
    (hlt : cap < 2 ^ 63) (hpos : 0 < exposureCents) (hmax : exposureCents < 2 ^ 63)
    (hexposure : 0 ≤ s.exposure account) :
    tryReserveExposure64 cap s account exposureCents =
      some (tryReserveExposure cap s account exposureCents) := by
  have hroom : int64 (cap - exposureCents) = some (cap - exposureCents) :=
    int64_eq ⟨by omega, by omega⟩
  unfold tryReserveExposure64 tryReserveExposure
  rw [hroom, Option.bind_eq_bind, Option.bind_some]
  split
  · rfl
  · -- The total is at most the cap.
    rw [int64_eq ⟨by omega, by omega⟩]
    rfl

/-- Within the bounds no operation overflows. -/
theorem evaluateJson64_eq [FieldOrder] (hcap : 0 < cap) (hlt : cap < 2 ^ 63) (hnow : 0 ≤ now)
    (hnow_lt : now < 2 ^ 63) (hs : s.Bounded cap) (payload : Bytes) :
    evaluateJson64 cap s now payload = some (evaluateJson cap s now payload) := by
  unfold evaluateJson64 evaluateJson checkPayload
  cases hparse : parseBetJson payload with
  | error e => rfl
  | ok bet =>
      have hbet := parseBetJson_valid hparse
      have hts := hbet.timestamp_pos
      have hts_lt := hbet.timestamp_lt
      have hstake := hbet.stake_pos
      have hpayout := hbet.stake_le_payout
      have hpayout_lt := hbet.payout_lt
      have hage : int64 (now - bet.betTimestampMs) = some (now - bet.betTimestampMs) :=
        int64_eq ⟨by omega, by omega⟩
      simp only [hage, Option.bind_eq_bind, Option.bind_some]
      by_cases hstale : now - bet.betTimestampMs > staleQuoteProtectionMs
      · simp only [hstale, if_true]
        rfl
      · simp only [hstale, if_false]
        cases hbalance : s.balances bet.accountId with
        | none => rfl
        | some balance =>
            obtain ⟨hnonneg, hbalance_lt⟩ := hs.balances hbalance
            by_cases hshort : balance < bet.stakeCents
            · simp only [hshort, if_true]
              rfl
            · have hremaining : int64 (balance - bet.stakeCents) =
                  some (balance - bet.stakeCents) := int64_eq ⟨by omega, by omega⟩
              have hback : balance - bet.stakeCents + bet.stakeCents = balance := by omega
              have hcell : IsInt64 balance := ⟨by omega, hbalance_lt⟩
              have hexposure := (hs.exposure bet.accountId).1
              simp only [hshort, if_false, hremaining, Option.bind_some]
              rw [tryReserveExposure64_eq hcap hlt (by omega) hpayout_lt (by simpa using hexposure)]
              rw [Option.bind_some]
              cases tryReserveExposure cap (s.setBalance bet.accountId (balance - bet.stakeCents))
                bet.accountId bet.potentialPayoutCents with
              | none =>
                  simp only [creditBalance64, creditBalance, Accounts.setBalance_balances_self,
                    hback, int64_eq hcell, fetchAdd_refund hcell, Option.map_some,
                    Option.bind_some, BetResult.saecExceeded]
                  rfl
              | some reserved => rfl

end Arithmetic

/-! ## The decision -/

/-- The reason code as the exact integers determine it. -/
def specifiedCode [FieldOrder] (cap : Int) (s : Accounts) (now : Int) (payload : Bytes) :
    ReasonCode :=
  match parseBetJson payload with
  | .error _ => .schemaInvalid
  | .ok bet =>
      if now - bet.betTimestampMs > 200 then .staleQuote
      else
        match s.balances bet.accountId with
        | none => .accountNotFound
        | some balance =>
            if balance < bet.stakeCents then .insufficientFunds
            else if s.exposure bet.accountId + bet.potentialPayoutCents > cap then .saecExceeded
            else .accepted

/-- The bet is booked on its account and on no other, and the result has the new values. -/
structure Booked (s t : Accounts) (bet : BetSubmitted) (result : BetResult) : Prop where
  balance : ∃ balance, s.balances bet.accountId = some balance ∧
    t.balances bet.accountId = some (balance - bet.stakeCents)
  exposure : t.exposure bet.accountId = s.exposure bet.accountId + bet.potentialPayoutCents
  remaining : t.balances bet.accountId = some result.remainingBalanceCents
  reserved : t.exposure bet.accountId = result.acceptedExposureCents
  frame : ∀ account ≠ bet.accountId,
    t.balances account = s.balances account ∧ t.exposure account = s.exposure account

/-- The result and the accounts it leaves meet the specification of the decision. -/
structure Decided [FieldOrder] (cap : Int) (s : Accounts) (now : Int) (payload : Bytes)
    (result : BetResult) (t : Accounts) : Prop where
  code : result.reasonCode = specifiedCode cap s now payload
  accepted : result.accepted = true ↔ result.reasonCode = .accepted
  booked : result.accepted = true →
    ∃ bet, parseBetJson payload = .ok bet ∧ Booked s t bet result
  unchanged : result.accepted = false →
    t.balances = s.balances ∧ ∀ account, t.exposure account = s.exposure account
  reported : result.reasonCode = .insufficientFunds ∨ result.reasonCode = .saecExceeded →
    ∃ bet, parseBetJson payload = .ok bet ∧
      s.balances bet.accountId = some result.remainingBalanceCents

/-- The code of a payload that parses and is fresh, by the account it names. -/
theorem specifiedCode_of_ok [FieldOrder] {cap now : Int} {s : Accounts} {payload : Bytes}
    {bet : BetSubmitted} (hparse : parseBetJson payload = .ok bet)
    (hfresh : now - bet.betTimestampMs ≤ staleQuoteProtectionMs) :
    specifiedCode cap s now payload =
      match s.balances bet.accountId with
      | none => .accountNotFound
      | some balance =>
          if balance < bet.stakeCents then .insufficientFunds
          else if s.exposure bet.accountId + bet.potentialPayoutCents > cap then .saecExceeded
          else .accepted := by
  have hfresh' : ¬ now - bet.betTimestampMs > 200 := not_lt.mpr hfresh
  simp only [specifiedCode, hparse, hfresh', if_false]

/-- A rejection that leaves the accounts as they were. -/
theorem Decided.of_rejection [FieldOrder] {cap now : Int} {s : Accounts} {payload : Bytes}
    {result : BetResult}
    (hcode : specifiedCode cap s now payload = result.reasonCode)
    (haccepted : result.accepted = false) (hne : result.reasonCode ≠ .accepted)
    (hreported : result.reasonCode = .insufficientFunds ∨ result.reasonCode = .saecExceeded →
      ∃ bet, parseBetJson payload = .ok bet ∧
        s.balances bet.accountId = some result.remainingBalanceCents) :
    Decided cap s now payload result s where
  code := hcode.symm
  accepted := by simp [haccepted, hne]
  booked := by simp [haccepted]
  unchanged := fun _ => ⟨rfl, fun _ => rfl⟩
  reported := hreported

/-- The evaluation with exact integers meets the specification of the decision. -/
theorem decided_evaluateJson [FieldOrder] {cap now : Int} {s : Accounts} (hs : s.BalancesFit)
    (payload : Bytes) :
    Decided cap s now payload (evaluateJson cap s now payload).1
      (evaluateJson cap s now payload).2 := by
  cases hparse : parseBetJson payload with
  | error e =>
      rw [evaluateJson_of_error hparse]
      refine .of_rejection (by simp only [specifiedCode, hparse, BetResult.invalid]) rfl (fun h => by cases h) ?_
      rintro (h | h) <;> cases h
  | ok bet =>
      have hresult := @evaluated_evaluateJson _ cap now s payload bet hparse
      generalize evaluateJson cap s now payload = r at hresult
      cases hresult with
      | staleQuote hstale =>
          have hstale' : now - bet.betTimestampMs > 200 := hstale
          refine .of_rejection ?_ rfl (fun h => by cases h) ?_
          · simp only [specifiedCode, hparse, hstale', if_true]
            rfl
          · rintro (h | h) <;> cases h
      | accountNotFound hfresh hnone =>
          refine .of_rejection ?_ rfl (fun h => by cases h) ?_
          · rw [specifiedCode_of_ok hparse hfresh, hnone]
            rfl
          · rintro (h | h) <;> cases h
      | insufficientFunds hfresh hbalance hshort =>
          refine .of_rejection ?_ rfl (fun h => by cases h) fun _ => ⟨bet, hparse, hbalance⟩
          simp only [specifiedCode_of_ok hparse hfresh, hbalance, hshort, if_true]
          rfl
      | @saecExceeded balance hfresh hbalance hcovered hroom =>
          -- The refund gives the balance back that the debit took.
          rw [fetchAdd_refund (hs _ _ hbalance), Accounts.setBalance_self hbalance]
          refine .of_rejection ?_ rfl (fun h => by cases h) fun _ => ⟨bet, hparse, ?_⟩
          · simp only [specifiedCode_of_ok hparse hfresh, hbalance, not_lt.mpr hcovered, if_false,
              gt_iff_lt, hroom, if_true]
            rfl
          · simp [hbalance, BetResult.saecExceeded, BetResult.ofBet]
      | @acceptance balance hfresh hbalance hcovered hroom =>
          refine ⟨?_, ⟨fun _ => rfl, fun _ => rfl⟩, fun _ => ⟨bet, hparse, ?_⟩, (fun h => by cases h), ?_⟩
          · simp only [specifiedCode_of_ok hparse hfresh, hbalance, not_lt.mpr hcovered, if_false,
              gt_iff_lt, not_lt.mpr hroom]
            rfl
          · refine ⟨⟨balance, hbalance, by simp⟩, by simp [Accounts.setExposure],
              by simp [BetResult.acceptance, BetResult.ofBet],
              by simp [Accounts.setExposure, BetResult.acceptance, BetResult.ofBet], ?_⟩
            intro account hother
            have hat := (Accounts.setExposure_at_of_ne (s.setBalance bet.accountId
              (balance - bet.stakeCents)) (s.exposure bet.accountId + bet.potentialPayoutCents)
              hother).trans (s.setBalance_at_of_ne (balance - bet.stakeCents) hother)
            exact Accounts.at_eq_iff.mp hat
          · rintro (h | h) <;> cases h

/-- In every state the engine reaches from balances that are not negative, whatever calls are
in flight, a call that runs alone overflows nowhere and meets the specification. -/
theorem evaluateJson64_decides [FieldOrder] {ι : Type} [Fintype ι] [DecidableEq ι]
    {engine : Seeding} {payloads : ι → Bytes} {s : Threads ι}
    (hrun : Reachable (threadStep engine.cap payloads) (Threads.start engine) s) {now : Int}
    (hnow : 0 ≤ now) (hnow_lt : now < 2 ^ 63) (payload : Bytes) :
    ∃ result t, evaluateJson64 engine.cap s.shared now payload = some (result, t) ∧
      Decided engine.cap s.shared now payload result t := by
  have hbounded := (accounting_of_reachable hrun).bounded
  have hfit : s.shared.BalancesFit := by
    intro account balance hbalance
    obtain ⟨hnonneg, hlt⟩ := hbounded.balances hbalance
    exact ⟨by omega, hlt⟩
  exact ⟨_, _, evaluateJson64_eq engine.cap_pos engine.cap_lt hnow hnow_lt hbounded payload,
    decided_evaluateJson hfit payload⟩

section Sample

attribute [local instance] insertionOrder

/-- Another call with the same payload has returned before. -/
theorem evaluateJson64_decides_sample :
    ∃ (s : Threads (Fin 1)) (result : BetResult) (t : Accounts),
      (s.calls 0).result?.isSome ∧
        evaluateJson64 sampleEngine.cap s.shared 1000 samplePayload = some (result, t) ∧
        Decided sampleEngine.cap s.shared 1000 samplePayload result t := by
  obtain ⟨bet, halone⟩ := @reachable_evaluateJson (Fin 1) _ sampleEngine.cap
    (fun _ => samplePayload) (Threads.start sampleEngine) 0 _ rfl 1000
  obtain ⟨result, t, hdecides⟩ :=
    @evaluateJson64_decides _ _ _ _ _ _ _ halone.toReachable 1000 (by decide) (by decide)
      samplePayload
  exact ⟨_, result, t, by simp [movedTo, Call.result?], hdecides⟩

end Sample

end RiskEngine
end BettingPlatform
