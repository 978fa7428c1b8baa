import BettingPlatform.Ingress.Bets
import BettingPlatform.Settlement.Messages
import BettingPlatform.Settlement.Outcome

/-!
# The promised payout and the paid one

Ingress sends the potential payout on as odds, the quotient of payout and stake in four
places; settlement multiplies the stake by the odds.  Both round half up to their last
place, so the paid amount can be off by what the first rounding lost.

Main results:

- Theorem `calculatePayoutCents_eq`: settlement's product is exact up to its rounding.
- Theorem `paid_eq_promised_iff`: the payout is the promised one exactly when the quotient
  is close enough to four places, measured in cents of the stake.
- Theorem `oddsReturnPayout_of_small`: it always is for stakes up to 100.00.
-/

namespace BettingPlatform
namespace Platform

open Python Settlement

/-- Settlement's product is exact up to its one rounding. -/
theorem calculatePayoutCents_of_scaled {stake coeff : Nat} {odds : Decimal}
    (hstake : stake < 10 ^ 18) (hsign : odds.negative = false)
    (hodds : odds.scaled 4 = some coeff) (hcoeff : coeff < 10 ^ 10) :
    calculatePayoutCents stake odds =
      some ((Decimal.roundHalfUp (stake * odds.magnitude) : Nat) : Int) := by
  have hshort : stake * coeff < 10 ^ Decimal.prec := by
    calc stake * coeff < 10 ^ 18 * 10 ^ 10 := Nat.mul_lt_mul'' hstake hcoeff
      _ = 10 ^ Decimal.prec := by norm_num [Decimal.prec]
  have hvalue : (stake * odds.magnitude * 10 ^ 4 : ℚ) = ((stake * coeff : ℕ) : ℚ) := by
    rw [mul_assoc, Decimal.magnitude_of_scaled hodds]
    push_cast
    rfl
  have hproduct : (Decimal.mul (.ofInt stake) odds).magnitude = stake * odds.magnitude := by
    rw [@Decimal.magnitude_mul _ _ 4 (stake * coeff) (by rw [Decimal.magnitude_ofInt, hvalue]) hshort,
      Decimal.magnitude_ofInt]
  have hround : Decimal.roundHalfUp ((Decimal.mul (.ofInt stake) odds).magnitude * 10 ^ (-0 : ℤ)) =
      Decimal.roundHalfUp (stake * odds.magnitude) := by
    rw [hproduct, neg_zero, zpow_zero, mul_one]
  have hfits : Decimal.roundHalfUp (stake * odds.magnitude) < 10 ^ Decimal.prec := by
    have hnonneg : (0 : ℚ) ≤ stake * odds.magnitude := by
      unfold Decimal.magnitude
      positivity
    exact (Decimal.roundHalfUp_le (by rw [← hvalue]; linarith)).trans_lt hshort
  have hpositive : (Decimal.ofInt stake).negative = false := by simp [Decimal.ofInt]
  rw [calculatePayoutCents, Decimal.quantize_halfUp (by rwa [hround]), hround,
    Decimal.mul_negative, hsign, hpositive]
  simp [Decimal.toInt]

/-- The product with normalized odds. -/
theorem calculatePayoutCents_eq {stake odds : Nat} (hstake : stake < 10 ^ 18)
    (hodds : odds < 10 ^ 10) :
    calculatePayoutCents stake ⟨false, odds, -4⟩ =
      some ((Decimal.roundDiv .halfUp (stake * odds) (10 ^ 4) : Nat) : Int) := by
  have hscaled : Decimal.scaled 4 ⟨false, odds, -4⟩ = some odds := by simp [Decimal.scaled]
  have hmagnitude : (stake * Decimal.magnitude ⟨false, odds, -4⟩ : ℚ) =
      ((stake * odds : ℕ) : ℚ) / ((10 ^ 4 : ℕ) : ℚ) := by
    rw [Decimal.magnitude]
    push_cast
    norm_num
    ring
  rw [calculatePayoutCents_of_scaled hstake rfl hscaled hodds, hmagnitude,
    Decimal.roundDiv_eq_roundHalfUp _ (by decide)]

section Paid

variable {request : Ingress.BetCreateRequest} {text : String} {odds : { d : Decimal // IsOdds d }}

/-- The amounts of a request in cents. -/
structure InCents (request : Ingress.BetCreateRequest) (stakeCents payoutCents : Nat) : Prop where
  stake : request.stake.magnitude * 100 = stakeCents
  payout : request.potentialPayout.magnitude * 100 = payoutCents

/-- A request that is admitted has its amounts in cents. -/
theorem exists_inCents (request : Ingress.BetCreateRequest) :
    ∃ stakeCents payoutCents, InCents request stakeCents payoutCents ∧
      0 < stakeCents ∧ stakeCents ≤ payoutCents ∧ payoutCents < 10 ^ 18 := by
  obtain ⟨s, hs, hspos, -⟩ := request.stake_money.exists_cents
  obtain ⟨n, hn, -, hnlt⟩ := request.payout_money.exists_cents
  refine ⟨s, n, ⟨hs, hn⟩, hspos, ?_, hnlt⟩
  have hle : (s : ℚ) ≤ n := by
    rw [← hs, ← hn]
    exact mul_le_mul_of_nonneg_right request.stake_le_payout (by norm_num)
  exact_mod_cast hle

/-- The odds that settlement reads from the text that ingress wrote. -/
theorem odds_coeff (htext : Ingress.decimalOdds request.stake request.potentialPayout = .ok text)
    (hodds : oddsField (some (.str text)) = some odds) {stakeCents payoutCents : Nat}
    (hcents : InCents request stakeCents payoutCents) (hpos : 0 < stakeCents)
    (hle : stakeCents ≤ payoutCents) (hlt : payoutCents < 10 ^ 18) :
    odds.val.coeff = Decimal.roundDiv .halfUp (10 ^ 4 * payoutCents) stakeCents := by
  rw [Ingress.decimalOdds_eq request.stake_money.1 request.payout_money.1 hcents.stake
    hcents.payout hpos (by omega) hlt] at htext
  obtain rfl := Except.ok.inj htext
  obtain ⟨hlow, -⟩ := Ingress.odds_bounds hpos hle hlt
  have hdigits : 4 < Decimal.numDigits
      (Decimal.roundDiv .halfUp (10 ^ 4 * payoutCents) stakeCents) := by
    by_contra hfew
    have hsmall := (Decimal.numDigits_le_iff (by decide)).mp (not_lt.mp hfew)
    omega
  obtain ⟨s, d, hs, hd, -, hscaled⟩ := oddsField_eq_some_iff.mp hodds
  obtain rfl := Json.str.inj (Option.some.inj hs)
  have hparsed := Decimal.ofString_str (by decide) hdigits
  rw [Nat.cast_ofNat, hd, Option.some.injEq] at hparsed
  subst hparsed
  simpa [Decimal.scaled] using hscaled.symm

/-- The bet is paid what ingress promised: settlement's product of the stake and the odds
is the potential payout. -/
def PaidAsPromised (request : Ingress.BetCreateRequest) (odds : Decimal) : Prop :=
  ∃ stakeCents payoutCents, Ingress.decimalMoneyToCents request.stake = .ok stakeCents ∧
    Ingress.decimalMoneyToCents request.potentialPayout = .ok payoutCents ∧
    calculatePayoutCents stakeCents odds = some payoutCents

/-- In cents: the quotient of payout and stake in ten-thousandths, multiplied back, is off
by less than half a cent. -/
def OddsReturnPayout (request : Ingress.BetCreateRequest) : Prop :=
  ∀ stakeCents payoutCents, InCents request stakeCents payoutCents →
    Decimal.RoundTrips (10 ^ 4) payoutCents stakeCents

/-- The payout is the promised one exactly when the odds return it. -/
theorem paid_eq_promised_iff
    (htext : Ingress.decimalOdds request.stake request.potentialPayout = .ok text)
    (hodds : oddsField (some (.str text)) = some odds) :
    PaidAsPromised request odds ↔ OddsReturnPayout request := by
  obtain ⟨s, n, hcents, hpos, hle, hlt⟩ := exists_inCents request
  have hcoeff := odds_coeff htext hodds hcents hpos hle hlt
  have hstake := Ingress.decimalMoneyToCents_eq request.stake_money hcents.stake (by omega)
  have hpayout := Ingress.decimalMoneyToCents_eq request.payout_money hcents.payout hlt
  have hself : odds.val = ⟨false, odds.val.coeff, -4⟩ := by
    rw [← odds.property.1.1, ← odds.property.1.2]
  have hpaid : calculatePayoutCents s odds.val = some (n : Int) ↔ Decimal.RoundTrips (10 ^ 4) n s := by
    rw [hself, calculatePayoutCents_eq (by omega) odds.property.2.2, hcoeff, Option.some.injEq,
      Int.ofNat_inj, Decimal.roundDiv_roundTrip_iff hpos (by decide)]
  constructor
  · rintro ⟨s', n', hs', hn', hequal⟩ stakeCents payoutCents hcents'
    obtain rfl := Except.ok.inj (hstake.symm.trans hs')
    obtain rfl := Except.ok.inj (hpayout.symm.trans hn')
    obtain rfl : s = stakeCents := by exact_mod_cast hcents.stake.symm.trans hcents'.stake
    obtain rfl : n = payoutCents := by exact_mod_cast hcents.payout.symm.trans hcents'.payout
    exact hpaid.mp hequal
  · intro hreturn
    exact ⟨s, n, hstake, hpayout, hpaid.mpr (hreturn s n hcents)⟩

/-- The odds of a stake up to 100.00 return the payout. -/
theorem oddsReturnPayout_of_small (hsmall : request.stake.magnitude ≤ 100) :
    OddsReturnPayout request := by
  intro s n hcents
  obtain ⟨s', n', hcents', hpos, -, -⟩ := exists_inCents request
  obtain rfl : s' = s := by exact_mod_cast hcents'.stake.symm.trans hcents.stake
  have hbound : (s' : ℚ) ≤ 10 ^ 4 := by
    rw [← hcents.stake]
    linarith
  exact Decimal.roundTrips_of_le hpos (by exact_mod_cast hbound)

end Paid

/-! ## A request that is paid less -/

/-- A stake of 300.00 for a payout of 1000.00. -/
def thirdRequest : Ingress.BetCreateRequest :=
  { Ingress.sampleRequest with
    stake := ⟨false, 30000, -2⟩
    potentialPayout := ⟨false, 100000, -2⟩
    stake_money := by decide
    payout_money := by decide
    stake_le_payout := by
      unfold Decimal.magnitude
      norm_num }

/-- The sample request, 72.50 for 25.00, is paid as promised. -/
theorem paid_eq_promised_iff_sample :
    PaidAsPromised Ingress.sampleRequest ⟨false, 29000, -4⟩ ↔
      OddsReturnPayout Ingress.sampleRequest :=
  @paid_eq_promised_iff Ingress.sampleRequest "2.9000" ⟨⟨false, 29000, -4⟩, by decide⟩
    (by decide +kernel) (by decide +kernel)

/-- At odds of 3.3333 the stake of 300.00 is paid 999.99. -/
theorem third_paid_less :
    ¬ ∀ (request : Ingress.BetCreateRequest) (text : String) (odds : { d : Decimal // IsOdds d }),
      Ingress.decimalOdds request.stake request.potentialPayout = .ok text →
      oddsField (some (.str text)) = some odds → PaidAsPromised request odds := by
  intro hall
  obtain ⟨s, n, hs, hn, hpaid⟩ := hall thirdRequest "3.3333" ⟨⟨false, 33333, -4⟩, by decide⟩
    (by decide +kernel) (by decide +kernel)
  have hstake : Ingress.decimalMoneyToCents thirdRequest.stake = .ok 30000 := by decide +kernel
  have hpayout : Ingress.decimalMoneyToCents thirdRequest.potentialPayout = .ok 100000 := by
    decide +kernel
  obtain rfl := Except.ok.inj (hstake.symm.trans hs)
  obtain rfl := Except.ok.inj (hpayout.symm.trans hn)
  have hpays : calculatePayoutCents 30000 ⟨false, 33333, -4⟩ = some 99999 := by decide +kernel
  rw [hpays] at hpaid
  contradiction

end Platform
end BettingPlatform
