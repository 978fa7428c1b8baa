import BettingPlatform.Platform.PromisedPayout

/-!
# Exact money arithmetic

Ingress turns amounts into cents and odds, settlement turns stakes and odds into payouts.  Each
computation rounds to the 28 digits of the context before it rounds to the digits it keeps.  On
the amounts that the schemas admit, the first rounding changes nothing that the second one sees.

Main results:

- Theorem `decimalOdds_plain`: the odds are the exact quotient rounded once, in plain notation.
- Theorem `money_arithmetic_exact`: every computation gives its exact rational, rounded half up
  to the places it keeps.
-/

namespace BettingPlatform
namespace Platform

open Ingress Settlement

/-- `Field(gt=Decimal("1.00"), max_digits=10, decimal_places=4)`. -/
def AdmitsOdds (d : Decimal) : Prop :=
  d.negative = false ∧ ∃ units ∈ d.scaled 4, 10 ^ 4 < units ∧ units < 10 ^ 10

instance (d : Decimal) : Decidable (AdmitsOdds d) := inferInstanceAs (Decidable (_ ∧ _))

/-- The cents of an amount are 100 times its value. -/
theorem decimalMoneyToCents_exact {d : Decimal} (hmoney : IsMoney d) :
    ∃ cents : Int, decimalMoneyToCents d = .ok cents ∧ (cents : ℚ) = 100 * d.magnitude := by
  obtain ⟨cents, hcents, -, hlt⟩ := hmoney.exists_cents
  refine ⟨cents, decimalMoneyToCents_eq hmoney hcents hlt, ?_⟩
  rw [mul_comm, hcents]
  push_cast
  rfl

/-- The odds of two amounts are their exact quotient, rounded once and printed with four
places. -/
theorem decimalOdds_plain {stake payout : Decimal} (hstake : IsMoney stake)
    (hpayout : IsMoney payout) (hle : stake.magnitude ≤ payout.magnitude) :
    decimalOdds stake payout =
      .ok (Decimal.plain 4
        (Decimal.roundHalfUp (10 ^ 4 * (payout.magnitude / stake.magnitude)))) ∧
    (Decimal.plain 4
      (Decimal.roundHalfUp (10 ^ 4 * (payout.magnitude / stake.magnitude)))).length ≤ 32 := by
  obtain ⟨s, hs, hspos, -⟩ := hstake.exists_cents
  obtain ⟨n, hn, hnpos, hnlt⟩ := hpayout.exists_cents
  have hsn : s ≤ n := by
    have hcast : (s : ℚ) ≤ n := by
      rw [← hs, ← hn]
      linarith
    exact_mod_cast hcast
  obtain ⟨hlow, -⟩ := odds_bounds hspos hsn hnlt
  have hratio : 10 ^ 4 * (payout.magnitude / stake.magnitude) =
      ((10 ^ 4 * n : ℕ) : ℚ) / (s : ℚ) := by
    have hsq : (0 : ℚ) < s := by exact_mod_cast hspos
    rw [← hs] at hsq
    have hne : stake.magnitude ≠ 0 := by
      intro hzero
      simp [hzero] at hsq
    push_cast
    rw [← hs, ← hn]
    field_simp
    ring
  have hplain := @Decimal.str_eq_plain _ 4 (by decide) hlow
  rw [Nat.cast_ofNat] at hplain
  rw [hratio, ← Decimal.roundDiv_eq_roundHalfUp _ hspos, ← hplain]
  exact ⟨decimalOdds_eq hstake.1 hpayout.1 hs hn hspos hnpos hnlt,
    (odds_length hspos hsn hnlt).2⟩

/-- The payout is the exact product of stake and odds, rounded half up to cents. -/
theorem calculatePayoutCents_exact {stakeCents : Int} {odds : Decimal} (hpos : 0 < stakeCents)
    (hlt : stakeCents < 10 ^ 18) (hodds : AdmitsOdds odds) :
    calculatePayoutCents stakeCents odds =
      some (Decimal.roundHalfUp (stakeCents * odds.magnitude) : Int) := by
  obtain ⟨hsign, units, hunits, -, hfew⟩ := hodds
  lift stakeCents to ℕ using hpos.le
  exact calculatePayoutCents_of_scaled (by exact_mod_cast hlt) hsign hunits hfew

/-- On every amount and every odds the schemas admit, the money arithmetic of the platform
raises nothing and gives the exact rational, rounded half up to the places it keeps. -/
theorem money_arithmetic_exact {stake payout : Decimal} (hstake : IsMoney stake)
    (hpayout : IsMoney payout) (hle : stake.magnitude ≤ payout.magnitude) :
    (∃ cents : Int, decimalMoneyToCents stake = .ok cents ∧ (cents : ℚ) = 100 * stake.magnitude) ∧
      (∃ cents : Int, decimalMoneyToCents payout = .ok cents ∧
        (cents : ℚ) = 100 * payout.magnitude) ∧
      (∃ odds : String, decimalOdds stake payout = .ok odds ∧
        odds = Decimal.plain 4
          (Decimal.roundHalfUp (10 ^ 4 * (payout.magnitude / stake.magnitude))) ∧
        odds.length ≤ 32) ∧
      ∀ (stakeCents : Int) (odds : Decimal), 0 < stakeCents → stakeCents < 10 ^ 18 →
        AdmitsOdds odds → calculatePayoutCents stakeCents odds =
          some (Decimal.roundHalfUp (stakeCents * odds.magnitude) : Int) := by
  obtain ⟨hodds, hlength⟩ := decimalOdds_plain hstake hpayout hle
  exact ⟨decimalMoneyToCents_exact hstake, decimalMoneyToCents_exact hpayout,
    ⟨_, hodds, rfl, hlength⟩, fun _ _ hpos hlt hadmits => calculatePayoutCents_exact hpos hlt hadmits⟩

/-- The largest payout for the smallest stake. -/
theorem money_arithmetic_exact_sample :
    IsMoney ⟨false, 1, -2⟩ ∧ IsMoney ⟨false, 999999999999999999, -2⟩ ∧
      ∃ odds : String, decimalOdds ⟨false, 1, -2⟩ ⟨false, 999999999999999999, -2⟩ = .ok odds ∧
        odds.length ≤ 32 := by
  have hle : Decimal.magnitude ⟨false, 1, -2⟩ ≤ Decimal.magnitude ⟨false, 999999999999999999, -2⟩ := by
    unfold Decimal.magnitude
    norm_num
  obtain ⟨-, -, ⟨odds, hodds, -, hlength⟩, -⟩ :=
    @money_arithmetic_exact ⟨false, 1, -2⟩ ⟨false, 999999999999999999, -2⟩ (by decide) (by decide) hle
  exact ⟨by decide, by decide, odds, hodds, hlength⟩

end Platform
end BettingPlatform
