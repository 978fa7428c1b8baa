import BettingPlatform.Foundations.Decimal
import BettingPlatform.Foundations.Python
import Mathlib.Algebra.Order.Ring.Nat
import Mathlib.Tactic.Ring

/-!
# Binary floating point

A Python `float` is an IEEE 754 binary64 number.  The operations the platform uses on
floats round an exact ratio of two integers to the nearest float, ties to even.

Main results:

- Theorem `PyFloat.ofRatio_spec`: rounding at most doubles a ratio, at any magnitude.
- Theorem `PyFloat.ofRatio_mulNat`: the product of a rounded ratio and an integer.
-/

namespace BettingPlatform
namespace Python

/-- The exponent of the last binary place of the float nearest to `num / den`: the
mantissa has 53 bits, fewer below the normal range. -/
def PyFloat.lastPlace (num den : Nat) : Int :=
  let exp : Int := Nat.log2 num - Nat.log2 den - 52
  let exp := if num * 2 ^ (-exp).toNat < 2 ^ 52 * den * 2 ^ exp.toNat then exp - 1 else exp
  max exp (-1074)

/-- The float nearest to `num / den`, or an infinity from `2 ^ 1024` on. -/
def PyFloat.ofRatio (negative : Bool) (num den : Nat) : PyFloat :=
  let exp := lastPlace num den
  let mantissa := Decimal.roundDiv .halfEven (num * 2 ^ (-exp).toNat) (den * 2 ^ exp.toNat)
  if 971 ≤ exp ∧ 2 ^ 53 ≤ mantissa * 2 ^ (exp - 971).toNat then .infinity negative
  else .finite negative mantissa exp

/-- `x * n` for a natural number that is a float. -/
def PyFloat.mulNat (x : PyFloat) (n : Nat) : PyFloat :=
  match x with
  | .finite negative mantissa exp =>
      ofRatio negative (mantissa * n * 2 ^ exp.toNat) (2 ^ (-exp).toNat)
  | .infinity negative => if n = 0 then .nan else .infinity negative
  | .nan => .nan

/-- `x < y`; a comparison with not-a-number is false. -/
def PyFloat.lt : PyFloat → PyFloat → Bool
  | .nan, _ | _, .nan => false
  | .infinity negative, .infinity negative' => negative && !negative'
  | .infinity negative, .finite .. => negative
  | .finite .., .infinity negative => !negative
  | .finite negative mantissa exp, .finite negative' mantissa' exp' =>
      let value : Int := mantissa * 2 ^ (exp - exp').toNat
      let value' : Int := mantissa' * 2 ^ (exp' - exp).toNat
      (if negative then -value else value) < if negative' then -value' else value'

/-- Rounding half to even at most doubles a quotient: below one half it gives 0. -/
theorem roundDiv_halfEven_le (n : Nat) {b : Nat} (hb : 0 < b) :
    Decimal.roundDiv .halfEven n b * b ≤ 2 * n := by
  have hdivision := Nat.div_add_mod n b
  have hmod := Nat.mod_lt n hb
  have hcomm : n / b * b = b * (n / b) := Nat.mul_comm _ _
  unfold Decimal.roundDiv
  split
  · rename_i hup
    rw [Nat.add_mul, Nat.one_mul, hcomm]
    by_cases hzero : n / b = 0
    · have hhalf : b < 2 * (n % b) := by
        simpa [Decimal.roundsUp, hzero] using hup
      omega
    · have hle : b ≤ b * (n / b) := Nat.le_mul_of_pos_right b (Nat.pos_of_ne_zero hzero)
      omega
  · omega

/-- A ratio with few bits before the point has its last place far below the range's end. -/
theorem PyFloat.lastPlace_lt {num den k : Nat} (hnum : num < 2 ^ k * den) (hk : k < 1000) :
    lastPlace num den < 971 := by
  have hden : den ≠ 0 := by
    rintro rfl
    simp at hnum
  have hlog : Nat.log2 num < k + (Nat.log2 den + 1) := by
    by_cases hzero : num = 0
    · simp [hzero]
    · rw [Nat.log2_lt hzero, Nat.pow_add]
      exact hnum.trans ((Nat.mul_lt_mul_left (by positivity)).mpr Nat.lt_log2_self)
  simp only [lastPlace]
  split <;> omega

/-- Rounding gives a float that at most doubles the ratio, when this is not too large. -/
theorem PyFloat.ofRatio_spec {num den k : Nat} (negative : Bool) (hnum : num < 2 ^ k * den)
    (hk : k < 1000) :
    ∃ mantissa exp, ofRatio negative num den = .finite negative mantissa exp ∧
      mantissa * 2 ^ exp.toNat * den ≤ 2 * num * 2 ^ (-exp).toNat := by
  have hlast := lastPlace_lt hnum hk
  have hden : 0 < den := by
    rcases Nat.eq_zero_or_pos den with rfl | hpos
    · simp at hnum
    · exact hpos
  simp only [ofRatio]
  rw [if_neg fun hinfinite => absurd hinfinite.1 (not_le.mpr hlast)]
  refine ⟨_, _, rfl, ?_⟩
  generalize lastPlace num den = exp
  have hle := roundDiv_halfEven_le (num * 2 ^ (-exp).toNat)
    (show 0 < den * 2 ^ exp.toNat by positivity)
  generalize Decimal.roundDiv .halfEven (num * 2 ^ (-exp).toNat) (den * 2 ^ exp.toNat) = mantissa
    at hle
  calc mantissa * 2 ^ exp.toNat * den = mantissa * (den * 2 ^ exp.toNat) := by ring
    _ ≤ 2 * (num * 2 ^ (-exp).toNat) := hle
    _ = 2 * num * 2 ^ (-exp).toNat := by ring

/-- `x * n` is at most four times the exact product. -/
theorem PyFloat.ofRatio_mulNat {num den k : Nat} (negative : Bool) (n : Nat)
    (hnum : num < 2 ^ k * den) (hprod : n < 2 ^ k) (hk : 2 * k + 1 < 1000) :
    ∃ mantissa exp, (ofRatio negative num den).mulNat n = .finite negative mantissa exp ∧
      mantissa * 2 ^ exp.toNat * den ≤ 4 * (num * n) * 2 ^ (-exp).toNat := by
  have hden : 0 < den := by
    rcases Nat.eq_zero_or_pos den with rfl | hpos
    · simp at hnum
    · exact hpos
  obtain ⟨mantissa, exp, hround, hle⟩ := ofRatio_spec negative hnum (by omega)
  have hfits : mantissa * n * 2 ^ exp.toNat < 2 ^ (2 * k + 1) * 2 ^ (-exp).toNat := by
    refine lt_of_mul_lt_mul_right ?_ (Nat.zero_le den)
    calc mantissa * n * 2 ^ exp.toNat * den = mantissa * 2 ^ exp.toNat * den * n := by ring
      _ ≤ 2 * num * 2 ^ (-exp).toNat * n := Nat.mul_le_mul_right n hle
      _ ≤ 2 * num * 2 ^ (-exp).toNat * 2 ^ k := Nat.mul_le_mul_left _ hprod.le
      _ < 2 * (2 ^ k * den) * 2 ^ (-exp).toNat * 2 ^ k := by gcongr
      _ = 2 ^ (2 * k + 1) * 2 ^ (-exp).toNat * den := by ring
  obtain ⟨mantissa', exp', hround', hle'⟩ := ofRatio_spec negative hfits (by omega)
  refine ⟨mantissa', exp', by rw [hround, mulNat, hround'], ?_⟩
  refine le_of_mul_le_mul_right ?_ (show 0 < 2 ^ (-exp).toNat by positivity)
  calc mantissa' * 2 ^ exp'.toNat * den * 2 ^ (-exp).toNat
      = mantissa' * 2 ^ exp'.toNat * 2 ^ (-exp).toNat * den := by ring
    _ ≤ 2 * (mantissa * n * 2 ^ exp.toNat) * 2 ^ (-exp').toNat * den :=
        Nat.mul_le_mul_right den hle'
    _ = 2 * n * 2 ^ (-exp').toNat * (mantissa * 2 ^ exp.toNat * den) := by ring
    _ ≤ 2 * n * 2 ^ (-exp').toNat * (2 * num * 2 ^ (-exp).toNat) := Nat.mul_le_mul_left _ hle
    _ = 4 * (num * n) * 2 ^ (-exp').toNat * 2 ^ (-exp).toNat := by ring

end Python
end BettingPlatform
