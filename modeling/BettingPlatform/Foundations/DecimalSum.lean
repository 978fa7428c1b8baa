import BettingPlatform.Foundations.DecimalRounding

/-!
# Sums and order of Python decimals

Main results:

- Theorem `add_of_exp`: the sum of two decimals of one exponent is exact.
- Theorem `lt_of_exp`: and their order is that of their signed coefficients.
- Theorem `quantize_le`: quantizing does not lift a magnitude over a bound of the new
  exponent.
-/

namespace BettingPlatform
namespace Decimal

/-- The coefficient with its sign. -/
def signed (d : Decimal) : Int :=
  if d.negative then -d.coeff else d.coeff

/-- The signed coefficient at an exponent that is not above that of the decimal. -/
def signedAt (d : Decimal) (exp : Int) : Int :=
  d.signed * 10 ^ (d.exp - exp).toNat

/-- `__add__`. -/
def add (a b : Decimal) : Decimal :=
  let exp := min a.exp b.exp
  let sum := a.signedAt exp + b.signedAt exp
  fix ⟨if sum = 0 then a.negative && b.negative else sum < 0, sum.natAbs, exp⟩

/-- `a < b`. -/
def lt (a b : Decimal) : Bool :=
  let exp := min a.exp b.exp
  a.signedAt exp < b.signedAt exp

/-- `max(a, b)`: the first one, unless the second is greater. -/
def maxOf (a b : Decimal) : Decimal :=
  if a.lt b then b else a

/-- `min(a, b)`: the first one, unless the second is less. -/
def minOf (a b : Decimal) : Decimal :=
  if b.lt a then b else a

@[simp] theorem signedAt_exp (d : Decimal) : d.signedAt d.exp = d.signed := by
  simp [signedAt]

/-- Decimals of one exponent compare as their signed coefficients. -/
theorem lt_of_exp {a b : Decimal} (hexp : b.exp = a.exp) : a.lt b = decide
    (a.signed < b.signed) := by
  have hb : b.signedAt a.exp = b.signed := by rw [← hexp, signedAt_exp]
  simp [lt, hexp, hb]

/-- The sum of two decimals of one exponent is exact, when it has few digits. -/
theorem add_of_exp {a b : Decimal} (hexp : b.exp = a.exp) {n : Nat} (hn : 0 < n)
    (hsum : a.signed + b.signed = n) (hdigits : n < 10 ^ prec) : add a b = ⟨false, n, a.exp⟩ := by
  have hb : b.signedAt a.exp = b.signed := by rw [← hexp, signedAt_exp]
  have hsign : decide ((n : Int) < 0) = false := by simp
  simp only [add, hexp, min_self, hb, signedAt_exp, hsum, Int.natAbs_natCast, Nat.cast_eq_zero,
    hn.ne', if_false, hsign]
  exact if_pos ((numDigits_le_iff (by decide)).mpr hdigits)

/-- Quantizing does not lift a magnitude over a bound of the new exponent. -/
theorem quantize_le {d : Decimal} {places n : Nat} (mode : Rounding)
    (h : magnitude d * 10 ^ places ≤ n) (hn : n < 10 ^ prec) :
    ∃ coeff ≤ n, quantize d (-places) mode = some ⟨d.negative, coeff, -places⟩ := by
  have hscaled : magnitude d * 10 ^ places = d.coeff * 10 ^ (d.exp + places) := by
    rw [magnitude, zpow_add₀ (by norm_num), zpow_natCast, mul_assoc]
  rw [hscaled] at h
  suffices hcoeff : (if -(places : Int) ≤ d.exp then d.coeff * 10 ^ (d.exp - -(places : Int)).toNat
      else roundDiv mode d.coeff (10 ^ (-(places : Int) - d.exp).toNat)) ≤ n by
    refine ⟨_, hcoeff, ?_⟩
    simp only [quantize]
    exact if_pos ((numDigits_le_iff (by decide)).mpr (hcoeff.trans_lt hn))
  split
  · rename_i hle
    have hpow : (10 : ℚ) ^ (d.exp + places) = 10 ^ (d.exp - -(places : Int)).toNat := by
      rw [← zpow_natCast]
      congr 1
      omega
    rw [hpow] at h
    exact_mod_cast h
  · rename_i hlt
    generalize hj : (-(places : Int) - d.exp).toNat = j
    have hpow : (10 : ℚ) ^ (d.exp + places) = 1 / 10 ^ j := by
      rw [one_div, ← zpow_natCast, ← zpow_neg]
      congr 1
      omega
    have hcoeff : d.coeff ≤ n * 10 ^ j := by
      rw [hpow, mul_one_div, div_le_iff₀ (by positivity)] at h
      exact_mod_cast h
    have hb : 0 < 10 ^ j := by positivity
    obtain ⟨-, hround⟩ := roundDiv_bounds mode d.coeff hb
    by_contra hgreater
    have hmul : (n + 1) * 10 ^ j ≤ roundDiv mode d.coeff (10 ^ j) * 10 ^ j :=
      Nat.mul_le_mul_right _ (not_le.mp hgreater)
    have hexpand : (n + 1) * 10 ^ j = n * 10 ^ j + 10 ^ j := by ring
    omega

end Decimal
end BettingPlatform
