import Mathlib.Tactic.Linarith
import BettingPlatform.Foundations.DecimalRounding
import BettingPlatform.Foundations.FloatArithmetic

/-!
# The order of rounded ratios

Rounding to the nearest float moves a ratio by at most half a unit in its last place.  So
ratios of one denominator keep their order as long as they are further apart than that.

Main results:

- Theorem `PyFloat.ofRatio_error`: how far a float is from the ratio it was rounded from.
- Theorem `PyFloat.ofRatio_lt_iff`: rounding keeps the order of ratios that are far apart.
-/

namespace BettingPlatform
namespace Python

section Error

variable {num den k : Nat}

/-- A ratio below `2 ^ k` has its last place at `2 ^ (k - 53)` at most. -/
theorem PyFloat.lastPlace_le (hnum : num < 2 ^ k * den) :
    lastPlace num den ≤ max ((k : Int) - 53) (-1074) := by
  have hlog : Nat.log2 num ≤ k + Nat.log2 den := by
    by_cases hzero : num = 0
    · simp [hzero]
    · have hlt : Nat.log2 num < k + (Nat.log2 den + 1) := by
        rw [Nat.log2_lt hzero, Nat.pow_add]
        exact hnum.trans ((Nat.mul_lt_mul_left (by positivity)).mpr Nat.lt_log2_self)
      omega
  simp only [lastPlace]
  refine max_le_max_right _ ?_
  split
  · omega
  · rename_i hhigh
    by_contra hlt
    have hexp : (Nat.log2 num : Int) - Nat.log2 den - 52 = k - 52 := by omega
    rw [hexp] at hhigh
    refine hhigh ?_
    calc num * 2 ^ (-((k : Int) - 52)).toNat
        < 2 ^ k * den * 2 ^ (-((k : Int) - 52)).toNat :=
          Nat.mul_lt_mul_of_pos_right hnum (by positivity)
      _ = 2 ^ (k + (-((k : Int) - 52)).toNat) * den := by ring
      _ = 2 ^ (52 + ((k : Int) - 52).toNat) * den := by
          congr 2
          omega
      _ = 2 ^ 52 * den * 2 ^ ((k : Int) - 52).toNat := by ring

/-- The power of two that `exp` stands for, from its two halves. -/
theorem two_zpow_eq (exp : Int) : (2 : ℚ) ^ exp = 2 ^ exp.toNat / 2 ^ (-exp).toNat := by
  rw [← zpow_natCast, ← zpow_natCast, ← zpow_sub₀ (by norm_num)]
  congr 1
  omega

/-- Rounding moves a ratio by at most half of its last place. -/
theorem PyFloat.ofRatio_error (hden : 0 < den) (hnum : num < 2 ^ k * den) (hk : k < 1000) :
    ∃ mantissa exp, ofRatio false num den = .finite false mantissa exp ∧
      exp ≤ max ((k : Int) - 52) (-1074) ∧
      |value false mantissa exp - (num : ℚ) / den| ≤ 2 ^ exp / 2 := by
  have hlast := lastPlace_lt hnum hk
  have hle : lastPlace num den ≤ max ((k : Int) - 52) (-1074) :=
    (lastPlace_le hnum).trans (max_le_max_right _ (by omega))
  simp only [ofRatio]
  rw [if_neg fun hinfinite => absurd hinfinite.1 (not_le.mpr hlast)]
  refine ⟨_, _, rfl, hle, ?_⟩
  generalize lastPlace num den = exp
  have hbound : 0 < den * 2 ^ exp.toNat := by positivity
  obtain ⟨hlow, hhigh⟩ := Decimal.roundDiv_bounds .halfEven (num * 2 ^ (-exp).toNat) hbound
  generalize Decimal.roundDiv .halfEven (num * 2 ^ (-exp).toNat) (den * 2 ^ exp.toNat) = mantissa
    at hlow hhigh
  have hlowQ : (2 * (num * 2 ^ (-exp).toNat) : ℚ) ≤
      2 * (mantissa * (den * 2 ^ exp.toNat)) + den * 2 ^ exp.toNat := by exact_mod_cast hlow
  have hhighQ : (2 * (mantissa * (den * 2 ^ exp.toNat)) : ℚ) ≤
      2 * (num * 2 ^ (-exp).toNat) + den * 2 ^ exp.toNat := by exact_mod_cast hhigh
  have hdenQ : (0 : ℚ) < den := by exact_mod_cast hden
  have hneg : (0 : ℚ) < 2 ^ (-exp).toNat := by positivity
  have hvalue : value false mantissa exp = mantissa * (2 ^ exp.toNat / 2 ^ (-exp).toNat) := by
    simp [value, two_zpow_eq]
  rw [hvalue, two_zpow_eq, abs_le]
  constructor
  · rw [← sub_nonneg]
    have hsum : (mantissa : ℚ) * (2 ^ exp.toNat / 2 ^ (-exp).toNat) - num / den -
        -(2 ^ exp.toNat / 2 ^ (-exp).toNat / 2) =
        (2 * (mantissa * (den * 2 ^ exp.toNat)) + den * 2 ^ exp.toNat -
          2 * (num * 2 ^ (-exp).toNat)) / (2 * den * 2 ^ (-exp).toNat) := by
      field_simp
      ring
    rw [hsum]
    exact div_nonneg (by linarith) (by positivity)
  · rw [← sub_nonneg]
    have hsum : (2 ^ exp.toNat / 2 ^ (-exp).toNat / 2 : ℚ) -
        (mantissa * (2 ^ exp.toNat / 2 ^ (-exp).toNat) - num / den) =
        (2 * (num * 2 ^ (-exp).toNat) + den * 2 ^ exp.toNat -
          2 * (mantissa * (den * 2 ^ exp.toNat))) / (2 * den * 2 ^ (-exp).toNat) := by
      field_simp
      ring
    rw [hsum]
    exact div_nonneg (by linarith) (by positivity)

end Error

/-- A ratio that is smaller by a whole unit of the denominator is rounded to a smaller
float. -/
theorem PyFloat.ofRatio_lt {num num' den k : Nat} (hden : 0 < den) (hlt : num < num')
    (hnum' : num' < 2 ^ k * den) (happart : den * 2 ^ k < 2 ^ 52) :
    (ofRatio false num den).lt (ofRatio false num' den) = true := by
  have hk : k < 52 := by
    by_contra hlarge
    have hpow : 2 ^ 52 ≤ 2 ^ k := Nat.pow_le_pow_right (by decide) (not_lt.mp hlarge)
    have hmul : 2 ^ k ≤ den * 2 ^ k := Nat.le_mul_of_pos_left _ hden
    omega
  obtain ⟨m, e, hfloat, he, herror⟩ := ofRatio_error hden (hlt.trans hnum') (by omega)
  obtain ⟨m', e', hfloat', he', herror'⟩ := ofRatio_error hden hnum' (by omega)
  rw [hfloat, hfloat', lt_finite_iff]
  have hmax : max ((k : Int) - 52) (-1074) = (k : Int) - 52 := by omega
  have hdenQ : (0 : ℚ) < den := by exact_mod_cast hden
  have hplace : (2 : ℚ) ^ ((k : Int) - 52) * den < 1 := by
    rw [zpow_sub₀ (by norm_num), zpow_natCast, div_mul_eq_mul_div, div_lt_one (by positivity)]
    calc (2 : ℚ) ^ k * den = ((den * 2 ^ k : ℕ) : ℚ) := by push_cast; ring
      _ < ((2 ^ 52 : ℕ) : ℚ) := by exact_mod_cast happart
      _ = 2 ^ (52 : ℤ) := by norm_num
  have hle : (2 : ℚ) ^ e ≤ 2 ^ ((k : Int) - 52) := zpow_le_zpow_right₀ (by norm_num) (hmax ▸ he)
  have hle' : (2 : ℚ) ^ e' ≤ 2 ^ ((k : Int) - 52) := zpow_le_zpow_right₀ (by norm_num) (hmax ▸ he')
  have hgap : (num : ℚ) / den + 1 / den ≤ num' / den := by
    rw [← add_div, div_le_div_iff_of_pos_right hdenQ]
    exact_mod_cast hlt
  have hunit : (2 : ℚ) ^ ((k : Int) - 52) < 1 / den := by
    rwa [lt_div_iff₀ hdenQ]
  have habove := (abs_le.mp herror).2
  have hbelow := (abs_le.mp herror').1
  linarith

/-- Of two floats at most one is below the other. -/
theorem PyFloat.lt_asymm {x y : PyFloat} (h : x.lt y = true) : y.lt x = false := by
  cases x with
  | nan => simp [lt] at h
  | infinity a =>
      cases y with
      | nan => simp [lt] at h
      | infinity b => cases a <;> cases b <;> simp_all [lt]
      | finite => simpa [lt] using h
  | finite a m e =>
      cases y with
      | nan => simp [lt] at h
      | infinity b => simpa [lt] using h
      | finite b m' e' =>
          rw [lt_finite_iff] at h
          rw [← Bool.not_eq_true, lt_finite_iff]
          exact not_lt.mpr h.le

/-- Rounding keeps the order of ratios of one denominator that are far apart. -/
theorem PyFloat.ofRatio_lt_iff {num num' den k : Nat} (hden : 0 < den) (hnum : num < 2 ^ k * den)
    (hnum' : num' < 2 ^ k * den) (happart : den * 2 ^ k < 2 ^ 52) :
    (ofRatio false num den).lt (ofRatio false num' den) = true ↔ num < num' := by
  refine ⟨fun hfloat => ?_, fun hlt => ofRatio_lt hden hlt hnum' happart⟩
  by_contra hnot
  have hasymm := lt_asymm hfloat
  rcases (not_lt.mp hnot).lt_or_eq with hlt | rfl
  · rw [ofRatio_lt hden hlt hnum happart] at hasymm
    contradiction
  · rw [hfloat] at hasymm
    contradiction

end Python
end BettingPlatform
