import BettingPlatform.Foundations.FloatOrder

/-!
# Truncating a rounded ratio

A float with binary places behind the point is truncated to the whole number below it.  Half
a last place below a whole number, a ratio is rounded up to it: the tie goes to the whole
number, whose last binary digit is even.

Main results:

- Theorem `PyFloat.lastPlace_ge`: how low the last place of a ratio can be.
- Theorem `PyFloat.toInt_ofRatio`: the whole number that a rounded ratio is truncated to.
-/

namespace BettingPlatform
namespace Python

/-- Behind a cut at an even number, the two ways of rounding agree. -/
theorem roundDiv_halfEven_div {n b c : Nat} (hc : 2 ∣ c) :
    Decimal.roundDiv .halfEven n b / c = Decimal.roundDiv .halfUp n b / c := by
  obtain ⟨half, rfl⟩ := hc
  unfold Decimal.roundDiv Decimal.roundsUp
  by_cases htie : 2 * (n % b) = b
  · by_cases heven : n / b % 2 = 0
    · -- a tie that is rounded down to an even number
      have hdown : (n / b + 1) / (2 * half) = n / b / (2 * half) := by
        rw [← Nat.div_div_eq_div_mul, ← Nat.div_div_eq_div_mul]
        congr 1
        omega
      simp [htie, heven, hdown]
    · have hodd : n / b % 2 = 1 := by omega
      simp [htie, hodd]
  · have hsame : b < 2 * (n % b) ↔ b ≤ 2 * (n % b) := by omega
    simp [htie, hsame]

section Places

variable {num den k : Nat}

/-- A ratio from `2 ^ k` on has its last place at `2 ^ (k - 52)` at least. -/
theorem PyFloat.lastPlace_ge (hden : 0 < den) (hnum : 2 ^ k * den ≤ num) :
    (k : Int) - 52 ≤ lastPlace num den := by
  have hpos : 0 < num := (Nat.mul_pos (by positivity) hden).trans_le hnum
  have hlog : k + Nat.log2 den ≤ Nat.log2 num := by
    rw [Nat.le_log2 hpos.ne', Nat.pow_add]
    exact (Nat.mul_le_mul_left _ (Nat.log2_self_le hden.ne')).trans hnum
  simp only [lastPlace]
  refine le_max_of_le_left ?_
  split
  · rename_i hlow
    by_contra hlt
    have hexp : (Nat.log2 num : Int) - Nat.log2 den - 52 = k - 52 := by omega
    rw [hexp] at hlow
    have hhigh : 2 ^ 52 * den * 2 ^ ((k : Int) - 52).toNat ≤
        num * 2 ^ (-((k : Int) - 52)).toNat := by
      calc 2 ^ 52 * den * 2 ^ ((k : Int) - 52).toNat
          = 2 ^ (52 + ((k : Int) - 52).toNat) * den := by ring
        _ = 2 ^ (k + (-((k : Int) - 52)).toNat) * den := by
          congr 2
          omega
        _ = 2 ^ k * den * 2 ^ (-((k : Int) - 52)).toNat := by ring
        _ ≤ num * 2 ^ (-((k : Int) - 52)).toNat := Nat.mul_le_mul_right _ hnum
    omega
  · omega

/-- The binary places of the float nearest to a ratio. -/
def PyFloat.places (num den : Nat) : Nat :=
  (-lastPlace num den).toNat

/-- A ratio below `2 ^ k` has at least `53 - k` binary places. -/
theorem PyFloat.places_ge (hnum : num < 2 ^ k * den) : 53 - k ≤ places num den := by
  have hle := lastPlace_le hnum
  unfold places
  omega

/-- A ratio from `2 ^ k` on has at most `52 - k` binary places. -/
theorem PyFloat.places_le (hden : 0 < den) (hnum : 2 ^ k * den ≤ num) :
    places num den ≤ 52 - k := by
  have hge := lastPlace_ge hden hnum
  unfold places
  omega

/-- The float nearest to a ratio with binary places. -/
theorem PyFloat.ofRatio_places (negative : Bool) (hnum : num < 2 ^ k * den) (hk : k ≤ 52) :
    ofRatio negative num den = .finite negative
      (Decimal.roundDiv .halfEven (num * 2 ^ places num den) den) (-places num den) := by
  have hle := lastPlace_le hnum
  have hexp : lastPlace num den = -(places num den : Int) := by
    unfold places
    omega
  have hzero : (lastPlace num den).toNat = 0 := by omega
  have hlast : ¬ (971 ≤ lastPlace num den) := by omega
  simp only [ofRatio, hlast, false_and, if_false, hzero, pow_zero, mul_one]
  rw [hexp, neg_neg, Int.toNat_natCast]

/-- `int(x)` of the float nearest to a ratio: half a last place is added, and the sum is cut
off. -/
theorem PyFloat.toInt_ofRatio (hden : 0 < den) (hnum : num < 2 ^ k * den) (hk : k ≤ 52) :
    (Json.float (ofRatio false num den)).toInt =
      .ok ⌊(num : ℚ) / den + 1 / (2 * 2 ^ places num den)⌋ := by
  have hplaces := places_ge hnum
  have heven : 2 ∣ 2 ^ places num den := dvd_pow_self 2 (by omega)
  have hcut := @roundDiv_halfEven_div (num * 2 ^ places num den) den _ heven
  rw [ofRatio_places false hnum hk]
  generalize places num den = p at hcut ⊢
  have hfloor : ⌊(num : ℚ) / den + 1 / (2 * 2 ^ p)⌋ =
      ((2 * (num * 2 ^ p) + den) / (2 * den) / 2 ^ p : Nat) := by
    rw [Nat.div_div_eq_div_mul, Int.natCast_div, ← Rat.floor_natCast_div_natCast]
    congr 1
    have hdenQ : (den : ℚ) ≠ 0 := by exact_mod_cast hden.ne'
    push_cast
    field_simp
  rw [Decimal.roundDiv_halfUp _ hden] at hcut
  rw [hfloor, ← hcut]
  simp [Json.toInt]

end Places

end Python
end BettingPlatform
