import BettingPlatform.Foundations.Decimal
import Mathlib.Algebra.Order.Field.Power
import Mathlib.Algebra.Order.Floor.Semifield
import Mathlib.Data.Rat.Floor
import Mathlib.Data.Nat.Cast.Field
import Mathlib.Data.Nat.Cast.Order.Field
import Mathlib.Tactic.FieldSimp
import Mathlib.Tactic.Linarith
import Mathlib.Tactic.Positivity
import Mathlib.Tactic.NormNum
import Mathlib.Tactic.Ring

/-!
# Rounding of decimals

Python rounds a quotient to 28 digits before a `quantize` rounds it again.  For the amounts
of the platform the second rounding gives what rounding the exact quotient once would give:
a quotient of two small numbers is a half-integer or keeps its distance from all of them.

Main results:

- Theorem `Decimal.fix_error`: rounding to the precision of the context is off by at most
  half a unit of the last place.
- Theorem `Decimal.div_spec`: a quotient is off by less than one part in 10^27, and exact
  when it has at most 28 digits.
- Theorem `Decimal.quantize_halfUp`: quantizing rounds the value half up.
- Theorem `Decimal.quantize_div`: a quantized quotient is the exact quotient rounded once.
-/

namespace BettingPlatform
namespace Decimal

/-! ## Values -/

/-- The absolute value of a decimal. -/
def magnitude (d : Decimal) : ℚ :=
  d.coeff * (10 : ℚ) ^ d.exp

theorem numDigits_le_iff {n k : Nat} (hk : 0 < k) : numDigits n ≤ k ↔ n < 10 ^ k :=
  Nat.length_toDigits_le_iff (by decide) hk

/-- A number is below the power of ten that its digits give. -/
theorem lt_pow_numDigits (n : Nat) : n < 10 ^ numDigits n :=
  (numDigits_le_iff Nat.length_toDigits_pos).mp le_rfl

/-- And not below the one before. -/
theorem pow_le_of_pos {n : Nat} (hn : 0 < n) : 10 ^ (numDigits n - 1) ≤ n := by
  by_contra hlt
  rcases Nat.eq_zero_or_pos (numDigits n - 1) with hzero | hpos
  · rw [hzero] at hlt
    omega
  · have hle := (numDigits_le_iff hpos).mpr (Nat.not_le.mp hlt)
    omega

/-- A rounded quotient is off by at most a half. -/
theorem roundDiv_bounds (mode : Rounding) (n : Nat) {b : Nat} (hb : 0 < b) :
    2 * n ≤ 2 * (roundDiv mode n b * b) + b ∧ 2 * (roundDiv mode n b * b) ≤ 2 * n + b := by
  have hdiv := Nat.div_add_mod n b
  have hmod := Nat.mod_lt n hb
  have hmul : (n / b + 1) * b = b * (n / b) + b := by ring
  have hmul' : n / b * b = b * (n / b) := Nat.mul_comm _ _
  unfold roundDiv
  split
  · rename_i hup
    rw [hmul]
    have hhalf : b ≤ 2 * (n % b) := by
      cases mode with
      | halfUp => simpa [roundsUp] using hup
      | halfEven =>
          simp only [roundsUp, Bool.or_eq_true, decide_eq_true_eq, Bool.and_eq_true] at hup
          omega
    omega
  · rename_i hdown
    rw [hmul']
    have hhalf : 2 * (n % b) ≤ b := by
      cases mode with
      | halfUp =>
          simp only [roundsUp, decide_eq_true_eq] at hdown
          omega
      | halfEven =>
          simp only [roundsUp, Bool.or_eq_true, decide_eq_true_eq, Bool.and_eq_true] at hdown
          omega
    omega

/-- An exact quotient is not rounded. -/
theorem roundDiv_mul (mode : Rounding) (n : Nat) {b : Nat} (hb : 0 < b) :
    roundDiv mode (n * b) b = n := by
  have hup : roundsUp mode (n * b) b = false := by
    cases mode <;> (simp [roundsUp, hb.ne']; try omega)
  rw [roundDiv, hup, Nat.mul_div_cancel n hb]
  rfl

/-- Rounding half up adds a half and truncates. -/
theorem roundDiv_halfUp (n : Nat) {b : Nat} (hb : 0 < b) :
    roundDiv .halfUp n b = (2 * n + b) / (2 * b) := by
  have hdiv := Nat.div_add_mod n b
  have hmod := Nat.mod_lt n hb
  symm
  rw [Nat.div_eq_iff (by omega)]
  unfold roundDiv
  simp only [roundsUp, decide_eq_true_eq]
  split
  · have hmul : (n / b + 1) * (2 * b) = 2 * (b * (n / b)) + 2 * b := by ring
    omega
  · have hmul : n / b * (2 * b) = 2 * (b * (n / b)) := by ring
    omega

/-- A decimal that fits the context is kept, any other is rounded half even to its digits. -/
theorem fix_cases (d : Decimal) :
    (fix d = d ∧ numDigits d.coeff ≤ prec) ∨
      ∃ k, numDigits d.coeff = prec + k ∧ 0 < k ∧ (fix d).negative = d.negative ∧
        numDigits (fix d).coeff ≤ prec ∧
        magnitude (fix d) = roundDiv .halfEven d.coeff (10 ^ k) * (10 : ℚ) ^ (d.exp + k) := by
  unfold fix
  split
  · rename_i hfits
    exact Or.inl ⟨rfl, hfits⟩
  · rename_i hlong
    right
    have hk : numDigits d.coeff = prec + (numDigits d.coeff - prec) := by omega
    generalize numDigits d.coeff - prec = k at hk
    have hpow : 0 < 10 ^ k := by positivity
    simp only
    split
    · rename_i hround
      exact ⟨k, hk, by omega, rfl, hround, rfl⟩
    · rename_i hround
      -- the rounding went up to the next power of ten
      have hlt := lt_pow_numDigits d.coeff
      rw [hk, Nat.pow_add] at hlt
      have hdiv : d.coeff / 10 ^ k < 10 ^ prec := Nat.div_lt_of_lt_mul (by rwa [Nat.mul_comm])
      have hle : roundDiv .halfEven d.coeff (10 ^ k) ≤ 10 ^ prec := by
        unfold roundDiv
        split <;> omega
      have hge : 10 ^ prec ≤ roundDiv .halfEven d.coeff (10 ^ k) :=
        Nat.not_lt.mp fun h => hround ((numDigits_le_iff (by decide)).mpr h)
      have heq := Nat.le_antisymm hle hge
      refine ⟨k, hk, by omega, rfl, ?_, ?_⟩
      · simp only [heq]
        exact (numDigits_le_iff (by decide)).mpr (by norm_num [prec])
      · simp only [magnitude, heq]
        rw [zpow_add_one₀ (by norm_num)]
        norm_num [prec]
        ring

/-- Rounding to the precision keeps the sign and fits. -/
theorem fix_fits (d : Decimal) : (fix d).negative = d.negative ∧ numDigits
    (fix d).coeff ≤ prec := by
  obtain ⟨hfix, hfits⟩ | ⟨k, -, -, hneg, hfits, -⟩ := fix_cases d
  · rw [hfix]
    exact ⟨rfl, hfits⟩
  · exact ⟨hneg, hfits⟩

/-- Rounding to an exponent keeps the sign. -/
theorem quantize_negative {d q : Decimal} {exp : Int} {mode : Rounding}
    (h : d.quantize exp mode = some q) : q.negative = d.negative := by
  unfold quantize at h
  extract_lets coeff at h
  split at h
  · obtain rfl := Option.some.inj h
    rfl
  · contradiction

/-- A number of at most 28 digits and trailing zeros is not rounded. -/
theorem fix_exact {d : Decimal} {m j : Nat} (hcoeff : d.coeff = m * 10 ^ j) (hm : m < 10 ^ prec) :
    magnitude (fix d) = magnitude d := by
  obtain ⟨hfix, -⟩ | ⟨k, hk, hpos, -, -, hvalue⟩ := fix_cases d
  · rw [hfix]
  · have hkj : k ≤ j := by
      by_contra hlt
      have hbound : d.coeff < 10 ^ (prec + j) := by
        rw [hcoeff, Nat.pow_add]
        exact Nat.mul_lt_mul_of_pos_right hm (by positivity)
      have hdigits := (numDigits_le_iff (by unfold prec; omega)).mpr hbound
      omega
    obtain ⟨i, rfl⟩ := Nat.exists_eq_add_of_le hkj
    have hsplit : d.coeff = m * 10 ^ i * 10 ^ k := by rw [hcoeff, Nat.pow_add]; ring
    have hpow : 0 < 10 ^ k := by positivity
    rw [hvalue, magnitude, hsplit, roundDiv_mul _ _ hpow, zpow_add₀ (by norm_num)]
    push_cast
    rw [zpow_natCast]
    ring

/-- Rounding to the precision moves a value by at most half a unit of its last place. -/
theorem fix_error (d : Decimal) :
    |magnitude (fix d) - magnitude d| ≤ magnitude d / (2 * 10 ^ 27) := by
  have hnonneg : 0 ≤ magnitude d := by unfold magnitude; positivity
  obtain ⟨hfix, -⟩ | ⟨k, hk, hpos, -, -, hvalue⟩ := fix_cases d
  · rw [hfix, sub_self, abs_zero]
    exact div_nonneg hnonneg (by norm_num)
  · have hpow : 0 < 10 ^ k := by positivity
    obtain ⟨hlow, hhigh⟩ := roundDiv_bounds .halfEven d.coeff hpow
    have hcoeff : 0 < d.coeff := by
      rcases Nat.eq_zero_or_pos d.coeff with hzero | hpos
      · rw [hzero] at hk
        exact absurd hk (by simp [numDigits, prec]; omega)
      · exact hpos
    have hlarge : 10 ^ 27 * 10 ^ k ≤ d.coeff := by
      have hle := pow_le_of_pos hcoeff
      rw [hk] at hle
      rw [← Nat.pow_add]
      exact (Nat.pow_le_pow_right (by decide) (by unfold prec; omega)).trans hle
    generalize roundDiv .halfEven d.coeff (10 ^ k) = c at hlow hhigh hvalue
    have hlow' : (2 * d.coeff : ℚ) ≤ 2 * (c * 10 ^ k) + 10 ^ k := by exact_mod_cast hlow
    have hhigh' : (2 * (c * 10 ^ k) : ℚ) ≤ 2 * d.coeff + 10 ^ k := by exact_mod_cast hhigh
    have hlarge' : (10 ^ 27 * 10 ^ k : ℚ) ≤ d.coeff := by exact_mod_cast hlarge
    have hexp : (0 : ℚ) < 10 ^ d.exp := by positivity
    rw [hvalue, zpow_add₀ (by norm_num), zpow_natCast, magnitude]
    have hfactor : (c : ℚ) * (10 ^ d.exp * 10 ^ k) - d.coeff * 10 ^ d.exp =
        (c * 10 ^ k - d.coeff) * 10 ^ d.exp := by ring
    rw [hfactor, abs_mul, abs_of_pos hexp, mul_div_right_comm]
    refine mul_le_mul_of_nonneg_right ?_ hexp.le
    rw [abs_le]
    constructor
    · linarith
    · linarith

/-! ## Division -/

/-- Shedding trailing zeros keeps the value. -/
theorem shed_value (room coeff : Nat) (exp : Int) :
    ((shed room coeff exp).1 : ℚ) * 10 ^ (shed room coeff exp).2 = coeff * 10 ^ exp := by
  induction room generalizing coeff exp with
  | zero => rfl
  | succ room ih =>
      rw [shed]
      split
      · rename_i hzero
        rw [ih, zpow_add_one₀ (by norm_num)]
        have hmul : coeff = coeff / 10 * 10 := by omega
        conv_rhs => rw [hmul]
        push_cast
        ring
      · rfl

/-- The quotient of two nonzero decimals before it is rounded to the precision. -/
def quotient (a b : Decimal) : Decimal :=
  let shift : Int := numDigits b.coeff - numDigits a.coeff + prec + 1
  let num := a.coeff * 10 ^ shift.toNat
  let den := b.coeff * 10 ^ (-shift).toNat
  let exp := a.exp - b.exp - shift
  let negative := a.negative != b.negative
  if num % den ≠ 0 then
    ⟨negative, if num / den % 5 = 0 then num / den + 1 else num / den, exp⟩
  else ⟨negative, (shed shift.toNat (num / den) exp).1, (shed shift.toNat (num / den) exp).2⟩

theorem div_eq_quotient {a b : Decimal} (hb : b.coeff ≠ 0) : div a b = some
    (fix (quotient a b)) := by
  unfold div quotient
  rw [if_neg hb]
  simp only
  split <;> rfl

theorem pow_toNat_div (shift : Int) :
    (10 : ℚ) ^ shift.toNat / 10 ^ (-shift).toNat = 10 ^ shift := by
  rcases le_total 0 shift with h | h
  · lift shift to ℕ using h
    simp
  · obtain ⟨n, rfl⟩ : ∃ n : ℕ, shift = -n := ⟨(-shift).toNat, by omega⟩
    simp

/-- What the division leaves before the rounding: the exact quotient, unless its digits run
on, and then a value less than one unit of the thirtieth digit away. -/
theorem quotient_spec {a b : Decimal} (ha : 0 < a.coeff) (hb : 0 < b.coeff) :
    ∃ exp : Int, (10 : ℚ) ^ exp * 10 ^ 28 ≤ magnitude a / magnitude b ∧
      |magnitude (quotient a b) - magnitude a / magnitude b| ≤ 10 ^ exp ∧
      ((∃ n : Nat, magnitude a / magnitude b = n * 10 ^ exp) →
        magnitude (quotient a b) = magnitude a / magnitude b) := by
  set shift : Int := numDigits b.coeff - numDigits a.coeff + prec + 1 with hshift
  set num := a.coeff * 10 ^ shift.toNat with hnum
  set den := b.coeff * 10 ^ (-shift).toNat with hden
  set exp := a.exp - b.exp - shift with hexp
  have hdenpos : 0 < den := by positivity
  have hbq : (0 : ℚ) < b.coeff := by exact_mod_cast hb
  have hten : (0 : ℚ) < 10 ^ exp := by positivity
  have hratio : magnitude a / magnitude b = (num : ℚ) / den * 10 ^ exp := by
    have hsplit : (num : ℚ) / den = a.coeff / b.coeff * 10 ^ shift := by
      rw [← pow_toNat_div, hnum, hden]
      push_cast
      field_simp
    rw [hsplit, hexp, magnitude, magnitude, zpow_sub₀ (by norm_num), zpow_sub₀ (by norm_num)]
    field_simp
  have hlarge : (10 : ℚ) ^ 28 ≤ (num : ℚ) / den := by
    have hlow : 10 ^ (numDigits a.coeff - 1) ≤ a.coeff := pow_le_of_pos ha
    have hhigh : b.coeff ≤ 10 ^ numDigits b.coeff := (lt_pow_numDigits _).le
    have hdigits : 0 < numDigits a.coeff := Nat.length_toDigits_pos
    have hnat : 10 ^ 28 * den ≤ num := by
      calc 10 ^ 28 * den
          ≤ 10 ^ 28 * (10 ^ numDigits b.coeff * 10 ^ (-shift).toNat) := by
            exact Nat.mul_le_mul_left _ (Nat.mul_le_mul_right _ hhigh)
        _ = 10 ^ (numDigits a.coeff - 1) * 10 ^ shift.toNat := by
            rw [← Nat.pow_add, ← Nat.pow_add, ← Nat.pow_add]
            congr 1
            unfold prec at hshift
            omega
        _ ≤ num := Nat.mul_le_mul_right _ hlow
    rw [le_div_iff₀ (by exact_mod_cast hdenpos)]
    exact_mod_cast hnat
  have hvalue : quotient a b = if num % den ≠ 0 then
      ⟨a.negative != b.negative, if num / den % 5 = 0 then num / den + 1 else num / den, exp⟩
      else ⟨a.negative != b.negative, (shed shift.toNat (num / den) exp).1,
        (shed shift.toNat (num / den) exp).2⟩ := rfl
  have hexact : num % den = 0 → magnitude (quotient a b) = magnitude a / magnitude b := by
    intro hzero
    rw [hvalue, if_neg (not_not.mpr hzero), hratio, magnitude, shed_value,
      Nat.cast_div (Nat.dvd_of_mod_eq_zero hzero) (by exact_mod_cast hdenpos.ne')]
  refine ⟨exp, ?_, ?_, ?_⟩
  · rw [hratio, mul_comm]
    exact mul_le_mul_of_nonneg_right hlarge hten.le
  · by_cases hzero : num % den = 0
    · rw [hexact hzero, sub_self, abs_zero]
      exact hten.le
    · have hfloor : ((num / den : ℕ) : ℚ) ≤ (num : ℚ) / den := Nat.cast_div_le
      have hceil : (num : ℚ) / den < ((num / den : ℕ) : ℚ) + 1 := by
        rw [div_lt_iff₀ (by exact_mod_cast hdenpos)]
        exact_mod_cast Nat.lt_mul_of_div_lt (Nat.lt_succ_self _) hdenpos
      rw [hvalue, if_pos hzero, hratio, magnitude, ← sub_mul, abs_mul, abs_of_pos hten]
      refine mul_le_of_le_one_left hten.le ?_
      simp only
      split
      · push_cast
        rw [abs_le]
        constructor <;> linarith
      · rw [abs_le]
        constructor <;> linarith
  · rintro ⟨n, hn⟩
    apply hexact
    rw [hratio] at hn
    have hdiv : (num : ℚ) / den = n := mul_right_cancel₀ hten.ne' hn
    rw [div_eq_iff (by exact_mod_cast hdenpos.ne')] at hdiv
    have hmul : num = n * den := by exact_mod_cast hdiv
    rw [hmul, Nat.mul_mod_left]

/-- A decimal equal to a short number is not rounded. -/
theorem fix_exact_of_value {d : Decimal} {k m : Nat} (hvalue : magnitude d * 10 ^ k = m)
    (hm : m < 10 ^ prec) : magnitude (fix d) = magnitude d := by
  have hten : (10 : ℚ) ≠ 0 := by norm_num
  rw [magnitude, mul_assoc, ← zpow_natCast, ← zpow_add₀ hten] at hvalue
  rcases le_total 0 (d.exp + k) with h | h
  · obtain ⟨i, hi⟩ := Int.eq_ofNat_of_zero_le h
    rw [hi, zpow_natCast] at hvalue
    have hnat : d.coeff * 10 ^ i = m := by exact_mod_cast hvalue
    have hle : d.coeff ≤ m := hnat ▸ Nat.le_mul_of_pos_right _ (by positivity)
    exact fix_exact (j := 0) (by simp) (hle.trans_lt hm)
  · obtain ⟨i, hi⟩ := Int.eq_ofNat_of_zero_le (Int.neg_nonneg_of_nonpos h)
    have hneg : d.exp + k = -i := by omega
    rw [hneg, zpow_neg, zpow_natCast, ← div_eq_mul_inv, div_eq_iff (by positivity)] at hvalue
    have hnat : d.coeff = m * 10 ^ i := by exact_mod_cast hvalue
    exact fix_exact hnat hm

/-- A quotient of two nonzero decimals is off by less than one part in 10^27, and exact when
it is a number of at most 28 digits. -/
theorem div_spec {a b : Decimal} (ha : 0 < a.coeff) (hb : 0 < b.coeff) :
    ∃ q, div a b = some q ∧ q.negative = (a.negative != b.negative) ∧
      |magnitude q - magnitude a / magnitude b| ≤ magnitude a / magnitude b / 10 ^ 27 ∧
      ∀ k m : Nat, magnitude a / magnitude b * 10 ^ k = m → m < 10 ^ prec →
        magnitude q = magnitude a / magnitude b := by
  obtain ⟨exp, hlarge, herror, hexact⟩ := quotient_spec ha hb
  have hten : (0 : ℚ) < 10 ^ exp := by positivity
  refine ⟨fix (quotient a b), div_eq_quotient hb.ne', ?_, ?_, fun k m hm hlt => ?_⟩
  · rw [(fix_fits _).1]
    unfold quotient
    simp only
    split <;> rfl
  · have hfix := fix_error (quotient a b)
    rw [abs_le] at hfix herror ⊢
    constructor <;> linarith
  · have hshort : exp + k < 0 := by
      by_contra hge
      have hone : (1 : ℚ) ≤ 10 ^ (exp + k) := one_le_zpow₀ (by norm_num) (not_lt.mp hge)
      rw [zpow_add₀ (by norm_num), zpow_natCast] at hone
      have hpow : (0 : ℚ) < 10 ^ k := by positivity
      have hbig : (10 : ℚ) ^ 28 ≤ m := by
        rw [← hm]
        nlinarith
      have hsmall : (m : ℚ) < 10 ^ 28 := by exact_mod_cast hlt
      linarith
    obtain ⟨i, hi⟩ := Int.eq_ofNat_of_zero_le (Int.neg_nonneg_of_nonpos hshort.le)
    have hquotient : magnitude (quotient a b) = magnitude a / magnitude b := by
      refine hexact ⟨m * 10 ^ i, ?_⟩
      have hpow : (10 : ℚ) ^ k ≠ 0 := by positivity
      refine mul_right_cancel₀ hpow ?_
      rw [hm, mul_assoc, ← zpow_natCast, ← zpow_add₀ (by norm_num)]
      have hneg : exp + k = -i := by omega
      rw [hneg, zpow_neg, zpow_natCast]
      push_cast
      rw [mul_assoc, mul_inv_cancel₀ (by positivity), mul_one]
    rw [← hquotient] at hm ⊢
    exact fix_exact_of_value hm hlt

/-! ## Quantizing -/

/-- The whole number that rounds a nonnegative number half up. -/
def roundHalfUp (x : ℚ) : Nat :=
  ⌊x + 1 / 2⌋₊

/-- A whole number is not rounded. -/
theorem roundHalfUp_natCast (n : Nat) : roundHalfUp n = n := by
  rw [roundHalfUp, Nat.floor_eq_iff (by positivity)]
  constructor <;> linarith

/-- The integer division is the rational rounding. -/
theorem roundDiv_eq_roundHalfUp (n : Nat) {b : Nat} (hb : 0 < b) :
    roundDiv .halfUp n b = roundHalfUp (n / b) := by
  have hbq : (0 : ℚ) < b := by exact_mod_cast hb
  have hvalue : (n : ℚ) / b + 1 / 2 = ((2 * n + b : ℕ) : ℚ) / ((2 * b : ℕ) : ℚ) := by
    push_cast
    field_simp
  rw [roundDiv_halfUp n hb, roundHalfUp, hvalue, Nat.floor_div_eq_div]

/-- Rounding does not pass a whole number. -/
theorem roundHalfUp_le {x : ℚ} {n : Nat} (h : x ≤ n) : roundHalfUp x ≤ n := by
  have hlt : roundHalfUp x < n + 1 := by
    by_contra hge
    have hfloor : n + 1 ≤ ⌊x + 1 / 2⌋₊ := not_lt.mp hge
    have hle := (Nat.le_floor_iff' (by omega)).mp hfloor
    push_cast at hle
    linarith
  omega

/-- Quantizing rounds the value half up to a whole number of units. -/
theorem quantize_halfUp {d : Decimal} {exp : Int}
    (hfits : roundHalfUp (magnitude d * 10 ^ (-exp)) < 10 ^ prec) :
    d.quantize exp .halfUp =
      some ⟨d.negative, roundHalfUp (magnitude d * 10 ^ (-exp)), exp⟩ := by
  have hcoeff : (if exp ≤ d.exp then d.coeff * 10 ^ (d.exp - exp).toNat
      else roundDiv .halfUp d.coeff (10 ^ (exp - d.exp).toNat)) =
      roundHalfUp (magnitude d * 10 ^ (-exp)) := by
    rw [magnitude, mul_assoc, ← zpow_add₀ (by norm_num), ← sub_eq_add_neg]
    split
    · rename_i hle
      obtain ⟨i, hi⟩ := Int.eq_ofNat_of_zero_le (Int.sub_nonneg_of_le hle)
      rw [hi, zpow_natCast]
      have hnat : (d.coeff * 10 ^ i : ℚ) = ((d.coeff * 10 ^ i : ℕ) : ℚ) := by push_cast; ring
      rw [hnat, roundHalfUp_natCast, Int.toNat_natCast]
    · rename_i hlt
      obtain ⟨i, hi⟩ := Int.eq_ofNat_of_zero_le (Int.sub_nonneg_of_le (Int.le_of_lt (not_le.mp hlt)))
      have hneg : d.exp - exp = -i := by omega
      rw [hi, hneg, zpow_neg, zpow_natCast, Int.toNat_natCast,
        roundDiv_eq_roundHalfUp _ (by positivity : 0 < 10 ^ i)]
      push_cast
      rw [div_eq_mul_inv]
  unfold quantize
  simp only [hcoeff]
  rw [if_pos ((numDigits_le_iff (by decide)).mpr hfits)]

/-- Two numbers round to the same whole number when no half-integer lies between them. -/
theorem roundHalfUp_congr {x y : ℚ} (hx : 0 ≤ x) (hy : 0 ≤ y)
    (h : ∀ m : Nat, (m : ℚ) - 1 / 2 ≤ x ↔ (m : ℚ) - 1 / 2 ≤ y) : roundHalfUp x = roundHalfUp y := by
  refine eq_of_forall_le_iff fun m => ?_
  unfold roundHalfUp
  rw [Nat.le_floor_iff (by positivity), Nat.le_floor_iff (by positivity), ← sub_le_iff_le_add,
    ← sub_le_iff_le_add]
  exact h m

/-- The rounding of a quotient of two numbers below 10^18 is not disturbed by a relative error
below 10^-27, unless the quotient is a half-integer. -/
theorem roundHalfUp_of_close {scale n s : Nat} {x : ℚ} (hs : 0 < s) (hn : scale * n < 10 ^ 26)
    (hx : |x - scale * n / s| ≤ scale * n / s / 10 ^ 27)
    (htie : ∀ m : Nat, 2 * (scale * n) = (2 * m + 1) * s → x = scale * n / s) :
    roundHalfUp x = roundDiv .halfUp (scale * n) s := by
  have hsq : (0 : ℚ) < s := by exact_mod_cast hs
  have hnq : (scale * n : ℚ) < 10 ^ 26 := by exact_mod_cast hn
  have hvalue : (0 : ℚ) ≤ scale * n / s := by positivity
  rw [abs_le] at hx
  have hsmall : (scale * n / s / 10 ^ 27 : ℚ) < 1 / (2 * s) := by
    rw [div_div, div_lt_div_iff₀ (by positivity) (by positivity)]
    nlinarith
  have hxnonneg : 0 ≤ x := by
    have hle : (scale * n / s / 10 ^ 27 : ℚ) ≤ scale * n / s := div_le_self hvalue (by norm_num)
    linarith
  rw [roundDiv_eq_roundHalfUp _ hs, Nat.cast_mul]
  refine roundHalfUp_congr hxnonneg hvalue fun m => ?_
  -- the quotient is a half-integer or at least 1 / (2 s) away from each
  have hgap : (m : ℚ) - 1 / 2 - scale * n / s = ((2 * m - 1) * s - 2 * (scale * n)) / (2 * s) := by
    field_simp
  have hunit : (0 : ℚ) < 1 / (2 * s) := by positivity
  rcases lt_trichotomy ((2 * m - 1 : ℤ) * s) (2 * (scale * n)) with hlt | heq | hgt
  · have hle : ((2 * m - 1) * s - 2 * (scale * n) : ℚ) ≤ -1 := by
      have hint : (2 * m - 1 : ℤ) * s + 1 ≤ 2 * (scale * n) := hlt
      have hcast : ((2 * m - 1) * s + 1 : ℚ) ≤ 2 * (scale * n) := by exact_mod_cast hint
      linarith
    have hbelow : ((2 * m - 1) * s - 2 * (scale * n) : ℚ) / (2 * s) ≤ -(1 / (2 * s)) := by
      rw [← neg_div]
      gcongr
    constructor <;> intro _ <;> linarith
  · obtain ⟨i, rfl⟩ : ∃ i, m = i + 1 := by
      refine Nat.exists_eq_succ_of_ne_zero fun hzero => ?_
      subst hzero
      have hneg : (-1 : ℤ) * s = 2 * (scale * n) := by simpa using heq
      have hpos : (0 : ℤ) ≤ 2 * (scale * n) := by positivity
      omega
    have hhalf : 2 * (scale * n) = (2 * i + 1) * s := by
      zify
      push_cast at heq
      linarith
    rw [htie i hhalf]
  · have hle : (1 : ℚ) ≤ (2 * m - 1) * s - 2 * (scale * n) := by
      have hint : 2 * (scale * n : ℤ) + 1 ≤ (2 * m - 1) * s := hgt
      have hcast : (2 * (scale * n) + 1 : ℚ) ≤ (2 * m - 1) * s := by exact_mod_cast hint
      linarith
    have habove : 1 / (2 * s) ≤ ((2 * m - 1) * s - 2 * (scale * n) : ℚ) / (2 * s) := by
      gcongr
    constructor <;> intro _ <;> linarith

/-! ## Fixed numbers of decimal places -/

/-- A decimal with that many places is a whole number of its last place. -/
theorem magnitude_of_scaled {places c : Nat} {d : Decimal} (h : d.scaled places = some c) :
    magnitude d * 10 ^ places = c := by
  have hten : (10 : ℚ) ≠ 0 := by norm_num
  rw [magnitude, mul_assoc, ← zpow_natCast, ← zpow_add₀ hten]
  unfold scaled at h
  simp only at h
  split at h
  · rename_i hexp
    obtain rfl := Option.some.inj h
    obtain ⟨i, hi⟩ := Int.eq_ofNat_of_zero_le hexp
    rw [hi, zpow_natCast, Int.toNat_natCast]
    push_cast
    rfl
  · rename_i hexp
    split at h
    · rename_i hzero
      obtain rfl := Option.some.inj h
      obtain ⟨i, hi⟩ := Int.eq_ofNat_of_zero_le (Int.neg_nonneg_of_nonpos (not_le.mp hexp).le)
      have hneg : d.exp + places = -i := by omega
      rw [hi, Int.toNat_natCast] at hzero ⊢
      rw [hneg, zpow_neg, zpow_natCast, Nat.cast_div (Nat.dvd_of_mod_eq_zero hzero) (by positivity)]
      push_cast
      rw [div_eq_mul_inv]
    · contradiction

/-- A number that has no more places keeps its value when it is quantized. -/
theorem quantize_of_scaled {places c : Nat} {d : Decimal} (mode : Rounding)
    (h : d.scaled places = some c) (hfits : numDigits c ≤ prec) :
    d.quantize (-places) mode = some ⟨d.negative, c, -places⟩ := by
  have hcoeff : (if -(places : Int) ≤ d.exp then d.coeff * 10 ^ (d.exp - -places).toNat
      else roundDiv mode d.coeff (10 ^ (-places - d.exp).toNat)) = c := by
    unfold scaled at h
    simp only at h
    by_cases hexp : 0 ≤ d.exp + places
    · rw [if_pos hexp] at h
      rw [if_pos (by omega), sub_neg_eq_add]
      exact Option.some.inj h
    · rw [if_neg hexp] at h
      rw [if_neg (by omega)]
      split at h
      · rename_i hzero
        have hneg : -(places : Int) - d.exp = -(d.exp + places) := by omega
        have hvalue := roundDiv_mul mode (d.coeff / 10 ^ (-(d.exp + places)).toNat)
          (show 0 < 10 ^ (-(d.exp + places)).toNat by positivity)
        rw [Nat.div_mul_cancel (Nat.dvd_of_mod_eq_zero hzero)] at hvalue
        rw [hneg, hvalue]
        exact Option.some.inj h
      · contradiction
  unfold quantize
  simp only [hcoeff, if_pos hfits]

theorem magnitude_ofInt (n : Nat) : magnitude (ofInt n) = n := by
  simp [magnitude, ofInt]

/-- A product of a few digits is exact. -/
theorem magnitude_mul {a b : Decimal} {k m : Nat} (h : magnitude a * magnitude b * 10 ^ k = m)
    (hm : m < 10 ^ prec) : magnitude (mul a b) = magnitude a * magnitude b := by
  have hvalue : magnitude ⟨a.negative != b.negative, a.coeff * b.coeff, a.exp + b.exp⟩ =
      magnitude a * magnitude b := by
    simp only [magnitude, zpow_add₀ (show (10 : ℚ) ≠ 0 by norm_num)]
    push_cast
    ring
  rw [← hvalue] at h ⊢
  exact fix_exact_of_value h hm

theorem mul_negative (a b : Decimal) : (mul a b).negative = (a.negative != b.negative) :=
  (fix_fits _).1

/-- Multiplying by an integer, where the product is a short number, is exact. -/
theorem magnitude_mul_ofInt {d : Decimal} {n m : Nat} (h : magnitude d * n = m)
    (hm : m < 10 ^ prec) : magnitude (mul d (ofInt n)) = m := by
  rw [@magnitude_mul d (ofInt n) 0 m (by simpa [magnitude_ofInt] using h) hm, magnitude_ofInt, h]

/-- A whole number keeps its value when it is quantized to units. -/
theorem quantize_whole {d : Decimal} {c : Nat} (h : magnitude d = c) (hc : c < 10 ^ prec) :
    d.quantize 0 .halfUp = some ⟨d.negative, c, 0⟩ := by
  have hround : roundHalfUp (magnitude d * 10 ^ (-0 : ℤ)) = c := by
    rw [h, neg_zero, zpow_zero, mul_one, roundHalfUp_natCast]
  rw [quantize_halfUp (by rwa [hround]), hround]

/-- A quotient of two numbers below 10^18, quantized to four places, is the exact quotient
rounded half up once. -/
theorem quantize_div {a b : Decimal} {n s : Nat} (ha : magnitude a * 100 = n)
    (hb : magnitude b * 100 = s) (hn : 0 < n) (hs : 0 < s) (hlt : n < 10 ^ 18) :
    (div a b).bind (fun q => q.quantize (-4) .halfUp) =
      some ⟨a.negative != b.negative, roundDiv .halfUp (10 ^ 4 * n) s, -4⟩ := by
  have hnq : (0 : ℚ) < n := by exact_mod_cast hn
  have hsq : (0 : ℚ) < s := by exact_mod_cast hs
  have hcoeff : ∀ {d : Decimal} {c : ℚ}, magnitude d * 100 = c → 0 < c → 0 < d.coeff := by
    intro d c hd hc
    refine Nat.pos_of_ne_zero fun hzero => ?_
    rw [magnitude, hzero] at hd
    simp only [Nat.cast_zero, zero_mul] at hd
    exact absurd hd hc.ne
  have hratio : magnitude a / magnitude b = n / s := by
    rw [← ha, ← hb]
    have hne : magnitude b ≠ 0 := by
      intro hzero
      rw [hzero, zero_mul] at hb
      exact absurd hb hsq.ne
    field_simp
  obtain ⟨q, hq, hneg, herror, hexact⟩ := div_spec (hcoeff ha hnq) (hcoeff hb hsq)
  rw [hratio] at herror hexact
  have hround : roundHalfUp (magnitude q * 10 ^ (-(-4) : ℤ)) = roundDiv .halfUp (10 ^ 4 * n) s := by
    rw [neg_neg, show (10 : ℚ) ^ (4 : ℤ) = 10 ^ 4 by norm_num]
    refine roundHalfUp_of_close hs (by omega) ?_ fun m hm => ?_
    · rw [abs_le] at herror ⊢
      push_cast
      rw [mul_div_assoc, mul_div_assoc]
      constructor <;> nlinarith
    · have hhalf : (n : ℚ) / s * 10 ^ 5 = ((5 * (2 * m + 1) : ℕ) : ℚ) := by
        have hcast : 2 * (10 ^ 4 * n : ℚ) = (2 * m + 1) * s := by exact_mod_cast hm
        push_cast
        rw [div_mul_eq_mul_div, div_eq_iff hsq.ne']
        linarith
      have hbound : 5 * (2 * m + 1) < 10 ^ prec := by
        have hle : 2 * m + 1 ≤ 2 * (10 ^ 4 * n) := hm ▸ Nat.le_mul_of_pos_right _ hs
        unfold prec
        omega
      rw [hexact 5 _ hhalf hbound]
      push_cast
      ring
  have hfits : roundDiv .halfUp (10 ^ 4 * n) s < 10 ^ prec := by
    have hle : 10 ^ 4 * n / s ≤ 10 ^ 4 * n := Nat.div_le_self _ _
    unfold roundDiv prec
    split <;> omega
  rw [hq, Option.bind_some, quantize_halfUp (by rwa [hround]), hround, hneg]

/-! ## A quotient rounded and multiplied back -/

/-- The quotient of `n` by `s`, in `u` parts of the unit, lies less than half a unit of the
product off the part it is rounded to. -/
def RoundTrips (u n s : Nat) : Prop :=
  if 2 * (u * n % s) < s then 2 * (u * n % s) ≤ u else 2 * (s - u * n % s) < u

instance (u n s : Nat) : Decidable (RoundTrips u n s) := inferInstanceAs (Decidable (ite _ _ _))

/-- A quotient rounded half up to `u` parts of the unit and multiplied back gives the dividend
exactly when it lies close enough to the part it is rounded to. -/
theorem roundDiv_roundTrip_iff {u n s : Nat} (hs : 0 < s) (hu : 0 < u) :
    roundDiv .halfUp (s * roundDiv .halfUp (u * n) s) u = n ↔ RoundTrips u n s := by
  have hsplit : s * (u * n / s) + u * n % s = u * n := Nat.div_add_mod (u * n) s
  have hrest : u * n % s < s := Nat.mod_lt _ hs
  have hunits : n * (2 * u) = 2 * (u * n) := by ring
  have hnext : (n + 1) * (2 * u) = 2 * (u * n) + 2 * u := by ring
  rw [roundDiv_halfUp _ hu, Nat.div_eq_iff (by omega), hunits]
  unfold RoundTrips roundDiv roundsUp
  simp only [decide_eq_true_eq]
  generalize u * n % s = rest at hsplit hrest ⊢
  by_cases hdown : 2 * rest < s
  · rw [if_pos hdown, if_neg (not_le.mpr hdown)]
    omega
  · rw [if_neg hdown, if_pos (not_lt.mp hdown), Nat.mul_succ]
    omega

/-- No quotient by a number below the scale is off by as much. -/
theorem roundTrips_of_le {u n s : Nat} (hs : 0 < s) (hle : s ≤ u) : RoundTrips u n s := by
  unfold RoundTrips
  split
  · omega
  · rename_i hup
    by_contra hfar
    have hsame : s = u := by omega
    subst hsame
    rw [Nat.mul_mod_right] at hup
    omega

end Decimal
end BettingPlatform
