import Mathlib.Algebra.Order.Field.Rat
import Mathlib.Algebra.Order.Field.Power
import Mathlib.Tactic.FieldSimp
import BettingPlatform.Foundations.Binary64
import BettingPlatform.Foundations.DecimalText

/-!
# Sums and order of floats

`float(x)` of a JSON value, the sum and difference of two floats, and the order that
comparisons of floats follow.

Main results:

- Theorem `PyFloat.lt_of_le_of_lt`: what is not above a float that is below a bound is below
  that bound.
-/

namespace BettingPlatform
namespace Python

/-! ## Conversions -/

/-- The float nearest to an integer; `none` is `OverflowError`. -/
def PyFloat.ofInt (n : Int) : Option PyFloat :=
  match ofRatio (n < 0) n.natAbs 1 with
  | .infinity _ => none
  | x => some x

/-- Every underscore of a text stands between two digits. -/
def underscoresBetweenDigits (cs : List Char) : Bool :=
  (cs.zip (cs.drop 1)).all (fun (c, d) => (c ≠ '_' || d.isDigit) && (d ≠ '_' || c.isDigit)) &&
    cs.head? ≠ some '_' && cs.getLast? ≠ some '_'

/-- The numeral of a float without its sign. -/
def PyFloat.ofNumeral (negative : Bool) (cs : List Char) : Option PyFloat :=
  let int := cs.takeWhile Char.isDigit
  let (frac, rest) := Decimal.splitFraction (cs.dropWhile Char.isDigit)
  if int ++ frac = [] then none
  else
    (Decimal.parseExponent rest).map fun e =>
      let exp : Int := e - frac.length
      ofRatio negative (Nat.ofDigitChars 10 (int ++ frac) 0 * 10 ^ exp.toNat) (10 ^ (-exp).toNat)

/-- `float(s)` of a string; `none` is `ValueError`. -/
def PyFloat.ofStr (s : String) : Option PyFloat :=
  let leading := (asciiNumeral s.toList).dropWhile isAsciiSpace
  let cs := (leading.reverse.dropWhile isAsciiSpace).reverse
  let (negative, body) := Decimal.splitSign (cs.filter fun c => c ≠ '_')
  if !underscoresBetweenDigits cs then none
  else
    let word := String.ofList (body.map Char.toLower)
    if word = "inf" ∨ word = "infinity" then some (.infinity negative)
    else if word = "nan" then some .nan
    else ofNumeral negative body

/-- `float(x)`. -/
def Json.toFloat : Json → Except PyError PyFloat
  | .bool b => .ok (.finite false (if b then 1 else 0) 0)
  | .int n => (PyFloat.ofInt n).elim (.error .overflowError) .ok
  | .float x => .ok x
  | .str s => (PyFloat.ofStr s).elim (.error .valueError) .ok
  | .null | .list _ | .dict _ => .error .typeError

example : PyFloat.ofStr " +1_0.5e1" = some (.ofRatio false 105 1) := by decide
example : PyFloat.ofStr "1__0" = none := by decide

/-! ## Sums -/

/-- `x + y`. -/
def PyFloat.add : PyFloat → PyFloat → PyFloat
  | .nan, _ | _, .nan => .nan
  | .infinity negative, .infinity negative' =>
      if negative = negative' then .infinity negative else .nan
  | .infinity negative, .finite .. | .finite .., .infinity negative => .infinity negative
  | .finite negative mantissa exp, .finite negative' mantissa' exp' =>
      let value : Int := mantissa * 2 ^ (exp - exp').toNat
      let value' : Int := mantissa' * 2 ^ (exp' - exp).toNat
      let sum := (if negative then -value else value) + if negative' then -value' else value'
      let least := min exp exp'
      ofRatio (sum < 0 || (sum = 0 && negative && negative')) (sum.natAbs * 2 ^ least.toNat)
        (2 ^ (-least).toNat)

/-- `-x`. -/
def PyFloat.neg : PyFloat → PyFloat
  | .finite negative mantissa exp => .finite (!negative) mantissa exp
  | .infinity negative => .infinity (!negative)
  | .nan => .nan

/-- `x - y`. -/
def PyFloat.sub (x y : PyFloat) : PyFloat :=
  x.add y.neg

/-! ## Order -/

/-- `x <= y`; a comparison with not-a-number is false. -/
def PyFloat.le (x y : PyFloat) : Bool :=
  x ≠ .nan && y ≠ .nan && !y.lt x

/-- The number a finite float stands for. -/
def PyFloat.value (negative : Bool) (mantissa : Nat) (exp : Int) : ℚ :=
  (if negative then -(mantissa : ℚ) else mantissa) * 2 ^ exp

/-- An integer at a higher place, written at a lower one. -/
theorem mul_two_zpow (n : ℤ) (exp exp' : Int) :
    ((n * 2 ^ (exp - exp').toNat : ℤ) : ℚ) * 2 ^ min exp exp' = n * 2 ^ exp := by
  have hplaces : ((exp - exp').toNat : Int) + min exp exp' = exp := by omega
  calc ((n * 2 ^ (exp - exp').toNat : ℤ) : ℚ) * 2 ^ min exp exp'
      = n * (2 ^ (((exp - exp').toNat : Int)) * 2 ^ min exp exp') := by
        push_cast [zpow_natCast]
        ring
    _ = n * 2 ^ exp := by rw [← zpow_add₀ (by norm_num), hplaces]

/-- Finite floats compare as the numbers they stand for. -/
theorem PyFloat.lt_finite_iff {negative negative' : Bool} {mantissa mantissa' : Nat}
    {exp exp' : Int} :
    lt (.finite negative mantissa exp) (.finite negative' mantissa' exp') = true ↔
      value negative mantissa exp < value negative' mantissa' exp' := by
  have hscale : (0 : ℚ) < 2 ^ min exp exp' := by positivity
  have hsigned : ∀ (b : Bool) (m k : Nat),
      (if b then -((m : ℤ) * 2 ^ k) else (m : ℤ) * 2 ^ k) =
        (if b then -(m : ℤ) else m) * 2 ^ k := by
    intro b m k
    split <;> ring
  have hcast : ∀ (b : Bool) (m : Nat) (e : Int),
      value b m e = ((if b then -(m : ℤ) else m : ℤ) : ℚ) * 2 ^ e := by
    intro b m e
    unfold value
    split <;> push_cast <;> rfl
  simp only [lt, hsigned, decide_eq_true_eq, hcast]
  rw [← mul_two_zpow _ exp exp', ← mul_two_zpow _ exp' exp, min_comm exp' exp,
    mul_lt_mul_iff_left₀ hscale, Int.cast_lt]

/-- What is not above a float that is below a bound is below that bound. -/
theorem PyFloat.lt_of_le_of_lt {x y z : PyFloat} (hle : x.le y = true) (hlt : y.lt z = true) :
    x.lt z = true := by
  cases x with
  | nan => simp [le] at hle
  | infinity a =>
      cases y with
      | nan => simp [le] at hle
      | infinity b => cases z <;> cases a <;> cases b <;> simp_all [le, lt]
      | finite => cases z <;> cases a <;> simp_all [le, lt]
  | finite a m e =>
      cases y with
      | nan => simp [le] at hle
      | infinity b => cases z <;> cases b <;> simp_all [le, lt]
      | finite b m' e' =>
          cases z with
          | nan => simp [lt] at hlt
          | infinity c => simpa [lt] using hlt
          | finite c m'' e'' =>
              have hvalue : ¬ value b m' e' < value a m e := by
                rw [← lt_finite_iff]
                simpa [le] using hle
              rw [lt_finite_iff] at hlt ⊢
              exact (not_lt.mp hvalue).trans_lt hlt

/-- The order of floats is transitive. -/
theorem PyFloat.le_trans {x y z : PyFloat} (hxy : x.le y = true) (hyz : y.le z = true) :
    x.le z = true := by
  have hnot : ¬ z.lt x = true := by
    intro hlt
    have hback := lt_of_le_of_lt hyz hlt
    simp [le, hback] at hxy
  simp only [le, Bool.and_eq_true, decide_eq_true_eq] at hxy hyz ⊢
  exact ⟨⟨hxy.1.1, hyz.1.2⟩, by simpa using hnot⟩

end Python
end BettingPlatform
