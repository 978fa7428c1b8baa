import BettingPlatform.Foundations.FloatArithmetic

/-!
# JavaScript numbers

A JavaScript number is an IEEE 754 binary64, the same as a Python float.  This file has the
operations the frontend applies to amounts of money.  The text of a number without `toFixed`,
which `toFixed` itself falls back to for very large numbers, is a parameter.
-/

namespace BettingPlatform
namespace JavaScript

open Python

/-- `Number`. -/
abbrev Number := PyFloat

namespace Number

/-- An integer. -/
def ofInt (n : Int) : Number :=
  .finite (n < 0) n.natAbs 0

/-- `Number.isFinite(x)`. -/
def isFinite : Number → Bool
  | .finite .. => true
  | _ => false

/-- `x || y`: zeros and not-a-number are falsy. -/
def orElse (x y : Number) : Number :=
  match x with
  | .finite _ 0 _ | .nan => y
  | x => x

/-- `x * y`. -/
def mul : Number → Number → Number
  | .nan, _ | _, .nan => .nan
  | .infinity negative, .infinity negative' => .infinity (negative != negative')
  | .infinity negative, .finite negative' mantissa _
  | .finite negative' mantissa _, .infinity negative =>
      if mantissa = 0 then .nan else .infinity (negative != negative')
  | .finite negative mantissa exp, .finite negative' mantissa' exp' =>
      .ofRatio (negative != negative') (mantissa * mantissa' * 2 ^ (exp + exp').toNat)
        (2 ^ (-(exp + exp')).toNat)

/-- `x <= y`. -/
def le (x y : Number) : Bool :=
  PyFloat.le x y

/-- `Math.round(x)`: ties go up. -/
def round : Number → Number
  | .finite negative mantissa exp =>
      let magnitude : Int := mantissa * 2 ^ exp.toNat
      let num := if negative then -magnitude else magnitude
      let den : Int := 2 ^ (-exp).toNat
      ofInt ((2 * num + den) / (2 * den))
  | x => x

/-- `x.toFixed(digits)`: of two nearest decimals the larger magnitude. -/
def toFixed (numberText : Number → String) (digits : Nat) (x : Number) : String :=
  match x with
  | .finite negative mantissa exp =>
      let num := mantissa * 2 ^ exp.toNat
      let den := 2 ^ (-exp).toNat
      if 10 ^ 21 * den ≤ num then numberText x
      else
        let units := Decimal.roundDiv .halfUp (num * 10 ^ digits) den
        (if negative ∧ mantissa ≠ 0 then "-" else "") ++ Decimal.plain digits units
  | x => numberText x

example : toFixed (fun _ => "") 2 (mul (ofInt 25) (.ofRatio false 29 10)) = "72.50" := by decide

end Number

end JavaScript
end BettingPlatform
