import Mathlib.Data.Nat.Digits.Defs
import Mathlib.Data.Int.Basic

/-!
# Python decimals

`decimal.Decimal` under the default context: a sign, a coefficient and a power of ten;
arithmetic rounds half-even to 28 digits, and `quantize` raises when its result would
need more.  Only finite numbers occur, and the exponent limits of the context, which
are in the hundreds of thousands, play no part.
-/

namespace BettingPlatform

/-- A finite `decimal.Decimal`: `_sign`, `_int` and `_exp`. -/
structure Decimal where
  negative : Bool
  coeff : Nat
  exp : Int
deriving DecidableEq, Repr

/-- The rounding modes the platform uses. -/
inductive Rounding
  /-- `ROUND_HALF_EVEN`. -/
  | halfEven
  /-- `ROUND_HALF_UP`. -/
  | halfUp
deriving DecidableEq, Repr

namespace Decimal

/-- `getcontext().prec`. -/
def prec : Nat := 28

/-- The number of digits of a coefficient; the coefficient 0 has one. -/
def numDigits (n : Nat) : Nat :=
  (Nat.toDigits 10 n).length

/-- Whether the rounding of `n / b` goes up from its floor. -/
def roundsUp (mode : Rounding) (n b : Nat) : Bool :=
  match mode with
  | .halfEven => b < 2 * (n % b) || (2 * (n % b) = b && n / b % 2 = 1)
  | .halfUp => b ≤ 2 * (n % b)

/-- `n / b` rounded to a whole number. -/
def roundDiv (mode : Rounding) (n b : Nat) : Nat :=
  if roundsUp mode n b then n / b + 1 else n / b

/-- `_fix`: round to the precision of the context. -/
def fix (d : Decimal) : Decimal :=
  if numDigits d.coeff ≤ prec then d
  else
    let dropped := numDigits d.coeff - prec
    let coeff := roundDiv .halfEven d.coeff (10 ^ dropped)
    if numDigits coeff ≤ prec then { d with coeff := coeff, exp := d.exp + dropped }
    else { d with coeff := coeff / 10, exp := d.exp + dropped + 1 }

/-- `Decimal(n)` of an `int`. -/
def ofInt (n : Int) : Decimal where
  negative := n < 0
  coeff := n.natAbs
  exp := 0

/-- `__mul__`. -/
def mul (a b : Decimal) : Decimal :=
  fix ⟨a.negative != b.negative, a.coeff * b.coeff, a.exp + b.exp⟩

/-- The trailing zeros an exact quotient sheds on its way to the ideal exponent. -/
def shed : Nat → Nat → Int → Nat × Int
  | 0, coeff, exp => (coeff, exp)
  | room + 1, coeff, exp =>
      if coeff % 10 = 0 then shed room (coeff / 10) (exp + 1) else (coeff, exp)

/-- `__truediv__` of a nonzero dividend; `none` is `DivisionByZero`. -/
def div (a b : Decimal) : Option Decimal :=
  if b.coeff = 0 then none
  else
    let shift : Int := numDigits b.coeff - numDigits a.coeff + prec + 1
    let num := a.coeff * 10 ^ shift.toNat
    let den := b.coeff * 10 ^ (-shift).toNat
    let exp := a.exp - b.exp - shift
    let negative := a.negative != b.negative
    if num % den ≠ 0 then
      -- a last digit that is neither 0 nor 5 stands for the digits cut off
      let coeff := if num / den % 5 = 0 then num / den + 1 else num / den
      some (fix ⟨negative, coeff, exp⟩)
    else
      let (coeff, exp) := shed shift.toNat (num / den) exp
      some (fix ⟨negative, coeff, exp⟩)

/-- `quantize`; `none` is `InvalidOperation`. -/
def quantize (d : Decimal) (exp : Int) (mode : Rounding) : Option Decimal :=
  let coeff :=
    if exp ≤ d.exp then d.coeff * 10 ^ (d.exp - exp).toNat
    else roundDiv mode d.coeff (10 ^ (exp - d.exp).toNat)
  if numDigits coeff ≤ prec then some { d with coeff := coeff, exp := exp } else none

/-- `int(d)`: truncation. -/
def toInt (d : Decimal) : Int :=
  let magnitude := d.coeff * 10 ^ d.exp.toNat / 10 ^ (-d.exp).toNat
  if d.negative then -magnitude else magnitude

/-- `d` in units of `10 ^ -places`, when that is a whole number: the digits that a field with
this many `decimal_places` can hold.  Trailing zeros do not count. -/
def scaled (places : Nat) (d : Decimal) : Option Nat :=
  let exp := d.exp + places
  if 0 ≤ exp then some (d.coeff * 10 ^ exp.toNat)
  else if d.coeff % 10 ^ (-exp).toNat = 0 then some (d.coeff / 10 ^ (-exp).toNat)
  else none

end Decimal
end BettingPlatform
