import Mathlib.Algebra.Group.Int.Defs
import Mathlib.Data.List.Basic

/-!
# Python values that come from JSON

`json.loads` and FastAPI hand the Python services dictionaries, lists, strings,
numbers, booleans and `None`.  This file has these values and the built-in operations
the handlers apply to them: truth tests, `dict.get`, `int(...)` and `str(...)`.
-/

namespace BettingPlatform
namespace Python

/-- A `float`: a binary fraction, an infinity or not a number. -/
inductive PyFloat
  | finite (negative : Bool) (mantissa : Nat) (exp : Int)
  | infinity (negative : Bool)
  | nan
deriving DecidableEq, Repr

/-- A value `json.loads` can produce; a dictionary is its items in order. -/
inductive Json
  | null
  | bool (b : Bool)
  | int (n : Int)
  | float (x : PyFloat)
  | str (s : String)
  | list (items : List Json)
  | dict (items : List (String × Json))
deriving Repr, Inhabited

/-- The built-in exceptions the handlers can raise. -/
inductive PyError
  | typeError
  | valueError
  | overflowError
  | attributeError
deriving DecidableEq, Repr

/-- The truth value of an object. -/
def Json.truthy : Json → Bool
  | .null => false
  | .bool b => b
  | .int n => n ≠ 0
  | .float (.finite _ mantissa _) => mantissa ≠ 0
  | .float _ => true
  | .str s => s ≠ ""
  | .list items => !items.isEmpty
  | .dict items => !items.isEmpty

/-- `x.get(key)`, where a missing key reads as `None`; other values have no `get`. -/
def Json.get (x : Json) (key : String) (default : Json) : Except PyError Json :=
  match x with
  | .dict items => .ok ((items.lookup key).getD default)
  | _ => .error .attributeError

/-- `x == s` for a string `s`. -/
def Json.isStr (x : Json) (s : String) : Bool :=
  match x with
  | .str t => t = s
  | _ => false

/-! ## `int` -/

/-- The code points of the decimal zeros of Unicode; each is followed by its digits 1
to 9. -/
def decimalZeros : List Nat :=
  [0x0030, 0x0660, 0x06F0, 0x07C0, 0x0966, 0x09E6, 0x0A66, 0x0AE6, 0x0B66, 0x0BE6, 0x0C66,
    0x0CE6, 0x0D66, 0x0DE6, 0x0E50, 0x0ED0, 0x0F20, 0x1040, 0x1090, 0x17E0, 0x1810, 0x1946,
    0x19D0, 0x1A80, 0x1A90, 0x1B50, 0x1BB0, 0x1C40, 0x1C50, 0xA620, 0xA8D0, 0xA900, 0xA9D0,
    0xA9F0, 0xAA50, 0xABF0, 0xFF10, 0x104A0, 0x10D30, 0x11066, 0x110F0, 0x11136, 0x111D0,
    0x112F0, 0x11450, 0x114D0, 0x11650, 0x116C0, 0x11730, 0x118E0, 0x11950, 0x11C50, 0x11D50,
    0x11DA0, 0x16A60, 0x16AC0, 0x16B50, 0x1D7CE, 0x1D7D8, 0x1D7E2, 0x1D7EC, 0x1D7F6,
    0x1E140, 0x1E2F0, 0x1E950, 0x1FBF0]

/-- The value of a Unicode decimal digit. -/
def decimalValue (c : Char) : Option Nat :=
  (decimalZeros.find? fun start => start ≤ c.toNat && c.toNat < start + 10).map
    fun start => c.toNat - start

/-- The ASCII whitespace that the number parser skips. -/
def isAsciiSpace (c : Char) : Bool :=
  (0x09 ≤ c.toNat && c.toNat ≤ 0x0D) || c = ' '

/-- `str.isspace` of one character. -/
def isSpace (c : Char) : Bool :=
  isAsciiSpace c || (0x1C ≤ c.toNat && c.toNat ≤ 0x1F) || (0x2000 ≤ c.toNat && c.toNat ≤ 0x200A) ||
    [0x85, 0xA0, 0x1680, 0x2028, 0x2029, 0x202F, 0x205F, 0x3000].contains c.toNat

/-- The code points of whitespace. -/
def spaceCodes : List Nat :=
  List.range' 0x09 5 ++ List.range' 0x1C 5 ++ List.range' 0x2000 11 ++
    [0x85, 0xA0, 0x1680, 0x2028, 0x2029, 0x202F, 0x205F, 0x3000]

theorem toNat_mem_spaceCodes {c : Char} (h : isSpace c = true) : c.toNat ∈ spaceCodes := by
  have hblank : c = ' ' ↔ c.toNat = 0x20 := by
    rw [← Char.toNat_inj]
    rfl
  simp only [isSpace, isAsciiSpace, hblank, Bool.or_eq_true, Bool.and_eq_true, decide_eq_true_eq,
    List.contains_eq_mem, spaceCodes, List.mem_append, List.mem_range'_1] at h ⊢
  rcases h with (((h | h) | h) | h) | h
  · omega
  · omega
  · omega
  · omega
  · exact .inr h

/-- Whitespace is no digit. -/
theorem decimalValue_of_isSpace {c : Char} (h : isSpace c = true) : decimalValue c = none := by
  have hnone : ∀ n ∈ spaceCodes,
      (decimalZeros.find? fun start => start ≤ n && n < start + 10) = none := by
    decide
  rw [decimalValue, hnone _ (toNat_mem_spaceCodes h)]
  rfl

/-- An ASCII digit is a decimal digit. -/
theorem decimalValue_of_isDigit {c : Char} (h : c.isDigit = true) : (decimalValue c).isSome := by
  have hrange : 0x30 ≤ c.toNat ∧ c.toNat < 0x3A := by
    simp only [Char.isDigit, ge_iff_le, UInt32.le_iff_toNat_le, Bool.and_eq_true,
      decide_eq_true_eq] at h
    exact ⟨h.1, Nat.lt_succ_of_le h.2⟩
  simp [decimalValue, decimalZeros, hrange]

/-- From code point 127 on, the whitespace and the decimal digits of a non-ASCII text become
ASCII; an ASCII text stays as it is.  What is neither stands in no numeral, and is left. -/
def asciiNumeral (cs : List Char) : List Char :=
  if cs.all fun c => c.toNat < 128 then cs
  else cs.map fun c =>
    if c.toNat < 127 then c
    else if isSpace c then ' '
    else
      match decimalValue c with
      | some d => Nat.digitChar d
      | none => c

/-- Underscores stand only between digits. -/
def underscoresSeparate : List Char → Bool
  | [] => true
  | ['_'] => false
  | '_' :: '_' :: _ => false
  | _ :: cs => underscoresSeparate cs

/-- `sys.int_info.default_max_str_digits`. -/
def maxStrDigits : Nat := 4300

/-- `int(s)` of a string; `none` is `ValueError`. -/
def intOfStr (s : String) : Option Int :=
  let cs := (asciiNumeral s.toList).dropWhile isAsciiSpace
  let negative := cs.head? = some '-'
  let body := if negative ∨ cs.head? = some '+' then cs.drop 1 else cs
  let numeral := body.takeWhile fun c => c.isDigit || c = '_'
  let digits := numeral.filter Char.isDigit
  if (body.drop numeral.length).all isAsciiSpace ∧ digits ≠ [] ∧ numeral.head? ≠ some '_' ∧
      underscoresSeparate numeral ∧ digits.length ≤ maxStrDigits then
    let magnitude : Int := digits.foldl (fun n c => 10 * n + (c.toNat - '0'.toNat)) 0
    some (if negative then -magnitude else magnitude)
  else none

/-- `int(x)`. -/
def Json.toInt : Json → Except PyError Int
  | .bool b => .ok (if b then 1 else 0)
  | .int n => .ok n
  | .float (.finite negative mantissa exp) =>
      let magnitude : Int := mantissa * 2 ^ exp.toNat / 2 ^ (-exp).toNat
      .ok (if negative then -magnitude else magnitude)
  | .float (.infinity _) => .error .overflowError
  | .float .nan => .error .valueError
  | .str s =>
      match intOfStr s with
      | some n => .ok n
      | none => .error .valueError
  | .null | .list _ | .dict _ => .error .typeError

/-! ## `str` -/

/-- `str(x)`.  The texts of floats, lists and dictionaries are those of `repr`. -/
def Json.toStr (repr : Json → String) : Json → String
  | .null => "None"
  | .bool b => if b then "True" else "False"
  | .int n => toString n
  | .str s => s
  | x => repr x

example : intOfStr " -1_000 " = some (-1000) := by decide
example : intOfStr "\x1c\u0660" = none := by decide

end Python
end BettingPlatform
