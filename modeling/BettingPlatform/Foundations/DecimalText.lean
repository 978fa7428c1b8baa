import Mathlib.Data.List.TakeWhile
import BettingPlatform.Foundations.Decimal
import BettingPlatform.Foundations.Python

/-!
# Decimal texts

`str(d)` and `Decimal(s)` of the `decimal` module, for finite numbers.

Main results:

- Theorem `Decimal.ofString_str`: parsing the text of a decimal without exponent gives the
  decimal back.
- Theorem `Python.intOfStr_toDigits`: `int` of a numeral is its number.
-/

namespace BettingPlatform
namespace Decimal

open Python

/-! ## Printing -/

/-- `"%+d" % n`. -/
def signedDigits (n : Int) : List Char :=
  (if n < 0 then '-' else '+') :: Nat.toDigits 10 n.natAbs

/-- `str(d)`, by its characters. -/
def text (d : Decimal) : List Char :=
  let int := Nat.toDigits 10 d.coeff
  let leftdigits := d.exp + int.length
  let dotplace := if d.exp ≤ 0 ∧ -6 < leftdigits then leftdigits else 1
  let digits :=
    if dotplace ≤ 0 then '0' :: '.' :: List.replicate (-dotplace).toNat '0' ++ int
    else if int.length ≤ dotplace then int ++ List.replicate (dotplace.toNat - int.length) '0'
    else int.take dotplace.toNat ++ '.' :: int.drop dotplace.toNat
  let exponent := if leftdigits = dotplace then [] else 'E' :: signedDigits (leftdigits - dotplace)
  (if d.negative then ['-'] else []) ++ digits ++ exponent

/-- `str(d)`. -/
def str (d : Decimal) : String :=
  String.ofList d.text

/-! ## Parsing -/

/-- The ASCII digit a character stands for, when it stands for a digit. -/
def asciiDigit (c : Char) : Char :=
  match decimalValue c with
  | some value => Nat.digitChar value
  | none => c

/-- The text without surrounding whitespace and underscores, with ASCII digits. -/
def numericAsAscii (cs : List Char) : List Char :=
  let stripped := ((cs.dropWhile isSpace).reverse.dropWhile isSpace).reverse
  (stripped.filter fun c => c ≠ '_').map asciiDigit

/-- An optional sign: whether it is a minus, and what follows it. -/
def splitSign (cs : List Char) : Bool × List Char :=
  match cs with
  | '-' :: rest => (true, rest)
  | '+' :: rest => (false, rest)
  | rest => (false, rest)

/-- The value of an exponent part, which may be missing. -/
def parseExponent (cs : List Char) : Option Int :=
  match cs with
  | [] => some 0
  | c :: rest =>
      if c = 'e' ∨ c = 'E' then
        let (negative, digits) := splitSign rest
        if digits = [] ∨ !digits.all Char.isDigit then none
        else
          let magnitude : Int := Nat.ofDigitChars 10 digits 0
          some (if negative then -magnitude else magnitude)
      else none

/-- The digits behind a point, and what follows them. -/
def splitFraction (cs : List Char) : List Char × List Char :=
  match cs with
  | '.' :: rest => (rest.takeWhile Char.isDigit, rest.dropWhile Char.isDigit)
  | rest => ([], rest)

/-- `Decimal(s)` of a finite number; `none` is `InvalidOperation`, an infinity or not a
number. -/
def ofString (s : String) : Option Decimal :=
  let (negative, body) := splitSign (numericAsAscii s.toList)
  let int := body.takeWhile Char.isDigit
  let (frac, rest) := splitFraction (body.dropWhile Char.isDigit)
  if int ++ frac = [] then none
  else
    (parseExponent rest).map fun e =>
      ⟨negative, Nat.ofDigitChars 10 (int ++ frac) 0, e - frac.length⟩

example : ofString " -12.50e+3 " = some ⟨true, 1250, 1⟩ := by decide
example : str ⟨false, 29000, -4⟩ = "2.9000" := by decide

/-! ## Round trip -/

/-- The text of a decimal without exponent and with digits before the point. -/
theorem text_of_places {coeff places : Nat} (hplaces : 0 < places)
    (hdigits : places < numDigits coeff) :
    text ⟨false, coeff, -places⟩ =
      (Nat.toDigits 10 coeff).take (numDigits coeff - places) ++
        '.' :: (Nat.toDigits 10 coeff).drop (numDigits coeff - places) := by
  unfold numDigits at hdigits ⊢
  unfold text
  generalize Nat.toDigits 10 coeff = int at hdigits ⊢
  have hleft : -(places : Int) + int.length = ((int.length - places : Nat) : Int) := by omega
  simp only [hleft]
  have hplain : -(places : Int) ≤ 0 ∧ -6 < ((int.length - places : Nat) : Int) := by omega
  have hpos : ¬ ((int.length - places : Nat) : Int) ≤ 0 := by omega
  have hshort : ¬ (int.length : Int) ≤ ((int.length - places : Nat) : Int) := by omega
  rw [if_pos hplain, if_neg hpos, if_neg hshort, if_pos rfl, Int.toNat_natCast]
  simp

/-- The text has one character more than the coefficient has digits. -/
theorem length_str_of_places {coeff places : Nat} (hplaces : 0 < places)
    (hdigits : places < numDigits coeff) :
    (str ⟨false, coeff, -places⟩).length = numDigits coeff + 1 := by
  rw [str, String.length_ofList, text_of_places hplaces hdigits]
  unfold numDigits at hdigits ⊢
  simp only [List.length_append, List.length_cons, List.length_take, List.length_drop]
  omega

/-- A digit stays what it is, and it is no space. -/
theorem asciiDigit_digit {c : Char} (hc : c.isDigit) :
    asciiDigit c = c ∧ isSpace c = false ∧ c ≠ '_' ∧ c ≠ '-' ∧ c ≠ '+' := by
  have h : ∀ d : Fin 10, let c := Char.ofNat (48 + d)
      asciiDigit c = c ∧ isSpace c = false ∧ c ≠ '_' ∧ c ≠ '-' ∧ c ≠ '+' := by decide
  obtain ⟨hlow, hhigh⟩ := Char.isDigit_iff_toNat.mp hc
  have hrange : c.toNat - 48 < 10 := by
    have hle : c.toNat ≤ 57 := hhigh
    omega
  have hchar : Char.ofNat (48 + (c.toNat - 48)) = c := by
    have hge : 48 ≤ c.toNat := hlow
    rw [Nat.add_sub_cancel' hge, Char.ofNat_toNat]
  simpa [hchar] using h ⟨c.toNat - 48, hrange⟩

/-- Digits around a point are read as they stand. -/
theorem numericAsAscii_point {int frac : List Char} (hint : ∀ c ∈ int, c.isDigit)
    (hfrac : ∀ c ∈ frac, c.isDigit) :
    numericAsAscii (int ++ '.' :: frac) = int ++ '.' :: frac := by
  have hchar : ∀ c ∈ int ++ '.' :: frac,
      asciiDigit c = c ∧ isSpace c = false ∧ c ≠ '_' := by
    intro c hc
    rcases List.mem_append.mp hc with hc | hc
    · exact ⟨(asciiDigit_digit (hint c hc)).1, (asciiDigit_digit (hint c hc)).2.1,
        (asciiDigit_digit (hint c hc)).2.2.1⟩
    · rcases List.mem_cons.mp hc with rfl | hc
      · decide
      · exact ⟨(asciiDigit_digit (hfrac c hc)).1, (asciiDigit_digit (hfrac c hc)).2.1,
          (asciiDigit_digit (hfrac c hc)).2.2.1⟩
  generalize int ++ '.' :: frac = cs at hchar
  have hstrip : ∀ l : List Char, (∀ c ∈ l, isSpace c = false) → l.dropWhile isSpace = l := by
    intro l hl
    cases l with
    | nil => rfl
    | cons c l => rw [List.dropWhile_cons, hl c List.mem_cons_self]; rfl
  unfold numericAsAscii
  simp only
  rw [hstrip cs fun c hc => (hchar c hc).2.1,
    hstrip cs.reverse fun c hc => (hchar c (List.mem_reverse.mp hc)).2.1, List.reverse_reverse,
    List.filter_eq_self.mpr fun c hc => by simpa using (hchar c hc).2.2]
  conv_rhs => rw [← List.map_id cs]
  exact List.map_congr_left fun c hc => (hchar c hc).1

/-- Parsing the text of a decimal without exponent gives the decimal back. -/
theorem ofString_str {coeff places : Nat} (hplaces : 0 < places)
    (hdigits : places < numDigits coeff) :
    ofString (str ⟨false, coeff, -places⟩) = some ⟨false, coeff, -places⟩ := by
  have hall : ∀ c ∈ Nat.toDigits 10 coeff, c.isDigit :=
    fun c hc => Nat.isDigit_of_mem_toDigits (by decide) (by decide) hc
  have hsplit := List.take_append_drop (numDigits coeff - places) (Nat.toDigits 10 coeff)
  have hint : ∀ c ∈ (Nat.toDigits 10 coeff).take (numDigits coeff - places), c.isDigit :=
    fun c hc => hall c (List.mem_of_mem_take hc)
  have hfrac : ∀ c ∈ (Nat.toDigits 10 coeff).drop (numDigits coeff - places), c.isDigit :=
    fun c hc => hall c (List.mem_of_mem_drop hc)
  have hintlen : ((Nat.toDigits 10 coeff).take (numDigits coeff - places)).length =
      numDigits coeff - places := by
    simp [numDigits]
  have hfraclen : ((Nat.toDigits 10 coeff).drop (numDigits coeff - places)).length = places := by
    unfold numDigits at hdigits ⊢
    simp only [List.length_drop]
    omega
  unfold ofString
  rw [str, String.toList_ofList, text_of_places hplaces hdigits]
  have hvalue : Nat.ofDigitChars 10 (Nat.toDigits 10 coeff) 0 = coeff :=
    Nat.ofDigitChars_ten_toDigits
  generalize (Nat.toDigits 10 coeff).take (numDigits coeff - places) = int at *
  generalize (Nat.toDigits 10 coeff).drop (numDigits coeff - places) = frac at *
  have hne : int ≠ [] := List.ne_nil_of_length_pos (by omega)
  rw [numericAsAscii_point hint hfrac]
  have hsign : splitSign (int ++ '.' :: frac) = (false, int ++ '.' :: frac) := by
    cases int with
    | nil => exact absurd rfl hne
    | cons c int =>
        obtain ⟨-, -, -, hminus, hplus⟩ := asciiDigit_digit (hint c List.mem_cons_self)
        unfold splitSign
        split <;> simp_all
  have hpoint : ('.' : Char).isDigit = false := rfl
  have htake : (int ++ '.' :: frac).takeWhile Char.isDigit = int := by
    rw [List.takeWhile_append_of_pos hint, List.takeWhile_cons, hpoint]
    simp
  have hdrop : (int ++ '.' :: frac).dropWhile Char.isDigit = '.' :: frac := by
    rw [List.dropWhile_append_of_pos hint, List.dropWhile_cons, hpoint]
    simp
  have htakefrac : frac.takeWhile Char.isDigit = frac := by
    exact List.takeWhile_eq_self_iff.mpr hfrac
  have hdropfrac : frac.dropWhile Char.isDigit = [] := by
    exact List.dropWhile_eq_nil_iff.mpr hfrac
  simp only [hsign, htake, hdrop, splitFraction, htakefrac, hdropfrac, hsplit]
  simp [parseExponent, hvalue, hfraclen]

/-! ## Plain notation -/

/-- The last digits of a number, zeros included. -/
def lastDigits : Nat → Nat → List Char
  | 0, _ => []
  | places + 1, n => lastDigits places (n / 10) ++ [Nat.digitChar (n % 10)]

/-- A number of units of the last of some decimal places: its whole part, a point, and a digit
for each place. -/
def plain (places n : Nat) : String :=
  String.ofList (Nat.toDigits 10 (n / 10 ^ places) ++ '.' :: lastDigits places n)

example : plain 4 10050 = "1.0050" := by decide

/-- The last digits are padded to their places. -/
theorem length_lastDigits (places n : Nat) : (lastDigits places n).length = places := by
  induction places generalizing n with
  | zero => rfl
  | succ places ih => simp [lastDigits, ih]

/-- The digits of a number are those of its whole part and those of its places. -/
theorem toDigits_eq_append {places n : Nat} (h : 10 ^ places ≤ n) :
    Nat.toDigits 10 n = Nat.toDigits 10 (n / 10 ^ places) ++ lastDigits places n := by
  induction places generalizing n with
  | zero => simp [lastDigits]
  | succ places ih =>
      have hten : 10 ≤ n := by
        have hpow : 0 < 10 ^ places := by positivity
        rw [Nat.pow_succ] at h
        omega
      have hnext : 10 ^ places ≤ n / 10 := by
        rw [Nat.le_div_iff_mul_le (by decide)]
        exact h
      have hdiv : n / 10 / 10 ^ places = n / 10 ^ (places + 1) := by
        rw [Nat.div_div_eq_div_mul, Nat.pow_succ, Nat.mul_comm]
      rw [Nat.toDigits_of_base_le (by decide) hten, ih hnext, hdiv, lastDigits, List.append_assoc]

/-- `str(d)` of a number that is at least 1 is plain. -/
theorem str_eq_plain {coeff places : Nat} (hplaces : 0 < places) (h : 10 ^ places ≤ coeff) :
    str ⟨false, coeff, -places⟩ = plain places coeff := by
  have hdigits : places < numDigits coeff := by
    by_contra hfew
    have hlt : coeff < 10 ^ places :=
      (Nat.length_toDigits_le_iff (by decide) hplaces).mp (not_lt.mp hfew)
    omega
  have hlength : numDigits coeff - places = (Nat.toDigits 10 (coeff / 10 ^ places)).length := by
    rw [numDigits, toDigits_eq_append h, List.length_append, length_lastDigits]
    omega
  rw [str, text_of_places hplaces hdigits, hlength, toDigits_eq_append h, List.take_left,
    List.drop_left, plain]

end Decimal

namespace Python

/-! ## `int` of a numeral -/

theorem toNat_of_isDigit {c : Char} (h : c.isDigit = true) : 0x30 ≤ c.toNat ∧ c.toNat < 0x3A := by
  simp only [Char.isDigit, ge_iff_le, UInt32.le_iff_toNat_le, Bool.and_eq_true,
    decide_eq_true_eq] at h
  exact ⟨h.1, Nat.lt_succ_of_le h.2⟩

/-- Digits alone have no underscore out of place. -/
theorem underscoresSeparate_of_isDigit {cs : List Char} (h : ∀ c ∈ cs, c.isDigit) :
    underscoresSeparate cs = true := by
  induction cs with
  | nil => rfl
  | cons c cs ih =>
      have hc : c ≠ '_' := by
        rintro rfl
        exact absurd (h '_' List.mem_cons_self) (by decide)
      obtain ⟨-, hcs⟩ := List.forall_mem_cons.mp h
      unfold underscoresSeparate
      split
      · contradiction
      · rename_i heq
        exact absurd (List.cons.inj heq).1 hc
      · rename_i heq
        exact absurd (List.cons.inj heq).1 hc
      · rename_i heq
        obtain ⟨-, rfl⟩ := List.cons.inj heq
        exact ih hcs

/-- The digits of a numeral are added up as integers. -/
theorem foldl_digits {cs : List Char} (h : ∀ c ∈ cs, c.isDigit) (init : Nat) :
    cs.foldl (fun (n : Int) c => 10 * n + (c.toNat - '0'.toNat)) (init : Int) =
      (Nat.ofDigitChars 10 cs init : Nat) := by
  induction cs generalizing init with
  | nil => rfl
  | cons c cs ih =>
      obtain ⟨hc, hcs⟩ := List.forall_mem_cons.mp h
      have hrange := toNat_of_isDigit hc
      have hzero : '0'.toNat = 0x30 := rfl
      have hstep : (10 * (init : Int) + (c.toNat - '0'.toNat) : Int) =
          (10 * init + (c.toNat - '0'.toNat) : Nat) := by
        omega
      rw [List.foldl_cons, Nat.ofDigitChars_cons, hstep, ih hcs]

/-- `int(str(n))`. -/
theorem intOfStr_toDigits {n : Nat} (hn : Decimal.numDigits n ≤ maxStrDigits) :
    intOfStr (String.ofList (Nat.toDigits 10 n)) = some (n : Int) := by
  have hdigits : ∀ c ∈ Nat.toDigits 10 n, c.isDigit :=
    fun c hc => Nat.isDigit_of_mem_toDigits (by decide) (by decide) hc
  have hvalue : Nat.ofDigitChars 10 (Nat.toDigits 10 n) 0 = n := Nat.ofDigitChars_ten_toDigits
  have hlength : (Nat.toDigits 10 n).length ≤ maxStrDigits := hn
  obtain ⟨c, cs, hhead⟩ := List.exists_cons_of_ne_nil (Nat.toDigits_ne_nil (b := 10) (n := n))
  rw [hhead] at hdigits hvalue hlength ⊢
  have hc := toNat_of_isDigit (hdigits c List.mem_cons_self)
  have hne : ∀ d : Char, d.isDigit = false → c ≠ d := by
    rintro d hd rfl
    rw [hdigits c List.mem_cons_self] at hd
    contradiction
  have hascii : asciiNumeral (c :: cs) = c :: cs := by
    unfold asciiNumeral
    rw [if_pos]
    rw [List.all_eq_true]
    intro d hd
    have hrange := toNat_of_isDigit (hdigits d hd)
    rw [decide_eq_true_eq]
    omega
  have hspace : isAsciiSpace c = false := by
    have hblank : c ≠ ' ' := hne ' ' rfl
    simp only [isAsciiSpace, hblank, decide_false, Bool.or_false, Bool.and_eq_false_iff,
      decide_eq_false_iff_not]
    omega
  have htake : (c :: cs).takeWhile (fun d => d.isDigit || d = '_') = c :: cs := by
    rw [List.takeWhile_eq_self_iff]
    intro d hd
    rw [hdigits d hd]
    rfl
  have hfilter : (c :: cs).filter Char.isDigit = c :: cs := List.filter_eq_self.mpr hdigits
  have hfold := foldl_digits hdigits 0
  rw [hvalue, Nat.cast_zero] at hfold
  unfold intOfStr
  simp only [String.toList_ofList, hascii, List.dropWhile_cons, hspace, Bool.false_eq_true,
    if_false, List.head?_cons, Option.some.injEq, hne '-' rfl, hne '+' rfl, or_self, htake,
    hfilter, underscoresSeparate_of_isDigit hdigits, hlength, hfold]
  simp [hne '_' rfl]

end Python
end BettingPlatform
