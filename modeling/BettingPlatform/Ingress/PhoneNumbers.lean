import BettingPlatform.Foundations.Trimming
import BettingPlatform.Ingress.Users

/-!
# The one spelling of a phone number

The pending registration, its attempt counter, its lock and the account are all kept under the
phone number `normalize_phone` gives.  The E.164 pattern lets through two things that are no
E.164: a decimal digit of another script, and a line feed behind the number, which outlives the
stripping when hyphens follow it.

A Python text may hold lone surrogates, which a `String` does not.  A surrogate is no space and
no digit, so the pattern refuses every text with one.

Main results:

- Theorem `normalizePhone_canonical`: a normalized number is in E.164 form and stays as it is
  exactly when the given text has none of the two, and what the validator accepts can be
  normalized.
-/

namespace BettingPlatform
namespace Ingress

open Python

/-- `validate_phone_e164`; `none` is the `ValueError`. -/
def validatePhoneE164 (value : String) : Option String :=
  let cleaned := (strip value.toList).filter fun c => c ≠ ' ' && c ≠ '-'
  if isE164 cleaned then some (String.ofList cleaned) else none

/-- A number in E.164 form: a plus sign and 8 to 15 ASCII digits, the first one not zero. -/
structure Canonical (phone : String) : Prop where
  form : ∃ first rest, phone.toList = '+' :: first :: rest ∧ ('1' ≤ first ∧ first ≤ '9') ∧
    (∀ c ∈ rest, c.isDigit = true) ∧ 7 ≤ rest.length ∧ rest.length ≤ 14

/-- Every decimal digit of the text is an ASCII digit. -/
def AsciiDigits (phone : String) : Prop :=
  ∀ c ∈ phone.toList, (decimalValue c).isSome → c.isDigit = true

/-- A line feed stands at the end of the text, behind it only spaces and hyphens with at least one
hyphen, and whitespace behind the last hyphen. -/
def HiddenLineFeed (phone : String) : Prop :=
  ∃ front separators trail, phone.toList = front ++ '\n' :: (separators ++ '-' :: trail) ∧
    (∀ c ∈ separators, c = ' ' ∨ c = '-') ∧ ∀ c ∈ trail, isSpace c = true

/-! ## What the pattern matches -/

/-- A digit is not whitespace. -/
theorem isSpace_of_decimalValue {c : Char} (h : (decimalValue c).isSome) : isSpace c = false := by
  cases hspace : isSpace c with
  | false => rfl
  | true => simp [decimalValue_of_isSpace hspace] at h

/-- A digit is not a separator. -/
theorem separator_of_decimalValue {c : Char} (h : (decimalValue c).isSome) :
    (c ≠ ' ' && c ≠ '-') = true := by
  have hspace : decimalValue ' ' = none := by decide
  have hhyphen : decimalValue '-' = none := by decide
  simp only [ne_eq, Bool.and_eq_true, decide_eq_true_eq]
  constructor
  · rintro rfl
    simp [hspace] at h
  · rintro rfl
    simp [hhyphen] at h

/-- What the pattern matches: a plus sign, digits, and possibly a line feed. -/
structure Matched (cs : List Char) (first : Char) (digits tail : List Char) : Prop where
  split : cs = '+' :: first :: (digits ++ tail)
  first_pos : '1' ≤ first ∧ first ≤ '9'
  length : 7 ≤ digits.length ∧ digits.length ≤ 14
  isDigits : ∀ c ∈ digits, (decimalValue c).isSome
  tail_eq : tail = [] ∨ tail = ['\n']

/-- A digit from 1 to 9 is an ASCII digit. -/
theorem isDigit_of_range {c : Char} (h : '1' ≤ c ∧ c ≤ '9') : c.isDigit = true := by
  have hrange : 0x31 ≤ c.toNat ∧ c.toNat ≤ 0x39 := h
  simp only [Char.isDigit, ge_iff_le, UInt32.le_iff_toNat_le, Bool.and_eq_true, decide_eq_true_eq]
  exact ⟨Nat.le_of_succ_le hrange.1, hrange.2⟩

/-- Digits do not end in a line break. -/
theorem getLast_digits {digits : List Char} (h : ∀ c ∈ digits, (decimalValue c).isSome) :
    digits.getLast? ≠ some '\n' := by
  intro hlast
  have hfeed : decimalValue '\n' = none := by decide
  have hdigit := h '\n' (List.mem_of_getLast? hlast)
  simp [hfeed] at hdigit

/-- The pattern takes a plus sign and digits, and a line break behind them. -/
theorem isE164_iff {cs : List Char} :
    isE164 cs = true ↔ ∃ first digits tail, Matched cs first digits tail := by
  constructor
  · intro h
    unfold isE164 at h
    split at h
    · rename_i first rest
      simp only [Bool.and_eq_true, decide_eq_true_eq, List.all_eq_true] at h
      obtain ⟨⟨⟨hfirst, hleast⟩, hmost⟩, hdigits⟩ := h
      by_cases hfeed : rest.getLast? = some '\n'
      · rw [if_pos hfeed] at hleast hmost hdigits
        obtain ⟨digits, rfl⟩ := List.getLast?_eq_some_iff.mp hfeed
        rw [List.dropLast_concat] at hleast hmost hdigits
        exact ⟨first, digits, ['\n'], rfl, hfirst, ⟨hleast, hmost⟩, hdigits, .inr rfl⟩
      · rw [if_neg hfeed] at hleast hmost hdigits
        exact ⟨first, rest, [], by simp, hfirst, ⟨hleast, hmost⟩, hdigits, .inl rfl⟩
    · contradiction
  · rintro ⟨first, digits, tail, rfl, hfirst, hlength, hdigits, htail⟩
    have hlast := getLast_digits hdigits
    rcases htail with rfl | rfl <;> simp [isE164, hfirst, hlength, hlast] <;> simpa using hdigits

/-! ## The parts of the normalization -/

/-- The text without surrounding whitespace, spaces and hyphens. -/
def cleanedPhone (phone : String) : List Char :=
  (strip phone.toList).filter fun c => c ≠ ' ' && c ≠ '-'

/-- The cleaned text with its international prefix. -/
def withCountry (cleaned : List Char) : List Char :=
  let cleaned := if cleaned.take 2 = ['0', '0'] then '+' :: cleaned.drop 2 else cleaned
  let cleaned :=
    if cleaned.head? = some '0' ∧ 10 ≤ cleaned.length then
      ['+', '2', '5', '4'] ++ cleaned.drop 1
    else cleaned
  if cleaned.head? = some '+' then cleaned else '+' :: cleaned

/-- A number is normalized to its cleaned form when that matches. -/
theorem normalizePhone_eq_some_iff {phone r : String} :
    normalizePhone phone = some r ↔
      isE164 (withCountry (cleanedPhone phone)) = true ∧
        r = String.ofList (withCountry (cleanedPhone phone)) := by
  change (if isE164 (withCountry (cleanedPhone phone)) then
    some (String.ofList (withCountry (cleanedPhone phone))) else none) = some r ↔ _
  split
  · rename_i hmatch
    simp [hmatch, eq_comm]
  · rename_i hmatch
    simp [hmatch]

/-- Only zeros at the front give way to a prefix. -/
theorem withCountry_eq (cs : List Char) :
    ∃ dropped added rest, cs = dropped ++ rest ∧ withCountry cs = added ++ rest ∧
      (∀ c ∈ dropped, c = '0') ∧ (∀ c ∈ added, c = '+' ∨ c.isDigit = true) ∧ added.length ≤ 4 := by
  unfold withCountry
  by_cases hzeros : cs.take 2 = ['0', '0']
  · have hsplit : cs = ['0', '0'] ++ cs.drop 2 := by
      rw [← hzeros, List.take_append_drop]
    exact ⟨['0', '0'], ['+'], cs.drop 2, hsplit, by simp [hzeros], by simp, by simp, by simp⟩
  · simp only [hzeros, if_false]
    by_cases hzero : cs.head? = some '0' ∧ 10 ≤ cs.length
    · obtain ⟨rest, rfl⟩ := List.head?_eq_some_iff.mp hzero.1
      have hlong : 9 ≤ rest.length := by simpa using hzero.2
      exact ⟨['0'], ['+', '2', '5', '4'], rest, rfl, by simp [hlong], by simp,
        by simp [Char.isDigit], by simp⟩
    · simp only [hzero, if_false]
      split
      · exact ⟨[], [], cs, rfl, rfl, by simp, by simp, by simp⟩
      · exact ⟨[], ['+'], cs, rfl, rfl, by simp, by simp, by simp⟩

/-- A text with a plus sign has its prefix. -/
theorem withCountry_plus (rest : List Char) : withCountry ('+' :: rest) = '+' :: rest := by
  simp [withCountry]

/-- A digit of another script is in the result exactly when it is in the given text. -/
theorem asciiDigits_iff (phone : String) :
    AsciiDigits phone ↔
      ∀ c ∈ withCountry (cleanedPhone phone), (decimalValue c).isSome → c.isDigit = true := by
  obtain ⟨dropped, added, rest, hcleaned, hresult, hdropped, hadded, -⟩ :=
    withCountry_eq (cleanedPhone phone)
  have hplus : decimalValue '+' = none := by decide
  have hclean : ∀ c, (decimalValue c).isSome → (c ∈ cleanedPhone phone ↔ c ∈ phone.toList) := by
    intro c hc
    rw [cleanedPhone, List.mem_filter, and_iff_left (separator_of_decimalValue hc)]
    exact mem_trim_iff (isSpace_of_decimalValue hc)
  rw [hresult]
  constructor
  · intro hascii c hmem hdigit
    rcases List.mem_append.mp hmem with hnew | hkept
    · rcases hadded c hnew with rfl | hc
      · simp [hplus] at hdigit
      · exact hc
    · refine hascii c ((hclean c hdigit).mp ?_) hdigit
      rw [hcleaned]
      exact List.mem_append_right dropped hkept
  · intro hascii c hmem hdigit
    rw [← hclean c hdigit, hcleaned, List.mem_append] at hmem
    rcases hmem with hzero | hkept
    · rw [hdropped c hzero]
      decide
    · exact hascii c (List.mem_append_right added hkept) hdigit

/-- The prefix leaves the end of a number alone. -/
theorem getLast_withCountry {cs : List Char} (hlong : 4 < (withCountry cs).length) :
    (withCountry cs).getLast? = cs.getLast? := by
  obtain ⟨dropped, added, rest, hcs, hresult, -, -, hadded⟩ := withCountry_eq cs
  have hrest : rest ≠ [] := by
    rintro rfl
    rw [hresult, List.append_nil] at hlong
    omega
  rw [hresult, hcs, List.getLast?_append_of_ne_nil _ hrest, List.getLast?_append_of_ne_nil _ hrest]

/-! ## The line feed -/

/-- A line feed at the end of the cleaned text was hidden in the given one. -/
theorem hiddenLineFeed_of_getLast {phone : String}
    (h : (cleanedPhone phone).getLast? = some '\n') : HiddenLineFeed phone := by
  rcases forall_or_last (p := isSpace) phone.toList with
    hspace | ⟨front, d, trail, hsplit, hd, htrail⟩
  · have hempty : strip phone.toList = [] := trim_of_forall hspace
    simp [cleanedPhone, hempty] at h
  · have hstrip : strip phone.toList = front.dropWhile isSpace ++ [d] := by
      rw [hsplit]
      exact trim_append_cons hd htrail
    rw [cleanedPhone, hstrip, List.filter_append] at h
    by_cases hhyphen : d = '-'
    · subst hhyphen
      rw [show ['-'].filter (fun c => c ≠ ' ' && c ≠ '-') = [] by decide, List.append_nil] at h
      obtain ⟨before, hbefore⟩ := List.getLast?_eq_some_iff.mp h
      obtain ⟨upTo, behind, hfront, -, hfeed⟩ := List.filter_eq_append_iff.mp hbefore
      obtain ⟨between, separators, rfl, hbetween, -, hseparators⟩ :=
        List.filter_eq_cons_iff.mp hfeed
      refine ⟨front.takeWhile isSpace ++ upTo ++ between, separators, trail, ?_, ?_, htrail⟩
      · calc phone.toList
            = (front.takeWhile isSpace ++ (upTo ++ (between ++ '\n' :: separators))) ++
                '-' :: trail := by rw [hsplit, ← hfront, List.takeWhile_append_dropWhile]
          _ = _ := by simp
      · simpa [List.filter_eq_nil_iff, or_iff_not_imp_left] using hseparators
    · have hblank : d ≠ ' ' := by
        rintro rfl
        simp [isSpace, isAsciiSpace] at hd
      rw [show [d].filter (fun c => c ≠ ' ' && c ≠ '-') = [d] by simp [hblank, hhyphen],
        List.getLast?_concat, Option.some.injEq] at h
      rw [h] at hd
      exact absurd hd (by decide)

/-- A hidden line feed is the end of the cleaned text, unless nothing is left of this. -/
theorem getLast_of_hiddenLineFeed {phone : String} (h : HiddenLineFeed phone) :
    cleanedPhone phone = [] ∨ (cleanedPhone phone).getLast? = some '\n' := by
  obtain ⟨front, separators, trail, hsplit, hseparators, htrail⟩ := h
  have hgone : separators.filter (fun c => c ≠ ' ' && c ≠ '-') = [] := by
    simpa [List.filter_eq_nil_iff, or_iff_not_imp_left] using hseparators
  have hstrip : strip phone.toList = (front ++ '\n' :: separators).dropWhile isSpace ++ ['-'] := by
    rw [hsplit, ← List.cons_append, ← List.append_assoc]
    exact trim_append_cons (by decide) htrail
  rw [cleanedPhone, hstrip, List.dropWhile_append]
  split
  · refine .inl ?_
    rw [List.dropWhile_cons_of_pos (by decide), List.filter_append, List.append_eq_nil_iff]
    refine ⟨List.filter_eq_nil_iff.mpr fun c hc => ?_, by decide⟩
    exact List.filter_eq_nil_iff.mp hgone c ((List.dropWhile_suffix isSpace).subset hc)
  · refine .inr ?_
    simp only [List.filter_append, List.filter_cons, hgone]
    simp

/-! ## Normalizing again -/

/-- Stripping a matched number takes the line feed away. -/
theorem strip_of_matched {cs digits tail : List Char} {first : Char}
    (h : Matched cs first digits tail) : strip cs = '+' :: first :: digits := by
  rcases digits.eq_nil_or_concat with hnil | ⟨middle, last, hlast⟩
  · have hlength := h.length.1
    simp [hnil] at hlength
  · rw [List.concat_eq_append] at hlast
    have hspace : isSpace last = false := by
      refine isSpace_of_decimalValue (h.isDigits last ?_)
      simp [hlast]
    have htail : ∀ c ∈ tail, isSpace c = true := by
      rcases h.tail_eq with rfl | rfl <;> simp [isSpace, isAsciiSpace]
    calc strip cs = trim isSpace (('+' :: first :: middle) ++ last :: tail) := by
          rw [h.split, hlast]
          simp [strip, trim, List.rdropWhile]
      _ = ('+' :: first :: middle).dropWhile isSpace ++ [last] := trim_append_cons hspace htail
      _ = '+' :: first :: digits := by
          rw [List.dropWhile_cons_of_neg (by decide), hlast]
          rfl

/-- A matched number is normalized to the number without the line feed. -/
theorem normalizePhone_of_matched {cs digits tail : List Char} {first : Char}
    (h : Matched cs first digits tail) :
    normalizePhone (String.ofList cs) = some (String.ofList ('+' :: first :: digits)) := by
  have hfirst := decimalValue_of_isDigit (isDigit_of_range h.first_pos)
  have hall : ∀ c ∈ '+' :: first :: digits, (c ≠ ' ' && c ≠ '-') = true := by
    simp only [List.forall_mem_cons]
    exact ⟨by decide, separator_of_decimalValue hfirst,
      fun c hc => separator_of_decimalValue (h.isDigits c hc)⟩
  have hcleaned : cleanedPhone (String.ofList cs) = '+' :: first :: digits := by
    rw [cleanedPhone, String.toList_ofList, strip_of_matched h, List.filter_eq_self.mpr hall]
  rw [normalizePhone_eq_some_iff, hcleaned, withCountry_plus]
  exact ⟨isE164_iff.mpr ⟨first, digits, [], by simp, h.first_pos, h.length, h.isDigits, .inl rfl⟩,
    rfl⟩

/-- The line feed of a matched number was hidden in the given text. -/
theorem Matched.tail_eq_iff {phone : String} {first : Char} {digits tail : List Char}
    (h : Matched (withCountry (cleanedPhone phone)) first digits tail) :
    tail = ['\n'] ↔ HiddenLineFeed phone := by
  have hlong : 4 < (withCountry (cleanedPhone phone)).length := by
    have hlength := h.length.1
    rw [h.split]
    simp only [List.length_cons, List.length_append]
    omega
  have hlast := getLast_withCountry hlong
  rw [h.split] at hlast
  constructor
  · rintro rfl
    refine hiddenLineFeed_of_getLast (hlast.symm.trans ?_)
    rw [← List.cons_append, ← List.cons_append, List.getLast?_concat]
  · intro hhidden
    rcases getLast_of_hiddenLineFeed hhidden with hempty | hfeed
    · rw [hempty] at hlong
      exact absurd hlong (by decide)
    · refine h.tail_eq.resolve_left ?_
      rintro rfl
      have hdigits : digits ≠ [] := by
        rintro rfl
        simpa using h.length.1
      rw [hfeed, List.append_nil, show '+' :: first :: digits = ['+', first] ++ digits from rfl,
        List.getLast?_append_of_ne_nil _ hdigits] at hlast
      exact getLast_digits h.isDigits hlast

/-- The normalized number of a text, if it has one, is in E.164 form and normalized again to
itself exactly when all digits of the text are ASCII digits and no line feed hides behind the
number.  A number the validator accepts has a normalized one. -/
theorem normalizePhone_canonical (phone : String) :
    (∀ r, normalizePhone phone = some r →
      ((Canonical r ∧ normalizePhone r = some r) ↔ (AsciiDigits phone ∧ ¬ HiddenLineFeed phone))) ∧
    ∀ cleaned, validatePhoneE164 phone = some cleaned → ∃ r, normalizePhone cleaned = some r := by
  refine ⟨fun r h => ?_, fun cleaned h => ?_⟩
  · obtain ⟨hmatch, rfl⟩ := normalizePhone_eq_some_iff.mp h
    obtain ⟨first, digits, tail, hmatched⟩ := isE164_iff.mp hmatch
    rw [normalizePhone_of_matched hmatched, asciiDigits_iff, ← hmatched.tail_eq_iff, hmatched.split]
    constructor
    · rintro ⟨⟨first', rest, hform, -, hrest, -⟩, hsame⟩
      rw [Option.some.injEq, String.ofList_inj, List.cons.injEq, List.cons.injEq,
        List.self_eq_append_right] at hsame
      obtain rfl : tail = [] := hsame.2.2
      refine ⟨?_, by simp⟩
      rw [String.toList_ofList, List.append_nil, List.cons.injEq, List.cons.injEq] at hform
      rw [List.append_nil]
      simp only [List.forall_mem_cons]
      refine ⟨fun hplus => absurd hplus (by decide),
        fun _ => isDigit_of_range hmatched.first_pos, fun c hc _ => hrest c ?_⟩
      rwa [← hform.2.2]
    · rintro ⟨hascii, hfeed⟩
      obtain rfl : tail = [] := hmatched.tail_eq.resolve_right hfeed
      rw [List.append_nil] at hascii ⊢
      refine ⟨⟨first, digits, String.toList_ofList, hmatched.first_pos, fun c hc => ?_,
        hmatched.length⟩, rfl⟩
      exact hascii c (List.mem_cons_of_mem _ (List.mem_cons_of_mem _ hc)) (hmatched.isDigits c hc)
  · unfold validatePhoneE164 at h
    simp only at h
    split at h
    · rename_i hmatch
      obtain ⟨first, digits, tail, hmatched⟩ := isE164_iff.mp hmatch
      cases h
      exact ⟨_, normalizePhone_of_matched hmatched⟩
    · contradiction

theorem normalizePhone_canonical_sample :
    Canonical "+254712345678" ∧ normalizePhone "+254712345678" = some "+254712345678" := by
  have hfeed : ¬ HiddenLineFeed " 0712-345 678" := by
    rintro ⟨front, separators, trail, hsplit, -⟩
    have hmem : '\n' ∈ " 0712-345 678".toList := by
      rw [hsplit]
      exact List.mem_append_right front List.mem_cons_self
    exact absurd hmem (by decide)
  have hascii : AsciiDigits " 0712-345 678" := by
    have hall : " 0712-345 678".toList.all
        (fun c => decide ((decimalValue c).isSome → c.isDigit = true)) = true := by
      decide
    intro c hc
    exact of_decide_eq_true (List.all_eq_true.mp hall c hc)
  exact ((normalizePhone_canonical " 0712-345 678").1 "+254712345678" (by decide)).mpr
    ⟨hascii, hfeed⟩

/-- A number with a digit of another script is not brought to an E.164 form. -/
theorem normalizePhone_not_canonical :
    ¬ ∀ phone r, normalizePhone phone = some r → Canonical r ∧ normalizePhone r = some r := by
  intro h
  obtain ⟨⟨first, rest, hform, -, hdigits, -⟩, -⟩ :=
    h "+25471234567٨" "+25471234567٨" (by decide)
  obtain ⟨-, -, rfl⟩ : '+' = '+' ∧ '2' = first ∧ "5471234567٨".toList = rest := by
    simpa using hform
  exact absurd (hdigits '٨' (by decide)) (by decide)

example : normalizePhone "+25471234567\n-" = some "+25471234567\n" := by decide

end Ingress
end BettingPlatform
