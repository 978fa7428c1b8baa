import BettingPlatform.Foundations.JsonGrammar
import BettingPlatform.RiskEngine.Parser
import Mathlib.Data.List.TakeWhile

/-!
# What the engine's parser accepts

`parse_object` against the grammar of JSON.  The scanner and the grammar agree token by
token, with three exceptions: the member loop also ends with the input, the integer scan
takes any digits, and no scan looks at the encoding.

Main results:

- Theorem `stringToken_of_engineString`: every string the engine reads is a JSON string.
- Theorem `parseMembers_cases`: how a run of the member loop can end.
- Theorem `parseObject_json_iff`: when an accepted payload is a JSON text, and then the
  field map is the map of its members.
-/

namespace BettingPlatform
namespace RiskEngine

open JsonGrammar

/-! ## String tokens -/

/-- The engine's rule for string tokens. -/
def EngineString (t v r : Bytes) : Prop :=
  parseJsonStringToken t = some (v, r)

/-- A string token opens with a quotation mark. -/
theorem parseJsonStringToken_quoted {t v r : Bytes} (h : parseJsonStringToken t = some (v, r)) :
    ∃ t', t = ascii '"' :: t' ∧ parseStringBody t' = some (v, r) := by
  cases t with
  | nil => contradiction
  | cons c t =>
      simp only [parseJsonStringToken] at h
      split at h
      · rename_i hquote
        exact ⟨t, by rw [hquote], h⟩
      · contradiction

/-- The engine's string tokens are tokens in the sense of the grammar. -/
theorem tokenRule_engineString : TokenRule EngineString where
  quoted := by
    intro t v r h
    obtain ⟨t', ht, -⟩ := parseJsonStringToken_quoted h
    exact ⟨t', ht⟩
  suffix := by
    intro t v r h
    obtain ⟨token, -, rfl, -⟩ := parseJsonStringToken_token h
    exact List.suffix_append _ _
  unique := by
    intro t v v' r r' h h'
    exact Prod.mk.inj (Option.some.inj (h.symm.trans h'))

/-- The engine's `switch` knows the two-character escapes of the grammar. -/
theorem mem_escapes_of_unescape {e b : UInt8} (h : unescape e = some b) : (e, b) ∈ escapes := by
  unfold unescape at h
  split_ifs at h <;> (obtain rfl := Option.some.inj h; subst_vars; decide)

/-- The engine reads a string body only where the grammar has one. -/
theorem chars_of_parseStringBody {t v r : Bytes} (h : parseStringBody t = some (v, r)) :
    Chars t v r := by
  fun_induction parseStringBody t generalizing v r with
  | case1 => contradiction
  | case2 t =>
      obtain ⟨rfl, rfl⟩ : [] = v ∧ t = r := by simpa using h
      exact .close
  | case3 => contradiction
  | case4 e t hquote ih =>
      obtain ⟨b, hb, h⟩ := Option.bind_eq_some_iff.mp h
      obtain ⟨⟨v', r'⟩, hbody, h⟩ := Option.bind_eq_some_iff.mp h
      obtain ⟨rfl, rfl⟩ : b :: v' = v ∧ r' = r := by simpa using h
      exact .escape (mem_escapes_of_unescape hb) (ih hbody)
  | case5 => contradiction
  | case6 c t hquote hbackslash hcontrol ih =>
      obtain ⟨⟨v', r'⟩, hbody, h⟩ := Option.bind_eq_some_iff.mp h
      obtain ⟨rfl, rfl⟩ : c :: v' = v ∧ r' = r := by simpa using h
      exact .unescaped hquote hbackslash (UInt8.not_lt.mp hcontrol) (ih hbody)

/-- Every string the engine reads is a JSON string. -/
theorem stringToken_of_engineString {t v r : Bytes} (h : EngineString t v r) :
    StringToken t v r := by
  obtain ⟨t', ht, hbody⟩ := parseJsonStringToken_quoted h
  exact ⟨t', ht, chars_of_parseStringBody hbody⟩

/-! ## The conditions on the payload -/

/-- The last byte that is no whitespace. -/
def lastByte (s : Bytes) : Option UInt8 :=
  (s.filter fun b => !isWs b).getLast?

/-- Where a scan for integers is: inside a string, behind a backslash there, inside a run
of digits, or elsewhere. -/
inductive Scan
  | outside
  | digits
  | string
  | escape
deriving DecidableEq, Repr

/-- Where the scan is behind a byte outside strings. -/
def Scan.after (c : UInt8) : Scan :=
  if c = ascii '"' then .string else if isDigit c then .digits else .outside

/-- A run of at least two digits that begins with a zero, outside strings. -/
def hasLeadingZero : Scan → Bytes → Bool
  | _, [] => false
  | .outside, c :: s =>
      (c = ascii '0' && s.head?.any isDigit) || hasLeadingZero (.after c) s
  | .digits, c :: s => hasLeadingZero (.after c) s
  | .string, c :: s =>
      hasLeadingZero
        (if c = ascii '\\' then .escape else if c = ascii '"' then .outside else .string) s
  | .escape, _ :: s => hasLeadingZero .string s

/-- What the parser does not check of a payload: that it is UTF-8, that it ends with the
brace that closes the object, and that no integer has a leading zero. -/
structure Tidy (s : Bytes) : Prop where
  utf8 : IsUtf8 s
  closed : lastByte s = some (ascii '\x7d')
  noLeadingZero : hasLeadingZero .outside s = false

/-- What ends in a byte that is no space ends in it behind any prefix. -/
theorem lastByte_append {s t : Bytes} {c : UInt8} (h : lastByte t = some c) :
    lastByte (s ++ t) = some c := by
  unfold lastByte at h ⊢
  rw [List.filter_append, List.getLast?_append, h]
  rfl

/-- A suffix with a last byte decides that of the whole. -/
theorem lastByte_of_suffix {s t : Bytes} {c : UInt8} (hsuffix : t <:+ s)
    (h : lastByte t = some c) : lastByte s = some c := by
  obtain ⟨x, rfl⟩ := hsuffix
  exact lastByte_append h

/-- A byte in front of whitespace that ends the text is its last byte. -/
theorem lastByte_cons {c : UInt8} {s : Bytes} (hc : isWs c = false) (hs : skipWs s = []) :
    lastByte (c :: s) = some c := by
  have hall : ∀ b ∈ s, isWs b := List.dropWhile_eq_nil_iff.mp hs
  have hfilter : s.filter (fun b => !isWs b) = [] := by
    rw [List.filter_eq_nil_iff]
    intro b hb
    simp [hall b hb]
  rw [lastByte, List.filter_cons, hfilter]
  simp [hc]

theorem isSpace_eq_isWs (b : UInt8) : isSpace b = isWs b := by
  simp only [isSpace, isWs]
  cases decide (b = ascii ' ') <;> cases decide (b = ascii '\t') <;>
    cases decide (b = ascii '\n') <;> cases decide (b = ascii '\r') <;> rfl

/-- What is skipped is whitespace. -/
theorem ws_skipWs (s : Bytes) : Ws s (skipWs s) := by
  induction s with
  | nil => exact .nil
  | cons c s ih =>
      unfold skipWs at ih ⊢
      rw [List.dropWhile_cons]
      split
      · rename_i hc
        exact .cons (by rwa [isSpace_eq_isWs]) ih
      · exact .nil

/-- Whitespace is skipped to its end. -/
theorem skipWs_of_ws {t : Bytes} (h : Ws t []) : skipWs t = [] := by
  generalize hr : ([] : Bytes) = r at h
  induction h with
  | nil =>
      subst hr
      rfl
  | cons hspace _ ih =>
      rw [isSpace_eq_isWs] at hspace
      rw [skipWs, List.dropWhile_cons_of_pos hspace]
      exact ih hr

/-! ## Leading zeros in JSON texts -/

/-- Punctuation between tokens is passed over. -/
theorem hasLeadingZero_punctuation {c : UInt8} {s : Bytes}
    (hc : c ≠ ascii '"' ∧ isDigit c = false) :
    hasLeadingZero .outside (c :: s) = hasLeadingZero .outside s := by
  have hzero : c ≠ ascii '0' := by
    rintro rfl
    exact absurd hc.2 (by decide)
  simp [hasLeadingZero, Scan.after, hc, hzero]

/-- So is whitespace. -/
theorem hasLeadingZero_ws {t r : Bytes} (h : Ws t r) :
    hasLeadingZero .outside t = hasLeadingZero .outside r := by
  induction h with
  | nil => rfl
  | @cons c t r hspace _ ih =>
      have hpunctuation : c ≠ ascii '"' ∧ isDigit c = false := by
        simp only [isSpace, Bool.or_eq_true, decide_eq_true_eq] at hspace
        rcases hspace with ((rfl | rfl) | rfl) | rfl <;> decide
      rw [hasLeadingZero_punctuation hpunctuation, ih]

/-- Whitespace and a punctuation mark hide no integer. -/
theorem hasLeadingZero_mark {t r : Bytes} {c : UInt8} (h : Ws t (c :: r))
    (hc : c ≠ ascii '"' ∧ isDigit c = false) :
    hasLeadingZero .outside t = hasLeadingZero .outside r := by
  rw [hasLeadingZero_ws h, hasLeadingZero_punctuation hc]

/-- A digit of a `\u` escape neither ends the string nor begins an escape. -/
theorem hasLeadingZero_hex {d : UInt8} {n : Nat} (hd : hexDigit d = some n) (s : Bytes) :
    hasLeadingZero .string (d :: s) = hasLeadingZero .string s := by
  have hne : d ≠ ascii '\\' ∧ d ≠ ascii '"' := by
    have hnone : hexDigit (ascii '\\') = none ∧ hexDigit (ascii '"') = none := by decide
    constructor <;> (rintro rfl; simp [hnone] at hd)
  simp [hasLeadingZero, hne]

/-- The hexadecimal digits of an escape stay inside the string. -/
theorem hasLeadingZero_codeUnit {t t' : Bytes} {n : Nat} (h : codeUnit t = some (n, t')) :
    hasLeadingZero .string t = hasLeadingZero .string t' := by
  unfold codeUnit at h
  split at h
  · simp only [Option.bind_eq_bind, Option.bind_eq_some_iff] at h
    obtain ⟨_, h₁, _, h₂, _, h₃, _, h₄, h⟩ := h
    obtain ⟨-, rfl⟩ := Prod.mk.inj (Option.some.inj h)
    rw [hasLeadingZero_hex h₁, hasLeadingZero_hex h₂, hasLeadingZero_hex h₃,
      hasLeadingZero_hex h₄]
  · contradiction

/-- An escaped byte does too, a quotation mark for instance. -/
theorem hasLeadingZero_escape (e : UInt8) (s : Bytes) :
    hasLeadingZero .string (ascii '\\' :: e :: s) = hasLeadingZero .string s := by
  simp [hasLeadingZero]

theorem hasLeadingZero_close (s : Bytes) :
    hasLeadingZero .string (ascii '"' :: s) = hasLeadingZero .outside s := by
  rw [hasLeadingZero, if_neg (by decide), if_pos rfl]

theorem hasLeadingZero_open (s : Bytes) :
    hasLeadingZero .outside (ascii '"' :: s) = hasLeadingZero .string s := by
  have hzero : ascii '"' ≠ ascii '0' := by decide
  simp [hasLeadingZero, Scan.after, hzero]

/-- A string body ends outside. -/
theorem hasLeadingZero_chars {t v r : Bytes} (h : Chars t v r) :
    hasLeadingZero .string t = hasLeadingZero .outside r := by
  induction h with
  | close => exact hasLeadingZero_close _
  | unescaped hquote hbackslash _ _ ih => simp [hasLeadingZero, hquote, hbackslash, ih]
  | escape _ _ ih => rw [hasLeadingZero_escape, ih]
  | unit hunit _ _ ih => rw [hasLeadingZero_escape, hasLeadingZero_codeUnit hunit, ih]
  | pair hhigh hlow _ _ _ ih =>
      rw [hasLeadingZero_escape, hasLeadingZero_codeUnit hhigh, hasLeadingZero_escape,
        hasLeadingZero_codeUnit hlow, ih]

/-- Digits inside a string do not count. -/
theorem hasLeadingZero_stringToken {t v r : Bytes} (h : StringToken t v r) :
    hasLeadingZero .outside t = hasLeadingZero .outside r := by
  obtain ⟨t', rfl, hchars⟩ := h
  rw [hasLeadingZero_open, hasLeadingZero_chars hchars]

/-- Behind its last digit a number is over. -/
theorem hasLeadingZero_rest {r : Bytes} (hr : ∀ b ∈ r.head?, isDigit b = false) :
    hasLeadingZero .digits r = hasLeadingZero .outside r := by
  cases r with
  | nil => rfl
  | cons c r =>
      have hzero : c ≠ ascii '0' := by
        rintro rfl
        exact absurd (hr (ascii '0') (by simp)) (by decide)
      simp [hasLeadingZero, hzero]

/-- Behind its first digit a run of digits holds no leading zero. -/
theorem hasLeadingZero_run {ds r : Bytes} (hds : ∀ d ∈ ds, isDigit d)
    (hr : ∀ b ∈ r.head?, isDigit b = false) :
    hasLeadingZero .digits (ds ++ r) = hasLeadingZero .outside r := by
  induction ds with
  | nil => exact hasLeadingZero_rest hr
  | cons d ds ih =>
      have hdigit := hds d List.mem_cons_self
      have hquote : d ≠ ascii '"' := by
        rintro rfl
        exact absurd hdigit (by decide)
      rw [List.cons_append, hasLeadingZero, Scan.after, if_neg hquote, if_pos hdigit,
        ih fun b hb => hds b (List.mem_cons_of_mem _ hb)]

/-- The scan finds the integers that are no numerals of the grammar. -/
theorem hasLeadingZero_digits {ds r : Bytes} (hne : ds ≠ []) (hds : ∀ d ∈ ds, isDigit d)
    (hr : ∀ b ∈ r.head?, isDigit b = false) :
    hasLeadingZero .outside (ds ++ r) = false ↔
      IsNumeral ds ∧ hasLeadingZero .outside r = false := by
  cases ds with
  | nil => exact absurd rfl hne
  | cons d ds =>
      have hdigit := hds d List.mem_cons_self
      have hquote : d ≠ ascii '"' := by
        rintro rfl
        exact absurd hdigit (by decide)
      have htail : ∀ b ∈ ds, isDigit b := fun b hb => hds b (List.mem_cons_of_mem _ hb)
      have hnext : (ds ++ r).head?.any isDigit = true ↔ ds ≠ [] := by
        cases ds with
        | nil =>
            cases r with
            | nil => simp
            | cons b r => simpa using hr b (by simp)
        | cons b ds => simpa using htail b List.mem_cons_self
      rw [List.cons_append, hasLeadingZero, Scan.after, if_neg hquote, if_pos hdigit,
        hasLeadingZero_run htail hr, Bool.or_eq_false_iff]
      refine and_congr_left fun _ => ?_
      rw [Bool.eq_false_iff, Ne, Bool.and_eq_true, hnext, decide_eq_true_eq]
      constructor
      · intro h
        refine ⟨hne, hds, fun hzero => ?_⟩
        have hnil : ds = [] := by
          by_contra hcons
          exact h ⟨by simpa using hzero, hcons⟩
        simp [hnil]
      · rintro ⟨-, -, hlength⟩ ⟨rfl, hcons⟩
        exact hcons (List.length_eq_zero_iff.mp (Nat.succ.inj (hlength rfl)))

/-- A JSON integer has no leading zero. -/
theorem hasLeadingZero_intToken {t r : Bytes} {n : Int} (h : IntToken t n r)
    (hr : hasLeadingZero .outside r = false) : hasLeadingZero .outside t = false := by
  cases h with
  | nonneg hdigits hend =>
      exact (hasLeadingZero_digits hdigits.1 hdigits.2.1 hend).mpr ⟨hdigits, hr⟩
  | neg hdigits hend =>
      rw [hasLeadingZero_punctuation (by decide)]
      exact (hasLeadingZero_digits hdigits.1 hdigits.2.1 hend).mpr ⟨hdigits, hr⟩

/-- Neither has a JSON value. -/
theorem hasLeadingZero_value {t r : Bytes} {v : Value} (h : ValueToken StringToken t v r)
    (hr : hasLeadingZero .outside r = false) : hasLeadingZero .outside t = false := by
  cases h with
  | str h => rwa [hasLeadingZero_stringToken h]
  | int h => exact hasLeadingZero_intToken h hr
  | literalTrue => exact hr
  | literalFalse => exact hr

/-- Nor a member. -/
theorem hasLeadingZero_member {t r : Bytes} {m : Bytes × Value} (h : Member StringToken t m r)
    (hr : hasLeadingZero .outside r = false) : hasLeadingZero .outside t = false := by
  cases h with
  | mk hws hname hcolon hws' hvalue =>
      rw [hasLeadingZero_ws hws, hasLeadingZero_stringToken hname,
        hasLeadingZero_mark hcolon (by decide), hasLeadingZero_ws hws']
      exact hasLeadingZero_value hvalue hr

/-- Nor a list of members. -/
theorem hasLeadingZero_members {t r : Bytes} {ms : List (Bytes × Value)}
    (h : Members StringToken t ms r) (hr : hasLeadingZero .outside r = false) :
    hasLeadingZero .outside t = false := by
  induction h with
  | one hmember => exact hasLeadingZero_member hmember hr
  | more hmember hcomma _ ih =>
      refine hasLeadingZero_member hmember ?_
      rw [hasLeadingZero_mark hcomma (by decide)]
      exact ih hr

/-- A JSON text ends with its brace and has no leading zero. -/
theorem tidy_of_isObject {s : Bytes} {ms : List (Bytes × Value)} (hutf8 : IsUtf8 s)
    (h : IsObject StringToken s ms) : Tidy s := by
  have hend : ∀ {r : Bytes}, Ws r [] → hasLeadingZero .outside r = false :=
    fun hws => hasLeadingZero_ws hws
  have hbrace : ∀ {t r : Bytes}, Ws t (ascii '\x7d' :: r) → Ws r [] →
      lastByte t = some (ascii '\x7d') := fun hclose hws =>
    lastByte_of_suffix hclose.suffix (lastByte_cons (by decide) (skipWs_of_ws hws))
  cases h with
  | empty hopen hclose hws =>
      refine ⟨hutf8, ?_, ?_⟩
      · exact lastByte_of_suffix ((List.suffix_cons _ _).trans hopen.suffix) (hbrace hclose hws)
      · rw [hasLeadingZero_mark hopen (by decide), hasLeadingZero_mark hclose (by decide)]
        exact hend hws
  | members hopen hmembers hclose hws =>
      refine ⟨hutf8, ?_, ?_⟩
      · have hsuffix := (hmembers.suffix tokenRule_stringToken).trans
          ((List.suffix_cons _ _).trans hopen.suffix)
        exact lastByte_of_suffix hsuffix (hbrace hclose hws)
      · rw [hasLeadingZero_mark hopen (by decide)]
        refine hasLeadingZero_members hmembers ?_
        rw [hasLeadingZero_mark hclose (by decide)]
        exact hend hws

/-! ## One member -/

/-- A field holds a value when it is marked as a string for strings only, and its raw text
denotes the value. -/
def FieldValue.Denotes (field : FieldValue) (v : Value) : Prop :=
  (field.isString = true ↔ ∃ text, v = .str text) ∧ ValueToken StringToken field.raw v []

/-- The field map holds the members, in their order. -/
def ParsedObject.Denotes (obj : ParsedObject) (members : List (Bytes × Value)) : Prop :=
  List.Forall₂ (fun field member => field.1 = member.1 ∧ field.2.Denotes member.2) obj members

theorem head?_dropWhile {α : Type} {p : α → Bool} {s : List α} :
    ∀ b ∈ (s.dropWhile p).head?, p b = false := by
  intro b hb
  induction s with
  | nil => simp at hb
  | cons c s ih =>
      rw [List.dropWhile_cons] at hb
      split at hb
      · exact ih hb
      · rename_i hc
        obtain rfl : c = b := by simpa using hb
        simpa using hc

/-- An integer the scan takes, without a leading zero, is an integer of the grammar. -/
theorem intToken_of_scan {s digits rest : Bytes} (hscan : scanDigits s = (digits, rest))
    (hne : digits ≠ []) (hzero : hasLeadingZero .outside s = false) :
    s = digits ++ rest ∧ IntToken s (digitsValue digits) rest ∧
      IntToken digits (digitsValue digits) [] ∧
      IntToken (ascii '-' :: s) (-digitsValue digits) rest ∧
      IntToken (ascii '-' :: digits) (-digitsValue digits) [] ∧
      hasLeadingZero .outside rest = false := by
  obtain ⟨rfl, rfl⟩ := Prod.mk.inj hscan
  have hs : s.takeWhile isDigit ++ s.dropWhile isDigit = s := List.takeWhile_append_dropWhile
  have hend : ∀ b ∈ (s.dropWhile isDigit).head?, isDigit b = false := head?_dropWhile
  have hdigits : ∀ d ∈ s.takeWhile isDigit, isDigit d := fun d hd => List.mem_takeWhile_imp hd
  rw [← hs, hasLeadingZero_digits hne hdigits hend] at hzero
  have hpos := IntToken.nonneg hzero.1 hend
  have hneg := IntToken.neg hzero.1 hend
  have hpos' := IntToken.nonneg (r := []) hzero.1 (by simp)
  have hneg' := IntToken.neg (r := []) hzero.1 (by simp)
  rw [hs] at hpos hneg
  rw [List.append_nil] at hpos' hneg'
  exact ⟨hs.symm, hpos, hpos', hneg, hneg', hzero.2⟩

/-- A value the parser takes, without a leading zero, is a value of the grammar. -/
theorem parseValue_denotes {key s rest : Bytes} {field : FieldValue}
    (h : parseValue key s = .ok (field, rest)) (hzero : hasLeadingZero .outside s = false) :
    ∃ v, ValueToken StringToken s v rest ∧ field.Denotes v ∧
      hasLeadingZero .outside rest = false := by
  unfold parseValue at h
  split at h
  · contradiction
  · rename_i c s
    split at h
    · split at h
      · contradiction
      · rename_i v rest' htoken
        obtain ⟨rfl, rfl⟩ : ⟨true, (c :: s).take ((c :: s).length - rest'.length)⟩ = field ∧
            rest' = rest := by simpa using h
        have hstring := stringToken_of_engineString htoken
        obtain ⟨token, -, hs, hagain⟩ := parseJsonStringToken_token htoken
        have hraw : (c :: s).take ((c :: s).length - rest'.length) = token := by
          rw [hs, List.length_append, Nat.add_sub_cancel, List.take_left']
          rfl
        have htoken' : EngineString token v [] := by
          have hnil := hagain []
          rwa [List.append_nil] at hnil
        refine ⟨.str v, .str hstring, ⟨by simp, ?_⟩, ?_⟩
        · rw [hraw]
          exact .str (stringToken_of_engineString htoken')
        · rwa [hasLeadingZero_stringToken hstring] at hzero
    · have hfield : ∀ raw n, IntToken raw n [] → FieldValue.Denotes ⟨false, raw⟩ (.int n) :=
        fun raw n hraw => ⟨by simp, .int hraw⟩
      by_cases hsign : c = ascii '-'
      · subst hsign
        rw [hasLeadingZero_punctuation (by decide)] at hzero
        simp only [if_true, List.length_singleton, List.drop_one, List.tail_cons] at h
        cases hscan : scanDigits s with
        | mk digits rest' =>
            rw [hscan] at h
            simp only at h
            split_ifs at h with hne
            obtain ⟨rfl, rfl⟩ : ⟨false, [ascii '-'] ++ digits⟩ = field ∧ rest' = rest := by
              simpa using h
            obtain ⟨-, -, -, hint, hraw, hrest⟩ := intToken_of_scan hscan hne hzero
            exact ⟨_, .int hint, hfield _ _ hraw, hrest⟩
      · simp only [hsign, if_false, List.length_nil, List.drop_zero] at h
        cases hscan : scanDigits (c :: s) with
        | mk digits rest' =>
            rw [hscan] at h
            simp only at h
            split_ifs at h with hne
            obtain ⟨rfl, rfl⟩ : ⟨false, [] ++ digits⟩ = field ∧ rest' = rest := by
              simpa using h
            obtain ⟨-, hint, hraw, -, -, hrest⟩ := intToken_of_scan hscan hne hzero
            exact ⟨_, .int hint, hfield _ _ hraw, hrest⟩

/-- A member the parser takes has a new name and, without a leading zero, is a member of the
grammar. -/
theorem parseMember_denotes {t s key rest : Bytes} {obj : ParsedObject} {field : FieldValue}
    (hws : Ws t s) (h : parseMember s obj = .ok (key, field, rest))
    (hzero : hasLeadingZero .outside s = false) :
    key ∉ obj.map Prod.fst ∧ ∃ v, Member StringToken t (key, v) rest ∧ field.Denotes v ∧
      hasLeadingZero .outside rest = false := by
  unfold parseMember at h
  split at h
  · contradiction
  · rename_i key' afterKey hkey
    split at h
    · contradiction
    · rename_i hnew
      split at h
      · contradiction
      · rename_i c afterColon hcolon
        split at h
        · contradiction
        · rename_i hc
          rw [ne_eq, not_not] at hc
          subst hc
          obtain ⟨⟨field', rest'⟩, hvalue, h⟩ := bind_eq_ok_iff.mp h
          obtain ⟨rfl, rfl, rfl⟩ : key' = key ∧ field' = field ∧ rest' = rest := by
            simpa using h
          have hname := stringToken_of_engineString hkey
          have hmark : Ws afterKey (ascii ':' :: afterColon) := hcolon ▸ ws_skipWs afterKey
          rw [hasLeadingZero_stringToken hname, hasLeadingZero_mark hmark (by decide),
            hasLeadingZero_ws (ws_skipWs afterColon)] at hzero
          obtain ⟨v, htoken, hdenotes, hrest⟩ := parseValue_denotes hvalue hzero
          refine ⟨?_, v, .mk hws hname hmark (ws_skipWs afterColon) htoken, hdenotes, hrest⟩
          intro hmem
          obtain ⟨⟨name, value⟩, hfield, rfl⟩ := List.mem_map.mp hmem
          refine hnew ?_
          rw [ParsedObject.get?, List.lookup_isSome_iff]
          exact ⟨(name, value), hfield, by simp⟩

/-! ## The member loop and the object -/

/-- A new name leaves the names different. -/
theorem nodup_names_concat {obj : ParsedObject} {key : Bytes} {field : FieldValue}
    (hnodup : (obj.map Prod.fst).Nodup) (hnew : key ∉ obj.map Prod.fst) :
    ((obj ++ [(key, field)]).map Prod.fst).Nodup := by
  rw [List.map_append, List.map_singleton]
  refine List.nodup_append.mpr ⟨hnodup, List.nodup_singleton key, ?_⟩
  rintro name hname b hb rfl
  rw [List.mem_singleton.mp hb] at hname
  exact hnew hname

/-- The member loop ends behind the closing brace of the members it has read, or at the end
of the input behind a comma. -/
theorem parseMembers_cases {t s rest : Bytes} {obj obj' : ParsedObject} (hws : Ws t s)
    (hs : s ≠ []) (h : parseMembers s obj = .ok (obj', rest))
    (hzero : hasLeadingZero .outside s = false) (hnodup : (obj.map Prod.fst).Nodup) :
    (rest = [] ∧ lastByte s = some (ascii ',')) ∨
      ((obj'.map Prod.fst).Nodup ∧ ∃ (fields : ParsedObject) (ms : List (Bytes × Value))
        (t' : Bytes), obj' = obj ++ fields ∧ fields.Denotes ms ∧ Members StringToken t ms t' ∧
          Ws t' (ascii '\x7d' :: rest)) := by
  induction hlength : s.length using Nat.strong_induction_on generalizing t s obj with
  | _ n ih =>
      cases hmember : parseMember s obj with
      | error e =>
          rw [parseMembers_of_error hs hmember] at h
          contradiction
      | ok r =>
          obtain ⟨key, field, rest₁⟩ := r
          rw [parseMembers_of_member hs hmember] at h
          obtain ⟨hnew, v, htoken, hdenotes, hzero₁⟩ := parseMember_denotes hws hmember hzero
          have hnodup' := @nodup_names_concat obj key field hnodup hnew
          have hsuffix : rest₁ <:+ s := by
            obtain ⟨-, _, hmember', -, -⟩ := parseMember_denotes .nil hmember hzero
            exact hmember'.suffix tokenRule_stringToken
          split at h
          · contradiction
          · rename_i c s' hrest
            have hmark : Ws rest₁ (c :: s') := hrest ▸ ws_skipWs rest₁
            split at h
            · rename_i hcomma
              subst hcomma
              rw [hasLeadingZero_mark hmark (by decide),
                hasLeadingZero_ws (ws_skipWs s')] at hzero₁
              by_cases hend : skipWs s' = []
              · -- the input ends behind the comma, and so does the loop
                rw [hend, parseMembers, if_pos rfl] at h
                obtain ⟨-, rfl⟩ : obj ++ [(key, field)] = obj' ∧ [] = rest := by simpa using h
                refine Or.inl ⟨rfl, lastByte_of_suffix ?_ (lastByte_cons (by decide) hend)⟩
                exact hmark.suffix.trans hsuffix
              · have hlt : (skipWs s').length < n := by
                  have hmember' := parseMember_length_lt hmember
                  have hws' := skipWs_length_le s'
                  have hws₁ := skipWs_length_le rest₁
                  rw [hrest, List.length_cons] at hws₁
                  omega
                rcases ih _ hlt (ws_skipWs s') hend h hzero₁ hnodup' rfl with
                  ⟨rfl, hlast⟩ | ⟨hnames, fields, ms, t', rfl, hfields, hmembers, hclose⟩
                · refine Or.inl ⟨rfl, lastByte_of_suffix ?_ hlast⟩
                  exact ((ws_skipWs s').suffix.trans (List.suffix_cons _ _)).trans
                    (hmark.suffix.trans hsuffix)
                · exact Or.inr ⟨hnames, (key, field) :: fields, (key, v) :: ms, t', by simp,
                    .cons ⟨rfl, hdenotes⟩ hfields, .more htoken hmark hmembers, hclose⟩
            · split at h
              · rename_i hbrace
                subst hbrace
                obtain ⟨rfl, rfl⟩ : obj ++ [(key, field)] = obj' ∧ s' = rest := by simpa using h
                exact Or.inr ⟨hnodup', [(key, field)], [(key, v)], rest₁, rfl,
                  .cons ⟨rfl, hdenotes⟩ .nil, .one htoken, hmark⟩
              · contradiction

/-- The field map is the map that a JSON text denotes: the text is an object's, none of its
names repeats, it denotes no other members, and the map holds these. -/
def ParsedObject.IsMapOf (obj : ParsedObject) (s : Bytes) : Prop :=
  IsUtf8 s ∧ ∃ members, IsObject StringToken s members ∧ (members.map Prod.fst).Nodup ∧
    obj.Denotes members ∧ ∀ members', IsObject StringToken s members' → members' = members

/-- The fields have the names of the members they stand for. -/
theorem ParsedObject.Denotes.names {obj : ParsedObject} {members : List (Bytes × Value)}
    (h : obj.Denotes members) : obj.map Prod.fst = members.map Prod.fst := by
  induction h with
  | nil => rfl
  | cons hfield _ ih => rw [List.map_cons, List.map_cons, hfield.1, ih]

/-- Behind the object nothing but whitespace may follow. -/
theorem object_end {obj obj' : ParsedObject} {s : Bytes}
    (h : (if skipWs s = [] then .ok obj'
      else .error (utf8 "trailing bytes after JSON object") : Except Bytes ParsedObject) = .ok obj) :
    obj' = obj ∧ Ws s [] := by
  split at h
  · rename_i hend
    exact ⟨Except.ok.inj h, hend ▸ ws_skipWs s⟩
  · contradiction

/-- A tidy payload that the parser accepts is a JSON text. -/
theorem isMapOf_of_tidy {s : Bytes} {obj : ParsedObject} (h : parseObject s = .ok obj)
    (htidy : Tidy s) : obj.IsMapOf s := by
  obtain ⟨hutf8, hclosed, hzero⟩ := htidy
  suffices hobject : ∃ members, IsObject StringToken s members ∧ (obj.map Prod.fst).Nodup ∧
      obj.Denotes members by
    obtain ⟨members, hobject, hnodup, hdenotes⟩ := hobject
    exact ⟨hutf8, members, hobject, hdenotes.names ▸ hnodup, hdenotes,
      fun _ h' => h'.unique tokenRule_stringToken hobject⟩
  unfold parseObject at h
  split at h
  · contradiction
  · rename_i c s₁ hopen
    split at h
    · contradiction
    · rename_i hc
      rw [ne_eq, not_not] at hc
      subst hc
      have hmark : Ws s (ascii '\x7b' :: s₁) := hopen ▸ ws_skipWs s
      rw [hasLeadingZero_mark hmark (by decide), hasLeadingZero_ws (ws_skipWs s₁)] at hzero
      dsimp only at h
      split at h
      · rename_i hnil
        -- nothing but whitespace behind the opening brace
        have hlast := lastByte_of_suffix hmark.suffix (lastByte_cons (by decide) hnil)
        exact absurd (hlast.symm.trans hclosed) (by decide)
      · rename_i c s₂ hfirst
        have hws₁ : Ws s₁ (c :: s₂) := hfirst ▸ ws_skipWs s₁
        rw [hfirst] at hzero
        split at h
        · rename_i hbrace
          subst hbrace
          obtain ⟨rfl, hws₂⟩ := object_end h
          exact ⟨[], .empty hmark hws₁ hws₂, List.nodup_nil, .nil⟩
        · obtain ⟨⟨obj', s₃⟩, hbody, h⟩ := bind_eq_ok_iff.mp h
          obtain ⟨rfl, hws₃⟩ := object_end h
          rcases parseMembers_cases hws₁ (List.cons_ne_nil _ _) hbody hzero List.nodup_nil with
            ⟨rfl, hlast⟩ | ⟨hnodup, fields, ms, t', rfl, hdenotes, hmembers, hclose⟩
          · have hlast' := lastByte_of_suffix
              (hws₁.suffix.trans ((List.suffix_cons _ _).trans hmark.suffix)) hlast
            exact absurd (hlast'.symm.trans hclosed) (by decide)
          · exact ⟨ms, .members hmark hmembers hclose hws₃, hnodup, hdenotes⟩

/-- An accepted payload is a JSON text, with the field map for its members, exactly when it
is tidy. -/
theorem parseObject_json_iff {s : Bytes} {obj : ParsedObject} (h : parseObject s = .ok obj) :
    obj.IsMapOf s ↔ Tidy s := by
  constructor
  · rintro ⟨hutf8, members, hobject, -⟩
    exact tidy_of_isObject hutf8 hobject
  · exact isMapOf_of_tidy h

/-- The field that the samples have. -/
def sampleField : ParsedObject :=
  [(utf8 "a", ⟨false, utf8 "1"⟩)]

/-- One member is read, whatever follows it. -/
theorem parseMember_sample (s : Bytes) (hs : s.head? = some (ascii ',') ∨
    s.head? = some (ascii '\x7d')) :
    parseMember (utf8 "\"a\":1" ++ s) [] = .ok (utf8 "a", ⟨false, utf8 "1"⟩, s) := by
  cases s with
  | nil => simp at hs
  | cons c s =>
      have hc : c = ascii ',' ∨ c = ascii '\x7d' := by simpa using hs
      rcases hc with rfl | rfl <;> rfl

/-- An object that is closed. -/
theorem parseObject_closed_sample :
    parseObject (utf8 "\x7b\"a\":1\x7d") = .ok sampleField := by
  have hmember := parseMembers_of_member (by decide)
    (parseMember_sample (utf8 "\x7d") (Or.inr rfl))
  show (do
    let (obj, s) ← parseMembers (utf8 "\"a\":1" ++ utf8 "\x7d") []
    if skipWs s = [] then .ok obj else .error (utf8 "trailing bytes after JSON object")) = _
  rw [hmember]
  rfl

/-- The same object cut behind the comma, and accepted. -/
theorem parseObject_cut_sample : parseObject (utf8 "\x7b\"a\":1,") = .ok sampleField := by
  have hmember := parseMembers_of_member (by decide)
    (parseMember_sample (utf8 ",") (Or.inl rfl))
  show (do
    let (obj, s) ← parseMembers (utf8 "\"a\":1" ++ utf8 ",") []
    if skipWs s = [] then .ok obj else .error (utf8 "trailing bytes after JSON object")) = _
  rw [hmember]
  show (do
    let (obj, s) ← parseMembers [] sampleField
    if skipWs s = [] then .ok obj else .error (utf8 "trailing bytes after JSON object")) = _
  rw [parseMembers, if_pos rfl]
  rfl

/-- The payload `{"a":1}` is read as what it denotes. -/
theorem parseObject_json_iff_sample :
    sampleField.IsMapOf (utf8 "\x7b\"a\":1\x7d") ↔ Tidy (utf8 "\x7b\"a\":1\x7d") :=
  parseObject_json_iff parseObject_closed_sample

/-- The payload `{"a":1,` is accepted and is no JSON text. -/
theorem cut_object_accepted :
    parseObject (utf8 "\x7b\"a\":1,") = .ok sampleField ∧
      ¬ sampleField.IsMapOf (utf8 "\x7b\"a\":1,") := by
  refine ⟨parseObject_cut_sample, ?_⟩
  rintro ⟨hutf8, members, hobject, -⟩
  exact absurd (tidy_of_isObject hutf8 hobject).closed (by decide)

end RiskEngine
end BettingPlatform
