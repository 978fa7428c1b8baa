import BettingPlatform.Foundations.Bytes
import Mathlib.Data.List.Nodup

/-!
# The grammar of JSON object texts

RFC 8259 on bytes, for objects whose values are strings, integers and booleans.  A
nonterminal relates the text at its start, the value it denotes and the text behind it.

The rules for objects take the rule for string tokens as a parameter: besides the grammar's
own there are readers that know fewer escapes.

Main results:

- Theorem `Chars.unique`: a string token denotes one value and has one end.
- Theorem `IsObject.unique`: an object text denotes one list of members.
- Theorem `IsObject.mono`: what fewer string tokens derive, more do.
-/

namespace BettingPlatform
namespace JsonGrammar

/-- The values of members. -/
inductive Value
  | str (value : Bytes)
  | int (value : Int)
  | bool (value : Bool)
deriving DecidableEq, Repr

/-! ## Whitespace -/

def isSpace (b : UInt8) : Bool :=
  b = ascii ' ' || b = ascii '\t' || b = ascii '\n' || b = ascii '\r'

/-- `ws`: insignificant whitespace in front of the second text. -/
inductive Ws : Bytes → Bytes → Prop
  | nil {r : Bytes} : Ws r r
  | cons {c : UInt8} {t r : Bytes} : isSpace c → Ws t r → Ws (c :: t) r

/-- Whitespace leaves a rest of the text. -/
theorem Ws.suffix {t r : Bytes} (h : Ws t r) : r <:+ t := by
  induction h with
  | nil => exact List.suffix_rfl
  | cons _ _ ih => exact ih.trans (List.suffix_cons _ _)

/-- Whitespace in front of a byte that is none ends there. -/
theorem Ws.unique {t r r' : Bytes} {c c' : UInt8} (hc : isSpace c = false)
    (hc' : isSpace c' = false) (h : Ws t (c :: r)) (h' : Ws t (c' :: r')) :
    c :: r = c' :: r' := by
  generalize hs : c :: r = s at h
  induction h with
  | nil =>
      subst hs
      cases h' with
      | nil => rfl
      | cons hspace _ => simp [hc] at hspace
  | cons hspace _ ih =>
      cases h' with
      | nil => simp [hc'] at hspace
      | cons _ h' => exact ih h' hs

/-! ## Strings -/

/-- The two-character escapes and the bytes they stand for. -/
def escapes : List (UInt8 × UInt8) :=
  [(ascii '"', ascii '"'), (ascii '\\', ascii '\\'), (ascii '/', ascii '/'), (ascii 'b', 0x08),
    (ascii 'f', 0x0C), (ascii 'n', ascii '\n'), (ascii 'r', ascii '\r'), (ascii 't', ascii '\t')]

/-- `HEXDIG`. -/
def hexDigit (b : UInt8) : Option Nat :=
  if isDigit b then some (b.toNat - 48)
  else if ascii 'a' ≤ b ∧ b ≤ ascii 'f' then some (b.toNat - 87)
  else if ascii 'A' ≤ b ∧ b ≤ ascii 'F' then some (b.toNat - 55)
  else none

/-- `4HEXDIG` at the start of a text. -/
def codeUnit : Bytes → Option (Nat × Bytes)
  | d₁ :: d₂ :: d₃ :: d₄ :: r => do
      let n₁ ← hexDigit d₁
      let n₂ ← hexDigit d₂
      let n₃ ← hexDigit d₃
      let n₄ ← hexDigit d₄
      some (n₁ * 16 ^ 3 + n₂ * 16 ^ 2 + n₃ * 16 + n₄, r)
  | _ => none

/-- The code units that stand for no character alone. -/
def IsSurrogate (n : Nat) : Prop :=
  0xD800 ≤ n ∧ n ≤ 0xDFFF

/-- The UTF-8 bytes of a code point. -/
def codePoint (n : Nat) : Bytes :=
  String.utf8EncodeChar (Char.ofNat n)

/-- `*char quotation-mark`: what follows the opening quotation mark of a string. -/
inductive Chars : Bytes → Bytes → Bytes → Prop
  | close {r : Bytes} : Chars (ascii '"' :: r) [] r
  | unescaped {c : UInt8} {t v r : Bytes} : c ≠ ascii '"' → c ≠ ascii '\\' → 0x20 ≤ c →
      Chars t v r → Chars (c :: t) (c :: v) r
  | escape {e b : UInt8} {t v r : Bytes} : (e, b) ∈ escapes → Chars t v r →
      Chars (ascii '\\' :: e :: t) (b :: v) r
  | unit {n : Nat} {t t' v r : Bytes} : codeUnit t = some (n, t') → ¬ IsSurrogate n →
      Chars t' v r → Chars (ascii '\\' :: ascii 'u' :: t) (codePoint n ++ v) r
  | pair {high low : Nat} {t t' t'' v r : Bytes} :
      codeUnit t = some (high, ascii '\\' :: ascii 'u' :: t') → codeUnit t' = some (low, t'') →
      0xD800 ≤ high ∧ high < 0xDC00 → 0xDC00 ≤ low ∧ low ≤ 0xDFFF → Chars t'' v r →
      Chars (ascii '\\' :: ascii 'u' :: t)
        (codePoint (0x10000 + (high - 0xD800) * 0x400 + (low - 0xDC00)) ++ v) r

/-- `string`. -/
def StringToken (t v r : Bytes) : Prop :=
  ∃ t', t = ascii '"' :: t' ∧ Chars t' v r

/-- So does a code unit. -/
theorem codeUnit_suffix {t t' : Bytes} {n : Nat} (h : codeUnit t = some (n, t')) : t' <:+ t := by
  unfold codeUnit at h
  split at h
  · rename_i d₁ d₂ d₃ d₄ r
    simp only [Option.bind_eq_bind, Option.bind_eq_some_iff] at h
    obtain ⟨_, _, _, _, _, _, _, _, h⟩ := h
    obtain ⟨-, rfl⟩ := Prod.mk.inj (Option.some.inj h)
    exact ⟨[d₁, d₂, d₃, d₄], rfl⟩
  · contradiction

/-- So does a string body. -/
theorem Chars.suffix {t v r : Bytes} (h : Chars t v r) : r <:+ t := by
  induction h with
  | close => exact List.suffix_cons _ _
  | unescaped _ _ _ _ ih => exact ih.trans (List.suffix_cons _ _)
  | escape _ _ ih => exact ih.trans ((List.suffix_cons _ _).trans (List.suffix_cons _ _))
  | unit hunit _ _ ih =>
      exact (ih.trans (codeUnit_suffix hunit)).trans
        ((List.suffix_cons _ _).trans (List.suffix_cons _ _))
  | pair hhigh hlow _ _ _ ih =>
      have hfirst := codeUnit_suffix hhigh
      exact (((ih.trans (codeUnit_suffix hlow)).trans
        ((List.suffix_cons _ _).trans (List.suffix_cons _ _))).trans hfirst).trans
        ((List.suffix_cons _ _).trans (List.suffix_cons _ _))

/-- An escape stands for one byte. -/
theorem escapes_unique {e b b' : UInt8} (h : (e, b) ∈ escapes) (h' : (e, b') ∈ escapes) :
    b = b' := by
  have hnodup : (escapes.map Prod.fst).Nodup := by decide
  exact (Prod.mk.inj (List.inj_on_of_nodup_map hnodup h h' rfl)).2

theorem not_mem_escapes (b : UInt8) : (ascii 'u', b) ∉ escapes := by
  intro h
  have hmem : ascii 'u' ∈ escapes.map Prod.fst := List.mem_map_of_mem (f := Prod.fst) h
  revert hmem
  decide

/-- A string token denotes one value and has one end. -/
theorem Chars.unique {t v v' r r' : Bytes} (h : Chars t v r) (h' : Chars t v' r') :
    v = v' ∧ r = r' := by
  induction h generalizing v' r' with
  | close =>
      cases h' with
      | close => exact ⟨rfl, rfl⟩
      | unescaped hquote => exact absurd rfl hquote
  | unescaped hquote hbackslash _ _ ih =>
      cases h' with
      | close => exact absurd rfl hquote
      | unescaped _ _ _ h' =>
          obtain ⟨rfl, rfl⟩ := ih h'
          exact ⟨rfl, rfl⟩
      | escape => exact absurd rfl hbackslash
      | unit => exact absurd rfl hbackslash
      | pair => exact absurd rfl hbackslash
  | escape hescape _ ih =>
      cases h' with
      | unescaped _ hbackslash => exact absurd rfl hbackslash
      | escape hescape' h' =>
          obtain ⟨rfl, rfl⟩ := ih h'
          exact ⟨by rw [escapes_unique hescape hescape'], rfl⟩
      | unit => exact absurd hescape (not_mem_escapes _)
      | pair => exact absurd hescape (not_mem_escapes _)
  | unit hunit hsurrogate _ ih =>
      cases h' with
      | unescaped _ hbackslash => exact absurd rfl hbackslash
      | escape hescape => exact absurd hescape (not_mem_escapes _)
      | unit hunit' _ h' =>
          obtain ⟨rfl, rfl⟩ := Prod.mk.inj (Option.some.inj (hunit.symm.trans hunit'))
          obtain ⟨rfl, rfl⟩ := ih h'
          exact ⟨rfl, rfl⟩
      | pair hhigh _ hrange =>
          obtain ⟨rfl, -⟩ := Prod.mk.inj (Option.some.inj (hunit.symm.trans hhigh))
          exact absurd ⟨hrange.1, by omega⟩ hsurrogate
  | pair hhigh hlow hrange _ _ ih =>
      cases h' with
      | unescaped _ hbackslash => exact absurd rfl hbackslash
      | escape hescape => exact absurd hescape (not_mem_escapes _)
      | unit hunit hsurrogate =>
          obtain ⟨rfl, -⟩ := Prod.mk.inj (Option.some.inj (hunit.symm.trans hhigh))
          exact absurd ⟨hrange.1, by omega⟩ hsurrogate
      | pair hhigh' hlow' _ _ h' =>
          obtain ⟨rfl, hrest⟩ := Prod.mk.inj (Option.some.inj (hhigh.symm.trans hhigh'))
          obtain rfl := (List.cons.inj (List.cons.inj hrest).2).2
          obtain ⟨rfl, rfl⟩ := Prod.mk.inj (Option.some.inj (hlow.symm.trans hlow'))
          obtain ⟨rfl, rfl⟩ := ih h'
          exact ⟨rfl, rfl⟩

/-! ## Integers -/

/-- `int`: digits of which the first is no zero, or one zero. -/
def IsNumeral (digits : Bytes) : Prop :=
  digits ≠ [] ∧ (∀ d ∈ digits, isDigit d) ∧ (digits.head? = some (ascii '0') → digits.length = 1)

/-- A number without fraction and exponent, in front of a byte that does not go on with it. -/
inductive IntToken : Bytes → Int → Bytes → Prop
  | nonneg {digits r : Bytes} : IsNumeral digits → (∀ b ∈ r.head?, isDigit b = false) →
      IntToken (digits ++ r) (digitsValue digits) r
  | neg {digits r : Bytes} : IsNumeral digits → (∀ b ∈ r.head?, isDigit b = false) →
      IntToken (ascii '-' :: (digits ++ r)) (-digitsValue digits) r

/-- Digits in front of a byte that is none end there. -/
theorem digits_unique {xs ys r r' : Bytes} (hxs : ∀ d ∈ xs, isDigit d)
    (hys : ∀ d ∈ ys, isDigit d) (hr : ∀ b ∈ r.head?, isDigit b = false)
    (hr' : ∀ b ∈ r'.head?, isDigit b = false) (h : xs ++ r = ys ++ r') : xs = ys ∧ r = r' := by
  induction xs generalizing ys with
  | nil =>
      cases ys with
      | nil => exact ⟨rfl, h⟩
      | cons y ys =>
          have hdigit := hys y List.mem_cons_self
          rw [List.nil_append] at h
          rw [hr y (by simp [h])] at hdigit
          exact absurd hdigit Bool.false_ne_true
  | cons x xs ih =>
      cases ys with
      | nil =>
          have hdigit := hxs x List.mem_cons_self
          rw [List.nil_append] at h
          rw [hr' x (by simp [← h])] at hdigit
          exact absurd hdigit Bool.false_ne_true
      | cons y ys =>
          obtain ⟨rfl, hrest⟩ := List.cons.inj h
          obtain ⟨rfl, rfl⟩ := ih (fun d hd => hxs d (List.mem_cons_of_mem _ hd))
            (fun d hd => hys d (List.mem_cons_of_mem _ hd)) hrest
          exact ⟨rfl, rfl⟩

/-- A numeral does not begin with a sign. -/
theorem IsNumeral.ne_minus {digits r t : Bytes} (h : IsNumeral digits) :
    digits ++ r ≠ ascii '-' :: t := by
  obtain ⟨hne, hdigits, -⟩ := h
  cases digits with
  | nil => exact absurd rfl hne
  | cons d digits =>
      intro heq
      have hdigit := hdigits d List.mem_cons_self
      rw [(List.cons.inj heq).1] at hdigit
      revert hdigit
      decide

/-- An integer token has one value and one end. -/
theorem IntToken.unique {t r r' : Bytes} {n n' : Int} (h : IntToken t n r)
    (h' : IntToken t n' r') : n = n' ∧ r = r' := by
  cases h with
  | nonneg hdigits hr =>
      generalize ht : _ ++ r = t at h'
      cases h' with
      | nonneg hdigits' hr' =>
          obtain ⟨rfl, rfl⟩ := digits_unique hdigits.2.1 hdigits'.2.1 hr hr' ht
          exact ⟨rfl, rfl⟩
      | neg => exact absurd ht hdigits.ne_minus
  | neg hdigits hr =>
      generalize ht : ascii '-' :: (_ ++ r) = t at h'
      cases h' with
      | nonneg hdigits' => exact absurd ht.symm hdigits'.ne_minus
      | neg hdigits' hr' =>
          obtain ⟨rfl, rfl⟩ :=
            digits_unique hdigits.2.1 hdigits'.2.1 hr hr' (List.cons.inj ht).2
          exact ⟨rfl, rfl⟩

/-- It leaves a rest of the text. -/
theorem IntToken.suffix {t r : Bytes} {n : Int} (h : IntToken t n r) : r <:+ t := by
  cases h with
  | nonneg => exact List.suffix_append _ _
  | neg => exact (List.suffix_append _ _).trans (List.suffix_cons _ _)

/-- The digits of a number have no leading zero. -/
theorem isNumeral_natDigits (n : Nat) : IsNumeral (natDigits n) := by
  refine ⟨natDigits_ne_nil n, fun d hd => isDigit_of_mem_natDigits hd, fun hzero => ?_⟩
  obtain ⟨c, cs, hdigits⟩ := List.exists_cons_of_ne_nil (Nat.toDigits_ne_nil (b := 10) (n := n))
  have hdigit : c.isDigit := Nat.isDigit_of_mem_toDigits (b := 10) (n := n) (by decide)
    (by decide) (by simp [hdigits])
  rw [natDigits, hdigits, List.map_cons, List.head?_cons, Option.some.injEq] at hzero
  have hcode := congrArg UInt8.toNat hzero
  rw [toNat_ascii (toNat_lt_of_isDigit hdigit), toNat_ascii (by decide)] at hcode
  obtain rfl : c = '0' := Char.toNat_inj.mp hcode
  rw [natDigits, hdigits, toDigits_zero_head hdigits]
  rfl

/-- A printed integer is one of the grammar. -/
theorem intToken_intDigits (n : Int) {r : Bytes} (hr : ∀ b ∈ r.head?, isDigit b = false) :
    IntToken (intDigits n ++ r) n r := by
  cases n with
  | ofNat m =>
      have htoken := IntToken.nonneg (isNumeral_natDigits m) hr
      rwa [digitsValue_natDigits] at htoken
  | negSucc m =>
      have htoken := IntToken.neg (isNumeral_natDigits (m + 1)) hr
      rwa [digitsValue_natDigits] at htoken

/-- The first byte of an integer. -/
theorem IntToken.head {t r : Bytes} {n : Int} (h : IntToken t n r) :
    ∃ c s, t = c :: s ∧ (c = ascii '-' ∨ isDigit c) := by
  cases h with
  | @nonneg digits r hdigits =>
      obtain ⟨hne, hall, -⟩ := hdigits
      cases digits with
      | nil => exact absurd rfl hne
      | cons d digits => exact ⟨d, digits ++ r, rfl, Or.inr (hall d List.mem_cons_self)⟩
  | neg => exact ⟨_, _, rfl, Or.inl rfl⟩

/-! ## Objects -/

section Objects

variable (S : Bytes → Bytes → Bytes → Prop)

/-- `value`. -/
inductive ValueToken : Bytes → Value → Bytes → Prop
  | str {t v r : Bytes} : S t v r → ValueToken t (.str v) r
  | int {t r : Bytes} {n : Int} : IntToken t n r → ValueToken t (.int n) r
  | literalTrue {r : Bytes} : ValueToken (utf8 "true" ++ r) (.bool true) r
  | literalFalse {r : Bytes} : ValueToken (utf8 "false" ++ r) (.bool false) r

/-- `member`, with the whitespace in front of its tokens. -/
inductive Member : Bytes → Bytes × Value → Bytes → Prop
  | mk {t t₁ t₂ t₃ t₄ r name : Bytes} {v : Value} : Ws t t₁ → S t₁ name t₂ →
      Ws t₂ (ascii ':' :: t₃) → Ws t₃ t₄ → ValueToken S t₄ v r → Member t (name, v) r

/-- `member *( value-separator member )`. -/
inductive Members : Bytes → List (Bytes × Value) → Bytes → Prop
  | one {t r : Bytes} {m : Bytes × Value} : Member S t m r → Members t [m] r
  | more {t t₁ t₂ r : Bytes} {m : Bytes × Value} {ms : List (Bytes × Value)} :
      Member S t m t₁ → Ws t₁ (ascii ',' :: t₂) → Members t₂ ms r → Members t (m :: ms) r

/-- `JSON-text` of an object. -/
inductive IsObject : Bytes → List (Bytes × Value) → Prop
  | empty {t t₁ t₂ : Bytes} : Ws t (ascii '\x7b' :: t₁) → Ws t₁ (ascii '\x7d' :: t₂) →
      Ws t₂ [] → IsObject t []
  | members {t t₁ t₂ t₃ : Bytes} {ms : List (Bytes × Value)} : Ws t (ascii '\x7b' :: t₁) →
      Members S t₁ ms t₂ → Ws t₂ (ascii '\x7d' :: t₃) → Ws t₃ [] → IsObject t ms

/-- A rule for string tokens: they are quoted, end somewhere in the text, and denote one
value. -/
structure TokenRule : Prop where
  quoted : ∀ {t v r}, S t v r → ∃ t', t = ascii '"' :: t'
  suffix : ∀ {t v r}, S t v r → r <:+ t
  unique : ∀ {t v v' r r'}, S t v r → S t v' r' → v = v' ∧ r = r'

end Objects

/-- JSON's own string tokens are tokens. -/
theorem tokenRule_stringToken : TokenRule StringToken where
  quoted := fun ⟨t', ht, _⟩ => ⟨t', ht⟩
  suffix := by
    rintro t v r ⟨t', rfl, h⟩
    exact h.suffix.trans (List.suffix_cons _ _)
  unique := by
    rintro t v v' r r' ⟨t', rfl, h⟩ ⟨t'', ht, h'⟩
    obtain rfl := (List.cons.inj ht).2
    exact h.unique h'

/-! ## One reading -/

section Unique

variable {S : Bytes → Bytes → Bytes → Prop}

/-- The first byte of a value is no whitespace. -/
theorem ValueToken.head (hS : TokenRule S) {t r : Bytes} {v : Value} (h : ValueToken S t v r) :
    ∃ c s, t = c :: s ∧ isSpace c = false := by
  cases h with
  | str h =>
      obtain ⟨t', rfl⟩ := hS.quoted h
      exact ⟨_, _, rfl, by decide⟩
  | int h =>
      obtain ⟨c, s, rfl, hc⟩ := h.head
      refine ⟨c, s, rfl, ?_⟩
      rcases hc with rfl | hc
      · decide
      · revert hc
        have hall : ∀ n : Fin 256, isDigit (UInt8.ofNat n) → isSpace (UInt8.ofNat n) = false := by
          decide +kernel
        simpa using hall ⟨c.toNat, c.toNat_lt⟩
  | literalTrue => exact ⟨ascii 't', _, rfl, by decide⟩
  | literalFalse => exact ⟨ascii 'f', _, rfl, by decide⟩

/-- A value leaves a rest of the text. -/
theorem ValueToken.suffix (hS : TokenRule S) {t r : Bytes} {v : Value}
    (h : ValueToken S t v r) : r <:+ t := by
  cases h with
  | str h => exact hS.suffix h
  | int h => exact h.suffix
  | literalTrue => exact List.suffix_append _ _
  | literalFalse => exact List.suffix_append _ _

theorem valueToken_str_iff {t v r : Bytes} : ValueToken S t (.str v) r ↔ S t v r := by
  constructor
  · intro h
    generalize hv : Value.str v = w at h
    cases h with
    | str h =>
        obtain rfl := Value.str.inj hv
        exact h
    | int => cases hv
    | literalTrue => cases hv
    | literalFalse => cases hv
  · exact .str

theorem valueToken_int_iff {t r : Bytes} {n : Int} : ValueToken S t
    (.int n) r ↔ IntToken t n r := by
  constructor
  · intro h
    generalize hv : Value.int n = w at h
    cases h with
    | str => cases hv
    | int h =>
        obtain rfl := Value.int.inj hv
        exact h
    | literalTrue => cases hv
    | literalFalse => cases hv
  · exact .int

/-- An integer begins neither like a string nor like a literal. -/
theorem IntToken.head_ne {t s r : Bytes} {n : Int} {c : UInt8} (h : IntToken t n r)
    (hc : c ≠ ascii '-' ∧ isDigit c = false) : t ≠ c :: s := by
  obtain ⟨c', s', rfl, hc'⟩ := h.head
  intro heq
  obtain ⟨rfl, -⟩ := List.cons.inj heq
  rcases hc' with rfl | hdigit
  · exact hc.1 rfl
  · simp [hc.2] at hdigit

/-- A value token has one value and one end. -/
theorem ValueToken.unique (hS : TokenRule S) {t r r' : Bytes} {v v' : Value}
    (h : ValueToken S t v r) (h' : ValueToken S t v' r') : v = v' ∧ r = r' := by
  cases h with
  | str h =>
      obtain ⟨t', ht⟩ := hS.quoted h
      cases h' with
      | str h' =>
          obtain ⟨rfl, rfl⟩ := hS.unique h h'
          exact ⟨rfl, rfl⟩
      | int h' => exact absurd ht (h'.head_ne (by decide))
      | literalTrue => exact absurd (List.cons.inj ht).1 (by decide)
      | literalFalse => exact absurd (List.cons.inj ht).1 (by decide)
  | int h =>
      cases h' with
      | str h' =>
          obtain ⟨t', ht⟩ := hS.quoted h'
          exact absurd ht (h.head_ne (by decide))
      | int h' =>
          obtain ⟨rfl, rfl⟩ := h.unique h'
          exact ⟨rfl, rfl⟩
      | literalTrue => exact absurd rfl (h.head_ne (c := ascii 't') (by decide))
      | literalFalse => exact absurd rfl (h.head_ne (c := ascii 'f') (by decide))
  | literalTrue =>
      generalize ht : utf8 "true" ++ r = t at h'
      cases h' with
      | str h' =>
          obtain ⟨t', rfl⟩ := hS.quoted h'
          exact absurd (List.cons.inj ht).1 (by decide)
      | int h' => exact absurd ht.symm (h'.head_ne (by decide))
      | literalTrue => exact ⟨rfl, List.append_cancel_left ht⟩
      | literalFalse => exact absurd (List.cons.inj ht).1 (by decide)
  | literalFalse =>
      generalize ht : utf8 "false" ++ r = t at h'
      cases h' with
      | str h' =>
          obtain ⟨t', rfl⟩ := hS.quoted h'
          exact absurd (List.cons.inj ht).1 (by decide)
      | int h' => exact absurd ht.symm (h'.head_ne (by decide))
      | literalTrue => exact absurd (List.cons.inj ht).1 (by decide)
      | literalFalse => exact ⟨rfl, List.append_cancel_left ht⟩

/-- A member leaves a rest of the text. -/
theorem Member.suffix (hS : TokenRule S) {t r : Bytes} {m : Bytes × Value}
    (h : Member S t m r) : r <:+ t := by
  cases h with
  | mk hws hname hcolon hws' hvalue =>
      exact ((((hvalue.suffix hS).trans hws'.suffix).trans ((List.suffix_cons _ _).trans
        hcolon.suffix)).trans (hS.suffix hname)).trans hws.suffix

/-- A member is read in one way. -/
theorem Member.unique (hS : TokenRule S) {t r r' : Bytes} {m m' : Bytes × Value}
    (h : Member S t m r) (h' : Member S t m' r') : m = m' ∧ r = r' := by
  cases h with
  | mk hws hname hcolon hws₁ hvalue =>
      cases h' with
      | mk hws' hname' hcolon' hws₁' hvalue' =>
          obtain ⟨s, rfl⟩ := hS.quoted hname
          obtain ⟨s', rfl⟩ := hS.quoted hname'
          obtain rfl := (List.cons.inj (hws.unique (by decide) (by decide) hws')).2
          obtain ⟨rfl, rfl⟩ := hS.unique hname hname'
          obtain rfl := (List.cons.inj (hcolon.unique (by decide) (by decide) hcolon')).2
          obtain ⟨c, s, rfl, hc⟩ := hvalue.head hS
          obtain ⟨c', s', rfl, hc'⟩ := hvalue'.head hS
          rw [hws₁.unique hc hc' hws₁'] at hvalue
          obtain ⟨rfl, rfl⟩ := hvalue.unique hS hvalue'
          exact ⟨rfl, rfl⟩

/-- Members leave a rest of the text. -/
theorem Members.suffix (hS : TokenRule S) {t r : Bytes} {ms : List (Bytes × Value)}
    (h : Members S t ms r) : r <:+ t := by
  induction h with
  | one hmember => exact hmember.suffix hS
  | more hmember hcomma _ ih =>
      exact (ih.trans ((List.suffix_cons _ _).trans hcomma.suffix)).trans (hmember.suffix hS)

/-- The members in front of a closing brace are read in one way. -/
theorem Members.unique (hS : TokenRule S) {t r r' s s' : Bytes} {ms ms' : List (Bytes × Value)}
    (h : Members S t ms r) (hr : Ws r (ascii '\x7d' :: s)) (h' : Members S t ms' r')
    (hr' : Ws r' (ascii '\x7d' :: s')) : ms = ms' ∧ r = r' := by
  induction h generalizing ms' with
  | one hmember =>
      cases h' with
      | one hmember' =>
          obtain ⟨rfl, rfl⟩ := hmember.unique hS hmember'
          exact ⟨rfl, rfl⟩
      | more hmember' hcomma =>
          obtain ⟨-, rfl⟩ := hmember.unique hS hmember'
          have hbyte := (List.cons.inj (hr.unique (by decide) (by decide) hcomma)).1
          exact absurd hbyte (by decide)
  | more hmember hcomma _ ih =>
      cases h' with
      | one hmember' =>
          obtain ⟨-, rfl⟩ := hmember.unique hS hmember'
          have hbyte := (List.cons.inj (hr'.unique (by decide) (by decide) hcomma)).1
          exact absurd hbyte (by decide)
      | more hmember' hcomma' h' =>
          obtain ⟨rfl, rfl⟩ := hmember.unique hS hmember'
          obtain rfl := (List.cons.inj (hcomma.unique (by decide) (by decide) hcomma')).2
          obtain ⟨rfl, rfl⟩ := ih hr h'
          exact ⟨rfl, rfl⟩

/-- A list of members begins with a name. -/
theorem Members.quoted (hS : TokenRule S) {t r : Bytes} {ms : List (Bytes × Value)}
    (h : Members S t ms r) : ∃ s, Ws t (ascii '"' :: s) := by
  have hmember : ∀ {t m r}, Member S t m r → ∃ s, Ws t (ascii '"' :: s) := by
    rintro t m r ⟨hws, hname, -, -, -⟩
    obtain ⟨s, rfl⟩ := hS.quoted hname
    exact ⟨s, hws⟩
  cases h with
  | one h => exact hmember h
  | more h => exact hmember h

/-- An object text denotes one list of members. -/
theorem IsObject.unique (hS : TokenRule S) {t : Bytes} {ms ms' : List (Bytes × Value)}
    (h : IsObject S t ms) (h' : IsObject S t ms') : ms = ms' := by
  have hempty : ∀ {t r s ms}, Ws t (ascii '\x7d' :: s) → ¬ Members S t ms r := by
    intro t r s ms hclose hmembers
    obtain ⟨s', hquote⟩ := hmembers.quoted hS
    have hbyte := (List.cons.inj (hclose.unique (by decide) (by decide) hquote)).1
    exact absurd hbyte (by decide)
  cases h with
  | empty hopen hclose =>
      cases h' with
      | empty => rfl
      | members hopen' hmembers =>
          obtain rfl := (List.cons.inj (hopen.unique (by decide) (by decide) hopen')).2
          exact absurd hmembers (hempty hclose)
  | members hopen hmembers hclose =>
      cases h' with
      | empty hopen' hclose' =>
          obtain rfl := (List.cons.inj (hopen.unique (by decide) (by decide) hopen')).2
          exact absurd hmembers (hempty hclose')
      | members hopen' hmembers' hclose' =>
          obtain rfl := (List.cons.inj (hopen.unique (by decide) (by decide) hopen')).2
          exact (hmembers.unique hS hclose hmembers' hclose').1

end Unique

/-! ## More string tokens -/

section Mono

variable {S S' : Bytes → Bytes → Bytes → Prop}

/-- More string tokens give more values. -/
theorem ValueToken.mono (hmono : ∀ t v r, S t v r → S' t v r) {t r : Bytes} {v : Value}
    (h : ValueToken S t v r) : ValueToken S' t v r := by
  cases h with
  | str h => exact .str (hmono _ _ _ h)
  | int h => exact .int h
  | literalTrue => exact .literalTrue
  | literalFalse => exact .literalFalse

/-- And more members. -/
theorem Member.mono (hmono : ∀ t v r, S t v r → S' t v r) {t r : Bytes} {m : Bytes × Value}
    (h : Member S t m r) : Member S' t m r := by
  cases h with
  | mk hws hname hcolon hws' hvalue =>
      exact .mk hws (hmono _ _ _ hname) hcolon hws' (hvalue.mono hmono)

/-- And more lists of them. -/
theorem Members.mono (hmono : ∀ t v r, S t v r → S' t v r) {t r : Bytes}
    {ms : List (Bytes × Value)} (h : Members S t ms r) : Members S' t ms r := by
  induction h with
  | one hmember => exact .one (hmember.mono hmono)
  | more hmember hcomma _ ih => exact .more (hmember.mono hmono) hcomma ih

/-- What fewer string tokens derive, more do. -/
theorem IsObject.mono (hmono : ∀ t v r, S t v r → S' t v r) {t : Bytes}
    {ms : List (Bytes × Value)} (h : IsObject S t ms) : IsObject S' t ms := by
  cases h with
  | empty hopen hclose hend => exact .empty hopen hclose hend
  | members hopen hmembers hclose hend => exact .members hopen (hmembers.mono hmono) hclose hend

end Mono

end JsonGrammar
end BettingPlatform
