import BettingPlatform.Foundations.JsonGrammar
import BettingPlatform.Wire.EngineReader

/-!
# The one reading of a written object

The services that use `model_dump_json` write flat objects: strings with short escapes, `\u`
escapes for the other control characters, and every other character as it is.

Main results:

- Theorem `chars_escapeChar`: what the grammar of JSON reads of a written character.
- Theorem `isObject_objectText`: a written object is a JSON text of its members.
- Theorem `objectText_faithful`: and it has no other reading.
-/

namespace BettingPlatform
namespace Wire

open Python JsonGrammar

/-! ## String tokens -/

/-- Plain bytes stand for themselves. -/
theorem chars_plain {x t v r : Bytes} (hx : ∀ b ∈ x, IsPlainByte b) (h : Chars t v r) :
    Chars (x ++ t) (x ++ v) r := by
  induction x with
  | nil => exact h
  | cons b x ih =>
      obtain ⟨hquote, hbackslash, hcontrol⟩ := hx b List.mem_cons_self
      exact .unescaped hquote hbackslash (UInt8.not_lt.mp hcontrol)
        (ih fun c hc => hx c (List.mem_cons_of_mem _ hc))

/-- Four hexadecimal digits are the code unit they print. -/
theorem codeUnit_toHex (n : Nat) (t : Bytes) :
    codeUnit (encode (toHex 4 n) ++ t) = some (n % 16 ^ 4, t) := by
  have hdigit : ∀ m : Nat, String.utf8EncodeChar (Nat.digitChar (m % 16)) =
      [ascii (Nat.digitChar (m % 16))] ∧ hexDigit (ascii (Nat.digitChar (m % 16))) = some (m % 16) := by
    intro m
    have hall : ∀ d : Fin 16, (Nat.digitChar d).toNat < 128 ∧
        hexDigit (ascii (Nat.digitChar d)) = some d.val := by
      decide +kernel
    obtain ⟨hascii, hvalue⟩ := hall ⟨m % 16, Nat.mod_lt m (by decide)⟩
    exact ⟨utf8EncodeChar_of_ascii hascii, hvalue⟩
  have hbytes : encode (toHex 4 n) ++ t = ascii (Nat.digitChar (n / 16 / 16 / 16 % 16)) ::
      ascii (Nat.digitChar (n / 16 / 16 % 16)) :: ascii (Nat.digitChar (n / 16 % 16)) ::
        ascii (Nat.digitChar (n % 16)) :: t := by
    simp [toHex, (hdigit _).1]
  rw [hbytes]
  simp only [codeUnit, (hdigit _).2, Option.bind_eq_bind, Option.bind_some, Option.some.injEq,
    Prod.mk.injEq, and_true]
  omega

/-- A written character is read as itself. -/
theorem chars_escapeChar (c : Char) {t v r : Bytes} (h : Chars t v r) :
    Chars (encode (escapeChar Ingress.unicodeEscape c) ++ t) (String.utf8EncodeChar c ++ v) r := by
  cases hshort : shortEscape c with
  | some e =>
      have hletter : c.toNat < 128 ∧ e.toNat < 128 ∧ (ascii e, ascii c) ∈ escapes := by
        unfold shortEscape at hshort
        split_ifs at hshort <;> (obtain rfl := Option.some.inj hshort; subst_vars; decide)
      have hbytes : encode (escapeChar Ingress.unicodeEscape c) = [ascii '\\', ascii e] := by
        simp [escapeChar, hshort, utf8EncodeChar_of_ascii hletter.2.1,
          utf8EncodeChar_of_ascii (c := '\\')]
      rw [hbytes, utf8EncodeChar_of_ascii hletter.1]
      exact .escape hletter.2.2 h
  | none =>
      by_cases hcontrol : c.toNat < 0x20
      · have hbytes : encode (escapeChar Ingress.unicodeEscape c) ++ t =
            ascii '\\' :: ascii 'u' :: (encode (toHex 4 c.toNat) ++ t) := by
          simp [escapeChar, hshort, hcontrol, Ingress.unicodeEscape,
            utf8EncodeChar_of_ascii (c := '\\'), utf8EncodeChar_of_ascii (c := 'u')]
        have hunit : codeUnit (encode (toHex 4 c.toNat) ++ t) = some (c.toNat, t) := by
          rw [codeUnit_toHex, Nat.mod_eq_of_lt (by omega)]
        have hpoint : codePoint c.toNat = String.utf8EncodeChar c := by
          rw [codePoint, Char.ofNat_toNat]
        rw [hbytes, ← hpoint]
        exact .unit hunit (fun hsurrogate => absurd hsurrogate.1 (by omega)) h
      · have hquote : c ≠ '"' := by
          rintro rfl
          contradiction
        have hbackslash : c ≠ '\\' := by
          rintro rfl
          contradiction
        simp only [escapeChar, hshort, hcontrol, if_false, encode, List.flatMap_singleton]
        exact chars_plain (fun b hb =>
          isPlainByte_of_mem hquote hbackslash (not_lt.mp hcontrol) hb) h

/-- A written string is read as itself. -/
theorem chars_stringBody (s : String) (r : Bytes) :
    Chars (encode (stringBody Ingress.unicodeEscape s) ++ r) (utf8 s) r := by
  have hclose : Chars (encode ['"'] ++ r) [] r := .close
  suffices hchars : ∀ cs : List Char,
      Chars (encode (cs.flatMap (escapeChar Ingress.unicodeEscape) ++ ['"']) ++ r) (encode cs) r from
    hchars s.toList
  intro cs
  induction cs with
  | nil => exact hclose
  | cons c cs ih =>
      simp only [List.flatMap_cons, encode, List.flatMap_append, List.append_assoc] at ih ⊢
      exact chars_escapeChar c ih

/-- A name without escapes is read as itself. -/
theorem chars_plainName {name : String} (hname : PlainName name) (r : Bytes) :
    Chars (encode (name.toList ++ ['"']) ++ r) (utf8 name) r := by
  have hplain : ∀ b ∈ encode name.toList, IsPlainByte b := by
    intro b hb
    obtain ⟨c, hc, hb⟩ := List.mem_flatMap.mp hb
    obtain ⟨hquote, hbackslash, hprintable⟩ := hname c hc
    exact isPlainByte_of_mem hquote hbackslash hprintable hb
  have hclose : Chars (encode ['"'] ++ r) [] r := .close
  have h := chars_plain hplain hclose
  rwa [List.append_nil, ← List.append_assoc, ← List.flatMap_append] at h

/-! ## Objects -/

/-- The value that a written value is. -/
def value : Scalar → Value
  | .str s => .str (utf8 s)
  | .int n => .int n
  | .bool b => .bool b

/-- A written value is a JSON value. -/
theorem valueToken_text (v : Scalar) {r : Bytes} (hr : ∀ b ∈ r.head?, isDigit b = false) :
    ValueToken StringToken (encode (v.text Ingress.unicodeEscape) ++ r) (value v) r := by
  cases v with
  | str s => exact .str ⟨_, rfl, chars_stringBody s r⟩
  | int n =>
      rw [Scalar.text, encode_intText]
      exact .int (intToken_intDigits n hr)
  | bool b =>
      cases b with
      | true => exact .literalTrue
      | false => exact .literalFalse

/-- A written member is a JSON member. -/
theorem member_memberText {m : String × Scalar} (hname : PlainName m.1) {r : Bytes}
    (hr : ∀ b ∈ r.head?, isDigit b = false) :
    Member StringToken (encode (memberText Ingress.unicodeEscape m) ++ r) (utf8 m.1, value m.2) r := by
  have hbytes : encode (memberText Ingress.unicodeEscape m) ++ r =
      ascii '"' :: (encode (m.1.toList ++ ['"']) ++
        ascii ':' :: (encode (m.2.text Ingress.unicodeEscape) ++ r)) := by
    simp [memberText, utf8EncodeChar_of_ascii (c := '"'), utf8EncodeChar_of_ascii (c := ':')]
  rw [hbytes]
  exact .mk .nil ⟨_, rfl, chars_plainName hname _⟩ .nil .nil (valueToken_text m.2 hr)

/-- What follows a value is no digit. -/
theorem head_not_digit {c : Char} (hc : isDigit (ascii c) = false) (r : Bytes) :
    ∀ b ∈ (ascii c :: r).head?, isDigit b = false := by
  intro b hb
  obtain rfl := Option.some.inj hb
  exact hc

/-- The written members, in front of the closing brace. -/
theorem members_text {m : String × Scalar} {ms : List (String × Scalar)}
    (hnames : ∀ m' ∈ m :: ms, PlainName m'.1) :
    Members StringToken
      (encode (memberText Ingress.unicodeEscape m ++ laterMembers Ingress.unicodeEscape ms) ++
        [ascii '\x7d'])
      ((m :: ms).map fun m' => (utf8 m'.1, value m'.2)) [ascii '\x7d'] := by
  induction ms generalizing m with
  | nil =>
      simp only [laterMembers, List.flatMap_nil, List.append_nil]
      exact .one (member_memberText (hnames m List.mem_cons_self) (head_not_digit (by decide) _))
  | cons m' ms ih =>
      have hbytes : encode (memberText Ingress.unicodeEscape m ++
          laterMembers Ingress.unicodeEscape (m' :: ms)) ++ [ascii '\x7d'] =
          encode (memberText Ingress.unicodeEscape m) ++ ascii ',' ::
            (encode (memberText Ingress.unicodeEscape m' ++ laterMembers Ingress.unicodeEscape ms) ++
              [ascii '\x7d']) := by
        simp [laterMembers, utf8EncodeChar_of_ascii (c := ',')]
      rw [hbytes]
      refine .more (member_memberText (hnames m List.mem_cons_self) (head_not_digit (by decide) _)) .nil
        ?_
      exact ih fun x hx => hnames x (List.mem_cons_of_mem _ hx)

/-- A written object is a JSON text of its members. -/
theorem isObject_objectText {ms : List (String × Scalar)} (hnames : ∀ m ∈ ms, PlainName m.1) :
    IsObject StringToken (encode (objectText Ingress.unicodeEscape ms))
      (ms.map fun m => (utf8 m.1, value m.2)) := by
  cases ms with
  | nil => exact .empty .nil .nil .nil
  | cons m ms =>
      have hbytes : encode (objectText Ingress.unicodeEscape (m :: ms)) = ascii '\x7b' ::
          (encode (memberText Ingress.unicodeEscape m ++ laterMembers Ingress.unicodeEscape ms) ++
            [ascii '\x7d']) := by
        simp [objectText, utf8EncodeChar_of_ascii (c := '\x7b'), utf8EncodeChar_of_ascii (c := '\x7d')]
      rw [hbytes]
      exact .members .nil (members_text hnames) .nil .nil

/-- A written object has one reading: its members. -/
theorem objectText_faithful {ms : List (String × Scalar)} (hnames : ∀ m ∈ ms, PlainName m.1)
    {members : List (Bytes × Value)} :
    IsObject StringToken (encode (objectText Ingress.unicodeEscape ms)) members ↔
      members = ms.map fun m => (utf8 m.1, value m.2) :=
  ⟨fun h => h.unique tokenRule_stringToken (isObject_objectText hnames),
    fun h => h ▸ isObject_objectText hnames⟩

end Wire
end BettingPlatform
