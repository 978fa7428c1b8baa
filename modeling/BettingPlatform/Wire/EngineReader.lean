import BettingPlatform.Foundations.JsonText
import BettingPlatform.RiskEngine.Parser
import BettingPlatform.Ingress.Bets

/-!
# The engine's parser on written objects

The ingress service writes an event as compact JSON, the risk engine reads it with its own
parser.  The two disagree on strings: ingress writes every control character, the engine
knows no `\u` escape; ingress counts characters, the engine bytes.

Main results:

- Theorem `parseObject_objectText`: what the engine's parser makes of a flat object's text.
- Theorem `requiredString_eq_ok_iff` and `requiredI64_eq_ok_iff`: which fields it takes.
-/

namespace BettingPlatform
namespace Wire

open Python RiskEngine

/-! ## String tokens -/

/-- The UTF-8 bytes of a text that is still a list of characters. -/
abbrev encode (cs : List Char) : Bytes :=
  cs.flatMap String.utf8EncodeChar

/-- A byte that stands for itself inside a string token. -/
def IsPlainByte (b : UInt8) : Prop :=
  b ≠ ascii '"' ∧ b ≠ ascii '\\' ∧ ¬ b < 0x20

/-- Plain bytes are read as they stand. -/
theorem parseStringBody_plain {x : Bytes} (hx : ∀ b ∈ x, IsPlainByte b) (t : Bytes) :
    parseStringBody (x ++ t) = (parseStringBody t).map fun r => (x ++ r.1, r.2) := by
  induction x with
  | nil =>
      rw [List.nil_append]
      cases parseStringBody t <;> rfl
  | cons b x ih =>
      obtain ⟨hquote, hbackslash, hcontrol⟩ := hx b List.mem_cons_self
      rw [List.cons_append, parseStringBody.eq_def]
      simp only [hquote, hbackslash, hcontrol, if_false, ih fun c hc => hx c (by simp [hc])]
      cases parseStringBody t <;> rfl

/-- The bytes of a character that needs no escape stand for themselves. -/
theorem isPlainByte_of_mem {c : Char} (hquote : c ≠ '"') (hbackslash : c ≠ '\\')
    (hprintable : 0x20 ≤ c.toNat) {b : UInt8} (hb : b ∈ String.utf8EncodeChar c) :
    IsPlainByte b := by
  by_cases hascii : c.toNat < 128
  · rw [utf8EncodeChar_of_ascii hascii, List.mem_singleton] at hb
    have hcode : b.toNat = c.toNat := hb ▸ toNat_ascii hascii
    have hne : ∀ d : Char, d.toNat < 128 → c ≠ d → b ≠ ascii d := by
      intro d hd hcd heq
      refine hcd (Char.toNat_inj.mp ?_)
      rw [← hcode, heq, toNat_ascii hd]
    refine ⟨hne '"' (by decide) hquote, hne '\\' (by decide) hbackslash, ?_⟩
    rw [UInt8.lt_iff_toNat_lt, hcode]
    exact not_lt.mpr hprintable
  · have hwide := le_of_mem_utf8EncodeChar (not_lt.mp hascii) hb
    refine ⟨?_, ?_, ?_⟩
    · rintro rfl
      exact absurd hwide (by decide)
    · rintro rfl
      exact absurd hwide (by decide)
    · rw [UInt8.lt_iff_toNat_lt]
      exact not_lt.mpr ((by decide : (0x20 : UInt8).toNat ≤ 128).trans hwide)

/-- A character the engine can read: printable, or with a short escape. -/
def IsReadableChar (c : Char) : Prop :=
  0x20 ≤ c.toNat ∨ (shortEscape c).isSome

instance (c : Char) : Decidable (IsReadableChar c) := inferInstanceAs (Decidable (_ ∨ _))

/-- The engine reads a written character back, or refuses its `\u` escape. -/
theorem parseStringBody_escapeChar (c : Char) (t : Bytes) :
    parseStringBody (encode (escapeChar Ingress.unicodeEscape c) ++ t) =
      if IsReadableChar c then
        (parseStringBody t).map fun r => (String.utf8EncodeChar c ++ r.1, r.2)
      else none := by
  cases hshort : shortEscape c with
  | some e =>
      have hletter : c.toNat < 128 ∧ e.toNat < 128 ∧ unescape (ascii e) = some (ascii c) := by
        unfold shortEscape at hshort
        split_ifs at hshort <;> (obtain rfl := Option.some.inj hshort; subst_vars; decide)
      have hbytes : encode (escapeChar Ingress.unicodeEscape c) = [ascii '\\', ascii e] := by
        simp [escapeChar, hshort, utf8EncodeChar_of_ascii hletter.2.1,
          utf8EncodeChar_of_ascii (c := '\\')]
      have hreadable : IsReadableChar c := Or.inr (by simp [hshort])
      rw [if_pos hreadable, utf8EncodeChar_of_ascii hletter.1, hbytes, List.cons_append,
        List.cons_append, parseStringBody.eq_def]
      simp only [show ascii '\\' ≠ ascii '"' by decide, if_false, if_true, hletter.2.2,
        List.nil_append, Option.bind_eq_bind, Option.bind_some]
      cases parseStringBody t <;> rfl
  | none =>
      by_cases hcontrol : c.toNat < 0x20
      · obtain ⟨x, hx⟩ : ∃ x, encode (escapeChar Ingress.unicodeEscape c) =
            ascii '\\' :: ascii 'u' :: x := by
          simp only [escapeChar, hshort, hcontrol, if_true]
          exact ⟨_, rfl⟩
        have hrefused : ¬ IsReadableChar c := by
          rintro (hprintable | hsome)
          · omega
          · simp [hshort] at hsome
        rw [if_neg hrefused, hx, List.cons_append, List.cons_append, parseStringBody.eq_def]
        simp only [show ascii '\\' ≠ ascii '"' by decide, if_false, if_true]
        rfl
      · have hquote : c ≠ '"' := by
          rintro rfl
          contradiction
        have hbackslash : c ≠ '\\' := by
          rintro rfl
          contradiction
        have hreadable : IsReadableChar c := Or.inl (not_lt.mp hcontrol)
        rw [if_pos hreadable]
        simp only [escapeChar, hshort, hcontrol, if_false, encode, List.flatMap_singleton]
        exact parseStringBody_plain
          (fun b hb => isPlainByte_of_mem hquote hbackslash (not_lt.mp hcontrol) hb) t

/-- A text the engine can read. -/
def IsReadable (s : String) : Prop :=
  ∀ c ∈ s.toList, IsReadableChar c

instance (s : String) : Decidable (IsReadable s) := List.decidableBAll _ _

/-- The engine reads a written string back, unless it has a `\u` escape. -/
theorem parseStringBody_stringBody (s : String) (t : Bytes) :
    parseStringBody (encode (stringBody Ingress.unicodeEscape s) ++ t) =
      if IsReadable s then some (utf8 s, t) else none := by
  suffices hchars : ∀ cs : List Char,
      parseStringBody
          (encode (cs.flatMap (escapeChar Ingress.unicodeEscape)) ++ ascii '"' :: t) =
        if IsReadable (String.ofList cs) then some (encode cs, t) else none by
    have hbytes : encode (stringBody Ingress.unicodeEscape s) =
        encode (s.toList.flatMap (escapeChar Ingress.unicodeEscape)) ++ [ascii '"'] := by
      simp [stringBody, encode, utf8EncodeChar_of_ascii (c := '"')]
    have hs := hchars s.toList
    rw [String.ofList_toList] at hs
    rw [hbytes, List.append_assoc]
    exact hs
  intro cs
  induction cs with
  | nil =>
      have hempty : IsReadable (String.ofList []) := by simp [IsReadable]
      rw [parseStringBody.eq_def, if_pos hempty]
      simp
  | cons c cs ih =>
      have hall : IsReadable (String.ofList (c :: cs)) ↔
          IsReadableChar c ∧ IsReadable (String.ofList cs) := by
        simp [IsReadable]
      simp only [List.flatMap_cons, encode, List.flatMap_append, List.append_assoc, hall] at ih ⊢
      rw [parseStringBody_escapeChar, ih]
      by_cases hc : IsReadableChar c
      · split <;> simp_all
      · simp [hc]

/-! ## Objects -/

/-- The field that the engine's parser makes of a member's value, unless it refuses it. -/
def engineField : Scalar → Option FieldValue
  | .str s =>
      if IsReadable s then some ⟨true, encode ('"' :: stringBody Ingress.unicodeEscape s)⟩
      else none
  | .int n => some ⟨false, intDigits n⟩
  | .bool _ => none

/-- The bytes that may follow a member's value. -/
def EndsValue (d : UInt8) : Prop :=
  d = ascii ',' ∨ d = ascii '\x7d'

theorem EndsValue.not_number {d : UInt8} (hd : EndsValue d) :
    isDigit d = false ∧ d ≠ ascii '.' ∧ d ≠ ascii 'e' ∧ d ≠ ascii 'E' ∧ isWs d = false := by
  rcases hd with rfl | rfl <;> decide

/-- An ASCII character is one byte. -/
theorem encode_cons {c : Char} (hc : c.toNat < 128) (cs : List Char) :
    encode (c :: cs) = ascii c :: encode cs := by
  simp [encode, utf8EncodeChar_of_ascii hc]

theorem encode_digits (n : Nat) : encode (Nat.toDigits 10 n) = natDigits n := by
  have hdigits : ∀ c ∈ Nat.toDigits 10 n, c.toNat < 128 := fun c hc =>
    toNat_lt_of_isDigit (Nat.isDigit_of_mem_toDigits (by decide) (by decide) hc)
  rw [natDigits, ← utf8_ofList_of_ascii hdigits, utf8_ofList]

/-- An integer is written as the engine writes it. -/
theorem encode_intText (n : Int) : encode (intText n) = intDigits n := by
  cases n with
  | ofNat m => exact encode_digits m
  | negSucc m => rw [intText, encode_cons (by decide), encode_digits, intDigits]

theorem skipWs_cons {b : UInt8} (hb : isWs b = false) (s : Bytes) : skipWs (b :: s) = b :: s := by
  simp [skipWs, hb]

/-- An integer is read as its digits. -/
theorem parseValue_intDigits (key : Bytes) (n : Int) {d : UInt8} (hd : EndsValue d)
    (rest : Bytes) :
    parseValue key (intDigits n ++ d :: rest) = .ok (⟨false, intDigits n⟩, d :: rest) := by
  obtain ⟨sign, digits, hdigits, hsign, hne, hall⟩ := intDigits_cases n
  obtain ⟨b, bs, rfl⟩ := List.exists_cons_of_ne_nil hne
  have hb := hall b List.mem_cons_self
  have hscan : scanDigits (b :: bs ++ d :: rest) = (b :: bs, d :: rest) := by
    rw [scanDigits, List.takeWhile_append_of_pos hall, List.dropWhile_append_of_pos hall]
    simp [hd.not_number.1]
  have hother : ∀ c : UInt8, isDigit c = false → b ≠ c := by
    rintro c hc rfl
    rw [hb] at hc
    contradiction
  rw [hdigits]
  rcases hsign with rfl | rfl
  · rw [List.nil_append, List.cons_append, parseValue, if_neg (hother _ rfl)]
    simp only [hother _ (show isDigit (ascii '-') = false from rfl), if_false, List.length_nil,
      List.drop_zero]
    rw [← List.cons_append, hscan]
    simp [hd.not_number]
  · have hminus : ascii '-' ≠ ascii '"' := by decide
    rw [List.singleton_append, List.cons_append, parseValue, if_neg hminus]
    simp only [if_true, List.length_singleton, List.drop_one, List.tail_cons]
    rw [hscan]
    simp [hd.not_number]

/-- The parser accepts a written value exactly when it has a field for it. -/
theorem parseValue_text (key : Bytes) (value : Scalar) {d : UInt8} (hd : EndsValue d)
    {rest r : Bytes} {field : FieldValue} :
    parseValue key (encode (value.text Ingress.unicodeEscape) ++ d :: rest) = .ok (field, r) ↔
      engineField value = some field ∧ r = d :: rest := by
  cases value with
  | str s =>
      have htoken : parseJsonStringToken
          (encode ('"' :: stringBody Ingress.unicodeEscape s) ++ d :: rest) =
            if IsReadable s then some (utf8 s, d :: rest) else none := by
        rw [encode_cons (by decide), List.cons_append, parseJsonStringToken, if_pos rfl,
          parseStringBody_stringBody]
      obtain ⟨x, hx⟩ : ∃ x, encode ('"' :: stringBody Ingress.unicodeEscape s) = ascii '"' :: x :=
        ⟨_, encode_cons (by decide) _⟩
      simp only [Scalar.text, engineField]
      have hraw : ((ascii '"' :: x) ++ d :: rest).take
          (((ascii '"' :: x) ++ d :: rest).length - (d :: rest).length) = ascii '"' :: x := by
        rw [List.length_append, Nat.add_sub_cancel, List.take_left]
      rw [hx] at htoken ⊢
      rw [List.cons_append] at htoken hraw ⊢
      rw [parseValue, if_pos rfl, htoken]
      by_cases hs : IsReadable s
      · simp only [hs, if_true, hraw]
        simp [eq_comm]
      · simp [hs]
  | int n =>
      rw [Scalar.text, encode_intText, parseValue_intDigits key n hd, engineField]
      simp [eq_comm]
  | bool b =>
      have hrefused : ∀ (c : Char) (cs : List Char), c.toNat < 128 → isDigit (ascii c) = false →
          ascii c ≠ ascii '"' → ascii c ≠ ascii '-' →
          ∃ e, parseValue key (encode (c :: cs) ++ d :: rest) = .error e := by
        intro c cs hc hdigit hquote hminus
        rw [encode_cons hc, List.cons_append, parseValue, if_neg hquote]
        simp [hminus, scanDigits, hdigit]
      have hbool : ∃ e, parseValue key
          (encode ((Scalar.bool b).text Ingress.unicodeEscape) ++ d :: rest) = .error e := by
        cases b
        · exact hrefused 'f' "alse".toList (by decide) rfl (by decide) (by decide)
        · exact hrefused 't' "rue".toList (by decide) rfl (by decide) (by decide)
      obtain ⟨e, he⟩ := hbool
      simp [he, engineField]

theorem isWs_of_isDigit {b : UInt8} (hb : isDigit b) : isWs b = false := by
  by_contra hspace
  simp only [isWs, Bool.not_eq_false, Bool.or_eq_true, decide_eq_true_eq] at hspace
  rcases hspace with ((rfl | rfl) | rfl) | rfl <;> contradiction

/-- A value's text does not begin with whitespace. -/
theorem skipWs_text (value : Scalar) (rest : Bytes) :
    skipWs (encode (value.text Ingress.unicodeEscape) ++ rest) =
      encode (value.text Ingress.unicodeEscape) ++ rest := by
  have hchar : ∀ (c : Char) (cs : List Char), c.toNat < 128 → isWs (ascii c) = false →
      skipWs (encode (c :: cs) ++ rest) = encode (c :: cs) ++ rest := by
    intro c cs hc hspace
    rw [encode_cons hc, List.cons_append, skipWs_cons hspace]
  cases value with
  | str s => exact hchar '"' _ (by decide) rfl
  | int n =>
      obtain ⟨sign, digits, hdigits, hsign, hne, hall⟩ := intDigits_cases n
      rw [Scalar.text, encode_intText, hdigits]
      rcases hsign with rfl | rfl
      · obtain ⟨b, bs, rfl⟩ := List.exists_cons_of_ne_nil hne
        exact skipWs_cons (isWs_of_isDigit (hall b List.mem_cons_self)) _
      · exact skipWs_cons rfl _
  | bool b =>
      cases b
      · exact hchar 'f' "alse".toList (by decide) rfl
      · exact hchar 't' "rue".toList (by decide) rfl

/-- The name of a member as a field name. -/
def engineMember (member : String × Scalar) : Option (Bytes × FieldValue) :=
  (engineField member.2).map fun field => (utf8 member.1, field)

/-- One written member. -/
theorem parseMember_text {member : String × Scalar} (hname : PlainName member.1)
    {obj : ParsedObject} (hnew : obj.get? (utf8 member.1) = none) {d : UInt8} (hd : EndsValue d)
    {rest r : Bytes} {key : Bytes} {field : FieldValue} :
    parseMember (encode (memberText Ingress.unicodeEscape member) ++ d :: rest) obj =
        .ok (key, field, r) ↔
      engineMember member = some (key, field) ∧ r = d :: rest := by
  obtain ⟨name, value⟩ := member
  have hplain : ∀ b ∈ encode name.toList, IsPlainByte b := by
    intro b hb
    obtain ⟨c, hc, hbc⟩ := List.mem_flatMap.mp hb
    obtain ⟨hquote, hbackslash, hprintable⟩ := hname c hc
    exact isPlainByte_of_mem hquote hbackslash hprintable hbc
  have htext : encode (memberText Ingress.unicodeEscape (name, value)) ++ d :: rest =
      ascii '"' :: (encode name.toList ++ ascii '"' :: ascii ':' ::
        (encode (value.text Ingress.unicodeEscape) ++ d :: rest)) := by
    simp [memberText, encode, utf8EncodeChar_of_ascii (c := '"'),
      utf8EncodeChar_of_ascii (c := ':')]
  have hkey : parseJsonStringToken (ascii '"' :: (encode name.toList ++ ascii '"' :: ascii ':' ::
      (encode (value.text Ingress.unicodeEscape) ++ d :: rest))) =
        some (utf8 name, ascii ':' :: (encode (value.text Ingress.unicodeEscape) ++ d :: rest)) := by
    rw [parseJsonStringToken, if_pos rfl, parseStringBody_plain hplain, parseStringBody.eq_def]
    simp [utf8]
  rw [htext, parseMember, hkey]
  simp only [hnew, Option.isSome_none, Bool.false_eq_true, if_false,
    skipWs_cons (show isWs (ascii ':') = false from rfl), ne_eq, not_true_eq_false, skipWs_text,
    bind_eq_ok_iff, Prod.exists, parseValue_text _ value hd, engineMember]
  constructor
  · rintro ⟨field', r', ⟨hfield, rfl⟩, h⟩
    obtain ⟨rfl, rfl, rfl⟩ : utf8 name = key ∧ field' = field ∧ d :: rest = r := by simpa using h
    exact ⟨by simp [hfield], rfl⟩
  · rintro ⟨hmember, rfl⟩
    obtain ⟨field', hfield, heq⟩ := Option.map_eq_some_iff.mp hmember
    obtain ⟨rfl, rfl⟩ := Prod.mk.inj heq
    exact ⟨field', d :: rest, ⟨hfield, rfl⟩, rfl⟩

/-- One round of the member loop over a written member. -/
theorem parseMembers_member {member : String × Scalar} (hname : PlainName member.1)
    {obj : ParsedObject} (hnew : obj.get? (utf8 member.1) = none) {d : UInt8} (hd : EndsValue d)
    {rest : Bytes} {result : ParsedObject × Bytes} :
    parseMembers (encode (memberText Ingress.unicodeEscape member) ++ d :: rest) obj =
        .ok result ↔
      ∃ field, engineMember member = some field ∧
        if d = ascii ',' then parseMembers (skipWs rest) (obj ++ [field]) = .ok result
        else result = (obj ++ [field], rest) := by
  have hne : encode (memberText Ingress.unicodeEscape member) ++ d :: rest ≠ [] := by simp
  cases hmember : parseMember (encode (memberText Ingress.unicodeEscape member) ++ d :: rest) obj with
  | error e =>
      rw [parseMembers_of_error hne hmember]
      constructor
      · intro h
        contradiction
      · rintro ⟨⟨key, field⟩, hfield, -⟩
        rw [(parseMember_text hname hnew hd).mpr ⟨hfield, rfl⟩] at hmember
        contradiction
  | ok parsed =>
      obtain ⟨key, field, rest'⟩ := parsed
      obtain ⟨hfield, rfl⟩ := (parseMember_text hname hnew hd).mp hmember
      rw [parseMembers_of_member hne hmember, skipWs_cons hd.not_number.2.2.2.2]
      rcases hd with rfl | rfl
      · simp [hfield]
      · have hcomma : ascii '\x7d' ≠ ascii ',' := by decide
        simp [hfield, hcomma, eq_comm]

/-- A field with another name is not found. -/
theorem get?_append_of_ne {obj : ParsedObject} {key name : Bytes} {field : FieldValue}
    (hne : name ≠ key) (hobj : obj.get? name = none) :
    ParsedObject.get? (obj ++ [(key, field)]) name = none := by
  unfold ParsedObject.get? at hobj ⊢
  have hbeq : (name == key) = false := beq_false_of_ne hne
  rw [List.lookup_append, hobj]
  simp [List.lookup_cons, hbeq]

/-- The member loop accepts the members of a written object exactly when it has a field
for each. -/
theorem parseMembers_text {member : String × Scalar} {members : List (String × Scalar)}
    (hnames : ∀ m ∈ member :: members, PlainName m.1)
    (hnodup : ((member :: members).map Prod.fst).Nodup) {obj : ParsedObject}
    (hnew : ∀ m ∈ member :: members, obj.get? (utf8 m.1) = none) {rest r : Bytes}
    {obj' : ParsedObject} :
    parseMembers (encode (memberText Ingress.unicodeEscape member ++
        laterMembers Ingress.unicodeEscape members) ++ ascii '\x7d' :: rest) obj = .ok (obj', r) ↔
      ∃ fields, (member :: members).mapM engineMember = some fields ∧ obj' = obj ++ fields ∧
        r = rest := by
  induction members generalizing member obj with
  | nil =>
      have hcomma : ascii '\x7d' ≠ ascii ',' := by decide
      have hlast := @parseMembers_member member (hnames member List.mem_cons_self) obj
        (hnew member List.mem_cons_self) (ascii '\x7d') (Or.inr rfl) rest (obj', r)
      simp only [hcomma, if_false] at hlast
      simp only [laterMembers, List.flatMap_nil, List.append_nil]
      rw [hlast]
      cases hmember : engineMember member <;> simp [hmember]
  | cons next members ih =>
      obtain ⟨hname, hnames'⟩ := List.forall_mem_cons.mp hnames
      obtain ⟨hnew₁, hnew'⟩ := List.forall_mem_cons.mp hnew
      rw [List.map_cons, List.nodup_cons] at hnodup
      have htext : encode (memberText Ingress.unicodeEscape member ++
          laterMembers Ingress.unicodeEscape (next :: members)) ++ ascii '\x7d' :: rest =
            encode (memberText Ingress.unicodeEscape member) ++ ascii ',' ::
              (encode (memberText Ingress.unicodeEscape next ++
                laterMembers Ingress.unicodeEscape members) ++ ascii '\x7d' :: rest) := by
        simp [laterMembers, encode, utf8EncodeChar_of_ascii (c := ',')]
      have hspace : skipWs (encode (memberText Ingress.unicodeEscape next ++
          laterMembers Ingress.unicodeEscape members) ++ ascii '\x7d' :: rest) =
            encode (memberText Ingress.unicodeEscape next ++
              laterMembers Ingress.unicodeEscape members) ++ ascii '\x7d' :: rest := by
        simp only [memberText, List.cons_append]
        rw [encode_cons (by decide), List.cons_append, skipWs_cons rfl]
      rw [htext, parseMembers_member hname hnew₁ (Or.inl rfl)]
      simp only [if_true, hspace]
      cases hmember : engineMember member with
      | none => simp [hmember]
      | some parsed =>
          obtain ⟨key, field⟩ := parsed
          obtain ⟨_, -, heq⟩ := Option.map_eq_some_iff.mp hmember
          obtain ⟨rfl, -⟩ := Prod.mk.inj heq
          have hfresh : ∀ m ∈ next :: members,
              ParsedObject.get? (obj ++ [(utf8 member.1, field)]) (utf8 m.1) = none := by
            intro m hm
            refine get?_append_of_ne (fun hutf8 => hnodup.1 ?_) (hnew' m hm)
            exact utf8_injective hutf8 ▸ List.mem_map_of_mem hm
          have hlater := ih hnames' hnodup.2 hfresh
          have hall : (member :: next :: members).mapM engineMember =
              ((next :: members).mapM engineMember).map ((utf8 member.1, field) :: ·) := by
            rw [List.mapM_cons, hmember]
            cases (next :: members).mapM engineMember <;> rfl
          simp only [Option.some.injEq, exists_eq_left', hlater, hall]
          cases (next :: members).mapM engineMember <;> simp

/-- What the engine's parser makes of the text of a flat object: it accepts it exactly
when it has a field for every member. -/
theorem parseObject_objectText {members : List (String × Scalar)}
    (hnames : ∀ m ∈ members, PlainName m.1) (hnodup : (members.map Prod.fst).Nodup)
    {obj : ParsedObject} :
    parseObject (encode (objectText Ingress.unicodeEscape members)) = .ok obj ↔
      members.mapM engineMember = some obj := by
  cases members with
  | nil =>
      have hparse : parseObject (encode (objectText Ingress.unicodeEscape [])) = .ok [] := rfl
      simp [hparse, eq_comm]
  | cons member members =>
      obtain ⟨body, hbody⟩ : ∃ body, encode (memberText Ingress.unicodeEscape member ++
          laterMembers Ingress.unicodeEscape members) ++ [ascii '\x7d'] = ascii '"' :: body :=
        ⟨_, by simp [memberText, encode, utf8EncodeChar_of_ascii (c := '"')]; rfl⟩
      have htext : encode (objectText Ingress.unicodeEscape (member :: members)) =
          ascii '\x7b' :: ascii '"' :: body := by
        rw [← hbody]
        simp [objectText, encode, utf8EncodeChar_of_ascii (c := '\x7b'),
          utf8EncodeChar_of_ascii (c := '\x7d')]
      have hmembers := @parseMembers_text member members hnames hnodup [] (fun _ _ => rfl) []
      rw [hbody] at hmembers
      rw [htext, parseObject, skipWs_cons rfl]
      have hquote : ascii '"' ≠ ascii '\x7d' := by decide
      simp only [ne_eq, not_true_eq_false, if_false, skipWs_cons (show isWs (ascii '"') = false from rfl),
        hquote, bind_eq_ok_iff, Prod.exists, hmembers, List.nil_append]
      have hend : skipWs [] = [] := rfl
      constructor
      · rintro ⟨fields, rest, ⟨_, hfields, rfl, rfl⟩, h⟩
        rw [if_pos hend] at h
        rw [hfields, Except.ok.inj h]
      · intro hfields
        exact ⟨obj, [], ⟨obj, hfields, rfl, rfl⟩, if_pos hend⟩

/-! ## Reading the fields -/

/-- A field of a parsed text is the field of the member with its name. -/
theorem get?_of_mapM {members : List (String × Scalar)} {obj : ParsedObject}
    (h : members.mapM engineMember = some obj) (name : String) :
    obj.get? (utf8 name) = (members.lookup name).bind engineField := by
  induction members generalizing obj with
  | nil =>
      obtain rfl : [] = obj := by simpa using h
      rfl
  | cons member members ih =>
      rw [List.mapM_cons] at h
      obtain ⟨⟨key, field⟩, hmember, h⟩ := Option.bind_eq_some_iff.mp h
      obtain ⟨fields, hfields, h⟩ := Option.bind_eq_some_iff.mp h
      obtain rfl : (key, field) :: fields = obj := by simpa using h
      obtain ⟨field', hfield, heq⟩ := Option.map_eq_some_iff.mp hmember
      obtain ⟨rfl, rfl⟩ := Prod.mk.inj heq
      obtain ⟨name', value⟩ := member
      have hrest := ih hfields
      unfold ParsedObject.get? at hrest ⊢
      by_cases hname : name = name'
      · subst hname
        simp [hfield]
      · have hutf8 : (utf8 name == utf8 name') = false :=
          beq_false_of_ne fun h => hname (utf8_injective h)
        have hbeq : (name == name') = false := beq_false_of_ne hname
        simpa [List.lookup_cons, hutf8, hbeq] using hrest

/-- Every field of a parsed text has the name of a member. -/
theorem name_of_mapM {members : List (String × Scalar)} {obj : ParsedObject}
    (h : members.mapM engineMember = some obj) {field : Bytes × FieldValue} (hfield : field ∈ obj) :
    ∃ name ∈ members.map Prod.fst, field.1 = utf8 name := by
  induction members generalizing obj with
  | nil =>
      obtain rfl : [] = obj := by simpa using h
      contradiction
  | cons member members ih =>
      rw [List.mapM_cons] at h
      obtain ⟨parsed, hmember, h⟩ := Option.bind_eq_some_iff.mp h
      obtain ⟨fields, hfields, h⟩ := Option.bind_eq_some_iff.mp h
      obtain rfl : parsed :: fields = obj := by simpa using h
      rcases List.mem_cons.mp hfield with rfl | hlater
      · obtain ⟨_, -, rfl⟩ := Option.map_eq_some_iff.mp hmember
        exact ⟨member.1, by simp, rfl⟩
      · obtain ⟨name, hname, heq⟩ := ih hfields hlater
        exact ⟨name, List.mem_cons_of_mem _ hname, heq⟩

/-- Members that the engine knows become fields. -/
theorem exists_mapM {members : List (String × Scalar)}
    (h : ∀ m ∈ members, (engineField m.2).isSome) :
    ∃ obj, members.mapM engineMember = some obj := by
  induction members with
  | nil => exact ⟨[], rfl⟩
  | cons member members ih =>
      obtain ⟨hmember, hmembers⟩ := List.forall_mem_cons.mp h
      obtain ⟨field, hfield⟩ := Option.isSome_iff_exists.mp hmember
      obtain ⟨fields, hfields⟩ := ih hmembers
      exact ⟨(utf8 member.1, field) :: fields, by
        simp [engineMember, hfield, hfields]⟩

/-- A text that fits the engine: readable, and at most 128 bytes long. -/
def FitsEngine (s : String) : Prop :=
  IsReadable s ∧ (utf8 s).length ≤ 128

instance (s : String) : Decidable (FitsEngine s) := inferInstanceAs (Decidable (_ ∧ _))

/-- A string field is taken exactly when its text fits the engine. -/
theorem requiredString_eq_ok_iff {obj : ParsedObject} {name b : Bytes} {s : String}
    (hget : obj.get? name = engineField (.str s)) (hne : 1 ≤ s.length) :
    requiredString obj name = .ok b ↔ FitsEngine s ∧ b = utf8 s := by
  have hbytes : utf8 s ≠ [] := by
    have hle := length_le_length_utf8 s
    rw [String.length_toList] at hle
    exact List.ne_nil_of_length_pos (by omega)
  unfold requiredString
  rw [hget, engineField]
  by_cases hs : IsReadable s
  · have htoken : parseJsonStringToken (encode ('"' :: stringBody Ingress.unicodeEscape s)) =
        some (utf8 s, []) := by
      have hbody := parseStringBody_stringBody s []
      rw [if_pos hs, List.append_nil] at hbody
      rw [encode_cons (by decide), parseJsonStringToken, if_pos rfl, hbody]
    simp only [hs, if_true, Bool.not_true, Bool.false_eq_true, if_false, htoken, hbytes, false_or]
    split
    · rename_i hlong
      constructor
      · intro h
        contradiction
      · rintro ⟨⟨-, hfits⟩, -⟩
        omega
    · rename_i hshort
      rw [Except.ok.injEq]
      exact ⟨fun h => ⟨⟨hs, not_lt.mp hshort⟩, h.symm⟩, fun h => h.2.symm⟩
  · simp [hs, FitsEngine]

/-- A printed integer is read back when it has 64 bits. -/
theorem fromChars_intDigits {n m : Int} :
    fromChars (intDigits n) = some m ↔ IsInt64 n ∧ n = m := by
  have hall : ∀ k, (natDigits k).all isDigit = true := fun k =>
    List.all_eq_true.mpr fun b hb => isDigit_of_mem_natDigits hb
  have hminus : ∀ k, (natDigits k).head? ≠ some (ascii '-') := by
    intro k hhead
    have hdigit := isDigit_of_mem_natDigits (List.mem_of_mem_head? hhead)
    contradiction
  cases n with
  | ofNat k =>
      have hread : fromChars (natDigits k) =
          if -2 ^ 63 ≤ (k : Int) ∧ (k : Int) < 2 ^ 63 then some (k : Int) else none := by
        simp [fromChars, hminus, hall, natDigits_ne_nil]
      rw [intDigits, hread, Option.ite_none_right_eq_some, Option.some.injEq]
      rfl
  | negSucc k =>
      have hvalue : -((k + 1 : Nat) : Int) = .negSucc k := rfl
      have hread : fromChars (ascii '-' :: natDigits (k + 1)) =
          if -2 ^ 63 ≤ Int.negSucc k ∧ Int.negSucc k < 2 ^ 63 then some (.negSucc k) else none := by
        simp only [fromChars, List.head?_cons, if_true, List.drop_one, List.tail_cons, hall,
          natDigits_ne_nil, digitsValue_natDigits, hvalue]
        simp
      rw [intDigits, hread, Option.ite_none_right_eq_some, Option.some.injEq]
      rfl

/-- An integer field is taken exactly when it has 64 bits. -/
theorem requiredI64_eq_ok_iff {obj : ParsedObject} {name : Bytes} {n m : Int}
    (hget : obj.get? name = engineField (.int n)) :
    requiredI64 obj name = .ok m ↔ IsInt64 n ∧ n = m := by
  rw [← fromChars_intDigits]
  unfold requiredI64
  rw [hget, engineField]
  simp only [Bool.false_eq_true, if_false]
  cases fromChars (intDigits n) <;> simp

end Wire
end BettingPlatform
