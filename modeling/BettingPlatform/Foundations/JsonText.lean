import BettingPlatform.Foundations.Binary64
import BettingPlatform.Foundations.Bytes
import BettingPlatform.Foundations.DecimalText
import BettingPlatform.Foundations.Uuid

/-!
# JSON texts

`json.loads` on a text, and the compact texts of flat objects that the platform's
services write: no space, members in order, strings with an escape for every character
that needs one.

The scanner takes fuel for its nesting; `loads` gives it the length of the text, which no
nesting exceeds.  A lone surrogate in a `\u` escape has no counterpart among the
characters, so the scanner refuses it here; the validation behind `json.loads` refuses it
in every field.

Main results:

- Theorem `scanString_escaped`: a string that was written with escapes reads back.
- Theorem `loads_objectText`: `json.loads` of a flat object's text has its members.
-/

namespace BettingPlatform
namespace Python

/-! ## Strings -/

/-- What a string token is made of: characters, and the code units of `\u` escapes. -/
inductive Piece
  | char (c : Char)
  | unit (n : Nat)
deriving DecidableEq

/-- The character of a one-letter escape. -/
def unescapeChar (e : Char) : Option Char :=
  if e = '"' ∨ e = '\\' ∨ e = '/' then some e
  else if e = 'b' then some '\x08'
  else if e = 'f' then some '\x0C'
  else if e = 'n' then some '\n'
  else if e = 'r' then some '\r'
  else if e = 't' then some '\t'
  else none

/-- The pieces of a string token behind its opening quote, and what follows its end. -/
def scanPieces : List Char → Option (List Piece × List Char)
  | [] => none
  | c :: cs =>
      if c = '"' then some ([], cs)
      else if c = '\\' then
        match cs with
        | [] => none
        | e :: cs =>
            if e = 'u' then
              match cs with
              | d₁ :: d₂ :: d₃ :: d₄ :: cs => do
                  let n ← ofHex [d₁, d₂, d₃, d₄]
                  let (pieces, rest) ← scanPieces cs
                  some (.unit n :: pieces, rest)
              | _ => none
            else do
              let d ← unescapeChar e
              let (pieces, rest) ← scanPieces cs
              some (.char d :: pieces, rest)
      else if c.toNat < 0x20 then none
      else do
        let (pieces, rest) ← scanPieces cs
        some (.char c :: pieces, rest)

/-- `0xD800 <= n <= 0xDBFF`. -/
def isHighSurrogate (n : Nat) : Bool :=
  0xD800 ≤ n && n ≤ 0xDBFF

/-- `0xDC00 <= n <= 0xDFFF`. -/
def isLowSurrogate (n : Nat) : Bool :=
  0xDC00 ≤ n && n ≤ 0xDFFF

/-- The characters of the pieces; two surrogates in a row are one character.  A surrogate without
its other half, which a Python string may hold, is no character, and the text is refused. -/
def joinPieces : List Piece → Option (List Char)
  | [] => some []
  | .char c :: pieces => (joinPieces pieces).map (c :: ·)
  | .unit high :: .unit low :: pieces =>
      if isHighSurrogate high ∧ isLowSurrogate low then
        (joinPieces pieces).map
          (Char.ofNat (0x10000 + (high - 0xD800) * 0x400 + (low - 0xDC00)) :: ·)
      else if isHighSurrogate high ∨ isLowSurrogate high then none
      else (joinPieces (.unit low :: pieces)).map (Char.ofNat high :: ·)
  | .unit n :: pieces =>
      if isHighSurrogate n ∨ isLowSurrogate n then none
      else (joinPieces pieces).map (Char.ofNat n :: ·)

/-- The characters of a string token behind its opening quote, and what follows it. -/
def scanChars (cs : List Char) : Option (List Char × List Char) := do
  let (pieces, rest) ← scanPieces cs
  let chars ← joinPieces pieces
  some (chars, rest)

/-- A string token behind its opening quote. -/
def scanString (cs : List Char) : Option (String × List Char) :=
  (scanChars cs).map fun (chars, rest) => (String.ofList chars, rest)

/-! ## Numbers -/

/-- The digits behind a point, when there are any. -/
def scanFraction (cs : List Char) : Option (List Char × List Char) :=
  match cs with
  | '.' :: rest =>
      let digits := rest.takeWhile Char.isDigit
      if digits = [] then none else some (digits, rest.dropWhile Char.isDigit)
  | _ => none

/-- The value of an exponent part, when there is one. -/
def scanExponent (cs : List Char) : Option (Int × List Char) :=
  match cs with
  | [] => none
  | c :: rest =>
      if c = 'e' ∨ c = 'E' then
        let (negative, body) := Decimal.splitSign rest
        let digits := body.takeWhile Char.isDigit
        let magnitude : Int := Nat.ofDigitChars 10 digits 0
        if digits = [] then none
        else some (if negative then -magnitude else magnitude, body.dropWhile Char.isDigit)
      else none

/-- The digits before the point: a leading zero stands alone. -/
def scanInteger (cs : List Char) : List Char × List Char :=
  match cs with
  | '0' :: rest => (['0'], rest)
  | _ => (cs.takeWhile Char.isDigit, cs.dropWhile Char.isDigit)

/-- A number without its sign: an `int`, or a `float` when it has a fraction or an
exponent. -/
def scanMagnitude (negative : Bool) (cs : List Char) : Option (Json × List Char) :=
  let (int, rest) := scanInteger cs
  if int = [] then none
  else
    match scanFraction rest, scanExponent ((scanFraction rest).elim rest Prod.snd) with
    | none, none =>
        let magnitude : Int := Nat.ofDigitChars 10 int 0
        if maxStrDigits < int.length then none
        else some (.int (if negative then -magnitude else magnitude), rest)
    | frac, exponent =>
        let fracDigits := frac.elim [] Prod.fst
        let exp : Int := exponent.elim 0 Prod.fst - fracDigits.length
        let coeff := Nat.ofDigitChars 10 (int ++ fracDigits) 0
        let value := PyFloat.ofRatio negative (coeff * 10 ^ exp.toNat) (10 ^ (-exp).toNat)
        some (.float value, exponent.elim (frac.elim rest Prod.snd) Prod.snd)

/-- A number. -/
def scanNumber (cs : List Char) : Option (Json × List Char) :=
  match cs with
  | '-' :: rest => scanMagnitude true rest
  | _ => scanMagnitude false cs

/-! ## Values -/

/-- The characters skipped between tokens. -/
def isJsonSpace (c : Char) : Bool :=
  c = ' ' || c = '\t' || c = '\n' || c = '\r'

def skipSpace (cs : List Char) : List Char :=
  cs.dropWhile isJsonSpace

/-- The words that are values. -/
def constants : List (String × Json) :=
  [("null", .null), ("true", .bool true), ("false", .bool false), ("NaN", .float .nan),
    ("Infinity", .float (.infinity false)), ("-Infinity", .float (.infinity true))]

/-- `items[key] = value`: an old value is replaced where it stands. -/
def setItem (items : List (String × Json)) (key : String) (value : Json) :
    List (String × Json) :=
  if items.any fun item => item.1 = key then
    items.map fun item => if item.1 = key then (key, value) else item
  else items ++ [(key, value)]

mutual

/-- `scan_once`: the value a text begins with, and what follows it. -/
def scanValue : Nat → List Char → Option (Json × List Char)
  | 0, _ => none
  | _ + 1, [] => none
  | fuel + 1, c :: cs =>
      if c = '"' then do
        let (s, rest) ← scanString cs
        some (.str s, rest)
      else if c = '\x7b' then
        match skipSpace cs with
        | [] => none
        | d :: rest =>
            if d = '\x7d' then some (.dict [], rest)
            else do
              let (items, rest) ← scanMembers fuel [] (d :: rest)
              some (.dict items, rest)
      else if c = '[' then
        match skipSpace cs with
        | [] => none
        | d :: rest =>
            if d = ']' then some (.list [], rest)
            else do
              let (items, rest) ← scanItems fuel [] (d :: rest)
              some (.list items, rest)
      else
        match constants.find? fun word => word.1.toList.isPrefixOf (c :: cs) with
        | some (word, value) => some (value, (c :: cs).drop word.length)
        | none => scanNumber (c :: cs)

/-- The members of an object, from a key on. -/
def scanMembers : Nat → List (String × Json) → List Char →
    Option (List (String × Json) × List Char)
  | 0, _, _ => none
  | _ + 1, _, [] => none
  | fuel + 1, items, c :: cs =>
      if c ≠ '"' then none
      else do
        let (key, rest) ← scanString cs
        match skipSpace rest with
        | [] => none
        | colon :: rest =>
            if colon ≠ ':' then none
            else do
              let (value, rest) ← scanValue fuel (skipSpace rest)
              match skipSpace rest with
              | [] => none
              | d :: rest =>
                  if d = ',' then scanMembers fuel (setItem items key value) (skipSpace rest)
                  else if d = '\x7d' then some (setItem items key value, rest)
                  else none

/-- The items of an array, from a value on. -/
def scanItems : Nat → List Json → List Char → Option (List Json × List Char)
  | 0, _, _ => none
  | fuel + 1, items, cs => do
      let (value, rest) ← scanValue fuel cs
      match skipSpace rest with
      | [] => none
      | d :: rest =>
          if d = ',' then scanItems fuel (items ++ [value]) (skipSpace rest)
          else if d = ']' then some (items ++ [value], rest)
          else none

end

/-- `json.loads`; `none` is `JSONDecodeError`. -/
def loads (cs : List Char) : Option Json := do
  let (value, rest) ← scanValue (cs.length + 1) (skipSpace cs)
  if skipSpace rest = [] then some value else none

/-! ## Writing flat objects -/

/-- The value of a member of a flat object. -/
inductive Scalar
  | str (s : String)
  | int (n : Int)
  | bool (b : Bool)
deriving DecidableEq, Repr

/-- The letter of the short escape of a character. -/
def shortEscape (c : Char) : Option Char :=
  if c = '"' then some '"'
  else if c = '\\' then some '\\'
  else if c = '\x08' then some 'b'
  else if c = '\x0C' then some 'f'
  else if c = '\n' then some 'n'
  else if c = '\r' then some 'r'
  else if c = '\t' then some 't'
  else none

/-- The decimal numeral of an integer. -/
def intText : Int → List Char
  | .ofNat n => Nat.toDigits 10 n
  | .negSucc n => '-' :: Nat.toDigits 10 (n + 1)

section Writer

variable (control : Char → List Char)

/-- A character inside a string token; `control` writes the control characters that have
no short escape. -/
def escapeChar (c : Char) : List Char :=
  match shortEscape c with
  | some e => ['\\', e]
  | none => if c.toNat < 0x20 then control c else [c]

/-- A string token behind its opening quote. -/
def stringBody (s : String) : List Char :=
  s.toList.flatMap (escapeChar control) ++ ['"']

/-- The text of a member's value. -/
def Scalar.text : Scalar → List Char
  | .str s => '"' :: stringBody control s
  | .int n => intText n
  | .bool b => if b then "true".toList else "false".toList

/-- A member whose name needs no escape. -/
def memberText (member : String × Scalar) : List Char :=
  '"' :: member.1.toList ++ '"' :: ':' :: member.2.text control

/-- The members behind the first one. -/
def laterMembers (members : List (String × Scalar)) : List Char :=
  members.flatMap fun member => ',' :: memberText control member

/-- The compact text of a flat object. -/
def objectText : List (String × Scalar) → List Char
  | [] => ['\x7b', '\x7d']
  | member :: members =>
      '\x7b' :: memberText control member ++ laterMembers control members ++ ['\x7d']

end Writer

/-! ## Numerals -/

/-- A numeral is made of digits and a sign. -/
theorem mem_intText {n : Int} {c : Char} (h : c ∈ intText n) : c = '-' ∨ c.isDigit := by
  cases n with
  | ofNat n => exact .inr (Nat.isDigit_of_mem_toDigits (by decide) (by decide) h)
  | negSucc n =>
      rcases List.mem_cons.mp h with rfl | h
      · exact .inl rfl
      · exact .inr (Nat.isDigit_of_mem_toDigits (by decide) (by decide) h)

/-- Different numbers have different digits. -/
theorem toDigits_injective {m n : Nat} (h : Nat.toDigits 10 m = Nat.toDigits 10 n) : m = n := by
  have hvalue := congrArg (fun cs => Nat.ofDigitChars 10 cs 0) h
  simpa [Nat.ofDigitChars_toDigits] using hvalue

/-- A numeral denotes one integer. -/
theorem intText_injective {m n : Int} (h : intText m = intText n) : m = n := by
  have hunsigned : ∀ (k : Nat) (cs : List Char), Nat.toDigits 10 k ≠ '-' :: cs := by
    intro k cs hk
    have hmem : '-' ∈ Nat.toDigits 10 k := hk ▸ List.mem_cons_self
    exact absurd (Nat.isDigit_of_mem_toDigits (by decide) (by decide) hmem) (by decide)
  cases m with
  | ofNat m =>
      cases n with
      | ofNat n => exact congrArg Int.ofNat (toDigits_injective h)
      | negSucc n => exact absurd h (hunsigned m _)
  | negSucc m =>
      cases n with
      | ofNat n => exact absurd h.symm (hunsigned n _)
      | negSucc n =>
          have hsucc := toDigits_injective (List.cons.inj h).2
          exact congrArg Int.negSucc (Nat.succ.inj hsucc)

/-! ## Reading strings back -/

/-- A character that needs no escape is read as it stands. -/
theorem scanPieces_plain {c : Char} (hquote : c ≠ '"') (hbackslash : c ≠ '\\')
    (hprintable : 0x20 ≤ c.toNat) (rest : List Char) :
    scanPieces (c :: rest) = (scanPieces rest).map fun r => (.char c :: r.1, r.2) := by
  rw [scanPieces.eq_def]
  simp only [hquote, hbackslash, not_lt.mpr hprintable, if_false]
  cases scanPieces rest <;> rfl

/-- A short escape is read as its character. -/
theorem scanPieces_short {c e : Char} (h : shortEscape c = some e) (rest : List Char) :
    scanPieces ('\\' :: e :: rest) = (scanPieces rest).map fun r => (.char c :: r.1, r.2) := by
  have hletter : e ≠ 'u' ∧ unescapeChar e = some c := by
    unfold shortEscape at h
    split_ifs at h <;> (obtain rfl := Option.some.inj h; subst_vars; decide)
  rw [scanPieces.eq_def]
  simp only [hletter, if_true, if_false, show ('\\' : Char) ≠ '"' by decide]
  cases scanPieces rest <;> rfl

/-- A piece that is a character comes first among the characters. -/
theorem scanChars_of_char {c : Char} {cs rest : List Char}
    (h : scanPieces cs = (scanPieces rest).map fun r => (.char c :: r.1, r.2)) :
    scanChars cs = (scanChars rest).map fun r => (c :: r.1, r.2) := by
  unfold scanChars
  rw [h]
  cases scanPieces rest with
  | none => rfl
  | some r =>
      obtain ⟨pieces, rest'⟩ := r
      cases hjoin : joinPieces pieces <;> simp [joinPieces, hjoin]

/-- A quote ends the token. -/
theorem scanChars_quote (rest : List Char) : scanChars ('"' :: rest) = some ([], rest) := by
  have hpieces : scanPieces ('"' :: rest) = some ([], rest) := by
    rw [scanPieces.eq_def]
    simp
  simp [scanChars, hpieces, joinPieces]

/-- How the control characters that `control` writes are read. -/
def Reads (control : Char → List Char) (read : Char → Char) : Prop :=
  ∀ c rest, c.toNat < 0x20 →
    scanChars (control c ++ rest) = (scanChars rest).map fun r => (read c :: r.1, r.2)

/-- The character a written character is read as. -/
def readChar (read : Char → Char) (c : Char) : Char :=
  if c.toNat < 0x20 ∧ shortEscape c = none then read c else c

section Reader

variable {control : Char → List Char} {read : Char → Char}

/-- An escaped character is read as the decoder reads it. -/
theorem scanChars_escapeChar (hcontrol : Reads control read) (c : Char) (rest : List Char) :
    scanChars (escapeChar control c ++ rest) =
      (scanChars rest).map fun r => (readChar read c :: r.1, r.2) := by
  unfold escapeChar readChar
  cases hshort : shortEscape c with
  | some e => simpa using scanChars_of_char (scanPieces_short hshort rest)
  | none =>
      by_cases hprintable : c.toNat < 0x20
      · simpa [hprintable] using hcontrol c rest hprintable
      · have hquote : c ≠ '"' := by
          rintro rfl
          contradiction
        have hbackslash : c ≠ '\\' := by
          rintro rfl
          contradiction
        simpa [hprintable] using
          scanChars_of_char (scanPieces_plain hquote hbackslash (not_lt.mp hprintable) rest)

/-- A string that was written with escapes reads back. -/
theorem scanString_escaped (hcontrol : Reads control read) (s : String) (rest : List Char) :
    scanString (stringBody control s ++ rest) =
      some (String.ofList (s.toList.map (readChar read)), rest) := by
  suffices hchars : ∀ cs : List Char,
      scanChars (cs.flatMap (escapeChar control) ++ '"' :: rest) =
        some (cs.map (readChar read), rest) by
    simp [scanString, stringBody, hchars]
  intro cs
  induction cs with
  | nil => exact scanChars_quote rest
  | cons c cs ih =>
      rw [List.flatMap_cons, List.append_assoc, scanChars_escapeChar hcontrol, ih]
      rfl

/-- A name that needs no escape. -/
def PlainName (name : String) : Prop :=
  ∀ c ∈ name.toList, c ≠ '"' ∧ c ≠ '\\' ∧ 0x20 ≤ c.toNat

instance (name : String) : Decidable (PlainName name) :=
  List.decidableBAll _ _

/-- A name without escapes is read as it stands. -/
theorem scanString_plain {name : String} (hname : PlainName name) (rest : List Char) :
    scanString (name.toList ++ '"' :: rest) = some (name, rest) := by
  suffices hchars : ∀ cs : List Char, (∀ c ∈ cs, c ≠ '"' ∧ c ≠ '\\' ∧ 0x20 ≤ c.toNat) →
      scanChars (cs ++ '"' :: rest) = some (cs, rest) by
    simp [scanString, hchars name.toList hname]
  intro cs hcs
  induction cs with
  | nil => exact scanChars_quote rest
  | cons c cs ih =>
      obtain ⟨hquote, hbackslash, hprintable⟩ := hcs c List.mem_cons_self
      rw [List.cons_append, scanChars_of_char (scanPieces_plain hquote hbackslash hprintable _),
        ih fun d hd => hcs d (List.mem_cons_of_mem _ hd)]
      rfl

/-! ## Reading members back -/

/-- The value a written member is read as. -/
def Scalar.json (read : Char → Char) : Scalar → Json
  | .str s => .str (String.ofList (s.toList.map (readChar read)))
  | .int n => .int n
  | .bool b => .bool b

/-- The values that `json.loads` reads: integers have a limited number of digits. -/
def Scalar.Readable : Scalar → Prop
  | .int n => Decimal.numDigits n.natAbs ≤ maxStrDigits
  | _ => True

instance (value : Scalar) : Decidable value.Readable :=
  match value with
  | .str _ => isTrue trivial
  | .int n => inferInstanceAs (Decidable (Decimal.numDigits n.natAbs ≤ maxStrDigits))
  | .bool _ => isTrue trivial

/-- The characters that may follow a member's value. -/
def EndsMember (d : Char) : Prop :=
  d = ',' ∨ d = '\x7d'

theorem EndsMember.not_number {d : Char} (hd : EndsMember d) :
    d.isDigit = false ∧ d ≠ '.' ∧ d ≠ 'e' ∧ d ≠ 'E' ∧ isJsonSpace d = false := by
  rcases hd with rfl | rfl <;> decide

/-- An integer is scanned up to the first character that is no digit. -/
theorem scanInteger_toDigits (n : Nat) {d : Char} (hd : d.isDigit = false) (rest : List Char) :
    scanInteger (Nat.toDigits 10 n ++ d :: rest) = (Nat.toDigits 10 n, d :: rest) := by
  have hdigits : ∀ c ∈ Nat.toDigits 10 n, c.isDigit :=
    fun c hc => Nat.isDigit_of_mem_toDigits (by decide) (by decide) hc
  have htake : (Nat.toDigits 10 n ++ d :: rest).takeWhile Char.isDigit = Nat.toDigits 10 n := by
    rw [List.takeWhile_append_of_pos hdigits, List.takeWhile_cons, hd]
    simp
  have hdrop : (Nat.toDigits 10 n ++ d :: rest).dropWhile Char.isDigit = d :: rest := by
    rw [List.dropWhile_append_of_pos hdigits, List.dropWhile_cons, hd]
    simp
  unfold scanInteger
  split
  · rename_i rest' hcs
    obtain ⟨c, cs, hhead⟩ := List.exists_cons_of_ne_nil (Nat.toDigits_ne_nil (b := 10) (n := n))
    rw [hhead, List.cons_append] at hcs
    obtain ⟨rfl, hrest⟩ := List.cons.inj hcs
    obtain rfl := toDigits_zero_head hhead
    rw [hhead, ← hrest, List.nil_append]
  · rw [htake, hdrop]

theorem scanFraction_end {d : Char} (hd : EndsMember d) (rest : List Char) :
    scanFraction (d :: rest) = none := by
  rcases hd with rfl | rfl <;> rfl

theorem scanExponent_end {d : Char} (hd : EndsMember d) (rest : List Char) :
    scanExponent (d :: rest) = none := by
  rcases hd with rfl | rfl <;> rfl

/-- And converted, when it is short enough. -/
theorem scanMagnitude_toDigits (negative : Bool) (n : Nat) {d : Char} (hd : EndsMember d)
    (rest : List Char) :
    scanMagnitude negative (Nat.toDigits 10 n ++ d :: rest) =
      if Decimal.numDigits n ≤ maxStrDigits then
        some (.int (if negative then -n else n), d :: rest)
      else none := by
  have hvalue : Nat.ofDigitChars 10 (Nat.toDigits 10 n) 0 = n := Nat.ofDigitChars_ten_toDigits
  have hlength : (Nat.toDigits 10 n).length = Decimal.numDigits n := rfl
  unfold scanMagnitude
  rw [scanInteger_toDigits n hd.not_number.1 rest]
  simp only [scanFraction_end hd, Option.elim_none, scanExponent_end hd, Nat.toDigits_ne_nil,
    if_false, hvalue, hlength]
  by_cases hlong : maxStrDigits < Decimal.numDigits n
  · rw [if_pos hlong, if_neg (not_le.mpr hlong)]
  · rw [if_neg hlong, if_pos (not_lt.mp hlong)]

/-- A written integer reads back, unless it is too long. -/
theorem scanNumber_intText (n : Int) {d : Char} (hd : EndsMember d) (rest : List Char) :
    scanNumber (intText n ++ d :: rest) =
      if (Scalar.int n).Readable then some (.int n, d :: rest) else none := by
  cases n with
  | ofNat m =>
      have hsign : scanNumber (intText (.ofNat m) ++ d :: rest) =
          scanMagnitude false (Nat.toDigits 10 m ++ d :: rest) := by
        unfold scanNumber intText
        split
        · rename_i rest' hcs
          obtain ⟨c, cs, hhead⟩ := List.exists_cons_of_ne_nil (Nat.toDigits_ne_nil (b := 10) (n := m))
          have hdigit : c.isDigit :=
            Nat.isDigit_of_mem_toDigits (b := 10) (n := m) (by decide) (by decide) (by simp [hhead])
          have hminus : c :: (cs ++ d :: rest) = '-' :: rest' := by
            rw [← List.cons_append, ← hhead]
            exact hcs
          obtain rfl := (List.cons.inj hminus).1
          contradiction
        · rfl
      rw [hsign, scanMagnitude_toDigits false m hd]
      rfl
  | negSucc m =>
      have hsign : scanNumber (intText (.negSucc m) ++ d :: rest) =
          scanMagnitude true (Nat.toDigits 10 (m + 1) ++ d :: rest) := rfl
      rw [hsign, scanMagnitude_toDigits true (m + 1) hd]
      rfl

/-- A digit begins no other value. -/
theorem scanValue_digit {c : Char} (hc : c.isDigit) (fuel : Nat) (cs : List Char) :
    scanValue (fuel + 1) (c :: cs) = scanNumber (c :: cs) ∧
      scanValue (fuel + 1) ('-' :: c :: cs) = scanNumber ('-' :: c :: cs) := by
  have hne : ∀ d : Char, d.isDigit = false → c ≠ d := by
    rintro d hd rfl
    rw [hc] at hd
    contradiction
  have hfirst : ∀ {a d : Char} {as ds : List Char}, a ≠ d →
      (a :: as).isPrefixOf (d :: ds) = false := by
    intro a d as ds had
    simp [List.isPrefixOf, had]
  have hinfinity : ('I' :: "nfinity".toList).isPrefixOf (c :: cs) = false :=
    hfirst (hne 'I' rfl).symm
  have hword : ∀ word ∈ constants, (word.1.toList.isPrefixOf (c :: cs) = false) ∧
      word.1.toList.isPrefixOf ('-' :: c :: cs) = false := by
    simp only [constants, List.forall_mem_cons, List.not_mem_nil, false_implies, implies_true,
      and_true]
    exact ⟨⟨hfirst (hne 'n' rfl).symm, hfirst (by decide)⟩,
      ⟨hfirst (hne 't' rfl).symm, hfirst (by decide)⟩,
      ⟨hfirst (hne 'f' rfl).symm, hfirst (by decide)⟩,
      ⟨hfirst (hne 'N' rfl).symm, hfirst (by decide)⟩,
      ⟨hfirst (hne 'I' rfl).symm, hfirst (by decide)⟩,
      ⟨hfirst (hne '-' rfl).symm, hinfinity⟩⟩
  constructor
  · rw [scanValue, if_neg (hne _ rfl), if_neg (hne _ rfl), if_neg (hne _ rfl),
      List.find?_eq_none.mpr fun word hmem => by simp [(hword word hmem).1]]
  · rw [scanValue, if_neg (by decide), if_neg (by decide), if_neg (by decide),
      List.find?_eq_none.mpr fun word hmem => by simp [(hword word hmem).2]]

/-- A value that begins like an integer is a number. -/
theorem scanValue_intText (n : Int) (fuel : Nat) (rest : List Char) :
    scanValue (fuel + 1) (intText n ++ rest) = scanNumber (intText n ++ rest) := by
  have hhead : ∀ m, ∃ c cs, Nat.toDigits 10 m = c :: cs ∧ c.isDigit := by
    intro m
    obtain ⟨c, cs, hcs⟩ := List.exists_cons_of_ne_nil (Nat.toDigits_ne_nil (b := 10) (n := m))
    exact ⟨c, cs, hcs,
      Nat.isDigit_of_mem_toDigits (b := 10) (n := m) (by decide) (by decide) (by simp [hcs])⟩
  cases n with
  | ofNat m =>
      obtain ⟨c, cs, hcs, hc⟩ := hhead m
      simp only [intText, hcs, List.cons_append]
      exact (scanValue_digit hc fuel _).1
  | negSucc m =>
      obtain ⟨c, cs, hcs, hc⟩ := hhead (m + 1)
      simp only [intText, hcs, List.cons_append]
      exact (scanValue_digit hc fuel _).2

/-- A written value reads back. -/
theorem scanValue_text (hcontrol : Reads control read) (value : Scalar) (fuel : Nat) {d : Char}
    (hd : EndsMember d) (rest : List Char) :
    scanValue (fuel + 1) (value.text control ++ d :: rest) =
      if value.Readable then some (value.json read, d :: rest) else none := by
  cases value with
  | str s =>
      rw [if_pos (show (Scalar.str s).Readable from trivial), Scalar.text, List.cons_append,
        scanValue, if_pos rfl, scanString_escaped hcontrol]
      rfl
  | int n =>
      rw [Scalar.text, scanValue_intText, scanNumber_intText n hd rest]
      rfl
  | bool b =>
      rw [if_pos (show (Scalar.bool b).Readable from trivial)]
      cases b <;> rfl

theorem skipSpace_cons {c : Char} (hc : isJsonSpace c = false) (cs : List Char) :
    skipSpace (c :: cs) = c :: cs := by
  simp [skipSpace, hc]

/-- A value's text does not begin with a space. -/
theorem skipSpace_text (value : Scalar) (rest : List Char) :
    skipSpace (value.text control ++ rest) = value.text control ++ rest := by
  have hdigits : ∀ (n : Nat) (cs : List Char),
      skipSpace (Nat.toDigits 10 n ++ cs) = Nat.toDigits 10 n ++ cs := by
    intro n cs
    obtain ⟨c, ds, hds⟩ := List.exists_cons_of_ne_nil (Nat.toDigits_ne_nil (b := 10) (n := n))
    have hc : c.isDigit :=
      Nat.isDigit_of_mem_toDigits (b := 10) (n := n) (by decide) (by decide) (by simp [hds])
    rw [hds, List.cons_append]
    refine skipSpace_cons ?_ _
    by_contra hspace
    simp only [isJsonSpace, Bool.not_eq_false, Bool.or_eq_true, decide_eq_true_eq] at hspace
    rcases hspace with ((rfl | rfl) | rfl) | rfl <;> contradiction
  cases value with
  | str s => exact skipSpace_cons rfl _
  | int n =>
      cases n with
      | ofNat m => exact hdigits m rest
      | negSucc m => exact skipSpace_cons rfl _
  | bool b => cases b <;> exact skipSpace_cons rfl _

/-- One member reads back, and the scan goes on behind it. -/
theorem scanMembers_member (hcontrol : Reads control read) {member : String × Scalar}
    (hname : PlainName member.1) {items : List (String × Json)}
    (hnew : ∀ item ∈ items, item.1 ≠ member.1) (fuel : Nat) {d : Char} (hd : EndsMember d)
    (rest : List Char) :
    scanMembers (fuel + 2) items (memberText control member ++ d :: rest) =
      if member.2.Readable then
        if d = ',' then
          scanMembers (fuel + 1) (items ++ [(member.1, member.2.json read)]) (skipSpace rest)
        else some (items ++ [(member.1, member.2.json read)], rest)
      else none := by
  obtain ⟨name, value⟩ := member
  have hset : ∀ x, setItem items name x = items ++ [(name, x)] := by
    intro x
    rw [setItem, if_neg]
    simp only [List.any_eq_true, decide_eq_true_eq, not_exists, not_and]
    exact hnew
  simp only [memberText, List.cons_append, List.append_assoc]
  rw [scanMembers, if_neg (by simp)]
  simp only [scanString_plain hname, Option.bind_eq_bind, Option.bind_some,
    skipSpace_cons (c := ':') rfl, ne_eq, not_true_eq_false, if_false, skipSpace_text,
    scanValue_text hcontrol value fuel hd]
  split
  · simp only [Option.bind_some, skipSpace_cons hd.not_number.2.2.2.2, hset]
    rcases hd with rfl | rfl
    · simp
    · simp
  · rfl

/-- The members of a flat object read back, unless an integer among them is too long. -/
theorem scanMembers_text (hcontrol : Reads control read) {member : String × Scalar}
    {members : List (String × Scalar)} (hnames : ∀ m ∈ member :: members, PlainName m.1)
    {items : List (String × Json)}
    (hnew : (items.map Prod.fst ++ (member :: members).map Prod.fst).Nodup) {fuel : Nat}
    (hfuel : members.length < fuel) (rest : List Char) :
    scanMembers (fuel + 1) items
        (memberText control member ++ laterMembers control members ++ '\x7d' :: rest) =
      if ∀ m ∈ member :: members, m.2.Readable then
        some (items ++ (member :: members).map fun m => (m.1, m.2.json read), rest)
      else none := by
  have hfresh : ∀ {m : String × Scalar} {ms : List (String × Scalar)}
      {items : List (String × Json)},
      (items.map Prod.fst ++ (m :: ms).map Prod.fst).Nodup → ∀ item ∈ items, item.1 ≠ m.1 := by
    intro m ms items hnodup item hitem
    exact (List.nodup_append.mp hnodup).2.2 item.1 (List.mem_map_of_mem hitem) m.1 (by simp)
  induction members generalizing member items fuel with
  | nil =>
      obtain ⟨fuel, rfl⟩ := Nat.exists_eq_succ_of_ne_zero (Nat.ne_zero_of_lt hfuel)
      have hscan := scanMembers_member hcontrol (hnames member List.mem_cons_self) (hfresh hnew)
        fuel (Or.inr rfl) rest
      simp only [laterMembers, List.flatMap_nil, List.append_nil, List.forall_mem_singleton]
      rw [hscan]
      simp
  | cons next members ih =>
      obtain ⟨fuel, rfl⟩ := Nat.exists_eq_succ_of_ne_zero (Nat.ne_zero_of_lt hfuel)
      obtain ⟨hplain, hlater⟩ := List.forall_mem_cons.mp hnames
      have htext : memberText control member ++ laterMembers control (next :: members) ++
          '\x7d' :: rest = memberText control member ++ ',' ::
            (memberText control next ++ laterMembers control members ++ '\x7d' :: rest) := by
        simp [laterMembers]
      have hspace : skipSpace
          (memberText control next ++ laterMembers control members ++ '\x7d' :: rest) =
            memberText control next ++ laterMembers control members ++ '\x7d' :: rest :=
        skipSpace_cons rfl _
      have hnew' : ((items ++ [(member.1, member.2.json read)]).map Prod.fst ++
          (next :: members).map Prod.fst).Nodup := by
        simpa using hnew
      rw [htext, scanMembers_member hcontrol hplain (hfresh hnew) fuel (Or.inl rfl), if_pos rfl,
        hspace, ih hlater hnew' (Nat.lt_of_succ_lt_succ hfuel)]
      have hall : (∀ m ∈ member :: next :: members, m.2.Readable) ↔
          member.2.Readable ∧ ∀ m ∈ next :: members, m.2.Readable := List.forall_mem_cons
      simp only [hall]
      by_cases hread : member.2.Readable
      · simp only [hread, true_and, if_true, List.append_assoc, List.singleton_append,
          List.map_cons]
      · simp only [hread, false_and, if_false]

/-- Every member takes at least one character, so that the fuel suffices. -/
theorem length_le_laterMembers (control : Char → List Char) (members : List (String × Scalar)) :
    members.length ≤ (laterMembers control members).length := by
  induction members with
  | nil => simp
  | cons member members ih =>
      simp only [laterMembers, List.flatMap_cons, List.length_append, List.length_cons] at ih ⊢
      omega

/-- `json.loads` of a flat object's text has its members, unless an integer among them is
too long. -/
theorem loads_objectText (hcontrol : Reads control read) {members : List (String × Scalar)}
    (hnames : ∀ m ∈ members, PlainName m.1) (hnodup : (members.map Prod.fst).Nodup) :
    loads (objectText control members) =
      if ∀ m ∈ members, m.2.Readable then
        some (.dict (members.map fun m => (m.1, m.2.json read)))
      else none := by
  cases members with
  | nil => rfl
  | cons member members =>
      obtain ⟨fuel, hlength, hfuel⟩ :
          ∃ fuel, (objectText control (member :: members)).length = fuel + 1 ∧
            members.length < fuel := by
        have hlater := length_le_laterMembers control members
        refine ⟨(memberText control member ++ laterMembers control members ++ ['\x7d']).length,
          rfl, ?_⟩
        simp only [memberText, List.length_append, List.length_cons]
        omega
      have hscan := scanMembers_text hcontrol hnames (show (([] : List (String × Json)).map Prod.fst ++
        (member :: members).map Prod.fst).Nodup from hnodup) hfuel []
      have htext : objectText control (member :: members) = '\x7b' ::
          (memberText control member ++ laterMembers control members ++ ['\x7d']) := rfl
      obtain ⟨body, hbody⟩ : ∃ body, memberText control member ++ laterMembers control members ++
          ['\x7d'] = '"' :: body := ⟨_, rfl⟩
      rw [hbody] at hscan htext
      have hvalue : scanValue (fuel + 2) ('\x7b' :: '"' :: body) =
          (scanMembers (fuel + 1) [] ('"' :: body)).map fun r => (.dict r.1, r.2) := by
        rw [scanValue, if_neg (by decide), if_pos rfl, skipSpace_cons rfl]
        simp only [show ('"' : Char) ≠ '\x7d' by decide, if_false]
        cases scanMembers (fuel + 1) [] ('"' :: body) <;> rfl
      rw [loads, hlength, htext, skipSpace_cons rfl, hvalue, hscan]
      split <;> rfl

end Reader

end Python
end BettingPlatform
