import Mathlib.Data.Nat.Digits.Defs
import Mathlib.Data.List.Basic

/-!
# Byte strings, UTF-8 and decimal numerals

The C++ side of the platform works on bytes, the Python side on sequences of Unicode
scalar values.  This file relates the two through UTF-8 and gives the decimal
numerals both sides print.

Main results:

- Theorem `utf8Decode_eq_some_iff`: decoding succeeds exactly on encodings.
- Theorem `le_of_mem_utf8EncodeChar`: a character outside ASCII has no ASCII byte in
  its encoding, so a scan for ASCII delimiters may work on bytes.
- Theorem `isUtf8_append_ascii`: valid UTF-8 splits at every ASCII byte.
- Theorem `digitsValue_natDigits`: reading a printed numeral gives the number back.
-/

namespace BettingPlatform

/-- A `std::string`, a Kafka payload: a sequence of bytes. -/
abbrev Bytes := List UInt8

/-- The byte of an ASCII character. -/
abbrev ascii (c : Char) : UInt8 := c.toUInt8

/-! ## UTF-8 -/

/-- `str.encode("utf-8")`. -/
def utf8 (s : String) : Bytes :=
  s.toList.flatMap String.utf8EncodeChar

/-- `bytes.decode("utf-8")`; `none` is the decoding error. -/
def utf8Decode (b : Bytes) : Option String :=
  b.toByteArray.utf8Decode?.map fun cs => String.ofList cs.toList

theorem utf8_ofList (cs : List Char) :
    utf8 (String.ofList cs) = cs.flatMap String.utf8EncodeChar := by
  simp [utf8]

/-- The bytes of a text are those of its parts. -/
@[simp]
theorem utf8_append (s t : String) : utf8 (s ++ t) = utf8 s ++ utf8 t := by
  simp [utf8]

/-- The bytes of a text are decoded to it. -/
@[simp]
theorem utf8Decode_utf8 (s : String) : utf8Decode (utf8 s) = some s := by
  have hdecode : (utf8 s).toByteArray.utf8Decode? = some s.toList.toArray :=
    List.utf8Decode?_utf8Encode
  simp [utf8Decode, hdecode]

/-- Encoding loses nothing. -/
theorem utf8_injective {s t : String} (h : utf8 s = utf8 t) : s = t := by
  have hdecode := congrArg utf8Decode h
  simpa using hdecode

/-- Decoding succeeds exactly on encodings. -/
theorem utf8Decode_eq_some_iff {b : Bytes} {s : String} :
    utf8Decode b = some s ↔ utf8 s = b := by
  constructor
  · intro h
    obtain ⟨cs, hcs, rfl⟩ := Option.map_eq_some_iff.mp h
    have hsome : b.toByteArray.utf8Decode?.isSome := by simp [hcs]
    have hget : (b.toByteArray.utf8Decode?.get hsome).toList.utf8Encode = b.toByteArray :=
      ByteArray.utf8Encode_get_utf8Decode?
    have hbytes : cs.toList.utf8Encode = b.toByteArray := by simpa [hcs] using hget
    have hdata := congrArg (fun a => a.data.toList) hbytes
    simpa [utf8, List.utf8Encode] using hdata
  · rintro rfl
    exact utf8Decode_utf8 s

/-- An ASCII character is its own encoding. -/
theorem utf8EncodeChar_of_ascii {c : Char} (hc : c.toNat < 128) :
    String.utf8EncodeChar c = [ascii c] := by
  have hsize : c.utf8Size = 1 := by
    rw [Char.utf8Size_eq_one_iff, UInt32.le_iff_toNat_le]
    exact Nat.le_of_lt_succ hc
  exact String.utf8EncodeChar_eq_singleton hsize

/-- A character outside ASCII has no ASCII byte in its encoding. -/
theorem le_of_mem_utf8EncodeChar {c : Char} (hc : 128 ≤ c.toNat) {b : UInt8}
    (hb : b ∈ String.utf8EncodeChar c) : 128 ≤ b.toNat := by
  have hval : 128 ≤ c.val.toNat := hc
  simp only [String.utf8EncodeChar] at hb
  rw [if_neg (by omega)] at hb
  split at hb
  · simp only [List.mem_cons, List.not_mem_nil, or_false] at hb
    rcases hb with rfl | rfl <;> simp only [UInt8.toNat_ofNat'] <;> omega
  · split at hb
    · simp only [List.mem_cons, List.not_mem_nil, or_false] at hb
      rcases hb with rfl | rfl | rfl <;> simp only [UInt8.toNat_ofNat'] <;> omega
    · simp only [List.mem_cons, List.not_mem_nil, or_false] at hb
      rcases hb with rfl | rfl | rfl | rfl <;> simp only [UInt8.toNat_ofNat'] <;> omega

/-- Every character takes at least one byte. -/
theorem length_le_length_utf8 (s : String) : s.toList.length ≤ (utf8 s).length := by
  rw [utf8, List.length_flatMap]
  induction s.toList with
  | nil => simp
  | cons c cs ih =>
      have hpos := c.utf8Size_pos
      simp only [List.length_cons, List.map_cons, List.sum_cons, String.length_utf8EncodeChar]
        at ih ⊢
      omega

/-- The byte of an ASCII character has the character's code. -/
theorem toNat_ascii {c : Char} (hc : c.toNat < 128) : (ascii c).toNat = c.toNat := by
  have hval : c.val.toNat < 128 := hc
  show c.val.toUInt8.toNat = c.val.toNat
  rw [UInt32.toNat_toUInt8]
  omega

/-- A string of ASCII characters has one byte for each. -/
theorem utf8_ofList_of_ascii {cs : List Char} (hcs : ∀ c ∈ cs, c.toNat < 128) :
    utf8 (String.ofList cs) = cs.map ascii := by
  rw [utf8_ofList]
  induction cs with
  | nil => rfl
  | cons c cs ih =>
      rw [List.flatMap_cons, utf8EncodeChar_of_ascii (hcs c List.mem_cons_self),
        ih fun d hd => hcs d (List.mem_cons_of_mem _ hd)]
      rfl

/-- A text of ASCII characters. -/
def IsAscii (s : String) : Prop :=
  ∀ c ∈ s.toList, c.toNat < 128

instance (s : String) : Decidable (IsAscii s) := List.decidableBAll _ _

/-- The bytes of an ASCII text are ASCII. -/
theorem lt_of_mem_utf8 {s : String} (hs : IsAscii s) {b : UInt8} (hb : b ∈ utf8 s) :
    b.toNat < 128 := by
  obtain ⟨c, hc, hbc⟩ := List.mem_flatMap.mp hb
  have hascii := hs c hc
  rw [utf8EncodeChar_of_ascii hascii, List.mem_singleton] at hbc
  rw [hbc, toNat_ascii hascii]
  exact hascii

/-! ## Splitting UTF-8 at ASCII bytes -/

/-- A byte string that decodes. -/
def IsUtf8 (b : Bytes) : Prop :=
  ∃ s, utf8 s = b

/-- The bytes of a text are UTF-8. -/
theorem isUtf8_utf8 (s : String) : IsUtf8 (utf8 s) :=
  ⟨s, rfl⟩

/-- UTF-8 behind UTF-8 is UTF-8. -/
theorem IsUtf8.append {x y : Bytes} (hx : IsUtf8 x) (hy : IsUtf8 y) : IsUtf8 (x ++ y) := by
  obtain ⟨s, rfl⟩ := hx
  obtain ⟨t, rfl⟩ := hy
  exact ⟨s ++ t, utf8_append s t⟩

/-- An ASCII byte begins a character, so the characters before it end there. -/
theorem split_at_ascii {cs : List Char} {x y : Bytes} {b : UInt8} (hb : b.toNat < 128)
    (h : cs.flatMap String.utf8EncodeChar = x ++ b :: y) :
    ∃ cs₁ cs₂ : List Char, cs₁.flatMap String.utf8EncodeChar = x ∧
      cs₂.flatMap String.utf8EncodeChar = b :: y := by
  induction cs generalizing x with
  | nil => simp at h
  | cons c cs ih =>
      rw [List.flatMap_cons, List.append_eq_append_iff] at h
      rcases h with ⟨x', rfl, hrest⟩ | ⟨z, hc, hrest⟩
      · obtain ⟨cs₁, cs₂, rfl, hcs₂⟩ := ih hrest
        exact ⟨c :: cs₁, cs₂, List.flatMap_cons, hcs₂⟩
      · cases z with
        | nil => exact ⟨[c], cs, by simpa using hc, by simpa using hrest.symm⟩
        | cons d z =>
            obtain ⟨rfl, rfl⟩ : b = d ∧ y = z ++ cs.flatMap String.utf8EncodeChar := by
              simpa using hrest
            have hascii : c.toNat < 128 := by
              by_contra hwide
              have hle := le_of_mem_utf8EncodeChar (not_lt.mp hwide)
                (show b ∈ String.utf8EncodeChar c by simp [hc])
              omega
            rw [utf8EncodeChar_of_ascii hascii] at hc
            have hx : x = [] := by
              have hlength : 1 = x.length + (z.length + 1) := by
                simpa using congrArg List.length hc
              exact List.length_eq_zero_iff.mp (by omega)
            subst hx
            refine ⟨[], c :: cs, rfl, ?_⟩
            rw [List.flatMap_cons, utf8EncodeChar_of_ascii hascii, hc, List.nil_append,
              List.cons_append]

/-- UTF-8 splits in front of an ASCII byte. -/
theorem isUtf8_append_ascii {x y : Bytes} {b : UInt8} (hb : b.toNat < 128) :
    IsUtf8 (x ++ b :: y) ↔ IsUtf8 x ∧ IsUtf8 (b :: y) := by
  constructor
  · rintro ⟨s, hs⟩
    obtain ⟨cs₁, cs₂, hcs₁, hcs₂⟩ := split_at_ascii hb hs
    exact ⟨⟨String.ofList cs₁, by rw [utf8_ofList, hcs₁]⟩,
      ⟨String.ofList cs₂, by rw [utf8_ofList, hcs₂]⟩⟩
  · rintro ⟨hx, hy⟩
    exact hx.append hy

/-- UTF-8 splits behind an ASCII byte. -/
theorem isUtf8_cons_ascii {y : Bytes} {b : UInt8} (hb : b.toNat < 128) :
    IsUtf8 (b :: y) ↔ IsUtf8 y := by
  have hchars : ∀ n : Fin 128, (Char.ofNat n).toNat = n := by decide
  have hchar : (Char.ofNat b.toNat).toNat = b.toNat := hchars ⟨b.toNat, hb⟩
  have hbyte : utf8 (String.ofList [Char.ofNat b.toNat]) = [b] := by
    rw [utf8_ofList_of_ascii (by simp [hchar, hb])]
    have hvalue := toNat_ascii (c := Char.ofNat b.toNat) (by omega)
    simpa [hchar] using UInt8.toNat_inj.mp (hvalue.trans hchar)
  constructor
  · rintro ⟨s, hs⟩
    rw [utf8] at hs
    cases hcs : s.toList with
    | nil => simp [hcs] at hs
    | cons c cs =>
        rw [hcs, List.flatMap_cons] at hs
        have hmem : b ∈ String.utf8EncodeChar c := by
          have hpos := c.utf8Size_pos
          cases hc : String.utf8EncodeChar c with
          | nil =>
              have hlength := String.length_utf8EncodeChar c
              rw [hc, List.length_nil] at hlength
              omega
          | cons d ds =>
              rw [hc, List.cons_append] at hs
              simp [(List.cons.inj hs).1]
        have hascii : c.toNat < 128 := by
          by_contra hwide
          have hle := le_of_mem_utf8EncodeChar (not_lt.mp hwide) hmem
          omega
        rw [utf8EncodeChar_of_ascii hascii, List.singleton_append] at hs
        exact ⟨String.ofList cs, by rw [utf8_ofList, (List.cons.inj hs).2]⟩
  · rintro ⟨s, rfl⟩
    exact ⟨String.ofList [Char.ofNat b.toNat] ++ s, by rw [utf8_append, hbyte]; rfl⟩

/-- UTF-8 splits behind ASCII bytes. -/
theorem isUtf8_ascii_append {x y : Bytes} (hx : ∀ b ∈ x, b.toNat < 128) :
    IsUtf8 (x ++ y) ↔ IsUtf8 y := by
  induction x with
  | nil => rfl
  | cons b x ih =>
      rw [List.cons_append, isUtf8_cons_ascii (hx b List.mem_cons_self),
        ih fun c hc => hx c (List.mem_cons_of_mem _ hc)]

/-- UTF-8 splits behind ASCII texts. -/
theorem isUtf8_utf8_append {s : String} (hs : IsAscii s) {y : Bytes} :
    IsUtf8 (utf8 s ++ y) ↔ IsUtf8 y :=
  isUtf8_ascii_append fun _ hb => lt_of_mem_utf8 hs hb

/-- What replaces ASCII bytes by ASCII bytes has decodable results from decodable
inputs only. -/
theorem isUtf8_of_flatMap {f : UInt8 → Bytes} (hwide : ∀ b, 128 ≤ b.toNat → f b = [b])
    (hascii : ∀ b, b.toNat < 128 → f b ≠ [] ∧ ∀ c ∈ f b, c.toNat < 128) {x : Bytes}
    (h : IsUtf8 (x.flatMap f)) : IsUtf8 x := by
  -- `wide` holds the bytes of a character that has not ended yet
  suffices hwith : ∀ wide, IsUtf8 (wide ++ x.flatMap f) → IsUtf8 (wide ++ x) from hwith [] h
  clear h
  induction x with
  | nil => simp
  | cons b x ih =>
      intro wide h
      by_cases hb : b.toNat < 128
      · obtain ⟨hne, hall⟩ := hascii b hb
        obtain ⟨c, cs, hf⟩ := List.exists_cons_of_ne_nil hne
        rw [List.flatMap_cons, hf, List.cons_append,
          isUtf8_append_ascii (hall c (by simp [hf])), ← List.cons_append, ← hf,
          isUtf8_ascii_append hall] at h
        exact (isUtf8_append_ascii hb).mpr ⟨h.1, (isUtf8_cons_ascii hb).mpr (ih [] h.2)⟩
      · rw [List.flatMap_cons, hwide b (not_lt.mp hb), ← List.append_assoc] at h
        simpa using ih (wide ++ [b]) h

/-! ## Decimal numerals -/

/-- `'0' <= b && b <= '9'`. -/
def isDigit (b : UInt8) : Bool :=
  ascii '0' ≤ b && b ≤ ascii '9'

/-- The decimal digits of a natural number. -/
def natDigits (n : Nat) : Bytes :=
  (Nat.toDigits 10 n).map ascii

/-- `std::to_string` of a 64-bit integer, and Python's `str` of an `int`. -/
def intDigits : Int → Bytes
  | .ofNat n => natDigits n
  | .negSucc n => ascii '-' :: natDigits (n + 1)

/-- The number a string of digits denotes. -/
def digitsValue (ds : Bytes) : Nat :=
  ds.foldl (fun n d => 10 * n + (d.toNat - 48)) 0

theorem toNat_lt_of_isDigit {c : Char} (hc : c.isDigit) : c.toNat < 128 := by
  have h := (Char.isDigit_iff_toNat.mp hc).2
  exact Nat.lt_of_le_of_lt h (by decide)

/-- A digit's byte is a digit. -/
theorem isDigit_ascii {c : Char} (hc : c.isDigit) : isDigit (ascii c) := by
  have hcode := toNat_ascii (toNat_lt_of_isDigit hc)
  have hrange := Char.isDigit_iff_toNat.mp hc
  simp only [isDigit, Bool.and_eq_true, decide_eq_true_eq, UInt8.le_iff_toNat_le, hcode]
  exact hrange

/-- A printed number consists of digits. -/
theorem isDigit_of_mem_natDigits {n : Nat} {b : UInt8} (hb : b ∈ natDigits n) : isDigit b := by
  obtain ⟨c, hc, rfl⟩ := List.mem_map.mp hb
  exact isDigit_ascii (Nat.isDigit_of_mem_toDigits (by decide) (by decide) hc)

theorem natDigits_ne_nil (n : Nat) : natDigits n ≠ [] := by
  simp [natDigits]

/-- Only the numeral of 0 begins with the digit 0. -/
theorem toDigits_zero_head {n : Nat} {ds : List Char} (h : Nat.toDigits 10 n = '0' :: ds) :
    ds = [] := by
  induction n using Nat.strong_induction_on generalizing ds with
  | _ n ih =>
      rw [Nat.toDigits_eq_if (by decide)] at h
      split at h
      · exact (List.cons.inj h).2.symm
      · rename_i hlarge
        obtain ⟨d, ds', hhead⟩ := List.exists_cons_of_ne_nil (Nat.toDigits_ne_nil (n := n / 10))
        rw [hhead, List.cons_append] at h
        have hzero := (List.cons.inj h).1
        subst hzero
        have htail := ih (n / 10) (by omega) hhead
        have hvalue : Nat.ofDigitChars 10 (Nat.toDigits 10 (n / 10)) 0 = n / 10 :=
          Nat.ofDigitChars_ten_toDigits
        rw [hhead, htail] at hvalue
        have hten : n / 10 = 0 := hvalue.symm
        omega

theorem digitsValue_map_ascii {cs : List Char} (hcs : ∀ c ∈ cs, c.isDigit) (init : Nat) :
    (cs.map ascii).foldl (fun n d => 10 * n + (d.toNat - 48)) init =
      Nat.ofDigitChars 10 cs init := by
  induction cs generalizing init with
  | nil => simp
  | cons c cs ih =>
      have hcode := toNat_ascii (toNat_lt_of_isDigit (hcs c List.mem_cons_self))
      rw [List.map_cons, List.foldl_cons, hcode, Nat.ofDigitChars_cons,
        ih fun d hd => hcs d (List.mem_cons_of_mem _ hd)]
      rfl

/-- Reading a printed numeral gives the number back. -/
@[simp]
theorem digitsValue_natDigits (n : Nat) : digitsValue (natDigits n) = n := by
  rw [digitsValue, natDigits, digitsValue_map_ascii, Nat.ofDigitChars_ten_toDigits]
  intro c hc
  exact Nat.isDigit_of_mem_toDigits (by decide) (by decide) hc

/-- A printed integer is a sign, when it is negative, and digits. -/
theorem intDigits_cases (n : Int) : ∃ sign digits, intDigits n = sign ++ digits ∧
    (sign = [] ∨ sign = [ascii '-']) ∧ digits ≠ [] ∧ ∀ b ∈ digits, isDigit b := by
  cases n with
  | ofNat m =>
      exact ⟨[], natDigits m, rfl, Or.inl rfl, natDigits_ne_nil m,
        fun b hb => isDigit_of_mem_natDigits hb⟩
  | negSucc m =>
      exact ⟨[ascii '-'], natDigits (m + 1), rfl, Or.inr rfl, natDigits_ne_nil (m + 1),
        fun b hb => isDigit_of_mem_natDigits hb⟩

end BettingPlatform
