import BettingPlatform.Foundations.Bytes

/-!
# Base64

`base64.b64encode`, and `base64.b64decode` as it runs by default: characters outside the
alphabet are skipped, the padding ends the text, and what is missing at the end is an error.

Main results:

- Theorem `decode_encode`: what was encoded is decoded again.
- Theorem `length_encode`: four characters for three bytes, rounded up.
- Theorem `mem_encode`: which characters occur in an encoded text.
-/

namespace BettingPlatform
namespace Base64

/-! ## Digits -/

/-- The characters of the 64 digits. -/
def alphabet : List Char :=
  "ABCDEFGHIJKLMNOPQRSTUVWXYZabcdefghijklmnopqrstuvwxyz0123456789+/".toList

/-- The character of a digit. -/
def digitChar (n : Nat) : Char :=
  alphabet.getD n '='

/-- The digit of a character. -/
def digitValue (c : Char) : Option Nat :=
  alphabet.idxOf? c

/-- A digit is read back. -/
theorem digitValue_digitChar {n : Nat} (hn : n < 64) : digitValue (digitChar n) = some n := by
  have hall : ∀ n : Fin 64, digitValue (digitChar n) = some n.val := by
    decide +kernel
  exact hall ⟨n, hn⟩

theorem digitChar_mem {n : Nat} (hn : n < 64) : digitChar n ∈ alphabet := by
  have hall : ∀ n : Fin 64, digitChar n ∈ alphabet := by decide +kernel
  exact hall ⟨n, hn⟩

theorem pad_notMem_alphabet : '=' ∉ alphabet := by
  decide

/-! ## Encoding and decoding -/

/-- `base64.b64encode`. -/
def encode : Bytes → List Char
  | a :: b :: c :: rest =>
      digitChar (a.toNat / 4) :: digitChar (a.toNat % 4 * 16 + b.toNat / 16) ::
        digitChar (b.toNat % 16 * 4 + c.toNat / 64) :: digitChar (c.toNat % 64) :: encode rest
  | [a, b] =>
      [digitChar (a.toNat / 4), digitChar (a.toNat % 4 * 16 + b.toNat / 16),
        digitChar (b.toNat % 16 * 4), '=']
  | [a] => [digitChar (a.toNat / 4), digitChar (a.toNat % 4 * 16), '=', '=']
  | [] => []

/-- Decoding a text from a position in a group of four digits: the bits that are left over
from the digit before, and how many padding characters stand since. -/
def decodeFrom (position left pads : Nat) : List Char → Option Bytes
  | [] => if position = 0 then some [] else none
  | c :: cs =>
      if c = '=' then
        if 2 ≤ position then
          if 4 ≤ position + (pads + 1) then some [] else decodeFrom position left (pads + 1) cs
        else decodeFrom position left pads cs
      else
        match digitValue c with
        | none => decodeFrom position left pads cs
        | some d =>
            match position with
            | 0 => decodeFrom 1 d 0 cs
            | 1 => (decodeFrom 2 (d % 16) 0 cs).map (UInt8.ofNat (left * 4 + d / 16) :: ·)
            | 2 => (decodeFrom 3 (d % 4) 0 cs).map (UInt8.ofNat (left * 16 + d / 4) :: ·)
            | _ => (decodeFrom 0 0 0 cs).map (UInt8.ofNat (left * 64 + d) :: ·)

/-- `base64.b64decode`; `none` is `binascii.Error`. -/
def decode (cs : List Char) : Option Bytes :=
  decodeFrom 0 0 0 cs

/-! ## Round trip -/

section Digit

variable {n left pads : Nat} {cs : List Char}

theorem digitChar_ne_pad (hn : n < 64) : digitChar n ≠ '=' :=
  fun h => pad_notMem_alphabet (h ▸ digitChar_mem hn)

/-- The first digit of a group gives no byte yet. -/
theorem decodeFrom_zero (hn : n < 64) :
    decodeFrom 0 left pads (digitChar n :: cs) = decodeFrom 1 n 0 cs := by
  simp [decodeFrom, digitChar_ne_pad hn, digitValue_digitChar hn]

/-- The second completes the first byte. -/
theorem decodeFrom_one (hn : n < 64) :
    decodeFrom 1 left pads (digitChar n :: cs) =
      (decodeFrom 2 (n % 16) 0 cs).map (UInt8.ofNat (left * 4 + n / 16) :: ·) := by
  simp [decodeFrom, digitChar_ne_pad hn, digitValue_digitChar hn]

/-- The third the second. -/
theorem decodeFrom_two (hn : n < 64) :
    decodeFrom 2 left pads (digitChar n :: cs) =
      (decodeFrom 3 (n % 4) 0 cs).map (UInt8.ofNat (left * 16 + n / 4) :: ·) := by
  simp [decodeFrom, digitChar_ne_pad hn, digitValue_digitChar hn]

/-- The fourth the third, and a new group begins. -/
theorem decodeFrom_three (hn : n < 64) :
    decodeFrom 3 left pads (digitChar n :: cs) =
      (decodeFrom 0 0 0 cs).map (UInt8.ofNat (left * 64 + n) :: ·) := by
  simp [decodeFrom, digitChar_ne_pad hn, digitValue_digitChar hn]

end Digit

/-- A byte that is put together from its halves. -/
theorem ofNat_eq {b : UInt8} {n : Nat} (h : n = b.toNat) : UInt8.ofNat n = b := by
  rw [h, UInt8.ofNat_toNat]

/-- What is encoded is decoded, whatever the decoder has behind it. -/
theorem decodeFrom_encode (bs : Bytes) (left pads : Nat) :
    decodeFrom 0 left pads (encode bs) = some bs := by
  induction bs using encode.induct generalizing left pads with
  | case1 a b c rest ih =>
      have ha := a.toNat_lt
      have hb := b.toNat_lt
      have hc := c.toNat_lt
      rw [encode, decodeFrom_zero (by omega), decodeFrom_one (by omega), decodeFrom_two (by omega),
        decodeFrom_three (by omega), ih, Option.map_some, Option.map_some, Option.map_some,
        ofNat_eq (b := a) (by omega), ofNat_eq (b := b) (by omega), ofNat_eq (b := c) (by omega)]
  | case2 a b =>
      have ha := a.toNat_lt
      have hb := b.toNat_lt
      rw [encode, decodeFrom_zero (by omega), decodeFrom_one (by omega), decodeFrom_two (by omega)]
      simp only [decodeFrom, if_true, Option.map_some]
      rw [ofNat_eq (b := a) (by omega), ofNat_eq (b := b) (by omega)]
      rfl
  | case3 a =>
      have ha := a.toNat_lt
      rw [encode, decodeFrom_zero (by omega), decodeFrom_one (by omega)]
      simp only [decodeFrom, if_true]
      rw [ofNat_eq (b := a) (by omega)]
      rfl
  | case4 => rfl

/-- What was encoded is decoded again. -/
theorem decode_encode (bs : Bytes) : decode (encode bs) = some bs :=
  decodeFrom_encode bs 0 0

/-- Four characters for three bytes, rounded up. -/
theorem length_encode (bs : Bytes) : (encode bs).length = (bs.length + 2) / 3 * 4 := by
  induction bs using encode.induct with
  | case1 a b c rest ih =>
      simp only [encode, List.length_cons, ih]
      omega
  | case2 a b => simp [encode]
  | case3 a => simp [encode]
  | case4 => rfl

/-- An encoded text has digits and padding only. -/
theorem mem_encode {bs : Bytes} {c : Char} (h : c ∈ encode bs) : c ∈ alphabet ∨ c = '=' := by
  induction bs using encode.induct with
  | case1 a b d rest ih =>
      have ha := a.toNat_lt
      have hb := b.toNat_lt
      have hd := d.toNat_lt
      simp only [encode, List.mem_cons] at h
      rcases h with rfl | rfl | rfl | rfl | h
      · exact .inl (digitChar_mem (by omega))
      · exact .inl (digitChar_mem (by omega))
      · exact .inl (digitChar_mem (by omega))
      · exact .inl (digitChar_mem (by omega))
      · exact ih h
  | case2 a b =>
      have ha := a.toNat_lt
      have hb := b.toNat_lt
      simp only [encode, List.mem_cons, List.not_mem_nil, or_false] at h
      rcases h with rfl | rfl | rfl | rfl
      · exact .inl (digitChar_mem (by omega))
      · exact .inl (digitChar_mem (by omega))
      · exact .inl (digitChar_mem (by omega))
      · exact .inr rfl
  | case3 a =>
      have ha := a.toNat_lt
      simp only [encode, List.mem_cons, List.not_mem_nil, or_false] at h
      rcases h with rfl | rfl | rfl | rfl
      · exact .inl (digitChar_mem (by omega))
      · exact .inl (digitChar_mem (by omega))
      · exact .inr rfl
      · exact .inr rfl
  | case4 => simp [encode] at h

end Base64
end BettingPlatform
