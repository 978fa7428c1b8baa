import Mathlib.Data.Nat.Digits.Defs
import Mathlib.Data.List.Basic

/-!
# Hexadecimal numerals and UUIDs

A UUID is a 128-bit number.  Its canonical text, Python's `str(uuid)`, is 32 lower-case
hexadecimal digits in groups of 8, 4, 4, 4 and 12.

Main results:

- Theorem `ofHex_toHex`: reading a printed numeral gives the number back.
- Theorem `Uuid.text_injective`: the canonical text determines the UUID.
- Theorem `Uuid.parse_text`: parsing the canonical text gives the UUID back.
-/

namespace BettingPlatform

/-! ## Hexadecimal numerals -/

/-- The last `width` hexadecimal digits of a number. -/
def toHex : Nat → Nat → List Char
  | 0, _ => []
  | width + 1, n => toHex width (n / 16) ++ [Nat.digitChar (n % 16)]

/-- The value of a hexadecimal digit of either case. -/
def hexValue (c : Char) : Option Nat :=
  if '0' ≤ c ∧ c ≤ '9' then some (c.toNat - '0'.toNat)
  else if 'a' ≤ c ∧ c ≤ 'f' then some (c.toNat - 'a'.toNat + 10)
  else if 'A' ≤ c ∧ c ≤ 'F' then some (c.toNat - 'A'.toNat + 10)
  else none

/-- The number a string of hexadecimal digits denotes. -/
def ofHex (cs : List Char) : Option Nat :=
  cs.foldlM (fun n c => (hexValue c).map fun d => 16 * n + d) 0

/-- A hexadecimal digit is read back. -/
theorem hexValue_digitChar {d : Nat} (hd : d < 16) : hexValue (Nat.digitChar d) = some d := by
  have h : ∀ d : Fin 16, hexValue (Nat.digitChar d) = some d.val := by decide
  exact h ⟨d, hd⟩

/-- Hexadecimal digits are padded to their width. -/
theorem toHex_length (width n : Nat) : (toHex width n).length = width := by
  induction width generalizing n with
  | zero => rfl
  | succ width ih => simp [toHex, ih]

/-- Reading a printed numeral gives the number back. -/
theorem ofHex_toHex (width n : Nat) : ofHex (toHex width n) = some (n % 16 ^ width) := by
  induction width generalizing n with
  | zero => simp [toHex, ofHex, Nat.mod_one]
  | succ width ih =>
      have hdigit := hexValue_digitChar (Nat.mod_lt n (by decide : 0 < 16))
      have hrest := ih (n / 16)
      unfold ofHex at hrest ⊢
      rw [toHex, List.foldlM_append, hrest]
      have hvalue : 16 * (n / 16 % 16 ^ width) + n % 16 = n % 16 ^ (width + 1) := by
        rw [Nat.pow_succ', Nat.mod_mul]
        omega
      simp [hdigit, hvalue]

/-! ## UUIDs -/

/-- `uuid.UUID`. -/
abbrev Uuid := Fin (2 ^ 128)

instance (n : Nat) : OfNat Uuid n := ⟨Fin.ofNat (2 ^ 128) n⟩

/-- The 32 hexadecimal digits of a UUID: `uuid.hex`. -/
def Uuid.hex (u : Uuid) : List Char :=
  toHex 32 u

/-- Insert the hyphens of the canonical form. -/
def hyphenate (cs : List Char) : List Char :=
  cs.take 8 ++ '-' :: (cs.drop 8).take 4 ++ '-' :: (cs.drop 12).take 4 ++
    '-' :: (cs.drop 16).take 4 ++ '-' :: cs.drop 20

/-- `str(uuid)`. -/
def Uuid.text (u : Uuid) : String :=
  String.ofList (hyphenate u.hex)

/-- The digits of a hyphenated UUID text, when its hyphens are where they belong. -/
def unhyphenate (cs : List Char) : Option (List Char) :=
  if cs.length = 36 ∧ cs[8]? = some '-' ∧ cs[13]? = some '-' ∧ cs[18]? = some '-' ∧
      cs[23]? = some '-' then
    some (cs.take 8 ++ (cs.drop 9).take 4 ++ (cs.drop 14).take 4 ++ (cs.drop 19).take 4 ++
      cs.drop 24)
  else none

/-- The forms of a UUID that validation accepts: 32 digits, the hyphenated form, the
hyphenated form in braces, and the hyphenated form behind `urn:uuid:`. -/
def Uuid.digitsOf (cs : List Char) : Option (List Char) :=
  if cs.length = 32 then some cs
  else if cs.length = 36 then unhyphenate cs
  else if cs.length = 38 ∧ cs.head? = some '\x7b' ∧ cs.getLast? = some '\x7d' then
    unhyphenate ((cs.drop 1).take 36)
  else if cs.length = 45 ∧ cs.take 9 = "urn:uuid:".toList then unhyphenate (cs.drop 9)
  else none

/-- Validation of a UUID text. -/
def Uuid.parse (s : String) : Option Uuid := do
  let digits ← Uuid.digitsOf s.toList
  let n ← ofHex digits
  if h : n < 2 ^ 128 then some ⟨n, h⟩ else none

theorem Uuid.hex_length (u : Uuid) : u.hex.length = 32 :=
  toHex_length 32 u

theorem hyphenate_length {cs : List Char} (hcs : cs.length = 32) :
    (hyphenate cs).length = 36 := by
  simp [hyphenate, hcs]

/-- Five groups of the right lengths, joined by hyphens, split into the same groups. -/
theorem unhyphenate_groups {a b c d e : List Char} (ha : a.length = 8) (hb : b.length = 4)
    (hc : c.length = 4) (hd : d.length = 4) (he : e.length = 12) :
    unhyphenate (a ++ '-' :: b ++ '-' :: c ++ '-' :: d ++ '-' :: e) =
      some (a ++ b ++ c ++ d ++ e) := by
  simp [unhyphenate, ha, hb, hc, hd, he, List.drop_append, List.drop_of_length_le]

/-- The hyphens are taken out again. -/
theorem unhyphenate_hyphenate {cs : List Char} (hcs : cs.length = 32) :
    unhyphenate (hyphenate cs) = some cs := by
  rw [hyphenate, unhyphenate_groups (by simp [hcs]) (by simp [hcs]) (by simp [hcs])
    (by simp [hcs]) (by simp [hcs])]
  have h12 : cs.drop 12 = (cs.drop 8).drop 4 := by simp
  have h16 : cs.drop 16 = ((cs.drop 8).drop 4).drop 4 := by simp
  have h20 : cs.drop 20 = (((cs.drop 8).drop 4).drop 4).drop 4 := by simp
  rw [h12, h16, h20]
  simp only [List.append_assoc, List.take_append_drop]

/-- Parsing the canonical text gives the UUID back. -/
@[simp]
theorem Uuid.parse_text (u : Uuid) : Uuid.parse u.text = some u := by
  have hlength := hyphenate_length u.hex_length
  have hdigits : Uuid.digitsOf u.text.toList = some u.hex := by
    simp [Uuid.digitsOf, Uuid.text, hlength, unhyphenate_hyphenate u.hex_length]
  have hvalue : ofHex u.hex = some u.val := by
    rw [Uuid.hex, ofHex_toHex, Nat.mod_eq_of_lt]
    exact u.isLt
  simp [Uuid.parse, hdigits, hvalue]

/-- A hexadecimal digit is that of a number below sixteen. -/
theorem mem_toHex {width n : Nat} {c : Char} (h : c ∈ toHex width n) :
    ∃ d < 16, c = Nat.digitChar d := by
  induction width generalizing n with
  | zero => simp [toHex] at h
  | succ width ih =>
      rw [toHex, List.mem_append, List.mem_singleton] at h
      rcases h with h | h
      · exact ih h
      · exact ⟨n % 16, Nat.mod_lt n (by decide), h⟩

/-- The canonical text is made of hexadecimal digits and hyphens. -/
theorem Uuid.mem_text {u : Uuid} {c : Char} (h : c ∈ u.text.toList) :
    c = '-' ∨ ∃ d < 16, c = Nat.digitChar d := by
  have hdigit : c ∈ u.hex → ∃ d < 16, c = Nat.digitChar d := mem_toHex
  simp only [Uuid.text, String.toList_ofList, hyphenate, List.mem_append, List.mem_cons] at h
  rcases h with ((((h | h | h) | h | h) | h | h) | h | h)
  · exact Or.inr (hdigit (List.mem_of_mem_take h))
  · exact Or.inl h
  · exact Or.inr (hdigit (List.mem_of_mem_drop (List.mem_of_mem_take h)))
  · exact Or.inl h
  · exact Or.inr (hdigit (List.mem_of_mem_drop (List.mem_of_mem_take h)))
  · exact Or.inl h
  · exact Or.inr (hdigit (List.mem_of_mem_drop (List.mem_of_mem_take h)))
  · exact Or.inl h
  · exact Or.inr (hdigit (List.mem_of_mem_drop h))

/-- A UUID is written with thirty-six characters. -/
theorem Uuid.text_length (u : Uuid) : u.text.length = 36 := by
  rw [Uuid.text, String.length_ofList]
  exact hyphenate_length u.hex_length

/-- The canonical text holds no NUL character. -/
theorem Uuid.nul_notMem_text (u : Uuid) : '\x00' ∉ u.text.toList := by
  intro h
  have hdigits : ∀ d : Fin 16, Nat.digitChar d ≠ '\x00' := by decide
  rcases Uuid.mem_text h with hhyphen | ⟨d, hd, hdigit⟩
  · exact absurd hhyphen (by decide)
  · exact hdigits ⟨d, hd⟩ hdigit.symm

/-- The canonical text determines the UUID. -/
theorem Uuid.text_injective {u v : Uuid} (h : u.text = v.text) : u = v := by
  have hparse := congrArg Uuid.parse h
  simpa using hparse

end BettingPlatform
