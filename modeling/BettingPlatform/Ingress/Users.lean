import BettingPlatform.Foundations.Python
import BettingPlatform.Settlement.Models

/-!
# Registered users

The table `auth_users` with what its columns declare, the queries of `UserRepository`, and
the normal form of a phone number.  `created_at` is left out: no query reads it.
-/

namespace BettingPlatform
namespace Ingress

open Python Settlement Schema

/-! ## Phone numbers -/

/-- `s.strip()`. -/
def strip (cs : List Char) : List Char :=
  ((cs.dropWhile isSpace).reverse.dropWhile isSpace).reverse

/-- `_E164_PATTERN.match`: `\d` takes every decimal digit of Unicode, and `$` stands in front
of a final line feed, too. -/
def isE164 : List Char → Bool
  | '+' :: first :: rest =>
      let digits := if rest.getLast? = some '\n' then rest.dropLast else rest
      '1' ≤ first && first ≤ '9' && 7 ≤ digits.length && digits.length ≤ 14 &&
        digits.all fun c => (decimalValue c).isSome
  | _ => false

/-- `SMSService.normalize_phone`; `none` is the `ValueError`. -/
def normalizePhone (phone : String) : Option String :=
  let cleaned := (strip phone.toList).filter fun c => c ≠ ' ' && c ≠ '-'
  let cleaned := if cleaned.take 2 = ['0', '0'] then '+' :: cleaned.drop 2 else cleaned
  let cleaned :=
    if cleaned.head? = some '0' ∧ 10 ≤ cleaned.length then
      ['+', '2', '5', '4'] ++ cleaned.drop 1
    else cleaned
  let cleaned := if cleaned.head? = some '+' then cleaned else '+' :: cleaned
  if isE164 cleaned then some (String.ofList cleaned) else none

example : normalizePhone " 0712-345 678" = some "+254712345678" := by decide

/-! ## The table -/

/-- A row of `auth_users`. -/
structure AuthUser where
  id : Uuid
  email : String
  phone : String
  username : Option String
  passwordHash : String
deriving DecidableEq

/-- `id` is the primary key; `email`, `phone` and `username` are unique, and the missing
usernames do not clash. -/
instance : Schema AuthUser where
  Storable r := IsVarchar 320 r.email ∧ IsVarchar 16 r.phone ∧
    (∀ username ∈ r.username, IsVarchar 128 username) ∧ IsVarchar 512 r.passwordHash
  Check _ := True
  Clash r s := r.id = s.id ∨ r.email = s.email ∨ r.phone = s.phone ∨
    (r.username.isSome ∧ r.username = s.username)
  clash_symm := by
    rintro r s (h | h | h | ⟨hsome, h⟩)
    · exact .inl h.symm
    · exact .inr (.inl h.symm)
    · exact .inr (.inr (.inl h.symm))
    · exact .inr (.inr (.inr ⟨h ▸ hsome, h.symm⟩))
  decStorable _ := inferInstanceAs (Decidable (_ ∧ _))
  decCheck _ := inferInstance
  decClash _ _ := inferInstance

/-! ## `UserRepository` -/

/-- `get_by_email`; `lower` is `str.lower`. -/
def getByEmail (lower : String → String) (users : Table AuthUser) (email : String) :
    Option AuthUser :=
  users.find AuthUser.email (lower email)

/-- `get_by_phone`. -/
def getByPhone (users : Table AuthUser) (phone : String) : Option AuthUser :=
  users.find AuthUser.phone phone

/-- `create_user`: the insert and its commit. -/
def createUser (users : Table AuthUser) (user : AuthUser) : Except SqlError (Table AuthUser) :=
  users.insert user

end Ingress
end BettingPlatform
