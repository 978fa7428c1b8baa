import BettingPlatform.Foundations.Base64
import BettingPlatform.Foundations.JoinedText
import BettingPlatform.Foundations.Python
import BettingPlatform.Settlement.Models

/-!
# Password hashes

`hash_password` writes the scheme, the number of iterations, the salt and the digest into one
text, and `verify_password` reads them from whatever text it is given.  The key derivation
itself is a parameter.

Main results:

- Theorem `verifyPassword_hashPassword`: which passwords a hash verifies.
- Theorem `hash_round_trip`: so a hash fits its column and verifies its own password.
-/

namespace BettingPlatform
namespace Ingress

open Python

/-- What the service takes from `hashlib.pbkdf2_hmac` with SHA-256: 32 bytes for a password, a
salt and a number of iterations. -/
structure Pbkdf2 where
  derive : (password salt : Bytes) → (iterations : Nat) → Bytes
  length_derive : ∀ {password salt iterations}, (derive password salt iterations).length = 32

/-- `_PBKDF2_ITERATIONS`. -/
def pbkdf2Iterations : Nat := 210000

/-- `_SALT_BYTES`. -/
def saltBytes : Nat := 16

/-- The first part of a hash. -/
def pbkdf2Scheme : List Char :=
  "pbkdf2_sha256".toList

section Passwords

variable (kdf : Pbkdf2)

/-- `hash_password`, for the salt it draws. -/
def hashPassword (password : String) (salt : Bytes) : String :=
  let digest := kdf.derive (utf8 password) salt pbkdf2Iterations
  String.ofList (pbkdf2Scheme ++ '$' :: ("210000".toList ++ '$' ::
    (Base64.encode salt ++ '$' :: Base64.encode digest)))

/-- `base64.b64decode(raw.encode("ascii"))`; `none` is a `ValueError`. -/
def decodeAscii (raw : List Char) : Option Bytes :=
  if raw.all fun c => c.toNat < 128 then Base64.decode raw else none

/-- `hashlib.pbkdf2_hmac`, for the number of iterations it is given. -/
def pbkdf2Hmac (password salt : Bytes) (iterations : Int) : Except PyError Bytes :=
  if iterations < -2 ^ 63 ∨ 2 ^ 31 ≤ iterations then .error .overflowError
  else if iterations < 1 then .error .valueError
  else .ok (kdf.derive password salt iterations.toNat)

/-- `verify_password`; only an `OverflowError` leaves it. -/
def verifyPassword (password hashedPassword : String) : Except PyError Bool :=
  match splitMax '$' 3 hashedPassword.toList with
  | [scheme, iterationsRaw, saltRaw, digestRaw] =>
      if scheme ≠ pbkdf2Scheme then .ok false
      else
        match decodeAscii saltRaw, decodeAscii digestRaw, intOfStr (String.ofList iterationsRaw) with
        | some salt, some expected, some iterations =>
            match pbkdf2Hmac kdf (utf8 password) salt iterations with
            | .ok actual => .ok (actual = expected)
            | .error .overflowError => .error .overflowError
            | .error _ => .ok false
        | _, _, _ => .ok false
  | _ => .ok false

end Passwords

section Hashes

variable {kdf : Pbkdf2} {password password' : String} {salt : Bytes}

/-- The separator of a stored hash is no base64 digit. -/
theorem dollar_notMem_encode (bs : Bytes) : '$' ∉ Base64.encode bs := by
  intro h
  rcases Base64.mem_encode h with h | h
  · exact absurd h (by decide)
  · exact absurd h (by decide)

/-- An encoded text is ASCII. -/
theorem decodeAscii_encode (bs : Bytes) : decodeAscii (Base64.encode bs) = some bs := by
  have halphabet : (Base64.alphabet.all fun c => c.toNat < 128) = true := by decide +kernel
  have hascii : ((Base64.encode bs).all fun c => c.toNat < 128) = true := by
    rw [List.all_eq_true]
    intro c hc
    rcases Base64.mem_encode hc with h | rfl
    · exact List.all_eq_true.mp halphabet c h
    · rfl
  rw [decodeAscii, if_pos hascii, Base64.decode_encode]

/-- A hash has four parts. -/
theorem split_hashPassword (password : String) (salt : Bytes) :
    splitMax '$' 3 (hashPassword kdf password salt).toList =
      [pbkdf2Scheme, "210000".toList, Base64.encode salt,
        Base64.encode (kdf.derive (utf8 password) salt pbkdf2Iterations)] := by
  have hscheme : '$' ∉ pbkdf2Scheme := by decide
  have hiterations : '$' ∉ "210000".toList := by decide
  rw [hashPassword, String.toList_ofList, splitMax_append hscheme, splitMax_append hiterations,
    splitMax_append (dollar_notMem_encode salt), splitMax]

/-- A hash verifies exactly the passwords with its digest, and so its own. -/
theorem verifyPassword_hashPassword :
    verifyPassword kdf password' (hashPassword kdf password salt) =
      .ok (kdf.derive (utf8 password') salt pbkdf2Iterations =
        kdf.derive (utf8 password) salt pbkdf2Iterations) := by
  have hiterations : intOfStr (String.ofList "210000".toList) = some 210000 := by decide
  simp only [verifyPassword, split_hashPassword, decodeAscii_encode, hiterations, ne_eq,
    not_true_eq_false, if_false]
  rfl

/-- A hash of a drawn salt has 90 characters. -/
theorem length_hashPassword (hsalt : salt.length = saltBytes) :
    (hashPassword kdf password salt).length = 90 := by
  have hscheme : pbkdf2Scheme.length = 13 := by decide
  have hiterations : "210000".toList.length = 6 := by decide
  rw [hashPassword, String.length_ofList, List.length_append, List.length_cons, List.length_append,
    List.length_cons, List.length_append, List.length_cons, hscheme, hiterations,
    Base64.length_encode, Base64.length_encode, kdf.length_derive, hsalt]
  rfl

/-- No character of a hash is a NUL. -/
theorem isText_hashPassword : Settlement.IsText (hashPassword kdf password salt) := by
  have hencode : ∀ bs, '\x00' ∉ Base64.encode bs := by
    intro bs h
    rcases Base64.mem_encode h with h | h
    · exact absurd h (by decide)
    · exact absurd h (by decide)
  have hscheme : '\x00' ∉ pbkdf2Scheme := by decide
  have hiterations : '\x00' ∉ "210000".toList := by decide
  rw [Settlement.IsText, hashPassword, String.toList_ofList]
  simp only [List.mem_append, List.mem_cons, not_or]
  exact ⟨hscheme, by decide, hiterations, by decide, hencode _, by decide, hencode _⟩

/-- The hash of every password, under every salt that can be drawn, fits `password_hash`,
verifies its own password, and verifies another one only if the derived keys collide. -/
theorem hash_round_trip (password : String) {salt : Bytes} (hsalt : salt.length = saltBytes) :
    Settlement.IsVarchar 512 (hashPassword kdf password salt) ∧
      verifyPassword kdf password (hashPassword kdf password salt) = .ok true ∧
      ∀ password', verifyPassword kdf password' (hashPassword kdf password salt) = .ok true ↔
        kdf.derive (utf8 password') salt pbkdf2Iterations =
          kdf.derive (utf8 password) salt pbkdf2Iterations := by
  refine ⟨⟨?_, isText_hashPassword⟩, ?_, fun password' => ?_⟩
  · rw [length_hashPassword hsalt]
    decide
  · rw [verifyPassword_hashPassword, decide_eq_true rfl]
  · rw [verifyPassword_hashPassword, Except.ok.injEq, decide_eq_true_eq]

end Hashes

/-- Keys that are the first bytes of the password, filled up with zeros. -/
def paddedPassword : Pbkdf2 where
  derive := fun password _ _ => (password ++ List.replicate 32 0).take 32
  length_derive := by simp

theorem hash_round_trip_sample :
    verifyPassword paddedPassword "correct horse" (hashPassword paddedPassword "correct horse"
      (List.replicate 16 7)) = .ok true :=
  (hash_round_trip "correct horse" (by decide)).2.1

end Ingress
end BettingPlatform
