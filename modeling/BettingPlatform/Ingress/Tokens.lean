import Mathlib.Tactic.Linarith
import BettingPlatform.Foundations.JsonText

/-!
# Tokens

`generate_jwt` signs two tokens for a user: an access token of some minutes and a refresh
token of some days.  Their claims differ in `type` and `exp` alone, and they are signed with
one key.  `decode_access_token` checks the signature and `exp`, and nobody looks at `type`, so
a refresh token authenticates a request as long as it lives.

Instants are microseconds since the epoch, claims are whole seconds.

Main results:

- Theorem `accepted_iff`: which cookies `current_user_from_request` accepts.
- Theorem `only_access_tokens_iff`: a token is accepted as a live access token only, exactly
  when it is no live refresh token.
-/

namespace BettingPlatform
namespace Ingress

/-! ## Claims -/

/-- The settings that the tokens depend on. -/
structure TokenSettings where
  jwtSecretKey : String
  jwtAlgorithm : String
  accessTokenExpireMinutes : Int
  refreshTokenExpireDays : Int

/-- The claims of a token. -/
structure TokenClaims where
  sub : String
  email : String
  type : String
  iat : Int
  exp : Int
deriving DecidableEq

/-- `int(instant.timestamp())`, with the seconds cut off exactly.  The code cuts off a float: from
about the year 2514 on, the last microseconds before a whole second are rounded up to it. -/
def epochSeconds (instant : Int) : Int :=
  instant.tdiv 1000000

/-- `timedelta(minutes=minutes)`. -/
def minutesDelta (minutes : Int) : Int :=
  minutes * 60 * 1000000

/-- `timedelta(days=days)`. -/
def daysDelta (days : Int) : Int :=
  days * 24 * 60 * 60 * 1000000

/-- What the service takes from PyJWT: `decode` accepts exactly the tokens that are signed with
the key and whose `exp` is in the future, and a token carries its claims. -/
structure PyJwt where
  encode : (claims : TokenClaims) → (key algorithm : String) → String
  decode : (now : Nat) → (token key algorithm : String) → Option TokenClaims
  decode_eq_some_iff : ∀ {now token key algorithm claims},
    decode now token key algorithm = some claims ↔
      encode claims key algorithm = token ∧ (now : Int) < claims.exp * 1000000
  encode_injective : ∀ {claims claims' key algorithm},
    encode claims key algorithm = encode claims' key algorithm → claims = claims'
  encode_ne_empty : ∀ {claims key algorithm}, encode claims key algorithm ≠ ""

/-- A call of `generate_jwt`. -/
structure TokenIssue where
  now : Nat
  userId : String
  email : String

section Tokens

variable (jwt : PyJwt) (settings : TokenSettings)

/-- The claims of the access token. -/
def accessClaims (issue : TokenIssue) : TokenClaims where
  sub := issue.userId
  email := issue.email
  type := "access"
  iat := epochSeconds issue.now
  exp := epochSeconds (issue.now + minutesDelta settings.accessTokenExpireMinutes)

/-- The claims of the refresh token. -/
def refreshClaims (issue : TokenIssue) : TokenClaims where
  sub := issue.userId
  email := issue.email
  type := "refresh"
  iat := epochSeconds issue.now
  exp := epochSeconds (issue.now + daysDelta settings.refreshTokenExpireDays)

/-- `SecurityUtils.generate_jwt`: the access token and the refresh token. -/
def generateJwt (issue : TokenIssue) : String × String :=
  (jwt.encode (accessClaims settings issue) settings.jwtSecretKey settings.jwtAlgorithm,
    jwt.encode (refreshClaims settings issue) settings.jwtSecretKey settings.jwtAlgorithm)

/-! ## Requests -/

/-- The authenticated user of a request. -/
structure UserRecord where
  userId : String
  email : String
  hashedPassword : String
deriving DecidableEq

/-- The exceptions of `current_user_from_request`. -/
inductive AuthError
  /-- `HTTPException`. -/
  | httpException (status : Nat) (detail : String)
  /-- The email of a `UserRecord` does not validate. -/
  | validationError
deriving DecidableEq

/-- `decode_access_token`. -/
def decodeAccessToken (now : Nat) (token : String) : Except AuthError TokenClaims :=
  match jwt.decode now token settings.jwtSecretKey settings.jwtAlgorithm with
  | some claims => .ok claims
  | none => .error (.httpException 401 "invalid or expired token")

/-- The user that some claims name; `usersByEmail` is the in-memory store, `lower` is
`str.lower` and `emailStr` the validation of `EmailStr`. -/
def userOfClaims (lower : String → String) (emailStr : String → Option String)
    (usersByEmail : String → Option UserRecord) (userId email : String) :
    Except AuthError UserRecord :=
  if userId = "" ∨ email = "" then .error (.httpException 401 "invalid token claims")
  else
    match (usersByEmail (lower email)).filter fun user => user.userId = userId with
    | some user => .ok user
    | none =>
        match emailStr email with
        | some email => .ok { userId := userId, email := email, hashedPassword := "" }
        | none => .error .validationError

variable (lower : String → String) (emailStr : String → Option String)
  (usersByEmail : String → Option UserRecord)

/-- `current_user_from_request`, for the authentication cookie of the request. -/
def currentUserFromRequest (now : Nat) (cookie : Option String) : Except AuthError UserRecord :=
  match cookie with
  | none => .error (.httpException 401 "missing authentication cookie")
  | some token =>
      if token = "" then .error (.httpException 401 "missing authentication cookie")
      else
        match decodeAccessToken jwt settings now token with
        | .error e => .error e
        | .ok claims => userOfClaims lower emailStr usersByEmail claims.sub claims.email

/-- A token of the history was issued as the access token of its pair, and less than
`access_token_expire_minutes` ago. -/
def IsLiveAccess (history : List TokenIssue) (token : String) (now : Nat) : Prop :=
  ∃ issue ∈ history, token = (generateJwt jwt settings issue).1 ∧
    (now : Int) < issue.now + minutesDelta settings.accessTokenExpireMinutes

/-- A token of the history is the refresh token of its pair, its `exp` is in the future, and
its claims name a user. -/
def IsLiveRefresh (history : List TokenIssue) (token : String) (now : Nat) : Prop :=
  ∃ issue ∈ history, token = (generateJwt jwt settings issue).2 ∧
    (now : Int) < (refreshClaims settings issue).exp * 1000000 ∧
    ∃ user, userOfClaims lower emailStr usersByEmail issue.userId issue.email = .ok user

end Tokens

section Acceptance

variable {jwt : PyJwt} {settings : TokenSettings} {lower : String → String}
  {emailStr : String → Option String} {usersByEmail : String → Option UserRecord}
  {history : List TokenIssue} {token : String} {now : Nat}

/-- A cookie is accepted exactly when it is signed with the key, its `exp` is in the future
and its claims name the user. -/
theorem accepted_iff {user : UserRecord} :
    currentUserFromRequest jwt settings lower emailStr usersByEmail now (some token) = .ok user ↔
      ∃ claims, jwt.encode claims settings.jwtSecretKey settings.jwtAlgorithm = token ∧
        (now : Int) < claims.exp * 1000000 ∧
        userOfClaims lower emailStr usersByEmail claims.sub claims.email = .ok user := by
  unfold currentUserFromRequest decodeAccessToken
  by_cases hempty : token = ""
  · subst hempty
    constructor
    · intro h
      contradiction
    · rintro ⟨claims, hencode, -⟩
      exact absurd hencode jwt.encode_ne_empty
  · simp only [hempty, if_false]
    cases hdecode : jwt.decode now token settings.jwtSecretKey settings.jwtAlgorithm with
    | none =>
        constructor
        · intro h
          contradiction
        · rintro ⟨claims, hencode, hlive, -⟩
          rw [jwt.decode_eq_some_iff.mpr ⟨hencode, hlive⟩] at hdecode
          contradiction
    | some claims =>
        obtain ⟨hencode, hlive⟩ := jwt.decode_eq_some_iff.mp hdecode
        constructor
        · intro h
          exact ⟨claims, hencode, hlive, h⟩
        · rintro ⟨claims', hencode', hlive', h⟩
          have hdecode' := jwt.decode_eq_some_iff.mpr ⟨hencode', hlive'⟩
          obtain rfl := Option.some.inj (hdecode.symm.trans hdecode')
          exact h

/-- An `exp` in the future is at most the instant it was computed from. -/
theorem lt_of_epochSeconds {instant : Int} (h : (now : Int) < epochSeconds instant * 1000000) :
    (now : Int) < instant := by
  unfold epochSeconds at h
  rcases Int.le_total 0 instant with hpos | hneg
  · have hmul : instant.tdiv 1000000 * 1000000 ≤ instant := by
      rw [Int.tdiv_eq_ediv_of_nonneg hpos]
      exact Int.ediv_mul_le instant (by decide)
    omega
  · have hquotient : instant.tdiv 1000000 ≤ 0 := by
      have hnonneg := Int.tdiv_nonneg (Int.neg_nonneg.mpr hneg) (show (0 : Int) ≤ 1000000 by decide)
      rw [Int.neg_tdiv] at hnonneg
      omega
    omega

/-- A live refresh token is accepted. -/
theorem IsLiveRefresh.accepted
    (h : IsLiveRefresh jwt settings lower emailStr usersByEmail history token now) :
    ∃ user, currentUserFromRequest jwt settings lower emailStr usersByEmail now (some token) =
      .ok user := by
  obtain ⟨issue, -, htoken, hlive, user, huser⟩ := h
  exact ⟨user, accepted_iff.mpr ⟨refreshClaims settings issue, htoken.symm, hlive, huser⟩⟩

/-- The two tokens of pairs differ in their claims. -/
theorem access_ne_refresh {issue issue' : TokenIssue} :
    (generateJwt jwt settings issue).1 ≠ (generateJwt jwt settings issue').2 := by
  intro h
  have hclaims := jwt.encode_injective h
  exact absurd (congrArg TokenClaims.type hclaims) (by simp [accessClaims, refreshClaims])

/-- A token of the history is accepted as a live access token only, exactly when it is no
live refresh token. -/
theorem only_access_tokens_iff
    (hissued : ∃ issue ∈ history, token = (generateJwt jwt settings issue).1 ∨
      token = (generateJwt jwt settings issue).2) :
    ((∃ user, currentUserFromRequest jwt settings lower emailStr usersByEmail now (some token) =
        .ok user) → IsLiveAccess jwt settings history token now) ↔
      ¬ IsLiveRefresh jwt settings lower emailStr usersByEmail history token now := by
  constructor
  · intro honly hrefresh
    obtain ⟨issue', -, haccess, -⟩ := honly hrefresh.accepted
    obtain ⟨issue, -, htoken, -⟩ := hrefresh
    exact access_ne_refresh (haccess.symm.trans htoken)
  · rintro hnot ⟨user, haccepted⟩
    obtain ⟨claims, hencode, hlive, huser⟩ := accepted_iff.mp haccepted
    obtain ⟨issue, hmem, haccess | hrefresh⟩ := hissued
    · obtain rfl := jwt.encode_injective (hencode.trans haccess)
      exact ⟨issue, hmem, haccess, lt_of_epochSeconds hlive⟩
    · obtain rfl := jwt.encode_injective (hencode.trans hrefresh)
      exact absurd ⟨issue, hmem, hrefresh, hlive, user, huser⟩ hnot

end Acceptance

/-! ## Tokens that show their claims -/

/-- A field of a token, with a point behind it. -/
def tokenField (cs : List Char) : List Char :=
  cs.flatMap (fun c => ['_', c]) ++ ['.']

/-- A field of a token ends where it ends. -/
theorem tokenField_append {cs ds r r' : List Char}
    (h : tokenField cs ++ r = tokenField ds ++ r') : cs = ds ∧ r = r' := by
  induction cs generalizing ds with
  | nil =>
      cases ds with
      | nil => exact ⟨rfl, (List.cons.inj h).2⟩
      | cons d ds => exact absurd (List.cons.inj h).1 (by decide)
  | cons c cs ih =>
      cases ds with
      | nil => exact absurd (List.cons.inj h).1 (by decide)
      | cons d ds =>
          obtain ⟨rfl, hrest⟩ := List.cons.inj (List.cons.inj h).2
          obtain ⟨rfl, hr⟩ := ih hrest
          exact ⟨rfl, hr⟩

/-- A numeral with its sign. -/
def signedNumeral (n : Int) : List Char :=
  (if n < 0 then '-' else '+') :: Nat.toDigits 10 n.natAbs

theorem signedNumeral_injective {m n : Int} (h : signedNumeral m = signedNumeral n) : m = n := by
  obtain ⟨hsign, hdigits⟩ := List.cons.inj h
  have habs : m.natAbs = n.natAbs := by
    have hvalue := congrArg (fun digits => Nat.ofDigitChars 10 digits 0) hdigits
    simpa only [Nat.ofDigitChars_ten_toDigits] using hvalue
  by_cases hm : m < 0
  · by_cases hn : n < 0
    · omega
    · rw [if_pos hm, if_neg hn] at hsign
      exact absurd hsign (by decide)
  · by_cases hn : n < 0
    · rw [if_neg hm, if_pos hn] at hsign
      exact absurd hsign (by decide)
    · omega

/-- A token whose fields are the claims, and the key as its signature. -/
def showClaims (claims : TokenClaims) (key algorithm : String) : String :=
  String.ofList (tokenField claims.sub.toList ++ (tokenField claims.email.toList ++
    (tokenField claims.type.toList ++ (tokenField (signedNumeral claims.iat) ++
      (tokenField (signedNumeral claims.exp) ++ (tokenField key.toList ++ algorithm.toList))))))

/-- The claims can be told from what is signed. -/
theorem showClaims_injective {claims claims' : TokenClaims} {key algorithm : String}
    (h : showClaims claims key algorithm = showClaims claims' key algorithm) : claims = claims' := by
  have hchars := congrArg String.toList h
  simp only [showClaims, String.toList_ofList] at hchars
  obtain ⟨hsub, hchars⟩ := tokenField_append hchars
  obtain ⟨hemail, hchars⟩ := tokenField_append hchars
  obtain ⟨htype, hchars⟩ := tokenField_append hchars
  obtain ⟨hiat, hchars⟩ := tokenField_append hchars
  obtain ⟨hexp, -⟩ := tokenField_append hchars
  cases claims
  cases claims'
  simp only at hsub hemail htype hiat hexp
  rw [String.toList_inj.mp hsub, String.toList_inj.mp hemail, String.toList_inj.mp htype,
    signedNumeral_injective hiat, signedNumeral_injective hexp]

open Classical in
/-- Tokens in the clear. -/
noncomputable def clearTokens : PyJwt where
  encode := showClaims
  decode := fun now token key algorithm =>
    if h : ∃ claims, showClaims claims key algorithm = token ∧ (now : Int) < claims.exp * 1000000 then
      some h.choose
    else none
  decode_eq_some_iff := by
    intro now token key algorithm claims
    constructor
    · intro hdecode
      split at hdecode
      · rename_i h
        obtain rfl := Option.some.inj hdecode
        exact h.choose_spec
      · contradiction
    · rintro ⟨htoken, hlive⟩
      have h : ∃ claims, showClaims claims key algorithm = token ∧
          (now : Int) < claims.exp * 1000000 := ⟨claims, htoken, hlive⟩
      rw [dif_pos h, showClaims_injective (h.choose_spec.1.trans htoken.symm)]
  encode_injective := showClaims_injective
  encode_ne_empty := by
    intro claims key algorithm h
    have hlength := congrArg String.length h
    simp [showClaims, tokenField] at hlength

/-- The default lifetimes. -/
def defaultSettings : TokenSettings where
  jwtSecretKey := "distributed-betting-platform-secret-key-high-entropy-32bytes"
  jwtAlgorithm := "HS256"
  accessTokenExpireMinutes := 60
  refreshTokenExpireDays := 7

/-- One login. -/
def oneLogin : TokenIssue where
  now := 1787659200000000
  userId := "00000000-0000-0000-0000-000000000007"
  email := "a@b.ke"

/-- The access token of the login is no refresh token. -/
theorem only_access_tokens_iff_sample :
    ¬ IsLiveRefresh clearTokens defaultSettings id some (fun _ => none) [oneLogin]
        (generateJwt clearTokens defaultSettings oneLogin).1 1787659260000000 ∧
      ((∃ user, currentUserFromRequest clearTokens defaultSettings id some (fun _ => none)
          1787659260000000 (some (generateJwt clearTokens defaultSettings oneLogin).1) = .ok user) →
        IsLiveAccess clearTokens defaultSettings [oneLogin]
          (generateJwt clearTokens defaultSettings oneLogin).1 1787659260000000) := by
  have hnot : ¬ IsLiveRefresh clearTokens defaultSettings id some (fun _ => none) [oneLogin]
      (generateJwt clearTokens defaultSettings oneLogin).1 1787659260000000 := by
    rintro ⟨issue, -, htoken, -⟩
    exact access_ne_refresh htoken
  have hissued : ∃ issue ∈ [oneLogin], (generateJwt clearTokens defaultSettings oneLogin).1 =
      (generateJwt clearTokens defaultSettings issue).1 ∨
        (generateJwt clearTokens defaultSettings oneLogin).1 =
          (generateJwt clearTokens defaultSettings issue).2 :=
    ⟨oneLogin, List.mem_singleton_self oneLogin, .inl rfl⟩
  exact ⟨hnot, (only_access_tokens_iff hissued).mpr hnot⟩

/-- The refresh token of the login authenticates a request six days later. -/
theorem refresh_token_authenticates :
    ¬ ∀ (jwt : PyJwt) (settings : TokenSettings) (lower : String → String)
      (emailStr : String → Option String) (usersByEmail : String → Option UserRecord)
      (history : List TokenIssue) (token : String) (now : Nat),
      (∃ issue ∈ history, token = (generateJwt jwt settings issue).1 ∨
        token = (generateJwt jwt settings issue).2) →
      (∃ user, currentUserFromRequest jwt settings lower emailStr usersByEmail now (some token) =
        .ok user) → IsLiveAccess jwt settings history token now := by
  intro hall
  have hlive : IsLiveRefresh clearTokens defaultSettings id some (fun _ => none) [oneLogin]
      (generateJwt clearTokens defaultSettings oneLogin).2 1788177600000000 :=
    ⟨oneLogin, List.mem_singleton_self oneLogin, rfl, by decide, _, rfl⟩
  obtain ⟨issue, -, htoken, -⟩ := hall clearTokens defaultSettings id some (fun _ => none) [oneLogin]
    _ _ ⟨oneLogin, List.mem_singleton_self oneLogin, .inr rfl⟩ hlive.accepted
  exact access_ne_refresh htoken.symm

end Ingress
end BettingPlatform
