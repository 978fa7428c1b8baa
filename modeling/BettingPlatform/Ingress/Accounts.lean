import BettingPlatform.Foundations.Fallible
import BettingPlatform.Ingress.Bets
import BettingPlatform.Ingress.IdempotencyKeys
import BettingPlatform.Ingress.Passwords
import BettingPlatform.Ingress.Tokens
import BettingPlatform.Ingress.VerifiedAccounts

/-!
# Who submits bets

The ingress service as one system: registrations and verifications step by step, logins, and
bets that come with the authentication cookie.  Verifications and logins issue tokens, and a
cookie that the service has not issued is not signed with its key.

`_users_by_email` stays empty, because no handler calls `create_user` of `security.py`.  Tokens
and the answers to a bet are recorded; no step reads the records.

Main results:

- Theorem `accounted_step`: one step keeps track of the account behind each token and each bet.
- Theorem `bets_have_accounts`: so does every run.
- Theorem `login_succeeds_iff`: which logins succeed.
-/

namespace BettingPlatform
namespace Ingress

open Python Runs

variable {ι : Type} [DecidableEq ι]

/-! ## The service -/

/-- What the service is configured with, and what it takes from elsewhere: `lower` is
`str.lower`, and `emailStr` the validation of `EmailStr`. -/
structure IngressConfig where
  settings : TokenSettings
  betsSubmittedTopic : String
  jwt : PyJwt
  kdf : Pbkdf2
  sha256 : Bytes → Fin (2 ^ 256)
  uuid5 : Uuid → String → Uuid
  lower : String → String
  emailStr : String → Option String

/-- What a pair of tokens was issued for. -/
inductive TokenOrigin (ι : Type)
  | verified (verifier : ι)
  | loggedIn (phone password : String)

/-- A bet that was published, with the cookie it came with. -/
structure SubmittedBet where
  now : Nat
  cookie : String
  user : UserRecord
  payload : BetCreateRequest
  publication : Publication

/-- The registrations and verifications, the tokens that were issued, and the bets. -/
structure IngressState (ι : Type) where
  service : UserState ι
  issues : List (TokenOrigin ι × TokenIssue)
  bets : List SubmittedBet

/-- What happens next, at what the clock of the tokens shows. -/
inductive IngressLabel (ι : Type)
  /-- A registration or a verification goes on, a key disappears, or time goes by. -/
  | user (label : UserLabel ι) (now : Nat)
  | login (phone password : String) (now : Nat)
  | bet (cookie : Option String) (payload : BetCreateRequest) (now : Nat)

/-- The tokens of a step of the registrations and verifications: `verify_otp` calls
`generate_jwt` when it has read the new row again. -/
def tokensOf (s : UserState ι) (now : Nat) : UserLabel ι → List (TokenOrigin ι × TokenIssue)
  | .call i .proceed =>
      match s.calls i with
      | .refresh user => [(.verified i, ⟨now, user.id.text, user.email⟩)]
      | _ => []
  | _ => []

/-- The exceptions of `login`. -/
inductive LoginRaised
  | httpException (status : Nat) (detail : String)
  | python (e : PyError)
deriving DecidableEq

section Steps

variable (config : IngressConfig)

/-- `UserService.login`: what the tokens are issued for. -/
def login (users : Table AuthUser) (phone password : String) (now : Nat) :
    Except LoginRaised TokenIssue :=
  match normalizePhone phone with
  | none => .error (.python .valueError)
  | some phone =>
      match getByPhone users phone with
      | none => .error (.httpException 401 "invalid credentials")
      | some user =>
          match verifyPassword config.kdf password user.passwordHash with
          | .ok true => .ok ⟨now, user.id.text, user.email⟩
          | .ok false => .error (.httpException 401 "invalid credentials")
          | .error e => .error (.python e)

/-- `current_user_from_request`, while `_users_by_email` is empty. -/
def authenticate (now : Nat) (cookie : Option String) : Except AuthError UserRecord :=
  currentUserFromRequest config.jwt config.settings config.lower config.emailStr (fun _ => none) now
    cookie

/-- The tokens that a login issues. -/
def loginTokens (users : Table AuthUser) (phone password : String) (now : Nat) :
    List (TokenOrigin ι × TokenIssue) :=
  match login config users phone password now with
  | .ok issue => [(.loggedIn phone password, issue)]
  | .error _ => []

/-- `submit_bet` for the user of the cookie: the bet that is published. -/
def publishBet (cookie : String) (payload : BetCreateRequest) (now : Nat) : List SubmittedBet :=
  match authenticate config now (some cookie) with
  | .error _ => []
  | .ok user =>
      match submitBet config.sha256 config.uuid5 config.betsSubmittedTopic user.userId payload with
      | .ok (publication, _) => [⟨now, cookie, user, payload, publication⟩]
      | .error _ => []

/-- One step of the service; a bet without a cookie is refused. -/
def ingressStep (request : ι → UserRequest) (s : IngressState ι) :
    IngressLabel ι → Option (IngressState ι)
  | .user label now =>
      (userStep config.lower config.uuid5 request s.service label).map fun service =>
        { s with service, issues := s.issues ++ tokensOf s.service now label }
  | .login phone password now =>
      some { s with
        issues := s.issues ++ loginTokens config s.service.shared.users phone password now }
  | .bet none _ _ => some s
  | .bet (some cookie) payload now =>
      some { s with bets := s.bets ++ publishBet config cookie payload now }

/-- The service with nothing but its table. -/
def IngressState.start (ι : Type) (users : Table AuthUser) : IngressState ι where
  service := .start ι users
  issues := []
  bets := []

/-- A token is one of a pair that was issued. -/
def OwnToken (s : IngressState ι) (token : String) : Prop :=
  ∃ pair ∈ s.issues, token = (generateJwt config.jwt config.settings pair.2).1 ∨
    token = (generateJwt config.jwt config.settings pair.2).2

/-- Nobody else signs with the key of the service. -/
def Unforged (s : IngressState ι) : IngressLabel ι → Prop
  | .bet (some cookie) _ _ => ∀ claims,
      config.jwt.encode claims config.settings.jwtSecretKey config.settings.jwtAlgorithm = cookie →
        OwnToken config s cookie
  | _ => True

end Steps

/-! ## Registrations go on -/

section Log

variable {lower : String → String} {uuid5 : Uuid → String → Uuid} {request : ι → UserRequest}
  {log log' : List (UserEvent ι)} {s t : UserState ι} {label : UserLabel ι}

/-- The log only grows. -/
theorem userStep_log (h : userStep lower uuid5 request s label = some t) :
    s.shared.log <+: t.shared.log := by
  rcases userStep_eq_some h with ⟨i, move, phone, shared, call', -, -, hadvanced, rfl⟩ |
    ⟨i, move, call', -, -, rfl⟩ | ⟨key, -, rfl⟩ | ⟨seconds, -, rfl⟩
  · generalize s.calls i = call at hadvanced
    cases hadvanced with
    | stored | right | wrong | created => exact List.prefix_append _ _
    | moved | cleared | acquired | allowed | counted | timed | cleaned | released =>
      exact List.prefix_refl _
  · exact List.prefix_refl _
  · exact List.prefix_refl _
  · exact List.prefix_refl _

omit [DecidableEq ι] in
/-- What an account was made from stays in the log. -/
theorem MadeFrom.mono {verifier issuer : ι} {user : AuthUser} (hlog : log ⊆ log')
    (h : MadeFrom lower uuid5 request log verifier issuer user) :
    MadeFrom lower uuid5 request log' verifier issuer user := by
  obtain ⟨v, r, phone, hv, hr, hvphone, hrphone, hcode, hstored, huser⟩ := h
  exact ⟨v, r, phone, hv, hr, hvphone, hrphone, hcode, hlog hstored, huser⟩

omit [DecidableEq ι] in
/-- The created rows grow with the log. -/
theorem createdRows_mono (hlog : log <+: log') : createdRows log <+: createdRows log' :=
  hlog.filterMap _

omit [DecidableEq ι] in
/-- Rows stay. -/
theorem Provenance.rows_subset {users : Table AuthUser}
    (hs : Provenance lower uuid5 request users s)
    (ht : Provenance lower uuid5 request users t) (hlog : s.shared.log <+: t.shared.log) :
    s.shared.users.rows ⊆ t.shared.users.rows := by
  rw [hs.rows, ht.rows]
  have hcreated := ((createdRows_mono hlog).map fun row : ι × ι × AuthUser => row.2.2).subset
  exact List.append_subset.mpr ⟨List.subset_append_left _ _,
    fun row hrow => List.mem_append_right _ (hcreated hrow)⟩

omit [DecidableEq ι] in
/-- A verification reads a row again that it has just created. -/
theorem refresh_of_verifyOtp {i : ι} {v : Verification} {phone : String}
    {store store' : UserStore ι}
    {call : UserCall ι} {move : UserMove} {user : AuthUser}
    (h : verifyOtp uuid5 i v phone store call move = some (store', .refresh user)) :
    ∃ issuer, store'.log = store.log ++ [.created i issuer user] := by
  unfold verifyOtp at h
  split at h
  case h_6 issued =>
    dsimp only at h
    split at h
    · cases h
    · cases h
      exact ⟨issued.issuer, rfl⟩
  all_goals grind

/-- A row that a verification reads again has been created by it. -/
theorem refresh_of_userStep (h : userStep lower uuid5 request s label = some t) {i : ι}
    {user : AuthUser} (hi : t.calls i = .refresh user) :
    s.calls i = .refresh user ∨
      ∃ issuer, t.shared.log = s.shared.log ++ [.created i issuer user] := by
  cases label with
  | call j move =>
    obtain ⟨shared, call', hadvance, rfl⟩ := interleave_eq_some_iff.mp h
    by_cases hij : i = j
    · subst hij
      obtain rfl : call' = .refresh user := by simpa using hi
      unfold advanceUser at hadvance
      split at hadvance
      · split at hadvance
        · cases hadvance
        · cases hadvance
      · split at hadvance
        · generalize s.calls i = call at hadvance
          unfold registerUser at hadvance
          grind
        · exact .inr (refresh_of_verifyOtp hadvance)
    · exact .inl (by simpa [hij] using hi)
  | vanish key =>
    obtain rfl := Option.some.inj h
    exact .inl hi
  | tick seconds =>
    obtain rfl := Option.some.inj h
    exact .inl hi

end Log

/-! ## The account behind a token -/

section Accounts

variable (config : IngressConfig) (request : ι → UserRequest)

/-- Why the tokens were issued for this account: its phone number was verified, or its phone
number came with a password that its hash verifies. -/
def Vouched (log : List (UserEvent ι)) (row : AuthUser) : TokenOrigin ι → Prop
  | .verified verifier =>
      ∃ issuer, MadeFrom config.lower config.uuid5 request log verifier issuer row
  | .loggedIn phone password => normalizePhone phone = some row.phone ∧
      verifyPassword config.kdf password row.passwordHash = .ok true

/-- The account that a pair of tokens was issued for. -/
structure TokenAccount (s : UserState ι) (pair : TokenOrigin ι × TokenIssue) (row : AuthUser) :
    Prop where
  registered : row ∈ s.shared.users.rows
  userId : pair.2.userId = row.id.text
  email : pair.2.email = row.email
  vouched : Vouched config request s.shared.log row pair.1

/-- A token of the pair, while it lives. -/
def LiveToken (issue : TokenIssue) (token : String) (now : Nat) : Prop :=
  (token = (generateJwt config.jwt config.settings issue).1 ∧
      (now : Int) < issue.now + minutesDelta config.settings.accessTokenExpireMinutes) ∨
    (token = (generateJwt config.jwt config.settings issue).2 ∧
      (now : Int) < issue.now + daysDelta config.settings.refreshTokenExpireDays)

/-- The account that a bet was submitted for: the event names it, and the cookie is a live
token that was issued for it. -/
structure BetAccount (s : IngressState ι) (bet : SubmittedBet) (row : AuthUser) : Prop where
  token : ∃ pair ∈ s.issues, TokenAccount config request s.service pair row ∧
    LiveToken config pair.2 bet.cookie bet.now
  user : bet.user.userId = row.id.text ∧ config.emailStr row.email = some bet.user.email
  event : ∃ event, submittedEvent config.sha256 config.uuid5 row.id.text bet.payload = .ok event ∧
    event.accountId = row.id.text ∧
    bet.publication = ⟨config.betsSubmittedTopic, event.idempotencyKey, event.modelDumpJson⟩

/-- The invariant of the service. -/
structure Accounted (users : Table AuthUser) (s : IngressState ι) : Prop where
  provenance : Provenance config.lower config.uuid5 request users s.service
  refresh : ∀ {i user}, s.service.calls i = .refresh user → user ∈ s.service.shared.users.rows ∧
    ∃ issuer, MadeFrom config.lower config.uuid5 request s.service.shared.log i issuer user
  issues : ∀ pair ∈ s.issues, ∃ row, TokenAccount config request s.service pair row
  bets : ∀ bet ∈ s.bets, ∃ row, BetAccount config request s bet row

end Accounts

section Steps

variable {config : IngressConfig} {request : ι → UserRequest} {users : Table AuthUser}
  {s t : IngressState ι} {row : AuthUser}

omit [DecidableEq ι] in
/-- The account of a token stays. -/
theorem TokenAccount.mono {s t : UserState ι} {pair : TokenOrigin ι × TokenIssue}
    (hrows : s.shared.users.rows ⊆ t.shared.users.rows) (hlog : s.shared.log ⊆ t.shared.log)
    (h : TokenAccount config request s pair row) : TokenAccount config request t pair row := by
  refine ⟨hrows h.registered, h.userId, h.email, ?_⟩
  have hvouched := h.vouched
  cases horigin : pair.1 with
  | verified verifier =>
    rw [horigin] at hvouched
    obtain ⟨issuer, hmade⟩ := hvouched
    exact ⟨issuer, hmade.mono hlog⟩
  | loggedIn phone password =>
    rw [horigin] at hvouched
    exact hvouched

omit [DecidableEq ι] in
/-- And the account of a bet. -/
theorem BetAccount.mono {bet : SubmittedBet}
    (hrows : s.service.shared.users.rows ⊆ t.service.shared.users.rows)
    (hlog : s.service.shared.log ⊆ t.service.shared.log) (hissues : s.issues ⊆ t.issues)
    (h : BetAccount config request s bet row) : BetAccount config request t bet row := by
  obtain ⟨pair, hpair, haccount, hlive⟩ := h.token
  exact ⟨⟨pair, hissues hpair, haccount.mono hrows hlog, hlive⟩, h.user, h.event⟩

omit [DecidableEq ι] in
/-- A step issues tokens to the user whose row it has refreshed. -/
theorem mem_tokensOf {s : UserState ι} {now : Nat} {label : UserLabel ι}
    {pair : TokenOrigin ι × TokenIssue} (h : pair ∈ tokensOf s now label) :
    ∃ i user, s.calls i = .refresh user ∧ pair = (.verified i, ⟨now, user.id.text, user.email⟩) := by
  unfold tokensOf at h
  split at h
  · split at h
    · exact ⟨_, _, by assumption, List.mem_singleton.mp h⟩
    · cases h
  · cases h

/-- The registrations and verifications go on. -/
theorem Accounted.userStep (h : Accounted config request users s) {label : UserLabel ι} {now : Nat}
    {service : UserState ι}
    (hstep : Ingress.userStep config.lower config.uuid5 request s.service label = some service) :
    Accounted config request users
      { s with service, issues := s.issues ++ tokensOf s.service now label } := by
  have hprovenance := provenance_step h.provenance hstep
  have hlog := userStep_log hstep
  have hrows := h.provenance.rows_subset hprovenance hlog
  have hkept : ∀ pair ∈ s.issues, ∃ row, TokenAccount config request service pair row :=
    fun pair hpair => (h.issues pair hpair).imp fun _ hrow => hrow.mono hrows hlog.subset
  refine ⟨hprovenance, fun {i user} hi => ?_, fun pair hpair => ?_, fun bet hbet => ?_⟩
  · rcases refresh_of_userStep hstep hi with hbefore | ⟨issuer, hcreated⟩
    · obtain ⟨hrow, issuer, hmade⟩ := h.refresh hbefore
      exact ⟨hrows hrow, issuer, hmade.mono hlog.subset⟩
    · have hnew : s.service.shared.log ++ [.created i issuer user] <+: service.shared.log := by
        rw [hcreated]
      have hmade := hprovenance.created hnew
      refine ⟨?_, issuer, hmade.mono hlog.subset⟩
      rw [hprovenance.rows, hcreated]
      simp [createdRows]
  · rcases List.mem_append.mp hpair with hpair | hpair
    · exact hkept pair hpair
    · obtain ⟨verifier, user, hrefresh, rfl⟩ := mem_tokensOf hpair
      obtain ⟨hrow, issuer, hmade⟩ := h.refresh hrefresh
      have hvouched : Vouched config request service.shared.log user (.verified verifier) :=
        ⟨issuer, hmade.mono hlog.subset⟩
      exact ⟨user, ⟨hrows hrow, rfl, rfl, hvouched⟩⟩
  · obtain ⟨row, hrow⟩ := h.bets bet hbet
    exact ⟨row, hrow.mono hrows hlog.subset (List.subset_append_left _ _)⟩

omit [DecidableEq ι] in
/-- What the tokens of a login are issued for. -/
theorem login_eq_ok {users : Table AuthUser} {phone password : String} {now : Nat}
    {issue : TokenIssue} (h : login config users phone password now = .ok issue) :
    ∃ row ∈ users.rows, normalizePhone phone = some row.phone ∧
      verifyPassword config.kdf password row.passwordHash = .ok true ∧
      issue = ⟨now, row.id.text, row.email⟩ := by
  unfold login at h
  split at h
  · cases h
  · rename_i normalized hphone
    split at h
    · cases h
    · rename_i user huser
      obtain ⟨hrow, rfl⟩ := Table.find_eq_some huser
      split at h
      · rename_i hverified
        exact ⟨user, hrow, hphone, hverified, (Except.ok.inj h).symm⟩
      · cases h
      · cases h

omit [DecidableEq ι] in
/-- A login issues tokens to a stored user with the password. -/
theorem mem_loginTokens {users : Table AuthUser} {phone password : String} {now : Nat}
    {pair : TokenOrigin ι × TokenIssue} (h : pair ∈ loginTokens config users phone password now) :
    ∃ row ∈ users.rows, normalizePhone phone = some row.phone ∧
      verifyPassword config.kdf password row.passwordHash = .ok true ∧
      pair = (.loggedIn phone password, ⟨now, row.id.text, row.email⟩) := by
  unfold loginTokens at h
  split at h
  · rename_i issue hlogin
    obtain ⟨row, hrow, hphone, hverified, rfl⟩ := login_eq_ok hlogin
    exact ⟨row, hrow, hphone, hverified, List.mem_singleton.mp h⟩
  · cases h

omit [DecidableEq ι] in
/-- A login issues tokens for the account of its phone number. -/
theorem Accounted.login (h : Accounted config request users s) (phone password : String)
    (now : Nat) :
    Accounted config request users { s with
      issues := s.issues ++ loginTokens config s.service.shared.users phone password now } := by
  refine ⟨h.provenance, h.refresh, fun pair hpair => ?_, fun bet hbet => ?_⟩
  · rcases List.mem_append.mp hpair with hpair | hpair
    · exact h.issues pair hpair
    · obtain ⟨row, hrow, hphone, hverified, rfl⟩ := mem_loginTokens hpair
      have hvouched : Vouched config request s.service.shared.log row (.loggedIn phone password) :=
        ⟨hphone, hverified⟩
      exact ⟨row, ⟨hrow, rfl, rfl, hvouched⟩⟩
  · obtain ⟨account, haccount⟩ := h.bets bet hbet
    exact ⟨account, BetAccount.mono (s := s) (List.Subset.refl _) (List.Subset.refl _)
      (List.subset_append_left _ _) haccount⟩

omit [DecidableEq ι] in
/-- A cookie that is accepted is a live token of the service. -/
theorem liveToken_of_authenticate {now : Nat} {cookie : String} {user : UserRecord}
    (hown : ∀ claims, config.jwt.encode claims config.settings.jwtSecretKey
      config.settings.jwtAlgorithm = cookie → OwnToken config s cookie)
    (h : authenticate config now (some cookie) = .ok user) :
    ∃ pair ∈ s.issues, LiveToken config pair.2 cookie now ∧ user.userId = pair.2.userId ∧
      config.emailStr pair.2.email = some user.email := by
  obtain ⟨claims, hencode, hlive, huser⟩ := accepted_iff.mp h
  obtain ⟨pair, hpair, htoken⟩ := hown claims hencode
  have hclaims : LiveToken config pair.2 cookie now ∧ claims.sub = pair.2.userId ∧
      claims.email = pair.2.email := by
    rcases htoken with haccess | hrefresh
    · obtain rfl := config.jwt.encode_injective (hencode.trans haccess)
      exact ⟨.inl ⟨haccess, lt_of_epochSeconds hlive⟩, rfl, rfl⟩
    · obtain rfl := config.jwt.encode_injective (hencode.trans hrefresh)
      exact ⟨.inr ⟨hrefresh, lt_of_epochSeconds hlive⟩, rfl, rfl⟩
  obtain ⟨htoken, hsub, hemail⟩ := hclaims
  rw [hsub, hemail] at huser
  unfold userOfClaims at huser
  split at huser
  · cases huser
  · simp only [Option.filter_none] at huser
    split at huser
    · rename_i email hvalid
      obtain rfl := Except.ok.inj huser
      exact ⟨pair, hpair, htoken, rfl, hvalid⟩
    · cases huser

omit [DecidableEq ι] in
/-- What an authenticated request publishes. -/
theorem publishBet_eq {cookie : String} {payload : BetCreateRequest} {now : Nat} {user : UserRecord}
    {publication : Publication} {response : BetAcceptedResponse}
    (huser : authenticate config now (some cookie) = .ok user)
    (hsubmit : submitBet config.sha256 config.uuid5 config.betsSubmittedTopic user.userId payload =
      .ok (publication, response)) :
    publishBet config cookie payload now = [⟨now, cookie, user, payload, publication⟩] := by
  simp only [publishBet, huser, hsubmit]

omit [DecidableEq ι] in
/-- A published bet comes from an authenticated request. -/
theorem mem_publishBet {cookie : String} {payload : BetCreateRequest} {now : Nat}
    {bet : SubmittedBet} (h : bet ∈ publishBet config cookie payload now) :
    ∃ user publication response, authenticate config now (some cookie) = .ok user ∧
      submitBet config.sha256 config.uuid5 config.betsSubmittedTopic user.userId payload =
        .ok (publication, response) ∧
      bet = ⟨now, cookie, user, payload, publication⟩ := by
  unfold publishBet at h
  split at h
  · cases h
  · rename_i user huser
    split at h
    · rename_i publication response hsubmit
      exact ⟨user, publication, response, huser, hsubmit, List.mem_singleton.mp h⟩
    · cases h

omit [DecidableEq ι] in
/-- A bet is published for the account of its cookie. -/
theorem Accounted.bet (h : Accounted config request users s) {cookie : String}
    (hown : ∀ claims, config.jwt.encode claims config.settings.jwtSecretKey
      config.settings.jwtAlgorithm = cookie → OwnToken config s cookie)
    (payload : BetCreateRequest) (now : Nat) :
    Accounted config request users
      { s with bets := s.bets ++ publishBet config cookie payload now } := by
  refine ⟨h.provenance, h.refresh, h.issues, fun bet hbet => ?_⟩
  rcases List.mem_append.mp hbet with hbet | hbet
  · obtain ⟨row, hrow⟩ := h.bets bet hbet
    exact ⟨row, hrow.token, hrow.user, hrow.event⟩
  · obtain ⟨user, publication, response, huser, hsubmit, rfl⟩ := mem_publishBet hbet
    obtain ⟨pair, hpair, hlive, huserId, hemail⟩ := liveToken_of_authenticate hown huser
    obtain ⟨row, hrow⟩ := h.issues pair hpair
    rw [huserId, hrow.userId] at hsubmit
    obtain ⟨event, hevent, hpublished⟩ := bind_eq_ok_iff.mp hsubmit
    obtain ⟨rfl, -⟩ := Prod.mk.inj (Except.ok.inj hpublished)
    refine ⟨row, ⟨pair, hpair, hrow, hlive⟩, ⟨huserId.trans hrow.userId, ?_⟩, event, hevent, ?_, rfl⟩
    · rw [← hrow.email]
      exact hemail
    · exact (submittedEvent_eq_ok hevent).accountId

/-- One step keeps track of the account behind each token and each bet. -/
theorem accounted_step {label : IngressLabel ι} (h : Accounted config request users s)
    (hown : Unforged config s label) (hstep : ingressStep config request s label = some t) :
    Accounted config request users t := by
  match label with
  | .user label now =>
    obtain ⟨service, hservice, rfl⟩ := Option.map_eq_some_iff.mp hstep
    exact h.userStep hservice
  | .login phone password now =>
    obtain rfl := Option.some.inj hstep
    exact h.login phone password now
  | .bet none payload now =>
    obtain rfl := Option.some.inj hstep
    exact h
  | .bet (some cookie) payload now =>
    obtain rfl := Option.some.inj hstep
    exact h.bet hown payload now

omit [DecidableEq ι] in
/-- Nothing is to be accounted for at the start. -/
theorem accounted_start : Accounted config request users (.start ι users) where
  provenance := provenance_start
  refresh := fun hi => by cases hi
  issues := by simp [IngressState.start]
  bets := by simp [IngressState.start]

/-- In every unforged run tokens and bets have their accounts. -/
theorem accounted_of_reaches
    (hrun : Reaches (ingressStep config request) (Unforged config) (.start ι users) s) :
    Accounted config request users s :=
  hrun.invariant accounted_start fun h hown hstep => accounted_step h hown hstep

/-- A step is one of the registrations and verifications, or leaves them as they are. -/
theorem service_step {label : IngressLabel ι} (h : ingressStep config request s label = some t) :
    t.service = s.service ∨
      ∃ label', userStep config.lower config.uuid5 request s.service label' = some t.service := by
  match label with
  | .user label now =>
    obtain ⟨service, hservice, rfl⟩ := Option.map_eq_some_iff.mp h
    exact .inr ⟨label, hservice⟩
  | .login phone password now =>
    obtain rfl := Option.some.inj h
    exact .inl rfl
  | .bet none payload now =>
    obtain rfl := Option.some.inj h
    exact .inl rfl
  | .bet (some cookie) payload now =>
    obtain rfl := Option.some.inj h
    exact .inl rfl

/-- In every run, with forged tokens or without, the registrations and verifications are a run
of their own. -/
theorem service_of_reachable
    (hrun : Reachable (ingressStep config request) (.start ι users) s) :
    Reachable (userStep config.lower config.uuid5 request) (.start ι users) s.service := by
  induction hrun with
  | refl => exact .refl
  | tail _ _ hstep ih =>
    rcases service_step hstep with hsame | ⟨label', hservice⟩
    · exact hsame ▸ ih
    · exact ih.tail trivial hservice

/-- However registrations, verifications, logins and bets interleave, as long as nobody forges
a token: every published bet names an account of `auth_users`, and came with a token that was
issued for this account, less than its lifetime ago, to the call that verified the phone number
of the account, or to somebody who logged in with that number and a password its hash
verifies. -/
theorem bets_have_accounts
    (hrun : Reaches (ingressStep config request) (Unforged config) (.start ι users) s) :
    ∀ bet ∈ s.bets, ∃ row ∈ s.service.shared.users.rows, BetAccount config request s bet row := by
  intro bet hbet
  obtain ⟨row, hrow⟩ := (accounted_of_reaches hrun).bets bet hbet
  obtain ⟨pair, -, haccount, -⟩ := hrow.token
  exact ⟨row, haccount.registered, hrow⟩

/-- However the service runs from an empty table: a login succeeds exactly with the phone number
of a verified registration, and a password that has the same key under the salt of this
registration as the password it was made with. -/
theorem login_succeeds_iff {passwords : ι → String} {salts : ι → Bytes}
    (hrun : Reachable (ingressStep config request) (.start ι .empty) s)
    (hhash : ∀ i r, request i = .register r →
      r.passwordHash = hashPassword config.kdf (passwords i) (salts i))
    {phone password : String} {now : Nat} :
    (∃ issue, login config s.service.shared.users phone password now = .ok issue) ↔
      ∃ verifier issuer, ∃ row ∈ s.service.shared.users.rows,
        MadeFrom config.lower config.uuid5 request s.service.shared.log verifier issuer row ∧
        normalizePhone phone = some row.phone ∧
        config.kdf.derive (utf8 password) (salts issuer) pbkdf2Iterations =
          config.kdf.derive (utf8 (passwords issuer)) (salts issuer) pbkdf2Iterations := by
  have hprovenance := provenance_of_reachable (service_of_reachable hrun)
  -- A row verifies exactly the passwords with the key of its registration.
  have hverify : ∀ {verifier issuer row},
      MadeFrom config.lower config.uuid5 request s.service.shared.log verifier issuer row →
      (verifyPassword config.kdf password row.passwordHash = .ok true ↔
        config.kdf.derive (utf8 password) (salts issuer) pbkdf2Iterations =
          config.kdf.derive (utf8 (passwords issuer)) (salts issuer) pbkdf2Iterations) := by
    rintro verifier issuer row ⟨v, r, normalized, -, hr, -, -, -, -, rfl⟩
    rw [hhash issuer r hr, verifyPassword_hashPassword, Except.ok.injEq, decide_eq_true_eq]
  constructor
  · rintro ⟨issue, hlogin⟩
    obtain ⟨row, hrow, hphone, hverified, -⟩ := login_eq_ok hlogin
    have hcreated := hrow
    rw [hprovenance.rows, show (Table.empty : Table AuthUser).rows = [] from rfl,
      List.nil_append] at hcreated
    obtain ⟨⟨verifier, issuer, user⟩, hmem, rfl⟩ := List.mem_map.mp hcreated
    obtain ⟨past, hpast⟩ := mem_createdRows hmem
    have hmade := (hprovenance.created hpast).mono
      ((List.prefix_append past _).trans hpast).subset
    exact ⟨verifier, issuer, user, hrow, hmade, hphone, (hverify hmade).mp hverified⟩
  · rintro ⟨verifier, issuer, row, hrow, hmade, hphone, hkey⟩
    have hkeys : ∀ r r' : AuthUser, r.phone = r'.phone → Schema.Clash r r' :=
      fun _ _ h => .inr (.inr (.inl h))
    have hfind : getByPhone s.service.shared.users row.phone = some row :=
      (Table.find_eq_some_iff hkeys).mpr ⟨hrow, rfl⟩
    have hverified := (hverify hmade).mpr hkey
    refine ⟨⟨now, row.id.text, row.email⟩, ?_⟩
    unfold login
    rw [hphone]
    dsimp only
    rw [hfind]
    dsimp only
    rw [hverified]

end Steps

/-! ## One customer -/

/-- The service with tokens in the clear and padded passwords. -/
noncomputable def sampleConfig : IngressConfig where
  settings := defaultSettings
  betsSubmittedTopic := "bets-submitted"
  jwt := clearTokens
  kdf := paddedPassword
  sha256 := sampleSha256
  uuid5 := fun _ _ => 7
  lower := id
  emailStr := some

/-- The registration of the customer, whose password is `correct horse`. -/
def passwordRegistration : Registration :=
  { customerRegistration with
    passwordHash := hashPassword paddedPassword "correct horse" (List.replicate 16 7) }

/-- The customer registers and sends the code back. -/
def passwordCalls : Fin 2 → UserRequest
  | 0 => .register passwordRegistration
  | 1 => .verify { phone := "+254712345678", otp := "123456" }

/-- The two calls one after the other, and a login. -/
def accountLabels : List (IngressLabel (Fin 2)) :=
  List.replicate 5 (.user (.call ⟨0, Nat.zero_lt_two⟩ .proceed) 1787659200000000) ++
    List.replicate 7 (.user (.call ⟨1, Nat.one_lt_two⟩ .proceed) 1787659200000000) ++
    [.login "0712 345 678" "correct horse" 1787659260000000]

/-- A registration, its verification and a login. -/
theorem exists_accountRun :
    ∃ s, Reaches (ingressStep sampleConfig passwordCalls) (Unforged sampleConfig)
        (.start (Fin 2) .empty) s ∧
      s.issues.map (fun pair => (pair.2.now, pair.2.userId, pair.2.email)) =
        [(1787659200000000, Uuid.text 7, "a@b.ke"), (1787659260000000, Uuid.text 7, "a@b.ke")] := by
  have hexec : (accountLabels.foldlM (ingressStep sampleConfig passwordCalls)
        (.start (Fin 2) .empty)).map
        (fun s => s.issues.map fun pair => (pair.2.now, pair.2.userId, pair.2.email)) =
      some [(1787659200000000, Uuid.text 7, "a@b.ke"),
        (1787659260000000, Uuid.text 7, "a@b.ke")] := by
    decide +kernel
  obtain ⟨s, hs, hissues⟩ := Option.map_eq_some_iff.mp hexec
  refine ⟨s, Reaches.of_foldlM_guarded (fun label hlabel state => ?_) hs, hissues⟩
  simp only [accountLabels, List.mem_append, List.mem_replicate, List.mem_singleton] at hlabel
  rcases hlabel with (⟨-, rfl⟩ | ⟨-, rfl⟩) | rfl <;> trivial

/-- What the tokens of the verification are issued for. -/
def sampleIssue : TokenIssue where
  now := 1787659200000000
  userId := Uuid.text 7
  email := "a@b.ke"

/-- The access token of the verification. -/
noncomputable def sampleCookie : String :=
  (generateJwt sampleConfig.jwt sampleConfig.settings sampleIssue).1

/-- The cookie of the example is a token of that run. -/
theorem ownToken_sampleCookie {s : IngressState (Fin 2)}
    (hissues : s.issues.map (fun pair => (pair.2.now, pair.2.userId, pair.2.email)) =
      [(1787659200000000, Uuid.text 7, "a@b.ke"), (1787659260000000, Uuid.text 7, "a@b.ke")]) :
    OwnToken sampleConfig s sampleCookie := by
  have hmem : (1787659200000000, Uuid.text 7, "a@b.ke") ∈
      s.issues.map fun pair => (pair.2.now, pair.2.userId, pair.2.email) := by
    rw [hissues]
    exact List.mem_cons_self
  obtain ⟨⟨origin, now, userId, email⟩, hpair, heq⟩ := List.mem_map.mp hmem
  obtain ⟨hnow, hrest⟩ := Prod.mk.inj heq
  obtain ⟨huserId, hemail⟩ := Prod.mk.inj hrest
  have hissue : TokenIssue.mk now userId email = sampleIssue := by
    rw [sampleIssue, TokenIssue.mk.injEq]
    exact ⟨hnow, huserId, hemail⟩
  exact ⟨_, hpair, .inl (by rw [hissue, sampleCookie])⟩

/-- The request of the example is published. -/
theorem sampleBet_ne_nil :
    publishBet sampleConfig sampleCookie sampleRequest 1787659260000000 ≠ [] := by
  have huser : authenticate sampleConfig 1787659260000000 (some sampleCookie) =
      .ok ⟨Uuid.text 7, "a@b.ke", ""⟩ :=
    accepted_iff.mpr ⟨accessClaims defaultSettings sampleIssue, rfl, by decide, rfl⟩
  obtain ⟨event, hevent⟩ := (@exists_submittedEvent_iff sampleConfig.sha256 sampleConfig.uuid5 7
    sampleRequest).mpr ⟨1787659200000, rfl, by decide⟩
  have hsubmit : submitBet sampleConfig.sha256 sampleConfig.uuid5 sampleConfig.betsSubmittedTopic
      (Uuid.text 7) sampleRequest = .ok _ :=
    bind_eq_ok_iff.mpr ⟨event, hevent, rfl⟩
  rw [publishBet_eq huser hsubmit]
  exact List.cons_ne_nil _ _

/-- The customer places a bet with the access token of the verification. -/
theorem bets_have_accounts_sample :
    ∃ s, Reaches (ingressStep sampleConfig passwordCalls) (Unforged sampleConfig)
        (.start (Fin 2) .empty) s ∧ s.bets ≠ [] ∧
      ∀ bet ∈ s.bets, ∃ row ∈ s.service.shared.users.rows,
        BetAccount sampleConfig passwordCalls s bet row := by
  obtain ⟨s, hs, hissues⟩ := exists_accountRun
  have hown : Unforged sampleConfig s (.bet (some sampleCookie) sampleRequest 1787659260000000) :=
    fun _ _ => ownToken_sampleCookie hissues
  have hnext := hs.tail hown rfl
  refine ⟨_, hnext, fun hnone => ?_, bets_have_accounts hnext⟩
  exact sampleBet_ne_nil (List.append_eq_nil_iff.mp hnone).2

/-- The registrations of the example store the hash of one password. -/
theorem passwordCalls_hash (i : Fin 2) (r : Registration) (h : passwordCalls i = .register r) :
    r.passwordHash = hashPassword sampleConfig.kdf "correct horse" (List.replicate 16 7) := by
  match i, h with
  | 0, h =>
    obtain rfl := UserRequest.register.inj h
    rfl
  | 1, h => cases h

/-- The customer's login comes from a registration. -/
theorem login_succeeds_iff_sample :
    ∃ s : IngressState (Fin 2), s.issues.length = 2 ∧
      ((∃ issue, login sampleConfig s.service.shared.users "0712345678" "correct horse" 0 =
          .ok issue) ↔
        ∃ verifier issuer, ∃ row ∈ s.service.shared.users.rows,
          MadeFrom sampleConfig.lower sampleConfig.uuid5 passwordCalls s.service.shared.log verifier
            issuer row ∧
          normalizePhone "0712345678" = some row.phone ∧
          sampleConfig.kdf.derive (utf8 "correct horse") (List.replicate 16 7) pbkdf2Iterations =
            sampleConfig.kdf.derive (utf8 "correct horse") (List.replicate 16 7)
              pbkdf2Iterations) := by
  obtain ⟨s, hs, hissues⟩ := exists_accountRun
  have hlength := congrArg List.length hissues
  rw [List.length_map] at hlength
  exact ⟨s, hlength, @login_succeeds_iff _ _ sampleConfig passwordCalls s (fun _ => "correct horse")
    (fun _ => List.replicate 16 7) hs.toReachable passwordCalls_hash _ _ _⟩

end Ingress
end BettingPlatform
