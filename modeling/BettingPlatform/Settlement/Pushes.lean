import BettingPlatform.Foundations.Base64
import BettingPlatform.Foundations.Trimming
import BettingPlatform.Settlement.Mpesa
import BettingPlatform.Settlement.OAuthCache

/-!
# Pushes that share a token

`initiate_stk_push` takes a token from the cache, posts the push, and when the gateway refuses
the token with 401, fetches another and posts the same payload again.

Any number of pushes run at once.  Each makes at most two calls of `get_access_token`, the
second of them forced.  A push runs without interruption from one await to the next, so the
step in which a call for a token ends is the step that posts.

Main results:

- Theorem `pushStep_cases`: what a step does with a push.
- Theorem `pushes_of_reachable`: what the gateway is sent, and with which tokens.
-/

namespace BettingPlatform
namespace Settlement

open Python Runs

/-! ## The request -/

/-- The settings that a push reads, beside those of the token. -/
structure MpesaSettings extends OAuthSettings where
  mpesaShortcode : String
  mpesaPasskey : String
  mpesaBaseUrl : String
  mpesaCallbackUrl : String
  ngrokUrl : String
  mpesaTransactionType : String

/-- `s.rstrip("/")`. -/
def rstripSlash (s : String) : String :=
  String.ofList (s.toList.rdropWhile fun c => c = '/')

/-- `s.strip()`. -/
def strip (s : String) : String :=
  String.ofList (trim isSpace s.toList)

/-- `derive_mpesa_callback_from_ngrok`: the callback URL after validation. -/
def MpesaSettings.callbackUrl (settings : MpesaSettings) : String :=
  if strip settings.mpesaCallbackUrl ≠ "" then rstripSlash (strip settings.mpesaCallbackUrl)
  else
    let base := rstripSlash (strip settings.ngrokUrl)
    if base ≠ "" then base ++ "/api/v1/mpesa/callback" else settings.mpesaCallbackUrl

/-- `mpesa_stk_push_url`. -/
def MpesaSettings.stkPushUrl (settings : MpesaSettings) : String :=
  rstripSlash settings.mpesaBaseUrl ++ "/mpesa/stkpush/v1/processrequest"

/-- The arguments of `initiate_stk_push`. -/
structure StkPushRequest where
  deposit : MpesaDepositRequest
  accountReference : String
  transactionDesc : String

/-- The password of `stk_password_and_timestamp`. -/
def stkPassword (shortcode passkey timestamp : String) : String :=
  String.ofList (Base64.encode (utf8 (shortcode ++ passkey ++ timestamp)))

/-- The payload of a push. -/
def stkPayload (settings : MpesaSettings) (request : StkPushRequest) (timestamp : String) :
    Except PyError Json := do
  let shortcodeInt ← (Json.str settings.mpesaShortcode).toInt
  let phoneInt ← (Json.str request.deposit.phoneNumber).toInt
  .ok (.dict
    [("BusinessShortCode", .int shortcodeInt),
      ("Password", .str (stkPassword settings.mpesaShortcode settings.mpesaPasskey timestamp)),
      ("Timestamp", .str timestamp),
      ("TransactionType", .str settings.mpesaTransactionType),
      ("Amount", .int request.deposit.amount),
      ("PartyA", .int phoneInt),
      ("PartyB", .int shortcodeInt),
      ("PhoneNumber", .int phoneInt),
      ("CallBackURL", .str (rstripSlash settings.callbackUrl)),
      ("AccountReference", .str request.accountReference),
      ("TransactionDesc", .str request.transactionDesc)])

/-- How a post ends: the JSON value of a body is missing when the body is not JSON. -/
inductive PushAnswer
  | transportError
  | response (statusCode : Int) (text : String) (payload : Option Json)

/-- The gateway refuses the token. -/
def PushAnswer.isUnauthorized : PushAnswer → Bool
  | .transportError => false
  | .response statusCode _ _ => statusCode = 401

/-- The end of `initiate_stk_push`. -/
def stkPushResult : PushAnswer → Except OAuthRaised Json
  | .transportError => .error .transport
  | .response statusCode text payload =>
      if statusCode ≠ 200 then
        .error (.httpException 502
          ("Safaricom STK Push failed: HTTP " ++ toString statusCode ++ " — " ++ text))
      else payload.elim (.error (.python .valueError)) .ok

/-! ## Pushes -/

/-- A post of a push.  The token that the header carries and the clock when it was sent are
not part of the program. -/
structure StkPost where
  url : String
  authorization : String
  payload : Json
  token : Json
  sentAt : PyFloat

/-- Where a push stands. -/
inductive PushCall
  | notStarted
  | gettingToken
  | posting (payload : Json)
  | refreshing (payload : Json)
  | reposting
  | returned (gateway : Json)
  | raised (e : OAuthRaised)

/-- The calls for tokens, the pushes, and what each has sent and been answered. -/
structure PushState (ι : Type) where
  tokens : Interleaved (OAuthState (ι × Bool)) (ι × Bool) TokenCall
  calls : ι → PushCall
  sent : ι → List StkPost
  answered : ι → List PushAnswer

/-- Nothing has happened yet. -/
def PushState.initial (ι : Type) : PushState ι where
  tokens := OAuthState.initial
  calls _ := .notStarted
  sent _ := []
  answered _ := []

/-- What happens next. -/
inductive PushLabel (ι : Type)
  /-- A push is called, or its call for a token goes on; `timestamp` is the local time. -/
  | token (i : ι) (resume : OAuthResume) (timestamp : String)
  /-- A post is answered; after a 401 the push calls for another token at once. -/
  | answer (i : ι) (answer : PushAnswer) (resume : OAuthResume)

section Steps

variable {ι : Type} [DecidableEq ι] (settings : MpesaSettings) (pyRepr : Json → String)

/-- A push gets somewhere. -/
def PushState.setCall (s : PushState ι) (i : ι) (call : PushCall) : PushState ι :=
  { s with calls := Function.update s.calls i call }

/-- The post of a payload with a token. -/
def stkPost (token payload : Json) (now : PyFloat) : StkPost where
  url := settings.stkPushUrl
  authorization := "Bearer " ++ token.toStr pyRepr
  payload := payload
  token := token
  sentAt := now

/-- A step of the call for a token that a push waits for.  When the call ends there, the push
posts its payload. -/
def followToken (i : ι) (force : Bool) (payload : Except OAuthRaised Json) (waiting : PushCall)
    (posting : Json → PushCall) (s : PushState ι) (resume : OAuthResume) : Option (PushState ι) :=
  match oauthStep settings.toOAuthSettings Prod.snd s.tokens ((i, force), resume) with
  | none => none
  | some tokens =>
      let s := { s with tokens }
      match tokens.calls (i, force) with
      | .raised e => some (s.setCall i (.raised e))
      | .returned token =>
          match payload with
          | .error e => some (s.setCall i (.raised e))
          | .ok payload =>
              let post := stkPost settings pyRepr token payload tokens.shared.now
              some ({ s with sent := Function.update s.sent i (s.sent i ++ [post]) }.setCall i
                (posting payload))
      | _ => some (s.setCall i waiting)

/-- The end of a push. -/
def PushState.finish (s : PushState ι) (i : ι) (answer : PushAnswer) : PushState ι :=
  s.setCall i (match stkPushResult answer with
    | .error e => .raised e
    | .ok gateway => .returned gateway)

/-- One step of `initiate_stk_push`, from one await to the next. -/
def pushStep (requests : ι → StkPushRequest) (s : PushState ι) :
    PushLabel ι → Option (PushState ι)
  | .token i resume timestamp =>
      let payload := (stkPayload settings (requests i) timestamp).mapError .python
      match s.calls i with
      | .notStarted =>
          if settings.callbackUrl = "" then
            some (s.setCall i (.raised (.httpException 503 "MPESA_CALLBACK_URL is not configured")))
          else followToken settings pyRepr i false payload .gettingToken .posting s resume
      | .gettingToken => followToken settings pyRepr i false payload .gettingToken .posting s resume
      | .refreshing payload =>
          followToken settings pyRepr i true (.ok payload) (.refreshing payload)
            (fun _ => .reposting) s resume
      | _ => none
  | .answer i answer resume =>
      let answered := Function.update s.answered i (s.answered i ++ [answer])
      match s.calls i with
      | .posting payload =>
          if answer.isUnauthorized then
            followToken settings pyRepr i true (.ok payload) (.refreshing payload)
              (fun _ => .reposting) { s with answered } resume
          else some (PushState.finish { s with answered } i answer)
      | .reposting => some (PushState.finish { s with answered } i answer)
      | _ => none

end Steps

/-! ## Where a token comes from -/

section Tokens

variable {κ : Type} [DecidableEq κ] {settings : OAuthSettings} {forceRefresh : κ → Bool}
  {s t : Interleaved (OAuthState κ) κ TokenCall} {k : κ}

/-- Answers stay. -/
theorem answers_grow {label : κ × OAuthResume}
    (h : oauthStep settings forceRefresh s label = some t) :
    s.shared.answers <+: t.shared.answers := by
  obtain ⟨shared, call, hstep, rfl⟩ := interleave_eq_some_iff.mp h
  have hmoves := getAccessToken_moves hstep
  generalize s.calls label.1 = before at hmoves
  cases hmoves with
  | queued => exact List.prefix_rfl
  | served => exact List.prefix_rfl
  | failed => exact List.prefix_rfl
  | requested => exact List.prefix_rfl
  | refused => exact List.prefix_append _ _
  | fetched => exact List.prefix_append _ _

omit [DecidableEq κ] in
/-- What was fetched stays fetched. -/
theorem Fetched.mono {answers answers' : List (κ × OAuthAnswer × PyFloat)}
    {fetched : Json × PyFloat}
    (h : Fetched answers k fetched) (hgrows : answers <+: answers') :
    Fetched answers' k fetched := by
  obtain ⟨answer, now, hmem, hfetched⟩ := h
  exact ⟨answer, now, hgrows.subset hmem, hfetched⟩

/-- A call returns what it has fetched; one that is not forced may return what another call has
fetched, outside the margin. -/
theorem token_source (hrun : Reachable (oauthStep settings forceRefresh) OAuthState.initial s)
    {resume : OAuthResume} {token : Json}
    (h : oauthStep settings forceRefresh s (k, resume) = some t)
    (hreturned : t.calls k = .returned token) :
    ∃ fetcher expiresAt, Fetched t.shared.answers fetcher (token, expiresAt) ∧
      (fetcher = k ∨ forceRefresh k = false ∧
        outsideMargin settings expiresAt t.shared.now = .ok true) := by
  have hsource := (tokenInvariant_of_reachable hrun).source
  obtain ⟨shared, call, hstep, rfl⟩ := interleave_eq_some_iff.mp h
  obtain rfl : call = .returned token := by simpa using hreturned
  have hmoves := getAccessToken_moves hstep
  generalize s.calls k = before at hmoves
  cases hmoves with
  | fetched hclock hfetched => exact ⟨k, _, fetched_concat.mpr (.inr ⟨rfl, hfetched⟩), .inl rfl⟩
  | served hbefore hclock hcached =>
      obtain ⟨hforce, rfl, houtside⟩ := cachedToken_eq_some hcached
      rcases hsource with hempty | ⟨fetcher, hfetched⟩
      · -- an empty cache serves nothing
        simp [cachedToken, hempty, Json.truthy] at hcached
      · exact ⟨fetcher, _, hfetched, .inr ⟨hforce, houtside⟩⟩

end Tokens

/-! ## What a step does -/

section Moves

variable {ι : Type} [DecidableEq ι] (settings : MpesaSettings) (pyRepr : Json → String)

/-- A step of a call for a token of a push. -/
def Follows (s : PushState ι) (i : ι) (force : Bool)
    (tokens : Interleaved (OAuthState (ι × Bool)) (ι × Bool) TokenCall) : Prop :=
  ∃ resume, oauthStep settings.toOAuthSettings Prod.snd s.tokens ((i, force), resume) = some tokens

/-- The state with one push moved on. -/
def PushState.move (s : PushState ι)
    (tokens : Interleaved (OAuthState (ι × Bool)) (ι × Bool) TokenCall) (i : ι) (call : PushCall)
    (posts : List StkPost) (answers : List PushAnswer) : PushState ι where
  tokens := tokens
  calls := Function.update s.calls i call
  sent := Function.update s.sent i (s.sent i ++ posts)
  answered := Function.update s.answered i (s.answered i ++ answers)

/-- A push that waits for its first token. -/
def PushCall.Asking : PushCall → Prop
  | .notStarted | .gettingToken => True
  | _ => False

/-- Everything a step does with a push. -/
inductive PushMoves (request : StkPushRequest) (s : PushState ι) (i : ι) : PushState ι → Prop
  | unconfigured {e : OAuthRaised} : (s.calls i).Asking →
      PushMoves request s i (s.move s.tokens i (.raised e) [] [])
  | asked {tokens : Interleaved (OAuthState (ι × Bool)) (ι × Bool) TokenCall} {call : PushCall} :
      (s.calls i).Asking → Follows settings s i false tokens →
      call = .gettingToken ∨ (∃ e, call = .raised e) →
      PushMoves request s i (s.move tokens i call [] [])
  | posted {tokens : Interleaved (OAuthState (ι × Bool)) (ι × Bool) TokenCall}
      {token payload : Json} {timestamp : String} :
      (s.calls i).Asking → Follows settings s i false tokens →
      tokens.calls (i, false) = .returned token →
      stkPayload settings request timestamp = .ok payload →
      PushMoves request s i (s.move tokens i (.posting payload)
        [stkPost settings pyRepr token payload tokens.shared.now] [])
  | refused {tokens : Interleaved (OAuthState (ι × Bool)) (ι × Bool) TokenCall} {payload : Json}
      {call : PushCall} {answer : PushAnswer} :
      s.calls i = .posting payload → answer.isUnauthorized → Follows settings s i true tokens →
      call = .refreshing payload ∨ (∃ e, call = .raised e) →
      PushMoves request s i (s.move tokens i call [] [answer])
  | refreshed {tokens : Interleaved (OAuthState (ι × Bool)) (ι × Bool) TokenCall} {payload : Json}
      {call : PushCall} :
      s.calls i = .refreshing payload → Follows settings s i true tokens →
      call = .refreshing payload ∨ (∃ e, call = .raised e) →
      PushMoves request s i (s.move tokens i call [] [])
  | reposted {tokens : Interleaved (OAuthState (ι × Bool)) (ι × Bool) TokenCall}
      {token payload : Json} {answers : List PushAnswer} :
      s.calls i = .refreshing payload ∧ answers = [] ∨
        s.calls i = .posting payload ∧ (∃ a, answers = [a] ∧ a.isUnauthorized) →
      Follows settings s i true tokens → tokens.calls (i, true) = .returned token →
      PushMoves request s i (s.move tokens i .reposting
        [stkPost settings pyRepr token payload tokens.shared.now] answers)
  | finished {answer : PushAnswer} :
      (∃ payload, s.calls i = .posting payload) ∨ s.calls i = .reposting →
      PushMoves request s i (s.move s.tokens i
        (match stkPushResult answer with
          | .error e => .raised e
          | .ok gateway => .returned gateway) [] [answer])

/-- What happens when a push's call for a token takes a step. -/
inductive Followed (s : PushState ι) (i : ι) (force : Bool) (payload : Except OAuthRaised Json)
    (waiting : PushCall) (posting : Json → PushCall) : PushState ι → Prop
  | waits {tokens : Interleaved (OAuthState (ι × Bool)) (ι × Bool) TokenCall} {call : PushCall} :
      Follows settings s i force tokens → call = waiting ∨ (∃ e, call = .raised e) →
      Followed s i force payload waiting posting (s.move tokens i call [] [])
  | posts {tokens : Interleaved (OAuthState (ι × Bool)) (ι × Bool) TokenCall}
      {token sent : Json} :
      Follows settings s i force tokens → tokens.calls (i, force) = .returned token →
      payload = .ok sent →
      Followed s i force payload waiting posting (s.move tokens i (posting sent)
        [stkPost settings pyRepr token sent tokens.shared.now] [])

variable {settings pyRepr} {s t : PushState ι} {i : ι}

/-- A push that only gets somewhere. -/
theorem PushState.move_nil (s : PushState ι)
    (tokens : Interleaved (OAuthState (ι × Bool)) (ι × Bool) TokenCall) (i : ι) (call : PushCall) :
    s.move tokens i call [] [] = { s with tokens }.setCall i call := by
  simp [move, setCall]

/-- What a push does with its token is one of the cases listed. -/
theorem followed_of_followToken {force : Bool} {payload : Except OAuthRaised Json}
    {waiting : PushCall} {posting : Json → PushCall} {resume : OAuthResume}
    (h : followToken settings pyRepr i force payload waiting posting s resume = some t) :
    Followed settings pyRepr s i force payload waiting posting t := by
  unfold followToken at h
  split at h
  · contradiction
  · rename_i tokens hstep
    have hfollows : Follows settings s i force tokens := ⟨resume, hstep⟩
    split at h
    · rename_i e _
      obtain rfl := Option.some.inj h
      rw [← PushState.move_nil]
      exact .waits hfollows (.inr ⟨e, rfl⟩)
    · rename_i token htoken
      split at h
      · rename_i e
        obtain rfl := Option.some.inj h
        rw [← PushState.move_nil]
        exact .waits hfollows (.inr ⟨e, rfl⟩)
      · rename_i sent
        obtain rfl := Option.some.inj h
        have hposts := @Followed.posts ι _ settings pyRepr s i force _ waiting posting _ _ _
          hfollows htoken (rfl : Except.ok sent = .ok sent)
        simpa [PushState.move, PushState.setCall] using hposts
    · obtain rfl := Option.some.inj h
      rw [← PushState.move_nil]
      exact .waits hfollows (.inl rfl)

/-- A push that asks for its first token waits on, ends, or posts. -/
theorem Followed.asked {request : StkPushRequest} {timestamp : String}
    (hcall : (s.calls i).Asking)
    (h : Followed settings pyRepr s i false
      ((stkPayload settings request timestamp).mapError .python) .gettingToken .posting t) : PushMoves settings pyRepr request s i t := by
  cases h with
  | waits hfollows hwaits => exact .asked hcall hfollows hwaits
  | posts hfollows htoken hpayload =>
      cases hbuilt : stkPayload settings request timestamp with
      | error e =>
          rw [hbuilt] at hpayload
          contradiction
      | ok payload =>
          rw [hbuilt] at hpayload
          obtain rfl := Except.ok.inj hpayload
          exact .posted hcall hfollows htoken hbuilt

/-- The cases of a step. -/
theorem pushStep_cases {requests : ι → StkPushRequest} {label : PushLabel ι}
    (h : pushStep settings pyRepr requests s label = some t) :
    ∃ i, PushMoves settings pyRepr (requests i) s i t := by
  cases label with
  | token i resume timestamp =>
      refine ⟨i, ?_⟩
      simp only [pushStep] at h
      split at h
      · rename_i hcall
        split at h
        · obtain rfl := Option.some.inj h
          rw [← PushState.move_nil]
          exact .unconfigured (by rw [hcall]; trivial)
        · exact (followed_of_followToken h).asked (by rw [hcall]; trivial)
      · rename_i hcall
        exact (followed_of_followToken h).asked (by rw [hcall]; trivial)
      · rename_i payload hcall
        cases followed_of_followToken h with
        | waits hfollows hwaits => exact .refreshed hcall hfollows hwaits
        | posts hfollows htoken hpayload =>
            obtain rfl := Except.ok.inj hpayload
            exact .reposted (.inl ⟨hcall, rfl⟩) hfollows htoken
      · contradiction
  | answer i answer resume =>
      refine ⟨i, ?_⟩
      simp only [pushStep] at h
      split at h
      · rename_i payload hcall
        split at h
        · rename_i hunauthorized
          cases followed_of_followToken h with
          | waits hfollows hwaits =>
              have hmoves := @PushMoves.refused ι _ settings pyRepr (requests i) s i _ _ _ answer
                hcall hunauthorized hfollows hwaits
              simpa [PushState.move] using hmoves
          | posts hfollows htoken hpayload =>
              obtain rfl := Except.ok.inj hpayload
              have hmoves := @PushMoves.reposted ι _ settings pyRepr (requests i) s i _ _ _ [answer]
                (.inr ⟨hcall, answer, rfl, hunauthorized⟩) hfollows htoken
              simpa [PushState.move] using hmoves
        · obtain rfl := Option.some.inj h
          have hmoves := @PushMoves.finished ι _ settings pyRepr (requests i) s i answer
            (.inl ⟨payload, hcall⟩)
          simpa [PushState.move, PushState.finish, PushState.setCall] using hmoves
      · rename_i hcall
        obtain rfl := Option.some.inj h
        have hmoves := @PushMoves.finished ι _ settings pyRepr (requests i) s i answer (.inr hcall)
        simpa [PushState.move, PushState.finish, PushState.setCall] using hmoves
      · contradiction

end Moves

/-! ## The invariant -/

section Invariant

variable {ι : Type} [DecidableEq ι] {settings : MpesaSettings} {pyRepr : Json → String}
  {requests : ι → StkPushRequest} {s t : PushState ι} {i : ι}

/-- A post of push `i` carries its request, and a token that was fetched by the push or was
outside the margin when the post was sent. -/
structure StkPost.Genuine (settings : MpesaSettings) (pyRepr : Json → String)
    (request : StkPushRequest) (answers : List ((ι × Bool) × OAuthAnswer × PyFloat)) (i : ι)
    (p : StkPost) : Prop where
  url : p.url = settings.stkPushUrl
  authorization : p.authorization = "Bearer " ++ p.token.toStr pyRepr
  payload : ∃ timestamp, stkPayload settings request timestamp = .ok p.payload
  token : ∃ fetcher expiresAt, Fetched answers fetcher (p.token, expiresAt) ∧
    (fetcher.1 = i ∨ outsideMargin settings.toOAuthSettings expiresAt p.sentAt = .ok true)

/-- A second post repeats the first after a 401, with a token of the push's own. -/
structure Retried (answers : List ((ι × Bool) × OAuthAnswer × PyFloat)) (i : ι)
    (posts : List StkPost) (answered : List PushAnswer) : Prop where
  length_le : posts.length ≤ 2
  again : ∀ p q, posts = [p, q] → q.payload = p.payload ∧
    (∃ a, answered.head? = some a ∧ a.isUnauthorized) ∧
    ∃ expiresAt, Fetched answers (i, true) (q.token, expiresAt)

/-- How far a push has come, by what it has sent and been answered. -/
def PushCall.Fits (posts : List StkPost) (answered : List PushAnswer) : PushCall → Prop
  | .notStarted | .gettingToken => posts = [] ∧ answered = []
  | .posting payload => ∃ p, posts = [p] ∧ p.payload = payload ∧ answered = []
  | .refreshing payload => ∃ p a, posts = [p] ∧ p.payload = payload ∧ answered = [a] ∧
      a.isUnauthorized
  | .reposting => ∃ p q a, posts = [p, q] ∧ answered = [a]
  | .returned gateway => posts.length = answered.length ∧
      ∃ a, answered.getLast? = some a ∧ stkPushResult a = .ok gateway
  | .raised _ => True

/-- What holds between any two steps. -/
structure PushInvariant (settings : MpesaSettings) (pyRepr : Json → String)
    (requests : ι → StkPushRequest) (s : PushState ι) : Prop where
  tokens : Reachable (oauthStep settings.toOAuthSettings Prod.snd) OAuthState.initial s.tokens
  genuine : ∀ i, ∀ p ∈ s.sent i,
    p.Genuine settings pyRepr (requests i) s.tokens.shared.answers i
  retried : ∀ i, Retried s.tokens.shared.answers i (s.sent i) (s.answered i)
  fits : ∀ i, (s.calls i).Fits (s.sent i) (s.answered i)

omit [DecidableEq ι] in
/-- A genuine post stays genuine. -/
theorem StkPost.Genuine.mono {request : StkPushRequest}
    {answers answers' : List ((ι × Bool) × OAuthAnswer × PyFloat)} {p : StkPost}
    (h : p.Genuine settings pyRepr request answers i) (hgrows : answers <+: answers') :
    p.Genuine settings pyRepr request answers' i := by
  obtain ⟨fetcher, expiresAt, hfetched, hfresh⟩ := h.token
  exact ⟨h.url, h.authorization, h.payload, fetcher, expiresAt, hfetched.mono hgrows, hfresh⟩

omit [DecidableEq ι] in
/-- And a retried one retried. -/
theorem Retried.mono {answers answers' : List ((ι × Bool) × OAuthAnswer × PyFloat)}
    {posts : List StkPost} {answered : List PushAnswer} (h : Retried answers i posts answered)
    (hgrows : answers <+: answers') : Retried answers' i posts answered := by
  refine ⟨h.length_le, fun p q hposts => ?_⟩
  obtain ⟨hpayload, hrefused, expiresAt, hfetched⟩ := h.again p q hposts
  exact ⟨hpayload, hrefused, expiresAt, hfetched.mono hgrows⟩

/-- What a move has to keep. -/
theorem PushInvariant.move (h : PushInvariant settings pyRepr requests s)
    {tokens : Interleaved (OAuthState (ι × Bool)) (ι × Bool) TokenCall} {call : PushCall}
    {posts : List StkPost} {answers : List PushAnswer}
    (htokens : tokens = s.tokens ∨ ∃ force, Follows settings s i force tokens)
    (hgenuine : ∀ p ∈ posts, p.Genuine settings pyRepr (requests i) tokens.shared.answers i)
    (hretried : Retried tokens.shared.answers i (s.sent i ++ posts) (s.answered i ++ answers))
    (hfits : call.Fits (s.sent i ++ posts) (s.answered i ++ answers)) :
    PushInvariant settings pyRepr requests (s.move tokens i call posts answers) := by
  have hgrows : s.tokens.shared.answers <+: tokens.shared.answers := by
    rcases htokens with rfl | ⟨force, resume, hstep⟩
    · exact List.prefix_rfl
    · exact answers_grow hstep
  refine ⟨?_, fun j p hp => ?_, fun j => ?_, fun j => ?_⟩
  · rcases htokens with rfl | ⟨force, resume, hstep⟩
    · exact h.tokens
    · exact h.tokens.tail trivial hstep
  · by_cases hj : j = i
    · subst hj
      simp only [PushState.move, Function.update_self, List.mem_append] at hp
      rcases hp with hp | hp
      · exact (h.genuine j p hp).mono hgrows
      · exact hgenuine p hp
    · simp only [PushState.move, Function.update_of_ne hj] at hp
      exact (h.genuine j p hp).mono hgrows
  · by_cases hj : j = i
    · subst hj
      simpa [PushState.move] using hretried
    · simpa [PushState.move, Function.update_of_ne hj] using (h.retried j).mono hgrows
  · by_cases hj : j = i
    · subst hj
      simpa [PushState.move] using hfits
    · simpa [PushState.move, Function.update_of_ne hj] using h.fits j

/-- A first post with a token that a call returned. -/
theorem genuine_stkPost (h : PushInvariant settings pyRepr requests s) {force : Bool}
    {tokens : Interleaved (OAuthState (ι × Bool)) (ι × Bool) TokenCall} {token payload : Json}
    {timestamp : String} (hfollows : Follows settings s i force tokens)
    (htoken : tokens.calls (i, force) = .returned token)
    (hpayload : stkPayload settings (requests i) timestamp = .ok payload) :
    (stkPost settings pyRepr token payload tokens.shared.now).Genuine settings pyRepr (requests i)
      tokens.shared.answers i := by
  obtain ⟨resume, hstep⟩ := hfollows
  obtain ⟨fetcher, expiresAt, hfetched, hfresh⟩ := token_source h.tokens hstep htoken
  refine ⟨rfl, rfl, ⟨timestamp, hpayload⟩, fetcher, expiresAt, hfetched, ?_⟩
  rcases hfresh with rfl | ⟨-, houtside⟩
  · exact .inl rfl
  · exact .inr houtside

omit [DecidableEq ι] in
/-- A push with one post has not repeated it. -/
theorem Retried.of_length_le {answers : List ((ι × Bool) × OAuthAnswer × PyFloat)}
    {posts : List StkPost} {answered : List PushAnswer} (h : posts.length ≤ 1) :
    Retried answers i posts answered := by
  refine ⟨h.trans (by decide), ?_⟩
  rintro p q rfl
  simp at h

/-- A push that asks for its first token has sent nothing. -/
theorem PushCall.Asking.fits {call : PushCall} {posts : List StkPost} {answered : List PushAnswer}
    (h : call.Asking) (hfits : call.Fits posts answered) : posts = [] ∧ answered = [] := by
  cases call with
  | notStarted => exact hfits
  | gettingToken => exact hfits
  | posting | refreshing | reposting | returned | raised => exact h.elim

/-- A push that ends is answered what its last post was. -/
theorem fits_finished {posts : List StkPost} {answered : List PushAnswer} {answer : PushAnswer}
    (hlength : posts.length = answered.length + 1) :
    PushCall.Fits posts (answered ++ [answer])
      (match stkPushResult answer with
        | .error e => .raised e
        | .ok gateway => .returned gateway) := by
  cases hresult : stkPushResult answer with
  | error e => trivial
  | ok gateway => exact ⟨by simp [hlength], answer, List.getLast?_concat, hresult⟩

/-- A step keeps the invariant. -/
theorem PushInvariant.step (h : PushInvariant settings pyRepr requests s) {label : PushLabel ι}
    (hstep : pushStep settings pyRepr requests s label = some t) :
    PushInvariant settings pyRepr requests t := by
  obtain ⟨i, hmoves⟩ := pushStep_cases hstep
  have hfits := h.fits i
  have hretried := h.retried i
  cases hmoves with
  | unconfigured hcall =>
      apply h.move (.inl rfl) (by simp)
      · simpa using hretried
      · trivial
  | asked hcall hfollows hwaits =>
      obtain ⟨hposts, hanswered⟩ := hcall.fits hfits
      apply h.move (.inr ⟨_, hfollows⟩) (by simp)
      · exact .of_length_le (by simp [hposts])
      · rcases hwaits with rfl | ⟨e, rfl⟩
        · simp [PushCall.Fits, hposts, hanswered]
        · trivial
  | posted hcall hfollows htoken hpayload =>
      obtain ⟨hposts, hanswered⟩ := hcall.fits hfits
      apply h.move (.inr ⟨_, hfollows⟩)
      · simpa using genuine_stkPost h hfollows htoken hpayload
      · exact .of_length_le (by simp [hposts])
      · exact ⟨_, by rw [hposts, List.nil_append], rfl, by simp [hanswered]⟩
  | refused hcall hunauthorized hfollows hwaits =>
      rw [hcall] at hfits
      obtain ⟨p, hposts, hpayload, hanswered⟩ := hfits
      apply h.move (.inr ⟨_, hfollows⟩) (by simp)
      · exact .of_length_le (by simp [hposts])
      · rcases hwaits with rfl | ⟨e, rfl⟩
        · exact ⟨p, _, by simp [hposts], hpayload, by simp [hanswered], hunauthorized⟩
        · trivial
  | refreshed hcall hfollows hwaits =>
      rw [hcall] at hfits
      obtain ⟨p, a, hposts, hpayload, hanswered, hunauthorized⟩ := hfits
      apply h.move (.inr ⟨_, hfollows⟩) (by simp)
      · exact .of_length_le (by simp [hposts])
      · rcases hwaits with rfl | ⟨e, rfl⟩
        · exact ⟨p, a, by simp [hposts], hpayload, by simp [hanswered], hunauthorized⟩
        · trivial
  | @reposted tokens token payload answers hcall hfollows htoken =>
      -- the one post there is, and the 401 it was answered with
      obtain ⟨p, a, hposts, hpayload, hanswered, hunauthorized⟩ : ∃ p a, s.sent i = [p] ∧
          p.payload = payload ∧ s.answered i ++ answers = [a] ∧ a.isUnauthorized := by
        rcases hcall with ⟨hcall, rfl⟩ | ⟨hcall, a, rfl, hunauthorized⟩
        · rw [hcall] at hfits
          obtain ⟨p, a, hposts, hpayload, hanswered, hunauthorized⟩ := hfits
          exact ⟨p, a, hposts, hpayload, by simp [hanswered], hunauthorized⟩
        · rw [hcall] at hfits
          obtain ⟨p, hposts, hpayload, hanswered⟩ := hfits
          exact ⟨p, a, hposts, hpayload, by simp [hanswered], hunauthorized⟩
      obtain ⟨timestamp, hbuilt⟩ := (h.genuine i p (by simp [hposts])).payload
      rw [hpayload] at hbuilt
      apply h.move (.inr ⟨_, hfollows⟩)
      · simpa using genuine_stkPost h hfollows htoken hbuilt
      · refine ⟨by simp [hposts], fun p' q hpair => ?_⟩
        rw [hposts, List.singleton_append, List.cons.injEq, List.cons.injEq] at hpair
        obtain ⟨rfl, rfl, -⟩ := hpair
        obtain ⟨resume, hstep⟩ := hfollows
        obtain ⟨fetcher, expiresAt, hfetched, rfl | ⟨hforce, -⟩⟩ :=
          token_source h.tokens hstep htoken
        · exact ⟨hpayload.symm, ⟨a, by simp [hanswered], hunauthorized⟩, expiresAt, hfetched⟩
        · contradiction
      · exact ⟨p, _, a, by rw [hposts, List.singleton_append], hanswered⟩
  | @finished answer hcall =>
      have hlength : (s.sent i).length = (s.answered i).length + 1 ∧
          Retried s.tokens.shared.answers i (s.sent i) (s.answered i ++ [answer]) := by
        rcases hcall with ⟨payload, hcall⟩ | hcall
        · rw [hcall] at hfits
          obtain ⟨p, hposts, -, hanswered⟩ := hfits
          exact ⟨by simp [hposts, hanswered], .of_length_le (by simp [hposts])⟩
        · rw [hcall] at hfits
          obtain ⟨p, q, a, hposts, hanswered⟩ := hfits
          refine ⟨by simp [hposts, hanswered], hretried.length_le, fun p' q' hpair => ?_⟩
          obtain ⟨hpayload, ⟨a', hhead, hunauthorized⟩, hfetched⟩ := hretried.again p' q' hpair
          exact ⟨hpayload, ⟨a', by simpa [hanswered] using hhead, hunauthorized⟩, hfetched⟩
      apply h.move (.inl rfl) (by simp)
      · simpa using hlength.2
      · rw [List.append_nil]
        exact fits_finished hlength.1

/-- The invariant holds in every run. -/
theorem pushInvariant_of_reachable
    (hrun : Reachable (pushStep settings pyRepr requests) (.initial ι) s) :
    PushInvariant settings pyRepr requests s := by
  refine hrun.invariant ⟨.refl, ?_, fun i => .of_length_le ?_, fun i => ⟨rfl, rfl⟩⟩
    fun hinv _ hstep => hinv.step hstep
  · intro i p hp
    contradiction
  · simp [PushState.initial]

omit [DecidableEq ι] in
/-- The password of a payload decodes to what it was made of. -/
theorem stkPayload_password {request : StkPushRequest} {timestamp : String} {payload : Json}
    (h : stkPayload settings request timestamp = .ok payload) :
    ∃ password, payload.get "Password" .null = .ok (.str password) ∧
      Base64.decode password.toList =
        some (utf8 (settings.mpesaShortcode ++ settings.mpesaPasskey ++ timestamp)) := by
  obtain ⟨shortcodeInt, -, h⟩ := bind_eq_ok_iff.mp h
  obtain ⟨phoneInt, -, h⟩ := bind_eq_ok_iff.mp h
  obtain rfl := Except.ok.inj h
  refine ⟨_, rfl, ?_⟩
  rw [stkPassword, String.toList_ofList, Base64.decode_encode]

/-- A result is read from a response with status 200. -/
theorem stkPushResult_eq_ok {a : PushAnswer} {gateway : Json} (h : stkPushResult a = .ok gateway) :
    ∃ text, a = .response 200 text (some gateway) := by
  cases a with
  | transportError => contradiction
  | response statusCode text payload =>
      simp only [stkPushResult] at h
      split at h
      · contradiction
      · rename_i hok
        cases payload with
        | none => contradiction
        | some value =>
            obtain rfl := Except.ok.inj h
            exact ⟨text, by rw [not_not.mp hok]⟩

/-- However any number of pushes, their calls for tokens and the gateway's answers interleave:
a push sends at most two posts, all to the push URL with its request, a password that decodes,
and a token that the push itself fetched or that was outside the margin when it was sent.  The
second post repeats the first after a 401, with a token that the push's own forced call fetched.
A push that returns, returns the JSON of the 200 that answered its last post. -/
theorem pushes_of_reachable
    (hrun : Reachable (pushStep settings pyRepr requests) (.initial ι) s) (i : ι) :
    (s.sent i).length ≤ 2 ∧
    (∀ p ∈ s.sent i, p.url = settings.stkPushUrl ∧
      p.authorization = "Bearer " ++ p.token.toStr pyRepr ∧
      (∃ timestamp password, stkPayload settings (requests i) timestamp = .ok p.payload ∧
        p.payload.get "Password" .null = .ok (.str password) ∧
        Base64.decode password.toList =
          some (utf8 (settings.mpesaShortcode ++ settings.mpesaPasskey ++ timestamp))) ∧
      ∃ fetcher expiresAt, Fetched s.tokens.shared.answers fetcher (p.token, expiresAt) ∧
        (fetcher.1 = i ∨ outsideMargin settings.toOAuthSettings expiresAt p.sentAt = .ok true)) ∧
    (∀ p q, s.sent i = [p, q] → q.payload = p.payload ∧
      (∃ a, (s.answered i).head? = some a ∧ a.isUnauthorized) ∧
      ∃ expiresAt, Fetched s.tokens.shared.answers (i, true) (q.token, expiresAt)) ∧
    ∀ gateway, s.calls i = .returned gateway → (s.sent i).length = (s.answered i).length ∧
      ∃ text, (s.answered i).getLast? = some (.response 200 text (some gateway)) := by
  have h := pushInvariant_of_reachable hrun
  refine ⟨(h.retried i).length_le, fun p hp => ?_, (h.retried i).again, fun gateway hcall => ?_⟩
  · have hgenuine := h.genuine i p hp
    obtain ⟨timestamp, hpayload⟩ := hgenuine.payload
    obtain ⟨password, hpassword, hdecoded⟩ := stkPayload_password hpayload
    exact ⟨hgenuine.url, hgenuine.authorization,
      ⟨timestamp, password, hpayload, hpassword, hdecoded⟩, hgenuine.token⟩
  · have hfits := h.fits i
    rw [hcall] at hfits
    obtain ⟨hlength, a, hlast, hresult⟩ := hfits
    obtain ⟨text, rfl⟩ := stkPushResult_eq_ok hresult
    exact ⟨hlength, text, hlast⟩

end Invariant

/-! ## A token that is refused -/

/-- The sandbox, with its own callback. -/
def samplePushSettings : MpesaSettings where
  toOAuthSettings := sampleOAuthSettings
  mpesaShortcode := "174379"
  mpesaPasskey := "bfb2"
  mpesaBaseUrl := "https://sandbox.safaricom.co.ke/"
  mpesaCallbackUrl := ""
  ngrokUrl := "https://a.b/"
  mpesaTransactionType := "CustomerPayBillOnline"

/-- Two pushes of the same deposit. -/
def samplePushes (_ : Bool) : StkPushRequest := ⟨sampleDepositRequest, "DEPOSIT", "Wallet deposit"⟩

/-- The first push (`false`) fetches a token, which the gateway refuses to the second. -/
def pushLabels : List (PushLabel Bool) :=
  [.token false (.start sampleNow sampleNow) "20260824000000",
    .token true (.start sampleNow sampleNow) "20260824000000",
    .token false (.answered (tokenAnswer "first" 3599) sampleNow) "20260824000000",
    .token true (.acquired sampleNow) "20260824000000",
    .answer true (.response 401 "" none) (.start sampleNow sampleNow),
    .token true (.answered (tokenAnswer "second" 3599) sampleNow) "20260824000000",
    .answer true (.response 200 "\x7b\x7d" (some (.dict []))) (.start sampleNow sampleNow)]

/-- The second push posts again, with the token that it has fetched itself. -/
theorem pushes_of_reachable_sample :
    ∃ s, Reachable (pushStep samplePushSettings (fun _ => "") samplePushes) (.initial Bool) s ∧
      ∃ p q, s.sent true = [p, q] ∧ q.payload = p.payload ∧ q.authorization = "Bearer second" ∧
        ∃ expiresAt, Fetched s.tokens.shared.answers (true, true) (q.token, expiresAt) := by
  have hexec : ∃ s, pushLabels.foldlM (pushStep samplePushSettings (fun _ => "") samplePushes)
      (.initial Bool) = some s ∧ ∃ p q, s.sent true = [p, q] ∧ q.authorization = "Bearer second" :=
    ⟨_, rfl, _, _, rfl, rfl⟩
  obtain ⟨s, hs, p, q, hposts, hbearer⟩ := hexec
  have hrun := Reaches.of_foldlM hs
  obtain ⟨-, -, hagain, -⟩ := pushes_of_reachable hrun true
  obtain ⟨hpayload, -, hfetched⟩ := hagain p q hposts
  exact ⟨s, hrun, p, q, hposts, hpayload, hbearer, hfetched⟩

end Settlement
end BettingPlatform
