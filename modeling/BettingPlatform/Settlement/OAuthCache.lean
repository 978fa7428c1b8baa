import BettingPlatform.Foundations.Fallible
import BettingPlatform.Foundations.FloatArithmetic
import BettingPlatform.Foundations.Interleaving
import BettingPlatform.Foundations.Runs

/-!
# The cache of the gateway's access token

Every push takes an access token from `get_access_token`, which keeps one token in memory and
fetches another under an `asyncio.Lock` when the token is about to expire or when the gateway
refused it.  A call runs without interruption between two awaits, so one step takes it from one
await to the next: to the queue of the lock, to the request for a token, or to its end.

The lock is given in the order of the queue.  A step carries what the outside decides: what the
gateway answered, and what the clock showed each time it was read.

Main results:

- Theorem `getAccessToken_run`: at most one request is under way, the cache holds one answer's
  token and expiry, a call returns its own token or a cached one outside the expiry margin, and
  a token outside the margin is fetched anew only after a forced call replaced it.
- Theorem `refetch_outside_margin`: a token that is still outside the margin can be fetched anew
  after a forced call replaced it by a shorter one.
-/

namespace BettingPlatform
namespace Settlement

open Python Runs

/-! ## Fetching a token -/

/-- The settings `get_access_token` reads. -/
structure OAuthSettings where
  consumerKey : String
  consumerSecret : String
  refreshSkewSeconds : Int

/-- What a call for a token can raise. -/
inductive OAuthRaised
  | /-- An exception of the HTTP client. -/ transport
  | /-- A built-in exception. -/ python (e : PyError)
  | /-- `HTTPException`. -/ httpException (status : Nat) (detail : String)
deriving DecidableEq, Repr

/-- How the request for a token ends: the JSON value of a body is missing when the body is not
JSON. -/
inductive OAuthAnswer
  | transportError
  | response (statusCode : Int) (payload : Option Json)

/-- The part of `fetch_oauth_token` before the request. -/
def checkCredentials (settings : OAuthSettings) : Except OAuthRaised Unit :=
  if settings.consumerKey = "" ∨ settings.consumerSecret = "" then
    .error (.httpException 503 "M-Pesa OAuth credentials are not configured")
  else .ok ()

/-- The part of `fetch_oauth_token` behind the request: the token and when it expires. -/
def fetchOauthToken (answer : OAuthAnswer) (now : PyFloat) :
    Except OAuthRaised (Json × PyFloat) :=
  match answer with
  | .transportError => .error .transport
  | .response statusCode payload =>
      if statusCode ≠ 200 then
        .error (.httpException 502 ("Safaricom OAuth failed: HTTP " ++ toString statusCode))
      else do
        let payload ← payload.elim (.error (.python .valueError)) .ok
        let accessToken ← (payload.get "access_token" .null).mapError .python
        let expiresIn ← (payload.get "expires_in" (.int 3599)).mapError .python
        if ¬ accessToken.truthy then
          .error (.httpException 502 "Safaricom OAuth response missing access_token")
        else
          let lifetime ← expiresIn.toFloat.mapError .python
          .ok (accessToken, now.add lifetime)

/-! ## The cache and its lock -/

/-- `MpesaOAuthCache`, without its lock. -/
structure MpesaOAuthCache where
  accessToken : Json := .null
  expiresAt : PyFloat := .finite false 0 0

/-- The application state: the cache, the lock's holder and queue, and the latest reading of
the clock.  `answers` is not part of the program: it keeps what the gateway answered, when and
to which call. -/
structure OAuthState (ι : Type) where
  cache : MpesaOAuthCache := {}
  holder : Option ι := none
  waiters : List ι := []
  now : PyFloat := .finite false 0 0
  answers : List (ι × OAuthAnswer × PyFloat) := []

/-- Where a call of `get_access_token` stands. -/
inductive TokenCall
  | notStarted
  | waiting
  | fetching
  | returned (accessToken : Json)
  | raised (e : OAuthRaised)

/-- What the outside decides about a step: the readings of the clock, and the answer. -/
inductive OAuthResume
  | start (checked rechecked : PyFloat)
  | acquired (rechecked : PyFloat)
  | answered (answer : OAuthAnswer) (now : PyFloat)

section Calls

variable {ι : Type} [DecidableEq ι] (settings : OAuthSettings) (forceRefresh : ι → Bool)

/-- `time.time() < (expires_at - skew)`. -/
def outsideMargin (expiresAt now : PyFloat) : Except OAuthRaised Bool :=
  match PyFloat.ofInt settings.refreshSkewSeconds with
  | none => .error (.python .overflowError)
  | some skew => .ok (now.lt (expiresAt.sub skew))

/-- The test `get_access_token` makes before and under the lock: the token to return. -/
def cachedToken (force : Bool) (cache : MpesaOAuthCache) (now : PyFloat) :
    Except OAuthRaised (Option Json) := do
  if force ∨ ¬ cache.accessToken.truthy then .ok none
  else
    let outside ← outsideMargin settings cache.expiresAt now
    .ok (if outside then some cache.accessToken else none)

/-- A call that has got the lock: up to its end or to the request. -/
def underLock (i : ι) (state : OAuthState ι) (rechecked : PyFloat) : OAuthState ι × TokenCall :=
  let state := { state with now := rechecked }
  match cachedToken settings (forceRefresh i) state.cache rechecked with
  | .error e => (state, .raised e)
  | .ok (some token) => (state, .returned token)
  | .ok none =>
      match checkCredentials settings with
      | .error e => (state, .raised e)
      | .ok () => ({ state with holder := some i }, .fetching)

/-- One step of `get_access_token`, from one await to the next. -/
def getAccessToken (i : ι) (state : OAuthState ι) :
    TokenCall → OAuthResume → Option (OAuthState ι × TokenCall)
  | .notStarted, .start checked rechecked =>
      if state.now.le checked ∧ checked.le rechecked then
        match cachedToken settings (forceRefresh i) state.cache checked with
        | .error e => some ({ state with now := checked }, .raised e)
        | .ok (some token) => some ({ state with now := checked }, .returned token)
        | .ok none =>
            if state.holder = none ∧ state.waiters = [] then
              some (underLock settings forceRefresh i state rechecked)
            else some ({ state with now := checked, waiters := state.waiters ++ [i] }, .waiting)
      else none
  | .waiting, .acquired rechecked =>
      if state.now.le rechecked ∧ state.holder = none ∧ state.waiters.head? = some i then
        let state := { state with waiters := state.waiters.tail }
        some (underLock settings forceRefresh i state rechecked)
      else none
  | .fetching, .answered answer now =>
      if state.now.le now then
        let state :=
          { state with now, holder := none, answers := state.answers ++ [(i, answer, now)] }
        match fetchOauthToken answer now with
        | .error e => some (state, .raised e)
        | .ok (accessToken, expiresAt) =>
            some ({ state with cache := { accessToken, expiresAt } }, .returned accessToken)
      else none
  | _, _ => none

/-- The calls before any of them started. -/
def OAuthState.initial : Interleaved (OAuthState ι) ι TokenCall where
  shared := {}
  calls _ := .notStarted

/-- One step of the service: one call's step. -/
def oauthStep : Interleaved (OAuthState ι) ι TokenCall → ι × OAuthResume →
    Option (Interleaved (OAuthState ι) ι TokenCall) :=
  interleave (getAccessToken settings forceRefresh)

/-! ## What a step does -/

/-- Everything a step of a call does to the shared state and to the call. -/
inductive TokenCall.Moves (i : ι) (s : OAuthState ι) :
    TokenCall → OAuthState ι → TokenCall → Prop
  | queued {now : PyFloat} :
      s.now.le now → Moves i s .notStarted { s with now, waiters := s.waiters ++ [i] } .waiting
  | served {call : TokenCall} {now : PyFloat} {waiters : List ι} {token : Json} :
      call ≠ .fetching → s.now.le now →
      cachedToken settings (forceRefresh i) s.cache now = .ok (some token) →
      Moves i s call { s with now, waiters } (.returned token)
  | failed {call : TokenCall} {now : PyFloat} {waiters : List ι} {e : OAuthRaised} :
      call ≠ .fetching → s.now.le now → Moves i s call { s with now, waiters } (.raised e)
  | requested {call : TokenCall} {now : PyFloat} {waiters : List ι} :
      call ≠ .fetching → s.now.le now → s.holder = none →
      cachedToken settings (forceRefresh i) s.cache now = .ok none →
      Moves i s call { s with now, waiters, holder := some i } .fetching
  | refused {answer : OAuthAnswer} {now : PyFloat} {e : OAuthRaised} :
      s.now.le now → fetchOauthToken answer now = .error e →
      Moves i s .fetching
        { s with now, holder := none, answers := s.answers ++ [(i, answer, now)] } (.raised e)
  | fetched {answer : OAuthAnswer} {now expiresAt : PyFloat} {accessToken : Json} :
      s.now.le now → fetchOauthToken answer now = .ok (accessToken, expiresAt) →
      Moves i s .fetching
        { s with
          now, holder := none, answers := s.answers ++ [(i, answer, now)]
          cache := { accessToken, expiresAt } }
        (.returned accessToken)

variable {settings forceRefresh} {i : ι}

/-- A fetched token is not empty. -/
theorem fetchOauthToken_truthy {answer : OAuthAnswer} {now : PyFloat} {fetched : Json × PyFloat}
    (h : fetchOauthToken answer now = .ok fetched) : fetched.1.truthy = true := by
  cases answer with
  | transportError => contradiction
  | response statusCode payload =>
      simp only [fetchOauthToken] at h
      split at h
      · contradiction
      · obtain ⟨payload, -, h⟩ := bind_eq_ok_iff.mp h
        obtain ⟨accessToken, -, h⟩ := bind_eq_ok_iff.mp h
        obtain ⟨expiresIn, -, h⟩ := bind_eq_ok_iff.mp h
        split at h
        · contradiction
        · rename_i htruthy
          obtain ⟨lifetime, -, h⟩ := bind_eq_ok_iff.mp h
          cases h
          simpa using htruthy

/-- A token served from the cache is outside the margin, and the call was not forced. -/
theorem cachedToken_eq_some {force : Bool} {cache : MpesaOAuthCache} {now : PyFloat} {token : Json}
    (h : cachedToken settings force cache now = .ok (some token)) :
    force = false ∧ token = cache.accessToken ∧
      outsideMargin settings cache.expiresAt now = .ok true := by
  unfold cachedToken at h
  split at h
  · cases h
  · rename_i hserve
    obtain ⟨outside, houtside, h⟩ := bind_eq_ok_iff.mp h
    cases outside with
    | false => cases h
    | true =>
        cases h
        exact ⟨by simpa using fun hforce => hserve (.inl hforce), rfl, houtside⟩

/-- The cache has nothing to serve: the call is forced, the cache is empty, or its token is not
outside the margin. -/
theorem cachedToken_eq_none {force : Bool} {cache : MpesaOAuthCache} {now : PyFloat}
    (h : cachedToken settings force cache now = .ok none) :
    force = true ∨ cache.accessToken.truthy = false ∨
      outsideMargin settings cache.expiresAt now = .ok false := by
  unfold cachedToken at h
  split at h
  · rename_i hrefresh
    rcases hrefresh with hforce | hempty
    · exact .inl hforce
    · exact .inr (.inl (by simpa using hempty))
  · obtain ⟨outside, houtside, h⟩ := bind_eq_ok_iff.mp h
    cases outside with
    | false => exact .inr (.inr houtside)
    | true => cases h

/-- A token that is outside the margin was so before. -/
theorem outsideMargin_of_le {expiresAt now later : PyFloat} (hle : now.le later = true)
    (h : outsideMargin settings expiresAt later = .ok true) :
    outsideMargin settings expiresAt now = .ok true := by
  unfold outsideMargin at h ⊢
  split at h
  · contradiction
  · rw [PyFloat.lt_of_le_of_lt hle (Except.ok.inj h)]

omit [DecidableEq ι] in
/-- What a caller does under the lock is a move of its call. -/
theorem underLock_moves {s t : OAuthState ι} {call call' : TokenCall} {waiters : List ι}
    {rechecked : PyFloat} (hcall : call ≠ .fetching) (hclock : s.now.le rechecked)
    (hfree : s.holder = none)
    (h : underLock settings forceRefresh i { s with waiters } rechecked = (t, call')) :
    call.Moves settings forceRefresh i s t call' := by
  simp only [underLock] at h
  split at h
  · cases h
    exact .failed hcall hclock
  · rename_i token hcached
    cases h
    exact .served hcall hclock hcached
  · rename_i hstale
    split at h
    · cases h
      exact .failed hcall hclock
    · cases h
      exact .requested hcall hclock hfree hstale

/-- A step of a call does one of the things listed. -/
theorem getAccessToken_moves {s t : OAuthState ι} {call call' : TokenCall} {a : OAuthResume}
    (h : getAccessToken settings forceRefresh i s call a = some (t, call')) :
    call.Moves settings forceRefresh i s t call' := by
  unfold getAccessToken at h
  split at h
  · -- the first check, and everything up to the queue or to the request
    split at h
    · rename_i checked rechecked hclock
      split at h
      · cases h
        exact .failed (by simp) hclock.1
      · rename_i token hcached
        cases h
        exact .served (by simp) hclock.1 hcached
      · split at h
        · rename_i hfree
          exact underLock_moves (by simp) (PyFloat.le_trans hclock.1 hclock.2) hfree.1
            (Option.some.inj h)
        · cases h
          exact .queued hclock.1
    · contradiction
  · split at h
    · rename_i rechecked hturn
      exact underLock_moves (by simp) hturn.1 hturn.2.1 (Option.some.inj h)
    · contradiction
  · split at h
    · rename_i answer now hclock
      simp only at h
      split at h
      · rename_i e hraised
        cases h
        exact .refused hclock hraised
      · rename_i accessToken expiresAt hfetched
        cases h
        exact .fetched hclock hfetched
    · contradiction
  · contradiction

/-! ## The invariant -/

/-- The answer to call `i` was this token with this expiry. -/
def Fetched (answers : List (ι × OAuthAnswer × PyFloat)) (i : ι) (fetched : Json × PyFloat) :
    Prop :=
  ∃ answer now, (i, answer, now) ∈ answers ∧ fetchOauthToken answer now = .ok fetched

variable (settings forceRefresh) in
/-- What holds between any two steps. -/
structure TokenInvariant (s : Interleaved (OAuthState ι) ι TokenCall) : Prop where
  holder_iff : ∀ i, s.calls i = .fetching ↔ s.shared.holder = some i
  source : s.shared.cache = {} ∨
    ∃ i, Fetched s.shared.answers i (s.shared.cache.accessToken, s.shared.cache.expiresAt)
  truthy : ∀ {i fetched}, Fetched s.shared.answers i fetched →
    s.shared.cache.accessToken.truthy = true
  kept : ∀ {before later i answer now fetched},
    s.shared.answers = before ++ (i, answer, now) :: later →
    fetchOauthToken answer now = .ok fetched →
    outsideMargin settings fetched.2 s.shared.now = .ok true →
    (∀ k fetched', forceRefresh k = true → ¬ Fetched later k fetched') →
    (s.shared.cache.accessToken, s.shared.cache.expiresAt) = fetched ∧
      ∀ k, s.calls k = .fetching → forceRefresh k = true

omit [DecidableEq ι] in
/-- Every token an extended list of answers has is one of the shorter list or the last answer. -/
theorem fetched_concat {answers : List (ι × OAuthAnswer × PyFloat)} {k : ι} {answer : OAuthAnswer}
    {now : PyFloat} {fetched : Json × PyFloat} :
    Fetched (answers ++ [(k, answer, now)]) i fetched ↔
      Fetched answers i fetched ∨ i = k ∧ fetchOauthToken answer now = .ok fetched := by
  simp only [Fetched, List.mem_append, List.mem_singleton, Prod.mk.injEq]
  constructor
  · rintro ⟨answer', now', hmem | ⟨rfl, rfl, rfl⟩, hfetched⟩
    · exact .inl ⟨answer', now', hmem, hfetched⟩
    · exact .inr ⟨rfl, hfetched⟩
  · rintro (⟨answer', now', hmem, hfetched⟩ | ⟨rfl, hfetched⟩)
    · exact ⟨answer', now', .inl hmem, hfetched⟩
    · exact ⟨answer, now, .inr ⟨rfl, rfl, rfl⟩, hfetched⟩

variable {s : Interleaved (OAuthState ι) ι TokenCall}

omit [DecidableEq ι] in
/-- A step without an answer keeps the invariant, when an unforced call requests a token only
because the cache has none to serve. -/
theorem TokenInvariant.unanswered (hinv : TokenInvariant settings forceRefresh s)
    {shared : OAuthState ι} {calls : ι → TokenCall} (hcache : shared.cache = s.shared.cache)
    (hanswers : shared.answers = s.shared.answers) (hclock : s.shared.now.le shared.now = true)
    (hholder : ∀ j, calls j = .fetching ↔ shared.holder = some j)
    (hrequest : ∀ j, calls j = .fetching → s.calls j = .fetching ∨
      cachedToken settings (forceRefresh j) s.shared.cache shared.now = .ok none) :
    TokenInvariant settings forceRefresh { shared, calls } := by
  refine ⟨hholder, ?_, ?_, ?_⟩
  · rw [hcache, hanswers]
    exact hinv.source
  · rw [hcache, hanswers]
    exact hinv.truthy
  · intro before later i answer now fetched hsplit hfetched houtside hunforced
    rw [hanswers] at hsplit
    rw [hcache]
    obtain ⟨heq, hforced⟩ :=
      hinv.kept hsplit hfetched (outsideMargin_of_le hclock houtside) hunforced
    refine ⟨heq, fun j hj => ?_⟩
    rcases hrequest j hj with hold | hstale
    · exact hforced j hold
    · rcases cachedToken_eq_none hstale with hforce | hempty | hinside
      · exact hforce
      · have hmem : (i, answer, now) ∈ s.shared.answers := by
          rw [hsplit]
          exact List.mem_append_right before List.mem_cons_self
        have htruthy := hinv.truthy ⟨answer, now, hmem, hfetched⟩
        simp [hempty] at htruthy
      · subst heq
        simp [hinside] at houtside

/-- The answer to the call that holds the lock keeps the invariant. -/
theorem TokenInvariant.answered (hinv : TokenInvariant settings forceRefresh s)
    (hcall : s.calls i = .fetching) {shared : OAuthState ι} {call : TokenCall}
    {answer : OAuthAnswer} (hended : call ≠ .fetching) (hholder : shared.holder = none)
    (hclock : s.shared.now.le shared.now = true)
    (hanswers : shared.answers = s.shared.answers ++ [(i, answer, shared.now)])
    (hcache : fetchOauthToken answer shared.now =
        .ok (shared.cache.accessToken, shared.cache.expiresAt) ∨
      (∀ fetched, fetchOauthToken answer shared.now ≠ .ok fetched) ∧
        shared.cache = s.shared.cache) :
    TokenInvariant settings forceRefresh { shared, calls := Function.update s.calls i call } := by
  have hnone : ∀ j, Function.update s.calls i call j ≠ .fetching := by
    intro j hj
    obtain ⟨hji, hfetching⟩ := before_update (P := (· = TokenCall.fetching)) hended hj
    rw [hinv.holder_iff] at hcall hfetching
    exact hji (Option.some.inj (hfetching.symm.trans hcall))
  refine ⟨fun j => by simp [hnone j, hholder], ?_, ?_, ?_⟩
  · rcases hcache with hfetched | ⟨-, hsame⟩
    · exact .inr ⟨i, by rw [hanswers]; exact fetched_concat.mpr (.inr ⟨rfl, hfetched⟩)⟩
    · rw [hsame, hanswers]
      exact hinv.source.imp_right fun ⟨k, hk⟩ => ⟨k, fetched_concat.mpr (.inl hk)⟩
  · intro k fetched hk
    rcases hcache with hfetched | ⟨hfails, hsame⟩
    · exact fetchOauthToken_truthy hfetched
    · rw [hanswers] at hk
      rw [hsame]
      rcases fetched_concat.mp hk with hold | ⟨-, hlast⟩
      · exact hinv.truthy hold
      · exact absurd hlast (hfails fetched)
  · intro before later k answer' now fetched hsplit hfetched houtside hunforced
    refine ⟨?_, fun j hj => absurd hj (hnone j)⟩
    rw [hanswers] at hsplit
    rcases later.eq_nil_or_concat with rfl | ⟨later, last, rfl⟩
    · -- the answer itself
      obtain ⟨-, hlast⟩ := List.append_inj' hsplit rfl
      simp only [List.cons.injEq, Prod.mk.injEq, and_true] at hlast
      obtain ⟨rfl, rfl, rfl⟩ := hlast
      rcases hcache with hnew | ⟨hfails, -⟩
      · exact Except.ok.inj (hnew.symm.trans hfetched)
      · exact absurd hfetched (hfails fetched)
    · -- an earlier answer: until now the cache held its token, and call `i` was forced
      simp only [List.concat_eq_append] at hsplit hunforced
      rw [← List.cons_append, ← List.append_assoc] at hsplit
      obtain ⟨hinit, hlast⟩ := List.append_inj' hsplit rfl
      simp only [List.cons.injEq, and_true] at hlast
      subst hlast
      obtain ⟨heq, hforced⟩ :=
        hinv.kept hinit hfetched (outsideMargin_of_le hclock houtside) fun j fetched' hforce hj =>
          hunforced j fetched' hforce (fetched_concat.mpr (.inl hj))
      rcases hcache with hnew | ⟨-, hsame⟩
      · exact absurd (fetched_concat.mpr (.inr ⟨rfl, hnew⟩)) (hunforced i _ (hforced i hcall))
      · rw [hsame]
        exact heq

/-- A step that only moves the clock and the queue keeps the invariant. -/
theorem TokenInvariant.quiet (hinv : TokenInvariant settings forceRefresh s) {call : TokenCall}
    {now : PyFloat} {waiters : List ι} (hbefore : s.calls i ≠ .fetching)
    (hafter : call ≠ .fetching) (hclock : s.shared.now.le now = true) :
    TokenInvariant settings forceRefresh
      { shared := { s.shared with now, waiters }, calls := Function.update s.calls i call } := by
  have hsame : ∀ j, Function.update s.calls i call j = .fetching ↔ s.calls j = .fetching := by
    intro j
    by_cases hj : j = i
    · subst hj
      simp [hbefore, hafter]
    · rw [Function.update_of_ne hj]
  refine hinv.unanswered rfl rfl hclock (fun j => ?_) fun j hj => .inl ((hsame j).mp hj)
  rw [hsame, hinv.holder_iff]

/-- The request of a call that found the lock free and nothing to serve keeps the invariant. -/
theorem TokenInvariant.requested (hinv : TokenInvariant settings forceRefresh s)
    {now : PyFloat} {waiters : List ι} (hfree : s.shared.holder = none)
    (hclock : s.shared.now.le now = true)
    (hstale : cachedToken settings (forceRefresh i) s.shared.cache now = .ok none) :
    TokenInvariant settings forceRefresh
      { shared := { s.shared with now, waiters, holder := some i },
        calls := Function.update s.calls i .fetching } := by
  have honly : ∀ j, Function.update s.calls i .fetching j = .fetching ↔ i = j := by
    intro j
    by_cases hj : j = i
    · simp [hj]
    · have hidle : s.calls j ≠ .fetching := by
        rw [Ne, hinv.holder_iff, hfree]
        simp
      simp [Function.update_of_ne hj, hidle, Ne.symm hj]
  refine hinv.unanswered rfl rfl hclock (fun j => ?_) fun j hj => .inr ?_
  · simp [honly]
  · rw [← (honly j).mp hj]
    exact hstale

/-- A step keeps the invariant. -/
theorem TokenInvariant.step (hinv : TokenInvariant settings forceRefresh s)
    {t : Interleaved (OAuthState ι) ι TokenCall} {label : ι × OAuthResume}
    (h : oauthStep settings forceRefresh s label = some t) :
    TokenInvariant settings forceRefresh t := by
  obtain ⟨shared, call, hstep, rfl⟩ := interleave_eq_some_iff.mp h
  have hmoves := getAccessToken_moves hstep
  generalize hcall : s.calls label.1 = before at hmoves
  cases hmoves with
  | queued hclock => exact hinv.quiet (by simp [hcall]) (by simp) hclock
  | served hbefore hclock => exact hinv.quiet (by simpa [hcall]) (by simp) hclock
  | failed hbefore hclock => exact hinv.quiet (by simpa [hcall]) (by simp) hclock
  | requested hbefore hclock hfree hstale => exact hinv.requested hfree hclock hstale
  | refused hclock hraised =>
      exact hinv.answered hcall (by simp) rfl hclock rfl
        (.inr ⟨fun fetched hfetched => by simp [hraised] at hfetched, rfl⟩)
  | fetched hclock hfetched =>
      exact hinv.answered hcall (by simp) rfl hclock rfl (.inl hfetched)

/-- The invariant holds in every state a run reaches. -/
theorem tokenInvariant_of_reachable
    (hrun : Reachable (oauthStep settings forceRefresh) OAuthState.initial s) :
    TokenInvariant settings forceRefresh s := by
  refine hrun.invariant ⟨?_, .inl rfl, ?_, ?_⟩ fun hinv _ h => hinv.step h
  · simp [OAuthState.initial]
  · rintro i fetched ⟨answer, now, hmem, -⟩
    simp [OAuthState.initial] at hmem
  · intro before later i answer now fetched hsplit
    simp [OAuthState.initial] at hsplit

/-- What the call that moves has returned, it has fetched, or the cache holds it and it is
outside the margin. -/
theorem returned_token {t : Interleaved (OAuthState ι) ι TokenCall} {a : OAuthResume} {token : Json}
    (h : oauthStep settings forceRefresh s (i, a) = some t)
    (hreturned : t.calls i = .returned token) :
    (∃ expiresAt, Fetched t.shared.answers i (token, expiresAt)) ∨
      token = t.shared.cache.accessToken ∧
        outsideMargin settings t.shared.cache.expiresAt t.shared.now = .ok true := by
  obtain ⟨shared, call, hstep, rfl⟩ := interleave_eq_some_iff.mp h
  obtain rfl : call = .returned token := by simpa using hreturned
  have hmoves := getAccessToken_moves hstep
  generalize s.calls i = before at hmoves
  cases hmoves with
  | served hbefore hclock hcached => exact .inr (cachedToken_eq_some hcached).2
  | fetched hclock hfetched => exact .inl ⟨_, fetched_concat.mpr (.inr ⟨rfl, hfetched⟩)⟩

/-- A request is made only with nothing to serve. -/
theorem request_stale {t : Interleaved (OAuthState ι) ι TokenCall} {a : OAuthResume}
    (h : oauthStep settings forceRefresh s (i, a) = some t) (hrequest : t.calls i = .fetching) :
    s.shared.now.le t.shared.now = true ∧
      cachedToken settings (forceRefresh i) s.shared.cache t.shared.now = .ok none := by
  obtain ⟨shared, call, hstep, rfl⟩ := interleave_eq_some_iff.mp h
  obtain rfl : call = .fetching := by simpa using hrequest
  have hmoves := getAccessToken_moves hstep
  generalize s.calls i = before at hmoves
  cases hmoves with
  | requested hbefore hclock hfree hstale => exact ⟨hclock, hstale⟩

/-- In every state a run of any number of calls reaches, at most one request for a token is under
way and the cache holds the token and the expiry of one answer.  A call that ends there returns
the token it fetched or a cached one outside the margin.  An unforced call that sends a request
while a fetched token is still outside the margin does so because a forced call fetched another
since, and the cache's own token is inside the margin. -/
theorem getAccessToken_run
    (hrun : Reachable (oauthStep settings forceRefresh) OAuthState.initial s) :
    (∀ i j, s.calls i = .fetching → s.calls j = .fetching → i = j) ∧
    (s.shared.cache = {} ∨
      ∃ i, Fetched s.shared.answers i (s.shared.cache.accessToken, s.shared.cache.expiresAt)) ∧
    (∀ i a t token, oauthStep settings forceRefresh s (i, a) = some t →
      t.calls i = .returned token →
      (∃ expiresAt, Fetched t.shared.answers i (token, expiresAt)) ∨
        token = t.shared.cache.accessToken ∧
          outsideMargin settings t.shared.cache.expiresAt t.shared.now = .ok true) ∧
    (∀ before i answer now later token expiresAt j a t,
      s.shared.answers = before ++ (i, answer, now) :: later →
      fetchOauthToken answer now = .ok (token, expiresAt) →
      oauthStep settings forceRefresh s (j, a) = some t → forceRefresh j = false →
      t.calls j = .fetching → outsideMargin settings expiresAt t.shared.now = .ok true →
      (∃ k fetched, forceRefresh k = true ∧ Fetched later k fetched) ∧
        outsideMargin settings s.shared.cache.expiresAt t.shared.now = .ok false) := by
  have hinv := tokenInvariant_of_reachable hrun
  refine ⟨fun i j hi hj => ?_, hinv.source, fun i a t token => returned_token, ?_⟩
  · rw [hinv.holder_iff] at hi hj
    exact Option.some.inj (hi.symm.trans hj)
  · intro before i answer now later token expiresAt j a t hsplit hfetched hstep hforce hrequest
      houtside
    obtain ⟨hclock, hstale⟩ := request_stale hstep hrequest
    have hmem : (i, answer, now) ∈ s.shared.answers := by
      rw [hsplit]
      exact List.mem_append_right before List.mem_cons_self
    have hinside : outsideMargin settings s.shared.cache.expiresAt t.shared.now = .ok false := by
      rcases cachedToken_eq_none hstale with hforced | hempty | hinside
      · simp [hforce] at hforced
      · simp [hinv.truthy ⟨answer, now, hmem, hfetched⟩] at hempty
      · exact hinside
    refine ⟨?_, hinside⟩
    by_contra hunforced
    push Not at hunforced
    have hkept := (hinv.kept hsplit hfetched (outsideMargin_of_le hclock houtside) hunforced).1
    rw [← (Prod.mk.inj hkept).2, hinside] at houtside
    contradiction

end Calls

/-! ## A token replaced by a shorter one -/

/-- A margin of a minute. -/
def sampleOAuthSettings : OAuthSettings := ⟨"key", "secret", 60⟩

/-- An answer with a token that lives for so many seconds. -/
def tokenAnswer (token : String) (seconds : Int) : OAuthAnswer :=
  .response 200 (some (.dict [("access_token", .str token), ("expires_in", .int seconds)]))

/-- Of three calls only the second is forced. -/
def secondForced (i : Fin 3) : Bool := i = 1

/-- A moment 1000 seconds after the epoch. -/
def sampleNow : PyFloat := .finite false 1000 0

/-- The first call requests a token; the others wait. -/
def waitingSteps : List (Fin 3 × OAuthResume) :=
  [(0, .start sampleNow sampleNow), (1, .start sampleNow sampleNow),
    (2, .start sampleNow sampleNow)]

/-- The forced call fetches a token that lives for less than the margin. -/
def replacingSteps : List (Fin 3 × OAuthResume) :=
  [(1, .acquired sampleNow), (1, .answered (tokenAnswer "second" 30) sampleNow)]

/-- The run in which the third call sends a request of its own, between the first call's answer
and the expiry of that token. -/
theorem refetch_run :
    ∃ s, waitingSteps.foldlM (oauthStep sampleOAuthSettings secondForced) OAuthState.initial =
        some s ∧ s.calls 2 = .waiting ∧
      ∃ t, oauthStep sampleOAuthSettings secondForced s
          (0, .answered (tokenAnswer "first" 3599) sampleNow) = some t ∧
      ∃ u, replacingSteps.foldlM (oauthStep sampleOAuthSettings secondForced) t = some u ∧
        u.shared.answers = [] ++ (0, tokenAnswer "first" 3599, sampleNow) ::
          [(1, tokenAnswer "second" 30, sampleNow)] ∧
      ∃ v, oauthStep sampleOAuthSettings secondForced u (2, .acquired sampleNow) = some v ∧
        v.shared.now = sampleNow ∧ v.calls 2 = .fetching :=
  ⟨_, rfl, rfl, _, rfl, _, rfl, rfl, _, rfl, rfl, rfl⟩

/-- The first token of the example is still good. -/
theorem first_outsideMargin :
    outsideMargin sampleOAuthSettings (sampleNow.add (.ofRatio false 3599 1)) sampleNow =
      .ok true := by
  decide

/-- A waiting unforced call can fetch another token although the one fetched while it waited is
still outside the margin. -/
theorem refetch_outside_margin :
    ¬ ∀ (settings : OAuthSettings) (forceRefresh : Fin 3 → Bool)
      (s t u v : Interleaved (OAuthState (Fin 3)) (Fin 3) TokenCall) (i j : Fin 3)
      (answer : OAuthAnswer) (now : PyFloat) (token : Json) (expiresAt : PyFloat) (a : OAuthResume),
      Reachable (oauthStep settings forceRefresh) OAuthState.initial s →
      oauthStep settings forceRefresh s (i, .answered answer now) = some t →
      fetchOauthToken answer now = .ok (token, expiresAt) →
      outsideMargin settings expiresAt now = .ok true →
      s.calls j = .waiting → forceRefresh j = false →
      Reachable (oauthStep settings forceRefresh) t u →
      oauthStep settings forceRefresh u (j, a) = some v →
      outsideMargin settings expiresAt v.shared.now = .ok true → v.calls j ≠ .fetching := by
  intro h
  obtain ⟨s, hs, hwaiting, t, ht, u, hu, -, v, hv, hnow, hrequest⟩ := refetch_run
  exact h sampleOAuthSettings secondForced s t u v 0 2 (tokenAnswer "first" 3599) sampleNow
    (.str "first") (sampleNow.add (.ofRatio false 3599 1)) (.acquired sampleNow)
    (Reaches.of_foldlM hs) ht rfl first_outsideMargin hwaiting rfl (Reaches.of_foldlM hu) hv
    (hnow ▸ first_outsideMargin) hrequest

theorem getAccessToken_run_sample :
    ∃ s t, (waitingSteps ++ (0, .answered (tokenAnswer "first" 3599) sampleNow) ::
        replacingSteps).foldlM (oauthStep sampleOAuthSettings secondForced) OAuthState.initial =
          some s ∧
      oauthStep sampleOAuthSettings secondForced s (2, .acquired sampleNow) = some t ∧
      (∃ k fetched, secondForced k = true ∧
        Fetched [(1, tokenAnswer "second" 30, sampleNow)] k fetched) ∧
      outsideMargin sampleOAuthSettings s.shared.cache.expiresAt t.shared.now = .ok false := by
  obtain ⟨s, hs, -, t, ht, u, hu, hanswers, v, hv, hnow, hrequest⟩ := refetch_run
  have hrun : (waitingSteps ++ (0, .answered (tokenAnswer "first" 3599) sampleNow) ::
      replacingSteps).foldlM (oauthStep sampleOAuthSettings secondForced) OAuthState.initial =
        some u := by
    rw [List.foldlM_append, hs, Option.bind_eq_bind, Option.bind_some, List.foldlM_cons, ht]
    exact hu
  refine ⟨u, v, hrun, hv, ?_⟩
  exact (getAccessToken_run (Reaches.of_foldlM hrun)).2.2.2 [] 0 (tokenAnswer "first" 3599)
    sampleNow _ (.str "first") (sampleNow.add (.ofRatio false 3599 1)) 2 (.acquired sampleNow) v
    hanswers rfl hv rfl hrequest (hnow ▸ first_outsideMargin)

end Settlement
end BettingPlatform
