import BettingPlatform.Foundations.ExpiringStore
import BettingPlatform.Foundations.Interleaving
import BettingPlatform.Foundations.Runs
import BettingPlatform.Ingress.Users

/-!
# Registrations and their verification

`register_user` and `verify_otp`, one Redis command or database statement at a time.  Between
two commands a call reads its own variables only, so these checks belong to the command in
front of them.  Any number of calls run at once, the clock goes on between their steps, and
Redis drops keys.

What is written about the past is kept in a log: which calls stored a pending registration,
which codes were compared with whose, and which row of `auth_users` which call created.  No
step reads the log.

Main results:

- Theorem `RedisKey.name_injective`: the keys of different phones and purposes differ.
- Theorem `advanced_of_advance`: all that one step of a call can do.
-/

namespace BettingPlatform
namespace Ingress

open Runs

/-! ## What is stored in Redis -/

/-- The keys of `user_service.py`, for a normalized phone number. -/
inductive RedisKey
  | pending (phone : String)
  | attempts (phone : String)
  | lock (phone : String)
deriving DecidableEq

/-- The text of a key. -/
def RedisKey.name : RedisKey → String
  | .pending phone => "registration:pending:" ++ phone
  | .attempts phone => "otp_attempts:" ++ phone
  | .lock phone => "lock:verify:" ++ phone

/-- Texts with different first characters differ. -/
theorem ofList_append_ne {c d : Char} {cs ds : List Char} (hne : c ≠ d) (p q : String) :
    String.ofList (c :: cs) ++ p ≠ String.ofList (d :: ds) ++ q := by
  intro h
  have hchars := congrArg String.toList h
  rw [String.toList_append, String.toList_append, String.toList_ofList, String.toList_ofList] at hchars
  exact hne (List.cons.inj hchars).1

/-- The keys of different phones and purposes differ. -/
theorem RedisKey.name_injective {k l : RedisKey} (h : k.name = l.name) : k = l := by
  unfold RedisKey.name at h
  cases k with
  | pending phone =>
      cases l with
      | pending phone' => rw [(String.append_right_inj _).mp h]
      | attempts phone' => exact absurd h (ofList_append_ne (by decide) phone phone')
      | lock phone' => exact absurd h (ofList_append_ne (by decide) phone phone')
  | attempts phone =>
      cases l with
      | pending phone' => exact absurd h (ofList_append_ne (by decide) phone phone')
      | attempts phone' => rw [(String.append_right_inj _).mp h]
      | lock phone' => exact absurd h (ofList_append_ne (by decide) phone phone')
  | lock phone =>
      cases l with
      | pending phone' => exact absurd h (ofList_append_ne (by decide) phone phone')
      | attempts phone' => exact absurd h (ofList_append_ne (by decide) phone phone')
      | lock phone' => rw [(String.append_right_inj _).mp h]

/-- The value of a pending key: what one `register_user` call stored. -/
structure PendingRegistration where
  email : String
  phone : String
  passwordHash : String
  username : Option String
  otp : String
deriving DecidableEq

/-- A pending registration, with the call that stored it. -/
structure Issued (ι : Type) where
  issuer : ι
  registration : PendingRegistration

/-- The three kinds of keys, each by normalized phone number. -/
structure Redis (ι : Type) where
  pending : ExpiringStore String (Issued ι)
  attempts : ExpiringStore String Nat
  lock : ExpiringStore String Unit

/-- The key is there, and its deadline is over. -/
def Redis.Elapsed {ι : Type} (redis : Redis ι) (now : Nat) : RedisKey → Prop
  | .pending phone => redis.pending.Elapsed now phone
  | .attempts phone => redis.attempts.Elapsed now phone
  | .lock phone => redis.lock.Elapsed now phone

/-- A key disappears. -/
def Redis.vanish {ι : Type} (redis : Redis ι) : RedisKey → Redis ι
  | .pending phone => { redis with pending := redis.pending.delete phone }
  | .attempts phone => { redis with attempts := redis.attempts.delete phone }
  | .lock phone => { redis with lock := redis.lock.delete phone }

/-! ## Calls -/

/-- `_MAX_OTP_ATTEMPTS`. -/
def maxOtpAttempts : Nat := 5

/-- `_PENDING_TTL`. -/
def pendingTtl : Nat := 300

/-- The `ttl` of the verification lock. -/
def lockTtl : Nat := 30

/-- A call of `register_user`: its arguments, the code it draws, and the hash of its password
under the salt it draws. -/
structure Registration where
  email : String
  phone : String
  username : Option String
  code : Nat
  passwordHash : String
  code_range : 100000 ≤ code ∧ code ≤ 999999

/-- `str(random.randint(100000, 999999))`. -/
def Registration.otp (r : Registration) : String :=
  toString r.code

/-- A call of `verify_otp`. -/
structure Verification where
  phone : String
  otp : String

/-- A call of one of the two. -/
inductive UserRequest
  | register (r : Registration)
  | verify (v : Verification)

/-- The phone number of a call, normalized. -/
def UserRequest.phone? : UserRequest → Option String
  | .register r => normalizePhone r.phone
  | .verify v => normalizePhone v.phone

/-- What `register_user` stores. -/
def Registration.pending (lower : String → String) (r : Registration) (phone : String) :
    PendingRegistration where
  email := lower r.email
  phone := phone
  passwordHash := r.passwordHash
  username := r.username
  otp := r.otp

/-- The row that `verify_otp` makes of a pending registration. -/
def PendingRegistration.user (uuid5 : Uuid → String → Uuid) (pending : PendingRegistration)
    (phone : String) : AuthUser where
  id := uuid5 0x6ba7b8109dad11d180b400c04fd430c8 pending.email
  email := pending.email
  phone := phone
  username := pending.username
  passwordHash := pending.passwordHash

/-- How a call ends. -/
inductive UserOutcome
  /-- `register_user` returns the phone number. -/
  | otpSent (phone : String)
  /-- `verify_otp` returns tokens for a user id and an email. -/
  | tokens (userId email : String)
  /-- `HTTPException`. -/
  | httpException (status : Nat) (detail : String)
  /-- Another exception: of the phone check, or of the database. -/
  | serverError
deriving DecidableEq

/-- Where a call stands: the command that comes next, with the variables it still uses. -/
inductive UserCall (ι : Type)
  | idle
  /-- `register_user`: about to look for the phone number. -/
  | checkPhone
  /-- About to store the pending registration. -/
  | store
  /-- About to clear the attempt counter. -/
  | clear
  /-- About to send the code. -/
  | send
  /-- `verify_otp`: the lock is taken; about to read the attempt counter. -/
  | attempts
  /-- About to read the pending registration and to compare the code with it. -/
  | pending
  /-- The code was wrong; about to count it. -/
  | incr (issuer : ι)
  /-- The count was 1; about to set the counter's deadline. -/
  | expire (count : Nat)
  /-- The code was right; about to create the user. -/
  | create (issued : Issued ι)
  /-- The user is committed; about to read the row again. -/
  | refresh (user : AuthUser)
  /-- About to delete the pending registration and the attempt counter. -/
  | clean (user : AuthUser)
  /-- About to delete the lock. -/
  | release (outcome : UserOutcome)
  | returned (outcome : UserOutcome)

/-- What the log records. -/
inductive UserEvent (ι : Type)
  /-- A `register_user` call stored its pending registration. -/
  | stored (issuer : ι)
  /-- A code was compared with the one that a `register_user` call had stored. -/
  | compared (issuer : ι) (code : String)
  /-- A `verify_otp` call created a row from what a `register_user` call had stored. -/
  | created (verifier issuer : ι) (user : AuthUser)
deriving DecidableEq

/-- What the calls share, and the log. -/
structure UserStore (ι : Type) where
  users : Table AuthUser
  redis : Redis ι
  now : Nat
  log : List (UserEvent ι)

/-- What the scheduler decides for a step of a call. -/
inductive UserMove
  | proceed
  /-- The database or the SMS gateway fails. -/
  | fail
deriving DecidableEq

section Steps

variable {ι : Type} [DecidableEq ι] (lower : String → String) (uuid5 : Uuid → String → Uuid)

/-- One step of `register_user`, for a phone number that is normalized. -/
def registerUser (i : ι) (r : Registration) (phone : String) (s : UserStore ι) :
    UserCall ι → UserMove → Option (UserStore ι × UserCall ι)
  | .idle, .proceed =>
      match getByEmail lower s.users (lower r.email) with
      | some _ => some (s, .returned (.httpException 409 "email already registered"))
      | none => some (s, .checkPhone)
  | .checkPhone, .proceed =>
      match getByPhone s.users phone with
      | some _ => some (s, .returned (.httpException 409 "phone already registered"))
      | none => some (s, .store)
  | .store, .proceed =>
      some ({ s with
        redis := { s.redis with
          pending := s.redis.pending.setEx s.now pendingTtl phone ⟨i, r.pending lower phone⟩ }
        log := s.log ++ [.stored i] }, .clear)
  | .clear, .proceed =>
      some ({ s with redis := { s.redis with attempts := s.redis.attempts.delete phone } }, .send)
  | .send, .proceed => some (s, .returned (.otpSent phone))
  | .send, .fail => some (s, .returned (.httpException 502 "failed to send OTP SMS"))
  | .idle, .fail | .checkPhone, .fail => some (s, .returned .serverError)
  | _, _ => none

/-- The answer to a wrong code that was counted. -/
def wrongCode (count : Nat) : UserOutcome :=
  if maxOtpAttempts ≤ count then .httpException 429 "too many failed OTP attempts"
  else .httpException 401 "wrong OTP"

/-- One step of `verify_otp`, for a phone number that is normalized. -/
def verifyOtp (i : ι) (v : Verification) (phone : String) (s : UserStore ι) :
    UserCall ι → UserMove → Option (UserStore ι × UserCall ι)
  | .idle, .proceed =>
      match s.redis.lock.setNxEx s.now lockTtl phone () with
      | none => some (s, .returned (.httpException 429 "verification already in progress"))
      | some lock => some ({ s with redis := { s.redis with lock } }, .attempts)
  | .attempts, .proceed =>
      if maxOtpAttempts ≤ s.redis.attempts.count phone then
        some (s, .release (.httpException 429 "too many failed OTP attempts"))
      else some (s, .pending)
  | .pending, .proceed =>
      match s.redis.pending.get phone with
      | none => some (s, .release (.httpException 400 "OTP expired"))
      | some issued =>
          some ({ s with log := s.log ++ [.compared issued.issuer v.otp] },
            if issued.registration.otp ≠ v.otp then .incr issued.issuer else .create issued)
  | .incr _, .proceed =>
      let count := s.redis.attempts.count phone + 1
      some ({ s with redis := { s.redis with attempts := s.redis.attempts.incr phone } },
        if count = 1 then .expire count else .release (wrongCode count))
  | .expire count, .proceed =>
      some ({ s with redis := { s.redis with
        attempts := s.redis.attempts.expire s.now pendingTtl phone } }, .release (wrongCode count))
  | .create issued, .proceed =>
      let user := issued.registration.user uuid5 phone
      match createUser s.users user with
      | .error _ => some (s, .release .serverError)
      | .ok users =>
          some ({ s with users, log := s.log ++ [.created i issued.issuer user] }, .refresh user)
  | .refresh user, .proceed => some (s, .clean user)
  | .create _, .fail | .refresh _, .fail => some (s, .release .serverError)
  | .clean user, .proceed =>
      some ({ s with redis := { s.redis with
        pending := s.redis.pending.delete phone
        attempts := s.redis.attempts.delete phone } }, .release (.tokens user.id.text user.email))
  | .release outcome, .proceed =>
      some ({ s with redis := { s.redis with lock := s.redis.lock.delete phone } },
        .returned outcome)
  | _, _ => none

/-- One step of a call. -/
def advanceUser (request : ι → UserRequest) (i : ι) (s : UserStore ι) (call : UserCall ι)
    (move : UserMove) : Option (UserStore ι × UserCall ι) :=
  match (request i).phone? with
  | none => match call with
    | .idle => some (s, .returned .serverError)
    | _ => none
  | some phone => match request i with
    | .register r => registerUser lower i r phone s call move
    | .verify v => verifyOtp uuid5 i v phone s call move

/-- What happens next. -/
inductive UserLabel (ι : Type)
  /-- A call takes a step. -/
  | call (i : ι) (move : UserMove)
  /-- Redis drops a key. -/
  | vanish (key : RedisKey)
  /-- Some seconds go by. -/
  | tick (seconds : Nat)

/-- The calls, and what they share. -/
abbrev UserState (ι : Type) := Interleaved (UserStore ι) ι (UserCall ι)

/-- One step. -/
def userStep (request : ι → UserRequest) (s : UserState ι) : UserLabel ι → Option (UserState ι)
  | .call i move => interleave (advanceUser lower uuid5 request) s (i, move)
  | .vanish key =>
      some { s with shared := { s.shared with redis := s.shared.redis.vanish key } }
  | .tick seconds => some { s with shared := { s.shared with now := s.shared.now + seconds } }

/-- No call has started, and Redis is empty. -/
def UserState.start (ι : Type) (users : Table AuthUser) : UserState ι where
  shared :=
    { users
      redis := { pending := .empty, attempts := .empty, lock := .empty }
      now := 0
      log := [] }
  calls := fun _ => .idle

/-! ## What a step can do -/

/-- The call holds the verification lock, unless that has lapsed. -/
@[simp] def UserCall.inSection : UserCall ι → Bool
  | .attempts | .pending | .incr _ | .expire _ | .create _ | .refresh _ | .clean _
  | .release _ => true
  | _ => false

/-- The call has not stored a pending registration. -/
@[simp] def UserCall.beforeStore : UserCall ι → Bool
  | .idle | .checkPhone | .store => true
  | _ => false

/-- A step after which only the call's position has changed. -/
@[mk_iff] structure UserCall.Moves (call call' : UserCall ι) : Prop where
  inSection : call'.inSection = call.inSection
  beforeStore : call'.beforeStore → call.beforeStore
  clear : call ≠ .clear
  incr : ∀ issuer, call ≠ .incr issuer
  pending' : call' ≠ .pending
  clear' : call' ≠ .clear
  incr' : ∀ issuer, call' ≠ .incr issuer
  create' : ∀ issued, call' ≠ .create issued

/-- The store with another Redis. -/
def UserStore.withRedis (s : UserStore ι) (redis : Redis ι) : UserStore ι :=
  { s with redis }

/-- The effect of one step of the call `i` for a normalized phone number. -/
inductive Advanced (request : ι → UserRequest) (i : ι) (phone : String) (s : UserStore ι) :
    UserCall ι → UserStore ι → UserCall ι → Prop
  | moved {call call' : UserCall ι} : call.Moves call' → Advanced request i phone s call s call'
  | stored {r : Registration} : request i = .register r →
      Advanced request i phone s .store
        { s with
          redis := { s.redis with
            pending := s.redis.pending.setEx s.now pendingTtl phone ⟨i, r.pending lower phone⟩ }
          log := s.log ++ [.stored i] } .clear
  | cleared :
      Advanced request i phone s .clear
        (s.withRedis { s.redis with attempts := s.redis.attempts.delete phone }) .send
  | acquired : s.redis.lock.get phone = none →
      Advanced request i phone s .idle
        (s.withRedis { s.redis with lock := s.redis.lock.setEx s.now lockTtl phone () }) .attempts
  | allowed : s.redis.attempts.count phone < maxOtpAttempts →
      Advanced request i phone s .attempts s .pending
  | right {v : Verification} {issued : Issued ι} : request i = .verify v →
      s.redis.pending.get phone = some issued → issued.registration.otp = v.otp →
      Advanced request i phone s .pending
        { s with log := s.log ++ [.compared issued.issuer v.otp] } (.create issued)
  | wrong {v : Verification} {issued : Issued ι} : request i = .verify v →
      s.redis.pending.get phone = some issued → issued.registration.otp ≠ v.otp →
      Advanced request i phone s .pending
        { s with log := s.log ++ [.compared issued.issuer v.otp] } (.incr issued.issuer)
  | counted {issuer : ι} {call' : UserCall ι} :
      (call' = .expire 1 ∨ ∃ outcome, call' = .release outcome) →
      Advanced request i phone s (.incr issuer)
        (s.withRedis { s.redis with attempts := s.redis.attempts.incr phone }) call'
  | timed {count : Nat} {outcome : UserOutcome} :
      Advanced request i phone s (.expire count)
        (s.withRedis { s.redis with attempts := s.redis.attempts.expire s.now pendingTtl phone })
        (.release outcome)
  | created {issued : Issued ι} {users : Table AuthUser} :
      s.users.insert (issued.registration.user uuid5 phone) = .ok users →
      Advanced request i phone s (.create issued)
        { s with
          users
          log := s.log ++ [.created i issued.issuer (issued.registration.user uuid5 phone)] }
        (.refresh (issued.registration.user uuid5 phone))
  | cleaned {user : AuthUser} {outcome : UserOutcome} :
      Advanced request i phone s (.clean user)
        (s.withRedis { s.redis with
          pending := s.redis.pending.delete phone
          attempts := s.redis.attempts.delete phone }) (.release outcome)
  | released {outcome : UserOutcome} :
      Advanced request i phone s (.release outcome)
        (s.withRedis { s.redis with lock := s.redis.lock.delete phone }) (.returned outcome)

variable {lower uuid5} {request : ι → UserRequest} {i : ι} {s s' : UserStore ι}
  {call call' : UserCall ι} {move : UserMove} {phone : String}

omit [DecidableEq ι] in
/-- A step of `register_user` is one of those listed. -/
theorem advanced_of_registerUser {r : Registration} (hrequest : request i = .register r)
    (h : registerUser lower i r phone s call move = some (s', call')) :
    Advanced lower uuid5 request i phone s call s' call' := by
  unfold registerUser at h
  split at h
  · split at h
    all_goals
      obtain ⟨rfl, rfl⟩ := Prod.mk.inj (Option.some.inj h)
      exact .moved (by simp [UserCall.moves_iff])
  · split at h
    all_goals
      obtain ⟨rfl, rfl⟩ := Prod.mk.inj (Option.some.inj h)
      exact .moved (by simp [UserCall.moves_iff])
  · obtain ⟨rfl, rfl⟩ := Prod.mk.inj (Option.some.inj h)
    exact .stored hrequest
  · obtain ⟨rfl, rfl⟩ := Prod.mk.inj (Option.some.inj h)
    exact .cleared
  · obtain ⟨rfl, rfl⟩ := Prod.mk.inj (Option.some.inj h)
    exact .moved (by simp [UserCall.moves_iff])
  · obtain ⟨rfl, rfl⟩ := Prod.mk.inj (Option.some.inj h)
    exact .moved (by simp [UserCall.moves_iff])
  · obtain ⟨rfl, rfl⟩ := Prod.mk.inj (Option.some.inj h)
    exact .moved (by simp [UserCall.moves_iff])
  · obtain ⟨rfl, rfl⟩ := Prod.mk.inj (Option.some.inj h)
    exact .moved (by simp [UserCall.moves_iff])
  · contradiction

omit [DecidableEq ι] in
/-- And a step of `verify_otp`. -/
theorem advanced_of_verifyOtp {v : Verification} (hrequest : request i = .verify v)
    (h : verifyOtp uuid5 i v phone s call move = some (s', call')) :
    Advanced lower uuid5 request i phone s call s' call' := by
  unfold verifyOtp at h
  split at h
  · split at h
    · obtain ⟨rfl, rfl⟩ := Prod.mk.inj (Option.some.inj h)
      exact .moved (by simp [UserCall.moves_iff])
    · rename_i lock hlock
      obtain ⟨hfree, rfl⟩ := (ExpiringStore.setNxEx_eq_some_iff ..).mp hlock
      obtain ⟨rfl, rfl⟩ := Prod.mk.inj (Option.some.inj h)
      exact .acquired hfree
  · split at h
    · obtain ⟨rfl, rfl⟩ := Prod.mk.inj (Option.some.inj h)
      exact .moved (by simp [UserCall.moves_iff])
    · rename_i hcount
      obtain ⟨rfl, rfl⟩ := Prod.mk.inj (Option.some.inj h)
      exact .allowed (not_le.mp hcount)
  · split at h
    · obtain ⟨rfl, rfl⟩ := Prod.mk.inj (Option.some.inj h)
      exact .moved (by simp [UserCall.moves_iff])
    · rename_i issued hissued
      obtain ⟨rfl, rfl⟩ := Prod.mk.inj (Option.some.inj h)
      split
      · rename_i hwrong
        exact .wrong hrequest hissued hwrong
      · rename_i hright
        exact .right hrequest hissued (not_not.mp hright)
  · obtain ⟨rfl, rfl⟩ := Prod.mk.inj (Option.some.inj h)
    refine .counted ?_
    split
    · rename_i hfirst
      rw [hfirst]
      exact .inl rfl
    · exact .inr ⟨_, rfl⟩
  · obtain ⟨rfl, rfl⟩ := Prod.mk.inj (Option.some.inj h)
    exact .timed
  · dsimp only at h
    split at h
    · obtain ⟨rfl, rfl⟩ := Prod.mk.inj (Option.some.inj h)
      exact .moved (by simp [UserCall.moves_iff])
    · rename_i users hinsert
      obtain ⟨rfl, rfl⟩ := Prod.mk.inj (Option.some.inj h)
      exact .created hinsert
  · obtain ⟨rfl, rfl⟩ := Prod.mk.inj (Option.some.inj h)
    exact .moved (by simp [UserCall.moves_iff])
  · obtain ⟨rfl, rfl⟩ := Prod.mk.inj (Option.some.inj h)
    exact .moved (by simp [UserCall.moves_iff])
  · obtain ⟨rfl, rfl⟩ := Prod.mk.inj (Option.some.inj h)
    exact .moved (by simp [UserCall.moves_iff])
  · obtain ⟨rfl, rfl⟩ := Prod.mk.inj (Option.some.inj h)
    exact .cleaned
  · obtain ⟨rfl, rfl⟩ := Prod.mk.inj (Option.some.inj h)
    exact .released
  · contradiction

omit [DecidableEq ι] in
/-- A step of a call has one of these effects, or ends a call whose phone number has no normal
form. -/
theorem advanced_of_advance (h : advanceUser lower uuid5 request i s call move = some (s', call')) :
    (∃ phone, (request i).phone? = some phone ∧
        Advanced lower uuid5 request i phone s call s' call') ∨
      ((request i).phone? = none ∧ s' = s ∧ call.Moves call') := by
  unfold advanceUser at h
  split at h
  · rename_i hphone
    split at h
    · obtain ⟨rfl, rfl⟩ := Prod.mk.inj (Option.some.inj h)
      exact .inr ⟨hphone, rfl, by simp [UserCall.moves_iff]⟩
    · contradiction
  · rename_i phone hphone
    refine .inl ⟨phone, hphone, ?_⟩
    split at h
    · rename_i r hrequest
      exact advanced_of_registerUser hrequest h
    · rename_i v hrequest
      exact advanced_of_verifyOtp hrequest h

/-- A step of the system is a step of one call, a key that disappears, or time that goes by. -/
theorem userStep_eq_some {s t : UserState ι} {label : UserLabel ι}
    (h : userStep lower uuid5 request s label = some t) :
    (∃ i move phone shared call', label = .call i move ∧ (request i).phone? = some phone ∧
        Advanced lower uuid5 request i phone s.shared (s.calls i) shared call' ∧
        t = { shared := shared, calls := Function.update s.calls i call' }) ∨
      (∃ i move call', label = .call i move ∧ (s.calls i).Moves call' ∧
        t = { s with calls := Function.update s.calls i call' }) ∨
      (∃ key, label = .vanish key ∧
        t = { s with shared := s.shared.withRedis (s.shared.redis.vanish key) }) ∨
      ∃ seconds, label = .tick seconds ∧
        t = { s with shared := { s.shared with now := s.shared.now + seconds } } := by
  cases label with
  | call i move =>
      obtain ⟨shared, call', hadvance, rfl⟩ := interleave_eq_some_iff.mp h
      rcases advanced_of_advance hadvance with ⟨phone, hphone, hadvanced⟩ | ⟨-, rfl, hmoves⟩
      · exact .inl ⟨i, move, phone, shared, call', rfl, hphone, hadvanced, rfl⟩
      · exact .inr (.inl ⟨i, move, call', rfl, hmoves, rfl⟩)
  | vanish key => exact .inr (.inr (.inl ⟨key, rfl, (Option.some.inj h).symm⟩))
  | tick seconds => exact .inr (.inr (.inr ⟨seconds, rfl, (Option.some.inj h).symm⟩))

end Steps

end Ingress
end BettingPlatform
