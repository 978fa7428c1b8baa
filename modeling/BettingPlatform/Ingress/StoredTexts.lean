import BettingPlatform.Foundations.DecimalRounding
import BettingPlatform.Foundations.JsonDumps
import BettingPlatform.Ingress.VerifiedAccounts

/-!
# What Redis really holds

Redis knows neither registrations nor counters: every key is a text, and so is every value.  A
pending registration is what `json.dumps` makes of a dictionary, a counter is a numeral that
Redis adds to, and the lock is `"1"`.  `RedisOTP` reads these texts back.

The calls of `user_service.py` run here over such texts, with the dictionaries that come out of
them, a missing member and an invalid text included.  The texts represent the typed stores of
`UserService`, and step by step the calls over texts do what the typed calls do.

Main results:

- Theorem `getOtp_eq`: what is read from a pending key is what was stored under it.
- Theorem `lockstep_advance`: one step over texts is one step over the typed stores.
- Theorem `same_runs`: so the runs over texts are the runs over the typed stores, with the same
  rows and the same answers.
-/

namespace BettingPlatform
namespace Ingress

open Python Runs

/-! ## `RedisOTP` -/

/-- The keys of Redis with their texts. -/
abbrev TextRedis := ExpiringStore String String

section RedisOTP

variable (floatText : PyFloat → List Char) (redis : TextRedis) (now : Nat) (key : String)

/-- `set_otp`. -/
def setOtp (data : List (String × Json)) (ttl : Nat) : TextRedis :=
  redis.setEx now ttl key (String.ofList (dumps floatText (.dict data)))

/-- `get_otp`: a text that is no JSON, or no dictionary, reads as `None`. -/
def getOtp : Option (List (String × Json)) :=
  match (redis.get key).bind fun raw => loads raw.toList with
  | some (.dict items) => some items
  | _ => none

/-- `delete_keys`. -/
def deleteKeys (keys : List String) : TextRedis :=
  keys.foldl ExpiringStore.delete redis

/-- `acquire_lock`; `none` when the key is there. -/
def acquireLock (ttl : Nat) : Option TextRedis :=
  redis.setNxEx now ttl key "1"

/-- `release_lock`. -/
def releaseLock : TextRedis :=
  redis.delete key

/-- `get_attempts`: a text that is no integer reads as 0. -/
def getAttempts : Int :=
  match redis.get key with
  | none => 0
  | some raw => (intOfStr raw).getD 0

/-- The 64-bit integer that a value of Redis stands for: its text is the canonical numeral. -/
def redisInteger (raw : String) : Option Int :=
  (intOfStr raw).filter fun n =>
    raw = String.ofList (intText n) ∧ -2 ^ 63 ≤ n ∧ n < 2 ^ 63

/-- `INCR key` with its answer; `none` when the value is no integer, or the largest one.  A new
counter has no deadline, an old one keeps its own. -/
def incr : Option (Int × TextRedis) :=
  let old := match redis.get key with
    | none => some 0
    | some raw => redisInteger raw
  match old with
  | none => none
  | some n =>
      if n + 1 < 2 ^ 63 then
        some (n + 1, ⟨Function.update redis.entry key (some
          { value := String.ofList (intText (n + 1))
            deadline := (redis.entry key).bind Expiring.deadline })⟩)
      else none

end RedisOTP

/-! ## Calls over texts -/

/-- The dictionary that `register_user` stores. -/
def pendingData (email phone passwordHash : String) (username : Option String) (otp : String) :
    List (String × Json) :=
  [("email", .str email), ("phone", .str phone), ("password_hash", .str passwordHash),
    ("username", username.elim .null .str), ("otp", .str otp)]

/-- The row that `verify_otp` makes of a dictionary: `none` when a member is missing, or is no
text. -/
def userOf (uuid5 : Uuid → String → Uuid) (pending : List (String × Json)) (phone : String) :
    Option AuthUser :=
  match pending.lookup "email", pending.lookup "password_hash",
      (pending.lookup "username").getD .null with
  | some (.str email), some (.str passwordHash), .null =>
      some ⟨uuid5 0x6ba7b8109dad11d180b400c04fd430c8 email, email, phone, none, passwordHash⟩
  | some (.str email), some (.str passwordHash), .str username =>
      some ⟨uuid5 0x6ba7b8109dad11d180b400c04fd430c8 email, email, phone, some username,
        passwordHash⟩
  | _, _, _ => none

/-- Where a call stands, with the variables it still uses. -/
inductive TextCall
  | idle
  | checkPhone
  | store
  | clear
  | send
  | attempts
  | pending
  | incr
  | expire (count : Int)
  | create (pending : List (String × Json))
  | refresh (user : AuthUser)
  | clean (user : AuthUser)
  | release (outcome : UserOutcome)
  | returned (outcome : UserOutcome)

/-- What the calls share. -/
structure TextStore where
  users : Table AuthUser
  redis : TextRedis
  now : Nat

/-- The answer to a wrong code that was counted. -/
def wrongCount (count : Int) : UserOutcome :=
  if (maxOtpAttempts : Int) ≤ count then .httpException 429 "too many failed OTP attempts"
  else .httpException 401 "wrong OTP"

section Steps

variable {ι : Type} [DecidableEq ι] (floatText : PyFloat → List Char) (lower : String → String)
  (uuid5 : Uuid → String → Uuid)

/-- One step of `register_user`, for a phone number that is normalized. -/
def registerText (r : Registration) (phone : String) (s : TextStore) :
    TextCall → UserMove → Option (TextStore × TextCall)
  | .idle, .proceed =>
      match getByEmail lower s.users (lower r.email) with
      | some _ => some (s, .returned (.httpException 409 "email already registered"))
      | none => some (s, .checkPhone)
  | .checkPhone, .proceed =>
      match getByPhone s.users phone with
      | some _ => some (s, .returned (.httpException 409 "phone already registered"))
      | none => some (s, .store)
  | .store, .proceed =>
      let data := pendingData (lower r.email) phone r.passwordHash r.username r.otp
      some ({ s with
        redis := setOtp floatText s.redis s.now (RedisKey.pending phone).name data pendingTtl },
        .clear)
  | .clear, .proceed =>
      some ({ s with redis := deleteKeys s.redis [(RedisKey.attempts phone).name] }, .send)
  | .send, .proceed => some (s, .returned (.otpSent phone))
  | .send, .fail => some (s, .returned (.httpException 502 "failed to send OTP SMS"))
  | .idle, .fail | .checkPhone, .fail => some (s, .returned .serverError)
  | _, _ => none

/-- One step of `verify_otp`, for a phone number that is normalized. -/
def verifyText (v : Verification) (phone : String) (s : TextStore) :
    TextCall → UserMove → Option (TextStore × TextCall)
  | .idle, .proceed =>
      match acquireLock s.redis s.now (RedisKey.lock phone).name lockTtl with
      | none => some (s, .returned (.httpException 429 "verification already in progress"))
      | some redis => some ({ s with redis }, .attempts)
  | .attempts, .proceed =>
      if (maxOtpAttempts : Int) ≤ getAttempts s.redis (RedisKey.attempts phone).name then
        some (s, .release (.httpException 429 "too many failed OTP attempts"))
      else some (s, .pending)
  | .pending, .proceed =>
      match getOtp s.redis (RedisKey.pending phone).name with
      | none => some (s, .release (.httpException 400 "OTP expired"))
      | some pending =>
          some (s, if ((pending.lookup "otp").getD .null).isStr v.otp then .create pending
            else .incr)
  | .incr, .proceed =>
      match incr s.redis (RedisKey.attempts phone).name with
      | none => some (s, .release .serverError)
      | some (count, redis) =>
          some ({ s with redis },
            if count = 1 then .expire count else .release (wrongCount count))
  | .expire count, .proceed =>
      some ({ s with redis := s.redis.expire s.now pendingTtl (RedisKey.attempts phone).name },
        .release (wrongCount count))
  | .create pending, .proceed =>
      match userOf uuid5 pending phone with
      | none => some (s, .release .serverError)
      | some user =>
          match createUser s.users user with
          | .error _ => some (s, .release .serverError)
          | .ok users => some ({ s with users }, .refresh user)
  | .refresh user, .proceed => some (s, .clean user)
  | .create _, .fail | .refresh _, .fail => some (s, .release .serverError)
  | .clean user, .proceed =>
      let keys := [(RedisKey.pending phone).name, (RedisKey.attempts phone).name]
      some ({ s with redis := deleteKeys s.redis keys },
        .release (.tokens user.id.text user.email))
  | .release outcome, .proceed =>
      some ({ s with redis := releaseLock s.redis (RedisKey.lock phone).name },
        .returned outcome)
  | _, _ => none

/-- One step of a call. -/
def advanceText (request : ι → UserRequest) (i : ι) (s : TextStore) (call : TextCall)
    (move : UserMove) : Option (TextStore × TextCall) :=
  match (request i).phone? with
  | none => match call with
    | .idle => some (s, .returned .serverError)
    | _ => none
  | some phone => match request i with
    | .register r => registerText floatText lower r phone s call move
    | .verify v => verifyText uuid5 v phone s call move

/-- What happens next. -/
inductive TextLabel (ι : Type)
  /-- A call takes a step. -/
  | call (i : ι) (move : UserMove)
  /-- Redis drops a key. -/
  | vanish (key : String)
  /-- Some seconds go by. -/
  | tick (seconds : Nat)

/-- The calls, and what they share. -/
abbrev TextState (ι : Type) := Interleaved TextStore ι TextCall

/-- One step. -/
def textStep (request : ι → UserRequest) (s : TextState ι) : TextLabel ι → Option (TextState ι)
  | .call i move => interleave (advanceText floatText lower uuid5 request) s (i, move)
  | .vanish key =>
      some { s with shared := { s.shared with redis := s.shared.redis.delete key } }
  | .tick seconds => some { s with shared := { s.shared with now := s.shared.now + seconds } }

/-- No call has started, and Redis is empty. -/
def TextState.start (ι : Type) (users : Table AuthUser) : TextState ι where
  shared := { users, redis := .empty, now := 0 }
  calls := fun _ => .idle

end Steps

/-! ## What the texts stand for -/

/-- The dictionary of a pending registration. -/
def PendingRegistration.data (pending : PendingRegistration) : List (String × Json) :=
  pendingData pending.email pending.phone pending.passwordHash pending.username pending.otp

section Representation

variable {ι : Type} (floatText : PyFloat → List Char)

/-- The text that stands for a value. -/
def textEntry {β : Type} (text : β → String) (entry : Expiring β) : Expiring String :=
  ⟨text entry.value, entry.deadline⟩

/-- The text of a pending registration. -/
def Issued.text (issued : Issued ι) : String :=
  String.ofList (dumps floatText (.dict issued.registration.data))

/-- The text of a counter. -/
def countText (n : Nat) : String :=
  String.ofList (intText n)

/-- The text under a key. -/
def Redis.text (redis : Redis ι) : RedisKey → Option (Expiring String)
  | .pending phone => (redis.pending.entry phone).map (textEntry (Issued.text floatText))
  | .attempts phone => (redis.attempts.entry phone).map (textEntry countText)
  | .lock phone => (redis.lock.entry phone).map (textEntry fun _ => "1")

/-- Redis holds the texts of the typed stores, and nothing else. -/
structure OnTexts (texts : TextRedis) (redis : Redis ι) : Prop where
  entry : ∀ key : RedisKey, texts.entry key.name = redis.text floatText key
  only : ∀ name, (∀ key : RedisKey, name ≠ key.name) → texts.entry name = none

/-- What a call over texts remembers. -/
def UserCall.onTexts : UserCall ι → TextCall
  | .idle => .idle
  | .checkPhone => .checkPhone
  | .store => .store
  | .clear => .clear
  | .send => .send
  | .attempts => .attempts
  | .pending => .pending
  | .incr _ => .incr
  | .expire count => .expire count
  | .create issued => .create issued.registration.data
  | .refresh user => .refresh user
  | .clean user => .clean user
  | .release outcome => .release outcome
  | .returned outcome => .returned outcome

/-- Both hold the same, and no counter has passed `n`. -/
structure StoreMatches (n : Nat) (s : UserStore ι) (t : TextStore) : Prop where
  users : t.users = s.users
  now : t.now = s.now
  redis : OnTexts floatText t.redis s.redis
  counts : ∀ phone, s.redis.attempts.count phone ≤ n

/-- Both hold the same, and the calls stand at the same places. -/
structure Matches (n : Nat) (s : UserState ι) (t : TextState ι) : Prop where
  shared : StoreMatches floatText n s.shared t.shared
  calls : ∀ i, t.calls i = (s.calls i).onTexts

end Representation

/-! ## Reading -/

section Reading

variable {ι : Type} {floatText : PyFloat → List Char} {texts : TextRedis} {redis : Redis ι}

/-- The dictionary reads back from its text. -/
theorem loads_data (pending : PendingRegistration) :
    loads (String.ofList (dumps floatText (.dict pending.data))).toList =
      some (.dict pending.data) := by
  rw [String.toList_ofList]
  apply loads_dumps
  apply Json.Dumpable.dict
  · simp [PendingRegistration.data, pendingData]
  · simp only [PendingRegistration.data, pendingData, List.forall_mem_cons, List.not_mem_nil,
      false_implies, implies_true, and_true]
    refine ⟨.str _, .str _, .str _, ?_, .str _⟩
    cases pending.username with
    | none => exact .null
    | some username => exact .str username

/-- What is read from a pending key is what was stored under it. -/
theorem getOtp_eq (h : OnTexts floatText texts redis) (phone : String) :
    getOtp texts (RedisKey.pending phone).name =
      (redis.pending.get phone).map fun issued => issued.registration.data := by
  have hentry := h.entry (.pending phone)
  unfold getOtp ExpiringStore.get
  rw [hentry, Redis.text]
  cases redis.pending.entry phone with
  | none => rfl
  | some entry =>
      simp only [Option.map_some, Option.bind_some, textEntry, Issued.text]
      rw [loads_data]

theorem numDigits_of_lt {n : Nat} (hn : n < 2 ^ 63) : Decimal.numDigits n ≤ maxStrDigits := by
  have hlt : n < 10 ^ 19 := by omega
  exact ((Decimal.numDigits_le_iff (by decide)).mpr hlt).trans (by decide)

/-- The text of a counter is read back. -/
theorem intOfStr_countText {n : Nat} (hn : n < 2 ^ 63) :
    intOfStr (countText n) = some (n : Int) :=
  intOfStr_toDigits (numDigits_of_lt hn)

/-- The counter is read as its text. -/
theorem get_attempts (h : OnTexts floatText texts redis) (phone : String) :
    texts.get (RedisKey.attempts phone).name =
      (redis.attempts.get phone).map countText := by
  have hentry := h.entry (.attempts phone)
  unfold ExpiringStore.get
  rw [hentry, Redis.text, Option.map_map, Option.map_map]
  rfl

/-- And so as its number. -/
theorem getAttempts_eq (h : OnTexts floatText texts redis) {phone : String}
    (hsmall : redis.attempts.count phone < 2 ^ 63) :
    getAttempts texts (RedisKey.attempts phone).name = redis.attempts.count phone := by
  unfold getAttempts
  rw [get_attempts h]
  unfold ExpiringStore.count at hsmall ⊢
  cases hget : redis.attempts.get phone with
  | none => rfl
  | some n =>
      rw [hget, Option.getD_some] at hsmall
      simp only [Option.map_some, intOfStr_countText hsmall, Option.getD_some]

/-- `INCR` of a counter below the largest integer. -/
theorem incr_eq (h : OnTexts floatText texts redis) {phone : String}
    (hsmall : redis.attempts.count phone + 1 < 2 ^ 63) :
    incr texts (RedisKey.attempts phone).name =
      some ((redis.attempts.count phone : Int) + 1,
        ⟨Function.update texts.entry (RedisKey.attempts phone).name
          (some { value := countText (redis.attempts.count phone + 1)
                  deadline := (redis.attempts.entry phone).bind Expiring.deadline })⟩) := by
  have hdeadline : (texts.entry (RedisKey.attempts phone).name).bind Expiring.deadline =
      (redis.attempts.entry phone).bind Expiring.deadline := by
    rw [h.entry (.attempts phone), Redis.text]
    cases redis.attempts.entry phone <;> rfl
  have hold : (match texts.get (RedisKey.attempts phone).name with
      | none => some 0
      | some raw => redisInteger raw) = some (redis.attempts.count phone : Int) := by
    rw [get_attempts h]
    unfold ExpiringStore.count at hsmall ⊢
    cases hget : redis.attempts.get phone with
    | none => rfl
    | some n =>
        rw [hget, Option.getD_some] at hsmall
        simp only [Option.map_some, redisInteger, intOfStr_countText (show n < 2 ^ 63 by omega),
          Option.getD_some]
        rw [Option.filter_some, if_pos]
        rw [decide_eq_true_eq]
        exact ⟨rfl, by omega, by omega⟩
  unfold incr
  simp only [hold, hdeadline]
  rw [if_pos (by omega)]
  rfl

end Reading

/-! ## Writing -/

section Writing

variable {ι : Type} {floatText : PyFloat → List Char} {texts : TextRedis} {redis redis' : Redis ι}

/-- One key is written. -/
theorem OnTexts.update (h : OnTexts floatText texts redis) {key : RedisKey}
    {entry : Option (Expiring String)}
    (hredis : redis'.text floatText = Function.update (redis.text floatText) key entry) :
    OnTexts floatText ⟨Function.update texts.entry key.name entry⟩ redis' where
  entry := by
    intro key'
    rw [hredis]
    by_cases hkey : key' = key
    · subst hkey
      simp
    · have hname : key'.name ≠ key.name := fun hname => hkey (RedisKey.name_injective hname)
      simp only [Function.update_of_ne hkey, Function.update_of_ne hname, h.entry]
  only := by
    intro name hname
    simp only [Function.update_of_ne (hname key), h.only name hname]

/-- A registration that is written changes one text. -/
theorem text_pending (phone : String) (entry : Option (Expiring (Issued ι))) :
    ({ redis with pending := ⟨Function.update redis.pending.entry phone entry⟩ } :
      Redis ι).text floatText =
      Function.update (redis.text floatText) (.pending phone)
        (entry.map (textEntry (Issued.text floatText))) := by
  ext1 key
  cases key with
  | pending phone' =>
      by_cases hphone : phone' = phone
      · subst hphone
        simp [Redis.text]
      · simp [Redis.text, hphone]
  | attempts => simp [Redis.text]
  | lock => simp [Redis.text]

/-- So does a counter. -/
theorem text_attempts (phone : String) (entry : Option (Expiring Nat)) :
    ({ redis with attempts := ⟨Function.update redis.attempts.entry phone entry⟩ } :
      Redis ι).text floatText =
      Function.update (redis.text floatText) (.attempts phone)
        (entry.map (textEntry countText)) := by
  ext1 key
  cases key with
  | attempts phone' =>
      by_cases hphone : phone' = phone
      · subst hphone
        simp [Redis.text]
      · simp [Redis.text, hphone]
  | pending => simp [Redis.text]
  | lock => simp [Redis.text]

/-- So does the lock. -/
theorem text_lock (phone : String) (entry : Option (Expiring Unit)) :
    ({ redis with lock := ⟨Function.update redis.lock.entry phone entry⟩ } :
      Redis ι).text floatText =
      Function.update (redis.text floatText) (.lock phone)
        (entry.map (textEntry fun _ => "1")) := by
  ext1 key
  cases key with
  | lock phone' =>
      by_cases hphone : phone' = phone
      · subst hphone
        simp [Redis.text]
      · simp [Redis.text, hphone]
  | pending => simp [Redis.text]
  | attempts => simp [Redis.text]

end Writing

/-! ## Steps -/

section Simulation

variable {ι : Type} {floatText : PyFloat → List Char} {lower : String → String}
  {uuid5 : Uuid → String → Uuid} {request : ι → UserRequest} {n : Nat} {s : UserStore ι}
  {t : TextStore} {users : Table AuthUser}

/-- A bound on the counters may be raised. -/
theorem StoreMatches.mono (h : StoreMatches floatText n s t) {m : Nat} (hle : n ≤ m) :
    StoreMatches floatText m s t :=
  ⟨h.users, h.now, h.redis, fun phone => (h.counts phone).trans hle⟩

/-- Redis changes. -/
theorem StoreMatches.withRedis (h : StoreMatches floatText n s t) {texts : TextRedis}
    {redis : Redis ι} {log : List (UserEvent ι)} {m : Nat} (hredis : OnTexts floatText texts redis)
    (hcounts : ∀ phone, redis.attempts.count phone ≤ m) :
    StoreMatches floatText m { s with redis, log } { t with redis := texts } :=
  ⟨h.users, h.now, hredis, hcounts⟩

/-- The steps of a call over the typed stores and over texts: both are impossible, or both go to
the same place and leave the same behind. -/
def Lockstep (floatText : PyFloat → List Char) (n : Nat) :
    Option (UserStore ι × UserCall ι) → Option (TextStore × TextCall) → Prop :=
  Option.Rel fun typed texts =>
    StoreMatches floatText n typed.1 texts.1 ∧ texts.2 = typed.2.onTexts

/-- Two steps that match. -/
theorem Lockstep.both {s' : UserStore ι} {t' : TextStore} {call : UserCall ι} {call' : TextCall}
    (h : StoreMatches floatText n s' t') (hcall : call' = call.onTexts) :
    Lockstep floatText n (some (s', call)) (some (t', call')) :=
  .some ⟨h, hcall⟩

/-- A step over texts has one over the typed stores. -/
theorem Lockstep.typed {typed : Option (UserStore ι × UserCall ι)} {t' : TextStore}
    {call' : TextCall} (h : Lockstep floatText n typed (some (t', call'))) :
    ∃ s' call, typed = some (s', call) ∧ StoreMatches floatText n s' t' ∧
      call' = call.onTexts := by
  cases h with
  | some hboth => exact ⟨_, _, rfl, hboth⟩

/-- A step over the typed stores has one over texts. -/
theorem Lockstep.texts {texts : Option (TextStore × TextCall)} {s' : UserStore ι}
    {call : UserCall ι} (h : Lockstep floatText n (some (s', call)) texts) :
    ∃ t', texts = some (t', call.onTexts) ∧ StoreMatches floatText n s' t' := by
  cases h with
  | @some _ q hboth =>
      obtain ⟨t', call'⟩ := q
      obtain ⟨hstore, rfl⟩ := hboth
      exact ⟨t', rfl, hstore⟩

/-- One step of `register_user`: wherever the calls stand, they go on together. -/
theorem lockstep_registerUser (h : StoreMatches floatText n s t) (i : ι) (r : Registration)
    (phone : String) (call : UserCall ι) (move : UserMove) :
    Lockstep floatText (n + 1) (registerUser lower i r phone s call move)
      (registerText floatText lower r phone t call.onTexts move) := by
  have hsame : StoreMatches floatText (n + 1) s t := h.mono (Nat.le_succ n)
  cases call with
  | idle =>
      cases move with
      | fail => exact .both hsame rfl
      | proceed =>
          simp only [registerUser, UserCall.onTexts, registerText, h.users]
          cases getByEmail lower s.users (lower r.email) with
          | none => exact .both hsame rfl
          | some user => exact .both hsame rfl
  | checkPhone =>
      cases move with
      | fail => exact .both hsame rfl
      | proceed =>
          simp only [registerUser, UserCall.onTexts, registerText, h.users]
          cases getByPhone s.users phone with
          | none => exact .both hsame rfl
          | some user => exact .both hsame rfl
  | store =>
      cases move with
      | fail => exact .none
      | proceed =>
          apply Lockstep.both _ rfl
          apply hsame.withRedis
          · rw [h.now]
            exact h.redis.update (text_pending ..)
          · exact hsame.counts
  | clear =>
      cases move with
      | fail => exact .none
      | proceed =>
          apply Lockstep.both _ rfl
          apply hsame.withRedis
          · exact h.redis.update (text_attempts ..)
          · intro phone'
            rw [ExpiringStore.count_delete]
            split
            · exact Nat.zero_le _
            · exact hsame.counts phone'
  | send =>
      cases move with
      | fail => exact .both hsame rfl
      | proceed => exact .both hsame rfl
  | _ => exact .none

/-- The counter's answer is that of its number. -/
theorem wrongCount_eq (count : Nat) : wrongCount count = wrongCode count := by
  unfold wrongCount wrongCode
  simp only [Nat.cast_le]

/-- The members of the dictionary make the row. -/
theorem userOf_data (pending : PendingRegistration) (phone : String) :
    userOf uuid5 pending.data phone = some (pending.user uuid5 phone) := by
  obtain ⟨email, phone', passwordHash, username, otp⟩ := pending
  cases username with
  | none => rfl
  | some username => rfl

/-- The code of the dictionary is the registration's. -/
theorem isStr_otp (pending : PendingRegistration) (otp : String) :
    ((pending.data.lookup "otp").getD .null).isStr otp = decide (pending.otp = otp) :=
  rfl

/-- The lock is free for both or for neither. -/
theorem lockstep_acquireLock (h : StoreMatches floatText n s t) (i : ι) (v : Verification)
    (phone : String) (move : UserMove) :
    Lockstep floatText (n + 1) (verifyOtp uuid5 i v phone s .idle move)
      (verifyText uuid5 v phone t .idle move) := by
  have hsame : StoreMatches floatText (n + 1) s t := h.mono (Nat.le_succ n)
  cases move with
  | fail => exact .none
  | proceed =>
      have hentry := h.redis.entry (.lock phone)
      simp only [verifyOtp, verifyText, acquireLock, ExpiringStore.setNxEx, hentry, Redis.text]
      cases s.redis.lock.entry phone with
      | some entry => exact .both hsame rfl
      | none =>
          apply Lockstep.both _ rfl
          apply hsame.withRedis
          · rw [h.now]
            exact h.redis.update (text_lock ..)
          · exact hsame.counts

/-- Both read the same number of attempts. -/
theorem lockstep_attempts (h : StoreMatches floatText n s t) (hn : n < 2 ^ 63) (i : ι)
    (v : Verification) (phone : String) (move : UserMove) :
    Lockstep floatText (n + 1) (verifyOtp uuid5 i v phone s .attempts move)
      (verifyText uuid5 v phone t .attempts move) := by
  have hsame : StoreMatches floatText (n + 1) s t := h.mono (Nat.le_succ n)
  have hcount := h.counts phone
  cases move with
  | fail => exact .none
  | proceed =>
      have hsmall : s.redis.attempts.count phone < 2 ^ 63 := by omega
      have hattempts := getAttempts_eq h.redis hsmall
      simp only [verifyOtp, verifyText, hattempts, Nat.cast_le]
      split
      · exact .both hsame rfl
      · exact .both hsame rfl

/-- Both read the same registration and compare the same code. -/
theorem lockstep_pending (h : StoreMatches floatText n s t) (i : ι) (v : Verification)
    (phone : String) (move : UserMove) :
    Lockstep floatText (n + 1) (verifyOtp uuid5 i v phone s .pending move)
      (verifyText uuid5 v phone t .pending move) := by
  have hsame : StoreMatches floatText (n + 1) s t := h.mono (Nat.le_succ n)
  cases move with
  | fail => exact .none
  | proceed =>
      simp only [verifyOtp, verifyText, getOtp_eq h.redis]
      cases s.redis.pending.get phone with
      | none => exact .both hsame rfl
      | some issued =>
          simp only [Option.map_some, isStr_otp]
          by_cases hright : issued.registration.otp = v.otp
          · simp only [hright, ne_eq, not_true_eq_false, if_false, decide_true, if_true]
            exact .both ⟨h.users, h.now, h.redis, hsame.counts⟩ rfl
          · simp only [hright, ne_eq, not_false_eq_true, if_true, decide_false,
              Bool.false_eq_true, if_false]
            exact .both ⟨h.users, h.now, h.redis, hsame.counts⟩ rfl

/-- Both counters move by one, which is why the bound on them does. -/
theorem lockstep_incr (h : StoreMatches floatText n s t) (hn : n + 1 < 2 ^ 63) (issuer : ι) (i : ι)
    (v : Verification) (phone : String) (move : UserMove) :
    Lockstep floatText (n + 1) (verifyOtp uuid5 i v phone s (.incr issuer) move)
      (verifyText uuid5 v phone t .incr move) := by
  have hsame : StoreMatches floatText (n + 1) s t := h.mono (Nat.le_succ n)
  have hcount := h.counts phone
  cases move with
  | fail => exact .none
  | proceed =>
      have hsmall : s.redis.attempts.count phone + 1 < 2 ^ 63 := by omega
      have hincr := incr_eq h.redis hsmall
      simp only [verifyOtp, verifyText, hincr]
      apply Lockstep.both
      · apply hsame.withRedis
        · exact h.redis.update (text_attempts ..)
        · intro phone'
          rw [ExpiringStore.count_incr]
          split
          · omega
          · exact hsame.counts phone'
      · have hcast : (s.redis.attempts.count phone : Int) + 1 =
            (s.redis.attempts.count phone + 1 : Nat) := rfl
        rw [hcast, wrongCount_eq]
        by_cases hfirst : s.redis.attempts.count phone + 1 = 1
        · simp only [hfirst, Nat.cast_one, if_true]
          rfl
        · have hmore : ((s.redis.attempts.count phone + 1 : Nat) : Int) ≠ 1 := by omega
          simp only [hfirst, hmore, if_false]
          rfl

/-- Both counters get the same deadline. -/
theorem lockstep_expire (h : StoreMatches floatText n s t) (count : Nat) (i : ι) (v : Verification)
    (phone : String) (move : UserMove) :
    Lockstep floatText (n + 1) (verifyOtp uuid5 i v phone s (.expire count) move)
      (verifyText uuid5 v phone t (.expire count) move) := by
  have hsame : StoreMatches floatText (n + 1) s t := h.mono (Nat.le_succ n)
  cases move with
  | fail => exact .none
  | proceed =>
      simp only [verifyOtp, verifyText, wrongCount_eq]
      apply Lockstep.both _ rfl
      apply hsame.withRedis
      · have hentry : (t.redis.entry (RedisKey.attempts phone).name).map
            (fun entry => { entry with deadline := some (s.now + pendingTtl) }) =
            ((s.redis.attempts.entry phone).map fun entry =>
              { entry with deadline := some (s.now + pendingTtl) }).map
                (textEntry countText) := by
          rw [h.redis.entry (.attempts phone), Redis.text]
          cases s.redis.attempts.entry phone <;> rfl
        rw [h.now, ExpiringStore.expire, hentry]
        exact h.redis.update (text_attempts ..)
      · intro phone'
        rw [ExpiringStore.count_expire]
        exact hsame.counts phone'

/-- Both make the row from the members of the dictionary. -/
theorem lockstep_create (h : StoreMatches floatText n s t) (issued : Issued ι) (i : ι)
    (v : Verification) (phone : String) (move : UserMove) :
    Lockstep floatText (n + 1) (verifyOtp uuid5 i v phone s (.create issued) move)
      (verifyText uuid5 v phone t (.create issued.registration.data) move) := by
  have hsame : StoreMatches floatText (n + 1) s t := h.mono (Nat.le_succ n)
  cases move with
  | fail => exact .both hsame rfl
  | proceed =>
      simp only [verifyOtp, verifyText, userOf_data, h.users]
      cases createUser s.users (issued.registration.user uuid5 phone) with
      | error e => exact .both hsame rfl
      | ok users => exact .both ⟨rfl, h.now, h.redis, hsame.counts⟩ rfl

/-- Both delete the registration and its counter. -/
theorem lockstep_clean (h : StoreMatches floatText n s t) (user : AuthUser) (i : ι)
    (v : Verification) (phone : String) (move : UserMove) :
    Lockstep floatText (n + 1) (verifyOtp uuid5 i v phone s (.clean user) move)
      (verifyText uuid5 v phone t (.clean user) move) := by
  have hsame : StoreMatches floatText (n + 1) s t := h.mono (Nat.le_succ n)
  cases move with
  | fail => exact .none
  | proceed =>
      apply Lockstep.both _ rfl
      apply hsame.withRedis
      · have hpending := h.redis.update (@text_pending ι floatText s.redis phone none)
        exact hpending.update (@text_attempts ι floatText
          { s.redis with pending := s.redis.pending.delete phone } phone none)
      · intro phone'
        rw [ExpiringStore.count_delete]
        split
        · exact Nat.zero_le _
        · exact hsame.counts phone'

/-- Both give the lock back. -/
theorem lockstep_releaseLock (h : StoreMatches floatText n s t) (outcome : UserOutcome) (i : ι)
    (v : Verification) (phone : String) (move : UserMove) :
    Lockstep floatText (n + 1) (verifyOtp uuid5 i v phone s (.release outcome) move)
      (verifyText uuid5 v phone t (.release outcome) move) := by
  have hsame : StoreMatches floatText (n + 1) s t := h.mono (Nat.le_succ n)
  cases move with
  | fail => exact .none
  | proceed =>
      apply Lockstep.both _ rfl
      apply hsame.withRedis
      · exact h.redis.update (text_lock ..)
      · exact hsame.counts

/-- One step of `verify_otp`: wherever the calls stand, they go on together. -/
theorem lockstep_verifyOtp (h : StoreMatches floatText n s t) (hn : n + 1 < 2 ^ 63) (i : ι)
    (v : Verification) (phone : String) (call : UserCall ι) (move : UserMove) :
    Lockstep floatText (n + 1) (verifyOtp uuid5 i v phone s call move)
      (verifyText uuid5 v phone t call.onTexts move) := by
  have hsame : StoreMatches floatText (n + 1) s t := h.mono (Nat.le_succ n)
  cases call with
  | idle => exact lockstep_acquireLock h i v phone move
  | attempts => exact lockstep_attempts h (by omega) i v phone move
  | pending => exact lockstep_pending h i v phone move
  | incr issuer => exact lockstep_incr h hn issuer i v phone move
  | expire count => exact lockstep_expire h count i v phone move
  | create issued => exact lockstep_create h issued i v phone move
  | refresh user =>
      cases move with
      | fail => exact .both hsame rfl
      | proceed => exact .both hsame rfl
  | clean user => exact lockstep_clean h user i v phone move
  | release outcome => exact lockstep_releaseLock h outcome i v phone move
  | _ => exact .none

/-- One step of a call over texts is one step over the typed stores. -/
theorem lockstep_advance (h : StoreMatches floatText n s t) (hn : n + 1 < 2 ^ 63) (i : ι)
    (call : UserCall ι) (move : UserMove) :
    Lockstep floatText (n + 1) (advanceUser lower uuid5 request i s call move)
      (advanceText floatText lower uuid5 request i t call.onTexts move) := by
  unfold advanceUser advanceText
  cases (request i).phone? with
  | some phone =>
      cases request i with
      | register r => exact lockstep_registerUser h i r phone call move
      | verify v => exact lockstep_verifyOtp h hn i v phone call move
  | none =>
      cases call with
      | idle => exact .both (h.mono (Nat.le_succ n)) rfl
      | _ => exact .none

/-- A key of the typed stores disappears. -/
theorem StoreMatches.vanish (h : StoreMatches floatText n s t) (key : RedisKey) :
    StoreMatches floatText n (s.withRedis (s.redis.vanish key))
      { t with redis := t.redis.delete key.name } := by
  apply h.withRedis
  · cases key with
    | pending phone => exact h.redis.update (text_pending ..)
    | attempts phone => exact h.redis.update (text_attempts ..)
    | lock phone => exact h.redis.update (text_lock ..)
  · intro phone
    cases key with
    | attempts phone' =>
        rw [Redis.vanish, ExpiringStore.count_delete]
        split
        · exact Nat.zero_le n
        · exact h.counts phone
    | pending => exact h.counts phone
    | lock => exact h.counts phone

/-- No other key is there to disappear. -/
theorem delete_other {texts : TextRedis} {redis : Redis ι} (h : OnTexts floatText texts redis)
    {name : String} (hname : ∀ key : RedisKey, name ≠ key.name) : texts.delete name = texts := by
  unfold ExpiringStore.delete
  rw [← h.only name hname, Function.update_eq_self]

end Simulation

/-! ## Runs -/

section Runs

variable {ι : Type} [DecidableEq ι] {floatText : PyFloat → List Char} {lower : String → String}
  {uuid5 : Uuid → String → Uuid} {request : ι → UserRequest} {n : Nat} {s s' : UserState ι}
  {t t' : TextState ι} {users : Table AuthUser}

/-- The same step over texts. -/
def UserLabel.onTexts : UserLabel ι → TextLabel ι
  | .call i move => .call i move
  | .vanish key => .vanish key.name
  | .tick seconds => .tick seconds

omit [DecidableEq ι] in
/-- A bound on the counters may be raised. -/
theorem Matches.mono (h : Matches floatText n s t) {m : Nat} (hle : n ≤ m) :
    Matches floatText m s t :=
  ⟨h.shared.mono hle, h.calls⟩

/-- Calls that stand at the same places do so after one of them has moved. -/
theorem Matches.move (h : Matches floatText n s t) {shared : UserStore ι} {shared' : TextStore}
    (hshared : StoreMatches floatText (n + 1) shared shared') (i : ι) (call : UserCall ι) :
    Matches floatText (n + 1) ⟨shared, Function.update s.calls i call⟩
      ⟨shared', Function.update t.calls i call.onTexts⟩ where
  shared := hshared
  calls := by
    intro j
    by_cases hj : j = i
    · subst hj
      simp
    · simp [Function.update_of_ne hj, h.calls j]

/-- What a step over texts does, the typed stores can do. -/
theorem matches_step (h : Matches floatText n s t) (hn : n + 1 < 2 ^ 63) {label : TextLabel ι}
    (hstep : textStep floatText lower uuid5 request t label = some t') :
    ∃ s', Reachable (userStep lower uuid5 request) s s' ∧ Matches floatText (n + 1) s' t' := by
  cases label with
  | call i move =>
      obtain ⟨shared', call', hadvance, rfl⟩ := interleave_eq_some_iff.mp hstep
      have hlock : Lockstep floatText (n + 1)
          (advanceUser lower uuid5 request i s.shared (s.calls i) move)
          (advanceText floatText lower uuid5 request i t.shared (s.calls i).onTexts move) :=
        lockstep_advance h.shared hn i (s.calls i) move
      rw [← h.calls i, hadvance] at hlock
      obtain ⟨shared, call, hadvance', hshared, rfl⟩ := hlock.typed
      have hnext : userStep lower uuid5 request s (.call i move) =
          some ⟨shared, Function.update s.calls i call⟩ :=
        interleave_eq_some_iff.mpr ⟨shared, call, hadvance', rfl⟩
      exact ⟨_, Reaches.refl.tail trivial hnext, h.move hshared i call⟩
  | vanish name =>
      obtain rfl := Option.some.inj hstep
      by_cases hkey : ∃ key : RedisKey, name = key.name
      · obtain ⟨key, rfl⟩ := hkey
        have hnext : userStep lower uuid5 request s (.vanish key) =
            some { s with shared := s.shared.withRedis (s.shared.redis.vanish key) } := rfl
        exact ⟨_, Reaches.refl.tail trivial hnext, (h.shared.vanish key).mono (Nat.le_succ n),
          h.calls⟩
      · have hnone : t.shared.redis.delete name = t.shared.redis :=
          delete_other h.shared.redis (not_exists.mp hkey)
        rw [hnone]
        exact ⟨s, .refl, h.shared.mono (Nat.le_succ n), h.calls⟩
  | tick seconds =>
      obtain rfl := Option.some.inj hstep
      have hnext : userStep lower uuid5 request s (.tick seconds) =
          some { s with shared := { s.shared with now := s.shared.now + seconds } } := rfl
      have hsame := h.shared.mono (Nat.le_succ n)
      refine ⟨_, Reaches.refl.tail trivial hnext, ⟨hsame.users, ?_, hsame.redis, hsame.counts⟩,
        h.calls⟩
      rw [h.shared.now]

/-- What a step over the typed stores does, the same step over texts does. -/
theorem matches_onTexts (h : Matches floatText n s t) (hn : n + 1 < 2 ^ 63) {label : UserLabel ι}
    (hstep : userStep lower uuid5 request s label = some s') :
    ∃ t', textStep floatText lower uuid5 request t label.onTexts = some t' ∧
      Matches floatText (n + 1) s' t' := by
  cases label with
  | call i move =>
      obtain ⟨shared, call, hadvance, rfl⟩ := interleave_eq_some_iff.mp hstep
      have hlock : Lockstep floatText (n + 1)
          (advanceUser lower uuid5 request i s.shared (s.calls i) move)
          (advanceText floatText lower uuid5 request i t.shared (s.calls i).onTexts move) :=
        lockstep_advance h.shared hn i (s.calls i) move
      rw [hadvance] at hlock
      obtain ⟨shared', hadvance', hshared⟩ := hlock.texts
      rw [← h.calls i] at hadvance'
      exact ⟨_, interleave_eq_some_iff.mpr ⟨shared', _, hadvance', rfl⟩, h.move hshared i call⟩
  | vanish key =>
      obtain rfl := Option.some.inj hstep
      exact ⟨_, rfl, (h.shared.vanish key).mono (Nat.le_succ n), h.calls⟩
  | tick seconds =>
      obtain rfl := Option.some.inj hstep
      have hsame := h.shared.mono (Nat.le_succ n)
      refine ⟨_, rfl, ⟨hsame.users, ?_, hsame.redis, hsame.counts⟩, h.calls⟩
      rw [h.shared.now]

omit [DecidableEq ι] in
/-- Empty stores match. -/
theorem matches_start (users : Table AuthUser) :
    Matches floatText 0 (.start ι users) (.start ι users) where
  shared :=
    { users := rfl
      now := rfl
      redis :=
        { entry := by
            intro key
            cases key <;> rfl
          only := fun _ _ => rfl }
      counts := fun _ => Nat.le_refl 0 }
  calls := fun _ => rfl

/-- What a run over texts does, the typed stores can do. -/
theorem matches_run (h : Matches floatText n s t) {labels : List (TextLabel ι)}
    (hlength : n + labels.length < 2 ^ 63)
    (hexec : labels.foldlM (textStep floatText lower uuid5 request) t = some t') :
    ∃ s', Reachable (userStep lower uuid5 request) s s' ∧
      Matches floatText (n + labels.length) s' t' := by
  induction labels generalizing n s t with
  | nil =>
      obtain rfl := Option.some.inj hexec
      exact ⟨s, .refl, h⟩
  | cons label labels ih =>
      rw [List.foldlM_cons] at hexec
      obtain ⟨mid, hmid, hrest⟩ := Option.bind_eq_some_iff.mp hexec
      rw [List.length_cons] at hlength ⊢
      obtain ⟨s₁, hreach, hmatch⟩ := matches_step h (by omega) hmid
      obtain ⟨s₂, hreach', hmatch'⟩ := ih hmatch (by omega) hrest
      exact ⟨s₂, hreach.trans hreach', hmatch'.mono (by omega)⟩

/-- What a run over the typed stores does, the same run over texts does. -/
theorem matches_run_onTexts (h : Matches floatText n s t) {labels : List (UserLabel ι)}
    (hlength : n + labels.length < 2 ^ 63)
    (hexec : labels.foldlM (userStep lower uuid5 request) s = some s') :
    ∃ t', (labels.map UserLabel.onTexts).foldlM (textStep floatText lower uuid5 request) t =
        some t' ∧
      Matches floatText (n + labels.length) s' t' := by
  induction labels generalizing n s t with
  | nil =>
      obtain rfl := Option.some.inj hexec
      exact ⟨t, rfl, h⟩
  | cons label labels ih =>
      rw [List.foldlM_cons] at hexec
      obtain ⟨mid, hmid, hrest⟩ := Option.bind_eq_some_iff.mp hexec
      rw [List.length_cons] at hlength ⊢
      obtain ⟨t₁, hnext, hmatch⟩ := matches_onTexts h (by omega) hmid
      obtain ⟨t₂, hnexts, hmatch'⟩ := ih hmatch (by omega) hrest
      refine ⟨t₂, ?_, hmatch'.mono (by omega)⟩
      rw [List.map_cons, List.foldlM_cons, hnext]
      exact hnexts

/-- As long as no counter can overflow, the runs over texts are the runs over the typed stores:
the same rows, the same texts under the keys, and every call at the same place with the same
answer. -/
theorem same_runs (floatText : PyFloat → List Char) (lower : String → String)
    (uuid5 : Uuid → String → Uuid) (request : ι → UserRequest) (users : Table AuthUser) :
    (∀ (labels : List (TextLabel ι)) t, labels.length < 2 ^ 63 →
      labels.foldlM (textStep floatText lower uuid5 request) (.start ι users) = some t →
      ∃ s, Reachable (userStep lower uuid5 request) (.start ι users) s ∧
        Matches floatText labels.length s t) ∧
    ∀ (labels : List (UserLabel ι)) s, labels.length < 2 ^ 63 →
      labels.foldlM (userStep lower uuid5 request) (.start ι users) = some s →
      ∃ t, (labels.map UserLabel.onTexts).foldlM (textStep floatText lower uuid5 request)
          (.start ι users) = some t ∧
        Matches floatText labels.length s t := by
  constructor
  · intro labels t hlength hexec
    have hrun := matches_run (matches_start users) (by omega) hexec
    rw [Nat.zero_add] at hrun
    exact hrun
  · intro labels s hlength hexec
    have hstart : Matches floatText 0 (.start ι users) (.start ι users) := matches_start users
    have hrun := matches_run_onTexts hstart (by omega) hexec
    rw [Nat.zero_add] at hrun
    exact hrun

end Runs

/-! ## A registration over texts -/

/-- The customer registers and sends the code back, over texts. -/
theorem same_runs_sample :
    ∃ t, (customerLabels.map UserLabel.onTexts).foldlM
        (textStep (fun _ => []) id (fun _ _ => 7) customerCalls) (.start (Fin 2) .empty) = some t ∧
      t.shared.users.rows.map AuthUser.email = ["a@b.ke"] := by
  have hexec : (customerLabels.foldlM (userStep id (fun _ _ => 7) customerCalls)
      (.start (Fin 2) .empty)).map
        (fun s => s.shared.users.rows.map AuthUser.email) = some ["a@b.ke"] := by
    decide +kernel
  obtain ⟨s, hs, hrows⟩ := Option.map_eq_some_iff.mp hexec
  have hlength : customerLabels.length < 2 ^ 63 := by decide
  obtain ⟨t, ht, hmatch⟩ := (same_runs (fun _ => []) id (fun _ _ => 7) customerCalls
    .empty).2 customerLabels s hlength hs
  refine ⟨t, ht, ?_⟩
  rw [hmatch.shared.users]
  exact hrows

end Ingress
end BettingPlatform
