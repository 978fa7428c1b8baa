import BettingPlatform.Ingress.VerifiedAccounts

/-!
# Guessing a code

A wrong code is counted by the call that submitted it, under the verification lock, and no
code is compared once the counter has reached `_MAX_OTP_ATTEMPTS`.  The count is lost where
the lock lapses under its holder, where the counter disappears before the registration it
counts for, and where `register_user` clears the counter only after codes have been compared
with what it has just stored: storing and clearing are two commands, outside the lock.

Main results:

- Theorem `counted_step`: a careful step keeps the count of the wrong codes.
- Theorem `otp_guesses_bounded`: so in careful runs no registration has more wrong codes
  compared with it than the counter allows.
- Theorem `guesses_behind_the_counter`: a sixth wrong code is compared in a run without any
  expiry.
-/

namespace BettingPlatform
namespace Ingress

open Runs

variable {ι : Type} [DecidableEq ι]

/-! ## Wrong codes -/

section Guesses

variable (request : ι → UserRequest)

/-- The code that a `register_user` call issues. -/
def UserRequest.otp? : UserRequest → Option String
  | .register r => some r.otp
  | .verify _ => none

/-- A wrong code was compared with the one that the call `i` issued. -/
def UserEvent.isWrong (i : ι) : UserEvent ι → Bool
  | .compared issuer code => issuer = i && (request i).otp? ≠ some code
  | _ => false

/-- The number of wrong codes that were compared with the one the call `i` issued. -/
def wrongCodes (log : List (UserEvent ι)) (i : ι) : Nat :=
  log.countP (UserEvent.isWrong request i)

/-- A key disappears only after its deadline. -/
def TtlElapsed (s : UserState ι) : UserLabel ι → Prop
  | .vanish key => s.shared.redis.Elapsed s.shared.now key
  | _ => True

/-- A call for the phone number holds the verification lock, unless that has lapsed. -/
def Holds (s : UserState ι) (i : ι) (phone : String) : Prop :=
  (request i).phone? = some phone ∧ (s.calls i).inSection

/-- The lock does not lapse under its holder, the counter does not disappear before the
pending registration, and no code is compared while a `register_user` call for the same phone
number stands between storing its registration and clearing the counter. -/
def Careful (s : UserState ι) : UserLabel ι → Prop
  | .vanish (.lock phone) => ∀ i, ¬ Holds request s i phone
  | .vanish (.attempts phone) => s.shared.redis.pending.get phone = none
  | .call i _ => s.calls i = .pending → ∀ j, (request j).phone? = (request i).phone? →
      s.calls j ≠ .clear
  | _ => True

/-! ## The invariant -/

/-- What the lock is for: one call at a time is between taking and deleting it. -/
structure Locked (s : UserState ι) : Prop where
  taken : ∀ {i phone}, Holds request s i phone → s.shared.redis.lock.get phone ≠ none
  unique : ∀ {i j phone}, Holds request s i phone → Holds request s j phone → i = j

/-- How the wrong codes are counted. -/
structure Counted (s : UserState ι) : Prop where
  /-- A call that has not stored its registration has had no code compared with it. -/
  unstored : ∀ {i}, (s.calls i).beforeStore → .stored i ∉ s.shared.log
  stored : ∀ {i code}, .compared i code ∈ s.shared.log → .stored i ∈ s.shared.log
  /-- The counter has room for a code that is about to be compared or counted. -/
  room : ∀ {i phone}, (request i).phone? = some phone →
    (s.calls i = .pending ∨ ∃ issuer, s.calls i = .incr issuer) →
    s.shared.redis.attempts.count phone < maxOtpAttempts
  /-- No code has been compared with what is pending when the counter is cleared. -/
  clear : ∀ {i phone issued}, (request i).phone? = some phone → s.calls i = .clear →
    s.shared.redis.pending.get phone = some issued →
    wrongCodes request s.shared.log issued.issuer = 0
  /-- The wrong codes of a pending registration are counted, or about to be counted. -/
  counted : ∀ {phone issued}, s.shared.redis.pending.get phone = some issued →
    wrongCodes request s.shared.log issued.issuer ≤ s.shared.redis.attempts.count phone ∨
      (wrongCodes request s.shared.log issued.issuer ≤ s.shared.redis.attempts.count phone + 1 ∧
        ∃ i, (request i).phone? = some phone ∧ s.calls i = .incr issued.issuer)
  bound : ∀ i, wrongCodes request s.shared.log i ≤ maxOtpAttempts

end Guesses

section Step

variable {lower : String → String} {uuid5 : Uuid → String → Uuid} {request : ι → UserRequest}
  {users : Table AuthUser} {s t : UserState ι} {i : ι} {phone : String} {shared : UserStore ι}
  {call' : UserCall ι}

/-- Who holds the lock after a call has moved on. -/
theorem holds_update_iff {j : ι} {phone' : String} :
    Holds request { shared := shared, calls := Function.update s.calls i call' } j phone' ↔
      (request j).phone? = some phone' ∧
        (if j = i then call' else s.calls j).inSection := by
  simp only [Holds, Function.update_apply]

/-! ## The lock -/

/-- A step that neither takes nor deletes the lock. -/
theorem Locked.keep (h : Locked request s)
    (hlock : ∀ phone, shared.redis.lock.get phone = s.shared.redis.lock.get phone)
    (hsection : call'.inSection = (s.calls i).inSection) :
    Locked request { shared := shared, calls := Function.update s.calls i call' } := by
  have hsame : ∀ j phone',
      Holds request { shared := shared, calls := Function.update s.calls i call' } j phone' →
      Holds request s j phone' := by
    intro j phone' hholds
    obtain ⟨hphone, hin⟩ := holds_update_iff.mp hholds
    refine ⟨hphone, ?_⟩
    split at hin
    · rename_i hj
      rw [hj, ← hsection]
      exact hin
    · exact hin
  constructor
  · intro j phone' hholds
    rw [hlock]
    exact h.taken (hsame j phone' hholds)
  · intro j k phone' hj hk
    exact h.unique (hsame j phone' hj) (hsame k phone' hk)

/-- A call that finds the lock free takes it. -/
theorem Locked.acquire (h : Locked request s) (hphone : (request i).phone? = some phone)
    (hfree : s.shared.redis.lock.get phone = none)
    (hlock : ∀ phone', shared.redis.lock.get phone' =
      if phone' = phone then some () else s.shared.redis.lock.get phone') :
    Locked request { shared := shared, calls := Function.update s.calls i call' } := by
  -- nobody else holds the lock of this phone number
  have howner : ∀ j phone',
      Holds request { shared := shared, calls := Function.update s.calls i call' } j phone' →
      (j = i ∧ phone' = phone) ∨ (phone' ≠ phone ∧ Holds request s j phone') := by
    intro j phone' hholds
    obtain ⟨hphone', hin⟩ := holds_update_iff.mp hholds
    by_cases hj : j = i
    · subst hj
      exact .inl ⟨rfl, Option.some.inj (hphone'.symm.trans hphone)⟩
    · rw [if_neg hj] at hin
      refine .inr ⟨?_, hphone', hin⟩
      rintro rfl
      exact h.taken ⟨hphone', hin⟩ hfree
  constructor
  · intro j phone' hholds
    rw [hlock]
    rcases howner j phone' hholds with ⟨-, rfl⟩ | ⟨hne, hold⟩
    · simp
    · rw [if_neg hne]
      exact h.taken hold
  · intro j k phone' hj hk
    rcases howner j phone' hj with ⟨rfl, rfl⟩ | ⟨hne, hold⟩
    · rcases howner k phone' hk with ⟨rfl, -⟩ | ⟨hne, -⟩
      · rfl
      · exact absurd rfl hne
    · rcases howner k phone' hk with ⟨-, rfl⟩ | ⟨-, hold'⟩
      · exact absurd rfl hne
      · exact h.unique hold hold'

/-- A call that deletes the lock has held it. -/
theorem Locked.release (h : Locked request s) (hphone : (request i).phone? = some phone)
    (hin : (s.calls i).inSection) (hout : call'.inSection = false)
    (hlock : ∀ phone', shared.redis.lock.get phone' =
      if phone' = phone then none else s.shared.redis.lock.get phone') :
    Locked request { shared := shared, calls := Function.update s.calls i call' } := by
  have howner : ∀ j phone',
      Holds request { shared := shared, calls := Function.update s.calls i call' } j phone' →
      phone' ≠ phone ∧ Holds request s j phone' := by
    intro j phone' hholds
    obtain ⟨hphone', hin'⟩ := holds_update_iff.mp hholds
    by_cases hj : j = i
    · rw [if_pos hj, hout] at hin'
      contradiction
    · rw [if_neg hj] at hin'
      refine ⟨?_, hphone', hin'⟩
      rintro rfl
      exact hj (h.unique ⟨hphone', hin'⟩ ⟨hphone, hin⟩)
  constructor
  · intro j phone' hholds
    obtain ⟨hne, hold⟩ := howner j phone' hholds
    rw [hlock, if_neg hne]
    exact h.taken hold
  · intro j k phone' hj hk
    exact h.unique (howner j phone' hj).2 (howner k phone' hk).2

/-- A step keeps at most one call behind each lock. -/
theorem locked_advanced (h : Locked request s) (hphone : (request i).phone? = some phone)
    (hadvanced : Advanced lower uuid5 request i phone s.shared (s.calls i) shared call') :
    Locked request { shared := shared, calls := Function.update s.calls i call' } := by
  generalize hcall : s.calls i = call at hadvanced
  cases hadvanced with
  | moved hmoves => exact h.keep (fun _ => rfl) (hcall ▸ hmoves.inSection)
  | stored => exact h.keep (fun _ => rfl) (by rw [hcall]; rfl)
  | cleared => exact h.keep (fun _ => rfl) (by rw [hcall]; rfl)
  | acquired hfree => exact h.acquire hphone hfree fun _ => ExpiringStore.get_setEx ..
  | allowed => exact h.keep (fun _ => rfl) (by rw [hcall]; rfl)
  | right => exact h.keep (fun _ => rfl) (by rw [hcall]; rfl)
  | wrong => exact h.keep (fun _ => rfl) (by rw [hcall]; rfl)
  | counted hnext =>
      refine h.keep (fun _ => rfl) ?_
      rcases hnext with rfl | ⟨outcome, rfl⟩
      · rw [hcall]
        rfl
      · rw [hcall]
        rfl
  | timed => exact h.keep (fun _ => rfl) (by rw [hcall]; rfl)
  | created => exact h.keep (fun _ => rfl) (by rw [hcall]; rfl)
  | cleaned => exact h.keep (fun _ => rfl) (by rw [hcall]; rfl)
  | released =>
      exact h.release hphone (by rw [hcall]; rfl) rfl fun _ => ExpiringStore.get_delete ..

/-- A careful step keeps the lock. -/
theorem locked_step {label : UserLabel ι} (h : Locked request s)
    (hcareful : Careful request s label)
    (hstep : userStep lower uuid5 request s label = some t) : Locked request t := by
  rcases userStep_eq_some hstep with ⟨i, move, phone, shared, call', -, hphone, hadvanced, rfl⟩ |
    ⟨i, move, call', -, hmoves, rfl⟩ | ⟨key, rfl, rfl⟩ | ⟨seconds, -, rfl⟩
  · exact locked_advanced h hphone hadvanced
  · exact h.keep (fun _ => rfl) hmoves.inSection
  · refine ⟨?_, h.unique⟩
    intro i phone hholds
    cases key with
    | pending phone' => exact h.taken hholds
    | attempts phone' => exact h.taken hholds
    | lock phone' =>
        simp only [UserStore.withRedis, Redis.vanish, ExpiringStore.get_delete]
        split
        · rename_i hsame
          exact absurd (hsame ▸ hholds) (hcareful i)
        · exact h.taken hholds
  · exact ⟨h.taken, h.unique⟩

/-! ## The count -/

/-- The wrong codes grow with the events that are one. -/
theorem wrongCodes_concat (log : List (UserEvent ι)) (event : UserEvent ι) (j : ι) :
    wrongCodes request (log ++ [event]) j =
      wrongCodes request log j + if event.isWrong request j then 1 else 0 := by
  rw [wrongCodes, wrongCodes, List.countP_append, List.countP_singleton]

/-- A call that has stored nothing has had no code compared with it. -/
theorem Counted.wrongCodes_eq_zero (h : Counted request s) (hi : (s.calls i).beforeStore) :
    wrongCodes request s.shared.log i = 0 := by
  refine List.countP_eq_zero.mpr fun event hevent hwrong => ?_
  cases event with
  | stored => contradiction
  | compared issuer code =>
      obtain rfl : issuer = i := by
        simp only [UserEvent.isWrong, Bool.and_eq_true, decide_eq_true_eq] at hwrong
        exact hwrong.1
      exact h.unstored hi (h.stored hevent)
  | created => contradiction

/-- The calls that are about to count a code stay so while another call moves. -/
theorem update_incr (hcall : ∀ issuer, s.calls i ≠ .incr issuer) {j issuer : ι}
    (hj : s.calls j = .incr issuer) : Function.update s.calls i call' j = .incr issuer := by
  have hji : j ≠ i := by
    rintro rfl
    exact hcall issuer hj
  rw [Function.update_of_ne hji, hj]

/-- A step that compares no wrong code, and neither stores a registration nor writes the
counter. -/
theorem Counted.keep (h : Counted request s)
    (hwrong : ∀ j, wrongCodes request shared.log j = wrongCodes request s.shared.log j)
    (hstored : ∀ j, .stored j ∈ shared.log ↔ .stored j ∈ s.shared.log)
    (hcompared : ∀ j code, .compared j code ∈ shared.log → .stored j ∈ s.shared.log)
    (hpending : ∀ phone, shared.redis.pending.get phone = s.shared.redis.pending.get phone)
    (hcount : ∀ phone, shared.redis.attempts.count phone = s.shared.redis.attempts.count phone)
    (hbefore : call'.beforeStore → (s.calls i).beforeStore)
    (hroom : ∀ phone, (request i).phone? = some phone → call' = .pending →
      s.shared.redis.attempts.count phone < maxOtpAttempts)
    (hclear : call' ≠ .clear) (hincr : ∀ issuer, s.calls i ≠ .incr issuer)
    (hincr' : ∀ issuer, call' ≠ .incr issuer) :
    Counted request { shared := shared, calls := Function.update s.calls i call' } where
  unstored := by
    intro j hj
    rw [hstored]
    by_cases hji : j = i
    · subst hji
      exact h.unstored (hbefore (by simpa using hj))
    · exact h.unstored (by simpa [hji] using hj)
  stored := by
    intro j code hlog
    exact (hstored j).mpr (hcompared j code hlog)
  room := by
    intro j phone hphone hj
    rw [hcount]
    by_cases hji : j = i
    · subst hji
      simp only [Function.update_self] at hj
      rcases hj with hj | ⟨issuer, hj⟩
      · exact hroom phone hphone hj
      · exact absurd hj (hincr' issuer)
    · exact h.room hphone (by simpa [hji] using hj)
  clear := by
    intro j phone issued hphone hj hget
    rw [hpending] at hget
    rw [hwrong]
    by_cases hji : j = i
    · subst hji
      exact absurd (by simpa using hj) hclear
    · exact h.clear hphone (by simpa [hji] using hj) hget
  counted := by
    intro phone issued hget
    rw [hpending] at hget
    rw [hwrong, hcount]
    refine (h.counted hget).imp_right ?_
    rintro ⟨hle, j, hphone, hj⟩
    exact ⟨hle, j, hphone, update_incr hincr hj⟩
  bound := by
    intro j
    rw [hwrong]
    exact h.bound j

omit [DecidableEq ι] in
/-- The pending registrations of two phone numbers come from two calls. -/
theorem Provenance.phone_eq (hs : Provenance lower uuid5 request users s) {phone' : String}
    {issued issued' : Issued ι} (hget : s.shared.redis.pending.get phone = some issued)
    (hget' : s.shared.redis.pending.get phone' = some issued') (hsame : issued'.issuer = issued.issuer) :
    phone' = phone := by
  obtain ⟨-, r, hr, hphone, -⟩ := hs.pending hget
  obtain ⟨-, r', hr', hphone', -⟩ := hs.pending hget'
  obtain rfl : r = r' := UserRequest.register.inj (hr.symm.trans (hsame ▸ hr'))
  exact Option.some.inj (hphone'.symm.trans hphone)

omit [DecidableEq ι] in
/-- The code in a pending registration is the one its call has issued. -/
theorem Provenance.otp_eq (hs : Provenance lower uuid5 request users s) {issued : Issued ι}
    (hget : s.shared.redis.pending.get phone = some issued) :
    (request issued.issuer).otp? = some issued.registration.otp := by
  obtain ⟨-, r, hr, -, hregistration⟩ := hs.pending hget
  rw [hr, hregistration]
  rfl

/-- A registration is stored: nothing has been compared with it. -/
theorem Counted.storedStep (h : Counted request s) {r : Registration}
    (hphone : (request i).phone? = some phone) (hcall : s.calls i = .store) :
    Counted request
      { shared := { s.shared with
          redis := { s.shared.redis with
            pending := s.shared.redis.pending.setEx s.shared.now pendingTtl phone
              ⟨i, r.pending lower phone⟩ }
          log := s.shared.log ++ [.stored i] }
        calls := Function.update s.calls i .clear } := by
  have hbefore : (s.calls i).beforeStore := by rw [hcall]; rfl
  have hzero := h.wrongCodes_eq_zero hbefore
  have hwrong : ∀ j, wrongCodes request (s.shared.log ++ [.stored i]) j =
      wrongCodes request s.shared.log j := by
    intro j
    rw [wrongCodes_concat]
    rfl
  refine ⟨?_, ?_, ?_, ?_, ?_, ?_⟩
  · intro j hj
    obtain ⟨hji, hbefore⟩ := before_update (P := fun call : UserCall ι => call.beforeStore)
      (by simp [UserCall.beforeStore]) hj
    have hold := h.unstored hbefore
    simpa [hji] using hold
  · intro j code hlog
    have hold := @h.stored j code (by simpa using hlog)
    exact List.mem_append_left _ hold
  · intro j phone' hphone hj
    exact h.room hphone (before_update
      (P := fun call : UserCall ι => call = .pending ∨ ∃ issuer, call = .incr issuer)
      (by simp) hj).2
  · intro j phone' issued hphone' hj hget
    simp only [ExpiringStore.get_setEx] at hget
    simp only [hwrong]
    split at hget
    · obtain rfl := Option.some.inj hget
      exact hzero
    · rename_i hne
      have hji : j ≠ i := by
        rintro rfl
        exact hne (Option.some.inj (hphone'.symm.trans hphone))
      exact h.clear hphone' (by simpa [hji] using hj) hget
  · intro phone' issued hget
    simp only [ExpiringStore.get_setEx] at hget
    simp only [hwrong]
    split at hget
    · obtain rfl := Option.some.inj hget
      rw [hzero]
      exact .inl (Nat.zero_le _)
    · refine (h.counted hget).imp_right ?_
      rintro ⟨hle, j, hphone, hj⟩
      exact ⟨hle, j, hphone, update_incr (by simp [hcall]) hj⟩
  · intro j
    simp only [hwrong]
    exact h.bound j

/-- The counter is cleared: no code has been compared with what is pending. -/
theorem Counted.clearedStep (h : Counted request s) (hphone : (request i).phone? = some phone)
    (hcall : s.calls i = .clear) :
    Counted request
      { shared := s.shared.withRedis { s.shared.redis with
          attempts := s.shared.redis.attempts.delete phone }
        calls := Function.update s.calls i .send } := by
  refine ⟨?_, h.stored, ?_, ?_, ?_, h.bound⟩
  · intro j hj
    exact h.unstored (before_update (P := fun call : UserCall ι => call.beforeStore)
      (by simp [UserCall.beforeStore]) hj).2
  · intro j phone' hphone' hj
    obtain ⟨-, hold⟩ := before_update
      (P := fun call : UserCall ι => call = .pending ∨ ∃ issuer, call = .incr issuer) (by simp) hj
    simp only [UserStore.withRedis, ExpiringStore.count_delete]
    split
    · decide
    · exact h.room hphone' hold
  · intro j phone' issued hphone' hj hget
    exact h.clear hphone' (before_update (P := (· = UserCall.clear)) (by simp) hj).2 hget
  · intro phone' issued hget
    simp only [UserStore.withRedis, ExpiringStore.count_delete]
    split
    · rename_i hsame
      subst hsame
      exact .inl (h.clear hphone hcall hget).le
    · refine (h.counted hget).imp_right ?_
      rintro ⟨hle, j, hphone', hj⟩
      exact ⟨hle, j, hphone', update_incr (by simp [hcall]) hj⟩

/-- A wrong code is compared: the call that did so will count it. -/
theorem Counted.wrongStep (h : Counted request s) (hs : Provenance lower uuid5 request users s)
    (hlocked : Locked request s) (hphone : (request i).phone? = some phone)
    (hcall : s.calls i = .pending) {issued : Issued ι} {code : String}
    (hget : s.shared.redis.pending.get phone = some issued)
    (hcareful : ∀ j, (request j).phone? = some phone → s.calls j ≠ .clear) :
    Counted request
      { shared := { s.shared with log := s.shared.log ++ [.compared issued.issuer code] }
        calls := Function.update s.calls i (.incr issued.issuer) } := by
  have hholds : Holds request s i phone := ⟨hphone, by rw [hcall]; rfl⟩
  have hroom := h.room hphone (.inl hcall)
  -- what was compared before has been counted, since no other call is in the section
  have hcounted : wrongCodes request s.shared.log issued.issuer ≤
      s.shared.redis.attempts.count phone := by
    refine (h.counted hget).resolve_right ?_
    rintro ⟨-, j, hphone', hj⟩
    obtain rfl := hlocked.unique hholds ⟨hphone', by rw [hj]; rfl⟩
    rw [hcall] at hj
    contradiction
  have hsame : ∀ {phone' issued'}, s.shared.redis.pending.get phone' = some issued' →
      phone' ≠ phone → wrongCodes request (s.shared.log ++ [.compared issued.issuer code])
        issued'.issuer = wrongCodes request s.shared.log issued'.issuer := by
    intro phone' issued' hget' hne
    have hissuer : issued.issuer ≠ issued'.issuer :=
      fun heq => hne (hs.phone_eq hget hget' heq.symm)
    rw [wrongCodes_concat]
    simp [UserEvent.isWrong, hissuer]
  have hle : ∀ j, wrongCodes request (s.shared.log ++ [.compared issued.issuer code]) j ≤
      wrongCodes request s.shared.log j + 1 := by
    intro j
    rw [wrongCodes_concat]
    split <;> omega
  refine ⟨?_, ?_, ?_, ?_, ?_, ?_⟩
  · intro j hj
    have hold := h.unstored (before_update (P := fun call : UserCall ι => call.beforeStore)
      (by simp [UserCall.beforeStore]) hj).2
    simpa using hold
  · intro j code' hlog
    refine List.mem_append_left _ ?_
    rcases List.mem_append.mp hlog with hlog | hlog
    · exact h.stored hlog
    · obtain ⟨rfl, -⟩ : j = issued.issuer ∧ code' = code := by simpa using hlog
      exact (hs.pending hget).1
  · intro j phone' hphone' hj
    by_cases hji : j = i
    · subst hji
      obtain rfl : phone = phone' := Option.some.inj (hphone.symm.trans hphone')
      exact hroom
    · exact h.room hphone' (by simpa [hji] using hj)
  · intro j phone' issued' hphone' hj hget'
    obtain ⟨-, hclear⟩ := before_update (P := (· = UserCall.clear)) (by simp) hj
    have hne : phone' ≠ phone := by
      rintro rfl
      exact hcareful j hphone' hclear
    exact (hsame hget' hne).trans (h.clear hphone' hclear hget')
  · intro phone' issued' hget'
    by_cases hne : phone' = phone
    · subst hne
      obtain rfl : issued = issued' := Option.some.inj (hget.symm.trans hget')
      exact .inr ⟨(hle _).trans (by simpa using hcounted), i, hphone, by simp⟩
    · simp only [hsame hget' hne]
      refine (h.counted hget').imp_right ?_
      rintro ⟨hle', j, hphone', hj⟩
      exact ⟨hle', j, hphone', update_incr (by simp [hcall]) hj⟩
  · intro j
    by_cases hj : j = issued.issuer
    · subst hj
      have hbound := hle issued.issuer
      unfold maxOtpAttempts at hroom ⊢
      simp only
      omega
    · simp only [wrongCodes_concat]
      have hnot : UserEvent.isWrong request j (.compared issued.issuer code) = false := by
        simp [UserEvent.isWrong, Ne.symm hj]
      rw [hnot]
      exact h.bound j

/-- A wrong code is counted. -/
theorem Counted.countedStep (h : Counted request s) (hlocked : Locked request s)
    (hphone : (request i).phone? = some phone) {issuer : ι} (hcall : s.calls i = .incr issuer)
    (hnext : call' = .expire 1 ∨ ∃ outcome, call' = .release outcome) :
    Counted request
      { shared := s.shared.withRedis { s.shared.redis with
          attempts := s.shared.redis.attempts.incr phone }
        calls := Function.update s.calls i call' } := by
  have hnot : ¬ call'.beforeStore ∧ call' ≠ .pending ∧ call' ≠ .clear ∧
      ∀ issuer, call' ≠ .incr issuer := by
    rcases hnext with rfl | ⟨outcome, rfl⟩ <;> simp [UserCall.beforeStore]
  have hholds : Holds request s i phone := ⟨hphone, by rw [hcall]; rfl⟩
  -- no other call for this phone number is about to compare or to count
  have halone : ∀ {j phone'}, j ≠ i → (request j).phone? = some phone' →
      (s.calls j).inSection → phone' ≠ phone := by
    rintro j phone' hji hphone' hin rfl
    exact hji (hlocked.unique ⟨hphone', hin⟩ hholds)
  refine ⟨?_, h.stored, ?_, ?_, ?_, h.bound⟩
  · intro j hj
    exact h.unstored
      (before_update (P := fun call : UserCall ι => call.beforeStore) hnot.1 hj).2
  · intro j phone' hphone' hj
    obtain ⟨hji, hold⟩ := before_update
      (P := fun call : UserCall ι => call = .pending ∨ ∃ issuer, call = .incr issuer)
      (by simp [hnot.2.1, hnot.2.2.2]) hj
    have hin : (s.calls j).inSection := by
      rcases hold with hold | ⟨issuer', hold⟩ <;> rw [hold] <;> rfl
    simp only [UserStore.withRedis, ExpiringStore.count_incr, if_neg (halone hji hphone' hin)]
    exact h.room hphone' hold
  · intro j phone' issued hphone' hj hget
    exact h.clear hphone' (before_update (P := (· = UserCall.clear)) hnot.2.2.1 hj).2 hget
  · intro phone' issued hget
    simp only [UserStore.withRedis, ExpiringStore.count_incr]
    have hold := h.counted hget
    split
    · rename_i hsame
      subst hsame
      exact .inl (hold.elim Nat.le_succ_of_le fun hflight => hflight.1)
    · rename_i hne
      refine hold.imp_right ?_
      rintro ⟨hle, j, hphone', hj⟩
      refine ⟨hle, j, hphone', ?_⟩
      have hji : j ≠ i := by
        rintro rfl
        exact hne (Option.some.inj (hphone'.symm.trans hphone))
      simpa [hji] using hj

/-- The pending registration and its counter are deleted. -/
theorem Counted.cleanedStep (h : Counted request s) {user : AuthUser} {outcome : UserOutcome}
    (hcall : s.calls i = .clean user) :
    Counted request
      { shared := s.shared.withRedis { s.shared.redis with
          pending := s.shared.redis.pending.delete phone
          attempts := s.shared.redis.attempts.delete phone }
        calls := Function.update s.calls i (.release outcome) } := by
  refine ⟨?_, h.stored, ?_, ?_, ?_, h.bound⟩
  · intro j hj
    exact h.unstored (before_update (P := fun call : UserCall ι => call.beforeStore)
      (by simp [UserCall.beforeStore]) hj).2
  · intro j phone' hphone' hj
    obtain ⟨-, hold⟩ := before_update
      (P := fun call : UserCall ι => call = .pending ∨ ∃ issuer, call = .incr issuer) (by simp) hj
    simp only [UserStore.withRedis, ExpiringStore.count_delete]
    split
    · decide
    · exact h.room hphone' hold
  · intro j phone' issued hphone' hj hget
    obtain ⟨-, hclear⟩ := before_update (P := (· = UserCall.clear)) (by simp) hj
    simp only [UserStore.withRedis, ExpiringStore.get_delete] at hget
    split at hget
    · contradiction
    · exact h.clear hphone' hclear hget
  · intro phone' issued hget
    simp only [UserStore.withRedis, ExpiringStore.get_delete] at hget
    simp only [UserStore.withRedis, ExpiringStore.count_delete]
    split at hget
    · contradiction
    · rename_i hne
      rw [if_neg hne]
      refine (h.counted hget).imp_right ?_
      rintro ⟨hle, j, hphone', hj⟩
      exact ⟨hle, j, hphone', update_incr (by simp [hcall]) hj⟩

/-- A careful step keeps the counter at the wrong codes. -/
theorem counted_advanced (h : Counted request s) (hs : Provenance lower uuid5 request users s)
    (hlocked : Locked request s) (hphone : (request i).phone? = some phone)
    (hcareful : s.calls i = .pending → ∀ j, (request j).phone? = (request i).phone? →
      s.calls j ≠ .clear)
    (hadvanced : Advanced lower uuid5 request i phone s.shared (s.calls i) shared call') :
    Counted request { shared := shared, calls := Function.update s.calls i call' } := by
  generalize hcall : s.calls i = call at hadvanced
  cases hadvanced with
  | moved hmoves =>
      exact h.keep (fun _ => rfl) (fun _ => Iff.rfl) (fun _ _ => h.stored) (fun _ => rfl)
        (fun _ => rfl) (hcall ▸ hmoves.beforeStore) (fun _ _ hpending => absurd hpending hmoves.pending')
        hmoves.clear' (hcall ▸ hmoves.incr) hmoves.incr'
  | stored => exact h.storedStep hphone hcall
  | cleared => exact h.clearedStep hphone hcall
  | acquired =>
      exact h.keep (fun _ => rfl) (fun _ => Iff.rfl) (fun _ _ => h.stored) (fun _ => rfl)
        (fun _ => rfl) (by simp [UserCall.beforeStore]) (by simp) (by simp) (by simp [hcall])
        (by simp)
  | allowed hroom =>
      refine h.keep (fun _ => rfl) (fun _ => Iff.rfl) (fun _ _ => h.stored) (fun _ => rfl)
        (fun _ => rfl) (by simp [UserCall.beforeStore]) ?_ (by simp) (by simp [hcall]) (by simp)
      intro phone' hphone' _
      obtain rfl : phone = phone' := Option.some.inj (hphone.symm.trans hphone')
      exact hroom
  | @right v issued hrequest hget hcode =>
      refine h.keep ?_ (by simp) ?_ (fun _ => rfl) (fun _ => rfl) (by simp [UserCall.beforeStore])
        (by simp) (by simp) (by simp [hcall]) (by simp)
      · intro j
        rw [wrongCodes_concat]
        by_cases hj : issued.issuer = j
        · subst hj
          simp [UserEvent.isWrong, hs.otp_eq hget, hcode]
        · simp [UserEvent.isWrong, hj]
      · intro j code hlog
        rcases List.mem_append.mp hlog with hlog | hlog
        · exact h.stored hlog
        · obtain ⟨rfl, -⟩ : j = issued.issuer ∧ code = v.otp := by simpa using hlog
          exact (hs.pending hget).1
  | wrong hrequest hget hcode =>
      exact h.wrongStep hs hlocked hphone hcall hget fun j hj =>
        hcareful hcall j (hj.trans hphone.symm)
  | counted hnext => exact h.countedStep hlocked hphone hcall hnext
  | timed =>
      exact h.keep (fun _ => rfl) (fun _ => Iff.rfl) (fun _ _ => h.stored) (fun _ => rfl)
        (fun _ => ExpiringStore.count_expire ..) (by simp [UserCall.beforeStore]) (by simp) (by simp)
        (by simp [hcall]) (by simp)
  | created =>
      refine h.keep ?_ (by simp) ?_ (fun _ => rfl) (fun _ => rfl) (by simp [UserCall.beforeStore])
        (by simp) (by simp) (by simp [hcall]) (by simp)
      · intro j
        rw [wrongCodes_concat]
        rfl
      · intro j code hlog
        exact h.stored (by simpa using hlog)
  | cleaned => exact h.cleanedStep hcall
  | released =>
      exact h.keep (fun _ => rfl) (fun _ => Iff.rfl) (fun _ _ => h.stored) (fun _ => rfl)
        (fun _ => rfl) (by simp [UserCall.beforeStore]) (by simp) (by simp) (by simp [hcall])
        (by simp)

/-- A careful step keeps the count of the wrong codes. -/
theorem counted_step {label : UserLabel ι} (h : Counted request s)
    (hs : Provenance lower uuid5 request users s) (hlocked : Locked request s)
    (hcareful : Careful request s label)
    (hstep : userStep lower uuid5 request s label = some t) : Counted request t := by
  rcases userStep_eq_some hstep with ⟨i, move, phone, shared, call', rfl, hphone, hadvanced, rfl⟩ |
    ⟨i, move, call', rfl, hmoves, rfl⟩ | ⟨key, rfl, rfl⟩ | ⟨seconds, -, rfl⟩
  · exact counted_advanced h hs hlocked hphone hcareful hadvanced
  · exact h.keep (fun _ => rfl) (fun _ => Iff.rfl) (fun _ _ => h.stored) (fun _ => rfl)
      (fun _ => rfl) hmoves.beforeStore (fun _ _ hpending => absurd hpending hmoves.pending')
      hmoves.clear' hmoves.incr hmoves.incr'
  · cases key with
    | pending phone =>
        have hget : ∀ {phone' issued}, (s.shared.redis.pending.delete phone).get phone' =
            some issued → s.shared.redis.pending.get phone' = some issued := by
          intro phone' issued hget
          rw [ExpiringStore.get_delete] at hget
          split at hget
          · contradiction
          · exact hget
        exact ⟨h.unstored, h.stored, h.room, fun hphone hj hp => h.clear hphone hj (hget hp),
          fun hp => h.counted (hget hp), h.bound⟩
    | attempts phone =>
        refine ⟨h.unstored, h.stored, ?_, h.clear, ?_, h.bound⟩
        · intro j phone' hphone' hj
          simp only [UserStore.withRedis, Redis.vanish, ExpiringStore.count_delete]
          split
          · decide
          · exact h.room hphone' hj
        · intro phone' issued hget
          have hne : phone' ≠ phone := by
            rintro rfl
            have hnone : s.shared.redis.pending.get phone' = none := hcareful
            exact Option.some_ne_none issued (hget.symm.trans hnone)
          simp only [UserStore.withRedis, Redis.vanish, ExpiringStore.count_delete, if_neg hne]
          exact h.counted hget
    | lock phone => exact ⟨h.unstored, h.stored, h.room, h.clear, h.counted, h.bound⟩
  · exact ⟨h.unstored, h.stored, h.room, h.clear, h.counted, h.bound⟩

/-! ## Careful runs -/

omit [DecidableEq ι] in
/-- No call holds a lock at the start. -/
theorem locked_start : Locked request (.start ι users) where
  taken := fun hholds => by simp [Holds, UserState.start, UserCall.inSection] at hholds
  unique := fun hholds => by simp [Holds, UserState.start, UserCall.inSection] at hholds

/-- And no code is wrong yet. -/
theorem counted_start : Counted request (.start ι users) where
  unstored := fun _ => by simp [UserState.start]
  stored := fun hlog => by simp [UserState.start] at hlog
  room := fun _ hcall => by simp [UserState.start] at hcall
  clear := fun _ hcall => by simp [UserState.start] at hcall
  counted := fun hget => by simp [UserState.start] at hget
  bound := fun _ => by simp [UserState.start, wrongCodes]

/-- In careful runs at most `_MAX_OTP_ATTEMPTS` wrong codes are compared with the one that a
`register_user` call issued. -/
theorem otp_guesses_bounded
    (hrun : Reaches (userStep lower uuid5 request) (Careful request) (.start ι users) s) (i : ι) :
    wrongCodes request s.shared.log i ≤ maxOtpAttempts := by
  have h : Provenance lower uuid5 request users s ∧ Locked request s ∧ Counted request s := by
    induction hrun with
    | refl => exact ⟨provenance_start, locked_start, counted_start⟩
    | tail _ hcareful hstep ih =>
        obtain ⟨hs, hlocked, hcounted⟩ := ih
        exact ⟨provenance_step hs hstep, locked_step hlocked hcareful hstep,
          counted_step hcounted hs hlocked hcareful hstep⟩
  exact h.2.2.bound i

end Step

/-! ## Six guesses -/

/-- A customer registers, and six calls guess. -/
def guessers (i : Fin 7) : UserRequest :=
  if i = 0 then .register customerRegistration
  else .verify { phone := "+254712345678", otp := "000000" }

/-- Calls that take some steps each, one after the other. -/
def turns (steps : List (Fin 7 × Nat)) : List (UserLabel (Fin 7)) :=
  steps.flatMap fun (i, n) => List.replicate n (.call i .proceed)

theorem mem_turns {steps : List (Fin 7 × Nat)} {label : UserLabel (Fin 7)}
    (h : label ∈ turns steps) : ∃ i, label = .call i .proceed := by
  obtain ⟨⟨i, n⟩, -, hlabel⟩ := List.mem_flatMap.mp h
  exact ⟨i, List.eq_of_mem_replicate hlabel⟩

/-- No call is about to clear the counter. -/
def noneClears (s : UserState (Fin 7)) : Bool :=
  (List.finRange 7).all fun i => match s.calls i with
    | .clear => false
    | _ => true

/-- The step compares no code while a call is about to clear the counter, and drops no key. -/
def isCareful (s : UserState (Fin 7)) : UserLabel (Fin 7) → Bool
  | .call i _ => match s.calls i with
    | .pending => noneClears s
    | _ => true
  | _ => false

theorem careful_of_isCareful {s : UserState (Fin 7)} {label : UserLabel (Fin 7)}
    (h : isCareful s label) : Careful guessers s label := by
  cases label with
  | call i move =>
      intro hpending j _ hclear
      simp only [isCareful, hpending, noneClears, List.all_eq_true] at h
      have hj := h j (List.mem_finRange j)
      rw [hclear] at hj
      contradiction
  | vanish key => contradiction
  | tick seconds => contradiction

/-- The customer registers, and the calls guess one after the other. -/
def guessInOrder : List (UserLabel (Fin 7)) :=
  turns [(0, 5), (1, 6), (2, 5), (3, 5), (4, 5), (5, 5), (6, 3)]

/-- Five wrong codes are compared, and the sixth call is turned away. -/
theorem otp_guesses_bounded_sample :
    ∃ s : UserState (Fin 7), wrongCodes guessers s.shared.log 0 = 5 ∧
      wrongCodes guessers s.shared.log 0 ≤ maxOtpAttempts := by
  have hexec : (guessInOrder.foldlM (fun s label => if isCareful s label then
      userStep id (fun _ _ => 7) guessers s label else none) (.start (Fin 7) .empty)).map
        (fun s => wrongCodes guessers s.shared.log 0) = some 5 := by
    decide +kernel
  obtain ⟨s, hs, hcodes⟩ := Option.map_eq_some_iff.mp hexec
  exact ⟨s, hcodes, otp_guesses_bounded
    (Reaches.of_foldlM_checked (fun _ _ => careful_of_isCareful) hs) 0⟩

/-- The registration is stored, five calls guess, the counter is cleared, and the sixth call
guesses. -/
def guessBehindCounter : List (UserLabel (Fin 7)) :=
  turns [(0, 3), (1, 6), (2, 5), (3, 5), (4, 5), (5, 5), (0, 1), (6, 3)]

/-- A sixth wrong code is compared in a run in which no key disappears. -/
theorem guesses_behind_the_counter :
    ¬ ∀ (ι : Type) [DecidableEq ι] (lower : String → String) (uuid5 : Uuid → String → Uuid)
      (request : ι → UserRequest) (users : Table AuthUser) (s : UserState ι),
      Reaches (userStep lower uuid5 request) TtlElapsed (.start ι users) s →
      ∀ i, wrongCodes request s.shared.log i ≤ maxOtpAttempts := by
  intro hall
  have hexec : (guessBehindCounter.foldlM (userStep id (fun _ _ => 7) guessers)
      (.start (Fin 7) .empty)).map (fun s => wrongCodes guessers s.shared.log 0) = some 6 := by
    decide +kernel
  obtain ⟨s, hs, hcodes⟩ := Option.map_eq_some_iff.mp hexec
  have hguard : ∀ label ∈ guessBehindCounter, ∀ s, TtlElapsed s label := by
    intro label hlabel s
    obtain ⟨i, rfl⟩ := mem_turns hlabel
    trivial
  have hbound := hall (Fin 7) id (fun _ _ => 7) guessers .empty s
    (Reaches.of_foldlM_guarded hguard hs) 0
  rw [hcodes] at hbound
  exact absurd hbound (by decide)

end Ingress
end BettingPlatform
