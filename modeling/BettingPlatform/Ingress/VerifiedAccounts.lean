import BettingPlatform.Ingress.UserService

/-!
# Accounts come from verified registrations

Whatever the interleaving, and whichever keys disappear in between, a row of `auth_users` is
made of one pending registration as one call stored it, by a call that submitted that
registration's code.  A registration makes one row at most, since all rows made of it have
the same email.

Main results:

- Theorem `provenance_step`: one step keeps track of where pending registrations, checked
  registrations and rows come from.
- Theorem `accounts_from_verified_registrations`: so in every reachable state each row comes
  from one verified registration, and each registration has one row at most.
-/

namespace BettingPlatform
namespace Ingress

open Runs

variable {ι : Type} [DecidableEq ι]

/-- Elements of which no two can be related are one at most. -/
theorem length_le_one {α : Type} {R : α → α → Prop} {l : List α} (hpairwise : l.Pairwise R)
    (hnone : ∀ a ∈ l, ∀ b ∈ l, ¬ R a b) : l.length ≤ 1 := by
  match l with
  | [] => exact Nat.zero_le 1
  | [_] => exact le_rfl
  | a :: b :: rest =>
      have hrelated := (List.pairwise_cons.mp hpairwise).1 b List.mem_cons_self
      exact absurd hrelated (hnone a List.mem_cons_self b (by simp))

/-! ## Where things come from -/

section Provenance

variable (lower : String → String) (uuid5 : Uuid → String → Uuid) (request : ι → UserRequest)

/-- What a call stored for a phone number, as far as the log goes back. -/
def StoredBy (log : List (UserEvent ι)) (phone : String) (issued : Issued ι) : Prop :=
  UserEvent.stored issued.issuer ∈ log ∧
    ∃ r, request issued.issuer = .register r ∧ normalizePhone r.phone = some phone ∧
      issued.registration = r.pending lower phone

/-- A call has submitted the code of what another had stored. -/
def VerifiedBy (log : List (UserEvent ι)) (verifier : ι) (issued : Issued ι) : Prop :=
  ∃ v phone, request verifier = .verify v ∧ normalizePhone v.phone = some phone ∧
    StoredBy lower request log phone issued ∧ issued.registration.otp = v.otp

/-- The row was made of a registration that had been stored and verified before. -/
def MadeFrom (log : List (UserEvent ι)) (verifier issuer : ι) (user : AuthUser) : Prop :=
  ∃ v r phone, request verifier = .verify v ∧ request issuer = .register r ∧
    normalizePhone v.phone = some phone ∧ normalizePhone r.phone = some phone ∧
    v.otp = r.otp ∧ UserEvent.stored issuer ∈ log ∧
    user =
      { id := uuid5 0x6ba7b8109dad11d180b400c04fd430c8 (lower r.email)
        email := lower r.email
        phone := phone
        username := r.username
        passwordHash := r.passwordHash }

/-- The rows that the log records, with the calls they come from. -/
def createdRows (log : List (UserEvent ι)) : List (ι × ι × AuthUser) :=
  log.filterMap fun
    | .created verifier issuer user => some (verifier, issuer, user)
    | _ => none

/-- Where pending registrations, checked registrations and rows come from. -/
structure Provenance (users : Table AuthUser) (s : UserState ι) : Prop where
  pending : ∀ {phone issued}, s.shared.redis.pending.get phone = some issued →
    StoredBy lower request s.shared.log phone issued
  create : ∀ {i issued}, s.calls i = .create issued →
    VerifiedBy lower request s.shared.log i issued
  created : ∀ {past verifier issuer user}, past ++ [.created verifier issuer user] <+: s.shared.log →
    MadeFrom lower uuid5 request past verifier issuer user
  rows : s.shared.users.rows =
    users.rows ++ (createdRows s.shared.log).map fun (_, _, user) => user

end Provenance

section Step

variable {lower : String → String} {uuid5 : Uuid → String → Uuid} {request : ι → UserRequest}
  {log log' : List (UserEvent ι)} {phone : String} {issued : Issued ι} {users : Table AuthUser}
  {s t : UserState ι}

omit [DecidableEq ι] in
/-- What was stored by a call stays in the log. -/
theorem StoredBy.mono (h : StoredBy lower request log phone issued) (hlog : log ⊆ log') :
    StoredBy lower request log' phone issued :=
  ⟨hlog h.1, h.2⟩

omit [DecidableEq ι] in
/-- And what was verified. -/
theorem VerifiedBy.mono {i : ι} (h : VerifiedBy lower request log i issued) (hlog : log ⊆ log') :
    VerifiedBy lower request log' i issued := by
  obtain ⟨v, phone, hv, hphone, hstored, hcode⟩ := h
  exact ⟨v, phone, hv, hphone, hstored.mono hlog, hcode⟩

omit [DecidableEq ι] in
/-- A row that is made of a verified registration. -/
theorem VerifiedBy.madeFrom {i : ι} (h : VerifiedBy lower request log i issued)
    (hphone : (request i).phone? = some phone) :
    MadeFrom lower uuid5 request log i issued.issuer
      (issued.registration.user uuid5 phone) := by
  obtain ⟨v, phone', hv, hphone', ⟨hlog, r, hr, hrphone, hregistration⟩, hcode⟩ := h
  have hsame : normalizePhone v.phone = some phone := by
    rw [hv] at hphone
    exact hphone
  obtain rfl : phone' = phone := Option.some.inj (hphone'.symm.trans hsame)
  refine ⟨v, r, phone', hv, hr, hphone', hrphone, ?_, hlog, ?_⟩
  · rw [← hcode, hregistration]
    rfl
  · rw [hregistration]
    rfl

omit [DecidableEq ι] in
/-- The created rows grow by those of the event. -/
theorem createdRows_concat (log : List (UserEvent ι)) (event : UserEvent ι) :
    createdRows (log ++ [event]) = createdRows log ++ createdRows [event] :=
  List.filterMap_append

omit [DecidableEq ι] in
/-- The recorded rows of a longer log. -/
theorem Provenance.created_concat {event : UserEvent ι}
    (h : Provenance lower uuid5 request users s)
    (hevent : ∀ verifier issuer user, event = .created verifier issuer user →
      MadeFrom lower uuid5 request s.shared.log verifier issuer user)
    {past : List (UserEvent ι)} {verifier issuer : ι} {user : AuthUser}
    (hearlier : past ++ [.created verifier issuer user] <+: s.shared.log ++ [event]) :
    MadeFrom lower uuid5 request past verifier issuer user := by
  rcases List.prefix_concat_iff.mp hearlier with hlast | hbefore
  · obtain ⟨rfl, hsame⟩ := List.append_inj' hlast rfl
    exact hevent _ _ _ (List.cons.inj hsame).1.symm
  · exact h.created hbefore

/-- A step that records nothing, creates no row and stores no registration. -/
theorem Provenance.keep {i : ι} {shared : UserStore ι} {call' : UserCall ι}
    (h : Provenance lower uuid5 request users s) (hlog : shared.log = s.shared.log)
    (husers : shared.users = s.shared.users)
    (hpending : ∀ phone issued, shared.redis.pending.get phone = some issued →
      s.shared.redis.pending.get phone = some issued)
    (hcreate : ∀ issued, call' ≠ .create issued) :
    Provenance lower uuid5 request users
      { shared := shared, calls := Function.update s.calls i call' } where
  pending := by
    intro phone issued hget
    rw [hlog]
    exact h.pending (hpending phone issued hget)
  create := by
    intro j issued hcall
    rw [hlog]
    exact h.create (before_update (P := (· = UserCall.create issued)) (hcreate issued) hcall).2
  created := by
    intro past verifier issuer user hearlier
    rw [hlog] at hearlier
    exact h.created hearlier
  rows := by rw [hlog, husers, h.rows]

/-- A step that records one event. -/
theorem Provenance.record {i : ι} {shared : UserStore ι} {call' : UserCall ι}
    {event : UserEvent ι} (h : Provenance lower uuid5 request users s)
    (hlog : shared.log = s.shared.log ++ [event])
    (hevent : ∀ verifier issuer user, event = .created verifier issuer user →
      MadeFrom lower uuid5 request s.shared.log verifier issuer user)
    (husers : shared.users.rows = s.shared.users.rows ++
      (createdRows [event]).map fun (_, _, user) => user)
    (hpending : ∀ phone issued, shared.redis.pending.get phone = some issued →
      s.shared.redis.pending.get phone = some issued ∨
        StoredBy lower request shared.log phone issued)
    (hcreate : ∀ issued, call' = .create issued → VerifiedBy lower request shared.log i issued) :
    Provenance lower uuid5 request users
      { shared := shared, calls := Function.update s.calls i call' } where
  pending := by
    intro phone issued hget
    rcases hpending phone issued hget with hold | hnew
    · refine (h.pending hold).mono ?_
      rw [hlog]
      exact List.subset_append_left _ _
    · exact hnew
  create := by
    intro j issued hcall
    by_cases hj : j = i
    · subst hj
      exact hcreate issued (by simpa using hcall)
    · refine (h.create (by simpa [hj] using hcall)).mono ?_
      rw [hlog]
      exact List.subset_append_left _ _
  created := by
    intro past verifier issuer user hearlier
    rw [hlog] at hearlier
    exact h.created_concat hevent hearlier
  rows := by rw [husers, hlog, h.rows, createdRows_concat, List.map_append, List.append_assoc]

/-- One step of a call keeps track of where things come from. -/
theorem provenance_advanced {i : ι} {shared : UserStore ι} {call' : UserCall ι}
    (h : Provenance lower uuid5 request users s) (hphone : (request i).phone? = some phone)
    (hadvanced : Advanced lower uuid5 request i phone s.shared (s.calls i) shared call') :
    Provenance lower uuid5 request users
      { shared := shared, calls := Function.update s.calls i call' } := by
  generalize hcall : s.calls i = call at hadvanced
  cases hadvanced with
  | moved hmoves => exact h.keep rfl rfl (fun _ _ => id) hmoves.create'
  | @stored r hrequest =>
      refine h.record rfl (by simp) (by simp [createdRows]) ?_ (by simp)
      intro phone' issued hget
      rw [ExpiringStore.get_setEx] at hget
      split at hget
      · rename_i hsame
        obtain rfl := Option.some.inj hget
        rw [hrequest] at hphone
        exact .inr ⟨by simp, r, hrequest, hsame ▸ hphone, by rw [hsame]⟩
      · exact .inl hget
  | cleared => exact h.keep rfl rfl (fun _ _ => id) (by simp)
  | acquired => exact h.keep rfl rfl (fun _ _ => id) (by simp)
  | allowed => exact h.keep rfl rfl (fun _ _ => id) (by simp)
  | @right v issued hrequest hget hcode =>
      refine h.record rfl (by simp)
        (by simp [createdRows]) (fun _ _ => .inl) ?_
      rintro issued' hissued
      obtain rfl : issued = issued' := by simpa using hissued
      have hstored := (h.pending hget).mono
        (List.subset_append_left _ [.compared issued.issuer v.otp])
      rw [hrequest] at hphone
      exact ⟨v, phone, hrequest, hphone, hstored, hcode⟩
  | @wrong v issued hrequest hget hcode =>
      exact h.record rfl (by simp)
        (by simp [createdRows]) (fun _ _ => .inl) (by simp)
  | counted hnext =>
      refine h.keep rfl rfl (fun _ _ => id) ?_
      rcases hnext with rfl | ⟨outcome, rfl⟩
      · simp
      · simp
  | timed => exact h.keep rfl rfl (fun _ _ => id) (by simp)
  | @created issued users' hinsert =>
      refine h.record rfl ?_ (Table.insert_rows hinsert) (fun _ _ => .inl) (by simp)
      intro verifier issuer user hevent
      obtain ⟨rfl, rfl, rfl⟩ : i = verifier ∧ issued.issuer = issuer ∧
        issued.registration.user uuid5 phone = user := by simpa using hevent
      exact (h.create hcall).madeFrom hphone
  | cleaned =>
      refine h.keep rfl rfl ?_ (by simp)
      intro phone' issued hget
      simp only [UserStore.withRedis, ExpiringStore.get_delete] at hget
      split at hget
      · contradiction
      · exact hget
  | released => exact h.keep rfl rfl (fun _ _ => id) (by simp)

/-- One step keeps track of where things come from. -/
theorem provenance_step {label : UserLabel ι} (h : Provenance lower uuid5 request users s)
    (hstep : userStep lower uuid5 request s label = some t) :
    Provenance lower uuid5 request users t := by
  rcases userStep_eq_some hstep with ⟨i, move, phone, shared, call', -, hphone, hadvanced, rfl⟩ |
    ⟨i, move, call', -, hmoves, rfl⟩ | ⟨key, -, rfl⟩ | ⟨seconds, -, rfl⟩
  · exact provenance_advanced h hphone hadvanced
  · exact h.keep rfl rfl (fun _ _ => id) hmoves.create'
  · refine ⟨?_, h.create, h.created, h.rows⟩
    intro phone issued hget
    cases key with
    | pending phone' =>
        simp only [UserStore.withRedis, Redis.vanish, ExpiringStore.get_delete] at hget
        split at hget
        · contradiction
        · exact h.pending hget
    | attempts phone' => exact h.pending hget
    | lock phone' => exact h.pending hget
  · exact ⟨h.pending, h.create, h.created, h.rows⟩

omit [DecidableEq ι] in
/-- Nothing needs a provenance at the start. -/
theorem provenance_start : Provenance lower uuid5 request users (.start ι users) where
  pending := by
    intro phone issued hget
    simp [UserState.start] at hget
  create := by
    intro i issued hcall
    simp [UserState.start] at hcall
  created := by
    intro past verifier issuer user hearlier
    simp [UserState.start] at hearlier
  rows := by simp [UserState.start, createdRows]

/-- Where things come from, in every reachable state. -/
theorem provenance_of_reachable
    (hrun : Reachable (userStep lower uuid5 request) (.start ι users) s) :
    Provenance lower uuid5 request users s :=
  hrun.invariant provenance_start fun h _ hstep => provenance_step h hstep

omit [DecidableEq ι] in
/-- A created row has an event, with a past. -/
theorem mem_createdRows {verifier issuer : ι} {user : AuthUser}
    (h : (verifier, issuer, user) ∈ createdRows log) :
    ∃ past, past ++ [.created verifier issuer user] <+: log := by
  obtain ⟨event, hevent, hsome⟩ := List.mem_filterMap.mp h
  cases event with
  | stored => contradiction
  | compared => contradiction
  | created verifier' issuer' user' =>
      obtain ⟨rfl, rfl, rfl⟩ : verifier' = verifier ∧ issuer' = issuer ∧ user' = user := by
        simpa using hsome
      obtain ⟨past, future, hlog⟩ := List.append_of_mem hevent
      exact ⟨past, future, by rw [hlog, List.append_assoc, List.singleton_append]⟩

omit [DecidableEq ι] in
/-- The rows made of one registration have its email. -/
theorem MadeFrom.email {verifier issuer : ι} {user : AuthUser} {r : Registration}
    (h : MadeFrom lower uuid5 request log verifier issuer user)
    (hrequest : request issuer = .register r) : user.email = lower r.email := by
  obtain ⟨v, r', phone, -, hr', -, -, -, -, rfl⟩ := h
  obtain rfl : r = r' := UserRequest.register.inj (hrequest.symm.trans hr')
  rfl

/-- No two of the recorded rows come from one registration. -/
theorem Provenance.issuer_once (h : Provenance lower uuid5 request users s) (issuer : ι) :
    ((createdRows s.shared.log).filter fun (_, issuer', _) => issuer' = issuer).length ≤ 1 := by
  have hemails : (createdRows s.shared.log).Pairwise
      fun first second => first.2.2.email ≠ second.2.2.email := by
    have hrows := s.shared.users.distinct
    rw [h.rows, List.pairwise_append, List.pairwise_map] at hrows
    exact hrows.2.1.imp fun hclash hemail => hclash (.inr (.inl hemail))
  -- all rows made of one registration have its email
  have hown : ∀ row ∈ (createdRows s.shared.log).filter fun (_, issuer', _) => issuer' = issuer,
      ∃ past, MadeFrom lower uuid5 request past row.1 issuer row.2.2 := by
    intro row hrow
    obtain ⟨hcreated, hissuer⟩ := List.mem_filter.mp hrow
    obtain ⟨past, hearlier⟩ := mem_createdRows hcreated
    obtain rfl : row.2.1 = issuer := of_decide_eq_true hissuer
    exact ⟨past, h.created hearlier⟩
  refine length_le_one (hemails.filter _) ?_
  intro first hfirst second hsecond hne
  obtain ⟨past, hmade⟩ := hown first hfirst
  obtain ⟨past', hmade'⟩ := hown second hsecond
  have hregister := hmade
  obtain ⟨-, r, -, -, hr, -⟩ := hregister
  exact hne ((hmade.email hr).trans (hmade'.email hr).symm)

/-- Every row that is not there from the start was created by a `verify_otp` call that
submitted the code which a `register_user` call for the same phone number had stored before,
and has the email, phone number, username and password hash of that call; a `register_user`
call gives rise to one row at most; and no two rows share an email or a phone number. -/
theorem accounts_from_verified_registrations
    (hrun : Reachable (userStep lower uuid5 request) (.start ι users) s) :
    (∃ created : List (ι × ι × AuthUser),
      s.shared.users.rows = users.rows ++ created.map (fun (_, _, user) => user) ∧
      (∀ verifier issuer user, (verifier, issuer, user) ∈ created → ∃ past,
        past ++ [.created verifier issuer user] <+: s.shared.log ∧
        MadeFrom lower uuid5 request past verifier issuer user) ∧
      ∀ issuer, (created.filter fun (_, issuer', _) => issuer' = issuer).length ≤ 1) ∧
    s.shared.users.rows.Pairwise fun user user' =>
      user.email ≠ user'.email ∧ user.phone ≠ user'.phone := by
  have h := provenance_of_reachable hrun
  refine ⟨⟨createdRows s.shared.log, h.rows, ?_, h.issuer_once⟩, ?_⟩
  · intro verifier issuer user hmem
    obtain ⟨past, hearlier⟩ := mem_createdRows hmem
    exact ⟨past, hearlier, h.created hearlier⟩
  · refine s.shared.users.distinct.imp fun hclash => ?_
    exact ⟨fun hemail => hclash (.inr (.inl hemail)),
      fun hphone => hclash (.inr (.inr (.inl hphone)))⟩

end Step

/-! ## A registration and its verification -/

/-- The registration of a new customer. -/
def customerRegistration : Registration where
  email := "a@b.ke"
  phone := "0712345678"
  username := none
  code := 123456
  passwordHash := "h"
  code_range := by decide

/-- The customer registers and sends the code back. -/
def customerCalls : Fin 2 → UserRequest
  | 0 => .register customerRegistration
  | 1 => .verify { phone := "+254712345678", otp := "123456" }

/-- One call after the other. -/
def customerLabels : List (UserLabel (Fin 2)) :=
  List.replicate 5 (.call ⟨0, Nat.zero_lt_two⟩ .proceed) ++
    List.replicate 7 (.call ⟨1, Nat.one_lt_two⟩ .proceed)

/-- The row that the two calls make. -/
theorem accounts_from_verified_registrations_sample :
    ∃ s : UserState (Fin 2),
      s.shared.users.rows.map AuthUser.email = ["a@b.ke"] ∧
      ∃ created : List (Fin 2 × Fin 2 × AuthUser),
        s.shared.users.rows = created.map (fun (_, _, user) => user) ∧
        ∀ issuer, (created.filter fun (_, issuer', _) => issuer' = issuer).length ≤ 1 := by
  have hexec : (customerLabels.foldlM (userStep id (fun _ _ => 7) customerCalls) (.start (Fin 2) .empty)).map
        (fun s => s.shared.users.rows.map AuthUser.email) = some ["a@b.ke"] := by
    decide +kernel
  obtain ⟨s, hs, hrows⟩ := Option.map_eq_some_iff.mp hexec
  obtain ⟨⟨created, hcreated, -, honce⟩, -⟩ :=
    accounts_from_verified_registrations (Reaches.of_foldlM hs)
  exact ⟨s, hrows, created, hcreated, honce⟩

end Ingress
end BettingPlatform
