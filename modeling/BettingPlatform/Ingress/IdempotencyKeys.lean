import BettingPlatform.Foundations.JoinedText
import BettingPlatform.Ingress.TimestampDrift
import BettingPlatform.Settlement.Models
import Mathlib.Data.Set.Function

/-!
# What an idempotency key identifies

`generate_idempotency_key` hashes the user id, the match id and the epoch millisecond, joined
by colons, and `submit_bet` derives the event id and the bet id from the hash.  A match id may
hold colons and digits; a user id holds no colon, and a numeral holds none either, so the
first colon and the last one mark the three parts.

The millisecond that is hashed is the float's, which may be next to the timestamp's own: two
submissions of a user on a match, a millisecond apart, may get one key, and two in one
millisecond may get two.

That two texts with one hash are one text is assumed of the texts a set of submissions
hashes, and of no others.

Main results:

- Theorem `canonicalKey_eq_iff`: the hashed text determines its three parts.
- Theorem `Submission.sameIds_iff`: submissions share their ids exactly when user, match and
  the float's millisecond agree.
- Theorem `idempotencyKey_identifies`: for which submissions this is the timestamp's
  millisecond.
-/

namespace BettingPlatform
namespace Ingress

open Python

/-- The canonical text has its three parts in this order. -/
theorem toList_canonicalKey (userId matchId : String) (epochMs : Int) :
    (canonicalKey userId matchId epochMs).toList =
      userId.toList ++ ':' :: (matchId.toList ++ ':' :: intText epochMs) := by
  simp [canonicalKey, String.toList_append]

theorem colon_notMem_intText (n : Int) : ':' ∉ intText n := by
  intro h
  rcases mem_intText h with hsign | hdigit
  · exact absurd hsign (by decide)
  · exact absurd hdigit (by decide)

/-- The hashed text determines the user, the match and the millisecond, when no user id holds
a colon. -/
theorem canonicalKey_eq_iff {userId userId' matchId matchId' : String} {epochMs epochMs' : Int}
    (huser : ':' ∉ userId.toList) (huser' : ':' ∉ userId'.toList) :
    canonicalKey userId matchId epochMs = canonicalKey userId' matchId' epochMs' ↔
      userId = userId' ∧ matchId = matchId' ∧ epochMs = epochMs' := by
  rw [← String.toList_inj, toList_canonicalKey, toList_canonicalKey,
    append_sep_inj_of_front huser huser',
    append_sep_inj_of_back (colon_notMem_intText epochMs) (colon_notMem_intText epochMs'),
    String.toList_inj, String.toList_inj]
  exact and_congr_right fun _ => and_congr_right fun _ =>
    ⟨intText_injective, congrArg intText⟩

/-- A canonical UUID text holds no colon. -/
theorem colon_notMem_uuidText (user : Uuid) : ':' ∉ user.text.toList := by
  intro h
  have hdigits : ∀ d : Fin 16, Nat.digitChar d ≠ ':' := by decide
  rcases Uuid.mem_text h with hhyphen | ⟨d, hd, hdigit⟩
  · exact absurd hhyphen (by decide)
  · exact hdigits ⟨d, hd⟩ hdigit.symm

/-! ## Submissions -/

/-- A validated request with the user it is submitted for. -/
structure Submission where
  userId : String
  request : BetCreateRequest
  colon_notMem_userId : ':' ∉ userId.toList

/-- User, match and epoch millisecond agree. -/
def Submission.SameTuple (a b : Submission) : Prop :=
  a.userId = b.userId ∧ a.request.matchId = b.request.matchId ∧
    a.request.timestamp / 1000 = b.request.timestamp / 1000

/-- User, match and the millisecond that is hashed agree. -/
def Submission.SameText (a b : Submission) : Prop :=
  a.userId = b.userId ∧ a.request.matchId = b.request.matchId ∧
    timestampToEpochMs a.request.timestamp = timestampToEpochMs b.request.timestamp

section Hashes

variable (sha256 : Bytes → Fin (2 ^ 256)) (uuid5 : Uuid → String → Uuid)

/-- What SHA-256 is applied to. -/
def hashedTexts (submissions : Set Submission) : Set Bytes :=
  {text | ∃ s ∈ submissions, ∃ ms, timestampToEpochMs s.request.timestamp = .ok ms ∧
    text = utf8 (canonicalKey s.userId s.request.matchId ms)}

/-- The key of a submission. -/
def Submission.idempotencyKey (s : Submission) : Except Raised String :=
  generateIdempotencyKey sha256 s.userId s.request.matchId s.request.timestamp

/-- What the version 5 UUIDs are the names of. -/
def namedTexts (submissions : Set Submission) : Set String :=
  {name | ∃ s ∈ submissions, ∃ key, s.idempotencyKey sha256 = .ok key ∧
    name = "bets-submitted:" ++ key}

/-- The event of a submission. -/
def Submission.event (s : Submission) : Except Raised BetSubmittedEvent :=
  submittedEvent sha256 uuid5 s.userId s.request

/-- A row of `bets` has the ids of an event. -/
structure Records (event : BetSubmittedEvent) (bet : Settlement.Bet) : Prop where
  id : bet.id.text = event.betId
  idempotencyKey : bet.idempotencyKey = event.idempotencyKey

variable {sha256 uuid5} {a b : Submission} {event event' : BetSubmittedEvent}

/-- The ids of an event come from the key. -/
theorem Submission.event_ids (h : a.event sha256 uuid5 = .ok event) :
    a.idempotencyKey sha256 = .ok event.idempotencyKey ∧
      event.eventId = (uuid5 namespaceUrl ("bets-submitted:" ++ event.idempotencyKey)).text ∧
      event.betId = event.eventId := by
  unfold Submission.event submittedEvent at h
  simp only [bind_eq_ok_iff] at h
  obtain ⟨key, hkey, ms, -, stake, -, payout, -, odds, -, h⟩ := h
  split at h
  · obtain rfl := Except.ok.inj h
    exact ⟨hkey, rfl, rfl⟩
  · contradiction

/-- An event has a timestamp behind the epoch. -/
theorem Submission.timestamp_pos (h : a.event sha256 uuid5 = .ok event) :
    0 < a.request.timestamp := by
  obtain ⟨hmin, hmax⟩ := a.request.timestamp_range
  unfold Submission.event submittedEvent at h
  simp only [bind_eq_ok_iff] at h
  obtain ⟨key, -, ms, hms, stake, -, payout, -, odds, -, h⟩ := h
  split at h
  · rename_i hvalid
    exact Ingress.timestamp_pos hmin hmax hms hvalid.timestamp_pos
  · contradiction

/-- The millisecond that is hashed is the timestamp's own, moved by the drift. -/
theorem Submission.epochMs (h : a.event sha256 uuid5 = .ok event) :
    timestampToEpochMs a.request.timestamp =
      .ok (a.request.timestamp / 1000 + drift a.request.timestamp.toNat) := by
  have hpos := Submission.timestamp_pos h
  have hcast : ((a.request.timestamp.toNat : Nat) : Int) = a.request.timestamp :=
    Int.toNat_of_nonneg hpos.le
  have hms := @timestampToEpochMs_eq a.request.timestamp.toNat (by
    unfold IsTimestamp
    rw [hcast]
    exact a.request.timestamp_range.2)
  rwa [hcast] at hms

/-- The hashed texts tell what the tuples tell, unless user and match agree and floats move the
timestamps apart or together. -/
theorem Submission.sameText_iff_sameTuple (hevent : a.event sha256 uuid5 = .ok event)
    (hevent' : b.event sha256 uuid5 = .ok event') :
    (a.SameText b ↔ a.SameTuple b) ↔
      (a.userId = b.userId → a.request.matchId = b.request.matchId →
        MovedApart a.request.timestamp b.request.timestamp) := by
  unfold Submission.SameText Submission.SameTuple MovedApart
  rw [Submission.epochMs hevent, Submission.epochMs hevent', Except.ok.injEq]
  by_cases huser : a.userId = b.userId
  · by_cases hmatch : a.request.matchId = b.request.matchId
    · simp only [huser, hmatch, true_and, true_imp_iff]
      split <;> omega
    · simp [hmatch]
  · simp [huser]

/-- The key is the hash of the canonical text. -/
theorem Submission.idempotencyKey_eq_ok {key : String} (h : a.idempotencyKey sha256 = .ok key) :
    ∃ ms, timestampToEpochMs a.request.timestamp = .ok ms ∧
      key = String.ofList
        (toHex 64 (sha256 (utf8 (canonicalKey a.userId a.request.matchId ms)))) := by
  obtain ⟨ms, hms, h⟩ := bind_eq_ok_iff.mp h
  exact ⟨ms, hms, (Except.ok.inj h).symm⟩

/-- The hexadecimal digest determines the hash. -/
theorem hexDigest_injective {m n : Fin (2 ^ 256)}
    (h : String.ofList (toHex 64 m) = String.ofList (toHex 64 n)) : m = n := by
  have hvalue := congrArg ofHex (String.ofList_injective h)
  have hfits : ∀ k : Fin (2 ^ 256), k.val % 16 ^ 64 = k := fun k => Nat.mod_eq_of_lt k.isLt
  rw [ofHex_toHex, ofHex_toHex, hfits, hfits] at hvalue
  exact Fin.ext (Option.some.inj hvalue)

section CollisionFree

variable {submissions : Set Submission}
  (hsha : Set.InjOn sha256 (hashedTexts submissions))
  (huuid : Set.InjOn (uuid5 namespaceUrl) (namedTexts sha256 submissions))
  (ha : a ∈ submissions) (hb : b ∈ submissions)
include hsha ha hb

/-- Submissions share their key exactly when the hashed texts have the same parts. -/
theorem Submission.key_eq_iff {key key' : String} (hkey : a.idempotencyKey sha256 = .ok key)
    (hkey' : b.idempotencyKey sha256 = .ok key') : key = key' ↔ a.SameText b := by
  obtain ⟨ms, hms, rfl⟩ := Submission.idempotencyKey_eq_ok hkey
  obtain ⟨ms', hms', rfl⟩ := Submission.idempotencyKey_eq_ok hkey'
  have htuple : canonicalKey a.userId a.request.matchId ms =
      canonicalKey b.userId b.request.matchId ms' ↔ a.SameText b := by
    rw [canonicalKey_eq_iff a.colon_notMem_userId b.colon_notMem_userId, Submission.SameText,
      hms, hms', Except.ok.injEq]
  rw [← htuple]
  constructor
  · intro h
    exact utf8_injective (hsha ⟨a, ha, ms, hms, rfl⟩ ⟨b, hb, ms', hms', rfl⟩
      (hexDigest_injective h))
  · intro h
    rw [h]

include huuid

/-- The same holds of the ids of their events. -/
theorem Submission.sameIds_iff (hevent : a.event sha256 uuid5 = .ok event)
    (hevent' : b.event sha256 uuid5 = .ok event') :
    (event.idempotencyKey = event'.idempotencyKey ↔ a.SameText b) ∧
      (event.eventId = event'.eventId ↔ a.SameText b) ∧
      (event.betId = event'.betId ↔ a.SameText b) := by
  obtain ⟨hkey, heventId, hbetId⟩ := Submission.event_ids hevent
  obtain ⟨hkey', heventId', hbetId'⟩ := Submission.event_ids hevent'
  have hkeys := Submission.key_eq_iff hsha ha hb hkey hkey'
  have hids : event.eventId = event'.eventId ↔ a.SameText b := by
    rw [← hkeys, heventId, heventId']
    constructor
    · intro h
      have hnames := huuid ⟨a, ha, _, hkey, rfl⟩ ⟨b, hb, _, hkey', rfl⟩ (Uuid.text_injective h)
      exact (String.append_right_inj _).mp hnames
    · intro h
      rw [h]
  exact ⟨hkeys, hids, by rw [hbetId, hbetId', hids]⟩

/-- The rows of `bets` that different users' events become do not clash. -/
theorem Submission.not_clash (hevent : a.event sha256 uuid5 = .ok event)
    (hevent' : b.event sha256 uuid5 = .ok event') (huser : a.userId ≠ b.userId)
    {bet bet' : Settlement.Bet} (hbet : Records event bet) (hbet' : Records event' bet') :
    ¬ Schema.Clash bet bet' := by
  obtain ⟨hkeys, -, hids⟩ := Submission.sameIds_iff hsha huuid ha hb hevent hevent'
  have hdifferent : ¬ a.SameText b := fun h => huser h.1
  rintro (hid | hkey)
  · refine hdifferent (hids.mp ?_)
    rw [← hbet.id, ← hbet'.id, hid]
  · refine hdifferent (hkeys.mp ?_)
    rw [← hbet.idempotencyKey, ← hbet'.idempotencyKey, hkey]

end CollisionFree

/-- The hashed text identifies user, match and the millisecond that is hashed.  So, hashes of
submitted texts not colliding, the idempotency key, the event id and the bet id identify user,
match and the timestamp's millisecond exactly when floats keep the timestamps apart as they
are; and no user's bet is a duplicate of another user's. -/
theorem idempotencyKey_identifies :
    (∀ (userId userId' matchId matchId' : String) (epochMs epochMs' : Int),
      ':' ∉ userId.toList → ':' ∉ userId'.toList →
        (canonicalKey userId matchId epochMs = canonicalKey userId' matchId' epochMs' ↔
          userId = userId' ∧ matchId = matchId' ∧ epochMs = epochMs')) ∧
    ∀ submissions : Set Submission, Set.InjOn sha256 (hashedTexts submissions) →
      Set.InjOn (uuid5 namespaceUrl) (namedTexts sha256 submissions) →
      ∀ a ∈ submissions, ∀ b ∈ submissions, ∀ event event',
        a.event sha256 uuid5 = .ok event → b.event sha256 uuid5 = .ok event' →
        (((event.idempotencyKey = event'.idempotencyKey ↔ a.SameTuple b) ∧
            (event.eventId = event'.eventId ↔ a.SameTuple b) ∧
            (event.betId = event'.betId ↔ a.SameTuple b)) ↔
          (a.userId = b.userId → a.request.matchId = b.request.matchId →
            MovedApart a.request.timestamp b.request.timestamp)) ∧
        (a.userId ≠ b.userId → ∀ bet bet', Records event bet → Records event' bet' →
          ¬ Schema.Clash bet bet') := by
  refine ⟨fun _ _ _ _ _ _ huser huser' => canonicalKey_eq_iff huser huser', ?_⟩
  intro submissions hsha huuid a ha b hb event event' hevent hevent'
  obtain ⟨hkeys, heventIds, hbetIds⟩ := Submission.sameIds_iff hsha huuid ha hb hevent hevent'
  refine ⟨?_, fun huser bet bet' =>
    Submission.not_clash hsha huuid ha hb hevent hevent' huser⟩
  rw [hkeys, heventIds, hbetIds, and_self, and_self]
  exact Submission.sameText_iff_sameTuple hevent hevent'

end Hashes

/-! ## Two users, one match, one millisecond -/

/-- The schema's example, submitted for a user. -/
def sampleSubmission (user : Uuid) : Submission :=
  ⟨user.text, sampleRequest, colon_notMem_uuidText user⟩

/-- SHA-256 on the texts of users 7 and 8. -/
def sampleSha256 (text : Bytes) : Fin (2 ^ 256) :=
  if text = utf8 (canonicalKey (Uuid.text 7) sampleRequest.matchId 1787659200000) then
    0xf403318df6d28c3e897e4be0fbf7d4e1a6438040226c2700644ae2c965af90be
  else 0x7bdf6ba2bdb052d963dd80addbbf66c467709628da0550c7110bae2ae0cbb603

/-- `uuid5` on the names made of their keys. -/
def sampleUuid5 (_ : Uuid) (name : String) : Uuid :=
  if name = "bets-submitted:f403318df6d28c3e897e4be0fbf7d4e1a6438040226c2700644ae2c965af90be" then
    0x6e76d528b21554499aaf24878b1caab7
  else 0xb48167efb53b5d2091b525ba09beedb4

theorem sampleTexts_ne : canonicalKey (Uuid.text 8) sampleRequest.matchId 1787659200000 ≠
    canonicalKey (Uuid.text 7) sampleRequest.matchId 1787659200000 := by
  rw [Ne, canonicalKey_eq_iff (colon_notMem_uuidText 8) (colon_notMem_uuidText 7)]
  intro h
  exact absurd (Uuid.text_injective h.1) (by decide)

/-- The request of the example becomes an event. -/
theorem sample_event (sha256 : Bytes → Fin (2 ^ 256)) (uuid5 : Uuid → String → Uuid) (user : Uuid) :
    ∃ event, (sampleSubmission user).event sha256 uuid5 = .ok event :=
  (@exists_submittedEvent_iff sha256 uuid5 user sampleRequest).mpr
    ⟨1787659200000, rfl, by decide⟩

/-- Its timestamp in milliseconds. -/
theorem sample_epochMs (user : Uuid) :
    timestampToEpochMs (sampleSubmission user).request.timestamp = .ok 1787659200000 := by
  show timestampToEpochMs sampleRequest.timestamp = .ok 1787659200000
  rfl

/-- Its key, for whatever user. -/
theorem sample_key (user : Uuid) {key : String}
    (h : (sampleSubmission user).idempotencyKey sampleSha256 = .ok key) :
    key = String.ofList (toHex 64 (sampleSha256
      (utf8 (canonicalKey user.text sampleRequest.matchId 1787659200000)))) := by
  obtain ⟨ms, hms, rfl⟩ := Submission.idempotencyKey_eq_ok h
  obtain rfl := Except.ok.inj ((sample_epochMs user).symm.trans hms)
  rfl

theorem sampleSha256_seven : sampleSha256 (utf8 (canonicalKey (Uuid.text 7) sampleRequest.matchId
    1787659200000)) = 0xf403318df6d28c3e897e4be0fbf7d4e1a6438040226c2700644ae2c965af90be :=
  if_pos rfl

theorem sampleSha256_eight : sampleSha256 (utf8 (canonicalKey (Uuid.text 8) sampleRequest.matchId
    1787659200000)) = 0x7bdf6ba2bdb052d963dd80addbbf66c467709628da0550c7110bae2ae0cbb603 :=
  if_neg fun h => sampleTexts_ne (utf8_injective h)

/-- The hash of the example does not collide on its texts. -/
theorem sampleSha256_injOn :
    Set.InjOn sampleSha256 (hashedTexts {sampleSubmission 7, sampleSubmission 8}) := by
  have htexts : ∀ text ∈ hashedTexts {sampleSubmission 7, sampleSubmission 8},
      text = utf8 (canonicalKey (Uuid.text 7) sampleRequest.matchId 1787659200000) ∨
        text = utf8 (canonicalKey (Uuid.text 8) sampleRequest.matchId 1787659200000) := by
    rintro text ⟨s, hs, ms, hms, rfl⟩
    rcases hs with rfl | rfl
    · obtain rfl := Except.ok.inj ((sample_epochMs 7).symm.trans hms)
      exact .inl rfl
    · obtain rfl := Except.ok.inj ((sample_epochMs 8).symm.trans hms)
      exact .inr rfl
  intro x hx y hy h
  rcases htexts x hx with rfl | rfl
  · rcases htexts y hy with rfl | rfl
    · rfl
    · rw [sampleSha256_seven, sampleSha256_eight] at h
      exact absurd h (by decide)
  · rcases htexts y hy with rfl | rfl
    · rw [sampleSha256_seven, sampleSha256_eight] at h
      exact absurd h (by decide)
    · rfl

/-- Nor do its ids. -/
theorem sampleUuid5_injOn : Set.InjOn (sampleUuid5 namespaceUrl)
    (namedTexts sampleSha256 {sampleSubmission 7, sampleSubmission 8}) := by
  have hnames : ∀ name ∈ namedTexts sampleSha256 {sampleSubmission 7, sampleSubmission 8},
      name = "bets-submitted:" ++
          "f403318df6d28c3e897e4be0fbf7d4e1a6438040226c2700644ae2c965af90be" ∨
        name = "bets-submitted:" ++
          "7bdf6ba2bdb052d963dd80addbbf66c467709628da0550c7110bae2ae0cbb603" := by
    rintro name ⟨s, hs, key, hkey, rfl⟩
    rcases hs with rfl | rfl
    · rw [sample_key 7 hkey, sampleSha256_seven]
      exact .inl (by decide)
    · rw [sample_key 8 hkey, sampleSha256_eight]
      exact .inr (by decide)
  intro x hx y hy h
  rcases hnames x hx with rfl | rfl <;> rcases hnames y hy with rfl | rfl <;>
    first
    | rfl
    | exact absurd h (by decide)

/-- The two users' events differ in their keys and ids. -/
theorem idempotencyKey_identifies_sample :
    ∃ event event', (sampleSubmission 7).event sampleSha256 sampleUuid5 = .ok event ∧
      (sampleSubmission 8).event sampleSha256 sampleUuid5 = .ok event' ∧
      event.idempotencyKey ≠ event'.idempotencyKey ∧ event.betId ≠ event'.betId := by
  obtain ⟨event, hevent⟩ := sample_event sampleSha256 sampleUuid5 7
  obtain ⟨event', hevent'⟩ := sample_event sampleSha256 sampleUuid5 8
  obtain ⟨hexact, -⟩ := idempotencyKey_identifies.2 _ sampleSha256_injOn sampleUuid5_injOn
    _ (.inl rfl) _ (.inr rfl) event event' hevent hevent'
  obtain ⟨hkeys, -, hids⟩ := hexact.mpr fun _ _ =>
    movedApart_of_recent ⟨by decide, by decide⟩ ⟨by decide, by decide⟩
  have hdifferent : ¬ (sampleSubmission 7).SameTuple (sampleSubmission 8) := fun h =>
    absurd (Uuid.text_injective h.1) (by decide)
  exact ⟨event, event', hevent, hevent', fun h => hdifferent (hkeys.mp h),
    fun h => hdifferent (hids.mp h)⟩

/-! ## Two milliseconds, one key -/

/-- The schema's example, submitted by user 7 at some time. -/
def submissionAt (timestamp : Int)
    (hrange : minTimestamp ≤ timestamp ∧ timestamp < maxTimestamp) : Submission where
  userId := Uuid.text 7
  request := { sampleRequest with timestamp := timestamp, timestamp_range := hrange }
  colon_notMem_userId := colon_notMem_uuidText 7

/-- Submitted at 2038-06-01T00:00:00.001Z. -/
def firstMillisecond : Submission :=
  submissionAt 2158963200001000 (by decide)

/-- Submitted at 2038-06-01T00:00:00.002Z. -/
def secondMillisecond : Submission :=
  submissionAt 2158963200002000 (by decide)

/-- The float's millisecond of both is the first one. -/
theorem epochMs_milliseconds : ∀ s ∈ ({firstMillisecond, secondMillisecond} : Set Submission),
    timestampToEpochMs s.request.timestamp = .ok 2158963200001 ∧ s.userId = Uuid.text 7 ∧
      s.request.matchId = sampleRequest.matchId := by
  rintro s (rfl | rfl)
  · exact ⟨rfl, rfl, rfl⟩
  · exact ⟨rfl, rfl, rfl⟩

/-- Both requests become events. -/
theorem event_milliseconds (sha256 : Bytes → Fin (2 ^ 256)) (uuid5 : Uuid → String → Uuid) :
    ∀ s ∈ ({firstMillisecond, secondMillisecond} : Set Submission),
      ∃ event, s.event sha256 uuid5 = .ok event := by
  intro s hs
  obtain ⟨hms, huser, -⟩ := epochMs_milliseconds s hs
  unfold Submission.event
  rw [huser]
  exact exists_submittedEvent_iff.mpr ⟨_, hms, by decide⟩

/-- The keys of both are the hash of one text. -/
theorem key_milliseconds {sha256 : Bytes → Fin (2 ^ 256)} {s : Submission} {key : String}
    (hs : s ∈ ({firstMillisecond, secondMillisecond} : Set Submission))
    (h : s.idempotencyKey sha256 = .ok key) :
    key = String.ofList (toHex 64 (sha256
      (utf8 (canonicalKey (Uuid.text 7) sampleRequest.matchId 2158963200001)))) := by
  obtain ⟨hms, huser, hmatch⟩ := epochMs_milliseconds s hs
  obtain ⟨ms, hms', rfl⟩ := Submission.idempotencyKey_eq_ok h
  obtain rfl := Except.ok.inj (hms.symm.trans hms')
  rw [huser, hmatch]

/-- Submissions a millisecond apart may share their ids, whatever the hashes. -/
theorem milliseconds_share_key :
    ¬ ∀ (sha256 : Bytes → Fin (2 ^ 256)) (uuid5 : Uuid → String → Uuid)
        (submissions : Set Submission), Set.InjOn sha256 (hashedTexts submissions) →
      Set.InjOn (uuid5 namespaceUrl) (namedTexts sha256 submissions) →
      ∀ a ∈ submissions, ∀ b ∈ submissions, ∀ event event',
        a.event sha256 uuid5 = .ok event → b.event sha256 uuid5 = .ok event' →
        (event.idempotencyKey = event'.idempotencyKey ↔ a.SameTuple b) ∧
          (event.eventId = event'.eventId ↔ a.SameTuple b) ∧
          (event.betId = event'.betId ↔ a.SameTuple b) := by
  intro hall
  have htexts : (hashedTexts {firstMillisecond, secondMillisecond}).Subsingleton := by
    rintro _ ⟨s, hs, ms, hms, rfl⟩ _ ⟨s', hs', ms', hms', rfl⟩
    obtain ⟨hvalue, huser, hmatch⟩ := epochMs_milliseconds s hs
    obtain ⟨hvalue', huser', hmatch'⟩ := epochMs_milliseconds s' hs'
    obtain rfl := Except.ok.inj (hvalue.symm.trans hms)
    obtain rfl := Except.ok.inj (hvalue'.symm.trans hms')
    rw [huser, huser', hmatch, hmatch']
  have hnames : (namedTexts (fun _ => 0) {firstMillisecond, secondMillisecond}).Subsingleton := by
    rintro _ ⟨s, hs, key, hkey, rfl⟩ _ ⟨s', hs', key', hkey', rfl⟩
    rw [key_milliseconds hs hkey, key_milliseconds hs' hkey']
  obtain ⟨event, hevent⟩ := event_milliseconds (fun _ => 0) (fun _ _ => 0) _ (.inl rfl)
  obtain ⟨event', hevent'⟩ := event_milliseconds (fun _ => 0) (fun _ _ => 0) _ (.inr rfl)
  have hkey := key_milliseconds (.inl rfl) (Submission.event_ids hevent).1
  have hkey' := key_milliseconds (.inr rfl) (Submission.event_ids hevent').1
  have htuple := (hall (fun _ => 0) (fun _ _ => 0) {firstMillisecond, secondMillisecond}
    (htexts.injOn _) (hnames.injOn _) _ (.inl rfl) _ (.inr rfl) event event' hevent hevent').1.mp
      (hkey.trans hkey'.symm)
  exact absurd htuple.2.2 (by decide)

end Ingress
end BettingPlatform
