import BettingPlatform.Foundations.Bytes
import BettingPlatform.Foundations.DecimalRounding
import BettingPlatform.Foundations.Fallible
import BettingPlatform.Foundations.JsonText

/-!
# Submitting a bet

`submit_bet` turns a validated request into an immutable event and publishes it.  The
hash functions behind the idempotency key and the event id are parameters: nothing here
depends on which they are.

Main results:

- Theorem `decimalMoneyToCents_eq` and `decimalOdds_eq`: the money arithmetic is exact,
  with one rounding of the odds.
- Theorem `submittedEvent_eq_ok`: the fields of an event in terms of the request.
- Theorem `exists_submittedEvent_iff`: an event is built from exactly the requests whose
  timestamp has reached the first millisecond.
-/

namespace BettingPlatform
namespace Ingress

open Python

/-! ## The request -/

/-- `Field(gt=Decimal("0"), max_digits=18, decimal_places=2)`. -/
def IsMoney (d : Decimal) : Prop :=
  d.negative = false ∧ ∃ cents ∈ d.scaled 2, 0 < cents ∧ cents < 10 ^ 18

/-- `Field(min_length=1, max_length=n)`. -/
def HasLength (n : Nat) (s : String) : Prop :=
  1 ≤ s.length ∧ s.length ≤ n

instance (d : Decimal) : Decidable (IsMoney d) := inferInstanceAs (Decidable (_ ∧ _))
instance (n : Nat) (s : String) : Decidable (HasLength n s) :=
  inferInstanceAs (Decidable (_ ∧ _))

/-- `datetime.min`, in microseconds since the epoch. -/
def minTimestamp : Int := -62135596800 * 10 ^ 6

/-- The first microsecond after `datetime.max`. -/
def maxTimestamp : Int := 253402300800 * 10 ^ 6

/-- A validated `BetCreateRequest`; the timestamp, in UTC, is in microseconds since the
epoch. -/
structure BetCreateRequest where
  matchId : String
  marketId : String
  selectionId : String
  stake : Decimal
  potentialPayout : Decimal
  timestamp : Int
  matchId_length : HasLength 128 matchId
  marketId_length : HasLength 128 marketId
  selectionId_length : HasLength 128 selectionId
  stake_money : IsMoney stake
  payout_money : IsMoney potentialPayout
  stake_le_payout : stake.magnitude ≤ potentialPayout.magnitude
  timestamp_range : minTimestamp ≤ timestamp ∧ timestamp < maxTimestamp

/-- The request of the schema's example. -/
def sampleRequest : BetCreateRequest where
  matchId := "match-2026-08-25-ars-che"
  marketId := "full-time-result"
  selectionId := "arsenal-win"
  stake := ⟨false, 2500, -2⟩
  potentialPayout := ⟨false, 7250, -2⟩
  timestamp := 1787659200000000
  matchId_length := by decide
  marketId_length := by decide
  selectionId_length := by decide
  stake_money := by decide
  payout_money := by decide
  stake_le_payout := by
    unfold Decimal.magnitude
    norm_num
  timestamp_range := by decide

/-- The request with another payout. -/
def BetCreateRequest.withPayout (request : BetCreateRequest) (payout : Decimal)
    (hmoney : IsMoney payout) (hle : request.stake.magnitude ≤ payout.magnitude) :
    BetCreateRequest :=
  { request with
    potentialPayout := payout
    payout_money := hmoney
    stake_le_payout := hle }

/-! ## The event -/

/-- The arguments of `BetSubmittedEvent`. -/
structure BetSubmittedFields where
  eventId : String
  betId : String
  accountId : String
  idempotencyKey : String
  matchId : String
  marketId : String
  selectionId : String
  stakeCents : Int
  potentialPayoutCents : Int
  odds : String
  betTimestampMs : Int
deriving DecidableEq, Repr

/-- The constraints of `BetSubmittedEvent`. -/
structure BetSubmittedFields.Valid (fields : BetSubmittedFields) : Prop where
  strings : ∀ s ∈ [fields.eventId, fields.betId, fields.accountId, fields.idempotencyKey,
    fields.matchId, fields.marketId, fields.selectionId], HasLength 128 s
  stake_pos : 0 < fields.stakeCents
  payout_pos : 0 < fields.potentialPayoutCents
  odds : HasLength 32 fields.odds
  timestamp_pos : 0 < fields.betTimestampMs

instance (fields : BetSubmittedFields) : Decidable fields.Valid :=
  decidable_of_iff
    ((∀ s ∈ [fields.eventId, fields.betId, fields.accountId, fields.idempotencyKey,
        fields.matchId, fields.marketId, fields.selectionId], HasLength 128 s) ∧
      0 < fields.stakeCents ∧ 0 < fields.potentialPayoutCents ∧ HasLength 32 fields.odds ∧
      0 < fields.betTimestampMs)
    ⟨fun ⟨hs, hstake, hpayout, hodds, hts⟩ => ⟨hs, hstake, hpayout, hodds, hts⟩,
      fun ⟨hs, hstake, hpayout, hodds, hts⟩ => ⟨hs, hstake, hpayout, hodds, hts⟩⟩

/-- `BetSubmittedEvent`. -/
structure BetSubmittedEvent extends BetSubmittedFields where
  valid : toBetSubmittedFields.Valid

/-- The members of an event in the order of the model's fields. -/
def BetSubmittedFields.members (fields : BetSubmittedFields) : List (String × Scalar) :=
  [("event_id", .str fields.eventId), ("bet_id", .str fields.betId),
    ("account_id", .str fields.accountId), ("idempotency_key", .str fields.idempotencyKey),
    ("match_id", .str fields.matchId), ("market_id", .str fields.marketId),
    ("selection_id", .str fields.selectionId), ("stake_cents", .int fields.stakeCents),
    ("potential_payout_cents", .int fields.potentialPayoutCents), ("odds", .str fields.odds),
    ("bet_timestamp_ms", .int fields.betTimestampMs)]

/-- The escape of a control character without a short form: `\u00XX`. -/
def unicodeEscape (c : Char) : List Char :=
  '\\' :: 'u' :: toHex 4 c.toNat

/-- `event.model_dump_json()`. -/
def BetSubmittedEvent.modelDumpJson (event : BetSubmittedEvent) : String :=
  String.ofList (objectText unicodeEscape event.members)

/-! ## The handler -/

/-- The exceptions `submit_bet` can end with. -/
inductive Raised
  /-- `decimal.InvalidOperation` or `decimal.DivisionByZero`. -/
  | decimal
  /-- A built-in exception. -/
  | python (e : PyError)
  /-- `pydantic.ValidationError`. -/
  | validationError
deriving DecidableEq, Repr

/-- A decimal operation that may signal. -/
def decimal {α : Type} : Option α → Except Raised α
  | some a => .ok a
  | none => .error .decimal

/-- `decimal_money_to_cents`. -/
def decimalMoneyToCents (value : Decimal) : Except Raised Int := do
  let cents ← decimal ((Decimal.mul value (.ofInt 100)).quantize 0 .halfUp)
  .ok cents.toInt

/-- `decimal_odds`. -/
def decimalOdds (stake potentialPayout : Decimal) : Except Raised String := do
  let quotient ← decimal (Decimal.div potentialPayout stake)
  let odds ← decimal (quotient.quantize (-4) .halfUp)
  .ok odds.str

/-- `timestamp_to_epoch_ms`: the seconds are a float, and so is their product with 1000. -/
def timestampToEpochMs (timestamp : Int) : Except Raised Int :=
  let seconds := PyFloat.ofRatio (timestamp < 0) timestamp.natAbs (10 ^ 6)
  (Json.float (seconds.mulNat 1000)).toInt.mapError .python

/-- The text that `generate_idempotency_key` hashes. -/
def canonicalKey (userId matchId : String) (epochMs : Int) : String :=
  userId ++ ":" ++ matchId ++ ":" ++ String.ofList (intText epochMs)

/-- `uuid.NAMESPACE_URL`. -/
def namespaceUrl : Uuid := 0x6ba7b8119dad11d180b400c04fd430c8

section Hashes

variable (sha256 : Bytes → Fin (2 ^ 256)) (uuid5 : Uuid → String → Uuid)

/-- `generate_idempotency_key`. -/
def generateIdempotencyKey (userId matchId : String) (timestamp : Int) : Except Raised String := do
  let epochMs ← timestampToEpochMs timestamp
  let digest := sha256 (utf8 (canonicalKey userId matchId epochMs))
  .ok (String.ofList (toHex 64 digest))

/-- The event that `submit_bet` builds for a user. -/
def submittedEvent (userId : String) (payload : BetCreateRequest) :
    Except Raised BetSubmittedEvent := do
  let idempotencyKey ← generateIdempotencyKey sha256 userId payload.matchId payload.timestamp
  let eventId := (uuid5 namespaceUrl ("bets-submitted:" ++ idempotencyKey)).text
  let timestampMs ← timestampToEpochMs payload.timestamp
  let stakeCents ← decimalMoneyToCents payload.stake
  let potentialPayoutCents ← decimalMoneyToCents payload.potentialPayout
  let odds ← decimalOdds payload.stake payload.potentialPayout
  let fields : BetSubmittedFields :=
    { eventId
      betId := eventId
      accountId := userId
      idempotencyKey
      matchId := payload.matchId
      marketId := payload.marketId
      selectionId := payload.selectionId
      stakeCents
      potentialPayoutCents
      odds
      betTimestampMs := timestampMs }
  if hvalid : fields.Valid then .ok { fields with valid := hvalid } else .error .validationError

/-- The arguments of `publisher.publish`. -/
structure Publication where
  topic : String
  key : String
  payloadJson : String
deriving DecidableEq, Repr

/-- `BetAcceptedResponse`. -/
structure BetAcceptedResponse where
  eventId : String
  idempotencyKey : String
  topic : String
  status : String := "published"
deriving DecidableEq, Repr

/-- `submit_bet`: what is published and the response, when the publisher takes it. -/
def submitBet (topic userId : String) (payload : BetCreateRequest) :
    Except Raised (Publication × BetAcceptedResponse) := do
  let event ← submittedEvent sha256 uuid5 userId payload
  .ok (⟨topic, event.idempotencyKey, event.modelDumpJson⟩,
    { eventId := event.eventId, idempotencyKey := event.idempotencyKey, topic })

end Hashes

/-! ## What the handler computes -/

/-- The number of cents of an amount of money. -/
theorem IsMoney.exists_cents {d : Decimal} (h : IsMoney d) :
    ∃ cents : Nat, d.magnitude * 100 = cents ∧ 0 < cents ∧ cents < 10 ^ 18 := by
  obtain ⟨-, cents, hcents, hpos, hlt⟩ := h
  refine ⟨cents, ?_, hpos, hlt⟩
  have hvalue := Decimal.magnitude_of_scaled hcents
  norm_num at hvalue
  exact hvalue

/-- The amount in cents is exact. -/
theorem decimalMoneyToCents_eq {d : Decimal} {cents : Nat} (hmoney : IsMoney d)
    (hcents : d.magnitude * 100 = cents) (hlt : cents < 10 ^ 18) :
    decimalMoneyToCents d = .ok cents := by
  have hshort : cents < 10 ^ Decimal.prec := hlt.trans (by decide)
  have hproduct := Decimal.magnitude_mul_ofInt (d := d) (n := 100) (by exact_mod_cast hcents) hshort
  have hsign : (Decimal.mul d (.ofInt 100)).negative = false := by
    have hpositive : (Decimal.ofInt 100).negative = false := by decide
    simp [Decimal.mul, Decimal.fix_fits, hmoney.1, hpositive]
  have hquantize := Decimal.quantize_whole hproduct hshort
  unfold decimalMoneyToCents
  rw [show ((100 : Nat) : Int) = 100 from rfl] at hquantize
  simp [hquantize, decimal, hsign, Decimal.toInt, bind, Except.bind]

/-- The odds are the exact quotient, rounded half up to four places. -/
theorem decimalOdds_eq {stake payout : Decimal} {s n : Nat} (hstake : stake.negative = false)
    (hpayout : payout.negative = false) (hs : stake.magnitude * 100 = s)
    (hn : payout.magnitude * 100 = n) (hspos : 0 < s) (hnpos : 0 < n) (hlt : n < 10 ^ 18) :
    decimalOdds stake payout =
      .ok (Decimal.str ⟨false, Decimal.roundDiv .halfUp (10 ^ 4 * n) s, -4⟩) := by
  have hdiv := Decimal.quantize_div hn hs hnpos hspos hlt
  obtain ⟨q, hq, hquantize⟩ := Option.bind_eq_some_iff.mp hdiv
  unfold decimalOdds
  simp [hq, hquantize, decimal, hstake, hpayout, bind, Except.bind]

/-- Every timestamp has an epoch millisecond, of its own sign. -/
theorem timestampToEpochMs_sign {timestamp : Int} (hmin : minTimestamp ≤ timestamp)
    (hmax : timestamp < maxTimestamp) :
    ∃ quotient : Nat, timestampToEpochMs timestamp =
      .ok (if timestamp < 0 then -(quotient : Int) else quotient) ∧ quotient < 2 ^ 57 := by
  have hnum : timestamp.natAbs < 2 ^ 45 * 10 ^ 6 := by
    unfold minTimestamp at hmin
    unfold maxTimestamp at hmax
    omega
  obtain ⟨mantissa, exp, hfloat, hle⟩ :=
    PyFloat.ofRatio_mulNat (timestamp < 0) 1000 hnum (by norm_num) (by norm_num)
  have hquotient : mantissa * 2 ^ exp.toNat / 2 ^ (-exp).toNat < 2 ^ 57 := by
    have hpos : 0 < 2 ^ (-exp).toNat := by positivity
    rw [Nat.div_lt_iff_lt_mul hpos]
    generalize 2 ^ (-exp).toNat = scale at hle hpos
    have hfour : 4 * (timestamp.natAbs * 1000) < 2 ^ 57 * 10 ^ 6 := by omega
    have hlt := Nat.mul_lt_mul_of_pos_right hfour hpos
    refine lt_of_mul_lt_mul_right (hle.trans_lt ?_) (Nat.zero_le (10 ^ 6))
    linarith
  have hcast : (mantissa * 2 ^ exp.toNat / 2 ^ (-exp).toNat : Int) =
      ((mantissa * 2 ^ exp.toNat / 2 ^ (-exp).toNat : Nat) : Int) := by
    push_cast
    rfl
  generalize mantissa * 2 ^ exp.toNat / 2 ^ (-exp).toNat = quotient at hquotient hcast
  refine ⟨quotient, ?_, hquotient⟩
  simp only [timestampToEpochMs, hfloat, Json.toInt, Except.mapError, decide_eq_true_eq, hcast]

/-- It is far below the limit of 64 bits. -/
theorem timestampToEpochMs_eq_ok {timestamp : Int} (hmin : minTimestamp ≤ timestamp)
    (hmax : timestamp < maxTimestamp) :
    ∃ ms, timestampToEpochMs timestamp = .ok ms ∧ ms < 2 ^ 63 := by
  obtain ⟨quotient, hms, hlt⟩ := timestampToEpochMs_sign hmin hmax
  refine ⟨_, hms, ?_⟩
  split <;> omega

section Hashes

variable {sha256 : Bytes → Fin (2 ^ 256)} {uuid5 : Uuid → String → Uuid}

/-- The fields of an event that was built for a user. -/
structure Describes (request : BetCreateRequest) (user : Uuid) (fields : BetSubmittedFields) :
    Prop where
  ids : ∃ id : Uuid, fields.eventId = id.text ∧ fields.betId = id.text
  accountId : fields.accountId = user.text
  idempotencyKey : ∃ digest : Nat, fields.idempotencyKey = String.ofList (toHex 64 digest)
  matchId : fields.matchId = request.matchId
  marketId : fields.marketId = request.marketId
  selectionId : fields.selectionId = request.selectionId
  stakeCents : request.stake.magnitude * 100 = fields.stakeCents
  potentialPayoutCents : request.potentialPayout.magnitude * 100 = fields.potentialPayoutCents
  odds : fields.odds = Decimal.str ⟨false, Decimal.roundDiv .halfUp
    (10 ^ 4 * fields.potentialPayoutCents.toNat) fields.stakeCents.toNat, -4⟩
  timestamp : timestampToEpochMs request.timestamp = .ok fields.betTimestampMs

/-- The odds of a request are at least 1, in units of the fourth place. -/
theorem odds_bounds {s n : Nat} (hs : 0 < s) (hle : s ≤ n) (hlt : n < 10 ^ 18) :
    10 ^ 4 ≤ Decimal.roundDiv .halfUp (10 ^ 4 * n) s ∧
      Decimal.roundDiv .halfUp (10 ^ 4 * n) s < 10 ^ 23 := by
  rw [Decimal.roundDiv_halfUp _ hs]
  constructor
  · rw [Nat.le_div_iff_mul_le (by omega)]
    omega
  · exact (Nat.div_le_self _ _).trans_lt (by omega)

/-- The text of the odds has 6 to 24 characters. -/
theorem odds_length {s n : Nat} (hs : 0 < s) (hle : s ≤ n) (hlt : n < 10 ^ 18) :
    HasLength 32 (Decimal.str ⟨false, Decimal.roundDiv .halfUp (10 ^ 4 * n) s, -4⟩) := by
  obtain ⟨hlow, hhigh⟩ := odds_bounds hs hle hlt
  have hdigits : 4 < Decimal.numDigits (Decimal.roundDiv .halfUp (10 ^ 4 * n) s) := by
    by_contra hfew
    have hsmall := (Decimal.numDigits_le_iff (by decide)).mp (not_lt.mp hfew)
    omega
  have hfew := (Decimal.numDigits_le_iff (k := 23) (by decide)).mpr hhigh
  have hlength := @Decimal.length_str_of_places _ 4 (by decide) hdigits
  rw [Nat.cast_ofNat] at hlength
  unfold HasLength
  omega

/-- The amounts of an event, in cents. -/
theorem Describes.cents {request : BetCreateRequest} {user : Uuid} {fields : BetSubmittedFields}
    (h : Describes request user fields) :
    ∃ s n : Nat, fields.stakeCents = s ∧ fields.potentialPayoutCents = n ∧ 0 < s ∧ s ≤ n ∧
      n < 10 ^ 18 := by
  obtain ⟨s, hs, hspos, -⟩ := request.stake_money.exists_cents
  obtain ⟨n, hn, -, hnlt⟩ := request.payout_money.exists_cents
  have hstake := h.stakeCents
  have hpayout := h.potentialPayoutCents
  rw [hs] at hstake
  rw [hn] at hpayout
  refine ⟨s, n, by exact_mod_cast hstake.symm, by exact_mod_cast hpayout.symm, hspos, ?_, hnlt⟩
  have hle : (s : ℚ) ≤ n := by
    rw [← hs, ← hn]
    exact mul_le_mul_of_nonneg_right request.stake_le_payout (by norm_num)
  exact_mod_cast hle

/-- The published odds are the quotient of the published cents. -/
theorem Describes.odds_eq {request : BetCreateRequest} {user : Uuid} {fields : BetSubmittedFields}
    (h : Describes request user fields) {s n : Nat} (hs : fields.stakeCents = s)
    (hn : fields.potentialPayoutCents = n) :
    fields.odds = Decimal.str ⟨false, Decimal.roundDiv .halfUp (10 ^ 4 * n) s, -4⟩ := by
  rw [h.odds, hs, hn, Int.toNat_natCast, Int.toNat_natCast]

/-- The described fields pass validation once the first millisecond has been reached. -/
theorem Describes.valid_iff {request : BetCreateRequest} {user : Uuid}
    {fields : BetSubmittedFields} (h : Describes request user fields) :
    fields.Valid ↔ 0 < fields.betTimestampMs := by
  refine ⟨fun hvalid => hvalid.timestamp_pos, fun hts => ?_⟩
  obtain ⟨s, n, hs, hn, hspos, hle, hlt⟩ := h.cents
  obtain ⟨id, heventId, hbetId⟩ := h.ids
  obtain ⟨digest, hkey⟩ := h.idempotencyKey
  have hid : HasLength 128 id.text := by
    simp [HasLength, Uuid.text_length]
  refine ⟨?_, by omega, by omega, ?_, hts⟩
  · simp only [List.forall_mem_cons, List.not_mem_nil, false_implies, implies_true, and_true,
      heventId, hbetId, h.accountId, hkey, h.matchId, h.marketId, h.selectionId]
    refine ⟨hid, hid, ?_, ?_, request.matchId_length, request.marketId_length,
      request.selectionId_length⟩
    · simp [HasLength, Uuid.text_length]
    · simp [HasLength, toHex_length]
  · rw [h.odds_eq hs hn]
    exact odds_length hspos hle hlt

/-- What `submit_bet` computes, up to the validation of the event. -/
theorem submittedEvent_eq (user : Uuid) (request : BetCreateRequest) :
    ∃ fields, Describes request user fields ∧ submittedEvent sha256 uuid5 user.text request =
      if hvalid : fields.Valid then .ok { fields with valid := hvalid }
      else .error .validationError := by
  obtain ⟨ms, hms, -⟩ :=
    timestampToEpochMs_eq_ok request.timestamp_range.1 request.timestamp_range.2
  obtain ⟨s, hs, hspos, hslt⟩ := request.stake_money.exists_cents
  obtain ⟨n, hn, hnpos, hnlt⟩ := request.payout_money.exists_cents
  have hodds := decimalOdds_eq request.stake_money.1 request.payout_money.1 hs hn hspos hnpos hnlt
  refine ⟨_, ?_, by
    simp only [submittedEvent, generateIdempotencyKey, hms,
      decimalMoneyToCents_eq request.stake_money hs hslt,
      decimalMoneyToCents_eq request.payout_money hn hnlt, hodds, bind, Except.bind]
    rfl⟩
  exact
    { ids := ⟨_, rfl, rfl⟩
      accountId := rfl
      idempotencyKey := ⟨_, rfl⟩
      matchId := rfl
      marketId := rfl
      selectionId := rfl
      stakeCents := by simpa using hs
      potentialPayoutCents := by simpa using hn
      odds := rfl
      timestamp := hms }

/-- A built event has the fields the request describes. -/
theorem submittedEvent_eq_ok {user : Uuid} {request : BetCreateRequest} {event : BetSubmittedEvent}
    (h : submittedEvent sha256 uuid5 user.text request = .ok event) :
    Describes request user event.toBetSubmittedFields := by
  obtain ⟨fields, hfields, heq⟩ :=
    @submittedEvent_eq sha256 uuid5 user request
  rw [heq] at h
  split at h
  · obtain rfl := Except.ok.inj h
    exact hfields
  · contradiction

/-- An event is built from exactly the requests whose timestamp has reached the first
millisecond of the epoch. -/
theorem exists_submittedEvent_iff {user : Uuid} {request : BetCreateRequest} :
    (∃ event, submittedEvent sha256 uuid5 user.text request = .ok event) ↔
      ∃ ms, timestampToEpochMs request.timestamp = .ok ms ∧ 0 < ms := by
  obtain ⟨fields, hfields, heq⟩ :=
    @submittedEvent_eq sha256 uuid5 user request
  rw [heq]
  constructor
  · rintro ⟨event, hevent⟩
    split at hevent
    · rename_i hvalid
      exact ⟨_, hfields.timestamp, hvalid.timestamp_pos⟩
    · contradiction
  · rintro ⟨ms, hms, hpos⟩
    obtain rfl := Except.ok.inj (hms.symm.trans hfields.timestamp)
    exact ⟨_, dif_pos (hfields.valid_iff.mpr hpos)⟩

end Hashes

end Ingress
end BettingPlatform
