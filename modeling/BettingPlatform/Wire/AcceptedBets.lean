import BettingPlatform.Wire.Results

/-!
# Accepted bets

A bet that ingress validated and the engine accepted has taken balance and exposure.  Its
result reaches settlement as JSON with the odds that ingress computed; settlement wants
odds above 1.00 with at most six digits before the point, which neither of the others
asks for.

Main results:

- Theorem `accepted_result_validates_iff`: the result of an accepted bet validates exactly
  when the rounded odds are in settlement's range, and then with the bet's values.
-/

namespace BettingPlatform
namespace Wire

open Python RiskEngine Settlement

/-! ## The range of the odds -/

/-- The quotient of payout and stake is at least 1.00005 and below 999999.99995. -/
def OddsInRange (request : Ingress.BetCreateRequest) : Prop :=
  20001 * request.stake.magnitude ≤ 20000 * request.potentialPayout.magnitude ∧
    20000 * request.potentialPayout.magnitude < (2 * 10 ^ 10 - 1) * request.stake.magnitude

/-- The rounded odds are above 1.0000 and at most 999999.9999 exactly in this range. -/
theorem odds_range_iff {s n : Nat} (hs : 0 < s) :
    10000 < Decimal.roundDiv .halfUp (10 ^ 4 * n) s ∧
        Decimal.roundDiv .halfUp (10 ^ 4 * n) s < 10 ^ 10 ↔
      20001 * s ≤ 20000 * n ∧ 20000 * n < (2 * 10 ^ 10 - 1) * s := by
  rw [Decimal.roundDiv_halfUp _ hs, ← Nat.succ_le_iff, Nat.le_div_iff_mul_le (by omega),
    Nat.div_lt_iff_lt_mul (by omega)]
  omega

/-- The range of the odds as one of the cents. -/
theorem oddsInRange_iff {request : Ingress.BetCreateRequest} {s n : Nat}
    (hs : request.stake.magnitude * 100 = s) (hn : request.potentialPayout.magnitude * 100 = n) :
    OddsInRange request ↔ 20001 * s ≤ 20000 * n ∧ 20000 * n < (2 * 10 ^ 10 - 1) * s := by
  have hlow : 20001 * s ≤ 20000 * n ↔ (20001 * s : ℚ) ≤ 20000 * n := by exact_mod_cast Iff.rfl
  have hhigh : 20000 * n < (2 * 10 ^ 10 - 1) * s ↔
      (20000 * n : ℚ) < (2 * 10 ^ 10 - 1) * s := by
    rw [← Nat.cast_lt (α := ℚ)]
    norm_num
  rw [OddsInRange, hlow, hhigh, ← hs, ← hn]
  constructor <;> rintro ⟨h₁, h₂⟩ <;> constructor <;> linarith

/-! ## The result of an accepted bet -/

/-- The acceptance of a submitted bet, with its texts. -/
def acceptanceFields (fields : Ingress.BetSubmittedFields) (now exposure remaining : Int) :
    ResultFields where
  eventId := fields.eventId
  betId := fields.betId
  accountId := fields.accountId
  idempotencyKey := fields.idempotencyKey
  matchId := fields.matchId
  selectionId := fields.selectionId
  odds := fields.odds
  stakeCents := fields.stakeCents
  accepted := true
  reasonCode := .accepted
  reason := "risk checks passed"
  acceptedExposureCents := exposure
  remainingBalanceCents := remaining
  decisionTimestampMs := now

/-- The fields of an acceptance are those of the engine's result. -/
theorem acceptanceFields_result (fields : Ingress.BetSubmittedFields)
    (now exposure remaining : Int) :
    (acceptanceFields fields now exposure remaining).result =
      .acceptance (onWire fields) now exposure remaining :=
  rfl

/-- An integer of 64 bits has few enough digits for `int`. -/
theorem readable_of_isInt64 {n : Int} (h : IsInt64 n) : (Scalar.int n).Readable := by
  have hlt : n.natAbs < 10 ^ 20 := by
    unfold IsInt64 at h
    omega
  exact ((Decimal.numDigits_le_iff (by decide)).mpr hlt).trans (by decide)

/-- The value itself, as `json.loads` builds it. -/
def plain : Scalar → Json
  | .str s => .str s
  | .int n => .int n
  | .bool b => .bool b

/-- Texts the engine has read come back from the result unchanged. -/
theorem acceptanceFields_items {fields : Ingress.BetSubmittedFields}
    {now exposure remaining : Int}
    (hfits : ∀ s ∈ [fields.eventId, fields.betId, fields.accountId, fields.idempotencyKey,
      fields.matchId, fields.marketId, fields.selectionId, fields.odds], FitsEngine s) :
    (acceptanceFields fields now exposure remaining).items =
      (acceptanceFields fields now exposure remaining).members.map fun m => (m.1, plain m.2) := by
  have htext : ∀ s, FitsEngine s → (Scalar.str s).json (fun _ => '?') = plain (.str s) :=
    fun s hs => congrArg Json.str (laundered_of_readable hs.1)
  simp only [List.forall_mem_cons, List.not_mem_nil, false_implies, implies_true, and_true]
    at hfits
  obtain ⟨f₁, f₂, f₃, f₄, f₅, -, f₇, f₈⟩ := hfits
  have hcode : FitsEngine "ACCEPTED" := by decide
  have hreason : FitsEngine "risk checks passed" := by decide
  refine List.map_congr_left fun m hm => ?_
  have hvalue : m.2.json (fun _ => '?') = plain m.2 := by
    simp only [ResultFields.members, acceptanceFields, List.mem_cons, List.not_mem_nil,
      or_false] at hm
    rcases hm with rfl | rfl | rfl | rfl | rfl | rfl | rfl | rfl | rfl | rfl | rfl | rfl | rfl | rfl
    · exact htext _ f₁
    · exact htext _ f₂
    · exact htext _ f₃
    · exact htext _ f₄
    · exact htext _ f₅
    · exact htext _ f₇
    · rfl
    · exact htext _ f₈
    · rfl
    · exact htext _ hcode
    · exact htext _ hreason
    · rfl
    · rfl
    · rfl
  rw [hvalue]

/-- The integers of an acceptance have 64 bits, so they are read. -/
theorem acceptanceFields_readable {fields : Ingress.BetSubmittedFields}
    {now exposure remaining : Int}
    (hints : ∀ n ∈ [fields.stakeCents, exposure, remaining, now], IsInt64 n) :
    ∀ m ∈ (acceptanceFields fields now exposure remaining).members, m.2.Readable := by
  simp only [List.forall_mem_cons, List.not_mem_nil, false_implies, implies_true, and_true]
    at hints
  obtain ⟨hstake, hexposure, hremaining, hnow⟩ := hints
  simp only [ResultFields.members, acceptanceFields, List.forall_mem_cons, List.not_mem_nil,
    false_implies, implies_true, and_true]
  exact ⟨trivial, trivial, trivial, trivial, trivial, trivial, readable_of_isInt64 hstake, trivial,
    trivial, trivial, trivial, readable_of_isInt64 hexposure, readable_of_isInt64 hremaining,
    readable_of_isInt64 hnow⟩

/-- The event settlement validated has the values of the submitted bet. -/
structure SameBet (event : BetResultEvent) (fields : Ingress.BetSubmittedFields) : Prop where
  betId : event.betId.text = fields.betId
  userId : event.userId.text = fields.accountId
  idempotencyKey : event.idempotencyKey = fields.idempotencyKey
  matchId : event.matchId = fields.matchId
  selectionId : event.selectionId = fields.selectionId
  stakeCents : event.stakeCents = fields.stakeCents
  odds : Decimal.ofString fields.odds = some event.odds

/-- An event is validated from a result exactly when the result's members are its fields. -/
theorem eventOf_result {fields : ResultFields} (hreadable : ∀ m ∈ fields.members, m.2.Readable)
    {event : BetResultEvent} :
    eventOf (toJson fields.result) = some event ↔ Carries fields.items event := by
  rw [eventOf, loadsMessage_toJson, if_pos hreadable, Option.bind_some, modelValidate_eq_some_iff]

section Accepted

variable {sha256 : Bytes → Fin (2 ^ 256)} {uuid5 : Uuid → String → Uuid} {user : Uuid}
  {request : Ingress.BetCreateRequest} {event : Ingress.BetSubmittedEvent}

/-- The odds of a submitted bet, as settlement parses them. -/
theorem exists_odds (hevent : Ingress.submittedEvent sha256 uuid5 user.text request = .ok event) :
    ∃ coeff, Decimal.ofString event.odds = some ⟨false, coeff, -4⟩ ∧
      (10000 < coeff ∧ coeff < 10 ^ 10 ↔ OddsInRange request) := by
  have hfields := Ingress.submittedEvent_eq_ok hevent
  obtain ⟨s, n, hs, hn, hspos, hle, hlt⟩ := hfields.cents
  obtain ⟨hlow, -⟩ := Ingress.odds_bounds hspos hle hlt
  have hdigits : 4 < Decimal.numDigits (Decimal.roundDiv .halfUp (10 ^ 4 * n) s) := by
    by_contra hfew
    have hsmall := (Decimal.numDigits_le_iff (by decide)).mp (not_lt.mp hfew)
    omega
  have hstake := hfields.stakeCents
  have hpayout := hfields.potentialPayoutCents
  rw [hs] at hstake
  rw [hn] at hpayout
  refine ⟨Decimal.roundDiv .halfUp (10 ^ 4 * n) s, ?_, ?_⟩
  · rw [hfields.odds_eq hs hn]
    exact Decimal.ofString_str (by decide) hdigits
  · rw [odds_range_iff hspos, oddsInRange_iff (by exact_mod_cast hstake) (by exact_mod_cast hpayout)]

/-- A result that accepts a submitted bet validates only when its odds are in range. -/
theorem oddsInRange_of_eventOf
    (hevent : Ingress.submittedEvent sha256 uuid5 user.text request = .ok event)
    (hfits : ∀ s ∈ [event.eventId, event.betId, event.accountId, event.idempotencyKey,
      event.matchId, event.marketId, event.selectionId, event.odds], FitsEngine s)
    {now exposure remaining : Int}
    (hints : ∀ n ∈ [event.stakeCents, exposure, remaining, now], IsInt64 n)
    {resultEvent : BetResultEvent}
    (hresult : eventOf (toJson (.acceptance (onWire event.toBetSubmittedFields) now exposure
      remaining)) = some resultEvent) : OddsInRange request := by
  obtain ⟨coeff, hodds, hrange⟩ := exists_odds hevent
  rw [← acceptanceFields_result, eventOf_result (acceptanceFields_readable hints),
    acceptanceFields_items hfits] at hresult
  obtain ⟨s, d, hs, hd, -, hscaled⟩ := hresult.odds
  obtain rfl : event.odds = s := Json.str.inj (Option.some.inj hs)
  obtain rfl := Option.some.inj (hodds.symm.trans hd)
  have hcoeff : coeff = resultEvent.odds.coeff := by simpa [Decimal.scaled] using hscaled
  rw [← hrange, hcoeff]
  exact resultEvent.odds_range

/-- With odds in range it validates, with the values of the bet. -/
theorem exists_eventOf_of_oddsInRange
    (hevent : Ingress.submittedEvent sha256 uuid5 user.text request = .ok event)
    (hfits : ∀ s ∈ [event.eventId, event.betId, event.accountId, event.idempotencyKey,
      event.matchId, event.marketId, event.selectionId, event.odds], FitsEngine s)
    {now exposure remaining : Int}
    (hints : ∀ n ∈ [event.stakeCents, exposure, remaining, now], IsInt64 n)
    (hin : OddsInRange request) :
    ∃ resultEvent,
      eventOf (toJson (.acceptance (onWire event.toBetSubmittedFields) now exposure
        remaining)) = some resultEvent ∧
      SameBet resultEvent event.toBetSubmittedFields := by
  have hfields := Ingress.submittedEvent_eq_ok hevent
  obtain ⟨id, heventId, hbetId⟩ := hfields.ids
  obtain ⟨coeff, hodds, hrange⟩ := exists_odds hevent
  have hlength := event.valid.strings
  simp only [List.forall_mem_cons, List.not_mem_nil, false_implies, implies_true, and_true]
    at hlength
  obtain ⟨heventIdLength, -, -, hkeyLength, hmatchIdLength, -, hselectionIdLength⟩ := hlength
  rw [← acceptanceFields_result]
  simp only [eventOf_result (acceptanceFields_readable hints), acceptanceFields_items hfits]
  refine ⟨
    { eventId := event.eventId
      betId := id
      userId := user
      idempotencyKey := event.idempotencyKey
      matchId := event.matchId
      selectionId := event.selectionId
      stakeCents := event.stakeCents
      odds := ⟨false, coeff, -4⟩
      accepted := true
      reasonCode := "ACCEPTED"
      reason := some "risk checks passed"
      eventId_length := heventIdLength
      idempotencyKey_length := hkeyLength
      matchId_length := hmatchIdLength
      selectionId_length := hselectionIdLength
      stake_pos := event.valid.stake_pos
      odds_normal := ⟨rfl, rfl⟩
      odds_range := hrange.mpr hin
      reasonCode_length := by decide
      reason_length := by
        rintro _ ⟨rfl⟩
        decide }, ?_, ?_⟩
  · exact
      { eventId := rfl
        betId := by
          show Uuid.parse event.betId = some id
          rw [hbetId, id.parse_text]
        userId := by
          show Uuid.parse event.accountId = some user
          rw [hfields.accountId, user.parse_text]
        idempotencyKey := rfl
        matchId := rfl
        selectionId := rfl
        stakeCents := rfl
        odds := ⟨event.odds, _, rfl, hodds, rfl, by
          show some (coeff * 10 ^ 0) = some coeff
          rw [pow_zero, Nat.mul_one]⟩
        accepted := rfl
        reasonCode := rfl
        reason := by
          show (reasonField (some (.str "risk checks passed"))).map Subtype.val =
            some (some "risk checks passed")
          decide }
  · exact
      { betId := hbetId.symm
        userId := hfields.accountId.symm
        idempotencyKey := rfl
        matchId := rfl
        selectionId := rfl
        stakeCents := rfl
        odds := hodds }

/-- What the engine publishes for a submitted bet it accepts. -/
theorem accepted_result [FieldOrder] {cap now : Int} {accounts : Accounts}
    (hevent : Ingress.submittedEvent sha256 uuid5 user.text request = .ok event)
    (hcap : IsInt64 cap) (hnow : IsInt64 now) (haccounts : accounts.Fits)
    (haccepted : (evaluateJson cap accounts now (utf8 event.modelDumpJson)).1.accepted) :
    ∃ exposure remaining,
      (evaluateJson cap accounts now (utf8 event.modelDumpJson)).1 =
        .acceptance (onWire event.toBetSubmittedFields) now exposure remaining ∧
      (∀ s ∈ [event.eventId, event.betId, event.accountId, event.idempotencyKey,
        event.matchId, event.marketId, event.selectionId, event.odds], FitsEngine s) ∧
      ∀ n ∈ [event.stakeCents, exposure, remaining, now], IsInt64 n := by
  obtain ⟨bet, balance, hparse, hbalance, hcovered, hroom, hresult⟩ :=
    evaluateJson_accepted haccepted
  obtain ⟨s, n, hs, hn, hspos, hle, -⟩ := (Ingress.submittedEvent_eq_ok hevent).cents
  obtain ⟨hfits, hints, rfl⟩ := (parseBetJson_fields event.valid (by omega)).mp
    ((utf8_modelDumpJson event).symm ▸ hparse)
  refine ⟨_, _, hresult, hfits, ?_⟩
  simp only [List.forall_mem_cons, List.not_mem_nil, false_implies, implies_true, and_true]
    at hints ⊢
  obtain ⟨hstake, hpayout, -⟩ := hints
  have hbalance64 := haccounts.balances hbalance
  have hexposure64 := haccounts.exposure (onWire event.toBetSubmittedFields).accountId
  have hpayoutValue : (onWire event.toBetSubmittedFields).potentialPayoutCents = n := hn
  have hstakeValue : (onWire event.toBetSubmittedFields).stakeCents = s := hs
  rw [hpayoutValue] at hroom ⊢
  rw [hstakeValue] at hcovered ⊢
  unfold IsInt64 at *
  refine ⟨hstake, ?_, ?_, hnow⟩
  · omega
  · omega

/-- For every request, and every engine that accepts the event built from it: the result
validates as settlement's event with the bet's values, exactly when the odds are in
settlement's range. -/
theorem accepted_result_validates_iff [FieldOrder] {cap now : Int} {accounts : Accounts}
    (hevent : Ingress.submittedEvent sha256 uuid5 user.text request = .ok event)
    (hcap : IsInt64 cap) (hnow : IsInt64 now) (haccounts : accounts.Fits)
    (haccepted : (evaluateJson cap accounts now (utf8 event.modelDumpJson)).1.accepted) :
    (∃ resultEvent,
        eventOf (toJson (evaluateJson cap accounts now (utf8 event.modelDumpJson)).1) =
          some resultEvent ∧
        SameBet resultEvent event.toBetSubmittedFields) ↔
      OddsInRange request := by
  obtain ⟨exposure, remaining, hresult, hfits, hints⟩ :=
    accepted_result hevent hcap hnow haccounts haccepted
  rw [hresult]
  constructor
  · rintro ⟨resultEvent, hvalidated, -⟩
    exact oddsInRange_of_eventOf hevent hfits hints hvalidated
  · exact exists_eventOf_of_oddsInRange hevent hfits hints

end Accepted

/-! ## A sample and a request at the edge -/

/-- An engine in which user 7 has 100000 cents. -/
def sampleAccounts : Accounts where
  balances := fun account => if account = utf8 (Uuid.text 7) then some 100000 else none
  exposure := fun _ => 0

theorem sampleAccounts_fits : sampleAccounts.Fits where
  balances := by
    intro account balance h
    simp only [sampleAccounts] at h
    split at h
    · obtain rfl := Option.some.inj h
      exact ⟨by decide, by decide⟩
    · contradiction
  exposure := by
    intro account
    exact ⟨(by decide : -2 ^ 63 ≤ (0 : Int)), (by decide : (0 : Int) < 2 ^ 63)⟩

/-- A request that can win nothing: its payout is its stake. -/
def evenRequest : Ingress.BetCreateRequest :=
  Ingress.sampleRequest.withPayout Ingress.sampleRequest.stake Ingress.sampleRequest.stake_money
    le_rfl

/-- That engine accepts every request of user 7 like the sample's, whatever it may win. -/
theorem sample_accepted [FieldOrder] {request : Ingress.BetCreateRequest}
    {event : Ingress.BetSubmittedEvent}
    (hevent : Ingress.submittedEvent (fun _ => 0) (fun _ _ => 0) (Uuid.text 7) request = .ok event)
    (hfits : ∀ s ∈ [request.matchId, request.marketId, request.selectionId], FitsEngine s)
    (htimestamp : request.timestamp = 1787659200000000) (hstake : request.stake.magnitude = 25)
    (hpayout : request.potentialPayout.magnitude ≤ 10000) :
    (evaluateJson 1000000 sampleAccounts 1787659200000 (utf8 event.modelDumpJson)).1.accepted := by
  have hfields := Ingress.submittedEvent_eq_ok hevent
  have hms : event.betTimestampMs = 1787659200000 := by
    have hvalue : Ingress.timestampToEpochMs request.timestamp = .ok 1787659200000 := by
      rw [htimestamp]
      rfl
    exact Except.ok.inj (hfields.timestamp.symm.trans hvalue)
  have hstakeCents : event.stakeCents ≤ 100000 := by
    have hvalue := hfields.stakeCents
    rw [hstake] at hvalue
    have hcents : event.stakeCents = 2500 := by
      norm_num at hvalue
      exact_mod_cast hvalue.symm
    omega
  have hpayoutCents : event.potentialPayoutCents ≤ 1000000 := by
    have hvalue := hfields.potentialPayoutCents
    have hle : (event.potentialPayoutCents : ℚ) ≤ 1000000 := by linarith
    exact_mod_cast hle
  have hbalance : sampleAccounts.balances (onWire event.toBetSubmittedFields).accountId =
      some 100000 := by
    have haccount : (onWire event.toBetSubmittedFields).accountId = utf8 (Uuid.text 7) :=
      congrArg utf8 hfields.accountId
    simp only [haccount, sampleAccounts, if_true]
  rw [evaluateJson_acceptance ((parseBetJson_event hevent).mpr ⟨hfits, rfl⟩) ?_ hbalance
    hstakeCents ?_]
  · rfl
  · show 1787659200000 - event.betTimestampMs ≤ staleQuoteProtectionMs
    rw [hms]
    decide
  · show 0 + event.potentialPayoutCents ≤ 1000000
    omega

section Sample

attribute [local instance] insertionOrder

/-- The result of the schema's example validates with the example's values. -/
theorem accepted_result_validates_iff_sample :
    ∃ event resultEvent,
      Ingress.submittedEvent (fun _ => 0) (fun _ _ => 0) (Uuid.text 7) Ingress.sampleRequest =
        .ok event ∧
      eventOf (toJson (evaluateJson 1000000 sampleAccounts 1787659200000
        (utf8 event.modelDumpJson)).1) = some resultEvent ∧
      SameBet resultEvent event.toBetSubmittedFields := by
  obtain ⟨event, hevent⟩ := (@Ingress.exists_submittedEvent_iff (fun _ => 0) (fun _ _ => 0) 7
    Ingress.sampleRequest).mpr
      ⟨1787659200000, rfl, by decide⟩
  have haccepted := sample_accepted hevent sampleRequest_fitsEngine rfl
    (by norm_num [Ingress.sampleRequest, Decimal.magnitude])
    (by norm_num [Ingress.sampleRequest, Decimal.magnitude])
  have hrange : OddsInRange Ingress.sampleRequest := by
    norm_num [OddsInRange, Ingress.sampleRequest, Decimal.magnitude]
  obtain ⟨resultEvent, hresult, hsame⟩ := (accepted_result_validates_iff hevent
    ⟨by decide, by decide⟩ ⟨by decide, by decide⟩ sampleAccounts_fits haccepted).mpr hrange
  exact ⟨event, resultEvent, hevent, hresult, hsame⟩

end Sample

/-- The even request passes validation, the engine accepts it, and settlement discards
the result. -/
theorem even_bet_discarded :
    ∃ event,
      Ingress.submittedEvent (fun _ => 0) (fun _ _ => 0) (Uuid.text 7) evenRequest = .ok event ∧
      ∀ _ : FieldOrder,
        (evaluateJson 1000000 sampleAccounts 1787659200000 (utf8 event.modelDumpJson)).1.accepted ∧
        ∀ resultEvent, eventOf (toJson (evaluateJson 1000000 sampleAccounts 1787659200000
          (utf8 event.modelDumpJson)).1) ≠ some resultEvent := by
  obtain ⟨event, hevent⟩ := (@Ingress.exists_submittedEvent_iff (fun _ => 0) (fun _ _ => 0) 7
    evenRequest).mpr
      ⟨1787659200000, rfl, by decide⟩
  refine ⟨event, hevent, fun _ => ?_⟩
  have haccepted := sample_accepted hevent sampleRequest_fitsEngine rfl
    (by norm_num [evenRequest, Ingress.BetCreateRequest.withPayout, Ingress.sampleRequest,
      Decimal.magnitude])
    (by norm_num [evenRequest, Ingress.BetCreateRequest.withPayout, Ingress.sampleRequest,
      Decimal.magnitude])
  refine ⟨haccepted, fun resultEvent hvalidated => ?_⟩
  obtain ⟨exposure, remaining, hresult, hfits, hints⟩ := accepted_result hevent
    ⟨by decide, by decide⟩ ⟨by decide, by decide⟩ sampleAccounts_fits haccepted
  rw [hresult] at hvalidated
  have hin := oddsInRange_of_eventOf hevent hfits hints hvalidated
  norm_num [OddsInRange, evenRequest, Ingress.BetCreateRequest.withPayout, Ingress.sampleRequest,
    Decimal.magnitude] at hin

end Wire
end BettingPlatform
