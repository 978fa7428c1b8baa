import BettingPlatform.Wire.EngineReader

/-!
# From ingress to the risk engine

The ingress service validates a bet and publishes it; the risk engine decides what it can
parse.  A bet that ingress accepts and the engine refuses has been answered with success
and vanishes.

Main results:

- Theorem `submitted_bet_accepted_iff`: a published bet is accepted, with all its values,
  exactly when its three free texts fit the engine.
-/

namespace BettingPlatform
namespace Wire

open Python RiskEngine

/-! ## Texts that always fit -/

/-- A short text of printable ASCII characters fits. -/
theorem fitsEngine_of_ascii {s : String} (hs : ∀ c ∈ s.toList, 0x20 ≤ c.toNat ∧ c.toNat < 128)
    (hlength : s.length ≤ 128) : FitsEngine s := by
  refine ⟨fun c hc => Or.inl (hs c hc).1, ?_⟩
  have hbytes : utf8 s = s.toList.map ascii := by
    rw [← utf8_ofList_of_ascii fun c hc => (hs c hc).2, String.ofList_toList]
  rw [hbytes, List.length_map, String.length_toList]
  exact hlength

/-- A hexadecimal digit is printable. -/
theorem printable_digitChar {d : Nat} (hd : d < 16) :
    0x20 ≤ (Nat.digitChar d).toNat ∧ (Nat.digitChar d).toNat < 128 := by
  have hdigits : ∀ d : Fin 16,
      0x20 ≤ (Nat.digitChar d).toNat ∧ (Nat.digitChar d).toNat < 128 := by
    decide
  exact hdigits ⟨d, hd⟩

/-- The canonical text of a UUID fits. -/
theorem fitsEngine_uuid (id : Uuid) : FitsEngine id.text := by
  refine fitsEngine_of_ascii (fun c hc => ?_) (by simp [Uuid.text_length])
  rcases Uuid.mem_text hc with rfl | ⟨d, hd, rfl⟩
  · decide
  · exact printable_digitChar hd

/-- A digest fits the engine's strings. -/
theorem fitsEngine_digest (n : Nat) : FitsEngine (String.ofList (toHex 64 n)) := by
  refine fitsEngine_of_ascii (fun c hc => ?_) (by simp [toHex_length])
  rw [String.toList_ofList] at hc
  obtain ⟨d, hd, rfl⟩ := mem_toHex hc
  exact printable_digitChar hd

/-- The text of odds fits. -/
theorem fitsEngine_odds {coeff : Nat} (hdigits : 4 < Decimal.numDigits coeff)
    (hlength : Decimal.numDigits coeff ≤ 127) : FitsEngine (Decimal.str ⟨false, coeff, -4⟩) := by
  have hdigit : ∀ c ∈ Nat.toDigits 10 coeff, 0x20 ≤ c.toNat ∧ c.toNat < 128 := by
    intro c hc
    have hc' := Nat.isDigit_of_mem_toDigits (by decide) (by decide) hc
    have hrange := Char.isDigit_iff_toNat.mp hc'
    exact ⟨(by decide : 0x20 ≤ '0'.toNat).trans hrange.1, toNat_lt_of_isDigit hc'⟩
  have htext := @Decimal.text_of_places _ 4 (by decide) hdigits
  rw [Nat.cast_ofNat] at htext
  refine fitsEngine_of_ascii (fun c hc => ?_) ?_
  · rw [Decimal.str, String.toList_ofList, htext] at hc
    rcases List.mem_append.mp hc with hc | hc
    · exact hdigit c (List.mem_of_mem_take hc)
    · rcases List.mem_cons.mp hc with rfl | hc
      · decide
      · exact hdigit c (List.mem_of_mem_drop hc)
  · have hlen := @Decimal.length_str_of_places _ 4 (by decide) hdigits
    rw [Nat.cast_ofNat] at hlen
    omega

/-! ## The contract -/

/-- The event as the engine is meant to see it. -/
def onWire (fields : Ingress.BetSubmittedFields) : BetSubmitted where
  eventId := utf8 fields.eventId
  betId := utf8 fields.betId
  accountId := utf8 fields.accountId
  idempotencyKey := utf8 fields.idempotencyKey
  matchId := utf8 fields.matchId
  marketId := utf8 fields.marketId
  selectionId := utf8 fields.selectionId
  odds := utf8 fields.odds
  stakeCents := fields.stakeCents
  potentialPayoutCents := fields.potentialPayoutCents
  betTimestampMs := fields.betTimestampMs

/-- The names of the submitted object. -/
theorem members_names (fields : Ingress.BetSubmittedFields) :
    fields.members.map Prod.fst = ["event_id", "bet_id", "account_id", "idempotency_key",
      "match_id", "market_id", "selection_id", "stake_cents", "potential_payout_cents", "odds",
      "bet_timestamp_ms"] :=
  rfl

/-- The engine accepts the JSON of valid fields exactly when every text fits and every
number has 64 bits, and then with all their values. -/
theorem parseBetJson_fields [FieldOrder] {fields : Ingress.BetSubmittedFields}
    (hvalid : fields.Valid) (hle : fields.stakeCents ≤ fields.potentialPayoutCents)
    {bet : BetSubmitted} :
    parseBetJson (encode (objectText Ingress.unicodeEscape fields.members)) = .ok bet ↔
      (∀ s ∈ [fields.eventId, fields.betId, fields.accountId, fields.idempotencyKey,
        fields.matchId, fields.marketId, fields.selectionId, fields.odds], FitsEngine s) ∧
      (∀ n ∈ [fields.stakeCents, fields.potentialPayoutCents, fields.betTimestampMs],
        IsInt64 n) ∧
      bet = onWire fields := by
  have hnames : ∀ m ∈ fields.members, PlainName m.1 := by
    intro m hm
    have hmem : m.1 ∈ fields.members.map Prod.fst := List.mem_map_of_mem hm
    rw [members_names] at hmem
    revert hmem
    generalize m.1 = name
    revert name
    decide
  have hnodup : (fields.members.map Prod.fst).Nodup := by
    rw [members_names]
    decide
  have hallowed : ∀ name ∈ fields.members.map Prod.fst, utf8 name ∈ allowed := by
    rw [members_names]
    decide
  have hlength : ∀ s ∈ [fields.eventId, fields.betId, fields.accountId, fields.idempotencyKey,
      fields.matchId, fields.marketId, fields.selectionId], 1 ≤ s.length :=
    fun s hs => (hvalid.strings s hs).1
  simp only [List.forall_mem_cons, List.not_mem_nil, false_implies, implies_true, and_true]
    at hlength ⊢
  obtain ⟨h₁, h₂, h₃, h₄, h₅, h₆, h₇⟩ := hlength
  have hstring : ∀ {obj : ParsedObject}, fields.members.mapM engineMember = some obj →
      ∀ {name : String} {s : String} {b : Bytes}, fields.members.lookup name = some (.str s) →
        1 ≤ s.length → (requiredString obj (utf8 name) = .ok b ↔ FitsEngine s ∧ b = utf8 s) := by
    intro obj hobj name s b hlookup hs
    exact requiredString_eq_ok_iff (by rw [get?_of_mapM hobj, hlookup, Option.bind_some]) hs
  have hint : ∀ {obj : ParsedObject}, fields.members.mapM engineMember = some obj →
      ∀ {name : String} {n m : Int}, fields.members.lookup name = some (.int n) →
        (requiredI64 obj (utf8 name) = .ok m ↔ IsInt64 n ∧ n = m) := by
    intro obj hobj name n m hlookup
    exact requiredI64_eq_ok_iff (by rw [get?_of_mapM hobj, hlookup, Option.bind_some])
  rw [parseBetJson_eq_ok_iff]
  simp only [parseObject_objectText hnames hnodup]
  constructor
  · rintro ⟨obj, hobj, -, h⟩
    obtain ⟨f₁, hb₁⟩ := (hstring hobj rfl h₁).mp h.eventId
    obtain ⟨f₂, hb₂⟩ := (hstring hobj rfl h₂).mp h.betId
    obtain ⟨f₃, hb₃⟩ := (hstring hobj rfl h₃).mp h.accountId
    obtain ⟨f₄, hb₄⟩ := (hstring hobj rfl h₄).mp h.idempotencyKey
    obtain ⟨f₅, hb₅⟩ := (hstring hobj rfl h₅).mp h.matchId
    obtain ⟨f₆, hb₆⟩ := (hstring hobj rfl h₆).mp h.marketId
    obtain ⟨f₇, hb₇⟩ := (hstring hobj rfl h₇).mp h.selectionId
    obtain ⟨f₈, hb₈⟩ := (hstring hobj rfl hvalid.odds.1).mp h.odds
    obtain ⟨i₁, hn₁⟩ := (hint hobj rfl).mp h.stakeCents
    obtain ⟨i₂, hn₂⟩ := (hint hobj rfl).mp h.potentialPayoutCents
    obtain ⟨i₃, hn₃⟩ := (hint hobj rfl).mp h.betTimestampMs
    refine ⟨⟨f₁, f₂, f₃, f₄, f₅, f₆, f₇, f₈⟩, ⟨i₁, i₂, i₃⟩, ?_⟩
    obtain ⟨eventId, betId, accountId, key, matchId, marketId, selectionId, odds, stake, payout,
      ts⟩ := bet
    simp_all [onWire]
  · rintro ⟨⟨f₁, f₂, f₃, f₄, f₅, f₆, f₇, f₈⟩, ⟨i₁, i₂, i₃⟩, rfl⟩
    obtain ⟨obj, hobj⟩ : ∃ obj, fields.members.mapM engineMember = some obj := by
      refine exists_mapM ?_
      simp [Ingress.BetSubmittedFields.members, engineField, f₁.1, f₂.1, f₃.1, f₄.1, f₅.1, f₆.1,
        f₇.1, f₈.1]
    refine ⟨obj, hobj, fun field hfield => ?_, ?_⟩
    · obtain ⟨name, hname, heq⟩ := name_of_mapM hobj hfield
      rw [heq]
      exact hallowed name hname
    · exact ⟨(hstring hobj rfl h₁).mpr ⟨f₁, rfl⟩, (hstring hobj rfl h₂).mpr ⟨f₂, rfl⟩,
        (hstring hobj rfl h₃).mpr ⟨f₃, rfl⟩, (hstring hobj rfl h₄).mpr ⟨f₄, rfl⟩,
        (hstring hobj rfl h₅).mpr ⟨f₅, rfl⟩, (hstring hobj rfl h₆).mpr ⟨f₆, rfl⟩,
        (hstring hobj rfl h₇).mpr ⟨f₇, rfl⟩, (hstring hobj rfl hvalid.odds.1).mpr ⟨f₈, rfl⟩,
        (hint hobj rfl).mpr ⟨i₁, rfl⟩, (hint hobj rfl).mpr ⟨i₂, rfl⟩,
        (hint hobj rfl).mpr ⟨i₃, rfl⟩, hvalid.stake_pos, hle, hvalid.timestamp_pos⟩

/-- The published JSON is the object of the event's members. -/
theorem utf8_modelDumpJson (event : Ingress.BetSubmittedEvent) :
    utf8 event.modelDumpJson = encode (objectText Ingress.unicodeEscape event.members) :=
  utf8_ofList _

section Contract

variable {sha256 : Bytes → Fin (2 ^ 256)} {uuid5 : Uuid → String → Uuid}

/-- The engine accepts an event that ingress built exactly when the three texts of the
request fit, and then with all the event's values. -/
theorem parseBetJson_event [FieldOrder] {user : Uuid} {request : Ingress.BetCreateRequest}
    {event : Ingress.BetSubmittedEvent}
    (hevent : Ingress.submittedEvent sha256 uuid5 user.text request = .ok event)
    {bet : BetSubmitted} :
    parseBetJson (utf8 event.modelDumpJson) = .ok bet ↔
      (∀ s ∈ [request.matchId, request.marketId, request.selectionId], FitsEngine s) ∧
        bet = onWire event.toBetSubmittedFields := by
  have hfields := Ingress.submittedEvent_eq_ok hevent
  obtain ⟨s, n, hs, hn, hspos, hle, hlt⟩ := hfields.cents
  obtain ⟨id, heventId, hbetId⟩ := hfields.ids
  obtain ⟨digest, hkey⟩ := hfields.idempotencyKey
  obtain ⟨hlow, hhigh⟩ := Ingress.odds_bounds hspos hle hlt
  have hodds : FitsEngine event.odds := by
    rw [hfields.odds_eq hs hn]
    refine fitsEngine_odds ?_ ?_
    · by_contra hfew
      have hsmall := (Decimal.numDigits_le_iff (by decide)).mp (not_lt.mp hfew)
      omega
    · exact ((Decimal.numDigits_le_iff (k := 23) (by decide)).mpr hhigh).trans (by decide)
  obtain ⟨ms, hms, hms64⟩ :=
    Ingress.timestampToEpochMs_eq_ok request.timestamp_range.1 request.timestamp_range.2
  obtain rfl := Except.ok.inj (hms.symm.trans hfields.timestamp)
  have hint : ∀ n ∈ [event.stakeCents, event.potentialPayoutCents, event.betTimestampMs],
      IsInt64 n := by
    have hts := event.valid.timestamp_pos
    simp only [List.forall_mem_cons, List.not_mem_nil, false_implies, implies_true, and_true,
      IsInt64, hs, hn]
    omega
  rw [utf8_modelDumpJson, parseBetJson_fields event.valid (by omega), and_iff_right hint]
  simp only [List.forall_mem_cons, List.not_mem_nil, false_implies, implies_true, and_true,
    heventId, hbetId, hfields.accountId, hkey, hfields.matchId, hfields.marketId,
    hfields.selectionId, hodds, fitsEngine_uuid, fitsEngine_digest, true_and]

/-- A bet is published exactly when its timestamp has reached the first millisecond, and
the engine accepts what was published exactly when the three texts of the request fit,
with all the event's values. -/
theorem submitted_bet_accepted_iff [FieldOrder] (topic : String) (user : Uuid)
    (request : Ingress.BetCreateRequest) :
    ((∃ published, Ingress.submitBet sha256 uuid5 topic user.text request = .ok published) ↔
      ∃ ms, Ingress.timestampToEpochMs request.timestamp = .ok ms ∧ 0 < ms) ∧
    ∀ publication response,
      Ingress.submitBet sha256 uuid5 topic user.text request = .ok (publication, response) →
      ∃ event, Ingress.submittedEvent sha256 uuid5 user.text request = .ok event ∧
        publication.payloadJson = event.modelDumpJson ∧
        ∀ bet, parseBetJson (utf8 publication.payloadJson) = .ok bet ↔
          (∀ s ∈ [request.matchId, request.marketId, request.selectionId], FitsEngine s) ∧
            bet = onWire event.toBetSubmittedFields := by
  constructor
  · rw [← @Ingress.exists_submittedEvent_iff sha256 uuid5 user request]
    unfold Ingress.submitBet
    cases Ingress.submittedEvent sha256 uuid5 user.text request <;> simp [bind, Except.bind]
  · intro publication response h
    obtain ⟨event, hevent, h⟩ := bind_eq_ok_iff.mp h
    obtain ⟨rfl, -⟩ := Prod.mk.inj (Except.ok.inj h)
    exact ⟨event, hevent, rfl, fun bet => parseBetJson_event hevent⟩

end Contract

/-- The texts of the schema's example fit the engine. -/
theorem sampleRequest_fitsEngine :
    ∀ s ∈ [Ingress.sampleRequest.matchId, Ingress.sampleRequest.marketId,
      Ingress.sampleRequest.selectionId], FitsEngine s := by
  decide +kernel

section Sample

attribute [local instance] insertionOrder

/-- The engine accepts what is published for the schema's example. -/
theorem submitted_bet_accepted_iff_sample :
    ∃ publication response bet,
      Ingress.submitBet (fun _ => 0) (fun _ _ => 0) "bets-submitted" (Uuid.text 7)
        Ingress.sampleRequest = .ok (publication, response) ∧
      parseBetJson (utf8 publication.payloadJson) = .ok bet := by
  obtain ⟨hpublished, haccepted⟩ := @submitted_bet_accepted_iff (fun _ => 0) (fun _ _ => 0)
    _ "bets-submitted" 7 Ingress.sampleRequest
  obtain ⟨⟨publication, response⟩, h⟩ := hpublished.mpr ⟨1787659200000, rfl, by decide⟩
  obtain ⟨event, -, -, hbet⟩ := haccepted publication response h
  exact ⟨publication, response, onWire event.toBetSubmittedFields, h,
    (hbet _).mpr ⟨sampleRequest_fitsEngine, rfl⟩⟩

end Sample

/-- A request whose match id has 128 characters, each of two bytes. -/
def wideRequest : Ingress.BetCreateRequest :=
  { Ingress.sampleRequest with
    matchId := String.ofList (List.replicate 128 '\u00e9')
    matchId_length := by
      rw [Ingress.HasLength, String.length_ofList, List.length_replicate]
      decide }

/-- It passes validation and is published, and the engine refuses it. -/
theorem wide_bet_refused :
    ∃ publication response,
      Ingress.submitBet (fun _ => 0) (fun _ _ => 0) "bets-submitted" (Uuid.text 7) wideRequest =
        .ok (publication, response) ∧
      ∀ (_ : FieldOrder) (bet : BetSubmitted),
        parseBetJson (utf8 publication.payloadJson) ≠ .ok bet := by
  obtain ⟨event, hevent⟩ := (@Ingress.exists_submittedEvent_iff (fun _ => 0) (fun _ _ => 0) 7
    wideRequest).mpr
      ⟨1787659200000, rfl, by decide⟩
  refine ⟨_, _, by rw [Ingress.submitBet, hevent]; rfl, fun _ bet hbet => ?_⟩
  have hfits := ((parseBetJson_event hevent).mp hbet).1 wideRequest.matchId List.mem_cons_self
  rw [FitsEngine, show wideRequest.matchId = String.ofList (List.replicate 128 '\u00e9') from rfl,
    utf8_ofList, List.flatMap_replicate, List.length_flatten, List.map_replicate,
    List.sum_replicate_nat] at hfits
  exact absurd hfits.2 (by decide)

end Wire
end BettingPlatform
