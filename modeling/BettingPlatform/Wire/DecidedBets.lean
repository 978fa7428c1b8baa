import BettingPlatform.RiskEngine.ResultText
import BettingPlatform.Wire.Results

/-!
# Decided bets on the wire

Whatever the engine decides, the event that settlement validates from the result has the
values of the bet in the payload: the engine's parser lets no text through that its own
encoder would change.

Main results:

- Theorem `isReadable_of_text`: decoded texts come back from the encoder unchanged.
- Theorem `eventOf_evaluateJson`: what a validated event has of the payload and the decision.
-/

namespace BettingPlatform
namespace Wire

open Python RiskEngine Settlement

/-! ## Decoded texts -/

/-- A text that the engine has decoded has no character that its encoder would replace. -/
theorem isReadable_of_text {s : String} (h : (utf8 s).all isTextByte) : IsReadable s := by
  intro c hc
  by_cases hcontrol : c.toNat < 0x20
  · have hall : ∀ n : Fin 32, isTextByte (ascii (Char.ofNat n)) →
        (shortEscape (Char.ofNat n)).isSome := by
      decide +kernel
    have hshort := hall ⟨c.toNat, hcontrol⟩
    rw [Char.ofNat_toNat] at hshort
    refine Or.inr (hshort ?_)
    refine List.all_eq_true.mp h (ascii c) ?_
    rw [utf8, List.mem_flatMap]
    refine ⟨c, hc, ?_⟩
    rw [utf8EncodeChar_of_ascii (by omega)]
    exact List.mem_singleton_self _
  · exact Or.inl (not_lt.mp hcontrol)

/-- A text that the engine can hold arrives unchanged. -/
theorem laundered_of_text {s : String} (h : (utf8 s).all isTextByte) : laundered s = s :=
  laundered_of_readable (isReadable_of_text h)

/-! ## The engine's decisions -/

/-- The result of a payload that parses has the bet's texts, and its flag and reason code
agree. -/
theorem evaluateJson_ofBet [FieldOrder] {cap now : Int} {s : Accounts} {payload : Bytes}
    {bet : BetSubmitted} (hparse : parseBetJson payload = .ok bet) :
    ∃ (code : ReasonCode) (reason : String) (exposure remaining : Int),
      (evaluateJson cap s now payload).1 =
        .ofBet bet now (code = .accepted) code (utf8 reason) exposure remaining ∧
      reason ≠ "" := by
  have hresult := @evaluated_evaluateJson _ cap now s payload bet hparse
  generalize evaluateJson cap s now payload = r at hresult
  cases hresult with
  | staleQuote => exact ⟨.staleQuote, _, _, _, rfl, by decide⟩
  | accountNotFound => exact ⟨.accountNotFound, _, _, _, rfl, by decide⟩
  | insufficientFunds => exact ⟨.insufficientFunds, _, _, _, rfl, by decide⟩
  | saecExceeded => exact ⟨.saecExceeded, _, _, _, rfl, by decide⟩
  | acceptance => exact ⟨.accepted, _, _, _, rfl, by decide⟩

/-- A validated event has the values of a bet and of the decision on it. -/
structure Reports (event : BetResultEvent) (bet : BetSubmitted) (result : BetResult) : Prop where
  betId : ∃ text, utf8 text = bet.betId ∧ Uuid.parse text = some event.betId
  userId : ∃ text, utf8 text = bet.accountId ∧ Uuid.parse text = some event.userId
  idempotencyKey : utf8 event.idempotencyKey = bet.idempotencyKey
  matchId : utf8 event.matchId = bet.matchId
  selectionId : utf8 event.selectionId = bet.selectionId
  stakeCents : event.stakeCents = bet.stakeCents
  odds : ∃ text d, utf8 text = bet.odds ∧ Decimal.ofString text = some d ∧ d.negative = false ∧
    d.scaled 4 = some event.odds.coeff
  status : statusFromResult event = .accepted ↔ result.accepted
  reason : utf8 event.rejectionReason = result.reason

/-- An event that settlement validates from the engine's result for a payload has the values
of the bet in the payload, and of the decision. -/
theorem eventOf_evaluateJson [FieldOrder] {cap now : Int} {s : Accounts} {payload : Bytes}
    {event : BetResultEvent}
    (h : eventOf (toJson (evaluateJson cap s now payload).1) = some event) :
    ∃ bet, parseBetJson payload = .ok bet ∧
      Reports event bet (evaluateJson cap s now payload).1 := by
  obtain ⟨fields, hfields, hcarries⟩ := eventOf_eq_some h
  have htexts := evaluateJson_texts cap now s payload
  rw [← hfields] at htexts
  simp only [BetResult.texts, ResultFields.result, List.forall_mem_cons] at htexts
  obtain ⟨-, hbetId, haccountId, hkey, hmatchId, hselectionId, hodds, -, hreason, -⟩ := htexts
  have hkeyText : event.idempotencyKey = fields.idempotencyKey := by
    have hvalue := Json.str.inj (Option.some.inj hcarries.idempotencyKey)
    rw [← hvalue]
    exact laundered_of_text hkey
  cases hparse : parseBetJson payload with
  | error e =>
      -- the key of an invalid payload is empty, which no event's is
      rw [evaluateJson_of_error hparse] at hfields
      have hempty : utf8 fields.idempotencyKey = utf8 "" := congrArg BetResult.idempotencyKey hfields
      have hlength := event.idempotencyKey_length.1
      rw [hkeyText, utf8_injective hempty] at hlength
      exact absurd hlength (by decide)
  | ok bet =>
      obtain ⟨code, reason, exposure, remaining, hresult, hne⟩ :=
        @evaluateJson_ofBet _ cap now s payload bet hparse
      refine ⟨bet, rfl, ?_⟩
      rw [hresult] at hfields ⊢
      have hfield : ∀ {α : Type} (f : BetResult → α), f fields.result =
          f (.ofBet bet now (code = .accepted) code (utf8 reason) exposure remaining) :=
        fun f => congrArg f hfields
      have hcode : fields.reasonCode = code := hfield BetResult.reasonCode
      have hreasonText : fields.reason = reason := utf8_injective (hfield BetResult.reason)
      have haccepted : event.accepted = decide (code = .accepted) :=
        (Json.bool.inj (Option.some.inj hcarries.accepted)).symm.trans (hfield BetResult.accepted)
      have heventCode : event.reasonCode = code.name := by
        have hvalue := Json.str.inj (Option.some.inj hcarries.reasonCode)
        rw [← hvalue, ← hcode]
        have hname : ∀ code : ReasonCode, laundered code.name = code.name := by
          intro code
          cases code <;> decide
        exact hname _
      have hread : ∀ {text value : String}, (utf8 text).all isTextByte → laundered text = value →
          utf8 value = utf8 text := by
        intro text value htext hvalue
        rw [← hvalue, laundered_of_text htext]
      refine ⟨⟨fields.betId, hfield BetResult.betId, ?_⟩, ⟨fields.accountId,
        hfield BetResult.accountId, ?_⟩, ?_, ?_, ?_, ?_, ?_, ?_, ?_⟩
      · have hvalue : Uuid.parse (laundered fields.betId) = some event.betId := hcarries.betId
        rwa [laundered_of_text hbetId] at hvalue
      · have hvalue : Uuid.parse (laundered fields.accountId) = some event.userId := hcarries.userId
        rwa [laundered_of_text haccountId] at hvalue
      · rw [hkeyText]
        exact hfield BetResult.idempotencyKey
      · rw [hread hmatchId (Json.str.inj (Option.some.inj hcarries.matchId))]
        exact hfield BetResult.matchId
      · rw [hread hselectionId (Json.str.inj (Option.some.inj hcarries.selectionId))]
        exact hfield BetResult.selectionId
      · exact (Json.int.inj (Option.some.inj hcarries.stakeCents)).symm.trans
          (hfield BetResult.stakeCents)
      · obtain ⟨text, d, htext, hd, hpositive, hscaled⟩ := hcarries.odds
        have hvalue := Json.str.inj (Option.some.inj htext)
        refine ⟨text, d, ?_, hd, hpositive, hscaled⟩
        rw [hread hodds hvalue]
        exact hfield BetResult.odds
      · rw [statusFromResult, haccepted, heventCode]
        cases code <;> simp [ReasonCode.name, BetResult.ofBet]
      · have hvalue : (reasonField (some (.str (laundered fields.reason)))).map Subtype.val =
            some event.reason := hcarries.reason
        rw [hreasonText] at hreason hvalue
        rw [laundered_of_text hreason] at hvalue
        obtain ⟨r, hr, hsome⟩ := Option.map_eq_some_iff.mp hvalue
        simp only [reasonField] at hr
        split at hr
        · obtain rfl := Option.some.inj hr
          simp [BetResultEvent.rejectionReason, ← hsome, hne, BetResult.ofBet]
        · exact absurd hr (by simp)

end Wire
end BettingPlatform
