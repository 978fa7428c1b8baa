import BettingPlatform.Foundations.Bytes
import BettingPlatform.Foundations.JsonText
import BettingPlatform.Foundations.DecimalRounding
import BettingPlatform.Settlement.Worker

/-!
# Messages of the results topic

`process_raw_message` parses a message of `bets-results`, validates it as a
`BetResultEvent` and hands it to `process_bet_result_event`.

The topic holds JSON objects that the risk engine wrote, in UTF-8.  Three kinds of messages
that the engine does not write are refused here and may pass in the code: values that lax
validation converts to a field's type, as odds in a JSON number, a stake in a string or 1 for
`true`; a byte order mark, which `json.loads` cuts off; and the escape of a surrogate without
its other half, which `json.loads` keeps and validation decides on.

Main results:

- Theorem `modelValidate_eq_some_iff`: which objects validate, and as which event.
-/

namespace BettingPlatform
namespace Settlement

open Python

/-! ## Validation -/

/-- `str` with `Field(min_length=1, max_length=n)`. -/
def strField (n : Nat) (value : Option Json) :
    Option { s : String // 1 ≤ s.length ∧ s.length ≤ n } :=
  match value with
  | some (.str s) => if h : 1 ≤ s.length ∧ s.length ≤ n then some ⟨s, h⟩ else none
  | _ => none

/-- `UUID`. -/
def uuidField (value : Option Json) : Option Uuid :=
  match value with
  | some (.str s) => Uuid.parse s
  | _ => none

/-- `int` with `Field(gt=0)`. -/
def intField (value : Option Json) : Option { n : Int // 0 < n } :=
  match value with
  | some (.int n) => if h : 0 < n then some ⟨n, h⟩ else none
  | _ => none

/-- What `Field(gt=Decimal("1.00"), max_digits=10, decimal_places=4)` and `normalize_odds`
leave of odds. -/
def IsOdds (d : Decimal) : Prop :=
  (d.negative = false ∧ d.exp = -4) ∧ 10000 < d.coeff ∧ d.coeff < 10 ^ 10

instance (d : Decimal) : Decidable (IsOdds d) := inferInstanceAs (Decidable (_ ∧ _))

/-- `Decimal` with `Field(gt=Decimal("1.00"), max_digits=10, decimal_places=4)`, and
`normalize_odds`. -/
def oddsField (value : Option Json) : Option { d : Decimal // IsOdds d } :=
  match value with
  | some (.str s) => do
      let d ← Decimal.ofString s
      let units ← d.scaled 4
      if d.negative = false ∧ 10000 < units ∧ units < 10 ^ 10 then
        let odds ← d.quantize (-4) .halfEven
        if h : IsOdds odds then some ⟨odds, h⟩ else none
      else none
  | _ => none

/-- `bool`. -/
def boolField (value : Option Json) : Option Bool :=
  match value with
  | some (.bool b) => some b
  | _ => none

theorem reason_length_some {s : String} (h : s.length ≤ 1024) :
    ∀ r ∈ some s, r.length ≤ 1024 := by
  simpa using h

/-- `str | None` with `Field(default=None, max_length=1024)`. -/
def reasonField (value : Option Json) : Option { r : Option String // ∀ s ∈ r, s.length ≤ 1024 } :=
  match value with
  | none | some .null => some ⟨none, reason_length_none⟩
  | some (.str s) => if h : s.length ≤ 1024 then some ⟨some s, reason_length_some h⟩ else none
  | _ => none

/-- `BetResultEvent.model_validate` of values that have the types of the fields; `none` is
`ValidationError`, which here also stands for values that lax mode would convert. -/
def BetResultEvent.modelValidate (payload : Json) : Option BetResultEvent :=
  match payload with
  | .dict items => do
      let ⟨eventId, eventId_length⟩ ← strField 128 (items.lookup "event_id")
      let betId ← uuidField (items.lookup "bet_id")
      let userId ← uuidField (items.lookup "account_id")
      let ⟨idempotencyKey, idempotencyKey_length⟩ ← strField 128 (items.lookup "idempotency_key")
      let ⟨matchId, matchId_length⟩ ← strField 128 (items.lookup "match_id")
      let ⟨selectionId, selectionId_length⟩ ← strField 128 (items.lookup "selection_id")
      let ⟨stakeCents, stake_pos⟩ ← intField (items.lookup "stake_cents")
      let ⟨odds, hodds⟩ ← oddsField (items.lookup "odds")
      let accepted ← boolField (items.lookup "accepted")
      let ⟨reasonCode, reasonCode_length⟩ ← strField 64 (items.lookup "reason_code")
      let ⟨reason, reason_length⟩ ← reasonField (items.lookup "reason")
      some
        { eventId, betId, userId, idempotencyKey, matchId, selectionId, stakeCents, odds, accepted
          reasonCode, reason, eventId_length, idempotencyKey_length, matchId_length
          selectionId_length, stake_pos, reasonCode_length, reason_length
          odds_normal := hodds.1
          odds_range := hodds.2 }
  | _ => none

/-! ## Processing -/

/-- `json.loads` of a message; `none` is a `ValueError`, here also for a byte order mark and for
a surrogate without its other half. -/
def loadsMessage (raw : Bytes) : Option Json :=
  (utf8Decode raw).bind fun text => loads text.toList

/-- `process_raw_message`. -/
def processRawMessage (raw : Bytes) (db : Database) : Except Raised (Bool × Database) :=
  match loadsMessage raw with
  | none => .error (.python .valueError)
  | some payload =>
      match BetResultEvent.modelValidate payload with
      | none => .ok (false, db)
      | some event =>
          match processBetResultEvent event db with
          | .error (.sql .integrityError) => .ok (false, db)
          | outcome => outcome

/-- The event a message of the results topic is validated as. -/
def eventOf (raw : Bytes) : Option BetResultEvent :=
  (loadsMessage raw).bind BetResultEvent.modelValidate

/-- `process_raw_message` of a message in terms of its event. -/
theorem processRawMessage_eq (raw : Bytes) (db : Database) :
    processRawMessage raw db =
      match loadsMessage raw with
      | none => .error (.python .valueError)
      | some _ =>
          match eventOf raw with
          | none => .ok (false, db)
          | some event =>
              match processBetResultEvent event db with
              | .error (.sql .integrityError) => .ok (false, db)
              | outcome => outcome := by
  unfold processRawMessage eventOf
  cases loadsMessage raw <;> rfl

/-- The items of an object are an event's fields. -/
structure Carries (items : List (String × Json)) (event : BetResultEvent) : Prop where
  eventId : items.lookup "event_id" = some (.str event.eventId)
  betId : uuidField (items.lookup "bet_id") = some event.betId
  userId : uuidField (items.lookup "account_id") = some event.userId
  idempotencyKey : items.lookup "idempotency_key" = some (.str event.idempotencyKey)
  matchId : items.lookup "match_id" = some (.str event.matchId)
  selectionId : items.lookup "selection_id" = some (.str event.selectionId)
  stakeCents : items.lookup "stake_cents" = some (.int event.stakeCents)
  odds : ∃ s d, items.lookup "odds" = some (.str s) ∧ Decimal.ofString s = some d ∧
    d.negative = false ∧ d.scaled 4 = some event.odds.coeff
  accepted : items.lookup "accepted" = some (.bool event.accepted)
  reasonCode : items.lookup "reason_code" = some (.str event.reasonCode)
  reason : (reasonField (items.lookup "reason")).map Subtype.val = some event.reason

/-- A text field takes the texts of its length. -/
theorem strField_eq_some_iff {n : Nat} {value : Option Json}
    {s : { s : String // 1 ≤ s.length ∧ s.length ≤ n }} :
    strField n value = some s ↔ value = some (.str s) := by
  obtain ⟨s, hs⟩ := s
  unfold strField
  split
  · rename_i t
    split
    · simp
    · rename_i hlength
      simp only [Option.some.injEq, Json.str.injEq, reduceCtorEq, false_iff]
      rintro rfl
      exact hlength hs
  · rename_i hother
    simp only [reduceCtorEq, false_iff]
    exact hother s

/-- An integer field takes the positive integers. -/
theorem intField_eq_some_iff {value : Option Json} {n : { n : Int // 0 < n }} :
    intField value = some n ↔ value = some (.int n) := by
  obtain ⟨n, hn⟩ := n
  unfold intField
  split
  · rename_i m
    split
    · simp
    · rename_i hpos
      simp only [Option.some.injEq, Json.int.injEq, reduceCtorEq, false_iff]
      rintro rfl
      exact hpos hn
  · rename_i hother
    simp only [reduceCtorEq, false_iff]
    exact hother n

/-- A boolean field takes the booleans. -/
theorem boolField_eq_some_iff {value : Option Json} {b : Bool} :
    boolField value = some b ↔ value = some (.bool b) := by
  unfold boolField
  split
  · simp
  · rename_i hother
    simp only [reduceCtorEq, false_iff]
    exact hother b

/-- Odds validate when they are greater than 1 and fit four places and six digits before
the point; normalizing them changes their value no more. -/
theorem oddsField_eq_some_iff {value : Option Json} {odds : { d : Decimal // IsOdds d }} :
    oddsField value = some odds ↔
      ∃ s d, value = some (.str s) ∧ Decimal.ofString s = some d ∧ d.negative = false ∧
        d.scaled 4 = some odds.val.coeff := by
  obtain ⟨odds, hodds⟩ := odds
  unfold oddsField
  split
  · rename_i s
    constructor
    · intro h
      obtain ⟨d, hd, h⟩ := Option.bind_eq_some_iff.mp h
      obtain ⟨units, hunits, h⟩ := Option.bind_eq_some_iff.mp h
      split at h
      · rename_i hrange
        obtain ⟨q, hq, h⟩ := Option.bind_eq_some_iff.mp h
        have hfits : Decimal.numDigits units ≤ Decimal.prec :=
          ((Decimal.numDigits_le_iff (by decide)).mpr hrange.2.2).trans (by decide)
        have hexact := Decimal.quantize_of_scaled .halfEven hunits hfits
        rw [Nat.cast_ofNat, hq, Option.some.injEq] at hexact
        subst hexact
        split at h
        · obtain rfl : _ = odds := by simpa using h
          exact ⟨s, d, rfl, hd, hrange.1, hunits⟩
        · contradiction
      · contradiction
    · rintro ⟨_, d, ⟨⟩, hd, hnegative, hunits⟩
      have hrange : d.negative = false ∧ 10000 < odds.coeff ∧ odds.coeff < 10 ^ 10 :=
        ⟨hnegative, hodds.2⟩
      have hfits : Decimal.numDigits odds.coeff ≤ Decimal.prec :=
        ((Decimal.numDigits_le_iff (by decide)).mpr hodds.2.2).trans (by decide)
      have hexact : d.quantize (-4) .halfEven = some odds := by
        have hself : odds = ⟨false, odds.coeff, -4⟩ := by
          rw [← hodds.1.1, ← hodds.1.2]
        rw [hself, ← hnegative]
        exact Decimal.quantize_of_scaled .halfEven hunits hfits
      simp only [hd, hunits, Option.bind_eq_bind, Option.bind_some]
      rw [if_pos hrange, hexact, Option.bind_some, dif_pos hodds]
  · rename_i hother
    simp only [reduceCtorEq, false_iff]
    rintro ⟨s, d, rfl, -⟩
    exact hother s rfl

/-- An object validates as exactly the event whose fields it carries. -/
theorem modelValidate_eq_some_iff {items : List (String × Json)} {event : BetResultEvent} :
    BetResultEvent.modelValidate (.dict items) = some event ↔ Carries items event := by
  unfold BetResultEvent.modelValidate
  simp only [Option.bind_eq_bind, Option.bind_eq_some_iff, strField_eq_some_iff,
    intField_eq_some_iff, boolField_eq_some_iff, oddsField_eq_some_iff]
  constructor
  · rintro ⟨eventId, heventId, betId, hbetId, userId, huserId, key, hkey, matchId, hmatchId,
      selectionId, hselectionId, stake, hstake, odds, hodds, accepted, haccepted, code, hcode,
      reason, hreason, h⟩
    obtain rfl := Option.some.inj h
    exact ⟨heventId, hbetId, huserId, hkey, hmatchId, hselectionId, hstake, hodds, haccepted,
      hcode, by rw [hreason]; rfl⟩
  · intro h
    obtain ⟨reason, hreason, hvalue⟩ := Option.map_eq_some_iff.mp h.reason
    refine ⟨⟨event.eventId, event.eventId_length⟩, h.eventId, event.betId, h.betId, event.userId,
      h.userId, ⟨event.idempotencyKey, event.idempotencyKey_length⟩, h.idempotencyKey,
      ⟨event.matchId, event.matchId_length⟩, h.matchId,
      ⟨event.selectionId, event.selectionId_length⟩, h.selectionId,
      ⟨event.stakeCents, event.stake_pos⟩, h.stakeCents,
      ⟨event.odds, event.odds_normal, event.odds_range⟩, h.odds, event.accepted, h.accepted,
      ⟨event.reasonCode, event.reasonCode_length⟩, h.reasonCode, reason, hreason, ?_⟩
    obtain ⟨reason, hlength⟩ := reason
    subst hvalue
    rfl

end Settlement
end BettingPlatform
