import BettingPlatform.RiskEngine.AtomicSteps
import BettingPlatform.RiskEngine.QuotedFields
import BettingPlatform.RiskEngine.ResultText

/-!
# The published schema of results

`schemas/bets-results.schema.json` against the texts that `to_json` writes.  The integers
and the reason codes always conform; of the texts, the engine bounds neither the length of
`odds` by the schema's bound, nor the length of the names it quotes in error messages, nor
does it look at their encoding.

Main results:

- Theorem `EngineState.exposure_nonneg`: in no engine state is an open exposure negative.
- Theorem `members_hold_iff`: when the members of a result satisfy their properties.
- Theorem `toJson_conforms_iff`: which payloads have a result that conforms.
-/

namespace BettingPlatform
namespace RiskEngine

open JsonGrammar

/-! ## The schema -/

/-- The constraints on the value of one member. -/
inductive Property
  | string (minLength maxLength : Nat)
  | integer (minimum : Int)
  | boolean
  | enum (values : List Bytes)

/-- A UTF-8 text with so many characters. -/
def HasLength (v : Bytes) (minLength maxLength : Nat) : Prop :=
  ∃ s : String, utf8 s = v ∧ minLength ≤ s.length ∧ s.length ≤ maxLength

/-- The value satisfies the constraints. -/
def Property.Holds : Property → Value → Prop
  | .string minLength maxLength, .str v => HasLength v minLength maxLength
  | .integer minimum, .int n => minimum ≤ n
  | .boolean, .bool _ => True
  | .enum values, .str v => v ∈ values
  | _, _ => False

/-- `properties` of `bets-results.schema.json`. -/
def resultProperties : List (Bytes × Property) :=
  [(utf8 "event_id", .string 0 128), (utf8 "bet_id", .string 0 128),
    (utf8 "account_id", .string 0 128), (utf8 "idempotency_key", .string 0 128),
    (utf8 "match_id", .string 0 128), (utf8 "selection_id", .string 0 128),
    (utf8 "stake_cents", .integer 0), (utf8 "odds", .string 0 32), (utf8 "accepted", .boolean),
    (utf8 "reason_code", .enum (["ACCEPTED", "SCHEMA_INVALID", "STALE_QUOTE",
      "ACCOUNT_NOT_FOUND", "INSUFFICIENT_FUNDS", "SAEC_EXCEEDED"].map utf8)),
    (utf8 "reason", .string 1 512), (utf8 "accepted_exposure_cents", .integer 0),
    (utf8 "remaining_balance_cents", .integer 0), (utf8 "decision_timestamp_ms", .integer 1)]

/-- `required` of `bets-results.schema.json`. -/
def requiredMembers : List Bytes :=
  ["event_id", "bet_id", "account_id", "idempotency_key", "match_id", "selection_id",
    "stake_cents", "odds", "accepted", "reason_code", "reason", "accepted_exposure_cents",
    "remaining_balance_cents", "decision_timestamp_ms"].map utf8

/-- A JSON text that conforms to the schema: an object with the required members, no member
twice, and each one of a property of the schema and within its constraints. -/
def Conforms (text : Bytes) : Prop :=
  IsUtf8 text ∧ ∃ members, IsObject StringToken text members ∧
    (members.map Prod.fst).Nodup ∧ (∀ name ∈ requiredMembers, name ∈ members.map Prod.fst) ∧
    ∀ m ∈ members, ∃ property, (m.1, property) ∈ resultProperties ∧ property.Holds m.2

/-! ## Engine states -/

/-- An engine that has been constructed and nothing else. -/
def Accounts.fresh : Accounts where
  balances := fun _ => none
  exposure := fun _ => 0

/-- The states of an engine: whatever `set_balance` and the atomic steps of calls to
`evaluate_json`, in any order, lead to. -/
inductive EngineState [FieldOrder] (cap : Int) : Accounts → Prop
  | fresh : EngineState cap .fresh
  | setBalance {s : Accounts} (account : Bytes) (balance : Int) : EngineState cap s →
      EngineState cap (s.setBalance account balance)
  | advance {s s' : Accounts} {payload : Bytes} {call call' : Call} {move : Move} :
      EngineState cap s → call.Faithful payload →
      advance cap (fun _ : Unit => payload) () s call move = some (s', call') →
      EngineState cap s'

/-- No exposure is negative. -/
theorem EngineState.exposure_nonneg [FieldOrder] {cap : Int} {s : Accounts} (h : EngineState cap s)
    (account : Bytes) : 0 ≤ s.exposure account := by
  induction h with
  | fresh => exact Int.le_refl 0
  | setBalance _ _ _ ih => exact ih
  | advance _ hfaithful hstep ih =>
      obtain hlocal | ⟨bet, now, current, rfl, -, -, rfl, rfl⟩ |
        ⟨bet, now, remaining, rfl, -, rfl, rfl⟩ | ⟨bet, now, remaining, rfl, rfl, rfl⟩ :=
        advance_cases hstep
      · exact hlocal.accounts ▸ ih
      · exact ih
      · have hvalid := hfaithful.valid bet rfl
        have hpayout := hvalid.stake_pos.trans_le hvalid.stake_le_payout
        by_cases hown : account = bet.accountId
        · subst hown
          simp only [Accounts.setExposure, Function.update_self]
          omega
        · simpa [Accounts.setExposure, Function.update_of_ne hown] using ih
      · rw [creditBalance_exposure]
        exact ih

/-! ## The encoding of the text -/

/-- ASCII is UTF-8. -/
theorem isUtf8_of_ascii {x : Bytes} (hx : ∀ b ∈ x, b.toNat < 128) : IsUtf8 x := by
  rw [← List.append_nil x, isUtf8_ascii_append hx]
  exact ⟨"", rfl⟩

/-- An escaped text is UTF-8 when the text is. -/
theorem isUtf8_jsonEscape {v : Bytes} (hv : IsUtf8 v) : IsUtf8 (jsonEscape v) := by
  obtain ⟨s, rfl⟩ := hv
  rw [utf8, jsonEscape]
  induction s.toList with
  | nil => exact ⟨"", rfl⟩
  | cons c cs ih =>
      rw [List.flatMap_cons, List.flatMap_append]
      refine IsUtf8.append ?_ ih
      by_cases hc : c.toNat < 128
      · rw [utf8EncodeChar_of_ascii hc, List.flatMap_singleton]
        exact isUtf8_of_ascii (jsonEscapeByte_ascii (by rwa [toNat_ascii hc]))
      · have hwide : ∀ b ∈ String.utf8EncodeChar c, jsonEscapeByte b = [b] := fun b hb =>
          jsonEscapeByte_wide (le_of_mem_utf8EncodeChar (not_lt.mp hc) hb)
        have hself : (String.utf8EncodeChar c).flatMap jsonEscapeByte =
            String.utf8EncodeChar c := by
          rw [List.flatMap_congr hwide, List.flatMap_singleton']
        rw [hself]
        exact ⟨String.ofList [c], by rw [utf8_ofList, List.flatMap_singleton]⟩

/-- An integer is written in ASCII. -/
theorem isUtf8_intDigits (n : Int) : IsUtf8 (intDigits n) := by
  obtain ⟨sign, digits, hdigits, hsign, -, hall⟩ := intDigits_cases n
  rw [hdigits]
  refine isUtf8_of_ascii fun b hb => ?_
  rcases List.mem_append.mp hb with hb | hb
  · rcases hsign with rfl | rfl
    · contradiction
    · rw [List.mem_singleton.mp hb]
      decide
  · have hdigit := hall b hb
    simp only [isDigit, Bool.and_eq_true, decide_eq_true_eq, UInt8.le_iff_toNat_le] at hdigit
    exact Nat.lt_of_le_of_lt hdigit.2 (by decide)

/-- A member is UTF-8 when its text is. -/
theorem isUtf8_stringMember (name : String) {v : Bytes} (hv : IsUtf8 v) :
    IsUtf8 (stringMember name v) :=
  ((isUtf8_utf8 _).append (isUtf8_jsonEscape hv)).append (isUtf8_utf8 _)

/-- The encoder's text is UTF-8 when the texts of the result are. -/
theorem isUtf8_toJson {result : BetResult} (h : ∀ text ∈ result.texts, IsUtf8 text) :
    IsUtf8 (toJson result) := by
  simp only [BetResult.texts, List.forall_mem_cons, List.not_mem_nil, false_implies,
    implies_true, and_true] at h
  obtain ⟨heventId, hbetId, haccountId, hkey, hmatchId, hselectionId, hodds, hcode, hreason⟩ := h
  have hdecision : IsUtf8 (if result.accepted then utf8 "true," else utf8 "false,") := by
    split <;> exact isUtf8_utf8 _
  unfold toJson
  simp only [List.append_assoc]
  refine (isUtf8_utf8 _).append ?_
  refine (isUtf8_stringMember _ heventId).append ?_
  refine (isUtf8_stringMember _ hbetId).append ?_
  refine (isUtf8_stringMember _ haccountId).append ?_
  refine (isUtf8_stringMember _ hkey).append ?_
  refine (isUtf8_stringMember _ hmatchId).append ?_
  refine (isUtf8_stringMember _ hselectionId).append ?_
  refine (isUtf8_utf8 _).append ((isUtf8_intDigits _).append ((isUtf8_utf8 _).append ?_))
  refine (isUtf8_stringMember _ hodds).append ?_
  refine (isUtf8_utf8 _).append (hdecision.append ?_)
  refine (isUtf8_stringMember _ hcode).append ?_
  refine (isUtf8_stringMember _ hreason).append ?_
  refine (isUtf8_utf8 _).append ((isUtf8_intDigits _).append ((isUtf8_utf8 _).append ?_))
  refine (isUtf8_utf8 _).append ((isUtf8_intDigits _).append ((isUtf8_utf8 _).append ?_))
  exact (isUtf8_utf8 _).append ((isUtf8_intDigits _).append (isUtf8_utf8 _))

/-! ## When a result conforms -/

/-- Only UTF-8 has a length in characters. -/
theorem HasLength.isUtf8 {v : Bytes} {m n : Nat} (h : HasLength v m n) : IsUtf8 v := by
  obtain ⟨s, hs, -⟩ := h
  exact ⟨s, hs⟩

/-- A text has at most as many characters as bytes. -/
theorem hasLength_of_length_le {v : Bytes} {n : Nat} (hv : IsUtf8 v) (hn : v.length ≤ n) :
    HasLength v 0 n := by
  obtain ⟨s, rfl⟩ := hv
  have hle := length_le_length_utf8 s
  rw [String.length_toList] at hle
  exact ⟨s, rfl, Nat.zero_le _, hle.trans hn⟩

theorem hasLength_nil (n : Nat) : HasLength [] 0 n :=
  ⟨"", rfl, Nat.le_refl 0, Nat.zero_le n⟩

/-- When each property has the name of the member at its place, the members satisfy their
properties place by place. -/
theorem hold_iff_forall₂ {properties : List (Bytes × Property)} {members : List (Bytes × Value)}
    (hnames : members.map Prod.fst = properties.map Prod.fst)
    (hnodup : (properties.map Prod.fst).Nodup) :
    (∀ m ∈ members, ∃ p, (m.1, p) ∈ properties ∧ p.Holds m.2) ↔
      List.Forall₂ (fun property member => property.2.Holds member.2) properties members := by
  induction properties generalizing members with
  | nil =>
      obtain rfl := List.map_eq_nil_iff.mp hnames
      simp
  | cons property properties ih =>
      obtain ⟨member, members, rfl, hname, hrest⟩ := List.map_eq_cons_iff.mp hnames
      rw [List.map_cons, List.nodup_cons] at hnodup
      obtain ⟨hnew, hnodup⟩ := hnodup
      have hhead : (∃ p, (member.1, p) ∈ property :: properties ∧ p.Holds member.2) ↔
          property.2.Holds member.2 := by
        constructor
        · rintro ⟨p, hp, hholds⟩
          rcases List.mem_cons.mp hp with rfl | hp
          · exact hholds
          · exact absurd (hname ▸ List.mem_map_of_mem (f := Prod.fst) hp) hnew
        · exact fun hholds => ⟨property.2, by simp [hname], hholds⟩
      have htail : (∀ m ∈ members, ∃ p, (m.1, p) ∈ property :: properties ∧ p.Holds m.2) ↔
          ∀ m ∈ members, ∃ p, (m.1, p) ∈ properties ∧ p.Holds m.2 := by
        refine forall₂_congr fun m hm => exists_congr fun p => and_congr_left fun _ => ?_
        have hmem : m.1 ∈ properties.map Prod.fst := hrest ▸ List.mem_map_of_mem hm
        constructor
        · intro hp
          rcases List.mem_cons.mp hp with rfl | hp
          · exact absurd hmem hnew
          · exact hp
        · exact List.mem_cons_of_mem _
      rw [List.forall_mem_cons, List.forall₂_cons, hhead, htail, ih hrest hnodup]

/-- When the members of a result satisfy their properties. -/
theorem members_hold_iff (result : BetResult) :
    (∀ m ∈ result.members, ∃ p, (m.1, p) ∈ resultProperties ∧ p.Holds m.2) ↔
      (HasLength result.eventId 0 128 ∧ HasLength result.betId 0 128 ∧
        HasLength result.accountId 0 128 ∧ HasLength result.idempotencyKey 0 128 ∧
        HasLength result.matchId 0 128 ∧ HasLength result.selectionId 0 128) ∧
      HasLength result.odds 0 32 ∧ HasLength result.reason 1 512 ∧
      0 ≤ result.stakeCents ∧ 0 ≤ result.acceptedExposureCents ∧
      0 ≤ result.remainingBalanceCents ∧ 1 ≤ result.decisionTimestampMs := by
  have hcode : ∀ code : ReasonCode, utf8 code.name ∈ ["ACCEPTED", "SCHEMA_INVALID", "STALE_QUOTE",
      "ACCOUNT_NOT_FOUND", "INSUFFICIENT_FUNDS", "SAEC_EXCEEDED"].map utf8 := by
    intro code
    cases code <;> decide
  rw [hold_iff_forall₂ rfl (by decide)]
  simp only [resultProperties, BetResult.members, List.forall₂_cons, List.forall₂_nil_left_iff,
    Property.Holds, hcode, true_and, and_true]
  tauto

/-- A result with readable texts conforms exactly when its texts are UTF-8 and its members
satisfy their properties. -/
theorem conforms_iff {result : BetResult} (h : ∀ text ∈ result.texts, text.all isTextByte) :
    Conforms (toJson result) ↔ (∀ text ∈ result.texts, IsUtf8 text) ∧
      ∀ m ∈ result.members, ∃ p, (m.1, p) ∈ resultProperties ∧ p.Holds m.2 := by
  have hobject := (toJson_isObject h).mono fun _ _ _ => stringToken_of_engineString
  have hrequired : result.members.map Prod.fst = requiredMembers := rfl
  constructor
  · rintro ⟨-, members, hmembers, -, -, hholds⟩
    obtain rfl := hmembers.unique tokenRule_stringToken hobject
    refine ⟨?_, hholds⟩
    obtain ⟨⟨heventId, hbetId, haccountId, hkey, hmatchId, hselectionId⟩, hodds, hreason, -⟩ :=
      (members_hold_iff result).mp hholds
    simp only [BetResult.texts, List.forall_mem_cons, List.not_mem_nil, false_implies,
      implies_true, and_true]
    exact ⟨heventId.isUtf8, hbetId.isUtf8, haccountId.isUtf8, hkey.isUtf8, hmatchId.isUtf8,
      hselectionId.isUtf8, hodds.isUtf8, isUtf8_utf8 _, hreason.isUtf8⟩
  · rintro ⟨htexts, hholds⟩
    refine ⟨isUtf8_toJson htexts, result.members, hobject, ?_, ?_, hholds⟩
    · rw [hrequired]
      decide
    · rw [hrequired]
      exact fun _ hname => hname

/-- How many characters the schema leaves for the name of a defective field. -/
def Defect.room (defect : Defect) : Nat :=
  512 - defect.words.length

/-- The payloads whose texts fit the schema: the name of a defective field is UTF-8 and leaves
room for the words in front of it, and a bet's echoed texts are UTF-8 and its odds have at most
32 characters. -/
structure FitsSchema [FieldOrder] (payload : Bytes) : Prop where
  names : ∀ defect name, Quotes payload defect name → HasLength name 0 defect.room
  texts : ∀ bet, parseBetJson payload = .ok bet →
    (∀ text ∈ bet.echoed, IsUtf8 text) ∧ HasLength bet.odds 0 32

/-- A quoted name and the words in front of it. -/
theorem hasLength_quoted_iff {defect : Defect} {name : Bytes} :
    HasLength (utf8 defect.words ++ name) 0 512 ↔ HasLength name 0 defect.room := by
  have hascii : IsAscii defect.words := by
    cases defect <;> decide
  have hwords : defect.words.length ≤ 512 := by
    cases defect <;> decide
  constructor
  · intro h
    obtain ⟨rest, rfl⟩ := (isUtf8_utf8_append hascii).mp h.isUtf8
    obtain ⟨text, htext, -, hle⟩ := h
    obtain rfl := utf8_injective (htext.trans (utf8_append _ _).symm)
    rw [String.length_append] at hle
    exact ⟨rest, rfl, Nat.zero_le _, Nat.le_sub_of_add_le' hle⟩
  · rintro ⟨rest, rfl, -, hle⟩
    refine ⟨defect.words ++ rest, utf8_append _ _, Nat.zero_le _, ?_⟩
    rw [String.length_append]
    exact Nat.add_le_of_le_sub' hwords hle

/-- The message of a refusal fits the schema exactly when the payload does. -/
theorem fitsSchema_of_error [FieldOrder] {payload e : Bytes} (h : parseBetJson payload = .error e) :
    HasLength e 0 512 ↔ FitsSchema payload := by
  constructor
  · intro hlength
    refine ⟨fun defect name hquotes => ?_, fun bet hbet => ?_⟩
    · obtain rfl := Except.error.inj (h.symm.trans (parseBetJson_of_quotes hquotes))
      exact hasLength_quoted_iff.mp hlength
    · rw [h] at hbet
      contradiction
  · intro hfits
    rcases parseBetJson_refuses h with ⟨text, rfl, hle⟩ | ⟨defect, name, hquotes, rfl⟩
    · exact ⟨text, rfl, Nat.zero_le _, hle⟩
    · exact hasLength_quoted_iff.mpr (hfits.names defect name hquotes)

/-- An accepted payload quotes no field. -/
theorem fitsSchema_of_ok [FieldOrder] {payload : Bytes} {bet : BetSubmitted}
    (h : parseBetJson payload = .ok bet) :
    (∀ text ∈ bet.echoed, IsUtf8 text) ∧ HasLength bet.odds 0 32 ↔ FitsSchema payload := by
  constructor
  · intro htexts
    refine ⟨fun defect name hquotes => ?_, fun bet' hbet => ?_⟩
    · rw [parseBetJson_of_quotes hquotes] at h
      contradiction
    · obtain rfl := Except.ok.inj (h.symm.trans hbet)
      exact htexts
  · exact fun hfits => hfits.texts bet h

/-- The rejection of a payload that does not parse. -/
theorem invalid_conforms_iff {now : Int} {e : Bytes} (he : IsMessage e) (hnow : 1 ≤ now) :
    Conforms (toJson (.invalid now e)) ↔ HasLength e 0 512 := by
  have htexts : ∀ text ∈ (BetResult.invalid now e).texts, text.all isTextByte := by
    simp only [BetResult.texts, BetResult.invalid, List.forall_mem_cons, List.not_mem_nil,
      false_implies, implies_true, and_true]
    exact ⟨rfl, rfl, rfl, rfl, rfl, rfl, rfl, by decide, he.2⟩
  rw [conforms_iff htexts, members_hold_iff]
  constructor
  · rintro ⟨-, -, -, ⟨s, hs, -, hle⟩, -⟩
    exact ⟨s, hs, Nat.zero_le _, hle⟩
  · rintro ⟨s, rfl, -, hle⟩
    have hpos : 1 ≤ s.length := by
      by_contra hzero
      have hnil : s.toList = [] := by
        rw [← List.length_eq_zero_iff, String.length_toList]
        omega
      exact he.1 (by rw [utf8, hnil, List.flatMap_nil])
    have hnil : IsUtf8 [] := ⟨"", rfl⟩
    refine ⟨?_, ⟨hasLength_nil _, hasLength_nil _, hasLength_nil _, hasLength_nil _,
      hasLength_nil _, hasLength_nil _⟩, hasLength_nil _, ⟨s, rfl, hpos, hle⟩, ?_⟩
    · simp only [BetResult.texts, BetResult.invalid, List.forall_mem_cons, List.not_mem_nil,
        false_implies, implies_true, and_true]
      exact ⟨hnil, hnil, hnil, hnil, hnil, hnil, hnil, isUtf8_utf8 _, isUtf8_utf8 _⟩
    · exact ⟨Int.le_refl 0, Int.le_refl 0, Int.le_refl 0, hnow⟩

/-- The decision on a bet. -/
theorem ofBet_conforms_iff [FieldOrder] {payload : Bytes} {bet : BetSubmitted}
    (hparse : parseBetJson payload = .ok bet) {now exposure remaining : Int} {accepted : Bool}
    {code : ReasonCode} {reason : String} (hnow : 1 ≤ now) (hexposure : 0 ≤ exposure)
    (hremaining : 0 ≤ remaining) (htext : (utf8 reason).all isTextByte)
    (hreason : 1 ≤ reason.length ∧ reason.length ≤ 512) :
    Conforms (toJson (.ofBet bet now accepted code (utf8 reason) exposure remaining)) ↔
      (∀ text ∈ bet.echoed, IsUtf8 text) ∧ HasLength bet.odds 0 32 := by
  have hvalid := parseBetJson_valid hparse
  rw [conforms_iff (ofBet_texts hparse htext), members_hold_iff]
  constructor
  · rintro ⟨htexts, -, hodds, -⟩
    refine ⟨fun text htext => htexts text ?_, hodds⟩
    exact List.mem_append_left _ htext
  · rintro ⟨hechoed, hodds⟩
    have hlengths := hvalid.string_length
    simp only [List.forall_mem_cons] at hlengths
    obtain ⟨heventId, hbetId, haccountId, hkey, hmatchId, -, hselectionId, -⟩ := hlengths
    have htexts := hechoed
    simp only [BetSubmitted.echoed, List.forall_mem_cons] at htexts
    refine ⟨?_, ⟨hasLength_of_length_le htexts.1 heventId.2,
      hasLength_of_length_le htexts.2.1 hbetId.2,
      hasLength_of_length_le htexts.2.2.1 haccountId.2,
      hasLength_of_length_le htexts.2.2.2.1 hkey.2,
      hasLength_of_length_le htexts.2.2.2.2.1 hmatchId.2,
      hasLength_of_length_le htexts.2.2.2.2.2.1 hselectionId.2⟩, hodds,
      ⟨reason, rfl, hreason⟩, Int.le_of_lt hvalid.stake_pos, hexposure, hremaining, hnow⟩
    intro text htext
    rcases List.mem_append.mp (show text ∈ bet.echoed ++ [utf8 code.name, utf8 reason] from htext)
      with htext | htext
    · exact hechoed text htext
    · simp only [List.mem_cons, List.not_mem_nil, or_false] at htext
      rcases htext with rfl | rfl <;> exact isUtf8_utf8 _

/-- The result of a payload conforms to the published schema exactly when the payload's
texts fit it. -/
theorem toJson_conforms_iff [FieldOrder] {cap now : Int} {s : Accounts} {payload : Bytes}
    (hstate : EngineState cap s)
    (hbalances : ∀ account balance, s.balances account = some balance → 0 ≤ balance)
    (hnow : 1 ≤ now) :
    Conforms (toJson (evaluateJson cap s now payload).1) ↔ FitsSchema payload := by
  cases hparse : parseBetJson payload with
  | error e =>
      rw [evaluateJson_of_error hparse, ← fitsSchema_of_error hparse]
      exact invalid_conforms_iff (parseBetJson_throws payload e hparse) hnow
  | ok bet =>
      rw [← fitsSchema_of_ok hparse]
      have hvalid := parseBetJson_valid hparse
      have hresult := @evaluated_evaluateJson _ cap now s payload bet hparse
      have hexposure := hstate.exposure_nonneg bet.accountId
      have hzero := Int.le_refl 0
      generalize evaluateJson cap s now payload = r at hresult
      cases hresult with
      | staleQuote => exact ofBet_conforms_iff hparse hnow hzero hzero (by decide) (by decide)
      | accountNotFound => exact ofBet_conforms_iff hparse hnow hzero hzero (by decide) (by decide)
      | insufficientFunds hfresh hbalance hshort =>
          exact ofBet_conforms_iff hparse hnow hzero (hbalances _ _ hbalance) (by decide)
            (by decide)
      | saecExceeded hfresh hbalance hcovered =>
          have hbalance' := hbalances _ _ hbalance
          exact ofBet_conforms_iff hparse hnow hzero (by omega) (by decide) (by decide)
      | acceptance hfresh hbalance hcovered =>
          have hpayout := hvalid.stake_pos.trans_le hvalid.stake_le_payout
          exact ofBet_conforms_iff hparse hnow (by omega) (by omega) (by decide) (by decide)

/-- The account of the example has no negative balance. -/
theorem nonneg_sample : ∀ account balance,
    (Accounts.fresh.setBalance (utf8 "a") 150).balances account = some balance →
      0 ≤ balance := by
  intro account balance h
  by_cases haccount : account = utf8 "a"
  · subst haccount
    obtain rfl : 150 = balance := by simpa [Accounts.setBalance] using h
    decide
  · simp [Accounts.setBalance, Accounts.fresh, haccount] at h

section Sample

attribute [local instance] insertionOrder

/-- An engine whose account `a` holds 150 evaluates a bet on it. -/
theorem toJson_conforms_iff_sample :
    Conforms (toJson (evaluateJson 1000 (Accounts.fresh.setBalance (utf8 "a") 150) 1000
      samplePayload).1) ↔ FitsSchema samplePayload :=
  toJson_conforms_iff (.setBalance _ _ .fresh) nonneg_sample (by decide)

end Sample

/-- A name of so many characters. -/
def longName (n : Nat) : String :=
  String.ofList (List.replicate n 'a')

/-- An object that is cut behind the name of its first member. -/
def longNamePayload (n : Nat) : Bytes :=
  ascii '\x7b' :: ascii '"' :: (utf8 (longName n) ++ [ascii '"'])

/-- The message about a long name repeats the name. -/
theorem parseBetJson_longName [FieldOrder] (n : Nat) :
    parseBetJson (longNamePayload n) =
      .error (utf8 ("expected ':' after field: " ++ longName n)) := by
  have hname : utf8 (longName n) = List.replicate n (ascii 'a') := by
    rw [longName, utf8_ofList_of_ascii, List.map_replicate]
    intro c hc
    rw [(List.mem_replicate.mp hc).2]
    decide
  have hescape : ∀ n, jsonEscape (List.replicate n (ascii 'a')) = List.replicate n (ascii 'a') := by
    intro n
    induction n with
    | zero => rfl
    | succ n ih =>
        unfold jsonEscape at ih ⊢
        rw [List.replicate_succ, List.flatMap_cons, ih]
        rfl
  have htext : (utf8 (longName n)).all isTextByte := by
    rw [hname, List.all_eq_true]
    intro c hc
    rw [(List.mem_replicate.mp hc).2]
    decide
  have htoken := engineString_escaped htext []
  rw [hname, hescape, ← hname] at htoken
  have hmember : parseMember (ascii '"' :: (utf8 (longName n) ++ [ascii '"'])) [] =
      .error (utf8 ("expected ':' after field: " ++ longName n)) := by
    unfold parseMember
    rw [htoken, utf8_append]
    rfl
  have hmembers := parseMembers_of_error (List.cons_ne_nil _ _) hmember
  have hobject : parseObject (longNamePayload n) =
      (parseMembers (ascii '"' :: (utf8 (longName n) ++ [ascii '"'])) [] >>= fun r =>
        if skipWs r.2 = [] then .ok r.1
        else .error (utf8 "trailing bytes after JSON object")) := rfl
  rw [parseBetJson, hobject, hmembers]
  rfl

/-- The rejection of a long name quotes it, and does not conform. -/
theorem longName_not_conforms [FieldOrder] {n : Nat} (hn : 512 < n) :
    ¬ Conforms (toJson (evaluateJson 1000 .fresh 1 (longNamePayload n)).1) := by
  intro hconforms
  rw [evaluateJson_of_error (parseBetJson_longName n), invalid_conforms_iff
    (parseBetJson_throws _ _ (parseBetJson_longName n)) (by decide)] at hconforms
  obtain ⟨s, hs, -, hle⟩ := hconforms
  have hlength : (longName n).length = n := by
    rw [longName, String.length_ofList, List.length_replicate]
  rw [utf8_injective hs, String.length_append, hlength] at hle
  omega

/-- Not every result conforms to the published schema, whatever the order of the fields. -/
theorem long_name_violates_schema :
    ¬ ∃ _ : FieldOrder, ∀ (cap now : Int) (s : Accounts) (payload : Bytes), EngineState cap s →
      (∀ account balance, s.balances account = some balance → 0 ≤ balance) → 1 ≤ now →
      Conforms (toJson (evaluateJson cap s now payload).1) := by
  rintro ⟨_, hall⟩
  exact longName_not_conforms (show 512 < 600 by decide)
    (hall 1000 1 .fresh (longNamePayload 600) .fresh (by simp [Accounts.fresh]) (by decide))

end RiskEngine
end BettingPlatform
