import BettingPlatform.RiskEngine.ResultText
import BettingPlatform.Settlement.Messages
import BettingPlatform.Wire.Submitted

/-!
# From the risk engine to settlement

The engine writes a result with its own JSON encoder, the settlement worker reads it with
`json.loads` and validates it.

Main results:

- Theorem `loadsMessage_toJson`: what the worker reads of a result with decodable texts.
- Theorem `loadsMessage_eq_some`: a result that the worker can read has decodable texts.
-/

namespace BettingPlatform
namespace Wire

open Python RiskEngine Settlement

/-! ## The encoder on texts -/

/-- What `json_escape` writes for a control character without a short form. -/
def questionMark (_ : Char) : List Char :=
  ['?']

/-- The engine's escape for control characters reads as a question mark. -/
theorem reads_questionMark : Reads questionMark fun _ => '?' := by
  intro c rest _
  exact scanChars_of_char (scanPieces_plain (by decide) (by decide) (by decide) rest)

/-- `json_escape` on a character's bytes is the escape of the character. -/
theorem jsonEscape_char (c : Char) :
    (String.utf8EncodeChar c).flatMap jsonEscapeByte = encode (escapeChar questionMark c) := by
  by_cases hascii : c.toNat < 128
  · have hall : ∀ n : Fin 128, jsonEscapeByte (ascii (Char.ofNat n)) =
        encode (escapeChar questionMark (Char.ofNat n)) := by
      decide +kernel
    have hchar := hall ⟨c.toNat, hascii⟩
    rw [Char.ofNat_toNat] at hchar
    rw [utf8EncodeChar_of_ascii hascii]
    simpa using hchar
  · have hshort : shortEscape c = none := by
      have hne : ∀ d : Char, d.toNat < 128 → c ≠ d := by
        rintro d hd rfl
        exact hascii hd
      simp [shortEscape, hne]
    have hprintable : ¬ c.toNat < 0x20 := by omega
    have hwide : ∀ b ∈ String.utf8EncodeChar c, jsonEscapeByte b = [b] :=
      fun b hb => jsonEscapeByte_wide (le_of_mem_utf8EncodeChar (not_lt.mp hascii) hb)
    have hself : ∀ bs : Bytes, (∀ b ∈ bs, jsonEscapeByte b = [b]) →
        bs.flatMap jsonEscapeByte = bs := by
      intro bs hbs
      induction bs with
      | nil => rfl
      | cons b bs ih =>
          rw [List.flatMap_cons, hbs b List.mem_cons_self,
            ih fun d hd => hbs d (List.mem_cons_of_mem _ hd)]
          rfl
    rw [hself _ hwide]
    simp [escapeChar, hshort, hprintable, encode]

/-- The engine escapes bytes as the text is escaped. -/
theorem jsonEscape_utf8 (s : String) :
    jsonEscape (utf8 s) = encode (s.toList.flatMap (escapeChar questionMark)) := by
  rw [utf8, jsonEscape]
  induction s.toList with
  | nil => rfl
  | cons c cs ih =>
      rw [List.flatMap_cons, List.flatMap_append, ih, jsonEscape_char, List.flatMap_cons]
      simp [encode]

/-- A result whose texts are strings. -/
structure ResultFields where
  eventId : String
  betId : String
  accountId : String
  idempotencyKey : String
  matchId : String
  selectionId : String
  odds : String
  stakeCents : Int
  accepted : Bool
  reasonCode : ReasonCode
  reason : String
  acceptedExposureCents : Int
  remainingBalanceCents : Int
  decisionTimestampMs : Int

/-- The result as the engine holds it. -/
def ResultFields.result (fields : ResultFields) : BetResult where
  eventId := utf8 fields.eventId
  betId := utf8 fields.betId
  accountId := utf8 fields.accountId
  idempotencyKey := utf8 fields.idempotencyKey
  matchId := utf8 fields.matchId
  selectionId := utf8 fields.selectionId
  odds := utf8 fields.odds
  stakeCents := fields.stakeCents
  accepted := fields.accepted
  reasonCode := fields.reasonCode
  reason := utf8 fields.reason
  acceptedExposureCents := fields.acceptedExposureCents
  remainingBalanceCents := fields.remainingBalanceCents
  decisionTimestampMs := fields.decisionTimestampMs

/-- The members of the JSON object the engine writes. -/
def ResultFields.members (fields : ResultFields) : List (String × Scalar) :=
  [("event_id", .str fields.eventId), ("bet_id", .str fields.betId),
    ("account_id", .str fields.accountId), ("idempotency_key", .str fields.idempotencyKey),
    ("match_id", .str fields.matchId), ("selection_id", .str fields.selectionId),
    ("stake_cents", .int fields.stakeCents), ("odds", .str fields.odds),
    ("accepted", .bool fields.accepted), ("reason_code", .str fields.reasonCode.name),
    ("reason", .str fields.reason),
    ("accepted_exposure_cents", .int fields.acceptedExposureCents),
    ("remaining_balance_cents", .int fields.remainingBalanceCents),
    ("decision_timestamp_ms", .int fields.decisionTimestampMs)]

/-- A string member is the text's. -/
theorem stringMember_utf8 (name s : String) :
    stringMember name (utf8 s) = encode (memberText questionMark (name, .str s)) ++ [ascii ','] := by
  rw [stringMember, jsonEscape_utf8]
  simp [memberText, Scalar.text, stringBody, utf8, encode, utf8EncodeChar_of_ascii (c := '"'),
    utf8EncodeChar_of_ascii (c := ':'), utf8EncodeChar_of_ascii (c := ',')]

/-- An integer member of the encoder's output. -/
theorem intMember {lit name : String} (hlit : lit.toList = '"' :: name.toList ++ ['"', ':'])
    (n : Int) (rest : Bytes) :
    utf8 lit ++ (intDigits n ++ rest) =
      encode (memberText questionMark (name, .int n)) ++ rest := by
  rw [← encode_intText, utf8, hlit]
  simp [memberText, Scalar.text, encode, utf8EncodeChar_of_ascii (c := '"'),
    utf8EncodeChar_of_ascii (c := ':')]

/-- The member `accepted` of the encoder's output. -/
theorem acceptedMember (b : Bool) (rest : Bytes) :
    utf8 "\"accepted\":" ++ ((if b then utf8 "true," else utf8 "false,") ++ rest) =
      encode (memberText questionMark ("accepted", .bool b)) ++ ascii ',' :: rest := by
  have hbool : utf8 "\"accepted\":" ++ (if b then utf8 "true," else utf8 "false,") =
      encode (memberText questionMark ("accepted", .bool b)) ++ [ascii ','] := by
    revert b
    decide
  rw [← List.append_assoc, hbool, List.append_assoc]
  rfl

/-- `to_json` of a result with strings for its texts is the object of its members. -/
theorem toJson_result (fields : ResultFields) :
    toJson fields.result = encode (objectText questionMark fields.members) := by
  have hstake : ∀ n rest, utf8 "\"stake_cents\":" ++ (intDigits n ++ rest) =
      encode (memberText questionMark ("stake_cents", .int n)) ++ rest :=
    intMember rfl
  have hexposure : ∀ n rest, utf8 "\"accepted_exposure_cents\":" ++ (intDigits n ++ rest) =
      encode (memberText questionMark ("accepted_exposure_cents", .int n)) ++ rest :=
    intMember rfl
  have hbalance : ∀ n rest, utf8 "\"remaining_balance_cents\":" ++ (intDigits n ++ rest) =
      encode (memberText questionMark ("remaining_balance_cents", .int n)) ++ rest :=
    intMember rfl
  have htimestamp : ∀ n rest, utf8 "\"decision_timestamp_ms\":" ++ (intDigits n ++ rest) =
      encode (memberText questionMark ("decision_timestamp_ms", .int n)) ++ rest :=
    intMember rfl
  have hcomma : utf8 "," = [ascii ','] := rfl
  have hopen : utf8 "\x7b" = [ascii '\x7b'] := rfl
  have hclose : utf8 "\x7d" = [ascii '\x7d'] := rfl
  unfold toJson ResultFields.result
  simp only [stringMember_utf8, List.append_assoc, acceptedMember, hcomma, hopen, hclose, hstake,
    hexposure, hbalance, htimestamp]
  simp [ResultFields.members, objectText, laterMembers, encode, utf8EncodeChar_of_ascii (c := ','),
    utf8EncodeChar_of_ascii (c := '\x7b'), utf8EncodeChar_of_ascii (c := '\x7d')]

/-! ## Results with texts that are no UTF-8 -/

/-- `json_escape` keeps bytes outside ASCII and replaces ASCII by ASCII, so its result
decodes only when the value does. -/
theorem isUtf8_of_jsonEscape {value : Bytes} (h : IsUtf8 (jsonEscape value)) : IsUtf8 value := by
  refine isUtf8_of_flatMap (fun b hb => jsonEscapeByte_wide hb) (fun b hb => ?_) h
  exact ⟨jsonEscapeByte_ne_nil b, jsonEscapeByte_ascii hb⟩

/-- Both the text and the rest of a member are UTF-8 when the whole is. -/
theorem isUtf8_stringMember {name : String} (hname : IsAscii name) {value rest : Bytes}
    (h : IsUtf8 (stringMember name value ++ rest)) : IsUtf8 value ∧ IsUtf8 rest := by
  have hlead : IsAscii ("\"" ++ name ++ "\":\"") := by
    have hopen : IsAscii "\"" := by decide
    have hclose : IsAscii "\":\"" := by decide
    intro c hc
    simp only [String.toList_append, List.mem_append] at hc
    rcases hc with (hc | hc) | hc
    · exact hopen c hc
    · exact hname c hc
    · exact hclose c hc
  have hend : utf8 "\"," = [ascii '"', ascii ','] := rfl
  rw [stringMember, List.append_assoc, List.append_assoc, isUtf8_utf8_append hlead, hend,
    List.cons_append, isUtf8_append_ascii (by decide), isUtf8_cons_ascii (by decide),
    List.cons_append, isUtf8_cons_ascii (by decide)] at h
  exact ⟨isUtf8_of_jsonEscape h.1, h.2⟩

/-- So is the rest behind an integer. -/
theorem isUtf8_intMember {lit : String} (hlit : IsAscii lit) {n : Int} {rest : Bytes}
    (h : IsUtf8 (utf8 lit ++ (intDigits n ++ rest))) : IsUtf8 rest := by
  have hdigits : ∀ b ∈ intDigits n, b.toNat < 128 := by
    obtain ⟨sign, digits, hdigits, hsign, -, hall⟩ := intDigits_cases n
    intro b hb
    rw [hdigits] at hb
    rcases List.mem_append.mp hb with hb | hb
    · rcases hsign with rfl | rfl
      · contradiction
      · rw [List.mem_singleton.mp hb]
        decide
    · have hdigit := hall b hb
      simp only [isDigit, Bool.and_eq_true, decide_eq_true_eq, UInt8.le_iff_toNat_le] at hdigit
      exact Nat.lt_of_le_of_lt hdigit.2 (by decide)
  rwa [isUtf8_utf8_append hlit, isUtf8_ascii_append hdigits] at h

/-- A result whose JSON decodes has strings for its texts. -/
theorem exists_fields {result : BetResult} (h : IsUtf8 (toJson result)) :
    ∃ fields : ResultFields, fields.result = result := by
  unfold toJson at h
  simp only [List.append_assoc] at h
  rw [isUtf8_utf8_append (by decide)] at h
  obtain ⟨⟨eventId, heventId⟩, h⟩ := isUtf8_stringMember (by decide) h
  obtain ⟨⟨betId, hbetId⟩, h⟩ := isUtf8_stringMember (by decide) h
  obtain ⟨⟨accountId, haccountId⟩, h⟩ := isUtf8_stringMember (by decide) h
  obtain ⟨⟨key, hkey⟩, h⟩ := isUtf8_stringMember (by decide) h
  obtain ⟨⟨matchId, hmatchId⟩, h⟩ := isUtf8_stringMember (by decide) h
  obtain ⟨⟨selectionId, hselectionId⟩, h⟩ := isUtf8_stringMember (by decide) h
  have h := isUtf8_intMember (by decide) h
  rw [isUtf8_utf8_append (by decide)] at h
  obtain ⟨⟨odds, hodds⟩, h⟩ := isUtf8_stringMember (by decide) h
  have hdecision : ∀ b ∈ if result.accepted then utf8 "true," else utf8 "false,", b.toNat < 128 := by
    split
    · exact fun b hb => lt_of_mem_utf8 (by decide) hb
    · exact fun b hb => lt_of_mem_utf8 (by decide) hb
  rw [isUtf8_utf8_append (by decide), isUtf8_ascii_append hdecision] at h
  obtain ⟨-, h⟩ := isUtf8_stringMember (by decide) h
  obtain ⟨⟨reason, hreason⟩, -⟩ := isUtf8_stringMember (by decide) h
  refine ⟨⟨eventId, betId, accountId, key, matchId, selectionId, odds, result.stakeCents,
    result.accepted, result.reasonCode, reason, result.acceptedExposureCents,
    result.remainingBalanceCents, result.decisionTimestampMs⟩, ?_⟩
  simp only [ResultFields.result, heventId, hbetId, haccountId, hkey, hmatchId, hselectionId,
    hodds, hreason]

/-! ## What the worker reads -/

/-- A text as it comes back: control characters without a short escape are lost. -/
def laundered (s : String) : String :=
  String.ofList (s.toList.map (readChar fun _ => '?'))

/-- A readable text arrives unchanged. -/
theorem laundered_of_readable {s : String} (hs : IsReadable s) : laundered s = s := by
  have hchar : ∀ c ∈ s.toList, readChar (fun _ => '?') c = c := by
    intro c hc
    refine if_neg ?_
    rintro ⟨hcontrol, hshort⟩
    rcases hs c hc with hprintable | hsome
    · omega
    · simp [hshort] at hsome
  rw [laundered, List.map_congr_left hchar, List.map_id', String.ofList_toList]

/-- The items of the dictionary that a result is read as. -/
def ResultFields.items (fields : ResultFields) : List (String × Json) :=
  fields.members.map fun m => (m.1, m.2.json fun _ => '?')

/-- What the worker reads of a result with decodable texts. -/
theorem loadsMessage_toJson (fields : ResultFields) :
    loadsMessage (toJson fields.result) =
      if ∀ m ∈ fields.members, m.2.Readable then some (.dict fields.items) else none := by
  have hmembers : fields.members.map Prod.fst = ["event_id", "bet_id", "account_id",
      "idempotency_key", "match_id", "selection_id", "stake_cents", "odds", "accepted",
      "reason_code", "reason", "accepted_exposure_cents", "remaining_balance_cents",
      "decision_timestamp_ms"] := rfl
  have hnames : ∀ m ∈ fields.members, PlainName m.1 := by
    intro m hm
    have hmem : m.1 ∈ fields.members.map Prod.fst := List.mem_map_of_mem hm
    rw [hmembers] at hmem
    revert hmem
    generalize m.1 = name
    revert name
    decide
  have hnodup : (fields.members.map Prod.fst).Nodup := by
    rw [hmembers]
    decide
  have htext : toJson fields.result =
      utf8 (String.ofList (objectText questionMark fields.members)) := by
    rw [toJson_result, utf8_ofList]
  rw [loadsMessage, htext, utf8Decode_utf8, Option.bind_some, String.toList_ofList,
    loads_objectText reads_questionMark hnames hnodup]
  rfl

/-- A result that the worker can read has decodable texts. -/
theorem loadsMessage_eq_some {result : BetResult} {payload : Json}
    (h : loadsMessage (toJson result) = some payload) :
    ∃ fields : ResultFields, fields.result = result ∧ payload = .dict fields.items := by
  obtain ⟨text, htext, -⟩ := Option.bind_eq_some_iff.mp h
  obtain ⟨fields, rfl⟩ := exists_fields ⟨text, utf8Decode_eq_some_iff.mp htext⟩
  rw [loadsMessage_toJson] at h
  split at h
  · exact ⟨fields, rfl, (Option.some.inj h).symm⟩
  · exact absurd h.symm (Option.some_ne_none payload)

/-- What an event from the topic has of the result it was read from. -/
theorem eventOf_eq_some {result : BetResult} {event : BetResultEvent}
    (h : eventOf (toJson result) = some event) :
    ∃ fields : ResultFields, fields.result = result ∧ Carries fields.items event := by
  obtain ⟨payload, hpayload, hvalidate⟩ := Option.bind_eq_some_iff.mp h
  obtain ⟨fields, hfields, rfl⟩ := loadsMessage_eq_some hpayload
  exact ⟨fields, hfields, modelValidate_eq_some_iff.mp hvalidate⟩

end Wire
end BettingPlatform
