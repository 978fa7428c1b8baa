import BettingPlatform.RiskEngine.Engine
import BettingPlatform.RiskEngine.ParserSoundness

/-!
# The result encoder

`to_json` writes the fourteen members of a result, `json_escape` their texts.  The escape
loses the control characters without a short form, but none of these gets into a result:
every text of a result is a literal, or was decoded from the payload, and the decoder yields
no such character.

Main results:

- Theorem `parseStringBody_jsonEscape`: decoding an escaped text gives it back.
- Theorem `evaluateJson_texts`: the texts of a result have bytes of the decoder only.
- Theorem `toJson_faithful`: the encoder's text has one reading, which is the result.
-/

namespace BettingPlatform
namespace RiskEngine

open JsonGrammar

/-! ## The image of the decoder -/

/-- The bytes that `parse_json_string_token` can put out. -/
def isTextByte (c : UInt8) : Bool :=
  0x20 ≤ c || c = 0x08 || c = 0x0C || c = ascii '\n' || c = ascii '\r' || c = ascii '\t'

/-- An escape stands for a byte that a text may hold. -/
theorem isTextByte_of_unescape {e b : UInt8} (h : unescape e = some b) : isTextByte b := by
  unfold unescape at h
  split_ifs at h <;> (obtain rfl := Option.some.inj h; decide)

/-- The engine reads texts. -/
theorem parseStringBody_text {t v r : Bytes} (h : parseStringBody t = some (v, r)) :
    v.all isTextByte := by
  fun_induction parseStringBody t generalizing v r with
  | case1 => contradiction
  | case2 t =>
      obtain ⟨rfl, -⟩ : [] = v ∧ t = r := by simpa using h
      rfl
  | case3 => contradiction
  | case4 e t hquote ih =>
      obtain ⟨b, hb, h⟩ := Option.bind_eq_some_iff.mp h
      obtain ⟨⟨v', r'⟩, hbody, h⟩ := Option.bind_eq_some_iff.mp h
      obtain ⟨rfl, -⟩ : b :: v' = v ∧ r' = r := by simpa using h
      simp [isTextByte_of_unescape hb, ih hbody]
  | case5 => contradiction
  | case6 c t hquote hbackslash hcontrol ih =>
      obtain ⟨⟨v', r'⟩, hbody, h⟩ := Option.bind_eq_some_iff.mp h
      obtain ⟨rfl, -⟩ : c :: v' = v ∧ r' = r := by simpa using h
      have hc : isTextByte c := by simp [isTextByte, UInt8.not_lt.mp hcontrol]
      simp [hc, ih hbody]

/-- So every string it has read is one. -/
theorem parseJsonStringToken_text {t v r : Bytes} (h : parseJsonStringToken t = some (v, r)) :
    v.all isTextByte := by
  obtain ⟨t', -, hbody⟩ := parseJsonStringToken_quoted h
  exact parseStringBody_text hbody

/-- A byte is escaped to a token the decoder reads as that byte, is a control character that
a question mark stands for, or stands for itself. -/
theorem jsonEscapeByte_spec (c : UInt8) :
    (∃ e, jsonEscapeByte c = [ascii '\\', e] ∧ unescape e = some c ∧ e.toNat < 128) ∨
      (jsonEscapeByte c = [ascii '?'] ∧ ¬ isTextByte c) ∨
      (jsonEscapeByte c = [c] ∧ c ≠ ascii '"' ∧ c ≠ ascii '\\' ∧ ¬ c < 0x20) := by
  unfold jsonEscapeByte
  by_cases hquote : c = ascii '"'
  · rw [if_pos hquote, hquote]
    exact .inl ⟨ascii '"', rfl, rfl, by decide⟩
  rw [if_neg hquote]
  by_cases hbackslash : c = ascii '\\'
  · rw [if_pos hbackslash, hbackslash]
    exact .inl ⟨ascii '\\', rfl, rfl, by decide⟩
  rw [if_neg hbackslash]
  by_cases hb : c = 0x08
  · rw [if_pos hb, hb]
    exact .inl ⟨ascii 'b', rfl, rfl, by decide⟩
  rw [if_neg hb]
  by_cases hf : c = 0x0C
  · rw [if_pos hf, hf]
    exact .inl ⟨ascii 'f', rfl, rfl, by decide⟩
  rw [if_neg hf]
  by_cases hn : c = ascii '\n'
  · rw [if_pos hn, hn]
    exact .inl ⟨ascii 'n', rfl, rfl, by decide⟩
  rw [if_neg hn]
  by_cases hr : c = ascii '\r'
  · rw [if_pos hr, hr]
    exact .inl ⟨ascii 'r', rfl, rfl, by decide⟩
  rw [if_neg hr]
  by_cases ht : c = ascii '\t'
  · rw [if_pos ht, ht]
    exact .inl ⟨ascii 't', rfl, rfl, by decide⟩
  rw [if_neg ht]
  by_cases hcontrol : c < 0x20
  · rw [if_pos hcontrol]
    exact .inr (.inl ⟨rfl, by simp [isTextByte, UInt8.not_le.mpr hcontrol, hb, hf, hn, hr, ht]⟩)
  · rw [if_neg hcontrol]
    exact .inr (.inr ⟨rfl, hquote, hbackslash, hcontrol⟩)

/-- A byte of the decoder is escaped to a token the decoder reads as that byte. -/
theorem jsonEscapeByte_cases {c : UInt8} (hc : isTextByte c) :
    (jsonEscapeByte c = [c] ∧ c ≠ ascii '"' ∧ c ≠ ascii '\\' ∧ ¬ c < 0x20) ∨
      ∃ e, jsonEscapeByte c = [ascii '\\', e] ∧ unescape e = some c := by
  rcases jsonEscapeByte_spec c with ⟨e, hescape, hunescape, -⟩ | ⟨-, hlost⟩ | hself
  · exact .inr ⟨e, hescape, hunescape⟩
  · exact absurd hc hlost
  · exact .inl hself

/-- On the bytes of the decoder, `json_escape` substitutes nothing. -/
theorem jsonEscapeByte_kept {c : UInt8} (hc : isTextByte c)
    (h : jsonEscapeByte c = utf8 "?") : c = ascii '?' := by
  rcases jsonEscapeByte_cases hc with ⟨hself, -⟩ | ⟨e, hescape, -⟩
  · rw [hself] at h
    exact (List.cons.inj h).1
  · rw [hescape] at h
    exact absurd (List.cons.inj h).1 (by decide)

/-- What is escaped from ASCII is ASCII. -/
theorem jsonEscapeByte_ascii {b : UInt8} (hb : b.toNat < 128) :
    ∀ c ∈ jsonEscapeByte b, c.toNat < 128 := by
  rcases jsonEscapeByte_spec b with ⟨e, hescape, -, he⟩ | ⟨hlost, -⟩ | ⟨hself, -⟩
  · rw [hescape]
    exact List.forall_mem_cons.mpr ⟨by decide, List.forall_mem_singleton.mpr he⟩
  · rw [hlost]
    exact List.forall_mem_singleton.mpr (by decide)
  · rw [hself]
    exact List.forall_mem_singleton.mpr hb

theorem jsonEscapeByte_ne_nil (b : UInt8) : jsonEscapeByte b ≠ [] := by
  rcases jsonEscapeByte_spec b with ⟨e, hescape, -⟩ | ⟨hlost, -⟩ | ⟨hself, -⟩
  · rw [hescape]
    exact List.cons_ne_nil _ _
  · rw [hlost]
    exact List.cons_ne_nil _ _
  · rw [hself]
    exact List.cons_ne_nil _ _

/-- A byte outside ASCII stands for itself. -/
theorem jsonEscapeByte_wide {b : UInt8} (hb : 128 ≤ b.toNat) : jsonEscapeByte b = [b] := by
  have hne : ∀ c : UInt8, c.toNat < 128 → b ≠ c := by
    rintro c hc rfl
    omega
  have hcontrol : ¬ b < 0x20 := by
    rw [UInt8.lt_iff_toNat_lt]
    exact not_lt.mpr (le_trans (by decide) hb)
  rw [jsonEscapeByte, if_neg (hne _ (by decide)), if_neg (hne _ (by decide)),
    if_neg (hne _ (by decide)), if_neg (hne _ (by decide)), if_neg (hne _ (by decide)),
    if_neg (hne _ (by decide)), if_neg (hne _ (by decide)), if_neg hcontrol]

/-- Decoding an escaped text gives it back. -/
theorem parseStringBody_jsonEscape {v : Bytes} (hv : v.all isTextByte) (t : Bytes) :
    parseStringBody (jsonEscape v ++ ascii '"' :: t) = some (v, t) := by
  induction v with
  | nil =>
      rw [parseStringBody.eq_def]
      simp [jsonEscape]
  | cons c v ih =>
      rw [List.all_cons, Bool.and_eq_true] at hv
      have hrest := ih hv.2
      unfold jsonEscape at hrest ⊢
      rw [List.flatMap_cons, List.append_assoc]
      rcases jsonEscapeByte_cases hv.1 with
        ⟨hself, hquote, hbackslash, hcontrol⟩ | ⟨e, hescape, hunescape⟩
      · rw [hself, List.singleton_append, parseStringBody.eq_def]
        simp [hquote, hbackslash, hcontrol, hrest]
      · rw [hescape, List.cons_append, List.cons_append, List.nil_append,
          parseStringBody.eq_def]
        simp only [show ascii '\\' ≠ ascii '"' by decide, if_false, if_true, hunescape, hrest]
        rfl

/-! ## The texts of a result -/

/-- The texts that `to_json` escapes. -/
def BetResult.texts (result : BetResult) : List Bytes :=
  [result.eventId, result.betId, result.accountId, result.idempotencyKey, result.matchId,
    result.selectionId, result.odds, utf8 result.reasonCode.name, result.reason]

/-- The texts of a bet that its results echo. -/
def BetSubmitted.echoed (bet : BetSubmitted) : List Bytes :=
  [bet.eventId, bet.betId, bet.accountId, bet.idempotencyKey, bet.matchId, bet.selectionId,
    bet.odds]

/-- A required string is a text. -/
theorem requiredString_text {obj : ParsedObject} {name decoded : Bytes}
    (h : requiredString obj name = .ok decoded) : decoded.all isTextByte := by
  unfold requiredString at h
  split at h
  · contradiction
  · split at h
    · contradiction
    · split at h
      · rename_i v htoken
        split at h
        · contradiction
        · obtain rfl := Except.ok.inj h
          exact parseJsonStringToken_text htoken
      · contradiction

/-- And so is all that a result repeats of its bet. -/
theorem echoed_text [FieldOrder] {payload : Bytes} {bet : BetSubmitted}
    (h : parseBetJson payload = .ok bet) :
    ∀ text ∈ bet.echoed, text.all isTextByte := by
  obtain ⟨obj, -, -, hobj⟩ := parseBetJson_eq_ok_iff.mp h
  simp only [BetSubmitted.echoed, List.forall_mem_cons, List.not_mem_nil, false_implies,
    implies_true, and_true]
  exact ⟨requiredString_text hobj.eventId, requiredString_text hobj.betId,
    requiredString_text hobj.accountId, requiredString_text hobj.idempotencyKey,
    requiredString_text hobj.matchId, requiredString_text hobj.selectionId,
    requiredString_text hobj.odds⟩

/-! ## Error texts -/

/-- An error text: not empty, and with bytes of the decoder only. -/
def IsMessage (e : Bytes) : Prop :=
  e ≠ [] ∧ e.all isTextByte

instance (e : Bytes) : Decidable (IsMessage e) := inferInstanceAs (Decidable (_ ∧ _))

/-- The characters of a literal that the decoder can put out. -/
def IsPlain (cs : List Char) : Bool :=
  cs.all fun c => 0x20 ≤ c.toNat && c.toNat < 128

/-- A literal in ASCII without control characters has bytes of the decoder only. -/
theorem text_literal {cs : List Char} (h : IsPlain cs) :
    (utf8 (String.ofList cs)).all isTextByte := by
  have hchars : ∀ c ∈ cs, 0x20 ≤ c.toNat ∧ c.toNat < 128 := by
    simpa [IsPlain] using h
  rw [utf8_ofList_of_ascii fun c hc => (hchars c hc).2, List.all_eq_true]
  intro b hb
  obtain ⟨c, hc, rfl⟩ := List.mem_map.mp hb
  have hspace : 0x20 ≤ ascii c := by
    rw [UInt8.le_iff_toNat_le, toNat_ascii (hchars c hc).2]
    exact (hchars c hc).1
  simp [isTextByte, hspace]

/-- A message that is written out needs no escape. -/
theorem isMessage_literal {c : Char} {cs : List Char} (h : IsPlain (c :: cs)) :
    IsMessage (utf8 (String.ofList (c :: cs))) := by
  refine ⟨?_, text_literal h⟩
  rw [utf8_ofList, List.flatMap_cons]
  exact List.append_ne_nil_of_left_ne_nil (by simp) _

/-- A literal, and a name of the payload behind it. -/
theorem IsMessage.append {lit name : Bytes} (hlit : IsMessage lit) (hname : name.all isTextByte) :
    IsMessage (lit ++ name) :=
  ⟨List.append_ne_nil_of_left_ne_nil hlit.1 name, by rw [List.all_append, hlit.2, hname]; rfl⟩

/-- The messages about a value. -/
theorem parseValue_throws {key : Bytes} (hkey : key.all isTextByte) (s : Bytes) :
    Throws IsMessage (parseValue key s) := by
  unfold parseValue
  split
  · exact .error (.append (isMessage_literal (by decide)) hkey)
  · split
    · split
      · exact .error (.append (isMessage_literal (by decide)) hkey)
      · exact .ok _
    · dsimp only
      generalize scanDigits _ = scan
      split
      · exact .error (.append (isMessage_literal (by decide)) hkey)
      · split
        · exact .error (.append (isMessage_literal (by decide)) hkey)
        · exact .ok _

/-- The messages about a member, which repeat its name. -/
theorem parseMember_throws (s : Bytes) (obj : ParsedObject) :
    Throws IsMessage (parseMember s obj) := by
  unfold parseMember
  split
  · exact .error (isMessage_literal (by decide))
  · rename_i key afterKey htoken
    have hkey := parseJsonStringToken_text htoken
    split
    · exact .error (.append (isMessage_literal (by decide)) hkey)
    · split
      · exact .error (.append (isMessage_literal (by decide)) hkey)
      · split
        · exact .error (.append (isMessage_literal (by decide)) hkey)
        · exact (parseValue_throws hkey _).bind fun _ _ => .ok _

/-- The names of a member are texts of the decoder. -/
theorem parseMember_name {s key rest : Bytes} {obj : ParsedObject} {field : FieldValue}
    (h : parseMember s obj = .ok (key, field, rest)) : key.all isTextByte := by
  unfold parseMember at h
  split at h
  · contradiction
  · rename_i key' afterKey htoken
    split at h
    · contradiction
    · split at h
      · contradiction
      · split at h
        · contradiction
        · obtain ⟨⟨field', rest'⟩, -, h⟩ := bind_eq_ok_iff.mp h
          obtain ⟨rfl, -, -⟩ : key' = key ∧ field' = field ∧ rest' = rest := by simpa using h
          exact parseJsonStringToken_text htoken

/-- Every name in the field map is a text of the decoder, and so is every error's. -/
theorem parseMembers_texts {s : Bytes} {obj : ParsedObject}
    (hobj : ∀ field ∈ obj, field.1.all isTextByte) :
    Throws IsMessage (parseMembers s obj) ∧
      ∀ r, parseMembers s obj = .ok r → ∀ field ∈ r.1, field.1.all isTextByte := by
  induction hlength : s.length using Nat.strong_induction_on generalizing s obj with
  | _ n ih =>
      by_cases hs : s = []
      · rw [parseMembers, if_pos hs]
        exact ⟨.ok _, fun r hr => Except.ok.inj hr ▸ hobj⟩
      · cases hmember : parseMember s obj with
        | error e =>
            rw [parseMembers_of_error hs hmember]
            exact ⟨.error (parseMember_throws s obj e hmember), fun r hr => absurd hr (by simp)⟩
        | ok r =>
            obtain ⟨key, field, rest⟩ := r
            have hobj' : ∀ f ∈ obj ++ [(key, field)], f.1.all isTextByte := by
              intro f hf
              rcases List.mem_append.mp hf with hf | hf
              · exact hobj f hf
              · rw [List.mem_singleton.mp hf]
                exact parseMember_name hmember
            have hend : Throws IsMessage
                (.error (utf8 "expected ',' or '\x7d'") : Except Bytes (ParsedObject × Bytes)) :=
              .error (isMessage_literal (by decide))
            rw [parseMembers_of_member hs hmember]
            split
            · exact ⟨hend, fun r hr => absurd hr (by simp)⟩
            · rename_i c s' hrest
              split
              · have hlt : (skipWs s').length < n := by
                  have hmember' := parseMember_length_lt hmember
                  have hws' := skipWs_length_le s'
                  have hws := skipWs_length_le rest
                  rw [hrest, List.length_cons] at hws
                  omega
                exact ih _ hlt hobj' rfl
              · split
                · exact ⟨.ok _, fun r hr => Except.ok.inj hr ▸ hobj'⟩
                · exact ⟨hend, fun r hr => absurd hr (by simp)⟩

/-- The messages about an object, and the names of one that is read. -/
theorem parseObject_texts (s : Bytes) :
    Throws IsMessage (parseObject s) ∧
      ∀ obj, parseObject s = .ok obj → ∀ field ∈ obj, field.1.all isTextByte := by
  have hend : ∀ (obj : ParsedObject) (rest : Bytes), Throws IsMessage
      (if skipWs rest = [] then .ok obj
        else .error (utf8 "trailing bytes after JSON object") : Except Bytes ParsedObject) := by
    intro obj rest
    split
    · exact .ok _
    · exact .error (isMessage_literal (by decide))
  have hobject : IsMessage (utf8 "payload must be a JSON object") :=
    isMessage_literal (by decide)
  have hempty : ∀ field ∈ ([] : ParsedObject), field.1.all isTextByte := by simp
  unfold parseObject
  split
  · exact ⟨.error hobject, fun obj h => absurd h (by simp)⟩
  · split
    · exact ⟨.error hobject, fun obj h => absurd h (by simp)⟩
    · dsimp only
      have hnone : ∀ {rest : Bytes} {obj : ParsedObject}, (do
          let (obj, s₂) ← (.ok ([], rest) : Except Bytes (ParsedObject × Bytes))
          if skipWs s₂ = [] then .ok obj
          else .error (utf8 "trailing bytes after JSON object")) = .ok obj →
          ∀ field ∈ obj, field.1.all isTextByte := by
        intro rest obj h
        exact (object_end h).1 ▸ hempty
      split
      · exact ⟨(Throws.ok _).bind fun _ _ => hend _ _, fun obj h => hnone h⟩
      · split
        · exact ⟨(Throws.ok _).bind fun _ _ => hend _ _, fun obj h => hnone h⟩
        · rename_i c s' _ _
          obtain ⟨hthrows, hnames⟩ := @parseMembers_texts (c :: s') [] hempty
          refine ⟨hthrows.bind fun _ _ => hend _ _, fun obj h => ?_⟩
          obtain ⟨r, hbody, h⟩ := bind_eq_ok_iff.mp h
          exact (object_end h).1 ▸ hnames r hbody

/-- The messages about a required string. -/
theorem requiredString_throws (obj : ParsedObject) {name : Bytes} (hname : name.all isTextByte) :
    Throws IsMessage (requiredString obj name) := by
  unfold requiredString
  split
  · exact .error (IsMessage.append (isMessage_literal (by decide)) hname)
  · split
    · exact .error (IsMessage.append (isMessage_literal (by decide)) hname)
    · split
      · split
        · exact .error (IsMessage.append (isMessage_literal (by decide)) hname)
        · exact .ok _
      · exact .error (IsMessage.append (isMessage_literal (by decide)) hname)

/-- The messages about a required integer. -/
theorem requiredI64_throws (obj : ParsedObject) {name : Bytes} (hname : name.all isTextByte) :
    Throws IsMessage (requiredI64 obj name) := by
  unfold requiredI64
  split
  · exact .error (IsMessage.append (isMessage_literal (by decide)) hname)
  · split
    · exact .error (IsMessage.append (isMessage_literal (by decide)) hname)
    · split
      · exact .error (IsMessage.append (isMessage_literal (by decide)) hname)
      · exact .ok _

/-- The message of a check. -/
theorem require_throws {p : Bool} {message : Bytes} (hmessage : IsMessage message) :
    Throws IsMessage (require p message) := by
  unfold require
  split
  · exact .ok _
  · exact .error hmessage

/-- Every error of the parser is a message of the engine's own and a name of the payload. -/
theorem parseBetJson_throws [FieldOrder] (payload : Bytes) : Throws IsMessage
    (parseBetJson payload) := by
  unfold parseBetJson
  refine (parseObject_texts payload).1.bind fun obj hobj => ?_
  split
  · rename_i key hunknown
    obtain ⟨field, hfield, rfl⟩ := List.mem_map.mp (unknownField_eq_some hunknown).1
    have hkey := (parseObject_texts payload).2 obj hobj field hfield
    exact .error (IsMessage.append (by decide) hkey)
  · refine (requiredString_throws obj (text_literal (by decide))).bind fun _ _ => ?_
    refine (requiredString_throws obj (text_literal (by decide))).bind fun _ _ => ?_
    refine (requiredString_throws obj (text_literal (by decide))).bind fun _ _ => ?_
    refine (requiredString_throws obj (text_literal (by decide))).bind fun _ _ => ?_
    refine (requiredString_throws obj (text_literal (by decide))).bind fun _ _ => ?_
    refine (requiredString_throws obj (text_literal (by decide))).bind fun _ _ => ?_
    refine (requiredString_throws obj (text_literal (by decide))).bind fun _ _ => ?_
    refine (requiredString_throws obj (text_literal (by decide))).bind fun _ _ => ?_
    refine (requiredI64_throws obj (text_literal (by decide))).bind fun _ _ => ?_
    refine (requiredI64_throws obj (text_literal (by decide))).bind fun _ _ => ?_
    refine (requiredI64_throws obj (text_literal (by decide))).bind fun _ _ => ?_
    refine (require_throws (isMessage_literal (by decide))).bind fun _ _ => ?_
    refine (require_throws (isMessage_literal (by decide))).bind fun _ _ => ?_
    refine (require_throws (isMessage_literal (by decide))).bind fun _ _ => ?_
    exact (require_throws (isMessage_literal (by decide))).bind fun _ _ => .ok _

/-- The texts of a decision on a bet. -/
theorem ofBet_texts [FieldOrder] {payload : Bytes} {bet : BetSubmitted}
    (h : parseBetJson payload = .ok bet) {now exposure remaining : Int} {accepted : Bool}
    {code : ReasonCode} {reason : Bytes} (hreason : reason.all isTextByte) :
    ∀ text ∈ (BetResult.ofBet bet now accepted code reason exposure remaining).texts,
      text.all isTextByte := by
  have hcode : ∀ code : ReasonCode, (utf8 code.name).all isTextByte := by
    intro code
    cases code <;> exact text_literal (by decide)
  have hechoed := echoed_text h
  simp only [BetSubmitted.echoed, List.forall_mem_cons] at hechoed
  simp only [BetResult.texts, BetResult.ofBet, List.forall_mem_cons]
  grind

/-- The texts of a result have bytes of the decoder only. -/
theorem evaluateJson_texts [FieldOrder] (cap now : Int) (s : Accounts) (payload : Bytes) :
    ∀ text ∈ (evaluateJson cap s now payload).1.texts, text.all isTextByte := by
  cases hparse : parseBetJson payload with
  | error e =>
      have hmessage := parseBetJson_throws payload e hparse
      rw [evaluateJson_of_error hparse]
      simp only [BetResult.texts, BetResult.invalid, List.forall_mem_cons, List.not_mem_nil,
        false_implies, implies_true, and_true]
      exact ⟨rfl, rfl, rfl, rfl, rfl, rfl, rfl, text_literal (by decide), hmessage.2⟩
  | ok bet =>
      have hresult := @evaluated_evaluateJson _ cap now s payload bet hparse
      generalize evaluateJson cap s now payload = r at hresult
      cases hresult with
      | staleQuote => exact ofBet_texts hparse (text_literal (by decide))
      | accountNotFound => exact ofBet_texts hparse (text_literal (by decide))
      | insufficientFunds => exact ofBet_texts hparse (text_literal (by decide))
      | saecExceeded => exact ofBet_texts hparse (text_literal (by decide))
      | acceptance => exact ofBet_texts hparse (text_literal (by decide))

/-! ## The text of a result -/

/-- The members that `to_json` writes, in their order. -/
def BetResult.members (result : BetResult) : List (Bytes × Value) :=
  [(utf8 "event_id", .str result.eventId), (utf8 "bet_id", .str result.betId),
    (utf8 "account_id", .str result.accountId),
    (utf8 "idempotency_key", .str result.idempotencyKey),
    (utf8 "match_id", .str result.matchId), (utf8 "selection_id", .str result.selectionId),
    (utf8 "stake_cents", .int result.stakeCents), (utf8 "odds", .str result.odds),
    (utf8 "accepted", .bool result.accepted),
    (utf8 "reason_code", .str (utf8 result.reasonCode.name)),
    (utf8 "reason", .str result.reason),
    (utf8 "accepted_exposure_cents", .int result.acceptedExposureCents),
    (utf8 "remaining_balance_cents", .int result.remainingBalanceCents),
    (utf8 "decision_timestamp_ms", .int result.decisionTimestampMs)]

/-- A name that is written as it is. -/
def IsName (name : String) : Prop :=
  jsonEscape (utf8 name) = utf8 name ∧ (utf8 name).all isTextByte

instance (name : String) : Decidable (IsName name) := inferInstanceAs (Decidable (_ ∧ _))

/-- What the engine escapes, it reads back. -/
theorem engineString_escaped {v : Bytes} (hv : v.all isTextByte) (t : Bytes) :
    EngineString (ascii '"' :: (jsonEscape v ++ ascii '"' :: t)) v t := by
  rw [EngineString, parseJsonStringToken, if_pos rfl, parseStringBody_jsonEscape hv]

/-- A name, a colon and a value are a member. -/
theorem member_of_value {lit : String} (name : String) (hname : IsName name)
    (hlit : lit = "\"" ++ name ++ "\":") {t r : Bytes} {v : Value}
    (hvalue : ValueToken EngineString t v r) :
    Member EngineString (utf8 lit ++ t) (utf8 name, v) r := by
  have htoken := engineString_escaped hname.2 (ascii ':' :: t)
  rw [hname.1] at htoken
  have hbytes : utf8 lit ++ t = ascii '"' :: (utf8 name ++ ascii '"' :: ascii ':' :: t) := by
    rw [hlit, utf8_append, utf8_append, show utf8 "\"" = [ascii '"'] from rfl,
      show utf8 "\":" = [ascii '"', ascii ':'] from rfl]
    simp
  rw [hbytes]
  exact .mk .nil htoken .nil .nil hvalue

/-- A member is read back when its value is. -/
theorem members_value {lit : String} (name : String) (hname : IsName name)
    (hlit : lit = "\"" ++ name ++ "\":") {t rest r : Bytes} {v : Value}
    {ms : List (Bytes × Value)} (hvalue : ValueToken EngineString t v (ascii ',' :: rest))
    (h : Members EngineString rest ms r) :
    Members EngineString (utf8 lit ++ t) ((utf8 name, v) :: ms) r :=
  .more (member_of_value name hname hlit hvalue) .nil h

theorem head?_not_digit {c : UInt8} (hc : isDigit c = false) (s : Bytes) :
    ∀ b ∈ (c :: s).head?, isDigit b = false := by
  simp [hc]

/-- An integer member is read back. -/
theorem members_int {lit : String} (name : String) (hname : IsName name)
    (hlit : lit = "\"" ++ name ++ "\":") (n : Int) {rest r : Bytes} {ms : List (Bytes × Value)}
    (h : Members EngineString rest ms r) :
    Members EngineString (utf8 lit ++ (intDigits n ++ (utf8 "," ++ rest)))
      ((utf8 name, .int n) :: ms) r :=
  members_value name hname hlit (.int (intToken_intDigits n (head?_not_digit (by decide) rest))) h

/-- And a string member. -/
theorem members_str (name : String) (hname : IsName name) {v rest r : Bytes}
    (hv : v.all isTextByte) {ms : List (Bytes × Value)} (h : Members EngineString rest ms r) :
    Members EngineString (stringMember name v ++ rest) ((utf8 name, .str v) :: ms) r := by
  have hbytes : stringMember name v ++ rest = utf8 ("\"" ++ name ++ "\":") ++
      ascii '"' :: (jsonEscape v ++ ascii '"' :: ascii ',' :: rest) := by
    have hquotes : utf8 ("\"" ++ name ++ "\":\"") =
        utf8 ("\"" ++ name ++ "\":") ++ [ascii '"'] := by
      rw [show "\":\"" = "\":" ++ "\"" from rfl, ← String.append_assoc, utf8_append]
      rfl
    rw [stringMember, hquotes, show utf8 "\"," = [ascii '"', ascii ','] from rfl]
    simp
  rw [hbytes]
  exact members_value name hname rfl (.str (engineString_escaped hv _)) h

/-- The encoder's text of a result with readable texts is the object of its members. -/
theorem toJson_isObject {result : BetResult} (h : ∀ text ∈ result.texts, text.all isTextByte) :
    IsObject EngineString (toJson result) result.members := by
  simp only [BetResult.texts, List.forall_mem_cons, List.not_mem_nil, false_implies,
    implies_true, and_true] at h
  obtain ⟨heventId, hbetId, haccountId, hkey, hmatchId, hselectionId, hodds, hcode, hreason⟩ := h
  have haccepted : ∀ rest, ValueToken EngineString
      ((if result.accepted then utf8 "true," else utf8 "false,") ++ rest)
      (.bool result.accepted) (ascii ',' :: rest) := by
    intro rest
    cases result.accepted with
    | true => exact .literalTrue
    | false => exact .literalFalse
  have hlast : Members EngineString
      (utf8 "\"decision_timestamp_ms\":" ++
        (intDigits result.decisionTimestampMs ++ [ascii '\x7d']))
      [(utf8 "decision_timestamp_ms", .int result.decisionTimestampMs)] [ascii '\x7d'] :=
    .one (member_of_value "decision_timestamp_ms" (by decide) rfl
      (.int (intToken_intDigits _ (head?_not_digit (by decide) []))))
  have hopen : utf8 "\x7b" = [ascii '\x7b'] := rfl
  have hclose : utf8 "\x7d" = [ascii '\x7d'] := rfl
  unfold toJson BetResult.members
  simp only [List.append_assoc, hopen, hclose, List.singleton_append]
  refine .members .nil ?_ .nil .nil
  refine members_str "event_id" (by decide) heventId ?_
  refine members_str "bet_id" (by decide) hbetId ?_
  refine members_str "account_id" (by decide) haccountId ?_
  refine members_str "idempotency_key" (by decide) hkey ?_
  refine members_str "match_id" (by decide) hmatchId ?_
  refine members_str "selection_id" (by decide) hselectionId ?_
  refine members_int "stake_cents" (by decide) rfl _ ?_
  refine members_str "odds" (by decide) hodds ?_
  refine members_value "accepted" (by decide) rfl (haccepted _) ?_
  refine members_str "reason_code" (by decide) hcode ?_
  refine members_str "reason" (by decide) hreason ?_
  refine members_int "accepted_exposure_cents" (by decide) rfl _ ?_
  exact members_int "remaining_balance_cents" (by decide) rfl _ hlast

/-- The encoder's text of a result has one reading, which is the result; `json_escape` has
substituted nothing, and the result of a bet echoes it. -/
theorem toJson_faithful [FieldOrder] (cap now : Int) (s : Accounts) (payload : Bytes) :
    let result := (evaluateJson cap s now payload).1
    (∀ members, IsObject EngineString (toJson result) members ↔ members = result.members) ∧
      (∀ text ∈ result.texts, ∀ c ∈ text, jsonEscapeByte c = utf8 "?" → c = ascii '?') ∧
      ∀ bet, parseBetJson payload = .ok bet →
        result.eventId = bet.eventId ∧ result.betId = bet.betId ∧
          result.accountId = bet.accountId ∧ result.idempotencyKey = bet.idempotencyKey ∧
          result.matchId = bet.matchId ∧ result.selectionId = bet.selectionId ∧
          result.odds = bet.odds := by
  intro result
  have htexts : ∀ text ∈ result.texts, text.all isTextByte :=
    evaluateJson_texts cap now s payload
  have hobject := toJson_isObject htexts
  refine ⟨fun members => ⟨fun h => h.unique tokenRule_engineString hobject, ?_⟩, ?_, ?_⟩
  · rintro rfl
    exact hobject
  · intro text htext c hc
    exact jsonEscapeByte_kept (List.all_eq_true.mp (htexts text htext) c hc)
  · intro bet hparse
    have hresult := @evaluated_evaluateJson _ cap now s payload bet hparse
    change Evaluated cap s now bet (evaluateJson cap s now payload) at hresult
    generalize hr : evaluateJson cap s now payload = r at hresult
    have hfirst : result = r.1 := congrArg Prod.fst hr
    rw [hfirst]
    cases hresult <;> exact ⟨rfl, rfl, rfl, rfl, rfl, rfl, rfl⟩

end RiskEngine
end BettingPlatform
