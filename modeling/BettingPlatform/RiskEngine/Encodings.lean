import BettingPlatform.RiskEngine.ParserSoundness

/-!
# Encodings of a bet

A bet can be written with its members in any order, with whitespace around any token, and with
any byte of a string raw or by its short escape.  The parser reads each of these texts as the
bet.  The scanners are maximal where the grammar is not, so every rule is stated for a text
that goes on with a byte the scanner stops at.

Main results:

- Theorem `parseStringBody_of_spelled`: the scanner decodes every spelling of a string.
- Theorem `parseMembers_of_members`: the member loop reads every derivation of its members.
- Theorem `parseObject_of_isObject`: the fields of an object text hold its members.
- Theorem `parseBetJson_of_encoding`: a bet has an encoding, and each one is read as the bet.
-/

namespace BettingPlatform
namespace RiskEngine

open JsonGrammar

/-! ## Spellings -/

/-- `Spelled v x`: in `x` every byte of `v` stands raw, where JSON permits it, or as its short
escape. -/
inductive Spelled : Bytes → Bytes → Prop
  | nil : Spelled [] []
  | raw {c : UInt8} {v x : Bytes} : c ≠ ascii '"' → c ≠ ascii '\\' → 0x20 ≤ c → Spelled v x →
      Spelled (c :: v) (c :: x)
  | escape {e c : UInt8} {v x : Bytes} : (e, c) ∈ escapes → Spelled v x →
      Spelled (c :: v) (ascii '\\' :: e :: x)

/-- A string token that spells its value. -/
def SpelledToken (t v r : Bytes) : Prop :=
  ∃ x, Spelled v x ∧ t = ascii '"' :: (x ++ ascii '"' :: r)

theorem unescape_of_mem_escapes {e c : UInt8} (h : (e, c) ∈ escapes) : unescape e = some c := by
  simp only [escapes, List.mem_cons, Prod.mk.injEq, List.not_mem_nil, or_false] at h
  rcases h with ⟨rfl, rfl⟩ | ⟨rfl, rfl⟩ | ⟨rfl, rfl⟩ | ⟨rfl, rfl⟩ | ⟨rfl, rfl⟩ | ⟨rfl, rfl⟩ |
    ⟨rfl, rfl⟩ | ⟨rfl, rfl⟩
  all_goals rfl

/-- The scanner decodes every spelling. -/
theorem parseStringBody_of_spelled {v x : Bytes} (h : Spelled v x) (r : Bytes) :
    parseStringBody (x ++ ascii '"' :: r) = some (v, r) := by
  induction h with
  | nil =>
      rw [List.nil_append, parseStringBody.eq_def]
      simp
  | @raw c v x hquote hbackslash hcontrol _ ih =>
      have hcontrol' : ¬ c < 0x20 := UInt8.not_lt.mpr hcontrol
      rw [List.cons_append, parseStringBody.eq_def]
      simp [hquote, hbackslash, hcontrol', ih]
  | @escape e c v x hescape _ ih =>
      have hquote : ascii '\\' ≠ ascii '"' := by decide
      rw [List.cons_append, List.cons_append, parseStringBody.eq_def]
      simp [hquote, unescape_of_mem_escapes hescape, ih]

/-- Whatever spells a string, the engine reads the string. -/
theorem engineString_of_spelled {t v r : Bytes} (h : SpelledToken t v r) : EngineString t v r := by
  obtain ⟨x, hspelled, rfl⟩ := h
  rw [EngineString, parseJsonStringToken, if_pos rfl]
  exact parseStringBody_of_spelled hspelled r

/-! ## Scanners -/

/-- The scanner skips the whitespace of a derivation, and stops where a token begins. -/
theorem skipWs_of_ws_token {t r : Bytes} {c : UInt8} (hc : isWs c = false) (h : Ws t (c :: r)) :
    skipWs t = c :: r := by
  generalize hs : c :: r = s at h
  induction h with
  | nil =>
      subst hs
      rw [skipWs, List.dropWhile_cons_of_neg (by simp [hc])]
  | cons hspace _ ih =>
      rw [isSpace_eq_isWs] at hspace
      rw [skipWs, List.dropWhile_cons_of_pos hspace]
      exact ih hs

/-- The first byte of a token that follows whitespace. -/
theorem head?_of_ws {t r : Bytes} {c : UInt8} (h : Ws t (c :: r)) :
    ∃ d s, t = d :: s ∧ (isSpace d ∨ d = c) := by
  cases h with
  | nil => exact ⟨c, r, rfl, Or.inr rfl⟩
  | cons hspace _ => exact ⟨_, _, rfl, Or.inl hspace⟩

/-- The text behind a member's value: whitespace, and a comma or the closing brace. -/
def EndsMember (r : Bytes) : Prop :=
  ∃ c s, Ws r (c :: s) ∧ (c = ascii ',' ∨ c = ascii '\x7d')

/-- What follows a member's value does not go on with a number. -/
theorem EndsMember.not_number {r : Bytes} (h : EndsMember r) :
    ∃ c s, r = c :: s ∧ isDigit c = false ∧ c ≠ ascii '.' ∧ c ≠ ascii 'e' ∧ c ≠ ascii 'E' := by
  obtain ⟨c, s, hws, hc⟩ := h
  obtain ⟨d, s', rfl, hd⟩ := head?_of_ws hws
  refine ⟨d, s', rfl, ?_⟩
  rcases hd with hspace | rfl
  · simp only [isSpace, Bool.or_eq_true, decide_eq_true_eq] at hspace
    rcases hspace with ((rfl | rfl) | rfl) | rfl <;> decide
  · rcases hc with rfl | rfl <;> decide

/-- A field reads as a value: its kind is the value's, and so is its raw text. -/
structure FieldValue.Reads (field : FieldValue) (v : Value) : Prop where
  kind : field.isString = true ↔ ∃ text, v = .str text
  raw : ValueToken EngineString field.raw v []

/-- The field map reads as the members, in their order. -/
def ParsedObject.Reads (obj : ParsedObject) (members : List (Bytes × Value)) : Prop :=
  List.Forall₂ (fun field member => field.1 = member.1 ∧ field.2.Reads member.2) obj members

/-- The values the engine's parser knows. -/
def NotBool (v : Value) : Prop :=
  ∀ b, v ≠ .bool b

/-- Digits are scanned up to the first byte that is none. -/
theorem scanDigits_of_digits {digits r : Bytes} (hdigits : ∀ d ∈ digits, isDigit d)
    (hr : ∀ b ∈ r.head?, isDigit b = false) : scanDigits (digits ++ r) = (digits, r) := by
  rw [scanDigits, List.takeWhile_append_of_pos hdigits, List.dropWhile_append_of_pos hdigits]
  cases r with
  | nil => simp
  | cons b r => simp [hr b (by simp)]

theorem ne_of_isDigit {b c : UInt8} (hb : isDigit b) (hc : isDigit c = false) : b ≠ c := by
  rintro rfl
  rw [hb] at hc
  contradiction

/-- The integer scan reads an integer of the grammar. -/
theorem parseValue_of_intToken (key : Bytes) {t r : Bytes} {n : Int} (h : IntToken t n r)
    (hend : EndsMember r) :
    ∃ field, parseValue key t = .ok (field, r) ∧ FieldValue.Reads field (.int n) := by
  obtain ⟨c, s, rfl, hdigit, hdot, he, hE⟩ := hend.not_number
  cases h with
  | @nonneg digits _ hnumeral hr =>
      obtain ⟨b, bs, rfl⟩ := List.exists_cons_of_ne_nil hnumeral.1
      have hb := hnumeral.2.1 b List.mem_cons_self
      have hraw : IntToken (b :: bs) (digitsValue (b :: bs)) [] := by
        have htoken := @IntToken.nonneg _ [] hnumeral (by simp)
        rwa [List.append_nil] at htoken
      refine ⟨⟨false, b :: bs⟩, ?_, ⟨by simp, .int hraw⟩⟩
      have hscan := scanDigits_of_digits hnumeral.2.1 hr
      rw [List.cons_append] at hscan ⊢
      rw [parseValue, if_neg (ne_of_isDigit hb rfl)]
      simp only [ne_of_isDigit hb (show isDigit (ascii '-') = false from rfl), if_false,
        List.length_nil, List.drop_zero, hscan]
      simp [hdot, he, hE]
  | @neg digits _ hnumeral hr =>
      have hminus : ascii '-' ≠ ascii '"' := by decide
      have hraw : IntToken (ascii '-' :: digits) (-digitsValue digits) [] := by
        have htoken := @IntToken.neg _ [] hnumeral (by simp)
        rwa [List.append_nil] at htoken
      refine ⟨⟨false, ascii '-' :: digits⟩, ?_, ⟨by simp, .int hraw⟩⟩
      rw [parseValue, if_neg hminus]
      simp only [if_true, List.length_singleton, List.drop_one, List.tail_cons,
        scanDigits_of_digits hnumeral.2.1 hr]
      simp [hnumeral.1, hdot, he, hE]

/-- The parser reads a value of the grammar that is no literal. -/
theorem parseValue_of_valueToken (key : Bytes) {t r : Bytes} {v : Value}
    (h : ValueToken EngineString t v r) (hv : NotBool v) (hend : EndsMember r) :
    ∃ field, parseValue key t = .ok (field, r) ∧ FieldValue.Reads field v := by
  cases h with
  | @str _ text _ htoken =>
      obtain ⟨t', rfl, -⟩ := parseJsonStringToken_quoted htoken
      obtain ⟨token, -, ht, hagain⟩ := parseJsonStringToken_token htoken
      have hraw : (ascii '"' :: t').take ((ascii '"' :: t').length - r.length) = token := by
        rw [ht, List.length_append, Nat.add_sub_cancel, List.take_left]
      have hself : EngineString token text [] := by
        have hnil := hagain []
        rwa [List.append_nil] at hnil
      refine ⟨⟨true, token⟩, ?_, ⟨by simp, .str hself⟩⟩
      rw [EngineString] at htoken
      rw [parseValue, if_pos rfl, htoken]
      simp only [hraw]
  | int htoken => exact parseValue_of_intToken key htoken hend
  | literalTrue => exact absurd rfl (hv true)
  | literalFalse => exact absurd rfl (hv false)

/-- One round of the member loop reads a member of the grammar. -/
theorem parseMember_of_member {t r : Bytes} {m : Bytes × Value} (h : Member EngineString t m r)
    (hv : NotBool m.2) (hend : EndsMember r) {obj : ParsedObject}
    (hnew : m.1 ∉ obj.map Prod.fst) :
    ∃ field, parseMember (skipWs t) obj = .ok (m.1, field, r) ∧ FieldValue.Reads field m.2 := by
  cases h with
  | @mk t₁ t₂ t₃ t₄ _ name v hws hname hcolon hws' hvalue =>
      obtain ⟨t', rfl⟩ := tokenRule_engineString.quoted hname
      obtain ⟨c, s, rfl, hc⟩ := hvalue.head tokenRule_engineString
      rw [isSpace_eq_isWs] at hc
      obtain ⟨field, hparse, hreads⟩ := parseValue_of_valueToken name hvalue hv hend
      have hfree : (obj.get? name).isSome = false := by
        rw [Bool.eq_false_iff, ne_eq, ParsedObject.get?, List.lookup_isSome_iff]
        rintro ⟨⟨name', field'⟩, hmem, heq⟩
        have hname : name = name' := by simpa using heq
        exact hnew (List.mem_map.mpr ⟨_, hmem, hname.symm⟩)
      rw [EngineString] at hname
      refine ⟨field, ?_, hreads⟩
      rw [skipWs_of_ws_token (by decide) hws, parseMember, hname]
      simp only [hfree, Bool.false_eq_true, if_false, skipWs_of_ws_token (by decide) hcolon,
        ne_eq, not_true_eq_false, skipWs_of_ws_token hc hws', hparse]
      rfl

/-! ## Objects -/

/-- The member loop reads every derivation of its members in front of a closing brace. -/
theorem parseMembers_of_members {t r rest : Bytes} {ms : List (Bytes × Value)}
    (h : Members EngineString t ms r) (hclose : Ws r (ascii '}' :: rest))
    (hv : ∀ m ∈ ms, NotBool m.2) (hnodup : (ms.map Prod.fst).Nodup) {obj : ParsedObject}
    (hnew : ∀ m ∈ ms, m.1 ∉ obj.map Prod.fst) :
    ∃ fields, parseMembers (skipWs t) obj = .ok (obj ++ fields, rest) ∧
      ParsedObject.Reads fields ms := by
  have hne : ∀ {t m r}, Member EngineString t m r → skipWs t ≠ [] := by
    rintro t m r ⟨hws, hname, -, -, -⟩
    obtain ⟨s, rfl⟩ := tokenRule_engineString.quoted hname
    rw [skipWs_of_ws_token (by decide) hws]
    exact List.cons_ne_nil _ _
  induction h generalizing obj with
  | @one t r m hmember =>
      obtain ⟨field, hparse, hreads⟩ := parseMember_of_member hmember (hv m (by simp))
        ⟨_, _, hclose, Or.inr rfl⟩ (hnew m (by simp))
      refine ⟨[(m.1, field)], ?_, .cons ⟨rfl, hreads⟩ .nil⟩
      have hcomma : ascii '}' ≠ ascii ',' := by decide
      rw [parseMembers_of_member (hne hmember) hparse, skipWs_of_ws_token (by decide) hclose]
      simp [hcomma]
  | @more t t₁ t₂ r m ms hmember hcomma _ ih =>
      obtain ⟨field, hparse, hreads⟩ := parseMember_of_member hmember (hv m (by simp))
        ⟨_, _, hcomma, Or.inl rfl⟩ (hnew m (by simp))
      rw [List.map_cons, List.nodup_cons] at hnodup
      have hnew' : ∀ m' ∈ ms, m'.1 ∉ (obj ++ [(m.1, field)]).map Prod.fst := by
        intro m' hm' hin
        rw [List.map_append, List.mem_append] at hin
        rcases hin with hold | hown
        · exact hnew m' (List.mem_cons_of_mem _ hm') hold
        · have hname : m'.1 = m.1 := by simpa using hown
          exact hnodup.1 (List.mem_map.mpr ⟨m', hm', hname⟩)
      obtain ⟨fields, hrest, hfields⟩ :=
        ih hclose (fun m' hm' => hv m' (List.mem_cons_of_mem _ hm')) hnodup.2 hnew'
      refine ⟨(m.1, field) :: fields, ?_, .cons ⟨rfl, hreads⟩ hfields⟩
      rw [parseMembers_of_member (hne hmember) hparse, skipWs_of_ws_token (by decide) hcomma]
      simp [hrest]

/-- The fields of an object text hold its members. -/
theorem parseObject_of_isObject {s : Bytes} {ms : List (Bytes × Value)}
    (h : IsObject EngineString s ms) (hv : ∀ m ∈ ms, NotBool m.2)
    (hnodup : (ms.map Prod.fst).Nodup) :
    ∃ obj, parseObject s = .ok obj ∧ ParsedObject.Reads obj ms := by
  have hbrace : ascii '\x7b' ≠ ascii '\x7d' := by decide
  cases h with
  | empty hopen hclose hend =>
      refine ⟨[], ?_, .nil⟩
      rw [parseObject, skipWs_of_ws_token (by decide) hopen]
      simp [skipWs_of_ws_token (by decide) hclose, skipWs_of_ws hend, bind, Except.bind]
  | members hopen hmembers hclose hend =>
      obtain ⟨fields, hparse, hreads⟩ :=
        @parseMembers_of_members _ _ _ _ hmembers hclose hv hnodup [] (by simp)
      obtain ⟨s', hquote⟩ := hmembers.quoted tokenRule_engineString
      rw [skipWs_of_ws_token (by decide) hquote] at hparse
      have hfirst : ascii '"' ≠ ascii '\x7d' := by decide
      refine ⟨fields, ?_, hreads⟩
      rw [parseObject, skipWs_of_ws_token (by decide) hopen]
      simp [skipWs_of_ws_token (by decide) hquote, hfirst, hparse, skipWs_of_ws hend, bind,
        Except.bind]

/-- A member of the text is a field of the map. -/
theorem ParsedObject.Reads.get? {obj : ParsedObject} {ms : List (Bytes × Value)}
    (h : obj.Reads ms) (hnodup : (ms.map Prod.fst).Nodup) {name : Bytes} {v : Value}
    (hmem : (name, v) ∈ ms) : ∃ field, obj.get? name = some field ∧ field.Reads v := by
  induction h with
  | nil => simp at hmem
  | @cons entry m obj ms hentry _ ih =>
      obtain ⟨key, field⟩ := entry
      obtain ⟨name', v'⟩ := m
      obtain ⟨rfl, hreads⟩ := hentry
      rw [List.map_cons, List.nodup_cons] at hnodup
      rcases List.mem_cons.mp hmem with heq | hlater
      · obtain ⟨rfl, rfl⟩ := Prod.mk.inj heq
        exact ⟨field, by simp [ParsedObject.get?], hreads⟩
      · obtain ⟨field', hget, hreads'⟩ := ih hnodup.2 hlater
        have hne : name ≠ key := by
          rintro rfl
          exact hnodup.1 (List.mem_map.mpr ⟨_, hlater, rfl⟩)
        refine ⟨field', ?_, hreads'⟩
        unfold ParsedObject.get? at hget ⊢
        rw [List.lookup_cons, beq_false_of_ne hne]
        exact hget

/-- What is read has the names of what was written. -/
theorem ParsedObject.Reads.names {obj : ParsedObject} {ms : List (Bytes × Value)}
    (h : obj.Reads ms) : obj.map Prod.fst = ms.map Prod.fst := by
  induction h with
  | nil => rfl
  | cons hentry _ ih => rw [List.map_cons, List.map_cons, hentry.1, ih]

/-! ## Fields -/

/-- A field that reads as a string of 1 to 128 bytes is taken. -/
theorem requiredString_of_reads {obj : ParsedObject} {name v : Bytes} {field : FieldValue}
    (hget : obj.get? name = some field) (h : field.Reads (.str v))
    (hlength : 1 ≤ v.length ∧ v.length ≤ 128) : requiredString obj name = .ok v := by
  have hkind : field.isString = true := h.kind.mpr ⟨v, rfl⟩
  have htoken : parseJsonStringToken field.raw = some (v, []) := valueToken_str_iff.mp h.raw
  have hlong : ¬ (v = [] ∨ 128 < v.length) := by
    rintro (rfl | hlong)
    · simp at hlength
    · omega
  simp [requiredString, hget, hkind, htoken, hlong]

/-- An integer token in range is converted to its value. -/
theorem fromChars_of_intToken {t : Bytes} {n : Int} (h : IntToken t n []) (hn : IsInt64 n) :
    fromChars t = some n := by
  generalize hr : ([] : Bytes) = r at h
  cases h with
  | @nonneg digits _ hnumeral =>
      subst hr
      have hall : digits.all isDigit = true := List.all_eq_true.mpr hnumeral.2.1
      have hminus : digits.head? ≠ some (ascii '-') := by
        intro hhead
        exact absurd (hnumeral.2.1 _ (List.mem_of_mem_head? hhead)) (by decide)
      rw [List.append_nil]
      unfold IsInt64 at hn
      simp only [fromChars, hminus, hall, hnumeral.1, if_false, Bool.not_true,
        Bool.false_eq_true, or_self, if_pos hn]
  | @neg digits _ hnumeral =>
      subst hr
      have hall : digits.all isDigit = true := List.all_eq_true.mpr hnumeral.2.1
      rw [List.append_nil]
      unfold IsInt64 at hn
      simp only [fromChars, List.head?_cons, if_true, List.drop_one, List.tail_cons, hall,
        hnumeral.1, Bool.not_true, Bool.false_eq_true, or_self, if_false, if_pos hn]

/-- A field that reads as a 64-bit integer is taken. -/
theorem requiredI64_of_reads {obj : ParsedObject} {name : Bytes} {n : Int} {field : FieldValue}
    (hget : obj.get? name = some field) (h : field.Reads (.int n)) (hn : IsInt64 n) :
    requiredI64 obj name = .ok n := by
  have hkind : field.isString = false := by
    rw [Bool.eq_false_iff, ne_eq, h.kind]
    rintro ⟨text, htext⟩
    cases htext
  have hvalue : fromChars field.raw = some n :=
    fromChars_of_intToken (valueToken_int_iff.mp h.raw) hn
  simp [requiredI64, hget, hkind, hvalue]

/-! ## Bets -/

/-- The members of a bet. -/
def BetSubmitted.members (bet : BetSubmitted) : List (Bytes × Value) :=
  [(utf8 "event_id", .str bet.eventId), (utf8 "bet_id", .str bet.betId),
    (utf8 "account_id", .str bet.accountId), (utf8 "idempotency_key", .str bet.idempotencyKey),
    (utf8 "match_id", .str bet.matchId), (utf8 "market_id", .str bet.marketId),
    (utf8 "selection_id", .str bet.selectionId), (utf8 "stake_cents", .int bet.stakeCents),
    (utf8 "potential_payout_cents", .int bet.potentialPayoutCents), (utf8 "odds", .str bet.odds),
    (utf8 "bet_timestamp_ms", .int bet.betTimestampMs)]

/-- The texts that encode a bet: objects with its members in any order, with any whitespace,
and with any spelling of each string. -/
def BetSubmitted.IsEncoding (bet : BetSubmitted) (s : Bytes) : Prop :=
  ∃ ms, ms.Perm bet.members ∧ IsObject SpelledToken s ms

/-- The members of a bet have the allowed names. -/
theorem BetSubmitted.members_names (bet : BetSubmitted) : bet.members.map Prod.fst = allowed :=
  rfl

/-- The allowed names differ from each other. -/
theorem allowed_nodup : allowed.Nodup :=
  List.Nodup.map (fun _ _ => utf8_injective) (by decide)

/-- No member of a bet is a boolean. -/
theorem BetSubmitted.members_notBool (bet : BetSubmitted) : ∀ m ∈ bet.members, NotBool m.2 := by
  simp [BetSubmitted.members, NotBool]

/-- Every encoding of a bet that passes the checks is read as the bet. -/
theorem BetSubmitted.Valid.parse_encoding [FieldOrder] {bet : BetSubmitted} (hvalid : bet.Valid)
    {s : Bytes} (hs : bet.IsEncoding s) : parseBetJson s = .ok bet := by
  obtain ⟨ms, hperm, hobject⟩ := hs
  have hnames := hperm.map Prod.fst
  rw [bet.members_names] at hnames
  have hnodup : (ms.map Prod.fst).Nodup := hnames.nodup_iff.mpr allowed_nodup
  obtain ⟨obj, hparse, hreads⟩ := parseObject_of_isObject
    (hobject.mono fun _ _ _ => engineString_of_spelled)
    (fun m hm => bet.members_notBool m (hperm.mem_iff.mp hm)) hnodup
  have hstring : ∀ {name v : Bytes}, (name, Value.str v) ∈ bet.members →
      1 ≤ v.length ∧ v.length ≤ 128 → requiredString obj name = .ok v := by
    intro name v hmem hlength
    obtain ⟨field, hget, hfield⟩ := hreads.get? hnodup (hperm.mem_iff.mpr hmem)
    exact requiredString_of_reads hget hfield hlength
  have hint : ∀ {name : Bytes} {n : Int}, (name, Value.int n) ∈ bet.members → IsInt64 n →
      requiredI64 obj name = .ok n := by
    intro name n hmem hn
    obtain ⟨field, hget, hfield⟩ := hreads.get? hnodup (hperm.mem_iff.mpr hmem)
    exact requiredI64_of_reads hget hfield hn
  have hlength := hvalid.string_length
  have hpos := hvalid.stake_pos
  have hle := hvalid.stake_le_payout
  have hlt := hvalid.payout_lt
  have hts := hvalid.timestamp_pos
  have hts_lt := hvalid.timestamp_lt
  rw [parseBetJson_eq_ok_iff]
  refine ⟨obj, hparse, fun field hfield => ?_, ?_⟩
  · rw [← hnames.mem_iff, ← hreads.names]
    exact List.mem_map_of_mem hfield
  · exact ⟨hstring (by simp [members]) (hlength _ (by simp)),
      hstring (by simp [members]) (hlength _ (by simp)),
      hstring (by simp [members]) (hlength _ (by simp)),
      hstring (by simp [members]) (hlength _ (by simp)),
      hstring (by simp [members]) (hlength _ (by simp)),
      hstring (by simp [members]) (hlength _ (by simp)),
      hstring (by simp [members]) (hlength _ (by simp)),
      hstring (by simp [members]) (hlength _ (by simp)),
      hint (by simp [members]) ⟨by omega, by omega⟩,
      hint (by simp [members]) ⟨by omega, by omega⟩,
      hint (by simp [members]) ⟨by omega, by omega⟩, hpos, hle, hts⟩

/-! ## There is an encoding -/

/-- The bytes a spelling can write: those that are no control characters, and those with a
short escape. -/
def IsWritable (b : UInt8) : Prop :=
  0x20 ≤ b ∨ b = 0x08 ∨ b = 0x0C ∨ b = ascii '\n' ∨ b = ascii '\r' ∨ b = ascii '\t'

instance (b : UInt8) : Decidable (IsWritable b) := inferInstanceAs (Decidable (_ ∨ _))

/-- Every writable string has a spelling. -/
theorem exists_spelled {v : Bytes} (hv : ∀ b ∈ v, IsWritable b) : ∃ x, Spelled v x := by
  induction v with
  | nil => exact ⟨[], .nil⟩
  | cons b v ih =>
      obtain ⟨hb, hv'⟩ := List.forall_mem_cons.mp hv
      obtain ⟨x, hx⟩ := ih hv'
      have hescape : ∀ {e : UInt8}, (e, b) ∈ escapes → ∃ x, Spelled (b :: v) x :=
        fun he => ⟨_, .escape he hx⟩
      rcases hb with hprintable | rfl | rfl | rfl | rfl | rfl
      · by_cases hquote : b = ascii '"'
        · exact @hescape (ascii '"') (by rw [hquote]; decide)
        · by_cases hbackslash : b = ascii '\\'
          · exact @hescape (ascii '\\') (by rw [hbackslash]; decide)
          · exact ⟨b :: x, .raw hquote hbackslash hprintable hx⟩
      · exact @hescape (ascii 'b') (by decide)
      · exact @hescape (ascii 'f') (by decide)
      · exact @hescape (ascii 'n') (by decide)
      · exact @hescape (ascii 'r') (by decide)
      · exact @hescape (ascii 't') (by decide)

/-- A value that can be written: a writable string, or an integer. -/
def IsWritableValue (v : Value) : Prop :=
  (∃ text, v = .str text ∧ ∀ b ∈ text, IsWritable b) ∨ ∃ n, v = .int n

/-- A member with a writable name and value has a text in front of any punctuation. -/
theorem exists_member {m : Bytes × Value} (hname : ∀ b ∈ m.1, IsWritable b)
    (hv : IsWritableValue m.2) {c : UInt8} (hc : isDigit c = false) (r : Bytes) :
    ∃ t, Member SpelledToken t m (c :: r) := by
  obtain ⟨name, v⟩ := m
  obtain ⟨x, hx⟩ := exists_spelled hname
  obtain ⟨t, ht⟩ : ∃ t, ValueToken SpelledToken t v (c :: r) := by
    rcases hv with ⟨text, rfl, htext⟩ | ⟨n, rfl⟩
    · obtain ⟨y, hy⟩ := exists_spelled htext
      exact ⟨_, .str ⟨y, hy, rfl⟩⟩
    · exact ⟨_, .int (intToken_intDigits n (by simpa using hc))⟩
  exact ⟨_, .mk .nil ⟨x, hx, rfl⟩ .nil .nil ht⟩

/-- Writable members can be written. -/
theorem exists_members {m : Bytes × Value} {ms : List (Bytes × Value)}
    (hms : ∀ m' ∈ m :: ms, (∀ b ∈ m'.1, IsWritable b) ∧ IsWritableValue m'.2) (r : Bytes) :
    ∃ t, Members SpelledToken t (m :: ms) (ascii '\x7d' :: r) := by
  induction ms generalizing m with
  | nil =>
      obtain ⟨hname, hv⟩ := hms m List.mem_cons_self
      obtain ⟨t, ht⟩ := @exists_member m hname hv (ascii '\x7d') rfl r
      exact ⟨t, .one ht⟩
  | cons next ms ih =>
      obtain ⟨⟨hname, hv⟩, hlater⟩ := List.forall_mem_cons.mp hms
      obtain ⟨t, ht⟩ := ih hlater
      obtain ⟨t', ht'⟩ := @exists_member m hname hv (ascii ',') rfl t
      exact ⟨t', .more ht' .nil ht⟩

/-- The strings of a bet. -/
def BetSubmitted.strings (bet : BetSubmitted) : List Bytes :=
  [bet.eventId, bet.betId, bet.accountId, bet.idempotencyKey, bet.matchId, bet.marketId,
    bet.selectionId, bet.odds]

theorem writable_of_mem_allowed {name : Bytes} (hname : name ∈ allowed) :
    ∀ b ∈ name, IsWritable b := by
  have hall : ∀ name ∈ allowed, ∀ b ∈ name, 0x20 ≤ b := by decide +kernel
  exact fun b hb => Or.inl (hall name hname b hb)

/-- So can every bet whose strings can. -/
theorem exists_encoding {bet : BetSubmitted}
    (hstrings : ∀ text ∈ bet.strings, ∀ b ∈ text, IsWritable b) : ∃ s, bet.IsEncoding s := by
  have hms : ∀ m ∈ bet.members, (∀ b ∈ m.1, IsWritable b) ∧ IsWritableValue m.2 := by
    intro m hm
    constructor
    · refine writable_of_mem_allowed ?_
      rw [← bet.members_names]
      exact List.mem_map_of_mem hm
    · obtain ⟨name, v⟩ := m
      cases v with
      | str text =>
          have hmem : text ∈ bet.strings := by
            simp only [BetSubmitted.members, List.mem_cons, Prod.mk.injEq, reduceCtorEq, and_false,
              Value.str.injEq, List.not_mem_nil, or_false, false_or] at hm
            simp only [BetSubmitted.strings, List.mem_cons, List.not_mem_nil, or_false]
            tauto
          exact Or.inl ⟨text, rfl, hstrings text hmem⟩
      | int n => exact Or.inr ⟨n, rfl⟩
      | bool b => exact absurd rfl (bet.members_notBool _ hm b)
  obtain ⟨t, ht⟩ := exists_members hms []
  exact ⟨_, bet.members, .refl _, .members .nil ht .nil .nil⟩

/-- A bet whose strings have 1 to 128 writable bytes, and whose amounts are positive 64-bit
integers in order, has an encoding, and the parser reads every encoding as the bet. -/
theorem parseBetJson_of_encoding [FieldOrder] {bet : BetSubmitted} (hvalid : bet.Valid)
    (hstrings : ∀ text ∈ bet.strings, ∀ b ∈ text, IsWritable b) :
    (∃ s, bet.IsEncoding s) ∧ ∀ s, bet.IsEncoding s → parseBetJson s = .ok bet :=
  ⟨exists_encoding hstrings, fun _ hs => hvalid.parse_encoding hs⟩

/-- A bet that needs escapes. -/
def escapedBet : BetSubmitted where
  eventId := utf8 "\""
  betId := utf8 "\\"
  accountId := utf8 "a/b"
  idempotencyKey := utf8 "\n"
  matchId := utf8 "m"
  marketId := utf8 "w"
  selectionId := utf8 "s"
  odds := utf8 "2.0000"
  stakeCents := 1
  potentialPayoutCents := 9223372036854775807
  betTimestampMs := 1

section Sample

attribute [local instance] insertionOrder

/-- A bet that needs escapes, in some encoding. -/
theorem parseBetJson_of_encoding_sample :
    ∃ s, escapedBet.IsEncoding s ∧ parseBetJson s = .ok escapedBet := by
  have hvalid : escapedBet.Valid :=
    ⟨by decide, by decide, by decide, by decide, by decide, by decide⟩
  obtain ⟨⟨s, hs⟩, hread⟩ := parseBetJson_of_encoding hvalid (by decide +kernel)
  exact ⟨s, hs, hread s hs⟩

end Sample

end RiskEngine
end BettingPlatform
