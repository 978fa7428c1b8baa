import BettingPlatform.Foundations.Bytes
import BettingPlatform.Foundations.Fallible

/-!
# The risk engine's payload parser

`parse_bet_json` scans one flat JSON object by hand and extracts the eleven members
of a `bets-submitted` event.  The source walks a `std::string_view` with an index;
here the index is the part of the view that is still to be read, so a check
`i < s.size()` is a match on a non-empty rest.

Main results:

- Theorem `parseMember_length_lt` and its companions: every scan consumes input,
  which is what makes the member loop terminate.
- Theorem `parseBetJson_eq_ok_iff`: which payloads the parser accepts, and as which bet.
- Theorem `parseBetJson_valid`: an accepted bet satisfies every check of the parser.
-/

namespace BettingPlatform
namespace RiskEngine

/-! ## Tokens -/

/-- `BetSubmitted`: the event as the engine keeps it in memory. -/
structure BetSubmitted where
  eventId : Bytes
  betId : Bytes
  accountId : Bytes
  idempotencyKey : Bytes
  matchId : Bytes
  marketId : Bytes
  selectionId : Bytes
  odds : Bytes
  stakeCents : Int
  potentialPayoutCents : Int
  betTimestampMs : Int
deriving DecidableEq, Repr

/-- `FieldValue`: the raw text of a member's value and which of the two kinds it is. -/
structure FieldValue where
  isString : Bool
  raw : Bytes
deriving DecidableEq, Repr

/-- `ParsedObject::fields`, in the order of insertion. -/
abbrev ParsedObject := List (Bytes × FieldValue)

/-- `obj.fields.find(name)`. -/
def ParsedObject.get? (obj : ParsedObject) (name : Bytes) : Option FieldValue :=
  List.lookup name obj

def isWs (b : UInt8) : Bool :=
  b = ascii ' ' || b = ascii '\n' || b = ascii '\r' || b = ascii '\t'

/-- `skip_ws`. -/
def skipWs (s : Bytes) : Bytes :=
  s.dropWhile isWs

/-- The `switch` over the byte after a backslash; `none` is its `default`. -/
def unescape (e : UInt8) : Option UInt8 :=
  if e = ascii '"' then some (ascii '"')
  else if e = ascii '\\' then some (ascii '\\')
  else if e = ascii '/' then some (ascii '/')
  else if e = ascii 'b' then some 0x08
  else if e = ascii 'f' then some 0x0C
  else if e = ascii 'n' then some (ascii '\n')
  else if e = ascii 'r' then some (ascii '\r')
  else if e = ascii 't' then some (ascii '\t')
  else none

/-- The loop of `parse_json_string_token`, entered behind the opening quote: the
decoded bytes and what follows the closing quote. -/
def parseStringBody : Bytes → Option (Bytes × Bytes)
  | [] => none
  | c :: s =>
      if c = ascii '"' then some ([], s)
      else if c = ascii '\\' then
        match s with
        | [] => none
        | e :: s' => do
            let b ← unescape e
            let (out, rest) ← parseStringBody s'
            some (b :: out, rest)
      else if c < 0x20 then none
      else do
        let (out, rest) ← parseStringBody s
        some (c :: out, rest)

/-- `parse_json_string_token`. -/
def parseJsonStringToken : Bytes → Option (Bytes × Bytes)
  | [] => none
  | c :: s => if c = ascii '"' then parseStringBody s else none

/-- The digits the integer scan of `parse_object` consumes, and what follows them. -/
def scanDigits (s : Bytes) : Bytes × Bytes :=
  (s.takeWhile isDigit, s.dropWhile isDigit)

/-- The value of the member `key`, from its first byte on. -/
def parseValue (key : Bytes) (s : Bytes) : Except Bytes (FieldValue × Bytes) :=
  match s with
  | [] => .error (utf8 "missing value for field: " ++ key)
  | c :: _ =>
      if c = ascii '"' then
        match parseJsonStringToken s with
        | none => .error (utf8 "invalid string value for field: " ++ key)
        | some (_, rest) =>
            .ok (⟨true, s.take (s.length - rest.length)⟩, rest)
      else
        let sign := if c = ascii '-' then [c] else []
        let (digits, rest) := scanDigits (s.drop sign.length)
        if digits = [] then
          .error (utf8 "only integer and string values are accepted; bad field: " ++ key)
        else if rest.head? = some (ascii '.') ∨ rest.head? = some (ascii 'e') ∨
            rest.head? = some (ascii 'E') then
          .error (utf8 "floating point values are forbidden for monetary/timestamp fields: " ++
            key)
        else .ok (⟨false, sign ++ digits⟩, rest)

/-- One round of the member loop up to its value: the key, the value and the rest. -/
def parseMember (s : Bytes) (obj : ParsedObject) :
    Except Bytes (Bytes × FieldValue × Bytes) :=
  match parseJsonStringToken s with
  | none => .error (utf8 "object key must be a JSON string")
  | some (key, afterKey) =>
      if (obj.get? key).isSome then .error (utf8 "duplicate field: " ++ key)
      else
        match skipWs afterKey with
        | [] => .error (utf8 "expected ':' after field: " ++ key)
        | c :: afterColon =>
            if c ≠ ascii ':' then .error (utf8 "expected ':' after field: " ++ key)
            else do
              let (value, rest) ← parseValue key (skipWs afterColon)
              .ok (key, value, rest)

/-! ## Every scan consumes input -/

/-- Skipping whitespace never goes back. -/
theorem skipWs_length_le (s : Bytes) : (skipWs s).length ≤ s.length :=
  (List.dropWhile_suffix isWs).length_le

/-- The scan of a string body consumes a nonempty token and depends on nothing
behind it. -/
theorem parseStringBody_token {s out rest : Bytes}
    (h : parseStringBody s = some (out, rest)) :
    ∃ token, token ≠ [] ∧ s = token ++ rest ∧
      ∀ t, parseStringBody (token ++ t) = some (out, t) := by
  fun_induction parseStringBody s generalizing out rest with
  | case1 => contradiction
  | case2 s =>
      obtain ⟨rfl, rfl⟩ : [] = out ∧ s = rest := by simpa using h
      exact ⟨[ascii '"'], by simp, rfl, fun t => by
        rw [List.singleton_append, parseStringBody.eq_def]
        simp⟩
  | case3 => contradiction
  | case4 e s' hquote ih =>
      obtain ⟨b, hb, h⟩ := Option.bind_eq_some_iff.mp h
      obtain ⟨⟨out', rest'⟩, hbody, h⟩ := Option.bind_eq_some_iff.mp h
      obtain ⟨rfl, rfl⟩ : b :: out' = out ∧ rest' = rest := by simpa using h
      obtain ⟨token, -, rfl, htoken⟩ := ih hbody
      refine ⟨ascii '\\' :: e :: token, by simp, rfl, fun t => ?_⟩
      rw [List.cons_append, List.cons_append, parseStringBody, if_neg hquote, if_pos rfl]
      simp [hb, htoken t]
  | case5 => contradiction
  | case6 c s hquote hbackslash hcontrol ih =>
      obtain ⟨⟨out', rest'⟩, hbody, h⟩ := Option.bind_eq_some_iff.mp h
      obtain ⟨rfl, rfl⟩ : c :: out' = out ∧ rest' = rest := by simpa using h
      obtain ⟨token, -, rfl, htoken⟩ := ih hbody
      refine ⟨c :: token, by simp, rfl, fun t => ?_⟩
      rw [List.cons_append, parseStringBody.eq_def]
      simp [hquote, hbackslash, hcontrol, htoken t]

/-- A string token is a nonempty prefix that reads the same whatever follows it. -/
theorem parseJsonStringToken_token {s out rest : Bytes}
    (h : parseJsonStringToken s = some (out, rest)) :
    ∃ token, token ≠ [] ∧ s = token ++ rest ∧
      ∀ t, parseJsonStringToken (token ++ t) = some (out, t) := by
  cases s with
  | nil => contradiction
  | cons c s =>
      simp only [parseJsonStringToken] at h
      split at h
      · rename_i hquote
        obtain ⟨token, -, rfl, htoken⟩ := parseStringBody_token h
        exact ⟨c :: token, by simp, rfl, fun t => by
          simp [parseJsonStringToken, hquote, htoken t]⟩
      · contradiction

/-- A string token takes at least one byte. -/
theorem parseJsonStringToken_length_lt {s out rest : Bytes}
    (h : parseJsonStringToken s = some (out, rest)) : rest.length < s.length := by
  obtain ⟨token, hne, rfl, -⟩ := parseJsonStringToken_token h
  have hpos := List.length_pos_iff.mpr hne
  simp only [List.length_append]
  omega

/-- A value never goes back. -/
theorem parseValue_length_le {key s rest : Bytes} {value : FieldValue}
    (h : parseValue key s = .ok (value, rest)) : rest.length ≤ s.length := by
  unfold parseValue at h
  split at h
  · contradiction
  · split at h
    · split at h
      · contradiction
      · rename_i out rest' htoken
        obtain ⟨-, rfl⟩ : _ ∧ rest' = rest := by simpa using h
        exact Nat.le_of_lt (parseJsonStringToken_length_lt htoken)
    · simp only [scanDigits] at h
      split_ifs at h
      all_goals
        obtain ⟨-, rfl⟩ : _ ∧ _ = rest := by simpa using h
        exact ((List.dropWhile_suffix isDigit).length_le).trans (by simp)

/-- A member takes at least one byte, which is why the loop ends. -/
theorem parseMember_length_lt {s key rest : Bytes} {obj : ParsedObject} {value : FieldValue}
    (h : parseMember s obj = .ok (key, value, rest)) : rest.length < s.length := by
  unfold parseMember at h
  split at h
  · contradiction
  · rename_i key' afterKey hkey
    have hlt : afterKey.length < s.length := parseJsonStringToken_length_lt hkey
    split at h
    · contradiction
    · split at h
      · contradiction
      · rename_i c afterColon hcolon
        have hcons : afterColon.length < (skipWs afterKey).length := by simp [hcolon]
        have hws := skipWs_length_le afterKey
        have hws' := skipWs_length_le afterColon
        split at h
        · contradiction
        · cases hvalue : parseValue key' (skipWs afterColon) with
          | error e => simp [hvalue, bind, Except.bind] at h
          | ok r =>
              obtain ⟨value', rest'⟩ := r
              have hle := parseValue_length_le hvalue
              obtain ⟨-, -, rfl⟩ : key' = key ∧ value' = value ∧ rest' = rest := by
                simpa [hvalue, bind, Except.bind] using h
              omega

/-! ## The object and its members -/

/-- The member loop of `parse_object`.  It also ends when the input does, behind a
comma for instance. -/
def parseMembers (s : Bytes) (obj : ParsedObject) : Except Bytes (ParsedObject × Bytes) :=
  if s = [] then .ok (obj, s)
  else
    match _hmember : parseMember s obj with
    | .error e => .error e
    | .ok (key, value, rest) =>
        match _hrest : skipWs rest with
        | [] => .error (utf8 "expected ',' or '\x7d'")
        | c :: s' =>
            if c = ascii ',' then parseMembers (skipWs s') (obj ++ [(key, value)])
            else if c = ascii '\x7d' then .ok (obj ++ [(key, value)], s')
            else .error (utf8 "expected ',' or '\x7d'")
termination_by s.length
decreasing_by
  have hlt := parseMember_length_lt _hmember
  have hws := skipWs_length_le rest
  have hws' := skipWs_length_le s'
  simp only [_hrest, List.length_cons] at hws
  omega

/-- The member loop fails with a member that does not parse. -/
theorem parseMembers_of_error {s : Bytes} {obj : ParsedObject} {e : Bytes} (hs : s ≠ [])
    (hmember : parseMember s obj = .error e) : parseMembers s obj = .error e := by
  rw [parseMembers, if_neg hs]
  split
  · rename_i e' herror
    rw [hmember] at herror
    rw [Except.error.inj herror]
  · rename_i hok
    rw [hmember] at hok
    contradiction

/-- Behind a member the loop goes on at a comma, or ends at a closing brace. -/
theorem parseMembers_of_member {s key rest : Bytes} {obj : ParsedObject} {value : FieldValue}
    (hs : s ≠ []) (hmember : parseMember s obj = .ok (key, value, rest)) :
    parseMembers s obj =
      match skipWs rest with
      | [] => .error (utf8 "expected ',' or '\x7d'")
      | c :: s' =>
          if c = ascii ',' then parseMembers (skipWs s') (obj ++ [(key, value)])
          else if c = ascii '\x7d' then .ok (obj ++ [(key, value)], s')
          else .error (utf8 "expected ',' or '\x7d'") := by
  rw [parseMembers, if_neg hs]
  split
  · rename_i herror
    rw [hmember] at herror
    contradiction
  · rename_i key' value' rest' hok
    rw [hmember] at hok
    obtain ⟨rfl, rfl, rfl⟩ : key = key' ∧ value = value' ∧ rest = rest' := by simpa using hok
    split
    · rename_i hrest
      rw [hrest]
    · rename_i hrest
      rw [hrest]

/-- `parse_object`. -/
def parseObject (s : Bytes) : Except Bytes ParsedObject :=
  match skipWs s with
  | [] => .error (utf8 "payload must be a JSON object")
  | c :: s1 =>
      if c ≠ ascii '\x7b' then .error (utf8 "payload must be a JSON object")
      else do
        let (obj, s2) ←
          match skipWs s1 with
          | [] => .ok ([], [])
          | c :: s2 => if c = ascii '\x7d' then .ok ([], s2) else parseMembers (c :: s2) []
        if skipWs s2 = [] then .ok obj
        else .error (utf8 "trailing bytes after JSON object")

/-! ## Fields -/

/-- `std::from_chars` of a 64-bit integer over the whole of `raw`. -/
def fromChars (raw : Bytes) : Option Int :=
  let negative := raw.head? = some (ascii '-')
  let digits := if negative then raw.drop 1 else raw
  let magnitude : Int := digitsValue digits
  let value := if negative then -magnitude else magnitude
  if digits = [] ∨ !digits.all isDigit then none
  else if -2 ^ 63 ≤ value ∧ value < 2 ^ 63 then some value
  else none

/-- `required_string`. -/
def requiredString (obj : ParsedObject) (name : Bytes) : Except Bytes Bytes :=
  match obj.get? name with
  | none => .error (utf8 "missing required field: " ++ name)
  | some value =>
      if !value.isString then .error (utf8 "field must be string: " ++ name)
      else
        match parseJsonStringToken value.raw with
        | some (decoded, []) =>
            if decoded = [] ∨ 128 < decoded.length then
              .error (utf8 "string field must be 1..128 bytes: " ++ name)
            else .ok decoded
        | _ => .error (utf8 "invalid string encoding: " ++ name)

/-- `required_i64`. -/
def requiredI64 (obj : ParsedObject) (name : Bytes) : Except Bytes Int :=
  match obj.get? name with
  | none => .error (utf8 "missing required field: " ++ name)
  | some value =>
      if value.isString then .error (utf8 "field must be integer: " ++ name)
      else
        match fromChars value.raw with
        | none => .error (utf8 "integer out of range or malformed: " ++ name)
        | some n => .ok n

/-- The field names `parse_bet_json` allows. -/
def allowed : List Bytes :=
  ["event_id", "bet_id", "account_id", "idempotency_key", "match_id", "market_id",
    "selection_id", "stake_cents", "potential_payout_cents", "odds",
    "bet_timestamp_ms"].map utf8

/-- A check that fails with a message. -/
def require (p : Bool) (message : Bytes) : Except Bytes Unit :=
  if p then .ok () else .error message

/-- The order in which a loop over `obj.fields` visits the fields.  The order of a
`std::unordered_map` is its own affair: some rearrangement of what was inserted. -/
class FieldOrder where
  visit : ParsedObject → ParsedObject
  perm : ∀ obj, (visit obj).Perm obj

/-- The fields in the order of insertion. -/
@[reducible] def insertionOrder : FieldOrder where
  visit obj := obj
  perm := List.Perm.refl

/-- The first field the loop meets whose name is not allowed. -/
def unknownField [FieldOrder] (obj : ParsedObject) : Option Bytes :=
  ((FieldOrder.visit obj).find? fun field => field.1 ∉ allowed).map Prod.fst

/-- `parse_bet_json`. -/
def parseBetJson [FieldOrder] (payload : Bytes) : Except Bytes BetSubmitted := do
  let obj ← parseObject payload
  match unknownField obj with
  | some key => .error (utf8 "unknown field forbidden by schema: " ++ key)
  | none =>
      let eventId ← requiredString obj (utf8 "event_id")
      let betId ← requiredString obj (utf8 "bet_id")
      let accountId ← requiredString obj (utf8 "account_id")
      let idempotencyKey ← requiredString obj (utf8 "idempotency_key")
      let matchId ← requiredString obj (utf8 "match_id")
      let marketId ← requiredString obj (utf8 "market_id")
      let selectionId ← requiredString obj (utf8 "selection_id")
      let odds ← requiredString obj (utf8 "odds")
      let stake ← requiredI64 obj (utf8 "stake_cents")
      let payout ← requiredI64 obj (utf8 "potential_payout_cents")
      let ts ← requiredI64 obj (utf8 "bet_timestamp_ms")
      require (0 < stake) (utf8 "stake_cents must be positive")
      require (0 < payout) (utf8 "potential_payout_cents must be positive")
      require (stake ≤ payout) (utf8 "potential_payout_cents must be >= stake_cents")
      require (0 < ts) (utf8 "bet_timestamp_ms must be positive unix epoch milliseconds")
      .ok
        { eventId, betId, accountId, idempotencyKey, matchId, marketId, selectionId, odds
          stakeCents := stake
          potentialPayoutCents := payout
          betTimestampMs := ts }

/-! ## What an accepted bet satisfies -/

/-- The value of a 64-bit signed integer. -/
def IsInt64 (n : Int) : Prop :=
  -2 ^ 63 ≤ n ∧ n < 2 ^ 63

/-- The checks `parse_bet_json` makes on a bet. -/
structure BetSubmitted.Valid (bet : BetSubmitted) : Prop where
  string_length : ∀ field ∈ [bet.eventId, bet.betId, bet.accountId, bet.idempotencyKey,
    bet.matchId, bet.marketId, bet.selectionId, bet.odds],
    1 ≤ field.length ∧ field.length ≤ 128
  stake_pos : 0 < bet.stakeCents
  stake_le_payout : bet.stakeCents ≤ bet.potentialPayoutCents
  payout_lt : bet.potentialPayoutCents < 2 ^ 63
  timestamp_pos : 0 < bet.betTimestampMs
  timestamp_lt : bet.betTimestampMs < 2 ^ 63

/-- A required string has 1 to 128 bytes. -/
theorem requiredString_length {obj : ParsedObject} {name decoded : Bytes}
    (h : requiredString obj name = .ok decoded) :
    1 ≤ decoded.length ∧ decoded.length ≤ 128 := by
  unfold requiredString at h
  split at h
  · contradiction
  · split at h
    · contradiction
    · split at h
      · split at h
        · contradiction
        · rename_i hlength
          obtain rfl := Except.ok.inj h
          rw [not_or, not_lt] at hlength
          exact ⟨List.length_pos_iff.mpr hlength.1, hlength.2⟩
      · contradiction

/-- A converted integer fits 64 bits. -/
theorem fromChars_range {raw : Bytes} {n : Int} (h : fromChars raw = some n) : IsInt64 n := by
  simp only [fromChars] at h
  generalize (if raw.head? = some (ascii '-') then raw.drop 1 else raw) = digits at h
  split_ifs at h <;> (obtain rfl := Option.some.inj h; assumption)

/-- A required integer fits 64 bits. -/
theorem requiredI64_range {obj : ParsedObject} {name : Bytes} {n : Int}
    (h : requiredI64 obj name = .ok n) : IsInt64 n := by
  unfold requiredI64 at h
  split at h
  · contradiction
  · split at h
    · contradiction
    · split at h
      · contradiction
      · rename_i m hm
        obtain rfl := Except.ok.inj h
        exact fromChars_range hm

theorem require_eq_ok_iff {p : Bool} {message : Bytes} {u : Unit} :
    require p message = .ok u ↔ p = true := by
  cases p <;> simp [require]

/-- The object's fields hold the bet, and the bet passes the checks on its amounts. -/
structure ParsedObject.Holds (obj : ParsedObject) (bet : BetSubmitted) : Prop where
  eventId : requiredString obj (utf8 "event_id") = .ok bet.eventId
  betId : requiredString obj (utf8 "bet_id") = .ok bet.betId
  accountId : requiredString obj (utf8 "account_id") = .ok bet.accountId
  idempotencyKey : requiredString obj (utf8 "idempotency_key") = .ok bet.idempotencyKey
  matchId : requiredString obj (utf8 "match_id") = .ok bet.matchId
  marketId : requiredString obj (utf8 "market_id") = .ok bet.marketId
  selectionId : requiredString obj (utf8 "selection_id") = .ok bet.selectionId
  odds : requiredString obj (utf8 "odds") = .ok bet.odds
  stakeCents : requiredI64 obj (utf8 "stake_cents") = .ok bet.stakeCents
  potentialPayoutCents :
    requiredI64 obj (utf8 "potential_payout_cents") = .ok bet.potentialPayoutCents
  betTimestampMs : requiredI64 obj (utf8 "bet_timestamp_ms") = .ok bet.betTimestampMs
  stake_pos : 0 < bet.stakeCents
  stake_le_payout : bet.stakeCents ≤ bet.potentialPayoutCents
  timestamp_pos : 0 < bet.betTimestampMs

/-- The loop finds an unknown field wherever there is one. -/
theorem unknownField_eq_none_iff [FieldOrder] {obj : ParsedObject} :
    unknownField obj = none ↔ ∀ field ∈ obj, field.1 ∈ allowed := by
  rw [unknownField, Option.map_eq_none_iff, List.find?_eq_none]
  constructor
  · intro h field hfield
    simpa using h field ((FieldOrder.perm obj).mem_iff.mpr hfield)
  · intro h field hfield
    simpa using h field ((FieldOrder.perm obj).mem_iff.mp hfield)

/-- The field it reports is one of the object's, and is not allowed. -/
theorem unknownField_eq_some [FieldOrder] {obj : ParsedObject} {key : Bytes}
    (h : unknownField obj = some key) : key ∈ obj.map Prod.fst ∧ key ∉ allowed := by
  obtain ⟨field, hfind, rfl⟩ := Option.map_eq_some_iff.mp h
  have hmem := (FieldOrder.perm obj).mem_iff.mp (List.mem_of_find?_eq_some hfind)
  exact ⟨List.mem_map_of_mem hmem, by simpa using List.find?_some hfind⟩

/-- The parser accepts an object with allowed fields only, which hold the bet. -/
theorem parseBetJson_eq_ok_iff [FieldOrder] {payload : Bytes} {bet : BetSubmitted} :
    parseBetJson payload = .ok bet ↔
      ∃ obj : ParsedObject, parseObject payload = .ok obj ∧
        (∀ field ∈ obj, field.1 ∈ allowed) ∧ obj.Holds bet := by
  unfold parseBetJson
  rw [bind_eq_ok_iff]
  refine exists_congr fun obj => and_congr_right fun _ => ?_
  constructor
  · intro h
    split at h
    · contradiction
    · rename_i hallowed
      refine ⟨unknownField_eq_none_iff.mp hallowed, ?_⟩
      simp only [bind_eq_ok_iff, require_eq_ok_iff, decide_eq_true_eq] at h
      obtain ⟨eventId, heventId, betId, hbetId, accountId, haccountId, key, hkey, matchId,
        hmatchId, marketId, hmarketId, selectionId, hselectionId, odds, hodds, stake, hstake,
        payout, hpayout, ts, hts, -, hstakePos, -, -, -, hle, -, htsPos, hbet⟩ := h
      obtain rfl := Except.ok.inj hbet
      exact ⟨heventId, hbetId, haccountId, hkey, hmatchId, hmarketId, hselectionId, hodds, hstake,
        hpayout, hts, hstakePos, hle, htsPos⟩
  · rintro ⟨hallowed, h⟩
    have hnone : unknownField obj = none := unknownField_eq_none_iff.mpr hallowed
    have hpayout := h.stake_pos.trans_le h.stake_le_payout
    rw [hnone]
    simp [h.eventId, h.betId, h.accountId, h.idempotencyKey, h.matchId, h.marketId,
      h.selectionId, h.odds, h.stakeCents, h.potentialPayoutCents, h.betTimestampMs, require,
      h.stake_pos, hpayout, h.stake_le_payout, h.timestamp_pos, bind, Except.bind]

/-- Whether a bet is accepted, and as which, does not depend on the order of the fields. -/
theorem parseBetJson_of_order (order order' : FieldOrder) {payload : Bytes} {bet : BetSubmitted}
    (h : @parseBetJson order payload = .ok bet) : @parseBetJson order' payload = .ok bet :=
  (@parseBetJson_eq_ok_iff order' _ _).mpr ((@parseBetJson_eq_ok_iff order _ _).mp h)

/-- A bet the parser accepts satisfies every check of the parser. -/
theorem parseBetJson_valid [FieldOrder] {payload : Bytes} {bet : BetSubmitted}
    (h : parseBetJson payload = .ok bet) : bet.Valid := by
  obtain ⟨obj, -, -, hobj⟩ := parseBetJson_eq_ok_iff.mp h
  refine ⟨?_, hobj.stake_pos, hobj.stake_le_payout,
    (requiredI64_range hobj.potentialPayoutCents).2, hobj.timestamp_pos,
    (requiredI64_range hobj.betTimestampMs).2⟩
  simp only [List.forall_mem_cons, List.not_mem_nil, false_implies, implies_true, and_true]
  exact ⟨requiredString_length hobj.eventId, requiredString_length hobj.betId,
    requiredString_length hobj.accountId, requiredString_length hobj.idempotencyKey,
    requiredString_length hobj.matchId, requiredString_length hobj.marketId,
    requiredString_length hobj.selectionId, requiredString_length hobj.odds⟩

end RiskEngine
end BettingPlatform
