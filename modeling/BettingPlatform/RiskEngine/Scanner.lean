import BettingPlatform.Foundations.CheckedScan
import BettingPlatform.RiskEngine.Parser

/-!
# The parser's index

`parse_bet_json` walks over the payload with an index, and `required_string` over the text of a
member once more.  This file has the scanners as the source writes them, with every access and
every step of the index checked.

Main results:

- Theorem `memberRound_advances`: a round of the member loop goes forward and stays in the view.
- Theorem `parseBetJsonAt_eq`: no scan has a fault, and together they are the parser of the rest
  of the view.
-/

namespace BettingPlatform
namespace RiskEngine

open CheckedScan

/-! ## Scanners -/

/-- `skip_ws`. -/
def skipWsAt (s : Bytes) (i : Nat) : Except Fault Nat :=
  skipWhile s isWs i

/-- The loop of `parse_json_string_token`. -/
def stringLoopAt (s : Bytes) (i : Nat) (out : Bytes) : Except Fault (Option (Bytes × Nat)) :=
  if i < s.length then do
    let c ← charAt s i
    let ⟨j, _hj⟩ ← increment s i
    if c = ascii '"' then .ok (some (out, j))
    else if c = ascii '\\' then
      if s.length ≤ j then .ok none
      else
        let e ← charAt s j
        let ⟨k, _hk⟩ ← increment s j
        match unescape e with
        | none => .ok none
        | some b => stringLoopAt s k (out ++ [b])
    else if c < 0x20 then .ok none
    else stringLoopAt s j (out ++ [c])
  else .ok none
termination_by s.length - i
decreasing_by all_goals omega

/-- `parse_json_string_token`. -/
def parseJsonStringTokenAt (s : Bytes) (i : Nat) : Except Fault (Option (Bytes × Nat)) := do
  if ← charIs s i fun c => c = ascii '"' then
    let ⟨j, _⟩ ← increment s i
    stringLoopAt s j []
  else .ok none

/-- A scan that may fault, and that may refuse its input with a message. -/
abbrev Scanning (α : Type) := ExceptT Bytes (Except Fault) α

/-- A checked access in a scan. -/
def checked {α : Type} (x : Except Fault α) : Scanning α :=
  ExceptT.lift x

/-- The value of the member `key`, which `parse_object` reads from `i` on. -/
def parseValueAt (key s : Bytes) (i : Nat) : Scanning (FieldValue × Nat) := do
  let c ← checked (charAt s i)
  if c = ascii '"' then
    match ← checked (parseJsonStringTokenAt s i) with
    | none => throw (utf8 "invalid string value for field: " ++ key)
    | some (_, stop) => return (⟨true, substr s i stop⟩, stop)
  else
    let digitsStart ← checked (if c = ascii '-' then (increment s i).map Subtype.val else .ok i)
    let stop ← checked (skipWhile s isDigit digitsStart)
    if digitsStart = stop then
      throw (utf8 "only integer and string values are accepted; bad field: " ++ key)
    else if ← checked (charIs s stop fun c => c = ascii '.' || c = ascii 'e' || c = ascii 'E') then
      throw (utf8 "floating point values are forbidden for monetary/timestamp fields: " ++ key)
    else return (⟨false, substr s i stop⟩, stop)

/-- A round of the member loop up to its value. -/
def parseMemberAt (s : Bytes) (i : Nat) (obj : ParsedObject) :
    Scanning (Bytes × FieldValue × Nat) := do
  match ← checked (parseJsonStringTokenAt s i) with
  | none => throw (utf8 "object key must be a JSON string")
  | some (key, i) =>
      if (obj.get? key).isSome then throw (utf8 "duplicate field: " ++ key)
      else
        let i ← checked (skipWsAt s i)
        match ← checked (takeIf s i fun c => c = ascii ':') with
        | none => throw (utf8 "expected ':' after field: " ++ key)
        | some i =>
            let i ← checked (skipWsAt s i)
            if s.length ≤ i then throw (utf8 "missing value for field: " ++ key)
            else
              let (value, i) ← parseValueAt key s i
              return (key, value, i)

/-- How a round of the member loop ends that does not return: behind a comma, or with the
`break` at a closing brace. -/
inductive Round
  | next (obj : ParsedObject) (i : Nat)
  | closed (obj : ParsedObject) (i : Nat)

/-- Where a round leaves the index. -/
def Round.index : Round → Nat
  | .next _ i | .closed _ i => i

/-- A round of the member loop. -/
def memberRound (s : Bytes) (i : Nat) (obj : ParsedObject) : Scanning Round := do
  let (key, value, i) ← parseMemberAt s i obj
  let obj := obj ++ [(key, value)]
  let i ← checked (skipWsAt s i)
  if ← checked (charIs s i fun c => c = ascii ',') then
    let ⟨i, _⟩ ← checked (increment s i)
    return .next obj (← checked (skipWsAt s i))
  else if ← checked (charIs s i fun c => c = ascii '\x7d') then
    let ⟨i, _⟩ ← checked (increment s i)
    return .closed obj i
  else throw (utf8 "expected ',' or '\x7d'")

/-! ## The scans of the rest of the view -/

/-- Skipping whitespace by index is `skipWs` on the rest and stays within the payload. -/
theorem skipWsAt_spec {s : Bytes} {i : Nat} (hi : i ≤ s.length) :
    ∃ j, skipWsAt s i = .ok j ∧ i ≤ j ∧ j ≤ s.length ∧ skipWs (s.drop i) = s.drop j :=
  skipWhile_spec isWs hi

/-- A byte in front of what the loop decodes from `i` on. -/
theorem stringLoopAt_push {s out : Bytes} {b : UInt8} {i j : Nat}
    {scan : Except Fault (Option (Bytes × Nat))} (hij : i < j)
    (h : (scan = .ok none ∧ parseStringBody (s.drop j) = none) ∨
      ∃ decoded k, j < k ∧ k ≤ s.length ∧ scan = .ok (some (out ++ [b] ++ decoded, k)) ∧
        parseStringBody (s.drop j) = some (decoded, s.drop k)) :
    let rest := parseStringBody (s.drop j) >>= fun found => some (b :: found.1, found.2)
    (scan = .ok none ∧ rest = none) ∨
      ∃ decoded k, i < k ∧ k ≤ s.length ∧ scan = .ok (some (out ++ decoded, k)) ∧
        rest = some (decoded, s.drop k) := by
  rcases h with ⟨hscan, hbody⟩ | ⟨decoded, k, hforward, hle, hscan, hbody⟩
  · exact .inl ⟨hscan, by rw [hbody]; rfl⟩
  · refine .inr ⟨b :: decoded, k, hij.trans hforward, hle, ?_, by rw [hbody]; rfl⟩
    rw [hscan, List.append_assoc, List.singleton_append]

/-- The loop has no fault, decodes what the scan of the rest decodes, and goes forward. -/
theorem stringLoopAt_spec {s : Bytes} (out : Bytes) {i : Nat} (hi : i ≤ s.length) :
    (stringLoopAt s i out = .ok none ∧ parseStringBody (s.drop i) = none) ∨
      ∃ decoded j, i < j ∧ j ≤ s.length ∧ stringLoopAt s i out = .ok (some (out ++ decoded, j)) ∧
        parseStringBody (s.drop i) = some (decoded, s.drop j) := by
  induction hleft : s.length - i using Nat.strong_induction_on generalizing i out with
  | _ n ih =>
      rcases drop_cases hi with ⟨rfl, hend⟩ | ⟨hlt, hcons⟩
      · exact .inl ⟨by rw [stringLoopAt, if_neg (lt_irrefl _)], by rw [hend]; rfl⟩
      · rw [stringLoopAt, if_pos hlt, charAt_of_lt hlt, ok_bind, increment_of_lt hlt, ok_bind,
          hcons, parseStringBody.eq_def]
        by_cases hquote : s[i] = ascii '"'
        · simp only [hquote, if_true]
          exact .inr ⟨[], i + 1, Nat.lt_succ_self i, hlt, by simp, rfl⟩
        · by_cases hbackslash : s[i] = ascii '\\'
          · simp only [hbackslash, if_true, if_neg (show ascii '\\' ≠ ascii '"' by decide)]
            rcases drop_cases (s := s) (i := i + 1) hlt with ⟨hstop, hend⟩ | ⟨hlt', hcons'⟩
            · rw [if_pos hstop.ge, hend]
              exact .inl ⟨rfl, rfl⟩
            · rw [if_neg (not_le.mpr hlt'), charAt_of_lt hlt', ok_bind, increment_of_lt hlt',
                ok_bind, hcons']
              simp only
              cases unescape s[i + 1] with
              | none => exact .inl ⟨rfl, rfl⟩
              | some b =>
                  exact stringLoopAt_push (by omega)
                    (ih (s.length - (i + 1 + 1)) (by omega) (out ++ [b]) hlt' rfl)
          · simp only [hquote, hbackslash, if_false]
            by_cases hcontrol : s[i] < 0x20
            · exact .inl ⟨by rw [if_pos hcontrol], by rw [if_pos hcontrol]⟩
            · simp only [hcontrol, if_false]
              exact stringLoopAt_push (Nat.lt_succ_self i)
                (ih (s.length - (i + 1)) (by omega) (out ++ [s[i]]) hlt rfl)

/-- A string token is read as in the rest of the view. -/
theorem parseJsonStringTokenAt_spec {s : Bytes} {i : Nat} (hi : i ≤ s.length) :
    (parseJsonStringTokenAt s i = .ok none ∧ parseJsonStringToken (s.drop i) = none) ∨
      ∃ decoded j, i < j ∧ j ≤ s.length ∧ parseJsonStringTokenAt s i = .ok (some (decoded, j)) ∧
        parseJsonStringToken (s.drop i) = some (decoded, s.drop j) := by
  rw [parseJsonStringTokenAt, charIs_eq, ok_bind]
  rcases drop_cases hi with ⟨-, hend⟩ | ⟨hlt, hcons⟩
  · rw [hend]
    exact .inl ⟨rfl, rfl⟩
  · rw [hcons, increment_of_lt hlt, ok_bind, List.head?_cons, Option.any_some]
    simp only [decide_eq_true_eq, parseJsonStringToken]
    by_cases hquote : s[i] = ascii '"'
    · rw [if_pos hquote, if_pos hquote]
      rcases stringLoopAt_spec [] hlt with hnone | ⟨decoded, j, hforward, hread⟩
      · exact .inl hnone
      · exact .inr ⟨decoded, j, Nat.lt_of_succ_lt hforward, hread⟩
    · exact .inl ⟨by rw [if_neg hquote], by rw [if_neg hquote]⟩

/-- A scan that did not fault: its value, or the message it refused the input with. -/
def returned {α : Type} (r : Except Bytes α) : Scanning α :=
  ExceptT.mk (.ok r)

section Returned

variable {α β : Type}

theorem checked_ok_bind {a : α} {f : α → Scanning β} : (checked (.ok a) >>= f) = f a :=
  rfl

theorem returned_ok_bind {a : α} {f : α → Scanning β} : (returned (.ok a) >>= f) = f a :=
  rfl

theorem returned_error_bind {e : Bytes} {f : α → Scanning β} :
    (returned (.error e) >>= f) = returned (.error e) :=
  rfl

/-- The scan from an index on returns what the scan of the rest of the view returns, and it leaves
the index at `least` or behind it, inside the view. -/
def Follows (s : Bytes) (least : Nat) (scan : Scanning (α × Nat))
    (rest : Except Bytes (α × Bytes)) : Prop :=
  (∃ e, scan = returned (.error e) ∧ rest = .error e) ∨
    ∃ a j, least ≤ j ∧ j ≤ s.length ∧ scan = returned (.ok (a, j)) ∧ rest = .ok (a, s.drop j)

end Returned

/-- The items a skip has passed. -/
theorem takeWhile_eq_substr {s : Bytes} {p : UInt8 → Bool} {i j : Nat} (hle : i ≤ j)
    (hj : j ≤ s.length) (h : (s.drop i).dropWhile p = s.drop j) :
    (s.drop i).takeWhile p = substr s i j := by
  have hsplit := List.takeWhile_append_dropWhile (p := p) (l := s.drop i)
  have hlength := congrArg List.length hsplit
  rw [List.length_append, h, List.length_drop, List.length_drop] at hlength
  have hcount : ((s.drop i).takeWhile p).length = j - i := by omega
  rw [substr, ← hcount]
  exact List.prefix_iff_eq_take.mp (List.takeWhile_prefix p)

/-- The sign of a number: where its digits start, and what stands in front of them. -/
theorem sign_spec {s : Bytes} {i : Nat} (hlt : i < s.length) :
    let sign := if s[i] = ascii '-' then [s[i]] else []
    (if s[i] = ascii '-' then (increment s i).map Subtype.val else .ok i) =
        Except.ok (i + sign.length) ∧
      i + sign.length ≤ s.length ∧ s.drop i = sign ++ s.drop (i + sign.length) := by
  by_cases hminus : s[i] = ascii '-'
  · simp only [if_pos hminus, increment_of_lt hlt]
    exact ⟨rfl, hlt, List.drop_eq_getElem_cons hlt⟩
  · simp only [if_neg hminus]
    exact ⟨rfl, hlt.le, rfl⟩

/-- The value of a member is read as in the rest of the view. -/
theorem parseValueAt_spec (key : Bytes) {s : Bytes} {i : Nat} (hlt : i < s.length) :
    Follows s i (parseValueAt key s i) (parseValue key (s.drop i)) := by
  have hcons := List.drop_eq_getElem_cons hlt
  rw [parseValueAt, charAt_of_lt hlt, checked_ok_bind, parseValue.eq_def, hcons]
  simp only
  by_cases hquote : s[i] = ascii '"'
  · rw [if_pos hquote, if_pos hquote, ← hcons]
    rcases parseJsonStringTokenAt_spec hlt.le with ⟨hat, htoken⟩ |
      ⟨decoded, j, hforward, hle, hat, htoken⟩
    · rw [hat, htoken]
      exact .inl ⟨_, rfl, rfl⟩
    · rw [hat, htoken]
      refine .inr ⟨_, j, hforward.le, hle, rfl, ?_⟩
      simp only [List.length_drop, substr]
      rw [show s.length - i - (s.length - j) = j - i by omega]
  · rw [if_neg hquote, if_neg hquote, ← hcons]
    obtain ⟨hstart, hbound, hfront⟩ := sign_spec hlt
    generalize (if s[i] = ascii '-' then [s[i]] else []) = sign at hstart hbound hfront ⊢
    obtain ⟨stop, hskip, hle, hstop, hrest⟩ := skipWhile_spec isDigit hbound
    have hdigits := takeWhile_eq_substr hle hstop hrest
    have hempty : substr s (i + sign.length) stop = [] ↔ i + sign.length = stop := by
      simp only [substr, List.take_eq_nil_iff, List.drop_eq_nil_iff]
      omega
    have hpoint : (s.drop stop).head?.any
          (fun c => c = ascii '.' || c = ascii 'e' || c = ascii 'E') = true ↔
        ((s.drop stop).head? = some (ascii '.') ∨ (s.drop stop).head? = some (ascii 'e') ∨
          (s.drop stop).head? = some (ascii 'E')) := by
      cases (s.drop stop).head? <;> simp [or_assoc]
    rw [hstart, checked_ok_bind, hskip, checked_ok_bind, charIs_eq, checked_ok_bind]
    simp only [scanDigits, List.drop_drop, hdigits, hrest, hempty, hpoint]
    split
    · exact .inl ⟨_, rfl, rfl⟩
    · split
      · exact .inl ⟨_, rfl, rfl⟩
      · refine .inr ⟨_, stop, by omega, hstop, rfl, ?_⟩
        have hraw : substr s i stop = sign ++ substr s (i + sign.length) stop := by
          rw [substr, hfront, List.take_append, List.take_of_length_le (by omega), substr,
            Nat.sub_sub]
        rw [hraw]

/-- A member is read as in the rest of the view. -/
theorem parseMemberAt_spec {s : Bytes} {i : Nat} (obj : ParsedObject) (hi : i ≤ s.length) :
    (∃ e, parseMemberAt s i obj = returned (.error e) ∧ parseMember (s.drop i) obj = .error e) ∨
      ∃ key value j, i < j ∧ j ≤ s.length ∧
        parseMemberAt s i obj = returned (.ok (key, value, j)) ∧
        parseMember (s.drop i) obj = .ok (key, value, s.drop j) := by
  unfold parseMemberAt parseMember
  rcases parseJsonStringTokenAt_spec hi with ⟨hat, hkey⟩ | ⟨key, afterKey, hforward, hle, hat, hkey⟩
  · rw [hat, hkey]
    exact .inl ⟨_, rfl, rfl⟩
  rw [hat, checked_ok_bind, hkey]
  simp only
  by_cases hduplicate : (obj.get? key).isSome = true
  · rw [if_pos hduplicate, if_pos hduplicate]
    exact .inl ⟨_, rfl, rfl⟩
  rw [if_neg hduplicate, if_neg hduplicate]
  obtain ⟨colon, hskip, hcolon, hcolonEnd, hrest⟩ := skipWsAt_spec hle
  rw [hskip, checked_ok_bind, takeIf_eq, checked_ok_bind, hrest]
  rcases drop_cases hcolonEnd with ⟨-, hend⟩ | ⟨hlt, hcons⟩
  · rw [hend]
    exact .inl ⟨_, rfl, rfl⟩
  rw [hcons, List.head?_cons, Option.any_some]
  simp only [decide_eq_true_eq]
  by_cases hmatch : s[colon] = ascii ':'
  · obtain ⟨start, hskip', hstart, hstartEnd, hrest'⟩ := skipWsAt_spec (i := colon + 1) hlt
    rw [if_pos hmatch, if_neg (not_not.mpr hmatch)]
    simp only
    rw [hskip', checked_ok_bind, hrest']
    rcases drop_cases hstartEnd with ⟨rfl, hend⟩ | ⟨hlt', -⟩
    · rw [if_pos le_rfl, hend]
      exact .inl ⟨_, rfl, rfl⟩
    · rw [if_neg (not_le.mpr hlt')]
      rcases parseValueAt_spec key hlt' with ⟨e, hvalueAt, hvalue⟩ |
        ⟨value, j, hj, hjEnd, hvalueAt, hvalue⟩
      · rw [hvalueAt, hvalue]
        exact .inl ⟨e, rfl, rfl⟩
      · rw [hvalueAt, hvalue]
        exact .inr ⟨key, value, j, by omega, hjEnd, rfl, rfl⟩
  · rw [if_neg hmatch, if_pos hmatch]
    exact .inl ⟨_, rfl, rfl⟩

/-- A round either refuses the payload as the loop over the rest does, or it goes forward, stays in
the view, and the loop over the rest goes on from there. -/
theorem memberRound_spec {s : Bytes} {i : Nat} (obj : ParsedObject) (hlt : i < s.length) :
    (∃ e, memberRound s i obj = returned (.error e) ∧ parseMembers (s.drop i) obj = .error e) ∨
      ∃ r, i < r.index ∧ r.index ≤ s.length ∧ memberRound s i obj = returned (.ok r) ∧
        parseMembers (s.drop i) obj =
          match r with
          | .next obj' j => parseMembers (s.drop j) obj'
          | .closed obj' j => .ok (obj', s.drop j) := by
  have hne : s.drop i ≠ [] := by
    rw [List.drop_eq_getElem_cons hlt]
    exact List.cons_ne_nil _ _
  unfold memberRound
  rcases parseMemberAt_spec obj hlt.le with ⟨e, hat, hmember⟩ |
    ⟨key, value, afterValue, hforward, hle, hat, hmember⟩
  · rw [hat, returned_error_bind]
    exact .inl ⟨e, rfl, parseMembers_of_error hne hmember⟩
  rw [hat, returned_ok_bind, parseMembers_of_member hne hmember]
  obtain ⟨j, hskip, hj, hjEnd, hrest⟩ := skipWsAt_spec hle
  simp only
  rw [hskip, checked_ok_bind, charIs_eq, checked_ok_bind, charIs_eq, checked_ok_bind, hrest]
  rcases drop_cases hjEnd with ⟨-, hend⟩ | ⟨hlt', hcons⟩
  · rw [hend]
    exact .inl ⟨_, rfl, rfl⟩
  rw [hcons, List.head?_cons, Option.any_some, Option.any_some, increment_of_lt hlt']
  simp only [decide_eq_true_eq]
  by_cases hcomma : s[j] = ascii ','
  · obtain ⟨next, hskip', hnext, hnextEnd, hrest'⟩ := skipWsAt_spec (i := j + 1) hlt'
    rw [if_pos hcomma, if_pos hcomma, checked_ok_bind, hrest']
    simp only
    rw [hskip', checked_ok_bind]
    exact .inr ⟨.next _ next, by simp only [Round.index]; omega, hnextEnd, rfl, rfl⟩
  · rw [if_neg hcomma, if_neg hcomma]
    by_cases hclosed : s[j] = ascii '\x7d'
    · rw [if_pos hclosed, if_pos hclosed, checked_ok_bind]
      exact .inr ⟨.closed _ (j + 1), by simp only [Round.index]; omega, hlt', rfl, rfl⟩
    · rw [if_neg hclosed, if_neg hclosed]
      exact .inl ⟨_, rfl, rfl⟩

/-- A round that does not return goes forward and stays in the view. -/
theorem memberRound_advances {s : Bytes} {i : Nat} {obj : ParsedObject} {r : Round}
    (hlt : i < s.length) (h : memberRound s i obj = returned (.ok r)) :
    i < r.index ∧ r.index ≤ s.length := by
  rcases memberRound_spec obj hlt with ⟨e, hround, -⟩ | ⟨r', hforward, hle, hround, -⟩
  · rw [hround] at h
    cases h
  · rw [hround] at h
    cases h
    exact ⟨hforward, hle⟩

/-! ## The object and its fields -/

/-- The member loop of `parse_object`. -/
def memberLoop (s : Bytes) (i : Nat) (obj : ParsedObject) : Scanning (ParsedObject × Nat) :=
  if _hlt : i < s.length then
    match _hround : memberRound s i obj with
    | .error fault => .error fault
    | .ok (.error e) => returned (.error e)
    | .ok (.ok (.next obj j)) => memberLoop s j obj
    | .ok (.ok (.closed obj j)) => returned (.ok (obj, j))
  else returned (.ok (obj, i))
termination_by s.length - i
decreasing_by
  have hforward := memberRound_advances _hlt _hround
  simp only [Round.index] at hforward
  omega

/-- `parse_object`. -/
def parseObjectAt (s : Bytes) : Scanning ParsedObject := do
  let i ← checked (skipWsAt s 0)
  match ← checked (takeIf s i fun c => c = ascii '\x7b') with
  | none => throw (utf8 "payload must be a JSON object")
  | some i =>
      let i ← checked (skipWsAt s i)
      let (obj, i) ←
        if ← checked (charIs s i fun c => c = ascii '\x7d') then do
          let ⟨i, _⟩ ← checked (increment s i)
          pure ([], i)
        else memberLoop s i []
      let i ← checked (skipWsAt s i)
      if i ≠ s.length then throw (utf8 "trailing bytes after JSON object")
      else return obj

/-- `required_string`, with its scan of the text of the member. -/
def requiredStringAt (obj : ParsedObject) (name : Bytes) : Scanning Bytes :=
  match obj.get? name with
  | none => throw (utf8 "missing required field: " ++ name)
  | some value =>
      if !value.isString then throw (utf8 "field must be string: " ++ name)
      else do
        match ← checked (parseJsonStringTokenAt value.raw 0) with
        | none => throw (utf8 "invalid string encoding: " ++ name)
        | some (decoded, pos) =>
            if pos ≠ value.raw.length then throw (utf8 "invalid string encoding: " ++ name)
            else if decoded = [] ∨ 128 < decoded.length then
              throw (utf8 "string field must be 1..128 bytes: " ++ name)
            else return decoded

/-- `parse_bet_json`, with its scans of the payload and of the members' texts. -/
def parseBetJsonAt [FieldOrder] (payload : Bytes) : Scanning BetSubmitted := do
  let obj ← parseObjectAt payload
  match unknownField obj with
  | some key => throw (utf8 "unknown field forbidden by schema: " ++ key)
  | none =>
      let eventId ← requiredStringAt obj (utf8 "event_id")
      let betId ← requiredStringAt obj (utf8 "bet_id")
      let accountId ← requiredStringAt obj (utf8 "account_id")
      let idempotencyKey ← requiredStringAt obj (utf8 "idempotency_key")
      let matchId ← requiredStringAt obj (utf8 "match_id")
      let marketId ← requiredStringAt obj (utf8 "market_id")
      let selectionId ← requiredStringAt obj (utf8 "selection_id")
      let odds ← requiredStringAt obj (utf8 "odds")
      let stake ← returned (requiredI64 obj (utf8 "stake_cents"))
      let payout ← returned (requiredI64 obj (utf8 "potential_payout_cents"))
      let ts ← returned (requiredI64 obj (utf8 "bet_timestamp_ms"))
      returned (require (0 < stake) (utf8 "stake_cents must be positive"))
      returned (require (0 < payout) (utf8 "potential_payout_cents must be positive"))
      returned
        (require (stake ≤ payout) (utf8 "potential_payout_cents must be >= stake_cents"))
      returned
        (require (0 < ts) (utf8 "bet_timestamp_ms must be positive unix epoch milliseconds"))
      pure
        { eventId, betId, accountId, idempotencyKey, matchId, marketId, selectionId, odds
          stakeCents := stake
          potentialPayoutCents := payout
          betTimestampMs := ts }

/-- What the loop does after one round. -/
theorem memberLoop_of_round {s : Bytes} {i : Nat} {obj : ParsedObject} {r : Except Bytes Round}
    (hlt : i < s.length) (h : memberRound s i obj = returned r) :
    memberLoop s i obj =
      match r with
      | .error e => returned (.error e)
      | .ok (.next obj j) => memberLoop s j obj
      | .ok (.closed obj j) => returned (.ok (obj, j)) := by
  rw [memberLoop, dif_pos hlt]
  split <;> rename_i hround <;> rw [h] at hround <;> cases hround <;> rfl

/-- The member loop has no fault and is the loop over the rest of the view. -/
theorem memberLoop_spec {s : Bytes} {i : Nat} (obj : ParsedObject) (hi : i ≤ s.length) :
    Follows s i (memberLoop s i obj) (parseMembers (s.drop i) obj) := by
  induction hleft : s.length - i using Nat.strong_induction_on generalizing i obj with
  | _ n ih =>
      rcases drop_cases hi with ⟨rfl, hend⟩ | ⟨hlt, -⟩
      · rw [memberLoop, dif_neg (lt_irrefl _), hend, parseMembers, if_pos rfl]
        exact .inr ⟨obj, s.length, le_rfl, le_rfl, rfl, by rw [List.drop_length]⟩
      · rcases memberRound_spec obj hlt with ⟨e, hround, hmembers⟩ |
          ⟨r, hforward, hle, hround, hmembers⟩
        · rw [memberLoop_of_round hlt hround, hmembers]
          exact .inl ⟨e, rfl, rfl⟩
        · rw [memberLoop_of_round hlt hround, hmembers]
          cases r with
          | next obj' j =>
              simp only [Round.index] at hforward hle
              rcases ih (s.length - j) (by omega) obj' hle rfl with hfailed | ⟨a, k, hk, hread⟩
              · exact .inl hfailed
              · exact .inr ⟨a, k, hforward.le.trans hk, hread⟩
          | closed obj' j => exact .inr ⟨obj', j, hforward.le, hle, rfl, rfl⟩

/-- Behind the object only whitespace may follow. -/
theorem closing_eq {s : Bytes} {scan : Scanning (ParsedObject × Nat)}
    {rest : Except Bytes (ParsedObject × Bytes)} (h : Follows s 0 scan rest) :
    (scan >>= fun found => checked (skipWsAt s found.2) >>= fun i =>
      if i ≠ s.length then throw (utf8 "trailing bytes after JSON object") else pure found.1) =
    returned (rest >>= fun found =>
      if skipWs found.2 = [] then .ok found.1
      else .error (utf8 "trailing bytes after JSON object")) := by
  rcases h with ⟨e, rfl, rfl⟩ | ⟨obj, i, -, hi, rfl, rfl⟩
  · rfl
  · obtain ⟨j, hskip, -, hj, hrest⟩ := skipWsAt_spec hi
    rw [returned_ok_bind, hskip, checked_ok_bind]
    show _ = returned (if skipWs (s.drop i) = [] then _ else _)
    rw [hrest]
    rcases drop_cases hj with ⟨rfl, hend⟩ | ⟨hlt, hcons⟩
    · rw [if_neg (not_not.mpr rfl), if_pos hend]
      rfl
    · rw [if_pos hlt.ne, if_neg (by rw [hcons]; exact List.cons_ne_nil _ _)]
      rfl

/-- `parse_object` has no fault and is the parser of the whole view. -/
theorem parseObjectAt_eq (s : Bytes) : parseObjectAt s = returned (parseObject s) := by
  obtain ⟨start, hskip, -, hstart, hrest⟩ := skipWsAt_spec (s := s) (Nat.zero_le _)
  rw [List.drop_zero] at hrest
  rw [parseObjectAt, hskip, checked_ok_bind, takeIf_eq, checked_ok_bind, parseObject, hrest]
  rcases drop_cases hstart with ⟨-, hend⟩ | ⟨hlt, hcons⟩
  · rw [hend]
    rfl
  rw [hcons, List.head?_cons, Option.any_some]
  simp only [decide_eq_true_eq]
  by_cases hbrace : s[start] = ascii '\x7b'
  · obtain ⟨first, hskip', -, hfirst, hrest'⟩ := skipWsAt_spec (s := s) (i := start + 1) hlt
    rw [if_pos hbrace, if_neg (not_not.mpr hbrace)]
    simp only
    rw [hskip', checked_ok_bind, charIs_eq, checked_ok_bind, hrest']
    rcases drop_cases hfirst with ⟨rfl, hend⟩ | ⟨hlt', hcons'⟩
    · rw [hend, memberLoop, dif_neg (lt_irrefl _)]
      refine closing_eq (.inr ⟨[], s.length, Nat.zero_le _, le_rfl, rfl, ?_⟩)
      rw [List.drop_length]
    · rw [hcons', List.head?_cons, Option.any_some]
      simp only [decide_eq_true_eq]
      by_cases hclosed : s[first] = ascii '\x7d'
      · rw [if_pos hclosed, if_pos hclosed, increment_of_lt hlt', checked_ok_bind]
        exact closing_eq (.inr ⟨[], first + 1, Nat.zero_le _, hlt', rfl, rfl⟩)
      · rw [if_neg hclosed, if_neg hclosed, ← hcons']
        refine closing_eq ?_
        rcases memberLoop_spec [] hfirst with hfailed | ⟨a, k, -, hread⟩
        · exact .inl hfailed
        · exact .inr ⟨a, k, Nat.zero_le _, hread⟩
  · rw [if_neg hbrace, if_pos hbrace]
    rfl

/-- `required_string` has no fault and is the check of the field. -/
theorem requiredStringAt_eq (obj : ParsedObject) (name : Bytes) :
    requiredStringAt obj name = returned (requiredString obj name) := by
  unfold requiredStringAt requiredString
  cases obj.get? name with
  | none => rfl
  | some value =>
      simp only
      by_cases hstring : (!value.isString) = true
      · rw [if_pos hstring, if_pos hstring]
        rfl
      · rw [if_neg hstring, if_neg hstring]
        rcases parseJsonStringTokenAt_spec (s := value.raw) (Nat.zero_le _) with ⟨hat, htoken⟩ |
          ⟨decoded, j, -, hle, hat, htoken⟩
        · rw [List.drop_zero] at htoken
          rw [hat, htoken]
          rfl
        · rw [List.drop_zero] at htoken
          rw [hat, checked_ok_bind, htoken]
          rcases drop_cases hle with ⟨rfl, hend⟩ | ⟨hlt, hcons⟩
          · rw [hend]
            simp only [ne_eq, not_true, if_false]
            split <;> rfl
          · rw [hcons]
            simp only [ne_eq, hlt.ne, not_false_iff, if_true]
            rfl

theorem returned_bind {α β : Type} {x : Except Bytes α} {f : α → Scanning β}
    {g : α → Except Bytes β} (h : ∀ a, f a = returned (g a)) : (returned x >>= f) = returned (x >>= g) := by
  cases x with
  | error e => rfl
  | ok a => exact h a

/-- `parse_bet_json` has no fault, and is the parser of the rest of the view. -/
theorem parseBetJsonAt_eq [FieldOrder] (payload : Bytes) :
    parseBetJsonAt payload = returned (parseBetJson payload) := by
  unfold parseBetJsonAt parseBetJson
  simp only [parseObjectAt_eq, requiredStringAt_eq]
  refine returned_bind fun obj => ?_
  cases unknownField obj with
  | some key => rfl
  | none =>
      repeat refine returned_bind fun _ => ?_
      rfl

/-- For every payload the scanners return without a fault, so no character access is outside the
view it reads and no step takes the index past the end, and they return what the parser of the
rest of the view returns.  A round of the member loop that does not return moves the index
forward, inside the payload. -/
theorem parseBetJsonAt_safe [FieldOrder] :
    (∀ payload, parseBetJsonAt payload = returned (parseBetJson payload)) ∧
    ∀ payload i obj r, i < payload.length → memberRound payload i obj = returned (.ok r) →
      i < r.index ∧ r.index ≤ payload.length :=
  ⟨parseBetJsonAt_eq, fun _ _ _ _ => memberRound_advances⟩

/-- A payload that ends behind its first member. -/
def truncatedPayload : Bytes := utf8 "\x7b\"a\":-1,"

/-- The truncated payload is read to its end. -/
theorem truncatedPayload_members :
    parseMembers (truncatedPayload.drop 1) [] = .ok ([(utf8 "a", ⟨false, utf8 "-1"⟩)], []) := by
  have hmember : parseMember (truncatedPayload.drop 1) [] =
      .ok (utf8 "a", ⟨false, utf8 "-1"⟩, utf8 ",") := by
    decide +kernel
  have hcomma : skipWs (utf8 ",") = [ascii ','] := by decide +kernel
  rw [parseMembers_of_member (by decide +kernel) hmember, hcomma]
  simp only [if_true]
  rw [show skipWs [] = [] from rfl, parseMembers, if_pos rfl]
  rfl

attribute [local instance] insertionOrder

/-- The scan of the cut payload. -/
theorem parseBetJsonAt_safe_sample :
    parseBetJsonAt truncatedPayload = returned (parseBetJson truncatedPayload) ∧
      ∃ r, memberRound truncatedPayload 1 [] = returned (.ok r) ∧
        1 < r.index ∧ r.index ≤ truncatedPayload.length := by
  refine ⟨parseBetJsonAt_safe.1 truncatedPayload, ?_⟩
  rcases memberRound_spec (s := truncatedPayload) (i := 1) [] (by decide) with
    ⟨e, -, hfailed⟩ | ⟨r, -, -, hround, -⟩
  · rw [truncatedPayload_members] at hfailed
    contradiction
  · exact ⟨r, hround, parseBetJsonAt_safe.2 truncatedPayload 1 [] r (by decide) hround⟩

end RiskEngine
end BettingPlatform
