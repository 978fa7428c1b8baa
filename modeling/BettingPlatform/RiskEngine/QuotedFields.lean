import BettingPlatform.RiskEngine.Parser

/-!
# Refusals that quote a field

Most messages of `parse_bet_json` are fixed texts.  The others end with the name of a field of
the payload, as the payload has it: the member at which the scan of the object stops, or, when
the object is well formed, the first unknown field that the loop over the hash map meets.

Main results:

- Theorem `parseBetJson_of_quotes`: a payload with a defective field is refused with a message
  that quotes the field's name.
- Theorem `parseBetJson_refuses`: every other message is a short fixed text.
-/

namespace BettingPlatform
namespace RiskEngine

/-! ## Defective fields -/

/-- What is wrong with the field that a refusal quotes. -/
inductive Defect
  | duplicate
  | noColon
  | noValue
  | badString
  | noInteger
  | floating
  | unknown
deriving DecidableEq

/-- The words in front of the field's name. -/
def Defect.words : Defect → String
  | .duplicate => "duplicate field: "
  | .noColon => "expected ':' after field: "
  | .noValue => "missing value for field: "
  | .badString => "invalid string value for field: "
  | .noInteger => "only integer and string values are accepted; bad field: "
  | .floating => "floating point values are forbidden for monetary/timestamp fields: "
  | .unknown => "unknown field forbidden by schema: "

/-- What is wrong with a member's value, if anything, from its first byte on. -/
def valueDefect (s : Bytes) : Option Defect :=
  match s with
  | [] => some .noValue
  | c :: _ =>
      if c = ascii '"' then
        if parseJsonStringToken s = none then some .badString else none
      else
        let (digits, rest) := scanDigits (if c = ascii '-' then s.drop 1 else s)
        if digits = [] then some .noInteger
        else if rest.head? = some (ascii '.') ∨ rest.head? = some (ascii 'e') ∨
            rest.head? = some (ascii 'E') then some .floating
        else none

/-- A member that begins with a name, and is defective behind it. -/
inductive BadMember (s : Bytes) (obj : ParsedObject) : Defect → Bytes → Prop
  | duplicate {name rest : Bytes} : parseJsonStringToken s = some (name, rest) →
      (obj.get? name).isSome → BadMember s obj .duplicate name
  | noColon {name rest : Bytes} : parseJsonStringToken s = some (name, rest) →
      obj.get? name = none → (skipWs rest).head? ≠ some (ascii ':') →
      BadMember s obj .noColon name
  | value {name rest value : Bytes} {defect : Defect} :
      parseJsonStringToken s = some (name, rest) → obj.get? name = none →
      skipWs rest = ascii ':' :: value → valueDefect (skipWs value) = some defect →
      BadMember s obj defect name

/-- Some members, each with a comma behind it, and then a defective one. -/
inductive BadMembers : Bytes → ParsedObject → Defect → Bytes → Prop
  | here {s name : Bytes} {obj : ParsedObject} {defect : Defect} :
      BadMember s obj defect name → BadMembers s obj defect name
  | later {s key rest next name : Bytes} {obj : ParsedObject} {field : FieldValue}
      {defect : Defect} : parseMember s obj = .ok (key, field, rest) →
      skipWs rest = ascii ',' :: next →
      BadMembers (skipWs next) (obj ++ [(key, field)]) defect name →
      BadMembers s obj defect name

/-- The payload's field with this name is what the engine refuses the payload for. -/
inductive Quotes [FieldOrder] (payload : Bytes) : Defect → Bytes → Prop
  | member {s name : Bytes} {defect : Defect} : skipWs payload = ascii '\x7b' :: s →
      BadMembers (skipWs s) [] defect name → Quotes payload defect name
  | unknown {name : Bytes} {obj : ParsedObject} : parseObject payload = .ok obj →
      unknownField obj = some name → Quotes payload .unknown name

/-! ## Such a payload is refused -/

/-- A value is refused for its defect, and scanned when it has none. -/
theorem parseValue_defect (key s : Bytes) :
    (∃ defect, valueDefect s = some defect ∧
      parseValue key s = .error (utf8 defect.words ++ key)) ∨
    (valueDefect s = none ∧ ∃ r, parseValue key s = .ok r) := by
  unfold valueDefect parseValue
  cases s with
  | nil => exact .inl ⟨.noValue, rfl, rfl⟩
  | cons c s =>
      dsimp only
      by_cases hquote : c = ascii '"'
      · rw [if_pos hquote, if_pos hquote]
        cases parseJsonStringToken (c :: s) with
        | none => exact .inl ⟨.badString, rfl, rfl⟩
        | some r => exact .inr ⟨rfl, _, rfl⟩
      · rw [if_neg hquote, if_neg hquote]
        have hdrop : (c :: s).drop (if c = ascii '-' then [c] else []).length =
            if c = ascii '-' then (c :: s).drop 1 else c :: s := by
          split <;> rfl
        rw [hdrop]
        generalize scanDigits (if c = ascii '-' then (c :: s).drop 1 else c :: s) = scan
        obtain ⟨digits, rest⟩ := scan
        dsimp only
        by_cases hempty : digits = []
        · rw [if_pos hempty, if_pos hempty]
          exact .inl ⟨.noInteger, rfl, rfl⟩
        · rw [if_neg hempty, if_neg hempty]
          split
          · exact .inl ⟨.floating, rfl, rfl⟩
          · exact .inr ⟨rfl, _, rfl⟩

/-- A defective member is refused with its name. -/
theorem parseMember_of_bad {s name : Bytes} {obj : ParsedObject} {defect : Defect}
    (h : BadMember s obj defect name) :
    parseMember s obj = .error (utf8 defect.words ++ name) := by
  unfold parseMember
  cases h with
  | duplicate htoken hfield =>
      simp only [htoken, hfield, if_true]
      rfl
  | @noColon _ rest htoken hnew hcolon =>
      simp only [htoken, hnew, Option.isSome_none, Bool.false_eq_true, if_false]
      cases hrest : skipWs rest with
      | nil => rfl
      | cons c after =>
          have hc : c ≠ ascii ':' := by
            rw [hrest, List.head?_cons] at hcolon
            exact fun hc => hcolon (congrArg some hc)
          dsimp only
          rw [if_pos hc]
          rfl
  | @value _ rest value _ htoken hnew hcolon hdefect =>
      simp only [htoken, hnew, Option.isSome_none, Bool.false_eq_true, if_false, hcolon, ne_eq,
        not_true_eq_false]
      rcases parseValue_defect name (skipWs value) with ⟨defect', hdefect', herror⟩ | ⟨hnone, -⟩
      · rw [hdefect] at hdefect'
        obtain rfl := Option.some.inj hdefect'
        rw [herror]
        rfl
      · rw [hdefect] at hnone
        contradiction

/-- A member that is refused has no name, or is defective. -/
theorem parseMember_error {s e : Bytes} {obj : ParsedObject} (h : parseMember s obj = .error e) :
    e = utf8 "object key must be a JSON string" ∨
      ∃ defect name, BadMember s obj defect name ∧ e = utf8 defect.words ++ name := by
  unfold parseMember at h
  cases htoken : parseJsonStringToken s with
  | none =>
      rw [htoken] at h
      exact .inl (Except.error.inj h).symm
  | some r =>
      obtain ⟨name, rest⟩ := r
      simp only [htoken] at h
      right
      cases hfield : obj.get? name with
      | some field =>
          simp only [hfield, Option.isSome_some, if_true] at h
          exact ⟨.duplicate, name, .duplicate htoken (by rw [hfield]; rfl),
            (Except.error.inj h).symm⟩
      | none =>
          simp only [hfield, Option.isSome_none, Bool.false_eq_true, if_false] at h
          cases hrest : skipWs rest with
          | nil =>
              rw [hrest] at h
              exact ⟨.noColon, name, .noColon htoken hfield (by rw [hrest]; simp),
                (Except.error.inj h).symm⟩
          | cons c value =>
              simp only [hrest] at h
              by_cases hc : c = ascii ':'
              · subst hc
                rw [if_neg (by simp)] at h
                rcases parseValue_defect name (skipWs value) with
                  ⟨defect, hdefect, herror⟩ | ⟨-, r, hok⟩
                · rw [herror] at h
                  exact ⟨defect, name, .value htoken hfield hrest hdefect,
                    (Except.error.inj h).symm⟩
                · rw [hok] at h
                  contradiction
              · rw [if_pos hc] at h
                refine ⟨.noColon, name, .noColon htoken hfield ?_, (Except.error.inj h).symm⟩
                rw [hrest, List.head?_cons]
                exact fun hcolon => hc (Option.some.inj hcolon)

/-- A string token begins with a quote. -/
theorem parseJsonStringToken_head {s : Bytes} {r : Bytes × Bytes}
    (h : parseJsonStringToken s = some r) : s.head? = some (ascii '"') := by
  cases s with
  | nil => contradiction
  | cons c s =>
      rw [parseJsonStringToken] at h
      split at h
      · rename_i hquote
        rw [hquote, List.head?_cons]
      · contradiction

/-- So does a member with a name. -/
theorem BadMember.head {s name : Bytes} {obj : ParsedObject} {defect : Defect}
    (h : BadMember s obj defect name) : s.head? = some (ascii '"') := by
  cases h with
  | duplicate htoken => exact parseJsonStringToken_head htoken
  | noColon htoken => exact parseJsonStringToken_head htoken
  | value htoken => exact parseJsonStringToken_head htoken

/-- A member that is refused starts with its name. -/
theorem BadMembers.head {s name : Bytes} {obj : ParsedObject} {defect : Defect}
    (h : BadMembers s obj defect name) : s.head? = some (ascii '"') := by
  cases h with
  | here hbad => exact hbad.head
  | later hmember =>
      unfold parseMember at hmember
      split at hmember
      · contradiction
      · rename_i htoken
        exact parseJsonStringToken_head htoken

/-- The loop stops at the defective member. -/
theorem parseMembers_of_bad {s name : Bytes} {obj : ParsedObject} {defect : Defect}
    (h : BadMembers s obj defect name) :
    parseMembers s obj = .error (utf8 defect.words ++ name) := by
  induction h with
  | @here s name obj defect hbad =>
      have hs : s ≠ [] := by
        rintro rfl
        have hhead := hbad.head
        contradiction
      exact parseMembers_of_error hs (parseMember_of_bad hbad)
  | @later s key rest next name obj field defect hmember hcomma _ ih =>
      have hs : s ≠ [] := by
        rintro rfl
        contradiction
      rw [parseMembers_of_member hs hmember, hcomma]
      simp only [if_true]
      exact ih

/-- A payload with a defective field is refused with a message that quotes its name. -/
theorem parseBetJson_of_quotes [FieldOrder] {payload name : Bytes} {defect : Defect}
    (h : Quotes payload defect name) :
    parseBetJson payload = .error (utf8 defect.words ++ name) := by
  unfold parseBetJson
  cases h with
  | unknown hobject hunknown =>
      rw [hobject, ok_bind, hunknown]
      rfl
  | @member s _ _ hopen hbad =>
      have hmembers := parseMembers_of_bad hbad
      have hhead := hbad.head
      have hobject : parseObject payload = .error (utf8 defect.words ++ name) := by
        unfold parseObject
        simp only [hopen, ne_eq, not_true_eq_false, if_false]
        cases hrest : skipWs s with
        | nil =>
            rw [hrest] at hhead
            contradiction
        | cons c rest =>
            rw [hrest] at hmembers hhead
            obtain rfl := Option.some.inj hhead
            have hclose : ascii '"' ≠ ascii '\x7d' := by decide
            simp only [hclose, if_false, hmembers]
            rfl
      rw [hobject]
      rfl

/-! ## Every other message is fixed -/

/-- A text of at most 512 characters. -/
def IsShort (e : Bytes) : Prop :=
  ∃ text : String, utf8 text = e ∧ text.length ≤ 512

/-- The loop over the members fails at a defective one, or with a fixed message. -/
theorem parseMembers_refuses {s : Bytes} {obj : ParsedObject} {e : Bytes}
    (h : parseMembers s obj = .error e) :
    IsShort e ∨ ∃ defect name, BadMembers s obj defect name ∧
      e = utf8 defect.words ++ name := by
  induction hlength : s.length using Nat.strong_induction_on generalizing s obj with
  | _ n ih =>
      by_cases hs : s = []
      · rw [parseMembers, if_pos hs] at h
        contradiction
      · cases hmember : parseMember s obj with
        | error e' =>
            rw [parseMembers_of_error hs hmember] at h
            obtain rfl := Except.error.inj h
            rcases parseMember_error hmember with rfl | ⟨defect, name, hbad, rfl⟩
            · exact .inl ⟨_, rfl, by decide⟩
            · exact .inr ⟨defect, name, .here hbad, rfl⟩
        | ok r =>
            obtain ⟨key, field, rest⟩ := r
            rw [parseMembers_of_member hs hmember] at h
            split at h
            · exact .inl ⟨_, Except.error.inj h, by decide⟩
            · rename_i c next hrest
              split at h
              · rename_i hcomma
                have hlt : (skipWs next).length < n := by
                  have hmember' := parseMember_length_lt hmember
                  have hws' := skipWs_length_le next
                  have hws := skipWs_length_le rest
                  rw [hrest, List.length_cons] at hws
                  omega
                refine (ih _ hlt h rfl).imp_right ?_
                rintro ⟨defect, name, hbad, rfl⟩
                exact ⟨defect, name, .later hmember (hcomma ▸ hrest) hbad, rfl⟩
              · split at h
                · contradiction
                · exact .inl ⟨_, Except.error.inj h, by decide⟩

/-- The scan of the object fails at a defective member, or with a fixed message. -/
theorem parseObject_refuses [FieldOrder] {payload e : Bytes} (h : parseObject payload = .error e) :
    IsShort e ∨ ∃ defect name, Quotes payload defect name ∧ e = utf8 defect.words ++ name := by
  have hend : ∀ {obj : ParsedObject} {rest : Bytes},
      (if skipWs rest = [] then .ok obj
        else .error (utf8 "trailing bytes after JSON object") : Except Bytes ParsedObject) =
        .error e → IsShort e := by
    intro obj rest hrest
    split at hrest
    · contradiction
    · exact ⟨_, Except.error.inj hrest, by decide⟩
  unfold parseObject at h
  split at h
  · exact .inl ⟨_, Except.error.inj h, by decide⟩
  · rename_i c s hopen
    split at h
    · exact .inl ⟨_, Except.error.inj h, by decide⟩
    · rename_i hbrace
      obtain rfl := not_not.mp hbrace
      dsimp only at h
      split at h
      · rw [ok_bind] at h
        exact .inl (hend h)
      · rename_i c rest hfirst
        split at h
        · rw [ok_bind] at h
          exact .inl (hend h)
        · rcases bind_eq_error_iff.mp h with hmembers | ⟨r, -, hrest⟩
          · refine (parseMembers_refuses hmembers).imp_right ?_
            rintro ⟨defect, name, hbad, rfl⟩
            exact ⟨defect, name, .member hopen (hfirst ▸ hbad), rfl⟩
          · exact .inl (hend hrest)

/-- The messages about a required string are short, for they name a field of the schema. -/
theorem requiredString_refuses (obj : ParsedObject) {name : String} (hname : name.length ≤ 400) :
    Throws IsShort (requiredString obj (utf8 name)) := by
  have hmessage : ∀ words : String, words.length ≤ 100 → IsShort (utf8 words ++ utf8 name) := by
    intro words hwords
    refine ⟨words ++ name, utf8_append words name, ?_⟩
    rw [String.length_append]
    omega
  unfold requiredString
  split
  · exact .error (hmessage _ (by decide))
  · split
    · exact .error (hmessage _ (by decide))
    · split
      · split
        · exact .error (hmessage _ (by decide))
        · exact .ok _
      · exact .error (hmessage _ (by decide))

/-- So are those about a required integer. -/
theorem requiredI64_refuses (obj : ParsedObject) {name : String} (hname : name.length ≤ 400) :
    Throws IsShort (requiredI64 obj (utf8 name)) := by
  have hmessage : ∀ words : String, words.length ≤ 100 → IsShort (utf8 words ++ utf8 name) := by
    intro words hwords
    refine ⟨words ++ name, utf8_append words name, ?_⟩
    rw [String.length_append]
    omega
  unfold requiredI64
  split
  · exact .error (hmessage _ (by decide))
  · split
    · exact .error (hmessage _ (by decide))
    · split
      · exact .error (hmessage _ (by decide))
      · exact .ok _

/-- And those of a check. -/
theorem require_refuses {p : Bool} {message : String} (hmessage : message.length ≤ 512) :
    Throws IsShort (require p (utf8 message)) := by
  unfold require
  split
  · exact .ok _
  · exact .error ⟨message, rfl, hmessage⟩

/-- A payload is refused with a short fixed text, or for a field whose name is quoted. -/
theorem parseBetJson_refuses [FieldOrder] {payload e : Bytes}
    (h : parseBetJson payload = .error e) :
    IsShort e ∨ ∃ defect name, Quotes payload defect name ∧ e = utf8 defect.words ++ name := by
  unfold parseBetJson at h
  rcases bind_eq_error_iff.mp h with hobject | ⟨obj, hobject, hfields⟩
  · exact parseObject_refuses hobject
  · split at hfields
    · rename_i key hunknown
      exact .inr ⟨.unknown, key, .unknown hobject hunknown, (Except.error.inj hfields).symm⟩
    · left
      refine (?_ : Throws IsShort _) e hfields
      refine (requiredString_refuses obj (by decide)).bind fun _ _ => ?_
      refine (requiredString_refuses obj (by decide)).bind fun _ _ => ?_
      refine (requiredString_refuses obj (by decide)).bind fun _ _ => ?_
      refine (requiredString_refuses obj (by decide)).bind fun _ _ => ?_
      refine (requiredString_refuses obj (by decide)).bind fun _ _ => ?_
      refine (requiredString_refuses obj (by decide)).bind fun _ _ => ?_
      refine (requiredString_refuses obj (by decide)).bind fun _ _ => ?_
      refine (requiredString_refuses obj (by decide)).bind fun _ _ => ?_
      refine (requiredI64_refuses obj (by decide)).bind fun _ _ => ?_
      refine (requiredI64_refuses obj (by decide)).bind fun _ _ => ?_
      refine (requiredI64_refuses obj (by decide)).bind fun _ _ => ?_
      refine (require_refuses (by decide)).bind fun _ _ => ?_
      refine (require_refuses (by decide)).bind fun _ _ => ?_
      refine (require_refuses (by decide)).bind fun _ _ => ?_
      exact (require_refuses (by decide)).bind fun _ _ => .ok _

end RiskEngine
end BettingPlatform
