import BettingPlatform.Foundations.JsonText

/-!
# Writing JSON values

`json.dumps` with its default arguments: a space behind every comma and every colon between
tokens, and ASCII only.  A character that is neither printable ASCII nor has a short escape
becomes a `\u` escape, or two of them when it lies above `0xFFFF`.

Lone surrogates are no characters, so they do not come up.  The text of a `float` is a
parameter; a value that holds one is not read back here.

Main results:

- Theorem `scanChars_asciiChar`: every character of a string reads back.
- Theorem `Json.Dumpable.readsBack`: a value reads back, whatever stands behind it.
- Theorem `loads_dumps`: `json.loads` of what `json.dumps` writes is the value itself.
-/

namespace BettingPlatform
namespace Python

/-! ## Characters -/

/-- A `\u` escape. -/
def unitText (n : Nat) : List Char :=
  '\\' :: 'u' :: toHex 4 n

/-- A character inside a string token. -/
def asciiChar (c : Char) : List Char :=
  match shortEscape c with
  | some e => ['\\', e]
  | none =>
      if 0x20 ≤ c.toNat ∧ c.toNat < 0x7F then [c]
      else if c.toNat < 0x10000 then unitText c.toNat
      else unitText (0xD800 + (c.toNat - 0x10000) / 0x400) ++
        unitText (0xDC00 + (c.toNat - 0x10000) % 0x400)

/-- A string token. -/
def strText (s : String) : List Char :=
  '"' :: s.toList.flatMap asciiChar ++ ['"']

/-! ## Values -/

section Dumps

variable (floatText : PyFloat → List Char)

mutual

/-- `json.dumps`. -/
def dumps : Json → List Char
  | .null => "null".toList
  | .bool b => if b then "true".toList else "false".toList
  | .int n => intText n
  | .float x => floatText x
  | .str s => strText s
  | .list items => '[' :: dumpsItems [] items ++ [']']
  | .dict items => '\x7b' :: dumpsMembers [] items ++ ['\x7d']

/-- The items of an array; `front` stands before the first of them. -/
def dumpsItems (front : List Char) : List Json → List Char
  | [] => []
  | item :: items => front ++ dumps item ++ dumpsItems [',', ' '] items

/-- The members of an object. -/
def dumpsMembers (front : List Char) : List (String × Json) → List Char
  | [] => []
  | (key, value) :: members =>
      front ++ strText key ++ [':', ' '] ++ dumps value ++ dumpsMembers [',', ' '] members

end

end Dumps

/-- The values that read back: no float, no integer with too many digits, and no key twice. -/
inductive Json.Dumpable : Json → Prop
  | null : Dumpable .null
  | bool (b : Bool) : Dumpable (.bool b)
  | int {n : Int} : Decimal.numDigits n.natAbs ≤ maxStrDigits → Dumpable (.int n)
  | str (s : String) : Dumpable (.str s)
  | list {items : List Json} : (∀ item ∈ items, Dumpable item) → Dumpable (.list items)
  | dict {items : List (String × Json)} : (items.map Prod.fst).Nodup →
      (∀ item ∈ items, Dumpable item.2) → Dumpable (.dict items)

/-! ## Reading characters back -/

/-- A code unit is read back from its hexadecimal digits. -/
theorem scanPieces_unitText {n : Nat} (hn : n < 0x10000) (rest : List Char) :
    scanPieces (unitText n ++ rest) = (scanPieces rest).map fun r => (.unit n :: r.1, r.2) := by
  have hvalue : ofHex (toHex 4 n) = some n := by
    rw [ofHex_toHex, Nat.mod_eq_of_lt (by omega)]
  obtain ⟨d₁, d₂, d₃, d₄, hdigits⟩ : ∃ d₁ d₂ d₃ d₄, toHex 4 n = [d₁, d₂, d₃, d₄] :=
    ⟨_, _, _, _, rfl⟩
  rw [hdigits] at hvalue
  rw [unitText, hdigits, scanPieces.eq_def]
  simp only [List.cons_append, List.nil_append, show ('\\' : Char) ≠ '"' by decide, if_false,
    if_true, hvalue]
  cases scanPieces rest <;> rfl

/-- A code unit that is no surrogate is a character. -/
theorem joinPieces_unit {n : Nat} (hhigh : isHighSurrogate n = false)
    (hlow : isLowSurrogate n = false) (pieces : List Piece) :
    joinPieces (.unit n :: pieces) = (joinPieces pieces).map (Char.ofNat n :: ·) := by
  cases pieces with
  | nil => simp [joinPieces, hhigh, hlow]
  | cons piece pieces =>
      cases piece with
      | char c => simp [joinPieces, hhigh, hlow]
      | unit low => simp [joinPieces, hhigh, hlow]

/-- Two surrogates are one character. -/
theorem joinPieces_pair {high low : Nat} (hhigh : isHighSurrogate high = true)
    (hlow : isLowSurrogate low = true) (pieces : List Piece) :
    joinPieces (.unit high :: .unit low :: pieces) = (joinPieces pieces).map
      (Char.ofNat (0x10000 + (high - 0xD800) * 0x400 + (low - 0xDC00)) :: ·) := by
  rw [joinPieces.eq_def]
  simp [hhigh, hlow]

/-- Pieces that denote a character come first among the characters. -/
theorem scanChars_of_join {c : Char} (front : List Piece) {cs rest : List Char}
    (hpieces : scanPieces cs = (scanPieces rest).map fun r => (front ++ r.1, r.2))
    (hjoin : ∀ pieces, joinPieces (front ++ pieces) = (joinPieces pieces).map (c :: ·)) :
    scanChars cs = (scanChars rest).map fun r => (c :: r.1, r.2) := by
  unfold scanChars
  rw [hpieces]
  cases scanPieces rest with
  | none => rfl
  | some r =>
      obtain ⟨pieces, rest'⟩ := r
      cases hchars : joinPieces pieces <;> simp [hjoin, hchars]

/-- Every character of a string reads back. -/
theorem scanChars_asciiChar (c : Char) (rest : List Char) :
    scanChars (asciiChar c ++ rest) = (scanChars rest).map fun r => (c :: r.1, r.2) := by
  unfold asciiChar
  cases hshort : shortEscape c with
  | some e => exact scanChars_of_char (scanPieces_short hshort rest)
  | none =>
      dsimp only
      split_ifs with hprintable hsmall
      · have hquote : c ≠ '"' := by
          rintro rfl
          contradiction
        have hbackslash : c ≠ '\\' := by
          rintro rfl
          contradiction
        exact scanChars_of_char (scanPieces_plain hquote hbackslash hprintable.1 rest)
      · -- the code point itself is no surrogate
        have hvalid : c.toNat < 0xD800 ∨ 0xDFFF < c.toNat ∧ c.toNat < 0x110000 := c.valid
        apply scanChars_of_join [.unit c.toNat] (scanPieces_unitText hsmall rest)
        intro pieces
        have hhigh : isHighSurrogate c.toNat = false := by
          simp only [isHighSurrogate, Bool.and_eq_false_iff, decide_eq_false_iff_not]
          omega
        have hlow : isLowSurrogate c.toNat = false := by
          simp only [isLowSurrogate, Bool.and_eq_false_iff, decide_eq_false_iff_not]
          omega
        rw [List.singleton_append, joinPieces_unit hhigh hlow, Char.ofNat_toNat]
      · have hvalid : c.toNat < 0xD800 ∨ 0xDFFF < c.toNat ∧ c.toNat < 0x110000 := c.valid
        generalize hhigh : 0xD800 + (c.toNat - 0x10000) / 0x400 = high
        generalize hlow : 0xDC00 + (c.toNat - 0x10000) % 0x400 = low
        apply scanChars_of_join [.unit high, .unit low]
        · rw [List.append_assoc, scanPieces_unitText (by omega), scanPieces_unitText (by omega),
            Option.map_map]
          rfl
        · intro pieces
          have hpair : isHighSurrogate high = true ∧ isLowSurrogate low = true := by
            simp only [isHighSurrogate, isLowSurrogate, Bool.and_eq_true, decide_eq_true_eq]
            omega
          have hcode : 0x10000 + (high - 0xD800) * 0x400 + (low - 0xDC00) = c.toNat := by omega
          simp only [List.cons_append, List.nil_append]
          rw [joinPieces_pair hpair.1 hpair.2, hcode, Char.ofNat_toNat]

/-- A string reads back. -/
theorem scanString_strText (s : String) (rest : List Char) :
    scanString ((strText s).tail ++ rest) = some (s, rest) := by
  have hchars : ∀ cs : List Char,
      scanChars (cs.flatMap asciiChar ++ '"' :: rest) = some (cs, rest) := by
    intro cs
    induction cs with
    | nil => exact scanChars_quote rest
    | cons c cs ih =>
        rw [List.flatMap_cons, List.append_assoc, scanChars_asciiChar, ih]
        rfl
  have htail : (strText s).tail ++ rest = s.toList.flatMap asciiChar ++ '"' :: rest := by
    simp [strText]
  rw [htail, scanString, hchars]
  simp

/-! ## Reading numbers back -/

/-- What follows does not go on with a number. -/
def EndsNumber (rest : List Char) : Prop :=
  ∀ c ∈ rest.head?, c.isDigit = false ∧ c ≠ '.' ∧ c ≠ 'e' ∧ c ≠ 'E'

theorem endsNumber_cons {c : Char} (hc : c.isDigit = false ∧ c ≠ '.' ∧ c ≠ 'e' ∧ c ≠ 'E')
    (cs : List Char) : EndsNumber (c :: cs) := by
  intro d hd
  obtain rfl := Option.some.inj hd
  exact hc

/-- An integer is scanned up to the end of its number. -/
theorem scanInteger_ends (n : Nat) {rest : List Char} (hrest : EndsNumber rest) :
    scanInteger (Nat.toDigits 10 n ++ rest) = (Nat.toDigits 10 n, rest) := by
  cases rest with
  | cons d rest => exact scanInteger_toDigits n (hrest d rfl).1 rest
  | nil =>
      have hdigits : ∀ c ∈ Nat.toDigits 10 n, c.isDigit :=
        fun c hc => Nat.isDigit_of_mem_toDigits (by decide) (by decide) hc
      rw [List.append_nil]
      unfold scanInteger
      split
      · rename_i rest' hhead
        rw [hhead, toDigits_zero_head hhead]
      · rw [List.takeWhile_eq_self_iff.mpr hdigits, List.dropWhile_eq_nil_iff.mpr hdigits]

/-- And converted, when it is short enough. -/
theorem scanMagnitude_ends (negative : Bool) {n : Nat} {rest : List Char}
    (hn : Decimal.numDigits n ≤ maxStrDigits) (hrest : EndsNumber rest) :
    scanMagnitude negative (Nat.toDigits 10 n ++ rest) =
      some (.int (if negative then -n else n), rest) := by
  have hvalue : Nat.ofDigitChars 10 (Nat.toDigits 10 n) 0 = n := Nat.ofDigitChars_ten_toDigits
  have hlength : ¬ maxStrDigits < (Nat.toDigits 10 n).length := not_lt.mpr hn
  have hfraction : scanFraction rest = none := by
    cases rest with
    | nil => rfl
    | cons d rest =>
        unfold scanFraction
        split
        · rename_i rest' hdot
          exact absurd (List.cons.inj hdot).1 (hrest d rfl).2.1
        · rfl
  have hexponent : scanExponent rest = none := by
    cases rest with
    | nil => rfl
    | cons d rest =>
        obtain ⟨-, -, he, hE⟩ := hrest d rfl
        simp [scanExponent, he, hE]
  unfold scanMagnitude
  rw [scanInteger_ends n hrest]
  simp only [hfraction, Option.elim_none, hexponent, Nat.toDigits_ne_nil, if_false, hvalue,
    hlength]

/-- An integer reads back. -/
theorem scanNumber_ends {n : Int} {rest : List Char}
    (hn : Decimal.numDigits n.natAbs ≤ maxStrDigits) (hrest : EndsNumber rest) :
    scanNumber (intText n ++ rest) = some (.int n, rest) := by
  cases n with
  | negSucc m => exact scanMagnitude_ends true hn hrest
  | ofNat m =>
      have hmagnitude := scanMagnitude_ends false (n := m) hn hrest
      unfold scanNumber intText
      split
      · rename_i rest' hminus
        obtain ⟨c, cs, hhead⟩ := List.exists_cons_of_ne_nil (Nat.toDigits_ne_nil (b := 10) (n := m))
        have hdigit : c.isDigit :=
          Nat.isDigit_of_mem_toDigits (b := 10) (n := m) (by decide) (by decide) (by simp [hhead])
        have hfirst : c :: (cs ++ rest) = '-' :: rest' := by
          rw [← List.cons_append, ← hhead]
          exact hminus
        obtain rfl := (List.cons.inj hfirst).1
        contradiction
      · exact hmagnitude

/-! ## Reading values back -/

section ReadBack

variable (floatText : PyFloat → List Char) {v : Json}

/-- The value's text is scanned as the value, whatever follows it. -/
def ReadsBack (v : Json) : Prop :=
  ∀ (fuel : Nat) (rest : List Char), (dumps floatText v).length ≤ fuel → EndsNumber rest →
    scanValue fuel (dumps floatText v ++ rest) = some (v, rest)

/-- No value's text begins with a space or the end of an array. -/
theorem Json.Dumpable.head (h : v.Dumpable) :
    ∃ c cs, dumps floatText v = c :: cs ∧ isJsonSpace c = false ∧ c ≠ ']' := by
  cases h with
  | null => exact ⟨_, _, rfl, by decide⟩
  | bool b =>
      cases b with
      | false => exact ⟨_, _, rfl, by decide⟩
      | true => exact ⟨_, _, rfl, by decide⟩
  | @int n =>
      have hdigits : ∀ m, ∃ c cs, Nat.toDigits 10 m = c :: cs ∧ isJsonSpace c = false ∧
          c ≠ ']' := by
        intro m
        obtain ⟨c, cs, hcs⟩ := List.exists_cons_of_ne_nil (Nat.toDigits_ne_nil (b := 10) (n := m))
        have hc : c.isDigit :=
          Nat.isDigit_of_mem_toDigits (b := 10) (n := m) (by decide) (by decide) (by simp [hcs])
        refine ⟨c, cs, hcs, ?_, ?_⟩
        · by_contra hspace
          simp only [isJsonSpace, Bool.not_eq_false, Bool.or_eq_true, decide_eq_true_eq] at hspace
          rcases hspace with ((rfl | rfl) | rfl) | rfl <;> contradiction
        · rintro rfl
          contradiction
      rw [dumps]
      cases n with
      | ofNat m => exact hdigits m
      | negSucc m => exact ⟨_, _, rfl, by decide⟩
  | str s => exact ⟨_, _, by rw [dumps]; rfl, by decide⟩
  | list => exact ⟨_, _, by rw [dumps]; rfl, by decide⟩
  | dict => exact ⟨_, _, by rw [dumps]; rfl, by decide⟩

/-- A written value does not begin with a space. -/
theorem Json.Dumpable.skipSpace (h : v.Dumpable) (rest : List Char) :
    Python.skipSpace (dumps floatText v ++ rest) = dumps floatText v ++ rest := by
  obtain ⟨c, cs, htext, hspace, -⟩ := h.head floatText
  rw [htext, List.cons_append, skipSpace_cons hspace]

theorem skipSpace_space (cs : List Char) : skipSpace (' ' :: cs) = skipSpace cs := by
  simp [skipSpace, isJsonSpace]

theorem EndsNumber.closing {c : Char} (hc : c = ',' ∨ c = ']' ∨ c = '\x7d') (cs : List Char) :
    EndsNumber (c :: cs) := by
  apply endsNumber_cons
  rcases hc with rfl | rfl | rfl <;> decide

/-- The items of an array read back. -/
theorem scanItems_dumpsItems {items : List Json}
    (hitems : ∀ item ∈ v :: items, item.Dumpable ∧ ReadsBack floatText item)
    {fuel : Nat} (hfuel : (dumpsItems floatText [] (v :: items)).length < fuel)
    (before : List Json) (rest : List Char) :
    scanItems fuel before (dumpsItems floatText [] (v :: items) ++ ']' :: rest) =
      some (before ++ v :: items, rest) := by
  induction items generalizing v fuel before with
  | nil =>
      obtain ⟨fuel, rfl⟩ := Nat.exists_eq_succ_of_ne_zero (Nat.ne_zero_of_lt hfuel)
      simp only [dumpsItems, List.nil_append, List.append_nil] at hfuel ⊢
      have hvalue := (hitems v List.mem_cons_self).2 fuel _ (Nat.lt_succ_iff.mp hfuel)
        (.closing (.inr (.inl rfl)) rest)
      rw [scanItems, hvalue]
      simp [skipSpace_cons (c := ']') rfl]
  | cons next items ih =>
      obtain ⟨fuel, rfl⟩ := Nat.exists_eq_succ_of_ne_zero (Nat.ne_zero_of_lt hfuel)
      obtain ⟨⟨-, hreads⟩, hlater⟩ := List.forall_mem_cons.mp hitems
      have htext : dumpsItems floatText [] (v :: next :: items) = dumps floatText v ++
          ',' :: ' ' :: dumpsItems floatText [] (next :: items) := by
        simp [dumpsItems]
      have hspace : skipSpace (dumpsItems floatText [] (next :: items) ++ ']' :: rest) =
          dumpsItems floatText [] (next :: items) ++ ']' :: rest := by
        simp only [dumpsItems, List.nil_append, List.append_assoc]
        exact (hlater next List.mem_cons_self).1.skipSpace floatText _
      rw [htext, List.length_append, List.length_cons, List.length_cons] at hfuel
      have hvalue := hreads fuel _ (by omega)
        (.closing (.inl rfl) (' ' :: dumpsItems floatText [] (next :: items) ++ ']' :: rest))
      rw [htext, List.append_assoc, scanItems, List.cons_append, hvalue]
      simp only [Option.bind_eq_bind, Option.bind_some, skipSpace_cons (c := ',') rfl, if_true,
        List.cons_append, skipSpace_space, hspace]
      rw [ih hlater (by omega), List.append_assoc]
      rfl

/-- A new key goes to the end. -/
theorem setItem_new {items : List (String × Json)} {key : String}
    (hnew : ∀ item ∈ items, item.1 ≠ key) (value : Json) :
    setItem items key value = items ++ [(key, value)] := by
  rw [setItem, if_neg]
  simp only [List.any_eq_true, decide_eq_true_eq, not_exists, not_and]
  exact hnew

/-- One member reads back, and the scan goes on behind it. -/
theorem scanMembers_dumped {key : String} {value : Json} (hdumpable : value.Dumpable)
    (hreads : ReadsBack floatText value) {before : List (String × Json)}
    (hnew : ∀ item ∈ before, item.1 ≠ key) {fuel : Nat}
    (hfuel : (dumps floatText value).length ≤ fuel) {d : Char} (hd : d = ',' ∨ d = '\x7d')
    (rest : List Char) :
    scanMembers (fuel + 1) before
        (strText key ++ ':' :: ' ' :: (dumps floatText value ++ d :: rest)) =
      if d = ',' then scanMembers fuel (before ++ [(key, value)]) (skipSpace rest)
      else some (before ++ [(key, value)], rest) := by
  have hvalue := hreads fuel _ hfuel (.closing (hd.imp_right .inr) rest)
  have hspace : skipSpace (d :: rest) = d :: rest := by
    rcases hd with rfl | rfl
    · exact skipSpace_cons rfl rest
    · exact skipSpace_cons rfl rest
  have hquote : strText key = '"' :: (strText key).tail := rfl
  rw [hquote, List.cons_append, scanMembers, if_neg (by simp), scanString_strText]
  simp only [Option.bind_eq_bind, Option.bind_some, skipSpace_cons (c := ':') rfl, ne_eq,
    not_true_eq_false, if_false, skipSpace_space, hdumpable.skipSpace floatText, hvalue, hspace,
    setItem_new hnew]
  rcases hd with rfl | rfl
  · simp
  · simp

/-- The members of an object read back. -/
theorem scanMembers_dumpsMembers {member : String × Json} {members : List (String × Json)}
    (hmembers : ∀ m ∈ member :: members, m.2.Dumpable ∧ ReadsBack floatText m.2)
    {before : List (String × Json)}
    (hnew : (before.map Prod.fst ++ (member :: members).map Prod.fst).Nodup) {fuel : Nat}
    (hfuel : (dumpsMembers floatText [] (member :: members)).length < fuel)
    (rest : List Char) :
    scanMembers fuel before (dumpsMembers floatText [] (member :: members) ++ '\x7d' :: rest) =
      some (before ++ member :: members, rest) := by
  induction members generalizing member fuel before with
  | nil =>
      obtain ⟨fuel, rfl⟩ := Nat.exists_eq_succ_of_ne_zero (Nat.ne_zero_of_lt hfuel)
      obtain ⟨hdumpable, hreads⟩ := hmembers member List.mem_cons_self
      have hfresh : ∀ item ∈ before, item.1 ≠ member.1 := fun item hitem =>
        (List.nodup_append.mp hnew).2.2 item.1 (List.mem_map_of_mem hitem) member.1 (by simp)
      have htext : dumpsMembers floatText [] [member] =
          strText member.1 ++ ':' :: ' ' :: dumps floatText member.2 := by
        simp [dumpsMembers]
      rw [htext, List.length_append, List.length_cons, List.length_cons] at hfuel
      have hlength : (dumps floatText member.2).length ≤ fuel := by omega
      have hscan := scanMembers_dumped floatText hdumpable hreads hfresh hlength (.inr rfl) rest
      rw [htext, List.append_assoc, List.cons_append, List.cons_append, hscan]
      simp
  | cons next members ih =>
      obtain ⟨fuel, rfl⟩ := Nat.exists_eq_succ_of_ne_zero (Nat.ne_zero_of_lt hfuel)
      obtain ⟨⟨hdumpable, hreads⟩, hlater⟩ := List.forall_mem_cons.mp hmembers
      have hfresh : ∀ item ∈ before, item.1 ≠ member.1 := fun item hitem =>
        (List.nodup_append.mp hnew).2.2 item.1 (List.mem_map_of_mem hitem) member.1 (by simp)
      have htext : dumpsMembers floatText [] (member :: next :: members) =
          strText member.1 ++ ':' :: ' ' :: (dumps floatText member.2 ++
            ',' :: ' ' :: dumpsMembers floatText [] (next :: members)) := by
        simp [dumpsMembers]
      have hspace : skipSpace (dumpsMembers floatText [] (next :: members) ++ '\x7d' :: rest) =
          dumpsMembers floatText [] (next :: members) ++ '\x7d' :: rest := by
        simp only [dumpsMembers, List.nil_append, List.append_assoc]
        exact skipSpace_cons rfl _
      simp only [htext, List.length_append, List.length_cons] at hfuel
      have hlength : (dumps floatText member.2).length ≤ fuel := by omega
      have hscan := scanMembers_dumped floatText hdumpable hreads hfresh hlength (.inl rfl)
        (' ' :: dumpsMembers floatText [] (next :: members) ++ '\x7d' :: rest)
      have hnew' : ((before ++ [member]).map Prod.fst ++ (next :: members).map Prod.fst).Nodup := by
        simpa using hnew
      simp only [htext, List.append_assoc, List.cons_append] at hscan ⊢
      rw [hscan, if_pos trivial, skipSpace_space, hspace, ih hlater hnew' (by omega),
        List.append_assoc]
      rfl

/-- A value reads back, whatever stands behind it. -/
theorem Json.Dumpable.readsBack (h : v.Dumpable) : ReadsBack floatText v := by
  induction h with
  | null =>
      intro fuel rest hfuel hrest
      rw [dumps] at hfuel ⊢
      obtain ⟨fuel, rfl⟩ := Nat.exists_eq_succ_of_ne_zero (Nat.ne_zero_of_lt hfuel)
      rfl
  | bool b =>
      intro fuel rest hfuel hrest
      rw [dumps] at hfuel ⊢
      cases b with
      | false =>
          obtain ⟨fuel, rfl⟩ := Nat.exists_eq_succ_of_ne_zero (Nat.ne_zero_of_lt hfuel)
          rfl
      | true =>
          obtain ⟨fuel, rfl⟩ := Nat.exists_eq_succ_of_ne_zero (Nat.ne_zero_of_lt hfuel)
          rfl
  | @int n hn =>
      intro fuel rest hfuel hrest
      obtain ⟨c, cs, htext, -⟩ := (Json.Dumpable.int hn).head floatText
      rw [htext, List.length_cons] at hfuel
      obtain ⟨fuel, rfl⟩ := Nat.exists_eq_succ_of_ne_zero (Nat.ne_zero_of_lt hfuel)
      rw [dumps, scanValue_intText, scanNumber_ends hn hrest]
  | str s =>
      intro fuel rest hfuel hrest
      have hquote : strText s = '"' :: (strText s).tail := rfl
      rw [dumps, hquote, List.length_cons] at hfuel
      obtain ⟨fuel, rfl⟩ := Nat.exists_eq_succ_of_ne_zero (Nat.ne_zero_of_lt hfuel)
      rw [dumps, hquote, List.cons_append, scanValue, if_pos rfl, scanString_strText]
      rfl
  | @list items hitems ih =>
      intro fuel rest hfuel hrest
      rw [dumps, List.length_append, List.length_cons, List.length_singleton] at hfuel
      obtain ⟨fuel, rfl⟩ := Nat.exists_eq_succ_of_ne_zero (Nat.ne_zero_of_lt hfuel)
      rw [dumps]
      cases items with
      | nil => rfl
      | cons item items =>
          have hlength : (dumpsItems floatText [] (item :: items)).length < fuel := by omega
          have hscan := scanItems_dumpsItems floatText (fun i hi => ⟨hitems i hi, ih i hi⟩)
            hlength [] rest
          obtain ⟨c, cs, htext, hspace, hclose⟩ :=
            (hitems item List.mem_cons_self).head floatText
          have hbegin : dumpsItems floatText [] (item :: items) ++ ']' :: rest =
              c :: (cs ++ dumpsItems floatText [',', ' '] items ++ ']' :: rest) := by
            simp [dumpsItems, htext]
          rw [hbegin] at hscan
          rw [List.append_assoc, List.cons_append, List.singleton_append, hbegin, scanValue,
            if_neg (by decide), if_neg (by decide), if_pos rfl, skipSpace_cons hspace]
          simp only [hclose, if_false, hscan]
          rfl
  | @dict items hkeys hitems ih =>
      intro fuel rest hfuel hrest
      rw [dumps, List.length_append, List.length_cons, List.length_singleton] at hfuel
      obtain ⟨fuel, rfl⟩ := Nat.exists_eq_succ_of_ne_zero (Nat.ne_zero_of_lt hfuel)
      rw [dumps]
      cases items with
      | nil => rfl
      | cons member members =>
          have hlength : (dumpsMembers floatText [] (member :: members)).length < fuel := by omega
          have hnew : (([] : List (String × Json)).map Prod.fst ++
            (member :: members).map Prod.fst).Nodup := hkeys
          have hscan := scanMembers_dumpsMembers floatText (fun m hm => ⟨hitems m hm, ih m hm⟩)
            hnew hlength rest
          obtain ⟨cs, hbegin⟩ : ∃ cs,
              dumpsMembers floatText [] (member :: members) ++ '\x7d' :: rest = '"' :: cs :=
            ⟨_, by simp only [dumpsMembers, List.nil_append, List.append_assoc]; rfl⟩
          rw [hbegin] at hscan
          rw [List.append_assoc, List.cons_append, List.singleton_append, hbegin, scanValue,
            if_neg (by decide), if_pos rfl, skipSpace_cons rfl]
          simp only [show ('"' : Char) ≠ '\x7d' by decide, if_false, hscan]
          rfl

/-- `json.loads` of what `json.dumps` writes is the value itself. -/
theorem loads_dumps (h : v.Dumpable) : loads (dumps floatText v) = some v := by
  have hspace := h.skipSpace floatText []
  have hscan := h.readsBack floatText _ [] (Nat.le_succ _) (by simp [EndsNumber])
  rw [List.append_nil] at hspace hscan
  rw [loads, hspace, hscan]
  rfl

end ReadBack

end Python
end BettingPlatform
