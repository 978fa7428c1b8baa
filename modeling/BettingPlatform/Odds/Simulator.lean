import BettingPlatform.Foundations.DecimalSum
import BettingPlatform.Odds.Ticks
import BettingPlatform.Wire.WrittenObjects

/-!
# The odds simulator

A selection walks in steps of at most 0.0250, between 1.0100 and 25.0000, and every step is
published as a tick with the next sequence number.  The draws and the clock are given.

Main results:

- Theorem `walk_spec`: the walk is exact and stays between its bounds.
- Theorem `nextTick_cases`: what one tick has of its selection.
- Theorem `nextTick_isSome_iff`: which ticks validate.
-/

namespace BettingPlatform
namespace Odds

open Python JsonGrammar

/-! ## The walk -/

/-- `Decimal(str(random.uniform(-0.025, 0.025)))`. -/
structure Draw where
  value : Decimal
  range : value.magnitude ≤ 1 / 40

/-- `Decimal("1.0100")`. -/
def lowestOdds : Decimal := ⟨false, 10100, -4⟩

/-- `Decimal("25.0000")`. -/
def highestOdds : Decimal := ⟨false, 250000, -4⟩

/-- `min(Decimal("25.0000"), max(Decimal("1.0100"), odds + drift))`. -/
def walk (odds drift : Decimal) : Decimal :=
  Decimal.minOf highestOdds (Decimal.maxOf lowestOdds (Decimal.add odds drift))

/-- A draw is quantized to a drift of at most 250 units. -/
theorem Draw.quantize (draw : Draw) :
    ∃ coeff ≤ 250, draw.value.quantize (-4) .halfEven = some ⟨draw.value.negative, coeff, -4⟩ := by
  have hscaled : draw.value.magnitude * 10 ^ 4 ≤ ((250 : ℕ) : ℚ) := by
    have hrange := draw.range
    push_cast
    linarith
  exact Decimal.quantize_le .halfEven hscaled (by decide)

/-- Odds in units of 0.0001. -/
abbrev units (coeff : Nat) : Decimal := ⟨false, coeff, -4⟩

/-- Odds are compared by their units. -/
theorem lt_units (m n : Nat) : (units m).lt (units n) = decide (m < n) := by
  rw [Decimal.lt_of_exp (a := units m) (b := units n) rfl]
  simp [Decimal.signed]

/-- So is the greater of two. -/
theorem maxOf_units (m n : Nat) : Decimal.maxOf (units m) (units n) = units (max m n) := by
  simp only [Decimal.maxOf, lt_units, decide_eq_true_eq]
  split
  · rename_i hlt
    rw [max_eq_right hlt.le]
  · rename_i hle
    rw [max_eq_left (not_lt.mp hle)]

/-- And the smaller. -/
theorem minOf_units (m n : Nat) : Decimal.minOf (units m) (units n) = units (min m n) := by
  simp only [Decimal.minOf, lt_units, decide_eq_true_eq]
  split
  · rename_i hlt
    rw [min_eq_right hlt.le]
  · rename_i hle
    rw [min_eq_left (not_lt.mp hle)]

/-- The walk is exact, stays between its bounds and moves by no more than the drift. -/
theorem walk_spec {coeff : Nat} {drift : Decimal} (hlow : 10100 ≤ coeff) (hhigh : coeff ≤ 250000)
    (hexp : drift.exp = -4) (hdrift : drift.coeff ≤ 250) :
    ∃ coeff', walk (units coeff) drift = units coeff' ∧ 10100 ≤ coeff' ∧ coeff' ≤ 250000 ∧
      coeff ≤ coeff' + 250 ∧ coeff' ≤ coeff + 250 := by
  have hsigned : drift.signed = drift.coeff ∨ drift.signed = -drift.coeff := by
    unfold Decimal.signed
    split <;> simp
  obtain ⟨n, hn⟩ : ∃ n : Nat, (coeff : Int) + drift.signed = n :=
    ⟨((coeff : Int) + drift.signed).toNat, by omega⟩
  have hadd : Decimal.add (units coeff) drift = units n :=
    Decimal.add_of_exp hexp (by omega) hn ((by omega : n ≤ 250250).trans_lt (by decide))
  refine ⟨min 250000 (max 10100 n), ?_, by omega, by omega, by omega, by omega⟩
  rw [walk, hadd, lowestOdds, highestOdds, maxOf_units, minOf_units]

/-! ## Selections and their ticks -/

/-- `SimulatedSelection`, with the bounds that the walk keeps. -/
structure SimulatedSelection where
  matchId : String
  marketId : String
  selectionId : String
  odds : Decimal
  sequence : Nat
  odds_range : ∃ coeff, odds = units coeff ∧ 10100 ≤ coeff ∧ coeff ≤ 250000

/-- The selection after one step of its walk. -/
def SimulatedSelection.moved (selection : SimulatedSelection) (odds : Decimal)
    (h : ∃ coeff, odds = units coeff ∧ 10100 ≤ coeff ∧ coeff ≤ 250000) : SimulatedSelection :=
  { selection with odds, sequence := selection.sequence + 1, odds_range := h }

/-- What a selection is called. -/
def SimulatedSelection.triple (selection : SimulatedSelection) : String × String × String :=
  (selection.matchId, selection.marketId, selection.selectionId)

/-- `OddsTick(...)`; `none` is the `ValidationError`. -/
def OddsTick.validate (matchId marketId selectionId : String) (sequence timestampMs : Nat)
    (odds : Decimal) : Option OddsTick :=
  match odds.scaled 4 with
  | none => none
  | some coeff =>
      if h : (IsIdentifier matchId ∧ IsIdentifier marketId ∧ IsIdentifier selectionId) ∧
          0 < timestampMs ∧ odds.negative = false ∧ 10000 < coeff ∧ coeff ≤ 10000000 then
        some
          { matchId, marketId, selectionId, sequence, timestampMs
            decimalOdds := units coeff
            matchId_pattern := h.1.1
            marketId_pattern := h.1.2.1
            selectionId_pattern := h.1.2.2
            timestampMs_pos := h.2.1
            decimalOdds_places := ⟨rfl, rfl⟩
            decimalOdds_range := h.2.2.2 }
      else none

/-- The odds after a step of the walk, against those before it. -/
theorem SimulatedSelection.walked (selection : SimulatedSelection) {drift : Decimal} {draw : Draw}
    (h : draw.value.quantize (-4) .halfEven = some drift) :
    ∃ coeff, walk selection.odds drift = units coeff ∧ (10100 ≤ coeff ∧ coeff ≤ 250000) ∧
      coeff ≤ selection.odds.coeff + 250 ∧ selection.odds.coeff ≤ coeff + 250 := by
  obtain ⟨coeff, hodds, hlow, hhigh⟩ := selection.odds_range
  obtain ⟨d, hd, hdraw⟩ := draw.quantize
  obtain rfl := Option.some.inj (hdraw.symm.trans h)
  obtain ⟨coeff', hwalk, hlow', hhigh', hup, hdown⟩ :=
    @walk_spec coeff ⟨draw.value.negative, d, -4⟩ hlow hhigh rfl hd
  rw [hodds]
  exact ⟨coeff', hwalk, ⟨hlow', hhigh'⟩, hdown, hup⟩

/-- `next_tick`; `none` is an exception. -/
def SimulatedSelection.nextTick (selection : SimulatedSelection) (draw : Draw) (now : Nat) :
    Option (SimulatedSelection × OddsTick) :=
  match h : draw.value.quantize (-4) .halfEven with
  | none => none
  | some drift =>
      let next := selection.moved (walk selection.odds drift)
        ((selection.walked h).imp fun _ hcoeff => ⟨hcoeff.1, hcoeff.2.1⟩)
      (OddsTick.validate next.matchId next.marketId next.selectionId next.sequence now next.odds).map
        fun tick => (next, tick)

/-- Odds in range make a valid tick when the other fields do. -/
theorem OddsTick.validate_units {matchId marketId selectionId : String}
    {sequence timestampMs coeff : Nat} (hlow : 10100 ≤ coeff) (hhigh : coeff ≤ 250000) :
    ((OddsTick.validate matchId marketId selectionId sequence timestampMs (units coeff)).isSome ↔
      (IsIdentifier matchId ∧ IsIdentifier marketId ∧ IsIdentifier selectionId) ∧ 0 < timestampMs) ∧
    ∀ tick, OddsTick.validate matchId marketId selectionId sequence timestampMs (units coeff) =
        some tick →
      tick.triple = (matchId, marketId, selectionId) ∧ tick.sequence = sequence ∧
        tick.timestampMs = timestampMs ∧ tick.decimalOdds = units coeff := by
  have hscaled : (units coeff).scaled 4 = some coeff := by simp [Decimal.scaled]
  have hrange : 10000 < coeff ∧ coeff ≤ 10000000 := by omega
  simp only [OddsTick.validate, hscaled, hrange, and_self, and_true]
  constructor
  · split <;> simp_all
  · intro tick h
    split at h
    · obtain rfl := Option.some.inj h
      exact ⟨rfl, rfl, rfl, rfl⟩
    · contradiction

/-- What a tick has of its selection: the next number, and odds that have moved by at most
0.0250. -/
structure SimulatedSelection.Ticked (selection next : SimulatedSelection) (tick : OddsTick) :
    Prop where
  ids : next.triple = selection.triple
  triple : tick.triple = selection.triple
  sequence : next.sequence = selection.sequence + 1
  published : tick.sequence = next.sequence
  odds : tick.decimalOdds = next.odds
  drift : next.odds.coeff ≤ selection.odds.coeff + 250 ∧ selection.odds.coeff ≤ next.odds.coeff + 250

/-- The tick of the selection after its step. -/
theorem nextTick_eq (selection : SimulatedSelection) (draw : Draw) (now : Nat) :
    ∃ odds coeff h, odds = units coeff ∧ (10100 ≤ coeff ∧ coeff ≤ 250000) ∧
      (coeff ≤ selection.odds.coeff + 250 ∧ selection.odds.coeff ≤ coeff + 250) ∧
      selection.nextTick draw now =
        (OddsTick.validate selection.matchId selection.marketId selection.selectionId
          (selection.sequence + 1) now odds).map fun tick => (selection.moved odds h, tick) := by
  obtain ⟨d, -, hdraw⟩ := draw.quantize
  obtain ⟨coeff, hwalk, hrange, hdrift⟩ := selection.walked hdraw
  refine ⟨_, coeff, ⟨coeff, hwalk, hrange⟩, hwalk, hrange, hdrift, ?_⟩
  unfold SimulatedSelection.nextTick
  split
  · rename_i hnone
    rw [hdraw] at hnone
    contradiction
  · rename_i drift hdrift'
    obtain rfl := Option.some.inj (hdraw.symm.trans hdrift')
    rfl

/-- A tick moves its selection on. -/
theorem nextTick_cases {selection next : SimulatedSelection} {draw : Draw} {now : Nat}
    {tick : OddsTick} (h : selection.nextTick draw now = some (next, tick)) :
    selection.Ticked next tick := by
  obtain ⟨odds, coeff, hodds, rfl, hrange, hdrift, heq⟩ := nextTick_eq selection draw now
  rw [heq] at h
  obtain ⟨tick', htick, hpair⟩ := Option.map_eq_some_iff.mp h
  obtain ⟨rfl, rfl⟩ := Prod.mk.inj hpair
  obtain ⟨htriple, hsequence, -, hvalue⟩ := (OddsTick.validate_units hrange.1 hrange.2).2 tick' htick
  exact ⟨rfl, htriple, rfl, hsequence, hvalue, hdrift⟩

/-- A tick validates when its ids do and the clock is past the epoch. -/
theorem nextTick_isSome_iff (selection : SimulatedSelection) (draw : Draw) (now : Nat) :
    (selection.nextTick draw now).isSome ↔
      (IsIdentifier selection.matchId ∧ IsIdentifier selection.marketId ∧
        IsIdentifier selection.selectionId) ∧ 0 < now := by
  obtain ⟨odds, coeff, hodds, rfl, hrange, -, heq⟩ := nextTick_eq selection draw now
  rw [heq, Option.isSome_map, (OddsTick.validate_units hrange.1 hrange.2).1]

/-! ## The market -/

/-- A selection of `build_market`. -/
def SimulatedSelection.start (matchId selectionId : String) (coeff : Nat)
    (h : 10100 ≤ coeff ∧ coeff ≤ 250000) : SimulatedSelection where
  matchId := matchId
  marketId := "full-time-result"
  selectionId := selectionId
  odds := units coeff
  sequence := 0
  odds_range := ⟨coeff, rfl, h⟩

/-- `build_market`. -/
def simulatedMarket (matchCount : Nat) : List SimulatedSelection :=
  (List.range' 1 matchCount).flatMap fun idx =>
    [.start (simulatedMatchId idx) "home" 21000 (by decide),
      .start (simulatedMatchId idx) "draw" 34000 (by decide),
      .start (simulatedMatchId idx) "away" 29000 (by decide)]

/-- The simulated selections are those of the market. -/
theorem simulatedMarket_triples (matchCount : Nat) :
    (simulatedMarket matchCount).map SimulatedSelection.triple = buildMarket matchCount := by
  rw [simulatedMarket, buildMarket, List.map_flatMap]
  rfl

/-- No selection has ticked at the start. -/
theorem simulatedMarket_sequence {matchCount : Nat} {selection : SimulatedSelection}
    (h : selection ∈ simulatedMarket matchCount) : selection.sequence = 0 := by
  obtain ⟨idx, -, h⟩ := List.mem_flatMap.mp h
  simp only [List.mem_cons, List.not_mem_nil, or_false] at h
  rcases h with rfl | rfl | rfl <;> rfl

/-- The matches have different ids. -/
theorem simulatedMatchId_injective {idx idx' : Nat}
    (h : simulatedMatchId idx = simulatedMatchId idx') : idx = idx' := by
  have hchars := congrArg String.toList h
  simp only [simulatedMatchId, String.toList_append, String.toList_ofList] at hchars
  have hvalue := congrArg (fun cs => Nat.ofDigitChars 10 cs 0) (List.append_cancel_left hchars)
  simpa [Nat.ofDigitChars_append, Nat.ofDigitChars_toDigits] using hvalue

/-- The selections of the market are different ones. -/
theorem buildMarket_nodup (matchCount : Nat) : (buildMarket matchCount).Nodup := by
  rw [buildMarket, List.nodup_flatMap]
  refine ⟨fun idx _ => ?_, ?_⟩
  · refine List.Nodup.map (fun a b h => ?_) (by decide)
    simpa using h
  · refine List.Pairwise.imp (fun {idx idx'} hne => ?_) (List.nodup_range' (s := 1) (n := matchCount))
    intro ids h h'
    obtain ⟨selection, -, rfl⟩ := List.mem_map.mp h
    obtain ⟨selection', -, heq⟩ := List.mem_map.mp h'
    exact hne (simulatedMatchId_injective (congrArg Prod.fst heq).symm)

/-! ## The payload -/

/-- The members of a tick in the order of the model's fields. -/
def OddsTick.members (tick : OddsTick) : List (String × Scalar) :=
  [("match_id", .str tick.matchId), ("market_id", .str tick.marketId),
    ("selection_id", .str tick.selectionId), ("sequence", .int tick.sequence),
    ("timestamp_ms", .int tick.timestampMs), ("decimal_odds", .str tick.decimalOdds.str)]

/-- `encode_tick`. -/
def encodeTick (tick : OddsTick) : Bytes :=
  utf8 (String.ofList (objectText Ingress.unicodeEscape tick.members))

/-- The payload of a tick has one reading. -/
theorem encodeTick_faithful (tick : OddsTick) {members : List (Bytes × Value)} :
    IsObject StringToken (encodeTick tick) members ↔
      members = tick.members.map fun m => (utf8 m.1, Wire.value m.2) := by
  have hnames : ∀ name ∈ tick.members.map Prod.fst, PlainName name := by
    show ∀ name ∈ ["match_id", "market_id", "selection_id", "sequence", "timestamp_ms",
      "decimal_odds"], PlainName name
    decide
  rw [encodeTick, utf8_ofList]
  exact Wire.objectText_faithful fun m hm => hnames m.1 (List.mem_map_of_mem hm)

end Odds
end BettingPlatform
