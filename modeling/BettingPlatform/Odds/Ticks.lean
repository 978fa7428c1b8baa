import BettingPlatform.Foundations.Bytes
import BettingPlatform.Foundations.Decimal
import BettingPlatform.Foundations.JoinedText

/-!
# Odds ticks

The schema of a tick on the odds topic and the key under which the simulator publishes it:
match, market and selection, joined by colons.  The pattern of the three ids allows colons.

Main results:

- Theorem `joinIds_eq_iff`: without colons in match and market the key determines the
  selection.
- Theorem `buildMarket_joinIds`: so it does for the selections of the simulator.
-/

namespace BettingPlatform
namespace Odds

/-! ## The schema -/

/-- `[A-Za-z0-9_.:-]`. -/
def isIdentifierChar (c : Char) : Bool :=
  c.isAlphanum || ['_', '.', ':', '-'].contains c

/-- `Field(min_length=1, max_length=128, pattern=r"^[A-Za-z0-9_.:-]+$")`. -/
def IsIdentifier (s : String) : Prop :=
  1 ≤ s.length ∧ s.length ≤ 128 ∧ s.toList.all isIdentifierChar

instance (s : String) : Decidable (IsIdentifier s) := inferInstanceAs (Decidable (_ ∧ _ ∧ _))

/-- `OddsTick`: the odds are above 1 and at most 1000, with four decimal places. -/
structure OddsTick where
  matchId : String
  marketId : String
  selectionId : String
  sequence : Nat
  timestampMs : Nat
  decimalOdds : Decimal
  matchId_pattern : IsIdentifier matchId
  marketId_pattern : IsIdentifier marketId
  selectionId_pattern : IsIdentifier selectionId
  timestampMs_pos : 0 < timestampMs
  decimalOdds_places : decimalOdds.negative = false ∧ decimalOdds.exp = -4
  decimalOdds_range : 10000 < decimalOdds.coeff ∧ decimalOdds.coeff ≤ 10000000

/-- What a tick is about. -/
def OddsTick.triple (tick : OddsTick) : String × String × String :=
  (tick.matchId, tick.marketId, tick.selectionId)

/-- The three ids joined by colons. -/
def joinIds (matchId marketId selectionId : String) : String :=
  matchId ++ ":" ++ marketId ++ ":" ++ selectionId

/-- The Kafka key of a tick in `run`. -/
def OddsTick.kafkaKey (tick : OddsTick) : Bytes :=
  utf8 (joinIds tick.matchId tick.marketId tick.selectionId)

/-- Joined ids are separated by colons. -/
theorem toList_joinIds (matchId marketId selectionId : String) :
    (joinIds matchId marketId selectionId).toList =
      matchId.toList ++ ':' :: (marketId.toList ++ ':' :: selectionId.toList) := by
  simp [joinIds, String.toList_append]

/-- Without colons in match and market the joined text determines the three ids. -/
theorem joinIds_eq_iff {matchId matchId' marketId marketId' selectionId selectionId' : String}
    (hmatch : ':' ∉ matchId.toList) (hmatch' : ':' ∉ matchId'.toList)
    (hmarket : ':' ∉ marketId.toList) (hmarket' : ':' ∉ marketId'.toList) :
    joinIds matchId marketId selectionId = joinIds matchId' marketId' selectionId' ↔
      (matchId, marketId, selectionId) = (matchId', marketId', selectionId') := by
  rw [← String.toList_inj, toList_joinIds, toList_joinIds, append_sep_inj_of_front hmatch hmatch',
    append_sep_inj_of_front hmarket hmarket', String.toList_inj, String.toList_inj,
    String.toList_inj, Prod.mk.injEq, Prod.mk.injEq]

/-! ## The simulator -/

/-- `f"match-{idx:04d}"`. -/
def simulatedMatchId (idx : Nat) : String :=
  let digits := Nat.toDigits 10 idx
  "match-" ++ String.ofList (List.replicate (4 - digits.length) '0' ++ digits)

/-- The ids of the selections of `build_market`. -/
def buildMarket (matchCount : Nat) : List (String × String × String) :=
  (List.range' 1 matchCount).flatMap fun idx =>
    ["home", "draw", "away"].map fun selection =>
      (simulatedMatchId idx, "full-time-result", selection)

/-- A simulated match id holds no colon. -/
theorem colon_notMem_simulatedMatchId (idx : Nat) : ':' ∉ (simulatedMatchId idx).toList := by
  intro h
  simp only [simulatedMatchId, String.toList_append, String.toList_ofList, List.mem_append,
    List.mem_replicate] at h
  rcases h with h | h | h
  · exact absurd h (by decide)
  · exact absurd h.2 (by decide)
  · exact absurd (Nat.isDigit_of_mem_toDigits (by decide) (by decide) h) (by decide)

/-- So of a simulated triple the first two ids hold none. -/
theorem buildMarket_colon {matchCount : Nat} {ids : String × String × String}
    (h : ids ∈ buildMarket matchCount) : ':' ∉ ids.1.toList ∧ ':' ∉ ids.2.1.toList := by
  obtain ⟨idx, -, h⟩ := List.mem_flatMap.mp h
  obtain ⟨selection, -, rfl⟩ := List.mem_map.mp h
  exact ⟨colon_notMem_simulatedMatchId idx, (by decide : ':' ∉ "full-time-result".toList)⟩

/-- The keys of the simulator's selections differ. -/
theorem buildMarket_joinIds {matchCount : Nat} {ids ids' : String × String × String}
    (h : ids ∈ buildMarket matchCount) (h' : ids' ∈ buildMarket matchCount)
    (hkey : joinIds ids.1 ids.2.1 ids.2.2 = joinIds ids'.1 ids'.2.1 ids'.2.2) : ids = ids' := by
  obtain ⟨hmatch, hmarket⟩ := buildMarket_colon h
  obtain ⟨hmatch', hmarket'⟩ := buildMarket_colon h'
  exact (joinIds_eq_iff hmatch hmatch' hmarket hmarket').mp hkey

end Odds
end BettingPlatform
