import BettingPlatform.Foundations.JavaScript
import BettingPlatform.Foundations.KeyedFold
import BettingPlatform.Odds.Ticks

/-!
# The odds shown to the user

`OddsWebSocketService.applyTick` keeps one view for each key, and the key joins the three ids
of a tick.  The state is a record with the keys as members; the order of the members plays no
part, because `markets` sorts their values.  A key holds a colon, so it names no member that a
record inherits.

Sequence and timestamp are copied from the parsed tick and nothing is computed with them.

Main results:

- Theorem `lookup_marketsAfter`: what is shown under a key comes from the ticks with that key.
- Theorem `oneEntryPerSelection_iff`: the selections that occur have one entry each exactly
  when no two of them have the same key.
-/

namespace BettingPlatform
namespace Frontend

open Odds JavaScript KeyedFold

/-- `PriceDirection`. -/
inductive PriceDirection
  | up
  | down
  | flat
deriving DecidableEq, Repr

/-- `MarketSelectionView`. -/
structure MarketSelectionView where
  key : String
  matchId : String
  marketId : String
  selectionId : String
  sequence : Nat
  timestampMs : Nat
  odds : Number
  previousOdds : Option Number
  direction : PriceDirection
  updatedAt : Nat
deriving DecidableEq, Repr

/-- The selection that is viewed. -/
def MarketSelectionView.triple (view : MarketSelectionView) : String × String × String :=
  (view.matchId, view.marketId, view.selectionId)

/-- `Record<string, MarketSelectionView>`. -/
abbrev Markets := AList fun _ : String => MarketSelectionView

/-- A member of the record. -/
abbrev MarketEntry := Sigma fun _ : String => MarketSelectionView

/-- `Number(tick.decimal_odds)`. -/
def number (d : Decimal) : Number :=
  Python.PyFloat.ofRatio d.negative (d.coeff * 10 ^ d.exp.toNat) (10 ^ (-d.exp).toNat)

/-- A tick, and what `Date.now()` returns when it is applied. -/
structure Arrival where
  tick : OddsTick
  now : Nat

/-- The key of `applyTick`. -/
def Arrival.key (arrival : Arrival) : String :=
  joinIds arrival.tick.matchId arrival.tick.marketId arrival.tick.selectionId

/-- The direction of a price against the view it replaces. -/
def directionFrom (previous : Option MarketSelectionView) (odds : Number) : PriceDirection :=
  match previous with
  | none => .flat
  | some view =>
      if view.odds.lt odds then .up else if odds.lt view.odds then .down else .flat

/-- The view that a tick makes of the one it replaces. -/
def viewOf (previous : Option MarketSelectionView) (arrival : Arrival) : MarketSelectionView where
  key := arrival.key
  matchId := arrival.tick.matchId
  marketId := arrival.tick.marketId
  selectionId := arrival.tick.selectionId
  sequence := arrival.tick.sequence
  timestampMs := arrival.tick.timestampMs
  odds := number arrival.tick.decimalOdds
  previousOdds := previous.map MarketSelectionView.odds
  direction := directionFrom previous (number arrival.tick.decimalOdds)
  updatedAt := arrival.now

/-- `applyTick`. -/
def applyTick (current : Markets) (arrival : Arrival) : Markets :=
  let key := arrival.key
  let previous := current.lookup key
  current.insert key (viewOf previous arrival)

/-- The state after a sequence of ticks. -/
def marketsAfter (arrivals : List Arrival) : Markets :=
  arrivals.foldl applyTick ∅

/-! ## What is shown under a key -/

/-- The entries are folded up from the arrivals. -/
theorem marketsAfter_eq (arrivals : List Arrival) :
    marketsAfter arrivals = arrivals.foldl (upsert Arrival.key viewOf) ∅ :=
  rfl

/-- A view is that of the last tick with its key, and its previous odds are those of the tick
with this key before it. -/
theorem lookup_marketsAfter {arrivals : List Arrival} {key : String} {view : MarketSelectionView}
    (h : (marketsAfter arrivals).lookup key = some view) :
    ∃ earlier last previous, (arrivals.filter fun arrival => arrival.key = key) =
        earlier ++ [last] ∧
      view = viewOf previous last ∧
      previous.map MarketSelectionView.odds =
        earlier.getLast?.map fun arrival => number arrival.tick.decimalOdds := by
  rw [marketsAfter_eq, lookup_foldl_upsert_eq_some_iff] at h
  obtain ⟨earlier, last, hlast, rfl⟩ := h
  have hodds : ∀ old (arrival : Arrival),
      (viewOf old arrival).odds = number arrival.tick.decimalOdds := fun _ _ => rfl
  exact ⟨earlier, last, _, hlast, rfl, map_foldl_some hodds earlier⟩

/-- A view is about the tick it was made from. -/
theorem viewOf_triple (previous : Option MarketSelectionView) (arrival : Arrival) :
    (viewOf previous arrival).triple = arrival.tick.triple :=
  rfl

/-- An entry shows a selection that occurs, under the key of that selection. -/
theorem mem_marketsAfter {arrivals : List Arrival} {entry : MarketEntry}
    (h : entry ∈ (marketsAfter arrivals).entries) :
    entry.1 = joinIds entry.2.triple.1 entry.2.triple.2.1 entry.2.triple.2.2 ∧
      ∃ last ∈ arrivals, last.key = entry.1 ∧ entry.2.triple = last.tick.triple := by
  obtain ⟨earlier, last, previous, hlast, hview, -⟩ :=
    lookup_marketsAfter (AList.mem_lookup_iff.mpr h)
  have hmem : last ∈ arrivals.filter fun arrival => arrival.key = entry.1 := by simp [hlast]
  obtain ⟨harrived, hkey⟩ := List.mem_filter.mp hmem
  have htriple : entry.2.triple = last.tick.triple := by rw [hview, viewOf_triple]
  have hkey' : last.key = entry.1 := of_decide_eq_true hkey
  refine ⟨?_, last, harrived, hkey', htriple⟩
  rw [htriple, ← hkey']
  rfl

/-- Every tick has an entry under its key. -/
theorem exists_entry {arrivals : List Arrival} {arrival : Arrival} (h : arrival ∈ arrivals) :
    ∃ entry ∈ (marketsAfter arrivals).entries, entry.1 = arrival.key := by
  have hmem : arrival.key ∈ marketsAfter arrivals :=
    (mem_foldl_upsert arrivals).mpr (List.mem_map_of_mem h)
  obtain ⟨view, hview⟩ := Option.isSome_iff_exists.mp (AList.lookup_isSome.mpr hmem)
  exact ⟨⟨_, view⟩, AList.mem_lookup_iff.mp hview, rfl⟩

/-- Entries under one key are one entry. -/
theorem entry_eq_of_key {markets : Markets} {entry entry' : MarketEntry}
    (h : entry ∈ markets.entries) (h' : entry' ∈ markets.entries) (hkey : entry.1 = entry'.1) :
    entry = entry' :=
  List.inj_on_of_nodup_map markets.keys_nodup h h' hkey

/-! ## One entry per selection -/

/-- The entry of a selection shows its last tick, and the odds of the tick before that. -/
def ShowsLast (arrivals : List Arrival) (view : MarketSelectionView) : Prop :=
  ∃ earlier last, (arrivals.filter fun arrival => arrival.tick.triple = view.triple) =
      earlier ++ [last] ∧
    view.sequence = last.tick.sequence ∧ view.timestampMs = last.tick.timestampMs ∧
    view.odds = number last.tick.decimalOdds ∧
    view.previousOdds = earlier.getLast?.map fun arrival => number arrival.tick.decimalOdds

/-- The record has exactly one entry for each selection that occurs, and it shows the
selection's last tick. -/
structure OneEntryPerSelection (arrivals : List Arrival) (markets : Markets) : Prop where
  distinct : (markets.entries.map fun entry => entry.2.triple).Nodup
  occurring : ∀ triple, triple ∈ markets.entries.map (fun entry => entry.2.triple) ↔
    triple ∈ arrivals.map fun arrival => arrival.tick.triple
  showsLast : ∀ entry ∈ markets.entries, ShowsLast arrivals entry.2

/-- Ticks with one key are about one selection. -/
def KeysDistinguish (arrivals : List Arrival) : Prop :=
  ∀ a ∈ arrivals, ∀ b ∈ arrivals, a.key = b.key → a.tick.triple = b.tick.triple

/-- Entries of different keys are about different selections. -/
theorem marketsAfter_distinct (arrivals : List Arrival) :
    ((marketsAfter arrivals).entries.map fun entry => entry.2.triple).Nodup := by
  have hentries := List.Nodup.of_map _ (marketsAfter arrivals).keys_nodup
  refine hentries.map_on fun entry h entry' h' htriple => entry_eq_of_key h h' ?_
  rw [(mem_marketsAfter h).1, (mem_marketsAfter h').1, htriple]

/-- With different keys an entry shows the last tick of its selection. -/
theorem showsLast_of_keysDistinguish {arrivals : List Arrival} (hkeys : KeysDistinguish arrivals)
    {entry : MarketEntry}
    (h : entry ∈ (marketsAfter arrivals).entries) : ShowsLast arrivals entry.2 := by
  obtain ⟨earlier, last, previous, hlast, hview, hprevious⟩ :=
    lookup_marketsAfter (AList.mem_lookup_iff.mpr h)
  obtain ⟨hkey, shown, hshown, hshownKey, htriple⟩ := mem_marketsAfter h
  refine ⟨earlier, last, ?_, ?_⟩
  · rw [← hlast]
    refine List.filter_congr fun arrival harrival =>
      decide_eq_decide.mpr ⟨fun hsame => ?_, fun hsame => ?_⟩
    · rw [hkey, ← hsame]
      rfl
    · rw [htriple]
      exact hkeys arrival harrival shown hshown (hsame.trans hshownKey.symm)
  · rw [hview]
    exact ⟨rfl, rfl, rfl, hprevious⟩

/-- Two selections with one key leave one entry for both. -/
theorem keysDistinguish_of_oneEntry {arrivals : List Arrival}
    (h : OneEntryPerSelection arrivals (marketsAfter arrivals)) : KeysDistinguish arrivals := by
  intro a ha b hb hkey
  obtain ⟨entry, hentry, htriple⟩ :=
    List.mem_map.mp ((h.occurring a.tick.triple).mpr (List.mem_map_of_mem ha))
  obtain ⟨entry', hentry', htriple'⟩ :=
    List.mem_map.mp ((h.occurring b.tick.triple).mpr (List.mem_map_of_mem hb))
  have hsame : entry.1 = entry'.1 := by
    rw [(mem_marketsAfter hentry).1, (mem_marketsAfter hentry').1, htriple, htriple']
    exact hkey
  rw [← htriple, ← htriple', entry_eq_of_key hentry hentry' hsame]

/-- And each selection has one. -/
theorem oneEntry_of_keysDistinguish {arrivals : List Arrival} (hkeys : KeysDistinguish arrivals) :
    OneEntryPerSelection arrivals (marketsAfter arrivals) where
  distinct := marketsAfter_distinct arrivals
  occurring := by
    intro triple
    simp only [List.mem_map]
    constructor
    · rintro ⟨entry, hentry, rfl⟩
      obtain ⟨-, last, hlast, -, htriple⟩ := mem_marketsAfter hentry
      exact ⟨last, hlast, htriple.symm⟩
    · rintro ⟨arrival, harrival, rfl⟩
      obtain ⟨entry, hentry, hkey⟩ := exists_entry harrival
      obtain ⟨-, last, hlast, hlastKey, htriple⟩ := mem_marketsAfter hentry
      exact ⟨entry, hentry, htriple.trans
        (hkeys last hlast arrival harrival (hlastKey.trans hkey))⟩
  showsLast := fun _ => showsLast_of_keysDistinguish hkeys

/-- For every sequence of ticks: the selections that occur have exactly one entry each, with
what their own last ticks say, if and only if no two of them have the same key. -/
theorem oneEntryPerSelection_iff (arrivals : List Arrival) :
    OneEntryPerSelection arrivals (marketsAfter arrivals) ↔ KeysDistinguish arrivals :=
  ⟨keysDistinguish_of_oneEntry, oneEntry_of_keysDistinguish⟩

/-- Whatever the simulator sends, each of its selections has one entry. -/
theorem oneEntry_of_simulated {matchCount : Nat} {arrivals : List Arrival}
    (h : ∀ arrival ∈ arrivals, arrival.tick.triple ∈ buildMarket matchCount) :
    OneEntryPerSelection arrivals (marketsAfter arrivals) := by
  refine oneEntry_of_keysDistinguish fun a ha b hb hkey => ?_
  exact buildMarket_joinIds (h a ha) (h b hb) hkey

/-- A tick at odds of 2.1. -/
def sampleTick (matchId marketId selectionId : String)
    (hids : IsIdentifier matchId ∧ IsIdentifier marketId ∧ IsIdentifier selectionId) :
    OddsTick where
  matchId := matchId
  marketId := marketId
  selectionId := selectionId
  sequence := 1
  timestampMs := 1787659200000
  decimalOdds := ⟨false, 21000, -4⟩
  matchId_pattern := hids.1
  marketId_pattern := hids.2.1
  selectionId_pattern := hids.2.2
  timestampMs_pos := by decide
  decimalOdds_places := by decide
  decimalOdds_range := by decide

/-- Two selections of different matches with the key `a:b:c:d`. -/
def collidingTicks : OddsTick × OddsTick :=
  (sampleTick "a:b" "c" "d" (by decide), sampleTick "a" "b:c" "d" (by decide))

/-- Their ticks, one after the other. -/
def collidingArrivals : List Arrival :=
  [⟨collidingTicks.1, 0⟩, ⟨collidingTicks.2, 1⟩]

theorem collidingTicks_key :
    (Arrival.mk collidingTicks.1 0).key = (Arrival.mk collidingTicks.2 1).key := by
  have hkey : joinIds "a:b" "c" "d" = joinIds "a" "b:c" "d" := by
    rw [← String.toList_inj, toList_joinIds, toList_joinIds]
    decide
  exact hkey

theorem collidingTicks_triple : collidingTicks.1.triple ≠ collidingTicks.2.triple := by
  intro h
  have hmatch : "a:b" = "a" := congrArg Prod.fst h
  exact absurd hmatch (by decide)

/-- The two selections do not have an entry each. -/
theorem colliding_selections :
    ¬ OneEntryPerSelection collidingArrivals (marketsAfter collidingArrivals) := by
  intro h
  have hsame := keysDistinguish_of_oneEntry h ⟨collidingTicks.1, 0⟩ (by simp [collidingArrivals])
    ⟨collidingTicks.2, 1⟩ (by simp [collidingArrivals]) collidingTicks_key
  exact collidingTicks_triple hsame

end Frontend
end BettingPlatform
