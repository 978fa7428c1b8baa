import BettingPlatform.Foundations.FloatOrder
import BettingPlatform.Frontend.OddsMarkets
import BettingPlatform.Odds.Feed

/-!
# The feed in the browser

`OddsWebSocketService` opens a connection, parses each payload and applies its tick; when a
connection ends it opens another one, and what is shown stays.

Main results:

- Theorem `reads_encodeTick_iff`: a payload is parsed as the tick it encodes.
- Theorem `directionFrom_eq`: the direction compares the published prices.
- Theorem `feed_shown`: what a page shows after any run of the feed.
-/

namespace BettingPlatform
namespace Frontend

open Odds Runs Python JsonGrammar

/-! ## Payloads -/

/-- `JSON.parse` of the payload gives the members of the tick. -/
def Reads (payload : Bytes) (tick : OddsTick) : Prop :=
  IsObject StringToken payload (tick.members.map fun m => (utf8 m.1, Wire.value m.2))

/-- The odds of a tick are in its text. -/
theorem decimalOdds_eq {a b : OddsTick} (h : a.decimalOdds.str = b.decimalOdds.str) :
    a.decimalOdds = b.decimalOdds := by
  have hread : ∀ tick : OddsTick,
      Decimal.ofString tick.decimalOdds.str = some tick.decimalOdds := by
    intro tick
    obtain ⟨hnegative, hexp⟩ := tick.decimalOdds_places
    have hrange := tick.decimalOdds_range
    have hdigits : 4 < Decimal.numDigits tick.decimalOdds.coeff := by
      rw [← not_le, Decimal.numDigits_le_iff (by decide)]
      omega
    generalize tick.decimalOdds = odds at hnegative hexp hdigits
    obtain ⟨negative, coeff, exp⟩ := odds
    obtain rfl : negative = false := hnegative
    obtain rfl : exp = -4 := hexp
    exact Decimal.ofString_str (by decide) hdigits
  exact Option.some.inj ((hread a).symm.trans (h ▸ hread b))

/-- A payload is parsed as the tick it encodes, and as no other. -/
theorem reads_encodeTick_iff {a b : OddsTick} : Reads (encodeTick a) b ↔ b = a := by
  rw [Reads, encodeTick_faithful]
  constructor
  · intro h
    simp only [OddsTick.members, List.map_cons, List.map_nil, List.cons.injEq, Prod.mk.injEq,
      Wire.value, Value.str.injEq, Value.int.injEq, true_and, and_true, Nat.cast_inj] at h
    obtain ⟨hmatch, hmarket, hselection, hsequence, htimestamp, hodds⟩ := h
    have hmatch' := utf8_injective hmatch
    have hmarket' := utf8_injective hmarket
    have hselection' := utf8_injective hselection
    have hodds' := decimalOdds_eq (utf8_injective hodds)
    cases a
    cases b
    simp_all
  · rintro rfl
    rfl

/-! ## Prices -/

/-- The numbers of two prices up to 25.0000 compare as the prices do. -/
theorem number_lt_iff {m n : Nat} (hm : m ≤ 250000) (hn : n ≤ 250000) :
    (number (units m)).lt (number (units n)) = true ↔ m < n := by
  have h := @PyFloat.ofRatio_lt_iff m n 10000 5 (by decide) (by omega) (by omega) (by decide)
  simpa [number] using h

/-- A tick at odds between 1.0100 and 25.0000, as the simulator publishes it. -/
def InRange (tick : OddsTick) : Prop :=
  ∃ coeff, tick.decimalOdds = units coeff ∧ 10100 ≤ coeff ∧ coeff ≤ 250000

/-- The numbers of odds in range are in the order of the odds. -/
theorem number_lt_number_iff {a b : OddsTick} (ha : InRange a) (hb : InRange b) :
    (number a.decimalOdds).lt (number b.decimalOdds) = true ↔
      a.decimalOdds.coeff < b.decimalOdds.coeff := by
  obtain ⟨m, hm, -, hmle⟩ := ha
  obtain ⟨n, hn, -, hnle⟩ := hb
  rw [hm, hn]
  exact number_lt_iff hmle hnle

/-- The direction that a price has against the one before it. -/
def directionOf (previous : Option OddsTick) (last : OddsTick) : PriceDirection :=
  match previous with
  | none => .flat
  | some tick =>
      if tick.decimalOdds.coeff < last.decimalOdds.coeff then .up
      else if last.decimalOdds.coeff < tick.decimalOdds.coeff then .down
      else .flat

/-- The direction compares the prices as they were published. -/
theorem directionFrom_eq {previous : Option MarketSelectionView} {before : Option OddsTick}
    {last : OddsTick}
    (hodds : previous.map MarketSelectionView.odds =
      before.map fun tick => number tick.decimalOdds)
    (hbefore : ∀ tick ∈ before, InRange tick) (hlast : InRange last) :
    directionFrom previous (number last.decimalOdds) = directionOf before last := by
  cases before with
  | none =>
    obtain rfl := Option.map_eq_none_iff.mp hodds
    rfl
  | some tick =>
    obtain ⟨view, rfl, hview⟩ := Option.map_eq_some_iff.mp hodds
    have htick := hbefore tick rfl
    have hup := number_lt_number_iff htick hlast
    have hdown := number_lt_number_iff hlast htick
    simp only [directionFrom, directionOf, hview, hup, hdown]

/-! ## The page -/

variable {κ δ P : Type} [DecidableEq κ] [DecidableEq δ] [DecidableEq P]

/-- What arrives on the connections of a page: of each, one after the other, some of the first
payloads that the client is sent. -/
def payloads (s : Feed κ δ P) (connections : List (κ × Nat)) : List Relayed :=
  connections.flatMap fun c => (s.fanout.conn c.1).sent.take c.2

/-- The ticks that a page has parsed from its payloads. -/
def Parsed (relayed : List Relayed) (arrivals : List Arrival) : Prop :=
  List.Forall₂ (fun r arrival => Reads (encodeTick r.message.tick) arrival.tick) relayed arrivals

omit [DecidableEq κ] [DecidableEq δ] [DecidableEq P] in
/-- The ticks of a page are those of its payloads. -/
theorem Parsed.ticks {relayed : List Relayed} {arrivals : List Arrival}
    (h : Parsed relayed arrivals) :
    arrivals.map Arrival.tick = relayed.map fun r => r.message.tick := by
  induction h with
  | nil => rfl
  | cons hread _ ih => rw [List.map_cons, List.map_cons, ih, reads_encodeTick_iff.mp hread]

/-- What a page shows of a selection whose ticks have arrived: the last of them, and how its
price compares with the one before. -/
structure ShowsPrice (ticks : List OddsTick) (view : MarketSelectionView) : Prop where
  last : ∃ earlier last, ticks.filter (fun tick => tick.triple = view.triple) = earlier ++ [last] ∧
    view.sequence = last.sequence ∧ view.timestampMs = last.timestampMs ∧
    view.odds = number last.decimalOdds ∧ InRange last ∧
    view.direction = directionOf earlier.getLast? last

section Page

variable {partitionOf : Bytes → P} {matchCount : Nat} {clientOf : δ → κ} {s : Feed κ δ P}
  {connections : List (κ × Nat)} {arrivals : List Arrival}

/-- The ticks of a page come from the simulator. -/
theorem kept_of_arrival
    (hrun : Reachable (feedStep partitionOf matchCount clientOf) (.start matchCount) s)
    (hparsed : Parsed (payloads s connections) arrivals) {arrival : Arrival}
    (harrival : arrival ∈ arrivals) :
    arrival.tick.triple ∈ buildMarket matchCount ∧ InRange arrival.tick := by
  obtain ⟨htopic, hreading⟩ := feed_of_reachable hrun
  have hmem : arrival.tick ∈ arrivals.map Arrival.tick := List.mem_map_of_mem harrival
  rw [hparsed.ticks] at hmem
  obtain ⟨r, hr, htick⟩ := List.mem_map.mp hmem
  obtain ⟨c, -, hr⟩ := List.mem_flatMap.mp hr
  obtain ⟨p, hkept⟩ := kept_of_sent htopic hreading (List.mem_of_mem_take hr)
  rw [← htick]
  exact ⟨hkept.market, hkept.odds⟩

/-- The view of an entry has the direction of its odds against its previous odds. -/
theorem direction_of_entry {entry : MarketEntry}
    (hentry : entry ∈ (marketsAfter arrivals).entries) :
    ∃ previous : Option MarketSelectionView,
      previous.map MarketSelectionView.odds = entry.2.previousOdds ∧
        entry.2.direction = directionFrom previous entry.2.odds := by
  obtain ⟨earlier, last, previous, -, hview, -⟩ :=
    lookup_marketsAfter (AList.mem_lookup_iff.mpr hentry)
  exact ⟨previous, by rw [hview]; rfl, by rw [hview]; rfl⟩

/-- An entry whose ticks are in range shows the price of the last of them. -/
theorem showsPrice_of_showsLast {entry : MarketEntry}
    (hentry : entry ∈ (marketsAfter arrivals).entries) (hshows : ShowsLast arrivals entry.2)
    (hrange : ∀ arrival ∈ arrivals, InRange arrival.tick) :
    ShowsPrice (arrivals.map Arrival.tick) entry.2 := by
  obtain ⟨earlier, last, hlast, hsequence, htimestamp, hodds, hprevious⟩ := hshows
  obtain ⟨previous, hprevious', hdirection⟩ := direction_of_entry hentry
  have hmem : ∀ arrival ∈ earlier ++ [last], InRange arrival.tick := by
    rw [← hlast]
    exact fun arrival h => hrange arrival (List.mem_of_mem_filter h)
  refine ⟨earlier.map Arrival.tick, last.tick, ?_, hsequence, htimestamp, hodds,
    hmem last (by simp), ?_⟩
  · rw [List.filter_map]
    exact (congrArg (List.map Arrival.tick) hlast).trans (by simp)
  · rw [hdirection, hodds]
    refine directionFrom_eq ?_ (fun tick htick => ?_) (hmem last (by simp))
    · rw [hprevious', hprevious, List.getLast?_map, Option.map_map]
      rfl
    · rw [List.getLast?_map] at htick
      obtain ⟨arrival, harrival, rfl⟩ := Option.map_eq_some_iff.mp htick
      exact hmem arrival (List.mem_append_left _ (List.mem_of_getLast? harrival))

/-- However the feed runs, and however often a page connects again: the page has one entry for
each selection that it was sent a tick of, and the entry shows the last of these ticks, at
odds between 1.0100 and 25.0000, with the direction in which the published price moved from
the tick before. -/
theorem feed_shown
    (hrun : Reachable (feedStep partitionOf matchCount clientOf) (.start matchCount) s)
    (hparsed : Parsed (payloads s connections) arrivals) :
    OneEntryPerSelection arrivals (marketsAfter arrivals) ∧
      ∀ entry ∈ (marketsAfter arrivals).entries,
        ShowsPrice ((payloads s connections).map fun r => r.message.tick) entry.2 := by
  have hkept := fun arrival harrival =>
    @kept_of_arrival _ _ _ _ _ _ _ _ _ _ _ _ hrun hparsed arrival harrival
  have hone : OneEntryPerSelection arrivals (marketsAfter arrivals) :=
    oneEntry_of_simulated fun arrival harrival => (hkept arrival harrival).1
  refine ⟨hone, fun entry hentry => ?_⟩
  rw [← hparsed.ticks]
  exact showsPrice_of_showsLast hentry (hone.showsLast entry hentry) fun arrival harrival =>
    (hkept arrival harrival).2

end Page

omit [DecidableEq κ] [DecidableEq δ] [DecidableEq P] in
/-- Every relayed tick is parsed. -/
theorem parsed_map (relayed : List Relayed) (now : Nat) :
    Parsed relayed (relayed.map fun r => ⟨r.message.tick, now⟩) := by
  rw [Parsed, List.forall₂_map_right_iff, List.forall₂_same]
  exact fun r _ => reads_encodeTick_iff.mpr rfl

/-- A page on the sample run, whose connection breaks after the second payload. -/
theorem feed_shown_sample :
    ∃ (s : Feed Unit Unit Bool) (arrivals : List Arrival),
      ((payloads s [((), 2)]).map fun r => r.message.tick.decimalOdds.coeff) = [21120, 21240] ∧
      Parsed (payloads s [((), 2)]) arrivals ∧
      OneEntryPerSelection arrivals (marketsAfter arrivals) ∧
      ∀ entry ∈ (marketsAfter arrivals).entries,
        ShowsPrice ((payloads s [((), 2)]).map fun r => r.message.tick) entry.2 := by
  have hexec : (sampleFeedLabels.foldlM (feedStep samplePartition 1 fun () => ()) (.start 1)).map
        (fun s => (payloads s [((), 2)]).map fun r => r.message.tick.decimalOdds.coeff) =
      some [21120, 21240] := by
    decide +kernel
  obtain ⟨s, hs, hpayloads⟩ := Option.map_eq_some_iff.mp hexec
  have hparsed := parsed_map (payloads s [((), 2)]) 0
  obtain ⟨hone, hshows⟩ := feed_shown (Reaches.of_foldlM hs) hparsed
  exact ⟨s, _, hpayloads, hparsed, hone, hshows⟩

end Frontend
end BettingPlatform
