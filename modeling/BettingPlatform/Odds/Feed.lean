import BettingPlatform.Odds.FanoutOrder
import BettingPlatform.Odds.Simulator

/-!
# The odds feed

The simulator publishes the ticks of its selections in turn, the topic keeps the messages of
one key in one partition, and the relay broadcasts what it reads from the partitions, in any
interleaving.  A simulator that ends is followed by a new one, whose selections start again,
and the relay may be assigned its partitions again, at other offsets.

Main results:

- Theorem `topic_step`: the messages of one selection follow each other in the topic.
- Theorem `reading_step`: so do those that the relay broadcasts under one assignment.
- Theorem `sent_in_order`: what a client is sent about one selection.
-/

namespace BettingPlatform
namespace Odds

open Runs

variable {κ δ P : Type} [DecidableEq κ] [DecidableEq δ] [DecidableEq P]

/-! ## The feed -/

/-- What a selection is called. -/
abbrev Triple := String × String × String

/-- A message of `odds-updates`: its payload encodes the tick.  The session tells the runs of
the simulator apart. -/
structure Published where
  session : Nat
  tick : OddsTick

/-- What a message is about. -/
def Published.triple (m : Published) : Triple :=
  m.tick.triple

/-- A message that the relay has read under one assignment of its partitions. -/
structure Relayed where
  assignment : Nat
  message : Published

/-- What the payload of the relay is about. -/
def Relayed.triple (r : Relayed) : Triple :=
  r.message.triple

/-- The Kafka key of a selection. -/
def keyOf (triple : Triple) : Bytes :=
  utf8 (joinIds triple.1 triple.2.1 triple.2.2)

/-- The simulator, the topic, and the relay with its clients. -/
structure Feed (κ δ P : Type) where
  selections : List SimulatedSelection
  /-- The selection that comes next in the round. -/
  turn : Nat
  session : Nat
  /-- The messages of each partition. -/
  log : P → List Published
  assignment : Nat
  /-- The offset of the next message that the relay reads. -/
  position : P → Nat
  fanout : Fanout κ δ Relayed

/-- Nothing has been published. -/
def Feed.start (matchCount : Nat) : Feed κ δ P where
  selections := simulatedMarket matchCount
  turn := 0
  session := 0
  log := fun _ => []
  assignment := 0
  position := fun _ => 0
  fanout := .start

/-- What happens next. -/
inductive FeedLabel (κ δ P : Type)
  /-- The simulator draws, reads the clock and publishes the next tick. -/
  | publish (draw : Draw) (now : Nat)
  /-- Publishing raises, with the message in the topic or not, and a new simulator starts. -/
  | fail (draw : Draw) (now : Nat) (appended : Bool)
  /-- The simulator ends, and a new one starts. -/
  | stop
  /-- The relay is assigned the partitions at these offsets. -/
  | assign (position : P → Nat)
  /-- The relay reads the next message of a partition and takes the snapshot for it. -/
  | consume (p : P)
  /-- The relay goes on with its payload, or a client takes a step. -/
  | fan (label : OddsLabel κ δ Relayed)

/-- The relay takes a snapshot in this step. -/
def OddsLabel.isSnapshot {β : Type} : OddsLabel κ δ β → Bool
  | .snapshot _ => true
  | _ => false

section Steps

variable (partitionOf : Bytes → P)

/-- The topic with one more message. -/
def Feed.append (s : Feed κ δ P) (tick : OddsTick) : Feed κ δ P :=
  let p := partitionOf tick.kafkaKey
  { s with log := Function.update s.log p (s.log p ++ [⟨s.session, tick⟩]) }

/-- The simulator goes on with the next selection, and after the last one with the first. -/
def Feed.advance (s : Feed κ δ P) (next : SimulatedSelection) : Feed κ δ P :=
  { s with
    selections := s.selections.set s.turn next
    turn := if s.turn + 1 < s.selections.length then s.turn + 1 else 0 }

/-- A new simulator. -/
def Feed.renew (s : Feed κ δ P) (matchCount : Nat) : Feed κ δ P :=
  { s with selections := simulatedMarket matchCount, turn := 0, session := s.session + 1 }

/-- One step of the feed. -/
def feedStep (matchCount : Nat) (clientOf : δ → κ) (s : Feed κ δ P) :
    FeedLabel κ δ P → Option (Feed κ δ P)
  | .publish draw now => do
      let selection ← s.selections[s.turn]?
      let (next, tick) ← selection.nextTick draw now
      some ((s.append partitionOf tick).advance next)
  | .fail draw now appended => do
      let selection ← s.selections[s.turn]?
      let (_, tick) ← selection.nextTick draw now
      some ((if appended then s.append partitionOf tick else s).renew matchCount)
  | .stop => some (s.renew matchCount)
  | .assign position =>
      some { s with
        assignment := s.assignment + 1
        position := fun p => min (position p) (s.log p).length }
  | .consume p => do
      let message ← (s.log p)[s.position p]?
      let fanout ← fanoutStep clientOf s.fanout (.snapshot ⟨s.assignment, message⟩)
      some { s with position := Function.update s.position p (s.position p + 1), fanout }
  | .fan label =>
      if label.isSnapshot then none
      else (fanoutStep clientOf s.fanout label).map fun fanout => { s with fanout }

end Steps

/-! ## What follows a message -/

/-- The message after another one of the same selection: the next number and odds that moved
by at most 0.0250, or the first number of a later simulator. -/
def Published.Follows (a b : Published) : Prop :=
  (a.session = b.session ∧ b.tick.sequence = a.tick.sequence + 1 ∧
      b.tick.decimalOdds.coeff ≤ a.tick.decimalOdds.coeff + 250 ∧
      a.tick.decimalOdds.coeff ≤ b.tick.decimalOdds.coeff + 250) ∨
    (a.session < b.session ∧ b.tick.sequence = 1)

/-- The payload after another one about the same selection: the message that follows it, or
one that was read under a later assignment. -/
def Relayed.Follows (a b : Relayed) : Prop :=
  (a.assignment = b.assignment ∧ a.message.Follows b.message) ∨ a.assignment < b.assignment

/-- The payloads about one selection. -/
def about {β : Type} (tripleOf : β → Triple) (triple : Triple) (l : List β) : List β :=
  l.filter fun b => tripleOf b = triple

section About

variable {β : Type} {tripleOf : β → Triple} {triple : Triple}

/-- A further item counts when it is about the triple. -/
theorem about_append_singleton (l : List β) (b : β) :
    about tripleOf triple (l ++ [b]) =
      if tripleOf b = triple then about tripleOf triple l ++ [b] else about tripleOf triple l := by
  by_cases h : tripleOf b = triple <;> simp [about, List.filter_append, h]

/-- What is about a triple is listed and is about it. -/
theorem mem_about {l : List β} {b : β} :
    b ∈ about tripleOf triple l ↔ b ∈ l ∧ tripleOf b = triple := by
  simp [about]

/-- Another payload goes to the end of those about its selection. -/
theorem isChain_about_append {R : β → β → Prop} {l : List β} {b : β}
    (h : (about tripleOf triple l).IsChain R)
    (hlast : tripleOf b = triple → ∀ a ∈ (about tripleOf triple l).getLast?, R a b) :
    (about tripleOf triple (l ++ [b])).IsChain R := by
  rw [about_append_singleton]
  split
  · rename_i hb
    refine List.isChain_append.mpr ⟨h, List.isChain_singleton b, fun a ha b' hb' => ?_⟩
    obtain rfl : b = b' := by simpa using hb'
    exact hlast hb a ha
  · exact h

end About

/-! ## The topic -/

/-- The last message about a selection, as its simulator knows it: the last tick of the
selection, or one of an earlier simulator. -/
def Published.Behind (m : Published) (session : Nat) (selection : SimulatedSelection) : Prop :=
  (m.session = session ∧ m.tick.sequence = selection.sequence ∧
      m.tick.decimalOdds = selection.odds) ∨
    (m.session < session ∧ selection.sequence = 0)

/-- What holds of a message in a partition. -/
structure Published.Kept (partitionOf : Bytes → P) (matchCount session : Nat) (p : P)
    (m : Published) : Prop where
  key : partitionOf (keyOf m.triple) = p
  market : m.triple ∈ buildMarket matchCount
  session : m.session ≤ session
  odds : ∃ coeff, m.tick.decimalOdds = units coeff ∧ 10100 ≤ coeff ∧ coeff ≤ 250000

/-- The invariant of the topic, and of the simulator that writes to it. -/
structure Topic (partitionOf : Bytes → P) (matchCount : Nat) (s : Feed κ δ P) : Prop where
  market : s.selections.map SimulatedSelection.triple = buildMarket matchCount
  kept : ∀ p, ∀ m ∈ s.log p, m.Kept partitionOf matchCount s.session p
  chain : ∀ p triple, (about Published.triple triple (s.log p)).IsChain Published.Follows
  last : ∀ selection ∈ s.selections, ∀ p,
    ∀ m ∈ (about Published.triple selection.triple (s.log p)).getLast?,
      m.Behind s.session selection

omit [DecidableEq κ] [DecidableEq δ] [DecidableEq P] in
/-- An empty topic is in order. -/
theorem topic_start {partitionOf : Bytes → P} {matchCount : Nat} :
    Topic partitionOf matchCount (Feed.start matchCount : Feed κ δ P) where
  market := simulatedMarket_triples matchCount
  kept := by simp [Feed.start]
  chain := by simp [Feed.start, about]
  last := by simp [Feed.start, about]

section Topic

variable {partitionOf : Bytes → P} {matchCount : Nat} {s t : Feed κ δ P}
  {selection next : SimulatedSelection} {tick : OddsTick}

omit [DecidableEq κ] [DecidableEq δ] [DecidableEq P] in
/-- Two selections of the simulator with one triple are one. -/
theorem selection_eq {selections : List SimulatedSelection} {a b : SimulatedSelection}
    (hmarket : selections.map SimulatedSelection.triple = buildMarket matchCount)
    (ha : a ∈ selections) (hb : b ∈ selections) (h : a.triple = b.triple) : a = b := by
  have hnodup : (selections.map SimulatedSelection.triple).Nodup := by
    rw [hmarket]
    exact buildMarket_nodup matchCount
  exact List.inj_on_of_nodup_map hnodup ha hb h

/-- The next tick of a selection follows its last one. -/
theorem SimulatedSelection.Ticked.follows (hticked : selection.Ticked next tick) {m : Published}
    {session : Nat} (hbehind : m.Behind session selection) :
    m.Follows ⟨session, tick⟩ := by
  have hsequence : tick.sequence = selection.sequence + 1 :=
    hticked.published.trans hticked.sequence
  rcases hbehind with ⟨hsession, hlast, hodds⟩ | ⟨hsession, hzero⟩
  · refine .inl ⟨hsession, by rw [hsequence, hlast], ?_, ?_⟩
    · rw [hticked.odds, hodds]
      exact hticked.drift.1
    · rw [hticked.odds, hodds]
      exact hticked.drift.2
  · exact .inr ⟨hsession, by rw [hsequence, hzero]⟩

omit [DecidableEq κ] [DecidableEq δ] in
/-- A tick is appended to the partition of its key. -/
theorem append_log (s : Feed κ δ P) (tick : OddsTick) (p : P) :
    (s.append partitionOf tick).log p =
      if p = partitionOf tick.kafkaKey then s.log p ++ [⟨s.session, tick⟩] else s.log p := by
  by_cases hp : p = partitionOf tick.kafkaKey
  · subst hp
    simp [Feed.append]
  · simp [Feed.append, hp]

omit [DecidableEq κ] [DecidableEq δ] in
/-- The messages in the topic with one tick more. -/
theorem Topic.append_kept (h : Topic partitionOf matchCount s)
    (hselection : selection ∈ s.selections)
    (hticked : selection.Ticked next tick) (p : P) :
    ∀ m ∈ (s.append partitionOf tick).log p, m.Kept partitionOf matchCount s.session p := by
  intro m hm
  rw [append_log] at hm
  split at hm
  · rename_i hp
    rcases List.mem_append.mp hm with hm | hm
    · exact h.kept p m hm
    · obtain rfl := List.mem_singleton.mp hm
      have htriple : tick.triple ∈ buildMarket matchCount := by
        rw [hticked.triple, ← h.market]
        exact List.mem_map_of_mem hselection
      exact ⟨hp.symm, htriple, le_rfl, hticked.odds ▸ next.odds_range⟩
  · exact h.kept p m hm

omit [DecidableEq κ] [DecidableEq δ] in
/-- The appended tick follows the last one of its selection. -/
theorem Topic.append_chain (h : Topic partitionOf matchCount s)
    (hselection : selection ∈ s.selections)
    (hticked : selection.Ticked next tick) (p : P) (triple : Triple) :
    (about Published.triple triple ((s.append partitionOf tick).log p)).IsChain
      Published.Follows := by
  rw [append_log]
  split
  · refine isChain_about_append (h.chain p triple) fun htriple m hm => ?_
    obtain rfl : selection.triple = triple := hticked.triple.symm.trans htriple
    exact hticked.follows (h.last selection hselection p m hm)
  · exact h.chain p triple

omit [DecidableEq κ] [DecidableEq δ] in
/-- The simulator publishes the next tick. -/
theorem Topic.publish (h : Topic partitionOf matchCount s)
    (hselection : s.selections[s.turn]? = some selection) (hticked : selection.Ticked next tick) :
    Topic partitionOf matchCount ((s.append partitionOf tick).advance next) := by
  obtain ⟨hturn, hget⟩ := List.getElem?_eq_some_iff.mp hselection
  have hmem : selection ∈ s.selections := hget ▸ List.getElem_mem hturn
  have hmarket : (s.selections.set s.turn next).map SimulatedSelection.triple =
      buildMarket matchCount := by
    rw [List.map_set, hticked.ids, ← hget, ← List.getElem_map SimulatedSelection.triple,
      List.set_getElem_self, h.market]
    simpa using hturn
  refine ⟨hmarket, fun p => h.append_kept hmem hticked p, h.append_chain hmem hticked, ?_⟩
  intro other hother p m hm
  have hin : next ∈ s.selections.set s.turn next := List.mem_set hturn next
  change m ∈ (about Published.triple other.triple ((s.append partitionOf tick).log p)).getLast? at hm
  by_cases htriple : other.triple = selection.triple
  · -- The selection itself: its last message is the one just published.
    obtain rfl := selection_eq hmarket hother hin (htriple.trans hticked.ids.symm)
    rw [append_log] at hm
    split at hm
    · have hself : (Published.mk s.session tick).triple = other.triple :=
        hticked.triple.trans htriple.symm
      rw [about_append_singleton, if_pos hself] at hm
      obtain rfl : ⟨s.session, tick⟩ = m := by simpa using hm
      exact .inl ⟨rfl, hticked.published, hticked.odds⟩
    · rename_i hp
      have hin' := mem_about.mp (List.mem_of_getLast? hm)
      have hkey := (h.kept p m hin'.1).key
      rw [hin'.2, htriple, ← hticked.triple] at hkey
      exact absurd hkey.symm hp
  · -- Another selection: neither it nor its messages have changed.
    have hkept : other ∈ s.selections := by
      rcases List.mem_or_eq_of_mem_set hother with hkept | rfl
      · exact hkept
      · exact absurd hticked.ids htriple
    refine h.last other hkept p m ?_
    rw [append_log] at hm
    split at hm
    · rwa [about_append_singleton, if_neg] at hm
      exact fun hsame => htriple (hsame.symm.trans hticked.triple)
    · exact hm

omit [DecidableEq κ] [DecidableEq δ] [DecidableEq P] in
/-- A new simulator starts, after what the last one has written. -/
theorem Topic.renewed {log : P → List Published}
    (hkept : ∀ p, ∀ m ∈ log p, m.Kept partitionOf matchCount s.session p)
    (hchain : ∀ p triple, (about Published.triple triple (log p)).IsChain Published.Follows) :
    Topic partitionOf matchCount ({ s with log }.renew matchCount) where
  market := simulatedMarket_triples matchCount
  kept := fun p m hm =>
    let h := hkept p m hm
    ⟨h.key, h.market, h.session.trans (Nat.le_succ _), h.odds⟩
  chain := hchain
  last := by
    intro selection hselection p m hm
    have hm' := (mem_about.mp (List.mem_of_getLast? hm)).1
    exact .inr ⟨Nat.lt_succ_of_le (hkept p m hm').session, simulatedMarket_sequence hselection⟩

omit [DecidableEq κ] [DecidableEq δ] [DecidableEq P] in
/-- The topic and the simulator do not depend on the relay. -/
theorem Topic.of_eq (h : Topic partitionOf matchCount s)
    (hselections : t.selections = s.selections) (hsession : t.session = s.session)
    (hlog : t.log = s.log) : Topic partitionOf matchCount t where
  market := hselections ▸ h.market
  kept := by rw [hlog, hsession]; exact h.kept
  chain := by rw [hlog]; exact h.chain
  last := by rw [hselections, hlog, hsession]; exact h.last

/-- One step keeps the topic in order. -/
theorem topic_step {clientOf : δ → κ} {label : FeedLabel κ δ P} (h : Topic partitionOf matchCount s)
    (hstep : feedStep partitionOf matchCount clientOf s label = some t) :
    Topic partitionOf matchCount t := by
  cases label with
  | publish draw now =>
    obtain ⟨selection, hselection, hstep⟩ := Option.bind_eq_some_iff.mp hstep
    obtain ⟨⟨next, tick⟩, htick, hstep⟩ := Option.bind_eq_some_iff.mp hstep
    obtain rfl := Option.some.inj hstep
    exact h.publish hselection (nextTick_cases htick)
  | fail draw now appended =>
    obtain ⟨selection, hselection, hstep⟩ := Option.bind_eq_some_iff.mp hstep
    obtain ⟨⟨next, tick⟩, htick, hstep⟩ := Option.bind_eq_some_iff.mp hstep
    obtain rfl := Option.some.inj hstep
    cases appended with
    | true =>
      have hmem := List.mem_of_getElem? hselection
      exact .renewed (h.append_kept hmem (nextTick_cases htick))
        (h.append_chain hmem (nextTick_cases htick))
    | false => exact .renewed h.kept h.chain
  | stop =>
    obtain rfl := Option.some.inj hstep
    exact .renewed h.kept h.chain
  | assign position =>
    obtain rfl := Option.some.inj hstep
    exact h.of_eq rfl rfl rfl
  | consume p =>
    obtain ⟨message, -, hstep⟩ := Option.bind_eq_some_iff.mp hstep
    obtain ⟨fanout, -, hstep⟩ := Option.bind_eq_some_iff.mp hstep
    obtain rfl := Option.some.inj hstep
    exact h.of_eq rfl rfl rfl
  | fan label =>
    simp only [feedStep] at hstep
    split at hstep
    · cases hstep
    · obtain ⟨fanout, -, rfl⟩ := Option.map_eq_some_iff.mp hstep
      exact h.of_eq rfl rfl rfl

end Topic

/-! ## The relay -/

section Broadcasts

variable {β : Type} {s t : Fanout κ δ β} {clientOf : δ → κ}

omit [DecidableEq δ] in
/-- A disconnect broadcasts nothing. -/
theorem disconnectStep_broadcasts {client : κ} {stage next : DisconnectStage}
    (hstep : disconnectStep s client stage = some (t, next)) : t.broadcasts = s.broadcasts := by
  cases stage with
  | awaitWriter =>
    simp only [disconnectStep] at hstep
    split at hstep
    · obtain ⟨rfl, -⟩ := Prod.mk.inj (Option.some.inj hstep)
      rfl
    · cases hstep
  | done => cases hstep
  | discard | cancel | close =>
    obtain ⟨rfl, -⟩ := Prod.mk.inj (Option.some.inj hstep)
    rfl

/-- Only a snapshot adds to the broadcasts. -/
theorem fanoutStep_broadcasts {label : OddsLabel κ δ β} (hlabel : label.isSnapshot = false)
    (hstep : fanoutStep clientOf s label = some t) : t.broadcasts = s.broadcasts := by
  cases label with
  | snapshot payload => cases hlabel
  | take client | sent client | stop client =>
    obtain ⟨c, -, rfl⟩ := Option.map_eq_some_iff.mp hstep
    rfl
  | connect client =>
    simp only [fanoutStep] at hstep
    split at hstep
    · cases hstep
    · obtain rfl := Option.some.inj hstep
      rfl
  | put =>
    simp only [fanoutStep] at hstep
    split at hstep
    · obtain rfl := Option.some.inj hstep
      rfl
    · cases hstep
  | disconnectStale client =>
    simp only [fanoutStep] at hstep
    split at hstep
    · split at hstep
      · obtain ⟨⟨u, next⟩, hdisconnect, rfl⟩ := Option.map_eq_some_iff.mp hstep
        exact (disconnectStep_broadcasts hdisconnect : u.broadcasts = s.broadcasts)
      · cases hstep
    · cases hstep
  | gathered =>
    simp only [fanoutStep] at hstep
    split at hstep
    · split at hstep
      · obtain rfl := Option.some.inj hstep
        rfl
      · cases hstep
    · cases hstep
  | disconnect call =>
    simp only [fanoutStep] at hstep
    split at hstep
    · obtain ⟨⟨u, next⟩, hdisconnect, rfl⟩ := Option.map_eq_some_iff.mp hstep
      exact (disconnectStep_broadcasts hdisconnect : u.broadcasts = s.broadcasts)
    · cases hstep

/-- A snapshot of the clients is the start of one broadcast. -/
theorem snapshot_broadcasts {payload : β}
    (hstep : fanoutStep clientOf s (.snapshot payload) = some t) :
    t.broadcasts = s.broadcasts ++ [payload] := by
  simp only [fanoutStep] at hstep
  split at hstep
  · obtain rfl := Option.some.inj hstep
    rfl
  · cases hstep

end Broadcasts

/-- What the relay has broadcast from a partition under an assignment. -/
def takenFrom (partitionOf : Bytes → P) (assignment : Nat) (p : P) (broadcasts : List Relayed) :
    List Published :=
  (broadcasts.filter fun r => r.assignment = assignment ∧ partitionOf (keyOf r.triple) = p).map
    Relayed.message

/-- The invariant of the relay. -/
structure Reading (partitionOf : Bytes → P) (s : Feed κ δ P) : Prop where
  fan : Fan s.fanout
  position : ∀ p, s.position p ≤ (s.log p).length
  assigned : ∀ r ∈ s.fanout.broadcasts, r.assignment ≤ s.assignment
  known : ∀ r ∈ s.fanout.broadcasts, ∃ p, r.message ∈ s.log p
  /-- Under one assignment a partition is read in its order. -/
  taken : ∀ p, takenFrom partitionOf s.assignment p s.fanout.broadcasts <:+
    (s.log p).take (s.position p)
  chain : ∀ triple, (about Relayed.triple triple s.fanout.broadcasts).IsChain Relayed.Follows

omit [DecidableEq κ] [DecidableEq δ] in
/-- Nothing is read at the start. -/
theorem reading_start {partitionOf : Bytes → P} {matchCount : Nat} :
    Reading partitionOf (Feed.start matchCount : Feed κ δ P) where
  fan := .start
  position := fun _ => Nat.zero_le _
  assigned := by simp [Feed.start, Fanout.start]
  known := by simp [Feed.start, Fanout.start]
  taken := by simp [Feed.start, Fanout.start, takenFrom]
  chain := by simp [Feed.start, Fanout.start, about]

section Reading

variable {partitionOf : Bytes → P} {matchCount : Nat} {s t : Feed κ δ P}

omit [DecidableEq κ] [DecidableEq δ] in
/-- The topic grows. -/
theorem Reading.grow (h : Reading partitionOf s) (hlog : ∀ p, s.log p <+: t.log p)
    (hassignment : t.assignment = s.assignment) (hposition : t.position = s.position)
    (hfanout : t.fanout = s.fanout) : Reading partitionOf t where
  fan := hfanout ▸ h.fan
  position := fun p => by
    rw [hposition]
    exact (h.position p).trans (hlog p).length_le
  assigned := by
    rw [hfanout, hassignment]
    exact h.assigned
  known := by
    intro r hr
    obtain ⟨p, hp⟩ := h.known r (hfanout ▸ hr)
    exact ⟨p, (hlog p).subset hp⟩
  taken := by
    intro p
    obtain ⟨rest, hrest⟩ := hlog p
    rw [hfanout, hassignment, hposition, ← hrest, List.take_append_of_le_length (h.position p)]
    exact h.taken p
  chain := by
    rw [hfanout]
    exact h.chain

omit [DecidableEq κ] [DecidableEq δ] in
/-- A log is only appended to. -/
theorem prefix_append_log (s : Feed κ δ P) (tick : OddsTick) (p : P) :
    s.log p <+: (s.append partitionOf tick).log p := by
  rw [append_log]
  split
  · exact List.prefix_append _ _
  · exact List.prefix_refl _

omit [DecidableEq κ] [DecidableEq δ] in
/-- Under a new assignment nothing has been read yet. -/
theorem Reading.assign (h : Reading partitionOf s) (position : P → Nat) :
    Reading partitionOf { s with
      assignment := s.assignment + 1
      position := fun p => min (position p) (s.log p).length } where
  fan := h.fan
  position := fun p => Nat.min_le_right _ _
  assigned := fun r hr => (h.assigned r hr).trans (Nat.le_succ _)
  known := h.known
  taken := by
    intro p
    have hnone : takenFrom partitionOf (s.assignment + 1) p s.fanout.broadcasts = [] := by
      rw [takenFrom, List.map_eq_nil_iff, List.filter_eq_nil_iff]
      intro r hr hnew
      have hle := h.assigned r hr
      have hsame := (of_decide_eq_true hnew).1
      omega
    rw [hnone]
    exact List.nil_suffix
  chain := h.chain

omit [DecidableEq κ] [DecidableEq δ] in
/-- The last payload about a selection, if it was read under the current assignment, is the
last message about it before the position. -/
theorem Reading.last_taken (h : Reading partitionOf s) {triple : Triple} {r : Relayed}
    (hlast : r ∈ (about Relayed.triple triple s.fanout.broadcasts).getLast?)
    (hnow : r.assignment = s.assignment) :
    r.message ∈ (about Published.triple triple ((s.log (partitionOf (keyOf triple))).take
      (s.position (partitionOf (keyOf triple))))).getLast? := by
  set p := partitionOf (keyOf triple) with hp
  obtain ⟨earlier, hearlier⟩ := List.getLast?_eq_some_iff.mp hlast
  have htaken : about Published.triple triple
        (takenFrom partitionOf s.assignment p s.fanout.broadcasts) =
      ((about Relayed.triple triple s.fanout.broadcasts).filter fun r =>
        r.assignment = s.assignment).map Relayed.message := by
    rw [takenFrom, about, about, List.filter_map, List.filter_filter, List.filter_filter]
    refine congrArg (List.map Relayed.message) (List.filter_congr fun r _ => ?_)
    simp only [Function.comp_apply, ← Bool.decide_and, decide_eq_decide]
    constructor
    · rintro ⟨htriple, hassignment, -⟩
      exact ⟨hassignment, htriple⟩
    · rintro ⟨hassignment, htriple⟩
      exact ⟨htriple, hassignment, by rw [hp, ← htriple]⟩
  obtain ⟨before, hbefore⟩ := (h.taken p).filter fun m : Published => m.triple = triple
  change before ++ about Published.triple triple _ = about Published.triple triple _ at hbefore
  rw [← hbefore, htaken, hearlier, List.filter_append, List.map_append]
  simp [hnow]

omit [DecidableEq κ] [DecidableEq δ] in
/-- The relay reads the next message of a partition. -/
theorem Reading.consume (h : Reading partitionOf s) (htopic : Topic partitionOf matchCount s)
    {p : P} {message : Published} {fanout : Fanout κ δ Relayed}
    (hmessage : (s.log p)[s.position p]? = some message) (hfan : Fan fanout)
    (hfanout : fanout.broadcasts = s.fanout.broadcasts ++ [⟨s.assignment, message⟩]) :
    Reading partitionOf
      { s with position := Function.update s.position p (s.position p + 1), fanout } := by
  obtain ⟨hlt, hget⟩ := List.getElem?_eq_some_iff.mp hmessage
  have hmem : message ∈ s.log p := hget ▸ List.getElem_mem hlt
  have hkey := (htopic.kept p message hmem).key
  have htake : (s.log p).take (s.position p + 1) = (s.log p).take (s.position p) ++ [message] := by
    rw [List.take_add_one, hmessage, Option.toList_some]
  refine ⟨hfan, fun q => ?_, fun r hr => ?_, fun r hr => ?_, fun q => ?_, fun triple => ?_⟩
  · by_cases hq : q = p
    · subst hq
      simpa [Nat.succ_le_iff] using hlt
    · simpa [hq] using h.position q
  · rw [hfanout, List.mem_append] at hr
    rcases hr with hr | hr
    · exact h.assigned r hr
    · obtain rfl := List.mem_singleton.mp hr
      exact le_rfl
  · rw [hfanout, List.mem_append] at hr
    rcases hr with hr | hr
    · exact h.known r hr
    · obtain rfl := List.mem_singleton.mp hr
      exact ⟨p, hmem⟩
  · have htaken := h.taken q
    by_cases hq : q = p
    · subst hq
      obtain ⟨before, hbefore⟩ := htaken
      refine ⟨before, ?_⟩
      simp only [Function.update_self, htake, ← hbefore]
      rw [takenFrom, hfanout, List.filter_append, List.map_append, ← List.append_assoc]
      simp [takenFrom, Relayed.triple, hkey]
    · have hne : p ≠ q := fun hpq => hq hpq.symm
      simp only [Function.update_of_ne hq]
      rw [takenFrom, hfanout, List.filter_append]
      simpa [takenFrom, Relayed.triple, hkey, hne] using htaken
  · rw [hfanout]
    refine isChain_about_append (h.chain triple) fun htriple r hr => ?_
    rcases (h.assigned r (mem_about.mp (List.mem_of_getLast? hr)).1).eq_or_lt with hnow | hearlier
    · refine .inl ⟨hnow, ?_⟩
      have hlast := h.last_taken hr hnow
      have hmessageTriple : message.triple = triple := htriple
      rw [← hmessageTriple, hkey] at hlast
      have hchain : (about Published.triple message.triple
          ((s.log p).take (s.position p + 1))).IsChain Published.Follows :=
        List.IsChain.prefix (htopic.chain p _) ((List.take_prefix _ _).filter _)
      rw [htake, about_append_singleton, if_pos rfl] at hchain
      exact (List.isChain_append.mp hchain).2.2 r.message hlast message rfl
    · exact .inr hearlier

/-- One step keeps the relay in the order of the topic. -/
theorem reading_step {clientOf : δ → κ} {label : FeedLabel κ δ P} (h : Reading partitionOf s)
    (htopic : Topic partitionOf matchCount s)
    (hstep : feedStep partitionOf matchCount clientOf s label = some t) :
    Reading partitionOf t := by
  cases label with
  | publish draw now =>
    obtain ⟨selection, -, hstep⟩ := Option.bind_eq_some_iff.mp hstep
    obtain ⟨⟨next, tick⟩, -, hstep⟩ := Option.bind_eq_some_iff.mp hstep
    obtain rfl := Option.some.inj hstep
    exact h.grow (prefix_append_log s tick) rfl rfl rfl
  | fail draw now appended =>
    obtain ⟨selection, -, hstep⟩ := Option.bind_eq_some_iff.mp hstep
    obtain ⟨⟨next, tick⟩, -, hstep⟩ := Option.bind_eq_some_iff.mp hstep
    obtain rfl := Option.some.inj hstep
    cases appended with
    | true => exact h.grow (prefix_append_log s tick) rfl rfl rfl
    | false => exact h.grow (fun p => List.prefix_refl _) rfl rfl rfl
  | stop =>
    obtain rfl := Option.some.inj hstep
    exact h.grow (fun p => List.prefix_refl _) rfl rfl rfl
  | assign position =>
    obtain rfl := Option.some.inj hstep
    exact h.assign position
  | consume p =>
    obtain ⟨message, hmessage, hstep⟩ := Option.bind_eq_some_iff.mp hstep
    obtain ⟨fanout, hfanout, hstep⟩ := Option.bind_eq_some_iff.mp hstep
    obtain rfl := Option.some.inj hstep
    exact h.consume htopic hmessage (fan_step h.fan hfanout) (snapshot_broadcasts hfanout)
  | fan label =>
    simp only [feedStep] at hstep
    split at hstep
    · cases hstep
    · rename_i hlabel
      obtain ⟨fanout, hfanout, rfl⟩ := Option.map_eq_some_iff.mp hstep
      have hsame := fanoutStep_broadcasts (by simpa using hlabel) hfanout
      refine ⟨fan_step h.fan hfanout, h.position, ?_, ?_, ?_, ?_⟩
      · exact hsame ▸ h.assigned
      · exact hsame ▸ h.known
      · exact hsame ▸ h.taken
      · exact hsame ▸ h.chain

end Reading

/-! ## What a client is sent -/

section Runs

variable {partitionOf : Bytes → P} {matchCount : Nat} {clientOf : δ → κ} {s : Feed κ δ P}

/-- Every reachable state meets both invariants. -/
theorem feed_of_reachable
    (hrun : Reachable (feedStep partitionOf matchCount clientOf) (.start matchCount) s) :
    Topic partitionOf matchCount s ∧ Reading partitionOf s :=
  @Reaches.invariant _ _ _ _ (fun s => Topic partitionOf matchCount s ∧ Reading partitionOf s) _ _
    hrun ⟨topic_start, reading_start⟩ fun h _ hstep =>
      ⟨topic_step h.1 hstep, reading_step h.2 h.1 hstep⟩

omit [DecidableEq κ] [DecidableEq δ] in
/-- What a client is sent is part of the broadcasts. -/
theorem Reading.sent_contiguous (h : Reading partitionOf s) (client : κ) :
    (s.fanout.conn client).sent <:+: s.fanout.broadcasts := by
  obtain ⟨queued, hqueued, hinfix, -⟩ := h.fan.order client
  exact hqueued.sent_prefix.isInfix.trans hinfix

omit [DecidableEq κ] [DecidableEq δ] in
/-- A client is sent messages of the topic. -/
theorem kept_of_sent (htopic : Topic partitionOf matchCount s) (hreading : Reading partitionOf s)
    {client : κ} {r : Relayed} (hr : r ∈ (s.fanout.conn client).sent) :
    ∃ p, r.message.Kept partitionOf matchCount s.session p := by
  obtain ⟨p, hp⟩ := hreading.known r ((hreading.sent_contiguous client).subset hr)
  exact ⟨p, htopic.kept p r.message hp⟩

/-- However the simulator, its restarts, the relay, its assignments and the clients interleave:
what a client is sent about one selection is in the order of the topic.  After a payload comes
the message that followed it there, with the next sequence number and odds within 0.0250, or
the first one of a later simulator, unless the relay was assigned its partitions in between.
Every payload is about a selection of the market, at odds from 1.0100 to 25.0000. -/
theorem sent_in_order
    (hrun : Reachable (feedStep partitionOf matchCount clientOf) (.start matchCount) s)
    (client : κ) :
    (∀ triple, (about Relayed.triple triple (s.fanout.conn client).sent).IsChain
      Relayed.Follows) ∧
    ∀ r ∈ (s.fanout.conn client).sent, r.triple ∈ buildMarket matchCount ∧
      ∃ coeff, r.message.tick.decimalOdds = units coeff ∧ 10100 ≤ coeff ∧ coeff ≤ 250000 := by
  obtain ⟨htopic, hreading⟩ := feed_of_reachable hrun
  have hsent := hreading.sent_contiguous client
  refine ⟨fun triple => List.IsChain.infix (hreading.chain triple) (hsent.filter _), fun r hr => ?_⟩
  obtain ⟨p, hkept⟩ := kept_of_sent htopic hreading hr
  exact ⟨hkept.market, hkept.odds⟩

end Runs

/-- A drift of 0.012. -/
def sampleDraw : Draw where
  value := ⟨false, 12, -3⟩
  range := by norm_num [Decimal.magnitude]

/-- The relay reads a message of a partition, and the client is sent it. -/
def relayLabels (p : Bool) : List (FeedLabel Unit Unit Bool) :=
  [.consume p, .fan .put, .fan (.take ()), .fan (.sent ())]

/-- The home selection is published twice, then publishing the second tick of the draw raises
and a new simulator starts; at last the relay is assigned its partitions from the start. -/
def sampleFeedLabels : List (FeedLabel Unit Unit Bool) :=
  [.fan (.connect ()), .publish sampleDraw 1, .publish sampleDraw 2, .publish sampleDraw 3] ++
    relayLabels true ++ [.publish sampleDraw 4] ++ relayLabels true ++ relayLabels false ++
    [.fail sampleDraw 5 true, .publish sampleDraw 6] ++ relayLabels true ++
    [.assign fun _ => 0] ++ relayLabels true

/-- The keys with an odd number of the letter `e` have a partition of their own. -/
def samplePartition (key : Bytes) : Bool :=
  key.count 101 % 2 == 1

theorem sent_in_order_sample :
    ∃ s : Feed Unit Unit Bool,
      ((s.fanout.conn ()).sent.map fun r =>
        (r.assignment, r.message.session, r.message.tick.sequence,
          r.message.tick.decimalOdds.coeff)) =
        [(0, 0, 1, 21120), (0, 0, 2, 21240), (0, 0, 1, 34120), (0, 1, 1, 21120),
          (1, 0, 1, 21120)] ∧
      (about Relayed.triple ("match-0001", "full-time-result", "home")
        (s.fanout.conn ()).sent).IsChain Relayed.Follows := by
  have hexec : (sampleFeedLabels.foldlM (feedStep samplePartition 1 fun () => ()) (.start 1)).map
        (fun s => (s.fanout.conn ()).sent.map fun r =>
          (r.assignment, r.message.session, r.message.tick.sequence,
            r.message.tick.decimalOdds.coeff)) =
      some [(0, 0, 1, 21120), (0, 0, 2, 21240), (0, 0, 1, 34120), (0, 1, 1, 21120),
        (1, 0, 1, 21120)] := by
    decide +kernel
  obtain ⟨s, hs, hsent⟩ := Option.map_eq_some_iff.mp hexec
  exact ⟨s, hsent, (sent_in_order (Reaches.of_foldlM hs) ()).1 _⟩

end Odds
end BettingPlatform
