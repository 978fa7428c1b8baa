import BettingPlatform.Foundations.Runs
import BettingPlatform.Odds.ConnectionManager

/-!
# The order of the fan-out

A client that is in the set has been offered every payload since it was added, so what was
put into its queue is an end piece of the broadcasts.  A client whose queue was full misses
a payload; it is discarded before the relay goes on, and gets no further payload.

Main results:

- Theorem `fan_step`: one step keeps every client's payloads in the order of the broadcasts.
- Theorem `fanout_in_order`: what a client is sent is a contiguous part of the broadcasts, its
  queue is bounded, and a client that could not keep up is gone before the next snapshot.
-/

namespace BettingPlatform
namespace Odds

open Runs

variable {κ δ β : Type}

/-- The clients the relay is busy with. -/
def Relay.named : Relay κ β → Finset κ
  | .idle => ∅
  | .holding _ clients => clients
  | .gathering stale _ => stale

/-- Where the payloads that were put into a client's queue stand among the broadcasts. -/
def Fanout.Position (s : Fanout κ δ β) (client : κ) (queued : List β) : Prop :=
  match s.relay with
  | .idle => client ∈ s.clients →
      (s.conn client).missed = false ∧ queued <:+ s.broadcasts
  | .holding payload clients =>
      (client ∈ clients → (s.conn client).missed = false ∧
        ∃ before, s.broadcasts = before ++ [payload] ∧ queued <:+ before) ∧
      (client ∈ s.clients → client ∉ clients → (s.conn client).missed = false ∧ queued = [])
  | .gathering stale stage => client ∈ s.clients →
      ((s.conn client).missed = false ∧ queued <:+ s.broadcasts) ∨
        (client ∈ stale ∧ stage client = .discard)

/-- The invariant of the fan-out. -/
structure Fan (s : Fanout κ δ β) : Prop where
  depth : ∀ client, (s.conn client).queue.length ≤ queueDepth
  fresh : ∀ client, (s.conn client).connected = false →
    client ∉ s.clients ∧ s.conn client = .new
  named : ∀ client ∈ s.relay.named, (s.conn client).connected = true
  order : ∀ client, ∃ queued, (s.conn client).Wrote queued ∧ queued <:+: s.broadcasts ∧
    s.Position client queued

/-- Nobody has been sent anything at the start. -/
theorem Fan.start : Fan (.start : Fanout κ δ β) where
  depth := fun _ => Nat.zero_le _
  fresh := fun client _ => ⟨Finset.notMem_empty client, rfl⟩
  named := fun client hin => absurd hin (Finset.notMem_empty client)
  order := fun client =>
    ⟨[], rfl, List.infix_rfl, fun hin => absurd hin (Finset.notMem_empty client)⟩

/-! ## Writers -/

section Writers

variable {c c' : ClientConnection β}

/-- A payload is put into a queue that has room only. -/
theorem ClientConnection.put_depth (payload : β) (hdepth : c.queue.length ≤ queueDepth) :
    (c.put payload).queue.length ≤ queueDepth := by
  unfold ClientConnection.put
  split
  · exact hdepth
  · rename_i hfull
    simp only [ClientConnection.isFull, decide_eq_true_eq] at hfull
    simp only [List.length_append, List.length_singleton]
    omega

@[simp] theorem ClientConnection.put_connected (payload : β) :
    (c.put payload).connected = c.connected := by
  unfold ClientConnection.put
  split <;> rfl

/-- What a step of a writer leaves as it was, and that there is a writer at all. -/
structure ClientConnection.Written (c c' : ClientConnection β) : Prop where
  connected : c'.connected = c.connected
  missed : c'.missed = c.missed
  depth : c'.queue.length ≤ c.queue.length
  wrote : ∀ {queued}, c.Wrote queued → c'.Wrote queued
  used : c ≠ .new

/-- Taking a payload is a step of a writer. -/
theorem written_takePayload (htake : takePayload c = some c') : c.Written c' := by
  have hwrote := fun {queued} (h : c.Wrote queued) => h.take htake
  have hused : c ≠ .new := by
    rintro rfl
    cases htake
  unfold takePayload at htake
  split at htake
  · rename_i payload queue _ hqueue
    obtain rfl := Option.some.inj htake
    exact ⟨rfl, rfl, by simp [hqueue], hwrote, hused⟩
  · cases htake

/-- So is finishing it. -/
theorem written_finishSending (hfinish : finishSending c = some c') : c.Written c' := by
  have hwrote := fun {queued} (h : c.Wrote queued) => h.finish hfinish
  have hused : c ≠ .new := by
    rintro rfl
    cases hfinish
  unfold finishSending at hfinish
  split at hfinish
  · obtain rfl := Option.some.inj hfinish
    exact ⟨rfl, rfl, le_rfl, hwrote, hused⟩
  · cases hfinish

/-- And so is its end. -/
theorem written_stopWriter {delivered failed : Bool}
    (hstop : stopWriter c delivered failed = some c') : c.Written c' := by
  have hwrote := fun {queued} (h : c.Wrote queued) => h.stop hstop
  have hused : c ≠ .new := by
    rintro rfl
    cases hstop
  unfold stopWriter at hstop
  split at hstop
  · split at hstop
    · obtain rfl := Option.some.inj hstop
      exact ⟨rfl, rfl, le_rfl, hwrote, hused⟩
    · cases hstop
  · split at hstop
    · obtain rfl := Option.some.inj hstop
      exact ⟨rfl, rfl, le_rfl, hwrote, hused⟩
    · cases hstop
  · cases hstop

end Writers

/-! ## Steps -/

section Steps

variable [DecidableEq κ] {s t : Fanout κ δ β} {clientOf : δ → κ}

omit [DecidableEq κ] in
/-- A client that is used is connected. -/
theorem Fan.connected_of_ne_new (h : Fan s) {client : κ} (hused : s.conn client ≠ .new) :
    (s.conn client).connected = true := by
  by_contra hnot
  exact hused (h.fresh client (by simpa using hnot)).2

omit [DecidableEq κ] in
/-- A client's place among the broadcasts depends on its own connection and on the set. -/
theorem Fanout.Position.of_eq {client : κ} {queued : List β} (hposition : s.Position client queued)
    (hrelay : t.relay = s.relay) (hbroadcasts : t.broadcasts = s.broadcasts)
    (hmissed : (t.conn client).missed = (s.conn client).missed)
    (hclients : client ∈ t.clients → client ∈ s.clients) : t.Position client queued := by
  unfold Fanout.Position at hposition ⊢
  rw [hrelay, hbroadcasts, hmissed]
  cases hstage : s.relay with
  | idle =>
    simp only [hstage] at hposition
    exact fun hin => hposition (hclients hin)
  | holding payload clients =>
    simp only [hstage] at hposition
    exact ⟨hposition.1, fun hin => hposition.2 (hclients hin)⟩
  | gathering stale stage =>
    simp only [hstage] at hposition
    exact fun hin => hposition (hclients hin)

/-- A connected client's connection changes, and it is not offered a payload. -/
theorem Fan.setConn (h : Fan s) {client : κ} {c : ClientConnection β}
    (hwritten : (s.conn client).Written c) : Fan (s.setConn client c) where
  depth := by
    intro k
    by_cases hk : k = client
    · subst hk
      simpa [Fanout.setConn] using hwritten.depth.trans (h.depth k)
    · simpa [Fanout.setConn, hk] using h.depth k
  fresh := by
    intro k hnot
    by_cases hk : k = client
    · subst hk
      simp [Fanout.setConn, hwritten.connected, h.connected_of_ne_new hwritten.used] at hnot
    · simp only [Fanout.setConn, Function.update_of_ne hk] at hnot ⊢
      exact h.fresh k hnot
  named := by
    intro k hin
    by_cases hk : k = client
    · subst hk
      simp [Fanout.setConn, hwritten.connected, h.connected_of_ne_new hwritten.used]
    · simpa [Fanout.setConn, hk] using h.named k hin
  order := by
    intro k
    obtain ⟨queued, hqueued, hinfix, hposition⟩ := h.order k
    refine ⟨queued, ?_, hinfix, hposition.of_eq rfl rfl ?_ id⟩
    · by_cases hk : k = client
      · subst hk
        simpa [Fanout.setConn] using hwritten.wrote hqueued
      · simpa [Fanout.setConn, hk] using hqueued
    · by_cases hk : k = client
      · subst hk
        simpa [Fanout.setConn] using hwritten.missed
      · simp [Fanout.setConn, hk]

/-- A client leaves the set. -/
theorem Fan.erase (h : Fan s) (client : κ) :
    Fan { s with clients := s.clients.erase client } where
  depth := h.depth
  fresh := by
    intro k hnot
    obtain ⟨hout, hnew⟩ := h.fresh k hnot
    exact ⟨fun hin => hout (Finset.mem_of_mem_erase hin), hnew⟩
  named := h.named
  order := by
    intro k
    obtain ⟨queued, hqueued, hinfix, hposition⟩ := h.order k
    exact ⟨queued, hqueued, hinfix, hposition.of_eq rfl rfl rfl Finset.mem_of_mem_erase⟩

/-- One step of `disconnect` for a connected client; only the first one changes the set. -/
theorem Fan.disconnectStep (h : Fan s) {client : κ} {stage next : DisconnectStage}
    (hconnected : (s.conn client).connected = true)
    (hstep : disconnectStep s client stage = some (t, next)) :
    Fan t ∧ t.relay = s.relay ∧ (stage = .discard → client ∉ t.clients) := by
  cases stage with
  | discard =>
    obtain ⟨rfl, -⟩ := Prod.mk.inj (Option.some.inj hstep)
    exact ⟨h.erase client, rfl, fun _ => Finset.notMem_erase client s.clients⟩
  | cancel =>
    obtain ⟨rfl, -⟩ := Prod.mk.inj (Option.some.inj hstep)
    refine ⟨h.setConn ⟨rfl, rfl, le_rfl, id, ?_⟩, rfl, by simp⟩
    intro hnew
    simp [hnew, ClientConnection.new] at hconnected
  | awaitWriter =>
    simp only [Odds.disconnectStep] at hstep
    split at hstep
    · obtain ⟨rfl, -⟩ := Prod.mk.inj (Option.some.inj hstep)
      exact ⟨h, rfl, by simp⟩
    · cases hstep
  | close =>
    obtain ⟨rfl, -⟩ := Prod.mk.inj (Option.some.inj hstep)
    exact ⟨h, rfl, by simp⟩
  | done => cases hstep

/-- A new client has an empty queue, and the relay is not busy with it. -/
theorem Fan.connect (h : Fan s) {client : κ} (hnew : (s.conn client).connected = false) :
    Fan { s.setConn client { s.conn client with connected := true } with
      clients := insert client s.clients } where
  depth := by
    intro k
    by_cases hk : k = client
    · subst hk
      simpa [Fanout.setConn] using h.depth k
    · simpa [Fanout.setConn, hk] using h.depth k
  fresh := by
    intro k hnot
    have hk : k ≠ client := by
      rintro rfl
      simp [Fanout.setConn] at hnot
    simp only [Fanout.setConn, Function.update_of_ne hk] at hnot ⊢
    obtain ⟨hout, hconn⟩ := h.fresh k hnot
    exact ⟨by simp [hk, hout], hconn⟩
  named := by
    intro k hin
    by_cases hk : k = client
    · subst hk
      simp [Fanout.setConn]
    · simpa [Fanout.setConn, hk] using h.named k hin
  order := by
    intro k
    by_cases hk : k = client
    · subst hk
      refine ⟨[], ?_, List.nil_infix, ?_⟩
      · simp [Fanout.setConn, (h.fresh k hnew).2, ClientConnection.new, ClientConnection.Wrote]
      · have hmissed : (s.conn k).missed = false := by simp [(h.fresh k hnew).2, ClientConnection.new]
        have hnamed : k ∉ s.relay.named := by
          intro hin
          simp [h.named k hin] at hnew
        simp only [Fanout.Position, Fanout.setConn, Function.update_self]
        cases hrelay : s.relay with
        | idle => exact fun _ => ⟨hmissed, List.nil_suffix⟩
        | holding payload clients =>
          rw [hrelay] at hnamed
          exact ⟨fun hin => absurd hin hnamed, fun _ _ => ⟨hmissed, trivial⟩⟩
        | gathering stale stage => exact fun _ => .inl ⟨hmissed, List.nil_suffix⟩
    · obtain ⟨queued, hqueued, hinfix, hposition⟩ := h.order k
      refine ⟨queued, by simpa [Fanout.setConn, hk] using hqueued, hinfix, ?_⟩
      refine hposition.of_eq rfl rfl (by simp [Fanout.setConn, hk]) fun hin => ?_
      exact Finset.mem_of_mem_insert_of_ne hin hk

omit [DecidableEq κ] in
/-- The snapshot: every client in the set has been offered all earlier payloads. -/
theorem Fan.snapshot (h : Fan s) (hrelay : s.relay = .idle) (payload : β) :
    Fan { s with relay := .holding payload s.clients, broadcasts := s.broadcasts ++ [payload] } where
  depth := h.depth
  fresh := h.fresh
  named := by
    intro k hin
    by_contra hnot
    exact (h.fresh k (by simpa using hnot)).1 hin
  order := by
    intro k
    obtain ⟨queued, hqueued, hinfix, hposition⟩ := h.order k
    refine ⟨queued, hqueued, hinfix.trans (List.prefix_append _ _).isInfix, ?_, ?_⟩
    · intro hin
      simp only [Fanout.Position, hrelay] at hposition
      obtain ⟨hmissed, hsuffix⟩ := hposition hin
      exact ⟨hmissed, s.broadcasts, rfl, hsuffix⟩
    · intro hin hout
      exact absurd hin hout

/-- After the payload a client is up to date or about to be disconnected. -/
theorem Fanout.Position.of_offer {payload : β} {clients : Finset κ} {client : κ} {queued : List β}
    (hclient : client ∈ s.clients →
      (((s.offer payload clients).conn client).missed = false ∧ queued <:+ s.broadcasts) ∨
        client ∈ s.stale clients) :
    (s.offer payload clients).Position client queued := by
  unfold Fanout.Position
  by_cases hnone : s.stale clients = ∅
  · simp only [Fanout.offer, hnone, if_true]
    intro hin
    rcases hclient hin with hkept | hstale
    · exact hkept
    · simp [hnone] at hstale
  · simp only [Fanout.offer, hnone, if_false]
    intro hin
    rcases hclient hin with hkept | hstale
    · exact .inl hkept
    · exact .inr ⟨hstale, trivial⟩

/-- A client whose queue is full is marked for its disconnect; the others get the payload. -/
theorem Fan.offer (h : Fan s) {payload : β} {clients : Finset κ}
    (hrelay : s.relay = .holding payload clients) : Fan (s.offer payload clients) where
  depth := by
    intro k
    by_cases hin : k ∈ clients
    · simpa [Fanout.offer, hin] using ClientConnection.put_depth payload (h.depth k)
    · simpa [Fanout.offer, hin] using h.depth k
  fresh := by
    intro k hnot
    by_cases hin : k ∈ clients
    · have hconnected := h.named k (by rwa [hrelay])
      simp [Fanout.offer, hin, hconnected] at hnot
    · simp only [Fanout.offer, hin, if_false] at hnot ⊢
      exact h.fresh k hnot
  named := by
    intro k hin
    have hk : k ∈ clients := by
      by_cases hnone : s.stale clients = ∅
      · simp [Fanout.offer, hnone, Relay.named] at hin
      · simp only [Fanout.offer, hnone, if_false, Relay.named] at hin
        exact (Finset.mem_filter.mp hin).1
    have hconnected := h.named k (by rwa [hrelay])
    simp [Fanout.offer, hk, hconnected]
  order := by
    intro k
    obtain ⟨queued, hqueued, hinfix, hposition⟩ := h.order k
    simp only [Fanout.Position, hrelay] at hposition
    by_cases hin : k ∈ clients
    · obtain ⟨hmissed, before, hbroadcasts, hsuffix⟩ := hposition.1 hin
      cases hfull : (s.conn k).isFull with
      | true =>
        -- The client misses the payload: from here on only its disconnect is left.
        have hmiss : ({ s.conn k with missed := true } : ClientConnection β).Wrote queued := hqueued
        refine ⟨queued, ?_, hinfix, .of_offer fun _ => .inr ?_⟩
        · simpa [Fanout.offer, hin, ClientConnection.put, hfull] using hmiss
        · exact Finset.mem_filter.mpr ⟨hin, hfull⟩
      | false =>
        have hlast : queued ++ [payload] <:+ s.broadcasts := by
          obtain ⟨earlier, rfl⟩ := hsuffix
          exact ⟨earlier, by rw [hbroadcasts, List.append_assoc]⟩
        refine ⟨queued ++ [payload], ?_, hlast.isInfix, .of_offer fun _ => .inl ⟨?_, hlast⟩⟩
        · simpa [Fanout.offer, hin] using hqueued.put hfull
        · simpa [Fanout.offer, hin, ClientConnection.put, hfull] using hmissed
    · refine ⟨queued, by simpa [Fanout.offer, hin] using hqueued, hinfix, .of_offer fun hclient => ?_⟩
      obtain ⟨hmissed, rfl⟩ := hposition.2 hclient hin
      exact .inl ⟨by simpa [Fanout.offer, hin] using hmissed, List.nil_suffix⟩

/-- A disconnect of the relay goes on. -/
theorem Fan.restage (h : Fan s) {stale : Finset κ} {stage : κ → DisconnectStage}
    (hrelay : s.relay = .gathering stale stage) {client : κ} (next : DisconnectStage)
    (hout : stage client = .discard → client ∉ s.clients) :
    Fan { s with relay := .gathering stale (Function.update stage client next) } where
  depth := h.depth
  fresh := h.fresh
  named := by
    intro k hin
    refine h.named k ?_
    rw [hrelay]
    exact hin
  order := by
    intro k
    obtain ⟨queued, hqueued, hinfix, hposition⟩ := h.order k
    refine ⟨queued, hqueued, hinfix, fun hin => ?_⟩
    simp only [Fanout.Position, hrelay] at hposition
    rcases hposition hin with hkept | ⟨hstale, hdiscard⟩
    · exact .inl hkept
    · have hk : k ≠ client := by
        rintro rfl
        exact hout hdiscard hin
      exact .inr ⟨hstale, by rw [Function.update_of_ne hk, hdiscard]⟩

omit [DecidableEq κ] in
/-- The relay goes on when every stale client has been disconnected. -/
theorem Fan.gathered (h : Fan s) {stale : Finset κ} {stage : κ → DisconnectStage}
    (hrelay : s.relay = .gathering stale stage) (hdone : ∀ client ∈ stale, stage client = .done) :
    Fan { s with relay := .idle } where
  depth := h.depth
  fresh := h.fresh
  named := fun k hin => absurd hin (Finset.notMem_empty k)
  order := by
    intro k
    obtain ⟨queued, hqueued, hinfix, hposition⟩ := h.order k
    refine ⟨queued, hqueued, hinfix, fun hin => ?_⟩
    simp only [Fanout.Position, hrelay] at hposition
    rcases hposition hin with hkept | ⟨hstale, hdiscard⟩
    · exact hkept
    · simp [hdone k hstale] at hdiscard

end Steps

/-! ## Runs -/

section Runs

variable [DecidableEq κ] [DecidableEq δ] {s t : Fanout κ δ β} {clientOf : δ → κ}

/-- One step keeps every client's payloads in the order of the broadcasts. -/
theorem fan_step {label : OddsLabel κ δ β} (h : Fan s)
    (hstep : fanoutStep clientOf s label = some t) : Fan t := by
  cases label with
  | connect client =>
    simp only [fanoutStep] at hstep
    split at hstep
    · cases hstep
    · rename_i hnew
      obtain rfl := Option.some.inj hstep
      exact h.connect (by simpa using hnew)
  | take client =>
    obtain ⟨c, htake, rfl⟩ := Option.map_eq_some_iff.mp hstep
    exact h.setConn (written_takePayload htake)
  | sent client =>
    obtain ⟨c, hfinish, rfl⟩ := Option.map_eq_some_iff.mp hstep
    exact h.setConn (written_finishSending hfinish)
  | stop client delivered failed =>
    obtain ⟨c, hstop, rfl⟩ := Option.map_eq_some_iff.mp hstep
    exact h.setConn (written_stopWriter hstop)
  | snapshot payload =>
    simp only [fanoutStep] at hstep
    split at hstep
    · rename_i hrelay
      obtain rfl := Option.some.inj hstep
      exact h.snapshot hrelay payload
    · cases hstep
  | put =>
    simp only [fanoutStep] at hstep
    split at hstep
    · rename_i payload clients hrelay
      obtain rfl := Option.some.inj hstep
      exact h.offer hrelay
    · cases hstep
  | disconnectStale client =>
    simp only [fanoutStep] at hstep
    split at hstep
    · rename_i stale stage hrelay
      split at hstep
      · rename_i hstale
        obtain ⟨⟨u, next⟩, hdisconnect, rfl⟩ := Option.map_eq_some_iff.mp hstep
        have hconnected := h.named client (by rwa [hrelay])
        obtain ⟨hu, hsame, hout⟩ := h.disconnectStep hconnected hdisconnect
        exact hu.restage (hsame.trans hrelay) next hout
      · cases hstep
    · cases hstep
  | gathered =>
    simp only [fanoutStep] at hstep
    split at hstep
    · rename_i stale stage hrelay
      split at hstep
      · rename_i hdone
        obtain rfl := Option.some.inj hstep
        exact h.gathered hrelay hdone
      · cases hstep
    · cases hstep
  | disconnect call =>
    simp only [fanoutStep] at hstep
    split at hstep
    · rename_i hconnected
      obtain ⟨⟨u, next⟩, hdisconnect, rfl⟩ := Option.map_eq_some_iff.mp hstep
      obtain ⟨hu, -, -⟩ := h.disconnectStep hconnected hdisconnect
      exact ⟨hu.depth, hu.fresh, hu.named, hu.order⟩
    · cases hstep

/-- Every reachable state meets the invariant. -/
theorem fan_of_reachable (hrun : Reachable (fanoutStep clientOf) .start s) : Fan s :=
  hrun.invariant .start fun h _ hstep => fan_step h hstep

omit [DecidableEq κ] [DecidableEq δ] in
/-- Between two broadcasts no client of the set has missed a payload. -/
theorem Fan.not_missed (h : Fan s) {client : κ} (hrelay : s.relay = .idle)
    (hin : client ∈ s.clients) : (s.conn client).missed = false := by
  obtain ⟨queued, -, -, hposition⟩ := h.order client
  simp only [Fanout.Position, hrelay] at hposition
  exact (hposition hin).1

/-- However connects, disconnects, writers, failing sockets and the relay interleave: what the
socket of a client is sent is a contiguous part of the broadcasts in their order and without
repetition, its queue is bounded, and a client that missed a payload is out of the set when the
relay takes its next snapshot. -/
theorem fanout_in_order (hrun : Reachable (fanoutStep clientOf) .start s) (client : κ) :
    (s.conn client).sent <:+: s.broadcasts ∧
      (s.broadcasts.Nodup → (s.conn client).sent.Nodup) ∧
      (s.conn client).queue.length ≤ queueDepth ∧
      ∀ {payload t}, fanoutStep clientOf s (.snapshot payload) = some t →
        (s.conn client).missed = true → client ∉ s.clients := by
  have hfan := fan_of_reachable hrun
  obtain ⟨queued, hqueued, hinfix, -⟩ := hfan.order client
  have hsent : (s.conn client).sent <:+: s.broadcasts :=
    hqueued.sent_prefix.isInfix.trans hinfix
  refine ⟨hsent, fun hnodup => hnodup.sublist hsent.sublist, hfan.depth client, ?_⟩
  intro payload t hsnapshot hmissed hin
  simp only [fanoutStep] at hsnapshot
  split at hsnapshot
  · rename_i hrelay
    have hkept := hfan.not_missed hrelay hin
    rw [hmissed] at hkept
    cases hkept
  · cases hsnapshot

end Runs

/-- A client is connected for the second and the third payload and sent the second only; its
socket fails with the third. -/
def lateClientLabels : List (OddsLabel Bool Unit Nat) :=
  [.connect false, .snapshot 1, .put, .connect true, .take false, .snapshot 2, .put, .sent false,
    .take true, .sent true, .snapshot 3, .put, .take true, .stop true false true,
    .disconnect (), .disconnect (), .disconnect ()]

theorem fanout_in_order_sample :
    ∃ s : Fanout Bool Unit Nat,
      (s.conn true).sent = [2] ∧ s.broadcasts = [1, 2, 3] ∧ (s.conn true).sent <:+: s.broadcasts := by
  have hexec : (lateClientLabels.foldlM (fanoutStep fun () => true) .start).map
        (fun s => ((s.conn true).sent, s.broadcasts)) = some ([2], [1, 2, 3]) := by
    decide +kernel
  obtain ⟨s, hs, hseen⟩ := Option.map_eq_some_iff.mp hexec
  obtain ⟨hsent, hbroadcasts⟩ := Prod.mk.inj hseen
  exact ⟨s, hsent, hbroadcasts, (fanout_in_order (Reaches.of_foldlM hs) true).1⟩

end Odds
end BettingPlatform
