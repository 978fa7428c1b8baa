import Mathlib.Data.Finset.Basic
import Mathlib.Data.List.Infix

/-!
# The odds fan-out

One relay loop broadcasts the payloads of the odds topic, and every client has a bounded
queue and a writer task that sends from it.  The event loop switches tasks at awaits only, so
a step is what a task does between two of them.  No section under the manager's lock awaits
anything, so the lock is never waited for; a task that has left such a section may still be
overtaken here before it goes on.

A writer may be cancelled or fail in the middle of sending, and then the payload may have got
out or not.  A cancelled writer may go on for some steps.

Main results:

- Theorems `ClientConnection.Wrote.take`, `.finish`, `.stop` and `.put`: what a client's writer
  and the relay do to the payloads that were put into its queue.
-/

namespace BettingPlatform
namespace Odds

/-! ## Clients -/

/-- `_QUEUE_DEPTH`. -/
def queueDepth : Nat := 256

/-- Where the writer task of a client stands. -/
inductive Writer (β : Type)
  /-- In `queue.get()`. -/
  | waiting
  /-- In `send_bytes(payload)`. -/
  | sending (payload : β)
  /-- Cancelled, or ended by the exception of a socket that failed. -/
  | ended (failed : Bool)

/-- A `ClientConnection`, with what its socket has been sent. -/
structure ClientConnection (β : Type) where
  /-- `connect` has returned. -/
  connected : Bool
  queue : List β
  writer : Writer β
  /-- `writer_task.cancel()` has been called. -/
  cancelled : Bool
  sent : List β
  /-- `put_nowait` has raised `QueueFull`. -/
  missed : Bool

variable {β : Type}

/-- A client before `connect`. -/
def ClientConnection.new : ClientConnection β where
  connected := false
  queue := []
  writer := .waiting
  cancelled := false
  sent := []
  missed := false

/-- The queue takes no further payload. -/
def ClientConnection.isFull (c : ClientConnection β) : Bool :=
  queueDepth ≤ c.queue.length

/-- `queue.put_nowait(payload)`. -/
def ClientConnection.put (payload : β) (c : ClientConnection β) : ClientConnection β :=
  if c.isFull then { c with missed := true } else { c with queue := c.queue ++ [payload] }

/-! ## The manager -/

/-- Where a call of `disconnect` stands. -/
inductive DisconnectStage
  /-- About to discard the client. -/
  | discard
  /-- About to cancel the writer task. -/
  | cancel
  /-- Awaiting the writer task. -/
  | awaitWriter
  /-- Closing the socket. -/
  | close
  /-- Returned or raised. -/
  | done
deriving DecidableEq

/-- Where the relay loop stands. -/
inductive Relay (κ β : Type)
  /-- Awaiting the next message. -/
  | idle
  /-- In `broadcast`, with the payload and the clients of the snapshot. -/
  | holding (payload : β) (clients : Finset κ)
  /-- Awaiting the disconnects of the stale clients. -/
  | gathering (stale : Finset κ) (stage : κ → DisconnectStage)

/-- The manager, its clients, the relay, the other calls of `disconnect`, and the payloads
that have been broadcast. -/
structure Fanout (κ δ β : Type) where
  clients : Finset κ
  conn : κ → ClientConnection β
  relay : Relay κ β
  calls : δ → DisconnectStage
  broadcasts : List β

/-- What happens next. -/
inductive OddsLabel (κ δ β : Type)
  /-- `connect` creates a client and adds it. -/
  | connect (client : κ)
  /-- A writer takes a payload from its queue and begins to send it. -/
  | take (client : κ)
  /-- `send_bytes` returns. -/
  | sent (client : κ)
  /-- A writer ends; the payload it was sending has been delivered or not. -/
  | stop (client : κ) (delivered failed : Bool)
  /-- The relay takes the snapshot for the next payload. -/
  | snapshot (payload : β)
  /-- The relay puts its payload into the queues. -/
  | put
  /-- The disconnect of a stale client takes a step. -/
  | disconnectStale (client : κ)
  /-- All disconnects of stale clients are over. -/
  | gathered
  /-- Another call of `disconnect` takes a step. -/
  | disconnect (call : δ)

section Steps

variable {κ δ : Type} [DecidableEq κ] [DecidableEq δ]

/-- The clients with one of them changed. -/
def Fanout.setConn (s : Fanout κ δ β) (client : κ) (c : ClientConnection β) : Fanout κ δ β :=
  { s with conn := Function.update s.conn client c }

/-- One step of `disconnect`.  The exception of a writer that failed comes out of awaiting it,
and the socket is not closed then. -/
def disconnectStep (s : Fanout κ δ β) (client : κ) :
    DisconnectStage → Option (Fanout κ δ β × DisconnectStage)
  | .discard => some ({ s with clients := s.clients.erase client }, .cancel)
  | .cancel =>
      some (s.setConn client { s.conn client with cancelled := true }, .awaitWriter)
  | .awaitWriter => match (s.conn client).writer with
    | .ended failed => some (s, if failed then .done else .close)
    | _ => none
  | .close => some (s, .done)
  | .done => none

/-- `queue.get()` returns, and the writer begins to send. -/
def takePayload (c : ClientConnection β) : Option (ClientConnection β) :=
  match c.writer, c.queue with
  | .waiting, payload :: queue => some { c with queue, writer := .sending payload }
  | _, _ => none

/-- `send_bytes` returns. -/
def finishSending (c : ClientConnection β) : Option (ClientConnection β) :=
  match c.writer with
  | .sending payload => some { c with writer := .waiting, sent := c.sent ++ [payload] }
  | _ => none

/-- A writer ends: it was cancelled, or its socket failed. -/
def stopWriter (c : ClientConnection β) (delivered failed : Bool) : Option (ClientConnection β) :=
  match c.writer with
  | .sending payload =>
      if failed || c.cancelled then
        some { c with
          writer := .ended failed
          sent := if delivered then c.sent ++ [payload] else c.sent }
      else none
  | .waiting => if c.cancelled && !failed then some { c with writer := .ended false } else none
  | .ended _ => none

/-- The clients of the snapshot whose queues are full. -/
def Fanout.stale (s : Fanout κ δ β) (clients : Finset κ) : Finset κ :=
  clients.filter fun client => (s.conn client).isFull

/-- The relay puts its payload into the queues of the snapshot, and goes on to the stale
clients. -/
def Fanout.offer (s : Fanout κ δ β) (payload : β) (clients : Finset κ) : Fanout κ δ β :=
  { s with
    conn := fun client =>
      if client ∈ clients then (s.conn client).put payload else s.conn client
    relay := if s.stale clients = ∅ then .idle
      else .gathering (s.stale clients) fun _ => .discard }

/-- One step; `clientOf` says which client a call of `disconnect` is for. -/
def fanoutStep (clientOf : δ → κ) (s : Fanout κ δ β) : OddsLabel κ δ β → Option (Fanout κ δ β)
  | .connect client =>
      if (s.conn client).connected then none
      else
        some { s.setConn client { s.conn client with connected := true } with
          clients := insert client s.clients }
  | .take client => (takePayload (s.conn client)).map (s.setConn client)
  | .sent client => (finishSending (s.conn client)).map (s.setConn client)
  | .stop client delivered failed =>
      (stopWriter (s.conn client) delivered failed).map (s.setConn client)
  | .snapshot payload => match s.relay with
    | .idle =>
        some { s with
          relay := .holding payload s.clients
          broadcasts := s.broadcasts ++ [payload] }
    | _ => none
  | .put => match s.relay with
    | .holding payload clients => some (s.offer payload clients)
    | _ => none
  | .disconnectStale client => match s.relay with
    | .gathering stale stage =>
        if client ∈ stale then
          (disconnectStep s client (stage client)).map fun (t, next) =>
            { t with relay := .gathering stale (Function.update stage client next) }
        else none
    | _ => none
  | .gathered => match s.relay with
    | .gathering stale stage =>
        if ∀ client ∈ stale, stage client = .done then some { s with relay := .idle } else none
    | _ => none
  | .disconnect call =>
      if (s.conn (clientOf call)).connected then
        (disconnectStep s (clientOf call) (s.calls call)).map fun (t, next) =>
          { t with calls := Function.update s.calls call next }
      else none

/-- Nobody has connected. -/
def Fanout.start : Fanout κ δ β where
  clients := ∅
  conn := fun _ => .new
  relay := .idle
  calls := fun _ => .discard
  broadcasts := []

end Steps

/-! ## The payloads of a client -/

/-- The payloads that were put into the queue are those the socket was sent, the one the
writer holds, and those in the queue; a writer that has ended leaves the rest unsent. -/
def ClientConnection.Wrote (c : ClientConnection β) (queued : List β) : Prop :=
  match c.writer with
  | .waiting => queued = c.sent ++ c.queue
  | .sending payload => queued = c.sent ++ payload :: c.queue
  | .ended _ => c.sent <+: queued

namespace ClientConnection

variable {c c' : ClientConnection β} {queued : List β}

/-- The socket is sent the payloads of the queue in their order. -/
theorem Wrote.sent_prefix (h : c.Wrote queued) : c.sent <+: queued := by
  unfold Wrote at h
  split at h
  · exact ⟨_, h.symm⟩
  · exact ⟨_, h.symm⟩
  · exact h

/-- Taking a payload keeps the payloads accounted for. -/
theorem Wrote.take (h : c.Wrote queued) (htake : takePayload c = some c') : c'.Wrote queued := by
  unfold takePayload at htake
  split at htake
  · rename_i payload queue hwriter hqueue
    obtain rfl := Option.some.inj htake
    simpa [Wrote, hwriter, hqueue] using h
  · contradiction

/-- So does finishing it. -/
theorem Wrote.finish (h : c.Wrote queued) (hfinish : finishSending c = some c') :
    c'.Wrote queued := by
  unfold finishSending at hfinish
  split at hfinish
  · rename_i payload hwriter
    obtain rfl := Option.some.inj hfinish
    simpa [Wrote, hwriter] using h
  · contradiction

/-- So does the end of the writer. -/
theorem Wrote.stop {delivered failed : Bool} (h : c.Wrote queued)
    (hstop : stopWriter c delivered failed = some c') : c'.Wrote queued := by
  unfold stopWriter at hstop
  split at hstop
  · rename_i payload hwriter
    split at hstop
    · obtain rfl := Option.some.inj hstop
      have hqueued : queued = c.sent ++ payload :: c.queue := by simpa [Wrote, hwriter] using h
      cases delivered with
      | true => exact ⟨c.queue, by simp [hqueued]⟩
      | false => exact ⟨payload :: c.queue, by simp [hqueued]⟩
    · contradiction
  · split at hstop
    · obtain rfl := Option.some.inj hstop
      exact h.sent_prefix
    · contradiction
  · contradiction

/-- A payload goes to the end of a queue that has room. -/
theorem Wrote.put {payload : β} (h : c.Wrote queued) (hroom : c.isFull = false) :
    (c.put payload).Wrote (queued ++ [payload]) := by
  unfold Wrote at h ⊢
  simp only [ClientConnection.put, hroom, Bool.false_eq_true, if_false]
  split at h
  · rw [h, List.append_assoc]
  · rw [h, List.append_assoc, List.cons_append]
  · exact h.trans (List.prefix_append queued [payload])

end ClientConnection

end Odds
end BettingPlatform
