import Reflectdb.Transport.Sends

/-!
# SSE transport — streams that break, and a bounded buffer from which they are made good

Every frame for a client is numbered, enqueued on the controller of its stream if there is one, and
buffered.  A client that comes back names the last frame it has received, and gets from the buffer
what follows it; one that has received none names none and gets nothing.
-/

namespace Reflectdb
namespace Transport
namespace Sse

open Lib

/-- `id: …`, `data: …`. -/
structure Frame (M : Type) where
  id : Nat
  data : M

structure Entry (M : Type) where
  id : Nat
  encoded : Frame M
  delivered : Bool

/-- What the maps of the transport hold for one client, and its controllers by number: on each, the
frames that have been enqueued and have not arrived. -/
structure Peer (M : Type) where
  controllers : Option Nat
  buffers : List (Entry M)
  counters : Nat
  connected : Bool
  collecting : Option (List M)
  queues : Nat → List (Frame M)

variable {M : Type}

def encode (id : Nat) (message : M) : Frame M :=
  ⟨id, message⟩

/-- Drops the oldest entries of a buffer that is too long; says whether one was dropped that had
never been enqueued. -/
def evict (replayBufferSize : Nat) (buf : List (Entry M)) : List (Entry M) × Bool :=
  shiftTo replayBufferSize (fun dropped => !dropped.delivered) buf

def Entry.after (lastId : Nat) (entry : Entry M) : Bool :=
  decide (lastId < entry.id)

def Entry.replay (lastId : Nat) (entry : Entry M) : Entry M :=
  if entry.after lastId then { entry with delivered := true } else entry

namespace Peer

def buffer (replayBufferSize : Nat) (p : Peer M) (id : Nat) (encoded : Frame M)
    (delivered : Bool) : Peer M × Bool :=
  let (kept, lostUndelivered) := evict replayBufferSize (p.buffers ++ [⟨id, encoded, delivered⟩])
  ({ p with buffers := kept }, lostUndelivered)

def enqueue (p : Peer M) (controller : Nat) (frames : List (Frame M)) : Peer M :=
  { p with queues := Function.update p.queues controller (p.queues controller ++ frames) }

/-- Enqueues a frame if there is a controller, and says whether that has been done and what it has
thrown: `thrown` is what the controller would throw. -/
def tryEnqueue (p : Peer M) (thrown : Option String) (encoded : Frame M) :
    Peer M × Bool × Option String :=
  match p.controllers, thrown with
  | none, _ => (p, false, none)
  | some controller, none => (p.enqueue controller [encoded], true, none)
  | some _, some err => (p, false, some err)

def send (replayBufferSize : Nat) (clientId : String) (p : Peer M) (thrown : Option String)
    (message : M) : Peer M × Option TransportSendError :=
  match p.collecting with
  | some sink => ({ p with collecting := some (sink ++ [message]) }, none)
  | none =>
    let id := p.counters + 1
    let encoded := encode id message
    let (p, delivered, sendError) := { p with counters := id }.tryEnqueue thrown encoded
    let (p, lostUndelivered) := p.buffer replayBufferSize id encoded delivered
    match sendError with
    | some err => (p, some ⟨clientId, "sse enqueue failed: " ++ err⟩)
    | none =>
      if lostUndelivered then
        (p, some ⟨clientId, "sse replay buffer overflow (size " ++ toString replayBufferSize ++
          "); undelivered frames dropped"⟩)
      else (p, none)

def handleSubscribe (p : Peer M) (controller : Nat) (lastEventId : Option Nat) : Peer M :=
  let p := { p with controllers := some controller }
  let p := match lastEventId with
    | none => p
    | some lastId =>
      let missed := p.buffers.filter (Entry.after lastId)
      { p.enqueue controller (missed.map Entry.encoded) with
        buffers := p.buffers.map (Entry.replay lastId) }
  { p with connected := true }

def handleDisconnect (p : Peer M) : Peer M :=
  { p with controllers := none, connected := false }

/-- The controller is closed, so that its stream ends behind what has been enqueued. -/
def disconnect (p : Peer M) : Peer M :=
  { p with controllers := none, buffers := [], counters := 0 }

end Peer

/-! ## The client at the other end -/

/-- A request for a stream carries the number of the last frame that the client has received. -/
structure Request where
  lastEventId : Option Nat
  /-- How many messages had been sent when it was handled. -/
  handledAt : Option Nat

/-- The requests are numbered from 1 on.  The client reads the stream of its latest one only. -/
structure Link (M : Type) where
  peer : Peer (Sent M)
  requests : Nat → Request
  opened : Nat
  received : List (Frame (Sent M))
  sends : Sends

inductive LinkEvent (M : Type)
  | send (thrown : Option String) (message : M)
  /-- The client gives up its stream and asks for another one. -/
  | request
  /-- A request reaches the server. -/
  | subscribe (i : Nat)
  /-- The next frame of the stream that the client reads. -/
  | arrive
  /-- The server sees a stream end, be it this client's latest one or not. -/
  | handleDisconnect
  | disconnect

namespace Link

def send (replayBufferSize : Nat) (clientId : String) (l : Link M) (thrown : Option String)
    (message : M) : Link M :=
  let (peer, error) := l.peer.send replayBufferSize clientId thrown ⟨l.sends.sent, message⟩
  { l with peer, sends := l.sends.record error }

def request (l : Link M) : Link M :=
  { l with
    requests :=
      Function.update l.requests (l.opened + 1) ⟨l.received.getLast?.map Frame.id, none⟩
    opened := l.opened + 1 }

def subscribe (l : Link M) (i : Nat) : Link M :=
  { l with
    peer := l.peer.handleSubscribe i (l.requests i).lastEventId
    requests :=
      Function.update l.requests i { l.requests i with handledAt := some l.sends.sent } }

def arrive (l : Link M) (frame : Frame (Sent M)) (rest : List (Frame (Sent M))) : Link M :=
  { l with
    peer := { l.peer with queues := Function.update l.peer.queues l.opened rest }
    received := l.received ++ [frame] }

def step (replayBufferSize : Nat) (clientId : String) (l : Link M) :
    LinkEvent M → Option (Link M)
  | .send thrown message => some (l.send replayBufferSize clientId thrown message)
  | .request => some l.request
  | .subscribe i =>
    if 0 < i ∧ i ≤ l.opened ∧ (l.requests i).handledAt = none then some (l.subscribe i) else none
  | .arrive =>
    match l.peer.queues l.opened with
    | [] => none
    | frame :: rest => some (l.arrive frame rest)
  | .handleDisconnect => some { l with peer := l.peer.handleDisconnect }
  | .disconnect => some { l with peer := l.peer.disconnect }

def start : Link M where
  peer :=
    { controllers := none
      buffers := []
      counters := 0
      connected := false
      collecting := none
      queues := fun _ => [] }
  requests := fun _ => ⟨none, none⟩
  opened := 0
  received := []
  sends := .empty

end Link

/-- The transport and one of its clients. -/
def linkMachine (M : Type) (replayBufferSize : Nat) (clientId : String) :
    Machine (Link M) (LinkEvent M) where
  init := .start
  step := Link.step replayBufferSize clientId

/-- The transport and all of its clients. -/
def machine (M : Type) (replayBufferSize : Nat) :
    Machine (String → Link M) (String × LinkEvent M) :=
  Machine.keyed (linkMachine M replayBufferSize)

/-! ## The contract -/

def Frame.serial (frame : Frame (Sent M)) : Nat :=
  frame.data.serial

def Entry.serial (entry : Entry (Sent M)) : Nat :=
  entry.encoded.serial

variable (startsOver : M → Bool)

/-- The resolved sends, oldest first, but for those before a message to start over. -/
def Link.owed (l : Link M) : List Nat :=
  l.sends.owed startsOver (l.received.map Frame.data)

/-- What the client has received, and what is still to arrive on the stream that it reads. -/
def Link.arriving (l : Link M) : List Nat :=
  (l.received ++ l.peer.queues l.opened).map Frame.serial

structure Contract (l : Link M) : Prop where
  /-- Nothing that is owed arrives twice, out of its order or after something later. -/
  order : InOrder (l.owed startsOver) l.arriving
  /-- Once a client is back, everything that was owed to it then arrives. -/
  back : ∀ k, (l.requests l.opened).handledAt = some k → ∀ n ∈ l.owed startsOver, n < k →
    n ∈ l.arriving
  /-- What is owed and does not arrive yet has not been dropped. -/
  kept : ∀ n ∈ l.owed startsOver, n ∈ l.arriving ∨ ∃ entry ∈ l.peer.buffers, entry.serial = n

/-- The message is owed, and nothing but the buffer has it. -/
def Link.Waits (l : Link M) (n : Nat) : Prop :=
  n ∈ l.owed startsOver ∧ n ∉ l.arriving

/-- The buffer drops nothing that waits: neither because it is too long, nor, if it has no room at
all, what goes out on a stream that the client has left. -/
def Link.SendKeeps (replayBufferSize : Nat) (l : Link M) (thrown : Option String) : Prop :=
  (∀ entry ∈ l.peer.buffers.take (l.peer.buffers.length + 1 - replayBufferSize),
      ¬ l.Waits startsOver entry.serial) ∧
    (replayBufferSize = 0 → thrown = none → ∀ i, l.peer.controllers = some i → i = l.opened)

/-- A client leaves a stream only if what is to arrive there is in the buffer; it comes back with
the number of a frame before all those that wait; and its buffer is deleted only if none waits. -/
def KeepsOwed (replayBufferSize : Nat) (l : Link M) : LinkEvent M → Prop
  | .send thrown _ => l.SendKeeps startsOver replayBufferSize thrown
  | .request => ∀ frame ∈ l.peer.queues l.opened, frame.serial ∈ l.owed startsOver →
      ∃ entry ∈ l.peer.buffers, entry.serial = frame.serial
  | .subscribe i => i = l.opened → ∀ entry ∈ l.peer.buffers, l.Waits startsOver entry.serial →
      ∃ lastId, (l.requests i).lastEventId = some lastId ∧ lastId < entry.id
  | .arrive => True
  | .handleDisconnect => True
  | .disconnect => ∀ entry ∈ l.peer.buffers, ¬ l.Waits startsOver entry.serial

end Sse
end Transport
end Reflectdb
