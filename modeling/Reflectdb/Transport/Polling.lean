import Reflectdb.Transport.Sends

/-!
# Polling transport — a bounded queue for each client

A message for a client is queued until a poll takes all that is queued.  A message that finds the
queue full is queued as well, and the oldest one is dropped; the queue of a client that is put out,
or has not polled for long, is deleted.
-/

namespace Reflectdb
namespace Transport
namespace Polling

open Lib

/-- What the maps of the transport hold for one client. -/
structure Peer (M : Type) where
  queues : Option (List M)
  lastPoll : Option Int

variable {M : Type}

/-- Says `true` unless a message had to be dropped. -/
def enqueue (maxQueueLen : Nat) (queue : List M) (message : M) : List M × Bool :=
  let (queue, dropped) := shiftTo maxQueueLen (fun _ => true) (queue ++ [message])
  (queue, !dropped)

namespace Peer

def handleConnect (p : Peer M) (now : Int) : Peer M where
  queues := some (p.queues.getD [])
  lastPoll := some now

def handleMessage (p : Peer M) (now : Int) : Peer M :=
  { p with lastPoll := some now }

def handleDisconnect (_ : Peer M) : Peer M where
  queues := none
  lastPoll := none

def handlePoll (p : Peer M) (now : Int) : Peer M × List M :=
  let p := { p with lastPoll := some now }
  match p.queues with
  | none => (p, [])
  | some queue => ({ p with queues := some [] }, queue)

def send (maxQueueLen : Nat) (clientId : String) (p : Peer M) (message : M) :
    Peer M × Option TransportSendError :=
  match p.queues with
  | none => (p, some ⟨clientId, "no queue registered for client"⟩)
  | some queue =>
    let (queue, kept) := enqueue maxQueueLen queue message
    ({ p with queues := some queue },
      if kept then none
      else some ⟨clientId, "polling queue overflow (max " ++ toString maxQueueLen ++
        "); oldest message dropped undelivered"⟩)

def disconnect (_ : Peer M) : Peer M where
  queues := none
  lastPoll := none

/-- The client has not polled or sent anything for too long. -/
def idle (idleTimeoutMs : Int) (p : Peer M) (now : Int) : Bool :=
  p.lastPoll.any fun last => decide (idleTimeoutMs < now - last)

def reap (idleTimeoutMs : Int) (p : Peer M) (now : Int) : Peer M :=
  if p.idle idleTimeoutMs now then ⟨none, none⟩ else p

end Peer

/-! ## The client at the other end -/

/-- The responses are those that the client has not received yet, oldest first. -/
structure Link (M : Type) where
  peer : Peer (Sent M)
  responses : List (List (Sent M))
  received : List (Sent M)
  sends : Sends
  /-- How many messages had been sent at the last poll. -/
  polledAt : Nat

inductive LinkEvent (M : Type)
  | connect (now : Int)
  | message (now : Int)
  | send (message : M)
  | poll (now : Int)
  /-- The `i`th response arrives: a client does not wait for the answer to its last poll. -/
  | arrive (i : Nat)
  | reap (now : Int)
  | handleDisconnect
  | disconnect

namespace Link

def send (maxQueueLen : Nat) (clientId : String) (l : Link M) (message : M) : Link M :=
  let (peer, error) := l.peer.send maxQueueLen clientId ⟨l.sends.sent, message⟩
  { l with peer, sends := l.sends.record error }

def poll (l : Link M) (now : Int) : Link M :=
  let (peer, response) := l.peer.handlePoll now
  { l with peer, responses := l.responses ++ [response], polledAt := l.sends.sent }

def arrive (l : Link M) (i : Nat) (response : List (Sent M)) : Link M :=
  { l with responses := l.responses.eraseIdx i, received := l.received ++ response }

def step (maxQueueLen : Nat) (idleTimeoutMs : Int) (clientId : String) (l : Link M) :
    LinkEvent M → Option (Link M)
  | .connect now => some { l with peer := l.peer.handleConnect now }
  | .message now => some { l with peer := l.peer.handleMessage now }
  | .send message => some (l.send maxQueueLen clientId message)
  | .poll now => some (l.poll now)
  | .arrive i => l.responses[i]?.map fun response => l.arrive i response
  | .reap now => some { l with peer := l.peer.reap idleTimeoutMs now }
  | .handleDisconnect => some { l with peer := l.peer.handleDisconnect }
  | .disconnect => some { l with peer := l.peer.disconnect }

def start : Link M where
  peer := ⟨none, none⟩
  responses := []
  received := []
  sends := .empty
  polledAt := 0

end Link

/-- The transport and one of its clients. -/
def linkMachine (M : Type) (maxQueueLen : Nat) (idleTimeoutMs : Int) (clientId : String) :
    Machine (Link M) (LinkEvent M) where
  init := .start
  step := Link.step maxQueueLen idleTimeoutMs clientId

/-- The transport and all of its clients. -/
def machine (M : Type) (maxQueueLen : Nat) (idleTimeoutMs : Int) :
    Machine (String → Link M) (String × LinkEvent M) :=
  Machine.keyed (linkMachine M maxQueueLen idleTimeoutMs)

/-! ## The contract -/

variable (startsOver : M → Bool)

/-- The resolved sends, oldest first, but for those before a message to start over. -/
def Link.owed (l : Link M) : List Nat :=
  l.sends.owed startsOver l.received

/-- What the client has received, and what is on its way in answer to a poll. -/
def Link.arriving (l : Link M) : List Nat :=
  (l.received ++ l.responses.flatten).map Sent.serial

def Link.queued (l : Link M) : List Nat :=
  (l.peer.queues.getD []).map Sent.serial

structure Contract (l : Link M) : Prop where
  /-- Nothing that is owed arrives twice, out of its order or after something later. -/
  order : InOrder (l.owed startsOver) l.arriving
  /-- Once a client has polled, everything that was owed to it then arrives. -/
  back : ∀ n ∈ l.owed startsOver, n < l.polledAt → n ∈ l.arriving
  /-- What is owed and does not arrive yet has not been dropped. -/
  kept : ∀ n ∈ l.owed startsOver, n ∈ l.arriving ∨ n ∈ l.queued

/-- Nothing that is owed is queued. -/
def Link.Drained (l : Link M) : Prop :=
  ∀ n ∈ l.queued, n ∉ l.owed startsOver

/-- A full queue drops nothing that is owed; a queue is deleted only if it has nothing that is owed;
and of two responses that arrive in the other order one has nothing that is still owed then. -/
def KeepsOwed (maxQueueLen : Nat) (idleTimeoutMs : Int) (l : Link M) : LinkEvent M → Prop
  | .connect _ => True
  | .message _ => True
  | .send _ => ∀ n ∈ l.queued.take (l.queued.length + 1 - maxQueueLen), n ∉ l.owed startsOver
  | .poll _ => True
  | .arrive i => ∀ response, l.responses[i]? = some response →
      ∀ a ∈ (l.responses.take i).flatten, ∀ b ∈ response,
        a.serial ∈ (l.arrive i response).owed startsOver →
          b.serial ∉ (l.arrive i response).owed startsOver
  | .reap now => l.peer.idle idleTimeoutMs now = true → l.Drained startsOver
  | .handleDisconnect => l.Drained startsOver
  | .disconnect => l.Drained startsOver

end Polling
end Transport
end Reflectdb
