import Reflectdb.Lib.Machine
import Reflectdb.Presence.Service

/-!
# Presence client — one publish in flight a channel, one queued behind it, and clears beside them

A clear does not wait for the publish in flight, and the two may reach the service in either order.
A publish that the service refuses for its minimum interval is not sent again.
-/

namespace Reflectdb
namespace Presence

open Lib

variable {δ : Type}

/-! ## Client -/

/-- What a channel publishes. -/
structure Entry (δ : Type) where
  data : δ
  ttlMs : Option ℚ

structure PresenceClientConfig (δ : Type) where
  room : Name
  clientId : Name
  identity : Option δ
  ttlMs : Option ℚ

/-- A request for one channel. -/
inductive ChannelRequest (δ : Type)
  | publish (channel : Name) (data : δ) (ttlMs : Option ℚ)
  | leave (channel : Name)

def ChannelRequest.channel : ChannelRequest δ → Name
  | .publish channel _ _ | .leave channel => channel

def ChannelRequest.isPublish : ChannelRequest δ → Bool
  | .publish .. => true
  | .leave _ => false

/-- Maps by channel, and the set of the channels whose publish is in flight. -/
structure PresenceClient (δ : Type) where
  closed : Bool
  published : Name → Option (Entry δ)
  inFlight : Name → Bool
  queued : Name → Option (Entry δ)

namespace PresenceClient

variable (config : PresenceClientConfig δ) (m : PresenceClient δ)

/-- The client afterwards, and the request that it posts. -/
def send (channel : Name) (entry : Entry δ) : PresenceClient δ × Option (ChannelRequest δ) :=
  if m.closed then (m, none)
  else if m.inFlight channel then
    ({ m with queued := Function.update m.queued channel (some entry) }, none)
  else
    ({ m with inFlight := Function.update m.inFlight channel true },
      some (.publish channel entry.data (entry.ttlMs <|> config.ttlMs)))

def publish (channel : Name) (entry : Entry δ) : PresenceClient δ × Option (ChannelRequest δ) :=
  send config { m with published := Function.update m.published channel (some entry) } channel entry

def clear (channel : Name) : PresenceClient δ × Option (ChannelRequest δ) :=
  let m :=
    { m with
      published := Function.update m.published channel none
      queued := Function.update m.queued channel none }
  if m.closed then (m, none) else (m, some (.leave channel))

/-- A welcome, or a page that is shown again, sends what is published. -/
def replay (channel : Name) : PresenceClient δ × Option (ChannelRequest δ) :=
  match m.published channel with
  | none => (m, none)
  | some entry => send config m channel entry

/-- The answer of a publish; no status for a request that failed on the way. -/
def answered (channel : Name) (status : Option Nat) :
    PresenceClient δ × Option (ChannelRequest δ) :=
  let m := { m with inFlight := Function.update m.inFlight channel false }
  -- `fail` acts on the client for an unknown key only; a 429 is ignored
  let m := if status = some 401 ∨ status = some 403 then { m with closed := true } else m
  match m.queued channel with
  | none => (m, none)
  | some next =>
    send config { m with queued := Function.update m.queued channel none } channel next

end PresenceClient

/-! ## Requests on their way -/

inductive Progress
  | sent
  | served (status : Option Nat)
  | settled (status : Option Nat)
  deriving DecidableEq

structure Posted (δ : Type) where
  request : ChannelRequest δ
  progress : Progress

/-- A request that the service has taken; `deadline` is that of the entry it writes. -/
structure Arrival (δ : Type) where
  index : Nat
  request : ChannelRequest δ
  status : Nat
  deadline : Int

/-- The last call of a channel: what it published, or nothing for a clear, and how many requests had
been posted before. -/
structure LastCall (δ : Type) where
  entry : Option (Entry δ)
  since : Nat

/-- A client and the service, with the requests in the order in which they were posted, and the
arrivals, the newest first. -/
structure Link (δ : Type) where
  client : PresenceClient δ
  backend : Backend δ
  now : Int
  posted : List (Posted δ)
  arrivals : List (Arrival δ)
  lastCall : Name → Option (LastCall δ)

/-- Calls and requests of the client, and what others do to the store. -/
inductive LinkEvent (δ : Type)
  | publish (channel : Name) (entry : Entry δ)
  | clear (channel : Name)
  | replay (channel : Name)
  | arrive (index : Nat) (t : Int)
  | fail (index : Nat) (status : Option Nat)
  | settle (index : Nat)
  | otherWrite (request : WriteRequest δ) (t : Int)
  | otherRemove (projectId room clientId : Name) (channel : Option Name)
  | sweep (limit : Nat) (picked : List EntryKey) (t : Int)

section Link

variable (config : PresenceClientConfig δ) (project : Project)

def keyOf (channel : Name) : EntryKey where
  projectId := project.projectId
  room := config.room
  channel := channel
  clientId := config.clientId

/-- The request of another client, or to another room. -/
def isOther (projectId room clientId : Name) : Bool :=
  !(projectId = project.projectId && room = config.room && clientId = config.clientId)

/-- What `publish` and `leave` of the service make of a request. -/
def serve (b : Backend δ) (request : ChannelRequest δ) (t : Int) : Nat × Backend δ :=
  match request with
  | .publish channel data ttlMs =>
    project.publish b ⟨config.room, channel, config.clientId, data, config.identity, ttlMs⟩ t
  | .leave channel => project.leave b ⟨config.room, config.clientId, some channel⟩

def deadlineOf (b : Backend δ) (request : ChannelRequest δ) (t : Int) : Int :=
  match request with
  | .publish _ _ ttlMs => t + b.lifetime (project.ttlOf ttlMs)
  | .leave _ => t

namespace Link

variable (s : Link δ)

/-- After something of the client's that may post a request. -/
def after (next : PresenceClient δ × Option (ChannelRequest δ)) : Link δ :=
  { s with
    client := next.1
    posted := s.posted ++ next.2.toList.map fun request => ⟨request, .sent⟩ }

def called (channel : Name) (entry : Option (Entry δ)) : Link δ :=
  { s with lastCall := Function.update s.lastCall channel (some ⟨entry, s.posted.length⟩) }

def setProgress (index : Nat) (progress : Progress) : Link δ :=
  { s with posted := s.posted.modify index fun p => { p with progress := progress } }

def arrive (index : Nat) (t : Int) : Option (Link δ) :=
  match s.posted[index]? with
  | some ⟨request, .sent⟩ =>
    let served := serve config project s.backend request t
    some
      { s.setProgress index (.served (some served.1)) with
        backend := served.2
        now := t
        arrivals :=
          ⟨index, request, served.1, deadlineOf project s.backend request t⟩ :: s.arrivals }
  | _ => none

/-- A request that is lost, or fails before it reaches the store, or whose answer is lost. -/
def fail (index : Nat) (status : Option Nat) : Option (Link δ) :=
  match s.posted[index]? with
  | some ⟨_, .sent⟩ | some ⟨_, .served _⟩ =>
    if status = some 200 ∨ status = some 429 then none
    else some (s.setProgress index (.served status))
  | _ => none

def settle (index : Nat) : Option (Link δ) :=
  match s.posted[index]? with
  | some ⟨request, .served status⟩ =>
    let settled := s.setProgress index (.settled status)
    match request with
    | .publish channel _ _ => some (settled.after (s.client.answered config channel status))
    | .leave _ => some settled
  | _ => none

def step : LinkEvent δ → Option (Link δ)
  | .publish channel entry =>
    some ((s.called channel (some entry)).after (s.client.publish config channel entry))
  | .clear channel => some ((s.called channel none).after (s.client.clear channel))
  | .replay channel => some (s.after (s.client.replay config channel))
  | .arrive index t => if s.now ≤ t then s.arrive config project index t else none
  | .fail index status => s.fail index status
  | .settle index => s.settle config index
  | .otherWrite request t =>
    if s.now ≤ t ∧ isOther config project request.projectId request.room request.clientId then
      some { s with backend := (s.backend.write request t).2, now := t }
    else none
  | .otherRemove projectId room clientId channel =>
    if isOther config project projectId room clientId then
      some { s with backend := s.backend.remove projectId room clientId channel }
    else none
  | .sweep limit picked t =>
    if s.now ≤ t then
      (s.backend.sweep limit picked t).map fun backend => { s with backend := backend, now := t }
    else none

end Link

/-- The client starts open with empty maps, over a store that may hold anything. -/
def linkMachine (backend : Backend δ) (start : Int) : Machine (Link δ) (LinkEvent δ) where
  init :=
    { client := ⟨false, fun _ => none, fun _ => false, fun _ => none⟩
      backend := backend
      now := start
      posted := []
      arrivals := []
      lastCall := fun _ => none }
  step s e := s.step config project e

end Link

end Presence
end Reflectdb
