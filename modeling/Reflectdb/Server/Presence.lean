import Reflectdb.Server.Sessions

/-!
# Presence — ephemeral events, signals and presence snapshots

Any number of instances with one handler each.  An ephemeral event goes to the subscribers of the
sender's queries in the sender's rooms, a signal to one of them, and a client that subscribes in a
room gets the room's entries one by one.  A handler awaits in between, so that other clients'
messages and the connects and disconnects of its own come in.
-/

namespace Reflectdb
namespace Server

open Core Client Lib

/-! ## The stores -/

inductive EphemeralAdapter
  | memory
  | redis
  | postgres

/-- Where the entries of a room's channel are.  Redis has both names in the name of a hash. -/
def EphemeralAdapter.slot : EphemeralAdapter → String → String → List String
  | .redis, room, key => [room ++ ":" ++ key]
  | _, room, key => [room, key]

/-- The store and the bus are those of all instances. -/
def EphemeralAdapter.shared : EphemeralAdapter → Bool
  | .memory => false
  | _ => true

def EphemeralAdapter.storeOf (adapter : EphemeralAdapter) (i : Nat) : Nat :=
  if adapter.shared then 0 else i

structure EphemeralState where
  clientId : String
  userId : String
  key : String
  data : Record Json

/-- An entry, and the room that it was set in. -/
structure PresenceEntry where
  room : String
  state : EphemeralState

structure EphemeralStore where
  entries : List PresenceEntry
  /-- The channels that are listed for a room. -/
  roomKeys : String → List String
  /-- The rooms and channels that were ever set.  No step reads them. -/
  channels : List (String × String)

namespace EphemeralStore

variable (adapter : EphemeralAdapter) (store : EphemeralStore)

def empty : EphemeralStore :=
  ⟨[], fun _ => [], []⟩

def inSlot (room key : String) (entry : PresenceEntry) : Bool :=
  adapter.slot entry.room entry.state.key = adapter.slot room key

def set (room : String) (state : EphemeralState) : EphemeralStore where
  entries := store.entries.filter (fun entry =>
    !(inSlot adapter room state.key entry && entry.state.clientId = state.clientId)) ++
      [⟨room, state⟩]
  roomKeys r := if r = room then addLast (store.roomKeys r) state.key else store.roomKeys r
  channels := (room, state.key) :: store.channels

/-- The last entry of a channel takes the channel off the room's list. -/
def removeEntry (room key clientId : String) : EphemeralStore :=
  let entries := store.entries.filter fun entry =>
    !(inSlot adapter room key entry && entry.state.clientId = clientId)
  { store with
    entries := entries
    roomKeys := fun r =>
      if r = room ∧ ¬ entries.any (inSlot adapter room key) then without (store.roomKeys r) key
      else store.roomKeys r }

/-- A hash or a set of Redis expires. -/
def expireHash (room key : String) : EphemeralStore :=
  { store with entries := store.entries.filter fun entry => !inSlot adapter room key entry }

def expireRoomKeys (room : String) : EphemeralStore :=
  { store with roomKeys := fun r => if r = room then [] else store.roomKeys r }

/-- One channel of `getRoom`. -/
def readChannel (room key : String) : List PresenceEntry :=
  store.entries.filter (inSlot adapter room key)

end EphemeralStore

/-! ## Recipients -/

/-- The subscribers of `query` in `room`. -/
structure EphemeralTarget where
  query : String
  room : Option String

/-- An event as it crosses the bus. -/
structure EphemeralBroadcast where
  serverId : Nat
  state : EphemeralState
  targets : List EphemeralTarget
  /-- The one recipient of a signal. -/
  to_ : Option String
  /-- What the sender was subscribed to.  No step reads it. -/
  sender : Record Subscription

def roomOf (subscriptions : Record Subscription) (query : String) : Option String :=
  (subscriptions.lookup query).bind (·.roomKey)

/-- One subscriber of one target: `none` is the sender of a bus event, which is not excluded. -/
def addRecipient (target : EphemeralTarget) (exclude : Option String) (recipients : List Session)
    (sub : Session) : List Session :=
  if roomOf sub.subscriptions target.query ≠ target.room then recipients
  else if exclude = some sub.clientId ∨ sub.clientId ∈ recipients.map (·.clientId) then recipients
  else recipients ++ [sub]

def fanOutEphemeral (m : SessionManager) (targets : List EphemeralTarget)
    (exclude : Option String) : List Session :=
  targets.foldl (fun recipients target =>
    (m.getSubscribersForQuery target.query target.room).foldl (addRecipient target exclude)
      recipients) []

/-- The recipient of a signal shares one of the sender's targets. -/
def inAudience (targets : List EphemeralTarget) (recipient : Session) : Bool :=
  targets.any fun target =>
    (recipient.subscriptions.lookup target.query).any fun sub => sub.roomKey = target.room

/-! ## Messages -/

inductive PresenceMessage
  /-- The room is what `resolveRoomKey` makes of the params. -/
  | syncDeclare (query : String) (params : Record Json) (roomKey : Option String)
      (window : Option Int)
  | unsync (query : String)
  | ephemeral (key : String) (data : Record Json)
  | signal (to_ : String) (data : Record Json)

/-- Where the handling of a message stands. -/
inductive MessagePhase
  | queued
  /-- The room's callback and `authorize` are awaited. -/
  | subscribing (query : String) (params : Record Json) (roomKey : Option String)
      (window : Option Int)
  | readingRoom (query room : String)
  | readingKeys (query room : String) (keys : List String) (read : List PresenceEntry)
  | sending (query room : String) (entries : List PresenceEntry)
  /-- The entry goes into the rooms of the session that the client had; the queries are those that
  it was subscribed to. -/
  | setting (connection : Nat) (state : EphemeralState) (rooms queryNames : List String)
  | publishing (event : EphemeralBroadcast)
  | done

structure MessageJob where
  instance_ : Nat
  clientId : String
  message : PresenceMessage
  /-- The client's connection that the message came over. -/
  connection : Nat
  /-- The client's queue that it is in; a disconnect starts another one. -/
  queue : Nat
  phase : MessagePhase

def MessagePhase.isDone : MessagePhase → Bool
  | .done => true
  | _ => false

def MessagePhase.underway : MessagePhase → Bool
  | .queued => false
  | .done => false
  | _ => true

abbrev MessageJob.client (job : MessageJob) : Nat × String :=
  (job.instance_, job.clientId)

def MessageJob.sameQueue (job other : MessageJob) : Bool :=
  decide (other.client = job.client) && decide (other.queue = job.queue)

/-! ## Deliveries -/

inductive Sent
  /-- With what the sender was subscribed to. -/
  | ephemeral (sender : Record Subscription) (state : EphemeralState)
  | signal (sender : Record Subscription) (to_ : String) (state : EphemeralState)
  /-- An entry of a presence snapshot. -/
  | presence (entry : PresenceEntry)

structure Delivery where
  clientId : String
  /-- What the client is subscribed to when it is sent. -/
  subscriptions : Record Subscription
  content : Sent

def Shares (sender recipient : Record Subscription) : Prop :=
  ∃ query sub sub', sender.lookup query = some sub ∧ recipient.lookup query = some sub' ∧
    sub'.roomKey = sub.roomKey

def SubscribedIn (subscriptions : Record Subscription) (room : String) : Prop :=
  ∃ query sub, subscriptions.lookup query = some sub ∧ sub.roomKey = some room

def Delivery.Allowed (d : Delivery) : Prop :=
  match d.content with
  | .ephemeral sender _ => Shares sender d.subscriptions
  | .signal sender to_ _ => d.clientId = to_ ∧ Shares sender d.subscriptions
  | .presence entry => SubscribedIn d.subscriptions entry.room

/-! ## The machine -/

structure PresenceState where
  managers : Nat → SessionManager
  /-- How often a client has connected to an instance, and has left it. -/
  connections : Nat × String → Nat
  queues : Nat × String → Nat
  /-- The subscriptions of the session of a client's n-th connection, be it live or not. -/
  held : (Nat × String) × Nat → Record Subscription
  stores : Nat → EphemeralStore
  bus : List EphemeralBroadcast
  jobs : List MessageJob
  deliveries : List Delivery

inductive PresenceEvent
  | connect (i : Nat) (clientId : String) (now : Nat)
  | disconnect (i : Nat) (clientId : String)
  | setAuth (i : Nat) (clientId : String) (auth : AuthContext)
  | receive (i : Nat) (clientId : String) (message : PresenceMessage)
  /-- A message is handled up to its next await. -/
  | advance (job : Nat)
  /-- A check, a limit or a failed call ends the handling. -/
  | giveUp (job : Nat)
  | deliverRemote (i event : Nat)
  | removeEntry (i : Nat) (room key clientId : String)
  | expireHash (i : Nat) (room key : String)
  | expireRoomKeys (i : Nat) (room : String)

namespace PresenceState

variable (adapter : EphemeralAdapter) (s : PresenceState)

def start : PresenceState :=
  ⟨fun _ => .empty, fun _ => 0, fun _ => 0, fun _ => ∅, fun _ => .empty, [], [], []⟩

def session (client : Nat × String) : Option Session :=
  (s.managers client.1).sessions client.2

/-- The instance's sessions change, of which one is the client's. -/
def setManager (client : Nat × String) (m : SessionManager) : PresenceState :=
  { s with
    managers := Function.update s.managers client.1 m
    held := match m.sessions client.2 with
      | some session =>
        Function.update s.held (client, s.connections client) session.subscriptions
      | none => s.held }

def setStore (i : Nat) (store : EphemeralStore) : PresenceState :=
  { s with stores := Function.update s.stores (adapter.storeOf i) store }

def setPhase (j : Nat) (job : MessageJob) (phase : MessagePhase) : PresenceState :=
  { s with jobs := s.jobs.set j { job with phase := phase } }

def deliver (recipients : List Session) (content : Sent) : PresenceState :=
  { s with
    deliveries := s.deliveries ++ recipients.map fun r => ⟨r.clientId, r.subscriptions, content⟩ }

def connect (client : Nat × String) (now : Nat) : PresenceState :=
  let connections := Function.update s.connections client (s.connections client + 1)
  { s with connections := connections }.setManager client
    ((s.managers client.1).connect client.2 now)

def disconnect (client : Nat × String) : PresenceState :=
  let queues := Function.update s.queues client (s.queues client + 1)
  { s with queues := queues }.setManager client ((s.managers client.1).disconnect client.2)

/-- The message's turn: those before it in its queue are done. -/
def isTurn (j : Nat) (job : MessageJob) : Bool :=
  (s.jobs.take j).all fun other => !job.sameQueue other || other.phase.isDone

/-- A signal that reaches its recipient's instance; `false` is "not here". -/
def deliverSignal (i : Nat) (to_ : String) (targets : List EphemeralTarget)
    (sender : Record Subscription) (state : EphemeralState) : PresenceState × Bool :=
  match s.session (i, to_) with
  | none => (s, false)
  | some recipient =>
    if inAudience targets recipient then
      ({ s with
        deliveries := s.deliveries ++ [⟨to_, recipient.subscriptions, .signal sender to_ state⟩] },
        true)
    else (s, true)

/-- A message whose client is authenticated, up to its first await. -/
def handleMessage (j : Nat) (job : MessageJob) (session : Session) (userId : String) :
    PresenceState :=
  match job.message with
  | .syncDeclare query params roomKey window =>
    s.setPhase j job (.subscribing query params roomKey window)
  | .unsync query =>
    (s.setManager job.client
      ((s.managers job.instance_).unsubscribe job.clientId query)).setPhase j job .done
  | .ephemeral key data =>
    let roomKeys := session.subscriptions.entries.filterMap fun e =>
      e.2.roomKey.filter (· ≠ "")
    s.setPhase j job (.setting (s.connections job.client) ⟨job.clientId, userId, key, data⟩
      (roomKeys.foldl addLast []) session.subscriptions.keys)
  | .signal to_ data =>
    let targets : List EphemeralTarget :=
      session.subscriptions.entries.map fun e => ⟨e.1, e.2.roomKey⟩
    if to_ = job.clientId ∨ targets = [] then s.setPhase j job .done
    else
      let state := ⟨job.clientId, userId, "", data⟩
      match s.deliverSignal job.instance_ to_ targets session.subscriptions state with
      | (s, true) => s.setPhase j job .done
      | (s, false) =>
        s.setPhase j job (.publishing
          ⟨job.instance_, state, targets, some to_, session.subscriptions⟩)

/-- The sender's room for each of the queries. -/
def targetsOf (job : MessageJob) (connection : Nat) (queryNames : List String) :
    List EphemeralTarget :=
  queryNames.map fun query => ⟨query, roomOf (s.held (job.client, connection)) query⟩

/-- An entry of a presence snapshot; a client that has gone gets nothing. -/
def sendPresence (job : MessageJob) (entry : PresenceEntry) : PresenceState :=
  match s.session job.client with
  | some session =>
    if entry.state.clientId = job.clientId then s
    else { s with
      deliveries := s.deliveries ++ [⟨job.clientId, session.subscriptions, .presence entry⟩] }
  | none => s

def advance (j : Nat) (job : MessageJob) : Option PresenceState :=
  let store := s.stores (adapter.storeOf job.instance_)
  match job.phase with
  | .queued =>
    if s.isTurn j job then
      match (s.session job.client).bind fun session => session.auth.map (session, ·) with
      | some (session, auth) => some (s.handleMessage j job session auth.userId)
      -- Nobody, or not authenticated.
      | none => some (s.setPhase j job .done)
    else none
  | .subscribing query params roomKey window =>
    let subscribed := s.setManager job.client
      ((s.managers job.instance_).subscribe job.clientId query params roomKey window)
    match roomKey.filter (· ≠ "") with
    | some room => some (subscribed.setPhase j job (.readingRoom query room))
    | none => some (subscribed.setPhase j job .done)
  | .readingRoom query room =>
    some (s.setPhase j job (.readingKeys query room (store.roomKeys room) []))
  | .readingKeys query room [] read => some (s.setPhase j job (.sending query room read))
  | .readingKeys query room (key :: keys) read =>
    some (s.setPhase j job
      (.readingKeys query room keys (read ++ store.readChannel adapter room key)))
  | .sending _ _ [] => some (s.setPhase j job .done)
  | .sending query room (entry :: entries) =>
    some ((s.sendPresence job entry).setPhase j job (.sending query room entries))
  | .setting connection state (room :: rooms) queryNames =>
    some ((s.setStore adapter job.instance_ (store.set adapter room state)).setPhase j job
      (.setting connection state rooms queryNames))
  | .setting connection state [] queryNames =>
    let sender := s.held (job.client, connection)
    let targets := s.targetsOf job connection queryNames
    let recipients := fanOutEphemeral (s.managers job.instance_) targets (some job.clientId)
    some ((s.deliver recipients (.ephemeral sender state)).setPhase j job
      (if adapter.shared then .publishing ⟨job.instance_, state, targets, none, sender⟩ else .done))
  | .publishing event => some ({ s with bus := s.bus ++ [event] }.setPhase j job .done)
  | .done => none

def deliverRemote (i : Nat) (event : EphemeralBroadcast) : PresenceState :=
  if event.serverId = i then s
  else
    match event.to_ with
    | some to_ =>
      if to_ = "" then s else (s.deliverSignal i to_ event.targets event.sender event.state).1
    | none =>
      s.deliver (fanOutEphemeral (s.managers i) event.targets none)
        (.ephemeral event.sender event.state)

def step : PresenceEvent → Option PresenceState
  | .connect i c now => some (s.connect (i, c) now)
  | .disconnect i c => some (s.disconnect (i, c))
  | .setAuth i c auth => some (s.setManager (i, c) ((s.managers i).setAuth c auth))
  | .receive i c message =>
    some { s with
      jobs := s.jobs ++ [⟨i, c, message, s.connections (i, c), s.queues (i, c), .queued⟩] }
  | .advance j => s.jobs[j]?.bind fun job => s.advance adapter j job
  | .giveUp j => s.jobs[j]?.map fun job => s.setPhase j job .done
  | .deliverRemote i b => s.bus[b]?.map fun event => s.deliverRemote i event
  | .removeEntry i room key clientId =>
    some (s.setStore adapter i
      ((s.stores (adapter.storeOf i)).removeEntry adapter room key clientId))
  | .expireHash i room key =>
    some (s.setStore adapter i ((s.stores (adapter.storeOf i)).expireHash adapter room key))
  | .expireRoomKeys i room =>
    some (s.setStore adapter i ((s.stores (adapter.storeOf i)).expireRoomKeys room))

end PresenceState

def presenceMachine (adapter : EphemeralAdapter) : Machine PresenceState PresenceEvent :=
  ⟨.start, fun s => s.step adapter⟩

/-- Events and signals are delivered to clients only that share a query and its room with the
sender, and entries of a room to those that are subscribed in it. -/
def Isolated (s : PresenceState) : Prop :=
  ∀ d ∈ s.deliveries, d.Allowed

/-! ## The condition -/

/-- The message came over the client's present connection, or the client has no session. -/
def PresenceState.OnTime (s : PresenceState) (job : MessageJob) : Prop :=
  (s.session job.client).isNone ∨ job.connection = s.connections job.client

/-- Of the clients that the index of a query lists, those that are connected are subscribed to it;
for the targets without a room. -/
def RoomlessListed (m : SessionManager) (targets : List EphemeralTarget)
    (exclude : Option String) : Prop :=
  ∀ target ∈ targets, target.room = none →
    ∀ sub ∈ m.getSubscribersForQuery target.query none,
      exclude = some sub.clientId ∨ (sub.subscriptions.lookup target.query).isSome

/-- The channel shares its place with no channel of another room. -/
def EphemeralStore.OwnSlot (adapter : EphemeralAdapter) (store : EphemeralStore)
    (room key : String) : Prop :=
  ∀ p ∈ store.channels, adapter.slot p.1 p.2 = adapter.slot room key → p.1 = room

/-- No message is handled in a later connection than it came over; a query's index is up to date
where a target without a room goes by it; and no two rooms share a place in the store. -/
def HandledInTime (adapter : EphemeralAdapter) (s : PresenceState) : PresenceEvent → Prop
  | .advance j =>
    match s.jobs[j]? with
    | some job =>
      match job.phase with
      | .queued => s.OnTime job
      | .subscribing .. => s.OnTime job
      | .sending .. => s.OnTime job
      | .setting _ state (room :: _) _ =>
        (s.stores (adapter.storeOf job.instance_)).OwnSlot adapter room state.key
      | .setting connection _ [] queryNames =>
        RoomlessListed (s.managers job.instance_) (s.targetsOf job connection queryNames)
          (some job.clientId)
      | _ => True
    | none => True
  | .deliverRemote i b =>
    match s.bus[b]? with
    | some event => event.to_ = none → RoomlessListed (s.managers i) event.targets none
    | none => True
  | _ => True

instance (s : PresenceState) (job : MessageJob) : Decidable (s.OnTime job) :=
  inferInstanceAs (Decidable (_ ∨ _))

instance (m : SessionManager) (targets : List EphemeralTarget) (exclude : Option String) :
    Decidable (RoomlessListed m targets exclude) :=
  inferInstanceAs (Decidable (∀ _ ∈ _, _))

instance (adapter : EphemeralAdapter) (store : EphemeralStore) (room key : String) :
    Decidable (store.OwnSlot adapter room key) :=
  inferInstanceAs (Decidable (∀ _ ∈ _, _))

instance (adapter : EphemeralAdapter) (s : PresenceState) (e : PresenceEvent) :
    Decidable (HandledInTime adapter s e) := by
  unfold HandledInTime
  split
  · split
    · split <;> infer_instance
    · infer_instance
  · split <;> infer_instance
  · infer_instance

/-! ## Fan-out -/

section FanOut

variable {m : SessionManager} {targets : List EphemeralTarget} {exclude : Option String}
  {sender : Record Subscription}

/-- Each target is a subscription of the sender. -/
def TargetsOf (sender : Record Subscription) (targets : List EphemeralTarget) : Prop :=
  ∀ target ∈ targets, ∃ sub, sender.lookup target.query = some sub ∧ sub.roomKey = target.room

/-- What a fold adds to a list comes from one of its steps. -/
theorem mem_foldl_adds {α β : Type} {f : List β → α → List β} {P : α → β → Prop} {xs : List α}
    (hf : ∀ x ∈ xs, ∀ acc y, y ∈ f acc x → y ∈ acc ∨ P x y) {acc : List β} {y : β}
    (hy : y ∈ xs.foldl f acc) : y ∈ acc ∨ ∃ x ∈ xs, P x y := by
  induction xs generalizing acc with
  | nil => exact Or.inl hy
  | cons x xs ih =>
      rcases ih (fun z hz => hf z (List.mem_cons_of_mem _ hz)) hy with hacc | ⟨z, hz, hP⟩
      · exact (hf x (List.mem_cons_self ..) _ _ hacc).imp_right fun hP =>
          ⟨x, List.mem_cons_self .., hP⟩
      · exact Or.inr ⟨z, List.mem_cons_of_mem _ hz, hP⟩

theorem mem_addRecipient {target : EphemeralTarget} {recipients : List Session}
    {sub r : Session} (hr : r ∈ addRecipient target exclude recipients sub) :
    r ∈ recipients ∨
      (r = sub ∧ roomOf sub.subscriptions target.query = target.room ∧
        exclude ≠ some sub.clientId) := by
  unfold addRecipient at hr
  split at hr
  · exact Or.inl hr
  · rename_i hroom
    split at hr
    · exact Or.inl hr
    · rename_i hnew
      refine (List.mem_append.1 hr).imp_right fun hr => ?_
      exact ⟨List.mem_singleton.1 hr, not_not.1 hroom, fun heq => hnew (Or.inl heq)⟩

/-- A recipient is in a target's room, by the index of its query, and is not the sender. -/
theorem mem_fanOutEphemeral {r : Session} (hr : r ∈ fanOutEphemeral m targets exclude) :
    ∃ target ∈ targets, r ∈ m.getSubscribersForQuery target.query target.room ∧
      roomOf r.subscriptions target.query = target.room ∧ exclude ≠ some r.clientId := by
  have hfold : r ∈ [] ∨ ∃ target ∈ targets,
      r ∈ m.getSubscribersForQuery target.query target.room ∧
        roomOf r.subscriptions target.query = target.room ∧ exclude ≠ some r.clientId := by
    refine mem_foldl_adds (P := fun target r =>
      r ∈ m.getSubscribersForQuery target.query target.room ∧
        roomOf r.subscriptions target.query = target.room ∧ exclude ≠ some r.clientId)
      (fun target _ recipients y hy => ?_) hr
    refine (mem_foldl_adds (f := addRecipient target exclude)
      (fun sub _ acc z hz => mem_addRecipient hz) hy).imp_right ?_
    rintro ⟨sub, hsub, rfl, hroom, hexclude⟩
    exact ⟨hsub, hroom, hexclude⟩
  exact hfold.resolve_left List.not_mem_nil

theorem shares_of_mem_fanOut (hsender : TargetsOf sender targets)
    (hlisted : RoomlessListed m targets exclude) {r : Session}
    (hr : r ∈ fanOutEphemeral m targets exclude) : Shares sender r.subscriptions := by
  rcases mem_fanOutEphemeral hr with ⟨target, htarget, hsub, hroom, hexclude⟩
  rcases hsender target htarget with ⟨sub, hsender, hroomKey⟩
  cases hlookup : r.subscriptions.lookup target.query with
  | some sub' =>
      refine ⟨target.query, sub, sub', hsender, hlookup, ?_⟩
      rw [roomOf, hlookup, Option.bind_some] at hroom
      exact hroom.trans hroomKey.symm
  | none =>
      -- Without a subscription it matches a target without a room only, by a stale index.
      have hnone : target.room = none := by
        rw [← hroom, roomOf, hlookup, Option.bind_none]
      rcases hlisted target htarget hnone r (hnone ▸ hsub) with heq | hsome
      · exact absurd heq hexclude
      · rw [hlookup] at hsome
        cases hsome

theorem shares_of_inAudience (hsender : TargetsOf sender targets) {r : Session}
    (hr : inAudience targets r = true) : Shares sender r.subscriptions := by
  rcases List.any_eq_true.1 hr with ⟨target, htarget, hany⟩
  rcases (Option.any_eq_true _ _).1 hany with ⟨sub', hlookup, hroom⟩
  rcases hsender target htarget with ⟨sub, hsender, hroomKey⟩
  exact ⟨target.query, sub, sub', hsender, hlookup, (of_decide_eq_true hroom).trans hroomKey.symm⟩

end FanOut

end Server
end Reflectdb
