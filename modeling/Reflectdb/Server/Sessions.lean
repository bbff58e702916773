import Reflectdb.Client.Store
import Reflectdb.Lib.Machine
import Reflectdb.Lib.OrderedSet
import Reflectdb.Lib.Table

/-!
# Sessions — the session manager and the connection cap

The live sessions by client id, with two indexes: the subscribers of each query and the clients of
each user.  `enforceConnectionCap` goes by the second one; it awaits the transport between choosing
a session to evict and taking it off, so that other events come in between.
-/

namespace Reflectdb
namespace Server

open Core Client Lib

/-! ## The session manager -/

/-- What `auth()` answers: the user and anything else. -/
structure AuthContext where
  userId : String
  claims : Record Json

/-- A client's subscription to a query. -/
structure Subscription where
  params : Record Json
  roomKey : Option String
  windowSize : Option Int
  windowLimit : Int
  loadedCount : Nat
  lastTotalCount : Option Nat
  bootstrapped : Bool

structure Session where
  clientId : String
  auth : Option AuthContext
  subscriptions : Record Subscription
  watermark : Option Hlc
  connectedAt : Nat

/-- The user that the session is authenticated as. -/
def Session.user (session : Session) : Option String :=
  session.auth.map (·.userId)

@[simp] theorem Session.user_withAuth (session : Session) (auth : AuthContext) :
    Session.user { session with auth := some auth } = some auth.userId :=
  rfl

/-- A query or a user without an entry in its index has no clients. -/
structure SessionManager where
  sessions : Table String Session
  querySubscribers : String → List String
  userSessions : String → List String

namespace SessionManager

def empty : SessionManager :=
  ⟨fun _ => none, fun _ => [], fun _ => []⟩

/-- A session under an id that is connected already is replaced; neither index is looked at. -/
def connect (m : SessionManager) (clientId : String) (now : Nat) : SessionManager :=
  { m with sessions := m.sessions.put clientId ⟨clientId, none, ∅, none, now⟩ }

def disconnect (m : SessionManager) (clientId : String) : SessionManager :=
  match m.sessions clientId with
  | none => { m with sessions := m.sessions.remove clientId }
  | some session => {
      sessions := m.sessions.remove clientId
      querySubscribers := fun q =>
        if q ∈ session.subscriptions then without (m.querySubscribers q) clientId
        else m.querySubscribers q
      userSessions := fun u =>
        if session.user = some u then without (m.userSessions u) clientId
        else m.userSessions u }

def setAuth (m : SessionManager) (clientId : String) (auth : AuthContext) : SessionManager :=
  match m.sessions clientId with
  | none => m
  | some session => {
      m with
      sessions := m.sessions.put clientId { session with auth := some auth }
      userSessions := fun u =>
        if u = auth.userId then addLast (m.userSessions u) clientId
        -- The old user's set, if the identity changes.
        else if session.user = some u then without (m.userSessions u) clientId
        else m.userSessions u }

/-- A window of no rows is no window. -/
def newSubscription (params : Record Json) (roomKey : Option String) (windowSize : Option Int) :
    Subscription :=
  let effectiveWindow := windowSize.filter (0 < ·)
  ⟨params, roomKey, effectiveWindow, effectiveWindow.getD 0, 0, none, false⟩

def subscribe (m : SessionManager) (clientId queryName : String) (params : Record Json)
    (roomKey : Option String) (windowSize : Option Int) : SessionManager :=
  match m.sessions clientId with
  | none => m
  | some session => {
      m with
      sessions := m.sessions.put clientId { session with
        subscriptions :=
          session.subscriptions.insert queryName (newSubscription params roomKey windowSize) }
      querySubscribers := fun q =>
        if q = queryName then addLast (m.querySubscribers q) clientId else m.querySubscribers q }

def unsubscribe (m : SessionManager) (clientId queryName : String) : SessionManager :=
  match m.sessions clientId with
  | none => m
  | some session => {
      m with
      sessions := m.sessions.put clientId { session with
        subscriptions := session.subscriptions.erase queryName }
      querySubscribers := fun q =>
        if q = queryName then without (m.querySubscribers q) clientId else m.querySubscribers q }

/-- The session is in the room; a caller without a room takes any. -/
def inRoom (queryName : String) (roomKey : Option String) (session : Session) : Bool :=
  match roomKey with
  | none => true
  | some room => (session.subscriptions.lookup queryName).any fun sub => sub.roomKey = some room

def getSubscribersForQuery (m : SessionManager) (queryName : String) (roomKey : Option String) :
    List Session :=
  (m.querySubscribers queryName).filterMap fun clientId =>
    (m.sessions clientId).filter (inRoom queryName roomKey)

def countForUser (m : SessionManager) (userId : String) : Nat :=
  (m.userSessions userId).length

def connectedAt (m : SessionManager) (clientId : String) : Nat :=
  ((m.sessions clientId).map (·.connectedAt)).getD 0

/-- The client of the user's oldest session; an id without a session is skipped. -/
def oldestForUser (m : SessionManager) (userId : String) : Option String :=
  firstMin m.connectedAt ((m.userSessions userId).filter fun c => (m.sessions c).isSome)

end SessionManager

/-! ## The connection cap -/

/-- Where a call of `enforceConnectionCap` stands. -/
inductive CapPhase
  | checking
  /-- The transport closes the victim's connection. -/
  | evicting (victim : String)
  | done
  deriving DecidableEq

structure CapCall where
  userId : String
  newClientId : String
  phase : CapPhase

/-- The loop's condition and its choice: it ends, too, where the oldest session is the new one. -/
def SessionManager.checkCap (m : SessionManager) (maxConnections : Nat) (call : CapCall) :
    CapPhase :=
  if m.countForUser call.userId ≤ maxConnections then .done
  else
    match m.oldestForUser call.userId with
    | none => .done
    | some oldest => if oldest = call.newClientId then .done else .evicting oldest

structure Connections where
  manager : SessionManager
  calls : List CapCall

inductive ConnectionEvent
  | connect (clientId : String) (now : Nat)
  | disconnect (clientId : String)
  | setAuth (clientId : String) (auth : AuthContext)
  | subscribe (clientId queryName : String) (params : Record Json) (roomKey : Option String)
      (windowSize : Option Int)
  | unsubscribe (clientId queryName : String)
  | enforceCap (userId newClientId : String)
  | checkCap (call : Nat)
  | evict (call : Nat)

namespace Connections

def setPhase (s : Connections) (i : Nat) (call : CapCall) (phase : CapPhase) : Connections :=
  { s with calls := s.calls.set i { call with phase := phase } }

def stepCheck (s : Connections) (maxConnections i : Nat) : Option Connections :=
  match s.calls[i]? with
  | some call =>
    match call.phase with
    | .checking => some (s.setPhase i call (s.manager.checkCap maxConnections call))
    | _ => none
  | none => none

def stepEvict (s : Connections) (i : Nat) : Option Connections :=
  match s.calls[i]? with
  | some call =>
    match call.phase with
    | .evicting victim =>
      some ({ s with manager := s.manager.disconnect victim }.setPhase i call .checking)
    | _ => none
  | none => none

/-- One event, under a cap; zero stands for no cap. -/
def step (maxConnections : Nat) (s : Connections) : ConnectionEvent → Option Connections
  | .connect c now => some { s with manager := s.manager.connect c now }
  | .disconnect c => some { s with manager := s.manager.disconnect c }
  | .setAuth c auth => some { s with manager := s.manager.setAuth c auth }
  | .subscribe c q params roomKey windowSize =>
    some { s with manager := s.manager.subscribe c q params roomKey windowSize }
  | .unsubscribe c q => some { s with manager := s.manager.unsubscribe c q }
  | .enforceCap u c =>
    some { s with calls := s.calls ++ [⟨u, c, if maxConnections = 0 then .done else .checking⟩] }
  | .checkCap i => s.stepCheck maxConnections i
  | .evict i => s.stepEvict i

end Connections

def connectionMachine (maxConnections : Nat) : Machine Connections ConnectionEvent :=
  ⟨⟨.empty, []⟩, Connections.step maxConnections⟩

/-! ## Live sessions, users and subscriptions -/

namespace SessionManager

variable (m : SessionManager)

def IsLive (c : String) : Prop :=
  (m.sessions c).isSome

/-- The user that the live session is authenticated as. -/
def userOf (c : String) : Option String :=
  (m.sessions c).bind Session.user

/-- The client has a live session that is subscribed to the query. -/
def Subscribed (c q : String) : Prop :=
  ∃ session, m.sessions c = some session ∧ q ∈ session.subscriptions

/-- The live sessions of the user are no more than `n`. -/
def AtMostLive (u : String) (n : Nat) : Prop :=
  ∀ cs : List String, cs.Nodup → (∀ c ∈ cs, m.userOf c = some u) → cs.length ≤ n

end SessionManager

/-- The indexes say what the live sessions say. -/
structure IndexesExact (m : SessionManager) : Prop where
  query : ∀ q c, c ∈ m.querySubscribers q ↔ m.Subscribed c q
  user : ∀ u c, c ∈ m.userSessions u ↔ m.userOf c = some u
  /-- `getSubscribersForQuery` returns each subscribed session once. -/
  subscribers : ∀ q session, session ∈ m.getSubscribersForQuery q none ↔
    m.sessions session.clientId = some session ∧ q ∈ session.subscriptions
  roomSubscribers : ∀ q room session, session ∈ m.getSubscribersForQuery q (some room) ↔
    m.sessions session.clientId = some session ∧
      ∃ sub, session.subscriptions.lookup q = some sub ∧ sub.roomKey = some room
  once : ∀ q roomKey, (m.getSubscribersForQuery q roomKey).Nodup

/-- What the connection cap promises of a step. -/
structure CapKept (maxConnections : Nat) (s : Connections) (e : ConnectionEvent)
    (s' : Connections) : Prop where
  /-- A call that returns leaves no more sessions than the cap. -/
  returns : ∀ i call, e = .checkCap i → s'.calls[i]? = some call → call.phase = .done →
    s'.manager.AtMostLive call.userId maxConnections
  /-- A session that is evicted is one of more than the cap. -/
  evicts : ∀ i call victim, e = .evict i → s.calls[i]? = some call →
    call.phase = .evicting victim → s.manager.IsLive victim →
      s.manager.userOf victim = some call.userId ∧
        ¬ s.manager.AtMostLive call.userId maxConnections

/-- The loop of one call that nothing comes between, for so many passes. -/
def SessionManager.enforceConnectionCap (maxConnections : Nat) (call : CapCall) :
    Nat → SessionManager → Option SessionManager
  | 0, _ => none
  | passes + 1, m =>
    match m.checkCap maxConnections call with
    | .evicting victim => (m.disconnect victim).enforceConnectionCap maxConnections call passes
    | _ => some m

/-- What is expected of a state, for the steps that `G` admits. -/
structure ConnectionsSound (maxConnections : Nat) (G : Connections → ConnectionEvent → Prop)
    (s : Connections) : Prop where
  indexes : IndexesExact s.manager
  cap : ∀ e s', G s e → s.step maxConnections e = some s' → CapKept maxConnections s e s'
  /-- A call that nothing comes between returns. -/
  ends : ∀ call, (s.manager.enforceConnectionCap maxConnections call
    (s.manager.countForUser call.userId + 1)).isSome

/-! ## The condition -/

/-- A call is about to evict the client as one of the user. -/
def Connections.Evicting (s : Connections) (u v : String) : Prop :=
  ∃ call ∈ s.calls, call.userId = u ∧ call.phase = .evicting v

/-- The client's leaving its user keeps enough sessions newer than each one about to be evicted. -/
def Connections.MayLeave (s : Connections) (maxConnections : Nat) (c : String) : Prop :=
  ∀ u v, s.Evicting u v → v ≠ c → s.manager.IsLive v → s.manager.userOf c = some u →
    ManyLater s.manager.connectedAt (without (s.manager.userSessions u) c) maxConnections v

/-- No client connects in place of a session that has authenticated or subscribed; a call does not
find the new session to be the oldest of too many; and while it evicts one, that client neither
connects again nor changes its user, and enough newer ones stay. -/
def ConnectsOnce (maxConnections : Nat) (s : Connections) : ConnectionEvent → Prop
  | .connect c _ =>
    (∀ session, s.manager.sessions c = some session →
      session.auth = none ∧ session.subscriptions = ∅) ∧ ∀ u, ¬ s.Evicting u c
  | .disconnect c => s.MayLeave maxConnections c
  | .setAuth c auth =>
    s.manager.userOf c ≠ some auth.userId →
      s.MayLeave maxConnections c ∧ ∀ u, s.Evicting u c → ¬ s.manager.IsLive c
  | .checkCap i => ∀ call, s.calls[i]? = some call →
    maxConnections < s.manager.countForUser call.userId →
      s.manager.oldestForUser call.userId ≠ some call.newClientId
  | _ => True

/-! ## The indexes -/

/-- What the operations keep: the two indexes and the ids of the sessions. -/
structure SessionInv (m : SessionManager) : Prop where
  query : ∀ q c, c ∈ m.querySubscribers q ↔ m.Subscribed c q
  user : ∀ u c, c ∈ m.userSessions u ↔ m.userOf c = some u
  queryNodup : ∀ q, (m.querySubscribers q).Nodup
  userNodup : ∀ u, (m.userSessions u).Nodup
  ids : ∀ c session, m.sessions c = some session → session.clientId = c

namespace SessionManager

variable {m : SessionManager} {c : String}

theorem inv_empty : SessionInv empty where
  query q c := by simp [empty, Subscribed]
  user u c := by simp [empty, userOf]
  queryNodup q := List.nodup_nil
  userNodup u := List.nodup_nil
  ids c session h := by simp [empty] at h

theorem inv_connect (h : SessionInv m) (now : Nat)
    (hfresh : ∀ session, m.sessions c = some session →
      session.auth = none ∧ session.subscriptions = ∅) : SessionInv (m.connect c now) where
  query q x := by
    -- A replaced session was in no index, and the new one has no subscription either.
    by_cases hx : x = c
    · subst hx
      have hold : ¬ m.Subscribed x q := by
        rintro ⟨session, hs, hq⟩
        simp [(hfresh session hs).2] at hq
      simpa [connect, Subscribed, Table.put] using (h.query q x).not.2 hold
    · simpa [connect, Subscribed, Table.put, hx] using h.query q x
  user u x := by
    by_cases hx : x = c
    · subst hx
      have hold : m.userOf x ≠ some u := by
        intro hu
        obtain ⟨session, hs, hauth⟩ := Option.bind_eq_some_iff.1 hu
        simp [Session.user, (hfresh session hs).1] at hauth
      simpa [connect, userOf, Table.put, Session.user] using (h.user u x).not.2 hold
    · simpa [connect, userOf, Table.put, hx] using h.user u x
  queryNodup := h.queryNodup
  userNodup := h.userNodup
  ids x session hs := by
    by_cases hx : x = c
    · subst hx
      have heq : ⟨x, none, ∅, none, now⟩ = session := by simpa [connect, Table.put] using hs
      rw [← heq]
    · exact h.ids x session (by simpa [connect, Table.put, hx] using hs)

theorem inv_disconnect (h : SessionInv m) (c : String) : SessionInv (m.disconnect c) := by
  cases hc : m.sessions c with
  | none =>
      have hsame : m.disconnect c = m := by
        have hsessions : m.sessions.remove c = m.sessions := by
          rw [Table.remove, ← hc, Function.update_eq_self]
        simp [disconnect, hc, hsessions]
      rw [hsame]
      exact h
  | some session =>
      refine ⟨fun q x => ?_, fun u x => ?_, fun q => ?_, fun u => ?_, fun x other hs => ?_⟩
      · have hq := h.query q x
        by_cases hx : x = c
        · subst hx
          by_cases hmem : q ∈ session.subscriptions
          · simp [disconnect, hc, hmem, Subscribed, Table.remove]
          · have hnot : x ∉ m.querySubscribers q := by simp [hq, Subscribed, hc, hmem]
            simp [disconnect, hc, hmem, hnot, Subscribed, Table.remove]
        · by_cases hmem : q ∈ session.subscriptions
          · simpa [disconnect, hc, hmem, Subscribed, Table.remove, hx] using hq
          · simpa [disconnect, hc, hmem, Subscribed, Table.remove, hx] using hq
      · have hu := h.user u x
        by_cases hx : x = c
        · subst hx
          by_cases hauth : session.user = some u
          · simp [disconnect, hc, hauth, userOf, Table.remove]
          · have hnot : x ∉ m.userSessions u := by
              rw [hu, userOf, hc]
              exact hauth
            simp [disconnect, hc, hauth, hnot, userOf, Table.remove]
        · by_cases hauth : session.user = some u
          · simpa [disconnect, hc, hauth, userOf, Table.remove, hx] using hu
          · simpa [disconnect, hc, hauth, userOf, Table.remove, hx] using hu
      · by_cases hmem : q ∈ session.subscriptions
        · simpa [disconnect, hc, hmem] using nodup_without (h.queryNodup q) c
        · simpa [disconnect, hc, hmem] using h.queryNodup q
      · by_cases hauth : session.user = some u
        · simpa [disconnect, hc, hauth] using nodup_without (h.userNodup u) c
        · simpa [disconnect, hc, hauth] using h.userNodup u
      · by_cases hx : x = c
        · simp [disconnect, hc, Table.remove, hx] at hs
        · exact h.ids x other (by simpa [disconnect, hc, Table.remove, hx] using hs)

theorem inv_setAuth (h : SessionInv m) (c : String) (auth : AuthContext) :
    SessionInv (m.setAuth c auth) := by
  cases hc : m.sessions c with
  | none => simpa [setAuth, hc] using h
  | some session =>
      have hold : m.userOf c = session.user := by simp [userOf, hc]
      refine ⟨fun q x => ?_, fun u x => ?_, fun q => ?_, fun u => ?_, fun x other hs => ?_⟩
      · by_cases hx : x = c
        · subst hx
          simpa [setAuth, hc, Subscribed, Table.put] using h.query q x
        · simpa [setAuth, hc, Subscribed, Table.put, hx] using h.query q x
      · have hu := h.user u x
        by_cases hx : x = c
        · subst hx
          rw [hold] at hu
          by_cases hnew : u = auth.userId
          · simp [setAuth, hc, hnew, userOf, Table.put]
          · have hne : auth.userId ≠ u := fun heq => hnew heq.symm
            by_cases hleft : session.user = some u
            · simp [setAuth, hc, hnew, hne, hleft, userOf, Table.put]
            · have hnot : x ∉ m.userSessions u := fun hmem => hleft (hu.1 hmem)
              simp [setAuth, hc, hnew, hne, hleft, hnot, userOf, Table.put]
        · by_cases hnew : u = auth.userId
          · simpa [setAuth, hc, hnew, userOf, Table.put, hx] using hnew ▸ hu
          · by_cases hleft : session.user = some u
            · simpa [setAuth, hc, hnew, hleft, userOf, Table.put, hx] using hu
            · simpa [setAuth, hc, hnew, hleft, userOf, Table.put, hx] using hu
      · simpa [setAuth, hc] using h.queryNodup q
      · by_cases hnew : u = auth.userId
        · simpa [setAuth, hc, hnew] using nodup_addLast (h.userNodup auth.userId) c
        · by_cases hleft : session.user = some u
          · simpa [setAuth, hc, hnew, hleft] using nodup_without (h.userNodup u) c
          · simpa [setAuth, hc, hnew, hleft] using h.userNodup u
      · by_cases hx : x = c
        · subst hx
          have heq : { session with auth := some auth } = other := by
            simpa [setAuth, hc, Table.put] using hs
          rw [← heq]
          exact h.ids x session hc
        · exact h.ids x other (by simpa [setAuth, hc, Table.put, hx] using hs)

/-- A change of one client's subscriptions and of the index of one query. -/
theorem inv_changeQuery (h : SessionInv m) {session : Session} (hc : m.sessions c = some session)
    (queryName : String) (subscriptions : Record Subscription) (clients : List String)
    (hothers : ∀ q, q ≠ queryName → (q ∈ subscriptions ↔ q ∈ session.subscriptions))
    (hclients : ∀ x, x ∈ clients ↔
      if x = c then queryName ∈ subscriptions else x ∈ m.querySubscribers queryName)
    (hnodup : clients.Nodup) :
    SessionInv { m with
      sessions := m.sessions.put c { session with subscriptions := subscriptions }
      querySubscribers := fun q => if q = queryName then clients else m.querySubscribers q } where
  query q x := by
    have hq := h.query q x
    by_cases hx : x = c
    · subst hx
      by_cases hname : q = queryName
      · simp [hname, hclients, Subscribed, Table.put]
      · simpa [hname, Subscribed, Table.put, hothers q hname, hc] using hq
    · by_cases hname : q = queryName
      · subst hname
        simpa [hclients, hx, Subscribed, Table.put] using hq
      · simpa [hname, Subscribed, Table.put, hx] using hq
  user u x := by
    by_cases hx : x = c
    · subst hx
      simpa [userOf, Table.put, hc, Session.user] using h.user u x
    · simpa [userOf, Table.put, hx] using h.user u x
  queryNodup q := by
    by_cases hname : q = queryName
    · simpa [hname] using hnodup
    · simpa [hname] using h.queryNodup q
  userNodup := h.userNodup
  ids x other hs := by
    by_cases hx : x = c
    · subst hx
      have heq : { session with subscriptions := subscriptions } = other := by
        simpa [Table.put] using hs
      rw [← heq]
      exact h.ids x session hc
    · exact h.ids x other (by simpa [Table.put, hx] using hs)

theorem inv_subscribe (h : SessionInv m) (c queryName : String) (params : Record Json)
    (roomKey : Option String) (windowSize : Option Int) :
    SessionInv (m.subscribe c queryName params roomKey windowSize) := by
  cases hc : m.sessions c with
  | none => simpa [subscribe, hc] using h
  | some session =>
      have hchange := inv_changeQuery h hc queryName
        (session.subscriptions.insert queryName (newSubscription params roomKey windowSize))
        (addLast (m.querySubscribers queryName) c) (fun q hq => by simp [hq])
        (fun x => by by_cases hx : x = c <;> simp [hx])
        (nodup_addLast (h.queryNodup queryName) c)
      convert hchange using 1
      simp only [subscribe, hc, SessionManager.mk.injEq, true_and, and_true]
      funext q
      by_cases hq : q = queryName <;> simp [hq]

theorem inv_unsubscribe (h : SessionInv m) (c queryName : String) :
    SessionInv (m.unsubscribe c queryName) := by
  cases hc : m.sessions c with
  | none => simpa [unsubscribe, hc] using h
  | some session =>
      have hchange := inv_changeQuery h hc queryName (session.subscriptions.erase queryName)
        (without (m.querySubscribers queryName) c) (fun q hq => by simp [hq])
        (fun x => by by_cases hx : x = c <;> simp [hx])
        (nodup_without (h.queryNodup queryName) c)
      convert hchange using 1
      simp only [unsubscribe, hc, SessionManager.mk.injEq, true_and, and_true]
      funext q
      by_cases hq : q = queryName <;> simp [hq]

end SessionManager

/-- The indexes that the operations keep are exact. -/
theorem SessionInv.indexesExact {m : SessionManager} (h : SessionInv m) : IndexesExact m := by
  have hmem : ∀ q roomKey session, session ∈ m.getSubscribersForQuery q roomKey ↔
      m.sessions session.clientId = some session ∧ q ∈ session.subscriptions ∧
        SessionManager.inRoom q roomKey session = true := by
    intro q roomKey session
    simp only [SessionManager.getSubscribersForQuery, List.mem_filterMap,
      Option.filter_eq_some_iff, h.query]
    constructor
    · rintro ⟨c, ⟨other, hother, hq⟩, hs, hroom⟩
      obtain rfl : other = session := by simpa [hs] using hother.symm
      have hid : other.clientId = c := h.ids c other hs
      exact ⟨hid ▸ hs, hq, hroom⟩
    · rintro ⟨hs, hq, hroom⟩
      exact ⟨session.clientId, ⟨session, hs, hq⟩, hs, hroom⟩
  refine ⟨h.query, h.user, fun q session => ?_, fun q room session => ?_, fun q roomKey => ?_⟩
  · simp [hmem, SessionManager.inRoom]
  · rw [hmem, SessionManager.inRoom, Option.any_eq_true]
    simp only [decide_eq_true_eq]
    constructor
    · rintro ⟨hs, -, hroom⟩
      exact ⟨hs, hroom⟩
    · rintro ⟨hs, sub, hsub, hroom⟩
      exact ⟨hs, AList.lookup_isSome.1 (by simp [hsub]), sub, hsub, hroom⟩
  · refine (h.queryNodup q).filterMap fun c c' session hc hc' => ?_
    rw [← h.ids c session (Option.filter_eq_some_iff.1 hc).1,
      ← h.ids c' session (Option.filter_eq_some_iff.1 hc').1]

/-! ## The user's sessions by age -/

namespace SessionManager

variable {m : SessionManager} {c u : String} {n : Nat}

/-- The set of a user has as many clients as the user has live sessions. -/
theorem atMostLive_iff (h : SessionInv m) : m.AtMostLive u n ↔ m.countForUser u ≤ n := by
  constructor
  · intro hmost
    exact hmost _ (h.userNodup u) fun c hc => (h.user u c).1 hc
  · intro hcount cs hnodup hcs
    have hsub := List.subperm_of_subset hnodup fun c hc => (h.user u c).2 (hcs c hc)
    exact hsub.length_le.trans hcount

theorem isLive_of_userOf (h : m.userOf c = some u) : m.IsLive c := by
  obtain ⟨session, hs, -⟩ := Option.bind_eq_some_iff.1 h
  simp [IsLive, hs]

/-- Every client of the set has a session, so that none is skipped. -/
theorem oldestForUser_eq (h : SessionInv m) :
    m.oldestForUser u = firstMin m.connectedAt (m.userSessions u) := by
  have hall : ((m.userSessions u).filter fun c => (m.sessions c).isSome) = m.userSessions u :=
    List.filter_eq_self.2 fun c hc => isLive_of_userOf ((h.user u c).1 hc)
  rw [oldestForUser, hall]

/-- A check that goes on has chosen the oldest of more sessions than the cap. -/
theorem checkCap_eq_evicting {call : CapCall} {v : String}
    (hv : m.checkCap n call = .evicting v) :
    n < m.countForUser call.userId ∧ m.oldestForUser call.userId = some v := by
  rw [checkCap] at hv
  split at hv
  · cases hv
  · rename_i hcount
    refine ⟨not_le.1 hcount, ?_⟩
    cases hold : m.oldestForUser call.userId with
    | none => simp [hold] at hv
    | some oldest =>
        simp only [hold] at hv
        split at hv
        · cases hv
        · simpa using hv

/-- A check that ends the call has found no more sessions than the cap, unless the oldest one is the
new one. -/
theorem checkCap_eq_done (h : SessionInv m) {call : CapCall} (hdone : m.checkCap n call = .done)
    (hnew : n < m.countForUser call.userId →
      m.oldestForUser call.userId ≠ some call.newClientId) :
    m.countForUser call.userId ≤ n := by
  by_contra hcount
  have hmany : n < m.countForUser call.userId := not_le.1 hcount
  have hne : m.userSessions call.userId ≠ [] := by
    intro hnil
    simp [countForUser, hnil] at hmany
  have hsome : (firstMin m.connectedAt (m.userSessions call.userId)).isSome := firstMin_isSome hne
  obtain ⟨oldest, hold⟩ := Option.isSome_iff_exists.1 hsome
  rw [← oldestForUser_eq h] at hold
  have hother : oldest ≠ call.newClientId := fun heq => hnew hmany (heq ▸ hold)
  simp [checkCap, hcount, hold, hother] at hdone

/-- A session of the user that leaves takes one off the count. -/
theorem countForUser_disconnect_lt (h : SessionInv m) (hc : c ∈ m.userSessions u) :
    (m.disconnect c).countForUser u < m.countForUser u := by
  have huser := (h.user u c).1 hc
  obtain ⟨session, hs, hauth⟩ := Option.bind_eq_some_iff.1 huser
  have hwithout : (m.disconnect c).userSessions u = without (m.userSessions u) c := by
    simp [disconnect, hs, hauth]
  rw [countForUser, hwithout]
  exact List.length_filter_lt_length_iff_exists.2 ⟨c, hc, by simp⟩

/-- A call that nothing comes between returns. -/
theorem enforceConnectionCap_isSome (call : CapCall) :
    ∀ {passes : Nat} {m : SessionManager}, SessionInv m → m.countForUser call.userId < passes →
      (m.enforceConnectionCap n call passes).isSome := by
  intro passes
  induction passes with
  | zero => intro m _ hcount; omega
  | succ passes ih =>
      intro m h hcount
      rw [enforceConnectionCap]
      split
      · rename_i v hv
        obtain ⟨-, hold⟩ := checkCap_eq_evicting hv
        rw [oldestForUser_eq h] at hold
        have hlt := countForUser_disconnect_lt h (firstMin_spec hold).1
        exact ih (inv_disconnect h v) (by omega)
      · rfl

end SessionManager

/-! ## Sessions about to be evicted -/

/-- If the client has a session still, it is one of the user's, and at least `n` are newer. -/
def SessionManager.Spare (m : SessionManager) (n : Nat) (u v : String) : Prop :=
  m.IsLive v → m.userOf v = some u ∧ ManyLater m.connectedAt (m.userSessions u) n v

namespace SessionManager

variable {m m' : SessionManager} {c u v : String} {n : Nat}

/-- What leaves the user's set, the session and the ages of the set alone. -/
theorem Spare.congr (hlive : m'.IsLive v → m.IsLive v) (huser : m'.userOf v = m.userOf v)
    (hset : (m.userSessions u).Sublist (m'.userSessions u))
    (hage : ∀ x, x = v ∨ x ∈ m.userSessions u → m.connectedAt x = m'.connectedAt x)
    (h : m.Spare n u v) : m'.Spare n u v := by
  intro hv
  obtain ⟨hu, hmany⟩ := h (hlive hv)
  have hmany' := hmany.congr (hage v (.inl rfl)) fun x hx => hage x (.inr hx)
  exact ⟨huser.trans hu, hmany'.mono hset⟩

theorem spare_connect (hinv : SessionInv m) (now : Nat) (hne : v ≠ c)
    (hfresh : ∀ session, m.sessions c = some session → session.auth = none)
    (h : m.Spare n u v) : (m.connect c now).Spare n u v := by
  -- The replaced session is in no user's set.
  have hout : c ∉ m.userSessions u := by
    rw [hinv.user, userOf]
    cases hc : m.sessions c with
    | none => simp
    | some session => simp [Session.user, hfresh session hc]
  refine Spare.congr (m := m) (fun hv => ?_) ?_ (List.Sublist.refl _) (fun x hx => ?_) h
  · simpa [IsLive, connect, Table.put, hne] using hv
  · simp [userOf, connect, Table.put, hne]
  · have hxc : x ≠ c := by
      rintro rfl
      exact hx.elim (fun heq => hne heq.symm) hout
    simp [connectedAt, connect, Table.put, hxc]

theorem spare_disconnect (hinv : SessionInv m)
    (hleave : v ≠ c → m.IsLive v → m.userOf c = some u →
      ManyLater m.connectedAt (without (m.userSessions u) c) n v)
    (h : m.Spare n u v) : (m.disconnect c).Spare n u v := by
  intro hv
  have hne : v ≠ c := by
    rintro rfl
    cases hs : m.sessions v <;> simp [IsLive, disconnect, hs, Table.remove] at hv
  have hage : ∀ x, x ≠ c → m.connectedAt x = (m.disconnect c).connectedAt x := by
    intro x hx
    cases hs : m.sessions c <;> simp [connectedAt, disconnect, hs, Table.remove, hx]
  have hlive : m.IsLive v := by
    cases hs : m.sessions c <;> simpa [IsLive, disconnect, hs, Table.remove, hne] using hv
  obtain ⟨hu, hmany⟩ := h hlive
  refine ⟨?_, ?_⟩
  · cases hs : m.sessions c <;> simpa [userOf, disconnect, hs, Table.remove, hne] using hu
  · -- With the client in the set or not, the rest of the set keeps its ages.
    have hrest : ManyLater m.connectedAt (without (m.userSessions u) c) n v := by
      by_cases hc : m.userOf c = some u
      · exact hleave hne hlive hc
      · have hout : c ∉ m.userSessions u := fun hmem => hc ((hinv.user u c).1 hmem)
        rwa [without_of_notMem hout]
    refine (hrest.congr (hage v hne) fun x hx => hage x (mem_without.1 hx).2).mono ?_
    cases hs : m.sessions c with
    | none => simp [disconnect, hs, without]
    | some session =>
        by_cases hauth : session.user = some u
        · simp [disconnect, hs, hauth]
        · simp [disconnect, hs, hauth, without]

theorem spare_setAuth (auth : AuthContext)
    (hleave : m.userOf c ≠ some auth.userId → v ≠ c → m.IsLive v → m.userOf c = some u →
      ManyLater m.connectedAt (without (m.userSessions u) c) n v)
    (hsame : v = c → m.IsLive c → m.userOf c = some auth.userId)
    (h : m.Spare n u v) : (m.setAuth c auth).Spare n u v := by
  cases hc : m.sessions c with
  | none => simpa [setAuth, hc] using h
  | some session =>
      intro hv
      have hage : (m.setAuth c auth).connectedAt = m.connectedAt := by
        funext x
        by_cases hx : x = c
        · simp [connectedAt, setAuth, hc, Table.put, hx]
        · simp [connectedAt, setAuth, hc, Table.put, hx]
      have hlive : m.IsLive v := by
        by_cases hx : v = c
        · simp [IsLive, hx, hc]
        · simpa [IsLive, setAuth, hc, Table.put, hx] using hv
      have hold : m.userOf c = session.user := by simp [userOf, hc]
      obtain ⟨hu, hmany⟩ := h hlive
      refine ⟨?_, ?_⟩
      · by_cases hx : v = c
        · subst hx
          have huser : some auth.userId = some u := (hsame rfl hlive).symm.trans hu
          simpa [userOf, setAuth, hc, Table.put] using huser
        · simpa [userOf, setAuth, hc, Table.put, hx] using hu
      · rw [hage]
        by_cases hnew : u = auth.userId
        · refine hmany.mono ?_
          simpa [setAuth, hc, hnew] using sublist_addLast (m.userSessions auth.userId) c
        · by_cases hleft : session.user = some u
          · -- The client leaves the user for another one.
            have huc : m.userOf c = some u := hold.trans hleft
            have hother : m.userOf c ≠ some auth.userId := by
              rw [huc]
              exact fun heq => hnew (Option.some.inj heq)
            have hne : v ≠ c := fun heq =>
              hother (hsame heq (isLive_of_userOf huc))
            simpa [setAuth, hc, hnew, hleft] using hleave hother hne hlive huc
          · simpa [setAuth, hc, hnew, hleft] using hmany

/-- The subscriptions of a client are no matter for the cap. -/
theorem spare_subscriptions {session : Session} (hc : m.sessions c = some session)
    (subscriptions : Record Subscription) (querySubscribers : String → List String)
    (h : m.Spare n u v) :
    SessionManager.Spare { m with
      sessions := m.sessions.put c { session with subscriptions := subscriptions }
      querySubscribers := querySubscribers } n u v := by
  refine Spare.congr (m := m) (fun hv => ?_) ?_ (List.Sublist.refl _) (fun x _ => ?_) h
  · by_cases hx : v = c
    · simp [IsLive, hx, hc]
    · simpa [IsLive, Table.put, hx] using hv
  · by_cases hx : v = c
    · simp [userOf, hx, hc, Table.put, Session.user]
    · simp [userOf, Table.put, hx]
  · by_cases hx : x = c
    · simp [connectedAt, hx, hc, Table.put]
    · simp [connectedAt, Table.put, hx]

end SessionManager

/-! ## Runs -/

structure ConnectionInv (maxConnections : Nat) (s : Connections) : Prop where
  manager : SessionInv s.manager
  spare : ∀ u v, s.Evicting u v → s.manager.Spare maxConnections u v

section Runs

variable {maxConnections : Nat} {s s' : Connections}

/-- A change of one call's phase adds at most the victim of the new phase. -/
theorem evicting_setPhase {i : Nat} {call : CapCall} {phase : CapPhase} {u v : String}
    {manager : SessionManager}
    (h : (Connections.setPhase ⟨manager, s.calls⟩ i call phase).Evicting u v) :
    s.Evicting u v ∨ call.userId = u ∧ phase = .evicting v := by
  obtain ⟨other, hmem, hu, hphase⟩ := h
  rcases List.mem_or_eq_of_mem_set hmem with hold | rfl
  · exact Or.inl ⟨other, hold, hu, hphase⟩
  · exact Or.inr ⟨hu, hphase⟩

theorem connectionInv_check {i : Nat} (h : ConnectionInv maxConnections s)
    (hs : s.stepCheck maxConnections i = some s') : ConnectionInv maxConnections s' := by
  unfold Connections.stepCheck at hs
  split at hs
  · rename_i call hcall
    split at hs
    · obtain rfl := Option.some.inj hs
      refine ⟨h.manager, fun u v hv => ?_⟩
      rcases evicting_setPhase hv with hold | ⟨rfl, hphase⟩
      · exact h.spare u v hold
      · -- The victim is the oldest of more sessions than the cap.
        obtain ⟨hcount, hold⟩ := SessionManager.checkCap_eq_evicting hphase
        rw [SessionManager.oldestForUser_eq h.manager] at hold
        intro _
        exact ⟨(h.manager.user _ v).1 (firstMin_spec hold).1,
          ManyLater.of_firstMin (h.manager.userNodup _) hcount hold⟩
    · cases hs
  · cases hs

theorem connectionInv_evict {i : Nat} (h : ConnectionInv maxConnections s)
    (hs : s.stepEvict i = some s') : ConnectionInv maxConnections s' := by
  unfold Connections.stepEvict at hs
  split at hs
  · rename_i call hcall
    split at hs
    · rename_i victim hphase
      obtain rfl := Option.some.inj hs
      have hvictim : s.Evicting call.userId victim :=
        ⟨call, List.mem_of_getElem? hcall, rfl, hphase⟩
      refine ⟨SessionManager.inv_disconnect h.manager victim, fun u v hv => ?_⟩
      rcases evicting_setPhase hv with hold | ⟨-, hnone⟩
      · refine SessionManager.spare_disconnect h.manager (fun hne hlive hu => ?_) (h.spare u v hold)
        -- Enough sessions are newer than each of the two.
        obtain ⟨hu', hmany⟩ := h.spare _ _ hvictim (SessionManager.isLive_of_userOf hu)
        obtain rfl : call.userId = u := Option.some.inj (hu'.symm.trans hu)
        obtain ⟨-, hmany'⟩ := h.spare _ _ hold hlive
        exact ManyLater.without (h.manager.userNodup _) hne.symm hmany hmany'
      · cases hnone
    · cases hs
  · cases hs

/-- One step under the condition keeps the indexes and the spare sessions. -/
theorem connectionInv_step {e : ConnectionEvent} (h : ConnectionInv maxConnections s)
    (hg : ConnectsOnce maxConnections s e) (hs : s.step maxConnections e = some s') :
    ConnectionInv maxConnections s' := by
  cases e with
  | connect c now =>
      obtain rfl := Option.some.inj hs
      obtain ⟨hfresh, hnot⟩ := hg
      refine ⟨SessionManager.inv_connect h.manager now hfresh, fun u v hv => ?_⟩
      have hne : v ≠ c := fun heq => hnot u (heq ▸ hv)
      exact SessionManager.spare_connect h.manager now hne (fun session hc => (hfresh session hc).1)
        (h.spare u v hv)
  | disconnect c =>
      obtain rfl := Option.some.inj hs
      refine ⟨SessionManager.inv_disconnect h.manager c, fun u v hv => ?_⟩
      exact SessionManager.spare_disconnect h.manager (hg u v hv) (h.spare u v hv)
  | setAuth c auth =>
      obtain rfl := Option.some.inj hs
      refine ⟨SessionManager.inv_setAuth h.manager c auth, fun u v hv => ?_⟩
      refine SessionManager.spare_setAuth auth (fun hother => (hg hother).1 u v hv)
        (fun heq hlive => ?_) (h.spare u v hv)
      by_contra hother
      exact (hg hother).2 u (heq ▸ hv) hlive
  | subscribe c q params roomKey windowSize =>
      obtain rfl := Option.some.inj hs
      refine ⟨SessionManager.inv_subscribe h.manager c q params roomKey windowSize,
        fun u v hv => ?_⟩
      cases hc : s.manager.sessions c with
      | none => simpa [SessionManager.subscribe, hc] using h.spare u v hv
      | some session =>
          simpa [SessionManager.subscribe, hc] using
            SessionManager.spare_subscriptions hc _ _ (h.spare u v hv)
  | unsubscribe c q =>
      obtain rfl := Option.some.inj hs
      refine ⟨SessionManager.inv_unsubscribe h.manager c q, fun u v hv => ?_⟩
      cases hc : s.manager.sessions c with
      | none => simpa [SessionManager.unsubscribe, hc] using h.spare u v hv
      | some session =>
          simpa [SessionManager.unsubscribe, hc] using
            SessionManager.spare_subscriptions hc _ _ (h.spare u v hv)
  | enforceCap u c =>
      obtain rfl := Option.some.inj hs
      refine ⟨h.manager, fun u' v hv => h.spare u' v ?_⟩
      obtain ⟨call, hmem, hu, hphase⟩ := hv
      rcases List.mem_append.1 hmem with hold | hnew
      · exact ⟨call, hold, hu, hphase⟩
      · -- A new call evicts nobody yet.
        obtain rfl := List.mem_singleton.1 hnew
        by_cases hzero : maxConnections = 0 <;> simp [hzero] at hphase
  | checkCap i => exact connectionInv_check h hs
  | evict i => exact connectionInv_evict h hs

theorem connectionInv_reach (h : (connectionMachine maxConnections).Reach
    (ConnectsOnce maxConnections) s) : ConnectionInv maxConnections s := by
  refine h.invariant ⟨SessionManager.inv_empty, ?_⟩ fun hinv hg hs => connectionInv_step hinv hg hs
  rintro u v ⟨call, hmem, -⟩
  cases hmem

/-- Under the invariant, a step keeps to the cap. -/
theorem capKept_of_inv {e : ConnectionEvent} (h : ConnectionInv maxConnections s)
    (hg : ConnectsOnce maxConnections s e) (hs : s.step maxConnections e = some s') :
    CapKept maxConnections s e s' where
  returns i call he hcall hdone := by
    subst he
    have hs : s.stepCheck maxConnections i = some s' := hs
    unfold Connections.stepCheck at hs
    split at hs
    · rename_i before hbefore
      split at hs
      · obtain rfl := Option.some.inj hs
        have hlt : i < s.calls.length := (List.getElem?_eq_some_iff.1 hbefore).1
        have heq : { before with phase := s.manager.checkCap maxConnections before } = call := by
          simpa [Connections.setPhase, hlt] using hcall
        subst heq
        apply (SessionManager.atMostLive_iff h.manager).2
        exact SessionManager.checkCap_eq_done h.manager hdone (hg before hbefore)
      · cases hs
    · cases hs
  evicts i call victim he hcall hphase hlive := by
    have hvictim : s.Evicting call.userId victim :=
      ⟨call, List.mem_of_getElem? hcall, rfl, hphase⟩
    obtain ⟨hu, hmany⟩ := h.spare _ _ hvictim hlive
    refine ⟨hu, ?_⟩
    rw [SessionManager.atMostLive_iff h.manager, not_le]
    exact hmany.length_lt (h.manager.userNodup _) ((h.manager.user _ _).2 hu)

/-- In the runs in which clients connect once, the indexes are exact and the cap is kept. -/
theorem connections_sound (h : (connectionMachine maxConnections).Reach
    (ConnectsOnce maxConnections) s) :
    ConnectionsSound maxConnections (ConnectsOnce maxConnections) s := by
  have hinv := connectionInv_reach h
  refine ⟨hinv.manager.indexesExact, fun e s' hg hs => capKept_of_inv hinv hg hs, fun call => ?_⟩
  exact SessionManager.enforceConnectionCap_isSome call hinv.manager (Nat.lt_succ_self _)

end Runs

/-! ### A run with an eviction -/

/-- A check that implies the condition: fresh ids, and nothing but the call's own steps while it
evicts a session. -/
def connectsOnceCheck (maxConnections : Nat) (s : Connections) : ConnectionEvent → Bool
  | .connect c _ => (s.manager.sessions c).isNone ∧ s.calls = []
  | .disconnect _ => s.calls = []
  | .setAuth _ _ => s.calls = []
  | .checkCap i => (s.calls[i]?).all fun call =>
    maxConnections < s.manager.countForUser call.userId →
      s.manager.oldestForUser call.userId ≠ some call.newClientId
  | _ => true

theorem connectsOnce_of_check {maxConnections : Nat} (s : Connections) (e : ConnectionEvent)
    (h : connectsOnceCheck maxConnections s e = true) : ConnectsOnce maxConnections s e := by
  have hnone : s.calls = [] → ∀ u v, ¬ s.Evicting u v := by
    rintro hnil u v ⟨call, hmem, -⟩
    simp [hnil] at hmem
  cases e with
  | connect c now =>
      have h : s.manager.sessions c = none ∧ s.calls = [] := by
        simpa [connectsOnceCheck] using h
      exact ⟨fun session hs => by simp [h.1] at hs, fun u => hnone h.2 u c⟩
  | disconnect c =>
      have h : s.calls = [] := by simpa [connectsOnceCheck] using h
      exact fun u v hv => absurd hv (hnone h u v)
  | setAuth c auth =>
      have h : s.calls = [] := by simpa [connectsOnceCheck] using h
      exact fun _ => ⟨fun u v hv => absurd hv (hnone h u v), fun u hv => absurd hv (hnone h u c)⟩
  | checkCap i =>
      intro call hcall hcount
      have hcheck : (s.calls[i]?).all (fun call => decide
          (maxConnections < s.manager.countForUser call.userId →
            s.manager.oldestForUser call.userId ≠ some call.newClientId)) = true := h
      rw [hcall] at hcheck
      exact of_decide_eq_true hcheck hcount
  | _ => trivial

def userAlice : AuthContext :=
  ⟨"alice", ∅⟩

/-- With a cap of one, a second session of a user makes the first one go. -/
def secondSession : List ConnectionEvent :=
  [.connect "a" 1, .setAuth "a" userAlice, .subscribe "a" "todos" ∅ none none, .connect "b" 2,
    .setAuth "b" userAlice, .enforceCap "alice" "b", .checkCap 0, .evict 0, .checkCap 0]

theorem connections_sound_secondSession :
    ∃ s, (connectionMachine 1).Reach (ConnectsOnce 1) s ∧ s.manager.countForUser "alice" = 1 ∧
      ConnectionsSound 1 (ConnectsOnce 1) s := by
  have hrun : (((connectionMachine 1).runWith (connectsOnceCheck 1) (connectionMachine 1).init
      secondSession).map fun s => s.manager.countForUser "alice") = some 1 := by
    decide +kernel
  obtain ⟨s, hs, hcount⟩ := Option.map_eq_some_iff.1 hrun
  have hreach : (connectionMachine 1).Reach (ConnectsOnce 1) s :=
    Machine.Reach.of_runWith connectsOnce_of_check .init hs
  exact ⟨s, hreach, hcount, connections_sound hreach⟩

/-- A client that connects again under its id is still in the index of the query. -/
def connectedAgain : List ConnectionEvent :=
  [.connect "a" 1, .setAuth "a" userAlice, .subscribe "a" "todos" ∅ none none, .connect "a" 2]

theorem connections_sound_fails :
    ¬ ∀ (maxConnections : Nat) (s : Connections),
      (connectionMachine maxConnections).Reachable s →
        ConnectionsSound maxConnections (fun _ _ => True) s := by
  intro h
  have hrun : (((connectionMachine 1).run connectedAgain).map fun s =>
      (s.manager.querySubscribers "todos",
        (s.manager.sessions "a").map fun session => session.subscriptions.keys)) =
      some (["a"], some []) := by
    decide +kernel
  obtain ⟨s, hs, hstate⟩ := Option.map_eq_some_iff.1 hrun
  obtain ⟨hindex, hkeys⟩ := Prod.mk.inj hstate
  have hsound := (h 1 s (Machine.Reachable.of_run hs)).indexes.query "todos" "a"
  rw [hindex] at hsound
  obtain ⟨session, hsession, hmem⟩ := hsound.1 (by simp)
  have hnil : session.subscriptions.keys = [] := by simpa [hsession] using hkeys
  have hmem : "todos" ∈ session.subscriptions.keys := hmem
  simp [hnil] at hmem

/-- The oldest connection authenticates last: the call that enforces the cap returns at once, and
both sessions stay. -/
example :
    (((connectionMachine 1).run [.connect "a" 1, .connect "b" 2, .setAuth "b" userAlice,
      .enforceCap "alice" "b", .checkCap 0, .setAuth "a" userAlice, .enforceCap "alice" "a",
      .checkCap 1]).map fun s => (s.calls.map (·.phase), s.manager.userSessions "alice")) =
      some ([.done, .done], ["b", "a"]) := by
  decide +kernel

end Server
end Reflectdb
