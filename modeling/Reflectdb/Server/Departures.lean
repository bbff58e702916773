import Reflectdb.Server.RedisEphemeral

/-!
# Departures — what a client leaves in the ephemeral store

A handler sets a client's entries room by room and awaits the store in between, while the client's
connection closes, its queue overflows or the connection cap evicts it.  `onDisconnect` and the cap
have the store forget the client; an overflow leaves that to the transport, which may not report a
connection that it is told to close.
-/

namespace Reflectdb
namespace Server

open Core Client Lib

/-! ## The stores -/

structure PostgresRow where
  state : TimedState
  expiresAt : Int

structure PostgresEphemeral where
  rows : AList fun _ : EntryName => PostgresRow
  maxEntries : Int
  maxAgeMs : Int

namespace PostgresEphemeral

variable (p : PostgresEphemeral)

/-- One statement; a text with a NUL makes it fail. -/
def set (name : EntryName) (state : TimedState) (now : Int) : Option (PostgresEphemeral × Bool) :=
  let live := p.rows.entries.filter fun e => now < e.2.expiresAt
  if name.NulFree then
    if name ∈ p.rows ∨ (live.length : Int) < p.maxEntries then
      let row := ⟨state, now + state.ttlMs.getD p.maxAgeMs⟩
      some ({ p with rows := p.rows.insert name row }, true)
    else some (p, false)
  else none

def removeClient (clientId : String) : PostgresEphemeral :=
  { p with rows := keep p.rows fun name _ => name.clientId ≠ clientId }

def cleanupExpired (now : Int) : PostgresEphemeral :=
  let due := ((p.rows.entries.filter fun e => e.2.expiresAt ≤ now).map (·.1)).take 1000
  { p with rows := keep p.rows fun name _ => name ∉ due }

end PostgresEphemeral

inductive EphemeralBackend
  | memory (m : EphemeralManager)
  | redis (config : RedisConfig) (r : RedisEphemeral)
  | postgres (p : PostgresEphemeral)

namespace EphemeralBackend

/-- `none` if the call fails; `false` if there is no room. -/
def set (name : EntryName) (state : TimedState) (now : Int) :
    EphemeralBackend → Option (EphemeralBackend × Bool)
  | memory m => some (memory (m.set name state).1, (m.set name state).2)
  | redis config r =>
    some (redis config (r.set config name state now).1, (r.set config name state now).2)
  | postgres p => (p.set name state now).map fun set => (postgres set.1, set.2)

/-- `removeClient`, up to its first await; Redis has then to remove one entry after the other. -/
def removeClient (clientId : String) : EphemeralBackend → EphemeralBackend × Option Removal
  | memory m => (memory (m.removeClient clientId), none)
  | redis config r => (redis config r, some (r.removeClient config clientId))
  | postgres p => (postgres (p.removeClient clientId), none)

def cleanupExpired (now : Int) : EphemeralBackend → EphemeralBackend × Option Removal
  | memory m => (memory (m.cleanupExpired now), none)
  | redis config r => (redis config r, some (r.cleanupExpired now))
  | postgres p => (postgres (p.cleanupExpired now), none)

def runRemoval (removal : Removal) : EphemeralBackend → EphemeralBackend × Removal
  | redis config r =>
    (redis config (r.runRemoval config removal).1, (r.runRemoval config removal).2)
  | b => (b, ⟨[], none⟩)

/-- Time passes; keys of Redis expire. -/
def expire (now : Int) : EphemeralBackend → EphemeralBackend
  | redis config r => redis config (r.expire now)
  | b => b

/-- An entry of the client is stored. -/
def Holds (clientId : String) : EphemeralBackend → Prop
  | memory m => ∃ name ∈ m.store.keys, name.clientId = clientId
  | redis _ r => ∃ k ∈ r.hashes.keys, k.2 = clientId
  | postgres p => ∃ name ∈ p.rows.keys, name.clientId = clientId

end EphemeralBackend

/-! ## The machine -/

structure HandlerConfig where
  /-- The transport does not report a connection that the server closes. -/
  silent : Bool
  /-- Zero stands for no cap. -/
  maxConnectionsPerUser : Nat

structure EphemeralMessage where
  key : String
  data : Record Json
  ttlMs : Option Int

def maxEphemeralTtlMs : Int :=
  24 * 60 * 60 * 1000

def EphemeralMessage.clampedTtl (message : EphemeralMessage) : Option Int :=
  (message.ttlMs.filter (0 < ·)).map (min · maxEphemeralTtlMs)

inductive HandlerPhase
  | queued
  /-- The rooms that the entry is still to be set in. -/
  | setting (userId : String) (message : EphemeralMessage) (rooms : List String)
  | done

def HandlerPhase.isDone : HandlerPhase → Bool
  | done => true
  | _ => false

structure HandlerJob where
  clientId : String
  /-- The client's queue that it is in; a disconnect starts another one. -/
  queue : Nat
  /-- `none` for a message that sets no entry. -/
  message : Option EphemeralMessage
  phase : HandlerPhase

inductive OverflowPhase
  /-- The messages that were queued before, so many of them, are being handled. -/
  | draining (jobs : Nat)
  | closing
  | finishing
  | done
  deriving DecidableEq

structure Overflow where
  clientId : String
  queue : Nat
  phase : OverflowPhase

inductive EvictionPhase
  | checking
  | notifying (victim : String)
  | closed (victim : String)
  /-- The cleanup is awaited. -/
  | forgetting (cleanup : Nat)
  | done
  deriving DecidableEq

/-- A call of `enforceConnectionCap`. -/
structure Eviction where
  userId : String
  newClientId : String
  phase : EvictionPhase

inductive CleanupPhase
  | called
  | removing (removal : Removal)
  | done
  deriving DecidableEq

/-- A call of `forgetEphemeralClient`. -/
structure Cleanup where
  clientId : String
  phase : CleanupPhase

def CleanupPhase.removal : CleanupPhase → Option Removal
  | removing removal => some removal
  | _ => none

structure Departures where
  now : Int
  sessions : SessionManager
  /-- The connections that the transport will report as closed. -/
  sockets : String → Nat
  queues : String → Nat
  messageQueueDepths : String → Option Int
  backend : EphemeralBackend
  jobs : List HandlerJob
  overflows : List Overflow
  evictions : List Eviction
  cleanups : List Cleanup
  sweeps : List Removal

inductive DepartureEvent
  | connect (clientId : String)
  /-- The transport reports a connection as closed. -/
  | close (clientId : String)
  | setAuth (clientId : String) (auth : AuthContext)
  | subscribe (clientId query : String) (params : Record Json) (roomKey : Option String)
      (window : Option Int)
  | unsubscribe (clientId query : String)
  /-- The server closes a connection that does not authenticate. -/
  | refuse (clientId : String)
  | receive (clientId : String) (message : Option EphemeralMessage)
  /-- A message is handled up to its next await. -/
  | advance (job : Nat)
  /-- A limit or a failed call ends the handling. -/
  | giveUp (job : Nat)
  | overflow (i : Nat)
  | enforceCap (userId newClientId : String)
  | evict (i : Nat)
  | cleanup (i : Nat)
  /-- A command of the cleanup fails; the error is logged. -/
  | failCleanup (i : Nat)
  | cleanupExpired
  | sweep (i : Nat)
  | tick (ms : Nat)

namespace Departures

variable (config : HandlerConfig) (s : Departures)

def start (backend : EphemeralBackend) : Departures :=
  ⟨0, .empty, fun _ => 0, fun _ => 0, fun _ => none, backend, [], [], [], [], []⟩

def maxQueueDepth : Int :=
  100

/-- `transport.disconnect`. -/
def transportDisconnect (c : String) : Departures :=
  { s with sockets := if config.silent then Function.update s.sockets c 0 else s.sockets }

/-- The session and the queue go. -/
def leave (c : String) : Departures :=
  { s with
    sessions := s.sessions.disconnect c
    queues := Function.update s.queues c (s.queues c + 1)
    messageQueueDepths := Function.update s.messageQueueDepths c none }

def forgetEphemeralClient (c : String) : Departures :=
  { s with cleanups := s.cleanups ++ [⟨c, .called⟩] }

def onDisconnect (c : String) : Departures :=
  ({ s with sockets := Function.update s.sockets c (s.sockets c - 1) }.leave
    c).forgetEphemeralClient
    c

def receive (c : String) (message : Option EphemeralMessage) : Departures :=
  let depth := (s.messageQueueDepths c).getD 0
  if maxQueueDepth ≤ depth then
    { s with overflows := s.overflows ++ [⟨c, s.queues c, .draining s.jobs.length⟩] }
  else
    { s with
      messageQueueDepths := Function.update s.messageQueueDepths c (some (depth + 1))
      jobs := s.jobs ++ [⟨c, s.queues c, message, .queued⟩] }

def setPhase (j : Nat) (job : HandlerJob) (phase : HandlerPhase) : Departures :=
  { s with jobs := s.jobs.set j { job with phase := phase } }

/-- The handler returns. -/
def finish (j : Nat) (job : HandlerJob) : Departures :=
  { s with
    messageQueueDepths := Function.update s.messageQueueDepths job.clientId
      ((s.messageQueueDepths job.clientId).map (· - 1)) }.setPhase j job .done

/-- Of the first so many messages, those of the client's queue are handled. -/
def handled (jobs : Nat) (c : String) (queue : Nat) : Bool :=
  (s.jobs.take jobs).all fun job => job.clientId ≠ c || job.queue ≠ queue || job.phase.isDone

def roomKeys (session : Session) : List String :=
  (session.subscriptions.entries.filterMap fun e => e.2.roomKey.filter (· ≠ "")).foldl addLast []

/-- The session of a client that has authenticated. -/
def authenticated (c : String) : Option (Session × AuthContext) :=
  (s.sessions.sessions c).bind fun session => session.auth.map (session, ·)

/-- An ephemeral message up to its first await. -/
def handleEphemeral (j : Nat) (job : HandlerJob) (message : EphemeralMessage) : Departures :=
  match s.authenticated job.clientId with
  | some (session, auth) => s.setPhase j job (.setting auth.userId message (roomKeys session))
  | none => (s.transportDisconnect config job.clientId).finish j job

/-- The entry that a handler sets in a room, and what the store makes of it. -/
def setEntry (job : HandlerJob) (userId : String) (message : EphemeralMessage) (room : String) :
    Option (EphemeralBackend × Bool) :=
  let name : EntryName := ⟨room, message.key, job.clientId⟩
  s.backend.set name (newState name userId message.data message.clampedTtl s.now) s.now

def advance (j : Nat) (job : HandlerJob) : Option Departures :=
  match job.phase with
  | .queued =>
    if s.handled j job.clientId job.queue then
      match job.message with
      | some message => some (s.handleEphemeral config j job message)
      | none => some (s.finish j job)
    else none
  | .setting userId message (room :: rooms) =>
    match s.setEntry job userId message room with
    | some (backend, true) =>
      some ({ s with backend := backend }.setPhase j job (.setting userId message rooms))
    -- No room, or the call fails.
    | _ => some (s.finish j job)
  -- The fan-out and the bus write no entry.
  | .setting _ _ [] => some (s.finish j job)
  | .done => none

def overflow (i : Nat) (o : Overflow) : Option Departures :=
  let setPhase := fun (s : Departures) phase =>
    { s with overflows := s.overflows.set i { o with phase := phase } }
  match o.phase with
  | .draining jobs => if s.handled jobs o.clientId o.queue then some (setPhase s .closing) else none
  | .closing => some (setPhase (s.transportDisconnect config o.clientId) .finishing)
  | .finishing => some (setPhase (s.leave o.clientId) .done)
  | .done => none

def setEviction (i : Nat) (e : Eviction) (phase : EvictionPhase) : Departures :=
  { s with evictions := s.evictions.set i { e with phase := phase } }

def evict (i : Nat) (e : Eviction) : Option Departures :=
  match e.phase with
  | .checking =>
    match s.sessions.checkCap config.maxConnectionsPerUser ⟨e.userId, e.newClientId, .checking⟩ with
    | .evicting victim => some (s.setEviction i e (.notifying victim))
    | _ => some (s.setEviction i e .done)
  | .notifying victim =>
    some ((s.transportDisconnect config victim).setEviction i e (.closed victim))
  | .closed victim =>
    some (((s.leave victim).forgetEphemeralClient victim).setEviction i e
      (.forgetting s.cleanups.length))
  | .forgetting cleanup =>
    if s.cleanups[cleanup]?.all (·.phase = .done) then some (s.setEviction i e .checking) else none
  | .done => none

def setCleanup (i : Nat) (cl : Cleanup) (phase : CleanupPhase) : Departures :=
  { s with cleanups := s.cleanups.set i { cl with phase := phase } }

def cleanup (i : Nat) (cl : Cleanup) : Option Departures :=
  match cl.phase with
  | .called =>
    let called := s.backend.removeClient cl.clientId
    some ({ s with backend := called.1 }.setCleanup i cl
      (match called.2 with
        | some removal => .removing removal
        | none => .done))
  | .removing removal =>
    let ran := s.backend.runRemoval removal
    some ({ s with backend := ran.1 }.setCleanup i cl
      (if ran.2.clientId.isSome then .removing ran.2 else .done))
  | .done => none

def step : DepartureEvent → Option Departures
  | .connect c =>
    some { s with
      sessions := s.sessions.connect c s.now.toNat
      sockets := Function.update s.sockets c (s.sockets c + 1) }
  | .close c => if 0 < s.sockets c then some (s.onDisconnect c) else none
  | .setAuth c auth => some { s with sessions := s.sessions.setAuth c auth }
  | .subscribe c query params roomKey window =>
    some { s with sessions := s.sessions.subscribe c query params roomKey window }
  | .unsubscribe c query => some { s with sessions := s.sessions.unsubscribe c query }
  | .refuse c => some (s.transportDisconnect config c)
  | .receive c message => some (s.receive c message)
  | .advance j => s.jobs[j]?.bind (s.advance config j)
  | .giveUp j => s.jobs[j]?.map (s.finish j)
  | .overflow i => s.overflows[i]?.bind (s.overflow config i)
  | .enforceCap userId newClientId =>
    some { s with evictions := s.evictions ++ [⟨userId, newClientId,
      if config.maxConnectionsPerUser = 0 then .done else .checking⟩] }
  | .evict i => s.evictions[i]?.bind (s.evict config i)
  | .cleanup i => s.cleanups[i]?.bind (s.cleanup i)
  | .failCleanup i => s.cleanups[i]?.map (s.setCleanup i · .done)
  | .cleanupExpired =>
    let swept := s.backend.cleanupExpired s.now
    some { s with backend := swept.1, sweeps := s.sweeps ++ swept.2.toList }
  | .sweep i => s.sweeps[i]?.map fun removal =>
    let ran := s.backend.runRemoval removal
    { s with backend := ran.1, sweeps := s.sweeps.set i ran.2 }
  | .tick ms => some { s with now := s.now + ms, backend := s.backend.expire (s.now + ms) }

end Departures

inductive StoreConfig
  | memory (maxEntries : Int)
  | redis (config : RedisConfig)
  | postgres (maxEntries maxAgeMs : Int)

/-- A store without entries. -/
def StoreConfig.empty : StoreConfig → EphemeralBackend
  | memory maxEntries => .memory (.empty maxEntries)
  | redis config => .redis config .empty
  | postgres maxEntries maxAgeMs => .postgres ⟨∅, maxEntries, maxAgeMs⟩

def departureMachine (config : HandlerConfig) (store : StoreConfig) :
    Machine Departures DepartureEvent :=
  ⟨.start store.empty, Departures.step config⟩

/-! ## No ghosts -/

def Eviction.Evicts (e : Eviction) (c : String) : Prop :=
  e.phase = .notifying c ∨ e.phase = .closed c

/-- The client is disconnected, and every handler and cleanup of it has finished. -/
structure Departures.Left (s : Departures) (c : String) : Prop where
  session : s.sessions.sessions c = none
  socket : s.sockets c = 0
  jobs : ∀ job ∈ s.jobs, job.clientId = c → job.phase.isDone
  overflows : ∀ o ∈ s.overflows, o.clientId = c → o.phase = .done
  evictions : ∀ e ∈ s.evictions, ¬ e.Evicts c
  cleanups : ∀ cl ∈ s.cleanups, cl.clientId = c → cl.phase = .done

def NoGhosts (s : Departures) : Prop :=
  ∀ c, s.Left c → ¬ s.backend.Holds c

/-! ## The condition -/

namespace Departures

variable (s : Departures)

/-- The connection cap is about to have the client forgotten, or a cleanup of it has not begun. -/
def Forgetting (c : String) : Prop :=
  (∃ e ∈ s.evictions, e.Evicts c) ∨ ∃ cl ∈ s.cleanups, cl.clientId = c ∧ cl.phase = .called

/-- A cleanup of the client has read what it is to remove. -/
def Removing (c : String) (removal : Removal) : Prop :=
  ∃ cl ∈ s.cleanups, cl.clientId = c ∧ removal ∈ cl.phase.removal

/-- The server closes the client's connection: it is reported, or nothing of the client is left for
nobody to remove. -/
def MayClose (config : HandlerConfig) (c : String) : Prop :=
  config.silent = true → s.backend.Holds c → s.Forgetting c

/-- An entry may be stored: the client's disconnect is still to be reported, or a cleanup is still
to remove it; no cleanup of the client misses it; and its names can be told apart again. -/
def MayStore (name : EntryName) : Prop :=
  name.NulFree ∧ (0 < s.sockets name.clientId ∨ s.Forgetting name.clientId ∨
    ∃ cl ∈ s.cleanups, cl.clientId = name.clientId ∧ cl.phase.removal.isSome) ∧
    ∀ cl ∈ s.cleanups, cl.clientId = name.clientId → ∀ removal ∈ cl.phase.removal,
      name ∈ removal.pending

/-- A cleanup may fail: something else will have the client forgotten, or nothing of it is left. -/
def MayFail (i : Nat) (cl : Cleanup) : Prop :=
  s.backend.Holds cl.clientId → 0 < s.sockets cl.clientId ∨
    (s.setCleanup i cl .done).Forgetting cl.clientId

/-- No client's set in Redis expires before an entry of the client. -/
def IndexStays (now : Int) : EphemeralBackend → Prop
  | .redis config r => ∀ k ∈ r.hashes.keys, now ≤ r.expires k.1 →
    now ≤ r.expires (config.clientKey k.2)
  | _ => True

/-- A message may be handled up to its next await. -/
def MayAdvance (config : HandlerConfig) (job : HandlerJob) : Prop :=
  match job.phase with
  | .queued => job.message.isSome → s.authenticated job.clientId = none →
    s.MayClose config job.clientId
  | .setting userId message (room :: _) => (s.setEntry job userId message room).any (·.2) →
    s.MayStore ⟨room, message.key, job.clientId⟩
  | _ => True

end Departures

/-- The handlers and cleanups come in an order in which nothing is missed. -/
def ForgetsAll (config : HandlerConfig) (s : Departures) : DepartureEvent → Prop
  | .refuse c => s.MayClose config c
  | .advance j => ∀ job ∈ s.jobs[j]?, s.MayAdvance config job
  | .overflow i => ∀ o ∈ s.overflows[i]?, o.phase = .closing → s.MayClose config o.clientId
  | .failCleanup i => ∀ cl ∈ s.cleanups[i]?, s.MayFail i cl
  | .tick ms => Departures.IndexStays (s.now + ms) s.backend
  | _ => True

section Decidable

variable (s : Departures)

instance (b : EphemeralBackend) (c : String) : Decidable (b.Holds c) :=
  match b with
  | .memory _ => inferInstanceAs (Decidable (∃ _ ∈ _, _))
  | .redis _ _ => inferInstanceAs (Decidable (∃ _ ∈ _, _))
  | .postgres _ => inferInstanceAs (Decidable (∃ _ ∈ _, _))

instance (e : Eviction) (c : String) : Decidable (e.Evicts c) :=
  inferInstanceAs (Decidable (_ ∨ _))

instance (c : String) : Decidable (s.Left c) :=
  decidable_of_iff ((s.sessions.sessions c).isNone ∧ s.sockets c = 0 ∧
    (∀ job ∈ s.jobs, job.clientId = c → job.phase.isDone) ∧
    (∀ o ∈ s.overflows, o.clientId = c → o.phase = .done) ∧
    (∀ e ∈ s.evictions, ¬ e.Evicts c) ∧ ∀ cl ∈ s.cleanups, cl.clientId = c → cl.phase = .done)
    ⟨fun h => ⟨Option.isNone_iff_eq_none.1 h.1, h.2.1, h.2.2.1, h.2.2.2.1,
      h.2.2.2.2.1, h.2.2.2.2.2⟩,
      fun h => ⟨Option.isNone_iff_eq_none.2 h.1, h.2, h.3, h.4, h.5, h.6⟩⟩

instance (c : String) : Decidable (s.Forgetting c) :=
  inferInstanceAs (Decidable ((∃ _ ∈ _, _) ∨ ∃ _ ∈ _, _))

instance (config : HandlerConfig) (c : String) : Decidable (s.MayClose config c) :=
  inferInstanceAs (Decidable (_ → _ → _))

instance (name : EntryName) : Decidable (s.MayStore name) :=
  inferInstanceAs (Decidable (_ ∧ (_ ∨ _ ∨ ∃ _ ∈ _, _) ∧ ∀ _ ∈ _, _))

instance (i : Nat) (cl : Cleanup) : Decidable (s.MayFail i cl) :=
  inferInstanceAs (Decidable (_ → _ ∨ _))

instance (now : Int) (b : EphemeralBackend) : Decidable (Departures.IndexStays now b) :=
  match b with
  | .memory _ => inferInstanceAs (Decidable True)
  | .redis _ _ => inferInstanceAs (Decidable (∀ _ ∈ _, _))
  | .postgres _ => inferInstanceAs (Decidable True)

instance (config : HandlerConfig) (job : HandlerJob) : Decidable (s.MayAdvance config job) := by
  unfold Departures.MayAdvance
  generalize job.phase = phase
  exact match phase with
    | .queued => inferInstanceAs (Decidable (_ → _ → _))
    | .setting _ _ (_ :: _) => inferInstanceAs (Decidable (_ → _))
    | .setting _ _ [] => inferInstanceAs (Decidable True)
    | .done => inferInstanceAs (Decidable True)

instance (config : HandlerConfig) (e : DepartureEvent) : Decidable (ForgetsAll config s e) :=
  match e with
  | .refuse _ => inferInstanceAs (Decidable (Departures.MayClose _ _ _))
  | .advance _ => inferInstanceAs (Decidable (∀ _ ∈ _, _))
  | .overflow _ => inferInstanceAs (Decidable (∀ _ ∈ _, _ → _))
  | .failCleanup _ => inferInstanceAs (Decidable (∀ _ ∈ _, _))
  | .tick _ => inferInstanceAs (Decidable (Departures.IndexStays _ _))
  | .connect _ | .close _ | .setAuth _ _ | .subscribe _ _ _ _ _ | .unsubscribe _ _ | .receive _ _
  | .giveUp _ | .enforceCap _ _ | .evict _ | .cleanup _ | .cleanupExpired | .sweep _ =>
    inferInstanceAs (Decidable True)

end Decidable

/-! ## What the stores keep -/

namespace EphemeralBackend

/-- The client's entries are listed where a cleanup looks for them. -/
def Inv : EphemeralBackend → Prop
  | memory m => ManagerInv m
  | redis config r => RedisIndex config EntryName.NulFree r
  | postgres _ => True

/-- The removal will remove all entries of the client, and then what lists them. -/
def Covered (removal : Removal) (c : String) : EphemeralBackend → Prop
  | redis config r => removal.clientId = some c ∧ removal.Covers config r c
  | _ => False

/-- No entry comes in, and what is about to be removed still is. -/
structure Shrunk (b b' : EphemeralBackend) : Prop where
  inv : b'.Inv
  holds : ∀ c, b'.Holds c → b.Holds c
  covered : ∀ removal c, b.Covered removal c → b'.Covered removal c

theorem Shrunk.refl {b : EphemeralBackend} (h : b.Inv) : Shrunk b b :=
  ⟨h, fun _ => id, fun _ _ => id⟩

/-- A memory or a table with fewer entries. -/
theorem shrunk_memory {m m' : EphemeralManager} (hinv : ManagerInv m')
    (hsub : ∀ name ∈ m'.store, name ∈ m.store) : Shrunk (memory m) (memory m') where
  inv := hinv
  holds := fun _ ⟨name, hname, hc⟩ =>
    ⟨name, AList.mem_keys.1 (hsub name (AList.mem_keys.2 hname)), hc⟩
  covered _ _ h := h

theorem shrunk_postgres {p p' : PostgresEphemeral} (hsub : ∀ name ∈ p'.rows, name ∈ p.rows) :
    Shrunk (postgres p) (postgres p') where
  inv := trivial
  holds := fun _ ⟨name, hname, hc⟩ =>
    ⟨name, AList.mem_keys.1 (hsub name (AList.mem_keys.2 hname)), hc⟩
  covered _ _ h := h

theorem shrunk_redis {config : RedisConfig} {r r' : RedisEphemeral}
    (hinv : RedisIndex config EntryName.NulFree r') (hsub : ∀ k ∈ r'.hashes, k ∈ r.hashes) :
    Shrunk (redis config r) (redis config r') where
  inv := hinv
  holds := fun _ ⟨k, hk, hc⟩ => ⟨k, AList.mem_keys.1 (hsub k (AList.mem_keys.2 hk)), hc⟩
  covered _ _ h := ⟨h.1, fun k hk => h.2 k (hsub k hk)⟩

theorem mem_of_mem_keep {α : Type} {β : α → Type} [DecidableEq α] {xs : AList β} {a : α}
    {p : (a : α) → β a → Bool} (h : a ∈ keep xs p) : a ∈ xs := by
  rcases mem_keep.1 h with ⟨b, hb, -⟩
  exact AList.lookup_isSome.1 (Option.isSome_of_eq_some hb)

variable {b : EphemeralBackend}

theorem set_spec {name : EntryName} {state : TimedState} {now : Int} {b' : EphemeralBackend}
    (h : b.Inv) (hname : name.NulFree) (hset : b.set name state now = some (b', true)) :
    b'.Inv ∧ (∀ c, b'.Holds c → c = name.clientId ∨ b.Holds c) ∧
      ∀ removal c, b.Covered removal c → (c = name.clientId → name ∈ removal.pending) →
        b'.Covered removal c := by
  cases b with
  | memory m =>
      have hfull : m.full name = false := by
        cases hfull : m.full name with
        | false => rfl
        | true =>
            rw [set, EphemeralManager.set, if_pos hfull] at hset
            cases hset
      obtain rfl : memory (m.set name state).1 = b' := congrArg Prod.fst (Option.some.inj hset)
      refine ⟨EphemeralManager.inv_set h hname state, ?_, fun _ _ h _ => h⟩
      rintro c ⟨other, hother, rfl⟩
      have hsome := AList.lookup_isSome.2 (AList.mem_keys.2 hother)
      rw [EphemeralManager.lookup_set name other state hfull] at hsome
      by_cases heq : other = name
      · exact Or.inl (congrArg _ heq)
      · rw [if_neg heq] at hsome
        exact Or.inr ⟨other, AList.mem_keys.1 (AList.lookup_isSome.1 hsome), rfl⟩
  | redis config r =>
      have hfull : r.full config name = false := by
        cases hfull : r.full config name with
        | false => rfl
        | true =>
            rw [set, RedisEphemeral.set_of_full hfull] at hset
            cases hset
      obtain rfl : redis config (r.set config name state now).1 = b' :=
        congrArg Prod.fst (Option.some.inj hset)
      refine ⟨RedisEphemeral.index_set h hname, ?_, ?_⟩
      · rintro c ⟨k, hk, rfl⟩
        rw [RedisEphemeral.set_hashes hfull, ← AList.mem_keys, AList.mem_insert] at hk
        rcases hk with rfl | hold
        · exact Or.inl rfl
        · exact Or.inr ⟨k, AList.mem_keys.1 hold, rfl⟩
      · rintro removal c ⟨hclient, hcovers⟩ hpending
        refine ⟨hclient, fun k hk hc => ?_⟩
        rw [RedisEphemeral.set_hashes hfull, AList.mem_insert] at hk
        rcases hk with rfl | hold
        · exact ⟨name, hpending hc.symm, rfl⟩
        · exact hcovers k hold hc
  | postgres p =>
      rcases Option.map_eq_some_iff.1 hset with ⟨written, hwritten, hb'⟩
      obtain rfl : postgres written.1 = b' := congrArg Prod.fst hb'
      refine ⟨trivial, ?_, fun _ _ h _ => h.elim⟩
      rw [PostgresEphemeral.set, if_pos hname] at hwritten
      split at hwritten
      · cases hwritten
        rintro c ⟨other, hother, rfl⟩
        rw [← AList.mem_keys, AList.mem_insert] at hother
        rcases hother with rfl | hold
        · exact Or.inl rfl
        · exact Or.inr ⟨other, AList.mem_keys.1 hold, rfl⟩
      · cases hwritten
        cases hb'

theorem removeClient_spec (h : b.Inv) (c : String) :
    Shrunk b (b.removeClient c).1 ∧
      match (b.removeClient c).2 with
      | some removal => (b.removeClient c).1.Covered removal c
      | none => ¬ (b.removeClient c).1.Holds c := by
  cases b with
  | memory m =>
      rcases EphemeralManager.removeClient_spec h c with ⟨hinv, hlookup⟩
      have hmem : ∀ name ∈ (m.removeClient c).store, name.clientId ≠ c ∧ name ∈ m.store := by
        intro name hname
        have hsome := AList.lookup_isSome.2 hname
        rw [hlookup] at hsome
        split at hsome
        · cases hsome
        · rename_i hne
          exact ⟨hne, AList.lookup_isSome.1 hsome⟩
      refine ⟨shrunk_memory hinv fun name hname => (hmem name hname).2, ?_⟩
      rintro ⟨name, hname, hc⟩
      exact (hmem name (AList.mem_keys.2 hname)).1 hc
  | redis config r =>
      exact ⟨.refl h, rfl, RedisEphemeral.covers_removeClient (fun _ hn => hn) h c⟩
  | postgres p =>
      refine ⟨shrunk_postgres fun name => mem_of_mem_keep, ?_⟩
      rintro ⟨name, hname, hc⟩
      rcases mem_keep.1 (AList.mem_keys.2 hname) with ⟨row, -, hne⟩
      exact of_decide_eq_true hne hc

/-- One command of a cleanup; the last one leaves no entry of the client. -/
theorem runRemoval_spec (h : b.Inv) {removal : Removal} {c : String}
    (hcovered : b.Covered removal c) :
    Shrunk b (b.runRemoval removal).1 ∧
      if (b.runRemoval removal).2.clientId.isSome then
        (b.runRemoval removal).1.Covered (b.runRemoval removal).2 c
      else ¬ (b.runRemoval removal).1.Holds c := by
  cases b with
  | memory m => exact hcovered.elim
  | postgres p => exact hcovered.elim
  | redis config r =>
      rcases hcovered with ⟨hclient, hcovers⟩
      obtain ⟨pending, client⟩ := removal
      cases hclient
      cases pending with
      | cons name rest =>
          refine ⟨shrunk_redis (RedisEphemeral.index_removeEntry (fun _ hn => hn) h name)
            fun k hk => ?_, ?_⟩
          · rw [RedisEphemeral.runRemoval, RedisEphemeral.removeEntry_hashes] at hk
            exact (AList.mem_erase.1 hk).2
          · exact ⟨rfl, RedisEphemeral.covers_removeEntry hcovers⟩
      | nil =>
          have hnone : ∀ k ∈ r.hashes, k.2 ≠ c := fun k hk hc => by
            rcases hcovers k hk hc with ⟨name, hname, -⟩
            exact List.not_mem_nil hname
          refine ⟨shrunk_redis (RedisEphemeral.index_dropClient h hnone) fun k hk => hk, ?_⟩
          rintro ⟨k, hk, hc⟩
          exact hnone k (AList.mem_keys.2 hk) hc

/-- A sweep leaves the clients' sets alone. -/
theorem shrunk_sweep (h : b.Inv) {removal : Removal} (hclient : removal.clientId = none) :
    Shrunk b (b.runRemoval removal).1 ∧ (b.runRemoval removal).2.clientId = none := by
  cases b with
  | memory m => exact ⟨.refl h, rfl⟩
  | postgres p => exact ⟨.refl h, rfl⟩
  | redis config r =>
      obtain ⟨pending, client⟩ := removal
      cases hclient
      cases pending with
      | nil => exact ⟨.refl h, rfl⟩
      | cons name rest =>
          refine ⟨shrunk_redis (RedisEphemeral.index_removeEntry (fun _ hn => hn) h name)
            fun k hk => ?_, rfl⟩
          rw [RedisEphemeral.runRemoval, RedisEphemeral.removeEntry_hashes] at hk
          exact (AList.mem_erase.1 hk).2

theorem shrunk_cleanupExpired (h : b.Inv) (now : Int) :
    Shrunk b (b.cleanupExpired now).1 ∧
      ∀ removal ∈ (b.cleanupExpired now).2, removal.clientId = none := by
  cases b with
  | memory m =>
      rcases EphemeralManager.cleanupExpired_spec h now with ⟨hinv, hlookup⟩
      refine ⟨shrunk_memory hinv fun name hname => ?_, fun _ hr => by cases hr⟩
      rcases Option.isSome_iff_exists.1 (AList.lookup_isSome.2 hname) with ⟨state, hstate⟩
      rw [hlookup, Option.filter_eq_some_iff] at hstate
      exact AList.lookup_isSome.1 (Option.isSome_of_eq_some hstate.1)
  | redis config r => exact ⟨.refl h, fun _ hr => by cases hr; rfl⟩
  | postgres p =>
      exact ⟨shrunk_postgres fun name => mem_of_mem_keep, fun _ hr => by cases hr⟩

theorem shrunk_expire (h : b.Inv) {now : Int} (hstay : Departures.IndexStays now b) :
    Shrunk b (b.expire now) := by
  cases b with
  | memory m => exact .refl h
  | postgres p => exact .refl h
  | redis config r =>
      exact shrunk_redis (RedisEphemeral.index_expire h hstay) fun k => mem_of_mem_keep

end EphemeralBackend

/-! ## The invariant -/

/-- Somebody will still have the client's entries removed. -/
def Departures.Owned (s : Departures) (c : String) : Prop :=
  0 < s.sockets c ∨ s.Forgetting c ∨ ∃ cl ∈ s.cleanups, cl.clientId = c ∧ cl.phase.removal.isSome

structure GhostInv (s : Departures) : Prop where
  backend : s.backend.Inv
  owned : ∀ c, s.backend.Holds c → s.Owned c
  covers : ∀ c removal, s.Removing c removal → s.backend.Covered removal c
  sweeps : ∀ removal ∈ s.sweeps, removal.clientId = none

namespace GhostInv

variable {config : HandlerConfig} {s : Departures}

theorem noGhosts (h : GhostInv s) : NoGhosts s := by
  intro c hleft hholds
  rcases h.owned c hholds with hsocket | hforgetting | ⟨cl, hcl, hc, hphase⟩
  · rw [hleft.socket] at hsocket
    exact Nat.lt_irrefl 0 hsocket
  · rcases hforgetting with ⟨e, he, hevicts⟩ | ⟨cl, hcl, hc, hphase⟩
    · exact hleft.evictions e he hevicts
    · rw [hleft.cleanups cl hcl hc] at hphase
      cases hphase
  · rw [hleft.cleanups cl hcl hc] at hphase
    cases hphase

theorem start (store : StoreConfig) : GhostInv (.start store.empty) := by
  refine ⟨?_, fun c hholds => ?_, fun _ _ ⟨_, h, _⟩ => absurd h List.not_mem_nil,
    fun _ h => absurd h List.not_mem_nil⟩
  · cases store with
    | memory maxEntries => exact EphemeralManager.inv_empty maxEntries
    | redis config => exact RedisEphemeral.index_empty
    | postgres maxEntries maxAgeMs => trivial
  · cases store with
    | memory maxEntries => exact absurd hholds fun ⟨_, h, _⟩ => List.not_mem_nil h
    | redis config => exact absurd hholds fun ⟨_, h, _⟩ => List.not_mem_nil h
    | postgres maxEntries maxAgeMs => exact absurd hholds fun ⟨_, h, _⟩ => List.not_mem_nil h

/-- The owner of a client's entries in another state. -/
theorem owned_of {s' : Departures} {c : String} (h : s.Owned c)
    (hsocket : 0 < s.sockets c → s'.Owned c)
    (hevicts : ∀ e ∈ s.evictions, e.Evicts c → s'.Owned c)
    (hcleanup : ∀ cl ∈ s.cleanups, cl.clientId = c → cl.phase ≠ .done → s'.Owned c) :
    s'.Owned c := by
  rcases h with h | (⟨e, he, hphase⟩ | ⟨cl, hcl, hc, hphase⟩) | ⟨cl, hcl, hc, hphase⟩
  · exact hsocket h
  · exact hevicts e he hphase
  · exact hcleanup cl hcl hc (by rw [hphase]; exact CleanupPhase.noConfusion)
  · refine hcleanup cl hcl hc fun hdone => ?_
    rw [hdone] at hphase
    cases hphase

/-- A cleanup that goes on owns the client's entries. -/
theorem owned_of_cleanup {c : String} {cl : Cleanup} (hcl : cl ∈ s.cleanups) (hc : cl.clientId = c)
    (hphase : cl.phase ≠ .done) : s.Owned c := by
  cases hp : cl.phase with
  | called => exact Or.inr (Or.inl (Or.inr ⟨cl, hcl, hc, hp⟩))
  | removing removal => exact Or.inr (Or.inr ⟨cl, hcl, hc, by rw [hp]; rfl⟩)
  | done => exact absurd hp hphase

/-- Where only the store changes, and no entry comes in. -/
theorem shrink (h : GhostInv s) {backend : EphemeralBackend}
    (hshrunk : EphemeralBackend.Shrunk s.backend backend) :
    GhostInv { s with backend := backend } :=
  ⟨hshrunk.inv, fun c hc => h.owned c (hshrunk.holds c hc),
    fun c removal hr => hshrunk.covered removal c (h.covers c removal hr), h.sweeps⟩

/-- The server closes a connection. -/
theorem transportDisconnect (h : GhostInv s) {c : String} (hmay : s.MayClose config c) :
    GhostInv (s.transportDisconnect config c) := by
  refine ⟨h.backend, fun c' hholds => ?_, h.covers, h.sweeps⟩
  rw [Departures.transportDisconnect]
  by_cases hsilent : config.silent = true
  · simp only [hsilent, if_true]
    by_cases hc : c' = c
    · subst hc
      exact Or.inr (Or.inl (hmay hsilent hholds))
    · exact (h.owned c' hholds).imp_left fun hsocket => by
        dsimp only
        rwa [Function.update_of_ne hc]
  · simp only [hsilent, if_false, Bool.false_eq_true]
    exact h.owned c' hholds

/-- A cleanup is called, and the socket may be gone. -/
theorem forgetEphemeralClient (h : GhostInv s) {c : String} {s' : Departures}
    (hbackend : s'.backend = s.backend) (hsweeps : s'.sweeps = s.sweeps)
    (hcleanups : s'.cleanups = s.cleanups ++ [⟨c, .called⟩])
    (hsockets : ∀ c', c' ≠ c → s'.sockets c' = s.sockets c')
    (hevicts : ∀ c' ≠ c, ∀ e ∈ s.evictions, e.Evicts c' → ∃ e' ∈ s'.evictions, e'.Evicts c') :
    GhostInv s' := by
  refine ⟨hbackend ▸ h.backend, fun c' hholds => ?_, ?_, hsweeps ▸ h.sweeps⟩
  · by_cases hc : c' = c
    · refine Or.inr (Or.inl (Or.inr ⟨⟨c, .called⟩, ?_, hc.symm, rfl⟩))
      rw [hcleanups]
      exact List.mem_append_right _ (List.mem_singleton_self _)
    · rw [hbackend] at hholds
      refine owned_of (h.owned c' hholds) (fun hsocket => Or.inl (hsockets c' hc ▸ hsocket))
        (fun e he hev => Or.inr (Or.inl (Or.inl (hevicts c' hc e he hev))))
        fun cl hcl hclient hphase => owned_of_cleanup ?_ hclient hphase
      rw [hcleanups]
      exact List.mem_append_left _ hcl
  · rintro c' removal ⟨cl, hcl, hc, hphase⟩
    rw [hcleanups] at hcl
    rw [hbackend]
    rcases List.mem_append.1 hcl with hold | hnew
    · exact h.covers c' removal ⟨cl, hold, hc, hphase⟩
    · rw [List.mem_singleton.1 hnew] at hphase
      cases hphase

/-! ### Evictions -/

theorem mem_set_of_ne {α : Type} {xs : List α} {i : Nat} {x y : α} (z : α)
    (hi : xs[i]? = some x) (hy : y ∈ xs) (hne : y ≠ x) : y ∈ xs.set i z := by
  rcases List.mem_iff_getElem?.1 hy with ⟨j, hj⟩
  refine List.mem_iff_getElem?.2 ⟨j, ?_⟩
  rw [List.getElem?_set_ne, hj]
  rintro rfl
  exact hne (Option.some.inj (hj.symm.trans hi))

theorem mem_set_self {α : Type} {xs : List α} {i : Nat} {x : α} (z : α) (hi : xs[i]? = some x) :
    z ∈ xs.set i z :=
  List.mem_set (List.getElem?_eq_some_iff.1 hi).1 _

/-- A call goes on from a phase to another that evicts the same client, if any. -/
theorem setEviction (h : GhostInv s) {i : Nat} {e : Eviction} (hi : s.evictions[i]? = some e)
    {phase : EvictionPhase}
    (hphase : ∀ c, e.Evicts c → Eviction.Evicts { e with phase := phase } c) :
    GhostInv (s.setEviction i e phase) := by
  refine ⟨h.backend, fun c hholds => ?_, h.covers, h.sweeps⟩
  refine owned_of (h.owned c hholds) Or.inl (fun e' he' hev => ?_)
    fun cl hcl hc hp => owned_of_cleanup hcl hc hp
  refine Or.inr (Or.inl (Or.inl ?_))
  by_cases heq : e' = e
  · exact ⟨_, mem_set_self _ hi, hphase c (heq ▸ hev)⟩
  · exact ⟨e', mem_set_of_ne _ hi he' heq, hev⟩

theorem evict (h : GhostInv s) {i : Nat} {e : Eviction} (hi : s.evictions[i]? = some e)
    {s' : Departures} (hs : s.evict config i e = some s') : GhostInv s' := by
  unfold Departures.evict at hs
  cases hphase : e.phase with
  | checking =>
      have hnone : ∀ c, ¬ e.Evicts c := by
        rintro c (h | h) <;> rw [hphase] at h <;> cases h
      rw [hphase] at hs
      dsimp only at hs
      split at hs
      · cases hs
        exact h.setEviction hi fun c hc => absurd hc (hnone c)
      · cases hs
        exact h.setEviction hi fun c hc => absurd hc (hnone c)
  | notifying victim =>
      rw [hphase] at hs
      cases hs
      have hvictim : e.Evicts victim := Or.inl hphase
      have hclosed : GhostInv (s.transportDisconnect config victim) :=
        h.transportDisconnect fun _ _ => Or.inl ⟨e, List.mem_iff_getElem?.2 ⟨i, hi⟩, hvictim⟩
      refine hclosed.setEviction hi fun c hc => ?_
      rcases hc with hc | hc
      · rw [hphase] at hc
        cases hc
        exact Or.inr rfl
      · rw [hphase] at hc
        cases hc
  | closed victim =>
      rw [hphase] at hs
      cases hs
      refine h.forgetEphemeralClient rfl rfl rfl (fun _ _ => rfl) (c := victim)
        fun c hc e' he' hev => ?_
      refine ⟨e', mem_set_of_ne _ hi he' fun heq => hc ?_, hev⟩
      rcases hev with hev | hev <;> rw [heq, hphase] at hev <;> cases hev
      rfl
  | forgetting cleanup =>
      rw [hphase] at hs
      dsimp only at hs
      split at hs
      · cases hs
        refine h.setEviction hi fun c hc => ?_
        rcases hc with hc | hc <;> rw [hphase] at hc <;> cases hc
      · cases hs
  | done =>
      rw [hphase] at hs
      cases hs

/-! ### Cleanups -/

/-- A cleanup goes on, and the store with it. -/
theorem setCleanup (h : GhostInv s) {i : Nat} {cl : Cleanup} (hi : s.cleanups[i]? = some cl)
    {backend : EphemeralBackend} (hshrunk : EphemeralBackend.Shrunk s.backend backend)
    (phase : CleanupPhase) (hremoving : ∀ removal ∈ phase.removal,
      backend.Covered removal cl.clientId)
    (hown : backend.Holds cl.clientId →
      (({ s with backend := backend } : Departures).setCleanup i cl phase).Owned cl.clientId) :
    GhostInv (({ s with backend := backend } : Departures).setCleanup i cl phase) := by
  refine ⟨hshrunk.inv, fun c hholds => ?_, ?_, h.sweeps⟩
  · by_cases hc : c = cl.clientId
    · exact hc ▸ hown (hc ▸ hholds)
    · refine owned_of (h.owned c (hshrunk.holds c hholds)) Or.inl
        (fun e he hev => Or.inr (Or.inl (Or.inl ⟨e, he, hev⟩)))
        fun other hother hclient hp => owned_of_cleanup ?_ hclient hp
      exact mem_set_of_ne _ hi hother fun heq => hc (by rw [← hclient, heq])
  · rintro c removal ⟨other, hother, hc, hp⟩
    rcases List.mem_or_eq_of_mem_set hother with hold | rfl
    · exact hshrunk.covered removal c (h.covers c removal ⟨other, hold, hc, hp⟩)
    · cases hc
      exact hremoving removal hp

theorem cleanup (h : GhostInv s) {i : Nat} {cl : Cleanup} (hi : s.cleanups[i]? = some cl)
    {s' : Departures} (hs : s.cleanup i cl = some s') : GhostInv s' := by
  have hmem : cl ∈ s.cleanups := List.mem_iff_getElem?.2 ⟨i, hi⟩
  unfold Departures.cleanup at hs
  cases hphase : cl.phase with
  | called =>
      rw [hphase] at hs
      cases hs
      rcases EphemeralBackend.removeClient_spec h.backend cl.clientId with ⟨hshrunk, hspec⟩
      cases hremoval : (s.backend.removeClient cl.clientId).2 with
      | none =>
          rw [hremoval] at hspec
          exact h.setCleanup hi hshrunk _ (fun _ heq => by cases heq) fun hholds =>
            absurd hholds hspec
      | some removal =>
          rw [hremoval] at hspec
          refine h.setCleanup hi hshrunk _ (fun _ heq => ?_) fun _ => ?_
          · cases heq
            exact hspec
          · exact Or.inr (Or.inr ⟨_, mem_set_self _ hi, rfl, rfl⟩)
  | removing removal =>
      rw [hphase] at hs
      cases hs
      rcases EphemeralBackend.runRemoval_spec h.backend
        (h.covers cl.clientId removal ⟨cl, hmem, rfl, by rw [hphase]; rfl⟩) with ⟨hshrunk, hspec⟩
      cases hclient : (s.backend.runRemoval removal).2.clientId.isSome with
      | true =>
          rw [hclient, if_pos rfl] at hspec
          refine h.setCleanup hi hshrunk _ (fun _ heq => ?_) fun _ => ?_
          · cases heq
            exact hspec
          · exact Or.inr (Or.inr ⟨_, mem_set_self _ hi, rfl, rfl⟩)
      | false =>
          rw [hclient, if_neg Bool.false_ne_true] at hspec
          exact h.setCleanup hi hshrunk _ (fun _ heq => by cases heq) fun hholds =>
            absurd hholds hspec
  | done =>
      rw [hphase] at hs
      cases hs

theorem failCleanup (h : GhostInv s) {i : Nat} {cl : Cleanup} (hi : s.cleanups[i]? = some cl)
    (hmay : s.MayFail i cl) : GhostInv (s.setCleanup i cl .done) :=
  h.setCleanup hi (.refl h.backend) .done (fun _ heq => by cases heq) fun hholds =>
    (hmay hholds).imp_right Or.inl

/-! ### Messages -/

theorem store (h : GhostInv s) {name : EntryName} {state : TimedState} {now : Int}
    {backend : EphemeralBackend} (hset : s.backend.set name state now = some (backend, true))
    (hmay : s.MayStore name) : GhostInv { s with backend := backend } := by
  rcases hmay with ⟨hname, howned, hpending⟩
  rcases EphemeralBackend.set_spec h.backend hname hset with ⟨hinv, hholds, hcovered⟩
  refine ⟨hinv, fun c hc => ?_, fun c removal hr => ?_, h.sweeps⟩
  · rcases hholds c hc with rfl | hold
    · exact howned
    · exact h.owned c hold
  · refine hcovered removal c (h.covers c removal hr) fun heq => ?_
    rcases hr with ⟨cl, hcl, hc, hremoval⟩
    exact hpending cl hcl (hc.trans heq) removal hremoval

/-- A handler's own data own nothing. -/
theorem setPhase (h : GhostInv s) (j : Nat) (job : HandlerJob) (phase : HandlerPhase) :
    GhostInv (s.setPhase j job phase) :=
  ⟨h.backend, h.owned, h.covers, h.sweeps⟩

theorem finish (h : GhostInv s) (j : Nat) (job : HandlerJob) : GhostInv (s.finish j job) :=
  ⟨h.backend, h.owned, h.covers, h.sweeps⟩

theorem advance (h : GhostInv s) {j : Nat} {job : HandlerJob} (hj : s.jobs[j]? = some job)
    (hforgets : ForgetsAll config s (.advance j)) {s' : Departures}
    (hs : s.advance config j job = some s') : GhostInv s' := by
  have hguard : s.MayAdvance config job := hforgets job hj
  unfold Departures.MayAdvance at hguard
  unfold Departures.advance at hs
  split at hs
  · rename_i hphase
    simp only [hphase] at hguard
    split at hs
    · split at hs
      · rename_i message hmessage
        cases hs
        rw [Departures.handleEphemeral]
        split
        · exact h.setPhase j job _
        · rename_i hnobody
          have hmay := hguard (by rw [hmessage]; rfl) hnobody
          exact (h.transportDisconnect hmay).finish j job
      · cases hs
        exact h.finish j job
    · cases hs
  · rename_i userId message room rooms hphase
    simp only [hphase] at hguard
    split at hs
    · rename_i backend hset
      cases hs
      rw [hset] at hguard
      exact (h.store hset (hguard rfl)).setPhase j job _
    · cases hs
      exact h.finish j job
  · cases hs
    exact h.finish j job
  · cases hs

theorem step (h : GhostInv s) {e : DepartureEvent} {s' : Departures}
    (hforgets : ForgetsAll config s e) (hs : s.step config e = some s') : GhostInv s' := by
  cases e with
  | connect c =>
      cases hs
      refine ⟨h.backend, fun c' hholds => (h.owned c' hholds).imp_left fun hsocket => ?_, h.covers,
        h.sweeps⟩
      dsimp only
      by_cases hc : c' = c
      · subst hc
        rw [Function.update_self]
        exact Nat.succ_pos _
      · rwa [Function.update_of_ne hc]
  | close c =>
      rw [Departures.step, Option.ite_none_right_eq_some] at hs
      cases hs.2
      exact h.forgetEphemeralClient rfl rfl rfl (fun c' hc => Function.update_of_ne hc ..)
        fun c' _ e he hev => ⟨e, he, hev⟩
  | setAuth c auth =>
      cases hs
      exact ⟨h.backend, h.owned, h.covers, h.sweeps⟩
  | subscribe c query params roomKey window =>
      cases hs
      exact ⟨h.backend, h.owned, h.covers, h.sweeps⟩
  | unsubscribe c query =>
      cases hs
      exact ⟨h.backend, h.owned, h.covers, h.sweeps⟩
  | refuse c =>
      cases hs
      exact h.transportDisconnect hforgets
  | receive c message =>
      cases hs
      rw [Departures.receive]
      split
      · exact ⟨h.backend, h.owned, h.covers, h.sweeps⟩
      · exact ⟨h.backend, h.owned, h.covers, h.sweeps⟩
  | advance j =>
      rcases Option.bind_eq_some_iff.1 hs with ⟨job, hj, hs⟩
      exact h.advance hj hforgets hs
  | giveUp j =>
      rcases Option.map_eq_some_iff.1 hs with ⟨job, -, rfl⟩
      exact h.finish j job
  | overflow i =>
      rcases Option.bind_eq_some_iff.1 hs with ⟨o, hi, hs⟩
      unfold Departures.overflow at hs
      split at hs
      · split at hs
        · cases hs
          exact ⟨h.backend, h.owned, h.covers, h.sweeps⟩
        · cases hs
      · rename_i hphase
        cases hs
        have hclosed := h.transportDisconnect (hforgets o hi hphase)
        exact ⟨hclosed.backend, hclosed.owned, hclosed.covers, hclosed.sweeps⟩
      · cases hs
        exact ⟨h.backend, h.owned, h.covers, h.sweeps⟩
      · cases hs
  | enforceCap userId newClientId =>
      cases hs
      refine ⟨h.backend, fun c hholds => ?_, h.covers, h.sweeps⟩
      exact owned_of (h.owned c hholds) Or.inl
        (fun e he hev => Or.inr (Or.inl (Or.inl ⟨e, List.mem_append_left _ he, hev⟩)))
        fun cl hcl hc hp => owned_of_cleanup hcl hc hp
  | evict i =>
      rcases Option.bind_eq_some_iff.1 hs with ⟨e, hi, hs⟩
      exact h.evict hi hs
  | cleanup i =>
      rcases Option.bind_eq_some_iff.1 hs with ⟨cl, hi, hs⟩
      exact h.cleanup hi hs
  | failCleanup i =>
      rcases Option.map_eq_some_iff.1 hs with ⟨cl, hi, rfl⟩
      exact h.failCleanup hi (hforgets cl hi)
  | cleanupExpired =>
      cases hs
      rcases EphemeralBackend.shrunk_cleanupExpired h.backend s.now with ⟨hshrunk, hclient⟩
      have hswept := h.shrink hshrunk
      refine ⟨hswept.backend, hswept.owned, hswept.covers, fun removal hr => ?_⟩
      rcases List.mem_append.1 hr with hold | hnew
      · exact h.sweeps removal hold
      · exact hclient removal (Option.mem_toList.1 hnew)
  | sweep i =>
      rcases Option.map_eq_some_iff.1 hs with ⟨removal, hi, rfl⟩
      rcases EphemeralBackend.shrunk_sweep h.backend
        (h.sweeps removal (List.mem_iff_getElem?.2 ⟨i, hi⟩)) with ⟨hshrunk, hclient⟩
      have hswept := h.shrink hshrunk
      refine ⟨hswept.backend, hswept.owned, hswept.covers, fun other hother => ?_⟩
      rcases List.mem_or_eq_of_mem_set hother with hold | rfl
      · exact h.sweeps other hold
      · exact hclient
  | tick ms =>
      cases hs
      have hexpired := h.shrink (EphemeralBackend.shrunk_expire h.backend hforgets)
      exact ⟨hexpired.backend, hexpired.owned, hexpired.covers, hexpired.sweeps⟩

end GhostInv

/-! ## Nothing is left behind -/

/-- With any store and transport, whatever the order of handlers, disconnects and cleanups: where
the condition holds at each step, a client that has left has no entry. -/
theorem no_ghosts {config : HandlerConfig} {store : StoreConfig} {s : Departures}
    (h : (departureMachine config store).Reach (ForgetsAll config) s) : NoGhosts s :=
  (h.invariant (P := GhostInv) (.start store) fun hinv hg hs => hinv.step hg hs).noGhosts

section Runs

def redisStore : StoreConfig :=
  .redis ⟨"reflectdb:eph", 100000, 24 * 60 * 60⟩

def reportingTransport : HandlerConfig :=
  ⟨false, 0⟩

/-- A client in two rooms sends its cursor; it is set in the first room. -/
def cursorInFirstRoom : List DepartureEvent :=
  [.connect "a", .setAuth "a" ⟨"u", ∅⟩, .subscribe "a" "tasks" ∅ (some "r1") none,
    .subscribe "a" "notes" ∅ (some "r2") none, .receive "a" (some ⟨"cursor", ∅, none⟩),
    .advance 0, .advance 0]

/-- The client closes its connection when both rooms have the entry. -/
def leavesAfterwards : List DepartureEvent :=
  cursorInFirstRoom ++ [.advance 0, .advance 0, .close "a", .cleanup 0, .cleanup 0, .cleanup 0,
    .cleanup 0]

/-- It closes its connection before the second room does, and the cleanup has listed its entries. -/
def leavesInBetween : List DepartureEvent :=
  cursorInFirstRoom ++ [.close "a", .cleanup 0, .advance 0, .cleanup 0, .cleanup 0, .advance 0]

def endOf (events : List DepartureEvent) : Option Departures :=
  (departureMachine reportingTransport redisStore).runWith
    (fun s e => decide (ForgetsAll reportingTransport s e)) (.start redisStore.empty) events

theorem no_ghosts_afterwards : ∃ s : Departures, s.Left "a" ∧ s.cleanups.length = 1 ∧
    NoGhosts s := by
  have hrun : ((endOf leavesAfterwards).map fun s => decide (s.Left "a") && s.cleanups.length = 1) =
      some true := by
    decide +kernel
  rcases Option.map_eq_some_iff.1 hrun with ⟨s, hs, hleft⟩
  have hends := Bool.and_eq_true_iff.1 hleft
  have hreach := Machine.Reach.of_runWith (fun _ _ h => of_decide_eq_true h) .init hs
  exact ⟨s, of_decide_eq_true hends.1, of_decide_eq_true hends.2, no_ghosts hreach⟩

/-- The entry of the second room is left behind. -/
theorem ghost_in_between :
    ¬ ∀ s, (departureMachine reportingTransport redisStore).Reachable s → NoGhosts s := by
  intro h
  have hrun : ((departureMachine reportingTransport redisStore).run leavesInBetween).map
      (fun s => decide (s.Left "a" ∧ s.backend.Holds "a")) = some true := by
    decide +kernel
  rcases Option.map_eq_some_iff.1 hrun with ⟨s, hs, hghost⟩
  have hends := of_decide_eq_true hghost
  exact h s (.of_run hs) "a" hends.1 hends.2

end Runs

end Server
end Reflectdb
