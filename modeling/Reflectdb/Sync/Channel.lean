import Reflectdb.Server.Broadcast

/-!
# Channel — handlers, broadcasts and eager deltas of a (client, query)

One server with a database and any number of clients.  The state of a (client, query) is a
`Channel`: the subscription, the cached rows, the client's rows, the client's messages and the
broadcasts under way.  A client's messages are handled one at a time; broadcasts run beside them and
serialise only their diff, send and commit.  Each event is one stretch between awaits.

Deltas and snapshots reach the client in the order they are sent, and nothing here depends on when;
they are applied as they are sent.
-/

namespace Reflectdb
namespace Sync

open Core Client Server

/-- A client and the query it subscribes to. -/
abbrev ChannelId : Type :=
  Nat × String

/-! ## Configuration -/

/-- The queries, and the history of the database: version `v + 1` comes from a write to the table
`writtenTable v`, which changes only queries that depend on it. -/
structure SyncConfig where
  pk : String → String
  tableDependencies : String → List String
  writtenTable : Nat → String
  result : ChannelId → Json → Nat → List Row
  frame : ∀ c params v, writtenTable v ∉ tableDependencies c.2 →
    result c params (v + 1) = result c params v

/-- `params ?? {}`. -/
def emptyParams : Json :=
  .obj .nil

/-- One execution of a query: its params and limit, and the version of the database it met. -/
structure QueryRead where
  params : Json
  limit : Option Nat
  version : Nat

/-- The rows `executeQuery` returns. -/
def SyncConfig.rows (cfg : SyncConfig) (c : ChannelId) (r : QueryRead) : List Row :=
  windowRows r.limit (cfg.result c r.params r.version)

/-! ## State -/

/-- The part of a `QuerySubscription` that decides what the subscriber is sent. -/
structure QuerySubscription where
  params : Json
  windowSize : Option Nat
  windowLimit : Nat
  loadedCount : Nat
  bootstrapped : Bool

/-- The rows the subscriber is entitled to, if it has a window. -/
def QuerySubscription.limit (sub : QuerySubscription) : Option Nat :=
  if sub.windowSize.isSome then some sub.windowLimit else none

/-- `SessionManager.subscribe`: a window of zero rows is no window. -/
def subscribe (params : Json) (windowSize : Option Nat) : QuerySubscription :=
  let effectiveWindow := windowSize.filter (0 < ·)
  ⟨params, effectiveWindow, effectiveWindow.getD 0, 0, false⟩

inductive ClientMessage
  | syncDeclare (params : Json) (windowSize : Option Nat)
  | bootstrap
  | resume
  | loadMore (count : Nat)
  | unsync

/-- How far a handler that reads, sends and caches a result has come. -/
inductive Fetch
  | querying
  | read (r : QueryRead)
  | sent (r : QueryRead)

inductive Handler
  /-- `handleBootstrap`, or `handleResume`, which takes the HLC of its snapshots beforehand. -/
  | bootstrap (hlc : Option Hlc) (fetch : Fetch)
  | loadMore (prevLoaded newLimit : Nat) (fetch : Fetch)

/-- One broadcast on its way to the subscriber.  `sub` is the captured subscription, an index into
the subscriptions the session has had, and `rep` the client that represents the group. -/
inductive Job
  | called (hlc : Hlc)
  | grouped (hlc : Hlc) (sub rep : Nat)
  | limited (hlc : Hlc) (sub rep : Nat) (limit : Option Nat)
  | read (hlc : Hlc) (sub : Nat) (r : QueryRead)

structure Channel where
  subs : List QuerySubscription
  sub : Option Nat
  cached : Option CachedRows
  table : TableRows
  inbox : List ClientMessage
  bootstrapScheduled : Bool
  handler : Option Handler
  jobs : List Job
  /-- The broadcast in its section: the rows it commits when its sends are through. -/
  lock : Option (List Row)
  /-- A write to a table of the query has no broadcast yet. -/
  owed : Bool
  /-- The version of the database that the last snapshot or section was of. -/
  seen : Nat

/-- The current subscription. -/
def Channel.subscription (ch : Channel) : Option QuerySubscription :=
  ch.sub.bind (ch.subs[·]?)

def Channel.empty : Channel :=
  ⟨[], none, none, ∅, [], false, none, [], none, false, 0⟩

structure SyncState where
  version : Nat
  clock : Hlc
  chans : ChannelId → Channel

/-! ## The client's side -/

/-- `sync`: a declare, and a bootstrap scheduled behind it. -/
def Channel.sync (ch : Channel) (params : Json) (windowSize : Option Nat) : Channel :=
  { ch with inbox := ch.inbox ++ [.syncDeclare params windowSize], bootstrapScheduled := true }

def Channel.sendBootstrap (ch : Channel) : Channel :=
  { ch with inbox := ch.inbox ++ [.bootstrap], bootstrapScheduled := false }

/-- `unsync` drops the client's rows before the server hears of it. -/
def Channel.sendUnsync (ch : Channel) : Channel :=
  { ch with table := ∅, inbox := ch.inbox ++ [.unsync] }

/-! ## Handlers -/

/-- Start handling the next message; `skips` says that `handleResume` finds none of the query's
tables changed. -/
def Channel.take (ch : Channel) (clock : Hlc) (skips : Bool) : Option Channel :=
  match ch.handler, ch.inbox with
  | none, m :: inbox =>
    let ch := { ch with inbox := inbox }
    match m with
    | .syncDeclare params windowSize =>
      some { ch with subs := ch.subs ++ [subscribe params windowSize], sub := some ch.subs.length }
    | .unsync => some { ch with sub := none, cached := none }
    | .bootstrap =>
      some { ch with handler := ch.subscription.map fun _ => .bootstrap none .querying }
    | .resume =>
      some { ch with
        handler :=
          if skips then none else ch.subscription.map fun _ => .bootstrap (some clock) .querying }
    | .loadMore count =>
      match ch.subscription with
      | none => some ch
      | some sub =>
        some { ch with
          handler :=
            sub.limit.map fun limit => .loadMore sub.loadedCount (limit + count) .querying }
  | _, _ => none

/-- The handler executes the query: `fetchWindow`, `executeQuery`. -/
def Channel.query (ch : Channel) (version : Nat) : Option Channel :=
  match ch.handler, ch.subscription with
  | some (.bootstrap hlc .querying), some sub =>
    some { ch with handler := some (.bootstrap hlc (.read ⟨sub.params, sub.limit, version⟩)) }
  | some (.loadMore prevLoaded newLimit .querying), some sub =>
    some { ch with
      handler := some (.loadMore prevLoaded newLimit (.read ⟨sub.params, some newLimit, version⟩)) }
  | _, _ => none

/-- The rows of a page: those beyond what was loaded before. -/
def SyncConfig.newRows (cfg : SyncConfig) (c : ChannelId) (r : QueryRead) (prevLoaded : Nat) :
    List Row :=
  (cfg.rows c r).drop prevLoaded

/-- The handler sends its snapshot.  Its rows are stamped with the clock as it is. -/
def Channel.snapshot (cfg : SyncConfig) (c : ChannelId) (ch : Channel) (clock : Hlc) :
    Option Channel :=
  match ch.handler with
  | some (.bootstrap hlc (.read r)) =>
    some { ch with
      table := applySnapshot ch.table
        (snapshotMessage (cfg.pk c.2) (cfg.rows c r) (hlc.getD clock) false)
      handler := some (.bootstrap hlc (.sent r))
      seen := r.version }
  | some (.loadMore prevLoaded newLimit (.read r)) =>
    some { ch with
      table :=
        if cfg.newRows c r prevLoaded = [] then ch.table
        else applySnapshot ch.table
          (snapshotMessage (cfg.pk c.2) (cfg.newRows c r prevLoaded) clock true)
      handler := some (.loadMore prevLoaded newLimit (.sent r))
      seen := r.version }
  | _ => none

/-- Change the fields of the current subscription object. -/
def Channel.modifySub (ch : Channel) (f : QuerySubscription → QuerySubscription) : Channel :=
  match ch.sub with
  | none => ch
  | some i => { ch with subs := ch.subs.modify i f }

/-- The handler records in the cache what the client is now taken to hold.  (`loadedCount` is set
when the query returns; no other handler of the client runs in between.) -/
def Channel.finish (cfg : SyncConfig) (c : ChannelId) (ch : Channel) : Option Channel :=
  match ch.handler with
  | some (.bootstrap _ (.sent r)) =>
    let rows := cfg.rows c r
    some (Channel.modifySub { ch with cached := some (byRowId (cfg.pk c.2) rows), handler := none }
      fun sub =>
        { sub with
          loadedCount := if sub.windowSize.isSome then rows.length else sub.loadedCount
          bootstrapped := true })
  | some (.loadMore _ newLimit (.sent r)) =>
    let rows := cfg.rows c r
    some (Channel.modifySub { ch with cached := some (byRowId (cfg.pk c.2) rows), handler := none }
      fun sub => { sub with loadedCount := rows.length, windowLimit := newLimit })
  | _ => none

/-! ## Broadcasts -/

/-- `buildGroups` comes to the subscriber.  A windowed one that has not bootstrapped is passed
over; the others go into a group, whose other members have the same params. -/
def Channel.group (s : SyncState) (c : ChannelId) (j rep : Nat) : Option Channel :=
  let ch := s.chans c
  match ch.jobs[j]? with
  | some (.called hlc) =>
    match ch.sub, ch.subscription with
    | some i, some sub =>
      if sub.windowSize.isSome ∧ sub.bootstrapped = false then
        some { ch with jobs := ch.jobs.eraseIdx j }
      else if ((s.chans (rep, c.2)).subscription.map (·.params)) = some sub.params then
        some { ch with jobs := ch.jobs.set j (.grouped hlc i rep) }
      else none
    | _, _ => some { ch with jobs := ch.jobs.eraseIdx j }
  | _ => none

/-- `limitFor`: no limit, or the largest window of the group. -/
def Channel.limitFor (ch : Channel) (j : Nat) (limit : Option Nat) : Option Channel :=
  match ch.jobs[j]? with
  | some (.grouped hlc i rep) =>
    match ch.subs[i]? with
    | none => none
    | some sub =>
      if ∀ l ∈ limit, ∃ n ∈ sub.limit, n ≤ l then
        some { ch with jobs := ch.jobs.set j (.limited hlc i rep limit) }
      else none
  | _ => none

/-- The params the representative executes the query with. -/
def SyncState.paramsOf (s : SyncState) (rep : Nat) (query : String) : Json :=
  ((s.chans (rep, query)).subscription.map (·.params)).getD emptyParams

/-- `executeQuery` for the group. -/
def Channel.execute (s : SyncState) (c : ChannelId) (j : Nat) : Option Channel :=
  let ch := s.chans c
  match ch.jobs[j]? with
  | some (.limited hlc i rep limit) =>
    some { ch with jobs := ch.jobs.set j (.read hlc i ⟨s.paramsOf rep c.2, limit, s.version⟩) }
  | _ => none

/-- The rows the captured subscription is entitled to. -/
def Channel.entitled (cfg : SyncConfig) (c : ChannelId) (ch : Channel) (i : Nat) (r : QueryRead) :
    List Row :=
  windowRows ((ch.subs[i]?).bind (·.limit)) (cfg.rows c r)

/-- The deltas of a broadcast that read `r`, against the rows cached now. -/
def Channel.deltas (cfg : SyncConfig) (c : ChannelId) (ch : Channel) (hlc : Hlc) (i : Nat)
    (r : QueryRead) : List Delta :=
  (diffOnly (cfg.pk c.2) (ch.cached.getD ∅) (ch.entitled cfg c i r)).deltas hlc

/-- `sendToSubscriber` takes the lock, diffs and sends.  With nothing to send it commits at once. -/
def Channel.send (cfg : SyncConfig) (c : ChannelId) (ch : Channel) (j : Nat) : Option Channel :=
  match ch.jobs[j]?, ch.lock with
  | some (.read hlc i r), none =>
    let newRows := ch.entitled cfg c i r
    let deltas := ch.deltas cfg c hlc i r
    let ch := { ch with jobs := ch.jobs.eraseIdx j, seen := r.version }
    if deltas.isEmpty then some { ch with cached := some (byRowId (cfg.pk c.2) newRows) }
    else
      some { ch with
        table := applyDeltas (cfg.pk c.2) ch.table deltas
        lock := some newRows }
  | _, _ => none

/-- The sends are through: commit, and release the lock. -/
def Channel.commit (pk : String) (ch : Channel) : Option Channel :=
  ch.lock.map fun rows => { ch with cached := some (byRowId pk rows), lock := none }

/-! ## Eager deltas -/

/-- The fanout of an eager op: the delta, and the row recorded as delivered. -/
structure EagerDelta where
  query : String
  /-- The other clients of the writer's room. -/
  recipients : Nat → Bool
  delta : Delta
  mergedRow : Option Row

/-- The client is a subscriber of the op's query, in the room. -/
def EagerDelta.reaches (e : EagerDelta) (s : SyncState) (client : Nat) : Bool :=
  e.recipients client && (s.chans (client, e.query)).subscription.isSome

/-- The delta goes to the subscribers of the op's query. -/
def EagerDelta.delivers (e : EagerDelta) (s : SyncState) (c : ChannelId) : Bool :=
  c.2 = e.query && e.reaches s c.1

/-- The row is recorded in every query of theirs that depends on a table of that name. -/
def EagerDelta.records (e : EagerDelta) (cfg : SyncConfig) (s : SyncState) (c : ChannelId) : Bool :=
  e.query ∈ cfg.tableDependencies c.2 && e.reaches s c.1

/-- `forgetWriterRow` and `recordDeliveredRow`. -/
def EagerDelta.record (e : EagerDelta) (rows : CachedRows) : CachedRows :=
  match e.delta.op with
  | .delete => rows.erase e.delta.rowId
  | _ =>
    match e.mergedRow with
    | some row => rows.insert e.delta.rowId row
    | none => rows

def Channel.eager (cfg : SyncConfig) (s : SyncState) (e : EagerDelta) (c : ChannelId) : Channel :=
  let ch := s.chans c
  { ch with
    table := if e.delivers s c then applyDelta (cfg.pk c.2) ch.table e.delta else ch.table
    cached := if e.records cfg s c then ch.cached.map e.record else ch.cached }

/-! ## The system -/

inductive ChannelEvent
  | sync (params : Json) (windowSize : Option Nat)
  | sendBootstrap
  | sendResume
  | sendLoadMore (count : Nat)
  | sendUnsync
  | take (skips : Bool)
  | query
  | snapshot
  | finish
  | group (j rep : Nat)
  | limitFor (j : Nat) (limit : Option Nat)
  | execute (j : Nat)
  | send (j : Nat)
  | commit

inductive SyncEvent
  /-- The database goes to its next version. -/
  | write
  /-- `broadcastChanges`, reaching the clients in scope that are not excluded. -/
  | broadcast (table : String) (hlc : Hlc) (reaches : Nat → Bool)
  | eager (e : EagerDelta)
  /-- Any other stamp of the server's clock. -/
  | stamp (hlc : Hlc)
  | channel (c : ChannelId) (e : ChannelEvent)

def channelStep (cfg : SyncConfig) (s : SyncState) (c : ChannelId) :
    ChannelEvent → Option Channel
  | .sync params windowSize => some ((s.chans c).sync params windowSize)
  | .sendBootstrap => some (s.chans c).sendBootstrap
  | .sendResume => some { s.chans c with inbox := (s.chans c).inbox ++ [.resume] }
  | .sendLoadMore count => some { s.chans c with inbox := (s.chans c).inbox ++ [.loadMore count] }
  | .sendUnsync => some (s.chans c).sendUnsync
  | .take skips => (s.chans c).take s.clock skips
  | .query => (s.chans c).query s.version
  | .snapshot => (s.chans c).snapshot cfg c s.clock
  | .finish => (s.chans c).finish cfg c
  | .group j rep => Channel.group s c j rep
  | .limitFor j limit => (s.chans c).limitFor j limit
  | .execute j => Channel.execute s c j
  | .send j => (s.chans c).send cfg c j
  | .commit => (s.chans c).commit (cfg.pk c.2)

def stepWrite (cfg : SyncConfig) (s : SyncState) : SyncState where
  version := s.version + 1
  clock := s.clock
  chans c :=
    if cfg.writtenTable s.version ∈ cfg.tableDependencies c.2 then
      { s.chans c with owed := true }
    else s.chans c

def stepBroadcast (cfg : SyncConfig) (s : SyncState) (table : String) (hlc : Hlc)
    (reaches : Nat → Bool) : Option SyncState :=
  if s.clock < hlc then
    some {
      version := s.version
      clock := hlc
      chans := fun c =>
        if table ∈ cfg.tableDependencies c.2 ∧ reaches c.1 then
          { s.chans c with jobs := (s.chans c).jobs ++ [.called hlc], owed := false }
        else s.chans c }
  else none

/-- An eager delta is stamped before the op's callbacks run, so it may be sent late. -/
def stepEager (cfg : SyncConfig) (s : SyncState) (e : EagerDelta) : Option SyncState :=
  if e.delta.hlc ≤ s.clock then
    some { s with chans := fun c => Channel.eager cfg s e c }
  else none

def syncStep (cfg : SyncConfig) (s : SyncState) : SyncEvent → Option SyncState
  | .write => some (stepWrite cfg s)
  | .broadcast table hlc reaches => stepBroadcast cfg s table hlc reaches
  | .eager e => stepEager cfg s e
  | .stamp hlc => if s.clock < hlc then some { s with clock := hlc } else none
  | .channel c e =>
    (channelStep cfg s c e).map fun ch => { s with chans := Function.update s.chans c ch }

def syncMachine (cfg : SyncConfig) (start : SyncState) : Lib.Machine SyncState SyncEvent :=
  ⟨start, syncStep cfg⟩

end Sync
end Reflectdb
