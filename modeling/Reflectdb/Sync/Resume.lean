import Reflectdb.Sync.Channel

/-!
# Resume — a reconnected client with a watermark

Ops are logged under their HLC, a client disconnects and declares its queries again, and
`handleResume` runs the queries whose tables have an op above the watermark.  The session's cache is
empty after a reconnect, and an op may be logged below a watermark that was given out before it.
-/

namespace Reflectdb
namespace Sync

open Core Client Server

/-- An entry of the op log, as far as resume reads it. -/
structure LogEntry where
  table : String
  hlc : Hlc
  deriving DecidableEq

structure ResumeConfig where
  pk : String → String
  tableDependencies : String → List String
  /-- The server has a storage adapter, and with it an op log. -/
  storage : Bool
  /-- The rows of a query for its params, after so many ops. -/
  result : String → Json → Nat → List Row

/-- The part of a `QuerySubscription` that decides the rows; `limit` is its `windowLimit`. -/
structure DeclaredQuery where
  params : Json
  limit : Option Nat

/-- The server and one of its clients. -/
structure ResumeState where
  version : Nat
  clock : Hlc
  log : List LogEntry
  /-- Eager ops that are in the database and not yet in the log. -/
  eagerBuffer : List LogEntry
  cutoffHlc : Option Hlc
  subscriptions : AList fun _ : String => DeclaredQuery
  bootstrapped : String → Bool
  cached : String → Option CachedRows
  table : String → TableRows
  /-- The client's watermark. -/
  serverHlc : Option Hlc

/-- What goes wrong during a resume, and the HLC it ends with. -/
structure ResumeOutcome where
  /-- The log refuses the buffered op. -/
  flushFails : LogEntry → Bool
  /-- `getChangedTablesSince` throws. -/
  logThrows : Bool
  queryThrows : String → Bool
  resumeHlc : Hlc

inductive ResumeAnswer
  | resumeRejected
  | resumeComplete (serverHlc : Hlc)

variable (cfg : ResumeConfig)

/-- The rows `executeQuery` and `fetchWindow` return for a subscription. -/
def ResumeState.rows (s : ResumeState) (query : String) (sub : DeclaredQuery) : List Row :=
  windowRows sub.limit (cfg.result query sub.params s.version)

/-- `EagerBuffer.flush`: what the log refuses stays in the buffer. -/
def ResumeState.flush (s : ResumeState) (fails : LogEntry → Bool) : ResumeState :=
  { s with
    log := s.log ++ s.eagerBuffer.filter fun e => !fails e
    eagerBuffer := s.eagerBuffer.filter fails }

/-- The client gets the query's rows, and the cache records them. -/
def ResumeState.sendSnapshot (s : ResumeState) (queries : String → Bool) : ResumeState :=
  { s with
    table := fun q =>
      match s.subscriptions.lookup q with
      | some sub =>
        if queries q then
          applySnapshot (s.table q) (snapshotMessage (cfg.pk q) (s.rows cfg q sub) s.clock false)
        else s.table q
      | none => s.table q
    cached := fun q =>
      match s.subscriptions.lookup q with
      | some sub => if queries q then some (byRowId (cfg.pk q) (s.rows cfg q sub)) else s.cached q
      | none => s.cached q
    bootstrapped := fun q =>
      (s.subscriptions.lookup q).isSome && queries q || s.bootstrapped q }

/-! ## Resume -/

/-- The tables the subscribed queries depend on. -/
def ResumeState.allDepTables (s : ResumeState) : List String :=
  s.subscriptions.keys.flatMap cfg.tableDependencies

/-- The tables with ops above the watermark; all of them if the log cannot be read. -/
def ResumeState.changedDbTables (s : ResumeState) (since : Hlc) (logThrows : Bool) : List String :=
  if cfg.storage then
    if logThrows then s.allDepTables cfg
    else (s.log.filter fun e => since < e.hlc ∧ e.table ∈ s.allDepTables cfg).map (·.table)
  else []

/-- Queries whose tables have not changed are skipped, unless no table has. -/
def ResumeState.hasChanges (s : ResumeState) (since : Hlc) (logThrows : Bool) (query : String) :
    Bool :=
  let changed := s.changedDbTables cfg since logThrows
  changed.isEmpty || (cfg.tableDependencies query).any (· ∈ changed)

/-- `since < cutoffHlc` for a cutoff that is set. -/
def ResumeState.compacted (s : ResumeState) (since : Hlc) : Bool :=
  s.cutoffHlc.any (since < ·)

/-- The queries a resume runs again and sends. -/
def ResumeState.reruns (s : ResumeState) (since : Hlc) (o : ResumeOutcome) (query : String) :
    Bool :=
  (s.flush o.flushFails).hasChanges cfg since o.logThrows query && !o.queryThrows query

/-- A query that throws is logged and passed over. -/
def handleResume (s : ResumeState) (since : Hlc) (o : ResumeOutcome) :
    ResumeState × ResumeAnswer :=
  let flushed := s.flush o.flushFails
  if flushed.compacted since then (flushed, .resumeRejected)
  else ({ flushed.sendSnapshot cfg (s.reruns cfg since o) with
      clock := o.resumeHlc
      serverHlc := some o.resumeHlc },
    .resumeComplete o.resumeHlc)

/-! ## Histories -/

inductive ResumeEvent
  /-- An op of the consistent path, logged under the client's stamp. -/
  | op (e : LogEntry)
  | eagerOp (e : LogEntry)
  | flush (fails : LogEntry → Bool)
  | runCompaction (cutoffHlc : Hlc)
  /-- A broadcast of the query to the client, with every send delivered. -/
  | broadcast (query : String) (hlc : Hlc)
  | syncDeclare (query : String) (params : Json) (windowSize : Option Nat)
  /-- A bootstrap; a query that throws gives no rows. -/
  | bootstrap (hlc : Hlc)
  | disconnect
  | resume (o : ResumeOutcome)

/-- Diff, send and commit; a windowed subscriber that has not bootstrapped is passed over. -/
def ResumeState.broadcast (s : ResumeState) (query : String) (hlc : Hlc) : ResumeState :=
  match s.subscriptions.lookup query with
  | none => { s with clock := hlc }
  | some sub =>
    if sub.limit.isSome && !s.bootstrapped query then { s with clock := hlc } else
    let rows := s.rows cfg query sub
    let deltas := (diffOnly (cfg.pk query) ((s.cached query).getD ∅) rows).deltas hlc
    { s with
      clock := hlc
      table := Function.update s.table query (applyDeltas (cfg.pk query) (s.table query) deltas)
      cached := Function.update s.cached query (some (byRowId (cfg.pk query) rows)) }

def resumeStep (s : ResumeState) : ResumeEvent → Option ResumeState
  | .op e => some { s with version := s.version + 1, log := s.log ++ [e] }
  | .eagerOp e => some { s with version := s.version + 1, eagerBuffer := s.eagerBuffer ++ [e] }
  | .flush fails => some (s.flush fails)
  | .runCompaction cutoffHlc =>
    some { s with cutoffHlc := some cutoffHlc, log := s.log.filter fun e => cutoffHlc ≤ e.hlc }
  | .broadcast query hlc => if s.clock < hlc then some (s.broadcast cfg query hlc) else none
  | .syncDeclare query params windowSize =>
    some { s with
      subscriptions := s.subscriptions.insert query ⟨params, windowSize.filter (0 < ·)⟩
      bootstrapped := Function.update s.bootstrapped query false }
  | .bootstrap hlc =>
    if s.clock < hlc then
      some { s.sendSnapshot cfg (fun _ => true) with clock := hlc, serverHlc := some hlc }
    else none
  | .disconnect =>
    some { s with subscriptions := ∅, bootstrapped := fun _ => false, cached := fun _ => none }
  | .resume o =>
    match s.serverHlc with
    | some since => if s.clock < o.resumeHlc then some (handleResume cfg s since o).1 else none
    | none => none

def resumeMachine : Lib.Machine ResumeState ResumeEvent where
  init := ⟨0, "0", [], [], none, ∅, fun _ => false, fun _ => none, fun _ => ∅, none⟩
  step := resumeStep cfg

/-! ## Soundness -/

/-- The client shows the query's current result, and the cache holds just that. -/
def InSync (s : ResumeState) (query : String) (sub : DeclaredQuery) : Prop :=
  Mirrors (cfg.pk query) (s.table query) (byRowId (cfg.pk query) (s.rows cfg query sub)) ∧
    ∀ rowId, ((s.cached query).getD ∅).lookup rowId =
      (byRowId (cfg.pk query) (s.rows cfg query sub)).lookup rowId

/-- Every subscribed query is in sync. -/
def ResumeSound (s : ResumeState) : Prop :=
  ∀ query sub, s.subscriptions.lookup query = some sub → InSync cfg s query sub

variable {cfg}

/-- A query is left as it was, or its snapshot is sent and recorded. -/
theorem inSync_sendSnapshot {s : ResumeState} {queries : String → Bool} {query : String}
    {sub : DeclaredQuery} (hsub : s.subscriptions.lookup query = some sub) :
    InSync cfg (s.sendSnapshot cfg queries) query sub ↔
      if queries query then KeyedById (cfg.pk query) (s.rows cfg query sub)
      else InSync cfg s query sub := by
  have hrows : (s.sendSnapshot cfg queries).rows cfg query sub = s.rows cfg query sub := rfl
  by_cases hsent : queries query = true
  · have htable : (s.sendSnapshot cfg queries).table query = applySnapshot (s.table query)
        (snapshotMessage (cfg.pk query) (s.rows cfg query sub) s.clock false) := by
      simp [ResumeState.sendSnapshot, hsub, hsent]
    have hcached : (s.sendSnapshot cfg queries).cached query =
        some (byRowId (cfg.pk query) (s.rows cfg query sub)) := by
      simp [ResumeState.sendSnapshot, hsub, hsent]
    simp [InSync, hrows, htable, hcached, hsent, mirrors_applySnapshot_iff]
  · have htable : (s.sendSnapshot cfg queries).table query = s.table query := by
      simp [ResumeState.sendSnapshot, hsub, hsent]
    have hcached : (s.sendSnapshot cfg queries).cached query = s.cached query := by
      simp [ResumeState.sendSnapshot, hsub, hsent]
    simp [InSync, hrows, htable, hcached, hsent]

/-- After a reconnect nothing is cached yet: a query that is skipped is in sync only if it has no
rows. -/
theorem inSync_uncached {s : ResumeState} {query : String} {sub : DeclaredQuery}
    (h : s.cached query = none) (hsync : InSync cfg s query sub) (rowId : String) :
    (byRowId (cfg.pk query) (s.rows cfg query sub)).lookup rowId = none := by
  have hcached := hsync.2 rowId
  simpa [h] using hcached.symm

/-- The property wanted of every history. -/
def ResumesSoundly (cfg : ResumeConfig) : Prop :=
  ∀ s, (resumeMachine cfg).Reachable s → ∀ since, s.serverHlc = some since → ∀ o serverHlc,
    (handleResume cfg s since o).2 = .resumeComplete serverHlc →
      ResumeSound cfg (handleResume cfg s since o).1

/-! ## A query that a resume skips -/

/-- `todos` has a row from the start, `users` one for each op. -/
def twoQueries : ResumeConfig where
  pk _ := "id"
  tableDependencies query := [query]
  storage := true
  result query _ version :=
    if query = "todos" then [QueryShape.todoRow "a"]
    else (List.range version).map fun n => QueryShape.todoRow (toString n)

/-- Both queries are bootstrapped; during a disconnect one op goes to `users`. -/
def reconnectEvents : List ResumeEvent :=
  [.syncDeclare "todos" emptyParams none, .syncDeclare "users" emptyParams none, .bootstrap "1",
    .disconnect, .op ⟨"users", "2"⟩, .syncDeclare "todos" emptyParams none,
    .syncDeclare "users" emptyParams none]

def noFailure : ResumeOutcome :=
  ⟨fun _ => false, false, fun _ => false, "3"⟩

def ResumeAnswer.complete : ResumeAnswer → Option Hlc
  | .resumeRejected => none
  | .resumeComplete serverHlc => some serverHlc

theorem ResumeAnswer.eq_of_complete {a : ResumeAnswer} {serverHlc : Hlc}
    (h : a.complete = some serverHlc) : a = .resumeComplete serverHlc := by
  cases a with
  | resumeRejected => cases h
  | resumeComplete hlc =>
      cases h
      rfl

/-- The op of the disconnect goes to `todos` itself. -/
def todosReconnectEvents : List ResumeEvent :=
  [.syncDeclare "todos" emptyParams none, .bootstrap "1", .disconnect, .op ⟨"todos", "2"⟩,
    .syncDeclare "todos" emptyParams none]

end Sync
end Reflectdb
