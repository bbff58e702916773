import Reflectdb.Lib.Machine
import Reflectdb.Server.Conflict
import Reflectdb.Sync.Mirror

/-!
# Writer session — own ops in a client's stores and in its cached results

One client with any number of subscribed queries.  It applies an op at once, to the rows of the
query that the op names; the server, when it accepts the op, adjusts the cached result of every
query that depends on the op's table, and leaves the client out of the broadcast.

Deltas and snapshots are applied as they are sent: the client gets them in order, and an acceptance
may be taken as late as the last delivery of what was sent before it.
-/

namespace Reflectdb
namespace Sync

open Core Client Server

/-! ## The client's side -/

/-- What the client knows of a query as a table (`tableMeta`), and the queries that depend on a
table (`tableDependencyIndex`). -/
structure WriterConfig where
  pk : String → String
  serverSet : String → List String
  dependents : String → List String

variable (cfg : WriterConfig)

/-- The payload as the client applies it: without text edits and server-owned columns, and with the
primary key where it is an insert. -/
def localPayload (op : ClientOp) : Option Row :=
  op.payload.map fun payload =>
    let stripped := (cfg.serverSet op.table).foldl (fun row field => row.erase field)
      (payload.erase TEXT_EDIT_KEY)
    if op.op = .insert then withPk (cfg.pk op.table) op.rowId stripped else stripped

/-- What `applyOptimistic` leaves under the op's row id. -/
def optimisticEntry (op : ClientOp) (existing : Option LocalRow) : Option LocalRow :=
  match op.op, existing with
  | .delete, _ => some ⟨none, rowClock op.hlc, some op.hlc⟩
  | _, some ⟨some data, colClocks, serverHlc⟩ =>
    some ⟨some ((localPayload cfg op).getD ∅ ∪ data), colClocks, serverHlc⟩
  | .insert, _ => some ⟨some ((localPayload cfg op).getD ∅), rowClock op.hlc, some op.hlc⟩
  | .update, existing => existing

def applyOptimistic (t : TableRows) (op : ClientOp) : TableRows :=
  match optimisticEntry cfg op (t.lookup (.str op.rowId)) with
  | some row => t.insert (.str op.rowId) row
  | none => t

/-! ## The server's side -/

/-- What became of an accepted op.  The eager path stamps an HLC of its own and does not compare
what it stored with what was sent. -/
inductive Acceptance
  | consistent (resolvedRow : Option Row) (updatedColClocks : Record Hlc)
  | eager (mergedRow : Option Row) (colClocks : Record Hlc) (hlc : Hlc)

/-- The columns of `row` that the op wrote and the client is holding. -/
def writerHeldColumns (row : Option Row) (colClocks : Record Hlc) (opHlc : Hlc)
    (serverSet : List String) (sent : Option (Option Row)) : Option Row :=
  match row with
  | none => none
  | some row =>
    let columns := colClocks.entries.filterMap fun e =>
      if e.1 = "_row" ∨ e.2 ≠ opHlc ∨ e.1 ∈ serverSet then none
      else (row.lookup e.1).bind fun value =>
        if sent.all fun payload => payload.bind (·.lookup e.1) = some value then some (e.1, value)
        else none
    if columns = [] then none else some (assignAll ∅ columns)

def Acceptance.heldColumns (op : ClientOp) : Acceptance → Option Row
  | .consistent row clocks =>
    writerHeldColumns row clocks op.hlc (cfg.serverSet op.table) (some op.payload)
  | .eager row clocks hlc => writerHeldColumns row clocks hlc (cfg.serverSet op.table) none

/-- `key in cached`: own columns, and what a plain object inherits. -/
def hasKey (cached : Row) (key : String) : Bool :=
  (cached.lookup key).isSome || (inherited key).isSome

def patchColumns (cached columns : Row) : Row :=
  assignAll cached (Lib.writes (columns.entries.filter fun e => hasKey cached e.1))

def patchRow (cached : CachedRows) (rowId : String) (columns : Row) : CachedRows :=
  match cached.lookup rowId with
  | none => cached
  | some row => cached.insert rowId (patchColumns row columns)

def evictRow (cached : CachedRows) (rowId : String) : CachedRows :=
  cached.erase rowId

/-- The cached results of the client, by query. -/
abbrev WriterCaches : Type :=
  String → Option CachedRows

def recordWriterColumns (caches : WriterCaches) (table rowId : String) (columns : Row) :
    WriterCaches :=
  fun query =>
    if query ∈ cfg.dependents table then (caches query).map fun rows => patchRow rows rowId columns
    else caches query

def forgetWriterRow (caches : WriterCaches) (table rowId : String) : WriterCaches :=
  fun query =>
    if query ∈ cfg.dependents table then (caches query).map fun rows => evictRow rows rowId
    else caches query

/-- How an accepted op adjusts the cached results of its writer. -/
def adjustCaches (caches : WriterCaches) (op : ClientOp) (acceptance : Acceptance) : WriterCaches :=
  match op.op with
  | .delete => forgetWriterRow cfg caches op.table op.rowId
  | _ =>
    match acceptance.heldColumns cfg op with
    | some held => recordWriterColumns cfg caches op.table op.rowId held
    | none => caches

/-! ## Sessions -/

/-- An op the client has not seen acknowledged. -/
structure WriterOp where
  op : ClientOp
  accepted : Bool

structure WriterState where
  stores : String → TableRows
  caches : WriterCaches
  pending : List WriterOp

inductive WriterEvent
  /-- `insert`, `update`, `delete` of the client. -/
  | create (op : ClientOp)
  | accept (i : Nat) (acceptance : Acceptance)
  | ack (i : Nat)
  | bootstrap (query : String) (rows : List Row) (hlc : Hlc)
  | broadcast (query : String) (rows : List Row) (hlc : Hlc)
  | unsync (query : String)

/-- The ops that name the query and that the server has not accepted yet. -/
def unacceptedOps (pending : List WriterOp) (query : String) : List ClientOp :=
  ((pending.filter fun p => ! p.accepted).map (·.op)).filter (·.table = query)

namespace WriterState

def start : WriterState :=
  ⟨fun _ => ∅, fun _ => none, []⟩

/-- The pending ops that name the query, in the order of their creation. -/
def pendingOps (s : WriterState) (query : String) : List ClientOp :=
  (s.pending.map (·.op)).filter (·.table = query)

abbrev unaccepted (s : WriterState) (query : String) : List ClientOp :=
  unacceptedOps s.pending query

end WriterState

/-- The deltas a broadcast of these rows sends. -/
def broadcastDeltas (query : String) (cached : CachedRows) (rows : List Row) (hlc : Hlc) :
    List Delta :=
  (diffOnly (cfg.pk query) cached rows).deltas hlc

def writerStep (s : WriterState) : WriterEvent → Option WriterState
  | .create op =>
    some { s with
      stores := Function.update s.stores op.table (applyOptimistic cfg (s.stores op.table) op)
      pending := s.pending ++ [⟨op, false⟩] }
  | .accept i acceptance =>
    match s.pending[i]? with
    | some ⟨op, false⟩ =>
      some { s with
        caches := adjustCaches cfg s.caches op acceptance
        pending := s.pending.set i ⟨op, true⟩ }
    | _ => none
  | .ack i =>
    match s.pending[i]? with
    | some ⟨_, true⟩ => some { s with pending := s.pending.eraseIdx i }
    | _ => none
  | .bootstrap query rows hlc =>
    -- `applySnapshot` replays the pending ops on the snapshot.
    let snapshot := applySnapshot ∅ (snapshotMessage (cfg.pk query) rows hlc false)
    some { s with
      stores := Function.update s.stores query
        ((s.pendingOps query).foldl (applyOptimistic cfg) snapshot)
      caches := Function.update s.caches query (some (byRowId (cfg.pk query) rows)) }
  | .broadcast query rows hlc =>
    match s.caches query with
    | some cached =>
      some { s with
        stores := Function.update s.stores query
          (applyDeltas (cfg.pk query) (s.stores query) (broadcastDeltas cfg query cached rows hlc))
        caches := Function.update s.caches query (some (byRowId (cfg.pk query) rows)) }
    | none => none
  | .unsync query =>
    some { s with
      stores := Function.update s.stores query ∅
      caches := Function.update s.caches query none }

def writerMachine : Lib.Machine WriterState WriterEvent :=
  ⟨.start, writerStep cfg⟩

end Sync
end Reflectdb
