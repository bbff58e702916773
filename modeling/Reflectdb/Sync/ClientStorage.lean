import Mathlib.Data.List.Sort
import Reflectdb.Server.Batches
import Reflectdb.Sync.PendingOps

/-!
# Client storage — the writes that mirror a client's store

`ClientStore` enqueues writes to its storage as it changes, on one serial chain.  A write of a row
has the row with it.  A write of ops has the op objects, and finds them as they are when it runs;
`putPendingOps` and `setMeta` look at the store itself when they run.

The two adapters keep rows and metadata alike.  Of the ops the one in memory keeps an array, the one
in IndexedDB a record under each op id.
-/

namespace Reflectdb
namespace Sync

open Core Client Server

/-! ## Table metadata -/

structure TableMeta where
  serverSet : List String
  readonly : List String
  broadcast : BroadcastMode
  pk : String

/-- Table metadata as the server sends it. -/
structure TableMetaMessage where
  serverSet : List String
  readonly : List String
  broadcast : Option BroadcastMode
  pk : Option String

def TableMetaMessage.read (m : TableMetaMessage) : TableMeta :=
  ⟨m.serverSet, m.readonly, m.broadcast.getD .consistent, m.pk.getD "id"⟩

/-- What the store looks up in the metadata of a table. -/
def metaConfig (tableMeta : Record TableMeta) : WriterConfig where
  pk table := ((tableMeta.lookup table).map (·.pk)).getD "id"
  serverSet table := ((tableMeta.lookup table).map (·.serverSet)).getD []
  dependents _ := []

/-! ## Writes -/

/-- A write to the rows of a table. -/
inductive RowWrite
  | putRow (key : Json) (row : LocalRow)
  | deleteRow (key : Json)
  | clearTable

inductive StorageWrite
  | row (table : String) (write : RowWrite)
  | appendPendingOps (ids : List String)
  | updatePendingOps (ids : List String)
  | removePendingOps (ids : List String)
  | putPendingOps
  | setMeta

def RowWrite.run (t : TableRows) : RowWrite → TableRows
  | .putRow key row => t.insert key row
  | .deleteRow key => t.erase key
  | .clearTable => ∅

/-! ### The writes of the store's methods -/

def setRowWrite (rowId : String) (row : LocalRow) : RowWrite :=
  if row.data.isNone && row.serverHlc.isNone then .deleteRow (.str rowId)
  else .putRow (.str rowId) row

def deltaWrites (pk : String) (t : TableRows) (d : Delta) : List RowWrite :=
  ((applyEntry pk (t.lookup (.str d.rowId)) d).map (.putRow (.str d.rowId))).toList

section

variable (cfg : WriterConfig)

/-- An update of a row that is not there is not applied. -/
def optimisticWrites (t : TableRows) (op : ClientOp) : List RowWrite :=
  if op.op = .update ∧ getRow t op.rowId = none then []
  else ((optimisticEntry cfg op (t.lookup (.str op.rowId))).map (.putRow (.str op.rowId))).toList

/-- The writes of ops that are applied one after another. -/
def optimisticLog : TableRows → List ClientOp → List RowWrite
  | _, [] => []
  | t, op :: ops =>
    optimisticWrites cfg t op ++ optimisticLog (Sync.applyOptimistic cfg t op) ops

def snapshotWrites (s : ClientStore) (table : String) (msg : Snapshot) : List RowWrite :=
  let snapshot := Client.applySnapshot (s.rows table) msg
  let ops := ((s.getPendingOps.filter fun p => p.op.table = table).map (·.op))
  (if msg.append then [] else [.clearTable]) ++
    (msg.rows.map fun row => .putRow (snapshotKey msg.pk row) (snapshotEntry msg row)) ++
      optimisticLog cfg snapshot ops

/-- The write that puts the op's row back. -/
def revertBaseWrite (s : ClientStore) (op : ClientOp) (serverRow : Option Row) : RowWrite :=
  let chain := s.pendingOps.filter (·.onRow op.table op.rowId)
  match serverRow, chain.head?.bind (·.preState) with
  | some row, _ =>
    let existing := getRow (s.rows op.table) op.rowId
    setRowWrite op.rowId
      ⟨some row, (existing.map (·.colClocks)).getD ∅, existing.bind (·.serverHlc)⟩
  | none, some preState => setRowWrite op.rowId preState
  -- Of a table that has never had rows, nothing is deleted.
  | none, none => .deleteRow (.str op.rowId)

/-- The writes of the loop of `revertOp`. -/
def replayWrites (table rowId : String) : TableRows → List PendingOp → List RowWrite
  | _, [] => []
  | t, p :: ps =>
    if p.onRow table rowId ∧ p.status = .pending then
      optimisticWrites cfg t p.op ++ replayWrites table rowId (Sync.applyOptimistic cfg t p.op) ps
    else replayWrites table rowId t ps

/-- What `revertOp` enqueues: the row, the ops whose `preState` is another now, the op. -/
def revertWrites (s : ClientStore) (opId : String) (serverRow : Option Row) : List StorageWrite :=
  match s.pendingOps.find? (·.op.id = opId) with
  | none => []
  | some pending =>
    let op := pending.op
    let base := s.revertBase op serverRow
    let others := s.pendingOps.eraseP (·.op.id = opId)
    let rest := (others.filter (·.onRow op.table op.rowId)).map (·.op.id)
    (revertBaseWrite s op serverRow :: replayWrites cfg op.table op.rowId base others).map
        (.row op.table) ++
      ((if rest = [] then [] else [.updatePendingOps rest]) ++ [.removePendingOps [opId]])

end

/-! ## Adapters -/

inductive Adapter
  | memory
  | indexedDB
  deriving DecidableEq

/-- The op objects of the array, by their ids; or the records. -/
def Adapter.Ops : Adapter → Type
  | .memory => List String
  | .indexedDB => Record PendingOp

/-- `tableMeta` is read back from its JSON as it was. -/
structure Storage (a : Adapter) where
  rows : String → TableRows
  pendingOps : a.Ops
  tableMeta : Option (Record TableMeta)

/-- The op objects as they are now, by their ids. -/
abbrev OpObjects : Type :=
  String → Option PendingOp

/-- The array of the adapter in memory after a write; `current` are the ops of the store.  An object
takes the place of itself. -/
def idsAfter (current : List PendingOp) (ids : List String) : StorageWrite → List String
  | .appendPendingOps added => ids ++ added
  | .removePendingOps removed => ids.filter (· ∉ removed)
  | .putPendingOps => current.map (·.op.id)
  | .row .. | .updatePendingOps _ | .setMeta => ids

def putRecords (records : Record PendingOp) (ps : List PendingOp) : Record PendingOp :=
  Lib.replay records (ps.map fun p => (p.op.id, p))

/-- The records after a write. -/
def recordsAfter (objects : OpObjects) (current : List PendingOp) (records : Record PendingOp) :
    StorageWrite → Record PendingOp
  | .appendPendingOps ids | .updatePendingOps ids => putRecords records (ids.filterMap objects)
  | .removePendingOps ids => ids.foldl (fun records id => records.erase id) records
  | .putPendingOps => putRecords ∅ current
  | .row .. | .setMeta => records

namespace Adapter

def emptyOps : (a : Adapter) → a.Ops
  | .memory => ([] : List String)
  | .indexedDB => (∅ : Record PendingOp)

def opsAfter (objects : OpObjects) (current : List PendingOp) :
    (a : Adapter) → a.Ops → StorageWrite → a.Ops
  | .memory => idsAfter current
  | .indexedDB => recordsAfter objects current

/-- IndexedDB returns the records in the order of their keys. -/
def getPendingOps (objects : OpObjects) : (a : Adapter) → a.Ops → List PendingOp
  | .memory => fun ids : List String => ids.filterMap objects
  | .indexedDB => fun records : Record PendingOp =>
    (records.entries.map (·.2)).insertionSort fun p q => p.op.id ≤ q.op.id

end Adapter

namespace Storage

variable {a : Adapter}

def empty (a : Adapter) : Storage a :=
  ⟨fun _ => ∅, a.emptyOps, none⟩

/-- The rows after a write. -/
def rowsAfter (rows : String → TableRows) : StorageWrite → String → TableRows
  | .row table w => Function.update rows table (w.run (rows table))
  | _ => rows

/-- The metadata after a write; `current` is that of the store. -/
def metaAfter (current : Record TableMeta) (stored : Option (Record TableMeta)) :
    StorageWrite → Option (Record TableMeta)
  | .setMeta => some current
  | _ => stored

/-- One write, with the store as it is when the write runs. -/
def write (objects : OpObjects) (current : List PendingOp) (tableMeta : Record TableMeta)
    (storage : Storage a) (w : StorageWrite) : Storage a where
  rows := rowsAfter storage.rows w
  pendingOps := a.opsAfter objects current storage.pendingOps w
  tableMeta := metaAfter tableMeta storage.tableMeta w

end Storage

end Sync
end Reflectdb
