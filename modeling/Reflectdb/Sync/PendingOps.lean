import Reflectdb.Sync.WriterSession

/-!
# Pending ops — the client's queue, its optimistic rows, and what a reject does to them

`ClientStore` keeps with every pending op the row as it was before the op was applied.  A reject
puts a row back on the server row it carries, or on what was kept with the earliest op still tracked
for the row, and replays the other pending ops of the row on it.
-/

namespace Reflectdb
namespace Sync

open Core Client

/-! ## The store -/

inductive OpStatus
  | pending
  | synced
  | rejected
  deriving DecidableEq

/-- An op in the queue.  `preState` is the row just before the op was applied, `none` for no row. -/
structure PendingOp where
  op : ClientOp
  status : OpStatus
  rejectedReason : Option ErrorReason
  createdAt : Nat
  preState : Option LocalRow

structure ClientStore where
  pendingOps : List PendingOp
  rows : String → TableRows

/-- How long a rejected op stays in the queue, counted from its creation. -/
def REJECTED_TTL_MS : Nat := 60000

/-- A row as the public reads see it: tombstones are hidden. -/
def getRow (t : TableRows) (rowId : String) : Option LocalRow :=
  (t.lookup (.str rowId)).filter (·.data.isSome)

def setRow (t : TableRows) (rowId : String) (row : LocalRow) : TableRows :=
  if row.data.isNone && row.serverHlc.isNone then t.erase (.str rowId)
  else t.insert (.str rowId) row

/-- The server's row takes the place of the row, and keeps the clocks of the row that was shown. -/
def putServerRow (t : TableRows) (rowId : String) (serverRow : Row) : TableRows :=
  let existing := getRow t rowId
  setRow t rowId ⟨some serverRow, (existing.map (·.colClocks)).getD ∅, existing.bind (·.serverHlc)⟩

namespace PendingOp

def onRow (table rowId : String) (p : PendingOp) : Bool :=
  p.op.table = table ∧ p.op.rowId = rowId

def reject (reason : ErrorReason) (p : PendingOp) : PendingOp :=
  { p with status := .rejected, rejectedReason := some reason }

end PendingOp

namespace ClientStore

def empty : ClientStore :=
  ⟨[], fun _ => ∅⟩

def addPendingOp (s : ClientStore) (op : ClientOp) (now : Nat) : ClientStore :=
  let existing := getRow (s.rows op.table) op.rowId
  { s with pendingOps := s.pendingOps ++ [⟨op, .pending, none, now, existing⟩] }

def getPendingOps (s : ClientStore) : List PendingOp :=
  s.pendingOps.filter (·.status = .pending)

def markSynced (s : ClientStore) (opIds : List String) : ClientStore :=
  { s with pendingOps := s.pendingOps.filter (·.op.id ∉ opIds) }

def autoTrimRejected (s : ClientStore) (now : Nat) : ClientStore :=
  { s with
    pendingOps := s.pendingOps.filter fun p =>
      p.status ≠ .rejected ∨ now < p.createdAt + REJECTED_TTL_MS }

/-- The first op of the id changes its status. -/
def rejectFirst (opId : String) (reason : ErrorReason) : List PendingOp → List PendingOp
  | [] => []
  | p :: ps => if p.op.id = opId then p.reject reason :: ps else p :: rejectFirst opId reason ps

def markRejected (s : ClientStore) (opId : String) (reason : ErrorReason) (now : Nat) :
    ClientStore :=
  autoTrimRejected { s with pendingOps := rejectFirst opId reason s.pendingOps } now

def rejectBatch (s : ClientStore) (batchId : String) (reason : ErrorReason) (now : Nat) :
    ClientStore :=
  autoTrimRejected
    { s with
      pendingOps := s.pendingOps.map fun p =>
        if p.op.batchId = some batchId then p.reject reason else p }
    now

variable (cfg : WriterConfig)

def applyOptimistic (s : ClientStore) (op : ClientOp) : ClientStore :=
  { s with rows := Function.update s.rows op.table (Sync.applyOptimistic cfg (s.rows op.table) op) }

/-- The pending ops of the table are applied again on the snapshot. -/
def applySnapshot (s : ClientStore) (table : String) (msg : Snapshot) : ClientStore :=
  let snapshot := Client.applySnapshot (s.rows table) msg
  let ops := ((s.getPendingOps.filter fun p => p.op.table = table).map (·.op))
  { s with
    rows := Function.update s.rows table (ops.foldl (Sync.applyOptimistic cfg) snapshot) }

def applyDelta (s : ClientStore) (table : String) (d : Delta) : ClientStore :=
  { s with
    rows := Function.update s.rows table (Client.applyDelta (cfg.pk table) (s.rows table) d) }

/-- The loop of `revertOp` over the other ops of the row: each keeps the row as it is before the op,
and is applied again if it is pending. -/
def replayRest (table rowId : String) :
    TableRows → List PendingOp → TableRows × List PendingOp
  | t, [] => (t, [])
  | t, p :: ps =>
    if p.onRow table rowId then
      let t' := if p.status = .pending then Sync.applyOptimistic cfg t p.op else t
      let rest := replayRest table rowId t' ps
      (rest.1, { p with preState := getRow t rowId } :: rest.2)
    else
      let rest := replayRest table rowId t ps
      (rest.1, p :: rest.2)

/-- The rows with the op's row put back: to the server's row, else to what the first op of the row
keeps, else to no row. -/
def revertBase (s : ClientStore) (op : ClientOp) (serverRow : Option Row) : TableRows :=
  let chain := s.pendingOps.filter (·.onRow op.table op.rowId)
  match serverRow, chain.head?.bind (·.preState) with
  | some row, _ => putServerRow (s.rows op.table) op.rowId row
  | none, some preState => setRow (s.rows op.table) op.rowId preState
  | none, none => (s.rows op.table).erase (.str op.rowId)

def revertOp (s : ClientStore) (opId : String) (serverRow : Option Row) : ClientStore :=
  match s.pendingOps.find? (·.op.id = opId) with
  | none => s
  | some pending =>
    let op := pending.op
    let rest := replayRest cfg op.table op.rowId (s.revertBase op serverRow)
      (s.pendingOps.eraseP (·.op.id = opId))
    { pendingOps := rest.2.filter (·.op.id ≠ opId)
      rows := Function.update s.rows op.table rest.1 }

end ClientStore

/-! ## Rejects -/

structure RejectMessage where
  opId : Option String
  batchId : Option String
  reason : ErrorReason
  serverRow : Option Row

namespace RejectMessage

/-- The message names the op; an empty `opId` names none. -/
def namesOp (msg : RejectMessage) (op : ClientOp) : Prop :=
  msg.opId.filter (· ≠ "") = some op.id

instance (msg : RejectMessage) (op : ClientOp) : Decidable (msg.namesOp op) :=
  inferInstanceAs (Decidable (_ = _))

def namesBatch (msg : RejectMessage) (op : ClientOp) : Prop :=
  ∃ batchId, msg.batchId.filter (· ≠ "") = some batchId ∧ op.batchId = some batchId

/-- The op is rejected by the message. -/
def rejects (msg : RejectMessage) (op : ClientOp) : Prop :=
  msg.namesOp op ∨ msg.namesBatch op

end RejectMessage

variable (cfg : WriterConfig)

namespace ClientStore

/-- The op that the reject names. -/
def rejectOp (s : ClientStore) (msg : RejectMessage) (now : Nat) : ClientStore :=
  match msg.opId.filter (· ≠ "") with
  | none => s
  | some opId => (s.markRejected opId msg.reason now).revertOp cfg opId msg.serverRow

/-- The ops of the batch that the reject names. -/
def rejectRest (s : ClientStore) (msg : RejectMessage) (now : Nat) : ClientStore :=
  match msg.batchId.filter (· ≠ "") with
  | none => s
  | some batchId =>
    let batchOpIds := (s.getPendingOps.filter fun p => p.op.batchId = some batchId).map (·.op.id)
    batchOpIds.foldl (fun s opId => s.revertOp cfg opId none)
      (s.rejectBatch batchId msg.reason now)

/-- A `reject` message at the client; the clock is read once for the op and once for the batch. -/
def handleReject (s : ClientStore) (msg : RejectMessage) (now batchNow : Nat) : ClientStore :=
  (s.rejectOp cfg msg now).rejectRest cfg msg batchNow

end ClientStore

end Sync
end Reflectdb
