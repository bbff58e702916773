import Reflectdb.Lib.Replay
import Reflectdb.Lib.OrderedSet
import Reflectdb.Lib.SortedLog
import Reflectdb.Server.ApplyOpIf

/-!
# Room state — rows, op ring and reservations of a room, under a byte budget

`RoomState` of the object-storage backend.  A method runs on the room and on the budget that all
rooms of the process share, and may throw half-way; the readings of the clock are arguments.  The
sizes of JSON texts are a parameter, the lengths of strings are counted in UTF-16 units.
-/

namespace Reflectdb
namespace ObjectStorage

open Core Client Lib
open Server (OpLogEntry utf16Length)

/-! ## Memory limits -/

inductive MemoryPolicy
  | reject
  | evict
  | spill
  deriving DecidableEq

/-- `none` is no limit, as `Infinity` is. -/
structure MemoryConfig where
  maxTotalBytes : Option Nat
  maxRoomBytes : Option Nat
  onExceeded : MemoryPolicy
  deriving DecidableEq

/-- `ProcessMemoryBudget`. -/
structure Budget where
  limitBytes : Option Nat
  usedBytes : Nat
  deriving DecidableEq

/-- The tightest configuration wins. -/
def Budget.constrain (budget : Budget) (limit : Option Nat) : Budget :=
  match budget.limitBytes, limit with
  | _, none => budget
  | none, some limit => { budget with limitBytes := some limit }
  | some old, some limit => { budget with limitBytes := some (min old limit) }

inductive MemoryError
  | limitExceeded (used : Int) (limit : Nat)
  /-- A policy that phase 1 does not have. -/
  | notImplemented (policy : MemoryPolicy) (limit : Nat)
  deriving DecidableEq

/-- `refuse`. -/
def MemoryPolicy.refuse (policy : MemoryPolicy) (used : Int) (limit : Nat) : MemoryError :=
  if policy ≠ .reject then .notImplemented policy limit else .limitExceeded used limit

/-- The limit, if the total is above it. -/
def exceeded (limit : Option Nat) (total : Int) : Option Nat :=
  limit.filter fun limit => (limit : Int) < total

/-! ## Records -/

/-- Table and row id. -/
abbrev RowKey : Type :=
  String × String

structure WalRowMutation where
  table : String
  rowId : String
  /-- `none` deletes the row. -/
  row : Option Row
  colClocks : Record Hlc
  hlc : Hlc

def WalRowMutation.key (m : WalRowMutation) : RowKey :=
  (m.table, m.rowId)

inductive WalRecord
  | row (m : WalRowMutation)
  | op (entry : OpLogEntry)
  | apply (m : WalRowMutation) (entry : OpLogEntry)
  | reserve (opIds : List String) (stamp : Nat)

/-- The HLC a record contributes; a reservation contributes nothing. -/
def recordHlc : WalRecord → Hlc
  | .row m => m.hlc
  | .op entry => entry.hlc
  | .apply m _ => m.hlc
  | .reserve _ _ => ""

structure SnapshotRow where
  table : String
  rowId : String
  row : Row
  colClocks : Record Hlc
  hlc : Hlc

def SnapshotRow.mutation (r : SnapshotRow) : WalRowMutation :=
  ⟨r.table, r.rowId, some r.row, r.colClocks, r.hlc⟩

/-- An op id, and when it was reserved. -/
abbrev Reservation : Type :=
  String × Nat

structure SnapshotRecord where
  hlc : Option Hlc
  rows : List SnapshotRow
  reservedOps : List Reservation

/-! ## Sizes -/

/-- `JSON.stringify(value).length` of what is charged or written. -/
structure JsonSizes where
  row : Row → Nat
  colClocks : Record Hlc → Nat
  op : OpLogEntry → Nat
  record : WalRecord → Nat

def JsonSizes.rowBytes (sizes : JsonSizes) (key : RowKey) (row : Row) (colClocks : Record Hlc)
    (hlc : Hlc) : Nat :=
  utf16Length key.1 + utf16Length key.2 + utf16Length hlc + sizes.row row +
    sizes.colClocks colClocks

/-- Charge for one reserved op id. -/
def reservationBytes (opId : String) : Nat :=
  utf16Length opId + 24

/-! ## The room -/

structure RowEntry where
  row : Row
  colClocks : Record Hlc
  hlc : Hlc
  /-- Charged to the budget on insert, refunded on replace or delete. -/
  bytes : Nat

structure OpEntry where
  entry : OpLogEntry
  bytes : Nat

def OP_ID_RETENTION_MS : Nat := 24 * 60 * 60 * 1000

def OP_ID_SWEEP_INTERVAL_MS : Nat := 60000

/-- `at < cutoff`: the reservation is past the retention. -/
def expired (now at_ : Nat) : Bool :=
  at_ + OP_ID_RETENTION_MS < now

/-- The rows are under table and row id together. -/
structure RoomState where
  memory : MemoryConfig
  rows : AList fun _ : RowKey => RowEntry
  /-- The op ring, in ascending HLC order. -/
  ops : List OpEntry
  reserved : Record Nat
  meta_ : Record String
  roomBytes : Nat
  highestHlc : Option Hlc
  lastSweepAt : Nat

/-- First index whose HLC is strictly greater than `hlc`. -/
def indexAfter (ops : List OpEntry) (hlc : Hlc) : Nat :=
  bisect (fun op => op.entry.hlc ≤ hlc) ops ops.length 0 ops.length

/-- First index whose HLC is greater than or equal to `hlc`. -/
def indexBefore (ops : List OpEntry) (hlc : Hlc) : Nat :=
  bisect (fun op => op.entry.hlc < hlc) ops ops.length 0 ops.length

/-- An item goes to the end of the ring, or by its HLC if that is not the highest. -/
def place (ops : List OpEntry) (item : OpEntry) : List OpEntry :=
  if ops.getLast?.all (·.entry.hlc ≤ item.entry.hlc) then ops ++ [item]
  else ops.take (indexAfter ops item.entry.hlc) ++
    item :: ops.drop (indexAfter ops item.entry.hlc)

namespace RoomState

def empty (memory : MemoryConfig) : RoomState :=
  ⟨memory, ∅, [], ∅, ∅, 0, none, 0⟩

def noteHlc (st : RoomState) (hlc : Hlc) : RoomState :=
  { st with highestHlc := some (st.highestHlc.elim hlc fun highest => max highest hlc) }

/-! ## Reads -/

def getOpsSince (st : RoomState) (since : Hlc) (tables : List String) : List OpLogEntry :=
  ((st.ops.drop (indexAfter st.ops since)).filter fun op => op.entry.table ∈ tables).map
    OpEntry.entry

/-- The scan of `getChangedTablesSince`, which ends once every wanted table has changed. -/
def changedFrom (wanted : List String) : List OpEntry → (changed : List String) → List String
  | [], changed => changed
  | op :: ops, changed =>
    let changed := if op.entry.table ∈ wanted then addLast changed op.entry.table else changed
    if changed.length = wanted.length then changed else changedFrom wanted ops changed

def getChangedTablesSince (st : RoomState) (since : Hlc) (tables : List String) : List String :=
  if tables = [] then []
  else changedFrom tables.dedup (st.ops.drop (indexAfter st.ops since)) []

/-- Backwards from the head. -/
def getOplogHead (st : RoomState) (tables : List String) : Option Hlc :=
  (st.ops.reverse.find? fun op => op.entry.table ∈ tables).map (·.entry.hlc)

/-! ## Compaction -/

def snapshotRow (e : Sigma fun _ : RowKey => RowEntry) : SnapshotRow :=
  ⟨e.1.1, e.1.2, e.2.row, e.2.colClocks, e.2.hlc⟩

/-- Expired reservations are dropped rather than written out, and the op ring is left out. -/
def toSnapshot (st : RoomState) (now : Nat) : SnapshotRecord where
  hlc := st.highestHlc
  rows := st.rows.entries.map snapshotRow
  reservedOps := (st.reserved.entries.filter fun e => !expired now e.2).map fun e => (e.1, e.2)

end RoomState

/-! ## Charging -/

/-- A room and the budget of its process. -/
structure Held where
  room : RoomState
  budget : Budget

/-- A method of a room. -/
abbrev RoomM : Type → Type :=
  EStateM MemoryError Held

namespace Held

/-- What `checkBytes` throws: the room's limit is asked first, then the process'. -/
def refusal (h : Held) (delta : Int) : Option MemoryError :=
  match exceeded h.room.memory.maxRoomBytes (h.room.roomBytes + delta) with
  | some limit => some (h.room.memory.onExceeded.refuse (h.room.roomBytes + delta) limit)
  | none =>
    (exceeded h.budget.limitBytes (h.budget.usedBytes + delta)).map
      (h.room.memory.onExceeded.refuse (h.budget.usedBytes + delta))

/-- The counters move by `delta`, and not below zero. -/
def post (h : Held) (delta : Int) : Held where
  room := { h.room with roomBytes := (h.room.roomBytes + delta).toNat }
  budget := { h.budget with usedBytes := (h.budget.usedBytes + delta).toNat }

/-- The room changes, the budget stays. -/
def onRoom (h : Held) (f : RoomState → RoomState) : Held :=
  { h with room := f h.room }

end Held

def checkBytes (delta : Int) : RoomM Unit := do
  match (← get).refusal delta with
  | some error => throw error
  | none => pure ()

def addBytes (delta : Int) : RoomM Unit := do
  if 0 < delta then
    checkBytes delta
  modify (·.post delta)

def noteHlc (hlc : Hlc) : RoomM Unit :=
  modify (·.onRoom (·.noteHlc hlc))

/-! ## Writes -/

section Writes

variable (sizes : JsonSizes)

/-- What the row of a mutation is charged. -/
def JsonSizes.mutationBytes (m : WalRowMutation) : Nat :=
  m.row.elim 0 fun row => sizes.rowBytes m.key row m.colClocks m.hlc

/-- What the row at a key is charged now. -/
def RoomState.chargedAt (st : RoomState) (key : RowKey) : Nat :=
  (st.rows.lookup key).elim 0 RowEntry.bytes

def putRow (m : WalRowMutation) : RoomM Unit := do
  let previous := (← get).room.rows.lookup m.key
  match m.row with
  | none =>
    -- A delete, not a write of a null row.
    if let some previous := previous then
      addBytes (-previous.bytes)
      modify (·.onRoom fun st => { st with rows := st.rows.erase m.key })
    noteHlc m.hlc
  | some row =>
    let bytes := sizes.rowBytes m.key row m.colClocks m.hlc
    -- The delta, not the new size.
    addBytes (bytes - (previous.elim 0 RowEntry.bytes : Nat))
    modify (·.onRoom fun st =>
      { st with rows := st.rows.insert m.key ⟨row, m.colClocks, m.hlc, bytes⟩ })
    noteHlc m.hlc

/-- The combined cost of a row mutation and its op.  Only growth can be refused. -/
def assertCanAdmitApply (m : WalRowMutation) (op : Option OpLogEntry) : RoomM Unit := do
  let delta : Int := sizes.mutationBytes m - ((← get).room.chargedAt m.key : Nat) +
    (op.elim 0 sizes.op : Nat)
  if 0 < delta then
    checkBytes delta

def appendOp (entry : OpLogEntry) : RoomM Unit := do
  let bytes := sizes.op entry
  addBytes bytes
  modify (·.onRoom fun st => { st with ops := place st.ops ⟨entry, bytes⟩ })
  noteHlc entry.hlc

/-- It answers how many ops it removed. -/
def deleteOpsBefore (hlc : Hlc) : RoomM Nat := do
  let ops := (← get).room.ops
  let cut := indexBefore ops hlc
  if cut = 0 then
    return 0
  let removed := ops.take cut
  modify (·.onRoom fun st => { st with ops := st.ops.drop cut })
  addBytes (-((removed.map OpEntry.bytes).sum : Nat))
  return removed.length

/-! ## Reservations -/

def sweepReservedOps (now : Nat) : RoomM Unit := do
  let st := (← get).room
  if now - st.lastSweepAt < OP_ID_SWEEP_INTERVAL_MS then
    return
  let gone := (st.reserved.entries.filter fun e => expired now e.2).map Sigma.fst
  modify (·.onRoom fun st =>
    { st with
      lastSweepAt := now
      reserved := gone.foldl (fun ids opId => ids.erase opId) st.reserved })
  let freed := (gone.map reservationBytes).sum
  if 0 < freed then
    addBytes (-freed)

/-- The entry of an id is written before its charge is checked. -/
def admitOp (opId : String) (at_ : Nat) : RoomM Unit := do
  modify (·.onRoom fun st => { st with reserved := st.reserved.insert opId at_ })
  addBytes (reservationBytes opId)

def reserveOp (opId : String) (sweptAt now : Nat) : RoomM Bool := do
  sweepReservedOps sweptAt
  if opId ∈ (← get).room.reserved then
    return false
  admitOp opId now
  return true

def reserveEach (now : Nat) : List String → RoomM (List String)
  | [] => pure []
  | opId :: opIds => do
    if opId ∈ (← get).room.reserved then
      reserveEach now opIds
    else
      admitOp opId now
      let fresh ← reserveEach now opIds
      return opId :: fresh

def reserveOps (opIds : List String) (sweptAt now : Nat) : RoomM (List String) := do
  if opIds = [] then
    return []
  sweepReservedOps sweptAt
  reserveEach now opIds

/-- The earliest timestamp of an id is kept. -/
def restoreEach (at_ : Nat) : List String → RoomM Unit
  | [] => pure ()
  | opId :: opIds => do
    match (← get).room.reserved.lookup opId with
    | none => admitOp opId at_
    | some existing =>
      -- Already charged; only the timestamp moves earlier.
      if at_ < existing then
        modify (·.onRoom fun st => { st with reserved := st.reserved.insert opId at_ })
    restoreEach at_ opIds

def restoreReservations (opIds : List String) (at_ now : Nat) : RoomM Unit := do
  if expired now at_ then
    return
  restoreEach at_ opIds

def setMeta (key value : String) : RoomM Unit :=
  modify (·.onRoom fun st => { st with meta_ := st.meta_.insert key value })

def loadMeta (pairs : Record String) : RoomM Unit :=
  modify (·.onRoom fun st => { st with meta_ := pairs })

/-! ## Boot -/

/-- Replays one durable record. -/
def applyRecord (record : WalRecord) (now : Nat) : RoomM Unit :=
  match record with
  | .reserve opIds stamp => restoreReservations opIds stamp now
  | .row m => putRow sizes m
  | .op entry => appendOp sizes entry
  | .apply m entry => do
    putRow sizes m
    appendOp sizes entry

/-- The records in order, each with the reading of the clock when it is applied. -/
def applyRecords : List (Nat × WalRecord) → RoomM Unit
  | [] => pure ()
  | (now, record) :: records => do
    applyRecord sizes record now
    applyRecords records

/-- `reset`, which `dispose` calls too. -/
def reset : RoomM Unit := do
  addBytes (-((← get).room.roomBytes : Nat))
  modify (·.onRoom fun st => { st with rows := ∅, ops := [], reserved := ∅, highestHlc := none })

def putRows : List SnapshotRow → RoomM Unit
  | [] => pure ()
  | row :: rows => do
    putRow sizes row.mutation
    putRows rows

def admitEach : List Reservation → RoomM Unit
  | [] => pure ()
  | (opId, at_) :: rest => do
    admitOp opId at_
    admitEach rest

/-- The reservations of a snapshot that are not past the retention. -/
def SnapshotRecord.kept (record : SnapshotRecord) (now : Nat) : List Reservation :=
  record.reservedOps.filter fun r => !expired now r.2

def loadSnapshot (record : SnapshotRecord) (now : Nat) : RoomM Unit := do
  reset
  putRows sizes record.rows
  admitEach (record.kept now)
  match record.hlc with
  | none => pure ()
  | some hlc =>
    if hlc ≠ "" then
      noteHlc hlc

end Writes

end ObjectStorage
end Reflectdb
