import Reflectdb.Lib.Machine
import Reflectdb.Lib.OrderedSet
import Reflectdb.Server.EagerOp
import Reflectdb.Server.RowClocks

/-!
# Eager buffer — accepted now, persisted later

One process.  An eager op is laid over the row that it reads, accepted and sent to the subscribers,
and persisted by a later flush; an `eager-durable` op, or one that finds its buffer full, is
persisted first.  The calls of a flush run side by side, and the ops whose calls fail go back to the
head of their buffer.
-/

namespace Reflectdb
namespace Server

open Core Client

/-! ## Ops -/

abbrev RowKey : Type :=
  String × String

/-- An op that has passed the gates: its columns are enforced and its HLC is stamped. -/
structure EagerRowOp where
  key : RowKey
  op : OpType
  payload : Option Row
  hlc : Hlc

/-- An op with what it persists and sends. -/
structure EagerEntry where
  task : Nat
  op : EagerRowOp
  write : EagerWrite

/-- What the entry's `applyOp` leaves: the write of a null row is a delete. -/
def EagerEntry.stored (entry : EagerEntry) : Option StoredRow :=
  entry.write.mergedRow.map fun row =>
    ⟨row, entry.op.hlc, entry.write.delta.colClocks.getD ∅⟩

/-- The row after the op. -/
def rowAfter (op : EagerRowOp) (row : Option Row) : Option Row :=
  match op.op with
  | .insert => some (op.payload.getD ∅)
  | .update => some (op.payload.getD ∅ ∪ row.getD ∅)
  | .delete => none

def foldOps (entries : List EagerEntry) : Option Row :=
  entries.foldl (fun row entry => rowAfter entry.op row) none

/-! ## Reads -/

/-- Where an op has its row from.  No step goes by it. -/
inductive ReadFrom
  | nothing
  /-- The storage, with so many of the row's ops accepted by then; whether all of them were in the
  storage, and nothing else of the row. -/
  | stored (accepted : Nat) (settled : Bool)
  /-- The op that its batch had recorded. -/
  | recorded (task : Nat)
  deriving DecidableEq

structure RowView where
  existing : ExistingRow
  source : ReadFrom

/-- What the ops of a message know of the rows. -/
structure EagerBatch where
  rows : RowKey → Option RowView
  stale : RowKey → Bool
  /-- It is among the `activeBatches`. -/
  active : Bool

/-! ## The state -/

inductive EagerPhase
  /-- An update, before its read. -/
  | reading
  /-- `getRow` has read the storage. -/
  | fetched (view : RowView)
  /-- `authorize` and `mutate` are awaited. -/
  | ready (source : ReadFrom) (write : EagerWrite)
  /-- Its own `applyOp` is under way. -/
  | persisting (source : ReadFrom) (write : EagerWrite)
  /-- Its own `applyOp` has taken effect; the answer is under way. -/
  | persisted (source : ReadFrom) (write : EagerWrite)
  | accepted (write : EagerWrite)
  | rejected
  | threw

def EagerPhase.ended : EagerPhase → Bool
  | .accepted _ => true
  | .rejected => true
  | .threw => true
  | _ => false

structure EagerTask where
  op : EagerRowOp
  /-- The query is `eager-durable`. -/
  durable : Bool
  batch : Option Nat
  phase : EagerPhase

/-- Where a call of a flush stands. -/
inductive CallStatus
  | calling
  | succeeded
  | failed
  deriving DecidableEq

structure FlushItem where
  entry : EagerEntry
  status : CallStatus

/-- `doFlush`: its place among the buffers, the buffer that it has drained, and whether its loop has
ended. -/
structure FlushRun where
  place : Nat
  items : Option (List FlushItem)
  ended : Bool

/-- A caller of `flush`: the ops pushed before, and once it is answered those of them that are
neither persisted nor queued after a reported failure. -/
structure FlushCall where
  pushed : List Nat
  missed : Option (List Nat)

structure EagerState where
  tasks : List EagerTask
  batches : List EagerBatch
  /-- The buffers, in the order in which they were made. -/
  queryNames : List String
  buffers : String → List EagerEntry
  run : Option FlushRun
  rows : RowKey → Option StoredRow
  calls : List FlushCall
  /-- The accepted ops, in the order in which their deltas are sent.  No step goes by these. -/
  accepted : List EagerEntry
  written : List EagerEntry
  /-- Persisted by a call of their own, and not accepted yet. -/
  direct : List EagerEntry
  reported : List Nat
  pushed : List Nat

inductive EagerEvent
  | startBatch
  | finishBatch (batch : Nat)
  | prefetch (batch : Nat) (key : RowKey)
  | startOp (op : EagerRowOp) (durable : Bool) (batch : Option Nat)
  /-- `readRow`, which may throw. -/
  | read (task : Nat) (answered : Bool)
  /-- The answer of `getRow` comes in. -/
  | cacheRow (task : Nat)
  /-- `authorize`, the capacity or `mutate` refuses the op. -/
  | refuse (task : Nat)
  /-- `mutate` has returned. -/
  | persist (task : Nat)
  /-- The op's own `applyOp` takes effect. -/
  | apply (task : Nat)
  /-- The op's own `applyOp` answers, or fails. -/
  | settleOp (task : Nat) (answered : Bool)
  | flush
  /-- The flush goes on to the next buffer. -/
  | drain
  /-- A call of the flush takes effect; its answer may be lost. -/
  | applyItem (item : Nat) (answered : Bool)
  | failItem (item : Nat)
  /-- The calls of a buffer are settled. -/
  | settle
  | endFlush

namespace EagerState

variable (s : EagerState)

def start : EagerState :=
  ⟨[], [], [], fun _ => [], none, fun _ => none, [], [], [], [], [], []⟩

/-- The ops of a row among some entries. -/
def ofKey (entries : List EagerEntry) (key : RowKey) : List EagerEntry :=
  entries.filter fun entry => entry.op.key = key

/-- The calls of the running flush that have not succeeded. -/
def calling : List EagerEntry :=
  match s.run.bind (·.items) with
  | some items => (items.filter (·.status ≠ .succeeded)).map (·.entry)
  | none => []

/-- The accepted ops of the row that wait for the storage, in order. -/
def pendingOf (key : RowKey) : List EagerEntry :=
  ofKey s.calling key ++ ofKey (s.buffers key.1) key

/-- The storage has every accepted op of the row and nothing else. -/
def settled (key : RowKey) : Bool :=
  (s.pendingOf key).isEmpty && (ofKey s.direct key).isEmpty

def view (key : RowKey) : RowView :=
  ⟨getRow (s.rows key), .stored (ofKey s.accepted key).length (s.settled key)⟩

def setPhase (t : Nat) (task : EagerTask) (phase : EagerPhase) : EagerState :=
  { s with tasks := s.tasks.set t { task with phase := phase } }

/-- `batchCtx?.rows.set(key, ..)`, with the mark taken off. -/
def setRow (batch : Option Nat) (key : RowKey) (view : RowView) : EagerState :=
  { s with
    batches := s.batches.mapIdx fun b x =>
      if batch = some b then { x with
        rows := Function.update x.rows key (some view)
        stale := Function.update x.stale key false }
      else x }

/-- The other batches that are under way have a stale row. -/
def markStale (batch : Option Nat) (key : RowKey) : EagerState :=
  { s with
    batches := s.batches.mapIdx fun b x =>
      if x.active ∧ batch ≠ some b then { x with stale := Function.update x.stale key true }
      else x }

def recordWrite (t : Nat) (task : EagerTask) (write : EagerWrite) : EagerState :=
  (s.markStale task.batch task.op.key).setRow task.batch task.op.key
    ⟨⟨write.mergedRow, some task.op.hlc, write.delta.colClocks.getD ∅⟩, .recorded t⟩

/-- What the task's batch has of the row, unless it is stale. -/
def cachedFor (task : EagerTask) : Option RowView :=
  (task.batch.bind fun b => s.batches[b]?).bind fun batch =>
    if batch.stale task.op.key then none else batch.rows task.op.key

/-- Nothing of the message has started. -/
def unstarted (b : Nat) : Bool :=
  s.tasks.all fun task => task.batch ≠ some b

/-- The ops of the message that have started have ended. -/
def idle (b : Nat) : Bool :=
  s.tasks.all fun task => task.batch ≠ some b || task.phase.ended

def write (entry : EagerEntry) : EagerState :=
  { s with
    rows := Function.update s.rows entry.op.key entry.stored
    written := s.written ++ [entry] }

/-- The delta is sent; the op is answered. -/
def accept (t : Nat) (task : EagerTask) (write : EagerWrite) : EagerState :=
  { s.setPhase t task (.accepted write) with
    accepted := s.accepted ++ [⟨t, task.op, write⟩]
    direct := s.direct.filter fun entry => entry.task ≠ t }

/-- `push`; `none` is a full buffer. -/
def withBuffer (table : String) : EagerState :=
  { s with queryNames := if table ∈ s.queryNames then s.queryNames else s.queryNames ++ [table] }

def push (entry : EagerEntry) : EagerState :=
  { s with
    buffers := Function.update s.buffers entry.op.key.1 (s.buffers entry.op.key.1 ++ [entry])
    pushed := s.pushed ++ [entry.task] }

def setRun (run : FlushRun) : EagerState :=
  { s with run := some run }

/-- It waits in a buffer after a failure that was reported. -/
def requeued (t : Nat) : Bool :=
  s.queryNames.any (fun table => (s.buffers table).any fun entry => entry.task = t) &&
    s.reported.contains t

/-! ## Steps -/

def stepStart (op : EagerRowOp) (durable : Bool) (batch : Option Nat) : Option EagerState :=
  if batch.all fun b => (s.batches[b]?.any (·.active)) && s.idle b then
    let phase := match op.op, op.payload with
      | .update, some _ => .reading
      | _, _ => .ready .nothing (eagerWrite op.op op.key.2 op.payload op.hlc none)
    some { s with tasks := s.tasks ++ [⟨op, durable, batch, phase⟩] }
  else none

def ready (t : Nat) (task : EagerTask) (view : Option RowView) : EagerState :=
  s.setPhase t task (.ready ((view.map (·.source)).getD .nothing)
    (eagerWrite task.op.op task.op.key.2 task.op.payload task.op.hlc (view.map (·.existing))))

def stepRead (t : Nat) (task : EagerTask) (answered : Bool) : Option EagerState :=
  match task.phase with
  | .reading =>
    match s.cachedFor task with
    | some view => some (s.ready t task (some view))
    | none =>
      if answered then some (s.setPhase t task (.fetched (s.view task.op.key)))
      else some (s.ready t task none)
  | _ => none

def stepCache (t : Nat) (task : EagerTask) : Option EagerState :=
  match task.phase with
  | .fetched view => some ((s.setRow task.batch task.op.key view).ready t task (some view))
  | _ => none

def stepRefuse (t : Nat) (task : EagerTask) : Option EagerState :=
  match task.phase with
  | .ready _ _ => some (s.setPhase t task .rejected)
  | _ => none

/-- A buffered op is accepted as it is pushed.  One that finds the buffer full is recorded, and then
persisted by a call of its own. -/
def stepPersist (maxBufferSize : String → Nat) (t : Nat) (task : EagerTask) : Option EagerState :=
  match task.phase with
  | .ready source write =>
    let s' := s.withBuffer task.op.key.1
    if task.durable then some (s.setPhase t task (.persisting source write))
    else if (s.buffers task.op.key.1).length < maxBufferSize task.op.key.1 then
      some (((s'.push ⟨t, task.op, write⟩).recordWrite t task write).accept t task write)
    else some ((s'.recordWrite t task write).setPhase t task (.persisting source write))
  | _ => none

def stepApply (t : Nat) (task : EagerTask) : Option EagerState :=
  match task.phase with
  | .persisting source write =>
    let s' := (s.write ⟨t, task.op, write⟩).setPhase t task (.persisted source write)
    some { s' with direct := s.direct ++ [⟨t, task.op, write⟩] }
  | _ => none

/-- A durable op's call that fails, throws; the failure of another op's is only logged. -/
def stepSettle (t : Nat) (task : EagerTask) (answered : Bool) : Option EagerState :=
  match task.phase with
  | .persisting _ write =>
    if answered then none
    else if task.durable then some (s.setPhase t task .threw)
    else some (s.accept t task write)
  | .persisted _ write =>
    if task.durable then
      if answered then some ((s.recordWrite t task write).accept t task write)
      else some { s.setPhase t task .threw with
        direct := s.direct.filter fun entry => entry.task ≠ t }
    else some (s.accept t task write)
  | _ => none

/-- A call that comes while a flush is under way is answered with that one. -/
def stepFlush : EagerState :=
  let s' := { s with calls := s.calls ++ [⟨s.pushed, none⟩] }
  match s.run with
  | some _ => s'
  | none => s'.setRun ⟨0, none, false⟩

def stepDrain : Option EagerState :=
  match s.run with
  | some ⟨place, none, false⟩ =>
    match s.queryNames[place]? with
    | none => some (s.setRun ⟨place, none, true⟩)
    | some table =>
      match s.buffers table with
      | [] => some (s.setRun ⟨place + 1, none, false⟩)
      | entries =>
        some ({ s with buffers := Function.update s.buffers table [] }.setRun
          ⟨place, some (entries.map fun entry => ⟨entry, .calling⟩), false⟩)
  | _ => none

/-- A call under way comes to an end. -/
def stepItem (i : Nat) (status : CallStatus) (written : Bool) : Option EagerState :=
  match s.run with
  | some ⟨place, some items, ended⟩ =>
    match items[i]? with
    | some ⟨entry, .calling⟩ =>
      some ((if written then s.write entry else s).setRun
        ⟨place, some (items.set i ⟨entry, status⟩), ended⟩)
    | _ => none
  | _ => none

def stepSettleAll : Option EagerState :=
  match s.run with
  | some ⟨place, some items, ended⟩ =>
    if items.all (·.status ≠ .calling) then
      let failed := (items.filter (·.status = .failed)).map (·.entry)
      match s.queryNames[place]? with
      | some table =>
        some { s with
          buffers := Function.update s.buffers table (failed ++ s.buffers table)
          reported := s.reported ++ failed.map (·.task)
          run := some ⟨place + 1, none, ended⟩ }
      | none => none
    else none
  | _ => none

def answer (call : FlushCall) : FlushCall :=
  match call.missed with
  | some _ => call
  | none =>
    { call with missed := some (call.pushed.filter fun t =>
        !(s.written.any (fun entry => entry.task = t) || s.requeued t)) }

def stepEndFlush : Option EagerState :=
  match s.run with
  | some ⟨_, none, true⟩ => some { s with run := none, calls := s.calls.map s.answer }
  | _ => none

def step (maxBufferSize : String → Nat) : EagerEvent → Option EagerState
  | .startBatch => some { s with batches := s.batches ++ [⟨fun _ => none, fun _ => false, true⟩] }
  | .finishBatch b =>
    if s.idle b then
      some { s with
        batches := s.batches.mapIdx fun i x => if i = b then { x with active := false } else x }
    else none
  | .prefetch b key =>
    if s.unstarted b then
      some { s with
        batches := s.batches.mapIdx fun i x =>
          if i = b then { x with rows := Function.update x.rows key (some (s.view key)) } else x }
    else none
  | .startOp op durable batch => s.stepStart op durable batch
  | .read t answered => s.tasks[t]?.bind fun task => s.stepRead t task answered
  | .cacheRow t => s.tasks[t]?.bind fun task => s.stepCache t task
  | .refuse t => s.tasks[t]?.bind fun task => s.stepRefuse t task
  | .persist t => s.tasks[t]?.bind fun task => s.stepPersist maxBufferSize t task
  | .apply t => s.tasks[t]?.bind fun task => s.stepApply t task
  | .settleOp t answered => s.tasks[t]?.bind fun task => s.stepSettle t task answered
  | .flush => some s.stepFlush
  | .drain => s.stepDrain
  | .applyItem i answered => s.stepItem i (if answered then .succeeded else .failed) true
  | .failItem i => s.stepItem i .failed false
  | .settle => s.stepSettleAll
  | .endFlush => s.stepEndFlush

end EagerState

def eagerMachine (maxBufferSize : String → Nat) : Lib.Machine EagerState EagerEvent :=
  ⟨.start, fun s e => s.step maxBufferSize e⟩

/-! ## What is expected -/

/-- The deltas of a table's accepted ops, in the order in which a subscriber gets them. -/
def EagerState.deltas (s : EagerState) (table : String) : List Delta :=
  (s.accepted.filter fun entry => entry.op.key.1 = table).map fun entry => entry.write.delta

/-- What a client holds of a row. -/
def Delivered (pk rowId : String) : Option Row → Option Row → Prop
  | none, none => True
  | some data, some row => ∀ c, data.lookup c = (withPk pk rowId row).lookup c
  | _, _ => False

structure EagerSound (s : EagerState) : Prop where
  /-- With nothing of the row under way, the stored row is what its accepted ops make. -/
  flushed : ∀ key, s.settled key = true →
    (s.rows key).map (·.row) = foldOps (EagerState.ofKey s.accepted key)
  /-- So is the row at a subscriber. -/
  delivered : ∀ pk table rowId,
    Delivered pk rowId (heldRow (applyDeltas pk ∅ (s.deltas table)) (.str rowId))
      (foldOps (EagerState.ofKey s.accepted (table, rowId)))
  /-- An op is computed from the row with the earlier accepted ones. -/
  computed : ∀ before entry after, s.accepted = before ++ entry :: after →
    entry.write.mergedRow = rowAfter entry.op (foldOps (EagerState.ofKey before entry.op.key))
  /-- The stored op of a row is the newest of the persisted ones. -/
  newest : ∀ key last, (EagerState.ofKey s.written key).getLast? = some last →
    ∀ w ∈ EagerState.ofKey s.written key,
      ¬ Lib.Before ((EagerState.ofKey s.accepted key).map (·.task)) last.task w.task
  /-- A flush that is answered has missed nothing. -/
  answered : ∀ call ∈ s.calls, call.missed.getD [] = []

/-! ## The condition -/

/-- An insert and an update have columns to write, a delete has none; an update without any meets a
row, or one that never was. -/
def OpFits (op : EagerRowOp) (before : List EagerEntry) : Prop :=
  (op.op = .delete ↔ op.payload = none) ∧ "__proto__" ∉ op.payload.getD ∅ ∧
    (op.op = .update → (op.payload.getD ∅).entries ≠ [] ∨ before.isEmpty ∨
      (foldOps before).isSome)

/-- The row that was read is still the one that the accepted ops make. -/
def ReadCurrent (before : List EagerEntry) : ReadFrom → Prop
  | .nothing => (foldOps before).isNone
  | .stored accepted settled => settled = true ∧ accepted = before.length
  | .recorded t => before.getLast?.map (·.task) = some t

/-- Of a row, ops are accepted in the order of their stamps, none while another one has persisted
itself and is not accepted, and an update on the row that it has read. -/
structure AcceptsInOrder (s : EagerState) (t : Nat) (op : EagerRowOp) (source : ReadFrom) :
    Prop where
  newer : ∀ a ∈ EagerState.ofKey s.accepted op.key, a.op.hlc < op.hlc
  alone : ∀ d ∈ EagerState.ofKey s.direct op.key, d.task = t
  fits : OpFits op (EagerState.ofKey s.accepted op.key)
  current : op.op = .update → ReadCurrent (EagerState.ofKey s.accepted op.key) source

/-- The run has gone past the buffer. -/
def FlushRun.past (run : FlushRun) (place : Nat) : Prop :=
  place < run.place ∨ (place = run.place ∧ run.items.isSome) ∨ run.ended = true

/-- Ops of a row are accepted in order; one persists itself with nothing else of the row under way,
and without failing; a call of a flush takes effect after the earlier ones of its row have
succeeded; and a call of `flush` joins a flush only if what that one has gone past is there after a
reported failure. -/
def EagerInOrder (maxBufferSize : String → Nat) (s : EagerState) : EagerEvent → Prop
  | .persist t =>
    match s.tasks[t]? with
    | some task =>
      match task.phase with
      | .ready source _ =>
        task.durable = true ∨
          maxBufferSize task.op.key.1 ≤ (s.buffers task.op.key.1).length ∨
          AcceptsInOrder s t task.op source
      | _ => True
    | none => True
  | .apply t =>
    match s.tasks[t]? with
    | some task => s.settled task.op.key = true
    | none => True
  | .settleOp t answered =>
    match s.tasks[t]? with
    | some task =>
      match task.phase with
      | .persisting _ _ => task.durable = true
      | .persisted source _ =>
        (task.durable = true → answered = true) ∧ AcceptsInOrder s t task.op source
      | _ => True
    | none => True
  | .flush =>
    match s.run with
    | some run => ∀ x ∈ s.queryNames.zipIdx, run.past x.2 →
      ∀ entry ∈ s.buffers x.1, entry.task ∈ s.reported
    | none => True
  | .applyItem i _ =>
    match s.run.bind (·.items) with
    | some items => ∀ item ∈ items[i]?, ∀ earlier ∈ items.take i,
      earlier.entry.op.key = item.entry.op.key → earlier.status = .succeeded
    | none => True
  | _ => True

instance (op : EagerRowOp) (before : List EagerEntry) : Decidable (OpFits op before) :=
  inferInstanceAs (Decidable ((_ ↔ _) ∧ _ ∧ (_ → _)))

instance (before : List EagerEntry) (source : ReadFrom) :
    Decidable (ReadCurrent before source) := by
  unfold ReadCurrent
  split <;> infer_instance

instance (s : EagerState) (t : Nat) (op : EagerRowOp) (source : ReadFrom) :
    Decidable (AcceptsInOrder s t op source) :=
  decidable_of_iff ((∀ a ∈ EagerState.ofKey s.accepted op.key, a.op.hlc < op.hlc) ∧
      (∀ d ∈ EagerState.ofKey s.direct op.key, d.task = t) ∧
      OpFits op (EagerState.ofKey s.accepted op.key) ∧
      (op.op = .update → ReadCurrent (EagerState.ofKey s.accepted op.key) source))
    ⟨fun ⟨h₁, h₂, h₃, h₄⟩ => ⟨h₁, h₂, h₃, h₄⟩, fun h => ⟨h.newer, h.alone, h.fits, h.current⟩⟩

instance (run : FlushRun) (place : Nat) : Decidable (run.past place) :=
  inferInstanceAs (Decidable (_ ∨ _))

instance (maxBufferSize : String → Nat) (s : EagerState) (e : EagerEvent) :
    Decidable (EagerInOrder maxBufferSize s e) := by
  unfold EagerInOrder
  split
  · split
    · split <;> infer_instance
    · infer_instance
  · split <;> infer_instance
  · split
    · split <;> infer_instance
    · infer_instance
  · split <;> infer_instance
  · split <;> infer_instance
  · infer_instance

end Server
end Reflectdb
