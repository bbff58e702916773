import Reflectdb.Lib.Simulation
import Reflectdb.Server.Conflict
import Reflectdb.Server.OpProcessor

/-!
# Prefetch — messages with a batch context, and ops processed one by one

A message of ops on the consistent path.  With a batch context it reserves the ids of its ops and
reads their rows ahead, and its ops go by that; without one, each op reserves its id when it is
taken, and reads its row from the storage.  The ops of one row take turns, whatever message they are
of.
-/

namespace Reflectdb
namespace Server
namespace Prefetch

open Core Client Lib

/-! ## Model -/

/-- An op, as the resolver gets it. -/
structure MessageOp where
  id : String
  incoming : ConflictInput

/-- The table and the id of a row. -/
abbrev TableRow : Type :=
  String × String

def MessageOp.rowKey (op : MessageOp) : TableRow :=
  (op.incoming.tableName, op.incoming.rowId)

/-- What the consistent path reads of a query's options. -/
structure QueryConfig where
  mutate : Bool
  conflict : ConflictPolicy

structure Config where
  ops : TextOps
  queries : String → Option QueryConfig
  /-- The adapter has `reserveOps`. -/
  reserveOps : Bool
  /-- The adapter has `applyOpIf`. -/
  applyOpIf : Bool

def Config.reservable (cfg : Config) (op : MessageOp) : Bool :=
  (cfg.queries op.incoming.tableName).any (·.mutate)

def Config.policy (cfg : Config) (op : MessageOp) : ConflictPolicy :=
  ((cfg.queries op.incoming.tableName).map (·.conflict)).getD .lww

/-- `typeof options.conflict === "object"`, on an adapter with `applyOpIf`. -/
def Config.conditional (cfg : Config) (op : MessageOp) : Bool :=
  cfg.applyOpIf && match cfg.policy op with
    | .custom _ => true
    | .text _ => true
    | _ => false

structure BatchContext where
  freshOpIds : List String
  rows : TableRow → Option ExistingRow
  stale : TableRow → Bool
  /-- What the prefetch has read and not yet put into `rows`. -/
  reads : TableRow → Option ExistingRow

inductive OpAnswer
  | accepted
  | rejected (reason : Option String)

/-- Where a message stands: its ops are processed one after the other. -/
inductive MessagePhase
  /-- With the ids still to reserve. -/
  | reserving (ids : List String)
  | reading
  | looping
  /-- The op waits for its turn on the row, or is about to be tried once more. -/
  | queued (op : MessageOp) (attempt : Nat)
  /-- `getRow` has read the storage. -/
  | fetched (op : MessageOp) (attempt : Nat) (existing : ExistingRow)
  /-- Accepted by the resolver; `authorize` and `mutate` are awaited.  A conditional write goes by
  the HLC that is `expected`. -/
  | resolved (op : MessageOp) (attempt : Nat) (result : ConflictResult)
      (expected : Option (Option Hlc))
  /-- The write has reached the storage. -/
  | written (op : MessageOp) (result : ConflictResult)
  | done

structure Message where
  /-- The ops that the loop has not reached. -/
  ops : List MessageOp
  batch : Option BatchContext
  phase : MessagePhase

structure State where
  reserved : List String
  stored : TableRow → Option StoredRow
  /-- The messages whose op waits for the row or is at it, the latter first. -/
  rowQueues : TableRow → List Nat
  messages : Nat → Option Message
  /-- The answers in the order in which they were decided. -/
  answers : List (Nat × String × OpAnswer)

inductive Event
  | receive (m : Nat) (ops : List MessageOp)
  | reserve (m : Nat)
  | read (m : Nat) (key : TableRow)
  | setRead (m : Nat) (key : TableRow)
  | startLoop (m : Nat)
  /-- The loop takes the next op. -/
  | next (m : Nat)
  /-- The op goes by the row of the batch context.  Here and in `resolve`: what the pipeline's
  checks make of the op, a reason to reject it or the payload after `readonly` and `serverSet`. -/
  | readCached (m : Nat) (checks : Except String (Option Row))
  | fetch (m : Nat)
  | resolve (m : Nat) (checks : Except String (Option Row))
  /-- `authorize` or `mutate` throws. -/
  | refuse (m : Nat) (reason : String)
  | write (m : Nat)
  | written (m : Nat)
  | finish (m : Nat)

namespace Message

def fresh (msg : Message) : List String :=
  (msg.batch.map (·.freshOpIds)).getD []

/-- The row of the batch context, unless it is stale. -/
def cached (msg : Message) (key : TableRow) : Option ExistingRow :=
  msg.batch.bind fun batch => if batch.stale key then none else batch.rows key

/-- It is among the `activeBatches`. -/
def active (msg : Message) : Bool :=
  match msg.phase with
  | .done => false
  | _ => true

def cacheRow (msg : Message) (key : TableRow) (existing : ExistingRow) : Message :=
  { msg with
    batch := msg.batch.map fun batch =>
      { batch with
        rows := Function.update batch.rows key (some existing)
        stale := Function.update batch.stale key false } }

def markStale (msg : Message) (key : TableRow) : Message :=
  { msg with
    batch := msg.batch.map fun batch =>
      { batch with stale := Function.update batch.stale key true } }

end Message

namespace State

def start : State where
  reserved := []
  stored := fun _ => none
  rowQueues := fun _ => []
  messages := fun _ => none
  answers := []

def setMessage (s : State) (m : Nat) (msg : Message) : State :=
  { s with messages := Function.update s.messages m (some msg) }

/-- The op of a message is done, and the next one on its row may go on. -/
def finishOp (s : State) (m : Nat) (msg : Message) (op : MessageOp) (answer : OpAnswer) : State :=
  { s with
    messages := Function.update s.messages m (some { msg with phase := .looping })
    rowQueues := Function.update s.rowQueues op.rowKey (s.rowQueues op.rowKey).tail
    answers := s.answers ++ [(m, op.id, answer)] }

/-- An op that is answered before it comes to its row. -/
def answerOp (s : State) (m : Nat) (msg : Message) (op : MessageOp) (answer : OpAnswer) : State :=
  { s.setMessage m msg with answers := s.answers ++ [(m, op.id, answer)] }

def recordBatchWrite (s : State) (m : Nat) (key : TableRow) (existing : ExistingRow) : State :=
  { s with
    messages := fun i => (s.messages i).map fun msg =>
      if i = m then msg.cacheRow key existing
      else if msg.active then msg.markStale key else msg }

end State

section Steps

variable (cfg : Config)

def Message.ofOps (batches : Bool) (ops : List MessageOp) : Message :=
  if batches then
    { ops
      batch := some ⟨[], fun _ => none, fun _ => false, fun _ => none⟩
      phase := .reserving ((ops.filter cfg.reservable).map (·.id)) }
  else ⟨ops, none, .looping⟩

def stepReceive (batches : Bool) (s : State) (m : Nat) (ops : List MessageOp) : Option State :=
  match s.messages m with
  | none => some (s.setMessage m (Message.ofOps cfg batches ops))
  | some _ => none

/-- One call for all ids on an adapter with `reserveOps`, else one call an id. -/
def reserveCall (ids : List String) : List String × List String :=
  if cfg.reserveOps then (ids, []) else (ids.take 1, ids.drop 1)

def reservePhase : List String → MessagePhase
  | [] => .reading
  | ids => .reserving ids

def stepReserve (s : State) (m : Nat) : Option State :=
  match s.messages m with
  | some ⟨ops, some batch, .reserving ids⟩ =>
    let fresh := (reserveCall cfg ids).1.filter fun id => !s.reserved.contains id
    some ({ s with reserved := s.reserved ++ fresh }.setMessage m
      ⟨ops, some { batch with freshOpIds := batch.freshOpIds ++ fresh },
        reservePhase (reserveCall cfg ids).2⟩)
  | _ => none

/-- `getRowsByIds` reads the rows of the fresh ops. -/
def stepPrefetch (s : State) (m : Nat) (key : TableRow) : Option State :=
  match s.messages m with
  | some ⟨ops, some batch, .reading⟩ =>
    if ops.any fun op => batch.freshOpIds.contains op.id && op.rowKey == key then
      some (s.setMessage m ⟨ops, some { batch with
        reads := Function.update batch.reads key (some (getRow (s.stored key))) }, .reading⟩)
    else none
  | _ => none

def stepSetRead (s : State) (m : Nat) (key : TableRow) : Option State :=
  match s.messages m with
  | some ⟨ops, some batch, .reading⟩ =>
    (batch.reads key).map fun existing =>
      s.setMessage m ⟨ops, some { batch with
        rows := Function.update batch.rows key (some existing) }, .reading⟩
  | _ => none

def stepStartLoop (s : State) (m : Nat) : Option State :=
  match s.messages m with
  | some ⟨ops, some batch, .reading⟩ => some (s.setMessage m ⟨ops, some batch, .looping⟩)
  | _ => none

/-- The op is fresh: it joins the ops of its row. -/
def State.enqueue (s : State) (m : Nat) (msg : Message) (op : MessageOp) : State :=
  { s.setMessage m { msg with phase := .queued op 0 } with
    rowQueues := Function.update s.rowQueues op.rowKey (s.rowQueues op.rowKey ++ [m]) }

/-- `processClientOp`. -/
def processClientOp (s : State) (m : Nat) (msg : Message) (op : MessageOp) : State :=
  match cfg.queries op.incoming.tableName with
  | none => s.answerOp m msg op (.rejected (some "outside_shape"))
  | some query =>
    if query.mutate then
      match msg.batch with
      | some batch =>
        if batch.freshOpIds.contains op.id then
          -- `freshOpIds.delete` consumes the reservation.
          s.enqueue m { msg with batch := some { batch with
            freshOpIds := batch.freshOpIds.filter (· ≠ op.id) } } op
        else s.answerOp m msg op .accepted
      | none =>
        if s.reserved.contains op.id then s.answerOp m msg op .accepted
        else { s with reserved := s.reserved ++ [op.id] }.enqueue m msg op
    else s.answerOp m msg op (.rejected (some "readonly_query"))

def stepNext (s : State) (m : Nat) : Option State :=
  match s.messages m with
  | some ⟨op :: ops, batch, .looping⟩ => some (processClientOp cfg s m ⟨ops, batch, .looping⟩ op)
  | _ => none

/-- The pipeline, and what becomes of the op by the row that it goes by. -/
def attemptConsistentOp (s : State) (m : Nat) (msg : Message) (op : MessageOp) (attempt : Nat)
    (existing : ExistingRow) : Except String (Option Row) → State
  | .error reason => s.finishOp m msg op (.rejected (some reason))
  | .ok payload =>
    let result := resolveConflict cfg.ops (cfg.policy op) { op.incoming with payload } existing
    if result.accepted then
      s.setMessage m { msg with
        phase := .resolved op attempt result
          (if cfg.conditional op then some existing.rowHlc else none) }
    else s.finishOp m msg op (.rejected result.reason)

def stepReadCached (s : State) (m : Nat) (checks : Except String (Option Row)) : Option State :=
  match s.messages m with
  | some ⟨ops, batch, .queued op 0⟩ =>
    if (s.rowQueues op.rowKey).head? = some m then
      (Message.cached ⟨ops, batch, .queued op 0⟩ op.rowKey).map fun existing =>
        attemptConsistentOp cfg s m ⟨ops, batch, .queued op 0⟩ op 0 existing checks
    else none
  | _ => none

def stepFetch (s : State) (m : Nat) : Option State :=
  match s.messages m with
  | some ⟨ops, batch, .queued op attempt⟩ =>
    if (s.rowQueues op.rowKey).head? = some m ∧
        (attempt = 0 → (Message.cached ⟨ops, batch, .queued op attempt⟩ op.rowKey).isNone) then
      some (s.setMessage m ⟨ops, batch, .fetched op attempt (getRow (s.stored op.rowKey))⟩)
    else none
  | _ => none

def stepResolve (s : State) (m : Nat) (checks : Except String (Option Row)) : Option State :=
  match s.messages m with
  | some ⟨ops, batch, .fetched op attempt existing⟩ =>
    let msg : Message := ⟨ops, batch, .fetched op attempt existing⟩
    let msg := if attempt = 0 then msg.cacheRow op.rowKey existing else msg
    some (attemptConsistentOp cfg s m msg op attempt existing checks)
  | _ => none

def stepRefuse (s : State) (m : Nat) (reason : String) : Option State :=
  match s.messages m with
  | some ⟨ops, batch, .resolved op attempt result expected⟩ =>
    some (s.finishOp m ⟨ops, batch, .resolved op attempt result expected⟩ op
      (.rejected (some reason)))
  | _ => none

/-- `applyOpIf`, where the stored HLC has to be the expected one, or `applyOp`. -/
def stepWrite (s : State) (m : Nat) : Option State :=
  match s.messages m with
  | some ⟨ops, batch, .resolved op attempt result expected⟩ =>
    let msg : Message := ⟨ops, batch, .resolved op attempt result expected⟩
    if expected.any fun hlc => decide (hlc ≠ (s.stored op.rowKey).map (·.hlc)) then
      if attempt + 1 < MAX_WRITE_ATTEMPTS then
        some (s.setMessage m ⟨ops, batch, .queued op (attempt + 1)⟩)
      else some (s.finishOp m msg op (.rejected (some "server_error")))
    else
      some ({ s with
        stored := Function.update s.stored op.rowKey (result.stored op.incoming.hlc) }.setMessage m
          ⟨ops, batch, .written op result⟩)
  | _ => none

def stepWritten (s : State) (m : Nat) : Option State :=
  match s.messages m with
  | some ⟨ops, batch, .written op result⟩ =>
    let recorded := Message.cacheRow ⟨ops, batch, .written op result⟩ op.rowKey
      (result.cached op.incoming.hlc)
    some ((s.recordBatchWrite m op.rowKey (result.cached op.incoming.hlc)).finishOp m recorded op
      .accepted)
  | _ => none

def stepFinish (s : State) (m : Nat) : Option State :=
  match s.messages m with
  | some ⟨[], batch, .looping⟩ => some (s.setMessage m ⟨[], batch, .done⟩)
  | _ => none

def step (batches : Bool) (s : State) : Event → Option State
  | .receive m ops => stepReceive cfg batches s m ops
  | .reserve m => stepReserve cfg s m
  | .read m key => stepPrefetch s m key
  | .setRead m key => stepSetRead s m key
  | .startLoop m => stepStartLoop s m
  | .next m => stepNext cfg s m
  | .readCached m checks => stepReadCached cfg s m checks
  | .fetch m => stepFetch s m
  | .resolve m checks => stepResolve cfg s m checks
  | .refuse m reason => stepRefuse s m reason
  | .write m => stepWrite s m
  | .written m => stepWritten s m
  | .finish m => stepFinish s m

/-- A server whose messages all have a batch context, or none of them. -/
def machine (batches : Bool) : Machine State Event where
  init := .start
  step := step cfg batches

end Steps

/-! ## The same events without batch contexts -/

/-- What the event is where each op reserves its id and reads its row for itself. -/
def Event.direct : Event → List Event
  | .reserve _ => []
  | .read _ _ => []
  | .setRead _ _ => []
  | .startLoop _ => []
  | .readCached m checks => [.fetch m, .resolve m checks]
  | e => [e]

/-- Another message has reserved the id and not come to its op. -/
def State.HeldElsewhere (s : State) (m : Nat) (id : String) : Prop :=
  ∃ i other, i ≠ m ∧ s.messages i = some other ∧ id ∈ other.fresh

/-- A text op that is accepted over the clocks of an absent row as they are: one that has nothing
but a text edit, or nothing at all. -/
def KeepsClocks (policy : ConflictPolicy) (incoming : ConflictInput) : Prop :=
  match policy with
  | .text text => incoming.op ≠ .delete ∧ (plainPayload incoming).entries = [] ∧
      ∀ raw, (incoming.payload.getD ∅).lookup TEXT_EDIT_KEY = some raw →
        (readTextEdit text raw).isSome
  | _ => False

/-- No op is taken whose id another message holds; and the image of a row that an op of the message
has deleted is met by no op whose write is conditional, nor by one that keeps its clocks. -/
def Transparent (cfg : Config) (s : State) : Event → Prop
  | .next m => ∀ msg, s.messages m = some msg → ∀ op ∈ msg.ops.head?, cfg.reservable op = true →
      ¬ s.HeldElsewhere m op.id
  | .readCached m (.ok payload) => ∀ msg, s.messages m = some msg →
      ∀ op, msg.phase = .queued op 0 → ∀ existing, msg.cached op.rowKey = some existing →
        existing.row = none → existing.rowHlc.isSome →
          cfg.conditional op = false ∧
            ¬ KeepsClocks (cfg.policy op) { op.incoming with payload := payload }
  | _ => True

end Prefetch
end Server
end Reflectdb
