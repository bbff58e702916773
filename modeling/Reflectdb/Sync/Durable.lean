import Reflectdb.Sync.ClientStorage

/-!
# Durable — a client store with its storage, over restarts

The methods of `ClientStore` change the store at once and enqueue writes; the writes run one by one
while other methods are called.  `clear` waits for the writes that are enqueued, and what is
enqueued meanwhile runs after the wipe.  After a flush a new store may take the place of the old
one, and has what the storage has.
-/

namespace Reflectdb
namespace Sync

open Core Client Server

/-! ## Runs -/

structure DurableStore (a : Adapter) where
  store : ClientStore
  tableMeta : Record TableMeta
  objects : OpObjects
  /-- The writes of `writeChain` that have not run. -/
  chain : List StorageWrite
  storage : Storage a
  /-- A call of `clear` waits for as many writes of the chain. -/
  clearing : Option Nat
  /-- The chains that a `clear` gave up. -/
  detached : List (List StorageWrite)
  /-- No step reads this but to see that ids are new. -/
  created : List ClientOp

inductive StoreEvent
  /-- `insert`, `update`, `delete` or `batch` of the client: for each op `addPendingOp`, with the
  time it is called at, and `applyOptimistic`. -/
  | create (ops : List (ClientOp × Nat))
  | setRow (table rowId : String) (row : LocalRow)
  | applyOptimistic (op : ClientOp)
  | applyDelta (table : String) (d : Delta)
  | applySnapshot (table : String) (msg : Snapshot)
  | markSynced (opIds : List String)
  | markRejected (opId : String) (reason : ErrorReason) (now : Nat)
  | rejectBatch (batchId : String) (reason : ErrorReason) (now : Nat)
  | revertOp (opId : String) (serverRow : Option Row)
  | clearRejected
  | clearTable (table : String)
  | setTableMeta (tables : List (String × TableMetaMessage))
  | clear
  /-- A write of the chain runs. -/
  | write
  | writeDetached (chain : Nat)
  /-- `clear` has waited: the store and the storage are wiped. -/
  | wipe
  /-- A new store takes what the storage has. -/
  | restart

/-- The op objects once these are their latest states. -/
def OpObjects.set (objects : OpObjects) (ps : List PendingOp) : OpObjects :=
  fun id => (ps.find? (·.op.id = id)).or (objects id)

namespace DurableStore

variable {a : Adapter}

def empty (a : Adapter) : DurableStore a :=
  ⟨.empty, ∅, fun _ => none, [], .empty a, none, [], []⟩

def config (s : DurableStore a) : WriterConfig :=
  metaConfig s.tableMeta

/-- A method has changed the store and enqueued the writes. -/
def change (s : DurableStore a) (store : ClientStore) (writes : List StorageWrite) :
    DurableStore a :=
  { s with
    store := store
    objects := s.objects.set store.pendingOps
    chain := s.chain ++ writes }

def changeRows (s : DurableStore a) (store : ClientStore) (table : String)
    (writes : List RowWrite) : DurableStore a :=
  s.change store (writes.map (.row table))

/-! ### Methods -/

def applyOptimistic (s : DurableStore a) (op : ClientOp) : DurableStore a :=
  s.changeRows (s.store.applyOptimistic s.config op) op.table
    (optimisticWrites s.config (s.store.rows op.table) op)

def createOp (s : DurableStore a) (op : ClientOp) (now : Nat) : DurableStore a :=
  (s.change (s.store.addPendingOp op now) [.appendPendingOps [op.id]]).applyOptimistic op

def setRow (s : DurableStore a) (table rowId : String) (row : LocalRow) : DurableStore a :=
  let rows := Function.update s.store.rows table (Sync.setRow (s.store.rows table) rowId row)
  s.changeRows { s.store with rows := rows } table [setRowWrite rowId row]

def applyDelta (s : DurableStore a) (table : String) (d : Delta) : DurableStore a :=
  s.changeRows (s.store.applyDelta s.config table d) table
    (deltaWrites (s.config.pk table) (s.store.rows table) d)

def applySnapshot (s : DurableStore a) (table : String) (msg : Snapshot) : DurableStore a :=
  s.changeRows (s.store.applySnapshot s.config table msg) table
    (snapshotWrites s.config s.store table msg)

def clearTable (s : DurableStore a) (table : String) : DurableStore a :=
  s.changeRows { s.store with rows := Function.update s.store.rows table ∅ } table [.clearTable]

def markSynced (s : DurableStore a) (opIds : List String) : DurableStore a :=
  s.change (s.store.markSynced opIds) [.removePendingOps opIds]

def autoTrimRejected (s : DurableStore a) (now : Nat) : DurableStore a :=
  let store := s.store.autoTrimRejected now
  s.change store
    (if store.pendingOps.length < s.store.pendingOps.length then [.putPendingOps] else [])

/-- The ops get their new status, and the objects that changed are written. -/
def updateOps (s : DurableStore a) (ps : List PendingOp) (updated : List String) : DurableStore a :=
  s.change { s.store with pendingOps := ps }
    (if updated = [] then [] else [.updatePendingOps updated])

def markRejected (s : DurableStore a) (opId : String) (reason : ErrorReason) (now : Nat) :
    DurableStore a :=
  (s.updateOps (ClientStore.rejectFirst opId reason s.store.pendingOps)
    ((s.store.pendingOps.find? (·.op.id = opId)).map (·.op.id)).toList).autoTrimRejected now

def rejectBatch (s : DurableStore a) (batchId : String) (reason : ErrorReason) (now : Nat) :
    DurableStore a :=
  (s.updateOps
    (s.store.pendingOps.map fun p => if p.op.batchId = some batchId then p.reject reason else p)
    ((s.store.pendingOps.filter fun p => p.op.batchId = some batchId).map (·.op.id))
  ).autoTrimRejected now

def revertOp (s : DurableStore a) (opId : String) (serverRow : Option Row) : DurableStore a :=
  s.change (s.store.revertOp s.config opId serverRow)
    (revertWrites s.config s.store opId serverRow)

def clearRejected (s : DurableStore a) : DurableStore a :=
  s.change { s.store with pendingOps := s.store.pendingOps.filter (·.status ≠ .rejected) }
    [.putPendingOps]

def setTableMeta (s : DurableStore a) (tables : List (String × TableMetaMessage)) :
    DurableStore a :=
  { s with
    tableMeta := Lib.replay s.tableMeta (tables.map fun m => (m.1, m.2.read))
    chain := s.chain ++ [.setMeta] }

/-! ### Storage -/

def runWrite (s : DurableStore a) (w : StorageWrite) : Storage a :=
  s.storage.write s.objects s.store.pendingOps s.tableMeta w

/-- `flush` has resolved, and no `clear` is under way. -/
def Flushed (s : DurableStore a) : Prop :=
  s.chain = [] ∧ s.clearing = none

instance (s : DurableStore a) : Decidable s.Flushed :=
  decidable_of_iff (s.chain.isEmpty ∧ s.clearing = none) (and_congr_left' List.isEmpty_iff)

/-- What `hydrate` gets. -/
def storedOps (s : DurableStore a) : List PendingOp :=
  a.getPendingOps s.objects s.storage.pendingOps

/-- A new store on the storage.  Rows and metadata are looked up by their keys, in whatever order
the storage returned them. -/
def hydrated (s : DurableStore a) : DurableStore a where
  store := ⟨s.storedOps, s.storage.rows⟩
  tableMeta := s.storage.tableMeta.getD ∅
  objects := OpObjects.set (fun _ => none) s.storedOps
  chain := []
  storage := s.storage
  clearing := none
  detached := []
  created := s.created

/-- Op ids are random UUIDs, and batches are formed when they are created. -/
def CreatesNew (s : DurableStore a) (ops : List ClientOp) : Prop :=
  ((s.created ++ ops).map (·.id)).Nodup ∧ FormsBatch s.created ops

instance (s : DurableStore a) (ops : List ClientOp) : Decidable (s.CreatesNew ops) :=
  inferInstanceAs (Decidable (_ ∧ _))

def step (s : DurableStore a) : StoreEvent → Option (DurableStore a)
  | .create ops =>
    if s.CreatesNew (ops.map (·.1)) then
      some
        { ops.foldl (fun s op => s.createOp op.1 op.2) s with
          created := s.created ++ ops.map (·.1) }
    else none
  | .setRow table rowId row => some (s.setRow table rowId row)
  | .applyOptimistic op => some (s.applyOptimistic op)
  | .applyDelta table d => some (s.applyDelta table d)
  | .applySnapshot table msg => some (s.applySnapshot table msg)
  | .markSynced opIds => some (s.markSynced opIds)
  | .markRejected opId reason now => some (s.markRejected opId reason now)
  | .rejectBatch batchId reason now => some (s.rejectBatch batchId reason now)
  | .revertOp opId serverRow => some (s.revertOp opId serverRow)
  | .clearRejected => some s.clearRejected
  | .clearTable table => some (s.clearTable table)
  | .setTableMeta tables => some (s.setTableMeta tables)
  | .clear =>
    if s.clearing = none then some { s with clearing := some s.chain.length } else none
  | .write =>
    match s.chain with
    | [] => none
    | w :: chain =>
      -- A `clear` that has waited goes first.
      if s.clearing = some 0 then none
      else
        some
          { s with
            chain := chain
            storage := s.runWrite w
            clearing := s.clearing.map (· - 1) }
  | .writeDetached i =>
    match s.detached[i]? with
    | some (w :: chain) =>
      some { s with detached := s.detached.set i chain, storage := s.runWrite w }
    | _ => none
  | .wipe =>
    if s.clearing = some 0 then
      some
        { s with
          store := .empty
          tableMeta := ∅
          chain := []
          storage := .empty a
          clearing := none
          detached := s.detached ++ [s.chain] }
    else none
  | .restart => if s.Flushed then some s.hydrated else none

end DurableStore

def durableMachine (a : Adapter) : Lib.Machine (DurableStore a) StoreEvent :=
  ⟨.empty a, DurableStore.step⟩

/-! ## The property -/

namespace DurableStore

variable {a : Adapter}

/-- What a push sends when no op is on the wire. -/
def messages (s : DurableStore a) : List (List ClientOp) :=
  PushState.pushChunks (s.store.getPendingOps.map (·.op))

/-- A new store on the storage is as the store is. -/
structure Survives (s : DurableStore a) : Prop where
  rows : ∀ table key,
    (s.hydrated.store.rows table).lookup key = (s.store.rows table).lookup key
  tableMeta : ∀ table, s.hydrated.tableMeta.lookup table = s.tableMeta.lookup table
  pendingOps : s.hydrated.store.pendingOps = s.store.pendingOps
  once : (s.hydrated.store.pendingOps.map (·.op.id)).Nodup
  messages : s.hydrated.messages = s.messages
  whole : ∀ chunk ∈ s.hydrated.messages,
    Lib.KeepsWhole ClientOp.batch (s.store.getPendingOps.map (·.op)) chunk

/-! ## The condition -/

/-- IndexedDB: the ops of the store are in the order of their ids. -/
def InKeyOrder (s : DurableStore a) : Prop :=
  a = .indexedDB → (s.store.pendingOps.map (·.op.id)).Pairwise (· ≤ ·)

instance (s : DurableStore a) : Decidable s.InKeyOrder :=
  inferInstanceAs (Decidable (_ → _))

end DurableStore

/-- The ids of the ops that the writes append. -/
def appendedIds (writes : List StorageWrite) : List String :=
  writes.flatMap fun
    | .appendPendingOps ids => ids
    | _ => []

namespace DurableStore

variable {a : Adapter}

/-- In memory: `putPendingOps` does not write an op of which the append is still to run. -/
def PutsOnce (s : DurableStore a) : Prop :=
  match s.chain with
  | .putPendingOps :: chain =>
    a = .memory → ∀ p ∈ s.store.pendingOps, p.op.id ∉ appendedIds chain
  | _ => True

instance (s : DurableStore a) : Decidable s.PutsOnce :=
  match h : s.chain with
  | .putPendingOps :: chain =>
    decidable_of_iff (a = .memory → ∀ p ∈ s.store.pendingOps, p.op.id ∉ appendedIds chain)
      (by rw [PutsOnce, h])
  | [] | .row .. :: _ | .appendPendingOps _ :: _ | .updatePendingOps _ :: _
  | .removePendingOps _ :: _ | .setMeta :: _ => isTrue (by rw [PutsOnce, h]; trivial)

end DurableStore

def StorageGuard {a : Adapter} (s : DurableStore a) : StoreEvent → Prop
  | .write => s.PutsOnce
  -- Nothing was enqueued while `clear` waited.
  | .wipe => s.chain = []
  | .restart => s.InKeyOrder
  | _ => True

instance {a : Adapter} (s : DurableStore a) : DecidablePred (StorageGuard s)
  | .write => inferInstanceAs (Decidable s.PutsOnce)
  | .wipe => decidable_of_iff (s.chain.isEmpty = true) List.isEmpty_iff
  | .restart => inferInstanceAs (Decidable s.InKeyOrder)
  | .create .. | .setRow .. | .applyOptimistic .. | .applyDelta .. | .applySnapshot ..
  | .markSynced .. | .markRejected .. | .rejectBatch .. | .revertOp .. | .clearRejected
  | .clearTable .. | .setTableMeta .. | .clear | .writeDetached .. => isTrue trivial

end Sync
end Reflectdb
