import Reflectdb.Lib.Machine
import Reflectdb.Server.OpProcessor
import Reflectdb.Server.RowClocks

/-!
# Compare and set — writes of one row from several instances

Any number of instances over one storage.  An op of the row is read, resolved and written in
separate steps; its write takes effect only if the stored HLC is still the one that was read, and
else the op is tried again on a fresh read.  The ops of an instance take turns on the row, and a
message's batch may have read it ahead.
-/

namespace Reflectdb
namespace Server

open Core Client

/-! ## Model -/

/-- Where an op stands; an attempt is counted from zero. -/
inductive OpPhase
  /-- In the row's queue. -/
  | queued
  | reading (attempt : Nat)
  /-- `getRow` has read the storage. -/
  | fetched (attempt : Nat) (existing : ExistingRow)
  /-- Resolved and accepted against what was read; `authorize` and `mutate` are awaited. -/
  | resolved (attempt : Nat) (existing : ExistingRow)
  | accepted
  | rejected
  /-- A call threw. -/
  | failed

def OpPhase.active : OpPhase → Bool
  | .reading _ => true
  | .fetched _ _ => true
  | .resolved _ _ => true
  | _ => false

/-- The op has not come to its end. -/
def OpPhase.pending : OpPhase → Bool
  | .queued => true
  | phase => phase.active

structure OpTask where
  instance_ : Nat
  /-- The batch of its message, if it has one. -/
  batch : Option Nat
  incoming : ConflictInput
  phase : OpPhase

/-- The op as an attempt resolves it. -/
def OpTask.enforced (task : OpTask) (payload : Option Row) : OpTask :=
  { task with incoming := { task.incoming with payload := payload } }

/-- What the batch of a message knows of the row. -/
structure RowBatch where
  instance_ : Nat
  /-- The prefetch has read this from the storage. -/
  prefetched : Option ExistingRow
  cached : Option ExistingRow
  stale : Bool
  /-- It is among the `activeBatches`. -/
  active : Bool

/-- A successful write: by which op, and the stored row before and after it. -/
structure RowWrite where
  task : Nat
  incoming : ConflictInput
  result : ConflictResult
  before : Option StoredRow

def RowWrite.after (w : RowWrite) : Option StoredRow :=
  w.result.stored w.incoming.hlc

structure CasState where
  stored : Option StoredRow
  batches : List RowBatch
  tasks : List OpTask
  /-- The successful writes, in order.  No step reads them. -/
  writes : List RowWrite

inductive CasEvent
  | startBatch (instance_ : Nat)
  | prefetch (batch : Nat)
  | setPrefetched (batch : Nat)
  | finishBatch (batch : Nat)
  | startOp (instance_ : Nat) (batch : Option Nat) (incoming : ConflictInput)
  /-- The op's turn on the row. -/
  | dequeue (task : Nat)
  /-- An attempt reads the row; its `serverSet` columns are resolved anew. -/
  | read (task : Nat) (payload : Option Row)
  | resolve (task : Nat)
  /-- A check of the pipeline fails, or `authorize` or `mutate` throws. -/
  | refuse (task : Nat)
  /-- The write reaches the storage; its answer may be lost. -/
  | write (task : Nat) (answered : Bool)
  | throw (task : Nat)

/-- `typeof options.conflict === "object"`. -/
def ConflictPolicy.isObject : ConflictPolicy → Bool
  | .custom _ => true
  | .text _ => true
  | _ => false

namespace CasState

def start : CasState :=
  ⟨none, [], [], []⟩

def setTask (s : CasState) (t : Nat) (task : OpTask) (phase : OpPhase) : CasState :=
  { s with tasks := s.tasks.set t { task with phase := phase } }

/-- What the task's batch has of the row, unless it is stale. -/
def cachedFor (s : CasState) (task : OpTask) : Option ExistingRow :=
  (task.batch.bind fun b => s.batches[b]?).bind fun batch =>
    if batch.stale then none else batch.cached

end CasState

/-- One batch changes. -/
def updateBatch (batches : List RowBatch) (b : Nat) (f : RowBatch → RowBatch) : List RowBatch :=
  batches.mapIdx fun i batch => if i = b then f batch else batch

/-- `batchCtx?.rows.set(key, existing)`, with the mark taken off. -/
def cacheRow (batches : List RowBatch) (task : OpTask) (existing : ExistingRow) :
    List RowBatch :=
  batches.mapIdx fun b batch =>
    if task.batch = some b then { batch with cached := some existing, stale := false } else batch

/-- The other batches of the instance that are under way have a stale row. -/
def markStale (batches : List RowBatch) (task : OpTask) : List RowBatch :=
  batches.mapIdx fun b batch =>
    if batch.active ∧ batch.instance_ = task.instance_ ∧ task.batch ≠ some b then
      { batch with stale := true }
    else batch

def recordBatchWrite (batches : List RowBatch) (task : OpTask) (existing : ExistingRow) :
    List RowBatch :=
  cacheRow (markStale batches task) task existing

section Steps

variable (ops : TextOps) (policy : ConflictPolicy)

/-- An op takes its turn when no earlier op of the instance is queued and none is under way. -/
def stepDequeue (s : CasState) (t : Nat) : Option CasState :=
  match s.tasks[t]? with
  | some task =>
    match task.phase with
    | .queued =>
      if (s.tasks.take t).all fun other =>
        other.instance_ ≠ task.instance_ ∨ ¬ other.phase.pending then
          some (s.setTask t task (.reading 0))
      else none
    | _ => none
  | none => none

/-- The op resolves against what was read; a rejected one is done. -/
def afterRead (task : OpTask) (attempt : Nat) (existing : ExistingRow) : OpPhase :=
  if (resolveConflict ops policy task.incoming existing).accepted then .resolved attempt existing
  else .rejected

/-- `readRow` on the first attempt, which prefers the batch; `getRow` on the others. -/
def stepRead (s : CasState) (t : Nat) (payload : Option Row) : Option CasState :=
  match s.tasks[t]? with
  | some task =>
    match task.phase with
    | .reading 0 =>
      match s.cachedFor task with
      | some cached =>
        some (s.setTask t (task.enforced payload)
          (afterRead ops policy (task.enforced payload) 0 cached))
      | none => some (s.setTask t (task.enforced payload) (.fetched 0 (getRow s.stored)))
    | .reading attempt =>
      some (s.setTask t (task.enforced payload) (.fetched attempt (getRow s.stored)))
    | _ => none
  | none => none

def stepResolve (s : CasState) (t : Nat) : Option CasState :=
  match s.tasks[t]? with
  | some task =>
    match task.phase with
    | .fetched attempt existing =>
      let batches := if attempt = 0 then cacheRow s.batches task existing else s.batches
      some ({ s with batches := batches }.setTask t task
        (afterRead ops policy task attempt existing))
    | _ => none
  | none => none

/-- `applyOpIf` under an object policy: the write takes effect if the stored HLC is the expected
one.  The string policies write unconditionally. -/
def stepApplyOpIf (s : CasState) (t : Nat) (answered : Bool) : Option CasState :=
  match s.tasks[t]? with
  | some task =>
    match task.phase with
    | .resolved attempt existing =>
      let result := resolveConflict ops policy task.incoming existing
      if policy.isObject ∧ s.stored.map (·.hlc) ≠ existing.rowHlc then
        let retry := attempt + 1 < MAX_WRITE_ATTEMPTS
        some (s.setTask t task
          (if ¬ answered then .failed else if retry then .reading (attempt + 1) else .rejected))
      else
        let written : CasState := { s with
          stored := result.stored task.incoming.hlc
          writes := s.writes ++ [⟨t, task.incoming, result, s.stored⟩] }
        if answered then
          let batches := recordBatchWrite s.batches task (result.cached task.incoming.hlc)
          some ({ written with batches := batches }.setTask t task .accepted)
        else some (written.setTask t task .failed)
    | _ => none
  | none => none

/-- An op under way ends without an answer, or rejected. -/
def stepEnd (s : CasState) (t : Nat) (rejected : Bool) : Option CasState :=
  match s.tasks[t]? with
  | some task =>
    match task.phase, rejected with
    | .resolved _ _, true => some (s.setTask t task .rejected)
    | phase, false => if phase.active then some (s.setTask t task .failed) else none
    | _, true => none
  | none => none

def casStep (s : CasState) : CasEvent → Option CasState
  | .startBatch i => some { s with batches := s.batches ++ [⟨i, none, none, false, true⟩] }
  | .prefetch b =>
    some { s with batches := updateBatch s.batches b fun batch =>
      { batch with prefetched := some (getRow s.stored) } }
  | .setPrefetched b =>
    some { s with batches := updateBatch s.batches b fun batch =>
      { batch with cached := batch.prefetched.or batch.cached } }
  | .finishBatch b =>
    some { s with batches := updateBatch s.batches b fun batch => { batch with active := false } }
  | .startOp i batch incoming =>
    some { s with tasks := s.tasks ++ [⟨i, batch, incoming, .queued⟩] }
  | .dequeue t => stepDequeue s t
  | .read t payload => stepRead ops policy s t payload
  | .resolve t => stepResolve ops policy s t
  | .refuse t => stepEnd s t true
  | .write t answered => stepApplyOpIf ops policy s t answered
  | .throw t => stepEnd s t false

def casMachine : Lib.Machine CasState CasEvent :=
  ⟨.start, casStep ops policy⟩

end Steps

/-! ## What a step can do -/

/-- A write that takes effect: under an object policy the stored HLC is the one that the op read. -/
structure WriteStep (ops : TextOps) (policy : ConflictPolicy) (s : CasState) (t : Nat)
    (answered : Bool) (task : OpTask) (existing : ExistingRow) (s' : CasState) : Prop where
  found : s.tasks[t]? = some task
  resolved : ∃ attempt, task.phase = .resolved attempt existing
  unmoved : policy.isObject = true → s.stored.map (·.hlc) = existing.rowHlc
  after : s' = { s with
    stored := (resolveConflict ops policy task.incoming existing).stored task.incoming.hlc
    batches :=
      if answered then
        recordBatchWrite s.batches task
          ((resolveConflict ops policy task.incoming existing).cached task.incoming.hlc)
      else s.batches
    tasks := s.tasks.set t { task with phase := if answered then .accepted else .failed }
    writes := s.writes ++
      [⟨t, task.incoming, resolveConflict ops policy task.incoming existing, s.stored⟩] }

/-- What a lost race leads to. -/
def lostPhase (answered : Bool) (attempt : Nat) : OpPhase :=
  if ¬ answered then .failed
  else if attempt + 1 < MAX_WRITE_ATTEMPTS then .reading (attempt + 1)
  else .rejected

/-- The steps, with what each goes by. -/
inductive CasStep (ops : TextOps) (policy : ConflictPolicy) (s : CasState) :
    CasEvent → CasState → Prop
  | startBatch (i : Nat) : CasStep ops policy s (.startBatch i)
      { s with batches := s.batches ++ [⟨i, none, none, false, true⟩] }
  | prefetch (b : Nat) : CasStep ops policy s (.prefetch b)
      { s with batches := updateBatch s.batches b fun batch =>
        { batch with prefetched := some (getRow s.stored) } }
  | setPrefetched (b : Nat) : CasStep ops policy s (.setPrefetched b)
      { s with batches := updateBatch s.batches b fun batch =>
        { batch with cached := batch.prefetched.or batch.cached } }
  | finishBatch (b : Nat) : CasStep ops policy s (.finishBatch b)
      { s with batches := updateBatch s.batches b fun batch => { batch with active := false } }
  | startOp (i : Nat) (batch : Option Nat) (incoming : ConflictInput) :
      CasStep ops policy s (.startOp i batch incoming)
        { s with tasks := s.tasks ++ [⟨i, batch, incoming, .queued⟩] }
  | dequeue {t : Nat} {task : OpTask} (found : s.tasks[t]? = some task)
      (queued : task.phase = .queued)
      (first : ∀ other ∈ s.tasks.take t, other.instance_ ≠ task.instance_ ∨
        other.phase.pending = false) :
      CasStep ops policy s (.dequeue t) (s.setTask t task (.reading 0))
  | readCached {t : Nat} {task : OpTask} {cached : ExistingRow} (payload : Option Row)
      (found : s.tasks[t]? = some task) (reading : task.phase = .reading 0)
      (hit : s.cachedFor task = some cached) :
      CasStep ops policy s (.read t payload) (s.setTask t (task.enforced payload)
        (afterRead ops policy (task.enforced payload) 0 cached))
  | readStored {t attempt : Nat} {task : OpTask} (payload : Option Row)
      (found : s.tasks[t]? = some task) (reading : task.phase = .reading attempt)
      (miss : attempt = 0 → s.cachedFor task = none) :
      CasStep ops policy s (.read t payload)
        (s.setTask t (task.enforced payload) (.fetched attempt (getRow s.stored)))
  | resolve {t attempt : Nat} {task : OpTask} {existing : ExistingRow}
      (found : s.tasks[t]? = some task) (fetched : task.phase = .fetched attempt existing) :
      CasStep ops policy s (.resolve t)
        ({ s with batches := if attempt = 0 then cacheRow s.batches task existing
            else s.batches }.setTask t task (afterRead ops policy task attempt existing))
  | refuse {t attempt : Nat} {task : OpTask} {existing : ExistingRow}
      (found : s.tasks[t]? = some task) (resolved : task.phase = .resolved attempt existing) :
      CasStep ops policy s (.refuse t) (s.setTask t task .rejected)
  | throw {t : Nat} {task : OpTask} (found : s.tasks[t]? = some task)
      (active : task.phase.active = true) :
      CasStep ops policy s (.throw t) (s.setTask t task .failed)
  | lost {t attempt : Nat} {task : OpTask} {existing : ExistingRow} (answered : Bool)
      (found : s.tasks[t]? = some task) (resolved : task.phase = .resolved attempt existing)
      (moved : policy.isObject = true ∧ s.stored.map (·.hlc) ≠ existing.rowHlc) :
      CasStep ops policy s (.write t answered) (s.setTask t task (lostPhase answered attempt))
  | write {t : Nat} {answered : Bool} {task : OpTask} {existing : ExistingRow} {s' : CasState}
      (wrote : WriteStep ops policy s t answered task existing s') :
      CasStep ops policy s (.write t answered) s'

section Inversion

variable {ops : TextOps} {policy : ConflictPolicy} {s s' : CasState}

theorem casStep_dequeue {t : Nat} (hs : stepDequeue s t = some s') :
    CasStep ops policy s (.dequeue t) s' := by
  unfold stepDequeue at hs
  split at hs
  · rename_i task ht
    split at hs
    · rename_i hphase
      rcases Option.ite_none_right_eq_some.1 hs with ⟨hall, heq⟩
      cases heq
      refine .dequeue ht hphase fun other hother => ?_
      simpa using List.all_eq_true.1 hall other hother
    · cases hs
  · cases hs

theorem casStep_read {t : Nat} {payload : Option Row}
    (hs : stepRead ops policy s t payload = some s') :
    CasStep ops policy s (.read t payload) s' := by
  unfold stepRead at hs
  split at hs
  · rename_i task ht
    split at hs
    · rename_i hphase
      split at hs
      · rename_i cached hcached
        cases hs
        exact .readCached payload ht hphase hcached
      · rename_i hcached
        cases hs
        exact .readStored payload ht hphase fun _ => hcached
    · rename_i attempt hne hphase
      cases hs
      exact .readStored payload ht hphase fun hzero => absurd hzero hne
    · cases hs
  · cases hs

theorem casStep_resolve {t : Nat} (hs : stepResolve ops policy s t = some s') :
    CasStep ops policy s (.resolve t) s' := by
  unfold stepResolve at hs
  split at hs
  · rename_i task ht
    split at hs
    · rename_i attempt existing hphase
      cases hs
      exact .resolve ht hphase
    · cases hs
  · cases hs

/-- The write of a resolved op loses the race, or takes effect. -/
theorem casStep_write {t : Nat} {answered : Bool}
    (hs : stepApplyOpIf ops policy s t answered = some s') :
    CasStep ops policy s (.write t answered) s' := by
  unfold stepApplyOpIf at hs
  split at hs
  · rename_i task ht
    split at hs
    · rename_i attempt existing hphase
      simp only at hs
      split at hs
      · rename_i hrace
        cases hs
        exact .lost answered ht hphase hrace
      · rename_i hrace
        have hunmoved : policy.isObject = true → s.stored.map (·.hlc) = existing.rowHlc :=
          fun hobject => not_not.1 fun hne => hrace ⟨hobject, hne⟩
        refine .write ⟨ht, ⟨attempt, hphase⟩, hunmoved, ?_⟩
        split at hs
        · rename_i hanswered
          cases hs
          simp [hanswered, CasState.setTask]
        · rename_i hanswered
          cases hs
          simp [hanswered, CasState.setTask]
    · cases hs
  · cases hs

theorem casStep_refuse {t : Nat} (hs : stepEnd s t true = some s') :
    CasStep ops policy s (.refuse t) s' := by
  unfold stepEnd at hs
  split at hs
  · rename_i task ht
    split at hs
    · rename_i attempt existing hphase _
      cases hs
      exact .refuse ht hphase
    · rename_i heq
      cases heq
    · cases hs
  · cases hs

theorem casStep_throw {t : Nat} (hs : stepEnd s t false = some s') :
    CasStep ops policy s (.throw t) s' := by
  unfold stepEnd at hs
  split at hs
  · rename_i task ht
    split at hs
    · rename_i heq
      cases heq
    · rcases Option.ite_none_right_eq_some.1 hs with ⟨hactive, heq⟩
      cases heq
      exact .throw ht hactive
    · cases hs
  · cases hs

theorem casStep_inv {e : CasEvent} (hs : (casMachine ops policy).step s e = some s') :
    CasStep ops policy s e s' := by
  cases e with
  | startBatch i => cases hs; exact .startBatch i
  | prefetch b => cases hs; exact .prefetch b
  | setPrefetched b => cases hs; exact .setPrefetched b
  | finishBatch b => cases hs; exact .finishBatch b
  | startOp i batch incoming => cases hs; exact .startOp i batch incoming
  | dequeue t => exact casStep_dequeue hs
  | read t payload => exact casStep_read hs
  | resolve t => exact casStep_resolve hs
  | refuse t => exact casStep_refuse hs
  | write t answered => exact casStep_write hs
  | throw t => exact casStep_throw hs

end Inversion

/-! ## Linearizability -/

/-- Each write follows on the one before. -/
def Chained : Option StoredRow → List RowWrite → Option StoredRow → Prop
  | first, [], last => last = first
  | first, w :: writes, last => w.before = first ∧ Chained w.after writes last

/-- The stored row is the outcome of the successful writes in their order, each the resolver's
result on the row directly before it; an accepted op has made exactly one of them, a rejected one
none. -/
structure Linear (ops : TextOps) (policy : ConflictPolicy) (s : CasState) : Prop where
  chain : Chained none s.writes s.stored
  resolved : ∀ w ∈ s.writes, w.result = resolveConflict ops policy w.incoming (getRow w.before) ∧
    w.result.accepted = true
  accepted : ∀ (t : Nat) (task : OpTask), s.tasks[t]? = some task → task.phase = .accepted →
    ∃ w ∈ s.writes, w.task = t ∧ w.incoming = task.incoming ∧ ∀ w' ∈ s.writes, w'.task = t → w' = w
  rejected : ∀ (t : Nat) (task : OpTask), s.tasks[t]? = some task → task.phase = .rejected →
    ∀ w ∈ s.writes, w.task ≠ t

/-- No two ops of the row have the same HLC. -/
def FreshHlc (s : CasState) : CasEvent → Prop
  | .startOp _ _ incoming => ∀ task ∈ s.tasks, task.incoming.hlc ≠ incoming.hlc
  | _ => True

instance (s : CasState) (e : CasEvent) : Decidable (FreshHlc s e) := by
  unfold FreshHlc
  split <;> infer_instance

/-! ## The invariant -/

/-- What was read: an absent row, or what a write left. -/
def Known (writes : List RowWrite) (existing : ExistingRow) : Prop :=
  existing = getRow none ∨ ∃ w ∈ writes, existing = w.result.cached w.incoming.hlc

/-- What the op goes by is known, and it goes on to write only if it is accepted. -/
def OpTask.Sound (ops : TextOps) (policy : ConflictPolicy) (writes : List RowWrite)
    (task : OpTask) : Prop :=
  match task.phase with
  | .fetched _ existing => Known writes existing
  | .resolved _ existing => Known writes existing ∧
      (resolveConflict ops policy task.incoming existing).accepted = true
  | _ => True

def RowBatch.Sound (writes : List RowWrite) (batch : RowBatch) : Prop :=
  (∀ existing ∈ batch.prefetched, Known writes existing) ∧
    ∀ existing ∈ batch.cached, Known writes existing

structure CasInv (ops : TextOps) (policy : ConflictPolicy) (s : CasState) : Prop where
  chain : Chained none s.writes s.stored
  resolved : ∀ w ∈ s.writes, w.result = resolveConflict ops policy w.incoming (getRow w.before) ∧
    w.result.accepted = true
  last : ∀ r, s.stored = some r → ∃ w ∈ s.writes, w.after = some r
  fresh : ∀ (t t' : Nat) (task task' : OpTask), s.tasks[t]? = some task →
    s.tasks[t']? = some task' → task.incoming.hlc = task'.incoming.hlc → t = t'
  once : ∀ w ∈ s.writes, ∀ w' ∈ s.writes, w.task = w'.task → w = w'
  written : ∀ w ∈ s.writes, ∃ task, s.tasks[w.task]? = some task ∧ task.incoming = w.incoming ∧
    (task.phase = .accepted ∨ task.phase = .failed)
  accepted : ∀ (t : Nat) (task : OpTask), s.tasks[t]? = some task → task.phase = .accepted →
    ∃ w ∈ s.writes, w.task = t
  tasks : ∀ (t : Nat) (task : OpTask), s.tasks[t]? = some task → task.Sound ops policy s.writes
  batches : ∀ batch ∈ s.batches, batch.Sound s.writes

/-- What does not depend on when the writes are conditional; it holds under every policy. -/
structure TaskInv (ops : TextOps) (policy : ConflictPolicy) (s : CasState) : Prop where
  chain : Chained none s.writes s.stored
  last : ∀ r, s.stored = some r → ∃ w ∈ s.writes, w.after = some r
  fresh : ∀ (t t' : Nat) (task task' : OpTask), s.tasks[t]? = some task →
    s.tasks[t']? = some task' → task.incoming.hlc = task'.incoming.hlc → t = t'
  once : ∀ w ∈ s.writes, ∀ w' ∈ s.writes, w.task = w'.task → w = w'
  written : ∀ w ∈ s.writes, ∃ task, s.tasks[w.task]? = some task ∧ task.incoming = w.incoming ∧
    (task.phase = .accepted ∨ task.phase = .failed)
  accepted : ∀ (t : Nat) (task : OpTask), s.tasks[t]? = some task → task.phase = .accepted →
    ∃ w ∈ s.writes, w.task = t
  tasks : ∀ (t : Nat) (task : OpTask), s.tasks[t]? = some task → task.Sound ops policy s.writes
  batches : ∀ batch ∈ s.batches, batch.Sound s.writes

variable {ops : TextOps} {policy : ConflictPolicy} {s s' : CasState}

theorem chained_concat {w : RowWrite} : ∀ {writes : List RowWrite} {first last : Option StoredRow},
    Chained first writes last → w.before = last → Chained first (writes ++ [w]) w.after := by
  intro writes
  induction writes with
  | nil =>
      intro first last h hw
      exact ⟨hw.trans h, rfl⟩
  | cons w' writes ih =>
      intro first last h hw
      exact ⟨h.1, ih h.2 hw⟩

theorem Known.concat {writes : List RowWrite} {existing : ExistingRow} (h : Known writes existing)
    (w : RowWrite) : Known (writes ++ [w]) existing := by
  rcases h with habsent | ⟨w', hw', heq⟩
  · exact Or.inl habsent
  · exact Or.inr ⟨w', List.mem_append_left _ hw', heq⟩

/-- A row that a write stored is read as the batch cache has it. -/
theorem RowWrite.getRow_after {w : RowWrite} {r : StoredRow} (h : w.after = some r) :
    getRow (some r) = w.result.cached w.incoming.hlc ∧ r.hlc = w.incoming.hlc := by
  rcases Option.map_eq_some_iff.1 h with ⟨row, hrow, rfl⟩
  refine ⟨?_, rfl⟩
  rw [getRow, ConflictResult.cached, hrow]

theorem CasInv.taskInv (h : CasInv ops policy s) : TaskInv ops policy s :=
  ⟨h.chain, h.last, h.fresh, h.once, h.written, h.accepted, h.tasks, h.batches⟩

theorem TaskInv.casInv (h : TaskInv ops policy s)
    (hresolved : ∀ w ∈ s.writes,
      w.result = resolveConflict ops policy w.incoming (getRow w.before) ∧
        w.result.accepted = true) : CasInv ops policy s :=
  ⟨h.chain, hresolved, h.last, h.fresh, h.once, h.written, h.accepted, h.tasks, h.batches⟩

theorem TaskInv.known_stored (h : TaskInv ops policy s) : Known s.writes (getRow s.stored) := by
  cases hstored : s.stored with
  | none => exact Or.inl rfl
  | some r =>
      rcases h.last r hstored with ⟨w, hw, hafter⟩
      exact Or.inr ⟨w, hw, (RowWrite.getRow_after hafter).1⟩

/-- The HLC of a write tells it from the others. -/
theorem TaskInv.write_unique (h : TaskInv ops policy s) {w w' : RowWrite} (hw : w ∈ s.writes)
    (hw' : w' ∈ s.writes) (heq : w.incoming.hlc = w'.incoming.hlc) : w = w' := by
  rcases h.written w hw with ⟨task, htask, hincoming, _⟩
  rcases h.written w' hw' with ⟨task', htask', hincoming', _⟩
  refine h.once w hw w' hw' (h.fresh _ _ task task' htask htask' ?_)
  rw [hincoming, hincoming', heq]

/-- What has the stored HLC is the stored row. -/
theorem TaskInv.eq_of_hlc (h : TaskInv ops policy s) {existing : ExistingRow}
    (hknown : Known s.writes existing) (hhlc : s.stored.map (·.hlc) = existing.rowHlc) :
    existing = getRow s.stored := by
  rcases hknown with rfl | ⟨w, hw, rfl⟩
  · have habsent : s.stored = none := by simpa [getRow] using hhlc
    rw [habsent]
  · rcases Option.map_eq_some_iff.1 hhlc with ⟨r, hstored, hr⟩
    rcases h.last r hstored with ⟨w', hw', hafter⟩
    have hafter' := RowWrite.getRow_after hafter
    have heq : w = w' := h.write_unique hw hw' (hr.symm.trans hafter'.2)
    rw [hstored, hafter'.1, heq]

/-! ### What each step keeps -/

/-- A task of the new list is the one set, or an old one at another place. -/
theorem getElem?_set_task {tasks : List OpTask} {t t' : Nat} {new task : OpTask}
    (h : (tasks.set t new)[t']? = some task) :
    (t' = t ∧ task = new) ∨ (t' ≠ t ∧ tasks[t']? = some task) := by
  rw [List.getElem?_set] at h
  split at h
  · rename_i heq
    split at h
    · cases h
      exact Or.inl ⟨heq.symm, rfl⟩
    · cases h
  · rename_i hne
    exact Or.inr ⟨Ne.symm hne, h⟩

theorem getElem?_set_other {tasks : List OpTask} {t t' : Nat} {new task : OpTask}
    (h : tasks[t']? = some task) (hne : t' ≠ t) : (tasks.set t new)[t']? = some task := by
  rw [List.getElem?_set_ne (Ne.symm hne)]
  exact h

/-- An element of a list with one more is an old one, or the new one at the end. -/
theorem getElem?_append_singleton {α : Type} {xs : List α} {x y : α} {i : Nat}
    (h : (xs ++ [x])[i]? = some y) : xs[i]? = some y ∨ (i = xs.length ∧ y = x) := by
  rcases Nat.lt_trichotomy i xs.length with hlt | rfl | hgt
  · exact Or.inl (by rwa [List.getElem?_append_left hlt] at h)
  · exact Or.inr ⟨rfl, by simpa using h.symm⟩
  · have hlength : (xs ++ [x]).length ≤ i := by simpa using Nat.succ_le_of_lt hgt
    rw [List.getElem?_eq_none hlength] at h
    cases h

/-- An op keeps its HLC. -/
theorem hlc_of_set {tasks : List OpTask} {t t' : Nat} {old task' : OpTask} (new : OpTask)
    (ht : tasks[t]? = some old) (hhlc : new.incoming.hlc = old.incoming.hlc)
    (h : (tasks.set t new)[t']? = some task') :
    ∃ old', tasks[t']? = some old' ∧ old'.incoming.hlc = task'.incoming.hlc := by
  rcases getElem?_set_task h with ⟨rfl, rfl⟩ | ⟨_, hold⟩
  · exact ⟨old, ht, hhlc.symm⟩
  · exact ⟨task', hold, rfl⟩

/-- An op that has not come to its end has written nothing. -/
theorem TaskInv.task_ne (h : TaskInv ops policy s) {t : Nat} {task : OpTask}
    (ht : s.tasks[t]? = some task) (hpending : task.phase.pending = true) :
    ∀ w ∈ s.writes, w.task ≠ t := by
  intro w hw heq
  rcases h.written w hw with ⟨task', htask', _, hphase⟩
  have hsame : task' = task := by
    rw [heq, ht] at htask'
    exact (Option.some.inj htask').symm
  subst hsame
  rcases hphase with hphase | hphase <;> rw [hphase] at hpending <;> cases hpending

/-- An op goes on without a write. -/
theorem TaskInv.setTask (h : TaskInv ops policy s) {t : Nat} {old task : OpTask} {phase : OpPhase}
    (ht : s.tasks[t]? = some old) (hpending : old.phase.pending = true)
    (hhlc : task.incoming.hlc = old.incoming.hlc) (hphase : phase ≠ .accepted)
    (hsound : ({ task with phase := phase } : OpTask).Sound ops policy s.writes) :
    TaskInv ops policy (s.setTask t task phase) := by
  have hne := h.task_ne ht hpending
  refine ⟨h.chain, h.last, ?_, h.once, ?_, ?_, ?_, h.batches⟩
  · intro i j x y hx hy heq
    rcases hlc_of_set { task with phase := phase } ht hhlc hx with ⟨x', hx', hxin⟩
    rcases hlc_of_set { task with phase := phase } ht hhlc hy with ⟨y', hy', hyin⟩
    exact h.fresh i j x' y' hx' hy' (by rw [hxin, hyin, heq])
  · intro w hw
    rcases h.written w hw with ⟨task', htask', hrest⟩
    exact ⟨task', getElem?_set_other htask' (hne w hw), hrest⟩
  · intro i x hx hxphase
    rcases getElem?_set_task hx with ⟨_, rfl⟩ | ⟨_, hold⟩
    · exact absurd hxphase hphase
    · exact h.accepted i x hold hxphase
  · intro i x hx
    rcases getElem?_set_task hx with ⟨_, rfl⟩ | ⟨_, hold⟩
    · exact hsound
    · exact h.tasks i x hold

theorem TaskInv.setBatches (h : TaskInv ops policy s) {batches : List RowBatch}
    (hbatches : ∀ batch ∈ batches, batch.Sound s.writes) :
    TaskInv ops policy { s with batches := batches } :=
  ⟨h.chain, h.last, h.fresh, h.once, h.written, h.accepted, h.tasks, hbatches⟩

/-- A new op of an HLC of its own. -/
theorem TaskInv.addTask (h : TaskInv ops policy s) {i : Nat} {batch : Option Nat}
    {incoming : ConflictInput} (hfresh : ∀ task ∈ s.tasks, task.incoming.hlc ≠ incoming.hlc) :
    TaskInv ops policy { s with tasks := s.tasks ++ [⟨i, batch, incoming, .queued⟩] } := by
  refine ⟨h.chain, h.last, ?_, h.once, ?_, ?_, ?_, h.batches⟩
  · intro t t' x y hx hy heq
    rcases getElem?_append_singleton hx with hx' | ⟨rfl, rfl⟩
    · rcases getElem?_append_singleton hy with hy' | ⟨_, rfl⟩
      · exact h.fresh t t' x y hx' hy' heq
      · exact absurd heq (hfresh x (List.mem_of_getElem? hx'))
    · rcases getElem?_append_singleton hy with hy' | ⟨rfl, _⟩
      · exact absurd heq.symm (hfresh y (List.mem_of_getElem? hy'))
      · rfl
  · intro w hw
    rcases h.written w hw with ⟨task, htask, hrest⟩
    have hlt : w.task < s.tasks.length := (List.getElem?_eq_some_iff.1 htask).1
    refine ⟨task, ?_, hrest⟩
    rw [List.getElem?_append_left hlt]
    exact htask
  · intro t x hx hphase
    rcases getElem?_append_singleton hx with hx' | ⟨_, rfl⟩
    · exact h.accepted t x hx' hphase
    · cases hphase
  · intro t x hx
    rcases getElem?_append_singleton hx with hx' | ⟨_, rfl⟩
    · exact h.tasks t x hx'
    · exact trivial

theorem OpTask.Sound.concat {writes : List RowWrite} {task : OpTask}
    (h : task.Sound ops policy writes) (w : RowWrite) : task.Sound ops policy (writes ++ [w]) := by
  unfold OpTask.Sound at h ⊢
  split
  · rename_i hphase
    rw [hphase] at h
    exact h.concat w
  · rename_i hphase
    rw [hphase] at h
    exact ⟨h.1.concat w, h.2⟩
  · exact trivial

theorem RowBatch.Sound.concat {writes : List RowWrite} {batch : RowBatch}
    (h : batch.Sound writes) (w : RowWrite) : batch.Sound (writes ++ [w]) :=
  ⟨fun existing he => (h.1 existing he).concat w, fun existing he => (h.2 existing he).concat w⟩

/-- The write of an op. -/
theorem TaskInv.write (h : TaskInv ops policy s) {t attempt : Nat} {task : OpTask}
    {existing : ExistingRow} {phase : OpPhase} (ht : s.tasks[t]? = some task)
    (htask : task.phase = .resolved attempt existing)
    (hphase : phase = .accepted ∨ phase = .failed) :
    TaskInv ops policy { s with
      stored := (resolveConflict ops policy task.incoming existing).stored task.incoming.hlc
      tasks := s.tasks.set t { task with phase := phase }
      writes := s.writes ++
        [⟨t, task.incoming, resolveConflict ops policy task.incoming existing, s.stored⟩] } := by
  have hne : ∀ w ∈ s.writes, w.task ≠ t := h.task_ne ht (by rw [htask]; rfl)
  have hself : (s.tasks.set t { task with phase := phase })[t]? =
      some { task with phase := phase } :=
    List.getElem?_set_self (List.getElem?_eq_some_iff.1 ht).1
  refine ⟨chained_concat h.chain rfl, ?_, ?_, ?_, ?_, ?_, ?_, ?_⟩
  · intro r hr
    exact ⟨_, List.mem_append_right _ (List.mem_singleton_self _), hr⟩
  · intro i j x y hx hy heq
    rcases hlc_of_set { task with phase := phase } ht rfl hx with ⟨x', hx', hxin⟩
    rcases hlc_of_set { task with phase := phase } ht rfl hy with ⟨y', hy', hyin⟩
    exact h.fresh i j x' y' hx' hy' (by rw [hxin, hyin, heq])
  · -- Only the new write is of this task.
    intro w hw w' hw' heq
    rcases List.mem_append.1 hw with hold | hnew
    · rcases List.mem_append.1 hw' with hold' | hnew'
      · exact h.once w hold w' hold' heq
      · rcases List.mem_singleton.1 hnew' with rfl
        exact absurd heq (hne w hold)
    · rcases List.mem_singleton.1 hnew with rfl
      rcases List.mem_append.1 hw' with hold' | hnew'
      · exact absurd heq.symm (hne w' hold')
      · exact (List.mem_singleton.1 hnew').symm
  · intro w hw
    rcases List.mem_append.1 hw with hold | hnew
    · rcases h.written w hold with ⟨task', htask', hrest⟩
      exact ⟨task', getElem?_set_other htask' (hne w hold), hrest⟩
    · rcases List.mem_singleton.1 hnew with rfl
      exact ⟨_, hself, rfl, hphase⟩
  · intro i x hx hxphase
    rcases getElem?_set_task hx with ⟨rfl, _⟩ | ⟨_, hold⟩
    · exact ⟨_, List.mem_append_right _ (List.mem_singleton_self _), rfl⟩
    · rcases h.accepted i x hold hxphase with ⟨w, hw, heq⟩
      exact ⟨w, List.mem_append_left _ hw, heq⟩
  · intro i x hx
    rcases getElem?_set_task hx with ⟨_, rfl⟩ | ⟨_, hold⟩
    · -- An op at its end goes by nothing.
      rcases hphase with rfl | rfl <;> exact trivial
    · exact (h.tasks i x hold).concat _
  · intro batch hbatch
    exact (h.batches batch hbatch).concat _

/-! ### The batches -/

theorem mem_updateBatch {batches : List RowBatch} {b : Nat} {f : RowBatch → RowBatch}
    {batch : RowBatch} (h : batch ∈ updateBatch batches b f) :
    ∃ old ∈ batches, batch = old ∨ batch = f old := by
  rcases List.mem_mapIdx.1 h with ⟨i, hi, rfl⟩
  refine ⟨batches[i], List.getElem_mem hi, ?_⟩
  split
  · exact Or.inr rfl
  · exact Or.inl rfl

theorem TaskInv.updateBatch (h : TaskInv ops policy s) {b : Nat} {f : RowBatch → RowBatch}
    (hf : ∀ batch, batch.Sound s.writes → (f batch).Sound s.writes) :
    TaskInv ops policy { s with batches := updateBatch s.batches b f } := by
  refine h.setBatches fun batch hbatch => ?_
  rcases mem_updateBatch hbatch with ⟨old, hold, rfl | rfl⟩
  · exact h.batches batch hold
  · exact hf old (h.batches old hold)

theorem sound_cacheRow {batches : List RowBatch} {writes : List RowWrite} {task : OpTask}
    {existing : ExistingRow} (hknown : Known writes existing)
    (h : ∀ batch ∈ batches, batch.Sound writes) :
    ∀ batch ∈ cacheRow batches task existing, batch.Sound writes := by
  intro batch hbatch
  rcases List.mem_mapIdx.1 hbatch with ⟨i, hi, rfl⟩
  have hold := h batches[i] (List.getElem_mem hi)
  split
  · exact ⟨hold.1, fun existing' he => Option.some.inj he ▸ hknown⟩
  · exact hold

/-- The mark is no part of what a batch knows. -/
theorem sound_markStale {batches : List RowBatch} {writes : List RowWrite} {task : OpTask}
    (h : ∀ batch ∈ batches, batch.Sound writes) :
    ∀ batch ∈ markStale batches task, batch.Sound writes := by
  intro batch hbatch
  rcases List.mem_mapIdx.1 hbatch with ⟨i, hi, rfl⟩
  have hold := h batches[i] (List.getElem_mem hi)
  split <;> exact hold

theorem TaskInv.cachedFor (h : TaskInv ops policy s) {task : OpTask} {existing : ExistingRow}
    (hcached : s.cachedFor task = some existing) : Known s.writes existing := by
  rcases Option.bind_eq_some_iff.1 hcached with ⟨batch, hbatch, hrow⟩
  rcases Option.bind_eq_some_iff.1 hbatch with ⟨b, _, hb⟩
  split at hrow
  · cases hrow
  · exact (h.batches batch (List.mem_of_getElem? hb)).2 existing hrow

/-! ### The steps -/

/-- What is read is known, so it may be resolved. -/
theorem TaskInv.afterRead (h : TaskInv ops policy s) {t attempt : Nat} {old task : OpTask}
    {existing : ExistingRow} (ht : s.tasks[t]? = some old) (hpending : old.phase.pending = true)
    (hhlc : task.incoming.hlc = old.incoming.hlc) (hknown : Known s.writes existing) :
    TaskInv ops policy (s.setTask t task (afterRead ops policy task attempt existing)) := by
  unfold Server.afterRead
  split
  · rename_i haccepted
    exact h.setTask ht hpending hhlc (by simp) ⟨hknown, haccepted⟩
  · exact h.setTask ht hpending hhlc (by simp) trivial

/-- What an op that writes resolved against is known, and the op is accepted. -/
theorem TaskInv.known_of_writeStep (h : TaskInv ops policy s) {t : Nat} {answered : Bool}
    {task : OpTask} {existing : ExistingRow}
    (hw : WriteStep ops policy s t answered task existing s') :
    Known s.writes existing ∧
      (resolveConflict ops policy task.incoming existing).accepted = true := by
  rcases hw.resolved with ⟨attempt, hphase⟩
  have hsound := h.tasks t task hw.found
  rw [OpTask.Sound, hphase] at hsound
  exact hsound

theorem TaskInv.writeStep (h : TaskInv ops policy s) {t : Nat} {answered : Bool}
    {task : OpTask} {existing : ExistingRow}
    (hw : WriteStep ops policy s t answered task existing s') : TaskInv ops policy s' := by
  rcases hw.resolved with ⟨attempt, hphase⟩
  have hend : (if answered then OpPhase.accepted else .failed) = .accepted ∨
      (if answered then OpPhase.accepted else .failed) = .failed := by
    cases answered
    · exact Or.inr rfl
    · exact Or.inl rfl
  have hwritten := h.write hw.found hphase hend
  rw [hw.after]
  refine hwritten.setBatches ?_
  split
  · refine sound_cacheRow ?_ (sound_markStale hwritten.batches)
    exact Or.inr ⟨_, List.mem_append_right _ (List.mem_singleton_self _), rfl⟩
  · exact hwritten.batches

theorem TaskInv.start : TaskInv ops policy CasState.start := by
  refine ⟨rfl, ?_, ?_, ?_, ?_, ?_, ?_, ?_⟩ <;> simp [CasState.start]

theorem pending_of_active {phase : OpPhase} (h : phase.active = true) : phase.pending = true := by
  cases phase <;> first | rfl | cases h

theorem TaskInv.step (h : TaskInv ops policy s) {e : CasEvent}
    (hg : FreshHlc s e) (hs : (casMachine ops policy).step s e = some s') :
    TaskInv ops policy s' := by
  cases casStep_inv hs with
  | startBatch i =>
      refine h.setBatches fun batch hbatch => ?_
      rcases List.mem_append.1 hbatch with hold | hnew
      · exact h.batches batch hold
      · rcases List.mem_singleton.1 hnew with rfl
        exact ⟨by simp, by simp⟩
  | prefetch b =>
      refine h.updateBatch fun batch hbatch => ⟨?_, hbatch.2⟩
      intro existing he
      exact Option.some.inj he ▸ h.known_stored
  | setPrefetched b =>
      refine h.updateBatch fun batch hbatch => ⟨hbatch.1, ?_⟩
      intro existing he
      rcases Option.or_eq_some_iff.1 he with hpre | ⟨_, hcached⟩
      · exact hbatch.1 existing hpre
      · exact hbatch.2 existing hcached
  | finishBatch b => exact h.updateBatch fun batch hbatch => hbatch
  | startOp i batch incoming => exact h.addTask hg
  | dequeue ht hphase => exact h.setTask ht (by rw [hphase]; rfl) rfl (by simp) trivial
  | readCached payload ht hphase hcached =>
      exact h.afterRead ht (by rw [hphase]; rfl) rfl (h.cachedFor hcached)
  | readStored payload ht hphase =>
      exact h.setTask ht (by rw [hphase]; rfl) rfl (by simp) h.known_stored
  | @resolve t attempt task existing ht hphase =>
      have hknown : Known s.writes existing := by
        have hsound := h.tasks t task ht
        rw [OpTask.Sound, hphase] at hsound
        exact hsound
      have hbatches : ∀ batch ∈ (if attempt = 0 then cacheRow s.batches task existing
          else s.batches), batch.Sound s.writes := by
        split
        · exact sound_cacheRow hknown h.batches
        · exact h.batches
      exact (h.setBatches hbatches).afterRead ht (by rw [hphase]; rfl) rfl hknown
  | refuse ht hphase => exact h.setTask ht (by rw [hphase]; rfl) rfl (by simp) trivial
  | throw ht hactive => exact h.setTask ht (pending_of_active hactive) rfl (by simp) trivial
  | @lost t attempt task existing answered ht hphase =>
      -- A lost race leaves the row alone.
      have hended : lostPhase answered attempt ≠ .accepted ∧
          ({ task with phase := lostPhase answered attempt } : OpTask).Sound ops policy
            s.writes := by
        rw [lostPhase]
        repeat' split
        all_goals exact ⟨by simp, trivial⟩
      exact h.setTask ht (by rw [hphase]; rfl) rfl hended.1 hended.2
  | write hw => exact h.writeStep hw

/-- A step that writes, or one that leaves the row and its writes alone. -/
theorem CasStep.cases_write {e : CasEvent} (h : CasStep ops policy s e s') :
    (s'.stored = s.stored ∧ s'.writes = s.writes) ∨
      ∃ t answered task existing, e = .write t answered ∧
        WriteStep ops policy s t answered task existing s' := by
  cases h with
  | write hw => exact Or.inr ⟨_, _, _, _, rfl, hw⟩
  | _ => exact Or.inl ⟨rfl, rfl⟩

/-- Under an object policy a write that takes effect is over the row the op read. -/
theorem CasInv.step (h : CasInv ops policy s) (hobject : policy.isObject = true) {e : CasEvent}
    (hg : FreshHlc s e) (hs : (casMachine ops policy).step s e = some s') :
    CasInv ops policy s' := by
  have hinv := h.taskInv
  refine (hinv.step hg hs).casInv ?_
  rcases (casStep_inv hs).cases_write with ⟨-, hwrites⟩ | ⟨t, answered, task, existing, rfl, hw⟩
  · rw [hwrites]
    exact h.resolved
  · rcases hinv.known_of_writeStep hw with ⟨hknown, haccepted⟩
    have hread : existing = getRow s.stored := hinv.eq_of_hlc hknown (hw.unmoved hobject)
    rw [hw.after]
    intro w hmem
    rcases List.mem_append.1 hmem with hold | hnew
    · exact h.resolved w hold
    · rcases List.mem_singleton.1 hnew with rfl
      exact ⟨by rw [hread], haccepted⟩

theorem CasInv.linear (h : CasInv ops policy s) : Linear ops policy s := by
  refine ⟨h.chain, h.resolved, ?_, ?_⟩
  · intro t task ht hphase
    rcases h.accepted t task ht hphase with ⟨w, hw, rfl⟩
    rcases h.written w hw with ⟨task', htask', hincoming, _⟩
    have hsame : task' = task := by simpa [ht] using htask'.symm
    refine ⟨w, hw, rfl, by rw [← hincoming, hsame], fun w' hw' heq => ?_⟩
    exact h.once w' hw' w hw heq
  · intro t task ht hphase w hw heq
    rcases h.written w hw with ⟨task', htask', _, hend⟩
    have hsame : task' = task := by simpa [heq, ht] using htask'.symm
    rw [hsame, hphase] at hend
    rcases hend with hend | hend <;> cases hend

/-- Under an object policy and with an HLC for each op of its own, the writes of a row are linear,
however many instances there are and however their steps interleave. -/
theorem linear_of_freshHlc (hobject : policy.isObject = true)
    (h : (casMachine ops policy).Reach FreshHlc s) : Linear ops policy s := by
  apply CasInv.linear
  exact h.invariant (TaskInv.start.casInv (by simp [CasState.start])) fun hinv hg hs =>
    hinv.step hobject hg hs

/-! ## Runs of two instances -/

/-- Counts the edits of a row. -/
def countEdits : ConflictResolver := fun _ row _ =>
  let edits := match row.lookup "edits" with
    | some (.num n) => n
    | _ => 0
  .ok ⟨row.insert "edits" (.num (edits + 1)), fun _ => true⟩

def editCount (row : Option Row) : Option Json :=
  row.bind fun row => row.lookup "edits"

def editOp (op : OpType) (hlc : Hlc) : ConflictInput :=
  rowOp op [("edits", .num 0)] hlc

/-- The `t`-th op of the run is read, resolved and written with no other step between. -/
def attemptSteps (t : Nat) (incoming : ConflictInput) : List CasEvent :=
  [.read t incoming.payload, .resolve t, .write t true]

def opSteps (instance_ t : Nat) (incoming : ConflictInput) : List CasEvent :=
  [.startOp instance_ none incoming, .dequeue t] ++ attemptSteps t incoming

/-- Two instances have read the same row; the one that loses the race counts both edits. -/
theorem linear_afterRace : ∃ s : CasState,
    s.writes.map (fun w => editCount w.result.resolvedRow) =
      [some (.num 0), some (.num 1), some (.num 2)] ∧
    Linear noText (.custom countEdits) s := by
  let late := editOp .update "3.0.c"
  have hrun : (((casMachine noText (.custom countEdits)).runWith
      (fun s e => decide (FreshHlc s e)) (casMachine noText (.custom countEdits)).init
      (opSteps 0 0 (editOp .insert "1.0.a") ++
        [.startOp 1 none late, .dequeue 1, .read 1 late.payload, .resolve 1] ++
        opSteps 0 2 (editOp .update "2.0.b") ++
        [.write 1 true] ++ attemptSteps 1 late)).map fun s =>
          s.writes.map fun w => editCount w.result.resolvedRow) =
      some [some (.num 0), some (.num 1), some (.num 2)] := by decide +kernel
  rcases Option.map_eq_some_iff.1 hrun with ⟨s, hs, hcounts⟩
  have hreach := Lib.Machine.Reach.of_runWith (fun _ _ h => of_decide_eq_true h) .init hs
  exact ⟨s, hcounts, linear_of_freshHlc rfl hreach⟩

/-- The row comes back to an HLC it had before; the write of an op that read it then overwrites two
edits. -/
theorem not_linear_sameHlc :
    ¬ ∀ ops policy s, ConflictPolicy.isObject policy = true →
      (casMachine ops policy).Reachable s → Linear ops policy s := by
  intro h
  let late := editOp .update "3.0.c"
  have hrun : ((casMachine noText (.custom countEdits)).run
      (opSteps 0 0 (editOp .insert "1.0.a") ++
        [.startOp 1 none late, .dequeue 1, .read 1 late.payload, .resolve 1] ++
        opSteps 0 2 (editOp .update "2.0.b") ++ opSteps 0 3 (editOp .update "1.0.a") ++
        [.write 1 true])).map (fun s => s.writes.all fun w =>
          decide (editCount w.result.resolvedRow = editCount (resolveConflict noText
            (.custom countEdits) w.incoming (getRow w.before)).resolvedRow)) =
      some false := by decide +kernel
  rcases Option.map_eq_some_iff.1 hrun with ⟨s, hs, hall⟩
  have hlinear := h noText (.custom countEdits) s rfl (.of_run hs)
  rw [List.all_eq_true.2 fun w hw => decide_eq_true ?_] at hall
  · cases hall
  · -- A linear run counts on the row before each write.
    rw [(hlinear.resolved w hw).1]

end Server
end Reflectdb
