import Reflectdb.Lib.Serial
import Reflectdb.Server.CompareAndSet

/-!
# Server ops — `applyServerOp` beside the client ops of a row

One process and one row.  Client ops take turns on the row, and the batches of other messages are
told of their writes.  A server op reads the row, calls the app and writes unconditionally; it does
not take a turn, and no batch is told of its write.
-/

namespace Reflectdb
namespace Server

open Core Client

/-- Records are equal if their entries are. -/
instance {V : Type} [DecidableEq V] : DecidableEq (Record V) := fun _ _ =>
  decidable_of_iff _ AList.ext_iff.symm

/-! ## A server op -/

structure ServerOp where
  type : OpType
  payload : Option Row
  deriving DecidableEq

/-- The clock's stamp, or one that has caught up with the row's HLC.  `caughtUp` is what the clock
answers after `receive`, or `none` if that throws. -/
def serverHlc (stamp : Hlc) (caughtUp : Option Hlc) (existing : ExistingRow) : Hlc :=
  match existing.rowHlc.filter (· ≠ "") with
  | some rowHlc => if stamp ≤ rowHlc then caughtUp.getD stamp else stamp
  | none => stamp

/-- The row and the clocks that a server op writes.  A partial update keeps the other columns and
their clocks. -/
def resolveServerOp (op : ServerOp) (hlc : Hlc) (existing : ExistingRow) : ConflictResult :=
  match op.type, op.payload with
  | .insert, some columns =>
    .accept (some columns) ((stampColumns ∅ (some columns) hlc).insert "_row" hlc)
  | .update, some columns =>
    let clocks := assignAll ∅ (Lib.writes (existing.colClocks.erase "_row").entries)
    .accept (some (columns ∪ existing.row.getD ∅))
      ((stampColumns clocks (some columns) hlc).insert "_row" hlc)
  | _, _ => .accept none ((assignAll ∅ (existing.colClocks.keys.map fun col => (col, hlc))).insert
      "_row" hlc)

/-! ## Model -/

inductive ServerPhase
  | started
  /-- The row is read and the op resolved; `execute` is awaited. -/
  | executing (hlc : Hlc) (existing : ExistingRow)
  | done
  /-- `execute` or a storage call threw. -/
  | failed

structure ServerTask where
  op : ServerOp
  phase : ServerPhase

/-- An op as it meets the stored row. -/
inductive RowOp
  | client (task : Nat) (incoming : ConflictInput)
  | server (task : Nat) (op : ServerOp) (hlc : Hlc)

inductive OpRef
  | client (task : Nat)
  | server (task : Nat)
  deriving DecidableEq

def RowOp.ref : RowOp → OpRef
  | .client t _ => .client t
  | .server t _ _ => .server t

/-- What the caller is told, as far as the row decides it. -/
inductive RowAnswer
  | accepted
  | rejected (reason : Option String)
  /-- The `hlc` and `resolvedRow` of `applyServerOp`. -/
  | written (hlc : Hlc) (row : Option Row)
  deriving DecidableEq

/-- Which of the rows that were read a write has replaced that no batch was told of.  No step goes
by it. -/
structure Outdated where
  task : Nat → Bool
  prefetched : Nat → Bool
  cached : Nat → Bool

structure ProcessState where
  cas : CasState
  serverTasks : List ServerTask
  outdated : Outdated
  /-- The answers that the row decides.  No step reads them. -/
  answers : List (OpRef × RowAnswer)

inductive ProcessEvent
  | client (e : CasEvent)
  | startServer (op : ServerOp)
  | serverRead (task : Nat) (stamp : Hlc) (caughtUp : Option Hlc)
  | serverWrite (task : Nat) (answered : Bool)
  /-- `execute` or the read throws, or the write throws before it takes effect. -/
  | serverThrow (task : Nat)

namespace ProcessState

def start : ProcessState :=
  ⟨.start, [], ⟨fun _ => false, fun _ => false, fun _ => false⟩, []⟩

def setServerTask (s : ProcessState) (t : Nat) (task : ServerTask) (phase : ServerPhase) :
    ProcessState :=
  { s with serverTasks := s.serverTasks.set t { task with phase := phase } }

end ProcessState

/-- Everything that was read is outdated. -/
def Outdated.all : Outdated :=
  ⟨fun _ => true, fun _ => true, fun _ => true⟩

/-- Some op of the batch meets the condition. -/
def CasState.batchOp (s : CasState) (b : Nat) (p : OpTask → Bool) : Bool :=
  s.tasks.any fun task => task.batch = some b && p task

/-- What `handleOps` does in which order: a batch is prefetched before its ops run, they run one
after the other, and it is finished after them.  There is one process. -/
def InMessageOrder (s : CasState) : CasEvent → Prop
  | .startBatch i => i = 0
  | .prefetch b => s.batchOp b (fun _ => true) = false
  | .setPrefetched b => s.batchOp b (fun _ => true) = false
  | .finishBatch b => s.batchOp b (·.phase.pending) = false
  | .startOp i none _ => i = 0
  | .startOp i (some b) _ =>
    i = 0 ∧ (s.batches[b]?.any (·.active)) ∧ s.batchOp b (·.phase.pending) = false
  | _ => True

section Steps

variable (ops : TextOps) (policy : ConflictPolicy)

/-- The row that the task's op goes by becomes known. -/
def Outdated.setTask (o : Outdated) (t : Nat) (mark : Bool) : Outdated :=
  { o with task := Function.update o.task t mark }

def Outdated.setCached (o : Outdated) (b : Option Nat) (mark : Bool) : Outdated :=
  match b with
  | some b => { o with cached := Function.update o.cached b mark }
  | none => o

def rejection (t : Nat) (result : ConflictResult) : List (OpRef × RowAnswer) :=
  if result.accepted then [] else [(.client t, .rejected result.reason)]

/-- What a client step does to the marks and the answers. -/
def observe (s : ProcessState) (cas : CasState) (e : CasEvent) : ProcessState :=
  let s' : ProcessState := { s with cas := cas }
  match e with
  | .prefetch b =>
    { s' with outdated.prefetched := Function.update s.outdated.prefetched b false }
  | .setPrefetched b =>
    if (s.cas.batches[b]?.bind (·.prefetched)).isSome then
      { s' with outdated := s.outdated.setCached (some b) (s.outdated.prefetched b) }
    else s'
  | .read t payload =>
    match s.cas.tasks[t]? with
    | some task =>
      match task.phase, s.cas.cachedFor task with
      | .reading 0, some cached =>
        let mark := (task.batch.map s.outdated.cached).getD false
        { s' with
          outdated := s.outdated.setTask t mark
          answers := s.answers ++
            rejection t (resolveConflict ops policy (task.enforced payload).incoming cached) }
      | _, _ => { s' with outdated := s.outdated.setTask t false }
    | none => s'
  | .resolve t =>
    match s.cas.tasks[t]? with
    | some task =>
      match task.phase with
      | .fetched attempt existing =>
        { s' with
          outdated :=
            if attempt = 0 then s.outdated.setCached task.batch (s.outdated.task t)
            else s.outdated
          answers := s.answers ++
            rejection t (resolveConflict ops policy task.incoming existing) }
      | _ => s'
    | none => s'
  | .write t answered =>
    -- A lost race writes nothing.
    if cas.writes.length = s.cas.writes.length then s'
    else if answered then
      { s' with
        outdated := s.outdated.setCached (s.cas.tasks[t]?.bind (·.batch)) false
        answers := s.answers ++ [(.client t, .accepted)] }
    else { s' with outdated := .all }
  | _ => s'

instance (s : CasState) (e : CasEvent) : Decidable (InMessageOrder s e) := by
  unfold InMessageOrder
  split <;> infer_instance

def stepClient (s : ProcessState) (e : CasEvent) : Option ProcessState :=
  if InMessageOrder s.cas e then
    ((casMachine ops policy).step s.cas e).map fun cas => observe ops policy s cas e
  else none

def stepServerRead (s : ProcessState) (t : Nat) (stamp : Hlc) (caughtUp : Option Hlc) :
    Option ProcessState :=
  match s.serverTasks[t]? with
  | some task =>
    match task.phase with
    | .started =>
      let existing := getRow s.cas.stored
      some (s.setServerTask t task (.executing (serverHlc stamp caughtUp existing) existing))
    | _ => none
  | none => none

/-- The unconditional `applyOp`. -/
def stepServerWrite (s : ProcessState) (t : Nat) (answered : Bool) : Option ProcessState :=
  match s.serverTasks[t]? with
  | some task =>
    match task.phase with
    | .executing hlc existing =>
      let result := resolveServerOp task.op hlc existing
      let written : ProcessState := { s with
        cas := { s.cas with stored := result.stored hlc }
        outdated := .all }
      if answered then
        some { written.setServerTask t task .done with
          answers := s.answers ++ [(.server t, .written hlc result.resolvedRow)] }
      else some (written.setServerTask t task .failed)
    | _ => none
  | none => none

def stepServerThrow (s : ProcessState) (t : Nat) : Option ProcessState :=
  match s.serverTasks[t]? with
  | some task =>
    match task.phase with
    | .started => some (s.setServerTask t task .failed)
    | .executing _ _ => some (s.setServerTask t task .failed)
    | _ => none
  | none => none

def processStep (s : ProcessState) : ProcessEvent → Option ProcessState
  | .client e => stepClient ops policy s e
  | .startServer op => some { s with serverTasks := s.serverTasks ++ [⟨op, .started⟩] }
  | .serverRead t stamp caughtUp => stepServerRead s t stamp caughtUp
  | .serverWrite t answered => stepServerWrite s t answered
  | .serverThrow t => stepServerThrow s t

def processMachine : Lib.Machine ProcessState ProcessEvent :=
  ⟨.start, processStep ops policy⟩

end Steps

/-! ## Linearizability -/

section Order

variable (ops : TextOps) (policy : ConflictPolicy)

def RowOp.hlc : RowOp → Hlc
  | .client _ incoming => incoming.hlc
  | .server _ _ hlc => hlc

/-- The op against the stored row. -/
def RowOp.result (stored : Option StoredRow) : RowOp → ConflictResult
  | .client _ incoming => resolveConflict ops policy incoming (getRow stored)
  | .server _ op hlc => resolveServerOp op hlc (getRow stored)

def RowOp.run (stored : Option StoredRow) (op : RowOp) : Option StoredRow :=
  let result := op.result ops policy stored
  if result.accepted then result.stored op.hlc else stored

def RowOp.answer (stored : Option StoredRow) (op : RowOp) : RowAnswer :=
  let result := op.result ops policy stored
  match op with
  | .client _ _ => if result.accepted then .accepted else .rejected result.reason
  | .server _ _ hlc => .written hlc result.resolvedRow

/-- The op of a turn: its caller was answered, or the call threw. -/
def RowOp.Of (s : ProcessState) : RowOp → Prop
  | .client t incoming => ∃ task, s.cas.tasks[t]? = some task ∧ task.incoming = incoming ∧
      (task.phase = .failed ∨ ∃ answer, (.client t, answer) ∈ s.answers)
  | .server t op hlc => ∃ task, s.serverTasks[t]? = some task ∧ task.op = op ∧
      (task.phase = .failed ∨ ∃ row, (.server t, .written hlc row) ∈ s.answers)

/-- A sequential order of the ops: it ends with the stored row, answers each op as it was answered,
and takes the HLC of the row nowhere back.  An op that was refused has no turn. -/
structure InOrder (s : ProcessState) (order : List (Lib.Turn (Option StoredRow) RowOp)) :
    Prop where
  serial : Lib.Serial (RowOp.run ops policy) none order s.cas.stored
  once : (order.map (·.op.ref)).Nodup
  origin : ∀ turn ∈ order, turn.op.Of s
  answered : ∀ ref answer, (ref, answer) ∈ s.answers →
    ∃ turn ∈ order, turn.op.ref = ref ∧ turn.op.answer ops policy turn.before = answer
  accepted : ∀ (t : Nat) (task : OpTask), s.cas.tasks[t]? = some task → task.phase = .accepted →
    (.client t, .accepted) ∈ s.answers
  done : ∀ (t : Nat) (task : ServerTask), s.serverTasks[t]? = some task → task.phase = .done →
    ∃ hlc row, (.server t, .written hlc row) ∈ s.answers
  monotone : ∀ turn ∈ order, ∀ r r', turn.before = some r →
    turn.after (RowOp.run ops policy) = some r' → r.hlc ≤ r'.hlc

def Linearizes (s : ProcessState) : Prop :=
  ∃ order, InOrder ops policy s order

/-! ## When the writes fit -/

/-- The policies that let an op write over a newer row. -/
def ConflictPolicy.takesOlder : ConflictPolicy → Bool
  | .lww => false
  | .server => false
  | _ => true

/-- The write of an op that has resolved against a row. -/
def ClientFits (s : ProcessState) (t : Nat) (answered : Bool) (task : OpTask) (attempt : Nat)
    (existing : ExistingRow) : Prop :=
  if policy.isObject ∧ s.cas.stored.map (·.hlc) ≠ existing.rowHlc then
    -- It loses the race, and is tried again.
    attempt + 1 < MAX_WRITE_ATTEMPTS ∨ answered = false
  else
    (s.outdated.task t = true → resolveConflict ops policy task.incoming existing =
        resolveConflict ops policy task.incoming (getRow s.cas.stored)) ∧
      (policy.takesOlder = true → NotOlder task.incoming (getRow s.cas.stored))

def ServerFits (s : ProcessState) (task : ServerTask) (hlc : Hlc) (existing : ExistingRow) : Prop :=
  resolveServerOp task.op hlc existing = resolveServerOp task.op hlc (getRow s.cas.stored) ∧
    ((resolveServerOp task.op hlc existing).resolvedRow.isSome →
      ∀ r ∈ s.cas.stored, r.hlc ≤ hlc)

/-- Where a write that no batch was told of has come after an op read the row, or any write after a
server op did, the op makes the same of the stored row; no HLC goes back. -/
def ProcessFits (s : ProcessState) : ProcessEvent → Prop
  | .client (.write t answered) =>
    match s.cas.tasks[t]? with
    | some task =>
      match task.phase with
      | .resolved attempt existing => ClientFits ops policy s t answered task attempt existing
      | _ => True
    | none => True
  | .serverWrite t _ =>
    match s.serverTasks[t]? with
    | some task =>
      match task.phase with
      | .executing hlc existing => ServerFits s task hlc existing
      | _ => True
    | none => True
  | _ => True

instance : DecidableEq ConflictResult := fun a b =>
  decidable_of_iff (a.accepted = b.accepted ∧ a.resolvedRow = b.resolvedRow ∧
    a.updatedColClocks = b.updatedColClocks ∧ a.reason = b.reason) (by
      cases a
      cases b
      simp)

instance (s : ProcessState) (t : Nat) (answered : Bool) (task : OpTask) (attempt : Nat)
    (existing : ExistingRow) :
    Decidable (ClientFits ops policy s t answered task attempt existing) := by
  unfold ClientFits
  infer_instance

instance (s : ProcessState) (task : ServerTask) (hlc : Hlc) (existing : ExistingRow) :
    Decidable (ServerFits s task hlc existing) :=
  inferInstanceAs (Decidable (_ ∧ _))

instance (s : ProcessState) (e : ProcessEvent) : Decidable (ProcessFits ops policy s e) := by
  unfold ProcessFits
  split
  · split
    · split <;> infer_instance
    · infer_instance
  · split
    · split <;> infer_instance
    · infer_instance
  · infer_instance

end Order

/-! ## Turns on the row -/

variable {ops : TextOps} {policy : ConflictPolicy}

/-- The row that an op goes by. -/
def OpPhase.known : OpPhase → Option ExistingRow
  | .fetched _ existing => some existing
  | .resolved _ existing => some existing
  | _ => none

theorem OpPhase.active_of_known {phase : OpPhase} {existing : ExistingRow}
    (h : phase.known = some existing) : phase.active = true := by
  cases phase <;> first | rfl | cases h

/-- The ops of the one process take turns, and the batch of an op under way is active. -/
structure TurnInv (s : CasState) : Prop where
  oneProcess : ∀ (t : Nat) (task : OpTask), s.tasks[t]? = some task → task.instance_ = 0
  oneProcessBatch : ∀ (b : Nat) (batch : RowBatch), s.batches[b]? = some batch → batch.instance_ = 0
  turn : ∀ (t t' : Nat) (task task' : OpTask), t < t' → s.tasks[t]? = some task →
    s.tasks[t']? = some task' → task'.phase.active = true → task.phase.pending = false
  owned : ∀ (t : Nat) (task : OpTask) (b : Nat), s.tasks[t]? = some task →
    task.phase.pending = true → task.batch = some b → ∃ batch, s.batches[b]? = some batch ∧
      batch.active = true

theorem getElem?_updateBatch {batches : List RowBatch} {b i : Nat} {f : RowBatch → RowBatch}
    {batch : RowBatch} (h : (updateBatch batches b f)[i]? = some batch) :
    ∃ old, batches[i]? = some old ∧ batch = if i = b then f old else old := by
  rw [updateBatch, List.getElem?_mapIdx, Option.map_eq_some_iff] at h
  rcases h with ⟨old, hold, rfl⟩
  exact ⟨old, hold, rfl⟩

theorem getElem?_cacheRow {batches : List RowBatch} {task : OpTask} {existing : ExistingRow}
    {i : Nat} {batch : RowBatch} (h : (cacheRow batches task existing)[i]? = some batch) :
    ∃ old, batches[i]? = some old ∧
      batch = if task.batch = some i then { old with cached := some existing, stale := false }
        else old := by
  rw [cacheRow, List.getElem?_mapIdx, Option.map_eq_some_iff] at h
  rcases h with ⟨old, hold, rfl⟩
  exact ⟨old, hold, rfl⟩

theorem getElem?_markStale {batches : List RowBatch} {task : OpTask} {i : Nat} {batch : RowBatch}
    (h : (markStale batches task)[i]? = some batch) :
    ∃ old, batches[i]? = some old ∧
      batch = if old.active ∧ old.instance_ = task.instance_ ∧ task.batch ≠ some i then
        { old with stale := true } else old := by
  rw [markStale, List.getElem?_mapIdx, Option.map_eq_some_iff] at h
  rcases h with ⟨old, hold, rfl⟩
  exact ⟨old, hold, rfl⟩

variable {s s' : CasState}

/-- An op goes on; it becomes active only if no earlier one is pending. -/
theorem TurnInv.setTask (h : TurnInv s) {t : Nat} {old task : OpTask} {phase : OpPhase}
    (ht : s.tasks[t]? = some old) (hpending : old.phase.pending = true)
    (hinstance : task.instance_ = old.instance_) (hbatch : task.batch = old.batch)
    (hactive : phase.active = true → old.phase.active = true ∨
      ∀ other ∈ s.tasks.take t, other.phase.pending = false) :
    TurnInv (s.setTask t task phase) := by
  refine ⟨?_, h.oneProcessBatch, ?_, ?_⟩
  · intro i x hx
    rcases getElem?_set_task hx with ⟨-, rfl⟩ | ⟨-, hold⟩
    · exact hinstance.trans (h.oneProcess t old ht)
    · exact h.oneProcess i x hold
  · intro i j x y hlt hx hy hyactive
    rcases getElem?_set_task hy with ⟨rfl, rfl⟩ | ⟨-, hyold⟩
    · -- The op itself is active: the earlier ones have ended.
      rcases getElem?_set_task hx with ⟨rfl, -⟩ | ⟨-, hxold⟩
      · exact absurd hlt (lt_irrefl _)
      · rcases hactive hyactive with hwas | hearlier
        · exact h.turn i j x old hlt hxold ht hwas
        · refine hearlier x (List.mem_of_getElem? (i := i) ?_)
          rw [List.getElem?_take_of_lt hlt]
          exact hxold
    · rcases getElem?_set_task hx with ⟨rfl, -⟩ | ⟨-, hxold⟩
      · have hended := h.turn i j old y hlt ht hyold hyactive
        rw [hpending] at hended
        cases hended
      · exact h.turn i j x y hlt hxold hyold hyactive
  · intro i x b hx hxpending hxbatch
    rcases getElem?_set_task hx with ⟨-, rfl⟩ | ⟨-, hold⟩
    · exact h.owned t old b ht hpending (hbatch ▸ hxbatch)
    · exact h.owned i x b hold hxpending hxbatch

/-- The batches change, and those of the ops under way stay active. -/
theorem TurnInv.setBatches (h : TurnInv s) {batches : List RowBatch}
    (hone : ∀ (b : Nat) (batch : RowBatch), batches[b]? = some batch → batch.instance_ = 0)
    (howned : ∀ (b : Nat) (old : RowBatch), s.batches[b]? = some old → old.active = true →
      s.batchOp b (·.phase.pending) = true → ∃ batch, batches[b]? = some batch ∧
        batch.active = true) :
    TurnInv { s with batches := batches } := by
  refine ⟨h.oneProcess, hone, h.turn, ?_⟩
  intro t task b ht hpending hbatch
  rcases h.owned t task b ht hpending hbatch with ⟨old, hold, hactive⟩
  refine howned b old hold hactive ?_
  refine List.any_eq_true.2 ⟨task, List.mem_of_getElem? ht, ?_⟩
  simp [hbatch, hpending]

theorem TurnInv.updateBatch (h : TurnInv s) {b : Nat} {f : RowBatch → RowBatch}
    (hf : ∀ batch : RowBatch, (f batch).instance_ = batch.instance_)
    (hactive : ∀ batch : RowBatch, batch.active = true → s.batchOp b (·.phase.pending) = true →
      (f batch).active = true) :
    TurnInv { s with batches := updateBatch s.batches b f } := by
  refine h.setBatches ?_ ?_
  · intro i batch hbatch
    rcases getElem?_updateBatch hbatch with ⟨old, hold, rfl⟩
    split
    · exact (hf old).trans (h.oneProcessBatch i old hold)
    · exact h.oneProcessBatch i old hold
  · intro i old hold hwas hop
    refine ⟨if i = b then f old else old, ?_, ?_⟩
    · rw [Server.updateBatch, List.getElem?_mapIdx, hold]
      rfl
    · split
      · rename_i heq
        exact hactive old hwas (heq ▸ hop)
      · exact hwas

/-- Whose the batch is, and whether it is under way. -/
def RowBatch.owner (batch : RowBatch) : Nat × Bool :=
  (batch.instance_, batch.active)

/-- What a batch is told of the row leaves it active. -/
theorem TurnInv.tellBatches (h : TurnInv s) {batches : List RowBatch}
    (htold : ∀ b : Nat, (batches[b]?).map RowBatch.owner = (s.batches[b]?).map RowBatch.owner) :
    TurnInv { s with batches := batches } := by
  refine h.setBatches ?_ ?_
  · intro b batch hbatch
    have htold' := htold b
    rw [hbatch, Option.map_some, eq_comm, Option.map_eq_some_iff] at htold'
    rcases htold' with ⟨old, hold, heq⟩
    exact (congrArg Prod.fst heq).symm.trans (h.oneProcessBatch b old hold)
  · intro b old hold hactive _
    have htold' := htold b
    rw [hold, Option.map_some, Option.map_eq_some_iff] at htold'
    rcases htold' with ⟨batch, hbatch, heq⟩
    exact ⟨batch, hbatch, (congrArg Prod.snd heq).trans hactive⟩

theorem told_cacheRow (batches : List RowBatch) (task : OpTask) (existing : ExistingRow) (b : Nat) :
    ((cacheRow batches task existing)[b]?).map RowBatch.owner =
      (batches[b]?).map RowBatch.owner := by
  rw [cacheRow, List.getElem?_mapIdx, Option.map_map]
  congr 1
  funext batch
  simp only [Function.comp_apply]
  split <;> rfl

theorem told_markStale (batches : List RowBatch) (task : OpTask) (b : Nat) :
    ((markStale batches task)[b]?).map RowBatch.owner =
      (batches[b]?).map RowBatch.owner := by
  rw [markStale, List.getElem?_mapIdx, Option.map_map]
  congr 1
  funext batch
  simp only [Function.comp_apply]
  split <;> rfl

theorem TurnInv.start : TurnInv CasState.start := by
  refine ⟨?_, ?_, ?_, ?_⟩ <;> simp [CasState.start]

theorem TurnInv.step (h : TurnInv s) {e : CasEvent} (horder : InMessageOrder s e)
    (hs : CasStep ops policy s e s') : TurnInv s' := by
  cases hs with
  | startBatch i =>
      have hnew : i = 0 := horder
      refine h.setBatches ?_ fun b old hold hactive _ => ⟨old, ?_, hactive⟩
      · intro b batch hbatch
        rcases getElem?_append_singleton hbatch with hold | ⟨-, rfl⟩
        · exact h.oneProcessBatch b batch hold
        · exact hnew
      · rw [List.getElem?_append_left (List.getElem?_eq_some_iff.1 hold).1]
        exact hold
  | prefetch b => exact h.updateBatch (fun _ => rfl) fun _ hactive _ => hactive
  | setPrefetched b => exact h.updateBatch (fun _ => rfl) fun _ hactive _ => hactive
  | finishBatch b =>
      refine h.updateBatch (fun _ => rfl) fun _ _ hop => ?_
      have hnone : s.batchOp b (·.phase.pending) = false := horder
      rw [hnone] at hop
      cases hop
  | startOp i batch incoming =>
      have hone : i = 0 ∧ ∀ b, batch = some b → (s.batches[b]?.any (·.active)) = true := by
        cases batch with
        | none => exact ⟨horder, by simp⟩
        | some b => exact ⟨horder.1, fun b' hb' => by cases hb'; exact horder.2.1⟩
      refine ⟨?_, h.oneProcessBatch, ?_, ?_⟩
      · intro t task ht
        rcases getElem?_append_singleton ht with hold | ⟨-, rfl⟩
        · exact h.oneProcess t task hold
        · exact hone.1
      · intro t t' task task' hlt ht ht' hactive
        rcases getElem?_append_singleton ht' with hold' | ⟨-, rfl⟩
        · rcases getElem?_append_singleton ht with hold | ⟨rfl, -⟩
          · exact h.turn t t' task task' hlt hold hold' hactive
          · exact absurd (List.getElem?_eq_some_iff.1 hold').1 (Nat.lt_asymm hlt)
        · cases hactive
      · intro t task b ht hpending hbatch
        rcases getElem?_append_singleton ht with hold | ⟨-, rfl⟩
        · exact h.owned t task b hold hpending hbatch
        · rcases (Option.any_eq_true _ _).1 (hone.2 b hbatch) with ⟨found, hfound, hactive⟩
          exact ⟨found, hfound, hactive⟩
  | @dequeue t task ht hphase hfirst =>
      refine h.setTask ht (by rw [hphase]; rfl) rfl rfl fun _ => Or.inr fun other hother => ?_
      rcases hfirst other hother with hne | hended
      · rcases List.mem_iff_getElem?.1 (List.mem_of_mem_take hother) with ⟨i, hi⟩
        exact absurd ((h.oneProcess i other hi).trans (h.oneProcess t task ht).symm) hne
      · exact hended
  | readCached payload ht hphase hcached =>
      exact h.setTask ht (by rw [hphase]; rfl) rfl rfl fun _ => Or.inl (by rw [hphase]; rfl)
  | readStored payload ht hphase =>
      exact h.setTask ht (by rw [hphase]; rfl) rfl rfl fun _ => Or.inl (by rw [hphase]; rfl)
  | @resolve t attempt task existing ht hphase =>
      have htold : TurnInv { s with
          batches := if attempt = 0 then cacheRow s.batches task existing else s.batches } := by
        refine h.tellBatches fun b => ?_
        split
        · exact told_cacheRow _ _ _ _
        · rfl
      exact htold.setTask ht (by rw [hphase]; rfl) rfl rfl fun _ => Or.inl (by rw [hphase]; rfl)
  | refuse ht hphase =>
      exact h.setTask ht (by rw [hphase]; rfl) rfl rfl fun _ => Or.inl (by rw [hphase]; rfl)
  | throw ht hactive =>
      exact h.setTask ht (pending_of_active hactive) rfl rfl fun _ => Or.inl hactive
  | lost answered ht hphase =>
      exact h.setTask ht (by rw [hphase]; rfl) rfl rfl fun _ => Or.inl (by rw [hphase]; rfl)
  | @write t answered task existing s' hw =>
      rcases hw.resolved with ⟨attempt, hphase⟩
      have hended : TurnInv (s.setTask t task (if answered then .accepted else .failed)) :=
        h.setTask hw.found (by rw [hphase]; rfl) rfl rfl fun _ => Or.inl (by rw [hphase]; rfl)
      rw [hw.after]
      have htold : ∀ b : Nat, ((if answered then recordBatchWrite s.batches task
          ((resolveConflict ops policy task.incoming existing).cached task.incoming.hlc)
          else s.batches)[b]?).map RowBatch.owner = (s.batches[b]?).map RowBatch.owner := by
        intro b
        split
        · exact (told_cacheRow _ _ _ _).trans (told_markStale _ _ _)
        · rfl
      have hnow := hended.tellBatches htold
      exact ⟨hnow.oneProcess, hnow.oneProcessBatch, hnow.turn, hnow.owned⟩

/-! ## What was read is up to date -/

/-- The row is the stored one; a batch keeps the HLC and the clocks of a delete. -/
def UpToDate (existing : ExistingRow) (stored : Option StoredRow) : Prop :=
  existing = getRow stored ∨ (stored = none ∧ existing.row = none ∧ existing.rowHlc.isSome)

theorem upToDate_cached (result : ConflictResult) (hlc : Hlc) :
    UpToDate (result.cached hlc) (result.stored hlc) := by
  cases hrow : result.resolvedRow with
  | none =>
      refine Or.inr ⟨?_, hrow, rfl⟩
      rw [ConflictResult.stored, hrow]
      rfl
  | some row =>
      refine Or.inl ?_
      rw [ConflictResult.cached, ConflictResult.stored, hrow]
      rfl

/-- Where no write has come that the batches were not told of, what an op goes by is up to date, and
so is what a batch under way keeps, unless it is stale. -/
structure FreshInv (s : ProcessState) : Prop where
  task : ∀ (t : Nat) (task : OpTask) (existing : ExistingRow), s.cas.tasks[t]? = some task →
    task.phase.known = some existing → s.outdated.task t = false → UpToDate existing s.cas.stored
  cached : ∀ (b : Nat) (batch : RowBatch) (existing : ExistingRow),
    s.cas.batches[b]? = some batch → batch.active = true → batch.stale = false →
    s.outdated.cached b = false → batch.cached = some existing → UpToDate existing s.cas.stored
  prefetched : ∀ (b : Nat) (batch : RowBatch) (existing : ExistingRow),
    s.cas.batchOp b (fun _ => true) = false → s.cas.batches[b]? = some batch →
    batch.active = true → batch.stale = false → s.outdated.prefetched b = false →
    batch.prefetched = some existing → UpToDate existing s.cas.stored

theorem batchOp_true_iff {b : Nat} :
    s.batchOp b (fun _ => true) = true ↔ ∃ task ∈ s.tasks, task.batch = some b := by
  simp [CasState.batchOp]

/-- An op keeps its batch. -/
theorem batchOp_setTask {t : Nat} {old task : OpTask} {phase : OpPhase}
    (ht : s.tasks[t]? = some old) (hbatch : task.batch = old.batch) (b : Nat)
    (h : (s.setTask t task phase).batchOp b (fun _ => true) = false) :
    s.batchOp b (fun _ => true) = false := by
  refine Bool.eq_false_iff.2 fun htrue => Bool.eq_false_iff.1 h ?_
  rcases batchOp_true_iff.1 htrue with ⟨x, hx, hxbatch⟩
  rcases List.mem_iff_getElem?.1 hx with ⟨i, hi⟩
  refine batchOp_true_iff.2 ?_
  by_cases heq : i = t
  · subst heq
    obtain rfl : x = old := Option.some.inj (hi.symm.trans ht)
    exact ⟨{ task with phase := phase }, List.mem_of_getElem? (List.getElem?_set_self
      (List.getElem?_eq_some_iff.1 ht).1), hbatch.trans hxbatch⟩
  · exact ⟨x, List.mem_of_getElem? (getElem?_set_other hi heq), hxbatch⟩

section Freshness

variable {p : ProcessState}

/-- An op goes on, and what it goes by then is up to date if it is not marked. -/
theorem FreshInv.setTask (h : FreshInv p) {t : Nat} {old : OpTask} (task : OpTask)
    {phase : OpPhase}
    (ht : p.cas.tasks[t]? = some old) (hbatch : task.batch = old.batch) (marks : Outdated)
    {answers : List (OpRef × RowAnswer)} (hcached : marks.cached = p.outdated.cached)
    (hprefetched : marks.prefetched = p.outdated.prefetched)
    (hothers : ∀ i, i ≠ t → marks.task i = p.outdated.task i)
    (hknown : ∀ existing, phase.known = some existing → marks.task t = false →
      UpToDate existing p.cas.stored) :
    FreshInv
      { p with cas := p.cas.setTask t task phase, outdated := marks, answers := answers } := by
  refine ⟨?_, ?_, ?_⟩
  · intro i x existing hx hxknown hmark
    rcases getElem?_set_task hx with ⟨rfl, rfl⟩ | ⟨hne, hold⟩
    · exact hknown existing hxknown hmark
    · exact h.task i x existing hold hxknown (hothers i hne ▸ hmark)
  · intro b batch existing hb hactive hstale hmark hrow
    refine h.cached b batch existing hb hactive hstale ?_ hrow
    exact hcached ▸ hmark
  · intro b batch existing hop hb hactive hstale hmark hrow
    refine h.prefetched b batch existing (batchOp_setTask ht hbatch b hop) hb hactive hstale ?_ hrow
    exact hprefetched ▸ hmark

/-- The op's batch keeps the row that the op goes by, with its mark. -/
theorem FreshInv.cacheRow (h : FreshInv p) {t : Nat} {task : OpTask} {existing : ExistingRow}
    (ht : p.cas.tasks[t]? = some task) (hknown : task.phase.known = some existing) :
    FreshInv { p with
      cas := { p.cas with batches := cacheRow p.cas.batches task existing }
      outdated := p.outdated.setCached task.batch (p.outdated.task t) } := by
  have hmarks : ∀ b, task.batch ≠ some b →
      (p.outdated.setCached task.batch (p.outdated.task t)).cached b = p.outdated.cached b := by
    intro b hne
    cases hbatch : task.batch with
    | none => rfl
    | some own =>
        have hother : b ≠ own := fun heq => hne (by rw [hbatch, heq])
        exact Function.update_of_ne hother _ _
  have htasks : (p.outdated.setCached task.batch (p.outdated.task t)).task = p.outdated.task := by
    cases task.batch <;> rfl
  have hprefetched : (p.outdated.setCached task.batch (p.outdated.task t)).prefetched =
      p.outdated.prefetched := by
    cases task.batch <;> rfl
  refine ⟨?_, ?_, ?_⟩
  · intro i x row hx hxknown hmark
    exact h.task i x row hx hxknown (htasks ▸ hmark)
  · intro b batch row hb hactive hstale hmark hrow
    rcases getElem?_cacheRow hb with ⟨oldBatch, hold, rfl⟩
    by_cases hown : task.batch = some b
    · rw [if_pos hown] at hrow
      have hmark' : p.outdated.task t = false := by
        simpa [Outdated.setCached, hown] using hmark
      have heq : existing = row := Option.some.inj hrow
      exact heq ▸ h.task t task existing ht hknown hmark'
    · rw [if_neg hown] at hactive hstale hrow
      exact h.cached b oldBatch row hold hactive hstale ((hmarks b hown) ▸ hmark) hrow
  · intro b batch row hop hb hactive hstale hmark hrow
    rcases getElem?_cacheRow hb with ⟨oldBatch, hold, rfl⟩
    by_cases hown : task.batch = some b
    · -- The op's own batch has an op.
      have htrue := batchOp_true_iff.2 ⟨task, List.mem_of_getElem? ht, hown⟩
      have hnone : p.cas.batchOp b (fun _ => true) = false := hop
      rw [hnone] at htrue
      cases htrue
    · rw [if_neg hown] at hactive hstale hrow
      exact h.prefetched b oldBatch row hop hold hactive hstale (hprefetched ▸ hmark) hrow

/-! ### What is observed of a client step -/

theorem observe_readCached {t : Nat} {task : OpTask} {cached : ExistingRow} {cas : CasState}
    {payload : Option Row} (ht : p.cas.tasks[t]? = some task) (hphase : task.phase = .reading 0)
    (hhit : p.cas.cachedFor task = some cached) :
    observe ops policy p cas (.read t payload) = { p with
      cas := cas
      outdated := p.outdated.setTask t ((task.batch.map p.outdated.cached).getD false)
      answers := p.answers ++
        rejection t (resolveConflict ops policy (task.enforced payload).incoming cached) } := by
  simp only [observe, ht, hphase, hhit]

theorem observe_readStored {t attempt : Nat} {task : OpTask} {cas : CasState}
    {payload : Option Row} (ht : p.cas.tasks[t]? = some task)
    (hphase : task.phase = .reading attempt) (hmiss : attempt = 0 → p.cas.cachedFor task = none) :
    observe ops policy p cas (.read t payload) =
      { p with cas := cas, outdated := p.outdated.setTask t false } := by
  simp only [observe, ht, hphase]
  cases attempt with
  | zero =>
      rw [hmiss rfl]
      rfl
  | succ attempt => rfl

theorem observe_resolve {t attempt : Nat} {task : OpTask} {existing : ExistingRow} {cas : CasState}
    (ht : p.cas.tasks[t]? = some task) (hphase : task.phase = .fetched attempt existing) :
    observe ops policy p cas (.resolve t) = { p with
      cas := cas
      outdated :=
        if attempt = 0 then p.outdated.setCached task.batch (p.outdated.task t) else p.outdated
      answers := p.answers ++
        rejection t (resolveConflict ops policy task.incoming existing) } := by
  simp only [observe, ht, hphase]

theorem observe_lost {t : Nat} {answered : Bool} {task : OpTask} {phase : OpPhase} :
    observe ops policy p (p.cas.setTask t task phase) (.write t answered) =
      { p with cas := p.cas.setTask t task phase } :=
  if_pos rfl

theorem observe_write {t : Nat} {answered : Bool} {task : OpTask} {existing : ExistingRow}
    {cas : CasState} (hw : WriteStep ops policy p.cas t answered task existing cas) :
    observe ops policy p cas (.write t answered) =
      if answered then
        { p with
          cas := cas
          outdated := p.outdated.setCached task.batch false
          answers := p.answers ++ [(.client t, .accepted)] }
      else { p with cas := cas, outdated := .all } := by
  have hlength : cas.writes.length ≠ p.cas.writes.length := by
    rw [hw.after]
    simp
  have hfound := hw.found
  simp only [observe, if_neg hlength, hfound, Option.bind_some]

theorem cachedFor_eq_some {task : OpTask} {cached : ExistingRow}
    (h : s.cachedFor task = some cached) : ∃ b batch, task.batch = some b ∧
      s.batches[b]? = some batch ∧ batch.stale = false ∧ batch.cached = some cached := by
  rcases Option.bind_eq_some_iff.1 h with ⟨batch, hbatch, hrow⟩
  rcases Option.bind_eq_some_iff.1 hbatch with ⟨b, hb, hget⟩
  rcases Option.ite_none_left_eq_some.1 hrow with ⟨hstale, hcached⟩
  exact ⟨b, batch, hb, hget, by simpa using hstale, hcached⟩

/-- The write of a client op: the other ops go by nothing, the other batches are stale. -/
theorem freshInv_write (hturn : TurnInv p.cas) {t : Nat} {answered : Bool}
    {task : OpTask} {existing : ExistingRow} {cas : CasState}
    (hw : WriteStep ops policy p.cas t answered task existing cas) :
    FreshInv (observe ops policy p cas (.write t answered)) := by
  rw [observe_write hw]
  cases answered with
  | false => refine ⟨?_, ?_, ?_⟩ <;> simp [Outdated.all]
  | true =>
      rcases hw.resolved with ⟨attempt, hphase⟩
      have hactive : task.phase.active = true := by rw [hphase]; rfl
      have hfound := hw.found
      rw [if_pos rfl, hw.after]
      refine ⟨?_, ?_, ?_⟩
      · intro i x row hx hxknown _
        rcases getElem?_set_task hx with ⟨rfl, rfl⟩ | ⟨hne, hold⟩
        · cases hxknown
        · -- Two ops under way at once.
          have hxactive := OpPhase.active_of_known hxknown
          rcases Nat.lt_or_gt_of_ne hne with hlt | hgt
          · have hended := hturn.turn i t x task hlt hold hfound hactive
            rw [pending_of_active hxactive] at hended
            cases hended
          · have hended := hturn.turn t i task x hgt hfound hold hxactive
            rw [pending_of_active hactive] at hended
            cases hended
      · intro b batch row hb hbactive hstale _ hrow
        rcases getElem?_cacheRow hb with ⟨marked, hmarked, rfl⟩
        rcases getElem?_markStale hmarked with ⟨oldBatch, hold, rfl⟩
        by_cases hown : task.batch = some b
        · rw [if_pos hown] at hrow
          exact Option.some.inj hrow ▸ upToDate_cached _ _
        · -- A batch under way has been told.
          rw [if_neg hown] at hbactive hstale
          have hone : oldBatch.instance_ = task.instance_ :=
            (hturn.oneProcessBatch b oldBatch hold).trans (hturn.oneProcess t task hfound).symm
          split at hstale
          · cases hstale
          · rename_i hnot
            rw [if_neg hnot] at hbactive
            exact absurd ⟨hbactive, hone, hown⟩ hnot
      · intro b batch row hop hb hbactive hstale _ hrow
        rcases getElem?_cacheRow hb with ⟨marked, hmarked, rfl⟩
        rcases getElem?_markStale hmarked with ⟨oldBatch, hold, rfl⟩
        by_cases hown : task.batch = some b
        · have hnone : p.cas.batchOp b (fun _ => true) = false := batchOp_setTask hfound rfl b hop
          have htrue := batchOp_true_iff.2 ⟨task, List.mem_of_getElem? hfound, hown⟩
          rw [hnone] at htrue
          cases htrue
        · rw [if_neg hown] at hbactive hstale
          have hone : oldBatch.instance_ = task.instance_ :=
            (hturn.oneProcessBatch b oldBatch hold).trans (hturn.oneProcess t task hfound).symm
          split at hstale
          · cases hstale
          · rename_i hnot
            rw [if_neg hnot] at hbactive
            exact absurd ⟨hbactive, hone, hown⟩ hnot

theorem afterRead_known {task : OpTask} {attempt : Nat} {existing row : ExistingRow}
    (h : (afterRead ops policy task attempt existing).known = some row) : row = existing := by
  rw [afterRead] at h
  split at h
  · exact (Option.some.inj h).symm
  · cases h

theorem FreshInv.client (h : FreshInv p) (hturn : TurnInv p.cas) {e : CasEvent} {cas : CasState}
    (horder : InMessageOrder p.cas e) (hs : CasStep ops policy p.cas e cas) :
    FreshInv (observe ops policy p cas e) := by
  cases hs with
  | startBatch i =>
      refine ⟨h.task, ?_, ?_⟩
      · intro b batch row hb hactive hstale hmark hrow
        rcases getElem?_append_singleton hb with hold | ⟨-, rfl⟩
        · exact h.cached b batch row hold hactive hstale hmark hrow
        · cases hrow
      · intro b batch row hop hb hactive hstale hmark hrow
        rcases getElem?_append_singleton hb with hold | ⟨-, rfl⟩
        · exact h.prefetched b batch row hop hold hactive hstale hmark hrow
        · cases hrow
  | prefetch b =>
      refine ⟨h.task, ?_, ?_⟩
      · intro i batch row hb hactive hstale hmark hrow
        rcases getElem?_updateBatch hb with ⟨old, hold, rfl⟩
        split at hrow <;> rename_i heq
        · rw [if_pos heq] at hactive hstale
          exact h.cached i old row hold hactive hstale hmark hrow
        · rw [if_neg heq] at hactive hstale
          exact h.cached i old row hold hactive hstale hmark hrow
      · intro i batch row hop hb hactive hstale hmark hrow
        rcases getElem?_updateBatch hb with ⟨old, hold, rfl⟩
        split at hrow <;> rename_i heq
        · exact Or.inl (Option.some.inj hrow).symm
        · rw [if_neg heq] at hactive hstale
          refine h.prefetched i old row hop hold hactive hstale ?_ hrow
          simpa [observe, Function.update_of_ne heq] using hmark
  | setPrefetched b =>
      have hnoOp : p.cas.batchOp b (fun _ => true) = false := horder
      rw [observe]
      split
      · -- The prefetch has read the row.
        rename_i hread
        refine ⟨h.task, ?_, ?_⟩
        · intro i batch row hb hactive hstale hmark hrow
          rcases getElem?_updateBatch hb with ⟨old, hold, rfl⟩
          split at hrow <;> rename_i heq
          · subst heq
            rw [if_pos rfl] at hactive hstale
            rw [hold, Option.bind_some] at hread
            rcases Option.isSome_iff_exists.1 hread with ⟨pre, hpre⟩
            have hrow' : old.prefetched.or old.cached = some row := hrow
            rw [hpre] at hrow'
            refine h.prefetched i old row hnoOp hold hactive hstale ?_ (hpre.trans hrow')
            simpa [Outdated.setCached] using hmark
          · rw [if_neg heq] at hactive hstale
            refine h.cached i old row hold hactive hstale ?_ hrow
            simpa [Outdated.setCached, Function.update_of_ne heq] using hmark
        · intro i batch row hop hb hactive hstale hmark hrow
          rcases getElem?_updateBatch hb with ⟨old, hold, rfl⟩
          refine h.prefetched i old row hop hold ?_ ?_ hmark ?_
          · split at hactive <;> exact hactive
          · split at hstale <;> exact hstale
          · split at hrow <;> exact hrow
      · rename_i hunread
        refine ⟨h.task, ?_, ?_⟩
        · intro i batch row hb hactive hstale hmark hrow
          rcases getElem?_updateBatch hb with ⟨old, hold, rfl⟩
          split at hrow <;> rename_i heq
          · subst heq
            rw [if_pos rfl] at hactive hstale
            rw [hold, Option.bind_some, Bool.not_eq_true, Option.isSome_eq_false_iff,
              Option.isNone_iff_eq_none] at hunread
            have hrow' : old.prefetched.or old.cached = some row := hrow
            rw [hunread] at hrow'
            exact h.cached i old row hold hactive hstale hmark hrow'
          · rw [if_neg heq] at hactive hstale
            exact h.cached i old row hold hactive hstale hmark hrow
        · intro i batch row hop hb hactive hstale hmark hrow
          rcases getElem?_updateBatch hb with ⟨old, hold, rfl⟩
          refine h.prefetched i old row hop hold ?_ ?_ hmark ?_
          · split at hactive <;> exact hactive
          · split at hstale <;> exact hstale
          · split at hrow <;> exact hrow
  | finishBatch b =>
      refine ⟨h.task, ?_, ?_⟩
      · intro i batch row hb hactive hstale hmark hrow
        rcases getElem?_updateBatch hb with ⟨old, hold, rfl⟩
        split at hactive <;> rename_i heq
        · cases hactive
        · rw [if_neg heq] at hstale hrow
          exact h.cached i old row hold hactive hstale hmark hrow
      · intro i batch row hop hb hactive hstale hmark hrow
        rcases getElem?_updateBatch hb with ⟨old, hold, rfl⟩
        split at hactive <;> rename_i heq
        · cases hactive
        · rw [if_neg heq] at hstale hrow
          exact h.prefetched i old row hop hold hactive hstale hmark hrow
  | startOp i batch incoming =>
      refine ⟨?_, h.cached, ?_⟩
      · intro t task row ht hknown hmark
        rcases getElem?_append_singleton ht with hold | ⟨-, rfl⟩
        · exact h.task t task row hold hknown hmark
        · cases hknown
      · intro b batch row hop hb hactive hstale hmark hrow
        refine h.prefetched b batch row (Bool.eq_false_iff.2 fun htrue => ?_) hb hactive hstale
          hmark hrow
        rcases batchOp_true_iff.1 htrue with ⟨task, htask, hbatch⟩
        exact Bool.eq_false_iff.1 hop
          (batchOp_true_iff.2 ⟨task, List.mem_append_left _ htask, hbatch⟩)
  | dequeue ht hphase =>
      exact h.setTask _ ht rfl p.outdated rfl rfl (fun _ _ => rfl) fun _ hknown => by cases hknown
  | @readCached t task cached payload ht hphase hhit =>
      rcases cachedFor_eq_some hhit with ⟨b, batch, hbatch, hget, hstale, hcached⟩
      rcases hturn.owned t task b ht (by rw [hphase]; rfl) hbatch with ⟨batch', hget', hactive⟩
      obtain rfl : batch = batch' := Option.some.inj (hget.symm.trans hget')
      rw [observe_readCached ht hphase hhit]
      refine h.setTask (task.enforced payload) ht rfl (p.outdated.setTask t _) rfl rfl
        (fun i hne => Function.update_of_ne hne _ _) ?_
      intro row hknown hmark
      rw [afterRead_known hknown]
      refine h.cached b batch cached hget hactive hstale ?_ hcached
      simpa [Outdated.setTask, hbatch] using hmark
  | @readStored t attempt task payload ht hphase hmiss =>
      rw [observe_readStored ht hphase hmiss]
      refine h.setTask (task.enforced payload) ht rfl (p.outdated.setTask t _) rfl rfl
        (fun i hne => Function.update_of_ne hne _ _) ?_
      intro row hknown _
      exact Or.inl (Option.some.inj hknown).symm
  | @resolve t attempt task existing ht hphase =>
      have hknown : task.phase.known = some existing := by rw [hphase]; rfl
      rw [observe_resolve ht hphase]
      split
      · have hcached := h.cacheRow ht hknown
        refine hcached.setTask _ ht rfl _ rfl rfl (fun _ _ => rfl) fun row hrow hmark => ?_
        rw [afterRead_known hrow]
        exact hcached.task t task existing ht hknown hmark
      · refine h.setTask _ ht rfl p.outdated rfl rfl (fun _ _ => rfl) fun row hrow hmark => ?_
        rw [afterRead_known hrow]
        exact h.task t task existing ht hknown hmark
  | refuse ht hphase =>
      exact h.setTask _ ht rfl p.outdated rfl rfl (fun _ _ => rfl) fun _ hknown => by cases hknown
  | throw ht hactive =>
      exact h.setTask _ ht rfl p.outdated rfl rfl (fun _ _ => rfl) fun _ hknown => by cases hknown
  | @lost t attempt task existing answered ht hphase =>
      rw [observe_lost]
      refine h.setTask _ ht rfl p.outdated rfl rfl (fun _ _ => rfl) fun row hknown => ?_
      rw [lostPhase] at hknown
      repeat' split at hknown
      all_goals cases hknown
  | write hw => exact freshInv_write hturn hw

end Freshness

/-! ## Results against what was read -/

/-- A row that was deleted, as a batch keeps it, gets the answer of an absent one. -/
theorem resolveConflict_deleted {incoming : ConflictInput} {existing : ExistingRow}
    (h : existing.row = none) :
    (resolveConflict ops policy incoming existing).accepted =
        (resolveConflict ops policy incoming (getRow none)).accepted ∧
      (resolveConflict ops policy incoming existing).reason =
        (resolveConflict ops policy incoming (getRow none)).reason := by
  have hversion : existing.version = none := by simp [ExistingRow.version, h]
  have hnone : (getRow none).version = none := rfl
  have hrow : (getRow none).row = none := rfl
  cases policy with
  | lww => simp [resolveConflict, resolveLww, hversion, hnone]
  | merge => simp [resolveConflict, resolveMerge, hversion, hnone]
  | server => simp [resolveConflict, resolveServer, h, hrow]
  | custom resolve => simp [resolveConflict, resolveCustom, h, hrow]
  | text text =>
      simp only [resolveConflict, resolveText, resolveLww, resolvePlain, resolveMerge, hversion,
        hnone, h, hrow]
      repeat' split
      all_goals exact ⟨rfl, rfl⟩

/-- Where a write takes effect and the op read an up-to-date row, it makes the same of the stored
one. -/
theorem resolveConflict_upToDate {incoming : ConflictInput} {existing : ExistingRow}
    {stored : Option StoredRow} (h : UpToDate existing stored)
    (hunmoved : policy.isObject = true → stored.map (·.hlc) = existing.rowHlc) :
    resolveConflict ops policy incoming existing =
      resolveConflict ops policy incoming (getRow stored) := by
  rcases h with rfl | ⟨rfl, hrow, hhlc⟩
  · rfl
  · have hversion : existing.version = none := by simp [ExistingRow.version, hrow]
    have hnone : (getRow none).version = none := rfl
    have habsent : (getRow none).row = none := rfl
    have hobject : policy.isObject = true → False := by
      intro hobject
      rw [← hunmoved hobject] at hhlc
      cases hhlc
    cases policy with
    | lww => simp only [resolveConflict, resolveLww, hversion, hnone]
    | merge => simp only [resolveConflict, resolveMerge, hversion, hnone]
    | server => simp only [resolveConflict, resolveServer, hrow, habsent]
    | custom resolve => exact absurd rfl hobject
    | text text => exact absurd rfl hobject

/-- `lww` and `server` accept no op that is older than the row. -/
theorem notOlder_of_accepted (hpolicy : policy.takesOlder = false) {incoming : ConflictInput}
    {existing : ExistingRow}
    (haccepted : (resolveConflict ops policy incoming existing).accepted = true) :
    NotOlder incoming existing := by
  cases policy with
  | lww =>
      cases hversion : existing.version with
      | none => exact .of_version_none hversion
      | some version =>
          rcases version with ⟨row, held⟩
          simp only [resolveConflict, resolveLww, hversion] at haccepted
          split at haccepted
          · rename_i hlt
            exact .of_version hversion (le_of_lt hlt)
          · simp [ConflictResult.reject] at haccepted
  | server =>
      intro hsome
      rcases Option.isSome_iff_exists.1 hsome with ⟨row, hrow⟩
      simp [resolveConflict, resolveServer, hrow, ConflictResult.reject] at haccepted
  | merge => cases hpolicy
  | custom resolve => cases hpolicy
  | text text => cases hpolicy

/-! ## The sequential order -/

/-- The row was stored at some point of the order. -/
def Seen (ops : TextOps) (policy : ConflictPolicy)
    (order : List (Lib.Turn (Option StoredRow) RowOp)) (existing : ExistingRow) : Prop :=
  ∃ stored, Lib.Passed (RowOp.run ops policy) none order stored ∧ UpToDate existing stored

def ServerPhase.pending : ServerPhase → Bool
  | .started => true
  | .executing _ _ => true
  | _ => false

/-- An order of the ops so far: what was read was stored at some point of it, and an op under way
has no answer. -/
structure OrderInv (ops : TextOps) (policy : ConflictPolicy) (s : ProcessState)
    (order : List (Lib.Turn (Option StoredRow) RowOp)) : Prop where
  inOrder : InOrder ops policy s order
  tasks : ∀ (t : Nat) (task : OpTask) (existing : ExistingRow), s.cas.tasks[t]? = some task →
    task.phase.known = some existing → Seen ops policy order existing
  resolved : ∀ (t : Nat) (task : OpTask) (attempt : Nat) (existing : ExistingRow),
    s.cas.tasks[t]? = some task → task.phase = .resolved attempt existing →
    (resolveConflict ops policy task.incoming existing).accepted = true
  batches : ∀ batch ∈ s.cas.batches,
    (∀ existing, batch.prefetched = some existing → Seen ops policy order existing) ∧
      ∀ existing, batch.cached = some existing → Seen ops policy order existing
  silent : ∀ (t : Nat) (task : OpTask), s.cas.tasks[t]? = some task → task.phase.pending = true →
    ∀ answer, (OpRef.client t, answer) ∉ s.answers
  silentServer : ∀ (t : Nat) (task : ServerTask), s.serverTasks[t]? = some task →
    task.phase.pending = true → ∀ answer, (OpRef.server t, answer) ∉ s.answers

section Orders

variable {p : ProcessState} {order order' : List (Lib.Turn (Option StoredRow) RowOp)}
  {existing : ExistingRow}

theorem Seen.mono (h : Seen ops policy order existing) (hsub : ∀ turn ∈ order, turn ∈ order') :
    Seen ops policy order' existing := by
  rcases h with ⟨stored, hpassed, hrow⟩
  exact ⟨stored, hpassed.mono hsub, hrow⟩

theorem OrderInv.seen_stored (h : OrderInv ops policy p order) :
    Seen ops policy order (getRow p.cas.stored) :=
  ⟨_, h.inOrder.serial.passed_last, Or.inl rfl⟩

/-- An op under way has no turn. -/
theorem OrderInv.ref_ne (h : OrderInv ops policy p order) {t : Nat} {task : OpTask}
    (ht : p.cas.tasks[t]? = some task) (hpending : task.phase.pending = true) :
    ∀ turn ∈ order, turn.op.ref ≠ .client t := by
  intro turn hturn href
  have hof := h.inOrder.origin turn hturn
  cases hop : turn.op with
  | server t' op hlc =>
      rw [hop] at href
      cases href
  | client t' incoming =>
      rw [hop] at href hof
      cases href
      rcases hof with ⟨task', ht', -, hfailed | ⟨answer, hanswer⟩⟩
      · obtain rfl : task' = task := Option.some.inj (ht'.symm.trans ht)
        rw [hfailed] at hpending
        cases hpending
      · exact h.silent t task ht hpending answer hanswer

theorem OrderInv.serverRef_ne (h : OrderInv ops policy p order) {t : Nat} {task : ServerTask}
    (ht : p.serverTasks[t]? = some task) (hpending : task.phase.pending = true) :
    ∀ turn ∈ order, turn.op.ref ≠ .server t := by
  intro turn hturn href
  have hof := h.inOrder.origin turn hturn
  cases hop : turn.op with
  | client t' incoming =>
      rw [hop] at href
      cases href
  | server t' op hlc =>
      rw [hop] at href hof
      cases href
      rcases hof with ⟨task', ht', -, hfailed | ⟨row, hanswer⟩⟩
      · obtain rfl : task' = task := Option.some.inj (ht'.symm.trans ht)
        rw [hfailed] at hpending
        cases hpending
      · exact h.silentServer t task ht hpending _ hanswer

/-- A turn stays of its op while the op's task stays and the answers only grow. -/
theorem RowOp.Of.mono {q : ProcessState} {op : RowOp} (h : op.Of p)
    (hclient : ∀ (t : Nat) (task : OpTask), op.ref = .client t → p.cas.tasks[t]? = some task →
      q.cas.tasks[t]? = some task)
    (hserver : ∀ (t : Nat) (task : ServerTask), op.ref = .server t → p.serverTasks[t]? = some task →
      q.serverTasks[t]? = some task)
    (hanswers : ∀ answer ∈ p.answers, answer ∈ q.answers) : op.Of q := by
  cases op with
  | client t incoming =>
      rcases h with ⟨task, ht, hincoming, hend⟩
      refine ⟨task, hclient t task rfl ht, hincoming, hend.imp id ?_⟩
      rintro ⟨answer, hanswer⟩
      exact ⟨answer, hanswers _ hanswer⟩
  | server t op hlc =>
      rcases h with ⟨task, ht, hop, hend⟩
      refine ⟨task, hserver t task rfl ht, hop, hend.imp id ?_⟩
      rintro ⟨row, hanswer⟩
      exact ⟨row, hanswers _ hanswer⟩

/-- An op goes on without a turn and without an answer. -/
theorem OrderInv.setTask (h : OrderInv ops policy p order) {t : Nat} {old task : OpTask}
    {phase : OpPhase} (ht : p.cas.tasks[t]? = some old) (hpending : old.phase.pending = true)
    (hphase : phase ≠ .accepted)
    (hknown : ∀ existing, phase.known = some existing → Seen ops policy order existing)
    (hresolved : ∀ attempt existing, phase = .resolved attempt existing →
      (resolveConflict ops policy task.incoming existing).accepted = true) (marks : Outdated) :
    OrderInv ops policy { p with cas := p.cas.setTask t task phase, outdated := marks } order := by
  have hne := h.ref_ne ht hpending
  refine ⟨⟨h.inOrder.serial, h.inOrder.once, ?_, h.inOrder.answered, ?_, h.inOrder.done,
    h.inOrder.monotone⟩, ?_, ?_, h.batches, ?_, h.silentServer⟩
  · intro turn hturn
    refine (h.inOrder.origin turn hturn).mono ?_ (fun _ _ _ hx => hx) fun _ hanswer => hanswer
    intro i x href hx
    exact getElem?_set_other hx fun heq => hne turn hturn (heq ▸ href)
  · intro i x hx haccepted
    rcases getElem?_set_task hx with ⟨-, rfl⟩ | ⟨-, hold⟩
    · exact absurd haccepted hphase
    · exact h.inOrder.accepted i x hold haccepted
  · intro i x row hx hrow
    rcases getElem?_set_task hx with ⟨-, rfl⟩ | ⟨-, hold⟩
    · exact hknown row hrow
    · exact h.tasks i x row hold hrow
  · intro i x attempt row hx hrow
    rcases getElem?_set_task hx with ⟨-, rfl⟩ | ⟨-, hold⟩
    · exact hresolved attempt row hrow
    · exact h.resolved i x attempt row hold hrow
  · intro i x hx hxpending
    rcases getElem?_set_task hx with ⟨rfl, -⟩ | ⟨-, hold⟩
    · exact h.silent i old ht hpending
    · exact h.silent i x hold hxpending

theorem OrderInv.setBatches (h : OrderInv ops policy p order) {batches : List RowBatch}
    (hbatches : ∀ batch ∈ batches,
      (∀ existing, batch.prefetched = some existing → Seen ops policy order existing) ∧
        ∀ existing, batch.cached = some existing → Seen ops policy order existing)
    (marks : Outdated) :
    OrderInv ops policy { p with cas := { p.cas with batches := batches }, outdated := marks }
      order := by
  refine ⟨⟨h.inOrder.serial, h.inOrder.once, ?_, h.inOrder.answered, h.inOrder.accepted,
    h.inOrder.done, h.inOrder.monotone⟩, h.tasks, h.resolved, hbatches, h.silent, h.silentServer⟩
  intro turn hturn
  exact (h.inOrder.origin turn hturn).mono (fun _ _ _ hx => hx) (fun _ _ _ hx => hx)
    fun _ hanswer => hanswer

/-- An op takes a turn and ends. -/
theorem OrderInv.clientTurn (h : OrderInv ops policy p order) {t : Nat} {old task : OpTask}
    {phase : OpPhase} (ht : p.cas.tasks[t]? = some old) (hpending : old.phase.pending = true)
    {before : Option StoredRow} {stored : Option StoredRow}
    (hserial : Lib.Serial (RowOp.run ops policy) none order' stored)
    (hperm : order'.Perm (⟨.client t task.incoming, before⟩ :: order))
    (hended : phase.pending = false) (answers : List RowAnswer)
    (hanswers : ∀ answer ∈ answers,
      answer = (RowOp.client t task.incoming).answer ops policy before)
    (hanswered : phase = .failed ∨ ∃ answer, answer ∈ answers)
    (haccepted : phase = .accepted → .accepted ∈ answers)
    (hmonotone : ∀ r r', before = some r →
      (RowOp.client t task.incoming).run ops policy before = some r' → r.hlc ≤ r'.hlc)
    {batches : List RowBatch}
    (hbatches : ∀ batch ∈ batches,
      (∀ existing, batch.prefetched = some existing → Seen ops policy order' existing) ∧
        ∀ existing, batch.cached = some existing → Seen ops policy order' existing)
    (marks : Outdated) (writes : List RowWrite) :
    OrderInv ops policy { p with
      cas := ⟨stored, batches, p.cas.tasks.set t { task with phase := phase }, writes⟩
      outdated := marks
      answers := p.answers ++ answers.map fun answer => (.client t, answer) } order' := by
  have hne := h.ref_ne ht hpending
  have hmem : ∀ turn, turn ∈ order' ↔
      turn = ⟨.client t task.incoming, before⟩ ∨ turn ∈ order := by
    intro turn
    rw [hperm.mem_iff, List.mem_cons]
  have hself : (p.cas.tasks.set t { task with phase := phase })[t]? =
      some { task with phase := phase } :=
    List.getElem?_set_self (List.getElem?_eq_some_iff.1 ht).1
  have hmemAnswers : ∀ ref answer,
      (ref, answer) ∈ p.answers ++ answers.map (fun answer => (OpRef.client t, answer)) →
        (ref, answer) ∈ p.answers ∨ (ref = .client t ∧ answer ∈ answers) := by
    intro ref answer hanswer
    rcases List.mem_append.1 hanswer with hold | hnew
    · exact Or.inl hold
    · rcases List.mem_map.1 hnew with ⟨answer', hanswer', heq⟩
      cases heq
      exact Or.inr ⟨rfl, hanswer'⟩
  refine ⟨⟨hserial, ?_, ?_, ?_, ?_, ?_, ?_⟩, ?_, ?_, hbatches, ?_, ?_⟩
  · refine ((hperm.map _).nodup_iff).2 (List.nodup_cons.2 ⟨?_, h.inOrder.once⟩)
    rintro hin
    rcases List.mem_map.1 hin with ⟨turn, hturn, href⟩
    exact hne turn hturn href
  · intro turn hturn
    rcases (hmem turn).1 hturn with rfl | hold
    · refine ⟨_, hself, rfl, hanswered.imp id ?_⟩
      rintro ⟨answer, hanswer⟩
      exact ⟨answer, List.mem_append_right _ (List.mem_map.2 ⟨answer, hanswer, rfl⟩)⟩
    · refine (h.inOrder.origin turn hold).mono ?_ (fun _ _ _ hx => hx)
        fun _ hanswer => List.mem_append_left _ hanswer
      intro i x href hx
      exact getElem?_set_other hx fun heq => hne turn hold (heq ▸ href)
  · intro ref answer hanswer
    rcases hmemAnswers ref answer hanswer with hold | ⟨rfl, hnew⟩
    · rcases h.inOrder.answered ref answer hold with ⟨turn, hturn, hrest⟩
      exact ⟨turn, (hmem turn).2 (Or.inr hturn), hrest⟩
    · exact ⟨_, (hmem _).2 (Or.inl rfl), rfl, (hanswers answer hnew).symm⟩
  · intro i x hx hphase
    rcases getElem?_set_task hx with ⟨rfl, rfl⟩ | ⟨-, hold⟩
    · exact List.mem_append_right _ (List.mem_map.2 ⟨_, haccepted hphase, rfl⟩)
    · exact List.mem_append_left _ (h.inOrder.accepted i x hold hphase)
  · intro i x hx hdone
    rcases h.inOrder.done i x hx hdone with ⟨hlc, row, hanswer⟩
    exact ⟨hlc, row, List.mem_append_left _ hanswer⟩
  · intro turn hturn r r' hbefore hafter
    rcases (hmem turn).1 hturn with rfl | hold
    · exact hmonotone r r' hbefore hafter
    · exact h.inOrder.monotone turn hold r r' hbefore hafter
  · intro i x row hx hknown
    rcases getElem?_set_task hx with ⟨-, rfl⟩ | ⟨-, hold⟩
    · rw [pending_of_active (OpPhase.active_of_known hknown)] at hended
      cases hended
    · exact (h.tasks i x row hold hknown).mono fun turn hturn => (hmem turn).2 (Or.inr hturn)
  · intro i x attempt row hx hphase
    rcases getElem?_set_task hx with ⟨-, rfl⟩ | ⟨-, hold⟩
    · have hphase' : phase = .resolved attempt row := hphase
      rw [hphase'] at hended
      cases hended
    · exact h.resolved i x attempt row hold hphase
  · intro i x hx hxpending answer hanswer
    rcases getElem?_set_task hx with ⟨-, rfl⟩ | ⟨hother, hold⟩
    · have hphase : phase.pending = true := hxpending
      rw [hphase] at hended
      cases hended
    · rcases hmemAnswers _ answer hanswer with hin | ⟨heq, -⟩
      · exact h.silent i x hold hxpending answer hin
      · cases heq
        exact hother rfl
  · intro i x hx hxpending answer hanswer
    rcases hmemAnswers _ answer hanswer with hin | ⟨heq, -⟩
    · exact h.silentServer i x hx hxpending answer hin
    · cases heq

/-- An op that the conflict policy rejects takes its turn where the row that it read was stored. -/
theorem OrderInv.reject (h : OrderInv ops policy p order) {t : Nat} {old task : OpTask}
    (ht : p.cas.tasks[t]? = some old) (hpending : old.phase.pending = true)
    (hseen : Seen ops policy order existing)
    (hrejected : (resolveConflict ops policy task.incoming existing).accepted = false)
    (marks : Outdated) :
    ∃ order', OrderInv ops policy { p with
      cas := p.cas.setTask t task .rejected
      outdated := marks
      answers := p.answers ++
        [(.client t, .rejected (resolveConflict ops policy task.incoming existing).reason)] }
      order' := by
  rcases hseen with ⟨stored, hpassed, hrow⟩
  -- Against that row the op has the same answer.
  have hsame : (resolveConflict ops policy task.incoming (getRow stored)).accepted = false ∧
      (resolveConflict ops policy task.incoming (getRow stored)).reason =
        (resolveConflict ops policy task.incoming existing).reason := by
    rcases hrow with rfl | ⟨rfl, habsent, -⟩
    · exact ⟨hrejected, rfl⟩
    · rcases @resolveConflict_deleted ops policy task.incoming _ habsent with ⟨hacc, hreason⟩
      exact ⟨hacc.symm.trans hrejected, hreason.symm⟩
  have hrun : (RowOp.client t task.incoming).run ops policy stored = stored := by
    simp only [RowOp.run, RowOp.result, hsame.1]
    rfl
  rcases h.inOrder.serial.exists_insert hpassed hrun with ⟨xs, ys, rfl, hserial⟩
  refine ⟨_, h.clientTurn ht hpending hserial List.perm_middle rfl
    [.rejected (resolveConflict ops policy task.incoming existing).reason] ?_
    (Or.inr ⟨_, List.mem_singleton_self _⟩) (fun hphase => by cases hphase) ?_ ?_ marks
    p.cas.writes⟩
  · intro answer hanswer
    rw [List.mem_singleton.1 hanswer]
    simp only [RowOp.answer, RowOp.result, hsame.1, hsame.2]
    rfl
  · intro r r' hbefore hafter
    have hstay : stored = some r' := hrun.symm.trans hafter
    obtain rfl : r = r' := Option.some.inj (hbefore.symm.trans hstay)
    exact le_refl _
  · intro batch hbatch
    have hold := h.batches batch hbatch
    have hsub : ∀ turn ∈ xs ++ ys, turn ∈ xs ++ ⟨RowOp.client t task.incoming, stored⟩ :: ys := by
      intro turn hturn
      exact List.perm_middle.mem_iff.2 (List.mem_cons_of_mem _ hturn)
    exact ⟨fun row hrow => (hold.1 row hrow).mono hsub, fun row hrow => (hold.2 row hrow).mono hsub⟩

/-- An op reads a row and resolves against it. -/
theorem OrderInv.afterRead (h : OrderInv ops policy p order) {t attempt : Nat} {old task : OpTask}
    (ht : p.cas.tasks[t]? = some old) (hpending : old.phase.pending = true)
    (hseen : Seen ops policy order existing) (marks : Outdated) :
    ∃ order', OrderInv ops policy { p with
      cas := p.cas.setTask t task (afterRead ops policy task attempt existing)
      outdated := marks
      answers := p.answers ++ rejection t (resolveConflict ops policy task.incoming existing) }
      order' := by
  cases haccepted : (resolveConflict ops policy task.incoming existing).accepted with
  | true =>
      refine ⟨order, ?_⟩
      simp only [Server.afterRead, rejection, haccepted, if_true, List.append_nil]
      refine h.setTask ht hpending (by simp) (fun row hrow => ?_) (fun _ row hrow => ?_) marks
      · exact Option.some.inj hrow ▸ hseen
      · cases hrow
        exact haccepted
  | false =>
      simp only [Server.afterRead, rejection, haccepted, Bool.false_eq_true, if_false]
      exact h.reject ht hpending hseen haccepted marks

/-- What a batch keeps after a write was stored at some point of the order. -/
theorem seen_recordBatchWrite {batches : List RowBatch} {task : OpTask}
    (hbatches : ∀ batch ∈ batches,
      (∀ row, batch.prefetched = some row → Seen ops policy order row) ∧
        ∀ row, batch.cached = some row → Seen ops policy order row)
    (hseen : Seen ops policy order existing) :
    ∀ batch ∈ recordBatchWrite batches task existing,
      (∀ row, batch.prefetched = some row → Seen ops policy order row) ∧
        ∀ row, batch.cached = some row → Seen ops policy order row := by
  intro batch hbatch
  rcases List.mem_iff_getElem?.1 hbatch with ⟨i, hi⟩
  rcases getElem?_cacheRow hi with ⟨marked, hmarked, rfl⟩
  rcases getElem?_markStale hmarked with ⟨oldBatch, hold, hmarkedEq⟩
  have hkept := hbatches oldBatch (List.mem_of_getElem? hold)
  have hsame : marked.prefetched = oldBatch.prefetched ∧ marked.cached = oldBatch.cached := by
    rw [hmarkedEq]
    split <;> exact ⟨rfl, rfl⟩
  split
  · refine ⟨fun row hrow => hkept.1 row (hsame.1 ▸ hrow), fun row hrow => ?_⟩
    exact Option.some.inj hrow ▸ hseen
  · exact ⟨fun row hrow => hkept.1 row (hsame.1 ▸ hrow),
      fun row hrow => hkept.2 row (hsame.2 ▸ hrow)⟩

theorem seen_cacheRow {batches : List RowBatch} {task : OpTask}
    (hbatches : ∀ batch ∈ batches,
      (∀ row, batch.prefetched = some row → Seen ops policy order row) ∧
        ∀ row, batch.cached = some row → Seen ops policy order row)
    (hseen : Seen ops policy order existing) :
    ∀ batch ∈ cacheRow batches task existing,
      (∀ row, batch.prefetched = some row → Seen ops policy order row) ∧
        ∀ row, batch.cached = some row → Seen ops policy order row := by
  intro batch hbatch
  rcases List.mem_iff_getElem?.1 hbatch with ⟨i, hi⟩
  rcases getElem?_cacheRow hi with ⟨oldBatch, hold, rfl⟩
  have hkept := hbatches oldBatch (List.mem_of_getElem? hold)
  split
  · exact ⟨hkept.1, fun row hrow => Option.some.inj hrow ▸ hseen⟩
  · exact hkept

/-- An op that wrote makes the same of the stored row as of the row it read. -/
theorem OrderInv.result_eq (h : OrderInv ops policy p order) (hfresh : FreshInv p) {t : Nat}
    {answered : Bool} {task : OpTask} {cas : CasState}
    (hw : WriteStep ops policy p.cas t answered task existing cas)
    (hg : ProcessFits ops policy p (.client (.write t answered))) :
    resolveConflict ops policy task.incoming existing =
        resolveConflict ops policy task.incoming (getRow p.cas.stored) ∧
      (resolveConflict ops policy task.incoming (getRow p.cas.stored)).accepted = true ∧
      NotOlder task.incoming (getRow p.cas.stored) := by
  rcases hw.resolved with ⟨attempt, hphase⟩
  have hfits : ClientFits ops policy p t answered task attempt existing := by
    simpa only [ProcessFits, hw.found, hphase] using hg
  have hunmoved : ¬ (policy.isObject = true ∧ p.cas.stored.map (·.hlc) ≠ existing.rowHlc) :=
    fun hmoved => hmoved.2 (hw.unmoved hmoved.1)
  rw [ClientFits, if_neg hunmoved] at hfits
  have haccepted := h.resolved t task attempt existing hw.found hphase
  have hsame : resolveConflict ops policy task.incoming existing =
      resolveConflict ops policy task.incoming (getRow p.cas.stored) := by
    cases hmark : p.outdated.task t with
    | true => exact hfits.1 hmark
    | false =>
        have hknown : task.phase.known = some existing := by rw [hphase]; rfl
        exact resolveConflict_upToDate (hfresh.task t task existing hw.found hknown hmark)
          hw.unmoved
  rw [hsame] at haccepted
  refine ⟨hsame, haccepted, ?_⟩
  cases htakes : policy.takesOlder with
  | true => exact hfits.2 htakes
  | false => exact notOlder_of_accepted htakes haccepted

theorem OrderInv.write (h : OrderInv ops policy p order) (hfresh : FreshInv p) {t : Nat}
    {answered : Bool} {task : OpTask} {cas : CasState}
    (hw : WriteStep ops policy p.cas t answered task existing cas)
    (hg : ProcessFits ops policy p (.client (.write t answered))) :
    ∃ order', OrderInv ops policy (observe ops policy p cas (.write t answered)) order' := by
  rcases hw.resolved with ⟨attempt, hphase⟩
  rcases h.result_eq hfresh hw hg with ⟨hsame, haccepted, hnotOlder⟩
  have hpending : task.phase.pending = true := by rw [hphase]; rfl
  have hrun : (RowOp.client t task.incoming).run ops policy p.cas.stored =
      (resolveConflict ops policy task.incoming existing).stored task.incoming.hlc := by
    simp only [RowOp.run, RowOp.result, haccepted, if_true, hsame]
    rfl
  have hserial := h.inOrder.serial.concat (.client t task.incoming)
  have hperm : (order ++ [(⟨.client t task.incoming, p.cas.stored⟩ :
      Lib.Turn (Option StoredRow) RowOp)]).Perm
      (⟨.client t task.incoming, p.cas.stored⟩ :: order) :=
    List.perm_append_singleton _ _
  have hmonotone : ∀ r r', p.cas.stored = some r →
      (RowOp.client t task.incoming).run ops policy p.cas.stored = some r' → r.hlc ≤ r'.hlc := by
    intro r r' hbefore hafter
    rw [hrun] at hafter
    rcases Option.map_eq_some_iff.1 hafter with ⟨row, -, rfl⟩
    rw [hbefore] at hnotOlder
    exact hnotOlder rfl r.hlc rfl
  have hsub : ∀ turn ∈ order, turn ∈ order ++ [⟨.client t task.incoming, p.cas.stored⟩] :=
    fun turn hturn => List.mem_append_left _ hturn
  have hold : ∀ batch ∈ p.cas.batches,
      (∀ row, batch.prefetched = some row →
        Seen ops policy (order ++ [⟨.client t task.incoming, p.cas.stored⟩]) row) ∧
      ∀ row, batch.cached = some row →
        Seen ops policy (order ++ [⟨.client t task.incoming, p.cas.stored⟩]) row :=
    fun batch hbatch => ⟨fun row hrow => ((h.batches batch hbatch).1 row hrow).mono hsub,
      fun row hrow => ((h.batches batch hbatch).2 row hrow).mono hsub⟩
  rw [hrun] at hserial
  refine ⟨order ++ [⟨.client t task.incoming, p.cas.stored⟩], ?_⟩
  rw [observe_write hw, hw.after]
  cases answered with
  | true =>
      refine h.clientTurn hw.found hpending hserial hperm rfl [.accepted] ?_
        (Or.inr ⟨_, List.mem_singleton_self _⟩) (fun _ => List.mem_singleton_self _) hmonotone
        (seen_recordBatchWrite hold ?_) _ _
      · intro answer hanswer
        rw [List.mem_singleton.1 hanswer]
        simp only [RowOp.answer, RowOp.result, haccepted, if_true]
      · exact ⟨_, hserial.passed_last, upToDate_cached _ _⟩
  | false =>
      have hended : OpPhase.failed.pending = false := rfl
      have hturn := h.clientTurn hw.found hpending hserial hperm hended [] (by simp) (Or.inl rfl)
        (fun hphase => by cases hphase) hmonotone hold Outdated.all
        (p.cas.writes ++ [⟨t, task.incoming, resolveConflict ops policy task.incoming existing,
          p.cas.stored⟩])
      simpa using hturn

theorem OrderInv.seen_cachedFor (h : OrderInv ops policy p order) {task : OpTask}
    (hhit : p.cas.cachedFor task = some existing) : Seen ops policy order existing := by
  rcases cachedFor_eq_some hhit with ⟨b, batch, -, hget, -, hcached⟩
  exact (h.batches batch (List.mem_of_getElem? hget)).2 existing hcached

/-- One batch changes, to what was seen before. -/
theorem OrderInv.updateBatch (h : OrderInv ops policy p order) (b : Nat) (f : RowBatch → RowBatch)
    (hf : ∀ batch : RowBatch,
      (∀ row, batch.prefetched = some row → Seen ops policy order row) →
      (∀ row, batch.cached = some row → Seen ops policy order row) →
        (∀ row, (f batch).prefetched = some row → Seen ops policy order row) ∧
          ∀ row, (f batch).cached = some row → Seen ops policy order row) (marks : Outdated) :
    OrderInv ops policy { p with
      cas := { p.cas with batches := Server.updateBatch p.cas.batches b f }
      outdated := marks } order := by
  refine h.setBatches (fun batch hbatch => ?_) marks
  rcases mem_updateBatch hbatch with ⟨old, hold, rfl | rfl⟩
  · exact h.batches batch hold
  · exact hf old (h.batches old hold).1 (h.batches old hold).2

theorem OrderInv.startOp (h : OrderInv ops policy p order) (i : Nat) (batch : Option Nat)
    (incoming : ConflictInput) :
    OrderInv ops policy { p with
      cas := { p.cas with tasks := p.cas.tasks ++ [⟨i, batch, incoming, .queued⟩] } } order := by
  have hlength : ∀ answer, (OpRef.client p.cas.tasks.length, answer) ∉ p.answers := by
    intro answer hanswer
    rcases h.inOrder.answered _ answer hanswer with ⟨turn, hturn, href, -⟩
    have hof := h.inOrder.origin turn hturn
    cases hop : turn.op with
    | server t op hlc =>
        rw [hop] at href
        cases href
    | client t incoming =>
        rw [hop] at href hof
        cases href
        rcases hof with ⟨task, ht, -⟩
        exact lt_irrefl _ (List.getElem?_eq_some_iff.1 ht).1
  refine ⟨⟨h.inOrder.serial, h.inOrder.once, ?_, h.inOrder.answered, ?_, h.inOrder.done,
    h.inOrder.monotone⟩, ?_, ?_, h.batches, ?_, h.silentServer⟩
  · intro turn hturn
    refine (h.inOrder.origin turn hturn).mono ?_ (fun _ _ _ hx => hx) fun _ hanswer => hanswer
    intro t task _ ht
    exact (List.getElem?_append_left (List.getElem?_eq_some_iff.1 ht).1).trans ht
  · intro t task ht hphase
    rcases getElem?_append_singleton ht with hold | ⟨-, rfl⟩
    · exact h.inOrder.accepted t task hold hphase
    · cases hphase
  · intro t task row ht hknown
    rcases getElem?_append_singleton ht with hold | ⟨-, rfl⟩
    · exact h.tasks t task row hold hknown
    · cases hknown
  · intro t task attempt row ht hphase
    rcases getElem?_append_singleton ht with hold | ⟨-, rfl⟩
    · exact h.resolved t task attempt row hold hphase
    · cases hphase
  · intro t task ht hpending
    rcases getElem?_append_singleton ht with hold | ⟨rfl, -⟩
    · exact h.silent t task hold hpending
    · exact hlength

theorem OrderInv.client (h : OrderInv ops policy p order) (hfresh : FreshInv p) {e : CasEvent}
    {cas : CasState} (hg : ProcessFits ops policy p (.client e))
    (hs : CasStep ops policy p.cas e cas) :
    ∃ order', OrderInv ops policy (observe ops policy p cas e) order' := by
  cases hs with
  | startBatch i =>
      refine ⟨order, h.setBatches (fun batch hbatch => ?_) p.outdated⟩
      rcases List.mem_append.1 hbatch with hold | hnew
      · exact h.batches batch hold
      · rcases List.mem_singleton.1 hnew with rfl
        exact ⟨by simp, by simp⟩
  | prefetch b =>
      refine ⟨order, h.updateBatch b (fun batch => { batch with
        prefetched := some (getRow p.cas.stored) })
        (fun batch _ hcached => ⟨fun row hrow => ?_, hcached⟩) _⟩
      exact Option.some.inj hrow ▸ h.seen_stored
  | setPrefetched b =>
      refine ⟨order, ?_⟩
      have hset := h.updateBatch b (fun batch => { batch with
        cached := batch.prefetched.or batch.cached })
        (fun batch hprefetched hcached => ⟨hprefetched, fun row hrow => by
          rcases Option.or_eq_some_iff.1 hrow with hpre | ⟨-, hold⟩
          · exact hprefetched row hpre
          · exact hcached row hold⟩)
      rw [observe]
      split
      · exact hset _
      · exact hset p.outdated
  | finishBatch b =>
      exact ⟨order, h.updateBatch b (fun batch => { batch with active := false })
        (fun batch hprefetched hcached => ⟨hprefetched, hcached⟩) p.outdated⟩
  | startOp i batch incoming => exact ⟨order, h.startOp i batch incoming⟩
  | dequeue ht hphase =>
      exact ⟨order, h.setTask ht (by rw [hphase]; rfl) (by simp) (fun _ hrow => by cases hrow)
        (fun _ _ hrow => by cases hrow) p.outdated⟩
  | readCached payload ht hphase hhit =>
      rw [observe_readCached ht hphase hhit]
      exact h.afterRead ht (by rw [hphase]; rfl) (h.seen_cachedFor hhit) _
  | readStored payload ht hphase hmiss =>
      rw [observe_readStored ht hphase hmiss]
      refine ⟨order, h.setTask ht (by rw [hphase]; rfl) (by simp) (fun row hrow => ?_)
        (fun _ _ hrow => by cases hrow) _⟩
      exact Option.some.inj hrow ▸ h.seen_stored
  | @resolve t attempt task existing ht hphase =>
      have hseen := h.tasks t task existing ht (by rw [hphase]; rfl)
      have hbatches : OrderInv ops policy { p with cas := { p.cas with
          batches := if attempt = 0 then cacheRow p.cas.batches task existing
            else p.cas.batches } } order := by
        refine h.setBatches ?_ p.outdated
        split
        · exact seen_cacheRow h.batches hseen
        · exact h.batches
      rw [observe_resolve ht hphase]
      exact hbatches.afterRead ht (by rw [hphase]; rfl) hseen _
  | refuse ht hphase =>
      exact ⟨order, h.setTask ht (by rw [hphase]; rfl) (by simp) (fun _ hrow => by cases hrow)
        (fun _ _ hrow => by cases hrow) p.outdated⟩
  | throw ht hactive =>
      exact ⟨order, h.setTask ht (pending_of_active hactive) (by simp) (fun _ hrow => by cases hrow)
        (fun _ _ hrow => by cases hrow) p.outdated⟩
  | @lost t attempt task existing answered ht hphase =>
      rw [observe_lost]
      refine ⟨order, h.setTask ht (by rw [hphase]; rfl) ?_ (fun row hrow => ?_)
        (fun _ row hrow => ?_) p.outdated⟩
      · rw [lostPhase]
        repeat' split
        all_goals simp
      · rw [lostPhase] at hrow
        repeat' split at hrow
        all_goals cases hrow
      · rw [lostPhase] at hrow
        repeat' split at hrow
        all_goals cases hrow
  | write hw => exact h.write hfresh hw hg

/-! ### Server ops -/

theorem resolveServerOp_accepted (op : ServerOp) (hlc : Hlc) (existing : ExistingRow) :
    (resolveServerOp op hlc existing).accepted = true := by
  rcases op with ⟨type, payload⟩
  cases type <;> cases payload <;> rfl

theorem getElem?_set_serverTask {tasks : List ServerTask} {t i : Nat} {new task : ServerTask}
    (h : (tasks.set t new)[i]? = some task) :
    (i = t ∧ task = new) ∨ (i ≠ t ∧ tasks[i]? = some task) := by
  by_cases heq : i = t
  · subst heq
    have hlt : i < tasks.length := by simpa using (List.getElem?_eq_some_iff.1 h).1
    rw [List.getElem?_set_self hlt] at h
    exact Or.inl ⟨rfl, (Option.some.inj h).symm⟩
  · rw [List.getElem?_set_ne (Ne.symm heq)] at h
    exact Or.inr ⟨heq, h⟩

theorem OrderInv.startServer (h : OrderInv ops policy p order) (op : ServerOp) :
    OrderInv ops policy { p with serverTasks := p.serverTasks ++ [⟨op, .started⟩] } order := by
  have hlength : ∀ answer, (OpRef.server p.serverTasks.length, answer) ∉ p.answers := by
    intro answer hanswer
    rcases h.inOrder.answered _ answer hanswer with ⟨turn, hturn, href, -⟩
    have hof := h.inOrder.origin turn hturn
    cases hop : turn.op with
    | client t incoming =>
        rw [hop] at href
        cases href
    | server t op hlc =>
        rw [hop] at href hof
        cases href
        rcases hof with ⟨task, ht, -⟩
        exact lt_irrefl _ (List.getElem?_eq_some_iff.1 ht).1
  refine ⟨⟨h.inOrder.serial, h.inOrder.once, ?_, h.inOrder.answered, h.inOrder.accepted, ?_,
    h.inOrder.monotone⟩, h.tasks, h.resolved, h.batches, h.silent, ?_⟩
  · intro turn hturn
    refine (h.inOrder.origin turn hturn).mono (fun _ _ _ hx => hx) ?_ fun _ hanswer => hanswer
    intro t task _ ht
    exact (List.getElem?_append_left (List.getElem?_eq_some_iff.1 ht).1).trans ht
  · intro t task ht hdone
    rcases getElem?_append_singleton ht with hold | ⟨-, rfl⟩
    · exact h.inOrder.done t task hold hdone
    · cases hdone
  · intro t task ht hpending
    rcases getElem?_append_singleton ht with hold | ⟨rfl, -⟩
    · exact h.silentServer t task hold hpending
    · exact hlength

/-- A server op goes on without writing. -/
theorem OrderInv.setServerTask (h : OrderInv ops policy p order) {t : Nat} {task : ServerTask}
    {phase : ServerPhase} (ht : p.serverTasks[t]? = some task)
    (hpending : task.phase.pending = true) (hphase : phase ≠ .done) :
    OrderInv ops policy (p.setServerTask t task phase) order := by
  have hne := h.serverRef_ne ht hpending
  refine ⟨⟨h.inOrder.serial, h.inOrder.once, ?_, h.inOrder.answered, h.inOrder.accepted, ?_,
    h.inOrder.monotone⟩, h.tasks, h.resolved, h.batches, h.silent, ?_⟩
  · intro turn hturn
    refine (h.inOrder.origin turn hturn).mono (fun _ _ _ hx => hx) ?_ fun _ hanswer => hanswer
    intro i x href hx
    have hother : i ≠ t := fun heq => hne turn hturn (heq ▸ href)
    exact (List.getElem?_set_ne (Ne.symm hother)).trans hx
  · intro i x hx hdone
    rcases getElem?_set_serverTask hx with ⟨-, rfl⟩ | ⟨-, hold⟩
    · exact absurd hdone hphase
    · exact h.inOrder.done i x hold hdone
  · intro i x hx hxpending
    rcases getElem?_set_serverTask hx with ⟨rfl, -⟩ | ⟨-, hold⟩
    · exact h.silentServer i task ht hpending
    · exact h.silentServer i x hold hxpending

/-- A server op writes: its turn is the last one. -/
theorem OrderInv.serverWrite (h : OrderInv ops policy p order) {t : Nat} {task : ServerTask}
    {hlc : Hlc} (ht : p.serverTasks[t]? = some task)
    (hphase : task.phase = .executing hlc existing) (hfits : ServerFits p task hlc existing)
    {phase : ServerPhase} {answers : List RowAnswer}
    (hended : (phase = .failed ∧ answers = []) ∨ (phase = .done ∧ answers =
      [.written hlc (resolveServerOp task.op hlc existing).resolvedRow])) :
    ∃ order', OrderInv ops policy { p with
      cas := { p.cas with stored := (resolveServerOp task.op hlc existing).stored hlc }
      serverTasks := p.serverTasks.set t { task with phase := phase }
      outdated := .all
      answers := p.answers ++ answers.map fun answer => (.server t, answer) } order' := by
  have hpending : task.phase.pending = true := by rw [hphase]; rfl
  have hne := h.serverRef_ne ht hpending
  let op : RowOp := .server t task.op hlc
  have hrun : op.run ops policy p.cas.stored =
      (resolveServerOp task.op hlc existing).stored hlc := by
    simp only [op, RowOp.run, RowOp.result, resolveServerOp_accepted, if_true, hfits.1]
    rfl
  have hserial := h.inOrder.serial.concat op
  rw [hrun] at hserial
  have hself : (p.serverTasks.set t { task with phase := phase })[t]? =
      some { task with phase := phase } :=
    List.getElem?_set_self (List.getElem?_eq_some_iff.1 ht).1
  have hmem : ∀ turn, turn ∈ order ++ [⟨op, p.cas.stored⟩] ↔
      turn ∈ order ∨ turn = ⟨op, p.cas.stored⟩ := by simp
  have hsub : ∀ turn ∈ order, turn ∈ order ++ [⟨op, p.cas.stored⟩] :=
    fun turn hturn => List.mem_append_left _ hturn
  have hphaseEnded : phase.pending = false := by
    rcases hended with ⟨rfl, -⟩ | ⟨rfl, -⟩ <;> rfl
  have hmemAnswers : ∀ ref answer,
      (ref, answer) ∈ p.answers ++ answers.map (fun answer => (OpRef.server t, answer)) →
        (ref, answer) ∈ p.answers ∨ (ref = .server t ∧ answer ∈ answers) := by
    intro ref answer hanswer
    rcases List.mem_append.1 hanswer with hold | hnew
    · exact Or.inl hold
    · rcases List.mem_map.1 hnew with ⟨answer', hanswer', heq⟩
      cases heq
      exact Or.inr ⟨rfl, hanswer'⟩
  refine ⟨order ++ [⟨op, p.cas.stored⟩], ⟨hserial, ?_, ?_, ?_, ?_, ?_, ?_⟩, ?_, h.resolved, ?_, ?_,
    ?_⟩
  · rw [List.map_append, List.nodup_append]
    refine ⟨h.inOrder.once, by simp, ?_⟩
    intro ref hin ref' hin' heq
    rcases List.mem_map.1 hin with ⟨turn, hturn, rfl⟩
    obtain rfl : ref' = .server t := List.mem_singleton.1 hin'
    exact hne turn hturn heq
  · intro turn hturn
    rcases (hmem turn).1 hturn with hold | rfl
    · refine (h.inOrder.origin turn hold).mono (fun _ _ _ hx => hx) ?_
        fun _ hanswer => List.mem_append_left _ hanswer
      intro i x href hx
      have hother : i ≠ t := fun heq => hne turn hold (heq ▸ href)
      exact (List.getElem?_set_ne (Ne.symm hother)).trans hx
    · refine ⟨_, hself, rfl, ?_⟩
      rcases hended with ⟨rfl, -⟩ | ⟨-, rfl⟩
      · exact Or.inl rfl
      · exact Or.inr ⟨_, List.mem_append_right _ (List.mem_singleton_self _)⟩
  · intro ref answer hanswer
    rcases hmemAnswers ref answer hanswer with hold | ⟨rfl, hnew⟩
    · rcases h.inOrder.answered ref answer hold with ⟨turn, hturn, hrest⟩
      exact ⟨turn, hsub turn hturn, hrest⟩
    · refine ⟨_, (hmem _).2 (Or.inr rfl), rfl, ?_⟩
      rcases hended with ⟨-, rfl⟩ | ⟨-, rfl⟩
      · cases hnew
      · rw [List.mem_singleton.1 hnew]
        simp only [op, RowOp.answer, RowOp.result, hfits.1]
  · intro i x hx haccepted
    exact List.mem_append_left _ (h.inOrder.accepted i x hx haccepted)
  · intro i x hx hdone
    rcases getElem?_set_serverTask hx with ⟨rfl, rfl⟩ | ⟨-, hold⟩
    · rcases hended with ⟨rfl, -⟩ | ⟨-, rfl⟩
      · cases hdone
      · exact ⟨_, _, List.mem_append_right _ (List.mem_singleton_self _)⟩
    · rcases h.inOrder.done i x hold hdone with ⟨hlc', row, hanswer⟩
      exact ⟨hlc', row, List.mem_append_left _ hanswer⟩
  · intro turn hturn r r' hbefore hafter
    rcases (hmem turn).1 hturn with hold | rfl
    · exact h.inOrder.monotone turn hold r r' hbefore hafter
    · have hafter' : (resolveServerOp task.op hlc existing).stored hlc = some r' :=
        hrun.symm.trans hafter
      rcases Option.map_eq_some_iff.1 hafter' with ⟨row, hrow, rfl⟩
      exact hfits.2 (by rw [hrow]; rfl) r hbefore
  · intro i x row hx hknown
    exact (h.tasks i x row hx hknown).mono hsub
  · intro batch hbatch
    have hold := h.batches batch hbatch
    exact ⟨fun row hrow => (hold.1 row hrow).mono hsub, fun row hrow => (hold.2 row hrow).mono hsub⟩
  · intro i x hx hxpending answer hanswer
    rcases hmemAnswers _ answer hanswer with hin | ⟨heq, -⟩
    · exact h.silent i x hx hxpending answer hin
    · cases heq
  · intro i x hx hxpending answer hanswer
    rcases getElem?_set_serverTask hx with ⟨-, rfl⟩ | ⟨hother, hold⟩
    · have hphase' : phase.pending = true := hxpending
      rw [hphase'] at hphaseEnded
      cases hphaseEnded
    · rcases hmemAnswers _ answer hanswer with hin | ⟨heq, -⟩
      · exact h.silentServer i x hold hxpending answer hin
      · cases heq
        exact hother rfl

end Orders

/-! ## The run -/

structure ProcessInv (ops : TextOps) (policy : ConflictPolicy) (s : ProcessState) : Prop where
  turns : TurnInv s.cas
  fresh : FreshInv s
  order : ∃ order, OrderInv ops policy s order

section Run

variable {p q : ProcessState}

theorem ProcessInv.start : ProcessInv ops policy .start := by
  refine ⟨.start, ⟨?_, ?_, ?_⟩, [], ⟨rfl, ?_, ?_, ?_, ?_, ?_, ?_⟩, ?_, ?_, ?_, ?_, ?_⟩ <;>
    simp [ProcessState.start, CasState.start]

theorem observe_cas (cas : CasState) (e : CasEvent) : (observe ops policy p cas e).cas = cas := by
  unfold observe
  repeat' split
  all_goals rfl

theorem FreshInv.of_all {cas : CasState} {tasks : List ServerTask}
    {answers : List (OpRef × RowAnswer)} : FreshInv ⟨cas, tasks, .all, answers⟩ := by
  refine ⟨?_, ?_, ?_⟩ <;> simp [Outdated.all]

theorem ProcessInv.step (h : ProcessInv ops policy p) {e : ProcessEvent}
    (hg : ProcessFits ops policy p e) (hs : (processMachine ops policy).step p e = some q) :
    ProcessInv ops policy q := by
  rcases h with ⟨hturns, hfresh, order, horder⟩
  cases e with
  | client e =>
      rcases Option.ite_none_right_eq_some.1 hs with ⟨hmessage, hmap⟩
      rcases Option.map_eq_some_iff.1 hmap with ⟨cas, hcas, rfl⟩
      have hstep := casStep_inv hcas
      refine ⟨?_, hfresh.client hturns hmessage hstep, horder.client hfresh hg hstep⟩
      rw [observe_cas]
      exact hturns.step hmessage hstep
  | startServer op =>
      cases hs
      exact ⟨hturns, ⟨hfresh.task, hfresh.cached, hfresh.prefetched⟩, order, horder.startServer op⟩
  | serverRead t stamp caughtUp =>
      simp only [processMachine, processStep, stepServerRead] at hs
      split at hs
      · rename_i task ht
        split at hs
        · rename_i hphase
          cases hs
          exact ⟨hturns, ⟨hfresh.task, hfresh.cached, hfresh.prefetched⟩, order,
            horder.setServerTask ht (by rw [hphase]; rfl) (by simp)⟩
        · cases hs
      · cases hs
  | serverWrite t answered =>
      simp only [processMachine, processStep, stepServerWrite] at hs
      split at hs
      · rename_i task ht
        split at hs
        · rename_i hlc existing hphase
          have hfits : ServerFits p task hlc existing := by
            simpa only [ProcessFits, ht, hphase] using hg
          have hturn : ∀ stored, TurnInv { p.cas with stored := stored } :=
            fun _ => ⟨hturns.oneProcess, hturns.oneProcessBatch, hturns.turn, hturns.owned⟩
          split at hs
          · cases hs
            rcases horder.serverWrite ht hphase hfits (Or.inr ⟨rfl, rfl⟩) with ⟨order', horder'⟩
            exact ⟨hturn _, .of_all, order', horder'⟩
          · cases hs
            rcases horder.serverWrite ht hphase hfits (Or.inl ⟨rfl, rfl⟩) with ⟨order', horder'⟩
            refine ⟨hturn _, .of_all, order', ?_⟩
            simpa [ProcessState.setServerTask] using horder'
        · cases hs
      · cases hs
  | serverThrow t =>
      simp only [processMachine, processStep, stepServerThrow] at hs
      split at hs
      · rename_i task ht
        split at hs
        · rename_i hphase
          cases hs
          exact ⟨hturns, ⟨hfresh.task, hfresh.cached, hfresh.prefetched⟩, order,
            horder.setServerTask ht (by rw [hphase]; rfl) (by simp)⟩
        · rename_i hphase
          cases hs
          exact ⟨hturns, ⟨hfresh.task, hfresh.cached, hfresh.prefetched⟩, order,
            horder.setServerTask ht (by rw [hphase]; rfl) (by simp)⟩
        · cases hs
      · cases hs

/-- Where the writes fit, the client ops and the server ops of a row have a sequential order,
however their steps and the messages' batches interleave. -/
theorem linearizes_of_processFits
    (h : (processMachine ops policy).Reach (ProcessFits ops policy) p) :
    Linearizes ops policy p := by
  have hinv : ProcessInv ops policy p :=
    h.invariant .start fun hinv hg hs => hinv.step hg hs
  rcases hinv.order with ⟨order, horder⟩
  exact ⟨order, horder.inOrder⟩

end Run

/-! ## Runs of one process -/

def clientSteps (t : Nat) (incoming : ConflictInput) : List ProcessEvent :=
  (opSteps 0 t incoming).map .client

def patch (columns : List (String × Json)) : ServerOp :=
  ⟨.update, some (Lib.replay ∅ columns)⟩

/-- A server op between two client ops of a message that has read the row ahead. -/
theorem linearizes_inTurn : ∃ s : ProcessState,
    (s.cas.stored.map fun r => (r.row.lookup "title", r.row.lookup "body")) =
      some (some (.str "new"), some (.str "text")) ∧
    Linearizes noText .merge s := by
  let body := rowOp .update [("body", .str "text")] "3.0.c"
  have hrun : (((processMachine noText .merge).runWith
      (fun s e => decide (ProcessFits noText .merge s e)) (processMachine noText .merge).init
      (clientSteps 0 (rowOp .insert [("title", .str "old"), ("body", .str "")] "1.0.a") ++
        [.startServer (patch [("title", .str "new")]), .serverRead 0 "2.0.s" none,
          .serverWrite 0 true, .client (.startBatch 0), .client (.prefetch 0),
          .client (.setPrefetched 0), .client (.startOp 0 (some 0) body), .client (.dequeue 1),
          .client (.read 1 body.payload), .client (.write 1 true)])).map fun s =>
          s.cas.stored.map fun r => (r.row.lookup "title", r.row.lookup "body")) =
      some (some (some (.str "new"), some (.str "text"))) := by decide +kernel
  rcases Option.map_eq_some_iff.1 hrun with ⟨s, hs, hstored⟩
  have hreach := Lib.Machine.Reach.of_runWith (fun _ _ h => of_decide_eq_true h) .init hs
  exact ⟨s, hstored, linearizes_of_processFits hreach⟩

deriving instance DecidableEq for ConflictInput

def addBody : ConflictInput :=
  rowOp .insert [("body", .str "text")] "1.0.a"

def patchTitle : ServerOp :=
  patch [("title", .str "new")]

def patchTurn : RowOp :=
  .server 0 patchTitle "2.0.s"

/-- Both ops have been answered, and the stored row is without the client's column. -/
def bodyLost (s : ProcessState) : Bool :=
  decide (s.cas.tasks.map (·.incoming) = [addBody]) &&
    (decide (s.serverTasks.map (·.op) = [patchTitle]) &&
      ((s.serverTasks.all fun task => task.phase matches .done) &&
        (decide (s.answers.map (·.1) = [.client 0, .server 0]) &&
          ((s.answers.all fun answer => match answer.2 with
            | .written hlc _ => hlc = "2.0.s"
            | _ => true) &&
            decide ((s.cas.stored.map fun r => r.row.lookup "body") = some none)))))

/-- Such a state has no turns but those of the two ops. -/
theorem turn_of_bodyLost {s : ProcessState} (h : bodyLost s = true) {op : RowOp} (hof : op.Of s) :
    op = .client 0 addBody ∨ op = patchTurn := by
  simp only [bodyLost, Bool.and_eq_true, decide_eq_true_eq, List.all_eq_true] at h
  rcases h with ⟨hclients, hservers, hdone, -, hwritten, -⟩
  cases op with
  | client t incoming =>
      rcases hof with ⟨task, ht, rfl, -⟩
      have hget : (s.cas.tasks.map (·.incoming))[t]? = some task.incoming := by
        rw [List.getElem?_map, ht]
        rfl
      rw [hclients, List.getElem?_singleton] at hget
      rcases Option.ite_none_right_eq_some.1 hget with ⟨rfl, heq⟩
      exact Or.inl (by rw [Option.some.inj heq])
  | server t op hlc =>
      rcases hof with ⟨task, ht, rfl, hfailed | ⟨row, hanswer⟩⟩
      · have hphase := hdone task (List.mem_of_getElem? ht)
        rw [hfailed] at hphase
        cases hphase
      · have hget : (s.serverTasks.map (·.op))[t]? = some task.op := by
          rw [List.getElem?_map, ht]
          rfl
        rw [hservers, List.getElem?_singleton] at hget
        rcases Option.ite_none_right_eq_some.1 hget with ⟨rfl, heq⟩
        have hhlc : hlc = "2.0.s" := of_decide_eq_true (hwritten _ hanswer)
        refine Or.inr ?_
        rw [patchTurn, Option.some.inj heq, hhlc]

/-- The server op has read the row before a client op writes it: its own write takes the client's
column back. -/
theorem not_linearizes_staleServerOp :
    ¬ ∀ ops policy s, (processMachine ops policy).Reachable s → Linearizes ops policy s := by
  intro h
  have hrun : ((processMachine noText .merge).run
      ([.startServer patchTitle, .serverRead 0 "2.0.s" none] ++ clientSteps 0 addBody ++
        [.serverWrite 0 true])).map bodyLost = some true := by decide +kernel
  rcases Option.map_eq_some_iff.1 hrun with ⟨s, hs, hlost⟩
  rcases h noText .merge s (.of_run hs) with ⟨order, horder⟩
  have hturn : ∀ turn ∈ order, turn.op = .client 0 addBody ∨ turn.op = patchTurn :=
    fun turn hmem => turn_of_bodyLost hlost (horder.origin turn hmem)
  simp only [bodyLost, Bool.and_eq_true, decide_eq_true_eq] at hlost
  rcases hlost with ⟨-, -, -, hrefs, -, hstored⟩
  have hanswered : ∀ ref ∈ [OpRef.client 0, .server 0], ref ∈ order.map (·.op.ref) := by
    intro ref hmem
    rw [← hrefs] at hmem
    rcases List.mem_map.1 hmem with ⟨answer, hanswer, rfl⟩
    rcases horder.answered _ _ hanswer with ⟨turn, hin, href, -⟩
    exact List.mem_map.2 ⟨turn, hin, href⟩
  -- The order has the two ops and no other.
  have hperm : (order.map (·.op.ref)).Perm [.client 0, .server 0] := by
    refine (List.perm_ext_iff_of_nodup horder.once (by decide)).2 fun ref => ⟨fun hmem => ?_,
      hanswered ref⟩
    rcases List.mem_map.1 hmem with ⟨turn, hin, rfl⟩
    rcases hturn turn hin with heq | heq <;> rw [heq] <;> decide
  have hlength : order.length = 2 := by simpa using hperm.length_eq
  rcases List.length_eq_two.1 hlength with ⟨u, v, rfl⟩
  have hfold := horder.serial.foldl
  have honce := horder.once
  have hkept : (([RowOp.client 0 addBody, patchTurn].foldl (RowOp.run noText .merge) none).map
        fun r => r.row.lookup "body") ≠ some none ∧
      (([patchTurn, RowOp.client 0 addBody].foldl (RowOp.run noText .merge) none).map
        fun r => r.row.lookup "body") ≠ some none := by decide +kernel
  simp only [List.map_cons, List.map_nil] at hfold honce
  rcases hturn u (by simp) with hu | hu <;> rcases hturn v (by simp) with hv | hv <;>
    rw [hu, hv] at hfold honce
  · simp at honce
  · exact hkept.1 (hfold ▸ hstored)
  · exact hkept.2 (hfold ▸ hstored)
  · simp at honce

end Server
end Reflectdb
