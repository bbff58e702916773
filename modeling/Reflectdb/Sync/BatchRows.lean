import Reflectdb.Server.BatchSteps
import Reflectdb.Sync.Rollback

/-!
# Batch rows — a batch at the server and in the rows of its client

The system of server, wire and clients' queues, with the store of each client: what it shows, and
what it goes back to when a reject takes a batch out.
-/

namespace Reflectdb
namespace Sync

open Core Client Server

variable (cfg : OpConfig) (writer : WriterConfig)

/-! ## Runs -/

structure BatchSystem where
  server : BatchState
  stores : Nat → RollbackState

inductive BatchSystemEvent
  /-- `insert`, `update`, `delete` or `batch` of a client. -/
  | create (client : Nat) (ops : List ClientOp) (now : Nat)
  | delta (client : Nat) (table : String) (d : Delta)
  | snapshot (client : Nat) (table : String) (msg : Snapshot)
  /-- The client gets an answer; a reject may carry the server's row. -/
  | deliver (answer : Nat) (serverRow : Option Row) (now batchNow : Nat)
  /-- Anything else. -/
  | server (event : OpEvent)

/-- The reject of the op and of its batch. -/
def rejectMessage (rejection : Rejection) (serverRow : Option Row) : RejectMessage :=
  ⟨some rejection.opId, rejection.batchId, rejection.reason, serverRow⟩

/-- The client and what the answer is at its store. -/
def answerEvent (serverRow : Option Row) (now batchNow : Nat) : Answer → Nat × RollbackEvent
  | .ack c opIds => (c, .ack opIds)
  | .reject c rejection => (c, .reject (rejectMessage rejection serverRow) now batchNow)

namespace BatchSystem

def storeStep (s : BatchSystem) (c : Nat) (e : RollbackEvent) : Option BatchSystem :=
  (rollbackStep writer (s.stores c) e).map fun store =>
    { s with stores := Function.update s.stores c store }

def step (s : BatchSystem) : BatchSystemEvent → Option BatchSystem
  | .create c ops now =>
    if ∀ op ∈ ops, op.id ≠ "" then
      (batchStep cfg s.server (.create c ops)).bind fun server =>
        (ops.foldlM (fun store op => rollbackStep writer store (.create op now))
          (s.stores c)).map fun store => ⟨server, Function.update s.stores c store⟩
    else none
  | .delta c table d => s.storeStep writer c (.delta table d)
  | .snapshot c table msg => s.storeStep writer c (.snapshot table msg)
  | .deliver a serverRow now batchNow =>
    s.server.ops.answers[a]?.bind fun answer =>
      let event := answerEvent serverRow now batchNow answer
      (batchStep cfg s.server (.op (.deliver a))).bind fun server =>
        { s with server := server }.storeStep writer event.1 event.2
  | .server (.deliver _) => none
  | .server e => (batchStep cfg s.server (.op e)).map fun server => { s with server := server }

end BatchSystem

def batchSystem : Lib.Machine BatchSystem BatchSystemEvent :=
  ⟨⟨⟨.start, [], []⟩, fun _ => ⟨.empty, fun _ => ∅⟩⟩, BatchSystem.step cfg writer⟩

/-! ## The property -/

variable {cfg writer}

/-- The reject that the event delivers takes its ops out of the queue and out of the rows. -/
def Returns (writer : WriterConfig) (s : BatchSystem) (e : BatchSystemEvent) (s' : BatchSystem) :
    Prop :=
  ∀ a serverRow now batchNow c rejection, e = .deliver a serverRow now batchNow →
    s.server.ops.answers[a]? = some (.reject c rejection) →
      ∀ p ∈ (s.stores c).store.pendingOps, (rejectMessage rejection serverRow).rejects p.op →
        RolledBack writer (s'.stores c) p.op

/-- What a rejection undoes can be undone. -/
def UndoesAnswer (s : BatchSystem) (a : Nat) (serverRow : Option Row) (now batchNow : Nat) : Prop :=
  match s.server.ops.answers[a]? with
  | some (.reject c rejection) =>
    Undoes (s.stores c) (rejectMessage rejection serverRow) now batchNow
  | _ => True

/-- The condition. -/
def BatchSystemGuard (cfg : OpConfig) (s : BatchSystem) : BatchSystemEvent → Prop
  | .create _ _ _ => True
  | .delta _ _ _ => True
  | .snapshot _ _ _ => True
  | .deliver a serverRow now batchNow => UndoesAnswer s a serverRow now batchNow
  | .server e => BatchGuard cfg s.server (.op e)

/-- The ops of a batch are all applied, or none is and the client is without them. -/
structure BatchWhole (cfg : OpConfig) (writer : WriterConfig) (s : BatchSystem) : Prop where
  atomic : BatchAtomic s.server
  /-- The queue that the client pushes is that of its store. -/
  queue : ∀ c op, op ∈ (s.server.ops.clients c).pendingOps ↔
    ∃ p ∈ (s.stores c).store.pendingOps, p.op = op
  returns : ∀ e s', BatchSystemGuard cfg s e → s.step cfg writer e = some s' → Returns writer s e s'

/-! ### Deciding the condition -/

instance (msg : RejectMessage) (op : ClientOp) : Decidable (msg.namesBatch op) :=
  decidable_of_iff ((msg.batchId.filter (· ≠ "")).isSome ∧
      msg.batchId.filter (· ≠ "") = op.batchId) <| by
    constructor
    · rintro ⟨hsome, heq⟩
      rcases Option.isSome_iff_exists.1 hsome with ⟨b, hb⟩
      exact ⟨b, hb, heq.symm.trans hb⟩
    · rintro ⟨b, hb, heq⟩
      exact ⟨by rw [hb]; rfl, hb.trans heq.symm⟩

instance (msg : RejectMessage) (op : ClientOp) : Decidable (msg.rejects op) :=
  inferInstanceAs (Decidable (_ ∨ _))

instance (s : RollbackState) (msg : RejectMessage) (table rowId : String) :
    Decidable (TellsRow s msg table rowId) :=
  inferInstanceAs (Decidable (_ ∧ ∃ p ∈ s.store.pendingOps, _ ∧ _))

/-- By the entries: the decision for `AList` rewrites its proposition, and does not evaluate. -/
def decEqHeld : (held held' : Option Row) → Decidable (held = held')
  | none, none => isTrue rfl
  | none, some _ => isFalse nofun
  | some _, none => isFalse nofun
  | some row, some row' =>
    decidable_of_iff (row.entries = row'.entries)
      ⟨fun heq => congrArg some (AList.ext heq), fun heq => congrArg _ (Option.some.inj heq)⟩

instance (s : RollbackState) (table rowId : String) : Decidable (KeptCurrent s table rowId) :=
  match h : s.store.pendingOps.find? (·.onRow table rowId) with
  | none => isTrue fun _ hfirst => nomatch h.symm.trans hfirst
  | some first =>
    @decidable_of_iff _ _
      ⟨fun heq _ hfirst => Option.some.inj (h.symm.trans hfirst) ▸ heq, fun hall => hall first h⟩
      (decEqHeld (first.preState.bind (·.data)) (heldRow (s.delivered table) (.str rowId)))

instance (s : RollbackState) (msg : RejectMessage) (now batchNow : Nat) :
    Decidable (Undoes s msg now batchNow) :=
  decidable_of_iff
    ((∀ p ∈ s.store.pendingOps, msg.namesOp p.op → now < p.createdAt + REJECTED_TTL_MS) ∧
      (∀ p ∈ s.store.pendingOps, msg.namesBatch p.op → ¬ msg.namesOp p.op →
        batchNow < p.createdAt + REJECTED_TTL_MS) ∧
      ∀ p ∈ s.store.pendingOps, msg.rejects p.op →
        TellsRow s msg p.op.table p.op.rowId ∨ KeptCurrent s p.op.table p.op.rowId)
    ⟨fun h => ⟨h.1, h.2.1, h.2.2⟩, fun h => ⟨h.young, h.batchYoung, h.kept⟩⟩

instance (s : BatchSystem) (a : Nat) (serverRow : Option Row) (now batchNow : Nat) :
    Decidable (UndoesAnswer s a serverRow now batchNow) :=
  match h : s.server.ops.answers[a]? with
  | some (.reject c rejection) =>
    decidable_of_iff (Undoes (s.stores c) (rejectMessage rejection serverRow) now batchNow)
      (by rw [UndoesAnswer, h])
  | some (.ack _ _) => isTrue (by rw [UndoesAnswer, h]; trivial)
  | none => isTrue (by rw [UndoesAnswer, h]; trivial)

instance (cfg : OpConfig) (s : BatchSystem) : DecidablePred (BatchSystemGuard cfg s)
  | .create .. => inferInstanceAs (Decidable True)
  | .delta .. => inferInstanceAs (Decidable True)
  | .snapshot .. => inferInstanceAs (Decidable True)
  | .deliver .. => inferInstanceAs (Decidable (UndoesAnswer ..))
  | .server e => inferInstanceAs (Decidable (BatchGuard cfg s.server (.op e)))

/-! ## The invariant -/

structure BatchSystemInv (cfg : OpConfig) (s : BatchSystem) : Prop where
  server : BatchInv cfg s.server
  queue : ∀ c op, op ∈ (s.server.ops.clients c).pendingOps ↔
    ∃ p ∈ (s.stores c).store.pendingOps, p.op = op
  inv : ∀ c, QueueInv (s.stores c).store.pendingOps
  ids : ∀ c, ∀ op ∈ (s.server.ops.clients c).pendingOps, op.id ≠ ""

variable {s s' : BatchSystem}

theorem batchSystemInv_start (cfg : OpConfig) :
    BatchSystemInv cfg ⟨⟨.start, [], []⟩, fun _ => ⟨.empty, fun _ => ∅⟩⟩ where
  server := batchInv_start cfg
  queue c op := by simp [OpState.start, PushState.empty, ClientStore.empty]
  inv _ := ⟨fun _ hp => absurd hp List.not_mem_nil, List.nodup_nil⟩
  ids c op hop := absurd hop List.not_mem_nil

/-- The ops that are created, at the end of the queue of the store. -/
theorem foldlM_create {now : Nat} (ops : List ClientOp) :
    ∀ {store store' : RollbackState}, QueueInv store.store.pendingOps →
      ops.foldlM (fun store op => rollbackStep writer store (.create op now)) store = some store' →
        QueueInv store'.store.pendingOps ∧
          store'.store.pendingOps.map (·.op) = store.store.pendingOps.map (·.op) ++ ops := by
  induction ops with
  | nil =>
      intro store store' hinv h
      cases h
      exact ⟨hinv, (List.append_nil _).symm⟩
  | cons op ops ih =>
      intro store store' hinv h
      rw [List.foldlM_cons] at h
      rcases Option.bind_eq_some_iff.1 h with ⟨store₁, hstep, hrest⟩
      rcases ih (queueInv_step hinv hstep) hrest with ⟨hinv', hops⟩
      refine ⟨hinv', hops.trans ?_⟩
      rcases Option.ite_none_left_eq_some.1 hstep with ⟨-, heq⟩
      cases heq
      simp [ClientStore.addPendingOp, ClientStore.applyOptimistic]

theorem mem_queue_iff {ps : List PendingOp} {op : ClientOp} :
    (∃ p ∈ ps, p.op = op) ↔ op ∈ ps.map (·.op) :=
  List.mem_map.symm

/-- What a reject takes out of the queue, at the store as at the push. -/
theorem takes_iff_rejects {rejection : Rejection} {serverRow : Option Row} {op : ClientOp}
    (hid : op.id ≠ "") : ClientWhole.takes rejection.opId rejection.batchId op = true ↔
      (rejectMessage rejection serverRow).rejects op := by
  simp only [ClientWhole.takes, Bool.or_eq_true, Bool.and_eq_true, decide_eq_true_eq, beq_iff_eq,
    RejectMessage.rejects, RejectMessage.namesOp, RejectMessage.namesBatch, rejectMessage]
  refine or_congr ?_ ?_
  · rw [Option.filter_eq_some_iff]
    constructor
    · intro h
      exact ⟨by rw [h], by simpa using hid⟩
    · rintro ⟨h, -⟩
      exact (Option.some.inj h).symm
  · constructor
    · rintro ⟨hsome, heq⟩
      rcases Option.isSome_iff_exists.1 hsome with ⟨b, hb⟩
      exact ⟨b, hb, heq.trans (Option.filter_eq_some_iff.1 hb).1⟩
    · rintro ⟨b, hb, heq⟩
      exact ⟨by rw [hb]; rfl, heq.trans (Option.filter_eq_some_iff.1 hb).1.symm⟩

namespace BatchSystemInv

/-- A step of one store. -/
theorem storeStep (h : BatchSystemInv cfg s) {server : BatchState} (hserver : BatchInv cfg server)
    {c : Nat} {store : RollbackState} (hinv : QueueInv store.store.pendingOps)
    (hother : ∀ c', c' ≠ c → (server.ops.clients c').pendingOps =
      (s.server.ops.clients c').pendingOps)
    (hids : ∀ op ∈ (server.ops.clients c).pendingOps, op.id ≠ "")
    (hqueue : ∀ op, op ∈ (server.ops.clients c).pendingOps ↔
      ∃ p ∈ store.store.pendingOps, p.op = op) :
    BatchSystemInv cfg ⟨server, Function.update s.stores c store⟩ := by
  refine ⟨hserver, fun c' op => ?_, fun c' => ?_, fun c' op hop => ?_⟩
  · dsimp only
    by_cases hc : c' = c
    · subst hc
      rw [Function.update_self]
      exact hqueue op
    · rw [Function.update_of_ne hc, hother c' hc]
      exact h.queue c' op
  · dsimp only
    by_cases hc : c' = c
    · subst hc
      rwa [Function.update_self]
    · rw [Function.update_of_ne hc]
      exact h.inv c'
  · dsimp only at hop
    by_cases hc : c' = c
    · subst hc
      exact hids op hop
    · rw [hother c' hc] at hop
      exact h.ids c' op hop

theorem create (h : BatchSystemInv cfg s) {c now : Nat} {ops : List ClientOp}
    (hs : s.step cfg writer (.create c ops now) = some s') : BatchSystemInv cfg s' := by
  rcases Option.ite_none_right_eq_some.1 hs with ⟨hids, hs⟩
  rcases Option.bind_eq_some_iff.1 hs with ⟨server, hserver, hs⟩
  rcases Option.map_eq_some_iff.1 hs with ⟨store, hstore, rfl⟩
  have hinv := h.server.step (e := .create c ops) trivial hserver
  rcases Option.ite_none_right_eq_some.1 hserver with ⟨-, hserver⟩
  rcases Option.map_eq_some_iff.1 hserver with ⟨ops', hops', rfl⟩
  rcases foldlM_create ops (h.inv c) hstore with ⟨hqueue, happend⟩
  have heq := (foldlM_stepCreate ops hops').1
  have hpending : (ops'.clients c).pendingOps = (s.server.ops.clients c).pendingOps ++ ops := by
    rw [heq]
    simp
  refine h.storeStep hinv hqueue (fun c' hc => ?_) (fun op hop => ?_) fun op => ?_
  · rw [heq]
    simp [Function.update_of_ne hc]
  · dsimp only at hop
    rw [hpending] at hop
    exact (List.mem_append.1 hop).elim (h.ids c op) (hids op)
  · dsimp only
    rw [hpending, mem_queue_iff, happend, List.mem_append, List.mem_append, ← mem_queue_iff,
      ← h.queue c op]

theorem deliver (h : BatchSystemInv cfg s) {a now batchNow : Nat} {serverRow : Option Row}
    (hs : s.step cfg writer (.deliver a serverRow now batchNow) = some s') :
    BatchSystemInv cfg s' := by
  rcases Option.bind_eq_some_iff.1 hs with ⟨answer, hanswer, hs⟩
  rcases Option.bind_eq_some_iff.1 hs with ⟨server, hserver, hs⟩
  rcases Option.map_eq_some_iff.1 hs with ⟨store, hstore, rfl⟩
  have hguard : BatchGuard cfg s.server (.op (.deliver a)) :=
    ⟨trivial, fun op hop => absurd hop (by simp [OpState.refuses]),
      fun op hop => absurd hop (by simp [OpState.loses])⟩
  have hinv := h.server.step hguard hserver
  have hstoreInv := queueInv_step (h.inv _) hstore
  rcases Option.map_eq_some_iff.1 hserver with ⟨ops', hops', rfl⟩
  replace hops' : stepDeliver s.server.ops a = some ops' := hops'
  unfold stepDeliver at hops'
  rw [hanswer] at hops'
  dsimp only at hops'
  cases answer with
  | ack c opIds =>
      cases hops'
      cases hstore
      refine h.storeStep hinv hstoreInv (fun c' hc => ?_) (fun op hop => ?_) fun op => ?_
      · have hne : c' ≠ c := hc
        simp [Function.update_of_ne hne]
      · simp only [answerEvent, OpState.setClient, Function.update_self, PushState.ack] at hop
        exact h.ids c op (List.mem_filter.1 hop).1
      · have hold := h.queue c op
        simp only [answerEvent, OpState.setClient, Function.update_self, PushState.ack,
          List.mem_filter, ClientStore.markSynced, hold]
        constructor
        · rintro ⟨⟨p, hp, rfl⟩, hout⟩
          exact ⟨p, ⟨hp, hout⟩, rfl⟩
        · rintro ⟨p, ⟨hp, hout⟩, rfl⟩
          exact ⟨⟨p, hp, rfl⟩, hout⟩
  | reject c rejection =>
      cases hops'
      cases hstore
      have hdrops := @drops_handleReject writer (s.stores c).store
        (rejectMessage rejection serverRow) now batchNow (h.inv c)
      refine h.storeStep hinv hstoreInv (fun c' hc => ?_) (fun op hop => ?_) fun op => ?_
      · have hne : c' ≠ c := hc
        simp [Function.update_of_ne hne]
      · simp only [answerEvent, OpState.setClient, Function.update_self,
          ClientWhole.pendingOps_reject] at hop
        exact h.ids c op (List.mem_filter.1 hop).1
      · have hold := h.queue c op
        have hreject : op ∈ ((s.server.ops.clients c).reject rejection.opId
            rejection.batchId).pendingOps ↔ op ∈ (s.server.ops.clients c).pendingOps ∧
              ¬ ClientWhole.takes rejection.opId rejection.batchId op = true := by
          rw [ClientWhole.pendingOps_reject, List.mem_filter, decide_eq_true_eq]
        simp only [answerEvent, OpState.setClient, Function.update_self, hreject]
        constructor
        · rintro ⟨hpending, hnot⟩
          have hid := h.ids c op hpending
          rcases hold.1 hpending with ⟨p, hp, rfl⟩
          rcases hdrops.rest p hp ((takes_iff_rejects hid).not.1 hnot) with ⟨q, hq, heq⟩
          exact ⟨q, hq, heq⟩
        · rintro ⟨q, hq, rfl⟩
          rcases hdrops.sub q hq with ⟨hnot, p, hp, heq, -⟩
          have hpending := (h.queue c q.op).2 ⟨p, hp, heq⟩
          have hid := h.ids c q.op hpending
          exact ⟨hpending, (takes_iff_rejects hid).not.2 hnot⟩

/-- What the server sends the client leaves the queue alone. -/
theorem ofStore (h : BatchSystemInv cfg s) {c : Nat} {e : RollbackEvent} {store : RollbackState}
    (hs : rollbackStep writer (s.stores c) e = some store)
    (hqueue : store.store.pendingOps = (s.stores c).store.pendingOps) :
    BatchSystemInv cfg ⟨s.server, Function.update s.stores c store⟩ := by
  refine h.storeStep h.server (queueInv_step (h.inv c) hs) (fun _ _ => rfl) (h.ids c) fun op => ?_
  rw [hqueue]
  exact h.queue c op

theorem step (h : BatchSystemInv cfg s) {e : BatchSystemEvent} (hguard : BatchSystemGuard cfg s e)
    (hs : s.step cfg writer e = some s') : BatchSystemInv cfg s' := by
  cases e with
  | create c ops now => exact h.create hs
  | delta c table d =>
      replace hs : s.storeStep writer c (.delta table d) = some s' := hs
      rcases Option.map_eq_some_iff.1 hs with ⟨store, hstore, rfl⟩
      refine h.ofStore hstore ?_
      cases hstore
      rfl
  | snapshot c table msg =>
      replace hs : s.storeStep writer c (.snapshot table msg) = some s' := hs
      rcases Option.map_eq_some_iff.1 hs with ⟨store, hstore, rfl⟩
      refine h.ofStore hstore ?_
      cases hstore
      rfl
  | deliver a serverRow now batchNow => exact h.deliver hs
  | server e =>
      have hdeliver : ∀ a, e ≠ .deliver a := by
        rintro a rfl
        cases hs
      have hs' : (batchStep cfg s.server (.op e)).map
          (fun server => { s with server := server }) = some s' := by
        cases e <;> first | exact hs | exact absurd rfl (hdeliver _)
      rcases Option.map_eq_some_iff.1 hs' with ⟨server, hserver, rfl⟩
      have hinv := h.server.step (show BatchGuard cfg s.server (.op e) from hguard) hserver
      have hcreate : ∀ c op, e ≠ .create c op := by
        rintro c op rfl
        cases hserver
      rw [batchStep_op hcreate] at hserver
      rcases Option.map_eq_some_iff.1 hserver with ⟨ops', hops', rfl⟩
      have hpending := pendingOps_opStep hcreate hdeliver hops'
      refine ⟨hinv, fun c op => ?_, h.inv, fun c op hop => ?_⟩
      · dsimp only
        rw [hpending c]
        exact h.queue c op
      · dsimp only at hop
        rw [hpending c] at hop
        exact h.ids c op hop

theorem returns (h : BatchSystemInv cfg s) {e : BatchSystemEvent}
    (hguard : BatchSystemGuard cfg s e) (hs : s.step cfg writer e = some s') :
    Returns writer s e s' := by
  rintro a serverRow now batchNow c rejection rfl hanswer p hp hrejects
  rcases Option.bind_eq_some_iff.1 hs with ⟨answer, hanswer', hs⟩
  rw [hanswer] at hanswer'
  cases hanswer'
  rcases Option.bind_eq_some_iff.1 hs with ⟨server, -, hs⟩
  rcases Option.map_eq_some_iff.1 hs with ⟨store, hstore, rfl⟩
  have hundoes : Undoes (s.stores c) (rejectMessage rejection serverRow) now batchNow := by
    simpa only [BatchSystemGuard, UndoesAnswer, hanswer] using hguard
  show RolledBack writer (Function.update s.stores c store c) p.op
  rw [Function.update_self]
  exact rolledBack_reject (h.inv c) hundoes hstore hp hrejects

end BatchSystemInv

/-! ## Runs of the condition -/

/-- All or none of each batch, in the runs of the condition. -/
theorem batchWhole_of_reach
    (h : (batchSystem cfg writer).Reach (BatchSystemGuard cfg) s) : BatchWhole cfg writer s := by
  have hinv : BatchSystemInv cfg s :=
    h.invariant (P := BatchSystemInv cfg) (batchSystemInv_start cfg) fun hi hg hs => hi.step hg hs
  exact ⟨hinv.server.atomic, hinv.queue, fun _ _ => hinv.returns⟩

/-! ## Batches on two tasks -/

def tasksServer : OpConfig where
  queries := fun table => if table = "tasks" then some ⟨true, .consistent, false⟩ else none
  reserveOps := true
  applyOpIf := false

def retitleIn (batchId id rowId : String) : ClientOp :=
  ⟨id, "tasks", .update, rowId, some ((∅ : Row).insert "title" (.str id)), "2", some batchId⟩

/-- The client pushes, and call `r` reserves the ops and takes the first. -/
def pushTasks (r now : Nat) : List BatchSystemEvent :=
  [.server (.push 0 now), .server (.send 0 now true false), .server (.receive 0 r),
    .server (.reserve r .ok), .server (.next r)]

/-- The client retitles both tasks. -/
def firstBatch : List BatchSystemEvent :=
  [.snapshot 0 "tasks" twoTasks, .create 0 [retitleIn "one" "op1" "a", retitleIn "one" "op2" "b"] 0]
    ++ pushTasks 0 0

/-- The first op meets a conflict; the next batch is accepted. -/
def firstRefused : List BatchSystemEvent :=
  firstBatch ++
    [.server (.attempt 0 (.reject .serverConflict)), .server (.next 0), .server (.next 0),
      .server (.answer 0 true), .deliver 0 (some (taskRow "a" "wash" 1)) 5 5, .deliver 0 none 5 5,
      .create 0 [retitleIn "two" "op3" "a", retitleIn "two" "op4" "b"] 6] ++ pushTasks 1 6 ++
    [.server (.attempt 1 (.write [] .ok)), .server (.next 1), .server (.attempt 1 (.write [] .ok)),
      .server (.next 1), .server (.answer 1 true), .deliver 0 none 7 7]

/-- The second op meets a conflict. -/
def secondRefused : List BatchSystemEvent :=
  firstBatch ++
    [.server (.attempt 0 (.write [] .ok)), .server (.next 0),
      .server (.attempt 0 (.reject .serverConflict)), .server (.next 0), .server (.answer 0 true),
      .deliver 0 none 5 5, .deliver 0 none 5 5]

/-- The ops whose callbacks ran, those rejected for themselves, and the titles that the client
shows. -/
def BatchSystem.summary (s : BatchSystem) : List String × List String × List (Option Json) :=
  (s.server.mutated.map (·.id), s.server.refused.map (·.id),
    ["a", "b"].map fun rowId =>
      (heldRow ((s.stores 0).store.rows "tasks") (.str rowId)).map (column · "title"))

theorem batchWhole_firstRefused :
    ∃ s, BatchWhole tasksServer tasksConfig s ∧
      s.summary = (["op3", "op4"], ["op1"], [some (.str "op3"), some (.str "op4")]) := by
  have hrun : ((batchSystem tasksServer tasksConfig).runWith
      (fun s e => decide (BatchSystemGuard tasksServer s e))
        (batchSystem tasksServer tasksConfig).init
        firstRefused).map BatchSystem.summary =
      some (["op3", "op4"], ["op1"], [some (.str "op3"), some (.str "op4")]) := by decide +kernel
  rcases Option.map_eq_some_iff.1 hrun with ⟨s, hs, hsummary⟩
  have hreach := Lib.Machine.Reach.of_runWith (fun _ _ h => of_decide_eq_true h) .init hs
  exact ⟨s, batchWhole_of_reach hreach, hsummary⟩

/-- Both answers are delivered: one op of the batch is applied, and the other rejected. -/
theorem not_batchAtomic :
    ¬ ∀ (cfg : OpConfig) (writer : WriterConfig) (s : BatchSystem),
      (batchSystem cfg writer).Reachable s → BatchAtomic s.server := by
  intro h
  have hrun : ((batchSystem tasksServer tasksConfig).run secondRefused).map
      (fun s => (s.server.mutated, s.server.refused, s.server.batchOps "one")) =
      some ([retitleIn "one" "op1" "a"], [retitleIn "one" "op2" "b"],
        [retitleIn "one" "op1" "a", retitleIn "one" "op2" "b"]) := by rfl
  rcases Option.map_eq_some_iff.1 hrun with ⟨s, hs, hstate⟩
  rcases Prod.mk.inj hstate with ⟨hmutated, hstate⟩
  rcases Prod.mk.inj hstate with ⟨hrefused, hops⟩
  have hatomic := h tasksServer tasksConfig s (Lib.Machine.Reachable.of_run hs)
  have huntouched := hatomic.refused (retitleIn "one" "op2" "b") (by rw [hrefused]; simp) "one" rfl
    (retitleIn "one" "op1" "a") (by rw [hops]; simp)
  exact huntouched.2.1 (by rw [hmutated]; simp)

end Sync
end Reflectdb
