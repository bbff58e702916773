import Reflectdb.Sync.PendingOps
import Reflectdb.Sync.WriterMirror

/-!
# Rollback — a rejected op is taken out of the rows the client shows

Beside the store the system carries the rows as the server delivered them: by snapshots, deltas and
the server rows of rejects, and by acks, which make an op's own effect part of the server's state
(the writer gets no delta of its own op).  After a reject the row of the op is what the server
delivered with the ops still pending applied, if the op is young and its row is told by the reject
or kept as it was delivered.
-/

namespace Reflectdb
namespace Sync

open Core Client

variable (cfg : WriterConfig)

/-! ## Runs -/

/-- The client's store, and the rows as the server delivered them. -/
structure RollbackState where
  store : ClientStore
  delivered : String → TableRows

inductive RollbackEvent
  /-- `insert`, `update`, `delete` of the client: `addPendingOp` and `applyOptimistic`. -/
  | create (op : ClientOp) (now : Nat)
  | delta (table : String) (d : Delta)
  | snapshot (table : String) (msg : Snapshot)
  | ack (opIds : List String)
  | reject (msg : RejectMessage) (now batchNow : Nat)

/-- An acked op is what the server holds now. -/
def deliverOp (delivered : String → TableRows) (op : ClientOp) : String → TableRows :=
  Function.update delivered op.table (applyOptimistic cfg (delivered op.table) op)

/-- The server row of a reject, under the row of the op that the reject names. -/
def deliverServerRow (s : RollbackState) (msg : RejectMessage) : String → TableRows :=
  match s.store.pendingOps.find? (msg.namesOp ·.op), msg.serverRow with
  | some p, some row =>
    Function.update s.delivered p.op.table
      (putServerRow (s.delivered p.op.table) p.op.rowId row)
  | _, _ => s.delivered

/-- Op ids are random UUIDs: a new op has the id of no op in the queue. -/
def rollbackStep (s : RollbackState) : RollbackEvent → Option RollbackState
  | .create op now =>
    if s.store.pendingOps.any (·.op.id = op.id) then none
    else some { s with store := (s.store.addPendingOp op now).applyOptimistic cfg op }
  | .delta table d =>
    some
      ⟨s.store.applyDelta cfg table d,
        Function.update s.delivered table
          (Client.applyDelta (cfg.pk table) (s.delivered table) d)⟩
  | .snapshot table msg =>
    some
      ⟨s.store.applySnapshot cfg table msg,
        Function.update s.delivered table (Client.applySnapshot (s.delivered table) msg)⟩
  | .ack opIds =>
    let acked := (s.store.pendingOps.filter (·.op.id ∈ opIds)).map (·.op)
    some ⟨s.store.markSynced opIds, acked.foldl (deliverOp cfg) s.delivered⟩
  | .reject msg now batchNow =>
    some ⟨s.store.handleReject cfg msg now batchNow, deliverServerRow s msg⟩

def rollbackMachine : Lib.Machine RollbackState RollbackEvent :=
  ⟨⟨.empty, fun _ => ∅⟩, rollbackStep cfg⟩

/-! ## The property -/

/-- The pending ops of a row, in the order of their creation. -/
def pendingOn (ps : List PendingOp) (table rowId : String) : List ClientOp :=
  ((ps.filter fun p => p.onRow table rowId).filter (·.status = .pending)).map (·.op)

/-- The op is out of the queue, and its row shows what the server delivered with the pending ops of
the row applied on it. -/
structure RolledBack (s : RollbackState) (op : ClientOp) : Prop where
  gone : ∀ p ∈ s.store.pendingOps, p.op.id ≠ op.id
  shows : heldRow (s.store.rows op.table) (.str op.rowId) =
    heldRow ((pendingOn s.store.pendingOps op.table op.rowId).foldl (applyOptimistic cfg)
      (s.delivered op.table)) (.str op.rowId)

/-! ## The condition -/

/-- The row kept with the earliest op of the row is still the row that the server delivered. -/
def KeptCurrent (s : RollbackState) (table rowId : String) : Prop :=
  ∀ first, s.store.pendingOps.find? (·.onRow table rowId) = some first →
    first.preState.bind (·.data) = heldRow (s.delivered table) (.str rowId)

/-- The reject carries the server's row, and it is this row. -/
def TellsRow (s : RollbackState) (msg : RejectMessage) (table rowId : String) : Prop :=
  msg.serverRow.isSome ∧
    ∃ p ∈ s.store.pendingOps, msg.namesOp p.op ∧ p.onRow table rowId

/-- Every op that the reject takes is younger than the time for which rejected ops are kept, and
its row is told by the reject or is kept as the server delivered it. -/
structure Undoes (s : RollbackState) (msg : RejectMessage) (now batchNow : Nat) : Prop where
  young : ∀ p ∈ s.store.pendingOps, msg.namesOp p.op → now < p.createdAt + REJECTED_TTL_MS
  batchYoung : ∀ p ∈ s.store.pendingOps, msg.namesBatch p.op → ¬ msg.namesOp p.op →
    batchNow < p.createdAt + REJECTED_TTL_MS
  kept : ∀ p ∈ s.store.pendingOps, msg.rejects p.op →
    TellsRow s msg p.op.table p.op.rowId ∨ KeptCurrent s p.op.table p.op.rowId

variable {cfg}

/-! ## Rows and their data -/

/-- What the op makes of the data of its row. -/
def optimisticData (cfg : WriterConfig) (data : Option Row) (op : ClientOp) : Option Row :=
  match op.op, data with
  | .delete, _ => none
  | _, some data => some ((localPayload cfg op).getD ∅ ∪ data)
  | .insert, none => some ((localPayload cfg op).getD ∅)
  | .update, none => none

theorem heldRow_foldl_applyOptimistic {rowId : String} {ops : List ClientOp} :
    (∀ op ∈ ops, op.rowId = rowId) → ∀ t : TableRows,
      heldRow (ops.foldl (applyOptimistic cfg) t) (.str rowId) =
        ops.foldl (optimisticData cfg) (heldRow t (.str rowId)) := by
  induction ops with
  | nil => intro _ t; rfl
  | cons op ops ih =>
      intro hops t
      have hrow : op.rowId = rowId := hops op List.mem_cons_self
      have hdata : heldRow (applyOptimistic cfg t op) (.str rowId) =
          optimisticData cfg (heldRow t (.str rowId)) op := by
        rw [← hrow]
        exact heldRow_applyOptimistic t op
      rw [List.foldl_cons, List.foldl_cons, ← hdata]
      exact ih (fun op' hop' => hops op' (List.mem_cons_of_mem _ hop')) _

theorem heldRow_foldl_applyOptimistic_ne {key : Json} {ops : List ClientOp} :
    (∀ op ∈ ops, key ≠ .str op.rowId) → ∀ t : TableRows,
      heldRow (ops.foldl (applyOptimistic cfg) t) key = heldRow t key := by
  induction ops with
  | nil => intro _ t; rfl
  | cons op ops ih =>
      intro hops t
      rw [List.foldl_cons, ih (fun op' hop' => hops op' (List.mem_cons_of_mem _ hop'))]
      exact heldRow_applyOptimistic_ne (hops op List.mem_cons_self)

theorem getRow_data (t : TableRows) (rowId : String) :
    (getRow t rowId).bind (·.data) = heldRow t (.str rowId) := by
  unfold getRow heldRow
  cases hrow : t.lookup (.str rowId) with
  | none => rfl
  | some row => cases hdata : row.data <;> simp [Option.filter, hdata]

theorem heldRow_setRow (t : TableRows) (rowId : String) (row : LocalRow) :
    heldRow (setRow t rowId row) (.str rowId) = row.data := by
  unfold setRow
  split
  · rename_i h
    have hdata : row.data = none := by
      cases hd : row.data with
      | none => rfl
      | some _ => simp [hd] at h
    simp [heldRow, hdata]
  · simp [heldRow]

theorem heldRow_setRow_ne {t : TableRows} {rowId : String} {row : LocalRow} {key : Json}
    (h : key ≠ .str rowId) : heldRow (setRow t rowId row) key = heldRow t key := by
  unfold setRow heldRow
  split
  · rw [AList.lookup_erase_ne h]
  · rw [AList.lookup_insert_ne h]

theorem heldRow_putServerRow (t : TableRows) (rowId : String) (row : Row) :
    heldRow (putServerRow t rowId row) (.str rowId) = some row :=
  heldRow_setRow ..

/-! ## The ops of a row -/

namespace PendingOp

theorem onRow_iff {table rowId : String} {p : PendingOp} :
    p.onRow table rowId = true ↔ p.op.table = table ∧ p.op.rowId = rowId := by
  simp [onRow]

/-- An op without the row it keeps. -/
def forget (p : PendingOp) : PendingOp :=
  { p with preState := none }

end PendingOp

theorem pendingOn_eq (ps : List PendingOp) (table rowId : String) :
    pendingOn ps table rowId = pendingOn (ps.map PendingOp.forget) table rowId := by
  simp only [pendingOn, List.filter_map, List.map_map]
  rfl

theorem rowId_of_mem_pendingOn {ps : List PendingOp} {table rowId : String} {op : ClientOp}
    (h : op ∈ pendingOn ps table rowId) : op.rowId = rowId := by
  simp only [pendingOn, List.mem_map, List.mem_filter] at h
  rcases h with ⟨p, ⟨⟨_, hrow⟩, _⟩, rfl⟩
  exact (PendingOp.onRow_iff.1 hrow).2

/-! ## The loop of `revertOp` -/

namespace ClientStore

section replayRest

variable {table rowId : String}

/-- The loop changes the rows kept with the ops and nothing else of them. -/
theorem map_forget_replayRest (ps : List PendingOp) :
    ∀ t : TableRows, (replayRest cfg table rowId t ps).2.map PendingOp.forget =
      ps.map PendingOp.forget := by
  induction ps with
  | nil => intro t; rfl
  | cons p ps ih =>
      intro t
      by_cases hrow : p.onRow table rowId
      · simp [replayRest, hrow, ih, PendingOp.forget]
      · simp [replayRest, hrow, ih]

/-- The pending ops of the row are applied in the order of the queue. -/
theorem replayRest_fst (ps : List PendingOp) :
    ∀ t : TableRows, (replayRest cfg table rowId t ps).1 =
      (pendingOn ps table rowId).foldl (Sync.applyOptimistic cfg) t := by
  induction ps with
  | nil => intro t; rfl
  | cons p ps ih =>
      intro t
      by_cases hrow : p.onRow table rowId
      · by_cases hstatus : p.status = .pending
        · simp [replayRest, hrow, hstatus, ih, pendingOn]
        · simp [replayRest, hrow, hstatus, ih, pendingOn]
      · simp [replayRest, hrow, ih, pendingOn]

/-- The earliest op of the row keeps the base of the replay. -/
theorem find_replayRest {ps : List PendingOp} {first : PendingOp} :
    ∀ {t : TableRows},
      (replayRest cfg table rowId t ps).2.find? (·.onRow table rowId) = some first →
        first.preState = getRow t rowId := by
  induction ps with
  | nil => intro t h; cases h
  | cons p ps ih =>
      intro t h
      by_cases hrow : p.onRow table rowId
      · have hnew : ({ p with preState := getRow t rowId } : PendingOp).onRow table rowId := hrow
        rw [replayRest, if_pos hrow] at h
        simp only [List.find?_cons_of_pos hnew, Option.some.injEq] at h
        rw [← h]
      · rw [replayRest, if_neg hrow] at h
        simp only [List.find?_cons_of_neg hrow] at h
        exact ih h

/-- The ops of other rows are left as they are. -/
theorem filter_replayRest {table' rowId' : String} (hne : ¬ (table' = table ∧ rowId' = rowId))
    (ps : List PendingOp) :
    ∀ t : TableRows, (replayRest cfg table rowId t ps).2.filter (·.onRow table' rowId') =
      ps.filter (·.onRow table' rowId') := by
  induction ps with
  | nil => intro t; rfl
  | cons p ps ih =>
      intro t
      by_cases hrow : p.onRow table rowId
      · have hother : p.onRow table' rowId' = false := by
          refine Bool.eq_false_iff.2 fun h => hne ?_
          rcases PendingOp.onRow_iff.1 hrow with ⟨rfl, rfl⟩
          rcases PendingOp.onRow_iff.1 h with ⟨htable, hrowId⟩
          exact ⟨htable.symm, hrowId.symm⟩
        have hother' : ({ p with preState := getRow t rowId } : PendingOp).onRow table' rowId' =
            false := hother
        simp [replayRest, hrow, ih, hother, hother']
      · simp [replayRest, hrow, ih, List.filter_cons]

end replayRest

end ClientStore

/-! ## One revert -/

/-- Every op in the queue is pending, and no two have the same id. -/
structure QueueInv (ps : List PendingOp) : Prop where
  pending : ∀ p ∈ ps, p.status = .pending
  nodup : (ps.map (·.op.id)).Nodup

/-- The row shows `data` with the pending ops of the row applied. -/
def ShowsOver (cfg : WriterConfig) (s : ClientStore) (table rowId : String) (data : Option Row) :
    Prop :=
  heldRow (s.rows table) (.str rowId) =
    (pendingOn s.pendingOps table rowId).foldl (optimisticData cfg) data

/-- The earliest op of the row keeps `data`. -/
def Keeps (ps : List PendingOp) (table rowId : String) (data : Option Row) : Prop :=
  ∀ first, ps.find? (·.onRow table rowId) = some first → first.preState.bind (·.data) = data

/-- Without its first op of the id, a queue is without the id. -/
theorem eraseP_eq_filter {opId : String} {ps : List PendingOp}
    (h : (ps.map (·.op.id)).Nodup) :
    ps.eraseP (·.op.id = opId) = ps.filter (·.op.id ≠ opId) := by
  induction ps with
  | nil => rfl
  | cons p ps ih =>
      rw [List.map_cons, List.nodup_cons] at h
      by_cases hid : p.op.id = opId
      · have hrest : ∀ q ∈ ps, q.op.id ≠ opId := by
          intro q hq heq
          exact h.1 (List.mem_map.2 ⟨q, hq, heq.trans hid.symm⟩)
        rw [List.eraseP_cons_of_pos (by simpa using hid),
          List.filter_cons_of_neg (by simpa using hid)]
        exact (List.filter_eq_self.2 fun q hq => by simpa using hrest q hq).symm
      · rw [List.eraseP_cons_of_neg (by simpa using hid),
          List.filter_cons_of_pos (by simpa using hid), ih h.2]

theorem filter_ne_of_forget {opId : String} {ps qs : List PendingOp}
    (h : ps.map PendingOp.forget = (qs.filter (·.op.id ≠ opId)).map PendingOp.forget) :
    ps.filter (·.op.id ≠ opId) = ps := by
  refine List.filter_eq_self.2 fun p hp => ?_
  have hmem : p.forget ∈ (qs.filter (·.op.id ≠ opId)).map PendingOp.forget :=
    h ▸ List.mem_map_of_mem hp
  rcases List.mem_map.1 hmem with ⟨q, hq, heq⟩
  have hid : q.op.id = p.op.id := congrArg (·.op.id) heq
  simpa [← hid] using (List.mem_filter.1 hq).2

section revertOp

variable {s : ClientStore} {opId : String}

theorem revertOp_of_find_none {serverRow : Option Row}
    (h : s.pendingOps.find? (·.op.id = opId) = none) : s.revertOp cfg opId serverRow = s := by
  simp [ClientStore.revertOp, h]

/-- The queue after a revert. -/
theorem pendingOps_revertOp {serverRow : Option Row} {p : PendingOp}
    (hnodup : (s.pendingOps.map (·.op.id)).Nodup)
    (hfind : s.pendingOps.find? (·.op.id = opId) = some p) :
    (s.revertOp cfg opId serverRow).pendingOps =
      (ClientStore.replayRest cfg p.op.table p.op.rowId (s.revertBase p.op serverRow)
        (s.pendingOps.filter (·.op.id ≠ opId))).2 := by
  have heq : (s.revertOp cfg opId serverRow).pendingOps =
      (ClientStore.replayRest cfg p.op.table p.op.rowId (s.revertBase p.op serverRow)
        (s.pendingOps.eraseP (·.op.id = opId))).2.filter (·.op.id ≠ opId) := by
    rw [ClientStore.revertOp, hfind]
  rw [heq, eraseP_eq_filter hnodup]
  -- The loop keeps the ids, so the last filter of the queue has nothing left to drop.
  exact filter_ne_of_forget (ClientStore.map_forget_replayRest ..)

/-- The rows after a revert. -/
theorem rows_revertOp {serverRow : Option Row} {p : PendingOp}
    (hnodup : (s.pendingOps.map (·.op.id)).Nodup)
    (hfind : s.pendingOps.find? (·.op.id = opId) = some p) :
    (s.revertOp cfg opId serverRow).rows =
      Function.update s.rows p.op.table
        (ClientStore.replayRest cfg p.op.table p.op.rowId (s.revertBase p.op serverRow)
          (s.pendingOps.filter (·.op.id ≠ opId))).1 := by
  rw [ClientStore.revertOp, hfind, ← eraseP_eq_filter hnodup]

theorem heldRow_revertBase_ne {op : ClientOp} {serverRow : Option Row} {key : Json}
    (h : key ≠ .str op.rowId) :
    heldRow (s.revertBase op serverRow) key = heldRow (s.rows op.table) key := by
  simp only [ClientStore.revertBase]
  split
  · exact heldRow_setRow_ne h
  · exact heldRow_setRow_ne h
  · rw [heldRow, AList.lookup_erase_ne h, ← heldRow]

theorem heldRow_revertBase_some (s : ClientStore) (op : ClientOp) (row : Row) :
    heldRow (s.revertBase op (some row)) (.str op.rowId) = some row :=
  heldRow_putServerRow ..

theorem heldRow_revertBase_none {p : PendingOp} {data : Option Row} (hp : p ∈ s.pendingOps)
    (h : Keeps s.pendingOps p.op.table p.op.rowId data) :
    heldRow (s.revertBase p.op none) (.str p.op.rowId) = data := by
  have hfirst : ∃ first, s.pendingOps.find? (·.onRow p.op.table p.op.rowId) = some first :=
    Option.isSome_iff_exists.1
      (List.find?_isSome.2 ⟨p, hp, PendingOp.onRow_iff.2 ⟨rfl, rfl⟩⟩)
  rcases hfirst with ⟨first, hfirst⟩
  have hdata := h first hfirst
  have hhead : (s.pendingOps.filter (·.onRow p.op.table p.op.rowId)).head? = some first := by
    rw [List.head?_filter, hfirst]
  cases hpre : first.preState with
  | none =>
      have hbase : s.revertBase p.op none = (s.rows p.op.table).erase (.str p.op.rowId) := by
        simp only [ClientStore.revertBase, hhead, Option.bind_some, hpre]
      rw [hbase, heldRow, AList.lookup_erase, ← hdata, hpre]
  | some preState =>
      have hbase : s.revertBase p.op none = setRow (s.rows p.op.table) p.op.rowId preState := by
        simp only [ClientStore.revertBase, hhead, Option.bind_some, hpre]
      rw [hbase, heldRow_setRow, ← hdata, hpre]
      rfl

/-- The reverted op's row shows the base with its other pending ops applied, and its earliest op
keeps the base. -/
theorem revertOp_row {serverRow data : Option Row} {p : PendingOp}
    (hnodup : (s.pendingOps.map (·.op.id)).Nodup)
    (hfind : s.pendingOps.find? (·.op.id = opId) = some p)
    (hbase : heldRow (s.revertBase p.op serverRow) (.str p.op.rowId) = data) :
    ShowsOver cfg (s.revertOp cfg opId serverRow) p.op.table p.op.rowId data ∧
      Keeps (s.revertOp cfg opId serverRow).pendingOps p.op.table p.op.rowId data := by
  have hqueue := @pendingOps_revertOp cfg s opId serverRow p hnodup hfind
  constructor
  · unfold ShowsOver
    rw [rows_revertOp hnodup hfind, Function.update_self, ClientStore.replayRest_fst,
      heldRow_foldl_applyOptimistic fun _ => rowId_of_mem_pendingOn, hbase]
    rw [hqueue, pendingOn_eq (ClientStore.replayRest ..).2, ClientStore.map_forget_replayRest,
      ← pendingOn_eq]
  · intro first hfirst
    rw [hqueue] at hfirst
    rw [ClientStore.find_replayRest hfirst, getRow_data, hbase]

/-- A revert leaves the other rows and their ops alone. -/
theorem revertOp_otherRow {serverRow : Option Row} {p : PendingOp} {table rowId : String}
    (hnodup : (s.pendingOps.map (·.op.id)).Nodup)
    (hfind : s.pendingOps.find? (·.op.id = opId) = some p)
    (hne : ¬ (table = p.op.table ∧ rowId = p.op.rowId)) :
    heldRow ((s.revertOp cfg opId serverRow).rows table) (.str rowId) =
        heldRow (s.rows table) (.str rowId) ∧
      (s.revertOp cfg opId serverRow).pendingOps.filter (·.onRow table rowId) =
        s.pendingOps.filter (·.onRow table rowId) := by
  constructor
  · rw [rows_revertOp hnodup hfind]
    by_cases htable : table = p.op.table
    · subst htable
      have hrow : (.str rowId : Json) ≠ .str p.op.rowId := by
        simpa using fun h => hne ⟨rfl, h⟩
      rw [Function.update_self, ClientStore.replayRest_fst, heldRow_foldl_applyOptimistic_ne,
        heldRow_revertBase_ne hrow]
      intro op hop
      rwa [rowId_of_mem_pendingOn hop]
    · rw [Function.update_of_ne htable]
  · rw [pendingOps_revertOp hnodup hfind, ClientStore.filter_replayRest hne, List.filter_filter]
    refine List.filter_congr fun q hq => ?_
    -- Ids are not repeated: an op with the reverted id is the reverted op, which is on another row.
    by_cases hrow : q.onRow table rowId
    · have hid : q.op.id ≠ opId := by
        intro hid
        have hp := List.mem_of_find?_eq_some hfind
        have hpid : p.op.id = opId := by simpa using List.find?_some hfind
        have heq : q = p := List.inj_on_of_nodup_map hnodup hq hp (hid.trans hpid.symm)
        rcases PendingOp.onRow_iff.1 hrow with ⟨htable, hrowId⟩
        exact hne ⟨heq ▸ htable.symm, heq ▸ hrowId.symm⟩
      simp [hid]
    · simp [hrow]

/-- The queue after a revert, but for the rows that its ops keep. -/
theorem forget_revertOp (hnodup : (s.pendingOps.map (·.op.id)).Nodup) (serverRow : Option Row) :
    (s.revertOp cfg opId serverRow).pendingOps.map PendingOp.forget =
      (s.pendingOps.filter (·.op.id ≠ opId)).map PendingOp.forget := by
  cases hfind : s.pendingOps.find? (·.op.id = opId) with
  | none =>
      have hself : s.pendingOps.filter (·.op.id ≠ opId) = s.pendingOps := by
        refine List.filter_eq_self.2 fun p hp => ?_
        simpa using List.find?_eq_none.1 hfind p hp
      rw [revertOp_of_find_none hfind, hself]
  | some p =>
      rw [pendingOps_revertOp hnodup hfind]
      exact ClientStore.map_forget_replayRest ..

end revertOp

theorem ids_of_forget {ps qs : List PendingOp}
    (h : ps.map PendingOp.forget = qs.map PendingOp.forget) :
    ps.map (·.op.id) = qs.map (·.op.id) := by
  have hids := congrArg (List.map fun p : PendingOp => p.op.id) h
  simp only [List.map_map] at hids
  exact hids

theorem nodup_revertOp {s : ClientStore} {opId : String} {serverRow : Option Row}
    (hnodup : (s.pendingOps.map (·.op.id)).Nodup) :
    ((s.revertOp cfg opId serverRow).pendingOps.map (·.op.id)).Nodup := by
  rw [ids_of_forget (forget_revertOp hnodup serverRow)]
  exact hnodup.sublist (List.filter_sublist.map _)

theorem keeps_congr {ps qs : List PendingOp} {table rowId : String} {data : Option Row}
    (h : qs.filter (·.onRow table rowId) = ps.filter (·.onRow table rowId))
    (hkeeps : Keeps ps table rowId data) : Keeps qs table rowId data := by
  intro first hfirst
  rw [← List.head?_filter, h, List.head?_filter] at hfirst
  exact hkeeps first hfirst

theorem showsOver_congr {s s' : ClientStore} {table rowId : String} {data : Option Row}
    (hrows : heldRow (s'.rows table) (.str rowId) = heldRow (s.rows table) (.str rowId))
    (h : s'.pendingOps.filter (·.onRow table rowId) = s.pendingOps.filter (·.onRow table rowId))
    (hshows : ShowsOver cfg s table rowId data) : ShowsOver cfg s' table rowId data := by
  unfold ShowsOver pendingOn at *
  rw [hrows, h, hshows]

/-! ## The reverts of a batch -/

/-- Reverting ops one after the other, with no server row: a row whose earliest op keeps `data`
goes on keeping it, and shows it, with the pending ops of the row applied, if it did before or if
one of its ops is reverted. -/
theorem foldl_revertOp_row {table rowId : String} {data : Option Row} (ids : List String) :
    ∀ s : ClientStore, (s.pendingOps.map (·.op.id)).Nodup → Keeps s.pendingOps table rowId data →
      let s' := ids.foldl (fun s opId => s.revertOp cfg opId none) s
      Keeps s'.pendingOps table rowId data ∧
        ((ShowsOver cfg s table rowId data ∨
            ∃ p ∈ s.pendingOps, p.op.id ∈ ids ∧ p.onRow table rowId = true) →
          ShowsOver cfg s' table rowId data) := by
  induction ids with
  | nil =>
      intro s _ hkeeps
      refine ⟨hkeeps, fun h => ?_⟩
      rcases h with hshows | ⟨p, _, hid, _⟩
      · exact hshows
      · cases hid
  | cons opId ids ih =>
      intro s hnodup hkeeps
      have hnodup' := @nodup_revertOp cfg s opId none hnodup
      cases hfind : s.pendingOps.find? (·.op.id = opId) with
      | none =>
          rw [revertOp_of_find_none hfind] at hnodup'
          rw [List.foldl_cons, revertOp_of_find_none hfind]
          rcases ih s hnodup hkeeps with ⟨hkeeps', hshows'⟩
          refine ⟨hkeeps', fun h => hshows' (h.imp_right ?_)⟩
          rintro ⟨p, hp, hid, hrow⟩
          rcases List.mem_cons.1 hid with heq | hid
          · exact absurd (by simpa using heq) (List.find?_eq_none.1 hfind p hp)
          · exact ⟨p, hp, hid, hrow⟩
      | some q =>
          have hq := List.mem_of_find?_eq_some hfind
          have hqid : q.op.id = opId := by simpa using List.find?_some hfind
          rw [List.foldl_cons]
          by_cases hrow : table = q.op.table ∧ rowId = q.op.rowId
          · -- The row itself is rebuilt on what its earliest op keeps.
            rcases hrow with ⟨rfl, rfl⟩
            rcases revertOp_row hnodup hfind (heldRow_revertBase_none hq hkeeps)
              with ⟨hshows₁, hkeeps₁⟩
            rcases ih _ hnodup' hkeeps₁ with ⟨hkeeps', hshows'⟩
            exact ⟨hkeeps', fun _ => hshows' (.inl hshows₁)⟩
          · rcases @revertOp_otherRow cfg s opId none q table rowId hnodup hfind hrow
              with ⟨hrows, hfilter⟩
            rcases ih _ hnodup' (keeps_congr hfilter hkeeps) with ⟨hkeeps', hshows'⟩
            refine ⟨hkeeps', fun h => hshows' (h.imp (showsOver_congr hrows hfilter) ?_)⟩
            rintro ⟨p, hp, hid, hprow⟩
            have hmem : p ∈ (s.revertOp cfg opId none).pendingOps.filter
                (·.onRow table rowId) := hfilter ▸ List.mem_filter.2 ⟨hp, hprow⟩
            rcases List.mem_cons.1 hid with heq | hid
            · have hpq : p = q := List.inj_on_of_nodup_map hnodup hp hq (heq.trans hqid.symm)
              rcases PendingOp.onRow_iff.1 hprow with ⟨htable, hrowId⟩
              exact absurd ⟨hpq ▸ htable.symm, hpq ▸ hrowId.symm⟩ hrow
            · exact ⟨p, (List.mem_filter.1 hmem).1, hid, hprow⟩

theorem forget_foldl_revertOp (ids : List String) :
    ∀ s : ClientStore, (s.pendingOps.map (·.op.id)).Nodup →
      (ids.foldl (fun s opId => s.revertOp cfg opId none) s).pendingOps.map PendingOp.forget =
        (s.pendingOps.filter (·.op.id ∉ ids)).map PendingOp.forget := by
  induction ids with
  | nil => intro s _; simp
  | cons opId ids ih =>
      intro s hnodup
      have hforget := @forget_revertOp cfg s opId hnodup none
      rw [List.foldl_cons, ih _ (nodup_revertOp hnodup)]
      calc
        ((s.revertOp cfg opId none).pendingOps.filter (·.op.id ∉ ids)).map PendingOp.forget
            = ((s.revertOp cfg opId none).pendingOps.map PendingOp.forget).filter
                (·.op.id ∉ ids) := by rw [List.filter_map]; rfl
        _ = ((s.pendingOps.filter (·.op.id ≠ opId)).map PendingOp.forget).filter
                (·.op.id ∉ ids) := by rw [hforget]
        _ = ((s.pendingOps.filter (·.op.id ≠ opId)).filter (·.op.id ∉ ids)).map
                PendingOp.forget := by rw [List.filter_map]; rfl
        _ = (s.pendingOps.filter (·.op.id ∉ opId :: ids)).map PendingOp.forget := by
            rw [List.filter_filter]
            congr 2
            funext p
            by_cases hid : p.op.id = opId <;> simp [hid]

/-! ## Marking ops as rejected -/

/-- The queue with some of its ops marked as rejected. -/
def rejectWhere (c : ClientOp → Bool) (reason : ErrorReason) (ps : List PendingOp) :
    List PendingOp :=
  ps.map fun p => if c p.op then p.reject reason else p

section rejectWhere

variable {c : ClientOp → Bool} {reason : ErrorReason} {ps : List PendingOp}

theorem rejectWhere_cons (p : PendingOp) (ps : List PendingOp) :
    rejectWhere c reason (p :: ps) =
      (if c p.op then p.reject reason else p) :: rejectWhere c reason ps :=
  rfl

theorem mem_rejectWhere {q : PendingOp} (h : q ∈ rejectWhere c reason ps) :
    ∃ p ∈ ps, p.op = q.op ∧ p.createdAt = q.createdAt ∧ (c q.op = false → q = p) := by
  rcases List.mem_map.1 h with ⟨p, hp, rfl⟩
  refine ⟨p, hp, ?_⟩
  by_cases hc : c p.op
  · simp [hc, PendingOp.reject]
  · simp [hc]

theorem ids_rejectWhere : (rejectWhere c reason ps).map (·.op.id) = ps.map (·.op.id) := by
  rw [rejectWhere, List.map_map]
  refine List.map_congr_left fun p _ => ?_
  by_cases hc : c p.op <;> simp [hc, PendingOp.reject]

theorem onRow_rejectWhere {table rowId : String} (p : PendingOp) :
    (if c p.op then p.reject reason else p).onRow table rowId = p.onRow table rowId := by
  by_cases hc : c p.op <;> simp [hc, PendingOp.reject, PendingOp.onRow]

theorem keeps_rejectWhere {table rowId : String} {data : Option Row}
    (h : Keeps ps table rowId data) : Keeps (rejectWhere c reason ps) table rowId data := by
  intro first hfirst
  rw [rejectWhere, List.find?_map] at hfirst
  rcases Option.map_eq_some_iff.1 hfirst with ⟨p, hp, rfl⟩
  have hrow : ps.find? (·.onRow table rowId) = some p := by
    rw [← hp]
    congr 1
    funext p
    exact (onRow_rejectWhere p).symm
  by_cases hc : c p.op
  · simpa [hc, PendingOp.reject] using h p hrow
  · simpa [hc] using h p hrow

theorem filter_rejectWhere {table rowId : String}
    (h : ∀ p ∈ ps, p.onRow table rowId = true → c p.op = false) :
    (rejectWhere c reason ps).filter (·.onRow table rowId) = ps.filter (·.onRow table rowId) := by
  induction ps with
  | nil => rfl
  | cons p ps ih =>
      have hps := ih fun q hq => h q (List.mem_cons_of_mem _ hq)
      have hrow := @onRow_rejectWhere c reason table rowId p
      by_cases hp : p.onRow table rowId
      · have hc := h p List.mem_cons_self hp
        rw [rejectWhere_cons, if_neg (by simp [hc]), List.filter_cons_of_pos hp, hps,
          List.filter_cons_of_pos hp]
      · rw [rejectWhere_cons, List.filter_cons_of_neg (by simpa [hrow] using hp), hps,
          List.filter_cons_of_neg hp]

/-- Whatever the age of the marked ops, the others are not trimmed. -/
theorem filter_trim_rejectWhere {now : Nat} {rows : String → TableRows}
    (hpending : ∀ p ∈ ps, p.status = .pending) :
    (ClientStore.autoTrimRejected ⟨rejectWhere c reason ps, rows⟩ now).pendingOps.filter
        (fun p => ! c p.op) =
      (rejectWhere c reason ps).filter fun p => ! c p.op := by
  simp only [ClientStore.autoTrimRejected]
  rw [List.filter_filter]
  refine List.filter_congr fun q hq => ?_
  rcases mem_rejectWhere hq with ⟨p, hp, _, _, hsame⟩
  cases hc : c q.op with
  | true => rfl
  | false => simp [hsame hc, hpending p hp]

theorem nodup_trim_rejectWhere {now : Nat} {rows : String → TableRows}
    (hnodup : (ps.map (·.op.id)).Nodup) :
    ((ClientStore.autoTrimRejected ⟨rejectWhere c reason ps, rows⟩ now).pendingOps.map
      (·.op.id)).Nodup := by
  refine List.Nodup.sublist (List.filter_sublist.map _) ?_
  rw [ids_rejectWhere]
  exact hnodup

/-- Nothing is trimmed where the marked ops are young and the others pending. -/
theorem trim_rejectWhere {now : Nat} {rows : String → TableRows}
    (hpending : ∀ p ∈ ps, p.status = .pending)
    (hyoung : ∀ p ∈ ps, c p.op = true → now < p.createdAt + REJECTED_TTL_MS) :
    ClientStore.autoTrimRejected ⟨rejectWhere c reason ps, rows⟩ now =
      ⟨rejectWhere c reason ps, rows⟩ := by
  have hall : (rejectWhere c reason ps).filter
      (fun p => p.status ≠ .rejected ∨ now < p.createdAt + REJECTED_TTL_MS) =
        rejectWhere c reason ps := by
    refine List.filter_eq_self.2 fun q hq => ?_
    rcases mem_rejectWhere hq with ⟨p, hp, hop, hat, hsame⟩
    cases hc : c q.op with
    | true => simpa [← hat] using .inr (hyoung p hp (hop ▸ hc))
    | false => simp [hsame hc, hpending p hp]
  simp only [ClientStore.autoTrimRejected, hall]

theorem rejectFirst_eq {opId : String} (h : (ps.map (·.op.id)).Nodup) :
    ClientStore.rejectFirst opId reason ps = rejectWhere (·.id = opId) reason ps := by
  induction ps with
  | nil => rfl
  | cons p ps ih =>
      rw [List.map_cons, List.nodup_cons] at h
      by_cases hid : p.op.id = opId
      · have hrest : rejectWhere (·.id = opId) reason ps = ps := by
          refine (List.map_congr_left fun q hq => ?_).trans (List.map_id ps)
          have hne : q.op.id ≠ opId := fun heq =>
            h.1 (List.mem_map.2 ⟨q, hq, heq.trans hid.symm⟩)
          simp [hne]
        rw [rejectWhere_cons, hrest, ClientStore.rejectFirst, if_pos hid,
          if_pos (by simpa using hid)]
      · rw [rejectWhere_cons, ← ih h.2, ClientStore.rejectFirst, if_neg hid,
          if_neg (by simpa using hid)]

end rejectWhere

/-! ## A reject message -/

/-- `qs` is the queue `ps` without the dropped ops, and in order again. -/
structure Drops (ps qs : List PendingOp) (dropped : ClientOp → Prop) : Prop where
  sub : ∀ q ∈ qs, ¬ dropped q.op ∧ ∃ p ∈ ps, p.op = q.op ∧ p.createdAt = q.createdAt
  rest : ∀ p ∈ ps, ¬ dropped p.op → ∃ q ∈ qs, q.op = p.op
  inv : QueueInv qs

theorem Drops.refl {ps : List PendingOp} {dropped : ClientOp → Prop} (hinv : QueueInv ps)
    (h : ∀ p ∈ ps, ¬ dropped p.op) : Drops ps ps dropped :=
  ⟨fun q hq => ⟨h q hq, q, hq, rfl, rfl⟩, fun p hp _ => ⟨p, hp, rfl⟩, hinv⟩

theorem Drops.of_forget {ps qs : List PendingOp} {dropped : ClientOp → Prop} {c : ClientOp → Bool}
    {reason : ErrorReason} (hinv : QueueInv ps) (hc : ∀ op, c op = true ↔ dropped op)
    (h : qs.map PendingOp.forget =
      ((rejectWhere c reason ps).filter fun p => ! c p.op).map PendingOp.forget) :
    Drops ps qs dropped := by
  have hsub : ∀ q ∈ qs, ∃ p ∈ ps, p.forget = q.forget ∧ c p.op = false := by
    intro q hq
    have hmem : q.forget ∈ ((rejectWhere c reason ps).filter fun p => ! c p.op).map
        PendingOp.forget := h ▸ List.mem_map_of_mem hq
    rcases List.mem_map.1 hmem with ⟨r, hr, hforget⟩
    rcases List.mem_filter.1 hr with ⟨hr, hcr⟩
    rcases mem_rejectWhere hr with ⟨p, hp, _, _, hsame⟩
    have hcr' : c r.op = false := by simpa using hcr
    exact ⟨p, hp, hsame hcr' ▸ hforget, hsame hcr' ▸ hcr'⟩
  refine ⟨fun q hq => ?_, fun p hp hnot => ?_, fun q hq => ?_, ?_⟩
  · rcases hsub q hq with ⟨p, hp, hforget, hcp⟩
    have hop : p.op = q.op := congrArg (·.op) hforget
    refine ⟨?_, p, hp, hop, congrArg (·.createdAt) hforget⟩
    rw [← hc, ← hop, hcp]
    exact Bool.false_ne_true
  · have hcp : c p.op = false := Bool.eq_false_iff.2 fun hcp => hnot ((hc p.op).1 hcp)
    have hmem : p ∈ (rejectWhere c reason ps).filter fun p => ! c p.op := by
      refine List.mem_filter.2 ⟨List.mem_map.2 ⟨p, hp, ?_⟩, by simp [hcp]⟩
      simp [hcp]
    have hforget : p.forget ∈ qs.map PendingOp.forget := h ▸ List.mem_map_of_mem hmem
    rcases List.mem_map.1 hforget with ⟨q, hq, heq⟩
    exact ⟨q, hq, congrArg (·.op) heq⟩
  · rcases hsub q hq with ⟨p, hp, hforget, _⟩
    have hstatus : p.status = q.status := congrArg (·.status) hforget
    rw [← hstatus, hinv.pending p hp]
  · rw [ids_of_forget h]
    refine List.Nodup.sublist (List.filter_sublist.map _) ?_
    rw [ids_rejectWhere]
    exact hinv.nodup

section rejectOp

variable {s : ClientStore} {msg : RejectMessage} {now : Nat}

theorem markRejected_eq {opId : String} {reason : ErrorReason} (hinv : QueueInv s.pendingOps)
    (hyoung : ∀ p ∈ s.pendingOps, p.op.id = opId → now < p.createdAt + REJECTED_TTL_MS) :
    s.markRejected opId reason now = ⟨rejectWhere (·.id = opId) reason s.pendingOps, s.rows⟩ := by
  rw [ClientStore.markRejected, rejectFirst_eq hinv.nodup]
  exact trim_rejectWhere hinv.pending fun p hp hid => hyoung p hp (by simpa using hid)

/-- The reject of an op that is not in the queue does nothing. -/
theorem rejectOp_absent (hinv : QueueInv s.pendingOps)
    (h : ∀ p ∈ s.pendingOps, ¬ msg.namesOp p.op) :
    s.rejectOp cfg msg now = s := by
  unfold ClientStore.rejectOp
  split
  · rfl
  · rename_i opId hopId
    have hne : ∀ p ∈ s.pendingOps, p.op.id ≠ opId := fun p hp heq =>
      h p hp (hopId.trans (congrArg some heq.symm))
    have hself : rejectWhere (·.id = opId) msg.reason s.pendingOps = s.pendingOps := by
      refine (List.map_congr_left fun p hp => ?_).trans (List.map_id _)
      simp [hne p hp]
    rw [markRejected_eq hinv fun p hp heq => absurd heq (hne p hp), hself]
    exact revertOp_of_find_none (List.find?_eq_none.2 fun p hp => by simpa using hne p hp)

/-- The reject of an op in the queue: it is marked, and reverted. -/
theorem rejectOp_present {p : PendingOp} (hinv : QueueInv s.pendingOps) (hp : p ∈ s.pendingOps)
    (hnames : msg.namesOp p.op)
    (hyoung : ∀ p ∈ s.pendingOps, msg.namesOp p.op → now < p.createdAt + REJECTED_TTL_MS) :
    let marked : ClientStore := ⟨rejectWhere (·.id = p.op.id) msg.reason s.pendingOps, s.rows⟩
    s.rejectOp cfg msg now = marked.revertOp cfg p.op.id msg.serverRow ∧
      marked.pendingOps.find? (·.op.id = p.op.id) = some (p.reject msg.reason) := by
  refine ⟨?_, ?_⟩
  · have hmarked : s.markRejected p.op.id msg.reason now =
        ⟨rejectWhere (·.id = p.op.id) msg.reason s.pendingOps, s.rows⟩ :=
      markRejected_eq hinv fun q hq hid =>
        hyoung q hq (hnames.trans (congrArg some hid.symm))
    rw [ClientStore.rejectOp, hnames, ← hmarked]
  · have hmem : p.reject msg.reason ∈ rejectWhere (·.id = p.op.id) msg.reason s.pendingOps :=
      List.mem_map.2 ⟨p, hp, by simp⟩
    have hsome : (rejectWhere (·.id = p.op.id) msg.reason s.pendingOps).find?
        (·.op.id = p.op.id) ≠ none := fun hnone =>
      List.find?_eq_none.1 hnone _ hmem (by simp [PendingOp.reject])
    rcases Option.ne_none_iff_exists'.1 hsome with ⟨q, hq⟩
    have hqid : q.op.id = p.op.id := by simpa using List.find?_some hq
    have hnodup : ((rejectWhere (·.id = p.op.id) msg.reason s.pendingOps).map (·.op.id)).Nodup := by
      rw [ids_rejectWhere]
      exact hinv.nodup
    have heq := List.inj_on_of_nodup_map hnodup (List.mem_of_find?_eq_some hq) hmem hqid
    rw [hq, heq]

theorem drops_rejectOp (hinv : QueueInv s.pendingOps) :
    Drops s.pendingOps (s.rejectOp cfg msg now).pendingOps msg.namesOp := by
  unfold ClientStore.rejectOp
  split
  · rename_i hnone
    refine Drops.refl hinv fun p _ hnames => ?_
    rw [RejectMessage.namesOp, hnone] at hnames
    cases hnames
  · rename_i opId hopId
    rw [ClientStore.markRejected, rejectFirst_eq hinv.nodup]
    refine @Drops.of_forget _ _ _ (·.id = opId) msg.reason hinv (fun op => ?_) ?_
    · rw [RejectMessage.namesOp, hopId]
      simp [eq_comm]
    · have htrim := @filter_trim_rejectWhere (·.id = opId) msg.reason _ now s.rows hinv.pending
      rw [forget_revertOp (nodup_trim_rejectWhere hinv.nodup), ← htrim]
      simp

end rejectOp

section rejectOpRow

variable {s : RollbackState} {msg : RejectMessage} {now : Nat}

/-- Only one op in the queue has the id that the message names. -/
theorem eq_of_namesOp (hinv : QueueInv s.store.pendingOps) {p q : PendingOp}
    (hp : p ∈ s.store.pendingOps) (hq : q ∈ s.store.pendingOps) (hnp : msg.namesOp p.op)
    (hnq : msg.namesOp q.op) : q = p :=
  List.inj_on_of_nodup_map hinv.nodup hq hp (Option.some.inj (hnq.symm.trans hnp))

theorem deliverServerRow_absent (h : ∀ p ∈ s.store.pendingOps, ¬ msg.namesOp p.op) :
    deliverServerRow s msg = s.delivered := by
  have hfind : s.store.pendingOps.find? (msg.namesOp ·.op) =
      none :=
    List.find?_eq_none.2 fun p hp hnames => h p hp (of_decide_eq_true hnames)
  rw [deliverServerRow, hfind]

theorem heldRow_deliverServerRow (hinv : QueueInv s.store.pendingOps) {p : PendingOp}
    (hp : p ∈ s.store.pendingOps) (hnames : msg.namesOp p.op) (table rowId : String) :
    heldRow (deliverServerRow s msg table) (.str rowId) =
      if p.onRow table rowId then msg.serverRow.or (heldRow (s.delivered table) (.str rowId))
      else heldRow (s.delivered table) (.str rowId) := by
  have hfind : s.store.pendingOps.find? (msg.namesOp ·.op) =
      some p := by
    cases hq : s.store.pendingOps.find? (msg.namesOp ·.op) with
    | none => exact absurd (decide_eq_true hnames) (List.find?_eq_none.1 hq p hp)
    | some q =>
        have hqnames := List.find?_some hq
        rw [eq_of_namesOp hinv hp (List.mem_of_find?_eq_some hq) hnames
          (of_decide_eq_true hqnames)]
  rw [deliverServerRow, hfind]
  cases hrow : msg.serverRow with
  | none => simp
  | some row =>
      show heldRow (Function.update s.delivered p.op.table
        (putServerRow (s.delivered p.op.table) p.op.rowId row) table) (.str rowId) = _
      by_cases htable : table = p.op.table
      · subst htable
        rw [Function.update_self]
        by_cases hrowId : rowId = p.op.rowId
        · subst hrowId
          rw [heldRow_putServerRow, if_pos (PendingOp.onRow_iff.2 ⟨rfl, rfl⟩)]
          rfl
        · rw [if_neg fun h => hrowId (PendingOp.onRow_iff.1 h).2.symm]
          exact heldRow_setRow_ne (by simpa using hrowId)
      · rw [Function.update_of_ne htable, if_neg fun h => htable (PendingOp.onRow_iff.1 h).1.symm]

/-- After the reject of the named op, a row that is told or kept as delivered is kept so, and shows
it where the op is the row's. -/
theorem rejectOp_row (hinv : QueueInv s.store.pendingOps)
    (hyoung : ∀ p ∈ s.store.pendingOps, msg.namesOp p.op → now < p.createdAt + REJECTED_TTL_MS)
    {table rowId : String} (h : TellsRow s msg table rowId ∨ KeptCurrent s table rowId) :
    Keeps (s.store.rejectOp cfg msg now).pendingOps table rowId
        (heldRow (deliverServerRow s msg table) (.str rowId)) ∧
      ∀ p ∈ s.store.pendingOps, msg.namesOp p.op → p.onRow table rowId = true →
        ShowsOver cfg (s.store.rejectOp cfg msg now) table rowId
          (heldRow (deliverServerRow s msg table) (.str rowId)) := by
  by_cases hex : ∃ p ∈ s.store.pendingOps, msg.namesOp p.op
  · rcases hex with ⟨p, hp, hnames⟩
    rcases @rejectOp_present cfg s.store msg now p hinv hp hnames hyoung with ⟨heq, hfind⟩
    have hnodup : ((rejectWhere (·.id = p.op.id) msg.reason s.store.pendingOps).map
        (·.op.id)).Nodup := by
      rw [ids_rejectWhere]
      exact hinv.nodup
    rw [heq, heldRow_deliverServerRow hinv hp hnames]
    by_cases hrow : p.onRow table rowId
    · rw [if_pos hrow]
      rcases PendingOp.onRow_iff.1 hrow with ⟨rfl, rfl⟩
      have hbase : heldRow (ClientStore.revertBase
          ⟨rejectWhere (·.id = p.op.id) msg.reason s.store.pendingOps, s.store.rows⟩
          p.op msg.serverRow) (.str p.op.rowId) =
            msg.serverRow.or (heldRow (s.delivered p.op.table) (.str p.op.rowId)) := by
        cases hserver : msg.serverRow with
        | some row => exact heldRow_revertBase_some ..
        | none =>
            have hkept : KeptCurrent s p.op.table p.op.rowId :=
              h.resolve_left fun htells => by simp [TellsRow, hserver] at htells
            have hkeeps : Keeps (rejectWhere (·.id = p.op.id) msg.reason s.store.pendingOps)
                p.op.table p.op.rowId (heldRow (s.delivered p.op.table) (.str p.op.rowId)) :=
              keeps_rejectWhere hkept
            rw [Option.none_or]
            exact @heldRow_revertBase_none _ (p.reject msg.reason) _
              (List.mem_of_find?_eq_some hfind) hkeeps
      rcases @revertOp_row cfg _ p.op.id msg.serverRow _ (p.reject msg.reason) hnodup hfind hbase
        with ⟨hshows, hkeeps⟩
      exact ⟨hkeeps, fun _ _ _ _ => hshows⟩
    · rw [if_neg hrow]
      have hother : ∀ q ∈ s.store.pendingOps, msg.namesOp q.op → ¬ q.onRow table rowId :=
        fun q hq hqnames hqrow => hrow (eq_of_namesOp hinv hp hq hnames hqnames ▸ hqrow)
      have hkept : KeptCurrent s table rowId := by
        refine h.resolve_left ?_
        rintro ⟨_, q, hq, hqnames, hqrow⟩
        exact hother q hq hqnames hqrow
      have hne : ¬ (table = p.op.table ∧ rowId = p.op.rowId) := fun heqs =>
        hrow (PendingOp.onRow_iff.2 ⟨heqs.1.symm, heqs.2.symm⟩)
      rcases @revertOp_otherRow cfg _ p.op.id msg.serverRow (p.reject msg.reason) table rowId
        hnodup hfind hne with ⟨_, hfilter⟩
      have hkeeps : Keeps (rejectWhere (·.id = p.op.id) msg.reason s.store.pendingOps)
          table rowId (heldRow (s.delivered table) (.str rowId)) := keeps_rejectWhere hkept
      exact ⟨keeps_congr hfilter hkeeps,
        fun q hq hqnames hqrow => absurd hqrow (hother q hq hqnames)⟩
  · have hnone : ∀ p ∈ s.store.pendingOps, ¬ msg.namesOp p.op :=
      fun p hp hnames => hex ⟨p, hp, hnames⟩
    rw [rejectOp_absent hinv hnone, deliverServerRow_absent hnone]
    refine ⟨h.resolve_left ?_, fun p hp hnames => absurd hnames (hnone p hp)⟩
    rintro ⟨_, q, hq, hqnames, _⟩
    exact hnone q hq hqnames

end rejectOpRow

section rejectRest

variable {s : ClientStore} {msg : RejectMessage} {now : Nat}

/-- The reject of a batch: its ops are marked, and reverted one after the other. -/
theorem rejectRest_eq {batchId : String} (hinv : QueueInv s.pendingOps)
    (hbatch : msg.batchId.filter (· ≠ "") = some batchId) :
    s.rejectRest cfg msg now =
      ((s.pendingOps.filter fun p => p.op.batchId = some batchId).map (·.op.id)).foldl
        (fun s opId => s.revertOp cfg opId none)
        (ClientStore.autoTrimRejected
          ⟨rejectWhere (·.batchId = some batchId) msg.reason s.pendingOps, s.rows⟩ now) := by
  have hpending : s.getPendingOps = s.pendingOps :=
    List.filter_eq_self.2 fun p hp => by simpa using hinv.pending p hp
  have hmap : s.pendingOps.map
      (fun p => if p.op.batchId = some batchId then p.reject msg.reason else p) =
        rejectWhere (·.batchId = some batchId) msg.reason s.pendingOps :=
    List.map_congr_left fun p _ => by simp
  simp only [ClientStore.rejectRest, hbatch, hpending, ClientStore.rejectBatch, hmap]

theorem not_namesBatch (h : msg.batchId.filter (· ≠ "") = none) (op : ClientOp) :
    ¬ msg.namesBatch op := by
  rintro ⟨batchId, hbatch, _⟩
  rw [h] at hbatch
  cases hbatch

/-- An op in the queue has the id of an op of the batch just when it is in the batch. -/
theorem mem_batchIds (hnodup : (s.pendingOps.map (·.op.id)).Nodup) {batchId : String}
    {p : PendingOp} (hp : p ∈ s.pendingOps) :
    p.op.id ∈ (s.pendingOps.filter fun q => q.op.batchId = some batchId).map (·.op.id) ↔
      p.op.batchId = some batchId := by
  constructor
  · intro hid
    rcases List.mem_map.1 hid with ⟨q, hq, heq⟩
    rcases List.mem_filter.1 hq with ⟨hq, hbatch⟩
    have hqp : q = p := List.inj_on_of_nodup_map hnodup hq hp heq
    simpa [hqp] using hbatch
  · intro hbatch
    exact List.mem_map.2 ⟨p, List.mem_filter.2 ⟨hp, by simpa using hbatch⟩, rfl⟩

theorem drops_rejectRest (hinv : QueueInv s.pendingOps) :
    Drops s.pendingOps (s.rejectRest cfg msg now).pendingOps msg.namesBatch := by
  cases hbatch : msg.batchId.filter (· ≠ "") with
  | none =>
      have hself : s.rejectRest cfg msg now = s := by rw [ClientStore.rejectRest, hbatch]
      rw [hself]
      exact Drops.refl hinv fun p _ => not_namesBatch hbatch p.op
  | some batchId =>
      refine @Drops.of_forget _ _ _ (·.batchId = some batchId) msg.reason hinv (fun op => ?_) ?_
      · rw [decide_eq_true_iff]
        exact ⟨fun hop => ⟨batchId, hbatch, hop⟩, fun ⟨_, hbatch', hop⟩ =>
          Option.some.inj (hbatch'.symm.trans hbatch) ▸ hop⟩
      · have htrim := @filter_trim_rejectWhere (·.batchId = some batchId) msg.reason _ now s.rows
          hinv.pending
        rw [rejectRest_eq hinv hbatch,
          forget_foldl_revertOp _ _ (nodup_trim_rejectWhere hinv.nodup), ← htrim]
        congr 1
        refine List.filter_congr fun q hq => ?_
        have hmem : q ∈ rejectWhere (·.batchId = some batchId) msg.reason s.pendingOps :=
          (List.mem_filter.1 hq).1
        rcases mem_rejectWhere hmem with ⟨p, hp, hop, _, _⟩
        have hiff := @mem_batchIds s hinv.nodup batchId p hp
        rw [hop] at hiff
        rw [decide_not, decide_eq_decide.2 hiff]

/-- A row whose earliest op keeps `data` before the reject of a batch keeps it after, and shows it
where the batch has an op of the row, or where it did before. -/
theorem rejectRest_row (hinv : QueueInv s.pendingOps)
    (hyoung : ∀ p ∈ s.pendingOps, msg.namesBatch p.op → now < p.createdAt + REJECTED_TTL_MS)
    {table rowId : String} {data : Option Row} (hkeeps : Keeps s.pendingOps table rowId data)
    (h : ShowsOver cfg s table rowId data ∨
      ∃ p ∈ s.pendingOps, msg.namesBatch p.op ∧ p.onRow table rowId = true) :
    ShowsOver cfg (s.rejectRest cfg msg now) table rowId data := by
  cases hbatch : msg.batchId.filter (· ≠ "") with
  | none =>
      have hself : s.rejectRest cfg msg now = s := by rw [ClientStore.rejectRest, hbatch]
      rw [hself]
      refine h.resolve_right ?_
      rintro ⟨p, _, hnames, _⟩
      exact not_namesBatch hbatch p.op hnames
  | some batchId =>
      have hnodup : ((rejectWhere (·.batchId = some batchId) msg.reason s.pendingOps).map
          (·.op.id)).Nodup := by
        rw [ids_rejectWhere]
        exact hinv.nodup
      have hmarked : Keeps (rejectWhere (·.batchId = some batchId) msg.reason s.pendingOps)
          table rowId data := keeps_rejectWhere hkeeps
      rw [rejectRest_eq hinv hbatch, trim_rejectWhere hinv.pending fun p hp hid =>
        hyoung p hp ⟨batchId, hbatch, by simpa using hid⟩]
      refine (foldl_revertOp_row _ _ hnodup hmarked).2 ?_
      by_cases hex : ∃ p ∈ s.pendingOps, p.op.batchId = some batchId ∧ p.onRow table rowId = true
      · rcases hex with ⟨p, hp, hpbatch, hrow⟩
        refine .inr ⟨p.reject msg.reason, List.mem_map.2 ⟨p, hp, by simp [hpbatch]⟩, ?_, hrow⟩
        exact (mem_batchIds hinv.nodup hp).2 hpbatch
      · -- No op of the row is marked, so the row is as it was.
        have hshows : ShowsOver cfg s table rowId data := by
          refine h.resolve_right ?_
          rintro ⟨p, hp, ⟨batchId', hbatch', hpbatch⟩, hrow⟩
          have heq : batchId' = batchId := Option.some.inj (hbatch'.symm.trans hbatch)
          exact hex ⟨p, hp, heq ▸ hpbatch, hrow⟩
        have hfilter : (rejectWhere (·.batchId = some batchId) msg.reason s.pendingOps).filter
            (·.onRow table rowId) = s.pendingOps.filter (·.onRow table rowId) := by
          refine filter_rejectWhere fun p hp hrow => ?_
          simpa using fun hpbatch => hex ⟨p, hp, hpbatch, hrow⟩
        refine .inl ?_
        unfold ShowsOver pendingOn at *
        rw [hfilter, hshows]

end rejectRest

/-- The ops that the message rejects leave the queue, whatever their age. -/
theorem drops_handleReject {s : ClientStore} {msg : RejectMessage} {now batchNow : Nat}
    (hinv : QueueInv s.pendingOps) :
    Drops s.pendingOps (s.handleReject cfg msg now batchNow).pendingOps msg.rejects := by
  have hop := @drops_rejectOp cfg s msg now hinv
  have hrest := @drops_rejectRest cfg (s.rejectOp cfg msg now) msg batchNow hop.inv
  refine ⟨fun q hq => ?_, fun p hp hnot => ?_, hrest.inv⟩
  · rcases hrest.sub q hq with ⟨hbatch, q₁, hq₁, hop₁, hat₁⟩
    rcases hop.sub q₁ hq₁ with ⟨hnames, p, hp, hop₂, hat₂⟩
    refine ⟨?_, p, hp, hop₂.trans hop₁, hat₂.trans hat₁⟩
    rintro (h | h)
    · exact hnames (hop₁ ▸ h)
    · exact hbatch h
  · rcases hop.rest p hp fun h => hnot (.inl h) with ⟨q₁, hq₁, hop₁⟩
    rcases hrest.rest q₁ hq₁ fun h => hnot (.inr (hop₁ ▸ h)) with ⟨q, hq, hop₂⟩
    exact ⟨q, hq, hop₂.trans hop₁⟩

/-! ## Runs -/

theorem queueInv_step {s s' : RollbackState} {e : RollbackEvent}
    (hinv : QueueInv s.store.pendingOps) (h : rollbackStep cfg s e = some s') :
    QueueInv s'.store.pendingOps := by
  cases e with
  | create op now =>
      rw [rollbackStep, Option.ite_none_left_eq_some] at h
      rcases h with ⟨hfresh, heq⟩
      cases heq
      constructor
      · intro p hp
        rcases List.mem_append.1 hp with hold | hnew
        · exact hinv.pending p hold
        · rw [List.mem_singleton.1 hnew]
      · simp only [ClientStore.applyOptimistic, ClientStore.addPendingOp]
        rw [List.map_append, List.nodup_append]
        refine ⟨hinv.nodup, List.nodup_singleton _, fun id hid id' hid' heq => hfresh ?_⟩
        rcases List.mem_map.1 hid with ⟨p, hp, rfl⟩
        rw [List.mem_singleton.1 hid'] at heq
        exact List.any_eq_true.2 ⟨p, hp, decide_eq_true heq⟩
  | delta table d =>
      cases h
      exact hinv
  | snapshot table msg =>
      cases h
      exact hinv
  | ack opIds =>
      cases h
      exact ⟨fun p hp => hinv.pending p (List.mem_filter.1 hp).1,
        hinv.nodup.sublist (List.filter_sublist.map _)⟩
  | reject msg now batchNow =>
      cases h
      exact (drops_handleReject hinv).inv

/-- In every run the ops in the queue are pending and have different ids: no op stays in the queue
once it is rejected. -/
theorem queueInv_reachable {s : RollbackState} (h : (rollbackMachine cfg).Reachable s) :
    QueueInv s.store.pendingOps := by
  induction h with
  | init => exact ⟨fun _ hp => (nomatch hp), List.nodup_nil⟩
  | step _ _ hs hinv => exact queueInv_step hinv hs

/-- The reject of an op that is young and whose row is told, or kept as the server delivered it. -/
theorem rolledBack_reject {s s' : RollbackState} (hinv : QueueInv s.store.pendingOps)
    {msg : RejectMessage} {now batchNow : Nat} (hundoes : Undoes s msg now batchNow)
    (hstep : rollbackStep cfg s (.reject msg now batchNow) = some s') {p : PendingOp}
    (hp : p ∈ s.store.pendingOps) (hrejects : msg.rejects p.op) : RolledBack cfg s' p.op := by
  have hdrops := @drops_handleReject cfg s.store msg now batchNow hinv
  cases hstep
  refine ⟨fun q hq hid => ?_, ?_⟩
  · rcases hdrops.sub q hq with ⟨hnot, p', hp', hop, _⟩
    have heq : p' = p :=
      List.inj_on_of_nodup_map hinv.nodup hp' hp ((congrArg (·.id) hop).trans hid)
    exact hnot (hop ▸ heq ▸ hrejects)
  · have hrow := hundoes.kept p hp hrejects
    rcases @rejectOp_row cfg s msg now hinv hundoes.young _ _ hrow with ⟨hkeeps, hshows⟩
    have hop := @drops_rejectOp cfg s.store msg now hinv
    have hbatchYoung : ∀ q ∈ (s.store.rejectOp cfg msg now).pendingOps, msg.namesBatch q.op →
        batchNow < q.createdAt + REJECTED_TTL_MS := by
      intro q hq hbatch
      rcases hop.sub q hq with ⟨hnot, p', hp', hop', hat⟩
      rw [← hat]
      exact hundoes.batchYoung p' hp' (hop' ▸ hbatch) (hop' ▸ hnot)
    have hfinal := @rejectRest_row cfg _ msg batchNow hop.inv hbatchYoung _ _ _ hkeeps (by
      by_cases hnames : msg.namesOp p.op
      · exact .inl (hshows p hp hnames (PendingOp.onRow_iff.2 ⟨rfl, rfl⟩))
      · -- The op is in the batch, and still in the queue when the batch is rejected.
        rcases hop.rest p hp hnames with ⟨q, hq, hqop⟩
        exact .inr ⟨q, hq, hqop ▸ hrejects.resolve_left hnames,
          PendingOp.onRow_iff.2 ⟨congrArg (·.table) hqop, congrArg (·.rowId) hqop⟩⟩)
    rw [heldRow_foldl_applyOptimistic fun _ => rowId_of_mem_pendingOn]
    exact hfinal

/-- In every run, the reject of an op that is young and whose row is told, or kept as the server
delivered it, takes the op out of the row and nothing else. -/
theorem rolledBack_of_undoes {s s' : RollbackState} (hs : (rollbackMachine cfg).Reachable s)
    {msg : RejectMessage} {now batchNow : Nat} (hundoes : Undoes s msg now batchNow)
    (hstep : rollbackStep cfg s (.reject msg now batchNow) = some s') {p : PendingOp}
    (hp : p ∈ s.store.pendingOps) (hrejects : msg.rejects p.op) : RolledBack cfg s' p.op :=
  rolledBack_reject (queueInv_reachable hs) hundoes hstep hp hrejects

/-! ## A batch on two tasks -/

def tasksConfig : WriterConfig :=
  ⟨fun _ => "id", fun _ => [], fun table => [table]⟩

def taskRow (rowId title : String) (rank : Int) : Row :=
  (((∅ : Row).insert "id" (.str rowId)).insert "title" (.str title)).insert "rank" (.num rank)

def taskClocks : Record Hlc :=
  (((∅ : Record Hlc).insert "title" "1").insert "rank" "1").insert "_row" "1"

/-- The client holds two tasks. -/
def twoTasks : Snapshot :=
  ⟨[taskRow "a" "wash" 1, taskRow "b" "iron" 2],
    ((∅ : Record (Record Hlc)).insert "a" taskClocks).insert "b" taskClocks, false, "id"⟩

def retitleTask (id rowId title : String) : ClientOp :=
  ⟨id, "tasks", .update, rowId, some ((∅ : Row).insert "title" (.str title)), "2", some "batch"⟩

/-- The client retitles both tasks in one batch. -/
def twoRetitles : List RollbackEvent :=
  [.snapshot "tasks" twoTasks, .create (retitleTask "op1" "a" "rinse") 0,
    .create (retitleTask "op2" "b" "press") 0]

/-- Another client ranks the second task. -/
def rankSecond : RollbackEvent :=
  .delta "tasks"
    ⟨.update, "b", some ((∅ : Row).insert "rank" (.num 7)), "3",
      some ((∅ : Record Hlc).insert "rank" "3")⟩

/-- The server rejects the first op, and the batch with it. -/
def rejectFirstTask : RejectMessage :=
  ⟨some "op1", some "batch", .serverConflict, some (taskRow "a" "wash" 1)⟩

/-- The state after some events. -/
def stateAfter (es : List RollbackEvent) : RollbackState :=
  ((rollbackMachine tasksConfig).run es).getD ⟨.empty, fun _ => ∅⟩

theorem reachable_stateAfter {es : List RollbackEvent}
    (h : ((rollbackMachine tasksConfig).run es).isSome) :
    (rollbackMachine tasksConfig).Reachable (stateAfter es) := by
  rcases Option.isSome_iff_exists.1 h with ⟨s, hs⟩
  rw [stateAfter, hs]
  exact Lib.Machine.Reachable.of_run hs

/-- The op of the second task, with what it keeps. -/
def secondOp : PendingOp :=
  ⟨retitleTask "op2" "b" "press", .pending, none, 0,
    some ⟨some (taskRow "b" "iron" 2), taskClocks, some "1"⟩⟩

theorem queue_twoRetitles (last : List RollbackEvent) (h : last = [] ∨ last = [rankSecond]) :
    (stateAfter (twoRetitles ++ last)).store.pendingOps =
      [⟨retitleTask "op1" "a" "rinse", .pending, none, 0,
        some ⟨some (taskRow "a" "wash" 1), taskClocks, some "1"⟩⟩, secondOp] := by
  rcases h with rfl | rfl
  · rfl
  · rfl

/-- The batch is rejected before anything else has reached the tasks. -/
theorem rolledBack_batch :
    ∃ s',
      rollbackStep tasksConfig (stateAfter twoRetitles) (.reject rejectFirstTask 5 5) = some s' ∧
        RolledBack tasksConfig s' secondOp.op := by
  have hqueue : (stateAfter twoRetitles).store.pendingOps = _ := queue_twoRetitles [] (.inl rfl)
  have hundoes : Undoes (stateAfter twoRetitles) rejectFirstTask 5 5 := by
    refine ⟨fun p hp _ => ?_, fun p hp _ _ => ?_, fun p hp _ => ?_⟩
    · rw [hqueue] at hp
      rcases List.mem_pair.1 hp with rfl | rfl <;> decide
    · rw [hqueue] at hp
      rcases List.mem_pair.1 hp with rfl | rfl <;> decide
    · rw [hqueue] at hp
      rcases List.mem_pair.1 hp with rfl | rfl
      · -- The reject tells the first task.
        have hfirst : (⟨retitleTask "op1" "a" "rinse", .pending, none, 0,
            some ⟨some (taskRow "a" "wash" 1), taskClocks, some "1"⟩⟩ : PendingOp) ∈
              (stateAfter twoRetitles).store.pendingOps := hqueue ▸ List.mem_cons_self
        exact .inl ⟨rfl, _, hfirst, rfl, rfl⟩
      · refine .inr fun first hfirst => ?_
        rw [hqueue] at hfirst
        cases hfirst
        rfl
  refine ⟨_, rfl, rolledBack_of_undoes (reachable_stateAfter rfl) hundoes rfl ?_ ?_⟩
  · rw [hqueue]
    exact List.mem_cons_of_mem _ List.mem_cons_self
  · exact .inr ⟨"batch", rfl, rfl⟩

/-- A delta reached the second task in between: it is lost. -/
theorem rolledBack_fails :
    ¬ ∀ (cfg : WriterConfig) (s s' : RollbackState) (msg : RejectMessage) (now batchNow : Nat)
      (p : PendingOp), (rollbackMachine cfg).Reachable s →
        rollbackStep cfg s (.reject msg now batchNow) = some s' → p ∈ s.store.pendingOps →
          msg.rejects p.op → RolledBack cfg s' p.op := by
  intro h
  have hqueue := queue_twoRetitles [rankSecond] (.inr rfl)
  have hrolled := h tasksConfig (stateAfter (twoRetitles ++ [rankSecond])) _ rejectFirstTask 5 5
    secondOp (reachable_stateAfter (by decide +kernel)) rfl (by rw [hqueue]; simp)
    (.inr ⟨"batch", rfl, rfl⟩)
  have hshows := congrArg (fun row => row.map (column · "rank")) hrolled.shows
  revert hshows
  decide +kernel

end Sync
end Reflectdb
