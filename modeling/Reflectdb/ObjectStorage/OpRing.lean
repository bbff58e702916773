import Reflectdb.ObjectStorage.Process

/-!
# Op ring — the op log of a room

The ring of a room against the log of its ops in the order of their appends.  Appends come in any
order of HLCs, the ring is searched by halving, and the scans of the changed tables and of the head
stop early; what they answer is what a query of the log answers.
-/

namespace Reflectdb
namespace ObjectStorage

open Core Client Lib
open Server (OpLogEntry)

/-! ## The op log -/

/-- The ops in the order of their appends. -/
abbrev OpLog : Type :=
  List OpLogEntry

namespace OpLog

/-- `WHERE hlc > ? AND tbl IN (…) ORDER BY hlc ASC`. -/
def opsSince (log : OpLog) (since : Hlc) (tables : List String) : List OpLogEntry :=
  sortBy OpLogEntry.hlc (log.filter fun op => since < op.hlc ∧ op.table ∈ tables)

/-- `SELECT DISTINCT tbl … WHERE hlc > ? AND tbl IN (…)`. -/
def Changed (log : OpLog) (since : Hlc) (tables : List String) (table : String) : Prop :=
  table ∈ tables ∧ ∃ op ∈ log, op.table = table ∧ since < op.hlc

/-- `SELECT MAX(hlc) … WHERE tbl IN (…)`. -/
def head (log : OpLog) (tables : List String) : Option Hlc :=
  ((log.filter fun op => op.table ∈ tables).map OpLogEntry.hlc).max?

/-- `DELETE … WHERE hlc < ?`. -/
def deleteBefore (log : OpLog) (hlc : Hlc) : OpLog :=
  log.filter fun op => hlc ≤ op.hlc

end OpLog

/-- What a call leaves of the log: an op is logged unless the call throws, and a snapshot brings
none. -/
def RoomCall.logs {α : Type} (c : RoomCall) (r : EStateM.Result MemoryError Held α) (log : OpLog) :
    OpLog :=
  match c with
  | .appendOp entry => if (thrown r).isSome then log else log ++ [entry]
  | .applyRecord (.op entry) _ => if (thrown r).isSome then log else log ++ [entry]
  | .applyRecord (.apply _ entry) _ => if (thrown r).isSome then log else log ++ [entry]
  | .deleteOpsBefore hlc => log.deleteBefore hlc
  | .loadSnapshot _ _ => []
  | .dispose => []
  | _ => log

/-- A room and its log; no method reads the log. -/
structure LoggedRoom where
  held : Held
  log : OpLog

inductive LoggedEvent
  | call (c : RoomCall)
  /-- The other rooms use or narrow the budget. -/
  | others (budget : Budget)

def logMachine (sizes : JsonSizes) (memory : MemoryConfig) (budget : Budget) :
    Machine LoggedRoom LoggedEvent where
  init := ⟨⟨.empty memory, budget⟩, []⟩
  step s
    | .call c =>
      let r := (c.run sizes).run s.held
      some ⟨left r, c.logs r s.log⟩
    | .others budget => some ⟨⟨s.held.room, budget⟩, s.log⟩

/-! ## The ring of a log -/

/-- The HLC by which the ring is sorted. -/
abbrev OpEntry.hlc (op : OpEntry) : Hlc :=
  op.entry.hlc

/-- The ring is the log in the order of the HLCs. -/
structure RingOf (ops : List OpEntry) (log : OpLog) : Prop where
  sorted : SortedBy OpEntry.hlc ops
  entries : ops.map OpEntry.entry = sortBy OpLogEntry.hlc log

namespace RingOf

variable {ops : List OpEntry} {log : OpLog}

theorem nil : RingOf [] [] :=
  ⟨List.Pairwise.nil, rfl⟩

theorem of_entries (h : ops.map OpEntry.entry = sortBy OpLogEntry.hlc log) : RingOf ops log where
  entries := h
  sorted := by
    have hsorted : SortedBy OpLogEntry.hlc (ops.map OpEntry.entry) := h ▸ sortedBy_sortBy log
    unfold SortedBy at hsorted
    rwa [List.pairwise_map] at hsorted

/-- The item goes behind those with HLCs up to its own. -/
theorem place_eq (h : RingOf ops log) (item : OpEntry) :
    place ops item = insertAfter OpEntry.hlc item ops := by
  unfold place
  split
  · rename_i hlast
    refine (h.sorted.insertAfter_of_last_le fun last hmem => ?_).symm
    rw [Option.mem_def.1 hmem] at hlast
    simpa using hlast
  · exact h.sorted.insert_at_bisect item

theorem place (h : RingOf ops log) (item : OpEntry) :
    RingOf (ObjectStorage.place ops item) (log ++ [item.entry]) := by
  apply of_entries
  calc
    (ObjectStorage.place ops item).map OpEntry.entry
        = (insertAfter OpEntry.hlc item ops).map OpEntry.entry := by rw [h.place_eq]
    _ = insertAfter OpLogEntry.hlc item.entry (ops.map OpEntry.entry) := map_insertAfter _ _ _
    _ = sortBy OpLogEntry.hlc (log ++ [item.entry]) := by rw [h.entries, sortBy_concat]

/-- The ops above an HLC are a suffix. -/
theorem drop_indexAfter (h : RingOf ops log) (since : Hlc) :
    (ops.drop (indexAfter ops since)).map OpEntry.entry =
      sortBy OpLogEntry.hlc (log.filter fun op => since < op.hlc) := by
  have hdrop : ops.drop (indexAfter ops since) = ops.filter fun op => since < op.hlc := by
    refine (h.sorted.drop_bisect (lower_le since)).trans (List.filter_congr fun op _ => ?_)
    rw [← decide_not]
    exact decide_eq_decide.2 not_le
  rw [hdrop, ← filter_sortBy, ← h.entries, List.filter_map]
  rfl

theorem drop_indexBefore (h : RingOf ops log) (hlc : Hlc) :
    RingOf (ops.drop (indexBefore ops hlc)) (log.deleteBefore hlc) := by
  have hdrop : ops.drop (indexBefore ops hlc) = ops.filter fun op => hlc ≤ op.hlc := by
    refine (h.sorted.drop_bisect (lower_lt hlc)).trans (List.filter_congr fun op _ => ?_)
    rw [← decide_not]
    exact decide_eq_decide.2 not_lt
  apply of_entries
  rw [hdrop, OpLog.deleteBefore, ← filter_sortBy, ← h.entries, List.filter_map]
  rfl

/-- As many ops are cut as there are below the HLC. -/
theorem length_take_indexBefore (h : RingOf ops log) (hlc : Hlc) :
    (ops.take (indexBefore ops hlc)).length = (log.filter fun op => op.hlc < hlc).length := by
  have htake : ops.take (indexBefore ops hlc) = ops.filter fun op => op.hlc < hlc :=
    h.sorted.take_bisect (lower_lt hlc)
  calc
    (ops.take (indexBefore ops hlc)).length
        = ((ops.map OpEntry.entry).filter fun op => op.hlc < hlc).length := by
          rw [htake, List.filter_map, List.length_map]
          rfl
    _ = (log.filter fun op => op.hlc < hlc).length := by
          rw [h.entries, filter_sortBy, length_sortBy]

end RingOf

/-! ## Reads -/

section

variable {st : RoomState} {log : OpLog}

theorem getOpsSince_eq (h : RingOf st.ops log) (since : Hlc) (tables : List String) :
    st.getOpsSince since tables = log.opsSince since tables := by
  have hdrop := h.drop_indexAfter since
  calc
    st.getOpsSince since tables
        = ((st.ops.drop (indexAfter st.ops since)).map OpEntry.entry).filter
            (fun op => op.table ∈ tables) := by
          rw [RoomState.getOpsSince, List.filter_map]
          rfl
    _ = log.opsSince since tables := by
          rw [hdrop, filter_sortBy, List.filter_filter, OpLog.opsSince]
          congr 1
          apply List.filter_congr
          intro op _
          rw [Bool.decide_and, Bool.and_comm]

theorem getOplogHead_eq (h : RingOf st.ops log) (tables : List String) :
    st.getOplogHead tables = log.head tables := by
  have hfilter : ((st.ops.filter fun op => op.entry.table ∈ tables).map OpEntry.entry) =
      sortBy OpLogEntry.hlc (log.filter fun op => op.table ∈ tables) := by
    rw [← filter_sortBy, ← h.entries, List.filter_map]
    rfl
  calc
    st.getOplogHead tables
        = (st.ops.filter fun op => op.entry.table ∈ tables).getLast?.map (·.entry.hlc) := by
          rw [RoomState.getOplogHead, ← List.head?_filter, List.filter_reverse, List.head?_reverse]
    _ = ((st.ops.filter fun op => op.entry.table ∈ tables).map OpEntry.entry).getLast?.map
          OpLogEntry.hlc := by
          rw [List.getLast?_map, Option.map_map]
          rfl
    _ = log.head tables := by rw [hfilter, getLast?_sortBy, OpLog.head]

/-- The scan finds the wanted tables of the ops, and none twice. -/
theorem changedFrom_spec {wanted : List String} {ops : List OpEntry} :
    ∀ {changed : List String}, changed.Nodup → (∀ table ∈ changed, table ∈ wanted) →
      (RoomState.changedFrom wanted ops changed).Nodup ∧
        ∀ table, table ∈ RoomState.changedFrom wanted ops changed ↔
          table ∈ changed ∨ (table ∈ wanted ∧ ∃ op ∈ ops, op.entry.table = table) := by
  induction ops with
  | nil => exact fun hnodup _ => ⟨hnodup, by simp [RoomState.changedFrom]⟩
  | cons op ops ih =>
      intro changed hnodup hsub
      obtain ⟨next, hnext⟩ : ∃ next, next =
          if op.entry.table ∈ wanted then addLast changed op.entry.table else changed := ⟨_, rfl⟩
      have hmem : ∀ table, table ∈ next ↔
          table ∈ changed ∨ (table ∈ wanted ∧ op.entry.table = table) := by
        intro table
        rw [hnext]
        split
        · rename_i hin
          rw [mem_addLast]
          refine or_congr_right ⟨fun heq => ⟨heq ▸ hin, heq.symm⟩, fun h => h.2.symm⟩
        · rename_i hout
          exact ⟨Or.inl, fun h => h.elim id fun h => absurd (h.2 ▸ h.1) hout⟩
      have hnodup' : next.Nodup := by
        rw [hnext]
        split
        · exact nodup_addLast hnodup _
        · exact hnodup
      have hsub' : ∀ table ∈ next, table ∈ wanted := fun table h =>
        ((hmem table).1 h).elim (hsub table) And.left
      have hrun : RoomState.changedFrom wanted (op :: ops) changed =
          if next.length = wanted.length then next
          else RoomState.changedFrom wanted ops next := by
        rw [hnext]
        rfl
      rw [hrun]
      split
      · rename_i hall
        -- Every wanted table has changed, so no op can add one.
        have hperm : next.Perm wanted :=
          (List.subperm_of_subset hnodup' hsub').perm_of_length_le hall.ge
        refine ⟨hnodup', fun table => ⟨fun h => ?_, fun h => ?_⟩⟩
        · exact ((hmem table).1 h).imp_right fun h => ⟨h.1, op, List.mem_cons_self, h.2⟩
        · exact hperm.mem_iff.2 (h.elim (hsub table) And.left)
      · obtain ⟨hrest, hspec⟩ := ih hnodup' hsub'
        refine ⟨hrest, fun table => ?_⟩
        rw [hspec, hmem, List.exists_mem_cons_iff]
        tauto

theorem getChangedTablesSince_spec (h : RingOf st.ops log) (since : Hlc) (tables : List String) :
    (st.getChangedTablesSince since tables).Nodup ∧
      ∀ table, table ∈ st.getChangedTablesSince since tables ↔ log.Changed since tables table := by
  unfold RoomState.getChangedTablesSince
  split
  · rename_i hnil
    refine ⟨List.nodup_nil, fun table => ⟨fun h => absurd h List.not_mem_nil, fun h => ?_⟩⟩
    rw [hnil] at h
    exact absurd h.1 List.not_mem_nil
  · have hscan := @changedFrom_spec tables.dedup
      (st.ops.drop (indexAfter st.ops since)) [] List.nodup_nil
      fun table h => absurd h List.not_mem_nil
    have hops : ∀ table, (∃ op ∈ st.ops.drop (indexAfter st.ops since), op.entry.table = table) ↔
        ∃ op ∈ log, op.table = table ∧ since < op.hlc := by
      intro table
      have hentries : (∃ op ∈ st.ops.drop (indexAfter st.ops since), op.entry.table = table) ↔
          ∃ op ∈ (st.ops.drop (indexAfter st.ops since)).map OpEntry.entry, op.table = table := by
        simp only [List.mem_map, exists_exists_and_eq_and]
      rw [hentries, h.drop_indexAfter since]
      simp only [mem_sortBy, List.mem_filter, decide_eq_true_eq]
      tauto
    refine ⟨hscan.1, fun table => ?_⟩
    rw [hscan.2, hops, List.mem_dedup]
    simp [OpLog.Changed]

end

/-! ## Methods that leave the ring alone -/

section

variable {sizes : JsonSizes} {ops : List OpEntry}

/-- The ring is this one. -/
abbrev HasOps (ops : List OpEntry) (h : Held) : Prop :=
  h.room.ops = ops

theorem keeps_charging {x : RoomM Unit} {delta : Held → Int} {write : RoomState → RoomState}
    (hrun : ∀ h, x.run h = h.charging (delta h) write) (hwrite : ∀ st, (write st).ops = st.ops) :
    Keeps (HasOps ops) x := by
  intro h hops
  rw [hrun, Held.charging]
  split
  · exact hops
  · exact (hwrite _).trans hops

theorem keeps_addBytes (delta : Int) : Keeps (HasOps ops) (addBytes delta) :=
  keeps_charging (fun h => addBytes_run h delta) fun _ => rfl

theorem keeps_putRow (m : WalRowMutation) : Keeps (HasOps ops) (putRow sizes m) :=
  keeps_charging (fun h => putRow_run sizes h m) fun _ => rfl

theorem keeps_admitOp (opId : String) (at_ : Nat) : Keeps (HasOps ops) (admitOp opId at_) :=
  .bind (.modify fun _ hops => hops) fun _ => keeps_addBytes _

theorem keeps_sweepReservedOps (now : Nat) : Keeps (HasOps ops) (sweepReservedOps now) := by
  intro h hops
  rw [sweepReservedOps_run]
  unfold Held.swept
  split
  · exact hops
  · exact hops

theorem keeps_reserveEach (now : Nat) (opIds : List String) :
    Keeps (HasOps ops) (reserveEach now opIds) := by
  induction opIds with
  | nil => exact .pure []
  | cons opId opIds ih =>
      refine .bind .get fun h => ?_
      split
      · exact ih
      · exact .bind (keeps_admitOp opId now) fun _ => .bind ih fun fresh => .pure (opId :: fresh)

theorem keeps_restoreEach (at_ : Nat) (opIds : List String) :
    Keeps (HasOps ops) (restoreEach at_ opIds) := by
  induction opIds with
  | nil => exact .pure ()
  | cons opId opIds ih =>
      refine .bind .get fun h => ?_
      split
      · exact .bind (keeps_admitOp opId at_) fun _ => ih
      · split
        · exact .bind (.modify fun _ hops => hops) fun _ => ih
        · exact ih

theorem keeps_restoreReservations (opIds : List String) (at_ now : Nat) :
    Keeps (HasOps ops) (restoreReservations opIds at_ now) := by
  unfold restoreReservations
  split
  · exact .pure ()
  · exact keeps_restoreEach at_ opIds

theorem keeps_putRows (rows : List SnapshotRow) : Keeps (HasOps ops) (putRows sizes rows) := by
  induction rows with
  | nil => exact .pure ()
  | cons row rows ih => exact .bind (keeps_putRow row.mutation) fun _ => ih

theorem keeps_admitEach (reserved : List Reservation) :
    Keeps (HasOps ops) (admitEach reserved) := by
  induction reserved with
  | nil => exact .pure ()
  | cons r reserved ih => exact .bind (keeps_admitOp r.1 r.2) fun _ => ih

end

/-! ## Runs -/

section

variable {sizes : JsonSizes} {memory : MemoryConfig} {budget : Budget}

/-- An op is logged where its append returns. -/
theorem RingOf.appendOp {h : Held} {log : OpLog} (hring : RingOf h.room.ops log)
    (entry : OpLogEntry) :
    RingOf (left ((appendOp sizes entry).run h)).room.ops
      (if (thrown ((ObjectStorage.appendOp sizes entry).run h)).isSome then log
        else log ++ [entry]) := by
  rw [appendOp_run, Held.charging]
  cases h.refused (sizes.op entry) with
  | some error => exact hring
  | none => exact hring.place ⟨entry, sizes.op entry⟩

/-- A call keeps the ring the ring of the log. -/
theorem RingOf.call {h : Held} {log : OpLog} (hring : RingOf h.room.ops log) (c : RoomCall) :
    RingOf (left ((c.run sizes).run h)).room.ops (c.logs ((c.run sizes).run h) log) := by
  have hsame : ∀ {x : RoomM Unit}, Keeps (HasOps h.room.ops) x →
      RingOf (left (x.run h)).room.ops log := by
    intro x hx
    have hops : (left (x.run h)).room.ops = h.room.ops := hx h rfl
    rwa [hops]
  cases c with
  | putRow m => exact hsame (keeps_putRow m)
  | appendOp entry => exact hring.appendOp entry
  | reserveOp opId sweptAt now =>
      refine hsame (.bind (.bind (keeps_sweepReservedOps sweptAt) fun _ => .bind .get fun h' => ?_)
        fun _ => .pure ())
      split
      · exact .pure false
      · exact .bind (keeps_admitOp opId now) fun _ => .pure true
  | reserveOps opIds sweptAt now =>
      refine hsame (.bind ?_ fun _ => .pure ())
      unfold reserveOps
      split
      · exact .pure []
      · exact .bind (keeps_sweepReservedOps sweptAt) fun _ => keeps_reserveEach now opIds
  | restoreReservations opIds at_ now => exact hsame (keeps_restoreReservations opIds at_ now)
  | applyRecord record now =>
      cases record with
      | row m => exact hsame (keeps_putRow m)
      | op entry => exact hring.appendOp entry
      | reserve opIds stamp => exact hsame (keeps_restoreReservations opIds stamp now)
      | apply m entry =>
          have hput : RingOf (left ((ObjectStorage.putRow sizes m).run h)).room.ops log :=
            hsame (keeps_putRow m)
          rw [RoomCall.run, applyRecord, EStateM.run_bind]
          cases hresult : (ObjectStorage.putRow sizes m).run h with
          | error error h' =>
              rw [hresult] at hput
              exact hput
          | ok _ h' =>
              rw [hresult] at hput
              exact RingOf.appendOp hput entry
  | deleteOpsBefore hlc =>
      rw [RoomCall.run, left_discard, deleteOpsBefore_run]
      exact hring.drop_indexBefore hlc
  | sweepReservedOps now => exact hsame (keeps_sweepReservedOps now)
  | setMeta key value => exact hsame (.modify fun _ hops => hops)
  | loadMeta pairs => exact hsame (.modify fun _ hops => hops)
  | loadSnapshot record now =>
      have hops : HasOps [] (left ((loadSnapshot sizes record now).run h)) := by
        rw [loadSnapshot, EStateM.run_bind, reset_run]
        refine (Keeps.bind (keeps_putRows record.rows) fun _ =>
          .bind (keeps_admitEach _) fun _ => ?_) h.cleared rfl
        cases record.hlc with
        | none => exact .pure ()
        | some hlc =>
            by_cases hempty : hlc = ""
            · simpa [hempty] using Keeps.pure ()
            · have hnote : Keeps (HasOps []) (noteHlc hlc) := .modify fun _ hops => hops
              simpa [hempty] using hnote
      have hrun : RingOf (left ((loadSnapshot sizes record now).run h)).room.ops [] := by
        rw [hops]
        exact RingOf.nil
      exact hrun
  | dispose =>
      rw [RoomCall.run, reset_run]
      exact RingOf.nil

/-- In every run the ring is the ring of the log. -/
theorem ringOf_of_reachable {s : LoggedRoom} (h : (logMachine sizes memory budget).Reachable s) :
    RingOf s.held.room.ops s.log := by
  refine h.invariant (P := fun s => RingOf s.held.room.ops s.log) RingOf.nil
    fun {s s' e} hring _ hstep => ?_
  cases e with
  | call c =>
      cases hstep
      exact hring.call c
  | others budget =>
      cases hstep
      exact hring

/-- After any calls the ring is sorted, and what the room answers from it is what a query of the log
answers. -/
theorem opRing_refines_opLog {s : LoggedRoom} (h : (logMachine sizes memory budget).Reachable s) :
    SortedBy OpEntry.hlc s.held.room.ops ∧
      (∀ since tables, s.held.room.getOpsSince since tables = s.log.opsSince since tables) ∧
      (∀ since tables, (s.held.room.getChangedTablesSince since tables).Nodup ∧
        ∀ table, table ∈ s.held.room.getChangedTablesSince since tables ↔
          s.log.Changed since tables table) ∧
      (∀ tables, s.held.room.getOplogHead tables = s.log.head tables) ∧
      ∀ hlc, ∃ h', (deleteOpsBefore hlc).run s.held =
          .ok (s.log.filter fun op => op.hlc < hlc).length h' ∧
        h'.room.ops.map OpEntry.entry = sortBy OpLogEntry.hlc (s.log.deleteBefore hlc) := by
  have hring := ringOf_of_reachable h
  refine ⟨hring.sorted, getOpsSince_eq hring, getChangedTablesSince_spec hring,
    getOplogHead_eq hring, fun hlc => ?_⟩
  have hrun := deleteOpsBefore_run s.held hlc
  rw [hring.length_take_indexBefore] at hrun
  exact ⟨_, hrun, (hring.drop_indexBefore hlc).entries⟩

end

/-- Ops out of order, one of them of another table, and a cut. -/
def outOfOrder : List LoggedEvent :=
  [⟨"t", .insert, "1", some ∅, "h3", ∅⟩, ⟨"u", .insert, "1", some ∅, "h1", ∅⟩,
    ⟨"t", .insert, "2", some ∅, "h2", ∅⟩, ⟨"t", .delete, "1", none, "h3", ∅⟩].map
      (fun entry => .call (.appendOp entry)) ++ [.call (.deleteOpsBefore "h2")]

theorem opRing_refines_opLog_outOfOrder : ∃ s : LoggedRoom,
    s.log.map OpLogEntry.rowId = ["1", "2", "1"] ∧
      (s.held.room.getOpsSince "h1" ["t", "u"]).map OpLogEntry.rowId = ["2", "1", "1"] ∧
        s.held.room.getOpsSince "h1" ["t", "u"] = s.log.opsSince "h1" ["t", "u"] := by
  have hrun : ((logMachine emptyRowSizes ⟨none, none, .reject⟩ ⟨none, 0⟩).run outOfOrder).map
      (fun s => (s.log.map OpLogEntry.rowId,
        (s.held.room.getOpsSince "h1" ["t", "u"]).map OpLogEntry.rowId)) =
      some (["1", "2", "1"], ["2", "1", "1"]) := by
    decide +kernel
  obtain ⟨s, hs, hsummary⟩ := Option.map_eq_some_iff.1 hrun
  refine ⟨s, congrArg Prod.fst hsummary, congrArg Prod.snd hsummary, ?_⟩
  exact (opRing_refines_opLog (Machine.Reachable.of_run hs)).2.1 "h1" ["t", "u"]

end ObjectStorage
end Reflectdb
