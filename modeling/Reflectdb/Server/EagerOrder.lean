import Reflectdb.Lib.WriteBehind
import Reflectdb.Server.EagerDeltas

/-!
# Eager order — storage, subscribers and flushes follow the order of acceptance

The accepted ops of a row are a log that the storage follows: those that wait are the last ones, in
order, first those of the running flush and then those of the buffer.  An update reads a row with
nothing waiting, or the write of the op accepted last.
-/

namespace Reflectdb
namespace Server

open Core Client Lib Sync EagerState

/-! ## The accepted ops -/

section Keys

variable {entries : List EagerEntry} {entry : EagerEntry} {key : RowKey}

@[simp] theorem ofKey_nil : ofKey [] key = [] :=
  rfl

@[simp] theorem ofKey_append {entries' : List EagerEntry} :
    ofKey (entries ++ entries') key = ofKey entries key ++ ofKey entries' key :=
  List.filter_append ..

@[simp] theorem ofKey_singleton_self : ofKey [entry] entry.op.key = [entry] := by
  simp [ofKey]

theorem ofKey_singleton_of_ne (h : entry.op.key ≠ key) : ofKey [entry] key = [] := by
  simp [ofKey, h]

theorem mem_ofKey : entry ∈ ofKey entries key ↔ entry ∈ entries ∧ entry.op.key = key := by
  simp [ofKey]

theorem ofKey_eq_nil (h : ∀ e ∈ entries, e.op.key ≠ key) : ofKey entries key = [] :=
  List.filter_eq_nil_iff.2 fun e he => by simpa using h e he

end Keys

structure AcceptSound (s : EagerState) : Prop where
  /-- The row of the op accepted last is what the accepted ops make. -/
  fold : ∀ key, foldOps (ofKey s.accepted key) =
    (ofKey s.accepted key).getLast?.bind (·.write.mergedRow)
  nodup : (s.accepted.map (·.task)).Nodup
  computed : ∀ before entry after, s.accepted = before ++ entry :: after →
    entry.write.mergedRow = rowAfter entry.op (foldOps (ofKey before entry.op.key))
  subscriber : ∀ pk table rowId, LocalAgrees pk rowId
    ((applyDeltas pk ∅ (s.deltas table)).lookup (.str rowId)) (ofKey s.accepted (table, rowId))

theorem lookup_applyDelta {pk : String} {t : TableRows} {d : Delta} :
    (applyDelta pk t d).lookup (.str d.rowId) =
      (applyEntry pk (t.lookup (.str d.rowId)) d).or (t.lookup (.str d.rowId)) := by
  unfold applyDelta
  split
  · rename_i row hrow
    rw [AList.lookup_insert, hrow]
    rfl
  · rename_i hnone
    rw [hnone]
    rfl

/-- An op is accepted after the row's earlier ones, computed from the row that they make. -/
theorem AcceptSound.accept {s s' : EagerState} (h : AcceptSound s) {entry : EagerEntry}
    (hs' : s'.accepted = s.accepted ++ [entry])
    (hfresh : entry.task ∉ s.accepted.map (·.task)) {read : Option ExistingRow}
    (hwrite : entry.write = entry.op.writeOver read)
    (hnewer : ∀ a ∈ ofKey s.accepted entry.op.key, a.op.hlc < entry.op.hlc)
    (hfits : OpFits entry.op (ofKey s.accepted entry.op.key))
    (hread : entry.op.op = .update →
      (read.bind (·.row)) = foldOps (ofKey s.accepted entry.op.key)) : AcceptSound s' := by
  have hmerged : entry.write.mergedRow =
      rowAfter entry.op (foldOps (ofKey s.accepted entry.op.key)) := by
    rw [hwrite]
    exact writeOver_mergedRow hfits.1 hread
  refine ⟨fun key => ?_, ?_, ?_, fun pk table rowId => ?_⟩
  · rw [hs', ofKey_append]
    by_cases hkey : entry.op.key = key
    · subst hkey
      rw [ofKey_singleton_self, foldOps_append_singleton, List.getLast?_append,
        List.getLast?_singleton, Option.some_or, Option.bind_some, hmerged]
    · rw [ofKey_singleton_of_ne hkey, List.append_nil]
      exact h.fold key
  · rw [hs', List.map_append, List.map_singleton]
    exact List.nodup_append'.2 ⟨h.nodup, List.nodup_singleton _,
      List.disjoint_singleton.2 hfresh⟩
  · intro before e after heq
    rw [hs'] at heq
    rcases List.eq_nil_or_concat after with rfl | ⟨init, last, rfl⟩
    · rcases List.append_inj' heq rfl with ⟨rfl, hlast⟩
      cases hlast
      exact hmerged
    · have hinit : s.accepted ++ [entry] = (before ++ e :: init) ++ [last] := by
        rw [heq]
        simp
      exact h.computed before e init (List.append_inj' hinit rfl).1
  · rcases writeOver_delta entry.op read with ⟨clocks, hdelta⟩
    rw [← hwrite] at hdelta
    have hold := h.subscriber pk table rowId
    have hdeltas : s'.deltas table = s.deltas table ++
        if entry.op.key.1 = table then [entry.write.delta] else [] := by
      unfold EagerState.deltas
      rw [hs', List.filter_append, List.map_append]
      by_cases htable : entry.op.key.1 = table <;> simp [htable]
    rw [hs', ofKey_append, hdeltas]
    by_cases htable : entry.op.key.1 = table
    · rw [if_pos htable, applyDeltas, List.foldl_append]
      change LocalAgrees pk rowId ((applyDelta pk (applyDeltas pk ∅ (s.deltas table))
        entry.write.delta).lookup (.str rowId)) _
      have hrowId : entry.write.delta.rowId = entry.op.key.2 := by rw [hdelta]
      by_cases hid : entry.op.key.2 = rowId
      · have hkey : entry.op.key = (table, rowId) := Prod.ext htable hid
        rw [← hkey, ofKey_singleton_self]
        subst hid
        rw [← hrowId, lookup_applyDelta, hrowId]
        rw [← hkey] at hold
        exact hold.applyEntry hnewer hfits hwrite hread
      · -- A delta of another row.
        have hkey : entry.op.key ≠ (table, rowId) := fun heq => hid (congrArg Prod.snd heq)
        have hne : (Json.str rowId) ≠ .str entry.write.delta.rowId := by
          rw [hrowId]
          simpa using fun heq => hid (Eq.symm heq)
        rw [ofKey_singleton_of_ne hkey, List.append_nil, lookup_applyDelta_ne hne]
        exact hold
    · have hkey : entry.op.key ≠ (table, rowId) := fun heq => htable (congrArg Prod.fst heq)
      rw [if_neg htable, List.append_nil, ofKey_singleton_of_ne hkey, List.append_nil]
      exact hold

/-! ## The ops under way -/

/-- The write that the batches are told of, if the op comes to its end as accepted. -/
def EagerTask.recorded (task : EagerTask) : Option EagerWrite :=
  match task.phase with
  | .accepted write => some write
  | .persisting _ write => if task.durable then none else some write
  | .persisted _ write => if task.durable then none else some write
  | _ => none

/-- What a read row is, going by where it is from. -/
def SourceSound (s : EagerState) (key : RowKey) (source : ReadFrom) (row : Option Row) : Prop :=
  match source with
  | .nothing => row = none
  | .stored accepted settled => settled = true → accepted ≤ (ofKey s.accepted key).length ∧
      (accepted = (ofKey s.accepted key).length → row = foldOps (ofKey s.accepted key))
  | .recorded t => ∃ task write, s.tasks[t]? = some task ∧ task.recorded = some write ∧
      row = write.mergedRow

def ViewSound (s : EagerState) (key : RowKey) (view : RowView) : Prop :=
  SourceSound s key view.source view.existing.row

/-- The write is laid over a row from that source. -/
def WriteSound (s : EagerState) (op : EagerRowOp) (source : ReadFrom) (write : EagerWrite) : Prop :=
  ∃ read, write = op.writeOver read ∧ SourceSound s op.key source (read.bind (·.row))

def PhaseSound (s : EagerState) (op : EagerRowOp) : EagerPhase → Prop
  | .fetched view => ViewSound s op.key view
  | .ready source write => WriteSound s op source write
  | .persisting source write => WriteSound s op source write
  | .persisted source write => WriteSound s op source write
  | _ => True

structure TaskSound (s : EagerState) : Prop where
  accepted : ∀ a ∈ s.accepted, ∃ task, s.tasks[a.task]? = some task ∧ task.op = a.op ∧
    task.phase = .accepted a.write
  /-- The ops that have persisted themselves and are not accepted. -/
  direct : ∀ t task source write, s.tasks[t]? = some task → task.phase = .persisted source write →
    ⟨t, task.op, write⟩ ∈ s.direct
  persisted : ∀ d ∈ s.direct, ∃ task source, s.tasks[d.task]? = some task ∧ task.op = d.op ∧
    task.phase = .persisted source d.write
  phases : ∀ task ∈ s.tasks, PhaseSound s task.op task.phase
  batches : ∀ batch ∈ s.batches, ∀ key view, batch.rows key = some view → ViewSound s key view

section Tasks

variable {s s' : EagerState} {t : Nat} {task : EagerTask} {phase : EagerPhase}

/-- The row's accepted ops are the same, or more; what batches were told of stays. -/
structure Grows (s s' : EagerState) : Prop where
  accepted : ∀ key, ofKey s'.accepted key = ofKey s.accepted key ∨
    (ofKey s.accepted key).length < (ofKey s'.accepted key).length
  recorded : ∀ (t : Nat) (task : EagerTask) (write : EagerWrite), s.tasks[t]? = some task →
    task.recorded = some write →
    ∃ task' : EagerTask, s'.tasks[t]? = some task' ∧ task'.recorded = some write

theorem SourceSound.grows (hgrows : Grows s s') {key : RowKey} {source : ReadFrom}
    {row : Option Row} (h : SourceSound s key source row) : SourceSound s' key source row := by
  cases source with
  | nothing => exact h
  | stored n settled =>
      intro hsettled
      rcases h hsettled with ⟨hle, hcurrent⟩
      rcases hgrows.accepted key with hsame | hlt
      · rw [hsame]
        exact ⟨hle, hcurrent⟩
      · exact ⟨hle.trans hlt.le, fun heq => absurd heq (by omega)⟩
  | recorded u =>
      rcases h with ⟨task, write, htask, hrecorded, hrow⟩
      rcases hgrows.recorded u task write htask hrecorded with ⟨task', htask', hrecorded'⟩
      exact ⟨task', write, htask', hrecorded', hrow⟩

theorem PhaseSound.grows (hgrows : Grows s s') {op : EagerRowOp} {phase : EagerPhase}
    (h : PhaseSound s op phase) : PhaseSound s' op phase := by
  cases phase with
  | fetched view => exact SourceSound.grows hgrows h
  | ready source write => exact h.imp fun _ hread => ⟨hread.1, hread.2.grows hgrows⟩
  | persisting source write => exact h.imp fun _ hread => ⟨hread.1, hread.2.grows hgrows⟩
  | persisted source write => exact h.imp fun _ hread => ⟨hread.1, hread.2.grows hgrows⟩
  | reading => trivial
  | accepted write => trivial
  | rejected => trivial
  | threw => trivial

/-- Nothing but more writes, buffers and flushes. -/
theorem TaskSound.of_eq (h : TaskSound s) (htasks : s'.tasks = s.tasks)
    (haccepted : s'.accepted = s.accepted) (hdirect : s'.direct = s.direct)
    (hbatches : ∀ batch ∈ s'.batches, ∀ key view, batch.rows key = some view →
      (∃ old ∈ s.batches, old.rows key = some view) ∨ ViewSound s key view) : TaskSound s' := by
  have hgrows : Grows s s' := by
    refine ⟨fun key => Or.inl (by rw [haccepted]), fun t task write ht hrecorded => ?_⟩
    exact ⟨task, by rw [htasks]; exact ht, hrecorded⟩
  refine ⟨?_, ?_, ?_, ?_, ?_⟩
  · rw [haccepted, htasks]
    exact h.accepted
  · rw [htasks, hdirect]
    exact h.direct
  · rw [hdirect, htasks]
    exact h.persisted
  · rw [htasks]
    exact fun task htask => (h.phases task htask).grows hgrows
  · intro batch hbatch key view hview
    rcases hbatches batch hbatch key view hview with ⟨old, hold, hrow⟩ | hsound
    · exact SourceSound.grows hgrows (h.batches old hold key view hrow)
    · exact SourceSound.grows hgrows hsound

/-- One op goes on. -/
theorem TaskSound.change (h : TaskSound s) (phase : EagerPhase) (ht : s.tasks[t]? = some task)
    (htasks : s'.tasks = s.tasks.set t { task with phase := phase })
    (haccepted : ∀ key, ofKey s'.accepted key = ofKey s.accepted key ∨
      (ofKey s.accepted key).length < (ofKey s'.accepted key).length)
    (hmem : ∀ a ∈ s'.accepted, (a ∈ s.accepted ∧ a.task ≠ t) ∨
      (a.task = t ∧ a.op = task.op ∧ phase = .accepted a.write))
    (hdirect : ∀ d ∈ s.direct, d.task ≠ t → d ∈ s'.direct)
    (hnew : ∀ source write, phase = .persisted source write → ⟨t, task.op, write⟩ ∈ s'.direct)
    (hback : ∀ d ∈ s'.direct, (d ∈ s.direct ∧ d.task ≠ t) ∨
      (d.task = t ∧ d.op = task.op ∧ ∃ source, phase = .persisted source d.write))
    (hrecorded : ∀ write, task.recorded = some write →
      EagerTask.recorded { task with phase := phase } = some write)
    (hphase : PhaseSound s task.op phase)
    (hbatches : ∀ batch ∈ s'.batches, ∀ key view, batch.rows key = some view →
      (∃ old ∈ s.batches, old.rows key = some view) ∨ ViewSound s' key view) : TaskSound s' := by
  have hself : s'.tasks[t]? = some { task with phase := phase } := by
    rw [htasks]
    exact List.getElem?_set_self (List.getElem?_eq_some_iff.1 ht).1
  have hother : ∀ {i}, i ≠ t → s'.tasks[i]? = s.tasks[i]? := fun hne => by
    rw [htasks]
    exact List.getElem?_set_ne hne.symm
  have hgrows : Grows s s' := by
    refine ⟨haccepted, fun i other write hi hwrite => ?_⟩
    by_cases hit : i = t
    · subst hit
      obtain rfl : task = other := Option.some.inj (ht.symm.trans hi)
      exact ⟨_, hself, hrecorded write hwrite⟩
    · exact ⟨other, (hother hit).trans hi, hwrite⟩
  refine ⟨fun a ha => ?_, fun i other source write hi hpersisted => ?_, fun d hd => ?_, ?_, ?_⟩
  · rcases hmem a ha with ⟨hold, hne⟩ | ⟨rfl, hop, hacc⟩
    · rcases h.accepted a hold with ⟨other, hi, hrest⟩
      exact ⟨other, (hother hne).trans hi, hrest⟩
    · exact ⟨_, hself, hop.symm, hacc⟩
  · by_cases hit : i = t
    · subst hit
      obtain rfl := Option.some.inj (hself.symm.trans hi)
      exact hnew source write hpersisted
    · exact hdirect _ (h.direct i other source write ((hother hit).symm.trans hi) hpersisted) hit
  · rcases hback d hd with ⟨hold, hne⟩ | ⟨rfl, hop, source, hpersisted⟩
    · rcases h.persisted d hold with ⟨other, source, hi, hrest⟩
      exact ⟨other, source, (hother hne).trans hi, hrest⟩
    · exact ⟨_, source, hself, hop.symm, hpersisted⟩
  · intro other hin
    rw [htasks] at hin
    rcases List.mem_or_eq_of_mem_set hin with hold | rfl
    · exact (h.phases other hold).grows hgrows
    · exact hphase.grows hgrows
  · intro batch hbatch key view hview
    rcases hbatches batch hbatch key view hview with ⟨old, hold, hrow⟩ | hsound
    · exact SourceSound.grows hgrows (h.batches old hold key view hrow)
    · exact hsound

/-- An op goes on that neither persists itself nor is accepted by it. -/
theorem TaskSound.setPhase (h : TaskSound s) (ht : s.tasks[t]? = some task)
    (hold : task.recorded = none ∧ ∀ source write, task.phase ≠ .persisted source write)
    (hnew : (∀ write, phase ≠ .accepted write) ∧ ∀ source write, phase ≠ .persisted source write)
    (hphase : PhaseSound s task.op phase) {batches : List EagerBatch}
    (hbatches : ∀ batch ∈ batches, ∀ key view, batch.rows key = some view →
      (∃ old ∈ s.batches, old.rows key = some view) ∨
        ViewSound { s.setPhase t task phase with batches := batches } key view) :
    TaskSound { s.setPhase t task phase with batches := batches } := by
  have hnot : ∀ a ∈ s.accepted, a.task ≠ t := by
    rintro a ha rfl
    rcases h.accepted a ha with ⟨other, hi, -, hacc⟩
    obtain rfl : task = other := Option.some.inj (ht.symm.trans hi)
    rw [EagerTask.recorded, hacc] at hold
    cases hold.1
  have hnotDirect : ∀ d ∈ s.direct, d.task ≠ t := by
    rintro d hd rfl
    rcases h.persisted d hd with ⟨other, source, hi, -, hpersisted⟩
    obtain rfl : task = other := Option.some.inj (ht.symm.trans hi)
    exact hold.2 _ _ hpersisted
  refine h.change phase ht rfl
    (fun _ => Or.inl rfl) (fun a ha => Or.inl ⟨ha, hnot a ha⟩) (fun d hd _ => hd)
    (fun source write heq => absurd heq (hnew.2 source write))
    (fun d hd => Or.inl ⟨hd, hnotDirect d hd⟩) (fun write hwrite => ?_) hphase hbatches
  rw [hold.1] at hwrite
  cases hwrite

/-- The row that the op has read is the one that the accepted ops make. -/
theorem TaskSound.read_eq (h : TaskSound s) (haccept : AcceptSound s) {key : RowKey}
    {source : ReadFrom} {row : Option Row} (hsound : SourceSound s key source row)
    (hcurrent : ReadCurrent (ofKey s.accepted key) source) :
    row = foldOps (ofKey s.accepted key) := by
  cases source with
  | nothing =>
      have hnone : foldOps (ofKey s.accepted key) = none := Option.isNone_iff_eq_none.1 hcurrent
      rw [hnone]
      exact hsound
  | stored n settled => exact (hsound hcurrent.1).2 hcurrent.2
  | recorded u =>
      rcases hsound with ⟨task, write, htask, hrecorded, rfl⟩
      rcases Option.map_eq_some_iff.1 hcurrent with ⟨last, hlast, rfl⟩
      have hmem := (mem_ofKey.1 (List.mem_of_getLast? hlast)).1
      rcases h.accepted last hmem with ⟨other, hother, -, hphase⟩
      obtain rfl : task = other := Option.some.inj (htask.symm.trans hother)
      rw [EagerTask.recorded, hphase] at hrecorded
      obtain rfl := Option.some.inj hrecorded
      rw [haccept.fold key, hlast]
      rfl

end Tasks

/-! ## The storage -/

structure RowsSound (s : EagerState) : Prop where
  rows : ∀ key, s.rows key = (ofKey s.written key).getLast?.bind EagerEntry.stored
  log : ∀ key, WriteBehind (ofKey s.accepted key) (s.pendingOf key) (ofKey s.direct key)
    (ofKey s.written key)
  buffers : ∀ table, ∀ e ∈ s.buffers table, e.op.key.1 = table ∧ table ∈ s.queryNames
  /-- The calls of a flush are those of one buffer. -/
  items : ∀ run items, s.run = some run → run.items = some items →
    ∃ table, s.queryNames[run.place]? = some table ∧ ∀ item ∈ items,
      item.entry.op.key.1 = table ∧ (item.status = .succeeded → item.entry ∈ s.written)

section Rows

variable {s s' : EagerState} {e : EagerEntry} {key : RowKey}

theorem row_getRow (stored : Option StoredRow) : (getRow stored).row = stored.map (·.row) := by
  cases stored <;> rfl

theorem map_row_stored (entries : List EagerEntry) :
    (entries.getLast?.bind EagerEntry.stored).map (·.row) =
      entries.getLast?.bind (·.write.mergedRow) := by
  cases entries.getLast? with
  | none => rfl
  | some last =>
      rw [Option.bind_some, Option.bind_some, EagerEntry.stored]
      cases last.write.mergedRow <;> rfl

theorem settled_iff : s.settled key = true ↔ s.pendingOf key = [] ∧ ofKey s.direct key = [] := by
  simp [EagerState.settled]

/-- With nothing of the row under way, the op written last is the one accepted last. -/
theorem RowsSound.getLast?_written (h : RowsSound s) (hsettled : s.settled key = true) :
    (ofKey s.written key).getLast? = (ofKey s.accepted key).getLast? := by
  rcases settled_iff.1 hsettled with ⟨hpending, hdirect⟩
  have hlog := h.log key
  rw [hpending, hdirect] at hlog
  exact hlog.getLast?_eq

theorem RowsSound.view (h : RowsSound s) (haccept : AcceptSound s) (key : RowKey) :
    ViewSound s key (s.view key) := by
  intro hsettled
  refine ⟨le_rfl, fun _ => ?_⟩
  change (getRow (s.rows key)).row = _
  rw [row_getRow, h.rows key, map_row_stored, h.getLast?_written hsettled, haccept.fold key]

theorem pendingOf_congr (hrun : s'.run = s.run)
    (hbuffers : ofKey (s'.buffers key.1) key = ofKey (s.buffers key.1) key) :
    s'.pendingOf key = s.pendingOf key := by
  rw [EagerState.pendingOf, EagerState.pendingOf, hbuffers, EagerState.calling,
    EagerState.calling, hrun]

/-- A buffered op is accepted as it is pushed. -/
theorem RowsSound.push (h : RowsSound s) (hrows : s'.rows = s.rows)
    (hwritten : s'.written = s.written) (hrun : s'.run = s.run)
    (haccepted : s'.accepted = s.accepted ++ [e])
    (hdirect : ∀ key, ofKey s'.direct key = ofKey s.direct key)
    (hbuffers : s'.buffers = Function.update s.buffers e.op.key.1 (s.buffers e.op.key.1 ++ [e]))
    (hnames : ∀ (p : Nat) (table : String), s.queryNames[p]? = some table →
      s'.queryNames[p]? = some table)
    (hname : e.op.key.1 ∈ s'.queryNames) (halone : ofKey s.direct e.op.key = []) :
    RowsSound s' := by
  have hother : ∀ {key}, e.op.key ≠ key →
      ofKey (s'.buffers key.1) key = ofKey (s.buffers key.1) key := by
    intro key hkey
    rw [hbuffers]
    by_cases htable : key.1 = e.op.key.1
    · rw [htable, Function.update_self, ofKey_append, ofKey_singleton_of_ne hkey, List.append_nil]
    · rw [Function.update_of_ne htable]
  refine ⟨fun key => ?_, fun key => ?_, ?_, ?_⟩
  · rw [hrows, hwritten]
    exact h.rows key
  · have hlog := h.log key
    rw [haccepted, hwritten, hdirect, ofKey_append]
    by_cases hkey : e.op.key = key
    · subst hkey
      have hpending : s'.pendingOf e.op.key = s.pendingOf e.op.key ++ [e] := by
        rw [EagerState.pendingOf, EagerState.pendingOf, hbuffers, Function.update_self,
          EagerState.calling, EagerState.calling, hrun, ofKey_append, ofKey_singleton_self,
          List.append_assoc]
      rw [hpending, ofKey_singleton_self, halone]
      rw [halone] at hlog
      exact hlog.push
    · rw [ofKey_singleton_of_ne hkey, List.append_nil, pendingOf_congr hrun (hother hkey)]
      exact hlog
  · have hin : ∀ {table}, table ∈ s.queryNames → table ∈ s'.queryNames := by
      intro table htable
      rcases List.mem_iff_getElem?.1 htable with ⟨p, hp⟩
      exact List.mem_of_getElem? (hnames p table hp)
    intro table x hx
    rw [hbuffers] at hx
    by_cases htable : table = e.op.key.1
    · subst htable
      rw [Function.update_self] at hx
      rcases List.mem_append.1 hx with hold | hnew
      · exact (h.buffers _ x hold).imp id hin
      · obtain rfl := List.mem_singleton.1 hnew
        exact ⟨rfl, hname⟩
    · rw [Function.update_of_ne htable] at hx
      exact (h.buffers table x hx).imp id hin
  · intro run items hsome hitems
    rcases h.items run items (hrun ▸ hsome) hitems with ⟨table, htable, hall⟩
    refine ⟨table, hnames _ _ htable, ?_⟩
    rw [hwritten]
    exact hall

/-- The rows after a write. -/
theorem RowsSound.rows_write (h : RowsSound s)
    (hrows : s'.rows = Function.update s.rows e.op.key e.stored)
    (hwritten : s'.written = s.written ++ [e]) (key : RowKey) :
    s'.rows key = (ofKey s'.written key).getLast?.bind EagerEntry.stored := by
  rw [hrows, hwritten, ofKey_append]
  by_cases hkey : e.op.key = key
  · subst hkey
    rw [Function.update_self, ofKey_singleton_self, List.getLast?_append, List.getLast?_singleton]
    rfl
  · rw [Function.update_of_ne (Ne.symm hkey), ofKey_singleton_of_ne hkey, List.append_nil]
    exact h.rows key

/-- An op persists itself. -/
theorem RowsSound.writeDirect (h : RowsSound s) (hsettled : s.settled e.op.key = true)
    (hrows : s'.rows = Function.update s.rows e.op.key e.stored)
    (hwritten : s'.written = s.written ++ [e]) (hrun : s'.run = s.run)
    (haccepted : s'.accepted = s.accepted) (hdirect : s'.direct = s.direct ++ [e])
    (hbuffers : s'.buffers = s.buffers) (hnames : s'.queryNames = s.queryNames) :
    RowsSound s' := by
  refine ⟨h.rows_write hrows hwritten, fun key => ?_, ?_, ?_⟩
  · have hlog := h.log key
    rw [haccepted, hwritten, hdirect, ofKey_append, ofKey_append,
      pendingOf_congr hrun (by rw [hbuffers])]
    by_cases hkey : e.op.key = key
    · subst hkey
      rcases settled_iff.1 hsettled with ⟨hpending, hnone⟩
      rw [hpending, hnone] at hlog
      rw [hpending, hnone, ofKey_singleton_self]
      exact hlog.writeDirect
    · rw [ofKey_singleton_of_ne hkey, List.append_nil, List.append_nil]
      exact hlog
  · rw [hbuffers, hnames]
    exact h.buffers
  · intro run items hsome hitems
    rcases h.items run items (hrun ▸ hsome) hitems with ⟨table, htable, hall⟩
    refine ⟨table, hnames ▸ htable, fun item hitem => (hall item hitem).imp id fun hdone hs => ?_⟩
    rw [hwritten]
    exact List.mem_append_left _ (hdone hs)

/-- An op that has persisted itself is accepted. -/
theorem RowsSound.acceptDirect (h : RowsSound s) (hin : e ∈ s.direct) (hrows : s'.rows = s.rows)
    (hwritten : s'.written = s.written) (hrun : s'.run = s.run)
    (haccepted : s'.accepted = s.accepted ++ [e])
    (hself : ofKey s'.direct e.op.key = [])
    (hdirect : ∀ key, e.op.key ≠ key → ofKey s'.direct key = ofKey s.direct key)
    (hbuffers : s'.buffers = s.buffers) (hnames : s'.queryNames = s.queryNames) :
    RowsSound s' := by
  refine ⟨fun key => ?_, fun key => ?_, ?_, ?_⟩
  · rw [hrows, hwritten]
    exact h.rows key
  · have hlog := h.log key
    rw [haccepted, hwritten, ofKey_append, pendingOf_congr hrun (by rw [hbuffers])]
    by_cases hkey : e.op.key = key
    · subst hkey
      rcases hlog.of_direct (mem_ofKey.2 ⟨hin, rfl⟩) with ⟨hpending, hdirect⟩
      rw [hpending, hdirect] at hlog
      rw [hpending, hself, ofKey_singleton_self]
      exact hlog.acceptDirect
    · rw [ofKey_singleton_of_ne hkey, List.append_nil, hdirect key hkey]
      exact hlog
  · rw [hbuffers, hnames]
    exact h.buffers
  · rw [hrun, hnames, hwritten]
    exact h.items

/-! ## The calls of a flush -/

/-- The calls that have not succeeded. -/
def openCalls (items : List FlushItem) : List EagerEntry :=
  (items.filter (·.status ≠ .succeeded)).map (·.entry)

theorem openCalls_append (items items' : List FlushItem) :
    openCalls (items ++ items') = openCalls items ++ openCalls items' := by
  simp [openCalls]

theorem openCalls_calling (entries : List EagerEntry) :
    openCalls (entries.map fun entry => ⟨entry, .calling⟩) = entries := by
  induction entries with
  | nil => rfl
  | cons x xs ih =>
      have hcons : openCalls ((x :: xs).map fun entry => ⟨entry, .calling⟩) =
          x :: openCalls (xs.map fun entry => ⟨entry, .calling⟩) := rfl
      rw [hcons, ih]

theorem mem_openCalls {items : List FlushItem} {x : EagerEntry} :
    x ∈ openCalls items ↔ ∃ item ∈ items, item.status ≠ .succeeded ∧ item.entry = x := by
  simp [openCalls, and_assoc]

theorem calling_eq {run : FlushRun} {items : List FlushItem} (hrun : s.run = some run)
    (hitems : run.items = some items) : s.calling = openCalls items := by
  rw [EagerState.calling, hrun, Option.bind_some, hitems]
  rfl

theorem calling_eq_nil {run : Option FlushRun} (hrun : s.run = run)
    (hitems : run.bind (·.items) = none) : s.calling = [] := by
  rw [EagerState.calling, hrun, hitems]

theorem openCalls_middle (items items' : List FlushItem) (x : EagerEntry) (status : CallStatus) :
    openCalls (items ++ ⟨x, status⟩ :: items') =
      openCalls items ++ (if status = .succeeded then [] else [x]) ++ openCalls items' := by
  rw [openCalls_append, List.append_assoc]
  congr 1
  by_cases hs : status = .succeeded <;> simp [openCalls, hs]

/-- The list about one of its elements. -/
theorem exists_middle {α : Type} {xs : List α} {i : Nat} {x : α} (h : xs[i]? = some x) :
    ∃ ys, xs = xs.take i ++ x :: ys ∧ ∀ y, xs.set i y = xs.take i ++ y :: ys := by
  rcases List.getElem?_eq_some_iff.1 h with ⟨hlt, hget⟩
  refine ⟨xs.drop (i + 1), ?_, fun y => List.set_eq_take_append_cons_drop.trans (if_pos hlt)⟩
  rw [← hget, ← List.drop_eq_getElem_cons hlt, List.take_append_drop]

/-- A call comes to an end.  One that takes effect is the row's first one that is open. -/
theorem RowsSound.item (h : RowsSound s) {place : Nat} {ended written : Bool}
    {items items' : List FlushItem} {status : CallStatus}
    (hrun : s.run = some ⟨place, some (items ++ ⟨e, .calling⟩ :: items'), ended⟩)
    (hfirst : written = true → ∀ earlier ∈ items, earlier.entry.op.key = e.op.key →
      earlier.status = .succeeded)
    (hstatus : status = .succeeded → written = true) :
    RowsSound ((if written then s.write e else s).setRun
      ⟨place, some (items ++ ⟨e, status⟩ :: items'), ended⟩) := by
  rcases h.items _ _ hrun rfl with ⟨table, htable, hall⟩
  have hcalling : s.calling = openCalls items ++ [e] ++ openCalls items' := by
    rw [calling_eq hrun rfl, openCalls_middle]
    rfl
  have hitems : ∀ {w : List EagerEntry}, (∀ x ∈ s.written, x ∈ w) → (status = .succeeded → e ∈ w) →
      ∀ item ∈ items ++ ⟨e, status⟩ :: items', item.entry.op.key.1 = table ∧
        (item.status = .succeeded → item.entry ∈ w) := by
    intro w hgrows hdone item hitem
    have hold : item ∈ items ++ ⟨e, .calling⟩ :: items' ∨ item = ⟨e, status⟩ := by
      rcases List.mem_append.1 hitem with hmem | hmem
      · exact Or.inl (List.mem_append_left _ hmem)
      · rcases List.mem_cons.1 hmem with heq | hmem
        · exact Or.inr heq
        · exact Or.inl (List.mem_append_right _ (List.mem_cons_of_mem _ hmem))
    rcases hold with hold | rfl
    · exact ⟨(hall item hold).1, fun hs => hgrows _ ((hall item hold).2 hs)⟩
    · exact ⟨(hall ⟨e, .calling⟩ (by simp)).1, hdone⟩
  cases written with
  | false =>
      -- The call has failed, and is still open.
      have hopen : status ≠ .succeeded := fun hs => by cases hstatus hs
      refine ⟨h.rows, fun key => ?_, h.buffers, ?_⟩
      · have hsame : (s.setRun
            ⟨place, some (items ++ ⟨e, status⟩ :: items'), ended⟩).pendingOf key =
            s.pendingOf key := by
          rw [EagerState.pendingOf, EagerState.pendingOf, hcalling, calling_eq rfl rfl,
            openCalls_middle, if_neg hopen]
          rfl
        have hlog := h.log key
        rw [← hsame] at hlog
        exact hlog
      · rintro _ _ ⟨⟩ ⟨⟩
        exact ⟨table, htable, hitems (fun _ hx => hx) fun hs => absurd hs hopen⟩
  | true =>
      refine ⟨h.rows_write (e := e) rfl rfl, fun key => ?_, h.buffers, ?_⟩
      · have hlog := h.log key
        rw [EagerState.pendingOf, hcalling] at hlog
        change WriteBehind (ofKey s.accepted key) (ofKey (EagerState.calling _) key ++
          ofKey (s.buffers key.1) key) (ofKey s.direct key) (ofKey (s.written ++ [e]) key)
        rw [calling_eq rfl rfl, openCalls_middle, ofKey_append]
        by_cases hkey : e.op.key = key
        · subst hkey
          have hnone : ofKey (openCalls items) e.op.key = [] := by
            refine ofKey_eq_nil fun x hx hkey => ?_
            rcases mem_openCalls.1 hx with ⟨earlier, hearlier, hne, rfl⟩
            exact hne (hfirst rfl earlier hearlier hkey)
          simp only [ofKey_append, hnone, ofKey_singleton_self, List.nil_append,
            List.cons_append] at hlog ⊢
          have hdirect : ofKey s.direct e.op.key = [] := by
            refine List.eq_nil_iff_forall_not_mem.2 fun d hd => ?_
            cases (hlog.of_direct hd).1
          rw [hdirect] at hlog ⊢
          by_cases hs : status = .succeeded
          · rw [if_pos hs]
            exact hlog.write
          · rw [if_neg hs, ofKey_singleton_self]
            exact hlog.writeLost
        · have hopen : ofKey (if status = .succeeded then [] else [e]) key = [] := by
            split
            · rfl
            · exact ofKey_singleton_of_ne hkey
          simp only [ofKey_append, ofKey_singleton_of_ne hkey, hopen, List.append_nil] at hlog ⊢
          exact hlog
      · rintro _ _ ⟨⟩ ⟨⟩
        exact ⟨table, htable, hitems (fun _ hx => List.mem_append_left _ hx) fun _ => by
          exact List.mem_append_right _ (List.mem_singleton_self e)⟩

/-- The flush takes all of a buffer. -/
theorem RowsSound.drain (h : RowsSound s) {place : Nat} {table : String}
    (hrun : s.run = some ⟨place, none, false⟩) (htable : s.queryNames[place]? = some table) :
    RowsSound ({ s with buffers := Function.update s.buffers table [] }.setRun
      ⟨place, some ((s.buffers table).map fun entry => ⟨entry, .calling⟩), false⟩) := by
  refine ⟨h.rows, fun key => ?_, fun table' x hx => ?_, ?_⟩
  · have hlog := h.log key
    rw [EagerState.pendingOf, calling_eq_nil hrun rfl] at hlog
    change WriteBehind (ofKey s.accepted key) (ofKey (EagerState.calling _) key ++
      ofKey (Function.update s.buffers table [] key.1) key) (ofKey s.direct key)
        (ofKey s.written key)
    rw [calling_eq rfl rfl, openCalls_calling]
    by_cases hkey : key.1 = table
    · subst hkey
      rw [Function.update_self]
      simpa using hlog
    · have hnone : ofKey (s.buffers table) key = [] :=
        ofKey_eq_nil fun x hx heq => hkey (heq ▸ (h.buffers table x hx).1)
      rw [Function.update_of_ne hkey, hnone]
      exact hlog
  · have hx' : x ∈ Function.update s.buffers table [] table' := hx
    by_cases heq : table' = table
    · subst heq
      rw [Function.update_self] at hx'
      cases hx'
    · rw [Function.update_of_ne heq] at hx'
      exact h.buffers table' x hx'
  · rintro _ _ ⟨⟩ ⟨⟩
    refine ⟨table, htable, fun item hitem => ?_⟩
    rcases List.mem_map.1 hitem with ⟨x, hx, rfl⟩
    exact ⟨(h.buffers table x hx).1, fun hs => by cases hs⟩

/-- The ops whose calls have failed go back to the head of the buffer. -/
theorem RowsSound.settle (h : RowsSound s) {place : Nat} {ended : Bool} {table : String}
    {items : List FlushItem} {reported : List Nat}
    (hrun : s.run = some ⟨place, some items, ended⟩) (htable : s.queryNames[place]? = some table)
    (hended : ∀ item ∈ items, item.status ≠ .calling) :
    RowsSound { s with
      buffers := Function.update s.buffers table
        ((items.filter (·.status = .failed)).map (·.entry) ++ s.buffers table)
      reported := reported
      run := some ⟨place + 1, none, ended⟩ } := by
  rcases h.items _ _ hrun rfl with ⟨table', htable', hall⟩
  obtain rfl : table' = table := Option.some.inj (htable'.symm.trans htable)
  have hfailed : (items.filter (·.status = .failed)).map (·.entry) = openCalls items := by
    refine congrArg (List.map _) (List.filter_congr fun item hitem => ?_)
    have hne := hended item hitem
    cases hstatus : item.status <;> simp_all
  rw [hfailed]
  have hmem : ∀ x ∈ openCalls items, x.op.key.1 = table' := by
    intro x hx
    rcases mem_openCalls.1 hx with ⟨item, hitem, -, rfl⟩
    exact (hall item hitem).1
  refine ⟨h.rows, fun key => ?_, fun other x hx => ?_, ?_⟩
  · have hlog := h.log key
    rw [EagerState.pendingOf, calling_eq hrun rfl] at hlog
    change WriteBehind (ofKey s.accepted key) (ofKey (EagerState.calling _) key ++
      ofKey (Function.update s.buffers table' (openCalls items ++ s.buffers table') key.1) key)
        (ofKey s.direct key) (ofKey s.written key)
    rw [calling_eq_nil rfl rfl, ofKey_nil, List.nil_append]
    by_cases hkey : key.1 = table'
    · subst hkey
      rw [Function.update_self, ofKey_append]
      exact hlog
    · have hnone : ofKey (openCalls items) key = [] :=
        ofKey_eq_nil fun x hx heq => hkey (heq ▸ hmem x hx)
      rw [Function.update_of_ne hkey]
      rw [hnone, List.nil_append] at hlog
      exact hlog
  · have hx' : x ∈ Function.update s.buffers table' (openCalls items ++ s.buffers table') other :=
      hx
    by_cases heq : other = table'
    · subst heq
      rw [Function.update_self] at hx'
      rcases List.mem_append.1 hx' with hopen | hold
      · exact ⟨hmem x hopen, List.mem_of_getElem? htable⟩
      · exact h.buffers other x hold
    · rw [Function.update_of_ne heq] at hx'
      exact h.buffers other x hx'
  · rintro _ _ ⟨⟩ ⟨⟩

/-- The flush goes on without calls. -/
theorem RowsSound.setRun (h : RowsSound s) {run run' : Option FlushRun} {calls : List FlushCall}
    (hrun : s.run = run) (hitems : run.bind (·.items) = none)
    (hitems' : run'.bind (·.items) = none) :
    RowsSound { s with run := run', calls := calls } := by
  refine ⟨h.rows, fun key => ?_, h.buffers, fun r items hr hsome => ?_⟩
  · have hlog := h.log key
    rw [EagerState.pendingOf, calling_eq_nil hrun hitems] at hlog
    change WriteBehind (ofKey s.accepted key) (ofKey (EagerState.calling _) key ++
      ofKey (s.buffers key.1) key) (ofKey s.direct key) (ofKey s.written key)
    rw [calling_eq_nil rfl hitems']
    exact hlog
  · have hr' : run' = some r := hr
    rw [hr', Option.bind_some, hsome] at hitems'
    cases hitems'

end Rows

end Server
end Reflectdb
