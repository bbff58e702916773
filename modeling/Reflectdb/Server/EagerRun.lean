import Reflectdb.Server.EagerFlush

/-!
# Eager run — every run in order is sound

Each event keeps the invariant: ops are accepted on the row that they have read, the storage follows
the accepted ops, and the callers of a flush miss nothing.
-/

namespace Reflectdb
namespace Server

open Core Client Lib Sync EagerState

structure EagerInv (s : EagerState) : Prop where
  accept : AcceptSound s
  tasks : TaskSound s
  rows : RowsSound s
  flush : FlushSound s

namespace EagerInv

theorem start : EagerInv .start where
  accept := ⟨fun _ => rfl, List.nodup_nil,
    fun before entry after h => by simp [EagerState.start] at h, fun pk table rowId =>
      ⟨by simp [EagerState.start, deltas, applyDeltas],
        by simp [EagerState.start, deltas, applyDeltas, Delivered, foldOps],
        by simp [EagerState.start, deltas, applyDeltas]⟩⟩
  tasks := ⟨by simp [EagerState.start], by simp [EagerState.start], by simp [EagerState.start],
    by simp [EagerState.start], by simp [EagerState.start]⟩
  rows := ⟨fun _ => rfl, fun _ => WriteBehind.start, by simp [EagerState.start],
    by simp [EagerState.start]⟩
  flush := ⟨by simp [EagerState.start], by simp [EagerState.start], by simp [EagerState.start]⟩

/-! ## What the batches are told -/

section Batches

variable {s : EagerState} {batch : EagerBatch} {key : RowKey} {view : RowView}

theorem rows_setRow {b : Option Nat} {k : RowKey} {v : RowView}
    (hbatch : batch ∈ (s.setRow b k v).batches) (hview : batch.rows key = some view) :
    (∃ old ∈ s.batches, old.rows key = some view) ∨ (key = k ∧ view = v) := by
  rcases List.mem_mapIdx.1 hbatch with ⟨i, hi, rfl⟩
  have hold : s.batches[i] ∈ s.batches := List.getElem_mem hi
  split at hview
  · by_cases hkey : key = k
    · subst hkey
      simp only [Function.update_self, Option.some.injEq] at hview
      exact Or.inr ⟨rfl, hview.symm⟩
    · simp only [Function.update_of_ne hkey] at hview
      exact Or.inl ⟨_, hold, hview⟩
  · exact Or.inl ⟨_, hold, hview⟩

theorem rows_markStale {b : Option Nat} {k : RowKey} (hbatch : batch ∈ (s.markStale b k).batches) :
    ∃ old ∈ s.batches, old.rows = batch.rows := by
  rcases List.mem_mapIdx.1 hbatch with ⟨i, hi, rfl⟩
  refine ⟨s.batches[i], List.getElem_mem hi, ?_⟩
  split <;> rfl

theorem rows_recordWrite {t : Nat} {task : EagerTask} {write : EagerWrite}
    (hbatch : batch ∈ (s.recordWrite t task write).batches) (hview : batch.rows key = some view) :
    (∃ old ∈ s.batches, old.rows key = some view) ∨
      (key = task.op.key ∧ view.source = .recorded t ∧ view.existing.row = write.mergedRow) := by
  rcases rows_setRow hbatch hview with ⟨old, hold, hrow⟩ | ⟨rfl, rfl⟩
  · rcases rows_markStale hold with ⟨older, holder, hsame⟩
    exact Or.inl ⟨older, holder, by rw [hsame]; exact hrow⟩
  · exact Or.inr ⟨rfl, rfl, rfl⟩

end Batches

/-! ## Events that accept nothing -/

section Quiet

variable {s s' : EagerState} {t : Nat} {task : EagerTask}

/-- Nothing but ops, batches and new buffers. -/
theorem quiet (h : EagerInv s) (htasks : TaskSound s') (haccepted : s'.accepted = s.accepted)
    (hdirect : s'.direct = s.direct) (hrows : s'.rows = s.rows) (hwritten : s'.written = s.written)
    (hrun : s'.run = s.run) (hbuffers : s'.buffers = s.buffers)
    (hnames : ∀ (p : Nat) (table : String), s.queryNames[p]? = some table →
      s'.queryNames[p]? = some table)
    (hcalls : s'.calls = s.calls ∧ s'.reported = s.reported ∧ s'.pushed = s.pushed) :
    EagerInv s' := by
  refine ⟨?_, htasks, ?_, ?_⟩
  · refine ⟨?_, ?_, ?_, ?_⟩
    · rw [haccepted]
      exact h.accept.fold
    · rw [haccepted]
      exact h.accept.nodup
    · rw [haccepted]
      exact h.accept.computed
    · unfold EagerState.deltas
      rw [haccepted]
      exact h.accept.subscriber
  · refine ⟨?_, fun key => ?_, fun table x hx => ?_, fun run items hsome hitems => ?_⟩
    · rw [hrows, hwritten]
      exact h.rows.rows
    · rw [haccepted, hwritten, hdirect, pendingOf_congr hrun (by rw [hbuffers])]
      exact h.rows.log key
    · rcases h.rows.buffers table x (hbuffers ▸ hx) with ⟨htable, hname⟩
      rcases List.mem_iff_getElem?.1 hname with ⟨p, hp⟩
      exact ⟨htable, List.mem_of_getElem? (hnames p table hp)⟩
    · rcases h.rows.items run items (hrun ▸ hsome) hitems with ⟨table, htable, hall⟩
      refine ⟨table, hnames _ _ htable, ?_⟩
      rw [hwritten]
      exact hall
  · refine h.flush.grows hrun (fun e he => hwritten ▸ he) hnames (fun table e he => ?_)
      hcalls.2.1 hcalls.1 (fun t ht => Or.inl (hcalls.2.2 ▸ ht))
    rw [hbuffers]
    exact he

/-- The batches get rows that are sound. -/
theorem setBatches (h : EagerInv s) {batches : List EagerBatch}
    (hbatches : ∀ batch ∈ batches, ∀ key view, batch.rows key = some view →
      (∃ old ∈ s.batches, old.rows key = some view) ∨ ViewSound s key view) :
    EagerInv { s with batches := batches } :=
  h.quiet (h.tasks.of_eq rfl rfl rfl hbatches) rfl rfl rfl rfl rfl rfl (fun _ _ hp => hp)
    ⟨rfl, rfl, rfl⟩

theorem startBatch (h : EagerInv s) :
    EagerInv { s with batches := s.batches ++ [⟨fun _ => none, fun _ => false, true⟩] } := by
  refine h.setBatches fun batch hbatch key view hview => ?_
  rcases List.mem_append.1 hbatch with hold | hnew
  · exact Or.inl ⟨batch, hold, hview⟩
  · rw [List.mem_singleton.1 hnew] at hview
    cases hview

theorem finishBatch (h : EagerInv s) (b : Nat) :
    EagerInv { s with
      batches := s.batches.mapIdx fun i x => if i = b then { x with active := false } else x } := by
  refine h.setBatches fun batch hbatch key view hview => ?_
  rcases List.mem_mapIdx.1 hbatch with ⟨i, hi, rfl⟩
  refine Or.inl ⟨s.batches[i], List.getElem_mem hi, ?_⟩
  split at hview <;> exact hview

theorem prefetch (h : EagerInv s) (b : Nat) (key : RowKey) :
    EagerInv { s with
      batches := s.batches.mapIdx fun i x =>
        if i = b then { x with rows := Function.update x.rows key (some (s.view key)) }
        else x } := by
  refine h.setBatches fun batch hbatch other view hview => ?_
  rcases List.mem_mapIdx.1 hbatch with ⟨i, hi, rfl⟩
  have hold : s.batches[i] ∈ s.batches := List.getElem_mem hi
  split at hview
  · by_cases hkey : other = key
    · subst hkey
      simp only [Function.update_self, Option.some.injEq] at hview
      exact Or.inr (hview ▸ h.rows.view h.accept other)
    · simp only [Function.update_of_ne hkey] at hview
      exact Or.inl ⟨_, hold, hview⟩
  · exact Or.inl ⟨_, hold, hview⟩

/-- The next op of a message. -/
theorem startOp (h : EagerInv s) {op : EagerRowOp} {durable : Bool} {batch : Option Nat}
    (hs : s.stepStart op durable batch = some s') : EagerInv s' := by
  rcases Option.ite_none_right_eq_some.1 hs with ⟨-, hs⟩
  obtain ⟨phase, hphase, hs⟩ : ∃ phase : EagerPhase, (phase = .reading ∨
      phase = .ready .nothing (op.writeOver none)) ∧
      s' = { s with tasks := s.tasks ++ [⟨op, durable, batch, phase⟩] } := by
    refine ⟨_, ?_, (Option.some.inj hs).symm⟩
    split
    · exact Or.inl rfl
    · exact Or.inr rfl
  subst hs
  have hold : ∀ {t : Nat} {x : EagerTask}, s.tasks[t]? = some x →
      (s.tasks ++ [⟨op, durable, batch, phase⟩])[t]? = some x := fun hx => by
    rw [List.getElem?_append_left (List.getElem?_eq_some_iff.1 hx).1]
    exact hx
  have hgrows : Grows s { s with tasks := s.tasks ++ [⟨op, durable, batch, phase⟩] } :=
    ⟨fun _ => Or.inl rfl, fun t x write hx hwrite => ⟨x, hold hx, hwrite⟩⟩
  refine h.quiet ⟨fun a ha => ?_, fun t x source write hx hpersisted => ?_, fun d hd => ?_, ?_, ?_⟩
    rfl rfl rfl rfl rfl rfl (fun _ _ hp => hp) ⟨rfl, rfl, rfl⟩
  · rcases h.tasks.accepted a ha with ⟨x, hx, hrest⟩
    exact ⟨x, hold hx, hrest⟩
  · rcases List.mem_append.1 (List.mem_of_getElem? hx) with hmem | hnew
    · have hlt : t < s.tasks.length := by
        by_contra hge
        have hlast := hx
        rw [List.getElem?_append_right (by omega)] at hlast
        have hx' := List.mem_singleton.1 (List.mem_of_getElem? hlast)
        subst hx'
        rcases hphase with rfl | rfl <;> cases hpersisted
      rw [List.getElem?_append_left hlt] at hx
      exact h.tasks.direct t x source write hx hpersisted
    · have hx' := List.mem_singleton.1 hnew
      subst hx'
      rcases hphase with rfl | rfl <;> cases hpersisted
  · rcases h.tasks.persisted d hd with ⟨x, source, hx, hrest⟩
    exact ⟨x, source, hold hx, hrest⟩
  · intro x hx
    rcases List.mem_append.1 hx with hmem | hnew
    · exact (h.tasks.phases x hmem).grows hgrows
    · rw [List.mem_singleton.1 hnew]
      rcases hphase with rfl | rfl
      · trivial
      · exact ⟨none, rfl, rfl⟩
  · exact fun b hb key view hview =>
      SourceSound.grows hgrows (h.tasks.batches b hb key view hview)

/-- An op goes on that has neither persisted itself nor ended. -/
theorem setPhase (h : EagerInv s) (phase : EagerPhase) (ht : s.tasks[t]? = some task)
    (hold : task.recorded = none ∧ ∀ source write, task.phase ≠ .persisted source write)
    (hnew : (∀ write, phase ≠ .accepted write) ∧ ∀ source write, phase ≠ .persisted source write)
    (hphase : PhaseSound s task.op phase) {batches : List EagerBatch} {names : List String}
    (hbatches : ∀ batch ∈ batches, ∀ key view, batch.rows key = some view →
      (∃ old ∈ s.batches, old.rows key = some view) ∨
        ViewSound { s.setPhase t task phase with batches := batches } key view)
    (hnames : ∀ (p : Nat) (table : String), s.queryNames[p]? = some table →
      names[p]? = some table) :
    EagerInv { s.setPhase t task phase with batches := batches, queryNames := names } := by
  have htasks := h.tasks.setPhase ht hold hnew hphase hbatches
  refine h.quiet (htasks.of_eq rfl rfl rfl fun b hb key view hview => Or.inl ⟨b, hb, hview⟩)
    rfl rfl rfl rfl rfl rfl hnames ⟨rfl, rfl, rfl⟩

end Quiet

/-! ## An op until it is accepted -/

section Op

variable {s s' : EagerState} {t : Nat} {task : EagerTask} {maxBufferSize : String → Nat}

theorem ready_sound {view : Option RowView} (hview : ∀ v, view = some v →
    ViewSound s task.op.key v) : PhaseSound s task.op (.ready ((view.map (·.source)).getD .nothing)
      (task.op.writeOver (view.map (·.existing)))) := by
  refine ⟨view.map (·.existing), rfl, ?_⟩
  cases view with
  | none => rfl
  | some v => exact hview v rfl

theorem cachedFor_sound (h : EagerInv s) {view : RowView} (hcached : s.cachedFor task = some view) :
    ViewSound s task.op.key view := by
  rcases Option.bind_eq_some_iff.1 hcached with ⟨batch, hbatch, hrow⟩
  rcases Option.bind_eq_some_iff.1 hbatch with ⟨b, -, hb⟩
  rcases Option.ite_none_left_eq_some.1 hrow with ⟨-, hview⟩
  exact h.tasks.batches batch (List.mem_of_getElem? hb) _ view hview

theorem phase_sound (h : EagerInv s) (ht : s.tasks[t]? = some task) :
    PhaseSound s task.op task.phase :=
  h.tasks.phases task (List.mem_of_getElem? ht)

theorem read (h : EagerInv s) (ht : s.tasks[t]? = some task) {answered : Bool}
    (hs : s.stepRead t task answered = some s') : EagerInv s' := by
  have hkeep : ∀ {phase : EagerPhase}, ∀ batch ∈ s.batches, ∀ key view,
      batch.rows key = some view → (∃ old ∈ s.batches, old.rows key = some view) ∨
        ViewSound { s.setPhase t task phase with batches := s.batches } key view :=
    fun batch hbatch key view hview => Or.inl ⟨batch, hbatch, hview⟩
  unfold EagerState.stepRead at hs
  split at hs
  · rename_i hreading
    have hold : task.recorded = none ∧ ∀ source write, task.phase ≠ .persisted source write := by
      simp [EagerTask.recorded, hreading]
    split at hs
    · rename_i view hcached
      obtain rfl := Option.some.inj hs
      refine h.setPhase (.ready _ _) ht hold (by simp) (ready_sound ?_) hkeep fun _ _ hp => hp
      rintro v ⟨⟩
      exact h.cachedFor_sound hcached
    · split at hs
      · obtain rfl := Option.some.inj hs
        exact h.setPhase (.fetched (s.view task.op.key)) ht hold (by simp)
          (h.rows.view h.accept _) hkeep fun _ _ hp => hp
      · -- The read has thrown: the op goes on as if there were no row.
        obtain rfl := Option.some.inj hs
        exact h.setPhase (.ready _ _) ht hold (by simp) (ready_sound (by simp)) hkeep
          fun _ _ hp => hp
  · cases hs

theorem cacheRow (h : EagerInv s) (ht : s.tasks[t]? = some task)
    (hs : s.stepCache t task = some s') : EagerInv s' := by
  unfold EagerState.stepCache at hs
  split at hs
  · rename_i view hfetched
    obtain rfl := Option.some.inj hs
    have hview : ViewSound s task.op.key view := by
      have hsound := h.phase_sound ht
      rw [hfetched] at hsound
      exact hsound
    have hready : PhaseSound s task.op (.ready view.source
        (task.op.writeOver (some view.existing))) := by
      exact ⟨some view.existing, rfl, hview⟩
    refine h.setPhase (.ready view.source (task.op.writeOver (some view.existing))) ht
      (by simp [EagerTask.recorded, hfetched]) (by simp) hready
      (fun batch hbatch key v hrow => ?_) fun _ _ hp => hp
    · rcases rows_setRow hbatch hrow with hold | ⟨rfl, rfl⟩
      · exact Or.inl hold
      · have hgrows : Grows s ((s.setRow task.batch task.op.key v).ready t task (some v)) := by
          refine ⟨fun _ => Or.inl rfl, fun u other write hu hw => ?_⟩
          -- The op that goes on has not been recorded.
          have hut : t ≠ u := by
            rintro rfl
            obtain rfl : task = other := Option.some.inj (ht.symm.trans hu)
            simp [EagerTask.recorded, hfetched] at hw
          exact ⟨other, (List.getElem?_set_ne hut).trans hu, hw⟩
        exact Or.inr (SourceSound.grows hgrows hview)
  · cases hs

theorem refuse (h : EagerInv s) (ht : s.tasks[t]? = some task)
    (hs : s.stepRefuse t task = some s') : EagerInv s' := by
  unfold EagerState.stepRefuse at hs
  split at hs
  · rename_i hready
    obtain rfl := Option.some.inj hs
    exact h.setPhase .rejected ht (by simp [EagerTask.recorded, hready]) (by simp) trivial
      (fun batch hbatch key view hview => Or.inl ⟨batch, hbatch, hview⟩) fun _ _ hp => hp
  · cases hs

end Op

/-! ## An op that is accepted -/

section Accept

variable {s s' : EagerState} {t : Nat} {task : EagerTask} {source : ReadFrom} {write : EagerWrite}

/-- What the batches are told of the op. -/
theorem view_recorded {key : RowKey} {view : RowView} (hself : s'.tasks[t]? = some task)
    (hrecorded : task.recorded = some write)
    (hview : view.source = .recorded t ∧ view.existing.row = write.mergedRow) :
    ViewSound s' key view := by
  rw [ViewSound, hview.1]
  exact ⟨task, write, hself, hrecorded, hview.2⟩

theorem not_accepted (h : EagerInv s) (ht : s.tasks[t]? = some task)
    (hphase : ∀ w, task.phase ≠ .accepted w) : ∀ a ∈ s.accepted, a.task ≠ t := by
  rintro a ha rfl
  rcases h.tasks.accepted a ha with ⟨other, hother, -, haccepted⟩
  obtain rfl : task = other := Option.some.inj (ht.symm.trans hother)
  exact hphase _ haccepted

/-- An op that has not persisted itself is none of those that have. -/
theorem not_direct (h : EagerInv s) (ht : s.tasks[t]? = some task)
    (hphase : ∀ source w, task.phase ≠ .persisted source w) : ∀ d ∈ s.direct, d.task ≠ t := by
  rintro d hd rfl
  rcases h.tasks.persisted d hd with ⟨other, source, hother, -, hpersisted⟩
  obtain rfl : task = other := Option.some.inj (ht.symm.trans hother)
  exact hphase _ _ hpersisted

theorem acceptSound (h : EagerInv s) (ht : s.tasks[t]? = some task)
    (hphase : ∀ w, task.phase ≠ .accepted w) (hwrite : WriteSound s task.op source write)
    (hg : AcceptsInOrder s t task.op source)
    (hs' : s'.accepted = s.accepted ++ [⟨t, task.op, write⟩]) : AcceptSound s' := by
  rcases hwrite with ⟨read, hwrite, hsource⟩
  have hfresh : t ∉ s.accepted.map (·.task) := by
    intro hmem
    rcases List.mem_map.1 hmem with ⟨a, ha, heq⟩
    exact h.not_accepted ht hphase a ha heq
  exact h.accept.accept hs' hfresh hwrite hg.newer hg.fits fun hop =>
    h.tasks.read_eq h.accept hsource (hg.current hop)

theorem taskSound (h : EagerInv s) (ht : s.tasks[t]? = some task)
    (hphase : task.phase = .ready source write ∨ task.phase = .persisted source write)
    (htasks : s'.tasks = s.tasks.set t { task with phase := .accepted write })
    (haccepted : s'.accepted = s.accepted ++ [⟨t, task.op, write⟩])
    (hdirect : s'.direct = s.direct.filter fun entry => entry.task ≠ t)
    (hbatches : ∀ batch ∈ s'.batches, ∀ key view, batch.rows key = some view →
      (∃ old ∈ s.batches, old.rows key = some view) ∨
        (view.source = .recorded t ∧ view.existing.row = write.mergedRow)) : TaskSound s' := by
  have hnot : ∀ a ∈ s.accepted, a.task ≠ t :=
    h.not_accepted ht (by rcases hphase with hp | hp <;> simp [hp])
  refine h.tasks.change (.accepted write) ht htasks (fun key => ?_) (fun a ha => ?_)
    (fun d hd hne => ?_) (by simp) (fun d hd => ?_) (fun w hw => ?_) trivial
    fun batch hbatch key view hview => ?_
  · rw [haccepted, ofKey_append]
    by_cases hkey : task.op.key = key
    · subst hkey
      refine Or.inr ?_
      have hone : ofKey [(⟨t, task.op, write⟩ : EagerEntry)] task.op.key = [⟨t, task.op, write⟩] :=
        ofKey_singleton_self
      simp [hone]
    · rw [ofKey_singleton_of_ne hkey, List.append_nil]
      exact Or.inl rfl
  · rw [haccepted] at ha
    rcases List.mem_append.1 ha with hold | hnew
    · exact Or.inl ⟨hold, hnot a hold⟩
    · rw [List.mem_singleton.1 hnew]
      exact Or.inr ⟨rfl, rfl, rfl⟩
  · rw [hdirect]
    exact List.mem_filter.2 ⟨hd, decide_eq_true hne⟩
  · rw [hdirect] at hd
    exact Or.inl ((List.mem_filter.1 hd).imp id of_decide_eq_true)
  · rcases hphase with hp | hp
    · simp [EagerTask.recorded, hp] at hw
    · rw [EagerTask.recorded, hp] at hw
      rcases Option.ite_none_left_eq_some.1 hw with ⟨-, hw⟩
      exact hw
  · refine (hbatches batch hbatch key view hview).imp id fun hrow => ?_
    have hself : s'.tasks[t]? = some { task with phase := .accepted write } := by
      rw [htasks]
      exact List.getElem?_set_self (List.getElem?_eq_some_iff.1 ht).1
    exact view_recorded hself rfl hrow

theorem getElem?_withBuffer {table name : String} {p : Nat} (hp : s.queryNames[p]? = some name) :
    (s.withBuffer table).queryNames[p]? = some name := by
  unfold EagerState.withBuffer
  dsimp only
  split
  · exact hp
  · rw [List.getElem?_append_left (List.getElem?_eq_some_iff.1 hp).1]
    exact hp

theorem mem_withBuffer (table : String) : table ∈ (s.withBuffer table).queryNames := by
  unfold EagerState.withBuffer
  dsimp only
  split
  · assumption
  · simp

/-- A buffered op is accepted. -/
theorem push (h : EagerInv s) (ht : s.tasks[t]? = some task)
    (hphase : task.phase = .ready source write) (hg : AcceptsInOrder s t task.op source) :
    EagerInv (((((s.withBuffer task.op.key.1).push ⟨t, task.op, write⟩).recordWrite t task
      write).accept t task write)) := by
  let s' := ((((s.withBuffer task.op.key.1).push ⟨t, task.op, write⟩).recordWrite t task
    write).accept t task write)
  have hwrite : WriteSound s task.op source write := by
    have hsound := h.phase_sound ht
    rw [hphase] at hsound
    exact hsound
  have hnone : ∀ d ∈ s.direct, d.task ≠ t := h.not_direct ht (by simp [hphase])
  have hdirect : s'.direct = s.direct :=
    List.filter_eq_self.2 fun d hd => decide_eq_true (hnone d hd)
  have hbatches : ∀ batch ∈ s'.batches, ∀ key view, batch.rows key = some view →
      (∃ old ∈ s.batches, old.rows key = some view) ∨
        (view.source = .recorded t ∧ view.existing.row = write.mergedRow) :=
    fun batch hbatch key view hview => (rows_recordWrite
      (s := (s.withBuffer task.op.key.1).push ⟨t, task.op, write⟩) hbatch hview).imp id And.right
  refine ⟨h.acceptSound ht (by simp [hphase]) hwrite hg rfl,
    h.taskSound ht (Or.inl hphase) rfl rfl rfl hbatches, ?_, ?_⟩
  · refine h.rows.push (e := ⟨t, task.op, write⟩) rfl rfl rfl rfl (fun key => ?_) rfl
      (fun p table hp => getElem?_withBuffer hp) (mem_withBuffer _) ?_
    · exact congrArg (ofKey · key) hdirect
    · refine ofKey_eq_nil fun d hd hkey => hnone d hd ?_
      exact hg.alone d (mem_ofKey.2 ⟨hd, hkey⟩)
  · change FlushSound s'
    refine h.flush.grows rfl (fun e he => he) (fun p table hp => getElem?_withBuffer hp)
      (fun table e he => ?_) rfl rfl fun u hu => ?_
    · change e ∈ Function.update s.buffers task.op.key.1 _ table
      by_cases heq : table = task.op.key.1
      · subst heq
        rw [Function.update_self]
        exact List.mem_append_left _ he
      · rw [Function.update_of_ne heq]
        exact he
    · rcases List.mem_append.1 hu with hold | hnew
      · exact Or.inl hold
      · rcases List.mem_iff_getElem?.1 (mem_withBuffer (s := s) task.op.key.1) with ⟨p, hp⟩
        refine Or.inr ⟨p, task.op.key.1, hp, ⟨t, task.op, write⟩, ?_,
          (List.mem_singleton.1 hnew).symm⟩
        change _ ∈ Function.update s.buffers task.op.key.1 _ task.op.key.1
        rw [Function.update_self]
        exact List.mem_append_right _ (List.mem_singleton_self _)

/-- An op that has persisted itself is accepted. -/
theorem acceptPersisted (h : EagerInv s) (ht : s.tasks[t]? = some task)
    (hphase : task.phase = .persisted source write) (hg : AcceptsInOrder s t task.op source)
    {batches : List EagerBatch}
    (hbatches : ∀ batch ∈ batches, ∀ key view, batch.rows key = some view →
      (∃ old ∈ s.batches, old.rows key = some view) ∨
        (view.source = .recorded t ∧ view.existing.row = write.mergedRow)) :
    EagerInv { s.accept t task write with batches := batches } := by
  have hwrite : WriteSound s task.op source write := by
    have hsound := h.phase_sound ht
    rw [hphase] at hsound
    exact hsound
  have hin : ⟨t, task.op, write⟩ ∈ s.direct := h.tasks.direct t task source write ht hphase
  refine ⟨h.acceptSound ht (by simp [hphase]) hwrite hg rfl,
    h.taskSound ht (Or.inr hphase) rfl rfl rfl hbatches, ?_, ?_⟩
  · refine h.rows.acceptDirect hin rfl rfl rfl rfl (ofKey_eq_nil fun d hd hkey => ?_)
      (fun key hkey => ?_) rfl rfl
    · -- The row's only op that has persisted itself is this one.
      rcases List.mem_filter.1 hd with ⟨hold, hne⟩
      exact of_decide_eq_true hne (hg.alone d (mem_ofKey.2 ⟨hold, hkey⟩))
    · change ofKey (s.direct.filter fun entry => entry.task ≠ t) key = ofKey s.direct key
      rw [ofKey, ofKey, List.filter_filter]
      refine List.filter_congr fun d hd => ?_
      by_cases hdt : d.task = t
      · rcases h.tasks.persisted d hd with ⟨other, -, hother, hop, -⟩
        rw [hdt] at hother
        obtain rfl : task = other := Option.some.inj (ht.symm.trans hother)
        have hne : d.op.key ≠ key := hop ▸ hkey
        simp [hne]
      · simp [hdt]
  · exact h.flush.grows rfl (fun e he => he) (fun _ _ hp => hp) (fun _ _ he => he) rfl rfl
      fun u hu => Or.inl hu

end Accept

/-! ## The persisting of an op -/

section Persist

variable {s s' : EagerState} {t : Nat} {task : EagerTask} {maxBufferSize : String → Nat}

theorem persist (h : EagerInv s) (ht : s.tasks[t]? = some task)
    (hg : EagerInOrder maxBufferSize s (.persist t))
    (hs : s.stepPersist maxBufferSize t task = some s') : EagerInv s' := by
  unfold EagerState.stepPersist at hs
  split at hs
  · rename_i source write hready
    have hold : task.recorded = none ∧ ∀ source write, task.phase ≠ .persisted source write := by
      simp [EagerTask.recorded, hready]
    have hwrite : WriteSound s task.op source write := by
      have hsound := h.phase_sound ht
      rw [hready] at hsound
      exact hsound
    simp only at hs
    split at hs
    · obtain rfl := Option.some.inj hs
      exact h.setPhase (.persisting source write) ht hold (by simp) hwrite
        (fun batch hbatch key view hview => Or.inl ⟨batch, hbatch, hview⟩) fun _ _ hp => hp
    · rename_i hdurable
      split at hs
      · rename_i hroom
        obtain rfl := Option.some.inj hs
        have haccepts : AcceptsInOrder s t task.op source := by
          simp only [EagerInOrder, ht, hready] at hg
          exact (hg.resolve_left hdurable).resolve_left (not_le.2 hroom)
        exact h.push ht hready haccepts
      · -- The buffer is full: the batches are told of a write that is not persisted yet.
        obtain rfl := Option.some.inj hs
        refine h.setPhase (.persisting source write) ht hold (by simp) hwrite
          (fun batch hbatch key view hview => ?_) fun p table hp => getElem?_withBuffer hp
        rcases rows_recordWrite (s := s.withBuffer task.op.key.1) hbatch hview with hrow | ⟨-, hrow⟩
        · exact Or.inl hrow
        · have hlt : t < s.tasks.length := (List.getElem?_eq_some_iff.1 ht).1
          have hself : (s.setPhase t task (.persisting source write)).tasks[t]? =
              some { task with phase := .persisting source write } := List.getElem?_set_self hlt
          refine Or.inr (view_recorded hself ?_ hrow)
          simp [EagerTask.recorded, hdurable]
  · cases hs

/-- An op's own call takes effect. -/
theorem apply (h : EagerInv s) (ht : s.tasks[t]? = some task)
    (hg : EagerInOrder maxBufferSize s (.apply t)) (hs : s.stepApply t task = some s') :
    EagerInv s' := by
  unfold EagerState.stepApply at hs
  split at hs
  · rename_i source write hpersisting
    obtain rfl := Option.some.inj hs
    have hsettled : s.settled task.op.key = true := by
      simp only [EagerInOrder, ht] at hg
      exact hg
    have hwrite : WriteSound s task.op source write := by
      have hsound := h.phase_sound ht
      rw [hpersisting] at hsound
      exact hsound
    have hnot : ∀ a ∈ s.accepted, a.task ≠ t := h.not_accepted ht (by simp [hpersisting])
    refine ⟨⟨h.accept.fold, h.accept.nodup, h.accept.computed, h.accept.subscriber⟩, ?_, ?_, ?_⟩
    · refine h.tasks.change (.persisted source write) ht rfl (fun _ => Or.inl rfl)
        (fun a ha => Or.inl ⟨ha, hnot a ha⟩) (fun d hd _ => List.mem_append_left _ hd) ?_ ?_ ?_
        hwrite fun batch hbatch key view hview => Or.inl ⟨batch, hbatch, hview⟩
      · rintro source' write' ⟨⟩
        exact List.mem_append_right _ (List.mem_singleton_self _)
      · intro d hd
        rcases List.mem_append.1 hd with hmem | hnew
        · exact Or.inl ⟨hmem, h.not_direct ht (by simp [hpersisting]) d hmem⟩
        · rw [List.mem_singleton.1 hnew]
          exact Or.inr ⟨rfl, rfl, source, rfl⟩
      · intro w hw
        rw [EagerTask.recorded, hpersisting] at hw
        exact hw
    · exact h.rows.writeDirect (e := ⟨t, task.op, write⟩) hsettled rfl rfl rfl rfl rfl rfl rfl
    · exact h.flush.grows rfl (fun e he => List.mem_append_left _ he) (fun _ _ hp => hp)
        (fun _ _ he => he) rfl rfl fun u hu => Or.inl hu
  · cases hs

/-- An op's own call is answered. -/
theorem settleOp (h : EagerInv s) (ht : s.tasks[t]? = some task) {answered : Bool}
    (hg : EagerInOrder maxBufferSize s (.settleOp t answered))
    (hs : s.stepSettle t task answered = some s') : EagerInv s' := by
  unfold EagerState.stepSettle at hs
  split at hs
  · rename_i source write hpersisting
    simp only [EagerInOrder, ht, hpersisting] at hg
    rcases Option.ite_none_left_eq_some.1 hs with ⟨-, hs⟩
    rw [if_pos hg] at hs
    obtain rfl := Option.some.inj hs
    exact h.setPhase .threw ht (by simp [EagerTask.recorded, hpersisting, hg]) (by simp) trivial
      (fun batch hbatch key view hview => Or.inl ⟨batch, hbatch, hview⟩) fun _ _ hp => hp
  · rename_i source write hpersisted
    simp only [EagerInOrder, ht, hpersisted] at hg
    rcases hg with ⟨hanswered, haccepts⟩
    split at hs
    · rename_i hdurable
      rw [if_pos (hanswered hdurable)] at hs
      obtain rfl := Option.some.inj hs
      exact h.acceptPersisted ht hpersisted haccepts fun batch hbatch key view hview =>
        (rows_recordWrite hbatch hview).imp id And.right
    · obtain rfl := Option.some.inj hs
      exact h.acceptPersisted ht hpersisted haccepts fun batch hbatch key view hview =>
        Or.inl ⟨batch, hbatch, hview⟩
  · cases hs

end Persist

/-! ## A flush -/

section Flush

variable {s s' : EagerState} {maxBufferSize : String → Nat}

/-- Nothing but the flush, the buffers and the storage. -/
theorem flushing (h : EagerInv s) (htasks : s'.tasks = s.tasks) (hbatches : s'.batches = s.batches)
    (haccepted : s'.accepted = s.accepted) (hdirect : s'.direct = s.direct)
    (hrows : RowsSound s') (hflush : FlushSound s') : EagerInv s' := by
  refine ⟨?_, ?_, hrows, hflush⟩
  · refine ⟨?_, ?_, ?_, ?_⟩
    · rw [haccepted]
      exact h.accept.fold
    · rw [haccepted]
      exact h.accept.nodup
    · rw [haccepted]
      exact h.accept.computed
    · unfold EagerState.deltas
      rw [haccepted]
      exact h.accept.subscriber
  · refine h.tasks.of_eq htasks haccepted hdirect fun batch hbatch key view hview => ?_
    exact Or.inl ⟨batch, hbatches ▸ hbatch, hview⟩

theorem startFlush (h : EagerInv s) (hg : EagerInOrder maxBufferSize s .flush) :
    EagerInv s.stepFlush := by
  have hflush : FlushSound s.stepFlush := by
    refine h.flush.flush fun run hrun => ?_
    simp only [EagerInOrder, hrun] at hg
    exact hg
  cases hrun : s.run with
  | none =>
      have hrows : RowsSound { s with
          run := some ⟨0, none, false⟩, calls := s.calls ++ [⟨s.pushed, none⟩] } :=
        h.rows.setRun hrun rfl rfl
      rw [stepFlush_of_none hrun] at hflush ⊢
      exact h.flushing rfl rfl rfl rfl hrows hflush
  | some run =>
      rw [stepFlush_of_some hrun] at hflush ⊢
      exact h.flushing rfl rfl rfl rfl
        ⟨h.rows.rows, h.rows.log, h.rows.buffers, h.rows.items⟩ hflush

theorem drain (h : EagerInv s) (hs : s.stepDrain = some s') : EagerInv s' := by
  unfold EagerState.stepDrain at hs
  split at hs
  · rename_i place hrun
    have hmoves : ∀ {run' : FlushRun}, run'.items = none → (∀ (p : Nat) (table : String),
        s.queryNames[p]? = some table → s.buffers table ≠ [] →
          ¬ FlushRun.past ⟨place, none, false⟩ p → ¬ run'.past p) → EagerInv (s.setRun run') := by
      intro run' hitems hpast
      exact h.flushing rfl rfl rfl rfl (h.rows.setRun hrun rfl (by simp [hitems]))
        (h.flush.advance hrun rfl hpast)
    split at hs
    · rename_i hend
      obtain rfl := Option.some.inj hs
      -- There is no buffer from its place on.
      refine hmoves rfl fun p table hp hne hnot => ?_
      simp only [FlushRun.past_mk] at hnot
      have hlen := List.getElem?_eq_none_iff.1 hend
      have hlt := (List.getElem?_eq_some_iff.1 hp).1
      exact absurd (Or.inl (lt_of_lt_of_le hlt hlen)) hnot
    · rename_i table htable
      split at hs
      · rename_i hempty
        obtain rfl := Option.some.inj hs
        refine hmoves rfl fun p other hp hne hnot => ?_
        have hplace : p ≠ place := by
          rintro rfl
          obtain rfl := Option.some.inj (htable.symm.trans hp)
          exact hne hempty
        simp only [FlushRun.past_mk, Option.isSome_none] at hnot ⊢
        push Not at hnot ⊢
        exact ⟨by omega, by simp, by simp⟩
      · obtain rfl := Option.some.inj hs
        exact h.flushing rfl rfl rfl rfl (h.rows.drain hrun htable) (h.flush.drain hrun htable)
  · cases hs

theorem item (h : EagerInv s) {i : Nat} {status : CallStatus} {written : Bool}
    (hg : written = true → ∀ run items, s.run = some run → run.items = some items →
      ∀ item ∈ items[i]?, ∀ earlier ∈ items.take i,
        earlier.entry.op.key = item.entry.op.key → earlier.status = .succeeded)
    (hstatus : status = .succeeded → written = true)
    (hs : s.stepItem i status written = some s') : EagerInv s' := by
  unfold EagerState.stepItem at hs
  split at hs
  · rename_i place items ended hrun
    split at hs
    · rename_i entry hitem
      obtain rfl := Option.some.inj hs
      rcases exists_middle hitem with ⟨later, hitems, hset⟩
      have hfirst : written = true → ∀ earlier ∈ items.take i,
          earlier.entry.op.key = entry.op.key → earlier.status = .succeeded :=
        fun hw => hg hw _ items hrun rfl _ hitem
      have hrun' := hrun
      rw [hitems] at hrun'
      rw [hset]
      have hrows := h.rows.item hrun' hfirst hstatus
      have hflush : FlushSound ((if written then s.write entry else s).setRun
          ⟨place, some (items.take i ++ ⟨entry, status⟩ :: later), ended⟩) :=
        h.flush.item hrun'
      cases written <;> exact h.flushing rfl rfl rfl rfl hrows hflush
    · cases hs
  · cases hs

theorem settle (h : EagerInv s) (hs : s.stepSettleAll = some s') : EagerInv s' := by
  unfold EagerState.stepSettleAll at hs
  split at hs
  · rename_i place items ended hrun
    rcases Option.ite_none_right_eq_some.1 hs with ⟨hall, hs⟩
    simp only at hs
    split at hs
    · rename_i table htable
      obtain rfl := Option.some.inj hs
      have hended : ∀ item ∈ items, item.status ≠ .calling := fun item hitem => by
        simpa using List.all_eq_true.1 hall item hitem
      have hwritten : ∀ item ∈ items, item.status = .succeeded → item.entry ∈ s.written := by
        rcases h.rows.items _ items hrun rfl with ⟨table, -, hitems⟩
        exact fun item hitem => (hitems item hitem).2
      exact h.flushing rfl rfl rfl rfl (h.rows.settle hrun htable hended)
        (h.flush.settle hrun htable hended rfl hwritten)
    · cases hs
  · cases hs

theorem endFlush (h : EagerInv s) (hs : s.stepEndFlush = some s') : EagerInv s' := by
  unfold EagerState.stepEndFlush at hs
  split at hs
  · rename_i place hrun
    obtain rfl := Option.some.inj hs
    exact h.flushing rfl rfl rfl rfl (h.rows.setRun hrun rfl rfl) (h.flush.endFlush hrun)
  · cases hs

end Flush

theorem step {s s' : EagerState} {e : EagerEvent} {maxBufferSize : String → Nat} (h : EagerInv s)
    (hg : EagerInOrder maxBufferSize s e) (hs : s.step maxBufferSize e = some s') :
    EagerInv s' := by
  cases e with
  | startBatch =>
      obtain rfl := Option.some.inj hs
      exact h.startBatch
  | finishBatch b =>
      rcases Option.ite_none_right_eq_some.1 hs with ⟨-, hs⟩
      obtain rfl := Option.some.inj hs
      exact h.finishBatch b
  | prefetch b key =>
      rcases Option.ite_none_right_eq_some.1 hs with ⟨-, hs⟩
      obtain rfl := Option.some.inj hs
      exact h.prefetch b key
  | startOp op durable batch => exact h.startOp hs
  | read t answered =>
      rcases Option.bind_eq_some_iff.1 hs with ⟨task, ht, hs⟩
      exact h.read ht hs
  | cacheRow t =>
      rcases Option.bind_eq_some_iff.1 hs with ⟨task, ht, hs⟩
      exact h.cacheRow ht hs
  | refuse t =>
      rcases Option.bind_eq_some_iff.1 hs with ⟨task, ht, hs⟩
      exact h.refuse ht hs
  | persist t =>
      rcases Option.bind_eq_some_iff.1 hs with ⟨task, ht, hs⟩
      exact h.persist ht hg hs
  | apply t =>
      rcases Option.bind_eq_some_iff.1 hs with ⟨task, ht, hs⟩
      exact h.apply ht hg hs
  | settleOp t answered =>
      rcases Option.bind_eq_some_iff.1 hs with ⟨task, ht, hs⟩
      exact h.settleOp ht hg hs
  | flush =>
      obtain rfl := Option.some.inj hs
      exact h.startFlush hg
  | drain => exact h.drain hs
  | applyItem i answered =>
      refine h.item (fun _ run items hrun hitems => ?_) (fun _ => rfl) hs
      simp only [EagerInOrder, hrun, Option.bind_some, hitems] at hg
      exact hg
  | failItem i => exact h.item (by simp) (by simp) hs
  | settle => exact h.settle hs
  | endFlush => exact h.endFlush hs

theorem eagerSound {s : EagerState} (h : EagerInv s) : EagerSound s where
  flushed key hsettled := by
    rw [h.rows.rows key, map_row_stored, h.rows.getLast?_written hsettled, h.accept.fold key]
  delivered pk table rowId := (h.accept.subscriber pk table rowId).data
  computed := h.accept.computed
  newest key last hlast w hw := by
    have hnodup : ((ofKey s.accepted key).map (·.task)).Nodup :=
      h.accept.nodup.sublist (List.filter_sublist.map _)
    refine (h.rows.log key).newest (·.task) hnodup (fun d hd hmem => ?_) hlast hw
    rcases List.mem_map.1 hmem with ⟨a, ha, heq⟩
    rcases h.tasks.accepted a (mem_ofKey.1 ha).1 with ⟨task, htask, -, haccepted⟩
    rcases h.tasks.persisted d (mem_ofKey.1 hd).1 with ⟨other, source, hother, -, hpersisted⟩
    rw [heq, hother] at htask
    obtain rfl := Option.some.inj htask
    rw [haccepted] at hpersisted
    cases hpersisted
  answered := h.flush.answered

end EagerInv

/-- An insert of one column into a row and an update of one, in a message each or in one. -/
def insertEvent (column : String) : EagerEvent :=
  .startOp ⟨("todos", "r"), .insert, some (AList.singleton column (.num 1)), "1"⟩ false (some 0)

def updateEvent (column : String) (batch : Nat) : EagerEvent :=
  .startOp ⟨("todos", "r"), .update, some (AList.singleton column (.num 2)), "2"⟩ false (some batch)

/-- A flush whose calls end so. -/
def flushEvents (calls : List EagerEvent) : List EagerEvent :=
  [.flush, .drain] ++ calls ++ [.settle, .drain, .endFlush]

end Server
end Reflectdb
