import Reflectdb.ObjectStorage.Fleet.Garbage

/-!
# Rows — what memory, snapshots and boots hold of the rows

Without limits nothing is refused, so that memory has, row by row, what the last of the records that
it reflects has written, through boots, writes, compactions and refreshes; a snapshot has the same
rows as the memory that it was taken of.
-/

namespace Reflectdb
namespace ObjectStorage
namespace Fleet

open Core Client Lib

variable {ι : Type} {cfg : Config ι} {i j : ι} {st st' : Store ι} {n n' : Instance}

/-- What the records leave of a row. -/
def rowsOf (log : List Entry) (key : RowKey) : Option Server.StoredRow :=
  (written (log.map (·.record)) key).getD none

/-- Memory has the rows that the records leave, and refuses nothing. -/
structure Mirrors (held : Held) (log : List Entry) : Prop where
  unlimited : held.Unlimited
  rows : ∀ key, held.room.storedRow key = rowsOf log key

/-- A snapshot has the rows that the records leave. -/
def Portrays (record : SnapshotRecord) (log : List Entry) : Prop :=
  ∀ key, (written (record.rows.map fun row => .row row.mutation) key).getD none = rowsOf log key

/-! ## Calls that throw nothing -/

section Calls

variable (sizes : JsonSizes) {held : Held} {log : List Entry}

theorem Mirrors.of_effect (h : Mirrors held log) {lines : List Entry}
    {rows : RowKey → Option (Option Server.StoredRow)} {stamps : String → Option Nat} {held' : Held}
    (he : Effect rows stamps held held')
    (hrows : ∀ key, rows key = written (lines.map (·.record)) key) :
        Mirrors held' (log ++ lines) := by
  refine ⟨he.unlimited h.unlimited, fun key => ?_⟩
  rw [he.rows, h.rows, hrows, rowsOf, rowsOf, List.map_append, written_append]
  cases written (lines.map (·.record)) key <;> rfl

/-- Memory changes in what is no row. -/
theorem Mirrors.of_rows (h : Mirrors held log) {held' : Held}
    (hunlimited : held.Unlimited → held'.Unlimited) (hrows : held'.room.rows = held.room.rows) :
    Mirrors held' log := by
  refine ⟨hunlimited h.unlimited, fun key => ?_⟩
  rw [RoomState.storedRow, hrows]
  exact h.rows key

theorem Mirrors.withMeta (h : Mirrors held log) (pairs : Record String) :
    Mirrors (held.withMeta pairs) log :=
  h.of_rows (fun hu => ⟨hu.room, hu.process⟩) rfl

/-- An expired reservation is passed over. -/
theorem applyRecord_run (hu : held.Unlimited) (record : WalRecord) (now : Nat) :
    ∃ held' stamps, (applyRecord sizes record now).run held = .ok () held' ∧
      Effect (written [record]) stamps held held' := by
  have hkept : (∀ opIds stamp, record = .reserve opIds stamp → expired now stamp = false) →
      ∃ held' stamps, (applyRecord sizes record now).run held = .ok () held' ∧
        Effect (written [record]) stamps held held' := by
    intro hkept
    obtain ⟨held', hrun, he⟩ := applyRecord_effect sizes hu hkept
    exact ⟨held', _, hrun, he⟩
  cases record with
  | reserve opIds stamp =>
      cases hexpired : expired now stamp with
      | true =>
          refine ⟨held, fun _ => none, ?_, Effect.refl held⟩
          simp [applyRecord, restoreReservations, hexpired]
      | false => exact hkept (by simp [hexpired])
  | _ => exact hkept fun _ _ heq => by cases heq

theorem Mirrors.applyLines (h : Mirrors held log) (lines : List Entry) (now : Nat) :
    ∃ held', (Fleet.applyLines sizes lines now).run held = .ok () held' ∧
      Mirrors held' (log ++ lines) := by
  induction lines generalizing held log with
  | nil =>
      rw [List.append_nil]
      exact ⟨held, rfl, h⟩
  | cons line lines ih =>
      obtain ⟨held₁, stamps, hfirst, he⟩ := applyRecord_run sizes h.unlimited line.record now
      have hone : Mirrors held₁ (log ++ [line]) := h.of_effect he fun key => rfl
      obtain ⟨held', hrest, hmirrors⟩ := ih hone
      refine ⟨held', ?_, by simpa using hmirrors⟩
      rw [Fleet.applyLines, List.map_cons, applyRecords, EStateM.run_bind, hfirst]
      exact hrest

theorem Mirrors.mutation (h : Mirrors held log) (entry : Entry) (now : Nat) :
    ∃ held', (Fleet.mutation sizes entry.record now).run held = .ok () held' ∧
      Mirrors held' (log ++ [entry]) := by
  obtain ⟨held', stamps, hrun, he⟩ := applyRecord_run sizes h.unlimited entry.record now
  refine ⟨held', ?_, h.of_effect he fun key => rfl⟩
  rw [← hrun]
  cases entry.record with
  | apply m op =>
      rw [Fleet.mutation, EStateM.run_bind, assertCanAdmitApply_run, h.unlimited.refused]
      rfl
  | _ => rfl

theorem Held.Unlimited.swept (hu : held.Unlimited) (now : Nat) : (held.swept now).Unlimited := by
  unfold Held.swept
  split
  · exact hu
  · exact ⟨hu.room, hu.process⟩

theorem swept_rows (now : Nat) : (held.swept now).room.rows = held.room.rows := by
  unfold Held.swept
  split <;> rfl

theorem reserveEach_rows (now : Nat) (opIds : List String) : ∀ {held : Held}, held.Unlimited →
    ∃ fresh held', (reserveEach now opIds).run held = .ok fresh held' ∧ held'.Unlimited ∧
      held'.room.rows = held.room.rows := by
  induction opIds with
  | nil => exact fun {held} hu => ⟨[], held, rfl, hu, rfl⟩
  | cons opId opIds ih =>
      intro held hu
      by_cases hold : opId ∈ held.room.reserved
      · obtain ⟨fresh, held', hrun, hrest⟩ := ih hu
        exact ⟨fresh, held', (reserveEach_run_of_mem hold now opIds).trans hrun, hrest⟩
      · have hu' : (held.admitted opId now).Unlimited := ⟨hu.room, hu.process⟩
        obtain ⟨fresh, held', hrun, hrest⟩ := ih hu'
        exact ⟨_, held', reserveEach_run_of_fits hold (hu.refused _) hrun, hrest⟩

theorem Mirrors.reserveOps (h : Mirrors held log) (opIds : List String) (sweptAt now : Nat) :
    ∃ fresh held', (ObjectStorage.reserveOps opIds sweptAt now).run held = .ok fresh held' ∧
      Mirrors held' log := by
  by_cases hnone : opIds = []
  · exact ⟨[], held, by simp [ObjectStorage.reserveOps, hnone], h⟩
  · obtain ⟨fresh, held', hrun, hu, hrows⟩ :=
      reserveEach_rows now opIds (Held.Unlimited.swept h.unlimited sweptAt)
    refine ⟨fresh, held', ?_, h.of_rows (fun _ => hu) (hrows.trans (swept_rows sweptAt))⟩
    rw [ObjectStorage.reserveOps, if_neg hnone, EStateM.run_bind, sweepReservedOps_run]
    exact hrun

/-- A snapshot brings back its rows, whatever memory held before. -/
theorem loadSnapshot_rows (hu : held.Unlimited) (record : SnapshotRecord) (now : Nat) :
    ∃ held', (loadSnapshot sizes record now).run held = .ok () held' ∧ held'.Unlimited ∧
      ∀ key, held'.room.storedRow key =
        (written (record.rows.map fun row => .row row.mutation) key).getD none := by
  have hcleared : held.cleared.Unlimited := ⟨hu.room, hu.process⟩
  obtain ⟨held₁, hrows, he⟩ := @putRows_effect sizes record.rows held.cleared hcleared
  obtain ⟨held₂, hadm, hu₂, hsame, -⟩ :=
    @admitEach_replay (record.kept now) held₁ (he.unlimited hcleared)
  have hstored : ∀ key, held₂.room.storedRow key =
      (written (record.rows.map fun row => .row row.mutation) key).getD none := by
    intro key
    rw [RoomState.storedRow, hsame]
    exact he.rows key
  rw [loadSnapshot, EStateM.run_bind, reset_run]
  simp only
  rw [EStateM.run_bind, hrows]
  simp only
  rw [EStateM.run_bind, hadm]
  cases record.hlc with
  | none => exact ⟨held₂, rfl, hu₂, hstored⟩
  | some hlc =>
      by_cases hempty : hlc = ""
      · exact ⟨held₂, by simp [hempty], hu₂, hstored⟩
      · exact ⟨held₂.onRoom (·.noteHlc hlc), by simp [hempty, noteHlc],
          ⟨hu₂.room, hu₂.process⟩, hstored⟩

theorem Portrays.loadSnapshot {record : SnapshotRecord} (h : Portrays record log)
    (hu : held.Unlimited) (now : Nat) :
    ∃ held', (ObjectStorage.loadSnapshot sizes record now).run held = .ok () held' ∧
      Mirrors held' log := by
  obtain ⟨held', hrun, hu', hstored⟩ := loadSnapshot_rows sizes hu record now
  exact ⟨held', hrun, hu', fun key => (hstored key).trans (h key)⟩

theorem Mirrors.toSnapshot (h : Mirrors held log) (now : Nat) :
    Portrays (held.room.toSnapshot now) log := by
  intro key
  have hrows : (held.room.toSnapshot now).rows =
      held.room.rows.entries.map RoomState.snapshotRow := rfl
  rw [hrows, written_snapshot, ← h.rows]
  cases held.room.storedRow key <;> rfl

theorem Mirrors.reset (h : Mirrors held log) : Mirrors held.cleared [] :=
  ⟨⟨h.unlimited.room, h.unlimited.process⟩, fun _ => rfl⟩

end Calls

/-! ## The steps -/

/-- Every stored snapshot has the rows of the records that it was taken of. -/
def SnapshotsOk (st : Store ι) : Prop :=
  ∀ key record log, st.objects key = some (.snapshot record log) → Portrays record log

structure RowsOk (n : Instance) : Prop where
  memory : Mirrors n.room.held n.room.log
  snapshot : ∀ key record log, n.loop.task = .snapshot key record log → Portrays record log

theorem SnapshotsOk.portrays (h : SnapshotsOk st) {key : ObjectKey} {record : SnapshotRecord}
    {log : List Entry} (hsnap : snapshotOf st.objects key = some (record, log)) :
    Portrays record log := by
  refine h key record log ?_
  unfold snapshotOf at hsnap
  split at hsnap
  · rename_i hobject
    cases hsnap
    exact hobject
  · cases hsnap

theorem RowsOk.keep (h : RowsOk n) (hheld : n'.room.held = n.room.held)
    (hlog : n'.room.log = n.room.log)
    (htask : ∀ key record log, n'.loop.task = .snapshot key record log →
      n.loop.task = .snapshot key record log) : RowsOk n' := by
  refine ⟨?_, fun key record log ht => h.snapshot key record log (htask key record log ht)⟩
  rw [hheld, hlog]
  exact h.memory

/-- A step of the memory. -/
theorem RowsOk.of_memory (h : RowsOk n) (hmemory : Mirrors n'.room.held n'.room.log)
    (htask : n'.loop.task = n.loop.task) : RowsOk n' := by
  refine ⟨hmemory, ?_⟩
  rw [htask]
  exact h.snapshot

theorem RowsOk.of_room {a : RoomAct} (hst : SnapshotsOk st) (h : RowsOk n)
    (hs : RoomStep cfg st n a st' n') : st'.objects = st.objects ∧ RowsOk n' := by
  cases hs with
  | load => exact ⟨rfl, h.of_memory (h.memory.withMeta _) rfl⟩
  | snapshot now key record log held hboot hkey hsnap hrun =>
      obtain ⟨held', hrun', hmirrors⟩ :=
        (hst.portrays hsnap).loadSnapshot cfg.sizes h.memory.unlimited now
      cases hrun.symm.trans hrun'
      exact ⟨rfl, h.of_memory hmirrors rfl⟩
  | snapshotThrew now record error held hboot hrun =>
      obtain ⟨held', hrun', -⟩ := loadSnapshot_rows cfg.sizes h.memory.unlimited record now
      cases hrun.symm.trans hrun'
  | segment now key todo lines held hboot hlines hrun =>
      obtain ⟨held', hrun', hmirrors⟩ := h.memory.applyLines cfg.sizes lines now
      cases hrun.symm.trans hrun'
      exact ⟨rfl, h.of_memory hmirrors rfl⟩
  | segmentThrew now key todo lines error held hboot hrun =>
      obtain ⟨held', hrun', -⟩ := h.memory.applyLines cfg.sizes lines now
      cases hrun.symm.trans hrun'
  | append record now held hboot hclosed hwritable hrun =>
      obtain ⟨held', hrun', hmirrors⟩ := h.memory.mutation cfg.sizes ⟨st.serial, record⟩ now
      cases hrun.symm.trans hrun'
      exact ⟨rfl, h.of_memory hmirrors rfl⟩
  | appendThrew record now error held hboot hrun =>
      obtain ⟨held', hrun', -⟩ := h.memory.mutation cfg.sizes ⟨st.serial, record⟩ now
      cases hrun.symm.trans hrun'
  | reserve opIds sweptAt now stamp fresh held hboot hwritable hrun =>
      obtain ⟨fresh', held', hrun', hmirrors⟩ := h.memory.reserveOps opIds sweptAt now
      cases hrun.symm.trans hrun'
      -- the record of the reservation writes no row
      exact ⟨rfl, h.of_memory (hmirrors.of_effect (Effect.refl _) fun key => rfl) rfl⟩
  | reserveOnly opIds sweptAt now stamp fresh held hboot hrun =>
      obtain ⟨fresh', held', hrun', hmirrors⟩ := h.memory.reserveOps opIds sweptAt now
      cases hrun.symm.trans hrun'
      exact ⟨rfl, h.of_memory hmirrors rfl⟩
  | reserveThrew opIds sweptAt now stamp error held hboot hrun =>
      obtain ⟨fresh', held', hrun', -⟩ := h.memory.reserveOps opIds sweptAt now
      cases hrun.symm.trans hrun'
  | dispose held hstopped hrun =>
      cases (reset_run _).symm.trans hrun
      exact ⟨rfl, h.of_memory h.memory.reset rfl⟩
  | disposeThrew error held hstopped hrun => cases (reset_run _).symm.trans hrun
  | _ => exact ⟨rfl, h.keep rfl rfl fun _ _ _ ht => ht⟩

theorem SnapshotsOk.upload (h : SnapshotsOk st) {key : ObjectKey} {body : ObjectBody}
    (hbody : ∀ record log, body = .snapshot record log → Portrays record log) :
    SnapshotsOk (st.upload key body) := by
  intro other record log hobject
  rw [Store.upload_objects] at hobject
  split at hobject
  · exact hbody record log (Option.some.inj hobject)
  · exact h other record log hobject

theorem SnapshotsOk.remove (h : SnapshotsOk st) (keys : List ObjectKey) :
    SnapshotsOk (st.remove keys) :=
  fun key record log hobject => h key record log (Store.objects_of_remove hobject)

theorem RowsOk.of_loop {a : LoopAct} (hst : SnapshotsOk st) (h : RowsOk n)
    (hs : LoopStep cfg i st n a st' n') : SnapshotsOk st' ∧ RowsOk n' := by
  have hgo : ∀ {n' : Instance}, n'.room = n.room →
      (∀ key record log, n'.loop.task ≠ .snapshot key record log) → RowsOk n' :=
    fun hroom htask => h.keep (by rw [hroom]) (by rw [hroom])
      fun key record log ht => absurd ht (htask key record log)
  have hsegment : ∀ {batch : List Entry} (record : SnapshotRecord) (log : List Entry),
      ObjectBody.segment batch = .snapshot record log → Portrays record log :=
    fun record log heq => by cases heq
  cases hs with
  | putSegment ref batch => exact ⟨hst.upload hsegment, hgo rfl fun _ _ _ ht => by cases ht⟩
  | lostSegment ref batch => exact ⟨hst.upload hsegment, hgo rfl fun _ _ _ ht => by cases ht⟩
  | compact now =>
      refine ⟨hst, h.memory, fun key record log ht => ?_⟩
      cases ht
      exact h.memory.toSnapshot now
  | putSnapshot now key record log htask =>
      refine ⟨hst.upload fun record' log' heq => ?_, hgo rfl fun _ _ _ ht => by cases ht⟩
      cases heq
      exact h.snapshot key record log htask
  | lostSnapshot now key record log htask =>
      refine ⟨hst.upload fun record' log' heq => ?_, hgo rfl fun _ _ _ ht => by cases ht⟩
      cases heq
      exact h.snapshot key record log htask
  | delete done => exact ⟨hst.remove done, hgo rfl fun _ _ _ ht => by cases ht⟩
  | deleteThrew done => exact ⟨hst.remove done, hgo rfl fun _ _ _ ht => by cases ht⟩
  | _ => exact ⟨hst, hgo rfl fun _ _ _ ht => by cases ht⟩

theorem noteCutoff_mirrors {held : Held} {log : List Entry} (h : Mirrors held log)
    (committed : ManifestRecord) : Mirrors (noteCutoff held committed) log := by
  unfold noteCutoff
  split
  · exact h
  · split
    · exact h
    · exact h.withMeta _

theorem RowsOk.of_commit {a : CommitAct} (h : RowsOk n) (hs : CommitStep cfg i st n a st' n') :
    st'.objects = st.objects ∧ RowsOk n' := by
  have hkeep : ∀ {n' : Instance}, n'.room = n.room → n'.loop = n.loop → RowsOk n' :=
    fun hroom hloop => h.keep (by rw [hroom]) (by rw [hroom]) (by rw [hloop]; exact fun _ _ _ => id)
  have hresolve : ∀ {m : Instance} (u : Update) (next cached : ManifestRecord) (tag : Nat),
      m.room = n.room → m.loop = n.loop → RowsOk (m.resolve u next cached tag) := by
    intro m u next cached tag hroom hloop
    have hm : RowsOk m := hkeep hroom hloop
    cases u with
    | setMeta key value => exact hm.keep rfl rfl fun _ _ _ ht => ht
    | compact key hlc deletableAt log =>
        exact ⟨noteCutoff_mirrors hm.memory next, fun _ _ _ ht => by cases ht⟩
    | append ref batch => exact hm.keep rfl rfl fun _ _ _ ht => by cases ht
    | collect now => exact hm.keep rfl rfl fun _ _ _ ht => by cases ht
  have hreject : ∀ {m : Instance} (u : Update) (notWriter : Bool), m.room = n.room →
      m.loop = n.loop → RowsOk (m.reject u notWriter) := by
    intro m u notWriter hroom hloop
    have hm : RowsOk m := hkeep hroom hloop
    cases u with
    | setMeta key value => exact hm.keep rfl rfl fun _ _ _ ht => ht
    | append ref batch =>
        cases notWriter <;> exact hm.keep rfl rfl fun _ _ _ ht => by cases ht
    | compact key hlc deletableAt log => exact hm.keep rfl rfl fun _ _ _ ht => by cases ht
    | collect now => exact hm.keep rfl rfl fun _ _ _ ht => by cases ht
  cases hs with
  | setMeta key value => exact ⟨rfl, h.of_memory (h.memory.withMeta _) rfl⟩
  | answer next tag u => exact ⟨rfl, hresolve u next next tag (by simp) (by simp)⟩
  | answerFailed next u => exact ⟨rfl, hreject u false rfl rfl⟩
  | adopt tag next u => exact ⟨rfl, hresolve u next _ tag rfl rfl⟩
  | fence tag next u => exact ⟨rfl, hreject u true rfl rfl⟩
  | giveUp tag next u => exact ⟨rfl, hreject u false rfl rfl⟩
  | refuse notWriter u => exact ⟨rfl, hreject u notWriter rfl rfl⟩
  | _ => exact ⟨rfl, hkeep rfl rfl⟩

theorem RowsOk.of_refresh {a : RefreshAct} (hst : SnapshotsOk st) (h : RowsOk n)
    (hs : RefreshStep cfg i st n a n') : RowsOk n' := by
  cases hs with
  | answer call tag next =>
      exact h.keep (by simp [Instance.withRefresh]) (by simp [Instance.withRefresh])
        fun _ _ _ ht => by simpa [Instance.withRefresh] using ht
  | load call now m key record log held hcall hkey hsnap hrun =>
      obtain ⟨held', hrun', hmirrors⟩ :=
        (hst.portrays hsnap).loadSnapshot cfg.sizes h.memory.unlimited now
      cases hrun.symm.trans hrun'
      exact h.of_memory (hmirrors.withMeta _) rfl
  | loadThrew call now record error held hrun =>
      obtain ⟨held', hrun', -⟩ := loadSnapshot_rows cfg.sizes h.memory.unlimited record now
      cases hrun.symm.trans hrun'
  | segment call now m all moved key todo lines held hcall hall hlines hrun =>
      obtain ⟨held', hrun', hmirrors⟩ := h.memory.applyLines cfg.sizes lines now
      cases hrun.symm.trans hrun'
      exact h.of_memory hmirrors rfl
  | segmentThrew call now lines error held hrun =>
      obtain ⟨held', hrun', -⟩ := h.memory.applyLines cfg.sizes lines now
      cases hrun.symm.trans hrun'
  | doneMoved call m => exact h.of_memory (h.memory.withMeta _) rfl
  | _ => exact h.keep rfl rfl fun _ _ _ ht => ht

/-- A room without limits. -/
def Config.Unlimited (cfg : Config ι) : Prop :=
  cfg.memory.maxRoomBytes = none ∧ cfg.memory.maxTotalBytes = none

/-- In every state of every run. -/
theorem rowsOk [DecidableEq ι] {G : Guard ι} (hmem : cfg.Unlimited) {s : FleetState ι}
    (h : FleetReach cfg G s) : s.All SnapshotsOk fun _ _ n => RowsOk n := by
  refine FleetReach.invariant (K := fun _ => True) (fun _ => trivial) ?_ ?_ ?_
    (fun _ hall _ _ j _ => hall.2 j) h
  · exact fun _ _ _ hobject => by cases hobject
  · exact fun _ => ⟨⟨⟨hmem.1, hmem.2⟩, fun _ => rfl⟩, fun _ _ _ ht => by cases ht⟩
  · rintro s i a st' n' - ⟨hst, hall⟩ - hs
    have hkept : st'.objects = s.shared.objects → SnapshotsOk st' := by
      intro hobjects
      rw [SnapshotsOk, hobjects]
      exact hst
    cases hs with
    | room hs =>
        obtain ⟨hobjects, hi⟩ := (hall i).of_room hst hs
        exact ⟨hkept hobjects, hi⟩
    | lease => exact ⟨hkept rfl, (hall i).keep rfl rfl fun _ _ _ ht => ht⟩
    | loop hs => exact (hall i).of_loop hst hs
    | commit hs =>
        obtain ⟨hobjects, hi⟩ := (hall i).of_commit hs
        exact ⟨hkept hobjects, hi⟩
    | refresh hs => exact ⟨hst, (hall i).of_refresh hst hs⟩

/-! ## A boot of what is stored -/

section Boot

variable [DecidableEq ι] {s : FleetState ι}

theorem step_room {a : RoomAct} {n' : Instance}
    (h : (s.locals i).roomStep cfg s.shared a = some (s.shared, n')) :
    (fleetMachine cfg).step s (i, .room a) = some ⟨s.shared, Function.update s.locals i n'⟩ := by
  simp [fleetMachine, Machine.ofParties, Parties.move, Instance.perform, h]

/-- The segments are applied one after the other. -/
theorem run_bootSegments (cfg : Config ι) (i : ι) (now : Nat) (todo : List ObjectKey) :
    ∀ {s : FleetState ι}
    {lines : List Entry}, readSegments s.shared.objects todo = some lines →
      (s.locals i).room.boot = .applying todo →
        Mirrors (s.locals i).room.held (s.locals i).room.log →
          ∃ s', (fleetMachine cfg).runFrom s
              (List.replicate todo.length (i, .room (.applySegment now))) = some s' ∧
            s'.shared = s.shared ∧ (s'.locals i).room.boot = .applying [] ∧
              Mirrors (s'.locals i).room.held ((s.locals i).room.log ++ lines) := by
  induction todo with
  | nil =>
      intro s lines hread hboot hmirrors
      cases hread
      exact ⟨s, rfl, rfl, hboot, by rwa [List.append_nil]⟩
  | cons key todo ih =>
      intro s lines hread hboot hmirrors
      obtain ⟨first, hfirst, hread⟩ := Option.bind_eq_some_iff.1 hread
      obtain ⟨rest, hrest, hlines⟩ := Option.bind_eq_some_iff.1 hread
      cases hlines
      obtain ⟨held', hrun, hmirrors'⟩ := hmirrors.applyLines cfg.sizes first now
      have hstep : (s.locals i).roomStep cfg s.shared (.applySegment now) = some (s.shared,
          ((s.locals i).withMemory held' ((s.locals i).room.log ++ first)).withBoot
            (.applying todo)) := by
        simp [Instance.roomStep, Instance.bootSegment, hboot, hfirst, hrun]
      obtain ⟨s', hruns, hshared, hboot', hfinal⟩ :=
        ih (s := ⟨s.shared, Function.update s.locals i
          (((s.locals i).withMemory held' ((s.locals i).room.log ++ first)).withBoot
            (.applying todo))⟩) hrest (by simp [Instance.withBoot])
          (by simpa [Instance.withBoot, Instance.withMemory] using hmirrors')
      refine ⟨s', ?_, hshared, hboot', ?_⟩
      · rw [List.length_cons, List.replicate_succ, Machine.runFrom_cons, step_room hstep]
        exact hruns
      · simpa [Instance.withBoot, Instance.withMemory] using hfinal

/-- A boot, up to the point where it asks for the lease. -/
def bootReads (i : ι) (segments now : Nat) : List (ι × Act) :=
  [(i, .room .load), (i, .room (.loadSnapshot now))]
    ++ List.replicate segments (i, .room (.applySegment now)) ++ [(i, .room .replayed)]

theorem exists_of_readLog {objects : Objects} {m : ManifestRecord} {log : List Entry}
    (h : readLog objects m = some log) : ∃ base rest, (m.snapshotKey = none ∧ base = [] ∨
        ∃ key record, m.snapshotKey = some key ∧ snapshotOf objects key = some (record, base)) ∧
      readSegments objects m.segments = some rest ∧ log = base ++ rest := by
  unfold readLog at h
  split at h
  · rename_i hkey
    obtain ⟨base, hbase, h⟩ := Option.bind_eq_some_iff.1 h
    obtain ⟨rest, hrest, hlog⟩ := Option.bind_eq_some_iff.1 h
    cases hbase
    exact ⟨[], rest, .inl ⟨hkey, rfl⟩, hrest, (Option.some.inj hlog).symm⟩
  · rename_i key hkey
    obtain ⟨base, hbase, h⟩ := Option.bind_eq_some_iff.1 h
    obtain ⟨rest, hrest, hlog⟩ := Option.bind_eq_some_iff.1 h
    obtain ⟨⟨record, base'⟩, hsnap, rfl⟩ := Option.map_eq_some_iff.1 hbase
    exact ⟨_, rest, .inr ⟨key, record, hkey, hsnap⟩, hrest, (Option.some.inj hlog).symm⟩

end Boot

end Fleet
end ObjectStorage
end Reflectdb
