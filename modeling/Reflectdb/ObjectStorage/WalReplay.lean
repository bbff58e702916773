import Reflectdb.ObjectStorage.RoomSteps

/-!
# WAL replay — records that are applied again over a snapshot

A row record carries the whole row and a reservation the time at which its ids were first seen, so
what a list of records leaves of a row is its last write, and of a reservation its earliest time.
Records that a snapshot already reflects may therefore be replayed over it.
-/

namespace Reflectdb
namespace ObjectStorage

open Core Client Lib
open Server (OpLogEntry StoredRow)

/-! ## What records write -/

def RowEntry.stored (entry : RowEntry) : StoredRow :=
  ⟨entry.row, entry.hlc, entry.colClocks⟩

/-- What a mutation leaves at its row. -/
def WalRowMutation.stored (m : WalRowMutation) : Option StoredRow :=
  m.row.map fun row => ⟨row, m.hlc, m.colClocks⟩

namespace WalRecord

/-- The row that a record writes, and what it leaves there. -/
def write : WalRecord → Option (RowKey × Option StoredRow)
  | .row m => some (m.key, m.stored)
  | .op _ => none
  | .apply m _ => some (m.key, m.stored)
  | .reserve _ _ => none

/-- When a record reserves an id. -/
def stampOf (opId : String) : WalRecord → Option Nat
  | .reserve opIds stamp => if opId ∈ opIds then some stamp else none
  | _ => none

end WalRecord

/-- The last write of the records to each row. -/
def written (records : List WalRecord) (key : RowKey) : Option (Option StoredRow) :=
  lastWrite (records.filterMap WalRecord.write) key

/-- The earliest time at which the records reserve an id. -/
def earliest (records : List WalRecord) (opId : String) : Option Nat :=
  records.foldr (fun record => Option.merge min (record.stampOf opId)) none

/-- A row with its clocks, as the room holds it. -/
def RoomState.storedRow (st : RoomState) (key : RowKey) : Option StoredRow :=
  (st.rows.lookup key).map RowEntry.stored

theorem written_append (records records' : List WalRecord) (key : RowKey) :
    written (records ++ records') key = (written records' key).or (written records key) := by
  rw [written, List.filterMap_append, lastWrite_append]
  rfl

theorem earliest_append (records records' : List WalRecord) (opId : String) :
    earliest (records ++ records') opId =
      Option.merge min (earliest records opId) (earliest records' opId) := by
  induction records with
  | nil => simp [earliest]
  | cons record records ih =>
      have hcons : ∀ rest, earliest (record :: rest) opId =
          Option.merge min (record.stampOf opId) (earliest rest opId) := fun _ => rfl
      rw [List.cons_append, hcons, hcons, ih, (Option.associative_merge min).assoc]

theorem WalRecord.stampOf_eq_some {record : WalRecord} {opId : String} {stamp : Nat} :
    record.stampOf opId = some stamp ↔ ∃ opIds, record = .reserve opIds stamp ∧ opId ∈ opIds := by
  cases record with
  | reserve opIds at_ =>
      by_cases hmem : opId ∈ opIds
      · simp [WalRecord.stampOf, hmem]
      · simp [WalRecord.stampOf, hmem]
  | _ => simp [WalRecord.stampOf]

/-- An earliest time is that of a record. -/
theorem exists_of_earliest {records : List WalRecord} {opId : String} {stamp : Nat}
    (h : earliest records opId = some stamp) :
    ∃ opIds, WalRecord.reserve opIds stamp ∈ records := by
  induction records with
  | nil => cases h
  | cons record records ih =>
      have hcons : Option.merge min (record.stampOf opId) (earliest records opId) = some stamp := h
      rcases Option.merge_eq_or_eq (f := min) min_choice (record.stampOf opId)
          (earliest records opId) with hfirst | hrest
      · obtain ⟨opIds, rfl, -⟩ := WalRecord.stampOf_eq_some.1 (hfirst.symm.trans hcons)
        exact ⟨opIds, List.mem_cons_self⟩
      · obtain ⟨opIds, hmem⟩ := ih (hrest.symm.trans hcons)
        exact ⟨opIds, List.mem_cons_of_mem _ hmem⟩

/-! ## Rooms without limits -/

structure Held.Unlimited (h : Held) : Prop where
  room : h.room.memory.maxRoomBytes = none
  process : h.budget.limitBytes = none

theorem Held.Unlimited.refused {h : Held} (hu : h.Unlimited) (delta : Int) :
    h.refused delta = none := by
  rw [Held.refused_eq_none, Held.refusal_eq_none, Held.Within, hu.room, hu.process]
  simp

theorem Held.Unlimited.charging {h : Held} (hu : h.Unlimited) (delta : Int)
    (write : RoomState → RoomState) :
    h.charging delta write = .ok () ((h.post delta).onRoom write) := by
  rw [Held.charging, hu.refused]

/-- From one state to the other the rows have these writes and the ids these times on top. -/
structure Effect (rows : RowKey → Option (Option StoredRow)) (stamps : String → Option Nat)
    (h h' : Held) : Prop where
  unlimited : h.Unlimited → h'.Unlimited
  rows : ∀ key, h'.room.storedRow key = (rows key).getD (h.room.storedRow key)
  reserved : ∀ opId, h'.room.reserved.lookup opId =
    Option.merge min (h.room.reserved.lookup opId) (stamps opId)

theorem Effect.refl (h : Held) : Effect (fun _ => none) (fun _ => none) h h where
  unlimited := id
  rows _ := rfl
  reserved _ := by simp

theorem Effect.of_eq {rows rows' : RowKey → Option (Option StoredRow)}
    {stamps stamps' : String → Option Nat} {h h' : Held} (he : Effect rows stamps h h')
    (hrows : ∀ key, rows key = rows' key) (hstamps : ∀ opId, stamps opId = stamps' opId) :
    Effect rows' stamps' h h' :=
  funext hrows ▸ funext hstamps ▸ he

theorem Effect.trans {rows rows' : RowKey → Option (Option StoredRow)}
    {stamps stamps' : String → Option Nat} {h h' h'' : Held} (he : Effect rows stamps h h')
    (he' : Effect rows' stamps' h' h'') :
    Effect (fun key => (rows' key).or (rows key))
      (fun opId => Option.merge min (stamps opId) (stamps' opId)) h h'' where
  unlimited hu := he'.unlimited (he.unlimited hu)
  rows key := by
    rw [he'.rows, he.rows]
    cases rows' key <;> rfl
  reserved opId := by rw [he'.reserved, he.reserved, (Option.associative_merge min).assoc]

section

variable (sizes : JsonSizes) {h : Held}

theorem storedRow_write (st : RoomState) (m : WalRowMutation) (key : RowKey) :
    (st.write sizes m).storedRow key = if m.key = key then m.stored else st.storedRow key := by
  cases hrow : m.row with
  | none =>
      by_cases hkey : m.key = key
      · subst hkey
        simp [RoomState.storedRow, RoomState.write, WalRowMutation.stored, hrow]
      · simp [RoomState.storedRow, RoomState.write, hrow, hkey,
          AList.lookup_erase_ne (Ne.symm hkey)]
  | some row =>
      by_cases hkey : m.key = key
      · subst hkey
        simp [RoomState.storedRow, RoomState.write, WalRowMutation.stored, RowEntry.stored, hrow]
      · simp [RoomState.storedRow, RoomState.write, hrow, hkey,
          AList.lookup_insert_ne (Ne.symm hkey)]

theorem putRow_effect (hu : h.Unlimited) (m : WalRowMutation) :
    ∃ h', (putRow sizes m).run h = .ok () h' ∧
      Effect (fun key => if m.key = key then some m.stored else none) (fun _ => none) h h' := by
  refine ⟨_, (putRow_run sizes h m).trans (hu.charging _ _), fun hu =>
    ⟨hu.room, hu.process⟩, ?_, ?_⟩
  · intro key
    refine (storedRow_write sizes h.room m key).trans ?_
    split <;> rfl
  · intro opId
    exact Option.merge_none_right.symm

theorem appendOp_effect (hu : h.Unlimited) (entry : OpLogEntry) :
    ∃ h', (appendOp sizes entry).run h = .ok () h' ∧
      Effect (fun _ => none) (fun _ => none) h h' := by
  refine ⟨_, (appendOp_run sizes h entry).trans (hu.charging _ _),
    fun hu => ⟨hu.room, hu.process⟩, fun key => rfl, fun opId => ?_⟩
  exact Option.merge_none_right.symm

/-- A reservation, or an earlier time of one. -/
theorem reserveAt_effect {opId : String} {at_ : Nat} {h' : Held}
    (hreserved : h'.room.reserved = h.room.reserved.insert opId at_)
    (hrows : h'.room.rows = h.room.rows) (hu : h.Unlimited → h'.Unlimited)
    (hearlier : Option.merge min (h.room.reserved.lookup opId) (some at_) = some at_) :
    Effect (fun _ => none) (fun id => if id = opId then some at_ else none) h h' where
  unlimited := hu
  rows key := by
    rw [RoomState.storedRow, hrows]
    rfl
  reserved id := by
    rw [hreserved]
    by_cases hid : id = opId
    · subst hid
      rw [AList.lookup_insert, if_pos rfl, hearlier]
    · rw [AList.lookup_insert_ne hid, if_neg hid, Option.merge_none_right]

theorem restoreEach_effect (at_ : Nat) (opIds : List String) :
    ∀ {h : Held}, h.Unlimited → ∃ h', (restoreEach at_ opIds).run h = .ok () h' ∧
      Effect (fun _ => none) (fun opId => if opId ∈ opIds then some at_ else none) h h' := by
  induction opIds with
  | nil => exact fun {h} _ => ⟨h, rfl, by simpa using Effect.refl h⟩
  | cons opId opIds ih =>
      intro h hu
      have hstep : ∃ h₁, (restoreEach at_ (opId :: opIds)).run h = (restoreEach at_ opIds).run h₁ ∧
          Effect (fun _ => none) (fun id => if id = opId then some at_ else none) h h₁ := by
        cases hlookup : h.room.reserved.lookup opId with
        | none =>
            refine ⟨_, restoreEach_run_of_fits hlookup (hu.refused _) opIds, ?_⟩
            exact reserveAt_effect rfl rfl (fun hu => ⟨hu.room, hu.process⟩) (by rw [hlookup]; rfl)
        | some existing =>
            rcases Nat.lt_or_ge at_ existing with hearlier | hlater
            · refine ⟨_, restoreEach_run_of_earlier hlookup hearlier opIds, ?_⟩
              refine reserveAt_effect rfl rfl (fun hu => ⟨hu.room, hu.process⟩) ?_
              rw [hlookup, Option.merge_some_some, min_eq_right hearlier.le]
            · refine ⟨_, restoreEach_run_of_later hlookup hlater opIds, id, fun key => rfl, ?_⟩
              intro id
              by_cases hid : id = opId
              · rw [if_pos hid, hid, hlookup, Option.merge_some_some, min_eq_left hlater]
              · rw [if_neg hid, Option.merge_none_right]
      obtain ⟨h₁, hfirst, hone⟩ := hstep
      obtain ⟨h', hrest, hmore⟩ := ih (hone.unlimited hu)
      refine ⟨h', hfirst.trans hrest, (hone.trans hmore).of_eq (fun key => rfl) fun id => ?_⟩
      by_cases hid : id = opId
      · subst hid
        by_cases hmem : id ∈ opIds <;> simp [hmem]
      · simp [hid]

/-- Every record whose reservations have not expired has its effect. -/
theorem applyRecord_effect (hu : h.Unlimited) {record : WalRecord} {now : Nat}
    (hkept : ∀ opIds stamp, record = .reserve opIds stamp → expired now stamp = false) :
    ∃ h', (applyRecord sizes record now).run h = .ok () h' ∧
      Effect (written [record]) (earliest [record]) h h' := by
  have hwritten : ∀ {m : WalRowMutation} {key : RowKey}, record.write = some (m.key, m.stored) →
      written [record] key = if m.key = key then some m.stored else none := by
    intro m key hwrite
    simp [written, hwrite, lastWrite]
  have hearliest : ∀ opId, earliest [record] opId = record.stampOf opId :=
    fun _ => Option.merge_none_right
  cases record with
  | row m =>
      obtain ⟨h', hrun, he⟩ := putRow_effect sizes hu m
      exact ⟨h', hrun, he.of_eq (fun key => (hwritten rfl).symm) fun opId => (hearliest opId).symm⟩
  | op entry =>
      obtain ⟨h', hrun, he⟩ := appendOp_effect sizes hu entry
      exact ⟨h', hrun, he.of_eq (fun key => rfl) fun opId => (hearliest opId).symm⟩
  | apply m entry =>
      obtain ⟨h₁, hput, he₁⟩ := putRow_effect sizes hu m
      obtain ⟨h', happend, he⟩ := appendOp_effect sizes (he₁.unlimited hu) entry
      refine ⟨h', ?_, (he₁.trans he).of_eq (fun key => (hwritten rfl).symm) fun opId =>
        (hearliest opId).symm⟩
      rw [applyRecord, EStateM.run_bind, hput]
      exact happend
  | reserve opIds stamp =>
      obtain ⟨h', hrun, he⟩ := restoreEach_effect stamp opIds hu
      refine ⟨h', ?_, he.of_eq (fun key => rfl) fun opId => (hearliest opId).symm⟩
      simpa [applyRecord, restoreReservations, hkept opIds stamp rfl] using hrun

/-- No reservation of the records is past the retention when it is read. -/
def Kept (records : List WalRecord) (now : Nat) : Prop :=
  ∀ opIds stamp, .reserve opIds stamp ∈ records → expired now stamp = false

/-- Records have their effects one after the other. -/
theorem applyRecords_effect {records : List (Nat × WalRecord)} :
    ∀ {h : Held}, h.Unlimited → (∀ e ∈ records, Kept [e.2] e.1) →
      ∃ h', (applyRecords sizes records).run h = .ok () h' ∧
        Effect (written (records.map Prod.snd)) (earliest (records.map Prod.snd)) h h' := by
  induction records with
  | nil => exact fun {h} _ _ => ⟨h, rfl, Effect.refl h⟩
  | cons e records ih =>
      intro h hu hkept
      obtain ⟨h₁, hfirst, he₁⟩ := @applyRecord_effect sizes h hu e.2 e.1
        fun opIds stamp heq => hkept e List.mem_cons_self opIds stamp (by simp [heq])
      obtain ⟨h', hrest, he⟩ := ih (he₁.unlimited hu)
        fun e' he' => hkept e' (List.mem_cons_of_mem _ he')
      refine ⟨h', ?_, (he₁.trans he).of_eq (fun key => ?_) fun opId => ?_⟩
      · rw [applyRecords, EStateM.run_bind, hfirst]
        exact hrest
      · rw [List.map_cons, ← written_append]
        rfl
      · rw [List.map_cons, ← earliest_append]
        rfl

/-! ## Snapshots -/

theorem putRows_effect {rows : List SnapshotRow} :
    ∀ {h : Held}, h.Unlimited → ∃ h', (putRows sizes rows).run h = .ok () h' ∧
      Effect (written (rows.map fun row => .row row.mutation)) (fun _ => none) h h' := by
  induction rows with
  | nil => exact fun {h} _ => ⟨h, rfl, Effect.refl h⟩
  | cons row rows ih =>
      intro h hu
      obtain ⟨h₁, hfirst, he₁⟩ := putRow_effect sizes hu row.mutation
      obtain ⟨h', hrest, he⟩ := ih (he₁.unlimited hu)
      refine ⟨h', ?_, (he₁.trans he).of_eq (fun key => ?_) fun opId => rfl⟩
      · rw [putRows, EStateM.run_bind, hfirst]
        exact hrest
      · have hone : written [.row row.mutation] key =
            if row.mutation.key = key then some row.mutation.stored else none := by
          simp [written, WalRecord.write, lastWrite]
        rw [List.map_cons, ← List.singleton_append, written_append, hone]

theorem admitEach_replay {reserved : List Reservation} :
    ∀ {h : Held}, h.Unlimited → ∃ h', (admitEach reserved).run h = .ok () h' ∧ h'.Unlimited ∧
      h'.room.rows = h.room.rows ∧ h'.room.reserved = replay h.room.reserved reserved := by
  induction reserved with
  | nil => exact fun {h} hu => ⟨h, rfl, hu, rfl, rfl⟩
  | cons r reserved ih =>
      intro h hu
      have hu₁ : (h.admitted r.1 r.2).Unlimited := ⟨hu.room, hu.process⟩
      obtain ⟨h', hrest, hu', hrows, hreserved⟩ := ih hu₁
      refine ⟨h', ?_, hu', hrows, hreserved⟩
      rw [admitEach, EStateM.run_bind, admit_run_of_fits (hu.refused _)]
      exact hrest

/-- The rows of a snapshot are those of the room it was taken of. -/
theorem written_snapshot (st : RoomState) (key : RowKey) :
    written ((st.rows.entries.map RoomState.snapshotRow).map fun row => .row row.mutation) key =
      (st.storedRow key).map some := by
  have hwrites : (((st.rows.entries.map RoomState.snapshotRow).map fun row =>
      WalRecord.row row.mutation).filterMap WalRecord.write) =
        (writes st.rows.entries).map fun w => (id w.1, some w.2.stored) := by
    rw [List.map_map, writes, List.map_map, List.filterMap_map]
    exact congrFun (List.filterMap_eq_map (f := fun e : Sigma fun _ : RowKey => RowEntry =>
      (e.1, some e.2.stored))) _
  rw [written, hwrites]
  refine (lastWrite_map Function.injective_id (fun e : RowEntry => some e.stored) _ key).trans ?_
  rw [lastWrite_entries, RoomState.storedRow, Option.map_map]
  rfl

/-- A snapshot whose reservations have not expired brings back rows and reservations. -/
theorem loadSnapshot_toSnapshot {st : RoomState} {taken loaded : Nat}
    (hkept : ∀ opId stamp, st.reserved.lookup opId = some stamp →
      expired taken stamp = false ∧ expired loaded stamp = false) (hu : h.Unlimited) :
    ∃ h', (loadSnapshot sizes (st.toSnapshot taken) loaded).run h = .ok () h' ∧ h'.Unlimited ∧
      (∀ key, h'.room.storedRow key = st.storedRow key) ∧
        ∀ opId, h'.room.reserved.lookup opId = st.reserved.lookup opId := by
  have hcleared : h.cleared.Unlimited := ⟨hu.room, hu.process⟩
  obtain ⟨h₁, hrows, he⟩ := @putRows_effect sizes (st.toSnapshot taken).rows h.cleared hcleared
  obtain ⟨h₂, hadm, hu₂, hsame, hreserved⟩ :=
    @admitEach_replay ((st.toSnapshot taken).kept loaded) h₁ (he.unlimited hcleared)
  have hall : (st.toSnapshot taken).kept loaded = writes st.reserved.entries := by
    have htaken :
        (st.reserved.entries.filter fun e => !expired taken e.2) = st.reserved.entries := by
      apply List.filter_eq_self.2
      intro e he
      rw [(hkept e.1 e.2 (mem_entries_iff.1 he)).1]
      rfl
    have hops : (st.toSnapshot taken).reservedOps = writes st.reserved.entries :=
      congrArg writes htaken
    rw [SnapshotRecord.kept, hops]
    apply List.filter_eq_self.2
    intro r hr
    obtain ⟨e, he, rfl⟩ := List.mem_map.1 hr
    rw [(hkept e.1 e.2 (mem_entries_iff.1 he)).2]
    rfl
  obtain ⟨h₃, hload, hu₃, hrows₃, hreserved₃⟩ :
      ∃ h₃, (loadSnapshot sizes (st.toSnapshot taken) loaded).run h = .ok () h₃ ∧
        h₃.Unlimited ∧ h₃.room.rows = h₂.room.rows ∧ h₃.room.reserved = h₂.room.reserved := by
    rw [loadSnapshot, EStateM.run_bind, reset_run]
    simp only
    rw [EStateM.run_bind, hrows]
    simp only
    rw [EStateM.run_bind, hadm]
    cases (st.toSnapshot taken).hlc with
    | none => exact ⟨h₂, rfl, hu₂, rfl, rfl⟩
    | some hlc =>
        by_cases hempty : hlc = ""
        · exact ⟨h₂, by simp [hempty], hu₂, rfl, rfl⟩
        · refine ⟨h₂.onRoom (·.noteHlc hlc), ?_, ⟨hu₂.room, hu₂.process⟩, rfl, rfl⟩
          simp [hempty, noteHlc]
  refine ⟨h₃, hload, hu₃, fun key => ?_, fun opId => ?_⟩
  · have hwritten := he.rows key
    rw [show (st.toSnapshot taken).rows = st.rows.entries.map RoomState.snapshotRow from rfl,
      written_snapshot] at hwritten
    rw [RoomState.storedRow, hrows₃, hsame]
    refine hwritten.trans ?_
    cases st.storedRow key <;> rfl
  · have hnone : h₁.room.reserved.lookup opId = none := (he.reserved opId).trans rfl
    rw [hreserved₃, hreserved, hall, lookup_replay, lastWrite_entries, hnone, Option.or_none]

/-! ## Replaying a suffix -/

/-- Records may be applied again over a snapshot that reflects them. -/
theorem applyRecords_over_snapshot {applied again : List (Nat × WalRecord)} {i k : Nat}
    (hik : i ≤ k) (hagain : again.map Prod.snd = (applied.map Prod.snd).drop i) {taken loaded : Nat}
    {start target : Held} (hrows : start.room.rows = ∅) (hreserved : start.room.reserved = ∅)
    (hstart : start.Unlimited) (htarget : target.Unlimited)
    (hkept : ∀ now ∈ taken :: loaded :: (applied ++ again).map Prod.fst,
      Kept (applied.map Prod.snd) now) :
    ∃ once first twice, (applyRecords sizes applied).run start = .ok () once ∧
      (applyRecords sizes (applied.take k)).run start = .ok () first ∧
      (do
        loadSnapshot sizes (first.room.toSnapshot taken) loaded
        applyRecords sizes again : RoomM Unit).run target = .ok () twice ∧
      (∀ key, twice.room.storedRow key = once.room.storedRow key) ∧
        ∀ opId, twice.room.reserved.lookup opId = once.room.reserved.lookup opId := by
  have hread : ∀ e ∈ applied ++ again, e.2 ∈ applied.map Prod.snd → Kept [e.2] e.1 := by
    intro e he hrecord opIds stamp hmem
    have hnow : e.1 ∈ taken :: loaded :: (applied ++ again).map Prod.fst :=
      List.mem_cons_of_mem _ (List.mem_cons_of_mem _ (List.mem_map_of_mem he))
    exact hkept e.1 hnow opIds stamp (List.mem_singleton.1 hmem ▸ hrecord)
  have happlied : ∀ e ∈ applied, Kept [e.2] e.1 := fun e he =>
    hread e (List.mem_append_left _ he) (List.mem_map_of_mem he)
  have hreplayed : ∀ e ∈ again, Kept [e.2] e.1 := fun e he =>
    hread e (List.mem_append_right _ he)
      (List.mem_of_mem_drop (hagain ▸ List.mem_map_of_mem he))
  obtain ⟨once, honce, heOnce⟩ := applyRecords_effect sizes hstart happlied
  have htaken : ∀ e ∈ applied.take k, Kept [e.2] e.1 := fun e he =>
    happlied e (List.mem_of_mem_take he)
  obtain ⟨first, hfirst, heFirst⟩ := applyRecords_effect sizes hstart htaken
  have hempty : ∀ key, start.room.storedRow key = none := fun key => by
    rw [RoomState.storedRow, hrows]
    rfl
  have hnone : ∀ opId, start.room.reserved.lookup opId = none := fun opId => by
    rw [hreserved]
    rfl
  have hstamps : ∀ opId stamp, first.room.reserved.lookup opId = some stamp →
      expired taken stamp = false ∧ expired loaded stamp = false := by
    intro opId stamp hlookup
    rw [heFirst.reserved, hnone, Option.merge_none_left, List.map_take] at hlookup
    obtain ⟨opIds, hmem⟩ := exists_of_earliest hlookup
    have hrecord := List.mem_of_mem_take hmem
    exact ⟨hkept taken (by simp) opIds stamp hrecord, hkept loaded (by simp) opIds stamp hrecord⟩
  obtain ⟨loadedRoom, hload, hu, hloadRows, hloadReserved⟩ :=
    loadSnapshot_toSnapshot sizes hstamps htarget
  obtain ⟨twice, htwice, heTwice⟩ := applyRecords_effect sizes hu hreplayed
  refine ⟨once, first, twice, honce, hfirst, ?_, fun key => ?_, fun opId => ?_⟩
  · rw [EStateM.run_bind, hload]
    exact htwice
  · have hoverlap : (written ((applied.map Prod.snd).drop i) key).or
        (written ((applied.map Prod.snd).take k) key) = written (applied.map Prod.snd) key :=
      overlap_take_drop (fun a b => b.or a) (fun records => written records key)
        (fun a b c => (Option.or_assoc ..).symm) (fun a => Option.or_self)
        (fun records records' => written_append records records' key) _ hik
    rw [heTwice.rows, hloadRows, heFirst.rows, heOnce.rows, hagain, List.map_take, hempty,
      ← hoverlap]
    cases written ((applied.map Prod.snd).drop i) key <;> rfl
  · have hoverlap : Option.merge min (earliest ((applied.map Prod.snd).take k) opId)
        (earliest ((applied.map Prod.snd).drop i) opId) = earliest (applied.map Prod.snd) opId :=
      overlap_take_drop (Option.merge min) (fun records => earliest records opId)
        (Option.associative_merge min).assoc (Option.idempotentOp_merge min).idempotent
        (fun records records' => earliest_append records records' opId) _ hik
    rw [heTwice.reserved, hloadReserved, heFirst.reserved, heOnce.reserved, hagain, List.map_take,
      hnone, Option.merge_none_left, Option.merge_none_left, hoverlap]

end

/-! ## An overlap of two records -/

def rowThenReservations : List (Nat × WalRecord) :=
  [(10, .reserve ["a"] 5), (11, .row ⟨"t", "1", some ∅, ∅, "h1"⟩), (12, .reserve ["a", "b"] 3),
    (13, .row ⟨"t", "1", none, ∅, "h2"⟩)]

/-- The last three records, read again at a later time. -/
def readAgain : List (Nat × WalRecord) :=
  (rowThenReservations.drop 1).map fun e => (e.1 + 100, e.2)

/-- The sizes of an empty row and of empty clocks; there are no ops. -/
def emptySizes : JsonSizes :=
  ⟨fun _ => 2, fun _ => 2, fun _ => 0, fun _ => 0⟩

theorem applyRecords_over_snapshot_rowThenReservations :
    ∃ once twice : Held,
      (applyRecords emptySizes rowThenReservations).run
          ⟨.empty ⟨none, none, .reject⟩, ⟨none, 0⟩⟩ = .ok () once ∧
        (∀ key, twice.room.storedRow key = once.room.storedRow key) ∧
          twice.room.reserved.lookup "a" = once.room.reserved.lookup "a" := by
  have hkept : ∀ now ∈ 50 :: 90 :: (rowThenReservations ++ readAgain).map Prod.fst,
      Kept (rowThenReservations.map Prod.snd) now := by
    have hbound : ∀ now ∈ 50 :: 90 :: (rowThenReservations ++ readAgain).map Prod.fst,
        now ≤ 113 := by
      decide
    intro now hnow opIds stamp _
    have hearly := hbound now hnow
    refine decide_eq_false fun hlate => ?_
    unfold OP_ID_RETENTION_MS at hlate
    omega
  obtain ⟨once, -, twice, honce, -, -, hrows, hreserved⟩ :=
    @applyRecords_over_snapshot emptySizes rowThenReservations readAgain 1 3 (by decide) rfl 50 90
      ⟨.empty ⟨none, none, .reject⟩, ⟨none, 0⟩⟩ ⟨.empty ⟨none, none, .reject⟩, ⟨none, 0⟩⟩
      rfl rfl ⟨rfl, rfl⟩ ⟨rfl, rfl⟩ hkept
  exact ⟨once, twice, honce, hrows, hreserved "a"⟩

end ObjectStorage
end Reflectdb
