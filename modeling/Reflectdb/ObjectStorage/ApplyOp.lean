import Reflectdb.ObjectStorage.Process

/-!
# Apply op — a row and its op, admitted together

`applyOp` of the object-storage adapter asks once whether the row and the op fit, prepares the WAL
record, and then charges and writes both.  What it asks for is the net growth, and only growth is
refused; the refund of a row that shrinks is booked before the op is charged, so where the process
is over its limit the op may be refused when the row has changed.
-/

namespace Reflectdb
namespace ObjectStorage

open Core Client Lib
open Server (OpLogEntry)

/-! ## The WAL buffer -/

inductive DurabilityMode
  | durable
  | buffered
  deriving DecidableEq

inductive BackpressurePolicy
  | reject
  | degrade
  deriving DecidableEq

inductive StorageHealth
  | healthy
  | degraded
  | unavailable
  deriving DecidableEq

structure BatchConfig where
  maxBufferBytes : Option Nat
  onBackpressure : BackpressurePolicy

/-- `bytes` counts the line of the record and the newline. -/
structure PreparedRecord where
  record : WalRecord
  bytes : Nat
  hlc : Hlc
  durable : Bool

/-- What `prepare` and `append` use of the writer. -/
structure WalWriter where
  batch : BatchConfig
  durability : DurabilityMode
  terminal : Option String
  stopped : Bool
  running : Bool
  failures : Nat
  backpressured : Bool
  health : StorageHealth
  bufferedBytes : Nat
  buffer : List PreparedRecord

def WalWriter.setBackpressured (wal : WalWriter) (value : Bool) : WalWriter :=
  if wal.backpressured = value then wal
  else
    { wal with
      backpressured := value
      health := if wal.failures = 0 then (if value then .degraded else .healthy) else wal.health }

def WalWriter.push (wal : WalWriter) (prepared : PreparedRecord) : WalWriter :=
  { wal with
    bufferedBytes := wal.bufferedBytes + prepared.bytes
    buffer := wal.buffer ++ [prepared]
    running := wal.running || !wal.stopped }

/-! ## The adapter of a room -/

inductive ApplyError
  | closed
  | memory (error : MemoryError)
  | terminal (error : String)
  | stopped
  | backpressure (bufferedBytes limitBytes : Nat)

/-- A room that has booted. -/
structure ObjectRoom where
  held : Held
  wal : WalWriter
  closed : Bool

abbrev ObjectM : Type → Type :=
  EStateM ApplyError ObjectRoom

/-- A method of the room's state. -/
def onState {α : Type} (x : RoomM α) : ObjectM α := fun s =>
  match x.run s.held with
  | .ok a h => .ok a { s with held := h }
  | .error error h => .error (.memory error) { s with held := h }

def assertOpen : ObjectM Unit := do
  if (← get).closed then
    throw .closed

def assertWritable : ObjectM Unit := do
  let wal := (← get).wal
  match wal.terminal with
  | some error => throw (.terminal error)
  | none =>
    if wal.stopped then
      throw .stopped

section

variable (sizes : JsonSizes)

def prepare (record : WalRecord) : ObjectM PreparedRecord := do
  assertWritable
  let wal := (← get).wal
  let bytes := sizes.record record + 1
  match exceeded wal.batch.maxBufferBytes (wal.bufferedBytes + bytes) with
  | some limit =>
    if wal.batch.onBackpressure = .reject then
      throw (.backpressure (wal.bufferedBytes + bytes) limit)
    -- Keep accepting, and stop promising durability.
    modify fun s => { s with wal := s.wal.setBackpressured true }
    return ⟨record, bytes, recordHlc record, false⟩
  | none => return ⟨record, bytes, recordHlc record, wal.durability = .durable⟩

def append (prepared : PreparedRecord) : ObjectM Unit := do
  assertWritable
  modify fun s => { s with wal := s.wal.push prepared }

/-- Admit, mutate, append. -/
def submit (record : WalRecord) (mutate : RoomM Unit) : ObjectM Unit := do
  let prepared ← prepare sizes record
  onState mutate
  append prepared

/-- The op that `applyOp` logs with a mutation. -/
def loggedOp (m : WalRowMutation) (opType : OpType) (payload : Option Row) : OpLogEntry :=
  ⟨m.table, opType, m.rowId, payload, m.hlc, m.colClocks⟩

def applyBoth (m : WalRowMutation) (op : OpLogEntry) : RoomM Unit := do
  putRow sizes m
  appendOp sizes op

def applyOp (m : WalRowMutation) (opType : OpType) (payload : Option Row) : ObjectM Unit := do
  assertOpen
  let op := loggedOp m opType payload
  onState (assertCanAdmitApply sizes m (some op))
  submit sizes (.apply m op) (applyBoth sizes m op)

/-! ## All or nothing -/

/-- A call that throws leaves rows and op ring, and one that returns has written both halves and
submitted their record. -/
structure AllOrNothing (s : ObjectRoom) (m : WalRowMutation) (opType : OpType)
    (payload : Option Row) : Prop where
  throws : ∀ error s', (applyOp sizes m opType payload).run s = .error error s' →
    s'.held.room.rows = s.held.room.rows ∧ s'.held.room.ops = s.held.room.ops
  returns : ∀ s', (applyOp sizes m opType payload).run s = .ok () s' →
    s'.held.room.rows = (s.held.room.write sizes m).rows ∧
      s'.held.room.ops = (s.held.room.append sizes (loggedOp m opType payload)).ops ∧
        ∃ prepared, s'.wal.buffer = s.wal.buffer ++ [prepared] ∧
          prepared.record = .apply m (loggedOp m opType payload)

/-- Where `assertCanAdmitApply` returns, neither half throws. -/
def AdmissionSuffices (h : Held) (m : WalRowMutation) (op : OpLogEntry) : Prop :=
  ∀ h', (assertCanAdmitApply sizes m (some op)).run h = .ok () h' →
    ∃ h'', (applyBoth sizes m op).run h' = .ok () h''

/-- The net growth is refused, or the op fits once the change of the row is booked. -/
def OpFits (h : Held) (m : WalRowMutation) (op : OpLogEntry) : Prop :=
  let growth := h.room.growth sizes m
  let net := growth + sizes.op op
  (0 < net ∧ ¬ h.Within (h.room.roomBytes + net) (h.budget.usedBytes + net)) ∨
    sizes.op op = 0 ∨
      h.Within (max 0 (h.room.roomBytes + growth) + sizes.op op)
        (max 0 (h.budget.usedBytes + growth) + sizes.op op)

end

/-! ## What the steps do -/

section

variable {sizes : JsonSizes} {h : Held} {m : WalRowMutation} {op : OpLogEntry}

/-- The state that the two halves leave. -/
def Held.applied (sizes : JsonSizes) (h : Held) (m : WalRowMutation) (op : OpLogEntry) : Held :=
  (((h.post (h.room.growth sizes m)).onRoom fun st => (st.write sizes m).noteHlc m.hlc).post
    (sizes.op op)).onRoom fun st => (st.append sizes op).noteHlc op.hlc

/-- The row fits where the net growth does, so the op decides. -/
theorem applyBoth_run (hrow : h.refused (h.room.growth sizes m) = none) :
    ∃ h', (applyBoth sizes m op).run h =
      match (h.post (h.room.growth sizes m)).refused (sizes.op op) with
      | some error => .error error h'
      | none => .ok () (h.applied sizes m op) := by
  have hput : (putRow sizes m).run h = .ok () ((h.post (h.room.growth sizes m)).onRoom fun st =>
      (st.write sizes m).noteHlc m.hlc) := by
    rw [putRow_run, Held.charging, hrow]
  refine ⟨(h.post (h.room.growth sizes m)).onRoom fun st => (st.write sizes m).noteHlc m.hlc, ?_⟩
  rw [applyBoth, EStateM.run_bind, hput]
  simp only
  rw [appendOp_run, Held.charging, Held.refused_onRoom rfl rfl]
  cases (h.post (h.room.growth sizes m)).refused (sizes.op op) with
  | none => rfl
  | some error => rfl

/-- Where the check returns, nothing is refused for the row. -/
theorem refused_growth_of_admitted {h' : Held}
    (hrun : (assertCanAdmitApply sizes m (some op)).run h = .ok () h') :
    h' = h ∧ h.refused (h.room.growth sizes m + sizes.op op) = none ∧
      h.refused (h.room.growth sizes m) = none := by
  rw [assertCanAdmitApply_run] at hrun
  cases hwhole : h.refused (h.room.growth sizes m + sizes.op op) with
  | some error =>
      simp [hwhole] at hrun
  | none =>
      have hsame : h' = h := by simpa [hwhole] using hrun.symm
      exact ⟨hsame, rfl, Held.refused_mono (by omega) hwhole⟩

theorem opFits_iff : OpFits sizes h m op ↔
    h.refused (h.room.growth sizes m + sizes.op op) ≠ none ∨
      (h.post (h.room.growth sizes m)).refused (sizes.op op) = none := by
  have hwhole : h.refused (h.room.growth sizes m + sizes.op op) ≠ none ↔
      0 < h.room.growth sizes m + sizes.op op ∧
        ¬ h.Within (h.room.roomBytes + (h.room.growth sizes m + sizes.op op))
          (h.budget.usedBytes + (h.room.growth sizes m + sizes.op op)) := by
    rw [Ne, Held.refused_eq_none, Held.refusal_eq_none, Classical.not_imp]
  have hrest : (h.post (h.room.growth sizes m)).refused (sizes.op op) = none ↔
      sizes.op op = 0 ∨ h.Within (max 0 (h.room.roomBytes + h.room.growth sizes m) + sizes.op op)
        (max 0 (h.budget.usedBytes + h.room.growth sizes m) + sizes.op op) := by
    have hroom : ((h.post (h.room.growth sizes m)).room.roomBytes : Int) =
        max 0 (h.room.roomBytes + h.room.growth sizes m) := by
      rw [max_comm]
      exact Int.ofNat_toNat _
    have hused : ((h.post (h.room.growth sizes m)).budget.usedBytes : Int) =
        max 0 (h.budget.usedBytes + h.room.growth sizes m) := by
      rw [max_comm]
      exact Int.ofNat_toNat _
    rw [Held.refused_eq_none, Held.refusal_eq_none, hroom, hused, Int.natCast_pos,
      Decidable.imp_iff_not_or, Nat.not_lt, Nat.le_zero]
    rfl
  rw [hwhole, hrest]
  rfl

/-- In a room whose books are right, only a pair that does not grow it can be torn: one whose
remainder is over a limit. -/
theorem opFits_iff_of_balanced {others : Nat} (hb : h.Balanced sizes others) :
    OpFits sizes h m op ↔
      0 < h.room.growth sizes m + sizes.op op ∨ sizes.op op = 0 ∨
        h.Within (h.room.roomBytes + (h.room.growth sizes m + sizes.op op))
          (h.budget.usedBytes + (h.room.growth sizes m + sizes.op op)) := by
  have hroom := hb.room
  have hprocess := hb.process
  have hcharged : h.room.chargedAt m.key ≤ h.room.rowCharges :=
    sizeAt_le_total (fun _ (entry : RowEntry) => entry.bytes) h.room.rows m.key
  have hgrowth : -(h.room.roomBytes : Int) ≤ h.room.growth sizes m := by
    have hcharges : h.room.rowCharges ≤ h.room.charges := by
      rw [RoomState.charges, Nat.add_assoc]
      exact Nat.le_add_right _ _
    unfold RoomState.growth
    omega
  unfold OpFits
  simp only
  rw [max_eq_right (by omega), max_eq_right (by omega), Int.add_assoc, Int.add_assoc]
  tauto

theorem admissionSuffices_iff : AdmissionSuffices sizes h m op ↔ OpFits sizes h m op := by
  rw [opFits_iff]
  constructor
  · intro hsuffices
    cases hwhole : h.refused (h.room.growth sizes m + sizes.op op) with
    | some error => exact Or.inl (by simp)
    | none =>
        have hadm : (assertCanAdmitApply sizes m (some op)).run h = .ok () h := by
          simp [assertCanAdmitApply_run, hwhole]
        obtain ⟨h'', hboth⟩ := hsuffices h hadm
        obtain ⟨h', hrun⟩ := applyBoth_run (refused_growth_of_admitted hadm).2.2
        cases hop : (h.post (h.room.growth sizes m)).refused (sizes.op op) with
        | none => exact Or.inr rfl
        | some error =>
            rw [hrun, hop] at hboth
            cases hboth
  · rintro hfits h' hadm
    obtain ⟨rfl, hwhole, hrow⟩ := refused_growth_of_admitted hadm
    obtain ⟨h'', hrun⟩ := applyBoth_run hrow
    rw [hfits.resolve_left fun hrefused => hrefused hwhole] at hrun
    exact ⟨_, hrun⟩

end

section

variable {sizes : JsonSizes} {s s' : ObjectRoom} {record : WalRecord}

theorem onState_run {α : Type} (x : RoomM α) (s : ObjectRoom) :
    (onState x).run s =
      match x.run s.held with
      | .ok a h => .ok a ⟨h, s.wal, s.closed⟩
      | .error error h => .error (.memory error) ⟨h, s.wal, s.closed⟩ := by
  unfold onState
  rw [EStateM.run]
  cases x.run s.held <;> rfl

theorem assertWritable_run (s : ObjectRoom) :
    (∃ error, assertWritable.run s = .error error s) ∨
      assertWritable.run s = .ok () s ∧ s.wal.terminal = none ∧ s.wal.stopped = false := by
  cases hterminal : s.wal.terminal with
  | some error => exact Or.inl ⟨.terminal error, by simp [assertWritable, hterminal]⟩
  | none =>
      cases hstopped : s.wal.stopped with
      | true => exact Or.inl ⟨.stopped, by simp [assertWritable, hterminal, hstopped]⟩
      | false => exact Or.inr ⟨by simp [assertWritable, hterminal, hstopped], rfl, rfl⟩

/-- `prepare` throws without a trace, or returns a record that `append` takes. -/
theorem prepare_run (s : ObjectRoom) (record : WalRecord) :
    (∃ error, (prepare sizes record).run s = .error error s) ∨
      ∃ prepared wal, (prepare sizes record).run s = .ok prepared { s with wal := wal } ∧
        prepared.record = record ∧ wal.buffer = s.wal.buffer ∧
          wal.terminal = none ∧ wal.stopped = false := by
  rcases assertWritable_run s with ⟨error, hrun⟩ | ⟨hrun, hterminal, hstopped⟩
  · exact Or.inl ⟨error, by rw [prepare, EStateM.run_bind, hrun]⟩
  · rw [prepare, EStateM.run_bind, hrun]
    simp only [EStateM.run_bind, EStateM.run_get]
    cases exceeded s.wal.batch.maxBufferBytes
        (s.wal.bufferedBytes + (sizes.record record + 1 : Nat)) with
    | none => exact Or.inr ⟨_, s.wal, rfl, rfl, rfl, hterminal, hstopped⟩
    | some limit =>
        by_cases hreject : s.wal.batch.onBackpressure = .reject
        · exact Or.inl ⟨_, by simp only [if_pos hreject]; rfl⟩
        · refine Or.inr
            ⟨_, s.wal.setBackpressured true, by simp only [if_neg hreject]; rfl, rfl, ?_⟩
          unfold WalWriter.setBackpressured
          split
          · exact ⟨rfl, hterminal, hstopped⟩
          · exact ⟨rfl, hterminal, hstopped⟩

/-- Either nothing happens, or the mutation runs and its record is buffered if it returns. -/
theorem submit_run (s : ObjectRoom) (record : WalRecord) (mutate : RoomM Unit) :
    (∃ error, (submit sizes record mutate).run s = .error error s) ∨
      ∃ prepared wal, prepared.record = record ∧ wal.buffer = s.wal.buffer ∧
        (submit sizes record mutate).run s =
          match mutate.run s.held with
          | .ok _ h => .ok () ⟨h, wal.push prepared, s.closed⟩
          | .error error h => .error (.memory error) ⟨h, wal, s.closed⟩ := by
  rcases prepare_run s record with ⟨error, hrun⟩ |
    ⟨prepared, wal, hrun, hrecord, hbuffer, hwritable⟩
  · exact Or.inl ⟨error, by rw [submit, EStateM.run_bind, hrun]⟩
  · refine Or.inr ⟨prepared, wal, hrecord, hbuffer, ?_⟩
    rw [submit, EStateM.run_bind, hrun]
    simp only [EStateM.run_bind]
    rw [onState_run]
    cases mutate.run s.held with
    | error error h => rfl
    | ok a h => simp [append, assertWritable, hwritable.1, hwritable.2]

/-- Either nothing happens, or the pair is admitted and runs. -/
theorem applyOp_run (s : ObjectRoom) (m : WalRowMutation) (opType : OpType) (payload : Option Row) :
    (∃ error, (applyOp sizes m opType payload).run s = .error error s) ∨
      (assertCanAdmitApply sizes m (some (loggedOp m opType payload))).run s.held =
          .ok () s.held ∧
        ∃ prepared wal, prepared.record = .apply m (loggedOp m opType payload) ∧
          wal.buffer = s.wal.buffer ∧
          (applyOp sizes m opType payload).run s =
            match (applyBoth sizes m (loggedOp m opType payload)).run s.held with
            | .ok _ h => .ok () ⟨h, wal.push prepared, s.closed⟩
            | .error error h => .error (.memory error) ⟨h, wal, s.closed⟩ := by
  rw [applyOp, EStateM.run_bind]
  by_cases hclosed : s.closed = true
  · exact Or.inl ⟨.closed, by simp [assertOpen, hclosed]⟩
  · have hopen : assertOpen.run s = .ok () s := by simp [assertOpen, hclosed]
    rw [hopen]
    simp only [EStateM.run_bind]
    rw [onState_run, assertCanAdmitApply_run]
    cases s.held.refused (s.held.room.growth sizes m +
        ((some (loggedOp m opType payload)).elim 0 sizes.op : Nat)) with
    | some error => exact Or.inl ⟨.memory error, rfl⟩
    | none =>
        rcases @submit_run sizes s (.apply m (loggedOp m opType payload))
            (applyBoth sizes m (loggedOp m opType payload)) with ⟨error, hrun⟩ | hsubmit
        · exact Or.inl ⟨error, hrun⟩
        · obtain ⟨prepared, wal, hrecord, hbuffer, hrun⟩ := hsubmit
          exact Or.inr ⟨rfl, prepared, wal, hrecord, hbuffer, hrun⟩

/-- What fits is applied whole. -/
theorem allOrNothing_of_opFits {m : WalRowMutation} {opType : OpType} {payload : Option Row}
    (hfits : OpFits sizes s.held m (loggedOp m opType payload)) :
    AllOrNothing sizes s m opType payload := by
  rcases applyOp_run s m opType payload with ⟨error, hrun⟩ | happly
  · refine ⟨fun error' s' herror => ?_, fun s' hok => ?_⟩
    · rw [hrun] at herror
      cases herror
      exact ⟨rfl, rfl⟩
    · rw [hrun] at hok
      cases hok
  · obtain ⟨hadm, prepared, wal, hrecord, hbuffer, hrun⟩ := happly
    obtain ⟨-, hwhole, hrow⟩ := refused_growth_of_admitted hadm
    obtain ⟨h', hboth⟩ := @applyBoth_run sizes s.held m (loggedOp m opType payload) hrow
    rw [(opFits_iff.1 hfits).resolve_left fun hrefused => hrefused hwhole] at hboth
    rw [hboth] at hrun
    refine ⟨fun error' s' herror => ?_, fun s' hok => ?_⟩
    · rw [hrun] at herror
      cases herror
    · rw [hrun] at hok
      cases hok
      exact ⟨rfl, rfl, prepared, congrArg (· ++ [prepared]) hbuffer, hrecord⟩

/-- `applyOp` is all or nothing, and its check suffices, exactly where the op fits. -/
theorem applyOp_allOrNothing_iff (sizes : JsonSizes) (s : ObjectRoom) (m : WalRowMutation)
    (opType : OpType) (payload : Option Row) :
    (AllOrNothing sizes s m opType payload ∧
        AdmissionSuffices sizes s.held m (loggedOp m opType payload)) ↔
      OpFits sizes s.held m (loggedOp m opType payload) :=
  ⟨fun h => admissionSuffices_iff.1 h.2,
    fun h => ⟨allOrNothing_of_opFits h, admissionSuffices_iff.2 h⟩⟩

end

/-! ## A second room narrows the budget -/

/-- The sizes of a row of 100 bytes, and of the op that deletes it. -/
def wideRowSizes : JsonSizes :=
  ⟨fun _ => 100, fun _ => 2, fun _ => 79, fun _ => 166⟩

def wideRow : Row :=
  (∅ : Row).insert "v" (.str (String.ofList (List.replicate 92 'x')))

def putWideRow : WalRowMutation :=
  ⟨"t", "1", some wideRow, ∅, "h"⟩

def deleteWideRow : WalRowMutation :=
  ⟨"t", "1", none, ∅, "h"⟩

def emptyWal : WalWriter :=
  ⟨⟨none, .reject⟩, .durable, none, false, false, 0, false, .healthy, 0, []⟩

/-- Rows before a delete, and after one that throws. -/
def Process.deleting (p : Process) : Option (Nat × Option Nat) :=
  p.rooms[0]?.map fun room =>
    (room.rows.entries.length,
      match (applyOp wideRowSizes deleteWideRow .delete none).run
          ⟨⟨room, p.budget⟩, emptyWal, false⟩ with
      | .ok _ _ => none
      | .error _ s => some s.held.room.rows.entries.length)

/-- The row is gone, and its op refused. -/
theorem applyOp_torn : ∃ (p : Process) (room : RoomState),
    (processMachine wideRowSizes).Reachable p ∧ p.rooms[0]? = some room ∧
      ¬ AllOrNothing wideRowSizes
        ⟨⟨room, p.budget⟩, emptyWal, false⟩ deleteWideRow .delete none := by
  have hrun : ((processMachine wideRowSizes).run
      [.open_ ⟨none, none, .reject⟩, .call 0 (.putRow putWideRow),
        .open_ ⟨some 60, none, .reject⟩]).map Process.deleting = some (some (1, some 0)) := by
    decide +kernel
  obtain ⟨p, hp, hdeleting⟩ := Option.map_eq_some_iff.1 hrun
  obtain ⟨room, hroom, hcounts⟩ := Option.map_eq_some_iff.1 hdeleting
  refine ⟨p, room, Machine.Reachable.of_run hp, hroom, fun hwhole => ?_⟩
  have hbefore : room.rows.entries.length = 1 := congrArg Prod.fst hcounts
  have hafter := congrArg Prod.snd hcounts
  cases hresult : (applyOp wideRowSizes deleteWideRow .delete none).run
      ⟨⟨room, p.budget⟩, emptyWal, false⟩ with
  | ok _ s => simp [hresult] at hafter
  | error error s =>
      have hrows := (hwhole.throws error s hresult).1
      simp only [hresult, Option.some.injEq] at hafter
      rw [hrows] at hafter
      exact absurd (hbefore.symm.trans hafter) (by decide)

end ObjectStorage
end Reflectdb
