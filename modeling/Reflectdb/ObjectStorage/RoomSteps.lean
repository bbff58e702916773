import Reflectdb.ObjectStorage.RoomState

/-!
# Room steps — what each method of a room does

Of the methods that charge for one entry each one either throws and leaves everything as it was, or
moves the counters and writes the entry.  The methods that take a list are runs of such steps.
-/

namespace Reflectdb
namespace ObjectStorage

open Core Client Lib
open Server (OpLogEntry)

/-! ## Charging -/

/-- What `addBytes` throws: only growth is checked. -/
def Held.refused (h : Held) (delta : Int) : Option MemoryError :=
  if 0 < delta then h.refusal delta else none

/-- A method that charges and then writes. -/
def Held.charging (h : Held) (delta : Int) (write : RoomState → RoomState) :
    EStateM.Result MemoryError Held Unit :=
  match h.refused delta with
  | some error => .error error h
  | none => .ok () ((h.post delta).onRoom write)

@[simp] theorem Held.post_zero (h : Held) : h.post 0 = h := by
  simp [Held.post]

@[simp] theorem Held.onRoom_id (h : Held) : h.onRoom id = h :=
  rfl

theorem exceeded_eq_none {limit : Option Nat} {total : Int} :
    exceeded limit total = none ↔ ∀ bytes ∈ limit, total ≤ bytes := by
  cases limit with
  | none => simp [exceeded]
  | some bytes => simp [exceeded, Option.filter]

/-- Totals of the room and of the process that their limits allow. -/
def Held.Within (h : Held) (roomTotal processTotal : Int) : Prop :=
  (∀ bytes ∈ h.room.memory.maxRoomBytes, roomTotal ≤ bytes) ∧
    ∀ bytes ∈ h.budget.limitBytes, processTotal ≤ bytes

theorem Held.Within.mono {h : Held} {room process room' process' : Int}
    (hwithin : h.Within room process) (hroom : room' ≤ room) (hprocess : process' ≤ process) :
    h.Within room' process' :=
  ⟨fun bytes hbytes => hroom.trans (hwithin.1 bytes hbytes),
    fun bytes hbytes => hprocess.trans (hwithin.2 bytes hbytes)⟩

theorem Held.refusal_eq_none {h : Held} {delta : Int} : h.refusal delta = none ↔
    h.Within (h.room.roomBytes + delta) (h.budget.usedBytes + delta) := by
  rw [Held.Within, ← exceeded_eq_none, ← exceeded_eq_none, Held.refusal]
  cases exceeded h.room.memory.maxRoomBytes (h.room.roomBytes + delta) <;> simp

theorem Held.refused_eq_none {h : Held} {delta : Int} : h.refused delta = none ↔
    (0 < delta → h.refusal delta = none) := by
  unfold Held.refused
  split
  · rename_i hdelta
    exact ⟨fun hnone _ => hnone, fun hnone => hnone hdelta⟩
  · rename_i hdelta
    exact ⟨fun _ hpos => absurd hpos hdelta, fun _ => rfl⟩

/-- A part of a growth that fits does. -/
theorem Held.refused_mono {h : Held} {part whole : Int} (hle : part ≤ whole)
    (hfits : h.refused whole = none) : h.refused part = none := by
  rw [Held.refused_eq_none] at hfits ⊢
  intro hpart
  exact Held.refusal_eq_none.2
    ((Held.refusal_eq_none.1 (hfits (by omega))).mono (by omega) (by omega))

/-- Once a part is charged, the rest of a growth that fits does. -/
theorem Held.refused_post {h : Held} {part rest : Int} (hpart : 0 ≤ part)
    (hfits : h.refused (part + rest) = none) : (h.post part).refused rest = none := by
  rw [Held.refused_eq_none] at hfits ⊢
  intro hrest
  have hwhole := Held.refusal_eq_none.1 (hfits (by omega))
  have hroom : ((h.post part).room.roomBytes : Int) = h.room.roomBytes + part :=
    Int.toNat_of_nonneg (by omega)
  have hused : ((h.post part).budget.usedBytes : Int) = h.budget.usedBytes + part :=
    Int.toNat_of_nonneg (by omega)
  exact Held.refusal_eq_none.2 (hwhole.mono (by omega) (by omega))

theorem Held.refused_of_nonpos (h : Held) {delta : Int} (hdelta : delta ≤ 0) :
    h.refused delta = none :=
  if_neg (not_lt.2 hdelta)

theorem Held.charging_of_nonpos (h : Held) {delta : Int} (hdelta : delta ≤ 0)
    (write : RoomState → RoomState) :
    h.charging delta write = .ok () ((h.post delta).onRoom write) := by
  rw [Held.charging, h.refused_of_nonpos hdelta]

theorem addBytes_run (h : Held) (delta : Int) : (addBytes delta).run h = h.charging delta id := by
  by_cases hdelta : 0 < delta
  · cases hrefusal : h.refusal delta <;>
      simp [addBytes, checkBytes, Held.charging, Held.refused, hdelta, hrefusal]
  · simp [addBytes, Held.charging, Held.refused, hdelta]

/-- A throw comes before the write. -/
theorem Held.eq_of_charging_error {h h' : Held} {delta : Int} {write : RoomState → RoomState}
    {error : MemoryError} (hrun : h.charging delta write = .error error h') : h' = h := by
  unfold Held.charging at hrun
  split at hrun
  · cases hrun
    rfl
  · cases hrun

/-! ## Methods that charge for one entry -/

section

variable (sizes : JsonSizes)

/-- What a mutation writes. -/
def RoomState.write (st : RoomState) (m : WalRowMutation) : RoomState :=
  { st with
    rows := m.row.elim (st.rows.erase m.key) fun row =>
      st.rows.insert m.key ⟨row, m.colClocks, m.hlc, sizes.rowBytes m.key row m.colClocks m.hlc⟩ }

/-- By how much a mutation changes what its row is charged. -/
def RoomState.growth (st : RoomState) (m : WalRowMutation) : Int :=
  sizes.mutationBytes m - (st.chargedAt m.key : Nat)

def RoomState.append (st : RoomState) (entry : OpLogEntry) : RoomState :=
  { st with ops := place st.ops ⟨entry, sizes.op entry⟩ }

theorem charge_write_run (h : Held) (delta : Int) (f : RoomState → RoomState) (hlc : Hlc) :
    (do addBytes delta; modify (·.onRoom f); noteHlc hlc : RoomM Unit).run h =
      h.charging delta fun st => (f st).noteHlc hlc := by
  rw [EStateM.run_bind, addBytes_run, Held.charging, Held.charging]
  cases h.refused delta with
  | none => rfl
  | some error => rfl

theorem RoomState.write_of_missing (st : RoomState) (m : WalRowMutation) (hrow : m.row = none)
    (hmissing : st.rows.lookup m.key = none) : st.write sizes m = st := by
  have herase : st.rows.erase m.key = st.rows :=
    AList.ext (List.kerase_of_notMem_keys fun h => AList.lookup_eq_none.1 hmissing h)
  simp [RoomState.write, hrow, herase]

theorem putRow_run (h : Held) (m : WalRowMutation) :
    (putRow sizes m).run h =
      h.charging (h.room.growth sizes m) fun st => (st.write sizes m).noteHlc m.hlc := by
  rcases m with ⟨table, rowId, row, colClocks, hlc⟩
  cases row with
  | some row => exact charge_write_run h _ _ hlc
  | none =>
      cases hprevious : h.room.rows.lookup (table, rowId) with
      | some previous =>
          have hgrowth : h.room.growth sizes ⟨table, rowId, none, colClocks, hlc⟩ =
              -previous.bytes := by
            simp [RoomState.growth, JsonSizes.mutationBytes, RoomState.chargedAt,
              WalRowMutation.key, hprevious]
          have hrun : (putRow sizes ⟨table, rowId, none, colClocks, hlc⟩).run h =
              (do
                addBytes (-previous.bytes)
                modify (·.onRoom fun st => { st with rows := st.rows.erase (table, rowId) })
                noteHlc hlc : RoomM Unit).run h := by
            simp [putRow, WalRowMutation.key, hprevious]
          rw [hrun, hgrowth]
          exact charge_write_run h _ _ hlc
      | none =>
          have hgrowth : h.room.growth sizes ⟨table, rowId, none, colClocks, hlc⟩ = 0 := by
            simp [RoomState.growth, JsonSizes.mutationBytes, RoomState.chargedAt,
              WalRowMutation.key, hprevious]
          have hrun : (putRow sizes ⟨table, rowId, none, colClocks, hlc⟩).run h =
              (noteHlc hlc).run h := by
            simp [putRow, WalRowMutation.key, hprevious]
          rw [hrun, hgrowth, Held.charging_of_nonpos _ le_rfl, Held.post_zero, Held.onRoom,
            RoomState.write_of_missing sizes h.room
              ⟨table, rowId, none, colClocks, hlc⟩ rfl hprevious]
          rfl

theorem appendOp_run (h : Held) (entry : OpLogEntry) :
    (appendOp sizes entry).run h =
      h.charging (sizes.op entry) fun st => (st.append sizes entry).noteHlc entry.hlc :=
  charge_write_run h _ _ entry.hlc

theorem assertCanAdmitApply_run (h : Held) (m : WalRowMutation) (op : Option OpLogEntry) :
    (assertCanAdmitApply sizes m op).run h =
      match h.refused (h.room.growth sizes m + (op.elim 0 sizes.op : Nat)) with
      | some error => .error error h
      | none => .ok () h := by
  have hrun : (assertCanAdmitApply sizes m op).run h =
      (if 0 < h.room.growth sizes m + (op.elim 0 sizes.op : Nat) then
        checkBytes (h.room.growth sizes m + (op.elim 0 sizes.op : Nat))
      else pure () : RoomM Unit).run h := rfl
  rw [hrun, Held.refused]
  split
  · cases hrefusal : h.refusal (h.room.growth sizes m + (op.elim 0 sizes.op : Nat)) <;>
      simp [checkBytes, hrefusal]
  · rfl

end

/-! ## Methods that do not throw -/

theorem refund_run (h : Held) (bytes : Nat) :
    (addBytes (-bytes)).run h = .ok () (h.post (-bytes)) := by
  rw [addBytes_run, Held.charging_of_nonpos _ (by omega), Held.onRoom_id]

theorem refund_if_run (h : Held) (bytes : Nat) :
    (if 0 < bytes then addBytes (-bytes) else pure () : RoomM Unit).run h =
      .ok () (h.post (-bytes)) := by
  split
  · exact refund_run h bytes
  · rename_i hbytes
    rw [Nat.eq_zero_of_not_pos hbytes]
    simp

/-- The ring without the ops below an HLC. -/
def RoomState.cutBefore (st : RoomState) (hlc : Hlc) : RoomState :=
  { st with ops := st.ops.drop (indexBefore st.ops hlc) }

/-- What is refunded for them. -/
def RoomState.freedBefore (st : RoomState) (hlc : Hlc) : Nat :=
  ((st.ops.take (indexBefore st.ops hlc)).map OpEntry.bytes).sum

theorem deleteOpsBefore_run (h : Held) (hlc : Hlc) :
    (deleteOpsBefore hlc).run h =
      .ok (h.room.ops.take (indexBefore h.room.ops hlc)).length
        ((h.post (-(h.room.freedBefore hlc : Nat))).onRoom (·.cutBefore hlc)) := by
  by_cases hcut : indexBefore h.room.ops hlc = 0
  · simp [deleteOpsBefore, hcut, RoomState.freedBefore, RoomState.cutBefore, Held.onRoom]
  · simp only [deleteOpsBefore, EStateM.run_bind, EStateM.run_get, hcut, if_false,
      EStateM.run_modify, refund_run, EStateM.run_pure]
    rfl

/-- The ids that a sweep drops. -/
def RoomState.gone (st : RoomState) (now : Nat) : List String :=
  (st.reserved.entries.filter fun e => expired now e.2).map Sigma.fst

/-- A sweep that is due. -/
def RoomState.sweep (st : RoomState) (now : Nat) : RoomState :=
  { st with
    lastSweepAt := now
    reserved := (st.gone now).foldl (fun ids opId => ids.erase opId) st.reserved }

/-- The state that a call of `sweepReservedOps` leaves. -/
def Held.swept (h : Held) (now : Nat) : Held :=
  if now - h.room.lastSweepAt < OP_ID_SWEEP_INTERVAL_MS then h
  else (h.post (-(((h.room.gone now).map reservationBytes).sum : Nat))).onRoom (·.sweep now)

theorem sweepReservedOps_run (h : Held) (now : Nat) :
    (sweepReservedOps now).run h = .ok () (h.swept now) := by
  by_cases hdue : now - h.room.lastSweepAt < OP_ID_SWEEP_INTERVAL_MS
  · simp [sweepReservedOps, Held.swept, hdue]
  · simp only [sweepReservedOps, EStateM.run_bind, EStateM.run_get, hdue, if_false,
      EStateM.run_modify, Held.swept]
    exact refund_if_run _ ((h.room.gone now).map reservationBytes).sum

/-- The state that `reset` leaves. -/
def Held.cleared (h : Held) : Held :=
  (h.post (-(h.room.roomBytes : Nat))).onRoom fun st =>
    { st with rows := ∅, ops := [], reserved := ∅, highestHlc := none }

theorem reset_run (h : Held) : reset.run h = .ok () h.cleared := by
  simp [reset, refund_run, Held.cleared]

/-! ## Reservations -/

/-- The reservation is written, or its timestamp moved. -/
def RoomState.reserveAt (st : RoomState) (opId : String) (at_ : Nat) : RoomState :=
  { st with reserved := st.reserved.insert opId at_ }

/-- A write that moves no counter leaves the limits as they are. -/
theorem Held.refused_onRoom {h : Held} {write : RoomState → RoomState} {delta : Int}
    (hmemory : (write h.room).memory = h.room.memory)
    (hbytes : (write h.room).roomBytes = h.room.roomBytes) :
    (h.onRoom write).refused delta = h.refused delta := by
  unfold Held.refused Held.refusal Held.onRoom
  simp only [hmemory, hbytes]

/-- A reservation that is refused stays. -/
theorem admit_run (h : Held) (opId : String) (at_ : Nat) :
    (admitOp opId at_).run h =
      (h.onRoom (·.reserveAt opId at_)).charging (reservationBytes opId) id := by
  rw [← addBytes_run]
  rfl

/-- The state with a reservation that fits. -/
def Held.admitted (h : Held) (opId : String) (at_ : Nat) : Held :=
  (h.post (reservationBytes opId)).onRoom (·.reserveAt opId at_)

theorem admit_run_of_fits {h : Held} {opId : String}
    (hfits : h.refused (reservationBytes opId) = none) (at_ : Nat) :
    (admitOp opId at_).run h = .ok () (h.admitted opId at_) := by
  have hsame : (h.onRoom (·.reserveAt opId at_)).refused (reservationBytes opId) = none :=
    (Held.refused_onRoom rfl rfl).trans hfits
  rw [admit_run, Held.charging, hsame]
  rfl

theorem reserveEach_run_of_mem {h : Held} {opId : String} (hold : opId ∈ h.room.reserved)
    (now : Nat) (opIds : List String) :
    (reserveEach now (opId :: opIds)).run h = (reserveEach now opIds).run h := by
  simp [reserveEach, hold]

theorem reserveEach_run_of_fits {h h' : Held} {opId : String}
    {opIds fresh : List String} {now : Nat}
    (hnew : opId ∉ h.room.reserved) (hfits : h.refused (reservationBytes opId) = none)
    (hrun : (reserveEach now opIds).run (h.admitted opId now) = .ok fresh h') :
    (reserveEach now (opId :: opIds)).run h = .ok (opId :: fresh) h' := by
  simp only [reserveEach, EStateM.run_bind, EStateM.run_get, if_neg hnew,
    admit_run_of_fits hfits now, hrun, EStateM.run_pure]

section Restoring

variable {h : Held} {opId : String} {at_ : Nat}

theorem restoreEach_run_of_fits (hnew : h.room.reserved.lookup opId = none)
    (hfits : h.refused (reservationBytes opId) = none) (opIds : List String) :
    (restoreEach at_ (opId :: opIds)).run h =
      (restoreEach at_ opIds).run (h.admitted opId at_) := by
  simp only [restoreEach, EStateM.run_bind, EStateM.run_get, hnew, admit_run_of_fits hfits at_]

theorem restoreEach_run_of_earlier {existing : Nat}
    (hold : h.room.reserved.lookup opId = some existing) (hearlier : at_ < existing)
    (opIds : List String) :
    (restoreEach at_ (opId :: opIds)).run h =
      (restoreEach at_ opIds).run (h.onRoom (·.reserveAt opId at_)) := by
  simp only [restoreEach, EStateM.run_bind, EStateM.run_get, hold, if_pos hearlier,
    EStateM.run_modify]
  rfl

theorem restoreEach_run_of_later {existing : Nat}
    (hold : h.room.reserved.lookup opId = some existing) (hlater : existing ≤ at_)
    (opIds : List String) :
    (restoreEach at_ (opId :: opIds)).run h = (restoreEach at_ opIds).run h := by
  simp only [restoreEach, EStateM.run_bind, EStateM.run_get, hold, if_neg (not_lt.2 hlater)]

end Restoring

end ObjectStorage
end Reflectdb
