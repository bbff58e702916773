import Reflectdb.ObjectStorage.Accounting

/-!
# Process — the rooms of a process under one budget

Rooms are opened with limits of their own, each open may narrow the budget, and the methods of the
rooms are called in any order.  While the reservations fit the limits, every counter is the sum of
the charges, and a method that throws has changed nothing.
-/

namespace Reflectdb
namespace ObjectStorage

open Core Client Lib
open Server (OpLogEntry)

/-! ## Model -/

/-- A call on a room, with the readings of the clock. -/
inductive RoomCall
  | putRow (m : WalRowMutation)
  | appendOp (entry : OpLogEntry)
  | reserveOp (opId : String) (sweptAt now : Nat)
  | reserveOps (opIds : List String) (sweptAt now : Nat)
  | restoreReservations (opIds : List String) (at_ now : Nat)
  | applyRecord (record : WalRecord) (now : Nat)
  | deleteOpsBefore (hlc : Hlc)
  | sweepReservedOps (now : Nat)
  | setMeta (key value : String)
  | loadMeta (pairs : Record String)
  | loadSnapshot (record : SnapshotRecord) (now : Nat)
  | dispose

def RoomCall.run (sizes : JsonSizes) : RoomCall → RoomM Unit
  | .putRow m => ObjectStorage.putRow sizes m
  | .appendOp entry => ObjectStorage.appendOp sizes entry
  | .reserveOp opId sweptAt now => do let _ ← ObjectStorage.reserveOp opId sweptAt now
  | .reserveOps opIds sweptAt now => do let _ ← ObjectStorage.reserveOps opIds sweptAt now
  | .restoreReservations opIds at_ now => ObjectStorage.restoreReservations opIds at_ now
  | .applyRecord record now => ObjectStorage.applyRecord sizes record now
  | .deleteOpsBefore hlc => do let _ ← ObjectStorage.deleteOpsBefore hlc
  | .sweepReservedOps now => ObjectStorage.sweepReservedOps now
  | .setMeta key value => ObjectStorage.setMeta key value
  | .loadMeta pairs => ObjectStorage.loadMeta pairs
  | .loadSnapshot record now => ObjectStorage.loadSnapshot sizes record now
  | .dispose => reset

structure Process where
  rooms : List RoomState
  budget : Budget

inductive ProcessEvent
  | open_ (memory : MemoryConfig)
  | call (room : Nat) (c : RoomCall)

/-- What a call leaves of its room and of the budget. -/
def Process.call (sizes : JsonSizes) (p : Process) (i : Nat) (room : RoomState) (c : RoomCall) :
    Process :=
  let h := left ((c.run sizes).run ⟨room, p.budget⟩)
  ⟨p.rooms.set i h.room, h.budget⟩

def processMachine (sizes : JsonSizes) : Machine Process ProcessEvent where
  init := ⟨[], none, 0⟩
  step p
    | .open_ memory =>
      some ⟨p.rooms ++ [.empty memory], p.budget.constrain memory.maxTotalBytes⟩
    | .call i c => p.rooms[i]?.map fun room => p.call sizes i room c

/-! ## Calls whose reservations fit -/

/-- The reservations that the call makes fit the limits, and are charged once each. -/
def RoomCall.Fits (sizes : JsonSizes) : RoomCall → Held → Prop
  | .reserveOp opId sweptAt _, h => (h.swept sweptAt).Affords [opId]
  | .reserveOps opIds sweptAt _, h => (h.swept sweptAt).Affords opIds
  | .restoreReservations opIds at_ now, h => expired now at_ = true ∨ h.Affords opIds
  | .applyRecord (.reserve opIds stamp) now, h => expired now stamp = true ∨ h.Affords opIds
  | .loadSnapshot record now, h => h.AdmitsSnapshot sizes record now
  | _, _ => True

instance (sizes : JsonSizes) (h : Held) (record : SnapshotRecord) (now : Nat) :
    Decidable (h.AdmitsSnapshot sizes record now) := by
  unfold Held.AdmitsSnapshot
  split <;> infer_instance

instance (sizes : JsonSizes) (c : RoomCall) (h : Held) : Decidable (c.Fits sizes h) := by
  unfold RoomCall.Fits
  split <;> infer_instance

/-- The methods that promise to leave everything as it was when they throw. -/
def RoomCall.IsAtomic : RoomCall → Prop
  | .putRow _ => True
  | .appendOp _ => True
  | .reserveOp _ _ _ => True
  | .reserveOps _ _ _ => True
  | .restoreReservations _ _ _ => True
  | _ => False

section

variable {sizes : JsonSizes} {others : Nat} {h : Held}

theorem reserveOp_of_affords (hb : h.Balanced sizes others) {opId : String} {sweptAt : Nat}
    (hfits : (h.swept sweptAt).Affords [opId]) (now : Nat) :
    ∃ fresh h', (reserveOp opId sweptAt now).run h = .ok fresh h' ∧ h'.Balanced sizes others := by
  rw [reserveOp, EStateM.run_bind, sweepReservedOps_run]
  by_cases hold : opId ∈ (h.swept sweptAt).room.reserved
  · exact ⟨false, _, by simp [hold], hb.swept sweptAt⟩
  · have hadm := (hfits.cons hold now).1
    refine ⟨true, _, ?_, (hb.swept sweptAt).admitted hold now⟩
    simp only [EStateM.run_bind, EStateM.run_get, if_neg hold, admit_run_of_fits hadm now,
      EStateM.run_pure]

theorem reserveOps_of_affords (hb : h.Balanced sizes others) {opIds : List String} {sweptAt : Nat}
    (hfits : (h.swept sweptAt).Affords opIds) (now : Nat) :
    ∃ fresh h', (reserveOps opIds sweptAt now).run h = .ok fresh h' ∧
      h'.Balanced sizes others := by
  by_cases hnil : opIds = []
  · exact ⟨[], h, by simp [reserveOps, hnil], hb⟩
  · obtain ⟨fresh, h', hrun, hb'⟩ := reserveEach_of_affords now (hb.swept sweptAt) hfits
    refine ⟨fresh, h', ?_, hb'⟩
    simp only [reserveOps, if_neg hnil, EStateM.run_bind, sweepReservedOps_run, hrun]

theorem restoreReservations_of_affords (hb : h.Balanced sizes others) {opIds : List String}
    {at_ now : Nat} (hfits : expired now at_ = true ∨ h.Affords opIds) :
    ∃ h', (restoreReservations opIds at_ now).run h = .ok () h' ∧ h'.Balanced sizes others := by
  cases hexpired : expired now at_ with
  | true => exact ⟨h, by simp [restoreReservations, hexpired], hb⟩
  | false =>
      obtain ⟨h', hrun, hb'⟩ :=
        restoreEach_of_affords at_ hb (hfits.resolve_left (by simp [hexpired]))
      exact ⟨h', by simpa [restoreReservations, hexpired] using hrun, hb'⟩

/-- Every call whose reservations fit keeps the books. -/
theorem RoomCall.balanced {c : RoomCall} (hb : h.Balanced sizes others) (hfits : c.Fits sizes h) :
    (left ((c.run sizes).run h)).Balanced sizes others := by
  cases c with
  | putRow m => exact hb.putRow m
  | appendOp entry => exact hb.appendOp entry
  | reserveOp opId sweptAt now =>
      obtain ⟨_, h', hrun, hb'⟩ := reserveOp_of_affords hb hfits now
      rw [RoomCall.run, EStateM.run_bind, hrun]
      exact hb'
  | reserveOps opIds sweptAt now =>
      obtain ⟨_, h', hrun, hb'⟩ := reserveOps_of_affords hb hfits now
      rw [RoomCall.run, EStateM.run_bind, hrun]
      exact hb'
  | restoreReservations opIds at_ now =>
      obtain ⟨h', hrun, hb'⟩ := restoreReservations_of_affords hb hfits
      rw [RoomCall.run, hrun]
      exact hb'
  | applyRecord record now =>
      cases record with
      | row m => exact hb.putRow m
      | op entry => exact hb.appendOp entry
      | apply m entry => exact left_bind (hb.putRow m) fun _ _ hb' => hb'.appendOp entry
      | reserve opIds stamp =>
          obtain ⟨h', hrun, hb'⟩ := restoreReservations_of_affords hb hfits
          rw [RoomCall.run, ObjectStorage.applyRecord, hrun]
          exact hb'
  | deleteOpsBefore hlc =>
      rw [RoomCall.run, left_discard]
      exact hb.deleteOpsBefore hlc
  | sweepReservedOps now =>
      rw [RoomCall.run, sweepReservedOps_run]
      exact hb.swept now
  | setMeta key value =>
      have hset : (h.onRoom fun st => { st with meta_ := st.meta_.insert key value }).Balanced
          sizes others := hb.onRoom rfl rfl (hb.sized.of_eq rfl rfl)
      exact hset
  | loadMeta pairs =>
      have hload : (h.onRoom fun st => { st with meta_ := pairs }).Balanced sizes others :=
        hb.onRoom rfl rfl (hb.sized.of_eq rfl rfl)
      exact hload
  | loadSnapshot record now => exact hb.loadSnapshot hfits
  | dispose =>
      rw [RoomCall.run, reset_run]
      exact hb.cleared

/-- A call that throws has changed nothing. -/
theorem RoomCall.eq_of_error {c : RoomCall} (hatomic : c.IsAtomic) (hb : h.Balanced sizes others)
    (hfits : c.Fits sizes h) {error : MemoryError} {h' : Held}
    (hrun : (c.run sizes).run h = .error error h') : h' = h := by
  cases c with
  | putRow m =>
      rw [RoomCall.run, putRow_run] at hrun
      exact Held.eq_of_charging_error hrun
  | appendOp entry =>
      rw [RoomCall.run, appendOp_run] at hrun
      exact Held.eq_of_charging_error hrun
  | reserveOp opId sweptAt now =>
      obtain ⟨_, _, hok, _⟩ := reserveOp_of_affords hb hfits now
      rw [RoomCall.run, EStateM.run_bind, hok] at hrun
      cases hrun
  | reserveOps opIds sweptAt now =>
      obtain ⟨_, _, hok, _⟩ := reserveOps_of_affords hb hfits now
      rw [RoomCall.run, EStateM.run_bind, hok] at hrun
      cases hrun
  | restoreReservations opIds at_ now =>
      obtain ⟨_, hok, _⟩ := restoreReservations_of_affords hb hfits
      rw [RoomCall.run, hok] at hrun
      cases hrun
  | _ => cases hatomic

end

/-! ## Runs -/

/-- Every counter is the sum of the charges. -/
structure Process.Booked (sizes : JsonSizes) (p : Process) : Prop where
  room : ∀ room ∈ p.rooms, room.Sized sizes ∧ room.roomBytes = room.charges
  budget : p.budget.usedBytes = (p.rooms.map RoomState.roomBytes).sum

/-- The reservations of a call fit, in the state of its room. -/
def ReservationsFit (sizes : JsonSizes) (p : Process) : ProcessEvent → Prop
  | .open_ _ => True
  | .call i c => ∀ room ∈ p.rooms[i]?, c.Fits sizes ⟨room, p.budget⟩

instance (sizes : JsonSizes) (p : Process) (e : ProcessEvent) :
    Decidable (ReservationsFit sizes p e) := by
  unfold ReservationsFit
  split <;> infer_instance

namespace Process.Booked

variable {sizes : JsonSizes} {p p' : Process}

theorem start : Process.Booked sizes (processMachine sizes).init :=
  ⟨fun _ hroom => absurd hroom List.not_mem_nil, rfl⟩

/-- One room among the others. -/
theorem balanced (hp : p.Booked sizes) {front back : List RoomState} {room : RoomState}
    (hrooms : p.rooms = front ++ room :: back) :
    Held.Balanced sizes ((front.map RoomState.roomBytes).sum + (back.map RoomState.roomBytes).sum)
      ⟨room, p.budget⟩ := by
  have hroom := hp.room room (by simp [hrooms])
  have hbudget := hp.budget
  rw [hrooms, List.map_append, List.sum_append, List.map_cons, List.sum_cons] at hbudget
  refine ⟨hroom.1, hroom.2, ?_⟩
  show p.budget.usedBytes = room.roomBytes + _
  omega

theorem open_ (hp : p.Booked sizes) (memory : MemoryConfig) :
    Process.Booked sizes
      ⟨p.rooms ++ [.empty memory], p.budget.constrain memory.maxTotalBytes⟩ where
  room := by
    intro room hroom
    rcases List.mem_append.1 hroom with hroom | hroom
    · exact hp.room room hroom
    · rw [List.mem_singleton.1 hroom]
      refine ⟨⟨fun key entry hentry => ?_, fun op hop => ?_⟩, rfl⟩
      · cases hentry
      · cases hop
  budget := by
    have hused : (p.budget.constrain memory.maxTotalBytes).usedBytes = p.budget.usedBytes := by
      unfold Budget.constrain
      split <;> rfl
    rw [hused, hp.budget, List.map_append, List.sum_append]
    rfl

theorem call (hp : p.Booked sizes) {i : Nat} {room : RoomState} {c : RoomCall}
    (hroom : p.rooms[i]? = some room) (hfits : c.Fits sizes ⟨room, p.budget⟩) :
    (p.call sizes i room c).Booked sizes := by
  obtain ⟨hi, hget⟩ := List.getElem?_eq_some_iff.1 hroom
  have hrooms : p.rooms = p.rooms.take i ++ room :: p.rooms.drop (i + 1) := by
    rw [← hget, List.getElem_cons_drop, List.take_append_drop]
  have hb := RoomCall.balanced (hp.balanced hrooms) hfits
  have hset : (p.call sizes i room c).rooms =
      p.rooms.take i ++ (left ((c.run sizes).run ⟨room, p.budget⟩)).room :: p.rooms.drop (i + 1) :=
    List.set_eq_take_append_cons_drop.trans (if_pos hi)
  refine ⟨fun room' hroom' => ?_, ?_⟩
  · rw [hset] at hroom'
    rcases List.mem_append.1 hroom' with hfront | hback
    · exact hp.room room' (List.mem_of_mem_take hfront)
    · rcases List.mem_cons.1 hback with rfl | hback
      · exact ⟨hb.sized, hb.room⟩
      · exact hp.room room' (List.mem_of_mem_drop hback)
  · have hprocess := hb.process
    rw [hset, List.map_append, List.sum_append, List.map_cons, List.sum_cons]
    show (left ((c.run sizes).run ⟨room, p.budget⟩)).budget.usedBytes = _
    omega

theorem step (hp : p.Booked sizes) {e : ProcessEvent} (hfits : ReservationsFit sizes p e)
    (hstep : (processMachine sizes).step p e = some p') : p'.Booked sizes := by
  cases e with
  | open_ memory =>
      cases hstep
      exact hp.open_ memory
  | call i c =>
      obtain ⟨room, hroom, rfl⟩ := Option.map_eq_some_iff.1 hstep
      exact hp.call hroom (hfits room hroom)

end Process.Booked

/-- In the runs in which the reservations fit, the counters of the rooms and of the process are the
sums of the charges, and a call that throws has changed nothing. -/
theorem booked_of_reservationsFit {sizes : JsonSizes} {p : Process}
    (h : (processMachine sizes).Reach (ReservationsFit sizes) p) :
    p.Booked sizes ∧
      ∀ i room c error h', p.rooms[i]? = some room → c.IsAtomic →
        ReservationsFit sizes p (.call i c) →
        (c.run sizes).run ⟨room, p.budget⟩ = .error error h' → h' = ⟨room, p.budget⟩ := by
  have hp : p.Booked sizes := h.invariant .start fun hp hfits hstep => hp.step hfits hstep
  refine ⟨hp, fun i room c error h' hroom hatomic hfits hrun => ?_⟩
  obtain ⟨hi, hget⟩ := List.getElem?_eq_some_iff.1 hroom
  have hrooms : p.rooms = p.rooms.take i ++ room :: p.rooms.drop (i + 1) := by
    rw [← hget, List.getElem_cons_drop, List.take_append_drop]
  exact RoomCall.eq_of_error hatomic (hp.balanced hrooms) (hfits room hroom) hrun

/-! ## A room of 100 bytes -/

/-- The sizes of `{}`, of the op below and of its record. -/
def emptyRowSizes : JsonSizes :=
  ⟨fun _ => 2, fun _ => 2, fun _ => 77, fun _ => 162⟩

/-- An insert of an empty row. -/
def insertEmptyRow : WalRowMutation :=
  ⟨"t", "1", some ∅, ∅, "h"⟩

def insertOp : OpLogEntry :=
  ⟨"t", .insert, "1", some ∅, "h", ∅⟩

def roomOf (bytes : Nat) : ProcessEvent :=
  .open_ ⟨none, some bytes, .reject⟩

/-- The counters, the charges and what a further call throws. -/
def Process.summary (sizes : JsonSizes) (c : RoomCall) (p : Process) :
    List (Nat × Nat) × Option MemoryError :=
  (p.rooms.map fun room => (room.roomBytes, room.charges),
    p.rooms[0]?.bind fun room => thrown ((c.run sizes).run ⟨room, p.budget⟩))

theorem booked_rowAndReservation : ∃ (p : Process) (room : RoomState) (error : MemoryError)
    (h' : Held), p.Booked emptyRowSizes ∧
    p.rooms[0]? = some room ∧
      (appendOp emptyRowSizes insertOp).run ⟨room, p.budget⟩ = .error error h' ∧
        h' = ⟨room, p.budget⟩ := by
  have hrun : ((processMachine emptyRowSizes).runWith
      (fun p e => decide (ReservationsFit emptyRowSizes p e)) (processMachine emptyRowSizes).init
        [roomOf 100, .call 0 (.putRow insertEmptyRow), .call 0 (.reserveOp "a" 0 0)]).map
          (Process.summary emptyRowSizes (.appendOp insertOp)) =
      some ([(32, 32)], some (.limitExceeded 109 100)) := by
    decide +kernel
  obtain ⟨p, hp, hsummary⟩ := Option.map_eq_some_iff.1 hrun
  have hreach := Machine.Reach.of_runWith (fun _ _ h => of_decide_eq_true h) .init hp
  obtain ⟨room, hroom, hthrown⟩ := Option.bind_eq_some_iff.1 (congrArg Prod.snd hsummary)
  obtain ⟨h', herror⟩ := thrown_eq_some.1 hthrown
  have hclaim := booked_of_reservationsFit hreach
  exact ⟨p, room, _, h', hclaim.1, hroom, herror,
    hclaim.2 0 room (.appendOp insertOp) _ h' hroom trivial (fun _ _ => trivial) herror⟩

/-- The second id does not fit, and stays. -/
theorem not_booked_reserveOp : ∃ p, (processMachine emptyRowSizes).Reachable p ∧
    ¬ p.Booked emptyRowSizes := by
  have hrun : ((processMachine emptyRowSizes).run
      [roomOf 30, .call 0 (.reserveOp "a" 0 0), .call 0 (.reserveOp "b" 0 0)]).map
        (Process.summary emptyRowSizes .dispose) = some ([(25, 50)], none) := by
    decide +kernel
  obtain ⟨p, hp, hsummary⟩ := Option.map_eq_some_iff.1 hrun
  refine ⟨p, Machine.Reachable.of_run hp, fun hbooked => ?_⟩
  have hcounts : p.rooms.map (fun room => (room.roomBytes, room.charges)) = [(25, 50)] :=
    congrArg Prod.fst hsummary
  obtain ⟨room, hroom, hcount⟩ := List.mem_map.1 (hcounts ▸ List.mem_singleton_self (25, 50))
  have hequal := (hbooked.room room hroom).2
  have hbytes : room.roomBytes = 25 := congrArg Prod.fst hcount
  have hcharges : room.charges = 50 := congrArg Prod.snd hcount
  omega

end ObjectStorage
end Reflectdb
