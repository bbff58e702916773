import Mathlib.Algebra.BigOperators.Group.Finset.Basic
import Reflectdb.Lib.Machine
import Reflectdb.Lib.Throwing
import Reflectdb.Lib.Totals
import Reflectdb.ObjectStorage.RoomSteps

/-!
# Accounting — the counters of the rooms and of the process

A room's counter is the sum of the charges of its rows, ops and reservations, and the budget of the
process the sum over its rooms.  A reservation that is refused stays in its room uncharged, so this
holds of the runs in which the reservations fit.
-/

namespace Reflectdb
namespace ObjectStorage

open Core Client Lib
open Server (OpLogEntry)

/-! ## Charges -/

namespace RoomState

def rowCharges (st : RoomState) : Nat :=
  total (fun _ entry => entry.bytes) st.rows

def opCharges (st : RoomState) : Nat :=
  (st.ops.map OpEntry.bytes).sum

def reservationCharges (st : RoomState) : Nat :=
  total (fun opId _ => reservationBytes opId) st.reserved

/-- The charges of all entries that the room holds. -/
def charges (st : RoomState) : Nat :=
  st.rowCharges + st.opCharges + st.reservationCharges

/-- Rows and ops are charged the size of what they hold. -/
structure Sized (sizes : JsonSizes) (st : RoomState) : Prop where
  rows : ∀ key entry, st.rows.lookup key = some entry →
    entry.bytes = sizes.rowBytes key entry.row entry.colClocks entry.hlc
  ops : ∀ op ∈ st.ops, op.bytes = sizes.op op.entry

end RoomState

theorem place_perm (ops : List OpEntry) (item : OpEntry) : (place ops item).Perm (item :: ops) := by
  unfold place
  split
  · exact List.perm_append_singleton item ops
  · have hmiddle : (ops.take (indexAfter ops item.entry.hlc) ++
        item :: ops.drop (indexAfter ops item.entry.hlc)).Perm
          (item :: (ops.take (indexAfter ops item.entry.hlc) ++
            ops.drop (indexAfter ops item.entry.hlc))) := List.perm_middle
    rwa [List.take_append_drop] at hmiddle

section

variable {sizes : JsonSizes} {st : RoomState}

theorem charges_write (m : WalRowMutation) :
    ((st.write sizes m).charges : Int) = st.charges + st.growth sizes m := by
  have hat : st.chargedAt m.key =
      sizeAt (fun _ (entry : RowEntry) => entry.bytes) st.rows m.key := rfl
  have hrows : (st.write sizes m).rowCharges + st.chargedAt m.key =
      st.rowCharges + sizes.mutationBytes m := by
    rw [hat]
    cases hrow : m.row with
    | none =>
        have herase := total_erase (fun _ (entry : RowEntry) => entry.bytes) st.rows m.key
        simpa [RoomState.rowCharges, RoomState.write, JsonSizes.mutationBytes, hrow] using herase
    | some row =>
        have hinsert := total_insert (fun _ (entry : RowEntry) => entry.bytes) st.rows m.key
          ⟨row, m.colClocks, m.hlc, sizes.rowBytes m.key row m.colClocks m.hlc⟩
        simpa [RoomState.rowCharges, RoomState.write, JsonSizes.mutationBytes, hrow] using hinsert
  have hops : (st.write sizes m).opCharges = st.opCharges := rfl
  have hreserved : (st.write sizes m).reservationCharges = st.reservationCharges := rfl
  simp only [RoomState.charges, RoomState.growth, hops, hreserved]
  omega

theorem charges_append (entry : OpLogEntry) :
    (st.append sizes entry).charges = st.charges + sizes.op entry := by
  have hops : (st.append sizes entry).opCharges = st.opCharges + sizes.op entry := by
    calc
      ((place st.ops ⟨entry, sizes.op entry⟩).map OpEntry.bytes).sum
          = ((⟨entry, sizes.op entry⟩ :: st.ops).map OpEntry.bytes).sum :=
            ((place_perm _ _).map OpEntry.bytes).sum_eq
      _ = st.opCharges + sizes.op entry := by
            rw [List.map_cons, List.sum_cons, Nat.add_comm]
            rfl
  have hrows : (st.append sizes entry).rowCharges = st.rowCharges := rfl
  have hreserved : (st.append sizes entry).reservationCharges = st.reservationCharges := rfl
  simp only [RoomState.charges, hops, hrows, hreserved]
  omega

theorem charges_cutBefore (hlc : Hlc) :
    (st.cutBefore hlc).charges + st.freedBefore hlc = st.charges := by
  have hops : (st.cutBefore hlc).opCharges + st.freedBefore hlc = st.opCharges := by
    have hsplit : ((st.ops.take (indexBefore st.ops hlc) ++
        st.ops.drop (indexBefore st.ops hlc)).map OpEntry.bytes).sum = st.opCharges := by
      rw [List.take_append_drop]
      rfl
    rw [← hsplit, List.map_append, List.sum_append, Nat.add_comm]
    rfl
  have hrows : (st.cutBefore hlc).rowCharges = st.rowCharges := rfl
  have hreserved : (st.cutBefore hlc).reservationCharges = st.reservationCharges := rfl
  simp only [RoomState.charges, hrows, hreserved]
  omega

theorem charges_sweep (now : Nat) :
    (st.sweep now).charges + ((st.gone now).map reservationBytes).sum = st.charges := by
  have hsub : (st.gone now).Sublist (st.reserved.entries.map Sigma.fst) :=
    List.filter_sublist.map Sigma.fst
  have hmem : ∀ opId ∈ st.gone now, opId ∈ st.reserved := fun opId h => hsub.subset h
  have hreserved := total_foldl_erase reservationBytes
    (List.Nodup.sublist hsub st.reserved.nodupKeys) hmem
  simp only [RoomState.charges]
  have hrows : (st.sweep now).rowCharges = st.rowCharges := rfl
  have hops : (st.sweep now).opCharges = st.opCharges := rfl
  have hrest : (st.sweep now).reservationCharges + ((st.gone now).map reservationBytes).sum =
      st.reservationCharges := hreserved
  omega

theorem charges_reserveAt {opId : String} (h : opId ∉ st.reserved) (at_ : Nat) :
    (st.reserveAt opId at_).charges = st.charges + reservationBytes opId := by
  have hreserved : (st.reserveAt opId at_).reservationCharges =
      st.reservationCharges + reservationBytes opId :=
    total_insert_of_notMem _ h at_
  have hrows : (st.reserveAt opId at_).rowCharges = st.rowCharges := rfl
  have hops : (st.reserveAt opId at_).opCharges = st.opCharges := rfl
  simp only [RoomState.charges, hreserved, hrows, hops]
  omega

/-- Moving a timestamp charges nothing. -/
theorem charges_restamp {opId : String} (h : opId ∈ st.reserved) (at_ : Nat) :
    (st.reserveAt opId at_).charges = st.charges := by
  have hsize : sizeAt (fun opId (_ : Nat) => reservationBytes opId) st.reserved opId =
      reservationBytes opId := by
    obtain ⟨old, hold⟩ := Option.isSome_iff_exists.1 (AList.lookup_isSome.2 h)
    rw [sizeAt, hold]
    rfl
  have hreserved : (st.reserveAt opId at_).reservationCharges = st.reservationCharges := by
    have hinsert := total_insert (fun opId (_ : Nat) => reservationBytes opId)
      st.reserved opId at_
    rw [hsize] at hinsert
    exact Nat.add_right_cancel hinsert
  have hrows : (st.reserveAt opId at_).rowCharges = st.rowCharges := rfl
  have hops : (st.reserveAt opId at_).opCharges = st.opCharges := rfl
  simp only [RoomState.charges, hreserved, hrows, hops]

end

/-! ## Sizes -/

section

variable {sizes : JsonSizes} {st : RoomState}

/-- Only rows and ops count. -/
theorem RoomState.Sized.of_eq {st' : RoomState} (h : st.Sized sizes) (hrows : st'.rows = st.rows)
    (hops : st'.ops = st.ops) : st'.Sized sizes :=
  ⟨hrows ▸ h.rows, hops ▸ h.ops⟩

theorem RoomState.Sized.write (h : st.Sized sizes) (m : WalRowMutation) :
    (st.write sizes m).Sized sizes where
  ops := h.ops
  rows := by
    intro key entry hentry
    cases hrow : m.row with
    | none =>
        have herase : (st.write sizes m).rows = st.rows.erase m.key := by
          simp [RoomState.write, hrow]
        rw [herase] at hentry
        by_cases hkey : key = m.key
        · subst hkey
          rw [AList.lookup_erase] at hentry
          cases hentry
        · rw [AList.lookup_erase_ne hkey] at hentry
          exact h.rows key entry hentry
    | some row =>
        have hinsert : (st.write sizes m).rows = st.rows.insert m.key
            ⟨row, m.colClocks, m.hlc, sizes.rowBytes m.key row m.colClocks m.hlc⟩ := by
          simp [RoomState.write, hrow]
        rw [hinsert] at hentry
        by_cases hkey : key = m.key
        · subst hkey
          rw [AList.lookup_insert] at hentry
          cases hentry
          rfl
        · rw [AList.lookup_insert_ne hkey] at hentry
          exact h.rows key entry hentry

theorem RoomState.Sized.append (h : st.Sized sizes) (entry : OpLogEntry) :
    (st.append sizes entry).Sized sizes where
  rows := h.rows
  ops := by
    intro op hop
    rcases List.mem_cons.1 ((place_perm _ _).subset hop) with rfl | hop
    · rfl
    · exact h.ops op hop

end

/-! ## Balanced rooms -/

/-- The counters are right, where `others` is what the other rooms of the process are charged. -/
structure Held.Balanced (sizes : JsonSizes) (others : Nat) (h : Held) : Prop where
  sized : h.room.Sized sizes
  room : h.room.roomBytes = h.room.charges
  process : h.budget.usedBytes = h.room.roomBytes + others

namespace Held.Balanced

variable {sizes : JsonSizes} {others : Nat} {h : Held}

/-- The counters move with the charges. -/
theorem post (hb : h.Balanced sizes others) {delta : Int} {write : RoomState → RoomState}
    (hbytes : (write (h.post delta).room).roomBytes = (h.post delta).room.roomBytes)
    (hcharges : ((write (h.post delta).room).charges : Int) = h.room.charges + delta)
    (hsized : (write (h.post delta).room).Sized sizes) :
    ((h.post delta).onRoom write).Balanced sizes others := by
  have hroom := hb.room
  have hprocess := hb.process
  have hpost : (h.post delta).room.roomBytes = (h.room.roomBytes + delta).toNat := rfl
  have hused : (h.post delta).budget.usedBytes = (h.budget.usedBytes + delta).toNat := rfl
  refine ⟨hsized, ?_, ?_⟩
  · show (write (h.post delta).room).roomBytes = (write (h.post delta).room).charges
    omega
  · show (h.post delta).budget.usedBytes = (write (h.post delta).room).roomBytes + others
    omega

/-- What does not move the charges may be written for nothing. -/
theorem onRoom (hb : h.Balanced sizes others) {write : RoomState → RoomState}
    (hbytes : (write h.room).roomBytes = h.room.roomBytes)
    (hcharges : (write h.room).charges = h.room.charges) (hsized : (write h.room).Sized sizes) :
    (h.onRoom write).Balanced sizes others where
  sized := hsized
  room := by
    show (write h.room).roomBytes = (write h.room).charges
    rw [hbytes, hcharges, hb.room]
  process := by
    show h.budget.usedBytes = (write h.room).roomBytes + others
    rw [hbytes, hb.process]

theorem charging (hb : h.Balanced sizes others) {delta : Int} {write : RoomState → RoomState}
    (hbytes : (write (h.post delta).room).roomBytes = (h.post delta).room.roomBytes)
    (hcharges : ((write (h.post delta).room).charges : Int) = h.room.charges + delta)
    (hsized : (write (h.post delta).room).Sized sizes) :
    (left (h.charging delta write)).Balanced sizes others := by
  unfold Held.charging
  split
  · exact hb
  · exact hb.post hbytes hcharges hsized

theorem putRow (hb : h.Balanced sizes others) (m : WalRowMutation) :
    (left ((putRow sizes m).run h)).Balanced sizes others := by
  rw [putRow_run]
  exact hb.charging rfl (charges_write m) ((hb.sized.write m).of_eq rfl rfl)

theorem appendOp (hb : h.Balanced sizes others) (entry : OpLogEntry) :
    (left ((appendOp sizes entry).run h)).Balanced sizes others := by
  rw [appendOp_run]
  have happend := @charges_append sizes h.room entry
  refine hb.charging rfl ?_ ((hb.sized.append entry).of_eq rfl rfl)
  show ((h.room.append sizes entry).charges : Int) = _
  omega

theorem deleteOpsBefore (hb : h.Balanced sizes others) (hlc : Hlc) :
    (left ((deleteOpsBefore hlc).run h)).Balanced sizes others := by
  rw [deleteOpsBefore_run, left]
  have hcut := @charges_cutBefore h.room hlc
  have hsized : (h.room.cutBefore hlc).Sized sizes :=
    ⟨hb.sized.rows, fun op hop => hb.sized.ops op (List.mem_of_mem_drop hop)⟩
  refine hb.post rfl ?_ (hsized.of_eq rfl rfl)
  show ((h.room.cutBefore hlc).charges : Int) = _
  omega

theorem swept (hb : h.Balanced sizes others) (now : Nat) : (h.swept now).Balanced sizes others := by
  unfold Held.swept
  split
  · exact hb
  · have hsweep := @charges_sweep h.room now
    refine hb.post rfl ?_ ⟨hb.sized.rows, hb.sized.ops⟩
    show ((h.room.sweep now).charges : Int) = _
    omega

theorem cleared (hb : h.Balanced sizes others) : h.cleared.Balanced sizes others := by
  have hroom := hb.room
  refine hb.post rfl ?_ ⟨fun key entry hentry => ?_, fun op hop => ?_⟩
  · show (0 : Int) = _
    omega
  · cases hentry
  · cases hop

end Held.Balanced

/-! ## Reservations that fit -/

/-- What reserving the ids charges: those that are not reserved yet, each once. -/
def RoomState.freshBytes (st : RoomState) (opIds : List String) : Nat :=
  ∑ opId ∈ opIds.toFinset with opId ∉ st.reserved, reservationBytes opId

/-- Reserving the ids fits the limits. -/
def Held.Affords (h : Held) (opIds : List String) : Prop :=
  h.refused (h.room.freshBytes opIds) = none

instance (h : Held) (opIds : List String) : Decidable (h.Affords opIds) :=
  inferInstanceAs (Decidable (_ = _))

section

variable {st : RoomState} {opId : String} {opIds : List String}

theorem freshBytes_cons_of_mem (h : opId ∈ st.reserved) :
    st.freshBytes (opId :: opIds) = st.freshBytes opIds := by
  unfold RoomState.freshBytes
  rw [List.toFinset_cons, Finset.filter_insert, if_neg (not_not_intro h)]

/-- Moving a timestamp frees no id. -/
theorem freshBytes_restamp (h : opId ∈ st.reserved) (at_ : Nat) :
    (st.reserveAt opId at_).freshBytes opIds = st.freshBytes opIds := by
  have hreserved : ∀ id, id ∈ (st.reserveAt opId at_).reserved ↔ id ∈ st.reserved := by
    intro id
    rw [RoomState.reserveAt, AList.mem_insert]
    exact ⟨fun hid => hid.elim (fun heq => heq ▸ h) fun hid => hid, Or.inr⟩
  simp only [RoomState.freshBytes, hreserved]

theorem freshBytes_cons_of_notMem (h : opId ∉ st.reserved) (at_ : Nat) :
    st.freshBytes (opId :: opIds) =
      reservationBytes opId + (st.reserveAt opId at_).freshBytes opIds := by
  have hrest : (opIds.toFinset.filter fun id => id ∉ (st.reserveAt opId at_).reserved) =
      (opIds.toFinset.filter fun id => id ∉ st.reserved).erase opId := by
    ext id
    simp only [Finset.mem_filter, Finset.mem_erase, RoomState.reserveAt, AList.mem_insert, not_or]
    tauto
  have hinsert : insert opId (opIds.toFinset.filter fun id => id ∉ st.reserved) =
      insert opId ((opIds.toFinset.filter fun id => id ∉ st.reserved).erase opId) := by
    ext id
    simp only [Finset.mem_insert, Finset.mem_erase]
    tauto
  unfold RoomState.freshBytes
  rw [hrest, List.toFinset_cons, Finset.filter_insert, if_pos h, hinsert,
    Finset.sum_insert (Finset.notMem_erase _ _)]

end

namespace Held.Balanced

variable {sizes : JsonSizes} {others : Nat} {h : Held}

theorem admitted (hb : h.Balanced sizes others) {opId : String} (hnew : opId ∉ h.room.reserved)
    (at_ : Nat) : (h.admitted opId at_).Balanced sizes others := by
  have hcharges := charges_reserveAt hnew at_
  refine hb.post rfl ?_ (hb.sized.of_eq rfl rfl)
  show ((h.room.reserveAt opId at_).charges : Int) = _
  omega

theorem restamped (hb : h.Balanced sizes others) {opId : String} (hold : opId ∈ h.room.reserved)
    (at_ : Nat) : (h.onRoom (·.reserveAt opId at_)).Balanced sizes others :=
  hb.onRoom rfl (charges_restamp hold at_) (hb.sized.of_eq rfl rfl)

end Held.Balanced

/-! ## Runs of reservations -/

section

variable {sizes : JsonSizes} {others : Nat}

/-- The first of several new reservations fits, and so do the others after it. -/
theorem Held.Affords.cons {h : Held} {opId : String} {opIds : List String}
    (hnew : opId ∉ h.room.reserved) (hfits : h.Affords (opId :: opIds)) (at_ : Nat) :
    h.refused (reservationBytes opId) = none ∧ (h.admitted opId at_).Affords opIds := by
  unfold Held.Affords at hfits
  rw [freshBytes_cons_of_notMem hnew at_, Int.natCast_add] at hfits
  have hsame : (h.admitted opId at_).room.freshBytes opIds =
      (h.room.reserveAt opId at_).freshBytes opIds := rfl
  refine ⟨Held.refused_mono (by omega) hfits, ?_⟩
  rw [Held.Affords, hsame, Held.admitted, Held.refused_onRoom rfl rfl]
  exact Held.refused_post (by omega) hfits

theorem reserveEach_of_affords (now : Nat) {opIds : List String} :
    ∀ {h : Held}, h.Balanced sizes others → h.Affords opIds →
      ∃ fresh h', (reserveEach now opIds).run h = .ok fresh h' ∧ h'.Balanced sizes others := by
  induction opIds with
  | nil => exact fun hb _ => ⟨[], _, rfl, hb⟩
  | cons opId opIds ih =>
      intro h hb hfits
      by_cases hold : opId ∈ h.room.reserved
      · have hrest : h.Affords opIds := by
          unfold Held.Affords at hfits
          rwa [freshBytes_cons_of_mem hold] at hfits
        obtain ⟨fresh, h', hrun, hb'⟩ := ih hb hrest
        exact ⟨fresh, h', (reserveEach_run_of_mem hold now opIds).trans hrun, hb'⟩
      · obtain ⟨hfirst, hrest⟩ := hfits.cons hold now
        obtain ⟨fresh, h', hrun, hb'⟩ := ih (hb.admitted hold now) hrest
        exact ⟨opId :: fresh, h', reserveEach_run_of_fits hold hfirst hrun, hb'⟩

theorem restoreEach_of_affords (at_ : Nat) {opIds : List String} :
    ∀ {h : Held}, h.Balanced sizes others → h.Affords opIds →
      ∃ h', (restoreEach at_ opIds).run h = .ok () h' ∧ h'.Balanced sizes others := by
  induction opIds with
  | nil => exact fun hb _ => ⟨_, rfl, hb⟩
  | cons opId opIds ih =>
      intro h hb hfits
      cases hlookup : h.room.reserved.lookup opId with
      | none =>
          have hnew : opId ∉ h.room.reserved := AList.lookup_eq_none.1 hlookup
          obtain ⟨hfirst, hrest⟩ := hfits.cons hnew at_
          obtain ⟨h', hrun, hb'⟩ := ih (hb.admitted hnew at_) hrest
          exact ⟨h', (restoreEach_run_of_fits hlookup hfirst opIds).trans hrun, hb'⟩
      | some existing =>
          have hold : opId ∈ h.room.reserved :=
            AList.lookup_isSome.1 (by rw [hlookup]; rfl)
          have hrest : h.Affords opIds := by
            unfold Held.Affords at hfits
            rwa [freshBytes_cons_of_mem hold] at hfits
          rcases Nat.lt_or_ge at_ existing with hearlier | hlater
          · have hsame : (h.onRoom (·.reserveAt opId at_)).Affords opIds := by
              unfold Held.Affords
              rw [show (h.onRoom (·.reserveAt opId at_)).room.freshBytes opIds =
                h.room.freshBytes opIds from freshBytes_restamp hold at_]
              exact hrest
            obtain ⟨h', hrun, hb'⟩ := ih (hb.restamped hold at_) hsame
            exact ⟨h', (restoreEach_run_of_earlier hlookup hearlier opIds).trans hrun, hb'⟩
          · obtain ⟨h', hrun, hb'⟩ := ih hb hrest
            exact ⟨h', (restoreEach_run_of_later hlookup hlater opIds).trans hrun, hb'⟩

end

/-! ## Snapshots -/

/-- What a snapshot's reservations are charged. -/
def reservationSum (reserved : List Reservation) : Nat :=
  (reserved.map fun r => reservationBytes r.1).sum

section

variable {sizes : JsonSizes} {others : Nat}

theorem Held.Balanced.putRows {rows : List SnapshotRow} :
    ∀ {h : Held}, h.Balanced sizes others →
      (left ((putRows sizes rows).run h)).Balanced sizes others := by
  induction rows with
  | nil => exact fun hb => hb
  | cons row rows ih => exact fun hb => left_bind (hb.putRow row.mutation) fun _ _ hb' => ih hb'

/-- The rows of a snapshot touch no reservation. -/
theorem reserved_putRows {rows : List SnapshotRow} :
    ∀ {h h' : Held}, (putRows sizes rows).run h = .ok () h' →
      h'.room.reserved = h.room.reserved := by
  induction rows with
  | nil =>
      intro h h' hrun
      cases hrun
      rfl
  | cons row rows ih =>
      intro h h' hrun
      rw [putRows, EStateM.run_bind, putRow_run, Held.charging] at hrun
      cases hrefused : h.refused (h.room.growth sizes row.mutation) with
      | some error =>
          rw [hrefused] at hrun
          cases hrun
      | none =>
          rw [hrefused] at hrun
          have hrest : (putRows sizes rows).run
              ((h.post (h.room.growth sizes row.mutation)).onRoom fun st =>
                (st.write sizes row.mutation).noteHlc row.mutation.hlc) = .ok () h' := hrun
          exact (ih hrest).trans rfl

/-- Distinct ids that fit are all taken in. -/
theorem admitEach_of_fits {reserved : List Reservation} :
    ∀ {h : Held}, h.Balanced sizes others → (reserved.map Prod.fst).Nodup →
      (∀ r ∈ reserved, r.1 ∉ h.room.reserved) → h.refused (reservationSum reserved) = none →
      ∃ h', (admitEach reserved).run h = .ok () h' ∧ h'.Balanced sizes others := by
  induction reserved with
  | nil => exact fun hb _ _ _ => ⟨_, rfl, hb⟩
  | cons r reserved ih =>
      intro h hb hnodup hnew hfits
      rcases List.nodup_cons.1 hnodup with ⟨hfirst, hnodup⟩
      have hsum :
          reservationSum (r :: reserved) = reservationBytes r.1 + reservationSum reserved := by
        rw [reservationSum, List.map_cons, List.sum_cons]
        rfl
      rw [hsum, Int.natCast_add] at hfits
      have hadm : h.refused (reservationBytes r.1) = none := Held.refused_mono (by omega) hfits
      have hrest : (h.admitted r.1 r.2).refused (reservationSum reserved) = none := by
        rw [Held.admitted, Held.refused_onRoom rfl rfl]
        exact Held.refused_post (by omega) hfits
      have hstill : ∀ r' ∈ reserved, r'.1 ∉ (h.admitted r.1 r.2).room.reserved := by
        intro r' hr' hmem
        rcases (AList.mem_insert _).1 hmem with heq | hmem
        · exact hfirst (heq ▸ List.mem_map_of_mem hr')
        · exact hnew r' (List.mem_cons_of_mem _ hr') hmem
      obtain ⟨h', hrun, hb'⟩ :=
        ih (hb.admitted (hnew r List.mem_cons_self) r.2) hnodup hstill hrest
      refine ⟨h', ?_, hb'⟩
      rw [admitEach, EStateM.run_bind, admit_run_of_fits hadm]
      exact hrun

/-- The reservations that a snapshot brings are of distinct ids and fit, once its rows are in. -/
def Held.AdmitsSnapshot (sizes : JsonSizes) (h : Held) (record : SnapshotRecord) (now : Nat) :
    Prop :=
  match (ObjectStorage.putRows sizes record.rows).run h.cleared with
  | .ok _ h' =>
    ((record.kept now).map Prod.fst).Nodup ∧ h'.refused (reservationSum (record.kept now)) = none
  | .error _ _ => True

theorem Held.Balanced.loadSnapshot {h : Held} (hb : h.Balanced sizes others)
    {record : SnapshotRecord} {now : Nat} (hfits : h.AdmitsSnapshot sizes record now) :
    (left ((loadSnapshot sizes record now).run h)).Balanced sizes others := by
  have hrows : (left ((ObjectStorage.putRows sizes record.rows).run h.cleared)).Balanced
      sizes others := hb.cleared.putRows
  rw [ObjectStorage.loadSnapshot, EStateM.run_bind, reset_run]
  simp only
  rw [EStateM.run_bind]
  unfold Held.AdmitsSnapshot at hfits
  cases hrun : (ObjectStorage.putRows sizes record.rows).run h.cleared with
  | error error h' =>
      rw [hrun] at hrows
      exact hrows
  | ok _ h' =>
      rw [hrun] at hrows hfits
      have hrows' : h'.Balanced sizes others := hrows
      have hnone : ∀ r ∈ record.kept now, r.1 ∉ h'.room.reserved := by
        intro r _
        rw [reserved_putRows hrun]
        exact AList.notMem_empty r.1
      obtain ⟨h'', hadm, hb'⟩ := admitEach_of_fits hrows' hfits.1 hnone hfits.2
      simp only
      rw [EStateM.run_bind, hadm]
      cases record.hlc with
      | none => exact hb'
      | some hlc =>
          by_cases hempty : hlc = ""
          · simpa [hempty, left] using hb'
          · have hnoted : (h''.onRoom (·.noteHlc hlc)).Balanced sizes others :=
              hb'.onRoom rfl rfl (hb'.sized.of_eq rfl rfl)
            simpa [hempty, left, noteHlc] using hnoted

end

end ObjectStorage
end Reflectdb
