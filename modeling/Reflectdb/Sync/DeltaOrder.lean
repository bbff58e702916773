import Reflectdb.Lib.Machine
import Reflectdb.Sync.Mirror

/-!
# Delta order — the deltas of one row, in any order and any number of times

`applyDelta` compares a delta with the row's HLC, and an update column by column with the clocks
that the row has.  The row that a client should hold depends only on which deltas it got: the newest
insert or delete, and over it, for each column, the newest update behind it.
-/

namespace Reflectdb
namespace Sync

open Core Client

/-! ## Deliveries -/

/-- A client's table with the deltas delivered for one of its rows.  `stamps` has, for each column
of the row, the HLC of the delta that its value came from. -/
structure DeltaStore where
  table : TableRows
  delivered : List Delta
  stamps : String → Option Hlc

/-- The columns of an update that are taken are stamped with their clocks, and all columns by an
insert or a delete that is taken. -/
def stampsAfter (pk : String) (s : DeltaStore) (d : Delta) : String → Option Hlc :=
  match applyEntry pk (s.table.lookup (.str d.rowId)) d with
  | none => s.stamps
  | some _ =>
    match d.op, s.table.lookup (.str d.rowId) with
    | .update, some row =>
      fun c => (Lib.lastWrite ((newerColumns row d).map fun u => (u.1, u.2.2)) c).or (s.stamps c)
    | _, _ => fun _ => some d.hlc

/-- The stamps of a snapshot's row: the clock of the column, else that of the row. -/
def snapshotStamps (msg : Snapshot) (rowId : String) (c : String) : Option Hlc :=
  ((applySnapshot ∅ msg).lookup (.str rowId)).bind fun row =>
    (row.colClocks.lookup c).or row.serverHlc

def deltaMachine (pk rowId : String) (msg : Snapshot) : Lib.Machine DeltaStore Delta where
  init := ⟨applySnapshot ∅ msg, [], snapshotStamps msg rowId⟩
  step s d := some ⟨applyDelta pk s.table d, s.delivered ++ [d], stampsAfter pk s d⟩

/-- The deltas that a server sends for a row after a snapshot of the table. -/
structure ServerDeltas (rowId : String) (msg : Snapshot) (sent : Set Delta) : Prop where
  addressed : ∀ d ∈ sent, d.rowId = rowId
  distinct : ∀ d ∈ sent, ∀ d' ∈ sent, d.hlc = d'.hlc → d = d'
  later : ∀ d ∈ sent, ∀ row, (applySnapshot ∅ msg).lookup (.str rowId) = some row →
    ∀ c held, row.colClocks.lookup c = some held → held < d.hlc
  /-- The clocks of what a delta carries are its HLC.  An update may have the clocks of other
  columns with it. -/
  stamped : ∀ d ∈ sent, ∀ c clock, (d.colClocks.getD ∅).lookup c = some clock →
    (d.op = .update → c ∈ d.payload.getD ∅) → clock = d.hlc

/-! ## What the deliveries are to keep -/

/-- The row is shown. -/
def DeltaStore.Shown (rowId : String) (s : DeltaStore) : Prop :=
  (heldRow s.table (.str rowId)).isSome

/-- The two rows have the same columns, or neither is there. -/
def SameShown : Option Row → Option Row → Prop
  | some a, some b => ∀ c, a.lookup c = b.lookup c
  | none, none => True
  | _, _ => False

structure DeltasSound (pk rowId : String) (msg : Snapshot)
    (allowed : DeltaStore → Delta → Prop) (s : DeltaStore) : Prop where
  /-- No column that is shown goes back to an older value. -/
  forward : ∀ d s', allowed s d → (deltaMachine pk rowId msg).step s d = some s' →
    s.Shown rowId → s'.Shown rowId → ∀ c older newer, s'.stamps c = some older →
      s.stamps c = some newer → ¬ older < newer
  /-- A row that was deleted is shown only under a newer insert. -/
  deleted : s.Shown rowId → ∀ d ∈ s.delivered, d.op = .delete →
    ∃ i ∈ s.delivered, i.op = .insert ∧ d.hlc < i.hlc
  /-- Two orders of the same deltas leave the same row. -/
  sameEnd : ∀ s', (deltaMachine pk rowId msg).Reach allowed s' →
    (∀ d, d ∈ s.delivered ↔ d ∈ s'.delivered) →
    SameShown (heldRow s.table (.str rowId)) (heldRow s'.table (.str rowId))

/-- The delta comes at a time at which the store can tell what it is newer than. -/
def ComesInTime (rowId : String) (sent : Set Delta) (s : DeltaStore) (d : Delta) : Prop :=
  d ∈ sent ∧
    match d.op with
    | .update =>
      -- The row is shown, and a column that has no clock of its own is not from a newer insert.
      ∃ row data, s.table.lookup (.str rowId) = some row ∧ row.data = some data ∧
        ∀ c ∈ d.payload.getD ∅, c ≠ "_row" ∧ (row.colClocks.lookup c = none →
          ∀ i ∈ s.delivered, i.op ≠ .update → i.hlc < d.hlc)
    | _ =>
      -- What is dropped is older than an insert or a delete that was delivered.
      isStale (s.table.lookup (.str rowId)) d.hlc → ∃ i ∈ s.delivered, i.op ≠ .update ∧
        d.hlc ≤ i.hlc

/-! ## An update of a row, column by column -/

section Update

variable {pk : String} {row : LocalRow} {d : Delta}

/-- The clock of a column in a delta. -/
def incomingClock (d : Delta) (c : String) : Hlc :=
  ((d.colClocks.getD ∅).lookup c).getD d.hlc

/-- The row has no newer value under the column. -/
def takesColumn (row : LocalRow) (d : Delta) (c : String) : Bool :=
  match row.colClocks.lookup c with
  | none => true
  | some held => held < incomingClock d c

theorem newerColumns_eq : newerColumns row d =
    ((d.payload.getD ∅).entries.filter fun e => takesColumn row d e.1).map fun e =>
      (e.1, e.2, incomingClock d e.1) := by
  rw [newerColumns, List.filter_map]
  rfl

theorem lastWrite_newer_values (c : String) :
    Lib.lastWrite ((newerColumns row d).map fun u => (u.1, u.2.1)) c =
      ((d.payload.getD ∅).lookup c).filter fun _ => takesColumn row d c := by
  rw [newerColumns_eq, List.map_map]
  exact Lib.lastWrite_filter (d.payload.getD ∅) (fun e => takesColumn row d e.1) c

theorem lastWrite_newer_clocks (c : String) :
    Lib.lastWrite ((newerColumns row d).map fun u => (u.1, u.2.2)) c =
      (((d.payload.getD ∅).lookup c).filter fun _ => takesColumn row d c).map
        fun _ => incomingClock d c := by
  have hkeys : ∀ us : List (String × Json × Hlc), (∀ u ∈ us, u.2.2 = incomingClock d u.1) →
      Lib.lastWrite (us.map fun u => (u.1, u.2.2)) c =
        (Lib.lastWrite (us.map fun u => (u.1, u.2.1)) c).map fun _ => incomingClock d c := by
    intro us
    induction us with
    | nil => intro _; rfl
    | cons u us ih =>
        intro hus
        obtain ⟨hu, hrest⟩ := List.forall_mem_cons.1 hus
        simp only [List.map_cons, Lib.lastWrite, ih hrest]
        by_cases hc : u.1 = c
        · subst hc
          cases Lib.lastWrite (us.map fun u => (u.1, u.2.1)) u.1 <;> simp [hu]
        · simp [hc]
  rw [← lastWrite_newer_values, hkeys]
  intro u hu
  rw [newerColumns_eq] at hu
  obtain ⟨e, -, rfl⟩ := List.mem_map.1 hu
  rfl

theorem newerColumns_eq_nil_iff :
    newerColumns row d = [] ↔ ∀ c ∈ d.payload.getD ∅, takesColumn row d c = false := by
  rw [newerColumns_eq, List.map_eq_nil_iff, List.filter_eq_nil_iff]
  constructor
  · intro h c hc
    obtain ⟨v, hv⟩ := Option.isSome_iff_exists.1 (AList.lookup_isSome.2 hc)
    exact Bool.eq_false_iff.2 (h ⟨c, v⟩ (Lib.mem_entries_iff.2 hv))
  · rintro h ⟨c, v⟩ he
    have hc : c ∈ d.payload.getD ∅ :=
      AList.lookup_isSome.1 (by rw [Lib.mem_entries_iff.1 he]; rfl)
    simp [h c hc]

/-- The row that an update leaves. -/
def updatedRow (pk : String) (row : LocalRow) (d : Delta) : LocalRow :=
  let newer := newerColumns row d
  let data := Lib.replay (row.data.getD ∅) (newer.map fun u => (u.1, u.2.1))
  let clocks := Lib.replay row.colClocks (newer.map fun u => (u.1, u.2.2))
  let rowHlc := advanceRow row d.hlc
  ⟨some (withPk pk d.rowId data), clocks.insert "_row" rowHlc, some rowHlc⟩

variable (pk row) in
theorem applyEntry_update (hop : d.op = .update) :
    applyEntry pk (some row) d =
      if newerColumns row d = [] then none else some (updatedRow pk row d) := by
  simp only [applyEntry, hop, updatedRow]

variable (pk row d) in
theorem lookup_data_updatedRow (c : String) :
    ((updatedRow pk row d).data.map fun data => (withPk pk d.rowId data).lookup c) =
      some ((((d.payload.getD ∅).lookup c).filter fun _ => takesColumn row d c).or
        ((withPk pk d.rowId (row.data.getD ∅)).lookup c)) := by
  have hdata : ∀ c, (Lib.replay (row.data.getD ∅)
      ((newerColumns row d).map fun u => (u.1, u.2.1))).lookup c =
      (((d.payload.getD ∅).lookup c).filter fun _ => takesColumn row d c).or
        ((row.data.getD ∅).lookup c) := by
    intro c
    rw [Lib.lookup_replay, lastWrite_newer_values]
  simp only [updatedRow, Option.map_some, lookup_withPk, hdata]
  by_cases hc : c = pk
  · subst hc
    cases ((d.payload.getD ∅).lookup c).filter fun _ => takesColumn row d c <;> simp
  · simp [hc]

theorem lookup_colClocks_updatedRow {c : String} (hc : c ≠ "_row") :
    (updatedRow pk row d).colClocks.lookup c =
      ((((d.payload.getD ∅).lookup c).filter fun _ => takesColumn row d c).map
        fun _ => incomingClock d c).or (row.colClocks.lookup c) := by
  rw [updatedRow, AList.lookup_insert_ne hc, Lib.lookup_replay, lastWrite_newer_clocks]

theorem advanceRow_le (hlc : Hlc) :
    hlc ≤ advanceRow row hlc ∧ ∀ held ∈ row.serverHlc, held ≤ advanceRow row hlc := by
  unfold advanceRow
  split
  · rename_i held hheld
    split
    · rename_i hle
      exact ⟨hle, fun held' h => by rw [hheld] at h; exact le_of_eq (Option.some.inj h).symm⟩
    · rename_i hlt
      refine ⟨le_refl _, fun held' h => ?_⟩
      rw [hheld] at h
      obtain rfl := Option.some.inj h
      exact le_of_lt (not_le.1 hlt)
  · rename_i hnone
    exact ⟨le_refl _, fun held h => by rw [hnone] at h; cases h⟩

end Update

/-! ## What a set of deltas leaves -/

section Newest

variable {pk rowId : String} {msg : Snapshot} {sent : Set Delta}

/-- The newest insert or delete, or `none` if the snapshot still stands. -/
def IsBase (D : List Delta) : Option Delta → Prop
  | none => ∀ d ∈ D, d.op = .update
  | some b => b ∈ D ∧ b.op ≠ .update ∧ ∀ d ∈ D, d.op ≠ .update → d.hlc ≤ b.hlc

/-- Newer than the base. -/
def After (base : Option Delta) (u : Delta) : Prop :=
  ∀ b ∈ base, b.hlc < u.hlc

/-- The newest update of a column, if it is newer than the base. -/
structure NewestUpdate (D : List Delta) (base : Option Delta) (c : String) (u : Delta) : Prop where
  mem : u ∈ D
  update : u.op = .update
  column : c ∈ u.payload.getD ∅
  after : After base u
  newest : ∀ u' ∈ D, u'.op = .update → c ∈ u'.payload.getD ∅ → u'.hlc ≤ u.hlc

/-- No update newer than the base has the column. -/
def NoUpdate (D : List Delta) (base : Option Delta) (c : String) : Prop :=
  ∀ u ∈ D, u.op = .update → c ∈ u.payload.getD ∅ → ¬ After base u

/-- A value, its clock and its stamp under one column. -/
structure Held where
  value : Option Json
  clock : Option Hlc
  stamp : Option Hlc

/-- A column is from the newest update of it, or as the base has it. -/
inductive ColumnHolds (D : List Delta) (base : Option Delta) (c : String) (start : Held) :
    Held → Prop
  | updated {u : Delta} {held : Held} : NewestUpdate D base c u →
      held.value = (u.payload.getD ∅).lookup c → (c ≠ "_row" → held.clock = some u.hlc) →
      held.stamp = some u.hlc → ColumnHolds D base c start held
  | untouched {held : Held} : NoUpdate D base c → held.value = start.value →
      (c ≠ "_row" → held.clock = start.clock) → held.stamp = start.stamp →
      ColumnHolds D base c start held

/-- Something was updated since the base. -/
def Touched (D : List Delta) (base : Option Delta) : Prop :=
  ∃ u ∈ D, u.op = .update ∧ After base u ∧ ∃ c, c ∈ u.payload.getD ∅

/-- The delta has something to write. -/
def Writes (d : Delta) : Prop :=
  d.op = .update → ∃ c, c ∈ d.payload.getD ∅

theorem IsBase.unique (h : ServerDeltas rowId msg sent) {D D' : List Delta}
    (hD : ∀ d ∈ D, d ∈ sent) (hsame : ∀ d, d ∈ D ↔ d ∈ D') {base base' : Option Delta}
    (hb : IsBase D base) (hb' : IsBase D' base') : base = base' := by
  cases base with
  | none =>
      cases base' with
      | none => rfl
      | some b' => exact absurd (hb b' ((hsame b').2 hb'.1)) hb'.2.1
  | some b =>
      cases base' with
      | none => exact absurd (hb' b ((hsame b).1 hb.1)) hb.2.1
      | some b' =>
          have hle := hb.2.2 b' ((hsame b').2 hb'.1) hb'.2.1
          have hle' := hb'.2.2 b ((hsame b).1 hb.1) hb.2.1
          rw [h.distinct b (hD b hb.1) b' (hD b' ((hsame b').2 hb'.1)) (le_antisymm hle' hle)]

theorem NewestUpdate.unique (h : ServerDeltas rowId msg sent) {D D' : List Delta}
    (hD : ∀ d ∈ D, d ∈ sent) (hsame : ∀ d, d ∈ D ↔ d ∈ D') {base : Option Delta} {c : String}
    {u u' : Delta} (hu : NewestUpdate D base c u) (hu' : NewestUpdate D' base c u') : u = u' := by
  have hmem := (hsame u').2 hu'.mem
  have hle := hu.newest u' hmem hu'.update hu'.column
  have hle' := hu'.newest u ((hsame u).1 hu.mem) hu.update hu.column
  exact h.distinct u (hD u hu.mem) u' (hD u' hmem) (le_antisymm hle' hle)

/-- Two runs with the same deltas hold the same values. -/
theorem ColumnHolds.value_unique (h : ServerDeltas rowId msg sent) {D D' : List Delta}
    (hD : ∀ d ∈ D, d ∈ sent) (hsame : ∀ d, d ∈ D ↔ d ∈ D') {base : Option Delta} {c : String}
    {start start' held held' : Held} (hstart : start.value = start'.value)
    (hc : ColumnHolds D base c start held) (hc' : ColumnHolds D' base c start' held') :
    held.value = held'.value := by
  cases hc with
  | @updated u _ hu hvalue =>
      cases hc' with
      | @updated u' _ hu' hvalue' =>
          obtain rfl := hu.unique h hD hsame hu'
          rw [hvalue, hvalue']
      | untouched hno => exact absurd hu.after (hno u ((hsame u).1 hu.mem) hu.update hu.column)
  | untouched hno hvalue =>
      cases hc' with
      | @updated u' _ hu' hvalue' =>
          exact absurd hu'.after (hno u' ((hsame u').2 hu'.mem) hu'.update hu'.column)
      | untouched _ hvalue' => rw [hvalue, hvalue', hstart]

theorem NewestUpdate.concat {D : List Delta} {base : Option Delta} {c : String} {u d : Delta}
    (hu : NewestUpdate D base c u)
    (hd : d.op = .update → c ∈ d.payload.getD ∅ → d.hlc ≤ u.hlc) :
    NewestUpdate (D ++ [d]) base c u := by
  refine ⟨List.mem_append_left _ hu.mem, hu.update, hu.column, hu.after, fun u' hu' => ?_⟩
  rcases List.mem_append.1 hu' with hold | hnew
  · exact hu.newest u' hold
  · rw [List.mem_singleton.1 hnew]
    exact hd

theorem NoUpdate.concat {D : List Delta} {base : Option Delta} {c : String} {d : Delta}
    (h : NoUpdate D base c)
    (hd : d.op = .update → c ∈ d.payload.getD ∅ → ¬ After base d) :
    NoUpdate (D ++ [d]) base c := by
  intro u hu
  rcases List.mem_append.1 hu with hold | hnew
  · exact h u hold
  · rw [List.mem_singleton.1 hnew]
    exact hd

/-- A delta that does not write the column leaves it. -/
theorem ColumnHolds.concat {D : List Delta} {base : Option Delta} {c : String} {d : Delta}
    {start held : Held} (h : ColumnHolds D base c start held)
    (hd : d.op = .update → c ∉ d.payload.getD ∅) : ColumnHolds (D ++ [d]) base c start held := by
  cases h with
  | updated hu hvalue hclock hstamp =>
      exact .updated (hu.concat fun hop hc => absurd hc (hd hop)) hvalue hclock hstamp
  | untouched hno hvalue hclock hstamp =>
      exact .untouched (hno.concat fun hop hc => absurd hc (hd hop)) hvalue hclock hstamp

theorem not_after_iff {base : Option Delta} {u : Delta} :
    ¬ After base u ↔ ∃ b ∈ base, u.hlc ≤ b.hlc := by
  simp only [After, not_forall, not_lt, exists_prop]

/-- The clock of a column of the base is older than later deltas, or the base's own. -/
def StartClock (base : Option Delta) (d : Delta) (start : Held) : Prop :=
  ∀ clock ∈ start.clock, (base = none → clock < d.hlc) ∧ ∀ b ∈ base, clock = b.hlc

/-- An update that is taken in a column becomes its newest one. -/
theorem ColumnHolds.take {D : List Delta} {base : Option Delta} {c : String} {d : Delta}
    {start held : Held} (h : ColumnHolds D base c start held) (hop : d.op = .update)
    (hc : c ∈ d.payload.getD ∅) (hrow : c ≠ "_row") (hstart : StartClock base d start)
    (hafter : held.clock = none → After base d) (htake : ∀ clock ∈ held.clock, clock < d.hlc) :
    NewestUpdate (D ++ [d]) base c d := by
  have hself : ∀ {u' : Delta}, u' ∈ D ++ [d] → u' ∈ D ∨ u'.hlc ≤ d.hlc := by
    intro u' hu'
    rcases List.mem_append.1 hu' with hold | hnew
    · exact Or.inl hold
    · exact Or.inr (le_of_eq (congrArg Delta.hlc (List.mem_singleton.1 hnew)))
  have hmem : d ∈ D ++ [d] := List.mem_append_right _ (List.mem_singleton_self d)
  cases h with
  | @updated u _ hu _ hclock =>
      have hlt : u.hlc < d.hlc := htake _ (hclock hrow)
      refine ⟨hmem, hop, hc, fun b hb => lt_trans (hu.after b hb) hlt, fun u' hu' hop' hc' => ?_⟩
      rcases hself hu' with hold | hle
      · exact le_of_lt (lt_of_le_of_lt (hu.newest u' hold hop' hc') hlt)
      · exact hle
  | untouched hno _ hclock =>
      have hd : After base d := by
        cases hheld : held.clock with
        | none => exact hafter hheld
        | some clock =>
            intro b hb
            have hown := (hstart clock (hclock hrow ▸ hheld)).2 b hb
            exact hown ▸ htake clock hheld
      refine ⟨hmem, hop, hc, hd, fun u' hu' hop' hc' => ?_⟩
      rcases hself hu' with hold | hle
      · obtain ⟨b, hb, hle⟩ := not_after_iff.1 (hno u' hold hop' hc')
        exact hle.trans (le_of_lt (hd b hb))
      · exact hle

/-- An update that is not taken in a column is older than what the column is from. -/
theorem ColumnHolds.leave {D : List Delta} {base : Option Delta} {c : String} {d : Delta}
    {start held : Held} (h : ColumnHolds D base c start held) (hrow : c ≠ "_row")
    (hstart : StartClock base d start) {clock : Hlc} (hheld : held.clock = some clock)
    (hle : d.hlc ≤ clock) : ColumnHolds (D ++ [d]) base c start held := by
  cases h with
  | @updated u _ hu hvalue hclock hstamp =>
      have heq : clock = u.hlc := Option.some.inj (hheld.symm.trans (hclock hrow))
      exact .updated (hu.concat fun _ _ => heq ▸ hle) hvalue hclock hstamp
  | untouched hno hvalue hclock hstamp =>
      refine .untouched (hno.concat fun _ _ => ?_) hvalue hclock hstamp
      obtain ⟨hnone, hown⟩ := hstart clock (hclock hrow ▸ hheld)
      cases base with
      | none => exact absurd (hnone rfl) (not_lt.2 hle)
      | some b => exact not_after_iff.2 ⟨b, rfl, hown b rfl ▸ hle⟩

/-- Where the base does not explain the clock, an update does. -/
theorem ColumnHolds.newest_of_le {D : List Delta} {base : Option Delta} {c : String} {d : Delta}
    {start held : Held} (h : ColumnHolds D base c start held) (hrow : c ≠ "_row")
    (hstart : StartClock base d start) (hafter : After base d) {clock : Hlc}
    (hheld : held.clock = some clock) (hle : d.hlc ≤ clock) :
    ∃ u, NewestUpdate D base c u ∧ d.hlc ≤ u.hlc := by
  cases h with
  | @updated u _ hu _ hclock =>
      have heq : clock = u.hlc := Option.some.inj (hheld.symm.trans (hclock hrow))
      exact ⟨u, hu, heq ▸ hle⟩
  | untouched _ _ hclock =>
      obtain ⟨hnone, hown⟩ := hstart clock (hclock hrow ▸ hheld)
      cases base with
      | none => exact absurd (hnone rfl) (not_lt.2 hle)
      | some b => exact absurd (hafter b rfl) (not_lt.2 (hown b rfl ▸ hle))

end Newest

/-! ## The invariant -/

section Invariant

variable {pk rowId : String} {msg : Snapshot} {sent : Set Delta}

/-- The row as the base leaves it. -/
def baseEntry (pk rowId : String) (msg : Snapshot) : Option Delta → Option LocalRow
  | none => (applySnapshot ∅ msg).lookup (.str rowId)
  | some b => applyEntry pk none b

def baseStamps (rowId : String) (msg : Snapshot) : Option Delta → String → Option Hlc
  | none => snapshotStamps msg rowId
  | some b => fun _ => some b.hlc

/-- A column of a row with its primary key, its clock and its stamp. -/
def heldAt (pk rowId : String) (data : Row) (clocks : Record Hlc) (stamps : String → Option Hlc)
    (c : String) : Held :=
  ⟨(withPk pk rowId data).lookup c, clocks.lookup c, stamps c⟩

structure RowHolds (pk rowId : String) (D : List Delta) (base : Option Delta)
    (startStamps stamps : String → Option Hlc) (start row : LocalRow) : Prop where
  upper : ∀ d ∈ D, Writes d → ∃ held ∈ row.serverHlc, d.hlc ≤ held
  hidden : start.data = none → row.data = none
  shown : ∀ startData, start.data = some startData → ∃ data, row.data = some data ∧
    (∀ c, ColumnHolds D base c (heldAt pk rowId startData start.colClocks startStamps c)
      (heldAt pk rowId data row.colClocks stamps c)) ∧
    ((data.lookup pk).isSome ↔ (startData.lookup pk).isSome ∨ Touched D base)

structure DeltaInv (pk rowId : String) (msg : Snapshot) (sent : Set Delta) (s : DeltaStore)
    (base : Option Delta) : Prop where
  mem : ∀ d ∈ s.delivered, d ∈ sent
  isBase : IsBase s.delivered base
  absent : baseEntry pk rowId msg base = none →
    s.table.lookup (.str rowId) = none ∧ s.delivered = []
  present : ∀ start, baseEntry pk rowId msg base = some start →
    ∃ row, s.table.lookup (.str rowId) = some row ∧
      RowHolds pk rowId s.delivered base (baseStamps rowId msg base) s.stamps start row

theorem ColumnHolds.congr {D : List Delta} {base : Option Delta} {c : String}
    {start held held' : Held} (h : ColumnHolds D base c start held)
    (hvalue : held'.value = held.value) (hclock : c ≠ "_row" → held'.clock = held.clock)
    (hstamp : held'.stamp = held.stamp) : ColumnHolds D base c start held' := by
  cases h with
  | updated hu hv hk hs =>
      exact .updated hu (hvalue.trans hv) (fun hc => (hclock hc).trans (hk hc)) (hstamp.trans hs)
  | untouched hno hv hk hs =>
      exact .untouched hno (hvalue.trans hv) (fun hc => (hclock hc).trans (hk hc)) (hstamp.trans hs)

theorem deltaInv_init :
    DeltaInv pk rowId msg sent (deltaMachine pk rowId msg).init none := by
  refine ⟨fun d hd => absurd hd List.not_mem_nil, fun d hd => absurd hd List.not_mem_nil,
    fun hnone => ⟨hnone, rfl⟩, fun start hstart => ⟨start, hstart, ?_⟩⟩
  refine ⟨fun d hd => absurd hd List.not_mem_nil, id, fun data hdata => ⟨data, hdata, ?_, ?_⟩⟩
  · exact fun c => .untouched (fun u hu => absurd hu List.not_mem_nil) rfl (fun _ => rfl) rfl
  · exact (or_iff_left fun ⟨u, hu, _⟩ => absurd hu List.not_mem_nil).symm

variable (pk) in
/-- An insert or a delete that is not stale leaves what it leaves of no row. -/
theorem applyEntry_reset {existing : Option LocalRow} {d : Delta} (hop : d.op ≠ .update)
    (hstale : isStale existing d.hlc = false) :
    applyEntry pk existing d = applyEntry pk none d ∧
      ∃ row, applyEntry pk none d = some row ∧ row.serverHlc = some d.hlc := by
  have hnone : isStale none d.hlc = false := rfl
  cases hd : d.op with
  | insert => simp [applyEntry, hd, hstale, hnone]
  | update => exact absurd hd hop
  | delete => simp [applyEntry, hd, hstale, hnone]

variable (pk) in
theorem applyEntry_stale {existing : Option LocalRow} {d : Delta} (hop : d.op ≠ .update)
    (hstale : isStale existing d.hlc = true) : applyEntry pk existing d = none := by
  cases hd : d.op with
  | insert => simp [applyEntry, hd, hstale]
  | update => exact absurd hd hop
  | delete => simp [applyEntry, hd, hstale]

theorem lt_of_not_stale {row : LocalRow} {hlc held : Hlc} (h : isStale (some row) hlc = false)
    (hheld : row.serverHlc = some held) : held < hlc := by
  simpa [isStale, hheld] using h

/-- Before an insert or a delete that is not stale, everything delivered is older. -/
theorem DeltaInv.lt_of_not_stale {s : DeltaStore} {base : Option Delta}
    (hi : DeltaInv pk rowId msg sent s base) {hlc : Hlc}
    (hstale : isStale (s.table.lookup (.str rowId)) hlc = false) :
    ∀ u ∈ s.delivered, Writes u → u.hlc < hlc := by
  intro u hu hwrites
  cases hentry : baseEntry pk rowId msg base with
  | none =>
      rw [(hi.absent hentry).2] at hu
      cases hu
  | some start =>
      obtain ⟨row, hrow, hholds⟩ := hi.present start hentry
      obtain ⟨held, hheld, hle⟩ := hholds.upper u hu hwrites
      rw [hrow] at hstale
      exact lt_of_le_of_lt hle (Sync.lt_of_not_stale hstale hheld)

theorem writes_of_reset {d : Delta} (hop : d.op ≠ .update) : Writes d :=
  fun hop' => absurd hop' hop

variable (pk) in
theorem stampsAfter_reset {s : DeltaStore} {d : Delta} (hop : d.op ≠ .update) :
    stampsAfter pk s d =
      if isStale (s.table.lookup (.str d.rowId)) d.hlc then s.stamps else fun _ => some d.hlc := by
  unfold stampsAfter
  cases hstale : isStale (s.table.lookup (.str d.rowId)) d.hlc with
  | true => simp [applyEntry_stale pk hop hstale]
  | false =>
      obtain ⟨hsame, row, hrow, -⟩ := applyEntry_reset pk hop hstale
      rw [hsame, hrow]
      dsimp only
      split
      · rename_i hupdate _
        exact absurd hupdate hop
      · rfl

/-- An insert or a delete that is taken is the base from then on. -/
theorem DeltaInv.reset {s : DeltaStore} {base : Option Delta}
    (hi : DeltaInv pk rowId msg sent s base) {d : Delta} (hd : d ∈ sent) (hrowId : d.rowId = rowId)
    (hop : d.op ≠ .update) (hstale : isStale (s.table.lookup (.str rowId)) d.hlc = false) :
    DeltaInv pk rowId msg sent
      ⟨applyDelta pk s.table d, s.delivered ++ [d], stampsAfter pk s d⟩ (some d) := by
  subst hrowId
  obtain ⟨hsame, row, hrow, hserver⟩ := applyEntry_reset pk hop hstale
  have hentry : applyEntry pk (s.table.lookup (.str d.rowId)) d = some row := hsame.trans hrow
  have hlt := hi.lt_of_not_stale hstale
  have hle : ∀ u ∈ s.delivered ++ [d], Writes u → u.hlc ≤ d.hlc := by
    intro u hu hwrites
    rcases List.mem_append.1 hu with hold | hnew
    · exact le_of_lt (hlt u hold hwrites)
    · exact le_of_eq (congrArg Delta.hlc (List.mem_singleton.1 hnew))
  have hstamps : stampsAfter pk s d = fun _ => some d.hlc := by
    rw [stampsAfter_reset pk hop, hstale]
    rfl
  -- No update is newer.
  have hno : ∀ u ∈ s.delivered ++ [d], u.op = .update → ∀ c, c ∈ u.payload.getD ∅ →
      ¬ After (some d) u :=
    fun u hu _ c hc => not_after_iff.2 ⟨d, rfl, hle u hu fun _ => ⟨c, hc⟩⟩
  refine ⟨?_, ⟨List.mem_append_right _ (List.mem_singleton_self d), hop, fun u hu hu' =>
    hle u hu (writes_of_reset hu')⟩, fun hnone => ?_, fun start hstart => ?_⟩
  · exact List.forall_mem_append.2 ⟨hi.mem, fun u hu => List.mem_singleton.1 hu ▸ hd⟩
  · have hsome : baseEntry pk d.rowId msg (some d) = some row := hrow
    rw [hsome] at hnone
    cases hnone
  · obtain rfl : row = start := Option.some.inj (hrow.symm.trans hstart)
    refine ⟨row, lookup_applyDelta_self hentry,
      fun u hu hwrites => ⟨d.hlc, hserver, hle u hu hwrites⟩,
      id, fun data hdata => ⟨data, hdata, fun c => ?_, ?_⟩⟩
    · refine .untouched (fun u hu hop' hc => hno u hu hop' c hc) rfl (fun _ => rfl) ?_
      rw [hstamps]
      rfl
    · exact (or_iff_left fun ⟨u, hu, hop', hafter, c, hc⟩ => hno u hu hop' c hc hafter).symm

theorem touched_concat_of_reset {D : List Delta} {base : Option Delta} {d : Delta}
    (hop : d.op ≠ .update) : Touched (D ++ [d]) base ↔ Touched D base := by
  constructor
  · rintro ⟨u, hu, hu', hrest⟩
    rcases List.mem_append.1 hu with hold | hnew
    · exact ⟨u, hold, hu', hrest⟩
    · exact absurd (List.mem_singleton.1 hnew ▸ hu') hop
  · rintro ⟨u, hu, hrest⟩
    exact ⟨u, List.mem_append_left _ hu, hrest⟩

/-- An insert or a delete that is dropped, and is older than the base. -/
theorem DeltaInv.drop {s : DeltaStore} {base : Option Delta}
    (hi : DeltaInv pk rowId msg sent s base) {d : Delta} (hd : d ∈ sent) (hrowId : d.rowId = rowId)
    (hop : d.op ≠ .update) (hstale : isStale (s.table.lookup (.str rowId)) d.hlc = true)
    (hold : ∃ i ∈ s.delivered, i.op ≠ .update ∧ d.hlc ≤ i.hlc) :
    DeltaInv pk rowId msg sent
      ⟨applyDelta pk s.table d, s.delivered ++ [d], stampsAfter pk s d⟩ base := by
  subst hrowId
  obtain ⟨i, hmem, hiop, hle⟩ := hold
  have hnone := applyEntry_stale pk hop hstale
  have htable : applyDelta pk s.table d = s.table := by rw [applyDelta, hnone]
  have hstamps : stampsAfter pk s d = s.stamps := by rw [stampsAfter, hnone]
  rw [htable, hstamps]
  have hlt : ∃ b, base = some b ∧ b ∈ s.delivered ∧ b.op ≠ .update ∧ d.hlc ≤ b.hlc ∧
      ∀ u ∈ s.delivered, u.op ≠ .update → u.hlc ≤ b.hlc := by
    cases base with
    | none => exact absurd (hi.isBase i hmem) hiop
    | some b => exact ⟨b, rfl, hi.isBase.1, hi.isBase.2.1, hle.trans (hi.isBase.2.2 i hmem hiop),
        hi.isBase.2.2⟩
  obtain ⟨b, rfl, hbmem, hbop, hdb, hmax⟩ := hlt
  refine ⟨?_, ⟨List.mem_append_left _ hbmem, hbop, ?_⟩, fun hnone => ?_, fun start hstart => ?_⟩
  · exact List.forall_mem_append.2 ⟨hi.mem, fun u hu => List.mem_singleton.1 hu ▸ hd⟩
  · exact List.forall_mem_append.2 ⟨hmax, fun u hu _ => List.mem_singleton.1 hu ▸ hdb⟩
  · rw [(hi.absent hnone).2] at hbmem
    cases hbmem
  · obtain ⟨row, hrow, hholds⟩ := hi.present start hstart
    refine ⟨row, hrow, ?_, hholds.hidden, fun startData hstartData => ?_⟩
    · refine List.forall_mem_append.2 ⟨hholds.upper, fun u hu _ => ?_⟩
      obtain ⟨held, hheld, hbheld⟩ := hholds.upper b hbmem (writes_of_reset hbop)
      exact ⟨held, hheld, List.mem_singleton.1 hu ▸ hdb.trans hbheld⟩
    · obtain ⟨data, hdata, hcolumns, hkeyed⟩ := hholds.shown startData hstartData
      exact ⟨data, hdata, fun c => (hcolumns c).concat fun hop' => absurd hop' hop,
        by rw [touched_concat_of_reset hop, hkeyed]⟩

/-- The clocks of the base's own columns. -/
theorem startClock_of_base (h : ServerDeltas rowId msg sent) {s : DeltaStore} {base : Option Delta}
    (hi : DeltaInv pk rowId msg sent s base) {d : Delta} (hd : d ∈ sent) {start : LocalRow}
    (hstart : baseEntry pk rowId msg base = some start) (data : Row) (stamps : String → Option Hlc)
    (hshown : start.data.isSome) (c : String) :
    StartClock base d (heldAt pk rowId data start.colClocks stamps c) := by
  intro clock hclock
  cases base with
  | none => exact ⟨fun _ => h.later d hd start hstart c clock hclock, fun b hb => (nomatch hb)⟩
  | some b =>
      obtain ⟨hb, hbop, -⟩ := hi.isBase
      refine ⟨fun hnone => (nomatch hnone), fun b' hb' => ?_⟩
      obtain rfl := Option.some.inj hb'
      have hbsent := hi.mem b hb
      cases hop : b.op with
      | update => exact absurd hop hbop
      | delete =>
          have hnone : start.data = none := by
            simp only [baseEntry, applyEntry, hop, isStale] at hstart
            rw [← Option.some.inj hstart]
          rw [hnone] at hshown
          cases hshown
      | insert =>
          have hclocks : start.colClocks = b.colClocks.getD (rowClock b.hlc) := by
            simp only [baseEntry, applyEntry, hop, isStale] at hstart
            rw [← Option.some.inj hstart]
          have hlookup : (b.colClocks.getD (rowClock b.hlc)).lookup c = some clock :=
            hclocks ▸ hclock
          cases hcols : b.colClocks with
          | none =>
              rw [hcols] at hlookup
              exact eq_of_mem_rowClock hlookup
          | some clocks =>
              have hown : (b.colClocks.getD ∅).lookup c = some clock := by
                rw [hcols] at hlookup ⊢
                exact hlookup
              exact h.stamped b hbsent c clock hown fun hop' => by rw [hop] at hop'; cases hop'

theorem incomingClock_of_mem (h : ServerDeltas rowId msg sent) {d : Delta} (hd : d ∈ sent)
    {c : String} (hc : c ∈ d.payload.getD ∅) : incomingClock d c = d.hlc := by
  rw [incomingClock]
  cases hclock : (d.colClocks.getD ∅).lookup c with
  | none => rfl
  | some clock => exact h.stamped d hd c clock hclock fun _ => hc

theorem takesColumn_eq_true_iff {row : LocalRow} {d : Delta} {c : String} :
    takesColumn row d c = true ↔ ∀ held, row.colClocks.lookup c = some held →
      held < incomingClock d c := by
  unfold takesColumn
  cases row.colClocks.lookup c <;> simp

/-- The row, and the stamps of its columns, after an update. -/
structure AfterUpdate (pk rowId : String) (s : DeltaStore) (row : LocalRow) (data : Row)
    (d : Delta) (row' : LocalRow) (data' : Row) (stamps' : String → Option Hlc) : Prop where
  shows : row'.data = some data'
  taken : ∀ c ∈ d.payload.getD ∅, c ≠ "_row" → takesColumn row d c = true →
    heldAt pk rowId data' row'.colClocks stamps' c =
      ⟨(d.payload.getD ∅).lookup c, some d.hlc, some d.hlc⟩
  left : ∀ c, (c ∈ d.payload.getD ∅ → takesColumn row d c = false) →
    (withPk pk rowId data').lookup c = (withPk pk rowId data).lookup c ∧
      (c ≠ "_row" → row'.colClocks.lookup c = row.colClocks.lookup c) ∧ stamps' c = s.stamps c
  keyed : (data'.lookup pk).isSome ↔ (data.lookup pk).isSome ∨
    ∃ c ∈ d.payload.getD ∅, takesColumn row d c = true
  advanced : ∀ held ∈ row.serverHlc, ∃ held' ∈ row'.serverHlc, held ≤ held'
  taking : (∃ c ∈ d.payload.getD ∅, takesColumn row d c = true) →
    ∃ held' ∈ row'.serverHlc, d.hlc ≤ held'

variable (pk) in
theorem afterUpdate (h : ServerDeltas rowId msg sent) {s : DeltaStore} {row : LocalRow}
    {data : Row} {d : Delta} (hd : d ∈ sent) (hop : d.op = .update)
    (hrow : s.table.lookup (.str rowId) = some row) (hdata : row.data = some data) :
    ∃ row' data', (applyDelta pk s.table d).lookup (.str rowId) = some row' ∧
      AfterUpdate pk rowId s row data d row' data' (stampsAfter pk s d) := by
  have hrowId := h.addressed d hd
  subst hrowId
  have hentry := applyEntry_update pk row hop
  by_cases hnil : newerColumns row d = []
  · -- Nothing is taken.
    have hnone := newerColumns_eq_nil_iff.1 hnil
    rw [if_pos hnil] at hentry
    have htable : applyDelta pk s.table d = s.table := by simp only [applyDelta, hrow, hentry]
    have hrow' := (congrArg (AList.lookup (.str d.rowId)) htable).trans hrow
    refine ⟨row, data, hrow', hdata, fun c hc _ htake => ?_,
      fun c _ => ⟨rfl, fun _ => rfl, ?_⟩, ?_, fun held hheld => ⟨held, hheld, le_refl _⟩, ?_⟩
    · rw [hnone c hc] at htake
      cases htake
    · rw [stampsAfter, hrow, hentry]
    · refine (or_iff_left ?_).symm
      rintro ⟨c, hc, htake⟩
      rw [hnone c hc] at htake
      cases htake
    · rintro ⟨c, hc, htake⟩
      rw [hnone c hc] at htake
      cases htake
  · rw [if_neg hnil] at hentry
    have hsome : ∃ c ∈ d.payload.getD ∅, takesColumn row d c = true := by
      by_contra hno
      apply hnil
      apply newerColumns_eq_nil_iff.2
      intro c hc
      exact Bool.eq_false_iff.2 fun htake => hno ⟨c, hc, htake⟩
    obtain ⟨data', hdata'⟩ : ∃ data', (updatedRow pk row d).data = some data' := ⟨_, rfl⟩
    have hvalue : ∀ c, (withPk pk d.rowId data').lookup c =
        (((d.payload.getD ∅).lookup c).filter fun _ => takesColumn row d c).or
          ((withPk pk d.rowId data).lookup c) := by
      intro c
      have hlookup := lookup_data_updatedRow pk row d c
      rw [hdata', hdata] at hlookup
      exact Option.some.inj hlookup
    have hstamps : ∀ c, stampsAfter pk s d c =
        ((((d.payload.getD ∅).lookup c).filter fun _ => takesColumn row d c).map
          fun _ => incomingClock d c).or (s.stamps c) := by
      intro c
      rw [← lastWrite_newer_clocks, stampsAfter, hrow, hentry, hop]
    refine ⟨updatedRow pk row d, data', ?_, hdata', fun c hc hcr htake => ?_, fun c hno => ?_, ?_,
      fun held hheld => ⟨_, rfl, (advanceRow_le d.hlc).2 held hheld⟩,
      fun _ => ⟨_, rfl, (advanceRow_le d.hlc).1⟩⟩
    · apply lookup_applyDelta_self
      rw [hrow, hentry]
    · obtain ⟨v, hv⟩ := Option.isSome_iff_exists.1 (AList.lookup_isSome.2 hc)
      have hincoming := incomingClock_of_mem h hd hc
      rw [heldAt, hvalue, lookup_colClocks_updatedRow hcr, hstamps, hv, htake, hincoming]
      rfl
    · have hfilter : (((d.payload.getD ∅).lookup c).filter fun _ => takesColumn row d c) =
          none := by
        cases hv : (d.payload.getD ∅).lookup c with
        | none => rfl
        | some v => simp [hno (AList.lookup_isSome.1 (by rw [hv]; rfl))]
      refine ⟨by rw [hvalue, hfilter, Option.none_or], fun hcr => ?_, ?_⟩
      · rw [lookup_colClocks_updatedRow hcr, hfilter]
        rfl
      · rw [hstamps, hfilter]
        rfl
    · have hkey : (data'.lookup pk).isSome = true := by
        rw [← Option.some.inj hdata', lookup_withPk, if_pos rfl]
        rfl
      exact ⟨fun _ => Or.inr hsome, fun _ => hkey⟩

/-- A row that an insert left has its primary key. -/
theorem keyed_of_insert {b : Delta} {start : LocalRow} {data : Row}
    (hstart : applyEntry pk none b = some start) (hdata : start.data = some data) :
    (data.lookup pk).isSome := by
  have hkeyed : ∀ row, ((withPk pk b.rowId row).lookup pk).isSome := by
    intro row
    rw [lookup_withPk, if_pos rfl]
    rfl
  cases hop : b.op with
  | delete =>
      simp only [applyEntry, hop, isStale] at hstart
      rw [← Option.some.inj hstart] at hdata
      cases hdata
  | insert =>
      simp only [applyEntry, hop, isStale] at hstart
      rw [← Option.some.inj hstart] at hdata
      exact Option.some.inj hdata ▸ hkeyed _
  | update =>
      simp only [applyEntry, hop, isStale] at hstart
      rw [← Option.some.inj hstart] at hdata
      exact Option.some.inj hdata ▸ hkeyed _

theorem le_of_not_taken (h : ServerDeltas rowId msg sent) {d : Delta} (hd : d ∈ sent)
    {row : LocalRow} {c : String} (hc : c ∈ d.payload.getD ∅)
    (hno : takesColumn row d c = false) :
    ∃ clock, row.colClocks.lookup c = some clock ∧ d.hlc ≤ clock := by
  unfold takesColumn at hno
  rw [incomingClock_of_mem h hd hc] at hno
  cases hclock : row.colClocks.lookup c with
  | none => simp [hclock] at hno
  | some clock =>
      rw [hclock] at hno
      exact ⟨clock, rfl, not_lt.1 (of_decide_eq_false hno)⟩

/-- The columns of a row after an update in time. -/
theorem columns_afterUpdate (h : ServerDeltas rowId msg sent) {s : DeltaStore}
    {base : Option Delta} (hbase : ∀ b ∈ base, b ∈ s.delivered ∧ b.op ≠ .update) {d : Delta}
    (hd : d ∈ sent) (hop : d.op = .update) {row row' : LocalRow} {data data' : Row}
    {stamps' : String → Option Hlc} (hafter : AfterUpdate pk rowId s row data d row' data' stamps')
    {start : String → Held} (hstart : ∀ c, StartClock base d (start c))
    (hguard : ∀ c ∈ d.payload.getD ∅, c ≠ "_row" ∧ (row.colClocks.lookup c = none →
      ∀ i ∈ s.delivered, i.op ≠ .update → i.hlc < d.hlc))
    (hcolumns : ∀ c, ColumnHolds s.delivered base c (start c)
      (heldAt pk rowId data row.colClocks s.stamps c)) (c : String) :
    ColumnHolds (s.delivered ++ [d]) base c (start c)
      (heldAt pk rowId data' row'.colClocks stamps' c) := by
  have hleft : (c ∈ d.payload.getD ∅ → takesColumn row d c = false) →
      ColumnHolds (s.delivered ++ [d]) base c (start c)
        (heldAt pk rowId data row.colClocks s.stamps c) →
      ColumnHolds (s.delivered ++ [d]) base c (start c)
        (heldAt pk rowId data' row'.colClocks stamps' c) := by
    intro hno hold
    obtain ⟨hvalue, hclock, hstamp⟩ := hafter.left c hno
    exact hold.congr hvalue hclock hstamp
  by_cases hc : c ∈ d.payload.getD ∅
  · obtain ⟨hcr, hnew⟩ := hguard c hc
    cases htake : takesColumn row d c with
    | true =>
        have hlt : ∀ clock ∈ row.colClocks.lookup c, clock < d.hlc := by
          intro clock hclock
          rw [← incomingClock_of_mem h hd hc]
          exact takesColumn_eq_true_iff.1 htake clock hclock
        have hnone : row.colClocks.lookup c = none → After base d :=
          fun hclock b hb => hnew hclock b (hbase b hb).1 (hbase b hb).2
        have hnewest := (hcolumns c).take hop hc hcr (hstart c) hnone hlt
        rw [hafter.taken c hc hcr htake]
        exact .updated hnewest rfl (fun _ => rfl) rfl
    | false =>
        obtain ⟨clock, hclock, hle⟩ := le_of_not_taken h hd hc htake
        exact hleft (fun _ => htake) ((hcolumns c).leave hcr (hstart c) hclock hle)
  · exact hleft (fun hc' => absurd hc' hc) ((hcolumns c).concat fun _ => hc)

/-- An update in time. -/
theorem DeltaInv.update (h : ServerDeltas rowId msg sent) {s : DeltaStore} {base : Option Delta}
    (hi : DeltaInv pk rowId msg sent s base) {d : Delta} (hop : d.op = .update)
    (hintime : ComesInTime rowId sent s d) :
    DeltaInv pk rowId msg sent
      ⟨applyDelta pk s.table d, s.delivered ++ [d], stampsAfter pk s d⟩ base := by
  obtain ⟨hd, hguard⟩ := hintime
  rw [hop] at hguard
  obtain ⟨row, data, hrow, hdata, hguard⟩ := hguard
  obtain ⟨row', data', hrow', hafter⟩ := afterUpdate pk h hd hop hrow hdata
  have hbase : ∀ b ∈ base, b ∈ s.delivered ∧ b.op ≠ .update := by
    intro b hb
    have hb' := hi.isBase
    rw [Option.mem_def.1 hb] at hb'
    exact ⟨hb'.1, hb'.2.1⟩
  refine ⟨?_, ?_, fun hnone => ?_, fun start hstart => ?_⟩
  · exact List.forall_mem_append.2 ⟨hi.mem, fun u hu => List.mem_singleton.1 hu ▸ hd⟩
  · cases base with
    | none => exact List.forall_mem_append.2 ⟨hi.isBase, fun u hu => List.mem_singleton.1 hu ▸ hop⟩
    | some b =>
        obtain ⟨hb, hbop, hmax⟩ := hi.isBase
        refine ⟨List.mem_append_left _ hb, hbop, List.forall_mem_append.2 ⟨hmax, ?_⟩⟩
        exact fun u hu hu' => absurd (List.mem_singleton.1 hu ▸ hop) hu'
  · rw [(hi.absent hnone).1] at hrow
    cases hrow
  obtain ⟨held, hheld, hholds⟩ := hi.present start hstart
  obtain rfl : row = held := Option.some.inj (hrow.symm.trans hheld)
  cases hshown : start.data with
  | none =>
      rw [hholds.hidden hshown] at hdata
      cases hdata
  | some startData =>
      obtain ⟨data₀, hdata₀, hcolumns, hkeyed⟩ := hholds.shown startData hshown
      obtain rfl : data = data₀ := Option.some.inj (hdata.symm.trans hdata₀)
      have hclocks := startClock_of_base h hi hd hstart startData
        (baseStamps rowId msg base) (hshown ▸ rfl)
      -- Where a column is not taken, something else that was delivered is at least as new.
      have hnewer : ∀ c ∈ d.payload.getD ∅, takesColumn row d c = false →
          (After base d → ∃ u, NewestUpdate s.delivered base c u ∧ d.hlc ≤ u.hlc) ∧
            ∃ u ∈ s.delivered, Writes u ∧ d.hlc ≤ u.hlc := by
        intro c hc hno
        obtain ⟨clock, hclock, hle⟩ := le_of_not_taken h hd hc hno
        have hnewest := fun hafter =>
          (hcolumns c).newest_of_le (hguard c hc).1 (hclocks c) hafter hclock hle
        refine ⟨hnewest, ?_⟩
        by_cases hafter : After base d
        · obtain ⟨u, hu, hle⟩ := hnewest hafter
          exact ⟨u, hu.mem, fun _ => ⟨c, hu.column⟩, hle⟩
        · obtain ⟨b, hb, hle⟩ := not_after_iff.1 hafter
          exact ⟨b, (hbase b hb).1, writes_of_reset (hbase b hb).2, hle⟩
      refine ⟨row', hrow', ?_, fun hnone => (nomatch hshown.symm.trans hnone),
        fun startData' hstartData' => ⟨data', hafter.shows, ?_, ?_⟩⟩
      · refine List.forall_mem_append.2 ⟨fun u hu hwrites => ?_, fun u hu hwrites => ?_⟩
        · obtain ⟨held, hheld, hle⟩ := hholds.upper u hu hwrites
          obtain ⟨held', hheld', hle'⟩ := hafter.advanced held hheld
          exact ⟨held', hheld', hle.trans hle'⟩
        · obtain rfl := List.mem_singleton.1 hu
          obtain ⟨c, hc⟩ := hwrites hop
          cases htake : takesColumn row u c with
          | true => exact hafter.taking ⟨c, hc, htake⟩
          | false =>
              obtain ⟨-, u', hu', hwrites', hle⟩ := hnewer c hc htake
              obtain ⟨held, hheld, hle'⟩ := hholds.upper u' hu' hwrites'
              obtain ⟨held', hheld', hle''⟩ := hafter.advanced held hheld
              exact ⟨held', hheld', (hle.trans hle').trans hle''⟩
      · obtain rfl : startData = startData' := Option.some.inj (hshown.symm.trans hstartData')
        exact columns_afterUpdate h hbase hd hop hafter hclocks hguard hcolumns
      · obtain rfl : startData = startData' := Option.some.inj (hshown.symm.trans hstartData')
        rw [hafter.keyed, hkeyed]
        constructor
        · rintro ((hkey | ⟨u, hu, hrest⟩) | ⟨c, hc, -⟩)
          · exact Or.inl hkey
          · exact Or.inr ⟨u, List.mem_append_left _ hu, hrest⟩
          · by_cases hnew : After base d
            · have hmem := List.mem_append_right s.delivered (List.mem_singleton_self d)
              exact Or.inr ⟨d, hmem, hop, hnew, c, hc⟩
            · -- Not newer than the base, so that there is an insert.
              obtain ⟨b, hb, -⟩ := not_after_iff.1 hnew
              obtain rfl := Option.mem_def.1 hb
              exact Or.inl (keyed_of_insert hstart hshown)
        · rintro (hkey | ⟨u, hu, hop', hnew, c, hc⟩)
          · exact Or.inl (Or.inl hkey)
          · rcases List.mem_append.1 hu with hold | hlast
            · exact Or.inl (Or.inr ⟨u, hold, hop', hnew, c, hc⟩)
            · obtain rfl := List.mem_singleton.1 hlast
              cases htake : takesColumn row u c with
              | true => exact Or.inr ⟨c, hc, htake⟩
              | false =>
                  obtain ⟨u', hu', -⟩ := (hnewer c hc htake).1 hnew
                  exact Or.inl (Or.inr ⟨u', hu'.mem, hu'.update, hu'.after, c, hu'.column⟩)

theorem deltaInv_step (h : ServerDeltas rowId msg sent) {s s' : DeltaStore} {d : Delta}
    (hi : ∃ base, DeltaInv pk rowId msg sent s base) (hintime : ComesInTime rowId sent s d)
    (hs : (deltaMachine pk rowId msg).step s d = some s') :
    ∃ base, DeltaInv pk rowId msg sent s' base := by
  obtain ⟨base, hi⟩ := hi
  cases hs
  have hreset : d.op ≠ .update → (isStale (s.table.lookup (.str rowId)) d.hlc = true →
      ∃ i ∈ s.delivered, i.op ≠ .update ∧ d.hlc ≤ i.hlc) →
      ∃ base, DeltaInv pk rowId msg sent
        ⟨applyDelta pk s.table d, s.delivered ++ [d], stampsAfter pk s d⟩ base := by
    intro hop hold
    have hrowId := h.addressed d hintime.1
    cases hstale : isStale (s.table.lookup (.str rowId)) d.hlc with
    | true => exact ⟨base, hi.drop hintime.1 hrowId hop hstale (hold hstale)⟩
    | false => exact ⟨some d, hi.reset hintime.1 hrowId hop hstale⟩
  cases hop : d.op with
  | update => exact ⟨base, hi.update h hop hintime⟩
  | insert =>
      have hold := hintime.2
      rw [hop] at hold
      exact hreset (by rw [hop]; decide) hold
  | delete =>
      have hold := hintime.2
      rw [hop] at hold
      exact hreset (by rw [hop]; decide) hold

theorem deltaInv_of_reach (h : ServerDeltas rowId msg sent) {s : DeltaStore}
    (hs : (deltaMachine pk rowId msg).Reach (ComesInTime rowId sent) s) :
    ∃ base, DeltaInv pk rowId msg sent s base :=
  hs.invariant (P := fun s => ∃ base, DeltaInv pk rowId msg sent s base) ⟨none, deltaInv_init⟩
    fun hi hg hstep => deltaInv_step h hi hg hstep

/-! ## The columns go forward -/

theorem shown_iff {s : DeltaStore} :
    s.Shown rowId ↔ ∃ row data, s.table.lookup (.str rowId) = some row ∧ row.data = some data := by
  unfold DeltaStore.Shown heldRow
  cases s.table.lookup (.str rowId) with
  | none => simp
  | some row => cases hdata : row.data <;> simp [hdata]

/-- The row that is shown, with its columns. -/
theorem DeltaInv.shown {s : DeltaStore} {base : Option Delta}
    (hi : DeltaInv pk rowId msg sent s base) (hshown : s.Shown rowId) :
    ∃ start startData row data, baseEntry pk rowId msg base = some start ∧
      start.data = some startData ∧ s.table.lookup (.str rowId) = some row ∧
      row.data = some data ∧
      RowHolds pk rowId s.delivered base (baseStamps rowId msg base) s.stamps start row := by
  obtain ⟨row, data, hrow, hdata⟩ := shown_iff.1 hshown
  cases hstart : baseEntry pk rowId msg base with
  | none =>
      rw [(hi.absent hstart).1] at hrow
      cases hrow
  | some start =>
      obtain ⟨row', hrow', hholds⟩ := hi.present start hstart
      obtain rfl : row = row' := Option.some.inj (hrow.symm.trans hrow')
      cases hstartData : start.data with
      | none =>
          rw [hholds.hidden hstartData] at hdata
          cases hdata
      | some startData => exact ⟨start, startData, row, data, rfl, hstartData, hrow, hdata, hholds⟩

theorem snapshotStamps_lt (h : ServerDeltas rowId msg sent) {d : Delta} (hd : d ∈ sent) {c : String}
    {stamp : Hlc} (hstamp : snapshotStamps msg rowId c = some stamp) : stamp < d.hlc := by
  obtain ⟨row, hrow, hor⟩ := Option.bind_eq_some_iff.1 hstamp
  rcases mem_applySnapshot hrow with ⟨data, -, -, rfl⟩ | ⟨-, hold⟩
  · rcases Option.or_eq_some_iff.1 hor with hcol | ⟨-, hserver⟩
    · exact h.later d hd _ hrow c stamp hcol
    · exact h.later d hd _ hrow "_row" stamp hserver
  · cases hold

/-- A stamp is older than a delta that is newer than the base and the updates. -/
theorem stamp_le (h : ServerDeltas rowId msg sent) {s : DeltaStore} {base : Option Delta}
    {d : Delta} (hd : d ∈ sent) {c : String} {start held : Held}
    (hc : ColumnHolds s.delivered base c start held)
    (hstart : start.stamp = baseStamps rowId msg base c) (hbase : After base d)
    (hnewest : ∀ u, NewestUpdate s.delivered base c u → u.hlc ≤ d.hlc)
    {stamp : Hlc} (hstamp : held.stamp = some stamp) : stamp ≤ d.hlc := by
  cases hc with
  | @updated u _ hu _ _ hown =>
      rw [← Option.some.inj (hown.symm.trans hstamp)]
      exact hnewest u hu
  | untouched _ _ _ hown =>
      have hbaseStamp := hstart.symm.trans (hown.symm.trans hstamp)
      cases base with
      | none => exact le_of_lt (snapshotStamps_lt h hd hbaseStamp)
      | some b => exact Option.some.inj hbaseStamp ▸ le_of_lt (hbase b rfl)

theorem stampsAfter_forward (h : ServerDeltas rowId msg sent) {s : DeltaStore}
    {base : Option Delta} (hi : DeltaInv pk rowId msg sent s base) {d : Delta}
    (hintime : ComesInTime rowId sent s d) (hshown : s.Shown rowId) {c : String}
    {older newer : Hlc} (holder : stampsAfter pk s d c = some older)
    (hnewer : s.stamps c = some newer) : ¬ older < newer := by
  obtain ⟨hd, hguard⟩ := hintime
  obtain ⟨start, startData, row, data, hstart, hstartData, hrow, hdata, hholds⟩ := hi.shown hshown
  obtain ⟨data', hdata', hcolumns, -⟩ := hholds.shown startData hstartData
  obtain rfl : data = data' := Option.some.inj (hdata.symm.trans hdata')
  have hsame : stampsAfter pk s d c = s.stamps c → ¬ older < newer := by
    intro heq
    rw [heq, hnewer] at holder
    exact Option.some.inj holder ▸ lt_irrefl _
  have hbase : ∀ b ∈ base, b ∈ s.delivered ∧ b.op ≠ .update := by
    intro b hb
    have hb' := hi.isBase
    rw [Option.mem_def.1 hb] at hb'
    exact ⟨hb'.1, hb'.2.1⟩
  have hforward : stampsAfter pk s d c = some d.hlc → After base d →
      (∀ u, NewestUpdate s.delivered base c u → u.hlc ≤ d.hlc) → ¬ older < newer := by
    intro heq hafter hnewest
    have hle := stamp_le h hd (hcolumns c) rfl hafter hnewest hnewer
    rw [← Option.some.inj (heq.symm.trans holder)]
    exact not_lt.2 hle
  by_cases hop : d.op = .update
  · rw [hop] at hguard
    obtain ⟨row', data', hrow', hdata', hguard⟩ := hguard
    obtain rfl : row = row' := Option.some.inj (hrow.symm.trans hrow')
    obtain ⟨row'', data'', -, hafter⟩ := afterUpdate pk h hd hop hrow hdata
    by_cases htaken : c ∈ d.payload.getD ∅ ∧ takesColumn row d c = true
    · obtain ⟨hc, htake⟩ := htaken
      obtain ⟨hcr, hnew⟩ := hguard c hc
      have hlt : ∀ clock ∈ row.colClocks.lookup c, clock < d.hlc := by
        intro clock hclock
        rw [← incomingClock_of_mem h hd hc]
        exact takesColumn_eq_true_iff.1 htake clock hclock
      have hclocks := startClock_of_base h hi hd hstart startData
        (baseStamps rowId msg base) (hstartData ▸ rfl)
      have hnewest := (hcolumns c).take hop hc hcr (hclocks c)
        (fun hclock b hb => hnew hclock b (hbase b hb).1 (hbase b hb).2) hlt
      refine hforward (congrArg Held.stamp (hafter.taken c hc hcr htake)) hnewest.after ?_
      exact fun u hu => hnewest.newest u (List.mem_append_left _ hu.mem) hu.update hu.column
    · exact hsame (hafter.left c fun hc => Bool.eq_false_iff.2 fun ht => htaken ⟨hc, ht⟩).2.2
  · have hrowId := h.addressed d hd
    subst hrowId
    have hstamps := congrFun (stampsAfter_reset pk (s := s) hop) c
    cases hstale : isStale (s.table.lookup (.str d.rowId)) d.hlc with
    | true =>
        rw [hstale] at hstamps
        exact hsame hstamps
    | false =>
        rw [hstale] at hstamps
        have hlt := hi.lt_of_not_stale hstale
        refine hforward hstamps ?_ ?_
        · exact fun b hb => hlt b (hbase b hb).1 (writes_of_reset (hbase b hb).2)
        · exact fun u hu => le_of_lt (hlt u hu.mem fun _ => ⟨c, hu.column⟩)

/-! ## The results -/

theorem DeltaInv.deleted (h : ServerDeltas rowId msg sent) {s : DeltaStore}
    {base : Option Delta} (hi : DeltaInv pk rowId msg sent s base) (hshown : s.Shown rowId)
    {d : Delta} (hd : d ∈ s.delivered) (hop : d.op = .delete) :
    ∃ i ∈ s.delivered, i.op = .insert ∧ d.hlc < i.hlc := by
  have hisBase := hi.isBase
  obtain ⟨start, startData, -, -, hstart, hstartData, -⟩ := hi.shown hshown
  cases base with
  | none =>
      have hupdate := hisBase d hd
      rw [hop] at hupdate
      cases hupdate
  | some b =>
      obtain ⟨hb, hbop, hmax⟩ := hisBase
      have hinsert : b.op = .insert := by
        cases hb' : b.op with
        | insert => rfl
        | update => exact absurd hb' hbop
        | delete =>
            simp only [baseEntry, applyEntry, hb', isStale] at hstart
            rw [← Option.some.inj hstart] at hstartData
            cases hstartData
      have hle := hmax d hd (by rw [hop]; decide)
      refine ⟨b, hb, hinsert, lt_of_le_of_ne hle fun heq => ?_⟩
      have hsame := h.distinct d (hi.mem d hd) b (hi.mem b hb) heq
      rw [hsame, hinsert] at hop
      cases hop

theorem DeltaInv.sameEnd (h : ServerDeltas rowId msg sent) {s s' : DeltaStore}
    {base base' : Option Delta} (hi : DeltaInv pk rowId msg sent s base)
    (hi' : DeltaInv pk rowId msg sent s' base')
    (hsame : ∀ d, d ∈ s.delivered ↔ d ∈ s'.delivered) :
    SameShown (heldRow s.table (.str rowId)) (heldRow s'.table (.str rowId)) := by
  obtain rfl := IsBase.unique h hi.mem hsame hi.isBase hi'.isBase
  cases hstart : baseEntry pk rowId msg base with
  | none =>
      rw [heldRow, heldRow, (hi.absent hstart).1, (hi'.absent hstart).1]
      trivial
  | some start =>
      obtain ⟨row, hrow, hholds⟩ := hi.present start hstart
      obtain ⟨row', hrow', hholds'⟩ := hi'.present start hstart
      rw [heldRow, heldRow, hrow, hrow', Option.bind_some, Option.bind_some]
      cases hstartData : start.data with
      | none =>
          rw [hholds.hidden hstartData, hholds'.hidden hstartData]
          trivial
      | some startData =>
          obtain ⟨data, hdata, hcolumns, hkeyed⟩ := hholds.shown startData hstartData
          obtain ⟨data', hdata', hcolumns', hkeyed'⟩ := hholds'.shown startData hstartData
          rw [hdata, hdata']
          intro c
          have hvalue := (hcolumns c).value_unique h hi.mem hsame rfl (hcolumns' c)
          simp only [heldAt, lookup_withPk] at hvalue
          by_cases hc : c = pk
          · -- The primary key is there in both or in none.
            subst hc
            have htouched : Touched s.delivered base ↔ Touched s'.delivered base := by
              simp only [Touched, hsame]
            rw [← htouched, ← hkeyed] at hkeyed'
            cases hl : data.lookup c <;> cases hl' : data'.lookup c <;> simp_all
          · simpa [hc] using hvalue

end Invariant

/-! ### An update that comes after the delete behind it -/

def titled (title : String) : Row :=
  ((∅ : Row).insert "title" (.str title)).insert "id" (.str "t")

/-- A snapshot with one row. -/
def oneRow : Snapshot :=
  ⟨[titled "a"], (∅ : Record (Record Hlc)).insert "t" (rowClock "1"), false, "id"⟩

def retitle : Delta :=
  ⟨.update, "t", some ((∅ : Row).insert "title" (.str "b")), "2",
    some ((∅ : Record Hlc).insert "title" "2")⟩

def removal : Delta :=
  ⟨.delete, "t", none, "3", none⟩

/-- The row is given another title, and then deleted. -/
def retitleAndRemoval : Set Delta :=
  {d | d = retitle ∨ d = removal}

theorem serverDeltas_retitleAndRemoval : ServerDeltas "t" oneRow retitleAndRemoval where
  addressed := by rintro d (rfl | rfl) <;> rfl
  distinct := by
    rintro d (rfl | rfl) d' (rfl | rfl) heq
    · rfl
    · exact absurd heq (by decide)
    · exact absurd heq (by decide)
    · rfl
  later := by
    have hclock : ∀ row, (applySnapshot ∅ oneRow).lookup (.str "t") = some row →
        ∀ c held, row.colClocks.lookup c = some held → held = "1" := by
      intro row hrow c held hheld
      have hrow' : snapshotEntry oneRow (titled "a") = row := Option.some.inj hrow
      rw [← hrow'] at hheld
      exact eq_of_mem_rowClock hheld
    rintro d (rfl | rfl) row hrow c held hheld
    · rw [hclock row hrow c held hheld]
      decide
    · rw [hclock row hrow c held hheld]
      decide
  stamped := by
    rintro d (rfl | rfl) c clock hclock hc
    · by_cases htitle : c = "title"
      · subst htitle
        exact (Option.some.inj hclock).symm
      · have hnone : ((∅ : Record Hlc).insert "title" "2").lookup c = none :=
          AList.lookup_insert_ne htitle
        cases hclock.symm.trans hnone
    · exact absurd hclock (by simp [removal])

end Sync
end Reflectdb
