import Reflectdb.Lib.JsonText
import Reflectdb.Lib.KeyedDiff
import Reflectdb.Server.Conflict

/-!
# JSON store — one table of a client, with rows as their JSON is

`ClientStore.rows` for one table, under snapshots and deltas, with strings of code units and numbers
of any kind.  A snapshot files a row under the value of its primary key, a delta under the string
`rowId`. Rows and clock records are plain objects, with all that these inherit.
-/

namespace Reflectdb
namespace Client
namespace JsonStore

open Core Lib Server

abbrev Row : Type :=
  Record JsonText.Value

/-- A missing column reads as `undefined`, which counts as `null` here. -/
def column (row : Row) (c : String) : JsonText.Value :=
  (row.lookup c).getD .null

/-- A key of the `Map` of rows.  An array or an object is no primary key. -/
inductive RowKey
  | bool (b : Bool)
  | num (n : JsonText.Number)
  | str (s : Lib.Text)
  deriving DecidableEq

/-- `String(key)` -/
def RowKey.text : RowKey → Lib.Text
  | .bool true => Text.ofChars ['t', 'r', 'u', 'e']
  | .bool false => Text.ofChars ['f', 'a', 'l', 's', 'e']
  | .num n => n.text
  | .str s => s

/-- `(row[pk] as string) ?? ""` -/
def snapshotKey (pk : String) (row : Row) : RowKey :=
  match column row pk with
  | .bool b => .bool b
  | .num n => .num n
  | .str s => .str s
  | _ => .str []

structure LocalRow where
  /-- `none` is a tombstone. -/
  data : Option Row
  colClocks : Record Hlc
  serverHlc : Option Hlc

abbrev Table : Type :=
  AList fun _ : RowKey => LocalRow

structure Delta where
  op : OpType
  rowId : Lib.Text
  payload : Option Row
  hlc : Hlc
  colClocks : Option (Record Hlc)

structure Snapshot where
  rows : List Row
  colClocks : AList fun _ : Lib.Text => Record Hlc
  append : Bool
  pk : String

/-- A row as `applySnapshot` stores it. -/
def snapshotEntry (msg : Snapshot) (row : Row) : LocalRow :=
  let clocks := (msg.colClocks.lookup (snapshotKey msg.pk row).text).getD ∅
  ⟨some row, clocks, clocks.lookup "_row"⟩

def applySnapshot (t : Table) (msg : Snapshot) : Table :=
  replay (if msg.append then t else ∅)
    (msg.rows.map fun row => (snapshotKey msg.pk row, snapshotEntry msg row))

/-- A materialised row carries its own primary key, unless `data[pk]` is something it inherits. -/
def withPk (pk : String) (rowId : Lib.Text) (data : Row) : Row :=
  if (data.lookup pk).isSome || (inherited pk).isSome then data else data.insert pk (.str rowId)

/-- `existing?.serverHlc && compareHlc(hlc, existing.serverHlc) <= 0`. -/
def isStale (existing : Option LocalRow) (hlc : Hlc) : Bool :=
  match (existing.bind (·.serverHlc)).filter (· ≠ "") with
  | some held => hlc ≤ held
  | none => false

/-- `incomingClocks[col] ?? hlc`. -/
def Delta.clockOf (d : Delta) (c : String) : Hlc :=
  ((d.colClocks.getD ∅).lookup c).getD d.hlc

/-- The columns of an update that win against the clocks of the row, with their own clocks. -/
def newerColumns (existing : LocalRow) (d : Delta) : List (String × JsonText.Value × Hlc) :=
  ((d.payload.getD ∅).entries.map fun e => (e.1, e.2, d.clockOf e.1)).filter fun u =>
    wins existing.colClocks u.2.2 u.1

/-- `_row` after an update: the highest HLC that reached the row. -/
def advanceRow (existing : LocalRow) (hlc : Hlc) : Hlc :=
  match existing.serverHlc.filter (· ≠ "") with
  | some held => if hlc ≤ held then held else hlc
  | none => hlc

/-- The row that a delta leaves in place of `existing`, or `none` if it leaves it as it is. -/
def applyEntry (pk : String) (existing : Option LocalRow) (d : Delta) : Option LocalRow :=
  match d.op, existing with
  | .delete, existing =>
    if isStale existing d.hlc then none else some ⟨none, ∅, some d.hlc⟩
  | .update, some row =>
    let newer := newerColumns row d
    if newer.isEmpty then none
    else
      let data := assignAll (row.data.getD ∅) (newer.map fun u => (u.1, u.2.1))
      let clocks := assignAll row.colClocks (newer.map fun u => (u.1, u.2.2))
      let rowHlc := advanceRow row d.hlc
      some ⟨some (withPk pk d.rowId data), clocks.insert "_row" rowHlc, some rowHlc⟩
  | _, existing =>
    -- An insert, or an update of a row that was never there.
    if isStale existing d.hlc then none
    else
      let clocks := d.colClocks.getD (rowClock d.hlc)
      some ⟨some (withPk pk d.rowId (d.payload.getD ∅)), clocks, some d.hlc⟩

/-- `applyDelta`; `pk` is the table's primary key in `tableMeta`. -/
def applyDelta (pk : String) (t : Table) (d : Delta) : Table :=
  match applyEntry pk (t.lookup (.str d.rowId)) d with
  | some row => t.insert (.str d.rowId) row
  | none => t

/-- The data of the row under a key; a tombstone holds none. -/
def heldRow (t : Table) (key : RowKey) : Option Row :=
  (t.lookup key).bind (·.data)

/-! ## What an update leaves -/

theorem lookup_withPk {pk : String} {rowId : Lib.Text} {data : Row} {c : String}
    {value : JsonText.Value} (h : data.lookup c = some value) :
    (withPk pk rowId data).lookup c = some value := by
  unfold withPk
  split
  · exact h
  · rename_i hnone
    rw [Bool.or_eq_true, not_or] at hnone
    have hne : c ≠ pk := by
      rintro rfl
      rw [h] at hnone
      exact hnone.1 rfl
    rw [AList.lookup_insert_ne hne, h]

theorem values_newerColumns (row : LocalRow) (d : Delta) :
    (newerColumns row d).map (fun u => (u.1, u.2.1)) =
      writes ((d.payload.getD ∅).entries.filter fun e =>
        wins row.colClocks (d.clockOf e.1) e.1) := by
  rw [newerColumns, List.filter_map, List.map_map]
  rfl

theorem clocks_newerColumns (row : LocalRow) (d : Delta) :
    (newerColumns row d).map (fun u => (u.1, u.2.2)) =
      ((newerColumns row d).map (·.1)).map fun c => (c, d.clockOf c) := by
  rw [newerColumns, List.filter_map, List.map_map, List.map_map, List.map_map]
  rfl

/-- A column after an update: the value of the payload where it wins, else what the row held. -/
def merged (row : LocalRow) (d : Delta) (c : String) : Option JsonText.Value :=
  if c = "__proto__" then (row.data.getD ∅).lookup c
  else
    (((d.payload.getD ∅).lookup c).filter fun _ => wins row.colClocks (d.clockOf c) c).or
      ((row.data.getD ∅).lookup c)

/-- An update of a row that is there, or was: the row is as it was, or has every column merged. -/
theorem applyEntry_update (pk : String) (row : LocalRow) {d : Delta} (hop : d.op = .update) :
    applyEntry pk (some row) d = none ∧ (∀ c, merged row d c = (row.data.getD ∅).lookup c) ∨
      ∃ data clocks rowHlc,
        applyEntry pk (some row) d = some ⟨some (withPk pk d.rowId data), clocks, some rowHlc⟩ ∧
          ∀ c, data.lookup c = merged row d c := by
  have hvalues : ∀ c, lastWrite ((newerColumns row d).map fun u => (u.1, u.2.1)) c =
      ((d.payload.getD ∅).lookup c).filter fun _ => wins row.colClocks (d.clockOf c) c := by
    intro c
    rw [values_newerColumns, lastWrite_filter]
  have hmerged : ∀ c, (assignAll (row.data.getD ∅)
      ((newerColumns row d).map fun u => (u.1, u.2.1))).lookup c = merged row d c := by
    intro c
    rw [lookup_assignAll, hvalues, merged]
  cases hnewer : newerColumns row d with
  | nil =>
      left
      refine ⟨by simp [applyEntry, hop, hnewer], fun c => ?_⟩
      rw [← hmerged c, hnewer]
      rfl
  | cons u us =>
      right
      refine ⟨_, _, _, by simp only [applyEntry, hop, hnewer]; rfl, fun c => ?_⟩
      rw [← hnewer]
      exact hmerged c

/-! ## Where a delta is filed, and under which clocks -/

/-- A delta changes the row under its own id only. -/
theorem files_applyDelta (pk : String) :
    Files (applyDelta pk) (fun t key => t.lookup key) fun d => RowKey.str d.rowId where
  frame t d key hne := by
    unfold applyDelta
    split
    · exact AList.lookup_insert_ne hne
    · rfl
  here t t' d h := by
    unfold applyDelta
    rw [h]
    split
    · rw [AList.lookup_insert, AList.lookup_insert]
    · exact h

theorem lookup_applyDelta {pk : String} {t : Table} {d : Delta} :
    (applyDelta pk t d).lookup (.str d.rowId) =
      (applyEntry pk (t.lookup (.str d.rowId)) d).or (t.lookup (.str d.rowId)) := by
  unfold applyDelta
  cases applyEntry pk (t.lookup (.str d.rowId)) d with
  | some row => exact AList.lookup_insert _
  | none => rfl

/-- No clock of the row is above the HLC. -/
structure ClockedBy (row : LocalRow) (hlc : Hlc) : Prop where
  serverHlc : ∀ held ∈ row.serverHlc, held ≤ hlc
  colClocks : ∀ c, ∀ held ∈ row.colClocks.lookup c, held ≤ hlc

theorem ClockedBy.mono {row : LocalRow} {hlc hlc' : Hlc} (h : ClockedBy row hlc)
    (hle : hlc ≤ hlc') : ClockedBy row hlc' where
  serverHlc held hheld := (h.serverHlc held hheld).trans hle
  colClocks c held hheld := (h.colClocks c held hheld).trans hle

theorem ClockedBy.isStale_eq_false {row : LocalRow} {clock hlc : Hlc} (h : ClockedBy row clock)
    (hlt : clock < hlc) : isStale (some row) hlc = false := by
  unfold isStale
  split
  · rename_i held hheld
    rcases Option.filter_eq_some_iff.1 hheld with ⟨hserver, -⟩
    simpa using lt_of_le_of_lt (h.serverHlc held hserver) hlt
  · rfl

/-- A column that objects do not inherit is older than an HLC above the clocks of the row. -/
theorem ClockedBy.wins {row : LocalRow} {clock hlc : Hlc} (h : ClockedBy row clock)
    (hlt : clock < hlc) {c : String} (hc : inherited c = none) :
    wins row.colClocks hlc c = true := by
  unfold Server.wins readClock
  rw [hc, Option.or_none]
  split
  · rfl
  · rename_i held hheld
    rcases Option.filter_eq_some_iff.1 hheld with ⟨hclock, -⟩
    exact decide_eq_true (lt_of_le_of_lt (h.colClocks c held hclock) hlt)

theorem clockedBy_rowClock (data : Option Row) (hlc : Hlc) :
    ClockedBy ⟨data, rowClock hlc, some hlc⟩ hlc where
  serverHlc held hheld := by
    cases hheld
    exact le_refl _
  colClocks c held hheld := by
    by_cases hc : c = "_row"
    · subst hc
      rw [rowClock, AList.lookup_insert] at hheld
      cases hheld
      exact le_refl _
    · rw [rowClock, AList.lookup_insert_ne hc] at hheld
      cases hheld

theorem clockOf_le {d : Delta}
    (h : ∀ clocks ∈ d.colClocks, ∀ c, ∀ held ∈ clocks.lookup c, held ≤ d.hlc) (c : String) :
    d.clockOf c ≤ d.hlc := by
  unfold Delta.clockOf
  cases hclocks : d.colClocks with
  | none => exact le_refl _
  | some clocks =>
      rw [Option.getD_some]
      cases hc : clocks.lookup c with
      | none => exact le_refl _
      | some held => exact h clocks hclocks c held hc

theorem ClockedBy.advanceRow_le {row : LocalRow} {hlc : Hlc} (h : ClockedBy row hlc) :
    advanceRow row hlc ≤ hlc := by
  unfold advanceRow
  split
  · rename_i held hheld
    rcases Option.filter_eq_some_iff.1 hheld with ⟨hserver, -⟩
    split
    · exact h.serverHlc held hserver
    · exact le_refl _
  · exact le_refl _

/-- A row that a delta leaves has no clock above the delta's, if the row before and the delta have
none. -/
theorem clockedBy_applyEntry {pk : String} {existing : Option LocalRow} {d : Delta}
    {row' : LocalRow}
    (h : applyEntry pk existing d = some row') (hold : ∀ row ∈ existing, ClockedBy row d.hlc)
    (hclocks : ∀ clocks ∈ d.colClocks, ∀ c, ∀ held ∈ clocks.lookup c, held ≤ d.hlc) :
    ClockedBy row' d.hlc := by
  unfold applyEntry at h
  split at h
  · split at h
    · cases h
    · cases h
      refine ⟨fun held hheld => ?_, fun c held hheld => by cases hheld⟩
      cases hheld
      exact le_refl _
  · rename_i row _
    have hrow := hold row rfl
    dsimp only at h
    split at h
    · cases h
    · cases h
      refine ⟨fun held hheld => ?_, fun c held hheld => ?_⟩
      · cases hheld
        exact hrow.advanceRow_le
      · by_cases hc : c = "_row"
        · subst hc
          rw [AList.lookup_insert] at hheld
          cases hheld
          exact hrow.advanceRow_le
        · rw [AList.lookup_insert_ne hc, lookup_assignAll, clocks_newerColumns] at hheld
          split at hheld
          · exact hrow.colClocks c held hheld
          · rcases Option.or_eq_some_iff.1 hheld with hnew | ⟨-, hkept⟩
            · rcases List.mem_map.1 (mem_of_lastWrite hnew) with ⟨c', -, heq⟩
              cases heq
              exact clockOf_le hclocks c
            · exact hrow.colClocks c held hkept
  · split at h
    · cases h
    · cases h
      cases hd : d.colClocks with
      | none => exact clockedBy_rowClock _ _
      | some clocks =>
          refine ⟨fun held hheld => ?_, fun c held hheld => hclocks clocks hd c held hheld⟩
          cases hheld
          exact le_refl _

end JsonStore
end Client
end Reflectdb
