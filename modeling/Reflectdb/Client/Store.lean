import Mathlib.Data.String.Basic
import Reflectdb.Core.Types
import Reflectdb.Lib.Replay

/-!
# Client store — one table of a client, under snapshots and deltas

`ClientStore.rows` for one table: a `Map` from row keys to local rows.  A delta addresses its row by
the string `rowId`; a snapshot row is filed under its raw primary key, which is a string only where
the query's primary key is one.  Keys are therefore JSON values here.
-/

namespace Reflectdb
namespace Client

open Core

/-- A row as a query returns it and the client holds it. -/
abbrev Row : Type :=
  Record Json

/-- A packed HLC; `compareHlc` is the order of strings. -/
abbrev Hlc : Type :=
  String

/-! ## Values and row ids -/

/-- A column as JavaScript code reads it: a missing column reads as `undefined`, which counts as
`null` here. -/
def column (row : Row) (c : String) : Json :=
  (row.lookup c).getD .null

/-- Two rows with equal columns, a missing column counting as `null`. -/
def SameRow (a b : Row) : Prop :=
  ∀ c, column a c = column b c

mutual

/-- `String(value)`, with `null` (as an element of an array, too) giving the empty string. -/
def jsString : Json → String
  | .null => ""
  | .bool b => if b then "true" else "false"
  | .num n => toString n
  | .str s => s
  | .arr elems => jsJoin elems
  | .obj _ => "[object Object]"

def jsJoin : JsonArr → String
  | .nil => ""
  | .cons x .nil => jsString x
  | .cons x xs => jsString x ++ "," ++ jsJoin xs

end

/-- `String(row[pk] ?? "")`. -/
def rowIdOf (pk : String) (row : Row) : String :=
  jsString (column row pk)

/-! ## Local rows -/

structure LocalRow where
  /-- `none` is a tombstone. -/
  data : Option Row
  colClocks : Record Hlc
  serverHlc : Option Hlc

/-- `ClientStore.rows.get(table)`. -/
abbrev TableRows : Type :=
  AList fun _ : Json => LocalRow

/-- A `delta` message of the table. -/
structure Delta where
  op : OpType
  rowId : String
  payload : Option Row
  hlc : Hlc
  colClocks : Option (Record Hlc)

/-- A `snapshot` message of the table. -/
structure Snapshot where
  rows : List Row
  colClocks : Record (Record Hlc)
  append : Bool
  pk : String

/-- The key a snapshot row is filed under: `(row[pk] as string) ?? ""`. -/
def snapshotKey (pk : String) (row : Row) : Json :=
  match column row pk with
  | .null => .str ""
  | key => key

/-- A row as `applySnapshot` stores it. -/
def snapshotEntry (msg : Snapshot) (row : Row) : LocalRow :=
  let clocks := (msg.colClocks.lookup (jsString (snapshotKey msg.pk row))).getD ∅
  ⟨some row, clocks, clocks.lookup "_row"⟩

def applySnapshot (t : TableRows) (msg : Snapshot) : TableRows :=
  Lib.replay (if msg.append then t else ∅)
    (msg.rows.map fun row => (snapshotKey msg.pk row, snapshotEntry msg row))

/-- A materialised row carries its own primary key. -/
def withPk (pk rowId : String) (data : Row) : Row :=
  match data.lookup pk with
  | some _ => data
  | none => data.insert pk (.str rowId)

/-- `{ _row: hlc }`. -/
def rowClock (hlc : Hlc) : Record Hlc :=
  (∅ : Record Hlc).insert "_row" hlc

/-- `existing?.serverHlc && compareHlc(hlc, existing.serverHlc) <= 0`. -/
def isStale (existing : Option LocalRow) (hlc : Hlc) : Bool :=
  match existing.bind (·.serverHlc) with
  | some held => hlc ≤ held
  | none => false

/-- The columns of an update that are newer than what the row holds, with their clocks. -/
def newerColumns (existing : LocalRow) (d : Delta) : List (String × Json × Hlc) :=
  ((d.payload.getD ∅).entries.map fun e =>
    (e.1, e.2, ((d.colClocks.getD ∅).lookup e.1).getD d.hlc)).filter fun u =>
      match existing.colClocks.lookup u.1 with
      | none => true
      | some held => held < u.2.2

/-- `_row` after an update: the highest HLC that reached the row. -/
def advanceRow (existing : LocalRow) (hlc : Hlc) : Hlc :=
  match existing.serverHlc with
  | some held => if hlc ≤ held then held else hlc
  | none => hlc

/-- The row that a delta leaves in place of `existing`, or `none` if the delta is stale. -/
def applyEntry (pk : String) (existing : Option LocalRow) (d : Delta) : Option LocalRow :=
  match d.op, existing with
  | .delete, existing =>
    if isStale existing d.hlc then none else some ⟨none, ∅, some d.hlc⟩
  | .update, some row =>
    let newer := newerColumns row d
    if newer = [] then none
    else
      let data := Lib.replay (row.data.getD ∅) (newer.map fun u => (u.1, u.2.1))
      let clocks := Lib.replay row.colClocks (newer.map fun u => (u.1, u.2.2))
      let rowHlc := advanceRow row d.hlc
      some ⟨some (withPk pk d.rowId data), clocks.insert "_row" rowHlc, some rowHlc⟩
  | _, existing =>
    -- An insert, or an update of a row that was never there.
    if isStale existing d.hlc then none
    else
      let clocks := d.colClocks.getD (rowClock d.hlc)
      some ⟨some (withPk pk d.rowId (d.payload.getD ∅)), clocks, some d.hlc⟩

/-- `applyDelta`; `pk` is the table's primary key in `tableMeta`. -/
def applyDelta (pk : String) (t : TableRows) (d : Delta) : TableRows :=
  match applyEntry pk (t.lookup (.str d.rowId)) d with
  | some row => t.insert (.str d.rowId) row
  | none => t

def applyDeltas (pk : String) (t : TableRows) (ds : List Delta) : TableRows :=
  ds.foldl (applyDelta pk) t

/-- The data of the row under a key; a tombstone holds none. -/
def heldRow (t : TableRows) (key : Json) : Option Row :=
  (t.lookup key).bind (·.data)

end Client
end Reflectdb
