import Reflectdb.Client.JsonStore
import Reflectdb.Core.JsValue
import Reflectdb.Lib.KeyedDiff

/-!
# JSON cache — the diff of two results, with values as queries return them

`ResultCache` for one client and one query.  Columns may be `undefined`, there or nested, which JSON
does not keep; rows are plain objects, so that a name that objects inherit is read where a row does
not have it.
-/

namespace Reflectdb
namespace Server
namespace JsonCache

open Core Client Lib

/-! ## Results -/

/-- A value of a column: the keys of an object are distinct. -/
abbrev Column : Type :=
  { v : JsValue // v.Distinct }

def Column.null : Column :=
  ⟨.null, trivial⟩

/-- The JSON of a column up to the order of keys; `undefined` and a missing column count as
`null`. -/
def jsonColumn (row : Record Column) (c : String) : JsonText.Value :=
  ((row.lookup c).bind (·.1.json)).getD .null

inductive Scalar
  | null
  | bool (b : Bool)
  | num (n : JsonText.Number)
  | str (s : Lib.Text)
  deriving DecidableEq

namespace Scalar

def column : Scalar → Column
  | .null => ⟨.null, trivial⟩
  | .bool b => ⟨.bool b, trivial⟩
  | .num n => ⟨.num n, trivial⟩
  | .str s => ⟨.str s, trivial⟩

/-- `row[pk] ?? ""`, the key that a snapshot files a row under. -/
def rowKey : Scalar → JsonStore.RowKey
  | .null => .str []
  | .bool b => .bool b
  | .num n => .num n
  | .str s => .str s

/-- `String(row[pk] ?? "")` -/
def rowId (k : Scalar) : Lib.Text :=
  k.rowKey.text

end Scalar

/-- A row with its primary key, a JSON scalar. -/
structure ResultRow (pk : String) where
  columns : Record Column
  key : Scalar
  own : columns.lookup pk = some key.column

variable {pk : String}

def ResultRow.rowId (row : ResultRow pk) : Lib.Text :=
  row.key.rowId

/-- The rows of a result have distinct keys as strings. -/
structure Result (pk : String) where
  rows : List (ResultRow pk)
  nodup : (rows.map (·.rowId)).Nodup

/-- The row of a result under a row id. -/
def Result.row (result : Result pk) (rowId : Lib.Text) : Option (ResultRow pk) :=
  result.rows.find? (·.rowId = rowId)

abbrev CachedRows (pk : String) : Type :=
  AList fun _ : Lib.Text => ResultRow pk

/-- The map that `set` and `diffOnly` build: rows without an id are left out. -/
def byRowId (result : Result pk) : CachedRows pk :=
  replay ∅ ((result.rows.map fun row => (row.rowId, row)).filter (·.1 ≠ []))

/-! ## The diff -/

/-- `deepEqual(oldRow[key], newValue)`.  Where the old row does not have the column, what is read is
`undefined`, or a function, or `Object.prototype`, which has no keys of its own. -/
def readsEqual (old : Record Column) (c : String) (value : Column) : Bool :=
  match old.lookup c with
  | some held => held.1.deepEqual value.1
  | none =>
    if c = "__proto__" then JsValue.deepEqual (.obj []) value.1
    else if (inherited c).isSome then false
    else JsValue.deepEqual .undefined value.1

/-- `key in newRow` -/
def hasProperty (row : Record Column) (c : String) : Bool :=
  (row.lookup c).isSome || (inherited c).isSome

/-- What `fieldDiff` sets: the columns that differ, and a removed one to `null`. -/
def changes (old new : Record Column) : List (String × Column) :=
  writes (new.entries.filter fun e => ! readsEqual old e.1 e.2) ++
    (old.keys.filter fun c => ! hasProperty new c).map fun c => (c, Column.null)

/-- Only the changed columns, or `none` if nothing changed.  `changed["__proto__"]` adds no key. -/
def fieldDiff (old new : ResultRow pk) : Option (Record Column) :=
  let set := changes old.columns new.columns
  if set.isEmpty then none else some (assignAll ∅ set)

def diff (oldRows newRows : CachedRows pk) : KeyedDiff Lib.Text (ResultRow pk) (Record Column) :=
  keyedDiff fieldDiff oldRows newRows

/-- `diffOnly` against the committed rows. -/
def diffOnly (cached : CachedRows pk) (result : Result pk) :
    KeyedDiff Lib.Text (ResultRow pk) (Record Column) :=
  diff cached (byRowId result)

/-! ## Messages -/

/-- `JSON.parse(JSON.stringify(row))` -/
def encodeRow (row : Record Column) : JsonStore.Row :=
  replay ∅ (row.entries.filterMap fun e => e.2.1.toJson.map fun v => (e.1, v))

/-- The deltas of a broadcast; an update carries its HLC for each changed column. -/
def deltaMessages (pk : String) (hlc : Hlc) :
    Messages Lib.Text (ResultRow pk) (Record Column) JsonStore.Delta where
  key := (·.rowId)
  insert rowId row := ⟨.insert, rowId, some (encodeRow row.columns), hlc, none⟩
  update rowId changed := ⟨.update, rowId, some (encodeRow changed), hlc,
    some (replay ∅ (changed.keys.map fun c => (c, hlc)))⟩
  delete rowId := ⟨.delete, rowId, none, hlc, none⟩
  key_insert _ _ := rfl
  key_update _ _ := rfl
  key_delete _ := rfl

/-- The `snapshot` message of a result: every row with an id is stamped with the HLC. -/
def snapshotMessage (result : Result pk) (hlc : Hlc) : JsonStore.Snapshot where
  rows := result.rows.map fun row => encodeRow row.columns
  colClocks := replay ∅ (((result.rows.map (·.rowId)).filter fun rowId =>
    rowId ≠ [] ∧ rowId ≠ Text.ofChars ['_', '_', 'p', 'r', 'o', 't', 'o', '_', '_']).map
      fun rowId => (rowId, rowClock hlc))
  append := false
  pk := pk

/-! ## Lookups -/

theorem lookup_encodeRow (row : Record Column) (c : String) :
    (encodeRow row).lookup c = (row.lookup c).bind (·.1.toJson) := by
  rw [encodeRow, lookup_replay_empty]
  exact lastWrite_filterMap row (·.1.toJson) c

/-- The client's column is the column of the result. -/
theorem canonical_column_encodeRow (row : Record Column) (c : String) :
    JsonText.canonical (JsonStore.column (encodeRow row) c) = jsonColumn row c := by
  rw [JsonStore.column, lookup_encodeRow, jsonColumn]
  cases row.lookup c with
  | none => simp [JsonText.canonical]
  | some v => exact v.1.canonical_getD

theorem snapshotKey_encodeRow (row : ResultRow pk) :
    JsonStore.snapshotKey pk (encodeRow row.columns) = row.key.rowKey := by
  rw [JsonStore.snapshotKey, JsonStore.column, lookup_encodeRow, row.own]
  cases row.key <;> rfl

theorem Result.row_eq_some_iff {result : Result pk} {rowId : Lib.Text} {row : ResultRow pk} :
    result.row rowId = some row ↔ row ∈ result.rows ∧ row.rowId = rowId := by
  constructor
  · intro h
    exact ⟨List.mem_of_find?_eq_some h, by simpa using List.find?_some h⟩
  · rintro ⟨hmem, rfl⟩
    cases hfound : result.row row.rowId with
    | none => simpa using List.find?_eq_none.1 hfound row hmem
    | some row' =>
        have hid : row'.rowId = row.rowId := by simpa using List.find?_some hfound
        have hmem' : row' ∈ result.rows := List.mem_of_find?_eq_some hfound
        rw [List.inj_on_of_nodup_map result.nodup hmem' hmem hid]

theorem lookup_byRowId (result : Result pk) {rowId : Lib.Text} (h : rowId ≠ []) :
    (byRowId result).lookup rowId = result.row rowId := by
  have hmem :
      ∀ row, (rowId, row) ∈ (result.rows.map fun row => (row.rowId, row)).filter (·.1 ≠ []) ↔
      result.row rowId = some row := by
    intro row
    rw [Result.row_eq_some_iff, List.mem_filter, List.mem_map]
    constructor
    · rintro ⟨⟨row', hrow, heq⟩, -⟩
      cases heq
      exact ⟨hrow, rfl⟩
    · rintro ⟨hrow, hid⟩
      exact ⟨⟨row, hrow, by rw [hid]⟩, by simpa using h⟩
  rw [byRowId, lookup_replay_empty]
  cases hrow : result.row rowId with
  | some row =>
      refine lastWrite_of_mem_nodup ?_ ((hmem row).2 hrow)
      refine result.nodup.sublist ?_
      have hkeys : (result.rows.map fun row => (row.rowId, row)).map (·.1) =
          result.rows.map (·.rowId) := by
        rw [List.map_map]
        rfl
      exact hkeys ▸ List.filter_sublist.map _
  | none =>
      refine lastWrite_eq_none.2 fun w hw hid => ?_
      subst hid
      rw [(hmem w.2).1 hw] at hrow
      cases hrow

/-- No row of the cached map has the empty id. -/
theorem lookup_byRowId_nil (result : Result pk) : (byRowId result).lookup [] = none := by
  rw [byRowId, lookup_replay_empty]
  refine lastWrite_eq_none.2 fun w hw => ?_
  simpa using (List.mem_filter.1 hw).2

theorem lookup_changes (old new : Record Column) (c : String) :
    lastWrite (changes old new) c =
      match new.lookup c with
      | some value => if readsEqual old c value then none else some value
      | none =>
        if (old.lookup c).isSome && ! hasProperty new c then some Column.null else none := by
  rw [changes, lastWrite_append, lastWrite_const, lastWrite_filter]
  cases hnew : new.lookup c with
  | some value =>
      have hkept : c ∉ old.keys.filter fun c => ! hasProperty new c := by
        simp [hasProperty, hnew]
      rw [if_neg hkept, Option.none_or]
      cases hreads : readsEqual old c value with
      | false => simp [hreads]
      | true => simp [hreads]
  | none =>
      cases hold : old.lookup c with
      | none =>
          have hkept : c ∉ old.keys.filter fun c => ! hasProperty new c := fun hmem =>
            AList.lookup_eq_none.1 hold (AList.mem_keys.2 (List.mem_filter.1 hmem).1)
          simp [hkept]
      | some held =>
          have hmem : c ∈ old.keys :=
            AList.mem_keys.1 (AList.lookup_isSome.1 (Option.isSome_of_eq_some hold))
          cases hproperty : hasProperty new c with
          | false => simp [hmem, hproperty]
          | true => simp [hproperty]

end JsonCache
end Server
end Reflectdb
