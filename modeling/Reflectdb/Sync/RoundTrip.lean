import Reflectdb.Lib.Machine
import Reflectdb.Server.JsonCache

/-!
# Round trip — a client that loads one result and folds the diffs to each next one

The server diffs each result against the one before and sends the deltas as JSON.  A snapshot files
its rows under the values of their primary keys, a delta under a string; and some changes of a
column do not reach the client.  Where each step avoids these, the client holds the last result.
-/

namespace Reflectdb
namespace Sync

open Core Client Lib Server.JsonCache

variable {pk : String}

/-! ## The session -/

/-- One subscription: the result that was loaded, the last one, the rows of the cache and of the
client, and the last HLC. -/
structure RoundTrip (pk : String) where
  first : Result pk
  result : Result pk
  cached : CachedRows pk
  table : JsonStore.Table
  clock : Hlc

structure NextResult (pk : String) where
  result : Result pk
  hlc : Hlc

def loaded (first : Result pk) (hlc : Hlc) : RoundTrip pk where
  first := first
  result := first
  cached := byRowId first
  table := JsonStore.applySnapshot ∅ (snapshotMessage first hlc)
  clock := hlc

/-- The deltas to the next result are sent and folded, and the cache holds the next result. -/
def RoundTrip.send (s : RoundTrip pk) (e : NextResult pk) : RoundTrip pk where
  first := s.first
  result := e.result
  cached := byRowId e.result
  table := ((deltaMessages pk e.hlc).all (diffOnly s.cached e.result)).foldl
    (JsonStore.applyDelta pk) s.table
  clock := e.hlc

/-- Results one after the other, each under a newer HLC. -/
def roundTripMachine (first : Result pk) (hlc : Hlc) : Machine (RoundTrip pk) (NextResult pk) where
  init := loaded first hlc
  step s e := if s.clock < e.hlc then some (s.send e) else none

theorem roundTripMachine_step {first : Result pk} {hlc : Hlc} {s : RoundTrip pk} {e : NextResult pk}
    (h : s.clock < e.hlc) : (roundTripMachine first hlc).step s e = some (s.send e) := by
  dsimp only [roundTripMachine]
  exact if_pos h

/-! ## What the client is to hold -/

/-- `String(row[pk] ?? "")` -/
def heldId (pk : String) (data : JsonStore.Row) : Lib.Text :=
  (JsonStore.snapshotKey pk data).text

/-- Equal columns as JSON values, an `undefined` or missing one counting as `null`. -/
def SameColumns (data : JsonStore.Row) (row : Record Column) : Prop :=
  ∀ c, JsonText.canonical (JsonStore.column data c) = jsonColumn row c

/-- The client holds exactly the rows of the result, one for each primary key. -/
structure Shows (t : JsonStore.Table) (result : Result pk) : Prop where
  rows : ∀ row ∈ result.rows, ∃ key data, JsonStore.heldRow t key = some data ∧
    heldId pk data = row.rowId ∧ SameColumns data row.columns ∧
      ∀ key' data', JsonStore.heldRow t key' = some data' → heldId pk data' = row.rowId → key' = key
  only : ∀ key data, JsonStore.heldRow t key = some data →
    ∃ row ∈ result.rows, heldId pk data = row.rowId

/-! ## What a step may change -/

/-- The key that the client has a row under: its primary key, if it was loaded, else its row id. -/
def place (first : Result pk) (rowId : Lib.Text) : JsonStore.RowKey :=
  match first.row rowId with
  | some row => row.key.rowKey
  | none => .str rowId

/-- Deltas reach the row: its id is not empty, and it was not loaded under a number or a Boolean. -/
def Addressed (first : Result pk) (rowId : Lib.Text) : Prop :=
  rowId ≠ [] ∧ place first rowId = .str rowId

instance (first : Result pk) (rowId : Lib.Text) : Decidable (Addressed first rowId) :=
  inferInstanceAs (Decidable (_ ∧ _))

/-- A column of an update stays as it is in JSON, or is not set to `undefined` and does not have the
name of something that objects inherit. -/
def ColumnReaches (old new : Record Column) (c : String) : Prop :=
  jsonColumn old c = jsonColumn new c ∨
    Server.inherited c = none ∧ ∀ value, new.lookup c = some value → value.1 ≠ .undefined

/-- The next result changes the row in ways that reach the client only. -/
def RowReaches (first : Result pk) (rowId : Lib.Text) : Option (ResultRow pk) →
    Option (ResultRow pk) → Prop
  | none, none => True
  | some old, some new =>
    if Addressed first rowId then ∀ c, ColumnReaches old.columns new.columns c
    else (∀ c, jsonColumn old.columns c = jsonColumn new.columns c) ∧
      (rowId ≠ [] → fieldDiff old new = none)
  | _, _ => Addressed first rowId

def ResultReaches (s : RoundTrip pk) (e : NextResult pk) : Prop :=
  ∀ rowId, RowReaches s.first rowId (s.result.row rowId) (e.result.row rowId)

/-! ## What an update says -/

section Update

variable {old new : Record Column} {c : String}

/-- What reads as equal has the same JSON, unless the name is one that objects inherit. -/
theorem jsonColumn_of_readsEqual {value : Column} (hc : Server.inherited c = none)
    (h : readsEqual old c value = true) : jsonColumn old c = value.1.json.getD .null := by
  unfold readsEqual at h
  unfold jsonColumn
  cases hold : old.lookup c with
  | some held =>
      rw [hold] at h
      rw [Option.bind_some, JsValue.json_of_deepEqual held.1 value.1 held.2 value.2 h]
  | none =>
      have hproto : c ≠ "__proto__" := by
        rintro rfl
        cases hc
      rw [hold, if_neg hproto, hc] at h
      rw [← JsValue.json_of_deepEqual .undefined value.1 trivial value.2 h]
      rfl

/-- A column of the payload is the column of the new row. -/
theorem canonical_of_lookup_payload {v : JsonText.Value} {changed : Record Column}
    (hchanged : changed = Server.assignAll ∅ (changes old new)) (hc : c ≠ "__proto__")
    (h : (encodeRow changed).lookup c = some v) : JsonText.canonical v = jsonColumn new c := by
  rw [lookup_encodeRow, hchanged, Server.lookup_assignAll, if_neg hc, lookup_changes] at h
  unfold jsonColumn
  cases hnew : new.lookup c with
  | some value =>
      rw [hnew] at h
      dsimp only at h
      split at h
      · cases h
      · have hv : value.1.toJson = some v := h
        rw [Option.bind_some, JsValue.json, hv]
        rfl
  | none =>
      rw [hnew] at h
      dsimp only at h
      split at h
      · cases h
        rfl
      · cases h

theorem isSome_toJson {v : JsValue} (h : v ≠ .undefined) : v.toJson.isSome = true := by
  cases v <;> first | rfl | exact absurd rfl h

/-- A column that reaches the client and changes is in the payload. -/
theorem lookup_payload_of_changed {changed : Record Column}
    (hchanged : changed = Server.assignAll ∅ (changes old new)) (hreaches : ColumnReaches old new c)
    (hdiffers : jsonColumn old c ≠ jsonColumn new c) :
    Server.inherited c = none ∧ ((encodeRow changed).lookup c).isSome = true := by
  rcases hreaches with hsame | ⟨hc, hdefined⟩
  · exact absurd hsame hdiffers
  have hproto : c ≠ "__proto__" := by
    rintro rfl
    cases hc
  refine ⟨hc, ?_⟩
  rw [lookup_encodeRow, hchanged, Server.lookup_assignAll, if_neg hproto, lookup_changes]
  cases hnew : new.lookup c with
  | some value =>
      have hreads : readsEqual old c value = false := by
        rw [Bool.eq_false_iff]
        intro hreads
        refine hdiffers ((jsonColumn_of_readsEqual hc hreads).trans ?_)
        rw [jsonColumn, hnew]
        rfl
      simp only [hreads, Bool.false_eq_true, if_false, Option.some_or, Option.bind_some]
      exact isSome_toJson (hdefined value hnew)
  | none =>
      have hold : (old.lookup c).isSome = true := by
        rw [Option.isSome_iff_ne_none]
        intro hnone
        exact hdiffers (by rw [jsonColumn, jsonColumn, hnone, hnew])
      have hgone : hasProperty new c = false := by
        rw [hasProperty, hnew, hc]
        rfl
      simp only [hold, hgone]
      rfl

/-- Where nothing is sent of a row, nothing of it changed. -/
theorem jsonColumn_of_fieldDiff_none {old new : ResultRow pk} (h : fieldDiff old new = none)
    {c : String} (hreaches : ColumnReaches old.columns new.columns c) :
    jsonColumn old.columns c = jsonColumn new.columns c := by
  by_contra hdiffers
  have hempty : (changes old.columns new.columns).isEmpty = true := by
    unfold fieldDiff at h
    dsimp only at h
    split at h
    · assumption
    · cases h
  have hsent := lookup_payload_of_changed rfl hreaches hdiffers
  rw [List.isEmpty_iff.1 hempty, lookup_encodeRow] at hsent
  cases hsent.2

theorem fieldDiff_eq_some {old new : ResultRow pk} {changed : Record Column}
    (h : fieldDiff old new = some changed) :
    changed = Server.assignAll ∅ (changes old.columns new.columns) := by
  unfold fieldDiff at h
  dsimp only at h
  split at h
  · cases h
  · exact (Option.some.inj h).symm

end Update

/-! ## Keys -/

theorem text_place (first : Result pk) (rowId : Lib.Text) : (place first rowId).text = rowId := by
  unfold place
  split
  · rename_i row hrow
    exact (Result.row_eq_some_iff.1 hrow).2
  · rfl

/-- The client's row has the primary key of the row that it shows. -/
theorem snapshotKey_of_sameColumns {data : JsonStore.Row} {row : ResultRow pk}
    (h : SameColumns data row.columns) : JsonStore.snapshotKey pk data = row.key.rowKey := by
  have hkey := h pk
  rw [jsonColumn, row.own, Option.bind_some] at hkey
  unfold JsonStore.snapshotKey
  cases hk : row.key <;> rw [hk] at hkey <;> cases hcol : JsonStore.column data pk <;>
    rw [hcol] at hkey <;> simp_all [JsonText.canonical, Scalar.column, JsValue.json, JsValue.toJson,
      Scalar.rowKey]

theorem heldId_of_sameColumns {data : JsonStore.Row} {row : ResultRow pk}
    (h : SameColumns data row.columns) : heldId pk data = row.rowId := by
  rw [heldId, snapshotKey_of_sameColumns h]
  rfl

/-! ## The invariant -/

/-- What is held in the place of a row. -/
def ShownAt (held : Option JsonStore.Row) : Option (ResultRow pk) → Prop
  | some row => ∃ data, held = some data ∧ SameColumns data row.columns
  | none => held = none

structure RoundTripInv (s : RoundTrip pk) : Prop where
  cached : s.cached = byRowId s.result
  placed : ∀ key data, JsonStore.heldRow s.table key = some data → key = place s.first key.text
  shown : ∀ rowId, ShownAt (JsonStore.heldRow s.table (place s.first rowId)) (s.result.row rowId)
  clocked : ∀ key row, s.table.lookup key = some row → JsonStore.ClockedBy row s.clock

/-- A row that is held is a row of the result, in its place. -/
theorem RoundTripInv.row_of_held {s : RoundTrip pk} (h : RoundTripInv s) {key : JsonStore.RowKey}
    {data : JsonStore.Row} (hheld : JsonStore.heldRow s.table key = some data) :
    ∃ row ∈ s.result.rows, heldId pk data = row.rowId ∧ key = place s.first row.rowId := by
  have hkey := h.placed key data hheld
  have hshown := h.shown key.text
  rw [← hkey, hheld] at hshown
  cases hrow : s.result.row key.text with
  | none =>
      rw [hrow] at hshown
      cases hshown
  | some row =>
      rw [hrow] at hshown
      rcases hshown with ⟨data', heq, hsame⟩
      cases heq
      rcases Result.row_eq_some_iff.1 hrow with ⟨hmem, hid⟩
      exact ⟨row, hmem, heldId_of_sameColumns hsame, by rw [hid, ← hkey]⟩

theorem RoundTripInv.shows {s : RoundTrip pk} (h : RoundTripInv s) : Shows s.table s.result where
  rows row hrow := by
    have hshown := h.shown row.rowId
    rw [Result.row_eq_some_iff.2 ⟨hrow, rfl⟩] at hshown
    rcases hshown with ⟨data, hdata, hsame⟩
    refine ⟨_, data, hdata, heldId_of_sameColumns hsame, hsame, fun key' data' hheld hid => ?_⟩
    rcases h.row_of_held hheld with ⟨row', -, hid', hplace⟩
    rw [hplace, ← hid', hid]
  only key data hheld := by
    rcases h.row_of_held hheld with ⟨row, hrow, hid, -⟩
    exact ⟨row, hrow, hid⟩

/-! ## The start -/

theorem lookup_loaded (first : Result pk) (hlc : Hlc) (key : JsonStore.RowKey) :
    (loaded first hlc).table.lookup key =
      lastWrite (first.rows.map fun row => (row.key.rowKey,
        JsonStore.snapshotEntry (snapshotMessage first hlc) (encodeRow row.columns))) key := by
  have hrows : ((snapshotMessage first hlc).rows.map fun row =>
      (JsonStore.snapshotKey (snapshotMessage first hlc).pk row,
        JsonStore.snapshotEntry (snapshotMessage first hlc) row)) =
      first.rows.map fun row => (row.key.rowKey,
        JsonStore.snapshotEntry (snapshotMessage first hlc) (encodeRow row.columns)) := by
    rw [snapshotMessage, List.map_map]
    refine List.map_congr_left fun row _ => ?_
    exact Prod.ext (snapshotKey_encodeRow row) rfl
  rw [loaded, JsonStore.applySnapshot, hrows]
  exact lookup_replay_empty _ _

theorem nodup_rowKeys (first : Result pk) : (first.rows.map fun row => row.key.rowKey).Nodup := by
  refine List.Nodup.of_map JsonStore.RowKey.text ?_
  rw [List.map_map]
  exact first.nodup

/-- The rows of the snapshot are held under their primary keys. -/
theorem lookup_loaded_eq_some_iff {first : Result pk} {hlc : Hlc} {key : JsonStore.RowKey}
    {held : JsonStore.LocalRow} :
    (loaded first hlc).table.lookup key = some held ↔
      ∃ row ∈ first.rows, row.key.rowKey = key ∧
        held = JsonStore.snapshotEntry (snapshotMessage first hlc) (encodeRow row.columns) := by
  rw [lookup_loaded]
  constructor
  · intro h
    rcases List.mem_map.1 (mem_of_lastWrite h) with ⟨row, hrow, heq⟩
    exact ⟨row, hrow, congrArg Prod.fst heq, (congrArg Prod.snd heq).symm⟩
  · rintro ⟨row, hrow, rfl, rfl⟩
    refine lastWrite_of_mem_nodup ?_ (List.mem_map.2 ⟨row, hrow, rfl⟩)
    rw [List.map_map]
    exact nodup_rowKeys first

theorem clockedBy_snapshotEntry (result : Result pk) (hlc : Hlc) (row : JsonStore.Row) :
    JsonStore.ClockedBy (JsonStore.snapshotEntry (snapshotMessage result hlc) row) hlc := by
  have hclocks : ∀ rowId clocks, (snapshotMessage result hlc).colClocks.lookup rowId = some clocks →
      clocks = rowClock hlc := by
    intro rowId clocks h
    rw [snapshotMessage, lookup_replay_empty, lastWrite_const] at h
    split at h
    · cases h
      rfl
    · cases h
  unfold JsonStore.snapshotEntry
  cases h : (snapshotMessage result hlc).colClocks.lookup
      (JsonStore.snapshotKey (snapshotMessage result hlc).pk row).text with
  | none =>
      have hempty : ∀ c : String, ∀ held ∈ (∅ : Record Hlc).lookup c, held ≤ hlc := by
        intro c held hheld
        cases hheld
      exact ⟨hempty "_row", hempty⟩
  | some clocks =>
      cases hclocks _ _ h
      have hrow := JsonStore.clockedBy_rowClock (some row) hlc
      exact ⟨hrow.colClocks "_row", hrow.colClocks⟩

theorem roundTripInv_loaded (first : Result pk) (hlc : Hlc) :
    RoundTripInv (loaded first hlc) where
  cached := rfl
  placed key data hheld := by
    rcases Option.bind_eq_some_iff.1 hheld with ⟨held, hlookup, -⟩
    rcases lookup_loaded_eq_some_iff.1 hlookup with ⟨row, hrow, rfl, -⟩
    have hfound : first.row row.key.rowKey.text = some row :=
      Result.row_eq_some_iff.2 ⟨hrow, rfl⟩
    rw [loaded, place, hfound]
  shown rowId := by
    cases hrow : first.row rowId with
    | some row =>
        have hplace : place first rowId = row.key.rowKey := by rw [place, hrow]
        have hheld : (loaded first hlc).table.lookup row.key.rowKey = some _ :=
          lookup_loaded_eq_some_iff.2 ⟨row, (Result.row_eq_some_iff.1 hrow).1, rfl, rfl⟩
        have hresult : (loaded first hlc).result.row rowId = some row := hrow
        rw [hresult]
        refine ⟨encodeRow row.columns, ?_, canonical_column_encodeRow row.columns⟩
        rw [show (loaded first hlc).first = first from rfl, hplace, JsonStore.heldRow, hheld]
        rfl
    | none =>
        have hplace : place first rowId = .str rowId := by rw [place, hrow]
        have hresult : (loaded first hlc).result.row rowId = none := hrow
        rw [hresult, show (loaded first hlc).first = first from rfl, hplace]
        cases hheld : (loaded first hlc).table.lookup (.str rowId) with
        | none => exact congrArg (·.bind (·.data)) hheld
        | some held =>
            rcases lookup_loaded_eq_some_iff.1 hheld with ⟨row, hmem, hkey, -⟩
            have hid : row.rowId = rowId := congrArg JsonStore.RowKey.text hkey
            rw [Result.row_eq_some_iff.2 ⟨hmem, hid⟩] at hrow
            cases hrow
  clocked key row hlookup := by
    rcases lookup_loaded_eq_some_iff.1 hlookup with ⟨row', -, -, rfl⟩
    exact clockedBy_snapshotEntry first hlc _

/-! ## A step -/

section Step

variable {s : RoundTrip pk} {e : NextResult pk}

/-- The delta of a row, if it has one. -/
def rowMessage (s : RoundTrip pk) (e : NextResult pk) (rowId : Lib.Text) : Option JsonStore.Delta :=
  (deltaMessages pk e.hlc).ofKey fieldDiff rowId (s.cached.lookup rowId)
    ((byRowId e.result).lookup rowId)

theorem rowId_of_rowMessage {rowId : Lib.Text} {d : JsonStore.Delta}
    (h : rowMessage s e rowId = some d) : d.rowId = rowId :=
  Messages.key_of_ofKey h

/-- Each row of the table meets its delta as it was before the step. -/
theorem lookup_send (s : RoundTrip pk) (e : NextResult pk) (rowId : Lib.Text) :
    (s.send e).table.lookup (.str rowId) =
      match rowMessage s e rowId with
      | some d => (JsonStore.applyDelta pk s.table d).lookup (.str rowId)
      | none => s.table.lookup (.str rowId) := by
  have hinj : Function.Injective JsonStore.RowKey.str := fun _ _ heq => JsonStore.RowKey.str.inj heq
  have hfold := @Files.foldl_all _ _ _ _ _ _ _ _ _ _ (deltaMessages pk e.hlc) fieldDiff s.cached
    (byRowId e.result) _ hinj (JsonStore.files_applyDelta pk) s.table rowId
  unfold rowMessage
  cases hmessage : (deltaMessages pk e.hlc).ofKey fieldDiff rowId (s.cached.lookup rowId)
      ((byRowId e.result).lookup rowId) with
  | none =>
      rw [hmessage] at hfold
      exact hfold
  | some d =>
      rw [hmessage] at hfold
      exact hfold

theorem lookup_send_of_ne {key : JsonStore.RowKey} (hkey : ∀ rowId, key ≠ .str rowId) :
    (s.send e).table.lookup key = s.table.lookup key :=
  (JsonStore.files_applyDelta pk).foldl_of_forall_ne fun d _ => hkey d.rowId

theorem lookup_send_of_rowMessage {rowId : Lib.Text} {d : JsonStore.Delta}
    (h : rowMessage s e rowId = some d) :
    (s.send e).table.lookup (.str rowId) =
      (JsonStore.applyEntry pk (s.table.lookup (.str rowId)) d).or
        (s.table.lookup (.str rowId)) := by
  have hid := rowId_of_rowMessage h
  subst hid
  rw [lookup_send, h]
  exact JsonStore.lookup_applyDelta

theorem RoundTripInv.rowMessage_eq (h : RoundTripInv s) {rowId : Lib.Text} (hne : rowId ≠ []) :
    rowMessage s e rowId =
      (deltaMessages pk e.hlc).ofKey fieldDiff rowId (s.result.row rowId) (e.result.row rowId) := by
  rw [rowMessage, h.cached, lookup_byRowId _ hne, lookup_byRowId _ hne]

/-- A row that deltas do not reach has none. -/
theorem RoundTripInv.rowMessage_of_not_addressed (h : RoundTripInv s) (hreaches : ResultReaches s e)
    {rowId : Lib.Text} (hnot : ¬ Addressed s.first rowId) : rowMessage s e rowId = none := by
  by_cases hne : rowId = []
  · rw [hne, rowMessage, h.cached, lookup_byRowId_nil, lookup_byRowId_nil]
    rfl
  · rw [h.rowMessage_eq hne]
    have hrow := hreaches rowId
    cases hold : s.result.row rowId with
    | none =>
        rw [hold] at hrow
        cases hnew : e.result.row rowId with
        | none => rfl
        | some new =>
            rw [hnew] at hrow
            exact absurd hrow hnot
    | some old =>
        rw [hold] at hrow
        cases hnew : e.result.row rowId with
        | none =>
            rw [hnew] at hrow
            exact absurd hrow hnot
        | some new =>
            rw [hnew] at hrow
            have hkept := hrow
            rw [RowReaches, if_neg hnot] at hkept
            rw [Messages.ofKey, hkept.2 hne]
            rfl

/-- The row that an update leaves has the columns of the new row. -/
theorem sameColumns_update {row : JsonStore.LocalRow} {data : JsonStore.Row}
    {old new : ResultRow pk} {changed : Record Column} {rowId : Lib.Text} {clock hlc : Hlc}
    (hclocked : JsonStore.ClockedBy row clock) (hlt : clock < hlc) (hdata : row.data = some data)
    (hold : SameColumns data old.columns) (hchanged : fieldDiff old new = some changed)
    (hreaches : ∀ c, ColumnReaches old.columns new.columns c) (c : String) :
    JsonText.canonical ((JsonStore.merged row ((deltaMessages pk hlc).update rowId changed)
      c).getD .null) = jsonColumn new.columns c := by
  have heq := fieldDiff_eq_some hchanged
  have hheld : JsonText.canonical (((row.data.getD ∅).lookup c).getD .null) =
      jsonColumn old.columns c := by
    rw [hdata]
    exact hold c
  have hclock : ((deltaMessages pk hlc).update rowId changed).clockOf c = hlc := by
    unfold JsonStore.Delta.clockOf deltaMessages
    dsimp only
    rw [Option.getD_some, lookup_replay_empty, lastWrite_const]
    split <;> rfl
  have hpayload : ((deltaMessages pk hlc).update rowId changed).payload =
      some (encodeRow changed) := rfl
  unfold JsonStore.merged
  rw [hclock, hpayload, Option.getD_some]
  split
  · rename_i hproto
    rw [hheld]
    -- No update reaches a column of this name, so that it stays as it is.
    rcases hreaches c with hsame | ⟨hc, -⟩
    · exact hsame
    · rw [hproto] at hc
      cases hc
  · rename_i hproto
    by_cases hdiffers : jsonColumn old.columns c = jsonColumn new.columns c
    · cases hsent : ((encodeRow changed).lookup c).filter fun _ =>
          Server.wins row.colClocks hlc c with
      | none =>
          rw [Option.none_or, hheld, hdiffers]
      | some v =>
          rcases Option.filter_eq_some_iff.1 hsent with ⟨hlookup, -⟩
          exact canonical_of_lookup_payload heq hproto hlookup
    · rcases lookup_payload_of_changed heq (hreaches c) hdiffers with ⟨hc, hsent⟩
      rcases Option.isSome_iff_exists.1 hsent with ⟨v, hv⟩
      rw [hv, Option.filter, hclocked.wins hlt hc]
      exact canonical_of_lookup_payload heq hproto hv

/-- A row that shows one with an id has its primary key, so that none is added. -/
theorem withPk_of_sameColumns {data : JsonStore.Row} {row : ResultRow pk}
    (h : SameColumns data row.columns) (hne : row.rowId ≠ []) (rowId : Lib.Text) :
    JsonStore.withPk pk rowId data = data := by
  have hpk : (data.lookup pk).isSome = true := by
    rw [Option.isSome_iff_ne_none]
    intro hnone
    have hkey := snapshotKey_of_sameColumns h
    rw [JsonStore.snapshotKey, JsonStore.column, hnone] at hkey
    exact hne (congrArg JsonStore.RowKey.text hkey).symm
  rw [JsonStore.withPk, hpk]
  rfl

/-- What the client holds of an addressed row after a step is the row of the next result. -/
theorem RoundTripInv.shown_addressed (h : RoundTripInv s) (hreaches : ResultReaches s e)
    (hlt : s.clock < e.hlc) {rowId : Lib.Text} (haddressed : Addressed s.first rowId) :
    ShownAt (JsonStore.heldRow (s.send e).table (.str rowId)) (e.result.row rowId) := by
  have hshown := h.shown rowId
  rw [haddressed.2] at hshown
  have hrow := hreaches rowId
  have hmessage := @RoundTripInv.rowMessage_eq _ s e h rowId haddressed.1
  have hstale : JsonStore.isStale (s.table.lookup (.str rowId)) e.hlc = false := by
    cases hlookup : s.table.lookup (.str rowId) with
    | none => rfl
    | some row => exact (h.clocked _ row hlookup).isStale_eq_false hlt
  cases hold : s.result.row rowId with
  | none =>
      rw [hold] at hshown hmessage
      cases hnew : e.result.row rowId with
      | none =>
          rw [hnew] at hmessage
          rw [JsonStore.heldRow, lookup_send, hmessage]
          exact hshown
      | some new =>
          -- An insert carries the whole row.
          rw [hnew] at hmessage
          have hid := (Result.row_eq_some_iff.1 hnew).2
          have hne : new.rowId ≠ [] := hid ▸ haddressed.1
          have hsame : SameColumns (encodeRow new.columns) new.columns :=
            canonical_column_encodeRow new.columns
          refine ⟨encodeRow new.columns, ?_, hsame⟩
          rw [JsonStore.heldRow, lookup_send_of_rowMessage hmessage]
          simp only [JsonStore.applyEntry, deltaMessages, hstale, Bool.false_eq_true, if_false,
            Option.getD_some, withPk_of_sameColumns hsame hne, Option.some_or, Option.bind_some]
  | some old =>
      rw [hold] at hshown hmessage hrow
      rcases hshown with ⟨data, hdata, hsame⟩
      cases hnew : e.result.row rowId with
      | none =>
          rw [hnew] at hmessage
          rw [JsonStore.heldRow, lookup_send_of_rowMessage hmessage]
          simp only [JsonStore.applyEntry, deltaMessages, hstale, Bool.false_eq_true, if_false,
            Option.some_or, Option.bind_some]
          rfl
      | some new =>
          rw [hnew] at hmessage hrow
          rw [RowReaches, if_pos haddressed] at hrow
          have hid := (Result.row_eq_some_iff.1 hnew).2
          have hne : new.rowId ≠ [] := hid ▸ haddressed.1
          cases hchanged : fieldDiff old new with
          | none =>
              rw [Messages.ofKey, hchanged, Option.map_none] at hmessage
              refine ⟨data, ?_, fun c =>
                (hsame c).trans (jsonColumn_of_fieldDiff_none hchanged (hrow c))⟩
              rw [JsonStore.heldRow, lookup_send, hmessage]
              exact hdata
          | some changed =>
              rw [Messages.ofKey, hchanged, Option.map_some] at hmessage
              rcases Option.bind_eq_some_iff.1 hdata with ⟨row, hlookup, hrowData⟩
              have hmerged := fun c => @sameColumns_update _ row data old new changed rowId
                s.clock e.hlc (h.clocked _ row hlookup) hlt hrowData hsame hchanged hrow c
              rw [JsonStore.heldRow, lookup_send_of_rowMessage hmessage, hlookup]
              rcases JsonStore.applyEntry_update pk row
                (show ((deltaMessages pk e.hlc).update rowId changed).op = .update from rfl) with
                ⟨hnone, hkept⟩ | ⟨data', clocks, rowHlc, hsome, hlookups⟩
              · refine ⟨data, ?_, fun c => ?_⟩
                · rw [hnone]
                  exact hrowData
                · have hc := hmerged c
                  rw [hkept, hrowData] at hc
                  exact hc
              · have hsame' : SameColumns data' new.columns := by
                  intro c
                  rw [JsonStore.column, hlookups]
                  exact hmerged c
                refine ⟨data', ?_, hsame'⟩
                rw [hsome, withPk_of_sameColumns hsame' hne]
                rfl

/-- A delta carries the HLC of its broadcast, for every column that it has a clock for. -/
theorem clocks_of_rowMessage {rowId : Lib.Text} {d : JsonStore.Delta}
    (h : rowMessage s e rowId = some d) :
    d.hlc = e.hlc ∧ ∀ clocks ∈ d.colClocks, ∀ c, ∀ held ∈ clocks.lookup c, held ≤ d.hlc := by
  unfold rowMessage Messages.ofKey at h
  split at h
  · cases h
  · cases h
    exact ⟨rfl, fun clocks hclocks => by cases hclocks⟩
  · cases h
    exact ⟨rfl, fun clocks hclocks => by cases hclocks⟩
  · rcases Option.map_eq_some_iff.1 h with ⟨changed, -, rfl⟩
    refine ⟨rfl, fun clocks hclocks c held hheld => ?_⟩
    cases hclocks
    rw [lookup_replay_empty, lastWrite_const] at hheld
    split at hheld
    · cases hheld
      exact le_refl _
    · cases hheld

theorem RoundTripInv.clockedBy_send (h : RoundTripInv s) (hlt : s.clock < e.hlc)
    {key : JsonStore.RowKey} {row : JsonStore.LocalRow}
    (hlookup : (s.send e).table.lookup key = some row) : JsonStore.ClockedBy row e.hlc := by
  have hkept : ∀ {key row}, s.table.lookup key = some row → JsonStore.ClockedBy row e.hlc :=
    fun hrow => (h.clocked _ _ hrow).mono hlt.le
  by_cases hkey : ∃ rowId, key = .str rowId
  · rcases hkey with ⟨rowId, rfl⟩
    cases hmessage : rowMessage s e rowId with
    | none =>
        rw [lookup_send, hmessage] at hlookup
        exact hkept hlookup
    | some d =>
        rw [lookup_send_of_rowMessage hmessage] at hlookup
        rcases Option.or_eq_some_iff.1 hlookup with hnew | ⟨-, hold⟩
        · rcases clocks_of_rowMessage hmessage with ⟨hhlc, hclocks⟩
          rw [← hhlc]
          refine JsonStore.clockedBy_applyEntry hnew (fun old hold => ?_) hclocks
          rw [hhlc]
          exact hkept hold
        · exact hkept hold
  · rw [lookup_send_of_ne fun rowId heq => hkey ⟨rowId, heq⟩] at hlookup
    exact hkept hlookup

/-- What is held after a step is in its place: deltas file addressed rows only. -/
theorem RoundTripInv.placed_send (h : RoundTripInv s) (hreaches : ResultReaches s e)
    {key : JsonStore.RowKey} {data : JsonStore.Row}
    (hheld : JsonStore.heldRow (s.send e).table key = some data) :
        key = place s.first key.text := by
  by_cases hkey : ∃ rowId, key = .str rowId
  · rcases hkey with ⟨rowId, rfl⟩
    by_cases haddressed : Addressed s.first rowId
    · exact haddressed.2.symm
    · rw [JsonStore.heldRow, lookup_send,
        h.rowMessage_of_not_addressed hreaches haddressed] at hheld
      exact h.placed _ data hheld
  · rw [JsonStore.heldRow, lookup_send_of_ne fun rowId heq => hkey ⟨rowId, heq⟩] at hheld
    exact h.placed key data hheld

/-- A row that deltas do not reach is held as it was, and is in the next result as it was. -/
theorem RoundTripInv.shown_not_addressed (h : RoundTripInv s) (hreaches : ResultReaches s e)
    {rowId : Lib.Text} (hnot : ¬ Addressed s.first rowId) :
    ShownAt (JsonStore.heldRow (s.send e).table (place s.first rowId)) (e.result.row rowId) := by
  have hkept : JsonStore.heldRow (s.send e).table (place s.first rowId) =
      JsonStore.heldRow s.table (place s.first rowId) := by
    by_cases hkey : ∃ rowId', place s.first rowId = .str rowId'
    · rcases hkey with ⟨rowId', hplace⟩
      have hid : rowId = rowId' := by
        rw [← text_place s.first rowId, hplace]
        rfl
      subst hid
      rw [hplace, JsonStore.heldRow, lookup_send, h.rowMessage_of_not_addressed hreaches hnot]
      rfl
    · rw [JsonStore.heldRow, lookup_send_of_ne fun rowId' heq => hkey ⟨rowId', heq⟩]
      rfl
  have hshown := h.shown rowId
  have hrow := hreaches rowId
  rw [hkept]
  cases hold : s.result.row rowId with
  | none =>
      rw [hold] at hshown hrow
      cases hnew : e.result.row rowId with
      | none => exact hshown
      | some new =>
          rw [hnew] at hrow
          exact absurd hrow hnot
  | some old =>
      rw [hold] at hshown hrow
      cases hnew : e.result.row rowId with
      | none =>
          rw [hnew] at hrow
          exact absurd hrow hnot
      | some new =>
          rw [hnew, RowReaches, if_neg hnot] at hrow
          rcases hshown with ⟨data, hdata, hsame⟩
          exact ⟨data, hdata, fun c => (hsame c).trans (hrow.1 c)⟩

theorem RoundTripInv.send (h : RoundTripInv s) (hreaches : ResultReaches s e)
    (hlt : s.clock < e.hlc) : RoundTripInv (s.send e) where
  cached := rfl
  placed _ _ hheld := h.placed_send hreaches hheld
  shown rowId := by
    by_cases haddressed : Addressed s.first rowId
    · have hplace : place (s.send e).first rowId = .str rowId := haddressed.2
      rw [hplace]
      exact h.shown_addressed hreaches hlt haddressed
    · exact h.shown_not_addressed hreaches haddressed
  clocked _ _ hlookup := h.clockedBy_send hlt hlookup

end Step

/-! ## Runs -/

/-- In every run whose results change the rows in ways that reach the client only, the client holds
the rows of the last result. -/
theorem shows_of_resultReaches {first : Result pk} {hlc : Hlc} {s : RoundTrip pk}
    (h : (roundTripMachine first hlc).Reach ResultReaches s) : Shows s.table s.result := by
  have hinv : RoundTripInv s := by
    refine h.invariant (P := RoundTripInv) (roundTripInv_loaded first hlc) ?_
    intro s s' e hi hreaches hstep
    dsimp only [roundTripMachine] at hstep
    split at hstep
    · rename_i hlt
      cases hstep
      exact hi.send hreaches hlt
    · cases hstep
  exact hinv.shows

/-- The results of ordinary queries: strings that are not empty as keys, and columns that reach the
client. -/
theorem resultReaches_of_strings {s : RoundTrip pk} {e : NextResult pk}
    (hfirst : ∀ row ∈ s.first.rows, row.key = .str row.rowId)
    (hids : ∀ row, row ∈ s.result.rows ∨ row ∈ e.result.rows → row.rowId ≠ [])
    (hcolumns : ∀ old ∈ s.result.rows, ∀ new ∈ e.result.rows, old.rowId = new.rowId →
      ∀ c, ColumnReaches old.columns new.columns c) : ResultReaches s e := by
  have hplace : ∀ rowId, place s.first rowId = .str rowId := by
    intro rowId
    unfold place
    split
    · rename_i row hrow
      rcases Result.row_eq_some_iff.1 hrow with ⟨hmem, hid⟩
      rw [hfirst row hmem, hid]
      rfl
    · rfl
  intro rowId
  cases hold : s.result.row rowId with
  | none =>
      cases hnew : e.result.row rowId with
      | none => exact trivial
      | some new =>
          rcases Result.row_eq_some_iff.1 hnew with ⟨hmem, hid⟩
          exact ⟨hid ▸ hids new (.inr hmem), hplace rowId⟩
  | some old =>
      rcases Result.row_eq_some_iff.1 hold with ⟨hmem, hid⟩
      have haddressed : Addressed s.first rowId := ⟨hid ▸ hids old (.inl hmem), hplace rowId⟩
      cases hnew : e.result.row rowId with
      | none => exact haddressed
      | some new =>
          rcases Result.row_eq_some_iff.1 hnew with ⟨hmem', hid'⟩
          rw [RowReaches, if_pos haddressed]
          exact hcolumns old hmem new hmem' (hid.trans hid'.symm)

/-- A row with a note. -/
def noteRow (key : Scalar) (note : Column) : ResultRow "id" :=
  ⟨((∅ : Record Column).insert "note" note).insert "id" key.column, key, AList.lookup_insert _⟩

def noteResult (key : Scalar) (note : Column) : Result "id" :=
  ⟨[noteRow key note], List.nodup_singleton _⟩

/-- The string of one letter. -/
def letter (c : UInt16) : Column :=
  ⟨.str [c], trivial⟩

/-- A note of a row with a string as its key changes. -/
theorem shows_after_edit :
    Shows ((loaded (noteResult (.str [97]) (letter 120)) "1").send
      ⟨noteResult (.str [97]) (letter 121), "2"⟩).table (noteResult (.str [97]) (letter 121)) := by
  refine @shows_of_resultReaches _ (noteResult (.str [97]) (letter 120)) "1" _
    (.step .init ?_ (roundTripMachine_step (by decide)))
  refine resultReaches_of_strings (fun row hrow => ?_) (fun row hrow => ?_)
    (fun old hold new hnew _ c => ?_)
  · rw [List.mem_singleton.1 hrow]
    rfl
  · rcases hrow with hrow | hrow
    · rw [List.mem_singleton.1 hrow]
      decide
    · rw [List.mem_singleton.1 hrow]
      decide
  · rw [List.mem_singleton.1 hold, List.mem_singleton.1 hnew]
    by_cases hnote : c = "note"
    · subst hnote
      refine .inr ⟨by decide, fun value hvalue => ?_⟩
      cases hvalue
      exact fun heq => by cases heq
    · left
      by_cases hid : c = "id"
      · subst hid
        rfl
      · unfold jsonColumn noteRow
        dsimp only
        rw [AList.lookup_insert_ne hid, AList.lookup_insert_ne hnote, AList.lookup_insert_ne hid,
          AList.lookup_insert_ne hnote]

/-- The number 1. -/
def one : JsonText.Number :=
  ⟨[49], List.cons_ne_nil 49 [], List.forall_mem_singleton.2 rfl⟩

/-- The snapshot files the row under the number 1, the delta under the string "1". -/
theorem not_shows_numberKey :
    ¬ ∀ (first : Result "id") (hlc : Hlc) (s : RoundTrip "id"),
      (roundTripMachine first hlc).Reachable s → Shows s.table s.result := by
  intro h
  have hreach : (roundTripMachine (noteResult (.num one) (letter 120)) "1").Reachable
      ((loaded (noteResult (.num one) (letter 120)) "1").send
        ⟨noteResult (.num one) (letter 121), "2"⟩) :=
    .step .init trivial (roundTripMachine_step (by decide))
  have hshows := h _ _ _ hreach
  have hnumber : (JsonStore.heldRow ((loaded (noteResult (.num one) (letter 120)) "1").send
      ⟨noteResult (.num one) (letter 121), "2"⟩).table (.num one)).map (heldId "id") =
        some [49] := by
    decide +kernel
  have hstring : (JsonStore.heldRow ((loaded (noteResult (.num one) (letter 120)) "1").send
      ⟨noteResult (.num one) (letter 121), "2"⟩).table (.str [49])).map (heldId "id") =
        some [49] := by
    decide +kernel
  rcases Option.map_eq_some_iff.1 hnumber with ⟨data, hdata, hid⟩
  rcases Option.map_eq_some_iff.1 hstring with ⟨data', hdata', hid'⟩
  rcases hshows.rows (noteRow (.num one) (letter 121)) (List.mem_singleton_self _) with
    ⟨key, -, -, -, -, hunique⟩
  cases (hunique _ _ hdata hid).trans (hunique _ _ hdata' hid').symm

end Sync
end Reflectdb
