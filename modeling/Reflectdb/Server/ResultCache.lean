import Reflectdb.Client.Store

/-!
# Result cache — what a client was last sent, and the diff against it

`ResultCache` keeps, for each client and query, the rows of the last committed result by row id.
A broadcast diffs the next result against them and commits only after its sends went through.
Here it is the cached map of one (client, query).
-/

namespace Reflectdb
namespace Server

open Core Client

/-- The rows of one (client, query), by row id. -/
abbrev CachedRows : Type :=
  Record Row

/-- The map that `set` and `diffOnly` build: rows without an id are left out, and of two rows with
one id the later counts. -/
def byRowId (pk : String) (rows : List Row) : CachedRows :=
  Lib.replay ∅ ((rows.map fun row => (rowIdOf pk row, row)).filter (·.1 ≠ ""))

/-- `fieldDiff`: the changed columns, a removed one as `null`; empty if nothing changed. -/
def fieldDiff (oldRow newRow : Row) : Row :=
  Lib.replay ∅
    (Lib.writes (newRow.entries.filter fun e => oldRow.lookup e.1 ≠ some e.2) ++
      (oldRow.keys.filter (· ∉ newRow)).map (fun c => (c, Json.null)))

structure DiffResult where
  inserted : List (String × Row)
  updated : List (String × Row)
  deleted : List String

def diff (oldRows newRows : CachedRows) : DiffResult where
  inserted := (newRows.entries.filter fun e => oldRows.lookup e.1 = none).map fun e => (e.1, e.2)
  updated := newRows.entries.filterMap fun e =>
    match oldRows.lookup e.1 with
    | none => none
    | some oldRow =>
      let changed := fieldDiff oldRow e.2
      if changed.entries = [] then none else some (e.1, changed)
  deleted := oldRows.keys.filter (· ∉ newRows)

/-- `diffOnly` against the committed rows. -/
def diffOnly (pk : String) (cached : CachedRows) (rows : List Row) : DiffResult :=
  diff cached (byRowId pk rows)

/-! ## Deltas of a diff -/

def insertDelta (hlc : Hlc) (rowId : String) (data : Row) : Delta :=
  ⟨.insert, rowId, some data, hlc, none⟩

/-- An update carries the broadcast's HLC for each changed column. -/
def updateDelta (hlc : Hlc) (rowId : String) (changed : Row) : Delta :=
  ⟨.update, rowId, some changed, hlc,
    some (Lib.replay ∅ (changed.keys.map fun c => (c, hlc)))⟩

def deleteDelta (hlc : Hlc) (rowId : String) : Delta :=
  ⟨.delete, rowId, none, hlc, none⟩

/-- The deltas `sendToSubscriber` sends, in order. -/
def DiffResult.deltas (d : DiffResult) (hlc : Hlc) : List Delta :=
  d.inserted.map (fun e => insertDelta hlc e.1 e.2) ++
    d.updated.map (fun e => updateDelta hlc e.1 e.2) ++ d.deleted.map (deleteDelta hlc)

/-! ## Snapshots -/

/-- The `snapshot` message of a result: every row with an id is stamped with the HLC. -/
def snapshotMessage (pk : String) (rows : List Row) (hlc : Hlc) (append : Bool) : Snapshot where
  rows := rows
  colClocks := Lib.replay ∅
    (((rows.map (rowIdOf pk)).filter (· ≠ "")).map fun rowId => (rowId, rowClock hlc))
  append := append
  pk := pk

/-! ## The diff, row by row -/

theorem lookup_fieldDiff (oldRow newRow : Row) (c : String) :
    (fieldDiff oldRow newRow).lookup c =
      match newRow.lookup c with
      | some v => if oldRow.lookup c = some v then none else some v
      | none => if c ∈ oldRow then some .null else none := by
  rw [fieldDiff, Lib.lookup_replay_empty, Lib.lastWrite_append, Lib.lastWrite_const,
    Lib.lastWrite_filter]
  cases hnew : newRow.lookup c with
  | some v =>
      have hmem : c ∈ newRow := AList.lookup_isSome.1 (by simp [hnew])
      by_cases hv : oldRow.lookup c = some v
      · simp [hmem, hv]
      · simp [hmem, hv]
  | none =>
      have hmem : c ∉ newRow.keys := AList.lookup_eq_none.1 hnew
      simp [hmem, AList.mem_keys]

theorem entries_eq_nil_iff {α : Type} [DecidableEq α] {β : Type} {m : AList fun _ : α => β} :
    m.entries = [] ↔ ∀ k, m.lookup k = none := by
  constructor
  · intro h k
    cases hk : m.lookup k with
    | none => rfl
    | some v =>
        have : (⟨k, v⟩ : Sigma fun _ : α => β) ∈ m.entries := Lib.mem_entries_iff.2 hk
        simp [h] at this
  · intro h
    refine List.eq_nil_iff_forall_not_mem.2 fun e he => ?_
    have : m.lookup e.1 = some e.2 := Lib.mem_entries_iff.1 he
    simp [h] at this

/-- Nothing changed: the rows have the same columns. -/
theorem fieldDiff_eq_nil_iff {oldRow newRow : Row} :
    (fieldDiff oldRow newRow).entries = [] ↔ ∀ c, oldRow.lookup c = newRow.lookup c := by
  rw [entries_eq_nil_iff]
  refine forall_congr' fun c => ?_
  rw [lookup_fieldDiff]
  cases hnew : newRow.lookup c with
  | some v => simp
  | none => simp [← AList.lookup_isSome]

/-- The delta of one row id, if it has one. -/
def rowDelta (hlc : Hlc) (rowId : String) (oldRow newRow : Option Row) : Option Delta :=
  match oldRow, newRow with
  | none, none => none
  | none, some r => some (insertDelta hlc rowId r)
  | some _, none => some (deleteDelta hlc rowId)
  | some c, some r =>
    if (fieldDiff c r).entries = [] then none else some (updateDelta hlc rowId (fieldDiff c r))

theorem rowId_of_rowDelta {hlc : Hlc} {rowId : String} {oldRow newRow : Option Row} {d : Delta}
    (h : rowDelta hlc rowId oldRow newRow = some d) : d.rowId = rowId := by
  unfold rowDelta at h
  split at h
  · cases h
  · cases h
    rfl
  · cases h
    rfl
  · split at h
    · cases h
    · cases h
      rfl

theorem mem_inserted {oldRows newRows : CachedRows} {e : String × Row} :
    e ∈ (diff oldRows newRows).inserted ↔
      oldRows.lookup e.1 = none ∧ newRows.lookup e.1 = some e.2 := by
  constructor
  · intro h
    rcases List.mem_map.1 h with ⟨e', he', rfl⟩
    rcases List.mem_filter.1 he' with ⟨hmem, hnone⟩
    exact ⟨by simpa using hnone, Lib.mem_entries_iff.1 hmem⟩
  · rintro ⟨hnone, hsome⟩
    refine List.mem_map.2 ⟨⟨e.1, e.2⟩, List.mem_filter.2 ⟨Lib.mem_entries_iff.2 hsome, ?_⟩, rfl⟩
    simpa using hnone

theorem mem_updated {oldRows newRows : CachedRows} {e : String × Row} :
    e ∈ (diff oldRows newRows).updated ↔
      ∃ c r, oldRows.lookup e.1 = some c ∧ newRows.lookup e.1 = some r ∧
        e.2 = fieldDiff c r ∧ (fieldDiff c r).entries ≠ [] := by
  constructor
  · intro h
    rcases List.mem_filterMap.1 h with ⟨e', he', heq⟩
    have hr : newRows.lookup e'.1 = some e'.2 := Lib.mem_entries_iff.1 he'
    cases hc : oldRows.lookup e'.1 with
    | none => simp [hc] at heq
    | some c =>
        by_cases hnil : (fieldDiff c e'.2).entries = []
        · simp [hc, hnil] at heq
        · have : (e'.1, fieldDiff c e'.2) = e := by simpa [hc, hnil] using heq
          subst this
          exact ⟨c, e'.2, hc, hr, rfl, hnil⟩
  · rintro ⟨c, r, hc, hr, heq, hnil⟩
    refine List.mem_filterMap.2 ⟨⟨e.1, r⟩, Lib.mem_entries_iff.2 hr, ?_⟩
    simp [hc, hnil]
    rw [← heq]

theorem mem_deleted {oldRows newRows : CachedRows} {rowId : String} :
    rowId ∈ (diff oldRows newRows).deleted ↔
      (oldRows.lookup rowId).isSome ∧ newRows.lookup rowId = none := by
  simp [diff, AList.mem_keys, AList.lookup_isSome, AList.lookup_eq_none]

/-- The deltas of a diff are those of its rows. -/
theorem mem_deltas {hlc : Hlc} {oldRows newRows : CachedRows} {d : Delta} :
    d ∈ (diff oldRows newRows).deltas hlc ↔
      rowDelta hlc d.rowId (oldRows.lookup d.rowId) (newRows.lookup d.rowId) = some d := by
  constructor
  · intro h
    rcases List.mem_append.1 h with h | h
    · rcases List.mem_append.1 h with h | h
      · rcases List.mem_map.1 h with ⟨e, he, rfl⟩
        rcases mem_inserted.1 he with ⟨hold, hnew⟩
        simp [insertDelta, rowDelta, hold, hnew]
      · rcases List.mem_map.1 h with ⟨e, he, rfl⟩
        rcases mem_updated.1 he with ⟨c, r, hold, hnew, heq, hnil⟩
        simp [updateDelta, rowDelta, hold, hnew, hnil, heq]
    · rcases List.mem_map.1 h with ⟨rowId, hid, rfl⟩
      rcases mem_deleted.1 hid with ⟨hold, hnew⟩
      rcases Option.isSome_iff_exists.1 hold with ⟨c, hc⟩
      simp [deleteDelta, rowDelta, hc, hnew]
  · intro h
    cases hold : oldRows.lookup d.rowId with
    | none =>
        cases hnew : newRows.lookup d.rowId with
        | none => simp [rowDelta, hold, hnew] at h
        | some r =>
            have hd : insertDelta hlc d.rowId r = d := by simpa [rowDelta, hold, hnew] using h
            have he : (d.rowId, r) ∈ (diff oldRows newRows).inserted := mem_inserted.2 ⟨hold, hnew⟩
            exact List.mem_append_left _ (List.mem_append_left _ (List.mem_map.2 ⟨_, he, hd⟩))
    | some c =>
        cases hnew : newRows.lookup d.rowId with
        | none =>
            have hd : deleteDelta hlc d.rowId = d := by simpa [rowDelta, hold, hnew] using h
            have he : d.rowId ∈ (diff oldRows newRows).deleted :=
              mem_deleted.2 ⟨by simp [hold], hnew⟩
            exact List.mem_append_right _ (List.mem_map.2 ⟨_, he, hd⟩)
        | some r =>
            by_cases hnil : (fieldDiff c r).entries = []
            · simp [rowDelta, hold, hnew, hnil] at h
            · have hd : updateDelta hlc d.rowId (fieldDiff c r) = d := by
                simpa [rowDelta, hold, hnew, hnil] using h
              have he : (d.rowId, fieldDiff c r) ∈ (diff oldRows newRows).updated :=
                mem_updated.2 ⟨c, r, hold, hnew, rfl, hnil⟩
              exact List.mem_append_left _ (List.mem_append_right _ (List.mem_map.2 ⟨_, he, hd⟩))

/-- A diff has at most one delta for each row id. -/
theorem nodup_deltas (hlc : Hlc) (oldRows newRows : CachedRows) :
    (((diff oldRows newRows).deltas hlc).map (·.rowId)).Nodup := by
  have hkeys : (newRows.entries.map Sigma.fst).Nodup := newRows.nodupKeys
  have hins : ((diff oldRows newRows).inserted.map (·.1)).Nodup := by
    have : ((newRows.entries.filter fun e => oldRows.lookup e.1 = none).map Sigma.fst).Nodup :=
      hkeys.sublist (List.filter_sublist.map _)
    simpa [diff, Function.comp_def] using this
  have hupd : ((diff oldRows newRows).updated.map (·.1)).Nodup := by
    refine hkeys.sublist (Lib.map_filterMap_sublist ?_ newRows.entries)
    intro e y hy
    split at hy
    · cases hy
    · dsimp only at hy
      split at hy
      · cases hy
      · cases hy
        rfl
  have hdel : (diff oldRows newRows).deleted.Nodup := oldRows.keys_nodup.filter _
  have hids : (((diff oldRows newRows).deltas hlc).map (·.rowId)) =
      (diff oldRows newRows).inserted.map (·.1) ++ (diff oldRows newRows).updated.map (·.1) ++
        (diff oldRows newRows).deleted := by
    simp [DiffResult.deltas, insertDelta, updateDelta, deleteDelta, Function.comp_def]
  -- The three parts are told apart by whether the old and the new rows have the id.
  rw [hids]
  refine List.nodup_append.2 ⟨List.nodup_append.2 ⟨hins, hupd, ?_⟩, hdel, ?_⟩
  · intro a ha b hb hab
    rcases List.mem_map.1 ha with ⟨e, he, rfl⟩
    rcases List.mem_map.1 hb with ⟨e', he', rfl⟩
    rcases mem_updated.1 he' with ⟨c, r, hold, _⟩
    have hnone := (mem_inserted.1 he).1
    rw [hab, hold] at hnone
    cases hnone
  · intro a ha b hb hab
    have hnone := (mem_deleted.1 hb).2
    have hsome : ∃ r, newRows.lookup a = some r := by
      rcases List.mem_append.1 ha with ha | ha
      · rcases List.mem_map.1 ha with ⟨e, he, rfl⟩
        exact ⟨e.2, (mem_inserted.1 he).2⟩
      · rcases List.mem_map.1 ha with ⟨e, he, rfl⟩
        rcases mem_updated.1 he with ⟨c, r, _, hnew, _⟩
        exact ⟨r, hnew⟩
    rcases hsome with ⟨r, hr⟩
    rw [hab, hnone] at hr
    cases hr

end Server
end Reflectdb
