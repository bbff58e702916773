import Reflectdb.Sync.Mirror

/-!
# Synced — a client and a cache that agree

`Mirrors` for rows that may not carry their primary key, which is what an eager op records.  Each
way of changing client and cache together keeps them agreed: the diff of the next result, a snapshot
of the whole result, an appended page.
-/

namespace Reflectdb
namespace Sync

open Core Client Server

/-- Every row the client holds is filed under its row id. -/
def Filed (pk : String) (t : TableRows) : Prop :=
  ∀ key row, heldRow t key = some row →
    ∃ rowId, key = .str rowId ∧ rowIdOf pk row = rowId ∧ rowId ≠ ""

/-- The client holds the rows of the result, each completed by its primary key, and no others. -/
structure Synced (pk : String) (t : TableRows) (rows : CachedRows) : Prop where
  filed : Filed pk t
  same : ∀ rowId,
    Option.Rel SameRow (heldRow t (.str rowId)) ((rows.lookup rowId).map (withPk pk rowId))

variable {pk : String}

theorem Filed.wellKeyed {t : TableRows} (h : Filed pk t) : WellKeyed pk t := by
  intro rowId row hrow
  rcases h _ row hrow with ⟨rowId', hkey, hid, _⟩
  have : rowId = rowId' := by simpa using hkey
  rwa [this]

theorem Filed.noGhost {t : TableRows} (h : Filed pk t) (rowId : String) : NoGhost pk t rowId := by
  rintro key row ⟨hheld, hid⟩
  rcases h key row hheld with ⟨rowId', hkey, hid', _⟩
  rwa [← hid, hid']

theorem Synced.congr {t : TableRows} {rows rows' : CachedRows} (h : Synced pk t rows)
    (heq : ∀ rowId, rows.lookup rowId = rows'.lookup rowId) : Synced pk t rows' where
  filed := h.filed
  same rowId := by simpa [heq rowId] using h.same rowId

theorem Synced.heldRow_none {t : TableRows} {rows : CachedRows} (h : Synced pk t rows)
    {rowId : String}
    (hr : rows.lookup rowId = none) : heldRow t (.str rowId) = none := by
  have hrel := h.same rowId
  rw [hr] at hrel
  cases hheld : heldRow t (.str rowId) with
  | none => rfl
  | some row =>
      rw [hheld] at hrel
      cases hrel

theorem Synced.heldRow_some {t : TableRows} {rows : CachedRows} (h : Synced pk t rows)
    {rowId : String}
    {r : Row} (hr : rows.lookup rowId = some r) :
    ∃ row, heldRow t (.str rowId) = some row ∧ SameRow row (withPk pk rowId r) := by
  have hrel := h.same rowId
  rw [hr] at hrel
  cases hheld : heldRow t (.str rowId) with
  | none =>
      rw [hheld] at hrel
      cases hrel
  | some row =>
      rw [hheld] at hrel
      cases hrel with
      | some hsame => exact ⟨row, rfl, hsame⟩

/-- The agreement says what the client shows, once the rows carry their ids. -/
theorem Synced.mirrors {t : TableRows} {rows : CachedRows} (h : Synced pk t rows)
    (hrows : RowsById pk rows) : Mirrors pk t rows := by
  intro rowId
  cases hr : rows.lookup rowId with
  | none =>
      intro key row hholds
      have hkey : key = .str rowId := h.filed.noGhost rowId key row hholds
      have hnone := h.heldRow_none hr
      rw [← hkey, hholds.1] at hnone
      cases hnone
  | some r =>
      rcases hrows rowId r hr with ⟨hid, hne⟩
      rcases h.heldRow_some hr with ⟨row, hheld, hsame⟩
      refine ⟨.str rowId, row, ⟨hheld, h.filed.wellKeyed rowId row hheld⟩, fun c => ?_, ?_⟩
      · exact (hsame c).trans (column_withPk (by rwa [hid]) c)
      · exact fun key' row' => h.filed.noGhost rowId key' row'

theorem synced_of_mirrors {t : TableRows} {rows : CachedRows} (hfiled : Filed pk t)
    (hrows : RowsById pk rows) (h : Mirrors pk t rows) : Synced pk t rows where
  filed := hfiled
  same rowId := by
    have hmatch := h rowId
    cases hr : rows.lookup rowId with
    | none =>
        rw [hr] at hmatch
        cases hheld : heldRow t (.str rowId) with
        | none => exact .none
        | some row => exact absurd ⟨hheld, hfiled.wellKeyed rowId row hheld⟩ (hmatch _ row)
    | some r =>
        rw [hr] at hmatch
        rcases hmatch with ⟨key, row, hholds, hsame, _⟩
        rcases hrows rowId r hr with ⟨hid, hne⟩
        have hkey : key = .str rowId := hfiled.noGhost rowId key row hholds
        subst hkey
        have hrel : SameRow row (withPk pk rowId r) := fun c =>
          (hsame c).trans (column_withPk (by rwa [hid]) c).symm
        simpa [hholds.1] using Option.Rel.some hrel

/-! ## The diff of the next result -/

section Diff

variable {t : TableRows} {hlc : Hlc} {oldRows newRows : CachedRows}

theorem Synced.recovers (h : Synced pk t oldRows) (hnew : RowsById pk newRows) :
    Recovers pk t oldRows newRows := by
  intro rowId
  cases hold : oldRows.lookup rowId with
  | none =>
      cases hr : newRows.lookup rowId with
      | none =>
          intro key row hholds
          have hkey : key = .str rowId := h.filed.noGhost rowId key row hholds
          have hnone := h.heldRow_none hold
          rw [← hkey, hholds.1] at hnone
          cases hnone
      | some r => exact h.filed.noGhost rowId
  | some c =>
      cases hr : newRows.lookup rowId with
      | none => exact h.filed.noGhost rowId
      | some r =>
          rcases hnew rowId r hr with ⟨hid, hne⟩
          rcases exists_pk_of_rowId (show rowIdOf pk r ≠ "" by rwa [hid]) with ⟨v, hv⟩
          rcases h.heldRow_some hold with ⟨row, hheld, hsame⟩
          -- Where cache and result agree, the completed cached row has the result's column.
          have hagree : ∀ col, c.lookup col = r.lookup col →
              column (withPk pk rowId c) col = column r col := by
            intro col hcol
            by_cases hpk : col = pk
            · subst hpk
              simp [column, lookup_withPk, hcol, hv]
            · simp [column, lookup_withPk, hpk, hcol]
          by_cases hnil : (fieldDiff c r).entries = []
          · simp only [RowRecovers, hnil, if_true]
            refine ⟨.str rowId, row, ⟨hheld, h.filed.wellKeyed rowId row hheld⟩, fun col => ?_,
              fun key' row' => h.filed.noGhost rowId key' row'⟩
            exact (hsame col).trans (hagree col (fieldDiff_eq_nil_iff.1 hnil col))
          · simp only [RowRecovers, hnil, if_false]
            refine ⟨h.filed.noGhost rowId, fun col hcol => ?_⟩
            have hrow : rowIdOf pk row ≠ "" := by
              rwa [h.filed.wellKeyed rowId row hheld]
            calc heldColumn pk t rowId col
                = column (withPk pk rowId row) col := by simp [heldColumn, hheld]
              _ = column row col := column_withPk hrow col
              _ = column (withPk pk rowId c) col := hsame col
              _ = column r col := hagree col hcol

theorem filed_applyDeltas (hfiled : Filed pk t) (hnew : RowsById pk newRows)
    (htaken : ∀ d ∈ (diff oldRows newRows).deltas hlc, Taken t d) :
    Filed pk (applyDeltas pk t ((diff oldRows newRows).deltas hlc)) := by
  have hnodup := nodup_deltas hlc oldRows newRows
  intro key row hrow
  by_cases hmem : ∃ d ∈ (diff oldRows newRows).deltas hlc, key = .str d.rowId
  · rcases hmem with ⟨d, hd, rfl⟩
    have hid := wellKeyed_applyDeltas hfiled.wellKeyed hnew (fun _ h => h) hnodup htaken
      d.rowId row hrow
    rcases heldRow_applyDeltas hnew (fun _ h => h) hnodup htaken hd with
      ⟨_, hnone⟩ | ⟨r, _, hr, _⟩
    · rw [hnone] at hrow
      cases hrow
    · exact ⟨d.rowId, rfl, hid, (hnew d.rowId r hr).2⟩
  · have hlookup : (applyDeltas pk t ((diff oldRows newRows).deltas hlc)).lookup key =
        t.lookup key := lookup_applyDeltas_of_not_mem fun d hd heq => hmem ⟨d, hd, heq⟩
    exact hfiled key row (by simpa [heldRow, hlookup] using hrow)

/-- The diff takes a client from one result to the next, if the client takes each delta. -/
theorem Synced.applyDeltas (h : Synced pk t oldRows) (hnew : RowsById pk newRows)
    (htaken : ∀ d ∈ (diff oldRows newRows).deltas hlc, Taken t d) :
    Synced pk (applyDeltas pk t ((diff oldRows newRows).deltas hlc)) newRows :=
  synced_of_mirrors (filed_applyDeltas h.filed hnew htaken) hnew
    ((mirrors_applyDeltas_iff h.filed.wellKeyed hnew htaken).2 (h.recovers hnew))

end Diff

/-! ## Snapshots -/

/-- A snapshot lays its rows over those the client keeps: all of them if it appends, else none. -/
theorem synced_applySnapshot {t : TableRows} {oldRows newRows : CachedRows} {rows : List Row}
    {hlc : Hlc} {append : Bool} (hold : append = true → Synced pk t oldRows)
    (hkeys : StringKeyed pk rows)
    (hnew : ∀ rowId, newRows.lookup rowId =
      ((byRowId pk rows).lookup rowId).or (if append then oldRows.lookup rowId else none)) :
    Synced pk (applySnapshot t (snapshotMessage pk rows hlc append)) newRows := by
  rcases heldRow_applySnapshot (t := t) hkeys hlc append with ⟨hstr, hother⟩
  constructor
  · intro key row hrow
    by_cases hkey : ∃ rowId, key = .str rowId
    · rcases hkey with ⟨rowId, rfl⟩
      rw [hstr, Option.or_eq_some_iff] at hrow
      rcases hrow with hrow | ⟨_, hrow⟩
      · exact ⟨rowId, rfl, rowsById_byRowId pk rows rowId row hrow⟩
      · cases happend : append with
        | true => exact (hold happend).filed _ row (by simpa [happend] using hrow)
        | false => simp [happend] at hrow
    · rw [hother key fun rowId heq => hkey ⟨rowId, heq⟩] at hrow
      cases happend : append with
      | true => exact (hold happend).filed key row (by simpa [happend] using hrow)
      | false => simp [happend] at hrow
  · intro rowId
    rw [hstr, hnew]
    cases hr : (byRowId pk rows).lookup rowId with
    | some r =>
        have hid := rowsById_byRowId pk rows rowId r hr
        have hrel : SameRow r (withPk pk rowId r) := fun c =>
          (column_withPk (by rw [hid.1]; exact hid.2) c).symm
        exact .some hrel
    | none =>
        cases happend : append with
        | true => simpa using (hold happend).same rowId
        | false => exact .none

end Sync
end Reflectdb
