import Reflectdb.Server.ResultCache

/-!
# Mirror — client rows against cached rows

`Mirrors pk t rows` says that a client table shows exactly the rows of a result: one row for each
id, with equal columns.  Sending the diff of two results to a client that mirrors the first makes it
mirror the second; `mirrors_applyDeltas_iff` says for any client and any cache when it does.
-/

namespace Reflectdb
namespace Sync

open Core Client Server

/-- The client shows `row` under `key`, and it is a row with this id. -/
def Holds (pk : String) (t : TableRows) (rowId : String) (key : Json) (row : Row) : Prop :=
  heldRow t key = some row ∧ rowIdOf pk row = rowId

/-- What the client shows for a row id: nothing, or one row with the columns of `r`. -/
def Matches (pk : String) (t : TableRows) (rowId : String) : Option Row → Prop
  | none => ∀ key row, ¬ Holds pk t rowId key row
  | some r => ∃ key row, Holds pk t rowId key row ∧ SameRow row r ∧
      ∀ key' row', Holds pk t rowId key' row' → key' = key

/-- The client shows exactly the rows of the result. -/
def Mirrors (pk : String) (t : TableRows) (rows : CachedRows) : Prop :=
  ∀ rowId, Matches pk t rowId (rows.lookup rowId)

/-- A row filed under a string is the row with that id. -/
def WellKeyed (pk : String) (t : TableRows) : Prop :=
  ∀ rowId row, heldRow t (.str rowId) = some row → rowIdOf pk row = rowId

/-- No row with this id is filed under a key that deltas do not address. -/
def NoGhost (pk : String) (t : TableRows) (rowId : String) : Prop :=
  ∀ key row, Holds pk t rowId key row → key = .str rowId

/-- The rows of a result map are filed under their own, non-empty ids. -/
def RowsById (pk : String) (rows : CachedRows) : Prop :=
  ∀ rowId row, rows.lookup rowId = some row → rowIdOf pk row = rowId ∧ rowId ≠ ""

theorem rowsById_byRowId (pk : String) (rows : List Row) : RowsById pk (byRowId pk rows) := by
  intro rowId row h
  have hmem : (rowId, row) ∈ _ := Lib.mem_of_lastWrite (by
    simpa [byRowId, Lib.lookup_replay_empty] using h)
  rcases List.mem_filter.1 hmem with ⟨hmem, hne⟩
  rcases List.mem_map.1 hmem with ⟨row', _, heq⟩
  cases heq
  exact ⟨rfl, by simpa using hne⟩

/-! ## Primary keys -/

variable {pk : String}

theorem lookup_withPk (rowId : String) (data : Row) (c : String) :
    (withPk pk rowId data).lookup c =
      if c = pk then some ((data.lookup pk).getD (.str rowId)) else data.lookup c := by
  unfold withPk
  cases hpk : data.lookup pk with
  | some v =>
      by_cases hc : c = pk
      · subst hc
        simp [hpk]
      · simp [hc]
  | none =>
      by_cases hc : c = pk
      · subst hc
        simp
      · simp [hc, AList.lookup_insert_ne hc]

/-- A row with a non-empty id carries its primary key. -/
theorem exists_pk_of_rowId {row : Row} (h : rowIdOf pk row ≠ "") : ∃ v, row.lookup pk = some v := by
  cases hpk : row.lookup pk with
  | some v => exact ⟨v, rfl⟩
  | none => simp [rowIdOf, column, hpk, jsString] at h

theorem column_withPk {rowId : String} {row : Row} (h : rowIdOf pk row ≠ "") (c : String) :
    column (withPk pk rowId row) c = column row c := by
  rcases exists_pk_of_rowId h with ⟨v, hv⟩
  by_cases hc : c = pk
  · subst hc
    simp [column, lookup_withPk, hv]
  · simp [column, lookup_withPk, hc]

theorem rowIdOf_congr {a b : Row} (h : column a pk = column b pk) :
    rowIdOf pk a = rowIdOf pk b := by
  simp [rowIdOf, h]

/-! ## Deltas that the client takes -/

/-- The delta is newer than what the client holds for its row. -/
def Taken (t : TableRows) (d : Delta) : Prop :=
  match d.op, t.lookup (.str d.rowId) with
  | .update, some row => ∀ c ∈ d.payload.getD ∅, ∀ held ∈ row.colClocks.lookup c,
      held < ((d.colClocks.getD ∅).lookup c).getD d.hlc
  | _, existing => isStale existing d.hlc = false

/-- No clock of the client's rows is above the HLC. -/
def ClockedBy (t : TableRows) (hlc : Hlc) : Prop :=
  ∀ key row, t.lookup key = some row →
    (∀ held ∈ row.serverHlc, held ≤ hlc) ∧ ∀ c, ∀ held ∈ row.colClocks.lookup c, held ≤ hlc

/-- The row a taken delta leaves, column by column. -/
def takenColumn (pk : String) (t : TableRows) (d : Delta) (c : String) : Json :=
  let base := match d.op with
    | .update => (heldRow t (.str d.rowId)).getD ∅
    | _ => ∅
  let merged := ((d.payload.getD ∅).lookup c).or (base.lookup c)
  if c = pk then merged.getD (.str d.rowId) else merged.getD .null

theorem newerColumns_of_taken {row : LocalRow} {d : Delta}
    (h : ∀ c ∈ d.payload.getD ∅, ∀ held ∈ row.colClocks.lookup c,
      held < ((d.colClocks.getD ∅).lookup c).getD d.hlc) :
    newerColumns row d = (d.payload.getD ∅).entries.map fun e =>
      (e.1, e.2, ((d.colClocks.getD ∅).lookup e.1).getD d.hlc) := by
  refine List.filter_eq_self.2 fun u hu => ?_
  rcases List.mem_map.1 hu with ⟨e, he, rfl⟩
  have hc : e.1 ∈ d.payload.getD ∅ :=
    AList.lookup_isSome.1 (by rw [Lib.mem_entries_iff.1 he]; rfl)
  dsimp only
  cases hheld : row.colClocks.lookup e.1 with
  | none => rfl
  | some held => simpa using h e.1 hc held hheld

variable (pk) in
theorem applyEntry_delete {t : TableRows} {d : Delta} (hop : d.op = .delete) (h : Taken t d) :
    ∃ e, applyEntry pk (t.lookup (.str d.rowId)) d = some e ∧ e.data = none := by
  have hstale : isStale (t.lookup (.str d.rowId)) d.hlc = false := by
    simpa [Taken, hop] using h
  exact ⟨⟨none, ∅, some d.hlc⟩, by simp [applyEntry, hop, hstale], rfl⟩

variable (pk) in
theorem applyEntry_taken {t : TableRows} {d : Delta} (hop : d.op ≠ .delete)
    (hne : (d.payload.getD ∅).entries ≠ []) (h : Taken t d) :
    ∃ e data, applyEntry pk (t.lookup (.str d.rowId)) d = some e ∧ e.data = some data ∧
      ∀ c, column data c = takenColumn pk t d c := by
  by_cases hcase : d.op = .update ∧ ∃ row, t.lookup (.str d.rowId) = some row
  · rcases hcase with ⟨hupd, row, hrow⟩
    have hclocks : ∀ c ∈ d.payload.getD ∅, ∀ held ∈ row.colClocks.lookup c,
        held < ((d.colClocks.getD ∅).lookup c).getD d.hlc := by
      simpa [Taken, hupd, hrow] using h
    have hnewer := newerColumns_of_taken hclocks
    have hmap : (newerColumns row d).map (fun u => (u.1, u.2.1)) =
        Lib.writes (d.payload.getD ∅).entries := by
      simp [hnewer, Lib.writes, Function.comp_def]
    have hnil : newerColumns row d ≠ [] := by
      rw [hnewer]
      simpa using hne
    refine ⟨_, _, by simp only [applyEntry, hupd, hrow, hnil, if_false]; rfl, rfl, ?_⟩
    intro c
    have hbase : heldRow t (.str d.rowId) = row.data := by simp [heldRow, hrow]
    rw [hmap]
    by_cases hc : c = pk
    · subst hc
      simp [column, lookup_withPk, takenColumn, hupd, hbase, Lib.lookup_replay]
    · simp [column, lookup_withPk, takenColumn, hupd, hbase, Lib.lookup_replay, hc]
  · -- An insert, or an update of a row the client does not have.
    have hstale : isStale (t.lookup (.str d.rowId)) d.hlc = false := by
      cases hop' : d.op with
      | insert => simpa [Taken, hop'] using h
      | delete => exact absurd hop' hop
      | update =>
          cases hrow : t.lookup (.str d.rowId) with
          | none => rfl
          | some row => exact absurd ⟨hop', row, hrow⟩ hcase
    have hentry : applyEntry pk (t.lookup (.str d.rowId)) d =
        some ⟨some (withPk pk d.rowId (d.payload.getD ∅)),
          d.colClocks.getD (rowClock d.hlc), some d.hlc⟩ := by
      cases hop' : d.op with
      | insert => simp [applyEntry, hop', hstale]
      | delete => exact absurd hop' hop
      | update =>
          cases hrow : t.lookup (.str d.rowId) with
          | none => simp [applyEntry, hop', isStale]
          | some row => exact absurd ⟨hop', row, hrow⟩ hcase
    refine ⟨_, _, hentry, rfl, ?_⟩
    have hbase : (match d.op with
        | .update => (heldRow t (.str d.rowId)).getD ∅
        | _ => (∅ : Row)) = ∅ := by
      cases hop' : d.op with
      | insert => rfl
      | delete => rfl
      | update =>
          cases hrow : t.lookup (.str d.rowId) with
          | none => simp [heldRow, hrow]
          | some row => exact absurd ⟨hop', row, hrow⟩ hcase
    intro c
    by_cases hc : c = pk
    · subst hc
      simp [column, lookup_withPk, takenColumn, hbase]
    · simp [column, lookup_withPk, takenColumn, hbase, hc]

/-! ## Folding deltas -/

theorem lookup_applyDelta_ne {t : TableRows} {d : Delta} {key : Json} (h : key ≠ .str d.rowId) :
    (applyDelta pk t d).lookup key = t.lookup key := by
  unfold applyDelta
  split
  · exact AList.lookup_insert_ne h
  · rfl

theorem lookup_applyDelta_self {t : TableRows} {d : Delta} {e : LocalRow}
    (h : applyEntry pk (t.lookup (.str d.rowId)) d = some e) :
    (applyDelta pk t d).lookup (.str d.rowId) = some e := by
  simp [applyDelta, h]

theorem lookup_applyDeltas_of_not_mem {ds : List Delta} :
    ∀ {t : TableRows} {key : Json}, (∀ d ∈ ds, key ≠ .str d.rowId) →
      (applyDeltas pk t ds).lookup key = t.lookup key := by
  induction ds with
  | nil =>
      intro t key _
      rfl
  | cons d ds ih =>
      intro t key h
      have hrest : (applyDeltas pk (applyDelta pk t d) ds).lookup key =
          (applyDelta pk t d).lookup key := ih fun d' hd' => h d' (List.mem_cons_of_mem _ hd')
      exact hrest.trans (lookup_applyDelta_ne (h d List.mem_cons_self))

/-- With one delta for each row, the delta of a row meets the row as it was. -/
theorem lookup_applyDeltas_of_mem {ds : List Delta} :
    ∀ {t : TableRows}, (ds.map (·.rowId)).Nodup → ∀ {d : Delta}, d ∈ ds →
      (applyDeltas pk t ds).lookup (.str d.rowId) =
        (applyDelta pk t d).lookup (.str d.rowId) := by
  induction ds with
  | nil =>
      intro t _ d hd
      cases hd
  | cons d₀ ds ih =>
      intro t hnodup d hd
      have hcons : d₀.rowId ∉ ds.map (·.rowId) ∧ (ds.map (·.rowId)).Nodup := by
        simpa using hnodup
      rcases List.mem_cons.1 hd with rfl | hd
      · refine lookup_applyDeltas_of_not_mem (t := applyDelta pk t d) fun d' hd' heq => ?_
        have : d.rowId = d'.rowId := by simpa using heq
        exact hcons.1 (List.mem_map.2 ⟨d', hd', this.symm⟩)
      · have hne : d.rowId ≠ d₀.rowId := by
          intro heq
          exact hcons.1 (List.mem_map.2 ⟨d, hd, heq⟩)
        have hkey : (Json.str d.rowId) ≠ .str d₀.rowId := by simpa using hne
        have hlookup : (applyDelta pk t d₀).lookup (.str d.rowId) = t.lookup (.str d.rowId) :=
          lookup_applyDelta_ne hkey
        have hstep : (applyDelta pk (applyDelta pk t d₀) d).lookup (.str d.rowId) =
            (applyDelta pk t d).lookup (.str d.rowId) := by
          unfold applyDelta at hlookup ⊢
          rw [hlookup]
          cases applyEntry pk (t.lookup (.str d.rowId)) d with
          | none => exact hlookup
          | some e => simp
        exact (ih hcons.2 hd).trans hstep

/-! ## What the client shows after a diff -/

/-- A column of the client's row, or of the row that an update would start from. -/
def heldColumn (pk : String) (t : TableRows) (rowId c : String) : Json :=
  column (withPk pk rowId ((heldRow t (.str rowId)).getD ∅)) c

/-- The condition on client, cached row and new row under which the diff brings the client to the
new row.  An update is sent as the columns on which cache and result differ, so the client must
hold the others; a row without a delta must be what the client shows. -/
def RowRecovers (pk : String) (t : TableRows) (rowId : String) (oldRow newRow : Option Row) :
    Prop :=
  match oldRow, newRow with
  | none, none => Matches pk t rowId none
  | some c, some r =>
    if (fieldDiff c r).entries = [] then Matches pk t rowId (some r)
    else NoGhost pk t rowId ∧
      ∀ col, c.lookup col = r.lookup col → heldColumn pk t rowId col = column r col
  | _, _ => NoGhost pk t rowId

/-- `RowRecovers` for every row of the cache and of the result. -/
def Recovers (pk : String) (t : TableRows) (oldRows newRows : CachedRows) : Prop :=
  ∀ rowId, RowRecovers pk t rowId (oldRows.lookup rowId) (newRows.lookup rowId)

theorem matches_congr {t t' : TableRows} {rowId : String}
    (h : ∀ key row, Holds pk t rowId key row ↔ Holds pk t' rowId key row) (r : Option Row) :
    Matches pk t rowId r ↔ Matches pk t' rowId r := by
  cases r with
  | none => simp [Matches, h]
  | some r => simp [Matches, h]

theorem takenColumn_insert {t : TableRows} {hlc : Hlc} {rowId : String} {r : Row}
    (hr : rowIdOf pk r = rowId ∧ rowId ≠ "") (c : String) :
    takenColumn pk t (insertDelta hlc rowId r) c = column r c := by
  have hne : rowIdOf pk r ≠ "" := by simpa [hr.1] using hr.2
  rcases exists_pk_of_rowId hne with ⟨v, hv⟩
  by_cases hc : c = pk
  · subst hc
    simp [takenColumn, insertDelta, column, hv]
  · simp [takenColumn, insertDelta, column, hc]

theorem takenColumn_update {t : TableRows} {hlc : Hlc} {rowId : String} {oldRow newRow : Row}
    (c : String) :
    takenColumn pk t (updateDelta hlc rowId (fieldDiff oldRow newRow)) c =
      if oldRow.lookup c = newRow.lookup c then heldColumn pk t rowId c else column newRow c := by
  have hchanged := lookup_fieldDiff oldRow newRow c
  by_cases hagree : oldRow.lookup c = newRow.lookup c
  · have hnone : (fieldDiff oldRow newRow).lookup c = none := by
      rw [hchanged]
      cases hnew : newRow.lookup c with
      | some v => simp [hagree, hnew]
      | none =>
          have : c ∉ oldRow := AList.lookup_eq_none.1 (hagree.trans hnew)
          simp [this]
    by_cases hc : c = pk
    · subst hc
      simp [takenColumn, updateDelta, heldColumn, column, lookup_withPk, hnone, hagree]
    · simp [takenColumn, updateDelta, heldColumn, column, lookup_withPk, hnone, hagree, hc]
  · have hsome : (fieldDiff oldRow newRow).lookup c = some (column newRow c) := by
      rw [hchanged]
      cases hnew : newRow.lookup c with
      | some v =>
          have : oldRow.lookup c ≠ some v := fun h => hagree (h.trans hnew.symm)
          simp [this, column, hnew]
      | none =>
          have : c ∈ oldRow := AList.lookup_isSome.1 (by
            rcases Option.ne_none_iff_exists'.1 (fun h => hagree (h.trans hnew.symm)) with ⟨v, hv⟩
            simp [hv])
          simp [this, column, hnew]
    by_cases hc : c = pk
    · subst hc
      simp [takenColumn, updateDelta, hsome, hagree]
    · simp [takenColumn, updateDelta, hsome, hagree, hc]

/-- The part of a delta that decides what the client shows: `none` for a delete. -/
theorem applyEntry_rowDelta {t : TableRows} {hlc : Hlc} {oldRows newRows : CachedRows}
    (hnew : RowsById pk newRows) {d : Delta} (hd : d ∈ (diff oldRows newRows).deltas hlc)
    (htaken : Taken t d) :
    ∃ e, applyEntry pk (t.lookup (.str d.rowId)) d = some e ∧
      ((newRows.lookup d.rowId = none ∧ e.data = none) ∨
        ∃ r data, newRows.lookup d.rowId = some r ∧ e.data = some data ∧
          ∀ c, column data c = takenColumn pk t d c) := by
  have hrow := mem_deltas.1 hd
  cases hnewRow : newRows.lookup d.rowId with
  | none =>
      cases holdRow : oldRows.lookup d.rowId with
      | none => simp [rowDelta, holdRow, hnewRow] at hrow
      | some c =>
          have hdel : deleteDelta hlc d.rowId = d := by
            simpa [rowDelta, holdRow, hnewRow] using hrow
          have hop : d.op = .delete := by rw [← hdel]; rfl
          rcases applyEntry_delete pk hop htaken with ⟨e, he, hdata⟩
          exact ⟨e, he, .inl ⟨rfl, hdata⟩⟩
  | some r =>
      have hkey := hnew d.rowId r hnewRow
      have hpayload : d.op ≠ .delete ∧ (d.payload.getD ∅).entries ≠ [] := by
        cases holdRow : oldRows.lookup d.rowId with
        | none =>
            have hins : insertDelta hlc d.rowId r = d := by
              simpa [rowDelta, holdRow, hnewRow] using hrow
            have hne : rowIdOf pk r ≠ "" := by simpa [hkey.1] using hkey.2
            rcases exists_pk_of_rowId hne with ⟨v, hv⟩
            rw [← hins]
            refine ⟨by simp [insertDelta], fun hnil => ?_⟩
            have := entries_eq_nil_iff.1 hnil pk
            simp [insertDelta, hv] at this
        | some c =>
            by_cases hnil : (fieldDiff c r).entries = []
            · simp [rowDelta, holdRow, hnewRow, hnil] at hrow
            · have hupd : updateDelta hlc d.rowId (fieldDiff c r) = d := by
                simpa [rowDelta, holdRow, hnewRow, hnil] using hrow
              rw [← hupd]
              exact ⟨by simp [updateDelta], hnil⟩
      rcases applyEntry_taken pk hpayload.1 hpayload.2 htaken with ⟨e, data, he, hdata, hcol⟩
      exact ⟨e, he, .inr ⟨r, data, rfl, hdata, hcol⟩⟩

/-- The row an update starts from has the update's row id. -/
theorem jsString_heldColumn {t : TableRows} (hkeyed : WellKeyed pk t) {rowId : String}
    (hne : rowId ≠ "") : jsString (heldColumn pk t rowId pk) = rowId := by
  cases hheld : heldRow t (.str rowId) with
  | none => simp [heldColumn, hheld, column, lookup_withPk, jsString]
  | some row =>
      have hid : rowIdOf pk row = rowId := hkeyed rowId row hheld
      have hcol : heldColumn pk t rowId pk = column row pk := by
        simp only [heldColumn, hheld, Option.getD_some]
        exact column_withPk (by rw [hid]; exact hne) pk
      rw [hcol]
      exact hid

section Diff

variable {t : TableRows} {hlc : Hlc} {oldRows newRows : CachedRows}

/-- The row a delta of the diff leaves has the delta's row id. -/
theorem rowIdOf_taken (hkeyed : WellKeyed pk t) (hnew : RowsById pk newRows) {d : Delta}
    (hd : d ∈ (diff oldRows newRows).deltas hlc) {r data : Row}
    (hr : newRows.lookup d.rowId = some r) (hdata : ∀ c, column data c = takenColumn pk t d c) :
    rowIdOf pk data = d.rowId := by
  have hkey := hnew d.rowId r hr
  have hrow := mem_deltas.1 hd
  rw [rowIdOf, hdata pk]
  cases hold : oldRows.lookup d.rowId with
  | none =>
      have hins : insertDelta hlc d.rowId r = d := by simpa [rowDelta, hold, hr] using hrow
      rw [← hins, takenColumn_insert hkey]
      exact hkey.1
  | some c =>
      by_cases hnil : (fieldDiff c r).entries = []
      · simp [rowDelta, hold, hr, hnil] at hrow
      · have hupd : updateDelta hlc d.rowId (fieldDiff c r) = d := by
          simpa [rowDelta, hold, hr, hnil] using hrow
        rw [← hupd, takenColumn_update]
        split
        · exact jsString_heldColumn hkeyed hkey.2
        · exact hkey.1

variable (hkeyed : WellKeyed pk t) (hnew : RowsById pk newRows)
  {ds : List Delta} (hsub : ∀ d ∈ ds, d ∈ (diff oldRows newRows).deltas hlc)
  (hnodup : (ds.map (·.rowId)).Nodup) (htaken : ∀ d ∈ ds, Taken t d)

include hkeyed hnew hsub hnodup htaken

omit hkeyed in
/-- The row under a delta's key after the deltas. -/
theorem heldRow_applyDeltas {d : Delta} (hd : d ∈ ds) :
    (newRows.lookup d.rowId = none ∧ heldRow (applyDeltas pk t ds) (.str d.rowId) = none) ∨
      ∃ r data, newRows.lookup d.rowId = some r ∧
        heldRow (applyDeltas pk t ds) (.str d.rowId) = some data ∧
        ∀ c, column data c = takenColumn pk t d c := by
  rcases applyEntry_rowDelta hnew (hsub d hd) (htaken d hd) with ⟨e, he, hcases⟩
  have hlookup : (applyDeltas pk t ds).lookup (.str d.rowId) = some e :=
    (lookup_applyDeltas_of_mem hnodup hd).trans (lookup_applyDelta_self he)
  have hheld : heldRow (applyDeltas pk t ds) (.str d.rowId) = e.data := by
    simp [heldRow, hlookup]
  rw [hheld]
  exact hcases

theorem wellKeyed_applyDeltas : WellKeyed pk (applyDeltas pk t ds) := by
  intro rowId row hrow
  by_cases hmem : ∃ d ∈ ds, d.rowId = rowId
  · rcases hmem with ⟨d, hd, rfl⟩
    rcases heldRow_applyDeltas hnew hsub hnodup htaken hd with
      ⟨_, hnone⟩ | ⟨r, data, hr, hdata, hcol⟩
    · rw [hnone] at hrow
      cases hrow
    · rw [hdata] at hrow
      cases hrow
      exact rowIdOf_taken hkeyed hnew (hsub d hd) hr hcol
  · have hlookup : (applyDeltas pk t ds).lookup (.str rowId) = t.lookup (.str rowId) := by
      refine lookup_applyDeltas_of_not_mem fun d hd heq => hmem ⟨d, hd, ?_⟩
      have : rowId = d.rowId := by simpa using heq
      exact this.symm
    exact hkeyed rowId row (by simpa [heldRow, hlookup] using hrow)

/-- A row id whose key no delta addresses keeps its rows. -/
theorem holds_applyDeltas_of_ne {rowId : String} {key : Json} {row : Row}
    (hkey : ∀ d ∈ ds, d.rowId = rowId → key ≠ .str rowId) :
    Holds pk (applyDeltas pk t ds) rowId key row ↔ Holds pk t rowId key row := by
  by_cases hmem : ∃ d ∈ ds, key = .str d.rowId
  · rcases hmem with ⟨d, hd, rfl⟩
    have hne : d.rowId ≠ rowId := fun heq => hkey d hd heq (by rw [heq])
    constructor
    · rintro ⟨hheld, hid⟩
      have := wellKeyed_applyDeltas hkeyed hnew hsub hnodup htaken d.rowId row hheld
      exact absurd (this.symm.trans hid) hne
    · rintro ⟨hheld, hid⟩
      exact absurd ((hkeyed d.rowId row hheld).symm.trans hid) hne
  · have hlookup : (applyDeltas pk t ds).lookup key = t.lookup key :=
      lookup_applyDeltas_of_not_mem fun d hd heq => hmem ⟨d, hd, heq⟩
    simp [Holds, heldRow, hlookup]

/-- A row with a delta is shown under its string key, and under others where it already was. -/
theorem matches_applyDeltas_of_mem {d : Delta} (hd : d ∈ ds) :
    Matches pk (applyDeltas pk t ds) d.rowId (newRows.lookup d.rowId) ↔
      NoGhost pk t d.rowId ∧
        ∀ r, newRows.lookup d.rowId = some r → ∀ c, takenColumn pk t d c = column r c := by
  have hother : ∀ {key : Json} {row : Row}, key ≠ .str d.rowId →
      (Holds pk (applyDeltas pk t ds) d.rowId key row ↔ Holds pk t d.rowId key row) :=
    fun hne => holds_applyDeltas_of_ne hkeyed hnew hsub hnodup htaken (fun _ _ _ => hne)
  rcases heldRow_applyDeltas hnew hsub hnodup htaken hd with
    ⟨hr, hnone⟩ | ⟨r, data, hr, hdata, hcol⟩
  · rw [hr]
    constructor
    · intro h
      refine ⟨fun key row hheld => ?_, fun _ hr' => by cases hr'⟩
      by_contra hne
      exact h key row ((hother hne).2 hheld)
    · rintro ⟨hghost, _⟩ key row hheld
      by_cases hkey : key = .str d.rowId
      · subst hkey
        have := hheld.1
        rw [hnone] at this
        cases this
      · exact hkey (hghost key row ((hother hkey).1 hheld))
  · have hself : Holds pk (applyDeltas pk t ds) d.rowId (.str d.rowId) data :=
      ⟨hdata, rowIdOf_taken hkeyed hnew (hsub d hd) hr hcol⟩
    rw [hr]
    constructor
    · rintro ⟨key, row, hheld, hsame, huniq⟩
      have hkey : .str d.rowId = key := huniq _ _ hself
      subst hkey
      have hrow : row = data := Option.some.inj (hheld.1.symm.trans hdata)
      subst hrow
      refine ⟨fun key' row' hheld' => ?_, fun r' hr' c => ?_⟩
      · by_contra hne
        exact hne (huniq key' row' ((hother hne).2 hheld'))
      · cases hr'
        exact (hcol c).symm.trans (hsame c)
    · rintro ⟨hghost, hcols⟩
      refine ⟨_, data, hself, fun c => (hcol c).trans (hcols r rfl c), fun key' row' hheld' => ?_⟩
      by_contra hne
      exact hne (hghost key' row' ((hother hne).1 hheld'))

end Diff

/-- The diff of cache and result brings the client to the result exactly when the client recovers:
whatever the client and the cache are. -/
theorem mirrors_applyDeltas_iff {t : TableRows} {hlc : Hlc} {oldRows newRows : CachedRows}
    (hkeyed : WellKeyed pk t) (hnew : RowsById pk newRows)
    (htaken : ∀ d ∈ (diff oldRows newRows).deltas hlc, Taken t d) :
    Mirrors pk (applyDeltas pk t ((diff oldRows newRows).deltas hlc)) newRows ↔
      Recovers pk t oldRows newRows := by
  have hsub : ∀ d ∈ (diff oldRows newRows).deltas hlc, d ∈ (diff oldRows newRows).deltas hlc :=
    fun _ h => h
  have hnodup := nodup_deltas hlc oldRows newRows
  refine forall_congr' fun rowId => ?_
  have hunsent : rowDelta hlc rowId (oldRows.lookup rowId) (newRows.lookup rowId) = none →
      (Matches pk (applyDeltas pk t ((diff oldRows newRows).deltas hlc)) rowId
          (newRows.lookup rowId) ↔ Matches pk t rowId (newRows.lookup rowId)) := by
    intro hnone
    refine matches_congr
      (fun key row => holds_applyDeltas_of_ne hkeyed hnew hsub hnodup htaken ?_) _
    rintro d hd rfl
    rw [mem_deltas.1 hd] at hnone
    cases hnone
  have hsent : ∀ {d : Delta}, d.rowId = rowId →
      rowDelta hlc rowId (oldRows.lookup rowId) (newRows.lookup rowId) = some d →
      (Matches pk (applyDeltas pk t ((diff oldRows newRows).deltas hlc)) rowId
          (newRows.lookup rowId) ↔ NoGhost pk t rowId ∧
        ∀ r, newRows.lookup rowId = some r → ∀ c, takenColumn pk t d c = column r c) := by
    rintro d rfl hd
    exact matches_applyDeltas_of_mem hkeyed hnew hsub hnodup htaken (mem_deltas.2 hd)
  cases hold : oldRows.lookup rowId with
  | none =>
      cases hr : newRows.lookup rowId with
      | none =>
          rw [hold, hr] at hunsent
          exact hunsent rfl
      | some r =>
          rw [hold, hr] at hsent
          have hkey := hnew rowId r hr
          refine (hsent (d := insertDelta hlc rowId r) rfl rfl).trans ?_
          simp only [RowRecovers, and_iff_left_iff_imp]
          rintro _ r' hr' c
          cases hr'
          exact takenColumn_insert hkey c
  | some c =>
      cases hr : newRows.lookup rowId with
      | none =>
          rw [hold, hr] at hsent
          refine (hsent (d := deleteDelta hlc rowId) rfl rfl).trans ?_
          simp [RowRecovers]
      | some r =>
          by_cases hnil : (fieldDiff c r).entries = []
          · rw [hold, hr] at hunsent
            simpa [RowRecovers, hnil] using hunsent (by simp [rowDelta, hnil])
          · rw [hold, hr] at hsent
            refine (hsent (d := updateDelta hlc rowId (fieldDiff c r)) rfl
              (by simp [rowDelta, hnil])).trans ?_
            simp only [RowRecovers, hnil, if_false]
            refine and_congr_right fun _ => ?_
            constructor
            · intro h col hagree
              have := h r rfl col
              rwa [takenColumn_update, if_pos hagree] at this
            · intro h r' hr' col
              cases hr'
              rw [takenColumn_update]
              split
              · exact h col ‹_›
              · rfl

/-! ## Clocks -/

theorem eq_of_mem_rowClock {hlc held : Hlc} {c : String} (h : held ∈ (rowClock hlc).lookup c) :
    held = hlc := by
  by_cases hc : c = "_row"
  · subst hc
    rw [rowClock, AList.lookup_insert] at h
    exact (Option.some.inj h).symm
  · rw [rowClock, AList.lookup_insert_ne hc] at h
    simp at h

/-- The deltas of a diff carry its HLC only. -/
theorem hlc_of_mem_deltas {hlc : Hlc} {oldRows newRows : CachedRows} {d : Delta}
    (hd : d ∈ (diff oldRows newRows).deltas hlc) :
    d.hlc = hlc ∧ ∀ c, ∀ clock ∈ (d.colClocks.getD ∅).lookup c, clock = hlc := by
  rcases List.mem_append.1 hd with hd | hd
  · rcases List.mem_append.1 hd with hd | hd
    · rcases List.mem_map.1 hd with ⟨e, _, rfl⟩
      exact ⟨rfl, fun c clock h => by simp [insertDelta] at h⟩
    · rcases List.mem_map.1 hd with ⟨e, _, rfl⟩
      refine ⟨rfl, fun c clock h => ?_⟩
      have h' : (if c ∈ e.2.keys then some hlc else none) = some clock := by
        simpa [updateDelta, Lib.lookup_replay_empty, Lib.lastWrite_const] using h
      split at h' <;> cases h'
      rfl
  · rcases List.mem_map.1 hd with ⟨rowId, _, rfl⟩
    exact ⟨rfl, fun c clock h => by simp [deleteDelta] at h⟩

/-- A client takes every delta stamped after all it holds. -/
theorem taken_of_clockedBy {t : TableRows} {clock hlc : Hlc} (h : ClockedBy t clock)
    (hlt : clock < hlc) {oldRows newRows : CachedRows} {d : Delta}
    (hd : d ∈ (diff oldRows newRows).deltas hlc) : Taken t d := by
  rcases hlc_of_mem_deltas hd with ⟨hhlc, hcols⟩
  have hstale : isStale (t.lookup (.str d.rowId)) d.hlc = false := by
    cases hrow : t.lookup (.str d.rowId) with
    | none => rfl
    | some row =>
        cases hserver : row.serverHlc with
        | none => simp [isStale, hserver]
        | some held =>
            have hle : held ≤ clock := (h _ row hrow).1 held hserver
            have : held < hlc := lt_of_le_of_lt hle hlt
            simp [isStale, hserver, hhlc, this]
  unfold Taken
  split
  · rename_i row _ hrow
    intro c _ held hheld
    have hle : held ≤ clock := (h _ row hrow).2 c held hheld
    cases hclock : (d.colClocks.getD ∅).lookup c with
    | none => simpa [hhlc] using lt_of_le_of_lt hle hlt
    | some clock' =>
        have : clock' = hlc := hcols c clock' hclock
        simpa [this] using lt_of_le_of_lt hle hlt
  · exact hstale

theorem ClockedBy.mono {t : TableRows} {clock hlc : Hlc} (h : ClockedBy t clock)
    (hle : clock ≤ hlc) : ClockedBy t hlc := by
  intro key row hrow
  rcases h key row hrow with ⟨hserver, hcols⟩
  exact ⟨fun held hheld => (hserver held hheld).trans hle,
    fun c held hheld => (hcols c held hheld).trans hle⟩

theorem clockedBy_insert {t : TableRows} {hlc : Hlc} (h : ClockedBy t hlc) {key : Json}
    {row : LocalRow} (hserver : ∀ held ∈ row.serverHlc, held ≤ hlc)
    (hcols : ∀ c, ∀ held ∈ row.colClocks.lookup c, held ≤ hlc) :
    ClockedBy (t.insert key row) hlc := by
  intro key' row' hrow'
  by_cases hkey : key' = key
  · subst hkey
    rw [AList.lookup_insert] at hrow'
    cases hrow'
    exact ⟨hserver, hcols⟩
  · rw [AList.lookup_insert_ne hkey] at hrow'
    exact h key' row' hrow'

theorem clockedBy_applyDelta {t : TableRows} {hlc : Hlc} (h : ClockedBy t hlc) {d : Delta}
    (hd : d.hlc ≤ hlc) (hcols : ∀ c, ∀ clock ∈ (d.colClocks.getD ∅).lookup c, clock ≤ hlc) :
    ClockedBy (applyDelta pk t d) hlc := by
  have hclock : ∀ c, ((d.colClocks.getD ∅).lookup c).getD d.hlc ≤ hlc := by
    intro c
    cases hc : (d.colClocks.getD ∅).lookup c with
    | none => exact hd
    | some clock => exact hcols c clock hc
  have hnewRow : ∀ c, ∀ held ∈ (d.colClocks.getD (rowClock d.hlc)).lookup c, held ≤ hlc := by
    intro c held hheld
    cases hcc : d.colClocks with
    | some clocks => exact hcols c held (by simpa [hcc] using hheld)
    | none =>
        have : held = d.hlc := eq_of_mem_rowClock (by simpa [hcc] using hheld)
        rwa [this]
  unfold applyDelta
  split
  · rename_i e he
    unfold applyEntry at he
    split at he
    · split at he
      · cases he
      · cases he
        exact clockedBy_insert h (by simpa using hd) (by simp)
    · rename_i row hop hrow
      rcases h _ row hrow with ⟨hserver, hold⟩
      have hadvance : advanceRow row d.hlc ≤ hlc := by
        unfold advanceRow
        split
        · rename_i held hheld
          split
          · exact hserver held hheld
          · exact hd
        · exact hd
      dsimp only at he
      split at he
      · cases he
      · cases he
        refine clockedBy_insert h (by simpa using hadvance) fun c held hheld => ?_
        by_cases hc : c = "_row"
        · subst hc
          have : held = advanceRow row d.hlc := by simpa [eq_comm] using hheld
          rwa [this]
        · have hheld' : held ∈ (Lib.replay row.colClocks
              ((newerColumns row d).map fun u => (u.1, u.2.2))).lookup c := by
            rwa [AList.lookup_insert_ne hc] at hheld
          rw [Lib.lookup_replay, Option.mem_def, Option.or_eq_some_iff] at hheld'
          rcases hheld' with hnew | ⟨_, hheld⟩
          · rcases List.mem_map.1 (Lib.mem_of_lastWrite hnew) with ⟨u, hu, heq⟩
            rcases List.mem_map.1 (List.mem_filter.1 hu).1 with ⟨e, _, rfl⟩
            have hval : ((d.colClocks.getD ∅).lookup e.1).getD d.hlc = held :=
              congrArg Prod.snd heq
            rw [← hval]
            exact hclock e.1
          · exact hold c held hheld
    · split at he
      · cases he
      · cases he
        exact clockedBy_insert h (by simpa using hd) hnewRow
  · exact h

theorem clockedBy_applyDeltas {hlc : Hlc} {ds : List Delta}
    (hds : ∀ d ∈ ds, d.hlc ≤ hlc ∧ ∀ c, ∀ clock ∈ (d.colClocks.getD ∅).lookup c, clock ≤ hlc) :
    ∀ {t : TableRows}, ClockedBy t hlc → ClockedBy (applyDeltas pk t ds) hlc := by
  induction ds with
  | nil =>
      intro t h
      exact h
  | cons d ds ih =>
      intro t h
      rcases hds d List.mem_cons_self with ⟨hd, hcols⟩
      exact ih (fun d' hd' => hds d' (List.mem_cons_of_mem _ hd'))
        (clockedBy_applyDelta h hd hcols)

/-! ## Snapshots -/

theorem mem_applySnapshot {t : TableRows} {msg : Snapshot} {key : Json} {row : LocalRow}
    (h : (applySnapshot t msg).lookup key = some row) :
    (∃ data ∈ msg.rows, snapshotKey msg.pk data = key ∧ snapshotEntry msg data = row) ∨
      (msg.append = true ∧ t.lookup key = some row) := by
  rw [applySnapshot, Lib.lookup_replay, Option.or_eq_some_iff] at h
  rcases h with h | ⟨_, h⟩
  · rcases List.mem_map.1 (Lib.mem_of_lastWrite h) with ⟨data, hdata, heq⟩
    exact .inl ⟨data, hdata, congrArg Prod.fst heq, congrArg Prod.snd heq⟩
  · cases happend : msg.append with
    | true => exact .inr ⟨rfl, by simpa [happend] using h⟩
    | false => simp [happend] at h

theorem rowIdOf_of_snapshotKey {row : Row} {rowId : String}
    (h : snapshotKey pk row = .str rowId) : rowIdOf pk row = rowId := by
  unfold snapshotKey at h
  split at h
  · rename_i hnull
    cases h
    simp [rowIdOf, hnull, jsString]
  · simp [rowIdOf, h, jsString]

theorem wellKeyed_applySnapshot {t : TableRows} (h : WellKeyed pk t) {rows : List Row}
    {hlc : Hlc} {append : Bool} :
    WellKeyed pk (applySnapshot t (snapshotMessage pk rows hlc append)) := by
  intro rowId data hdata
  rcases Option.bind_eq_some_iff.1 hdata with ⟨row, hrow, hrowData⟩
  rcases mem_applySnapshot hrow with ⟨data', _, hkey, rfl⟩ | ⟨_, hold⟩
  · have : data' = data := by simpa [snapshotEntry] using hrowData
    subst this
    exact rowIdOf_of_snapshotKey hkey
  · exact h rowId data (by simp [heldRow, hold, hrowData])

theorem clockedBy_applySnapshot {t : TableRows} {hlc : Hlc} (h : ClockedBy t hlc)
    {rows : List Row} {append : Bool} :
    ClockedBy (applySnapshot t (snapshotMessage pk rows hlc append)) hlc := by
  intro key row hrow
  rcases mem_applySnapshot hrow with ⟨data, _, _, rfl⟩ | ⟨_, hold⟩
  · have hclocks : ∀ c, ∀ held ∈
        (((snapshotMessage pk rows hlc append).colClocks.lookup
          (jsString (snapshotKey pk data))).getD ∅).lookup c, held ≤ hlc := by
      intro c held hheld
      cases hl : (snapshotMessage pk rows hlc append).colClocks.lookup
          (jsString (snapshotKey pk data)) with
      | none => simp [hl] at hheld
      | some clocks =>
          have hl' : Lib.lastWrite _ _ = some clocks := (Lib.lookup_replay_empty _ _).symm.trans hl
          rcases List.mem_map.1 (Lib.mem_of_lastWrite hl') with ⟨rowId, _, heq⟩
          have hclock : clocks = rowClock hlc := (congrArg Prod.snd heq).symm
          have : held = hlc := eq_of_mem_rowClock (by simpa [hl, hclock] using hheld)
          rw [this]
    exact ⟨hclocks "_row", hclocks⟩
  · exact h key row hold

/-- Every row of the result has a string as its primary key. -/
def StringKeyed (pk : String) (rows : List Row) : Prop :=
  ∀ row ∈ rows, ∃ rowId, column row pk = .str rowId ∧ rowId ≠ ""

theorem snapshotKey_of_stringKeyed {rows : List Row} (h : StringKeyed pk rows) {row : Row}
    (hrow : row ∈ rows) : snapshotKey pk row = .str (rowIdOf pk row) ∧ rowIdOf pk row ≠ "" := by
  rcases h row hrow with ⟨rowId, hcol, hne⟩
  simp [snapshotKey, rowIdOf, hcol, jsString, hne]

/-- A table after a snapshot with string keys: the rows of the snapshot over those there were. -/
theorem heldRow_applySnapshot {t : TableRows} {rows : List Row} (h : StringKeyed pk rows)
    (hlc : Hlc) (append : Bool) :
    (∀ rowId, heldRow (applySnapshot t (snapshotMessage pk rows hlc append)) (.str rowId) =
      ((byRowId pk rows).lookup rowId).or
        (if append then heldRow t (.str rowId) else none)) ∧
      ∀ key, (∀ rowId, key ≠ .str rowId) →
        heldRow (applySnapshot t (snapshotMessage pk rows hlc append)) key =
          if append then heldRow t key else none := by
  have hlog : (rows.map fun row =>
      (snapshotKey pk row, snapshotEntry (snapshotMessage pk rows hlc append) row)) =
      (rows.map fun row => (rowIdOf pk row, row)).map fun w =>
        (Json.str w.1, snapshotEntry (snapshotMessage pk rows hlc append) w.2) := by
    rw [List.map_map]
    refine List.map_congr_left fun row hrow => ?_
    simp [(snapshotKey_of_stringKeyed h hrow).1]
  have hfilter : (rows.map fun row => (rowIdOf pk row, row)).filter (·.1 ≠ "") =
      rows.map fun row => (rowIdOf pk row, row) := by
    refine List.filter_eq_self.2 fun w hw => ?_
    rcases List.mem_map.1 hw with ⟨row, hrow, rfl⟩
    simpa using (snapshotKey_of_stringKeyed h hrow).2
  have hlookup : ∀ key, (applySnapshot t (snapshotMessage pk rows hlc append)).lookup key =
      (Lib.lastWrite ((rows.map fun row => (rowIdOf pk row, row)).map fun w =>
        (Json.str w.1, snapshotEntry (snapshotMessage pk rows hlc append) w.2)) key).or
        (if append then t.lookup key else none) := by
    intro key
    rw [← hlog]
    cases append <;> simp [applySnapshot, snapshotMessage, Lib.lookup_replay]
  constructor
  · intro rowId
    have hinj : Function.Injective Json.str := fun a b hab => by simpa using hab
    rw [heldRow, hlookup, Lib.lastWrite_map hinj, byRowId, Lib.lookup_replay_empty, hfilter]
    cases hl : Lib.lastWrite (rows.map fun row => (rowIdOf pk row, row)) rowId with
    | some row => simp [snapshotEntry]
    | none => cases append <;> simp [heldRow]
  · intro key hkey
    have hnone : Lib.lastWrite ((rows.map fun row => (rowIdOf pk row, row)).map fun w =>
        (Json.str w.1, snapshotEntry (snapshotMessage pk rows hlc append) w.2)) key = none := by
      refine Lib.lastWrite_eq_none.2 fun w hw heq => ?_
      rcases List.mem_map.1 hw with ⟨w', _, rfl⟩
      exact hkey w'.1 heq.symm
    rw [heldRow, hlookup, hnone]
    cases append <;> simp [heldRow]

/-- Each row of the result has an id, and rows with one id have one key. -/
def KeyedById (pk : String) (rows : List Row) : Prop :=
  (∀ row ∈ rows, rowIdOf pk row ≠ "") ∧
    ∀ row ∈ rows, ∀ row' ∈ rows, rowIdOf pk row = rowIdOf pk row' →
      snapshotKey pk row = snapshotKey pk row'

/-- The row id is what the key reads as. -/
theorem rowIdOf_eq_jsString (row : Row) : rowIdOf pk row = jsString (snapshotKey pk row) := by
  unfold rowIdOf snapshotKey
  split
  · rename_i hnull
    simp [hnull, jsString]
  · rfl

/-- A snapshot shows its rows exactly if they are keyed by their ids. -/
theorem mirrors_applySnapshot_iff {t : TableRows} {rows : List Row} {hlc : Hlc} :
    Mirrors pk (applySnapshot t (snapshotMessage pk rows hlc false)) (byRowId pk rows) ↔
      KeyedById pk rows := by
  have hheld : ∀ key, heldRow (applySnapshot t (snapshotMessage pk rows hlc false)) key =
      Lib.lastWrite (rows.map fun row => (snapshotKey pk row, row)) key := by
    intro key
    have hmap := Lib.lastWrite_map (fun _ _ h => h)
      (snapshotEntry (snapshotMessage pk rows hlc false))
      (rows.map fun row => (snapshotKey pk row, row)) key
    have hlookup : (applySnapshot t (snapshotMessage pk rows hlc false)).lookup key =
        (Lib.lastWrite (rows.map fun row => (snapshotKey pk row, row)) key).map
          (snapshotEntry (snapshotMessage pk rows hlc false)) := by
      simpa [applySnapshot, snapshotMessage, Lib.lookup_replay, Function.comp_def] using hmap
    rw [heldRow, hlookup]
    cases Lib.lastWrite (rows.map fun row => (snapshotKey pk row, row)) key with
    | none => rfl
    | some row => rfl
  have hmem : ∀ {key : Json} {row : Row},
      heldRow (applySnapshot t (snapshotMessage pk rows hlc false)) key = some row →
        row ∈ rows ∧ snapshotKey pk row = key := by
    intro key row hrow
    rw [hheld] at hrow
    rcases List.mem_map.1 (Lib.mem_of_lastWrite hrow) with ⟨row', hrow', heq⟩
    cases heq
    exact ⟨hrow', rfl⟩
  -- Under the key of any row of the result the client holds one with the same id.
  have hshown : ∀ row ∈ rows, ∃ row',
      Holds pk (applySnapshot t (snapshotMessage pk rows hlc false)) (rowIdOf pk row)
        (snapshotKey pk row) row' := by
    intro row hrow
    cases hl : heldRow (applySnapshot t (snapshotMessage pk rows hlc false))
        (snapshotKey pk row) with
    | some row' =>
        refine ⟨row', hl, ?_⟩
        rw [rowIdOf_eq_jsString, (hmem hl).2, ← rowIdOf_eq_jsString]
    | none =>
        rw [hheld] at hl
        exact absurd rfl (Lib.lastWrite_eq_none.1 hl _ (List.mem_map.2 ⟨row, hrow, rfl⟩))
  constructor
  · intro h
    refine ⟨fun row hrow hid => ?_, fun row hrow row' hrow' hid => ?_⟩
    · rcases hshown row hrow with ⟨row', hholds⟩
      have hmatch := h ""
      cases hr : (byRowId pk rows).lookup "" with
      | none =>
          rw [hr] at hmatch
          rw [hid] at hholds
          exact hmatch _ row' hholds
      | some r => exact (rowsById_byRowId pk rows "" r hr).2 rfl
    · rcases hshown row hrow with ⟨r₁, h₁⟩
      rcases hshown row' hrow' with ⟨r₂, h₂⟩
      rw [← hid] at h₂
      have hmatch := h (rowIdOf pk row)
      cases hr : (byRowId pk rows).lookup (rowIdOf pk row) with
      | none =>
          rw [hr] at hmatch
          exact absurd h₁ (hmatch _ r₁)
      | some r =>
          rw [hr] at hmatch
          rcases hmatch with ⟨key, held, _, _, huniq⟩
          exact (huniq _ r₁ h₁).trans (huniq _ r₂ h₂).symm
  · rintro ⟨hids, hkeys⟩
    have hfilter : (rows.map fun row => (rowIdOf pk row, row)).filter (·.1 ≠ "") =
        rows.map fun row => (rowIdOf pk row, row) := by
      refine List.filter_eq_self.2 fun w hw => ?_
      rcases List.mem_map.1 hw with ⟨row, hrow, rfl⟩
      simpa using hids row hrow
    have hlookup : ∀ row ∈ rows, (byRowId pk rows).lookup (rowIdOf pk row) =
        heldRow (applySnapshot t (snapshotMessage pk rows hlc false)) (snapshotKey pk row) := by
      intro row hrow
      rw [hheld, byRowId, Lib.lookup_replay_empty, hfilter]
      refine Lib.lastWrite_congr fun row' hrow' => ⟨hkeys row' hrow' row hrow, fun hkey => ?_⟩
      rw [rowIdOf_eq_jsString, hkey, ← rowIdOf_eq_jsString]
    intro rowId
    cases hr : (byRowId pk rows).lookup rowId with
    | none =>
        rintro key row ⟨hrow, hid⟩
        have hfound := hlookup row (hmem hrow).1
        rw [hid, hr, (hmem hrow).2, hrow] at hfound
        cases hfound
    | some r =>
        have hr' : Lib.lastWrite (rows.map fun row => (rowIdOf pk row, row)) rowId = some r := by
          rw [← hfilter, ← Lib.lookup_replay_empty]
          exact hr
        rcases List.mem_map.1 (Lib.mem_of_lastWrite hr') with ⟨row, hrow, heq⟩
        cases heq
        refine ⟨snapshotKey pk r, r, ⟨(hlookup r hrow).symm.trans hr, rfl⟩, fun _ => rfl, ?_⟩
        rintro key' row' ⟨hrow', hid'⟩
        rw [← (hmem hrow').2]
        exact hkeys row' (hmem hrow').1 r hrow hid'

end Sync
end Reflectdb
