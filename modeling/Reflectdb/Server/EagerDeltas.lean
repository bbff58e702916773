import Reflectdb.Server.EagerBuffer
import Reflectdb.Sync.DeltaOrder

/-!
# Eager deltas — what a subscriber makes of the accepted ops

A subscriber that gets the deltas of a row in the order of their stamps holds what the ops make.
The clocks of its columns are those of the ops that it has got, so that every column of an update
is newer.
-/

namespace Reflectdb
namespace Server

open Core Client Lib Sync

/-! ## The delta of an op -/

section Write

variable {op : EagerRowOp} {read : Option ExistingRow}

/-- What an op writes over what it has read. -/
abbrev EagerRowOp.writeOver (op : EagerRowOp) (read : Option ExistingRow) : EagerWrite :=
  eagerWrite op.op op.key.2 op.payload op.hlc read

theorem writeOver_delta (op : EagerRowOp) (read : Option ExistingRow) :
    ∃ clocks, (op.writeOver read).delta = ⟨op.op, op.key.2, op.payload, op.hlc,
      some ((stampColumns clocks op.payload op.hlc).insert "_row" op.hlc)⟩ := by
  unfold EagerRowOp.writeOver eagerWrite
  simp only
  split
  · exact ⟨_, rfl⟩
  · exact ⟨∅, rfl⟩

/-- A column that the op writes has the op's clock. -/
theorem incomingClock_writeOver {c : String} (hc : c ∈ op.payload.getD ∅)
    (hproto : c ≠ "__proto__") : incomingClock (op.writeOver read).delta c = op.hlc := by
  rcases writeOver_delta op read with ⟨clocks, hdelta⟩
  rw [incomingClock, hdelta]
  simp only [Option.getD_some]
  by_cases hrow : c = "_row"
  · subst hrow
    rw [AList.lookup_insert]
    rfl
  · have hkeys : c ∈ (op.payload.getD ∅).keys := AList.mem_keys.1 hc
    rw [AList.lookup_insert_ne hrow, stampColumns, lookup_assignAll_const, if_pos ⟨hkeys, hproto⟩]
    rfl

/-- A write that is not laid over a row has no other clocks than the op's. -/
theorem bounded_writeOver (hfresh : op.op = .update → (read.bind (·.row)) = none) :
    Bounded ((op.writeOver read).delta.colClocks.getD ∅) op.hlc := by
  have hempty : Bounded ((stampColumns ∅ op.payload op.hlc).insert "_row" op.hlc) op.hlc :=
    (bounded_empty.assignAll _).insert "_row"
  unfold EagerRowOp.writeOver eagerWrite
  simp only
  split
  · rename_i hop _
    cases hfresh hop
  · exact hempty

/-- Laid over the row that the earlier ops make, an op writes the row after it. -/
theorem writeOver_mergedRow (hpayload : op.op = .delete ↔ op.payload = none) {row : Option Row}
    (hread : op.op = .update → (read.bind (·.row)) = row) :
    (op.writeOver read).mergedRow = rowAfter op row := by
  unfold EagerRowOp.writeOver eagerWrite rowAfter
  simp only
  cases hop : op.op with
  | insert =>
      cases hcolumns : op.payload with
      | none => exact absurd (hpayload.2 hcolumns) (by simp [hop])
      | some columns => rfl
  | delete => exact hpayload.1 hop
  | update =>
      cases hcolumns : op.payload with
      | none => exact absurd (hpayload.2 hcolumns) (by simp [hop])
      | some columns =>
          have hrow := hread hop
          rcases read with _ | ⟨_ | old, rowHlc, clocks⟩ <;> subst hrow
          · simp [AList.union_empty]
          · simp
          · simp

end Write

/-! ## The row at a subscriber -/

/-- The local row is what the ops make, and newer ops are newer than all of its clocks. -/
structure LocalAgrees (pk rowId : String) (local_ : Option LocalRow)
    (entries : List EagerEntry) : Prop where
  absent : local_ = none ↔ entries = []
  data : Delivered pk rowId (local_.bind (·.data)) (foldOps entries)
  below : ∀ hlc, (∀ entry ∈ entries, entry.op.hlc < hlc) → ∀ row, local_ = some row →
    (∀ held ∈ row.serverHlc, held < hlc) ∧ ∀ c held, row.colClocks.lookup c = some held → held < hlc

theorem foldOps_append_singleton (entries : List EagerEntry) (entry : EagerEntry) :
    foldOps (entries ++ [entry]) = rowAfter entry.op (foldOps entries) := by
  rw [foldOps, List.foldl_append]
  rfl

section Subscriber

variable {pk : String} {entries : List EagerEntry} {entry : EagerEntry}
  {local_ : Option LocalRow} {read : Option ExistingRow}

theorem lookup_union_or (a b : Row) (c : String) :
    (a ∪ b).lookup c = (a.lookup c).or (b.lookup c) := by
  by_cases hc : c ∈ a
  · rw [AList.lookup_union_left hc]
    rcases Option.isSome_iff_exists.1 (AList.lookup_isSome.2 hc) with ⟨v, hv⟩
    rw [hv]
    rfl
  · rw [AList.lookup_union_right hc, AList.lookup_eq_none.2 hc]
    rfl

/-- A row with its primary key is not changed by another one. -/
theorem lookup_withPk_withPk (rowId : String) (data : Row) (c : String) :
    (withPk pk rowId (withPk pk rowId data)).lookup c = (withPk pk rowId data).lookup c := by
  rw [lookup_withPk]
  split
  · rename_i hc
    subst hc
    rw [lookup_withPk, if_pos rfl]
    rfl
  · rfl

theorem withPk_lookup_congr {rowId : String} {a b : Row} (h : ∀ c, a.lookup c = b.lookup c)
    (c : String) : (withPk pk rowId a).lookup c = (withPk pk rowId b).lookup c := by
  rw [lookup_withPk, lookup_withPk, h, h]

/-- A local row that an op replaces. -/
theorem LocalAgrees.replace {row : LocalRow}
    (hdata : Delivered pk entry.op.key.2 row.data (foldOps (entries ++ [entry])))
    (hserver : row.serverHlc = some entry.op.hlc) (hclocks : Bounded row.colClocks entry.op.hlc) :
    LocalAgrees pk entry.op.key.2 (some row) (entries ++ [entry]) := by
  refine ⟨by simp, hdata, ?_⟩
  rintro hlc hbelow _ ⟨⟩
  have hlt := hbelow entry (by simp)
  refine ⟨fun held hheld => ?_, fun c held hheld => ?_⟩
  · rw [hserver] at hheld
    obtain rfl := Option.some.inj hheld
    exact hlt
  · exact (bounded_iff.1 hclocks c held hheld).trans_lt hlt

/-- The columns of an update that is newer than everything in the row are taken. -/
theorem LocalAgrees.takes {row : LocalRow}
    (h : LocalAgrees pk entry.op.key.2 (some row) entries)
    (hnewer : ∀ a ∈ entries, a.op.hlc < entry.op.hlc)
    (hproto : "__proto__" ∉ entry.op.payload.getD ∅) {c : String}
    (hc : c ∈ entry.op.payload.getD ∅) :
    takesColumn row (entry.op.writeOver read).delta c = true := by
  unfold takesColumn
  split
  · rfl
  · rename_i held hheld
    have hne : c ≠ "__proto__" := fun heq => hproto (heq ▸ hc)
    rw [incomingClock_writeOver hc hne]
    exact decide_eq_true ((h.below _ hnewer row rfl).2 c held hheld)

theorem LocalAgrees.update {row : LocalRow}
    (h : LocalAgrees pk entry.op.key.2 (some row) entries)
    (hnewer : ∀ a ∈ entries, a.op.hlc < entry.op.hlc) (hfits : OpFits entry.op entries)
    (hop : entry.op.op = .update) :
    LocalAgrees pk entry.op.key.2
      ((applyEntry pk (some row) (entry.op.writeOver read).delta).or (some row))
      (entries ++ [entry]) := by
  rcases hfits with ⟨-, hproto, hcolumns⟩
  rcases writeOver_delta entry.op read with ⟨clocks, hdelta⟩
  have htakes : ∀ {c}, c ∈ entry.op.payload.getD ∅ →
      takesColumn row (entry.op.writeOver read).delta c = true :=
    fun hc => h.takes hnewer hproto hc
  have hpayload : (entry.op.writeOver read).delta.payload = entry.op.payload := by rw [hdelta]
  have hrowId : (entry.op.writeOver read).delta.rowId = entry.op.key.2 := by rw [hdelta]
  have hfold : foldOps (entries ++ [entry]) =
      some (entry.op.payload.getD ∅ ∪ (foldOps entries).getD ∅) := by
    rw [foldOps_append_singleton, rowAfter, hop]
  have hold : ∀ c, (withPk pk entry.op.key.2 (row.data.getD ∅)).lookup c =
      (withPk pk entry.op.key.2 ((foldOps entries).getD ∅)).lookup c := by
    have hdata := h.data
    intro c
    cases hrow : row.data with
    | none =>
        cases hentries : foldOps entries with
        | none => rfl
        | some r => simp [hrow, hentries, Delivered] at hdata
    | some data =>
        cases hentries : foldOps entries with
        | none => simp [hrow, hentries, Delivered] at hdata
        | some r =>
            simp only [Option.bind_some, hrow, hentries, Delivered] at hdata
            rw [Option.getD_some, Option.getD_some, lookup_withPk]
            by_cases hc : c = pk
            · subst hc
              rw [if_pos rfl, hdata, lookup_withPk, if_pos rfl]
              rfl
            · rw [if_neg hc]
              exact hdata c
  rw [applyEntry_update pk row (by rw [hdelta]; exact hop)]
  by_cases hnil : newerColumns row (entry.op.writeOver read).delta = []
  · -- There is nothing to write: the row stays as it is.
    rw [if_pos hnil, Option.none_or]
    rw [newerColumns_eq_nil_iff, hpayload] at hnil
    have hno : ∀ c, c ∉ entry.op.payload.getD ∅ := by
      intro c hc
      have hfalse := hnil c hc
      rw [htakes hc] at hfalse
      cases hfalse
    have hsome : (foldOps entries).isSome = true := by
      rcases hcolumns hop with hne | hempty | hsome
      · rcases List.exists_mem_of_ne_nil _ hne with ⟨e, he⟩
        exact absurd (AList.mem_keys.2 (List.mem_map_of_mem he)) (hno e.1)
      · cases h.absent.2 (List.isEmpty_iff.1 hempty)
      · exact hsome
    rcases Option.isSome_iff_exists.1 hsome with ⟨r, hr⟩
    refine ⟨by simp, ?_, fun hlc hbelow => h.below hlc fun a ha =>
      hbelow a (List.mem_append_left _ ha)⟩
    have hdata := h.data
    rw [hfold, hr, Option.getD_some]
    rw [hr] at hdata
    cases hrow : row.data with
    | none => simp [hrow, Delivered] at hdata
    | some data =>
        simp only [Option.bind_some, hrow, Delivered] at hdata ⊢
        intro c
        refine (hdata c).trans (withPk_lookup_congr (fun c => ?_) c)
        exact (AList.lookup_union_right (hno c)).symm
  · rw [if_neg hnil, Option.some_or]
    refine ⟨by simp, ?_, ?_⟩
    · -- Column by column, the payload over the row.
      rw [hfold]
      intro c
      have hcolumn := lookup_data_updatedRow pk row (entry.op.writeOver read).delta c
      simp only [updatedRow, Option.map_some, Option.some.injEq, hpayload, hrowId] at hcolumn
      rw [hrowId, ← lookup_withPk_withPk, hcolumn, hold]
      have hfilter : ((entry.op.payload.getD ∅).lookup c).filter
          (fun _ => takesColumn row (entry.op.writeOver read).delta c) =
          (entry.op.payload.getD ∅).lookup c := by
        cases hlookup : (entry.op.payload.getD ∅).lookup c with
        | none => rfl
        | some v =>
            have hc : c ∈ entry.op.payload.getD ∅ := AList.lookup_isSome.1 (by rw [hlookup]; rfl)
            rw [Option.filter_some, if_pos (htakes hc)]
      rw [hfilter, lookup_withPk, lookup_withPk, lookup_union_or, lookup_union_or]
      by_cases hc : c = pk
      · subst hc
        rw [if_pos rfl, if_pos rfl]
        cases (entry.op.payload.getD ∅).lookup c <;> rfl
      · rw [if_neg hc, if_neg hc]
    · rintro hlc hbelow _ ⟨⟩
      have hlt : entry.op.hlc < hlc := hbelow entry (by simp)
      have hrow := h.below hlc (fun a ha => hbelow a (List.mem_append_left _ ha)) row rfl
      have hadvance : advanceRow row entry.op.hlc < hlc := by
        unfold advanceRow
        split
        · rename_i held hheld
          split
          · exact hrow.1 held hheld
          · exact hlt
        · exact hlt
      have hhlc : (entry.op.writeOver read).delta.hlc = entry.op.hlc := by rw [hdelta]
      constructor
      · intro held hheld
        simp only [updatedRow, hhlc, Option.mem_def, Option.some.injEq] at hheld
        exact hheld ▸ hadvance
      · intro c held hheld
        by_cases hc : c = "_row"
        · subst hc
          simp only [updatedRow, hhlc, AList.lookup_insert, Option.some.injEq] at hheld
          exact hheld ▸ hadvance
        · rw [lookup_colClocks_updatedRow hc, hpayload] at hheld
          cases hlookup : (entry.op.payload.getD ∅).lookup c with
          | none =>
              rw [hlookup] at hheld
              exact hrow.2 c held hheld
          | some v =>
              have hcol : c ∈ entry.op.payload.getD ∅ :=
                AList.lookup_isSome.1 (by rw [hlookup]; rfl)
              have hne : c ≠ "__proto__" := fun heq => hproto (heq ▸ hcol)
              rw [hlookup, Option.filter_some, if_pos (htakes hcol), Option.map_some,
                Option.some_or, incomingClock_writeOver hcol hne] at hheld
              exact Option.some.inj hheld ▸ hlt

/-- The next op of a row at a subscriber that has got the earlier ones. -/
theorem LocalAgrees.applyEntry (h : LocalAgrees pk entry.op.key.2 local_ entries)
    (hnewer : ∀ a ∈ entries, a.op.hlc < entry.op.hlc) (hfits : OpFits entry.op entries)
    (hwrite : entry.write = entry.op.writeOver read)
    (hread : entry.op.op = .update → (read.bind (·.row)) = foldOps entries) :
    LocalAgrees pk entry.op.key.2 ((applyEntry pk local_ entry.write.delta).or local_)
      (entries ++ [entry]) := by
  rw [hwrite]
  rcases writeOver_delta entry.op read with ⟨clocks, hdelta⟩
  have hstale : isStale local_ entry.op.hlc = false := by
    unfold isStale
    split
    · rename_i held hheld
      rcases Option.bind_eq_some_iff.1 hheld with ⟨row, rfl, hserver⟩
      exact decide_eq_false (not_le.2 ((h.below _ hnewer row rfl).1 held hserver))
    · rfl
  have hfold := foldOps_append_singleton entries entry
  cases hop : entry.op.op with
  | delete =>
      have hentry : Client.applyEntry pk local_ (entry.op.writeOver read).delta =
          some ⟨none, ∅, some entry.op.hlc⟩ := by
        simp [Client.applyEntry, hdelta, hop, hstale]
      rw [hentry]
      refine LocalAgrees.replace ?_ rfl bounded_empty
      rw [hfold, rowAfter, hop]
      trivial
  | insert =>
      have hentry : Client.applyEntry pk local_ (entry.op.writeOver read).delta =
          some ⟨some (withPk pk entry.op.key.2 (entry.op.payload.getD ∅)),
            (entry.op.writeOver read).delta.colClocks.getD ∅, some entry.op.hlc⟩ := by
        simp [Client.applyEntry, hdelta, hop, hstale]
      rw [hentry]
      refine LocalAgrees.replace ?_ rfl (bounded_writeOver (by simp [hop]))
      rw [hfold, rowAfter, hop]
      exact fun c => rfl
  | update =>
      cases hlocal : local_ with
      | some row =>
          rw [hlocal] at h
          exact h.update hnewer hfits hop
      | none =>
          -- The subscriber has never heard of the row, and neither has the server.
          have hentries := h.absent.1 hlocal
          have hnone : foldOps entries = none := by
            rw [hentries]
            rfl
          have hentry : Client.applyEntry pk none (entry.op.writeOver read).delta =
              some ⟨some (withPk pk entry.op.key.2 (entry.op.payload.getD ∅)),
                (entry.op.writeOver read).delta.colClocks.getD ∅, some entry.op.hlc⟩ := by
            simp [Client.applyEntry, hdelta, hop, isStale]
          rw [hentry]
          refine LocalAgrees.replace ?_ rfl (bounded_writeOver fun hupdate => ?_)
          · rw [hfold, rowAfter, hop, hnone]
            exact withPk_lookup_congr fun c => by simp [AList.union_empty]
          · rw [hread hupdate, hnone]

end Subscriber

end Server
end Reflectdb
