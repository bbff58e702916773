import Reflectdb.Sync.WriterSession

/-!
# Writer mirror — what the cached results claim of their writer's stores

Under a condition on each acceptance, snapshot and broadcast, every cached result of a client claims
only what the client holds under its query, once the own ops of the row are accepted.  The invariant
is about a base table for each query: the store is the base with the ops that are not accepted yet
replayed on it, and an acceptance takes its op into the base.
-/

namespace Reflectdb
namespace Sync

open Core Client Server

/-! ## The mirror -/

/-- A cached row that the client holds with all its columns, or none that it does not hold. -/
def ShowsRow (held : Option Row) : Option Row → Prop
  | none => held = none
  | some r => ∃ row, held = some row ∧ ∀ c v, r.lookup c = some v → column row c = v

/-- The client holds the rows of the result with their columns, and no other rows. -/
structure Claims (t : TableRows) (rows : CachedRows) : Prop where
  keys : ∀ key row, heldRow t key = some row → ∃ rowId, key = .str rowId
  rows : ∀ rowId, ShowsRow (heldRow t (.str rowId)) (rows.lookup rowId)

/-- All the row's HLCs are older. -/
def OlderRow (row : LocalRow) (hlc : Hlc) : Prop :=
  (∀ held ∈ row.serverHlc, held < hlc) ∧ ∀ e ∈ row.colClocks.entries, e.2 < hlc

/-- The client holds older rows under what the deltas address. -/
def OlderRows (t : TableRows) (deltas : List Delta) (hlc : Hlc) : Prop :=
  ∀ d ∈ deltas, ∀ row ∈ t.lookup (.str d.rowId), OlderRow row hlc

/-- A cached result claims no row and no value that the writer's store lacks, and lacks no row that
it holds; and a later broadcast brings the store to the result. -/
structure WriterMirror (cfg : WriterConfig) (s : WriterState) : Prop where
  claims : ∀ query cached, s.caches query = some cached → ∀ rowId,
    (∀ op ∈ s.unaccepted query, op.rowId ≠ rowId) →
      ShowsRow (heldRow (s.stores query) (.str rowId)) (cached.lookup rowId)
  keys : ∀ query cached, s.caches query = some cached → ∀ key row,
    heldRow (s.stores query) key = some row → ∃ rowId, key = .str rowId
  converges : ∀ query cached, s.caches query = some cached → s.unaccepted query = [] →
    ∀ rows hlc, OlderRows (s.stores query) (broadcastDeltas cfg query cached rows hlc) hlc →
      Claims (applyDeltas (cfg.pk query) (s.stores query)
        (broadcastDeltas cfg query cached rows hlc)) (byRowId (cfg.pk query) rows)

/-! ## The condition -/

variable (cfg : WriterConfig)

/-- What the client applied to its rows of the query. -/
def appliedColumns (query : String) (op : ClientOp) : Row :=
  if query = op.table then (localPayload cfg op).getD ∅ else ∅

/-- What the server records of the op for the query. -/
def recordedColumns (query : String) (op : ClientOp) (acceptance : Acceptance) : Row :=
  if query ∈ cfg.dependents op.table then (acceptance.heldColumns cfg op).getD ∅ else ∅

/-- Each column of the cached row comes out the same by what the client applied and by what the
server records, and no name that every object inherits is recorded. -/
def AgreeOn (applied recorded cached : Row) : Prop :=
  (∀ e ∈ cached.entries, (applied.lookup e.1).getD e.2 = (recorded.lookup e.1).getD e.2) ∧
    ∀ e ∈ recorded.entries, cached.lookup e.1 = none → inherited e.1 = none

/-- The client and the server do the same to the query's row. -/
def Adjusts (query : String) (op : ClientOp) (acceptance : Acceptance) (cached : Option Row) :
    Prop :=
  match op.op, cached with
  | .insert, none => query ≠ op.table
  | _, none => True
  | .delete, some _ => query = op.table ↔ query ∈ cfg.dependents op.table
  | _, some row =>
      AgreeOn (appliedColumns cfg query op) (recordedColumns cfg query op acceptance) row

/-- An op is accepted after the earlier ops of its row, and every cached result is adjusted as the
store of its query was; a snapshot meets no op that is accepted and not acknowledged, and has
strings as keys; a broadcast leaves rows with ops under way alone and is newer than the rows it
changes. -/
def WriterSafe (s : WriterState) : WriterEvent → Prop
  | .accept i acceptance => ∀ op, s.pending[i]? = some ⟨op, false⟩ →
      (∀ p ∈ s.pending.take i, p.accepted = false → p.op.table = op.table →
        p.op.rowId ≠ op.rowId) ∧
      ∀ query cached, s.caches query = some cached →
        Adjusts cfg query op acceptance (cached.lookup op.rowId)
  | .bootstrap query rows _ =>
      StringKeyed (cfg.pk query) rows ∧ ∀ p ∈ s.pending, p.op.table = query → p.accepted = false
  | .broadcast query rows hlc => ∀ cached, s.caches query = some cached →
      (∀ d ∈ broadcastDeltas cfg query cached rows hlc, ∀ op ∈ s.unaccepted query,
        op.rowId ≠ d.rowId) ∧
      OlderRows (s.stores query) (broadcastDeltas cfg query cached rows hlc) hlc
  | _ => True

instance (applied recorded cached : Row) : Decidable (AgreeOn applied recorded cached) := by
  unfold AgreeOn
  infer_instance

/-- A base table for each cached result, which it mirrors. -/
def WriterInv (s : WriterState) : Prop :=
  ∀ query cached, s.caches query = some cached → ∃ base, Claims base cached ∧
    ∀ key, (s.stores query).lookup key =
      ((s.unaccepted query).foldl (applyOptimistic cfg) base).lookup key

variable {cfg}

/-! ## Replayed ops, key by key -/

theorem optimisticEntry_none {op : ClientOp} {existing : Option LocalRow}
    (h : optimisticEntry cfg op existing = none) : existing = none := by
  unfold optimisticEntry at h
  split at h
  · cases h
  · cases h
  · cases h
  · exact h

theorem lookup_applyOptimistic (t : TableRows) (op : ClientOp) (key : Json) :
    (applyOptimistic cfg t op).lookup key =
      if key = .str op.rowId then optimisticEntry cfg op (t.lookup key) else t.lookup key := by
  unfold applyOptimistic
  split
  · rename_i row hrow
    split
    · rename_i hkey
      subst hkey
      rw [AList.lookup_insert, hrow]
    · rename_i hkey
      exact AList.lookup_insert_ne hkey
  · rename_i hnone
    split
    · rename_i hkey
      subst hkey
      rw [hnone, optimisticEntry_none hnone]
    · rfl

/-- The ops that address a key. -/
def opsAt (key : Json) (ops : List ClientOp) : List ClientOp :=
  ops.filter fun op => key = .str op.rowId

theorem lookup_replayOps (ops : List ClientOp) (t : TableRows) (key : Json) :
    (ops.foldl (applyOptimistic cfg) t).lookup key =
      (opsAt key ops).foldl (fun entry op => optimisticEntry cfg op entry) (t.lookup key) := by
  induction ops generalizing t with
  | nil => rfl
  | cons op ops ih =>
      rw [List.foldl_cons, ih, lookup_applyOptimistic]
      by_cases hkey : key = .str op.rowId
      · simp [opsAt, hkey]
      · simp [opsAt, hkey]

theorem opsAt_append (key : Json) (ops ops' : List ClientOp) :
    opsAt key (ops ++ ops') = opsAt key ops ++ opsAt key ops' :=
  List.filter_append ..

theorem opsAt_singleton (key : Json) (op : ClientOp) :
    opsAt key [op] = if key = .str op.rowId then [op] else [] := by
  by_cases hkey : key = .str op.rowId <;> simp [opsAt, hkey]

theorem opsAt_eq_nil {key : Json} {ops : List ClientOp}
    (h : ∀ op ∈ ops, key ≠ .str op.rowId) : opsAt key ops = [] :=
  List.filter_eq_nil_iff.2 fun op hop => by simpa using h op hop

/-- A key that no op addresses. -/
theorem lookup_replayOps_of_ne {ops : List ClientOp} {t : TableRows} {key : Json}
    (h : ∀ op ∈ ops, key ≠ .str op.rowId) :
    (ops.foldl (applyOptimistic cfg) t).lookup key = t.lookup key := by
  rw [lookup_replayOps, opsAt_eq_nil h]
  rfl

/-! ## Adjusted rows -/

theorem lookup_patchColumns (cached columns : Row) (c : String) :
    (patchColumns cached columns).lookup c =
      if c ≠ "__proto__" ∧ hasKey cached c = true then (columns.lookup c).or (cached.lookup c)
      else cached.lookup c := by
  have hfilter : (Lib.writes (columns.entries.filter fun e => hasKey cached e.1)).filter
      (·.1 ≠ "__proto__") =
      Lib.writes (columns.entries.filter fun e => hasKey cached e.1 && e.1 ≠ "__proto__") := by
    rw [Lib.writes, Lib.writes, List.filter_map, List.filter_filter]
    simp [Bool.and_comm]
  rw [patchColumns, assignAll, hfilter, Lib.lookup_replay, Lib.lastWrite_filter]
  by_cases hproto : c = "__proto__"
  · simp [hproto]
  · by_cases hkey : hasKey cached c = true
    · cases hcol : columns.lookup c <;> simp [hproto, hkey, Option.filter]
    · simp [hproto, hkey]

theorem lookup_patchRow (cached : CachedRows) (rowId : String) (columns : Row) (rowId' : String) :
    (patchRow cached rowId columns).lookup rowId' =
      if rowId' = rowId then (cached.lookup rowId).map fun row => patchColumns row columns
      else cached.lookup rowId' := by
  unfold patchRow
  split
  · rename_i hnone
    split
    · rename_i heq
      rw [heq, hnone]
      rfl
    · rfl
  · rename_i row hrow
    split
    · rename_i heq
      rw [heq, AList.lookup_insert, hrow]
      rfl
    · rename_i hne
      exact AList.lookup_insert_ne hne

theorem lookup_evictRow (cached : CachedRows) (rowId rowId' : String) :
    (evictRow cached rowId).lookup rowId' =
      if rowId' = rowId then none else cached.lookup rowId' := by
  unfold evictRow
  split
  · rename_i heq
    rw [heq, AList.lookup_erase]
  · rename_i hne
    exact AList.lookup_erase_ne hne

/-- The assignments that make the record add no `__proto__`. -/
theorem lookup_proto_writerHeldColumns {row : Option Row} {colClocks : Record Hlc} {opHlc : Hlc}
    {serverSet : List String} {sent : Option (Option Row)} {held : Row}
    (h : writerHeldColumns row colClocks opHlc serverSet sent = some held) :
    held.lookup "__proto__" = none := by
  unfold writerHeldColumns at h
  split at h
  · cases h
  · dsimp only at h
    split at h
    · cases h
    · cases h
      rw [assignAll, Lib.lookup_replay_empty, Lib.lastWrite_eq_none]
      intro w hw
      simpa using (List.mem_filter.1 hw).2

theorem lookup_proto_recordedColumns (query : String) (op : ClientOp) (acceptance : Acceptance) :
    (recordedColumns cfg query op acceptance).lookup "__proto__" = none := by
  unfold recordedColumns
  split
  · cases hheld : acceptance.heldColumns cfg op with
    | none => rfl
    | some held =>
        cases acceptance with
        | consistent row clocks => exact lookup_proto_writerHeldColumns hheld
        | eager row clocks hlc => exact lookup_proto_writerHeldColumns hheld
  · rfl

theorem adjustCaches_delete (caches : WriterCaches) {op : ClientOp} (acceptance : Acceptance)
    (hop : op.op = .delete) :
    adjustCaches cfg caches op acceptance = forgetWriterRow cfg caches op.table op.rowId := by
  simp [adjustCaches, hop]

theorem adjustCaches_some (caches : WriterCaches) {op : ClientOp} {acceptance : Acceptance}
    {held : Row} (hop : op.op ≠ .delete) (hheld : acceptance.heldColumns cfg op = some held) :
    adjustCaches cfg caches op acceptance =
      recordWriterColumns cfg caches op.table op.rowId held := by
  cases h : op.op with
  | delete => exact absurd h hop
  | insert => simp [adjustCaches, h, hheld]
  | update => simp [adjustCaches, h, hheld]

theorem adjustCaches_none (caches : WriterCaches) {op : ClientOp} {acceptance : Acceptance}
    (hop : op.op ≠ .delete) (hheld : acceptance.heldColumns cfg op = none) :
    adjustCaches cfg caches op acceptance = caches := by
  cases h : op.op with
  | delete => exact absurd h hop
  | insert => simp [adjustCaches, h, hheld]
  | update => simp [adjustCaches, h, hheld]

/-- What an acceptance leaves of the op's row in a cached result. -/
def adjustedRow (cfg : WriterConfig) (query : String) (op : ClientOp) (acceptance : Acceptance)
    (row : Option Row) : Option Row :=
  if op.op = .delete then if query ∈ cfg.dependents op.table then none else row
  else row.map fun row => patchColumns row (recordedColumns cfg query op acceptance)

/-- A record of no columns patches nothing. -/
theorem map_patchColumns_empty (row : Option Row) :
    (row.map fun row => patchColumns row ∅) = row := by
  cases row <;> rfl

/-- An acceptance adjusts the op's row and no other. -/
theorem lookup_adjustCaches {caches : WriterCaches} {query : String} {op : ClientOp}
    {acceptance : Acceptance} {cached' : CachedRows}
    (h : adjustCaches cfg caches op acceptance query = some cached') :
    ∃ cached, caches query = some cached ∧ ∀ rowId, cached'.lookup rowId =
      if rowId = op.rowId then adjustedRow cfg query op acceptance (cached.lookup rowId)
      else cached.lookup rowId := by
  by_cases hop : op.op = .delete
  · rw [adjustCaches_delete caches acceptance hop, forgetWriterRow] at h
    by_cases hdep : query ∈ cfg.dependents op.table
    · rw [if_pos hdep] at h
      rcases Option.map_eq_some_iff.1 h with ⟨cached, hcached, rfl⟩
      refine ⟨cached, hcached, fun rowId => ?_⟩
      rw [lookup_evictRow]
      simp [adjustedRow, hop, hdep]
    · rw [if_neg hdep] at h
      exact ⟨cached', h, fun rowId => by simp [adjustedRow, hop, hdep]⟩
  · cases hheld : acceptance.heldColumns cfg op with
    | none =>
        rw [adjustCaches_none caches hop hheld] at h
        have hrecorded : recordedColumns cfg query op acceptance = ∅ := by
          simp [recordedColumns, hheld]
        refine ⟨cached', h, fun rowId => ?_⟩
        rw [adjustedRow, if_neg hop, hrecorded, map_patchColumns_empty, ite_self]
    | some held =>
        rw [adjustCaches_some caches hop hheld, recordWriterColumns] at h
        by_cases hdep : query ∈ cfg.dependents op.table
        · have hrecorded : recordedColumns cfg query op acceptance = held := by
            simp [recordedColumns, hdep, hheld]
          rw [if_pos hdep] at h
          rcases Option.map_eq_some_iff.1 h with ⟨cached, hcached, rfl⟩
          refine ⟨cached, hcached, fun rowId => ?_⟩
          rw [lookup_patchRow, adjustedRow, if_neg hop, hrecorded]
          split
          · rename_i hid
            rw [hid]
          · rfl
        · have hrecorded : recordedColumns cfg query op acceptance = ∅ := by
            simp [recordedColumns, hdep]
          rw [if_neg hdep] at h
          refine ⟨cached', h, fun rowId => ?_⟩
          rw [adjustedRow, if_neg hop, hrecorded, map_patchColumns_empty, ite_self]

/-! ## Acceptance -/

theorem column_union (applied data : Row) (c : String) :
    column (applied ∪ data) c = (applied.lookup c).getD (column data c) := by
  cases happlied : applied.lookup c with
  | none => simp [column, AList.lookup_union_right (AList.lookup_eq_none.1 happlied)]
  | some v =>
      have hmem : c ∈ applied := AList.lookup_isSome.1 (by simp [happlied])
      simp [column, AList.lookup_union_left hmem, happlied]

/-- Where the columns agree, the patched row is the client's row after its own write. -/
theorem AgreeOn.patched {applied recorded cached data data' : Row}
    (h : AgreeOn applied recorded cached) (hproto : recorded.lookup "__proto__" = none)
    (hdata : ∀ c v, cached.lookup c = some v → column data c = v)
    (hdata' : ∀ c, column data' c = (applied.lookup c).getD (column data c)) (c : String) (v : Json)
    (hv : (patchColumns cached recorded).lookup c = some v) : column data' c = v := by
  -- What the client has in a column that the cached row has.
  have hheld : ∀ w, cached.lookup c = some w → column data' c = (recorded.lookup c).getD w := by
    intro w hw
    have hagree := h.1 ⟨c, w⟩ (Lib.mem_entries_iff.2 hw)
    rw [hdata' c, hdata c w hw]
    exact hagree
  rw [lookup_patchColumns] at hv
  split at hv
  · rename_i hkey
    cases hcached : cached.lookup c with
    | some w =>
        rw [hheld w hcached]
        cases hrecorded : recorded.lookup c with
        | none => simpa [hrecorded, hcached] using hv
        | some u => simpa [hrecorded] using hv
    | none =>
        have hrecorded : recorded.lookup c = some v := by simpa [hcached] using hv
        have hinherited := h.2 ⟨c, v⟩ (Lib.mem_entries_iff.2 hrecorded) hcached
        simp [hasKey, hcached, hinherited] at hkey
  · rename_i hkey
    have hname : c = "__proto__" := by
      by_contra hne
      exact hkey ⟨hne, by simp [hasKey, hv]⟩
    rw [hheld v hv, hname, hproto]
    rfl

/-- The row that `applyOptimistic` leaves. -/
theorem heldRow_applyOptimistic (t : TableRows) (op : ClientOp) :
    heldRow (applyOptimistic cfg t op) (.str op.rowId) =
      match op.op, heldRow t (.str op.rowId) with
      | .delete, _ => none
      | _, some data => some ((localPayload cfg op).getD ∅ ∪ data)
      | .insert, none => some ((localPayload cfg op).getD ∅)
      | .update, none => none := by
  have hlookup := @lookup_applyOptimistic cfg t op (.str op.rowId)
  rw [if_pos rfl] at hlookup
  rw [heldRow, heldRow, hlookup]
  cases hrow : t.lookup (.str op.rowId) with
  | none => cases hop : op.op <;> simp [optimisticEntry, hop]
  | some row =>
      rcases row with ⟨data, colClocks, serverHlc⟩
      cases data <;> cases hop : op.op <;> simp [optimisticEntry, hop]

theorem heldRow_applyOptimistic_ne {t : TableRows} {op : ClientOp} {key : Json}
    (h : key ≠ .str op.rowId) : heldRow (applyOptimistic cfg t op) key = heldRow t key := by
  rw [heldRow, heldRow, lookup_applyOptimistic, if_neg h]

/-- The base of the query takes the accepted op in, if the op names the query. -/
def baseAfter (cfg : WriterConfig) (query : String) (op : ClientOp) (base : TableRows) :
    TableRows :=
  if query = op.table then applyOptimistic cfg base op else base

/-- The client's row after its own write, and the cached row after the record of it. -/
theorem showsRow_write {query : String} {op : ClientOp} {acceptance : Acceptance} {base : TableRows}
    {r : Row} (hop : op.op ≠ .delete)
    (hshows : ShowsRow (heldRow base (.str op.rowId)) (some r))
    (hagree : AgreeOn (appliedColumns cfg query op) (recordedColumns cfg query op acceptance) r) :
    ShowsRow (heldRow (baseAfter cfg query op base) (.str op.rowId))
      (some (patchColumns r (recordedColumns cfg query op acceptance))) := by
  rcases hshows with ⟨data, hheld, hdata⟩
  have hproto := @lookup_proto_recordedColumns cfg query op acceptance
  by_cases hquery : query = op.table
  · have hrow : heldRow (baseAfter cfg query op base) (.str op.rowId) =
        some (appliedColumns cfg query op ∪ data) := by
      rw [baseAfter, if_pos hquery, heldRow_applyOptimistic, hheld, appliedColumns, if_pos hquery]
      cases h : op.op with
      | delete => exact absurd h hop
      | insert => rfl
      | update => rfl
    exact ⟨_, hrow, hagree.patched hproto hdata fun c => column_union _ _ c⟩
  · have hrow : heldRow (baseAfter cfg query op base) (.str op.rowId) = some data := by
      rw [baseAfter, if_neg hquery, hheld]
    refine ⟨data, hrow, hagree.patched hproto hdata fun c => ?_⟩
    -- Nothing of the op is applied to the rows of another query.
    rw [appliedColumns, if_neg hquery]
    rfl

theorem showsRow_accept {query : String} {op : ClientOp} {acceptance : Acceptance}
    {base : TableRows} {row : Option Row} (hshows : ShowsRow (heldRow base (.str op.rowId)) row)
    (hadjusts : Adjusts cfg query op acceptance row) :
    ShowsRow (heldRow (baseAfter cfg query op base) (.str op.rowId))
      (adjustedRow cfg query op acceptance row) := by
  by_cases hop : op.op = .delete
  · rw [adjustedRow, if_pos hop]
    have hdeleted : query = op.table →
        heldRow (baseAfter cfg query op base) (.str op.rowId) = none := by
      intro hquery
      rw [baseAfter, if_pos hquery, heldRow_applyOptimistic, hop]
    cases row with
    | none =>
        rw [ite_self]
        by_cases hquery : query = op.table
        · exact hdeleted hquery
        · rw [baseAfter, if_neg hquery]
          exact hshows
    | some r =>
        have hiff : query = op.table ↔ query ∈ cfg.dependents op.table := by
          simpa [Adjusts, hop] using hadjusts
        by_cases hquery : query = op.table
        · rw [if_pos (hiff.1 hquery)]
          exact hdeleted hquery
        · rw [if_neg fun hdep => hquery (hiff.2 hdep), baseAfter, if_neg hquery]
          exact hshows
  · rw [adjustedRow, if_neg hop]
    cases row with
    | some r =>
        refine showsRow_write hop hshows ?_
        cases h : op.op with
        | delete => exact absurd h hop
        | insert => simpa [Adjusts, h] using hadjusts
        | update => simpa [Adjusts, h] using hadjusts
    | none =>
        have hnone : heldRow base (.str op.rowId) = none := hshows
        by_cases hquery : query = op.table
        · cases h : op.op with
          | delete => exact absurd h hop
          | insert => exact absurd hquery (by simpa [Adjusts, h] using hadjusts)
          | update =>
              -- An update of a row that the client does not hold is dropped there, too.
              change heldRow (baseAfter cfg query op base) (.str op.rowId) = none
              rw [baseAfter, if_pos hquery, heldRow_applyOptimistic, hnone, h]
        · rw [baseAfter, if_neg hquery]
          exact hshows

theorem heldRow_baseAfter_ne {query : String} {op : ClientOp} {base : TableRows} {key : Json}
    (h : key ≠ .str op.rowId) : heldRow (baseAfter cfg query op base) key = heldRow base key := by
  unfold baseAfter
  split
  · exact heldRow_applyOptimistic_ne h
  · rfl

theorem Claims.accept {query : String} {op : ClientOp} {acceptance : Acceptance} {base : TableRows}
    {cached cached' : CachedRows} (h : Claims base cached)
    (hadjusts : Adjusts cfg query op acceptance (cached.lookup op.rowId))
    (hcached' : ∀ rowId, cached'.lookup rowId =
      if rowId = op.rowId then adjustedRow cfg query op acceptance (cached.lookup rowId)
      else cached.lookup rowId) :
    Claims (baseAfter cfg query op base) cached' := by
  constructor
  · intro key row hrow
    by_cases hkey : key = .str op.rowId
    · exact ⟨op.rowId, hkey⟩
    · rw [heldRow_baseAfter_ne hkey] at hrow
      exact h.keys key row hrow
  · intro rowId
    rw [hcached' rowId]
    split
    · rename_i hid
      subst hid
      exact showsRow_accept (h.rows op.rowId) hadjusts
    · rename_i hid
      rw [heldRow_baseAfter_ne (by simpa using hid)]
      exact h.rows rowId

/-! ## Deltas and snapshots -/

theorem taken_of_olderRow {t : TableRows} {hlc : Hlc} {oldRows newRows : CachedRows} {d : Delta}
    (hd : d ∈ (diff oldRows newRows).deltas hlc)
    (holder : ∀ row ∈ t.lookup (.str d.rowId), OlderRow row hlc) : Taken t d := by
  rcases hlc_of_mem_deltas hd with ⟨hhlc, hcols⟩
  have hstale : isStale (t.lookup (.str d.rowId)) d.hlc = false := by
    cases hrow : t.lookup (.str d.rowId) with
    | none => rfl
    | some row =>
        cases hserver : row.serverHlc with
        | none => simp [isStale, hserver]
        | some held =>
            have hlt : held < hlc := (holder row hrow).1 held hserver
            simp [isStale, hserver, hhlc, hlt]
  unfold Taken
  split
  · rename_i row _ hrow
    intro c _ held hheld
    have hlt : held < hlc := (holder row hrow).2 ⟨c, held⟩ (Lib.mem_entries_iff.2 hheld)
    cases hclock : (d.colClocks.getD ∅).lookup c with
    | none => simpa [hhlc] using hlt
    | some clock =>
        have heq : clock = hlc := hcols c clock hclock
        simpa [heq] using hlt
  · exact hstale

/-- What the client has of a column on which cache and result agree. -/
theorem heldColumn_of_shows {pk : String} {t : TableRows} {rowId c : String} {v : Json}
    {cachedRow row : Row} (hheld : heldRow t (.str rowId) = some row)
    (hshows : ∀ c v, cachedRow.lookup c = some v → column row c = v)
    (hc : cachedRow.lookup c = some v) (hpk : c = pk → v ≠ .null) :
    heldColumn pk t rowId c = v := by
  have hcol : column row c = v := hshows c v hc
  rw [heldColumn, hheld, Option.getD_some, column, lookup_withPk]
  split
  · rename_i heq
    subst heq
    cases hlookup : row.lookup c with
    | none => exact absurd (hcol.symm.trans (by simp [column, hlookup])) (hpk rfl)
    | some w => simpa [column, hlookup] using hcol
  · simpa [column] using hcol

/-- The diff takes what a cached result claims to the next result. -/
theorem Claims.applyDeltas {pk : String} {t : TableRows} {hlc : Hlc} {oldRows newRows : CachedRows}
    (h : Claims t oldRows) (hnew : RowsById pk newRows)
    (htaken : ∀ d ∈ (diff oldRows newRows).deltas hlc, Taken t d) :
    Claims (applyDeltas pk t ((diff oldRows newRows).deltas hlc)) newRows := by
  have hnodup := nodup_deltas hlc oldRows newRows
  constructor
  · intro key row hrow
    by_cases hmem : ∃ d ∈ (diff oldRows newRows).deltas hlc, key = .str d.rowId
    · rcases hmem with ⟨d, _, hkey⟩
      exact ⟨d.rowId, hkey⟩
    · have hlookup : (Client.applyDeltas pk t ((diff oldRows newRows).deltas hlc)).lookup key =
          t.lookup key := lookup_applyDeltas_of_not_mem fun d hd heq => hmem ⟨d, hd, heq⟩
      rw [heldRow, hlookup] at hrow
      exact h.keys key row hrow
  · intro rowId
    have hold := h.rows rowId
    by_cases hmem : ∃ d ∈ (diff oldRows newRows).deltas hlc, d.rowId = rowId
    · rcases hmem with ⟨d, hd, rfl⟩
      rcases heldRow_applyDeltas hnew (fun _ hd => hd) hnodup htaken hd with
        ⟨hnone, hheld⟩ | ⟨r, data, hr, hheld, hdata⟩
      · rw [hnone, hheld]
        rfl
      · rw [hr, hheld]
        refine ⟨data, rfl, fun c v hv => ?_⟩
        have hcol : column r c = v := by rw [column, hv]; rfl
        rw [hdata c]
        have hrow := mem_deltas.1 hd
        rw [hr] at hrow
        cases hcached : oldRows.lookup d.rowId with
        | none =>
            have hins : insertDelta hlc d.rowId r = d := by simpa [rowDelta, hcached] using hrow
            rw [← hins, takenColumn_insert (hnew d.rowId r hr), hcol]
        | some cachedRow =>
            rw [hcached] at hold hrow
            rcases hold with ⟨row, hheld', hshows⟩
            have hupd : Server.updateDelta hlc d.rowId (fieldDiff cachedRow r) = d := by
              by_cases hnil : (fieldDiff cachedRow r).entries = []
              · simp [rowDelta, hnil] at hrow
              · simpa [rowDelta, hnil] using hrow
            rw [← hupd, takenColumn_update]
            split
            · rename_i hagree
              refine heldColumn_of_shows hheld' hshows (hagree.trans hv) fun heq hnull => ?_
              -- The row of a result has its primary key.
              have hid := hnew d.rowId r hr
              rw [rowIdOf, ← heq, hcol, hnull] at hid
              exact hid.2 hid.1.symm
            · exact hcol
    · have hlookup : (Client.applyDeltas pk t ((diff oldRows newRows).deltas hlc)).lookup
          (.str rowId) = t.lookup (.str rowId) := by
        refine lookup_applyDeltas_of_not_mem fun d hd heq => hmem ⟨d, hd, ?_⟩
        simpa using heq.symm
      rw [heldRow, hlookup, ← heldRow]
      have hquiet : rowDelta hlc rowId (oldRows.lookup rowId) (newRows.lookup rowId) = none := by
        cases hdelta : rowDelta hlc rowId (oldRows.lookup rowId) (newRows.lookup rowId) with
        | none => rfl
        | some d =>
            have hid := rowId_of_rowDelta hdelta
            exact absurd ⟨d, mem_deltas.2 (by rw [hid]; exact hdelta), hid⟩ hmem
      cases hcached : oldRows.lookup rowId with
      | none =>
          cases hr : newRows.lookup rowId with
          | none => simpa [hcached] using hold
          | some r => simp [rowDelta, hcached, hr] at hquiet
      | some cachedRow =>
          cases hr : newRows.lookup rowId with
          | none => simp [rowDelta, hcached, hr] at hquiet
          | some r =>
              have hsame : ∀ c, cachedRow.lookup c = r.lookup c := by
                by_contra hne
                have hdiff : (fieldDiff cachedRow r).entries ≠ [] :=
                  fun hnil => hne (fieldDiff_eq_nil_iff.1 hnil)
                simp [rowDelta, hcached, hr, hdiff] at hquiet
              rw [hcached] at hold
              rcases hold with ⟨row, hheld, hshows⟩
              exact ⟨row, hheld, fun c v hv => hshows c v ((hsame c).trans hv)⟩

theorem claims_applySnapshot {pk : String} {rows : List Row} (h : StringKeyed pk rows) (hlc : Hlc) :
    Claims (applySnapshot ∅ (snapshotMessage pk rows hlc false)) (byRowId pk rows) := by
  rcases heldRow_applySnapshot (t := ∅) h hlc false with ⟨hstr, hother⟩
  constructor
  · intro key row hrow
    by_contra hkey
    rw [hother key fun rowId heq => hkey ⟨rowId, heq⟩] at hrow
    cases hrow
  · intro rowId
    rw [hstr rowId]
    cases hr : (byRowId pk rows).lookup rowId with
    | none => rfl
    | some r => exact ⟨r, rfl, fun c v hv => by rw [column, hv]; rfl⟩

/-! ## The invariant -/

variable {s s' : WriterState}

theorem unacceptedOps_append (before after : List WriterOp) (query : String) :
    unacceptedOps (before ++ after) query =
      unacceptedOps before query ++ unacceptedOps after query := by
  simp [unacceptedOps]

theorem unacceptedOps_split (before after : List WriterOp) (p : WriterOp) (query : String) :
    unacceptedOps (before ++ p :: after) query =
      unacceptedOps before query ++
        ((if p.accepted = false ∧ p.op.table = query then [p.op] else []) ++
          unacceptedOps after query) := by
  cases haccepted : p.accepted with
  | true => simp [unacceptedOps, haccepted]
  | false =>
      by_cases htable : p.op.table = query
      · simp [unacceptedOps, haccepted, htable]
      · simp [unacceptedOps, haccepted, htable]

theorem mem_unacceptedOps {pending : List WriterOp} {query : String} {op : ClientOp} :
    op ∈ unacceptedOps pending query ↔
      ∃ p ∈ pending, p.accepted = false ∧ p.op.table = query ∧ p.op = op := by
  constructor
  · intro h
    rcases List.mem_filter.1 h with ⟨hmem, htable⟩
    rcases List.mem_map.1 hmem with ⟨p, hp, rfl⟩
    rcases List.mem_filter.1 hp with ⟨hp, haccepted⟩
    exact ⟨p, hp, by simpa using haccepted, by simpa using htable, rfl⟩
  · rintro ⟨p, hp, haccepted, htable, rfl⟩
    refine List.mem_filter.2 ⟨List.mem_map.2 ⟨p, List.mem_filter.2 ⟨hp, ?_⟩, rfl⟩, ?_⟩
    · simpa using haccepted
    · simpa using htable

theorem pendingOps_of_unaccepted {pending : List WriterOp} {query : String}
    (h : ∀ p ∈ pending, p.op.table = query → p.accepted = false) :
    (pending.map (·.op)).filter (·.table = query) = unacceptedOps pending query := by
  induction pending with
  | nil => rfl
  | cons p pending ih =>
      have hrest := ih fun p' hp' => h p' (List.mem_cons_of_mem _ hp')
      have hsplit := unacceptedOps_split [] pending p query
      by_cases htable : p.op.table = query
      · have haccepted : p.accepted = false := h p (by simp) htable
        rw [List.nil_append, if_pos ⟨haccepted, htable⟩] at hsplit
        rw [hsplit, ← hrest, List.map_cons, List.filter_cons_of_pos (by simpa using htable)]
        rfl
      · rw [List.nil_append, if_neg fun hp => htable hp.2] at hsplit
        rw [hsplit, ← hrest, List.map_cons, List.filter_cons_of_neg (by simpa using htable)]
        rfl

theorem split_at {α : Type} {l : List α} {i : Nat} {x : α} (h : l[i]? = some x) :
    l = l.take i ++ x :: l.drop (i + 1) := by
  rcases List.getElem?_eq_some_iff.1 h with ⟨hlt, rfl⟩
  simp

theorem WriterInv.create (h : WriterInv cfg s) {op : ClientOp}
    (hs : writerStep cfg s (.create op) = some s') : WriterInv cfg s' := by
  cases hs
  intro query cached hcached
  rcases h query cached hcached with ⟨base, hclaims, hstore⟩
  refine ⟨base, hclaims, fun key => ?_⟩
  have hpending : unacceptedOps (s.pending ++ [⟨op, false⟩]) query =
      s.unaccepted query ++ if op.table = query then [op] else [] := by
    simpa [unacceptedOps] using unacceptedOps_split s.pending [] ⟨op, false⟩ query
  change (Function.update s.stores op.table (applyOptimistic cfg (s.stores op.table) op)
    query).lookup key = ((unacceptedOps (s.pending ++ [⟨op, false⟩]) query).foldl
      (applyOptimistic cfg) base).lookup key
  rw [hpending]
  by_cases hquery : query = op.table
  · subst hquery
    rw [Function.update_self, if_pos rfl, List.foldl_append, List.foldl_cons, List.foldl_nil,
      lookup_applyOptimistic, lookup_applyOptimistic, hstore key]
  · rw [Function.update_of_ne hquery, if_neg (Ne.symm hquery), List.append_nil, hstore key]

/-- The op comes first among those of its row, so the base can take it before the others. -/
theorem WriterInv.accept (h : WriterInv cfg s) {i : Nat} {acceptance : Acceptance}
    (hg : WriterSafe cfg s (.accept i acceptance))
    (hs : writerStep cfg s (.accept i acceptance) = some s') : WriterInv cfg s' := by
  simp only [writerStep] at hs
  split at hs
  · rename_i op hop
    cases hs
    rcases hg op hop with ⟨hfirst, hadjusts⟩
    intro query cached' hcached'
    rcases lookup_adjustCaches hcached' with ⟨cached, hcached, hrows⟩
    rcases h query cached hcached with ⟨base, hclaims, hstore⟩
    refine ⟨baseAfter cfg query op base,
      hclaims.accept (hadjusts query cached hcached) hrows, fun key => ?_⟩
    have hbefore : s.unaccepted query = unacceptedOps (s.pending.take i) query ++
        ((if op.table = query then [op] else []) ++
          unacceptedOps (s.pending.drop (i + 1)) query) := by
      have hsplit := unacceptedOps_split (s.pending.take i) (s.pending.drop (i + 1)) ⟨op, false⟩
        query
      rw [← split_at hop] at hsplit
      simpa using hsplit
    have hafter : unacceptedOps (s.pending.set i ⟨op, true⟩) query =
        unacceptedOps (s.pending.take i) query ++ unacceptedOps (s.pending.drop (i + 1)) query := by
      have hlt : i < s.pending.length := (List.getElem?_eq_some_iff.1 hop).1
      rw [List.set_eq_take_append_cons_drop, if_pos hlt, unacceptedOps_split]
      simp
    change (s.stores query).lookup key = (List.foldl (applyOptimistic cfg) (baseAfter cfg query op
      base) (unacceptedOps (s.pending.set i ⟨op, true⟩) query)).lookup key
    rw [hstore key, hbefore, hafter, lookup_replayOps, lookup_replayOps, baseAfter]
    by_cases hquery : query = op.table
    · subst hquery
      rw [if_pos rfl, if_pos rfl, lookup_applyOptimistic]
      by_cases hkey : key = .str op.rowId
      · -- The earlier ops of the table are of other rows.
        have hothers : opsAt key (unacceptedOps (s.pending.take i) op.table) = [] := by
          refine opsAt_eq_nil fun other hother => ?_
          rcases mem_unacceptedOps.1 hother with ⟨p, hp, haccepted, htable, rfl⟩
          rw [hkey]
          simpa using (hfirst p hp haccepted htable).symm
        rw [opsAt_append, opsAt_append, opsAt_append, hothers, opsAt_singleton, if_pos hkey,
          if_pos hkey]
        rfl
      · rw [opsAt_append, opsAt_append, opsAt_append, opsAt_singleton, if_neg hkey, if_neg hkey]
        rfl
    · rw [if_neg hquery, if_neg (Ne.symm hquery), List.nil_append]
  · cases hs

theorem WriterInv.ack (h : WriterInv cfg s) {i : Nat}
    (hs : writerStep cfg s (.ack i) = some s') : WriterInv cfg s' := by
  simp only [writerStep] at hs
  split at hs
  · rename_i op hop
    cases hs
    intro query cached hcached
    rcases h query cached hcached with ⟨base, hclaims, hstore⟩
    refine ⟨base, hclaims, fun key => ?_⟩
    have hsame : unacceptedOps (s.pending.eraseIdx i) query = s.unaccepted query := by
      have hsplit := unacceptedOps_split (s.pending.take i) (s.pending.drop (i + 1)) ⟨op, true⟩
        query
      rw [← split_at hop] at hsplit
      rw [List.eraseIdx_eq_take_drop_succ, unacceptedOps_append]
      simpa using hsplit.symm
    change (s.stores query).lookup key =
      ((unacceptedOps (s.pending.eraseIdx i) query).foldl (applyOptimistic cfg) base).lookup key
    rw [hsame, hstore key]
  · cases hs

theorem WriterInv.bootstrap (h : WriterInv cfg s) {query : String} {rows : List Row} {hlc : Hlc}
    (hg : WriterSafe cfg s (.bootstrap query rows hlc))
    (hs : writerStep cfg s (.bootstrap query rows hlc) = some s') : WriterInv cfg s' := by
  cases hs
  intro query' cached hcached
  by_cases hquery : query' = query
  · subst hquery
    have hrows : cached = byRowId (cfg.pk query') rows := by
      simpa [Function.update_self] using hcached.symm
    subst hrows
    refine ⟨_, claims_applySnapshot hg.1 hlc, fun key => ?_⟩
    -- The snapshot replays the ops that the server has not accepted, and no others.
    have hpending : s.pendingOps query' = s.unaccepted query' := pendingOps_of_unaccepted hg.2
    change (Function.update s.stores query' _ query').lookup key = _
    rw [Function.update_self, hpending]
  · have hold : s.caches query' = some cached := by
      simpa [Function.update_of_ne hquery] using hcached
    rcases h query' cached hold with ⟨base, hclaims, hstore⟩
    refine ⟨base, hclaims, fun key => ?_⟩
    change (Function.update s.stores query _ query').lookup key = _
    rw [Function.update_of_ne hquery]
    exact hstore key

/-- A delta does the same to the store and to its base where they have the same row. -/
theorem lookup_applyDeltas_congr {pk : String} {t t' : TableRows} {deltas : List Delta}
    (hnodup : (deltas.map (·.rowId)).Nodup) {key : Json} (h : t.lookup key = t'.lookup key) :
    (applyDeltas pk t deltas).lookup key = (applyDeltas pk t' deltas).lookup key := by
  by_cases hmem : ∃ d ∈ deltas, key = .str d.rowId
  · rcases hmem with ⟨d, hd, rfl⟩
    rw [lookup_applyDeltas_of_mem hnodup hd, lookup_applyDeltas_of_mem hnodup hd, applyDelta,
      applyDelta, h]
    split
    · rw [AList.lookup_insert, AList.lookup_insert]
    · exact h
  · have hne : ∀ d ∈ deltas, key ≠ .str d.rowId := fun d hd heq => hmem ⟨d, hd, heq⟩
    rw [lookup_applyDeltas_of_not_mem hne, lookup_applyDeltas_of_not_mem hne, h]

theorem WriterInv.broadcast (h : WriterInv cfg s) {query : String} {rows : List Row} {hlc : Hlc}
    (hg : WriterSafe cfg s (.broadcast query rows hlc))
    (hs : writerStep cfg s (.broadcast query rows hlc) = some s') : WriterInv cfg s' := by
  simp only [writerStep] at hs
  split at hs
  · rename_i old hold
    cases hs
    intro query' cached hcached
    by_cases hquery : query' = query
    · subst hquery
      have hrows : cached = byRowId (cfg.pk query') rows := by
        simpa [Function.update_self] using hcached.symm
      subst hrows
      rcases hg old hold with ⟨hquiet, holder⟩
      rcases h query' old hold with ⟨base, hclaims, hstore⟩
      have hnodup := nodup_deltas hlc old (byRowId (cfg.pk query') rows)
      -- No op under way addresses a row that the deltas address.
      have hbase : ∀ d ∈ broadcastDeltas cfg query' old rows hlc,
          (s.stores query').lookup (.str d.rowId) = base.lookup (.str d.rowId) := by
        intro d hd
        rw [hstore, lookup_replayOps_of_ne]
        intro op hop heq
        exact hquiet d hd op hop (by simpa using heq.symm)
      have htaken : ∀ d ∈ broadcastDeltas cfg query' old rows hlc, Taken base d := by
        intro d hd
        refine taken_of_olderRow hd fun row hrow => ?_
        exact holder d hd row (by rw [hbase d hd]; exact hrow)
      refine ⟨_, hclaims.applyDeltas (rowsById_byRowId _ rows) htaken, fun key => ?_⟩
      change (Function.update s.stores query' _ query').lookup key =
        ((s.unaccepted query').foldl (applyOptimistic cfg) (Client.applyDeltas (cfg.pk query') base
          (broadcastDeltas cfg query' old rows hlc))).lookup key
      rw [Function.update_self, lookup_replayOps]
      by_cases hmem : ∃ d ∈ broadcastDeltas cfg query' old rows hlc, key = .str d.rowId
      · rcases hmem with ⟨d, hd, rfl⟩
        have hnone : opsAt (.str d.rowId) (s.unaccepted query') = [] := by
          refine opsAt_eq_nil fun op hop heq => ?_
          exact hquiet d hd op hop (by simpa using heq.symm)
        rw [hnone]
        exact lookup_applyDeltas_congr hnodup (hbase d hd)
      · have hne : ∀ d ∈ broadcastDeltas cfg query' old rows hlc, key ≠ .str d.rowId :=
          fun d hd heq => hmem ⟨d, hd, heq⟩
        rw [lookup_applyDeltas_of_not_mem hne, lookup_applyDeltas_of_not_mem hne, hstore key,
          lookup_replayOps]
    · have hold' : s.caches query' = some cached := by
        simpa [Function.update_of_ne hquery] using hcached
      rcases h query' cached hold' with ⟨base, hclaims, hstore⟩
      refine ⟨base, hclaims, fun key => ?_⟩
      change (Function.update s.stores query _ query').lookup key = _
      rw [Function.update_of_ne hquery]
      exact hstore key
  · cases hs

theorem WriterInv.unsync (h : WriterInv cfg s) {query : String}
    (hs : writerStep cfg s (.unsync query) = some s') : WriterInv cfg s' := by
  cases hs
  intro query' cached hcached
  have hquery : query' ≠ query := by
    rintro rfl
    simp [Function.update_self] at hcached
  have hold : s.caches query' = some cached := by
    simpa [Function.update_of_ne hquery] using hcached
  rcases h query' cached hold with ⟨base, hclaims, hstore⟩
  refine ⟨base, hclaims, fun key => ?_⟩
  change (Function.update s.stores query _ query').lookup key = _
  rw [Function.update_of_ne hquery]
  exact hstore key

theorem WriterInv.step (h : WriterInv cfg s) {e : WriterEvent} (hg : WriterSafe cfg s e)
    (hs : (writerMachine cfg).step s e = some s') : WriterInv cfg s' := by
  cases e with
  | create op => exact h.create hs
  | accept i acceptance => exact h.accept hg hs
  | ack i => exact h.ack hs
  | bootstrap query rows hlc => exact h.bootstrap hg hs
  | broadcast query rows hlc => exact h.broadcast hg hs
  | unsync query => exact h.unsync hs

theorem WriterInv.mirror (h : WriterInv cfg s) : WriterMirror cfg s := by
  constructor
  · intro query cached hcached rowId hnone
    rcases h query cached hcached with ⟨base, hclaims, hstore⟩
    have hlookup : (s.stores query).lookup (.str rowId) = base.lookup (.str rowId) := by
      rw [hstore, lookup_replayOps_of_ne]
      intro op hop heq
      exact hnone op hop (by simpa using heq.symm)
    have hheld : heldRow (s.stores query) (.str rowId) = heldRow base (.str rowId) := by
      rw [heldRow, hlookup, ← heldRow]
    rw [hheld]
    exact hclaims.rows rowId
  · intro query cached hcached key row hrow
    rcases h query cached hcached with ⟨base, hclaims, hstore⟩
    by_contra hkey
    -- Ops address strings only, so the base holds the row.
    have hlookup : (s.stores query).lookup key = base.lookup key := by
      rw [hstore, lookup_replayOps_of_ne fun op _ heq => hkey ⟨op.rowId, heq⟩]
    rw [heldRow, hlookup] at hrow
    exact hkey (hclaims.keys key row hrow)
  · intro query cached hcached hnone rows hlc holder
    rcases h query cached hcached with ⟨base, hclaims, hstore⟩
    have hlookup : ∀ key, (s.stores query).lookup key = base.lookup key := by
      intro key
      rw [hstore key, hnone]
      rfl
    have hstored : Claims (s.stores query) cached := by
      constructor
      · intro key row hrow
        rw [heldRow, hlookup key] at hrow
        exact hclaims.keys key row hrow
      · intro rowId
        rw [heldRow, hlookup (.str rowId)]
        exact hclaims.rows rowId
    refine hstored.applyDeltas (rowsById_byRowId _ rows) fun d hd => ?_
    exact taken_of_olderRow hd (holder d hd)

theorem writerInv_start : WriterInv cfg WriterState.start := by
  intro query cached hcached
  cases hcached

def todosBy (dependents : List String) : WriterConfig :=
  ⟨fun _ => "id", fun _ => [], fun _ => dependents⟩

def todoRow (title : String) : Row :=
  Lib.replay ∅ [("id", .str "1"), ("title", .str title)]

def retitleOp (title : String) (hlc : Hlc) : ClientOp :=
  ⟨"op", "todos", .update, "1", some (Lib.replay ∅ [("title", .str title)]), hlc, none⟩

/-- What the last-writer-wins policy makes of an op on a stored row. -/
def lwwAcceptance (op : ClientOp) (row : Row) (rowHlc : Hlc) : Acceptance :=
  let result := resolveLww ⟨op.op, op.payload, op.hlc, op.rowId, op.table, "u"⟩
    ⟨some row, some rowHlc, ∅⟩
  .consistent result.resolvedRow result.updatedColClocks

/-- Each of the queries shows the row; the client edits it under one of them. -/
def retitleRun (queries : List String) : List WriterEvent :=
  queries.map (.bootstrap · [todoRow "a"] "1.0.s") ++
    [.create (retitleOp "b" "2.0.c"),
      .accept 0 (lwwAcceptance (retitleOp "b" "2.0.c") (todoRow "a") "1.0.s"), .ack 0]

theorem stringKeyed_todoRow (title : String) : StringKeyed "id" [todoRow title] := by
  intro row hrow
  rcases List.mem_singleton.1 hrow with rfl
  exact ⟨"1", rfl, by decide⟩

end Sync
end Reflectdb
