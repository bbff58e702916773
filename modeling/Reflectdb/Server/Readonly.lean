import Reflectdb.Server.EagerOp
import Reflectdb.Server.MergeOrder

/-!
# Readonly — what the three write paths do to readonly columns

The pipeline and the eager path take the readonly columns out of updates and let inserts have them;
the REST handler takes them out of both.  Whether the row exists, and so whether an insert is the
first one, is known to the resolvers only.
-/

namespace Reflectdb
namespace Server

open Core Client

/-! ## The write paths -/

/-- A stored row; its HLC has been read as one, so that it is not empty. -/
structure MirrorRow extends StoredRow where
  hlc_ne : hlc ≠ ""

/-- `processOp`: the first check that fails gives the reason. -/
def processOp (ops : TextOps) (policy : ConflictPolicy) (columns : EnforcedColumns)
    (failed : Option String) (op : ConflictInput) (existing : ExistingRow) : ConflictResult :=
  match failed with
  | some reason => .reject existing (some reason)
  | none =>
    resolveConflict ops policy { op with payload := enforcedPayload columns op.op op.payload }
      existing

/-- The body of a REST request as it is passed on, without the primary key. -/
def restPayload (columns : EnforcedColumns) (pk : String) (body : Row) : Row :=
  assignAll (dropColumns (body.erase pk) columns.readonly)
    (Lib.writes (columns.serverSet.getD ∅).entries)

/-- The row and the clocks that `applyServerOp` writes, under the HLC that it has stamped. -/
def applyServerOp (op : OpType) (payload : Option Row) (hlc : Hlc) (existing : ExistingRow) :
    Option Row × Record Hlc :=
  match op, payload with
  | .delete, _ | _, none =>
    (none, (assignAll ∅ (existing.colClocks.keys.map fun key => (key, hlc))).insert "_row" hlc)
  | .insert, some columns => (some columns, (stampColumns ∅ payload hlc).insert "_row" hlc)
  | .update, some columns =>
    (some (columns ∪ existing.row.getD ∅),
      (stampColumns (existing.colClocks.erase "_row") payload hlc).insert "_row" hlc)

/-- The paths that a client's write can take. -/
inductive WritePath
  | consistent (policy : ConflictPolicy) (failed : Option String)
  | eager (m : SessionManager) (sender : String) (env : EagerEnv)
  /-- `POST` is an insert, `PUT` and `PATCH` are updates; `authorize` or `mutate` may refuse. -/
  | rest (pk : String) (hlc : Hlc) (refused : Bool)

/-- The row that the op leaves in place of the stored one, if it is accepted. -/
def WritePath.write (path : WritePath) (ops : TextOps) (columns : EnforcedColumns)
    (op : ConflictInput) (stored : MirrorRow) : Option (Option Row) :=
  match path with
  | .consistent policy failed =>
    let result := processOp ops policy columns failed op (getRow (some stored.toStoredRow))
    if result.accepted then some result.resolvedRow else none
  | .eager m sender env =>
    match processEagerOp m columns sender op env with
    | .accepted write _ => some write.mergedRow
    | _ => none
  | .rest pk hlc refused =>
    if refused then none
    else
      some (applyServerOp op.op (some (restPayload columns pk (op.payload.getD ∅))) hlc
        (getRow (some stored.toStoredRow))).1

/-! ## Readonly columns -/

/-- The column is readonly, and the server does not set it. -/
def EnforcedColumns.Guards (columns : EnforcedColumns) (c : String) : Prop :=
  c ∈ columns.readonly ∧ c ∉ columns.serverSet.getD ∅

/-- The guarded columns have the same values in both rows. -/
def KeepsReadonly (columns : EnforcedColumns) (before : Row) (after : Option Row) : Prop :=
  ∀ c, columns.Guards c → after.bind (·.lookup c) = before.lookup c

/-- The columns that a text edit writes. -/
def TextEdit.touches (edit : TextEdit) (policy : TextConflictPolicy) (c : String) : Prop :=
  c ∈ edit.edits.map (·.1) ∨ policy.softDeleteColumn = some c ∨ c = TEXT_SEEN_COLUMN

/-- The text edit of the op leaves the column, or writes the value that it has. -/
def TextEditSpares (ops : TextOps) (policy : TextConflictPolicy) (incoming : ConflictInput)
    (stored : MirrorRow) (c : String) : Prop :=
  ∀ raw edit, (incoming.payload.getD ∅).lookup TEXT_EDIT_KEY = some raw →
    readTextEdit policy raw = some edit → edit.touches policy c →
      let base := resolvePlain incoming (getRow (some stored.toStoredRow))
      (applyTextEdit ops policy incoming.hlc edit
        ⟨base.resolvedRow.getD ∅, base.updatedColClocks⟩).row.lookup c = stored.row.lookup c

/-- An insert brings the value that the column has. -/
def BringsSame (op : ConflictInput) (stored : MirrorRow) (c : String) : Prop :=
  op.payload.bind (·.lookup c) = stored.row.lookup c

/-- What each path needs to keep a guarded column. -/
def WritePath.Spares (path : WritePath) (ops : TextOps) (columns : EnforcedColumns)
    (op : ConflictInput) (stored : MirrorRow) (c : String) : Prop :=
  match path, op.op with
  | _, .delete => True
  | .consistent (.text policy) _, .update =>
    TextEditSpares ops policy { op with payload := enforcedPayload columns .update op.payload }
      stored c
  | .consistent _ _, .update => True
  | .consistent .lww _, .insert => BringsSame op stored c
  -- The insert wins no other columns than those with an older clock.
  | .consistent .merge _, .insert =>
    c ≠ "__proto__" → wins stored.clocks op.hlc c = true → c ∈ op.payload.getD ∅ →
      BringsSame op stored c
  | .consistent _ _, .insert => True
  -- The row as it was read, if it was; nothing where there is nothing to lay over it.
  | .eager _ _ env, .update =>
    if (enforcedPayload columns .update op.payload).isSome then
      (env.read.bind (·.row)).bind (·.lookup c) = stored.row.lookup c
    else stored.row.lookup c = none
  | .eager _ _ _, .insert => BringsSame op stored c
  | .rest _ _ _, .update => True
  | .rest _ _ _, .insert => stored.row.lookup c = none

/-- The path leaves the row to no resolver of the application. -/
def WritePath.IsBuiltin : WritePath → Prop
  | .consistent (.custom _) _ => False
  | _ => True

/-! ## What enforcement leaves of a payload -/

section Enforcement

variable {columns : EnforcedColumns} {c : String}

theorem lookup_dropColumns (row : Row) (fields : List String) (c : String) :
    (dropColumns row fields).lookup c = if c ∈ fields then none else row.lookup c := by
  induction fields generalizing row with
  | nil => simp [dropColumns]
  | cons field fields ih =>
      have hcons : dropColumns row (field :: fields) = dropColumns (row.erase field) fields := rfl
      rw [hcons, ih]
      by_cases hc : c = field
      · subst hc
        by_cases hmem : c ∈ fields <;> simp [hmem]
      · by_cases hmem : c ∈ fields <;> simp [hmem, hc, AList.lookup_erase_ne hc]

/-- The `serverSet` columns hide nothing of a guarded one. -/
theorem lookup_enforceServerSet (h : columns.Guards c) {op : OpType} (hop : op ≠ .delete)
    (payload : Option Row) :
    (enforceServerSet columns op payload).bind (·.lookup c) = payload.bind (·.lookup c) := by
  have hnot := h.2
  cases hset : columns.serverSet with
  | none => cases op <;> simp [enforceServerSet, hset]
  | some serverSet =>
      have hc : c ∉ serverSet := by simpa [hset] using hnot
      have hunion : (serverSet ∪ payload.getD ∅).lookup c = payload.bind (·.lookup c) := by
        rw [AList.lookup_union_right hc]
        cases payload <;> simp
      cases op with
      | delete => exact absurd rfl hop
      | insert => simpa [enforceServerSet, hset] using hunion
      | update => simpa [enforceServerSet, hset] using hunion

theorem lookup_enforced_update (h : columns.Guards c) (payload : Option Row) :
    (enforcedPayload columns .update payload).bind (·.lookup c) = none := by
  rw [enforcedPayload, lookup_enforceServerSet h (by simp)]
  cases payload with
  | none => rfl
  | some row => simp [enforceReadonly, lookup_dropColumns, h.1]

theorem lookup_enforced_insert (h : columns.Guards c) (payload : Option Row) :
    (enforcedPayload columns .insert payload).bind (·.lookup c) = payload.bind (·.lookup c) := by
  rw [enforcedPayload, lookup_enforceServerSet h (by simp)]
  rfl

theorem lookup_restPayload (h : columns.Guards c) (pk : String) (body : Row) :
    (restPayload columns pk body).lookup c = none := by
  have hset : (columns.serverSet.getD ∅).lookup c = none := AList.lookup_eq_none.2 h.2
  have hkeep : Lib.lastWrite ((Lib.writes (columns.serverSet.getD ∅).entries).filter
      (·.1 ≠ "__proto__")) c = none := by
    refine Lib.lastWrite_eq_none.2 fun w hw hc => ?_
    obtain ⟨e, he, rfl⟩ := List.mem_map.1 (List.mem_filter.1 hw).1
    have hsome : (columns.serverSet.getD ∅).lookup c = some e.2 :=
      hc ▸ Lib.mem_entries_iff.1 he
    rw [hset] at hsome
    cases hsome
  rw [restPayload, assignAll, Lib.lookup_replay, hkeep, Option.none_or, lookup_dropColumns,
    if_pos h.1]

end Enforcement

/-- `payload ?? {}`. -/
theorem lookup_getD (payload : Option Row) (c : String) :
    (payload.getD ∅).lookup c = payload.bind (·.lookup c) := by
  cases payload <;> simp

/-! ## What the resolvers do to a column -/

section Resolvers

variable {incoming : ConflictInput} {stored : MirrorRow} {c : String}

theorem version_mirrorRow (stored : MirrorRow) :
    (getRow (some stored.toStoredRow)).version = some (stored.row, stored.hlc) :=
  version_eq_some_iff.2 ⟨rfl, rfl, stored.hlc_ne⟩

/-- A merge takes the column if it wins it. -/
theorem resolveMerge_lookup (hop : incoming.op ≠ .delete) :
    ∃ row, (resolveMerge incoming (getRow (some stored.toStoredRow))).resolvedRow = some row ∧
      ((resolveMerge incoming (getRow (some stored.toStoredRow))).accepted = true →
        row.lookup c =
          if wins stored.clocks incoming.hlc c = true ∧ c ≠ "__proto__" then
            (incoming.payload.bind (·.lookup c)).or (stored.row.lookup c)
          else stored.row.lookup c) ∧
      (incoming.payload.bind (·.lookup c) = none → row.lookup c = stored.row.lookup c) := by
  simp only [resolveMerge, version_mirrorRow, if_neg hop]
  split
  · -- Nothing is won, and the row stays.
    refine ⟨stored.row, rfl, fun h => ?_, fun _ => rfl⟩
    simp [ConflictResult.reject] at h
  · have hlookup := lookup_assignAll_winning stored.row stored.clocks (incoming.payload.getD ∅)
      incoming.hlc c
    rw [lookup_getD] at hlookup
    refine ⟨_, rfl, fun _ => hlookup, fun hnone => hlookup.trans ?_⟩
    rw [hnone]
    simp

theorem resolveMerge_lookup_of_absent (hop : incoming.op ≠ .delete)
    (h : incoming.payload.bind (·.lookup c) = none) :
    (resolveMerge incoming (getRow (some stored.toStoredRow))).resolvedRow.bind (·.lookup c) =
      stored.row.lookup c := by
  obtain ⟨row, hrow, -, hnone⟩ := @resolveMerge_lookup incoming stored c hop
  rw [hrow]
  exact hnone h

theorem resolvePlain_lookup_of_absent (hop : incoming.op ≠ .delete)
    (h : incoming.payload.bind (·.lookup c) = none) :
    (resolvePlain incoming (getRow (some stored.toStoredRow))).resolvedRow.bind (·.lookup c) =
      stored.row.lookup c := by
  rw [resolvePlain]
  split
  · rfl
  · have hplain : (some (plainPayload incoming)).bind (·.lookup c) = none := by
      rw [Option.bind_some, plainPayload]
      by_cases hc : c = TEXT_EDIT_KEY
      · rw [hc, AList.lookup_erase]
      · rw [AList.lookup_erase_ne hc, lookup_getD, h]
    exact @resolveMerge_lookup_of_absent { incoming with payload := some (plainPayload incoming) }
      stored c hop hplain

/-! ### Text edits -/

variable {policy : TextConflictPolicy} {ops : TextOps} {hlc : Hlc}

theorem stamp_lookup (draft : TextDraft) {column : String} (hc : c ≠ column) (value : Json) :
    (draft.stamp hlc column value).row.lookup c = draft.row.lookup c := by
  have hconst := lookup_assignAll_const draft.row [column] value c
  simpa [TextDraft.stamp, hc] using hconst

theorem applyChange_lookup (draft : TextDraft) {column : String} (hc : c ≠ column)
    (hsoft : policy.softDeleteColumn ≠ some c) (change : TextChange) :
    (applyChange ops policy hlc draft column change).row.lookup c = draft.row.lookup c := by
  have hclear : ∀ d : TextDraft,
      (clearSoftDelete policy hlc d).row.lookup c = d.row.lookup c := by
    intro d
    rw [clearSoftDelete]
    split
    · rename_i softDelete hcolumn
      have hne : c ≠ softDelete := fun heq => hsoft (heq ▸ hcolumn)
      split
      · exact stamp_lookup d hne _
      · rfl
    · rfl
  rw [applyChange, hclear]
  split
  · rfl
  · exact stamp_lookup draft hc _

/-- An edit leaves the columns that it does not touch. -/
theorem applyTextEdit_lookup {edit : TextEdit} (h : ¬ edit.touches policy c) (draft : TextDraft) :
    (applyTextEdit ops policy hlc edit draft).row.lookup c = draft.row.lookup c := by
  have hedits : c ∉ edit.edits.map (·.1) := fun hc => h (Or.inl hc)
  have hsoft : policy.softDeleteColumn ≠ some c := fun hc => h (Or.inr (Or.inl hc))
  have hseen : c ≠ TEXT_SEEN_COLUMN := fun hc => h (Or.inr (Or.inr hc))
  have hchanges : ∀ (edits : List (String × TextChange)) (d : TextDraft), c ∉ edits.map (·.1) →
      (edits.foldl (fun d e => applyChange ops policy hlc d e.1 e.2) d).row.lookup c =
        d.row.lookup c := by
    intro edits
    induction edits with
    | nil => exact fun d _ => rfl
    | cons e edits ih =>
        intro d hmem
        have hcons : c ≠ e.1 ∧ c ∉ edits.map (·.1) := by simpa using hmem
        exact (ih _ hcons.2).trans (applyChange_lookup d hcons.1 hsoft e.2)
  have hremove : ∀ (remove : TextRemove) (d : TextDraft),
      (applyRemove ops policy hlc d remove).row.lookup c = d.row.lookup c := by
    intro remove d
    rw [applyRemove]
    split
    · rename_i softDelete hcolumn
      have hne : c ≠ softDelete := fun heq => hsoft (heq ▸ hcolumn)
      split
      · exact stamp_lookup d hne _
      · rfl
    · rfl
  change (TextDraft.stamp _ hlc TEXT_SEEN_COLUMN _).row.lookup c = _
  rw [stamp_lookup _ hseen]
  cases edit.remove with
  | none => exact hchanges _ _ hedits
  | some remove => exact (hremove remove _).trans (hchanges _ _ hedits)

end Resolvers

/-! ## What an accepted op leaves of a readonly column -/

section Kept

variable {ops : TextOps} {columns : EnforcedColumns} {stored : MirrorRow} {c : String}
  {after : Option Row}

/-- The resolver of the path, past the checks. -/
theorem consistent_write {policy : ConflictPolicy} {failed : Option String} {op : ConflictInput}
    (hwrite : (WritePath.consistent policy failed).write ops columns op stored = some after) :
    (resolveConflict ops policy { op with payload := enforcedPayload columns op.op op.payload }
        (getRow (some stored.toStoredRow))).accepted = true ∧
      (resolveConflict ops policy { op with payload := enforcedPayload columns op.op op.payload }
        (getRow (some stored.toStoredRow))).resolvedRow = after := by
  cases failed with
  | some reason => simp [WritePath.write, processOp, ConflictResult.reject] at hwrite
  | none =>
      rw [WritePath.write, Option.ite_none_right_eq_some] at hwrite
      exact ⟨hwrite.1, Option.some.inj hwrite.2⟩

theorem lww_lookup {incoming : ConflictInput} (hop : incoming.op ≠ .delete)
    (haccepted : (resolveLww incoming (getRow (some stored.toStoredRow))).accepted = true) :
    (resolveLww incoming (getRow (some stored.toStoredRow))).resolvedRow.bind (·.lookup c) =
      match incoming.op with
      | .insert => incoming.payload.bind (·.lookup c)
      | _ => (incoming.payload.bind (·.lookup c)).or (stored.row.lookup c) := by
  simp only [resolveLww, version_mirrorRow] at haccepted ⊢
  split
  · cases hkind : incoming.op with
    | delete => exact absurd hkind hop
    | insert => rfl
    | update =>
        -- The payload's columns are laid over the row.
        simp only [ConflictResult.accept, Option.bind_some, ← lookup_getD]
        cases hc : (incoming.payload.getD ∅).lookup c with
        | none => simp [AList.lookup_union_right (AList.lookup_eq_none.1 hc)]
        | some v => simp [AList.lookup_union_eq_some.2 (Or.inl hc)]
  · rename_i hnot
    simp [hnot, ConflictResult.reject] at haccepted

theorem text_update_kept_iff {policy : TextConflictPolicy} {incoming : ConflictInput}
    (hop : incoming.op = .update) (hpayload : incoming.payload.bind (·.lookup c) = none)
    (haccepted : (resolveText ops policy incoming
      (getRow (some stored.toStoredRow))).accepted = true) :
    (resolveText ops policy incoming (getRow (some stored.toStoredRow))).resolvedRow.bind
        (·.lookup c) = stored.row.lookup c ↔
      TextEditSpares ops policy incoming stored c := by
  have hdelete : incoming.op ≠ .delete := by simp [hop]
  have hinsert : ¬ (incoming.op = .insert ∧
      (getRow (some stored.toStoredRow)).row.isSome = true) := by simp [hop]
  have hplain := @resolvePlain_lookup_of_absent incoming stored c hdelete hpayload
  simp only [resolveText, if_neg hdelete, if_neg hinsert] at haccepted ⊢
  cases hraw : (incoming.payload.getD ∅).lookup TEXT_EDIT_KEY with
  | none =>
      simp only [hraw] at haccepted ⊢
      refine iff_of_true hplain fun raw edit hsome => ?_
      rw [hraw] at hsome
      cases hsome
  | some raw =>
      simp only [hraw] at haccepted ⊢
      cases hedit : readTextEdit policy raw with
      | none => simp [hedit, ConflictResult.reject] at haccepted
      | some edit =>
          simp only [ConflictResult.accept, Option.bind_some]
          constructor
          · intro hkept raw' edit' hraw' hedit' _
            obtain rfl : raw = raw' := Option.some.inj (hraw.symm.trans hraw')
            obtain rfl : edit = edit' := Option.some.inj (hedit.symm.trans hedit')
            exact hkept
          · intro hspares
            by_cases htouch : edit.touches policy c
            · exact hspares raw edit hraw hedit htouch
            · rw [applyTextEdit_lookup htouch, lookup_getD]
              exact hplain

theorem consistent_kept_iff {policy : ConflictPolicy} {failed : Option String}
    {op : ConflictInput} (hg : columns.Guards c) (hop : op.op ≠ .delete)
    (hbuiltin : (WritePath.consistent policy failed).IsBuiltin)
    (hwrite : (WritePath.consistent policy failed).write ops columns op stored = some after) :
    after.bind (·.lookup c) = stored.row.lookup c ↔
      (WritePath.consistent policy failed).Spares ops columns op stored c := by
  obtain ⟨haccepted, rfl⟩ := consistent_write hwrite
  obtain ⟨kind, payload, hlc, rowId, tableName, userId⟩ := op
  have hupdate := lookup_enforced_update hg payload
  have hinsert := lookup_enforced_insert hg payload
  cases policy with
  | custom resolve => exact hbuiltin.elim
  | server => simp [resolveConflict, resolveServer, getRow, ConflictResult.reject] at haccepted
  | lww =>
      simp only [resolveConflict] at haccepted ⊢
      have hleft := @lww_lookup stored c
        ⟨kind, enforcedPayload columns kind payload, hlc, rowId, tableName, userId⟩ hop haccepted
      rw [hleft]
      cases kind with
      | delete => exact absurd rfl hop
      | insert => simp [WritePath.Spares, BringsSame, hinsert]
      | update => simp [WritePath.Spares, hupdate]
  | merge =>
      simp only [resolveConflict] at haccepted ⊢
      cases kind with
      | delete => exact absurd rfl hop
      | update =>
          have hkept := @resolveMerge_lookup_of_absent
            ⟨.update, enforcedPayload columns .update payload, hlc, rowId, tableName, userId⟩
            stored c hop hupdate
          exact iff_of_true hkept trivial
      | insert =>
          obtain ⟨row, hrow, htaken, -⟩ := @resolveMerge_lookup
            ⟨.insert, enforcedPayload columns .insert payload, hlc, rowId, tableName, userId⟩
            stored c hop
          have htaken := htaken haccepted
          simp only [hinsert] at htaken
          simp only [hrow, Option.bind_some, htaken, WritePath.Spares, BringsSame]
          by_cases hwins : wins stored.clocks hlc c = true ∧ c ≠ "__proto__"
          · rw [if_pos hwins]
            cases hc : payload.bind (·.lookup c) with
            | none =>
                have hnot : c ∉ payload.getD ∅ := by rw [← AList.lookup_eq_none, lookup_getD, hc]
                simp [hnot]
            | some v =>
                have hmem : c ∈ payload.getD ∅ :=
                  AList.lookup_isSome.1 (by rw [lookup_getD, hc]; rfl)
                simp [hwins.1, hwins.2, hmem]
          · rw [if_neg hwins]
            refine iff_of_true rfl fun hproto hw => absurd ⟨hw, hproto⟩ hwins
  | text policy =>
      simp only [resolveConflict] at haccepted ⊢
      cases kind with
      | delete => exact absurd rfl hop
      | insert => exact iff_of_true rfl trivial
      | update => exact text_update_kept_iff rfl hupdate haccepted

theorem eager_kept_iff {m : SessionManager} {sender : String} {env : EagerEnv}
    {op : ConflictInput} (hg : columns.Guards c) (hop : op.op ≠ .delete)
    (hwrite : (WritePath.eager m sender env).write ops columns op stored = some after) :
    after.bind (·.lookup c) = stored.row.lookup c ↔
      (WritePath.eager m sender env).Spares ops columns op stored c := by
  simp only [WritePath.write] at hwrite
  cases houtcome : processEagerOp m columns sender op env with
  | rejected reason => simp [houtcome] at hwrite
  | threw => simp [houtcome] at hwrite
  | accepted write recipients =>
      obtain ⟨rfl, -⟩ := processEagerOp_accepted houtcome
      simp only [houtcome, Option.some.injEq] at hwrite
      subst hwrite
      obtain ⟨kind, payload, hlc, rowId, tableName, userId⟩ := op
      cases kind with
      | delete => exact absurd rfl hop
      | insert =>
          have hinsert := lookup_enforced_insert hg payload
          simp only [eagerWrite, WritePath.Spares, BringsSame, hinsert]
      | update =>
          have hupdate := lookup_enforced_update hg payload
          simp only [WritePath.Spares]
          cases hpayload : enforcedPayload columns .update payload with
          | none => simp [eagerWrite, eq_comm]
          | some written =>
              have hnone : written.lookup c = none := by simpa [hpayload] using hupdate
              have hnot : c ∉ written := AList.lookup_eq_none.1 hnone
              cases hread : env.read with
              | none => simp [eagerWrite, hnone]
              | some existing =>
                  obtain ⟨row, rowHlc, clocks⟩ := existing
                  cases row with
                  | none => simp [eagerWrite, hnone]
                  | some row => simp [eagerWrite, AList.lookup_union_right hnot]

theorem rest_kept_iff {pk : String} {hlc : Hlc} {refused : Bool} {op : ConflictInput}
    (hg : columns.Guards c) (hop : op.op ≠ .delete)
    (hwrite : (WritePath.rest pk hlc refused).write ops columns op stored = some after) :
    after.bind (·.lookup c) = stored.row.lookup c ↔
      (WritePath.rest pk hlc refused).Spares ops columns op stored c := by
  have hnone := lookup_restPayload hg pk (op.payload.getD ∅)
  have hnot : c ∉ restPayload columns pk (op.payload.getD ∅) := AList.lookup_eq_none.1 hnone
  cases refused with
  | true => simp [WritePath.write] at hwrite
  | false =>
      simp only [WritePath.write, Bool.false_eq_true, if_false, Option.some.injEq] at hwrite
      subst hwrite
      cases hkind : op.op with
      | delete => exact absurd hkind hop
      | insert => simp [applyServerOp, WritePath.Spares, hkind, hnone, eq_comm]
      | update =>
          simp [applyServerOp, WritePath.Spares, hkind, getRow, AList.lookup_union_right hnot]

end Kept

/-- The owner of a row is readonly. -/
def ownerReadonly : EnforcedColumns :=
  ⟨["owner"], none⟩

def ownedBy (user : String) : Row :=
  (∅ : Row).insert "owner" (.str user)

def aliceRow : MirrorRow :=
  ⟨⟨ownedBy "alice", "001", rowClock "001"⟩, by decide⟩

def ownerOp (kind : OpType) : ConflictInput :=
  ⟨kind, some (ownedBy "bob"), "002", "t1", "todos", "bob"⟩

end Server
end Reflectdb
