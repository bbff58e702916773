import Mathlib.Algebra.GroupWithZero.Nat
import Reflectdb.Client.Store

/-!
# Conflict — the resolvers of the conflict policies

What the server makes of an op that meets the stored version of its row.  Rows and clock records are
plain JavaScript objects: a read under a name of `Object.prototype` that the object does not have
itself finds what it inherits, and an assignment to `__proto__` adds no key.
-/

namespace Reflectdb
namespace Server

open Core Client

/-! ## Plain objects -/

/-- The functions of `Object.prototype`, with the names they print under. -/
def prototypeFunctions : List (String × String) :=
  [("constructor", "Object"), ("hasOwnProperty", "hasOwnProperty"),
    ("isPrototypeOf", "isPrototypeOf"), ("propertyIsEnumerable", "propertyIsEnumerable"),
    ("toString", "toString"), ("valueOf", "valueOf"), ("toLocaleString", "toLocaleString"),
    ("__defineGetter__", "__defineGetter__"), ("__defineSetter__", "__defineSetter__"),
    ("__lookupGetter__", "__lookupGetter__"), ("__lookupSetter__", "__lookupSetter__")]

/-- What a plain object inherits under a name, as the string it compares as. -/
def inherited (name : String) : Option String :=
  if name = "__proto__" then some "[object Object]"
  else
    (prototypeFunctions.find? (·.1 = name)).map fun f =>
      "function " ++ f.2 ++ "() { [native code] }"

/-- `record[key] = value` for each write.  Assigning `__proto__` adds no key. -/
def assignAll {V : Type} (record : Record V) (writes : List (String × V)) : Record V :=
  Lib.replay record (writes.filter (·.1 ≠ "__proto__"))

theorem lookup_assignAll {V : Type} (record : Record V) (log : List (String × V)) (c : String) :
    (assignAll record log).lookup c =
      if c = "__proto__" then record.lookup c else (Lib.lastWrite log c).or (record.lookup c) := by
  rw [assignAll, Lib.lookup_replay]
  by_cases hc : c = "__proto__"
  · subst hc
    have hnone : Lib.lastWrite (log.filter (·.1 ≠ "__proto__")) "__proto__" = none := by
      refine Lib.lastWrite_eq_none.2 fun w hw => ?_
      simpa using (List.mem_filter.1 hw).2
    rw [hnone, if_pos rfl]
    rfl
  · rw [if_neg hc]
    have hsame : ∀ log : List (String × V),
        Lib.lastWrite (log.filter (·.1 ≠ "__proto__")) c = Lib.lastWrite log c := by
      intro log
      induction log with
      | nil => rfl
      | cons w log ih =>
          by_cases hw : w.1 = "__proto__"
          · have hne : w.1 ≠ c := fun heq => hc (heq.symm.trans hw)
            rw [List.filter_cons_of_neg (by simpa using hw), ih, Lib.lastWrite, if_neg hne,
              Option.or_none]
          · rw [List.filter_cons_of_pos (by simpa using hw), Lib.lastWrite, Lib.lastWrite, ih]
    rw [hsame]

/-- `record[col] = hlc` for each column of the payload. -/
def stampColumns (clocks : Record Hlc) (payload : Option Row) (hlc : Hlc) : Record Hlc :=
  assignAll clocks ((payload.getD ∅).keys.map fun col => (col, hlc))

/-- `clocks[col]`. -/
def readClock (clocks : Record Hlc) (col : String) : Option Hlc :=
  (clocks.lookup col).or (inherited col)

/-! ## Ops, rows and results -/

structure ConflictInput where
  op : OpType
  payload : Option Row
  hlc : Hlc
  rowId : String
  tableName : String
  userId : String

/-- What `getRow` or the batch cache answers. -/
structure ExistingRow where
  row : Option Row
  rowHlc : Option Hlc
  colClocks : Record Hlc

structure ConflictResult where
  accepted : Bool
  resolvedRow : Option Row
  updatedColClocks : Record Hlc
  reason : Option String

namespace ConflictResult

def accept (row : Option Row) (clocks : Record Hlc) : ConflictResult :=
  ⟨true, row, clocks, none⟩

/-- Nothing of the existing row changes. -/
def reject (existing : ExistingRow) (reason : Option String) : ConflictResult :=
  ⟨false, existing.row, existing.colClocks, reason⟩

end ConflictResult

def buildColClocks (incoming : ConflictInput) : Record Hlc :=
  stampColumns (rowClock incoming.hlc) incoming.payload incoming.hlc

/-- No existing row: accept unconditionally. -/
def acceptFirst (incoming : ConflictInput) : ConflictResult :=
  .accept (if incoming.op = .delete then none else incoming.payload) (buildColClocks incoming)

/-! ## The string policies -/

/-- The row and its HLC, if the existing row has both. -/
def ExistingRow.version (existing : ExistingRow) : Option (Row × Hlc) :=
  match existing.row, existing.rowHlc.filter (· ≠ "") with
  | some row, some rowHlc => some (row, rowHlc)
  | _, _ => none

def resolveLww (incoming : ConflictInput) (existing : ExistingRow) : ConflictResult :=
  match existing.version with
  | none => acceptFirst incoming
  | some (row, rowHlc) =>
    if rowHlc < incoming.hlc then
      let clocks := existing.colClocks.insert "_row" incoming.hlc
      match incoming.op with
      | .delete => .accept none clocks
      | .update =>
        .accept (some (incoming.payload.getD ∅ ∪ row))
          (stampColumns clocks incoming.payload incoming.hlc)
      | .insert =>
        .accept incoming.payload (stampColumns clocks incoming.payload incoming.hlc)
    else .reject existing none

/-- The column has no clock, or an older one. -/
def wins (clocks : Record Hlc) (hlc : Hlc) (col : String) : Bool :=
  match (readClock clocks col).filter (· ≠ "") with
  | none => true
  | some held => held < hlc

/-- The columns of the payload that the op wins, with their values. -/
def winning (clocks : Record Hlc) (payload : Row) (hlc : Hlc) : List (String × Json) :=
  Lib.writes (payload.entries.filter fun e => wins clocks hlc e.1)

/-- The row-level HLC moves forward only. -/
def advanceRowClock (clocks : Record Hlc) (hlc : Hlc) : Record Hlc :=
  if wins clocks hlc "_row" then clocks.insert "_row" hlc else clocks

def resolveMerge (incoming : ConflictInput) (existing : ExistingRow) : ConflictResult :=
  match existing.version with
  | none => acceptFirst incoming
  | some (row, rowHlc) =>
    if incoming.op = .delete then
      if rowHlc < incoming.hlc then
        .accept none (existing.colClocks.insert "_row" incoming.hlc)
      else .reject existing (some "merge_stale")
    else
      let won := winning existing.colClocks (incoming.payload.getD ∅) incoming.hlc
      if won = [] then .reject existing (some "merge_stale")
      else
        let clocks := assignAll existing.colClocks (won.map fun w => (w.1, incoming.hlc))
        .accept (some (assignAll row won)) (advanceRowClock clocks incoming.hlc)

def resolveServer (incoming : ConflictInput) (existing : ExistingRow) : ConflictResult :=
  match existing.row with
  | none => acceptFirst incoming
  | some _ => .reject existing (some "server_conflict")

/-! ## Custom resolvers -/

/-- What a resolver throws. -/
inductive ResolverError
  | mutationError (reason : String)
  | other

/-- The row a resolver returns, and which of its columns hold the very object that the existing row
holds there: `!==` compares objects by identity. -/
structure ResolverResult where
  row : Row
  kept : String → Bool

/-- A `ConflictResolver`: the op, the existing row and clocks, and the ids of the table, the row and
the user. -/
abbrev ConflictResolver : Type :=
  ConflictInput → Row → Record Hlc → Except ResolverError ResolverResult

/-- Objects and arrays. -/
def isReference : Json → Bool
  | .arr _ => true
  | .obj _ => true
  | _ => false

/-- `existing.row[col] !== value`. -/
def ResolverResult.changes (result : ResolverResult) (row : Row) (col : String) (value : Json) :
    Bool :=
  match row.lookup col with
  | none => true
  | some old => if isReference old && isReference value then ! result.kept col else old ≠ value

def ResolverResult.changed (result : ResolverResult) (row : Row) : List String :=
  (result.row.entries.filter fun e => result.changes row e.1 e.2).map (·.1)

def resolveCustom (resolve : ConflictResolver) (incoming : ConflictInput)
    (existing : ExistingRow) : ConflictResult :=
  match existing.row with
  | none => acceptFirst incoming
  | some row =>
    match resolve incoming row existing.colClocks with
    | .error (.mutationError reason) => .reject existing (some reason)
    | .error .other => .reject existing (some "server_error")
    | .ok result =>
      let changed := result.changed row
      let clocks := assignAll existing.colClocks (changed.map fun col => (col, incoming.hlc))
      -- A resolution that changes nothing does not advance `_row`.
      .accept (some result.row)
        (if changed = [] then clocks else clocks.insert "_row" incoming.hlc)

/-! ## Text edits -/

/-- Payload key a text binding writes under. -/
def TEXT_EDIT_KEY : String := "$text"

def TEXT_SEEN_COLUMN : String := "_seen"

structure TextHunk where
  start : Int
  end_ : Int
  insert : String

structure TextChange where
  value : String
  back : List TextHunk

structure TextRemove where
  column : String
  baseHash : Int

structure TextEdit where
  who : String
  n : Int
  edits : List (String × TextChange)
  remove : Option TextRemove

structure TextConflictPolicy where
  text : List String
  softDelete : Option String

/-- `if (policy.softDelete)`. -/
def TextConflictPolicy.softDeleteColumn (policy : TextConflictPolicy) : Option String :=
  policy.softDelete.filter (· ≠ "")

/-- The functions of `core/text.ts` that a merge of texts uses, and the record of the latest write
of each writer, whose order of keys JSON values leave out here. -/
structure TextOps where
  applyHunks : String → List TextHunk → String
  merge3 : String → String → String → String
  hashText : String → Int
  recordSeen : Option Json → String → Int → Json

/-- The length of a string in UTF-16 code units. -/
def utf16Length (s : String) : Nat :=
  (s.toList.map fun c => if 0x10000 ≤ c.toNat then 2 else 1).sum

def objField : JsonObj → String → Option Json
  | .nil, _ => none
  | .cons key x fs, name => if key = name then some x else objField fs name

/-- `value.name`, where the value is an object with the field. -/
def field (value : Json) (name : String) : Option Json :=
  match value with
  | .obj fields => objField fields name
  | _ => none

def objEntries : JsonObj → List (String × Json)
  | .nil => []
  | .cons key x fs => (key, x) :: objEntries fs

def arrElems : JsonArr → List Json
  | .nil => []
  | .cons x xs => x :: arrElems xs

/-- `Object.entries(value ?? {})`. -/
def entriesOf : Option Json → List (String × Json)
  | some (.obj fields) => objEntries fields
  | some (.arr elems) => (arrElems elems).zipIdx.map fun e => (toString e.2, e.1)
  | some (.str s) => s.toList.zipIdx.map fun e => (toString e.2, .str (String.singleton e.1))
  | _ => []

/-- The hunks of a change: sorted, and within the text. -/
def readHunks (length : Nat) : Int → List Json → Option (List TextHunk)
  | _, [] => some []
  | pos, .arr (.cons (.num start) (.cons (.num end_) (.cons (.str insert) .nil))) :: rest =>
    if start < pos ∨ end_ < start ∨ length < end_ then none
    else (readHunks length end_ rest).map (⟨start, end_, insert⟩ :: ·)
  | _, _ => none

def readChange (change : Json) : Option TextChange :=
  match field change "value", field change "back" with
  | some (.str value), some (.arr back) =>
    (readHunks (utf16Length value) 0 (arrElems back)).map (⟨value, ·⟩)
  | _, _ => none

/-- `if (value)`. -/
def truthy : Json → Bool
  | .null => false
  | .bool b => b
  | .num n => n ≠ 0
  | .str s => s ≠ ""
  | _ => true

/-- The `remove` of an edit, if it has one: `none` if it is not a valid one. -/
def readRemove (policy : TextConflictPolicy) (remove : Option Json) : Option (Option TextRemove) :=
  match remove.filter truthy with
  | none => some none
  | some remove =>
    match field remove "column", field remove "baseHash" with
    | some (.str column), some (.num baseHash) =>
      if column ∈ policy.text ∧ policy.softDeleteColumn.isSome then some (some ⟨column, baseHash⟩)
      else none
    | _, _ => none

/-- `isTextEdit`, with the edit it lets through. -/
def readTextEdit (policy : TextConflictPolicy) (raw : Json) : Option TextEdit :=
  match field raw "who", field raw "n" with
  | some (.str who), some (.num n) =>
    if 64 < utf16Length who then none
    else
      let edits := (entriesOf (field raw "edits")).mapM fun e =>
        if e.1 ∈ policy.text then (readChange e.2).map fun change => (e.1, change) else none
      match edits, readRemove policy (field raw "remove") with
      | some edits, some remove => some ⟨who, n, edits, remove⟩
      | _, _ => none
  | _, _ => none

/-! ## The text policy -/

/-- The row and the clocks that an edit builds up. -/
structure TextDraft where
  row : Row
  clocks : Record Hlc

/-- `stamp(column, value)`. -/
def TextDraft.stamp (draft : TextDraft) (hlc : Hlc) (column : String) (value : Json) : TextDraft :=
  ⟨assignAll draft.row [(column, value)], assignAll draft.clocks [(column, hlc)]⟩

/-- `typeof row[column] === "string" ? row[column] : ""`. -/
def textOf (row : Row) (column : String) : String :=
  match row.lookup column with
  | some (.str s) => s
  | _ => ""

/-- `if (row[column])`. -/
def truthyColumn (row : Row) (column : String) : Bool :=
  match row.lookup column with
  | some value => truthy value
  | none => (inherited column).isSome

/-- An edit clears a soft delete. -/
def clearSoftDelete (policy : TextConflictPolicy) (hlc : Hlc) (draft : TextDraft) : TextDraft :=
  match policy.softDeleteColumn with
  | some softDelete =>
    if truthyColumn draft.row softDelete then draft.stamp hlc softDelete (.bool false) else draft
  | none => draft

/-- One column of an edit. -/
def applyChange (ops : TextOps) (policy : TextConflictPolicy) (hlc : Hlc) (draft : TextDraft)
    (column : String) (change : TextChange) : TextDraft :=
  let current := textOf draft.row column
  let merged := ops.merge3 (ops.applyHunks change.value change.back) current change.value
  clearSoftDelete policy hlc
    (if draft.row.lookup column = some (.str merged) then draft
    else draft.stamp hlc column (.str merged))

/-- A remove that didn't see the latest text does nothing. -/
def applyRemove (ops : TextOps) (policy : TextConflictPolicy) (hlc : Hlc) (draft : TextDraft)
    (remove : TextRemove) : TextDraft :=
  match policy.softDeleteColumn with
  | some softDelete =>
    if ops.hashText (textOf draft.row remove.column) = remove.baseHash then
      draft.stamp hlc softDelete (.bool true)
    else draft
  | none => draft

def applyTextEdit (ops : TextOps) (policy : TextConflictPolicy) (hlc : Hlc) (edit : TextEdit)
    (draft : TextDraft) : TextDraft :=
  let draft := edit.edits.foldl (fun d e => applyChange ops policy hlc d e.1 e.2) draft
  let draft :=
    match edit.remove with
    | some remove => applyRemove ops policy hlc draft remove
    | none => draft
  let draft := draft.stamp hlc TEXT_SEEN_COLUMN
    (ops.recordSeen (draft.row.lookup TEXT_SEEN_COLUMN) edit.who edit.n)
  { draft with clocks := draft.clocks.insert "_row" hlc }

/-- The payload without the text edit. -/
def plainPayload (incoming : ConflictInput) : Row :=
  (incoming.payload.getD ∅).erase TEXT_EDIT_KEY

/-- What becomes of the columns of a text op that are not edits of texts. -/
def resolvePlain (incoming : ConflictInput) (existing : ExistingRow) : ConflictResult :=
  if (plainPayload incoming).entries = [] then
    .accept (some (existing.row.getD ∅)) existing.colClocks
  else resolveMerge { incoming with payload := some (plainPayload incoming) } existing

def resolveText (ops : TextOps) (policy : TextConflictPolicy) (incoming : ConflictInput)
    (existing : ExistingRow) : ConflictResult :=
  if incoming.op = .delete then resolveLww incoming existing
  else if incoming.op = .insert ∧ existing.row.isSome then
    -- Two clients seeding one row with the same id: the first one stays.
    .accept existing.row existing.colClocks
  else
    match (incoming.payload.getD ∅).lookup TEXT_EDIT_KEY with
    | none => resolvePlain incoming existing
    | some raw =>
      match readTextEdit policy raw with
      | none => .reject existing (some "validation_failed")
      | some edit =>
        let base := resolvePlain incoming existing
        let draft := applyTextEdit ops policy incoming.hlc edit
          ⟨base.resolvedRow.getD ∅, base.updatedColClocks⟩
        .accept (some draft.row) draft.clocks

/-! ## Policies -/

inductive ConflictPolicy
  | lww
  | merge
  | server
  | custom (resolve : ConflictResolver)
  | text (policy : TextConflictPolicy)

def resolveConflict (ops : TextOps) (policy : ConflictPolicy) (incoming : ConflictInput)
    (existing : ExistingRow) : ConflictResult :=
  match policy with
  | .lww => resolveLww incoming existing
  | .merge => resolveMerge incoming existing
  | .server => resolveServer incoming existing
  | .custom resolve => resolveCustom resolve incoming existing
  | .text policy => resolveText ops policy incoming existing

/-! ## Stored rows -/

/-- A row as the storage holds it. -/
structure StoredRow where
  row : Row
  hlc : Hlc
  clocks : Record Hlc

/-- `getRow`. -/
def getRow : Option StoredRow → ExistingRow
  | none => ⟨none, none, ∅⟩
  | some stored => ⟨some stored.row, some stored.hlc, stored.clocks⟩

/-- What `applyOp` leaves of an accepted op: the write of a null row is a delete. -/
def ConflictResult.stored (result : ConflictResult) (hlc : Hlc) : Option StoredRow :=
  result.resolvedRow.map fun row => ⟨row, hlc, result.updatedColClocks⟩

/-- What the batch cache keeps of an accepted op. -/
def ConflictResult.cached (result : ConflictResult) (hlc : Hlc) : ExistingRow :=
  ⟨result.resolvedRow, some hlc, result.updatedColClocks⟩

end Server
end Reflectdb
