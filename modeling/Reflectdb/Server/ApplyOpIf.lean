import Reflectdb.Lib.Table
import Reflectdb.Server.OpProcessor
import Reflectdb.Server.Conflict

/-!
# Apply if — the conditional write of the SQLite and Postgres adapters

`applyOpIf` writes an op only if the row's HLC is still the one that the caller read, `null`
standing for no row.  The SQLite adapter reads the HLC and compares it in a transaction.  The
Postgres adapter sends one statement, with the comparison in its `WHERE` clause.
-/

namespace Reflectdb
namespace Server

open Core Client Lib

/-! ## Storage -/

structure OpLogEntry where
  table : String
  op : OpType
  rowId : String
  payload : Option Row
  hlc : Hlc
  colClocks : Record Hlc

/-- The `_rows` and `_oplog` tables. -/
structure SyncStorage where
  rows : Table (String × String) StoredRow
  oplog : List OpLogEntry

/-- The arguments of `applyOp`. -/
structure OpWrite where
  table : String
  rowId : String
  row : Option Row
  colClocks : Record Hlc
  hlc : Hlc
  opType : OpType
  payload : Option Row

namespace OpWrite

def key (w : OpWrite) : String × String :=
  (w.table, w.rowId)

/-- The row as it is stored, if the write is not a delete. -/
def stored (w : OpWrite) : Option StoredRow :=
  w.row.map fun row => ⟨row, w.hlc, w.colClocks⟩

def logEntry (w : OpWrite) : OpLogEntry :=
  ⟨w.table, w.opType, w.rowId, w.payload, w.hlc, w.colClocks⟩

end OpWrite

namespace SyncStorage

def append (s : SyncStorage) (entry : OpLogEntry) : SyncStorage :=
  { s with oplog := s.oplog ++ [entry] }

/-- `getRowHlcStmt`: the HLC of the row, if it is there. -/
def currentHlc (s : SyncStorage) (w : OpWrite) : Option Hlc :=
  (s.rows w.key).map (·.hlc)

end SyncStorage

/-! ## The adapters -/

namespace Sqlite

/-- One transaction: the row, then the op log. -/
def applyOp (s : SyncStorage) (w : OpWrite) : SyncStorage :=
  { s with rows := s.rows.write w.key w.stored }.append w.logEntry

def applyOpIf (s : SyncStorage) (w : OpWrite) (expectedHlc : Option Hlc) : Bool × SyncStorage :=
  if s.currentHlc w ≠ expectedHlc then (false, s) else (true, applyOp s w)

end Sqlite

namespace Postgres

/-- One statement: the row in a `WITH` clause, the op log in its body. -/
def applyOp (s : SyncStorage) (w : OpWrite) : SyncStorage :=
  match w.stored with
  | none => { s with rows := s.rows.remove w.key }.append w.logEntry
  | some row => { s with rows := s.rows.put w.key row }.append w.logEntry

/-- The clause `won`: a delete compares the HLC even where none is expected. -/
def won (s : SyncStorage) (w : OpWrite) (expectedHlc : Option Hlc) :
    Touched (String × String) StoredRow :=
  match w.stored, expectedHlc with
  | none, _ => s.rows.deleteWhere w.key fun held => sqlEq (some held.hlc) expectedHlc
  | some row, none => s.rows.insertNew w.key row
  | some row, some _ => s.rows.updateWhere w.key (fun held => sqlEq (some held.hlc) expectedHlc) row

/-- The op log takes one entry for each row of `won`. -/
def applyOpIf (s : SyncStorage) (w : OpWrite) (expectedHlc : Option Hlc) : Bool × SyncStorage :=
  let touched := won s w expectedHlc
  (decide (0 < touched.count),
    ⟨touched.table, s.oplog ++ List.replicate touched.count w.logEntry⟩)

end Postgres

/-! ## Agreement -/

/-- What `applyOpIf` is for: the op is applied exactly when the stored HLC is the expected one. -/
def compareAndApply (s : SyncStorage) (w : OpWrite) (expectedHlc : Option Hlc) :
    Bool × SyncStorage :=
  if s.currentHlc w = expectedHlc then
    (true, ⟨Function.update s.rows w.key w.stored, s.oplog ++ [w.logEntry]⟩)
  else (false, s)

/-- Both adapters answer the same and leave the same rows and op log, those of `compareAndApply`. -/
structure AdaptersAgree (s : SyncStorage) (w : OpWrite) (expectedHlc : Option Hlc) : Prop where
  same : Sqlite.applyOpIf s w expectedHlc = Postgres.applyOpIf s w expectedHlc
  applies : Sqlite.applyOpIf s w expectedHlc = compareAndApply s w expectedHlc

/-- A delete of a row that is not there, and that the caller did not find either. -/
def DeletesAbsent (s : SyncStorage) (w : OpWrite) (expectedHlc : Option Hlc) : Prop :=
  w.row = none ∧ expectedHlc = none ∧ s.rows w.key = none

section Adapters

variable {s : SyncStorage} {w : OpWrite} {expectedHlc : Option Hlc}

theorem applyOp_agrees (s : SyncStorage) (w : OpWrite) :
    Postgres.applyOp s w = Sqlite.applyOp s w := by
  cases hw : w.stored <;> simp [Postgres.applyOp, Sqlite.applyOp, hw, Table.write]

theorem sqlite_applyOpIf_eq (s : SyncStorage) (w : OpWrite) (expectedHlc : Option Hlc) :
    Sqlite.applyOpIf s w expectedHlc = compareAndApply s w expectedHlc := by
  by_cases h : s.currentHlc w = expectedHlc
  · simp [Sqlite.applyOpIf, compareAndApply, h, Sqlite.applyOp, SyncStorage.append,
      Table.write_eq_update]
  · simp [Sqlite.applyOpIf, compareAndApply, h]

/-- The clause touches the row if its HLC is the expected one, except for a delete that expects no
row: a null compares with nothing. -/
theorem postgres_won_eq (s : SyncStorage) (w : OpWrite) (expectedHlc : Option Hlc) :
    Postgres.won s w expectedHlc =
      if s.currentHlc w = expectedHlc ∧ (w.row = none → expectedHlc ≠ none) then
        ⟨1, Function.update s.rows w.key w.stored⟩
      else ⟨0, s.rows⟩ := by
  have hany := Table.any_sqlEq_iff s.rows w.key (·.hlc) expectedHlc
  have hrow : w.row = none ↔ w.stored = none := by simp [OpWrite.stored]
  simp only [SyncStorage.currentHlc, hrow]
  cases hstored : w.stored with
  | none =>
      simp only [Postgres.won, hstored, Table.deleteWhere, hany]
      cases expectedHlc <;> simp [Table.remove]
  | some row =>
      cases expectedHlc with
      | none =>
          -- An insert expects no row, and does nothing where there is one.
          cases hheld : s.rows w.key <;>
            simp [Postgres.won, hstored, Table.insertNew, hheld, Table.put]
      | some expected =>
          simp only [Postgres.won, hstored, Table.updateWhere, hany]
          simp [Table.put]

theorem postgres_applyOpIf_eq (s : SyncStorage) (w : OpWrite) (expectedHlc : Option Hlc) :
    Postgres.applyOpIf s w expectedHlc =
      if w.row = none ∧ expectedHlc = none then (false, s)
      else compareAndApply s w expectedHlc := by
  simp only [Postgres.applyOpIf, postgres_won_eq, compareAndApply]
  by_cases hnull : w.row = none ∧ expectedHlc = none
  · simp [hnull]
  · -- Any other write touches the row exactly when the HLC is the expected one.
    have himp : w.row = none → expectedHlc ≠ none := fun h h' => hnull ⟨h, h'⟩
    by_cases hcur : s.currentHlc w = expectedHlc
    · rw [if_pos ⟨hcur, himp⟩, if_neg hnull, if_pos hcur]
      rfl
    · simp [hnull, hcur]

end Adapters

/-- The adapters agree on every write but one kind: the delete of a row that is not there, by a
caller that expects none.  SQLite logs it, Postgres never applies it. -/
theorem applyOpIf_agrees_iff (s : SyncStorage) (w : OpWrite) (expectedHlc : Option Hlc) :
    AdaptersAgree s w expectedHlc ↔ ¬ DeletesAbsent s w expectedHlc := by
  have hsqlite := sqlite_applyOpIf_eq s w expectedHlc
  have hpostgres := postgres_applyOpIf_eq s w expectedHlc
  have hcurrent : s.currentHlc w = none ↔ s.rows w.key = none := by simp [SyncStorage.currentHlc]
  constructor
  · rintro ⟨hsame, -⟩ ⟨hrow, rfl, habsent⟩
    have hfalse : Postgres.applyOpIf s w none = (false, s) := by simp [hpostgres, hrow]
    have htrue : (Sqlite.applyOpIf s w none).1 = true := by
      simp [hsqlite, compareAndApply, hcurrent.2 habsent]
    rw [hsame, hfalse] at htrue
    cases htrue
  · intro hnot
    refine ⟨?_, hsqlite⟩
    rw [hsqlite, hpostgres]
    split
    · rename_i hnull
      obtain ⟨hrow, rfl⟩ := hnull
      -- The row is there, so that SQLite does not apply the op either.
      have hheld : s.currentHlc w ≠ none := fun h => hnot ⟨hrow, rfl, hcurrent.1 h⟩
      simp [compareAndApply, hheld]
    · rfl

/-- A delete of a row that was never stored: SQLite logs it, Postgres answers that it lost. -/
def deleteMissing : OpWrite :=
  ⟨"todos", "t1", none, rowClock "5", "5", .delete, none⟩

theorem applyOpIf_agrees_fails :
    ¬ ∀ (s : SyncStorage) (w : OpWrite) (expectedHlc : Option Hlc),
      AdaptersAgree s w expectedHlc := by
  intro h
  have hsame := (h ⟨fun _ => none, []⟩ deleteMissing none).same
  have hanswer := congrArg Prod.fst hsame
  exact absurd hanswer (by decide)

end Server
end Reflectdb
