import Mathlib.Logic.Function.Basic

/-!
# Table — rows under a primary key, and the statements that write one of them

A table holds at most one row a key.  A conditional statement reports how many rows it touched, as
`RETURNING 1` counts them, and its condition may be unknown: a comparison with a null is neither
true nor false, and a statement touches only rows whose condition is true.
-/

namespace Reflectdb
namespace Lib

/-- The rows by primary key. -/
abbrev Table (κ ρ : Type) : Type :=
  κ → Option ρ

/-- `a = b` of nullable values; a null on either side leaves it unknown. -/
def sqlEq {α : Type} [DecidableEq α] : Option α → Option α → Option Bool
  | some a, some b => some (a = b)
  | _, _ => none

/-- The rows a statement touched and the table it leaves. -/
structure Touched (κ ρ : Type) where
  count : Nat
  table : Table κ ρ

namespace Table

variable {κ ρ : Type}

/-- A condition on one nullable field of the row selects it iff the row is there with that value. -/
theorem any_sqlEq_iff {α : Type} [DecidableEq α] (t : Table κ ρ) (k : κ) (f : ρ → α)
    (expected : Option α) :
    (t k).any (fun row => sqlEq (some (f row)) expected = some true) = true ↔
      expected.isSome ∧ (t k).map f = expected := by
  cases hrow : t k with
  | none => cases expected <;> simp
  | some row => cases expected <;> simp [sqlEq]

variable [DecidableEq κ]

/-- `INSERT OR REPLACE`. -/
def put (t : Table κ ρ) (k : κ) (row : ρ) : Table κ ρ :=
  Function.update t k (some row)

/-- `DELETE` by key. -/
def remove (t : Table κ ρ) (k : κ) : Table κ ρ :=
  Function.update t k none

/-- `put` or `remove`. -/
def write (t : Table κ ρ) (k : κ) : Option ρ → Table κ ρ
  | none => t.remove k
  | some row => t.put k row

theorem write_eq_update (t : Table κ ρ) (k : κ) (row : Option ρ) :
    t.write k row = Function.update t k row := by
  cases row <;> rfl

/-- `DELETE … WHERE key AND cond`. -/
def deleteWhere (t : Table κ ρ) (k : κ) (cond : ρ → Option Bool) : Touched κ ρ :=
  if (t k).any fun row => cond row = some true then ⟨1, t.remove k⟩ else ⟨0, t⟩

/-- `INSERT … ON CONFLICT DO NOTHING`. -/
def insertNew (t : Table κ ρ) (k : κ) (row : ρ) : Touched κ ρ :=
  if (t k).isSome then ⟨0, t⟩ else ⟨1, t.put k row⟩

/-- `UPDATE … WHERE key AND cond`. -/
def updateWhere (t : Table κ ρ) (k : κ) (cond : ρ → Option Bool) (row : ρ) : Touched κ ρ :=
  if (t k).any fun held => cond held = some true then ⟨1, t.put k row⟩ else ⟨0, t⟩

end Table

end Lib
end Reflectdb
