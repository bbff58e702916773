import Mathlib.Data.List.Basic

/-!
# TxLog — a database handle with one transaction at a time

What is executed on the handle between `begin` and `commit` or `rollback` belongs to the transaction
that is open, whoever executes it; without one it is committed at once.  A handle keeps the
statements in order, each with its writer and the transaction that it was executed in, so that what
a rollback undoes can be named.
-/

namespace Reflectdb
namespace Lib

/-- A statement that was executed, and the transaction that was open then. -/
structure Executed (τ ω σ : Type) where
  writer : ω
  statement : σ
  during : Option τ
  deriving DecidableEq

structure TxLog (τ ω σ : Type) where
  committed : List (Executed τ ω σ)
  /-- The open transaction, and what was executed in it. -/
  working : Option (τ × List (Executed τ ω σ))
  during : ∀ tx ∈ working, ∀ e ∈ tx.2, e.during = some tx.1

namespace TxLog

variable {τ ω σ : Type}

def empty : TxLog τ ω σ :=
  ⟨[], none, fun _ h => absurd h (by simp)⟩

variable (h : TxLog τ ω σ)

def holder : Option τ :=
  h.working.map (·.1)

/-- What a reader of the handle sees. -/
def statements : List (Executed τ ω σ) :=
  h.committed ++ (h.working.map (·.2)).getD []

/-- Fails inside a transaction. -/
def begin (t : τ) : Option (TxLog τ ω σ) :=
  match h.working with
  | none => some ⟨h.committed, some (t, []), fun tx htx e he => by
      cases htx
      exact absurd he List.not_mem_nil⟩
  | some _ => none

def execute (writer : ω) (statement : σ) : TxLog τ ω σ :=
  match hw : h.working with
  | none => ⟨h.committed ++ [⟨writer, statement, none⟩], none, fun _ htx => absurd htx (by simp)⟩
  | some (t, xs) =>
    ⟨h.committed, some (t, xs ++ [⟨writer, statement, some t⟩]), fun tx htx e he => by
      cases htx
      rcases List.mem_append.1 he with hold | hnew
      · exact h.during (t, xs) hw e hold
      · rw [List.mem_singleton.1 hnew]⟩

/-- Fails outside a transaction. -/
def commit : Option (TxLog τ ω σ) :=
  h.working.map fun tx => ⟨h.committed ++ tx.2, none, fun _ htx => absurd htx (by simp)⟩

def rollback : Option (TxLog τ ω σ) :=
  h.working.map fun _ => ⟨h.committed, none, fun _ htx => absurd htx (by simp)⟩

variable {h} {h' : TxLog τ ω σ} {t : τ}

/-! ## What the operations do -/

theorem begin_eq_some (hb : h.begin t = some h') :
    h.holder = none ∧ h'.holder = some t ∧ h'.statements = h.statements ∧
      h'.committed = h.committed := by
  unfold begin at hb
  split at hb
  · rename_i hw
    cases hb
    simp [holder, statements, hw]
  · cases hb

theorem holder_execute (writer : ω) (statement : σ) :
    (h.execute writer statement).holder = h.holder := by
  unfold execute
  split <;> rename_i hw <;> simp [holder, hw]

theorem statements_execute (writer : ω) (statement : σ) :
    (h.execute writer statement).statements =
      h.statements ++ [⟨writer, statement, h.holder⟩] := by
  unfold execute
  split <;> rename_i hw <;> simp [holder, statements, hw]

/-- Inside a transaction nothing is committed. -/
theorem mem_committed_execute {writer : ω} {statement : σ} {e : Executed τ ω σ}
    (he : e ∈ (h.execute writer statement).committed) : e ∈ h.committed ∨ e.during = none := by
  unfold execute at he
  split at he
  · rcases List.mem_append.1 he with hold | hnew
    · exact Or.inl hold
    · exact Or.inr (by rw [List.mem_singleton.1 hnew])
  · exact Or.inl he

/-- What is seen and not committed was executed in the open transaction. -/
theorem mem_statements {e : Executed τ ω σ} (he : e ∈ h.statements) :
    e ∈ h.committed ∨ h.holder.isSome ∧ e.during = h.holder := by
  rcases List.mem_append.1 he with hold | hnew
  · exact Or.inl hold
  · cases hw : h.working with
    | none =>
        rw [hw] at hnew
        exact absurd hnew List.not_mem_nil
    | some tx =>
        rw [hw] at hnew
        rw [holder, hw]
        exact Or.inr ⟨rfl, h.during tx hw e hnew⟩

/-- A commit ends the transaction, and all statements stay. -/
theorem commit_eq_some (hc : h.commit = some h') :
    h.holder.isSome ∧ h'.holder = none ∧ h'.statements = h.statements ∧
      h'.committed = h.statements := by
  rcases Option.map_eq_some_iff.1 hc with ⟨tx, htx, rfl⟩
  simp [holder, statements, htx]

theorem rollback_isSome : h.rollback.isSome ↔ h.holder.isSome := by
  simp [rollback, holder]

/-- A rollback ends it, too; those of its statements are undone that were executed in it. -/
theorem rollback_eq_some [DecidableEq τ] (hr : h.rollback = some h')
    (hold : ∀ e ∈ h.committed, e.during ≠ h.holder) :
    h'.holder = none ∧ h'.committed = h.committed ∧
      h'.statements = h.statements.filter fun e => e.during ≠ h.holder := by
  rcases Option.map_eq_some_iff.1 hr with ⟨tx, htx, rfl⟩
  have hholder : h.holder = some tx.1 := by rw [holder, htx, Option.map_some]
  have hcommitted : h.committed.filter (fun e => e.during ≠ h.holder) = h.committed :=
    List.filter_eq_self.2 fun e he => decide_eq_true (hold e he)
  have hworking : tx.2.filter (fun e => e.during ≠ h.holder) = [] :=
    List.filter_eq_nil_iff.2 fun e he => by
      rw [hholder]
      simpa using h.during tx htx e he
  have hstatements : h.statements = h.committed ++ tx.2 := by
    rw [statements, htx, Option.map_some, Option.getD_some]
  refine ⟨rfl, rfl, ?_⟩
  calc
    h.committed ++ [] = h.committed := List.append_nil _
    _ = h.statements.filter fun e => e.during ≠ h.holder := by
      rw [hstatements, List.filter_append, hcommitted, hworking, List.append_nil]

end TxLog

end Lib
end Reflectdb
