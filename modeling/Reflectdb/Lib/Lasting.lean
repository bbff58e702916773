import Reflectdb.Lib.Replay

/-!
# Lasting — records that only later ones follow

A log may hold a record more than once, and not in the order in which the records were made.  A
record lasts if from one of its places on the log has nothing that was made before it.  What a
replay leaves where it wrote is then its value, or that of a later record.
-/

namespace Reflectdb
namespace Lib

section

variable {α : Type} {made : α → Nat} {log : List α} {x : α}

/-- From one of its places on, the log has nothing that was made before `x`. -/
def Lasting (made : α → Nat) (log : List α) (x : α) : Prop :=
  ∃ before after, log = before ++ x :: after ∧ ∀ y ∈ after, made x ≤ made y

theorem Lasting.mem (h : Lasting made log x) : x ∈ log := by
  obtain ⟨before, after, rfl, -⟩ := h
  exact List.mem_append_right _ List.mem_cons_self

/-- Records that were made later may follow. -/
theorem Lasting.append (h : Lasting made log x) {more : List α}
    (hmore : ∀ y ∈ more, made x ≤ made y) : Lasting made (log ++ more) x := by
  obtain ⟨before, after, rfl, hafter⟩ := h
  refine ⟨before, after ++ more, by simp, fun y hy => ?_⟩
  rcases List.mem_append.1 hy with hold | hnew
  · exact hafter y hold
  · exact hmore y hnew

/-- It does not matter what comes before. -/
theorem Lasting.prepend (h : Lasting made log x) (earlier : List α) :
    Lasting made (earlier ++ log) x := by
  obtain ⟨before, after, rfl, hafter⟩ := h
  exact ⟨earlier ++ before, after, by simp, hafter⟩

/-- All records of a log in order last. -/
theorem lasting_of_pairwise (h : log.Pairwise fun a b => made a < made b) (hx : x ∈ log) :
    Lasting made log x := by
  obtain ⟨before, after, rfl⟩ := List.append_of_mem hx
  refine ⟨before, after, rfl, fun y hy => ?_⟩
  have hafter := (List.pairwise_append.1 h).2.1
  exact Nat.le_of_lt (List.rel_of_pairwise_cons hafter hy)

end

/-- Where a lasting record wrote, the last write is its own or that of a later record. -/
theorem Lasting.exists_lastWrite {α β κ : Type} [DecidableEq κ] {made : α → Nat} {log : List α}
    {x : α} (h : Lasting made log x) (write : α → Option (κ × β)) {k : κ} {v : β}
    (hx : write x = some (k, v)) :
    ∃ y ∈ log, made x ≤ made y ∧ ∃ w, write y = some (k, w) ∧
      lastWrite (log.filterMap write) k = some w := by
  obtain ⟨before, after, rfl, hafter⟩ := h
  have hself : lastWrite ((x :: after).filterMap write) k =
      (lastWrite (after.filterMap write) k).or (some v) := by
    simp [hx, lastWrite]
  rw [List.filterMap_append, lastWrite_append, hself]
  cases hlater : lastWrite (after.filterMap write) k with
  | none => exact ⟨x, by simp, le_rfl, v, hx, rfl⟩
  | some w =>
      obtain ⟨y, hy, hwrite⟩ := List.mem_filterMap.1 (mem_of_lastWrite hlater)
      exact ⟨y, by simp [hy], hafter y hy, w, hwrite, rfl⟩

end Lib
end Reflectdb
