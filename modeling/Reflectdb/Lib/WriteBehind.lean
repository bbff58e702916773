import Reflectdb.Lib.OrderedSet

/-!
# Write-behind — a log of accepted entries and a store that follows it

Entries are accepted in an order and written to a store one by one.  Those that wait are the last
accepted ones; the first of them may have been written without anybody knowing, and an entry may be
written directly, before it is accepted.  The store holds what was written last.
-/

namespace Reflectdb
namespace Lib

variable {α : Type}

/-- What may be written beyond the accepted entries that wait no longer. -/
inductive Ahead : (pending direct extra : List α) → Prop
  | nothing {pending : List α} : Ahead pending [] []
  | first {x : α} {pending : List α} : Ahead (x :: pending) [] [x]
  | direct {x : α} : Ahead [] [x] [x]

/-- The store has followed the log up to the entries that wait. -/
def WriteBehind (accepted pending direct written : List α) : Prop :=
  ∃ done extra, accepted = done ++ pending ∧ written.getLast? = (done ++ extra).getLast? ∧
    (∀ w ∈ written, w ∈ done ++ extra) ∧ Ahead pending direct extra

namespace WriteBehind

variable {accepted pending written : List α} {x : α}

theorem start : WriteBehind ([] : List α) [] [] [] :=
  ⟨[], [], rfl, rfl, by simp, .nothing⟩

/-- An entry is accepted and waits. -/
theorem push (h : WriteBehind accepted pending [] written) :
    WriteBehind (accepted ++ [x]) (pending ++ [x]) [] written := by
  rcases h with ⟨done, extra, rfl, hlast, hmem, hahead⟩
  refine ⟨done, extra, List.append_assoc .., hlast, hmem, ?_⟩
  cases hahead with
  | nothing => exact .nothing
  | first => exact .first

/-- The first entry that waits is written; whoever waits for the answer does not get it. -/
theorem writeLost (h : WriteBehind accepted (x :: pending) [] written) :
    WriteBehind accepted (x :: pending) [] (written ++ [x]) := by
  rcases h with ⟨done, extra, rfl, -, hmem, hahead⟩
  refine ⟨done, [x], rfl, by simp, fun w hw => ?_, .first⟩
  rcases List.mem_append.1 hw with hold | hnew
  · have hin := hmem w hold
    cases hahead with
    | nothing => exact List.mem_append_left _ (by simpa using hin)
    | first => exact hin
  · exact List.mem_append_right _ hnew

/-- The first entry that waits is written, and waits no longer. -/
theorem write (h : WriteBehind accepted (x :: pending) [] written) :
    WriteBehind accepted pending [] (written ++ [x]) := by
  rcases h with ⟨done, extra, rfl, -, hmem, hahead⟩
  refine ⟨done ++ [x], [], by simp, by simp, fun w hw => ?_, .nothing⟩
  rw [List.append_nil]
  rcases List.mem_append.1 hw with hold | hnew
  · have hin := hmem w hold
    cases hahead with
    | nothing => exact List.mem_append_left _ (by simpa using hin)
    | first => exact hin
  · exact List.mem_append_right _ hnew

/-- With nothing waiting, an entry is written before it is accepted. -/
theorem writeDirect (h : WriteBehind accepted [] [] written) :
    WriteBehind accepted [] [x] (written ++ [x]) := by
  rcases h with ⟨done, extra, rfl, -, hmem, hahead⟩
  cases hahead
  refine ⟨done, [x], rfl, by simp, fun w hw => ?_, .direct⟩
  rcases List.mem_append.1 hw with hold | hnew
  · exact List.mem_append_left _ (by simpa using hmem w hold)
  · exact List.mem_append_right _ hnew

theorem acceptDirect (h : WriteBehind accepted [] [x] written) :
    WriteBehind (accepted ++ [x]) [] [] written := by
  rcases h with ⟨done, extra, rfl, hlast, hmem, hahead⟩
  cases hahead
  exact ⟨done ++ [x], [], by simp, by simpa using hlast, by simpa using hmem, .nothing⟩

/-- With nothing under way, the entry written last is the last accepted one. -/
theorem getLast?_eq (h : WriteBehind accepted [] [] written) :
    written.getLast? = accepted.getLast? := by
  rcases h with ⟨done, extra, rfl, hlast, -, hahead⟩
  cases hahead
  simpa using hlast

/-- Nothing waits while an entry is written directly, and that is one entry. -/
theorem of_direct {direct : List α} (h : WriteBehind accepted pending direct written)
    (hx : x ∈ direct) : pending = [] ∧ direct = [x] := by
  rcases h with ⟨done, extra, -, -, -, hahead⟩
  cases hahead with
  | nothing => cases hx
  | first => cases hx
  | direct =>
      rw [List.mem_singleton.1 hx]
      exact ⟨rfl, rfl⟩

/-- Nothing up to a place of a list without repeats comes after it. -/
theorem not_before {xs ys : List α} {y : α} (hnodup : (xs ++ x :: ys).Nodup)
    (hy : y ∈ xs ++ [x]) : ¬ Before (xs ++ x :: ys) x y := by
  intro hbefore
  induction xs with
  | nil =>
      obtain rfl : y = x := by simpa using hy
      have hpair := hnodup.sublist hbefore
      simp at hpair
  | cons a xs ih =>
      rcases List.nodup_cons.1 hnodup with ⟨ha, hrest⟩
      rcases List.cons_sublist_cons'.1 hbefore with hsub | ⟨rfl, -⟩
      · rcases List.mem_cons.1 hy with rfl | hy
        · exact ha (hsub.subset (by simp))
        · exact ih hrest hy hsub
      · exact ha (by simp)

/-- Nothing that is written was accepted after the entry written last. -/
theorem newest {β : Type} {direct : List α} (f : α → β)
    (h : WriteBehind accepted pending direct written) (hnodup : (accepted.map f).Nodup)
    (hdirect : ∀ y ∈ direct, f y ∉ accepted.map f) {last : α}
    (hlast : written.getLast? = some last) {w : α} (hw : w ∈ written) :
    ¬ Before (accepted.map f) (f last) (f w) := by
  rcases h with ⟨done, extra, rfl, hend, hmem, hahead⟩
  rw [hlast] at hend
  have hprefix : ∀ (front back : List α), front.getLast? = some last →
      done ++ pending = front ++ back → w ∈ front →
        ¬ Before ((done ++ pending).map f) (f last) (f w) := by
    intro front back hfront heq hin
    rcases List.getLast?_eq_some_iff.1 hfront with ⟨init, rfl⟩
    have hmap : (done ++ pending).map f = init.map f ++ f last :: back.map f := by
      rw [heq]
      simp
    rw [hmap] at hnodup ⊢
    exact not_before hnodup (by simpa using List.mem_map_of_mem (f := f) hin)
  cases hahead with
  | nothing =>
      rw [List.append_nil] at hend hmem
      exact hprefix done pending hend.symm rfl (hmem w hw)
  | @first x rest => exact hprefix (done ++ [x]) rest hend.symm (by simp) (hmem w hw)
  | @direct x =>
      -- It is not accepted yet.
      intro hbefore
      obtain rfl : last = x := by simpa using hend
      exact hdirect last (by simp) (hbefore.subset (by simp))

end WriteBehind

end Lib
end Reflectdb
