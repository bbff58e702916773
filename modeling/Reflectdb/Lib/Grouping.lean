import Mathlib.Data.List.Pairwise

/-!
# Grouping — a list cut into groups by a key

`groupInto` collects the elements under their keys, in the order in which the keys first appear.
-/

namespace Reflectdb
namespace Lib

variable {α κ ι : Type}

/-- Elements of one group agree on `f`, elements of two groups do not. -/
structure Partitioned (f : α → ι) (groups : List (List α)) : Prop where
  within : ∀ g ∈ groups, ∀ x ∈ g, ∀ y ∈ g, f x = f y
  across : groups.Pairwise fun g g' => ∀ x ∈ g, ∀ y ∈ g', f x ≠ f y

theorem Partitioned.same_group {f : α → ι} {groups : List (List α)} (h : Partitioned f groups)
    {g g' : List α} (hg : g ∈ groups) (hg' : g' ∈ groups) {x y : α} (hx : x ∈ g) (hy : y ∈ g')
    (heq : f x = f y) : g = g' := by
  by_contra hne
  have hsymm : Std.Symm fun g g' : List α => ∀ x ∈ g, ∀ y ∈ g', f x ≠ f y :=
    ⟨fun _ _ hgg' x hx y hy heq => hgg' y hy x hx heq.symm⟩
  exact h.across.forall hg hg' hne x hx y hy heq

/-- Another function that tells the same elements apart. -/
theorem Partitioned.congr {f : α → ι} {f' : α → κ} {groups : List (List α)}
    (h : Partitioned f groups)
    (heq : ∀ g ∈ groups, ∀ x ∈ g, ∀ g' ∈ groups, ∀ y ∈ g', f x = f y ↔ f' x = f' y) :
    Partitioned f' groups := by
  refine ⟨fun g hg x hx y hy => (heq g hg x hx g hg y hy).1 (h.within g hg x hx y hy), ?_⟩
  refine h.across.imp_of_mem fun hg hg' hgg' x hx y hy => ?_
  exact mt (heq _ hg x hx _ hg' y hy).2 (hgg' x hx y hy)

section Groups

variable [DecidableEq κ]

/-- One more element, in the group of its key. -/
def addToGroup (key : κ) (x : α) : List (κ × List α) → List (κ × List α)
  | [] => [(key, [x])]
  | (k, g) :: groups =>
    if k = key then (k, g ++ [x]) :: groups else (k, g) :: addToGroup key x groups

def groupInto (key : α → κ) (xs : List α) : List (List α) :=
  (xs.foldl (fun groups x => addToGroup (key x) x groups) []).map Prod.snd

/-- The entries of the map: distinct keys, and under each the elements that have it. -/
structure Keyed (key : α → κ) (groups : List (κ × List α)) : Prop where
  nodup : (groups.map Prod.fst).Nodup
  keys : ∀ e ∈ groups, e.2 ≠ [] ∧ ∀ x ∈ e.2, key x = e.1

theorem map_fst_addToGroup (key : κ) (x : α) (groups : List (κ × List α)) :
    (addToGroup key x groups).map Prod.fst =
      if key ∈ groups.map Prod.fst then groups.map Prod.fst
      else groups.map Prod.fst ++ [key] := by
  induction groups with
  | nil => rfl
  | cons e groups ih =>
      obtain ⟨k, g⟩ := e
      rw [addToGroup]
      by_cases hk : k = key
      · simp [hk]
      · simp only [hk, if_false, List.map_cons, ih, List.mem_cons, Ne.symm hk, false_or]
        split <;> rfl

theorem mem_addToGroup {key : κ} {x : α} {groups : List (κ × List α)} {e : κ × List α}
    (h : e ∈ addToGroup key x groups) :
    e ∈ groups ∨ e = (key, [x]) ∨ ∃ g, (key, g) ∈ groups ∧ e = (key, g ++ [x]) := by
  induction groups with
  | nil => exact Or.inr (Or.inl (List.mem_singleton.1 h))
  | cons e' groups ih =>
      obtain ⟨k, g⟩ := e'
      rw [addToGroup] at h
      split at h
      · rename_i hk
        subst hk
        rcases List.mem_cons.1 h with rfl | hmem
        · exact Or.inr (Or.inr ⟨g, List.mem_cons_self, rfl⟩)
        · exact Or.inl (List.mem_cons_of_mem _ hmem)
      · rcases List.mem_cons.1 h with rfl | hmem
        · exact Or.inl List.mem_cons_self
        · rcases ih hmem with hold | hnew | ⟨g', hg', hnew⟩
          · exact Or.inl (List.mem_cons_of_mem _ hold)
          · exact Or.inr (Or.inl hnew)
          · exact Or.inr (Or.inr ⟨g', List.mem_cons_of_mem _ hg', hnew⟩)

theorem Keyed.addToGroup {key : α → κ} {groups : List (κ × List α)} (h : Keyed key groups)
    (x : α) : Keyed key (addToGroup (key x) x groups) := by
  refine ⟨?_, fun e he => ?_⟩
  · rw [map_fst_addToGroup]
    split
    · exact h.nodup
    · rename_i hnew
      have hne : ∀ k g, (k, g) ∈ groups → ¬ k = key x :=
        fun k g hk heq => hnew (heq ▸ List.mem_map_of_mem hk)
      simpa [List.nodup_append] using ⟨h.nodup, hne⟩
  · rcases mem_addToGroup he with hold | rfl | ⟨g, hg, rfl⟩
    · exact h.keys e hold
    · exact ⟨by simp, by simp⟩
    · refine ⟨by simp, fun y hy => ?_⟩
      rcases List.mem_append.1 hy with hy | hy
      · exact (h.keys _ hg).2 y hy
      · rw [List.mem_singleton.1 hy]

theorem exists_mem_addToGroup {key : κ} {x y : α} {groups : List (κ × List α)} :
    (∃ e ∈ addToGroup key x groups, y ∈ e.2) ↔ (∃ e ∈ groups, y ∈ e.2) ∨ y = x := by
  induction groups with
  | nil => simp [addToGroup]
  | cons e groups ih =>
      obtain ⟨k, g⟩ := e
      rw [addToGroup]
      split
      · simp only [List.mem_cons, exists_eq_or_imp, List.mem_append, List.not_mem_nil, or_false]
        exact or_right_comm
      · simp only [List.mem_cons, exists_eq_or_imp, ih, or_assoc]

theorem keyed_foldl {key : α → κ} (xs : List α) {groups : List (κ × List α)}
    (h : Keyed key groups) :
    Keyed key (xs.foldl (fun groups x => addToGroup (key x) x groups) groups) := by
  induction xs generalizing groups with
  | nil => exact h
  | cons x xs ih => exact ih (h.addToGroup x)

theorem keyed_groups (key : α → κ) (xs : List α) :
    Keyed key (xs.foldl (fun groups x => addToGroup (key x) x groups) []) :=
  keyed_foldl xs ⟨List.nodup_nil, by simp⟩

theorem groupInto_partitioned (key : α → κ) (xs : List α) :
    Partitioned key (groupInto key xs) := by
  have h := keyed_groups key xs
  refine ⟨fun g hg x hx y hy => ?_, ?_⟩
  · obtain ⟨e, he, rfl⟩ := List.mem_map.1 hg
    exact ((h.keys e he).2 x hx).trans ((h.keys e he).2 y hy).symm
  · apply List.pairwise_map.2
    have hnodup := List.pairwise_map.1 h.nodup
    refine hnodup.imp_of_mem fun he he' hne x hx y hy heq => hne ?_
    rw [← (h.keys _ he).2 x hx, ← (h.keys _ he').2 y hy, heq]

theorem mem_groupInto {key : α → κ} {xs : List α} {x : α} :
    (∃ g ∈ groupInto key xs, x ∈ g) ↔ x ∈ xs := by
  have hfold : ∀ (ys : List α) (groups : List (κ × List α)),
      (∃ e ∈ ys.foldl (fun groups x => addToGroup (key x) x groups) groups, x ∈ e.2) ↔
        (∃ e ∈ groups, x ∈ e.2) ∨ x ∈ ys := by
    intro ys
    induction ys with
    | nil => simp
    | cons y ys ih =>
        intro groups
        rw [List.foldl_cons, ih, exists_mem_addToGroup, List.mem_cons, or_assoc]
  have hmap : (∃ g ∈ groupInto key xs, x ∈ g) ↔
      ∃ e ∈ xs.foldl (fun groups x => addToGroup (key x) x groups) [], x ∈ e.2 := by
    simp only [groupInto, List.mem_map, exists_exists_and_eq_and]
  rw [hmap, hfold]
  simp

theorem ne_nil_of_mem_groupInto {key : α → κ} {xs g : List α} (h : g ∈ groupInto key xs) :
    g ≠ [] := by
  obtain ⟨e, he, rfl⟩ := List.mem_map.1 h
  exact ((keyed_groups key xs).keys e he).1

end Groups

end Lib
end Reflectdb
