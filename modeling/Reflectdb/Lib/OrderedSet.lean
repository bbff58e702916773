import Mathlib.Data.List.Induction
import Mathlib.Data.List.Nodup
import Mathlib.Data.List.Perm.Subperm
import Mathlib.Order.Lattice

/-!
# Ordered sets — lists without repetition, and the first least element

A set that keeps the order of insertion is a list without repetition: an element is added at the
end, unless it is there.  `firstMin` is the first of the elements with the least key, `Later` the
order by key and then by place; where an element leaves, the others keep their order.
-/

namespace Reflectdb
namespace Lib

variable {α : Type}

/-- In a list without repetition two elements stand in one order only. -/
theorem not_pair_sublist {xs : List α} (hnodup : xs.Nodup) {x y : α} (h : [x, y].Sublist xs)
    (h' : [y, x].Sublist xs) : False := by
  induction xs with
  | nil => exact absurd h.length_le (by simp)
  | cons first xs ih =>
      rcases List.nodup_cons.1 hnodup with ⟨hfirst, hrest⟩
      cases h with
      | cons _ h =>
          cases h' with
          | cons _ h' => exact ih hrest h h'
          | cons_cons _ h' => exact hfirst (h.subset (by simp))
      | cons_cons _ h =>
          cases h' with
          | cons _ h' => exact hfirst (h'.subset (by simp))
          | cons_cons _ h' => exact hfirst (h.subset (by simp))

/-! ## Adding and removing -/

section Sets

variable [DecidableEq α]

/-- Add at the end, unless it is there. -/
def addLast (xs : List α) (x : α) : List α :=
  if x ∈ xs then xs else xs ++ [x]

/-- Take an element out. -/
def without (xs : List α) (x : α) : List α :=
  xs.filter (· ≠ x)

@[simp] theorem mem_addLast {xs : List α} {x y : α} : y ∈ addLast xs x ↔ y ∈ xs ∨ y = x := by
  by_cases h : x ∈ xs
  · simp only [addLast, h, if_true]
    exact ⟨Or.inl, fun hy => hy.elim id fun heq => heq ▸ h⟩
  · simp [addLast, h]

@[simp] theorem mem_without {xs : List α} {x y : α} : y ∈ without xs x ↔ y ∈ xs ∧ y ≠ x := by
  simp [without]

theorem nodup_addLast {xs : List α} (h : xs.Nodup) (x : α) : (addLast xs x).Nodup := by
  by_cases hx : x ∈ xs
  · simpa [addLast, hx] using h
  · simpa [addLast, hx] using List.nodup_append_comm.1 (List.nodup_cons.2 ⟨hx, h⟩)

theorem nodup_without {xs : List α} (h : xs.Nodup) (x : α) : (without xs x).Nodup :=
  h.filter _

theorem sublist_addLast (xs : List α) (x : α) : xs.Sublist (addLast xs x) := by
  by_cases h : x ∈ xs
  · simp [addLast, h]
  · simp [addLast, h]

/-- The others keep their places. -/
theorem sublist_without {xs ys : List α} (h : ys.Sublist xs) {x : α} (hx : x ∉ ys) :
    ys.Sublist (without xs x) := by
  have hys : ys.filter (· ≠ x) = ys :=
    List.filter_eq_self.2 fun y hy => by simpa using fun heq : y = x => hx (heq ▸ hy)
  have hfilter := h.filter fun y => decide (y ≠ x)
  rwa [hys] at hfilter

theorem without_of_notMem {xs : List α} {x : α} (h : x ∉ xs) : without xs x = xs :=
  List.filter_eq_self.2 fun y hy => by simpa using fun heq : y = x => h (heq ▸ hy)

end Sets

/-! ## Places -/

/-- `x` comes before `y` in the list. -/
abbrev Before (xs : List α) (x y : α) : Prop :=
  [x, y].Sublist xs

theorem Before.trans {xs : List α} (hnodup : xs.Nodup) {x y z : α} (hxy : Before xs x y)
    (hyz : Before xs y z) : Before xs x z := by
  induction xs with
  | nil => cases hxy
  | cons w xs ih =>
      obtain ⟨hw, hnodup⟩ := List.nodup_cons.1 hnodup
      -- `y` is not the head, since something comes before it.
      have hy : y ∈ xs := by
        rcases List.cons_sublist_cons'.1 hxy with h | ⟨-, h⟩
        · exact h.subset (by simp)
        · exact h.subset (by simp)
      have hyz' : Before xs y z := by
        rcases List.cons_sublist_cons'.1 hyz with h | ⟨rfl, -⟩
        · exact h
        · exact absurd hy hw
      rcases List.cons_sublist_cons'.1 hxy with h | ⟨rfl, -⟩
      · exact (ih hnodup h hyz').cons w
      · have hz : z ∈ xs := hyz'.subset (by simp)
        exact (List.singleton_sublist.2 hz).cons_cons x

/-! ## The first least element -/

section Least

variable {κ : Type} [LinearOrder κ]

/-- Keep the smaller one, and the earlier one of two equals. -/
def pickMin (key : α → κ) (best : Option α) (x : α) : Option α :=
  match best with
  | none => some x
  | some held => if key x < key held then some x else some held

/-- The first element with the least key. -/
def firstMin (key : α → κ) (xs : List α) : Option α :=
  xs.foldl (pickMin key) none

/-- `y` ranks after `x`: by key, then by place. -/
def Later (key : α → κ) (xs : List α) (x y : α) : Prop :=
  key x < key y ∨ key x = key y ∧ Before xs x y

theorem firstMin_append_singleton (key : α → κ) (xs : List α) (x : α) :
    firstMin key (xs ++ [x]) = pickMin key (firstMin key xs) x := by
  simp [firstMin]

/-- The others rank after the first least element. -/
theorem firstMin_spec {key : α → κ} {xs : List α} {x : α} (h : firstMin key xs = some x) :
    x ∈ xs ∧ ∀ y ∈ xs, y ≠ x → Later key xs x y := by
  induction xs using List.reverseRecOn generalizing x with
  | nil => cases h
  | append_singleton xs z ih =>
      rw [firstMin_append_singleton] at h
      cases hbest : firstMin key xs with
      | none =>
          have hxs : xs = [] := by
            cases xs using List.reverseRecOn with
            | nil => rfl
            | append_singleton ys w =>
                rw [firstMin_append_singleton] at hbest
                cases hys : firstMin key ys with
                | none => simp [pickMin, hys] at hbest
                | some v =>
                    rw [hys, pickMin] at hbest
                    split at hbest <;> cases hbest
          have hx : z = x := by simpa [pickMin, hbest] using h
          subst hx hxs
          exact ⟨by simp, fun y hy hne => absurd (by simpa using hy) hne⟩
      | some held =>
          obtain ⟨hmem, hlater⟩ := ih hbest
          have hkept : ∀ y ∈ xs, y ≠ held → Later key (xs ++ [z]) held y := fun y hy hne =>
            (hlater y hy hne).imp id fun hbefore =>
              ⟨hbefore.1, List.Sublist.trans hbefore.2 (List.sublist_append_left xs [z])⟩
          simp only [hbest, pickMin] at h
          split at h
          · -- The new element is smaller than all others.
            rename_i hlt
            obtain rfl : z = x := by simpa using h
            refine ⟨by simp, fun y hy hne => Or.inl ?_⟩
            have hy : y ∈ xs := by
              rcases List.mem_append.1 hy with hy | hy
              · exact hy
              · exact absurd (by simpa using hy) hne
            by_cases heq : y = held
            · exact heq ▸ hlt
            · rcases hlater y hy heq with hkey | ⟨hkey, -⟩
              · exact lt_trans hlt hkey
              · exact hkey ▸ hlt
          · rename_i hnot
            obtain rfl : held = x := by simpa using h
            refine ⟨by simp [hmem], fun y hy hne => ?_⟩
            rcases List.mem_append.1 hy with hy | hy
            · exact hkept y hy hne
            · obtain rfl : y = z := by simpa using hy
              rcases lt_or_eq_of_le (not_lt.1 hnot) with hlt | heq
              · exact Or.inl hlt
              · refine Or.inr ⟨heq, ?_⟩
                have hsingle : [held].Sublist xs := List.singleton_sublist.2 hmem
                exact hsingle.append (List.Sublist.refl [y])

theorem firstMin_isSome {key : α → κ} {xs : List α} (h : xs ≠ []) : (firstMin key xs).isSome := by
  cases xs using List.reverseRecOn with
  | nil => exact absurd rfl h
  | append_singleton ys w =>
      rw [firstMin_append_singleton]
      cases hys : firstMin key ys with
      | none => rfl
      | some v =>
          rw [pickMin]
          split <;> rfl

theorem Later.trans {key : α → κ} {xs : List α} (hnodup : xs.Nodup) {x y z : α}
    (hxy : Later key xs x y) (hyz : Later key xs y z) : Later key xs x z := by
  rcases hxy with hlt | ⟨heq, hxy⟩ <;> rcases hyz with hlt' | ⟨heq', hyz⟩
  · exact Or.inl (lt_trans hlt hlt')
  · exact Or.inl (heq' ▸ hlt)
  · exact Or.inl (heq ▸ hlt')
  · exact Or.inr ⟨heq.trans heq', hxy.trans hnodup hyz⟩

theorem Later.mono {key : α → κ} {xs ys : List α} (h : xs.Sublist ys) {x y : α}
    (hlater : Later key xs x y) : Later key ys x y :=
  hlater.imp id fun hbefore => ⟨hbefore.1, List.Sublist.trans hbefore.2 h⟩

theorem Later.asymm {key : α → κ} {xs : List α} (hnodup : xs.Nodup) {x y : α}
    (hxy : Later key xs x y) : ¬ Later key xs y x := by
  intro hyx
  rcases hxy.trans hnodup hyx with hlt | ⟨-, hbefore⟩
  · exact lt_irrefl _ hlt
  · exact absurd (hnodup.sublist hbefore) (by simp)

/-! ## How many rank after an element -/

/-- At least `n` elements of the list rank after `x`. -/
def ManyLater (key : α → κ) (xs : List α) (n : Nat) (x : α) : Prop :=
  ∃ ys : List α, ys.Nodup ∧ (∀ y ∈ ys, y ∈ xs ∧ Later key xs x y) ∧ n ≤ ys.length

theorem ManyLater.mono {key : α → κ} {xs zs : List α} (h : xs.Sublist zs) {n : Nat} {x : α} :
    ManyLater key xs n x → ManyLater key zs n x := by
  rintro ⟨ys, hnodup, hys, hn⟩
  exact ⟨ys, hnodup, fun y hy => ⟨h.subset (hys y hy).1, (hys y hy).2.mono h⟩, hn⟩

theorem ManyLater.congr {key key' : α → κ} {xs : List α} {n : Nat} {x : α} (hx : key x = key' x)
    (hxs : ∀ y ∈ xs, key y = key' y) : ManyLater key xs n x → ManyLater key' xs n x := by
  rintro ⟨ys, hnodup, hys, hn⟩
  refine ⟨ys, hnodup, fun y hy => ⟨(hys y hy).1, ?_⟩, hn⟩
  have hlater := (hys y hy).2
  rwa [Later, hx, hxs y (hys y hy).1] at hlater

theorem ManyLater.length_lt {key : α → κ} {xs : List α} (hnodup : xs.Nodup) {n : Nat} {x : α}
    (hx : x ∈ xs) : ManyLater key xs n x → n < xs.length := by
  rintro ⟨ys, hys, hlater, hn⟩
  have hnotMem : x ∉ ys := fun h => (hlater x h).2.asymm hnodup (hlater x h).2
  have hsub : (x :: ys).Subperm xs := by
    refine List.subperm_of_subset (List.nodup_cons.2 ⟨hnotMem, hys⟩) fun y hy => ?_
    rcases List.mem_cons.1 hy with rfl | hy
    · exact hx
    · exact (hlater y hy).1
  have hlength := hsub.length_le
  simp only [List.length_cons] at hlength
  omega

variable [DecidableEq α]

theorem Later.without {key : α → κ} {xs : List α} {x y z : α} (hx : z ≠ x) (hy : z ≠ y)
    (h : Later key xs x y) : Later key (without xs z) x y :=
  h.imp id fun hbefore => ⟨hbefore.1, sublist_without hbefore.2 (by simp [hx, hy])⟩

/-- In a list of more than `n`, the rest ranks after the first least element. -/
theorem ManyLater.of_firstMin {key : α → κ} {xs : List α} (hnodup : xs.Nodup) {n : Nat}
    (hn : n < xs.length) {x : α} (h : firstMin key xs = some x) : ManyLater key xs n x := by
  obtain ⟨hmem, hlater⟩ := firstMin_spec h
  refine ⟨without xs x, nodup_without hnodup x, fun y hy => ?_, ?_⟩
  · obtain ⟨hy, hne⟩ := mem_without.1 hy
    exact ⟨hy, hlater y hy hne⟩
  · have hsub : xs.Subperm (x :: without xs x) := by
      refine List.subperm_of_subset hnodup fun y hy => ?_
      by_cases heq : y = x
      · simp [heq]
      · exact List.mem_cons_of_mem _ (mem_without.2 ⟨hy, heq⟩)
    have hlength := hsub.length_le
    simp only [List.length_cons] at hlength
    omega

/-- Taking out an element that many rank after leaves as many after each other such element. -/
theorem ManyLater.without {key : α → κ} {xs : List α} (hnodup : xs.Nodup) {n : Nat} {x z : α}
    (hne : z ≠ x) (hz : ManyLater key xs n z) (hx : ManyLater key xs n x) :
    ManyLater key (without xs z) n x := by
  obtain ⟨ys, hys, hlater, hn⟩ := hx
  by_cases hmem : z ∈ ys
  · -- What ranks after `z` ranks after `x`, too.
    obtain ⟨zs, hzs, hlaterz, hnz⟩ := hz
    have hxz : Later key xs x z := (hlater z hmem).2
    refine ⟨zs, hzs, fun y hy => ?_, hnz⟩
    obtain ⟨hyxs, hzy⟩ := hlaterz y hy
    have hyz : y ≠ z := fun heq => (heq ▸ hzy).asymm hnodup (heq ▸ hzy)
    exact ⟨mem_without.2 ⟨hyxs, hyz⟩, (hxz.trans hnodup hzy).without hne hyz.symm⟩
  · refine ⟨ys, hys, fun y hy => ?_, hn⟩
    have hyz : y ≠ z := fun heq => hmem (heq ▸ hy)
    exact ⟨mem_without.2 ⟨(hlater y hy).1, hyz⟩, (hlater y hy).2.without hne hyz.symm⟩

end Least

end Lib
end Reflectdb
