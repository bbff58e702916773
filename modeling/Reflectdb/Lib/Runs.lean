import Mathlib.Data.List.SplitBy

/-!
# Runs — a list in which the elements of one key stand together

`Contiguous key xs` says that nothing stands between two elements of one key but elements of that
key; elements without a key stand alone.  Cutting such a list where the key changes, or leaving out
elements, keeps the elements of a key together.
-/

namespace Reflectdb
namespace Lib

variable {α κ : Type}

/-- Between two elements of one key there is no other. -/
def Contiguous (key : α → Option κ) (xs : List α) : Prop :=
  ∀ ⦃x y z⦄, [x, y, z].Sublist xs → (key x).isSome → key x = key z → key y = key x

/-- What one list has of a key, the other has all of. -/
def KeepsWhole (key : α → Option κ) (all xs : List α) : Prop :=
  ∀ x ∈ xs, (key x).isSome → ∀ y ∈ all, key y = key x → y ∈ xs

variable {key : α → Option κ} {xs ys : List α}

theorem Contiguous.sublist (h : Contiguous key xs) (hsub : ys.Sublist xs) : Contiguous key ys :=
  fun _ _ _ hxyz => h (hxyz.trans hsub)

theorem contiguous_nil : Contiguous key [] :=
  fun _ _ _ h => absurd h.length_le (by simp)

/-- Elements of a key that is new, at the end. -/
theorem Contiguous.append (h : Contiguous key xs) (hsame : ∀ x ∈ ys, ∀ y ∈ ys, key x = key y)
    (hnew : ∀ x ∈ xs, ∀ y ∈ ys, (key y).isSome → key x ≠ key y) :
    Contiguous key (xs ++ ys) := by
  intro x y z hsub hsome heq
  rcases List.sublist_append_iff.1 hsub with ⟨front, back, hsplit, hfront, hback⟩
  -- The last element tells on which side the first one is.
  rcases List.eq_nil_or_concat back with rfl | ⟨middle, last, rfl⟩
  · rw [List.append_nil] at hsplit
    exact h (hsplit ▸ hfront) hsome heq
  · have hlast : last = z := by
      have := congrArg List.getLast? hsplit
      simpa using this.symm
    subst hlast
    have hz : last ∈ ys := hback.subset (by simp)
    have hside : ∀ w ∈ [x, y, last], w ∈ xs ∨ w ∈ ys := fun w hw => by
      rw [hsplit] at hw
      exact (List.mem_append.1 hw).imp (fun hmem => hfront.subset hmem) fun hmem =>
        hback.subset hmem
    have hx : x ∈ ys := (hside x (by simp)).resolve_left fun hxs =>
      hnew x hxs last hz (heq ▸ hsome) heq
    -- What stands after the first element is on its side.
    cases front with
    | nil =>
        rw [List.nil_append] at hsplit
        exact hsame y (hback.subset (hsplit ▸ by simp)) x hx
    | cons w front =>
        have hw : x = w := (List.cons.inj hsplit).1
        subst hw
        exact absurd heq (hnew x (hfront.subset List.mem_cons_self) last hz (heq ▸ hsome))

/-! ## Cutting -/

theorem pair_sublist_getLast {x : α} (hx : x ∈ xs) (hne : xs ≠ []) :
    x = xs.getLast hne ∨ [x, xs.getLast hne].Sublist xs := by
  have hsplit := List.dropLast_append_getLast hne
  rcases List.mem_append.1 (hsplit ▸ hx) with hold | hlast
  · refine Or.inr ?_
    have hsub := (List.singleton_sublist.2 hold).append_right [xs.getLast hne]
    rwa [hsplit] at hsub
  · exact Or.inl (List.mem_singleton.1 hlast)

theorem pair_sublist_head {y : α} (hy : y ∈ ys) (hne : ys ≠ []) :
    y = ys.head hne ∨ [ys.head hne, y].Sublist ys := by
  cases ys with
  | nil => exact absurd rfl hne
  | cons head ys =>
      rcases List.mem_cons.1 hy with rfl | hy
      · exact Or.inl rfl
      · exact Or.inr ((List.singleton_sublist.2 hy).cons_cons head)

/-- Where two neighbouring runs meet, the key changes. -/
def Meet (key : α → Option κ) (run next : List α) : Prop :=
  ∃ hrun hnext, ¬ ((key (run.getLast hrun)).isSome ∧ key (run.getLast hrun) = key (next.head hnext))

theorem key_ne_of_meet {run : List α} {runs : List (List α)}
    (hc : Contiguous key (run :: runs).flatten) (hmeet : ∀ next ∈ runs.head?, Meet key run next)
    {x y : α} (hx : x ∈ run) (hy : y ∈ runs.flatten) (hsome : (key x).isSome) : key x ≠ key y := by
  intro heq
  cases runs with
  | nil => exact List.not_mem_nil hy
  | cons next runs =>
      rcases hmeet next rfl with ⟨hrun, hnext, hnot⟩
      rw [List.flatten_cons] at hc
      have hlast : key (run.getLast hrun) = key x := by
        rcases pair_sublist_getLast hx hrun with hsame | hpair
        · rw [← hsame]
        · exact hc (hpair.append (List.singleton_sublist.2 hy)) hsome heq
      have hhead : key (next.head hnext) = key x := by
        have hmem : next.head hnext ∈ next := List.head_mem hnext
        have hne : (next :: runs).flatten ≠ [] := List.ne_nil_of_mem hy
        have hfirst : (next :: runs).flatten.head hne = next.head hnext := by
          simp only [List.flatten_cons]
          exact List.head_append_of_ne_nil hnext
        rcases pair_sublist_head hy hne with hsame | hpair
        · rw [← hfirst, ← hsame, heq]
        · rw [hfirst] at hpair
          exact hc ((List.singleton_sublist.2 hx).append hpair) hsome heq
      exact hnot ⟨by rwa [hlast], hlast.trans hhead.symm⟩

/-- Different runs have no key in common. -/
theorem pairwise_key_ne {runs : List (List α)} (hc : Contiguous key runs.flatten)
    (hmeet : runs.IsChain (Meet key)) :
    runs.Pairwise fun run run' => ∀ x ∈ run, ∀ y ∈ run', (key x).isSome → key x ≠ key y := by
  induction runs with
  | nil => exact List.Pairwise.nil
  | cons run runs ih =>
      have hrest : Contiguous key runs.flatten :=
        hc.sublist (List.sublist_append_right run runs.flatten)
      rw [List.isChain_cons] at hmeet
      refine List.pairwise_cons.2 ⟨fun run' hrun' x hx y hy hsome => ?_, ih hrest hmeet.2⟩
      exact key_ne_of_meet hc hmeet.1 hx (List.mem_flatten.2 ⟨run', hrun', hy⟩) hsome

/-- A list whose keys stand together, cut where the key changes: each run has all of its key. -/
theorem keepsWhole_of_mem_splitBy {r : α → α → Bool}
    (hr : ∀ x y, r x y = true ↔ (key x).isSome ∧ key x = key y) (hc : Contiguous key xs)
    {run : List α} (hrun : run ∈ xs.splitBy r) : KeepsWhole key xs run := by
  intro x hx hsome y hy heq
  have hflatten := List.flatten_splitBy r xs
  rw [← hflatten] at hy hc
  rcases List.mem_flatten.1 hy with ⟨run', hrun', hy⟩
  have hmeet : (xs.splitBy r).IsChain (Meet key) := by
    refine (List.isChain_getLast_head_splitBy r xs).imp fun run next => ?_
    rintro ⟨hl, hn, hfalse⟩
    refine ⟨hl, hn, fun hboth => ?_⟩
    rw [(hr _ _).2 hboth] at hfalse
    cases hfalse
  by_contra hout
  have hne : run ≠ run' := fun hsame => hout (hsame ▸ hy)
  have hsymm : Std.Symm fun run run' : List α =>
      ∀ x ∈ run, ∀ y ∈ run', (key x).isSome → key x ≠ key y :=
    ⟨fun _ _ h x hx y hy hx' hxy => h y hy x hx (hxy ▸ hx') hxy.symm⟩
  exact (pairwise_key_ne hc hmeet).forall hrun hrun' hne x hx y hy hsome heq.symm

end Lib
end Reflectdb
