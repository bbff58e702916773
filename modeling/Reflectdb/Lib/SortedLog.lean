import Mathlib.Data.List.Sort
import Mathlib.Order.MinMax

/-!
# Sorted log — a list kept in the order of its keys

The elements of a log are appended in any order, and kept sorted by a key, equal keys in the order
of the appends.  Binary search finds where the elements end that a lower set of keys takes in, so
that a range of keys is a suffix, an element is put in its place, and the least ones are cut off.
-/

namespace Reflectdb
namespace Lib

variable {α : Type}

/-! ## Binary search -/

/-- The binary search for the first place in `[lo, hi)` that is not `before`. -/
def bisect (before : α → Bool) (xs : List α) : (fuel lo hi : Nat) → Nat
  | 0, lo, _ => lo
  | fuel + 1, lo, hi =>
    if lo < hi then
      let mid := (lo + hi) / 2
      if xs[mid]?.any before then bisect before xs fuel (mid + 1) hi
      else bisect before xs fuel lo mid
    else lo

/-- The search ends where the elements end that are `before`. -/
theorem bisect_append {before : α → Bool} {front back : List α}
    (hfront : ∀ x ∈ front, before x = true) (hback : ∀ x ∈ back, before x = false) :
    ∀ fuel lo hi : Nat, lo ≤ front.length → front.length ≤ hi →
      hi ≤ (front ++ back).length → hi - lo ≤ fuel →
      bisect before (front ++ back) fuel lo hi = front.length := by
  intro fuel
  induction fuel with
  | zero =>
      intro lo hi hlo hhi _ hfuel
      rw [bisect]
      omega
  | succ fuel ih =>
      intro lo hi hlo hhi hlen hfuel
      rw [bisect]
      split
      · rename_i hlt
        by_cases hmid : (lo + hi) / 2 < front.length
        · have hat : (front ++ back)[(lo + hi) / 2]?.any before = true := by
            rw [List.getElem?_append_left hmid, List.getElem?_eq_getElem hmid]
            exact hfront _ (List.getElem_mem hmid)
          simp only [hat, if_true]
          exact ih _ _ (by omega) hhi hlen (by omega)
        · have hin : (lo + hi) / 2 - front.length < back.length := by
            rw [List.length_append] at hlen
            omega
          have hat : (front ++ back)[(lo + hi) / 2]?.any before = false := by
            rw [List.getElem?_append_right (by omega), List.getElem?_eq_getElem hin]
            exact hback _ (List.getElem_mem hin)
          simp only [hat, Bool.false_eq_true, if_false]
          exact ih _ _ hlo (by omega) (by omega) (by omega)
      · exact le_antisymm hlo (by omega)

/-! ## Sorted lists -/

section Keys

variable {κ : Type} [LinearOrder κ] (key : α → κ)

/-- The keys do not go down. -/
def SortedBy (xs : List α) : Prop :=
  xs.Pairwise fun x y => key x ≤ key y

/-- A predicate that takes in, with an element, those with lower keys. -/
def Lower (p : α → Bool) : Prop :=
  ∀ ⦃x y⦄, key x ≤ key y → p y = true → p x = true

variable {key}

theorem lower_le (k : κ) : Lower key fun x => key x ≤ k :=
  fun _ _ hle hy => by simpa using le_trans hle (by simpa using hy)

theorem lower_lt (k : κ) : Lower key fun x => key x < k :=
  fun _ _ hle hy => by simpa using lt_of_le_of_lt hle (by simpa using hy)

/-- What a lower predicate takes in comes first. -/
theorem SortedBy.filter_append {xs : List α} (h : SortedBy key xs) {p : α → Bool}
    (hp : Lower key p) : xs.filter p ++ xs.filter (fun x => !p x) = xs := by
  induction xs with
  | nil => rfl
  | cons x xs ih =>
      rcases List.pairwise_cons.1 h with ⟨hx, hxs⟩
      cases hpx : p x with
      | true => simp [hpx, ih hxs]
      | false =>
          -- Nothing after `x` is taken in either.
          have hnone : ∀ y ∈ xs, p y = false := fun y hy => by
            by_contra hpy
            exact Bool.false_ne_true (hpx.symm.trans (hp (hx y hy) (by simpa using hpy)))
          have hfilter :
              xs.filter p = [] := List.filter_eq_nil_iff.2 fun y hy => by simp [hnone y hy]
          have hrest : xs.filter (fun y => !p y) = xs :=
            List.filter_eq_self.2 fun y hy => by simp [hnone y hy]
          simp [hpx, hfilter, hrest]

/-- The search of the whole list counts what the predicate takes in. -/
theorem SortedBy.bisect_eq {xs : List α} (h : SortedBy key xs) {p : α → Bool}
    (hp : Lower key p) : bisect p xs xs.length 0 xs.length = (xs.filter p).length := by
  have hsplit := h.filter_append hp
  have hfront : ∀ x ∈ xs.filter p, p x = true := fun x hx => (List.mem_filter.1 hx).2
  have hback : ∀ x ∈ xs.filter (fun x => !p x), p x = false := fun x hx => by
    simpa using (List.mem_filter.1 hx).2
  have hfound := bisect_append hfront hback xs.length 0 xs.length (Nat.zero_le _)
    (List.length_filter_le _ _) (le_of_eq (by rw [hsplit])) (Nat.sub_le _ _)
  rwa [hsplit] at hfound

theorem SortedBy.take_bisect {xs : List α} (h : SortedBy key xs) {p : α → Bool}
    (hp : Lower key p) : xs.take (bisect p xs xs.length 0 xs.length) = xs.filter p := by
  calc
    xs.take (bisect p xs xs.length 0 xs.length)
        = (xs.filter p ++ xs.filter fun x => !p x).take (xs.filter p).length := by
          rw [h.bisect_eq hp, h.filter_append hp]
    _ = xs.filter p := List.take_left

theorem SortedBy.drop_bisect {xs : List α} (h : SortedBy key xs) {p : α → Bool}
    (hp : Lower key p) :
    xs.drop (bisect p xs xs.length 0 xs.length) = xs.filter fun x => !p x := by
  calc
    xs.drop (bisect p xs xs.length 0 xs.length)
        = (xs.filter p ++ xs.filter fun x => !p x).drop (xs.filter p).length := by
          rw [h.bisect_eq hp, h.filter_append hp]
    _ = xs.filter fun x => !p x := List.drop_left

/-! ## The sorted list of a log -/

variable (key)

/-- The log in the order of the keys, equal keys as they were appended. -/
def sortBy (log : List α) : List α :=
  log.insertionSort fun x y => key x ≤ key y

/-- The element in front of those with keys from its own on. -/
def insertBefore (a : α) (xs : List α) : List α :=
  xs.orderedInsert (fun x y => key x ≤ key y) a

/-- The element behind those with keys up to its own. -/
def insertAfter (e : α) (xs : List α) : List α :=
  xs.filter (fun x => key x ≤ key e) ++ e :: xs.filter fun x => key e < key x

variable {key}

theorem sortBy_cons (a : α) (log : List α) :
    sortBy key (a :: log) = insertBefore key a (sortBy key log) :=
  rfl

theorem sortedBy_insertBefore {xs : List α} (h : SortedBy key xs) (a : α) :
    SortedBy key (insertBefore key a xs) := by
  have : Std.Total fun x y : α => key x ≤ key y := ⟨fun x y => le_total (key x) (key y)⟩
  have : IsTrans α fun x y => key x ≤ key y := ⟨fun _ _ _ h h' => le_trans h h'⟩
  exact List.Pairwise.orderedInsert a xs h

theorem sortedBy_sortBy (log : List α) : SortedBy key (sortBy key log) := by
  induction log with
  | nil => exact List.Pairwise.nil
  | cons a log ih => exact sortedBy_insertBefore ih a

theorem mem_sortBy {log : List α} {x : α} : x ∈ sortBy key log ↔ x ∈ log :=
  List.mem_insertionSort _

theorem length_sortBy (log : List α) : (sortBy key log).length = log.length :=
  List.length_insertionSort _ _

theorem insertBefore_cons_of_le {a x : α} (xs : List α) (h : key a ≤ key x) :
    insertBefore key a (x :: xs) = a :: x :: xs :=
  if_pos h

theorem insertBefore_cons_of_lt {a x : α} (xs : List α) (h : key x < key a) :
    insertBefore key a (x :: xs) = x :: insertBefore key a xs :=
  if_neg (not_le.2 h)

theorem insertAfter_cons_of_le {e x : α} (xs : List α) (h : key x ≤ key e) :
    insertAfter key e (x :: xs) = x :: insertAfter key e xs := by
  simp [insertAfter, h, not_lt.2 h]

/-- Before a higher key the element comes first, where the list is sorted. -/
theorem insertAfter_cons_of_lt {e x : α} {xs : List α} (hsorted : SortedBy key (x :: xs))
    (h : key e < key x) : insertAfter key e (x :: xs) = e :: x :: xs := by
  have hall : ∀ y ∈ x :: xs, key e < key y := by
    intro y hy
    rcases List.mem_cons.1 hy with rfl | hy
    · exact h
    · exact lt_of_lt_of_le h ((List.pairwise_cons.1 hsorted).1 y hy)
  have hle : (x :: xs).filter (fun y => key y ≤ key e) = [] :=
    List.filter_eq_nil_iff.2 fun y hy => by simpa using hall y hy
  have hlt : (x :: xs).filter (fun y => key e < key y) = x :: xs :=
    List.filter_eq_self.2 fun y hy => by simpa using hall y hy
  rw [insertAfter, hle, hlt]
  rfl

/-! ## Filtering -/

/-- A filter takes the element in or leaves the list as it is. -/
theorem SortedBy.filter_insertBefore {xs : List α} (h : SortedBy key xs) (p : α → Bool) (a : α) :
    (insertBefore key a xs).filter p =
      if p a then insertBefore key a (xs.filter p) else xs.filter p := by
  induction xs with
  | nil => cases hpa : p a <;> simp [insertBefore, hpa]
  | cons x xs ih =>
      rcases List.pairwise_cons.1 h with ⟨hx, hxs⟩
      rcases le_or_gt (key a) (key x) with hax | hxa
      · rw [insertBefore_cons_of_le xs hax]
        cases hpa : p a with
        | false => rw [List.filter_cons_of_neg (by simp [hpa]), if_neg Bool.false_ne_true]
        | true =>
            -- What is left of the list starts from the key of `a` on.
            have hfirst : insertBefore key a ((x :: xs).filter p) = a :: (x :: xs).filter p := by
              cases hrest : (x :: xs).filter p with
              | nil => rfl
              | cons y ys =>
                  have hy : y ∈ x :: xs := List.mem_of_mem_filter (hrest ▸ List.mem_cons_self)
                  apply insertBefore_cons_of_le
                  rcases List.mem_cons.1 hy with rfl | hy
                  · exact hax
                  · exact le_trans hax (hx y hy)
            rw [List.filter_cons_of_pos hpa, if_pos rfl, hfirst]
      · rw [insertBefore_cons_of_lt xs hxa, List.filter_cons, List.filter_cons, ih hxs]
        cases p x with
        | false => rfl
        | true =>
            cases p a with
            | false => rfl
            | true => exact (insertBefore_cons_of_lt _ hxa).symm

/-- Filtering a log and sorting it may change places. -/
theorem filter_sortBy (log : List α) (p : α → Bool) :
    (sortBy key log).filter p = sortBy key (log.filter p) := by
  induction log with
  | nil => rfl
  | cons a log ih =>
      rw [sortBy_cons, (sortedBy_sortBy log).filter_insertBefore, ih]
      cases hpa : p a with
      | true => rw [List.filter_cons_of_pos hpa, if_pos rfl, sortBy_cons]
      | false => rw [List.filter_cons_of_neg (by simp [hpa]), if_neg Bool.false_ne_true]

/-! ## Appending -/

/-- Placing an element in front of its equals and one behind them may change places. -/
theorem SortedBy.insertBefore_insertAfter {xs : List α} (h : SortedBy key xs) (a e : α) :
    insertBefore key a (insertAfter key e xs) = insertAfter key e (insertBefore key a xs) := by
  induction xs with
  | nil =>
      rcases le_or_gt (key a) (key e) with hae | hea
      · simp [insertBefore, insertAfter, hae, not_lt.2 hae]
      · simp [insertBefore, insertAfter, hea, not_le.2 hea]
  | cons x xs ih =>
      have hxs : SortedBy key xs := (List.pairwise_cons.1 h).2
      rcases le_or_gt (key x) (key e) with hxe | hex
      · -- The later element goes behind `x`.
        rw [insertAfter_cons_of_le xs hxe]
        rcases le_or_gt (key a) (key x) with hax | hxa
        · rw [insertBefore_cons_of_le _ hax, insertBefore_cons_of_le _ hax,
            insertAfter_cons_of_le _ (le_trans hax hxe), insertAfter_cons_of_le _ hxe]
        · rw [insertBefore_cons_of_lt _ hxa, insertBefore_cons_of_lt _ hxa,
            insertAfter_cons_of_le _ hxe, ih hxs]
      · have hins : SortedBy key (insertBefore key a (x :: xs)) := sortedBy_insertBefore h a
        rw [insertAfter_cons_of_lt h hex]
        rcases le_or_gt (key a) (key x) with hax | hxa
        · rw [insertBefore_cons_of_le xs hax] at hins ⊢
          rcases le_or_gt (key a) (key e) with hae | hea
          · rw [insertBefore_cons_of_le _ hae, insertAfter_cons_of_le _ hae,
              insertAfter_cons_of_lt h hex]
          · rw [insertBefore_cons_of_lt _ hea, insertBefore_cons_of_le _ hax,
              insertAfter_cons_of_lt hins hea]
        · rw [insertBefore_cons_of_lt xs hxa] at hins ⊢
          rw [insertBefore_cons_of_lt _ (hex.trans hxa), insertBefore_cons_of_lt _ hxa,
            insertAfter_cons_of_lt hins hex]

/-- Appending to a log is placing the element behind its equals in the sorted list. -/
theorem sortBy_concat (log : List α) (e : α) :
    sortBy key (log ++ [e]) = insertAfter key e (sortBy key log) := by
  induction log with
  | nil => rfl
  | cons a log ih =>
      rw [List.cons_append, sortBy_cons, ih, (sortedBy_sortBy log).insertBefore_insertAfter,
        sortBy_cons]

/-- An element with no lower key than the last one goes to the end. -/
theorem SortedBy.insertAfter_of_last_le {xs : List α} (h : SortedBy key xs) {e : α}
    (hlast : ∀ last ∈ xs.getLast?, key last ≤ key e) : insertAfter key e xs = xs ++ [e] := by
  have hle : ∀ x ∈ xs, key x ≤ key e := by
    cases hxs : xs.getLast? with
    | none => simp [List.getLast?_eq_none_iff.1 hxs]
    | some last =>
        obtain ⟨front, rfl⟩ := List.getLast?_eq_some_iff.1 hxs
        intro x hx
        rcases List.mem_append.1 hx with hx | hx
        · exact le_trans ((List.pairwise_append.1 h).2.2 x hx last (by simp)) (hlast last hxs)
        · exact (List.mem_singleton.1 hx) ▸ hlast last hxs
  have hfront : xs.filter (fun x => key x ≤ key e) = xs :=
    List.filter_eq_self.2 fun x hx => by simpa using hle x hx
  have hback : xs.filter (fun x => key e < key x) = [] :=
    List.filter_eq_nil_iff.2 fun x hx => by simpa using hle x hx
  rw [insertAfter, hfront, hback]

/-- The place of an element is found by search. -/
theorem SortedBy.insert_at_bisect {xs : List α} (h : SortedBy key xs) (e : α) :
    xs.take (bisect (fun x => key x ≤ key e) xs xs.length 0 xs.length) ++
        e :: xs.drop (bisect (fun x => key x ≤ key e) xs xs.length 0 xs.length) =
      insertAfter key e xs := by
  have hlower : Lower key fun x => decide (key x ≤ key e) := lower_le (key e)
  rw [h.take_bisect hlower, h.drop_bisect hlower, insertAfter]
  congr 2
  apply List.filter_congr
  intro x _
  rw [← decide_not]
  exact decide_eq_decide.2 not_le

/-! ## Keys of what the elements carry -/

theorem map_insertAfter {β : Type} (f : β → α) (e : β) (xs : List β) :
    (insertAfter (fun x => key (f x)) e xs).map f = insertAfter key (f e) (xs.map f) := by
  simp only [insertAfter, List.map_append, List.map_cons, List.filter_map]
  rfl

/-- The last element of the sorted log has the highest key. -/
theorem getLast?_sortBy (log : List α) :
    (sortBy key log).getLast?.map key = (log.map key).max? := by
  apply Eq.symm
  cases hlast : (sortBy key log).getLast? with
  | none =>
      have hnil : log = [] := by
        rw [← List.length_eq_zero_iff, ← @length_sortBy α κ _ key log,
          List.getLast?_eq_none_iff.1 hlast]
        rfl
      rw [hnil]
      rfl
  | some last =>
      obtain ⟨front, hfront⟩ := List.getLast?_eq_some_iff.1 hlast
      have hsorted : SortedBy key (front ++ [last]) := hfront ▸ sortedBy_sortBy log
      refine List.max?_eq_some_iff.2 ⟨?_, fun k hk => ?_⟩
      · exact List.mem_map_of_mem (mem_sortBy.1 (by rw [hfront]; simp))
      · obtain ⟨x, hx, rfl⟩ := List.mem_map.1 hk
        have hmem : x ∈ front ++ [last] := hfront ▸ mem_sortBy.2 hx
        rcases List.mem_append.1 hmem with hx | hx
        · exact (List.pairwise_append.1 hsorted).2.2 x hx last (by simp)
        · rw [List.mem_singleton.1 hx]

end Keys

end Lib
end Reflectdb
