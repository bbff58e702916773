import Mathlib.Algebra.GroupWithZero.Nat
import Mathlib.Data.List.Basic

/-!
# Hunks — replaced ranges of a list, and two sets of them merged

A hunk replaces a range of a list.  Two lists of hunks of one list are merged by going through both
in order: hunks that overlap are replaced together, every other one by itself.  The lemmas count the
occurrences of an element: where each hunk overlaps at most one of the other side and nothing of the
inserts is dropped, a merge has what both sides have, without what only one of them deleted.
-/

namespace Reflectdb
namespace Lib

variable {γ : Type}

/-- Replace the range from `start` to `stop`. -/
structure Hunk (γ : Type) where
  start : Nat
  stop : Nat
  insert : List γ
  deriving DecidableEq

/-- The elements from `i` on, up to `j`. -/
def slice (text : List γ) (i j : Nat) : List γ :=
  (text.drop i).take (j - i)

namespace Hunk

/-- The hunks lie one behind the other, from `pos` on and within the length. -/
def Forward (len : Nat) : Nat → List (Hunk γ) → Prop
  | pos, [] => pos ≤ len
  | pos, h :: hs => pos ≤ h.start ∧ h.start ≤ h.stop ∧ Forward len h.stop hs

instance (len : Nat) : ∀ (pos : Nat) (hs : List (Hunk γ)), Decidable (Forward len pos hs)
  | pos, [] => inferInstanceAs (Decidable (pos ≤ len))
  | pos, h :: hs =>
    have := instDecidableForward len h.stop hs
    inferInstanceAs (Decidable (pos ≤ h.start ∧ h.start ≤ h.stop ∧ Forward len h.stop hs))

/-- The list from `pos` on, with the ranges replaced. -/
def applyFrom (text : List γ) : Nat → List (Hunk γ) → List γ
  | pos, [] => text.drop pos
  | pos, h :: hs => slice text pos h.start ++ h.insert ++ applyFrom text h.stop hs

def Overlaps (x y : Hunk γ) : Prop :=
  x.start = y.start ∨ (x.start < y.stop ∧ y.start < x.stop)

instance (x y : Hunk γ) : Decidable (x.Overlaps y) :=
  inferInstanceAs (Decidable (_ ∨ _))

/-- The list from `pos` on with the hunks of both sides; `join` is what two overlapping hunks
insert. Each round takes a hunk, so the number of hunks is fuel enough. -/
def mergeFrom (text : List γ) (join : List γ → List γ → List γ) :
    Nat → Nat → List (Hunk γ) → List (Hunk γ) → List γ
  | n + 1, pos, x :: a, y :: b =>
    if x.Overlaps y then
      slice text pos (min x.start y.start) ++ join x.insert y.insert ++
        mergeFrom text join n (max x.stop y.stop) a b
    else if x.start ≤ y.start then
      slice text pos x.start ++ x.insert ++ mergeFrom text join n x.stop a (y :: b)
    else
      slice text pos y.start ++ y.insert ++ mergeFrom text join n y.stop (x :: a) b
  | n + 1, pos, x :: a, [] =>
    slice text pos x.start ++ x.insert ++ mergeFrom text join n x.stop a []
  | n + 1, pos, [], y :: b =>
    slice text pos y.start ++ y.insert ++ mergeFrom text join n y.stop [] b
  | _, pos, _, _ => text.drop pos

/-! ## Conditions on two sides -/

/-- Each hunk overlaps at most one of the other side. -/
structure OneToOne (a b : List (Hunk γ)) : Prop where
  left : ∀ x ∈ a, (b.filter fun y => x.Overlaps y).length ≤ 1
  right : ∀ y ∈ b, (a.filter fun x => x.Overlaps y).length ≤ 1

/-- Two overlapping hunks insert what both insert. -/
def JoinsBoth (join : List γ → List γ → List γ) (a b : List (Hunk γ)) : Prop :=
  ∀ x ∈ a, ∀ y ∈ b, x.Overlaps y → join x.insert y.insert = x.insert ++ y.insert

instance (a b : List (Hunk γ)) : Decidable (OneToOne a b) :=
  decidable_of_iff ((∀ x ∈ a, (b.filter fun y => x.Overlaps y).length ≤ 1) ∧
    ∀ y ∈ b, (a.filter fun x => x.Overlaps y).length ≤ 1)
    ⟨fun h => ⟨h.1, h.2⟩, fun h => ⟨h.left, h.right⟩⟩

instance [DecidableEq γ] (join : List γ → List γ → List γ) (a b : List (Hunk γ)) :
    Decidable (JoinsBoth join a b) :=
  inferInstanceAs (Decidable (∀ _ ∈ _, ∀ _ ∈ _, _ → _))

theorem OneToOne.symm {a b : List (Hunk γ)} (h : OneToOne a b)
    (hsymm : ∀ x y : Hunk γ, x.Overlaps y ↔ y.Overlaps x) : OneToOne b a := by
  refine ⟨fun y hy => ?_, fun x hx => ?_⟩
  · simpa only [hsymm y] using h.right y hy
  · simpa only [hsymm _ x] using h.left x hx

theorem overlaps_comm (x y : Hunk γ) : x.Overlaps y ↔ y.Overlaps x := by
  unfold Overlaps
  omega

theorem OneToOne.tail {x : Hunk γ} {a b : List (Hunk γ)} (h : OneToOne (x :: a) b) :
    OneToOne a b := by
  refine ⟨fun x' hx' => h.left x' (List.mem_cons_of_mem _ hx'), fun y hy => ?_⟩
  have hle : (a.filter fun x => x.Overlaps y).length ≤
      ((x :: a).filter fun x => x.Overlaps y).length :=
    ((List.sublist_cons_self x a).filter _).length_le
  exact Nat.le_trans hle (h.right y hy)

theorem OneToOne.tail_right {y : Hunk γ} {a b : List (Hunk γ)} (h : OneToOne a (y :: b)) :
    OneToOne a b :=
  ((h.symm overlaps_comm).tail).symm overlaps_comm

/-- The hunks behind one that overlaps `y` do not overlap `y`. -/
theorem OneToOne.not_overlaps {x y : Hunk γ} {a b : List (Hunk γ)} (h : OneToOne (x :: a) (y :: b))
    (hxy : x.Overlaps y) : ∀ x' ∈ a, ¬ x'.Overlaps y := by
  intro x' hx' hover
  have hle := h.right y List.mem_cons_self
  rw [List.filter_cons_of_pos (by simpa using hxy), List.length_cons] at hle
  have hnil : a.filter (fun x => x.Overlaps y) = [] := List.length_eq_zero_iff.1 (by omega)
  have hmem : x' ∈ a.filter fun x => x.Overlaps y :=
    List.mem_filter.2 ⟨hx', by simpa using hover⟩
  rw [hnil] at hmem
  cases hmem

/-! ## Hunks in order -/

theorem Forward.le_length {len pos : Nat} {hs : List (Hunk γ)} (h : Forward len pos hs) :
    pos ≤ len := by
  induction hs generalizing pos with
  | nil => exact h
  | cons x hs ih => exact Nat.le_trans h.1 (Nat.le_trans h.2.1 (ih h.2.2))

/-- Behind two overlapping hunks: where the next hunk does not overlap `y`, it lies behind `y`. -/
theorem Forward.past_overlap {len : Nat} {x y : Hunk γ} {hs : List (Hunk γ)}
    (hx : x.start ≤ x.stop) (hylen : y.stop ≤ len) (hxy : x.Overlaps y)
    (h : Forward len x.stop hs) (hnot : ∀ x' ∈ hs, ¬ x'.Overlaps y) :
    Forward len (max x.stop y.stop) hs := by
  cases hs with
  | nil => exact Nat.max_le.2 ⟨h, hylen⟩
  | cons x' hs =>
      have hx' := hnot x' List.mem_cons_self
      unfold Overlaps at hxy hx'
      have hstart := h.1
      have hstop := h.2.1
      exact ⟨by omega, h.2.1, h.2.2⟩

theorem forward_stop_of_not_overlaps {len : Nat} {x y : Hunk γ} {hs : List (Hunk γ)}
    (hxy : ¬ x.Overlaps y) (hle : x.start ≤ y.start) {pos : Nat}
    (h : Forward len pos (y :: hs)) : Forward len x.stop (y :: hs) := by
  have hy := h.2.1
  unfold Overlaps at hxy
  exact ⟨by omega, h.2.1, h.2.2⟩

/-! ## Slices -/

theorem slice_append_drop {text : List γ} {i j : Nat} (h : i ≤ j) :
    slice text i j ++ text.drop j = text.drop i := by
  have happend := List.take_append_drop (j - i) (text.drop i)
  rwa [List.drop_drop, Nat.add_sub_cancel' h] at happend

section Count

variable (text : List γ)

/-- What the hunks take out. -/
def deleted (hs : List (Hunk γ)) : List γ :=
  hs.flatMap fun h => slice text h.start h.stop

def inserted (hs : List (Hunk γ)) : List γ :=
  hs.flatMap (·.insert)

/-- What two overlapping hunks both take out. -/
def deletedByBoth : Nat → List (Hunk γ) → List (Hunk γ) → List γ
  | n + 1, x :: a, y :: b =>
    if x.Overlaps y then
      slice text (max x.start y.start) (min x.stop y.stop) ++ deletedByBoth n a b
    else if x.start ≤ y.start then deletedByBoth n a (y :: b)
    else deletedByBoth n (x :: a) b
  | _, _, _ => []

@[simp] theorem deletedByBoth_nil_left (n : Nat) (b : List (Hunk γ)) :
    deletedByBoth text n [] b = [] := by
  cases n <;> rfl

@[simp] theorem deletedByBoth_nil_right (n : Nat) (a : List (Hunk γ)) :
    deletedByBoth text n a [] = [] := by
  cases n <;> cases a <;> rfl

variable [DecidableEq γ] (t : γ)

theorem count_drop {i j : Nat} (h : i ≤ j) :
    (text.drop i).count t = (slice text i j).count t + (text.drop j).count t := by
  rw [← List.count_append, slice_append_drop h]

theorem count_slice {i j k : Nat} (hij : i ≤ j) (hjk : j ≤ k) :
    (slice text i k).count t = (slice text i j).count t + (slice text j k).count t := by
  have hik := count_drop text t (Nat.le_trans hij hjk)
  have hi := count_drop text t hij
  have hj := count_drop text t hjk
  omega

/-! ## Counting what hunks do -/

theorem count_applyFrom {len : Nat} {hs : List (Hunk γ)} :
    ∀ {pos : Nat}, Forward len pos hs →
      (applyFrom text pos hs).count t + (deleted text hs).count t =
        (text.drop pos).count t + (inserted hs).count t := by
  induction hs with
  | nil => intro pos _; rfl
  | cons x hs ih =>
      intro pos h
      have hrest := ih h.2.2
      have hpos := count_drop text t h.1
      have hrange := count_drop text t h.2.1
      simp only [applyFrom, deleted, inserted, List.flatMap_cons, List.count_append] at hrest ⊢
      omega

/-- Hunks that lie behind `q` leave the elements before it. -/
theorem count_applyFrom_of_le {len p q : Nat} {hs : List (Hunk γ)} (hpq : p ≤ q)
    (h : Forward len q hs) :
    (applyFrom text p hs).count t = (slice text p q).count t + (applyFrom text q hs).count t := by
  cases hs with
  | nil => exact count_drop text t hpq
  | cons x hs =>
      have hslice := count_slice text t hpq h.1
      simp only [applyFrom, List.count_append]
      omega

theorem count_deleted_cons (x : Hunk γ) (a : List (Hunk γ)) :
    (deleted text (x :: a)).count t =
      (slice text x.start x.stop).count t + (deleted text a).count t := by
  simp [deleted, List.count_append]

/-- What both take out, each of them takes out. -/
theorem count_deletedByBoth_le {len : Nat} {n : Nat} :
    ∀ {pos pos' : Nat} {a b : List (Hunk γ)}, Forward len pos a → Forward len pos' b →
      (deletedByBoth text n a b).count t ≤ (deleted text a).count t ∧
        (deletedByBoth text n a b).count t ≤ (deleted text b).count t := by
  induction n with
  | zero => intro _ _ a b _ _; simp [deletedByBoth]
  | succ n ih =>
      intro pos pos' a b ha hb
      cases a with
      | nil => simp
      | cons x a =>
          cases b with
          | nil => simp
          | cons y b =>
              have hacons := count_deleted_cons text t x a
              have hbcons := count_deleted_cons text t y b
              rw [deletedByBoth]
              split
              · rename_i hxy
                rcases ih ha.2.2 hb.2.2 with ⟨hresta, hrestb⟩
                have hx := ha.2.1
                have hy := hb.2.1
                unfold Overlaps at hxy
                -- The common range lies within the range of each.
                have hx₁ := @count_slice γ text _ t x.start (max x.start y.start) x.stop
                  (by omega) (by omega)
                have hx₂ := @count_slice γ text _ t (max x.start y.start) (min x.stop y.stop)
                  x.stop (by omega) (by omega)
                have hy₁ := @count_slice γ text _ t y.start (max x.start y.start) y.stop
                  (by omega) (by omega)
                have hy₂ := @count_slice γ text _ t (max x.start y.start) (min x.stop y.stop)
                  y.stop (by omega) (by omega)
                rw [List.count_append]
                constructor <;> omega
              · split
                · rcases ih ha.2.2 hb with ⟨hresta, hrestb⟩
                  constructor <;> omega
                · rcases ih ha hb.2.2 with ⟨hresta, hrestb⟩
                  constructor <;> omega

/-- Counts around the ranges of two overlapping hunks. -/
theorem count_overlap {pos : Nat} {x y : Hunk γ} (hx : pos ≤ x.start) (hy : pos ≤ y.start)
    (hxstop : x.start ≤ x.stop) (hystop : y.start ≤ y.stop) (hxy : x.Overlaps y) :
    (slice text pos (min x.start y.start)).count t + (slice text pos (max x.stop y.stop)).count t =
      (slice text pos x.start).count t + (slice text x.stop (max x.stop y.stop)).count t +
        ((slice text pos y.start).count t + (slice text y.stop (max x.stop y.stop)).count t) +
          (slice text (max x.start y.start) (min x.stop y.stop)).count t := by
  unfold Overlaps at hxy
  have hall := @count_slice γ text _ t pos (min x.start y.start) (max x.stop y.stop)
    (by omega) (by omega)
  have h₁ := @count_slice γ text _ t pos (min x.start y.start) (max x.start y.start)
    (by omega) (by omega)
  have h₂ := @count_slice γ text _ t (min x.start y.start) (max x.start y.start)
    (max x.stop y.stop) (by omega) (by omega)
  have h₃ := @count_slice γ text _ t (max x.start y.start) (min x.stop y.stop)
    (max x.stop y.stop) (by omega) (by omega)
  have hself : ∀ i, (slice text i i).count t = 0 := by simp [slice]
  have hmax := hself (max x.stop y.stop)
  rcases Nat.le_total x.start y.start with hstart | hstart <;>
    rcases Nat.le_total x.stop y.stop with hstop | hstop <;>
      simp only [hstart, hstop, Nat.min_eq_left, Nat.min_eq_right, Nat.max_eq_left,
        Nat.max_eq_right] at * <;> omega

/-- A merge has what both sides have, but what both take out only one of them takes out. -/
theorem count_mergeFrom {len : Nat} {join : List γ → List γ → List γ} {n : Nat} :
    ∀ {pos : Nat} {a b : List (Hunk γ)}, a.length + b.length ≤ n → Forward len pos a →
      Forward len pos b → OneToOne a b → JoinsBoth join a b →
        (mergeFrom text join n pos a b).count t + (text.drop pos).count t =
          (applyFrom text pos a).count t + (applyFrom text pos b).count t +
            (deletedByBoth text n a b).count t := by
  induction n with
  | zero =>
      intro pos a b hn ha hb _ _
      have hanil : a = [] := List.length_eq_zero_iff.1 (by omega)
      have hbnil : b = [] := List.length_eq_zero_iff.1 (by omega)
      subst hanil hbnil
      simp [mergeFrom, applyFrom, deletedByBoth]
  | succ n ih =>
      intro pos a b hn ha hb hone hjoin
      cases a with
      | nil =>
          cases b with
          | nil => simp [mergeFrom, applyFrom, deletedByBoth]
          | cons y b =>
              have hrest := @ih y.stop [] b (by simp at hn ⊢; omega) hb.2.2.le_length hb.2.2
                hone.tail_right (fun x hx => by cases hx)
              have hpos := count_drop text t (Nat.le_trans hb.1 hb.2.1)
              simp only [mergeFrom, applyFrom, deletedByBoth_nil_left, List.count_append,
                List.count_nil] at hrest ⊢
              omega
      | cons x a =>
          cases b with
          | nil =>
              have hrest := @ih x.stop a [] (by simp at hn ⊢; omega) ha.2.2 ha.2.2.le_length
                hone.tail (fun x' hx' y hy => by cases hy)
              have hpos := count_drop text t (Nat.le_trans ha.1 ha.2.1)
              simp only [mergeFrom, applyFrom, deletedByBoth_nil_right, List.count_append,
                List.count_nil] at hrest ⊢
              omega
          | cons y b =>
              rw [mergeFrom, deletedByBoth]
              simp only [List.length_cons] at hn
              by_cases hxy : x.Overlaps y
              · -- The two are replaced together.
                have hxlen := ha.2.2.le_length
                have hylen := hb.2.2.le_length
                have hyx := (overlaps_comm x y).1 hxy
                have ha' := Forward.past_overlap ha.2.1 hylen hxy ha.2.2 (hone.not_overlaps hxy)
                have hb' := Forward.past_overlap hb.2.1 hxlen hyx hb.2.2
                  ((hone.symm overlaps_comm).not_overlaps hyx)
                rw [Nat.max_comm] at hb'
                have hrest := @ih (max x.stop y.stop) a b (by omega) ha' hb'
                  hone.tail.tail_right fun x' hx' y' hy' =>
                    hjoin x' (List.mem_cons_of_mem _ hx') y' (List.mem_cons_of_mem _ hy')
                have hainner := count_applyFrom_of_le text t (Nat.le_max_left x.stop y.stop) ha'
                have hbinner := count_applyFrom_of_le text t (Nat.le_max_right x.stop y.stop) hb'
                have hxstart := ha.1
                have hxstop := ha.2.1
                have hpos := @count_drop γ text _ t pos (max x.stop y.stop) (by omega)
                have hranges := count_overlap text t ha.1 hb.1 ha.2.1 hb.2.1 hxy
                have hboth := hjoin x List.mem_cons_self y List.mem_cons_self hxy
                rw [if_pos hxy, if_pos hxy, hboth]
                simp only [applyFrom, List.count_append] at hrest ⊢
                omega
              · rw [if_neg hxy, if_neg hxy]
                by_cases hle : x.start ≤ y.start
                · rw [if_pos hle, if_pos hle]
                  have hb' := forward_stop_of_not_overlaps hxy hle hb
                  have hrest := @ih x.stop a (y :: b) (by simp only [List.length_cons]; omega)
                    ha.2.2 hb' hone.tail (fun x' hx' => hjoin x' (List.mem_cons_of_mem _ hx'))
                  have hpos := count_drop text t (Nat.le_trans ha.1 ha.2.1)
                  have hother := count_applyFrom_of_le text t (Nat.le_trans ha.1 ha.2.1) hb'
                  have hthis : (applyFrom text pos (x :: a)).count t =
                      (slice text pos x.start).count t + x.insert.count t +
                        (applyFrom text x.stop a).count t := by
                    simp only [applyFrom, List.count_append]
                  simp only [List.count_append] at hrest ⊢
                  omega
                · rw [if_neg hle, if_neg hle]
                  have ha' := forward_stop_of_not_overlaps
                    (fun h => hxy ((overlaps_comm x y).2 h)) (by omega) ha
                  have hrest := @ih y.stop (x :: a) b (by simp only [List.length_cons]; omega)
                    ha' hb.2.2 hone.tail_right
                    (fun x' hx' y' hy' => hjoin x' hx' y' (List.mem_cons_of_mem _ hy'))
                  have hpos := count_drop text t (Nat.le_trans hb.1 hb.2.1)
                  have hother := count_applyFrom_of_le text t (Nat.le_trans hb.1 hb.2.1) ha'
                  have hthis : (applyFrom text pos (y :: b)).count t =
                      (slice text pos y.start).count t + y.insert.count t +
                        (applyFrom text y.stop b).count t := by
                    simp only [applyFrom, List.count_append]
                  simp only [List.count_append] at hrest ⊢
                  omega

end Count

/-! ## Whole lists -/

/-- The list with the ranges replaced. -/
def apply (text : List γ) (hs : List (Hunk γ)) : List γ :=
  applyFrom text 0 hs

def merge (text : List γ) (join : List γ → List γ → List γ) (a b : List (Hunk γ)) : List γ :=
  mergeFrom text join (a.length + b.length) 0 a b

section Merge

variable [DecidableEq γ] {text : List γ} {join : List γ → List γ → List γ} {a b : List (Hunk γ)}
  {t : γ}

/-- An element that the hunks do not insert is left where they do not take it out. -/
theorem count_apply_add (ha : Forward text.length 0 a) :
    (apply text a).count t + (deleted text a).count t =
      text.count t + (inserted a).count t :=
  count_applyFrom text t ha

/-- An element of the list that neither side inserts stays just where both sides keep it. -/
theorem count_merge_of_mem (ha : Forward text.length 0 a) (hb : Forward text.length 0 b)
    (hone : OneToOne a b) (hjoin : JoinsBoth join a b) (ht : text.count t = 1)
    (hinsa : t ∉ inserted a) (hinsb : t ∉ inserted b) :
    (merge text join a b).count t = if t ∈ apply text a ∧ t ∈ apply text b then 1 else 0 := by
  have hmerge := count_mergeFrom text t (Nat.le_refl _) ha hb hone hjoin
  rcases @count_deletedByBoth_le γ text _ t _ (a.length + b.length) _ _ _ _ ha hb
    with ⟨hbotha, hbothb⟩
  have hcounta := @count_apply_add γ _ text a t ha
  have hcountb := @count_apply_add γ _ text b t hb
  rw [List.count_eq_zero_of_not_mem hinsa] at hcounta
  rw [List.count_eq_zero_of_not_mem hinsb] at hcountb
  rw [List.drop_zero] at hmerge
  unfold merge apply at *
  split
  · rename_i hmem
    have hposa := List.count_pos_iff.2 hmem.1
    have hposb := List.count_pos_iff.2 hmem.2
    omega
  · rename_i hmem
    by_cases hmema : t ∈ applyFrom text 0 a
    · have hmemb := List.count_eq_zero_of_not_mem fun h => hmem ⟨hmema, h⟩
      omega
    · have hzero := List.count_eq_zero_of_not_mem hmema
      omega

/-- An element that the list does not have is there as often as the two sides have it. -/
theorem count_merge_of_not_mem (ha : Forward text.length 0 a) (hb : Forward text.length 0 b)
    (hone : OneToOne a b) (hjoin : JoinsBoth join a b) (ht : t ∉ text) :
    (merge text join a b).count t = (apply text a).count t + (apply text b).count t := by
  have hmerge := count_mergeFrom text t (Nat.le_refl _) ha hb hone hjoin
  have hdeleted := @count_apply_add γ _ text a t ha
  rcases @count_deletedByBoth_le γ text _ t _ (a.length + b.length) _ _ _ _ ha hb
    with ⟨hboth, _⟩
  have hnone : (deleted text a).count t = 0 := by
    refine List.count_eq_zero_of_not_mem fun hmem => ht ?_
    rcases List.mem_flatMap.1 hmem with ⟨x, _, hx⟩
    exact List.mem_of_mem_drop (List.mem_of_mem_take hx)
  rw [List.drop_zero, List.count_eq_zero_of_not_mem ht] at hmerge
  unfold merge apply
  omega

end Merge

/-! ## Hunks from the start on -/

/-- The hunks lie in order and within the length, with something between two of them, and none of
them is empty. -/
structure Spaced (len : Nat) (hs : List (Hunk γ)) : Prop where
  within : ∀ h ∈ hs, h.start ≤ h.stop ∧ h.stop ≤ len
  apart : hs.Pairwise fun x y => x.stop < y.start
  nonempty : ∀ h ∈ hs, h.start < h.stop ∨ h.insert ≠ []

/-- Where the last hunk stops. -/
def reached : Nat → List (Hunk γ) → Nat
  | pos, [] => pos
  | _, h :: hs => reached h.stop hs

/-- The list from `pos` on up to where the last hunk stops, with the ranges replaced. -/
def output (text : List γ) : Nat → List (Hunk γ) → List γ
  | _, [] => []
  | pos, h :: hs => slice text pos h.start ++ h.insert ++ output text h.stop hs

section Spaced

variable {text : List γ} {len pos : Nat} {hs : List (Hunk γ)} {h : Hunk γ}

theorem reached_concat : reached pos (hs ++ [h]) = h.stop := by
  induction hs generalizing pos with
  | nil => rfl
  | cons x hs ih => exact ih

theorem output_concat : output text pos (hs ++ [h]) =
    output text pos hs ++ slice text (reached pos hs) h.start ++ h.insert := by
  induction hs generalizing pos with
  | nil => simp [output, reached]
  | cons x hs ih => simp [output, reached, ih]

theorem applyFrom_eq :
    applyFrom text pos hs = output text pos hs ++ text.drop (reached pos hs) := by
  induction hs generalizing pos with
  | nil => simp [applyFrom, output, reached]
  | cons x hs ih => simp [applyFrom, output, reached, ih]

theorem Spaced.nil : Spaced len ([] : List (Hunk γ)) :=
  ⟨by simp, by simp, by simp⟩

theorem Spaced.mono (hsp : Spaced len hs) {len' : Nat} (hle : len ≤ len') : Spaced len' hs :=
  ⟨fun h hh => ⟨(hsp.within h hh).1, Nat.le_trans (hsp.within h hh).2 hle⟩, hsp.apart, hsp.nonempty⟩

theorem Spaced.concat (hsp : Spaced len hs) (hbefore : ∀ x ∈ hs, x.stop < h.start)
    (hwithin : h.start ≤ h.stop ∧ h.stop ≤ len) (hne : h.start < h.stop ∨ h.insert ≠ []) :
    Spaced len (hs ++ [h]) := by
  constructor
  · intro x hx
    rcases List.mem_append.1 hx with hold | hnew
    · exact hsp.within x hold
    · obtain rfl : x = h := by simpa using hnew
      exact hwithin
  · refine List.pairwise_append.2 ⟨hsp.apart, List.pairwise_singleton _ _, fun x hx y hy => ?_⟩
    obtain rfl : y = h := by simpa using hy
    exact hbefore x hx
  · intro x hx
    rcases List.mem_append.1 hx with hold | hnew
    · exact hsp.nonempty x hold
    · obtain rfl : x = h := by simpa using hnew
      exact hne

theorem Spaced.of_concat (hsp : Spaced len (hs ++ [h])) :
    Spaced len hs ∧ (∀ x ∈ hs, x.stop < h.start) ∧ (h.start ≤ h.stop ∧ h.stop ≤ len) ∧
      (h.start < h.stop ∨ h.insert ≠ []) := by
  have happ := List.pairwise_append.1 hsp.apart
  refine ⟨⟨fun x hx => hsp.within x (by simp [hx]), happ.1,
    fun x hx => hsp.nonempty x (by simp [hx])⟩, fun x hx => happ.2.2 x hx h (by simp),
    hsp.within h (by simp), hsp.nonempty h (by simp)⟩

theorem Spaced.reached_le (hsp : Spaced len hs) : reached 0 hs ≤ len := by
  rcases List.eq_nil_or_concat' hs with rfl | ⟨hs, h, rfl⟩
  · exact Nat.zero_le len
  · rw [reached_concat]
    exact (hsp.within h (by simp)).2

theorem Spaced.forward (hsp : Spaced len hs) : Forward len 0 hs := by
  have hfrom : ∀ {pos : Nat}, pos ≤ len → (∀ x ∈ hs, pos ≤ x.start) → Forward len pos hs := by
    induction hs with
    | nil => exact fun hpos _ => hpos
    | cons x hs ih =>
        intro pos _ hstart
        have hpair := List.pairwise_cons.1 hsp.apart
        have hx := hsp.within x List.mem_cons_self
        have htail : Spaced len hs :=
          ⟨fun y hy => hsp.within y (List.mem_cons_of_mem _ hy), hpair.2,
            fun y hy => hsp.nonempty y (List.mem_cons_of_mem _ hy)⟩
        exact ⟨hstart x List.mem_cons_self, hx.1,
          ih htail hx.2 fun y hy => Nat.le_of_lt (hpair.1 y hy)⟩
  exact hfrom (Nat.zero_le len) fun _ _ => Nat.zero_le _

end Spaced

end Hunk

end Lib
end Reflectdb
