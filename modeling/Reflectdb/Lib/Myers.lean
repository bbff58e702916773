import Mathlib.Data.List.Basic

/-!
# Myers — the greedy search for an edit path

A path through two lists keeps common elements and deletes and inserts others.  The search goes by
the number of edits `d` and the diagonal `k`, and keeps the furthest point `x`, `x - k` that it
finds on each.  It does not look at the ends of the lists, and may pass them; but in the first round
in which it reaches both ends it is at the corner, and from there a path can be read off backwards.
-/

namespace Reflectdb
namespace Lib

variable {α ε : Type}

/-! ## Paths -/

/-- The edits of a path from the start of both lists to the points `x` and `y`; each edit is made at
a point. -/
inductive EditPath (del ins : Int → Int → ε) (old new : List α) : List ε → Nat → Nat → Prop
  | start : EditPath del ins old new [] 0 0
  | keep {es : List ε} {x y : Nat} {c : α} : EditPath del ins old new es x y → old[x]? = some c →
      new[y]? = some c → EditPath del ins old new es (x + 1) (y + 1)
  | del {es : List ε} {x y : Nat} : EditPath del ins old new es x y → x < old.length →
      EditPath del ins old new (es ++ [del x y]) (x + 1) y
  | ins {es : List ε} {x y : Nat} : EditPath del ins old new es x y → y < new.length →
      EditPath del ins old new (es ++ [ins x y]) x (y + 1)

variable [DecidableEq α]

/-- How many elements two lists have in common from their start on. -/
def commonPrefix : List α → List α → Nat
  | c :: a, d :: b => if c = d then commonPrefix a b + 1 else 0
  | _, _ => 0

theorem commonPrefix_le (a b : List α) :
    commonPrefix a b ≤ a.length ∧ commonPrefix a b ≤ b.length := by
  induction a generalizing b with
  | nil => simp [commonPrefix]
  | cons c a ih =>
      cases b with
      | nil => simp [commonPrefix]
      | cons d b =>
          have := ih b
          simp only [commonPrefix, List.length_cons]
          split <;> omega

theorem getElem?_of_lt_commonPrefix {a b : List α} {i : Nat} (h : i < commonPrefix a b) :
    ∃ c, a[i]? = some c ∧ b[i]? = some c := by
  induction a generalizing b i with
  | nil => simp [commonPrefix] at h
  | cons c a ih =>
      cases b with
      | nil => simp [commonPrefix] at h
      | cons d b =>
          simp only [commonPrefix] at h
          split at h
          · rename_i hcd
            cases i with
            | zero => exact ⟨c, by simp, by simp [hcd]⟩
            | succ i => simpa using ih (Nat.lt_of_succ_lt_succ h)
          · omega

/-- Equal elements are kept. -/
theorem EditPath.keep_common {del ins : Int → Int → ε} {old new : List α} {es : List ε} {x y : Nat}
    (h : EditPath del ins old new es x y) {j : Nat}
    (hj : j ≤ commonPrefix (old.drop x) (new.drop y)) :
    EditPath del ins old new es (x + j) (y + j) := by
  induction j with
  | zero => exact h
  | succ j ih =>
      obtain ⟨c, hold, hnew⟩ := getElem?_of_lt_commonPrefix hj
      rw [List.getElem?_drop] at hold hnew
      exact (ih (by omega)).keep hold hnew

/-! ## The search -/

/-- The diagonals of the round with `d` edits. -/
def Diagonal (d : Nat) (k : Int) : Prop :=
  -d ≤ k ∧ k ≤ d ∧ (k + d) % 2 = 0

/-- Whether diagonal `k` is reached by an insertion, from the points `prev` of the round before. -/
def GoesDown (prev : Int → Int) (d : Nat) (k : Int) : Prop :=
  k = -d ∨ (k ≠ d ∧ prev (k - 1) < prev (k + 1))

instance (prev : Int → Int) (d : Nat) (k : Int) : Decidable (GoesDown prev d k) :=
  inferInstanceAs (Decidable (_ ∨ _))

def entry (prev : Int → Int) (d : Nat) (k : Int) : Int :=
  if GoesDown prev d k then prev (k + 1) else prev (k - 1) + 1

section Search

variable (old new : List α)

/-- The point after the elements in common from `x` on. -/
def slide (x k : Int) : Int :=
  x + commonPrefix (old.drop x.toNat) (new.drop (x - k).toNat)

/-- The furthest point on diagonal `k` with `d` edits. -/
def furthest : Nat → Int → Int
  | 0 => fun k => slide old new (entry (fun _ => 0) 0 k) k
  | d + 1 => fun k => slide old new (entry (furthest d) (d + 1) k) k

/-- Both ends are reached with `d` edits. -/
def ReachesEnds (d : Nat) : Prop :=
  ∃ k, Diagonal d k ∧ old.length ≤ furthest old new d k ∧ new.length ≤ furthest old new d k - k

/-- The edits that lead to the point `x`, `y` of round `d`. -/
def backtrack (del ins : Int → Int → ε) : Nat → Int → Int → List ε
  | 0, _, _ => []
  | d + 1, x, y =>
    let k := x - y
    if GoesDown (furthest old new d) (d + 1) k then
      let prevX := furthest old new d (k + 1)
      let prevY := prevX - (k + 1)
      backtrack del ins d prevX prevY ++ [ins prevX prevY]
    else
      let prevX := furthest old new d (k - 1)
      let prevY := prevX - (k - 1)
      backtrack del ins d prevX prevY ++ [del prevX prevY]

variable {old new}

theorem Diagonal.down {d : Nat} {k : Int} (h : Diagonal (d + 1) k) {prev : Int → Int}
    (hdown : GoesDown prev (d + 1) k) : Diagonal d (k + 1) := by
  unfold Diagonal at *
  unfold GoesDown at hdown
  omega

theorem Diagonal.right {d : Nat} {k : Int} (h : Diagonal (d + 1) k) {prev : Int → Int}
    (hdown : ¬ GoesDown prev (d + 1) k) : Diagonal d (k - 1) := by
  unfold Diagonal at *
  unfold GoesDown at hdown
  omega

variable (old new) in
theorem le_slide (x k : Int) : x ≤ slide old new x k := by
  unfold slide
  omega

/-- A point that moves stays within both lists. -/
theorem slide_le {x k : Int} (hx : 0 ≤ x) (hy : 0 ≤ x - k) (h : x < slide old new x k) :
    slide old new x k ≤ old.length ∧ slide old new x k - k ≤ new.length := by
  have hle := commonPrefix_le (old.drop x.toNat) (new.drop (x - k).toNat)
  rw [List.length_drop, List.length_drop] at hle
  unfold slide at *
  omega

variable (old new) in
theorem furthest_succ (d : Nat) (k : Int) :
    furthest old new (d + 1) k = slide old new (entry (furthest old new d) (d + 1) k) k :=
  rfl

variable (old new) in
theorem furthest_zero (k : Int) (h : Diagonal 0 k) :
    k = 0 ∧ furthest old new 0 k = commonPrefix old new := by
  have hk : k = 0 := by
    unfold Diagonal at h
    omega
  subst hk
  exact ⟨rfl, by simp [furthest, entry, GoesDown, slide]⟩

variable (old new) in
/-- The points are in neither list before its start. -/
theorem furthest_nonneg {d : Nat} {k : Int} (h : Diagonal d k) :
    0 ≤ furthest old new d k ∧ 0 ≤ furthest old new d k - k := by
  induction d generalizing k with
  | zero =>
      rcases furthest_zero old new k h with ⟨rfl, hx⟩
      omega
  | succ d ih =>
      have hle := le_slide old new (entry (furthest old new d) (d + 1) k) k
      rw [furthest_succ]
      unfold entry at *
      split at hle
      · rename_i hdown
        have := ih (h.down hdown)
        rw [if_pos hdown]
        omega
      · rename_i hdown
        have := ih (h.right hdown)
        rw [if_neg hdown]
        omega

variable (old new) in
/-- A round gets as far as an insertion after the round before, and as a deletion. -/
theorem furthest_le_down {d : Nat} {k : Int} (h : Diagonal d (k + 1)) :
    furthest old new d (k + 1) ≤ furthest old new (d + 1) k := by
  have hle := le_slide old new (entry (furthest old new d) (d + 1) k) k
  rw [furthest_succ]
  refine Int.le_trans ?_ hle
  unfold entry
  split
  · exact Int.le_refl _
  · rename_i hdown
    unfold GoesDown at hdown
    unfold Diagonal at h
    omega

variable (old new) in
theorem furthest_le_right {d : Nat} {k : Int} (h : Diagonal d (k - 1)) :
    furthest old new d (k - 1) + 1 ≤ furthest old new (d + 1) k := by
  have hle := le_slide old new (entry (furthest old new d) (d + 1) k) k
  rw [furthest_succ]
  refine Int.le_trans ?_ hle
  unfold entry
  split
  · rename_i hdown
    unfold GoesDown at hdown
    unfold Diagonal at h
    omega
  · exact Int.le_refl _

variable (old new) in
/-- The point of a round, and the point that it was entered by. -/
theorem furthest_entered {d : Nat} {k : Int} (h : Diagonal (d + 1) k) :
    ∃ k', Diagonal d k' ∧ (k' = k + 1 ∧ furthest old new d k' ≤ furthest old new (d + 1) k ∨
        k' = k - 1 ∧ furthest old new d k' + 1 ≤ furthest old new (d + 1) k) ∧
      (furthest old new (d + 1) k ≤ old.length ∧ furthest old new (d + 1) k - k ≤ new.length ∨
        furthest old new (d + 1) k =
          if k' = k + 1 then furthest old new d k' else furthest old new d k' + 1) := by
  have hmoved : ∀ {x : Int}, 0 ≤ x → 0 ≤ x - k →
      entry (furthest old new d) (d + 1) k = x →
      furthest old new (d + 1) k ≤ old.length ∧ furthest old new (d + 1) k - k ≤ new.length ∨
        furthest old new (d + 1) k = x := by
    intro x hx hy hentry
    rw [furthest_succ, hentry]
    rcases Int.lt_or_eq_of_le (le_slide old new x k) with hlt | heq
    · exact Or.inl (slide_le hx hy hlt)
    · exact Or.inr heq.symm
  by_cases hdown : GoesDown (furthest old new d) (d + 1) k
  · have hk := h.down hdown
    have hnonneg := furthest_nonneg old new hk
    refine ⟨k + 1, hk, Or.inl ⟨rfl, furthest_le_down old new hk⟩, ?_⟩
    rw [if_pos rfl]
    exact hmoved hnonneg.1 (by omega) (by rw [entry, if_pos hdown])
  · have hk := h.right hdown
    have hnonneg := furthest_nonneg old new hk
    refine ⟨k - 1, hk, Or.inr ⟨rfl, furthest_le_right old new hk⟩, ?_⟩
    rw [if_neg (by omega)]
    exact hmoved (by omega) (by omega) (by rw [entry, if_neg hdown])

/-- What lies beyond the end of `old` was entered from its end, as many rounds ago. -/
theorem end_of_old_passed {d : Nat} {k : Int} (h : Diagonal d k)
    (hx : old.length ≤ furthest old new d k) (hy : furthest old new d k - k ≤ new.length) :
    ∃ j : Nat, j + (furthest old new d k - old.length) = d ∧
      Diagonal j (old.length - (furthest old new d k - k)) ∧
        old.length ≤ furthest old new j (old.length - (furthest old new d k - k)) := by
  induction d generalizing k with
  | zero =>
      rcases furthest_zero old new k h with ⟨rfl, hfar⟩
      have hle := commonPrefix_le old new
      have heq : furthest old new 0 0 = old.length := by omega
      rw [heq]
      refine ⟨0, by omega, by simpa using h, ?_⟩
      simpa using hx
  | succ d ih =>
      rcases Int.lt_or_eq_of_le hx with hlt | heq
      · obtain ⟨k', hk', hfrom, hstay⟩ := furthest_entered old new h
        rcases hfrom with ⟨rfl, hle⟩ | ⟨rfl, hle⟩
        · have hfar : furthest old new (d + 1) k = furthest old new d (k + 1) := by
            rw [if_pos rfl] at hstay
            omega
          obtain ⟨j, hj, hdiag, hreach⟩ := ih hk' (by omega) (by omega)
          -- One insertion more after the end was reached.
          have hk : (old.length : Int) - (furthest old new d (k + 1) - (k + 1)) =
              old.length - (furthest old new (d + 1) k - k) + 1 := by omega
          rw [hk] at hdiag hreach
          refine ⟨j + 1, by omega, ?_, Int.le_trans hreach (furthest_le_down old new hdiag)⟩
          unfold Diagonal at *
          omega
        · have hfar : furthest old new (d + 1) k = furthest old new d (k - 1) + 1 := by
            rw [if_neg (by omega)] at hstay
            omega
          obtain ⟨j, hj, hdiag, hreach⟩ := ih hk' (by omega) (by omega)
          have hk : (old.length : Int) - (furthest old new d (k - 1) - (k - 1)) =
              old.length - (furthest old new (d + 1) k - k) := by omega
          rw [hk] at hdiag hreach
          exact ⟨j, by omega, hdiag, hreach⟩
      · have hk : (old.length : Int) - (furthest old new (d + 1) k - k) = k := by omega
        rw [hk]
        exact ⟨d + 1, by omega, h, hx⟩

/-- In the same way for the end of `new`. -/
theorem end_of_new_passed {d : Nat} {k : Int} (h : Diagonal d k)
    (hx : furthest old new d k ≤ old.length) (hy : new.length ≤ furthest old new d k - k) :
    ∃ j : Nat, j + (furthest old new d k - k - new.length) = d ∧
      Diagonal j (furthest old new d k - new.length) ∧
        furthest old new d k ≤ furthest old new j (furthest old new d k - new.length) := by
  induction d generalizing k with
  | zero =>
      rcases furthest_zero old new k h with ⟨rfl, hfar⟩
      have hle := commonPrefix_le old new
      have heq : furthest old new 0 0 = new.length := by omega
      rw [heq]
      refine ⟨0, by omega, by simpa using h, ?_⟩
      simp [heq]
  | succ d ih =>
      rcases Int.lt_or_eq_of_le hy with hlt | heq
      · obtain ⟨k', hk', hfrom, hstay⟩ := furthest_entered old new h
        rcases hfrom with ⟨rfl, hle⟩ | ⟨rfl, hle⟩
        · have hfar : furthest old new (d + 1) k = furthest old new d (k + 1) := by
            rw [if_pos rfl] at hstay
            omega
          obtain ⟨j, hj, hdiag, hreach⟩ := ih hk' (by omega) (by omega)
          rw [← hfar] at hdiag hreach
          exact ⟨j, by omega, hdiag, hreach⟩
        · have hfar : furthest old new (d + 1) k = furthest old new d (k - 1) + 1 := by
            rw [if_neg (by omega)] at hstay
            omega
          obtain ⟨j, hj, hdiag, hreach⟩ := ih hk' (by omega) (by omega)
          -- One deletion more after the end was reached.
          have hk : furthest old new d (k - 1) - new.length =
              furthest old new (d + 1) k - new.length - 1 := by omega
          rw [hk] at hdiag hreach
          have hright := furthest_le_right old new hdiag
          refine ⟨j + 1, by omega, ?_, by omega⟩
          unfold Diagonal at *
          omega
      · have hk : furthest old new (d + 1) k - new.length = k := by omega
        rw [hk]
        exact ⟨d + 1, by omega, h, Int.le_refl _⟩

/-- The first round that reaches both ends is at the corner. -/
theorem corner_of_first {d : Nat} (hfirst : ∀ j < d, ¬ ReachesEnds old new j) {k : Int}
    (h : Diagonal d k) (hx : old.length ≤ furthest old new d k)
    (hy : new.length ≤ furthest old new d k - k) :
    furthest old new d k = old.length ∧ furthest old new d k - k = new.length := by
  rcases Int.lt_or_eq_of_le hx with hxlt | hxeq
  · rcases Int.lt_or_eq_of_le hy with hylt | hyeq
    · -- Beyond both ends: the round before had reached them.
      cases d with
      | zero =>
          rcases furthest_zero old new k h with ⟨rfl, hfar⟩
          have hle := commonPrefix_le old new
          omega
      | succ d =>
          obtain ⟨k', hk', hfrom, hstay⟩ := furthest_entered old new h
          refine absurd ⟨k', hk', ?_⟩ (hfirst d (Nat.lt_succ_self d))
          rcases hfrom with ⟨rfl, hle⟩ | ⟨rfl, hle⟩
          · rw [if_pos rfl] at hstay
            omega
          · rw [if_neg (by omega)] at hstay
            omega
    · obtain ⟨j, hj, hdiag, hreach⟩ := end_of_old_passed h hx (by omega)
      exact absurd ⟨_, hdiag, hreach, by omega⟩ (hfirst j (by omega))
  · rcases Int.lt_or_eq_of_le hy with hylt | hyeq
    · obtain ⟨j, hj, hdiag, hreach⟩ := end_of_new_passed h (by omega) hy
      exact absurd ⟨_, hdiag, by omega, by omega⟩ (hfirst j (by omega))
    · exact ⟨hxeq.symm, hyeq.symm⟩

/-! ## The way back -/

variable (old new) in
/-- A point of a round that lies in both lists is the end of the path that is read off. -/
theorem path_backtrack (del ins : Int → Int → ε) {d : Nat} {k : Int} (h : Diagonal d k)
    (hx : furthest old new d k ≤ old.length) (hy : furthest old new d k - k ≤ new.length) :
    EditPath del ins old new
      (backtrack old new del ins d (furthest old new d k) (furthest old new d k - k))
      (furthest old new d k).toNat (furthest old new d k - k).toNat := by
  induction d generalizing k with
  | zero =>
      rcases furthest_zero old new k h with ⟨rfl, hfar⟩
      have hpath := (EditPath.start : EditPath del ins old new [] 0 0).keep_common
        (j := commonPrefix old new) (by simp)
      simpa [backtrack, hfar] using hpath
  | succ d ih =>
      have hk : furthest old new (d + 1) k - (furthest old new (d + 1) k - k) = k := by omega
      have hfar := furthest_succ old new d k
      rw [backtrack]
      simp only [hk]
      by_cases hdown : GoesDown (furthest old new d) (d + 1) k
      · have hk' := h.down hdown
        have hnonneg := furthest_nonneg old new hk'
        have hle := furthest_le_down old new hk'
        have hprev := ih hk' (by omega) (by omega)
        rw [entry, if_pos hdown, slide] at hfar
        rw [if_pos hdown]
        obtain ⟨x, hx'⟩ := Int.eq_ofNat_of_zero_le hnonneg.1
        obtain ⟨y, hy'⟩ := Int.eq_ofNat_of_zero_le hnonneg.2
        rw [hy', hx'] at hprev ⊢
        have hstart : (furthest old new d (k + 1) - k).toNat = y + 1 := by omega
        rw [hstart, hx'] at hfar
        have hpath := (hprev.ins (by simp only [Int.toNat_natCast]; omega)).keep_common
          (Nat.le_refl _)
        simp only [Int.toNat_natCast] at hpath hfar
        have hxEnd : (furthest old new (d + 1) k).toNat =
            x + commonPrefix (old.drop x) (new.drop (y + 1)) := by omega
        have hyEnd : (furthest old new (d + 1) k - k).toNat =
            y + 1 + commonPrefix (old.drop x) (new.drop (y + 1)) := by omega
        rw [hxEnd, hyEnd]
        exact hpath
      · have hk' := h.right hdown
        have hnonneg := furthest_nonneg old new hk'
        have hle := furthest_le_right old new hk'
        have hprev := ih hk' (by omega) (by omega)
        rw [entry, if_neg hdown, slide] at hfar
        rw [if_neg hdown]
        obtain ⟨x, hx'⟩ := Int.eq_ofNat_of_zero_le hnonneg.1
        obtain ⟨y, hy'⟩ := Int.eq_ofNat_of_zero_le hnonneg.2
        rw [hy', hx'] at hprev ⊢
        have hstartX : (furthest old new d (k - 1) + 1).toNat = x + 1 := by omega
        have hstartY : (furthest old new d (k - 1) + 1 - k).toNat = y := by omega
        rw [hstartX, hstartY, hx'] at hfar
        have hpath := (hprev.del (by simp only [Int.toNat_natCast]; omega)).keep_common
          (Nat.le_refl _)
        simp only [Int.toNat_natCast] at hpath hfar
        have hxEnd : (furthest old new (d + 1) k).toNat =
            x + 1 + commonPrefix (old.drop (x + 1)) (new.drop y) := by omega
        have hyEnd : (furthest old new (d + 1) k - k).toNat =
            y + commonPrefix (old.drop (x + 1)) (new.drop y) := by omega
        rw [hxEnd, hyEnd]
        exact hpath

/-- The way back from the corner, in the first round that reaches both ends. -/
theorem path_of_first (del ins : Int → Int → ε) {d : Nat} (hreach : ReachesEnds old new d)
    (hfirst : ∀ j < d, ¬ ReachesEnds old new j) :
    EditPath del ins old new (backtrack old new del ins d old.length new.length) old.length
      new.length := by
  rcases hreach with ⟨k, hk, hx, hy⟩
  rcases corner_of_first hfirst hk hx hy with ⟨hxEnd, hyEnd⟩
  have hpath := path_backtrack old new del ins hk (by omega) (by omega)
  rw [hyEnd, hxEnd] at hpath
  simpa using hpath

end Search

end Lib
end Reflectdb
