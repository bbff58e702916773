import Mathlib.Data.List.Sort
import Reflectdb.Lib.HunkTrace

/-!
# Hunk rounds — the hunks that a merge takes together

A merge of two lists of hunks goes round by round: a round takes two hunks that overlap, or one by
itself, and replaces their range.  The elements that neither side replaces come out once and in
order, if and only if no hunk taken by itself ends before a hunk of the other side that it overlaps:
behind such a hunk the merge goes back into a range that it has replaced.
-/

namespace Reflectdb
namespace Lib
namespace Hunk

variable {γ δ : Type}

/-! ## Rounds -/

inductive Round (γ : Type)
  | both (x y : Hunk γ)
  | left (x : Hunk γ)
  | right (y : Hunk γ)
  deriving DecidableEq

/-- The rounds of `mergeFrom`. -/
def roundsFrom : Nat → List (Hunk γ) → List (Hunk γ) → List (Round γ)
  | n + 1, x :: a, y :: b =>
    if x.Overlaps y then .both x y :: roundsFrom n a b
    else if x.start ≤ y.start then .left x :: roundsFrom n a (y :: b)
    else .right y :: roundsFrom n (x :: a) b
  | n + 1, x :: a, [] => .left x :: roundsFrom n a []
  | n + 1, [], y :: b => .right y :: roundsFrom n [] b
  | _, _, _ => []

def rounds (a b : List (Hunk γ)) : List (Round γ) :=
  roundsFrom (a.length + b.length) a b

namespace Round

def left? : Round γ → Option (Hunk γ)
  | .both x _ | .left x => some x
  | .right _ => none

def right? : Round γ → Option (Hunk γ)
  | .both _ y | .right y => some y
  | .left _ => none

def start : Round γ → Nat
  | .both x y => min x.start y.start
  | .left h | .right h => h.start

def stop : Round γ → Nat
  | .both x y => max x.stop y.stop
  | .left h | .right h => h.stop

def inserts (join : List γ → List γ → List γ) : Round γ → List γ
  | .both x y => join x.insert y.insert
  | .left h | .right h => h.insert

/-- The round as one hunk, with what it inserts. -/
def hunk (insert : Round γ → List δ) (r : Round γ) : Hunk δ :=
  ⟨r.start, r.stop, insert r⟩

end Round

/-- A merge applies its rounds. -/
theorem mergeFrom_eq_applyFrom (text : List γ) (join : List γ → List γ → List γ) {n : Nat} :
    ∀ {a b : List (Hunk γ)} (pos : Nat), a.length + b.length ≤ n →
      mergeFrom text join n pos a b =
        applyFrom text pos ((roundsFrom n a b).map (Round.hunk (Round.inserts join))) := by
  induction n with
  | zero =>
      intro a b pos hn
      cases a with
      | nil => cases b <;> rfl
      | cons x a => simp at hn
  | succ n ih =>
      intro a b pos hn
      cases a with
      | nil =>
          cases b with
          | nil => rfl
          | cons y b =>
              simp only [mergeFrom, roundsFrom, List.map_cons, applyFrom]
              rw [ih]
              · rfl
              · simpa using hn
      | cons x a =>
          cases b with
          | nil =>
              simp only [mergeFrom, roundsFrom, List.map_cons, applyFrom]
              rw [ih]
              · rfl
              · simpa using hn
          | cons y b =>
              simp only [List.length_cons] at hn
              simp only [mergeFrom, roundsFrom]
              split
              · rw [ih _ (by omega)]
                rfl
              · split
                · rw [ih _ (by simp only [List.length_cons]; omega)]
                  rfl
                · rw [ih _ (by simp only [List.length_cons]; omega)]
                  rfl

theorem merge_eq_apply (text : List γ) (join : List γ → List γ → List γ) (a b : List (Hunk γ)) :
    merge text join a b = apply text ((rounds a b).map (Round.hunk (Round.inserts join))) :=
  mergeFrom_eq_applyFrom text join 0 (Nat.le_refl _)

/-- The hunks that the rounds take are those of the two sides, in order. -/
structure Takes (rs : List (Round γ)) (a b : List (Hunk γ)) : Prop where
  left : rs.filterMap Round.left? = a
  right : rs.filterMap Round.right? = b

namespace Takes

variable {rs : List (Round γ)} {a b : List (Hunk γ)}

theorem both (h : Takes rs a b) (x y : Hunk γ) : Takes (.both x y :: rs) (x :: a) (y :: b) where
  left := congrArg (x :: ·) h.left
  right := congrArg (y :: ·) h.right

theorem onlyLeft (h : Takes rs a b) (x : Hunk γ) : Takes (.left x :: rs) (x :: a) b where
  left := congrArg (x :: ·) h.left
  right := h.right

theorem onlyRight (h : Takes rs a b) (y : Hunk γ) : Takes (.right y :: rs) a (y :: b) where
  left := h.left
  right := congrArg (y :: ·) h.right

theorem mem_left (h : Takes rs a b) {r : Round γ} (hr : r ∈ rs) {x : Hunk γ}
    (hx : r.left? = some x) : x ∈ a :=
  h.left ▸ List.mem_filterMap.2 ⟨r, hr, hx⟩

theorem mem_right (h : Takes rs a b) {r : Round γ} (hr : r ∈ rs) {y : Hunk γ}
    (hy : r.right? = some y) : y ∈ b :=
  h.right ▸ List.mem_filterMap.2 ⟨r, hr, hy⟩

end Takes

theorem takes_roundsFrom {n : Nat} :
    ∀ {a b : List (Hunk γ)}, a.length + b.length ≤ n → Takes (roundsFrom n a b) a b := by
  induction n with
  | zero =>
      intro a b hn
      cases a with
      | nil =>
          cases b with
          | nil => exact ⟨rfl, rfl⟩
          | cons y b => simp at hn
      | cons x a => simp at hn
  | succ n ih =>
      intro a b hn
      cases a with
      | nil =>
          cases b with
          | nil => exact ⟨rfl, rfl⟩
          | cons y b => exact (ih (by simpa using hn)).onlyRight y
      | cons x a =>
          cases b with
          | nil => exact (ih (by simpa using hn)).onlyLeft x
          | cons y b =>
              simp only [List.length_cons] at hn
              rw [roundsFrom]
              split
              · exact (ih (by omega)).both x y
              · split
                · exact (ih (by simp only [List.length_cons]; omega)).onlyLeft x
                · exact (ih (by simp only [List.length_cons]; omega)).onlyRight y

theorem takes_rounds (a b : List (Hunk γ)) : Takes (rounds a b) a b :=
  takes_roundsFrom (Nat.le_refl _)

/-- Two sides with the same hunks take them together. -/
theorem roundsFrom_self {n : Nat} :
    ∀ {hs : List (Hunk γ)}, hs.length ≤ n → roundsFrom n hs hs = hs.map fun h => .both h h := by
  induction n with
  | zero =>
      intro hs hn
      cases List.length_eq_zero_iff.1 (Nat.le_zero.1 hn)
      rfl
  | succ n ih =>
      intro hs hn
      cases hs with
      | nil => rfl
      | cons h hs =>
          have hover : h.Overlaps h := Or.inl rfl
          rw [roundsFrom, if_pos hover, ih (Nat.le_of_succ_le_succ hn)]
          rfl

theorem roundsFrom_nil_right {n : Nat} :
    ∀ {hs : List (Hunk γ)}, hs.length ≤ n → roundsFrom n hs [] = hs.map .left := by
  induction n with
  | zero =>
      intro hs hn
      cases List.length_eq_zero_iff.1 (Nat.le_zero.1 hn)
      rfl
  | succ n ih =>
      intro hs hn
      cases hs with
      | nil => rfl
      | cons h hs =>
          rw [roundsFrom, ih (Nat.le_of_succ_le_succ hn)]
          rfl

theorem roundsFrom_nil_left {n : Nat} :
    ∀ {hs : List (Hunk γ)}, hs.length ≤ n → roundsFrom n [] hs = hs.map .right := by
  induction n with
  | zero =>
      intro hs hn
      cases List.length_eq_zero_iff.1 (Nat.le_zero.1 hn)
      rfl
  | succ n ih =>
      intro hs hn
      cases hs with
      | nil => rfl
      | cons h hs =>
          rw [roundsFrom, ih (Nat.le_of_succ_le_succ hn)]
          rfl

/-- A side that changes nothing, or the same, changes nothing of what the other side makes. -/
theorem merge_nil_right (text : List γ) (join : List γ → List γ → List γ) (hs : List (Hunk γ)) :
    merge text join hs [] = apply text hs := by
  rw [merge_eq_apply, rounds, roundsFrom_nil_right (Nat.le_add_right ..), List.map_map]
  exact congrArg (apply text) (List.map_id _)

theorem merge_nil_left (text : List γ) (join : List γ → List γ → List γ) (hs : List (Hunk γ)) :
    merge text join [] hs = apply text hs := by
  rw [merge_eq_apply, rounds, roundsFrom_nil_left (by simp), List.map_map]
  exact congrArg (apply text) (List.map_id _)

theorem merge_self (text : List γ) {join : List γ → List γ → List γ}
    (hjoin : ∀ insert, join insert insert = insert) (hs : List (Hunk γ)) :
    merge text join hs hs = apply text hs := by
  rw [merge_eq_apply, rounds, roundsFrom_self (Nat.le_add_right ..), List.map_map]
  refine congrArg (apply text) ((List.map_congr_left fun h _ => ?_).trans (List.map_id _))
  simp [Round.hunk, Round.start, Round.stop, Round.inserts, hjoin]

/-! ## What the rounds before a round have taken -/

theorem Spaced.tail {len : Nat} {h : Hunk γ} {hs : List (Hunk γ)} (hsp : Spaced len (h :: hs)) :
    Spaced len hs :=
  ⟨fun x hx => hsp.within x (List.mem_cons_of_mem _ hx), (List.pairwise_cons.1 hsp.apart).2,
    fun x hx => hsp.nonempty x (List.mem_cons_of_mem _ hx)⟩

theorem Spaced.stop_lt {len : Nat} {h : Hunk γ} {hs : List (Hunk γ)} (hsp : Spaced len (h :: hs))
    {x : Hunk γ} (hx : x ∈ hs) : h.stop < x.start :=
  (List.pairwise_cons.1 hsp.apart).1 x hx

/-- After some rounds: the hunks that they took, those that are left, and the rounds that take
these.  What is left of one side does not start before what was taken of the other. -/
structure Rest (a b : List (Hunk γ)) (pre rs : List (Round γ)) (a' b' : List (Hunk γ)) (m : Nat) :
    Prop where
  left : a = pre.filterMap Round.left? ++ a'
  right : b = pre.filterMap Round.right? ++ b'
  rounds : rs = roundsFrom m a' b'
  enough : a'.length + b'.length ≤ m
  behindLeft : ∀ r ∈ pre, ∀ w, r.left? = some w → ∀ y ∈ b', w.start ≤ y.start
  behindRight : ∀ r ∈ pre, ∀ w, r.right? = some w → ∀ x ∈ a', w.start ≤ x.start

namespace Rest

variable {len m : Nat} {a b a' b' : List (Hunk γ)} {pre rs : List (Round γ)}

theorem start (hn : a.length + b.length ≤ m) : Rest a b [] (roundsFrom m a b) a b m :=
  ⟨rfl, rfl, rfl, hn, nofun, nofun⟩

theorem both {x y : Hunk γ} (h : Rest a b pre rs a' b' m) (hx : ∀ y ∈ b', x.start ≤ y.start)
    (hy : ∀ x ∈ a', y.start ≤ x.start) :
    Rest (x :: a) (y :: b) (.both x y :: pre) rs a' b' m where
  left := congrArg (x :: ·) h.left
  right := congrArg (y :: ·) h.right
  rounds := h.rounds
  enough := h.enough
  behindLeft r hr w hw := by
    rcases List.mem_cons.1 hr with rfl | hr
    · cases hw
      exact hx
    · exact h.behindLeft r hr w hw
  behindRight r hr w hw := by
    rcases List.mem_cons.1 hr with rfl | hr
    · cases hw
      exact hy
    · exact h.behindRight r hr w hw

theorem onlyLeft {x : Hunk γ} (h : Rest a b pre rs a' b' m) (hx : ∀ y ∈ b', x.start ≤ y.start) :
    Rest (x :: a) b (.left x :: pre) rs a' b' m where
  left := congrArg (x :: ·) h.left
  right := h.right
  rounds := h.rounds
  enough := h.enough
  behindLeft r hr w hw := by
    rcases List.mem_cons.1 hr with rfl | hr
    · cases hw
      exact hx
    · exact h.behindLeft r hr w hw
  behindRight r hr w hw := by
    rcases List.mem_cons.1 hr with rfl | hr
    · cases hw
    · exact h.behindRight r hr w hw

theorem onlyRight {y : Hunk γ} (h : Rest a b pre rs a' b' m) (hy : ∀ x ∈ a', y.start ≤ x.start) :
    Rest a (y :: b) (.right y :: pre) rs a' b' m where
  left := h.left
  right := congrArg (y :: ·) h.right
  rounds := h.rounds
  enough := h.enough
  behindLeft r hr w hw := by
    rcases List.mem_cons.1 hr with rfl | hr
    · cases hw
    · exact h.behindLeft r hr w hw
  behindRight r hr w hw := by
    rcases List.mem_cons.1 hr with rfl | hr
    · cases hw
      exact hy
    · exact h.behindRight r hr w hw

theorem mem_left (h : Rest a b pre rs a' b' m) {x : Hunk γ} (hx : x ∈ a') : x ∈ a :=
  h.left ▸ List.mem_append_right _ hx

theorem mem_right (h : Rest a b pre rs a' b' m) {y : Hunk γ} (hy : y ∈ b') : y ∈ b :=
  h.right ▸ List.mem_append_right _ hy

end Rest

/-- The rounds can be stopped anywhere. -/
theorem exists_rest {len n : Nat} :
    ∀ {a b : List (Hunk γ)} {pre rs : List (Round γ)}, Spaced len a → Spaced len b →
      a.length + b.length ≤ n → roundsFrom n a b = pre ++ rs →
        ∃ a' b' m, Rest a b pre rs a' b' m := by
  induction n with
  | zero =>
      intro a b pre rs _ _ hn hsplit
      have hnil : roundsFrom 0 a b = [] := by
        cases a <;> cases b <;> rfl
      rw [hnil] at hsplit
      rcases List.append_eq_nil_iff.1 hsplit.symm with ⟨rfl, rfl⟩
      exact ⟨a, b, 0, hnil ▸ Rest.start hn⟩
  | succ n ih =>
      intro a b pre rs ha hb hn hsplit
      cases pre with
      | nil =>
          rw [List.nil_append] at hsplit
          exact ⟨a, b, n + 1, hsplit ▸ Rest.start hn⟩
      | cons r pre =>
          cases a with
          | nil =>
              cases b with
              | nil => cases hsplit
              | cons y b =>
                  rcases List.cons.inj hsplit with ⟨rfl, hrest⟩
                  rcases ih ha hb.tail (by simpa using hn) hrest with ⟨a', b', m, h⟩
                  refine ⟨a', b', m, h.onlyRight fun x hx => ?_⟩
                  cases h.mem_left hx
          | cons x a =>
              cases b with
              | nil =>
                  rcases List.cons.inj hsplit with ⟨rfl, hrest⟩
                  rcases ih ha.tail hb (by simpa using hn) hrest with ⟨a', b', m, h⟩
                  refine ⟨a', b', m, h.onlyLeft fun y hy => ?_⟩
                  cases h.mem_right hy
              | cons y b =>
                  have hxstop := (ha.within x List.mem_cons_self).1
                  have hystop := (hb.within y List.mem_cons_self).1
                  simp only [List.length_cons] at hn
                  rw [roundsFrom] at hsplit
                  split at hsplit
                  · rename_i hover
                    unfold Overlaps at hover
                    rcases List.cons.inj hsplit with ⟨rfl, hrest⟩
                    rcases ih ha.tail hb.tail (by omega) hrest with ⟨a', b', m, h⟩
                    refine ⟨a', b', m, h.both (fun y' hy' => ?_) fun x' hx' => ?_⟩
                    · have := hb.stop_lt (h.mem_right hy')
                      omega
                    · have := ha.stop_lt (h.mem_left hx')
                      omega
                  · split at hsplit
                    · rename_i hle
                      rcases List.cons.inj hsplit with ⟨rfl, hrest⟩
                      rcases ih ha.tail hb (by simp only [List.length_cons]; omega) hrest
                        with ⟨a', b', m, h⟩
                      refine ⟨a', b', m, h.onlyLeft fun y' hy' => ?_⟩
                      rcases List.mem_cons.1 (h.mem_right hy') with rfl | hmem
                      · exact hle
                      · have := hb.stop_lt hmem
                        omega
                    · rename_i hle
                      rcases List.cons.inj hsplit with ⟨rfl, hrest⟩
                      rcases ih ha hb.tail (by simp only [List.length_cons]; omega) hrest
                        with ⟨a', b', m, h⟩
                      refine ⟨a', b', m, h.onlyRight fun x' hx' => ?_⟩
                      rcases List.mem_cons.1 (h.mem_left hx') with rfl | hmem
                      · omega
                      · have := ha.stop_lt hmem
                        omega


/-- What a round that is taken is, and how it goes on. -/
theorem roundsFrom_cons {m : Nat} {a b : List (Hunk γ)} {r : Round γ} {rs : List (Round γ)}
    (h : roundsFrom m a b = r :: rs) :
    (∃ x y a' b' m', a = x :: a' ∧ b = y :: b' ∧ r = .both x y ∧ rs = roundsFrom m' a' b' ∧
      x.Overlaps y) ∨
    (∃ x a' m', a = x :: a' ∧ r = .left x ∧ rs = roundsFrom m' a' b ∧
      ∀ y ∈ b.head?, ¬ x.Overlaps y ∧ x.start ≤ y.start) ∨
    (∃ y b' m', b = y :: b' ∧ r = .right y ∧ rs = roundsFrom m' a b' ∧
      ∀ x ∈ a.head?, ¬ x.Overlaps y ∧ y.start < x.start) := by
  cases m with
  | zero => cases a <;> cases b <;> cases h
  | succ m =>
      cases a with
      | nil =>
          cases b with
          | nil => cases h
          | cons y b =>
              rcases List.cons.inj h with ⟨rfl, rfl⟩
              exact Or.inr (Or.inr ⟨y, b, m, rfl, rfl, rfl, nofun⟩)
      | cons x a =>
          cases b with
          | nil =>
              rcases List.cons.inj h with ⟨rfl, rfl⟩
              exact Or.inr (Or.inl ⟨x, a, m, rfl, rfl, rfl, nofun⟩)
          | cons y b =>
              rw [roundsFrom] at h
              split at h
              · rename_i hover
                rcases List.cons.inj h with ⟨rfl, rfl⟩
                exact Or.inl ⟨x, y, a, b, m, rfl, rfl, rfl, rfl, hover⟩
              · rename_i hover
                split at h
                · rename_i hle
                  rcases List.cons.inj h with ⟨rfl, rfl⟩
                  refine Or.inr (Or.inl ⟨x, a, m, rfl, rfl, rfl, fun y' hy' => ?_⟩)
                  cases hy'
                  exact ⟨hover, hle⟩
                · rename_i hle
                  rcases List.cons.inj h with ⟨rfl, rfl⟩
                  refine Or.inr (Or.inr ⟨y, b, m, rfl, rfl, rfl, fun x' hx' => ?_⟩)
                  cases hx'
                  exact ⟨hover, Nat.lt_of_not_le hle⟩

/-! ## Kept positions -/

/-- The positions from `pos` on that hunks leave, in the order in which they come out. -/
def keptFrom (len : Nat) : Nat → List (Hunk γ) → List Nat
  | pos, [] => List.range' pos (len - pos)
  | pos, h :: hs => List.range' pos (h.start - pos) ++ keptFrom len h.stop hs

/-- Where no hunk ends before an earlier one, just the positions come out that none replaces. -/
theorem keptFrom_spec {len : Nat} {hs : List (Hunk γ)} :
    ∀ {pos : Nat}, (∀ h ∈ hs, pos ≤ h.stop) → hs.Pairwise (fun h h' => h.stop ≤ h'.stop) →
      hs.Pairwise (fun h h' => h.start ≤ h'.start) → (∀ h ∈ hs, h.start ≤ h.stop ∧ h.stop ≤ len) →
        (keptFrom len pos hs).Pairwise (· < ·) ∧
          ∀ i, i ∈ keptFrom len pos hs ↔ pos ≤ i ∧ i < len ∧ Untouched hs i := by
  induction hs with
  | nil =>
      intro pos _ _ _ _
      refine ⟨List.pairwise_lt_range', fun i => ?_⟩
      rw [keptFrom, List.mem_range'_1]
      have hnone : Untouched ([] : List (Hunk γ)) i := nofun
      simp only [hnone, and_true]
      omega
  | cons h hs ih =>
      intro pos hpos hstops hstarts hwithin
      have hh := hwithin h List.mem_cons_self
      have hpast := hpos h List.mem_cons_self
      rcases ih (List.pairwise_cons.1 hstops).1 (List.pairwise_cons.1 hstops).2
        (List.pairwise_cons.1 hstarts).2 (fun h' hh' => hwithin h' (List.mem_cons_of_mem _ hh'))
        with ⟨hsorted, hmem⟩
      constructor
      · refine List.pairwise_append.2 ⟨List.pairwise_lt_range', hsorted, fun i hi j hj => ?_⟩
        rw [List.mem_range'_1] at hi
        have := ((hmem j).1 hj).1
        omega
      · intro i
        have hcons : Untouched (h :: hs) i ↔ (i < h.start ∨ h.stop ≤ i) ∧ Untouched hs i :=
          List.forall_mem_cons
        rw [keptFrom, List.mem_append, List.mem_range'_1, hmem, hcons]
        constructor
        · rintro (hbefore | ⟨hstop, hlen, hfree⟩)
          · refine ⟨hbefore.1, by omega, Or.inl (by omega), fun h' hh' => Or.inl ?_⟩
            have := (List.pairwise_cons.1 hstarts).1 h' hh'
            omega
          · exact ⟨by omega, hlen, Or.inr hstop, hfree⟩
        · rintro ⟨hle, hlen, hbefore | hbehind, hfree⟩
          · exact Or.inl (by omega)
          · exact Or.inr ⟨hbehind, hlen, hfree⟩

/-- The position where a hunk ends comes out behind it, if every later hunk starts later. -/
theorem mem_keptFrom {len : Nat} {h : Hunk γ} {pre post : List (Hunk γ)} (hlen : h.stop < len)
    (hpost : ∀ h' ∈ post, h.stop < h'.start) :
    ∀ pos : Nat, h.stop ∈ keptFrom len pos (pre ++ h :: post) := by
  induction pre with
  | nil =>
      intro pos
      refine List.mem_append_right _ ?_
      cases post with
      | nil => exact List.mem_range'_1.2 ⟨Nat.le_refl _, by omega⟩
      | cons h' post =>
          have := hpost h' List.mem_cons_self
          exact List.mem_append_left _ (List.mem_range'_1.2 ⟨Nat.le_refl _, by omega⟩)
  | cons h' pre ih => exact fun pos => List.mem_append_right _ (ih _)

/-! ## The cursor -/

namespace Round

variable {r : Round γ} {w : Hunk γ}

/-- A hunk taken by itself reaches to the end of every hunk of the other side that it overlaps. -/
def Reaches (a b : List (Hunk γ)) : Round γ → Prop
  | .both _ _ => True
  | .left x => ∀ y ∈ b, x.Overlaps y → y.stop ≤ x.stop
  | .right y => ∀ x ∈ a, x.Overlaps y → x.stop ≤ y.stop

instance (a b : List (Hunk γ)) : DecidablePred (Reaches a b)
  | .both _ _ => inferInstanceAs (Decidable True)
  | .left x => inferInstanceAs (Decidable (∀ y ∈ b, x.Overlaps y → _))
  | .right y => inferInstanceAs (Decidable (∀ x ∈ a, x.Overlaps y → _))

theorem stop_of_left (h : r.left? = some w) : w.stop ≤ r.stop := by
  cases r with
  | both x y =>
      cases h
      exact Nat.le_max_left ..
  | left x =>
      cases h
      exact Nat.le_refl _
  | right y => cases h

theorem stop_of_right (h : r.right? = some w) : w.stop ≤ r.stop := by
  cases r with
  | both x y =>
      cases h
      exact Nat.le_max_right ..
  | left x => cases h
  | right y =>
      cases h
      exact Nat.le_refl _

/-- A round ends where one of its hunks ends. -/
theorem exists_stop (r : Round γ) :
    (∃ w, r.left? = some w ∧ w.stop = r.stop) ∨ ∃ w, r.right? = some w ∧ w.stop = r.stop := by
  cases r with
  | both x y =>
      rcases Nat.le_total x.stop y.stop with hle | hle
      · exact Or.inr ⟨y, rfl, (Nat.max_eq_right hle).symm⟩
      · exact Or.inl ⟨x, rfl, (Nat.max_eq_left hle).symm⟩
  | left x => exact Or.inl ⟨x, rfl, rfl⟩
  | right y => exact Or.inr ⟨y, rfl, rfl⟩

/-- A round starts where one of its hunks starts. -/
theorem exists_start (r : Round γ) :
    (∃ w, r.left? = some w ∧ w.start = r.start) ∨ ∃ w, r.right? = some w ∧ w.start = r.start := by
  cases r with
  | both x y =>
      rcases Nat.le_total x.start y.start with hle | hle
      · exact Or.inl ⟨x, rfl, (Nat.min_eq_left hle).symm⟩
      · exact Or.inr ⟨y, rfl, (Nat.min_eq_right hle).symm⟩
  | left x => exact Or.inl ⟨x, rfl, rfl⟩
  | right y => exact Or.inr ⟨y, rfl, rfl⟩

end Round

section Cursor

variable {len : Nat} {a b : List (Hunk γ)}

/-- Each round of a merge with what came before it. -/
theorem rest_of_split (ha : Spaced len a) (hb : Spaced len b) {pre post : List (Round γ)}
    {r : Round γ} (h : rounds a b = pre ++ r :: post) :
    ∃ a' b' m, Rest a b pre (r :: post) a' b' m :=
  exists_rest ha hb (Nat.le_refl _) h

theorem overlaps_of_both (ha : Spaced len a) (hb : Spaced len b) {x y : Hunk γ}
    (h : .both x y ∈ rounds a b) : x.Overlaps y := by
  rcases List.append_of_mem h with ⟨pre, post, hsplit⟩
  rcases rest_of_split ha hb hsplit with ⟨a', b', m, hrest⟩
  rcases roundsFrom_cons hrest.rounds.symm with ⟨x', y', _, _, _, _, _, heq, _, hover⟩ |
    ⟨_, _, _, _, heq, _⟩ | ⟨_, _, _, _, heq, _⟩
  · cases heq
    exact hover
  · cases heq
  · cases heq

/-- Between the hunks taken before a round and those that are left of the same side. -/
theorem stop_lt_of_left (ha : Spaced len a) {pre rs : List (Round γ)} {a' b' : List (Hunk γ)}
    {m : Nat} (h : Rest a b pre rs a' b' m) {r : Round γ} (hr : r ∈ pre) {w x : Hunk γ}
    (hw : r.left? = some w) (hx : x ∈ a') : w.stop < x.start := by
  have hapart := ha.apart
  rw [h.left] at hapart
  exact (List.pairwise_append.1 hapart).2.2 w (List.mem_filterMap.2 ⟨r, hr, hw⟩) x hx

theorem stop_lt_of_right (hb : Spaced len b) {pre rs : List (Round γ)} {a' b' : List (Hunk γ)}
    {m : Nat} (h : Rest a b pre rs a' b' m) {r : Round γ} (hr : r ∈ pre) {w y : Hunk γ}
    (hw : r.right? = some w) (hy : y ∈ b') : w.stop < y.start := by
  have hapart := hb.apart
  rw [h.right] at hapart
  exact (List.pairwise_append.1 hapart).2.2 w (List.mem_filterMap.2 ⟨r, hr, hw⟩) y hy

/-- A relation between each element and those before it. -/
theorem pairwise_of_split {α : Type} {R : α → α → Prop} {l : List α}
    (h : ∀ pre y post, l = pre ++ y :: post → ∀ x ∈ pre, R x y) : l.Pairwise R := by
  induction l using List.reverseRecOn with
  | nil => exact List.Pairwise.nil
  | append_singleton l y ih =>
      refine List.pairwise_append.2 ⟨ih fun pre y' post heq => ?_, List.pairwise_singleton _ _, ?_⟩
      · refine h pre y' (post ++ [y]) ?_
        rw [heq, List.append_assoc, List.cons_append]
      · intro x hx y' hy'
        cases List.mem_singleton.1 hy'
        exact h l y [] rfl x hx

/-- Rounds start one after the other. -/
theorem pairwise_start_rounds (ha : Spaced len a) (hb : Spaced len b) :
    (rounds a b).Pairwise fun r r' => r.start ≤ r'.start := by
  refine pairwise_of_split fun pre r' post hsplit r hr => ?_
  rcases rest_of_split ha hb hsplit with ⟨a', b', m, h⟩
  have htakes : Takes (r' :: post) a' b' := h.rounds ▸ takes_roundsFrom h.enough
  have hwithinA : ∀ w, r.left? = some w → w.start ≤ w.stop := fun w hw =>
    (ha.within w (h.left ▸ List.mem_append_left _ (List.mem_filterMap.2 ⟨r, hr, hw⟩))).1
  have hwithinB : ∀ w, r.right? = some w → w.start ≤ w.stop := fun w hw =>
    (hb.within w (h.right ▸ List.mem_append_left _ (List.mem_filterMap.2 ⟨r, hr, hw⟩))).1
  rcases r.exists_start with ⟨w, hw, hstart⟩ | ⟨w, hw, hstart⟩
  · have hw' := hwithinA w hw
    rcases r'.exists_start with ⟨x, hx, hstart'⟩ | ⟨y, hy, hstart'⟩
    · have := stop_lt_of_left ha h hr hw (htakes.mem_left List.mem_cons_self hx)
      omega
    · have := h.behindLeft r hr w hw y (htakes.mem_right List.mem_cons_self hy)
      omega
  · have hw' := hwithinB w hw
    rcases r'.exists_start with ⟨x, hx, hstart'⟩ | ⟨y, hy, hstart'⟩
    · have := h.behindRight r hr w hw x (htakes.mem_left List.mem_cons_self hx)
      omega
    · have := stop_lt_of_right hb h hr hw (htakes.mem_right List.mem_cons_self hy)
      omega

/-- Hunks that start in order and do not overlap end in order. -/
theorem stop_le_of_not_overlaps {x y : Hunk γ} (hover : ¬ x.Overlaps y) (hle : x.start ≤ y.start)
    (hy : y.start ≤ y.stop) : x.stop ≤ y.stop := by
  unfold Overlaps at hover
  omega

/-- The cursor never goes back. -/
theorem pairwise_stop_rounds (ha : Spaced len a) (hb : Spaced len b)
    (hreach : ∀ r ∈ rounds a b, r.Reaches a b) :
    (rounds a b).Pairwise fun r r' => r.stop ≤ r'.stop := by
  refine pairwise_of_split fun pre r' post hsplit r hr => ?_
  rcases rest_of_split ha hb hsplit with ⟨a', b', m, h⟩
  have htakes : Takes (r' :: post) a' b' := h.rounds ▸ takes_roundsFrom h.enough
  have hreach' : r'.Reaches a b := hreach r' (hsplit ▸ by simp)
  rcases r.exists_stop with ⟨w, hw, hstop⟩ | ⟨w, hw, hstop⟩
  · rw [← hstop]
    -- Of the same side the hunks end in order; another side's hunk is taken by itself.
    have hsame : ∀ x, r'.left? = some x → w.stop ≤ r'.stop := fun x hx => by
      have hmem := htakes.mem_left List.mem_cons_self hx
      have hlt := stop_lt_of_left ha h hr hw hmem
      have hx' := (ha.within x (h.mem_left hmem)).1
      have := Round.stop_of_left hx
      omega
    cases r' with
    | both x y => exact hsame x rfl
    | left x => exact hsame x rfl
    | right y =>
        have hmem : y ∈ b' := htakes.mem_right List.mem_cons_self rfl
        have hwa : w ∈ a := h.left ▸ List.mem_append_left _ (List.mem_filterMap.2 ⟨r, hr, hw⟩)
        by_cases hover : w.Overlaps y
        · exact hreach' w hwa hover
        · exact stop_le_of_not_overlaps hover (h.behindLeft r hr w hw y hmem)
            (hb.within y (h.mem_right hmem)).1
  · rw [← hstop]
    have hsame : ∀ y, r'.right? = some y → w.stop ≤ r'.stop := fun y hy => by
      have hmem := htakes.mem_right List.mem_cons_self hy
      have hlt := stop_lt_of_right hb h hr hw hmem
      have hy' := (hb.within y (h.mem_right hmem)).1
      have := Round.stop_of_right hy
      omega
    cases r' with
    | both x y => exact hsame y rfl
    | right y => exact hsame y rfl
    | left x =>
        have hmem : x ∈ a' := htakes.mem_left List.mem_cons_self rfl
        have hwb : w ∈ b := h.right ▸ List.mem_append_left _ (List.mem_filterMap.2 ⟨r, hr, hw⟩)
        by_cases hover : x.Overlaps w
        · exact hreach' w hwb hover
        · exact stop_le_of_not_overlaps (fun ho => hover ((overlaps_comm w x).1 ho))
            (h.behindRight r hr w hw x hmem) (ha.within x (h.mem_left hmem)).1

/-- What the rounds replace is what the hunks of the two sides replace. -/
theorem untouched_rounds (ha : Spaced len a) (hb : Spaced len b) (insert : Round γ → List δ)
    (i : Nat) :
    Untouched ((rounds a b).map (Round.hunk insert)) i ↔ Untouched a i ∧ Untouched b i := by
  have htakes := takes_rounds a b
  have hround : ∀ r ∈ rounds a b, (i < r.start ∨ r.stop ≤ i) ↔
      (∀ w, r.left? = some w → i < w.start ∨ w.stop ≤ i) ∧
        ∀ w, r.right? = some w → i < w.start ∨ w.stop ≤ i := fun r hr => by
    cases r with
    | both x y =>
        have hover := overlaps_of_both ha hb hr
        have hx := (ha.within x (htakes.mem_left hr rfl)).1
        have hy := (hb.within y (htakes.mem_right hr rfl)).1
        simp only [Round.left?, Round.right?, Option.some.injEq, forall_eq']
        simp only [Round.start, Round.stop]
        unfold Overlaps at hover
        omega
    | left x => simp [Round.left?, Round.right?, Round.start, Round.stop]
    | right y => simp [Round.left?, Round.right?, Round.start, Round.stop]
  have hmap : Untouched ((rounds a b).map (Round.hunk insert)) i ↔
      ∀ r ∈ rounds a b, i < r.start ∨ r.stop ≤ i := List.forall_mem_map
  rw [hmap]
  constructor
  · intro hall
    constructor
    · intro x hx
      rw [← htakes.left] at hx
      rcases List.mem_filterMap.1 hx with ⟨r, hr, hrx⟩
      exact ((hround r hr).1 (hall r hr)).1 x hrx
    · intro y hy
      rw [← htakes.right] at hy
      rcases List.mem_filterMap.1 hy with ⟨r, hr, hry⟩
      exact ((hround r hr).1 (hall r hr)).2 y hry
  · rintro ⟨hfreeA, hfreeB⟩ r hr
    exact (hround r hr).2 ⟨fun w hw => hfreeA w (htakes.mem_left hr hw),
      fun w hw => hfreeB w (htakes.mem_right hr hw)⟩

theorem within_rounds (ha : Spaced len a) (hb : Spaced len b) {r : Round γ}
    (hr : r ∈ rounds a b) : r.start ≤ r.stop ∧ r.stop ≤ len := by
  have htakes := takes_rounds a b
  cases r with
  | both x y =>
      have hx := ha.within x (htakes.mem_left hr rfl)
      have hy := hb.within y (htakes.mem_right hr rfl)
      simp only [Round.start, Round.stop]
      omega
  | left x => exact ha.within x (htakes.mem_left hr rfl)
  | right y => exact hb.within y (htakes.mem_right hr rfl)

theorem Takes.lt_start {rs : List (Round γ)} (h : Takes rs a b) {q : Nat}
    (ha : ∀ x ∈ a, q < x.start) (hb : ∀ y ∈ b, q < y.start) {r : Round γ} (hr : r ∈ rs) :
    q < r.start := by
  rcases r.exists_start with ⟨w, hw, hstart⟩ | ⟨w, hw, hstart⟩
  · exact hstart ▸ ha w (h.mem_left hr hw)
  · exact hstart ▸ hb w (h.mem_right hr hw)

/-- Hunks that overlap none at the head of a list lie before all of it. -/
theorem not_overlaps_of_head {hs : List (Hunk γ)} (hsp : Spaced len hs) {w : Hunk γ}
    (hhead : ∀ h ∈ hs.head?, ¬ w.Overlaps h ∧ w.start ≤ h.start)
    {x : Hunk γ} (hx : x ∈ hs) : ¬ w.Overlaps x := by
  cases hs with
  | nil => cases hx
  | cons h hs =>
      have hfirst := hhead h rfl
      have hwithin := (hsp.within h List.mem_cons_self).1
      rcases List.mem_cons.1 hx with rfl | hmem
      · exact hfirst.1
      · have hlt := hsp.stop_lt hmem
        unfold Overlaps at *
        omega

/-- Behind a hunk that ends within one of the other side, everything starts later: the position
where it ends comes out, and the other side has replaced it. -/
theorem mem_kept_of_not_reaches (ha : Spaced len a) (hb : Spaced len b) (insert : Round γ → List δ)
    {r : Round γ} (hr : r ∈ rounds a b) (hnot : ¬ r.Reaches a b) :
    ∃ i, i ∈ keptFrom len 0 ((rounds a b).map (Round.hunk insert)) ∧
      ¬ (Untouched a i ∧ Untouched b i) := by
  rcases List.append_of_mem hr with ⟨pre, post, hsplit⟩
  rcases rest_of_split ha hb hsplit with ⟨a', b', m, h⟩
  have hkept : r.stop < len → (∀ r' ∈ post, r.stop < r'.start) →
      r.stop ∈ keptFrom len 0 ((rounds a b).map (Round.hunk insert)) := fun hlen hpost => by
    rw [hsplit, List.map_append, List.map_cons]
    refine mem_keptFrom (h := Round.hunk insert r) hlen (fun h' hh' => ?_) 0
    rcases List.mem_map.1 hh' with ⟨r', hr', rfl⟩
    exact hpost r' hr'
  have hspA : Spaced len a' := by
    have := ha.apart
    rw [h.left] at this
    exact ⟨fun x hx => ha.within x (h.mem_left hx), (List.pairwise_append.1 this).2.1,
      fun x hx => ha.nonempty x (h.mem_left hx)⟩
  have hspB : Spaced len b' := by
    have := hb.apart
    rw [h.right] at this
    exact ⟨fun y hy => hb.within y (h.mem_right hy), (List.pairwise_append.1 this).2.1,
      fun y hy => hb.nonempty y (h.mem_right hy)⟩
  cases r with
  | both x y => exact absurd trivial hnot
  | left x =>
      rcases roundsFrom_cons h.rounds.symm with ⟨_, _, _, _, _, _, _, heq, _⟩ |
        ⟨x', a'', m', rfl, heq, hpost, hhead⟩ | ⟨_, _, _, _, heq, _⟩
      · cases heq
      · cases heq
        simp only [Round.Reaches, not_forall, Nat.not_le] at hnot
        rcases hnot with ⟨y, hy, hover, hlt⟩
        have hx := ha.within x (h.mem_left List.mem_cons_self)
        have hylen := hb.within y hy
        -- The hunk of the other side was taken before.
        have htaken : ∃ r ∈ pre, r.right? = some y := by
          rw [h.right] at hy
          rcases List.mem_append.1 hy with hold | hnew
          · exact List.mem_filterMap.1 hold
          · exact absurd hover (not_overlaps_of_head hspB hhead hnew)
        rcases htaken with ⟨r₀, hr₀, hy₀⟩
        have hrest : Takes post a'' b' := by
          have htakes : Takes (.left x :: post) (x :: a'') b' :=
            h.rounds ▸ takes_roundsFrom h.enough
          exact ⟨(List.cons.inj htakes.left).2, htakes.right⟩
        refine ⟨x.stop, hkept (by simp only [Round.stop]; omega) fun r' hr' => ?_, fun hfree => ?_⟩
        · refine hrest.lt_start (fun w hw => hspA.stop_lt hw) (fun w hw => ?_) hr'
          have := stop_lt_of_right hb h hr₀ hy₀ hw
          omega
        · have := hfree.2 y hy
          unfold Overlaps at hover
          omega
      · cases heq
  | right y =>
      rcases roundsFrom_cons h.rounds.symm with ⟨_, _, _, _, _, _, _, heq, _⟩ |
        ⟨_, _, _, _, heq, _⟩ | ⟨y', b'', m', rfl, heq, hpost, hhead⟩
      · cases heq
      · cases heq
      · cases heq
        simp only [Round.Reaches, not_forall, Nat.not_le] at hnot
        rcases hnot with ⟨x, hx, hover, hlt⟩
        have hy := hb.within y (h.mem_right List.mem_cons_self)
        have hxlen := ha.within x hx
        have htaken : ∃ r ∈ pre, r.left? = some x := by
          rw [h.left] at hx
          rcases List.mem_append.1 hx with hold | hnew
          · exact List.mem_filterMap.1 hold
          · refine absurd ((overlaps_comm x y).1 hover) (not_overlaps_of_head hspA ?_ hnew)
            exact fun w hw =>
              ⟨fun ho => (hhead w hw).1 ((overlaps_comm y w).1 ho), Nat.le_of_lt (hhead w hw).2⟩
        rcases htaken with ⟨r₀, hr₀, hx₀⟩
        have hrest : Takes post a' b'' := by
          have htakes : Takes (.right y :: post) a' (y :: b'') :=
            h.rounds ▸ takes_roundsFrom h.enough
          exact ⟨htakes.left, (List.cons.inj htakes.right).2⟩
        refine ⟨y.stop, hkept (by simp only [Round.stop]; omega) fun r' hr' => ?_, fun hfree => ?_⟩
        · refine hrest.lt_start (fun w hw => ?_) (fun w hw => hspB.stop_lt hw) hr'
          have := stop_lt_of_left ha h hr₀ hx₀ hw
          omega
        · have := hfree.1 x hx
          unfold Overlaps at hover
          omega

/-- The positions that come out are those that neither side replaces, once and in order, if and only
if every hunk taken by itself reaches to the end of the hunks that it overlaps. -/
theorem kept_rounds_iff (ha : Spaced len a) (hb : Spaced len b) (insert : Round γ → List δ) :
    keptFrom len 0 ((rounds a b).map (Round.hunk insert)) =
        (List.range len).filter (fun i => Untouched a i ∧ Untouched b i) ↔
      ∀ r ∈ rounds a b, r.Reaches a b := by
  constructor
  · intro heq r hr
    by_contra hnot
    rcases mem_kept_of_not_reaches ha hb insert hr hnot with ⟨i, hi, htouched⟩
    rw [heq, List.mem_filter, decide_eq_true_eq] at hi
    exact htouched hi.2
  · intro hreach
    rcases @keptFrom_spec δ len ((rounds a b).map (Round.hunk insert)) 0
      (fun _ _ => Nat.zero_le _) (List.pairwise_map.2 (pairwise_stop_rounds ha hb hreach))
      (List.pairwise_map.2 (pairwise_start_rounds ha hb))
      (List.forall_mem_map.2 fun r hr => within_rounds ha hb hr) with ⟨hsorted, hmem⟩
    refine List.Pairwise.eq_of_mem_iff hsorted ?_ fun i => ?_
    · exact List.pairwise_lt_range.filter _
    · rw [hmem, untouched_rounds ha hb, List.mem_filter, List.mem_range, decide_eq_true_eq]
      exact ⟨fun h => h.2, fun h => ⟨Nat.zero_le i, h⟩⟩

end Cursor

end Hunk
end Lib
end Reflectdb
