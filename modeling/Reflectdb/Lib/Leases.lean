import Mathlib.Data.List.Nodup
import Mathlib.Data.List.Perm.Subperm

/-!
# Leases — entries under keys that end at a deadline, and two lists that hold the same live ones

An expired entry may stay listed until something removes it, so two lists of one history need not be
equal.  They agree when a key's entry is the same in both and a live one is in both.
-/

namespace Reflectdb
namespace Lib

/-! ## Rows under keys -/

section Rows

variable {κ ρ : Type} [DecidableEq κ]

/-- The row under a key. -/
def rowOf (key : ρ → κ) (rows : List ρ) (k : κ) : Option ρ :=
  rows.find? fun r => key r = k

/-- A new key goes last; a row under a known key takes the old one's place. -/
def upsert (key : ρ → κ) (rows : List ρ) (row : ρ) : List ρ :=
  if (rowOf key rows (key row)).isSome then rows.map fun r => if key r = key row then row else r
  else rows ++ [row]

variable {key : ρ → κ} {rows : List ρ} {row r : ρ} {k : κ}

theorem key_of_rowOf (h : rowOf key rows k = some r) : key r = k := by
  simpa using List.find?_some h

theorem mem_of_rowOf (h : rowOf key rows k = some r) : r ∈ rows :=
  List.mem_of_find?_eq_some h

theorem rowOf_eq_none_iff : rowOf key rows k = none ↔ ∀ r ∈ rows, key r ≠ k := by
  simp [rowOf]

theorem rowOf_eq_some_iff (hnodup : (rows.map key).Nodup) :
    rowOf key rows k = some r ↔ r ∈ rows ∧ key r = k := by
  constructor
  · exact fun h => ⟨mem_of_rowOf h, key_of_rowOf h⟩
  · rintro ⟨hr, rfl⟩
    cases hrow : rowOf key rows (key r) with
    | none => exact absurd rfl (rowOf_eq_none_iff.1 hrow r hr)
    | some r' =>
        exact congrArg some
          (List.inj_on_of_nodup_map hnodup (mem_of_rowOf hrow) hr (key_of_rowOf hrow))

theorem map_key_upsert :
    (upsert key rows row).map key =
      if (rowOf key rows (key row)).isSome then rows.map key else rows.map key ++ [key row] := by
  rw [upsert]
  split
  · rw [List.map_map]
    refine List.map_congr_left fun r _ => ?_
    rw [Function.comp_apply]
    split
    · rename_i heq
      exact heq.symm
    · rfl
  · simp

theorem nodup_upsert (hnodup : (rows.map key).Nodup) :
    ((upsert key rows row).map key).Nodup := by
  rw [map_key_upsert]
  cases hrow : rowOf key rows (key row) with
  | some r => exact hnodup
  | none =>
      refine List.nodup_append.2 ⟨hnodup, List.nodup_singleton _, fun a ha b hb => ?_⟩
      obtain ⟨r, hr, rfl⟩ := List.mem_map.1 ha
      rw [List.mem_singleton.1 hb]
      exact rowOf_eq_none_iff.1 hrow r hr

theorem mem_upsert_iff : r ∈ upsert key rows row ↔ r = row ∨ r ∈ rows ∧ key r ≠ key row := by
  rw [upsert]
  cases hrow : rowOf key rows (key row) with
  | none =>
      have hall := rowOf_eq_none_iff.1 hrow
      simp only [Option.isSome_none, Bool.false_eq_true, if_false, List.mem_append,
        List.mem_singleton]
      constructor
      · rintro (hr | rfl)
        · exact .inr ⟨hr, hall r hr⟩
        · exact .inl rfl
      · rintro (rfl | ⟨hr, -⟩)
        · exact .inr rfl
        · exact .inl hr
  | some r' =>
      simp only [Option.isSome_some, if_true, List.mem_map]
      constructor
      · rintro ⟨x, hx, rfl⟩
        split
        · exact .inl rfl
        · rename_i hne
          exact .inr ⟨hx, hne⟩
      · rintro (rfl | ⟨hr, hne⟩)
        · exact ⟨r', mem_of_rowOf hrow, if_pos (key_of_rowOf hrow)⟩
        · exact ⟨r, hr, if_neg hne⟩

/-! ### A map of the rows -/

variable {κ' ρ' : Type} [DecidableEq κ'] {key' : ρ' → κ'} {f : ρ → ρ'} {k' : κ'}

theorem rowOf_map (h : ∀ r, key' (f r) = k' ↔ key r = k) :
    rowOf key' (rows.map f) k' = (rowOf key rows k).map f := by
  rw [rowOf, rowOf, List.find?_map]
  congr 2
  funext r
  simp [h]

/-- The map may change the keys as long as it tells the same rows apart. -/
theorem upsert_map (h : ∀ r, key' (f r) = key' (f row) ↔ key r = key row) :
    upsert key' (rows.map f) (f row) = (upsert key rows row).map f := by
  rw [upsert, upsert, rowOf_map h, Option.isSome_map]
  split
  · rw [List.map_map, List.map_map]
    refine List.map_congr_left fun r _ => ?_
    simp only [Function.comp_apply, h]
    split <;> rfl
  · rw [List.map_append, List.map_singleton]

/-! ### Rows after a write and after a removal -/

theorem rowOf_upsert (k : κ) :
    rowOf key (upsert key rows row) k =
      if key row = k then some row else rowOf key rows k := by
  rw [upsert]
  cases hrow : rowOf key rows (key row) with
  | none =>
      simp only [Option.isSome_none, Bool.false_eq_true, if_false]
      rw [rowOf, List.find?_append, ← rowOf]
      split
      · rename_i heq
        rw [← heq, hrow]
        simp
      · rename_i hne
        simp [hne]
  | some r' =>
      rw [Option.isSome_some, if_pos rfl]
      have hkeys : ∀ r, key (if key r = key row then row else r) = k ↔ key r = k := by
        intro r
        split
        · rename_i heq
          rw [heq]
        · exact Iff.rfl
      rw [rowOf_map hkeys]
      split
      · rename_i heq
        rw [← heq, hrow, Option.map_some, if_pos (key_of_rowOf hrow)]
      · rename_i hne
        cases hk : rowOf key rows k with
        | none => rfl
        | some r =>
            rw [Option.map_some, if_neg fun heq => hne (heq.symm.trans (key_of_rowOf hk))]

theorem rowOf_filter (stays : κ → Bool) (k : κ) :
    rowOf key (rows.filter fun r => stays (key r)) k =
      if stays k then rowOf key rows k else none := by
  rw [rowOf, rowOf, List.find?_filter]
  split
  · rename_i hstays
    congr 1
    funext r
    by_cases heq : key r = k
    · simp [heq, hstays]
    · simp [heq]
  · rename_i hgone
    refine List.find?_eq_none.2 fun r _ hr => hgone ?_
    simp only [decide_eq_true_eq] at hr
    exact hr.2 ▸ hr.1

end Rows

/-! ## Leases -/

/-- What a key holds, since when, and until which time. -/
structure Lease (κ ν : Type) where
  key : κ
  value : ν
  since : Int
  deadline : Int

namespace Lease

variable {κ ν : Type}

/-- How many of the keys are held at a time. -/
def liveCount (leases : List (Lease κ ν)) (among : κ → Bool) (t : Int) : Nat :=
  leases.countP fun l => among l.key && decide (t < l.deadline)

/-- The leases end as time passes. -/
theorem liveCount_antitone (leases : List (Lease κ ν)) (among : κ → Bool) {t t' : Int}
    (h : t ≤ t') : liveCount leases among t' ≤ liveCount leases among t := by
  refine List.countP_mono_left fun l _ hl => ?_
  simp only [Bool.and_eq_true, decide_eq_true_eq] at hl ⊢
  exact ⟨hl.1, by omega⟩

/-- The keys that are held at a time. -/
def liveKeys (leases : List (Lease κ ν)) (among : κ → Bool) (t : Int) : List κ :=
  (leases.filter fun l => among l.key && decide (t < l.deadline)).map key

theorem length_liveKeys (leases : List (Lease κ ν)) (among : κ → Bool) (t : Int) :
    (liveKeys leases among t).length = liveCount leases among t := by
  rw [liveKeys, liveCount, List.length_map, List.countP_eq_length_filter]

theorem mem_liveKeys {leases : List (Lease κ ν)} {among : κ → Bool} {t : Int} {l : Lease κ ν}
    (hl : l ∈ leases) (hin : among l.key = true) (hlive : t < l.deadline) :
    l.key ∈ liveKeys leases among t :=
  List.mem_map.2 ⟨l, List.mem_filter.2 ⟨hl, by simp [hin, hlive]⟩, rfl⟩

/-- Leases under different keys are no more than the keys that they are under. -/
theorem liveCount_le_length {leases : List (Lease κ ν)} (hnodup : (leases.map key).Nodup)
    {among : κ → Bool} {t : Int} {ks : List κ}
    (h : ∀ l ∈ leases, among l.key = true → t < l.deadline → l.key ∈ ks) :
    liveCount leases among t ≤ ks.length := by
  have hkeys : (liveKeys leases among t).Nodup := hnodup.sublist (List.filter_sublist.map key)
  have hsub : liveKeys leases among t ⊆ ks := by
    intro k hk
    obtain ⟨l, hl, rfl⟩ := List.mem_map.1 hk
    obtain ⟨hl, hlive⟩ := List.mem_filter.1 hl
    simp only [Bool.and_eq_true, decide_eq_true_eq] at hlive
    exact h l hl hlive.1 hlive.2
  rw [← length_liveKeys]
  exact (List.subperm_of_subset hkeys hsub).length_le

section Upsert

variable [DecidableEq κ] {leases : List (Lease κ ν)} {l a : Lease κ ν} {among : κ → Bool} {t : Int}

/-- A write adds one live key at most. -/
theorem liveCount_upsert_le (hnodup : (leases.map key).Nodup) :
    liveCount (upsert key leases l) among t ≤ liveCount leases among t + 1 := by
  rw [← length_liveKeys leases, ← List.length_cons (a := l.key)]
  refine liveCount_le_length (nodup_upsert hnodup) fun b hb hin hlive => ?_
  rcases mem_upsert_iff.1 hb with rfl | ⟨hb, -⟩
  · exact List.mem_cons_self
  · exact List.mem_cons_of_mem _ (mem_liveKeys hb hin hlive)

/-- A write to a live key, or to one that is not counted, adds none. -/
theorem liveCount_upsert_of_live (hnodup : (leases.map key).Nodup)
    (h : among l.key = true → ∃ a ∈ leases, a.key = l.key ∧ t < a.deadline) :
    liveCount (upsert key leases l) among t ≤ liveCount leases among t := by
  rw [← length_liveKeys leases]
  refine liveCount_le_length (nodup_upsert hnodup) fun b hb hin hlive => ?_
  rcases mem_upsert_iff.1 hb with rfl | ⟨hb, -⟩
  · obtain ⟨a, ha, hkey, hdue⟩ := h hin
    rw [← hkey] at hin ⊢
    exact mem_liveKeys ha hin hdue
  · exact mem_liveKeys hb hin hlive

end Upsert

/-! ## Two lists of one history -/

/-- From `now` on both lists hold the same; a key that is in both has the same lease there. -/
structure Agree (now : Int) (left right : List (Lease κ ν)) : Prop where
  left_nodup : (left.map key).Nodup
  right_nodup : (right.map key).Nodup
  same : ∀ a ∈ left, ∀ b ∈ right, a.key = b.key → a = b
  live_left : ∀ a ∈ left, now < a.deadline → a ∈ right
  live_right : ∀ b ∈ right, now < b.deadline → b ∈ left

namespace Agree

variable {now : Int} {left right : List (Lease κ ν)}

theorem nil (now : Int) : Agree now ([] : List (Lease κ ν)) [] :=
  ⟨List.nodup_nil, List.nodup_nil, fun _ h => absurd h List.not_mem_nil,
    fun _ h => absurd h List.not_mem_nil, fun _ h => absurd h List.not_mem_nil⟩

theorem symm (h : Agree now left right) : Agree now right left :=
  ⟨h.right_nodup, h.left_nodup, fun b hb a ha heq => (h.same a ha b hb heq.symm).symm,
    h.live_right, h.live_left⟩

theorem mono (h : Agree now left right) {now' : Int} (hle : now ≤ now') : Agree now' left right :=
  ⟨h.left_nodup, h.right_nodup, h.same, fun a ha hlive => h.live_left a ha (by omega),
    fun b hb hlive => h.live_right b hb (by omega)⟩

/-- The same write to both. -/
theorem upsert [DecidableEq κ] (h : Agree now left right) (l : Lease κ ν) :
    Agree now (upsert key left l) (upsert key right l) := by
  refine ⟨nodup_upsert h.left_nodup, nodup_upsert h.right_nodup, ?_, ?_, ?_⟩
  · intro a ha b hb heq
    rcases mem_upsert_iff.1 ha with rfl | ⟨ha, hane⟩ <;>
      rcases mem_upsert_iff.1 hb with rfl | ⟨hb, hbne⟩
    · rfl
    · exact absurd heq.symm hbne
    · exact absurd heq hane
    · exact h.same a ha b hb heq
  · intro a ha hlive
    rcases mem_upsert_iff.1 ha with rfl | ⟨ha, hne⟩
    · exact mem_upsert_iff.2 (.inl rfl)
    · exact mem_upsert_iff.2 (.inr ⟨h.live_left a ha hlive, hne⟩)
  · intro b hb hlive
    rcases mem_upsert_iff.1 hb with rfl | ⟨hb, hne⟩
    · exact mem_upsert_iff.2 (.inl rfl)
    · exact mem_upsert_iff.2 (.inr ⟨h.live_right b hb hlive, hne⟩)

/-- The same keys removed from both. -/
theorem filter (h : Agree now left right) (stays : κ → Bool) :
    Agree now (left.filter fun l => stays l.key) (right.filter fun l => stays l.key) := by
  refine ⟨?_, ?_, ?_, ?_, ?_⟩
  · exact h.left_nodup.sublist (List.filter_sublist.map key)
  · exact h.right_nodup.sublist (List.filter_sublist.map key)
  · exact fun a ha b hb => h.same a (List.mem_filter.1 ha).1 b (List.mem_filter.1 hb).1
  · intro a ha hlive
    obtain ⟨ha, hstays⟩ := List.mem_filter.1 ha
    exact List.mem_filter.2 ⟨h.live_left a ha hlive, hstays⟩
  · intro b hb hlive
    obtain ⟨hb, hstays⟩ := List.mem_filter.1 hb
    exact List.mem_filter.2 ⟨h.live_right b hb hlive, hstays⟩

/-- Expired leases removed from one of them. -/
theorem expire_left (h : Agree now left right) {left' : List (Lease κ ν)}
    (hsub : left'.Sublist left) (hlive : ∀ a ∈ left, now < a.deadline → a ∈ left') :
    Agree now left' right :=
  ⟨h.left_nodup.sublist (hsub.map key), h.right_nodup, fun a ha => h.same a (hsub.subset ha),
    fun a ha => h.live_left a (hsub.subset ha),
    fun b hb hdue => hlive b (h.live_right b hb hdue) hdue⟩

/-- The live leases of the two are the same ones. -/
theorem live_perm (h : Agree now left right) :
    (left.filter fun l => now < l.deadline).Perm (right.filter fun l => now < l.deadline) := by
  refine (List.perm_ext_iff_of_nodup (h.left_nodup.of_map.filter _)
    (h.right_nodup.of_map.filter _)).2 fun l => ?_
  simp only [List.mem_filter, decide_eq_true_eq]
  constructor
  · exact fun ⟨hl, hlive⟩ => ⟨h.live_left l hl hlive, hlive⟩
  · exact fun ⟨hl, hlive⟩ => ⟨h.live_right l hl hlive, hlive⟩

theorem liveCount_eq (h : Agree now left right) (among : κ → Bool) :
    liveCount left among now = liveCount right among now := by
  have hcount : ∀ leases : List (Lease κ ν), liveCount leases among now =
      (leases.filter fun l => now < l.deadline).countP fun l => among l.key := by
    intro leases
    rw [liveCount, List.countP_filter]
  rw [hcount, hcount, h.live_perm.countP_eq]

end Agree

end Lease

end Lib
end Reflectdb
