import Reflectdb.Lib.HunkRounds

/-!
# Hunk pieces — what a merge is put together from

A merge is a list of pieces: elements of the list by their positions, and inserts with the hunks
they stand for.  It keeps what both sides keep and every insert, if and only if its cursor never
goes back and hunks that overlap and insert the same are taken together.
-/

namespace Reflectdb
namespace Lib
namespace Hunk

variable {γ δ : Type}

/-! ## Pieces -/

/-- What a merge is put together from: the element at a position of the list, or the insert of a
hunk; of two hunks that a round takes together, one insert may stand for both. -/
inductive Piece (γ : Type)
  | kept (position : Nat)
  | inserted (hunks : Round γ)

namespace Piece

def kept? : Piece γ → Option Nat
  | .kept i => some i
  | .inserted _ => none

def inserted? : Piece γ → Option (Round γ)
  | .kept _ => none
  | .inserted r => some r

def left? (p : Piece γ) : Option (Hunk γ) :=
  p.inserted?.bind Round.left?

def right? (p : Piece γ) : Option (Hunk γ) :=
  p.inserted?.bind Round.right?

/-- What the piece is in the list that was merged. -/
def text (base : List γ) : Piece γ → List γ
  | .kept i => base[i]?.toList
  | .inserted (.both x _) => x.insert
  | .inserted (.left h) | .inserted (.right h) => h.insert

end Piece

/-- The inserts of a round; `same` is what counts as one insert. -/
def insertedPieces (same : List γ → List γ → Bool) : Round γ → List (Piece γ)
  | .both x y =>
    if same x.insert y.insert then [.inserted (.both x y)]
    else [.inserted (.left x), .inserted (.right y)]
  | r => [.inserted r]

def pieces (same : List γ → List γ → Bool) (len : Nat) (a b : List (Hunk γ)) : List (Piece γ) :=
  apply ((List.range len).map .kept) ((rounds a b).map (Round.hunk (insertedPieces same)))

section Pieces

variable {same : List γ → List γ → Bool} {len : Nat} {a b : List (Hunk γ)}

theorem slice_range (f : Nat → δ) (i : Nat) {j : Nat} (hj : j ≤ len) :
    slice ((List.range len).map f) i j = (List.range' i (j - i)).map f := by
  rw [slice, ← List.map_drop, ← List.map_take, List.range_eq_range', List.drop_range',
    List.take_range'_of_length_ge (by omega)]
  simp

theorem drop_range_map (f : Nat → δ) (i : Nat) :
    ((List.range len).map f).drop i = (List.range' i (len - i)).map f := by
  rw [← List.map_drop, List.range_eq_range', List.drop_range']
  simp

/-- What comes out of the hunks' inserts. -/
theorem filterMap_applyFrom {β : Type} {f : δ → Option β} {text : List δ}
    (htext : ∀ d ∈ text, f d = none) (hs : List (Hunk δ)) :
    ∀ pos : Nat, (applyFrom text pos hs).filterMap f = hs.flatMap fun h =>
      h.insert.filterMap f := by
  induction hs with
  | nil =>
      intro pos
      exact List.filterMap_eq_nil_iff.2 fun d hd => htext d (List.mem_of_mem_drop hd)
  | cons h hs ih =>
      intro pos
      have hslice : (slice text pos h.start).filterMap f = [] :=
        List.filterMap_eq_nil_iff.2 fun d hd =>
          htext d (List.mem_of_mem_drop (List.mem_of_mem_take hd))
      simp only [applyFrom, List.filterMap_append, hslice, ih, List.nil_append, List.flatMap_cons]

/-- The positions that come out of hunks whose inserts have none. -/
theorem filterMap_kept_applyFrom {hs : List (Hunk (Piece γ))}
    (hinserts : ∀ h ∈ hs, ∀ p ∈ h.insert, p.kept? = none) (hstart : ∀ h ∈ hs, h.start ≤ len) :
    ∀ pos : Nat, (applyFrom ((List.range len).map Piece.kept) pos hs).filterMap Piece.kept? =
      keptFrom len pos hs := by
  have hkept : ∀ ps : List Nat, (ps.map (Piece.kept (γ := γ))).filterMap Piece.kept? = ps :=
    fun ps => by
      rw [List.filterMap_map]
      exact List.filterMap_some
  induction hs with
  | nil =>
      intro pos
      rw [applyFrom, drop_range_map, hkept, keptFrom]
  | cons h hs ih =>
      intro pos
      have hins : h.insert.filterMap Piece.kept? = [] :=
        List.filterMap_eq_nil_iff.2 (hinserts h List.mem_cons_self)
      rw [applyFrom, slice_range _ _ (hstart h List.mem_cons_self), keptFrom,
        List.filterMap_append, List.filterMap_append, hkept, hins, List.append_nil,
        ih (fun h' hh' => hinserts h' (List.mem_cons_of_mem _ hh'))
          fun h' hh' => hstart h' (List.mem_cons_of_mem _ hh')]

theorem kept?_insertedPieces {r : Round γ} {p : Piece γ} (hp : p ∈ insertedPieces same r) :
    p.kept? = none := by
  cases r with
  | both x y =>
      rw [insertedPieces] at hp
      split at hp
      · cases List.mem_singleton.1 hp
        rfl
      · rcases List.mem_pair.1 hp with rfl | rfl <;> rfl
  | left x =>
      cases List.mem_singleton.1 hp
      rfl
  | right y =>
      cases List.mem_singleton.1 hp
      rfl

theorem filterMap_kept_pieces (ha : Spaced len a) (hb : Spaced len b) :
    (pieces same len a b).filterMap Piece.kept? =
      keptFrom len 0 ((rounds a b).map (Round.hunk (insertedPieces same))) := by
  refine filterMap_kept_applyFrom ?_ ?_ 0
  · exact List.forall_mem_map.2 fun r _ p hp => kept?_insertedPieces hp
  · exact List.forall_mem_map.2 fun r hr =>
      Nat.le_trans (within_rounds ha hb hr).1 (within_rounds ha hb hr).2

/-- Of each side, every hunk stands in one piece, in order. -/
theorem filterMap_left_pieces : (pieces same len a b).filterMap Piece.left? = a := by
  have htext : ∀ d ∈ (List.range len).map (Piece.kept (γ := γ)), d.left? = none :=
    List.forall_mem_map.2 fun _ _ => rfl
  have hround : ∀ r : Round γ,
      (insertedPieces same r).filterMap Piece.left? = r.left?.toList := fun r => by
    cases r with
    | both x y =>
        rw [insertedPieces]
        split <;> rfl
    | left x => rfl
    | right y => rfl
  calc
    (pieces same len a b).filterMap Piece.left?
        = (rounds a b).flatMap fun r => (insertedPieces same r).filterMap Piece.left? := by
          rw [pieces, apply, filterMap_applyFrom htext, List.flatMap_map]
          rfl
    _ = (rounds a b).filterMap Round.left? := by
          simp only [hround, List.filterMap_eq_flatMap_toList]
    _ = a := (takes_rounds a b).left

theorem filterMap_right_pieces : (pieces same len a b).filterMap Piece.right? = b := by
  have htext : ∀ d ∈ (List.range len).map (Piece.kept (γ := γ)), d.right? = none :=
    List.forall_mem_map.2 fun _ _ => rfl
  have hround : ∀ r : Round γ,
      (insertedPieces same r).filterMap Piece.right? = r.right?.toList := fun r => by
    cases r with
    | both x y =>
        rw [insertedPieces]
        split <;> rfl
    | left x => rfl
    | right y => rfl
  calc
    (pieces same len a b).filterMap Piece.right?
        = (rounds a b).flatMap fun r => (insertedPieces same r).filterMap Piece.right? := by
          rw [pieces, apply, filterMap_applyFrom htext, List.flatMap_map]
          rfl
    _ = (rounds a b).filterMap Round.right? := by
          simp only [hround, List.filterMap_eq_flatMap_toList]
    _ = b := (takes_rounds a b).right

/-- One insert stands for two hunks just where a round takes both and they insert the same. -/
theorem both_mem_pieces {x y : Hunk γ} :
    .inserted (.both x y) ∈ pieces same len a b ↔
      .both x y ∈ rounds a b ∧ same x.insert y.insert = true := by
  have htext : ∀ d ∈ (List.range len).map (Piece.kept (γ := γ)), d.inserted? = none :=
    List.forall_mem_map.2 fun _ _ => rfl
  have hmem : .inserted (.both x y) ∈ pieces same len a b ↔
      ∃ r ∈ rounds a b, .inserted (.both x y) ∈ insertedPieces same r := by
    have hfilter : (pieces same len a b).filterMap Piece.inserted? =
        (rounds a b).flatMap fun r => (insertedPieces same r).filterMap Piece.inserted? := by
      rw [pieces, apply, filterMap_applyFrom htext, List.flatMap_map]
      rfl
    have hiff : ∀ ps : List (Piece γ),
        .inserted (.both x y) ∈ ps ↔ .both x y ∈ ps.filterMap Piece.inserted? := fun ps => by
      rw [List.mem_filterMap]
      constructor
      · exact fun hp => ⟨_, hp, rfl⟩
      · rintro ⟨p, hp, hr⟩
        cases p with
        | kept i => cases hr
        | inserted r =>
            cases hr
            exact hp
    rw [hiff, hfilter, List.mem_flatMap]
    simp only [hiff]
  rw [hmem]
  constructor
  · rintro ⟨r, hr, hp⟩
    cases r with
    | both x' y' =>
        rw [insertedPieces] at hp
        split at hp
        · rename_i hsame
          cases List.mem_singleton.1 hp
          exact ⟨hr, hsame⟩
        · rcases List.mem_pair.1 hp with hp | hp <;> cases hp
    | left x' => cases List.mem_singleton.1 hp
    | right y' => cases List.mem_singleton.1 hp
  · rintro ⟨hr, hsame⟩
    refine ⟨_, hr, ?_⟩
    rw [insertedPieces, if_pos hsame]
    exact List.mem_singleton_self _

/-- A merge is its pieces, one after the other. -/
theorem flatMap_text_pieces {text : List γ} (ha : Spaced text.length a)
    (hb : Spaced text.length b) :
    (pieces same text.length a b).flatMap (Piece.text text) =
      merge text (fun x y => x ++ if same x y then [] else y) a b := by
  have hrange : ∀ n i : Nat, ((List.range' i n).map Piece.kept).flatMap (Piece.text text) =
      (text.drop i).take n := fun n => by
    induction n with
    | zero =>
        intro i
        simp
    | succ n ih =>
        intro i
        rw [List.range'_succ, List.map_cons, List.flatMap_cons, ih]
        cases hi : text[i]? with
        | none =>
            have hlen := List.getElem?_eq_none_iff.1 hi
            rw [List.drop_eq_nil_of_le hlen, List.drop_eq_nil_of_le (by omega)]
            simp [Piece.text, hi]
        | some c =>
            rcases List.getElem?_eq_some_iff.1 hi with ⟨hlt, rfl⟩
            rw [List.drop_eq_getElem_cons hlt, List.take_succ_cons]
            simp [Piece.text, hi]
  have hinsert : ∀ r : Round γ, (insertedPieces same r).flatMap (Piece.text text) =
      r.inserts fun x y => x ++ if same x y then [] else y := fun r => by
    cases r with
    | both x y =>
        rw [insertedPieces]
        split
        · rename_i hsame
          simp [Piece.text, Round.inserts, hsame]
        · rename_i hsame
          simp [Piece.text, Round.inserts, hsame]
    | left x => simp [insertedPieces, Piece.text, Round.inserts]
    | right y => simp [insertedPieces, Piece.text, Round.inserts]
  have hfrom : ∀ (rs : List (Round γ)), (∀ r ∈ rs, r.start ≤ text.length) → ∀ pos : Nat,
      (applyFrom ((List.range text.length).map Piece.kept) pos
          (rs.map (Round.hunk (insertedPieces same)))).flatMap (Piece.text text) =
        applyFrom text pos
          (rs.map (Round.hunk (Round.inserts fun x y => x ++ if same x y then [] else y))) :=
    fun rs => by
      induction rs with
      | nil =>
          intro _ pos
          rw [List.map_nil, List.map_nil, applyFrom, applyFrom, drop_range_map, hrange,
            List.take_of_length_le (by simp)]
      | cons r rs ih =>
          intro hstart pos
          have hr := hstart r List.mem_cons_self
          rw [List.map_cons, List.map_cons, applyFrom, applyFrom, List.flatMap_append,
            List.flatMap_append, ih fun r' hr' => hstart r' (List.mem_cons_of_mem _ hr')]
          congr 2
          · exact (congrArg (List.flatMap (Piece.text text)) (slice_range Piece.kept pos hr)).trans
              (hrange _ _)
          · exact hinsert r
  rw [merge_eq_apply]
  refine hfrom _ (fun r hr => ?_) 0
  exact Nat.le_trans (within_rounds ha hb hr).1 (within_rounds ha hb hr).2

/-! ## What a merge keeps -/

/-- The positions are those that neither side replaces, every hunk's insert is there once, and one
insert stands for two hunks just where they overlap and insert the same. -/
structure KeepsAll (same : List γ → List γ → Bool) (len : Nat) (a b : List (Hunk γ))
    (ps : List (Piece γ)) : Prop where
  kept : ps.filterMap Piece.kept? =
    (List.range len).filter fun i => Untouched a i ∧ Untouched b i
  left : ps.filterMap Piece.left? = a
  right : ps.filterMap Piece.right? = b
  once : ∀ x ∈ a, ∀ y ∈ b, x.Overlaps y → same x.insert y.insert = true → x.insert ≠ [] →
    .inserted (.both x y) ∈ ps
  only : ∀ x y, .inserted (.both x y) ∈ ps → x.Overlaps y ∧ same x.insert y.insert = true

/-- The condition: a hunk taken by itself reaches to the end of those that it overlaps, and hunks
that overlap and insert the same are taken together. -/
structure InTurn (same : List γ → List γ → Bool) (a b : List (Hunk γ)) : Prop where
  reaches : ∀ r ∈ rounds a b, r.Reaches a b
  together : ∀ x ∈ a, ∀ y ∈ b, x.Overlaps y → same x.insert y.insert = true → x.insert ≠ [] →
    .both x y ∈ rounds a b

theorem keepsAll_pieces_iff (ha : Spaced len a) (hb : Spaced len b) :
    KeepsAll same len a b (pieces same len a b) ↔ InTurn same a b := by
  have hkept := kept_rounds_iff ha hb (insertedPieces same)
  rw [← filterMap_kept_pieces ha hb] at hkept
  constructor
  · intro h
    refine ⟨hkept.1 h.kept, fun x hx y hy hover hsame hne => ?_⟩
    exact (both_mem_pieces.1 (h.once x hx y hy hover hsame hne)).1
  · intro h
    exact {
      kept := hkept.2 h.reaches
      left := filterMap_left_pieces
      right := filterMap_right_pieces
      once := fun x hx y hy hover hsame hne =>
        both_mem_pieces.2 ⟨h.together x hx y hy hover hsame hne, hsame⟩
      only := fun x y hmem =>
        ⟨overlaps_of_both ha hb (both_mem_pieces.1 hmem).1, (both_mem_pieces.1 hmem).2⟩ }

end Pieces

end Hunk
end Lib
end Reflectdb
