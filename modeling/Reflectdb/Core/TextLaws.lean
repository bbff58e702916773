import Reflectdb.Core.TextDiff
import Reflectdb.Lib.HunkPieces

/-!
# Text laws — what a caret and a merge keep of a text

A caret stays behind the character it stood behind, as long as this character is kept.  A merge has
the characters that both sides keep and what both sides insert, if no change of one side has a
second change of the other within it.
-/

namespace Reflectdb
namespace Core

open Lib

variable {γ : Type}

/-! ## Carets -/

/-- Where an offset in `prev` lands in `next`.  Text inserted exactly at the offset stays after
it. -/
def mapOffset (unit : γ → UInt16) (prev next : List γ) (offset : ℤ) : ℤ :=
  Hunk.mapOffsetFrom 0 offset (diffText unit prev next)

variable (unit : γ → UInt16) (prev next : List γ)

theorem mapOffset_mono {offset offset' : ℤ} (h : offset ≤ offset') :
    mapOffset unit prev next offset ≤ mapOffset unit prev next offset' :=
  Hunk.mapOffsetFrom_mono h 0 (diffText_spec unit prev next).1.forward

/-- The new text as the diff makes it, each code unit with the position that it was copied from. -/
def copies (unit : γ → UInt16) (prev next : List γ) : List (Option Nat × UInt16) :=
  (Hunk.trace prev (diffText unit prev next)).map fun e => (e.1, unit e.2)

/-- The code units of the copies are those of the new text. -/
theorem map_snd_copies : (copies unit prev next).map (·.2) = next.map unit := by
  calc
    (copies unit prev next).map (·.2)
        = ((Hunk.trace prev (diffText unit prev next)).map (·.2)).map unit := by
          simp [copies, Function.comp_def]
    _ = (applyHunks prev (diffText unit prev next)).map unit := by
          rw [Hunk.map_snd_trace]
          rfl
    _ = next.map unit := (diffText_spec unit prev next).2

theorem length_applyHunks_diffText :
    (applyHunks prev (diffText unit prev next)).length = next.length := by
  have h := congrArg List.length (diffText_spec unit prev next).2
  simpa using h

/-- A caret lands behind the copy of the character that it stood behind. -/
theorem mapOffset_copy {i : Nat} {c : γ} (hc : prev[i]? = some c)
    (hfree : Hunk.Untouched (diffText unit prev next) i) :
    ∃ m : Nat, mapOffset unit prev next (i + 1 : Nat) = m + 1 ∧
      (copies unit prev next)[m]? = some (some i, unit c) := by
  rcases Hunk.mapOffsetFrom_copy hc 0 (diffText_spec unit prev next).1.forward hfree
    (Nat.zero_le i) with ⟨m, hland, hcopy⟩
  refine ⟨m, ?_, ?_⟩
  · unfold mapOffset
    omega
  · have htrace : (Hunk.trace prev (diffText unit prev next))[m]? = some (some i, c) := hcopy
    simp [copies, htrace]

/-- Offsets keep their order and stay within the text, and an offset behind a character that no hunk
replaces lands behind its copy, the same code unit of the new text. -/
theorem caret_follows :
    (∀ offset offset' : ℤ, offset ≤ offset' →
      mapOffset unit prev next offset ≤ mapOffset unit prev next offset') ∧
    (∀ offset : ℤ, 0 ≤ offset → offset ≤ prev.length →
      0 ≤ mapOffset unit prev next offset ∧ mapOffset unit prev next offset ≤ next.length) ∧
    ((copies unit prev next).map (·.2) = next.map unit ∧
      ∀ i c, prev[i]? = some c → Hunk.Untouched (diffText unit prev next) i →
        ∃ m : Nat, mapOffset unit prev next (i + 1 : Nat) = m + 1 ∧
          (copies unit prev next)[m]? = some (some i, unit c)) := by
  have hforward := (diffText_spec unit prev next).1.forward
  refine ⟨fun _ _ => mapOffset_mono unit prev next, fun offset hstart hend => ⟨?_, ?_⟩,
    map_snd_copies unit prev next, fun i c => mapOffset_copy unit prev next⟩
  · have hle := Hunk.le_mapOffsetFrom offset 0 hforward hstart
    simpa [mapOffset] using hle
  · have hle := Hunk.mapOffsetFrom_le hend 0 hforward hstart
    have hlen : (Hunk.applyFrom prev 0 (diffText unit prev next)).length = next.length :=
      length_applyHunks_diffText unit prev next
    rw [hlen] at hle
    simpa [mapOffset] using hle

example : [0, 1, 2, 3].map (mapOffset id [97, 98, 99] [97, 120, 99, 100]) = [0, 1, 2, 3] := by
  decide +kernel

/-! ## Merges -/

/-- What `merge3` puts its result together from. -/
def mergePieces (base ours theirs : List UInt16) : List (Hunk.Piece UInt16) :=
  Hunk.pieces (sameText id) base.length (diffText id base ours) (diffText id base theirs)

theorem applyHunks_diffText_id (a b : List UInt16) : applyHunks a (diffText id a b) = b := by
  have h := (diffText_spec id a b).2
  rwa [List.map_id, List.map_id] at h

theorem sameText_id (a b : List UInt16) : sameText id a b = true ↔ a = b := by
  simp [sameText]

/-- The pieces are the merged text. -/
theorem flatMap_text_mergePieces (base ours theirs : List UInt16) :
    (mergePieces base ours theirs).flatMap (Hunk.Piece.text base) = merge3 id base ours theirs := by
  have hours := (diffText_spec id base ours).1
  have htheirs := (diffText_spec id base theirs).1
  have hdiff : ∀ a b : List UInt16, sameText id a b = true → diffText id a b = [] := fun a b h => by
    rw [diffText, if_pos h]
  refine (Hunk.flatMap_text_pieces hours htheirs).trans ?_
  -- The texts that `merge3` looks at first are merged to the same.
  unfold merge3
  split
  · rename_i hearly
    rcases Bool.or_eq_true_iff.1 hearly with hsame | hsame
    · rw [(sameText_id ours theirs).1 hsame]
      refine (Hunk.merge_self base (fun insert => ?_) _).trans (applyHunks_diffText_id base theirs)
      rw [if_pos ((sameText_id insert insert).2 rfl), List.append_nil]
    · rw [hdiff base theirs (by rwa [sameText_comm])]
      exact (Hunk.merge_nil_right base _ _).trans (applyHunks_diffText_id base ours)
  · split
    · rename_i hsame
      rw [hdiff base ours (by rwa [sameText_comm])]
      exact (Hunk.merge_nil_left base _ _).trans (applyHunks_diffText_id base theirs)
    · rfl

/-- The merged text is made of the characters of the base that no hunk of either side replaces, each
once and in order, and of every insert, once; one insert stands for two hunks just where they
overlap and insert the same text. -/
structure MergeLaw (base ours theirs : List UInt16) : Prop where
  merged : (mergePieces base ours theirs).flatMap (Hunk.Piece.text base) =
    merge3 id base ours theirs
  keeps : Hunk.KeepsAll (sameText id) base.length (diffText id base ours) (diffText id base theirs)
    (mergePieces base ours theirs)

/-- The changes of the two sides come in turn: one that the merge takes by itself reaches to the end
of each change of the other side that it overlaps, and overlapping changes that insert the same text
are taken together. -/
def ChangesInTurn (base ours theirs : List UInt16) : Prop :=
  Hunk.InTurn (sameText id) (diffText id base ours) (diffText id base theirs)

theorem mergeLaw_iff (base ours theirs : List UInt16) :
    MergeLaw base ours theirs ↔ ChangesInTurn base ours theirs := by
  have hkeeps := @Hunk.keepsAll_pieces_iff UInt16 (sameText id) _ _ _
    (diffText_spec id base ours).1 (diffText_spec id base theirs).1
  exact ⟨fun h => hkeeps.1 h.keeps,
    fun h => ⟨flatMap_text_mergePieces base ours theirs, hkeeps.2 h⟩⟩

/-- Ours deletes all of `abcdefgh`, theirs the `a` and the `e`: what stands behind the `e` comes
back. -/
theorem not_mergeLaw : ¬ ∀ base ours theirs, MergeLaw base ours theirs := by
  intro h
  have hkept := (h [97, 98, 99, 100, 101, 102, 103, 104] [] [98, 99, 100, 102, 103, 104]).keeps.kept
  exact absurd hkept (by decide +kernel)

example : merge3 id [97, 98, 99, 100, 101, 102, 103, 104] [] [98, 99, 100, 102, 103, 104] =
    [102, 103, 104] := by
  decide +kernel

end Core
end Reflectdb
