import Mathlib.Data.UInt
import Reflectdb.Lib.Hunks
import Reflectdb.Lib.Text

/-!
# Text — diffs and the three-way merge of text columns

A text is a list of characters, of which the code sees the code units only: `unit` is what
`charCodeAt` gives.  Two characters with one code unit are the same to the code, and may be
different characters to the people who typed them.  With `unit` the identity these are the functions
of `src/core/text.ts` on strings.
-/

namespace Reflectdb
namespace Core

open Lib

/-- `[start, end, insert]`. -/
abbrev TextHunk (γ : Type) : Type :=
  Hunk γ

def MAX_EDITS : Nat := 2000

section Text

variable {γ : Type} (unit : γ → UInt16)

/-- `a === b` of two strings. -/
def sameText (a b : List γ) : Bool :=
  a.map unit == b.map unit

/-- How many code units two texts have in common from their start on. -/
def commonHead : List UInt16 → List UInt16 → Nat
  | c :: a, d :: b => if c = d then commonHead a b + 1 else 0
  | _, _ => 0

/-! ## `diffText` -/

/-- One edit of the path that the search finds, at `x` in the old text and `y` in the new one. -/
inductive Edit
  | del (x y : Int)
  | ins (x y : Int)

def Edit.x : Edit → Int
  | .del x _ => x
  | .ins x _ => x

/-- The two middles that are searched, with `limit` and what it makes of `offset`. -/
structure Search where
  old : List UInt16
  new : List UInt16
  limit : Nat

namespace Search

/-- `v[offset + k]`. -/
def at_ (s : Search) (v : Array Int) (k : Int) : Int :=
  v.getD (s.limit + 1 + k).toNat 0

/-- Whether diagonal `k` is reached by an insertion. -/
def down (s : Search) (v : Array Int) (d k : Int) : Bool :=
  k = -d ∨ (k ≠ d ∧ s.at_ v (k - 1) < s.at_ v (k + 1))

/-- The furthest `x` on diagonal `k` with `d` edits. -/
def furthest (s : Search) (v : Array Int) (d k : Int) : Int :=
  let x := if s.down v d k then s.at_ v (k + 1) else s.at_ v (k - 1) + 1
  x + commonHead (s.old.drop x.toNat) (s.new.drop (x - k).toNat)

def diagonals (d : Nat) : List Int :=
  (List.range (d + 1)).map fun i => -(d : Int) + 2 * i

/-- Whether the ends are reached on one of the diagonals. -/
def reaches (s : Search) (v : Array Int) (d : Nat) : Bool :=
  (diagonals d).any fun k =>
    let x := s.furthest v d k
    s.old.length ≤ x ∧ s.new.length ≤ x - k

/-- `next` after a round that does not reach the ends. -/
def round (s : Search) (v : Array Int) (d : Nat) : Array Int :=
  (diagonals d).foldl
    (fun next k => next.setIfInBounds ((s.limit : Int) + 1 + k).toNat (s.furthest v d k)) v

/-- The rounds from `d` on: how many edits it takes, and what `v` was before each round. -/
def rounds (s : Search) : Nat → Nat → Array Int → List (Array Int) → Option (Nat × List (Array Int))
  | 0, _, _, _ => none
  | fuel + 1, d, v, trace =>
    if s.reaches v d then some (d, trace ++ [v])
    else rounds s fuel (d + 1) (s.round v d) (trace ++ [v])

/-- The walk back through the rounds, with the edits in the order of the text. -/
def walkBack (s : Search) (trace : List (Array Int)) : Nat → Int → Int → List Edit
  | 0, _, _ => []
  | d + 1, x, y =>
    let v := trace.getD (d + 1) #[]
    let k := x - y
    if s.down v (d + 1) k then
      let prevX := s.at_ v (k + 1)
      let prevY := prevX - (k + 1)
      walkBack s trace d prevX prevY ++ [.ins prevX prevY]
    else
      let prevX := s.at_ v (k - 1)
      let prevY := prevX - (k - 1)
      walkBack s trace d prevX prevY ++ [.del prevX prevY]

/-- The edits of the path, if it is no longer than the limit. -/
def edits (s : Search) : Option (List Edit) :=
  (s.rounds (s.limit + 1) 0 (Array.replicate (2 * s.limit + 3) 0) []).map fun found =>
    s.walkBack found.2 found.1 s.old.length s.new.length

end Search

/-- The next edit of the path, into the last hunk if it goes on from it. -/
def addEdit (head : Nat) (new : List γ) (hunks : List (TextHunk γ)) (e : Edit) :
    List (TextHunk γ) :=
  let position := (head + e.x).toNat
  let (closed, cur) : List (TextHunk γ) × TextHunk γ :=
    match hunks.getLast? with
    | some cur => if cur.stop = position then (hunks.dropLast, cur)
        else (hunks, ⟨position, position, []⟩)
    | none => ([], ⟨position, position, []⟩)
  match e with
  | .del _ _ => closed ++ [{ cur with stop := position + 1 }]
  | .ins _ y => closed ++ [{ cur with insert := cur.insert ++ (new.drop (head + y).toNat).take 1 }]

/-- Character diff, trimmed at both ends. -/
def diffText (a b : List γ) : List (TextHunk γ) :=
  if sameText unit a b then []
  else
    let old := a.map unit
    let new := b.map unit
    let head := commonHead old new
    let tail := min (commonHead old.reverse new.reverse) (min a.length b.length - head)
    let n := a.length - head - tail
    let m := b.length - head - tail
    let whole : List (TextHunk γ) := [⟨head, head + n, slice b head (head + m)⟩]
    if n = 0 ∨ m = 0 then whole
    else
      match Search.edits
        ⟨(old.drop head).take n, (new.drop head).take m, min (n + m) MAX_EDITS⟩ with
      | none => whole
      | some edits => edits.foldl (addEdit head b) []

/-! ## Merging -/

def applyHunks (text : List γ) (hunks : List (TextHunk γ)) : List γ :=
  Hunk.apply text hunks

/-- What two overlapping changes insert: an identical insert lands once. -/
def joinInserts (ours theirs : List γ) : List γ :=
  ours ++ if sameText unit ours theirs then [] else theirs

/-- Apply both sides' changes to `base`. -/
def merge3 (base ours theirs : List γ) : List γ :=
  if sameText unit ours theirs || sameText unit theirs base then ours
  else if sameText unit ours base then theirs
  else Hunk.merge base (joinInserts unit) (diffText unit base ours) (diffText unit base theirs)

/-- FNV-1a. -/
def hashText (text : List γ) : UInt32 :=
  text.foldl (fun h c => (h ^^^ (unit c).toUInt32) * 0x01000193) 0x811c9dc5

/-! ## Diffs that see each character -/

/-- The diff takes a character of one text for the same character of the other, and for no other. -/
structure DiffFollows (a b : List γ) : Prop where
  forward : Hunk.Forward a.length 0 (diffText unit a b)
  applies : applyHunks a (diffText unit a b) = b
  fresh : ∀ c ∈ Hunk.inserted (diffText unit a b), c ∉ a

/-- Both diffs see the characters; each change overlaps at most one of the other side, and none that
inserts the same text. -/
structure MergesCleanly (base ours theirs : List γ) : Prop where
  followsOurs : DiffFollows unit base ours
  followsTheirs : DiffFollows unit base theirs
  oneToOne : Hunk.OneToOne (diffText unit base ours) (diffText unit base theirs)
  joins : Hunk.JoinsBoth (joinInserts unit) (diffText unit base ours) (diffText unit base theirs)
  same : sameText unit ours theirs = true → ours = theirs

instance [DecidableEq γ] (a b : List γ) : Decidable (DiffFollows unit a b) :=
  decidable_of_iff (Hunk.Forward a.length 0 (diffText unit a b) ∧
    applyHunks a (diffText unit a b) = b ∧ ∀ c ∈ Hunk.inserted (diffText unit a b), c ∉ a)
    ⟨fun h => ⟨h.1, h.2.1, h.2.2⟩, fun h => ⟨h.forward, h.applies, h.fresh⟩⟩

instance [DecidableEq γ] (base ours theirs : List γ) :
    Decidable (MergesCleanly unit base ours theirs) :=
  decidable_of_iff (DiffFollows unit base ours ∧ DiffFollows unit base theirs ∧
    Hunk.OneToOne (diffText unit base ours) (diffText unit base theirs) ∧
    Hunk.JoinsBoth (joinInserts unit) (diffText unit base ours) (diffText unit base theirs) ∧
    (sameText unit ours theirs = true → ours = theirs))
    ⟨fun h => ⟨h.1, h.2.1, h.2.2.1, h.2.2.2.1, h.2.2.2.2⟩,
      fun h => ⟨h.followsOurs, h.followsTheirs, h.oneToOne, h.joins, h.same⟩⟩

variable {unit}

theorem sameText_comm (a b : List γ) : sameText unit a b = sameText unit b a := by
  rw [sameText, sameText, BEq.comm]

theorem sameText_trans {a b c : List γ} (hab : sameText unit a b = true)
    (hbc : sameText unit b c = true) : sameText unit a c = true := by
  rw [sameText, beq_iff_eq] at *
  exact hab.trans hbc

/-- Where the code sees no difference there is none. -/
theorem DiffFollows.eq_of_sameText {a b : List γ} (h : DiffFollows unit a b)
    (hsame : sameText unit a b = true) : a = b := by
  have happlies := h.applies
  rw [diffText, if_pos hsame] at happlies
  exact happlies

section merge3

variable [DecidableEq γ] {base ours theirs : List γ} {t : γ}

theorem DiffFollows.count_le {a b : List γ} (h : DiffFollows unit a b) (ht : t ∈ a) :
    b.count t ≤ a.count t := by
  have hcount := @Hunk.count_apply_add γ _ a (diffText unit a b) t h.forward
  have hins : (Hunk.inserted (diffText unit a b)).count t = 0 :=
    List.count_eq_zero_of_not_mem fun hmem => h.fresh t hmem ht
  have happlies : Hunk.apply a (diffText unit a b) = b := h.applies
  rw [happlies] at hcount
  omega

/-- A character of the base stays just where both sides keep it. -/
theorem count_merge3_base (h : MergesCleanly unit base ours theirs) (ht : base.count t = 1) :
    (merge3 unit base ours theirs).count t = if t ∈ ours ∧ t ∈ theirs then 1 else 0 := by
  have hmem : t ∈ base := List.count_pos_iff.1 (by omega)
  have hours := h.followsOurs.count_le hmem
  have htheirs := h.followsTheirs.count_le hmem
  have hone : ∀ {text : List γ}, text.count t ≤ base.count t →
      text.count t = if t ∈ text then 1 else 0 := by
    intro text hle
    split
    · rename_i hin
      have := List.count_pos_iff.2 hin
      omega
    · rename_i hout
      exact List.count_eq_zero_of_not_mem hout
  unfold merge3
  split
  · rename_i hearly
    rw [hone hours]
    rcases Bool.or_eq_true_iff.1 hearly with hsame | hsame
    · simp [h.same hsame]
    · have heq := h.followsTheirs.eq_of_sameText (by rwa [sameText_comm])
      simp [← heq, hmem]
  · split
    · rename_i hsame
      have heq := h.followsOurs.eq_of_sameText (by rwa [sameText_comm])
      rw [hone htheirs]
      simp [← heq, hmem]
    · rw [Hunk.count_merge_of_mem h.followsOurs.forward h.followsTheirs.forward
        h.oneToOne h.joins ht
        (fun hin => h.followsOurs.fresh t hin hmem) (fun hin => h.followsTheirs.fresh t hin hmem)]
      have hoursEq : Hunk.apply base (diffText unit base ours) = ours := h.followsOurs.applies
      have htheirsEq :
          Hunk.apply base (diffText unit base theirs) = theirs := h.followsTheirs.applies
      rw [hoursEq, htheirsEq]

/-- A character that is not of the base, and that one side lacks, is there as on the other side. -/
theorem count_merge3_ours (h : MergesCleanly unit base ours theirs) (ht : t ∉ base)
    (htheirs : t ∉ theirs) : (merge3 unit base ours theirs).count t = ours.count t := by
  unfold merge3
  split
  · rfl
  · split
    · rename_i hsame
      have heq := h.followsOurs.eq_of_sameText (by rwa [sameText_comm])
      rw [← heq, List.count_eq_zero_of_not_mem ht, List.count_eq_zero_of_not_mem htheirs]
    · rw [Hunk.count_merge_of_not_mem h.followsOurs.forward h.followsTheirs.forward
        h.oneToOne h.joins ht]
      have hoursEq : Hunk.apply base (diffText unit base ours) = ours := h.followsOurs.applies
      have htheirsEq :
          Hunk.apply base (diffText unit base theirs) = theirs := h.followsTheirs.applies
      rw [hoursEq, htheirsEq, List.count_eq_zero_of_not_mem htheirs, Nat.add_zero]

theorem count_merge3_theirs (h : MergesCleanly unit base ours theirs) (ht : t ∉ base)
    (hours : t ∉ ours) : (merge3 unit base ours theirs).count t = theirs.count t := by
  unfold merge3
  split
  · rename_i hearly
    rcases Bool.or_eq_true_iff.1 hearly with hsame | hsame
    · rw [h.same hsame]
    · have heq := h.followsTheirs.eq_of_sameText (by rwa [sameText_comm])
      rw [← heq, List.count_eq_zero_of_not_mem ht, List.count_eq_zero_of_not_mem hours]
  · split
    · rfl
    · rw [Hunk.count_merge_of_not_mem h.followsOurs.forward h.followsTheirs.forward
        h.oneToOne h.joins ht]
      have hoursEq : Hunk.apply base (diffText unit base ours) = ours := h.followsOurs.applies
      have htheirsEq :
          Hunk.apply base (diffText unit base theirs) = theirs := h.followsTheirs.applies
      rw [hoursEq, htheirsEq, List.count_eq_zero_of_not_mem hours, Nat.zero_add]

/-- A character that theirs keeps of the base, and that ours has beside theirs only from the base:
the merge has it where ours has it, or where theirs has inserted it, and once. -/
theorem mem_merge3 (h : MergesCleanly unit base ours theirs) (hbase : base.count t ≤ 1)
    (hours : ours.count t ≤ 1) (htheirs : theirs.count t ≤ 1) (hkeeps : t ∈ base → t ∈ theirs)
    (hapart : t ∈ ours → t ∈ theirs → t ∈ base) :
    (t ∈ merge3 unit base ours theirs ↔ t ∈ ours ∨ t ∈ theirs ∧ t ∉ base) ∧
      (merge3 unit base ours theirs).count t ≤ 1 := by
  by_cases hmem : t ∈ base
  · have hone : base.count t = 1 := by
      have hpos := List.count_pos_iff.2 hmem
      omega
    have hcount := count_merge3_base h hone
    have hiff : t ∈ ours ∧ t ∈ theirs ↔ t ∈ ours := and_iff_left (hkeeps hmem)
    rw [← List.count_pos_iff, hcount]
    by_cases hin : t ∈ ours <;> simp [hin, hmem, hkeeps hmem]
  · by_cases hin : t ∈ ours
    · have hcount := count_merge3_ours h hmem fun ht => hmem (hapart hin ht)
      rw [← List.count_pos_iff, hcount, List.count_pos_iff]
      exact ⟨by simp [hin], hours⟩
    · have hcount := count_merge3_theirs h hmem hin
      rw [← List.count_pos_iff, hcount, List.count_pos_iff]
      exact ⟨by simp [hin, hmem], htheirs⟩

/-- A merge has no characters but those of the three texts. -/
theorem mem_of_mem_merge3 (h : MergesCleanly unit base ours theirs)
    (ht : t ∈ merge3 unit base ours theirs) : t ∈ base ∨ t ∈ ours ∨ t ∈ theirs := by
  by_contra hnot
  rw [not_or, not_or] at hnot
  have hcount := count_merge3_ours h hnot.1 hnot.2.2
  rw [List.count_eq_zero_of_not_mem hnot.2.1] at hcount
  exact List.count_eq_zero.1 hcount ht

end merge3

end Text

/-! ## Edits -/

/-- `{ value, back }`: the new text, and what turns it into the text it was based on. -/
structure TextChange (γ : Type) where
  value : List γ
  back : List (TextHunk γ)

structure TextRemoval where
  column : String
  baseHash : UInt32

/-- `TextEdit`: an instruction of the client to the server, by the writer `who` and with the
writer's number `n`. -/
structure TextEdit (γ : Type) where
  who : Lib.Text
  n : Nat
  edits : List (String × TextChange γ)
  remove : Option TextRemoval

def TEXT_SEEN_LIMIT : Nat := 64

example : diffText id [97, 98, 99] [97, 120, 99, 100] = [⟨1, 2, [120]⟩, ⟨3, 3, [100]⟩] := by
  decide +kernel

example : merge3 id [97, 98, 99] [97, 120, 98, 99] [97, 98, 99, 121] = [97, 120, 98, 99, 121] := by
  decide +kernel

end Core
end Reflectdb
