import Mathlib.Algebra.GroupWithZero.Nat
import Mathlib.Data.List.Basic

/-!
# Pattern — literals and captures, the greedy matcher and what it reads

A pattern is a list of literals and named captures; a capture takes one or more symbols other than
the separator.  A text may have several readings under a pattern.  `exec` is the backtracking
matcher with greedy captures, and `Greediest` says which of the readings it answers.
-/

namespace Reflectdb
namespace Lib

inductive Piece (α ν : Type)
  | lit (c : α)
  | param (name : ν)

namespace Pattern

variable {α ν : Type} [DecidableEq α] (sep : α)

/-- The names of the captures, in order. -/
def names : List (Piece α ν) → List ν
  | [] => []
  | .lit _ :: ps => names ps
  | .param name :: ps => name :: names ps

/-- The text that the pattern stands for, with a value in the place of each capture. -/
def substitute (f : ν → List α) : List (Piece α ν) → List α
  | [] => []
  | .lit c :: ps => c :: substitute f ps
  | .param name :: ps => f name ++ substitute f ps

/-! ## The matcher -/

/-- One capture before `k`: a longer one is tried first. -/
def capture (k : List α → Option (List (List α))) : List α → Option (List (List α))
  | [] => none
  | c :: s =>
    if c = sep then none
    else match capture k s with
      | some (w :: caps) => some ((c :: w) :: caps)
      | _ => (k s).map ([c] :: ·)

def exec : List (Piece α ν) → List α → Option (List (List α))
  | [], [] => some []
  | [], _ :: _ => none
  | .lit _ :: _, [] => none
  | .lit c :: ps, d :: s => if d = c then exec ps s else none
  | .param _ :: ps, s => capture sep (exec ps) s

/-! ## Readings -/

/-- `s` can be read as the pattern with these captures. -/
inductive Parses : List (Piece α ν) → List α → List (List α) → Prop
  | nil : Parses [] [] []
  | lit (c : α) {ps : List (Piece α ν)} {s : List α} {caps : List (List α)} :
      Parses ps s caps → Parses (.lit c :: ps) (c :: s) caps
  | param (name : ν) {w : List α} {ps : List (Piece α ν)} {s : List α} {caps : List (List α)} :
      w ≠ [] → sep ∉ w → Parses ps s caps → Parses (.param name :: ps) (w ++ s) (w :: caps)

/-- The first captures that differ are longer on the left. -/
inductive AtLeast : List (List α) → List (List α) → Prop
  | nil : AtLeast [] []
  | longer {w v : List α} {caps caps' : List (List α)} :
      v.length < w.length → AtLeast (w :: caps) (v :: caps')
  | same (w : List α) {caps caps' : List (List α)} :
      AtLeast caps caps' → AtLeast (w :: caps) (w :: caps')

/-- The reading whose captures are longest, an earlier one before a later one. -/
structure Greediest (ps : List (Piece α ν)) (s : List α) (caps : List (List α)) : Prop where
  parses : Parses sep ps s caps
  atLeast : ∀ caps', Parses sep ps s caps' → AtLeast caps caps'

omit [DecidableEq α] in
theorem AtLeast.antisymm {caps caps' : List (List α)} (h : AtLeast caps caps')
    (h' : AtLeast caps' caps) : caps = caps' := by
  induction h with
  | nil => rfl
  | longer hlt =>
      cases h' with
      | longer hlt' => exact absurd hlt' (Nat.lt_asymm hlt)
      | same => exact absurd hlt (Nat.lt_irrefl _)
  | same w _ ih =>
      cases h' with
      | longer hlt => exact absurd hlt (Nat.lt_irrefl _)
      | same _ hrest => rw [ih hrest]

variable {sep}

/-! ## The matcher answers the greediest reading -/

/-- A capture takes a text without the separator, and `k` goes on behind it. -/
theorem capture_eq_some {k : List α → Option (List (List α))} {s : List α}
    {caps : List (List α)} (h : capture sep k s = some caps) :
    ∃ w t rest, s = w ++ t ∧ w ≠ [] ∧ sep ∉ w ∧ k t = some rest ∧ caps = w :: rest := by
  induction s generalizing caps with
  | nil => cases h
  | cons c s ih =>
      rw [capture] at h
      split at h
      · cases h
      · rename_i hc
        have hne : sep ≠ c := fun heq => hc heq.symm
        split at h
        · rename_i w caps' hcapture
          cases h
          obtain ⟨w', t, rest, rfl, -, hsep, hk, hcaps⟩ := ih hcapture
          cases hcaps
          refine ⟨c :: w, t, caps', rfl, by simp, ?_, hk, rfl⟩
          simpa using ⟨hne, hsep⟩
        · obtain ⟨rest, hk, rfl⟩ := Option.map_eq_some_iff.1 h
          exact ⟨[c], s, rest, rfl, by simp, by simpa using hne, hk, rfl⟩

/-- It takes at least as much as any text behind which `k` goes on. -/
theorem capture_longest {k : List α → Option (List (List α))} {w t : List α} (hw : w ≠ [])
    (hsep : sep ∉ w) (hk : (k t).isSome) :
    ∃ v caps, capture sep k (w ++ t) = some (v :: caps) ∧ w.length ≤ v.length := by
  induction w with
  | nil => exact absurd rfl hw
  | cons c w ih =>
      obtain ⟨hc, hsep'⟩ : sep ≠ c ∧ sep ∉ w := by simpa using hsep
      simp only [List.cons_append, capture, hc.symm, if_false]
      by_cases hnil : w = []
      · subst hnil
        obtain ⟨rest, hrest⟩ := Option.isSome_iff_exists.1 hk
        -- Whatever the longer attempt answers, one symbol is enough.
        split
        · exact ⟨_, _, rfl, by simp⟩
        · exact ⟨[c], rest, by simp [hrest], Nat.le_refl _⟩
      · obtain ⟨v, caps, hcapture, hle⟩ := ih hnil hsep'
        exact ⟨c :: v, caps, by simp [hcapture], Nat.succ_le_succ hle⟩

theorem exec_parses {ps : List (Piece α ν)} {s : List α} {caps : List (List α)}
    (h : exec sep ps s = some caps) : Parses sep ps s caps := by
  induction ps generalizing s caps with
  | nil =>
      cases s with
      | nil => cases h; exact .nil
      | cons => cases h
  | cons p ps ih =>
      cases p with
      | lit c =>
          cases s with
          | nil => cases h
          | cons d s =>
              obtain ⟨rfl, hexec⟩ := Option.ite_none_right_eq_some.1 h
              exact .lit d (ih hexec)
      | param name =>
          obtain ⟨w, t, rest, rfl, hw, hsep, hexec, rfl⟩ := capture_eq_some h
          exact .param name hw hsep (ih hexec)

/-- Wherever there is a reading, the matcher answers one that is at least as greedy. -/
theorem exec_atLeast {ps : List (Piece α ν)} {s : List α} {caps : List (List α)}
    (h : Parses sep ps s caps) : ∃ caps', exec sep ps s = some caps' ∧ AtLeast caps' caps := by
  induction h with
  | nil => exact ⟨[], rfl, .nil⟩
  | lit c _ ih =>
      obtain ⟨caps', hexec, hle⟩ := ih
      exact ⟨caps', by simp [exec, hexec], hle⟩
  | @param name w ps t caps hw hsep _ ih =>
      obtain ⟨caps', hexec, hle⟩ := ih
      have hk : (exec sep ps t).isSome := by simp [hexec]
      obtain ⟨v, rest, hcapture, hlength⟩ := capture_longest hw hsep hk
      refine ⟨v :: rest, hcapture, ?_⟩
      rcases Nat.lt_or_eq_of_le hlength with hlt | heq
      · exact .longer hlt
      · -- The same length at the same place is the same text.
        obtain ⟨v', t', rest', hsplit, -, -, hk', hcaps⟩ := capture_eq_some hcapture
        cases hcaps
        obtain ⟨rfl, rfl⟩ := List.append_inj hsplit heq
        obtain rfl : caps' = rest := Option.some.inj (hexec.symm.trans hk')
        exact .same w hle

theorem exec_eq_some_iff {ps : List (Piece α ν)} {s : List α} {caps : List (List α)} :
    exec sep ps s = some caps ↔ Greediest sep ps s caps := by
  constructor
  · intro h
    refine ⟨exec_parses h, fun caps' hcaps' => ?_⟩
    obtain ⟨caps'', hexec, hle⟩ := exec_atLeast hcaps'
    obtain rfl : caps = caps'' := Option.some.inj (h.symm.trans hexec)
    exact hle
  · intro h
    obtain ⟨caps', hexec, hle⟩ := exec_atLeast h.parses
    rw [hexec, hle.antisymm (h.atLeast caps' (exec_parses hexec))]

theorem exec_isSome_iff {ps : List (Piece α ν)} {s : List α} :
    (exec sep ps s).isSome ↔ ∃ caps, Parses sep ps s caps := by
  constructor
  · intro h
    obtain ⟨caps, hexec⟩ := Option.isSome_iff_exists.1 h
    exact ⟨caps, exec_parses hexec⟩
  · rintro ⟨caps, hcaps⟩
    obtain ⟨caps', hexec, -⟩ := exec_atLeast hcaps
    simp [hexec]

/-! ## Patterns with one reading -/

omit [DecidableEq α] in
/-- A pattern without captures is read as the text that it spells. -/
theorem parses_substitute_of_names_nil {ps : List (Piece α ν)} (h : names ps = [])
    (f : ν → List α) : Parses sep ps (substitute f ps) [] := by
  induction ps with
  | nil => exact .nil
  | cons p ps ih =>
      cases p with
      | lit c => exact .lit c (ih h)
      | param name => cases h

variable (sep)

/-- A literal separator comes before the next capture. -/
def Clear : List (Piece α ν) → Prop
  | [] => True
  | .lit c :: ps => c = sep ∨ Clear ps
  | .param _ :: _ => False

/-- Any two captures have a literal separator between them. -/
def Separated : List (Piece α ν) → Prop
  | [] => True
  | .lit _ :: ps => Separated ps
  | .param _ :: ps => Clear sep ps ∧ Separated ps

/-- The literals before the first separator. -/
def lead : List (Piece α ν) → List α
  | .lit c :: ps => if c = sep then [] else c :: lead ps
  | _ => []

variable {sep}

theorem takeWhile_substitute {ps : List (Piece α ν)} (h : Clear sep ps) (f : ν → List α) :
    (substitute f ps).takeWhile (· ≠ sep) = lead sep ps := by
  induction ps with
  | nil => rfl
  | cons p ps ih =>
      cases p with
      | lit c =>
          by_cases hc : c = sep
          · simp [substitute, lead, hc]
          · simpa [substitute, lead, hc] using ih (h.resolve_left hc)
      | param name => cases h

theorem Parses.takeWhile {ps : List (Piece α ν)} {s : List α} {caps : List (List α)}
    (h : Parses sep ps s caps) (hclear : Clear sep ps) : s.takeWhile (· ≠ sep) = lead sep ps := by
  induction h with
  | nil => rfl
  | lit c _ ih =>
      by_cases hc : c = sep
      · simp [lead, hc]
      · simpa [lead, hc] using ih (hclear.resolve_left hc)
  | param => cases hclear

/-- A reading has the separators of the literals, so the values add none. -/
theorem Parses.count_substitute {ps : List (Piece α ν)} {s : List α} {caps : List (List α)}
    (h : Parses sep ps s caps) (f : ν → List α) :
    (substitute f ps).count sep = s.count sep + ((names ps).map fun n => (f n).count sep).sum := by
  induction h with
  | nil => rfl
  | lit c _ ih =>
      simp only [substitute, names, List.count_cons, ih]
      omega
  | param name _ hsep _ ih =>
      simp only [substitute, names, List.count_append, List.count_eq_zero_of_not_mem hsep, ih,
        List.map_cons, List.sum_cons]
      omega

/-- Under a separated pattern, what was substituted is the only reading of the text. -/
theorem Parses.eq_of_separated {ps : List (Piece α ν)} {f : ν → List α} {caps : List (List α)}
    (h : Parses sep ps (substitute f ps) caps) (hsep : Separated sep ps) :
    caps = (names ps).map f := by
  generalize hs : substitute f ps = s at h
  induction h with
  | nil => rfl
  | lit c _ ih =>
      exact ih hsep (List.cons.inj hs).2
  | @param name w ps t caps _ hw hrest ih =>
      have hcount := hrest.count_substitute f
      have htotal := congrArg (List.count sep) hs
      simp only [substitute, List.count_append, List.count_eq_zero_of_not_mem hw] at htotal
      have hf : sep ∉ f name := by
        apply List.count_eq_zero.1
        omega
      -- Up to the next separator both sides end in the same literals.
      have hlead := congrArg (List.takeWhile (· ≠ sep)) hs
      have hall : ∀ {v : List α}, sep ∉ v → ∀ c ∈ v, decide (c ≠ sep) = true := by
        intro v hv c hc
        exact decide_eq_true fun heq => hv (heq ▸ hc)
      rw [substitute, List.takeWhile_append_of_pos (hall hf),
        List.takeWhile_append_of_pos (hall hw), takeWhile_substitute hsep.1, hrest.takeWhile hsep.1]
        at hlead
      have heq : f name = w := List.append_cancel_right hlead
      rw [substitute, heq] at hs
      simp [names, heq, ih hsep.2 (List.append_cancel_left hs)]

end Pattern

end Lib
end Reflectdb
