import Mathlib.Data.List.Basic

/-!
# Serial — operations on one value, one after the other

A `Turn` is an operation with the value that it meets.  Turns are serial from a first value to a
last one if each meets what the one before it leaves.  An operation that leaves a value as it is may
be put in wherever the value is passed.
-/

namespace Reflectdb
namespace Lib

/-- An operation, and the value that it meets. -/
structure Turn (σ ω : Type) where
  op : ω
  before : σ

section Serial

variable {σ ω : Type} (run : σ → ω → σ)

def Turn.after (turn : Turn σ ω) : σ :=
  run turn.before turn.op

/-- Each operation meets what the one before it leaves. -/
def Serial : σ → List (Turn σ ω) → σ → Prop
  | first, [], last => last = first
  | first, turn :: turns, last => turn.before = first ∧ Serial (turn.after run) turns last

/-- The first value, or what an operation leaves. -/
def Passed (first : σ) (turns : List (Turn σ ω)) (value : σ) : Prop :=
  value = first ∨ ∃ turn ∈ turns, value = turn.after run

variable {run} {first last value : σ} {turns : List (Turn σ ω)}

theorem serial_append : ∀ {first : σ} {xs ys : List (Turn σ ω)},
    Serial run first (xs ++ ys) last ↔ ∃ mid, Serial run first xs mid ∧ Serial run mid ys last := by
  intro first xs
  induction xs generalizing first with
  | nil =>
      intro ys
      exact ⟨fun h => ⟨first, rfl, h⟩, fun ⟨mid, hmid, h⟩ => hmid ▸ h⟩
  | cons x xs ih =>
      intro ys
      constructor
      · rintro ⟨hbefore, h⟩
        rcases ih.1 h with ⟨mid, hxs, hys⟩
        exact ⟨mid, ⟨hbefore, hxs⟩, hys⟩
      · rintro ⟨mid, ⟨hbefore, hxs⟩, hys⟩
        exact ⟨hbefore, ih.2 ⟨mid, hxs, hys⟩⟩

theorem Serial.concat (h : Serial run first turns last) (op : ω) :
    Serial run first (turns ++ [⟨op, last⟩]) (run last op) :=
  serial_append.2 ⟨last, h, rfl, rfl⟩

/-- The operations, run in this order, lead from the first value to the last. -/
theorem Serial.foldl : ∀ {first : σ} {turns : List (Turn σ ω)}, Serial run first turns last →
    (turns.map (·.op)).foldl run first = last := by
  intro first turns
  induction turns generalizing first with
  | nil => intro h; exact h.symm
  | cons turn turns ih =>
      rintro ⟨hbefore, h⟩
      subst hbefore
      exact ih h

theorem Passed.mono {turns' : List (Turn σ ω)} (h : Passed run first turns value)
    (hsub : ∀ turn ∈ turns, turn ∈ turns') : Passed run first turns' value := by
  rcases h with rfl | ⟨turn, hmem, rfl⟩
  · exact Or.inl rfl
  · exact Or.inr ⟨turn, hsub turn hmem, rfl⟩

theorem Serial.passed_last : ∀ {first : σ} {turns : List (Turn σ ω)}, Serial run first turns last →
    Passed run first turns last := by
  intro first turns
  induction turns generalizing first with
  | nil => intro h; exact Or.inl h
  | cons turn turns ih =>
      rintro ⟨-, h⟩
      rcases ih h with heq | ⟨turn', hmem, heq⟩
      · exact Or.inr ⟨turn, List.mem_cons_self, heq⟩
      · exact Or.inr ⟨turn', List.mem_cons_of_mem _ hmem, heq⟩

/-- A value that is passed splits the turns. -/
theorem Serial.exists_split (h : Serial run first turns last)
    (hpassed : Passed run first turns value) :
    ∃ xs ys, turns = xs ++ ys ∧ Serial run first xs value ∧ Serial run value ys last := by
  rcases hpassed with rfl | ⟨turn, hmem, rfl⟩
  · exact ⟨[], turns, rfl, rfl, h⟩
  · rcases List.append_of_mem hmem with ⟨xs, ys, rfl⟩
    rcases serial_append.1 h with ⟨mid, hxs, hbefore, hys⟩
    subst hbefore
    refine ⟨xs ++ [turn], ys, by simp, serial_append.2 ⟨_, hxs, rfl, rfl⟩, hys⟩

/-- An operation that changes nothing there takes its turn where the value is passed. -/
theorem Serial.exists_insert (h : Serial run first turns last)
    (hpassed : Passed run first turns value) {op : ω} (hop : run value op = value) :
    ∃ xs ys, turns = xs ++ ys ∧ Serial run first (xs ++ ⟨op, value⟩ :: ys) last := by
  rcases h.exists_split hpassed with ⟨xs, ys, rfl, hxs, hys⟩
  refine ⟨xs, ys, rfl, serial_append.2 ⟨value, hxs, rfl, ?_⟩⟩
  rw [Turn.after, hop]
  exact hys

end Serial

end Lib
end Reflectdb
