import Mathlib.Init

/-!
# Throwing — methods that may throw half-way

A method runs on a state, and what it has written when it throws stays.  `left` is the state after
it either way; a property of states is followed through a sequence of methods, each of which starts
where the one before it has returned.
-/

namespace Reflectdb
namespace Lib

variable {ε σ α β : Type}

/-- The state that a method leaves, whether it returns or throws. -/
def left : EStateM.Result ε σ α → σ
  | .ok _ s => s
  | .error _ s => s

/-- What a method throws, if it does. -/
def thrown : EStateM.Result ε σ α → Option ε
  | .ok _ _ => none
  | .error error _ => some error

theorem thrown_eq_some {r : EStateM.Result ε σ α} {error : ε} :
    thrown r = some error ↔ ∃ s, r = .error error s := by
  cases r with
  | ok a s => simp [thrown]
  | error error' s => simp [thrown]

/-- What each of two methods keeps, their sequence keeps. -/
theorem left_bind {P : σ → Prop} {x : EStateM ε σ α} {f : α → EStateM ε σ β} {s : σ}
    (hx : P (left (x.run s))) (hf : ∀ a s', P s' → P (left ((f a).run s'))) :
    P (left ((x >>= f).run s)) := by
  rw [EStateM.run_bind]
  cases hrun : x.run s with
  | ok a s' =>
      rw [hrun] at hx
      exact hf a s' hx
  | error error s' =>
      rw [hrun] at hx
      exact hx

/-- Dropping the answer leaves the same state. -/
theorem left_discard {x : EStateM ε σ α} {s : σ} :
    left ((do let _ ← x; pure () : EStateM ε σ Unit).run s) = left (x.run s) := by
  rw [EStateM.run_bind]
  cases x.run s <;> rfl

/-! ## Kept properties -/

/-- The property holds afterwards if it held before, whether the method returns or throws. -/
def Keeps (P : σ → Prop) (x : EStateM ε σ α) : Prop :=
  ∀ s, P s → P (left (x.run s))

namespace Keeps

variable {P : σ → Prop}

theorem pure (a : α) : Keeps P (pure a : EStateM ε σ α) :=
  fun _ hs => hs

theorem get : Keeps P (get : EStateM ε σ σ) :=
  fun _ hs => hs

theorem modify {f : σ → σ} (hf : ∀ s, P s → P (f s)) : Keeps P (modify f : EStateM ε σ PUnit) :=
  hf

theorem bind {x : EStateM ε σ α} {f : α → EStateM ε σ β} (hx : Keeps P x)
    (hf : ∀ a, Keeps P (f a)) : Keeps P (x >>= f) :=
  fun s hs => left_bind (hx s hs) hf

end Keeps

end Lib
end Reflectdb
