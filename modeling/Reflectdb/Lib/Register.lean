import Mathlib.Data.List.Basic

/-!
# Register — an object that is only overwritten under a condition

A store keeps the latest version of the object; the history of all of them is what it has been told.
A version's tag is its number, and 0 is the tag of the absent object.  A write that names the tag of
the latest version appends to the history; any other write is refused.
-/

namespace Reflectdb
namespace Lib

/-- What the tag `k` stands for in a history of writes: the `k`-th, `absent` for 0. -/
def tagged {α β : Type} (absent : β) (f : α → β) (history : List α) : Nat → β
  | 0 => absent
  | k + 1 => history[k]?.elim absent f

section Tagged

variable {α β : Type} {absent : β} {f : α → β} {history : List α} {k : Nat} {x : α}

@[simp] theorem tagged_zero : tagged absent f history 0 = absent :=
  rfl

@[simp] theorem tagged_nil : tagged absent f [] k = absent := by
  cases k <;> rfl

/-- A tag that was given keeps its meaning. -/
theorem tagged_append (h : k ≤ history.length) (more : List α) :
    tagged absent f (history ++ more) k = tagged absent f history k := by
  cases k with
  | zero => rfl
  | succ k => simp [tagged, List.getElem?_append_left h]

@[simp] theorem tagged_concat (x : α) :
    tagged absent f (history ++ [x]) (history.length + 1) = f x := by
  simp [tagged]

theorem tagged_of_getElem? (h : history[k]? = some x) :
    tagged absent f history (k + 1) = f x := by
  simp [tagged, h]

/-- A tag stands for the absent object or for a version of the history. -/
theorem tagged_mem (k : Nat) :
    tagged absent f history k = absent ∨ ∃ x ∈ history, tagged absent f history k = f x := by
  cases k with
  | zero => exact .inl rfl
  | succ k =>
      cases hx : history[k]? with
      | none => simp [tagged, hx]
      | some x => exact .inr ⟨x, List.mem_of_getElem? hx, tagged_of_getElem? hx⟩

/-- What holds of the absent object and of each version holds of every tag. -/
theorem tagged_induction {P : β → Prop} (habsent : P absent) (h : ∀ x ∈ history, P (f x))
    (k : Nat) : P (tagged absent f history k) := by
  have hmem : tagged absent f history k = absent ∨
      ∃ x ∈ history, tagged absent f history k = f x := tagged_mem k
  rcases hmem with heq | ⟨x, hx, heq⟩
  · rw [heq]
    exact habsent
  · rw [heq]
    exact h x hx

end Tagged

/-! ## Chains -/

/-- Each version is made from the one before it, the first from the absent object. -/
def Chained {α β : Type} (absent : β) (f : α → β) (R : β → α → Prop) (history : List α) : Prop :=
  ∀ k x, history[k]? = some x → R (tagged absent f history k) x

section Chained

variable {α β : Type} {absent : β} {f : α → β} {R : β → α → Prop} {history : List α} {x : α}

theorem Chained.nil : Chained absent f R [] := by
  intro k x h
  simp at h

/-- A write on top of the latest version continues the chain. -/
theorem Chained.concat (h : Chained absent f R history)
    (hx : R (tagged absent f history history.length) x) :
    Chained absent f R (history ++ [x]) := by
  intro k y hy
  rcases Nat.lt_trichotomy k history.length with hlt | heq | hgt
  · rw [List.getElem?_append_left hlt] at hy
    rw [tagged_append (Nat.le_of_lt hlt)]
    exact h k y hy
  · subst heq
    have hxy : x = y := by simpa using hy
    rw [tagged_append (Nat.le_refl _), ← hxy]
    exact hx
  · have hnone : (history ++ [x])[k]? = none := by
      rw [List.getElem?_eq_none_iff, List.length_append, List.length_singleton]
      omega
    rw [hnone] at hy
    cases hy

/-- A transitive relation between neighbours holds between any two versions. -/
theorem Chained.pairwise {r : β → β → Prop} (h : Chained absent f (fun b x => r b (f x)) history)
    (htrans : ∀ a b c, r a b → r b c → r a c) : history.Pairwise fun x y => r (f x) (f y) := by
  rw [List.pairwise_iff_getElem]
  intro j k hj hk hjk
  have hfirst := List.getElem?_eq_getElem hj
  have hlast := List.getElem?_eq_getElem hk
  have hnext : ∀ b x, r (f history[j]) b → r b (f x) → r (f history[j]) (f x) :=
    fun b x => htrans _ b _
  obtain ⟨d, rfl⟩ := Nat.exists_eq_add_of_lt hjk
  induction d with
  | zero =>
      have hlink := h (j + 1) _ hlast
      rwa [tagged_of_getElem? hfirst] at hlink
  | succ d ih =>
      have hbefore := ih (Nat.lt_of_succ_lt hk) (by omega)
        (List.getElem?_eq_getElem (Nat.lt_of_succ_lt hk))
      have hlink := h (j + (d + 1) + 1) _ hlast
      rw [tagged_of_getElem? (List.getElem?_eq_getElem (Nat.lt_of_succ_lt hk))] at hlink
      exact hnext _ _ hbefore hlink

end Chained

end Lib
end Reflectdb
