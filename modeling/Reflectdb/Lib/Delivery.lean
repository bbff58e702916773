import Mathlib.Data.List.Sort
import Reflectdb.Lib.Machine

/-!
# Delivery — what is owed to each of many receivers, and what arrives there

A sender numbers what it hands over.  What is `owed` to a receiver and what is `arriving` there
(what came and what is on its way) are two lists of these numbers; `InOrder` says that the owed ones
among the arriving ones are the first owed ones, each of them once.  `Machine.keyed` runs one copy
of a machine for each receiver.
-/

namespace Reflectdb
namespace Lib

/-! ## One copy of a machine for each key -/

namespace Machine

variable {σ ε κ : Type} [DecidableEq κ] {M : κ → Machine σ ε}

/-- An event of the family is an event of the machine of one key. -/
def keyed (M : κ → Machine σ ε) : Machine (κ → σ) (κ × ε) where
  init := fun k => (M k).init
  step s e := ((M e.1).step (s e.1) e.2).map (Function.update s e.1)

/-- The guard of each member, as one of the family. -/
def Keyed (G : σ → ε → Prop) (s : κ → σ) (e : κ × ε) : Prop :=
  G (s e.1) e.2

theorem reach_of_keyed {G : σ → ε → Prop} {s : κ → σ} (h : (keyed M).Reach (Keyed G) s) (k : κ) :
    (M k).Reach G (s k) := by
  have hstart : ∀ k, (M k).Reach G ((keyed M).init k) := fun _ => .init
  refine h.invariant (P := fun s => ∀ k, (M k).Reach G (s k)) hstart
    (fun {s s' e} hs hg hstep k => ?_) k
  obtain ⟨next, hnext, rfl⟩ := Option.map_eq_some_iff.1 hstep
  by_cases hk : k = e.1
  · subst hk
    rw [Function.update_self]
    exact (hs e.1).step hg hnext
  · rw [Function.update_of_ne hk]
    exact hs k

/-- What each guarded step makes hold, holds after each guarded run. -/
theorem Reach.of_iff {M : Machine σ ε} {G : σ → ε → Prop} {P : σ → Prop} (h0 : P M.init)
    (hiff : ∀ {s s' : σ} {e : ε}, M.Reach G s → M.step s e = some s' → (P s' ↔ G s e)) {s : σ}
    (h : M.Reach G s) : P s := by
  cases h with
  | init => exact h0
  | step hreach hg hs => exact (hiff hreach hs).2 hg

/-- What each step of a member makes hold of it iff it is guarded, each step of the family makes
hold of all members iff it is guarded. -/
theorem keyed_iff {G : σ → ε → Prop} {P : σ → Prop} (h0 : ∀ k, P (M k).init)
    (hiff : ∀ {k : κ} {s s' : σ} {e : ε}, (M k).Reach G s → (M k).step s e = some s' →
      (P s' ↔ G s e)) {s s' : κ → σ} {e : κ × ε} (h : (keyed M).Reach (Keyed G) s)
    (hs : (keyed M).step s e = some s') : (∀ k, P (s' k)) ↔ Keyed G s e := by
  obtain ⟨next, hnext, rfl⟩ := Option.map_eq_some_iff.1 hs
  have hmoved := hiff (reach_of_keyed h e.1) hnext
  constructor
  · intro hall
    refine hmoved.1 ?_
    simpa using hall e.1
  · intro hg k
    by_cases hk : k = e.1
    · subst hk
      rw [Function.update_self]
      exact hmoved.2 hg
    · rw [Function.update_of_ne hk]
      exact (reach_of_keyed h k).of_iff (h0 k) hiff

end Machine

/-! ## Owed and arriving -/

/-- The owed numbers among the arriving ones are the first owed ones, in their order and once. -/
def InOrder (owed arriving : List Nat) : Prop :=
  arriving.filter (owed.contains ·) <+: owed

variable {owed arriving : List Nat} {n : Nat}

/-- What is left of an ordered list by a test that lets everything below what it lets through
through. -/
theorem filter_prefix_of_downward {p : Nat → Bool} (hsorted : owed.Pairwise (· < ·))
    (hdown : ∀ n ∈ owed, ∀ m ∈ owed, n < m → p m = true → p n = true) : owed.filter p <+: owed := by
  induction owed with
  | nil => exact List.nil_prefix
  | cons x rest ih =>
      obtain ⟨hx, hrest⟩ := List.pairwise_cons.1 hsorted
      have hih := ih hrest fun n hn m hm =>
        hdown n (List.mem_cons_of_mem _ hn) m (List.mem_cons_of_mem _ hm)
      cases hp : p x with
      | true =>
          rw [List.filter_cons_of_pos hp]
          exact (List.prefix_cons_inj x).2 hih
      | false =>
          have hnone : rest.filter p = [] := by
            refine List.filter_eq_nil_iff.2 fun m hm hpm => ?_
            have := hdown x List.mem_cons_self m (List.mem_cons_of_mem _ hm) (hx m hm) hpm
            simp [hp] at this
          rw [List.filter_cons_of_neg (by simp [hp]), hnone]
          exact List.nil_prefix

/-- What arrives in order and leaves out no owed number below one that arrives. -/
theorem inOrder_of_sorted (howed : owed.Pairwise (· < ·)) (harriving : arriving.Pairwise (· < ·))
    (hhole : ∀ n ∈ owed, ∀ m ∈ arriving, n < m → n ∈ arriving) : InOrder owed arriving := by
  have heq : arriving.filter (owed.contains ·) = owed.filter (arriving.contains ·) := by
    refine (harriving.filter _).eq_of_mem_iff (howed.filter _) fun {n} => ?_
    simp [and_comm]
  rw [InOrder, heq]
  refine filter_prefix_of_downward howed fun n hn m hm hnm harr => ?_
  have hmem : m ∈ arriving := by simpa using harr
  simpa using hhole n hn m hmem hnm

end Lib
end Reflectdb
