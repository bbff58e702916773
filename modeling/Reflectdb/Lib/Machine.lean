import Mathlib.Data.List.Induction
import Mathlib.Order.Defs.PartialOrder

/-!
# Machine — labelled step functions, guarded reachability and invariants

A `Machine` is a start state and a partial step function: `step s e = some s'` says that event `e`
can happen in `s` and leads to `s'`.  Systems with several parties are machines whose events name
the party that moves, so that a list of events is one interleaving.

Safety results are stated over `Reach G`: the states of the runs every step of which meets the
guard `G`.  The guard `fun _ _ => True` gives all runs.
-/

namespace Reflectdb
namespace Lib

/-- A start state and a partial labelled step function. -/
structure Machine (σ ε : Type) where
  init : σ
  step : σ → ε → Option σ

namespace Machine

variable {σ ε : Type} (M : Machine σ ε)

/-- States of the runs in which every event meets the guard in the state it happens in. -/
inductive Reach (G : σ → ε → Prop) : σ → Prop
  | init : Reach G M.init
  | step {s s' : σ} {e : ε} : Reach G s → G s e → M.step s e = some s' → Reach G s'

/-- States of all runs. -/
abbrev Reachable : σ → Prop :=
  M.Reach fun _ _ => True

variable {M}

/-- The invariant rule: what holds at the start and is kept by each guarded step holds in every
state of every guarded run. -/
theorem Reach.invariant {G : σ → ε → Prop} {P : σ → Prop} (h0 : P M.init)
    (hstep : ∀ {s s' : σ} {e : ε}, P s → G s e → M.step s e = some s' → P s') {s : σ}
    (h : M.Reach G s) : P s := by
  induction h with
  | init => exact h0
  | step _ hg hs ih => exact hstep ih hg hs

/-! ## Executing a list of events -/

/-- Run the events in order, checking the guard `g` before each. -/
def runWith (M : Machine σ ε) (g : σ → ε → Bool) : σ → List ε → Option σ
  | s, [] => some s
  | s, e :: es => if g s e then (M.step s e).bind fun s' => runWith M g s' es else none

/-- Run the events in order. -/
abbrev run (M : Machine σ ε) : List ε → Option σ :=
  M.runWith (fun _ _ => true) M.init

theorem Reach.of_runWith {G : σ → ε → Prop} {g : σ → ε → Bool}
    (hg : ∀ s e, g s e = true → G s e) {es : List ε} :
    ∀ {s s' : σ}, M.Reach G s → M.runWith g s es = some s' → M.Reach G s' := by
  induction es with
  | nil =>
      intro s s' hs h
      cases h
      exact hs
  | cons e es ih =>
      intro s s' hs h
      rw [runWith] at h
      split at h
      · rename_i hge
        cases hstep : M.step s e with
        | none => simp [hstep] at h
        | some s₁ =>
            rw [hstep] at h
            exact ih (.step hs (hg s e hge) hstep) h
      · cases h

/-- The end of an executed list of events is reachable. -/
theorem Reachable.of_run {es : List ε} {s : σ} (h : M.run es = some s) : M.Reachable s :=
  Reach.of_runWith (g := fun _ _ => true) (fun _ _ _ => trivial) .init h

end Machine

/-! ## Histories -/

/-- A value not below the last one keeps a history in order. -/
theorem pairwise_concat {α : Type} [Preorder α] {history : List α} {next : α}
    (h : history.Pairwise (· ≤ ·)) (hlast : ∀ last ∈ history.getLast?, last ≤ next) :
    (history ++ [next]).Pairwise (· ≤ ·) := by
  induction history using List.reverseRecOn with
  | nil => simp
  | append_singleton history last _ =>
      have hle : last ≤ next := hlast last (by simp)
      rw [List.pairwise_append]
      refine ⟨h, by simp, fun x hx y hy => ?_⟩
      have hy' : y = next := by simpa using hy
      subst hy'
      rcases List.mem_append.1 hx with hold | hnew
      · exact le_trans ((List.pairwise_append.1 h).2.2 x hold last (by simp)) hle
      · have hx' : x = last := by simpa using hnew
        exact hx' ▸ hle

end Lib
end Reflectdb
