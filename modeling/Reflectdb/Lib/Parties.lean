import Mathlib.Logic.Function.Basic
import Reflectdb.Lib.Machine

/-!
# Parties — machines made of parties over one shared state

Each party has a local state; a step of a party reads and changes the shared state and its own.  An
invariant has a part about the shared state and a part about each party.  It is kept if a step keeps
the first and the part of the party that moves, and leaves the parts of the others in force although
the shared state has changed under them.
-/

namespace Reflectdb
namespace Lib

/-- The shared state, and the local state of every party. -/
structure Parties (σ τ ι : Type) where
  shared : σ
  locals : ι → τ

variable {σ τ ι ε : Type} [DecidableEq ι]

/-- One step of one party. -/
def Parties.move (act : ι → σ → τ → ε → Option (σ × τ)) (s : Parties σ τ ι) (e : ι × ε) :
    Option (Parties σ τ ι) :=
  (act e.1 s.shared (s.locals e.1) e.2).map fun r => ⟨r.1, Function.update s.locals e.1 r.2⟩

/-- The machine of parties that take the steps `act` in any order. -/
def Machine.ofParties (shared : σ) (start : τ) (act : ι → σ → τ → ε → Option (σ × τ)) :
    Machine (Parties σ τ ι) (ι × ε) :=
  ⟨⟨shared, fun _ => start⟩, Parties.move act⟩

/-- A guard that looks at the shared state and at the party that moves. -/
def Parties.guard (G : ι → σ → τ → ε → Prop) (s : Parties σ τ ι) (e : ι × ε) : Prop :=
  G e.1 s.shared (s.locals e.1) e.2

omit [DecidableEq ι] in
instance (G : ι → σ → τ → ε → Prop) [∀ i s n e, Decidable (G i s n e)] (s : Parties σ τ ι)
    (e : ι × ε) : Decidable (Parties.guard G s e) :=
  inferInstanceAs (Decidable (G e.1 s.shared (s.locals e.1) e.2))

/-- The invariant `S` of the shared state holds, and `I` of every party. -/
def Parties.All (S : σ → Prop) (I : ι → σ → τ → Prop) (s : Parties σ τ ι) : Prop :=
  S s.shared ∧ ∀ i, I i s.shared (s.locals i)

variable {shared : σ} {start : τ} {act : ι → σ → τ → ε → Option (σ × τ)}

/-- The invariant rule for parties; `K` is an invariant that is known already. -/
theorem Machine.Reach.parties {G : ι → σ → τ → ε → Prop} {K : Parties σ τ ι → Prop} {S : σ → Prop}
    {I : ι → σ → τ → Prop}
    (hknown : ∀ {s}, (Machine.ofParties shared start act).Reach (Parties.guard G) s → K s)
    (hshared : S shared) (hstart : ∀ i, I i shared start)
    (hown : ∀ {s : Parties σ τ ι} {i : ι} {a : ε} {sh' : σ} {n' : τ}, K s → s.All S I →
      G i s.shared (s.locals i) a → act i s.shared (s.locals i) a = some (sh', n') →
        S sh' ∧ I i sh' n')
    (hothers : ∀ {s : Parties σ τ ι} {i : ι} {a : ε} {sh' : σ} {n' : τ}, K s → s.All S I →
      G i s.shared (s.locals i) a → act i s.shared (s.locals i) a = some (sh', n') →
        ∀ j, j ≠ i → I j sh' (s.locals j))
    {s : Parties σ τ ι} (h : (Machine.ofParties shared start act).Reach (Parties.guard G) s) :
    s.All S I := by
  induction h with
  | init => exact ⟨hshared, hstart⟩
  | step hr hg hs ih =>
      rename_i s s' e
      obtain ⟨⟨sh', n'⟩, hact, rfl⟩ := Option.map_eq_some_iff.1 hs
      have hmoved := hown (hknown hr) ih hg hact
      refine ⟨hmoved.1, fun j => ?_⟩
      by_cases hj : j = e.1
      · subst hj
        simpa using hmoved.2
      · simpa [Function.update_of_ne hj] using hothers (hknown hr) ih hg hact j hj

end Lib
end Reflectdb
