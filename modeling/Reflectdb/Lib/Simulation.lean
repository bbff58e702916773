import Reflectdb.Lib.Machine

/-!
# Simulation — guarded runs matched event by event

`Trace G es s` says that the events `es`, each of which meets the guard in the state that it happens
in, lead to `s`.  A relation that each guarded step keeps, while another machine takes the steps
that the event stands for there, holds at the end of both runs.
-/

namespace Reflectdb
namespace Lib
namespace Machine

variable {σ τ ε ε' : Type} {M : Machine σ ε} {N : Machine τ ε'}

/-- The runs in which every event meets the guard, with their events, oldest first. -/
inductive Trace (M : Machine σ ε) (G : σ → ε → Prop) : List ε → σ → Prop
  | init : Trace M G [] M.init
  | step {es : List ε} {s s' : σ} {e : ε} : Trace M G es s → G s e → M.step s e = some s' →
      Trace M G (es ++ [e]) s'

/-- The state after the events, from any state. -/
abbrev runFrom (M : Machine σ ε) (s : σ) (es : List ε) : Option σ :=
  M.runWith (fun _ _ => true) s es

/-- The machine, started in `s`. -/
def startingAt (M : Machine σ ε) (s : σ) : Machine σ ε :=
  { M with init := s }

/-- A run that goes on is a run. -/
theorem Reach.startingAt {G : σ → ε → Prop} {s s' : σ} (h : M.Reach G s)
    (h' : (M.startingAt s).Reach G s') : M.Reach G s' := by
  induction h' with
  | init => exact h
  | step _ hg hs ih => exact ih.step hg hs

/-- The end of an executed list of events is reached from its start. -/
theorem Reach.later_of_runWith {G : σ → ε → Prop} {g : σ → ε → Bool}
    (hg : ∀ s e, g s e = true → G s e) {s s' : σ} {es : List ε} (h : M.runWith g s es = some s') :
    (M.startingAt s).Reach G s' := by
  have hsame : ∀ (s₀ t : σ) (es : List ε),
      (M.startingAt s₀).runWith g t es = M.runWith g t es := by
    intro s₀ t es
    induction es generalizing t with
    | nil => rfl
    | cons e es ih =>
        simp only [runWith, startingAt]
        split
        · exact congrArg _ (funext fun t' => ih t')
        · rfl
  exact .of_runWith hg .init ((hsame s s es).trans h)

theorem runFrom_cons (s : σ) (e : ε) (es : List ε) :
    M.runFrom s (e :: es) = (M.step s e).bind fun s' => M.runFrom s' es :=
  rfl

theorem runFrom_append (s : σ) (es es' : List ε) :
    M.runFrom s (es ++ es') = (M.runFrom s es).bind fun s' => M.runFrom s' es' := by
  induction es generalizing s with
  | nil => rfl
  | cons e es ih =>
      rw [List.cons_append, runFrom_cons, runFrom_cons]
      cases M.step s e with
      | none => rfl
      | some s' => exact ih s'

theorem runFrom_singleton (s : σ) (e : ε) : M.runFrom s [e] = M.step s e := by
  rw [runFrom_cons]
  cases M.step s e <;> rfl

/-- A run goes on with events that meet the guard in whatever state. -/
theorem Trace.append {G : σ → ε → Prop} {es : List ε} {s : σ} (h : M.Trace G es s)
    (es' : List ε) {s' : σ} (hG : ∀ e ∈ es', ∀ s, G s e) (hrun : M.runFrom s es' = some s') :
    M.Trace G (es ++ es') s' := by
  induction es' generalizing es s with
  | nil =>
      cases hrun
      rw [List.append_nil]
      exact h
  | cons e es' ih =>
      rw [runFrom_cons] at hrun
      obtain ⟨after, hafter, hend⟩ := Option.bind_eq_some_iff.1 hrun
      have hfirst := h.step (hG e List.mem_cons_self s) hafter
      rw [List.append_cons]
      exact ih hfirst (fun e' he' => hG e' (List.mem_cons_of_mem _ he')) hend

/-- The simulation rule: `f e` are the steps that the other machine takes for an event. -/
theorem Trace.simulate {G : σ → ε → Prop} {R : σ → τ → Prop} {f : ε → List ε'}
    (h0 : R M.init N.init)
    (hstep : ∀ {s s' : σ} {t : τ} {e : ε}, R s t → G s e → M.step s e = some s' →
      ∃ t', N.runFrom t (f e) = some t' ∧ R s' t') {es : List ε} {s : σ} (h : M.Trace G es s) :
    ∃ t, N.run (es.flatMap f) = some t ∧ R s t := by
  induction h with
  | init => exact ⟨N.init, rfl, h0⟩
  | @step es s s' e _ hg hs ih =>
      obtain ⟨t, hrun, hR⟩ := ih
      obtain ⟨t', ht', hR'⟩ := hstep hR hg hs
      refine ⟨t', ?_, hR'⟩
      calc N.run ((es ++ [e]).flatMap f)
          = N.runFrom N.init (es.flatMap f ++ f e) := by simp
        _ = (N.runFrom N.init (es.flatMap f)).bind fun t => N.runFrom t (f e) :=
            N.runFrom_append _ _ _
        _ = N.runFrom t (f e) := by
          rw [show N.runFrom N.init (es.flatMap f) = some t from hrun]
          rfl
        _ = some t' := ht'

end Machine
end Lib
end Reflectdb
