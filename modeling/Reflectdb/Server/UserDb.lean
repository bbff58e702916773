import Reflectdb.Server.CompareAndSet

/-!
# User database — the row in the app's database and the row in the sync store

An accepted op is first handed to `mutate`, which commits the row to the app's database, and then
written to the sync store.  The two are separate commits: other instances may mutate and write
between them, and a write that loses its race has been mutated already.
-/

namespace Reflectdb
namespace Server

open Core Client

/-! ## Model -/

structure MutateState where
  cas : CasState
  /-- The row in the app's database. -/
  userDb : Option Row
  /-- `mutate` has returned in the op's current attempt. -/
  mutated : Nat → Bool
  /-- The ops whose `mutate` took effect, in order.  No step reads them. -/
  mutations : List Nat

inductive MutateEvent
  /-- `mutate` takes effect: it upserts the row that it is given, or deletes it. -/
  | mutate (task : Nat)
  | step (e : CasEvent)

/-- The write comes after `mutate`; only what comes before can refuse the op. -/
def InCallOrder (s : MutateState) : CasEvent → Prop
  | .write t _ => s.mutated t = true
  | .refuse t => s.mutated t = false
  | _ => True

instance (s : MutateState) (e : CasEvent) : Decidable (InCallOrder s e) :=
  match e with
  | .write t _ => inferInstanceAs (Decidable (s.mutated t = true))
  | .refuse t => inferInstanceAs (Decidable (s.mutated t = false))
  | .startBatch _ | .prefetch _ | .setPrefetched _ | .finishBatch _ | .startOp _ _ _ | .dequeue _
  | .read _ _ | .resolve _ | .throw _ => inferInstanceAs (Decidable True)

section Steps

variable (ops : TextOps) (policy : ConflictPolicy)

def stepMutate (s : MutateState) (t : Nat) : Option MutateState :=
  match s.cas.tasks[t]? with
  | some task =>
    match task.phase with
    | .resolved _ existing =>
      if s.mutated t then none
      else
        some { s with
          userDb := (resolveConflict ops policy task.incoming existing).resolvedRow
          mutated := Function.update s.mutated t true
          mutations := s.mutations ++ [t] }
    | _ => none
  | none => none

/-- A write that has come back, or a call that throws, ends the attempt. -/
def endAttempt (mutated : Nat → Bool) : CasEvent → Nat → Bool
  | .write t _ => Function.update mutated t false
  | .throw t => Function.update mutated t false
  | _ => mutated

def mutateStep (s : MutateState) : MutateEvent → Option MutateState
  | .mutate t => stepMutate ops policy s t
  | .step e =>
    if InCallOrder s e then
      ((casMachine ops policy).step s.cas e).map fun cas =>
        { s with cas := cas, mutated := endAttempt s.mutated e }
    else none

def mutateMachine : Lib.Machine MutateState MutateEvent :=
  ⟨⟨.start, none, fun _ => false, []⟩, mutateStep ops policy⟩

end Steps

/-! ## Agreement -/

/-- Once no op is under way the two rows are the same, and no rejected op's `mutate` took effect. -/
structure StoresAgree (s : MutateState) : Prop where
  agree : (∀ task ∈ s.cas.tasks, task.phase.pending = false) →
    s.userDb = s.cas.stored.map (·.row)
  rejected : ∀ (t : Nat) (task : OpTask), s.cas.tasks[t]? = some task → task.phase = .rejected →
    t ∉ s.mutations

/-- The attempt that the op is in. -/
def OpPhase.attempt : OpPhase → Option Nat
  | .reading attempt => some attempt
  | .fetched attempt _ => some attempt
  | .resolved attempt _ => some attempt
  | _ => none

def CasState.pendingOp (s : CasState) (t : Nat) : Bool :=
  s.tasks[t]?.any (·.phase.pending)

/-- The storage write of an op: the last `mutate` is the op's own or that of an op under way, and a
race is not lost for good. -/
def WriteInTurn (policy : ConflictPolicy) (s : MutateState) (t : Nat) (answered : Bool)
    (attempt : Nat) (existing : ExistingRow) : Prop :=
  if policy.isObject ∧ s.cas.stored.map (·.hlc) ≠ existing.rowHlc then
    answered = true ∧ attempt + 1 < MAX_WRITE_ATTEMPTS
  else ∀ last ∈ s.mutations.getLast?, last = t ∨ s.cas.pendingOp last = true

/-- The writes come in their turn; an op that lost a race is not rejected afterwards, and no op
fails whose `mutate` is the last one. -/
def MutatesInTurn (ops : TextOps) (policy : ConflictPolicy) (s : MutateState) :
    MutateEvent → Prop
  | .step (.write t answered) =>
    match s.cas.tasks[t]? with
    | some task =>
      match task.phase with
      | .resolved attempt existing => WriteInTurn policy s t answered attempt existing
      | _ => True
    | none => True
  | .step (.resolve t) =>
    match s.cas.tasks[t]? with
    | some task =>
      match task.phase with
      | .fetched attempt existing =>
        attempt = 0 ∨ (resolveConflict ops policy task.incoming existing).accepted = true
      | _ => True
    | none => True
  | .step (.refuse t) =>
    (s.cas.tasks[t]?.bind (·.phase.attempt)) = some 0
  | .step (.throw t) => s.mutations.getLast? ≠ some t
  | _ => True

instance (policy : ConflictPolicy) (s : MutateState) (t : Nat) (answered : Bool) (attempt : Nat)
    (existing : ExistingRow) : Decidable (WriteInTurn policy s t answered attempt existing) := by
  unfold WriteInTurn
  split <;> infer_instance

instance (ops : TextOps) (policy : ConflictPolicy) (s : MutateState) (e : MutateEvent) :
    Decidable (MutatesInTurn ops policy s e) :=
  match e with
  | .step (.write t answered) => by
      dsimp only [MutatesInTurn]
      generalize s.cas.tasks[t]? = task
      exact match task with
        | some ⟨_, _, _, .resolved attempt existing⟩ =>
          inferInstanceAs (Decidable (WriteInTurn policy s t answered attempt existing))
        | some ⟨_, _, _, .queued⟩ | some ⟨_, _, _, .reading _⟩ | some ⟨_, _, _, .fetched _ _⟩
        | some ⟨_, _, _, .accepted⟩ | some ⟨_, _, _, .rejected⟩ | some ⟨_, _, _, .failed⟩
        | none => inferInstanceAs (Decidable True)
  | .step (.resolve t) => by
      dsimp only [MutatesInTurn]
      generalize s.cas.tasks[t]? = task
      exact match task with
        | some ⟨_, _, incoming, .fetched attempt existing⟩ => inferInstanceAs
            (Decidable
              (attempt = 0 ∨ (resolveConflict ops policy incoming existing).accepted = true))
        | some ⟨_, _, _, .queued⟩ | some ⟨_, _, _, .reading _⟩ | some ⟨_, _, _, .resolved _ _⟩
        | some ⟨_, _, _, .accepted⟩ | some ⟨_, _, _, .rejected⟩ | some ⟨_, _, _, .failed⟩
        | none => inferInstanceAs (Decidable True)
  | .step (.refuse t) =>
    inferInstanceAs (Decidable ((s.cas.tasks[t]?.bind (·.phase.attempt)) = some 0))
  | .step (.throw t) => inferInstanceAs (Decidable (s.mutations.getLast? ≠ some t))
  | .step (.startBatch _) | .step (.prefetch _) | .step (.setPrefetched _)
  | .step (.finishBatch _) | .step (.startOp _ _ _) | .step (.dequeue _) | .step (.read _ _)
  | .mutate _ => inferInstanceAs (Decidable True)

/-! ## The invariant -/

/-- The row that an op's attempt writes. -/
def OpTask.writes (ops : TextOps) (policy : ConflictPolicy) (task : OpTask) (row : Option Row) :
    Prop :=
  ∃ attempt existing, task.phase = .resolved attempt existing ∧
    row = (resolveConflict ops policy task.incoming existing).resolvedRow

/-- The app's database has the row of the last `mutate`, whose op is under way unless the sync store
has the row too. -/
structure MutateInv (ops : TextOps) (policy : ConflictPolicy) (s : MutateState) : Prop where
  untouched : s.mutations = [] → s.userDb = none ∧ s.cas.stored = none
  last : ∀ t, s.mutations.getLast? = some t →
    s.cas.pendingOp t = true ∨ s.userDb = s.cas.stored.map (·.row)
  mutated : ∀ t, s.mutated t = true → t ∈ s.mutations ∧
    ∃ task row, s.cas.tasks[t]? = some task ∧ task.writes ops policy row ∧
      (s.mutations.getLast? = some t → s.userDb = row)
  /-- A `mutate` is followed by its write, which may lead to another attempt. -/
  owing : ∀ t ∈ s.mutations, ∃ task, s.cas.tasks[t]? = some task ∧ task.phase ≠ .rejected ∧
    task.phase ≠ .queued ∧ (task.phase.attempt = some 0 → s.mutated t = true)

variable {ops : TextOps} {policy : ConflictPolicy} {s s' : MutateState}

theorem MutateInv.storesAgree (h : MutateInv ops policy s) : StoresAgree s := by
  constructor
  · intro hquiet
    cases hlast : s.mutations.getLast? with
    | none =>
        rcases h.untouched (List.getLast?_eq_none_iff.1 hlast) with ⟨huser, hstored⟩
        rw [huser, hstored]
        rfl
    | some t =>
        rcases h.last t hlast with hpending | hagree
        · rcases (Option.any_eq_true _ _).1 hpending with ⟨task, htask, hphase⟩
          rw [hquiet task (List.mem_of_getElem? htask)] at hphase
          cases hphase
        · exact hagree
  · intro t task ht hphase hmem
    rcases h.owing t hmem with ⟨task', ht', hne, -⟩
    obtain rfl : task' = task := Option.some.inj (ht'.symm.trans ht)
    exact hne hphase

theorem MutateInv.start : MutateInv ops policy (mutateMachine ops policy).init := by
  constructor <;> simp [mutateMachine, CasState.start]

/-- An op that has not got to its first write has mutated nothing, unless it has just done so. -/
theorem MutateInv.not_mem (h : MutateInv ops policy s) {t : Nat} {task : OpTask}
    (ht : s.cas.tasks[t]? = some task) (hmutated : s.mutated t = false)
    (hphase : task.phase = .queued ∨ task.phase.attempt = some 0) : t ∉ s.mutations := by
  intro hmem
  rcases h.owing t hmem with ⟨task', ht', -, hqueued, hfirst⟩
  obtain rfl : task' = task := Option.some.inj (ht'.symm.trans ht)
  rcases hphase with hphase | hphase
  · exact hqueued hphase
  · rw [hfirst hphase] at hmutated
    cases hmutated

/-- `mutate` runs on a resolved op only. -/
theorem MutateInv.not_mutated (h : MutateInv ops policy s) {t : Nat} {task : OpTask}
    (ht : s.cas.tasks[t]? = some task)
    (hphase : ∀ attempt existing, task.phase ≠ .resolved attempt existing) :
    s.mutated t = false := by
  refine Bool.eq_false_iff.2 fun htrue => ?_
  rcases (h.mutated t htrue).2 with ⟨task', row, ht', ⟨attempt, existing, hresolved, -⟩, -⟩
  obtain rfl : task' = task := Option.some.inj (ht'.symm.trans ht)
  exact hphase attempt existing hresolved

/-- An op goes on without writing. -/
theorem MutateInv.setTask (h : MutateInv ops policy s) {t : Nat} {old task : OpTask}
    {phase : OpPhase} (ht : s.cas.tasks[t]? = some old) {mutated : Nat → Bool}
    (hmutated : mutated t = false) (hothers : ∀ i, i ≠ t → mutated i = s.mutated i)
    (hlast : phase.pending = true ∨ s.mutations.getLast? ≠ some t)
    (howing : t ∈ s.mutations →
      phase ≠ .rejected ∧ phase ≠ .queued ∧ phase.attempt ≠ some 0)
    {batches : List RowBatch} :
    MutateInv ops policy { s with
      cas := { s.cas with
        batches := batches, tasks := s.cas.tasks.set t { task with phase := phase } }
      mutated := mutated } := by
  have hself : (s.cas.tasks.set t { task with phase := phase })[t]? =
      some { task with phase := phase } :=
    List.getElem?_set_self (List.getElem?_eq_some_iff.1 ht).1
  refine ⟨h.untouched, ?_, ?_, ?_⟩
  · intro i hi
    rcases h.last i hi with hpending | hagree
    · refine Or.inl ((Option.any_eq_true _ _).2 ?_)
      by_cases heq : i = t
      · subst heq
        exact ⟨_, hself, hlast.resolve_right fun hne => hne hi⟩
      · rcases (Option.any_eq_true _ _).1 hpending with ⟨x, hx, hxpending⟩
        exact ⟨x, getElem?_set_other hx heq, hxpending⟩
    · exact Or.inr hagree
  · intro i hi
    have hne : i ≠ t := by
      rintro rfl
      have htrue : mutated i = true := hi
      rw [hmutated] at htrue
      cases htrue
    rcases h.mutated i (hothers i hne ▸ hi) with ⟨hmem, x, row, hx, hrest⟩
    exact ⟨hmem, x, row, getElem?_set_other hx hne, hrest⟩
  · intro i hi
    by_cases heq : i = t
    · subst heq
      rcases howing hi with ⟨hrejected, hqueued, hfirst⟩
      exact ⟨_, hself, hrejected, hqueued, fun hattempt => absurd hattempt hfirst⟩
    · rcases h.owing i hi with ⟨x, hx, hrejected, hqueued, hfirst⟩
      refine ⟨x, getElem?_set_other hx heq, hrejected, hqueued, fun hattempt => ?_⟩
      exact (hothers i heq).trans (hfirst hattempt)

theorem MutateInv.startOp (h : MutateInv ops policy s) (i : Nat) (batch : Option Nat)
    (incoming : ConflictInput) :
    MutateInv ops policy { s with
      cas := { s.cas with tasks := s.cas.tasks ++ [⟨i, batch, incoming, .queued⟩] } } := by
  have hkept : ∀ {t : Nat} {task : OpTask}, s.cas.tasks[t]? = some task →
      (s.cas.tasks ++ [(⟨i, batch, incoming, .queued⟩ : OpTask)])[t]? = some task := by
    intro t task ht
    exact (List.getElem?_append_left (List.getElem?_eq_some_iff.1 ht).1).trans ht
  refine ⟨h.untouched, ?_, ?_, ?_⟩
  · intro t ht
    refine (h.last t ht).imp (fun hpending => ?_) id
    rcases (Option.any_eq_true _ _).1 hpending with ⟨task, htask, hphase⟩
    exact (Option.any_eq_true _ _).2 ⟨task, hkept htask, hphase⟩
  · intro t ht
    rcases h.mutated t ht with ⟨hmem, task, row, htask, hrest⟩
    exact ⟨hmem, task, row, hkept htask, hrest⟩
  · intro t ht
    rcases h.owing t ht with ⟨task, htask, hrest⟩
    exact ⟨task, hkept htask, hrest⟩

/-- The write of an op whose `mutate` is the last, or is followed by that of an op under way. -/
theorem MutateInv.write (h : MutateInv ops policy s) {t : Nat} {answered : Bool} {task : OpTask}
    {existing : ExistingRow} {cas : CasState}
    (hw : WriteStep ops policy s.cas t answered task existing cas) (hmutated : s.mutated t = true)
    (hlast : ∀ last ∈ s.mutations.getLast?, last = t ∨ s.cas.pendingOp last = true) :
    MutateInv ops policy { s with cas := cas, mutated := Function.update s.mutated t false } := by
  rcases hw.resolved with ⟨attempt, hphase⟩
  rcases h.mutated t hmutated with ⟨hmem, task', row, ht', ⟨attempt', existing', hphase', hrow⟩,
    huser⟩
  obtain rfl : task' = task := Option.some.inj (ht'.symm.trans hw.found)
  rw [hphase] at hphase'
  cases hphase'
  have hself : (s.cas.tasks.set t
      { task' with phase := if answered then .accepted else .failed })[t]? =
      some { task' with phase := if answered then .accepted else .failed } :=
    List.getElem?_set_self (List.getElem?_eq_some_iff.1 hw.found).1
  have hended : (if answered then OpPhase.accepted else .failed) ≠ .rejected ∧
      (if answered then OpPhase.accepted else .failed) ≠ .queued ∧
      (if answered then OpPhase.accepted else .failed).attempt ≠ some 0 := by
    cases answered <;> exact ⟨by simp, by simp, by simp [OpPhase.attempt]⟩
  rw [hw.after]
  refine ⟨?_, ?_, ?_, ?_⟩
  · intro hnone
    rw [hnone] at hmem
    cases hmem
  · intro i hi
    by_cases heq : i = t
    · -- The app's database has the row that is written.
      subst heq
      refine Or.inr ?_
      calc s.userDb = (resolveConflict ops policy task'.incoming existing).resolvedRow :=
            (huser hi).trans hrow
        _ = ((resolveConflict ops policy task'.incoming existing).stored
              task'.incoming.hlc).map (·.row) := by
            rw [ConflictResult.stored, Option.map_map]
            exact Option.map_id'.symm
    · have hpending := (hlast i hi).resolve_left heq
      rcases (Option.any_eq_true _ _).1 hpending with ⟨x, hx, hxpending⟩
      exact Or.inl ((Option.any_eq_true _ _).2 ⟨x, getElem?_set_other hx heq, hxpending⟩)
  · intro i hi
    have hi' : Function.update s.mutated t false i = true := hi
    have hne : i ≠ t := by
      rintro rfl
      rw [Function.update_self] at hi'
      cases hi'
    rw [Function.update_of_ne hne] at hi'
    rcases h.mutated i hi' with ⟨hin, x, xrow, hx, hrest⟩
    exact ⟨hin, x, xrow, getElem?_set_other hx hne, hrest⟩
  · intro i hi
    by_cases heq : i = t
    · subst heq
      exact ⟨_, hself, hended.1, hended.2.1, fun hattempt => absurd hattempt hended.2.2⟩
    · rcases h.owing i hi with ⟨x, hx, hrejected, hqueued, hfirst⟩
      refine ⟨x, getElem?_set_other hx heq, hrejected, hqueued, fun hattempt => ?_⟩
      exact (Function.update_of_ne heq _ _).trans (hfirst hattempt)

theorem MutateInv.mutate (h : MutateInv ops policy s) {t : Nat}
    (hs : stepMutate ops policy s t = some s') : MutateInv ops policy s' := by
  unfold stepMutate at hs
  split at hs
  · rename_i task ht
    split at hs
    · rename_i attempt existing hphase
      rcases Option.ite_none_left_eq_some.1 hs with ⟨-, heq⟩
      cases heq
      refine ⟨by simp, ?_, ?_, ?_⟩
      · intro i hi
        rw [List.getLast?_append, List.getLast?_singleton, Option.some_or] at hi
        obtain rfl : t = i := Option.some.inj hi
        exact Or.inl ((Option.any_eq_true _ _).2 ⟨task, ht, by rw [hphase]; rfl⟩)
      · intro i hi
        by_cases heq : i = t
        · subst heq
          exact ⟨by simp, task, _, ht, ⟨attempt, existing, hphase, rfl⟩, fun _ => rfl⟩
        · have hi' : s.mutated i = true := by
            simpa [Function.update_of_ne heq] using hi
          rcases h.mutated i hi' with ⟨hmem, x, row, hx, hwrites, -⟩
          refine ⟨List.mem_append_left _ hmem, x, row, hx, hwrites, fun hlast => ?_⟩
          rw [List.getLast?_append, List.getLast?_singleton, Option.some_or] at hlast
          exact absurd (Option.some.inj hlast).symm heq
      · intro i hi
        by_cases heq : i = t
        · subst heq
          refine ⟨task, ht, ?_, ?_, fun _ => Function.update_self _ _ _⟩ <;> rw [hphase] <;> simp
        · rcases List.mem_append.1 hi with hold | hnew
          · rcases h.owing i hold with ⟨x, hx, hrejected, hqueued, hfirst⟩
            refine ⟨x, hx, hrejected, hqueued, fun hattempt => ?_⟩
            exact (Function.update_of_ne heq _ _).trans (hfirst hattempt)
          · exact absurd (List.mem_singleton.1 hnew) heq
    · cases hs
  · cases hs

theorem MutateInv.step (h : MutateInv ops policy s) {e : MutateEvent}
    (hg : MutatesInTurn ops policy s e) (hs : (mutateMachine ops policy).step s e = some s') :
    MutateInv ops policy s' := by
  cases e with
  | mutate t => exact h.mutate hs
  | step e =>
      rcases Option.ite_none_right_eq_some.1 hs with ⟨horder, hmap⟩
      rcases Option.map_eq_some_iff.1 hmap with ⟨cas, hcas, rfl⟩
      cases casStep_inv hcas with
      | startBatch i => exact ⟨h.untouched, h.last, h.mutated, h.owing⟩
      | prefetch b => exact ⟨h.untouched, h.last, h.mutated, h.owing⟩
      | setPrefetched b => exact ⟨h.untouched, h.last, h.mutated, h.owing⟩
      | finishBatch b => exact ⟨h.untouched, h.last, h.mutated, h.owing⟩
      | startOp i batch incoming => exact h.startOp i batch incoming
      | @dequeue t task ht hphase =>
          have hmutated := h.not_mutated ht (by simp [hphase])
          have hnot := h.not_mem ht hmutated (Or.inl hphase)
          exact h.setTask ht hmutated (fun _ _ => rfl) (Or.inl rfl) fun hmem => absurd hmem hnot
      | @readCached t task cached payload ht hphase hhit =>
          have hmutated := h.not_mutated ht (by simp [hphase])
          have hnot := h.not_mem ht hmutated (Or.inr (by rw [hphase]; rfl))
          refine h.setTask ht hmutated (fun _ _ => rfl) (Or.inr fun hlast => ?_)
            fun hmem => absurd hmem hnot
          exact hnot (List.mem_of_getLast? hlast)
      | @readStored t attempt task payload ht hphase hmiss =>
          have hmutated := h.not_mutated ht (by simp [hphase])
          refine h.setTask ht hmutated (fun _ _ => rfl) (Or.inl rfl) fun hmem => ?_
          refine ⟨by simp, by simp, fun hfirst => ?_⟩
          exact h.not_mem ht hmutated (Or.inr (by rw [hphase]; exact hfirst)) hmem
      | @resolve t attempt task existing ht hphase =>
          have hmutated := h.not_mutated ht (by simp [hphase])
          have hg' : attempt = 0 ∨
              (resolveConflict ops policy task.incoming existing).accepted = true := by
            simpa only [MutatesInTurn, ht, hphase] using hg
          by_cases hzero : attempt = 0
          · have hnot := h.not_mem ht hmutated (Or.inr (by rw [hphase, hzero]; rfl))
            refine h.setTask ht hmutated (fun _ _ => rfl) (Or.inr fun hlast => ?_)
              fun hmem => absurd hmem hnot
            exact hnot (List.mem_of_getLast? hlast)
          · -- A retry resolves again, and is accepted.
            have hresolved : afterRead ops policy task attempt existing =
                .resolved attempt existing := by
              rw [afterRead, if_pos (hg'.resolve_left hzero)]
            rw [hresolved]
            refine h.setTask ht hmutated (fun _ _ => rfl) (Or.inl rfl) fun _ => ?_
            exact ⟨by simp, by simp, fun hfirst => hzero (Option.some.inj hfirst)⟩
      | @refuse t attempt task existing ht hphase =>
          have hmutated : s.mutated t = false := horder
          have hattempt : task.phase.attempt = some 0 := by
            simpa only [MutatesInTurn, ht, Option.bind_some] using hg
          have hnot := h.not_mem ht hmutated (Or.inr hattempt)
          refine h.setTask ht hmutated (fun _ _ => rfl) (Or.inr fun hlast => ?_)
            fun hmem => absurd hmem hnot
          exact hnot (List.mem_of_getLast? hlast)
      | @throw t task ht hactive =>
          refine h.setTask ht (Function.update_self _ _ _)
            (fun i hne => Function.update_of_ne hne _ _) (Or.inr hg) fun _ => ?_
          exact ⟨by simp, by simp, by simp [OpPhase.attempt]⟩
      | @lost t attempt task existing answered ht hphase hmoved =>
          have hg' : WriteInTurn policy s t answered attempt existing := by
            simpa only [MutatesInTurn, ht, hphase] using hg
          rw [WriteInTurn, if_pos hmoved] at hg'
          rcases hg' with ⟨rfl, hretry⟩
          have hlost : lostPhase true attempt = .reading (attempt + 1) := by
            simp [lostPhase, hretry]
          rw [hlost]
          refine h.setTask ht (Function.update_self _ _ _)
            (fun i hne => Function.update_of_ne hne _ _) (Or.inl rfl) fun _ => ?_
          exact ⟨by simp, by simp, by simp [OpPhase.attempt]⟩
      | @write t answered task existing cas hw =>
          rcases hw.resolved with ⟨attempt, hphase⟩
          have hg' : WriteInTurn policy s t answered attempt existing := by
            simpa only [MutatesInTurn, hw.found, hphase] using hg
          have hunmoved : ¬ (policy.isObject = true ∧
              s.cas.stored.map (·.hlc) ≠ existing.rowHlc) :=
            fun hmoved => hmoved.2 (hw.unmoved hmoved.1)
          rw [WriteInTurn, if_neg hunmoved] at hg'
          exact h.write hw horder hg'

/-- Where the writes come in their turn and a `mutate` is followed by its write, the app's database
and the sync store agree. -/
theorem storesAgree_of_mutatesInTurn
    (h : (mutateMachine ops policy).Reach (MutatesInTurn ops policy) s) : StoresAgree s := by
  have hinv : MutateInv ops policy s := h.invariant .start fun hinv hg hs => hinv.step hg hs
  exact hinv.storesAgree

/-! ## Runs of two instances -/

/-- The `t`-th op of the run is started, read and resolved. -/
def resolveSteps (instance_ t : Nat) (incoming : ConflictInput) : List MutateEvent :=
  [.step (.startOp instance_ none incoming), .step (.dequeue t), .step (.read t incoming.payload),
    .step (.resolve t)]

def commitSteps (t : Nat) : List MutateEvent :=
  [.mutate t, .step (.write t true)]

/-- An op loses its race after its `mutate`, and mutates and writes again. -/
theorem storesAgree_afterRace : ∃ s : MutateState,
    s.mutations = [0, 1, 2, 1] ∧ editCount s.userDb = some (.num 2) ∧ StoresAgree s := by
  let late := editOp .update "3.0.c"
  have hrun : (((mutateMachine noText (.custom countEdits)).runWith
      (fun s e => decide (MutatesInTurn noText (.custom countEdits) s e))
      (mutateMachine noText (.custom countEdits)).init
      (resolveSteps 0 0 (editOp .insert "1.0.a") ++ commitSteps 0 ++ resolveSteps 1 1 late ++
        [.mutate 1] ++ resolveSteps 0 2 (editOp .update "2.0.b") ++ commitSteps 2 ++
        [.step (.write 1 true), .step (.read 1 late.payload), .step (.resolve 1)] ++
        commitSteps 1)).map fun s => (s.mutations, editCount s.userDb)) =
      some ([0, 1, 2, 1], some (.num 2)) := by decide +kernel
  rcases Option.map_eq_some_iff.1 hrun with ⟨s, hs, hend⟩
  rcases Prod.mk.inj hend with ⟨hmutations, hcount⟩
  have hreach := Lib.Machine.Reach.of_runWith (fun _ _ h => of_decide_eq_true h) .init hs
  exact ⟨s, hmutations, hcount, storesAgree_of_mutatesInTurn hreach⟩

def titleOf (row : Option Row) : Option Json :=
  row.bind fun row => row.lookup "title"

/-- No op is under way, and the two rows differ in their titles. -/
def endsApart (s : MutateState) : Bool :=
  (s.cas.tasks.all fun task => !task.phase.pending) &&
    decide (titleOf s.userDb ≠ titleOf (s.cas.stored.map (·.row)))

theorem not_storesAgree_of_endsApart (h : endsApart s = true) : ¬ StoresAgree s := by
  intro hagree
  simp only [endsApart, Bool.and_eq_true, List.all_eq_true, Bool.not_eq_true',
    decide_eq_true_eq] at h
  exact h.2 (congrArg titleOf (hagree.agree h.1))

def titleOp (op : OpType) (title : String) (hlc : Hlc) : ConflictInput :=
  rowOp op [("title", .str title)] hlc

/-- The storage write of the only op throws; two instances mutate in one order and write in the
other; a delete loses its race after its `mutate`, and its retry is rejected. -/
theorem storesAgree_fails :
    (∃ s, (mutateMachine noText .lww).Reachable s ∧ s.cas.tasks.length = 1 ∧ ¬ StoresAgree s) ∧
    (∃ s, (mutateMachine noText .lww).Reachable s ∧
      s.cas.tasks.all (·.phase matches .accepted) ∧ ¬ StoresAgree s) ∧
    ∃ s, (mutateMachine noText (.text ⟨[], none⟩)).Reachable s ∧
      s.cas.tasks.any (·.phase matches .rejected) ∧ ¬ StoresAgree s := by
  have hends : ∀ {policy : ConflictPolicy} (es : List MutateEvent) {check : MutateState → Bool},
      ((mutateMachine noText policy).run es).map (fun s => check s && endsApart s) = some true →
      ∃ s, (mutateMachine noText policy).Reachable s ∧ check s = true ∧ ¬ StoresAgree s := by
    intro policy es check hrun
    rcases Option.map_eq_some_iff.1 hrun with ⟨s, hs, hchecks⟩
    rcases Bool.and_eq_true_iff.1 hchecks with ⟨hcheck, hapart⟩
    exact ⟨s, .of_run hs, hcheck, not_storesAgree_of_endsApart hapart⟩
  refine ⟨?_, ?_, ?_⟩
  · have hthrows : ((mutateMachine noText .lww).run
        (resolveSteps 0 0 (titleOp .insert "a" "1.0.a") ++ [.mutate 0, .step (.throw 0)])).map
          (fun s => decide (s.cas.tasks.length = 1) && endsApart s) = some true := by
      decide +kernel
    rcases hends _ hthrows with ⟨s, hs, hlength, hapart⟩
    exact ⟨s, hs, of_decide_eq_true hlength, hapart⟩
  · apply hends (resolveSteps 0 0 (titleOp .insert "a" "1.0.a") ++
      resolveSteps 1 1 (titleOp .insert "b" "2.0.b") ++
      [.mutate 0, .mutate 1, .step (.write 1 true), .step (.write 0 true)])
    decide +kernel
  · apply hends (resolveSteps 0 0 (titleOp .insert "a" "1.0.a") ++ commitSteps 0 ++
      resolveSteps 0 1 (rowOp .delete [] "2.0.a") ++
      resolveSteps 1 2 (titleOp .update "b" "3.0.b") ++
      [.mutate 2, .mutate 1, .step (.write 2 true), .step (.write 1 true),
        .step (.read 1 none), .step (.resolve 1)])
    decide +kernel

end Server
end Reflectdb
