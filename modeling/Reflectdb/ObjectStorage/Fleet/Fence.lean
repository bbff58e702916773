import Reflectdb.Lib.Simulation
import Reflectdb.ObjectStorage.Fleet.History

/-!
# Fence — an instance that is fenced or stopped

The checks of `doCommit` come first, and the PUT some steps later.  What is under way when an
instance is fenced or stopped may still land, and nothing after it does.
-/

namespace Reflectdb
namespace ObjectStorage
namespace Fleet

open Core Client Lib

variable {ι : Type} {cfg : Config ι} {i j : ι} {st st' : Store ι} {n n' : Instance}

/-- A fenced or a stopped instance does not start a commit. -/
def LeaseSide.Out (l : LeaseSide) : Prop :=
  l.fenced ∨ l.stopped

instance (l : LeaseSide) : Decidable l.Out :=
  inferInstanceAs (Decidable (_ ∨ _))

/-- The PUTs of the manifest that a single writer has passed the checks for. -/
def CommitPhase.cleared : CommitPhase → Nat
  | .waiting | .replied _ _ | .conflicted _ | .found _ _ => 0
  | _ => 1

/-- The versions that the instance has committed. -/
def Store.authored [DecidableEq ι] (st : Store ι) (i : ι) : Nat :=
  st.versions.countP fun v => v.author = i

theorem Store.authored_publish [DecidableEq ι] (st : Store ι) (j : ι) (next : ManifestRecord)
    (u : Update) :
    (st.publish j next u).authored i = st.authored i + if j = i then 1 else 0 := by
  simp [Store.authored, Store.publish, List.countP_append]

theorem Store.authored_of_eq [DecidableEq ι] (h : st'.versions = st.versions) :
    st'.authored i = st.authored i := by
  rw [Store.authored, h]
  rfl

/-! ## No way back -/

theorem LeaseSide.Out.fence {l : LeaseSide} (h : l.Out) : l.fence.Out := by
  unfold LeaseSide.fence
  split
  · exact h
  · exact .inl rfl

theorem LeaseSide.Out.of_step {leases leases' : List (StoredLease ι)} {l l' : LeaseSide}
    {a : LeaseAct} (h : l.Out) (hs : LeaseStep cfg i leases l a leases' l') : l'.Out := by
  cases hs with
  | answer call now kind next reply =>
      have hdone : (l.done call).Out := h
      cases kind <;> cases reply
      case renew.conflict => exact hdone.fence
      case renew.failed =>
          simp only [LeaseSide.answered]
          split
          · exact hdone.fence
          · exact hdone
      all_goals exact hdone
  | _ => exact h

/-- The lease of an instance changes by its own steps, by a boot or a reload that inherits an epoch,
by a stop, and by a commit. -/
theorem LeaseSide.Out.of_commit {a : CommitAct} (h : n.lease.Out)
    (hs : CommitStep cfg i st n a st' n') : n'.lease.Out := by
  cases hs with
  | answer next tag u us =>
      rw [Instance.resolve_lease, Instance.committed]
      split <;> exact h
  | answerFailed next u => rwa [Instance.reject_lease]
  | adopt tag next u => rw [Instance.resolve_lease]; exact h
  | fence tag next u => rw [Instance.reject_lease]; exact h.fence
  | giveUp tag next u => rwa [Instance.reject_lease]
  | refuse notWriter u => rwa [Instance.reject_lease]
  | _ => exact h

theorem RoomStep.commit_phase {a : RoomAct} (hs : RoomStep cfg st n a st' n') :
    n'.commit.phase = n.commit.phase := by
  cases hs <;> rfl

theorem RefreshStep.commit_phase {a : RefreshAct} (hs : RefreshStep cfg i st n a n') :
    n'.commit.phase = n.commit.phase := by
  cases hs with
  | answer call tag =>
      rcases Instance.adopt_commit st n tag with heq | ⟨-, heq⟩ <;>
        simp only [Instance.withRefresh, heq]
  | _ => rfl

theorem RefreshStep.lease {a : RefreshAct} (hs : RefreshStep cfg i st n a n') :
    n'.lease = n.lease := by
  cases hs with
  | answer call tag => simp [Instance.withRefresh]
  | _ => rfl

/-- A commit that is not cleared any more stays so, and one that is lands at most once. -/
theorem CommitStep.authored [DecidableEq ι] {a : CommitAct} (hmode : cfg.mode = .singleWriter)
    (hout : n.lease.Out) (hs : CommitStep cfg i st n a st' n') :
    st'.authored i + n'.commit.phase.cleared ≤ st.authored i + n.commit.phase.cleared := by
  cases hs with
  | startOptimistic hopt => cases hmode.symm.trans hopt
  | start _ _ _ hfenced hstopped =>
      rcases hout with hf | hf
      · cases hfenced.symm.trans hf
      · cases hstopped.symm.trans hf
  | grant hphase => simp [hphase, Instance.withPhase, CommitPhase.cleared]
  | issue u us hphase => simp [hphase, Instance.withPhase, CommitPhase.cleared]
  | put outcome ifMatch next u us reply hphase =>
      simp [Store.authored_publish, hphase, Instance.withPhase, CommitPhase.cleared]
  | putRefused outcome ifMatch next u us reply hphase =>
      simp [hphase, Instance.withPhase, CommitPhase.cleared]
  | answer next tag u => simp [CommitPhase.cleared]
  | answerConflict next => simp [Instance.withPhase, CommitPhase.cleared]
  | answerFailed next u => simp [CommitPhase.cleared]
  | readBack ok next => simp [Instance.withPhase, CommitPhase.cleared]
  | adopt tag next u => simp [CommitPhase.cleared]
  | fence tag next u => simp [CommitPhase.cleared]
  | giveUp tag next u _ _ _ hopt => cases hmode.symm.trans hopt
  | retry tag next u us _ _ hopt => cases hmode.symm.trans hopt
  | reload hphase => simp [hphase, Instance.withPhase, CommitPhase.cleared]
  | reloaded tag hphase => simp [hphase, CommitPhase.cleared]
  | refuse notWriter u => simp [CommitPhase.cleared]
  | setMeta key value => exact le_rfl

/-- What an instance that is out has left to commit goes down. -/
theorem Step.authored [DecidableEq ι] {a : Act} (hmode : cfg.mode = .singleWriter)
    (hout : n.lease.Out) (hs : Step cfg i st n a st' n') :
    n'.lease.Out ∧
      st'.authored i + n'.commit.phase.cleared ≤ st.authored i + n.commit.phase.cleared := by
  cases hs with
  | room h =>
      rw [h.commit_phase]
      cases h with
      | stop => exact ⟨.inr rfl, le_rfl⟩
      | _ => exact ⟨hout, le_rfl⟩
  | lease _ h => exact ⟨hout.of_step h, le_rfl⟩
  | loop h => cases h <;> exact ⟨hout, le_rfl⟩
  | commit h => exact ⟨hout.of_commit h, h.authored hmode hout⟩
  | refresh h =>
      rw [h.commit_phase, h.lease]
      exact ⟨hout, le_rfl⟩

/-- The steps of others commit nothing for it. -/
theorem Step.authored_of_ne [DecidableEq ι] {a : Act} (hne : j ≠ i)
    (hs : Step cfg j st n a st' n') : st'.authored i = st.authored i := by
  rcases hs.versions with heq | ⟨next, u, us, -, -, heq⟩
  · exact Store.authored_of_eq heq
  · rw [Store.authored_of_eq heq, Store.authored_publish, if_neg hne, Nat.add_zero]

/-- A single writer that was fenced or stopped commits what was under way by then, whatever it and
the others do from then on, and never again. -/
theorem authored_of_out [DecidableEq ι] (hmode : cfg.mode = .singleWriter) {s s' : FleetState ι}
    {events : List (ι × Act)} (hout : (s.locals i).lease.Out)
    (hrun : (fleetMachine cfg).runFrom s events = some s') :
    (s'.locals i).lease.Out ∧
      s'.shared.authored i ≤ s.shared.authored i + (s.locals i).commit.phase.cleared := by
  suffices h : (s'.locals i).lease.Out ∧
      s'.shared.authored i + (s'.locals i).commit.phase.cleared ≤
        s.shared.authored i + (s.locals i).commit.phase.cleared from
    ⟨h.1, (Nat.le_add_right _ _).trans h.2⟩
  induction events generalizing s with
  | nil =>
      cases hrun
      exact ⟨hout, le_rfl⟩
  | cons e events ih =>
      rw [Machine.runFrom_cons] at hrun
      obtain ⟨s₁, hstep, hrest⟩ := Option.bind_eq_some_iff.1 hrun
      obtain ⟨⟨st₁, n₁⟩, hact, rfl⟩ := Option.map_eq_some_iff.1 hstep
      have hs := Step.of_eq hact
      -- the bound goes down along its own steps, and those of others add none of its versions
      by_cases hi : e.1 = i
      · subst hi
        have hown := hs.authored hmode hout
        have hlater :=
          ih (s := ⟨st₁, Function.update s.locals e.1 n₁⟩) (by simpa using hown.1) hrest
        refine ⟨hlater.1, hlater.2.trans ?_⟩
        simpa using hown.2
      · have hsame := hs.authored_of_ne hi
        have hi' : i ≠ e.1 := fun h => hi h.symm
        have hlater := ih (s := ⟨st₁, Function.update s.locals e.1 n₁⟩)
          (by simpa [Function.update_of_ne hi'] using hout) hrest
        refine ⟨hlater.1, hlater.2.trans ?_⟩
        simp only [Function.update_of_ne hi', hsame]
        exact le_rfl

/-! ### A PUT under way when its instance is fenced -/

/-- The instance takes the lease. -/
def leaseEvents (i : ι) (now : Nat) : List (ι × Act) :=
  [(i, .lease .get), (i, .lease (.decide 0 now)), (i, .lease (.put 0 .ok)),
    (i, .lease (.answer 0 now))]

/-- A single writer that holds the lease builds its next commit. -/
def issueEvents (i : ι) : List (ι × Act) :=
  [(i, .commit .start), (i, .commit .grant), (i, .commit .issue)]

/-- The other instance has taken the lease over, and not committed yet. -/
theorem authored_of_out_fenced :
    ∃ s s' : FleetState Bool, (s.locals true).lease.fenced ∧ s.shared.authored true = 1 ∧
      s'.shared.authored true = 2 ∧ (s'.locals true).lease.Out ∧
        s'.shared.authored true ≤
          s.shared.authored true + (s.locals true).commit.phase.cleared := by
  let machine := fleetMachine (twoInstances .singleWriter)
  let events := bootEvents true 0 ++ bootEvents false 0 ++ leaseEvents true 0
    ++ [(true, .commit (.setMeta "k" "v"))] ++ issueEvents true
    ++ [(true, .commit (.put .ok)), (true, .commit .answer), (true, .commit (.setMeta "k" "w"))]
    ++ issueEvents true ++ leaseEvents false 20
    ++ [(true, .lease (.tick 5)), (true, .lease (.put 0 .conflict)), (true, .lease (.answer 0 20))]
  let later := [(true, Act.commit (.put .ok)), (true, .commit .answer)]
  have hrun : (machine.run events).map (fun s =>
      ((s.locals true).lease.fenced, s.shared.authored true,
        (machine.runFrom s later).map (·.shared.authored true))) = some (true, 1, some 2) := by
    decide +kernel
  obtain ⟨s, -, hs⟩ := Option.map_eq_some_iff.1 hrun
  obtain ⟨hfenced, hone, hlater⟩ := by simpa only [Prod.mk.injEq] using hs
  obtain ⟨s', hs', htwo⟩ := Option.map_eq_some_iff.1 hlater
  exact ⟨s, s', hfenced, hone, htwo, authored_of_out rfl (.inl hfenced) hs'⟩

end Fleet
end ObjectStorage
end Reflectdb
