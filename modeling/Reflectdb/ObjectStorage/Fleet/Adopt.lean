import Reflectdb.ObjectStorage.Fleet.Takeover

/-!
# Adopt — what `adoptOwnCommit` adopts

After a 412 an instance reads the manifest back, and takes it for its own commit if the writer, the
number and the epoch are those that it has attempted.  An epoch belongs to one process, so that the
commit is one of its own; that it is the one it has attempted also needs that no earlier commit has
landed without an answer.
-/

namespace Reflectdb
namespace ObjectStorage
namespace Fleet

open Core Client Lib

variable {ι : Type} {cfg : Config ι} {i j : ι} {st st' : Store ι} {n n' : Instance}

/-- Every PUT of the manifest that takes effect is answered, if by a 412. -/
def Act.Answered : Act → Prop
  | .commit (.put outcome) => outcome ≠ .lost
  | _ => True

instance : DecidablePred Act.Answered := fun a => by
  unfold Act.Answered
  split <;> infer_instance

def Answered (cfg : Config ι) : Guard ι := fun i st n a =>
  KeepsEpoch cfg i st n a ∧ a.Answered

instance [DecidableEq ι] (i : ι) (st : Store ι) (n : Instance) (a : Act) :
    Decidable (Answered cfg i st n a) :=
  inferInstanceAs (Decidable (_ ∧ _))

/-- The PUT of the commit may have taken effect, and the instance does not know yet. -/
def CommitPhase.landed : CommitPhase → Prop
  | .replied _ .failed => False
  | .replied _ _ | .conflicted _ | .found _ _ => True
  | _ => False

/-- The versions of an instance are behind the one that it holds, but for that of the commit in
flight. -/
def Behind (i : ι) (st : Store ι) (n : Instance) : Prop :=
  ∀ k v, st.versions[k]? = some v → v.author = i → k < n.commit.cachedTag ∨
    k = n.commit.cachedTag ∧ n.commit.phase.landed ∧ n.commit.chain.head? = some v.update

/-- A fenced instance may have left a version that it did not learn of; it commits no more. -/
def Latest (i : ι) (st : Store ι) (n : Instance) : Prop :=
  n.lease.fenced ∧ n.commit.phase = .waiting ∨ Behind i st n

theorem LeaseSide.fence_fenced (l : LeaseSide) : l.fence.fenced := by
  unfold LeaseSide.fence
  split
  · assumption
  · rfl

theorem LeaseStep.fenced {leases leases' : List (StoredLease ι)} {l l' : LeaseSide} {a : LeaseAct}
    (hs : LeaseStep cfg i leases l a leases' l') (h : l.fenced) : l'.fenced := by
  cases hs with
  | answer call now kind next reply =>
      have hdone : (l.done call).fenced := h
      cases kind <;> cases reply
      case renew.conflict => exact LeaseSide.fence_fenced _
      case renew.failed =>
          simp only [LeaseSide.answered]
          split
          · exact LeaseSide.fence_fenced _
          · exact hdone
      all_goals exact hdone
  | _ => exact h

theorem CommitSide.push_nil (c : CommitSide) : c = { c with chain := c.chain ++ [] } := by
  rw [List.append_nil]

/-- A step that leaves the commit in flight alone. -/
theorem Latest.keep (h : Latest i st n) {versions : List (Version ι)} {us : List Update}
    (hversions : st'.versions = st.versions ++ versions) (hothers : ∀ v ∈ versions, v.author ≠ i)
    (hfenced : n.lease.fenced → n'.lease.fenced)
    (hcommit : n'.commit = { n.commit with chain := n.commit.chain ++ us }) : Latest i st' n' := by
  rw [Latest, hcommit]
  refine h.imp (And.imp_left hfenced) fun hbehind k v hv hauthor => ?_
  rw [hcommit]
  rw [hversions] at hv
  rcases Nat.lt_or_ge k st.versions.length with hlt | hge
  · rw [List.getElem?_append_left hlt] at hv
    refine (hbehind k v hv hauthor).imp_right (And.imp_right (And.imp_right fun hhead => ?_))
    rw [List.head?_append, hhead]
    rfl
  · rw [List.getElem?_append_right hge] at hv
    exact absurd hauthor (hothers v (List.mem_of_getElem? hv))

/-- The commit goes on, and nothing of it has landed. -/
theorem Behind.withPhase (h : Behind i st n) (hnot : ¬ n.commit.phase.landed)
    (phase : CommitPhase) : Behind i st (n.withPhase phase) :=
  fun k v hv hauthor => (h k v hv hauthor).imp_right fun hk => absurd hk.2.1 hnot

/-- The commit goes on, and it may have landed. -/
theorem Behind.later (h : Behind i st n) {phase : CommitPhase} (hlanded : phase.landed) :
    Behind i st (n.withPhase phase) :=
  fun k v hv hauthor => (h k v hv hauthor).imp_right fun hk => ⟨hk.1, hlanded, hk.2.2⟩

theorem Behind.reject (h : Behind i st n) (hnot : ¬ n.commit.phase.landed) (u : Update)
    (notWriter : Bool) : Behind i st (n.reject u notWriter) := by
  intro k v hv hauthor
  rw [Instance.reject_commit]
  exact (h k v hv hauthor).imp_right fun hk => absurd hk.2.1 hnot

/-- The instance has learned of the version after the one that it held. -/
theorem Behind.resolve (h : Behind i st n) (m : Instance) (u : Update)
    (next cached : ManifestRecord) :
    Behind i st (m.resolve u next cached (n.commit.cachedTag + 1)) := by
  intro k v hv hauthor
  rw [Instance.resolve_commit]
  refine .inl (Nat.lt_succ_of_le ?_)
  rcases h k v hv hauthor with hlt | hk
  · exact hlt.le
  · exact hk.1.le

/-- Where the phase is past its start, nothing was left behind. -/
theorem Latest.behind (h : Latest i st n) (hphase : n.commit.phase ≠ .waiting) : Behind i st n :=
  h.resolve_left fun hfenced => hphase hfenced.2

theorem Latest.of_commit {a : CommitAct} (hmode : cfg.mode = .singleWriter)
    (hlinear : Linear cfg st.versions) (hl : LeasesOk st.leases)
    (hv : VersionsOk st.leases st.versions) (hi : EpochsOk i st n) (hsync : Synced cfg i st n)
    (hsolo : Solo i st n) (hanswered : (Act.commit a).Answered) (h : Latest i st n)
    (hs : CommitStep cfg i st n a st' n') : Latest i st' n' := by
  cases hs with
  | setMeta => exact h.keep (List.append_nil _).symm (by simp) id rfl
  | startOptimistic hopt => cases hmode.symm.trans hopt
  | start _ hwaiting _ hfenced =>
      have hbehind : Behind i st n := h.resolve_left (by simp [hfenced])
      exact .inr (hbehind.withPhase (by simp [hwaiting, CommitPhase.landed]) _)
  | grant hstarted =>
      have hbehind := h.behind (by simp [hstarted])
      exact .inr (hbehind.withPhase (by simp [hstarted, CommitPhase.landed]) _)
  | issue u us hgranted =>
      have hbehind := h.behind (by simp [hgranted])
      exact .inr (hbehind.withPhase (by simp [hgranted, CommitPhase.landed]) _)
  | put outcome ifMatch next u us reply hissued hchain hmatch hreply hconflict hfailed =>
      have hbehind := h.behind (by simp [hissued])
      have htip : n.commit.cachedTag = st.tip := (hsolo.issued _ _ hissued).symm.trans hmatch
      have hlanded : (CommitPhase.replied next reply).landed := by
        cases reply with
        | failed => exact hanswered (hfailed rfl)
        | _ => trivial
      refine .inr fun k v hv hauthor => ?_
      -- only the version that has just landed is not below the cached tag
      rcases Nat.lt_or_ge k st.versions.length with hlt | hge
      · exact .inl (htip ▸ hlt)
      · have hlast := (List.getElem?_eq_some_iff.1 hv).1
        have hk : k = st.tip := by
          simp only [Store.publish, List.length_append, List.length_singleton] at hlast
          exact Nat.le_antisymm (Nat.le_of_lt_succ hlast) hge
        subst hk
        have hu : u = v.update := by
          simp only [Store.publish, Store.tip, List.getElem?_concat_length,
            Option.some.injEq] at hv
          rw [← hv]
        exact .inr ⟨htip.symm, hlanded, by simp [Instance.withPhase, hchain, hu]⟩
  | putRefused outcome ifMatch next u us reply hissued =>
      have hbehind := h.behind (by simp [hissued])
      exact .inr (hbehind.withPhase (by simp [hissued, CommitPhase.landed]) _)
  | answer next tag u us hreplied hchain =>
      have htag := (hsolo.replied next tag hreplied).1
      subst htag
      exact .inr ((h.behind (by simp [hreplied])).resolve _ u next next)
  | answerConflict next u us hreplied =>
      exact .inr ((h.behind (by simp [hreplied])).later trivial)
  | answerFailed next u us hreplied =>
      have hbehind := h.behind (by simp [hreplied])
      exact .inr (hbehind.reject (by simp [hreplied, CommitPhase.landed]) u false)
  | readBack ok next hconflicted =>
      exact .inr ((h.behind (by simp [hconflicted])).later trivial)
  | adopt tag next u us hfound hchain hzero hown =>
      have htag := (hsolo.adopted hlinear hl hv hi hsync hfound hzero hown).1
      subst htag
      exact .inr ((h.behind (by simp [hfound])).resolve n.noteWrite u next _)
  | fence tag next u =>
      refine .inl ⟨?_, by simp⟩
      rw [Instance.reject_lease]
      exact LeaseSide.fence_fenced _
  | giveUp tag next u us _ _ hopt => cases hmode.symm.trans hopt
  | retry tag next u us _ _ hopt => cases hmode.symm.trans hopt
  | reload hreloading => exact absurd hreloading hi.phase.single.1
  | reloaded tag hreloaded => exact absurd hreloaded (hi.phase.single.2 tag)
  | refuse notWriter u us hchain hrefuses =>
      -- a commit that throws has no PUT that may have landed
      have hnot : ¬ n.commit.phase.landed := by
        intro hlanded
        unfold Instance.refuses at hrefuses
        split at hrefuses <;> rename_i hphase <;>
          simp_all [CommitPhase.landed]
      rcases h with ⟨hfenced, -⟩ | hbehind
      · exact .inl ⟨by simp [hfenced], by simp⟩
      · exact .inr (hbehind.reject hnot u notWriter)

/-- In every run in which each PUT of the manifest that takes effect is answered. -/
theorem latest [DecidableEq ι] {G : Guard ι} (hmode : cfg.mode = .singleWriter)
    (hG : ∀ {i st n a}, G i st n a → Answered cfg i st n a) {s : FleetState ι}
    (h : FleetReach cfg G s) (i : ι) : Latest i s.shared (s.locals i) := by
  have hkeeps : ∀ {i st n a}, G i st n a → KeepsEpoch cfg i st n a := fun hg => (hG hg).1
  suffices hall : s.All (fun _ => True) Latest from hall.2 i
  refine FleetReach.invariant (fun hr => And.intro (soloRoom hmode hkeeps hr)
    fun i => solo hmode hkeeps hr i) trivial ?_ ?_ ?_ h
  · exact fun _ => .inr fun k v hv => by simp [Store.start] at hv
  · rintro s i a st' n' ⟨hroom, hsolo⟩ ⟨-, hall⟩ hg hs
    refine ⟨trivial, ?_⟩
    have hkeep : ∀ {st' : Store ι} {n' : Instance} {us : List Update},
        st'.versions = s.shared.versions →
          ((s.locals i).lease.fenced → n'.lease.fenced) →
            n'.commit = { (s.locals i).commit with chain := (s.locals i).commit.chain ++ us } →
              Latest i st' n' := by
      intro st' n' us hversions hfenced hcommit
      exact (hall i).keep (hversions.trans (List.append_nil _).symm) (by simp) hfenced hcommit
    have hsame := (s.locals i).commit.push_nil
    cases hs with
    | room hs =>
        cases hs with
        | load hcold =>
            refine .inr fun k v hv _ => .inl ?_
            exact (List.getElem?_eq_some_iff.1 hv).1
        | _ => exact hkeep rfl id hsame
    | lease _ hs => exact hkeep rfl hs.fenced hsame
    | loop hs =>
        obtain ⟨us, hcommit⟩ := hs.commit
        exact hkeep (by cases hs <;> rfl) (by cases hs <;> exact id) hcommit
    | commit hs =>
        exact (hall i).of_commit hmode hroom.linear hroom.leases hroom.versions (hroom.epochs i)
          (hroom.sync i) (hsolo i) (hG hg).2 hs
    | refresh hs =>
        exact hkeep rfl (by rw [hs.lease]; exact id)
          ((hs.commit hmode (hroom.epochs i)).trans hsame)
  · rintro s i a st' n' - ⟨-, hall⟩ - hs j hj
    rcases hs.versions with heq | ⟨next, u, us, -, -, heq⟩
    · exact (hall j).keep (heq.trans (List.append_nil _).symm) (by simp) id
        (s.locals j).commit.push_nil
    · refine (hall j).keep heq (fun v hv => ?_) id (s.locals j).commit.push_nil
      rw [List.mem_singleton.1 hv]
      exact Ne.symm hj

/-- What `adoptOwnCommit` has read. -/
def CommitPhase.manifestFound : CommitPhase → Option (ManifestRecord × Nat)
  | .found next (some tag) => some (next, tag)
  | _ => none

theorem CommitPhase.manifestFound_eq_some {phase : CommitPhase} {next : ManifestRecord}
    {tag : Nat} : phase.manifestFound = some (next, tag) ↔ phase = .found next (some tag) := by
  unfold manifestFound
  split <;> simp_all

end Fleet
end ObjectStorage
end Reflectdb
