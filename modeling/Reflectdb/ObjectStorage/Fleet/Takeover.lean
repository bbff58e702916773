import Reflectdb.ObjectStorage.Fleet.Epochs

/-!
# Takeover — a single writer that another has overtaken

A single writer knows the manifest of its boot and what it has committed itself since.  Once the
version after that is another's, its PUTs name a version that is not the latest, and what it reads
back has an epoch that it does not own; it commits nothing any more, fenced or not.
-/

namespace Reflectdb
namespace ObjectStorage
namespace Fleet

open Core Client Lib

variable {ι : Type} {cfg : Config ι} {i j : ι} {st st' : Store ι} {n n' : Instance}

/-! ## Before a boot has returned -/

theorem CommitStep.boot {a : CommitAct} (hs : CommitStep cfg i st n a st' n') :
    n'.room.boot = n.room.boot := by
  cases hs with
  | answer next tag u us => simp
  | answerFailed next u => rw [Instance.reject_room]
  | adopt tag next u => rw [Instance.resolve_boot]; rfl
  | fence tag next u => rw [Instance.reject_room]
  | giveUp tag next u => rw [Instance.reject_room]
  | refuse notWriter u => rw [Instance.reject_room]
  | _ => rfl

theorem LoopStep.room {a : LoopAct} (hs : LoopStep cfg i st n a st' n') : n'.room = n.room := by
  cases hs <;> rfl

theorem RefreshStep.boot {a : RefreshAct} (hs : RefreshStep cfg i st n a n') :
    n'.room.boot = n.room.boot := by
  cases hs with
  | answer call tag => simp [Instance.withRefresh]
  | _ => rfl

/-- A room that is ready stays so. -/
theorem Step.ready {a : Act} (hs : Step cfg i st n a st' n') (h : n.room.boot = .ready) :
    n'.room.boot = .ready := by
  cases hs with
  | room hs =>
      cases hs with
      | load hboot => cases hboot.symm.trans h
      | noSnapshot _ hboot => cases hboot.symm.trans h
      | snapshot _ _ _ _ _ hboot => cases hboot.symm.trans h
      | snapshotThrew _ _ _ _ hboot => cases hboot.symm.trans h
      | segment _ _ _ _ _ hboot => cases hboot.symm.trans h
      | segmentThrew _ _ _ _ _ _ hboot => cases hboot.symm.trans h
      | replayed hboot => cases hboot.symm.trans h
      | start => rfl
      | failBoot _ hready => exact absurd h hready
      | _ => exact h
  | lease => exact h
  | loop hs => rw [hs.room]; exact h
  | commit hs => rw [hs.boot]; exact h
  | refresh hs => rw [hs.boot]; exact h

/-- Nothing was written yet. -/
structure Untouched (n : Instance) : Prop where
  chain : n.commit.chain = []
  phase : n.commit.phase = .waiting
  commits : n.commit.resolved = []
  task : n.loop.task = .idle
  buffer : n.loop.buffer = []
  appended : n.loop.appended = []
  resolved : n.loop.resolved = []

theorem Untouched.of_commit {a : CommitAct} (h : Untouched n) (hboot : n.room.boot ≠ .ready)
    (hs : CommitStep cfg i st n a st' n') : Untouched n' := by
  have hphase : ∀ {phase : CommitPhase}, phase ≠ .waiting → n.commit.phase ≠ phase :=
    fun hp heq => hp (heq.symm.trans h.phase)
  have hchain : ∀ {u : Update} {us : List Update}, n.commit.chain ≠ u :: us := by
    simp [h.chain]
  cases hs with
  | setMeta _ _ hready => exact absurd hready hboot
  | startOptimistic _ _ hne => exact absurd h.chain hne
  | start _ _ hne => exact absurd h.chain hne
  | grant hp => exact absurd hp (hphase (by simp))
  | readBack _ _ hp => exact absurd hp (hphase (by simp))
  | reload hp => exact absurd hp (hphase (by simp))
  | reloaded _ hp => exact absurd hp (hphase (by simp))
  | issue _ _ _ hc => exact absurd hc hchain
  | put _ _ _ _ _ _ _ hc => exact absurd hc hchain
  | putRefused _ _ _ _ _ _ _ hc => exact absurd hc hchain
  | answer _ _ _ _ _ hc => exact absurd hc hchain
  | answerConflict _ _ _ _ hc => exact absurd hc hchain
  | answerFailed _ _ _ _ hc => exact absurd hc hchain
  | adopt _ _ _ _ _ hc => exact absurd hc hchain
  | fence _ _ _ _ _ hc => exact absurd hc hchain
  | giveUp _ _ _ _ _ hc => exact absurd hc hchain
  | retry _ _ _ _ _ hc => exact absurd hc hchain
  | refuse _ _ _ hc => exact absurd hc hchain

theorem Untouched.of_loop {a : LoopAct} (h : Untouched n) (hboot : n.room.boot ≠ .ready)
    (hs : LoopStep cfg i st n a st' n') : Untouched n' := by
  have htask : ∀ {task : Task}, n.loop.task = task → task = .idle := fun heq =>
    heq.symm.trans h.task
  cases hs with
  | ensure hready => exact absurd hready hboot
  | fail _ hne => exact absurd h.buffer hne
  | flush ht => cases htask ht
  | putSegment _ _ ht => cases htask ht
  | lostSegment _ _ ht => cases htask ht
  | failedSegment _ _ ht => cases htask ht
  | skip ht => cases htask ht
  | compact _ ht => cases htask ht
  | putSnapshot _ _ _ _ ht => cases htask ht
  | lostSnapshot _ _ _ _ ht => cases htask ht
  | failedSnapshot _ _ _ _ ht => cases htask ht
  | nothingDue _ ht => cases htask ht
  | collect _ ht => cases htask ht
  | startDelete _ ht => cases htask ht
  | delete _ _ _ ht => cases htask ht
  | deleteThrew _ _ _ ht => cases htask ht

/-- Before it is ready, a room has written nothing. -/
theorem untouched [DecidableEq ι] {G : Guard ι} {s : FleetState ι} (h : FleetReach cfg G s) (i : ι)
    (hboot : (s.locals i).room.boot ≠ .ready) : Untouched (s.locals i) := by
  suffices hall : s.All (fun _ => True) fun _ _ n => n.room.boot ≠ .ready → Untouched n from
    hall.2 i hboot
  refine FleetReach.invariant (K := fun _ => True) (fun _ => trivial) trivial
    (fun _ _ => ⟨rfl, rfl, rfl, rfl, rfl, rfl, rfl⟩) ?_ (fun _ hall _ _ j _ => hall.2 j) h
  rintro s i a st' n' - ⟨-, hall⟩ - hs
  refine ⟨trivial, fun hboot' => ?_⟩
  have hboot : (s.locals i).room.boot ≠ .ready := fun hready => hboot' (hs.ready hready)
  have hold := hall i hboot
  cases hs with
  | room hs =>
      cases hs with
      | append _ _ _ hready => exact absurd hready hboot
      | reserve _ _ _ _ _ _ hready => exact absurd hready hboot
      | flushed hready => exact absurd hready hboot
      | _ =>
          exact ⟨hold.chain, hold.phase, hold.commits, hold.task, hold.buffer, hold.appended,
            hold.resolved⟩
  | lease => exact ⟨hold.chain, hold.phase, hold.commits, hold.task, hold.buffer, hold.appended,
    hold.resolved⟩
  | loop hs => exact hold.of_loop hboot hs
  | commit hs => exact hold.of_commit hboot hs
  | refresh hs =>
      cases hs with
      | answer call tag =>
          rcases Instance.adopt_commit s.shared (s.locals i) tag with heq | ⟨-, heq⟩ <;>
            refine ⟨?_, ?_, ?_, ?_, ?_, ?_, ?_⟩ <;>
            simp [Instance.withRefresh, heq, hold.chain, hold.phase, hold.commits, hold.task,
              hold.buffer, hold.appended, hold.resolved]
      | _ =>
          exact ⟨hold.chain, hold.phase, hold.commits, hold.task, hold.buffer, hold.appended,
            hold.resolved⟩

/-! ## What a single writer has committed -/

/-- The commit in flight of a single writer is made on the manifest that it holds. -/
structure Solo (i : ι) (st : Store ι) (n : Instance) : Prop where
  next : ∀ m ∈ n.commit.phase.next, m.commitSeq = n.commit.cachedTag + 1
  issued : ∀ ifMatch m, n.commit.phase = .issued ifMatch m → ifMatch = n.commit.cachedTag
  replied : ∀ m tag, n.commit.phase = .replied m (.ok tag) → tag = n.commit.cachedTag + 1 ∧
    ∃ v, st.versions[n.commit.cachedTag]? = some v ∧ v.author = i ∧
      n.commit.chain.head? = some v.update

theorem Solo.of_waiting (h : n.commit.phase = .waiting) : Solo i st n :=
  ⟨by simp [h, CommitPhase.next], by simp [h], by simp [h]⟩

theorem Solo.keep (h : Solo i st n) {versions : List (Version ι)} {chain : List Update}
    (hversions : st'.versions = st.versions ++ versions)
    (hchain : n'.commit.chain = n.commit.chain ++ chain)
    (htag : n'.commit.cachedTag = n.commit.cachedTag)
    (hphase : n'.commit.phase = n.commit.phase) : Solo i st' n' := by
  refine ⟨?_, ?_, fun m tag hreplied => ?_⟩
  · rw [hphase, htag]
    exact h.next
  · rw [hphase, htag]
    exact h.issued
  · rw [hphase] at hreplied
    obtain ⟨heq, v, hv, hauthor, hhead⟩ := h.replied m tag hreplied
    rw [htag]
    refine ⟨heq, v, ?_, hauthor, ?_⟩
    · rw [hversions, List.getElem?_append_left (List.getElem?_eq_some_iff.1 hv).1, hv]
    · rw [hchain, List.head?_append, hhead]
      rfl

/-- The commit goes on with the manifest that it attempts. -/
theorem Solo.later (h : Solo i st n) {m : ManifestRecord} {phase : CommitPhase}
    (hm : n.commit.phase.next = some m) (hlater : phase.next = some m)
    (hissued : ∀ ifMatch m, phase ≠ .issued ifMatch m)
    (hreplied : ∀ m tag, phase ≠ .replied m (.ok tag)) : Solo i st (n.withPhase phase) := by
  refine ⟨fun m' hm' => ?_, fun ifMatch m' hp => absurd hp (hissued ifMatch m'),
    fun m' tag hp => absurd hp (hreplied m' tag)⟩
  have heq : m = m' := Option.some.inj (hlater.symm.trans hm')
  subst heq
  exact h.next m hm

/-- What `adoptOwnCommit` adopts is the instance's own: the epoch is. -/
theorem Solo.adopted (h : Solo i st n) (hlinear : Linear cfg st.versions)
    (hl : LeasesOk st.leases) (hv : VersionsOk st.leases st.versions) (hi : EpochsOk i st n)
    (hsync : Synced cfg i st n) {next : ManifestRecord} {tag : Nat}
    (hfound : n.commit.phase = .found next (some tag)) (hzero : tag ≠ 0)
    (hown : IsOwnCommit (cfg.writerId i) next (manifestAt st.versions tag)) :
    tag = n.commit.cachedTag + 1 ∧
      ∃ v, st.versions[n.commit.cachedTag]? = some v ∧ v.author = i := by
  have htag : tag ≤ st.tip := by
    have hphase := hsync.phase
    rw [hfound] at hphase
    exact hphase
  have hnext : n.commit.phase.next = some next := by
    rw [hfound]
    rfl
  -- the commitSeq fixes the version, and the epoch its author
  have hseq : tag = n.commit.cachedTag + 1 := by
    rw [← h.next next hnext, ← hown.2.1, hlinear.commitSeq htag]
  subst hseq
  obtain ⟨v, hget⟩ : ∃ v, st.versions[n.commit.cachedTag]? = some v :=
    ⟨_, List.getElem?_eq_getElem (Nat.lt_of_succ_le htag)⟩
  refine ⟨rfl, v, hget, ?_⟩
  have hepoch : v.record.epoch = next.epoch := by
    rw [← hown.2.2, manifestAt, tagged_of_getElem? hget]
  exact hl.owns_inj (hepoch ▸ hv.owns _ (List.mem_of_getElem? hget)) (hi.phase.next next hnext).1

theorem Solo.of_commit {a : CommitAct} (hmode : cfg.mode = .singleWriter)
    (hlinear : Linear cfg st.versions) (hsync : Synced cfg i st n) (hi : EpochsOk i st n)
    (h : Solo i st n) (hs : CommitStep cfg i st n a st' n') : Solo i st' n' := by
  have hlater : ∀ {m : ManifestRecord} {phase : CommitPhase}, n.commit.phase.next = some m →
      phase.next = some m → (∀ ifMatch m, phase ≠ .issued ifMatch m) →
        (∀ m tag, phase ≠ .replied m (.ok tag)) → Solo i st (n.withPhase phase) :=
    fun hm hphase hissued hreplied => h.later hm hphase hissued hreplied
  have hplain : ∀ {phase : CommitPhase}, phase.next = none → Solo i st (n.withPhase phase) := by
    intro phase hphase
    refine ⟨?_, ?_, ?_⟩ <;> simp only [Instance.withPhase_phase]
    · simp [hphase]
    · rintro ifMatch m rfl
      cases hphase
    · rintro m tag rfl
      cases hphase
  cases hs with
  | setMeta key value => exact h.keep (List.append_nil _).symm rfl rfl rfl
  | startOptimistic hopt => cases hmode.symm.trans hopt
  | start => exact hplain rfl
  | grant => exact hplain rfl
  | issue u us =>
      refine ⟨?_, ?_, ?_⟩
      · rintro m ⟨⟩
        simp only [Instance.attempts, Update.mutate_commitSeq, buildNext, Instance.withPhase]
        rw [hsync.cached, hlinear.commitSeq hsync.cachedTag]
      · rintro ifMatch m ⟨⟩
        rfl
      · simp
  | put outcome ifMatch next u us reply hissued hchain hmatch hreply =>
      -- the PUT lands only on the version that the instance holds
      have htag : n.commit.cachedTag = st.tip := (h.issued _ _ hissued).symm.trans hmatch
      refine ⟨?_, by simp, ?_⟩
      · rintro m ⟨⟩
        exact h.next next (by simp [hissued, CommitPhase.next])
      · intro m tag hp
        cases hp
        refine ⟨htag ▸ hreply tag rfl, ⟨next, i, u, u.extend (logAt st.versions st.tip)⟩, ?_, rfl,
          ?_⟩
        · simp [Instance.withPhase, Store.publish, htag]
        · simp [Instance.withPhase, hchain]
  | putRefused outcome ifMatch next u us reply hissued hchain hreply =>
      refine hlater (m := next) (by simp [hissued, CommitPhase.next]) rfl (by simp) ?_
      intro m tag hp
      cases hp
      exact hreply tag rfl
  | answer next tag u us => exact .of_waiting (by simp)
  | answerConflict next u us hreplied =>
      exact hlater (m := next) (by simp [hreplied, CommitPhase.next]) rfl (by simp) (by simp)
  | answerFailed next u => exact .of_waiting (by simp)
  | readBack ok next hconflicted =>
      exact hlater (m := next) (by simp [hconflicted, CommitPhase.next]) rfl (by simp) (by simp)
  | adopt tag next u => exact .of_waiting (by simp)
  | fence tag next u => exact .of_waiting (by simp)
  | giveUp tag next u us _ _ hopt => cases hmode.symm.trans hopt
  | retry tag next u us _ _ hopt => cases hmode.symm.trans hopt
  | reload hreloading => exact absurd hreloading hi.phase.single.1
  | reloaded tag hreloaded => exact absurd hreloaded (hi.phase.single.2 tag)
  | refuse notWriter u => exact .of_waiting (by simp)

theorem LoopStep.commit {a : LoopAct} (hs : LoopStep cfg i st n a st' n') :
    ∃ chain, n'.commit = { n.commit with chain := n.commit.chain ++ chain } := by
  have hsame : n.commit = { n.commit with chain := n.commit.chain ++ [] } := by
    rw [List.append_nil]
  cases hs with
  | putSegment ref batch => exact ⟨_, rfl⟩
  | putSnapshot now key record log => exact ⟨_, rfl⟩
  | collect now => exact ⟨_, rfl⟩
  | delete done keys now => exact ⟨_, rfl⟩
  | _ => exact ⟨[], hsame⟩

/-- A single writer does not refresh. -/
theorem RefreshStep.commit {a : RefreshAct} (hmode : cfg.mode = .singleWriter)
    (hi : EpochsOk i st n) (hs : RefreshStep cfg i st n a n') : n'.commit = n.commit := by
  cases hs with
  | get hopt => cases hmode.symm.trans hopt
  | answer call tag next hcall => simp [hi.refreshes] at hcall
  | _ => rfl

/-- The invariants of a single-writer room so far. -/
structure SoloRoom (cfg : Config ι) (s : FleetState ι) : Prop where
  linear : Linear cfg s.shared.versions
  sync : ∀ i, Synced cfg i s.shared (s.locals i)
  leases : LeasesOk s.shared.leases
  versions : VersionsOk s.shared.leases s.shared.versions
  epochs : ∀ i, EpochsOk i s.shared (s.locals i)
  untouched : ∀ i, (s.locals i).room.boot ≠ .ready → Untouched (s.locals i)

theorem soloRoom [DecidableEq ι] {G : Guard ι} (hmode : cfg.mode = .singleWriter)
    (hG : ∀ {i st n a}, G i st n a → KeepsEpoch cfg i st n a) {s : FleetState ι}
    (h : FleetReach cfg G s) : SoloRoom cfg s := by
  have hsync := synced h
  have hepochs := epochs hmode hG h
  exact ⟨hsync.1, hsync.2, hepochs.1.1, hepochs.1.2, hepochs.2, fun i => untouched h i⟩

theorem solo [DecidableEq ι] {G : Guard ι} (hmode : cfg.mode = .singleWriter)
    (hG : ∀ {i st n a}, G i st n a → KeepsEpoch cfg i st n a) {s : FleetState ι}
    (h : FleetReach cfg G s) (i : ι) : Solo i s.shared (s.locals i) := by
  suffices hall : s.All (fun _ => True) Solo from hall.2 i
  refine FleetReach.invariant (soloRoom hmode hG) trivial (fun _ => .of_waiting rfl) ?_ ?_ h
  · rintro s i a st' n' hroom ⟨-, hall⟩ - hs
    refine ⟨trivial, ?_⟩
    cases hs with
    | room hs =>
        cases hs with
        | load hboot =>
            exact .of_waiting (hroom.untouched i (by simp [hboot])).phase
        | _ => exact (hall i).keep (List.append_nil _).symm (List.append_nil _).symm rfl rfl
    | lease => exact (hall i).keep (List.append_nil _).symm (List.append_nil _).symm rfl rfl
    | loop hs =>
        obtain ⟨chain, hcommit⟩ := hs.commit
        have hversions : st'.versions = s.shared.versions := by cases hs <;> rfl
        have hchain : n'.commit.chain = (s.locals i).commit.chain ++ chain := by rw [hcommit]
        refine (hall i).keep (hversions.trans (List.append_nil _).symm) hchain ?_ ?_ <;>
          rw [hcommit]
    | commit hs => exact (hall i).of_commit hmode hroom.linear (hroom.sync i) (hroom.epochs i) hs
    | refresh hs =>
        have hcommit := hs.commit hmode (hroom.epochs i)
        have hchain : n'.commit.chain = (s.locals i).commit.chain ++ [] := by
          rw [hcommit, List.append_nil]
        refine (hall i).keep (List.append_nil _).symm hchain ?_ ?_ <;> rw [hcommit]
  · rintro s i a st' n' - ⟨-, hall⟩ - hs j -
    obtain ⟨versions, hversions⟩ := hs.versions_append
    exact (hall j).keep hversions (List.append_nil _).symm rfl rfl

/-! ## An instance that was overtaken -/

/-- The version after the one that the instance holds is not its own. -/
structure Overtaken (i : ι) (st : Store ι) (n : Instance) : Prop where
  ready : n.room.boot = .ready
  next : ∃ v, st.versions[n.commit.cachedTag]? = some v ∧ v.author ≠ i

theorem Overtaken.append (h : Overtaken i st n) {versions : List (Version ι)}
    (hversions : st'.versions = st.versions ++ versions) : Overtaken i st' n := by
  obtain ⟨v, hv, hauthor⟩ := h.next
  refine ⟨h.ready, v, ?_, hauthor⟩
  rw [hversions, List.getElem?_append_left (List.getElem?_eq_some_iff.1 hv).1, hv]

/-- Its PUTs fail, and what it reads back is not its own. -/
theorem Overtaken.of_commit [DecidableEq ι] {a : CommitAct} (hmode : cfg.mode = .singleWriter)
    (h : Overtaken i st n) (hlinear : Linear cfg st.versions) (hl : LeasesOk st.leases)
    (hv : VersionsOk st.leases st.versions) (hi : EpochsOk i st n) (hsync : Synced cfg i st n)
    (hsolo : Solo i st n) (hs : CommitStep cfg i st n a st' n') :
    st' = st ∧ n'.commit.cachedTag = n.commit.cachedTag ∧
      n'.commit.resolved = n.commit.resolved := by
  obtain ⟨v, hnext, hauthor⟩ := h.next
  cases hs with
  | put outcome ifMatch next u us reply hissued hchain hmatch =>
      have htag : n.commit.cachedTag = st.tip := (hsolo.issued _ _ hissued).symm.trans hmatch
      exact absurd (List.getElem?_eq_some_iff.1 hnext).1 (by simp [htag])
  | answer next tag u us hreplied =>
      obtain ⟨-, w, hw, hown, -⟩ := hsolo.replied next tag hreplied
      exact absurd hown (Option.some.inj (hnext.symm.trans hw) ▸ hauthor)
  | adopt tag next u us hfound hchain htag hown =>
      obtain ⟨-, w, hw, hwi⟩ := hsolo.adopted hlinear hl hv hi hsync hfound htag hown
      exact absurd hwi (Option.some.inj (hnext.symm.trans hw) ▸ hauthor)
  | reloaded tag hreloaded => exact absurd hreloaded (hi.phase.single.2 tag)
  | giveUp tag next u us _ _ hopt => cases hmode.symm.trans hopt
  | answerFailed next u => simp
  | fence tag next u => simp
  | refuse notWriter u => simp
  | _ => exact ⟨rfl, rfl, rfl⟩

theorem Overtaken.of_step [DecidableEq ι] {s : FleetState ι} {a : Act}
    (hmode : cfg.mode = .singleWriter) (hroom : SoloRoom cfg s)
    (hsolo : Solo i s.shared (s.locals i)) (h : Overtaken i s.shared (s.locals i))
    (hs : Step cfg i s.shared (s.locals i) a st' n') :
    Overtaken i st' n' ∧ n'.commit.resolved = (s.locals i).commit.resolved ∧
      st'.authored i = s.shared.authored i := by
  suffices hkept : st'.versions = s.shared.versions ∧
      n'.commit.cachedTag = (s.locals i).commit.cachedTag ∧
        n'.commit.resolved = (s.locals i).commit.resolved by
    obtain ⟨hversions, htag, hresolved⟩ := hkept
    refine ⟨⟨hs.ready h.ready, ?_⟩, hresolved, Store.authored_of_eq hversions⟩
    rw [hversions, htag]
    exact h.next
  cases hs with
  | room hs =>
      cases hs with
      | load hboot => cases hboot.symm.trans h.ready
      | _ => exact ⟨rfl, rfl, rfl⟩
  | lease => exact ⟨rfl, rfl, rfl⟩
  | loop hs =>
      obtain ⟨chain, hcommit⟩ := hs.commit
      rw [hcommit]
      exact ⟨by cases hs <;> rfl, rfl, rfl⟩
  | commit hs =>
      obtain ⟨rfl, hkept⟩ := h.of_commit hmode hroom.linear hroom.leases hroom.versions
        (hroom.epochs i) (hroom.sync i) hsolo hs
      exact ⟨rfl, hkept⟩
  | refresh hs =>
      rw [hs.commit hmode (hroom.epochs i)]
      exact ⟨rfl, rfl, rfl⟩

/-- Once the version after the one that a single writer holds is another's, it adds no version and
none of its commits returns, whatever it and the others do from then on. -/
theorem overtaken_commits_nothing [DecidableEq ι] (hmode : cfg.mode = .singleWriter)
    {s s' : FleetState ι} (h : FleetReach cfg (KeepsEpoch cfg) s)
    (hover : Overtaken i s.shared (s.locals i))
    (hlater : ((fleetMachine cfg).startingAt s).Reach (Parties.guard (KeepsEpoch cfg)) s') :
    s'.shared.authored i = s.shared.authored i ∧
      (s'.locals i).commit.resolved = (s.locals i).commit.resolved := by
  suffices hkept : Overtaken i s'.shared (s'.locals i) ∧
      (s'.locals i).commit.resolved = (s.locals i).commit.resolved ∧
        s'.shared.authored i = s.shared.authored i from ⟨hkept.2.2, hkept.2.1⟩
  induction hlater with
  | init => exact ⟨hover, rfl, rfl⟩
  | step hr hg hs ih =>
      rename_i s₁ s₂ e
      have hreach := h.startingAt hr
      obtain ⟨⟨st₂, n₂⟩, hact, rfl⟩ := Option.map_eq_some_iff.1 hs
      have hstep := Step.of_eq hact
      obtain ⟨hover₁, hresolved, hauthored⟩ := ih
      -- its own steps keep the cached tag, and those of others only append versions
      by_cases hi : e.1 = i
      · subst hi
        obtain ⟨hover₂, hresolved₂, hauthored₂⟩ := hover₁.of_step hmode
          (soloRoom hmode (fun hg => hg) hreach) (solo hmode (fun hg => hg) hreach _) hstep
        simp only [Function.update_self]
        exact ⟨hover₂, hresolved₂.trans hresolved, hauthored₂.trans hauthored⟩
      · have hne : i ≠ e.1 := fun heq => hi heq.symm
        obtain ⟨versions, hversions⟩ := hstep.versions_append
        simp only [Function.update_of_ne hne]
        exact ⟨hover₁.append hversions, hresolved, (hstep.authored_of_ne hi).trans hauthored⟩

/-- The first writer still believes that it holds the lease. -/
theorem overtaken_commits_nothing_stale :
    ∃ s s' : FleetState Bool, (s.locals true).lease.held ∧ (s.locals true).lease.fenced = false ∧
      (s'.locals true).lease.fenced ∧ s'.shared.authored true = s.shared.authored true ∧
        (s'.locals true).commit.resolved = (s.locals true).commit.resolved := by
  let cfg := twoInstances .singleWriter
  let guard := fun (s : FleetState Bool) e => decide (Parties.guard (KeepsEpoch cfg) s e)
  let events := bootEvents true 0 ++ leaseEvents true 0 ++ [(true, .commit (.setMeta "k" "v"))]
    ++ issueEvents true ++ [(true, .commit (.put .ok)), (true, .commit .answer)]
    ++ bootEvents false 0 ++ leaseEvents false 20 ++ [(false, .commit (.setMeta "k" "w"))]
    ++ issueEvents false ++ [(false, .commit (.put .ok))]
  let later := [(true, .commit (.setMeta "k" "x"))] ++ issueEvents true
    ++ [(true, .commit (.put .conflict)), (true, .commit .answer), (true, .commit (.readBack true)),
      (true, .commit .judge)]
  have hrun : ((fleetMachine cfg).runWith guard (fleetMachine cfg).init events).map (fun s =>
      ((s.locals true).lease.held, (s.locals true).lease.fenced,
        decide ((s.locals true).room.boot = .ready),
        s.shared.versions[(s.locals true).commit.cachedTag]?.map (·.author),
        ((fleetMachine cfg).runWith guard s later).map (·.locals true |>.lease.fenced))) =
          some (true, false, true, some false, some true) := by
    decide +kernel
  obtain ⟨s, hs, hstate⟩ := Option.map_eq_some_iff.1 hrun
  obtain ⟨hheld, hfenced, hready, hauthor, hlater⟩ := by simpa only [Prod.mk.injEq] using hstate
  obtain ⟨s', hs', hfenced'⟩ := Option.map_eq_some_iff.1 hlater
  obtain ⟨v, hv, hfalse⟩ := Option.map_eq_some_iff.1 hauthor
  have hover : Overtaken true s.shared (s.locals true) :=
    ⟨of_decide_eq_true hready, v, hv, by simp [hfalse]⟩
  have hreach : FleetReach cfg (KeepsEpoch cfg) s :=
    .of_runWith (fun _ _ hg => of_decide_eq_true hg) .init hs
  have hmore : ((fleetMachine cfg).startingAt s).Reach (Parties.guard (KeepsEpoch cfg)) s' :=
    .later_of_runWith (fun _ _ hg => of_decide_eq_true hg) hs'
  exact ⟨s, s', hheld, hfenced, hfenced', overtaken_commits_nothing rfl hreach hover hmore⟩

end Fleet
end ObjectStorage
end Reflectdb
