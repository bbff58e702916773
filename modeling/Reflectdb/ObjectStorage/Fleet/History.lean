import Reflectdb.ObjectStorage.Fleet.Steps

/-!
# History — the versions of the manifest are a line of commits

A commit matches the tag of the manifest that it was built on.  Whatever is lost, repeated or
delayed on the way, each version is then one commit of one instance, made from the version before
it; no commit is layered on a manifest that its author had not read.
-/

namespace Reflectdb
namespace ObjectStorage
namespace Fleet

open Core Client Lib

variable {ι : Type} {cfg : Config ι} {i j : ι} {st st' : Store ι} {n n' : Instance}

/-! ## What an instance knows of the manifest -/

/-- `next` is the commit `u` of `i`, built on the manifest `base`. -/
def BuiltOn (cfg : Config ι) (i : ι) (u : Update) (base next : ManifestRecord) : Prop :=
  ∃ epoch, next = u.mutate (buildNext cfg.mode epoch (cfg.writerId i) base)

theorem BuiltOn.commitSeq {u : Update} {base next : ManifestRecord}
    (h : BuiltOn cfg i u base next) : next.commitSeq = base.commitSeq + 1 := by
  obtain ⟨epoch, rfl⟩ := h
  simp [buildNext]

/-- What a request in flight says of the versions. -/
def PhaseSynced (cfg : Config ι) (i : ι) (versions : List (Version ι)) (chain : List Update) :
    CommitPhase → Prop
  | .issued ifMatch next => ifMatch ≤ versions.length ∧
      ∃ u, chain.head? = some u ∧ BuiltOn cfg i u (manifestAt versions ifMatch) next
  | .replied next (.ok tag) => tag ≤ versions.length ∧ manifestAt versions tag = next
  | .found _ (some tag) => tag ≤ versions.length
  | .reloaded tag => tag ≤ versions.length
  | _ => True

/-- A cached manifest is the version of its tag, and so is each manifest that a request has read. -/
structure Synced (cfg : Config ι) (i : ι) (st : Store ι) (n : Instance) : Prop where
  cachedTag : n.commit.cachedTag ≤ st.tip
  cached : n.commit.cached = manifestAt st.versions n.commit.cachedTag
  phase : PhaseSynced cfg i st.versions n.commit.chain n.commit.phase
  refreshes : ∀ tag, .got tag ∈ n.room.refreshes → tag ≤ st.tip

theorem PhaseSynced.append {versions : List (Version ι)} {chain : List Update}
    {phase : CommitPhase} (h : PhaseSynced cfg i versions chain phase) (more : List (Version ι)) :
    PhaseSynced cfg i (versions ++ more) chain phase := by
  have hlen : ∀ {tag : Nat}, tag ≤ versions.length → tag ≤ (versions ++ more).length := by
    intro tag htag
    rw [List.length_append]
    omega
  cases phase with
  | issued ifMatch next =>
      obtain ⟨htag, u, hchain, hbuilt⟩ := h
      refine ⟨hlen htag, u, hchain, ?_⟩
      rwa [manifestAt, tagged_append htag]
  | replied next reply =>
      cases reply with
      | ok tag =>
          refine ⟨hlen h.1, ?_⟩
          rw [manifestAt, tagged_append h.1]
          exact h.2
      | conflict => trivial
      | failed => trivial
  | found next tag =>
      cases tag with
      | none => trivial
      | some tag => exact hlen h
  | reloaded tag => exact hlen h
  | _ => trivial

theorem PhaseSynced.push {versions : List (Version ι)} {chain : List Update} {phase : CommitPhase}
    (h : PhaseSynced cfg i versions chain phase) (u : Update) :
    PhaseSynced cfg i versions (chain ++ [u]) phase := by
  cases phase with
  | issued ifMatch next =>
      obtain ⟨htag, v, hchain, hbuilt⟩ := h
      refine ⟨htag, v, ?_, hbuilt⟩
      rw [List.head?_append, hchain]
      rfl
  | replied next reply =>
      cases reply with
      | ok tag => exact h
      | _ => trivial
  | found next tag =>
      cases tag with
      | none => trivial
      | some tag => exact h
  | reloaded tag => exact h
  | _ => trivial

/-- Later versions take nothing back. -/
theorem Synced.append (h : Synced cfg i st n) {more : List (Version ι)}
    (hversions : st'.versions = st.versions ++ more) : Synced cfg i st' n := by
  have hlen : st.tip ≤ st'.tip := by
    rw [Store.tip, Store.tip, hversions, List.length_append]
    omega
  refine ⟨h.cachedTag.trans hlen, ?_, ?_, fun tag htag => (h.refreshes tag htag).trans hlen⟩
  · rw [hversions, manifestAt, tagged_append h.cachedTag]
    exact h.cached
  · rw [hversions]
    exact h.phase.append more

/-- A step that leaves the commit and the refreshes alone. -/
theorem Synced.keep (h : Synced cfg i st n) (hversions : st'.versions = st.versions)
    (hcommit : n'.commit = n.commit) (hrefreshes : n'.room.refreshes = n.room.refreshes) :
    Synced cfg i st' n' := by
  refine ⟨?_, ?_, ?_, ?_⟩
  · rw [hcommit, Store.tip, hversions]
    exact h.cachedTag
  · rw [hcommit, hversions]
    exact h.cached
  · rw [hcommit, hversions]
    exact h.phase
  · rw [hrefreshes, Store.tip, hversions]
    exact h.refreshes

/-- A new phase, and a chain that may have grown. -/
theorem Synced.withPhase (h : Synced cfg i st n) {phase : CommitPhase}
    (hphase : PhaseSynced cfg i st.versions n.commit.chain phase) :
    Synced cfg i st (n.withPhase phase) :=
  ⟨h.cachedTag, h.cached, hphase, h.refreshes⟩

theorem Synced.reject (h : Synced cfg i st n) (u : Update) (notWriter : Bool) :
    Synced cfg i st (n.reject u notWriter) := by
  refine ⟨?_, ?_, ?_, ?_⟩
  · simpa using h.cachedTag
  · simpa using h.cached
  · simp [PhaseSynced]
  · simpa using h.refreshes

theorem Synced.enqueue (h : Synced cfg i st n) (u : Update) : Synced cfg i st (n.enqueue u) :=
  ⟨h.cachedTag, h.cached, h.phase.push u, h.refreshes⟩

@[simp] theorem Instance.resolve_refreshes (n : Instance) (u : Update)
    (next cached : ManifestRecord) (tag : Nat) :
    (n.resolve u next cached tag).room.refreshes = n.room.refreshes := by
  cases u <;> rfl

theorem Synced.resolve (h : Synced cfg i st n) (u : Update) (next : ManifestRecord)
    {cached : ManifestRecord} {tag : Nat} (htag : tag ≤ st.tip)
    (hcached : cached = manifestAt st.versions tag) :
    Synced cfg i st (n.resolve u next cached tag) := by
  refine ⟨?_, ?_, ?_, ?_⟩
  · simpa using htag
  · simpa using hcached
  · simp [PhaseSynced]
  · simpa using h.refreshes

theorem Synced.of_room {a : RoomAct} (h : Synced cfg i st n) (hs : RoomStep cfg st n a st' n') :
    Synced cfg i st' n' := by
  cases hs with
  | load => exact ⟨le_rfl, rfl, h.phase, h.refreshes⟩
  | _ => exact h.keep rfl rfl rfl

theorem Synced.of_loop {a : LoopAct} (h : Synced cfg i st n) (hs : LoopStep cfg i st n a st' n') :
    Synced cfg i st' n' := by
  cases hs with
  | putSegment ref batch => exact (h.enqueue (.append ref batch)).keep rfl rfl rfl
  | putSnapshot now key record log => exact (h.enqueue _).keep rfl rfl rfl
  | collect now => exact h.enqueue (.collect now)
  | delete done keys now => exact (h.enqueue (.collect now)).keep rfl rfl rfl
  | _ => exact h.keep rfl rfl rfl

/-- A step leaves the versions as they are, or adds the commit that it puts. -/
theorem Synced.of_commit {a : CommitAct} (h : Synced cfg i st n)
    (hs : CommitStep cfg i st n a st' n') : Synced cfg i st' n' := by
  have hphase := h.phase
  cases hs with
  | setMeta key value => exact ⟨h.cachedTag, h.cached, h.phase.push _, h.refreshes⟩
  | startOptimistic => exact ⟨h.cachedTag, h.cached, trivial, h.refreshes⟩
  | start => exact h.withPhase trivial
  | grant => exact h.withPhase trivial
  | issue u us _ hchain =>
      -- `buildNext` takes the cached manifest, which is the version of the cached tag
      refine h.withPhase ⟨h.cachedTag, u, by rw [hchain]; rfl, n.lease.epoch, ?_⟩
      rw [Instance.attempts, h.cached]
  | put outcome ifMatch next u us reply hissued hchain hmatch hreply =>
      have hgrown : Synced cfg i (st.publish i next u) n := h.append rfl
      refine hgrown.withPhase ?_
      cases reply with
      | ok tag =>
          have htag := hreply tag rfl
          subst htag
          refine ⟨by simp [Store.publish, Store.tip], ?_⟩
          simp only [Store.publish, Store.tip, manifestAt, tagged_concat]
      | conflict => trivial
      | failed => trivial
  | putRefused outcome ifMatch next u us reply hissued hchain hreply =>
      refine h.withPhase ?_
      cases reply with
      | ok tag => exact absurd rfl (hreply tag)
      | conflict => trivial
      | failed => trivial
  | answer next tag u us hreplied =>
      rw [hreplied] at hphase
      have hkept : Synced cfg i st (n.committed cfg) := by
        unfold Instance.committed
        split
        · exact h.keep rfl rfl rfl
        · exact h
      exact hkept.resolve u next hphase.1 hphase.2.symm
  | answerConflict next => exact h.withPhase trivial
  | answerFailed next u => exact h.reject u false
  | readBack ok next =>
      refine h.withPhase ?_
      cases ok
      · trivial
      · exact le_refl st.tip
  | adopt tag next u us hfound =>
      rw [hfound] at hphase
      have hkept : Synced cfg i st n.noteWrite := h.keep rfl rfl rfl
      exact hkept.resolve u next hphase rfl
  | fence tag next u us =>
      have hkept : Synced cfg i st { n with lease := n.lease.fence } := h.keep rfl rfl rfl
      exact hkept.reject u true
  | giveUp tag next u => exact h.reject u false
  | retry => exact h.withPhase trivial
  | reload => exact h.withPhase (le_refl st.tip)
  | reloaded tag hreloaded =>
      rw [hreloaded] at hphase
      exact ⟨hphase, rfl, trivial, h.refreshes⟩
  | refuse notWriter u => exact h.reject u notWriter

theorem Synced.of_refresh {a : RefreshAct} (h : Synced cfg i st n)
    (hs : RefreshStep cfg i st n a n') : Synced cfg i st n' := by
  have hset : ∀ {call tag : Nat} {r : Refresh}, (∀ tag, r ≠ .got tag) →
      .got tag ∈ n.room.refreshes.set call r → tag ≤ st.tip := by
    intro call tag r hr hmem
    rcases List.mem_or_eq_of_mem_set hmem with hmem | heq
    · exact h.refreshes tag hmem
    · exact absurd heq.symm (hr tag)
  have hdrop : ∀ {call tag : Nat}, .got tag ∈ n.room.refreshes.eraseIdx call → tag ≤ st.tip :=
    fun hmem => h.refreshes _ (List.mem_of_mem_eraseIdx hmem)
  cases hs with
  | get =>
      refine ⟨h.cachedTag, h.cached, h.phase, fun tag htag => ?_⟩
      rcases List.mem_append.1 htag with hold | hnew
      · exact h.refreshes tag hold
      · cases List.mem_singleton.1 hnew
        exact le_rfl
  | answer call tag next hcall hnext =>
      have hnot : ∀ tag, next ≠ .got tag := by
        intro tag' heq
        rw [heq] at hnext
        split at hnext <;> cases hnext
      have hkept : ∀ tag', .got tag' ∈ ((n.adopt st tag).withRefresh call next).room.refreshes →
          tag' ≤ st.tip := by
        intro tag' htag'
        simp only [Instance.withRefresh, Instance.adopt_room] at htag'
        exact hset hnot htag'
      rcases Instance.adopt_commit st n tag with heq | ⟨-, heq⟩
      · refine ⟨?_, ?_, ?_, hkept⟩ <;> simp only [Instance.withRefresh, heq]
        · exact h.cachedTag
        · exact h.cached
        · exact h.phase
      · have htag := h.refreshes tag (List.mem_of_getElem? hcall)
        refine ⟨?_, ?_, ?_, hkept⟩ <;> simp only [Instance.withRefresh, heq]
        · exact htag
        · exact h.phase
  | load => exact ⟨h.cachedTag, h.cached, h.phase, fun _ htag => hset (by simp) htag⟩
  | pass => exact ⟨h.cachedTag, h.cached, h.phase, fun _ htag => hset (by simp) htag⟩
  | segment => exact ⟨h.cachedTag, h.cached, h.phase, fun _ htag => hset (by simp) htag⟩
  | loadThrew => exact ⟨h.cachedTag, h.cached, h.phase, fun _ htag => hdrop htag⟩
  | segmentThrew => exact ⟨h.cachedTag, h.cached, h.phase, fun _ htag => hdrop htag⟩
  | doneMoved => exact ⟨h.cachedTag, h.cached, h.phase, fun _ htag => hdrop htag⟩
  | done => exact ⟨h.cachedTag, h.cached, h.phase, fun _ htag => hdrop htag⟩
  | throw => exact ⟨h.cachedTag, h.cached, h.phase, fun _ htag => hdrop htag⟩

/-! ## The versions -/

/-- A step leaves the versions as they are, or puts the commit of its chain on top of the version
that the commit was built on. -/
theorem Step.versions {a : Act} (hs : Step cfg i st n a st' n') : st'.versions = st.versions ∨
    ∃ next u us, n.commit.phase = .issued st.tip next ∧ n.commit.chain = u :: us ∧
      st'.versions = (st.publish i next u).versions := by
  cases hs with
  | room h => cases h <;> exact .inl rfl
  | lease => exact .inl rfl
  | loop h => cases h <;> exact .inl rfl
  | commit h =>
      cases h with
      | put outcome ifMatch next u us reply hissued hchain hmatch =>
          subst hmatch
          exact .inr ⟨next, u, us, hissued, hchain, rfl⟩
      | _ => exact .inl rfl
  | refresh => exact .inl rfl

theorem Step.versions_append {a : Act} (hs : Step cfg i st n a st' n') :
    ∃ more, st'.versions = st.versions ++ more := by
  rcases hs.versions with heq | ⟨next, u, us, -, -, heq⟩
  · exact ⟨[], by rw [heq, List.append_nil]⟩
  · exact ⟨_, heq⟩

theorem Step.leases_append {a : Act} (hs : Step cfg i st n a st' n') :
    ∃ more, st'.leases = st.leases ++ more := by
  have hsame : ∃ more, st.leases = st.leases ++ more := ⟨[], (List.append_nil _).symm⟩
  cases hs with
  | room h => cases h <;> exact hsame
  | lease _ h =>
      cases h with
      | put call outcome kind ifMatch next => exact ⟨_, rfl⟩
      | _ => exact hsame
  | loop h => cases h <;> exact hsame
  | commit h => cases h <;> exact hsame
  | refresh => exact hsame

/-- A version is a commit of its author, made from the version before it. -/
def Links (cfg : Config ι) (base : ManifestRecord × List Entry) (v : Version ι) : Prop :=
  BuiltOn cfg v.author v.update base.1 v.record ∧ v.log = v.update.extend base.2

/-- The versions are a line of commits. -/
def Linear (cfg : Config ι) (versions : List (Version ι)) : Prop :=
  Chained (emptyManifest, []) (fun v => (v.record, v.log)) (Links cfg) versions

theorem tagged_record_log (versions : List (Version ι)) (k : Nat) :
    tagged (emptyManifest, []) (fun v => (v.record, v.log)) versions k =
      (manifestAt versions k, logAt versions k) := by
  cases k with
  | zero => rfl
  | succ k => cases h : versions[k]? <;> simp [tagged, h]

theorem Synced.of_step {a : Act} (h : Synced cfg i st n) (hs : Step cfg i st n a st' n') :
    Synced cfg i st' n' := by
  cases hs with
  | room hs => exact h.of_room hs
  | lease _ hs => exact h.keep rfl rfl rfl
  | loop hs => exact h.of_loop hs
  | commit hs => exact h.of_commit hs
  | refresh hs => exact h.of_refresh hs

theorem Linear.of_step {a : Act} (h : Linear cfg st.versions) (hsync : Synced cfg i st n)
    (hs : Step cfg i st n a st' n') : Linear cfg st'.versions := by
  rcases hs.versions with heq | ⟨next, u, us, hissued, hchain, heq⟩
  · rw [heq]
    exact h
  · have hphase := hsync.phase
    rw [hissued] at hphase
    obtain ⟨-, v, hhead, hbuilt⟩ := hphase
    have huv : u = v := by simpa [hchain] using hhead
    subst huv
    rw [heq]
    refine h.concat ?_
    rw [tagged_record_log]
    exact ⟨hbuilt, rfl⟩

/-- In every state of every run. -/
theorem synced [DecidableEq ι] {G : Guard ι} {s : FleetState ι} (h : FleetReach cfg G s) :
    s.All (fun st => Linear cfg st.versions) (Synced cfg) := by
  refine FleetReach.invariant (K := fun _ => True) (fun _ => trivial) Chained.nil ?_ ?_ ?_ h
  · exact fun _ => ⟨le_rfl, rfl, trivial, fun _ htag => by cases htag⟩
  · rintro s i a st' n' - ⟨hlinear, hsync⟩ - hs
    exact ⟨hlinear.of_step (hsync i) hs, (hsync i).of_step hs⟩
  · rintro s i a st' n' - ⟨-, hsync⟩ - hs j -
    obtain ⟨more, hmore⟩ := hs.versions_append
    exact (hsync j).append hmore

theorem Linear.built {versions : List (Version ι)} (h : Linear cfg versions) {k : Nat}
    {v : Version ι} (hv : versions[k]? = some v) :
    BuiltOn cfg v.author v.update (manifestAt versions k) v.record ∧
      v.log = v.update.extend (logAt versions k) := by
  have hlink := h k v hv
  rw [tagged_record_log] at hlink
  exact hlink

theorem Linear.commitSeq (h : Linear cfg st.versions) {k : Nat} (hk : k ≤ st.tip) :
    (manifestAt st.versions k).commitSeq = k := by
  induction k with
  | zero => rfl
  | succ k ih =>
      have hv := List.getElem?_eq_getElem (Nat.lt_of_succ_le hk)
      rw [manifestAt, tagged_of_getElem? hv, (h.built hv).1.commitSeq, ih (Nat.le_of_succ_le hk)]

/-- Each version of the manifest is the update of one instance, made on the version before it, and
what an instance takes the manifest to be is one of the versions. -/
theorem manifest_history [DecidableEq ι] {s : FleetState ι} (h : (fleetMachine cfg).Reachable s) :
    (∀ k v, s.shared.versions[k]? = some v →
      v.record.commitSeq = k + 1 ∧
        ∃ epoch, v.record = v.update.mutate
          (buildNext cfg.mode epoch (cfg.writerId v.author) (manifestAt s.shared.versions k))) ∧
      ∀ i, (s.locals i).commit.cached =
        manifestAt s.shared.versions (s.locals i).commit.cachedTag := by
  have hreach : FleetReach cfg (fun _ _ _ _ => True) s := h
  obtain ⟨hlinear, hsync⟩ := synced hreach
  refine ⟨fun k v hv => ?_, fun i => (hsync i).cached⟩
  have hbuilt := (hlinear.built hv).1
  have hk : k < s.shared.tip := (List.getElem?_eq_some_iff.1 hv).1
  refine ⟨?_, hbuilt⟩
  rw [hbuilt.commitSeq, hlinear.commitSeq (Nat.le_of_lt hk)]

/-! ### Two instances that commit at once -/

/-- A run whose steps all meet the guard. -/
def guardedRun [DecidableEq ι] (cfg : Config ι) (G : Guard ι) [∀ i st n a, Decidable (G i st n a)]
    (events : List (ι × Act)) : Option (FleetState ι) :=
  (fleetMachine cfg).runWith (fun s e => decide (Parties.guard G s e)) (fleetMachine cfg).init
    events

/-- What is seen of the end of such a run is seen of a state that is reached. -/
theorem FleetReach.of_guardedRun [DecidableEq ι] {G : Guard ι}
    [∀ i st n a, Decidable (G i st n a)] {events : List (ι × Act)} {β : Type}
    {f : FleetState ι → β} {b : β} (h : (guardedRun cfg G events).map f = some b) :
    ∃ s, FleetReach cfg G s ∧ f s = b := by
  obtain ⟨s, hs, hb⟩ := Option.map_eq_some_iff.1 h
  exact ⟨s, .of_runWith (fun _ _ hg => of_decide_eq_true hg) .init hs, hb⟩

/-- Two instances with writer ids of their own. -/
def twoInstances (mode : ConcurrencyMode) : Config Bool where
  mode := mode
  leaseMode := .onWrite
  ttlMs := 10
  gcGraceMs := 5
  afterSegments := 2
  afterBytes := 1000
  maxBytes := 100
  memory := ⟨none, none, .reject⟩
  sizes := emptySizes
  lineBytes := fun _ => 1
  writerId := fun first => if first then ['a'] else ['b']

section Events

variable (i : ι)

/-- A boot of a room without a snapshot. -/
def bootEvents (segments : Nat) : List (ι × Act) :=
  [(i, .room .load), (i, .room (.loadSnapshot 0))]
    ++ List.replicate segments (i, .room (.applySegment 0))
    ++ [(i, .room .replayed), (i, .room .start)]

/-- A record is appended, and its segment uploaded. -/
def segmentEvents (record : WalRecord) : List (ι × Act) :=
  [(i, .room (.append record 0)), (i, .loop .ensure), (i, .loop .flush),
    (i, .loop (.putSegment .ok))]

end Events

/-- The second commit is rebuilt on the first. -/
theorem manifest_history_rebuilt :
    ∃ s : FleetState Bool,
      s.shared.versions.map (fun v => (v.author, v.record.walSegs.length)) =
        [(true, 1), (false, 2)] ∧
      (∀ k v, s.shared.versions[k]? = some v →
        v.record.commitSeq = k + 1 ∧
          ∃ epoch, v.record = v.update.mutate (buildNext .optimistic epoch
            ((twoInstances .optimistic).writerId v.author) (manifestAt s.shared.versions k))) ∧
      ∀ i, (s.locals i).commit.cached =
        manifestAt s.shared.versions (s.locals i).commit.cachedTag := by
  let events := bootEvents true 0 ++ bootEvents false 0
    ++ segmentEvents true (.reserve ["p"] 0) ++ segmentEvents false (.reserve ["q"] 0)
    ++ [(true, .commit .start), (false, .commit .start), (true, .commit .issue),
      (false, .commit .issue), (true, .commit (.put .ok)), (false, .commit (.put .conflict)),
      (true, .commit .answer), (false, .commit .answer), (false, .commit (.readBack true)),
      (false, .commit .judge), (false, .commit .reload), (false, .commit .reloaded),
      (false, .commit .issue), (false, .commit (.put .ok)), (false, .commit .answer)]
  have hrun : ((fleetMachine (twoInstances .optimistic)).run events).map (fun s =>
      s.shared.versions.map fun v => (v.author, v.record.walSegs.length)) =
        some [(true, 1), (false, 2)] := by
    decide +kernel
  obtain ⟨s, hs, hversions⟩ := Option.map_eq_some_iff.1 hrun
  exact ⟨s, hversions, manifest_history (.of_run hs)⟩

end Fleet
end ObjectStorage
end Reflectdb
