import Reflectdb.ObjectStorage.Fleet.Flush

/-!
# Keys — the names of segments and snapshots

A PUT of a segment or of a snapshot has no condition, so its name must be new.  In single-writer
mode the name carries the fencing epoch and a counter of the process: an epoch belongs to one
process, and the process never goes back to an earlier one.  In optimistic mode it carries the
writer id.
-/

namespace Reflectdb
namespace ObjectStorage
namespace Fleet

open Core Client Lib

variable {ι : Type} {cfg : Config ι} {i j : ι} {st st' : Store ι} {n n' : Instance}

/-! ## Optimistic rooms have one epoch -/

/-- Nothing of an instance has an epoch. -/
structure Flat (n : Instance) : Prop where
  cached : n.commit.cached.epoch = 0
  next : ∀ m ∈ n.commit.phase.next, m.epoch = 0
  lease : n.lease.epoch = 0
  held : n.lease.held = false
  calls : n.lease.calls = []

def FlatVersions (st : Store ι) : Prop :=
  ∀ v ∈ st.versions, v.record.epoch = 0

theorem FlatVersions.manifestAt (h : FlatVersions st) (k : Nat) :
    (manifestAt st.versions k).epoch = 0 :=
  tagged_induction (P := fun m : ManifestRecord => m.epoch = 0) rfl h k

namespace Flat

theorem inherit (h : Flat n) {m : ManifestRecord} (hm : m.epoch = 0) :
    (n.lease.inherit m).epoch = 0 := by
  simp [LeaseSide.inherit, h.lease, hm]

theorem of_room {a : RoomAct} (hv : FlatVersions st) (h : Flat n)
    (hs : RoomStep cfg st n a st' n') : FlatVersions st' ∧ Flat n' := by
  cases hs with
  | load => exact ⟨hv, hv.manifestAt _, h.next, h.inherit (hv.manifestAt _), h.held, h.calls⟩
  | _ => exact ⟨hv, h.cached, h.next, h.lease, h.held, h.calls⟩

/-- No lease is asked for. -/
theorem of_lease {leases leases' : List (StoredLease ι)} {l' : LeaseSide} {a : LeaseAct}
    (hmode : cfg.mode = .optimistic) (h : Flat n)
    (hs : LeaseStep cfg i leases n.lease a leases' l') : Flat { n with lease := l' } := by
  have hnone : ∀ {call : Nat} {c : LeaseCall}, n.lease.calls[call]? ≠ some c := by
    simp [h.calls]
  cases hs with
  | get hsingle => cases hmode.symm.trans hsingle
  | renew now hheld => cases h.held.symm.trans hheld
  | release hheld => cases h.held.symm.trans hheld
  | lapse => exact ⟨h.cached, h.next, h.lease, rfl, h.calls⟩
  | blocked _ _ _ _ hcall => exact absurd hcall hnone
  | decide _ _ _ _ hcall => exact absurd hcall hnone
  | put _ _ _ _ _ _ hcall => exact absurd hcall hnone
  | refuse _ _ _ _ _ _ hcall => exact absurd hcall hnone
  | answer _ _ _ _ _ hcall => exact absurd hcall hnone

theorem reject (h : Flat n) (u : Update) (notWriter : Bool) : Flat (n.reject u notWriter) := by
  constructor <;> simp [h.cached, CommitPhase.next, h.lease, h.held, h.calls]

theorem resolve (h : Flat n) (u : Update) (next : ManifestRecord) {cached : ManifestRecord}
    (hcached : cached.epoch = 0) (tag : Nat) : Flat (n.resolve u next cached tag) := by
  constructor <;> simp [hcached, CommitPhase.next, h.lease, h.held, h.calls]

theorem withPhase (h : Flat n) {phase : CommitPhase} (hnext : ∀ m ∈ phase.next, m.epoch = 0) :
    Flat (n.withPhase phase) :=
  ⟨h.cached, hnext, h.lease, h.held, h.calls⟩

theorem of_commit {a : CommitAct} (hmode : cfg.mode = .optimistic) (hv : FlatVersions st)
    (h : Flat n) (hs : CommitStep cfg i st n a st' n') : FlatVersions st' ∧ Flat n' := by
  have hnext : ∀ {m : ManifestRecord}, n.commit.phase.next = some m → m.epoch = 0 :=
    fun hm => h.next _ hm
  have hlater : ∀ {m : ManifestRecord} {phase : CommitPhase}, n.commit.phase.next = some m →
      phase.next = some m → Flat (n.withPhase phase) := by
    intro m phase hm hphase
    refine h.withPhase ?_
    rw [hphase, ← hm]
    exact h.next
  have hplain : ∀ {phase : CommitPhase}, phase.next = none → Flat (n.withPhase phase) :=
    fun hphase => h.withPhase (by simp [hphase])
  cases hs with
  | setMeta => exact ⟨hv, h.cached, h.next, h.lease, h.held, h.calls⟩
  | startOptimistic => exact ⟨hv, h.cached, by simp [CommitPhase.next], h.lease, h.held, h.calls⟩
  | start => exact ⟨hv, hplain rfl⟩
  | grant => exact ⟨hv, hplain rfl⟩
  | issue u us =>
      -- an optimistic commit takes the epoch of what it builds on
      refine ⟨hv, h.withPhase ?_⟩
      rintro m ⟨⟩
      simp [Instance.attempts, buildNext, hmode, h.cached]
  | put outcome ifMatch next u us reply hissued =>
      have hm : n.commit.phase.next = some next := by rw [hissued]; rfl
      refine ⟨fun v hmem => ?_, hlater hm rfl⟩
      rcases List.mem_append.1 hmem with hold | hnew
      · exact hv v hold
      · rw [List.mem_singleton.1 hnew]
        exact hnext hm
  | putRefused outcome ifMatch next u us reply hissued =>
      exact ⟨hv, hlater (m := next) (by rw [hissued]; rfl) rfl⟩
  | answer next tag u us hreplied =>
      have hzero : next.epoch = 0 := hnext (by rw [hreplied]; rfl)
      have hkept : Flat (n.committed cfg) := by
        unfold Instance.committed
        split
        · exact ⟨h.cached, h.next, h.lease, h.held, h.calls⟩
        · exact h
      exact ⟨hv, hkept.resolve u next hzero tag⟩
  | answerConflict next u us hreplied =>
      exact ⟨hv, hlater (m := next) (by rw [hreplied]; rfl) rfl⟩
  | answerFailed next u => exact ⟨hv, h.reject u false⟩
  | readBack ok next hconflicted =>
      exact ⟨hv, hlater (m := next) (by rw [hconflicted]; rfl) rfl⟩
  | adopt tag next u =>
      have hkept : Flat n.noteWrite := ⟨h.cached, h.next, h.lease, h.held, h.calls⟩
      exact ⟨hv, hkept.resolve u next (hv.manifestAt tag) tag⟩
  | fence tag next u us _ _ hsingle => cases hmode.symm.trans hsingle
  | giveUp tag next u => exact ⟨hv, h.reject u false⟩
  | retry => exact ⟨hv, hplain rfl⟩
  | reload => exact ⟨hv, hplain rfl⟩
  | reloaded tag =>
      exact ⟨hv, hv.manifestAt _, by simp [CommitPhase.next], h.inherit (hv.manifestAt _), h.held,
        h.calls⟩
  | refuse notWriter u => exact ⟨hv, h.reject u notWriter⟩

theorem of_refresh {a : RefreshAct} (hv : FlatVersions st) (h : Flat n)
    (hs : RefreshStep cfg i st n a n') : Flat n' := by
  cases hs with
  | answer call tag =>
      rcases Instance.adopt_commit st n tag with heq | ⟨-, heq⟩ <;>
        constructor <;> simp [Instance.withRefresh, heq, h.cached, h.lease, h.held, h.calls,
          hv.manifestAt tag]
      · exact h.next
      · exact h.next
  | _ => exact ⟨h.cached, h.next, h.lease, h.held, h.calls⟩

end Flat

/-- In an optimistic room every epoch is 0. -/
theorem flat [DecidableEq ι] {G : Guard ι} (hmode : cfg.mode = .optimistic) {s : FleetState ι}
    (h : FleetReach cfg G s) : s.All FlatVersions fun _ _ n => Flat n := by
  refine FleetReach.invariant (K := fun _ => True) (fun _ => trivial) ?_ ?_ ?_ ?_ h
  · exact fun v hv => by cases hv
  · exact fun _ => ⟨rfl, by simp [Instance.start, CommitPhase.next], rfl, rfl, rfl⟩
  · rintro s i a st' n' - ⟨hv, hall⟩ - hs
    cases hs with
    | room hs => exact (hall i).of_room hv hs
    | lease _ hs => exact ⟨hv, (hall i).of_lease hmode hs⟩
    | loop hs =>
        have hi := hall i
        cases hs <;> exact ⟨hv, hi.cached, hi.next, hi.lease, hi.held, hi.calls⟩
    | commit hs => exact (hall i).of_commit hmode hv hs
    | refresh hs => exact ⟨hv, (hall i).of_refresh hv hs⟩
  · rintro s i a st' n' - ⟨-, hall⟩ - - j -
    exact hall j

/-! ## Names -/

theorem Step.epoch_le {a : Act} (hsafe : KeepsEpoch cfg i st n a) (hs : Step cfg i st n a st' n') :
    n.lease.epoch ≤ n'.lease.epoch ∧ (n.lease.acquired → n'.lease.acquired) := by
  cases hs with
  | room hs =>
      cases hs with
      | load => exact ⟨le_max_left _ _, id⟩
      | _ => exact ⟨le_rfl, id⟩
  | lease _ hs =>
      obtain ⟨hepoch, hacquired, -⟩ := hs.epoch_le hsafe
      exact ⟨hepoch, hacquired⟩
  | loop hs => cases hs <;> exact ⟨le_rfl, id⟩
  | commit hs =>
      cases hs with
      | answer next tag u us =>
          rw [Instance.resolve_lease, Instance.committed]
          split <;> exact ⟨le_rfl, id⟩
      | answerFailed next u => simp
      | adopt tag next u => simp [Instance.noteWrite]
      | fence tag next u => simp
      | giveUp tag next u => simp
      | reloaded tag => exact ⟨le_max_left _ _, id⟩
      | refuse notWriter u => simp
      | _ => exact ⟨le_rfl, id⟩
  | refresh hs => rw [hs.lease]; exact ⟨le_rfl, id⟩

/-- What an instance may put into a name is its own. -/
structure MayName (cfg : Config ι) (i : ι) (st : Store ι) (n : Instance) : Prop where
  owns : cfg.mode = .singleWriter → n.lease.acquired → Owns st.leases i n.lease.epoch
  held : n.lease.held → n.lease.acquired
  flat : cfg.mode = .optimistic → n.lease.epoch = 0

/-- Every name was chosen once, by an instance with the epoch or the writer id in it, and uploaded
at most once. -/
structure StoreKeys (cfg : Config ι) (st : Store ι) : Prop where
  nodup : (st.allocated.map (·.1)).Nodup
  token : ∀ key j, (key, j) ∈ st.allocated → ∃ epoch, key.token = nameToken cfg j epoch ∧
    (cfg.mode = .singleWriter → Owns st.leases j epoch)
  puts_nodup : (st.puts.map (·.1)).Nodup
  puts : ∀ p ∈ st.puts, p.1 ∈ st.allocated.map (·.1)
  objects : ∀ key body, st.objects key = some body → (key, body) ∈ st.puts

/-- The counters are ahead of every name that the instance chose; a loop that has begun a flush has
an epoch of its own; what is about to be uploaded was not. -/
structure InstKeys (cfg : Config ι) (i : ι) (st : Store ι) (n : Instance) : Prop where
  wal : ∀ token seq, (ObjectKey.wal token seq, i) ∈ st.allocated →
    ∃ epoch, n.loop.names.seqEpoch = some epoch ∧
      (token = nameToken cfg i epoch ∧ seq < n.loop.names.seq ∨
        cfg.mode = .singleWriter ∧ ∃ e < epoch, token = nameToken cfg i e)
  snap : ∀ token seq, (ObjectKey.snap token seq, i) ∈ st.allocated →
    seq < n.loop.names.snapshotSeq
  epoch : ∀ e, n.loop.names.seqEpoch = some e → e ≤ n.lease.epoch
  busy : n.loop.task ≠ .idle → cfg.mode = .optimistic ∨ n.lease.acquired
  uploads : ∀ key, n.loop.task.uploads = some key →
    (key, i) ∈ st.allocated ∧ key ∉ st.puts.map (·.1)

/-- How a step of `i` changes what the names of others depend on. -/
structure KeysGrow (i : ι) (st st' : Store ι) : Prop where
  allocated : st'.allocated = st.allocated ∨ ∃ key, st'.allocated = st.allocated ++ [(key, i)]
  puts : st'.puts = st.puts ∨
    ∃ key body, (key, i) ∈ st'.allocated ∧ st'.puts = st.puts ++ [(key, body)]

theorem KeysGrow.of_eq (hallocated : st'.allocated = st.allocated) (hputs : st'.puts = st.puts) :
    KeysGrow i st st' :=
  ⟨.inl hallocated, .inl hputs⟩

theorem nameToken_inj {e e' : Nat} (h : nameToken cfg i e = nameToken cfg j e') :
    (cfg.mode = .optimistic → cfg.writerId i = cfg.writerId j) ∧
      (cfg.mode = .singleWriter → e = e') := by
  constructor
  · intro hmode
    simpa [nameToken, hmode] using h
  · intro hmode
    exact epochToken_injective (by simpa [nameToken, hmode] using h)

theorem StoreKeys.eq_of_allocated (h : StoreKeys cfg st) {key : ObjectKey}
    (hi : (key, i) ∈ st.allocated) (hj : (key, j) ∈ st.allocated) : i = j :=
  congrArg Prod.snd (List.inj_on_of_nodup_map h.nodup hi hj rfl)

theorem StoreKeys.start : StoreKeys cfg .start where
  nodup := .nil
  token := fun _ _ hkey => by cases hkey
  puts_nodup := .nil
  puts := fun _ hp => by cases hp
  objects := fun _ _ hbody => by cases hbody

theorem InstKeys.start (i : ι) : InstKeys cfg i .start (.start cfg.memory) where
  wal := fun _ _ hkey => by cases hkey
  snap := fun _ _ hkey => by cases hkey
  epoch := fun _ he => by cases he
  busy := fun hbusy => absurd rfl hbusy
  uploads := fun _ hkey => by cases hkey

theorem StoreKeys.keep (h : StoreKeys cfg st) {leases : List (StoredLease ι)}
    (hleases : st'.leases = st.leases ++ leases) (hallocated : st'.allocated = st.allocated)
    (hputs : st'.puts = st.puts)
    (hobjects : ∀ key body, st'.objects key = some body → st.objects key = some body) :
    StoreKeys cfg st' := by
  refine ⟨?_, fun key j hkey => ?_, ?_, ?_, ?_⟩
  · rw [hallocated]
    exact h.nodup
  · rw [hallocated] at hkey
    obtain ⟨epoch, htoken, howns⟩ := h.token key j hkey
    rw [hleases]
    exact ⟨epoch, htoken, fun hmode => (howns hmode).append leases⟩
  · rw [hputs]
    exact h.puts_nodup
  · rw [hputs, hallocated]
    exact h.puts
  · rw [hputs]
    exact fun key body hbody => h.objects key body (hobjects key body hbody)

/-- A name with an epoch of the instance, or its writer id, is new if the instance did not choose it
before. -/
theorem StoreKeys.allocate (h : StoreKeys cfg st)
    (hl : cfg.mode = .singleWriter → LeasesOk st.leases)
    (hinj : cfg.mode = .optimistic → Function.Injective cfg.writerId) (key : ObjectKey)
    {epoch : Nat} (htoken : key.token = nameToken cfg i epoch)
    (howns : cfg.mode = .singleWriter → Owns st.leases i epoch)
    (hfresh : (key, i) ∉ st.allocated) :
    key ∉ st.allocated.map (·.1) ∧
      StoreKeys cfg { st with allocated := st.allocated ++ [(key, i)] } := by
  have hnew : key ∉ st.allocated.map (·.1) := by
    intro hmem
    obtain ⟨⟨key', j⟩, hkey, rfl⟩ := List.mem_map.1 hmem
    obtain ⟨e, htoken', howns'⟩ := h.token key' j hkey
    have hsame := nameToken_inj (htoken'.symm.trans htoken)
    have hj : j = i := by
      cases hmode : cfg.mode with
      | singleWriter =>
          have he := hsame.2 hmode
          subst he
          exact (hl hmode).owns_inj (howns' hmode) (howns hmode)
      | optimistic => exact hinj hmode (hsame.1 hmode)
    subst hj
    exact hfresh hkey
  refine ⟨hnew, ?_, fun key' j hkey => ?_, h.puts_nodup, fun p hp => ?_, h.objects⟩
  · rw [List.map_append]
    exact h.nodup.append (List.nodup_singleton _) (by simpa using hnew)
  · rcases List.mem_append.1 hkey with hold | hlast
    · exact h.token key' j hold
    · cases List.mem_singleton.1 hlast
      exact ⟨epoch, htoken, howns⟩
  · rw [List.map_append]
    exact List.mem_append_left _ (h.puts p hp)

theorem Store.upload_objects (key : ObjectKey) (body : ObjectBody) (other : ObjectKey) :
    (st.upload key body).objects other = if other = key then some body else st.objects other :=
  Function.update_apply ..

theorem StoreKeys.upload (h : StoreKeys cfg st) {key : ObjectKey} (hkey : (key, i) ∈ st.allocated)
    (hnew : key ∉ st.puts.map (·.1)) (body : ObjectBody) : StoreKeys cfg (st.upload key body) := by
  refine ⟨h.nodup, h.token, ?_, fun p hp => ?_, fun key' body' hbody => ?_⟩
  · simp only [Store.upload, List.map_append]
    exact h.puts_nodup.append (List.nodup_singleton _) (by simpa using hnew)
  · rcases List.mem_append.1 hp with hold | hlast
    · exact h.puts p hold
    · rw [List.mem_singleton.1 hlast]
      exact List.mem_map.2 ⟨_, hkey, rfl⟩
  · rw [Store.upload_objects] at hbody
    split at hbody
    · rename_i hsame
      cases hbody
      exact List.mem_append_right _ (by rw [hsame]; exact List.mem_cons_self)
    · exact List.mem_append_left _ (h.objects key' body' hbody)

/-- A deletion leaves the other objects as they were. -/
theorem Store.objects_of_remove {keys : List ObjectKey} {key : ObjectKey} {body : ObjectBody}
    (h : (st.remove keys).objects key = some body) : st.objects key = some body := by
  simp only [Store.remove] at h
  split at h
  · cases h
  · exact h

/-- The steps of `i` do not touch the names of another instance. -/
theorem InstKeys.others {m : Instance} (h : InstKeys cfg j st m) (hst' : StoreKeys cfg st')
    (hgrow : KeysGrow i st st') (hj : j ≠ i) : InstKeys cfg j st' m := by
  have hold : ∀ key, (key, j) ∈ st'.allocated → (key, j) ∈ st.allocated := by
    intro key hkey
    rcases hgrow.allocated with heq | ⟨key', heq⟩ <;> rw [heq] at hkey
    · exact hkey
    · rcases List.mem_append.1 hkey with hkey | hkey
      · exact hkey
      · exact absurd (congrArg Prod.snd (List.mem_singleton.1 hkey)) hj
  have hkept : ∀ key, (key, j) ∈ st.allocated → (key, j) ∈ st'.allocated := by
    intro key hkey
    rcases hgrow.allocated with heq | ⟨key', heq⟩ <;> rw [heq]
    · exact hkey
    · exact List.mem_append_left _ hkey
  refine ⟨fun token seq hkey => h.wal token seq (hold _ hkey),
    fun token seq hkey => h.snap token seq (hold _ hkey), h.epoch, h.busy, fun key hup => ?_⟩
  obtain ⟨hkey, hnew⟩ := h.uploads key hup
  refine ⟨hkept key hkey, ?_⟩
  rcases hgrow.puts with heq | ⟨key', body, hkey', heq⟩ <;> rw [heq]
  · exact hnew
  · -- the uploaded key belongs to `i`
    intro hmem
    rw [List.map_append, List.mem_append] at hmem
    rcases hmem with hmem | hmem
    · exact hnew hmem
    · have hsame : key = key' := by simpa using hmem
      subst hsame
      exact hj (hst'.eq_of_allocated (hkept key hkey) hkey')

/-- A step that neither chooses a name nor uploads. -/
theorem InstKeys.keep (h : InstKeys cfg i st n) (hepoch : n.lease.epoch ≤ n'.lease.epoch)
    (hacquired : n.lease.acquired → n'.lease.acquired) (hnames : n'.loop.names = n.loop.names)
    (hbusy : n'.loop.task ≠ .idle → n.loop.task ≠ .idle)
    (huploads : ∀ key, n'.loop.task.uploads = some key → n.loop.task.uploads = some key)
    (hallocated : st'.allocated = st.allocated) (hputs : st'.puts = st.puts) :
    InstKeys cfg i st' n' := by
  refine ⟨?_, ?_, ?_, fun hb => (h.busy (hbusy hb)).imp_right hacquired, ?_⟩
  · rw [hnames, hallocated]
    exact h.wal
  · rw [hnames, hallocated]
    exact h.snap
  · rw [hnames]
    exact fun e he => (h.epoch e he).trans hepoch
  · rw [hallocated, hputs]
    exact fun key hkey => h.uploads key (huploads key hkey)

/-- The sequence starts over only with a higher epoch, so that the next segment has a new name. -/
theorem InstKeys.nextRef_fresh (h : InstKeys cfg i st n) (hname : MayName cfg i st n) :
    ((n.nextRef cfg i).key, i) ∉ st.allocated := by
  intro hmem
  obtain ⟨epoch, hepoch, hold⟩ := h.wal _ _ hmem
  have hle := h.epoch epoch hepoch
  rcases hold with ⟨htoken, hseq⟩ | ⟨hmode, e, he, htoken⟩
  · -- the current sequence
    have hsame : epoch = n.lease.epoch := by
      cases hmode : cfg.mode with
      | singleWriter => exact ((nameToken_inj htoken).2 hmode).symm
      | optimistic =>
          have hzero := hname.flat hmode
          omega
    subst hsame
    simp [Instance.nextSeq, hepoch] at hseq
  · -- an earlier one
    have hsame := (nameToken_inj htoken).2 hmode
    omega

theorem InstKeys.nextSnapshot_fresh (h : InstKeys cfg i st n) :
    (n.nextSnapshot cfg i, i) ∉ st.allocated :=
  fun hmem => lt_irrefl _ (h.snap _ _ hmem)

/-! ## The steps of an instance -/

/-- The counter of segments is ahead of what it was, and the name that was just chosen is behind
it. -/
theorem InstKeys.wal_flush (h : InstKeys cfg i st n) (hname : MayName cfg i st n)
    {token : List Char} {seq : Nat}
    (hmem : (ObjectKey.wal token seq, i) ∈ st.allocated ++ [((n.nextRef cfg i).key, i)]) :
    token = nameToken cfg i n.lease.epoch ∧ seq < n.nextSeq + 1 ∨
      cfg.mode = .singleWriter ∧ ∃ e < n.lease.epoch, token = nameToken cfg i e := by
  rcases List.mem_append.1 hmem with hold | hnew
  · obtain ⟨epoch, hepoch, hcase⟩ := h.wal token seq hold
    have hle := h.epoch epoch hepoch
    by_cases hsame : epoch = n.lease.epoch
    · subst hsame
      rcases hcase with ⟨htoken, hseq⟩ | hearlier
      · refine .inl ⟨htoken, ?_⟩
        simp only [Instance.nextSeq, hepoch, if_pos]
        omega
      · exact .inr hearlier
    · -- a new epoch: every name so far has an earlier one
      have hmode : cfg.mode = .singleWriter := by
        cases hmode : cfg.mode with
        | singleWriter => rfl
        | optimistic =>
            have hzero := hname.flat hmode
            omega
      rcases hcase with ⟨htoken, -⟩ | ⟨-, e, he, htoken⟩
      · exact .inr ⟨hmode, epoch, by omega, htoken⟩
      · exact .inr ⟨hmode, e, by omega, htoken⟩
  · cases List.mem_singleton.1 hnew
    exact .inl ⟨rfl, Nat.lt_succ_self _⟩

/-- An upload of the name that the task has chosen. -/
theorem InstKeys.upload (h : InstKeys cfg i st n) (hst : StoreKeys cfg st) {key : ObjectKey}
    (hkey : n.loop.task.uploads = some key) (body : ObjectBody) (hlease : n'.lease = n.lease)
    (hnames : n'.loop.names = n.loop.names) (huploads : n'.loop.task.uploads = none) :
    StoreKeys cfg (st.upload key body) ∧ InstKeys cfg i (st.upload key body) n' ∧
      KeysGrow i st (st.upload key body) := by
  obtain ⟨hmem, hnew⟩ := h.uploads key hkey
  refine ⟨hst.upload hmem hnew body, ⟨?_, ?_, ?_, fun _ => ?_, by simp [huploads]⟩,
    ⟨.inl rfl, .inr ⟨key, body, hmem, rfl⟩⟩⟩
  · rw [hnames]
    exact h.wal
  · rw [hnames]
    exact h.snap
  · rw [hnames, hlease]
    exact h.epoch
  · rw [hlease]
    refine h.busy fun hidle => ?_
    rw [hidle] at hkey
    cases hkey

theorem InstKeys.of_loop {a : LoopAct} (hl : cfg.mode = .singleWriter → LeasesOk st.leases)
    (hinj : cfg.mode = .optimistic → Function.Injective cfg.writerId) (hname : MayName cfg i st n)
    (hst : StoreKeys cfg st) (h : InstKeys cfg i st n) (hs : LoopStep cfg i st n a st' n') :
    StoreKeys cfg st' ∧ InstKeys cfg i st' n' ∧ KeysGrow i st st' := by
  have howns : n.loop.task ≠ .idle → cfg.mode = .singleWriter → Owns st.leases i n.lease.epoch := by
    intro hbusy hmode
    rcases h.busy hbusy with hopt | hacquired
    · cases hmode.symm.trans hopt
    · exact hname.owns hmode hacquired
  have hgo : ∀ {st' : Store ι} {n' : Instance}, n.loop.task ≠ .idle → n'.lease = n.lease →
      n'.loop.names = n.loop.names → n'.loop.task.uploads = none → st'.allocated = st.allocated →
        st'.puts = st.puts → InstKeys cfg i st' n' := by
    intro st' n' hbusy hlease hnames hnone hallocated hputs
    refine h.keep ?_ ?_ hnames (fun _ => hbusy) (by simp [hnone]) hallocated hputs <;> rw [hlease]
    exact id
  have hstay : ∀ {task : Task}, n.loop.task ≠ .idle → task.uploads = none →
      StoreKeys cfg st ∧ InstKeys cfg i st (n.withTask task) ∧ KeysGrow i st st :=
    fun hbusy hnone => ⟨hst, hgo hbusy rfl rfl hnone rfl rfl, .of_eq rfl rfl⟩
  cases hs with
  | ensure _ _ _ hheld htask =>
      exact ⟨hst, ⟨h.wal, h.snap, h.epoch, fun _ => hheld.imp_right hname.held,
        by simp [Instance.withTask, Task.uploads]⟩, .of_eq rfl rfl⟩
  | fail _ _ htask =>
      exact ⟨hst, h.keep le_rfl id rfl (by simp [Instance.failLoop])
        (by simp [Instance.failLoop, Task.uploads]) rfl rfl, .of_eq rfl rfl⟩
  | flush htask =>
      -- the name has the epoch or the writer id in it, and a number that the loop has not used
      have hbusy : n.loop.task ≠ .idle := by simp [htask]
      obtain ⟨hnew, hst'⟩ := hst.allocate hl hinj (n.nextRef cfg i).key rfl (howns hbusy)
        (h.nextRef_fresh hname)
      refine ⟨hst',
        ⟨fun token seq hmem => ⟨_, rfl, h.wal_flush hname hmem⟩, fun token seq hmem => ?_,
        ?_, fun _ => h.busy hbusy, ?_⟩, ⟨.inr ⟨_, rfl⟩, .inl rfl⟩⟩
      · rcases List.mem_append.1 hmem with hold | hlast
        · exact h.snap token seq hold
        · cases List.mem_singleton.1 hlast
      · rintro e ⟨⟩
        exact le_rfl
      · rintro key ⟨⟩
        refine ⟨by simp, fun hput => hnew ?_⟩
        obtain ⟨p, hp, hkey⟩ := List.mem_map.1 hput
        exact hkey ▸ hst.puts p hp
  | putSegment ref batch htask =>
      exact h.upload hst (by simp [htask, Task.uploads]) _ rfl rfl rfl
  | lostSegment ref batch htask =>
      exact h.upload hst (by simp [htask, Task.uploads]) _ rfl rfl rfl
  | failedSegment ref batch htask => exact hstay (by simp [htask]) rfl
  | skip htask => exact hstay (by simp [htask]) rfl
  | compact now htask =>
      have hbusy : n.loop.task ≠ .idle := by simp [htask]
      obtain ⟨hnew, hst'⟩ := hst.allocate hl hinj (n.nextSnapshot cfg i) rfl (howns hbusy)
        h.nextSnapshot_fresh
      refine ⟨hst', ⟨fun token seq hmem => ?_, fun token seq hmem => ?_, h.epoch,
        fun _ => h.busy hbusy, ?_⟩, ⟨.inr ⟨_, rfl⟩, .inl rfl⟩⟩
      · rcases List.mem_append.1 hmem with hold | hlast
        · exact h.wal token seq hold
        · cases List.mem_singleton.1 hlast
      · rcases List.mem_append.1 hmem with hold | hlast
        · exact Nat.lt_succ_of_lt (h.snap token seq hold)
        · cases List.mem_singleton.1 hlast
          exact Nat.lt_succ_self _
      · rintro key ⟨⟩
        refine ⟨by simp, fun hput => hnew ?_⟩
        obtain ⟨p, hp, hkey⟩ := List.mem_map.1 hput
        exact hkey ▸ hst.puts p hp
  | putSnapshot now key record log htask =>
      exact h.upload hst (by simp [htask, Task.uploads]) _ rfl rfl rfl
  | lostSnapshot now key record log htask =>
      exact h.upload hst (by simp [htask, Task.uploads]) _ rfl rfl rfl
  | failedSnapshot now key record log htask => exact hstay (by simp [htask]) rfl
  | nothingDue now htask => exact hstay (by simp [htask]) rfl
  | collect now htask => exact ⟨hst, hgo (by simp [htask]) rfl rfl rfl rfl rfl, .of_eq rfl rfl⟩
  | startDelete now htask => exact hstay (by simp [htask]) rfl
  | delete done keys now htask =>
      exact ⟨hst.keep (List.append_nil _).symm rfl rfl fun _ _ => Store.objects_of_remove,
        hgo (by simp [htask]) rfl rfl rfl rfl rfl,
        .of_eq rfl rfl⟩
  | deleteThrew done keys now htask =>
      exact ⟨hst.keep (List.append_nil _).symm rfl rfl fun _ _ => Store.objects_of_remove,
        hgo (by simp [htask]) rfl rfl rfl rfl rfl,
        .of_eq rfl rfl⟩

/-- What the loop does when its commit is over does not upload. -/
theorem CommitStep.task {a : CommitAct} (hloop : LoopOk n) (hs : CommitStep cfg i st n a st' n') :
    n'.loop.names = n.loop.names ∧
      (n'.loop.task = n.loop.task ∨ n.loop.task = .commit ∧ n'.loop.task.uploads = none) := by
  have hresolve : ∀ {m : Instance} {u : Update} {us : List Update} (next cached : ManifestRecord)
      (tag : Nat), n.commit.chain = u :: us → m.loop = n.loop →
        (m.resolve u next cached tag).loop.names = n.loop.names ∧
          ((m.resolve u next cached tag).loop.task = n.loop.task ∨
            n.loop.task = .commit ∧ (m.resolve u next cached tag).loop.task.uploads = none) :=
    fun next cached tag hchain hm => ⟨by simp [hm],
      ((Settles.resolve hm _ next cached tag).task_cases hloop hchain).imp_right
        (And.imp_right Task.Rests.uploads)⟩
  have hreject : ∀ {m : Instance} {u : Update} {us : List Update} (notWriter : Bool),
      n.commit.chain = u :: us → m.loop = n.loop →
        (m.reject u notWriter).loop.names = n.loop.names ∧
          ((m.reject u notWriter).loop.task = n.loop.task ∨
            n.loop.task = .commit ∧ (m.reject u notWriter).loop.task.uploads = none) :=
    fun notWriter hchain hm => ⟨by simp [hm],
      ((Settles.reject hm _ notWriter).task_cases hloop hchain).imp_right
        (And.imp_right Task.Rests.uploads)⟩
  cases hs with
  | answer next tag u us _ hchain => exact hresolve next next tag hchain (by simp)
  | answerFailed next u us _ hchain => exact hreject false hchain rfl
  | adopt tag next u us _ hchain => exact hresolve (m := n.noteWrite) next _ tag hchain rfl
  | fence tag next u us _ hchain =>
    exact hreject (m := { n with lease := n.lease.fence }) true hchain rfl
  | giveUp tag next u us _ hchain => exact hreject false hchain rfl
  | refuse notWriter u us hchain => exact hreject notWriter hchain rfl
  | _ => exact ⟨rfl, .inl rfl⟩

theorem InstKeys.of_commit {a : CommitAct} (hloop : LoopOk n) (hst : StoreKeys cfg st)
    (h : InstKeys cfg i st n) (hepoch : n.lease.epoch ≤ n'.lease.epoch)
    (hacquired : n.lease.acquired → n'.lease.acquired) (hs : CommitStep cfg i st n a st' n') :
    StoreKeys cfg st' ∧ InstKeys cfg i st' n' ∧ KeysGrow i st st' := by
  obtain ⟨hnames, htask⟩ := hs.task hloop
  have hstore : st'.leases = st.leases ∧ st'.allocated = st.allocated ∧ st'.puts = st.puts ∧
      st'.objects = st.objects := by
    cases hs <;> exact ⟨rfl, rfl, rfl, rfl⟩
  obtain ⟨hleases, hallocated, hputs, hobjects⟩ := hstore
  refine ⟨hst.keep (hleases.trans (List.append_nil _).symm) hallocated hputs
      fun _ _ => by rw [hobjects]; exact id,
    h.keep hepoch hacquired hnames ?_ ?_ hallocated hputs, .of_eq hallocated hputs⟩
  · rcases htask with heq | ⟨hcommit, -⟩
    · rw [heq]
      exact id
    · exact fun _ => by simp [hcommit]
  · rcases htask with heq | ⟨-, hnone⟩
    · rw [heq]
      exact fun _ => id
    · simp [hnone]

/-- What the names of a room rest on. -/
structure NamingRoom (cfg : Config ι) (s : FleetState ι) : Prop where
  leases : cfg.mode = .singleWriter → LeasesOk s.shared.leases
  mayName : ∀ i, MayName cfg i s.shared (s.locals i)
  loop : ∀ i, LoopOk (s.locals i)

theorem namingRoom [DecidableEq ι] {G : Guard ι}
    (hG : ∀ {i st n a}, G i st n a → KeepsEpoch cfg i st n a) {s : FleetState ι}
    (h : FleetReach cfg G s) : NamingRoom cfg s := by
  cases hmode : cfg.mode with
  | singleWriter =>
      obtain ⟨⟨hl, -⟩, hall⟩ := epochs hmode hG h
      refine ⟨fun _ => hl, fun i => ⟨fun _ => (hall i).lease.owns, (hall i).lease.held, ?_⟩,
        fun i => loopOk h i⟩
      exact fun hopt => by cases hmode.symm.trans hopt
  | optimistic =>
      obtain ⟨-, hall⟩ := flat hmode h
      have hnot : cfg.mode ≠ .singleWriter := by simp [hmode]
      have hheld : ∀ i, (s.locals i).lease.held → (s.locals i).lease.acquired := by
        intro i hheld
        cases (hall i).held.symm.trans hheld
      exact ⟨fun hsingle => absurd hsingle hnot, fun i => ⟨fun hsingle => absurd hsingle hnot,
        hheld i, fun _ => (hall i).lease⟩, fun i => loopOk h i⟩

/-- The names of a room. -/
theorem keys [DecidableEq ι] {G : Guard ι}
    (hG : ∀ {i st n a}, G i st n a → KeepsEpoch cfg i st n a)
    (hinj : cfg.mode = .optimistic → Function.Injective cfg.writerId) {s : FleetState ι}
    (h : FleetReach cfg G s) : s.All (StoreKeys cfg) (InstKeys cfg) := by
  suffices hown : ∀ {s : FleetState ι} {i : ι} {a : Act} {st' : Store ι} {n' : Instance},
      NamingRoom cfg s → s.All (StoreKeys cfg) (InstKeys cfg) → G i s.shared (s.locals i) a →
        Step cfg i s.shared (s.locals i) a st' n' →
          StoreKeys cfg st' ∧ InstKeys cfg i st' n' ∧ KeysGrow i s.shared st' by
    refine FleetReach.invariant (namingRoom hG) .start (fun i => .start i) ?_ ?_ h
    · intro s i a st' n' hroom hall hg hs
      obtain ⟨hst', hi, -⟩ := hown hroom hall hg hs
      exact ⟨hst', hi⟩
    · intro s i a st' n' hroom hall hg hs j hj
      obtain ⟨hst', -, hgrow⟩ := hown hroom hall hg hs
      exact (hall.2 j).others hst' hgrow hj
  rintro s i a st' n' hroom ⟨hst, hall⟩ hg hs
  obtain ⟨hepoch, hacquired⟩ := hs.epoch_le (hG hg)
  have hkeep : ∀ {leases : List (StoredLease ι)}, st'.leases = s.shared.leases ++ leases →
      st'.allocated = s.shared.allocated → st'.puts = s.shared.puts →
        st'.objects = s.shared.objects → n'.loop.names = (s.locals i).loop.names →
          n'.loop.task = (s.locals i).loop.task →
            StoreKeys cfg st' ∧ InstKeys cfg i st' n' ∧ KeysGrow i s.shared st' := by
    intro leases hleases hallocated hputs hobjects hnames htask
    refine ⟨hst.keep hleases hallocated hputs fun _ _ => by rw [hobjects]; exact id,
      (hall i).keep hepoch hacquired hnames ?_ ?_ hallocated hputs, .of_eq hallocated hputs⟩ <;>
      rw [htask]
    · exact id
    · exact fun _ => id
  cases hs with
  | room hs => cases hs <;> exact hkeep (List.append_nil _).symm rfl rfl rfl rfl rfl
  | lease _ hs =>
      obtain ⟨-, -, more, rfl⟩ := hs.epoch_le (hG hg)
      exact hkeep rfl rfl rfl rfl rfl rfl
  | loop hs => exact (hall i).of_loop hroom.leases hinj (hroom.mayName i) hst hs
  | commit hs => exact (hall i).of_commit (hroom.loop i) hst hepoch hacquired hs
  | refresh hs =>
      refine hkeep (List.append_nil _).symm rfl rfl rfl ?_ ?_ <;>
        cases hs <;> simp [Instance.withRefresh, Instance.dropRefresh, Instance.withHeld]

end Fleet
end ObjectStorage
end Reflectdb
