import Reflectdb.ObjectStorage.Fleet.Fence

/-!
# Epochs — a fencing epoch belongs to one instance

An `acquire` takes an epoch above the one it reads, or keeps that of a lease which this process
wrote.  The flush loop and a commit may acquire at the same time; the epoch of the instance is that
of the answer it sees last.
-/

namespace Reflectdb
namespace ObjectStorage
namespace Fleet

open Core Client Lib

variable {ι : Type} {cfg : Config ι} {i j : ι} {st st' : Store ι} {n n' : Instance}

/-! ## Leases -/

/-- A lease with this epoch was written by the instance. -/
def Owns (leases : List (StoredLease ι)) (i : ι) (epoch : Nat) : Prop :=
  ∃ l ∈ leases, l.author = i ∧ l.record.epoch = epoch

/-- Epochs only go up, and an epoch has one instance. -/
structure LeasesOk (leases : List (StoredLease ι)) : Prop where
  mono : leases.Pairwise fun a b => a.record.epoch ≤ b.record.epoch
  author : ∀ a ∈ leases, ∀ b ∈ leases, a.record.epoch = b.record.epoch → a.author = b.author

/-- A lease with this epoch may replace the one of the tag: the epoch is above that of the tag, or
it is one of the instance's own and not below. -/
def Grantable (leases : List (StoredLease ι)) (i : ι) (tag epoch : Nat) : Prop :=
  tag ≤ leases.length ∧ (leaseAt leases tag).epoch ≤ epoch ∧
    (Owns leases i epoch ∨ (leaseAt leases tag).epoch < epoch)

/-- What a request in flight says of the leases; `epoch` is that of the instance. -/
def CallOk (leases : List (StoredLease ι)) (i : ι) (epoch : Nat) : LeaseCall → Prop
  | .got tag record => tag ≤ leases.length ∧ record = leaseAt leases tag
  | .issued kind ifMatch next =>
    Grantable leases i ifMatch next.epoch ∧ (kind = .renew → next.epoch ≤ epoch)
  | .replied kind next (.ok tag) =>
    tag ≤ leases.length ∧ leaseAt leases tag = next ∧ Owns leases i next.epoch ∧
      (kind = .renew → next.epoch ≤ epoch)
  | .replied _ _ _ => True

structure LeaseOk (leases : List (StoredLease ι)) (i : ι) (l : LeaseSide) : Prop where
  tag : l.tag ≤ leases.length
  epoch : (leaseAt leases l.tag).epoch ≤ l.epoch
  owns : l.acquired → Owns leases i l.epoch
  held : l.held → l.acquired
  calls : ∀ c ∈ l.calls, CallOk leases i l.epoch c

section Leases

variable {leases leases' : List (StoredLease ι)} {l l' : LeaseSide}

theorem Owns.append {epoch : Nat} (h : Owns leases i epoch) (more : List (StoredLease ι)) :
    Owns (leases ++ more) i epoch := by
  obtain ⟨l, hl, h⟩ := h
  exact ⟨l, List.mem_append_left _ hl, h⟩

theorem LeasesOk.nil : LeasesOk ([] : List (StoredLease ι)) :=
  ⟨.nil, fun _ ha => by cases ha⟩

theorem LeasesOk.owns_inj (h : LeasesOk leases) {epoch : Nat} (hi : Owns leases i epoch)
    (hj : Owns leases j epoch) : i = j := by
  obtain ⟨a, ha, rfl, hae⟩ := hi
  obtain ⟨b, hb, rfl, hbe⟩ := hj
  exact h.author a ha b hb (hae.trans hbe.symm)

/-- The last lease has the highest epoch. -/
theorem LeasesOk.le_last (h : LeasesOk leases) {a : StoredLease ι} (ha : a ∈ leases) :
    a.record.epoch ≤ (leaseAt leases leases.length).epoch := by
  rcases List.eq_nil_or_concat leases with rfl | ⟨init, last, rfl⟩
  · cases ha
  · have hlast : leaseAt (init ++ [last]) (init ++ [last]).length = last.record := by
      simp
    rw [List.concat_eq_append] at ha h ⊢
    rw [hlast]
    rcases List.mem_append.1 ha with hinit | heq
    · exact (List.pairwise_append.1 h.mono).2.2 a hinit last (by simp)
    · rw [List.mem_singleton.1 heq]

theorem Grantable.append {tag epoch : Nat} (h : Grantable leases i tag epoch)
    (more : List (StoredLease ι)) : Grantable (leases ++ more) i tag epoch := by
  obtain ⟨htag, hle, h⟩ := h
  rw [Grantable, leaseAt, tagged_append htag, List.length_append]
  exact ⟨Nat.le_add_right_of_le htag, hle, h.imp_left fun h => h.append more⟩

theorem CallOk.append {epoch : Nat} {c : LeaseCall} (h : CallOk leases i epoch c)
    (more : List (StoredLease ι)) : CallOk (leases ++ more) i epoch c := by
  have hlen : ∀ {tag : Nat}, tag ≤ leases.length → tag ≤ (leases ++ more).length := by
    intro tag htag
    rw [List.length_append]
    exact Nat.le_add_right_of_le htag
  cases c with
  | got tag record =>
      refine ⟨hlen h.1, ?_⟩
      rw [leaseAt, tagged_append h.1]
      exact h.2
  | issued kind ifMatch next => exact ⟨h.1.append more, h.2⟩
  | replied kind next reply =>
      cases reply with
      | ok tag =>
          obtain ⟨htag, hnext, howns, hrenew⟩ := h
          refine ⟨hlen htag, ?_, howns.append more, hrenew⟩
          rw [leaseAt, tagged_append htag]
          exact hnext
      | conflict => trivial
      | failed => trivial

/-- The epoch of the instance may go up under its requests. -/
theorem CallOk.mono {epoch epoch' : Nat} {c : LeaseCall} (h : CallOk leases i epoch c)
    (hle : epoch ≤ epoch') : CallOk leases i epoch' c := by
  cases c with
  | got tag record => exact h
  | issued kind ifMatch next => exact ⟨h.1, fun hkind => (h.2 hkind).trans hle⟩
  | replied kind next reply =>
      cases reply with
      | ok tag => exact ⟨h.1, h.2.1, h.2.2.1, fun hkind => (h.2.2.2 hkind).trans hle⟩
      | conflict => trivial
      | failed => trivial

theorem LeaseOk.append (h : LeaseOk leases i l) (more : List (StoredLease ι)) :
    LeaseOk (leases ++ more) i l where
  tag := by
    rw [List.length_append]
    exact Nat.le_add_right_of_le h.tag
  epoch := by
    rw [leaseAt, tagged_append h.tag]
    exact h.epoch
  owns := fun hacquired => (h.owns hacquired).append more
  held := h.held
  calls := fun c hc => (h.calls c hc).append more

/-- A lease that may be granted, and replaces the last one, keeps the leases in order. -/
theorem LeasesOk.grant (h : LeasesOk leases) {next : LeaseRecord}
    (hg : Grantable leases i leases.length next.epoch) : LeasesOk (leases ++ [⟨next, i⟩]) := by
  have hbelow : ∀ a ∈ leases, a.record.epoch ≤ next.epoch :=
    fun a ha => (h.le_last ha).trans hg.2.1
  have hsame : ∀ a ∈ leases, a.record.epoch = next.epoch → a.author = i := by
    intro a ha heq
    rcases hg.2.2 with howns | hlt
    · exact h.owns_inj ⟨a, ha, rfl, heq⟩ howns
    · have hle := h.le_last ha
      omega
  refine ⟨List.pairwise_append.2 ⟨h.mono, by simp, fun a ha b hb => ?_⟩, ?_⟩
  · rw [List.mem_singleton.1 hb]
    exact hbelow a ha
  · intro a ha b hb heq
    rcases List.mem_append.1 ha with ha | ha <;> rcases List.mem_append.1 hb with hb | hb
    · exact h.author a ha b hb heq
    · rw [List.mem_singleton.1 hb] at heq ⊢
      exact hsame a ha heq
    · rw [List.mem_singleton.1 ha] at heq ⊢
      exact (hsame b hb heq.symm).symm
    · rw [List.mem_singleton.1 ha, List.mem_singleton.1 hb]

/-- A step that grants nothing. -/
theorem LeaseOk.quiet (h : LeaseOk leases i l) (htag : l'.tag = l.tag ∨ l'.tag = 0)
    (hepoch : l'.epoch = l.epoch) (hacquired : l'.acquired = l.acquired) (hheld : l'.held → l.held)
    (hcalls : ∀ c ∈ l'.calls, c ∈ l.calls ∨ CallOk leases i l.epoch c) : LeaseOk leases i l' where
  tag := by
    rcases htag with heq | heq <;> rw [heq]
    · exact h.tag
    · exact Nat.zero_le _
  epoch := by
    rcases htag with heq | heq <;> rw [heq, hepoch]
    · exact h.epoch
    · exact Nat.zero_le _
  owns := by
    rw [hacquired, hepoch]
    exact h.owns
  held := by
    rw [hacquired]
    exact fun hh => h.held (hheld hh)
  calls := by
    rw [hepoch]
    exact fun c hc => (hcalls c hc).elim (h.calls c) id

theorem LeaseOk.done (h : LeaseOk leases i l) (call : Nat) : LeaseOk leases i (l.done call) :=
  h.quiet (.inl rfl) rfl rfl id fun _ hc => .inl (List.eraseIdx_subset hc)

theorem LeaseOk.fence (h : LeaseOk leases i l) : LeaseOk leases i l.fence := by
  unfold LeaseSide.fence
  split
  · exact h
  · exact h.quiet (.inl rfl) rfl rfl (fun hh => by cases hh) fun _ => .inl

end Leases

/-! ## One step -/

/-- An `acquire` that keeps the epoch of the lease it has read keeps one that this very process
wrote. -/
def LeaseCall.KeepsOwn (cfg : Config ι) (i : ι) (leases : List (StoredLease ι)) (l : LeaseSide)
    (now : Nat) : LeaseCall → Prop
  | .got tag record =>
    l.ours (cfg.writerId i) record now → leases[tag - 1]?.map (·.author) = some i
  | _ => True

/-- The answer of an `acquire` does not take back the epoch of a later one. -/
def LeaseCall.Raises (epoch : Nat) : LeaseCall → Prop
  | .replied .acquire next (.ok _) => epoch ≤ next.epoch
  | _ => True

instance [DecidableEq ι] (cfg : Config ι) (i : ι) (leases : List (StoredLease ι)) (l : LeaseSide)
    (now : Nat) : DecidablePred (LeaseCall.KeepsOwn cfg i leases l now) := fun c => by
  cases c <;> unfold LeaseCall.KeepsOwn <;> infer_instance

instance (epoch : Nat) : DecidablePred (LeaseCall.Raises epoch) := fun c => by
  unfold LeaseCall.Raises
  split <;> infer_instance

def KeepsEpoch (cfg : Config ι) : Guard ι := fun i st n a =>
  match a with
  | .lease (.decide call now) => ∀ c ∈ n.lease.calls[call]?, c.KeepsOwn cfg i st.leases n.lease now
  | .lease (.answer call _) => ∀ c ∈ n.lease.calls[call]?, c.Raises n.lease.epoch
  | _ => True

instance [DecidableEq ι] (i : ι) (st : Store ι) (n : Instance) (a : Act) :
    Decidable (KeepsEpoch cfg i st n a) := by
  unfold KeepsEpoch
  split <;> infer_instance

section LeaseSteps

variable {leases leases' : List (StoredLease ι)} {l l' : LeaseSide}

theorem LeaseOk.set (h : LeaseOk leases i l) (call : Nat) {c : LeaseCall}
    (hc : CallOk leases i l.epoch c) : LeaseOk leases i { l with calls := l.calls.set call c } :=
  h.quiet (.inl rfl) rfl rfl id fun d hd => by
    rcases List.mem_or_eq_of_mem_set hd with hold | heq
    · exact .inl hold
    · exact .inr (heq ▸ hc)

theorem LeaseOk.push (h : LeaseOk leases i l) {c : LeaseCall} (hc : CallOk leases i l.epoch c) :
    LeaseOk leases i { l with calls := l.calls ++ [c] } :=
  h.quiet (.inl rfl) rfl rfl id fun d hd => by
    rcases List.mem_append.1 hd with hold | hnew
    · exact .inl hold
    · exact .inr (List.mem_singleton.1 hnew ▸ hc)

/-- What `acquire` asks for may be granted, if the lease it keeps is one of its own. -/
theorem grantable_nextEpoch {writerId : WriterId} {tag now : Nat} {record : LeaseRecord}
    (hrecord : CallOk leases i l.epoch (.got tag record))
    (hours : l.ours writerId record now → leases[tag - 1]?.map (·.author) = some i) :
    Grantable leases i tag (l.nextEpoch writerId record now) := by
  obtain ⟨htag, rfl⟩ := hrecord
  refine ⟨htag, ?_⟩
  simp only [LeaseSide.nextEpoch]
  split
  · rename_i hown
    refine ⟨le_rfl, .inl ?_⟩
    cases tag with
    -- where no lease was ever stored, none is in force
    | zero => exact absurd hown.2.1 (Nat.not_lt_zero now)
    | succ k =>
        obtain ⟨l₀, hl₀, hauthor⟩ := Option.map_eq_some_iff.1 (hours hown)
        rw [Nat.add_sub_cancel] at hl₀
        exact ⟨l₀, List.mem_of_getElem? hl₀, hauthor, by rw [leaseAt, tagged_of_getElem? hl₀]⟩
  · exact ⟨by omega, .inr (by omega)⟩

/-- What the caller of a PUT makes of its answer. -/
theorem LeaseOk.answered (h : LeaseOk leases i l) {kind : LeaseKind} {next : LeaseRecord}
    {reply : Reply} (hcall : CallOk leases i l.epoch (.replied kind next reply))
    (hup : ∀ tag, kind = .acquire → reply = .ok tag → l.epoch ≤ next.epoch) (now : Nat) :
    LeaseOk leases i (l.answered next now kind reply) := by
  cases kind with
  | acquire =>
      cases reply with
      | ok tag =>
          obtain ⟨htag, hnext, howns, -⟩ := hcall
          refine ⟨htag, ?_, fun _ => howns, fun _ => rfl, fun c hc => ?_⟩
          · exact le_of_eq (congrArg LeaseRecord.epoch hnext)
          · exact (h.calls c hc).mono (hup tag rfl rfl)
      | conflict => exact h
      | failed => exact h
  | renew =>
      cases reply with
      | ok tag =>
          obtain ⟨htag, hnext, -, hrenew⟩ := hcall
          exact ⟨htag, (congrArg LeaseRecord.epoch hnext).trans_le (hrenew rfl), h.owns, h.held,
            h.calls⟩
      | conflict => exact h.fence
      | failed =>
          simp only [LeaseSide.answered]
          split
          · exact h.fence
          · exact h
  | release =>
      cases reply with
      | ok tag => exact h.quiet (.inr rfl) rfl rfl id fun _ => .inl
      | conflict => exact h.quiet (.inr rfl) rfl rfl id fun _ => .inl
      | failed => exact h

/-- The lease requests of one instance keep the leases of the room in order. -/
theorem LeaseOk.of_step {a : LeaseAct} (hl : LeasesOk st.leases)
    (h : LeaseOk st.leases i n.lease) (hsafe : KeepsEpoch cfg i st n (.lease a))
    (hs : LeaseStep cfg i st.leases n.lease a leases' l') :
        LeasesOk leases' ∧ LeaseOk leases' i l' := by
  have hcallOk : ∀ {call : Nat} {c : LeaseCall}, n.lease.calls[call]? = some c →
      CallOk st.leases i n.lease.epoch c := fun hcall => h.calls _ (List.mem_of_getElem? hcall)
  have hown : n.lease.held → Grantable st.leases i n.lease.tag n.lease.epoch :=
    fun hheld => ⟨h.tag, h.epoch, .inl (h.owns (h.held hheld))⟩
  cases hs with
  | get => exact ⟨hl, h.push ⟨le_rfl, rfl⟩⟩
  | blocked call => exact ⟨hl, h.done call⟩
  | decide call now tag record hcall =>
      have hgrant := grantable_nextEpoch (hcallOk hcall) (hsafe _ hcall)
      exact ⟨hl, h.set call ⟨hgrant, fun hkind => by cases hkind⟩⟩
  | put call outcome kind ifMatch next reply hcall hmatch hreply =>
      obtain ⟨hgrant, hrenew⟩ := hcallOk hcall
      subst hmatch
      have howns : Owns (st.leases ++ [⟨next, i⟩]) i next.epoch := ⟨⟨next, i⟩, by simp, rfl, rfl⟩
      refine ⟨hl.grant hgrant, (h.append _).set call ?_⟩
      cases reply with
      | ok tag =>
          have htag := hreply tag rfl
          subst htag
          exact ⟨by simp, by simp, howns, hrenew⟩
      | conflict => trivial
      | failed => trivial
  | refuse call outcome kind ifMatch next reply hcall hreply =>
      refine ⟨hl, h.set call ?_⟩
      cases reply with
      | ok tag => exact absurd rfl (hreply tag)
      | conflict => trivial
      | failed => trivial
  | answer call now kind next reply hcall =>
      refine ⟨hl, (h.done call).answered (hcallOk hcall) ?_ now⟩
      intro tag hkind hreply
      subst hkind hreply
      exact hsafe _ hcall
  | renew now hheld => exact ⟨hl, h.push ⟨hown hheld, fun _ => le_rfl⟩⟩
  | lapse => exact ⟨hl, h.quiet (.inl rfl) rfl rfl (fun hh => by cases hh) fun _ => .inl⟩
  | release hheld =>
      have hpush := h.push (c := .issued .release n.lease.tag ⟨[], n.lease.epoch, 0⟩)
        ⟨hown hheld, fun hkind => by cases hkind⟩
      exact ⟨hl, hpush.quiet (.inl rfl) rfl rfl (fun hh => by cases hh) fun _ => .inl⟩

@[simp] theorem LeaseSide.fence_epoch (l : LeaseSide) : l.fence.epoch = l.epoch := by
  unfold LeaseSide.fence
  split <;> rfl

@[simp] theorem LeaseSide.fence_acquired (l : LeaseSide) : l.fence.acquired = l.acquired := by
  unfold LeaseSide.fence
  split <;> rfl

theorem LeaseSide.answered_epoch {next : LeaseRecord} {kind : LeaseKind} {reply : Reply}
    (hup : ∀ tag, kind = .acquire → reply = .ok tag → l.epoch ≤ next.epoch) (now : Nat) :
    l.epoch ≤ (l.answered next now kind reply).epoch ∧
      (l.acquired → (l.answered next now kind reply).acquired) := by
  cases kind <;> cases reply
  case acquire.ok tag => exact ⟨hup tag rfl rfl, fun _ => rfl⟩
  case renew.conflict => simp [LeaseSide.answered]
  case renew.failed =>
      simp only [LeaseSide.answered]
      split <;> simp
  all_goals exact ⟨le_rfl, id⟩

/-- The epoch of an instance does not go down by a request, and a lease it once had it has had. -/
theorem LeaseStep.epoch_le {a : LeaseAct} (hsafe : KeepsEpoch cfg i st n (.lease a))
    (hs : LeaseStep cfg i st.leases n.lease a leases' l') :
    n.lease.epoch ≤ l'.epoch ∧ (n.lease.acquired → l'.acquired) ∧
      ∃ more, leases' = st.leases ++ more := by
  have hsame : ∃ more, st.leases = st.leases ++ more := ⟨[], (List.append_nil _).symm⟩
  cases hs with
  | put call outcome kind ifMatch next => exact ⟨le_rfl, id, ⟨_, rfl⟩⟩
  | answer call now kind next reply hcall =>
      have hup : ∀ tag, kind = .acquire → reply = .ok tag →
          (n.lease.done call).epoch ≤ next.epoch := by
        rintro tag rfl rfl
        exact hsafe _ hcall
      have hanswered := LeaseSide.answered_epoch hup now
      exact ⟨hanswered.1, hanswered.2, hsame⟩
  | _ => exact ⟨le_rfl, id, hsame⟩

end LeaseSteps

/-! ## The manifest of single writers -/

/-- The epochs of the versions only go up, and each is one of its author's. -/
structure VersionsOk (leases : List (StoredLease ι)) (versions : List (Version ι)) : Prop where
  mono : Chained emptyManifest Version.record (fun base v => base.epoch ≤ v.record.epoch) versions
  owns : ∀ v ∈ versions, Owns leases v.author v.record.epoch

/-- What a commit in flight says of the epochs. -/
structure PhaseEpochs (leases : List (StoredLease ι)) (versions : List (Version ι)) (i : ι)
    (epoch : Nat) (acquired : Bool) (phase : CommitPhase) : Prop where
  granted : phase = .granted → acquired
  next : ∀ m ∈ phase.next, Owns leases i m.epoch ∧ m.epoch ≤ epoch
  issued : ∀ ifMatch m, phase = .issued ifMatch m →
    ifMatch ≤ versions.length ∧ (manifestAt versions ifMatch).epoch ≤ m.epoch
  single : phase ≠ .reloading ∧ ∀ tag, phase ≠ .reloaded tag

/-- An instance of a single-writer room.  A boot that fails or begins has not acquired a lease. -/
structure EpochsOk (i : ι) (st : Store ι) (n : Instance) : Prop where
  lease : LeaseOk st.leases i n.lease
  unbooted : n.room.boot ≠ .replayed → n.room.boot ≠ .ready →
    n.lease.acquired = false ∧ n.lease.calls = []
  cached : n.commit.cached.epoch ≤ n.lease.epoch
  phase : PhaseEpochs st.leases st.versions i n.lease.epoch n.lease.acquired n.commit.phase
  refreshes : n.room.refreshes = []

section Phases

variable {leases : List (StoredLease ι)} {versions : List (Version ι)} {epoch : Nat}
  {acquired : Bool} {phase : CommitPhase}

theorem PhaseEpochs.waiting : PhaseEpochs leases versions i epoch acquired .waiting :=
  ⟨by simp, by simp [CommitPhase.next], by simp, by simp⟩

theorem PhaseEpochs.mono (h : PhaseEpochs leases versions i epoch acquired phase)
    (leases' : List (StoredLease ι)) (versions' : List (Version ι)) {epoch' : Nat}
    {acquired' : Bool} (hepoch : epoch ≤ epoch') (hacquired : acquired → acquired') :
    PhaseEpochs (leases ++ leases') (versions ++ versions') i epoch' acquired' phase := by
  refine ⟨fun hphase => hacquired (h.granted hphase), fun m hm => ?_, fun ifMatch m hphase => ?_,
    h.single⟩
  · obtain ⟨howns, hle⟩ := h.next m hm
    exact ⟨howns.append leases', hle.trans hepoch⟩
  · obtain ⟨htag, hle⟩ := h.issued ifMatch m hphase
    rw [manifestAt, tagged_append htag, List.length_append]
    exact ⟨Nat.le_add_right_of_le htag, hle⟩

/-- The commit goes on with the manifest that it attempts. -/
theorem PhaseEpochs.later (h : PhaseEpochs leases versions i epoch acquired phase)
    {later : CommitPhase} {m : ManifestRecord} (hm : phase.next = some m)
    (hlater : later.next = some m) (hissued : ∀ ifMatch m, later ≠ .issued ifMatch m) :
    PhaseEpochs leases versions i epoch acquired later := by
  refine ⟨?_, ?_, fun ifMatch m hphase => absurd hphase (hissued ifMatch m), ?_, ?_⟩
  · rintro rfl
    cases hlater
  · rw [hlater, ← hm]
    exact h.next
  · rintro rfl
    cases hlater
  · rintro tag rfl
    cases hlater

end Phases

theorem VersionsOk.append {leases : List (StoredLease ι)} {versions : List (Version ι)}
    (h : VersionsOk leases versions) (more : List (StoredLease ι)) :
    VersionsOk (leases ++ more) versions :=
  ⟨h.mono, fun v hv => (h.owns v hv).append more⟩

/-- What others do leaves an instance in order. -/
theorem EpochsOk.append (h : EpochsOk i st n) (leases : List (StoredLease ι))
    (versions : List (Version ι)) (hleases : st'.leases = st.leases ++ leases)
    (hversions : st'.versions = st.versions ++ versions) : EpochsOk i st' n := by
  refine ⟨?_, h.unbooted, h.cached, ?_, h.refreshes⟩
  · rw [hleases]
    exact h.lease.append leases
  · rw [hleases, hversions]
    exact h.phase.mono leases versions le_rfl id

/-- A step that changes neither the lease nor what the commit holds. -/
theorem EpochsOk.keep (h : EpochsOk i st n) (hleases : st'.leases = st.leases)
    (hversions : st'.versions = st.versions) (hlease : n'.lease = n.lease)
    (hcached : n'.commit.cached = n.commit.cached) (hphase : n'.commit.phase = n.commit.phase)
    (hboot : n'.room.boot = .replayed ∨ n'.room.boot = .ready ∨
      n.room.boot ≠ .replayed ∧ n.room.boot ≠ .ready)
    (hrefreshes : n'.room.refreshes = n.room.refreshes) : EpochsOk i st' n' := by
  refine ⟨?_, ?_, ?_, ?_, hrefreshes.trans h.refreshes⟩
  · rw [hleases, hlease]
    exact h.lease
  · intro hreplayed hready
    rw [hlease]
    rcases hboot with hb | hb | ⟨hb, hb'⟩
    · exact absurd hb hreplayed
    · exact absurd hb hready
    · exact h.unbooted hb hb'
  · rw [hcached, hlease]
    exact h.cached
  · rw [hleases, hversions, hlease, hphase]
    exact h.phase

/-- A lease that the commit of an instance has touched. -/
structure SameLease (l l' : LeaseSide) : Prop where
  tag : l'.tag = l.tag
  epoch : l'.epoch = l.epoch
  acquired : l'.acquired = l.acquired
  calls : l'.calls = l.calls
  held : l'.held → l.held

theorem SameLease.refl (l : LeaseSide) : SameLease l l :=
  ⟨rfl, rfl, rfl, rfl, id⟩

theorem SameLease.fence (l : LeaseSide) : SameLease l l.fence := by
  unfold LeaseSide.fence
  split
  · exact .refl l
  · exact ⟨rfl, rfl, rfl, rfl, fun hh => by cases hh⟩

/-- A step of the commit. -/
theorem EpochsOk.commit (h : EpochsOk i st n) (hleases : st'.leases = st.leases)
    (hlease : SameLease n.lease n'.lease) (hcached : n'.commit.cached.epoch ≤ n.lease.epoch)
    (hphase : PhaseEpochs st.leases st'.versions i n.lease.epoch n.lease.acquired n'.commit.phase)
    (hboot : n'.room.boot = n.room.boot) (hrefreshes : n'.room.refreshes = n.room.refreshes) :
    EpochsOk i st' n' := by
  refine ⟨?_, ?_, ?_, ?_, hrefreshes.trans h.refreshes⟩
  · rw [hleases]
    exact h.lease.quiet (.inl hlease.tag) hlease.epoch hlease.acquired hlease.held
      fun c hc => .inl (hlease.calls ▸ hc)
  · rw [hboot, hlease.acquired, hlease.calls]
    exact h.unbooted
  · rw [hlease.epoch]
    exact hcached
  · rw [hleases, hlease.epoch, hlease.acquired]
    exact hphase

/-! ## The steps of a single writer -/

section Steps

theorem EpochsOk.of_room {a : RoomAct} (h : EpochsOk i st n)
    (hs : RoomStep cfg st n a st' n') :
    st'.leases = st.leases ∧ st'.versions = st.versions ∧ EpochsOk i st' n' := by
  cases hs with
  | load hboot =>
      obtain ⟨hacquired, hcalls⟩ := h.unbooted (by simp [hboot]) (by simp [hboot])
      -- a boot inherits an epoch before the process has one of its own
      refine ⟨rfl, rfl, ⟨h.lease.tag, ?_, fun hacq => ?_, h.lease.held, ?_⟩, fun _ _ =>
        ⟨hacquired, hcalls⟩, le_max_right _ _, ?_, h.refreshes⟩
      · exact h.lease.epoch.trans (le_max_left _ _)
      · cases hacquired.symm.trans hacq
      · simp [LeaseSide.inherit, hcalls]
      · simpa [LeaseSide.inherit] using h.phase.mono [] [] (le_max_left _ _) id
  | stop =>
      exact ⟨rfl, rfl, h.lease.quiet (.inl rfl) rfl rfl id fun _ => .inl, h.unbooted, h.cached,
        h.phase, h.refreshes⟩
  | noSnapshot _ hboot =>
      exact ⟨rfl, rfl, h.keep rfl rfl rfl rfl rfl (.inr (.inr (by simp [hboot]))) rfl⟩
  | snapshot _ _ _ _ _ hboot =>
      exact ⟨rfl, rfl, h.keep rfl rfl rfl rfl rfl (.inr (.inr (by simp [hboot]))) rfl⟩
  | snapshotThrew _ _ _ _ hboot =>
      exact ⟨rfl, rfl, h.keep rfl rfl rfl rfl rfl (.inr (.inr (by simp [hboot]))) rfl⟩
  | segment _ _ _ _ _ hboot =>
      exact ⟨rfl, rfl, h.keep rfl rfl rfl rfl rfl (.inr (.inr (by simp [hboot]))) rfl⟩
  | segmentThrew _ _ _ _ _ _ hboot =>
      exact ⟨rfl, rfl, h.keep rfl rfl rfl rfl rfl (.inr (.inr (by simp [hboot]))) rfl⟩
  | replayed => exact ⟨rfl, rfl, h.keep rfl rfl rfl rfl rfl (.inl rfl) rfl⟩
  | start => exact ⟨rfl, rfl, h.keep rfl rfl rfl rfl rfl (.inr (.inl rfl)) rfl⟩
  | failBoot hcold hready hacquired hcalls =>
      exact ⟨rfl, rfl, h.lease, fun _ _ => ⟨hacquired, hcalls⟩, h.cached, h.phase, h.refreshes⟩
  | _ => exact ⟨rfl, rfl, h.lease, h.unbooted, h.cached, h.phase, h.refreshes⟩

theorem EpochsOk.of_loop {a : LoopAct} (h : EpochsOk i st n) (hs : LoopStep cfg i st n a st' n') :
    st'.leases = st.leases ∧ st'.versions = st.versions ∧ EpochsOk i st' n' := by
  cases hs <;> exact ⟨rfl, rfl, h.lease, h.unbooted, h.cached, h.phase, h.refreshes⟩

/-- A commit takes the epoch of its instance, which is not below that of the manifest it changes. -/
theorem EpochsOk.of_commit {a : CommitAct} (hmode : cfg.mode = .singleWriter)
    (hv : VersionsOk st.leases st.versions) (hsync : Synced cfg i st n) (h : EpochsOk i st n)
    (hs : CommitStep cfg i st n a st' n') :
    st'.leases = st.leases ∧ VersionsOk st'.leases st'.versions ∧ EpochsOk i st' n' := by
  have hnext : ∀ {m : ManifestRecord}, n.commit.phase.next = some m →
      Owns st.leases i m.epoch ∧ m.epoch ≤ n.lease.epoch := fun hm => h.phase.next _ hm
  have hreject : ∀ (u : Update) (notWriter : Bool), EpochsOk i st (n.reject u notWriter) := by
    intro u notWriter
    refine h.commit rfl ?_ ?_ ?_ ?_ ?_ <;> simp only [Instance.reject_lease,
      Instance.reject_commit, Instance.reject_room]
    · exact .refl _
    · exact h.cached
    · exact .waiting
  have hresolve : ∀ (m : Instance) (u : Update) (next cached : ManifestRecord) (tag : Nat),
      SameLease n.lease m.lease → m.room = n.room → cached.epoch ≤ n.lease.epoch →
        EpochsOk i st (m.resolve u next cached tag) := by
    intro m u next cached tag hlease hroom hcached
    refine h.commit rfl ?_ ?_ ?_ ?_ ?_ <;> simp only [Instance.resolve_lease,
      Instance.resolve_commit, Instance.resolve_boot, Instance.resolve_refreshes, hroom]
    · exact hlease
    · exact hcached
    · exact .waiting
  have hlater : ∀ {m : ManifestRecord} {phase : CommitPhase}, n.commit.phase.next = some m →
      phase.next = some m → (∀ ifMatch m', phase ≠ .issued ifMatch m') →
        EpochsOk i st (n.withPhase phase) := fun hm hphase hissued =>
    h.commit rfl (.refl _) h.cached (h.phase.later hm hphase hissued) rfl rfl
  have hphase := h.phase
  cases hs with
  | setMeta => exact ⟨rfl, hv, h.lease, h.unbooted, h.cached, h.phase, h.refreshes⟩
  | startOptimistic hopt => cases hmode.symm.trans hopt
  | start =>
      exact ⟨rfl, hv, h.commit rfl (.refl _) h.cached
        ⟨by simp, by simp [CommitPhase.next], by simp, by simp⟩ rfl rfl⟩
  | grant _ hheld =>
      exact ⟨rfl, hv, h.commit rfl (.refl _) h.cached
        ⟨fun _ => h.lease.held hheld, by simp [CommitPhase.next], by simp, by simp⟩ rfl rfl⟩
  | issue u us hgranted =>
      have howns := h.lease.owns (h.phase.granted hgranted)
      have hepoch : (n.attempts cfg i u).epoch = n.lease.epoch := by
        simp [Instance.attempts, buildNext, hmode]
      refine ⟨rfl, hv, h.commit rfl (.refl _) h.cached ⟨?_, ?_, ?_, ?_⟩ rfl rfl⟩
      · simp
      · rintro m ⟨⟩
        rw [hepoch]
        exact ⟨howns, le_rfl⟩
      · rintro ifMatch m ⟨⟩
        rw [hepoch, ← hsync.cached]
        exact ⟨hsync.cachedTag, h.cached⟩
      · simp
  | put outcome ifMatch next u us reply hissued hchain hmatch =>
      -- the PUT names the version that it was built on, and its epoch is not below that one's
      obtain ⟨howns, hle⟩ := hnext (m := next) (by simp [hissued, CommitPhase.next])
      obtain ⟨-, hbelow⟩ := h.phase.issued _ _ hissued
      subst hmatch
      have hgrown : PhaseEpochs st.leases (st.publish i next u).versions i n.lease.epoch
          n.lease.acquired n.commit.phase := by
        simpa [Store.publish] using h.phase.mono [] [_] le_rfl id
      refine ⟨rfl, ⟨hv.mono.concat hbelow, fun v hmem => ?_⟩, h.commit rfl (.refl _) h.cached
        (hgrown.later (m := next) (by simp [hissued, CommitPhase.next]) rfl (by simp)) rfl rfl⟩
      rcases List.mem_append.1 hmem with hold | hnew
      · exact hv.owns v hold
      · rw [List.mem_singleton.1 hnew]
        exact howns
  | putRefused outcome ifMatch next u us reply hissued =>
      exact ⟨rfl, hv, hlater (m := next) (by simp [hissued, CommitPhase.next]) rfl (by simp)⟩
  | answer next tag u us hreplied =>
      have hle := (hnext (m := next) (by simp [hreplied, CommitPhase.next])).2
      refine ⟨rfl, hv, hresolve _ u next next tag ?_ ?_ hle⟩ <;>
        rw [Instance.committed, if_pos hmode]
      · exact ⟨rfl, rfl, rfl, rfl, id⟩
      · rfl
  | answerConflict next u us hreplied =>
      exact ⟨rfl, hv, hlater (m := next) (by simp [hreplied, CommitPhase.next]) rfl (by simp)⟩
  | answerFailed next u => exact ⟨rfl, hv, hreject u false⟩
  | readBack ok next hconflicted =>
      exact ⟨rfl, hv, hlater (m := next) (by simp [hconflicted, CommitPhase.next]) rfl (by simp)⟩
  | adopt tag next u us hfound _ _ hown =>
      have hle := (hnext (m := next) (by simp [hfound, CommitPhase.next])).2
      exact ⟨rfl, hv, hresolve _ u next _ tag ⟨rfl, rfl, rfl, rfl, id⟩ rfl (hown.2.2.trans_le hle)⟩
  | fence tag next u =>
      refine ⟨rfl, hv, h.commit rfl ?_ ?_ ?_ ?_ ?_⟩ <;> simp only [Instance.reject_lease,
        Instance.reject_commit, Instance.reject_room]
      · exact .fence _
      · exact h.cached
      · exact .waiting
  | giveUp tag next u us _ _ hopt => cases hmode.symm.trans hopt
  | retry tag next u us _ _ hopt => cases hmode.symm.trans hopt
  | reload hreloading => exact absurd hreloading hphase.single.1
  | reloaded tag hreloaded => exact absurd hreloaded (hphase.single.2 tag)
  | refuse notWriter u => exact ⟨rfl, hv, hreject u notWriter⟩

theorem EpochsOk.of_refresh {a : RefreshAct} (hmode : cfg.mode = .singleWriter)
    (h : EpochsOk i st n) (hs : RefreshStep cfg i st n a n') : EpochsOk i st n' := by
  have hnone : ∀ {call : Nat} {r : Refresh}, n.room.refreshes[call]? ≠ some r := by
    simp [h.refreshes]
  cases hs with
  | get hopt => cases hmode.symm.trans hopt
  | answer call tag next hcall => exact absurd hcall hnone
  | load call now m key record log held hcall => exact absurd hcall hnone
  | pass call now m moved key todo hcall => exact absurd hcall hnone
  | segment call now m all moved key todo lines held hcall => exact absurd hcall hnone
  | doneMoved call m hcall => exact absurd hcall hnone
  | _ => exact ⟨h.lease, h.unbooted, h.cached, h.phase, by
      simp [Instance.dropRefresh, Instance.withHeld, h.refreshes]⟩

end Steps

/-- The epochs of a single-writer room. -/
theorem epochs [DecidableEq ι] {G : Guard ι} (hmode : cfg.mode = .singleWriter)
    (hG : ∀ {i st n a}, G i st n a → KeepsEpoch cfg i st n a) {s : FleetState ι}
    (h : FleetReach cfg G s) :
    s.All (fun st => LeasesOk st.leases ∧ VersionsOk st.leases st.versions) EpochsOk := by
  refine FleetReach.invariant synced ⟨.nil, .nil, fun _ hv => by cases hv⟩ ?_ ?_ ?_ h
  · intro i
    refine ⟨⟨le_rfl, le_rfl, ?_, ?_, ?_⟩, fun _ _ => ⟨rfl, rfl⟩, le_rfl, .waiting, rfl⟩
    · exact fun hacq => by cases hacq
    · exact fun hheld => by cases hheld
    · exact fun c hc => by cases hc
  · rintro s i a st' n' ⟨-, hsync⟩ ⟨⟨hl, hv⟩, hall⟩ hg hs
    cases hs with
    | room hs =>
        obtain ⟨hleases, hversions, hi⟩ := (hall i).of_room hs
        rw [hleases, hversions]
        exact ⟨⟨hl, hv⟩, hi⟩
    | lease hboot hs =>
        have hsafe := hG hg
        obtain ⟨hl', hlease⟩ := (hall i).lease.of_step hl hsafe hs
        obtain ⟨hepoch, hacquired, more, rfl⟩ := hs.epoch_le hsafe
        refine ⟨⟨hl', hv.append more⟩, hlease, fun hr hr' => ?_, (hall i).cached.trans hepoch, ?_,
          (hall i).refreshes⟩
        · exact absurd hboot (not_or.2 ⟨hr, hr'⟩)
        · simpa using (hall i).phase.mono more [] hepoch hacquired
    | loop hs =>
        obtain ⟨hleases, hversions, hi⟩ := (hall i).of_loop hs
        rw [hleases, hversions]
        exact ⟨⟨hl, hv⟩, hi⟩
    | commit hs =>
        obtain ⟨hleases, hv', hi⟩ := (hall i).of_commit hmode hv (hsync i) hs
        exact ⟨⟨hleases ▸ hl, hv'⟩, hi⟩
    | refresh hs => exact ⟨⟨hl, hv⟩, (hall i).of_refresh hmode hs⟩
  · rintro s i a st' n' - ⟨-, hall⟩ hg hs j -
    obtain ⟨versions, hversions⟩ := hs.versions_append
    obtain ⟨leases, hleases⟩ := hs.leases_append
    exact (hall j).append leases versions hleases hversions

/-- In a single-writer room the fencing epochs of the leases and of the versions of the manifest
only go up, and the versions of an epoch are those of one instance, which took a lease with it. -/
theorem epochs_fence [DecidableEq ι] (hmode : cfg.mode = .singleWriter) {s : FleetState ι}
    (h : FleetReach cfg (KeepsEpoch cfg) s) :
    (s.shared.leases.Pairwise fun a b => a.record.epoch ≤ b.record.epoch) ∧
      (s.shared.versions.Pairwise fun v w => v.record.epoch ≤ w.record.epoch) ∧
      (∀ v ∈ s.shared.versions, ∀ w ∈ s.shared.versions,
        v.record.epoch = w.record.epoch → v.author = w.author) ∧
      ∀ v ∈ s.shared.versions,
        ∃ l ∈ s.shared.leases, l.author = v.author ∧ l.record.epoch = v.record.epoch := by
  obtain ⟨⟨hl, hv⟩, -⟩ := epochs hmode (G := KeepsEpoch cfg) (fun hg => hg) h
  refine ⟨hl.mono, ?_, fun v hvmem w hwmem heq => ?_, hv.owns⟩
  · exact hv.mono.pairwise (r := fun a b : ManifestRecord => a.epoch ≤ b.epoch)
      fun _ _ _ => le_trans
  · exact hl.owns_inj (hv.owns v hvmem) (heq ▸ hv.owns w hwmem)

/-- One instance after the other. -/
theorem epochs_fence_takeover :
    ∃ s : FleetState Bool,
      s.shared.versions.map (fun v => (v.author, v.record.epoch)) = [(true, 1), (false, 2)] ∧
      (s.shared.leases.Pairwise fun a b => a.record.epoch ≤ b.record.epoch) ∧
      ∀ v ∈ s.shared.versions, ∀ w ∈ s.shared.versions,
        v.record.epoch = w.record.epoch → v.author = w.author := by
  let cfg := twoInstances .singleWriter
  let events := bootEvents true 0 ++ leaseEvents true 0 ++ [(true, .commit (.setMeta "k" "v"))]
    ++ issueEvents true ++ [(true, .commit (.put .ok))]
    ++ bootEvents false 0 ++ leaseEvents false 20 ++ [(false, .commit (.setMeta "k" "w"))]
    ++ issueEvents false ++ [(false, .commit (.put .ok))]
  have hrun : (guardedRun cfg (KeepsEpoch cfg) events).map
      (fun s => s.shared.versions.map fun v => (v.author, v.record.epoch)) =
        some [(true, 1), (false, 2)] := by
    decide +kernel
  obtain ⟨s, hreach, hversions⟩ := FleetReach.of_guardedRun hrun
  have hfence := epochs_fence rfl hreach
  exact ⟨s, hversions, hfence.1, hfence.2.2.1⟩

end Fleet
end ObjectStorage
end Reflectdb
