import Reflectdb.Server.OpProcessor

/-!
# Exactly once — an acked op is written once

An op id has one history: reserved by one `handleOps` call, processed and persisted by that call,
and then accepted or failed.  The invariant below ties that history (`OpState.fate`) to the
reservations a call holds, to the op log and to the answers.  It gives at-most-once for every run,
and exactly-once for the runs in which an op id found reserved had been accepted.
-/

namespace Reflectdb
namespace Server

open Core Client

/-! ## The property -/

/-- The op's query is consistent or eager-durable: its effect is written before it is accepted. -/
def OpConfig.persistsBeforeAck (cfg : OpConfig) (op : ClientOp) : Prop :=
  ∃ options, cfg.queries op.table = some options ∧ options.broadcast ≠ .eager

/-- Every acked op is in the log once, and no failed op id is acked. -/
def ExactlyOnce (cfg : OpConfig) (s : OpState) : Prop :=
  (∀ op ∈ s.acked, cfg.persistsBeforeAck op →
    s.storage.log.filter (fun op' => op'.id = op.id) = [op]) ∧
  ∀ op ∈ s.acked, s.fate op.id ≠ .failed

/-- The op that the head of the loop is about to take for a replay. -/
def OpState.replayed (cfg : OpConfig) (s : OpState) (r : Nat) : Option ClientOp :=
  match s.runs r with
  | none => none
  | some run =>
    match run.phase, run.ops with
    | .looping, op :: _ =>
      if op.batch.bind run.failedBatchIds.lookup = none ∧ (cfg.reservable op).isSome ∧
          op.id ∉ run.freshOpIds then
        some op
      else none
    | _, _ => none

/-- An op taken for a replay was accepted by the call that reserved its id. -/
def ReplayAccepted (cfg : OpConfig) (s : OpState) : OpEvent → Prop
  | .next r => ∀ op ∈ s.replayed cfg r, s.fate op.id = .accepted
  | _ => True

instance (cfg : OpConfig) (s : OpState) : DecidablePred (ReplayAccepted cfg s)
  | .next _ => inferInstanceAs (Decidable (∀ op ∈ _, _))
  | .create .. | .clearInFlight .. | .push .. | .send .. | .receive .. | .reserve .. | .flush ..
  | .attempt .. | .settle .. | .answer .. | .deliver .. => inferInstanceAs (Decidable True)

/-! ## Fates -/

namespace Fate

/-- The fates of the ids that may be in the log. -/
def mayBeLogged : Fate → Prop
  | .persisted _ => True
  | .accepted => True
  | .failed => True
  | _ => False

/-- The fates of the ids that are in the log, for a query that persists before it acks. -/
def isLogged : Fate → Prop
  | .persisted _ => True
  | .accepted => True
  | _ => False

end Fate

/-- The op a call is processing, and the fate its id has meanwhile. -/
def Phase.current (r : Nat) : Phase → Option (ClientOp × Fate)
  | .flushing op => some (op, .processing r)
  | .attempting op _ => some (op, .processing r)
  | .settling op => some (op, .persisted r)
  | _ => none

/-- The call may still take ops. -/
def Phase.live : Phase → Prop
  | .broadcasting => False
  | .answered => False
  | .threw => False
  | _ => True

/-- The ids a call has still to reserve. -/
def Phase.toReserve : Phase → List String
  | .reserving ids => ids
  | _ => []

/-! ## The invariant

With `strict`, the invariant also says that an op a call has accepted was accepted by the call that
reserved its id; this half needs `ReplayAccepted`. -/

/-- What one call knows: the ids in `freshOpIds` are its reservations. -/
structure RunInv (strict : Prop) (s : OpState) (r : Nat) (run : OpsRun) : Prop where
  ops_created : ∀ op ∈ run.ops, op ∈ s.created
  toReserve : ∀ id ∈ run.phase.toReserve, id ∈ s.created.map (·.id)
  fresh : run.phase.live → ∀ id ∈ run.freshOpIds, s.fate id = .reserved r
  current : ∀ op fate, run.phase.current r = some (op, fate) →
    op ∈ s.created ∧ s.fate op.id = fate
  accepted : strict → ∀ op ∈ run.accepted, op ∈ s.created ∧ s.fate op.id = .accepted

/-- The op log against the fates. -/
structure LogInv (cfg : OpConfig) (s : OpState) : Prop where
  created : ∀ op ∈ s.storage.log, op ∈ s.created
  nodup : (s.storage.log.map (·.id)).Nodup
  fate : ∀ op ∈ s.storage.log, (s.fate op.id).mayBeLogged
  logged : ∀ op ∈ s.created, cfg.persistsBeforeAck op → (s.fate op.id).isLogged →
    op ∈ s.storage.log

structure OpInv (cfg : OpConfig) (strict : Prop) (s : OpState) : Prop where
  created_nodup : (s.created.map (·.id)).Nodup
  pending_created : ∀ c, ∀ op ∈ (s.clients c).pendingOps, op ∈ s.created
  chunks_created : ∀ c, ∀ chunk ∈ (s.clients c).chunks, ∀ op ∈ chunk, op ∈ s.created
  messages_created : ∀ m ∈ s.messages, ∀ op ∈ m.2, op ∈ s.created
  reserved_created : ∀ id ∈ s.storage.reserved, id ∈ s.created.map (·.id)
  unseen_iff : ∀ id, s.fate id = .unseen ↔ id ∉ s.storage.reserved
  log : LogInv cfg s
  runs : ∀ r run, s.runs r = some run → RunInv strict s r run
  acked : strict → ∀ op ∈ s.acked, op ∈ s.created ∧ s.fate op.id = .accepted

variable {cfg : OpConfig} {strict : Prop} {s s' : OpState} {r : Nat} {run run' : OpsRun}
  {op : ClientOp}

theorem opInv_start (cfg : OpConfig) (strict : Prop) : OpInv cfg strict OpState.start where
  created_nodup := by simp [OpState.start]
  pending_created := by simp [OpState.start, PushState.empty]
  chunks_created := by simp [OpState.start, PushState.empty]
  messages_created := by simp [OpState.start]
  reserved_created := by simp [OpState.start]
  unseen_iff := by simp [OpState.start]
  log := by constructor <;> simp [OpState.start]
  runs := by simp [OpState.start]
  acked := by simp [OpState.start]

/-! ## What a step leaves alone -/

theorem Phase.holder_of_current {phase : Phase} {fate : Fate}
    (h : phase.current r = some (op, fate)) : fate.holder = some r := by
  cases phase <;> simp only [Phase.current, Option.some.injEq, Prod.mk.injEq, reduceCtorEq] at h
  all_goals
    rw [← h.2]
    rfl

theorem RunInv.mono (h : RunInv strict s r run) (hc : ∀ op ∈ s.created, op ∈ s'.created)
    (hheld : ∀ id, (s.fate id).holder = some r → s'.fate id = s.fate id)
    (hacc : ∀ id, s.fate id = .accepted → s'.fate id = .accepted) : RunInv strict s' r run := by
  refine ⟨fun op hop => hc op (h.ops_created op hop), ?_, ?_, ?_, ?_⟩
  · exact fun id hid => List.map_subset _ hc (h.toReserve id hid)
  · intro hlive id hid
    have hfate : s.fate id = .reserved r := h.fresh hlive id hid
    rw [hheld id (by rw [hfate]; rfl), hfate]
  · intro op fate hcur
    rcases h.current op fate hcur with ⟨hop, hfate⟩
    have : (s.fate op.id).holder = some r := by
      rw [hfate]
      exact Phase.holder_of_current hcur
    exact ⟨hc op hop, (hheld op.id this).trans hfate⟩
  · intro hs op hop
    rcases h.accepted hs op hop with ⟨hcr, hfate⟩
    exact ⟨hc op hcr, hacc op.id hfate⟩

/-- The log is not written: fates move only so that both halves of `LogInv` stay. -/
theorem LogInv.keep (h : LogInv cfg s)
    (hlog : s'.storage.log = s.storage.log) (hc : s'.created = s.created)
    (hmay : ∀ id, (s.fate id).mayBeLogged → (s'.fate id).mayBeLogged)
    (his : ∀ op ∈ s.created, cfg.persistsBeforeAck op → (s'.fate op.id).isLogged →
      (s.fate op.id).isLogged) : LogInv cfg s' := by
  refine ⟨?_, ?_, ?_, ?_⟩
  · simpa [hlog, hc] using h.created
  · simpa [hlog] using h.nodup
  · intro op hop
    exact hmay _ (h.fate op (by simpa [hlog] using hop))
  · intro op hop hp hl
    have hop' : op ∈ s.created := by simpa [hc] using hop
    have : op ∈ s.storage.log := h.logged op hop' hp (his op hop' hp hl)
    simpa [hlog] using this

/-- The log is written once, by the call that is processing the op. -/
theorem LogInv.write (h : LogInv cfg s) (hnodup : (s.created.map (·.id)).Nodup)
    (hop : op ∈ s.created) (hcur : s.fate op.id = .processing r)
    (hlog : s'.storage.log = s.storage.log ++ [op]) (hc : s'.created = s.created)
    (hmay : ∀ id, (s.fate id).mayBeLogged → (s'.fate id).mayBeLogged)
    (hop' : (s'.fate op.id).mayBeLogged)
    (his : ∀ id, id ≠ op.id → (s'.fate id).isLogged → (s.fate id).isLogged) : LogInv cfg s' := by
  have hnot : op.id ∉ s.storage.log.map (·.id) := by
    intro hmem
    rcases List.mem_map.1 hmem with ⟨op₁, hop₁, hid⟩
    have hmay₁ : (s.fate op₁.id).mayBeLogged := h.fate op₁ hop₁
    rw [hid, hcur] at hmay₁
    exact hmay₁
  refine ⟨?_, ?_, ?_, ?_⟩
  · intro op₁ hop₁
    rw [hlog] at hop₁
    rw [hc]
    rcases List.mem_append.1 hop₁ with h₁ | h₁
    · exact h.created op₁ h₁
    · rw [List.mem_singleton.1 h₁]
      exact hop
  · rw [hlog, List.map_append, List.nodup_append]
    refine ⟨h.nodup, by simp, ?_⟩
    intro a ha b hb hab
    have hb' : b = op.id := by simpa using hb
    exact hnot (by rwa [← hb', ← hab])
  · intro op₁ hop₁
    rw [hlog] at hop₁
    rcases List.mem_append.1 hop₁ with h₁ | h₁
    · exact hmay _ (h.fate op₁ h₁)
    · rw [List.mem_singleton.1 h₁]
      exact hop'
  · intro op₁ hop₁ hp hl
    rw [hc] at hop₁
    rw [hlog]
    by_cases hid : op₁.id = op.id
    · have : op₁ = op := List.inj_on_of_nodup_map hnodup hop₁ hop hid
      simp [this]
    · exact List.mem_append_left _ (h.logged op₁ hop₁ hp (his _ hid hl))

/-- A step of call `r` keeps the invariant if it keeps the call's own part of it and changes the
fates of the ids it holds only. -/
theorem OpInv.run_step (hi : OpInv cfg strict s) (hclients : s'.clients = s.clients)
    (hmessages : ∀ m ∈ s'.messages, m ∈ s.messages) (hcreated : s'.created = s.created)
    (hruns : s'.runs = Function.update s.runs r (some run'))
    (hfate : ∀ id, s'.fate id = s.fate id ∨ (s.fate id).holder = some r)
    (hreserved : s'.storage.reserved = s.storage.reserved)
    (hunseen : ∀ id, s'.fate id = .unseen ↔ id ∉ s'.storage.reserved)
    (hlog : LogInv cfg s') (hrun : RunInv strict s' r run')
    (hacked : strict → ∀ op ∈ s'.acked, op ∈ s.created ∧ s.fate op.id = .accepted) :
    OpInv cfg strict s' := by
  have hacc : ∀ id, s.fate id = .accepted → s'.fate id = .accepted := by
    intro id hid
    rcases hfate id with h | h
    · rw [h, hid]
    · simp [hid, Fate.holder] at h
  exact {
    created_nodup := by simpa [hcreated] using hi.created_nodup
    pending_created := by simpa [hcreated, hclients] using hi.pending_created
    chunks_created := by simpa [hcreated, hclients] using hi.chunks_created
    messages_created := by
      rw [hcreated]
      exact fun m hm => hi.messages_created m (hmessages m hm)
    reserved_created := by simpa [hreserved, hcreated] using hi.reserved_created
    unseen_iff := hunseen
    log := hlog
    runs := by
      intro r₁ run₁ h₁
      rw [hruns] at h₁
      by_cases hr : r₁ = r
      · subst hr
        rw [Function.update_self] at h₁
        cases h₁
        exact hrun
      · rw [Function.update_of_ne hr] at h₁
        refine (hi.runs r₁ run₁ h₁).mono (by simp [hcreated]) ?_ hacc
        intro id hheld
        rcases hfate id with h | h
        · exact h
        · exact absurd (Option.some.inj (hheld.symm.trans h)) hr
    acked := by
      intro hs op hop
      rcases hacked hs op hop with ⟨hcr, hf⟩
      exact ⟨by rwa [hcreated], hacc _ hf⟩ }

/-! ## The end of a call -/

theorem release_held {id : String} (h : (s.fate id).holder = some r) :
    (s.release r).fate id = .failed :=
  if_pos h

theorem release_other {id : String} (h : (s.fate id).holder ≠ some r) :
    (s.release r).fate id = s.fate id :=
  if_neg h

theorem release_unseen (id : String) : (s.release r).fate id = .unseen ↔ s.fate id = .unseen := by
  by_cases h : (s.fate id).holder = some r
  · rw [release_held h]
    constructor
    · intro hf
      cases hf
    · intro hf
      simp [hf, Fate.holder] at h
  · rw [release_other h]

theorem release_mayBeLogged {id : String} (h : (s.fate id).mayBeLogged) :
    ((s.release r).fate id).mayBeLogged := by
  by_cases hh : (s.fate id).holder = some r
  · rw [release_held hh]
    trivial
  · rwa [release_other hh]

theorem isLogged_of_release {id : String} (h : ((s.release r).fate id).isLogged) :
    (s.fate id).isLogged := by
  by_cases hh : (s.fate id).holder = some r
  · rw [release_held hh] at h
    exact h.elim
  · rwa [release_other hh] at h

theorem LogInv.release (h : LogInv cfg s) : LogInv cfg (s.release r) :=
  h.keep rfl rfl (fun _ => release_mayBeLogged) (fun _ _ _ => isLogged_of_release)

theorem RunInv.release (h : RunInv strict s r run) (hops : ∀ op ∈ run'.ops, op ∈ run.ops)
    (hres : run'.phase.toReserve = []) (hlive : ¬ run'.phase.live)
    (hcur : run'.phase.current r = none) (hacc : run'.accepted = run.accepted) :
    RunInv strict (s.release r) r run' := by
  refine ⟨fun op hop => h.ops_created op (hops op hop), by simp [hres],
    fun hl => absurd hl hlive, ?_, ?_⟩
  · intro op fate hcur'
    simp [hcur] at hcur'
  · intro hs op hop
    rcases h.accepted hs op (by rwa [← hacc]) with ⟨hcr, hf⟩
    exact ⟨hcr, (release_other (by simp [hf, Fate.holder])).trans hf⟩

/-- The call ends without accepting what it still holds. -/
theorem OpInv.endRun (hi : OpInv cfg strict s) (hrun : RunInv strict s r run)
    (hops : ∀ op ∈ run'.ops, op ∈ run.ops) (hres : run'.phase.toReserve = [])
    (hlive : ¬ run'.phase.live) (hcur : run'.phase.current r = none)
    (hacc : run'.accepted = run.accepted) : OpInv cfg strict ((s.setRun r run').release r) := by
  refine hi.run_step rfl (fun _ h => h) rfl rfl ?_ rfl ?_ ?_ ?_ hi.acked
  · intro id
    by_cases h : (s.fate id).holder = some r
    · exact .inr h
    · exact .inl (release_other h)
  · intro id
    exact (release_unseen id).trans (hi.unseen_iff id)
  · exact LogInv.release (hi.log.keep rfl rfl (fun _ h => h) (fun _ _ _ h => h))
  · exact (hrun.release hops hres hlive hcur hacc).mono (fun _ h => h) (fun _ _ => rfl)
      (fun _ h => h)

theorem OpInv.throwRun (hi : OpInv cfg strict s) (hrun : RunInv strict s r run) :
    OpInv cfg strict (s.throwRun r run) :=
  hi.endRun hrun (fun _ h => h) rfl (fun h => h) rfl rfl

/-- The storage call throws after its effect. -/
theorem OpInv.writeThrew (hi : OpInv cfg strict s) (hrun : RunInv strict s r run)
    (hop : op ∈ s.created) (hcur : s.fate op.id = .processing r) (tookEffect : Bool) :
    OpInv cfg strict (s.writeThrew r run op tookEffect) := by
  cases tookEffect with
  | false => exact hi.throwRun hrun
  | true =>
      have hheld : (s.fate op.id).holder = some r := by rw [hcur]; rfl
      have hlog : LogInv cfg (((s.logOp op).setRun r { run with phase := .threw }).release r) := by
        refine hi.log.write hi.created_nodup hop hcur rfl rfl ?_ ?_ ?_
        · exact fun id h => release_mayBeLogged h
        · have : (s.release r).fate op.id = .failed := release_held hheld
          exact this ▸ trivial
        · exact fun id _ h => isLogged_of_release h
      have hend : OpInv cfg strict (s.throwRun r run) := hi.throwRun hrun
      refine hi.run_step rfl (fun _ h => h) rfl rfl ?_ rfl hend.unseen_iff hlog ?_ hi.acked
      · intro id
        by_cases h : (s.fate id).holder = some r
        · exact .inr h
        · exact .inl (release_other h)
      · have hthrew : RunInv strict (s.release r) r { run with phase := .threw } :=
          hrun.release (fun _ h => h) rfl (fun h => h) rfl rfl
        exact hthrew.mono (fun _ h => h) (fun _ _ => rfl) (fun _ h => h)

/-! ## The progress of a call -/

/-- The call moves on without touching the fates. -/
theorem OpInv.moveRun (hi : OpInv cfg strict s) (hrun : RunInv strict s r run') :
    OpInv cfg strict (s.setRun r run') :=
  hi.run_step rfl (fun _ h => h) rfl rfl (fun _ => .inl rfl) rfl hi.unseen_iff
    (hi.log.keep rfl rfl (fun _ h => h) (fun _ _ _ h => h))
    (hrun.mono (fun _ h => h) (fun _ _ => rfl) (fun _ h => h)) hi.acked

theorem setFate_self (id : String) (f : Fate) : (s.setFate id f).fate id = f :=
  Function.update_self ..

theorem setFate_of_ne {id id' : String} (f : Fate) (h : id' ≠ id) :
    (s.setFate id f).fate id' = s.fate id' :=
  Function.update_of_ne h ..

/-- The ids still reserved are not the one being processed. -/
theorem RunInv.fresh_ne (h : RunInv strict s r run) (hlive : run.phase.live) {f : Fate}
    (hcur : s.fate op.id = f) (hf : f ≠ .reserved r) :
    ∀ id ∈ run.freshOpIds, id ∈ run.freshOpIds ∧ id ≠ op.id := by
  intro id hid
  refine ⟨hid, fun he => hf ?_⟩
  rw [← hcur, ← he]
  exact h.fresh hlive id hid

/-- The call's own part when the fate of its op changes. -/
theorem RunInv.advance (h : RunInv strict s r run) (hlive : run.phase.live) {f : Fate}
    (hop : op ∈ s.created) (hheld : (s.fate op.id).holder = some r)
    (hops : ∀ op ∈ run'.ops, op ∈ run.ops)
    (hres : run'.phase.toReserve = [])
    (hfresh : ∀ id ∈ run'.freshOpIds, id ∈ run.freshOpIds ∧ id ≠ op.id)
    (hcur : ∀ op' f', run'.phase.current r = some (op', f') → op' = op ∧ f' = f)
    (hacc : ∀ op' ∈ run'.accepted, op' ∈ run.accepted ∨ op' = op ∧ f = .accepted) :
    RunInv strict (s.setFate op.id f) r run' := by
  refine ⟨fun op hop => h.ops_created op (hops op hop), by simp [hres], ?_, ?_, ?_⟩
  · intro _ id hid
    rcases hfresh id hid with ⟨hold, hne⟩
    exact (setFate_of_ne f hne).trans (h.fresh hlive id hold)
  · intro op' f' hcur'
    rcases hcur op' f' hcur' with ⟨rfl, rfl⟩
    exact ⟨hop, setFate_self op'.id f'⟩
  · intro hs op' hop'
    rcases hacc op' hop' with hold | ⟨rfl, rfl⟩
    · rcases h.accepted hs op' hold with ⟨hcr, hf⟩
      have hne : op'.id ≠ op.id := by
        intro he
        rw [← he, hf] at hheld
        cases hheld
      exact ⟨hcr, (setFate_of_ne f hne).trans hf⟩
    · exact ⟨hop, setFate_self op'.id _⟩

/-- The fate of an id that the call holds changes; `storage` is the storage afterwards. -/
theorem OpInv.setFate_step (hi : OpInv cfg strict s) {f : Fate}
    (hclients : s'.clients = s.clients) (hmessages : s'.messages = s.messages)
    (hcreated : s'.created = s.created) (hacked : s'.acked = s.acked)
    (hreserved : s'.storage.reserved = s.storage.reserved)
    (hruns : s'.runs = Function.update s.runs r (some run'))
    (hfate : s'.fate = (s.setFate op.id f).fate)
    (hheld : (s.fate op.id).holder = some r) (hf : f ≠ .unseen) (hlog : LogInv cfg s')
    (hrun : RunInv strict (s.setFate op.id f) r run') : OpInv cfg strict s' := by
  refine hi.run_step hclients (by simp [hmessages]) hcreated hruns ?_ hreserved ?_ hlog ?_ ?_
  · intro id
    rw [hfate]
    by_cases h : id = op.id
    · exact .inr (h ▸ hheld)
    · exact .inl (setFate_of_ne f h)
  · intro id
    rw [hreserved, hfate, ← hi.unseen_iff id]
    by_cases h : id = op.id
    · rw [h, setFate_self]
      constructor
      · exact fun he => absurd he hf
      · intro he
        simp [he, Fate.holder] at hheld
    · rw [setFate_of_ne f h]
  · exact hrun.mono (by simp [hcreated]) (fun _ _ => congrFun hfate _)
      (fun id h => (congrFun hfate id).trans h)
  · rw [hacked]
    exact hi.acked

/-- The op moves on without a write to the log. -/
theorem OpInv.advance (hi : OpInv cfg strict s) {f : Fate} (hop : op ∈ s.created)
    (hheld : (s.fate op.id).holder = some r) (hf : f ≠ .unseen)
    (hmay : (s.fate op.id).mayBeLogged → f.mayBeLogged)
    (his : cfg.persistsBeforeAck op → f.isLogged → (s.fate op.id).isLogged)
    (hrun : RunInv strict (s.setFate op.id f) r run') :
    OpInv cfg strict ((s.setRun r run').setFate op.id f) := by
  refine hi.setFate_step rfl rfl rfl rfl rfl rfl rfl hheld hf ?_ hrun
  refine hi.log.keep rfl rfl ?_ ?_
  · intro id h
    by_cases he : id = op.id
    · subst he
      exact (setFate_self (s := s) op.id f).symm ▸ hmay h
    · exact (setFate_of_ne f he).symm ▸ h
  · intro op₁ hop₁ hp h
    by_cases he : op₁.id = op.id
    · have : op₁ = op := List.inj_on_of_nodup_map hi.created_nodup hop₁ hop he
      subst this
      exact his hp ((setFate_self op₁.id f) ▸ h)
    · exact (setFate_of_ne f he) ▸ h

/-- The op moves on with its write to the log. -/
theorem OpInv.advanceLogged (hi : OpInv cfg strict s) {f : Fate} (hop : op ∈ s.created)
    (hcur : s.fate op.id = .processing r) (hf : f.mayBeLogged)
    (hrun : RunInv strict (s.setFate op.id f) r run') :
    OpInv cfg strict (((s.logOp op).setRun r run').setFate op.id f) := by
  have hheld : (s.fate op.id).holder = some r := by rw [hcur]; rfl
  have hne : f ≠ .unseen := by
    rintro rfl
    exact hf
  refine hi.setFate_step rfl rfl rfl rfl rfl rfl rfl hheld hne ?_ hrun
  refine hi.log.write hi.created_nodup hop hcur rfl rfl ?_ ?_ ?_
  · intro id h
    by_cases he : id = op.id
    · subst he
      exact (setFate_self (s := s) op.id f).symm ▸ hf
    · exact (setFate_of_ne f he).symm ▸ h
  · exact (setFate_self (s := s) op.id f).symm ▸ hf
  · intro id he h
    exact (setFate_of_ne f he) ▸ h

/-! ## Steps of the server -/

/-- The replay table takes ids that no call has seen. -/
theorem OpInv.reserve (hi : OpInv cfg strict s) {kept : List String}
    (hnew : ∀ id ∈ kept, id ∉ s.storage.reserved)
    (hids : ∀ id ∈ kept, id ∈ s.created.map (·.id)) : OpInv cfg strict (s.reserve r kept) := by
  have hunseen : ∀ id ∈ kept, s.fate id = .unseen := fun id hid =>
    (hi.unseen_iff id).2 (hnew id hid)
  have hold : ∀ id, s.fate id ≠ .unseen → (s.reserve r kept).fate id = s.fate id := by
    intro id hid
    exact if_neg fun hk => hid (hunseen id hk)
  have hkept : ∀ id ∈ kept, (s.reserve r kept).fate id = .reserved r := fun id hid => if_pos hid
  refine { hi with reserved_created := ?_, unseen_iff := ?_, log := ?_, runs := ?_, acked := ?_ }
  · intro id hid
    rcases List.mem_append.1 hid with hid | hid
    · exact hi.reserved_created id hid
    · exact hids id hid
  · intro id
    by_cases hid : id ∈ kept
    · simp [OpState.reserve, hid]
    · have : (s.reserve r kept).fate id = s.fate id := if_neg hid
      rw [this, hi.unseen_iff id]
      simp [OpState.reserve, hid]
  · refine hi.log.keep rfl rfl ?_ ?_
    · intro id h
      rw [hold id]
      · exact h
      · intro hu
        rw [hu] at h
        exact h
    · intro op _ _ h
      by_cases hid : op.id ∈ kept
      · rw [hkept op.id hid] at h
        exact h.elim
      · have : (s.reserve r kept).fate op.id = s.fate op.id := if_neg hid
        rwa [this] at h
  · intro r₁ run₁ h₁
    refine (hi.runs r₁ run₁ h₁).mono (fun _ h => h) ?_ ?_
    · intro id hid
      refine hold id fun hu => ?_
      simp [hu, Fate.holder] at hid
    · intro id hid
      rw [hold id (by simp [hid]), hid]
  · intro hs op hop
    rcases hi.acked hs op hop with ⟨hcr, hf⟩
    exact ⟨hcr, (hold op.id (by simp [hf])).trans hf⟩

theorem mem_of_mem_reserveCall {ids : List String} {id : String}
    (h : id ∈ (cfg.reserveCall ids).1 ∨ id ∈ (cfg.reserveCall ids).2) : id ∈ ids := by
  unfold OpConfig.reserveCall at h
  split at h
  · simpa using h
  · rcases h with h | h
    · exact List.mem_of_mem_take h
    · exact List.mem_of_mem_drop h

theorem opInv_stepReserve (hi : OpInv cfg strict s) {outcome : ReserveOutcome}
    (h : stepReserve cfg s r outcome = some s') : OpInv cfg strict s' := by
  unfold stepReserve at h
  split at h
  · cases h
  rename_i run hrun
  split at h
  case h_2 => cases h
  rename_i ids hphase
  have hlive : run.phase.live := by
    rw [hphase]
    trivial
  have hids : ∀ id ∈ ids, id ∈ s.created.map (·.id) := by
    have h := (hi.runs r run hrun).toReserve
    rwa [hphase] at h
  split at h
  · cases h
    have hres : OpInv cfg strict (s.reserve r
        ((cfg.reserveCall ids).1.filter (· ∉ s.storage.reserved))) := by
      refine hi.reserve (fun id hid => by simpa using (List.mem_filter.1 hid).2) ?_
      exact fun id hid => hids id (mem_of_mem_reserveCall (.inl (List.mem_filter.1 hid).1))
    have hr : RunInv strict _ r run := hres.runs r run hrun
    refine hres.moveRun ⟨hr.ops_created, ?_, ?_, ?_, hr.accepted⟩
    · intro id hid
      dsimp only at hid
      split at hid
      · cases hid
      · exact hids id (mem_of_mem_reserveCall (.inr hid))
    · intro _ id hid
      rcases List.mem_append.1 hid with hid | hid
      · exact hr.fresh hlive id hid
      · exact if_pos hid
    · intro op f hcur
      dsimp only at hcur
      split at hcur <;> cases hcur
  · rename_i kept
    dsimp only at h
    split at h
    · rename_i hkept
      cases h
      have hres : OpInv cfg strict (s.reserve r kept) :=
        hi.reserve (fun id hid => (hkept id hid).2)
          (fun id hid => hids id (mem_of_mem_reserveCall (.inl (hkept id hid).1)))
      exact hres.throwRun (hres.runs r run hrun)
    · cases h

/-- An op that nothing was reserved for, or that is skipped, is only recorded. -/
theorem RunInv.record (h : RunInv strict s r run) (hphase : run.phase = .looping)
    (hops : ∀ op ∈ run'.ops, op ∈ run.ops) (hfresh : run'.freshOpIds = run.freshOpIds)
    (hphase' : run'.phase = .looping) (hacc : run'.accepted = run.accepted) :
    RunInv strict s r run' := by
  refine ⟨fun op hop => h.ops_created op (hops op hop), ?_, ?_, ?_, ?_⟩
  · rw [hphase']
    exact fun _ h => nomatch h
  · intro _
    rw [hfresh]
    exact h.fresh (by rw [hphase]; trivial)
  · intro op f hcur
    rw [hphase'] at hcur
    cases hcur
  · rw [hacc]
    exact h.accepted

theorem opInv_processClientOp (hi : OpInv cfg strict s) (hrun : s.runs r = some run)
    (hphase : run.phase = .looping) {rest : List ClientOp} (hops : run.ops = op :: rest)
    (hreplay : strict → (cfg.reservable op).isSome → op.id ∉ run.freshOpIds →
      s.fate op.id = .accepted) :
    OpInv cfg strict (processClientOp cfg s r { run with ops := rest } op) := by
  have hr : RunInv strict s r run := hi.runs r run hrun
  have hop : op ∈ s.created := hr.ops_created op (by simp [hops])
  have hlive : run.phase.live := by
    rw [hphase]
    trivial
  have hrest : ∀ op' ∈ rest, op' ∈ run.ops := by
    intro op' hop'
    simp [hops, hop']
  unfold processClientOp
  split
  · exact hi.moveRun (hr.record hphase hrest rfl rfl rfl)
  · rename_i options hq
    split
    · exact hi.moveRun (hr.record hphase hrest rfl rfl rfl)
    · rename_i hmutate
      split
      · rename_i hfresh
        have hres : s.fate op.id = .reserved r := hr.fresh hlive op.id hfresh
        refine hi.advance hop (by rw [hres]; rfl) (by simp) (by simp [hres, Fate.mayBeLogged])
          (by simp [Fate.isLogged]) ?_
        refine hr.advance hlive hop (by rw [hres]; rfl) hrest ?_ ?_ ?_ (fun _ h => .inl h)
        · dsimp only
          split <;> rfl
        · intro id hid
          simpa using hid
        · intro op' f' hcur
          dsimp only at hcur
          split at hcur <;> cases hcur <;> exact ⟨rfl, rfl⟩
      · rename_i hfresh
        refine hi.moveRun ⟨?_, fun _ h => (nomatch h), fun _ => hr.fresh hlive,
          fun _ _ h => (nomatch h), ?_⟩
        · exact fun op' hop' => hr.ops_created op' (hrest op' hop')
        · intro hs op' hop'
          rcases List.mem_append.1 hop' with hop' | hop'
          · exact hr.accepted hs op' hop'
          · have hmut : (cfg.reservable op).isSome := by
              simp only [Bool.not_eq_true, Bool.not_eq_false] at hmutate
              simp [OpConfig.reservable, hq, hmutate]
            rw [List.mem_singleton.1 hop']
            exact ⟨hop, hreplay hs hmut hfresh⟩

theorem opInv_stepNext (hi : OpInv cfg strict s) (hg : strict → ReplayAccepted cfg s (.next r))
    (h : stepNext cfg s r = some s') : OpInv cfg strict s' := by
  unfold stepNext at h
  split at h
  · cases h
  rename_i run hrun
  have hr : RunInv strict s r run := hi.runs r run hrun
  split at h
  case h_2 => cases h
  rename_i hphase
  split at h
  · cases h
    exact hi.endRun hr (fun _ h => h) rfl (fun h => h) rfl rfl
  · rename_i op rest hops
    dsimp only at h
    split at h
    · cases h
      refine hi.moveRun (hr.record hphase ?_ rfl hphase rfl)
      intro op' hop'
      simp only [hops]
      exact .tail _ hop'
    · rename_i hbatch
      cases h
      refine opInv_processClientOp hi hrun hphase hops ?_
      intro hs hmut hfresh
      refine hg hs op ?_
      simp [OpState.replayed, hrun, hphase, hops, hbatch, hmut, hfresh]

theorem opInv_stepFlush (hi : OpInv cfg strict s) {ok : Bool}
    (h : stepFlush s r ok = some s') : OpInv cfg strict s' := by
  unfold stepFlush at h
  split at h
  · cases h
  rename_i run hrun
  have hr : RunInv strict s r run := hi.runs r run hrun
  split at h
  case h_2 => cases h
  rename_i op hphase
  split at h
  · cases h
    refine hi.moveRun ⟨hr.ops_created, fun _ h => (nomatch h),
      fun _ => hr.fresh (by rw [hphase]; trivial), ?_, hr.accepted⟩
    intro op' f hcur
    exact hr.current op' f (by rw [hphase]; exact hcur)
  · split at h
    · cases h
      exact hi.throwRun hr
    · cases h

/-- The op a call has under way is rejected. -/
theorem OpInv.rejectOp (hi : OpInv cfg strict s) (hrun : s.runs r = some run)
    (hlive : run.phase.live) (hop : op ∈ s.created) (hcur : s.fate op.id = .processing r)
    (reason : ErrorReason) :
    OpInv cfg strict ((s.setRun r (run.rejectOp op reason)).setFate op.id .failed) := by
  have hr : RunInv strict s r run := hi.runs r run hrun
  refine hi.advance hop (by rw [hcur]; rfl) (by simp) (fun _ => trivial) (fun _ h => h.elim) ?_
  exact hr.advance hlive hop (by rw [hcur]; rfl) (fun _ h => h) rfl
    (hr.fresh_ne hlive hcur (by simp))
    (fun _ _ h => nomatch h) (fun _ h => .inl h)

theorem opInv_persistConsistentOp (hi : OpInv cfg strict s) (hrun : s.runs r = some run)
    {attempt : Nat} (hphase : run.phase = .attempting op attempt) (hop : op ∈ s.created)
    (hcur : s.fate op.id = .processing r) {options : QueryOptions} {affected : List String}
    {outcome : WriteOutcome}
    (h : persistConsistentOp cfg s r run op options attempt affected outcome = some s') :
    OpInv cfg strict s' := by
  have hr : RunInv strict s r run := hi.runs r run hrun
  have hlive : run.phase.live := by
    rw [hphase]
    trivial
  cases outcome with
  | ok =>
      cases h
      refine hi.advanceLogged hop hcur trivial ?_
      refine hr.advance hlive hop (by rw [hcur]; rfl) (fun _ h => h) rfl
        (hr.fresh_ne hlive hcur (by simp)) (fun _ _ h => by cases h) ?_
      intro op' hop'
      rcases List.mem_append.1 hop' with hop' | hop'
      · exact .inl hop'
      · exact .inr ⟨List.mem_singleton.1 hop', rfl⟩
  | threw tookEffect =>
      cases h
      exact hi.writeThrew hr hop hcur tookEffect
  | lost =>
      simp only [persistConsistentOp] at h
      split at h
      · split at h
        · cases h
          refine hi.moveRun ⟨hr.ops_created, fun _ h => (by cases h), fun _ => hr.fresh hlive, ?_,
            hr.accepted⟩
          intro op' f hcur'
          exact hr.current op' f (by rw [hphase]; exact hcur')
        · cases h
          exact hi.rejectOp hrun hlive hop hcur .serverError
      · cases h
  | overflow tookEffect => cases h

/-- The eager buffer is no part of the invariant. -/
theorem OpInv.bufferOp (hi : OpInv cfg strict s) : OpInv cfg strict (s.bufferOp op) :=
  { hi with
    log := hi.log.keep rfl rfl (fun _ h => h) (fun _ _ _ h => h)
    runs := fun r₁ run₁ h₁ => (hi.runs r₁ run₁ h₁).mono (fun _ h => h) (fun _ _ => rfl)
      (fun _ h => h) }

theorem opInv_persistEagerOp (hi : OpInv cfg strict s) (hrun : s.runs r = some run)
    {attempt : Nat} (hphase : run.phase = .attempting op attempt) (hop : op ∈ s.created)
    (hcur : s.fate op.id = .processing r) {options : QueryOptions}
    (hq : cfg.queries op.table = some options) (hconsistent : options.broadcast ≠ .consistent)
    {outcome : WriteOutcome} (h : persistEagerOp s r run op options outcome = some s') :
    OpInv cfg strict s' := by
  have hr : RunInv strict s r run := hi.runs r run hrun
  have hlive : run.phase.live := by
    rw [hphase]
    trivial
  have hheld : (s.fate op.id).holder = some r := by
    rw [hcur]
    rfl
  have hrun' : RunInv strict (s.setFate op.id (.persisted r)) r
      { run with phase := .settling op } := by
    refine hr.advance hlive hop hheld (fun _ h => h) rfl (hr.fresh_ne hlive hcur (by simp)) ?_
      (fun _ h => .inl h)
    intro op' f' hcur'
    cases hcur'
    exact ⟨rfl, rfl⟩
  have hnot : options.broadcast = .eager → ¬ cfg.persistsBeforeAck op := by
    rintro heager ⟨options', hq', hne⟩
    rw [hq] at hq'
    cases hq'
    exact hne heager
  have hunlogged : options.broadcast = .eager →
      OpInv cfg strict
        ((s.setRun r { run with phase := .settling op }).setFate op.id (.persisted r)) :=
    fun heager => hi.advance hop hheld (by simp) (fun _ => trivial)
      (fun hp => absurd hp (hnot heager)) hrun'
  have hlogged : OpInv cfg strict
      (((s.logOp op).setRun r { run with phase := .settling op }).setFate op.id (.persisted r)) :=
    hi.advanceLogged hop hcur trivial hrun'
  cases outcome with
  | ok =>
      cases h
      split
      · exact hlogged
      · rename_i hb
        have heager : options.broadcast = .eager := by
          cases hb' : options.broadcast
          · exact absurd hb' hconsistent
          · rfl
          · exact absurd hb' hb
        exact (hunlogged heager).bufferOp
  | threw tookEffect =>
      simp only [persistEagerOp] at h
      split at h
      · cases h
        exact hi.writeThrew hr hop hcur tookEffect
      · cases h
  | lost => cases h
  | overflow tookEffect =>
      simp only [persistEagerOp] at h
      split at h
      · rename_i heager
        cases h
        cases tookEffect with
        | true => exact hlogged
        | false => exact hunlogged heager
      · cases h

theorem opInv_stepAttempt (hi : OpInv cfg strict s) {a : Attempt}
    (h : stepAttempt cfg s r a = some s') : OpInv cfg strict s' := by
  unfold stepAttempt at h
  split at h
  · cases h
  rename_i run hrun
  have hr : RunInv strict s r run := hi.runs r run hrun
  split at h
  case h_2 => cases h
  rename_i op attempt hphase
  rcases hr.current op (.processing r) (by rw [hphase]; rfl) with ⟨hop, hcur⟩
  split at h
  · cases h
  rename_i options hq
  cases a with
  | reject reason =>
      cases h
      exact hi.rejectOp hrun (by rw [hphase]; trivial) hop hcur reason
  | threw =>
      cases h
      exact hi.throwRun hr
  | write affected outcome =>
      simp only at h
      split at h
      · exact opInv_persistConsistentOp hi hrun hphase hop hcur h
      · rename_i hb
        exact opInv_persistEagerOp hi hrun hphase hop hcur hq hb h

theorem opInv_stepSettle (hi : OpInv cfg strict s) {ok : Bool}
    (h : stepSettle s r ok = some s') : OpInv cfg strict s' := by
  unfold stepSettle at h
  split at h
  · cases h
  rename_i run hrun
  have hr : RunInv strict s r run := hi.runs r run hrun
  split at h
  case h_2 => cases h
  rename_i op hphase
  have hlive : run.phase.live := by
    rw [hphase]
    trivial
  rcases hr.current op (.persisted r) (by rw [hphase]; rfl) with ⟨hop, hcur⟩
  split at h
  · cases h
    refine hi.advance hop (by rw [hcur]; rfl) (by simp) (fun _ => trivial)
      (fun _ _ => by rw [hcur]; trivial) ?_
    refine hr.advance hlive hop (by rw [hcur]; rfl) (fun _ h => h) rfl
      (hr.fresh_ne hlive hcur (by simp)) (fun _ _ h => nomatch h) ?_
    intro op' hop'
    rcases List.mem_append.1 hop' with hop' | hop'
    · exact .inl hop'
    · exact .inr ⟨List.mem_singleton.1 hop', rfl⟩
  · cases h
    exact hi.throwRun hr

theorem opInv_stepAnswer (hi : OpInv cfg strict s) {ok : Bool}
    (h : stepAnswer s r ok = some s') : OpInv cfg strict s' := by
  unfold stepAnswer at h
  split at h
  · cases h
  rename_i run hrun
  have hr : RunInv strict s r run := hi.runs r run hrun
  split at h
  case h_2 => cases h
  split at h
  · cases h
    refine hi.run_step rfl (fun _ h => h) rfl rfl (fun _ => .inl rfl) rfl hi.unseen_iff
      (hi.log.keep rfl rfl (fun _ h => h) (fun _ _ _ h => h))
      ⟨hr.ops_created, fun _ h => (nomatch h), fun h => h.elim, fun _ _ h => (nomatch h),
        hr.accepted⟩ ?_
    intro hs op hop
    rcases List.mem_append.1 hop with hop | hop
    · exact hi.acked hs op hop
    · exact hr.accepted hs op hop
  · split at h
    · cases h
      exact hi.moveRun ⟨hr.ops_created, fun _ h => (nomatch h), fun h => h.elim,
        fun _ _ h => (nomatch h), hr.accepted⟩
    · cases h

/-! ## Steps of the clients and the wire -/

/-- A client's step keeps the invariant if what it holds has been created. -/
theorem OpInv.setClient (hi : OpInv cfg strict s) {c : Nat} {client : PushState}
    (hpending : ∀ op ∈ client.pendingOps, op ∈ s.created)
    (hchunks : ∀ chunk ∈ client.chunks, ∀ op ∈ chunk, op ∈ s.created) :
    OpInv cfg strict (s.setClient c client) := by
  refine { hi with pending_created := ?_, chunks_created := ?_, log := ?_, runs := ?_ }
  · intro c'
    by_cases hc : c' = c
    · subst hc
      simpa using hpending
    · simpa [Function.update_of_ne hc] using hi.pending_created c'
  · intro c'
    by_cases hc : c' = c
    · subst hc
      simpa using hchunks
    · simpa [Function.update_of_ne hc] using hi.chunks_created c'
  · exact hi.log.keep rfl rfl (fun _ h => h) (fun _ _ _ h => h)
  · exact fun r₁ run₁ h₁ => (hi.runs r₁ run₁ h₁).mono (fun _ h => h) (fun _ _ => rfl)
      (fun _ h => h)

theorem opInv_stepCreate (hi : OpInv cfg strict s) {c : Nat}
    (h : stepCreate s c op = some s') : OpInv cfg strict s' := by
  unfold stepCreate at h
  split at h
  case isFalse => cases h
  rename_i hnew
  cases h
  have hgrow : ∀ op' ∈ s.created, op' ∈ s.created ++ [op] := fun _ h => List.mem_append_left _ h
  have hnot : op.id ∉ s.created.map (·.id) := by
    intro hmem
    rcases List.mem_map.1 hmem with ⟨op', hop', hid⟩
    exact hnew op' hop' hid
  have hunseen : s.fate op.id = .unseen :=
    (hi.unseen_iff op.id).2 fun h => hnot (hi.reserved_created op.id h)
  refine ⟨?_, ?_, ?_, ?_, ?_, hi.unseen_iff, ?_, ?_, ?_⟩
  · rw [List.map_append, List.map_singleton, ← List.concat_eq_append]
    exact hi.created_nodup.concat hnot
  · intro c' op' hop'
    by_cases hc : c' = c
    · subst hc
      have : op' ∈ (s.clients c').pendingOps ∨ op' = op := by
        simpa [PushState.addPendingOp] using hop'
      rcases this with hop' | rfl
      · exact hgrow op' (hi.pending_created c' op' hop')
      · simp
    · have : op' ∈ (s.clients c').pendingOps := by
        simpa [Function.update_of_ne hc] using hop'
      exact hgrow op' (hi.pending_created c' op' this)
  · intro c' chunk hchunk op' hop'
    have : chunk ∈ (s.clients c').chunks := by
      by_cases hc : c' = c
      · subst hc
        simpa [PushState.addPendingOp] using hchunk
      · simpa [Function.update_of_ne hc] using hchunk
    exact hgrow op' (hi.chunks_created c' chunk this op' hop')
  · exact fun m hm op' hop' => hgrow op' (hi.messages_created m hm op' hop')
  · exact fun id hid => List.map_subset _ hgrow (hi.reserved_created id hid)
  · refine ⟨fun op' hop' => hgrow op' (hi.log.created op' hop'), hi.log.nodup, hi.log.fate, ?_⟩
    intro op' hop' hp hl
    rcases List.mem_append.1 hop' with hop' | hop'
    · exact hi.log.logged op' hop' hp hl
    · rw [List.mem_singleton.1 hop'] at hl
      have hl' : (s.fate op.id).isLogged := hl
      rw [hunseen] at hl'
      exact hl'.elim
  · exact fun r₁ run₁ h₁ => (hi.runs r₁ run₁ h₁).mono hgrow (fun _ _ => rfl) (fun _ h => h)
  · exact fun hs op' hop' => ⟨hgrow op' (hi.acked hs op' hop').1, (hi.acked hs op' hop').2⟩

theorem opInv_stepSend (hi : OpInv cfg strict s) {c now : Nat} {arrives threw : Bool}
    (h : stepSend s c now arrives threw = some s') : OpInv cfg strict s' := by
  unfold stepSend at h
  split at h
  · cases h
  rename_i chunk rest hchunks
  cases h
  have hchunk : ∀ op ∈ chunk, op ∈ s.created :=
    hi.chunks_created c chunk (by simp [hchunks])
  have hclient : OpInv cfg strict (s.setClient c
      (if threw then (s.clients c).failedChunk chunk
        else (s.clients c).sentChunk chunk rest now)) := by
    cases threw with
    | true => exact hi.setClient (hi.pending_created c) (fun _ hch => nomatch hch)
    | false =>
        refine hi.setClient (hi.pending_created c) ?_
        exact fun ch hch => hi.chunks_created c ch (by rw [hchunks]; exact .tail _ hch)
  refine { hclient with messages_created := ?_, log := ?_, runs := ?_ }
  · intro m hm
    cases arrives with
    | false => exact hi.messages_created m hm
    | true =>
        rcases List.mem_append.1 hm with hm | hm
        · exact hi.messages_created m hm
        · rw [List.mem_singleton.1 hm]
          exact hchunk
  · exact hclient.log.keep rfl rfl (fun _ h => h) (fun _ _ _ h => h)
  · exact fun r₁ run₁ h₁ => (hi.runs r₁ run₁ h₁).mono (fun _ h => h) (fun _ _ => rfl)
      (fun _ h => h)

theorem opInv_stepReceive (hi : OpInv cfg strict s) {m : Nat}
    (h : stepReceive cfg s m r = some s') : OpInv cfg strict s' := by
  unfold stepReceive at h
  split at h
  case h_2 => cases h
  rename_i c ops hm _
  cases h
  have hops : ∀ op ∈ ops, op ∈ s.created :=
    hi.messages_created (c, ops) (List.mem_of_getElem? hm)
  refine hi.run_step rfl (fun _ h => List.mem_of_mem_eraseIdx h) rfl rfl (fun _ => .inl rfl) rfl
    hi.unseen_iff (hi.log.keep rfl rfl (fun _ h => h) (fun _ _ _ h => h)) ?_ hi.acked
  refine ⟨hops, ?_, fun _ _ h => (nomatch h), fun _ _ h => (nomatch h), fun _ _ h => (nomatch h)⟩
  intro id hid
  rcases List.mem_map.1 hid with ⟨op, hop, rfl⟩
  exact List.mem_map_of_mem (hops op (List.mem_filter.1 hop).1)

theorem opInv_stepDeliver (hi : OpInv cfg strict s) {a : Nat}
    (h : stepDeliver s a = some s') : OpInv cfg strict s' := by
  have hi' : OpInv cfg strict { s with answers := s.answers.eraseIdx a } :=
    { hi with
      log := hi.log.keep rfl rfl (fun _ h => h) (fun _ _ _ h => h)
      runs := fun r₁ run₁ h₁ => (hi.runs r₁ run₁ h₁).mono (fun _ h => h) (fun _ _ => rfl)
        (fun _ h => h) }
  unfold stepDeliver at h
  split at h
  · cases h
  dsimp only at h
  split at h
  · cases h
    refine hi'.setClient ?_ (hi.chunks_created _)
    exact fun op hop => hi.pending_created _ op (List.mem_filter.1 hop).1
  · cases h
    refine hi'.setClient ?_ (hi.chunks_created _)
    exact fun op hop => hi.pending_created _ op (List.mem_filter.1 (List.mem_filter.1 hop).1).1

/-! ## Runs -/

theorem opInv_step (hi : OpInv cfg strict s) {e : OpEvent}
    (hg : strict → ReplayAccepted cfg s e) (h : opStep cfg s e = some s') :
    OpInv cfg strict s' := by
  cases e with
  | create c op => exact opInv_stepCreate hi h
  | clearInFlight c =>
      cases h
      exact hi.setClient (hi.pending_created c) (hi.chunks_created c)
  | push c now =>
      rcases Option.map_eq_some_iff.1 h with ⟨client, hpush, rfl⟩
      unfold PushState.startPush at hpush
      split at hpush
      · cases hpush
        refine hi.setClient (hi.pending_created c) fun chunk hchunk op hop => ?_
        have : op ∈ (s.clients c).pendingOps.filter _ :=
          PushState.mem_of_mem_pushChunks hchunk hop
        exact hi.pending_created c op (List.mem_filter.1 this).1
      · cases hpush
  | send c now arrives threw => exact opInv_stepSend hi h
  | receive m r => exact opInv_stepReceive hi h
  | reserve r outcome => exact opInv_stepReserve hi h
  | next r => exact opInv_stepNext hi hg h
  | flush r ok => exact opInv_stepFlush hi h
  | attempt r a => exact opInv_stepAttempt hi h
  | settle r ok => exact opInv_stepSettle hi h
  | answer r ok => exact opInv_stepAnswer hi h
  | deliver a => exact opInv_stepDeliver hi h

theorem opInv_of_reachable (h : (opMachine cfg).Reachable s) : OpInv cfg False s :=
  h.invariant (P := OpInv cfg False) (opInv_start cfg False) fun hi _ hs =>
    opInv_step hi False.elim hs

theorem opInv_of_reach (h : (opMachine cfg).Reach (ReplayAccepted cfg) s) : OpInv cfg True s :=
  h.invariant (P := OpInv cfg True) (opInv_start cfg True) fun hi hg hs =>
    opInv_step hi (fun _ => hg) hs

theorem filter_id_eq_singleton {log : List ClientOp} (hnodup : (log.map (·.id)).Nodup)
    (hop : op ∈ log) : log.filter (fun op' => op'.id = op.id) = [op] := by
  have hlog : log.Nodup := hnodup.of_map
  have : log.filter (fun op' => op'.id = op.id) = log.filter (· = op) := by
    refine List.filter_congr fun op' hop' => ?_
    have : op'.id = op.id ↔ op' = op :=
      ⟨List.inj_on_of_nodup_map hnodup hop' hop, fun h => by rw [h]⟩
    simp [this]
  rw [this, List.filter_eq, List.count_eq_one_of_mem hlog hop]
  rfl

/-- Exactly once, in the runs whose replays had been accepted: an acked op is in the log once, and
a failed op id is never acked. -/
theorem exactlyOnce_of_replayAccepted (cfg : OpConfig) {s : OpState}
    (h : (opMachine cfg).Reach (ReplayAccepted cfg) s) : ExactlyOnce cfg s := by
  have hi : OpInv cfg True s := opInv_of_reach h
  constructor
  · intro op hop hp
    rcases hi.acked trivial op hop with ⟨hcr, hfate⟩
    have hmem : op ∈ s.storage.log := hi.log.logged op hcr hp (by rw [hfate]; trivial)
    exact filter_id_eq_singleton hi.log.nodup hmem
  · intro op hop hfailed
    rcases hi.acked trivial op hop with ⟨_, hfate⟩
    rw [hfate] at hfailed
    cases hfailed

/-! ## Runs of one op -/

/-- A server with one consistent query on an adapter with `reserveOps`. -/
def todosServer : OpConfig where
  queries := fun table => if table = "todos" then some ⟨true, .consistent, false⟩ else none
  reserveOps := true
  applyOpIf := false

def todoOp : ClientOp :=
  ⟨"op-1", "todos", .delete, "t1", none, "0001", none⟩

/-- The op is pushed, received and reserved by call `r`. -/
def pushTo (r now : Nat) : List OpEvent :=
  [.push 0 now, .send 0 now true false, .receive 0 r, .reserve r .ok, .next r]

/-- The storage call of the first message throws; after the TTL the op is sent again. -/
def throwThenResend : List OpEvent :=
  [.create 0 todoOp] ++ pushTo 0 0 ++ [.attempt 0 (.write [] (.threw false))] ++
    pushTo 1 30000 ++ [.next 1, .answer 1 true]

/-- The ack of the first message is lost; after the TTL the op is sent again. -/
def ackLostThenResend : List OpEvent :=
  [.create 0 todoOp] ++ pushTo 0 0 ++ [.attempt 0 (.write [] .ok), .next 0, .answer 0 true] ++
    pushTo 1 30000 ++ [.next 1, .answer 1 true, .deliver 1]

/-- After `throwThenResend` the op is acked and not in the log. -/
theorem acked_of_throwThenResend :
    ∃ s, (opMachine todosServer).Reachable s ∧ ¬ ExactlyOnce todosServer s := by
  have hrun : (((opMachine todosServer).run throwThenResend).map fun s =>
      (s.acked, s.storage.log)) = some ([todoOp], []) := by decide
  rcases Option.map_eq_some_iff.1 hrun with ⟨s, hs, hs'⟩
  refine ⟨s, Lib.Machine.Reachable.of_run hs, fun h => ?_⟩
  have hacked : s.acked = [todoOp] := congrArg Prod.fst hs'
  have hlog : s.storage.log = [] := congrArg Prod.snd hs'
  have := h.1 todoOp (by simp [hacked]) ⟨⟨true, .consistent, false⟩, by decide, by decide⟩
  simp [hlog] at this

/-- After `ackLostThenResend` the op has been acked twice and written once. -/
theorem exactlyOnce_ackLostThenResend :
    ∃ s, (opMachine todosServer).Reach (ReplayAccepted todosServer) s ∧
      s.acked = [todoOp, todoOp] ∧ ExactlyOnce todosServer s := by
  have hrun : (((opMachine todosServer).runWith
      (fun s e => decide (ReplayAccepted todosServer s e)) OpState.start ackLostThenResend).map
        (·.acked)) = some [todoOp, todoOp] := by decide
  rcases Option.map_eq_some_iff.1 hrun with ⟨s, hs, hacked⟩
  have hreach : (opMachine todosServer).Reach (ReplayAccepted todosServer) s :=
    Lib.Machine.Reach.of_runWith (fun _ _ h => of_decide_eq_true h) .init hs
  exact ⟨s, hreach, hacked, exactlyOnce_of_replayAccepted todosServer hreach⟩

end Server
end Reflectdb
