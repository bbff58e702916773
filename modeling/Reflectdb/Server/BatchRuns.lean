import Reflectdb.Lib.OrderedSet
import Reflectdb.Server.BatchQueue

/-!
# Batch runs — the op that the server rejects for itself is the first of its batch

In the runs of the condition.  So the ops of its batch are untouched, and stay so: the call rejects
them, and another call would have to begin with the op that was rejected.
-/

namespace Reflectdb
namespace Server

open Core Client Lib

/-! ## The invariant -/

/-- The op that a call has under way. -/
def Phase.taken : Phase → Option ClientOp
  | .flushing op => some op
  | .attempting op _ => some op
  | .settling op => some op
  | _ => none

/-- What a call has still to do. -/
def OpsRun.todo (run : OpsRun) : List ClientOp :=
  run.phase.taken.toList ++ run.ops

def BatchState.refusedBatch (s : BatchState) (b : String) : Prop :=
  ∃ x ∈ s.refused, x.batch = some b

/-- The rejection names an op, and the op's batch has an op that was rejected for itself. -/
def RejectionSound (s : BatchState) (rejection : Rejection) : Prop :=
  ∃ op ∈ s.ops.created, op.id = rejection.opId ∧ op.batchId = rejection.batchId ∧
    ∀ b, op.batch = some b → s.refusedBatch b

structure RunWhole (cfg : OpConfig) (s : BatchState) (run : OpsRun) : Prop where
  sub : run.phase.live → run.todo.Sublist s.ops.created
  whole : run.phase.live → ∀ op ∈ run.todo, ∀ b, op.batch = some b →
    run.failedBatchIds.lookup b = none → ∀ op' ∈ s.ops.created, op'.batch = some b →
      op' ∈ run.todo ∨ s.ops.fate op'.id = .accepted
  taken : ∀ op ∈ run.phase.taken, (cfg.reservable op).isSome ∧
    ∀ b, op.batch = some b → run.failedBatchIds.lookup b = none ∧ ¬ s.refusedBatch b
  failed : ∀ b, (run.failedBatchIds.lookup b).isSome → s.refusedBatch b
  rejected : ∀ rejection ∈ run.rejected, RejectionSound s rejection
  accepted : ∀ op ∈ run.accepted, op ∈ s.ops.created ∧
    (op.batch.isSome → s.ops.fate op.id = .accepted)

/-- The first op of its batch, whose callback has not run and will not. -/
structure RefusedFirst (cfg : OpConfig) (s : BatchState) (x : ClientOp) (b : String) : Prop where
  created : x ∈ s.ops.created
  first : ∀ op ∈ s.ops.created, op.batch = some b → op = x ∨ [x, op].Sublist s.ops.created
  gone : s.ops.fate x.id = .failed ∨ cfg.reservable x = none
  unmutated : ∀ op ∈ s.mutated, op.batch ≠ some b

structure BatchInv (cfg : OpConfig) (s : BatchState) : Prop where
  ops : OpInv cfg False s.ops
  wire : WireWhole s.ops
  runs : ∀ r run, s.ops.runs r = some run → RunWhole cfg s run
  refused : ∀ x ∈ s.refused, ∀ b, x.batch = some b → RefusedFirst cfg s x b
  logged : ∀ op ∈ s.ops.created, op.batch.isSome → (s.ops.fate op.id).isLogged →
    op ∈ s.mutated ∧ s.ops.stored op
  stored : ∀ op, s.ops.stored op → op ∈ s.mutated
  acks : ∀ c opIds, Answer.ack c opIds ∈ s.ops.answers → ∀ id ∈ opIds,
    ∃ op ∈ s.ops.created, op.id = id ∧ (op.batch.isSome → s.ops.fate id = .accepted)
  rejects : ∀ c rejection, Answer.reject c rejection ∈ s.ops.answers → RejectionSound s rejection
  acked : ∀ op ∈ s.ops.acked, op ∈ s.ops.created ∧
    (op.batch.isSome → s.ops.fate op.id = .accepted)
  present : ∀ op ∈ s.ops.created, ∀ b, op.batch = some b →
    (∃ c, op ∈ (s.ops.clients c).pendingOps) ∨ s.ops.fate op.id = .accepted ∨ s.refusedBatch b

variable {cfg : OpConfig} {s s' : BatchState} {r : Nat} {run run' : OpsRun} {op : ClientOp}

theorem RejectionSound.mono {rejection : Rejection} (h : RejectionSound s rejection)
    (hcreated : ∀ op ∈ s.ops.created, op ∈ s'.ops.created)
    (hrefused : ∀ x ∈ s.refused, x ∈ s'.refused) : RejectionSound s' rejection := by
  rcases h with ⟨op, hop, hid, hbatchId, hbatch⟩
  refine ⟨op, hcreated op hop, hid, hbatchId, fun b hb => ?_⟩
  rcases hbatch b hb with ⟨x, hx, hxb⟩
  exact ⟨x, hrefused x hx, hxb⟩

/-! ## What one call keeps -/

theorem BatchState.refusedBatch.mono {b : String} (h : s.refusedBatch b)
    (hrefused : ∀ x ∈ s.refused, x ∈ s'.refused) : s'.refusedBatch b := by
  rcases h with ⟨x, hx, hb⟩
  exact ⟨x, hrefused x hx, hb⟩

/-- What a step of some call does for the others. -/
structure CallGrows (s s' : BatchState) : Prop where
  created : s'.ops.created = s.ops.created
  accepted : ∀ id, s.ops.fate id = .accepted → s'.ops.fate id = .accepted
  refused : ∀ x ∈ s.refused, x ∈ s'.refused

namespace RunWhole

/-- The rejections and the accepted ops so far. -/
theorem rejected_mono (h : RunWhole cfg s run) (hg : CallGrows s s') :
    ∀ rejection ∈ run.rejected, RejectionSound s' rejection := fun rejection hmem =>
  (h.rejected rejection hmem).mono (fun _ hop => hg.created ▸ hop) hg.refused

theorem accepted_mono (h : RunWhole cfg s run) (hg : CallGrows s s') :
    ∀ op ∈ run.accepted, op ∈ s'.ops.created ∧ (op.batch.isSome → s'.ops.fate op.id = .accepted) :=
  fun op hop => ⟨hg.created ▸ (h.accepted op hop).1, fun hb =>
    hg.accepted _ ((h.accepted op hop).2 hb)⟩

/-- The call has the same ops before it. -/
theorem pass (h : RunWhole cfg s run) (hg : CallGrows s s')
    (hlive : run'.phase.live → run.phase.live)
    (htaken : run'.phase.taken = run.phase.taken) (hops : run'.ops = run.ops)
    (hfailed : run'.failedBatchIds = run.failedBatchIds) (hrejected : run'.rejected = run.rejected)
    (haccepted : run'.accepted = run.accepted)
    (hfree : ∀ op ∈ run.phase.taken, ∀ b, op.batch = some b → ¬ s'.refusedBatch b) :
    RunWhole cfg s' run' := by
  have htodo : run'.todo = run.todo := by rw [OpsRun.todo, OpsRun.todo, htaken, hops]
  refine ⟨fun hl => ?_, fun hl op hop b hb hnone op' hop' hb' => ?_, fun op hop => ?_,
    fun b hb => ?_, fun rejection hmem => ?_, fun op hop => ?_⟩
  · rw [htodo, hg.created]
    exact h.sub (hlive hl)
  · rw [htodo] at hop ⊢
    rw [hfailed] at hnone
    rw [hg.created] at hop'
    exact (h.whole (hlive hl) op hop b hb hnone op' hop' hb').imp_right (hg.accepted _)
  · rw [htaken] at hop
    rw [hfailed]
    exact ⟨(h.taken op hop).1, fun b hb => ⟨((h.taken op hop).2 b hb).1, hfree op hop b hb⟩⟩
  · rw [hfailed] at hb
    exact (h.failed b hb).mono hg.refused
  · exact h.rejected_mono hg rejection (hrejected ▸ hmem)
  · exact h.accepted_mono hg op (haccepted ▸ hop)

/-- The call is over. -/
theorem halt (h : RunWhole cfg s run) (hg : CallGrows s s') (hdead : ¬ run'.phase.live)
    (htaken : run'.phase.taken = none) (hfailed : run'.failedBatchIds = run.failedBatchIds)
    (hrejected : run'.rejected = run.rejected) (haccepted : run'.accepted = run.accepted) :
    RunWhole cfg s' run' := by
  refine ⟨fun hl => absurd hl hdead, fun hl => absurd hl hdead, fun op hop => ?_,
    fun b hb => ?_, fun rejection hmem => ?_, fun op hop => ?_⟩
  · rw [htaken] at hop
    cases hop
  · rw [hfailed] at hb
    exact (h.failed b hb).mono hg.refused
  · exact h.rejected_mono hg rejection (hrejected ▸ hmem)
  · exact h.accepted_mono hg op (haccepted ▸ hop)

/-- The first op of what is to do is done: accepted, or its batch has failed. -/
theorem drop (h : RunWhole cfg s run) (hg : CallGrows s s') (hlive : run.phase.live)
    (htodo : run.todo = op :: run'.ops) (htaken : run'.phase.taken = none)
    (hfailed : ∀ b, run'.failedBatchIds.lookup b = none → run.failedBatchIds.lookup b = none)
    (hdone : ∀ b, op.batch = some b →
      (run'.failedBatchIds.lookup b).isSome ∨ s'.ops.fate op.id = .accepted)
    (hnew : ∀ b, (run'.failedBatchIds.lookup b).isSome → s'.refusedBatch b)
    (hrejected : ∀ rejection ∈ run'.rejected, RejectionSound s' rejection)
    (haccepted : ∀ op ∈ run'.accepted, op ∈ s'.ops.created ∧
      (op.batch.isSome → s'.ops.fate op.id = .accepted)) : RunWhole cfg s' run' := by
  have htodo' : run'.todo = run'.ops := by
    rw [OpsRun.todo, htaken, Option.toList_none, List.nil_append]
  refine ⟨fun _ => ?_, fun _ op₁ hop₁ b hb hnone op' hop' hb' => ?_, fun op₁ hop₁ => ?_, hnew,
    hrejected, haccepted⟩
  · rw [htodo', hg.created]
    exact (List.sublist_cons_self op run'.ops).trans (htodo ▸ h.sub hlive)
  · rw [htodo'] at hop₁ ⊢
    rw [hg.created] at hop'
    have hmem : op₁ ∈ run.todo := htodo ▸ List.mem_cons_of_mem _ hop₁
    rcases h.whole hlive op₁ hmem b hb (hfailed b hnone) op' hop' hb' with hin | hacc
    · rw [htodo] at hin
      rcases List.mem_cons.1 hin with rfl | hin
      · rcases hdone b hb' with hsome | hacc
        · rw [hnone] at hsome
          cases hsome
        · exact Or.inr hacc
      · exact Or.inl hin
    · exact Or.inr (hg.accepted _ hacc)
  · rw [htaken] at hop₁
    cases hop₁

end RunWhole

/-! ## A step of a call -/

/-- The call rejects `x`, the first op before it, for itself. -/
structure RefusesNow (cfg : OpConfig) (s s' : BatchState) (r : Nat) (run : OpsRun) (x : ClientOp)
    (b : String) : Prop where
  live : run.phase.live
  todo : ∃ rest, run.todo = x :: rest
  unfailed : run.failedBatchIds.lookup b = none
  held : s.ops.fate x.id = .processing r ∨ cfg.reservable x = none
  gone : s'.ops.fate x.id = .failed ∨ cfg.reservable x = none
  unmutated : ∀ op ∈ s'.mutated, op.batch ≠ some b

structure CallStep (cfg : OpConfig) (s s' : BatchState) (r : Nat) (run run' : OpsRun) : Prop
    extends CallGrows s s' where
  clients : s'.ops.clients = s.ops.clients
  messages : s'.ops.messages = s.ops.messages
  runs : s'.ops.runs = Function.update s.ops.runs r (some run')
  whole : RunWhole cfg s' run'
  failed : ∀ id, s.ops.fate id = .failed → s'.ops.fate id = .failed
  mutated : ∀ op ∈ s.mutated, op ∈ s'.mutated
  mutates : ∀ op ∈ s'.mutated, op ∈ s.mutated ∨ op ∈ run.phase.taken
  refuses : ∀ x ∈ s'.refused, x ∈ s.refused ∨
    ∀ b, x.batch = some b → RefusesNow cfg s s' r run x b
  kept : ∀ op, s.ops.stored op → s'.ops.stored op
  stored : ∀ op, s'.ops.stored op → op ∈ s'.mutated
  logged : ∀ op ∈ s.ops.created, op.batch.isSome → (s'.ops.fate op.id).isLogged →
    (s.ops.fate op.id).isLogged ∨ op ∈ s'.mutated ∧ s'.ops.stored op
  answers : ∀ answer ∈ s'.ops.answers, answer ∈ s.ops.answers ∨
    answer = .ack run.clientId (run.accepted.map (·.id)) ∨
      ∃ rejection ∈ run.rejected, answer = .reject run.clientId rejection
  acked : ∀ op ∈ s'.ops.acked, op ∈ s.ops.acked ∨ op ∈ run.accepted

namespace BatchInv

/-- No op of a batch is accepted while none of its callbacks has run. -/
theorem not_accepted (h : BatchInv cfg s) {b : String}
    (hmutated : ∀ op ∈ s.mutated, op.batch ≠ some b)
    (hop : op ∈ s.ops.created) (hb : op.batch = some b) : s.ops.fate op.id ≠ .accepted := by
  intro hacc
  have hlogged := h.logged op hop (by rw [hb]; rfl) (by rw [hacc]; trivial)
  exact hmutated op hlogged.1 hb

/-- The op that is rejected comes first in its batch. -/
theorem first_of_refusesNow (h : BatchInv cfg s) (hrun : s.ops.runs r = some run)
    (hmutated : ∀ op ∈ s.mutated, op ∈ s'.mutated) {x : ClientOp} {b : String}
    (hx : x.batch = some b)
    (hnow : RefusesNow cfg s s' r run x b) :
    ∀ op ∈ s.ops.created, op.batch = some b → op = x ∨ [x, op].Sublist s.ops.created := by
  intro op hop hb
  have hwhole := h.runs r run hrun
  rcases hnow.todo with ⟨rest, htodo⟩
  have hin : op ∈ run.todo := by
    have hxin : x ∈ run.todo := htodo ▸ List.mem_cons_self
    refine (hwhole.whole hnow.live x hxin b hx hnow.unfailed op hop hb).resolve_right ?_
    exact h.not_accepted (fun op hop => hnow.unmutated op (hmutated op hop)) hop hb
  rw [htodo] at hin
  refine (List.mem_cons.1 hin).imp_right fun hin => ?_
  have hsub := hwhole.sub hnow.live
  rw [htodo] at hsub
  exact ((List.singleton_sublist.2 hin).cons_cons x).trans hsub

/-- No other call has an op of the batch under way. -/
theorem not_taken_of_refusesNow (h : BatchInv cfg s) (hrun : s.ops.runs r = some run)
    (hmutated : ∀ op ∈ s.mutated, op ∈ s'.mutated) {x : ClientOp} {b : String}
    (hx : x.batch = some b)
    (hnow : RefusesNow cfg s s' r run x b) {r₂ : Nat} {run₂ : OpsRun} (hr : r₂ ≠ r)
    (hrun₂ : s.ops.runs r₂ = some run₂) (hop : op ∈ run₂.phase.taken) : op.batch ≠ some b := by
  intro hb
  have hwhole := h.runs r₂ run₂ hrun₂
  have htodo₂ : run₂.todo = op :: run₂.ops := by rw [OpsRun.todo, hop]; rfl
  have hlive : run₂.phase.live := by
    cases hphase : run₂.phase <;> rw [hphase] at hop <;> trivial
  have hsub := hwhole.sub hlive
  rw [htodo₂] at hsub
  have hxcreated : x ∈ s.ops.created := by
    rcases hnow.todo with ⟨rest, htodo⟩
    exact ((h.runs r run hrun).sub hnow.live).subset (htodo ▸ List.mem_cons_self)
  have hxin : x ∈ run₂.todo := by
    refine (hwhole.whole hlive op (htodo₂ ▸ List.mem_cons_self) b hb
      ((hwhole.taken op hop).2 b hb).1 x hxcreated hx).resolve_right ?_
    exact h.not_accepted (fun op hop => hnow.unmutated op (hmutated op hop)) hxcreated hx
  rw [htodo₂] at hxin
  rcases List.mem_cons.1 hxin with rfl | hrest
  · -- One call has the op, and it is the one that rejects it.
    have hreservable := (hwhole.taken x hop).1
    rcases hnow.held with hheld | hnone
    · have hcurrent : ∃ fate, run₂.phase.current r₂ = some (x, fate) := by
        cases hphase : run₂.phase <;> rw [hphase] at hop <;> cases hop <;> exact ⟨_, rfl⟩
      rcases hcurrent with ⟨fate, hcurrent⟩
      have hfate := ((h.ops.runs r₂ run₂ hrun₂).current x fate hcurrent).2
      have hholder := Phase.holder_of_current hcurrent
      rw [← hfate, hheld] at hholder
      exact hr (Option.some.inj hholder).symm
    · rw [hnone] at hreservable
      cases hreservable
  · have hcreated := hsub.subset List.mem_cons_self
    rcases h.first_of_refusesNow hrun hmutated hx hnow op hcreated hb with rfl | hpair
    · exact (List.nodup_cons.1 ((h.wire.nodup.of_map _).sublist hsub)).1 hrest
    · exact not_pair_sublist (h.wire.nodup.of_map _) hpair
        (((List.singleton_sublist.2 hrest).cons_cons op).trans hsub)

theorem call (h : BatchInv cfg s) (hrun : s.ops.runs r = some run)
    (hs : CallStep cfg s s' r run run')
    (hops : OpInv cfg False s'.ops) : BatchInv cfg s' where
  ops := hops
  wire := h.wire.mono hs.clients (fun m hm => hs.messages ▸ hm) hs.created hs.accepted
  runs r₂ run₂ hrun₂ := by
    rw [hs.runs] at hrun₂
    by_cases hr : r₂ = r
    · subst hr
      rw [Function.update_self] at hrun₂
      cases hrun₂
      exact hs.whole
    · rw [Function.update_of_ne hr] at hrun₂
      refine (h.runs r₂ run₂ hrun₂).pass hs.toCallGrows id rfl rfl rfl rfl rfl fun op hop b hb => ?_
      rintro ⟨x, hx, hxb⟩
      rcases hs.refuses x hx with hold | hnew
      · exact (((h.runs r₂ run₂ hrun₂).taken op hop).2 b hb).2 ⟨x, hold, hxb⟩
      · exact h.not_taken_of_refusesNow hrun hs.mutated hxb (hnew b hxb) hr hrun₂ hop hb
  refused x hx b hxb := by
    rcases hs.refuses x hx with hold | hnew
    · have hfirst := h.refused x hold b hxb
      refine ⟨hs.created ▸ hfirst.created, hs.created ▸ hfirst.first,
        hfirst.gone.imp_left (hs.failed _), fun op hop hb => ?_⟩
      rcases hs.mutates op hop with hop | htaken
      · exact hfirst.unmutated op hop hb
      · exact (((h.runs r run hrun).taken op htaken).2 b hb).2 ⟨x, hold, hxb⟩
    · have hnow := hnew b hxb
      rcases hnow.todo with ⟨rest, htodo⟩
      have hcreated : x ∈ s.ops.created :=
        ((h.runs r run hrun).sub hnow.live).subset (htodo ▸ List.mem_cons_self)
      exact ⟨hs.created ▸ hcreated, hs.created ▸ h.first_of_refusesNow hrun hs.mutated hxb hnow,
        hnow.gone, hnow.unmutated⟩
  logged op hop hb hlogged := by
    rw [hs.created] at hop
    rcases hs.logged op hop hb hlogged with hold | hnew
    · have hkept := h.logged op hop hb hold
      exact ⟨hs.mutated op hkept.1, hs.kept op hkept.2⟩
    · exact hnew
  stored := hs.stored
  acks c opIds hmem id hid := by
    rw [hs.created]
    rcases hs.answers _ hmem with hold | hnew | ⟨rejection, _, hnew⟩
    · rcases h.acks c opIds hold id hid with ⟨op, hop, heq, hacc⟩
      exact ⟨op, hop, heq, fun hb => hs.accepted _ (hacc hb)⟩
    · cases hnew
      rcases List.mem_map.1 hid with ⟨op, hop, rfl⟩
      have hacc := (h.runs r run hrun).accepted op hop
      exact ⟨op, hacc.1, rfl, fun hb => hs.accepted _ (hacc.2 hb)⟩
    · cases hnew
  rejects c rejection hmem := by
    rcases hs.answers _ hmem with hold | hnew | ⟨rejection', hin, hnew⟩
    · exact (h.rejects c rejection hold).mono (fun op hop => hs.created ▸ hop) hs.refused
    · cases hnew
    · cases hnew
      exact ((h.runs r run hrun).rejected _ hin).mono (fun op hop => hs.created ▸ hop) hs.refused
  acked op hop := by
    rw [hs.created]
    have hold : op ∈ s.ops.created ∧ (op.batch.isSome → s.ops.fate op.id = .accepted) :=
      (hs.acked op hop).elim (h.acked op) ((h.runs r run hrun).accepted op)
    exact ⟨hold.1, fun hb => hs.accepted _ (hold.2 hb)⟩
  present op hop b hb := by
    rw [hs.created] at hop
    rw [hs.clients]
    exact (h.present op hop b hb).imp_right
      (Or.imp (hs.accepted _) fun hrefused => hrefused.mono hs.refused)

end BatchInv

/-! ## The steps of a call -/

/-- Only what the call holds changes its fate, and what no call has seen. -/
def FateStep (s : OpState) (r : Nat) (s' : OpState) : Prop :=
  ∀ id, s'.fate id = s.fate id ∨ (s.fate id).holder = some r ∨ s.fate id = .unseen

theorem FateStep.stays {s s' : OpState} (h : FateStep s r s') {id : String} {fate : Fate}
    (hfate : s.fate id = fate) (hheld : fate.holder = none) (hseen : fate ≠ .unseen) :
    s'.fate id = fate := by
  rcases h id with hsame | hholder | hunseen
  · exact hsame.trans hfate
  · rw [hfate, hheld] at hholder
    cases hholder
  · exact absurd (hfate.symm.trans hunseen) hseen

theorem FateStep.setFate {s : OpState} (h : (s.fate op.id).holder = some r) (fate : Fate) :
    FateStep s r (s.setFate op.id fate) := by
  intro id
  by_cases hid : id = op.id
  · exact Or.inr (Or.inl (hid ▸ h))
  · exact Or.inl (setFate_of_ne fate hid)

theorem FateStep.release {s : OpState} : FateStep s r (s.release r) := by
  intro id
  by_cases hheld : (s.fate id).holder = some r
  · exact Or.inr (Or.inl hheld)
  · exact Or.inl (release_other hheld)

theorem FateStep.trans {s s' s'' : OpState} (h : FateStep s r s') (h' : FateStep s' r s'') :
    FateStep s r s'' := by
  intro id
  rcases h id with hsame | hrest
  · rcases h' id with hsame' | hrest'
    · exact Or.inl (hsame'.trans hsame)
    · rw [hsame] at hrest'
      exact Or.inr hrest'
  · exact Or.inr hrest

theorem FateStep.reserve {s : OpState} {kept : List String}
    (hkept : ∀ id ∈ kept, s.fate id = .unseen) :
    FateStep s r (s.reserve r kept) := by
  intro id
  by_cases hid : id ∈ kept
  · exact Or.inr (Or.inr (hkept id hid))
  · exact Or.inl (if_neg hid)

theorem isLogged_of_reserve {s : OpState} {kept : List String} {id : String}
    (h : ((s.reserve r kept).fate id).isLogged) : (s.fate id).isLogged := by
  by_cases hid : id ∈ kept
  · rw [show (s.reserve r kept).fate id = .reserved r from if_pos hid] at h
    exact h.elim
  · rwa [show (s.reserve r kept).fate id = s.fate id from if_neg hid] at h

theorem isLogged_of_setFate {s : OpState} {fate : Fate} {id : String}
    (h : ((s.setFate op.id fate).fate id).isLogged) (hop : id = op.id → (s.fate id).isLogged) :
    (s.fate id).isLogged := by
  by_cases hid : id = op.id
  · exact hop hid
  · rwa [setFate_of_ne fate hid] at h

/-- What a step does to the server, to the callbacks that have run (`ms`), to the ops that were
rejected for themselves (`xs`) and to the stores (`zs`). -/
structure Effect (s : BatchState) (r : Nat) (run run' : OpsRun) (ops' : OpState)
    (ms zs : List ClientOp) : Prop where
  clients : ops'.clients = s.ops.clients
  messages : ops'.messages = s.ops.messages
  created : ops'.created = s.ops.created
  runs : ops'.runs = Function.update s.ops.runs r (some run')
  fate : FateStep s.ops r ops'
  mutates : ∀ op ∈ ms, op ∈ run.phase.taken
  stores : ∀ op ∈ zs, op ∈ ms
  stored : ∀ op, ops'.stored op ↔ s.ops.stored op ∨ op ∈ zs
  logged : ∀ op ∈ s.ops.created, op.batch.isSome → (ops'.fate op.id).isLogged →
    (s.ops.fate op.id).isLogged ∨ op ∈ zs
  answers : ∀ answer ∈ ops'.answers, answer ∈ s.ops.answers ∨
    answer = .ack run.clientId (run.accepted.map (·.id)) ∨
      ∃ rejection ∈ run.rejected, answer = .reject run.clientId rejection
  acked : ∀ op ∈ ops'.acked, op ∈ s.ops.acked ∨ op ∈ run.accepted

namespace Effect

variable {ops' : OpState} {ms xs zs : List ClientOp}

theorem batchInv (h : Effect s r run run' ops' ms zs) (hi : BatchInv cfg s)
    (hrun : s.ops.runs r = some run) (hops : OpInv cfg False ops')
    (hxs : ∀ x ∈ xs, ∀ b, x.batch = some b →
      RefusesNow cfg s ⟨ops', s.mutated ++ ms, s.refused ++ xs⟩ r run x b)
    (hwhole : CallGrows s ⟨ops', s.mutated ++ ms, s.refused ++ xs⟩ →
      RunWhole cfg ⟨ops', s.mutated ++ ms, s.refused ++ xs⟩ run') :
    BatchInv cfg ⟨ops', s.mutated ++ ms, s.refused ++ xs⟩ := by
  have hg : CallGrows s ⟨ops', s.mutated ++ ms, s.refused ++ xs⟩ :=
    ⟨h.created, fun _ hid => h.fate.stays hid rfl Fate.noConfusion,
      fun _ hx => List.mem_append_left _ hx⟩
  refine hi.call hrun
    { hg with
      clients := h.clients
      messages := h.messages
      runs := h.runs
      whole := hwhole hg
      failed := fun _ hid => h.fate.stays hid rfl Fate.noConfusion
      mutated := fun _ hop => List.mem_append_left _ hop
      mutates := fun op hop => (List.mem_append.1 hop).imp_right (h.mutates op)
      refuses := fun x hx => (List.mem_append.1 hx).imp_right (hxs x)
      kept := fun op hop => (h.stored op).2 (Or.inl hop)
      stored := fun op hop => ?_
      logged := fun op hop hb hlogged => ?_
      answers := h.answers
      acked := h.acked } hops
  · refine List.mem_append.2 (((h.stored op).1 hop).imp (hi.stored op) (h.stores op))
  · refine (h.logged op hop hb hlogged).imp_right fun hz => ?_
    exact ⟨List.mem_append_right _ (h.stores op hz), (h.stored op).2 (Or.inr hz)⟩

/-- A step of the call that touches no store and leaves its op as it is. -/
theorem quiet (hclients : ops'.clients = s.ops.clients) (hmessages : ops'.messages = s.ops.messages)
    (hcreated : ops'.created = s.ops.created)
    (hruns : ops'.runs = Function.update s.ops.runs r (some run'))
    (hlog : ops'.storage.log = s.ops.storage.log) (hbuffer : ops'.eagerBuffer = s.ops.eagerBuffer)
    (hanswers : ops'.answers = s.ops.answers) (hacked : ops'.acked = s.ops.acked)
    (hfate : FateStep s.ops r ops')
    (hlogged : ∀ id, (ops'.fate id).isLogged → (s.ops.fate id).isLogged) :
    Effect s r run run' ops' [] [] where
  clients := hclients
  messages := hmessages
  created := hcreated
  runs := hruns
  fate := hfate
  mutates _ hop := absurd hop List.not_mem_nil
  stores _ hop := hop
  stored op := by simp [OpState.stored, hlog, hbuffer]
  logged op _ _ h := Or.inl (hlogged op.id h)
  answers _ hanswer := Or.inl (hanswers ▸ hanswer)
  acked _ hop := Or.inl (hacked ▸ hop)

theorem setRun : Effect s r run run' (s.ops.setRun r run') [] [] :=
  quiet rfl rfl rfl rfl rfl rfl rfl rfl (fun _ => Or.inl rfl) fun _ h => h

theorem throwRun : Effect s r run { run with phase := .threw } (s.ops.throwRun r run) [] [] :=
  quiet rfl rfl rfl rfl rfl rfl rfl rfl FateStep.release fun _ h => isLogged_of_release h

end Effect

/-- The state when the call goes on and nothing is mutated or rejected for itself. -/
theorem BatchInv.quiet {ops' : OpState} (hi : BatchInv cfg s) (hrun : s.ops.runs r = some run)
    (heffect : Effect s r run run' ops' [] []) (hops : OpInv cfg False ops')
    (hwhole : CallGrows s ⟨ops', s.mutated ++ [], s.refused ++ []⟩ →
      RunWhole cfg ⟨ops', s.mutated ++ [], s.refused ++ []⟩ run') :
    BatchInv cfg ⟨ops', s.mutated ++ [], s.refused ++ []⟩ :=
  heffect.batchInv hi hrun hops (fun _ hx => absurd hx List.not_mem_nil) hwhole

theorem refusedBatch_append_nil {ops' : OpState} {ms : List ClientOp} {b : String} :
    (⟨ops', ms, s.refused ++ []⟩ : BatchState).refusedBatch b ↔ s.refusedBatch b := by
  simp [BatchState.refusedBatch]

/-- What a call has under way is of no batch that has an op rejected for itself. -/
theorem RunWhole.free (h : RunWhole cfg s run) {ops' : OpState} {ms : List ClientOp} :
    ∀ op ∈ run.phase.taken, ∀ b, op.batch = some b →
      ¬ (⟨ops', ms, s.refused ++ []⟩ : BatchState).refusedBatch b :=
  fun op hop b hb => refusedBatch_append_nil.not.2 ((h.taken op hop).2 b hb).2

theorem BatchInv.reserve (hi : BatchInv cfg s) {outcome : ReserveOutcome} {ops' : OpState}
    (hops : OpInv cfg False ops') (hs : stepReserve cfg s.ops r outcome = some ops') :
    BatchInv cfg ⟨ops', s.mutated ++ [], s.refused ++ []⟩ := by
  unfold stepReserve at hs
  split at hs
  · cases hs
  rename_i run hrun
  have hwhole := hi.runs r run hrun
  split at hs
  case h_2 => cases hs
  rename_i ids hphase
  dsimp only at hs
  cases outcome with
  | ok =>
      cases hs
      have hfresh : ∀ id ∈ (cfg.reserveCall ids).1.filter (· ∉ s.ops.storage.reserved),
          s.ops.fate id = .unseen := fun id hid =>
        (hi.ops.unseen_iff id).2 (by simpa using (List.mem_filter.1 hid).2)
      refine BatchInv.quiet hi hrun (.quiet rfl rfl rfl rfl rfl rfl rfl rfl (.reserve hfresh)
        fun _ => isLogged_of_reserve) hops fun hg => ?_
      refine hwhole.pass hg ?_ ?_ rfl rfl rfl rfl hwhole.free
      · rw [hphase]
        exact fun _ => trivial
      · rw [hphase]
        dsimp only
        split <;> rfl
  | threw kept =>
      dsimp only at hs
      split at hs
      · rename_i hkept
        cases hs
        have hunseen : ∀ id ∈ kept, s.ops.fate id = .unseen := fun id hid =>
          (hi.ops.unseen_iff id).2 (hkept id hid).2
        have hfate := (FateStep.reserve (r := r) hunseen).trans
          (FateStep.release (s := s.ops.reserve r kept) (r := r))
        refine BatchInv.quiet hi hrun (.quiet rfl rfl rfl rfl rfl rfl rfl rfl hfate
          fun _ h => isLogged_of_reserve (isLogged_of_release h)) hops fun hg => ?_
        exact hwhole.halt hg (fun h => h) rfl rfl rfl rfl
      · cases hs

/-- An exception leaves the loop. -/
theorem BatchInv.threw (hi : BatchInv cfg s) (hrun : s.ops.runs r = some run)
    (hops : OpInv cfg False (s.ops.throwRun r run)) :
    BatchInv cfg ⟨s.ops.throwRun r run, s.mutated ++ [], s.refused ++ []⟩ :=
  hi.quiet hrun .throwRun hops fun hg => (hi.runs r run hrun).halt hg (fun h => h) rfl rfl rfl rfl

theorem BatchInv.flush (hi : BatchInv cfg s) {ok : Bool} {ops' : OpState}
    (hops : OpInv cfg False ops') (hs : stepFlush s.ops r ok = some ops') :
    BatchInv cfg ⟨ops', s.mutated ++ [], s.refused ++ []⟩ := by
  unfold stepFlush at hs
  split at hs
  · cases hs
  rename_i run hrun
  have hwhole := hi.runs r run hrun
  split at hs
  case h_2 => cases hs
  rename_i op hphase
  split at hs
  · cases hs
    refine hi.quiet hrun .setRun hops fun hg => ?_
    refine hwhole.pass hg ?_ ?_ rfl rfl rfl rfl hwhole.free
    · rw [hphase]
      exact fun _ => trivial
    · rw [hphase]
      rfl
  · split at hs
    · cases hs
      exact hi.threw hrun hops
    · cases hs

/-- The op under way is accepted. -/
theorem RunWhole.accept (h : RunWhole cfg s run) (hg : CallGrows s s') (hlive : run.phase.live)
    (htodo : run.todo = op :: run'.ops) (htaken : run'.phase.taken = none)
    (hfailed : run'.failedBatchIds = run.failedBatchIds) (hrejected : run'.rejected = run.rejected)
    (haccepted : run'.accepted = run.accepted ++ [op])
    (hacc : op.batch.isSome → s'.ops.fate op.id = .accepted) : RunWhole cfg s' run' := by
  have hop : op ∈ s.ops.created := (h.sub hlive).subset (htodo ▸ List.mem_cons_self)
  refine h.drop hg hlive htodo htaken (fun b => ?_) (fun b hb => ?_) (fun b hb => ?_)
    (hrejected ▸ h.rejected_mono hg) fun op' hop' => ?_
  · rw [hfailed]
    exact id
  · exact Or.inr (hacc (by rw [hb]; rfl))
  · rw [hfailed] at hb
    exact (h.failed b hb).mono hg.refused
  · rw [haccepted] at hop'
    rcases List.mem_append.1 hop' with hold | hnew
    · exact h.accepted_mono hg op' hold
    · rw [List.mem_singleton.1 hnew]
      exact ⟨hg.created ▸ hop, hacc⟩

theorem BatchInv.settle (hi : BatchInv cfg s) {ok : Bool} {ops' : OpState}
    (hops : OpInv cfg False ops') (hs : stepSettle s.ops r ok = some ops') :
    BatchInv cfg ⟨ops', s.mutated ++ [], s.refused ++ []⟩ := by
  unfold stepSettle at hs
  split at hs
  · cases hs
  rename_i run hrun
  have hwhole := hi.runs r run hrun
  split at hs
  case h_2 => cases hs
  rename_i op hphase
  have hcurrent := ((hi.ops.runs r run hrun).current op (.persisted r) (by rw [hphase]; rfl)).2
  split at hs
  · cases hs
    have hfate : FateStep s.ops r (s.ops.setFate op.id .accepted) :=
      .setFate (by rw [hcurrent]; rfl) _
    refine hi.quiet hrun (.quiet rfl rfl rfl rfl rfl rfl rfl rfl hfate fun id hlogged => ?_) hops
      fun hg => ?_
    · refine isLogged_of_setFate hlogged fun hid => ?_
      show (s.ops.fate id).isLogged
      rw [hid, hcurrent]
      trivial
    · refine hwhole.accept hg ?_ ?_ rfl rfl rfl rfl fun _ =>
        setFate_self (s := s.ops) op.id .accepted
      · rw [hphase]
        trivial
      · rw [OpsRun.todo, hphase]
        rfl
  · cases hs
    exact hi.threw hrun hops

theorem BatchInv.answer (hi : BatchInv cfg s) {ok : Bool} {ops' : OpState}
    (hops : OpInv cfg False ops') (hs : stepAnswer s.ops r ok = some ops') :
    BatchInv cfg ⟨ops', s.mutated ++ [], s.refused ++ []⟩ := by
  unfold stepAnswer at hs
  split at hs
  · cases hs
  rename_i run hrun
  have hwhole := hi.runs r run hrun
  split at hs
  case h_2 => cases hs
  split at hs
  · dsimp only at hs
    cases hs
    refine hi.quiet hrun
      { (Effect.setRun : Effect s r run { run with phase := .answered } _ [] []) with
        answers := fun answer hanswer => ?_
        acked := fun op hop => List.mem_append.1 hop } hops fun hg => ?_
    · rcases List.mem_append.1 hanswer with hmem | hreject
      · rcases List.mem_append.1 hmem with hold | hack
        · exact Or.inl hold
        · split at hack
          · exact absurd hack List.not_mem_nil
          · exact Or.inr (Or.inl (List.mem_singleton.1 hack))
      · rcases List.mem_map.1 hreject with ⟨rejection, hin, rfl⟩
        exact Or.inr (Or.inr ⟨rejection, hin, rfl⟩)
    · exact hwhole.halt hg (fun h => h) rfl rfl rfl rfl
  · split at hs
    · cases hs
      exact hi.quiet hrun .setRun hops fun hg => hwhole.halt hg (fun h => h) rfl rfl rfl rfl
    · cases hs

/-! ### Rejecting -/

theorem lookup_rejectOp (run : OpsRun) (op : ClientOp) (reason : ErrorReason) (b : String) :
    (run.rejectOp op reason).failedBatchIds.lookup b =
      if op.batch = some b then some reason else run.failedBatchIds.lookup b := by
  unfold OpsRun.rejectOp
  cases hbatch : op.batch with
  | none => simp
  | some b' =>
      by_cases hb : b = b'
      · subst hb
        simp [AList.lookup_insert]
      · simp [AList.lookup_insert_ne hb, Ne.symm hb]

/-- The first op is rejected for itself, and its batch with it. -/
theorem RunWhole.reject (h : RunWhole cfg s run) (hg : CallGrows s s') (hlive : run.phase.live)
    (htodo : run.todo = op :: run'.ops) (hfailed : run'.failedBatchIds = run.failedBatchIds)
    (hrejected : run'.rejected = run.rejected) (haccepted : run'.accepted = run.accepted)
    (hmem : op ∈ s'.refused) (reason : ErrorReason) :
    RunWhole cfg s' (run'.rejectOp op reason) := by
  have hop : op ∈ s.ops.created := (h.sub hlive).subset (htodo ▸ List.mem_cons_self)
  refine h.drop hg hlive htodo rfl (fun b => ?_) (fun b hb => ?_) (fun b => ?_)
    (fun rejection hrej => ?_) (haccepted ▸ h.accepted_mono hg)
  · rw [lookup_rejectOp, hfailed]
    split
    · exact fun h => nomatch h
    · exact id
  · rw [lookup_rejectOp, if_pos hb]
    exact Or.inl rfl
  · rw [lookup_rejectOp, hfailed]
    split
    · rename_i hb
      exact fun _ => ⟨op, hmem, hb⟩
    · exact fun hb => (h.failed b hb).mono hg.refused
  · rcases List.mem_append.1 hrej with hold | hnew
    · exact h.rejected_mono hg rejection (hrejected ▸ hold)
    · rw [List.mem_singleton.1 hnew]
      exact ⟨op, hg.created ▸ hop, rfl, rfl, fun b hb => ⟨op, hmem, hb⟩⟩

/-- The head of the loop is of a batch that has failed. -/
theorem RunWhole.skip (h : RunWhole cfg s run) (hg : CallGrows s s') (hphase : run.phase = .looping)
    {rest : List ClientOp} (hops : run.ops = op :: rest) {reason : ErrorReason}
    (hbatch : op.batch.bind run.failedBatchIds.lookup = some reason) :
    RunWhole cfg s' { run with
      ops := rest
      rejected := run.rejected ++ [⟨op.id, op.batchId, reason⟩] } := by
  have htodo : run.todo = op :: rest := by rw [OpsRun.todo, hphase, hops]; rfl
  have hlive : run.phase.live := by rw [hphase]; trivial
  have hop : op ∈ s.ops.created := (h.sub hlive).subset (htodo ▸ List.mem_cons_self)
  rcases Option.bind_eq_some_iff.1 hbatch with ⟨b, hb, hlookup⟩
  have hsome : (run.failedBatchIds.lookup b).isSome := by rw [hlookup]; rfl
  refine h.drop hg hlive htodo (by rw [hphase]; rfl) (fun _ => id) (fun b' hb' => ?_)
    (fun b' hb' => (h.failed b' hb').mono hg.refused) (fun rejection hrej => ?_)
    (h.accepted_mono hg)
  · rw [hb] at hb'
    cases hb'
    exact Or.inl hsome
  · rcases List.mem_append.1 hrej with hold | hnew
    · exact h.rejected_mono hg rejection hold
    · rw [List.mem_singleton.1 hnew]
      refine ⟨op, hg.created ▸ hop, rfl, rfl, fun b' hb' => ?_⟩
      rw [hb] at hb'
      cases hb'
      exact (h.failed b hsome).mono hg.refused

/-! ### The head of the loop -/

/-- An op that the call has reserved is of no batch that has an op rejected for itself. -/
theorem BatchInv.free_of_fresh (h : BatchInv cfg s) (hrun : s.ops.runs r = some run)
    (hphase : run.phase = .looping) {rest : List ClientOp} (hops : run.ops = op :: rest)
    (hreservable : (cfg.reservable op).isSome)
    (hfresh : s.ops.fate op.id = .reserved r) {b : String}
    (hb : op.batch = some b) (hunfailed : run.failedBatchIds.lookup b = none) :
    ¬ s.refusedBatch b := by
  rintro ⟨x, hx, hxb⟩
  have hwhole := h.runs r run hrun
  have htodo : run.todo = op :: rest := by rw [OpsRun.todo, hphase, hops]; rfl
  have hlive : run.phase.live := by rw [hphase]; trivial
  have hfirst := h.refused x hx b hxb
  have hsub := hwhole.sub hlive
  rw [htodo] at hsub
  have hin : x ∈ run.todo := by
    refine (hwhole.whole hlive op (htodo ▸ List.mem_cons_self) b hb hunfailed x hfirst.created
      hxb).resolve_right ?_
    exact h.not_accepted hfirst.unmutated hfirst.created hxb
  rw [htodo] at hin
  rcases List.mem_cons.1 hin with rfl | hrest
  · rcases hfirst.gone with hfailed | hnone
    · rw [hfresh] at hfailed
      cases hfailed
    · rw [hnone] at hreservable
      cases hreservable
  · rcases hfirst.first op (hsub.subset List.mem_cons_self) hb with rfl | hpair
    · exact (List.nodup_cons.1 ((h.wire.nodup.of_map _).sublist hsub)).1 hrest
    · exact not_pair_sublist (h.wire.nodup.of_map _) hpair
        (((List.singleton_sublist.2 hrest).cons_cons op).trans hsub)

/-- The head of the loop is taken. -/
theorem RunWhole.take (h : RunWhole cfg s run) (hg : CallGrows s s') (hphase : run.phase = .looping)
    (hops : run.ops = op :: run'.ops) (htaken : run'.phase.taken = some op)
    (hfailed : run'.failedBatchIds = run.failedBatchIds) (hrejected : run'.rejected = run.rejected)
    (haccepted : run'.accepted = run.accepted) (hreservable : (cfg.reservable op).isSome)
    (hfree : ∀ b, op.batch = some b →
      run.failedBatchIds.lookup b = none ∧ ¬ s'.refusedBatch b) : RunWhole cfg s' run' := by
  have hlive : run.phase.live := by rw [hphase]; trivial
  have htodo : run'.todo = run.todo := by
    rw [OpsRun.todo, OpsRun.todo, htaken, hphase, hops]
    rfl
  refine ⟨fun _ => ?_, fun _ op₁ hop₁ b hb hnone op' hop' hb' => ?_, fun op₁ hop₁ => ?_,
    fun b hb => ?_, hrejected ▸ h.rejected_mono hg, haccepted ▸ h.accepted_mono hg⟩
  · rw [htodo, hg.created]
    exact h.sub hlive
  · rw [htodo] at hop₁ ⊢
    rw [hfailed] at hnone
    rw [hg.created] at hop'
    exact (h.whole hlive op₁ hop₁ b hb hnone op' hop' hb').imp_right (hg.accepted _)
  · rw [htaken] at hop₁
    cases hop₁
    rw [hfailed]
    exact ⟨hreservable, hfree⟩
  · rw [hfailed] at hb
    exact (h.failed b hb).mono hg.refused

end Server
end Reflectdb
