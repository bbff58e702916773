import Reflectdb.Server.BatchRuns

/-!
# Batch steps — every step keeps batches whole

The loop of `handleOps` over a message, the clients and the wire, and with them every run.
-/

namespace Reflectdb
namespace Server

open Core Client Lib

variable {cfg : OpConfig} {s s' : BatchState} {r : Nat} {run run' : OpsRun} {op : ClientOp}
  {ops' : OpState}

/-! ## The head of the loop -/

theorem reservable_eq_none_of_query (hq : cfg.queries op.table = none) :
    cfg.reservable op = none := by
  rw [OpConfig.reservable, hq]
  rfl

theorem reservable_eq_none_of_mutate {options : QueryOptions}
    (hq : cfg.queries op.table = some options) (hm : ¬ options.mutate) :
    cfg.reservable op = none := by
  rw [OpConfig.reservable, hq]
  simpa [Option.filter] using hm

/-- The head of the loop is rejected: its query is not registered, or takes no writes. -/
theorem BatchInv.refuseHead (hi : BatchInv cfg s) (hrun : s.ops.runs r = some run)
    (hphase : run.phase = .looping) {rest : List ClientOp} (hops : run.ops = op :: rest)
    (hbatch : op.batch.bind run.failedBatchIds.lookup = none) (hnone : cfg.reservable op = none)
    (hguard : RefusesFirst cfg s (.next r)) {reason : ErrorReason}
    (hinv : OpInv cfg False (s.ops.setRun r ({ run with ops := rest }.rejectOp op reason))) :
    BatchInv cfg ⟨s.ops.setRun r ({ run with ops := rest }.rejectOp op reason),
      s.mutated ++ [], s.refused ++ [op]⟩ := by
  have hrefuses : s.ops.refuses cfg (.next r) = some op := by
    simp only [OpState.refuses, OpState.refusedHead, hrun, hphase, hops, hbatch, hnone, and_self,
      if_true]
  have hlive : run.phase.live := by rw [hphase]; trivial
  have htodo : run.todo = op :: rest := by rw [OpsRun.todo, hphase, hops]; rfl
  refine Effect.setRun.batchInv hi hrun hinv (fun x hx b hb => ?_) fun hg => ?_
  · rw [List.mem_singleton.1 hx] at hb ⊢
    refine ⟨hlive, ⟨rest, htodo⟩, ?_, Or.inr hnone, Or.inr hnone, fun op' hop' hb' => ?_⟩
    · rwa [hb] at hbatch
    · exact hguard op hrefuses (by rw [hb]; rfl) op' hop' (hb'.trans hb.symm)
  · refine RunWhole.reject (hi.runs r run hrun) hg hlive ?_ ?_ ?_ ?_ (by simp) reason
    · exact htodo
    all_goals rfl

theorem BatchInv.processClientOp (hi : BatchInv cfg s) (hrun : s.ops.runs r = some run)
    (hphase : run.phase = .looping) {rest : List ClientOp} (hops : run.ops = op :: rest)
    (hbatch : op.batch.bind run.failedBatchIds.lookup = none)
    (hreplay : BatchReplayAccepted cfg s.ops (.next r)) (hguard : RefusesFirst cfg s (.next r))
    (hinv : OpInv cfg False (processClientOp cfg s.ops r { run with ops := rest } op)) :
    BatchInv cfg ⟨Server.processClientOp cfg s.ops r { run with ops := rest } op,
      s.mutated ++ [], s.refused ++ (s.ops.refuses cfg (.next r)).toList⟩ := by
  have hwhole := hi.runs r run hrun
  have hlive : run.phase.live := by rw [hphase]; trivial
  have htodo : run.todo = op :: rest := by rw [OpsRun.todo, hphase, hops]; rfl
  have hrefused :
      cfg.reservable op = none → s.ops.refuses cfg (.next r) = some op := fun hnone => by
    simp only [OpState.refuses, OpState.refusedHead, hrun, hphase, hops, hbatch, hnone, and_self,
      if_true]
  unfold Server.processClientOp at hinv ⊢
  split at hinv
  · rename_i hq
    have hnone := reservable_eq_none_of_query hq
    rw [hrefused hnone]
    exact hi.refuseHead hrun hphase hops hbatch hnone hguard hinv
  · rename_i options hq
    split at hinv
    · rename_i hm
      have hnone := reservable_eq_none_of_mutate hq hm
      rw [hrefused hnone, if_pos hm]
      exact hi.refuseHead hrun hphase hops hbatch hnone hguard hinv
    · rename_i hm
      have hreservable : (cfg.reservable op).isSome := by
        simp only [Bool.not_eq_true, Bool.not_eq_false] at hm
        simp [OpConfig.reservable, hq, hm]
      have hnot : s.ops.refuses cfg (.next r) = none := by
        have hne : cfg.reservable op ≠ none := fun hnone => by simp [hnone] at hreservable
        simp only [OpState.refuses, OpState.refusedHead, hrun, hphase, hops, hne,
          and_false, if_false]
      rw [hnot, if_neg hm]
      split at hinv
      · rename_i hmem
        rw [if_pos hmem]
        have hfresh := (hi.ops.runs r run hrun).fresh hlive op.id hmem
        have hheld : (s.ops.fate op.id).holder = some r := by rw [hfresh]; rfl
        refine hi.quiet hrun (.quiet rfl rfl rfl rfl rfl rfl rfl rfl (.setFate hheld _)
          fun id hlogged => ?_) hinv fun hg => ?_
        · refine isLogged_of_setFate hlogged fun hid => ?_
          rw [hid, setFate_self] at hlogged
          exact hlogged.elim
        · refine hwhole.take hg hphase hops ?_ rfl rfl rfl hreservable fun b hb => ?_
          · dsimp only
            split <;> rfl
          · have hunfailed : run.failedBatchIds.lookup b = none := by rwa [hb] at hbatch
            exact ⟨hunfailed, refusedBatch_append_nil.not.2
              (hi.free_of_fresh hrun hphase hops hreservable hfresh hb hunfailed)⟩
      · rename_i hmem
        rw [if_neg hmem]
        refine hi.quiet hrun .setRun hinv fun hg => ?_
        refine hwhole.accept hg hlive htodo rfl rfl rfl rfl fun hsome => ?_
        refine hreplay op ?_ hsome
        simp [OpState.replayed, hrun, hphase, hops, hbatch, hreservable, hmem]

theorem BatchInv.next (hi : BatchInv cfg s) (hinv : OpInv cfg False ops')
    (hreplay : BatchReplayAccepted cfg s.ops (.next r)) (hguard : RefusesFirst cfg s (.next r))
    (hs : stepNext cfg s.ops r = some ops') :
    BatchInv cfg ⟨ops', s.mutated ++ [], s.refused ++ (s.ops.refuses cfg (.next r)).toList⟩ := by
  unfold stepNext at hs
  split at hs
  · cases hs
  rename_i run hrun
  have hwhole := hi.runs r run hrun
  split at hs
  case h_2 => cases hs
  rename_i hphase
  split at hs
  · rename_i hops
    cases hs
    have hnot : s.ops.refuses cfg (.next r) = none := by
      simp only [OpState.refuses, OpState.refusedHead, hrun, hphase, hops]
    rw [hnot]
    exact hi.quiet hrun (.quiet rfl rfl rfl rfl rfl rfl rfl rfl FateStep.release
      fun _ h => isLogged_of_release h) hinv
      fun hg => hwhole.halt hg (fun h => h) rfl rfl rfl rfl
  · rename_i op rest hops
    dsimp only at hs
    split at hs
    · rename_i reason hbatch
      cases hs
      have hnot : s.ops.refuses cfg (.next r) = none := by
        simp only [OpState.refuses, OpState.refusedHead, hrun, hphase, hops, hbatch, reduceCtorEq,
          false_and, if_false]
      rw [hnot]
      exact hi.quiet hrun .setRun hinv fun hg => hwhole.skip hg hphase hops hbatch
    · rename_i hbatch
      cases hs
      exact hi.processClientOp hrun hphase hops hbatch hreplay hguard hinv

/-! ## An attempt -/

section Attempt

variable {n : Nat} {ms : List ClientOp}

/-- What the call attempts. -/
structure Attempting (s : BatchState) (r : Nat) (run : OpsRun) (op : ClientOp) (n : Nat) :
    Prop where
  call : s.ops.runs r = some run
  phase : run.phase = .attempting op n
  processing : s.ops.fate op.id = .processing r

namespace Attempting

theorem attempted (h : Attempting s r run op n) : s.ops.attempted r = some op := by
  rw [OpState.attempted, h.call, Option.bind_some, h.phase]
  rfl

theorem live (h : Attempting s r run op n) : run.phase.live := by
  rw [h.phase]
  trivial

theorem taken (h : Attempting s r run op n) : op ∈ run.phase.taken := by
  rw [h.phase]
  rfl

theorem todo (h : Attempting s r run op n) : run.todo = op :: run.ops := by
  rw [OpsRun.todo, h.phase]
  rfl

theorem held (h : Attempting s r run op n) : (s.ops.fate op.id).holder = some r := by
  rw [h.processing]
  rfl

end Attempting

/-- The callback has run, and the stores take nothing. -/
theorem Effect.mutated (h : Effect s r run run' ops' [] []) (hop : op ∈ run.phase.taken) :
    Effect s r run run' ops' [op] [] :=
  { h with
    mutates := fun _ hop' => (List.mem_singleton.1 hop') ▸ hop
    stores := fun _ hop' => absurd hop' List.not_mem_nil }

/-- The callback has run, and a store takes the op. -/
theorem Effect.storing (h : Attempting s r run op n) (hclients : ops'.clients = s.ops.clients)
    (hmessages : ops'.messages = s.ops.messages) (hcreated : ops'.created = s.ops.created)
    (hruns : ops'.runs = Function.update s.ops.runs r (some run'))
    (hstored : ∀ op', ops'.stored op' ↔ s.ops.stored op' ∨ op' = op)
    (hanswers : ops'.answers = s.ops.answers) (hacked : ops'.acked = s.ops.acked)
    (hfate : FateStep s.ops r ops')
    (hlogged : ∀ id, (ops'.fate id).isLogged → (s.ops.fate id).isLogged ∨ id = op.id)
    (hid : ∀ op' ∈ s.ops.created, op'.id = op.id → op' = op) :
    Effect s r run run' ops' [op] [op] where
  clients := hclients
  messages := hmessages
  created := hcreated
  runs := hruns
  fate := hfate
  mutates op' hop' := (List.mem_singleton.1 hop') ▸ h.taken
  stores _ hop' := hop'
  stored op' := by rw [hstored, List.mem_singleton]
  logged op' hop' _ h := (hlogged op'.id h).imp_right fun heq =>
    List.mem_singleton.2 (hid op' hop' heq)
  answers _ hanswer := Or.inl (hanswers ▸ hanswer)
  acked _ hop := Or.inl (hacked ▸ hop)

theorem stored_logOp {s : OpState} {op op' : ClientOp} :
    (s.logOp op).stored op' ↔ s.stored op' ∨ op' = op := by
  simp only [OpState.stored, OpState.logOp, List.mem_append, List.mem_singleton]
  tauto

theorem stored_bufferOp {s : OpState} {op op' : ClientOp} :
    (s.bufferOp op).stored op' ↔ s.stored op' ∨ op' = op := by
  simp only [OpState.stored, OpState.bufferOp, List.mem_append, List.mem_singleton]
  tauto

/-- An op that is told by its id. -/
theorem BatchInv.eq_of_id (hi : BatchInv cfg s) (h : Attempting s r run op n) :
    ∀ op' ∈ s.ops.created, op'.id = op.id → op' = op := by
  have hop : op ∈ s.ops.created :=
    ((hi.runs r run h.call).sub h.live).subset (h.todo ▸ List.mem_cons_self)
  exact fun op' hop' hid => hi.wire.eq_of_id hop' hop hid

/-- Nothing is rejected for itself, and the call goes on. -/
theorem BatchInv.mutate {zs : List ClientOp} (hi : BatchInv cfg s) (h : Attempting s r run op n)
    (heffect : Effect s r run run' ops' [op] zs) (hinv : OpInv cfg False ops')
    (hwhole : CallGrows s ⟨ops', s.mutated ++ [op], s.refused ++ []⟩ →
      RunWhole cfg ⟨ops', s.mutated ++ [op], s.refused ++ []⟩ run') :
    BatchInv cfg ⟨ops', s.mutated ++ (s.ops.attempted r).toList, s.refused ++ []⟩ := by
  rw [h.attempted]
  exact heffect.batchInv hi h.call hinv (fun _ hx => absurd hx List.not_mem_nil) hwhole

/-- The attempt is given up: its op is rejected for itself. -/
theorem BatchInv.refuse (hi : BatchInv cfg s) (h : Attempting s r run op n) (reason : ErrorReason)
    (hms : ∀ op' ∈ ms, op' = op)
    (hguard : op.batch.isSome → ∀ op' ∈ s.mutated ++ ms, op'.batch ≠ op.batch)
    (hinv : OpInv cfg False ((s.ops.setRun r (run.rejectOp op reason)).setFate op.id .failed)) :
    BatchInv cfg ⟨(s.ops.setRun r (run.rejectOp op reason)).setFate op.id .failed,
      s.mutated ++ ms, s.refused ++ [op]⟩ := by
  have heffect : Effect s r run (run.rejectOp op reason)
      ((s.ops.setRun r (run.rejectOp op reason)).setFate op.id .failed) ms [] :=
    { (Effect.quiet rfl rfl rfl rfl rfl rfl rfl rfl (.setFate h.held _) fun id hlogged =>
        isLogged_of_setFate hlogged fun hid => by
          rw [hid, setFate_self] at hlogged
          exact hlogged.elim :
        Effect s r run (run.rejectOp op reason)
          ((s.ops.setRun r (run.rejectOp op reason)).setFate op.id .failed) [] []) with
      mutates := fun op' hop' => (hms op' hop') ▸ h.taken
      stores := fun _ hop' => absurd hop' List.not_mem_nil }
  have hwhole := hi.runs r run h.call
  refine heffect.batchInv hi h.call hinv (fun x hx b hb => ?_) fun hg => ?_
  · rw [List.mem_singleton.1 hx] at hb ⊢
    exact ⟨h.live, ⟨run.ops, h.todo⟩, ((hwhole.taken op h.taken).2 b hb).1, Or.inl h.processing,
      Or.inl (setFate_self op.id .failed), fun op' hop' hb' =>
        hguard (by rw [hb]; rfl) op' hop' (hb'.trans hb.symm)⟩
  · exact hwhole.reject hg h.live h.todo rfl rfl rfl (by simp) reason

/-- The storage call throws, with or without its effect. -/
theorem BatchInv.writeThrew (hi : BatchInv cfg s) (h : Attempting s r run op n) (tookEffect : Bool)
    (hinv : OpInv cfg False (s.ops.writeThrew r run op tookEffect)) :
    BatchInv cfg ⟨s.ops.writeThrew r run op tookEffect,
      s.mutated ++ (s.ops.attempted r).toList, s.refused ++ []⟩ := by
  have hwhole := hi.runs r run h.call
  cases tookEffect with
  | false =>
      exact hi.mutate h (Effect.throwRun.mutated h.taken) hinv
        fun hg => hwhole.halt hg (fun h => h) rfl rfl rfl rfl
  | true =>
      refine hi.mutate h
        (.storing h rfl rfl rfl rfl (fun _ => stored_logOp) rfl rfl FateStep.release
        (fun _ hlogged => Or.inl (isLogged_of_release hlogged)) (hi.eq_of_id h)) hinv fun hg => ?_
      exact hwhole.halt hg (fun h => h) rfl rfl rfl rfl

/-- The op is persisted and accepted, or on its way to be. -/
theorem BatchInv.persist (hi : BatchInv cfg s) (h : Attempting s r run op n) {base : OpState}
    {fate : Fate} (hbase : base = s.ops.logOp op ∨ base = s.ops.bufferOp op)
    (hinv : OpInv cfg False ((base.setRun r run').setFate op.id fate))
    (hwhole : ∀ s' : BatchState, CallGrows s s' → s'.refused = s.refused ++ [] →
      s'.ops.fate op.id = fate → RunWhole cfg s' run') :
    BatchInv cfg ⟨(base.setRun r run').setFate op.id fate,
      s.mutated ++ (s.ops.attempted r).toList, s.refused ++ []⟩ := by
  have hstored : ∀ op', base.stored op' ↔ s.ops.stored op' ∨ op' = op := by
    rcases hbase with rfl | rfl
    · exact fun _ => stored_logOp
    · exact fun _ => stored_bufferOp
  have hfate : base.fate = s.ops.fate := by rcases hbase with rfl | rfl <;> rfl
  have hsteps : FateStep s.ops r ((base.setRun r run').setFate op.id fate) := by
    intro id
    by_cases hid : id = op.id
    · exact Or.inr (Or.inl (hid ▸ h.held))
    · refine Or.inl ((setFate_of_ne (s := base.setRun r run') fate hid).trans ?_)
      show base.fate id = s.ops.fate id
      rw [hfate]
  refine hi.mutate h (.storing h ?_ ?_ ?_ ?_ hstored ?_ ?_ hsteps (fun id hlogged => ?_)
    (hi.eq_of_id h)) hinv fun hg =>
      hwhole _ hg rfl (setFate_self (s := base.setRun r run') op.id fate)
  any_goals rcases hbase with rfl | rfl <;> rfl
  by_cases hid : id = op.id
  · exact Or.inr hid
  · rw [setFate_of_ne fate hid] at hlogged
    refine Or.inl ?_
    rw [← hfate]
    exact hlogged

theorem BatchInv.consistent (hi : BatchInv cfg s) (h : Attempting s r run op n)
    {options : QueryOptions} {affected : List String} {outcome : WriteOutcome}
    (hguard : RefusesFirst cfg s (.attempt r (.write affected outcome)))
    (hinv : OpInv cfg False ops')
    (hs : persistConsistentOp cfg s.ops r run op options n affected outcome = some ops') :
    BatchInv cfg ⟨ops', s.mutated ++ (s.ops.attempted r).toList,
      s.refused ++ (s.ops.refuses cfg (.attempt r (.write affected outcome))).toList⟩ := by
  have hwhole := hi.runs r run h.call
  cases outcome with
  | ok =>
      cases hs
      refine hi.persist h (Or.inl rfl) hinv fun s' hg _ hfate => ?_
      exact hwhole.accept hg h.live h.todo rfl rfl rfl rfl fun _ => hfate
  | threw tookEffect =>
      cases hs
      exact hi.writeThrew h tookEffect hinv
  | lost =>
      have hrefuses : s.ops.refuses cfg (.attempt r (.write affected .lost)) =
          if n + 1 < MAX_WRITE_ATTEMPTS then none else some op := by
        simp only [OpState.refuses, h.call, Option.bind_some, h.phase, Phase.lastAttempt]
      simp only [persistConsistentOp] at hs
      split at hs
      · split at hs
        · rename_i hmore
          cases hs
          rw [hrefuses, if_pos hmore]
          refine hi.mutate h (Effect.setRun.mutated h.taken) hinv fun hg => ?_
          refine hwhole.pass hg (fun _ => h.live) ?_ rfl rfl rfl rfl hwhole.free
          rw [h.phase]
          rfl
        · rename_i hlast
          cases hs
          rw [hrefuses, if_neg hlast, h.attempted]
          refine hi.refuse h .serverError (fun op' hop' => List.mem_singleton.1 hop') ?_ hinv
          have hfirst := hguard op (by rw [hrefuses, if_neg hlast]; rfl)
          simpa only [OpState.mutates, h.attempted] using hfirst
      · cases hs
  | overflow tookEffect => cases hs

theorem BatchInv.eager (hi : BatchInv cfg s) (h : Attempting s r run op n)
    {options : QueryOptions} {affected : List String} {outcome : WriteOutcome}
    (hloses : ∀ op ∈ s.ops.loses (.attempt r (.write affected outcome)), op.batch = none)
    (hinv : OpInv cfg False ops')
    (hs : persistEagerOp s.ops r run op options outcome = some ops') :
    BatchInv cfg ⟨ops', s.mutated ++ (s.ops.attempted r).toList,
      s.refused ++ (s.ops.refuses cfg (.attempt r (.write affected outcome))).toList⟩ := by
  have hwhole := hi.runs r run h.call
  have hsettles : ∀ s' : BatchState, CallGrows s s' → s'.refused = s.refused ++ [] →
      RunWhole cfg s' { run with phase := .settling op } := by
    intro s' hg hrefused
    refine hwhole.pass hg (fun _ => h.live) ?_ rfl rfl rfl rfl fun op' hop' b hb => ?_
    · rw [h.phase]
      rfl
    · rintro ⟨x, hx, hxb⟩
      rw [hrefused, List.append_nil] at hx
      exact ((hwhole.taken op' hop').2 b hb).2 ⟨x, hx, hxb⟩
  cases outcome with
  | ok =>
      cases hs
      refine hi.persist h ?_ hinv fun s' hg hrefused _ => hsettles s' hg hrefused
      split
      · exact Or.inl rfl
      · exact Or.inr rfl
  | threw tookEffect =>
      simp only [persistEagerOp] at hs
      split at hs
      · cases hs
        exact hi.writeThrew h tookEffect hinv
      · cases hs
  | lost => cases hs
  | overflow tookEffect =>
      simp only [persistEagerOp] at hs
      split at hs
      · cases hs
        cases tookEffect with
        | true =>
            exact hi.persist h (Or.inl rfl) hinv fun s' hg hrefused _ => hsettles s' hg hrefused
        | false =>
            -- Nothing stores the op, so it is of no batch.
            have hbatch : op.batch = none := hloses op (by rw [OpState.loses, h.attempted]; rfl)
            have heffect : Effect s r run { run with phase := .settling op }
                ((s.ops.setRun r { run with phase := .settling op }).setFate op.id (.persisted r))
                [op] [] := by
              refine ⟨rfl, rfl, rfl, rfl, .setFate h.held _,
                fun _ hop' => (List.mem_singleton.1 hop') ▸ h.taken,
                fun _ hop' => absurd hop' List.not_mem_nil, fun op' => by simp [OpState.stored],
                fun op' hop' hsome hlogged => ?_, fun _ hanswer => Or.inl hanswer,
                fun _ hop' => Or.inl hop'⟩
              refine Or.inl (isLogged_of_setFate hlogged fun hid => ?_)
              rw [hi.eq_of_id h op' hop' hid, hbatch] at hsome
              cases hsome
            exact hi.mutate h heffect hinv fun hg => hsettles _ hg rfl
      · cases hs

theorem BatchInv.attempt (hi : BatchInv cfg s) {a : Attempt} (hinv : OpInv cfg False ops')
    (hguard : RefusesFirst cfg s (.attempt r a))
    (hloses : ∀ op ∈ s.ops.loses (.attempt r a), op.batch = none)
    (hs : stepAttempt cfg s.ops r a = some ops') :
    BatchInv cfg ⟨ops', s.mutated ++ (s.ops.mutates (.attempt r a)).toList,
      s.refused ++ (s.ops.refuses cfg (.attempt r a)).toList⟩ := by
  unfold stepAttempt at hs
  split at hs
  · cases hs
  rename_i run hrun
  split at hs
  case h_2 => cases hs
  rename_i op n hphase
  have hprocessing := ((hi.ops.runs r run hrun).current op (.processing r) (by rw [hphase]; rfl)).2
  have h : Attempting s r run op n := ⟨hrun, hphase, hprocessing⟩
  split at hs
  · cases hs
  rename_i options hq
  cases a with
  | reject reason =>
      cases hs
      have hrefuses : s.ops.refuses cfg (.attempt r (.reject reason)) = some op := h.attempted
      rw [hrefuses]
      show BatchInv cfg ⟨_, s.mutated ++ [], _⟩
      exact hi.refuse h reason (fun _ hop' => absurd hop' List.not_mem_nil)
        (hguard op hrefuses) hinv
  | threw =>
      cases hs
      exact hi.threw hrun hinv
  | write affected outcome =>
      simp only at hs
      split at hs
      · exact hi.consistent h hguard hinv hs
      · exact hi.eager h hloses hinv hs

end Attempt

/-! ## The clients and the wire -/

/-- What the calls know does not change, but for a call that starts. -/
theorem BatchInv.onWire (hi : BatchInv cfg s) (hinv : OpInv cfg False ops') (hwire : WireWhole ops')
    (hcreated : ops'.created = s.ops.created)
    (hruns : ∀ r run, ops'.runs r = some run → s.ops.runs r = some run ∨
      RunWhole cfg ⟨ops', s.mutated ++ [], s.refused ++ []⟩ run)
    (hfate : ops'.fate = s.ops.fate) (hlog : ops'.storage.log = s.ops.storage.log)
    (hbuffer : ops'.eagerBuffer = s.ops.eagerBuffer)
    (hanswers : ∀ answer ∈ ops'.answers, answer ∈ s.ops.answers)
    (hacked : ops'.acked = s.ops.acked)
    (hpresent : ∀ op ∈ s.ops.created, ∀ b, op.batch = some b →
      (∃ c, op ∈ (ops'.clients c).pendingOps) ∨ s.ops.fate op.id = .accepted ∨ s.refusedBatch b) :
    BatchInv cfg ⟨ops', s.mutated ++ [], s.refused ++ []⟩ := by
  have hg : CallGrows s ⟨ops', s.mutated ++ [], s.refused ++ []⟩ :=
    ⟨hcreated, fun id hid => (congrFun hfate id).trans hid, fun _ hx => List.mem_append_left _ hx⟩
  have hstored : ∀ op, ops'.stored op ↔ s.ops.stored op := fun op => by
    rw [OpState.stored, OpState.stored, hlog, hbuffer]
  refine ⟨hinv, hwire, fun r run hrun => ?_, fun x hx b hb => ?_, fun op hop hb hlogged => ?_,
    fun op hop => ?_, fun c opIds hmem id hid => ?_, fun c rejection hmem => ?_,
    fun op hop => ?_, fun op hop b hb => ?_⟩
  · rcases hruns r run hrun with hold | hnew
    · have hwhole := hi.runs r run hold
      exact hwhole.pass hg id rfl rfl rfl rfl rfl hwhole.free
    · exact hnew
  · dsimp only at hx
    rw [List.append_nil] at hx
    have hfirst := hi.refused x hx b hb
    refine ⟨hcreated ▸ hfirst.created, hcreated ▸ hfirst.first, ?_, fun op hop => ?_⟩
    · exact hfirst.gone.imp_left (congrFun hfate x.id).trans
    · exact hfirst.unmutated op (by simpa using hop)
  · dsimp only at hop hlogged ⊢
    rw [hcreated] at hop
    rw [hfate] at hlogged
    rw [List.append_nil, hstored]
    exact hi.logged op hop hb hlogged
  · rw [List.append_nil]
    exact hi.stored op ((hstored op).1 hop)
  · dsimp only
    rw [hcreated, hfate]
    exact hi.acks c opIds (hanswers _ hmem) id hid
  · exact (hi.rejects c rejection (hanswers _ hmem)).mono (fun _ hop => hcreated ▸ hop) hg.refused
  · dsimp only at hop ⊢
    rw [hacked] at hop
    rw [hcreated, hfate]
    exact hi.acked op hop
  · dsimp only at hop ⊢
    rw [hcreated] at hop
    rw [hfate]
    exact (hpresent op hop b hb).imp_right (Or.imp_right refusedBatch_append_nil.2)

theorem BatchInv.mem_setClient {c : Nat} {client : PushState} {op : ClientOp}
    (hkeep : op ∈ (s.ops.clients c).pendingOps → op ∈ client.pendingOps)
    (h : ∃ c, op ∈ (s.ops.clients c).pendingOps) :
    ∃ c', op ∈ ((s.ops.setClient c client).clients c').pendingOps := by
  rcases h with ⟨c', hop⟩
  by_cases hc : c' = c
  · subst hc
    exact ⟨c', by simpa using hkeep hop⟩
  · exact ⟨c', by simpa [Function.update_of_ne hc] using hop⟩

theorem BatchInv.push (hi : BatchInv cfg s) {c now : Nat} (hinv : OpInv cfg False ops')
    (hs : ((s.ops.clients c).startPush now).map (s.ops.setClient c) = some ops') :
    BatchInv cfg ⟨ops', s.mutated ++ [], s.refused ++ []⟩ := by
  rcases Option.map_eq_some_iff.1 hs with ⟨client, hpush, rfl⟩
  have hclient := (hi.wire.clients c).startPush hi.wire.contiguous hpush
  refine hi.onWire hinv (hi.wire.setClient hclient) rfl (fun _ _ h => Or.inl h) rfl rfl rfl
    (fun _ h => h) rfl fun op hop b hb => ?_
  refine (hi.present op hop b hb).imp_left (BatchInv.mem_setClient ?_)
  unfold PushState.startPush at hpush
  split at hpush
  · cases hpush
    exact id
  · cases hpush

theorem BatchInv.send (hi : BatchInv cfg s) {c now : Nat} {arrives threw : Bool}
    (hinv : OpInv cfg False ops') (hs : stepSend s.ops c now arrives threw = some ops') :
    BatchInv cfg ⟨ops', s.mutated ++ [], s.refused ++ []⟩ := by
  have hwire := hi.wire.send hs
  unfold stepSend at hs
  split at hs
  · cases hs
  · cases hs
    refine hi.onWire hinv hwire rfl (fun _ _ h => Or.inl h) rfl rfl rfl (fun _ h => h) rfl
      fun op hop b hb => ?_
    refine (hi.present op hop b hb).imp_left (BatchInv.mem_setClient ?_)
    split <;> exact id

theorem BatchInv.receive (hi : BatchInv cfg s) {m : Nat} (hinv : OpInv cfg False ops')
    (hs : stepReceive cfg s.ops m r = some ops') :
    BatchInv cfg ⟨ops', s.mutated ++ [], s.refused ++ []⟩ := by
  unfold stepReceive at hs
  split at hs
  case h_2 => cases hs
  rename_i c ops hm hr
  cases hs
  have hmessage := hi.wire.messages (c, ops) (List.mem_of_getElem? hm)
  refine hi.onWire hinv (hi.wire.mono rfl (fun _ h => List.mem_of_mem_eraseIdx h) rfl fun _ h => h)
    rfl (fun r₁ run₁ h₁ => ?_) rfl rfl rfl (fun _ h => h) rfl hi.present
  by_cases hr₁ : r₁ = r
  · subst hr₁
    have hrun : run₁ = OpsRun.ofMessage cfg c ops :=
      Option.some.inj (h₁.symm.trans (Function.update_self r₁ _ s.ops.runs))
    subst hrun
    refine Or.inr ⟨fun _ => hmessage.1, fun _ op hop b hb _ op' hop' hb' => ?_,
      fun op hop => absurd hop (by simp [OpsRun.ofMessage, Phase.taken]),
      fun b hb => absurd hb (by simp [OpsRun.ofMessage]),
      fun _ hmem => absurd hmem List.not_mem_nil, fun _ hop => absurd hop List.not_mem_nil⟩
    exact hmessage.2 op hop (by rw [hb]; rfl) op' hop' (hb'.trans hb.symm)
  · exact Or.inl ((Function.update_of_ne hr₁ _ s.ops.runs).symm.trans h₁)

theorem BatchInv.deliver (hi : BatchInv cfg s) {a : Nat} (hinv : OpInv cfg False ops')
    (hs : stepDeliver s.ops a = some ops') :
    BatchInv cfg ⟨ops', s.mutated ++ [], s.refused ++ []⟩ := by
  unfold stepDeliver at hs
  split at hs
  · cases hs
  rename_i answer hanswer
  have hmem := List.mem_of_getElem? hanswer
  have hwire : WireWhole { s.ops with answers := s.ops.answers.eraseIdx a } :=
    hi.wire.mono rfl (fun _ h => h) rfl fun _ h => h
  dsimp only at hs
  split at hs
  · rename_i c opIds
    cases hs
    have hacc : ∀ op ∈ s.ops.created, op.batch.isSome → op.id ∈ opIds →
        s.ops.fate op.id = .accepted := by
      intro op hop hb hid
      rcases hi.acks c opIds hmem op.id hid with ⟨op', hop', hsame, hacc⟩
      have heq := hi.wire.eq_of_id hop' hop hsame
      exact hacc (heq ▸ hb)
    refine hi.onWire hinv (hwire.setClient ((hwire.clients c).ack hacc)) rfl (fun _ _ h => Or.inl h)
      rfl rfl rfl (fun _ h => List.mem_of_mem_eraseIdx h) rfl fun op hop b hb => ?_
    by_cases hid : op.id ∈ opIds
    · exact Or.inr (Or.inl (hacc op hop (by rw [hb]; rfl) hid))
    · refine (hi.present op hop b hb).imp_left fun hpending => ?_
      refine BatchInv.mem_setClient (fun hin => ?_) hpending
      exact List.mem_filter.2 ⟨hin, by simpa using hid⟩
  · rename_i c rejection
    cases hs
    rcases hi.rejects c rejection hmem with ⟨op₁, hop₁, hid₁, hbatchId₁, hrefused⟩
    have hnames : ∀ op ∈ s.ops.created, op.id = rejection.opId →
        op.batchId = rejection.batchId := by
      intro op hop hid
      rw [hi.wire.eq_of_id hop hop₁ (hid.trans hid₁.symm)]
      exact hbatchId₁
    refine hi.onWire hinv (hwire.setClient ((hwire.clients c).reject hwire.nodup hnames)) rfl
      (fun _ _ h => Or.inl h) rfl rfl rfl (fun _ h => List.mem_of_mem_eraseIdx h)
      rfl fun op hop b hb => ?_
    by_cases htaken : op.id = rejection.opId ∨ op.batchId = rejection.batchId
    · -- The batch of the op is that of the reject.
      have hbatchId : op.batchId = rejection.batchId := htaken.elim (hnames op hop) id
      have hbatch : op₁.batch = some b :=
        (ClientOp.batch_congr (hbatchId₁.trans hbatchId.symm)).trans hb
      exact Or.inr (Or.inr (hrefused b hbatch))
    · refine (hi.present op hop b hb).imp_left fun hpending => ?_
      refine BatchInv.mem_setClient (fun hin => ?_) hpending
      rcases not_or.1 htaken with ⟨hid, hbatchId⟩
      simp only [PushState.reject, List.mem_filter]
      exact ⟨⟨hin, by simpa using hid⟩, by simp [hbatchId]⟩

/-- A batch is created, or an op without one. -/
theorem opInv_create {c : Nat} (ops : List ClientOp) :
    ∀ {s s' : OpState}, OpInv cfg False s →
      ops.foldlM (fun s op => stepCreate s c op) s = some s' → OpInv cfg False s' := by
  induction ops with
  | nil =>
      intro s s' hi h
      cases h
      exact hi
  | cons op ops ih =>
      intro s s' hi h
      rw [List.foldlM_cons] at h
      rcases Option.bind_eq_some_iff.1 h with ⟨s₁, hstep, hrest⟩
      exact ih (opInv_stepCreate hi hstep) hrest

theorem BatchInv.create (hi : BatchInv cfg s) {c : Nat} {ops : List ClientOp}
    (hforms : FormsBatch s.ops.created ops)
    (hs : ops.foldlM (fun s op => stepCreate s c op) s.ops = some ops') :
    BatchInv cfg { s with ops := ops' } := by
  have hinv := opInv_create ops hi.ops hs
  have hwire := hi.wire.create hforms hinv.created_nodup hs
  rcases foldlM_stepCreate ops hs with ⟨heq, hids⟩
  have hcreated : ops'.created = s.ops.created ++ ops := by rw [heq]
  have hruns : ops'.runs = s.ops.runs := by rw [heq]; rfl
  have hfate : ops'.fate = s.ops.fate := by rw [heq]; rfl
  have hanswers : ops'.answers = s.ops.answers := by rw [heq]; rfl
  have hacked : ops'.acked = s.ops.acked := by rw [heq]; rfl
  have hstored : ∀ op, ops'.stored op ↔ s.ops.stored op := fun op => by rw [heq]; rfl
  have hclients : ops'.clients = Function.update s.ops.clients c
      { s.ops.clients c with pendingOps := (s.ops.clients c).pendingOps ++ ops } := by
    rw [heq]
    rfl
  have hsub : s.ops.created.Sublist ops'.created := hcreated ▸ List.sublist_append_left _ _
  -- An op of a batch that was there is of no new batch.
  have hold : ∀ op ∈ s.ops.created, ∀ b, op.batch = some b → ∀ op' ∈ ops'.created,
      op'.batch = some b → op' ∈ s.ops.created := by
    intro op hop b hb op' hop' hb'
    rw [hcreated] at hop'
    refine (List.mem_append.1 hop').resolve_right fun hnew => ?_
    exact hforms.new op hop op' hnew (by rw [hb']; rfl) (hb.trans hb'.symm)
  refine ⟨hinv, hwire, fun r run hrun => ?_, fun x hx b hb => ?_, fun op hop hb hlogged => ?_,
    fun op hop => hi.stored op ((hstored op).1 hop), fun c' opIds hmem id hid => ?_,
    fun c' rejection hmem => ?_, fun op hop => ?_, fun op hop b hb => ?_⟩
  · have hwhole := hi.runs r run (hruns ▸ hrun)
    refine ⟨fun hl => (hwhole.sub hl).trans hsub, fun hl op hop b hb hnone op' hop' hb' => ?_,
      hwhole.taken, hwhole.failed, fun rejection hmem => ?_, fun op hop => ?_⟩
    · dsimp only
      rw [hfate]
      refine hwhole.whole hl op hop b hb hnone op' ?_ hb'
      exact hold op ((hwhole.sub hl).subset hop) b hb op' hop' hb'
    · exact (hwhole.rejected rejection hmem).mono (fun _ h => hsub.subset h) fun _ h => h
    · dsimp only
      rw [hfate]
      exact ⟨hsub.subset (hwhole.accepted op hop).1, (hwhole.accepted op hop).2⟩
  · have hfirst := hi.refused x hx b hb
    refine ⟨hsub.subset hfirst.created, fun op hop hb' => ?_, ?_, hfirst.unmutated⟩
    · refine (hfirst.first op ?_ hb').imp_right fun hpair => hpair.trans hsub
      exact hold x hfirst.created b hb op hop hb'
    · dsimp only
      rw [hfate]
      exact hfirst.gone
  · dsimp only at hop hlogged ⊢
    rw [hfate] at hlogged
    rw [hstored]
    rw [hcreated] at hop
    rcases List.mem_append.1 hop with hop | hop
    · exact hi.logged op hop hb hlogged
    · have hunseen : s.ops.fate op.id = .unseen :=
        (hi.ops.unseen_iff op.id).2 fun hres => hids op hop (hi.ops.reserved_created op.id hres)
      rw [hunseen] at hlogged
      exact hlogged.elim
  · dsimp only at hmem ⊢
    rw [hanswers] at hmem
    rw [hfate]
    rcases hi.acks c' opIds hmem id hid with ⟨op, hop, hsame, hacc⟩
    exact ⟨op, hsub.subset hop, hsame, hacc⟩
  · dsimp only at hmem
    rw [hanswers] at hmem
    exact (hi.rejects c' rejection hmem).mono (fun _ h => hsub.subset h) fun _ h => h
  · dsimp only at hop ⊢
    rw [hacked] at hop
    rw [hfate]
    exact ⟨hsub.subset (hi.acked op hop).1, (hi.acked op hop).2⟩
  · dsimp only at hop ⊢
    rw [hcreated] at hop
    rw [hfate, hclients]
    rcases List.mem_append.1 hop with hop | hop
    · refine (hi.present op hop b hb).imp_left fun hpending => ?_
      rcases hpending with ⟨c', hin⟩
      by_cases hc : c' = c
      · subst hc
        exact ⟨c', by simp [hin]⟩
      · exact ⟨c', by simpa [Function.update_of_ne hc] using hin⟩
    · exact Or.inl ⟨c, by simp [hop]⟩

/-! ## Runs -/

theorem batchInv_start (cfg : OpConfig) : BatchInv cfg ⟨.start, [], []⟩ where
  ops := opInv_start cfg False
  wire := .start
  runs r run hrun := by simp [OpState.start] at hrun
  refused x hx := absurd hx List.not_mem_nil
  logged op hop := absurd hop List.not_mem_nil
  stored op hop := by simp [OpState.stored, OpState.start] at hop
  acks c opIds hmem := absurd hmem List.not_mem_nil
  rejects c rejection hmem := absurd hmem List.not_mem_nil
  acked op hop := absurd hop List.not_mem_nil
  present op hop := absurd hop List.not_mem_nil

theorem BatchInv.step (hi : BatchInv cfg s) {e : BatchEvent} (hguard : BatchGuard cfg s e)
    (hs : batchStep cfg s e = some s') : BatchInv cfg s' := by
  cases e with
  | create c ops =>
      rcases Option.ite_none_right_eq_some.1 hs with ⟨hforms, hs⟩
      rcases Option.map_eq_some_iff.1 hs with ⟨ops', hops', rfl⟩
      exact hi.create hforms hops'
  | op e =>
      rcases hguard with ⟨hreplay, hfirst, hloses⟩
      have hstep : ∀ {ops' : OpState}, opStep cfg s.ops e = some ops' → OpInv cfg False ops' :=
        opInv_step hi.ops False.elim
      cases e with
      | create c op => cases hs
      | clearInFlight c =>
          cases hs
          refine hi.onWire (hstep rfl) (hi.wire.setClient (hi.wire.clients c).clearInFlight) rfl
            (fun _ _ h => Or.inl h) rfl rfl rfl (fun _ h => h) rfl fun op hop b hb => ?_
          exact (hi.present op hop b hb).imp_left (BatchInv.mem_setClient id)
      | push c now =>
          rcases Option.map_eq_some_iff.1 hs with ⟨ops', hops', rfl⟩
          exact hi.push (hstep hops') hops'
      | send c now arrives threw =>
          rcases Option.map_eq_some_iff.1 hs with ⟨ops', hops', rfl⟩
          exact hi.send (hstep hops') hops'
      | receive m r =>
          rcases Option.map_eq_some_iff.1 hs with ⟨ops', hops', rfl⟩
          exact hi.receive (hstep hops') hops'
      | reserve r outcome =>
          rcases Option.map_eq_some_iff.1 hs with ⟨ops', hops', rfl⟩
          exact hi.reserve (hstep hops') hops'
      | next r =>
          rcases Option.map_eq_some_iff.1 hs with ⟨ops', hops', rfl⟩
          exact hi.next (hstep hops') hreplay hfirst hops'
      | flush r ok =>
          rcases Option.map_eq_some_iff.1 hs with ⟨ops', hops', rfl⟩
          exact hi.flush (hstep hops') hops'
      | attempt r a =>
          rcases Option.map_eq_some_iff.1 hs with ⟨ops', hops', rfl⟩
          exact hi.attempt (hstep hops') hfirst hloses hops'
      | settle r ok =>
          rcases Option.map_eq_some_iff.1 hs with ⟨ops', hops', rfl⟩
          exact hi.settle (hstep hops') hops'
      | answer r ok =>
          rcases Option.map_eq_some_iff.1 hs with ⟨ops', hops', rfl⟩
          exact hi.answer (hstep hops') hops'
      | deliver a =>
          rcases Option.map_eq_some_iff.1 hs with ⟨ops', hops', rfl⟩
          exact hi.deliver (hstep hops') hops'

theorem BatchInv.atomic (hi : BatchInv cfg s) : BatchAtomic s := by
  have hmem : ∀ {op : ClientOp} {b : String}, op ∈ s.batchOps b →
      op ∈ s.ops.created ∧ op.batch = some b := fun hop => by
    simpa using List.mem_filter.1 hop
  have hrefused : ∀ x ∈ s.refused, ∀ b, x.batch = some b → ∀ op ∈ s.batchOps b, s.untouched op := by
    intro x hx b hb op hop
    have hnot := fun hin => (hi.refused x hx b hb).unmutated op hin (hmem hop).2
    refine ⟨fun hacked => ?_, hnot, fun hstored => hnot (hi.stored op hstored)⟩
    have hsome : op.batch.isSome := by rw [(hmem hop).2]; rfl
    have hacc := (hi.acked op hacked).2 hsome
    exact hnot (hi.logged op (hmem hop).1 hsome (by rw [hacc]; trivial)).1
  refine ⟨fun b hsettled => ?_, hrefused⟩
  by_cases hany : s.refusedBatch b
  · rcases hany with ⟨x, hx, hb⟩
    exact Or.inr (hrefused x hx b hb)
  · refine Or.inl fun op hop => ?_
    rcases hmem hop with ⟨hcreated, hb⟩
    rcases hi.present op hcreated b hb with ⟨c, hpending⟩ | hacc | hrefused
    · exact absurd hpending (hsettled op hop c)
    · exact ⟨hacc, hi.logged op hcreated (by rw [hb]; rfl) (by rw [hacc]; trivial)⟩
    · exact absurd hrefused hany

end Server
end Reflectdb
