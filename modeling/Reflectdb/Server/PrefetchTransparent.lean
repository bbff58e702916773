import Reflectdb.Server.PrefetchRuns

/-!
# Prefetch is transparent — the run without batch contexts follows

A message that is still prefetching is one whose loop has not begun.  The ids that are reserved
without batch contexts are those that an op has been taken with.
-/

namespace Reflectdb
namespace Server
namespace Prefetch

open Core Client Lib

/-! ## The state without batch contexts -/

def MessagePhase.direct : MessagePhase → MessagePhase
  | .reserving _ => .looping
  | .reading => .looping
  | phase => phase

def Message.direct (msg : Message) : Message :=
  ⟨msg.ops, none, msg.phase.direct⟩

def State.direct (s : State) (used : List String) : State :=
  { s with reserved := used, messages := Option.map Message.direct ∘ s.messages }

variable {cfg : Config} {s s' : State} {used : List String} {m : Nat} {msg old : Message}
  {op : MessageOp} {answer : OpAnswer}

theorem direct_messages (hm : s.messages m = some msg) :
    (s.direct used).messages m = some msg.direct := by
  simp [State.direct, hm]

theorem direct_setMessage :
    (s.setMessage m msg).direct used = (s.direct used).setMessage m msg.direct := by
  simp only [State.direct, State.setMessage, Function.comp_update, Option.map_some]

theorem direct_finishOp :
    (s.finishOp m msg op answer).direct used = (s.direct used).finishOp m msg.direct op answer := by
  simp only [State.direct, State.finishOp, Function.comp_update, Option.map_some]
  rfl

theorem direct_answerOp :
    (s.answerOp m msg op answer).direct used = (s.direct used).answerOp m msg.direct op answer := by
  simp only [State.direct, State.answerOp, State.setMessage, Function.comp_update, Option.map_some]

theorem direct_enqueue :
    (s.enqueue m msg op).direct used = (s.direct used).enqueue m msg.direct op := by
  simp only [State.direct, State.enqueue, State.setMessage, Function.comp_update, Option.map_some]
  rfl

/-- A message that is where it was, but for its batch context. -/
theorem direct_setMessage_same (hm : s.messages m = some old) (hmsg : msg.direct = old.direct) :
    (s.setMessage m msg).direct used = s.direct used := by
  rw [direct_setMessage, hmsg, State.setMessage, ← direct_messages hm, Function.update_eq_self]

theorem direct_recordBatchWrite (key : TableRow) (existing : ExistingRow) :
    (s.recordBatchWrite m key existing).direct used = s.direct used := by
  have hmessages : ∀ i, ((s.recordBatchWrite m key existing).messages i).map Message.direct =
      (s.messages i).map Message.direct := by
    intro i
    cases hi : s.messages i with
    | none => simp [State.recordBatchWrite, hi]
    | some msg =>
        simp only [State.recordBatchWrite, hi, Option.map_some]
        by_cases him : i = m
        · rw [if_pos him]
          rfl
        · rw [if_neg him]
          split <;> rfl
  exact congrArg (fun messages => { s with reserved := used, messages := messages })
    (funext hmessages)

/-- Without a batch context there is nobody to tell of a write. -/
theorem recordBatchWrite_direct (key : TableRow) (existing : ExistingRow) :
    (s.direct used).recordBatchWrite m key existing = s.direct used := by
  have hmessages : ∀ i, ((s.direct used).recordBatchWrite m key existing).messages i =
      (s.direct used).messages i := by
    intro i
    cases hi : s.messages i with
    | none => simp [State.recordBatchWrite, State.direct, hi]
    | some msg =>
        simp only [State.recordBatchWrite, State.direct, Function.comp_apply, hi, Option.map_some]
        by_cases him : i = m
        · rw [if_pos him]
          rfl
        · rw [if_neg him]
          split <;> rfl
  exact congrArg (fun messages => { s.direct used with messages := messages }) (funext hmessages)

/-! ## The attempt at an op -/

/-- The op is decided alike by either image of its row. -/
def DecidesAlike (cfg : Config) (op : MessageOp) (checks : Except String (Option Row))
    (existing existing' : ExistingRow) : Prop :=
  ∀ payload, checks = .ok payload →
    SameOutcome (resolveConflict cfg.ops (cfg.policy op) { op.incoming with payload } existing)
        (resolveConflict cfg.ops (cfg.policy op) { op.incoming with payload } existing') ∧
      (cfg.conditional op = true → existing.rowHlc = existing'.rowHlc)

theorem DecidesAlike.refl (checks : Except String (Option Row)) (existing : ExistingRow) :
    DecidesAlike cfg op checks existing existing :=
  fun _ _ => ⟨.refl _, fun _ => rfl⟩

theorem direct_attempt {msg' : Message} {checks : Except String (Option Row)}
    {existing existing' : ExistingRow} (attempt : Nat) (hops : msg'.ops = msg.ops)
    (hbatch : msg'.batch = none) (halike : DecidesAlike cfg op checks existing existing') :
    (attemptConsistentOp cfg s m msg op attempt existing checks).direct used =
      attemptConsistentOp cfg (s.direct used) m msg' op attempt existing' checks := by
  have hphase : ∀ phase : MessagePhase, phase.direct = phase →
      ({ msg with phase := phase } : Message).direct = { msg' with phase := phase } := by
    intro phase hphase
    rw [Message.direct, hphase, ← hops, ← hbatch]
  have hfinish : ∀ answer, (s.finishOp m msg op answer).direct used =
      (s.direct used).finishOp m msg' op answer := by
    intro answer
    rw [direct_finishOp]
    exact congrArg (fun msg => { (s.direct used) with
      messages := Function.update (s.direct used).messages m (some msg)
      rowQueues := Function.update s.rowQueues op.rowKey (s.rowQueues op.rowKey).tail
      answers := s.answers ++ [(m, op.id, answer)] }) (hphase .looping rfl)
  cases checks with
  | error reason => exact hfinish _
  | ok payload =>
      obtain ⟨⟨haccepted, hreason, hsame⟩, hhlc⟩ := halike payload rfl
      simp only [attemptConsistentOp, ← haccepted]
      split
      · rename_i htrue
        have hexpected : (if cfg.conditional op then some existing.rowHlc else none) =
            if cfg.conditional op then some existing'.rowHlc else none := by
          split
          · rw [hhlc ‹_›]
          · rfl
        rw [direct_setMessage, hphase _ rfl, hsame htrue, hexpected]
      · rw [hfinish, hreason]

/-- The phase of the message does not matter, nor what it held. -/
theorem attempt_setMessage {x : Message} {checks : Except String (Option Row)}
    {existing : ExistingRow} (attempt : Nat) :
    attemptConsistentOp cfg (s.setMessage m x) m msg op attempt existing checks =
      attemptConsistentOp cfg s m msg op attempt existing checks := by
  cases checks with
  | error reason =>
      simp only [attemptConsistentOp, State.finishOp, State.setMessage, Function.update_idem]
  | ok payload =>
      simp only [attemptConsistentOp, State.finishOp, State.setMessage, Function.update_idem]

/-- What an op at its turn finds in the batch context decides it as the stored row does. -/
theorem decidesAlike_of_fits {checks : Except String (Option Row)} {existing : ExistingRow}
    {stored : Option StoredRow} (hfits : Fits existing stored)
    (hguard : ∀ payload, checks = .ok payload → existing.row = none → existing.rowHlc.isSome →
      cfg.conditional op = false ∧
        ¬ KeepsClocks (cfg.policy op) { op.incoming with payload := payload }) :
    DecidesAlike cfg op checks existing (getRow stored) := by
  rcases hfits with rfl | ⟨rfl, hrow, hhlc⟩
  · exact .refl _ _
  · intro payload hpayload
    obtain ⟨hconditional, hkeeps⟩ := hguard payload hpayload hrow hhlc
    refine ⟨sameOutcome_absent hrow hkeeps, fun htrue => ?_⟩
    rw [hconditional] at htrue
    cases htrue

/-! ## The reservations after a step -/

theorem reserves_receive (h : Reserves cfg s used) (hm : s.messages m = none)
    (ops : List MessageOp) : Reserves cfg (s.setMessage m (Message.ofOps cfg true ops)) used := by
  refine h.put rfl (fun _ hid => hid) rfl (fun id => ?_) (fun id hid => by cases hid)
    (fun id hid => ⟨h.unused_elsewhere hid, List.not_mem_nil⟩) fun op hop hreservable => .inr ?_
  · -- a message that was not there held nothing
    change id ∈ s.reserved ↔ _
    rw [h.reserved id]
    constructor
    · rintro (hused | ⟨i, other, hi, hid⟩)
      · exact .inl hused
      · refine .inr (.inr ⟨i, other, ?_, hi, hid⟩)
        rintro rfl
        rw [hm] at hi
        cases hi
    · rintro (hused | hid | ⟨i, other, -, hi, hid⟩)
      · exact .inl hused
      · cases hid
      · exact .inr ⟨i, other, hi, hid⟩
  · exact List.mem_map_of_mem (List.mem_filter.2 ⟨hop, hreservable⟩)

theorem mem_reserveCall {ids : List String} {id : String} (hid : id ∈ ids) :
    id ∈ (reserveCall cfg ids).1 ∨ id ∈ (reserveCall cfg ids).2 := by
  unfold reserveCall
  split
  · exact .inl hid
  · exact List.mem_append.1 (by rw [List.take_append_drop]; exact hid)

theorem toReserve_reservePhase (ids : List String) : (reservePhase ids).toReserve = ids := by
  cases ids <;> rfl

theorem reserves_reserve (h : Reserves cfg s used) {ops : List MessageOp} {batch : BatchContext}
    {ids : List String} (hm : s.messages m = some ⟨ops, some batch, .reserving ids⟩) :
    Reserves cfg
      ({ s with
        reserved := s.reserved ++
          (reserveCall cfg ids).1.filter fun id => !s.reserved.contains id }.setMessage m
        ⟨ops, some { batch with
          freshOpIds := batch.freshOpIds ++
            (reserveCall cfg ids).1.filter fun id => !s.reserved.contains id },
          reservePhase (reserveCall cfg ids).2⟩) used := by
  have hsplit := h.mem_reserved_iff hm
  have hnew : ∀ id, id ∈ (reserveCall cfg ids).1.filter (fun id => !s.reserved.contains id) ↔
      id ∈ (reserveCall cfg ids).1 ∧ id ∉ s.reserved := by
    intro id
    rw [List.mem_filter]
    simp
  refine h.put rfl (fun id hid => List.mem_append_left _ hid) rfl (fun id => ?_)
    (fun id hid hused => ?_) (fun id hid => ⟨h.unused_elsewhere hid, fun hown => ?_⟩)
    fun op hop hreservable => ?_
  · change id ∈ s.reserved ++ _ ↔ id ∈ used ∨ id ∈ batch.freshOpIds ++ _ ∨ _
    rw [List.mem_append, List.mem_append, hsplit id]
    change (_ ∨ id ∈ batch.freshOpIds ∨ _) ∨ _ ↔ _
    tauto
  · rcases List.mem_append.1 hid with hid | hid
    · exact h.unused m _ hm id hid hused
    · exact ((hnew id).1 hid).2 ((hsplit id).2 (.inl hused))
  · rcases List.mem_append.1 hown with hown | hown
    · exact h.apart_elsewhere hm hid hown
    · exact ((hnew id).1 hown).2 ((hsplit id).2 (.inr (.inr hid)))
  · change op.id ∈ s.reserved ++ _ ∨ op.id ∈ (reservePhase (reserveCall cfg ids).2).toReserve
    rw [List.mem_append, hnew, toReserve_reservePhase]
    rcases h.asked m _ hm op hop hreservable with hid | hid
    · exact .inl (.inl hid)
    · by_cases hreserved : op.id ∈ s.reserved
      · exact .inl (.inl hreserved)
      · exact (mem_reserveCall hid).imp (fun hcall => .inr ⟨hcall, hreserved⟩) id

/-- The op of a held id is taken. -/
theorem reserves_enqueue (h : Reserves cfg s used) {ops : List MessageOp} {batch : BatchContext}
    (hm : s.messages m = some ⟨op :: ops, some batch, .looping⟩)
    (hfresh : op.id ∈ batch.freshOpIds) :
    Reserves cfg (s.enqueue m ⟨ops, some { batch with
      freshOpIds := batch.freshOpIds.filter (· ≠ op.id) }, .looping⟩ op) (used ++ [op.id]) := by
  have hsplit := h.mem_reserved_iff hm
  have hfilter : ∀ id, id ∈ batch.freshOpIds.filter (· ≠ op.id) ↔
      id ∈ batch.freshOpIds ∧ id ≠ op.id := by
    intro id
    rw [List.mem_filter]
    simp
  refine h.put rfl (fun _ hid => hid) rfl (fun id => ?_) (fun id hid hused => ?_)
    (fun id hid => ⟨fun hused => ?_, fun hown => ?_⟩) fun op' hop' hreservable => ?_
  · change id ∈ s.reserved ↔ _ ∨ id ∈ batch.freshOpIds.filter (· ≠ op.id) ∨ _
    rw [hsplit id, List.mem_append, List.mem_singleton, hfilter]
    change _ ∨ id ∈ batch.freshOpIds ∨ _ ↔ _
    by_cases hid : id = op.id
    · subst hid
      exact ⟨fun _ => .inl (.inr rfl), fun _ => .inr (.inl hfresh)⟩
    · tauto
  · obtain ⟨hheld, hne⟩ := (hfilter id).1 hid
    rcases List.mem_append.1 hused with hused | hused
    · exact h.unused m _ hm id hheld hused
    · exact hne (List.mem_singleton.1 hused)
  · rcases List.mem_append.1 hused with hused | hused
    · exact h.unused_elsewhere hid hused
    · rw [List.mem_singleton.1 hused] at hid
      exact h.apart_elsewhere hm hid hfresh
  · exact h.apart_elsewhere hm hid ((hfilter id).1 hown).1
  · exact h.asked m _ hm op' (List.mem_cons_of_mem _ hop') hreservable

theorem Reserves.attempt (h : Reserves cfg s used) (hm : s.messages m = some old)
    (hbatch : old.batch.isSome → msg.batch.isSome) (hfresh : msg.fresh = old.fresh)
    (hops : msg.ops = old.ops) (hold : old.phase.toReserve = []) (attempt : Nat)
    (existing : ExistingRow) (checks : Except String (Option Row)) :
    Reserves cfg (attemptConsistentOp cfg s m msg op attempt existing checks) used := by
  have hfollows : ∀ phase : MessagePhase, ({ msg with phase := phase } : Message).Follows old := by
    intro phase
    refine ⟨hbatch, hfresh, fun op hop => hops ▸ hop, fun id hid => ?_⟩
    rw [hold] at hid
    cases hid
  cases checks with
  | error reason => exact h.update hm rfl rfl (hfollows _)
  | ok payload =>
      simp only [attemptConsistentOp]
      split
      · exact h.update hm rfl rfl (hfollows _)
      · exact h.update hm rfl rfl (hfollows _)

theorem fresh_told (old : Message) (key : TableRow) :
    (if old.active then old.markStale key else old).Follows old := by
  split
  · refine ⟨fun hsome => ?_, ?_, fun _ hop => hop, fun _ hid => hid⟩
    · rw [← hsome]
      exact Option.isSome_map
    · cases hbatch : old.batch <;> simp [Message.fresh, Message.markStale, hbatch]
  · exact ⟨id, rfl, fun _ hop => hop, fun _ hid => hid⟩

theorem reserves_written (h : Reserves cfg s used) {ops : List MessageOp}
    {batch : Option BatchContext} {result : ConflictResult} {existing : ExistingRow}
    (hm : s.messages m = some ⟨ops, batch, .written op result⟩) :
    Reserves cfg ((s.recordBatchWrite m op.rowKey existing).finishOp m
      ((⟨ops, batch, .written op result⟩ : Message).cacheRow op.rowKey existing) op answer)
      used := by
  refine h.of_follows rfl (fun i hi => ?_) fun i msg hi => ?_
  · change (Function.update (s.recordBatchWrite m op.rowKey existing).messages m _ i).isSome
    by_cases him : i = m
    · subst him
      rw [Function.update_self]
      rfl
    · rw [Function.update_of_ne him]
      exact Option.isSome_map.trans hi
  · rcases messages_written hi with ⟨rfl, rfl⟩ | ⟨-, old, hold, rfl⟩
    · refine ⟨_, hm, fun hsome => Option.isSome_map.trans hsome, ?_, fun _ hop => hop,
        fun _ hid => by cases hid⟩
      cases batch <;> rfl
    · exact ⟨old, hold, fresh_told old op.rowKey⟩

/-! ## The step without batch contexts -/

theorem direct_reservePhase (ids : List String) : (reservePhase ids).direct = .looping := by
  cases ids <;> rfl

theorem fetch_direct {attempt : Nat} {ops : List MessageOp} {batch : Option BatchContext}
    (hm : s.messages m = some ⟨ops, batch, .queued op attempt⟩)
    (hfirst : (s.rowQueues op.rowKey).head? = some m) :
    stepFetch (s.direct used) m = some ((s.direct used).setMessage m
      ⟨ops, none, .fetched op attempt (getRow (s.stored op.rowKey))⟩) := by
  unfold stepFetch
  rw [direct_messages hm]
  exact if_pos ⟨hfirst, fun _ => rfl⟩

theorem resolve_direct {attempt : Nat} {ops : List MessageOp} {existing : ExistingRow}
    (checks : Except String (Option Row))
    (hm : s.messages m = some ⟨ops, none, .fetched op attempt existing⟩) :
    stepResolve cfg s m checks = some (attemptConsistentOp cfg s m
      ⟨ops, none, .fetched op attempt existing⟩ op attempt existing checks) := by
  have hcache : (if attempt = 0 then
      (⟨ops, none, .fetched op attempt existing⟩ : Message).cacheRow op.rowKey existing
      else ⟨ops, none, .fetched op attempt existing⟩) =
        ⟨ops, none, .fetched op attempt existing⟩ := by
    split <;> rfl
  unfold stepResolve
  rw [hm]
  exact congrArg (fun msg => some (attemptConsistentOp cfg s m msg op attempt existing checks))
    hcache

/-- The op reads its row for itself where the batch context had it. -/
theorem readCached_direct {ops : List MessageOp} {batch : Option BatchContext}
    {existing : ExistingRow} {checks : Except String (Option Row)}
    (hm : s.messages m = some ⟨ops, batch, .queued op 0⟩)
    (hfirst : (s.rowQueues op.rowKey).head? = some m)
    (halike : DecidesAlike cfg op checks existing (getRow (s.stored op.rowKey))) :
    (machine cfg false).runFrom (s.direct used) [.fetch m, .resolve m checks] =
      some ((attemptConsistentOp cfg s m ⟨ops, batch, .queued op 0⟩ op 0 existing checks).direct
        used) := by
  have hfetch : (machine cfg false).step (s.direct used) (.fetch m) = _ := fetch_direct hm hfirst
  rw [Machine.runFrom_cons, hfetch, Option.bind_some, Machine.runFrom_singleton]
  refine (resolve_direct checks (Function.update_self ..)).trans (congrArg some ?_)
  rw [attempt_setMessage]
  symm
  apply direct_attempt 0 _ _ halike
  · rfl
  · rfl

theorem next_direct (h : Reserves cfg s used) {ops : List MessageOp} {batch : Option BatchContext}
    (hm : s.messages m = some ⟨op :: ops, batch, .looping⟩)
    (hguard : cfg.reservable op = true → ¬ s.HeldElsewhere m op.id) :
    ∃ used', processClientOp cfg (s.direct used) m ⟨ops, none, .looping⟩ op =
        (processClientOp cfg s m ⟨ops, batch, .looping⟩ op).direct used' ∧
      Reserves cfg (processClientOp cfg s m ⟨ops, batch, .looping⟩ op) used' := by
  obtain ⟨batch, rfl⟩ := Option.isSome_iff_exists.1 (h.batch m _ hm)
  have hanswer : ∀ answer, (s.direct used).answerOp m ⟨ops, none, .looping⟩ op answer =
      (s.answerOp m ⟨ops, some batch, .looping⟩ op answer).direct used ∧
        Reserves cfg (s.answerOp m ⟨ops, some batch, .looping⟩ op answer) used := by
    intro answer
    refine ⟨?_, h.update hm rfl rfl
      ⟨id, rfl, fun _ hop => List.mem_cons_of_mem _ hop, fun _ hid => hid⟩⟩
    rw [direct_answerOp]
    rfl
  cases hquery : cfg.queries op.incoming.tableName with
  | none =>
      simp only [processClientOp, hquery]
      exact ⟨used, hanswer _⟩
  | some query =>
      by_cases hmutate : query.mutate = true
      · have hreservable : cfg.reservable op = true := by simp [Config.reservable, hquery, hmutate]
        by_cases hfresh : op.id ∈ batch.freshOpIds
        · -- the op takes the id that its message holds
          have hunused : op.id ∉ used := h.unused m _ hm op.id hfresh
          have hdirect : ¬ (s.direct used).reserved.contains op.id = true := by
            rw [List.contains_iff_mem]
            exact hunused
          simp only [processClientOp, hquery, if_pos hmutate, if_neg hdirect,
            if_pos (List.contains_iff_mem.2 hfresh)]
          refine ⟨used ++ [op.id], ?_, reserves_enqueue h hm hfresh⟩
          rw [direct_enqueue]
          rfl
        · -- an op with the id has been taken
          have hused : op.id ∈ used := by
            have hasked := h.asked m _ hm op List.mem_cons_self hreservable
            have hreserved : op.id ∈ s.reserved := hasked.resolve_right List.not_mem_nil
            rcases (h.mem_reserved_iff hm op.id).1 hreserved with hused | hown | helsewhere
            · exact hused
            · exact absurd hown hfresh
            · exact absurd helsewhere (hguard hreservable)
          have hdirect : (s.direct used).reserved.contains op.id = true :=
            List.contains_iff_mem.2 hused
          have hbatch : ¬ batch.freshOpIds.contains op.id = true := by
            rw [List.contains_iff_mem]
            exact hfresh
          simp only [processClientOp, hquery, if_pos hmutate, if_pos hdirect, if_neg hbatch]
          exact ⟨used, hanswer _⟩
      · simp only [processClientOp, hquery, if_neg hmutate]
        exact ⟨used, hanswer _⟩

/-- One step, and what stands for it without batch contexts. -/
theorem step_direct {e : Event} (hinv : Inv s) (h : Reserves cfg s used)
    (hguard : Transparent cfg s e) (hs : Stepped cfg s e s') :
    ∃ used', (machine cfg false).runFrom (s.direct used) e.direct = some (s'.direct used') ∧
      Reserves cfg s' used' := by
  cases hs with
  | @receive m ops hm =>
      refine ⟨used, ?_, reserves_receive h hm ops⟩
      have hdirect : (s.direct used).messages m = none := by simp [State.direct, hm]
      refine (Machine.runFrom_singleton ..).trans ?_
      change stepReceive cfg false (s.direct used) m ops = _
      rw [stepReceive, hdirect, direct_setMessage]
      rfl
  | @reserve m ops batch ids hm =>
      refine ⟨used, congrArg some ?_, reserves_reserve h hm⟩
      refine (Eq.trans (direct_setMessage_same hm ?_) rfl).symm
      rw [Message.direct, direct_reservePhase]
      rfl
  | @read m ops batch key hm =>
      refine ⟨used, congrArg some ?_, h.update hm rfl rfl
        ⟨fun _ => rfl, rfl, fun _ hop => hop, fun _ hid => hid⟩⟩
      symm
      apply direct_setMessage_same hm
      rfl
  | @setRead m ops batch key existing hm hread =>
      refine ⟨used, congrArg some ?_, h.update hm rfl rfl
        ⟨fun _ => rfl, rfl, fun _ hop => hop, fun _ hid => hid⟩⟩
      symm
      apply direct_setMessage_same hm
      rfl
  | @startLoop m ops batch hm =>
      refine ⟨used, congrArg some ?_, h.update hm rfl rfl
        ⟨id, rfl, fun _ hop => hop, fun _ hid => hid⟩⟩
      symm
      apply direct_setMessage_same hm
      rfl
  | @next m op ops batch hm =>
      obtain ⟨used', hnext, hreserves⟩ := next_direct h hm (hguard _ hm op rfl)
      refine ⟨used', ?_, hreserves⟩
      refine (Machine.runFrom_singleton ..).trans ?_
      change stepNext cfg (s.direct used) m = _
      rw [stepNext, direct_messages hm]
      exact congrArg some hnext
  | @readCached m ops batch op existing checks hm hfirst hcached =>
      have hfits := hinv.fits_cached hm rfl hfirst hcached
      refine ⟨used, readCached_direct hm hfirst (decidesAlike_of_fits hfits ?_),
        h.attempt hm id rfl rfl rfl 0 existing checks⟩
      rintro payload rfl
      exact hguard _ hm op rfl existing hcached
  | @fetch m attempt ops batch op hm hfirst =>
      refine ⟨used, ?_, h.update hm rfl rfl ⟨id, rfl, fun _ hop => hop, fun _ hid => hid⟩⟩
      refine (Machine.runFrom_singleton ..).trans ((fetch_direct hm hfirst).trans ?_)
      rw [direct_setMessage]
      rfl
  | @resolve m attempt ops batch op existing checks hm =>
      refine ⟨used, ?_, ?_⟩
      · refine (Machine.runFrom_singleton ..).trans
          ((resolve_direct checks (direct_messages hm)).trans (congrArg some ?_))
        refine (direct_attempt attempt ?_ rfl (.refl checks existing)).symm
        split <;> rfl
      · refine h.attempt hm (fun hsome => ?_) ?_ ?_ rfl attempt existing checks
        · split
          · exact Option.isSome_map.trans hsome
          · exact hsome
        · split
          · cases batch <;> rfl
          · rfl
        · split <;> rfl
  | @refuse m attempt ops batch op result expected reason hm =>
      refine ⟨used, ?_, h.update hm rfl rfl ⟨id, rfl, fun _ hop => hop, fun _ hid => by cases hid⟩⟩
      refine (Machine.runFrom_singleton ..).trans ?_
      change stepRefuse (s.direct used) m reason = _
      rw [stepRefuse, direct_messages hm, direct_finishOp]
      rfl
  | @retry m attempt ops batch op result expected hm hlost hagain =>
      refine ⟨used, ?_, h.update hm rfl rfl ⟨id, rfl, fun _ hop => hop, fun _ hid => by cases hid⟩⟩
      refine (Machine.runFrom_singleton ..).trans ?_
      change stepWrite (s.direct used) m = _
      rw [stepWrite, direct_messages hm, direct_setMessage]
      exact (if_pos hlost).trans (if_pos hagain)
  | @giveUp m attempt ops batch op result expected hm hlost hlast =>
      refine ⟨used, ?_, h.update hm rfl rfl ⟨id, rfl, fun _ hop => hop, fun _ hid => by cases hid⟩⟩
      refine (Machine.runFrom_singleton ..).trans ?_
      change stepWrite (s.direct used) m = _
      rw [stepWrite, direct_messages hm, direct_finishOp]
      exact (if_pos hlost).trans (if_neg hlast)
  | @write m attempt ops batch op result expected hm hwon =>
      refine ⟨used, ?_, h.update hm rfl rfl ⟨id, rfl, fun _ hop => hop, fun _ hid => by cases hid⟩⟩
      refine (Machine.runFrom_singleton ..).trans ?_
      change stepWrite (s.direct used) m = _
      rw [stepWrite, direct_messages hm, direct_setMessage]
      exact if_neg hwon
  | @written m ops batch op result hm =>
      refine ⟨used, ?_, reserves_written h hm⟩
      refine (Machine.runFrom_singleton ..).trans ?_
      change stepWritten (s.direct used) m = _
      rw [stepWritten, direct_messages hm, direct_finishOp, direct_recordBatchWrite]
      refine congrArg some ?_
      rw [recordBatchWrite_direct]
      rfl
  | @finish m batch hm =>
      refine ⟨used, ?_, h.update hm rfl rfl ⟨id, rfl, fun _ hop => hop, fun _ hid => hid⟩⟩
      refine (Machine.runFrom_singleton ..).trans ?_
      change stepFinish (s.direct used) m = _
      rw [stepFinish, direct_messages hm, direct_setMessage]
      rfl

/-- The state without batch contexts that goes with a state. -/
def Simulates (cfg : Config) (s t : State) : Prop :=
  Inv s ∧ ∃ used, Reserves cfg s used ∧ t = s.direct used

theorem simulates_start : Simulates cfg State.start State.start :=
  ⟨inv_start, [], reserves_start, rfl⟩

theorem simulates_step {t : State} {e : Event} (h : Simulates cfg s t)
    (hguard : Transparent cfg s e) (hs : (machine cfg true).step s e = some s') :
    ∃ t', (machine cfg false).runFrom t e.direct = some t' ∧ Simulates cfg s' t' := by
  obtain ⟨hinv, used, hreserves, rfl⟩ := h
  have hstepped := stepped_of_step hs
  obtain ⟨used', hrun, hreserves'⟩ := step_direct hinv hreserves hguard hstepped
  exact ⟨_, hrun, inv_stepped hinv hstepped, used', hreserves', rfl⟩

def plainTexts : TextOps :=
  ⟨fun text _ => text, fun _ ours _ => ours, fun _ => 0, fun _ _ n => .num n⟩

/-- One writable query, on an adapter without `applyOpIf`. -/
def oneQuery (conflict : ConflictPolicy) : Config where
  ops := plainTexts
  queries := fun _ => some ⟨true, conflict⟩
  reserveOps := true
  applyOpIf := false

def noteOp (id : String) (op : OpType) (payload : Option Row) (hlc : Hlc) : MessageOp :=
  ⟨id, ⟨op, payload, hlc, "n", "notes", "u"⟩⟩

def titled (title : String) : Row :=
  (∅ : Row).insert "title" (.str title)

def insertNote : MessageOp :=
  noteOp "1" .insert (some (titled "a")) "1"

def deleteNote : MessageOp :=
  noteOp "2" .delete none "2"

def readdNote : MessageOp :=
  noteOp "3" .insert (some (titled "b")) "3"

/-- There is no other message. -/
theorem not_heldElsewhere {id : String} (h : ∀ i, s.messages (i + 1) = none) :
    ¬ s.HeldElsewhere 0 id := by
  rintro ⟨i, other, hne, hi, -⟩
  obtain ⟨j, rfl⟩ := Nat.exists_eq_succ_of_ne_zero hne
  rw [h j] at hi
  cases hi

/-- A note is inserted, deleted and inserted again by the ops of a message. -/
def readdEvents : List Event :=
  [.receive 0 [insertNote, deleteNote, readdNote], .reserve 0, .startLoop 0,
    .next 0, .fetch 0, .resolve 0 (.ok insertNote.incoming.payload), .write 0, .written 0,
    .next 0, .readCached 0 (.ok none), .write 0, .written 0,
    .next 0, .readCached 0 (.ok readdNote.incoming.payload), .write 0, .written 0, .finish 0]

theorem trace_lww : ∃ s,
    (machine (oneQuery .lww) true).Trace (Transparent (oneQuery .lww)) readdEvents s ∧
      s.answers.map (·.2.1) = ["1", "2", "3"] := by
  have hnext : ∀ s : State, (∀ i, s.messages (i + 1) = none) →
      Transparent (oneQuery .lww) s (.next 0) :=
    fun _ h _ _ _ _ _ => not_heldElsewhere h
  have hread : ∀ payload s, Transparent (oneQuery .lww) s (.readCached 0 (.ok payload)) :=
    fun _ _ _ _ _ _ _ _ _ _ => ⟨rfl, fun h => h⟩
  have hstart : (machine (oneQuery .lww) true).Trace (Transparent (oneQuery .lww)) _ _ :=
    Machine.Trace.init.append
      [.receive 0 [insertNote, deleteNote, readdNote], .reserve 0, .startLoop 0]
      (by simp [Transparent]) rfl
  have hinsert := (hstart.step (hnext _ fun _ => rfl) rfl).append
    [.fetch 0, .resolve 0 (.ok insertNote.incoming.payload), .write 0, .written 0]
    (by simp [Transparent]) rfl
  have hdelete := (hinsert.step (hnext _ fun _ => rfl) rfl).append
    [.readCached 0 (.ok none), .write 0, .written 0]
    (by simpa [Transparent] using hread none) rfl
  have hreadd := (hdelete.step (hnext _ fun _ => rfl) rfl).append
    [.readCached 0 (.ok readdNote.incoming.payload), .write 0, .written 0, .finish 0]
    (by simpa [Transparent] using hread readdNote.incoming.payload) rfl
  exact ⟨_, hreadd, rfl⟩
def touchNote : MessageOp :=
  noteOp "3" .update (some ∅) "3"

/-- An op without columns keeps the clocks of the row that the message has deleted. -/
def touchEvents : List Event :=
  [.receive 0 [insertNote, deleteNote, touchNote], .reserve 0, .startLoop 0,
    .next 0, .fetch 0, .resolve 0 (.ok insertNote.incoming.payload), .write 0, .written 0,
    .next 0, .readCached 0 (.ok none), .write 0, .written 0,
    .next 0, .readCached 0 (.ok touchNote.incoming.payload), .write 0, .written 0, .finish 0]

def storedClock (s : State) : Option Hlc :=
  (s.stored ("notes", "n")).bind fun stored => stored.clocks.lookup "_row"

end Prefetch
end Server
end Reflectdb
