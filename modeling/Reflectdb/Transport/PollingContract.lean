import Reflectdb.Transport.Polling

/-!
# Polling contract — one line from the queue to the client

What has been received, what is on its way and what is queued stand in one line.  The owed messages
in that line are what is owed, in its order, wherever a step drops none of them.
-/

namespace Reflectdb
namespace Transport
namespace Polling

open Lib

variable {M : Type} {startsOver : M → Bool} {maxQueueLen : Nat} {idleTimeoutMs : Int}
  {clientId : String} {l l' : Link M} {n : Nat} {message : M}

theorem enqueue_eq (max : Nat) (queue : List M) (message : M) :
    enqueue max queue message =
      ((queue ++ [message]).drop (queue.length + 1 - max), decide (queue.length + 1 ≤ max)) := by
  rw [enqueue, shiftTo_eq]
  simp only [List.length_append, List.length_singleton, Prod.mk.injEq, true_and]
  by_cases hroom : queue.length + 1 ≤ max
  · simp [hroom, Nat.sub_eq_zero_of_le hroom]
  · obtain ⟨first, rest, hcons⟩ := List.exists_cons_of_ne_nil (l := queue ++ [message]) (by simp)
    obtain ⟨k, hk⟩ : ∃ k, queue.length + 1 - max = k + 1 := ⟨queue.length - max, by omega⟩
    rw [hk, hcons]
    simp [hroom]

/-! ## The line -/

/-- Received, on its way, queued. -/
def Link.line (l : Link M) : List Nat :=
  l.arriving ++ l.queued

structure Inv (startsOver : M → Bool) (l : Link M) : Prop where
  whole : l.line.filter ((l.owed startsOver).contains ·) = l.owed startsOver
  distinct : l.line.Nodup
  bound : ∀ n ∈ l.line, n < l.sends.sent
  late : ∀ n ∈ l.queued, l.polledAt ≤ n
  polled : l.polledAt ≤ l.sends.sent

theorem Inv.mem_line (h : Inv startsOver l) (hn : n ∈ l.owed startsOver) : n ∈ l.line := by
  rw [← h.whole] at hn
  exact List.mem_of_mem_filter hn

theorem Inv.contract (h : Inv startsOver l) : Contract startsOver l where
  order := by
    have hprefix := (List.prefix_append l.arriving l.queued).filter ((l.owed startsOver).contains ·)
    have hwhole : (l.arriving ++ l.queued).filter ((l.owed startsOver).contains ·) =
        l.owed startsOver := h.whole
    rwa [hwhole] at hprefix
  back n hn hlt := by
    refine (List.mem_append.1 (h.mem_line hn)).resolve_right fun hqueued => ?_
    exact absurd (h.late n hqueued) (Nat.not_le.2 hlt)
  kept n hn := List.mem_append.1 (h.mem_line hn)

theorem inv_start : Inv startsOver (.start : Link M) :=
  ⟨rfl, .nil, by simp [Link.line, Link.arriving, Link.queued, Link.start],
    by simp [Link.queued, Link.start], Nat.le_refl _⟩

/-- A step that leaves the line and what is owed as they are. -/
theorem Inv.of_line (h : Inv startsOver l) (hline : l'.line = l.line)
    (howed : l'.owed startsOver = l.owed startsOver) (hsent : l'.sends.sent = l.sends.sent)
    (hlate : ∀ n ∈ l'.queued, l'.polledAt ≤ n) (hpolled : l'.polledAt ≤ l.sends.sent) :
    Inv startsOver l' :=
  ⟨by rw [hline, howed, h.whole], hline ▸ h.distinct, hsent ▸ hline ▸ h.bound, hlate,
    hsent ▸ hpolled⟩

theorem inv_connect (h : Inv startsOver l) (now : Int) :
    Inv startsOver { l with peer := l.peer.handleConnect now } := by
  have hqueued : ({ l with peer := l.peer.handleConnect now } : Link M).queued = l.queued := by
    simp [Link.queued, Peer.handleConnect]
  exact h.of_line (by rw [Link.line, hqueued]; rfl) rfl rfl (hqueued ▸ h.late) h.polled

theorem line_poll (l : Link M) (now : Int) :
    (l.poll now).line = l.line ∧ (l.poll now).queued = [] := by
  simp only [Link.line, Link.arriving, Link.queued, Link.poll, Peer.handlePoll]
  cases l.peer.queues <;> simp

theorem inv_poll (h : Inv startsOver l) (now : Int) : Inv startsOver (l.poll now) := by
  obtain ⟨hline, hqueued⟩ := line_poll l now
  refine h.of_line hline rfl rfl (fun n hn => ?_) (Nat.le_refl _)
  rw [hqueued] at hn
  exact absurd hn List.not_mem_nil

/-- The queue loses some of its oldest messages, none of which is owed. -/
theorem Inv.of_drop (h : Inv startsOver l) (k : Nat) (hqueued : l'.queued = l.queued.drop k)
    (harriving : l'.arriving = l.arriving) (howed : l'.owed startsOver = l.owed startsOver)
    (hsent : l.sends.sent ≤ l'.sends.sent) (hpolled : l'.polledAt = l.polledAt)
    (hg : ∀ n ∈ l.queued.take k, n ∉ l.owed startsOver) : Inv startsOver l' := by
  have hsub : l'.line.Sublist l.line := by
    rw [Link.line, Link.line, hqueued, harriving]
    exact (List.drop_sublist _ _).append_left _
  refine ⟨?_, h.distinct.sublist hsub, fun n hn => ?_, fun n hn => ?_, ?_⟩
  · have hnone : (l.queued.take k).filter ((l.owed startsOver).contains ·) = [] :=
      List.filter_eq_nil_iff.2 fun n hn => by simpa using hg n hn
    have hwhole := h.whole
    rw [Link.line, ← List.take_append_drop k l.queued, List.filter_append, List.filter_append,
      hnone, List.nil_append] at hwhole
    rw [Link.line, hqueued, harriving, howed, List.filter_append]
    exact hwhole
  · exact Nat.lt_of_lt_of_le (h.bound n (hsub.subset hn)) hsent
  · rw [hpolled]
    exact h.late n (List.mem_of_mem_drop (hqueued ▸ hn))
  · rw [hpolled]
    exact Nat.le_trans h.polled hsent

theorem inv_delete (h : Inv startsOver l) (hg : l.Drained startsOver)
    (lastPoll : Option Int) : Inv startsOver { l with peer := ⟨none, lastPoll⟩ } :=
  h.of_drop l.queued.length (by simp [Link.queued]) rfl rfl (Nat.le_refl _) rfl fun n hn =>
    hg n (List.mem_of_mem_take hn)

/-! ## A send -/

theorem Inv.received_lt (h : Inv startsOver l) {m : Sent M} (hm : m ∈ l.received) :
    m.serial < l.sends.sent := by
  refine h.bound _ (List.mem_append_left _ (List.mem_map_of_mem ?_))
  exact List.mem_append_left _ hm

/-- The message of a send is queued, whether the send resolves or not. -/
theorem inv_push (h : Inv startsOver l) {queue : List (Sent M)}
    (hqueue : l.peer.queues = some queue) (error : Option TransportSendError) (message : M) :
    Inv startsOver { l with
      peer := { l.peer with queues := some (queue ++ [⟨l.sends.sent, message⟩]) }
      sends := l.sends.record error } := by
  have hline : ({ l with
      peer := { l.peer with queues := some (queue ++ [⟨l.sends.sent, message⟩]) }
      sends := l.sends.record error } : Link M).line = l.line ++ [l.sends.sent] := by
    simp [Link.line, Link.arriving, Link.queued, hqueue]
  have hfresh : l.sends.sent ∉ l.owed startsOver := fun hn =>
    Nat.lt_irrefl _ (Sends.lt_of_mem_owed hn)
  have howed : (l.sends.record error).owed startsOver l.received =
      l.owed startsOver ++ if error.isNone then [l.sends.sent] else [] :=
    Sends.owed_record fun _ hm => Nat.le_of_lt (h.received_lt hm)
  refine ⟨?_, ?_, fun n hn => ?_, fun n hn => ?_, ?_⟩
  · rw [hline]
    change (l.line ++ [l.sends.sent]).filter
      (((l.sends.record error).owed startsOver l.received).contains ·) =
        (l.sends.record error).owed startsOver l.received
    have hold : l.line.filter (((l.sends.record error).owed startsOver l.received).contains ·) =
        l.owed startsOver := by
      refine Eq.trans (List.filter_congr fun n hn => ?_) h.whole
      have hne : n ≠ l.sends.sent := Nat.ne_of_lt (h.bound n hn)
      rw [howed]
      cases error <;> simp [hne]
    rw [List.filter_append, hold, howed]
    cases error <;> simp [hfresh]
  · rw [hline]
    refine List.nodup_append.2 ⟨h.distinct, List.nodup_singleton _, fun a ha b hb => ?_⟩
    rw [List.mem_singleton.1 hb]
    exact Nat.ne_of_lt (h.bound a ha)
  · rw [hline] at hn
    change n < (l.sends.record error).sent
    rw [Sends.sent_record]
    rcases List.mem_append.1 hn with hold | hnew
    · exact Nat.lt_succ_of_lt (h.bound n hold)
    · rw [List.mem_singleton.1 hnew]
      exact Nat.lt_succ_self _
  · have hqueued : n ∈ l.queued ++ [l.sends.sent] := by
      simpa [Link.queued, hqueue] using hn
    rcases List.mem_append.1 hqueued with hold | hnew
    · exact h.late n hold
    · rw [List.mem_singleton.1 hnew]
      exact h.polled
  · change l.polledAt ≤ (l.sends.record error).sent
    rw [Sends.sent_record]
    exact Nat.le_succ_of_le h.polled

/-- A send to a client with a queue: it resolves only if there is room. -/
theorem send_eq {queue : List (Sent M)} (hqueue : l.peer.queues = some queue) :
    ∃ error, (error = none → queue.length + 1 ≤ maxQueueLen) ∧
      l.send maxQueueLen clientId message =
        { l with
          peer := { l.peer with
            queues := some (List.drop (queue.length + 1 - maxQueueLen)
              (queue ++ [⟨l.sends.sent, message⟩])) }
          sends := l.sends.record error } := by
  refine ⟨(l.peer.send maxQueueLen clientId ⟨l.sends.sent, message⟩).2, fun herror => ?_, ?_⟩
  · simpa [Peer.send, hqueue, enqueue_eq] using herror
  · simp only [Link.send, Peer.send, hqueue, enqueue_eq]

theorem send_none (hqueue : l.peer.queues = none) :
    l.send maxQueueLen clientId message = { l with sends := l.sends.reject } := by
  simp [Link.send, Peer.send, hqueue, Sends.record]

theorem inv_send (h : Inv startsOver l)
    (hg : KeepsOwed startsOver maxQueueLen idleTimeoutMs l (.send message)) :
    Inv startsOver (l.send maxQueueLen clientId message) := by
  cases hqueue : l.peer.queues with
  | none =>
      rw [send_none hqueue]
      exact ⟨h.whole, h.distinct, fun n hn => Nat.lt_succ_of_lt (h.bound n hn), h.late,
        Nat.le_succ_of_le h.polled⟩
  | some queue =>
      obtain ⟨error, herror, heq⟩ := @send_eq M maxQueueLen clientId l message queue hqueue
      have hlength : l.queued.length = queue.length := by simp [Link.queued, hqueue]
      rw [heq]
      refine (inv_push h hqueue error message).of_drop
        (queue.length + 1 - maxQueueLen) (by simp [Link.queued, List.map_drop]) rfl rfl
        (Nat.le_refl _) rfl fun n hn howed => ?_
      have htake : n ∈ List.take (queue.length + 1 - maxQueueLen) (l.queued ++ [l.sends.sent]) := by
        simpa [Link.queued, hqueue] using hn
      rw [List.take_append, List.mem_append] at htake
      rcases (Sends.mem_owed_record fun _ hm => Nat.le_of_lt (h.received_lt hm)).1 howed with
        hold | ⟨rfl, hnone⟩
      · rcases htake with hqueued | hself
        · exact hg n (hlength ▸ hqueued) hold
        · rw [List.mem_singleton.1 (List.mem_of_mem_take hself)] at hold
          exact Nat.lt_irrefl _ (Sends.lt_of_mem_owed hold)
      · -- there is room, so nothing is dropped
        rw [Nat.sub_eq_zero_of_le (herror hnone)] at htake
        simp at htake

/-! ## A response -/

/-- A response that arrives overtakes those before it. -/
theorem line_arrive {i : Nat} {response : List (Sent M)} (hi : l.responses[i]? = some response) :
    ∃ front later, front = (l.responses.take i).flatten ∧
      l.line = l.received.map Sent.serial ++
        (front.map Sent.serial ++ response.map Sent.serial) ++ later ∧
      (l.arrive i response).line = l.received.map Sent.serial ++
        (response.map Sent.serial ++ front.map Sent.serial) ++ later ∧
      l.received.map Sent.serial ++ (response.map Sent.serial ++ front.map Sent.serial) <+:
        (l.arrive i response).arriving := by
  obtain ⟨hlt, rfl⟩ := List.getElem?_eq_some_iff.1 hi
  have hsplit : l.responses = l.responses.take i ++ l.responses[i] :: l.responses.drop (i + 1) := by
    rw [List.getElem_cons_drop, List.take_append_drop]
  have hflatten : l.responses.flatten = (l.responses.take i).flatten ++
      (l.responses[i] ++ (l.responses.drop (i + 1)).flatten) := by
    conv_lhs => rw [hsplit]
    rw [List.flatten_append, List.flatten_cons]
  have herase : (l.arrive i l.responses[i]).responses.flatten =
      (l.responses.take i).flatten ++ (l.responses.drop (i + 1)).flatten := by
    change (l.responses.eraseIdx i).flatten = _
    rw [List.eraseIdx_eq_take_drop_succ, List.flatten_append]
  refine ⟨_, (l.responses.drop (i + 1)).flatten.map Sent.serial ++ l.queued, rfl, ?_, ?_,
    (l.responses.drop (i + 1)).flatten.map Sent.serial, ?_⟩
  · rw [Link.line, Link.arriving, hflatten]
    simp only [List.map_append, List.append_assoc]
  · rw [Link.line, Link.arriving, herase]
    simp only [Link.arrive, Link.queued, List.map_append, List.append_assoc]
  · rw [Link.arriving, herase]
    simp only [Link.arrive, List.map_append, List.append_assoc]

/-- If one of two parts has nothing that a test lets through, the test does not see their order. -/
theorem filter_swap {p : Nat → Bool} {xs ys : List Nat}
    (h : ∀ a ∈ xs, ∀ b ∈ ys, p a = true → p b = false) :
    (xs ++ ys).filter p = (ys ++ xs).filter p := by
  rw [List.filter_append, List.filter_append]
  by_cases hxs : xs.filter p = []
  · simp [hxs]
  · obtain ⟨a, ha⟩ := List.exists_mem_of_ne_nil _ hxs
    obtain ⟨hmem, hp⟩ := List.mem_filter.1 ha
    have hys : ys.filter p = [] :=
      List.filter_eq_nil_iff.2 fun b hb => by simp [h a hmem b hb hp]
    simp [hys]

/-- After an arrival, too, what is owed stands in the line as it had been sent before it. -/
theorem filter_line_owed (h : Inv startsOver l) (i : Nat) (response : List (Sent M)) :
    l.line.filter (((l.arrive i response).owed startsOver).contains ·) =
      (l.arrive i response).owed startsOver := by
  have howed : (l.arrive i response).owed startsOver = (l.owed startsOver).filter fun n =>
      !Sends.excused startsOver response n := Sends.owed_append
  rw [howed]
  conv_rhs => rw [← h.whole]
  rw [List.filter_filter]
  refine List.filter_congr fun n _ => ?_
  rw [Bool.eq_iff_iff]
  simp [and_comm]

theorem inv_arrive (h : Inv startsOver l) {i : Nat} {response : List (Sent M)}
    (hi : l.responses[i]? = some response)
    (hg : KeepsOwed startsOver maxQueueLen idleTimeoutMs l (.arrive i)) :
    Inv startsOver (l.arrive i response) := by
  obtain ⟨front, later, hfront, hline, hline', -⟩ := line_arrive hi
  have hperm : (l.arrive i response).line.Perm l.line := by
    rw [hline, hline']
    exact (List.perm_append_comm.append_left _).append_right _
  have hswap : (response.map Sent.serial ++ front.map Sent.serial).filter
      (((l.arrive i response).owed startsOver).contains ·) =
        (front.map Sent.serial ++ response.map Sent.serial).filter
          (((l.arrive i response).owed startsOver).contains ·) := by
    refine (filter_swap fun a ha b hb howed => ?_).symm
    obtain ⟨m, hm, rfl⟩ := List.mem_map.1 ha
    obtain ⟨m', hm', rfl⟩ := List.mem_map.1 hb
    have hnot := hg response hi m (hfront ▸ hm) m' hm' (by simpa using howed)
    simpa using hnot
  refine ⟨?_, hperm.nodup_iff.2 h.distinct, fun n hn => h.bound n (hperm.subset hn), h.late,
    h.polled⟩
  rw [hline', List.filter_append, List.filter_append, hswap, ← List.filter_append,
    ← List.filter_append, ← hline]
  exact filter_line_owed h i response

/-! ## Runs -/

variable {e : LinkEvent M}

theorem inv_step (h : Inv startsOver l)
    (hg : KeepsOwed startsOver maxQueueLen idleTimeoutMs l e)
    (hs : l.step maxQueueLen idleTimeoutMs clientId e = some l') : Inv startsOver l' := by
  cases e with
  | connect now =>
      cases hs
      exact inv_connect h now
  | message now =>
      cases hs
      exact h.of_line rfl rfl rfl h.late h.polled
  | send message =>
      cases hs
      exact inv_send h hg
  | poll now =>
      cases hs
      exact inv_poll h now
  | arrive i =>
      obtain ⟨response, hi, rfl⟩ := Option.map_eq_some_iff.1 hs
      exact inv_arrive h hi hg
  | reap now =>
      cases hs
      unfold Peer.reap
      split
      · rename_i hidle
        exact inv_delete h (hg hidle) none
      · exact h
  | handleDisconnect =>
      cases hs
      exact inv_delete h hg none
  | disconnect =>
      cases hs
      exact inv_delete h hg none

theorem notMem_arriving_of_queued (h : Inv startsOver l) (hn : n ∈ l.queued) : n ∉ l.arriving :=
  fun harrives => (List.nodup_append.1 h.distinct).2.2 n harrives n hn rfl

theorem drained_of_kept (h : Inv startsOver l) {peer : Peer (Sent M)}
    (hc : Contract startsOver { l with peer := peer }) (hpeer : peer.queues = none) :
    l.Drained startsOver := by
  intro n hn howed
  rcases hc.kept n howed with harrives | hqueued
  · exact notMem_arriving_of_queued h hn harrives
  · simp [Link.queued, hpeer] at hqueued

theorem keepsOwed_send (h : Inv startsOver l)
    (hc : Contract startsOver (l.send maxQueueLen clientId message)) :
    KeepsOwed startsOver maxQueueLen idleTimeoutMs l (.send message) := by
  intro n hn howed
  cases hqueue : l.peer.queues with
  | none => simp [Link.queued, hqueue] at hn
  | some queue =>
      obtain ⟨error, -, heq⟩ := @send_eq M maxQueueLen clientId l message queue hqueue
      have hlength : l.queued.length = queue.length := by simp [Link.queued, hqueue]
      rw [heq] at hc
      have hstill : n ∈ (l.sends.record error).owed startsOver l.received :=
        (Sends.mem_owed_record fun _ hm => Nat.le_of_lt (h.received_lt hm)).2 (.inl howed)
      rcases hc.kept n hstill with harrives | hqueued
      · exact notMem_arriving_of_queued h (List.mem_of_mem_take hn) harrives
      · have hdistinct := (inv_push h hqueue error message).distinct
        have hpushed : (l.queued ++ [l.sends.sent]).Nodup := by
          have := (List.nodup_append.1 hdistinct).2.1
          simpa [Link.queued, hqueue] using this
        rw [← List.take_append_drop (queue.length + 1 - maxQueueLen) (l.queued ++ _)] at hpushed
        have htake : n ∈ List.take (queue.length + 1 - maxQueueLen)
            (l.queued ++ [l.sends.sent]) := by
          rw [List.take_append]
          exact List.mem_append_left _ (hlength ▸ hn)
        have hdrop : n ∈ List.drop (queue.length + 1 - maxQueueLen)
            (l.queued ++ [l.sends.sent]) := by
          simpa [Link.queued, hqueue, List.map_drop] using hqueued
        exact (List.nodup_append.1 hpushed).2.2 n htake n hdrop rfl

theorem keepsOwed_arrive (h : Inv startsOver l) {i : Nat} {response : List (Sent M)}
    (hi : l.responses[i]? = some response) (hc : Contract startsOver (l.arrive i response)) :
    KeepsOwed startsOver maxQueueLen idleTimeoutMs l (.arrive i) := by
  intro response' hi' a ha b hb howed howed'
  cases hi.symm.trans hi'
  obtain ⟨front, later, hfront, hline, -, harriving⟩ := line_arrive hi
  have ha' : a.serial ∈ front.map Sent.serial := List.mem_map_of_mem (hfront ▸ ha)
  have hb' : b.serial ∈ response.map Sent.serial := List.mem_map_of_mem hb
  have hsorted : ((l.arrive i response).owed startsOver).Pairwise (· < ·) := Sends.sorted_owed
  -- in the line the one in front comes first, and at the client the other one does
  have hbefore : a.serial < b.serial := by
    have hwhole := filter_line_owed h i response
    rw [hline, List.filter_append, List.filter_append, List.filter_append] at hwhole
    rw [← hwhole] at hsorted
    have hparts := (List.pairwise_append.1 (List.pairwise_append.1 hsorted).1).2.1
    exact (List.pairwise_append.1 hparts).2.2 _
      (List.mem_filter.2 ⟨ha', by simpa using howed⟩) _
      (List.mem_filter.2 ⟨hb', by simpa using howed'⟩)
  have hafter : b.serial < a.serial := by
    have hprefix := (harriving.filter
      (((l.arrive i response).owed startsOver).contains ·)).trans hc.order
    have hparts := hsorted.sublist hprefix.sublist
    rw [List.filter_append, List.filter_append] at hparts
    exact (List.pairwise_append.1 (List.pairwise_append.1 hparts).2.1).2.2 _
      (List.mem_filter.2 ⟨hb', by simpa using howed'⟩) _
      (List.mem_filter.2 ⟨ha', by simpa using howed⟩)
  exact Nat.lt_asymm hbefore hafter

theorem keepsOwed_of_contract (h : Inv startsOver l)
    (hs : l.step maxQueueLen idleTimeoutMs clientId e = some l') (hc : Contract startsOver l') :
    KeepsOwed startsOver maxQueueLen idleTimeoutMs l e := by
  cases e with
  | connect now => trivial
  | message now => trivial
  | send message =>
      cases hs
      exact keepsOwed_send h hc
  | poll now => trivial
  | arrive i =>
      obtain ⟨response, hi, rfl⟩ := Option.map_eq_some_iff.1 hs
      exact keepsOwed_arrive h hi hc
  | reap now =>
      cases hs
      intro hidle
      exact drained_of_kept h hc (by simp [Peer.reap, hidle])
  | handleDisconnect =>
      cases hs
      exact drained_of_kept h hc rfl
  | disconnect =>
      cases hs
      exact drained_of_kept h hc rfl

theorem inv_of_reach (h : (linkMachine M maxQueueLen idleTimeoutMs clientId).Reach
    (KeepsOwed startsOver maxQueueLen idleTimeoutMs) l) : Inv startsOver l :=
  h.invariant (P := Inv startsOver) inv_start fun hi hg hs => inv_step hi hg hs

theorem contract_iff_step (h : (linkMachine M maxQueueLen idleTimeoutMs clientId).Reach
    (KeepsOwed startsOver maxQueueLen idleTimeoutMs) l)
    (hs : (linkMachine M maxQueueLen idleTimeoutMs clientId).step l e = some l') :
    Contract startsOver l' ↔ KeepsOwed startsOver maxQueueLen idleTimeoutMs l e :=
  ⟨keepsOwed_of_contract (inv_of_reach h) hs,
    fun hg => (inv_step (inv_of_reach h) hg hs).contract⟩

end Polling
end Transport
end Reflectdb
