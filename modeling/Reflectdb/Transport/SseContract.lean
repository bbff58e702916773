import Reflectdb.Transport.Sse

/-!
# SSE contract — what the buffer, the stream and the client hold together

In an order of the serial numbers, the buffer holds a last part of what has been sent, and what a
client has received and is about to receive has no gap at an owed message.  A controller that is
that of the stream the client reads has been given everything that is owed.
-/

namespace Reflectdb
namespace Transport
namespace Sse

open Lib

variable {M : Type}

/-! ## What the operations do -/

theorem evict_eq (size : Nat) (buf : List (Entry M)) :
    evict size buf = (buf.drop (buf.length - size),
      (buf.take (buf.length - size)).any fun entry => !entry.delivered) :=
  shiftTo_eq size _ buf

namespace Peer

/-- The controller that takes the frame of a send. -/
def taker (p : Peer M) (thrown : Option String) : Option Nat :=
  if thrown.isNone then p.controllers else none

/-- The entry of a send. -/
def entry (p : Peer M) (thrown : Option String) (message : M) : Entry M :=
  ⟨p.counters + 1, encode (p.counters + 1) message, (p.taker thrown).isSome⟩

theorem tryEnqueue_eq (p : Peer M) (thrown : Option String) (encoded : Frame M) :
    p.tryEnqueue thrown encoded =
      ((p.taker thrown).elim p (p.enqueue · [encoded]), (p.taker thrown).isSome,
        p.controllers.bind fun _ => thrown) := by
  unfold tryEnqueue taker
  cases hcontroller : p.controllers <;> cases thrown <;> rfl

/-- What a send leaves behind, and whether it resolves. -/
theorem send_eq {p : Peer M} (h : p.collecting = none) (size : Nat) (clientId : String)
    (thrown : Option String) (message : M) :
    (p.send size clientId thrown message).1 =
        { p with
          counters := p.counters + 1
          buffers := (evict size (p.buffers ++ [p.entry thrown message])).1
          queues := (p.taker thrown).elim p.queues fun i =>
            Function.update p.queues i (p.queues i ++ [encode (p.counters + 1) message]) } ∧
      ((p.send size clientId thrown message).2 = none ↔
        p.taker thrown = p.controllers ∧
          (evict size (p.buffers ++ [p.entry thrown message])).2 = false) := by
  rw [send, h]
  simp only [tryEnqueue_eq, buffer, entry, taker]
  cases hcontroller : p.controllers <;> cases thrown <;> simp [enqueue] <;> split <;>
    simp_all

theorem taker_eq_some {p : Peer M} {thrown : Option String} {i : Nat} :
    p.taker thrown = some i ↔ thrown = none ∧ p.controllers = some i := by
  cases thrown <;> simp [taker]

end Peer

/-! ## The invariant -/

variable {startsOver : M → Bool} {replayBufferSize : Nat} {clientId : String} {l : Link M} {n : Nat}

/-- Ids and serial numbers count the same sends, from the last deletion of the counter on. -/
structure Numbered (replayBufferSize : Nat) (l : Link M) : Prop where
  ready : l.peer.collecting = none
  counted : l.peer.counters ≤ l.sends.sent
  entries : ∀ entry ∈ l.peer.buffers, 0 < entry.id ∧ entry.encoded.id = entry.id ∧
    entry.id + l.sends.sent = entry.serial + 1 + l.peer.counters ∧ entry.serial < l.sends.sent
  ordered : l.peer.buffers.Pairwise fun a b => a.serial < b.serial
  frames : ∀ frame ∈ l.received ++ l.peer.queues l.opened,
    frame.serial + l.peer.counters < l.sends.sent ∨
      frame.id + l.sends.sent = frame.serial + 1 + l.peer.counters
  short : l.peer.buffers.length ≤ replayBufferSize

/-- A request that has not reached the server has no controller, and carries the last id. -/
structure Requested (l : Link M) : Prop where
  fresh : ∀ i, l.opened < i → (l.requests i).handledAt = none
  unhandled : ∀ i, (l.requests i).handledAt = none →
    l.peer.queues i = [] ∧ l.peer.controllers ≠ some i
  handled : ∀ i k, (l.requests i).handledAt = some k → k ≤ l.sends.sent
  latest : (l.requests l.opened).handledAt = none →
    (l.requests l.opened).lastEventId = l.received.getLast?.map Frame.id

structure Delivers (startsOver : M → Bool) (l : Link M) : Prop where
  sorted : l.arriving.Pairwise (· < ·)
  bound : ∀ n ∈ l.arriving, n < l.sends.sent
  hole : ∀ n ∈ l.owed startsOver, ∀ m ∈ l.arriving, n < m → n ∈ l.arriving
  live : l.peer.controllers = some l.opened → ∀ n ∈ l.owed startsOver, n ∈ l.arriving
  back : ∀ k, (l.requests l.opened).handledAt = some k → ∀ n ∈ l.owed startsOver, n < k →
    n ∈ l.arriving
  kept : ∀ n ∈ l.owed startsOver, n ∈ l.arriving ∨ ∃ entry ∈ l.peer.buffers, entry.serial = n

structure Inv (startsOver : M → Bool) (replayBufferSize : Nat) (l : Link M) : Prop where
  numbered : Numbered replayBufferSize l
  requested : Requested l
  delivers : Delivers startsOver l

theorem Inv.contract (h : Inv startsOver replayBufferSize l) : Contract startsOver l where
  order := inOrder_of_sorted Sends.sorted_owed h.delivers.sorted h.delivers.hole
  back := h.delivers.back
  kept := h.delivers.kept

theorem inv_start : Inv startsOver replayBufferSize (.start : Link M) where
  numbered := ⟨rfl, Nat.zero_le _, by simp [Link.start], .nil, by simp [Link.start], Nat.zero_le _⟩
  requested := ⟨fun _ _ => rfl, fun _ _ => ⟨rfl, by simp [Link.start]⟩,
    fun _ _ hk => by simp [Link.start] at hk, fun _ => rfl⟩
  delivers := by
    have howed : ∀ n, n ∉ (Link.start : Link M).owed startsOver := fun n hn => by
      simp [Link.owed, Sends.owed, Link.start, Sends.empty] at hn
    exact ⟨.nil, by simp [Link.arriving, Link.start], fun n hn => absurd hn (howed n),
      fun _ n hn => absurd hn (howed n), fun _ _ n hn => absurd hn (howed n),
      fun n hn => absurd hn (howed n)⟩

theorem Inv.received_lt (h : Inv startsOver replayBufferSize l) {m : Sent M}
    (hm : m ∈ l.received.map Frame.data) : m.serial < l.sends.sent := by
  obtain ⟨frame, hframe, rfl⟩ := List.mem_map.1 hm
  exact h.delivers.bound _ (List.mem_map_of_mem (List.mem_append_left _ hframe))

/-! ## A send -/

variable {thrown : Option String} {message : M}

/-- What the send throws. -/
def Link.error (l : Link M) (replayBufferSize : Nat) (clientId : String) (thrown : Option String)
    (message : M) : Option TransportSendError :=
  (l.peer.send replayBufferSize clientId thrown ⟨l.sends.sent, message⟩).2

theorem peer_send (h : l.peer.collecting = none) (replayBufferSize : Nat) (clientId : String)
    (thrown : Option String) (message : M) :
    (l.send replayBufferSize clientId thrown message).peer =
      { l.peer with
        counters := l.peer.counters + 1
        buffers := (l.peer.buffers ++ [l.peer.entry thrown ⟨l.sends.sent, message⟩]).drop
          (l.peer.buffers.length + 1 - replayBufferSize)
        queues := (l.peer.taker thrown).elim l.peer.queues fun i =>
          Function.update l.peer.queues i
            (l.peer.queues i ++ [encode (l.peer.counters + 1) ⟨l.sends.sent, message⟩]) } := by
  have heq := (Peer.send_eq h replayBufferSize clientId thrown ⟨l.sends.sent, message⟩).1
  rw [evict_eq] at heq
  simpa [Link.send] using heq

theorem queues_send (h : l.peer.collecting = none) (replayBufferSize : Nat) (clientId : String)
    (thrown : Option String) (message : M) (i : Nat) :
    (l.send replayBufferSize clientId thrown message).peer.queues i =
      if l.peer.taker thrown = some i then
        l.peer.queues i ++ [encode (l.peer.counters + 1) ⟨l.sends.sent, message⟩]
      else l.peer.queues i := by
  rw [peer_send h]
  cases htaker : l.peer.taker thrown with
  | none => simp
  | some j =>
      by_cases hj : i = j
      · subst hj
        simp
      · have hne : ¬ some j = some i := fun heq => hj (Option.some.inj heq).symm
        simp [Function.update_of_ne hj, hne]

theorem arriving_send (h : l.peer.collecting = none) (replayBufferSize : Nat) (clientId : String)
    (thrown : Option String) (message : M) :
    (l.send replayBufferSize clientId thrown message).arriving =
      if l.peer.taker thrown = some l.opened then l.arriving ++ [l.sends.sent] else l.arriving := by
  have hqueue := queues_send h replayBufferSize clientId thrown message l.opened
  change (l.received ++ (l.send replayBufferSize clientId thrown message).peer.queues
    l.opened).map Frame.serial = _
  rw [hqueue]
  split
  · simp [Link.arriving, encode, Frame.serial]
  · rfl

theorem mem_owed_send (h : Inv startsOver replayBufferSize l) :
    n ∈ (l.send replayBufferSize clientId thrown message).owed startsOver ↔
      n ∈ l.owed startsOver ∨
        n = l.sends.sent ∧ l.error replayBufferSize clientId thrown message = none :=
  Sends.mem_owed_record fun _ hm => Nat.le_of_lt (h.received_lt hm)

theorem taker_of_error (h : l.peer.collecting = none)
    (herror : l.error replayBufferSize clientId thrown message = none) :
    l.peer.taker thrown = l.peer.controllers :=
  ((Peer.send_eq h replayBufferSize clientId thrown _).2.1 herror).1

theorem numbered_send (h : Numbered replayBufferSize l) :
    Numbered replayBufferSize (l.send replayBufferSize clientId thrown message) := by
  have hpeer := peer_send h.ready replayBufferSize clientId thrown message
  have hsent : (l.send replayBufferSize clientId thrown message).sends.sent = l.sends.sent + 1 :=
    Sends.sent_record
  have hentries : ∀ entry ∈ l.peer.buffers ++ [l.peer.entry thrown ⟨l.sends.sent, message⟩],
      0 < entry.id ∧ entry.encoded.id = entry.id ∧
        entry.id + l.sends.sent = entry.serial + 1 + l.peer.counters ∧
          entry.serial < l.sends.sent + 1 := by
    intro entry hentry
    rcases List.mem_append.1 hentry with hold | hnew
    · obtain ⟨hid, hencoded, hserial, hlt⟩ := h.entries entry hold
      exact ⟨hid, hencoded, hserial, Nat.lt_succ_of_lt hlt⟩
    · rw [List.mem_singleton.1 hnew]
      refine ⟨Nat.succ_pos _, rfl, ?_, Nat.lt_succ_self _⟩
      simp only [Peer.entry, Entry.serial, encode, Frame.serial]
      omega
  refine ⟨?_, ?_, fun entry hentry => ?_, ?_, fun frame hframe => ?_, ?_⟩
  · rw [hpeer]
    exact h.ready
  · rw [hpeer, hsent]
    exact Nat.succ_le_succ h.counted
  · rw [hpeer] at hentry ⊢
    rw [hsent]
    obtain ⟨hid, hencoded, hserial, hlt⟩ := hentries entry (List.mem_of_mem_drop hentry)
    refine ⟨hid, hencoded, ?_, hlt⟩
    change entry.id + (l.sends.sent + 1) = entry.serial + 1 + (l.peer.counters + 1)
    omega
  · rw [hpeer]
    refine List.Pairwise.sublist (List.drop_sublist _ _) ?_
    refine List.pairwise_append.2 ⟨h.ordered, List.pairwise_singleton _ _, fun a ha b hb => ?_⟩
    rw [List.mem_singleton.1 hb]
    exact (h.entries a ha).2.2.2
  · have hcounters : (l.send replayBufferSize clientId thrown message).peer.counters =
        l.peer.counters + 1 := by rw [hpeer]
    have hold : frame ∈ l.received ++ l.peer.queues l.opened ∨
        frame = encode (l.peer.counters + 1) ⟨l.sends.sent, message⟩ := by
      rcases List.mem_append.1 hframe with hreceived | hqueue
      · exact .inl (List.mem_append_left _ hreceived)
      · have hqueues := queues_send h.ready replayBufferSize clientId thrown message l.opened
        change frame ∈ (l.send replayBufferSize clientId thrown message).peer.queues l.opened
          at hqueue
        rw [hqueues] at hqueue
        split at hqueue
        · rcases List.mem_append.1 hqueue with hmem | hnew
          · exact .inl (List.mem_append_right _ hmem)
          · exact .inr (List.mem_singleton.1 hnew)
        · exact .inl (List.mem_append_right _ hqueue)
    rw [hcounters, hsent]
    rcases hold with hmem | rfl
    · have := h.frames frame hmem
      omega
    · right
      simp only [encode, Frame.serial]
      omega
  · rw [hpeer]
    simp only [List.length_drop, List.length_append, List.length_singleton]
    omega

theorem requested_send (hready : l.peer.collecting = none) (h : Requested l) :
    Requested (l.send replayBufferSize clientId thrown message) where
  fresh := h.fresh
  unhandled i hi := by
    obtain ⟨hqueue, hcontroller⟩ := h.unhandled i hi
    have hother : l.peer.taker thrown ≠ some i := fun heq =>
      hcontroller (Peer.taker_eq_some.1 heq).2
    rw [queues_send hready, if_neg hother, peer_send hready]
    exact ⟨hqueue, hcontroller⟩
  handled i k hk := by
    have hsent : (l.send replayBufferSize clientId thrown message).sends.sent =
        l.sends.sent + 1 := Sends.sent_record
    rw [hsent]
    exact Nat.le_succ_of_le (h.handled i k hk)
  latest := h.latest

/-- What waited is still in the buffer, unless it was among the entries that a send drops. -/
theorem kept_send (h : Inv startsOver replayBufferSize l)
    (hg : l.SendKeeps startsOver replayBufferSize thrown)
    (hn : n ∈ (l.send replayBufferSize clientId thrown message).owed startsOver) :
    n ∈ (l.send replayBufferSize clientId thrown message).arriving ∨
      ∃ entry ∈ (l.send replayBufferSize clientId thrown message).peer.buffers,
        entry.serial = n := by
  have hready := h.numbered.ready
  rw [arriving_send hready, peer_send hready]
  rcases (mem_owed_send h).1 hn with hold | ⟨rfl, herror⟩
  · by_cases harrives : n ∈ l.arriving
    · left
      split
      · exact List.mem_append_left _ harrives
      · exact harrives
    · -- it waits, so it is an entry that the send does not drop
      right
      obtain ⟨entry, hentry, rfl⟩ := (h.delivers.kept n hold).resolve_left harrives
      rw [← List.take_append_drop (l.peer.buffers.length + 1 - replayBufferSize) l.peer.buffers]
        at hentry
      have hdrop := (List.mem_append.1 hentry).resolve_left fun htake =>
        hg.1 entry htake ⟨hold, harrives⟩
      refine ⟨entry, ?_, rfl⟩
      rw [List.drop_append]
      exact List.mem_append_left _ hdrop
  · have htaker := taker_of_error hready herror
    by_cases hlive : l.peer.controllers = some l.opened
    · left
      rw [if_pos (htaker.trans hlive)]
      exact List.mem_append_right _ (List.mem_singleton_self _)
    · right
      rcases Nat.eq_zero_or_pos replayBufferSize with hzero | hpos
      · -- no room at all: it has gone out, but not to the stream that the client reads
        exfalso
        have hlost := ((Peer.send_eq hready replayBufferSize clientId thrown _).2.1 herror).2
        rw [evict_eq, hzero, Nat.sub_zero, List.take_length, List.any_eq_false] at hlost
        have hdelivered := hlost (l.peer.entry thrown ⟨l.sends.sent, message⟩) (by simp)
        have hsome : l.peer.taker thrown ≠ none := by simpa [Peer.entry] using hdelivered
        obtain ⟨i, hi⟩ := Option.ne_none_iff_exists'.1 hsome
        obtain ⟨hthrown, hcontroller⟩ := Peer.taker_eq_some.1 hi
        exact hlive (hg.2 hzero hthrown i hcontroller ▸ hcontroller)
      · refine ⟨l.peer.entry thrown ⟨l.sends.sent, message⟩, ?_, rfl⟩
        rw [List.drop_append_of_le_length (by omega)]
        exact List.mem_append_right _ (List.mem_singleton_self _)

theorem delivers_send (h : Inv startsOver replayBufferSize l)
    (hg : l.SendKeeps startsOver replayBufferSize thrown) :
    Delivers startsOver (l.send replayBufferSize clientId thrown message) := by
  have hready := h.numbered.ready
  have hsent : (l.send replayBufferSize clientId thrown message).sends.sent = l.sends.sent + 1 :=
    Sends.sent_record
  have harriving := arriving_send hready replayBufferSize clientId thrown message
  have hsub : ∀ n ∈ l.arriving,
      n ∈ (l.send replayBufferSize clientId thrown message).arriving := by
    intro n hn
    rw [harriving]
    split
    · exact List.mem_append_left _ hn
    · exact hn
  have hbound : ∀ n ∈ (l.send replayBufferSize clientId thrown message).arriving,
      n < l.sends.sent + 1 := by
    intro n hn
    rw [harriving] at hn
    split at hn
    · rcases List.mem_append.1 hn with hold | hnew
      · exact Nat.lt_succ_of_lt (h.delivers.bound n hold)
      · rw [List.mem_singleton.1 hnew]
        exact Nat.lt_succ_self _
    · exact Nat.lt_succ_of_lt (h.delivers.bound n hn)
  refine ⟨?_, fun n hn => hsent ▸ hbound n hn, fun n hn m hm hlt => ?_, fun hlive n hn => ?_,
    fun k hk n hn hlt => ?_, fun n hn => kept_send h hg hn⟩
  · rw [harriving]
    split
    · refine List.pairwise_append.2 ⟨h.delivers.sorted, List.pairwise_singleton _ _,
        fun a ha b hb => ?_⟩
      rw [List.mem_singleton.1 hb]
      exact h.delivers.bound a ha
    · exact h.delivers.sorted
  · rcases (mem_owed_send h).1 hn with hold | ⟨rfl, -⟩
    · rw [harriving] at hm
      split at hm
      · rename_i htaker
        exact hsub n (h.delivers.live (Peer.taker_eq_some.1 htaker).2 n hold)
      · exact hsub n (h.delivers.hole n hold m hm hlt)
    · have := hbound m hm
      omega
  · have hcontroller : l.peer.controllers = some l.opened := by
      rw [peer_send hready] at hlive
      exact hlive
    rcases (mem_owed_send h).1 hn with hold | ⟨rfl, herror⟩
    · exact hsub n (h.delivers.live hcontroller n hold)
    · rw [harriving, if_pos ((taker_of_error hready herror).trans hcontroller)]
      exact List.mem_append_right _ (List.mem_singleton_self _)
  · rcases (mem_owed_send h).1 hn with hold | ⟨rfl, -⟩
    · exact hsub n (h.delivers.back k hk n hold hlt)
    · exact absurd hlt (Nat.not_lt.2 (h.requested.handled _ k hk))

theorem inv_send (h : Inv startsOver replayBufferSize l)
    (hg : l.SendKeeps startsOver replayBufferSize thrown) :
    Inv startsOver replayBufferSize (l.send replayBufferSize clientId thrown message) :=
  ⟨numbered_send h.numbered, requested_send h.numbered.ready h.requested, delivers_send h hg⟩

/-! ## A new stream -/

theorem queue_unopened (h : Requested l) : l.peer.queues (l.opened + 1) = [] :=
  (h.unhandled _ (h.fresh _ (Nat.lt_succ_self _))).1

theorem arriving_request (h : Requested l) :
    l.request.arriving = l.received.map Frame.serial := by
  change (l.received ++ l.peer.queues (l.opened + 1)).map Frame.serial = _
  rw [queue_unopened h, List.append_nil]

theorem mem_arriving : n ∈ l.arriving ↔
    n ∈ l.received.map Frame.serial ∨ n ∈ (l.peer.queues l.opened).map Frame.serial := by
  rw [Link.arriving, List.map_append, List.mem_append]

theorem requested_request (h : Requested l) : Requested l.request where
  fresh i hi := by
    have hne : i ≠ l.opened + 1 := Nat.ne_of_gt hi
    simpa [Link.request, Function.update_of_ne hne] using
      h.fresh i (Nat.lt_of_succ_lt hi)
  unhandled i hi := by
    by_cases hne : i = l.opened + 1
    · subst hne
      exact h.unhandled _ (h.fresh _ (Nat.lt_succ_self _))
    · exact h.unhandled i (by simpa [Link.request, Function.update_of_ne hne] using hi)
  handled i k hk := by
    by_cases hne : i = l.opened + 1
    · subst hne
      simp [Link.request] at hk
    · exact h.handled i k (by simpa [Link.request, Function.update_of_ne hne] using hk)
  latest _ := by simp [Link.request]

theorem inv_request (h : Inv startsOver replayBufferSize l)
    (hg : KeepsOwed startsOver replayBufferSize l .request) :
    Inv startsOver replayBufferSize l.request := by
  have harriving := arriving_request h.requested
  have hsub : ∀ n ∈ l.request.arriving, n ∈ l.arriving := fun n hn =>
    mem_arriving.2 (.inl (harriving ▸ hn))
  -- the frames of the stream that is left are later than those received
  have hparts : ((l.received.map Frame.serial) ++
      (l.peer.queues l.opened).map Frame.serial).Pairwise (· < ·) := by
    rw [← List.map_append]
    exact h.delivers.sorted
  obtain ⟨hreceived, -, hlater⟩ := List.pairwise_append.1 hparts
  refine ⟨⟨h.numbered.ready, h.numbered.counted, h.numbered.entries, h.numbered.ordered,
    fun frame hframe => ?_, h.numbered.short⟩, requested_request h.requested,
    ⟨?_, fun n hn => h.delivers.bound n (hsub n hn), fun n hn m hm hlt => ?_, fun hlive => ?_,
      fun k hk => ?_, fun n hn => ?_⟩⟩
  · change frame ∈ l.received ++ l.peer.queues (l.opened + 1) at hframe
    rw [queue_unopened h.requested, List.append_nil] at hframe
    exact h.numbered.frames frame (List.mem_append_left _ hframe)
  · rw [harriving]
    exact hreceived
  · have hmem := h.delivers.hole n hn m (hsub m hm) hlt
    rw [harriving] at hm ⊢
    refine (mem_arriving.1 hmem).resolve_right fun hqueue => ?_
    exact absurd (hlater m hm n hqueue) (Nat.lt_asymm hlt)
  · exact absurd hlive (h.requested.unhandled _ (h.requested.fresh _ (Nat.lt_succ_self _))).2
  · simp [Link.request] at hk
  · rw [harriving]
    rcases h.delivers.kept n hn with harrives | hbuffer
    · rcases mem_arriving.1 harrives with hold | hqueue
      · exact .inl hold
      · obtain ⟨frame, hframe, rfl⟩ := List.mem_map.1 hqueue
        exact .inr (hg frame hframe hn)
    · exact .inr hbuffer

/-! ## A request that reaches the server -/

@[simp] theorem serial_replay (lastId : Nat) (entry : Entry (Sent M)) :
    (entry.replay lastId).serial = entry.serial := by
  unfold Entry.replay
  split <;> rfl

@[simp] theorem id_replay (lastId : Nat) (entry : Entry M) :
    (entry.replay lastId).id = entry.id := by
  unfold Entry.replay
  split <;> rfl

@[simp] theorem encoded_replay (lastId : Nat) (entry : Entry M) :
    (entry.replay lastId).encoded = entry.encoded := by
  unfold Entry.replay
  split <;> rfl

/-- The frames that a request is answered with. -/
def Link.replayed (l : Link M) (i : Nat) : List (Frame (Sent M)) :=
  match (l.requests i).lastEventId with
  | none => []
  | some lastId => (l.peer.buffers.filter (Entry.after lastId)).map Entry.encoded

theorem queues_subscribe (l : Link M) (i j : Nat) :
    (l.subscribe i).peer.queues j =
      if j = i then l.peer.queues i ++ l.replayed i else l.peer.queues j := by
  unfold Link.subscribe Peer.handleSubscribe Link.replayed
  cases (l.requests i).lastEventId with
  | none =>
      by_cases hj : j = i
      · simp [hj]
      · simp [hj]
  | some lastId =>
      by_cases hj : j = i
      · subst hj
        simp [Peer.enqueue]
      · simp [Peer.enqueue, hj]

/-- Only the marks of the entries change. -/
theorem buffers_subscribe (l : Link M) (i : Nat) :
    ∃ f : Entry (Sent M) → Entry (Sent M), (l.subscribe i).peer.buffers = l.peer.buffers.map f ∧
      ∀ entry, (f entry).id = entry.id ∧ (f entry).encoded = entry.encoded := by
  unfold Link.subscribe Peer.handleSubscribe
  cases (l.requests i).lastEventId with
  | none => exact ⟨fun entry => entry, by simp, fun _ => ⟨rfl, rfl⟩⟩
  | some lastId => exact ⟨Entry.replay lastId, rfl, fun entry => by simp⟩

theorem peer_subscribe (l : Link M) (i : Nat) :
    (l.subscribe i).peer.controllers = some i ∧
      (l.subscribe i).peer.counters = l.peer.counters ∧
      (l.subscribe i).peer.collecting = l.peer.collecting := by
  unfold Link.subscribe Peer.handleSubscribe
  cases (l.requests i).lastEventId <;> exact ⟨rfl, rfl, rfl⟩

theorem mem_replayed {i : Nat} {frame : Frame (Sent M)} :
    frame ∈ l.replayed i ↔ ∃ entry ∈ l.peer.buffers, entry.encoded = frame ∧
      ∃ lastId, (l.requests i).lastEventId = some lastId ∧ lastId < entry.id := by
  unfold Link.replayed
  cases hheader : (l.requests i).lastEventId with
  | none => simp
  | some lastId =>
      simp only [List.mem_map, List.mem_filter, Entry.after, decide_eq_true_eq, Option.some.injEq]
      constructor
      · rintro ⟨entry, ⟨hentry, hid⟩, heq⟩
        exact ⟨entry, hentry, heq, lastId, rfl, hid⟩
      · rintro ⟨entry, hentry, heq, _, rfl, hid⟩
        exact ⟨entry, ⟨hentry, hid⟩, heq⟩

theorem numbered_subscribe (h : Numbered replayBufferSize l) (i : Nat) :
    Numbered replayBufferSize (l.subscribe i) := by
  obtain ⟨f, hbuffers, hf⟩ := buffers_subscribe l i
  obtain ⟨-, hcounters, hcollecting⟩ := peer_subscribe l i
  have hserial : ∀ entry, (f entry).serial = entry.serial := fun entry => by
    rw [Entry.serial, (hf entry).2, Entry.serial]
  refine ⟨hcollecting.trans h.ready, hcounters ▸ h.counted, fun entry hentry => ?_, ?_,
    fun frame hframe => ?_, ?_⟩
  · rw [hbuffers] at hentry
    obtain ⟨old, hold, rfl⟩ := List.mem_map.1 hentry
    rw [hcounters, hserial, (hf old).1, (hf old).2]
    exact h.entries old hold
  · rw [hbuffers, List.pairwise_map]
    simpa only [hserial] using h.ordered
  · rw [hcounters]
    rcases List.mem_append.1 hframe with hreceived | hqueue
    · exact h.frames frame (List.mem_append_left _ hreceived)
    · change frame ∈ (l.subscribe i).peer.queues l.opened at hqueue
      have hcases : frame ∈ l.peer.queues l.opened ∨ frame ∈ l.replayed i := by
        rw [queues_subscribe] at hqueue
        split at hqueue
        · rename_i heq
          subst heq
          exact List.mem_append.1 hqueue
        · exact .inl hqueue
      rcases hcases with hold | hnew
      · exact h.frames frame (List.mem_append_right _ hold)
      · obtain ⟨entry, hentry, rfl, -⟩ := mem_replayed.1 hnew
        obtain ⟨-, hid, hcount, -⟩ := h.entries entry hentry
        right
        rw [hid]
        exact hcount
  · rw [hbuffers, List.length_map]
    exact h.short

theorem requested_subscribe (h : Requested l) {i : Nat} (hi : i ≤ l.opened) :
    Requested (l.subscribe i) where
  fresh j hj := by
    have hne : j ≠ i := Nat.ne_of_gt (Nat.lt_of_le_of_lt hi hj)
    simpa [Link.subscribe, Function.update_of_ne hne] using h.fresh j hj
  unhandled j hj := by
    by_cases hne : j = i
    · subst hne
      simp [Link.subscribe] at hj
    · have hold := h.unhandled j (by simpa [Link.subscribe, Function.update_of_ne hne] using hj)
      rw [queues_subscribe, if_neg hne, (peer_subscribe l i).1]
      exact ⟨hold.1, fun heq => hne (Option.some.inj heq).symm⟩
  handled j k hk := by
    by_cases hne : j = i
    · subst hne
      have heq : l.sends.sent = k := by simpa [Link.subscribe] using hk
      exact Nat.le_of_eq heq.symm
    · exact h.handled j k (by simpa [Link.subscribe, Function.update_of_ne hne] using hk)
  latest hnone := by
    by_cases hne : l.opened = i
    · subst hne
      simp [Link.subscribe] at hnone
    · have hold := h.latest (by simpa [Link.subscribe, Function.update_of_ne hne] using hnone)
      simpa [Link.subscribe, Function.update_of_ne hne] using hold

/-- A step that changes nothing for the stream that the client reads, but that less may be owed. -/
theorem Delivers.of_le {l' : Link M} (h : Delivers startsOver l)
    (harriving : l'.arriving = l.arriving) (hsends : l'.sends = l.sends)
    (howed : ∀ n ∈ l'.owed startsOver, n ∈ l.owed startsOver)
    (hlive : l'.peer.controllers = some l'.opened → l.peer.controllers = some l.opened)
    (hback : (l'.requests l'.opened).handledAt = (l.requests l.opened).handledAt)
    (hkept : ∀ n ∈ l'.owed startsOver, n ∈ l.arriving ∨
      ∃ entry ∈ l'.peer.buffers, entry.serial = n) : Delivers startsOver l' where
  sorted := harriving ▸ h.sorted
  bound n hn := hsends ▸ h.bound n (harriving ▸ hn)
  hole n hn m hm hlt := harriving ▸ h.hole n (howed n hn) m (harriving ▸ hm) hlt
  live hl n hn := harriving ▸ h.live (hlive hl) n (howed n hn)
  back k hk n hn hlt := harriving ▸ h.back k (hback ▸ hk) n (howed n hn) hlt
  kept n hn := harriving ▸ hkept n hn

/-- A request of a stream that the client has left by now. -/
theorem delivers_subscribe_stale (h : Delivers startsOver l) {i : Nat} (hi : i ≠ l.opened) :
    Delivers startsOver (l.subscribe i) := by
  obtain ⟨f, hbuffers, hf⟩ := buffers_subscribe l i
  refine h.of_le ?_ rfl (fun _ hn => hn) (fun hlive => ?_) ?_ fun n hn => ?_
  · change (l.received ++ (l.subscribe i).peer.queues l.opened).map Frame.serial = _
    rw [queues_subscribe, if_neg (Ne.symm hi), Link.arriving]
  · rw [(peer_subscribe l i).1] at hlive
    exact absurd (Option.some.inj hlive) hi
  · simp [Link.subscribe, Function.update_of_ne (Ne.symm hi)]
  · refine (h.kept n hn).imp id fun ⟨entry, hentry, hserial⟩ => ⟨f entry, ?_, ?_⟩
    · rw [hbuffers]
      exact List.mem_map_of_mem hentry
    · rw [Entry.serial, (hf entry).2]
      exact hserial

theorem arriving_subscribe (h : Requested l)
    (hnone : (l.requests l.opened).handledAt = none) :
    (l.subscribe l.opened).arriving =
      l.received.map Frame.serial ++ (l.replayed l.opened).map Frame.serial := by
  change (l.received ++ (l.subscribe l.opened).peer.queues l.opened).map Frame.serial = _
  rw [queues_subscribe, if_pos rfl, (h.unhandled _ hnone).1, List.nil_append, List.map_append]

/-- What the client comes back for is later than what it has received. -/
theorem received_lt_replayed (h : Inv startsOver replayBufferSize l)
    (hnone : (l.requests l.opened).handledAt = none) {frame later : Frame (Sent M)}
    (hframe : frame ∈ l.received) (hlater : later ∈ l.replayed l.opened) :
    frame.serial < later.serial := by
  obtain ⟨entry, hentry, rfl, lastId, hlast, hid⟩ := mem_replayed.1 hlater
  rw [h.requested.latest hnone] at hlast
  obtain ⟨last, hgetLast, rfl⟩ := Option.map_eq_some_iff.1 hlast
  obtain ⟨front, hfront⟩ := List.getLast?_eq_some_iff.1 hgetLast
  have hle : frame.serial ≤ last.serial := by
    have hsorted : (l.received.map Frame.serial).Pairwise (· < ·) := by
      have := h.delivers.sorted
      rw [Link.arriving, List.map_append] at this
      exact (List.pairwise_append.1 this).1
    rw [hfront, List.map_append] at hsorted
    rw [hfront] at hframe
    rcases List.mem_append.1 hframe with hold | hself
    · exact Nat.le_of_lt ((List.pairwise_append.1 hsorted).2.2 _ (List.mem_map_of_mem hold) _
        (by simp))
    · rw [List.mem_singleton.1 hself]
  have hnumber := h.numbered.frames last (List.mem_append_left _ (List.mem_of_getLast? hgetLast))
  obtain ⟨hpos, -, hcount, -⟩ := h.numbered.entries entry hentry
  have hentrySerial : entry.serial = entry.encoded.serial := rfl
  omega

theorem delivers_subscribe (h : Inv startsOver replayBufferSize l)
    (hnone : (l.requests l.opened).handledAt = none)
    (hg : KeepsOwed startsOver replayBufferSize l (.subscribe l.opened)) :
    Delivers startsOver (l.subscribe l.opened) := by
  have harriving := arriving_subscribe h.requested hnone
  have hold : l.arriving = l.received.map Frame.serial := by
    rw [Link.arriving, (h.requested.unhandled _ hnone).1, List.append_nil]
  -- everything that is owed is on its way
  have hall : ∀ n ∈ l.owed startsOver, n ∈ (l.subscribe l.opened).arriving := by
    intro n hn
    rw [harriving]
    by_cases harrives : n ∈ l.arriving
    · exact List.mem_append_left _ (hold ▸ harrives)
    · obtain ⟨entry, hentry, rfl⟩ := (h.delivers.kept n hn).resolve_left harrives
      have hid := hg rfl entry hentry ⟨hn, harrives⟩
      exact List.mem_append_right _
        (List.mem_map_of_mem (mem_replayed.2 ⟨entry, hentry, rfl, hid⟩))
  refine ⟨?_, fun n hn => ?_, fun n hn _ _ _ => hall n hn, fun _ => hall,
    fun _ _ n hn _ => hall n hn, fun n hn => .inl (hall n hn)⟩
  · rw [harriving]
    refine List.pairwise_append.2 ⟨hold ▸ h.delivers.sorted, ?_, fun a ha b hb => ?_⟩
    · unfold Link.replayed
      cases (l.requests l.opened).lastEventId with
      | none => exact .nil
      | some lastId =>
          rw [List.map_map, List.pairwise_map]
          exact h.numbered.ordered.filter _
    · obtain ⟨frame, hframe, rfl⟩ := List.mem_map.1 ha
      obtain ⟨later, hlater, rfl⟩ := List.mem_map.1 hb
      exact received_lt_replayed h hnone hframe hlater
  · change n < l.sends.sent
    rw [harriving] at hn
    rcases List.mem_append.1 hn with hreceived | hreplayed
    · exact h.delivers.bound n (hold ▸ hreceived)
    · obtain ⟨frame, hframe, rfl⟩ := List.mem_map.1 hreplayed
      obtain ⟨entry, hentry, rfl, -⟩ := mem_replayed.1 hframe
      exact (h.numbered.entries entry hentry).2.2.2

theorem inv_subscribe (h : Inv startsOver replayBufferSize l) {i : Nat} (hi : i ≤ l.opened)
    (hnone : (l.requests i).handledAt = none)
    (hg : KeepsOwed startsOver replayBufferSize l (.subscribe i)) :
    Inv startsOver replayBufferSize (l.subscribe i) := by
  refine ⟨numbered_subscribe h.numbered i, requested_subscribe h.requested hi, ?_⟩
  by_cases hstale : i = l.opened
  · subst hstale
    exact delivers_subscribe h hnone hg
  · exact delivers_subscribe_stale h.delivers hstale

/-! ## The other events -/

theorem arriving_arrive {frame : Frame (Sent M)} {rest : List (Frame (Sent M))}
    (hqueue : l.peer.queues l.opened = frame :: rest) :
    (l.arrive frame rest).received ++ (l.arrive frame rest).peer.queues l.opened =
      l.received ++ l.peer.queues l.opened := by
  simp [Link.arrive, hqueue]

theorem inv_arrive (h : Inv startsOver replayBufferSize l) {frame : Frame (Sent M)}
    {rest : List (Frame (Sent M))} (hqueue : l.peer.queues l.opened = frame :: rest) :
    Inv startsOver replayBufferSize (l.arrive frame rest) := by
  have harriving := arriving_arrive hqueue
  have hhandled : (l.requests l.opened).handledAt ≠ none := fun hnone => by
    rw [(h.requested.unhandled _ hnone).1] at hqueue
    cases hqueue
  have howed : ∀ n ∈ (l.arrive frame rest).owed startsOver, n ∈ l.owed startsOver := by
    intro n hn
    have hmem : n ∈ l.sends.owed startsOver (l.received.map Frame.data ++ [frame.data]) := by
      simpa [Link.owed, Link.arrive] using hn
    exact Sends.mem_owed_of_append hmem
  refine ⟨⟨h.numbered.ready, h.numbered.counted, h.numbered.entries, h.numbered.ordered,
    fun f hf => h.numbered.frames f (harriving ▸ hf), h.numbered.short⟩,
    ⟨h.requested.fresh, fun i hi => ?_, h.requested.handled, fun hnone => absurd hnone hhandled⟩,
    h.delivers.of_le (congrArg (List.map Frame.serial) harriving) rfl howed id rfl
      fun n hn => h.delivers.kept n (howed n hn)⟩
  have hne : i ≠ l.opened := by
    rintro rfl
    exact hhandled hi
  simpa [Link.arrive, Function.update_of_ne hne] using h.requested.unhandled i hi

theorem inv_handleDisconnect (h : Inv startsOver replayBufferSize l) :
    Inv startsOver replayBufferSize { l with peer := l.peer.handleDisconnect } where
  numbered := ⟨h.numbered.ready, h.numbered.counted, h.numbered.entries, h.numbered.ordered,
    h.numbered.frames, h.numbered.short⟩
  requested := ⟨h.requested.fresh,
    fun i hi => ⟨(h.requested.unhandled i hi).1, by simp [Peer.handleDisconnect]⟩,
    h.requested.handled, h.requested.latest⟩
  delivers := h.delivers.of_le rfl rfl (fun _ hn => hn)
    (fun hlive => by simp [Peer.handleDisconnect] at hlive) rfl h.delivers.kept

theorem inv_disconnect (h : Inv startsOver replayBufferSize l)
    (hg : KeepsOwed startsOver replayBufferSize l .disconnect) :
    Inv startsOver replayBufferSize { l with peer := l.peer.disconnect } where
  numbered := by
    refine ⟨h.numbered.ready, Nat.zero_le _, fun entry hentry => absurd hentry List.not_mem_nil,
      .nil, fun frame hframe => .inl ?_, Nat.zero_le _⟩
    exact h.delivers.bound _ (List.mem_map_of_mem hframe)
  requested := ⟨h.requested.fresh,
    fun i hi => ⟨(h.requested.unhandled i hi).1, by simp [Peer.disconnect]⟩,
    h.requested.handled, h.requested.latest⟩
  delivers := by
    refine h.delivers.of_le rfl rfl (fun _ hn => hn)
      (fun hlive => by simp [Peer.disconnect] at hlive) rfl fun n hn => ?_
    by_cases harrives : n ∈ l.arriving
    · exact .inl harrives
    · obtain ⟨entry, hentry, rfl⟩ := (h.delivers.kept n hn).resolve_left harrives
      exact absurd ⟨hn, harrives⟩ (hg entry hentry)

/-! ## Runs -/

variable {l' : Link M} {e : LinkEvent M}

theorem inv_step (h : Inv startsOver replayBufferSize l)
    (hg : KeepsOwed startsOver replayBufferSize l e)
    (hs : l.step replayBufferSize clientId e = some l') : Inv startsOver replayBufferSize l' := by
  cases e with
  | send thrown message =>
      cases hs
      exact inv_send h hg
  | request =>
      cases hs
      exact inv_request h hg
  | subscribe i =>
      rw [Link.step] at hs
      split at hs
      · rename_i hi
        cases hs
        exact inv_subscribe h hi.2.1 hi.2.2 hg
      · cases hs
  | arrive =>
      cases hqueue : l.peer.queues l.opened with
      | nil => simp [Link.step, hqueue] at hs
      | cons frame rest =>
          simp only [Link.step, hqueue, Option.some.injEq] at hs
          exact hs ▸ inv_arrive h hqueue
  | handleDisconnect =>
      cases hs
      exact inv_handleDisconnect h
  | disconnect =>
      cases hs
      exact inv_disconnect h hg

/-- An entry that a send drops is not among those that are left. -/
theorem serial_ne_of_dropped (h : Numbered replayBufferSize l) {entry left : Entry (Sent M)}
    (hentry : entry ∈ l.peer.buffers.take (l.peer.buffers.length + 1 - replayBufferSize))
    (hleft : left ∈ (l.send replayBufferSize clientId thrown message).peer.buffers) :
    left.serial ≠ entry.serial := by
  rw [peer_send h.ready] at hleft
  have hordered : (l.peer.buffers ++ [l.peer.entry thrown ⟨l.sends.sent, message⟩]).Pairwise
      fun a b => a.serial < b.serial := by
    refine List.pairwise_append.2 ⟨h.ordered, List.pairwise_singleton _ _, fun a ha b hb => ?_⟩
    rw [List.mem_singleton.1 hb]
    exact (h.entries a ha).2.2.2
  rw [← List.take_append_drop (l.peer.buffers.length + 1 - replayBufferSize)
    (l.peer.buffers ++ _)] at hordered
  have htake : entry ∈ (l.peer.buffers ++ [l.peer.entry thrown ⟨l.sends.sent, message⟩]).take
      (l.peer.buffers.length + 1 - replayBufferSize) := by
    rw [List.take_append]
    exact List.mem_append_left _ hentry
  exact Nat.ne_of_gt ((List.pairwise_append.1 hordered).2.2 entry htake left hleft)

theorem sendKeeps_of_kept (h : Inv startsOver replayBufferSize l)
    (hkept : ∀ n ∈ (l.send replayBufferSize clientId thrown message).owed startsOver,
      n ∈ (l.send replayBufferSize clientId thrown message).arriving ∨
        ∃ entry ∈ (l.send replayBufferSize clientId thrown message).peer.buffers,
          entry.serial = n) : l.SendKeeps startsOver replayBufferSize thrown := by
  have hready := h.numbered.ready
  have harriving := arriving_send hready replayBufferSize clientId thrown message
  refine ⟨fun entry hentry hwaits => ?_, fun hzero hthrown i hi => ?_⟩
  · rcases hkept _ ((mem_owed_send h).2 (.inl hwaits.1)) with harrives | ⟨left, hleft, heq⟩
    · have hlt := (h.numbered.entries entry (List.mem_of_mem_take hentry)).2.2.2
      rw [harriving] at harrives
      split at harrives
      · rcases List.mem_append.1 harrives with hold | hnew
        · exact hwaits.2 hold
        · exact Nat.ne_of_lt hlt (List.mem_singleton.1 hnew)
      · exact hwaits.2 harrives
    · exact serial_ne_of_dropped h.numbered hentry hleft heq
  · -- the message resolves and is not buffered, so it arrives
    have htaker : l.peer.taker thrown = some i := Peer.taker_eq_some.2 ⟨hthrown, hi⟩
    have hempty : l.peer.buffers = [] :=
      List.eq_nil_of_length_eq_zero (Nat.le_zero.1 (hzero ▸ h.numbered.short))
    have herror : l.error replayBufferSize clientId thrown message = none := by
      refine (Peer.send_eq hready replayBufferSize clientId thrown _).2.2 ⟨htaker.trans hi.symm, ?_⟩
      rw [evict_eq, hzero, hempty]
      simp [Peer.entry, htaker]
    have howed := (mem_owed_send h).2 (.inr ⟨rfl, herror⟩)
    rcases hkept _ howed with harrives | ⟨left, hleft, -⟩
    · rw [harriving] at harrives
      split at harrives
      · rename_i hlive
        exact Option.some.inj (htaker.symm.trans hlive)
      · exact absurd (h.delivers.bound _ harrives) (Nat.lt_irrefl _)
    · rw [peer_send hready, hempty, hzero] at hleft
      simp at hleft

theorem keepsOwed_of_contract (h : Inv startsOver replayBufferSize l)
    (hs : l.step replayBufferSize clientId e = some l') (hc : Contract startsOver l') :
    KeepsOwed startsOver replayBufferSize l e := by
  cases e with
  | send thrown message =>
      cases hs
      exact sendKeeps_of_kept h hc.kept
  | request =>
      cases hs
      intro frame hframe howed
      have hkept := hc.kept frame.serial howed
      rw [arriving_request h.requested] at hkept
      refine hkept.resolve_left fun hreceived => ?_
      have hsorted := h.delivers.sorted
      rw [Link.arriving, List.map_append] at hsorted
      exact Nat.lt_irrefl _
        ((List.pairwise_append.1 hsorted).2.2 _ hreceived _ (List.mem_map_of_mem hframe))
  | subscribe i =>
      rw [Link.step] at hs
      split at hs
      · rename_i hi
        cases hs
        rintro rfl entry hentry ⟨howed, hwaits⟩
        have hback := hc.back l.sends.sent (by simp [Link.subscribe]) entry.serial howed
          (Sends.lt_of_mem_owed howed)
        rw [arriving_subscribe h.requested hi.2.2] at hback
        rcases List.mem_append.1 hback with hreceived | hreplayed
        · exact absurd (mem_arriving.2 (.inl hreceived)) hwaits
        · obtain ⟨frame, hframe, hserial⟩ := List.mem_map.1 hreplayed
          obtain ⟨other, hother, rfl, lastId, hlast, hid⟩ := mem_replayed.1 hframe
          have hsame := (h.numbered.entries entry hentry).2.2.1
          have hsame' := (h.numbered.entries other hother).2.2.1
          have hserial' : other.serial = entry.serial := hserial
          exact ⟨lastId, hlast, by omega⟩
      · cases hs
  | arrive => trivial
  | handleDisconnect => trivial
  | disconnect =>
      cases hs
      intro entry _ hwaits
      rcases hc.kept entry.serial hwaits.1 with harrives | ⟨left, hleft, -⟩
      · exact hwaits.2 harrives
      · exact absurd hleft List.not_mem_nil

theorem inv_of_reach (h : (linkMachine M replayBufferSize clientId).Reach
    (KeepsOwed startsOver replayBufferSize) l) : Inv startsOver replayBufferSize l :=
  h.invariant (P := Inv startsOver replayBufferSize) inv_start fun hi hg hs => inv_step hi hg hs

theorem contract_iff_step (h : (linkMachine M replayBufferSize clientId).Reach
    (KeepsOwed startsOver replayBufferSize) l)
    (hs : (linkMachine M replayBufferSize clientId).step l e = some l') :
    Contract startsOver l' ↔ KeepsOwed startsOver replayBufferSize l e :=
  ⟨keepsOwed_of_contract (inv_of_reach h) hs,
    fun hg => (inv_step (inv_of_reach h) hg hs).contract⟩

end Sse
end Transport
end Reflectdb
