import Reflectdb.Lib.Chains
import Reflectdb.Server.Sessions

/-!
# Message queue — the messages of one client, one after the other

Each valid message is chained to the last one of its client, and a depth counts those that are not
done.  A disconnect, an eviction and the end of an overflow delete both entries, and the chain that
was built from them goes on: under the same id the next message starts a chain of its own.
-/

namespace Reflectdb
namespace Server
namespace MessageQueue

open Lib

def MAX_QUEUE_DEPTH : Int := 100

/-- A message that finds too many queued: once those in flight are done, the client is put out. -/
structure Overflow where
  clientId : String
  inflight : Option Nat
  open_ : Bool

/-- A chained message carries how often its client's session had ended when it came. -/
structure Queues where
  connections : Connections
  messageQueues : Chains String Nat
  messageQueueDepths : String → Option Int
  overflows : List Overflow
  ended : String → Nat

inductive QueueEvent
  | connection (e : ConnectionEvent)
  /-- A valid message arrives. -/
  | message (clientId : String)
  | start (i : Nat)
  | finish (i : Nat)
  /-- The end of the `i`th overflow, after the client has been told and disconnected. -/
  | overflowed (i : Nat)

namespace Queues

def depth (s : Queues) (clientId : String) : Int :=
  (s.messageQueueDepths clientId).getD 0

/-- The session has ended: its queue and its depth are deleted. -/
def deleteQueue (s : Queues) (clientId : String) : Queues :=
  { s with
    messageQueues := s.messageQueues.forget clientId
    messageQueueDepths := Function.update s.messageQueueDepths clientId none
    ended := Function.update s.ended clientId (s.ended clientId + 1) }

/-- The client whose session a connection event ends. -/
def endedBy (s : Queues) : ConnectionEvent → Option String
  | .disconnect clientId => some clientId
  | .evict i => s.connections.calls[i]?.bind fun call =>
    match call.phase with
    | .evicting victim => some victim
    | _ => none
  | _ => none

def onMessage (s : Queues) (clientId : String) : Queues :=
  if MAX_QUEUE_DEPTH ≤ s.depth clientId then
    { s with overflows := s.overflows ++ [⟨clientId, s.messageQueues.tails clientId, true⟩] }
  else
    { s with
      messageQueueDepths :=
        Function.update s.messageQueueDepths clientId (some (s.depth clientId + 1))
      messageQueues := s.messageQueues.push clientId (s.ended clientId) }

/-- The `.finally` of a message: the depth goes down if there still is one. -/
def lower (s : Queues) (clientId : String) : Queues :=
  { s with
    messageQueueDepths :=
      Function.update s.messageQueueDepths clientId
        ((s.messageQueueDepths clientId).map (· - 1)) }

def closeOverflow (s : Queues) (i : Nat) (o : Overflow) : Queues :=
  { s with
    connections := { s.connections with manager := s.connections.manager.disconnect o.clientId }
    overflows := s.overflows.set i { o with open_ := false } }

def step (maxConnections : Nat) (s : Queues) : QueueEvent → Option Queues
  | .connection e => (s.connections.step maxConnections e).map fun connections =>
    let s' := { s with connections }
    (s.endedBy e).elim s' s'.deleteQueue
  | .message clientId => some (s.onMessage clientId)
  | .start i => (s.messageQueues.start i).map fun messageQueues => { s with messageQueues }
  | .finish i => s.messageQueues.jobs[i]?.bind fun job =>
    (s.messageQueues.finish i).map fun messageQueues =>
      { s with messageQueues }.lower job.key
  | .overflowed i => s.overflows[i]?.bind fun o =>
    if o.open_ = true ∧ s.messageQueues.settled o.inflight = true then
      some ((s.closeOverflow i o).deleteQueue o.clientId)
    else none

end Queues

def queueMachine (maxConnections : Nat) : Machine Queues QueueEvent where
  init :=
    { connections := ⟨.empty, []⟩
      messageQueues := .empty
      messageQueueDepths := fun _ => none
      overflows := []
      ended := fun _ => 0 }
  step := Queues.step maxConnections

/-! ## One message after the other -/

structure InTurn (s : Queues) : Prop where
  /-- No two messages of a client are handled at the same time. -/
  exclusive : ∀ (i j : Nat) (a b : Job String Nat), i ≠ j → s.messageQueues.jobs[i]? = some a →
    s.messageQueues.jobs[j]? = some b → a.key = b.key →
      ¬ (a.phase = .running ∧ b.phase = .running)
  /-- They are handled in the order in which they came. -/
  order : s.messageQueues.InOrder
  /-- The depth counts the messages that are not done. -/
  depth : ∀ clientId, s.depth clientId = s.messageQueues.pending clientId
  /-- A message that came before a session ended meets no session that began after it. -/
  session : ∀ job ∈ s.messageQueues.jobs, job.phase = .running → job.data ≠ s.ended job.key →
    s.connections.manager.sessions job.key = none

/-- The client whose queue an event deletes. -/
def Queues.deletes (s : Queues) : QueueEvent → Option String
  | .connection e => s.endedBy e
  | .overflowed i => s.overflows[i]?.map Overflow.clientId
  | _ => none

/-- A queue is deleted only when all of its messages are done. -/
def DeletesIdle (s : Queues) (e : QueueEvent) : Prop :=
  ∀ clientId, s.deletes e = some clientId → s.messageQueues.Idle clientId

/-! ## What the steps keep -/

structure Inv (s : Queues) : Prop where
  linked : s.messageQueues.Linked
  depth : ∀ clientId, s.depth clientId = s.messageQueues.pending clientId
  /-- A depth that has been deleted counts nothing. -/
  known : ∀ clientId, s.messageQueueDepths clientId = none →
    s.messageQueues.pending clientId = 0
  current : ∀ job ∈ s.messageQueues.jobs, job.phase ≠ .done → job.data = s.ended job.key

variable {s s' : Queues} {clientId : String}

theorem Inv.inTurn (h : Inv s) : InTurn s where
  exclusive _ _ _ _ hij ha hb hkey := h.linked.order.exclusive hij ha hb hkey
  order := h.linked.order
  depth := h.depth
  session job hjob hrunning hdata := absurd (h.current job hjob (by simp [hrunning])) hdata

theorem depth_update (m : String → Option Int) (c k : String) (d : Option Int) :
    (Function.update m c d k).getD 0 = if k = c then d.getD 0 else (m k).getD 0 := by
  by_cases hk : k = c
  · subst hk
    simp
  · simp [hk]

theorem inv_deleteQueue (h : Inv s) (hidle : s.messageQueues.Idle clientId) :
    Inv (s.deleteQueue clientId) where
  linked := Chains.linked_forget h.linked hidle
  depth k := by
    have hk := h.depth k
    change (Function.update s.messageQueueDepths clientId none k).getD 0 = _
    rw [depth_update]
    split
    · rename_i heq
      subst heq
      have hzero := Chains.pending_eq_zero_iff.2 hidle
      simp [Queues.deleteQueue, Chains.pending_forget, hzero]
    · exact hk
  known k hk := by
    change s.messageQueues.pending k = 0
    by_cases heq : k = clientId
    · exact heq ▸ Chains.pending_eq_zero_iff.2 hidle
    · exact h.known k (by simpa [Queues.deleteQueue, Function.update_of_ne heq] using hk)
  current job hjob hdone := by
    have hne : job.key ≠ clientId := fun heq => hdone (hidle job hjob heq)
    simpa [Queues.deleteQueue, Function.update_of_ne hne] using h.current job hjob hdone

theorem inv_onMessage (h : Inv s) (clientId : String) : Inv (s.onMessage clientId) := by
  unfold Queues.onMessage
  split
  · exact ⟨h.linked, h.depth, h.known, h.current⟩
  · refine ⟨Chains.linked_push h.linked _ _, fun k => ?_, fun k hk => ?_, fun job hjob hdone => ?_⟩
    · have hk := h.depth k
      change (Function.update s.messageQueueDepths clientId _ k).getD 0 = _
      rw [depth_update, Chains.pending_push]
      split
      · rename_i heq
        subst heq
        rw [Option.getD_some, hk]
        omega
      · exact hk
    · have hne : k ≠ clientId := by
        rintro rfl
        simp at hk
      rw [Chains.pending_push, if_neg hne]
      exact h.known k (by simpa [Function.update_of_ne hne] using hk)
    · rcases List.mem_append.1 hjob with hold | hnew
      · exact h.current job hold hdone
      · rw [List.mem_singleton.1 hnew]

/-- What a change of phase leaves of a client's other messages. -/
theorem mem_setPhase {q : Chains String Nat} {i : Nat} {job a : Job String Nat} {p : JobPhase}
    (hi : q.jobs[i]? = some job) (ha : a ∈ (q.setPhase i job p).jobs) :
    ∃ b ∈ q.jobs, b.key = a.key ∧ b.data = a.data ∧ (a.phase ≠ .done → job.phase ≠ .done →
      b.phase ≠ .done) := by
  obtain ⟨j, hj⟩ := List.mem_iff_getElem?.1 ha
  obtain ⟨b, hb, hkey, -, hdata, hne, heq⟩ := Chains.exists_getElem?_setPhase hi hj
  refine ⟨b, List.mem_of_getElem? hb, hkey, hdata, fun ha hjob => ?_⟩
  by_cases hij : j = i
  · exact heq hij ▸ hjob
  · exact hne hij ▸ ha

theorem inv_start (h : Inv s) {i : Nat} {q : Chains String Nat}
    (hq : s.messageQueues.start i = some q) : Inv { s with messageQueues := q } := by
  have hlinked := Chains.linked_start h.linked hq
  obtain ⟨job, hi, hwaiting, -, rfl⟩ := Chains.start_eq_some hq
  have hjob : job.phase ≠ .done := by simp [hwaiting]
  have hpending : ∀ k, (s.messageQueues.setPhase i job .running).pending k =
      s.messageQueues.pending k := by
    intro k
    simpa using Chains.pending_setPhase hi hjob .running k
  refine ⟨hlinked, fun k => ?_, fun k hk => ?_, fun a ha hdone => ?_⟩
  · rw [hpending]
    exact h.depth k
  · rw [hpending]
    exact h.known k hk
  · obtain ⟨b, hb, hkey, hdata, hphase⟩ := mem_setPhase hi ha
    rw [← hkey, ← hdata]
    exact h.current b hb (hphase hdone hjob)

theorem inv_finish (h : Inv s) {i : Nat} {job : Job String Nat} {q : Chains String Nat}
    (hi : s.messageQueues.jobs[i]? = some job) (hq : s.messageQueues.finish i = some q) :
    Inv ({ s with messageQueues := q }.lower job.key) := by
  have hlinked := Chains.linked_finish h.linked hq
  obtain ⟨job', hi', hrunning, rfl⟩ := Chains.finish_eq_some hq
  cases hi.symm.trans hi'
  have hjob : job.phase ≠ .done := by simp [hrunning]
  have hpending := Chains.pending_setPhase hi hjob .done
  -- the message counts until now, so its depth has not been deleted
  have hself : s.messageQueueDepths job.key ≠ none := by
    intro hnone
    have hzero := h.known job.key hnone
    have := hpending job.key
    rw [if_pos ⟨rfl, rfl⟩] at this
    omega
  refine ⟨hlinked, fun k => ?_, fun k hk => ?_, fun a ha hdone => ?_⟩
  · have hk := h.depth k
    have hcount := hpending k
    change (Function.update s.messageQueueDepths job.key _ k).getD 0 =
      ((s.messageQueues.setPhase i job .done).pending k : Int)
    rw [depth_update]
    split
    · rename_i heq
      subst heq
      obtain ⟨d, hd⟩ := Option.ne_none_iff_exists'.1 hself
      rw [if_pos ⟨rfl, rfl⟩] at hcount
      have hdepth : d = s.messageQueues.pending job.key := by
        rw [← hk, Queues.depth, hd, Option.getD_some]
      rw [hd, Option.map_some, Option.getD_some]
      omega
    · rename_i hne
      rw [if_neg (fun hboth => hne hboth.1.symm), Nat.add_zero] at hcount
      rw [hcount]
      exact hk
  · have hcount := hpending k
    have hne : k ≠ job.key := by
      rintro rfl
      simp only [Queues.lower, Function.update_self, Option.map_eq_none_iff] at hk
      exact hself hk
    rw [if_neg (fun hboth => hne hboth.1.symm)] at hcount
    rw [Queues.lower] at hk ⊢
    simp only [Function.update_of_ne hne] at hk
    exact hcount.trans (h.known k hk)
  · obtain ⟨b, hb, hkey, hdata, hphase⟩ := mem_setPhase hi ha
    change a.data = s.ended a.key
    rw [← hkey, ← hdata]
    exact h.current b hb (hphase hdone hjob)

/-! ## Runs -/

variable {maxConnections : Nat} {e : QueueEvent}

/-- A step keeps what is kept wherever it deletes the queue of an idle client, if any. -/
theorem inv_step (h : Inv s) (hg : DeletesIdle s e) (hs : s.step maxConnections e = some s') :
    Inv s' := by
  cases e with
  | connection e =>
      obtain ⟨connections, -, rfl⟩ := Option.map_eq_some_iff.1 hs
      have hconnections : Inv { s with connections } := ⟨h.linked, h.depth, h.known, h.current⟩
      cases hended : s.endedBy e with
      | none => exact hconnections
      | some clientId => exact inv_deleteQueue hconnections (hg clientId hended)
  | message clientId =>
      cases hs
      exact inv_onMessage h clientId
  | start i =>
      obtain ⟨q, hq, rfl⟩ := Option.map_eq_some_iff.1 hs
      exact inv_start h hq
  | finish i =>
      obtain ⟨job, hi, hs⟩ := Option.bind_eq_some_iff.1 hs
      obtain ⟨q, hq, rfl⟩ := Option.map_eq_some_iff.1 hs
      exact inv_finish h hi hq
  | overflowed i =>
      obtain ⟨o, ho, hs⟩ := Option.bind_eq_some_iff.1 hs
      split at hs
      · cases hs
        have hclosed : Inv (s.closeOverflow i o) := ⟨h.linked, h.depth, h.known, h.current⟩
        exact inv_deleteQueue hclosed (hg o.clientId (by simp [Queues.deletes, ho]))
      · cases hs

theorem inv_of_reach (h : (queueMachine maxConnections).Reach DeletesIdle s) : Inv s := by
  have hstart : Inv (queueMachine maxConnections).init := by
    refine ⟨Chains.linked_empty, fun k => rfl, fun k _ => rfl, fun job hjob => ?_⟩
    exact absurd hjob List.not_mem_nil
  exact h.invariant (P := Inv) hstart fun hi hg hs => inv_step hi hg hs

/-- Where a queue has been deleted, its depth counts its messages only if none is left. -/
theorem idle_of_depth_deleteQueue
    (h : ∀ k, (s.deleteQueue clientId).depth k = (s.deleteQueue clientId).messageQueues.pending k) :
    s.messageQueues.Idle clientId := by
  have hzero : (s.deleteQueue clientId).depth clientId = 0 := by
    simp [Queues.depth, Queues.deleteQueue]
  have hpending := h clientId
  rw [hzero] at hpending
  exact Chains.pending_eq_zero_iff.1 (by exact_mod_cast hpending.symm)

theorem deletesIdle_of_depth (hs : s.step maxConnections e = some s')
    (h : ∀ k, s'.depth k = s'.messageQueues.pending k) : DeletesIdle s e := by
  intro clientId hdeletes
  cases e with
  | connection e =>
      obtain ⟨connections, -, rfl⟩ := Option.map_eq_some_iff.1 hs
      have hended : s.endedBy e = some clientId := hdeletes
      rw [hended] at h
      exact @idle_of_depth_deleteQueue { s with connections } clientId h
  | overflowed i =>
      obtain ⟨o, ho, hs⟩ := Option.bind_eq_some_iff.1 hs
      split at hs
      · cases hs
        have hclient : o.clientId = clientId := by simpa [Queues.deletes, ho] using hdeletes
        subst hclient
        exact @idle_of_depth_deleteQueue (s.closeOverflow i o) o.clientId h
      · cases hs
  | message _ => cases hdeletes
  | start _ => cases hdeletes
  | finish _ => cases hdeletes

/-- A client that is put out while its message is handled, and comes back with another one. -/
def reconnect : List QueueEvent :=
  [.connection (.connect "a" 0), .message "a", .start 0, .connection (.disconnect "a"),
    .connection (.connect "a" 1), .message "a", .start 1]

end MessageQueue
end Server
end Reflectdb
