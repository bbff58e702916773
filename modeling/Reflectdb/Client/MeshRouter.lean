import Reflectdb.Core.Types
import Reflectdb.Lib.Machine
import Reflectdb.Lib.Text

/-!
# Mesh router — ephemeral frames over peer channels and over the server

Each frame is numbered and goes to the peers that can take it.  Its copy for the server is sent at
once, or waits under its key for a timer while every known peer is connected.  A receiver drops what
is not newer than the last frame that it has delivered for the client and the key.
-/

namespace Reflectdb
namespace Client
namespace MeshRouter

open Core Lib

/-! ## Frames -/

def EPHEMERAL_SEQ_FIELD : String := "__seq"

structure SendParams where
  key : Text
  data : Record Json
  ttlMs : Option Int

/-- A frame with its number, as it is sent to peers and to the server. -/
structure Frame where
  params : SendParams
  seq : Int

namespace Frame

def key (f : Frame) : Text :=
  f.params.key

/-- `{ ...params.data, __seq: seq }`. -/
def data (f : Frame) : Record Json :=
  f.params.data.insert EPHEMERAL_SEQ_FIELD (.num f.seq)

end Frame

/-! ## The router -/

/-- A known peer: whether it is connected, and whether its channel is open and has room. -/
structure Link where
  connected : Bool
  ready : Bool

/-- The router in auto mode, with what it was given and what it has passed on. -/
structure Router where
  seq : Int
  links : List Link
  lastServerSend : AList fun _ : Text => Int
  /-- The frames that wait for a timer. -/
  trailing : AList fun _ : Text => Frame
  sent : List Frame
  server : List Frame
  peers : List Frame

def Router.start : Router :=
  ⟨0, [], ∅, ∅, [], [], []⟩

namespace Router

variable (s : Router)

def everyoneDirect : Bool :=
  s.links.all (·.connected) && !s.links.isEmpty

/-- The copy for the server goes out. -/
def viaServer (f : Frame) (now : Int) : Router :=
  { s with
    trailing := s.trailing.erase f.key
    lastServerSend := s.lastServerSend.insert f.key now
    server := s.server ++ [f] }

/-- The clock is read for the number and again for the throttle. -/
def send (serverIntervalMs : Int) (params : SendParams) (stampedAt now : Int) : Router :=
  let f : Frame := ⟨params, max (s.seq + 1) stampedAt⟩
  let s' : Router :=
    { s with
      seq := f.seq
      sent := s.sent ++ [f]
      peers := s.peers ++ (s.links.filter fun l => l.connected && l.ready).map fun _ => f }
  if ¬ s'.everyoneDirect then s'.viaServer f now
  else
    let last := (s'.lastServerSend.lookup f.key).getD 0
    match s'.trailing.lookup f.key with
    | none =>
      if serverIntervalMs ≤ now - last then s'.viaServer f now
      else { s' with trailing := s'.trailing.insert f.key f }
    | some _ => { s' with trailing := s'.trailing.insert f.key f }

end Router

inductive RouterEvent
  | send (params : SendParams) (stampedAt now : Int)
  /-- The timer of a key. -/
  | fire (key : Text) (now : Int)
  /-- Peers come and go, channels open and close. -/
  | links (links : List Link)

def routerMachine (serverIntervalMs : Int) : Machine Router RouterEvent where
  init := .start
  step s
    | .send params stampedAt now => some (s.send serverIntervalMs params stampedAt now)
    | .fire key now => (s.trailing.lookup key).map fun f => s.viaServer f now
    | .links links => some { s with links := links }

/-! ## The receiver -/

structure Ephemeral where
  clientId : Text
  key : Text
  data : Record Json
  ttlMs : Option Int

namespace Ephemeral

/-- The number, if there is one. -/
def seq (e : Ephemeral) : Option Int :=
  match e.data.lookup EPHEMERAL_SEQ_FIELD with
  | some (.num n) => some n
  | _ => none

/-- What the listeners are given. -/
def stripped (e : Ephemeral) : Ephemeral :=
  match e.seq with
  | some _ => { e with data := e.data.erase EPHEMERAL_SEQ_FIELD }
  | none => e

end Ephemeral

/-- A copy of a frame of this client, as it comes from a peer or from the server. -/
def Frame.event (clientId : Text) (f : Frame) : Ephemeral :=
  ⟨clientId, f.key, f.data, f.params.ttlMs⟩

@[simp]
theorem Frame.seq_event (clientId : Text) (f : Frame) : (f.event clientId).seq = some f.seq := by
  rw [Ephemeral.seq, Frame.event, Frame.data, AList.lookup_insert]

def slotOf (clientId key : Text) : Text :=
  clientId ++ 0 :: key

def Ephemeral.slot (e : Ephemeral) : Text :=
  slotOf e.clientId e.key

def MAX_SEEN_SLOTS : Nat := 10000

/-- The highest number delivered of each slot, in the order of the last deliveries, and what was
delivered. -/
structure Receiver where
  seen : List (Text × Int)
  delivered : List Ephemeral

namespace Receiver

variable (m : Receiver)

def lastSeen (slot : Text) : Option Int :=
  (m.seen.find? (·.1 = slot)).map (·.2)

/-- The slot that makes room for this frame. -/
def dropped (e : Ephemeral) : Option Text :=
  match e.seq with
  | none => none
  | some seq =>
    if (m.lastSeen e.slot).any (seq ≤ ·) then none
    else if MAX_SEEN_SLOTS ≤ m.seen.length ∧ m.lastSeen e.slot = none then m.seen.head?.map (·.1)
    else none

def receiveEphemeral (e : Ephemeral) : Receiver :=
  match e.seq with
  | none => { m with delivered := m.delivered ++ [e] }
  | some seq =>
    if (m.lastSeen e.slot).any (seq ≤ ·) then m
    else
      let kept := if (m.dropped e).isSome then m.seen.tail else m.seen
      ⟨(kept.filter (·.1 ≠ e.slot)) ++ [(e.slot, seq)], m.delivered ++ [e]⟩

end Receiver

def received (events : List Ephemeral) : Receiver :=
  events.foldl Receiver.receiveEphemeral ⟨[], []⟩

/-! ## The copies for the server -/

def onKey (frames : List Frame) (key : Text) : List Frame :=
  frames.filter fun f => f.key = key

theorem onKey_append_self (frames : List Frame) (f : Frame) :
    onKey (frames ++ [f]) f.key = onKey frames f.key ++ [f] := by
  simp [onKey]

theorem onKey_append_ne (frames : List Frame) {f : Frame} {key : Text} (h : f.key ≠ key) :
    onKey (frames ++ [f]) key = onKey frames key := by
  simp [onKey, h]

/-- Frames are numbered in the order in which they are sent, and the server's copies of a key with
them. -/
structure Numbered (s : Router) : Prop where
  below : ∀ f ∈ s.sent, f.seq ≤ s.seq
  sent : s.sent.Pairwise fun f g => f.seq < g.seq
  copies : ∀ f ∈ s.server, f ∈ s.sent
  server : ∀ key, (onKey s.server key).Pairwise fun f g => f.seq < g.seq

/-- The last frame of a key waits for its timer, or the server has it. -/
structure Current (s : Router) (key : Text) : Prop where
  parked : ∀ f, s.trailing.lookup key = some f →
    f.key = key ∧ (onKey s.sent key).getLast? = some f ∧ ∀ g ∈ onKey s.server key, g.seq < f.seq
  passed : s.trailing.lookup key = none →
    (onKey s.server key).getLast? = (onKey s.sent key).getLast?

structure RouterInv (s : Router) : Prop where
  numbered : Numbered s
  current : ∀ key, Current s key

/-- A frame that is the last of its key and has not been passed to the server. -/
structure Pending (s : Router) (f : Frame) : Prop where
  numbered : Numbered s
  last : (onKey s.sent f.key).getLast? = some f
  newer : ∀ g ∈ onKey s.server f.key, g.seq < f.seq
  others : ∀ key, f.key ≠ key → Current s key

namespace Pending

variable {s : Router} {f : Frame}

theorem viaServer (h : Pending s f) (now : Int) : RouterInv (s.viaServer f now) := by
  have hsent : f ∈ s.sent :=
    (List.mem_filter.1 (List.mem_of_getLast? h.last)).1
  refine ⟨⟨h.numbered.below, h.numbered.sent, fun g hg => ?_, fun key => ?_⟩, fun key => ?_⟩
  · rcases List.mem_append.1 hg with hold | hnew
    · exact h.numbered.copies g hold
    · rwa [List.mem_singleton.1 hnew]
  · unfold Router.viaServer
    dsimp only
    by_cases hkey : f.key = key
    · subst hkey
      rw [onKey_append_self]
      refine List.pairwise_append.2
        ⟨h.numbered.server f.key, List.pairwise_singleton _ _, fun g hg g' hg' => ?_⟩
      rw [List.mem_singleton.1 hg']
      exact h.newer g hg
    · rw [onKey_append_ne _ hkey]
      exact h.numbered.server key
  · unfold Router.viaServer
    by_cases hkey : f.key = key
    · subst hkey
      refine ⟨fun g hg => ?_, fun _ => ?_⟩
      · rw [AList.lookup_erase] at hg
        cases hg
      · dsimp only
        rw [onKey_append_self, List.getLast?_concat, h.last]
    · have hother := h.others key hkey
      refine ⟨fun g hg => ?_, fun hnone => ?_⟩
      · dsimp only at hg ⊢
        rw [AList.lookup_erase_ne (Ne.symm hkey)] at hg
        rw [onKey_append_ne _ hkey]
        exact hother.parked g hg
      · dsimp only at hnone ⊢
        rw [AList.lookup_erase_ne (Ne.symm hkey)] at hnone
        rw [onKey_append_ne _ hkey]
        exact hother.passed hnone

theorem park (h : Pending s f) :
    RouterInv { s with trailing := s.trailing.insert f.key f } := by
  refine ⟨⟨h.numbered.below, h.numbered.sent, h.numbered.copies, h.numbered.server⟩,
    fun key => ?_⟩
  by_cases hkey : f.key = key
  · subst hkey
    refine ⟨fun g hg => ?_, fun hnone => ?_⟩
    · rw [AList.lookup_insert] at hg
      cases hg
      exact ⟨rfl, h.last, h.newer⟩
    · rw [AList.lookup_insert] at hnone
      cases hnone
  · have hother := h.others key hkey
    refine ⟨fun g hg => ?_, fun hnone => ?_⟩
    · rw [AList.lookup_insert_ne (Ne.symm hkey)] at hg
      exact hother.parked g hg
    · rw [AList.lookup_insert_ne (Ne.symm hkey)] at hnone
      exact hother.passed hnone

end Pending

namespace RouterInv

variable {s : Router}

theorem start : RouterInv .start where
  numbered := ⟨fun f hf => (by cases hf), List.Pairwise.nil, fun f hf => (by cases hf),
    fun _ => List.Pairwise.nil⟩
  current _ := ⟨fun f hf => (by cases hf), fun _ => rfl⟩

/-- The frame that is numbered next, before it goes anywhere. -/
theorem pending_next (h : RouterInv s) (params : SendParams) {seq : Int} (hseq : s.seq < seq)
    (peers : List Frame) :
    Pending { s with seq := seq, sent := s.sent ++ [⟨params, seq⟩], peers := peers }
      ⟨params, seq⟩ := by
  have hold : ∀ g ∈ s.sent, g.seq < seq := by
    intro g hg
    have := h.numbered.below g hg
    omega
  refine ⟨⟨fun g hg => ?_, ?_, fun g hg => ?_, h.numbered.server⟩, ?_, fun g hg => ?_,
    fun key hkey => ?_⟩
  · rcases List.mem_append.1 hg with hmem | hnew
    · exact Int.le_of_lt (hold g hmem)
    · rw [List.mem_singleton.1 hnew]
  · refine List.pairwise_append.2 ⟨h.numbered.sent, List.pairwise_singleton _ _, ?_⟩
    intro g hg g' hg'
    rw [List.mem_singleton.1 hg']
    exact hold g hg
  · exact List.mem_append_left _ (h.numbered.copies g hg)
  · dsimp only
    rw [onKey_append_self, List.getLast?_concat]
  · exact hold g (h.numbered.copies g (List.mem_filter.1 hg).1)
  · have hother := h.current key
    refine ⟨fun g hg => ?_, fun hnone => ?_⟩
    · dsimp only
      rw [onKey_append_ne _ hkey]
      exact hother.parked g hg
    · dsimp only
      rw [onKey_append_ne _ hkey]
      exact hother.passed hnone

theorem send (h : RouterInv s) (serverIntervalMs : Int) (params : SendParams)
    (stampedAt now : Int) : RouterInv (s.send serverIntervalMs params stampedAt now) := by
  have hseq : s.seq < max (s.seq + 1) stampedAt := by omega
  have hnext := h.pending_next params hseq (s.peers ++
    (s.links.filter fun l => l.connected && l.ready).map fun _ =>
      ⟨params, max (s.seq + 1) stampedAt⟩)
  unfold Router.send
  dsimp only
  split
  · exact hnext.viaServer now
  · split
    · split
      · exact hnext.viaServer now
      · exact hnext.park
    · exact hnext.park

theorem fire (h : RouterInv s) {key : Text} {f : Frame} (hf : s.trailing.lookup key = some f)
    (now : Int) : RouterInv (s.viaServer f now) := by
  rcases (h.current key).parked f hf with ⟨rfl, hlast, hnewer⟩
  exact Pending.viaServer ⟨h.numbered, hlast, hnewer, fun key _ => h.current key⟩ now

theorem step (h : RouterInv s) {serverIntervalMs : Int} {e : RouterEvent} {s' : Router}
    (hs : (routerMachine serverIntervalMs).step s e = some s') : RouterInv s' := by
  cases e with
  | send params stampedAt now =>
      cases hs
      exact h.send serverIntervalMs params stampedAt now
  | fire key now =>
      rcases Option.map_eq_some_iff.1 hs with ⟨f, hf, rfl⟩
      exact h.fire hf now
  | links links =>
      cases hs
      exact ⟨⟨h.numbered.below, h.numbered.sent, h.numbered.copies, h.numbered.server⟩,
        fun key => ⟨(h.current key).parked, (h.current key).passed⟩⟩

end RouterInv

theorem routerInv {serverIntervalMs : Int} {s : Router}
    (h : (routerMachine serverIntervalMs).Reachable s) : RouterInv s :=
  h.invariant (P := RouterInv) .start fun hi _ hs => hi.step hs

/-! ## What a receiver delivers -/

/-- The numbers of the frames delivered of a slot. -/
def deliveredOn (m : Receiver) (slot : Text) : List Int :=
  (m.delivered.filter fun e => e.slot = slot).filterMap Ephemeral.seq

/-- The slot is never dropped to make room for another. -/
def KeepsSlot (events : List Ephemeral) (slot : Text) : Prop :=
  ∀ before e after, events = before ++ e :: after → (received before).dropped e ≠ some slot

namespace Receiver

variable {m : Receiver} {e : Ephemeral} {slot : Text} {n : Int}

/-- The number of the frame, if it has one and is delivered. -/
def delivers (m : Receiver) (e : Ephemeral) : Option Int :=
  e.seq.filter fun n => !(m.lastSeen e.slot).any (n ≤ ·)

theorem receive_of_delivers (h : m.delivers e = some n) :
    m.receiveEphemeral e =
      ⟨((if (m.dropped e).isSome then m.seen.tail else m.seen).filter (·.1 ≠ e.slot)) ++
        [(e.slot, n)], m.delivered ++ [e]⟩ := by
  rcases Option.filter_eq_some_iff.1 h with ⟨hseq, hfresh⟩
  rw [Bool.not_eq_true'] at hfresh
  unfold receiveEphemeral
  rw [hseq]
  dsimp only
  rw [hfresh]
  rfl

theorem receive_of_not_delivers (h : m.delivers e = none) :
    m.receiveEphemeral e = m ∨
      e.seq = none ∧ m.receiveEphemeral e = { m with delivered := m.delivered ++ [e] } := by
  unfold receiveEphemeral
  cases hseq : e.seq with
  | none => exact Or.inr ⟨rfl, rfl⟩
  | some n =>
      left
      rw [delivers, hseq, Option.filter_eq_none_iff] at h
      have hold := h n rfl
      rw [Bool.not_eq_true', Bool.not_eq_false] at hold
      exact if_pos hold

theorem find_tail (hkeep : m.dropped e ≠ some slot) (hdropped : (m.dropped e).isSome) :
    m.seen.tail.find? (·.1 = slot) = m.seen.find? (·.1 = slot) := by
  have hhead : ∀ {head : Text}, m.dropped e = some head → m.seen.head?.map (·.1) = some head := by
    intro head h
    unfold dropped at h
    split at h
    · cases h
    · split at h
      · cases h
      · split at h
        · exact h
        · cases h
  rcases Option.isSome_iff_exists.1 hdropped with ⟨head, hdrop⟩
  cases hseen : m.seen with
  | nil => rfl
  | cons entry rest =>
      have hentry : entry.1 = head := by
        simpa [hseen] using hhead hdrop
      rw [List.tail_cons, List.find?_cons_of_neg]
      intro heq
      exact hkeep (by rw [hdrop, ← hentry, of_decide_eq_true heq])

/-- What is remembered of a slot that is not dropped changes only by a delivery of the slot. -/
theorem lastSeen_receive (hkeep : m.dropped e ≠ some slot) :
    (m.receiveEphemeral e).lastSeen slot =
      if e.slot = slot then (m.delivers e).or (m.lastSeen slot) else m.lastSeen slot := by
  cases hdelivers : m.delivers e with
  | none =>
      rw [Option.none_or, ite_self]
      rcases receive_of_not_delivers hdelivers with heq | ⟨-, heq⟩
      · rw [heq]
      · rw [heq]
        rfl
  | some n =>
      rw [receive_of_delivers hdelivers, lastSeen, List.find?_append, List.find?_filter]
      by_cases hslot : e.slot = slot
      · subst hslot
        have hnone : (fun entry : Text × Int =>
            decide (decide (entry.1 ≠ e.slot) = true ∧ decide (entry.1 = e.slot) = true)) =
              fun _ => false := by
          funext entry
          by_cases hentry : entry.1 = e.slot <;> simp [hentry]
        rw [hnone, if_pos rfl, List.find?_eq_none.2 fun _ _ h => Bool.false_ne_true h]
        simp
      · have hsame : (fun entry : Text × Int =>
            decide (decide (entry.1 ≠ e.slot) = true ∧ decide (entry.1 = slot) = true)) =
              fun entry => decide (entry.1 = slot) := by
          funext entry
          by_cases hentry : entry.1 = slot
          · simp [hentry, Ne.symm hslot]
          · simp [hentry]
        have hother : [(e.slot, n)].find? (fun entry => decide (entry.1 = slot)) = none := by
          simp [hslot]
        rw [hsame, hother, Option.or_none, if_neg hslot, lastSeen]
        split
        · rename_i hdropped
          rw [find_tail hkeep hdropped]
        · rfl

theorem deliveredOn_receive :
    deliveredOn (m.receiveEphemeral e) slot =
      deliveredOn m slot ++ if e.slot = slot then (m.delivers e).toList else [] := by
  cases hdelivers : m.delivers e with
  | none =>
      rw [Option.toList_none, ite_self, List.append_nil]
      rcases receive_of_not_delivers hdelivers with heq | ⟨hseq, heq⟩
      · rw [heq]
      · rw [heq]
        by_cases hslot : e.slot = slot <;> simp [deliveredOn, hslot, hseq]
  | some n =>
      have hseq : e.seq = some n := (Option.filter_eq_some_iff.1 hdelivers).1
      rw [receive_of_delivers hdelivers]
      by_cases hslot : e.slot = slot <;> simp [deliveredOn, hslot, hseq]

end Receiver

/-- The receiver has delivered the slot's frames in order, up to the highest that it was given. -/
structure SlotInv (events : List Ephemeral) (slot : Text) : Prop where
  increasing : (deliveredOn (received events) slot).Pairwise (· < ·)
  last : (received events).lastSeen slot = (deliveredOn (received events) slot).getLast?
  highest : ∀ e ∈ events, e.slot = slot → ∀ n ∈ e.seq,
    ∃ last ∈ (received events).lastSeen slot, n ≤ last
  given : ∀ n ∈ deliveredOn (received events) slot, ∃ e ∈ events, e.slot = slot ∧ e.seq = some n

theorem received_snoc (events : List Ephemeral) (e : Ephemeral) :
    received (events ++ [e]) = (received events).receiveEphemeral e := by
  simp [received]

theorem lt_of_getLast {l : List Int} (h : l.Pairwise (· < ·)) {last : Int}
    (hlast : l.getLast? = some last) {n : Int} (hn : last < n) : (l ++ [n]).Pairwise (· < ·) := by
  rcases List.getLast?_eq_some_iff.1 hlast with ⟨front, rfl⟩
  refine List.pairwise_append.2 ⟨h, List.pairwise_singleton _ _, fun a ha b hb => ?_⟩
  rw [List.mem_singleton.1 hb]
  rcases List.mem_append.1 ha with hfront | hend
  · have := (List.pairwise_append.1 h).2.2 a hfront last (List.mem_singleton_self last)
    omega
  · rwa [List.mem_singleton.1 hend]

theorem SlotInv.snoc {events : List Ephemeral} {slot : Text} (h : SlotInv events slot)
    {e : Ephemeral} (hkeep : (received events).dropped e ≠ some slot) :
    SlotInv (events ++ [e]) slot := by
  have hseen := Receiver.lastSeen_receive hkeep
  have hdelivered := @Receiver.deliveredOn_receive (received events) e slot
  rw [← received_snoc] at hseen hdelivered
  by_cases hslot : e.slot = slot
  · rw [if_pos hslot] at hseen hdelivered
    cases hdelivers : (received events).delivers e with
    | none =>
        rw [hdelivers] at hseen hdelivered
        rw [Option.toList_none, List.append_nil] at hdelivered
        rw [Option.none_or] at hseen
        refine ⟨hdelivered ▸ h.increasing, ?_, fun e' he' hslot' n hn => ?_, fun n hn => ?_⟩
        · rw [hseen, hdelivered]
          exact h.last
        · rw [hseen]
          rcases List.mem_append.1 he' with hold | hnew
          · exact h.highest e' hold hslot' n hn
          · -- it was not newer than the last one
            rw [List.mem_singleton.1 hnew] at hn
            rw [Receiver.delivers, Option.filter_eq_none_iff, hslot] at hdelivers
            have hstale := hdelivers n hn
            rw [Bool.not_eq_true', Bool.not_eq_false] at hstale
            rcases (Option.any_eq_true_iff_get _ _).1 hstale with ⟨hsome, hle⟩
            exact ⟨_, Option.get_mem hsome, of_decide_eq_true hle⟩
        · rw [hdelivered] at hn
          rcases h.given n hn with ⟨e', he', hrest⟩
          exact ⟨e', List.mem_append_left _ he', hrest⟩
    | some n =>
        rw [hdelivers] at hseen hdelivered
        rw [Option.toList_some] at hdelivered
        rw [Option.some_or] at hseen
        rcases Option.filter_eq_some_iff.1 hdelivers with ⟨hseq, hfresh⟩
        rw [hslot, Bool.not_eq_true'] at hfresh
        have hnewer : ∀ last ∈ (received events).lastSeen slot, last < n := by
          intro last hlast
          rw [Option.mem_def] at hlast
          rw [hlast] at hfresh
          simpa using hfresh
        refine ⟨?_, ?_, fun e' he' hslot' k hk => ?_, fun k hk => ?_⟩
        · rw [hdelivered]
          cases hlast : (deliveredOn (received events) slot).getLast? with
          | none =>
              rw [List.getLast?_eq_none_iff.1 hlast]
              exact List.pairwise_singleton _ _
          | some last => exact lt_of_getLast h.increasing hlast (hnewer last (h.last.trans hlast))
        · rw [hseen, hdelivered, List.getLast?_concat]
        · rw [hseen]
          rcases List.mem_append.1 he' with hold | hnew
          · rcases h.highest e' hold hslot' k hk with ⟨last, hlast, hle⟩
            have := hnewer last hlast
            exact ⟨n, rfl, by omega⟩
          · rw [List.mem_singleton.1 hnew, hseq] at hk
            exact ⟨n, rfl, le_of_eq (Option.some.inj hk).symm⟩
        · rw [hdelivered] at hk
          rcases List.mem_append.1 hk with hold | hnew
          · rcases h.given k hold with ⟨e', he', hrest⟩
            exact ⟨e', List.mem_append_left _ he', hrest⟩
          · rw [List.mem_singleton.1 hnew]
            exact ⟨e, List.mem_append_right _ (List.mem_singleton_self e), hslot, hseq⟩
  · rw [if_neg hslot] at hseen hdelivered
    rw [List.append_nil] at hdelivered
    refine ⟨hdelivered ▸ h.increasing, ?_, fun e' he' hslot' n hn => ?_, fun n hn => ?_⟩
    · rw [hseen, hdelivered]
      exact h.last
    · rw [hseen]
      rcases List.mem_append.1 he' with hold | hnew
      · exact h.highest e' hold hslot' n hn
      · rw [List.mem_singleton.1 hnew] at hslot'
        exact absurd hslot' hslot
    · rw [hdelivered] at hn
      rcases h.given n hn with ⟨e', he', hrest⟩
      exact ⟨e', List.mem_append_left _ he', hrest⟩

theorem slotInv {events : List Ephemeral} {slot : Text} (hkeep : KeepsSlot events slot) :
    SlotInv events slot := by
  induction events using List.reverseRecOn with
  | nil =>
      exact ⟨List.Pairwise.nil, rfl, fun e he => (by cases he), fun n hn => (by cases hn)⟩
  | append_singleton events e ih =>
      refine (ih fun before e' after heq => ?_).snoc (hkeep events e [] rfl)
      exact hkeep before e' (after ++ [e]) (by rw [heq, List.append_assoc, List.cons_append])

/-! ## The order of a key's frames -/

theorem le_last_sent {s : Router} (h : RouterInv s) {key : Text} {f g : Frame}
    (hlast : (onKey s.sent key).getLast? = some f) (hg : g ∈ onKey s.sent key) :
    g.seq ≤ f.seq := by
  rcases List.getLast?_eq_some_iff.1 hlast with ⟨front, hfront⟩
  have hordered : (onKey s.sent key).Pairwise fun f g => f.seq < g.seq :=
    h.numbered.sent.sublist List.filter_sublist
  rw [hfront] at hg hordered
  rcases List.mem_append.1 hg with hmem | hend
  · exact Int.le_of_lt ((List.pairwise_append.1 hordered).2.2 g hmem f (List.mem_singleton_self f))
  · rw [List.mem_singleton.1 hend]

/-- The server's copies of a key are in order and end with its last frame unless that waits for its
timer; and a receiver that keeps the key's slot delivers in order, up to the last frame. -/
theorem mesh_order (serverIntervalMs : Int) {s : Router}
    (h : (routerMachine serverIntervalMs).Reachable s) (key clientId : Text)
    (events : List Ephemeral) :
    ((onKey s.server key).map (·.seq)).Pairwise (· < ·) ∧
      (s.trailing.lookup key = none →
        (onKey s.server key).getLast? = (onKey s.sent key).getLast?) ∧
      (KeepsSlot events (slotOf clientId key) →
        (deliveredOn (received events) (slotOf clientId key)).Pairwise (· < ·) ∧
          ((∀ e ∈ events, e.slot = slotOf clientId key →
              ∃ f ∈ onKey s.sent key, e = f.event clientId) →
            s.trailing.lookup key = none →
            (∀ f ∈ onKey s.server key, f.event clientId ∈ events) →
            (deliveredOn (received events) (slotOf clientId key)).getLast? =
              (onKey s.sent key).getLast?.map (·.seq))) := by
  have hinv := routerInv h
  refine ⟨List.pairwise_map.2 (hinv.numbered.server key), (hinv.current key).passed,
    fun hkeep => ?_⟩
  have hslot := slotInv hkeep
  refine ⟨hslot.increasing, fun hcopies hpassed hgiven => ?_⟩
  have hserver := (hinv.current key).passed hpassed
  -- what is delivered last was sent, so that it is no newer than the last frame
  have hdelivered : ∀ n ∈ deliveredOn (received events) (slotOf clientId key),
      ∃ g ∈ onKey s.sent key, g.seq = n := by
    intro n hn
    rcases hslot.given n hn with ⟨e, he, heslot, heseq⟩
    rcases hcopies e he heslot with ⟨g, hg, rfl⟩
    rw [Frame.seq_event] at heseq
    exact ⟨g, hg, Option.some.inj heseq⟩
  cases hlast : (onKey s.sent key).getLast? with
  | none =>
      have hnone : deliveredOn (received events) (slotOf clientId key) = [] := by
        refine List.eq_nil_iff_forall_not_mem.2 fun n hn => ?_
        rcases hdelivered n hn with ⟨g, hg, -⟩
        rw [List.getLast?_eq_none_iff.1 hlast] at hg
        cases hg
      rw [hnone]
      rfl
  | some f =>
      have hf : f ∈ onKey s.server key := List.mem_of_getLast? (hserver.trans hlast)
      have hkey : f.key = key := of_decide_eq_true (List.mem_filter.1 hf).2
      rcases hslot.highest (f.event clientId) (hgiven f hf) (by rw [← hkey]; rfl) f.seq
        (Frame.seq_event clientId f) with ⟨last, hseen, hle⟩
      have hseen' : (deliveredOn (received events) (slotOf clientId key)).getLast? = some last :=
        hslot.last ▸ hseen
      rcases hdelivered last (List.mem_of_getLast? hseen') with ⟨g, hg, rfl⟩
      have := le_last_sent hinv hlast hg
      rw [hseen', Option.map_some, show g.seq = f.seq by omega]

/-! ## More slots than a receiver keeps -/

/-- Keys of different lengths. -/
def nthParams (i : Nat) : SendParams :=
  ⟨List.replicate i 97, ∅, none⟩

def nthFrame (i : Nat) : Frame :=
  ⟨nthParams i, i + 1⟩

theorem nthKey_inj {i j : Nat} (h : (nthFrame i).key = (nthFrame j).key) : i = j := by
  simpa [nthFrame, nthParams, Frame.key] using congrArg List.length h

theorem exists_sent (n : Nat) : ∃ s, (routerMachine 100).Reachable s ∧
    s.links = [] ∧ s.seq = n ∧ s.sent = (List.range n).map nthFrame := by
  induction n with
  | zero => exact ⟨.start, .init, rfl, rfl, rfl⟩
  | succ n ih =>
      rcases ih with ⟨s, hs, hlinks, hseq, hsent⟩
      have hmax : max (s.seq + 1) 0 = (n : Int) + 1 := by omega
      have hsend : s.send 100 (nthParams n) 0 0 =
          Router.viaServer { s with
            seq := n + 1
            sent := s.sent ++ [nthFrame n]
            peers := s.peers ++ [] } (nthFrame n) 0 := by
        unfold Router.send
        dsimp only
        rw [hmax, hlinks]
        rfl
      refine ⟨_, .step hs (e := .send (nthParams n) 0 0) trivial rfl, ?_⟩
      rw [hsend]
      refine ⟨hlinks, by simp [Router.viaServer], ?_⟩
      rw [List.range_succ, List.map_append, ← hsent]
      rfl

def copies (n : Nat) : List Ephemeral :=
  (List.range n).map fun i => (nthFrame i).event []

theorem slot_inj {i j : Nat} (h : ((nthFrame i).event []).slot = ((nthFrame j).event []).slot) :
    i = j :=
  nthKey_inj (List.tail_eq_of_cons_eq h)

theorem copies_succ (n : Nat) : copies (n + 1) = copies n ++ [(nthFrame n).event []] := by
  rw [copies, List.range_succ, List.map_append]
  rfl

/-- A slot that is not in the table is delivered again. -/
theorem delivers_of_lastSeen {m : Receiver} {i : Nat}
    (h : m.lastSeen ((nthFrame i).event []).slot = none) :
    m.delivers ((nthFrame i).event []) = some (i + 1) := by
  rw [Receiver.delivers, Frame.seq_event, h]
  rfl

theorem seen_copies {n : Nat} (hn : n ≤ MAX_SEEN_SLOTS) :
    (received (copies n)).seen =
      (List.range n).map fun i => (((nthFrame i).event []).slot, (i : Int) + 1) := by
  induction n with
  | zero => rfl
  | succ n ih =>
      have hseen := ih (by omega)
      have hnew : (received (copies n)).lastSeen ((nthFrame n).event []).slot = none := by
        rw [Receiver.lastSeen, hseen, Option.map_eq_none_iff, List.find?_eq_none]
        intro entry hentry heq
        rcases List.mem_map.1 hentry with ⟨i, hi, rfl⟩
        have := slot_inj (of_decide_eq_true heq)
        rw [List.mem_range] at hi
        omega
      have hroom : (received (copies n)).dropped ((nthFrame n).event []) = none := by
        rw [Receiver.dropped, Frame.seq_event, hnew]
        have hlength : ¬ MAX_SEEN_SLOTS ≤ (received (copies n)).seen.length := by
          rw [hseen, List.length_map, List.length_range]
          omega
        simp [hlength]
      rw [copies_succ, received_snoc, Receiver.receive_of_delivers (delivers_of_lastSeen hnew),
        hroom, List.range_succ, List.map_append, ← hseen]
      dsimp only
      rw [if_neg (by simp), List.filter_eq_self.2]
      · rfl
      · intro entry hentry
        rw [hseen] at hentry
        rcases List.mem_map.1 hentry with ⟨i, hi, rfl⟩
        refine decide_eq_true fun heq => ?_
        have := slot_inj heq
        rw [List.mem_range] at hi
        omega

/-- The slot of the first key makes room for the last one. -/
theorem lastSeen_copies :
    (received (copies (MAX_SEEN_SLOTS + 1))).lastSeen ((nthFrame 0).event []).slot = none := by
  have hseen := seen_copies (Nat.le_refl MAX_SEEN_SLOTS)
  have hnew : (received (copies MAX_SEEN_SLOTS)).lastSeen
      ((nthFrame MAX_SEEN_SLOTS).event []).slot = none := by
    rw [Receiver.lastSeen, hseen, Option.map_eq_none_iff, List.find?_eq_none]
    intro entry hentry heq
    rcases List.mem_map.1 hentry with ⟨i, hi, rfl⟩
    have := slot_inj (of_decide_eq_true heq)
    rw [List.mem_range] at hi
    omega
  have hlength : MAX_SEEN_SLOTS ≤ (received (copies MAX_SEEN_SLOTS)).seen.length := by
    rw [hseen, List.length_map, List.length_range]
  have htail : (received (copies MAX_SEEN_SLOTS)).seen.tail =
      (List.range 9999).map fun i =>
        (((nthFrame (i + 1)).event []).slot, ((i + 1 : Nat) : Int) + 1) := by
    rw [hseen, show MAX_SEEN_SLOTS = 9999 + 1 from rfl, List.range_succ_eq_map, List.map_cons,
      List.tail_cons, List.map_map]
    rfl
  have hdropped : ((received (copies MAX_SEEN_SLOTS)).dropped
      ((nthFrame MAX_SEEN_SLOTS).event [])).isSome := by
    rw [Receiver.dropped, Frame.seq_event, hnew]
    have hpos : (received (copies MAX_SEEN_SLOTS)).seen ≠ [] := by
      intro hnil
      rw [hnil] at hlength
      exact absurd hlength (by decide)
    simp [hlength, List.isSome_head?, hpos]
  rw [copies_succ, received_snoc, Receiver.receive_of_delivers (delivers_of_lastSeen hnew),
    Receiver.lastSeen, if_pos hdropped, htail, Option.map_eq_none_iff, List.find?_eq_none]
  intro entry hentry heq
  have hslot := of_decide_eq_true heq
  rcases List.mem_append.1 hentry with hkept | hlast
  · rcases List.mem_map.1 (List.mem_filter.1 hkept).1 with ⟨i, -, rfl⟩
    have := slot_inj hslot
    omega
  · rw [List.mem_singleton.1 hlast] at hslot
    exact absurd (slot_inj hslot) (by decide)

theorem one_mem_deliveredOn (n : Nat) :
    (1 : Int) ∈ deliveredOn (received (copies (n + 1))) ((nthFrame 0).event []).slot := by
  induction n with
  | zero =>
      rw [copies_succ, received_snoc, Receiver.deliveredOn_receive, if_pos rfl,
        delivers_of_lastSeen rfl]
      exact List.mem_append_right _ (List.mem_singleton_self _)
  | succ n ih =>
      rw [copies_succ, received_snoc, Receiver.deliveredOn_receive]
      exact List.mem_append_left _ ih

/-- A copy of the first key's frame that comes once more, after as many other keys as there are
slots, is delivered again. -/
theorem not_increasing_dropped :
    ¬ ∀ (serverIntervalMs : Int) (s : Router), (routerMachine serverIntervalMs).Reachable s →
      ∀ (key clientId : Text) (events : List Ephemeral),
        (∀ e ∈ events, ∃ f ∈ s.sent, e = f.event clientId) →
          (deliveredOn (received events) (slotOf clientId key)).Pairwise (· < ·) := by
  intro h
  rcases exists_sent (MAX_SEEN_SLOTS + 1) with ⟨s, hs, -, -, hsent⟩
  have hfirst : nthFrame 0 ∈ s.sent := by
    rw [hsent]
    exact List.mem_map_of_mem (List.mem_range.2 (Nat.succ_pos _))
  have hpairwise := h 100 s hs (nthFrame 0).key []
    (copies (MAX_SEEN_SLOTS + 1) ++ [(nthFrame 0).event []]) fun e he => by
      rcases List.mem_append.1 he with hcopy | hagain
      · rcases List.mem_map.1 hcopy with ⟨i, hi, rfl⟩
        exact ⟨nthFrame i, by rw [hsent]; exact List.mem_map_of_mem hi, rfl⟩
      · exact ⟨nthFrame 0, hfirst, List.mem_singleton.1 hagain⟩
  have hagain : deliveredOn (received (copies (MAX_SEEN_SLOTS + 1) ++ [(nthFrame 0).event []]))
      ((nthFrame 0).event []).slot =
        deliveredOn (received (copies (MAX_SEEN_SLOTS + 1)))
          ((nthFrame 0).event []).slot ++ [1] := by
    rw [received_snoc, Receiver.deliveredOn_receive, if_pos rfl,
      delivers_of_lastSeen lastSeen_copies]
    rfl
  rw [show slotOf [] (nthFrame 0).key = ((nthFrame 0).event []).slot from rfl, hagain] at hpairwise
  exact absurd ((List.pairwise_append.1 hpairwise).2.2 1 (one_mem_deliveredOn _) 1
    (List.mem_singleton_self 1)) (Int.lt_irrefl 1)

/-! ## Two frames of a pointer -/

theorem length_seen_le (events : List Ephemeral) :
    (received events).seen.length ≤ events.length := by
  induction events using List.reverseRecOn with
  | nil => exact Nat.le_refl 0
  | append_singleton events e ih =>
      rw [received_snoc, List.length_append, List.length_singleton]
      cases hdelivers : (received events).delivers e with
      | none =>
          rcases Receiver.receive_of_not_delivers hdelivers with heq | ⟨-, heq⟩
          · rw [heq]
            omega
          · rw [heq]
            dsimp only
            omega
      | some n =>
          rw [Receiver.receive_of_delivers hdelivers, List.length_append, List.length_singleton]
          have hfilter := List.length_filter_le (fun entry : Text × Int => entry.1 ≠ e.slot)
            (if ((received events).dropped e).isSome then (received events).seen.tail
              else (received events).seen)
          have hkept : (if ((received events).dropped e).isSome then (received events).seen.tail
              else (received events).seen).length ≤ (received events).seen.length := by
            split
            · rw [List.length_tail]
              omega
            · exact Nat.le_refl _
          omega

/-- No slot is dropped of a run that is no longer than the table. -/
theorem keepsSlot_of_length {events : List Ephemeral} (h : events.length ≤ MAX_SEEN_SLOTS)
    (slot : Text) : KeepsSlot events slot := by
  intro before e after heq hdropped
  have hlength := length_seen_le before
  rw [heq, List.length_append, List.length_cons] at h
  unfold Receiver.dropped at hdropped
  split at hdropped
  · cases hdropped
  · split at hdropped
    · cases hdropped
    · rw [if_neg fun hfull => by omega] at hdropped
      cases hdropped

def pointer : SendParams :=
  ⟨[112], ∅, none⟩

/-- The second frame waits for the timer. -/
def pointerEvents : List RouterEvent :=
  [.links [⟨true, true⟩], .send pointer 1000 1000, .send pointer 1010 1010, .fire [112] 1100]

/-- The later frame comes over the peer channel before the copies of the earlier one. -/
def pointerCopies : List Ephemeral :=
  [(⟨pointer, 1010⟩ : Frame).event [], (⟨pointer, 1000⟩ : Frame).event [],
    (⟨pointer, 1000⟩ : Frame).event [], (⟨pointer, 1010⟩ : Frame).event []]

theorem mesh_order_pointer : ∃ s, (routerMachine 100).Reachable s ∧
    (onKey s.server [112]).map (·.seq) = [1000, 1010] ∧
      ((onKey s.server [112]).map (·.seq)).Pairwise (· < ·) ∧
        (deliveredOn (received pointerCopies) (slotOf [] [112])).getLast? = some 1010 := by
  rcases hrun : (routerMachine 100).run pointerEvents with _ | s
  · cases hrun
  · have hreach := Machine.Reachable.of_run hrun
    cases hrun
    have horder := mesh_order 100 hreach [112] [] pointerCopies
    refine ⟨_, hreach, rfl, horder.1, ?_⟩
    refine (horder.2.2 (keepsSlot_of_length (by decide) _)).2 ?_ rfl ?_
    · intro e he _
      simp only [pointerCopies, List.mem_cons, List.not_mem_nil, or_false] at he
      rcases he with rfl | rfl | rfl | rfl
      · exact ⟨_, .tail _ (.head _), rfl⟩
      · exact ⟨_, .head _, rfl⟩
      · exact ⟨_, .head _, rfl⟩
      · exact ⟨_, .tail _ (.head _), rfl⟩
    · intro f hf
      have hframes : f = ⟨pointer, 1000⟩ ∨ f = ⟨pointer, 1010⟩ := by
        rcases List.mem_cons.1 (show f ∈ [(⟨pointer, 1000⟩ : Frame), ⟨pointer, 1010⟩] from hf) with
          rfl | hlast
        · exact Or.inl rfl
        · exact Or.inr (List.mem_singleton.1 hlast)
      rcases hframes with rfl | rfl
      · exact .tail _ (.head _)
      · exact .head _

end MeshRouter
end Client
end Reflectdb
