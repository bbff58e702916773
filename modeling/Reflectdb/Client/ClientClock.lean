import Reflectdb.Core.Hlc
import Reflectdb.Lib.Machine

/-!
# Client clock — what of it survives a restart

The clock of the op creator, and what `init` restores it from: the `hlcState` that two server
messages persist, and the ops that are still pending in storage.  The store's writes go through one
chain; the `setMeta` of the clock does not, and either may fail.  A restart loses what has not
landed.
-/

namespace Reflectdb
namespace Client

open Core

/-! ## Model -/

/-- A pending op, as far as the clock goes. -/
structure ClockedOp where
  id : String
  hlc : HLC
  rejected : Bool
  deriving DecidableEq

/-- A write of the store's chain to the pending ops in storage. -/
inductive StoreWrite
  | appendPendingOps (ops : List ClockedOp)
  | updatePendingOps (ops : List ClockedOp)
  | removePendingOps (ids : List String)
  | putPendingOps (ops : List ClockedOp)

def StoreWrite.apply (stored : List ClockedOp) : StoreWrite → List ClockedOp
  | .appendPendingOps ops => stored ++ ops
  | .updatePendingOps ops => stored.map fun p => (ops.find? (·.id = p.id)).getD p
  | .removePendingOps ids => stored.filter (·.id ∉ ids)
  | .putPendingOps ops => ops

/-- An op that was created, with every HLC created or merged before the last restart.  No step reads
the latter. -/
structure CreatedOp where
  id : String
  hlc : HLC
  before : List HLC
  deriving DecidableEq

structure ClientClock where
  /-- `opCreator.getHlc()`. -/
  hlc : HLC
  pendingOps : List ClockedOp
  writeChain : List StoreWrite
  /-- The `setMeta("hlcState", …)` calls that have not settled. -/
  metaWrites : List HLC
  storedOps : List ClockedOp
  hlcState : Option HLC
  /-- The HLCs created and merged so far. -/
  issued : List HLC
  /-- Those issued before the last restart. -/
  before : List HLC
  created : List CreatedOp

inductive ClientClockEvent
  | create (wall : Nat) (id : String)
  | ack (opIds : List String)
  /-- A reject, which also drops the rejected ops that have expired. -/
  | reject (opId : String) (expired : List String)
  /-- `bootstrap_complete` or `resume_complete`; other messages leave the clock alone. -/
  | complete (wall : Nat) (serverHlc : HLC)
  /-- The first write of the chain settles. -/
  | writeSettles (ok : Bool)
  | metaSettles (j : Nat) (ok : Bool)
  /-- A new process runs `init`. -/
  | restart

namespace ClientClock

def start (clientId : String) : ClientClock where
  hlc := createHlc ("client:" ++ clientId)
  pendingOps := []
  writeChain := []
  metaWrites := []
  storedOps := []
  hlcState := none
  issued := []
  before := []
  created := []

/-- `nextOp` and `addPendingOp`. -/
def create (s : ClientClock) (wall : Nat) (id : String) : ClientClock :=
  let hlc := sendHlc wall s.hlc
  let op : ClockedOp := ⟨id, hlc, false⟩
  { s with
    hlc := hlc
    pendingOps := s.pendingOps ++ [op]
    writeChain := s.writeChain ++ [.appendPendingOps [op]]
    issued := s.issued ++ [hlc]
    created := s.created ++ [⟨id, hlc, s.before⟩] }

/-- `markSynced`. -/
def ack (s : ClientClock) (opIds : List String) : ClientClock :=
  { s with
    pendingOps := s.pendingOps.filter (·.id ∉ opIds)
    writeChain := s.writeChain ++ [.removePendingOps opIds] }

/-- `markRejected`, with `autoTrimRejected`, and `revertOp`. -/
def reject (s : ClientClock) (opId : String) (expired : List String) : ClientClock :=
  let marked := s.pendingOps.map fun p => if p.id = opId then { p with rejected := true } else p
  let kept := marked.filter fun p => ¬ (p.rejected ∧ p.id ∈ expired)
  { s with
    pendingOps := kept.filter (·.id ≠ opId)
    writeChain := s.writeChain ++ [.updatePendingOps (marked.filter (·.id = opId))] ++
      (if kept.length < marked.length then [.putPendingOps kept] else []) ++
      [.removePendingOps [opId]] }

/-- `mergeServerHlc` and `persistMeta`.  An HLC beyond the drift bound is not followed, and so not
merged. -/
def complete (s : ClientClock) (wall : Nat) (serverHlc : HLC) : ClientClock :=
  let hlc := receiveHlc wall s.hlc serverHlc
  { s with
    hlc := hlc
    metaWrites := s.metaWrites ++ [hlc]
    issued :=
      if serverHlc.ms ≤ wall + MAX_CLOCK_DRIFT_MS then s.issued ++ [serverHlc] else s.issued }

/-- The later one of the two times, of the clock and an op. -/
def laterHlc (clock op : HLC) : HLC :=
  if clock.ms < op.ms ∨ op.ms = clock.ms ∧ clock.counter < op.counter then
    { clock with ms := op.ms, counter := op.counter }
  else clock

/-- The clock that `init` restores. -/
def restoredHlc (s : ClientClock) : HLC :=
  let restored : HLC := match s.hlcState with
    | some parsed => { parsed with nodeId := s.hlc.nodeId }
    | none => createHlc s.hlc.nodeId
  (s.storedOps.filter (! ·.rejected)).foldl (fun clock p => laterHlc clock p.hlc) restored

def init (s : ClientClock) : ClientClock :=
  { s with
    hlc := s.restoredHlc
    pendingOps := s.storedOps
    writeChain := []
    metaWrites := []
    before := s.issued }

end ClientClock

def clientClockStep (s : ClientClock) : ClientClockEvent → Option ClientClock
  | .create wall id => if id ∈ s.created.map (·.id) then none else some (s.create wall id)
  | .ack opIds => some (s.ack opIds)
  | .reject opId expired => some (s.reject opId expired)
  | .complete wall serverHlc => some (s.complete wall serverHlc)
  | .writeSettles ok =>
    match s.writeChain with
    | write :: rest =>
      some { s with
        writeChain := rest, storedOps := if ok then write.apply s.storedOps else s.storedOps }
    | [] => none
  | .metaSettles j ok =>
    match s.metaWrites[j]? with
    | some hlc =>
      some { s with
        metaWrites := s.metaWrites.eraseIdx j, hlcState := if ok then some hlc else s.hlcState }
    | none => none
  | .restart => some s.init

def clientClockMachine (clientId : String) : Lib.Machine ClientClock ClientClockEvent :=
  ⟨.start clientId, clientClockStep⟩

/-! ## Restarts -/

/-- What is created after a restart is above everything created or merged before it, and no HLC is
created twice. -/
structure RestartMonotone (s : ClientClock) : Prop where
  above : ∀ op ∈ s.created, ∀ hlc ∈ op.before, hlc.Before op.hlc
  distinct : (s.created.map (·.hlc)).Nodup

/-- A restart finds in storage a clock or a pending op that is not behind. -/
def RestartsAtLatest (s : ClientClock) : ClientClockEvent → Prop
  | .restart => ∀ hlc ∈ s.issued, (∃ stored ∈ s.hlcState, hlc.time ≤ stored.time) ∨
      ∃ p ∈ s.storedOps, p.rejected = false ∧ hlc.time ≤ p.hlc.time
  | _ => True

instance (s : ClientClock) (e : ClientClockEvent) : Decidable (RestartsAtLatest s e) := by
  unfold RestartsAtLatest
  split <;> infer_instance

/-- The clock is not behind what was issued before the restart and what was created. -/
structure ClientClockInv (s : ClientClock) : Prop where
  before : ∀ hlc ∈ s.before, hlc.time ≤ s.hlc.time
  created : ∀ op ∈ s.created, op.hlc ∈ s.issued ∧ op.hlc.time ≤ s.hlc.time
  above : ∀ op ∈ s.created, ∀ hlc ∈ op.before, hlc.time < op.hlc.time
  increasing : (s.created.map (·.hlc)).Pairwise fun a b => a.time < b.time

section Inv

variable {s s' : ClientClock}

/-- Steps that create nothing and do not move the clock back. -/
theorem ClientClockInv.advance (h : ClientClockInv s) (hbefore : s'.before = s.before)
    (hcreated : s'.created = s.created) (hissued : ∀ hlc ∈ s.issued, hlc ∈ s'.issued)
    (hhlc : s.hlc.time ≤ s'.hlc.time) : ClientClockInv s' where
  before := by
    rw [hbefore]
    exact fun hlc hmem => (h.before hlc hmem).trans hhlc
  created := by
    rw [hcreated]
    exact fun op hop => ⟨hissued _ (h.created op hop).1, (h.created op hop).2.trans hhlc⟩
  above := by
    rw [hcreated]
    exact h.above
  increasing := by
    rw [hcreated]
    exact h.increasing

theorem ClientClockInv.create (h : ClientClockInv s) (wall : Nat) (id : String) :
    ClientClockInv (s.create wall id) := by
  have hlt : s.hlc.time < (sendHlc wall s.hlc).time := lt_sendHlc_time wall s.hlc
  refine ⟨fun hlc hmem => (h.before hlc hmem).trans hlt.le, fun op hop => ?_,
    fun op hop hlc hmem => ?_, ?_⟩
  · rcases List.mem_append.1 hop with hold | hnew
    · exact ⟨List.mem_append_left _ (h.created op hold).1, (h.created op hold).2.trans hlt.le⟩
    · obtain rfl := List.mem_singleton.1 hnew
      exact ⟨List.mem_append_right _ (List.mem_singleton_self _), le_refl _⟩
  · rcases List.mem_append.1 hop with hold | hnew
    · exact h.above op hold hlc hmem
    · obtain rfl := List.mem_singleton.1 hnew
      exact lt_of_le_of_lt (h.before hlc hmem) hlt
  · have hmap : (s.create wall id).created.map (·.hlc) =
        s.created.map (·.hlc) ++ [sendHlc wall s.hlc] := by simp [ClientClock.create]
    rw [hmap, List.pairwise_append]
    refine ⟨h.increasing, List.pairwise_singleton _ _, fun a ha b hb => ?_⟩
    rcases List.mem_map.1 ha with ⟨op, hop, rfl⟩
    obtain rfl := List.mem_singleton.1 hb
    exact lt_of_le_of_lt (h.created op hop).2 hlt

theorem le_laterHlc (clock op : HLC) :
    clock.time ≤ (ClientClock.laterHlc clock op).time ∧
      op.time ≤ (ClientClock.laterHlc clock op).time := by
  rw [HLC.time_le_iff, HLC.time_le_iff, ClientClock.laterHlc]
  split
  · dsimp only
    omega
  · omega

/-- The restored clock is not behind the one it starts from and any of the ops. -/
theorem le_foldl_laterHlc (ops : List ClockedOp) (clock : HLC) :
    clock.time ≤ (ops.foldl (fun clock p => ClientClock.laterHlc clock p.hlc) clock).time ∧
      ∀ p ∈ ops, p.hlc.time ≤
        (ops.foldl (fun clock p => ClientClock.laterHlc clock p.hlc) clock).time := by
  induction ops generalizing clock with
  | nil => exact ⟨le_refl _, fun p hp => (nomatch hp)⟩
  | cons q ops ih =>
      rcases ih (ClientClock.laterHlc clock q.hlc) with ⟨hclock, hops⟩
      rcases le_laterHlc clock q.hlc with ⟨hleft, hright⟩
      refine ⟨hleft.trans hclock, fun p hp => ?_⟩
      rcases List.mem_cons.1 hp with rfl | hp
      · exact hright.trans hclock
      · exact hops p hp

theorem ClientClockInv.init (h : ClientClockInv s)
    (hlatest : ∀ hlc ∈ s.issued, (∃ stored ∈ s.hlcState, hlc.time ≤ stored.time) ∨
      ∃ p ∈ s.storedOps, p.rejected = false ∧ hlc.time ≤ p.hlc.time) :
    ClientClockInv s.init := by
  have hissued : ∀ hlc ∈ s.issued, hlc.time ≤ s.restoredHlc.time := by
    intro hlc hmem
    rcases hlatest hlc hmem with ⟨stored, hstored, hle⟩ | ⟨p, hp, hpending, hle⟩
    · have hstored : s.hlcState = some stored := hstored
      rw [ClientClock.restoredHlc, hstored]
      exact hle.trans (le_foldl_laterHlc _ { stored with nodeId := s.hlc.nodeId }).1
    · refine hle.trans ((le_foldl_laterHlc _ _).2 p (List.mem_filter.2 ⟨hp, ?_⟩))
      simp [hpending]
  exact ⟨hissued, fun op hop => ⟨(h.created op hop).1, hissued _ (h.created op hop).1⟩, h.above,
    h.increasing⟩

theorem ClientClockInv.step (h : ClientClockInv s) {e : ClientClockEvent}
    (hguard : RestartsAtLatest s e) (hs : clientClockStep s e = some s') : ClientClockInv s' := by
  cases e with
  | create wall id =>
      rcases Option.ite_none_left_eq_some.1 hs with ⟨-, heq⟩
      obtain rfl := Option.some.inj heq
      exact h.create wall id
  | ack opIds =>
      obtain rfl := Option.some.inj hs
      exact h.advance rfl rfl (fun _ hmem => hmem) (le_refl _)
  | reject opId expired =>
      obtain rfl := Option.some.inj hs
      exact h.advance rfl rfl (fun _ hmem => hmem) (le_refl _)
  | complete wall serverHlc =>
      obtain rfl := Option.some.inj hs
      refine h.advance rfl rfl (fun hlc hmem => ?_) (lt_receiveHlc_time _ _ _).le
      simp only [ClientClock.complete]
      split
      · exact List.mem_append_left _ hmem
      · exact hmem
  | writeSettles ok =>
      simp only [clientClockStep] at hs
      split at hs
      · obtain rfl := Option.some.inj hs
        exact h.advance rfl rfl (fun _ hmem => hmem) (le_refl _)
      · cases hs
  | metaSettles j ok =>
      simp only [clientClockStep] at hs
      split at hs
      · obtain rfl := Option.some.inj hs
        exact h.advance rfl rfl (fun _ hmem => hmem) (le_refl _)
      · cases hs
  | restart =>
      obtain rfl := Option.some.inj hs
      exact h.init hguard

end Inv

/-- In a run whose restarts find the latest HLC in storage, what is created after a restart is above
everything before it, and no HLC is created twice. -/
theorem restartMonotone_of_restartsAtLatest {clientId : String} {s : ClientClock}
    (h : (clientClockMachine clientId).Reach RestartsAtLatest s) : RestartMonotone s := by
  have hstart : ClientClockInv (clientClockMachine clientId).init :=
    ⟨fun _ hmem => (nomatch hmem), fun _ hop => (nomatch hop), fun _ hop => (nomatch hop), .nil⟩
  have hinv : ClientClockInv s := h.invariant hstart fun hinv hguard hs => hinv.step hguard hs
  refine ⟨fun op hop hlc hmem => HLC.before_of_time_lt (hinv.above op hop hlc hmem), ?_⟩
  refine hinv.increasing.imp fun hlt heq => ?_
  rw [heq] at hlt
  exact lt_irrefl _ hlt

/-- The op is still pending at the restart, and the wall clock reads lower after it. -/
theorem restartMonotone_pendingOp : ∃ s : ClientClock,
    s.created.map (·.hlc) = [⟨2000, 0, "client:a"⟩, ⟨2000, 1, "client:a"⟩] ∧
      RestartMonotone s := by
  have hrun : (((clientClockMachine "a").runWith (fun s e => decide (RestartsAtLatest s e))
      (clientClockMachine "a").init [.create 2000 "1", .writeSettles true, .restart,
        .create 1000 "2"]).map fun s => s.created.map (·.hlc)) =
      some [⟨2000, 0, "client:a"⟩, ⟨2000, 1, "client:a"⟩] := by decide +kernel
  rcases Option.map_eq_some_iff.1 hrun with ⟨s, hs, heq⟩
  have hreach := Lib.Machine.Reach.of_runWith (fun _ _ h => of_decide_eq_true h) .init hs
  exact ⟨s, heq, restartMonotone_of_restartsAtLatest hreach⟩

/-- The ack takes the op out of the storage, and nothing there stands for it any more. -/
theorem not_restartMonotone_ackedOp :
    ¬ ∀ clientId s, (clientClockMachine clientId).Reachable s → RestartMonotone s := by
  intro h
  have hrun : ((clientClockMachine "a").run [.create 2000 "1", .writeSettles true, .ack ["1"],
      .writeSettles true, .restart, .create 2000 "2"]).map (fun s => s.created.map (·.hlc)) =
      some [⟨2000, 0, "client:a"⟩, ⟨2000, 0, "client:a"⟩] := by decide +kernel
  rcases Option.map_eq_some_iff.1 hrun with ⟨s, hs, heq⟩
  have hdistinct := (h "a" s (.of_run hs)).distinct
  rw [heq] at hdistinct
  exact absurd hdistinct (by decide)

end Client
end Reflectdb
