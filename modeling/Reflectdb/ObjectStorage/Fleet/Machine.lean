import Reflectdb.ObjectStorage.Fleet.Instance

/-!
# Machine — commits, refreshes, and the instances of one room

Commits of an instance run one after the other on its chain.  A commit of a single writer that loses
fences the instance, an optimistic one is rebuilt on what the store holds by then.
-/

namespace Reflectdb
namespace ObjectStorage
namespace Fleet

open Core Client Lib

section Steps

variable {ι : Type} (cfg : Config ι) (i : ι)

/-! ## Commits -/

def OPTIMISTIC_MAX_ATTEMPTS : Nat := 6

inductive CommitAct
  | setMeta (key value : String)
  /-- `doCommit` or `doCommitOptimistic` begins. -/
  | start
  /-- The commit holds the lease. -/
  | grant
  | issue
  | put (outcome : Outcome)
  | answer
  /-- The GET of `adoptOwnCommit`; `ok` says whether it succeeds. -/
  | readBack (ok : Bool)
  /-- `adoptOwnCommit` returns. -/
  | judge
  /-- The GET of a commit that has lost, and its answer. -/
  | reload
  | reloaded
  /-- The commit throws before its PUT, or a reload does. -/
  | refuse (notWriter : Bool)
  deriving DecidableEq

/-- The copy of the cutoff that `getMeta` serves follows the committed manifest. -/
def noteCutoff (held : Held) (committed : ManifestRecord) : Held :=
  match committed.meta_.lookup "compactionCutoff" with
  | none => held
  | some cutoff =>
    if cutoff = "" then held
    else held.withMeta (held.room.meta_.insert "compactionCutoff" cutoff)

namespace Instance

/-- What the caller of a commit does when it returns the manifest `next`. -/
def onResolved (n : Instance) (next : ManifestRecord) : Update → Instance
  | .append _ batch =>
    -- `buffer.splice(0, count)`: the promises of these records resolve.
    { n with loop := { n.loop with
        buffer := n.loop.buffer.drop batch.length
        resolved := n.loop.resolved ++ n.loop.buffer.take batch.length
        task := .maintain } }
  | .setMeta _ _ => n
  | .compact key _ _ _ =>
    { n with
      room := { n.room with
        held := noteCutoff n.room.held next
        appliedSegments := []
        appliedSnapshotKey := some key }
      loop := { n.loop with task := .garbage } }
  | .collect _ => n.withTask .idle

/-- What it does when it throws. -/
def onRejected (n : Instance) (notWriter : Bool) : Update → Instance
  | .append _ _ => if notWriter then n.failLoop else n.withTask .idle
  | .setMeta _ _ => n
  | .compact _ _ _ _ => n.withTask .idle
  | .collect _ => n.withTask .idle

/-- The commit at the head of the chain returns `next`; `cached` is what the manifest is taken to be
from then on. -/
def resolve (n : Instance) (u : Update) (next cached : ManifestRecord) (tag : Nat) : Instance :=
  { n with commit := { n.commit with
      cached := cached
      cachedTag := tag
      chain := n.commit.chain.tail
      phase := .waiting
      resolved := n.commit.resolved ++ [u] } }.onResolved next u

def reject (n : Instance) (u : Update) (notWriter : Bool) : Instance :=
  { n with commit := { n.commit with
      chain := n.commit.chain.tail
      phase := .waiting } }.onRejected notWriter u

def noteWrite (n : Instance) : Instance :=
  { n with lease := { n.lease with wroteSinceRenew := true } }

/-- `setMeta` of the adapter changes memory first. -/
def setMeta (n : Instance) (key value : String) : Option Instance :=
  if n.room.boot = .ready ∧ !n.room.closed then
    some { n with
      room := { n.room with
        held := n.room.held.withMeta (n.room.held.room.meta_.insert key value) }
      commit := { n.commit with chain := n.commit.chain ++ [.setMeta key value] } }
  else none

def commitStart (n : Instance) : Option Instance :=
  if n.commit.phase = .waiting ∧ n.commit.chain ≠ [] then
    match cfg.mode with
    | .optimistic => some { n with commit := { n.commit with phase := .granted, attempt := 1 } }
    | .singleWriter =>
      if !n.lease.fenced ∧ !n.lease.stopped then some (n.withPhase .started) else none
  else none

def commitGrant (n : Instance) : Option Instance :=
  if n.commit.phase = .started ∧ n.lease.held then some (n.withPhase .granted) else none

/-- The manifest that the commit `u` attempts. -/
def attempts (n : Instance) (u : Update) : ManifestRecord :=
  u.mutate (buildNext cfg.mode n.lease.epoch (cfg.writerId i) n.commit.cached)

def commitIssue (n : Instance) : Option Instance :=
  match n.commit.phase, n.commit.chain with
  | .granted, u :: _ => some (n.withPhase (.issued n.commit.cachedTag (n.attempts cfg i u)))
  | _, _ => none

def commitPut (st : Store ι) (n : Instance) (outcome : Outcome) : Option (Store ι × Instance) :=
  match n.commit.phase, n.commit.chain with
  | .issued ifMatch next, u :: _ =>
    (outcome.settle ifMatch st.tip).map fun r =>
      (if r.1 then st.publish i next u else st, n.withPhase (.replied next r.2))
  | _, _ => none

def commitAnswer (n : Instance) : Option Instance :=
  match n.commit.phase, n.commit.chain with
  | .replied next (.ok tag), u :: _ =>
    match cfg.mode with
    | .singleWriter => some (n.noteWrite.resolve u next next tag)
    | .optimistic => some (n.resolve u next next tag)
  | .replied next .conflict, _ :: _ => some (n.withPhase (.conflicted next))
  | .replied _ .failed, u :: _ => some (n.reject u false)
  | _, _ => none

def readBack (st : Store ι) (n : Instance) (ok : Bool) : Option Instance :=
  match n.commit.phase with
  | .conflicted next => some (n.withPhase (.found next (if ok then some st.tip else none)))
  | _ => none

/-- `adoptOwnCommit`: the version that was read back is the one that the commit attempted. -/
def adopts (versions : List (Version ι)) (next : ManifestRecord) (tag : Option Nat) : Bool :=
  match tag with
  | none => false
  | some tag => tag ≠ 0 && IsOwnCommit (cfg.writerId i) next (manifestAt versions tag)

def judge (st : Store ι) (n : Instance) : Option Instance :=
  match n.commit.phase, n.commit.chain with
  | .found next tag, u :: _ =>
    if adopts cfg i st.versions next tag then
      some (n.noteWrite.resolve u next (manifestAt st.versions (tag.getD 0)) (tag.getD 0))
    else
      match cfg.mode with
      | .singleWriter => some ({ n with lease := n.lease.fence }.reject u true)
      | .optimistic =>
        if OPTIMISTIC_MAX_ATTEMPTS ≤ n.commit.attempt then some (n.reject u false)
        else some (n.withPhase .reloading)
  | _, _ => none

def reload (st : Store ι) (n : Instance) : Option Instance :=
  if n.commit.phase = .reloading then some (n.withPhase (.reloaded st.tip)) else none

def reloaded (st : Store ι) (n : Instance) : Option Instance :=
  match n.commit.phase with
  | .reloaded tag =>
    some { n with
      lease := n.lease.inherit (manifestAt st.versions tag)
      commit := { n.commit with
        cached := manifestAt st.versions tag
        cachedTag := tag
        phase := .granted
        attempt := n.commit.attempt + 1 } }
  | _ => none

/-- Whether a commit that has not issued its PUT can throw, and what. -/
def refuses (n : Instance) (notWriter : Bool) : Bool :=
  match cfg.mode, n.commit.phase with
  | .singleWriter, .waiting =>
    if n.lease.fenced then notWriter else n.lease.stopped && !notWriter
  -- `acquire` throws.
  | .singleWriter, .started => true
  | .optimistic, .reloading => !notWriter
  | _, _ => false

def refuse (n : Instance) (notWriter : Bool) : Option Instance :=
  match n.commit.chain with
  | u :: _ => if n.refuses cfg notWriter then some (n.reject u notWriter) else none
  | [] => none

def commitStep (st : Store ι) (n : Instance) : CommitAct → Option (Store ι × Instance)
  | .setMeta key value => (n.setMeta key value).map (st, ·)
  | .start => (n.commitStart cfg).map (st, ·)
  | .grant => n.commitGrant.map (st, ·)
  | .issue => (n.commitIssue cfg i).map (st, ·)
  | .put outcome => n.commitPut i st outcome
  | .answer => (n.commitAnswer cfg).map (st, ·)
  | .readBack ok => (n.readBack st ok).map (st, ·)
  | .judge => (n.judge cfg i st).map (st, ·)
  | .reload => (n.reload st).map (st, ·)
  | .reloaded => (n.reloaded st).map (st, ·)
  | .refuse notWriter => (n.refuse cfg notWriter).map (st, ·)

end Instance

/-! ## Refreshes -/

inductive RefreshAct
  | get
  | answer (call : Nat)
  | load (call now : Nat)
  | segment (call now : Nat)
  | done (call : Nat)
  /-- A GET fails, or finds no object. -/
  | throw (call : Nat)
  deriving DecidableEq

namespace Instance

def withRefresh (n : Instance) (call : Nat) (r : Refresh) : Instance :=
  { n with room := { n.room with refreshes := n.room.refreshes.set call r } }

def dropRefresh (n : Instance) (call : Nat) : Instance :=
  { n with room := { n.room with refreshes := n.room.refreshes.eraseIdx call } }

/-- `refresh` passes a segment over. -/
def skips (n : Instance) (key : ObjectKey) : Bool :=
  n.room.appliedSegments.contains key || isOwnSegment (cfg.writerId i) key

/-- Another instance compacted. -/
def movedTo (n : Instance) (m : ManifestRecord) : Bool :=
  m.snapshotKey.isSome && decide (m.snapshotKey ≠ n.room.appliedSnapshotKey)

def refreshGet (st : Store ι) (n : Instance) : Option Instance :=
  if cfg.mode = .optimistic ∧ n.room.boot = .ready then
    some { n with room := { n.room with refreshes := n.room.refreshes ++ [.got st.tip] } }
  else none

/-- The manifest as a GET read it; an absent one leaves the cached manifest. -/
def adopt (st : Store ι) (n : Instance) (tag : Nat) : Instance :=
  if tag = 0 then n
  else { n with commit := { n.commit with
    cached := manifestAt st.versions tag, cachedTag := tag } }

def refreshAnswer (st : Store ι) (n : Instance) (call : Nat) : Option Instance :=
  match n.room.refreshes[call]? with
  | some (.got tag) =>
    let n := n.adopt st tag
    let m := n.commit.cached
    if n.movedTo m then some (n.withRefresh call (.loading m))
    else some (n.withRefresh call (.applying m false false m.segments))
  | _ => none

def refreshLoad (st : Store ι) (n : Instance) (call now : Nat) : Option Instance :=
  match n.room.refreshes[call]? with
  | some (.loading m) =>
    (m.snapshotKey.bind (snapshotOf st.objects)).map fun snap =>
      match (ObjectStorage.loadSnapshot cfg.sizes snap.1 now).run n.room.held with
      | .ok _ held =>
        Instance.withRefresh
          { n with room := { n.room with
            held := held.withMeta m.meta_
            log := snap.2
            appliedSnapshotKey := m.snapshotKey
            appliedSegments := [] } } call (.applying m true true m.segments)
      | .error _ held => (n.withHeld held).dropRefresh call
  | _ => none

def refreshSegment (st : Store ι) (n : Instance) (call now : Nat) : Option Instance :=
  match n.room.refreshes[call]? with
  | some (.applying m all moved (key :: todo)) =>
    if !all && n.skips cfg i key then some (n.withRefresh call (.applying m all moved todo))
    else
      (segmentLines st.objects key).map fun lines =>
        match (applyLines cfg.sizes lines now).run n.room.held with
        | .ok _ held =>
          Instance.withRefresh
            { n with room := { n.room with
              held := held
              log := n.room.log ++ lines
              appliedSegments := n.room.appliedSegments ++ [key] } } call
                (.applying m all true todo)
        | .error _ held => (n.withHeld held).dropRefresh call
  | _ => none

def refreshDone (n : Instance) (call : Nat) : Option Instance :=
  match n.room.refreshes[call]? with
  | some (.applying m all moved []) =>
    if !all ∧ moved then
      some ((n.withHeld (n.room.held.withMeta m.meta_)).dropRefresh call)
    else some (n.dropRefresh call)
  | _ => none

def refreshThrow (n : Instance) (call : Nat) : Option Instance :=
  if call < n.room.refreshes.length then some (n.dropRefresh call) else none

def refreshStep (st : Store ι) (n : Instance) : RefreshAct → Option Instance
  | .get => n.refreshGet cfg st
  | .answer call => n.refreshAnswer st call
  | .load call now => n.refreshLoad cfg st call now
  | .segment call now => n.refreshSegment cfg i st call now
  | .done call => n.refreshDone call
  | .throw call => n.refreshThrow call

end Instance

/-! ## The machine -/

inductive Act
  | room (a : RoomAct)
  | lease (a : LeaseAct)
  | loop (a : LoopAct)
  | commit (a : CommitAct)
  | refresh (a : RefreshAct)

/-- The lease requests of an instance; `boot` makes them last. -/
def Instance.leaseStep (st : Store ι) (n : Instance) (a : LeaseAct) :
    Option (Store ι × Instance) :=
  if n.room.boot = .replayed ∨ n.room.boot = .ready then
    (n.lease.perform cfg i st.leases a).map fun r =>
      ({ st with leases := r.1 }, { n with lease := r.2 })
  else none

def Instance.perform (st : Store ι) (n : Instance) : Act → Option (Store ι × Instance)
  | .room a => n.roomStep cfg st a
  | .lease a => n.leaseStep cfg i st a
  | .loop a => n.loopStep cfg i st a
  | .commit a => n.commitStep cfg i st a
  | .refresh a => (n.refreshStep cfg i st a).map (st, ·)

end Steps

abbrev FleetState (ι : Type) : Type :=
  Parties (Store ι) Instance ι

/-- The instances `ι` of one room. -/
def fleetMachine {ι : Type} [DecidableEq ι] (cfg : Config ι) : Machine (FleetState ι) (ι × Act) :=
  .ofParties .start (.start cfg.memory) fun i st n a => n.perform cfg i st a

end Fleet
end ObjectStorage
end Reflectdb
