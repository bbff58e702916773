import Reflectdb.ObjectStorage.ApplyOp
import Reflectdb.ObjectStorage.Fleet.Lease

/-!
# Instance — any number of object-storage instances over one room

An instance is one process: its `ManifestStore`, its `WalWriter` and the state of
`createObjectStorage`.  A crash is an instance that does nothing any more; a restart is another
instance, with the same writer id or not.
-/

namespace Reflectdb
namespace ObjectStorage

/-- What `loadMeta` and `setMeta` leave. -/
def Held.withMeta (h : Held) (pairs : Core.Record String) : Held :=
  h.onRoom fun st => { st with meta_ := pairs }

namespace Fleet

open Core Client Lib

/-! ## The parts of an instance -/

/-- Where the commit at the head of the chain stands. -/
inductive CommitPhase
  | waiting
  /-- `doCommit` has passed its checks, and may be acquiring the lease. -/
  | started
  | granted
  | issued (ifMatch : Nat) (next : ManifestRecord)
  | replied (next : ManifestRecord) (reply : Reply)
  /-- `adoptOwnCommit` reads the manifest back. -/
  | conflicted (next : ManifestRecord)
  /-- It has its answer, `none` if the GET failed. -/
  | found (next : ManifestRecord) (tag : Option Nat)
  /-- An optimistic commit lost to another, and reads the manifest. -/
  | reloading
  | reloaded (tag : Nat)
  deriving DecidableEq

/-- The manifest that a commit attempts, once it is built. -/
def CommitPhase.next : CommitPhase → Option ManifestRecord
  | .issued _ next | .replied next _ | .conflicted next | .found next _ => some next
  | _ => none

/-- The manifest part of a `ManifestStore`.  `resolved` lists the commits that returned; no step
reads it. -/
structure CommitSide where
  cached : ManifestRecord
  cachedTag : Nat
  chain : List Update
  phase : CommitPhase
  attempt : Nat
  resolved : List Update

/-- Where the flush loop stands. -/
inductive Task
  | idle
  /-- `ensureWriter` has returned. -/
  | ensured
  /-- The PUT of a segment. -/
  | segment (ref : WalSegmentRef) (batch : List Entry)
  /-- It waits for its commit. -/
  | commit
  /-- It is about to see whether a compaction is due. -/
  | maintain
  /-- The PUT of a snapshot, and the records that the snapshot was taken of. -/
  | snapshot (key : ObjectKey) (record : SnapshotRecord) (log : List Entry)
  | garbage
  | deleting (keys : List ObjectKey) (now : Nat)

/-- The object whose PUT is in flight. -/
def Task.uploads : Task → Option ObjectKey
  | .segment ref _ => some ref.key
  | .snapshot key _ _ => some key
  | _ => none

/-- The counters behind the names of segments and snapshots. -/
structure Sequences where
  seq : Nat
  seqEpoch : Option Nat
  snapshotSeq : Nat
  deriving DecidableEq, Repr

/-- A `WalWriter`.  No step reads `appended`, every record it took, or `resolved`, the records whose
promise it resolved or that a `flush()` covered. -/
structure LoopSide where
  buffer : List Entry
  names : Sequences
  task : Task
  terminal : Bool
  stopped : Bool
  appended : List Entry
  resolved : List Entry

inductive BootPhase
  | cold
  | loaded
  /-- Segments that are still to be applied. -/
  | applying (todo : List ObjectKey)
  | replayed
  | ready
  deriving DecidableEq, Repr

/-- A `refresh()`: it has read the manifest, it reads a snapshot, or it goes through the segments,
all of them or those not seen yet. -/
inductive Refresh
  | got (tag : Nat)
  | loading (m : ManifestRecord)
  | applying (m : ManifestRecord) (all moved : Bool) (todo : List ObjectKey)
  deriving DecidableEq

/-- The state of `createObjectStorage`.  No step reads `log`, the records that the memory reflects,
or what `boot` found: the tag of the manifest and the number of records appended by then. -/
structure RoomSide where
  boot : BootPhase
  closed : Bool
  held : Held
  appliedSegments : List ObjectKey
  appliedSnapshotKey : Option ObjectKey
  refreshes : List Refresh
  log : List Entry
  bootTag : Nat
  bootSerial : Nat

structure Instance where
  lease : LeaseSide
  commit : CommitSide
  loop : LoopSide
  room : RoomSide

namespace Instance

def start (memory : MemoryConfig) : Instance where
  lease := .start
  commit := ⟨emptyManifest, 0, [], .waiting, 0, []⟩
  loop := ⟨[], ⟨0, none, 0⟩, .idle, false, false, [], []⟩
  room := ⟨.cold, false, ⟨.empty memory, ⟨memory.maxTotalBytes, 0⟩⟩, [], none, [], [], 0, 0⟩

def withTask (n : Instance) (task : Task) : Instance :=
  { n with loop := { n.loop with task := task } }

def withPhase (n : Instance) (phase : CommitPhase) : Instance :=
  { n with commit := { n.commit with phase := phase } }

def withBoot (n : Instance) (boot : BootPhase) : Instance :=
  { n with room := { n.room with boot := boot } }

/-- Memory after a call, and the records that it reflects. -/
def withMemory (n : Instance) (held : Held) (log : List Entry) : Instance :=
  { n with room := { n.room with held := held, log := log } }

/-- Memory after a call that throws half-way, or that has no record. -/
def withHeld (n : Instance) (held : Held) : Instance :=
  { n with room := { n.room with held := held } }

/-- The loop queues a commit and waits for it. -/
def enqueue (n : Instance) (u : Update) : Instance :=
  { n with
    commit := { n.commit with chain := n.commit.chain ++ [u] }
    loop := { n.loop with task := .commit } }

/-- `fail`: the buffered records will never be written. -/
def failLoop (n : Instance) : Instance :=
  { n with loop := { n.loop with terminal := true, buffer := [], task := .idle } }

end Instance

/-! ## The memory -/

section Memory

variable (sizes : JsonSizes)

/-- One reading of the clock serves a call that runs without an await. -/
def applyLines (lines : List Entry) (now : Nat) : RoomM Unit :=
  applyRecords sizes (lines.map fun line => (now, line.record))

/-- What a record that is submitted does to memory; `applyOp` asks first whether both halves fit. -/
def mutation (record : WalRecord) (now : Nat) : RoomM Unit :=
  match record with
  | .apply m entry => do
    assertCanAdmitApply sizes m (some entry)
    applyBoth sizes m entry
  | record => applyRecord sizes record now

end Memory

section Steps

variable {ι : Type} (cfg : Config ι) (i : ι)

/-- The token of the names that an instance chooses. -/
def nameToken (epoch : Nat) : List Char :=
  if cfg.mode = .optimistic then cfg.writerId i else epochToken epoch

/-! ## Boot and close -/

inductive RoomAct
  /-- `manifest.load`. -/
  | load
  | loadSnapshot (now : Nat)
  | applySegment (now : Nat)
  | replayed
  /-- `boot` returns. -/
  | start
  /-- A GET of `boot` fails or finds no object, or `manifest.start` throws. -/
  | failBoot
  /-- `submit`, by `putRow`, `appendOp` or `applyOp`. -/
  | append (record : WalRecord) (now : Nat)
  /-- `reserveOps`; the record of the fresh ids is stamped with `stamp`. -/
  | reserve (opIds : List String) (sweptAt now stamp : Nat)
  /-- A `flush()` resolves. -/
  | flushed
  | close
  | stopWal
  | stop
  | dispose

namespace Instance

def load (st : Store ι) (n : Instance) : Option Instance :=
  if n.room.boot = .cold then
    let m := manifestAt st.versions st.tip
    some { n with
      commit := { n.commit with cached := m, cachedTag := st.tip }
      lease := n.lease.inherit m
      room := { n.room with
        boot := .loaded
        held := n.room.held.withMeta m.meta_
        bootTag := st.tip
        bootSerial := st.serial } }
  else none

def bootSnapshot (st : Store ι) (n : Instance) (now : Nat) : Option Instance :=
  if n.room.boot = .loaded then
    match n.commit.cached.snapshotKey with
    | none => some (n.withBoot (.applying n.commit.cached.segments))
    | some key =>
      (snapshotOf st.objects key).map fun snap =>
        match (ObjectStorage.loadSnapshot cfg.sizes snap.1 now).run n.room.held with
        | .ok _ held =>
          { n.withMemory held snap.2 with room := { (n.withMemory held snap.2).room with
            boot := .applying n.commit.cached.segments
            appliedSnapshotKey := some key } }
        | .error _ held => (n.withHeld held).withBoot .cold
  else none

def bootSegment (st : Store ι) (n : Instance) (now : Nat) : Option Instance :=
  match n.room.boot with
  | .applying (key :: todo) =>
    (segmentLines st.objects key).map fun lines =>
      match (applyLines cfg.sizes lines now).run n.room.held with
      | .ok _ held => (n.withMemory held (n.room.log ++ lines)).withBoot (.applying todo)
      | .error _ held => (n.withHeld held).withBoot .cold
  | _ => none

def replayed (n : Instance) : Option Instance :=
  match n.room.boot with
  | .applying [] =>
    some { n with room := { n.room with
      boot := .replayed, appliedSegments := n.commit.cached.segments } }
  | _ => none

def bootDone (n : Instance) : Option Instance :=
  if n.room.boot = .replayed ∧
      (cfg.mode = .optimistic ∨ cfg.leaseMode = .onWrite ∨ n.lease.acquired) then
    some (n.withBoot .ready)
  else none

/-- An `acquire` that succeeds is the last that `boot` waits for. -/
def failBoot (n : Instance) : Option Instance :=
  if n.room.boot ≠ .cold ∧ n.room.boot ≠ .ready ∧ !n.lease.acquired ∧ n.lease.calls = [] then
    some (n.withBoot .cold)
  else none

/-- `assertWritable`. -/
def writable (n : Instance) : Bool :=
  !n.loop.terminal && !n.loop.stopped

/-- The WAL buffers a record. -/
def buffered (st : Store ι) (n : Instance) (record : WalRecord) : Store ι × Instance :=
  ({ st with serial := st.serial + 1 },
    { n with loop := { n.loop with
        buffer := n.loop.buffer ++ [⟨st.serial, record⟩]
        appended := n.loop.appended ++ [⟨st.serial, record⟩] } })

/-- `submit`: the record is applied to memory and buffered in one go.  If memory refuses it, it is
not buffered. -/
def append (st : Store ι) (n : Instance) (record : WalRecord) (now : Nat) :
    Option (Store ι × Instance) :=
  if n.room.boot = .ready ∧ !n.room.closed ∧ n.writable then
    match (mutation cfg.sizes record now).run n.room.held with
    | .ok _ held =>
      some (Instance.buffered st (n.withMemory held (n.room.log ++ [⟨st.serial, record⟩])) record)
    | .error _ held => some (st, n.withHeld held)
  else none

/-- `reserveOps` and `persistReservations`, which is given up where the WAL refuses the record. -/
def reserve (st : Store ι) (n : Instance) (opIds : List String) (sweptAt now stamp : Nat) :
    Option (Store ι × Instance) :=
  if n.room.boot = .ready then
    match (reserveOps opIds sweptAt now).run n.room.held with
    | .ok fresh held =>
      if fresh ≠ [] ∧ n.writable then
        let record := WalRecord.reserve fresh stamp
        some (Instance.buffered st (n.withMemory held (n.room.log ++ [⟨st.serial, record⟩])) record)
      else some (st, n.withHeld held)
    | .error _ held => some (st, n.withHeld held)
  else none

def flushed (n : Instance) : Option Instance :=
  if n.room.boot = .ready ∧ !n.loop.terminal ∧ n.loop.buffer = [] then
    some { n with loop := { n.loop with resolved := n.loop.resolved ++ n.loop.appended } }
  else none

def close (n : Instance) : Option Instance :=
  if n.room.boot = .ready then some { n with room := { n.room with closed := true } } else none

/-- `wal.stop`; a flush that is under way goes on. -/
def stopWal (n : Instance) : Option Instance :=
  if n.room.closed then some { n with loop := { n.loop with stopped := true } } else none

/-- `manifest.stop`. -/
def stop (n : Instance) : Option Instance :=
  if n.loop.stopped then some { n with lease := { n.lease with stopped := true } } else none

/-- `state.dispose`. -/
def dispose (n : Instance) : Option Instance :=
  if n.lease.stopped then
    match ObjectStorage.reset.run n.room.held with
    | .ok _ held => some (n.withMemory held [])
    | .error _ held => some (n.withHeld held)
  else none

def roomStep (st : Store ι) (n : Instance) : RoomAct → Option (Store ι × Instance)
  | .load => (n.load st).map (st, ·)
  | .loadSnapshot now => (n.bootSnapshot cfg st now).map (st, ·)
  | .applySegment now => (n.bootSegment cfg st now).map (st, ·)
  | .replayed => n.replayed.map (st, ·)
  | .start => (n.bootDone cfg).map (st, ·)
  | .failBoot => n.failBoot.map (st, ·)
  | .append record now => n.append cfg st record now
  | .reserve opIds sweptAt now stamp => n.reserve st opIds sweptAt now stamp
  | .flushed => n.flushed.map (st, ·)
  | .close => n.close.map (st, ·)
  | .stopWal => n.stopWal.map (st, ·)
  | .stop => n.stop.map (st, ·)
  | .dispose => n.dispose.map (st, ·)

end Instance

/-! ## The flush loop -/

inductive LoopAct
  /-- `ensureWriter` returns. -/
  | ensure
  /-- `ensureWriter` throws `NotWriterError`. -/
  | fail
  /-- `flushOnce` names its segment. -/
  | flush
  | putSegment (outcome : Outcome)
  /-- `compactIfDue` finds too few segments. -/
  | skip
  | compact (now : Nat)
  | putSnapshot (now : Nat) (outcome : Outcome)
  | collect (now : Nat)
  /-- The store deletes some of the keys, all of them if the request succeeds. -/
  | delete (done : List ObjectKey) (ok : Bool)
  deriving DecidableEq

/-- The highest HLC of a batch, `""` if it has none. -/
def batchHlc (batch : List Entry) : Hlc :=
  batch.foldl (fun head line => max head (recordHlc line.record)) ""

/-- The rest of a batch that has `bytes` bytes so far. -/
def fillBatch (sizes : JsonSizes) (maxBytes : Nat) : Nat → List Entry → List Entry
  | _, [] => []
  | bytes, line :: rest =>
    let bytes := bytes + (sizes.record line.record + 1)
    if maxBytes < bytes then [] else line :: fillBatch sizes maxBytes bytes rest

/-- The records that a flush takes from the front of the buffer.  A record larger than `maxBytes`
still goes out on its own. -/
def takeBatch (sizes : JsonSizes) (maxBytes : Nat) : List Entry → List Entry
  | [] => []
  | line :: rest => line :: fillBatch sizes maxBytes (sizes.record line.record + 1) rest

/-- `encodeSegment(lines).length`. -/
def bodyBytes (batch : List Entry) : Nat :=
  (batch.map fun line => cfg.lineBytes line.record).sum + (batch.length - 1)

/-- Whether `compactIfDue` goes on. -/
def compactionDue (m : ManifestRecord) : Bool :=
  decide (cfg.afterSegments ≤ m.walSegs.length) ||
    decide (cfg.afterBytes ≤ (m.walSegs.map (·.bytes)).sum)

namespace Instance

def ensure (n : Instance) : Option Instance :=
  if n.room.boot = .ready ∧ !n.loop.terminal ∧ n.loop.buffer ≠ [] ∧
      (cfg.mode = .optimistic ∨ n.lease.held) then
    match n.loop.task with
    | .idle => some (n.withTask .ensured)
    | _ => none
  else none

def fail (n : Instance) : Option Instance :=
  if cfg.mode = .singleWriter ∧ (n.lease.fenced ∨ !n.lease.held) ∧ n.loop.buffer ≠ [] then
    match n.loop.task with
    | .idle => some n.failLoop
    | _ => none
  else none

/-- The epoch names the sequence, which starts over with a new one. -/
def nextSeq (n : Instance) : Nat :=
  if n.loop.names.seqEpoch = some n.lease.epoch then n.loop.names.seq else 0

/-- The records that the next segment will hold. -/
def nextBatch (n : Instance) : List Entry :=
  takeBatch cfg.sizes cfg.maxBytes n.loop.buffer

/-- The segment that `flushOnce` is about to upload. -/
def nextRef (n : Instance) : WalSegmentRef :=
  ⟨.wal (nameToken cfg i n.lease.epoch) n.nextSeq, n.lease.epoch, n.nextSeq,
    bodyBytes cfg (n.nextBatch cfg), batchHlc (n.nextBatch cfg)⟩

def nextSnapshot (n : Instance) : ObjectKey :=
  .snap (nameToken cfg i n.lease.epoch) n.loop.names.snapshotSeq

def flush (st : Store ι) (n : Instance) : Option (Store ι × Instance) :=
  match n.loop.task with
  | .ensured =>
    -- The sequence number is spent before the PUT.
    some ({ st with allocated := st.allocated ++ [((n.nextRef cfg i).key, i)] },
      { n with loop := { n.loop with
          names := { n.loop.names with seq := n.nextSeq + 1, seqEpoch := some n.lease.epoch }
          task := .segment (n.nextRef cfg i) (n.nextBatch cfg) } })
  | _ => none

def putSegment (st : Store ι) (n : Instance) (outcome : Outcome) : Option (Store ι × Instance) :=
  match n.loop.task with
  | .segment ref batch =>
    match outcome with
    | .ok => some (st.upload ref.key (.segment batch), n.enqueue (.append ref batch))
    | .lost => some (st.upload ref.key (.segment batch), n.withTask .idle)
    | .failed => some (st, n.withTask .idle)
    | _ => none
  | _ => none

def skip (n : Instance) : Option Instance :=
  match n.loop.task with
  | .maintain => if compactionDue cfg n.commit.cached then none else some (n.withTask .garbage)
  | _ => none

def compact (st : Store ι) (n : Instance) (now : Nat) : Option (Store ι × Instance) :=
  match n.loop.task with
  | .maintain =>
    if compactionDue cfg n.commit.cached then
      some ({ st with allocated := st.allocated ++ [(n.nextSnapshot cfg i, i)] },
        { n with loop := { n.loop with
            names := { n.loop.names with snapshotSeq := n.loop.names.snapshotSeq + 1 }
            task :=
              .snapshot (n.nextSnapshot cfg i) (n.room.held.room.toSnapshot now) n.room.log } })
    else none
  | _ => none

def putSnapshot (st : Store ι) (n : Instance) (now : Nat) (outcome : Outcome) :
    Option (Store ι × Instance) :=
  match n.loop.task with
  | .snapshot key record log =>
    match outcome with
    | .ok =>
      some (st.upload key (.snapshot record log),
        n.enqueue (.compact key record.hlc (now + cfg.gcGraceMs) log))
    -- Failing to compact must not fail the writes that committed.
    | .lost => some (st.upload key (.snapshot record log), n.withTask .idle)
    | .failed => some (st, n.withTask .idle)
    | _ => none
  | _ => none

def collect (n : Instance) (now : Nat) : Option Instance :=
  match n.loop.task with
  | .garbage =>
    if n.commit.cached.due now = [] then some (n.withTask .idle)
    else if n.commit.cached.deletable now = [] then some (n.enqueue (.collect now))
    else some (n.withTask (.deleting (n.commit.cached.deletable now) now))
  | _ => none

def delete (st : Store ι) (n : Instance) (done : List ObjectKey) (ok : Bool) :
    Option (Store ι × Instance) :=
  match n.loop.task with
  | .deleting keys now =>
    if done ⊆ keys ∧ (ok → keys ⊆ done) then
      some (st.remove done, if ok then n.enqueue (.collect now) else n.withTask .idle)
    else none
  | _ => none

def loopStep (st : Store ι) (n : Instance) : LoopAct → Option (Store ι × Instance)
  | .ensure => (n.ensure cfg).map (st, ·)
  | .fail => (n.fail cfg).map (st, ·)
  | .flush => n.flush cfg i st
  | .putSegment outcome => n.putSegment st outcome
  | .skip => (n.skip cfg).map (st, ·)
  | .compact now => n.compact cfg i st now
  | .putSnapshot now outcome => n.putSnapshot cfg st now outcome
  | .collect now => (n.collect now).map (st, ·)
  | .delete done ok => n.delete st done ok

end Instance

end Steps

end Fleet
end ObjectStorage
end Reflectdb
