import Mathlib.Logic.Function.Basic
import Reflectdb.Lib.Parties
import Reflectdb.Lib.Register
import Reflectdb.ObjectStorage.Fleet.Manifest

/-!
# Lease — the store of a room, and the lease of an instance

The store tags a version of `_lease` and of `_manifest` with the number of its PUT.  A request is
two events, what the store does and the answer, so that whatever else may happen comes between them.
Clock readings are arguments of the steps, so that no two clocks need agree.
-/

namespace Reflectdb
namespace ObjectStorage
namespace Fleet

open Core Client Lib

inductive LeaseMode
  | always
  | onWrite
  deriving DecidableEq, Repr

/-- The configuration of the instances of a room, which differ in their writer ids.  `lineBytes` is
the length of a record's line as it is stored. -/
structure Config (ι : Type) where
  mode : ConcurrencyMode
  leaseMode : LeaseMode
  ttlMs : Nat
  gcGraceMs : Nat
  afterSegments : Nat
  afterBytes : Nat
  maxBytes : Nat
  memory : MemoryConfig
  sizes : JsonSizes
  lineBytes : WalRecord → Nat
  writerId : ι → WriterId

/-! ## The store -/

structure StoredLease (ι : Type) where
  record : LeaseRecord
  author : ι

/-- A version of the manifest.  The instance, its update and the records that a boot of the version
reflects are not part of the object. -/
structure Version (ι : Type) where
  record : ManifestRecord
  author : ι
  update : Update
  log : List Entry

/-- `puts` and `allocated` are the segments and snapshots that were uploaded and the names that were
chosen for them, `serial` the number of records appended so far; no step reads the first two. -/
structure Store (ι : Type) where
  leases : List (StoredLease ι)
  versions : List (Version ι)
  objects : Objects
  puts : List (ObjectKey × ObjectBody)
  allocated : List (ObjectKey × ι)
  serial : Nat

section Store

variable {ι : Type}

abbrev leaseAt (leases : List (StoredLease ι)) : Nat → LeaseRecord :=
  tagged ⟨[], 0, 0⟩ StoredLease.record leases

abbrev manifestAt (versions : List (Version ι)) : Nat → ManifestRecord :=
  tagged emptyManifest Version.record versions

/-- The records that a boot of the version reflects. -/
abbrev logAt (versions : List (Version ι)) : Nat → List Entry :=
  tagged [] Version.log versions

namespace Store

def start : Store ι :=
  ⟨[], [], fun _ => none, [], [], 0⟩

/-- The tag of the manifest that the store holds. -/
abbrev tip (st : Store ι) : Nat :=
  st.versions.length

/-- An unconditional PUT that took effect. -/
def upload (st : Store ι) (key : ObjectKey) (body : ObjectBody) : Store ι :=
  { st with objects := Function.update st.objects key (some body), puts := st.puts ++
    [(key, body)] }

def remove (st : Store ι) (keys : List ObjectKey) : Store ι :=
  { st with objects := fun key => if keys.contains key then none else st.objects key }

/-- The commit `u` of `i` as the next version of the manifest. -/
def publish (st : Store ι) (i : ι) (next : ManifestRecord) (u : Update) : Store ι :=
  { st with versions := st.versions ++ [⟨next, i, u, u.extend (logAt st.versions st.tip)⟩] }

end Store

end Store

/-- How a conditional PUT ends. -/
inductive Outcome
  | ok
  /-- 412. -/
  | conflict
  /-- An error without an effect. -/
  | failed
  /-- It takes effect, and then an error. -/
  | lost
  /-- It takes effect, and the driver's own retry of it meets a 412. -/
  | retried
  deriving DecidableEq, Repr

/-- What the caller of a conditional PUT learns. -/
inductive Reply
  | ok (tag : Nat)
  | conflict
  | failed
  deriving DecidableEq, Repr

/-- Whether the store writes, and what it answers; `none` if the PUT cannot end so. -/
def Outcome.settle (outcome : Outcome) (ifMatch tip : Nat) : Option (Bool × Reply) :=
  match outcome with
  | .ok => if ifMatch = tip then some (true, .ok (tip + 1)) else none
  | .conflict => if ifMatch ≠ tip then some (false, .conflict) else none
  | .failed => some (false, .failed)
  | .lost => if ifMatch = tip then some (true, .failed) else none
  | .retried => if ifMatch = tip then some (true, .conflict) else none

/-! ## The lease -/

inductive LeaseKind
  | acquire
  | renew
  | release
  deriving DecidableEq, Repr

/-- A request on the lease object in flight; `got` is an `acquire` that has read the lease. -/
inductive LeaseCall
  | got (tag : Nat) (record : LeaseRecord)
  | issued (kind : LeaseKind) (ifMatch : Nat) (next : LeaseRecord)
  | replied (kind : LeaseKind) (next : LeaseRecord) (reply : Reply)
  deriving DecidableEq, Repr

/-- The lease part of a `ManifestStore`.  The flush loop and a commit may each have an `acquire` in
flight.  No step reads `acquired`, whether one has succeeded. -/
structure LeaseSide where
  tag : Nat
  epoch : Nat
  expiresAt : Nat
  held : Bool
  wroteSinceRenew : Bool
  fenced : Bool
  stopped : Bool
  acquired : Bool
  calls : List LeaseCall

inductive LeaseAct
  /-- `acquire` reads the lease. -/
  | get
  /-- `acquire` gets the answer, and issues its PUT or throws. -/
  | decide (call now : Nat)
  /-- The store handles a PUT. -/
  | put (call : Nat) (outcome : Outcome)
  | answer (call now : Nat)
  /-- `onRenewTick`. -/
  | tick (now : Nat)
  | release
  deriving DecidableEq, Repr

namespace LeaseSide

variable {ι : Type}

def start : LeaseSide :=
  ⟨0, 0, 0, false, false, false, false, false, []⟩

def fence (l : LeaseSide) : LeaseSide :=
  if l.fenced then l else { l with fenced := true, held := false }

/-- A reader of the manifest inherits its epoch. -/
def inherit (l : LeaseSide) (m : ManifestRecord) : LeaseSide :=
  { l with epoch := max l.epoch m.epoch }

/-- `acquire` matches the stored owner, and asks for a lease of this process. -/
def ours (writerId : WriterId) (l : LeaseSide) (record : LeaseRecord) (now : Nat) : Prop :=
  record.owner = writerId ∧ now < record.expiresAt ∧ l.tag ≠ 0

instance (writerId : WriterId) (l : LeaseSide) (record : LeaseRecord) (now : Nat) :
    Decidable (l.ours writerId record now) :=
  inferInstanceAs (Decidable (_ ∧ _))

/-- The epoch that `acquire` asks for. -/
def nextEpoch (writerId : WriterId) (l : LeaseSide) (record : LeaseRecord) (now : Nat) : Nat :=
  if l.ours writerId record now then record.epoch else max record.epoch l.epoch + 1

/-- The request of a lease that `acquire` makes. -/
def request (cfg : Config ι) (i : ι) (l : LeaseSide) (record : LeaseRecord) (now : Nat) :
    LeaseRecord :=
  ⟨cfg.writerId i, l.nextEpoch (cfg.writerId i) record now, now + cfg.ttlMs⟩

def done (l : LeaseSide) (call : Nat) : LeaseSide :=
  { l with calls := l.calls.eraseIdx call }

/-- What the caller of a PUT does with its answer. -/
def answered (l : LeaseSide) (next : LeaseRecord) (now : Nat) : LeaseKind → Reply → LeaseSide
  | .acquire, .ok tag =>
    { l with
      tag := tag
      epoch := next.epoch
      expiresAt := next.expiresAt
      held := true
      wroteSinceRenew := false
      acquired := true }
  | .acquire, _ => l
  | .renew, .ok tag => { l with tag := tag, expiresAt := next.expiresAt, wroteSinceRenew := false }
  | .renew, .conflict => l.fence
  -- Ownership stops being provable when the lease is over.
  | .renew, .failed => if l.expiresAt ≤ now then l.fence else l
  | .release, .failed => l
  | .release, _ => { l with tag := 0 }

def get (cfg : Config ι) (leases : List (StoredLease ι)) (l : LeaseSide) : Option LeaseSide :=
  if cfg.mode = .singleWriter ∧ !l.held ∧ !l.fenced then
    some { l with calls := l.calls ++ [.got leases.length (leaseAt leases leases.length)] }
  else none

def decide (cfg : Config ι) (i : ι) (l : LeaseSide) (call now : Nat) : Option LeaseSide :=
  match l.calls[call]? with
  | some (.got tag record) =>
    if tag ≠ 0 ∧ record.owner ≠ cfg.writerId i ∧ now < record.expiresAt then
      -- `NotWriterError`: another writer holds the lease.
      some (l.done call)
    else
      some { l with calls := l.calls.set call (.issued .acquire tag (l.request cfg i record now)) }
  | _ => none

def put (i : ι) (leases : List (StoredLease ι)) (l : LeaseSide) (call : Nat) (outcome : Outcome) :
    Option (List (StoredLease ι) × LeaseSide) :=
  match l.calls[call]? with
  | some (.issued kind ifMatch next) =>
    (outcome.settle ifMatch leases.length).map fun r =>
      (if r.1 then leases ++ [⟨next, i⟩] else leases,
        { l with calls := l.calls.set call (.replied kind next r.2) })
  | _ => none

def answer (l : LeaseSide) (call now : Nat) : Option LeaseSide :=
  match l.calls[call]? with
  | some (.replied kind next reply) => some ((l.done call).answered next now kind reply)
  | _ => none

/-- An idle room lets its lease lapse. -/
def tick (cfg : Config ι) (i : ι) (l : LeaseSide) (now : Nat) : Option LeaseSide :=
  if l.held ∧ !l.fenced ∧ !l.stopped then
    if cfg.leaseMode = .onWrite ∧ !l.wroteSinceRenew then some { l with held := false }
    else
      some { l with calls :=
        l.calls ++ [.issued .renew l.tag ⟨cfg.writerId i, l.epoch, now + cfg.ttlMs⟩] }
  else none

/-- The lease is given up by an unowned record, not by a delete. -/
def release (l : LeaseSide) : Option LeaseSide :=
  if l.stopped ∧ l.held ∧ l.tag ≠ 0 then
    some { l with held := false, calls := l.calls ++ [.issued .release l.tag ⟨[], l.epoch, 0⟩] }
  else none

def perform (cfg : Config ι) (i : ι) (leases : List (StoredLease ι)) (l : LeaseSide) :
    LeaseAct → Option (List (StoredLease ι) × LeaseSide)
  | .get => (l.get cfg leases).map (leases, ·)
  | .decide call now => (l.decide cfg i call now).map (leases, ·)
  | .put call outcome => l.put i leases call outcome
  | .answer call now => (l.answer call now).map (leases, ·)
  | .tick now => (l.tick cfg i now).map (leases, ·)
  | .release => l.release.map (leases, ·)

end LeaseSide

end Fleet
end ObjectStorage
end Reflectdb
