import Reflectdb.Lib.Machine
import Reflectdb.ObjectStorage.Drivers

/-!
# Driver runs — one sequence of calls on both object drivers

A conditional put names an earlier call of the run and passes each driver the etag that this driver
returned there.
-/

namespace Reflectdb
namespace ObjectStorage

open Lib

/-! ## Model -/

/-- `ifMatch` is the place in the run of the call whose etag is passed. -/
inductive DriverCall
  | get (key : Text)
  | put (key : Text) (body : Body) (ifMatch : Option Nat) (ifNoneMatch : Bool)
  | list (pre : Text)
  | delete (keys : List Text)

inductive Answer
  | record (object : Option ObjectRecord)
  | etag (etag : Text)
  | entries (entries : List ObjectListEntry)
  | done
  | error (e : DriverError)
  deriving DecidableEq

/-- What a caller may compare between the drivers: everything but the etags. -/
def Answer.seen : Answer → Answer
  | .record object => .record (object.map fun r => { r with etag := [] })
  | .etag _ => .etag []
  | answer => answer

/-- A call with the answers of both drivers. -/
structure DriverStep where
  call : DriverCall
  memory : Answer
  filesystem : Answer

/-- A returned etag: for which key, with which bytes, and what each driver returned. -/
structure Returned where
  key : Text
  body : Body
  memory : Text
  filesystem : Text

def DriverStep.returned (h : DriverStep) : Option Returned :=
  match h.call, h.memory, h.filesystem with
  | .get key, .record (some r), .record (some r') => some ⟨key, r.body, r.etag, r'.etag⟩
  | .put key body _ _, .etag e, .etag e' => some ⟨key, body, e, e'⟩
  | _, _, _ => none

structure DriverRun where
  memory : MemoryDriver
  filesystem : FilesystemDriver
  history : List DriverStep

def Answer.ofPut : Except DriverError Text → Answer
  | .ok returned => .etag returned
  | .error e => .error e

def MemoryDriver.answer (m : MemoryDriver) (call : DriverCall) (ifMatch : Option Text) :
    Answer × MemoryDriver :=
  match call with
  | .get key => (.record (m.get key), m)
  | .put key body _ ifNoneMatch =>
    let written := m.put key body ⟨ifMatch, ifNoneMatch⟩
    (.ofPut written.1, written.2)
  | .list pre => (.entries (m.list pre), m)
  | .delete keys => (.done, m.delete keys)

def FilesystemDriver.answer (m : FilesystemDriver) (call : DriverCall) (ifMatch : Option Text)
    (random : Text) : Answer × FilesystemDriver :=
  match call with
  | .get key =>
    match m.get key with
    | .ok object => (.record object, m)
    | .error e => (.error e, m)
  | .put key body _ ifNoneMatch =>
    let written := m.put key body ⟨ifMatch, ifNoneMatch⟩ random
    (.ofPut written.1, written.2)
  | .list pre =>
    match m.list pre with
    | .ok entries => (.entries entries, m)
    | .error e => (.error e, m)
  | .delete keys =>
    match FilesystemDriver.delete keys m with
    | (.ok (), m) => (.done, m)
    | (.error e, m) => (.error e, m)

/-- The etags that a call passes to the drivers; nothing if its place returned none. -/
def DriverRun.etags (s : DriverRun) : DriverCall → Option (Option Text × Option Text)
  | .put _ _ (some i) _ =>
    (s.history[i]?.bind (·.returned)).map fun r => (some r.memory, some r.filesystem)
  | _ => some (none, none)

structure DriverEvent where
  call : DriverCall
  random : Text

def driverMachine : Machine DriverRun DriverEvent where
  init := ⟨⟨∅, 0⟩, ⟨.empty, 0⟩, []⟩
  step s e := (s.etags e.call).map fun etags =>
    let memory := s.memory.answer e.call etags.1
    let filesystem := s.filesystem.answer e.call etags.2 e.random
    ⟨memory.2, filesystem.2, s.history ++ [⟨e.call, memory.1, filesystem.1⟩]⟩

/-! ## What is asked of the calls -/

/-- Keys that the filesystem driver accepts, none of which is a directory of another. -/
structure Keyspace where
  keys : Text → Prop
  accepted : ∀ {key}, keys key → keyOk key = true
  no_temp : ∀ {key}, keys key → ∀ segment ∈ segments key, startsWithTemp segment = false
  prefix_free : ∀ {key key'}, keys key → keys key' → segments key <+: segments key' → key = key'

/-- The bytes that a call puts under a key, or is to put there. -/
def DriverCall.bodyFor (key : Text) : DriverCall → Option Body
  | .put key' body _ _ => if key' = key then some body else none
  | _ => none

/-- The calls are on the keys, and no two bodies under one key have one etag. -/
def OnKeys (K : Keyspace) (s : DriverRun) (e : DriverEvent) : Prop :=
  match e.call with
  | .get key => K.keys key
  | .put key body _ _ =>
    K.keys key ∧ ∀ h ∈ s.history, ∀ body' ∈ h.call.bodyFor key,
      contentEtag body' = contentEtag body → body' = body
  | .list _ => True
  | .delete keys => ∀ key ∈ keys, K.keys key

/-- If the passed etag is not the one that the memory driver holds, then the key does not hold the
same bytes again, nor, where it was returned for another key, bytes of the same content etag; the
filesystem driver accepts the listed prefix, and what stands before its last slash has no empty
segment. -/
def InKind (s : DriverRun) (call : DriverCall) : Prop :=
  match call with
  | .put key _ (some i) _ =>
    ∀ r ∈ s.history[i]?.bind (·.returned), ∀ object ∈ s.memory.get key, object.etag ≠ r.memory →
      object.body ≠ r.body ∧ (r.key ≠ key → contentEtag object.body ≠ contentEtag r.body)
  | .list pre => prefixOk pre = true ∧ ∀ segment ∈ (segments pre).dropLast, segment ≠ []
  | _ => True

def DriverGuard (K : Keyspace) (s : DriverRun) (e : DriverEvent) : Prop :=
  OnKeys K s e ∧ InKind s e.call

instance (K : Keyspace) [DecidablePred K.keys] (s : DriverRun) (e : DriverEvent) :
    Decidable (OnKeys K s e) :=
  match e with
  | ⟨.get key, _⟩ => inferInstanceAs (Decidable (K.keys key))
  | ⟨.put _ _ _ _, _⟩ => inferInstanceAs (Decidable (_ ∧ _))
  | ⟨.list _, _⟩ => inferInstanceAs (Decidable True)
  | ⟨.delete keys, _⟩ => inferInstanceAs (Decidable (∀ key ∈ keys, K.keys key))

instance (s : DriverRun) (call : DriverCall) : Decidable (InKind s call) :=
  match call with
  | .put key _ (some i) _ => inferInstanceAs
      (Decidable (∀ r ∈ s.history[i]?.bind (·.returned), ∀ object ∈ s.memory.get key, _ → _))
  | .put _ _ none _ => inferInstanceAs (Decidable True)
  | .list _ => inferInstanceAs (Decidable (_ ∧ _))
  | .get _ => inferInstanceAs (Decidable True)
  | .delete _ => inferInstanceAs (Decidable True)

instance (K : Keyspace) [DecidablePred K.keys] (s : DriverRun) (e : DriverEvent) :
    Decidable (DriverGuard K s e) :=
  inferInstanceAs (Decidable (_ ∧ _))

/-- All answers are the same, but for the etags. -/
def SameAnswers (s : DriverRun) : Prop :=
  ∀ h ∈ s.history, h.memory.seen = h.filesystem.seen

instance (s : DriverRun) : Decidable (SameAnswers s) :=
  inferInstanceAs (Decidable (∀ h ∈ s.history, h.memory.seen = h.filesystem.seen))

end ObjectStorage
end Reflectdb
