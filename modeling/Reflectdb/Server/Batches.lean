import Reflectdb.Server.ExactlyOnce

/-!
# Batches — all ops of a batch are applied, or none

A batch is created in one piece and pushed in one message.  The server applies its ops one by one,
and once it has rejected one of them it rejects those that follow: nothing takes back what an
earlier op of the batch has written.  Beside the server the system carries the ops whose `mutate`
callback has run, and those that the server rejected for a reason of their own.
-/

namespace Reflectdb
namespace Server

open Core Client

/-! ## Runs -/

structure BatchState where
  ops : OpState
  /-- No step reads these two. -/
  mutated : List ClientOp
  refused : List ClientOp

inductive BatchEvent
  /-- `insert`, `update`, `delete` or `batch` of a client. -/
  | create (client : Nat) (ops : List ClientOp)
  /-- Anything else. -/
  | op (event : OpEvent)

/-- One op without a batch, or the ops of a batch; batch ids are random UUIDs. -/
def FormsBatch (created ops : List ClientOp) : Prop :=
  (∀ op ∈ ops, op.batchId = none) ∧ ops.length = 1 ∨
    ∀ op ∈ ops, op.batch.isSome ∧ (∀ op' ∈ ops, op'.batchId = op.batchId) ∧
      ∀ old ∈ created, old.batchId ≠ op.batchId

instance (created ops : List ClientOp) : Decidable (FormsBatch created ops) :=
  inferInstanceAs (Decidable (_ ∨ _))

/-- The op that a call is attempting. -/
def Phase.attempted : Phase → Option ClientOp
  | .attempting op _ => some op
  | _ => none

def OpState.attempted (s : OpState) (r : Nat) : Option ClientOp :=
  (s.runs r).bind (·.phase.attempted)

/-- The op whose `mutate` callback runs. -/
def OpState.mutates (s : OpState) : OpEvent → Option ClientOp
  | .attempt r (.write _ _) => s.attempted r
  | _ => none

/-- The op at the head of the loop, if its batch has not failed and its query takes no writes. -/
def OpState.refusedHead (cfg : OpConfig) (s : OpState) (r : Nat) : Option ClientOp :=
  match s.runs r with
  | none => none
  | some run =>
    match run.phase, run.ops with
    | .looping, op :: _ =>
      if op.batch.bind run.failedBatchIds.lookup = none ∧ cfg.reservable op = none then some op
      else none
    | _, _ => none

/-- The attempt is the last one. -/
def Phase.lastAttempt : Phase → Option ClientOp
  | .attempting op attempt => if attempt + 1 < MAX_WRITE_ATTEMPTS then none else some op
  | _ => none

/-- The op that is rejected, but not for its batch. -/
def OpState.refuses (cfg : OpConfig) (s : OpState) : OpEvent → Option ClientOp
  | .next r => s.refusedHead cfg r
  | .attempt r (.reject _) => s.attempted r
  | .attempt r (.write _ .lost) => (s.runs r).bind (·.phase.lastAttempt)
  | _ => none

def batchStep (cfg : OpConfig) (s : BatchState) : BatchEvent → Option BatchState
  | .create c ops =>
    if FormsBatch s.ops.created ops then
      (ops.foldlM (fun s op => stepCreate s c op) s.ops).map fun ops => { s with ops := ops }
    else none
  | .op (.create _ _) => none
  | .op e =>
    (opStep cfg s.ops e).map fun ops =>
      ⟨ops, s.mutated ++ (s.ops.mutates e).toList, s.refused ++ (s.ops.refuses cfg e).toList⟩

theorem batchStep_op {cfg : OpConfig} {s : BatchState} {e : OpEvent}
    (hcreate : ∀ c op, e ≠ .create c op) :
    batchStep cfg s (.op e) = (opStep cfg s.ops e).map fun ops =>
      ⟨ops, s.mutated ++ (s.ops.mutates e).toList, s.refused ++ (s.ops.refuses cfg e).toList⟩ := by
  cases e <;> first | rfl | exact absurd rfl (hcreate _ _)

def batchMachine (cfg : OpConfig) : Lib.Machine BatchState BatchEvent :=
  ⟨⟨.start, [], []⟩, batchStep cfg⟩

/-! ## The property -/

/-- The op's effect is in the sync store, or in the eager buffer on its way there. -/
def OpState.stored (s : OpState) (op : ClientOp) : Prop :=
  op ∈ s.storage.log ∨ op ∈ s.eagerBuffer

/-- Accepted, and applied in the user's database and in the sync store. -/
def BatchState.applied (s : BatchState) (op : ClientOp) : Prop :=
  s.ops.fate op.id = .accepted ∧ op ∈ s.mutated ∧ s.ops.stored op

def BatchState.untouched (s : BatchState) (op : ClientOp) : Prop :=
  op ∉ s.ops.acked ∧ op ∉ s.mutated ∧ ¬ s.ops.stored op

/-- The ops of a batch. -/
def BatchState.batchOps (s : BatchState) (b : String) : List ClientOp :=
  s.ops.created.filter (·.batch = some b)

/-- No op of the batch is pending at a client any more. -/
def BatchState.settled (s : BatchState) (b : String) : Prop :=
  ∀ op ∈ s.batchOps b, ∀ c, op ∉ (s.ops.clients c).pendingOps

/-- All or none of each batch: of one that is settled, and also of one of which an op has been
rejected. -/
structure BatchAtomic (s : BatchState) : Prop where
  settled : ∀ b, s.settled b →
    (∀ op ∈ s.batchOps b, s.applied op) ∨ ∀ op ∈ s.batchOps b, s.untouched op
  refused : ∀ op ∈ s.refused, ∀ b, op.batch = some b → ∀ op' ∈ s.batchOps b, s.untouched op'

/-! ## The condition -/

/-- An op of a batch that is taken for a replay was accepted by the call that reserved its id. -/
def BatchReplayAccepted (cfg : OpConfig) (s : OpState) : OpEvent → Prop
  | .next r => ∀ op ∈ s.replayed cfg r, op.batch.isSome → s.fate op.id = .accepted
  | _ => True

instance (cfg : OpConfig) (s : OpState) : DecidablePred (BatchReplayAccepted cfg s)
  | .next _ => inferInstanceAs (Decidable (∀ op ∈ _, _ → _))
  | .create .. | .clearInFlight .. | .push .. | .send .. | .receive .. | .reserve .. | .flush ..
  | .attempt .. | .settle .. | .answer .. | .deliver .. => inferInstanceAs (Decidable True)

/-- When an op of a batch is rejected, no `mutate` callback of the batch has run. -/
def RefusesFirst (cfg : OpConfig) (s : BatchState) (e : OpEvent) : Prop :=
  ∀ op ∈ s.ops.refuses cfg e, op.batch.isSome →
    ∀ op' ∈ s.mutated ++ (s.ops.mutates e).toList, op'.batch ≠ op.batch

instance (cfg : OpConfig) (s : BatchState) (e : OpEvent) : Decidable (RefusesFirst cfg s e) :=
  inferInstanceAs (Decidable (∀ op ∈ s.ops.refuses cfg e, _ → _))

/-- The op that is neither in the eager buffer, which is full, nor written in place of that. -/
def OpState.loses (s : OpState) : OpEvent → Option ClientOp
  | .attempt r (.write _ (.overflow false)) => s.attempted r
  | _ => none

def BatchGuard (cfg : OpConfig) (s : BatchState) : BatchEvent → Prop
  | .create _ _ => True
  | .op e =>
    BatchReplayAccepted cfg s.ops e ∧ RefusesFirst cfg s e ∧ ∀ op ∈ s.ops.loses e, op.batch = none

instance (cfg : OpConfig) (s : BatchState) : DecidablePred (BatchGuard cfg s)
  | .create _ _ => inferInstanceAs (Decidable True)
  | .op e =>
    inferInstanceAs (Decidable (_ ∧ _ ∧ ∀ op ∈ s.ops.loses e, _))

end Server
end Reflectdb
