import Mathlib.Data.List.AList

/-!
# Core types — JSON values, records, client ops and error reasons

The shapes of `src/core/types.ts` that the server and the client share.
-/

namespace Reflectdb
namespace Core

/-! ## JSON values -/

mutual

/-- A JSON value.  The fields of an object are kept in one fixed order, so that two objects with
the same fields are the same value. -/
inductive Json where
  | null
  | bool (b : Bool)
  | num (n : Int)
  | str (s : String)
  | arr (elems : JsonArr)
  | obj (fields : JsonObj)
  deriving DecidableEq

inductive JsonArr where
  | nil
  | cons (x : Json) (xs : JsonArr)
  deriving DecidableEq

inductive JsonObj where
  | nil
  | cons (key : String) (x : Json) (fs : JsonObj)
  deriving DecidableEq

end

instance : Inhabited Json := ⟨.null⟩

/-- `Record<string, V>`. -/
abbrev Record (V : Type) : Type :=
  AList fun _ : String => V

/-! ## Client ops -/

inductive OpType
  | insert
  | update
  | delete
  deriving DecidableEq, Repr

/-- One op as the client creates it and sends it in an `ops` message. -/
structure ClientOp where
  id : String
  table : String
  op : OpType
  rowId : String
  payload : Option (Record Json)
  hlc : String
  batchId : Option String
  deriving DecidableEq

/-- The batch of an op, if it has one: `if (op.batchId)` is false for the empty string too. -/
def ClientOp.batch (op : ClientOp) : Option String :=
  op.batchId.filter (· ≠ "")

theorem ClientOp.batchId_of_batch {op : ClientOp} {b : String} (h : op.batch = some b) :
    op.batchId = some b :=
  (Option.filter_eq_some_iff.1 h).1

theorem ClientOp.batch_congr {op op' : ClientOp} (h : op.batchId = op'.batchId) :
    op.batch = op'.batch := by
  rw [batch, batch, h]

/-- Ops of one batch carry the same id. -/
theorem ClientOp.batchId_congr {op op' : ClientOp} (hsome : op.batch.isSome)
    (h : op.batch = op'.batch) : op.batchId = op'.batchId := by
  rcases Option.isSome_iff_exists.1 hsome with ⟨b, hb⟩
  rw [batchId_of_batch hb, batchId_of_batch (h.symm.trans hb)]

inductive ErrorReason
  | outsideShape
  | readonlyQuery
  | rateLimited
  | bufferFull
  | serverConflict
  | customConflict
  | mergeStale
  | clockDrift
  | replay
  | batchTooLarge
  | schemaOutdated
  | authRevoked
  | compacted
  | mutationRejected
  | serverError
  | unknownQuery
  deriving DecidableEq, Repr

def MAX_BATCH_SIZE : Nat := 100

end Core
end Reflectdb
