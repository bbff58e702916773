import Mathlib.Data.Rat.Floor
import Reflectdb.Lib.Leases
import Reflectdb.Lib.Text

/-!
# Presence store — a service's shared entries, in a map of one process and in a Postgres table

Both stores answer a write from the row under its key and the number of live rows in its room.  Rows
that have expired stay until a sweep, and count as rows that are there.
-/

namespace Reflectdb
namespace Presence

open Lib

variable {δ : Type}

/-! ## Rows -/

/-- A text that a column can hold. -/
structure Name where
  text : Text
  no_nul : text.contains 0 = false
  deriving DecidableEq

structure EntryKey where
  projectId : Name
  room : Name
  channel : Name
  clientId : Name
  deriving DecidableEq

/-- A row of the map, or of the table; `τ` is the type of its expiry. -/
structure Row (τ δ : Type) extends EntryKey where
  data : δ
  identity : Option δ
  updatedAt : Int
  expiresAt : τ

structure WriteRequest (δ : Type) extends EntryKey where
  data : δ
  identity : Option δ
  ttlMs : ℚ
  maxEntriesPerRoom : Nat
  minIntervalMs : ℚ

inductive WriteOutcome
  | ok
  | rateLimited
  | roomFull
  deriving DecidableEq

structure StoredEntry (δ : Type) where
  clientId : Name
  channel : Name
  data : δ
  identity : Option δ
  updatedAt : Int

def Row.storedEntry {τ : Type} (row : Row τ δ) : StoredEntry δ :=
  ⟨row.clientId, row.channel, row.data, row.identity, row.updatedAt⟩

/-- What `remove` drops: one channel that a client holds, or everything it holds. -/
def removes (projectId room clientId : Name) (channel : Option Name) (k : EntryKey) : Bool :=
  k.projectId = projectId && k.room = room && k.clientId = clientId &&
    channel.all fun c => k.channel = c

/-! ## Memory -/

namespace Memory

/-- The key in the map. -/
def keyOf (k : EntryKey) : Text :=
  k.projectId.text ++ 0 :: (k.room.text ++ 0 :: (k.channel.text ++ 0 :: k.clientId.text))

def rowKey (row : Row ℚ δ) : Text :=
  keyOf row.toEntryKey

def live (row : Row ℚ δ) (t : Int) : Bool :=
  decide ((t : ℚ) < row.expiresAt)

def newRow (request : WriteRequest δ) (t : Int) : Row ℚ δ where
  toEntryKey := request.toEntryKey
  data := request.data
  identity := request.identity
  updatedAt := t
  expiresAt := t + request.ttlMs

def count (rows : List (Row ℚ δ)) (projectId room : Name) (t : Int) : Nat :=
  rows.countP fun row => row.projectId = projectId && row.room = room && live row t

def write (rows : List (Row ℚ δ)) (request : WriteRequest δ) (t : Int) :
    WriteOutcome × List (Row ℚ δ) :=
  match rowOf rowKey rows (keyOf request.toEntryKey) with
  | some existing =>
    if (t : ℚ) - request.minIntervalMs < existing.updatedAt then (.rateLimited, rows)
    else (.ok, upsert rowKey rows (newRow request t))
  | none =>
    if request.maxEntriesPerRoom ≤ count rows request.projectId request.room t then
      (.roomFull, rows)
    else (.ok, upsert rowKey rows (newRow request t))

def room (rows : List (Row ℚ δ)) (projectId room : Name) (t : Int) : List (StoredEntry δ) :=
  (rows.filter fun row => row.projectId = projectId && row.room = room && live row t).map
    Row.storedEntry

def remove (rows : List (Row ℚ δ)) (projectId room clientId : Name) (channel : Option Name) :
    List (Row ℚ δ) :=
  rows.filter fun row => !removes projectId room clientId channel row.toEntryKey

/-- The first expired rows, `limit` at most, are deleted. -/
def sweep (t : Int) : List (Row ℚ δ) → Nat → List (Row ℚ δ)
  | rows, 0 => rows
  | [], _ => []
  | row :: rows, limit + 1 =>
    if live row t then row :: sweep t rows (limit + 1) else sweep t rows limit

end Memory

/-! ## Postgres -/

namespace Postgres

/-- `Math.round` -/
def mathRound (x : ℚ) : Int :=
  ⌊x + 1 / 2⌋

def rowKey (row : Row Int δ) : EntryKey :=
  row.toEntryKey

def live (row : Row Int δ) (t : Int) : Bool :=
  decide (t < row.expiresAt)

def newRow (request : WriteRequest δ) (ttl t : Int) : Row Int δ where
  toEntryKey := request.toEntryKey
  data := request.data
  identity := request.identity
  updatedAt := t
  expiresAt := t + ttl

def count (table : List (Row Int δ)) (projectId room : Name) (t : Int) : Nat :=
  table.countP fun row => row.projectId = projectId && row.room = room && live row t

/-- What `WRITE_SQL` selects, and the table it leaves. -/
structure Written (δ : Type) where
  written : Nat
  existed : Nat
  table : List (Row Int δ)

def writeSql (table : List (Row Int δ)) (request : WriteRequest δ) (ttl interval t : Int) :
    Written δ :=
  let existing := rowOf rowKey table request.toEntryKey
  let existed := existing.toList.length
  if count table request.projectId request.room t < request.maxEntriesPerRoom ∨ existing.isSome then
    match existing with
    -- `ON CONFLICT .. DO UPDATE .. WHERE`
    | some pe =>
      if pe.updatedAt ≤ t - interval then
        ⟨1, existed, upsert rowKey table (newRow request ttl t)⟩
      else ⟨0, existed, table⟩
    | none => ⟨1, existed, upsert rowKey table (newRow request ttl t)⟩
  else ⟨0, existed, table⟩

def write (table : List (Row Int δ)) (request : WriteRequest δ) (t : Int) :
    WriteOutcome × List (Row Int δ) :=
  let result :=
    writeSql table request (mathRound request.ttlMs) (mathRound request.minIntervalMs) t
  if 0 < result.written then (.ok, result.table)
  else if 0 < result.existed then (.rateLimited, result.table)
  else (.roomFull, result.table)

def room (table : List (Row Int δ)) (projectId room : Name) (t : Int) : List (StoredEntry δ) :=
  (table.filter fun row => row.projectId = projectId && row.room = room && live row t).map
    Row.storedEntry

def remove (table : List (Row Int δ)) (projectId room clientId : Name) (channel : Option Name) :
    List (Row Int δ) :=
  table.filter fun row => !removes projectId room clientId channel row.toEntryKey

/-- The expired rows under the keys that the subquery picked, in no order of its own. -/
def sweep (table : List (Row Int δ)) (limit : Nat) (picked : List EntryKey) (t : Int) :
    Option (List (Row Int δ)) :=
  let expired := (table.filter fun row => !live row t).map rowKey
  if picked.Nodup ∧ (picked.all fun k => expired.any fun e => e = k) = true ∧
      picked.length = min limit expired.length then
    some (table.filter fun row => !picked.any fun k => row.toEntryKey = k)
  else none

end Postgres

end Presence
end Reflectdb
