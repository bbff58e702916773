import Reflectdb.Server.Conflict
import Reflectdb.Server.Sessions

/-!
# Eager op — the eager path, from the enforcement gates to the deltas

An eager op skips conflict resolution.  It passes the gates, is laid over the stored row if it is an
update, and is sent as a delta to the other subscribers of its query.  No query runs for them, so
the sender's room is all that keeps the rooms apart.
-/

namespace Reflectdb
namespace Server

open Core Client

/-! ## Enforcement -/

/-- The columns of a query that the server controls; `serverSet` with its functions resolved. -/
structure EnforcedColumns where
  readonly : List String
  serverSet : Option Row

/-- `delete cleaned[field]` for each field. -/
def dropColumns (row : Row) (fields : List String) : Row :=
  fields.foldl (fun row field => row.erase field) row

/-- Readonly columns can be set on insert but not changed on update. -/
def enforceReadonly (columns : EnforcedColumns) (op : OpType) (payload : Option Row) :
    Option Row :=
  match op with
  | .update => payload.map (dropColumns · columns.readonly)
  | _ => payload

def enforceServerSet (columns : EnforcedColumns) (op : OpType) (payload : Option Row) :
    Option Row :=
  match op, columns.serverSet with
  | .delete, _ => payload
  | _, none => payload
  | _, some serverSet => some (serverSet ∪ payload.getD ∅)

/-- What of an op's payload reaches the row. -/
def enforcedPayload (columns : EnforcedColumns) (op : OpType) (payload : Option Row) :
    Option Row :=
  enforceServerSet columns op (enforceReadonly columns op payload)

/-! ## The eager path -/

/-- What the gates and the awaited calls do. -/
structure EagerEnv where
  clockDrift : Bool
  batchTooLarge : Bool
  rateLimited : Bool
  /-- `stampHlc()`. -/
  hlc : Hlc
  /-- The row that `readRow` answers, or `none` if it throws. -/
  read : Option ExistingRow
  /-- Why `authorize` refuses the op. -/
  unauthorized : Option ErrorReason
  hasCapacity : Bool
  /-- Why `mutate` refuses the op. -/
  refused : Option ErrorReason
  /-- The `applyOp` of an `eager-durable` query throws. -/
  persistThrows : Bool

/-- The row that is persisted and the delta that is sent. -/
structure EagerWrite where
  mergedRow : Option Row
  delta : Delta

/-- The payload laid over the row that was read, if it is an update of one; clocks of the other
columns are kept. -/
def eagerWrite (op : OpType) (rowId : String) (payload : Option Row) (hlc : Hlc)
    (read : Option ExistingRow) : EagerWrite :=
  let fresh : EagerWrite :=
    ⟨payload, op, rowId, payload, hlc, some ((stampColumns ∅ payload hlc).insert "_row" hlc)⟩
  match op, payload, read with
  | .update, some columns, some ⟨some row, _, clocks⟩ =>
    ⟨some (columns ∪ row), op, rowId, payload, hlc,
      some ((stampColumns clocks payload hlc).insert "_row" hlc)⟩
  | _, _, _ => fresh

inductive EagerOutcome
  | rejected (reason : ErrorReason)
  | threw
  /-- The sessions that are sent the delta. -/
  | accepted (write : EagerWrite) (recipients : List Session)

/-- The room of the sender's own subscription; no subscription and no room look the same. -/
def SessionManager.senderRoomKey (m : SessionManager) (sender query : String) : Option String :=
  ((m.sessions sender).bind (·.subscriptions.lookup query)).bind (·.roomKey)

/-- The other sessions that `getSubscribersForQuery` answers. -/
def eagerRecipients (m : SessionManager) (sender query : String) : List Session :=
  (m.getSubscribersForQuery query (m.senderRoomKey sender query)).filter (·.clientId ≠ sender)

def processEagerOp (m : SessionManager) (columns : EnforcedColumns) (sender : String)
    (op : ConflictInput) (env : EagerEnv) : EagerOutcome :=
  if env.clockDrift then .rejected .clockDrift
  else if env.batchTooLarge then .rejected .batchTooLarge
  else if env.rateLimited then .rejected .rateLimited
  else
    let payload := enforcedPayload columns op.op op.payload
    let write := eagerWrite op.op op.rowId payload env.hlc env.read
    match env.unauthorized with
    | some reason => .rejected reason
    | none =>
      if ¬ env.hasCapacity then .rejected .bufferFull
      else
        match env.refused with
        | some reason => .rejected reason
        | none =>
          if env.persistThrows then .threw
          else .accepted write (eagerRecipients m sender op.tableName)

/-- An accepted op has passed every gate. -/
theorem processEagerOp_accepted {m : SessionManager} {columns : EnforcedColumns} {sender : String}
    {op : ConflictInput} {env : EagerEnv} {write : EagerWrite} {recipients : List Session}
    (h : processEagerOp m columns sender op env = .accepted write recipients) :
    write = eagerWrite op.op op.rowId (enforcedPayload columns op.op op.payload) env.hlc env.read ∧
      recipients = eagerRecipients m sender op.tableName := by
  unfold processEagerOp at h
  -- Every branch but the last answers something else.
  repeat' split at h
  all_goals cases h
  exact ⟨rfl, rfl⟩

/-! ## Rooms -/

/-- The delta goes to subscribers of the query in the sender's room, or, from a sender without one,
to subscribers without one. -/
def StaysInRoom (m : SessionManager) (sender query : String) (recipients : List Session) : Prop :=
  ∀ session ∈ recipients, ∃ sub, session.subscriptions.lookup query = some sub ∧
    sub.roomKey = m.senderRoomKey sender query

/-- No other session that the index has for the query is in a room. -/
def NoRoomButSender (m : SessionManager) (sender query : String) : Prop :=
  ∀ session ∈ m.getSubscribersForQuery query none, session.clientId ≠ sender →
    ∃ sub, session.subscriptions.lookup query = some sub ∧ sub.roomKey = none

theorem mem_getSubscribersForQuery_room {m : SessionManager} {query room : String}
    {session : Session} (h : session ∈ m.getSubscribersForQuery query (some room)) :
    ∃ sub, session.subscriptions.lookup query = some sub ∧ sub.roomKey = some room := by
  obtain ⟨c, -, hc⟩ := List.mem_filterMap.1 h
  have hroom := (Option.filter_eq_some_iff.1 hc).2
  obtain ⟨sub, hsub, heq⟩ := (Option.any_eq_true _ _).1 hroom
  exact ⟨sub, hsub, of_decide_eq_true heq⟩

/-- The delta of an accepted eager op stays in the sender's room exactly when the sender has a room,
or the other subscribers have none. -/
theorem processEagerOp_staysInRoom_iff {m : SessionManager} {columns : EnforcedColumns}
    {sender : String} {op : ConflictInput} {env : EagerEnv} {write : EagerWrite}
    {recipients : List Session}
    (h : processEagerOp m columns sender op env = .accepted write recipients) :
    StaysInRoom m sender op.tableName recipients ↔
      (m.senderRoomKey sender op.tableName).isSome ∨ NoRoomButSender m sender op.tableName := by
  obtain ⟨-, rfl⟩ := processEagerOp_accepted h
  cases hroom : m.senderRoomKey sender op.tableName with
  | some room =>
      refine ⟨fun _ => Or.inl rfl, fun _ session hsession => ?_⟩
      have hmem := (List.mem_filter.1 hsession).1
      rw [hroom] at hmem ⊢
      exact mem_getSubscribersForQuery_room hmem
  | none =>
      have hmem : ∀ session, session ∈ eagerRecipients m sender op.tableName ↔
          session ∈ m.getSubscribersForQuery op.tableName none ∧ session.clientId ≠ sender := by
        simp [eagerRecipients, hroom]
      -- Without a room, the sender reaches everybody in the index.
      simp only [StaysInRoom, hmem, hroom, Option.isSome_none, Bool.false_eq_true, false_or,
        NoRoomButSender, and_imp]

/-- A subscriber in a room, and a client that is connected. -/
def tenantSessions : SessionManager :=
  ((SessionManager.empty.connect "a" 1).subscribe "a" "todos" ∅ (some "org:a") none).connect "b" 2

/-- Every gate is open, and there is no row yet. -/
def openGates : EagerEnv :=
  ⟨false, false, false, "5", some (getRow none), none, true, none, false⟩

def addTodo : ConflictInput :=
  ⟨.insert, some ∅, "4", "t1", "todos", "bob"⟩

/-- A sender in the same room. -/
theorem processEagerOp_staysInRoom_tenant :
    StaysInRoom (tenantSessions.subscribe "b" "todos" ∅ (some "org:a") none) "b" "todos"
      (eagerRecipients (tenantSessions.subscribe "b" "todos" ∅ (some "org:a") none) "b" "todos") :=
  (@processEagerOp_staysInRoom_iff _ ⟨[], none⟩ "b" addTodo openGates _ _ rfl).2 (Or.inl rfl)

theorem processEagerOp_staysInRoom_fails :
    ¬ ∀ (m : SessionManager) (columns : EnforcedColumns) (sender : String) (op : ConflictInput)
      (env : EagerEnv) (write : EagerWrite) (recipients : List Session),
      processEagerOp m columns sender op env = .accepted write recipients →
        StaysInRoom m sender op.tableName recipients := by
  intro h
  -- The sender has no subscription, and the subscriber's room is not looked at.
  have hstays := h tenantSessions ⟨[], none⟩ "b" addTodo openGates _ _ rfl
  have hrooms : (eagerRecipients tenantSessions "b" "todos").map (fun session =>
      (session.subscriptions.lookup "todos").bind (·.roomKey)) = [some "org:a"] := by
    decide +kernel
  obtain ⟨session, hsession, hroom⟩ : ∃ session ∈ eagerRecipients tenantSessions "b" "todos",
      (session.subscriptions.lookup "todos").bind (·.roomKey) = some "org:a" := by
    apply List.mem_map.1
    rw [hrooms]
    exact List.mem_singleton_self _
  obtain ⟨sub, hsub, hnone⟩ := hstays session hsession
  have hsender : tenantSessions.senderRoomKey "b" addTodo.tableName = none := by decide +kernel
  have hlookup : session.subscriptions.lookup "todos" = some sub := hsub
  simp [hlookup, hnone, hsender] at hroom

end Server
end Reflectdb
