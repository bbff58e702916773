import Reflectdb.Client.Push
import Reflectdb.Lib.Machine

/-!
# Op processor — ops messages from reservation to answer

One server with a storage adapter, and any number of clients that resend unacked ops.  A
`handleOps` call reserves the op ids of its message (`prefetchBatch`), then takes the ops one by
one (`processClientOp`), then runs the deferred broadcasts and answers.  Every await of that call
is a point where other calls may run, so a call is a value `OpsRun` that an event moves on by one
stretch between awaits; the event carries what the awaited call did.

The pipeline, `authorize` and `mutate` are user code and row data: their verdict on an op is part
of the event, so the runs of the model include those of every configuration.
-/

namespace Reflectdb
namespace Server

open Core Client

/-! ## Configuration -/

inductive BroadcastMode
  | consistent
  | eager
  | eagerDurable
  deriving DecidableEq, Repr

/-- What the op path reads of a query's options. -/
structure QueryOptions where
  /-- `mutate` is given. -/
  mutate : Bool
  broadcast : BroadcastMode
  /-- `typeof options.conflict === "object"`: the policy decides from the row it read. -/
  conflictObject : Bool
  deriving DecidableEq

structure OpConfig where
  queries : String → Option QueryOptions
  /-- The adapter has `reserveOps`. -/
  reserveOps : Bool
  /-- The adapter has `applyOpIf`. -/
  applyOpIf : Bool

/-- The options of an op's query, if `prefetchBatch` counts the op as reservable. -/
def OpConfig.reservable (cfg : OpConfig) (op : ClientOp) : Option QueryOptions :=
  (cfg.queries op.table).filter (·.mutate)

def MAX_WRITE_ATTEMPTS : Nat := 8

/-! ## What awaited calls do -/

/-- The outcome of a reservation call.  A call that throws may have reserved some of its ids. -/
inductive ReserveOutcome
  | ok
  | threw (kept : List String)

/-- The outcome of persisting an op: `applyOp`, `applyOpIf` or the eager buffer. -/
inductive WriteOutcome
  | ok
  /-- The storage call threw, before or after its effect. -/
  | threw (tookEffect : Bool)
  /-- `applyOpIf` returned false. -/
  | lost
  /-- The eager buffer had filled up: `applyOp` instead, its error only logged. -/
  | overflow (tookEffect : Bool)

/-- What one attempt at an op came to. -/
inductive Attempt
  /-- Enforcement, the conflict policy, `authorize` or `mutate` rejected the op. -/
  | reject (reason : ErrorReason)
  /-- A `serverSet` function or the row read threw. -/
  | threw
  | write (affected : List String) (outcome : WriteOutcome)

/-! ## State -/

/-- Where a `handleOps` call stands. -/
inductive Phase
  /-- In `prefetchBatch`, with the ids still to reserve. -/
  | reserving (ids : List String)
  /-- At the head of the loop over the ops. -/
  | looping
  /-- An eager op, behind the consistent broadcasts deferred so far. -/
  | flushing (op : ClientOp)
  | attempting (op : ClientOp) (attempt : Nat)
  /-- An eager op is persisted; its `affected` tables are being broadcast. -/
  | settling (op : ClientOp)
  /-- After the loop, at the deferred broadcasts and the answers. -/
  | broadcasting
  | answered
  | threw

structure Rejection where
  opId : String
  batchId : Option String
  reason : ErrorReason

/-- One `handleOps` call. -/
structure OpsRun where
  clientId : Nat
  /-- The ops of the message the loop has not reached. -/
  ops : List ClientOp
  freshOpIds : List String
  accepted : List ClientOp
  rejected : List Rejection
  failedBatchIds : Record ErrorReason
  deferredBroadcastTables : List String
  phase : Phase

/-- What the replay table and the op log hold: `log` lists the ops the processor has written. -/
structure OpStorage where
  reserved : List String
  log : List ClientOp

inductive Answer
  | ack (clientId : Nat) (opIds : List String)
  | reject (clientId : Nat) (rejection : Rejection)

/-- What has become of an op id, told from its reservation on.  No step reads it. -/
inductive Fate
  | unseen
  /-- Reserved by a call whose loop has not taken it. -/
  | reserved (run : Nat)
  /-- Being processed by the call that reserved it. -/
  | processing (run : Nat)
  /-- Persisted by the call that reserved it, which has not accepted it yet. -/
  | persisted (run : Nat)
  /-- Accepted by the call that reserved it. -/
  | accepted
  /-- Its processing threw or was rejected, or its call ended without reaching it. -/
  | failed
  deriving DecidableEq

structure OpState where
  clients : Nat → PushState
  /-- `ops` messages sent and not yet received; a lost one is never received. -/
  messages : List (Nat × List ClientOp)
  storage : OpStorage
  eagerBuffer : List ClientOp
  runs : Nat → Option OpsRun
  /-- Answers sent and not yet received. -/
  answers : List Answer
  /-- Every op a client has created. -/
  created : List ClientOp
  /-- Every op the server has answered with an ack. -/
  acked : List ClientOp
  fate : String → Fate

namespace OpState

def start : OpState where
  clients := fun _ => PushState.empty
  messages := []
  storage := ⟨[], []⟩
  eagerBuffer := []
  runs := fun _ => none
  answers := []
  created := []
  acked := []
  fate := fun _ => .unseen

@[simp] def setClient (s : OpState) (c : Nat) (client : PushState) : OpState :=
  { s with clients := Function.update s.clients c client }

@[simp] def setRun (s : OpState) (r : Nat) (run : OpsRun) : OpState :=
  { s with runs := Function.update s.runs r (some run) }

@[simp] def setFate (s : OpState) (id : String) (fate : Fate) : OpState :=
  { s with fate := Function.update s.fate id fate }

@[simp] def logOp (s : OpState) (op : ClientOp) : OpState :=
  { s with storage := { s.storage with log := s.storage.log ++ [op] } }

@[simp] def bufferOp (s : OpState) (op : ClientOp) : OpState :=
  { s with eagerBuffer := s.eagerBuffer ++ [op] }

end OpState

/-- The call that has an id under way. -/
def Fate.holder : Fate → Option Nat
  | .reserved r => some r
  | .processing r => some r
  | .persisted r => some r
  | _ => none

/-- The call `r` is over: the ids it reserved and did not accept have failed. -/
def OpState.release (s : OpState) (r : Nat) : OpState :=
  { s with fate := fun id => if (s.fate id).holder = some r then .failed else s.fate id }

/-! ## `handleOps` -/

/-- The start of a `handleOps` call: which ops of the message are reservable. -/
def OpsRun.ofMessage (cfg : OpConfig) (clientId : Nat) (ops : List ClientOp) : OpsRun where
  clientId := clientId
  ops := ops
  freshOpIds := []
  accepted := []
  rejected := []
  failedBatchIds := ∅
  deferredBroadcastTables := []
  phase := .reserving ((ops.filter fun op => (cfg.reservable op).isSome).map (·.id))

/-- The loop records a rejected op, and its batch as failed. -/
def OpsRun.rejectOp (run : OpsRun) (op : ClientOp) (reason : ErrorReason) : OpsRun :=
  { run with
    rejected := run.rejected ++ [⟨op.id, op.batchId, reason⟩]
    failedBatchIds :=
      match op.batch with
      | some b => run.failedBatchIds.insert b reason
      | none => run.failedBatchIds
    phase := .looping }

/-- The loop records an accepted op. -/
def OpsRun.acceptOp (run : OpsRun) (op : ClientOp) : OpsRun :=
  { run with accepted := run.accepted ++ [op], phase := .looping }

/-- An exception leaves the loop: nothing is answered. -/
@[simp] def OpState.throwRun (s : OpState) (r : Nat) (run : OpsRun) : OpState :=
  (s.setRun r { run with phase := .threw }).release r

/-- The ids of one reservation call, and those left for the next: one call for all of them on an
adapter with `reserveOps`, else one call an id. -/
def OpConfig.reserveCall (cfg : OpConfig) (ids : List String) : List String × List String :=
  if cfg.reserveOps then (ids, []) else (ids.take 1, ids.drop 1)

/-- The replay table keeps `kept`. -/
def OpState.reserve (s : OpState) (r : Nat) (kept : List String) : OpState :=
  { s with
    storage := { s.storage with reserved := s.storage.reserved ++ kept }
    fate := fun id => if id ∈ kept then .reserved r else s.fate id }

/-- One reservation call of `prefetchBatch`. -/
def stepReserve (cfg : OpConfig) (s : OpState) (r : Nat) (outcome : ReserveOutcome) :
    Option OpState :=
  match s.runs r with
  | none => none
  | some run =>
    match run.phase with
    | .reserving ids =>
      let call := cfg.reserveCall ids
      match outcome with
      | .ok =>
        let fresh := call.1.filter (· ∉ s.storage.reserved)
        some ((s.reserve r fresh).setRun r
          { run with
            freshOpIds := run.freshOpIds ++ fresh
            phase := if call.2 = [] then .looping else .reserving call.2 })
      | .threw kept =>
        if ∀ id ∈ kept, id ∈ call.1 ∧ id ∉ s.storage.reserved then
          some ((s.reserve r kept).throwRun r run)
        else none
    | _ => none

/-- `processClientOp` up to its first await. -/
def processClientOp (cfg : OpConfig) (s : OpState) (r : Nat) (run : OpsRun) (op : ClientOp) :
    OpState :=
  match cfg.queries op.table with
  | none => s.setRun r (run.rejectOp op .outsideShape)
  | some options =>
    if ¬ options.mutate then s.setRun r (run.rejectOp op .readonlyQuery)
    else if op.id ∈ run.freshOpIds then
      -- `freshOpIds.delete` consumes the reservation.
      (s.setRun r
        { run with
          freshOpIds := run.freshOpIds.filter (· ≠ op.id)
          phase :=
            if options.broadcast = .consistent then .attempting op 0 else .flushing op }).setFate
        op.id (.processing r)
    else
      -- Silently accept: idempotent.
      s.setRun r (run.acceptOp op)

/-- The head of the loop over the message's ops. -/
def stepNext (cfg : OpConfig) (s : OpState) (r : Nat) : Option OpState :=
  match s.runs r with
  | none => none
  | some run =>
    match run.phase with
    | .looping =>
      match run.ops with
      | [] => some ((s.setRun r { run with phase := .broadcasting }).release r)
      | op :: rest =>
        let run := { run with ops := rest }
        match op.batch.bind run.failedBatchIds.lookup with
        | some reason =>
          some (s.setRun r
            { run with rejected := run.rejected ++ [⟨op.id, op.batchId, reason⟩] })
        | none => some (processClientOp cfg s r run op)
    | _ => none

/-- The consistent broadcasts that an eager op waits for. -/
def stepFlush (s : OpState) (r : Nat) (ok : Bool) : Option OpState :=
  match s.runs r with
  | none => none
  | some run =>
    match run.phase with
    | .flushing op =>
      if ok then
        some (s.setRun r { run with deferredBroadcastTables := [], phase := .attempting op 0 })
      else if run.deferredBroadcastTables ≠ [] then some (s.throwRun r run)
      else none
    | _ => none

/-- The storage call of an attempt that throws. -/
def OpState.writeThrew (s : OpState) (r : Nat) (run : OpsRun) (op : ClientOp)
    (tookEffect : Bool) : OpState :=
  if tookEffect then (s.logOp op).throwRun r run else s.throwRun r run

/-- `attemptConsistentOp` once the pipeline, `authorize` and `mutate` have let the op through. -/
def persistConsistentOp (cfg : OpConfig) (s : OpState) (r : Nat) (run : OpsRun) (op : ClientOp)
    (options : QueryOptions) (attempt : Nat) (affected : List String) :
    WriteOutcome → Option OpState
  | .ok =>
    let tables := run.deferredBroadcastTables ∪ (op.table :: affected)
    some (((s.logOp op).setRun r
      { run.acceptOp op with deferredBroadcastTables := tables }).setFate op.id .accepted)
  | .threw tookEffect => some (s.writeThrew r run op tookEffect)
  | .lost =>
    if options.conflictObject ∧ cfg.applyOpIf then
      if attempt + 1 < MAX_WRITE_ATTEMPTS then
        some (s.setRun r { run with phase := .attempting op (attempt + 1) })
      else
        some ((s.setRun r (run.rejectOp op .serverError)).setFate op.id .failed)
    else none
  | .overflow _ => none

/-- `processEagerOp` once its gates, `authorize` and `mutate` have let the op through. -/
def persistEagerOp (s : OpState) (r : Nat) (run : OpsRun) (op : ClientOp)
    (options : QueryOptions) : WriteOutcome → Option OpState
  | .ok =>
    let s := if options.broadcast = .eagerDurable then s.logOp op else s.bufferOp op
    some ((s.setRun r { run with phase := .settling op }).setFate op.id (.persisted r))
  | .threw tookEffect =>
    if options.broadcast = .eagerDurable then some (s.writeThrew r run op tookEffect) else none
  | .lost => none
  | .overflow tookEffect =>
    if options.broadcast = .eager then
      let s := if tookEffect then s.logOp op else s
      some ((s.setRun r { run with phase := .settling op }).setFate op.id (.persisted r))
    else none

/-- One attempt at the op: read, pipeline, `authorize`, `mutate`, persist. -/
def stepAttempt (cfg : OpConfig) (s : OpState) (r : Nat) (a : Attempt) : Option OpState :=
  match s.runs r with
  | none => none
  | some run =>
    match run.phase with
    | .attempting op attempt =>
      match cfg.queries op.table with
      | none => none
      | some options =>
        match a with
        | .reject reason =>
          some ((s.setRun r (run.rejectOp op reason)).setFate op.id .failed)
        | .threw => some (s.throwRun r run)
        | .write affected outcome =>
          if options.broadcast = .consistent then
            persistConsistentOp cfg s r run op options attempt affected outcome
          else persistEagerOp s r run op options outcome
    | _ => none

/-- The rest of `processEagerOp`, whose broadcasts of affected tables may throw. -/
def stepSettle (s : OpState) (r : Nat) (ok : Bool) : Option OpState :=
  match s.runs r with
  | none => none
  | some run =>
    match run.phase with
    | .settling op =>
      if ok then some ((s.setRun r (run.acceptOp op)).setFate op.id .accepted)
      else some (s.throwRun r run)
    | _ => none

/-- The deferred broadcasts and then the answers. -/
def stepAnswer (s : OpState) (r : Nat) (broadcastsOk : Bool) : Option OpState :=
  match s.runs r with
  | none => none
  | some run =>
    match run.phase with
    | .broadcasting =>
      if broadcastsOk then
        let acks :=
          if run.accepted = [] then [] else [Answer.ack run.clientId (run.accepted.map (·.id))]
        some { (s.setRun r { run with phase := .answered }) with
          answers := s.answers ++ acks ++ run.rejected.map (Answer.reject run.clientId)
          acked := s.acked ++ run.accepted }
      else if run.deferredBroadcastTables ≠ [] then
        some (s.setRun r { run with phase := .threw })
      else none
    | _ => none

/-! ## The system -/

inductive OpEvent
  /-- A client creates an op. -/
  | create (client : Nat) (op : ClientOp)
  /-- A client's connection drops, or its reconnect clears the in-flight marks. -/
  | clearInFlight (client : Nat)
  | push (client now : Nat)
  /-- A push sends its next message; `threw` when `transport.send` does. -/
  | send (client now : Nat) (arrives threw : Bool)
  /-- The server takes a message: a `handleOps` call starts. -/
  | receive (message run : Nat)
  | reserve (run : Nat) (outcome : ReserveOutcome)
  | next (run : Nat)
  | flush (run : Nat) (ok : Bool)
  | attempt (run : Nat) (a : Attempt)
  | settle (run : Nat) (ok : Bool)
  | answer (run : Nat) (broadcastsOk : Bool)
  /-- A client gets an answer. -/
  | deliver (answer : Nat)

/-- Op ids are fresh random ids. -/
def stepCreate (s : OpState) (c : Nat) (op : ClientOp) : Option OpState :=
  if ∀ op' ∈ s.created, op'.id ≠ op.id then
    some { s.setClient c ((s.clients c).addPendingOp op) with created := s.created ++ [op] }
  else none

def stepSend (s : OpState) (c now : Nat) (arrives threw : Bool) : Option OpState :=
  match (s.clients c).chunks with
  | [] => none
  | chunk :: rest =>
    let client :=
      if threw then (s.clients c).failedChunk chunk else (s.clients c).sentChunk chunk rest now
    some { s.setClient c client with
      messages := if arrives then s.messages ++ [(c, chunk)] else s.messages }

def stepReceive (cfg : OpConfig) (s : OpState) (m r : Nat) : Option OpState :=
  match s.messages[m]?, s.runs r with
  | some (c, ops), none =>
    some { s.setRun r (OpsRun.ofMessage cfg c ops) with messages := s.messages.eraseIdx m }
  | _, _ => none

def stepDeliver (s : OpState) (a : Nat) : Option OpState :=
  match s.answers[a]? with
  | none => none
  | some answer =>
    let s := { s with answers := s.answers.eraseIdx a }
    match answer with
    | .ack c opIds => some (s.setClient c ((s.clients c).ack opIds))
    | .reject c rejection =>
      some (s.setClient c ((s.clients c).reject rejection.opId rejection.batchId))

def opStep (cfg : OpConfig) (s : OpState) : OpEvent → Option OpState
  | .create c op => stepCreate s c op
  | .clearInFlight c => some (s.setClient c (s.clients c).clearInFlight)
  | .push c now => ((s.clients c).startPush now).map (s.setClient c)
  | .send c now arrives threw => stepSend s c now arrives threw
  | .receive m r => stepReceive cfg s m r
  | .reserve r outcome => stepReserve cfg s r outcome
  | .next r => stepNext cfg s r
  | .flush r ok => stepFlush s r ok
  | .attempt r a => stepAttempt cfg s r a
  | .settle r ok => stepSettle s r ok
  | .answer r broadcastsOk => stepAnswer s r broadcastsOk
  | .deliver a => stepDeliver s a

def opMachine (cfg : OpConfig) : Lib.Machine OpState OpEvent :=
  ⟨OpState.start, opStep cfg⟩

/-! ## A call leaves the clients alone -/

section Frame

variable {cfg : OpConfig} {s s' : OpState} {r : Nat}

theorem clients_stepReserve {outcome : ReserveOutcome} (h : stepReserve cfg s r outcome = some s') :
    s'.clients = s.clients := by
  unfold stepReserve at h
  split at h
  · cases h
  · split at h
    · dsimp only at h
      cases outcome with
      | ok =>
          cases h
          rfl
      | threw kept =>
          dsimp only at h
          split at h <;> cases h
          rfl
    · cases h

theorem clients_stepNext (h : stepNext cfg s r = some s') : s'.clients = s.clients := by
  unfold stepNext at h
  split at h
  · cases h
  · split at h
    · split at h
      · cases h
        rfl
      · dsimp only at h
        split at h
        · cases h
          rfl
        · cases h
          unfold processClientOp
          split
          · rfl
          · split
            · rfl
            · split <;> rfl
    · cases h

theorem clients_stepFlush {ok : Bool} (h : stepFlush s r ok = some s') :
    s'.clients = s.clients := by
  unfold stepFlush at h
  split at h
  · cases h
  · split at h
    · split at h
      · cases h
        rfl
      · split at h <;> cases h
        rfl
    · cases h

theorem clients_stepSettle {ok : Bool} (h : stepSettle s r ok = some s') :
    s'.clients = s.clients := by
  unfold stepSettle at h
  split at h
  · cases h
  · split at h
    · split at h <;> cases h <;> rfl
    · cases h

theorem clients_stepAnswer {ok : Bool} (h : stepAnswer s r ok = some s') :
    s'.clients = s.clients := by
  unfold stepAnswer at h
  split at h
  · cases h
  · split at h
    · split at h
      · cases h
        rfl
      · split at h <;> cases h
        rfl
    · cases h

theorem clients_writeThrew {run : OpsRun} {op : ClientOp} (tookEffect : Bool) :
    (s.writeThrew r run op tookEffect).clients = s.clients := by
  cases tookEffect <;> rfl

theorem clients_stepAttempt {a : Attempt} (h : stepAttempt cfg s r a = some s') :
    s'.clients = s.clients := by
  unfold stepAttempt at h
  split at h
  · cases h
  · split at h
    · split at h
      · cases h
      · cases a with
        | reject reason =>
            cases h
            rfl
        | threw =>
            cases h
            rfl
        | write affected outcome =>
            dsimp only at h
            split at h
            · cases outcome with
              | ok =>
                  cases h
                  rfl
              | threw tookEffect =>
                  cases h
                  exact clients_writeThrew tookEffect
              | lost =>
                  simp only [persistConsistentOp] at h
                  split at h
                  · split at h <;> cases h <;> rfl
                  · cases h
              | overflow tookEffect => cases h
            · cases outcome with
              | ok =>
                  cases h
                  split <;> rfl
              | threw tookEffect =>
                  simp only [persistEagerOp] at h
                  split at h <;> cases h
                  exact clients_writeThrew tookEffect
              | lost => cases h
              | overflow tookEffect =>
                  simp only [persistEagerOp] at h
                  split at h <;> cases h
                  cases tookEffect <;> rfl
    · cases h

/-- What is not a creation or a delivery leaves the queues alone. -/
theorem pendingOps_opStep {e : OpEvent} (hcreate : ∀ c op, e ≠ .create c op)
    (hdeliver : ∀ a, e ≠ .deliver a) (h : opStep cfg s e = some s') (c : Nat) :
    (s'.clients c).pendingOps = (s.clients c).pendingOps := by
  have hset : ∀ {c' : Nat} {client : PushState}, client.pendingOps = (s.clients c').pendingOps →
      ((s.setClient c' client).clients c).pendingOps = (s.clients c).pendingOps := by
    intro c' client hclient
    by_cases hc : c = c'
    · subst hc
      simpa using hclient
    · simp [Function.update_of_ne hc]
  cases e with
  | create c' op => exact absurd rfl (hcreate c' op)
  | deliver a => exact absurd rfl (hdeliver a)
  | clearInFlight c' =>
      cases h
      exact hset rfl
  | push c' now =>
      rcases Option.map_eq_some_iff.1 h with ⟨client, hpush, rfl⟩
      unfold PushState.startPush at hpush
      split at hpush <;> cases hpush
      exact hset rfl
  | send c' now arrives threw =>
      replace h : stepSend s c' now arrives threw = some s' := h
      unfold stepSend at h
      split at h
      · cases h
      · cases h
        refine hset ?_
        split <;> rfl
  | receive m r =>
      replace h : stepReceive cfg s m r = some s' := h
      unfold stepReceive at h
      split at h <;> cases h
      rfl
  | reserve r outcome => rw [clients_stepReserve h]
  | next r => rw [clients_stepNext h]
  | flush r ok => rw [clients_stepFlush h]
  | attempt r a => rw [clients_stepAttempt h]
  | settle r ok => rw [clients_stepSettle h]
  | answer r ok => rw [clients_stepAnswer h]

end Frame

end Server
end Reflectdb
