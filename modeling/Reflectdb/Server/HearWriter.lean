import Reflectdb.Server.OpProcessor
import Reflectdb.Server.Readonly

/-!
# Hear writer — whether a writer is told what a resolver made of its op

The broadcasts of consistent ops are deferred to the end of their message, one a table, and leave
the writer out unless one of its ops on the table was changed.  An op that takes the eager path runs
the broadcasts deferred so far before it, and these leave the writer out in any case.
-/

namespace Reflectdb
namespace Server
namespace HearWriter

open Core Client

/-! ## One op -/

/-- Where the write of an op ends, after its last attempt. -/
inductive WriteEnd
  | stored
  | threw
  /-- It lost every race. -/
  | lost

/-- Where an op on the eager path ends. -/
inductive EagerEnd
  | accepted (affected : List String)
  | rejected (reason : String)
  | threw

/-- What the callbacks and the awaited calls do for an op, the consistent path's at the last
attempt. -/
structure OpEnv where
  fresh : Bool
  userId : String
  policy : ConflictPolicy
  columns : EnforcedColumns
  /-- The gate of the pipeline that the op fails. -/
  failed : Option String
  /-- The row that was read, unless that or a `serverSet` function throws. -/
  existing : Option ExistingRow
  /-- Why `authorize` or `mutate` refuses the op. -/
  refused : Option String
  affected : List String
  write : WriteEnd
  /-- The broadcast of a flush that throws. -/
  flushThrows : Option Nat
  eager : EagerEnd

/-- Whether the op stamped a column with something other than what the writer sent. -/
def resolverChangedValue (row : Option Row) (colClocks : Record Hlc) (opHlc : Hlc)
    (serverSet : Option Row) (sent : Option Row) : Bool :=
  match row with
  | none => false
  | some row => colClocks.entries.any fun e =>
      e.1 ≠ "_row" && e.2 = opHlc &&
        !(serverSet.any fun columns => (columns.lookup e.1).isSome || (inherited e.1).isSome) &&
        (row.lookup e.1).any fun value => sent.bind (·.lookup e.1) ≠ some value

/-- An op that the consistent path has written. -/
structure Written where
  op : ClientOp
  env : OpEnv
  result : ConflictResult

namespace Written

def changed (w : Written) : Bool :=
  resolverChangedValue w.result.resolvedRow w.result.updatedColClocks w.op.hlc
    w.env.columns.serverSet w.op.payload

/-- `hearWriter` of the op's result: not asked of a delete. -/
def hearWriter (w : Written) : Bool :=
  w.op.op ≠ .delete && w.changed

/-- The tables whose broadcast is deferred. -/
def tables (w : Written) : List String :=
  w.op.table :: w.env.affected

end Written

inductive Attempted
  | rejected (reason : String)
  | threw
  | written (w : Written)

def attemptConsistentOp (ops : TextOps) (op : ClientOp) (env : OpEnv) : Attempted :=
  match env.existing with
  | none => .threw
  | some existing =>
    let result := processOp ops env.policy env.columns env.failed
      ⟨op.op, op.payload, op.hlc, op.rowId, op.table, env.userId⟩ existing
    if ¬ result.accepted then .rejected (result.reason.getD "server_error")
    else
      match env.refused, env.write with
      | some reason, _ => .rejected reason
      | none, .lost => .rejected "server_error"
      | none, .threw => .threw
      | none, .stored => .written ⟨op, env, result⟩

/-! ## A message -/

/-- What is seen of a message: ops that reach storage, and broadcasts with the client left out. -/
inductive Seen
  | wrote (w : Written)
  | broadcast (table exclude : String)

/-- Which way an op of the message went. -/
inductive Taken
  /-- Skipped with its batch, or rejected. -/
  | refused
  | replayed
  | eager
  | written (w : Written)

structure MessageRun where
  deferred : List String
  hearWriter : List String
  failedBatchIds : Record String
  accepted : List String
  rejected : List (String × String)
  seen : List Seen
  taken : List Taken
  threw : Bool

def MessageRun.start : MessageRun where
  deferred := []
  hearWriter := []
  failedBatchIds := ∅
  accepted := []
  rejected := []
  seen := []
  taken := []
  threw := false

namespace MessageRun

def reject (s : MessageRun) (op : ClientOp) (reason : String) : MessageRun :=
  { s with
    rejected := s.rejected ++ [(op.id, reason)]
    failedBatchIds :=
      match op.batch with
      | some b => s.failedBatchIds.insert b reason
      | none => s.failedBatchIds
    taken := s.taken ++ [.refused] }

/-- A broadcast of each of the tables. -/
def broadcasts (s : MessageRun) (tables : List String) (exclude : String) : MessageRun :=
  { s with seen := s.seen ++ tables.map (.broadcast · exclude) }

/-- The deferred broadcasts, before an op on the eager path. -/
def flush (s : MessageRun) (clientId : String) (throws : Option Nat) : MessageRun :=
  let s' := { s with deferred := [], taken := s.taken ++ [Taken.eager] }
  match throws with
  | some n =>
    if n < s.deferred.length then { s'.broadcasts (s.deferred.take n) clientId with threw := true }
    else s'.broadcasts s.deferred clientId
  | none => s'.broadcasts s.deferred clientId

/-- The eager path after its flush; the broadcasts of `affected` leave out the writer too. -/
def runEager (s : MessageRun) (clientId : String) (op : ClientOp) : EagerEnd → MessageRun
  | .accepted affected => { s.broadcasts affected clientId with accepted := s.accepted ++ [op.id] }
  | .rejected reason =>
    { s with
      rejected := s.rejected ++ [(op.id, reason)]
      failedBatchIds :=
        match op.batch with
        | some b => s.failedBatchIds.insert b reason
        | none => s.failedBatchIds }
  | .threw => { s with threw := true }

def record (s : MessageRun) (w : Written) : MessageRun :=
  { s with
    deferred := s.deferred ∪ w.tables
    hearWriter := if w.hearWriter then s.hearWriter ∪ [w.op.table] else s.hearWriter
    accepted := s.accepted ++ [w.op.id]
    seen := s.seen ++ [.wrote w]
    taken := s.taken ++ [.written w] }

end MessageRun

/-- One round of the loop over the ops. -/
def takeOp (queries : String → Option QueryOptions) (ops : TextOps) (clientId : String)
    (s : MessageRun) (e : ClientOp × OpEnv) : MessageRun :=
  if s.threw then s
  else
    match e.1.batch.bind s.failedBatchIds.lookup, queries e.1.table with
    | some reason, _ =>
      { s with
        rejected := s.rejected ++ [(e.1.id, reason)]
        taken := s.taken ++ [.refused] }
    | none, none => s.reject e.1 "outside_shape"
    | none, some options =>
      if ¬ options.mutate then s.reject e.1 "readonly_query"
      else if ¬ e.2.fresh then
        { s with accepted := s.accepted ++ [e.1.id], taken := s.taken ++ [.replayed] }
      else if options.broadcast ≠ BroadcastMode.consistent then
        let s := s.flush clientId e.2.flushThrows
        if s.threw then s else s.runEager clientId e.1 e.2.eager
      else
        match attemptConsistentOp ops e.1 e.2 with
        | .rejected reason => s.reject e.1 reason
        | .threw => { s with threw := true }
        | .written w => s.record w

def takeOps (queries : String → Option QueryOptions) (ops : TextOps) (clientId : String)
    (message : List (ClientOp × OpEnv)) : MessageRun :=
  message.foldl (takeOp queries ops clientId) .start

/-- The deferred broadcasts at the end, of which the first `ran` do not throw. -/
def broadcastDeferred (clientId : String) (ran : Nat) (s : MessageRun) : MessageRun :=
  { s with
    seen := s.seen ++ (s.deferred.take ran).map fun table =>
      .broadcast table (if table ∈ s.hearWriter then "" else clientId) }

/-- `handleOps` up to its answers. -/
def handleOps (queries : String → Option QueryOptions) (ops : TextOps) (clientId : String)
    (ran : Nat) (message : List (ClientOp × OpEnv)) : MessageRun :=
  let s := takeOps queries ops clientId message
  if s.threw then s else broadcastDeferred clientId ran s

/-! ## Who is told -/

/-- What is deferred after one more op. -/
def Taken.defer (deferred : List String) : Taken → List String
  | .eager => []
  | .written w => deferred ∪ w.tables
  | _ => deferred

/-- The tables whose broadcast is deferred after these ops. -/
def deferredAfter (taken : List Taken) : List String :=
  taken.foldl Taken.defer []

/-- After each write of an op that was changed, its table is broadcast to the writer too. -/
def WriterHears (clientId : String) (s : MessageRun) : Prop :=
  ∀ before w after, s.seen = before ++ .wrote w :: after → w.changed = true →
    ∃ exclude, exclude ≠ clientId ∧ Seen.broadcast w.op.table exclude ∈ after

/-- The loop of the message ends, with the table of the op deferred among those whose broadcasts do
not throw, and an op on the table that is no delete was changed. -/
structure ToldAtEnd (clientId : String) (ran : Nat) (s : MessageRun) (w : Written) : Prop where
  ends : s.threw = false
  deferred : w.op.table ∈ (deferredAfter s.taken).take ran
  asked : ∃ w', Taken.written w' ∈ s.taken ∧ w'.hearWriter = true ∧ w'.op.table = w.op.table
  named : clientId ≠ ""

theorem deferredAfter_snoc (taken : List Taken) (t : Taken) :
    deferredAfter (taken ++ [t]) = t.defer (deferredAfter taken) := by
  simp [deferredAfter]

/-- A table is deferred iff no op took the eager path after the last one that defers it. -/
theorem mem_deferredAfter {taken : List Taken} {table : String} :
    table ∈ deferredAfter taken ↔ ∃ before w after,
      taken = before ++ .written w :: after ∧ table ∈ w.tables ∧ Taken.eager ∉ after := by
  induction taken using List.reverseRecOn with
  | nil => simp [deferredAfter]
  | append_singleton taken t ih =>
      have hearlier : t ≠ .eager → table ∈ deferredAfter taken → ∃ before w after,
          taken ++ [t] = before ++ .written w :: after ∧ table ∈ w.tables ∧
            Taken.eager ∉ after := by
        intro ht hmem
        rcases ih.1 hmem with ⟨before, w, after, rfl, htable, heager⟩
        refine ⟨before, w, after ++ [t], by simp, htable, ?_⟩
        simpa [heager] using ht.symm
      have hlater : ∀ {before : List Taken} {w : Written} {after : List Taken},
          taken ++ [t] = before ++ .written w :: after → table ∈ w.tables →
            Taken.eager ∉ after → t = .written w ∨ t ≠ .eager ∧ table ∈ deferredAfter taken := by
        intro before w after heq htable heager
        rcases List.eq_nil_or_concat after with rfl | ⟨rest, last, rfl⟩
        · exact Or.inl (by simpa using List.append_inj_right' heq rfl)
        · rw [List.concat_eq_append, ← List.cons_append, ← List.append_assoc] at heq
          have hlast : t = last := by simpa using List.append_inj_right' heq rfl
          rw [List.concat_eq_append, List.mem_append, not_or] at heager
          refine Or.inr ⟨fun heq => heager.2 (by simp [← hlast, heq]), ih.2 ?_⟩
          exact ⟨before, w, rest, List.append_inj_left' heq rfl, htable, heager.1⟩
      rw [deferredAfter_snoc]
      constructor
      · intro hmem
        cases t with
        | eager => exact absurd hmem List.not_mem_nil
        | refused => exact hearlier (fun h => by cases h) hmem
        | replayed => exact hearlier (fun h => by cases h) hmem
        | written w =>
            rcases List.mem_union_iff.1 hmem with hold | hnew
            · exact hearlier (fun h => by cases h) hold
            · exact ⟨taken, w, [], rfl, hnew, List.not_mem_nil⟩
      · rintro ⟨before, w, after, heq, htable, heager⟩
        rcases hlater heq htable heager with rfl | ⟨ht, hold⟩
        · exact List.mem_union_iff.2 (Or.inr htable)
        · cases t with
          | eager => exact absurd rfl ht
          | refused => exact hold
          | replayed => exact hold
          | written w' => exact List.mem_union_iff.2 (Or.inl hold)

/-- What holds of the loop: only broadcasts that leave the writer out have run. -/
structure LoopInv (clientId : String) (s : MessageRun) : Prop where
  deferred : s.deferred = deferredAfter s.taken
  hearWriter : ∀ table, table ∈ s.hearWriter ↔
    ∃ w, Taken.written w ∈ s.taken ∧ w.hearWriter = true ∧ w.op.table = table
  wrote : ∀ w, Seen.wrote w ∈ s.seen ↔ Taken.written w ∈ s.taken
  leftOut : ∀ table exclude, Seen.broadcast table exclude ∈ s.seen → exclude = clientId

namespace LoopInv

variable {clientId : String} {s : MessageRun}

theorem start : LoopInv clientId .start := by
  constructor <;> simp [MessageRun.start, deferredAfter]

/-- Nothing but the answers has changed, and an op that defers nothing was taken. -/
theorem refuse {t : Taken} (h : LoopInv clientId s) (accepted : List String)
    (rejected : List (String × String)) (failedBatchIds : Record String)
    (ht : t = .refused ∨ t = .replayed) :
    LoopInv clientId { s with
      accepted := accepted, rejected := rejected, failedBatchIds := failedBatchIds
      taken := s.taken ++ [t] } := by
  rcases ht with rfl | rfl
  all_goals
    refine ⟨?_, fun table => ?_, fun w => ?_, h.leftOut⟩
    · dsimp only
      rw [h.deferred, deferredAfter_snoc]
      rfl
    · simp [h.hearWriter]
    · simp [h.wrote]

theorem broadcasts (h : LoopInv clientId s) (tables : List String) :
    LoopInv clientId (s.broadcasts tables clientId) where
  deferred := h.deferred
  hearWriter := h.hearWriter
  wrote w := by simp [MessageRun.broadcasts, h.wrote]
  leftOut table exclude hmem := by
    rcases List.mem_append.1 hmem with hold | hnew
    · exact h.leftOut table exclude hold
    · rcases List.mem_map.1 hnew with ⟨_, _, heq⟩
      cases heq
      rfl

theorem flush (h : LoopInv clientId s) (throws : Option Nat) :
    LoopInv clientId (s.flush clientId throws) := by
  have hcleared :
      LoopInv clientId { s with deferred := [], taken := s.taken ++ [Taken.eager] } := by
    refine ⟨?_, fun table => ?_, fun w => ?_, h.leftOut⟩
    · dsimp only
      rw [deferredAfter_snoc]
      rfl
    · simp [h.hearWriter]
    · simp [h.wrote]
  have hthrew : ∀ {s' : MessageRun}, LoopInv clientId s' →
      LoopInv clientId { s' with threw := true } :=
    fun h' => ⟨h'.deferred, h'.hearWriter, h'.wrote, h'.leftOut⟩
  unfold MessageRun.flush
  dsimp only
  split
  · split
    · exact hthrew (hcleared.broadcasts _)
    · exact hcleared.broadcasts _
  · exact hcleared.broadcasts _

theorem runEager (h : LoopInv clientId s) (op : ClientOp) (e : EagerEnd) :
    LoopInv clientId (s.runEager clientId op e) := by
  cases e with
  | accepted affected =>
      have hrun := h.broadcasts affected
      exact ⟨hrun.deferred, hrun.hearWriter, hrun.wrote, hrun.leftOut⟩
  | rejected reason => exact ⟨h.deferred, h.hearWriter, h.wrote, h.leftOut⟩
  | threw => exact ⟨h.deferred, h.hearWriter, h.wrote, h.leftOut⟩

theorem record (h : LoopInv clientId s) (w : Written) : LoopInv clientId (s.record w) := by
  refine ⟨?_, fun table => ?_, fun w' => ?_, fun table exclude hmem => ?_⟩
  · unfold MessageRun.record
    dsimp only
    rw [deferredAfter_snoc, ← h.deferred]
    rfl
  · unfold MessageRun.record
    dsimp only
    by_cases hw : w.hearWriter = true
    · rw [if_pos hw, List.mem_union_iff, h.hearWriter, List.mem_singleton]
      constructor
      · rintro (⟨w', hw', hrest⟩ | rfl)
        · exact ⟨w', List.mem_append_left _ hw', hrest⟩
        · exact ⟨w, List.mem_append_right _ (List.mem_singleton_self _), hw, rfl⟩
      · rintro ⟨w', hw', hasked, htable⟩
        rcases List.mem_append.1 hw' with hold | hnew
        · exact Or.inl ⟨w', hold, hasked, htable⟩
        · cases List.mem_singleton.1 hnew
          exact Or.inr htable.symm
    · rw [if_neg hw, h.hearWriter]
      constructor
      · rintro ⟨w', hw', hrest⟩
        exact ⟨w', List.mem_append_left _ hw', hrest⟩
      · rintro ⟨w', hw', hasked, htable⟩
        rcases List.mem_append.1 hw' with hold | hnew
        · exact ⟨w', hold, hasked, htable⟩
        · cases List.mem_singleton.1 hnew
          exact absurd hasked hw
  · simp [MessageRun.record, h.wrote]
  · rcases List.mem_append.1 hmem with hold | hnew
    · exact h.leftOut table exclude hold
    · cases List.mem_singleton.1 hnew

theorem reject (h : LoopInv clientId s) (op : ClientOp) (reason : String) :
    LoopInv clientId (s.reject op reason) :=
  h.refuse _ _ _ (Or.inl rfl)

theorem takeOp (h : LoopInv clientId s) (queries : String → Option QueryOptions) (ops : TextOps)
    (e : ClientOp × OpEnv) : LoopInv clientId (takeOp queries ops clientId s e) := by
  unfold HearWriter.takeOp
  split
  · exact h
  · split
    · exact h.refuse _ _ _ (Or.inl rfl)
    · exact h.reject _ _
    · split
      · exact h.reject _ _
      · split
        · exact h.refuse _ _ _ (Or.inr rfl)
        · split
          · dsimp only
            split
            · exact h.flush _
            · exact (h.flush _).runEager _ _
          · split
            · exact h.reject _ _
            · exact ⟨h.deferred, h.hearWriter, h.wrote, h.leftOut⟩
            · exact h.record _

theorem takeOps (queries : String → Option QueryOptions) (ops : TextOps) (clientId : String)
    (message : List (ClientOp × OpEnv)) :
    LoopInv clientId (takeOps queries ops clientId message) := by
  unfold HearWriter.takeOps
  induction message using List.reverseRecOn with
  | nil => exact start
  | append_singleton message e ih =>
      rw [List.foldl_append]
      exact ih.takeOp queries ops e

end LoopInv

/-- The broadcasts at the end leave the writer out unless it is to hear of the table. -/
theorem mem_broadcasts_end {clientId exclude table : String} {ran : Nat} {s : MessageRun}
    (h : LoopInv clientId s) :
    (exclude ≠ clientId ∧ Seen.broadcast table exclude ∈ (broadcastDeferred clientId ran s).seen) ↔
      table ∈ s.deferred.take ran ∧ table ∈ s.hearWriter ∧ exclude = "" ∧ clientId ≠ "" := by
  unfold broadcastDeferred
  rw [List.mem_append, List.mem_map]
  constructor
  · rintro ⟨hexclude, hmem | ⟨table', htable', heq⟩⟩
    · exact absurd (h.leftOut table exclude hmem) hexclude
    · by_cases hheard : table' ∈ s.hearWriter
      · rw [if_pos hheard] at heq
        cases heq
        exact ⟨htable', hheard, rfl, fun hempty => hexclude hempty.symm⟩
      · rw [if_neg hheard] at heq
        cases heq
        exact absurd rfl hexclude
  · rintro ⟨htable, hheard, rfl, hne⟩
    exact ⟨fun hempty => hne hempty.symm, Or.inr ⟨table, htable, by rw [if_pos hheard]⟩⟩

/-- Whether a write changed something, or whom a broadcast leaves out. -/
def Seen.brief : Seen → Bool × String × String
  | .wrote w => (w.changed, w.op.table, "")
  | .broadcast table exclude => (false, table, exclude)

def noTexts : TextOps where
  applyHunks s _ := s
  merge3 _ s _ := s
  hashText _ := 0
  recordSeen _ _ _ := .null

/-- "notes" is consistent and "cursors" is eager. -/
def twoQueries (query : String) : Option QueryOptions :=
  if query = "cursors" then some ⟨true, .eager, false⟩ else some ⟨true, .consistent, true⟩

/-- A resolver that answers with a title of its own. -/
def retitle : ConflictPolicy :=
  .custom fun _ row _ => .ok ⟨row.insert "title" (.str "both"), fun _ => false⟩

def storedNote : ExistingRow :=
  ⟨some ((∅ : Row).insert "title" (.str "old")), some "1", ∅⟩

def retitleEnv : OpEnv where
  fresh := true
  userId := "u"
  policy := retitle
  columns := ⟨[], none⟩
  failed := none
  existing := some storedNote
  refused := none
  affected := []
  write := .stored
  flushThrows := none
  eager := .accepted []

def renameNote : ClientOp where
  id := "1"
  table := "notes"
  op := .update
  rowId := "n"
  payload := some ((∅ : Row).insert "title" (.str "mine"))
  hlc := "2"
  batchId := none

def moveCursor : ClientOp where
  id := "2"
  table := "cursors"
  op := .update
  rowId := "c"
  payload := none
  hlc := "3"
  batchId := none

end HearWriter
end Server
end Reflectdb
