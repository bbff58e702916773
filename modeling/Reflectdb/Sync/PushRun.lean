import Reflectdb.Lib.Machine
import Reflectdb.Server.BatchQueue

/-!
# Push run — the messages of one push

A push looks at the queue once and sends its messages one after the other, while ops are created,
acked and rejected.  What it sends is what it found, in order and with every batch in one message.
-/

namespace Reflectdb
namespace Sync

open Core Client Server Lib

/-! ## Runs -/

/-- A client, with the push that started last: the client as the push found it and the time, the
messages that it has sent, and whether a send has thrown. -/
structure PushRun where
  client : PushState
  created : List ClientOp
  found : PushState
  startedAt : Nat
  sent : List (List ClientOp)
  threw : Bool

inductive PushEvent
  /-- `insert`, `update`, `delete` or `batch`. -/
  | create (ops : List ClientOp)
  | ack (opIds : List String)
  | reject (opId : String) (batchId : Option String)
  /-- The connection is lost. -/
  | clearInFlight
  /-- `doPush`, once the storage is flushed. -/
  | doPush (now : Nat)
  | send (sentAt : Nat)
  | sendThrows

namespace PushRun

/-- A queue with no push before. -/
def ofQueue (queue : List ClientOp) : PushRun :=
  ⟨{ PushState.empty with pendingOps := queue }, queue, .empty, 0, [], false⟩

/-- The pending ops that were not in flight when the push began, in the order of the queue. -/
def eligible (s : PushRun) : List ClientOp :=
  s.found.pendingOps.filter (s.found.sendable s.startedAt)

/-- Op ids are random UUIDs. -/
def CreatesNew (s : PushRun) (ops : List ClientOp) : Prop :=
  ((s.created ++ ops).map (·.id)).Nodup ∧ FormsBatch s.created ops

instance (s : PushRun) (ops : List ClientOp) : Decidable (s.CreatesNew ops) :=
  inferInstanceAs (Decidable (_ ∧ _))

def step (s : PushRun) : PushEvent → Option PushRun
  | .create ops =>
    if s.CreatesNew ops then
      some
        { s with
          client := { s.client with pendingOps := s.client.pendingOps ++ ops }
          created := s.created ++ ops }
    else none
  | .ack opIds => some { s with client := s.client.ack opIds }
  | .reject opId batchId => some { s with client := s.client.reject opId batchId }
  | .clearInFlight => some { s with client := s.client.clearInFlight }
  | .doPush now =>
    (s.client.startPush now).map fun client =>
      { s with client := client, found := s.client, startedAt := now, sent := [], threw := false }
  | .send sentAt =>
    match s.client.chunks with
    | [] => none
    | chunk :: rest =>
      some
        { s with
          client := s.client.sentChunk chunk rest sentAt
          sent := s.sent ++ [chunk] }
  | .sendThrows =>
    match s.client.chunks with
    | [] => none
    | chunk :: _ => some { s with client := s.client.failedChunk chunk, threw := true }

end PushRun

def pushMachine (queue : List ClientOp) : Lib.Machine PushRun PushEvent :=
  ⟨.ofQueue queue, PushRun.step⟩

/-- The queue of a client: no op twice, and the ops of a batch stand together. -/
structure QueueOf (queue : List ClientOp) : Prop where
  nodup : (queue.map (·.id)).Nodup
  contiguous : Contiguous ClientOp.batch queue

/-! ## The property -/

/-- One batch, larger than a message should be. -/
def OversizeBatch (chunk : List ClientOp) : Prop :=
  MAX_BATCH_SIZE < chunk.length ∧ ∃ b, ∀ op ∈ chunk, op.batch = some b

namespace PushRun

/-- What the push has sent so far is what it found, from the first op on; every batch is in one
message, and a message that is too large is one batch. -/
structure SendsQueue (s : PushRun) : Prop where
  inOrder : s.sent.flatten <+: s.eligible
  once : (s.sent.flatten.map (·.id)).Nodup
  whole : ∀ chunk ∈ s.sent, KeepsWhole ClientOp.batch s.eligible chunk
  size : ∀ chunk ∈ s.sent, chunk.length ≤ MAX_BATCH_SIZE ∨ OversizeBatch chunk
  /-- A push that has ended, and did not throw, has sent everything. -/
  all : s.client.chunks = [] → s.threw = false → s.sent.flatten = s.eligible

/-! ## The invariant -/

/-- The messages sent and those to be sent are the chunks of what the push found. -/
structure Inv (s : PushRun) : Prop where
  nodup : (s.created.map (·.id)).Nodup
  contiguous : Contiguous ClientOp.batch s.created
  pending : s.client.pendingOps.Sublist s.created
  found : s.found.pendingOps.Sublist s.created
  chunks : s.threw = false → s.sent ++ s.client.chunks = PushState.pushChunks s.eligible
  threw : s.threw = true →
    s.client.chunks = [] ∧ s.sent <+: PushState.pushChunks s.eligible

theorem Inv.start {queue : List ClientOp} (h : QueueOf queue) : Inv (.ofQueue queue) where
  nodup := h.nodup
  contiguous := h.contiguous
  pending := List.Sublist.refl _
  found := List.nil_sublist _
  chunks _ := rfl
  threw h := by cases h

variable {s s' : PushRun}

/-- The queue changes, and nothing of the push. -/
theorem Inv.queue (h : Inv s) {client : PushState} (hpending : client.pendingOps.Sublist s.created)
    (hchunks : client.chunks = s.client.chunks) : Inv { s with client := client } where
  nodup := h.nodup
  contiguous := h.contiguous
  pending := hpending
  found := h.found
  chunks ht := by
    dsimp only
    rw [hchunks]
    exact h.chunks ht
  threw ht := by
    dsimp only
    rw [hchunks]
    exact h.threw ht

theorem Inv.step {e : PushEvent} (h : Inv s) (hs : s.step e = some s') : Inv s' := by
  cases e with
  | create ops =>
      rcases Option.ite_none_right_eq_some.1 hs with ⟨⟨hnodup, hforms⟩, hs'⟩
      cases hs'
      have hold := List.sublist_append_left s.created ops
      exact {
        nodup := hnodup
        contiguous := by
          refine h.contiguous.append (fun x hx y hy => ?_) fun x hx y hy hsome => ?_
          · rcases hforms with ⟨hnone, -⟩ | hbatches
            · rw [ClientOp.batch, ClientOp.batch, hnone x hx, hnone y hy]
            · exact ClientOp.batch_congr ((hbatches y hy).2.1 x hx)
          · exact hforms.new x hx y hy hsome
        pending := h.pending.append (List.Sublist.refl ops)
        found := h.found.trans hold
        chunks := h.chunks
        threw := h.threw }
  | ack opIds =>
      cases hs
      exact h.queue (List.filter_sublist.trans h.pending) rfl
  | reject opId batchId =>
      cases hs
      exact h.queue ((List.filter_sublist.trans List.filter_sublist).trans h.pending) rfl
  | clearInFlight =>
      cases hs
      exact h.queue h.pending rfl
  | doPush now =>
      rcases Option.map_eq_some_iff.1 hs with ⟨client, hclient, rfl⟩
      rcases Option.ite_none_right_eq_some.1 hclient with ⟨-, hclient⟩
      cases hclient
      exact {
        nodup := h.nodup
        contiguous := h.contiguous
        pending := h.pending
        found := h.pending
        chunks := fun _ => rfl
        threw := fun ht => by cases ht }
  | send sentAt =>
      rw [PushRun.step] at hs
      cases hchunks : s.client.chunks with
      | nil =>
          rw [hchunks] at hs
          cases hs
      | cons chunk rest =>
          rw [hchunks] at hs
          cases hs
          refine ⟨h.nodup, h.contiguous, h.pending, h.found, fun ht => ?_, fun ht => ?_⟩
          · have hold := h.chunks ht
            rw [hchunks] at hold
            exact (List.append_assoc s.sent [chunk] rest).trans hold
          · have hnone := (h.threw ht).1
            rw [hchunks] at hnone
            cases hnone
  | sendThrows =>
      rw [PushRun.step] at hs
      cases hchunks : s.client.chunks with
      | nil =>
          rw [hchunks] at hs
          cases hs
      | cons chunk rest =>
          rw [hchunks] at hs
          cases hs
          have hrunning : s.threw = false := by
            by_contra hne
            have hnone := (h.threw (by simpa using hne)).1
            rw [hchunks] at hnone
            cases hnone
          refine ⟨h.nodup, h.contiguous, h.pending, h.found, (fun ht => by cases ht),
            fun _ => ⟨rfl, ?_⟩⟩
          exact ⟨s.client.chunks, h.chunks hrunning⟩

theorem Inv.sent_prefix (h : Inv s) : s.sent <+: PushState.pushChunks s.eligible := by
  cases ht : s.threw with
  | true => exact (h.threw ht).2
  | false => exact ⟨s.client.chunks, h.chunks ht⟩

theorem Inv.sendsQueue (h : Inv s) : SendsQueue s := by
  have hsub : s.eligible.Sublist s.created := List.filter_sublist.trans h.found
  have hflat : s.sent.flatten <+: s.eligible := by
    rcases h.sent_prefix with ⟨rest, hrest⟩
    refine ⟨rest.flatten, ?_⟩
    rw [← List.flatten_append, hrest, PushState.flatten_pushChunks]
  have hmem : ∀ chunk ∈ s.sent, chunk ∈ PushState.pushChunks s.eligible := fun chunk hchunk =>
    h.sent_prefix.subset hchunk
  exact {
    inOrder := hflat
    once := h.nodup.sublist ((hflat.sublist.trans hsub).map _)
    whole := fun chunk hchunk =>
      PushState.keepsWhole_pushChunks (h.contiguous.sublist hsub) (hmem chunk hchunk)
    size := fun chunk hchunk => by
      by_cases hlen : chunk.length ≤ MAX_BATCH_SIZE
      · exact Or.inl hlen
      · -- Too many ops: it is one run, and so one batch.
        have hrun := (PushState.fits_of_mem_pushChunks (hmem chunk hchunk)).resolve_left hlen
        have hmany : 1 < chunk.length := by
          have : MAX_BATCH_SIZE = 100 := rfl
          omega
        exact Or.inr ⟨Nat.lt_of_not_le hlen, PushState.batch_of_mem_batchRuns hrun hmany⟩
    all := fun hended hnot => by
      have hchunks := h.chunks hnot
      rw [hended, List.append_nil] at hchunks
      rw [hchunks, PushState.flatten_pushChunks] }

end PushRun

/-- Whatever happens to the queue meanwhile, a push sends the ops that it found, in order and once,
with each batch in one message, and no message is too large but for one batch that is. -/
theorem sendsQueue_of_reachable {queue : List ClientOp} (hqueue : QueueOf queue) {s : PushRun}
    (h : (pushMachine queue).Reachable s) : s.SendsQueue :=
  (h.invariant (P := PushRun.Inv) (PushRun.Inv.start hqueue) fun hi _ hs => hi.step hs).sendsQueue

/-- A batch of two ops and an op of its own: one message, while the first op is acked and another
one is created. -/
theorem sendsQueue_ackedMeanwhile : ∃ s, (pushMachine []).Reachable s ∧
    s.sent.map (·.map (·.id)) = [["1", "2", "3"]] ∧
      s.client.pendingOps.map (·.id) = ["2", "3", "4"] ∧
      s.SendsQueue := by
  let op (id : String) (batchId : Option String) : ClientOp :=
    ⟨id, "todos", .insert, "row" ++ id, some ∅, "", batchId⟩
  let es : List PushEvent := [.create [op "1" (some "b"), op "2" (some "b")], .create [op "3" none],
    .doPush 0, .ack ["1"], .create [op "4" none], .send 0]
  have hrun : ((pushMachine []).run es).map (fun s =>
      (s.sent.map (·.map (·.id)), s.client.pendingOps.map (·.id))) =
        some ([["1", "2", "3"]], ["2", "3", "4"]) := by
    decide +kernel
  rcases Option.map_eq_some_iff.1 hrun with ⟨s, hs, hsummary⟩
  have hreach := Lib.Machine.Reachable.of_run hs
  have hempty : QueueOf [] := ⟨List.nodup_nil, contiguous_nil⟩
  exact ⟨s, hreach, congrArg Prod.fst hsummary, congrArg Prod.snd hsummary,
    sendsQueue_of_reachable hempty hreach⟩

end Sync
end Reflectdb
