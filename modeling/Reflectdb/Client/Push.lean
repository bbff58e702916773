import Reflectdb.Core.Types
import Reflectdb.Lib.Replay
import Reflectdb.Lib.Runs

/-!
# Push — the client's pending ops and what one push sends

`SyncClient.doPush` sends the pending ops that are not on the wire, cut into `ops` messages that
never split a batch.  A resend of an op id happens when its in-flight mark has been dropped (the
connection was lost, or the send failed) or is older than the TTL.
-/

namespace Reflectdb
namespace Client

open Core

def IN_FLIGHT_TTL_MS : Nat := 30000

/-- The part of `SyncClient` and `ClientStore` that resends ops: `pendingOps` holds the ops with
status `pending`, and `chunks` what the running `doPush` has still to send. -/
structure PushState where
  pendingOps : List ClientOp
  inFlightOps : Record Nat
  chunks : List (List ClientOp)

namespace PushState

def empty : PushState :=
  ⟨[], ∅, []⟩

def addPendingOp (c : PushState) (op : ClientOp) : PushState :=
  { c with pendingOps := c.pendingOps ++ [op] }

/-! ## `doPush` -/

/-- Whether a push at time `now` sends the op: it is not on the wire, or has been for the TTL. -/
def sendable (c : PushState) (now : Nat) (op : ClientOp) : Bool :=
  match c.inFlightOps.lookup op.id with
  | none => true
  | some sentAt => sentAt + IN_FLIGHT_TTL_MS ≤ now

/-- The pending list cut into the runs that may not be split: the contiguous ops of one batch, and
every other op by itself. -/
def batchRuns (ops : List ClientOp) : List (List ClientOp) :=
  ops.splitBy fun a b => a.batch.isSome && a.batchId == b.batchId

/-- `chunks` and `current` of the loop in `doPush`. -/
structure Chunking where
  chunks : List (List ClientOp)
  current : List ClientOp

/-- One round of the loop in `doPush`. -/
def addRun (acc : Chunking) (run : List ClientOp) : Chunking :=
  if run.length > MAX_BATCH_SIZE then
    -- A batch over the cap goes out as its own message, for the server to reject.
    ⟨(if acc.current = [] then acc.chunks else acc.chunks ++ [acc.current]) ++ [run], []⟩
  else if acc.current.length + run.length > MAX_BATCH_SIZE then
    ⟨acc.chunks ++ [acc.current], run⟩
  else
    ⟨acc.chunks, acc.current ++ run⟩

def pushChunks (ops : List ClientOp) : List (List ClientOp) :=
  let acc := (batchRuns ops).foldl addRun ⟨[], []⟩
  if acc.current = [] then acc.chunks else acc.chunks ++ [acc.current]

/-- The start of `doPush`; pushes queue behind each other, so none is under way. -/
def startPush (c : PushState) (now : Nat) : Option PushState :=
  if c.chunks = [] then
    some { c with chunks := pushChunks (c.pendingOps.filter (c.sendable now)) }
  else none

def markInFlight (marks : Record Nat) (ops : List ClientOp) (sentAt : Nat) : Record Nat :=
  ops.foldl (fun m op => m.insert op.id sentAt) marks

def unmark (marks : Record Nat) (ids : List String) : Record Nat :=
  ids.foldl (fun m id => m.erase id) marks

/-- `transport.send` of a chunk returned. -/
def sentChunk (c : PushState) (chunk : List ClientOp) (rest : List (List ClientOp)) (sentAt : Nat) :
    PushState :=
  { c with inFlightOps := markInFlight c.inFlightOps chunk sentAt, chunks := rest }

/-- `transport.send` of a chunk threw: its marks are dropped and the push ends. -/
def failedChunk (c : PushState) (chunk : List ClientOp) : PushState :=
  { c with inFlightOps := unmark c.inFlightOps (chunk.map (·.id)), chunks := [] }

/-! ## Answers and disconnects -/

/-- An `ack` message: `markSynced`. -/
def ack (c : PushState) (opIds : List String) : PushState :=
  { c with
    pendingOps := c.pendingOps.filter (fun op => op.id ∉ opIds)
    inFlightOps := unmark c.inFlightOps opIds }

/-- A `reject` message: `markRejected` and, for an op of a batch, `rejectBatch`. -/
def reject (c : PushState) (opId : String) (batchId : Option String) : PushState :=
  let rest := c.pendingOps.filter (·.id ≠ opId)
  let inBatch : ClientOp → Bool := fun op =>
    (batchId.filter (· ≠ "")).isSome && op.batchId == batchId
  { c with
    pendingOps := rest.filter (fun op => ¬ inBatch op)
    inFlightOps := unmark (c.inFlightOps.erase opId) ((rest.filter inBatch).map (·.id)) }

def clearInFlight (c : PushState) : PushState :=
  { c with inFlightOps := ∅ }

end PushState

/-! ## A push sends pending ops only -/

namespace PushState

theorem flatten_addRun (acc : Chunking) (run : List ClientOp) :
    (addRun acc run).chunks.flatten ++ (addRun acc run).current =
      acc.chunks.flatten ++ acc.current ++ run := by
  unfold addRun
  split
  · by_cases hc : acc.current = []
    · simp [hc]
    · simp [hc]
  · split
    · simp
    · simp

theorem flatten_foldl_addRun (runs : List (List ClientOp)) :
    ∀ acc : Chunking,
      (runs.foldl addRun acc).chunks.flatten ++ (runs.foldl addRun acc).current =
        acc.chunks.flatten ++ acc.current ++ runs.flatten := by
  induction runs with
  | nil =>
      intro acc
      simp
  | cons run runs ih =>
      intro acc
      rw [List.foldl_cons, ih, flatten_addRun]
      simp

/-- The messages of one push, one after the other, are the ops it sends. -/
theorem flatten_pushChunks (ops : List ClientOp) : (pushChunks ops).flatten = ops := by
  have h := flatten_foldl_addRun (batchRuns ops) ⟨[], []⟩
  have hruns : (batchRuns ops).flatten = ops := List.flatten_splitBy _ ops
  unfold pushChunks
  by_cases hc : ((batchRuns ops).foldl addRun ⟨[], []⟩).current = []
  · simpa [hc, hruns] using h
  · simpa [hc, hruns] using h

theorem mem_of_mem_pushChunks {ops chunk : List ClientOp} {op : ClientOp}
    (hchunk : chunk ∈ pushChunks ops) (hop : op ∈ chunk) : op ∈ ops := by
  have : op ∈ (pushChunks ops).flatten := List.mem_flatten.2 ⟨chunk, hchunk, hop⟩
  simpa [flatten_pushChunks] using this

/-! ## In-flight marks -/

theorem lookup_markInFlight (ops : List ClientOp) (sentAt : Nat) (id : String) :
    ∀ marks : Record Nat, (markInFlight marks ops sentAt).lookup id =
      if id ∈ ops.map (·.id) then some sentAt else marks.lookup id := by
  induction ops with
  | nil =>
      intro marks
      simp [markInFlight]
  | cons op ops ih =>
      intro marks
      rw [markInFlight, List.foldl_cons]
      refine (ih _).trans ?_
      by_cases hid : id = op.id
      · subst hid
        simp [AList.lookup_insert]
      · rw [AList.lookup_insert_ne hid]
        simp [hid]

theorem lookup_unmark (ids : List String) (id : String) (marks : Record Nat) :
    (unmark marks ids).lookup id = if id ∈ ids then none else marks.lookup id :=
  Lib.lookup_foldl_erase ids id marks

/-! ## A push keeps batches whole -/

theorem sublist_of_mem_pushChunks {ops chunk : List ClientOp} (hchunk : chunk ∈ pushChunks ops) :
    chunk.Sublist ops := by
  have hsub := List.sublist_flatten_of_mem hchunk
  rwa [flatten_pushChunks] at hsub

/-- The runs that the loop has taken are not cut. -/
theorem run_of_mem_addRun {acc : Chunking} {run : List ClientOp} {runs : List (List ClientOp)}
    (h : ∀ chunk ∈ acc.chunks ++ [acc.current], ∀ op ∈ chunk,
      ∃ run' ∈ runs, op ∈ run' ∧ ∀ op' ∈ run', op' ∈ chunk) :
    ∀ chunk ∈ (addRun acc run).chunks ++ [(addRun acc run).current], ∀ op ∈ chunk,
      ∃ run' ∈ runs ++ [run], op ∈ run' ∧ ∀ op' ∈ run', op' ∈ chunk := by
  have hold : ∀ chunk ∈ acc.chunks ++ [acc.current], ∀ op ∈ chunk,
      ∃ run' ∈ runs ++ [run], op ∈ run' ∧ ∀ op' ∈ run', op' ∈ chunk := by
    intro chunk hchunk op hop
    rcases h chunk hchunk op hop with ⟨run', hrun', hin, hall⟩
    exact ⟨run', List.mem_append_left _ hrun', hin, hall⟩
  have hself : ∀ op ∈ run, ∃ run' ∈ runs ++ [run], op ∈ run' ∧ ∀ op' ∈ run', op' ∈ run :=
    fun op hop => ⟨run, by simp, hop, fun _ hop' => hop'⟩
  intro chunk hchunk
  unfold addRun at hchunk
  split at hchunk
  · rw [List.append_assoc] at hchunk
    rcases List.mem_append.1 hchunk with hchunk | hnew
    · refine hold chunk ?_
      split at hchunk
      · exact List.mem_append_left _ hchunk
      · exact hchunk
    · rcases List.mem_cons.1 hnew with rfl | hempty
      · exact hself
      · rw [List.mem_singleton.1 hempty]
        exact fun op hop => absurd hop List.not_mem_nil
  · split at hchunk
    · rcases List.mem_append.1 hchunk with hchunk | hnew
      · exact hold chunk hchunk
      · rw [List.mem_singleton.1 hnew]
        exact hself
    · rcases List.mem_append.1 hchunk with hchunk | hnew
      · exact hold chunk (List.mem_append_left _ hchunk)
      · rw [List.mem_singleton.1 hnew]
        intro op hop
        rcases List.mem_append.1 hop with hcurrent | hrun
        · rcases hold acc.current (by simp) op hcurrent with ⟨run', hrun', hin, hall⟩
          exact ⟨run', hrun', hin, fun op' hop' => List.mem_append_left _ (hall op' hop')⟩
        · rcases hself op hrun with ⟨run', hrun', hin, hall⟩
          exact ⟨run', hrun', hin, fun op' hop' => List.mem_append_right _ (hall op' hop')⟩

theorem run_of_mem_foldl_addRun (runs : List (List ClientOp)) :
    ∀ {acc : Chunking} {done : List (List ClientOp)},
      (∀ chunk ∈ acc.chunks ++ [acc.current], ∀ op ∈ chunk,
        ∃ run ∈ done, op ∈ run ∧ ∀ op' ∈ run, op' ∈ chunk) →
      ∀ chunk ∈ (runs.foldl addRun acc).chunks ++ [(runs.foldl addRun acc).current],
        ∀ op ∈ chunk, ∃ run ∈ done ++ runs, op ∈ run ∧ ∀ op' ∈ run, op' ∈ chunk := by
  induction runs with
  | nil =>
      intro acc done h
      rwa [List.append_nil]
  | cons run runs ih =>
      intro acc done h
      rw [List.foldl_cons, List.append_cons done]
      exact ih (run_of_mem_addRun h)

/-- A message of a push has each op's run in it. -/
theorem run_of_mem_pushChunks {ops chunk : List ClientOp} (hchunk : chunk ∈ pushChunks ops)
    {op : ClientOp} (hop : op ∈ chunk) :
    ∃ run ∈ batchRuns ops, op ∈ run ∧ ∀ op' ∈ run, op' ∈ chunk := by
  have hruns := @run_of_mem_foldl_addRun (batchRuns ops) ⟨[], []⟩ [] (by simp) chunk
  rw [List.nil_append] at hruns
  refine hruns ?_ op hop
  unfold pushChunks at hchunk
  dsimp only at hchunk
  split at hchunk
  · exact List.mem_append_left _ hchunk
  · exact hchunk

/-- What a push sends of a batch, it sends in one message, if the ops of a batch stand together. -/
theorem keepsWhole_pushChunks {ops chunk : List ClientOp}
    (hc : Lib.Contiguous ClientOp.batch ops) (hchunk : chunk ∈ pushChunks ops) :
    Lib.KeepsWhole ClientOp.batch ops chunk := by
  intro op hop hbatch op' hop' heq
  rcases run_of_mem_pushChunks hchunk hop with ⟨run, hrun, hin, hall⟩
  refine hall op' (Lib.keepsWhole_of_mem_splitBy (fun a b => ?_) hc hrun op hin hbatch op' hop' heq)
  rw [Bool.and_eq_true, beq_iff_eq]
  exact and_congr_right fun hsome => ⟨ClientOp.batch_congr, ClientOp.batchId_congr hsome⟩

/-! ## The size of messages -/

/-- The message fits, or is one run by itself. -/
def Fits (runs : List (List ClientOp)) (chunk : List ClientOp) : Prop :=
  chunk.length ≤ MAX_BATCH_SIZE ∨ chunk ∈ runs

theorem fits_addRun {runs : List (List ClientOp)} {acc : Chunking} {run : List ClientOp}
    (hrun : run ∈ runs) (hchunks : ∀ chunk ∈ acc.chunks, Fits runs chunk)
    (hcurrent : acc.current.length ≤ MAX_BATCH_SIZE) :
    (∀ chunk ∈ (addRun acc run).chunks, Fits runs chunk) ∧
      (addRun acc run).current.length ≤ MAX_BATCH_SIZE := by
  have hclosed : ∀ chunk ∈ acc.chunks ++ [acc.current], Fits runs chunk := fun chunk hchunk => by
    rcases List.mem_append.1 hchunk with hold | hlast
    · exact hchunks chunk hold
    · rw [List.mem_singleton.1 hlast]
      exact Or.inl hcurrent
  unfold addRun
  split
  · refine ⟨fun chunk hchunk => ?_, Nat.zero_le _⟩
    rcases List.mem_append.1 hchunk with hold | hlast
    · split at hold
      · exact hchunks chunk hold
      · exact hclosed chunk hold
    · rw [List.mem_singleton.1 hlast]
      exact Or.inr hrun
  · rename_i hfits
    split
    · exact ⟨hclosed, Nat.le_of_not_lt hfits⟩
    · rename_i hjoined
      refine ⟨hchunks, ?_⟩
      rw [List.length_append]
      omega

theorem fits_foldl_addRun {all : List (List ClientOp)} (runs : List (List ClientOp)) :
    ∀ {acc : Chunking}, (∀ run ∈ runs, run ∈ all) → (∀ chunk ∈ acc.chunks, Fits all chunk) →
      acc.current.length ≤ MAX_BATCH_SIZE →
        (∀ chunk ∈ (runs.foldl addRun acc).chunks, Fits all chunk) ∧
          (runs.foldl addRun acc).current.length ≤ MAX_BATCH_SIZE := by
  induction runs with
  | nil => exact fun _ hchunks hcurrent => ⟨hchunks, hcurrent⟩
  | cons run runs ih =>
      intro acc hall hchunks hcurrent
      have hstep := fits_addRun (hall run List.mem_cons_self) hchunks hcurrent
      exact ih (fun run' hrun' => hall run' (List.mem_cons_of_mem _ hrun')) hstep.1 hstep.2

theorem fits_of_mem_pushChunks {ops chunk : List ClientOp} (hchunk : chunk ∈ pushChunks ops) :
    Fits (batchRuns ops) chunk := by
  have hfold := @fits_foldl_addRun (batchRuns ops) (batchRuns ops) ⟨[], []⟩ (fun _ h => h) nofun
    (Nat.zero_le _)
  unfold pushChunks at hchunk
  dsimp only at hchunk
  split at hchunk
  · exact hfold.1 chunk hchunk
  · rcases List.mem_append.1 hchunk with hold | hlast
    · exact hfold.1 chunk hold
    · rw [List.mem_singleton.1 hlast]
      exact Or.inl hfold.2

/-- A run of two ops or more is of one batch. -/
theorem batch_of_mem_batchRuns {ops run : List ClientOp} (hrun : run ∈ batchRuns ops)
    (hlen : 1 < run.length) : ∃ b, ∀ op ∈ run, op.batch = some b := by
  have hchain := List.isChain_of_mem_splitBy hrun
  cases run with
  | nil => cases hlen
  | cons first run =>
      cases run with
      | nil => exact absurd hlen (Nat.lt_irrefl 1)
      | cons second run =>
          have hlink : first.batch.isSome ∧ first.batchId = second.batchId := by
            simpa using (List.isChain_cons_cons.1 hchain).1
          rcases Option.isSome_iff_exists.1 hlink.1 with ⟨b, hb⟩
          refine ⟨b, fun op hop => ?_⟩
          have hall : ∀ {ops : List ClientOp} {op : ClientOp}, op.batch = some b →
              (op :: ops).IsChain (fun x y => (x.batch.isSome && x.batchId == y.batchId) = true) →
                ∀ op' ∈ op :: ops, op'.batch = some b := fun {ops} => by
            induction ops with
            | nil =>
                intro op hop _ op' hop'
                rw [List.mem_singleton.1 hop', hop]
            | cons next ops ih =>
                intro op hop hlinks op' hop'
                have hnext : op.batch.isSome ∧ op.batchId = next.batchId := by
                  simpa using (List.isChain_cons_cons.1 hlinks).1
                rcases List.mem_cons.1 hop' with rfl | hmem
                · exact hop
                · refine ih ?_ (List.isChain_cons_cons.1 hlinks).2 op' hmem
                  rw [← ClientOp.batch_congr hnext.2, hop]
          exact hall hb hchain op hop

end PushState

end Client
end Reflectdb
