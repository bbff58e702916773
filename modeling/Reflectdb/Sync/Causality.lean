import Mathlib.Data.List.Basic
import Reflectdb.Core.Hlc
import Reflectdb.Core.Types
import Reflectdb.Lib.Machine

/-!
# Causality — the client's clock and the HLCs of the messages it processes

A server that takes ops under the clients' HLCs and sends rows under its own, and one client.
`handleMessage` merges the HLC of `bootstrap_complete` and `resume_complete` into the client's
clock; a delta, a snapshot and `resume_rejected` leave the clock alone.
-/

namespace Reflectdb
namespace Sync

open Core

/-! ## Model -/

/-- A server message, as far as the clock goes: the HLC it carries, and for row data the HLCs its
rows are stored under. -/
inductive Inbound
  | delta (hlc : HLC) (version : Option HLC)
  | snapshot (hlc : HLC) (versions : List HLC)
  | bootstrapComplete (serverHlc : HLC)
  | resumeComplete (serverHlc : HLC)
  | resumeRejected (serverHlc : HLC)
  /-- An ack or a reject: neither carries an HLC. -/
  | answer
  deriving DecidableEq

/-- The HLC of a message. -/
def Inbound.hlc : Inbound → Option HLC
  | .delta hlc _ => some hlc
  | .snapshot hlc _ => some hlc
  | .bootstrapComplete hlc => some hlc
  | .resumeComplete hlc => some hlc
  | .resumeRejected hlc => some hlc
  | .answer => none

/-- The HLCs a message brings that `handleMessage` passes to `mergeServerHlc`. -/
def Inbound.merged : Inbound → List HLC
  | .bootstrapComplete hlc => [hlc]
  | .resumeComplete hlc => [hlc]
  | _ => []

/-- The HLCs a message brings and `handleMessage` does not merge. -/
def Inbound.unmerged : Inbound → List HLC
  | .delta hlc version => hlc :: version.toList
  | .snapshot hlc versions => hlc :: versions
  | .resumeRejected hlc => [hlc]
  | _ => []

/-- Row data on its way: an await lies between taking the HLC and reading the rows. -/
inductive Outbound
  /-- A broadcast or a resume has its HLC. -/
  | stamped (hlc : HLC)
  /-- A bootstrap has its rows. -/
  | read (versions : List HLC)
  deriving DecidableEq

/-- An op of the client, with the HLCs of every message the client had processed before.  No step
reads the latter. -/
structure Created where
  hlc : HLC
  processed : List HLC
  deriving DecidableEq

structure ClockState where
  server : HLC
  /-- The HLC each row is stored under. -/
  rows : String → Option HLC
  outbound : List Outbound
  sent : List Inbound
  /-- `opCreator.getHlc()`. -/
  client : HLC
  merged : List HLC
  unmerged : List HLC
  created : List Created

inductive ClockEvent
  /-- The server takes an op of some client. -/
  | op (wall : Nat) (type : OpType) (rowId : String) (hlc : HLC)
  /-- A broadcast stamps its HLC. -/
  | stamp (wall : Nat)
  /-- A resume takes `clock.packed()`. -/
  | packed
  /-- A bootstrap or a window query reads rows. -/
  | read (rowIds : List String)
  /-- A broadcast sends the delta of a row as it reads it now. -/
  | sendDelta (job : Nat) (rowId : String)
  /-- A resume sends a snapshot of rows as it reads them now. -/
  | sendRows (job : Nat) (rowIds : List String)
  /-- A bootstrap sends what it has read, under `clock.packed()`. -/
  | sendRead (job : Nat)
  | complete (wall : Nat) (resume : Bool)
  /-- A resume is rejected, with `clock.peekNext()`. -/
  | rejectResume (wall : Nat)
  | answer
  /-- The client processes a message; messages may come in any order. -/
  | process (message : Nat) (wall : Nat)
  | create (wall : Nat)

def ClockState.start (clientId serverId : String) : ClockState where
  server := createHlc ("server:" ++ serverId)
  rows := fun _ => none
  outbound := []
  sent := []
  client := createHlc ("client:" ++ clientId)
  merged := []
  unmerged := []
  created := []

/-- `receiveClientHlc`, the drift gate and `resolveLww`. -/
def ClockState.takeOp (s : ClockState) (wall : Nat) (type : OpType) (rowId : String) (hlc : HLC) :
    ClockState :=
  let s := { s with server := receiveHlc wall s.server hlc }
  if wall + MAX_CLOCK_DRIFT_MS < hlc.ms then s
  else if ∀ stored ∈ s.rows rowId, stored.Before hlc then
    { s with rows := Function.update s.rows rowId (if type = .delete then none else some hlc) }
  else s

/-- `mergeServerHlc`. -/
def mergeServerHlc (wall : Nat) (client : HLC) (serverHlc : HLC) : HLC :=
  receiveHlc wall client serverHlc

/-- `handleMessage`. -/
def ClockState.handleMessage (s : ClockState) (wall : Nat) (message : Inbound) : ClockState :=
  { s with
    client := message.merged.foldl (mergeServerHlc wall) s.client
    merged := s.merged ++ message.merged
    unmerged := s.unmerged ++ message.unmerged }

/-- `nextOp`. -/
def ClockState.nextOp (s : ClockState) (wall : Nat) : ClockState :=
  let hlc := sendHlc wall s.client
  { s with client := hlc, created := s.created ++ [⟨hlc, s.merged ++ s.unmerged⟩] }

def clockStep (s : ClockState) : ClockEvent → Option ClockState
  | .op wall type rowId hlc => some (s.takeOp wall type rowId hlc)
  | .stamp wall =>
    let hlc := sendHlc wall s.server
    some { s with server := hlc, outbound := s.outbound ++ [.stamped hlc] }
  | .packed => some { s with outbound := s.outbound ++ [.stamped s.server] }
  | .read rowIds =>
    some { s with outbound := s.outbound ++ [.read (rowIds.filterMap s.rows)] }
  | .sendDelta job rowId =>
    match s.outbound[job]? with
    | some (.stamped hlc) => some { s with sent := s.sent ++ [.delta hlc (s.rows rowId)] }
    | _ => none
  | .sendRows job rowIds =>
    match s.outbound[job]? with
    | some (.stamped hlc) =>
      some { s with sent := s.sent ++ [.snapshot hlc (rowIds.filterMap s.rows)] }
    | _ => none
  | .sendRead job =>
    match s.outbound[job]? with
    | some (.read versions) => some { s with sent := s.sent ++ [.snapshot s.server versions] }
    | _ => none
  | .complete wall resume =>
    let hlc := sendHlc wall s.server
    let message := if resume then Inbound.resumeComplete hlc else .bootstrapComplete hlc
    some { s with server := hlc, sent := s.sent ++ [message] }
  | .rejectResume wall =>
    some { s with sent := s.sent ++ [.resumeRejected (sendHlc wall s.server)] }
  | .answer => some { s with sent := s.sent ++ [.answer] }
  | .process i wall =>
    match s.sent[i]? with
    | some message =>
      -- The client's wall clock is within the drift bound of what the server sends.
      if ∀ hlc ∈ message.hlc, hlc.ms ≤ wall + MAX_CLOCK_DRIFT_MS then
        some (s.handleMessage wall message)
      else none
    | none => none
  | .create wall => some (s.nextOp wall)

def clockMachine (clientId serverId : String) : Lib.Machine ClockState ClockEvent :=
  ⟨.start clientId serverId, clockStep⟩

/-! ## Causality -/

/-- Each op is newer than every HLC the client had processed. -/
def Causal (s : ClockState) : Prop :=
  ∀ op ∈ s.created, ∀ hlc ∈ op.processed, hlc.Before op.hlc

/-- The wall clock or the client's own clock has passed an HLC. -/
def Passed (wall : Nat) (client hlc : HLC) : Prop :=
  hlc.ms < wall ∨ hlc.time ≤ client.time

instance (wall : Nat) (client hlc : HLC) : Decidable (Passed wall client hlc) :=
  inferInstanceAs (Decidable (_ ∨ _))

/-- The client creates an op only when it has passed the HLCs it has not merged: those of the
deltas, snapshots and rejected resumes it has processed, and those the rows are stored under. -/
def CreatesWhenPassed (s : ClockState) : ClockEvent → Prop
  | .create wall => ∀ hlc ∈ s.unmerged, Passed wall s.client hlc
  | _ => True

instance (s : ClockState) (e : ClockEvent) : Decidable (CreatesWhenPassed s e) := by
  unfold CreatesWhenPassed
  split <;> infer_instance

/-- A passed HLC is below the next op's. -/
theorem Passed.before_sendHlc {wall : Nat} {client hlc : HLC} (h : Passed wall client hlc) :
    hlc.Before (sendHlc wall client) := by
  rcases h with hwall | hclient
  · have hms : hlc.ms < (sendHlc wall client).ms := lt_of_lt_of_le hwall (le_sendHlc_ms _ _)
    exact HLC.before_of_time_lt (HLC.time_lt_iff.2 (Or.inl hms))
  · exact HLC.before_of_time_lt (lt_of_le_of_lt hclient (lt_sendHlc_time _ _))

/-- What was merged stays below the clock, so it needs no condition. -/
structure ClockInv (s : ClockState) : Prop where
  merged : ∀ hlc ∈ s.merged, hlc.time ≤ s.client.time
  causal : Causal s

variable {s s' : ClockState}

theorem foldl_mergeServerHlc_time (wall : Nat) (client : HLC) (hlcs : List HLC) :
    client.time ≤ (hlcs.foldl (mergeServerHlc wall) client).time := by
  induction hlcs generalizing client with
  | nil => exact le_refl _
  | cons hlc hlcs ih => exact le_trans (lt_receiveHlc_time wall client hlc).le (ih _)

theorem time_le_of_merged {message : Inbound} {wall : Nat} {client hlc : HLC}
    (hdrift : ∀ hlc ∈ message.hlc, hlc.ms ≤ wall + MAX_CLOCK_DRIFT_MS)
    (h : hlc ∈ message.merged) :
    hlc.time ≤ (message.merged.foldl (mergeServerHlc wall) client).time := by
  cases message with
  | delta hlc' version => cases h
  | snapshot hlc' versions => cases h
  | bootstrapComplete hlc' =>
      have heq : hlc = hlc' := by simpa [Inbound.merged] using h
      subst heq
      exact (remote_lt_receiveHlc_time client (hdrift hlc rfl)).le
  | resumeComplete hlc' =>
      have heq : hlc = hlc' := by simpa [Inbound.merged] using h
      subst heq
      exact (remote_lt_receiveHlc_time client (hdrift hlc rfl)).le
  | resumeRejected hlc' => cases h
  | answer => cases h

/-- Processing a message keeps the merged HLCs below the clock. -/
theorem ClockInv.handleMessage (hinv : ClockInv s) {wall : Nat} {message : Inbound}
    (hdrift : ∀ hlc ∈ message.hlc, hlc.ms ≤ wall + MAX_CLOCK_DRIFT_MS) :
    ClockInv (s.handleMessage wall message) := by
  refine ⟨fun hlc hmem => ?_, hinv.causal⟩
  rcases List.mem_append.1 hmem with hold | hnew
  · exact le_trans (hinv.merged hlc hold) (foldl_mergeServerHlc_time wall s.client _)
  · exact time_le_of_merged hdrift hnew

theorem ClockInv.nextOp (hinv : ClockInv s) {wall : Nat}
    (hpassed : ∀ hlc ∈ s.unmerged, Passed wall s.client hlc) : ClockInv (s.nextOp wall) := by
  have hall : ∀ hlc ∈ s.merged ++ s.unmerged, Passed wall s.client hlc := by
    intro hlc hmem
    rcases List.mem_append.1 hmem with hm | hu
    · exact Or.inr (hinv.merged hlc hm)
    · exact hpassed hlc hu
  constructor
  · intro hlc hm
    exact le_trans (hinv.merged hlc hm) (lt_sendHlc_time wall s.client).le
  · intro op hop hlc hmem
    rcases List.mem_append.1 hop with hold | hnew
    · exact hinv.causal op hold hlc hmem
    · have heq : op = ⟨sendHlc wall s.client, s.merged ++ s.unmerged⟩ := by simpa using hnew
      subst heq
      exact (hall hlc hmem).before_sendHlc

/-- The server's steps leave the client alone. -/
theorem ClockInv.congr (hinv : ClockInv s) (hclient : s'.client = s.client)
    (hmerged : s'.merged = s.merged) (hcreated : s'.created = s.created) : ClockInv s' := by
  refine ⟨fun hlc hmem => ?_, fun op hop => ?_⟩
  · rw [hclient]
    exact hinv.merged hlc (hmerged ▸ hmem)
  · exact hinv.causal op (hcreated ▸ hop)

theorem takeOp_client (wall : Nat) (type : OpType) (rowId : String) (hlc : HLC) :
    (s.takeOp wall type rowId hlc).client = s.client ∧
      (s.takeOp wall type rowId hlc).merged = s.merged ∧
      (s.takeOp wall type rowId hlc).created = s.created := by
  simp only [ClockState.takeOp]
  split
  · exact ⟨rfl, rfl, rfl⟩
  · split <;> exact ⟨rfl, rfl, rfl⟩

theorem ClockInv.step {e : ClockEvent} (hinv : ClockInv s) (hguard : CreatesWhenPassed s e)
    (hs : clockStep s e = some s') : ClockInv s' := by
  cases e with
  | op wall type rowId hlc =>
      cases hs
      rcases takeOp_client (s := s) wall type rowId hlc with ⟨hclient, hmerged, hcreated⟩
      exact hinv.congr hclient hmerged hcreated
  | stamp wall =>
      cases hs
      exact hinv.congr rfl rfl rfl
  | packed =>
      cases hs
      exact hinv.congr rfl rfl rfl
  | read rowIds =>
      cases hs
      exact hinv.congr rfl rfl rfl
  | sendDelta job rowId =>
      simp only [clockStep] at hs
      split at hs
      · cases hs
        exact hinv.congr rfl rfl rfl
      · cases hs
  | sendRows job rowIds =>
      simp only [clockStep] at hs
      split at hs
      · cases hs
        exact hinv.congr rfl rfl rfl
      · cases hs
  | sendRead job =>
      simp only [clockStep] at hs
      split at hs
      · cases hs
        exact hinv.congr rfl rfl rfl
      · cases hs
  | complete wall resume =>
      cases hs
      exact hinv.congr rfl rfl rfl
  | rejectResume wall =>
      cases hs
      exact hinv.congr rfl rfl rfl
  | answer =>
      cases hs
      exact hinv.congr rfl rfl rfl
  | process i wall =>
      simp only [clockStep] at hs
      split at hs
      · split at hs
        · rename_i hdrift
          cases hs
          exact hinv.handleMessage hdrift
        · cases hs
      · cases hs
  | create wall =>
      cases hs
      exact hinv.nextOp hguard

/-- In a run whose ops are created when the HLCs of the processed deltas and snapshots have been
passed, each op is newer than everything its client had processed. -/
theorem causal_of_createsWhenPassed {clientId serverId : String}
    (h : (clockMachine clientId serverId).Reach CreatesWhenPassed s) : Causal s := by
  have hstart : ClockInv (clockMachine clientId serverId).init :=
    ⟨fun _ hmem => absurd hmem List.not_mem_nil, fun _ hop => absurd hop List.not_mem_nil⟩
  exact (h.invariant hstart fun hinv hg hs => hinv.step hg hs).causal

/-- A peer's op under HLC 1000 reaches the client in a delta. -/
def peerEdit : List ClockEvent :=
  [.op 1000 .insert "row" ⟨1000, 0, "client:b"⟩, .stamp 1000, .sendDelta 0 "row"]

/-- The client's wall clock is ahead of the delta. -/
theorem causal_afterDelta : ∃ s, s.created.length = 1 ∧ s.unmerged.length = 2 ∧ Causal s := by
  have hrun : (((clockMachine "a" "s").runWith (fun s e => decide (CreatesWhenPassed s e))
      (.start "a" "s") (peerEdit ++ [.process 0 1001, .create 1001])).map fun s =>
        (s.created.length, s.unmerged.length)) = some (1, 2) := by decide +kernel
  rcases Option.map_eq_some_iff.1 hrun with ⟨s, hs, heq⟩
  simp only [Prod.mk.injEq] at heq
  have hreach := Lib.Machine.Reach.of_runWith (fun _ _ h => of_decide_eq_true h) .init hs
  exact ⟨s, heq.1, heq.2, causal_of_createsWhenPassed hreach⟩

/-- The client's wall clock is 100 ms behind: its edit of the row is older than the row. -/
theorem not_causal_behindDelta :
    ¬ ∀ clientId serverId s, (clockMachine clientId serverId).Reachable s → Causal s := by
  intro h
  have hrun : ((clockMachine "a" "s").run
      (peerEdit ++ [.process 0 900, .create 900])).map (fun s => s.created) =
        some [⟨⟨900, 0, "client:a"⟩,
          [⟨1000, 2, "server:s"⟩, ⟨1000, 0, "client:b"⟩]⟩] := by decide +kernel
  rcases Option.map_eq_some_iff.1 hrun with ⟨s, hs, hcreated⟩
  have hcausal := h "a" "s" s (.of_run hs) _ (hcreated ▸ List.mem_singleton_self _)
    ⟨1000, 0, "client:b"⟩ (by simp)
  exact absurd hcausal (by decide)

end Sync
end Reflectdb
