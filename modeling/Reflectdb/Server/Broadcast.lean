import Reflectdb.Lib.Machine
import Reflectdb.Sync.Mirror

/-!
# Broadcast — diff, send, commit, with sends that fail

`sendToSubscriber` diffs a query's result against the rows cached for the client, sends one delta
per changed row, and commits the result to the cache only if every send went through.  The cache is
all the server knows about the client; the rows a partly failed broadcast did deliver are not in it.
-/

namespace Reflectdb
namespace Server

open Core Client Sync

/-- The rows a subscriber is entitled to: the first `windowLimit`, if it has a window. -/
def windowRows (limit : Option Nat) (rows : List Row) : List Row :=
  match limit with
  | some n => rows.take n
  | none => rows

/-- One (client, query): the client's rows, the server's cached rows, and the last HLC stamped. -/
structure Subscriber where
  table : TableRows
  cached : CachedRows
  clock : Hlc

/-- One broadcast to the subscriber: the query's rows and the sends that throw. -/
structure Broadcast where
  fullRows : List Row
  hlc : Hlc
  /-- The send of this row's delta throws. -/
  fails : String → Bool
  /-- The send of `count_changed` throws. -/
  countFails : Bool

/-- A subscription: primary key and window of the query. -/
structure QueryShape where
  pk : String
  windowLimit : Option Nat

namespace QueryShape

variable (q : QueryShape)

/-- The result as this subscriber is to see it, by row id. -/
def result (rows : List Row) : CachedRows :=
  byRowId q.pk (windowRows q.windowLimit rows)

/-- The deltas a broadcast sends. -/
def sends (s : Subscriber) (b : Broadcast) : List Delta :=
  (diffOnly q.pk s.cached (windowRows q.windowLimit b.fullRows)).deltas b.hlc

/-- Every send of the broadcast is delivered. -/
def Delivered (s : Subscriber) (b : Broadcast) : Prop :=
  (∀ d ∈ q.sends s b, b.fails d.rowId = false) ∧ b.countFails = false

instance (s : Subscriber) (b : Broadcast) : Decidable (q.Delivered s b) :=
  inferInstanceAs (Decidable (_ ∧ _))

def sendToSubscriber (s : Subscriber) (b : Broadcast) : Subscriber where
  table := applyDeltas q.pk s.table ((q.sends s b).filter fun d => b.fails d.rowId = false)
  cached := if q.Delivered s b then q.result b.fullRows else s.cached
  clock := b.hlc

/-- After the snapshot of a bootstrap. -/
def afterSnapshot (rows : List Row) (hlc : Hlc) : Subscriber where
  table := applySnapshot ∅ (snapshotMessage q.pk (windowRows q.windowLimit rows) hlc false)
  cached := q.result rows
  clock := hlc

/-- Broadcasts to one subscriber, each under a newer HLC. -/
def machine (rows : List Row) (hlc : Hlc) : Lib.Machine Subscriber Broadcast where
  init := q.afterSnapshot rows hlc
  step s b := if s.clock < b.hlc then some (q.sendToSubscriber s b) else none

theorem machine_step {q : QueryShape} {rows : List Row} {hlc : Hlc} {s : Subscriber}
    {b : Broadcast} (h : s.clock < b.hlc) :
    (q.machine rows hlc).step s b = some (q.sendToSubscriber s b) := by
  dsimp only [machine]
  exact if_pos h

/-! ## The invariant -/

/-- String keys address their own rows, and no clock is ahead of the server's. -/
structure Inv (s : Subscriber) : Prop where
  keyed : WellKeyed q.pk s.table
  clocked : ClockedBy s.table s.clock

variable {q}

theorem rowsById_result (rows : List Row) : RowsById q.pk (q.result rows) :=
  rowsById_byRowId _ _

theorem inv_afterSnapshot (rows : List Row) (hlc : Hlc) : q.Inv (q.afterSnapshot rows hlc) where
  keyed := wellKeyed_applySnapshot fun rowId row h => by simp [heldRow] at h
  clocked := clockedBy_applySnapshot fun key row h => by simp at h

theorem Inv.taken {s : Subscriber} (hi : q.Inv s) {b : Broadcast} (hlt : s.clock < b.hlc)
    {d : Delta} (hd : d ∈ q.sends s b) : Taken s.table d :=
  taken_of_clockedBy hi.clocked hlt hd

theorem Inv.sendToSubscriber {s : Subscriber} (hi : q.Inv s) {b : Broadcast}
    (hlt : s.clock < b.hlc) : q.Inv (q.sendToSubscriber s b) := by
  have hsub : ∀ d ∈ (q.sends s b).filter fun d => b.fails d.rowId = false, d ∈ q.sends s b :=
    fun d hd => (List.mem_filter.1 hd).1
  have hnodup : (((q.sends s b).filter fun d => b.fails d.rowId = false).map (·.rowId)).Nodup :=
    (nodup_deltas _ _ _).sublist (List.filter_sublist.map _)
  constructor
  · exact wellKeyed_applyDeltas hi.keyed (rowsById_result b.fullRows) hsub hnodup
      fun d hd => hi.taken hlt (hsub d hd)
  · refine clockedBy_applyDeltas (fun d hd => ?_) (hi.clocked.mono (le_of_lt hlt))
    rcases hlc_of_mem_deltas (hsub d hd) with ⟨hhlc, hcols⟩
    exact ⟨le_of_eq hhlc, fun c clock hclock => le_of_eq (hcols c clock hclock)⟩

theorem inv_of_reachable {rows : List Row} {hlc : Hlc} {s : Subscriber}
    (h : (q.machine rows hlc).Reachable s) : q.Inv s := by
  refine h.invariant (P := q.Inv) (inv_afterSnapshot rows hlc) ?_
  intro s s' b hi _ hstep
  dsimp only [machine] at hstep
  split at hstep
  · rename_i hlt
    cases hstep
    exact hi.sendToSubscriber hlt
  · cases hstep

/-! ## Recovery -/

/-- The property wanted of every run: a broadcast delivered whole leaves the client with its
result. -/
def RecoversAlways (q : QueryShape) (rows : List Row) (hlc : Hlc) : Prop :=
  ∀ s, (q.machine rows hlc).Reachable s → ∀ b : Broadcast, s.clock < b.hlc → q.Delivered s b →
    Mirrors q.pk (q.sendToSubscriber s b).table (q.result b.fullRows)

/-! ## A delivered insert that is never deleted -/

def todos : QueryShape :=
  ⟨"id", none⟩

def todoRow (id : String) : Row :=
  (∅ : Row).insert "id" (.str id)

/-- Rows `a` and `b` appear; the send of `b` throws. -/
def insertPartlySent : Broadcast :=
  ⟨[todoRow "a", todoRow "b"], "2", fun rowId => rowId = "b", false⟩

/-- Row `a` has left the result; every send goes through. -/
def withoutFirstRow : Broadcast :=
  ⟨[todoRow "b"], "3", fun _ => false, false⟩

/-- Both rows, every send going through. -/
def insertRetried : Broadcast :=
  { insertPartlySent with hlc := "3", fails := fun _ => false }

end QueryShape

end Server
end Reflectdb
