import Mathlib.Logic.Function.Basic
import Reflectdb.Server.ServerClock

/-!
# Clock lead — how far the server clocks run ahead of the wall clock

Any number of `ServerClock`s share one stored watermark and read one wall clock, which does not go
back.  A flush writes the watermark a lease ahead of the clock, and every clock merges what is
stored; a clock that has merged a watermark writes the next one ahead of it again.
-/

namespace Reflectdb
namespace Server

open Core

/-! ## Model -/

/-- One `ServerClock`. -/
structure ClockProcess where
  hlc : HLC
  persistTimer : Bool
  persistPending : Bool
  flushes : List Flush

namespace ClockProcess

def start (nodeId : String) : ClockProcess :=
  ⟨createHlc nodeId, false, false, []⟩

def schedulePersist (p : ClockProcess) : ClockProcess :=
  { p with persistPending := true, persistTimer := true }

/-- A new process with the same node.  Writes of the old one may still land. -/
def newProcess (p : ClockProcess) : ClockProcess :=
  { start p.hlc.nodeId with flushes := p.flushes.filter (· ≠ .refreshing) }

def watermark (p : ClockProcess) : HLC :=
  ⟨p.hlc.ms + HLC_PERSIST_LEASE_MS, 0, p.hlc.nodeId⟩

end ClockProcess

structure ClockCluster (ι : Type) where
  processes : ι → ClockProcess
  /-- The value under `SERVER_HLC_META_KEY`. -/
  stored : Option HLC
  wall : Nat
  /-- The milliseconds that full counters have added so far. -/
  carries : Nat

inductive ClockClusterEvent (ι : Type)
  | tick (wall : Nat)
  | stamp (i : ι)
  | receive (i : ι) (remote : HLC)
  | timer (i : ι)
  /-- `refresh` of a poll tick; `ok` unless `getMeta` throws. -/
  | refresh (i : ι) (ok : Bool)
  | flushRefreshed (i : ι) (flush : Nat) (ok : Bool)
  | flushLands (i : ι) (flush : Nat)
  | flushFails (i : ι) (flush : Nat)
  /-- The process crashes and a new one loads the stored watermark. -/
  | restart (i : ι) (ok : Bool)

section Machine

variable {ι : Type} [DecidableEq ι]

namespace ClockCluster

variable (s : ClockCluster ι)

def set (i : ι) (p : ClockProcess) : ClockCluster ι :=
  { s with processes := Function.update s.processes i p }

/-- Process `p` in the place of `i` merges what is stored. -/
def merge (i : ι) (p : ClockProcess) (ok : Bool) : ClockCluster ι :=
  match s.stored with
  | some stored =>
    if ok then
      { s.set i { p with hlc := receiveHlc s.wall p.hlc stored } with
        carries := s.carries + receiveCarry s.wall p.hlc stored }
    else s.set i p
  | none => s.set i p

end ClockCluster

/-- The HLCs that are received are not above the wall clock. -/
def clockClusterStep (s : ClockCluster ι) : ClockClusterEvent ι → Option (ClockCluster ι)
  | .tick wall => if s.wall ≤ wall then some { s with wall := wall } else none
  | .stamp i =>
    let p := s.processes i
    some { s.set i { p.schedulePersist with hlc := sendHlc s.wall p.hlc } with
      carries := s.carries + sendCarry s.wall p.hlc }
  | .receive i remote =>
    let p := s.processes i
    if remote.ms ≤ s.wall then
      some { s.set i { p.schedulePersist with hlc := receiveHlc s.wall p.hlc remote } with
        carries := s.carries + receiveCarry s.wall p.hlc remote }
    else none
  | .timer i =>
    let p := s.processes i
    if p.persistPending then
      some (s.set i { p with
        persistTimer := false, persistPending := false, flushes := p.flushes ++ [.refreshing] })
    else some (s.set i { p with persistTimer := false })
  | .refresh i ok => some (s.merge i (s.processes i) ok)
  | .flushRefreshed i j ok =>
    if (s.processes i).flushes[j]? = some .refreshing then
      let s := s.merge i (s.processes i) ok
      let p := s.processes i
      some (s.set i { p with flushes := p.flushes.set j (.writing p.watermark) })
    else none
  | .flushLands i j =>
    let p := s.processes i
    match p.flushes[j]? with
    | some (.writing watermark) =>
      some { s.set i { p with flushes := p.flushes.eraseIdx j } with stored := some watermark }
    | _ => none
  | .flushFails i j =>
    let p := s.processes i
    match p.flushes[j]? with
    | some (.writing _) => some (s.set i { p with flushes := p.flushes.eraseIdx j })
    | _ => none
  | .restart i ok => some (s.merge i (s.processes i).newProcess ok)

def clockClusterMachine (nodeId : ι → String) :
    Lib.Machine (ClockCluster ι) (ClockClusterEvent ι) :=
  ⟨⟨fun i => .start (nodeId i), none, 0, 0⟩, clockClusterStep⟩

end Machine

/-! ## The lead -/

/-- `enforceClockDrift`: whether an op with the HLC passes. -/
def enforceClockDrift (wall : Nat) (hlc : HLC) : Bool :=
  hlc.ms ≤ wall + MAX_CLOCK_DRIFT_MS

/-- No clock is more than two leases and the carries ahead of the wall clock, and while that is
within the drift bound, a client that has merged an HLC of a server has its next op pass. -/
structure LeadBounded {ι : Type} (s : ClockCluster ι) : Prop where
  lead : ∀ i, (s.processes i).hlc.ms ≤ s.wall + 2 * HLC_PERSIST_LEASE_MS + s.carries
  passes : 2 * HLC_PERSIST_LEASE_MS + s.carries + 2 ≤ MAX_CLOCK_DRIFT_MS →
    ∀ i, ∀ client : HLC, client.ms ≤ s.wall + 2 * HLC_PERSIST_LEASE_MS + s.carries →
      enforceClockDrift s.wall (sendHlc s.wall (receiveHlc s.wall client (s.processes i).hlc))

/-- When a flush merges the stored watermark, neither the watermark nor the clock is more than one
lease and the carries ahead of the wall clock. -/
def FlushesWithinLease {ι : Type} (s : ClockCluster ι) : ClockClusterEvent ι → Prop
  | .flushRefreshed i _ ok =>
    (s.processes i).hlc.ms ≤ s.wall + HLC_PERSIST_LEASE_MS + s.carries ∧
      (ok = true → ∀ w ∈ s.stored, w.ms ≤ s.wall + HLC_PERSIST_LEASE_MS + s.carries)
  | _ => True

instance {ι : Type} (s : ClockCluster ι) (e : ClockClusterEvent ι) :
    Decidable (FlushesWithinLease s e) := by
  unfold FlushesWithinLease
  split <;> infer_instance

/-! ## The invariant -/

/-- How far the clocks and watermarks may be. -/
def ClockCluster.bound {ι : Type} (s : ClockCluster ι) : Nat :=
  s.wall + 2 * HLC_PERSIST_LEASE_MS + s.carries

/-- The clocks, the stored watermark and the watermarks on their way are within the bound. -/
structure LeadInv {ι : Type} (s : ClockCluster ι) : Prop where
  clocks : ∀ i, (s.processes i).hlc.ms ≤ s.bound
  stored : ∀ w ∈ s.stored, w.ms ≤ s.bound
  writes : ∀ i w, .writing w ∈ (s.processes i).flushes → w.ms ≤ s.bound

section LeadInv

variable {ι : Type} [DecidableEq ι] {s s' : ClockCluster ι}

/-- A step of one process, which is within the bound after it. -/
theorem LeadInv.update (h : LeadInv s) {i : ι} {p : ClockProcess}
    (hprocesses : s'.processes = Function.update s.processes i p) (hbound : s.bound ≤ s'.bound)
    (hclock : p.hlc.ms ≤ s'.bound)
    (hwrites : ∀ w, .writing w ∈ p.flushes → .writing w ∈ (s.processes i).flushes ∨ w.ms ≤ s'.bound)
    (hstored : ∀ w ∈ s'.stored, w.ms ≤ s'.bound) : LeadInv s' := by
  refine ⟨fun k => ?_, hstored, fun k w hw => ?_⟩
  · rw [hprocesses]
    by_cases hk : k = i
    · subst hk
      simpa using hclock
    · simpa [hk] using (h.clocks k).trans hbound
  · rw [hprocesses] at hw
    by_cases hk : k = i
    · subst hk
      rw [Function.update_self] at hw
      exact (hwrites w hw).elim (fun hold => (h.writes k w hold).trans hbound) id
    · rw [Function.update_of_ne hk] at hw
      exact (h.writes k w hw).trans hbound

/-- What a merge leaves: the clock is the wall clock, its own time or the stored watermark, and the
carry. -/
theorem merge_spec (s : ClockCluster ι) (i : ι) (p : ClockProcess) (ok : Bool) :
    ∃ q : ClockProcess, (s.merge i p ok).processes = Function.update s.processes i q ∧
      q.flushes = p.flushes ∧ q.hlc.nodeId = p.hlc.nodeId ∧ (s.merge i p ok).stored = s.stored ∧
        (s.merge i p ok).wall = s.wall ∧ s.carries ≤ (s.merge i p ok).carries ∧
          ∀ limit, s.wall ≤ limit → p.hlc.ms ≤ limit →
            (ok = true → ∀ w ∈ s.stored, w.ms ≤ limit) →
              q.hlc.ms ≤ limit + ((s.merge i p ok).carries - s.carries) := by
  unfold ClockCluster.merge
  split
  · rename_i w hw
    split
    · rename_i hok
      refine ⟨{ p with hlc := receiveHlc s.wall p.hlc w }, rfl, rfl, ?_, rfl, rfl,
        Nat.le_add_right _ _, fun limit hwall hp hstored => ?_⟩
      · simp [receiveHlc]
      · have hms := receiveHlc_ms s.wall p.hlc w
        have hclamp : clampedMs s.wall w ≤ w.ms := min_le_left _ _
        have hle := hstored hok w hw
        simp only [Nat.add_sub_cancel_left]
        omega
    · exact ⟨p, rfl, rfl, rfl, rfl, rfl, le_refl _, fun limit _ hp _ =>
        hp.trans (Nat.le_add_right _ _)⟩
  · exact ⟨p, rfl, rfl, rfl, rfl, rfl, le_refl _, fun limit _ hp _ =>
      hp.trans (Nat.le_add_right _ _)⟩

/-- A merge keeps the invariant. -/
theorem LeadInv.merge (h : LeadInv s) {i : ι} {p : ClockProcess} (hp : p.hlc.ms ≤ s.bound)
    (hwrites : ∀ w, .writing w ∈ p.flushes → .writing w ∈ (s.processes i).flushes) (ok : Bool) :
    LeadInv (s.merge i p ok) := by
  rcases merge_spec s i p ok with ⟨q, hq, hflushes, -, hstored, hwall, hcarries, hms⟩
  have hbound : (s.merge i p ok).bound = s.bound + ((s.merge i p ok).carries - s.carries) := by
    simp only [ClockCluster.bound, hwall]
    omega
  have hle : s.bound ≤ (s.merge i p ok).bound := hbound ▸ Nat.le_add_right _ _
  refine h.update hq hle ?_ (fun w hw => .inl (hwrites w (hflushes ▸ hw))) fun w hw => ?_
  · rw [hbound]
    refine hms s.bound ?_ hp fun _ => h.stored
    simp only [ClockCluster.bound]
    omega
  · exact (h.stored w (hstored ▸ hw)).trans hle

/-- A flush that starts within one lease writes a watermark within two. -/
theorem LeadInv.flushRefreshed (h : LeadInv s) {i : ι} {j : Nat} {ok : Bool}
    (hclock : (s.processes i).hlc.ms ≤ s.wall + HLC_PERSIST_LEASE_MS + s.carries)
    (hstored : ok = true → ∀ w ∈ s.stored, w.ms ≤ s.wall + HLC_PERSIST_LEASE_MS + s.carries) :
    LeadInv ((s.merge i (s.processes i) ok).set i
      { (s.merge i (s.processes i) ok).processes i with
        flushes := ((s.merge i (s.processes i) ok).processes i).flushes.set j
          (.writing ((s.merge i (s.processes i) ok).processes i).watermark) }) := by
  have hmerge := h.merge (h.clocks i) (fun _ hw => hw) ok
  rcases merge_spec s i (s.processes i) ok with ⟨q, hq, -, -, -, hwall, hcarries, hms⟩
  refine hmerge.update rfl (le_refl _) (hmerge.clocks i) (fun w hw => ?_) hmerge.stored
  rcases List.mem_or_eq_of_mem_set hw with hold | hnew
  · exact .inl hold
  · cases hnew
    -- The clock is within one lease after the merge.
    have hlease := hms (s.wall + HLC_PERSIST_LEASE_MS + s.carries) (by omega) hclock hstored
    right
    simp only [ClockProcess.watermark, hq, Function.update_self, ClockCluster.set,
      ClockCluster.bound, hwall]
    omega

theorem LeadInv.step (h : LeadInv s) {e : ClockClusterEvent ι} (hguard : FlushesWithinLease s e)
    (hs : clockClusterStep s e = some s') : LeadInv s' := by
  cases e with
  | tick wall =>
      rcases Option.ite_none_right_eq_some.1 hs with ⟨hwall, heq⟩
      obtain rfl := Option.some.inj heq
      have hbound : s.bound ≤ ({ s with wall := wall } : ClockCluster ι).bound := by
        simp only [ClockCluster.bound]
        omega
      exact ⟨fun i => (h.clocks i).trans hbound, fun w hw => (h.stored w hw).trans hbound,
        fun i w hw => (h.writes i w hw).trans hbound⟩
  | stamp i =>
      obtain rfl := Option.some.inj hs
      have hms := sendHlc_ms s.wall (s.processes i).hlc
      have hclock := h.clocks i
      simp only [ClockCluster.bound] at hclock
      refine h.update rfl ?_ ?_ (fun w hw => .inl hw) fun w hw => (h.stored w hw).trans ?_
      all_goals simp only [ClockCluster.bound, ClockCluster.set]
      all_goals omega
  | receive i remote =>
      rcases Option.ite_none_right_eq_some.1 hs with ⟨hremote, heq⟩
      obtain rfl := Option.some.inj heq
      have hms := receiveHlc_ms s.wall (s.processes i).hlc remote
      have hclamp : clampedMs s.wall remote ≤ remote.ms := min_le_left _ _
      have hclock := h.clocks i
      simp only [ClockCluster.bound] at hclock
      refine h.update rfl ?_ ?_ (fun w hw => .inl hw) fun w hw => (h.stored w hw).trans ?_
      all_goals simp only [ClockCluster.bound, ClockCluster.set]
      all_goals omega
  | timer i =>
      simp only [clockClusterStep] at hs
      split at hs
      · obtain rfl := Option.some.inj hs
        refine h.update rfl (le_refl _) (h.clocks i) (fun w hw => .inl ?_) h.stored
        simpa using hw
      · obtain rfl := Option.some.inj hs
        exact h.update rfl (le_refl _) (h.clocks i) (fun w hw => .inl hw) h.stored
  | refresh i ok =>
      obtain rfl := Option.some.inj hs
      exact h.merge (h.clocks i) (fun _ hw => hw) ok
  | flushRefreshed i j ok =>
      rcases Option.ite_none_right_eq_some.1 hs with ⟨-, heq⟩
      obtain rfl := Option.some.inj heq
      exact h.flushRefreshed hguard.1 hguard.2
  | flushLands i j =>
      simp only [clockClusterStep] at hs
      split at hs
      · rename_i w hj
        obtain rfl := Option.some.inj hs
        refine h.update rfl (le_refl _) (h.clocks i)
          (fun v hv => .inl (List.mem_of_mem_eraseIdx hv)) fun v hv => ?_
        obtain rfl := Option.some.inj hv
        exact h.writes i w (List.mem_of_getElem? hj)
      · cases hs
  | flushFails i j =>
      simp only [clockClusterStep] at hs
      split at hs
      · obtain rfl := Option.some.inj hs
        exact h.update rfl (le_refl _) (h.clocks i)
          (fun v hv => .inl (List.mem_of_mem_eraseIdx hv)) h.stored
      · cases hs
  | restart i ok =>
      obtain rfl := Option.some.inj hs
      exact h.merge (Nat.zero_le _) (fun _ hw => (List.mem_filter.1 hw).1) ok

end LeadInv

/-- A client that merges an HLC not too far ahead sends ops that are not too far ahead. -/
theorem enforceClockDrift_of_merged {wall limit : Nat} {client server : HLC}
    (hlimit : limit + 2 ≤ wall + MAX_CLOCK_DRIFT_MS) (hwall : wall ≤ limit)
    (hclient : client.ms ≤ limit) (hserver : server.ms ≤ limit) :
    enforceClockDrift wall (sendHlc wall (receiveHlc wall client server)) := by
  have hreceive := receiveHlc_ms wall client server
  have hsend := sendHlc_ms wall (receiveHlc wall client server)
  have hclamp : clampedMs wall server ≤ server.ms := min_le_left _ _
  have hcarry := receiveCarry_le wall client server
  have hcarry' := sendCarry_le wall (receiveHlc wall client server)
  simp only [enforceClockDrift, decide_eq_true_eq]
  omega

/-- In a run whose flushes start within one lease, no clock is ever more than two leases ahead. -/
theorem leadBounded_of_flushesWithinLease {ι : Type} [DecidableEq ι] {nodeId : ι → String}
    {s : ClockCluster ι} (h : (clockClusterMachine nodeId).Reach FlushesWithinLease s) :
    LeadBounded s := by
  have hstart : LeadInv (clockClusterMachine nodeId).init :=
    ⟨fun _ => Nat.zero_le _, fun w hw => (nomatch hw), fun i w hw => (nomatch hw)⟩
  have hinv : LeadInv s := h.invariant hstart fun hinv hguard hs => hinv.step hguard hs
  refine ⟨hinv.clocks, fun hcarries i client hclient => ?_⟩
  have hlimit :
      s.wall + 2 * HLC_PERSIST_LEASE_MS + s.carries + 2 ≤ s.wall + MAX_CLOCK_DRIFT_MS := by
    omega
  exact enforceClockDrift_of_merged hlimit (by omega) hclient (hinv.clocks i)

/-- The first flush of a cluster of two, which the other process merges. -/
def firstFlush : List (ClockClusterEvent Bool) :=
  [.tick 1000, .stamp false, .timer false, .flushRefreshed false 0 true, .flushLands false 0,
    .refresh true true]

theorem leadBounded_firstFlush : ∃ s : ClockCluster Bool,
    (s.processes true).hlc = ⟨6000, 1, "server:b"⟩ ∧ s.wall = 1000 ∧ LeadBounded s := by
  have hrun : (((clockClusterMachine fun b => if b then "server:b" else "server:a").runWith
      (fun s e => decide (FlushesWithinLease s e))
      (clockClusterMachine fun b => if b then "server:b" else "server:a").init firstFlush).map
        fun s => ((s.processes true).hlc, s.wall)) = some (⟨6000, 1, "server:b"⟩, 1000) := by
    decide +kernel
  rcases Option.map_eq_some_iff.1 hrun with ⟨s, hs, heq⟩
  simp only [Prod.mk.injEq] at heq
  have hreach := Lib.Machine.Reach.of_runWith (fun _ _ h => of_decide_eq_true h) .init hs
  exact ⟨s, heq.1, heq.2, leadBounded_of_flushesWithinLease hreach⟩

/-- A write and a flush each second. -/
def secondOfWrites (second : Nat) : List (ClockClusterEvent Bool) :=
  [.tick (1000 * second), .stamp false, .timer false, .flushRefreshed false 0 true,
    .flushLands false 0]

/-- Each flush merges the watermark of the one before and writes the next one a lease ahead of
it. -/
theorem not_leadBounded_writesEachSecond :
    ¬ ∀ (nodeId : Bool → String) s, (clockClusterMachine nodeId).Reachable s → LeadBounded s := by
  intro h
  have hrun : ((clockClusterMachine fun b => if b then "server:b" else "server:a").run
      ([1, 2, 3, 4].flatMap secondOfWrites)).map
        (fun s => ((s.processes false).hlc.ms, s.wall, s.carries)) =
      some (16000, 4000, 0) := by decide +kernel
  rcases Option.map_eq_some_iff.1 hrun with ⟨s, hs, heq⟩
  simp only [Prod.mk.injEq] at heq
  rcases heq with ⟨hms, hwall, hcarries⟩
  have hlead := (h _ s (.of_run hs)).lead false
  rw [hms, hwall, hcarries] at hlead
  exact absurd hlead (by decide)

end Server
end Reflectdb
