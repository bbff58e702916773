import Mathlib.Data.List.Basic
import Reflectdb.Core.Hlc
import Reflectdb.Lib.Machine

/-!
# Server clock — the persisted watermark and restarts

One `ServerClock` over its storage.  A watermark is written by a throttled timer, a lease ahead of
the clock; a restart loads what the storage holds.  Storage calls are awaited, so a flush is a value
that an event moves on, and a write may land late, not at all, or after the process has crashed.
-/

namespace Reflectdb
namespace Server

open Core

def HLC_PERSIST_LEASE_MS : Nat := 5000

/-! ## Model -/

/-- A `flush` under way: awaiting `refresh`, or with its `setMeta` on its way. -/
inductive Flush
  | refreshing
  | writing (watermark : HLC)
  deriving DecidableEq

/-- An HLC stamped since the last restart, with every HLC stamped or merged before that restart.
No step reads the latter. -/
structure Stamped where
  hlc : HLC
  before : List HLC
  deriving DecidableEq

structure ClockRun where
  hlc : HLC
  persistTimer : Bool
  persistPending : Bool
  flushes : List Flush
  /-- The value under `SERVER_HLC_META_KEY`. -/
  stored : Option HLC
  /-- The highest reading of the wall clock so far, and the one at the last restart. -/
  wall : Nat
  restartWall : Nat
  /-- The HLCs stamped and merged so far. -/
  issued : List HLC
  /-- Those issued before the last restart. -/
  before : List HLC
  stamped : List Stamped

inductive ClockRunEvent
  | stamp (wall : Nat)
  | receive (wall : Nat) (remote : HLC)
  /-- The throttle window ends, or `close` flushes. -/
  | timer
  /-- `refresh` of the poll loop; `ok` unless `getMeta` throws. -/
  | refresh (wall : Nat) (ok : Bool)
  /-- The `refresh` of a flush returns and its `setMeta` goes out. -/
  | flushRefreshed (flush wall : Nat) (ok : Bool)
  /-- A `setMeta` takes effect. -/
  | flushLands (flush : Nat)
  /-- A `setMeta` fails without effect. -/
  | flushFails (flush : Nat)
  /-- The process crashes and a new one loads the stored watermark. -/
  | restart (wall : Nat)

namespace ClockRun

def start (nodeId : String) : ClockRun where
  hlc := createHlc nodeId
  persistTimer := false
  persistPending := false
  flushes := []
  stored := none
  wall := 0
  restartWall := 0
  issued := []
  before := []
  stamped := []

def schedulePersist (s : ClockRun) : ClockRun :=
  { s with persistPending := true, persistTimer := true }

/-- A reading of the wall clock. -/
def sawWall (s : ClockRun) (wall : Nat) : ClockRun :=
  { s with wall := max s.wall wall }

def stamp (s : ClockRun) (wall : Nat) : ClockRun :=
  let hlc := sendHlc wall s.hlc
  { (s.sawWall wall).schedulePersist with
    hlc := hlc
    issued := s.issued ++ [hlc]
    stamped := s.stamped ++ [⟨hlc, s.before⟩] }

/-- A remote HLC beyond the drift bound is not followed, and so not merged. -/
def receive (s : ClockRun) (wall : Nat) (remote : HLC) : ClockRun :=
  { (s.sawWall wall).schedulePersist with
    hlc := receiveHlc wall s.hlc remote
    issued :=
      if remote.ms ≤ wall + MAX_CLOCK_DRIFT_MS then s.issued ++ [remote] else s.issued }

/-- `refresh`: merge what is stored. -/
def refresh (s : ClockRun) (wall : Nat) (ok : Bool) : ClockRun :=
  match s.stored with
  | some stored =>
    if ok then { s.sawWall wall with hlc := receiveHlc wall s.hlc stored } else s.sawWall wall
  | none => s.sawWall wall

/-- The watermark of a flush. -/
def watermark (s : ClockRun) : HLC :=
  ⟨s.hlc.ms + HLC_PERSIST_LEASE_MS, 0, s.hlc.nodeId⟩

/-- A new process: its clock starts from zero.  Writes of the old one may still land. -/
def newProcess (s : ClockRun) (wall : Nat) : ClockRun :=
  { s with
    hlc := createHlc s.hlc.nodeId
    persistTimer := false
    persistPending := false
    flushes := s.flushes.filter (· ≠ .refreshing)
    restartWall := wall
    before := s.issued }

/-- A restart loads the stored watermark. -/
def restart (s : ClockRun) (wall : Nat) : ClockRun :=
  (s.newProcess wall).refresh wall true

end ClockRun

/-- The step of an event whose reading of the wall clock, if it has one, is possible. -/
def clockRunRaw (s : ClockRun) : ClockRunEvent → Option ClockRun
  | .stamp wall => some (s.stamp wall)
  | .receive wall remote => some (s.receive wall remote)
  | .timer =>
    if s.persistPending then
      some { s with
        persistTimer := false, persistPending := false, flushes := s.flushes ++ [.refreshing] }
    else some { s with persistTimer := false }
  | .refresh wall ok => some (s.refresh wall ok)
  | .flushRefreshed j wall ok =>
    if s.flushes[j]? = some .refreshing then
      let s := s.refresh wall ok
      some { s with flushes := s.flushes.set j (.writing s.watermark) }
    else none
  | .flushLands j =>
    match s.flushes[j]? with
    | some (.writing watermark) =>
      some { s with stored := some watermark, flushes := s.flushes.eraseIdx j }
    | _ => none
  | .flushFails j =>
    match s.flushes[j]? with
    | some (.writing _) => some { s with flushes := s.flushes.eraseIdx j }
    | _ => none
  | .restart wall => some (s.restart wall)

/-- The wall clock may go back, but not across a restart. -/
def ClockRun.mayRead (s : ClockRun) : ClockRunEvent → Bool
  | .stamp wall => s.restartWall ≤ wall
  | .receive wall _ => s.restartWall ≤ wall
  | .refresh wall _ => s.restartWall ≤ wall
  | .flushRefreshed _ wall _ => s.restartWall ≤ wall
  | .restart wall => s.wall ≤ wall
  | _ => true

def clockRunStep (s : ClockRun) (e : ClockRunEvent) : Option ClockRun :=
  if s.mayRead e then clockRunRaw s e else none

def clockRunMachine (nodeId : String) : Lib.Machine ClockRun ClockRunEvent :=
  ⟨.start nodeId, clockRunStep⟩

/-! ## Recovery -/

/-- What is stamped after a restart is above everything stamped or merged before it. -/
def Recovered (s : ClockRun) : Prop :=
  ∀ x ∈ s.stamped, ∀ hlc ∈ x.before, hlc.Before x.hlc

/-- The new process passes an HLC: its wall clock has, or the stored watermark has, as far as the
drift bound lets the new clock follow it. -/
def Covered (stored : Option HLC) (wall : Nat) (hlc : HLC) : Prop :=
  hlc.ms < wall ∨ ∃ w ∈ stored, hlc.time ≤ toLex (clampedMs wall w, w.counter)

instance (stored : Option HLC) (wall : Nat) (hlc : HLC) : Decidable (Covered stored wall hlc) :=
  inferInstanceAs (Decidable (_ ∨ _))

/-- A restart finds everything issued covered. -/
def RestartsCovered (s : ClockRun) : ClockRunEvent → Prop
  | .restart wall => ∀ hlc ∈ s.issued, Covered s.stored wall hlc
  | _ => True

instance (s : ClockRun) (e : ClockRunEvent) : Decidable (RestartsCovered s e) := by
  unfold RestartsCovered
  split <;> infer_instance

/-- What was issued before the last restart is below the clock or the wall clock's floor. -/
structure ClockRunInv (s : ClockRun) : Prop where
  before : ∀ hlc ∈ s.before, hlc.ms < s.restartWall ∨ hlc.time < s.hlc.time
  recovered : Recovered s

variable {s s' : ClockRun}

/-- Steps that stamp nothing and do not move the clock back. -/
theorem ClockRunInv.advance (hinv : ClockRunInv s) (hbefore : s'.before = s.before)
    (hwall : s'.restartWall = s.restartWall) (hstamped : s'.stamped = s.stamped)
    (hhlc : s.hlc.time ≤ s'.hlc.time) : ClockRunInv s' := by
  constructor
  · intro hlc hmem
    rw [hwall]
    rcases hinv.before hlc (hbefore ▸ hmem) with hms | htime
    · exact Or.inl hms
    · exact Or.inr (lt_of_lt_of_le htime hhlc)
  · intro x hx
    exact hinv.recovered x (hstamped ▸ hx)

theorem ClockRunInv.stamp (hinv : ClockRunInv s) {wall : Nat} (hwall : s.restartWall ≤ wall) :
    ClockRunInv (s.stamp wall) := by
  have hlt : s.hlc.time < (sendHlc wall s.hlc).time := lt_sendHlc_time wall s.hlc
  constructor
  · intro hlc hmem
    rcases hinv.before hlc hmem with hms | htime
    · exact Or.inl hms
    · exact Or.inr (lt_trans htime hlt)
  · intro x hx hlc hmem
    rcases List.mem_append.1 hx with hold | hnew
    · exact hinv.recovered x hold hlc hmem
    · have heq : x = ⟨sendHlc wall s.hlc, s.before⟩ := by simpa using hnew
      subst heq
      refine HLC.before_of_time_lt ?_
      rcases hinv.before hlc hmem with hms | htime
      · have : hlc.ms < (sendHlc wall s.hlc).ms :=
          lt_of_lt_of_le (lt_of_lt_of_le hms hwall) (le_sendHlc_ms wall s.hlc)
        exact HLC.time_lt_iff.2 (Or.inl this)
      · exact lt_trans htime hlt

theorem refresh_spec (s : ClockRun) (wall : Nat) (ok : Bool) :
    (s.refresh wall ok).before = s.before ∧ (s.refresh wall ok).restartWall = s.restartWall ∧
      (s.refresh wall ok).stamped = s.stamped ∧
        s.hlc.time ≤ (s.refresh wall ok).hlc.time := by
  simp only [ClockRun.refresh, ClockRun.sawWall]
  split
  · split
    · exact ⟨rfl, rfl, rfl, (lt_receiveHlc_time _ _ _).le⟩
    · exact ⟨rfl, rfl, rfl, le_refl _⟩
  · exact ⟨rfl, rfl, rfl, le_refl _⟩

theorem ClockRunInv.refresh (hinv : ClockRunInv s) (wall : Nat) (ok : Bool) :
    ClockRunInv (s.refresh wall ok) := by
  rcases refresh_spec s wall ok with ⟨hbefore, hwall, hstamped, hhlc⟩
  exact hinv.advance hbefore hwall hstamped hhlc

/-- A restart that finds everything covered starts above it. -/
theorem ClockRunInv.restart (hinv : ClockRunInv s) {wall : Nat}
    (hcovered : ∀ hlc ∈ s.issued, Covered s.stored wall hlc) : ClockRunInv (s.restart wall) := by
  rcases refresh_spec (s.newProcess wall) wall true with ⟨hbefore, hwall, hstamped, _⟩
  constructor
  · intro hlc hmem
    have hissued : hlc ∈ s.issued := by
      have : hlc ∈ (s.newProcess wall).before := hbefore ▸ hmem
      exact this
    rcases hcovered hlc hissued with hms | ⟨w, hw, htime⟩
    · exact Or.inl (lt_of_lt_of_eq hms hwall.symm)
    · refine Or.inr (lt_of_le_of_lt htime ?_)
      have hstored : (s.newProcess wall).stored = some w := hw
      simpa [ClockRun.restart, ClockRun.refresh, hstored] using
        clamped_lt_receiveHlc_time wall (s.newProcess wall).hlc w
  · intro x hx
    exact hinv.recovered x (hstamped ▸ hx)

theorem ClockRunInv.step {e : ClockRunEvent} (hinv : ClockRunInv s) (hguard : RestartsCovered s e)
    (hs : clockRunStep s e = some s') : ClockRunInv s' := by
  simp only [clockRunStep] at hs
  split at hs
  · rename_i hread
    cases e with
    | stamp wall =>
        cases hs
        exact hinv.stamp (of_decide_eq_true hread)
    | receive wall remote =>
        cases hs
        exact hinv.advance rfl rfl rfl (lt_receiveHlc_time _ _ _).le
    | timer =>
        simp only [clockRunRaw] at hs
        split at hs <;> cases hs
        · exact hinv.advance rfl rfl rfl (le_refl _)
        · exact hinv.advance rfl rfl rfl (le_refl _)
    | refresh wall ok =>
        cases hs
        exact hinv.refresh wall ok
    | flushRefreshed j wall ok =>
        simp only [clockRunRaw] at hs
        split at hs
        · cases hs
          exact (hinv.refresh wall ok).advance rfl rfl rfl (le_refl _)
        · cases hs
    | flushLands j =>
        simp only [clockRunRaw] at hs
        split at hs
        · cases hs
          exact hinv.advance rfl rfl rfl (le_refl _)
        · cases hs
    | flushFails j =>
        simp only [clockRunRaw] at hs
        split at hs
        · cases hs
          exact hinv.advance rfl rfl rfl (le_refl _)
        · cases hs
    | restart wall =>
        cases hs
        exact hinv.restart hguard
  · cases hs

/-- In a run whose restarts find everything issued covered, each HLC stamped after a restart is
above everything stamped or merged before it. -/
theorem recovered_of_restartsCovered {nodeId : String}
    (h : (clockRunMachine nodeId).Reach RestartsCovered s) : Recovered s := by
  have hstart : ClockRunInv (clockRunMachine nodeId).init :=
    ⟨fun _ hmem => absurd hmem List.not_mem_nil, fun _ hx => absurd hx List.not_mem_nil⟩
  exact (h.invariant hstart fun hinv hg hs => hinv.step hg hs).recovered

/-- The watermark of the stamp is stored before the crash. -/
theorem recovered_afterFlush : ∃ s, s.before.length = 1 ∧ s.stamped.length = 2 ∧ Recovered s := by
  have hrun : (((clockRunMachine "server:s").runWith (fun s e => decide (RestartsCovered s e))
      (.start "server:s") [.stamp 1000, .timer, .flushRefreshed 0 1000 true, .flushLands 0,
        .restart 1000, .stamp 1000]).map fun s => (s.before.length, s.stamped.length)) =
      some (1, 2) := by decide +kernel
  rcases Option.map_eq_some_iff.1 hrun with ⟨s, hs, heq⟩
  simp only [Prod.mk.injEq] at heq
  have hreach := Lib.Machine.Reach.of_runWith (fun _ _ h => of_decide_eq_true h) .init hs
  exact ⟨s, heq.1, heq.2, recovered_of_restartsCovered hreach⟩

/-- A watermark is stored; an op of a client whose clock is a minute ahead is merged, and a second
later, with the next watermark not yet written, the process crashes. -/
theorem not_recovered_aheadOfLease :
    ¬ ∀ nodeId s, (clockRunMachine nodeId).Reachable s → Recovered s := by
  intro h
  have hrun : ((clockRunMachine "server:s").run
      [.stamp 1000, .timer, .flushRefreshed 0 1000 true, .flushLands 0,
        .receive 2000 ⟨62000, 0, "client:a"⟩, .restart 3000, .stamp 3000]).map
          (fun s => s.stamped.getLast?) =
      some (some ⟨⟨6000, 2, "server:s"⟩,
        [⟨1000, 0, "server:s"⟩, ⟨62000, 0, "client:a"⟩]⟩) := by decide +kernel
  rcases Option.map_eq_some_iff.1 hrun with ⟨s, hs, hlast⟩
  have hrecovered := h "server:s" s (.of_run hs) _ (List.mem_of_getLast? hlast)
    ⟨62000, 0, "client:a"⟩ (by simp)
  exact absurd hrecovered (by decide)

end Server
end Reflectdb
