import Mathlib.Data.Prod.Lex
import Mathlib.Order.Lattice

/-!
# HLC — hybrid logical clocks

The clock of `src/core/hlc.ts`, on unpacked HLCs: a wall-clock reading is an argument, so that every
sequence of readings is covered, one that goes back included.
-/

namespace Reflectdb
namespace Core

structure HLC where
  ms : Nat
  counter : Nat
  nodeId : String
  deriving DecidableEq, Repr

def COUNTER_MAX : Nat := 9999

def MAX_CLOCK_DRIFT_MS : Nat := 5 * 60 * 1000

namespace HLC

/-- The part of an HLC that the clock advances. -/
def time (h : HLC) : Nat ×ₗ Nat :=
  toLex (h.ms, h.counter)

/-- The order of packed HLCs: milliseconds, then counter, then node. -/
def Before (a b : HLC) : Prop :=
  a.time < b.time ∨ a.time = b.time ∧ a.nodeId < b.nodeId

instance (a b : HLC) : Decidable (a.Before b) :=
  inferInstanceAs (Decidable (_ ∨ _))

theorem time_lt_iff {a b : HLC} :
    a.time < b.time ↔ a.ms < b.ms ∨ a.ms = b.ms ∧ a.counter < b.counter :=
  Prod.Lex.toLex_lt_toLex

theorem time_le_iff {a b : HLC} :
    a.time ≤ b.time ↔ a.ms < b.ms ∨ a.ms = b.ms ∧ a.counter ≤ b.counter :=
  Prod.Lex.toLex_le_toLex

theorem before_of_time_lt {a b : HLC} (h : a.time < b.time) : a.Before b :=
  Or.inl h

end HLC

def createHlc (nodeId : String) : HLC :=
  ⟨0, 0, nodeId⟩

/-- Roll over to the next millisecond when the counter is full. -/
def normalize (ms counter : Nat) (nodeId : String) : HLC :=
  if counter > COUNTER_MAX then ⟨ms + 1, 0, nodeId⟩ else ⟨ms, counter, nodeId⟩

def sendHlc (wall : Nat) (loc : HLC) : HLC :=
  let ms := max wall loc.ms
  let counter := if ms = loc.ms then loc.counter + 1 else 0
  normalize ms counter loc.nodeId

/-- The milliseconds of a remote HLC that `receiveHlc` follows. -/
def clampedMs (wall : Nat) (remote : HLC) : Nat :=
  min remote.ms (wall + MAX_CLOCK_DRIFT_MS)

def receiveHlc (wall : Nat) (loc remote : HLC) : HLC :=
  let clampedRemoteMs := clampedMs wall remote
  let ms := max (max wall loc.ms) clampedRemoteMs
  let counter :=
    if ms = loc.ms ∧ ms = clampedRemoteMs then max loc.counter remote.counter + 1
    else if ms = loc.ms then loc.counter + 1
    else if ms = clampedRemoteMs then remote.counter + 1
    else 0
  normalize ms counter loc.nodeId

/-! ## The clock only advances -/

@[simp] theorem normalize_nodeId (ms counter : Nat) (nodeId : String) :
    (normalize ms counter nodeId).nodeId = nodeId := by
  simp only [normalize]
  split <;> rfl

theorem le_normalize_ms (ms counter : Nat) (nodeId : String) :
    ms ≤ (normalize ms counter nodeId).ms := by
  simp only [normalize]
  split <;> simp

theorem normalize_ms_le (ms counter : Nat) (nodeId : String) :
    (normalize ms counter nodeId).ms ≤ ms + 1 := by
  simp only [normalize]
  split <;> simp

/-- Normalising never moves an HLC back. -/
theorem le_normalize_time (ms counter : Nat) (nodeId : String) :
    (⟨ms, counter, nodeId⟩ : HLC).time ≤ (normalize ms counter nodeId).time := by
  rw [HLC.time_le_iff, normalize]
  split <;> simp

theorem le_sendHlc_ms (wall : Nat) (loc : HLC) : wall ≤ (sendHlc wall loc).ms :=
  le_trans (le_max_left wall loc.ms) (le_normalize_ms _ _ _)

theorem lt_sendHlc_time (wall : Nat) (loc : HLC) : loc.time < (sendHlc wall loc).time := by
  refine lt_of_lt_of_le ?_ (le_normalize_time _ _ _)
  have hms : loc.ms ≤ max wall loc.ms := le_max_right _ _
  rw [HLC.time_lt_iff]
  by_cases heq : max wall loc.ms = loc.ms
  · simp [heq]
  · exact Or.inl (lt_of_le_of_ne hms (Ne.symm heq))

theorem le_receiveHlc_ms (wall : Nat) (loc remote : HLC) :
    wall ≤ (receiveHlc wall loc remote).ms :=
  le_trans (le_trans (le_max_left wall loc.ms) (le_max_left _ _)) (le_normalize_ms _ _ _)

theorem lt_receiveHlc_time (wall : Nat) (loc remote : HLC) :
    loc.time < (receiveHlc wall loc remote).time := by
  refine lt_of_lt_of_le ?_ (le_normalize_time _ _ _)
  have hms : loc.ms ≤ max (max wall loc.ms) (clampedMs wall remote) :=
    le_trans (le_max_right _ _) (le_max_left _ _)
  rw [HLC.time_lt_iff]
  by_cases heq : max (max wall loc.ms) (clampedMs wall remote) = loc.ms
  · refine Or.inr ⟨heq.symm, ?_⟩
    by_cases hclamp : loc.ms = clampedMs wall remote
    · rw [if_pos ⟨heq, heq.trans hclamp⟩]
      exact Nat.lt_succ_of_le (le_max_left _ _)
    · have hne : ¬ (max (max wall loc.ms) (clampedMs wall remote) = loc.ms ∧
          max (max wall loc.ms) (clampedMs wall remote) = clampedMs wall remote) :=
        fun h => hclamp (h.1.symm.trans h.2)
      rw [if_neg hne, if_pos heq]
      exact Nat.lt_succ_self _
  · exact Or.inl (lt_of_le_of_ne hms (Ne.symm heq))

/-- A remote HLC is passed as far as the drift bound lets the clock follow it. -/
theorem clamped_lt_receiveHlc_time (wall : Nat) (loc remote : HLC) :
    toLex (clampedMs wall remote, remote.counter) < (receiveHlc wall loc remote).time := by
  refine lt_of_lt_of_le ?_ (le_normalize_time _ _ _)
  have hms : clampedMs wall remote ≤ max (max wall loc.ms) (clampedMs wall remote) :=
    le_max_right _ _
  refine Prod.Lex.toLex_lt_toLex.2 ?_
  by_cases heq : max (max wall loc.ms) (clampedMs wall remote) = clampedMs wall remote
  · refine Or.inr ⟨heq.symm, ?_⟩
    by_cases hloc : max (max wall loc.ms) (clampedMs wall remote) = loc.ms
    · rw [if_pos ⟨hloc, heq⟩]
      exact Nat.lt_succ_of_le (le_max_right _ _)
    · rw [if_neg fun h => hloc h.1, if_neg hloc, if_pos heq]
      exact Nat.lt_succ_self _
  · exact Or.inl (lt_of_le_of_ne hms (Ne.symm heq))

/-- A remote HLC within the drift bound is passed. -/
theorem remote_lt_receiveHlc_time {wall : Nat} (loc : HLC) {remote : HLC}
    (hdrift : remote.ms ≤ wall + MAX_CLOCK_DRIFT_MS) :
    remote.time < (receiveHlc wall loc remote).time := by
  have hclamped : clampedMs wall remote = remote.ms := min_eq_left hdrift
  simpa [hclamped, HLC.time] using clamped_lt_receiveHlc_time wall loc remote

/-! ## Counters that overflow -/

/-- The milliseconds that a send adds because the counter is full. -/
def sendCarry (wall : Nat) (loc : HLC) : Nat :=
  (sendHlc wall loc).ms - max wall loc.ms

/-- The milliseconds that a receive adds because the counter is full. -/
def receiveCarry (wall : Nat) (loc remote : HLC) : Nat :=
  (receiveHlc wall loc remote).ms - max (max wall loc.ms) (clampedMs wall remote)

theorem sendHlc_ms (wall : Nat) (loc : HLC) :
    (sendHlc wall loc).ms = max wall loc.ms + sendCarry wall loc := by
  have hle : max wall loc.ms ≤ (sendHlc wall loc).ms := le_normalize_ms _ _ _
  rw [sendCarry]
  omega

theorem sendCarry_le (wall : Nat) (loc : HLC) : sendCarry wall loc ≤ 1 := by
  have hle : (sendHlc wall loc).ms ≤ max wall loc.ms + 1 := normalize_ms_le _ _ _
  rw [sendCarry]
  omega

theorem receiveHlc_ms (wall : Nat) (loc remote : HLC) :
    (receiveHlc wall loc remote).ms =
      max (max wall loc.ms) (clampedMs wall remote) + receiveCarry wall loc remote := by
  have hle : max (max wall loc.ms) (clampedMs wall remote) ≤ (receiveHlc wall loc remote).ms :=
    le_normalize_ms _ _ _
  rw [receiveCarry]
  omega

theorem receiveCarry_le (wall : Nat) (loc remote : HLC) : receiveCarry wall loc remote ≤ 1 := by
  have hle : (receiveHlc wall loc remote).ms ≤
      max (max wall loc.ms) (clampedMs wall remote) + 1 := normalize_ms_le _ _ _
  rw [receiveCarry]
  omega

end Core
end Reflectdb
