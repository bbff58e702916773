import Mathlib.Data.Prod.Lex
import Reflectdb.Core.Hlc
import Reflectdb.Core.Number

/-!
# Packed HLC — the clock on the numbers that its texts are read as

`src/core/hlc.ts` once more, on numbers and texts as JavaScript has them: what `unpackHlc` makes of
a text is any finite number, and the texts are compared.  A clock whose components are natural
numbers keeps them so, and is packed to numerals of one width.
-/

namespace Reflectdb
namespace Core

open Lib

structure NumberHlc where
  ms : ℚ
  counter : ℚ
  nodeId : Text
  deriving DecidableEq

def MS_PAD : Nat := 19

def COUNTER_PAD : Nat := 4

namespace NumberHlc

def normalize (ms counter : ℚ) (nodeId : Text) : NumberHlc :=
  if counter > COUNTER_MAX then ⟨plus ms 1, 0, nodeId⟩ else ⟨ms, counter, nodeId⟩

def sendHlc (wall : ℤ) (loc : NumberHlc) : NumberHlc :=
  let ms : ℚ := max wall loc.ms
  let counter := if ms = loc.ms then plus loc.counter 1 else 0
  normalize ms counter loc.nodeId

def receiveHlc (wall : ℤ) (loc remote : NumberHlc) : NumberHlc :=
  let clampedRemoteMs := min remote.ms (plus wall MAX_CLOCK_DRIFT_MS)
  let ms := max (max (wall : ℚ) loc.ms) clampedRemoteMs
  let counter :=
    if ms = loc.ms ∧ ms = clampedRemoteMs then plus (max loc.counter remote.counter) 1
    else if ms = loc.ms then plus loc.counter 1
    else if ms = clampedRemoteMs then plus remote.counter 1
    else 0
  normalize ms counter loc.nodeId

def packHlc (hlc : NumberHlc) : Text :=
  padStart MS_PAD (digit 0) (numberText hlc.ms) ++
    dot :: (padStart COUNTER_PAD (digit 0) (numberText hlc.counter) ++ dot :: hlc.nodeId)

/-- `unpackHlc`; `none` if it throws. -/
def unpackHlc (packed : Text) : Option NumberHlc :=
  (cut (· = dot) packed).bind fun p =>
    (cut (· = dot) p.2).bind fun q =>
      (toNumber p.1).bind fun ms =>
        (toNumber q.1).bind fun counter =>
          if q.2 = [] then none else some ⟨ms, counter, q.2⟩

/-! ## Clocks of natural numbers -/

/-- Milliseconds and counter, in the order of the clock. -/
abbrev Time : Type :=
  ℕ ×ₗ ℕ

/-- The clock shows the natural numbers `t`. -/
def Shows (hlc : NumberHlc) (t : Time) : Prop :=
  hlc.ms = ((ofLex t).1 : ℚ) ∧ hlc.counter = ((ofLex t).2 : ℚ)

/-- A counter after its increment, which may have been rounded. -/
theorem plus_one_spec (c : ℕ) :
    (c + 1 ≤ COUNTER_MAX → plus c 1 = (c + 1 : ℕ)) ∧
      (COUNTER_MAX < c + 1 → (COUNTER_MAX : ℚ) < plus c 1) := by
  have hcast : (c : ℚ) + 1 = (c + 1 : ℕ) := by push_cast; ring
  constructor
  · intro h
    rw [plus, hcast]
    exact toDouble_natCast (lt_of_le_of_lt h (by decide))
  · intro h
    have hle : ((COUNTER_MAX + 1 : ℕ) : ℚ) ≤ (c : ℚ) + 1 := by
      rw [hcast]
      exact_mod_cast h
    have hlt : ((COUNTER_MAX : ℕ) : ℚ) < ((COUNTER_MAX + 1 : ℕ) : ℚ) := by
      exact_mod_cast Nat.lt_succ_self _
    exact hlt.trans_le (le_toDouble (by decide) hle)

/-- The time that a full counter rolls over to. -/
def rolled (ms counter : ℕ) : Time :=
  if counter ≤ COUNTER_MAX then toLex (ms, counter) else toLex (ms + 1, 0)

theorem le_rolled (ms counter : ℕ) : toLex (ms, counter) ≤ rolled ms counter := by
  unfold rolled
  split
  · exact le_refl _
  · exact Prod.Lex.toLex_le_toLex.2 (Or.inl (Nat.lt_succ_self ms))

theorem rolled_counter_le (ms counter : ℕ) : (ofLex (rolled ms counter)).2 ≤ COUNTER_MAX := by
  unfold rolled
  split
  · assumption
  · exact Nat.zero_le _

theorem rolled_ms_le (ms counter : ℕ) : (ofLex (rolled ms counter)).1 ≤ ms + 1 := by
  unfold rolled
  split
  · exact Nat.le_succ ms
  · exact le_refl _

/-- `normalize` of an incremented counter. -/
theorem normalize_plus_one {ms : ℕ} (hms : ms + 1 < MAX_SAFE) (c : ℕ) (nodeId : Text) :
    (normalize ms (plus c 1) nodeId).Shows (rolled ms (c + 1)) := by
  rcases plus_one_spec c with ⟨hfits, hfull⟩
  by_cases hc : c + 1 ≤ COUNTER_MAX
  · have hle : ¬ (((c + 1 : ℕ) : ℚ) > COUNTER_MAX) := not_lt.2 (by exact_mod_cast hc)
    simp only [normalize, hfits hc, if_neg hle, rolled, if_pos hc]
    exact ⟨rfl, rfl⟩
  · have hplus : plus (ms : ℚ) 1 = (ms + 1 : ℕ) := by
      rw [plus, ← toDouble_natCast hms]
      push_cast
      rfl
    simp only [normalize, if_pos (hfull (not_le.1 hc)), hplus, rolled, if_neg hc]
    exact ⟨rfl, by simp⟩

theorem normalize_zero (ms : ℕ) (nodeId : Text) :
    (normalize ms 0 nodeId).Shows (rolled ms 0) := by
  have hle : ¬ ((0 : ℚ) > COUNTER_MAX) := not_lt.2 (Nat.cast_nonneg _)
  simp only [normalize, if_neg hle, rolled, if_pos (Nat.zero_le _)]
  exact ⟨rfl, by simp⟩

/-- The highest reading of a wall clock: a day of the year 275760. -/
def MAX_WALL : ℤ := 8640000000000000

/-- A step of the clock from `t` leads to a later time, which numbers hold and texts have room
for. -/
structure Advanced (t : Time) (hlc : NumberHlc) (t' : Time) : Prop where
  shows_ : hlc.Shows t'
  later : t < t'
  counter : (ofLex t').2 ≤ COUNTER_MAX
  safe : (ofLex t').1 < MAX_SAFE

theorem advanced_rolled {hlc : NumberHlc} {t : Time} {ms counter : ℕ}
    (hshows : hlc.Shows (rolled ms counter)) (hlater : t < toLex (ms, counter))
    (hms : ms + 1 < MAX_SAFE) : Advanced t hlc (rolled ms counter) where
  shows_ := hshows
  later := hlater.trans_le (le_rolled ms counter)
  counter := rolled_counter_le ms counter
  safe := (rolled_ms_le ms counter).trans_lt hms

theorem lt_of_ms_lt {t : Time} {ms counter : ℕ} (h : (ofLex t).1 < ms) :
    t < toLex (ms, counter) :=
  Prod.Lex.toLex_lt_toLex.2 (Or.inl h)

theorem lt_of_counter_le {t : Time} {counter : ℕ} (h : (ofLex t).2 ≤ counter) :
    t < toLex ((ofLex t).1, counter + 1) :=
  Prod.Lex.toLex_lt_toLex.2 (Or.inr ⟨rfl, Nat.lt_succ_of_le h⟩)

theorem sendHlc_spec {wall : ℤ} {loc : NumberHlc} {t : Time} (ht : loc.Shows t)
    (hms : (ofLex t).1 + 1 < MAX_SAFE) (hwall : wall ≤ MAX_WALL) :
    ∃ t', Advanced t (sendHlc wall loc) t' := by
  have hmax : MAX_WALL + 1 < (MAX_SAFE : ℤ) := by decide
  obtain ⟨ms, hk⟩ : ∃ ms : ℕ, max wall ((ofLex t).1 : ℤ) = ms :=
    Int.eq_ofNat_of_zero_le (le_max_of_le_right (Int.natCast_nonneg _))
  have hq : max (wall : ℚ) loc.ms = ms := by
    rw [ht.1]
    exact_mod_cast hk
  have hle : (ofLex t).1 ≤ ms := by
    have := le_max_right wall ((ofLex t).1 : ℤ)
    omega
  have hsafe : ms + 1 < MAX_SAFE := by
    rcases le_total wall ((ofLex t).1 : ℤ) with h | h
    · rw [max_eq_right h] at hk
      omega
    · rw [max_eq_left h] at hk
      omega
  by_cases heq : ms = (ofLex t).1
  · refine ⟨rolled ms ((ofLex t).2 + 1), advanced_rolled ?_ ?_ hsafe⟩
    · have hcond : (ms : ℚ) = loc.ms := by rw [ht.1, heq]
      simp only [sendHlc, hq, if_pos hcond, ht.2]
      exact normalize_plus_one hsafe _ _
    · exact heq ▸ lt_of_counter_le (le_refl _)
  · refine ⟨rolled ms 0, advanced_rolled ?_ ?_ hsafe⟩
    · have hcond : (ms : ℚ) ≠ loc.ms := by
        rw [ht.1]
        exact_mod_cast heq
      simp only [sendHlc, hq, if_neg hcond]
      exact normalize_zero _ _
    · exact lt_of_ms_lt (lt_of_le_of_ne hle (Ne.symm heq))

/-- A remote time that is not too far ahead of the wall clock is passed. -/
theorem receiveHlc_spec {wall : ℤ} {loc remote : NumberHlc} {t r : Time} (ht : loc.Shows t)
    (hr : remote.Shows r) (hms : (ofLex t).1 + 1 < MAX_SAFE) (hwall : |wall| ≤ MAX_WALL) :
    ∃ t', Advanced t (receiveHlc wall loc remote) t' ∧
      (((ofLex r).1 : ℤ) ≤ wall + MAX_CLOCK_DRIFT_MS → r < t') := by
  have hmax : MAX_WALL + MAX_CLOCK_DRIFT_MS + 1 < (MAX_SAFE : ℤ) := by decide
  have hbounds := abs_le.1 hwall
  have hdrift : plus wall MAX_CLOCK_DRIFT_MS = ((wall + MAX_CLOCK_DRIFT_MS : ℤ) : ℚ) := by
    have hcast : (wall : ℚ) + (MAX_CLOCK_DRIFT_MS : ℕ) = (wall + MAX_CLOCK_DRIFT_MS : ℤ) := by
      push_cast
      rfl
    rw [plus, hcast]
    exact toDouble_intCast (by omega)
  generalize hcl : min ((ofLex r).1 : ℤ) (wall + MAX_CLOCK_DRIFT_MS) = clamped
  have hclq : min remote.ms (plus wall MAX_CLOCK_DRIFT_MS) = (clamped : ℚ) := by
    rw [hr.1, hdrift]
    exact_mod_cast hcl
  obtain ⟨ms, hk⟩ : ∃ ms : ℕ, max (max wall ((ofLex t).1 : ℤ)) clamped = ms :=
    Int.eq_ofNat_of_zero_le (le_max_of_le_left (le_max_of_le_right (Int.natCast_nonneg _)))
  have hq : max (max (wall : ℚ) loc.ms) (clamped : ℚ) = ms := by
    rw [ht.1]
    exact_mod_cast hk
  have hsafe : ms + 1 < MAX_SAFE := by omega
  have hle : (ofLex t).1 ≤ ms := by omega
  have hclle : clamped ≤ ms := by omega
  have hlocal : ((ms : ℚ) = loc.ms) ↔ ms = (ofLex t).1 := by
    rw [ht.1]
    exact Nat.cast_inj
  have hremote : ((ms : ℚ) = (clamped : ℚ)) ↔ (ms : ℤ) = clamped := by
    rw [← Int.cast_natCast]
    exact Int.cast_inj
  -- The clamped milliseconds of a remote that is not too far ahead are its own.
  have hnear : ((ofLex r).1 : ℤ) ≤ wall + MAX_CLOCK_DRIFT_MS → ((ofLex r).1 : ℤ) = clamped :=
    fun h => by rw [← hcl, min_eq_left h]
  have hbehind : ¬ (ms : ℤ) = clamped → ∀ counter,
      ((ofLex r).1 : ℤ) ≤ wall + MAX_CLOCK_DRIFT_MS → r < toLex (ms, counter) :=
    fun hne counter h => lt_of_ms_lt (by have := hnear h; omega)
  simp only [receiveHlc, hclq, hq, hlocal, hremote]
  by_cases hl : ms = (ofLex t).1 <;> by_cases hrem : (ms : ℤ) = clamped
  · have hcounter : max loc.counter remote.counter = (max (ofLex t).2 (ofLex r).2 : ℕ) := by
      rw [ht.2, hr.2]
      exact (Nat.cast_max _ _).symm
    rw [if_pos ⟨hl, hrem⟩, hcounter]
    refine ⟨_, advanced_rolled (normalize_plus_one hsafe _ _) ?_ hsafe, fun h => ?_⟩
    · exact hl ▸ lt_of_counter_le (le_max_left _ _)
    · have hms' : ms = (ofLex r).1 := by have := hnear h; omega
      exact lt_of_lt_of_le (hms' ▸ lt_of_counter_le (le_max_right _ _)) (le_rolled _ _)
  · rw [if_neg (fun h => hrem h.2), if_pos hl, ht.2]
    refine ⟨_, advanced_rolled (normalize_plus_one hsafe _ _) ?_ hsafe, fun h => ?_⟩
    · exact hl ▸ lt_of_counter_le (le_refl _)
    · exact (hbehind hrem _ h).trans_le (le_rolled _ _)
  · rw [if_neg (fun h => hl h.1), if_neg hl, if_pos hrem, hr.2]
    refine ⟨_, advanced_rolled (normalize_plus_one hsafe _ _) ?_ hsafe, fun h => ?_⟩
    · exact lt_of_ms_lt (lt_of_le_of_ne hle (Ne.symm hl))
    · have hms' : ms = (ofLex r).1 := by have := hnear h; omega
      exact lt_of_lt_of_le (hms' ▸ lt_of_counter_le (le_refl _)) (le_rolled _ _)
  · rw [if_neg (fun h => hl h.1), if_neg hl, if_neg hrem]
    refine ⟨_, advanced_rolled (normalize_zero _ _) ?_ hsafe, fun h => ?_⟩
    · exact lt_of_ms_lt (lt_of_le_of_ne hle (Ne.symm hl))
    · exact (hbehind hrem _ h).trans_le (le_rolled _ _)

/-! ## Packed clocks -/

/-- Two numerals of one width each, and the node. -/
def packed (t : Time) (nodeId : Text) : Text :=
  numeral 10 digit MS_PAD (ofLex t).1 ++
    dot :: (numeral 10 digit COUNTER_PAD (ofLex t).2 ++ dot :: nodeId)

/-- The time has room in a packed HLC. -/
def Fits (t : Time) : Prop :=
  (ofLex t).1 < MAX_SAFE ∧ (ofLex t).2 ≤ COUNTER_MAX

theorem Fits.ms {t : Time} (h : Fits t) : (ofLex t).1 < 10 ^ MS_PAD :=
  h.1.trans (by decide)

theorem Fits.counter {t : Time} (h : Fits t) : (ofLex t).2 < 10 ^ COUNTER_PAD :=
  lt_of_le_of_lt h.2 (by decide)

theorem packHlc_of_shows {hlc : NumberHlc} {t : Time} (ht : hlc.Shows t) (hfits : Fits t) :
    packHlc hlc = packed t hlc.nodeId := by
  have hcounter : (ofLex t).2 < MAX_SAFE := lt_of_le_of_lt hfits.2 (by decide)
  rw [packHlc, ht.1, ht.2, numberText_natCast hfits.1, numberText_natCast hcounter, packed]
  rw [MS_PAD, COUNTER_PAD, padStart_decimal hfits.ms, padStart_decimal hfits.counter]

/-- Packed HLCs are ordered as their times, whatever the nodes. -/
theorem packed_lt {t t' : Time} (h : t < t') (hfits : Fits t) (hfits' : Fits t')
    (nodeId nodeId' : Text) : packed t nodeId < packed t' nodeId' := by
  have hdigit := digit_lt_iff
  rw [packed, packed, append_lt_append_iff (by simp), numeral_lt_iff hdigit hfits.ms hfits'.ms]
  rcases Prod.Lex.lt_iff.1 h with hms | ⟨hms, hcounter⟩
  · exact Or.inl hms
  · refine Or.inr ⟨congrArg _ hms, ?_⟩
    rw [List.cons_lt_cons_iff]
    refine Or.inr ⟨rfl, append_lt_append_of_lt (by simp) ?_ _ _⟩
    exact (numeral_lt_iff hdigit hfits.counter hfits'.counter).2 hcounter

theorem cut_append_of_digits {t : Text} (h : ∀ c ∈ t, isDigit c) (rest : Text) :
    cut (· = dot) (t ++ dot :: rest) = some (t, rest) := by
  have hne : ∀ c ∈ t, (!decide (c = dot)) = true := fun c hc => by
    simp [(h c hc).ne (e := dot) (by decide)]
  simp only [cut, List.any_append, List.any_cons, decide_true, Bool.true_or, Bool.or_true, if_true]
  rw [List.takeWhile_append_of_pos hne, List.dropWhile_append_of_pos hne]
  simp

/-- A packed HLC is read back. -/
theorem unpackHlc_packed {t : Time} (hfits : Fits t) {nodeId : Text} (hnode : nodeId ≠ []) :
    unpackHlc (packed t nodeId) = some ⟨(ofLex t).1, (ofLex t).2, nodeId⟩ := by
  have hcounter : (ofLex t).2 < MAX_SAFE := lt_of_le_of_lt hfits.2 (by decide)
  rw [unpackHlc, packed, cut_append_of_digits fun _ hc => isDigit_of_mem_numeral hc,
    Option.bind_some, cut_append_of_digits fun _ hc => isDigit_of_mem_numeral hc,
    Option.bind_some, MS_PAD, COUNTER_PAD, toNumber_numeral hfits.ms hfits.1,
    Option.bind_some, toNumber_numeral hfits.counter hcounter, Option.bind_some, if_neg hnode]

end NumberHlc

end Core
end Reflectdb
