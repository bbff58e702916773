import Reflectdb.Core.PackedHlc

/-!
# HLC codec — packed HLCs are read back and ordered as their parts, and the clock moves on

Milliseconds are integers here, of any sign.  The clock adds to them as numbers do, which is exact
below `2 ^ 53`.
-/

namespace Reflectdb
namespace Core

open Lib

def compareHlc (a b : Text) : ℤ :=
  if a < b then -1 else if b < a then 1 else 0

namespace NumberHlc

/-- The HLCs that are packed: the milliseconds have room, and there is a node. -/
structure Packable (hlc : NumberHlc) : Prop where
  ms : ∃ ms : ℕ, hlc.ms = ms ∧ ms < 10 ^ 15
  counter : ∃ counter : ℕ, hlc.counter = counter ∧ counter ≤ COUNTER_MAX
  nodeId : hlc.nodeId ≠ []

/-- The first part that differs decides. -/
def Before (a b : NumberHlc) : Prop :=
  a.ms < b.ms ∨ a.ms = b.ms ∧
    (a.counter < b.counter ∨ a.counter = b.counter ∧ a.nodeId < b.nodeId)

instance (a b : NumberHlc) : Decidable (a.Before b) :=
  inferInstanceAs (Decidable (_ ∨ _))

def compareParts (a b : NumberHlc) : ℤ :=
  if a.Before b then -1 else if b.Before a then 1 else 0

/-! ## The codec -/

theorem Packable.shows {hlc : NumberHlc} (h : Packable hlc) :
    ∃ t, hlc.Shows t ∧ Fits t := by
  obtain ⟨ms, hms, hroom⟩ := h.ms
  obtain ⟨counter, hcounter, hmax⟩ := h.counter
  have hsafe : ms < MAX_SAFE := hroom.trans (by decide)
  exact ⟨toLex (ms, counter), ⟨hms, hcounter⟩, hsafe, hmax⟩

theorem unpackHlc_packHlc {hlc : NumberHlc} (h : Packable hlc) :
    unpackHlc (packHlc hlc) = some hlc := by
  obtain ⟨t, hshows, hfits⟩ := h.shows
  rw [packHlc_of_shows hshows hfits, unpackHlc_packed hfits h.nodeId, ← hshows.1, ← hshows.2]

theorem packed_lt_iff {t t' : Time} (hfits : Fits t) (hfits' : Fits t') (nodeId nodeId' : Text) :
    packed t nodeId < packed t' nodeId' ↔ t < t' ∨ t = t' ∧ nodeId < nodeId' := by
  constructor
  · intro h
    rcases lt_trichotomy t t' with hlt | rfl | hgt
    · exact .inl hlt
    · refine .inr ⟨rfl, ?_⟩
      rw [packed, packed, append_lt_append_iff rfl] at h
      have hrest := (h.resolve_left (List.lt_irrefl _)).2
      rw [List.cons_lt_cons_iff] at hrest
      have hcounter := (hrest.resolve_left (UInt16.lt_irrefl _)).2
      rw [append_lt_append_iff rfl] at hcounter
      have hnode := (hcounter.resolve_left (List.lt_irrefl _)).2
      rw [List.cons_lt_cons_iff] at hnode
      exact (hnode.resolve_left (UInt16.lt_irrefl _)).2
    · exact absurd h (List.lt_asymm (packed_lt hgt hfits' hfits nodeId' nodeId))
  · rintro (hlt | ⟨rfl, hnode⟩)
    · exact packed_lt hlt hfits hfits' nodeId nodeId'
    · -- the nodes decide behind numerals that are the same
      have hstart : dot :: nodeId < dot :: nodeId' := List.cons_lt_cons_iff.2 (.inr ⟨rfl, hnode⟩)
      rw [packed, packed, append_lt_append_iff rfl, List.cons_lt_cons_iff]
      exact .inr ⟨rfl, .inr ⟨rfl, (append_lt_append_iff rfl).2 (.inr ⟨rfl, hstart⟩)⟩⟩

theorem packHlc_lt_iff {a b : NumberHlc} (ha : Packable a) (hb : Packable b) :
    packHlc a < packHlc b ↔ a.Before b := by
  obtain ⟨t, hshows, hfits⟩ := ha.shows
  obtain ⟨t', hshows', hfits'⟩ := hb.shows
  rw [packHlc_of_shows hshows hfits, packHlc_of_shows hshows' hfits', packed_lt_iff hfits hfits',
    Before, hshows.1, hshows.2, hshows'.1, hshows'.2, Prod.Lex.lt_iff]
  simp only [Nat.cast_lt, Nat.cast_inj]
  constructor
  · rintro ((hms | ⟨hms, hcounter⟩) | ⟨rfl, hnode⟩)
    · exact .inl hms
    · exact .inr ⟨hms, .inl hcounter⟩
    · exact .inr ⟨rfl, .inr ⟨rfl, hnode⟩⟩
  · rintro (hms | ⟨hms, hcounter | ⟨hcounter, hnode⟩⟩)
    · exact .inl (.inl hms)
    · exact .inl (.inr ⟨hms, hcounter⟩)
    · exact .inr ⟨Prod.ext hms hcounter, hnode⟩

theorem compareHlc_packHlc {a b : NumberHlc} (ha : Packable a) (hb : Packable b) :
    compareHlc (packHlc a) (packHlc b) = compareParts a b := by
  simp only [compareHlc, compareParts, packHlc_lt_iff ha hb, packHlc_lt_iff hb ha]

/-! ## The clock -/

/-- Milliseconds and counter, in the order of the clock. -/
def reading (hlc : NumberHlc) : ℚ ×ₗ ℚ :=
  toLex (hlc.ms, hlc.counter)

/-- The milliseconds of a remote HLC that `receiveHlc` follows. -/
def clampedMs (wall : ℤ) (remote : NumberHlc) : ℚ :=
  min remote.ms (plus wall MAX_CLOCK_DRIFT_MS)

/-- The counter has room in a packed HLC. -/
def CounterFits (hlc : NumberHlc) : Prop :=
  ∃ counter : ℕ, hlc.counter = counter ∧ counter ≤ COUNTER_MAX

/-- An integer that one can be added to. -/
def SafeMs (ms : ℤ) : Prop :=
  ms.natAbs + 1 < MAX_SAFE

instance (ms : ℤ) : Decidable (SafeMs ms) :=
  inferInstanceAs (Decidable (_ < _))

theorem SafeMs.max {m n : ℤ} (hm : SafeMs m) (hn : SafeMs n) : SafeMs (max m n) := by
  rcases max_choice m n with h | h <;> rw [h] <;> assumption

theorem toLex_lt_of_ms {m n c d : ℚ} (h : m < n) : toLex (m, c) < toLex (n, d) :=
  Prod.Lex.toLex_lt_toLex.2 (.inl h)

theorem toLex_lt_of_counter {m : ℚ} {counter next : ℕ} (h : counter < next) :
    toLex (m, (counter : ℚ)) < toLex (m, (next : ℚ)) :=
  Prod.Lex.toLex_lt_toLex.2 (.inr ⟨rfl, Nat.cast_lt.2 h⟩)

/-- Normalising makes the counter fit, and moves nothing back. -/
theorem normalize_spec {ms : ℤ} (hms : SafeMs ms) (counter : ℕ) (nodeId : Text) :
    CounterFits (normalize ms counter nodeId) ∧
      toLex ((ms : ℚ), (counter : ℚ)) ≤ (normalize ms counter nodeId).reading := by
  by_cases hfull : COUNTER_MAX < counter
  · have hplus : plus (ms : ℚ) 1 = (ms + 1 : ℤ) := by
      have hcast : (ms : ℚ) + 1 = (ms + 1 : ℤ) := by push_cast; rfl
      have hsafe : (ms + 1).natAbs < MAX_SAFE := by
        rw [SafeMs] at hms
        omega
      rw [plus, hcast, toDouble_intCast hsafe]
    have hcond : (counter : ℚ) > COUNTER_MAX := by exact_mod_cast hfull
    have hnext : (ms : ℚ) < (ms + 1 : ℤ) := by exact_mod_cast Int.lt_succ ms
    simp only [normalize, if_pos hcond, hplus]
    exact ⟨⟨0, by simp, Nat.zero_le _⟩, (toLex_lt_of_ms hnext).le⟩
  · have hcond : ¬ (counter : ℚ) > COUNTER_MAX := not_lt.2 (by exact_mod_cast not_lt.1 hfull)
    simp only [normalize, if_neg hcond]
    exact ⟨⟨counter, rfl, not_lt.1 hfull⟩, le_refl _⟩

/-- What is behind in the milliseconds, or level with them and behind in the counter, is passed. -/
theorem lt_normalize {ms top : ℤ} {counter next : ℕ} (htop : SafeMs top)
    (hle : ms ≤ top) (hlevel : top = ms → counter < next) (nodeId : Text) :
    toLex ((ms : ℚ), (counter : ℚ)) < (normalize top next nodeId).reading := by
  refine lt_of_lt_of_le ?_ (normalize_spec htop next nodeId).2
  rcases hle.lt_or_eq with hlt | rfl
  · exact toLex_lt_of_ms (Int.cast_lt.2 hlt)
  · exact toLex_lt_of_counter (hlevel rfl)

/-- A counter that fits is incremented exactly. -/
theorem plus_one_of_fits {counter : ℕ} (h : counter ≤ COUNTER_MAX) :
    plus (counter : ℚ) 1 = (counter + 1 : ℕ) := by
  have hcast : (counter : ℚ) + 1 = (counter + 1 : ℕ) := by push_cast; rfl
  rw [plus, hcast, toDouble_natCast (lt_of_le_of_lt (Nat.succ_le_succ h) (by decide))]

theorem sendHlc_eq_normalize {wall ms : ℤ} {loc : NumberHlc} {counter : ℕ} (hms : loc.ms = ms)
    (hcounter : loc.counter = counter) (hroom : counter ≤ COUNTER_MAX) :
    sendHlc wall loc = normalize (max wall ms : ℤ)
      (if max wall ms = ms then counter + 1 else 0 : ℕ) loc.nodeId := by
  have htop : max (wall : ℚ) loc.ms = (max wall ms : ℤ) := by rw [hms, Int.cast_max]
  have hlevel : ((max wall ms : ℤ) : ℚ) = loc.ms ↔ max wall ms = ms := by
    rw [hms, Int.cast_inj]
  simp only [sendHlc, htop, hlevel, hcounter, plus_one_of_fits hroom]
  split <;> simp

/-- A stamp is later than the clock before it. -/
theorem sendHlc_advances {wall ms : ℤ} {loc : NumberHlc} (hms : loc.ms = ms)
    (hfits : CounterFits loc) (hsafe : SafeMs ms) (hwall : SafeMs wall) :
    CounterFits (sendHlc wall loc) ∧ loc.reading < (sendHlc wall loc).reading := by
  obtain ⟨counter, hcounter, hroom⟩ := hfits
  rw [sendHlc_eq_normalize hms hcounter hroom, reading, hms, hcounter]
  refine ⟨(normalize_spec (hwall.max hsafe) _ _).1,
    lt_normalize (hwall.max hsafe) (le_max_right _ _) (fun hlevel => ?_) _⟩
  rw [if_pos hlevel]
  exact Nat.lt_succ_self counter

/-- The remote milliseconds are an integer after the clamp, and one can be added to it. -/
theorem exists_clampedMs {wall ms : ℤ} {remote : NumberHlc} (hms : remote.ms = ms)
    (hsafe : SafeMs ms) (hwall : SafeMs wall) :
    ∃ clamped : ℤ, clampedMs wall remote = clamped ∧ SafeMs clamped := by
  have hcast : (wall : ℚ) + (MAX_CLOCK_DRIFT_MS : ℕ) = (wall + MAX_CLOCK_DRIFT_MS : ℤ) := by
    push_cast
    rfl
  rw [SafeMs] at hsafe hwall
  rcases lt_or_ge (wall + MAX_CLOCK_DRIFT_MS : ℤ) MAX_SAFE with hexact | hlarge
  · have hsmall : (wall + MAX_CLOCK_DRIFT_MS : ℤ).natAbs < MAX_SAFE := by omega
    refine ⟨min ms (wall + MAX_CLOCK_DRIFT_MS), ?_, ?_⟩
    · rw [clampedMs, hms, plus, hcast, toDouble_intCast hsmall]
      exact Int.cast_min.symm
    · rw [SafeMs]
      have hdrift : (0 : ℤ) ≤ MAX_CLOCK_DRIFT_MS := by decide
      omega
  · -- the sum may be rounded, and is above every safe integer
    have hround : ((MAX_SAFE : ℕ) : ℚ) ≤ plus wall MAX_CLOCK_DRIFT_MS := by
      rw [plus, hcast]
      exact le_toDouble (le_refl _) (by exact_mod_cast hlarge)
    have hbelow : (ms : ℚ) ≤ (MAX_SAFE : ℕ) := by
      have hint : ms ≤ (MAX_SAFE : ℤ) := by omega
      exact_mod_cast hint
    refine ⟨ms, ?_, hsafe⟩
    rw [clampedMs, hms, min_eq_left (hbelow.trans hround)]

/-- The counter after a receive, by the milliseconds that it is level with. -/
def nextCounter (top ms clamped : ℤ) (counter other : ℕ) : ℕ :=
  if top = ms ∧ top = clamped then max counter other + 1
  else if top = ms then counter + 1
  else if top = clamped then other + 1
  else 0

theorem lt_nextCounter {top ms clamped : ℤ} {counter other : ℕ} :
    (top = ms → counter < nextCounter top ms clamped counter other) ∧
      (top = clamped → other < nextCounter top ms clamped counter other) := by
  unfold nextCounter
  split_ifs <;> omega

theorem receiveHlc_eq_normalize {wall ms clamped : ℤ} {loc remote : NumberHlc}
    {counter other : ℕ} (hms : loc.ms = ms) (hclamped : clampedMs wall remote = clamped)
    (hcounter : loc.counter = counter) (hother : remote.counter = other)
    (hroom : counter ≤ COUNTER_MAX) (hotherRoom : other ≤ COUNTER_MAX) :
    receiveHlc wall loc remote = normalize (max (max wall ms) clamped : ℤ)
      (nextCounter (max (max wall ms) clamped) ms clamped counter other : ℕ) loc.nodeId := by
  have htop : max (max (wall : ℚ) loc.ms) (clamped : ℚ) = (max (max wall ms) clamped : ℤ) := by
    rw [hms, Int.cast_max, Int.cast_max]
  have hlevel : ((max (max wall ms) clamped : ℤ) : ℚ) = loc.ms ↔
      max (max wall ms) clamped = ms := by
    rw [hms, Int.cast_inj]
  have hmax : max (counter : ℚ) (other : ℚ) = (max counter other : ℕ) := (Nat.cast_max _ _).symm
  have hroomMax : max counter other ≤ COUNTER_MAX := max_le hroom hotherRoom
  rw [clampedMs] at hclamped
  simp only [receiveHlc, hclamped, htop, hlevel, Int.cast_inj, hcounter, hother, hmax,
    plus_one_of_fits hroom, plus_one_of_fits hotherRoom, plus_one_of_fits hroomMax]
  unfold nextCounter
  split_ifs <;> simp

/-- After a receive the clock is later than before, and later than the clamped remote one. -/
theorem receiveHlc_advances {wall ms remoteMs : ℤ} {loc remote : NumberHlc} (hms : loc.ms = ms)
    (hfits : CounterFits loc) (hremote : remote.ms = remoteMs) (hremoteFits : CounterFits remote)
    (hsafe : SafeMs ms) (hremoteSafe : SafeMs remoteMs) (hwall : SafeMs wall) :
    CounterFits (receiveHlc wall loc remote) ∧
      loc.reading < (receiveHlc wall loc remote).reading ∧
      toLex (clampedMs wall remote, remote.counter) <
        (receiveHlc wall loc remote).reading := by
  obtain ⟨clamped, hclamped, hclampedSafe⟩ := exists_clampedMs hremote hremoteSafe hwall
  obtain ⟨counter, hcounter, hroom⟩ := hfits
  obtain ⟨other, hother, hotherRoom⟩ := hremoteFits
  have htop := (hwall.max hsafe).max hclampedSafe
  have hle : ms ≤ max (max wall ms) clamped := (le_max_right wall ms).trans (le_max_left _ _)
  have hclampedLe : clamped ≤ max (max wall ms) clamped := le_max_right _ _
  rw [receiveHlc_eq_normalize hms hclamped hcounter hother hroom hotherRoom, reading, hms,
    hcounter, hclamped, hother]
  exact ⟨(normalize_spec htop _ _).1, lt_normalize htop hle lt_nextCounter.1 _,
    lt_normalize htop hclampedLe lt_nextCounter.2 _⟩

/-! ## The codec and the clock -/

/-- Packed HLCs are read back and ordered as their parts; and a clock whose milliseconds are safe
moves on with every stamp and every HLC that it receives, as far as the clamp lets it follow. -/
theorem hlc_codec :
    (∀ hlc, Packable hlc → unpackHlc (packHlc hlc) = some hlc) ∧
    (∀ a b, Packable a → Packable b → (packHlc a < packHlc b ↔ a.Before b) ∧
      compareHlc (packHlc a) (packHlc b) = compareParts a b) ∧
    (∀ (wall ms : ℤ) (loc : NumberHlc), loc.ms = ms → CounterFits loc → SafeMs ms → SafeMs wall →
      CounterFits (sendHlc wall loc) ∧ loc.reading < (sendHlc wall loc).reading) ∧
    (∀ (wall ms remoteMs : ℤ) (loc remote : NumberHlc), loc.ms = ms → CounterFits loc →
      remote.ms = remoteMs → CounterFits remote → SafeMs ms → SafeMs remoteMs → SafeMs wall →
      CounterFits (receiveHlc wall loc remote) ∧
        loc.reading < (receiveHlc wall loc remote).reading ∧
        toLex (clampedMs wall remote, remote.counter) <
          (receiveHlc wall loc remote).reading) :=
  ⟨fun _ h => unpackHlc_packHlc h,
    fun _ _ ha hb => ⟨packHlc_lt_iff ha hb, compareHlc_packHlc ha hb⟩,
    fun _ _ _ hms hfits hsafe hwall => sendHlc_advances hms hfits hsafe hwall,
    fun _ _ _ _ _ hms hfits hremote hremoteFits hsafe hremoteSafe hwall =>
      receiveHlc_advances hms hfits hremote hremoteFits hsafe hremoteSafe hwall⟩

/-- A clock whose counter is full, on a node with a dot in its name. -/
def fullClock (ms : ℚ) : NumberHlc :=
  ⟨ms, 9999, Text.ofChars ['a', '.', 'b']⟩

theorem packable_fullClock : Packable (fullClock 5) where
  ms := ⟨5, rfl, by decide⟩
  counter := ⟨9999, rfl, by decide⟩
  nodeId := by decide

theorem counterFits_fullClock (ms : ℚ) : CounterFits (fullClock ms) :=
  ⟨9999, rfl, by decide⟩

theorem hlc_codec_fullClock :
    unpackHlc (packHlc (fullClock 5)) = some (fullClock 5) ∧
      compareHlc (packHlc (fullClock 5)) (packHlc (fullClock 5)) =
        compareParts (fullClock 5) (fullClock 5) ∧
      (fullClock 5).reading < (sendHlc 3 (fullClock 5)).reading ∧
      (fullClock 5).reading < (receiveHlc 3 (fullClock 5) (fullClock 5)).reading := by
  have hms : (fullClock 5).ms = (5 : ℤ) := rfl
  have hsafe : SafeMs 5 := by decide
  have hwall : SafeMs 3 := by decide
  have hfits := counterFits_fullClock 5
  exact ⟨hlc_codec.1 _ packable_fullClock,
    (hlc_codec.2.1 _ _ packable_fullClock packable_fullClock).2,
    (hlc_codec.2.2.1 3 5 _ hms hfits hsafe hwall).2,
    (hlc_codec.2.2.2 3 5 5 _ _ hms hfits hms hfits hsafe hsafe hwall).2.1⟩

/-- One more than `2 ^ 53` is rounded to `2 ^ 53`, and a full counter goes back to zero there. -/
theorem not_sendHlc_advances_unsafe :
    ¬ ∀ (wall ms : ℤ) (loc : NumberHlc), loc.ms = ms → CounterFits loc →
      loc.reading < (sendHlc wall loc).reading := by
  intro h
  have hms : (fullClock (2 ^ 53)).ms = ((2 ^ 53 : ℤ) : ℚ) := by
    norm_num [fullClock]
  have hsend : sendHlc 0 (fullClock (2 ^ 53)) = ⟨2 ^ 53, 0, Text.ofChars ['a', '.', 'b']⟩ := by
    decide +kernel
  have hlater := h 0 (2 ^ 53) _ hms (counterFits_fullClock _)
  rw [hsend] at hlater
  revert hlater
  decide +kernel

end NumberHlc

end Core
end Reflectdb
