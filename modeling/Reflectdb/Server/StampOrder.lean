import Reflectdb.Core.PackedHlc
import Reflectdb.Lib.Machine

/-!
# Stamp order — the texts that a server clock hands out

`stamp` and `receive` of `src/server/server-clock.ts` on texts: what is received is any text, as a
client sends it, and the stamps are compared as texts.
-/

namespace Reflectdb
namespace Server

open Core Lib NumberHlc

/-! ## Model -/

/-- What has passed through the clock; a received text with the reading of the wall clock then. -/
inductive Passed
  | stamped (text : Text)
  | received (wall : ℤ) (text : Text)
  deriving DecidableEq

/-- The clock, and its history, which no step reads. -/
structure StampRun where
  hlc : NumberHlc
  history : List Passed
  deriving DecidableEq

inductive StampEvent
  | stamp (wall : ℤ)
  | receive (wall : ℤ) (text : Text)

def StampEvent.wall : StampEvent → ℤ
  | .stamp wall => wall
  | .receive wall _ => wall

namespace StampRun

def stamp (s : StampRun) (wall : ℤ) : StampRun :=
  let hlc := sendHlc wall s.hlc
  ⟨hlc, s.history ++ [.stamped (packHlc hlc)]⟩

/-- A text that `unpackHlc` rejects leaves the clock alone. -/
def receive (s : StampRun) (wall : ℤ) (text : Text) : StampRun :=
  ⟨(unpackHlc text).elim s.hlc (receiveHlc wall s.hlc), s.history ++ [.received wall text]⟩

def perform (s : StampRun) : StampEvent → StampRun
  | .stamp wall => s.stamp wall
  | .receive wall text => s.receive wall text

end StampRun

/-- Every sequence of calls, at readings that `Date.now()` can have. -/
def stampMachine (hlc : NumberHlc) : Machine StampRun StampEvent :=
  ⟨⟨hlc, []⟩, fun s e => if |e.wall| ≤ MAX_WALL then some (s.perform e) else none⟩

/-! ## Order -/

/-- A text as `packHlc` writes it, of a time at most `ms`. -/
def WellFormed (text : Text) (ms : ℤ) : Prop :=
  ∃ t nodeId, Fits t ∧ nodeId ≠ [] ∧ text = NumberHlc.packed t nodeId ∧ ((ofLex t).1 : ℤ) ≤ ms

/-- `later` is a stamp above what passed before it: above a stamp, and above a well-formed text
that was not received with a time beyond `bound` of the wall clock. -/
def Above (bound : ℤ → ℤ) (before later : Passed) : Prop :=
  match before, later with
  | .stamped text, .stamped text' => text < text'
  | .received wall text, .stamped text' => WellFormed text (bound wall) → text < text'
  | _, .received _ _ => True

/-- A text that is read at all is read as natural numbers. -/
def ReadsNatural (text : Text) : Prop :=
  match unpackHlc text with
  | none => True
  | some hlc => (hlc.ms.den = 1 ∧ 0 ≤ hlc.ms.num) ∧ hlc.counter.den = 1 ∧ 0 ≤ hlc.counter.num

instance (text : Text) : Decidable (ReadsNatural text) := by
  unfold ReadsNatural
  generalize unpackHlc text = hlc
  exact match hlc with
    | none => inferInstanceAs (Decidable True)
    | some _ => inferInstanceAs (Decidable (_ ∧ _))

/-- The clock is below the largest number that holds its successor, and what it receives is read as
natural numbers. -/
def Regular (s : StampRun) (e : StampEvent) : Prop :=
  s.hlc.ms + 1 < MAX_SAFE ∧
    match e with
    | .stamp _ => True
    | .receive _ text => ReadsNatural text

instance (s : StampRun) (e : StampEvent) : Decidable (Regular s e) :=
  match e with
  | .stamp _ => inferInstanceAs (Decidable (_ ∧ True))
  | .receive _ text => inferInstanceAs (Decidable (_ ∧ ReadsNatural text))

/-! ## The invariant -/

/-- Everything in the history is below the time that the clock shows. -/
def Passed.Below (t : Time) : Passed → Prop
  | .stamped text => ∃ t' nodeId, Fits t' ∧ text = NumberHlc.packed t' nodeId ∧ t' ≤ t
  | .received wall text => ∀ t' nodeId, Fits t' → nodeId ≠ [] → text = NumberHlc.packed t' nodeId →
      ((ofLex t').1 : ℤ) ≤ wall + MAX_CLOCK_DRIFT_MS → t' ≤ t

structure StampInv (s : StampRun) : Prop where
  shows_ : ∃ t, s.hlc.Shows t ∧ ∀ p ∈ s.history, p.Below t
  ordered : s.history.Pairwise (Above (· + MAX_CLOCK_DRIFT_MS))

variable {s s' : StampRun} {t t' : Time}

theorem Passed.Below.mono {p : Passed} (h : p.Below t) (hle : t ≤ t') : p.Below t' := by
  cases p with
  | stamped text =>
      rcases h with ⟨u, nodeId, hfits, htext, hu⟩
      exact ⟨u, nodeId, hfits, htext, hu.trans hle⟩
  | received wall text =>
      exact fun u nodeId hfits hnode htext hnear => (h u nodeId hfits hnode htext hnear).trans hle

/-- A stamp of a later time is above what was below the clock. -/
theorem Passed.Below.above {p : Passed} (h : p.Below t) (hlt : t < t') (hfits : Fits t')
    (nodeId : Text) : Above (· + MAX_CLOCK_DRIFT_MS) p (.stamped (NumberHlc.packed t' nodeId)) := by
  cases p with
  | stamped text =>
      rcases h with ⟨u, node, hu, htext, hle⟩
      simp only [Above, htext]
      exact packed_lt (hle.trans_lt hlt) hu hfits node nodeId
  | received wall text =>
      rintro ⟨u, node, hu, hnode, htext, hnear⟩
      rw [htext]
      exact packed_lt ((h u node hu hnode htext hnear).trans_lt hlt) hu hfits node nodeId

theorem shows_safe {hlc : NumberHlc} (ht : hlc.Shows t) (h : hlc.ms + 1 < MAX_SAFE) :
    (ofLex t).1 + 1 < MAX_SAFE := by
  rw [ht.1] at h
  exact_mod_cast h

theorem StampInv.stamp (hinv : StampInv s) {wall : ℤ} (hwall : |wall| ≤ MAX_WALL)
    (hsafe : s.hlc.ms + 1 < MAX_SAFE) : StampInv (s.stamp wall) := by
  rcases hinv.shows_ with ⟨t, ht, hbelow⟩
  obtain ⟨t', hadv⟩ := sendHlc_spec ht (shows_safe ht hsafe) (le_of_abs_le hwall)
  have hfits : Fits t' := ⟨hadv.safe, hadv.counter⟩
  have htext := packHlc_of_shows hadv.shows_ hfits
  constructor
  · refine ⟨t', hadv.shows_, fun p hp => ?_⟩
    rcases List.mem_append.1 hp with hold | hnew
    · exact (hbelow p hold).mono hadv.later.le
    · have hp' : p = .stamped (packHlc (sendHlc wall s.hlc)) := by simpa using hnew
      subst hp'
      exact ⟨t', _, hfits, htext, le_refl _⟩
  · refine List.pairwise_append.2 ⟨hinv.ordered, List.pairwise_singleton _ _, ?_⟩
    intro p hp q hq
    have hq' : q = .stamped (packHlc (sendHlc wall s.hlc)) := by simpa using hq
    rw [hq', htext]
    exact (hbelow p hp).above hadv.later hfits _

/-- The clock after a text that is read as natural numbers, or not at all. -/
theorem receive_spec (ht : s.hlc.Shows t) {wall : ℤ} (hwall : |wall| ≤ MAX_WALL)
    (hsafe : s.hlc.ms + 1 < MAX_SAFE) {text : Text} (hnat : ReadsNatural text) :
    ∃ t', (s.receive wall text).hlc.Shows t' ∧ t ≤ t' ∧
      (Passed.received wall text).Below t' := by
  unfold ReadsNatural at hnat
  cases hread : unpackHlc text with
  | none =>
      refine ⟨t, by simpa [StampRun.receive, hread] using ht, le_refl t, ?_⟩
      intro u nodeId hfits hnode htext _
      rw [htext, unpackHlc_packed hfits hnode] at hread
      cases hread
  | some remote =>
      rw [hread] at hnat
      rcases hnat with ⟨⟨hmsDen, hmsNum⟩, hcDen, hcNum⟩
      have hnum : ∀ {q : ℚ}, q.den = 1 → 0 ≤ q.num → q = (q.num.toNat : ℚ) := by
        intro q hden hnonneg
        have hq : q = q.num := (Rat.coe_int_num_of_den_eq_one hden).symm
        have hcast : ((q.num.toNat : ℤ) : ℚ) = q.num := by rw [Int.toNat_of_nonneg hnonneg]
        rw [← Int.cast_natCast, hcast]
        exact hq
      have hr : remote.Shows (toLex (remote.ms.num.toNat, remote.counter.num.toNat)) :=
        ⟨hnum hmsDen hmsNum, hnum hcDen hcNum⟩
      obtain ⟨t', hadv, hpast⟩ := receiveHlc_spec ht hr (shows_safe ht hsafe) hwall
      refine ⟨t', by simpa [StampRun.receive, hread] using hadv.shows_, hadv.later.le, ?_⟩
      intro u nodeId hfits hnode htext hnear
      -- A well-formed text is read as its own time.
      rw [htext, unpackHlc_packed hfits hnode] at hread
      obtain rfl := Option.some.inj hread
      have hu : toLex ((((ofLex u).1 : ℚ).num.toNat), (((ofLex u).2 : ℚ).num.toNat)) = u := by
        simp
      rw [hu] at hpast
      exact (hpast hnear).le

theorem StampInv.receive (hinv : StampInv s) {wall : ℤ} (hwall : |wall| ≤ MAX_WALL)
    (hsafe : s.hlc.ms + 1 < MAX_SAFE) {text : Text} (hnat : ReadsNatural text) :
    StampInv (s.receive wall text) := by
  rcases hinv.shows_ with ⟨t, ht, hbelow⟩
  obtain ⟨t', hshows, hle, hnew⟩ := receive_spec ht hwall hsafe hnat
  constructor
  · refine ⟨t', hshows, fun p hp => ?_⟩
    rcases List.mem_append.1 hp with hold | hlast
    · exact (hbelow p hold).mono hle
    · have hp' : p = .received wall text := by simpa using hlast
      exact hp' ▸ hnew
  · refine List.pairwise_append.2 ⟨hinv.ordered, List.pairwise_singleton _ _, ?_⟩
    intro p _ q hq
    have hq' : q = .received wall text := by simpa using hq
    rw [hq']
    cases p <;> trivial

theorem StampInv.step {hlc : NumberHlc} {e : StampEvent} (hinv : StampInv s) (hreg : Regular s e)
    (hs : (stampMachine hlc).step s e = some s') : StampInv s' := by
  rcases Option.ite_none_right_eq_some.1 hs with ⟨hwall, hperform⟩
  cases hperform
  cases e with
  | stamp wall => exact hinv.stamp hwall hreg.1
  | receive wall text => exact hinv.receive hwall hreg.1 hreg.2

/-- As long as the clock stays below `2 ^ 53` and is fed natural numbers, the stamps increase, and
each is above every well-formed text received before it that was not ahead of the wall clock by more
than the bound on the drift. -/
theorem stamps_above {hlc : NumberHlc} {t : Time} (ht : hlc.Shows t)
    (h : (stampMachine hlc).Reach Regular s) :
    s.history.Pairwise (Above (· + MAX_CLOCK_DRIFT_MS)) := by
  have hstart : StampInv (stampMachine hlc).init :=
    ⟨⟨t, ht, fun _ hp => absurd hp List.not_mem_nil⟩, List.Pairwise.nil⟩
  exact (h.invariant hstart fun hinv hg hs => hinv.step hg hs).ordered

def zeroClock : NumberHlc :=
  ⟨0, 0, Text.ofChars ['s']⟩

/-- The HLC of a client at `ms`, with the counter 7. -/
def clientText (ms : ℕ) : Text :=
  NumberHlc.packed (toLex (ms, 7)) (Text.ofChars ['c'])

/-- The wall clock goes back between the stamps, and a client is ahead of it. -/
theorem stamps_above_clockBack : ∃ s : StampRun, s.history.length = 4 ∧
    s.history.Pairwise (Above (· + MAX_CLOCK_DRIFT_MS)) := by
  have hrun : (((stampMachine zeroClock).runWith (fun s e => decide (Regular s e)) ⟨zeroClock, []⟩
      [.stamp 5000, .receive 5000 (clientText 9000), .stamp 4000, .stamp 3000]).map
        fun s => s.history.length) = some 4 := by
    decide +kernel
  rcases Option.map_eq_some_iff.1 hrun with ⟨s, hs, hlength⟩
  have hreach := Machine.Reach.of_runWith (fun _ _ h => of_decide_eq_true h) .init hs
  have hshows : zeroClock.Shows (toLex (0, 0)) := ⟨by simp [zeroClock], by simp [zeroClock]⟩
  exact ⟨s, hlength, stamps_above hshows hreach⟩

/-- A time beyond the bound on the drift is not followed. -/
theorem not_above_farAhead :
    ¬ ∀ hlc t s, hlc.Shows t → (stampMachine hlc).Reachable s →
      s.history.Pairwise (Above fun _ => MAX_SAFE) := by
  intro h
  have hrun : ((stampMachine zeroClock).run
      [.receive 0 (clientText 300001), .stamp 0]).map (·.history) =
        some [.received 0 (clientText 300001), .stamped (NumberHlc.packed (toLex (300000, 9))
          (Text.ofChars ['s']))] := by
    decide +kernel
  rcases Option.map_eq_some_iff.1 hrun with ⟨s, hs, hhistory⟩
  have hshows : zeroClock.Shows (toLex (0, 0)) := ⟨by simp [zeroClock], by simp [zeroClock]⟩
  have hpair := h zeroClock (toLex (0, 0)) s hshows (.of_run hs)
  rw [hhistory, List.pairwise_pair] at hpair
  have hwell : WellFormed (clientText 300001) MAX_SAFE :=
    ⟨toLex (300001, 7), Text.ofChars ['c'], ⟨by decide, by decide⟩, by decide, rfl, by decide⟩
  exact absurd (hpair hwell) (by decide +kernel)

end Server
end Reflectdb
