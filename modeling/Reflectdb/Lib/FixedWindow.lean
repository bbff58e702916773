import Mathlib.Data.List.Induction

/-!
# Fixed windows — events counted by the windows that they open

An event opens a window unless it falls into the one that was opened last, so the windows do not
overlap.  A counter that keeps the last window only, as long as it is open, knows how many events
that window has had; if it lets no event in that would exceed a limit, no window exceeds it.
-/

namespace Reflectdb
namespace Lib
namespace FixedWindow

variable {w : Nat}

/-! ## Windows -/

/-- The starts of the windows, the newest first, after one more event. -/
def opened (w : Nat) : List Nat → Nat → List Nat
  | [], t => [t]
  | s :: starts, t => if t < s + w then s :: starts else t :: s :: starts

/-- The starts of the windows that the events open, the newest first. -/
def starts (w : Nat) (ts : List Nat) : List Nat :=
  ts.foldl (opened w) []

/-- How many of the events fall into the window that starts at `s`. -/
def within (w : Nat) (ts : List Nat) (s : Nat) : Nat :=
  ts.countP fun t => s ≤ t ∧ t < s + w

/-- How many events the window that is open at `now` has had. -/
def count (w : Nat) (ts : List Nat) (now : Nat) : Nat :=
  match starts w ts with
  | [] => 0
  | s :: _ => if now < s + w then within w ts s else 0

@[simp]
theorem starts_append (ts : List Nat) (t : Nat) :
    starts w (ts ++ [t]) = opened w (starts w ts) t := by
  simp [starts]

theorem opened_of_lt {s t : Nat} (rest : List Nat) (h : t < s + w) :
    opened w (s :: rest) t = s :: rest :=
  if_pos h

theorem opened_of_le {s t : Nat} (rest : List Nat) (h : s + w ≤ t) :
    opened w (s :: rest) t = t :: s :: rest :=
  if_neg (Nat.not_lt.2 h)

theorem count_of_starts {ts ss : List Nat} {s : Nat} (h : starts w ts = s :: ss) (now : Nat) :
    count w ts now = if now < s + w then within w ts s else 0 := by
  unfold count
  rw [h]

theorem within_append (ts : List Nat) (t s : Nat) :
    within w (ts ++ [t]) s = within w ts s + if s ≤ t ∧ t < s + w then 1 else 0 := by
  unfold within
  rw [List.countP_append, List.countP_singleton]
  simp only [decide_eq_true_eq]

/-- The window that is open is the last one; it can only have closed since. -/
theorem count_anti {ts : List Nat} {now later : Nat} (h : now ≤ later) :
    count w ts later ≤ count w ts now := by
  cases hss : starts w ts with
  | nil => simp [count, hss]
  | cons s rest =>
      rw [count_of_starts hss, count_of_starts hss]
      split
      · exact Nat.le_of_eq (if_pos (by omega)).symm
      · exact Nat.zero_le _

/-! ## Events in order -/

/-- Windows of events in order: each event lies before the end of the last window, and each earlier
window ends before that starts. -/
structure Opened (w : Nat) (ts starts : List Nat) : Prop where
  started : ∀ s ∈ starts, s ∈ ts
  closes : ∀ s ∈ starts.head?, ∀ t ∈ ts, t < s + w
  apart : starts.Pairwise fun later earlier => earlier + w ≤ later
  opens : starts = [] → ts = []

variable {ts : List Nat} {t : Nat}

theorem Opened.snoc (hw : 0 < w) {ss : List Nat} (h : Opened w ts ss) (ht : ∀ u ∈ ts, u ≤ t) :
    Opened w (ts ++ [t]) (opened w ss t) := by
  cases ss with
  | nil =>
      rw [h.opens rfl]
      refine ⟨fun s hs => hs, fun s hs u hu => ?_, List.pairwise_singleton _ _, fun hnil => ?_⟩
      · cases hs
        rw [List.mem_singleton.1 hu]
        omega
      · cases hnil
  | cons s rest =>
      rcases Nat.lt_or_ge t (s + w) with hin | hout
      · rw [opened_of_lt rest hin]
        refine ⟨fun s' hs' => List.mem_append_left _ (h.started s' hs'), fun s' hs' u hu => ?_,
          h.apart, fun hnil => ?_⟩
        · cases hs'
          rcases List.mem_append.1 hu with hold | hnew
          · exact h.closes s rfl u hold
          · rwa [List.mem_singleton.1 hnew]
        · cases hnil
      · rw [opened_of_le rest hout]
        refine ⟨fun s' hs' => ?_, fun s' hs' u hu => ?_, ?_, fun hnil => ?_⟩
        · rcases List.mem_cons.1 hs' with rfl | hold
          · exact List.mem_append_right _ (List.mem_singleton_self _)
          · exact List.mem_append_left _ (h.started s' hold)
        · cases hs'
          rcases List.mem_append.1 hu with hold | hnew
          · have := ht u hold
            omega
          · rw [List.mem_singleton.1 hnew]
            omega
        · -- the last window has ended, and the earlier ones before it started
          refine List.pairwise_cons.2 ⟨fun s' hs' => ?_, h.apart⟩
          rcases List.mem_cons.1 hs' with rfl | hold
          · exact hout
          · have := (List.pairwise_cons.1 h.apart).1 s' hold
            omega
        · cases hnil

theorem opened_starts (hw : 0 < w) (hts : ts.Pairwise (· ≤ ·)) : Opened w ts (starts w ts) := by
  induction ts using List.reverseRecOn with
  | nil => exact ⟨fun s hs => hs, fun s hs => (by cases hs), List.Pairwise.nil, fun _ => rfl⟩
  | append_singleton ts t ih =>
      rw [List.pairwise_append] at hts
      rw [starts_append]
      exact (ih hts.1).snoc hw fun u hu => hts.2.2 u hu t (List.mem_singleton_self t)

/-- No event yet falls into a window that one more event opens. -/
theorem within_eq_zero (hw : 0 < w) (hts : ts.Pairwise (· ≤ ·)) {s : Nat} {rest : List Nat}
    (hss : starts w ts = s :: rest) (hout : s + w ≤ t) : within w ts t = 0 := by
  refine List.countP_eq_zero.2 fun u hu => ?_
  have := (opened_starts hw hts).closes s (by rw [hss]; rfl) u hu
  simp only [decide_eq_true_eq, not_and]
  omega

/-- One more event is counted by the window that is open, or opens one. -/
theorem count_append (hw : 0 < w) (hts : ts.Pairwise (· ≤ ·)) (ht : ∀ u ∈ ts, u ≤ t) :
    count w (ts ++ [t]) t = count w ts t + 1 := by
  have hopened := opened_starts hw hts
  have hself : t < t + w := Nat.lt_add_of_pos_right hw
  cases hss : starts w ts with
  | nil =>
      rw [hss] at hopened
      rw [hopened.opens rfl]
      simp [count, starts, opened, within, hw]
  | cons s rest =>
      rw [hss] at hopened
      have hs : s ≤ t := ht s (hopened.started s List.mem_cons_self)
      rcases Nat.lt_or_ge t (s + w) with hin | hout
      · have hsnoc : starts w (ts ++ [t]) = s :: rest := by
          rw [starts_append, hss, opened_of_lt rest hin]
        rw [count_of_starts hsnoc, count_of_starts hss, if_pos hin, if_pos hin, within_append,
          if_pos ⟨hs, hin⟩]
      · have hsnoc : starts w (ts ++ [t]) = t :: s :: rest := by
          rw [starts_append, hss, opened_of_le rest hout]
        rw [count_of_starts hsnoc, count_of_starts hss, if_pos hself, if_neg (by omega),
          within_append, if_pos ⟨Nat.le_refl t, hself⟩, within_eq_zero hw hts hss hout]

/-- The bound of all windows: it holds as long as each event finds its window below the limit. -/
theorem within_le_snoc (hw : 0 < w) (hts : ts.Pairwise (· ≤ ·)) (ht : ∀ u ∈ ts, u ≤ t)
    {limit : Nat} (hbound : ∀ s ∈ starts w ts, within w ts s ≤ limit)
    (hroom : count w ts t < limit) :
    ∀ s ∈ starts w (ts ++ [t]), within w (ts ++ [t]) s ≤ limit := by
  intro s hs
  -- the event is counted by the last window; an earlier one has ended
  by_cases hin : s ≤ t ∧ t < s + w
  · have hlast : count w (ts ++ [t]) t = within w (ts ++ [t]) s := by
      have hopened := @opened_starts w (ts ++ [t]) hw
        (List.pairwise_append.2 ⟨hts, List.pairwise_singleton _ _, fun u hu v hv => by
          rw [List.mem_singleton.1 hv]
          exact ht u hu⟩)
      cases hss : starts w (ts ++ [t]) with
      | nil =>
          rw [hss] at hs
          cases hs
      | cons last rest =>
          rw [hss] at hs hopened
          rw [count_of_starts hss, if_pos (hopened.closes last rfl t (by simp))]
          rcases List.mem_cons.1 hs with rfl | hold
          · rfl
          · have hstart := hopened.started last List.mem_cons_self
            have := (List.pairwise_cons.1 hopened.apart).1 s hold
            rcases List.mem_append.1 hstart with h | h
            · have := ht last h
              omega
            · have := List.mem_singleton.1 h
              omega
    rw [← hlast, count_append hw hts ht]
    exact hroom
  · rw [within_append, if_neg hin, Nat.add_zero]
    rw [starts_append] at hs
    cases hss : starts w ts with
    | nil =>
        rw [hss] at hs
        rw [List.mem_singleton.1 hs] at hin
        exact absurd ⟨Nat.le_refl t, Nat.lt_add_of_pos_right hw⟩ hin
    | cons last rest =>
        rw [hss] at hs hbound
        rcases Nat.lt_or_ge t (last + w) with hlt | hge
        · rw [opened_of_lt rest hlt] at hs
          exact hbound s hs
        · rw [opened_of_le rest hge] at hs
          rcases List.mem_cons.1 hs with rfl | hold
          · exact absurd ⟨Nat.le_refl s, Nat.lt_add_of_pos_right hw⟩ hin
          · exact hbound s hold

/-! ## Counters -/

/-- What is kept of the last window: its events, and when it ends. -/
structure Bucket where
  count : Nat
  resetAt : Nat

/-- One more event: it is added, or starts over where the window has ended. -/
def hit (w now : Nat) : Option Bucket → Bucket
  | none => ⟨1, now + w⟩
  | some bucket => if bucket.resetAt ≤ now then ⟨1, now + w⟩ else ⟨bucket.count + 1, bucket.resetAt⟩

/-- The window is open and has no room below the limit. -/
def full (limit now : Nat) (bucket : Option Bucket) : Bool :=
  bucket.any fun b => now < b.resetAt && limit ≤ b.count

/-- The bucket keeps the last window of the events; it may have been dropped after that ended. -/
def Tracks (w now : Nat) (ts : List Nat) : Option Bucket → Prop
  | none => ∀ s ∈ (starts w ts).head?, s + w ≤ now
  | some b => ∃ s ∈ (starts w ts).head?, b.resetAt = s + w ∧ b.count = within w ts s

theorem tracks_nil (now : Nat) : Tracks w now [] none := by
  intro s hs
  cases hs

namespace Tracks

variable {now : Nat} {bucket : Option Bucket}

theorem mono {later : Nat} (h : Tracks w now ts bucket) (hle : now ≤ later) :
    Tracks w later ts bucket := by
  cases bucket with
  | none => exact fun s hs => Nat.le_trans (h s hs) hle
  | some b => exact h

/-- A bucket whose window has ended can go. -/
theorem drop {b : Bucket} (h : Tracks w now ts (some b)) (hended : b.resetAt ≤ now) :
    Tracks w now ts none := by
  rcases h with ⟨s, hs, hreset, -⟩
  intro s' hs'
  rw [Option.mem_unique hs' hs, ← hreset]
  exact hended

theorem full_iff (h : Tracks w now ts bucket) {limit : Nat} (hpos : 0 < limit) :
    full limit now bucket = true ↔ limit ≤ count w ts now := by
  cases bucket with
  | none =>
      have hzero : count w ts now = 0 := by
        cases hss : starts w ts with
        | nil => simp [count, hss]
        | cons s rest =>
            have := h s (by rw [hss]; rfl)
            rw [count_of_starts hss, if_neg (by omega)]
      simp only [full, Option.any_none, Bool.false_eq_true, false_iff, hzero]
      omega
  | some b =>
      rcases h with ⟨s, hs, hreset, hcount⟩
      rcases List.head?_eq_some_iff.1 hs with ⟨rest, hss⟩
      rw [count_of_starts hss, ← hreset, ← hcount]
      simp only [full, Option.any_some, Bool.and_eq_true, decide_eq_true_eq]
      split
      · rename_i hopen
        exact ⟨fun hboth => hboth.2, fun hle => ⟨hopen, hle⟩⟩
      · rename_i hended
        exact ⟨fun hboth => absurd hboth.1 hended, fun hle => by omega⟩

/-- The bucket goes on to track the events when one more of them is counted. -/
theorem hit (hw : 0 < w) (hts : ts.Pairwise (· ≤ ·)) (hnow : ∀ u ∈ ts, u ≤ now)
    (h : Tracks w now ts bucket) : Tracks w now (ts ++ [now]) (some (hit w now bucket)) := by
  have hself : now < now + w := Nat.lt_add_of_pos_right hw
  -- in each case the head of the windows is the one that the bucket keeps
  cases hss : starts w ts with
  | nil =>
      have hts' : ts = [] := (opened_starts hw hts).opens hss
      cases bucket with
      | none =>
          refine ⟨now, by rw [starts_append, hss]; rfl, rfl, ?_⟩
          rw [hts', within_append, if_pos ⟨Nat.le_refl now, hself⟩]
          rfl
      | some b =>
          rcases h with ⟨s, hs, -⟩
          rw [hss] at hs
          cases hs
  | cons s rest =>
      have hs : s ≤ now := hnow s ((opened_starts hw hts).started s (by rw [hss]; simp))
      have hopens : s + w ≤ now →
          Tracks w now (ts ++ [now]) (some ⟨1, now + w⟩) := by
        intro hout
        refine ⟨now, by rw [starts_append, hss, opened_of_le rest hout]; rfl, rfl, ?_⟩
        rw [within_append, if_pos ⟨Nat.le_refl now, hself⟩, within_eq_zero hw hts hss hout]
      cases bucket with
      | none => exact hopens (h s (by rw [hss]; rfl))
      | some b =>
          rcases h with ⟨s', hs', hreset, hcount⟩
          rw [hss] at hs'
          cases hs'
          unfold FixedWindow.hit
          dsimp only
          split
          · rename_i hended
            exact hopens (hreset ▸ hended)
          · rename_i hopen
            have hin : now < s + w := by omega
            refine ⟨s, by rw [starts_append, hss, opened_of_lt rest hin]; rfl, hreset, ?_⟩
            rw [within_append, if_pos ⟨hs, hin⟩, hcount]

end Tracks

end FixedWindow
end Lib
end Reflectdb
