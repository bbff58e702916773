import Reflectdb.Server.EagerOrder

/-!
# Eager flush — what a flush has missed when it is answered

An op that was pushed is persisted, called by the running flush, or in a buffer.  A caller is
answered when the run ends: until then each of its ops is in a buffer that the run has still to come
to, unless a failure of it was reported.
-/

namespace Reflectdb
namespace Server

open Core Client Lib Sync EagerState

/-! ## Where a pushed op is -/

section Flush

variable {s s' : EagerState} {t : Nat}

/-- The op has been persisted, or is among the calls of the running flush, or in a buffer. -/
def IsWritten (s : EagerState) (t : Nat) : Prop :=
  ∃ e ∈ s.written, e.task = t

def InFlush (s : EagerState) (t : Nat) : Prop :=
  ∃ (run : FlushRun) (items : List FlushItem), s.run = some run ∧
    run.items = some items ∧ ∃ item ∈ items, item.entry.task = t

def Queued (s : EagerState) (t : Nat) : Prop :=
  ∃ (p : Nat) (table : String), s.queryNames[p]? = some table ∧
    ∃ e ∈ s.buffers table, e.task = t

/-- It is in a buffer that the run has not come to. -/
def Awaits (s : EagerState) (run : FlushRun) (t : Nat) : Prop :=
  ∃ (p : Nat) (table : String), s.queryNames[p]? = some table ∧ ¬ run.past p ∧
    ∃ e ∈ s.buffers table, e.task = t

/-- When the run ends, the op is persisted or was reported. -/
def Tracked (s : EagerState) (run : FlushRun) (t : Nat) : Prop :=
  IsWritten s t ∨ InFlush s t ∨ Awaits s run t ∨ (Queued s t ∧ t ∈ s.reported)

structure FlushSound (s : EagerState) : Prop where
  kept : ∀ t ∈ s.pushed, IsWritten s t ∨ InFlush s t ∨ Queued s t
  calls : ∀ call ∈ s.calls, call.missed = none →
    ∃ run, s.run = some run ∧ ∀ t ∈ call.pushed, Tracked s run t
  answered : ∀ call ∈ s.calls, call.missed.getD [] = []

theorem requeued_iff : s.requeued t = true ↔ Queued s t ∧ t ∈ s.reported := by
  simp only [EagerState.requeued, Bool.and_eq_true, List.any_eq_true, decide_eq_true_eq,
    List.contains_iff_mem]
  refine and_congr_left fun _ => ⟨?_, ?_⟩
  · rintro ⟨table, htable, e, he, heq⟩
    rcases List.mem_iff_getElem?.1 htable with ⟨p, hp⟩
    exact ⟨p, table, hp, e, he, heq⟩
  · rintro ⟨p, table, hp, e, he, heq⟩
    exact ⟨table, List.mem_of_getElem? hp, e, he, heq⟩

/-- Nothing but more writes, pushes and buffers. -/
theorem FlushSound.grows (h : FlushSound s) (hrun : s'.run = s.run)
    (hwritten : ∀ e ∈ s.written, e ∈ s'.written)
    (hnames : ∀ (p : Nat) (table : String), s.queryNames[p]? = some table →
      s'.queryNames[p]? = some table)
    (hbuffers : ∀ table, ∀ e ∈ s.buffers table, e ∈ s'.buffers table)
    (hreported : s'.reported = s.reported) (hcalls : s'.calls = s.calls)
    (hpushed : ∀ t ∈ s'.pushed, t ∈ s.pushed ∨ Queued s' t) : FlushSound s' := by
  have hw : ∀ {t}, IsWritten s t → IsWritten s' t := fun ⟨e, he, heq⟩ => ⟨e, hwritten e he, heq⟩
  have hf : ∀ {t}, InFlush s t → InFlush s' t := fun ⟨run, items, hsome, hrest⟩ =>
    ⟨run, items, hrun.trans hsome, hrest⟩
  have hq : ∀ {t}, Queued s t → Queued s' t := fun ⟨p, table, hp, e, he, heq⟩ =>
    ⟨p, table, hnames p table hp, e, hbuffers table e he, heq⟩
  refine ⟨fun t ht => ?_, fun call hcall hnone => ?_, ?_⟩
  · rcases hpushed t ht with hold | hnew
    · exact (h.kept t hold).imp hw (Or.imp hf hq)
    · exact Or.inr (Or.inr hnew)
  · rcases h.calls call (hcalls ▸ hcall) hnone with ⟨run, hsome, hcovered⟩
    refine ⟨run, hrun.trans hsome, fun t ht => ?_⟩
    refine (hcovered t ht).imp hw (Or.imp hf (Or.imp ?_ (And.imp hq fun hr => hreported ▸ hr)))
    rintro ⟨p, table, hp, hpast, e, he, heq⟩
    exact ⟨p, table, hnames p table hp, hpast, e, hbuffers table e he, heq⟩
  · rw [hcalls]
    exact h.answered

theorem FlushRun.past_mk {place p : Nat} {items : Option (List FlushItem)} {ended : Bool} :
    FlushRun.past ⟨place, items, ended⟩ p ↔
      p < place ∨ (p = place ∧ items.isSome = true) ∨ ended = true :=
  Iff.rfl

theorem stepFlush_of_some {run : FlushRun} (hrun : s.run = some run) :
    s.stepFlush = { s with calls := s.calls ++ [⟨s.pushed, none⟩] } := by
  unfold EagerState.stepFlush
  rw [hrun]

theorem stepFlush_of_none (hrun : s.run = none) :
    s.stepFlush = { s with
      calls := s.calls ++ [⟨s.pushed, none⟩], run := some ⟨0, none, false⟩ } := by
  unfold EagerState.stepFlush
  rw [hrun]
  rfl

/-- A caller of `flush` starts one, or joins the running one. -/
theorem FlushSound.flush (h : FlushSound s)
    (hg : ∀ run, s.run = some run → ∀ x ∈ s.queryNames.zipIdx, run.past x.2 →
      ∀ entry ∈ s.buffers x.1, entry.task ∈ s.reported) : FlushSound s.stepFlush := by
  have hanswered : ∀ call ∈ s.calls ++ [⟨s.pushed, none⟩], call.missed.getD [] = [] := by
    intro call hcall
    rcases List.mem_append.1 hcall with hold | hnew
    · exact h.answered call hold
    · rw [List.mem_singleton.1 hnew]
      rfl
  cases hrun : s.run with
  | some run =>
      rw [stepFlush_of_some hrun]
      refine ⟨h.kept, fun call hcall hnone => ?_, hanswered⟩
      rcases List.mem_append.1 hcall with hold | hnew
      · exact h.calls call hold hnone
      · rw [List.mem_singleton.1 hnew]
        refine ⟨run, hrun, fun t ht => ?_⟩
        rcases h.kept t ht with hw | hf | ⟨p, table, hp, e, he, rfl⟩
        · exact Or.inl hw
        · exact Or.inr (Or.inl hf)
        · by_cases hpast : run.past p
          · have hin : (table, p) ∈ s.queryNames.zipIdx := List.mem_zipIdx_iff_getElem?.2 hp
            exact Or.inr (Or.inr (Or.inr ⟨⟨p, table, hp, e, he, rfl⟩,
              hg run hrun (table, p) hin hpast e he⟩))
          · exact Or.inr (Or.inr (Or.inl ⟨p, table, hp, hpast, e, he, rfl⟩))
  | none =>
      rw [stepFlush_of_none hrun]
      have hno : ∀ {t}, ¬ InFlush s t := by
        rintro t ⟨run, items, hsome, -⟩
        rw [hrun] at hsome
        cases hsome
      have hkept : ∀ t ∈ s.pushed, IsWritten s t ∨ Queued s t := fun t ht =>
        (h.kept t ht).imp id fun hor => hor.resolve_left hno
      refine ⟨fun t ht => (hkept t ht).imp id Or.inr, fun call hcall hnone => ?_, hanswered⟩
      rcases List.mem_append.1 hcall with hold | hnew
      · rcases h.calls call hold hnone with ⟨run, hsome, -⟩
        rw [hrun] at hsome
        cases hsome
      · rw [List.mem_singleton.1 hnew]
        refine ⟨_, rfl, fun t ht => ?_⟩
        rcases hkept t ht with hw | ⟨p, table, hp, hmem⟩
        · exact Or.inl hw
        · refine Or.inr (Or.inr (Or.inl ⟨p, table, hp, ?_, hmem⟩))
          simp [FlushRun.past_mk]

/-- The run goes past an empty buffer, or comes to the end of its loop. -/
theorem FlushSound.advance (h : FlushSound s) {run run' : FlushRun} (hrun : s.run = some run)
    (hitems : run.items = none)
    (hpast : ∀ p table, s.queryNames[p]? = some table → s.buffers table ≠ [] → ¬ run.past p →
      ¬ run'.past p) : FlushSound (s.setRun run') := by
  have hno : ∀ {t}, ¬ InFlush s t := by
    rintro t ⟨r, items, hsome, hi, -⟩
    obtain rfl := Option.some.inj (hrun.symm.trans hsome)
    rw [hitems] at hi
    cases hi
  refine ⟨fun t ht => ?_, fun call hcall hnone => ?_, h.answered⟩
  · rcases h.kept t ht with hw | hf | hq
    · exact Or.inl hw
    · exact absurd hf hno
    · exact Or.inr (Or.inr hq)
  · rcases h.calls call hcall hnone with ⟨r, hsome, hcovered⟩
    obtain rfl : run = r := Option.some.inj (hrun.symm.trans hsome)
    refine ⟨run', rfl, fun t ht => ?_⟩
    rcases hcovered t ht with hw | hf | ⟨p, table, hp, hnot, e, he, heq⟩ | hq
    · exact Or.inl hw
    · exact absurd hf hno
    · exact Or.inr (Or.inr (Or.inl
        ⟨p, table, hp, hpast p table hp (List.ne_nil_of_mem he) hnot, e, he, heq⟩))
    · exact Or.inr (Or.inr (Or.inr hq))

theorem FlushSound.drain (h : FlushSound s) {place : Nat} {table : String}
    (hrun : s.run = some ⟨place, none, false⟩) (htable : s.queryNames[place]? = some table) :
    FlushSound ({ s with buffers := Function.update s.buffers table [] }.setRun
      ⟨place, some ((s.buffers table).map fun entry => ⟨entry, .calling⟩), false⟩) := by
  let s' := { s with buffers := Function.update s.buffers table [] }.setRun
    ⟨place, some ((s.buffers table).map fun entry => ⟨entry, .calling⟩), false⟩
  have hno : ∀ {t}, ¬ InFlush s t := by
    rintro t ⟨r, items, hsome, hi, -⟩
    obtain rfl := Option.some.inj (hrun.symm.trans hsome)
    cases hi
  -- What was in a buffer still is, or is called now.
  have hmoves : ∀ {other : String} {e : EagerEntry}, e ∈ s.buffers other →
      InFlush s' e.task ∨ (other ≠ table ∧ e ∈ s'.buffers other) := by
    intro other e he
    by_cases heq : other = table
    · subst heq
      exact Or.inl ⟨_, _, rfl, rfl, _, List.mem_map_of_mem he, rfl⟩
    · refine Or.inr ⟨heq, ?_⟩
      change e ∈ Function.update s.buffers table [] other
      rw [Function.update_of_ne heq]
      exact he
  refine ⟨fun t ht => ?_, fun call hcall hnone => ?_, h.answered⟩
  · rcases h.kept t ht with hw | hf | ⟨p, other, hp, e, he, rfl⟩
    · exact Or.inl hw
    · exact absurd hf hno
    · rcases hmoves he with hf | ⟨-, he'⟩
      · exact Or.inr (Or.inl hf)
      · exact Or.inr (Or.inr ⟨p, other, hp, e, he', rfl⟩)
  · rcases h.calls call hcall hnone with ⟨r, hsome, hcovered⟩
    obtain rfl := Option.some.inj (hrun.symm.trans hsome)
    refine ⟨_, rfl, fun t ht => ?_⟩
    rcases hcovered t ht with hw | hf | ⟨p, other, hp, hnot, e, he, rfl⟩ |
      ⟨⟨p, other, hp, e, he, rfl⟩, hreported⟩
    · exact Or.inl hw
    · exact absurd hf hno
    · rcases hmoves he with hf | ⟨hne, he'⟩
      · exact Or.inr (Or.inl hf)
      · refine Or.inr (Or.inr (Or.inl ⟨p, other, hp, ?_, e, he', rfl⟩))
        have hplace : p ≠ place := by
          rintro rfl
          exact hne (Option.some.inj (hp.symm.trans htable))
        simp only [FlushRun.past_mk, Option.isSome_none] at hnot ⊢
        simp_all
    · rcases hmoves he with hf | ⟨-, he'⟩
      · exact Or.inr (Or.inl hf)
      · exact Or.inr (Or.inr (Or.inr ⟨⟨p, other, hp, e, he', rfl⟩, hreported⟩))

/-- The calls of a flush are the same, whatever becomes of them. -/
theorem FlushSound.item (h : FlushSound s) {place : Nat} {ended written : Bool}
    {items items' : List FlushItem} {e : EagerEntry} {status : CallStatus}
    (hrun : s.run = some ⟨place, some (items ++ ⟨e, .calling⟩ :: items'), ended⟩) :
    FlushSound ((if written then s.write e else s).setRun
      ⟨place, some (items ++ ⟨e, status⟩ :: items'), ended⟩) := by
  let s' := (if written then s.write e else s).setRun
    ⟨place, some (items ++ ⟨e, status⟩ :: items'), ended⟩
  have hw : ∀ {t}, IsWritten s t → IsWritten s' t := by
    rintro t ⟨x, hx, heq⟩
    refine ⟨x, ?_, heq⟩
    cases written
    · exact hx
    · exact List.mem_append_left _ hx
  have hf : ∀ {t}, InFlush s t → InFlush s' t := by
    rintro t ⟨r, calls, hsome, hcalls, item, hitem, heq⟩
    obtain rfl := Option.some.inj (hrun.symm.trans hsome)
    obtain rfl := Option.some.inj hcalls
    refine ⟨_, _, rfl, rfl, ?_⟩
    rcases List.mem_append.1 hitem with hmem | hmem
    · exact ⟨item, List.mem_append_left _ hmem, heq⟩
    · rcases List.mem_cons.1 hmem with rfl | hmem
      · exact ⟨⟨e, status⟩, by simp, heq⟩
      · exact ⟨item, List.mem_append_right _ (List.mem_cons_of_mem _ hmem), heq⟩
  have hsame : s'.queryNames = s.queryNames ∧ s'.buffers = s.buffers ∧ s'.pushed = s.pushed ∧
      s'.calls = s.calls ∧ s'.reported = s.reported := by
    cases written <;> exact ⟨rfl, rfl, rfl, rfl, rfl⟩
  rcases hsame with ⟨hnames, hbuffers, hpushed, hcalls, hreported⟩
  have hq : ∀ {t}, Queued s t → Queued s' t := by
    intro t hqueued
    rw [Queued, hnames, hbuffers]
    exact hqueued
  refine ⟨fun t ht => ?_, fun call hcall hnone => ?_, ?_⟩
  · exact (h.kept t (hpushed ▸ ht)).imp hw (Or.imp hf hq)
  · rcases h.calls call (hcalls ▸ hcall) hnone with ⟨r, hsome, hcovered⟩
    obtain rfl := Option.some.inj (hrun.symm.trans hsome)
    refine ⟨_, rfl, fun t ht => ?_⟩
    refine (hcovered t ht).imp hw (Or.imp hf (Or.imp ?_ (And.imp hq fun hr => hreported ▸ hr)))
    intro hawaits
    rw [Awaits, hnames, hbuffers]
    exact hawaits
  · rw [hcalls]
    exact h.answered

/-- The calls are settled: what has not succeeded is queued again, and reported. -/
theorem FlushSound.settle (h : FlushSound s) {place : Nat} {table : String}
    {items : List FlushItem} {ended : Bool} {failed : List EagerEntry}
    (hrun : s.run = some ⟨place, some items, ended⟩) (htable : s.queryNames[place]? = some table)
    (hended : ∀ item ∈ items, item.status ≠ .calling)
    (hfailed : failed = (items.filter (·.status = .failed)).map (·.entry))
    (hwritten : ∀ item ∈ items, item.status = .succeeded → item.entry ∈ s.written) :
    FlushSound { s with
      buffers := Function.update s.buffers table (failed ++ s.buffers table)
      reported := s.reported ++ failed.map (·.task)
      run := some ⟨place + 1, none, ended⟩ } := by
  let s' : EagerState := { s with
    buffers := Function.update s.buffers table (failed ++ s.buffers table)
    reported := s.reported ++ failed.map (·.task)
    run := some ⟨place + 1, none, ended⟩ }
  have hbuffers : ∀ {other : String} {e : EagerEntry}, e ∈ s.buffers other →
      e ∈ s'.buffers other := by
    intro other e he
    change e ∈ Function.update s.buffers table (failed ++ s.buffers table) other
    by_cases heq : other = table
    · subst heq
      rw [Function.update_self]
      exact List.mem_append_right _ he
    · rw [Function.update_of_ne heq]
      exact he
  have hq : ∀ {t}, Queued s t → Queued s' t := fun ⟨p, other, hp, e, he, heq⟩ =>
    ⟨p, other, hp, e, hbuffers he, heq⟩
  -- A call has succeeded, or its op is back in the buffer.
  have hf : ∀ {t}, InFlush s t → IsWritten s' t ∨ (Queued s' t ∧ t ∈ s'.reported) := by
    rintro t ⟨r, calls, hsome, hcalls, item, hitem, rfl⟩
    obtain rfl := Option.some.inj (hrun.symm.trans hsome)
    obtain rfl := Option.some.inj hcalls
    cases hstatus : item.status with
    | calling => exact absurd hstatus (hended item hitem)
    | succeeded => exact Or.inl ⟨item.entry, hwritten item hitem hstatus, rfl⟩
    | failed =>
        have hin : item.entry ∈ failed := by
          rw [hfailed]
          exact List.mem_map_of_mem (List.mem_filter.2 ⟨hitem, decide_eq_true hstatus⟩)
        refine Or.inr ⟨⟨place, table, htable, item.entry, ?_, rfl⟩,
          List.mem_append_right _ (List.mem_map_of_mem hin)⟩
        change item.entry ∈ Function.update s.buffers table (failed ++ s.buffers table) table
        rw [Function.update_self]
        exact List.mem_append_left _ hin
  refine ⟨fun t ht => ?_, fun call hcall hnone => ?_, h.answered⟩
  · rcases h.kept t ht with hw | hflush | hqueued
    · exact Or.inl hw
    · exact (hf hflush).imp id fun hback => Or.inr hback.1
    · exact Or.inr (Or.inr (hq hqueued))
  · rcases h.calls call hcall hnone with ⟨r, hsome, hcovered⟩
    obtain rfl := Option.some.inj (hrun.symm.trans hsome)
    refine ⟨_, rfl, fun t ht => ?_⟩
    rcases hcovered t ht with hw | hflush | ⟨p, other, hp, hnot, e, he, heq⟩ | ⟨hqueued, hr⟩
    · exact Or.inl hw
    · exact (hf hflush).imp id fun hback => Or.inr (Or.inr hback)
    · -- The run has taken the buffer at its place.
      refine Or.inr (Or.inr (Or.inl ⟨p, other, hp, ?_, e, hbuffers he, heq⟩))
      simp only [FlushRun.past_mk, Option.isSome_some, Option.isSome_none] at hnot ⊢
      push Not at hnot ⊢
      refine ⟨?_, by simp, hnot.2.2⟩
      have hne : p ≠ place := fun heq => hnot.2.1 heq
      omega
    · exact Or.inr (Or.inr (Or.inr ⟨hq hqueued, List.mem_append_left _ hr⟩))

/-- When the run ends, its callers have missed nothing. -/
theorem FlushSound.endFlush (h : FlushSound s) {place : Nat}
    (hrun : s.run = some ⟨place, none, true⟩) :
    FlushSound { s with run := none, calls := s.calls.map s.answer } := by
  have hno : ∀ {t}, ¬ InFlush s t := by
    rintro t ⟨r, items, hsome, hi, -⟩
    obtain rfl := Option.some.inj (hrun.symm.trans hsome)
    cases hi
  have hanswer : ∀ call ∈ s.calls, (s.answer call).missed = some [] := by
    intro call hcall
    unfold EagerState.answer
    cases hmissed : call.missed with
    | some missed =>
        have hnil := h.answered call hcall
        rw [hmissed, Option.getD_some] at hnil
        simp only [hmissed, hnil]
    | none =>
        rcases h.calls call hcall hmissed with ⟨r, hsome, hcovered⟩
        obtain rfl := Option.some.inj (hrun.symm.trans hsome)
        simp only [Option.some.injEq, List.filter_eq_nil_iff]
        intro t ht
        have hdone : IsWritten s t ∨ (Queued s t ∧ t ∈ s.reported) := by
          rcases hcovered t ht with hw | hf | ⟨p, table, -, hnot, -⟩ | hq
          · exact Or.inl hw
          · exact absurd hf hno
          · exact absurd (Or.inr (Or.inr rfl)) hnot
          · exact Or.inr hq
        rcases hdone with ⟨e, he, heq⟩ | hq
        · have hany : s.written.any (fun entry => entry.task = t) = true :=
            List.any_eq_true.2 ⟨e, he, decide_eq_true heq⟩
          simp [hany]
        · simp [requeued_iff.2 hq]
  refine ⟨fun t ht => ?_, fun call hcall hnone => ?_, fun call hcall => ?_⟩
  · exact (h.kept t ht).imp id (Or.imp (fun hf => absurd hf hno) id)
  · rcases List.mem_map.1 hcall with ⟨old, hold, rfl⟩
    rw [hanswer old hold] at hnone
    cases hnone
  · rcases List.mem_map.1 hcall with ⟨old, hold, rfl⟩
    rw [hanswer old hold]
    rfl

end Flush

end Server
end Reflectdb
