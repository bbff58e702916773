import Reflectdb.Server.CompareAndSet
import Reflectdb.Server.MergeOrder

/-!
# Shared row — one row of a shared storage under the string policies

`lww`, `merge` and `server` decide from the row that the op read, and their write is unconditional.
Any number of instances read, resolve and write in separate steps, so a write may meet another row
than the one it was resolved against.
-/

namespace Reflectdb
namespace Server

open Core Client

/-! ## No lost update -/

/-- The write left the column under its own HLC. -/
def RowWrite.WroteColumn (w : RowWrite) (col : String) : Prop :=
  w.incoming.op ≠ .delete ∧ col ∈ w.incoming.columns ∧
    w.result.updatedColClocks.lookup col = some w.incoming.hlc

def RowWrite.DeletedRow (w : RowWrite) : Prop :=
  w.incoming.op = .delete ∧ w.before.isSome

/-- A column write of an accepted op is in the stored row, unless an op with a greater HLC wrote the
column or deleted the row. -/
def KeepsColumns (s : CasState) : Prop :=
  ∀ (t : Nat) (task : OpTask), s.tasks[t]? = some task → task.phase = .accepted →
    task.incoming.op ≠ .delete → ∀ col v, task.incoming.columns.lookup col = some v →
      (∃ r, s.stored = some r ∧ r.row.lookup col = some v) ∨
        ∃ w ∈ s.writes, task.incoming.hlc < w.incoming.hlc ∧ (w.WroteColumn col ∨ w.DeletedRow)

/-- The stored row is what the writes left one after the other; its HLC never goes back while the
row exists, `merge` keeps the columns of accepted ops, and `server` never writes over a row. -/
structure NoLostUpdate (policy : ConflictPolicy) (s : CasState) : Prop where
  chain : Chained none s.writes s.stored
  monotone : ∀ w ∈ s.writes, ∀ r r', w.before = some r → w.after = some r' → r.hlc ≤ r'.hlc
  merge : policy = .merge → KeepsColumns s
  server : policy = .server → ∀ w ∈ s.writes, w.before = none

/-! ## When a write fits the stored row -/

/-- Each column of the op has a clock of its own: not the row's, and not one that the clock record
inherits. -/
def ColumnsTracked (incoming : ConflictInput) (existing : ExistingRow) : Prop :=
  ∀ col ∈ incoming.columns.keys, col ≠ "_row" ∧ col ≠ "__proto__" ∧
    (existing.version = none ∨ inherited col = none ∨ (existing.colClocks.lookup col).isSome)

/-- Each column that the stored row has a clock of is as the op read it, or the op is newer and
writes the column or deletes the row. -/
def CoversRow (incoming : ConflictInput) (existing : ExistingRow) (r : StoredRow) : Prop :=
  ∀ e ∈ r.clocks.entries, e.1 ≠ "_row" →
    ((incoming.op = .delete ∨ e.1 ∈ incoming.columns) ∧ e.2 < incoming.hlc) ∨
      (incoming.op ≠ .delete ∧ existing.colClocks.lookup e.1 = some e.2 ∧
        ∃ version ∈ existing.version, version.1.lookup e.1 = r.row.lookup e.1)

/-- The op, resolved against what it read, may be written over what is stored. -/
def FitsStored (policy : ConflictPolicy) (incoming : ConflictInput) (existing : ExistingRow)
    (stored : Option StoredRow) : Prop :=
  (incoming.op ≠ .delete → NotOlder incoming (getRow stored)) ∧
    match policy with
    | .merge => (incoming.op ≠ .delete → ColumnsTracked incoming existing) ∧
        ∀ r ∈ stored, CoversRow incoming existing r
    | .server => stored = none
    | _ => True

/-- The HLCs are fresh, and each write fits the row that is stored when it takes effect. -/
def WritesFit (policy : ConflictPolicy) (s : CasState) : CasEvent → Prop
  | .startOp i batch incoming => FreshHlc s (.startOp i batch incoming)
  | .write t _ =>
    match s.tasks[t]? with
    | some task =>
      match task.phase with
      | .resolved _ existing => FitsStored policy task.incoming existing s.stored
      | _ => True
    | none => True
  | _ => True

instance (incoming : ConflictInput) (existing : ExistingRow) :
    Decidable (ColumnsTracked incoming existing) :=
  inferInstanceAs (Decidable (∀ col ∈ incoming.columns.keys, _))

instance (incoming : ConflictInput) (existing : ExistingRow) (r : StoredRow) :
    Decidable (CoversRow incoming existing r) :=
  inferInstanceAs (Decidable (∀ e ∈ r.clocks.entries, _ → _ ∨ _))

instance (policy : ConflictPolicy) (incoming : ConflictInput) (existing : ExistingRow)
    (stored : Option StoredRow) : Decidable (FitsStored policy incoming existing stored) :=
  match policy with
  | .merge => inferInstanceAs (Decidable (_ ∧ (_ → _) ∧ ∀ r ∈ stored, _))
  | .server => inferInstanceAs (Decidable (_ ∧ stored = none))
  | .lww | .custom _ | .text _ => inferInstanceAs (Decidable (_ ∧ True))

instance (policy : ConflictPolicy) (s : CasState) (e : CasEvent) :
    Decidable (WritesFit policy s e) :=
  match e with
  | .startOp i batch incoming =>
    inferInstanceAs (Decidable (FreshHlc s (.startOp i batch incoming)))
  | .write t _ => by
      dsimp only [WritesFit]
      generalize s.tasks[t]? = task
      exact match task with
        | some ⟨_, _, incoming, .resolved _ existing⟩ =>
          inferInstanceAs (Decidable (FitsStored policy incoming existing s.stored))
        | some ⟨_, _, _, .queued⟩ | some ⟨_, _, _, .reading _⟩ | some ⟨_, _, _, .fetched _ _⟩
        | some ⟨_, _, _, .accepted⟩ | some ⟨_, _, _, .rejected⟩ | some ⟨_, _, _, .failed⟩
        | none => inferInstanceAs (Decidable True)
  | .startBatch _ | .prefetch _ | .setPrefetched _ | .finishBatch _ | .dequeue _ | .read _ _
  | .resolve _ | .refuse _ | .throw _ => inferInstanceAs (Decidable True)

theorem WritesFit.freshHlc {policy : ConflictPolicy} {s : CasState} {e : CasEvent}
    (h : WritesFit policy s e) : FreshHlc s e := by
  cases e with
  | startOp i batch incoming => exact h
  | _ => trivial

variable {ops : TextOps} {policy : ConflictPolicy} {s s' : CasState}

theorem WriteStep.fitsStored {t : Nat} {answered : Bool} {task : OpTask} {existing : ExistingRow}
    (hw : WriteStep ops policy s t answered task existing s')
    (hg : WritesFit policy s (.write t answered)) :
    FitsStored policy task.incoming existing s.stored := by
  rcases hw.resolved with ⟨attempt, hphase⟩
  simpa only [WritesFit, hw.found, hphase] using hg

/-! ## What a merge leaves of a column -/

section Merge

variable {incoming : ConflictInput} {existing : ExistingRow} {col : String}

/-- A column that the op wins. -/
theorem resolveMerge_takes (hop : incoming.op ≠ .delete) (hcol : col ∈ incoming.columns)
    (hrow : col ≠ "_row") (hproto : col ≠ "__proto__")
    (hwins : existing.version = none ∨ wins existing.colClocks incoming.hlc col = true) :
    ∃ row, (resolveMerge incoming existing).resolvedRow = some row ∧
      row.lookup col = incoming.columns.lookup col ∧
      (resolveMerge incoming existing).updatedColClocks.lookup col = some incoming.hlc := by
  have hcolumns : incoming.payload.getD ∅ = incoming.columns := rfl
  cases hversion : existing.version with
  | none =>
      simp only [resolveMerge, hversion, acceptFirst, if_neg hop]
      have hpayload : incoming.payload = some incoming.columns :=
        payload_of_nonempty fun hnil => by
          have hmem := AList.mem_keys.1 hcol
          rw [hnil] at hmem
          cases hmem
      refine ⟨_, hpayload, rfl, ?_⟩
      exact (lookup_buildColClocks incoming col).trans (if_pos (Or.inl ⟨hcol, hproto⟩))
  | some version =>
      rcases version with ⟨row, held⟩
      have hwon : wins existing.colClocks incoming.hlc col = true := by
        simpa [hversion] using hwins
      have hmem : col ∈ (winning existing.colClocks incoming.columns incoming.hlc).map (·.1) :=
        mem_winning.2 ⟨hcol, hwon⟩
      have hne : winning existing.colClocks incoming.columns incoming.hlc ≠ [] := by
        intro hnil
        rw [hnil] at hmem
        cases hmem
      simp only [resolveMerge, hversion, if_neg hop, hcolumns, if_neg hne]
      rcases Option.isSome_iff_exists.1 (AList.lookup_isSome.2 hcol) with ⟨v, hv⟩
      refine ⟨_, rfl, ?_, ?_⟩
      · rw [lookup_assignAll_winning, if_pos ⟨hwon, hproto⟩, hv]
        rfl
      · have hconst := lookup_assignAll_const existing.colClocks
          ((winning existing.colClocks incoming.columns incoming.hlc).map (·.1)) incoming.hlc col
        rw [List.map_map, if_pos ⟨hmem, hproto⟩] at hconst
        exact (lookup_advanceRowClock_ne _ _ hrow).trans hconst

/-- A column that the op does not win, over a row. -/
theorem resolveMerge_keeps (hop : incoming.op ≠ .delete)
    (haccepted : (resolveMerge incoming existing).accepted = true) {row : Row} {held : Hlc}
    (hversion : existing.version = some (row, held)) (hrow : col ≠ "_row")
    (hlost : ¬ (col ∈ incoming.columns ∧ wins existing.colClocks incoming.hlc col = true)) :
    ∃ row', (resolveMerge incoming existing).resolvedRow = some row' ∧
      row'.lookup col = row.lookup col ∧
      (resolveMerge incoming existing).updatedColClocks.lookup col =
        existing.colClocks.lookup col := by
  have hcolumns : incoming.payload.getD ∅ = incoming.columns := rfl
  have hmem : ¬ col ∈ (winning existing.colClocks incoming.columns incoming.hlc).map (·.1) :=
    fun h => hlost (mem_winning.1 h)
  simp only [resolveMerge, hversion, if_neg hop, hcolumns] at haccepted ⊢
  split at haccepted
  · cases haccepted
  · rename_i hne
    simp only [if_neg hne]
    refine ⟨_, rfl, ?_, ?_⟩
    · rw [lookup_assignAll_winning]
      split
      · rename_i hwins
        rw [AList.lookup_eq_none.2 fun hcol => hlost ⟨hcol, hwins.1⟩]
        rfl
      · rfl
    · have hconst := lookup_assignAll_const existing.colClocks
        ((winning existing.colClocks incoming.columns incoming.hlc).map (·.1)) incoming.hlc col
      rw [List.map_map, if_neg fun h => hmem h.1] at hconst
      exact (lookup_advanceRowClock_ne _ _ hrow).trans hconst

/-- A clock of the result is the op's, or one of the row it read. -/
theorem resolveMerge_clock (hop : incoming.op ≠ .delete)
    (haccepted : (resolveMerge incoming existing).accepted = true) (hrow : col ≠ "_row")
    {held : Hlc}
    (hclock : (resolveMerge incoming existing).updatedColClocks.lookup col = some held) :
    (col ∈ incoming.columns ∧ held = incoming.hlc) ∨
      (existing.version.isSome ∧ existing.colClocks.lookup col = some held) := by
  cases hversion : existing.version with
  | none =>
      simp only [resolveMerge, hversion, acceptFirst] at hclock
      have hbuilt := (lookup_buildColClocks incoming col).symm.trans hclock
      rw [Option.ite_none_right_eq_some] at hbuilt
      rcases hbuilt with ⟨hmem | hrow', heq⟩
      · exact Or.inl ⟨hmem.1, (Option.some.inj heq).symm⟩
      · exact absurd hrow' hrow
  | some version =>
      rcases version with ⟨row, rowHlc⟩
      have hcolumns : incoming.payload.getD ∅ = incoming.columns := rfl
      simp only [resolveMerge, hversion, if_neg hop, hcolumns] at haccepted hclock
      split at haccepted
      · cases haccepted
      · rename_i hne
        simp only [if_neg hne] at hclock
        have hconst := lookup_assignAll_const existing.colClocks
          ((winning existing.colClocks incoming.columns incoming.hlc).map (·.1)) incoming.hlc col
        rw [List.map_map] at hconst
        have hheld := hconst.symm.trans ((lookup_advanceRowClock_ne _ _ hrow).symm.trans hclock)
        split at hheld
        · rename_i hmem
          exact Or.inl ⟨(mem_winning.1 hmem.1).1, (Option.some.inj hheld).symm⟩
        · exact Or.inr ⟨rfl, hheld⟩

end Merge

/-! ## The invariant of a merged row -/

/-- The stored row has the column of an op, or a newer one. -/
def HoldsColumn (stored : Option StoredRow) (hlc : Hlc) (col : String) (v : Json) : Prop :=
  ∃ r held, stored = some r ∧ r.clocks.lookup col = some held ∧
    ((held = hlc ∧ r.row.lookup col = some v) ∨ hlc < held)

/-- Each clock of a stored row is of a write of the column, and each column write is held or was
deleted since by a newer op. -/
structure ColumnInv (s : CasState) : Prop where
  traced : ∀ w ∈ s.writes, w.result.resolvedRow.isSome → ∀ col held, col ≠ "_row" →
    w.result.updatedColClocks.lookup col = some held →
      ∃ w' ∈ s.writes, w'.incoming.hlc = held ∧ w'.WroteColumn col
  held : ∀ w ∈ s.writes, w.incoming.op ≠ .delete → ∀ col v, w.incoming.columns.lookup col = some v →
    col ≠ "_row" ∧ (HoldsColumn s.stored w.incoming.hlc col v ∨
      ∃ w' ∈ s.writes, w.incoming.hlc < w'.incoming.hlc ∧ w'.DeletedRow)

/-- An op that has not written has another HLC than the writes. -/
theorem TaskInv.hlc_ne (h : TaskInv ops policy s) {t : Nat} {task : OpTask}
    (ht : s.tasks[t]? = some task) (hpending : task.phase.pending = true) :
    ∀ w ∈ s.writes, w.incoming.hlc ≠ task.incoming.hlc := by
  intro w hw heq
  rcases h.written w hw with ⟨task', htask', hincoming, _⟩
  exact h.task_ne ht hpending w hw (h.fresh _ _ task' task htask' ht (by rw [hincoming, heq]))

/-- The clocks of a row that an op read are of writes. -/
theorem ColumnInv.traced_known (h : ColumnInv s) {existing : ExistingRow}
    (hknown : Known s.writes existing) (hversion : existing.version.isSome) {col : String}
    {held : Hlc} (hrow : col ≠ "_row") (hclock : existing.colClocks.lookup col = some held) :
    ∃ w ∈ s.writes, w.incoming.hlc = held ∧ w.WroteColumn col := by
  rcases hknown with rfl | ⟨w, hw, rfl⟩
  · cases hversion
  · rcases Option.isSome_iff_exists.1 hversion with ⟨version, hversion⟩
    have hresolved := (version_eq_some_iff.1 hversion).1
    have hsome : w.result.resolvedRow.isSome := by
      have hrow' : w.result.resolvedRow = some version.1 := hresolved
      simp [hrow']
    exact h.traced w hw hsome col held hrow hclock

/-- The columns of the op that writes are in its result, or lost to newer ones. -/
theorem holdsColumn_own {incoming : ConflictInput} {existing : ExistingRow}
    (hop : incoming.op ≠ .delete) (haccepted : (resolveMerge incoming existing).accepted = true)
    (htracked : ColumnsTracked incoming existing)
    (hfresh : ∀ col held, existing.version.isSome → col ≠ "_row" →
      existing.colClocks.lookup col = some held → held ≠ incoming.hlc)
    {col : String} {v : Json} (hv : incoming.columns.lookup col = some v) :
    HoldsColumn ((resolveMerge incoming existing).stored incoming.hlc) incoming.hlc col v := by
  have hcol : col ∈ incoming.columns := AList.lookup_isSome.1 (by simp [hv])
  rcases htracked col (AList.mem_keys.1 hcol) with ⟨hrow, hproto, hclock⟩
  by_cases hwins : existing.version = none ∨ wins existing.colClocks incoming.hlc col = true
  · rcases resolveMerge_takes hop hcol hrow hproto hwins with ⟨row, hresolved, hlookup, hheld⟩
    refine ⟨⟨row, incoming.hlc, _⟩, incoming.hlc, ?_, hheld, Or.inl ⟨rfl, hlookup.trans hv⟩⟩
    rw [ConflictResult.stored, hresolved]
    rfl
  · push Not at hwins
    rcases hwins with ⟨hsome, hlost⟩
    rcases Option.ne_none_iff_exists'.1 hsome with ⟨version, hversion⟩
    -- What beats the op is a clock of the row, since the name inherits none.
    have hbeaten : ∃ held, existing.colClocks.lookup col = some held ∧ ¬ held < incoming.hlc := by
      have hbeats := mt wins_iff.2 hlost
      push Not at hbeats
      rcases hbeats with ⟨held, hread, -, hge⟩
      have hown : existing.colClocks.lookup col = some held := by
        rcases hclock with hnone | hnone | hisSome
        · exact absurd hnone hsome
        · simpa [readClock, hnone] using hread
        · rcases Option.isSome_iff_exists.1 hisSome with ⟨held', hheld'⟩
          simpa [readClock, hheld'] using hread
      exact ⟨held, hown, not_lt.2 hge⟩
    rcases hbeaten with ⟨held, hheld, hge⟩
    rcases resolveMerge_keeps hop haccepted hversion hrow fun h => hlost h.2 with
      ⟨row, hresolved, -, hkept⟩
    have hne := hfresh col held (by simp [hversion]) hrow hheld
    refine ⟨⟨row, incoming.hlc, _⟩, held, ?_, hkept.trans hheld,
      Or.inr (lt_of_le_of_ne (not_lt.1 hge) (Ne.symm hne))⟩
    rw [ConflictResult.stored, hresolved]
    rfl

/-- A column that the stored row holds stays, or gives way to the newer op that writes. -/
theorem HoldsColumn.written {incoming : ConflictInput} {existing : ExistingRow}
    {stored : Option StoredRow} (hop : incoming.op ≠ .delete)
    (haccepted : (resolveMerge incoming existing).accepted = true)
    (htracked : ColumnsTracked incoming existing)
    (hcovers : ∀ r ∈ stored, CoversRow incoming existing r)
    (hfresh : ∀ col held, existing.version.isSome → col ≠ "_row" →
      existing.colClocks.lookup col = some held → held ≠ incoming.hlc)
    {hlc : Hlc} {col : String} {v : Json} (hrow : col ≠ "_row")
    (h : HoldsColumn stored hlc col v) :
    HoldsColumn ((resolveMerge incoming existing).stored incoming.hlc) hlc col v := by
  rcases h with ⟨r, held, hstored, hclock, hheld⟩
  have hle : hlc ≤ held := by
    rcases hheld with ⟨rfl, -⟩ | hlt
    · exact le_refl _
    · exact le_of_lt hlt
  rcases hcovers r hstored ⟨col, held⟩ (Lib.mem_entries_iff.2 hclock) hrow with
    ⟨hwrites, hlt⟩ | ⟨-, hread, version, hversion, hvalue⟩
  · -- The op is newer and writes the column: whatever is there then is newer too.
    have hcol : col ∈ incoming.columns := hwrites.resolve_left hop
    rcases Option.isSome_iff_exists.1 (AList.lookup_isSome.2 hcol) with ⟨v', hv'⟩
    rcases holdsColumn_own hop haccepted htracked hfresh hv' with
      ⟨r', held', hstored', hclock', hheld'⟩
    refine ⟨r', held', hstored', hclock', Or.inr (lt_of_le_of_lt hle ?_)⟩
    rcases hheld' with ⟨rfl, -⟩ | hlt'
    · exact hlt
    · exact lt_trans hlt hlt'
  · by_cases hwon : col ∈ incoming.columns ∧ wins existing.colClocks incoming.hlc col = true
    · have hproto := (htracked col (AList.mem_keys.1 hwon.1)).2.1
      rcases resolveMerge_takes hop hwon.1 hrow hproto (Or.inr hwon.2) with
        ⟨row, hresolved, -, hheld'⟩
      have hlt : held < incoming.hlc := by
        have hread' : readClock existing.colClocks col = some held := by simp [readClock, hread]
        rcases wins_iff.1 hwon.2 held hread' with rfl | hlt
        · have hne := hfresh col "" (by simp [Option.mem_def.1 hversion]) hrow hread
          exact lt_of_le_of_ne (empty_le _) hne
        · exact hlt
      refine ⟨⟨row, incoming.hlc, _⟩, incoming.hlc, ?_, hheld', Or.inr (lt_of_le_of_lt hle hlt)⟩
      rw [ConflictResult.stored, hresolved]
      rfl
    · rcases resolveMerge_keeps hop haccepted hversion hrow hwon with
        ⟨row, hresolved, hlookup, hkept⟩
      refine ⟨⟨row, incoming.hlc, _⟩, held, ?_, hkept.trans hread, ?_⟩
      · rw [ConflictResult.stored, hresolved]
        rfl
      · rcases hheld with ⟨heq, hv⟩ | hlt
        · exact Or.inl ⟨heq, (hlookup.trans hvalue).trans hv⟩
        · exact Or.inr hlt

/-- The write of an insert or update. -/
theorem ColumnInv.write (h : ColumnInv s) (hinv : TaskInv ops .merge s) {t : Nat} {answered : Bool}
    {task : OpTask} {existing : ExistingRow}
    (hw : WriteStep ops .merge s t answered task existing s')
    (hfits : FitsStored .merge task.incoming existing s.stored) : ColumnInv s' := by
  rcases hinv.known_of_writeStep hw with ⟨hknown, haccepted⟩
  rcases hw.resolved with ⟨attempt, hphase⟩
  have hne := hinv.hlc_ne hw.found (by rw [hphase]; rfl)
  have hfresh : ∀ col held, existing.version.isSome → col ≠ "_row" →
      existing.colClocks.lookup col = some held → held ≠ task.incoming.hlc := by
    intro col held hversion hrow hclock
    rcases h.traced_known hknown hversion hrow hclock with ⟨w, hmem, rfl, -⟩
    exact hne w hmem
  rw [hw.after]
  change (resolveMerge task.incoming existing).accepted = true at haccepted
  change ColumnInv { s with
    stored := (resolveMerge task.incoming existing).stored task.incoming.hlc
    batches := _
    tasks := _
    writes := s.writes ++ [⟨t, task.incoming, resolveMerge task.incoming existing, s.stored⟩] }
  constructor
  · intro w hmem hsome col held hrow hclock
    rcases List.mem_append.1 hmem with hold | hnew
    · rcases h.traced w hold hsome col held hrow hclock with ⟨w', hw', hrest⟩
      exact ⟨w', List.mem_append_left _ hw', hrest⟩
    · rcases List.mem_singleton.1 hnew with rfl
      have hop : task.incoming.op ≠ .delete := by
        intro hdelete
        simp only [resolveMerge, acceptFirst, hdelete] at hsome haccepted
        repeat' split at hsome
        all_goals simp_all [ConflictResult.accept, ConflictResult.reject]
      rcases resolveMerge_clock hop haccepted hrow hclock with ⟨hcol, rfl⟩ | ⟨hversion, hread⟩
      · exact ⟨_, hmem, rfl, hop, hcol, hclock⟩
      · rcases h.traced_known hknown hversion hrow hread with ⟨w', hw', hrest⟩
        exact ⟨w', List.mem_append_left _ hw', hrest⟩
  · intro w hmem hop col v hv
    rcases List.mem_append.1 hmem with hold | hnew
    · rcases h.held w hold hop col v hv with ⟨hrow, hheld | ⟨w', hw', hrest⟩⟩
      · refine ⟨hrow, ?_⟩
        by_cases hdelete : task.incoming.op = .delete
        · -- The delete is newer than every column of the row.
          rcases hheld with ⟨r, held, hstored, hclock, hheld⟩
          have hlt : held < task.incoming.hlc := by
            rcases hfits.2.2 r hstored ⟨col, held⟩ (Lib.mem_entries_iff.2 hclock) hrow with
              ⟨-, hlt⟩ | ⟨hnot, -⟩
            · exact hlt
            · exact absurd hdelete hnot
          refine Or.inr ⟨_, List.mem_append_right _ (List.mem_singleton_self _), ?_, hdelete, ?_⟩
          · rcases hheld with ⟨rfl, -⟩ | hlt'
            · exact hlt
            · exact lt_trans hlt' hlt
          · simp [hstored]
        · exact Or.inl (hheld.written hdelete haccepted (hfits.2.1 hdelete) hfits.2.2 hfresh hrow)
      · exact ⟨hrow, Or.inr ⟨w', List.mem_append_left _ hw', hrest⟩⟩
    · rcases List.mem_singleton.1 hnew with rfl
      have htracked := hfits.2.1 hop
      have hcol : col ∈ task.incoming.columns := AList.lookup_isSome.1 (by simp [hv])
      exact ⟨(htracked col (AList.mem_keys.1 hcol)).1,
        Or.inl (holdsColumn_own hop haccepted htracked hfresh hv)⟩

/-! ## The run -/

/-- Under a string policy an accepted delete leaves no row. -/
theorem resolvedRow_of_delete (hpolicy : policy.isObject = false) {incoming : ConflictInput}
    {existing : ExistingRow} (hop : incoming.op = .delete)
    (haccepted : (resolveConflict ops policy incoming existing).accepted = true) :
    (resolveConflict ops policy incoming existing).resolvedRow = none := by
  cases policy with
  | lww =>
      simp only [resolveConflict, resolveLww, acceptFirst, hop] at haccepted ⊢
      repeat' split at haccepted
      all_goals simp_all [ConflictResult.accept, ConflictResult.reject]
  | merge =>
      simp only [resolveConflict, resolveMerge, acceptFirst, hop] at haccepted ⊢
      repeat' split at haccepted
      all_goals simp_all [ConflictResult.accept, ConflictResult.reject]
  | server =>
      simp only [resolveConflict, resolveServer, acceptFirst, hop] at haccepted ⊢
      repeat' split at haccepted
      all_goals simp_all [ConflictResult.accept, ConflictResult.reject]
  | custom resolve => cases hpolicy
  | text policy => cases hpolicy

/-- What holds of the row in every run of writes that fit. -/
structure SharedInv (ops : TextOps) (policy : ConflictPolicy) (s : CasState) : Prop where
  tasks : TaskInv ops policy s
  monotone : ∀ w ∈ s.writes, ∀ r r', w.before = some r → w.after = some r' → r.hlc ≤ r'.hlc
  merge : policy = .merge → ColumnInv s
  server : policy = .server → ∀ w ∈ s.writes, w.before = none

theorem SharedInv.step (h : SharedInv ops policy s) (hpolicy : policy.isObject = false)
    {e : CasEvent} (hg : WritesFit policy s e)
    (hs : (casMachine ops policy).step s e = some s') : SharedInv ops policy s' := by
  have htasks := h.tasks.step hg.freshHlc hs
  rcases (casStep_inv hs).cases_write with
    ⟨hstored, hwrites⟩ | ⟨t, answered, task, existing, rfl, hw⟩
  · refine ⟨htasks, ?_, fun hmerge => ?_, ?_⟩
    · rw [hwrites]
      exact h.monotone
    · have hold := h.merge hmerge
      constructor
      · rw [hwrites]
        exact hold.traced
      · rw [hwrites, hstored]
        exact hold.held
    · rw [hwrites]
      exact h.server
  · have hfits := hw.fitsStored hg
    have hmem : ∀ w ∈ s'.writes, w ∈ s.writes ∨ w = ⟨t, task.incoming,
        resolveConflict ops policy task.incoming existing, s.stored⟩ := by
      intro w hmem
      rw [hw.after] at hmem
      rcases List.mem_append.1 hmem with hold | hnew
      · exact Or.inl hold
      · exact Or.inr (List.mem_singleton.1 hnew)
    refine ⟨htasks, ?_, ?_, ?_⟩
    · intro w hmem' r r' hbefore hafter
      rcases hmem w hmem' with hold | rfl
      · exact h.monotone w hold r r' hbefore hafter
      · have hop : task.incoming.op ≠ .delete := by
          intro hdelete
          have hnone := resolvedRow_of_delete hpolicy hdelete (h.tasks.known_of_writeStep hw).2
          simp [RowWrite.after, ConflictResult.stored, hnone] at hafter
        have hbefore' : s.stored = some r := hbefore
        have hold := hfits.1 hop
        rw [hbefore'] at hold
        exact (RowWrite.getRow_after hafter).2 ▸ hold rfl r.hlc rfl
    · rintro rfl
      exact (h.merge rfl).write h.tasks hw hfits
    · rintro rfl
      intro w hmem'
      rcases hmem w hmem' with hold | rfl
      · exact h.server rfl w hold
      · exact hfits.2

theorem SharedInv.noLostUpdate (h : SharedInv ops policy s) : NoLostUpdate policy s := by
  refine ⟨h.tasks.chain, h.monotone, fun hmerge => ?_, h.server⟩
  intro t task ht haccepted hop col v hv
  rcases h.tasks.accepted t task ht haccepted with ⟨w, hw, rfl⟩
  rcases h.tasks.written w hw with ⟨task', htask', hincoming, -⟩
  obtain rfl : task' = task := Option.some.inj (htask'.symm.trans ht)
  rw [hincoming] at hop hv ⊢
  rcases ((h.merge hmerge).held w hw hop col v hv) with
    ⟨hrow, ⟨r, held, hstored, hclock, ⟨-, hvalue⟩ | hlt⟩ | ⟨w', hw', hlt, hdeleted⟩⟩
  · exact Or.inl ⟨r, hstored, hvalue⟩
  · -- The newer clock is of an op that wrote the column.
    rcases h.tasks.last r hstored with ⟨last, hlast, hafter⟩
    rcases Option.map_eq_some_iff.1 hafter with ⟨row, hresolved, rfl⟩
    rcases (h.merge hmerge).traced last hlast (by simp [hresolved]) col held hrow hclock with
      ⟨w', hw', rfl, hwrote⟩
    exact Or.inr ⟨w', hw', hlt, Or.inl hwrote⟩
  · exact Or.inr ⟨w', hw', hlt, Or.inr hdeleted⟩

/-- The write of the title is accepted, the stored row has the old one, and no newer op writes the
title or deletes the row. -/
def titleLost (s : CasState) : Bool :=
  decide ((s.stored.bind fun r => r.row.lookup "title") = some (.str "old")) &&
    (s.tasks[2]?.any fun task => task.phase matches .accepted && task.incoming.hlc = "2.0.b" &&
      task.incoming.op ≠ .delete && task.incoming.columns.lookup "title" = some (.str "new")) &&
    s.writes.all fun w => "2.0.b" < w.incoming.hlc →
      w.incoming.op ≠ .delete ∧ "title" ∉ w.incoming.columns

end Server
end Reflectdb
