import Reflectdb.Lib.Machine
import Reflectdb.Server.Conflict

/-!
# Row clocks — the HLC of a stored row and its column clocks

One row on the consistent path.  The ops of the row are processed one after the other; each resolves
against what the storage holds, or against what its own batch wrote last.  The persister stores the
op's HLC next to the clocks that the resolver computed.
-/

namespace Reflectdb
namespace Server

open Core Client

/-! ## Model -/

structure RowState where
  stored : Option StoredRow
  /-- The row in the cache of the batch that wrote last. -/
  cached : Option ExistingRow
  /-- The HLCs stored since the row was last absent.  No step reads them. -/
  versions : List Hlc

/-- An op is processed, after the enforcement gates; `sameBatch` if its batch wrote the row last. -/
structure RowEvent where
  incoming : ConflictInput
  sameBatch : Bool

namespace RowState

def start : RowState :=
  ⟨none, none, []⟩

/-- What the op resolves against. -/
def read (s : RowState) (sameBatch : Bool) : Option ExistingRow :=
  if sameBatch then s.cached else some (getRow s.stored)

/-- `applyOp` and `recordBatchWrite`, after an accepted op. -/
def record (s : RowState) (result : ConflictResult) (hlc : Hlc) : RowState where
  stored := result.stored hlc
  cached := some (result.cached hlc)
  versions := if result.resolvedRow.isSome then s.versions ++ [hlc] else []

def process (ops : TextOps) (policy : ConflictPolicy) (s : RowState) (e : RowEvent) :
    Option RowState :=
  (s.read e.sameBatch).map fun existing =>
    let result := resolveConflict ops policy e.incoming existing
    if result.accepted then s.record result e.incoming.hlc else s

end RowState

def rowMachine (ops : TextOps) (policy : ConflictPolicy) : Lib.Machine RowState RowEvent :=
  ⟨.start, RowState.process ops policy⟩

/-! ## Clocks under a row's HLC -/

/-- No clock is above the HLC. -/
def Bounded (clocks : Record Hlc) (hlc : Hlc) : Prop :=
  ∀ e ∈ clocks.entries, e.2 ≤ hlc

/-- The `_row` clock is the HLC, and no clock is above it. -/
def RowStamped (clocks : Record Hlc) (hlc : Hlc) : Prop :=
  clocks.lookup "_row" = some hlc ∧ Bounded clocks hlc

instance (clocks : Record Hlc) (hlc : Hlc) : Decidable (Bounded clocks hlc) :=
  inferInstanceAs (Decidable (∀ e ∈ clocks.entries, e.2 ≤ hlc))

instance (clocks : Record Hlc) (hlc : Hlc) : Decidable (RowStamped clocks hlc) :=
  inferInstanceAs (Decidable (_ ∧ _))

/-- The stored row has the HLC of its `_row` clock, its column clocks are not above it, and no
version since the row was last absent has a lower HLC than the one before. -/
structure RowSound (s : RowState) : Prop where
  stamped : ∀ r ∈ s.stored, RowStamped r.clocks r.hlc
  monotone : s.versions.Pairwise (· ≤ ·)

/-! ## When the clocks go with the HLC -/

/-- The row that the op meets is not newer than the op. -/
def NotOlder (incoming : ConflictInput) (existing : ExistingRow) : Prop :=
  existing.row.isSome → ∀ held ∈ existing.rowHlc, held ≤ incoming.hlc

instance (incoming : ConflictInput) (existing : ExistingRow) :
    Decidable (NotOlder incoming existing) :=
  inferInstanceAs (Decidable (_ → ∀ held ∈ existing.rowHlc, _))

/-- An op that `merge` lets write a column. -/
def MergesForward (incoming : ConflictInput) (existing : ExistingRow) : Prop :=
  winning existing.colClocks (incoming.payload.getD ∅) incoming.hlc ≠ [] →
    NotOlder incoming existing

instance (incoming : ConflictInput) (existing : ExistingRow) :
    Decidable (MergesForward incoming existing) :=
  inferInstanceAs (Decidable (_ → _))

/-- A resolution by the app: it may change nothing only under the row's own HLC. -/
def ResolvesForward (resolve : ConflictResolver) (incoming : ConflictInput)
    (existing : ExistingRow) : Prop :=
  match existing.row with
  | none => True
  | some row =>
    match resolve incoming row existing.colClocks with
    | .error _ => True
    | .ok result =>
      if result.changed row = [] then existing.rowHlc = some incoming.hlc
      else NotOlder incoming existing

instance (resolve : ConflictResolver) (incoming : ConflictInput) (existing : ExistingRow) :
    Decidable (ResolvesForward resolve incoming existing) := by
  unfold ResolvesForward
  split
  · infer_instance
  · split <;> infer_instance

/-- An insert or update under a text policy: a seed of an existing row, and a payload without any
column, leave the clocks as they are; an edit puts its HLC over those it keeps. -/
def EditsForward (policy : TextConflictPolicy) (incoming : ConflictInput)
    (existing : ExistingRow) : Prop :=
  if incoming.op = .insert ∧ existing.row.isSome then existing.rowHlc = some incoming.hlc
  else
    match (incoming.payload.getD ∅).lookup TEXT_EDIT_KEY with
    | none =>
      if (plainPayload incoming).entries = [] then RowStamped existing.colClocks incoming.hlc
      else MergesForward { incoming with payload := some (plainPayload incoming) } existing
    | some raw =>
      (readTextEdit policy raw).isSome → NotOlder incoming existing ∧
        ((plainPayload incoming).entries = [] → Bounded existing.colClocks incoming.hlc)

instance (policy : TextConflictPolicy) (incoming : ConflictInput) (existing : ExistingRow) :
    Decidable (EditsForward policy incoming existing) := by
  unfold EditsForward
  split
  · infer_instance
  · split
    · split <;> infer_instance
    · infer_instance

/-- The clocks that the policy computes for the op go with the op's HLC. -/
def ClocksForward (policy : ConflictPolicy) (incoming : ConflictInput) (existing : ExistingRow) :
    Prop :=
  match policy with
  | .lww => True
  | .merge => incoming.op ≠ .delete → MergesForward incoming existing
  | .server => True
  | .custom resolve => ResolvesForward resolve incoming existing
  | .text policy => incoming.op ≠ .delete → EditsForward policy incoming existing

instance (policy : ConflictPolicy) (incoming : ConflictInput) (existing : ExistingRow) :
    Decidable (ClocksForward policy incoming existing) := by
  unfold ClocksForward
  split <;> infer_instance

/-- Each op is processed so. -/
def OpsForward (policy : ConflictPolicy) (s : RowState) (e : RowEvent) : Prop :=
  ∀ existing ∈ s.read e.sameBatch, ClocksForward policy e.incoming existing

instance (policy : ConflictPolicy) (s : RowState) (e : RowEvent) :
    Decidable (OpsForward policy s e) :=
  inferInstanceAs (Decidable (∀ existing ∈ s.read e.sameBatch, _))

/-! ## Stamps -/

variable {clocks : Record Hlc} {hlc : Hlc}

theorem bounded_iff :
    Bounded clocks hlc ↔ ∀ col held, clocks.lookup col = some held → held ≤ hlc := by
  constructor
  · intro h col held hcol
    exact h ⟨col, held⟩ (Lib.mem_entries_iff.2 hcol)
  · intro h e he
    exact h e.1 e.2 (Lib.mem_entries_iff.1 he)

theorem Bounded.mono (h : Bounded clocks hlc) {hlc' : Hlc} (hle : hlc ≤ hlc') :
    Bounded clocks hlc' :=
  fun e he => le_trans (h e he) hle

theorem Bounded.insert (h : Bounded clocks hlc) (col : String) :
    Bounded (clocks.insert col hlc) hlc := by
  refine bounded_iff.2 fun c held hc => ?_
  by_cases heq : c = col
  · subst heq
    rw [AList.lookup_insert] at hc
    cases hc
    exact le_refl _
  · rw [AList.lookup_insert_ne heq] at hc
    exact bounded_iff.1 h c held hc

theorem Bounded.stamped (h : Bounded clocks hlc) : RowStamped (clocks.insert "_row" hlc) hlc :=
  ⟨AList.lookup_insert _, h.insert _⟩

/-- One value assigned to several columns. -/
theorem lookup_assignAll_const {V : Type} (record : Record V) (cols : List String) (v : V)
    (col : String) :
    (assignAll record (cols.map fun c => (c, v))).lookup col =
      if col ∈ cols ∧ col ≠ "__proto__" then some v else record.lookup col := by
  have hfilter : (cols.map fun c => (c, v)).filter (·.1 ≠ "__proto__") =
      (cols.filter (· ≠ "__proto__")).map fun c => (c, v) := by
    simp [List.filter_map, Function.comp_def]
  rw [assignAll, hfilter, Lib.lookup_replay, Lib.lastWrite_const]
  by_cases hcol : col ∈ cols ∧ col ≠ "__proto__"
  · simp [hcol.1, hcol.2]
  · simp [hcol]

theorem Bounded.assignAll (h : Bounded clocks hlc) (cols : List String) :
    Bounded (assignAll clocks (cols.map fun c => (c, hlc))) hlc := by
  refine bounded_iff.2 fun col held hcol => ?_
  rw [lookup_assignAll_const] at hcol
  split at hcol
  · cases hcol
    exact le_refl _
  · exact bounded_iff.1 h col held hcol

theorem RowStamped.assignAll (h : RowStamped clocks hlc) (cols : List String) :
    RowStamped (assignAll clocks (cols.map fun c => (c, hlc))) hlc := by
  refine ⟨?_, h.2.assignAll cols⟩
  rw [lookup_assignAll_const]
  split
  · rfl
  · exact h.1

theorem bounded_empty : Bounded ∅ hlc := by
  intro e he
  cases he

theorem stamped_buildColClocks (incoming : ConflictInput) :
    RowStamped (buildColClocks incoming) incoming.hlc :=
  (bounded_empty.stamped).assignAll _

/-- The empty HLC, which counts as none, is below every other one. -/
theorem empty_le (hlc : Hlc) : "" ≤ hlc := by
  refine not_lt.1 fun h => ?_
  exact absurd (String.lt_iff_toList_lt.1 h) (List.not_lt_nil _)

/-! ## The resolvers -/

/-- What the storage and the batch cache answer: the clocks of a row go with its HLC. -/
def ExistingRow.Sound (existing : ExistingRow) : Prop :=
  existing.row.isSome → ∃ held, existing.rowHlc = some held ∧ RowStamped existing.colClocks held

/-- The clocks of the result go with the op's HLC, and the row it replaces is not newer. -/
structure ConflictResult.Fits (result : ConflictResult) (incoming : ConflictInput)
    (existing : ExistingRow) : Prop where
  stamped : result.resolvedRow.isSome → RowStamped result.updatedColClocks incoming.hlc
  notOlder : NotOlder incoming existing

variable {incoming : ConflictInput} {existing : ExistingRow}

/-- The empty string counts as no HLC. -/
theorem filter_ne_empty (held : Hlc) :
    (some held).filter (· ≠ "") = if held = "" then none else some held := by
  by_cases hempty : held = ""
  · subst hempty
    rfl
  · simp [Option.filter, hempty]

theorem version_eq_some_iff {row : Row} {held : Hlc} :
    existing.version = some (row, held) ↔
      existing.row = some row ∧ existing.rowHlc = some held ∧ held ≠ "" := by
  cases hrow : existing.row with
  | none => simp [ExistingRow.version, hrow]
  | some r =>
      cases hheld : existing.rowHlc with
      | none => simp [ExistingRow.version, hrow, hheld]
      | some h =>
          rw [ExistingRow.version, hrow, hheld, filter_ne_empty]
          by_cases hempty : h = ""
          · simp [hempty, eq_comm]
          · simp only [if_neg hempty, Option.some.injEq, Prod.mk.injEq, and_congr_right_iff]
            rintro rfl
            exact ⟨fun heq => ⟨heq, heq ▸ hempty⟩, fun hheld => hheld.1⟩

theorem NotOlder.of_version_none (h : existing.version = none) : NotOlder incoming existing := by
  intro hsome held hheld
  rcases Option.isSome_iff_exists.1 hsome with ⟨row, hrow⟩
  by_cases hempty : held = ""
  · subst hempty
    exact empty_le _
  · have hversion : existing.version = some (row, held) :=
      version_eq_some_iff.2 ⟨hrow, hheld, hempty⟩
    rw [h] at hversion
    cases hversion

theorem NotOlder.of_version {row : Row} {held : Hlc} (h : existing.version = some (row, held))
    (hle : held ≤ incoming.hlc) : NotOlder incoming existing := by
  intro _ held' hheld'
  have heq : some held' = some held := hheld'.symm.trans (version_eq_some_iff.1 h).2.1
  cases heq
  exact hle

/-- The clocks of an existing row are not above an op that is not older than it. -/
theorem ExistingRow.Sound.bounded (h : existing.Sound) (hsome : existing.row.isSome)
    (hold : NotOlder incoming existing) : Bounded existing.colClocks incoming.hlc := by
  rcases h hsome with ⟨held, hheld, hstamped⟩
  exact hstamped.2.mono (hold hsome held hheld)

theorem acceptFirst_fits (h : NotOlder incoming existing) :
    (acceptFirst incoming).Fits incoming existing :=
  ⟨fun _ => stamped_buildColClocks incoming, h⟩

theorem resolveLww_fits (h : existing.Sound)
    (haccepted : (resolveLww incoming existing).accepted = true) :
    (resolveLww incoming existing).Fits incoming existing := by
  cases hversion : existing.version with
  | none =>
      simp only [resolveLww, hversion]
      exact acceptFirst_fits (.of_version_none hversion)
  | some version =>
      rcases version with ⟨row, held⟩
      simp only [resolveLww, hversion] at haccepted ⊢
      split at haccepted
      · rename_i hlt
        rw [if_pos hlt]
        have hold : NotOlder incoming existing := .of_version hversion (le_of_lt hlt)
        have hsome : existing.row.isSome := by simp [(version_eq_some_iff.1 hversion).1]
        have hstamped := (h.bounded hsome hold).stamped
        refine ⟨fun hrow => ?_, hold⟩
        cases hop : incoming.op with
        | delete => simp [hop, ConflictResult.accept] at hrow
        | update => exact hstamped.assignAll _
        | insert => exact hstamped.assignAll _
      · simp [ConflictResult.reject] at haccepted

/-- The column has no clock that counts, or one below the HLC. -/
theorem wins_iff {col : String} :
    wins clocks hlc col = true ↔ ∀ held ∈ readClock clocks col, held = "" ∨ held < hlc := by
  cases hclock : readClock clocks col with
  | none => simp [wins, hclock]
  | some held =>
      rw [wins, hclock, filter_ne_empty]
      by_cases hempty : held = ""
      · simp [hempty]
      · rw [if_neg hempty]
        constructor
        · intro hlt held' hheld'
          cases hheld'
          exact Or.inr (of_decide_eq_true hlt)
        · intro h
          rcases h held rfl with heq | hlt
          · exact absurd heq hempty
          · exact decide_eq_true hlt

theorem readClock_row : readClock clocks "_row" = clocks.lookup "_row" := by
  have hnone : inherited "_row" = none := by decide
  simp [readClock, hnone]

/-- Where the row-level clock does not move, it is the HLC already. -/
theorem Bounded.stamped_advance (h : Bounded clocks hlc) :
    RowStamped (advanceRowClock clocks hlc) hlc := by
  rw [advanceRowClock]
  split
  · exact h.stamped
  · rename_i hwins
    refine ⟨?_, h⟩
    rw [wins_iff, readClock_row] at hwins
    push Not at hwins
    rcases hwins with ⟨held, hrow, _, hge⟩
    have hle : held ≤ hlc := bounded_iff.1 h _ _ hrow
    rw [← le_antisymm hle hge]
    exact hrow

theorem resolveMerge_fits (h : existing.Sound)
    (hforward : incoming.op ≠ .delete → MergesForward incoming existing)
    (haccepted : (resolveMerge incoming existing).accepted = true) :
    (resolveMerge incoming existing).Fits incoming existing := by
  cases hversion : existing.version with
  | none =>
      simp only [resolveMerge, hversion]
      exact acceptFirst_fits (.of_version_none hversion)
  | some version =>
      rcases version with ⟨row, held⟩
      simp only [resolveMerge, hversion] at haccepted ⊢
      split at haccepted
      · rename_i hdelete
        rw [if_pos hdelete]
        split at haccepted
        · rename_i hlt
          rw [if_pos hlt]
          exact ⟨fun hrow => by simp [ConflictResult.accept] at hrow,
            .of_version hversion (le_of_lt hlt)⟩
        · simp [ConflictResult.reject] at haccepted
      · rename_i hdelete
        rw [if_neg hdelete]
        split at haccepted
        · simp [ConflictResult.reject] at haccepted
        · rename_i hwon
          rw [if_neg hwon]
          have hold : NotOlder incoming existing := hforward hdelete hwon
          have hsome : existing.row.isSome := by simp [(version_eq_some_iff.1 hversion).1]
          have hbounded := h.bounded hsome hold
          refine ⟨fun _ => ?_, hold⟩
          have hassigned := hbounded.assignAll
            ((winning existing.colClocks (incoming.payload.getD ∅) incoming.hlc).map (·.1))
          rw [List.map_map] at hassigned
          exact hassigned.stamped_advance

theorem resolveServer_fits (haccepted : (resolveServer incoming existing).accepted = true) :
    (resolveServer incoming existing).Fits incoming existing := by
  cases hrow : existing.row with
  | none =>
      simp only [resolveServer, hrow]
      exact acceptFirst_fits fun hsome => by simp [hrow] at hsome
  | some row => simp [resolveServer, hrow, ConflictResult.reject] at haccepted

theorem resolveCustom_fits {resolve : ConflictResolver} (h : existing.Sound)
    (hforward : ResolvesForward resolve incoming existing)
    (haccepted : (resolveCustom resolve incoming existing).accepted = true) :
    (resolveCustom resolve incoming existing).Fits incoming existing := by
  cases hrow : existing.row with
  | none =>
      simp only [resolveCustom, hrow]
      exact acceptFirst_fits fun hsome => by simp [hrow] at hsome
  | some row =>
      have hsome : existing.row.isSome := by simp [hrow]
      simp only [resolveCustom, hrow] at haccepted ⊢
      simp only [ResolvesForward, hrow] at hforward
      cases hresult : resolve incoming row existing.colClocks with
      | error e => cases e <;> simp [hresult, ConflictResult.reject] at haccepted
      | ok result =>
          simp only [hresult] at hforward ⊢
          split at hforward
          · -- Nothing changes, and the row has the op's HLC already.
            rename_i hnone
            rcases h hsome with ⟨held, hheld, hstamped⟩
            have heq : held = incoming.hlc := by
              rw [hheld] at hforward
              exact Option.some.inj hforward
            subst heq
            refine ⟨fun _ => ?_, fun _ held' hheld' => ?_⟩
            · have hassigned := hstamped.assignAll (result.changed row)
              rw [if_pos hnone]
              exact hassigned
            · rw [hheld] at hheld'
              cases hheld'
              exact le_refl _
          · rename_i hchanged
            refine ⟨fun _ => ?_, hforward⟩
            rw [if_neg hchanged]
            exact ((h.bounded hsome hforward).assignAll _).stamped

/-! ### Text -/

theorem Bounded.stamp {draft : TextDraft} (h : Bounded draft.clocks hlc) (column : String)
    (value : Json) : Bounded (draft.stamp hlc column value).clocks hlc :=
  h.assignAll [column]

theorem Bounded.clearSoftDelete {policy : TextConflictPolicy} {draft : TextDraft}
    (h : Bounded draft.clocks hlc) : Bounded (clearSoftDelete policy hlc draft).clocks hlc := by
  rw [Server.clearSoftDelete]
  split
  · split
    · exact h.stamp _ _
    · exact h
  · exact h

theorem Bounded.applyChange {ops : TextOps} {policy : TextConflictPolicy} {draft : TextDraft}
    (h : Bounded draft.clocks hlc) (column : String) (change : TextChange) :
    Bounded (applyChange ops policy hlc draft column change).clocks hlc := by
  rw [Server.applyChange]
  split
  · exact h.clearSoftDelete
  · exact (h.stamp _ _).clearSoftDelete

theorem Bounded.applyRemove {ops : TextOps} {policy : TextConflictPolicy} {draft : TextDraft}
    (h : Bounded draft.clocks hlc) (remove : TextRemove) :
    Bounded (applyRemove ops policy hlc draft remove).clocks hlc := by
  rw [Server.applyRemove]
  split
  · split
    · exact h.stamp _ _
    · exact h
  · exact h

/-- An edit stamps columns with the op's HLC, and `_row` at the end. -/
theorem Bounded.applyTextEdit {ops : TextOps} {policy : TextConflictPolicy} {draft : TextDraft}
    (h : Bounded draft.clocks hlc) (edit : TextEdit) :
    RowStamped (applyTextEdit ops policy hlc edit draft).clocks hlc := by
  have hedits : ∀ edits : List (String × TextChange), ∀ {d : TextDraft}, Bounded d.clocks hlc →
      Bounded (edits.foldl (fun d e => Server.applyChange ops policy hlc d e.1 e.2) d).clocks
        hlc := by
    intro edits
    induction edits with
    | nil => intro d hd; exact hd
    | cons e edits ih => intro d hd; exact ih (hd.applyChange e.1 e.2)
  have hall := hedits edit.edits h
  simp only [Server.applyTextEdit]
  cases edit.remove with
  | none => exact (hall.stamp _ _).stamped
  | some remove => exact ((hall.applyRemove remove).stamp _ _).stamped

theorem resolveMerge_bounded (h : existing.Sound) (hold : NotOlder incoming existing)
    (hop : incoming.op ≠ .delete) :
    Bounded (resolveMerge incoming existing).updatedColClocks incoming.hlc := by
  cases hversion : existing.version with
  | none =>
      simp only [resolveMerge, hversion]
      exact (stamped_buildColClocks incoming).2
  | some version =>
      rcases version with ⟨row, held⟩
      have hsome : existing.row.isSome := by simp [(version_eq_some_iff.1 hversion).1]
      simp only [resolveMerge, hversion, if_neg hop]
      split
      · exact h.bounded hsome hold
      · have hassigned := (h.bounded hsome hold).assignAll
          ((winning existing.colClocks (incoming.payload.getD ∅) incoming.hlc).map (·.1))
        rw [List.map_map] at hassigned
        exact hassigned.stamped_advance.2

theorem resolvePlain_bounded (h : existing.Sound) (hold : NotOlder incoming existing)
    (hop : incoming.op ≠ .delete)
    (hkept : (plainPayload incoming).entries = [] → Bounded existing.colClocks incoming.hlc) :
    Bounded (resolvePlain incoming existing).updatedColClocks incoming.hlc := by
  rw [resolvePlain]
  split
  · rename_i hempty
    exact hkept hempty
  · have hold' : NotOlder { incoming with payload := some (plainPayload incoming) } existing := hold
    exact resolveMerge_bounded h hold' hop

/-- A version kept under its own HLC. -/
theorem NotOlder.of_eq (h : existing.rowHlc = some incoming.hlc) : NotOlder incoming existing := by
  intro _ held hheld
  have heq : some held = some incoming.hlc := hheld.symm.trans h
  cases heq
  exact le_refl _

theorem resolveText_fits {ops : TextOps} {policy : TextConflictPolicy} (h : existing.Sound)
    (hforward : incoming.op ≠ .delete → EditsForward policy incoming existing)
    (haccepted : (resolveText ops policy incoming existing).accepted = true) :
    (resolveText ops policy incoming existing).Fits incoming existing := by
  simp only [resolveText] at haccepted ⊢
  split at haccepted
  · rename_i hdelete
    rw [if_pos hdelete]
    exact resolveLww_fits h haccepted
  · rename_i hdelete
    have hguard := hforward hdelete
    rw [if_neg hdelete]
    simp only [EditsForward] at hguard
    split at haccepted
    · -- The seed of an existing row keeps the clocks, so it has to have the row's HLC.
      rename_i hseed
      rw [if_pos hseed] at hguard ⊢
      rcases h hseed.2 with ⟨held, hheld, hstamped⟩
      have heq : held = incoming.hlc := Option.some.inj (hheld.symm.trans hguard)
      exact ⟨fun _ => heq ▸ hstamped, .of_eq hguard⟩
    · rename_i hseed
      rw [if_neg hseed] at hguard ⊢
      cases hraw : (incoming.payload.getD ∅).lookup TEXT_EDIT_KEY with
      | none =>
          simp only [hraw] at hguard haccepted ⊢
          rw [resolvePlain] at haccepted ⊢
          split at haccepted
          · rename_i hempty
            rw [if_pos hempty] at hguard ⊢
            refine ⟨fun _ => hguard, fun hsome held hheld => ?_⟩
            rcases h hsome with ⟨held', hheld', hstamped⟩
            have heq : some held = some held' := hheld.symm.trans hheld'
            cases heq
            exact bounded_iff.1 hguard.2 "_row" held hstamped.1
          · rename_i hplain
            rw [if_neg hplain] at hguard ⊢
            have hfits := resolveMerge_fits h (fun _ => hguard) haccepted
            exact ⟨hfits.stamped, hfits.notOlder⟩
      | some raw =>
          simp only [hraw] at hguard haccepted ⊢
          cases hedit : readTextEdit policy raw with
          | none => simp [hedit, ConflictResult.reject] at haccepted
          | some edit =>
              rcases hguard (by simp [hedit]) with ⟨hold, hkept⟩
              have hbounded : Bounded (TextDraft.mk
                  ((resolvePlain incoming existing).resolvedRow.getD ∅)
                  (resolvePlain incoming existing).updatedColClocks).clocks incoming.hlc :=
                resolvePlain_bounded h hold hdelete hkept
              exact ⟨fun _ => hbounded.applyTextEdit edit, hold⟩

theorem resolveConflict_fits {ops : TextOps} {policy : ConflictPolicy} (h : existing.Sound)
    (hforward : ClocksForward policy incoming existing)
    (haccepted : (resolveConflict ops policy incoming existing).accepted = true) :
    (resolveConflict ops policy incoming existing).Fits incoming existing := by
  cases policy with
  | lww => exact resolveLww_fits h haccepted
  | merge => exact resolveMerge_fits h hforward haccepted
  | server => exact resolveServer_fits haccepted
  | custom resolve => exact resolveCustom_fits h hforward haccepted
  | text policy => exact resolveText_fits h hforward haccepted

/-! ## The row -/

variable {s s' : RowState}

/-- The cache has the stored row, or none where there is none. -/
def CacheCurrent (s : RowState) : Prop :=
  ∀ existing ∈ s.cached,
    if s.stored.isSome then existing = getRow s.stored else existing.row = none

/-- Whatever the op reads, a row that exists is the stored one. -/
theorem CacheCurrent.read_eq (h : CacheCurrent s) {sameBatch : Bool}
    (hread : existing ∈ s.read sameBatch) :
    (∀ r, s.stored = some r → existing = getRow (some r)) ∧
      (s.stored = none → existing.row = none) := by
  cases sameBatch with
  | false =>
      have heq : getRow s.stored = existing := Option.some.inj hread
      subst heq
      exact ⟨fun r hr => by rw [hr], fun hnone => by rw [hnone]; rfl⟩
  | true =>
      have hcached := h existing hread
      refine ⟨fun r hr => ?_, fun hnone => ?_⟩
      · simpa [hr] using hcached
      · simpa [hnone] using hcached

theorem cacheCurrent_record (s : RowState) (result : ConflictResult) (hlc : Hlc) :
    CacheCurrent (s.record result hlc) := by
  intro existing hexisting
  have heq : result.cached hlc = existing := Option.some.inj hexisting
  subst heq
  cases hrow : result.resolvedRow with
  | none => simp [RowState.record, ConflictResult.stored, ConflictResult.cached, hrow]
  | some row => simp [RowState.record, ConflictResult.stored, ConflictResult.cached, hrow, getRow]

/-- The last version is the stored one. -/
structure RowInv (s : RowState) : Prop where
  sound : RowSound s
  last : s.versions.getLast? = s.stored.map (·.hlc)
  cached : CacheCurrent s

theorem RowInv.sound_read (h : RowInv s) {sameBatch : Bool}
    (hread : existing ∈ s.read sameBatch) : existing.Sound := by
  intro hsome
  cases hstored : s.stored with
  | none => simp [(h.cached.read_eq hread).2 hstored] at hsome
  | some r =>
      rw [(h.cached.read_eq hread).1 r hstored]
      exact ⟨r.hlc, rfl, h.sound.stamped r hstored⟩

/-- An accepted op whose clocks go with its HLC. -/
theorem RowInv.record (h : RowInv s) {sameBatch : Bool} (hread : existing ∈ s.read sameBatch)
    {result : ConflictResult} (hfits : result.Fits incoming existing) :
    RowInv (s.record result incoming.hlc) := by
  have hlast : ∀ last ∈ s.versions.getLast?, last ≤ incoming.hlc := by
    intro last hlast
    rw [h.last] at hlast
    rcases Option.map_eq_some_iff.1 hlast with ⟨r, hstored, rfl⟩
    have heq := (h.cached.read_eq hread).1 r hstored
    exact hfits.notOlder (by simp [heq, getRow]) r.hlc (by simp [heq, getRow])
  cases hrow : result.resolvedRow with
  | none =>
      refine ⟨⟨fun r hr => ?_, ?_⟩, ?_, cacheCurrent_record _ _ _⟩
      · simp [RowState.record, ConflictResult.stored, hrow] at hr
      · simp [RowState.record, hrow]
      · simp [RowState.record, ConflictResult.stored, hrow]
  | some row =>
      refine ⟨⟨fun r hr => ?_, ?_⟩, ?_, cacheCurrent_record _ _ _⟩
      · have heq : (⟨row, incoming.hlc, result.updatedColClocks⟩ : StoredRow) = r := by
          simpa [RowState.record, ConflictResult.stored, hrow] using hr
        subst heq
        exact hfits.stamped (by simp [hrow])
      · simpa [RowState.record, hrow] using Lib.pairwise_concat h.sound.monotone hlast
      · simp [RowState.record, ConflictResult.stored, hrow]

theorem RowInv.process {ops : TextOps} {policy : ConflictPolicy} {e : RowEvent} (h : RowInv s)
    (hguard : OpsForward policy s e) (hs : s.process ops policy e = some s') : RowInv s' := by
  rcases Option.map_eq_some_iff.1 hs with ⟨existing, hread, heq⟩
  simp only at heq
  split at heq
  · rename_i haccepted
    subst heq
    exact h.record hread
      (resolveConflict_fits (h.sound_read hread) (hguard existing hread) haccepted)
  · subst heq
    exact h

theorem rowInv_start : RowInv .start := by
  refine ⟨⟨fun r hr => ?_, List.Pairwise.nil⟩, rfl, fun c hc => ?_⟩
  · cases hr
  · cases hc

/-- While the ops go forward, every stored row has the HLC of its `_row` clock, above its column
clocks and not below the version before. -/
theorem rowSound_of_opsForward {ops : TextOps} {policy : ConflictPolicy}
    (h : (rowMachine ops policy).Reach (OpsForward policy) s) : RowSound s := by
  have hinv : RowInv s := h.invariant rowInv_start fun hinv hg hs => RowInv.process hinv hg hs
  exact hinv.sound

/-! ## Runs -/

/-- A stand-in for the text functions where no text is edited. -/
def noText : TextOps :=
  ⟨fun text _ => text, fun _ ours _ => ours, fun _ => 0, fun _ _ n => .num n⟩

def rowOp (op : OpType) (columns : List (String × Json)) (hlc : Hlc) : ConflictInput :=
  ⟨op, some (Lib.replay ∅ columns), hlc, "1", "todos", "u"⟩

/-- An insert, and an update of another column with a newer HLC. -/
theorem rowSound_afterUpdate : ∃ s, s.stored.map (·.hlc) = some "2.0.b" ∧ RowSound s := by
  have hrun : (((rowMachine noText .merge).runWith (fun s e => decide (OpsForward .merge s e))
      (rowMachine noText .merge).init
      [⟨rowOp .insert [("title", .str "a")] "1.0.a", false⟩,
        ⟨rowOp .update [("done", .bool true)] "2.0.b", false⟩]).map fun s =>
          s.stored.map (·.hlc)) = some (some "2.0.b") := by decide +kernel
  rcases Option.map_eq_some_iff.1 hrun with ⟨s, hs, hhlc⟩
  have hreach := Lib.Machine.Reach.of_runWith (fun _ _ h => of_decide_eq_true h) .init hs
  exact ⟨s, hhlc, rowSound_of_opsForward hreach⟩

/-- An older update of another column is stored under its own HLC. -/
theorem not_rowSound_olderColumn :
    ¬ ∀ ops policy s, (rowMachine ops policy).Reachable s → RowSound s := by
  intro h
  have hrun : ((rowMachine noText .merge).run
      [⟨rowOp .insert [("title", .str "a")] "2.0.a", false⟩,
        ⟨rowOp .update [("done", .bool true)] "1.0.b", false⟩]).map (·.versions) =
      some ["2.0.a", "1.0.b"] := by decide +kernel
  rcases Option.map_eq_some_iff.1 hrun with ⟨s, hs, hversions⟩
  have hmonotone := (h noText .merge s (.of_run hs)).monotone
  rw [hversions] at hmonotone
  exact absurd hmonotone (by decide +kernel)

end Server
end Reflectdb
