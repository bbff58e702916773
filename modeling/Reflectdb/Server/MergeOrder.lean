import Reflectdb.Server.RowClocks

/-!
# Merge order — `merge` over the orders of a set of ops

The inserts and updates of one row, from the absent row on, each against what the ones before it
left.  The row and its column clocks come out the same in every order, except for columns under
names that JavaScript objects inherit.
-/

namespace Reflectdb
namespace Server

open Core Client

/-! ## Model -/

/-- One op through `resolveMerge`; a rejected op leaves the row as it is. -/
def mergeOp (stored : Option StoredRow) (op : ConflictInput) : Option StoredRow :=
  let result := resolveMerge op (getRow stored)
  if result.accepted then result.stored op.hlc else stored

def mergeOps (ops : List ConflictInput) : Option StoredRow :=
  ops.foldl mergeOp none

/-- The columns that an op writes. -/
def ConflictInput.columns (op : ConflictInput) : Row :=
  op.payload.getD ∅

/-- A packed HLC begins with a digit of its milliseconds. -/
def IsPacked (hlc : Hlc) : Prop :=
  "0" ≤ hlc ∧ hlc < ":"

instance (hlc : Hlc) : Decidable (IsPacked hlc) :=
  inferInstanceAs (Decidable (_ ∧ _))

/-- An insert or update with a payload, none of whose columns is named `_row`. -/
structure IsWrite (op : ConflictInput) : Prop where
  notDelete : op.op ≠ .delete
  nonempty : op.columns.keys ≠ []
  noRow : "_row" ∉ op.columns
  packed : IsPacked op.hlc

/-! ## Order independence -/

/-- The same row fields and the same per-column clocks. -/
def StoredRow.Same (a b : StoredRow) : Prop :=
  (∀ col, a.row.lookup col = b.row.lookup col) ∧ ∀ col, a.clocks.lookup col = b.clocks.lookup col

/-- The op is the newest of those that write the column. -/
structure IsNewest (ops : List ConflictInput) (col : String) (op : ConflictInput) : Prop where
  mem : op ∈ ops
  writes : col ∈ op.columns
  newest : ∀ other ∈ ops, col ∈ other.columns → other.hlc ≤ op.hlc

/-- Every order of the ops ends with the same row and clocks, and each column holds the value of the
newest op that writes it. -/
structure MergeConverges (ops : List ConflictInput) : Prop where
  same : ∀ order order' : List ConflictInput, order.Perm ops → order'.Perm ops →
    Option.Rel StoredRow.Same (mergeOps order) (mergeOps order')
  newest : ∀ order : List ConflictInput, order.Perm ops → ∀ col op, IsNewest ops col op →
    (mergeOps order).bind (·.row.lookup col) = op.columns.lookup col

/-- The ops agree on the names that objects inherit: a function's name is a column of all or of
none, `__proto__` has one value in all or is in none, and an op with no other column is not the
newest of several. -/
structure AgreeOnInherited (ops : List ConflictInput) : Prop where
  functions : ∀ f ∈ prototypeFunctions,
    (∀ op ∈ ops, f.1 ∈ op.columns) ∨ ∀ op ∈ ops, f.1 ∉ op.columns
  proto : ∀ op ∈ ops, ∀ other ∈ ops,
    op.columns.lookup "__proto__" = other.columns.lookup "__proto__"
  newest : ∀ op ∈ ops, (∀ other ∈ ops, other.hlc ≤ op.hlc) →
    ops.length = 1 ∨ ∃ col ∈ op.columns.keys, col ≠ "__proto__"

/-! ## Reads and assignments -/

theorem IsPacked.ne_empty {hlc : Hlc} (h : IsPacked hlc) : hlc ≠ "" := by
  rintro rfl
  exact absurd h.1 (by decide +kernel)

/-- What an object inherits compares above every packed HLC. -/
theorem IsPacked.lt_inherited {hlc : Hlc} (h : IsPacked hlc) {col : String} {held : Hlc}
    (hcol : inherited col = some held) : hlc < held := by
  refine lt_trans h.2 ?_
  rw [inherited] at hcol
  split at hcol
  · cases hcol
    decide +kernel
  · rcases Option.map_eq_some_iff.1 hcol with ⟨f, hf, rfl⟩
    have hall : ∀ f ∈ prototypeFunctions, ":" < "function " ++ f.2 ++ "() { [native code] }" := by
      decide +kernel
    exact hall f (List.mem_of_find?_eq_some hf)

theorem inherited_ne_empty {col : String} {held : Hlc} (hcol : inherited col = some held) :
    held ≠ "" := by
  rintro rfl
  have hpacked : IsPacked "0" := by decide +kernel
  have hlt : "0" < "" := hpacked.lt_inherited hcol
  exact absurd hlt (by decide +kernel)

theorem mem_winning {clocks : Record Hlc} {payload : Row} {hlc : Hlc} {col : String} :
    col ∈ (winning clocks payload hlc).map (·.1) ↔ col ∈ payload ∧ wins clocks hlc col = true := by
  constructor
  · intro h
    rcases List.mem_map.1 h with ⟨w, hw, rfl⟩
    rcases List.mem_map.1 hw with ⟨e, he, rfl⟩
    rcases List.mem_filter.1 he with ⟨hmem, hwins⟩
    exact ⟨AList.mem_keys.2 (List.mem_map_of_mem hmem), hwins⟩
  · rintro ⟨hmem, hwins⟩
    rcases Option.isSome_iff_exists.1 (AList.lookup_isSome.2 hmem) with ⟨v, hv⟩
    have he : (⟨col, v⟩ : Sigma fun _ : String => Json) ∈
        payload.entries.filter fun e => wins clocks hlc e.1 :=
      List.mem_filter.2 ⟨Lib.mem_entries_iff.2 hv, hwins⟩
    exact List.mem_map.2 ⟨_, List.mem_map.2 ⟨_, he, rfl⟩, rfl⟩

theorem lookup_assignAll_winning (row : Row) (clocks : Record Hlc) (payload : Row) (hlc : Hlc)
    (col : String) :
    (assignAll row (winning clocks payload hlc)).lookup col =
      if wins clocks hlc col = true ∧ col ≠ "__proto__" then
        (payload.lookup col).or (row.lookup col)
      else row.lookup col := by
  have hfilter : (winning clocks payload hlc).filter (·.1 ≠ "__proto__") =
      Lib.writes (payload.entries.filter fun e => wins clocks hlc e.1 && e.1 ≠ "__proto__") := by
    rw [winning, Lib.writes, Lib.writes, List.filter_map, List.filter_filter]
    simp [Bool.and_comm]
  rw [assignAll, hfilter, Lib.lookup_replay, Lib.lastWrite_filter]
  by_cases h : wins clocks hlc col = true ∧ col ≠ "__proto__"
  · rw [if_pos h]
    cases hv : payload.lookup col with
    | none => rfl
    | some v => simp [Option.filter, h.1, h.2]
  · rw [if_neg h]
    cases hv : payload.lookup col with
    | none => rfl
    | some v =>
        have hfalse : (wins clocks hlc col && decide (col ≠ "__proto__")) = false := by
          simpa using h
        rw [Option.filter, hfalse]
        rfl

/-! ## One op -/

/-- The op writes the column and is newer than its clock. -/
def Takes (r : StoredRow) (op : ConflictInput) (col : String) : Prop :=
  col ∈ op.columns ∧ wins r.clocks op.hlc col = true ∧ col ≠ "__proto__"

instance (r : StoredRow) (op : ConflictInput) (col : String) : Decidable (Takes r op col) :=
  inferInstanceAs (Decidable (_ ∧ _ ∧ _))

/-- What an op makes of a row: it takes the columns that it wins, and moves `_row` forward with
them. -/
structure MergedInto (r : StoredRow) (op : ConflictInput) (r' : StoredRow) : Prop where
  hlc : r'.hlc ≠ ""
  row : ∀ col, r'.row.lookup col =
    if Takes r op col then op.columns.lookup col else r.row.lookup col
  clocks : ∀ col, col ≠ "_row" → r'.clocks.lookup col =
    if Takes r op col then some op.hlc else r.clocks.lookup col
  moved : ∀ col held, Takes r op col → r.clocks.lookup "_row" = some held →
    r'.clocks.lookup "_row" = some (max held op.hlc)
  kept : (∀ col, ¬ Takes r op col) → r'.clocks.lookup "_row" = r.clocks.lookup "_row"

/-- `__proto__` has no clock of its own, and what it inherits is never older. -/
theorem not_wins_proto {clocks : Record Hlc} (hproto : clocks.lookup "__proto__" = none) {hlc : Hlc}
    (h : IsPacked hlc) : ¬ wins clocks hlc "__proto__" = true := by
  intro hwins
  have hinherited : inherited "__proto__" = some "[object Object]" := by decide
  have hread : readClock clocks "__proto__" = some "[object Object]" := by
    rw [readClock, hproto, hinherited]
    rfl
  rcases wins_iff.1 hwins _ hread with hempty | hlt
  · exact absurd hempty (by decide)
  · exact absurd (h.lt_inherited hinherited) (lt_asymm hlt)

theorem lookup_advanceRowClock_ne (clocks : Record Hlc) (hlc : Hlc) {col : String}
    (hcol : col ≠ "_row") : (advanceRowClock clocks hlc).lookup col = clocks.lookup col := by
  rw [advanceRowClock]
  split
  · exact AList.lookup_insert_ne hcol
  · rfl

theorem lookup_advanceRowClock {clocks : Record Hlc} {held : Hlc} (hlc : Hlc)
    (hheld : clocks.lookup "_row" = some held) :
    (advanceRowClock clocks hlc).lookup "_row" = some (max held hlc) := by
  rw [advanceRowClock]
  split
  · rename_i hwins
    rw [AList.lookup_insert]
    rw [wins_iff, readClock_row] at hwins
    rcases hwins held hheld with hempty | hlt
    · rw [hempty, max_eq_right (empty_le hlc)]
    · rw [max_eq_right (le_of_lt hlt)]
  · rename_i hwins
    rw [wins_iff, readClock_row] at hwins
    have hge : hlc ≤ held := by
      refine not_lt.1 fun hlt => hwins fun held' hheld' => Or.inr ?_
      have heq : some held = some held' := hheld.symm.trans hheld'
      cases heq
      exact hlt
    rw [hheld, max_eq_left hge]

theorem mergeOp_some {r : StoredRow} {op : ConflictInput} (hr : r.hlc ≠ "")
    (hproto : r.clocks.lookup "__proto__" = none) (hop : IsWrite op) :
    ∃ r', mergeOp (some r) op = some r' ∧ MergedInto r op r' := by
  have hversion : (getRow (some r)).version = some (r.row, r.hlc) :=
    version_eq_some_iff.2 ⟨rfl, rfl, hr⟩
  have hcolumns : op.payload.getD ∅ = op.columns := rfl
  have hclocks : (getRow (some r)).colClocks = r.clocks := rfl
  have htakes : ∀ col, Takes r op col ↔
      col ∈ (winning r.clocks op.columns op.hlc).map (·.1) ∧ col ≠ "__proto__" := by
    intro col
    rw [mem_winning, Takes, and_assoc]
  simp only [mergeOp, resolveMerge, hversion, if_neg hop.notDelete, hcolumns, hclocks]
  by_cases hwon : winning r.clocks op.columns op.hlc = []
  · rw [if_pos hwon]
    have hnone : ∀ col, ¬ Takes r op col := by
      intro col h
      have hmem := ((htakes col).1 h).1
      rw [hwon] at hmem
      cases hmem
    refine ⟨r, rfl, hr, fun col => ?_, fun col _ => ?_, fun col _ h => absurd h (hnone col),
      fun _ => rfl⟩
    · rw [if_neg (hnone col)]
    · rw [if_neg (hnone col)]
  · rw [if_neg hwon]
    have hassigned : ∀ col, (assignAll r.clocks ((winning r.clocks op.columns op.hlc).map fun w =>
        (w.1, op.hlc))).lookup col =
          if Takes r op col then some op.hlc else r.clocks.lookup col := by
      intro col
      have hconst := lookup_assignAll_const r.clocks
        ((winning r.clocks op.columns op.hlc).map (·.1)) op.hlc col
      rw [List.map_map] at hconst
      simp only [htakes]
      exact hconst
    refine ⟨_, rfl, hop.packed.ne_empty, fun col => ?_, fun col hcol => ?_,
      fun col held _ hheld => ?_, fun hnone => ?_⟩
    · refine (lookup_assignAll_winning _ _ _ _ _).trans ?_
      by_cases hmem : col ∈ op.columns
      · rcases Option.isSome_iff_exists.1 (AList.lookup_isSome.2 hmem) with ⟨v, hv⟩
        simp [Takes, hmem, hv]
      · simp [Takes, hmem, AList.lookup_eq_none.2 hmem]
    · exact (lookup_advanceRowClock_ne _ _ hcol).trans (hassigned col)
    · refine lookup_advanceRowClock _ ?_
      rw [hassigned, if_neg fun h => hop.noRow h.1]
      exact hheld
    · -- What is won is not `__proto__`, and so taken.
      rcases List.exists_mem_of_ne_nil _ hwon with ⟨w, hw⟩
      have hmem := List.mem_map_of_mem (f := (·.1)) hw
      have hwins := (mem_winning.1 hmem).2
      refine absurd ((htakes w.1).2 ⟨hmem, fun heq => ?_⟩) (hnone w.1)
      rw [heq] at hwins
      exact not_wins_proto hproto hop.packed hwins

/-! ## A set of ops -/

/-- What every order of the ops leaves. -/
structure Merged (ops : List ConflictInput) (r : StoredRow) : Prop where
  hlc : r.hlc ≠ ""
  unwritten : ∀ col, (∀ op ∈ ops, col ∉ op.columns) →
    r.row.lookup col = none ∧ (col ≠ "_row" → r.clocks.lookup col = none)
  newest : ∀ col op, col ≠ "__proto__" → IsNewest ops col op →
    r.row.lookup col = op.columns.lookup col ∧ r.clocks.lookup col = some op.hlc
  proto : ∀ op ∈ ops, r.row.lookup "__proto__" = op.columns.lookup "__proto__"
  protoClock : r.clocks.lookup "__proto__" = none
  rowClock : ∃ held, r.clocks.lookup "_row" = some held ∧ (∃ op ∈ ops, op.hlc = held) ∧
    ∀ op ∈ ops, (ops.length = 1 ∨ ∃ col ∈ op.columns.keys, col ≠ "__proto__") → op.hlc ≤ held

/-- Among the ops with a property there is a newest one. -/
theorem exists_newest {p : ConflictInput → Prop} :
    ∀ {ops : List ConflictInput}, (∃ op ∈ ops, p op) →
      ∃ op ∈ ops, p op ∧ ∀ other ∈ ops, p other → other.hlc ≤ op.hlc := by
  intro ops
  induction ops with
  | nil => rintro ⟨op, hop, _⟩; cases hop
  | cons first ops ih =>
      rintro ⟨op, hop, hp⟩
      by_cases hrest : ∃ op ∈ ops, p op
      · rcases ih hrest with ⟨last, hlast, hplast, hmax⟩
        by_cases hfirst : p first ∧ last.hlc ≤ first.hlc
        · refine ⟨first, List.mem_cons_self, hfirst.1, fun other hother hpother => ?_⟩
          rcases List.mem_cons.1 hother with heq | hmem
          · rw [heq]
          · exact le_trans (hmax other hmem hpother) hfirst.2
        · refine ⟨last, List.mem_cons_of_mem _ hlast, hplast, fun other hother hpother => ?_⟩
          rcases List.mem_cons.1 hother with heq | hmem
          · subst heq
            exact le_of_not_ge fun hge => hfirst ⟨hpother, hge⟩
          · exact hmax other hmem hpother
      · have heq : op = first := by
          rcases List.mem_cons.1 hop with heq | hmem
          · exact heq
          · exact absurd ⟨op, hmem, hp⟩ hrest
        subst heq
        refine ⟨op, List.mem_cons_self, hp, fun other hother hpother => ?_⟩
        rcases List.mem_cons.1 hother with heq | hmem
        · rw [heq]
        · exact absurd ⟨other, hmem, hpother⟩ hrest

theorem exists_isNewest {ops : List ConflictInput} {col : String}
    (h : ∃ op ∈ ops, col ∈ op.columns) : ∃ op, IsNewest ops col op := by
  rcases exists_newest (p := fun op => col ∈ op.columns) h with ⟨op, hmem, hcol, hmax⟩
  exact ⟨op, hmem, hcol, hmax⟩

theorem mergeOps_concat (ops : List ConflictInput) (op : ConflictInput) :
    mergeOps (ops ++ [op]) = mergeOp (mergeOps ops) op := by
  simp [mergeOps]

theorem payload_of_nonempty {op : ConflictInput} (h : op.columns.keys ≠ []) :
    op.payload = some op.columns := by
  cases hpayload : op.payload with
  | some row => simp [ConflictInput.columns, hpayload]
  | none => simp [ConflictInput.columns, hpayload] at h

/-- The first op creates the row. -/
theorem mergeOp_none {op : ConflictInput} (hop : IsWrite op) :
    mergeOp none op = some ⟨op.columns, op.hlc, buildColClocks op⟩ := by
  have hversion : (getRow none).version = none := rfl
  simp only [mergeOp, resolveMerge, hversion, acceptFirst, if_neg hop.notDelete,
    payload_of_nonempty hop.nonempty]
  rfl

theorem lookup_buildColClocks (op : ConflictInput) (col : String) :
    (buildColClocks op).lookup col =
      if col ∈ op.columns ∧ col ≠ "__proto__" ∨ col = "_row" then some op.hlc else none := by
  rw [buildColClocks, stampColumns, lookup_assignAll_const]
  by_cases hmem : col ∈ op.columns ∧ col ≠ "__proto__"
  · have hkeys : col ∈ (op.payload.getD ∅).keys ∧ col ≠ "__proto__" := hmem
    rw [if_pos hkeys, if_pos (Or.inl hmem)]
  · have hkeys : ¬ (col ∈ (op.payload.getD ∅).keys ∧ col ≠ "__proto__") := hmem
    rw [if_neg hkeys]
    by_cases hrow : col = "_row"
    · rw [if_pos (Or.inr hrow), hrow]
      exact AList.lookup_insert _
    · rw [if_neg fun h => h.elim hmem hrow]
      exact (AList.lookup_insert_ne hrow).trans (AList.lookup_empty _)

theorem merged_first {op : ConflictInput} (hop : IsWrite op) :
    Merged [op] ⟨op.columns, op.hlc, buildColClocks op⟩ := by
  refine ⟨hop.packed.ne_empty, fun col hcol => ?_, fun col newest hproto hnewest => ?_,
    fun other hother => ?_, ?_, op.hlc, ?_, ⟨op, List.mem_cons_self, rfl⟩, fun other hother _ => ?_⟩
  · have hnot : col ∉ op.columns := hcol op List.mem_cons_self
    refine ⟨AList.lookup_eq_none.2 hnot, fun hrow => ?_⟩
    rw [lookup_buildColClocks, if_neg]
    exact fun h => h.elim (fun h => hnot h.1) hrow
  · have heq : newest = op := by simpa using hnewest.mem
    subst heq
    refine ⟨rfl, ?_⟩
    rw [lookup_buildColClocks, if_pos (Or.inl ⟨hnewest.writes, hproto⟩)]
  · have heq : other = op := by simpa using hother
    rw [heq]
  · rw [lookup_buildColClocks, if_neg (by simp)]
  · rw [lookup_buildColClocks, if_pos (Or.inr rfl)]
  · have heq : other = op := by simpa using hother
    rw [heq]

/-- A column under an inherited name, other than `__proto__`, is a function's. -/
theorem exists_function {col held : String} (h : inherited col = some held)
    (hproto : col ≠ "__proto__") : ∃ f ∈ prototypeFunctions, f.1 = col := by
  rw [inherited, if_neg hproto] at h
  rcases Option.map_eq_some_iff.1 h with ⟨f, hf, _⟩
  exact ⟨f, List.mem_of_find?_eq_some hf, by simpa using List.find?_some hf⟩

section Step

variable {all ops : List ConflictInput} {op : ConflictInput} {r r' : StoredRow}

/-- An op takes a column from all older ops that have written it. -/
theorem Merged.takes_iff (h : Merged ops r) (hagree : AgreeOnInherited all)
    (hall : ∀ o ∈ ops, o ∈ all) (hop : op ∈ all) (hsome : ops ≠ [])
    (hwrites : ∀ o ∈ all, IsWrite o) {col : String} (hproto : col ≠ "__proto__")
    (hcol : col ∈ op.columns) :
    Takes r op col ↔ ∀ o ∈ ops, col ∈ o.columns → o.hlc < op.hlc := by
  have htakes : Takes r op col ↔ wins r.clocks op.hlc col = true :=
    ⟨fun h => h.2.1, fun h => ⟨hcol, h, hproto⟩⟩
  rw [htakes, wins_iff]
  by_cases hwritten : ∃ o ∈ ops, col ∈ o.columns
  · rcases exists_isNewest hwritten with ⟨newest, hnewest⟩
    have hclock := (h.newest col newest hproto hnewest).2
    have hread : readClock r.clocks col = some newest.hlc := by simp [readClock, hclock]
    have hne := (hwrites newest (hall newest hnewest.mem)).packed.ne_empty
    constructor
    · intro hlt o ho hocol
      rcases hlt newest.hlc hread with hempty | hlt
      · exact absurd hempty hne
      · exact lt_of_le_of_lt (hnewest.newest o ho hocol) hlt
    · intro hlt held hheld
      have heq : newest.hlc = held := Option.some.inj (hread.symm.trans hheld)
      exact Or.inr (heq ▸ hlt newest hnewest.mem hnewest.writes)
  · -- No op has written it, so it is not under a function's name, which all or none write.
    push Not at hwritten
    have hrow : col ≠ "_row" := fun heq => (hwrites op hop).noRow (heq ▸ hcol)
    have hnone := (h.unwritten col hwritten).2 hrow
    refine ⟨fun _ o ho hocol => absurd hocol (hwritten o ho), fun _ held hheld => ?_⟩
    have hinherited : inherited col = some held := by simpa [readClock, hnone] using hheld
    rcases exists_function hinherited hproto with ⟨f, hf, heq⟩
    rcases List.exists_mem_of_ne_nil _ hsome with ⟨first, hfirst⟩
    rcases hagree.functions f hf with hwrite | hnot
    · exact absurd (heq ▸ hwrite first (hall first hfirst)) (hwritten first hfirst)
    · exact absurd hcol (heq ▸ hnot op hop)

theorem Merged.concat (h : Merged ops r) (hagree : AgreeOnInherited all)
    (hall : ∀ o ∈ ops, o ∈ all) (hop : op ∈ all) (hsome : ops ≠ [])
    (hwrites : ∀ o ∈ all, IsWrite o) (hfresh : ∀ o ∈ ops, o.hlc ≠ op.hlc)
    (hmerged : MergedInto r op r') : Merged (ops ++ [op]) r' := by
  have htakes : ∀ {col}, col ≠ "__proto__" → col ∈ op.columns →
      (Takes r op col ↔ ∀ o ∈ ops, col ∈ o.columns → o.hlc < op.hlc) :=
    fun hproto hcol => h.takes_iff hagree hall hop hsome hwrites hproto hcol
  have hnotProto : ¬ Takes r op "__proto__" := fun h => h.2.2 rfl
  refine ⟨hmerged.hlc, fun col hcol => ?_, fun col newest hproto hnewest => ?_, fun o ho => ?_,
    ?_, ?_⟩
  · have hnot : ¬ Takes r op col := fun h => hcol op (by simp) h.1
    have hold := h.unwritten col fun o ho => hcol o (List.mem_append_left _ ho)
    refine ⟨?_, fun hrow => ?_⟩
    · rw [hmerged.row, if_neg hnot]
      exact hold.1
    · rw [hmerged.clocks col hrow, if_neg hnot]
      exact hold.2 hrow
  · have hrow : col ≠ "_row" := by
      rintro rfl
      have hmem : newest ∈ all := by
        rcases List.mem_append.1 hnewest.mem with hold | hnew
        · exact hall newest hold
        · exact (List.mem_singleton.1 hnew) ▸ hop
      exact (hwrites newest hmem).noRow hnewest.writes
    rw [hmerged.row, hmerged.clocks col hrow]
    rcases List.mem_append.1 hnewest.mem with hold | hnew
    · -- An older op keeps the column.
      have hnot : ¬ Takes r op col := by
        intro ht
        have hlt := (htakes hproto ht.1).1 ht newest hold hnewest.writes
        exact absurd (hnewest.newest op (by simp) ht.1) (not_le_of_gt hlt)
      rw [if_neg hnot, if_neg hnot]
      exact h.newest col newest hproto ⟨hold, hnewest.writes, fun o ho =>
        hnewest.newest o (List.mem_append_left _ ho)⟩
    · have heq : newest = op := by simpa using hnew
      subst heq
      have ht : Takes r newest col := by
        refine (htakes hproto hnewest.writes).2 fun o ho hocol => ?_
        exact lt_of_le_of_ne (hnewest.newest o (List.mem_append_left _ ho) hocol) (hfresh o ho)
      rw [if_pos ht, if_pos ht]
      exact ⟨rfl, rfl⟩
  · rw [hmerged.row, if_neg hnotProto]
    rcases List.mem_append.1 ho with hold | hnew
    · exact h.proto o hold
    · have heq : o = op := by simpa using hnew
      rcases List.exists_mem_of_ne_nil _ hsome with ⟨first, hfirst⟩
      rw [heq, h.proto first hfirst]
      exact hagree.proto first (hall first hfirst) op hop
  · rw [hmerged.clocks _ (by decide), if_neg hnotProto]
    exact h.protoClock
  · rcases h.rowClock with ⟨held, hheld, ⟨holder, hholder, heq⟩, hmax⟩
    -- An op of several with a column of its own.
    have hordinary : ∀ o : ConflictInput,
        ((ops ++ [op]).length = 1 ∨ ∃ col ∈ o.columns.keys, col ≠ "__proto__") →
        ∃ col ∈ o.columns.keys, col ≠ "__proto__" := by
      rintro o (hlength | hcol)
      · have hpos := List.length_pos_iff.2 hsome
        simp only [List.length_append, List.length_singleton] at hlength
        omega
      · exact hcol
    by_cases ht : ∃ col, Takes r op col
    · rcases ht with ⟨col, ht⟩
      refine ⟨max held op.hlc, hmerged.moved col held ht hheld, ?_, fun o ho hcol => ?_⟩
      · rcases max_choice held op.hlc with hl | hr
        · exact ⟨holder, List.mem_append_left _ hholder, heq.trans hl.symm⟩
        · exact ⟨op, by simp, hr.symm⟩
      · rcases List.mem_append.1 ho with hold | hnew
        · exact le_trans (hmax o hold (Or.inr (hordinary o hcol))) (le_max_left _ _)
        · have hoeq : o = op := by simpa using hnew
          rw [hoeq]
          exact le_max_right _ _
    · push Not at ht
      refine ⟨held, (hmerged.kept ht).trans hheld, ⟨holder, List.mem_append_left _ hholder, heq⟩,
        fun o ho hcol => ?_⟩
      rcases List.mem_append.1 ho with hold | hnew
      · exact hmax o hold (Or.inr (hordinary o hcol))
      · -- The op has lost each of its columns to a newer one.
        have hoeq : o = op := by simpa using hnew
        subst hoeq
        rcases hordinary o hcol with ⟨col, hmem, hproto⟩
        have hlost := mt (htakes hproto (AList.mem_keys.1 hmem)).2 (ht col)
        push Not at hlost
        rcases hlost with ⟨newer, hnewer, hwrites, hle⟩
        exact le_trans hle (hmax newer hnewer (Or.inr ⟨col, AList.mem_keys.2 hwrites, hproto⟩))

end Step

theorem merged_mergeOps {all : List ConflictInput} (hagree : AgreeOnInherited all)
    (hwrites : ∀ o ∈ all, IsWrite o) :
    ∀ {ops : List ConflictInput}, ops ≠ [] → (∀ o ∈ ops, o ∈ all) → (ops.map (·.hlc)).Nodup →
      ∃ r, mergeOps ops = some r ∧ Merged ops r := by
  intro ops
  induction ops using List.reverseRecOn with
  | nil => intro hne; exact absurd rfl hne
  | append_singleton ops op ih =>
      intro _ hall hnodup
      have hop : op ∈ all := hall op (by simp)
      by_cases hsome : ops = []
      · subst hsome
        exact ⟨_, mergeOp_none (hwrites op hop), merged_first (hwrites op hop)⟩
      · have hall' : ∀ o ∈ ops, o ∈ all := fun o ho => hall o (List.mem_append_left _ ho)
        rw [List.map_append, List.nodup_append] at hnodup
        rcases ih hsome hall' hnodup.1 with ⟨r, hr, hinv⟩
        rcases mergeOp_some hinv.hlc hinv.protoClock (hwrites op hop) with ⟨r', hr', hmerged⟩
        refine ⟨r', by rw [mergeOps_concat, hr, hr'], ?_⟩
        refine hinv.concat hagree hall' hop hsome hwrites (fun o ho => ?_) hmerged
        exact hnodup.2.2 o.hlc (List.mem_map_of_mem ho) op.hlc (by simp)

theorem IsNewest.perm {order ops : List ConflictInput} (hperm : order.Perm ops) {col : String}
    {op : ConflictInput} (h : IsNewest ops col op) : IsNewest order col op :=
  ⟨hperm.mem_iff.2 h.mem, h.writes, fun o ho => h.newest o (hperm.mem_iff.1 ho)⟩

/-- Two orders of one set of ops leave the same. -/
theorem Merged.same {ops order order' : List ConflictInput} (hagree : AgreeOnInherited ops)
    (hperm : order.Perm ops) (hperm' : order'.Perm ops) {r r' : StoredRow} (h : Merged order r)
    (h' : Merged order' r') : r.Same r' := by
  have hunwritten : ∀ {col}, (¬ ∃ op ∈ ops, col ∈ op.columns) →
      (∀ op ∈ order, col ∉ op.columns) ∧ ∀ op ∈ order', col ∉ op.columns := by
    intro col hnone
    exact ⟨fun op hop hcol => hnone ⟨op, hperm.mem_iff.1 hop, hcol⟩,
      fun op hop hcol => hnone ⟨op, hperm'.mem_iff.1 hop, hcol⟩⟩
  refine ⟨fun col => ?_, fun col => ?_⟩
  · by_cases hwritten : ∃ op ∈ ops, col ∈ op.columns
    · by_cases hproto : col = "__proto__"
      · subst hproto
        rcases hwritten with ⟨op, hop, _⟩
        rw [h.proto op (hperm.mem_iff.2 hop), h'.proto op (hperm'.mem_iff.2 hop)]
      · rcases exists_isNewest hwritten with ⟨newest, hnewest⟩
        rw [(h.newest col newest hproto (hnewest.perm hperm)).1,
          (h'.newest col newest hproto (hnewest.perm hperm')).1]
    · have hnot := hunwritten hwritten
      rw [(h.unwritten col hnot.1).1, (h'.unwritten col hnot.2).1]
  · by_cases hrow : col = "_row"
    · -- The `_row` clock is the HLC of the newest op of all.
      subst hrow
      rcases h.rowClock with ⟨held, hheld, ⟨holder, hholder, heq⟩, hmax⟩
      rcases h'.rowClock with ⟨held', hheld', ⟨holder', hholder', heq'⟩, hmax'⟩
      have hall : ∃ op ∈ ops, True := ⟨holder, hperm.mem_iff.1 hholder, trivial⟩
      rcases exists_newest (p := fun _ => True) hall with ⟨newest, hnewest, _, hbound⟩
      have hordinary := hagree.newest newest hnewest fun other hother => hbound other hother trivial
      have hle : newest.hlc ≤ held :=
        hmax newest (hperm.mem_iff.2 hnewest) (hperm.length_eq.symm ▸ hordinary)
      have hle' : newest.hlc ≤ held' :=
        hmax' newest (hperm'.mem_iff.2 hnewest) (hperm'.length_eq.symm ▸ hordinary)
      have hge : held ≤ newest.hlc := heq ▸ hbound holder (hperm.mem_iff.1 hholder) trivial
      have hge' : held' ≤ newest.hlc := heq' ▸ hbound holder' (hperm'.mem_iff.1 hholder') trivial
      rw [hheld, hheld', le_antisymm hge hle, le_antisymm hge' hle']
    · by_cases hwritten : ∃ op ∈ ops, col ∈ op.columns
      · by_cases hproto : col = "__proto__"
        · subst hproto
          rw [h.protoClock, h'.protoClock]
        · rcases exists_isNewest hwritten with ⟨newest, hnewest⟩
          rw [(h.newest col newest hproto (hnewest.perm hperm)).2,
            (h'.newest col newest hproto (hnewest.perm hperm')).2]
      · have hnot := hunwritten hwritten
        rw [(h.unwritten col hnot.1).2 hrow, (h'.unwritten col hnot.2).2 hrow]

theorem mergeConverges_of_agree {ops : List ConflictInput} (hwrites : ∀ op ∈ ops, IsWrite op)
    (hnodup : (ops.map (·.hlc)).Nodup) (hagree : AgreeOnInherited ops) : MergeConverges ops := by
  have hmerged : ∀ order : List ConflictInput, order.Perm ops → order ≠ [] →
      ∃ r, mergeOps order = some r ∧ Merged order r := by
    intro order hperm hne
    exact merged_mergeOps hagree hwrites hne (fun o ho => hperm.mem_iff.1 ho)
      ((hperm.map _).nodup_iff.2 hnodup)
  refine ⟨fun order order' hperm hperm' => ?_, fun order hperm col op hnewest => ?_⟩
  · by_cases hne : ops = []
    · subst hne
      rw [hperm.eq_nil, hperm'.eq_nil]
      exact Option.Rel.none
    · rcases hmerged order hperm fun heq => hne (by simpa [heq] using hperm) with ⟨r, hr, h⟩
      rcases hmerged order' hperm' fun heq => hne (by simpa [heq] using hperm') with ⟨r', hr', h'⟩
      rw [hr, hr']
      exact Option.Rel.some (h.same hagree hperm hperm' h')
  · have hmem : op ∈ order := hperm.mem_iff.2 hnewest.mem
    rcases hmerged order hperm (List.ne_nil_of_mem hmem) with ⟨r, hr, h⟩
    rw [hr]
    by_cases hproto : col = "__proto__"
    · subst hproto
      exact h.proto op hmem
    · exact (h.newest col op hproto (hnewest.perm hperm)).1

/-! ## What does not agree -/

section Orders

variable {ops rest : List ConflictInput} {first op : ConflictInput} {r r' : StoredRow}

/-- An invariant of the merges that follow the first op. -/
theorem exists_mergeOps_cons {P : StoredRow → Prop} (hwrites : ∀ o ∈ first :: rest, IsWrite o)
    (hfirst : P ⟨first.columns, first.hlc, buildColClocks first⟩)
    (hstep : ∀ r o r', o ∈ rest → P r → MergedInto r o r' → P r') :
    ∃ r, mergeOps (first :: rest) = some r ∧ P r := by
  have hrun : ∀ ops : List ConflictInput, (∀ o ∈ ops, o ∈ rest) → ∀ r : StoredRow, r.hlc ≠ "" →
      r.clocks.lookup "__proto__" = none → P r →
        ∃ r', ops.foldl mergeOp (some r) = some r' ∧ P r' := by
    intro ops
    induction ops with
    | nil => exact fun _ r _ _ hr => ⟨r, rfl, hr⟩
    | cons o ops ih =>
        intro hrest r hne hproto hr
        have ho : o ∈ rest := hrest o List.mem_cons_self
        rcases mergeOp_some hne hproto (hwrites o (List.mem_cons_of_mem _ ho)) with
          ⟨r', hr', hmerged⟩
        have hproto' : r'.clocks.lookup "__proto__" = none := by
          rw [hmerged.clocks _ (by decide), if_neg fun h => h.2.2 rfl]
          exact hproto
        rw [List.foldl_cons, hr']
        exact ih (fun o ho => hrest o (List.mem_cons_of_mem _ ho)) r' hmerged.hlc hproto'
          (hstep r o r' ho hr hmerged)
  have hwrite := hwrites first List.mem_cons_self
  have hmerged := merged_first hwrite
  rcases hrun rest (fun o ho => ho) _ hmerged.hlc hmerged.protoClock hfirst with ⟨r, hr, hp⟩
  refine ⟨r, ?_, hp⟩
  rw [mergeOps, List.foldl_cons, mergeOp_none hwrite]
  exact hr

theorem exists_perm_cons (h : op ∈ ops) : ∃ rest, (op :: rest).Perm ops := by
  rcases List.append_of_mem h with ⟨before, after, rfl⟩
  exact ⟨before ++ after, List.perm_middle.symm⟩

/-- Two ops that come first leave the same row in the end. -/
theorem MergeConverges.same_of_first (h : MergeConverges ops) (hwrites : ∀ o ∈ ops, IsWrite o)
    {a b : ConflictInput} (ha : a ∈ ops) (hb : b ∈ ops) {P Q : StoredRow → Prop}
    (hP : P ⟨a.columns, a.hlc, buildColClocks a⟩) (hQ : Q ⟨b.columns, b.hlc, buildColClocks b⟩)
    (hPstep : ∀ r o r', o ∈ ops → P r → MergedInto r o r' → P r')
    (hQstep : ∀ r o r', o ∈ ops → Q r → MergedInto r o r' → Q r') :
    ∃ r r', P r ∧ Q r' ∧ r.Same r' := by
  have hrun : ∀ {c : ConflictInput}, c ∈ ops → ∀ {R : StoredRow → Prop},
      R ⟨c.columns, c.hlc, buildColClocks c⟩ →
      (∀ r o r', o ∈ ops → R r → MergedInto r o r' → R r') →
      ∃ order, order.Perm ops ∧ ∃ r, mergeOps order = some r ∧ R r := by
    intro c hc R hR hstep
    rcases exists_perm_cons hc with ⟨rest, hperm⟩
    refine ⟨c :: rest, hperm, exists_mergeOps_cons (fun o ho => ?_) hR fun r o r' ho => ?_⟩
    · exact hwrites o (hperm.mem_iff.1 ho)
    · exact hstep r o r' (hperm.mem_iff.1 (List.mem_cons_of_mem _ ho))
  rcases hrun ha hP hPstep with ⟨order, hperm, r, hr, hp⟩
  rcases hrun hb hQ hQstep with ⟨order', hperm', r', hr', hq⟩
  have hsame := h.same order order' hperm hperm'
  rw [hr, hr'] at hsame
  cases hsame with
  | some hsame => exact ⟨r, r', hp, hq, hsame⟩

theorem MergedInto.proto (h : MergedInto r op r') :
    r'.row.lookup "__proto__" = r.row.lookup "__proto__" := by
  rw [h.row, if_neg fun h => h.2.2 rfl]

/-- The `_row` clock stays, or moves to the higher HLC with a column that is taken. -/
theorem MergedInto.rowClock (h : MergedInto r op r') {held : Hlc}
    (hheld : r.clocks.lookup "_row" = some held) :
    r'.clocks.lookup "_row" = some held ∨
      (∃ col, Takes r op col) ∧ r'.clocks.lookup "_row" = some (max held op.hlc) := by
  by_cases ht : ∃ col, Takes r op col
  · rcases ht with ⟨col, ht⟩
    exact Or.inr ⟨⟨col, ht⟩, h.moved col held ht hheld⟩
  · push Not at ht
    exact Or.inl ((h.kept ht).trans hheld)

/-- The name of a function that a row came without stays out of the row. -/
theorem MergedInto.function_absent (h : MergedInto r op r') (hop : IsWrite op)
    {f : String × String} (hf : f ∈ prototypeFunctions)
    (hr : r.row.lookup f.1 = none ∧ r.clocks.lookup f.1 = none) :
    r'.row.lookup f.1 = none ∧ r'.clocks.lookup f.1 = none := by
  have hnames : ∀ f ∈ prototypeFunctions, f.1 ≠ "_row" ∧ (inherited f.1).isSome := by decide
  rcases Option.isSome_iff_exists.1 (hnames f hf).2 with ⟨held, hheld⟩
  have hnot : ¬ Takes r op f.1 := by
    intro ht
    have hread : readClock r.clocks f.1 = some held := by simp [readClock, hr.2, hheld]
    rcases wins_iff.1 ht.2.1 held hread with hempty | hlt
    · exact inherited_ne_empty hheld hempty
    · exact lt_asymm hlt (hop.packed.lt_inherited hheld)
  rw [h.row, h.clocks _ (hnames f hf).1, if_neg hnot, if_neg hnot]
  exact hr

theorem MergeConverges.functions (h : MergeConverges ops) (hwrites : ∀ o ∈ ops, IsWrite o)
    {f : String × String} (hf : f ∈ prototypeFunctions) :
    (∀ o ∈ ops, f.1 ∈ o.columns) ∨ ∀ o ∈ ops, f.1 ∉ o.columns := by
  by_contra hmixed
  push Not at hmixed
  rcases hmixed with ⟨⟨without, hwithout, hnot⟩, ⟨writer, hwriter, hmem⟩⟩
  have hne : f.1 ≠ "_row" := by
    have hnames : ∀ f ∈ prototypeFunctions, f.1 ≠ "_row" := by decide
    exact hnames f hf
  rcases h.same_of_first hwrites hwriter hwithout
      (P := fun r => (r.row.lookup f.1).isSome)
      (Q := fun r => r.row.lookup f.1 = none ∧ r.clocks.lookup f.1 = none)
      (AList.lookup_isSome.2 hmem)
      ⟨AList.lookup_eq_none.2 hnot, by rw [lookup_buildColClocks, if_neg (by simp [hnot, hne])]⟩
      (fun r o r' _ hr hmerged => by
        rw [hmerged.row]
        split
        · rename_i ht
          exact AList.lookup_isSome.2 ht.1
        · exact hr)
      (fun r o r' ho hr hmerged => hmerged.function_absent (hwrites o ho) hf hr)
    with ⟨r, r', hr, hr', hsame⟩
  rw [hsame.1, hr'.1] at hr
  cases hr

theorem MergeConverges.proto (h : MergeConverges ops) (hwrites : ∀ o ∈ ops, IsWrite o)
    {a b : ConflictInput} (ha : a ∈ ops) (hb : b ∈ ops) :
    a.columns.lookup "__proto__" = b.columns.lookup "__proto__" := by
  rcases h.same_of_first hwrites ha hb
      (P := fun r => r.row.lookup "__proto__" = a.columns.lookup "__proto__")
      (Q := fun r => r.row.lookup "__proto__" = b.columns.lookup "__proto__") rfl rfl
      (fun r o r' _ hr hmerged => hmerged.proto.trans hr)
      (fun r o r' _ hr hmerged => hmerged.proto.trans hr) with ⟨r, r', hr, hr', hsame⟩
  rw [← hr, ← hr', hsame.1]

/-- A newest op that has nothing but `__proto__` leaves its HLC only where it comes first. -/
theorem MergeConverges.newest_ordinary (h : MergeConverges ops) (hwrites : ∀ o ∈ ops, IsWrite o)
    (hnodup : (ops.map (·.hlc)).Nodup) (hop : op ∈ ops)
    (hmax : ∀ other ∈ ops, other.hlc ≤ op.hlc) :
    ops.length = 1 ∨ ∃ col ∈ op.columns.keys, col ≠ "__proto__" := by
  by_contra hnot
  push Not at hnot
  rcases hnot with ⟨hlength, hproto⟩
  have hnever : ∀ r col, ¬ Takes r op col :=
    fun r col ht => ht.2.2 (hproto col (AList.mem_keys.1 ht.1))
  have hunique : ∀ o ∈ ops, o.hlc = op.hlc → o = op :=
    fun o ho heq => List.inj_on_of_nodup_map hnodup ho hop heq
  -- Another op comes first.
  have hother : ∃ o ∈ ops, o.hlc ≠ op.hlc := by
    rcases exists_perm_cons hop with ⟨rest, hperm⟩
    have hrest : rest ≠ [] := by
      rintro rfl
      exact hlength hperm.length_eq.symm
    rcases List.exists_mem_of_ne_nil _ hrest with ⟨o, ho⟩
    refine ⟨o, hperm.mem_iff.1 (List.mem_cons_of_mem _ ho), fun heq => ?_⟩
    have hnodup' := (hperm.map (·.hlc)).nodup_iff.2 hnodup
    rw [List.map_cons, List.nodup_cons] at hnodup'
    exact hnodup'.1 (heq ▸ List.mem_map_of_mem ho)
  rcases hother with ⟨o, ho, hne⟩
  rcases h.same_of_first hwrites hop ho
      (P := fun r => r.clocks.lookup "_row" = some op.hlc)
      (Q := fun r => ∃ held, r.clocks.lookup "_row" = some held ∧ held ≠ op.hlc)
      (by rw [lookup_buildColClocks, if_pos (Or.inr rfl)])
      ⟨o.hlc, by rw [lookup_buildColClocks, if_pos (Or.inr rfl)], hne⟩
      (fun r o r' ho hr hmerged => by
        rcases hmerged.rowClock hr with heq | ⟨_, heq⟩
        · exact heq
        · rw [heq, max_eq_left (hmax o ho)])
      (fun r o r' ho hr hmerged => by
        rcases hr with ⟨held, hheld, hne⟩
        rcases hmerged.rowClock hheld with heq | ⟨⟨col, ht⟩, heq⟩
        · exact ⟨held, heq, hne⟩
        · refine ⟨max held o.hlc, heq, ?_⟩
          rcases max_choice held o.hlc with hl | hr
          · rw [hl]
            exact hne
          · rw [hr]
            exact fun heq => hnever r col (hunique o ho heq ▸ ht))
    with ⟨r, r', hr, ⟨held, hheld, hheldne⟩, hsame⟩
  rw [hsame.2, hheld] at hr
  exact hheldne (Option.some.inj hr)

end Orders

/-- The inserts and updates of a row merge to the same in every order exactly if they agree on the
names that JavaScript objects inherit. -/
theorem mergeConverges_iff {ops : List ConflictInput} (hwrites : ∀ op ∈ ops, IsWrite op)
    (hnodup : (ops.map (·.hlc)).Nodup) : MergeConverges ops ↔ AgreeOnInherited ops := by
  constructor
  · intro h
    exact ⟨fun f hf => h.functions hwrites hf,
      fun op hop other hother => h.proto hwrites hop hother,
      fun op hop hmax => h.newest_ordinary hwrites hnodup hop hmax⟩
  · exact mergeConverges_of_agree hwrites hnodup

/-! ## Orders of three ops -/

instance (op : ConflictInput) : Decidable (IsWrite op) :=
  decidable_of_iff (op.op ≠ .delete ∧ op.columns.keys ≠ [] ∧ "_row" ∉ op.columns ∧ IsPacked op.hlc)
    ⟨fun h => ⟨h.1, h.2.1, h.2.2.1, h.2.2.2⟩,
      fun h => ⟨h.notDelete, h.nonempty, h.noRow, h.packed⟩⟩

/-- Two clients seed a row, and one of them updates it. -/
def seedAndUpdate : List ConflictInput :=
  [rowOp .insert [("title", .str "a"), ("done", .bool false)] "1.0.a",
    rowOp .insert [("title", .str "b")] "2.0.b", rowOp .update [("done", .bool true)] "3.0.a"]

theorem mergeConverges_seedAndUpdate : MergeConverges seedAndUpdate :=
  (mergeConverges_iff (by decide +kernel) (by decide +kernel)).2
    ⟨by decide +kernel, by decide +kernel, by decide +kernel⟩

/-- The race a driver won has a column named `constructor`. -/
theorem not_mergeConverges_constructor :
    ¬ ∀ ops : List ConflictInput, (∀ op ∈ ops, IsWrite op) → (ops.map (·.hlc)).Nodup →
      MergeConverges ops := by
  intro h
  have hconverges := h [rowOp .insert [("driver", .str "a")] "1.0.a",
    rowOp .update [("constructor", .str "b")] "2.0.b"] (by decide +kernel) (by decide +kernel)
  -- The insert comes first, and the update of the column compares with an inherited function.
  have hvalue := hconverges.newest _ (.refl _) "constructor"
    (rowOp .update [("constructor", .str "b")] "2.0.b")
    ⟨by simp, by decide +kernel, by decide +kernel⟩
  exact absurd hvalue (by decide +kernel)

end Server
end Reflectdb
