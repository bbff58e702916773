import Reflectdb.Sync.TextWire

/-!
# Text removal — a removal of a row and an edit that it did not see

The server resolves both against the row as it is stored, one after the other, with the clocks of
the columns.  No clock decides anything here: a removal is for one text, and an edit brings the row
back.
-/

namespace Reflectdb
namespace Sync

open Core Client Lib

/-! ## Resolving against the stored row -/

/-- The row with its clocks, as the storage holds it. -/
structure StoredText where
  row : TextRow UInt16
  clocks : Record Hlc

namespace StoredText

variable (policy : Server.TextConflictPolicy) (hlc : Hlc) (stored : StoredText)

/-- The row is visible: a policy without a column for removals hides none. -/
def Present : Prop :=
  policy.softDeleteColumn.isSome → stored.row.deleted = false

instance : Decidable (stored.Present policy) :=
  inferInstanceAs (Decidable (_ → _))

/-- `stamp(column, merged)`: the clock stays where the column holds the text already. -/
def stampText (column : String) (merged : Lib.Text) : StoredText where
  row := { stored.row with text := stored.row.text.insert column merged }
  clocks :=
    if stored.row.text.lookup column = some merged then stored.clocks
    else stored.clocks.insert column hlc

/-- `if (policy.softDelete && row[policy.softDelete]) stamp(policy.softDelete, false)`. -/
def clearDeleted : StoredText :=
  match policy.softDeleteColumn with
  | some softDelete =>
    if stored.row.deleted then
      { row := { stored.row with deleted := false }
        clocks := stored.clocks.insert softDelete hlc }
    else stored
  | none => stored

def resolveChange (e : String × TextChange UInt16) : StoredText :=
  let merged := merge3 id (applyHunks e.2.value e.2.back) (stored.row.textOf e.1) e.2.value
  (stored.stampText hlc e.1 merged).clearDeleted policy hlc

def resolveRemoval (r : TextRemoval) : StoredText :=
  match policy.softDeleteColumn with
  | some softDelete =>
    if hashText id (stored.row.textOf r.column) = r.baseHash then
      { row := { stored.row with deleted := true }
        clocks := stored.clocks.insert softDelete hlc }
    else stored
  | none => stored

/-- `stamp(TEXT_SEEN_COLUMN, seen)`, and the clock of the row. -/
def stampSeen (who : Lib.Text) (n : Nat) : StoredText where
  row := { stored.row with seen := recordSeen stored.row.seen who n }
  clocks := (stored.clocks.insert Server.TEXT_SEEN_COLUMN hlc).insert "_row" hlc

/-- `resolveText` for an op that carries an edit only; `none` is a refusal. -/
def resolve (edit : TextEdit UInt16) : Option StoredText :=
  if isTextEdit policy edit then
    let merged := edit.edits.foldl (resolveChange policy hlc) stored
    let removed := edit.remove.elim merged (merged.resolveRemoval policy hlc)
    some (removed.stampSeen hlc edit.who edit.n)
  else none

/-- Ops one after the other; a refused one leaves the row as it is. -/
def resolveAll (ops : List (TextEdit UInt16 × Hlc)) : StoredText :=
  ops.foldl (fun stored op => (stored.resolve policy op.2 op.1).getD stored) stored

/-! ## The row under its clocks -/

variable {policy} {hlc} {stored}

theorem row_resolveChange (e : String × TextChange UInt16) :
    (stored.resolveChange policy hlc e).row = mergeChange id policy stored.row e.1 e.2 := by
  unfold resolveChange clearDeleted mergeChange stampText
  cases policy.softDeleteColumn with
  | none => simp
  | some softDelete =>
      cases hdeleted : stored.row.deleted with
      | false => simp [hdeleted]
      | true => simp [hdeleted]

theorem row_resolveRemoval (r : TextRemoval) :
    (stored.resolveRemoval policy hlc r).row = applyRemoval id policy stored.row r := by
  unfold resolveRemoval applyRemoval
  cases policy.softDeleteColumn with
  | none => simp
  | some softDelete =>
      by_cases hhash : hashText id (stored.row.textOf r.column) = r.baseHash
      · simp [hhash]
      · simp [hhash]

theorem row_resolveChanges (edits : List (String × TextChange UInt16)) :
    (edits.foldl (resolveChange policy hlc) stored).row =
      edits.foldl (fun row e => mergeChange id policy row e.1 e.2) stored.row := by
  induction edits generalizing stored with
  | nil => rfl
  | cons e edits ih =>
      rw [List.foldl_cons, List.foldl_cons, ih, row_resolveChange]

/-- Whatever the clocks are, the row becomes what `resolveText` makes of it. -/
theorem row_resolve (edit : TextEdit UInt16) :
    (stored.resolve policy hlc edit).map (·.row) = resolveText id policy stored.row edit := by
  unfold resolve resolveText
  split
  · cases edit.remove with
    | none => simp [stampSeen, row_resolveChanges]
    | some r => simp [stampSeen, row_resolveChanges, row_resolveRemoval]
  · rfl

end StoredText

/-! ## One edit, one removal -/

section Resolve

variable {policy : Server.TextConflictPolicy} {row row' : TextRow UInt16} {edit : TextEdit UInt16}

/-- `e` is what a client makes of typing: texts, each with its base, and no removal. -/
structure EditsTexts (policy : Server.TextConflictPolicy) (e : TextEdit UInt16) : Prop where
  accepted : isTextEdit policy e = true
  /-- The columns are the keys of an object. -/
  nodup : (e.edits.map (·.1)).Nodup
  noRemoval : e.remove = none

/-- `r` removes the row if the column has the text `base` still. -/
structure RemovesText (column : String) (base : Lib.Text) (r : TextEdit UInt16) : Prop where
  noEdits : r.edits = []
  remove : r.remove = some ⟨column, hashText id base⟩

/-- What the column has after an edit. -/
def mergedText (row : TextRow UInt16) (column : String) (change : TextChange UInt16) : Lib.Text :=
  merge3 id (applyHunks change.value change.back) (row.textOf column) change.value

theorem textOf_mergeChanges_of_notMem {column : String} :
    ∀ (edits : List (String × TextChange UInt16)) (row : TextRow UInt16),
      column ∉ edits.map (·.1) →
        (edits.foldl (fun row e => mergeChange id policy row e.1 e.2) row).textOf column =
          row.textOf column := by
  intro edits
  induction edits with
  | nil => exact fun _ _ => rfl
  | cons e edits ih =>
      intro row hcolumn
      rw [List.map_cons, List.mem_cons, not_or] at hcolumn
      rw [List.foldl_cons, ih _ hcolumn.2, textOf_mergeChange, if_neg hcolumn.1]

/-- Each column of an edit is merged by itself. -/
theorem textOf_mergeChanges {column : String} {change : TextChange UInt16} :
    ∀ (edits : List (String × TextChange UInt16)) (row : TextRow UInt16),
      (edits.map (·.1)).Nodup → (column, change) ∈ edits →
        (edits.foldl (fun row e => mergeChange id policy row e.1 e.2) row).textOf column =
          mergedText row column change := by
  intro edits
  induction edits with
  | nil => exact fun _ _ hmem => absurd hmem List.not_mem_nil
  | cons e edits ih =>
      intro row hnodup hmem
      rw [List.map_cons, List.nodup_cons] at hnodup
      rw [List.foldl_cons]
      rcases List.mem_cons.1 hmem with rfl | hmem
      · rw [textOf_mergeChanges_of_notMem _ _ hnodup.1, textOf_mergeChange, if_pos rfl, mergedText]
      · have hkey : column ∈ edits.map (·.1) := List.mem_map.2 ⟨_, hmem, rfl⟩
        have hne : column ≠ e.1 := fun heq => hnodup.1 (heq ▸ hkey)
        rw [ih _ hnodup.2 hmem, mergedText, mergedText, textOf_mergeChange, if_neg hne]

/-- An edit of a text brings the row back. -/
theorem deleted_mergeChanges (edits : List (String × TextChange UInt16)) (row : TextRow UInt16) :
    (edits.foldl (fun row e => mergeChange id policy row e.1 e.2) row).deleted =
      (row.deleted && (edits.isEmpty || policy.softDeleteColumn.isNone)) := by
  induction edits generalizing row with
  | nil => simp
  | cons e edits ih =>
      rw [List.foldl_cons, ih]
      cases hsoft : policy.softDeleteColumn with
      | none => simp [mergeChange, hsoft]
      | some softDelete => simp [mergeChange, hsoft]

/-- A removal leaves every text as it is, and hides the row just where the column has a text with
the hash of the one it is for. -/
theorem applyRemoval_spec (row : TextRow UInt16) (r : TextRemoval) :
    (applyRemoval id policy row r).text = row.text ∧
      (applyRemoval id policy row r).deleted =
        (row.deleted || (policy.softDeleteColumn.isSome &&
          decide (hashText id (row.textOf r.column) = r.baseHash))) := by
  unfold applyRemoval
  split
  · rename_i hremoves
    simp [hremoves.1, hremoves.2]
  · rename_i hkept
    rw [not_and] at hkept
    cases hsoft : policy.softDeleteColumn.isSome with
    | false => simp
    | true => simp [hkept hsoft]

/-- An edit is never refused, has each of its texts merged and leaves the row visible. -/
theorem resolveText_editsTexts (h : EditsTexts policy edit) (hsome : edit.edits ≠ []) :
    ∃ row', resolveText id policy row edit = some row' ∧
      (∀ column change, (column, change) ∈ edit.edits →
        row'.textOf column = mergedText row column change) ∧
      (policy.softDeleteColumn.isSome → row'.deleted = false) := by
  rw [resolveText, if_pos h.accepted, h.noRemoval]
  refine ⟨_, rfl, fun column change hmem => ?_, fun hsoft => ?_⟩
  · exact textOf_mergeChanges _ _ h.nodup hmem
  · have hdeleted := @deleted_mergeChanges policy edit.edits row
    rw [List.isEmpty_eq_false_iff.2 hsome] at hdeleted
    cases hcolumn : policy.softDeleteColumn with
    | none => simp [hcolumn] at hsoft
    | some softDelete => simpa [hcolumn] using hdeleted

/-- A removal changes no text.  Where it is not refused, it hides the row just if the column has a
text with the hash of the one that it is for. -/
theorem resolveText_removesText {column : String} {base : Lib.Text}
    (h : RemovesText column base edit) :
    ((resolveText id policy row edit).getD row).text = row.text ∧
      ((resolveText id policy row edit).getD row).deleted =
        (row.deleted || (isTextEdit policy edit &&
          decide (hashText id (row.textOf column) = hashText id base))) := by
  unfold resolveText
  split
  · rename_i haccepted
    have hsoft : policy.softDeleteColumn.isSome = true := by
      have hvalid := haccepted
      simp only [isTextEdit, h.remove, Option.mem_some_iff, forall_eq', decide_eq_true_eq] at hvalid
      exact hvalid.2.2.2
    have hremoval := @applyRemoval_spec policy row ⟨column, hashText id base⟩
    rw [h.noEdits, h.remove]
    simp only [List.foldl_nil, Option.elim_some, Option.getD_some]
    refine ⟨hremoval.1, ?_⟩
    rw [hremoval.2, hsoft, haccepted]
  · rename_i hrefused
    simp [Bool.eq_false_iff.2 hrefused]

end Resolve

/-! ## Both orders -/

section Orders

variable (policy : Server.TextConflictPolicy) (stored : StoredText) (e r : TextEdit UInt16)
  (he hr : Hlc) {column : String} {base : Lib.Text}

/-- The row after an op, whatever its HLC is. -/
theorem row_resolveOne (edit : TextEdit UInt16) (hlc : Hlc) :
    (stored.resolveAll policy [(edit, hlc)]).row =
      (resolveText id policy stored.row edit).getD stored.row := by
  have hrow := @StoredText.row_resolve policy hlc stored edit
  simp only [StoredText.resolveAll, List.foldl_cons, List.foldl_nil]
  cases hresolved : stored.resolve policy hlc edit with
  | none =>
      rw [hresolved] at hrow
      simp [← hrow]
  | some resolved =>
      rw [hresolved] at hrow
      simp [← hrow]

theorem resolveAll_pair (op op' : TextEdit UInt16 × Hlc) :
    stored.resolveAll policy [op, op'] =
      (stored.resolveAll policy [op]).resolveAll policy [op'] :=
  rfl

/-- The text that an edit of it arrives at, from the one it was made on. -/
theorem mergedText_base {row : TextRow UInt16} {change : TextChange UInt16}
    (hbase : applyHunks change.value change.back = row.textOf column) :
    mergedText row column change = change.value := by
  rw [mergedText, hbase, merge3_base]

theorem mergedText_congr {row row' : TextRow UInt16} (h : row'.text = row.text)
    (c : String) (change : TextChange UInt16) :
    mergedText row' c change = mergedText row c change := by
  rw [mergedText, mergedText, TextRow.textOf, TextRow.textOf, h]

/-- An edit and a removal, resolved in either order and with whatever HLCs, leave the row visible
with the texts of the edit merged, if the text that the edit arrives at has another hash than the
one that the removal was made on; and a removal hides the row just where the text has the hash of
that one. -/
theorem edit_survives_removal {change : TextChange UInt16} (hedit : EditsTexts policy e)
    (hremoval : RemovesText column base r) (hchange : (column, change) ∈ e.edits)
    (hhash : hashText id base ≠ hashText id (mergedText stored.row column change)) :
    (∀ ops ∈ [[(e, he), (r, hr)], [(r, hr), (e, he)]],
      (stored.resolveAll policy ops).Present policy ∧
        ∀ c change', (c, change') ∈ e.edits →
          (stored.resolveAll policy ops).row.textOf c = mergedText stored.row c change') ∧
    ∀ current : StoredText,
      (current.resolveAll policy [(r, hr)]).row.text = current.row.text ∧
        (current.resolveAll policy [(r, hr)]).row.deleted =
          (current.row.deleted || (isTextEdit policy r &&
            decide (hashText id (current.row.textOf column) = hashText id base))) := by
  have hsome : e.edits ≠ [] := List.ne_nil_of_mem hchange
  have hremoves : ∀ current : StoredText,
      (current.resolveAll policy [(r, hr)]).row.text = current.row.text ∧
        (current.resolveAll policy [(r, hr)]).row.deleted =
          (current.row.deleted || (isTextEdit policy r &&
            decide (hashText id (current.row.textOf column) = hashText id base))) := by
    intro current
    rw [row_resolveOne]
    exact resolveText_removesText hremoval
  have hedits : ∀ current : StoredText,
      (∀ c change', (c, change') ∈ e.edits →
        (current.resolveAll policy [(e, he)]).row.textOf c = mergedText current.row c change') ∧
      (current.resolveAll policy [(e, he)]).Present policy := by
    intro current
    rcases @resolveText_editsTexts policy current.row e hedit hsome with ⟨row', hrow', hspec⟩
    rw [StoredText.Present, row_resolveOne, hrow', Option.getD_some]
    exact hspec
  refine ⟨fun ops hops => ?_, hremoves⟩
  rcases List.mem_pair.1 hops with rfl | rfl
  · -- The removal comes to a text that is not the one it is for.
    rw [resolveAll_pair]
    have htexts := hedits stored
    have hafter := hremoves (stored.resolveAll policy [(e, he)])
    have hother : ¬ hashText id ((stored.resolveAll policy [(e, he)]).row.textOf column) =
        hashText id base := by
      rw [htexts.1 column change hchange]
      exact Ne.symm hhash
    refine ⟨fun hsoft => ?_, fun c change' hmem => ?_⟩
    · rw [hafter.2, htexts.2 hsoft]
      simp [hother]
    · rw [TextRow.textOf, hafter.1]
      exact htexts.1 c change' hmem
  · -- The edit comes to the texts as they were stored, and brings the row back.
    rw [resolveAll_pair]
    have htexts := hedits (stored.resolveAll policy [(r, hr)])
    refine ⟨htexts.2, fun c change' hmem => ?_⟩
    rw [htexts.1 c change' hmem, mergedText_congr (hremoves stored).1]

end Orders

/-! ## What bindings send -/

section Bindings

variable {policy : Server.TextConflictPolicy} {b : TextBinding UInt16} {who : Lib.Text} {n : Nat}
  {column : String}

theorem editsTexts_edit (hwho : who.length ≤ 64) (hcolumn : column ∈ policy.text)
    (hedits : b.removing = false) : EditsTexts policy (b.edit id who n column) where
  accepted := isTextEdit_edit hwho hcolumn fun hremoving => by
    rw [hedits] at hremoving
    cases hremoving
  nodup := by simp [TextBinding.edit, hedits]
  noRemoval := by simp [TextBinding.edit, hedits]

theorem removesText_edit (hremoving : b.removing = true) :
    RemovesText column b.shadow (b.edit id who n column) where
  noEdits := by simp [TextBinding.edit, hremoving]
  remove := by simp [TextBinding.edit, hremoving]

/-- Two clients show "ab"; the one types an x in front of it, the other removes the row. -/
def typedEdit : TextEdit UInt16 :=
  (shown.set [120, 97, 98]).edit id (textWriterId 0 []) 1 "text"

def removalEdit : TextEdit UInt16 :=
  shown.remove.edit id (textWriterId 1 []) 1 "text"

theorem edit_survives_removal_typed :
    ((⟨shownRow, ∅⟩ : StoredText).resolveAll (textPolicy (some "deleted"))
        [(typedEdit, "1.0.a"), (removalEdit, "2.0.b")]).row.textOf "text" = [120, 97, 98] ∧
      ((⟨shownRow, ∅⟩ : StoredText).resolveAll (textPolicy (some "deleted"))
        [(removalEdit, "2.0.b"), (typedEdit, "1.0.a")]).row.textOf "text" = [120, 97, 98] := by
  have hedit : EditsTexts (textPolicy (some "deleted")) typedEdit :=
    editsTexts_edit (length_textWriterId_le (by decide) []) (List.mem_singleton_self _) rfl
  have hremoval : RemovesText "text" shown.remove.shadow removalEdit := removesText_edit rfl
  have hsurvives := edit_survives_removal (textPolicy (some "deleted")) ⟨shownRow, ∅⟩ typedEdit
    removalEdit "1.0.a" "2.0.b" hedit hremoval (List.mem_singleton_self _) (by decide +kernel)
  constructor
  · rw [(hsurvives.1 _ (List.mem_pair.2 (Or.inl rfl))).2 "text" _ (List.mem_singleton_self _)]
    exact mergedText_base (applyHunks_diffText [120, 97, 98] [97, 98])
  · rw [(hsurvives.1 _ (List.mem_pair.2 (Or.inr rfl))).2 "text" _ (List.mem_singleton_self _)]
    exact mergedText_base (applyHunks_diffText [120, 97, 98] [97, 98])

end Bindings

end Sync
end Reflectdb
