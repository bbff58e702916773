import Mathlib.Data.Nat.Digits.Lemmas
import Reflectdb.Core.TextDiff
import Reflectdb.Sync.TextSync

/-!
# Text wire — the edits that bindings send, and what the server makes of them

On strings, of which the code sees every code unit, a diff turns the one text into the other.  So an
edit passes the checks of the server, whose base it leads back to, and the server arrives at the
text that the binding has sent.
-/

namespace Reflectdb
namespace Sync

open Core Client Lib

/-! ## Writer ids -/

def digit36 (d : Nat) : UInt16 :=
  ((if d < 10 then 48 else 87) + d).toUInt16

/-- `n.toString(36)` -/
def toString36 (n : Nat) : Lib.Text :=
  if n = 0 then [digit36 0] else (Nat.digits 36 n).reverse.map digit36

/-- The writer id of a client, from the wall clock and what `Math.random().toString(36)` gives. -/
def textWriterId (now : Nat) (random : Lib.Text) : Lib.Text :=
  toString36 now ++ 45 :: (random.drop 2).take 10

/-- The highest reading of `Date.now()`. -/
def MAX_NOW : Nat := 8640000000000000

theorem length_textWriterId_le {now : Nat} (h : now ≤ MAX_NOW) (random : Lib.Text) :
    (textWriterId now random).length ≤ 64 := by
  have hdigits : (Nat.digits 36 now).length ≤ 11 :=
    (Nat.digits_length_le_iff (by decide) now).2 (lt_of_le_of_lt h (by decide))
  have hnow : (toString36 now).length ≤ 11 := by
    rw [toString36]
    split
    · decide
    · simpa using hdigits
  have hrandom : ((random.drop 2).take 10).length ≤ 10 := List.length_take_le _ _
  simp only [textWriterId, List.length_append, List.length_cons]
  omega

/-! ## Edits -/

section Edits

variable {policy : Server.TextConflictPolicy} {b b' : TextBinding UInt16} {who : Lib.Text}
  {n : Nat} {column opId : String} {edit : TextEdit UInt16}

/-- On strings a diff is a round trip. -/
theorem applyHunks_diffText (prev next : List UInt16) :
    applyHunks prev (diffText id prev next) = next := by
  simpa using (diffText_spec id prev next).2

theorem flush_spec (h : b.flush id who n column opId = some (b', edit)) :
    edit = b.edit id who n column ∧ b'.sent = b.localText := by
  rw [TextBinding.flush] at h
  split at h
  · cases h
    exact ⟨rfl, rfl⟩
  · cases h

/-- The server takes the edits of a text column of its policy, and removals where the policy has a
column for them. -/
theorem isTextEdit_edit (hwho : who.length ≤ 64) (hcolumn : column ∈ policy.text)
    (hremove : b.removing = true → policy.softDeleteColumn.isSome) :
    isTextEdit policy (b.edit id who n column) = true := by
  rw [TextBinding.edit]
  split
  · rename_i hremoving
    have hsoft := hremove hremoving
    simp [isTextEdit, hwho, hcolumn, hsoft]
  · have hforward := (diffText_spec id b.localText b.shadow).1.forward
    simp [isTextEdit, hwho, hcolumn, hforward]

/-- A merge whose base is what is stored takes what is written. -/
theorem merge3_base (base next : List UInt16) : merge3 id base base next = next := by
  by_cases hsame : base = next
  · simp [merge3, sameText, hsame]
  · simp [merge3, sameText, hsame, Ne.symm hsame]

/-- The server that has the base has afterwards what the binding has sent. -/
theorem resolveText_edit {row : TextRow UInt16} (hwho : who.length ≤ 64)
    (hcolumn : column ∈ policy.text) (hedits : b.removing = false)
    (hbase : row.textOf column = b.shadow) :
    ∃ row', resolveText id policy row (b.edit id who n column) = some row' ∧
      row'.textOf column = b.localText := by
  have haccepted : isTextEdit policy (b.edit id who n column) = true :=
    isTextEdit_edit hwho hcolumn fun hremoving => by rw [hedits] at hremoving; cases hremoving
  rw [resolveText, if_pos haccepted]
  refine ⟨_, rfl, ?_⟩
  have hmerged :
      merge3 id b.shadow ((row.text.lookup column).getD []) b.localText = b.localText := by
    rw [← TextRow.textOf, hbase, merge3_base]
  simp [TextBinding.edit, hedits, mergeChange, applyHunks_diffText, TextRow.textOf, hmerged]

/-- Hunks of a diff are apart and turn the one string into the other; an edit that a flush builds
for a text column, and a removal for a policy that has a column for it, passes the checks; and an
edit of the text leads the server from the binding's base to what the binding has sent. -/
theorem edits_reconstruct :
    (∀ prev next : List UInt16, applyHunks prev (diffText id prev next) = next ∧
      Hunk.Spaced prev.length (diffText id prev next)) ∧
    ∀ (b b' : TextBinding UInt16) (now : Nat) (random : Lib.Text) (n : Nat) (column opId : String)
      (policy : Server.TextConflictPolicy) (edit : TextEdit UInt16), now ≤ MAX_NOW →
      b.flush id (textWriterId now random) n column opId = some (b', edit) →
      column ∈ policy.text → (b.removing = true → policy.softDeleteColumn.isSome) →
        isTextEdit policy edit = true ∧
          (b.removing = false → ∀ row : TextRow UInt16, row.textOf column = b.shadow →
            ∃ row', resolveText id policy row edit = some row' ∧ row'.textOf column = b'.sent) := by
  constructor
  · intro prev next
    exact ⟨applyHunks_diffText prev next, (diffText_spec id prev next).1⟩
  · intro b b' now random n column opId policy edit hnow hflush hcolumn hremove
    rcases flush_spec hflush with ⟨rfl, hsent⟩
    have hwho := length_textWriterId_le hnow random
    refine ⟨isTextEdit_edit hwho hcolumn hremove, fun hedits row hbase => ?_⟩
    rw [hsent]
    exact resolveText_edit hwho hcolumn hedits hbase

/-- A binding that has shown the text "ab", and what it does next. -/
def shown : TextBinding UInt16 :=
  { TextBinding.empty with shadow := [97, 98], localText := [97, 98], ready := true }

def shownRow : TextRow UInt16 :=
  ⟨(∅ : Record (List UInt16)).insert "text" [97, 98], false, []⟩

def textPolicy (softDelete : Option String) : Server.TextConflictPolicy :=
  ⟨["text"], softDelete⟩

/-- "ab" becomes "xab". -/
theorem edits_reconstruct_typed : ∃ row',
    resolveText id (textPolicy none) shownRow
      ((shown.set [120, 97, 98]).edit id (textWriterId 0 []) 1 "text") = some row' ∧
        row'.textOf "text" = [120, 97, 98] :=
  (edits_reconstruct.2 (shown.set [120, 97, 98]) _ 0 [] 1 "text" "op" (textPolicy none) _
    (by decide) rfl (by decide) (by decide)).2 rfl shownRow rfl

/-- A policy without a column for removals refuses one; and what is typed between a removal and its
flush is taken for sent, though the edit does not carry it. -/
theorem edits_reconstruct_removal :
    (∃ b', shown.remove.flush id (textWriterId 0 []) 1 "text" "op" =
        some (b', shown.remove.edit id (textWriterId 0 []) 1 "text") ∧
      isTextEdit (textPolicy none) (shown.remove.edit id (textWriterId 0 []) 1 "text") = false) ∧
    ∃ b' row', (shown.remove.set [120]).flush id (textWriterId 0 []) 1 "text" "op" =
        some (b', (shown.remove.set [120]).edit id (textWriterId 0 []) 1 "text") ∧
      resolveText id (textPolicy (some "deleted")) shownRow
        ((shown.remove.set [120]).edit id (textWriterId 0 []) 1 "text") = some row' ∧
      row'.textOf "text" ≠ b'.sent :=
  ⟨⟨_, rfl, by decide +kernel⟩, _, _, rfl, rfl, by decide +kernel⟩

end Edits

end Sync
end Reflectdb
