import Mathlib.Logic.Function.Basic
import Reflectdb.Client.TextBinding
import Reflectdb.Lib.Machine
import Reflectdb.Server.Conflict

/-!
# Text sync — bindings of any number of clients on one row

Each binding types into one text column of the row.  Its edits travel as ops; the server merges them
in any order, or refuses them, and the client hears of a refusal later or never.  What a client's
store shows of the row comes from the server's versions of it: the text of a column and the marks
may come from different versions, and may go back, so that every order of deltas is covered.

The characters have an identity that the code does not see.  `typed` are the characters that
bindings inserted, with their columns; `dropped` are those that a binding took out of its text
again: deleted ones, and those a removal or a refusal puts back.
-/

namespace Reflectdb
namespace Sync

open Core Client

/-! ## The row -/

/-- The row at the server, as far as text edits go. -/
structure TextRow (γ : Type) where
  text : Record (List γ)
  deleted : Bool
  /-- `_seen`, in the order of its keys. -/
  seen : List (Lib.Text × Nat)

namespace TextRow

variable {γ : Type}

/-- `typeof row[column] === "string" ? row[column] : ""`. -/
def textOf (row : TextRow γ) (column : String) : List γ :=
  (row.text.lookup column).getD []

/-- `row._seen?.[who] ?? 0`. -/
def mark (row : TextRow γ) (who : Lib.Text) : Nat :=
  (row.seen.lookup who).getD 0

end TextRow

section resolveText

variable {γ : Type} (unit : γ → UInt16) (policy : Server.TextConflictPolicy)

/-- `isTextEdit`. -/
def isTextEdit (edit : TextEdit γ) : Bool :=
  edit.who.length ≤ 64 ∧
    (∀ e ∈ edit.edits, e.1 ∈ policy.text ∧ Lib.Hunk.Forward e.2.value.length 0 e.2.back) ∧
      ∀ r ∈ edit.remove, r.column ∈ policy.text ∧ policy.softDeleteColumn.isSome

/-- One column of an edit. -/
def mergeChange (row : TextRow γ) (column : String) (change : TextChange γ) : TextRow γ :=
  { row with
    text := row.text.insert column
      (merge3 unit (applyHunks change.value change.back) (row.textOf column) change.value)
    deleted := row.deleted && policy.softDeleteColumn.isNone }

/-- A remove that did not see the latest text does nothing. -/
def applyRemoval (row : TextRow γ) (r : TextRemoval) : TextRow γ :=
  if policy.softDeleteColumn.isSome ∧ hashText unit (row.textOf r.column) = r.baseHash then
    { row with deleted := true }
  else row

/-- The marks with one of them set, which comes last; the oldest go. -/
def recordSeen (seen : List (Lib.Text × Nat)) (who : Lib.Text) (n : Nat) :
    List (Lib.Text × Nat) :=
  let seen := seen.filter (fun e => e.1 ≠ who) ++ [(who, n)]
  seen.drop (seen.length - TEXT_SEEN_LIMIT)

/-- `resolveText` for an op that carries an edit only; `none` is a refusal. -/
def resolveText (row : TextRow γ) (edit : TextEdit γ) : Option (TextRow γ) :=
  if isTextEdit policy edit then
    let merged := edit.edits.foldl (fun row e => mergeChange unit policy row e.1 e.2) row
    let removed := edit.remove.elim merged (applyRemoval unit policy merged)
    some { removed with seen := recordSeen removed.seen edit.who edit.n }
  else none

theorem textOf_mergeChange (row : TextRow γ) (column : String) (change : TextChange γ)
    (c : String) :
    (mergeChange unit policy row column change).textOf c =
      if c = column then
        merge3 unit (applyHunks change.value change.back) (row.textOf column) change.value
      else row.textOf c := by
  by_cases hc : c = column
  · subst hc
    simp [mergeChange, TextRow.textOf]
  · simp [mergeChange, TextRow.textOf, hc, AList.lookup_insert_ne]

end resolveText

/-! ## Runs -/

/-- Which client a binding belongs to and which column it types into; the row's first text, of
different characters. -/
structure TextConfig (γ ι : Type) where
  unit : γ → UInt16
  policy : Server.TextConflictPolicy
  writer : ι → Lib.Text
  column : ι → String
  seed : Record (List γ)
  seed_nodup : (seed.entries.flatMap (·.2)).Nodup

/-- An op on its way to the server. -/
structure TextOp (γ : Type) where
  id : String
  edit : TextEdit γ

structure TextState (γ ι : Type) where
  bindings : ι → TextBinding γ
  /-- `textWrites` of each client. -/
  writes : Lib.Text → Nat
  wire : List (TextOp γ)
  row : TextRow γ
  /-- The versions of the row, the last one included. -/
  versions : List (TextRow γ)
  merged : List String
  refused : List (String × TextRefusal)
  opIds : List String
  /-- The ops that a binding took for merged. -/
  settled : List String
  typed : List (String × γ)
  dropped : List γ

inductive TextEvent (γ ι : Type)
  | set (b : ι) (next : List γ)
  | remove (b : ι)
  | flush (b : ι) (opId : String)
  /-- A write of the client's bindings on other rows. -/
  | otherWrite (who : Lib.Text)
  /-- The server resolves the op. -/
  | resolve (opId : String)
  /-- The server refuses the op before it resolves it. -/
  | refuse (opId : String) (reason : TextRefusal)
  | rejected (b : ι) (opId : String) (reason : TextRefusal)
  /-- The store shows the text of version `i` and the marks of version `j`. -/
  | pump (b : ι) (i j : Nat)
  | pumpAbsent (b : ι)

section Machine

variable {γ ι : Type} [DecidableEq γ] [DecidableEq ι] (cfg : TextConfig γ ι)

namespace TextState

variable (s : TextState γ ι)

def update (b : ι) (binding : TextBinding γ) : TextState γ ι :=
  { s with bindings := Function.update s.bindings b binding }

/-- No text has had the character yet. -/
def Fresh (t : γ) : Prop :=
  ∀ e ∈ s.typed, e.2 ≠ t

instance (t : γ) : Decidable (s.Fresh t) :=
  inferInstanceAs (Decidable (∀ _ ∈ _, _))

/-- `next` keeps characters of the old text and has new ones, each once. -/
def Types (old next : List γ) : Prop :=
  ∀ t ∈ next, next.count t ≤ old.count t ∨ s.Fresh t ∧ next.count t = 1

instance (old next : List γ) : Decidable (s.Types old next) :=
  inferInstanceAs (Decidable (∀ _ ∈ _, _))

/-- What the store shows a binding of two versions. -/
def view (b : ι) (i j : Nat) : Option (TextView γ) :=
  match s.versions[i]?, s.versions[j]? with
  | some shown, some marked => some ⟨shown.textOf (cfg.column b), marked.mark (cfg.writer b)⟩
  | _, _ => none

/-- The characters of the binding's text that are not in its next one are dropped. -/
def drop (b : ι) (next : List γ) : List γ :=
  s.dropped ++ (s.bindings b).localText.filter (· ∉ next)

end TextState

def seedRow : TextRow γ :=
  ⟨cfg.seed, false, []⟩

def textStart : TextState γ ι where
  bindings := fun _ => .empty
  writes := fun _ => 0
  wire := []
  row := seedRow cfg
  versions := [seedRow cfg]
  merged := []
  refused := []
  opIds := []
  settled := []
  typed := cfg.seed.entries.flatMap fun e => e.2.map fun t => (e.1, t)
  dropped := []

def textStep (s : TextState γ ι) : TextEvent γ ι → Option (TextState γ ι)
  | .set b next =>
    let old := (s.bindings b).localText
    if s.Types old next then
      some { s.update b ((s.bindings b).set next) with
        typed := s.typed ++ ((next.filter (· ∉ old)).map fun t => (cfg.column b, t))
        dropped := s.drop b next }
    else none
  | .remove b =>
    some { s.update b (s.bindings b).remove with dropped := s.drop b (s.bindings b).shadow }
  | .flush b opId =>
    let who := cfg.writer b
    let n := s.writes who + 1
    match (s.bindings b).flush cfg.unit who n (cfg.column b) opId with
    | some (binding, edit) =>
      if opId ∈ s.opIds then none
      else
        some { s.update b binding with
          writes := Function.update s.writes who n
          wire := s.wire ++ [⟨opId, edit⟩]
          opIds := opId :: s.opIds }
    | none => some s
  | .otherWrite who => some { s with writes := Function.update s.writes who (s.writes who + 1) }
  | .resolve opId =>
    match s.wire.find? (·.id = opId) with
    | some op =>
      let wire := s.wire.filter (·.id ≠ opId)
      match resolveText cfg.unit cfg.policy s.row op.edit with
      | some row =>
        some { s with
          wire := wire, row := row, versions := s.versions ++ [row], merged := opId :: s.merged }
      | none => some { s with wire := wire, refused := (opId, .validationFailed) :: s.refused }
    | none => none
  | .refuse opId reason =>
    if s.wire.any (·.id = opId) then
      some { s with
        wire := s.wire.filter (·.id ≠ opId), refused := (opId, reason) :: s.refused }
    else none
  | .rejected b opId reason =>
    if (opId, reason) ∈ s.refused then
      let binding := (s.bindings b).onRejected opId reason
      some { s.update b binding with dropped := s.drop b binding.localText }
    else none
  | .pump b i j =>
    match s.view cfg b i j with
    | some view =>
      some { s.update b ((s.bindings b).pumpRow cfg.unit view) with
        settled := if (s.bindings b).settles view then
            s.settled ++ (s.bindings b).opId.toList
          else s.settled }
    | none => none
  | .pumpAbsent b => some (s.update b (s.bindings b).pumpAbsent)

def textMachine : Lib.Machine (TextState γ ι) (TextEvent γ ι) :=
  ⟨textStart cfg, textStep cfg⟩

end Machine

end Sync
end Reflectdb
