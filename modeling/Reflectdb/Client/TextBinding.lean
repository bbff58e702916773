import Reflectdb.Core.Text
import Reflectdb.Core.Types

/-!
# Text binding — one text column of one row, as something to type into

A binding holds the server's text as it knows it (`shadow`), what is typed (`localText`), and what
the edit in flight has sent.  One edit is in flight at a time; the row's marks say when the row's
text includes it, and only then is the text merged into what was typed since.
-/

namespace Reflectdb
namespace Client

open Core

def MAX_RETRIES : Nat := 5

/-- The reason of a reject; the text policy has one of its own. -/
inductive TextRefusal
  | op (reason : ErrorReason)
  | validationFailed
  deriving DecidableEq

/-- `RETRYABLE`. -/
def TextRefusal.retryable : TextRefusal → Bool
  | .op reason => reason ∈ [.rateLimited, .bufferFull, .serverError]
  | .validationFailed => false

structure TextBinding (γ : Type) where
  shadow : List γ
  localText : List γ
  sent : List γ
  /-- The number of the edit in flight, or 0. -/
  flight : Nat
  opId : Option String
  retries : Nat
  /-- Whether the row has arrived. -/
  ready : Bool
  removing : Bool

/-- What a binding reads of the row: the text of its column, and the mark of its writer. -/
structure TextView (γ : Type) where
  server : List γ
  seen : Nat

namespace TextBinding

variable {γ : Type} (unit : γ → UInt16)

def empty : TextBinding γ :=
  ⟨[], [], [], 0, none, 0, false, false⟩

def set (b : TextBinding γ) (next : List γ) : TextBinding γ :=
  { b with localText := next }

/-- Unsent typing is dropped. -/
def remove (b : TextBinding γ) : TextBinding γ :=
  { b with removing := true, localText := b.shadow }

/-- Whether a flush does something. -/
def sends (b : TextBinding γ) : Bool :=
  b.flight = 0 ∧ b.ready ∧ (b.removing ∨ ! sameText unit b.localText b.shadow)

/-- The edit that a flush sends. -/
def edit (b : TextBinding γ) (who : Lib.Text) (n : Nat) (column : String) : TextEdit γ :=
  if b.removing then ⟨who, n, [], some ⟨column, hashText unit b.shadow⟩⟩
  else ⟨who, n, [(column, ⟨b.localText, diffText unit b.localText b.shadow⟩)], none⟩

/-- `flush`, with the next number of the client and the id of the op that carries the edit. -/
def flush (b : TextBinding γ) (who : Lib.Text) (n : Nat) (column opId : String) :
    Option (TextBinding γ × TextEdit γ) :=
  if b.sends unit then
    some ({ b with removing := false, flight := n, sent := b.localText, opId := some opId },
      b.edit unit who n column)
  else none

/-- The text that `pump` merges on, if it merges: what was sent by the edit it settles, else the
shadow. -/
def mergeBase (b : TextBinding γ) (view : TextView γ) : Option (List γ) :=
  if b.ready then
    if b.flight ≠ 0 ∧ view.seen < b.flight then none
    else
      let base := if b.flight ≠ 0 then b.sent else b.shadow
      if ! sameText unit view.server b.shadow || ! sameText unit base view.server then some base
      else none
  else if sameText unit b.localText b.shadow then none
  else some b.shadow

/-- Whether `pump` takes the edit in flight for merged. -/
def settles (b : TextBinding γ) (view : TextView γ) : Bool :=
  b.ready ∧ b.flight ≠ 0 ∧ b.flight ≤ view.seen

/-- `pump` where the store has the row. -/
def pumpRow (b : TextBinding γ) (view : TextView γ) : TextBinding γ :=
  if b.ready then
    if b.flight ≠ 0 ∧ view.seen < b.flight then b
    else
      let settled : TextBinding γ :=
        { b with flight := 0, opId := none, retries := if b.flight ≠ 0 then 0 else b.retries }
      match b.mergeBase unit view with
      | some base =>
        { settled with
          localText := merge3 unit base view.server b.localText
          shadow := view.server }
      | none => settled
  else
    -- What was typed before the row arrived goes on top of it.
    { b with
      ready := true
      localText := match b.mergeBase unit view with
        | some base => merge3 unit base view.server b.localText
        | none => view.server
      shadow := view.server }

/-- `pump` where the store does not have the row. -/
def pumpAbsent (b : TextBinding γ) : TextBinding γ :=
  { b with ready := false, flight := 0 }

def onRejected (b : TextBinding γ) (opId : String) (reason : TextRefusal) : TextBinding γ :=
  if b.opId ≠ some opId then b
  else if reason.retryable && b.retries < MAX_RETRIES then
    { b with flight := 0, opId := none, retries := b.retries + 1 }
  else
    { b with flight := 0, opId := none, retries := 0, localText := b.shadow }

end TextBinding

end Client
end Reflectdb
