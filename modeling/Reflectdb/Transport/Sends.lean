import Reflectdb.Lib.Delivery

/-!
# Sends — what a transport has been given for a client, and what it still owes

The sends to a client are numbered from 0 on.  A transport owes the messages whose send resolved,
except those that were sent before a message by which the client has been told to start over.
-/

namespace Reflectdb
namespace Transport

structure TransportSendError where
  clientId : String
  message : String

/-- Shifts the oldest elements out of a list that is too long; says whether one of them is lost. -/
def shiftTo {α : Type} (max : Nat) (lost : α → Bool) : List α → List α × Bool
  | [] => ([], false)
  | dropped :: rest =>
    if max < (dropped :: rest).length then
      let (kept, anyLost) := shiftTo max lost rest
      (kept, lost dropped || anyLost)
    else (dropped :: rest, false)

theorem shiftTo_eq {α : Type} (max : Nat) (lost : α → Bool) (xs : List α) :
    shiftTo max lost xs = (xs.drop (xs.length - max), (xs.take (xs.length - max)).any lost) := by
  induction xs with
  | nil => simp [shiftTo]
  | cons dropped rest ih =>
      rw [shiftTo]
      split
      · rename_i hlong
        have hlength : (dropped :: rest).length - max = rest.length - max + 1 := by
          simp only [List.length_cons] at hlong ⊢
          omega
        rw [ih, hlength]
        simp
      · rename_i hshort
        have hlength : (dropped :: rest).length - max = 0 := by omega
        rw [hlength]
        simp

/-- A message with its place among the sends to its client. -/
structure Sent (M : Type) where
  serial : Nat
  message : M

/-- How many messages have been sent, and which sends resolved. -/
structure Sends where
  sent : Nat
  resolved : List Nat
  sorted : resolved.Pairwise (· < ·)
  bound : ∀ n ∈ resolved, n < sent

namespace Sends

def empty : Sends where
  sent := 0
  resolved := []
  sorted := .nil
  bound := by simp

def reject (sends : Sends) : Sends where
  sent := sends.sent + 1
  resolved := sends.resolved
  sorted := sends.sorted
  bound n hn := Nat.lt_succ_of_lt (sends.bound n hn)

def resolve (sends : Sends) : Sends where
  sent := sends.sent + 1
  resolved := sends.resolved ++ [sends.sent]
  sorted := by
    refine List.pairwise_append.2 ⟨sends.sorted, List.pairwise_singleton _ _, fun n hn m hm => ?_⟩
    rw [List.mem_singleton.1 hm]
    exact sends.bound n hn
  bound n hn := by
    rcases List.mem_append.1 hn with hold | hnew
    · exact Nat.lt_succ_of_lt (sends.bound n hold)
    · rw [List.mem_singleton.1 hnew]
      exact Nat.lt_succ_self _

/-- One more send, with what it has thrown. -/
def record (sends : Sends) : Option TransportSendError → Sends
  | none => sends.resolve
  | some _ => sends.reject

variable {M : Type} (startsOver : M → Bool)

/-- A later message has told the client to start over. -/
def excused (received : List (Sent M)) (n : Nat) : Bool :=
  received.any fun m => startsOver m.message && decide (n < m.serial)

def owed (sends : Sends) (received : List (Sent M)) : List Nat :=
  sends.resolved.filter fun n => !excused startsOver received n

variable {startsOver} {sends : Sends} {received arrived : List (Sent M)} {n : Nat}
  {error : Option TransportSendError}

@[simp] theorem sent_record : (sends.record error).sent = sends.sent + 1 := by
  cases error <;> rfl

theorem sorted_owed : (sends.owed startsOver received).Pairwise (· < ·) :=
  sends.sorted.filter _

theorem lt_of_mem_owed (h : n ∈ sends.owed startsOver received) : n < sends.sent :=
  sends.bound n (List.mem_of_mem_filter h)

/-- The latest message is owed iff its send resolved. -/
theorem owed_record (hbound : ∀ m ∈ received, m.serial ≤ sends.sent) :
    (sends.record error).owed startsOver received =
      sends.owed startsOver received ++ if error.isNone then [sends.sent] else [] := by
  have hlatest : excused startsOver received sends.sent = false := by
    refine List.any_eq_false.2 fun m hm => ?_
    simp [Nat.not_lt.2 (hbound m hm)]
  cases error with
  | some _ => simp [record, reject, owed]
  | none => simp [record, resolve, owed, hlatest]

theorem mem_owed_record (hbound : ∀ m ∈ received, m.serial ≤ sends.sent) :
    n ∈ (sends.record error).owed startsOver received ↔
      n ∈ sends.owed startsOver received ∨ n = sends.sent ∧ error = none := by
  rw [owed_record hbound, List.mem_append]
  cases error <;> simp

/-- What is owed once more has been received is what is left of what was owed before. -/
theorem owed_append : sends.owed startsOver (received ++ arrived) =
    (sends.owed startsOver received).filter fun n => !excused startsOver arrived n := by
  rw [owed, owed, List.filter_filter]
  refine List.filter_congr fun n _ => ?_
  rw [excused, excused, excused, List.any_append, Bool.not_or, Bool.and_comm]

/-- Nothing is owed later on that was not owed before. -/
theorem mem_owed_of_append (h : n ∈ sends.owed startsOver (received ++ arrived)) :
    n ∈ sends.owed startsOver received := by
  rw [owed_append] at h
  exact List.mem_of_mem_filter h

end Sends

end Transport
end Reflectdb
