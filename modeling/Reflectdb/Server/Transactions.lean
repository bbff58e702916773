import Reflectdb.Lib.Machine
import Reflectdb.Lib.OrderedSet
import Reflectdb.Lib.TxLog

/-!
# Transactions — `server.tx` beside the other writers of a database handle

A call of `server.tx` sends BEGIN, runs the caller's function, sends COMMIT or ROLLBACK and notifies
the tables that the function touched.  Other calls, mutate callbacks and REST handlers execute their
statements on the same handle in between.
-/

namespace Reflectdb
namespace Server

open Lib

/-! ## The machine -/

inductive Writer
  | tx (call : Nat)
  /-- A mutate callback or a REST handler, one for each statement; a call with `atomic: false` sends
  no BEGIN either. -/
  | single (task : Nat)
  deriving DecidableEq

inductive TxPhase
  | starting
  | running
  | committing
  | rollingBack
  | notifying (tables : List String)
  | resolved
  /-- BEGIN failed, or the transaction was rolled back. -/
  | rejected
  /-- A notification failed after the commit. -/
  | unnotified
  deriving DecidableEq

/-- A call of `server.tx` with `atomic: true`. -/
structure TxCall (σ : Type) where
  touched : List String
  phase : TxPhase
  /-- What the function executed, and the tables that were notified.  No step reads them. -/
  wrote : List σ
  notified : List String

/-- Between BEGIN and COMMIT or ROLLBACK. -/
def TxPhase.inside : TxPhase → Bool
  | running => true
  | committing => true
  | rollingBack => true
  | _ => false

structure TxRun (σ : Type) where
  db : TxLog Nat Writer σ
  calls : List (TxCall σ)
  /-- The statements of single writers, and those that were acknowledged.  No step reads the
  second. -/
  singles : List (Executed Nat Writer σ)
  acknowledged : List (Executed Nat Writer σ)

inductive TxEvent (σ : Type)
  | call
  | begin (i : Nat)
  /-- There is no adapter, or BEGIN or COMMIT or a notification fails. -/
  | fail (i : Nat)
  /-- The function calls `insert`, `update`, `delete` or `touch`. -/
  | touch (i : Nat) (table : String)
  | write (i : Nat) (statement : σ)
  | return_ (i : Nat)
  | throw (i : Nat)
  | commit (i : Nat)
  | rollback (i : Nat)
  | notify (i : Nat)
  | single (statement : σ)
  | acknowledge (task : Nat)

namespace TxRun

variable {σ : Type} (s : TxRun σ)

def start : TxRun σ :=
  ⟨.empty, [], [], []⟩

def setCall (i : Nat) (call : TxCall σ) : TxRun σ :=
  { s with calls := s.calls.set i call }

def begin (i : Nat) (call : TxCall σ) : Option (TxRun σ) :=
  match call.phase with
  | .starting =>
    match s.db.begin i with
    | some db => some ({ s with db := db }.setCall i { call with phase := .running })
    | none => some (s.setCall i { call with phase := .rejected })
  | _ => none

def fail (i : Nat) (call : TxCall σ) : Option (TxRun σ) :=
  match call.phase with
  | .starting => some (s.setCall i { call with phase := .rejected })
  | .committing => some (s.setCall i { call with phase := .rollingBack })
  | .notifying _ => some (s.setCall i { call with phase := .unnotified })
  | _ => none

/-- What the caller's function does while it runs. -/
def run (i : Nat) (call : TxCall σ) (next : TxCall σ) : Option (TxRun σ) :=
  if call.phase = .running then some (s.setCall i next) else none

def write (i : Nat) (call : TxCall σ) (statement : σ) : Option (TxRun σ) :=
  { s with db := s.db.execute (.tx i) statement }.run i call
    { call with wrote := call.wrote ++ [statement] }

def commit (i : Nat) (call : TxCall σ) : Option (TxRun σ) :=
  match call.phase with
  | .committing =>
    match s.db.commit with
    | some db => some ({ s with db := db }.setCall i { call with phase := .notifying call.touched })
    | none => some (s.setCall i { call with phase := .rollingBack })
  | _ => none

def rollback (i : Nat) (call : TxCall σ) : Option (TxRun σ) :=
  match call.phase with
  | .rollingBack =>
    some ({ s with db := s.db.rollback.getD s.db }.setCall i { call with phase := .rejected })
  | _ => none

def notify (i : Nat) (call : TxCall σ) : Option (TxRun σ) :=
  match call.phase with
  | .notifying (table :: tables) =>
    some (s.setCall i
      { call with phase := .notifying tables, notified := call.notified ++ [table] })
  | .notifying [] => some (s.setCall i { call with phase := .resolved })
  | _ => none

def step : TxEvent σ → Option (TxRun σ)
  | .call => some { s with calls := s.calls ++ [⟨[], .starting, [], []⟩] }
  | .begin i => s.calls[i]?.bind (s.begin i)
  | .fail i => s.calls[i]?.bind (s.fail i)
  | .touch i table => s.calls[i]?.bind fun call =>
    s.run i call { call with touched := addLast call.touched table }
  | .write i statement => s.calls[i]?.bind fun call => s.write i call statement
  | .return_ i => s.calls[i]?.bind fun call => s.run i call { call with phase := .committing }
  | .throw i => s.calls[i]?.bind fun call => s.run i call { call with phase := .rollingBack }
  | .commit i => s.calls[i]?.bind (s.commit i)
  | .rollback i => s.calls[i]?.bind (s.rollback i)
  | .notify i => s.calls[i]?.bind (s.notify i)
  | .single statement =>
    let task := s.singles.length
    some { s with
      db := s.db.execute (.single task) statement
      singles := s.singles ++ [⟨.single task, statement, s.db.holder⟩] }
  | .acknowledge task =>
    s.singles[task]?.map fun e => { s with acknowledged := s.acknowledged ++ [e] }

/-- The statements of a call that a reader of the handle sees. -/
def seen (i : Nat) : List σ :=
  (s.db.statements.filter fun e => e.writer = .tx i).map (·.statement)

end TxRun

def txMachine (σ : Type) : Machine (TxRun σ) (TxEvent σ) :=
  ⟨.start, TxRun.step⟩

/-! ## What is expected -/

/-- The transaction in which a statement was executed was rolled back. -/
def TxRun.Undone {σ : Type} (s : TxRun σ) (e : Executed Nat Writer σ) : Prop :=
  ∃ i, ∃ call : TxCall σ, e.during = some i ∧ s.calls[i]? = some call ∧ call.phase = .rejected

/-- All or nothing of each call, notifications with the commit, and no acknowledged write undone but
by a transaction that it was executed in. -/
structure TxSound {σ : Type} (s : TxRun σ) : Prop where
  rejected : ∀ (i : Nat) (call : TxCall σ), s.calls[i]? = some call →
    call.phase = .rejected → s.seen i = []
  resolved : ∀ (i : Nat) (call : TxCall σ), s.calls[i]? = some call → call.phase = .resolved →
    s.seen i = call.wrote ∧ ∀ e ∈ s.db.statements, e.writer = .tx i → e ∈ s.db.committed
  notified : ∀ (i : Nat) (call : TxCall σ), s.calls[i]? = some call → call.phase = .resolved →
    call.notified = call.touched ∧ call.touched.Nodup
  notifiedCommitted : ∀ (i : Nat) (call : TxCall σ), s.calls[i]? = some call → call.notified ≠ [] →
    s.seen i = call.wrote ∧ ∀ e ∈ s.db.statements, e.writer = .tx i → e ∈ s.db.committed
  kept : ∀ e ∈ s.acknowledged, e ∈ s.db.statements ∨ s.Undone e

/-- As claimed: nothing that is acknowledged is undone. -/
def AcknowledgedKept {σ : Type} (s : TxRun σ) : Prop :=
  ∀ e ∈ s.acknowledged, e ∈ s.db.statements

/-! ## The invariant -/

/-- The statements of the call are those of its function. -/
def TxPhase.kept : TxPhase → Bool
  | starting => false
  | rejected => false
  | _ => true

def TxPhase.committed : TxPhase → Bool
  | notifying _ => true
  | resolved => true
  | unnotified => true
  | _ => false

variable {σ : Type}

/-- What was not begun wrote nothing; the tables that are notified, and those that still will be,
are those that were touched. -/
def TxCall.WellFormed (call : TxCall σ) : Prop :=
  call.touched.Nodup ∧
    match call.phase with
    | .starting => call.notified = [] ∧ call.wrote = []
    | .notifying tables => call.notified ++ tables = call.touched
    | .resolved => call.notified = call.touched
    | .unnotified => True
    | _ => call.notified = []

structure TxInv (s : TxRun σ) : Prop where
  holder : ∀ i, s.db.holder = some i ↔ ∃ call : TxCall σ, s.calls[i]? = some call ∧
    call.phase.inside
  seen : ∀ (i : Nat) (call : TxCall σ), s.calls[i]? = some call →
    s.seen i = if call.phase.kept then call.wrote else []
  own : ∀ e ∈ s.db.statements, ∀ i, e.writer = .tx i → i < s.calls.length ∧ e.during = some i
  past : ∀ e ∈ s.db.committed, ∀ i, e.during = some i →
    ∃ call : TxCall σ, s.calls[i]? = some call ∧ call.phase.committed
  singles : ∀ e ∈ s.singles, e ∈ s.db.statements ∨ s.Undone e
  acknowledged : ∀ e ∈ s.acknowledged, e ∈ s.singles
  wellFormed : ∀ (i : Nat) (call : TxCall σ), s.calls[i]? = some call → call.WellFormed

/-- A phase is not both within and after the transaction. -/
theorem TxPhase.not_inside_of_committed {phase : TxPhase} (h : phase.committed = true) :
    phase.inside = false := by
  cases phase <;> first | rfl | cases h

theorem TxPhase.kept_of_committed {phase : TxPhase} (h : phase.committed = true) :
    phase.kept = true := by
  cases phase <;> first | rfl | cases h

theorem TxPhase.kept_of_inside {phase : TxPhase} (h : phase.inside = true) :
    phase.kept = true := by
  cases phase <;> first | rfl | cases h

namespace TxInv

variable {s : TxRun σ} {i : Nat} {call next : TxCall σ} {db : TxLog Nat Writer σ}

theorem start : TxInv (TxRun.start : TxRun σ) where
  holder i := by simp [TxRun.start, TxLog.empty, TxLog.holder]
  seen i call h := by simp [TxRun.start] at h
  own e h := by simp [TxRun.start, TxLog.empty, TxLog.statements] at h
  past e h := by simp [TxRun.start, TxLog.empty] at h
  singles e h := absurd h List.not_mem_nil
  acknowledged e h := absurd h List.not_mem_nil
  wellFormed i call h := by simp [TxRun.start] at h

/-! ### What follows from it -/

theorem holder_of_inside (h : TxInv s) (hi : s.calls[i]? = some call)
    (hinside : call.phase.inside = true) : s.db.holder = some i :=
  (h.holder i).2 ⟨call, hi, hinside⟩

/-- After its transaction, what a call wrote is committed. -/
theorem committed_of_writer (h : TxInv s) (hi : s.calls[i]? = some call)
    (hcommitted : call.phase.committed = true) :
    s.seen i = call.wrote ∧ ∀ e ∈ s.db.statements, e.writer = .tx i → e ∈ s.db.committed := by
  refine ⟨?_, fun e he hwriter => ?_⟩
  · rw [h.seen i call hi, if_pos (TxPhase.kept_of_committed hcommitted)]
  · rcases TxLog.mem_statements he with hold | ⟨-, hholder⟩
    · exact hold
    · rw [(h.own e he i hwriter).2] at hholder
      rcases (h.holder i).1 hholder.symm with ⟨call', hi', hinside⟩
      rw [hi] at hi'
      cases hi'
      rw [TxPhase.not_inside_of_committed hcommitted] at hinside
      cases hinside

/-- The open transaction has no part in what is committed. -/
theorem not_past_of_holder (h : TxInv s) (hholder : s.db.holder = some i) :
    ∀ e ∈ s.db.committed, e.during ≠ some i := by
  intro e he hduring
  rcases (h.holder i).1 hholder with ⟨call, hi, hinside⟩
  rcases h.past e he i hduring with ⟨call', hi', hcommitted⟩
  rw [hi] at hi'
  cases hi'
  rw [TxPhase.not_inside_of_committed hcommitted] at hinside
  cases hinside

theorem sound (h : TxInv s) : TxSound s where
  rejected i call hi hphase := by rw [h.seen i call hi, hphase]; rfl
  resolved i call hi hphase := h.committed_of_writer hi (by rw [hphase]; rfl)
  notified i call hi hphase := by
    have hwell := h.wellFormed i call hi
    rw [TxCall.WellFormed, hphase] at hwell
    exact ⟨hwell.2, hwell.1⟩
  notifiedCommitted i call hi hne := by
    refine h.committed_of_writer hi ?_
    have hwell := (h.wellFormed i call hi).2
    cases hphase : call.phase with
    | notifying tables => rfl
    | resolved => rfl
    | unnotified => rfl
    | starting =>
        rw [hphase] at hwell
        exact absurd hwell.1 hne
    | _ =>
        rw [hphase] at hwell
        exact absurd hwell hne
  kept e he := h.singles e (h.acknowledged e he)

/-! ### One call goes on -/

theorem getElem?_setCall (hi : s.calls[i]? = some call) (j : Nat) :
    (({ s with db := db } : TxRun σ).setCall i next).calls[j]? =
      if i = j then some next else s.calls[j]? := by
  have hlt := (List.getElem?_eq_some_iff.1 hi).1
  rw [TxRun.setCall, List.getElem?_set]
  simp [hlt]

theorem length_setCall :
    (({ s with db := db } : TxRun σ).setCall i next).calls.length = s.calls.length :=
  List.length_set ..

/-- What one call does to the handle: the transaction is open while it is inside, only it and the
statements executed during it change. -/
structure Advances (s : TxRun σ) (i : Nat) (call next : TxCall σ) (db : TxLog Nat Writer σ) :
    Prop where
  live : call.phase ≠ .rejected
  committed : call.phase.committed = true → next.phase.committed = true
  wellFormed : next.WellFormed
  inside : db.holder = some i ↔ next.phase.inside = true
  holder : ∀ j, i ≠ j → (db.holder = some j ↔ s.db.holder = some j)
  seen : ({ s with db := db } : TxRun σ).seen i = if next.phase.kept then next.wrote else []
  seenOther : ∀ j, i ≠ j → ({ s with db := db } : TxRun σ).seen j = s.seen j
  statements : ∀ e ∈ db.statements, e ∈ s.db.statements ∨ e.writer = .tx i ∧ e.during = some i
  past : ∀ e ∈ db.committed, e ∈ s.db.committed ∨
    ∀ j, e.during = some j → j = i ∧ next.phase.committed = true
  undone : ∀ e ∈ s.db.statements, e ∈ db.statements ∨ e.during = some i ∧ next.phase = .rejected

theorem advance (h : TxInv s) (hi : s.calls[i]? = some call) (ha : Advances s i call next db) :
    TxInv (({ s with db := db } : TxRun σ).setCall i next) := by
  have hget : ∀ j, (({ s with db := db } : TxRun σ).setCall i next).calls[j]? =
      if i = j then some next else s.calls[j]? := getElem?_setCall hi
  refine ⟨fun j => ?_, fun j other hj => ?_, fun e he j hwriter => ?_, fun e he j hduring => ?_,
    fun e he => ?_, h.acknowledged, fun j other hj => ?_⟩
  · rw [hget]
    by_cases hij : i = j
    · subst hij
      refine ha.inside.trans ?_
      simp
    · rw [if_neg hij]
      exact (ha.holder j hij).trans (h.holder j)
  · rw [hget] at hj
    split at hj
    · rename_i hij
      cases hj
      subst hij
      exact ha.seen
    · rename_i hij
      exact (ha.seenOther j hij).trans (h.seen j other hj)
  · rw [length_setCall]
    rcases ha.statements e he with hold | ⟨hnew, hduring⟩
    · exact h.own e hold j hwriter
    · rw [hwriter] at hnew
      cases hnew
      exact ⟨(List.getElem?_eq_some_iff.1 hi).1, hduring⟩
  · rw [hget]
    rcases ha.past e he with hold | hnew
    · rcases h.past e hold j hduring with ⟨other, hj, hcommitted⟩
      by_cases hij : i = j
      · subst hij
        rw [hi] at hj
        cases hj
        exact ⟨next, if_pos rfl, ha.committed hcommitted⟩
      · exact ⟨other, (if_neg hij).trans hj, hcommitted⟩
    · rcases hnew j hduring with ⟨rfl, hcommitted⟩
      exact ⟨next, if_pos rfl, hcommitted⟩
  · rcases h.singles e he with hold | ⟨j, other, hduring, hj, hphase⟩
    · refine (ha.undone e hold).imp_right fun hnew => ⟨i, next, hnew.1, ?_, hnew.2⟩
      rw [hget, if_pos rfl]
    · refine Or.inr ⟨j, other, hduring, ?_, hphase⟩
      rw [hget, if_neg, hj]
      rintro rfl
      rw [hi] at hj
      cases hj
      exact ha.live hphase
  · rw [hget] at hj
    split at hj
    · cases hj
      exact ha.wellFormed
    · exact h.wellFormed j other hj

/-- The handle stays as it is. -/
theorem advances_phase (h : TxInv s) (hi : s.calls[i]? = some call) (hlive : call.phase ≠ .rejected)
    (hinside : next.phase.inside = call.phase.inside) (hkept : next.phase.kept = call.phase.kept)
    (hcommitted : call.phase.committed = true → next.phase.committed = true)
    (hwrote : next.wrote = call.wrote) (hwell : next.WellFormed) :
    Advances s i call next s.db where
  live := hlive
  committed := hcommitted
  wellFormed := hwell
  inside := by
    rw [h.holder i, hinside]
    simp [hi]
  holder _ _ := Iff.rfl
  seen := by
    rw [hkept, hwrote]
    exact h.seen i call hi
  seenOther _ _ := rfl
  statements _ he := Or.inl he
  past _ he := Or.inl he
  undone _ he := Or.inl he

/-- BEGIN. -/
theorem advances_begin (h : TxInv s) (hi : s.calls[i]? = some call)
    (hphase : call.phase = .starting) (hdb : s.db.begin i = some db) :
    Advances s i call { call with phase := .running } db := by
  rcases TxLog.begin_eq_some hdb with ⟨hnone, hholder, hstatements, hcommitted⟩
  have hwell := h.wellFormed i call hi
  rw [TxCall.WellFormed, hphase] at hwell
  have hseen : ∀ j, ({ s with db := db } : TxRun σ).seen j = s.seen j := fun j => by
    rw [TxRun.seen, TxRun.seen, hstatements]
  refine ⟨by simp [hphase], by simp [hphase, TxPhase.committed], ⟨hwell.1, hwell.2.1⟩,
    by simp [hholder, TxPhase.inside], fun j hij => by simp [hholder, hnone, hij], ?_,
    fun j _ => hseen j, fun e he => Or.inl (hstatements ▸ he), fun e he => Or.inl (hcommitted ▸ he),
    fun e he => Or.inl (hstatements.symm ▸ he)⟩
  calc
    ({ s with db := db } : TxRun σ).seen i = s.seen i := hseen i
    _ = [] := by rw [h.seen i call hi, hphase]; rfl
    _ = if TxPhase.kept .running then call.wrote else [] := by rw [hwell.2.2]; rfl

/-- A statement of the function. -/
theorem advances_write (h : TxInv s) (hi : s.calls[i]? = some call)
    (hphase : call.phase = .running) (statement : σ) :
    Advances s i call { call with wrote := call.wrote ++ [statement] }
      (s.db.execute (.tx i) statement) := by
  have hholder := h.holder_of_inside hi (by rw [hphase]; rfl)
  have hstatements := TxLog.statements_execute (h := s.db) (.tx i : Writer) statement
  rw [hholder] at hstatements
  have hwell := h.wellFormed i call hi
  rw [TxCall.WellFormed, hphase] at hwell
  have hseen := h.seen i call hi
  refine ⟨by simp [hphase], by simp [hphase, TxPhase.committed], ⟨hwell.1, ?_⟩, ?_, fun j hij => ?_,
    ?_, fun j hij => ?_, fun e he => ?_, fun e he => ?_, fun e he => ?_⟩
  · rw [hphase]
    exact hwell.2
  · rw [TxLog.holder_execute, hholder, hphase]
    simp [TxPhase.inside]
  · rw [TxLog.holder_execute]
  · rw [hphase] at hseen ⊢
    rw [TxRun.seen, hstatements, List.filter_append, List.map_append]
    exact congrArg₂ (· ++ ·) hseen (by simp)
  · rw [TxRun.seen, TxRun.seen, hstatements, List.filter_append]
    simp [hij]
  · rw [hstatements] at he
    refine (List.mem_append.1 he).imp_right fun hnew => ?_
    rw [List.mem_singleton.1 hnew]
    exact ⟨rfl, rfl⟩
  · exact (TxLog.mem_committed_execute he).imp_right fun hnone j hj => by
      rw [hnone] at hj
      cases hj
  · rw [hstatements]
    exact Or.inl (List.mem_append_left _ he)

/-- COMMIT. -/
theorem advances_commit (h : TxInv s) (hi : s.calls[i]? = some call)
    (hphase : call.phase = .committing) (hdb : s.db.commit = some db) :
    Advances s i call { call with phase := .notifying call.touched } db := by
  rcases TxLog.commit_eq_some hdb with ⟨-, hnone, hstatements, hcommitted⟩
  have hholder := h.holder_of_inside hi (by rw [hphase]; rfl)
  have hwell := h.wellFormed i call hi
  rw [TxCall.WellFormed, hphase] at hwell
  have hseen : ∀ j, ({ s with db := db } : TxRun σ).seen j = s.seen j := fun j => by
    rw [TxRun.seen, TxRun.seen, hstatements]
  refine ⟨by simp [hphase], by simp [TxPhase.committed], ⟨hwell.1, ?_⟩,
    by simp [hnone, TxPhase.inside], fun j hij => by simp [hnone, hholder, hij], ?_,
    fun j _ => hseen j, fun e he => Or.inl (hstatements ▸ he), fun e he => ?_,
    fun e he => Or.inl (hstatements.symm ▸ he)⟩
  · show call.notified ++ call.touched = call.touched
    rw [hwell.2, List.nil_append]
  · rw [hseen i, h.seen i call hi, hphase]
    rfl
  · refine (TxLog.mem_statements (hcommitted ▸ he)).imp_right fun hnew j hj => ?_
    rw [hnew.2, hholder] at hj
    exact ⟨(Option.some.inj hj).symm, rfl⟩

/-- ROLLBACK: what is undone was executed while the transaction was open. -/
theorem advances_rollback (h : TxInv s) (hi : s.calls[i]? = some call)
    (hphase : call.phase = .rollingBack) (hdb : s.db.rollback = some db) :
    Advances s i call { call with phase := .rejected } db := by
  have hholder := h.holder_of_inside hi (by rw [hphase]; rfl)
  rcases TxLog.rollback_eq_some hdb (hholder ▸ h.not_past_of_holder hholder)
    with ⟨hnone, hcommitted, hstatements⟩
  rw [hholder] at hstatements
  have hwell := h.wellFormed i call hi
  rw [TxCall.WellFormed, hphase] at hwell
  refine ⟨by simp [hphase], by simp [hphase, TxPhase.committed], hwell,
    by simp [hnone, TxPhase.inside],
    fun j hij => by simp [hnone, hholder, hij], ?_, fun j hij => ?_,
    fun e he => ?_, fun e he => Or.inl (hcommitted ▸ he), fun e he => ?_⟩
  · rw [TxRun.seen, hstatements, List.filter_filter]
    refine (List.map_eq_nil_iff).2 (List.filter_eq_nil_iff.2 fun e he => ?_)
    intro hboth
    simp only [Bool.and_eq_true, decide_eq_true_eq] at hboth
    exact hboth.2 (h.own e he i hboth.1).2
  · rw [TxRun.seen, TxRun.seen, hstatements, List.filter_filter]
    refine congrArg _ (List.filter_congr fun e he => ?_)
    by_cases hwriter : e.writer = .tx j
    · have hduring := (h.own e he j hwriter).2
      simp [hwriter, hduring, Ne.symm hij]
    · simp [hwriter]
  · rw [hstatements] at he
    exact Or.inl (List.mem_of_mem_filter he)
  · by_cases hduring : e.during = some i
    · exact Or.inr ⟨hduring, rfl⟩
    · rw [hstatements]
      exact Or.inl (List.mem_filter.2 ⟨he, decide_eq_true hduring⟩)

/-! ### The steps -/

theorem called (h : TxInv s) : TxInv { s with calls := s.calls ++ [⟨[], .starting, [], []⟩] } := by
  have hold : ∀ {j : Nat} {other : TxCall σ},
      (s.calls ++ [⟨[], .starting, [], []⟩])[j]? = some other →
        s.calls[j]? = some other ∨ j = s.calls.length ∧ other = ⟨[], .starting, [], []⟩ := by
    intro j other hj
    rw [List.getElem?_append] at hj
    split at hj
    · exact Or.inl hj
    · rcases List.getElem?_eq_some_iff.1 hj with ⟨hlt, hother⟩
      rw [List.length_singleton] at hlt
      exact Or.inr ⟨by omega, by simpa using hother.symm⟩
  have hkeep : ∀ {j : Nat} {other : TxCall σ}, s.calls[j]? = some other →
      (s.calls ++ [⟨[], .starting, [], []⟩])[j]? = some other := fun hj =>
    (List.getElem?_append_left (List.getElem?_eq_some_iff.1 hj).1).trans hj
  refine ⟨fun j => (h.holder j).trans ⟨fun hin => ?_, fun hin => ?_⟩, fun j other hj => ?_,
    fun e he j hwriter => ?_, fun e he j hduring => ?_, fun e he => ?_, h.acknowledged,
    fun j other hj => ?_⟩
  · rcases hin with ⟨other, hj, hinside⟩
    exact ⟨other, hkeep hj, hinside⟩
  · rcases hin with ⟨other, hj, hinside⟩
    rcases hold hj with hj | ⟨-, rfl⟩
    · exact ⟨other, hj, hinside⟩
    · cases hinside
  · rcases hold hj with hj | ⟨rfl, rfl⟩
    · exact h.seen j other hj
    -- No statement has a writer that was not there.
    · refine List.map_eq_nil_iff.2 (List.filter_eq_nil_iff.2 fun e he hwriter => ?_)
      exact absurd (h.own e he _ (of_decide_eq_true hwriter)).1 (Nat.lt_irrefl _)
  · rw [List.length_append]
    have hown := h.own e he j hwriter
    exact ⟨Nat.lt_add_right 1 hown.1, hown.2⟩
  · rcases h.past e he j hduring with ⟨other, hj, hcommitted⟩
    exact ⟨other, hkeep hj, hcommitted⟩
  · rcases h.singles e he with hmem | ⟨j, other, hduring, hj, hphase⟩
    · exact Or.inl hmem
    · exact Or.inr ⟨j, other, hduring, hkeep hj, hphase⟩
  · rcases hold hj with hj | ⟨-, rfl⟩
    · exact h.wellFormed j other hj
    · exact ⟨List.nodup_nil, rfl, rfl⟩

/-- A single writer's statement falls into the transaction that is open. -/
theorem single (h : TxInv s) (statement : σ) :
    TxInv { s with
      db := s.db.execute (.single s.singles.length) statement
      singles := s.singles ++ [⟨.single s.singles.length, statement, s.db.holder⟩] } := by
  have hstatements :=
    TxLog.statements_execute (h := s.db) (.single s.singles.length : Writer) statement
  refine ⟨fun j => ?_, fun j other hj => ?_, fun e he j hwriter => ?_, fun e he j hduring => ?_,
    fun e he => ?_, fun e he => List.mem_append_left _ (h.acknowledged e he), h.wellFormed⟩
  · rw [TxLog.holder_execute]
    exact h.holder j
  · refine Eq.trans ?_ (h.seen j other hj)
    rw [TxRun.seen, TxRun.seen, hstatements, List.filter_append]
    simp
  · rw [hstatements] at he
    rcases List.mem_append.1 he with hold | hnew
    · exact h.own e hold j hwriter
    · rw [List.mem_singleton.1 hnew] at hwriter
      cases hwriter
  · rcases TxLog.mem_committed_execute he with hold | hnone
    · exact h.past e hold j hduring
    · rw [hnone] at hduring
      cases hduring
  · rw [hstatements]
    rcases List.mem_append.1 he with hold | hnew
    · exact (h.singles e hold).imp_left (List.mem_append_left _)
    · exact Or.inl (List.mem_append_right _ hnew)

theorem begin (h : TxInv s) (hi : s.calls[i]? = some call) {s' : TxRun σ}
    (hs : s.begin i call = some s') : TxInv s' := by
  unfold TxRun.begin at hs
  split at hs
  · rename_i hphase
    split at hs
    · rename_i db hdb
      cases hs
      exact h.advance hi (h.advances_begin hi hphase hdb)
    · cases hs
      have hwell := h.wellFormed i call hi
      rw [TxCall.WellFormed, hphase] at hwell
      exact h.advance hi (h.advances_phase hi (by simp [hphase]) (by rw [hphase]; rfl)
        (by rw [hphase]; rfl) (by simp [hphase, TxPhase.committed]) rfl ⟨hwell.1, hwell.2.1⟩)
  · cases hs

theorem fail (h : TxInv s) (hi : s.calls[i]? = some call) {s' : TxRun σ}
    (hs : s.fail i call = some s') : TxInv s' := by
  have hwell := h.wellFormed i call hi
  unfold TxRun.fail at hs
  split at hs
  all_goals
    first
    | cases hs
      done
    | rename_i hphase
      cases hs
      rw [TxCall.WellFormed, hphase] at hwell
      refine h.advance hi (h.advances_phase hi (by simp [hphase]) (by rw [hphase]; rfl)
        (by rw [hphase]; rfl) (by simp [hphase, TxPhase.committed]) rfl ⟨hwell.1, ?_⟩)
      first | exact hwell.2.1 | exact hwell.2 | trivial

/-- The function goes on, or ends. -/
theorem run (h : TxInv s) (hi : s.calls[i]? = some call) {s' : TxRun σ}
    (hs : s.run i call next = some s') (hinside : next.phase.inside = true)
    (hwrote : next.wrote = call.wrote) (hwell : call.phase = .running → next.WellFormed) :
    TxInv s' := by
  rcases Option.ite_none_right_eq_some.1 hs with ⟨hphase, hs⟩
  cases hs
  refine h.advance hi (h.advances_phase hi (by simp [hphase]) ?_ ?_
    (by simp [hphase, TxPhase.committed]) hwrote (hwell hphase))
  · rw [hinside, hphase]
    rfl
  · rw [TxPhase.kept_of_inside hinside, hphase]
    rfl

theorem commit (h : TxInv s) (hi : s.calls[i]? = some call) {s' : TxRun σ}
    (hs : s.commit i call = some s') : TxInv s' := by
  unfold TxRun.commit at hs
  split at hs
  · rename_i hphase
    have hwell := h.wellFormed i call hi
    rw [TxCall.WellFormed, hphase] at hwell
    split at hs
    · rename_i db hdb
      cases hs
      exact h.advance hi (h.advances_commit hi hphase hdb)
    · cases hs
      exact h.advance hi (h.advances_phase hi (by simp [hphase]) (by rw [hphase]; rfl)
        (by rw [hphase]; rfl) (by simp [hphase, TxPhase.committed]) rfl hwell)
  · cases hs

theorem rollback (h : TxInv s) (hi : s.calls[i]? = some call) {s' : TxRun σ}
    (hs : s.rollback i call = some s') : TxInv s' := by
  unfold TxRun.rollback at hs
  split at hs
  · rename_i hphase
    cases hs
    have hholder := h.holder_of_inside hi (by rw [hphase]; rfl)
    have hsome : s.db.rollback.isSome = true := TxLog.rollback_isSome.2 (by rw [hholder]; rfl)
    rcases Option.isSome_iff_exists.1 hsome with ⟨db, hdb⟩
    rw [hdb, Option.getD_some]
    exact h.advance hi (h.advances_rollback hi hphase hdb)
  · cases hs

theorem notify (h : TxInv s) (hi : s.calls[i]? = some call) {s' : TxRun σ}
    (hs : s.notify i call = some s') : TxInv s' := by
  have hwell := h.wellFormed i call hi
  unfold TxRun.notify at hs
  split at hs
  · rename_i table tables hphase
    cases hs
    rw [TxCall.WellFormed, hphase] at hwell
    refine h.advance hi (h.advances_phase hi (by simp [hphase]) (by rw [hphase]; rfl)
      (by rw [hphase]; rfl) (fun _ => rfl) rfl ⟨hwell.1, ?_⟩)
    show call.notified ++ [table] ++ tables = call.touched
    rw [List.append_assoc]
    exact hwell.2
  · rename_i hphase
    cases hs
    rw [TxCall.WellFormed, hphase] at hwell
    refine h.advance hi (h.advances_phase hi (by simp [hphase]) (by rw [hphase]; rfl)
      (by rw [hphase]; rfl) (fun _ => rfl) rfl ⟨hwell.1, ?_⟩)
    exact (List.append_nil _).symm.trans hwell.2
  · cases hs

theorem step (h : TxInv s) {event : TxEvent σ} {s' : TxRun σ} (hs : s.step event = some s') :
    TxInv s' := by
  cases event with
  | call =>
      cases hs
      exact h.called
  | begin i =>
      rcases Option.bind_eq_some_iff.1 hs with ⟨call, hi, hs⟩
      exact h.begin hi hs
  | fail i =>
      rcases Option.bind_eq_some_iff.1 hs with ⟨call, hi, hs⟩
      exact h.fail hi hs
  | touch i table =>
      rcases Option.bind_eq_some_iff.1 hs with ⟨call, hi, hs⟩
      have hphase := (Option.ite_none_right_eq_some.1 hs).1
      refine h.run hi hs (by rw [hphase]; rfl) rfl fun _ => ?_
      have hwell := h.wellFormed i call hi
      rw [TxCall.WellFormed, hphase] at hwell ⊢
      exact ⟨nodup_addLast hwell.1 table, hwell.2⟩
  | write i statement =>
      rcases Option.bind_eq_some_iff.1 hs with ⟨call, hi, hs⟩
      rcases Option.ite_none_right_eq_some.1 hs with ⟨hphase, hs⟩
      cases hs
      exact h.advance hi (h.advances_write hi hphase statement)
  | return_ i =>
      rcases Option.bind_eq_some_iff.1 hs with ⟨call, hi, hs⟩
      refine h.run hi hs rfl rfl fun hphase => ?_
      have hwell := h.wellFormed i call hi
      rwa [TxCall.WellFormed, hphase] at hwell
  | throw i =>
      rcases Option.bind_eq_some_iff.1 hs with ⟨call, hi, hs⟩
      refine h.run hi hs rfl rfl fun hphase => ?_
      have hwell := h.wellFormed i call hi
      rwa [TxCall.WellFormed, hphase] at hwell
  | commit i =>
      rcases Option.bind_eq_some_iff.1 hs with ⟨call, hi, hs⟩
      exact h.commit hi hs
  | rollback i =>
      rcases Option.bind_eq_some_iff.1 hs with ⟨call, hi, hs⟩
      exact h.rollback hi hs
  | notify i =>
      rcases Option.bind_eq_some_iff.1 hs with ⟨call, hi, hs⟩
      exact h.notify hi hs
  | single statement =>
      cases hs
      exact h.single statement
  | acknowledge task =>
      rcases Option.map_eq_some_iff.1 hs with ⟨e, htask, rfl⟩
      refine ⟨h.holder, h.seen, h.own, h.past, h.singles, fun e' he' => ?_, h.wellFormed⟩
      rcases List.mem_append.1 he' with hold | hnew
      · exact h.acknowledged e' hold
      · rw [List.mem_singleton.1 hnew]
        exact List.mem_of_getElem? htask

end TxInv

/-! ## Every run -/

/-- Whatever falls between the statements of the transactions. -/
theorem tx_sound {s : TxRun σ} (h : (txMachine σ).Reachable s) : TxSound s :=
  (h.invariant (P := TxInv) TxInv.start fun hinv _ hs => hinv.step hs).sound

/-- The second call finds the transaction of the first open; a mutate callback's statement falls
into it and is undone with it.  The third call commits. -/
def twoRejected : List (TxEvent Nat) :=
  [.call, .call, .begin 0, .write 0 10, .begin 1, .single 20, .acknowledge 0, .throw 0, .rollback 0,
    .single 21, .acknowledge 1, .call, .begin 2, .write 2 30, .touch 2 "todos", .return_ 2,
    .commit 2, .notify 2, .notify 2]

/-- The phases, the statements in the database and the number of acknowledged ones. -/
def TxRun.summary (s : TxRun Nat) : List TxPhase × List Nat × Nat :=
  (s.calls.map (·.phase), s.db.statements.map (·.statement), s.acknowledged.length)

theorem tx_sound_two_rejected :
    ∃ s : TxRun Nat, TxSound s ∧
      s.summary = ([.rejected, .rejected, .resolved], [21, 30], 2) := by
  have hrun : ((txMachine Nat).run twoRejected).map TxRun.summary =
      some ([.rejected, .rejected, .resolved], [21, 30], 2) := by decide +kernel
  rcases Option.map_eq_some_iff.1 hrun with ⟨s, hs, hsummary⟩
  exact ⟨s, tx_sound (.of_run hs), hsummary⟩

/-- A mutate callback's statement is acknowledged, and the transaction that was open rolled back. -/
theorem not_acknowledged_kept :
    ¬ ∀ s : TxRun Nat, (txMachine Nat).Reachable s → AcknowledgedKept s := by
  intro h
  have hrun : ((txMachine Nat).run
      [.call, .begin 0, .single 20, .acknowledge 0, .throw 0, .rollback 0]).map
        (fun s => (s.acknowledged, s.db.statements)) =
      some ([⟨.single 0, 20, some 0⟩], []) := by decide +kernel
  rcases Option.map_eq_some_iff.1 hrun with ⟨s, hs, hstate⟩
  rcases Prod.mk.inj hstate with ⟨hacknowledged, hstatements⟩
  have hmem := h s (.of_run hs) ⟨.single 0, 20, some 0⟩
    (hacknowledged.symm ▸ List.mem_singleton.2 rfl)
  rw [hstatements] at hmem
  exact List.not_mem_nil hmem

end Server
end Reflectdb
