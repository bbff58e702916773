import Reflectdb.Server.Prefetch

/-!
# Prefetch runs — a batch context changes no answer and no row

What a batch context has of a row, unless it is stale, is what the storage has of it, or stands for
a row that is not there.  The ids that its messages hold are those that no op has been taken with.
-/

namespace Reflectdb
namespace Server
namespace Prefetch

open Core Client Lib

/-! ## The image of a deleted row -/

section Resolve

variable {ops : TextOps} {policy : ConflictPolicy} {incoming : ConflictInput}
  {existing : ExistingRow}

theorem version_of_row_none (h : existing.row = none) : existing.version = none := by
  simp [ExistingRow.version, h]

theorem resolvePlain_absent (h : existing.row = none)
    (hplain : (plainPayload incoming).entries ≠ []) :
    resolvePlain incoming existing = resolvePlain incoming (getRow none) := by
  have hversion := version_of_row_none h
  have habsent : (getRow none).version = none := rfl
  rw [resolvePlain, resolvePlain, if_neg hplain, if_neg hplain]
  simp only [resolveMerge, hversion, habsent]

/-- The two results decide the same. -/
def SameOutcome (r r' : ConflictResult) : Prop :=
  r.accepted = r'.accepted ∧ r.reason = r'.reason ∧ (r.accepted = true → r = r')

theorem SameOutcome.refl (r : ConflictResult) : SameOutcome r r :=
  ⟨rfl, rfl, fun _ => rfl⟩

theorem sameOutcome_text {text : TextConflictPolicy} (h : existing.row = none)
    (hkeeps : ¬ KeepsClocks (.text text) incoming) :
    SameOutcome (resolveText ops text incoming existing)
      (resolveText ops text incoming (getRow none)) := by
  have hversion := version_of_row_none h
  have habsent : (getRow none).version = none := rfl
  unfold resolveText
  by_cases hdelete : incoming.op = .delete
  · simp only [if_pos hdelete, resolveLww, hversion, habsent]
    exact .refl _
  · have hinsert : ∀ e : ExistingRow, e.row = none → ¬ (incoming.op = .insert ∧ e.row.isSome) :=
      fun e he hboth => by simp [he] at hboth
    simp only [if_neg hdelete, if_neg (hinsert existing h), if_neg (hinsert (getRow none) rfl)]
    -- Only an op without plain columns reads the clocks.
    have hplain : (∀ raw, (incoming.payload.getD ∅).lookup TEXT_EDIT_KEY = some raw →
        (readTextEdit text raw).isSome) → (plainPayload incoming).entries ≠ [] :=
      fun hedit hempty => hkeeps ⟨hdelete, hempty, hedit⟩
    cases hraw : (incoming.payload.getD ∅).lookup TEXT_EDIT_KEY with
    | none =>
        simp only
        rw [resolvePlain_absent h (hplain fun raw hsome => by simp [hraw] at hsome)]
        exact .refl _
    | some raw =>
        cases hedit : readTextEdit text raw with
        | none =>
            simp only [hedit]
            exact ⟨rfl, rfl, fun haccepted => by cases haccepted⟩
        | some edit =>
            simp only [hedit]
            rw [resolvePlain_absent h (hplain fun raw' hsome => by
              rw [hraw] at hsome
              cases hsome
              simp [hedit])]
            exact .refl _

/-- A row that is not there is resolved alike, whatever is left of its HLC and its clocks, but by an
op that keeps them. -/
theorem sameOutcome_absent (h : existing.row = none) (hkeeps : ¬ KeepsClocks policy incoming) :
    SameOutcome (resolveConflict ops policy incoming existing)
      (resolveConflict ops policy incoming (getRow none)) := by
  have hversion := version_of_row_none h
  have habsent : (getRow none).version = none := rfl
  have hrow : (getRow none).row = none := rfl
  cases policy with
  | lww =>
      simp only [resolveConflict, resolveLww, hversion, habsent]
      exact .refl _
  | merge =>
      simp only [resolveConflict, resolveMerge, hversion, habsent]
      exact .refl _
  | server =>
      simp only [resolveConflict, resolveServer, h, hrow]
      exact .refl _
  | custom resolve =>
      simp only [resolveConflict, resolveCustom, h, hrow]
      exact .refl _
  | text text => exact sameOutcome_text h hkeeps

end Resolve

/-! ## What a step can do -/

/-- The write of a conditional op meets another row than the one that it was resolved against. -/
def Lost (s : State) (op : MessageOp) (expected : Option (Option Hlc)) : Prop :=
  (expected.any fun hlc => decide (hlc ≠ (s.stored op.rowKey).map (·.hlc))) = true

/-- The steps of a server with batch contexts, with what each goes by. -/
inductive Stepped (cfg : Config) (s : State) : Event → State → Prop
  | receive {m : Nat} {ops : List MessageOp} (hm : s.messages m = none) :
      Stepped cfg s (.receive m ops) (s.setMessage m (Message.ofOps cfg true ops))
  | reserve {m : Nat} {ops : List MessageOp} {batch : BatchContext} {ids : List String}
      (hm : s.messages m = some ⟨ops, some batch, .reserving ids⟩) :
      Stepped cfg s (.reserve m)
        ({ s with
          reserved := s.reserved ++
            (reserveCall cfg ids).1.filter fun id => !s.reserved.contains id }.setMessage m
          ⟨ops, some { batch with
            freshOpIds := batch.freshOpIds ++
              (reserveCall cfg ids).1.filter fun id => !s.reserved.contains id },
            reservePhase (reserveCall cfg ids).2⟩)
  | read {m : Nat} {ops : List MessageOp} {batch : BatchContext} {key : TableRow}
      (hm : s.messages m = some ⟨ops, some batch, .reading⟩) :
      Stepped cfg s (.read m key) (s.setMessage m ⟨ops, some { batch with
        reads := Function.update batch.reads key (some (getRow (s.stored key))) }, .reading⟩)
  | setRead {m : Nat} {ops : List MessageOp} {batch : BatchContext} {key : TableRow}
      {existing : ExistingRow} (hm : s.messages m = some ⟨ops, some batch, .reading⟩)
      (hread : batch.reads key = some existing) :
      Stepped cfg s (.setRead m key) (s.setMessage m ⟨ops, some { batch with
        rows := Function.update batch.rows key (some existing) }, .reading⟩)
  | startLoop {m : Nat} {ops : List MessageOp} {batch : BatchContext}
      (hm : s.messages m = some ⟨ops, some batch, .reading⟩) :
      Stepped cfg s (.startLoop m) (s.setMessage m ⟨ops, some batch, .looping⟩)
  | next {m : Nat} {op : MessageOp} {ops : List MessageOp} {batch : Option BatchContext}
      (hm : s.messages m = some ⟨op :: ops, batch, .looping⟩) :
      Stepped cfg s (.next m) (processClientOp cfg s m ⟨ops, batch, .looping⟩ op)
  | readCached {m : Nat} {ops : List MessageOp} {batch : Option BatchContext} {op : MessageOp}
      {existing : ExistingRow} (checks : Except String (Option Row))
      (hm : s.messages m = some ⟨ops, batch, .queued op 0⟩)
      (hfirst : (s.rowQueues op.rowKey).head? = some m)
      (hcached : (⟨ops, batch, .queued op 0⟩ : Message).cached op.rowKey = some existing) :
      Stepped cfg s (.readCached m checks)
        (attemptConsistentOp cfg s m ⟨ops, batch, .queued op 0⟩ op 0 existing checks)
  | fetch {m attempt : Nat} {ops : List MessageOp} {batch : Option BatchContext} {op : MessageOp}
      (hm : s.messages m = some ⟨ops, batch, .queued op attempt⟩)
      (hfirst : (s.rowQueues op.rowKey).head? = some m) :
      Stepped cfg s (.fetch m)
        (s.setMessage m ⟨ops, batch, .fetched op attempt (getRow (s.stored op.rowKey))⟩)
  | resolve {m attempt : Nat} {ops : List MessageOp} {batch : Option BatchContext}
      {op : MessageOp} {existing : ExistingRow} (checks : Except String (Option Row))
      (hm : s.messages m = some ⟨ops, batch, .fetched op attempt existing⟩) :
      Stepped cfg s (.resolve m checks)
        (attemptConsistentOp cfg s m
          (if attempt = 0 then
            (⟨ops, batch, .fetched op attempt existing⟩ : Message).cacheRow op.rowKey existing
          else ⟨ops, batch, .fetched op attempt existing⟩) op attempt existing checks)
  | refuse {m attempt : Nat} {ops : List MessageOp} {batch : Option BatchContext}
      {op : MessageOp} {result : ConflictResult} {expected : Option (Option Hlc)} (reason : String)
      (hm : s.messages m = some ⟨ops, batch, .resolved op attempt result expected⟩) :
      Stepped cfg s (.refuse m reason)
        (s.finishOp m ⟨ops, batch, .resolved op attempt result expected⟩ op
          (.rejected (some reason)))
  | retry {m attempt : Nat} {ops : List MessageOp} {batch : Option BatchContext}
      {op : MessageOp} {result : ConflictResult} {expected : Option (Option Hlc)}
      (hm : s.messages m = some ⟨ops, batch, .resolved op attempt result expected⟩)
      (hlost : Lost s op expected) (hagain : attempt + 1 < MAX_WRITE_ATTEMPTS) :
      Stepped cfg s (.write m) (s.setMessage m ⟨ops, batch, .queued op (attempt + 1)⟩)
  | giveUp {m attempt : Nat} {ops : List MessageOp} {batch : Option BatchContext}
      {op : MessageOp} {result : ConflictResult} {expected : Option (Option Hlc)}
      (hm : s.messages m = some ⟨ops, batch, .resolved op attempt result expected⟩)
      (hlost : Lost s op expected) (hlast : ¬ attempt + 1 < MAX_WRITE_ATTEMPTS) :
      Stepped cfg s (.write m)
        (s.finishOp m ⟨ops, batch, .resolved op attempt result expected⟩ op
          (.rejected (some "server_error")))
  | write {m attempt : Nat} {ops : List MessageOp} {batch : Option BatchContext}
      {op : MessageOp} {result : ConflictResult} {expected : Option (Option Hlc)}
      (hm : s.messages m = some ⟨ops, batch, .resolved op attempt result expected⟩)
      (hwon : ¬ Lost s op expected) :
      Stepped cfg s (.write m)
        ({ s with
          stored := Function.update s.stored op.rowKey
            (result.stored op.incoming.hlc) }.setMessage m ⟨ops, batch, .written op result⟩)
  | written {m : Nat} {ops : List MessageOp} {batch : Option BatchContext} {op : MessageOp}
      {result : ConflictResult} (hm : s.messages m = some ⟨ops, batch, .written op result⟩) :
      Stepped cfg s (.written m)
        ((s.recordBatchWrite m op.rowKey (result.cached op.incoming.hlc)).finishOp m
          ((⟨ops, batch, .written op result⟩ : Message).cacheRow op.rowKey
            (result.cached op.incoming.hlc)) op .accepted)
  | finish {m : Nat} {batch : Option BatchContext}
      (hm : s.messages m = some ⟨[], batch, .looping⟩) :
      Stepped cfg s (.finish m) (s.setMessage m ⟨[], batch, .done⟩)

theorem stepped_write {cfg : Config} {s s' : State} {m : Nat} (hs : stepWrite s m = some s') :
    Stepped cfg s (.write m) s' := by
  unfold stepWrite at hs
  split at hs
  · rename_i ops batch op attempt result expected hm
    dsimp only at hs
    split at hs
    · rename_i hlost
      split at hs
      · rename_i hagain
        cases hs
        exact .retry hm hlost hagain
      · rename_i hlast
        cases hs
        exact .giveUp hm hlost hlast
    · rename_i hwon
      cases hs
      exact .write hm hwon
  · cases hs

theorem stepped_of_step {cfg : Config} {s s' : State} {e : Event}
    (hs : (machine cfg true).step s e = some s') : Stepped cfg s e s' := by
  cases e with
  | receive m ops =>
      change stepReceive cfg true s m ops = some s' at hs
      unfold stepReceive at hs
      split at hs <;> cases hs
      exact .receive ‹_›
  | reserve m =>
      change stepReserve cfg s m = some s' at hs
      unfold stepReserve at hs
      split at hs <;> cases hs
      exact .reserve ‹_›
  | read m key =>
      change stepPrefetch s m key = some s' at hs
      unfold stepPrefetch at hs
      split at hs
      · rename_i hm
        split at hs <;> cases hs
        exact .read hm
      · cases hs
  | setRead m key =>
      change stepSetRead s m key = some s' at hs
      unfold stepSetRead at hs
      split at hs
      · rename_i hm
        obtain ⟨existing, hread, rfl⟩ := Option.map_eq_some_iff.1 hs
        exact .setRead hm hread
      · cases hs
  | startLoop m =>
      change stepStartLoop s m = some s' at hs
      unfold stepStartLoop at hs
      split at hs <;> cases hs
      exact .startLoop ‹_›
  | next m =>
      change stepNext cfg s m = some s' at hs
      unfold stepNext at hs
      split at hs <;> cases hs
      exact .next ‹_›
  | readCached m checks =>
      change stepReadCached cfg s m checks = some s' at hs
      unfold stepReadCached at hs
      split at hs
      · rename_i hm
        split at hs
        · rename_i hfirst
          obtain ⟨existing, hcached, rfl⟩ := Option.map_eq_some_iff.1 hs
          exact .readCached checks hm hfirst hcached
        · cases hs
      · cases hs
  | fetch m =>
      change stepFetch s m = some s' at hs
      unfold stepFetch at hs
      split at hs
      · rename_i hm
        split at hs
        · rename_i hfirst
          cases hs
          exact .fetch hm hfirst.1
        · cases hs
      · cases hs
  | resolve m checks =>
      change stepResolve cfg s m checks = some s' at hs
      unfold stepResolve at hs
      split at hs <;> cases hs
      exact .resolve checks ‹_›
  | refuse m reason =>
      change stepRefuse s m reason = some s' at hs
      unfold stepRefuse at hs
      split at hs <;> cases hs
      exact .refuse reason ‹_›
  | write m => exact stepped_write hs
  | written m =>
      change stepWritten s m = some s' at hs
      unfold stepWritten at hs
      split at hs <;> cases hs
      exact .written ‹_›
  | finish m =>
      change stepFinish s m = some s' at hs
      unfold stepFinish at hs
      split at hs <;> cases hs
      exact .finish ‹_›

/-! ## What a batch context knows -/

/-- The op of a message that is at its row. -/
def MessagePhase.atRow : MessagePhase → Option MessageOp
  | .fetched op _ _ => some op
  | .resolved op _ _ _ => some op
  | .written op _ => some op
  | _ => none

/-- What the message goes by at the row is what the storage has there. -/
def MessagePhase.Known (stored : TableRow → Option StoredRow) : MessagePhase → Prop
  | .fetched op _ existing => existing = getRow (stored op.rowKey)
  | .written op result => stored op.rowKey = result.stored op.incoming.hlc
  | _ => True

/-- The image is what the storage has, or that of a row that is deleted. -/
def Fits (existing : ExistingRow) (stored : Option StoredRow) : Prop :=
  existing = getRow stored ∨ stored = none ∧ existing.row = none ∧ existing.rowHlc.isSome

/-- A write of the row has reached the storage, and no batch context has been told of it. -/
def State.Writing (s : State) (key : TableRow) : Prop :=
  ∃ m msg op result, s.messages m = some msg ∧ msg.phase = .written op result ∧ op.rowKey = key

/-- The prefetch is not over. -/
def MessagePhase.ahead : MessagePhase → Bool
  | .reserving _ => true
  | .reading => true
  | _ => false

/-- The row is in the batch context, or about to be. -/
def Message.Holds (msg : Message) (key : TableRow) (existing : ExistingRow) : Prop :=
  ∃ batch, msg.batch = some batch ∧ batch.stale key = false ∧
    (batch.rows key = some existing ∨
      msg.phase.ahead = true ∧ batch.reads key = some existing)

def Message.Coherent (msg : Message) (stored : TableRow → Option StoredRow)
    (writing : TableRow → Prop) : Prop :=
  msg.active = true → ∀ key existing, msg.Holds key existing →
    Fits existing (stored key) ∨ writing key

structure Inv (s : State) : Prop where
  first : ∀ m msg op, s.messages m = some msg → msg.phase.atRow = some op →
    (s.rowQueues op.rowKey).head? = some m
  known : ∀ m msg, s.messages m = some msg → msg.phase.Known s.stored
  coherent : ∀ m msg, s.messages m = some msg → msg.Coherent s.stored s.Writing

variable {s s' : State} {m : Nat} {old msg : Message} {op : MessageOp} {answer : OpAnswer}

theorem inv_start : Inv .start :=
  ⟨fun _ _ _ h => by simp [State.start] at h, fun _ _ h => by simp [State.start] at h,
    fun _ _ h => by simp [State.start] at h⟩

/-- Two messages at one row are one. -/
theorem Inv.at_eq (h : Inv s) {m' : Nat} {msg' : Message} {op' : MessageOp}
    (hm : (s.rowQueues op.rowKey).head? = some m) (hm' : s.messages m' = some msg')
    (hop' : msg'.phase.atRow = some op') (hkey : op'.rowKey = op.rowKey) : m' = m := by
  have hfirst := h.first m' msg' op' hm' hop'
  rw [hkey, hm] at hfirst
  exact (Option.some.inj hfirst).symm

/-- Nobody writes the row of a message that is first there and does not itself. -/
theorem Inv.not_writing (h : Inv s) (hm : s.messages m = some msg)
    (hfirst : (s.rowQueues op.rowKey).head? = some m)
    (hphase : ∀ op' result, msg.phase ≠ .written op' result) : ¬ s.Writing op.rowKey := by
  rintro ⟨m', msg', op', result, hm', hwritten, hkey⟩
  have heq := h.at_eq hfirst hm' (by rw [hwritten]; rfl) hkey
  subst heq
  cases hm.symm.trans hm'
  exact hphase op' result hwritten

/-- The row that an op at its turn finds in the batch context. -/
theorem Inv.fits_cached (h : Inv s) (hm : s.messages m = some msg) {attempt : Nat}
    (hphase : msg.phase = .queued op attempt) (hfirst : (s.rowQueues op.rowKey).head? = some m)
    {existing : ExistingRow} (hcached : msg.cached op.rowKey = some existing) :
    Fits existing (s.stored op.rowKey) := by
  obtain ⟨batch, hbatch, hrow⟩ := Option.bind_eq_some_iff.1 hcached
  split at hrow
  · cases hrow
  · rename_i hstale
    have hactive : msg.active = true := by rw [Message.active, hphase]
    refine (h.coherent m msg hm hactive op.rowKey existing
      ⟨batch, hbatch, by simpa using hstale, .inl hrow⟩).resolve_right ?_
    exact h.not_writing hm hfirst fun op' result hwritten => by simp [hphase] at hwritten

/-- The messages when one of them is set. -/
theorem update_cases {messages : Nat → Option Message} {i : Nat} {msg' : Message}
    (hi : Function.update messages m (some msg) i = some msg') :
    (i = m ∧ msg' = msg) ∨ (i ≠ m ∧ messages i = some msg') := by
  by_cases hm : i = m
  · subst hm
    rw [Function.update_self] at hi
    exact .inl ⟨rfl, (Option.some.inj hi).symm⟩
  · rw [Function.update_of_ne hm] at hi
    exact .inr ⟨hm, hi⟩

/-- A message changes, and the storage does not. -/
theorem Inv.update (h : Inv s) (hstored : s'.stored = s.stored)
    (hmessages : s'.messages = Function.update s.messages m (some msg))
    (hold : ∀ old, s.messages m = some old → ∀ op result, old.phase ≠ .written op result)
    (hfirst : ∀ op, msg.phase.atRow = some op → (s'.rowQueues op.rowKey).head? = some m)
    (hothers : ∀ key i, i ≠ m → (s.rowQueues key).head? = some i →
      (s'.rowQueues key).head? = some i)
    (hknown : msg.phase.Known s.stored) (hcoherent : msg.Coherent s.stored s.Writing) :
    Inv s' := by
  have hwriting : ∀ key, s.Writing key → s'.Writing key := by
    rintro key ⟨m', msg', op, result, hm', hwritten, hkey⟩
    have hne : m' ≠ m := by
      rintro rfl
      exact hold msg' hm' op result hwritten
    refine ⟨m', msg', op, result, ?_, hwritten, hkey⟩
    rw [hmessages, Function.update_of_ne hne]
    exact hm'
  have hcases : ∀ i msg', s'.messages i = some msg' →
      (i = m ∧ msg' = msg) ∨ (i ≠ m ∧ s.messages i = some msg') :=
    fun i msg' hi => update_cases (by rwa [hmessages] at hi)
  refine ⟨fun i msg' op hi hop => ?_, fun i msg' hi => ?_,
    fun i msg' hi hactive key existing hk => ?_⟩
  · rcases hcases i msg' hi with ⟨rfl, rfl⟩ | ⟨hne, hi'⟩
    · exact hfirst op hop
    · exact hothers _ _ hne (h.first i msg' op hi' hop)
  · rw [hstored]
    rcases hcases i msg' hi with ⟨rfl, rfl⟩ | ⟨-, hi'⟩
    · exact hknown
    · exact h.known i msg' hi'
  · rw [hstored]
    rcases hcases i msg' hi with ⟨rfl, rfl⟩ | ⟨-, hi'⟩
    · exact (hcoherent hactive key existing hk).imp id (hwriting key)
    · exact (h.coherent i msg' hi' hactive key existing hk).imp id (hwriting key)

theorem Inv.setMessage (h : Inv s)
    (hold : ∀ old, s.messages m = some old → ∀ op result, old.phase ≠ .written op result)
    (hfirst : ∀ op, msg.phase.atRow = some op → (s.rowQueues op.rowKey).head? = some m)
    (hknown : msg.phase.Known s.stored) (hcoherent : msg.Coherent s.stored s.Writing) :
    Inv (s.setMessage m msg) :=
  h.update rfl rfl hold hfirst (fun _ _ _ hi => hi) hknown hcoherent

/-- The op that was at its row leaves it. -/
theorem Inv.finishOp (h : Inv s)
    (hold : ∀ old, s.messages m = some old → ∀ op result, old.phase ≠ .written op result)
    (hfirst : (s.rowQueues op.rowKey).head? = some m)
    (hcoherent : ({ msg with phase := .looping } : Message).Coherent s.stored s.Writing) :
    Inv (s.finishOp m msg op answer) := by
  refine h.update rfl rfl hold (fun op' hop' => by cases hop') (fun key i hi hhead => ?_) trivial
    hcoherent
  by_cases hkey : key = op.rowKey
  · subst hkey
    rw [hfirst] at hhead
    exact absurd (Option.some.inj hhead).symm hi
  · change ((Function.update s.rowQueues op.rowKey _) key).head? = some i
    rw [Function.update_of_ne hkey]
    exact hhead

theorem Message.Coherent.of_batch {stored : TableRow → Option StoredRow}
    {writing : TableRow → Prop} (h : old.Coherent stored writing) (hactive : old.active = true)
    (hholds : ∀ key existing, msg.Holds key existing → old.Holds key existing) :
    msg.Coherent stored writing :=
  fun _ key existing hk => h hactive key existing (hholds key existing hk)

/-- A message that goes on and has no more in its batch context. -/
theorem Message.Holds.of_eq {key : TableRow} {existing : ExistingRow} (h : msg.Holds key existing)
    (hbatch : msg.batch = old.batch) (hphase : msg.phase.ahead = false) :
    old.Holds key existing := by
  obtain ⟨batch, hmsg, hstale, hrow⟩ := h
  refine ⟨batch, hbatch ▸ hmsg, hstale, .inl (hrow.resolve_right fun hreads => ?_)⟩
  rw [hphase] at hreads
  cases hreads.1

/-- A message goes on behind its prefetch, with the batch context that it has. -/
theorem Inv.coherent_of_eq (h : Inv s) (hm : s.messages m = some old) (hactive : old.active = true)
    (hbatch : msg.batch = old.batch) (hphase : msg.phase.ahead = false) :
    msg.Coherent s.stored s.Writing :=
  (h.coherent m old hm).of_batch hactive fun _ _ hk => hk.of_eq hbatch hphase

def MessagePhase.isWritten : MessagePhase → Bool
  | .written _ _ => true
  | _ => false

theorem not_written (hm : s.messages m = some old) (hphase : old.phase.isWritten = false) :
    ∀ old, s.messages m = some old → ∀ op result, old.phase ≠ .written op result := by
  intro old' hold op result heq
  cases hm.symm.trans hold
  rw [heq] at hphase
  cases hphase

variable {cfg : Config} {e : Event}

theorem inv_receive (h : Inv s) (hm : s.messages m = none) (ops : List MessageOp) :
    Inv (s.setMessage m (Message.ofOps cfg true ops)) := by
  refine h.setMessage (fun old hold => ?_) (fun op hop => ?_) trivial fun _ key existing hk => ?_
  · rw [hm] at hold
    cases hold
  · cases hop
  · obtain ⟨batch, hbatch, -, hrow⟩ := hk
    cases hbatch
    rcases hrow with hrow | ⟨-, hread⟩
    · cases hrow
    · cases hread

theorem inv_read (h : Inv s) {ops : List MessageOp} {batch : BatchContext} {key : TableRow}
    (hm : s.messages m = some ⟨ops, some batch, .reading⟩) :
    Inv (s.setMessage m ⟨ops, some { batch with
      reads := Function.update batch.reads key (some (getRow (s.stored key))) }, .reading⟩) := by
  refine h.setMessage (not_written hm rfl) (fun op hop => by cases hop) trivial
    fun _ key' existing hk => ?_
  obtain ⟨_, hbatch, hstale, hrow⟩ := hk
  cases hbatch
  have hcoherent := h.coherent m _ hm rfl key' existing
  rcases hrow with hrow | ⟨-, hread⟩
  · exact hcoherent ⟨batch, rfl, hstale, .inl hrow⟩
  · change Function.update batch.reads key (some (getRow (s.stored key))) key' =
      some existing at hread
    by_cases hkey : key' = key
    · subst hkey
      rw [Function.update_self] at hread
      cases hread
      exact .inl (.inl rfl)
    · rw [Function.update_of_ne hkey] at hread
      exact hcoherent ⟨batch, rfl, hstale, .inr ⟨rfl, hread⟩⟩

theorem inv_setRead (h : Inv s) {ops : List MessageOp} {batch : BatchContext} {key : TableRow}
    {existing : ExistingRow} (hm : s.messages m = some ⟨ops, some batch, .reading⟩)
    (hread : batch.reads key = some existing) :
    Inv (s.setMessage m ⟨ops, some { batch with
      rows := Function.update batch.rows key (some existing) }, .reading⟩) := by
  refine h.setMessage (not_written hm rfl) (fun op hop => by cases hop) trivial
    fun _ key' existing' hk => ?_
  obtain ⟨_, hbatch, hstale, hrow⟩ := hk
  cases hbatch
  have hcoherent := h.coherent m _ hm rfl key' existing'
  rcases hrow with hrow | hreads
  · change Function.update batch.rows key (some existing) key' = some existing' at hrow
    by_cases hkey : key' = key
    · subst hkey
      rw [Function.update_self] at hrow
      exact hcoherent ⟨batch, rfl, hstale, .inr ⟨rfl, hread.trans hrow⟩⟩
    · rw [Function.update_of_ne hkey] at hrow
      exact hcoherent ⟨batch, rfl, hstale, .inl hrow⟩
  · exact hcoherent ⟨batch, rfl, hstale, .inr hreads⟩

/-- The op of a message that loops is answered at once, or joins the ops of its row. -/
theorem inv_next (h : Inv s) {ops : List MessageOp} {batch : Option BatchContext}
    (hm : s.messages m = some ⟨op :: ops, batch, .looping⟩) :
    Inv (processClientOp cfg s m ⟨ops, batch, .looping⟩ op) := by
  have hold := not_written hm rfl
  have hanswer : ∀ answer, Inv (s.answerOp m ⟨ops, batch, .looping⟩ op answer) := fun answer =>
    h.update rfl rfl hold (fun _ hop => by cases hop) (fun _ _ _ hhead => hhead) trivial
      (h.coherent_of_eq hm rfl rfl rfl)
  have henqueue : ∀ (reserved : List String) (batch' : Option BatchContext),
      (∀ key existing, (⟨ops, batch', .queued op 0⟩ : Message).Holds key existing →
        (⟨op :: ops, batch, .looping⟩ : Message).Holds key existing) →
      Inv ({ s with reserved := reserved }.enqueue m ⟨ops, batch', .looping⟩ op) := by
    intro reserved batch' hholds
    refine h.update rfl rfl hold (fun _ hop => by cases hop) (fun key i _ hhead => ?_) trivial
      ((h.coherent m _ hm).of_batch rfl hholds)
    change (Function.update s.rowQueues op.rowKey (s.rowQueues op.rowKey ++ [m]) key).head? = some i
    by_cases hkey : key = op.rowKey
    · subst hkey
      rw [Function.update_self, List.head?_append, hhead, Option.some_or]
    · rw [Function.update_of_ne hkey]
      exact hhead
  unfold processClientOp
  split
  · exact hanswer _
  · split
    · cases batch with
      | some batch =>
          dsimp only
          split
          · refine henqueue s.reserved _ fun key existing hk => ?_
            obtain ⟨_, hbatch, hstale, hrow⟩ := hk
            cases hbatch
            exact ⟨batch, rfl, hstale, .inl (hrow.resolve_right fun hreads => by cases hreads.1)⟩
          · exact hanswer _
      | none =>
          dsimp only
          split
          · exact hanswer _
          · exact henqueue _ none fun key existing hk => hk.of_eq rfl rfl
    · exact hanswer _

/-- The op at its turn is rejected, or goes on to be written. -/
theorem inv_attempt (h : Inv s)
    (hold : ∀ old, s.messages m = some old → ∀ op result, old.phase ≠ .written op result)
    (hfirst : (s.rowQueues op.rowKey).head? = some m) (attempt : Nat) (existing : ExistingRow)
    (checks : Except String (Option Row))
    (hcoherent : ∀ phase : MessagePhase, phase.ahead = false →
      ({ msg with phase := phase } : Message).Coherent s.stored s.Writing) :
    Inv (attemptConsistentOp cfg s m msg op attempt existing checks) := by
  have hreject : ∀ reason, Inv (s.finishOp m msg op (.rejected reason)) := fun reason =>
    h.finishOp hold hfirst (hcoherent _ rfl)
  cases checks with
  | error reason => exact hreject _
  | ok payload =>
      simp only [attemptConsistentOp]
      split
      · refine h.setMessage hold (fun op' hop' => ?_) trivial (hcoherent _ rfl)
        cases hop'
        exact hfirst
      · exact hreject _

theorem inv_resolve (h : Inv s) {attempt : Nat} {ops : List MessageOp}
    {batch : Option BatchContext} {existing : ExistingRow} (checks : Except String (Option Row))
    (hm : s.messages m = some ⟨ops, batch, .fetched op attempt existing⟩) :
    Inv (attemptConsistentOp cfg s m
      (if attempt = 0 then
        (⟨ops, batch, .fetched op attempt existing⟩ : Message).cacheRow op.rowKey existing
      else ⟨ops, batch, .fetched op attempt existing⟩) op attempt existing checks) := by
  refine inv_attempt h (not_written hm rfl) (h.first m _ op hm rfl) attempt existing checks
    fun phase hphase => ?_
  split
  · -- what has been read is cached, and is what is stored
    intro _ key existing' hk
    obtain ⟨cached, hbatch, hstale, hrow⟩ := hk
    obtain ⟨batch', rfl, rfl⟩ := Option.map_eq_some_iff.1 hbatch
    have hrow' := hrow.resolve_right fun hreads => by
      rw [show phase.ahead = true from hreads.1] at hphase
      cases hphase
    change Function.update batch'.rows op.rowKey (some existing) key = some existing' at hrow'
    by_cases hkey : key = op.rowKey
    · subst hkey
      rw [Function.update_self] at hrow'
      cases hrow'
      exact .inl (.inl (h.known m _ hm))
    · change Function.update batch'.stale op.rowKey false key = false at hstale
      rw [Function.update_of_ne hkey] at hrow' hstale
      exact h.coherent m _ hm rfl key existing' ⟨batch', rfl, hstale, .inl hrow'⟩
  · exact h.coherent_of_eq hm rfl rfl hphase

theorem inv_write (h : Inv s) {attempt : Nat} {ops : List MessageOp}
    {batch : Option BatchContext} {result : ConflictResult} {expected : Option (Option Hlc)}
    (hm : s.messages m = some ⟨ops, batch, .resolved op attempt result expected⟩) :
    Inv ({ s with
      stored := Function.update s.stored op.rowKey (result.stored op.incoming.hlc) }.setMessage m
        ⟨ops, batch, .written op result⟩) := by
  have hfirst := h.first m _ op hm rfl
  refine ⟨fun i msg' op' hi hop => ?_, fun i msg' hi => ?_,
    fun i msg' hi hactive key existing hk => ?_⟩
  · rcases update_cases hi with ⟨rfl, rfl⟩ | ⟨-, hi'⟩
    · cases hop
      exact hfirst
    · exact h.first i msg' op' hi' hop
  · rcases update_cases hi with ⟨rfl, rfl⟩ | ⟨hne, hi'⟩
    · exact Function.update_self ..
    · -- another message at a row is at another one
      have hother : ∀ op', msg'.phase.atRow = some op' → op'.rowKey ≠ op.rowKey :=
        fun op' hop' hkey => hne (h.at_eq hfirst hi' hop' hkey)
      have hknown := h.known i msg' hi'
      change msg'.phase.Known (Function.update s.stored op.rowKey (result.stored op.incoming.hlc))
      cases hphase : msg'.phase with
      | fetched op' _ existing =>
          rw [hphase] at hknown
          rw [MessagePhase.Known, Function.update_of_ne (hother op' (by rw [hphase]; rfl))]
          exact hknown
      | written op' _ =>
          rw [hphase] at hknown
          rw [MessagePhase.Known, Function.update_of_ne (hother op' (by rw [hphase]; rfl))]
          exact hknown
      | _ => trivial
  · by_cases hkey : key = op.rowKey
    · right
      exact ⟨m, _, op, result, Function.update_self .., rfl, hkey.symm⟩
    · change Fits existing
        (Function.update s.stored op.rowKey (result.stored op.incoming.hlc) key) ∨ _
      rw [Function.update_of_ne hkey]
      have hbefore : Fits existing (s.stored key) ∨ s.Writing key := by
        rcases update_cases hi with ⟨rfl, rfl⟩ | ⟨-, hi'⟩
        · exact h.coherent i _ hm rfl key existing (hk.of_eq rfl rfl)
        · exact h.coherent i msg' hi' hactive key existing hk
      refine hbefore.imp id fun ⟨m', msg'', op'', result'', hm'', hphase, hkey''⟩ => ?_
      have hne : m' ≠ m := by
        rintro rfl
        cases hm.symm.trans hm''
        cases hphase
      exact ⟨m', msg'', op'', result'', (Function.update_of_ne hne ..).trans hm'', hphase, hkey''⟩

/-- What a write leaves in the batch context fits what it leaves in the storage. -/
theorem fits_cached (result : ConflictResult) (hlc : Hlc) :
    Fits (result.cached hlc) (result.stored hlc) := by
  cases hrow : result.resolvedRow with
  | none => exact .inr ⟨by simp [ConflictResult.stored, hrow], hrow, rfl⟩
  | some row =>
      left
      simp [ConflictResult.cached, ConflictResult.stored, hrow, getRow]

@[simp] theorem phase_markStale (key : TableRow) : (msg.markStale key).phase = msg.phase :=
  rfl

/-- A message that is told of a write holds nothing of the row. -/
theorem Message.Holds.of_markStale {key key' : TableRow} {existing : ExistingRow}
    (h : (msg.markStale key).Holds key' existing) : key' ≠ key ∧ msg.Holds key' existing := by
  obtain ⟨_, hbatch, hstale, hrow⟩ := h
  obtain ⟨batch, hmsg, rfl⟩ := Option.map_eq_some_iff.1 hbatch
  change Function.update batch.stale key true key' = false at hstale
  by_cases hkey : key' = key
  · subst hkey
    simp at hstale
  · rw [Function.update_of_ne hkey] at hstale
    exact ⟨hkey, batch, hmsg, hstale, hrow⟩

/-- The messages after a write is done. -/
theorem messages_written {key : TableRow} {existing : ExistingRow} {i : Nat} {msg' : Message}
    (hi : ((s.recordBatchWrite m key existing).finishOp m msg op answer).messages i = some msg') :
    (i = m ∧ msg' = { msg with phase := .looping }) ∨
      (i ≠ m ∧ ∃ old, s.messages i = some old ∧
        msg' = if old.active then old.markStale key else old) := by
  rcases update_cases hi with hself | ⟨hm, hother⟩
  · exact .inl hself
  · obtain ⟨old, hold, rfl⟩ := Option.map_eq_some_iff.1 hother
    exact .inr ⟨hm, old, hold, if_neg hm⟩

theorem phase_told (old : Message) (key : TableRow) :
    (if old.active then old.markStale key else old).phase = old.phase := by
  split <;> rfl

/-- The write is done: the batch contexts of the other messages are told of it, and the message's
own one has what it wrote. -/
theorem inv_written (h : Inv s) {ops : List MessageOp} {batch : Option BatchContext}
    {result : ConflictResult} (hm : s.messages m = some ⟨ops, batch, .written op result⟩) :
    Inv ((s.recordBatchWrite m op.rowKey (result.cached op.incoming.hlc)).finishOp m
      ((⟨ops, batch, .written op result⟩ : Message).cacheRow op.rowKey
        (result.cached op.incoming.hlc)) op .accepted) := by
  have hfirst := h.first m _ op hm rfl
  refine ⟨fun i msg' op' hi hop => ?_, fun i msg' hi => ?_,
    fun i msg' hi hactive key existing hk => ?_⟩
  · rcases messages_written hi with ⟨-, rfl⟩ | ⟨hne, old, hold, rfl⟩
    · cases hop
    · rw [phase_told] at hop
      have hkey : op'.rowKey ≠ op.rowKey := fun hkey => hne (h.at_eq hfirst hold hop hkey)
      change (Function.update s.rowQueues op.rowKey _ op'.rowKey).head? = some i
      rw [Function.update_of_ne hkey]
      exact h.first i old op' hold hop
  · rcases messages_written hi with ⟨-, rfl⟩ | ⟨-, old, hold, rfl⟩
    · trivial
    · rw [phase_told]
      exact h.known i old hold
  · -- whoever else is writing is still at it
    have hwriting : key ≠ op.rowKey → s.Writing key →
        ((s.recordBatchWrite m op.rowKey (result.cached op.incoming.hlc)).finishOp m
          ((⟨ops, batch, .written op result⟩ : Message).cacheRow op.rowKey
            (result.cached op.incoming.hlc)) op .accepted).Writing key := by
      rintro hne ⟨m', old, op', result', hold, hphase, hkey⟩
      have hm' : m' ≠ m := by
        rintro rfl
        cases hm.symm.trans hold
        cases hphase
        exact hne hkey.symm
      refine ⟨m', if old.active then old.markStale op.rowKey else old, op', result', ?_,
        (phase_told old op.rowKey).trans hphase, hkey⟩
      change Function.update _ m _ m' = _
      rw [Function.update_of_ne hm']
      simp [State.recordBatchWrite, hold, hm']
    change Fits existing (s.stored key) ∨ _
    rcases messages_written hi with ⟨-, rfl⟩ | ⟨-, old, hold, rfl⟩
    · obtain ⟨_, hbatch, hstale, hrow⟩ := hk
      obtain ⟨batch', rfl, rfl⟩ := Option.map_eq_some_iff.1 hbatch
      have hrow' := hrow.resolve_right fun hreads => by cases hreads.1
      change Function.update batch'.rows op.rowKey _ key = some existing at hrow'
      change Function.update batch'.stale op.rowKey false key = false at hstale
      by_cases hkey : key = op.rowKey
      · subst hkey
        rw [Function.update_self] at hrow'
        cases hrow'
        have hstored : s.stored op.rowKey = result.stored op.incoming.hlc := h.known m _ hm
        rw [hstored]
        exact .inl (fits_cached result _)
      · rw [Function.update_of_ne hkey] at hrow' hstale
        exact (h.coherent m _ hm rfl key existing ⟨batch', rfl, hstale, .inl hrow'⟩).imp id
          (hwriting hkey)
    · by_cases hwas : old.active = true
      · rw [if_pos hwas] at hk
        obtain ⟨hkey, hheld⟩ := hk.of_markStale
        exact (h.coherent i old hold hwas key existing hheld).imp id (hwriting hkey)
      · rw [if_neg hwas] at hactive
        exact absurd hactive hwas

theorem atRow_reservePhase (ids : List String) : (reservePhase ids).atRow = none := by
  cases ids <;> rfl

theorem inv_stepped (h : Inv s) (hs : Stepped cfg s e s') : Inv s' := by
  cases hs with
  | receive hm => exact inv_receive h hm _
  | @reserve m ops batch ids hm =>
      refine h.update rfl rfl (not_written hm rfl) (fun op hop => ?_) (fun _ _ _ hhead => hhead) ?_
        ((h.coherent _ _ hm).of_batch rfl fun key existing hk => ?_)
      · rw [atRow_reservePhase] at hop
        cases hop
      · cases (reserveCall cfg ids).2 <;> trivial
      · obtain ⟨_, hbatch, hstale, hrow⟩ := hk
        cases hbatch
        exact ⟨_, rfl, hstale, hrow.imp id fun hreads => ⟨rfl, hreads.2⟩⟩
  | read hm => exact inv_read h hm
  | setRead hm hread => exact inv_setRead h hm hread
  | startLoop hm =>
      exact h.setMessage (not_written hm rfl) (fun _ hop => by cases hop) trivial
        (h.coherent_of_eq hm rfl rfl rfl)
  | next hm => exact inv_next h hm
  | @readCached m ops batch op existing checks hm hfirst hcached =>
      exact inv_attempt h (not_written hm rfl) hfirst 0 existing checks
        fun phase hphase => h.coherent_of_eq hm rfl rfl hphase
  | fetch hm hfirst =>
      refine h.setMessage (not_written hm rfl) (fun _ hop => ?_) rfl
        (h.coherent_of_eq hm rfl rfl rfl)
      cases hop
      exact hfirst
  | resolve checks hm => exact inv_resolve h checks hm
  | refuse reason hm =>
      exact h.finishOp (not_written hm rfl) (h.first _ _ _ hm rfl)
        (h.coherent_of_eq hm rfl rfl rfl)
  | retry hm _ _ =>
      exact h.setMessage (not_written hm rfl) (fun _ hop => by cases hop) trivial
        (h.coherent_of_eq hm rfl rfl rfl)
  | giveUp hm _ _ =>
      exact h.finishOp (not_written hm rfl) (h.first _ _ _ hm rfl)
        (h.coherent_of_eq hm rfl rfl rfl)
  | write hm _ => exact inv_write h hm
  | written hm => exact inv_written h hm
  | finish hm =>
      exact h.setMessage (not_written hm rfl) (fun _ hop => by cases hop) trivial
        (h.coherent_of_eq hm rfl rfl rfl)

/-! ## The reservations -/

/-- The ids that the message has still to reserve. -/
def MessagePhase.toReserve : MessagePhase → List String
  | .reserving ids => ids
  | _ => []

/-- A reserved id is one that an op has been taken with, `used`, or is held by just one message. -/
structure Reserves (cfg : Config) (s : State) (used : List String) : Prop where
  batch : ∀ m msg, s.messages m = some msg → msg.batch.isSome
  reserved : ∀ id, id ∈ s.reserved ↔
    id ∈ used ∨ ∃ m msg, s.messages m = some msg ∧ id ∈ msg.fresh
  unused : ∀ m msg, s.messages m = some msg → ∀ id ∈ msg.fresh, id ∉ used
  apart : ∀ m m' msg msg' id, s.messages m = some msg → s.messages m' = some msg' →
    id ∈ msg.fresh → id ∈ msg'.fresh → m = m'
  asked : ∀ m msg, s.messages m = some msg → ∀ op ∈ msg.ops, cfg.reservable op = true →
    op.id ∈ s.reserved ∨ op.id ∈ msg.phase.toReserve

variable {used : List String}

theorem reserves_start : Reserves cfg .start [] :=
  ⟨fun _ _ h => by simp [State.start] at h, fun _ => by simp [State.start],
    fun _ _ h => by simp [State.start] at h, fun _ _ _ _ _ h => by simp [State.start] at h,
    fun _ _ h => by simp [State.start] at h⟩

/-- The message holds the same ids, and has no more ops. -/
structure Message.Follows (msg old : Message) : Prop where
  batch : old.batch.isSome → msg.batch.isSome
  fresh : msg.fresh = old.fresh
  ops : ∀ op ∈ msg.ops, op ∈ old.ops
  asked : ∀ id ∈ old.phase.toReserve, id ∈ msg.phase.toReserve

theorem Reserves.of_follows (h : Reserves cfg s used) (hreserved : s'.reserved = s.reserved)
    (hsome : ∀ i, (s.messages i).isSome → (s'.messages i).isSome)
    (hback : ∀ i msg, s'.messages i = some msg →
      ∃ old, s.messages i = some old ∧ msg.Follows old) : Reserves cfg s' used := by
  have hfresh : ∀ id, (∃ m msg, s'.messages m = some msg ∧ id ∈ msg.fresh) ↔
      ∃ m msg, s.messages m = some msg ∧ id ∈ msg.fresh := by
    intro id
    constructor
    · rintro ⟨i, msg, hi, hid⟩
      obtain ⟨old, hold, hfollows⟩ := hback i msg hi
      exact ⟨i, old, hold, hfollows.fresh ▸ hid⟩
    · rintro ⟨i, old, hold, hid⟩
      obtain ⟨msg, hi⟩ := Option.isSome_iff_exists.1 (hsome i (by simp [hold]))
      obtain ⟨old', hold', hfollows⟩ := hback i msg hi
      cases hold.symm.trans hold'
      exact ⟨i, msg, hi, hfollows.fresh ▸ hid⟩
  refine ⟨fun i msg hi => ?_, fun id => ?_, fun i msg hi id hid => ?_,
    fun i i' msg msg' id hi hi' hid hid' => ?_, fun i msg hi op hop hreservable => ?_⟩
  · obtain ⟨old, hold, hfollows⟩ := hback i msg hi
    exact hfollows.batch (h.batch i old hold)
  · rw [hreserved, h.reserved id, hfresh id]
  · obtain ⟨old, hold, hfollows⟩ := hback i msg hi
    exact h.unused i old hold id (hfollows.fresh ▸ hid)
  · obtain ⟨old, hold, hfollows⟩ := hback i msg hi
    obtain ⟨old', hold', hfollows'⟩ := hback i' msg' hi'
    exact h.apart i i' old old' id hold hold' (hfollows.fresh ▸ hid) (hfollows'.fresh ▸ hid')
  · obtain ⟨old, hold, hfollows⟩ := hback i msg hi
    rw [hreserved]
    exact (h.asked i old hold op (hfollows.ops op hop) hreservable).imp id (hfollows.asked _)

/-- One message goes on. -/
theorem Reserves.update (h : Reserves cfg s used) (hm : s.messages m = some old)
    (hreserved : s'.reserved = s.reserved)
    (hmessages : s'.messages = Function.update s.messages m (some msg))
    (hfollows : msg.Follows old) : Reserves cfg s' used := by
  refine h.of_follows hreserved (fun i hi => ?_) fun i msg' hi => ?_
  · rw [hmessages]
    by_cases him : i = m
    · subst him
      simp
    · rw [Function.update_of_ne him]
      exact hi
  · rw [hmessages] at hi
    rcases update_cases hi with ⟨rfl, rfl⟩ | ⟨-, hother⟩
    · exact ⟨old, hm, hfollows⟩
    · exact ⟨msg', hother, ⟨fun hb => hb, rfl, fun _ hop => hop, fun _ hid => hid⟩⟩

theorem Reserves.mem_reserved_iff (h : Reserves cfg s used) (hm : s.messages m = some msg)
    (id : String) : id ∈ s.reserved ↔ id ∈ used ∨ id ∈ msg.fresh ∨ s.HeldElsewhere m id := by
  rw [h.reserved id]
  constructor
  · rintro (hused | ⟨i, other, hi, hid⟩)
    · exact .inl hused
    · by_cases him : i = m
      · subst him
        cases hm.symm.trans hi
        exact .inr (.inl hid)
      · exact .inr (.inr ⟨i, other, him, hi, hid⟩)
  · rintro (hused | hid | ⟨i, other, -, hi, hid⟩)
    · exact .inl hused
    · exact .inr ⟨m, msg, hm, hid⟩
    · exact .inr ⟨i, other, hi, hid⟩

theorem Reserves.unused_elsewhere (h : Reserves cfg s used) {id : String}
    (hid : s.HeldElsewhere m id) : id ∉ used := by
  obtain ⟨i, other, -, hi, hfresh⟩ := hid
  exact h.unused i other hi id hfresh

theorem Reserves.apart_elsewhere (h : Reserves cfg s used) (hm : s.messages m = some msg)
    {id : String} (hid : s.HeldElsewhere m id) : id ∉ msg.fresh := by
  obtain ⟨i, other, hne, hi, hfresh⟩ := hid
  exact fun hown => hne (h.apart i m other msg id hi hm hfresh hown)

/-- A message comes to hold other ids. -/
theorem Reserves.put (h : Reserves cfg s used) {used' : List String}
    (hmessages : s'.messages = Function.update s.messages m (some msg))
    (hgrows : ∀ id ∈ s.reserved, id ∈ s'.reserved) (hbatch : msg.batch.isSome)
    (hreserved : ∀ id, id ∈ s'.reserved ↔ id ∈ used' ∨ id ∈ msg.fresh ∨ s.HeldElsewhere m id)
    (hunused : ∀ id ∈ msg.fresh, id ∉ used')
    (helsewhere : ∀ id, s.HeldElsewhere m id → id ∉ used' ∧ id ∉ msg.fresh)
    (hasked : ∀ op ∈ msg.ops, cfg.reservable op = true →
      op.id ∈ s'.reserved ∨ op.id ∈ msg.phase.toReserve) : Reserves cfg s' used' := by
  have hself : s'.messages m = some msg := by rw [hmessages, Function.update_self]
  have hother : ∀ {i other}, i ≠ m → s.messages i = some other → s'.messages i = some other :=
    fun him hi => by rwa [hmessages, Function.update_of_ne him]
  have hcases : ∀ {i msg'}, s'.messages i = some msg' →
      (i = m ∧ msg' = msg) ∨ (i ≠ m ∧ s.messages i = some msg') :=
    fun hi => update_cases (by rwa [hmessages] at hi)
  refine ⟨fun i msg' hi => ?_, fun id => ?_, fun i msg' hi id hid => ?_,
    fun i j msg₁ msg₂ id hi hj hid₁ hid₂ => ?_, fun i msg' hi op hop hreservable => ?_⟩
  · rcases hcases hi with ⟨-, rfl⟩ | ⟨-, hi'⟩
    · exact hbatch
    · exact h.batch i msg' hi'
  · rw [hreserved id]
    constructor
    · rintro (hused | hid | ⟨i, other, him, hi, hid⟩)
      · exact .inl hused
      · exact .inr ⟨m, msg, hself, hid⟩
      · exact .inr ⟨i, other, hother him hi, hid⟩
    · rintro (hused | ⟨i, other, hi, hid⟩)
      · exact .inl hused
      · rcases hcases hi with ⟨-, rfl⟩ | ⟨him, hi'⟩
        · exact .inr (.inl hid)
        · exact .inr (.inr ⟨i, other, him, hi', hid⟩)
  · rcases hcases hi with ⟨-, rfl⟩ | ⟨him, hi'⟩
    · exact hunused id hid
    · exact (helsewhere id ⟨i, msg', him, hi', hid⟩).1
  · rcases hcases hi with ⟨rfl, rfl⟩ | ⟨him, hi'⟩
    · rcases hcases hj with ⟨rfl, -⟩ | ⟨hjm, hj'⟩
      · rfl
      · exact absurd hid₁ (helsewhere id ⟨j, msg₂, hjm, hj', hid₂⟩).2
    · rcases hcases hj with ⟨-, rfl⟩ | ⟨-, hj'⟩
      · exact absurd hid₂ (helsewhere id ⟨i, msg₁, him, hi', hid₁⟩).2
      · exact h.apart i j msg₁ msg₂ id hi' hj' hid₁ hid₂
  · rcases hcases hi with ⟨-, rfl⟩ | ⟨-, hi'⟩
    · exact hasked op hop hreservable
    · exact (h.asked i msg' hi' op hop hreservable).imp (hgrows _) id

end Prefetch
end Server
end Reflectdb
