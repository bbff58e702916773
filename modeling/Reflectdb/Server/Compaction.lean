import Mathlib.Data.String.Basic
import Reflectdb.Lib.Machine
import Reflectdb.Server.Poll

/-!
# Compaction — the cutoff of the op log and the resumes it decides

Any number of instances over one storage.  Each loads the persisted cutoff once and then goes by its
own copy; a compaction compares with the copy, writes the new cutoff and deletes the ops below it; a
resume compares with the copy and then reads the log.  A task is moved on from await to await.
-/

namespace Reflectdb
namespace Server

open Client

/-! ## Model -/

/-- Never compact ops younger than this. -/
def MIN_COMPACTION_AGE_MS : Nat := 30000

/-- `String(ms).padStart(19, "0") + ".9999.compaction"`. -/
def cutoffFor (ms : Nat) : Hlc :=
  let digits := toString ms
  String.ofList (List.replicate (19 - digits.length) '0') ++ digits ++ ".9999.compaction"

/-- What a task is for. -/
inductive CompactionJob
  | runCompaction (minOpAge : Nat)
  | handleResume (since : Hlc)
  deriving DecidableEq

/-- Where a `runCompaction` or `handleResume` stands. -/
inductive CompactionTask
  | locking (minOpAge : Nat)
  /-- At `ensureCutoffLoaded`. -/
  | ensuring (job : CompactionJob)
  | loading (job : CompactionJob)
  | loaded (job : CompactionJob) (cutoff : Option Hlc)
  | ready (job : CompactionJob)
  /-- A compaction is writing its cutoff. -/
  | writing (cutoff : Hlc)
  /-- The write of a process that is gone. -/
  | sent (cutoff : Hlc)
  | deleting (cutoff : Hlc)
  /-- A resume has passed its check and is about to read the log. -/
  | reading (since : Hlc)
  | done
  deriving DecidableEq

/-- A resume about to read the log, and its watermark. -/
def CompactionTask.readingFrom : CompactionTask → Option Hlc
  | .reading since => some since
  | _ => none

/-- The cutoff a compaction is writing. -/
def CompactionTask.writes : CompactionTask → Option Hlc
  | .writing cutoff => some cutoff
  | .sent cutoff => some cutoff
  | _ => none

/-- The process of the task is gone; what it has sent to the storage may still take effect. -/
def CompactionTask.afterCrash : CompactionTask → CompactionTask
  | .writing cutoff => .sent cutoff
  | .sent cutoff => .sent cutoff
  | .deleting cutoff => .deleting cutoff
  | _ => .done

/-- One process: its copy of the cutoff, and whether it has asked for it. -/
structure CompactionCopy where
  cutoffHlc : Option Hlc
  cutoffLoaded : Bool

/-- An incremental resume, with the highest cutoff below which ops were deleted when the log was
read. -/
structure Resumed where
  since : Hlc
  deletedTo : Option Hlc
  deriving DecidableEq

structure CompactionState where
  /-- The meta value `compactionCutoff`. -/
  persisted : Option Hlc
  log : List LogOp
  instances : Nat → CompactionCopy
  /-- The tasks, each of an instance. -/
  tasks : List (Nat × CompactionTask)
  /-- The cutoffs persisted so far, the highest cutoff deleted to, and the incremental resumes.  No
  step reads them. -/
  history : List Hlc
  deletedTo : Option Hlc
  resumes : List Resumed

inductive CompactionEvent
  | append (writer : Nat) (table : String) (hlc : Hlc)
  | runCompaction (instance_ minOpAge : Nat)
  | handleResume (instance_ : Nat) (since : Hlc)
  /-- `tryLock` answers, on an adapter that has it.  Whether it excludes anyone is left open. -/
  | lock (task : Nat) (granted : Bool)
  | ensure (task : Nat)
  /-- The `getMeta` of a load reads the stored cutoff. -/
  | readMeta (task : Nat)
  | setCopy (task : Nat)
  /-- A compaction computes its cutoff and compares it with the copy. -/
  | compare (task now : Nat)
  /-- `setMeta` ends; it may throw, before or after its effect. -/
  | write (task : Nat) (tookEffect threw : Bool)
  | delete (task : Nat)
  /-- A resume compares its watermark with the copy. -/
  | check (task : Nat)
  | readLog (task : Nat)
  /-- A storage call of the task throws. -/
  | throw (task : Nat)
  /-- The process ends and a new one takes its place. -/
  | restart (instance_ : Nat)

namespace CompactionState

def start : CompactionState where
  persisted := none
  log := []
  instances := fun _ => ⟨none, false⟩
  tasks := []
  history := []
  deletedTo := none
  resumes := []

def addTask (s : CompactionState) (i : Nat) (task : CompactionTask) : CompactionState :=
  { s with tasks := s.tasks ++ [(i, task)] }

def setTask (s : CompactionState) (t i : Nat) (task : CompactionTask) : CompactionState :=
  { s with tasks := s.tasks.set t (i, task) }

def setInstance (s : CompactionState) (i : Nat) (copy : CompactionCopy) : CompactionState :=
  { s with instances := Function.update s.instances i copy }

/-- `setMeta("compactionCutoff", cutoff)`. -/
def persist (s : CompactionState) (cutoff : Hlc) : CompactionState :=
  { s with persisted := some cutoff, history := s.history ++ [cutoff] }

/-- `deleteOpsBefore`. -/
def deleteOpsBefore (s : CompactionState) (cutoff : Hlc) : CompactionState :=
  { s with
    log := s.log.filter fun op => ¬ op.hlc < cutoff
    deletedTo := some (max (s.deletedTo.getD cutoff) cutoff) }

end CompactionState

/-- `ensureCutoffLoaded` up to its await: only the first task of a process loads. -/
def stepEnsure (s : CompactionState) (t : Nat) : Option CompactionState :=
  match s.tasks[t]? with
  | some (i, .ensuring job) =>
    if (s.instances i).cutoffLoaded then some (s.setTask t i (.ready job))
    else
      some ((s.setInstance i { s.instances i with cutoffLoaded := true }).setTask t i
        (.loading job))
  | _ => none

/-- The rest of `ensureCutoffLoaded`: an empty value counts as none. -/
def stepSetCopy (s : CompactionState) (t : Nat) : Option CompactionState :=
  match s.tasks[t]? with
  | some (i, .loaded job cutoff) =>
    let copy := s.instances i
    let copy :=
      match cutoff.filter (· ≠ "") with
      | some c => { copy with cutoffHlc := some c }
      | none => copy
    some ((s.setInstance i copy).setTask t i (.ready job))
  | _ => none

/-- The copy lets a compaction with this cutoff go on. -/
def CompactionCopy.admits (copy : CompactionCopy) (cutoff : Hlc) : Bool :=
  match copy.cutoffHlc with
  | some c => c < cutoff
  | none => true

/-- The copy lets a resume from this watermark go on. -/
def CompactionCopy.allowsResume (copy : CompactionCopy) (since : Hlc) : Bool :=
  match copy.cutoffHlc with
  | some c => ¬ since < c
  | none => true

/-- The cutoff of a compaction. -/
def compactionCutoff (now minOpAge : Nat) : Hlc :=
  cutoffFor (now - max minOpAge MIN_COMPACTION_AGE_MS)

def stepCompare (s : CompactionState) (t now : Nat) : Option CompactionState :=
  match s.tasks[t]? with
  | some (i, .ready (.runCompaction minOpAge)) =>
    let cutoff := compactionCutoff now minOpAge
    if (s.instances i).admits cutoff then
      -- Commit cutoff first, then lazily delete ops.
      some ((s.setInstance i { s.instances i with cutoffHlc := some cutoff }).setTask t i
        (.writing cutoff))
    else some (s.setTask t i .done)
  | _ => none

def stepWrite (s : CompactionState) (t : Nat) (tookEffect threw : Bool) :
    Option CompactionState :=
  match s.tasks[t]? with
  | some (i, .writing cutoff) =>
    if threw then
      some ((if tookEffect then s.persist cutoff else s).setTask t i .done)
    else some ((s.persist cutoff).setTask t i (.deleting cutoff))
  | some (i, .sent cutoff) =>
    some ((if tookEffect then s.persist cutoff else s).setTask t i .done)
  | _ => none

def stepCheck (s : CompactionState) (t : Nat) : Option CompactionState :=
  match s.tasks[t]? with
  | some (i, .ready (.handleResume since)) =>
    if (s.instances i).allowsResume since then some (s.setTask t i (.reading since))
    else some (s.setTask t i .done)
  | _ => none

def compactionStep (s : CompactionState) : CompactionEvent → Option CompactionState
  | .append writer table hlc => some { s with log := s.log ++ [⟨table, hlc, writer⟩] }
  | .runCompaction i minOpAge => some (s.addTask i (.locking minOpAge))
  | .handleResume i since => some (s.addTask i (.ensuring (.handleResume since)))
  | .lock t granted =>
    match s.tasks[t]? with
    | some (i, .locking minOpAge) =>
      some (s.setTask t i (if granted then .ensuring (.runCompaction minOpAge) else .done))
    | _ => none
  | .ensure t => stepEnsure s t
  | .readMeta t =>
    match s.tasks[t]? with
    | some (i, .loading job) => some (s.setTask t i (.loaded job s.persisted))
    | _ => none
  | .setCopy t => stepSetCopy s t
  | .compare t now => stepCompare s t now
  | .write t tookEffect threw => stepWrite s t tookEffect threw
  | .delete t =>
    match s.tasks[t]? with
    | some (i, .deleting cutoff) => some ((s.deleteOpsBefore cutoff).setTask t i .done)
    | _ => none
  | .check t => stepCheck s t
  | .readLog t =>
    match s.tasks[t]? with
    | some (i, .reading since) =>
      some { s.setTask t i .done with resumes := s.resumes ++ [⟨since, s.deletedTo⟩] }
    | _ => none
  | .throw t =>
    match s.tasks[t]? with
    | some (i, _) => some (s.setTask t i .done)
    | none => none
  | .restart i =>
    some { s.setInstance i ⟨none, false⟩ with
      tasks := s.tasks.map fun task => (task.1, if task.1 = i then task.2.afterCrash else task.2) }

def compactionMachine : Lib.Machine CompactionState CompactionEvent :=
  ⟨.start, compactionStep⟩

/-! ## The cutoff guards the log -/

/-- The persisted cutoff has never decreased, and no log truncated above a resume's watermark has
served the resume. -/
structure CutoffSound (s : CompactionState) : Prop where
  monotone : s.history.Pairwise (· ≤ ·)
  resumes : ∀ r ∈ s.resumes, ∀ d ∈ r.deletedTo, ¬ r.since < d

/-- The copy is not behind a cutoff in the storage. -/
def CompactionCopy.Covers (copy : CompactionCopy) (stored : Option Hlc) : Prop :=
  ∀ p ∈ stored, ∃ c ∈ copy.cutoffHlc, p ≤ c

instance (copy : CompactionCopy) (stored : Option Hlc) : Decidable (copy.Covers stored) :=
  inferInstanceAs (Decidable (∀ p ∈ stored, ∃ c ∈ copy.cutoffHlc, p ≤ c))

/-- The copy that decides is not behind the storage.  No other cutoff is being written when a
compaction goes on to write its own, and no resume is between its check and its read when the ops
above its watermark go. -/
def CopiesCurrent (s : CompactionState) : CompactionEvent → Prop
  | .compare t now =>
    match s.tasks[t]? with
    | some (i, .ready (.runCompaction minOpAge)) =>
      (s.instances i).admits (compactionCutoff now minOpAge) = true →
        (s.instances i).Covers s.persisted ∧ ∀ other ∈ s.tasks, other.2.writes = none
    | _ => True
  | .check t =>
    match s.tasks[t]? with
    | some (i, .ready (.handleResume _)) => (s.instances i).Covers s.deletedTo
    | _ => True
  | .delete t =>
    match s.tasks[t]? with
    | some (_, .deleting cutoff) =>
      ∀ other ∈ s.tasks, ∀ since ∈ other.2.readingFrom, cutoff ≤ since
    | _ => True
  | _ => True

instance (s : CompactionState) (e : CompactionEvent) : Decidable (CopiesCurrent s e) := by
  unfold CopiesCurrent
  split
  · split <;> infer_instance
  · split <;> infer_instance
  · split <;> infer_instance
  · infer_instance

/-! ## The invariant -/

/-- The cutoff being written is not below the persisted one, and is the only one; a resume that has
passed its check is not below what is deleted. -/
structure CutoffInv (s : CompactionState) : Prop where
  sound : CutoffSound s
  last : s.persisted = s.history.getLast?
  writing : ∀ (t : Nat) (task : Nat × CompactionTask), s.tasks[t]? = some task →
    ∀ cutoff ∈ task.2.writes, ∀ p ∈ s.persisted, p ≤ cutoff
  oneWriter : ∀ (t t' : Nat) (task task' : Nat × CompactionTask), s.tasks[t]? = some task →
    s.tasks[t']? = some task' → task.2.writes.isSome → task'.2.writes.isSome → t = t'
  reading : ∀ (t : Nat) (task : Nat × CompactionTask), s.tasks[t]? = some task →
    ∀ since ∈ task.2.readingFrom, ∀ d ∈ s.deletedTo, d ≤ since

variable {s s' : CompactionState}

/-- A task of the new list is the one set, or an old one at another place. -/
theorem getElem?_setTask {t i : Nat} {new : CompactionTask} {t' : Nat}
    {task : Nat × CompactionTask} (h : (s.setTask t i new).tasks[t']? = some task) :
    (t' = t ∧ task = (i, new)) ∨ (t' ≠ t ∧ s.tasks[t']? = some task) := by
  have h' : (s.tasks.set t (i, new))[t']? = some task := h
  rw [List.getElem?_set] at h'
  split at h'
  · rename_i heq
    split at h'
    · cases h'
      exact Or.inl ⟨heq.symm, rfl⟩
    · cases h'
  · rename_i hne
    exact Or.inr ⟨Ne.symm hne, h'⟩

/-- Steps that leave storage and history alone and let no task begin to write or read. -/
theorem CutoffInv.quiet (h : CutoffInv s) (hpersisted : s'.persisted = s.persisted)
    (hhistory : s'.history = s.history) (hdeleted : s'.deletedTo = s.deletedTo)
    (hresumes : s'.resumes = s.resumes)
    (htasks : ∀ (t : Nat) (task : Nat × CompactionTask), s'.tasks[t]? = some task →
      (task.2.writes = none ∧ task.2.readingFrom = none) ∨
        ∃ old, s.tasks[t]? = some old ∧ task.2.writes = old.2.writes ∧
          (∀ since ∈ task.2.readingFrom, since ∈ old.2.readingFrom)) : CutoffInv s' := by
  constructor
  · exact ⟨hhistory ▸ h.sound.monotone, hresumes ▸ h.sound.resumes⟩
  · rw [hpersisted, hhistory]
    exact h.last
  · intro t task ht cutoff hcutoff p hp
    rcases htasks t task ht with hnew | ⟨old, hold, heq, _⟩
    · rw [hnew.1] at hcutoff
      cases hcutoff
    · exact h.writing t old hold cutoff (heq ▸ hcutoff) p (hpersisted ▸ hp)
  · intro t t' task task' ht ht' hw hw'
    rcases htasks t task ht with hnew | ⟨old, hold, heq, _⟩
    · simp [hnew.1] at hw
    · rcases htasks t' task' ht' with hnew' | ⟨old', hold', heq', _⟩
      · simp [hnew'.1] at hw'
      · exact h.oneWriter t t' old old' hold hold' (heq ▸ hw) (heq' ▸ hw')
  · intro t task ht since hsince d hd
    rcases htasks t task ht with hnew | ⟨old, hold, _, hreads⟩
    · rw [hnew.2] at hsince
      cases hsince
    · exact h.reading t old hold since (hreads since hsince) d (hdeleted ▸ hd)

/-- A task set to one that neither writes nor reads. -/
theorem CutoffInv.setTask (h : CutoffInv s) {t i : Nat} {new : CompactionTask}
    (hwrites : new.writes = none) (hreads : new.readingFrom = none) :
    CutoffInv (s.setTask t i new) := by
  refine h.quiet rfl rfl rfl rfl fun t' task ht => ?_
  rcases getElem?_setTask ht with ⟨_, heq⟩ | ⟨_, hold⟩
  · subst heq
    exact Or.inl ⟨hwrites, hreads⟩
  · exact Or.inr ⟨task, hold, rfl, fun _ hsince => hsince⟩

theorem CutoffInv.addTask (h : CutoffInv s) {i : Nat} {new : CompactionTask}
    (hwrites : new.writes = none) (hreads : new.readingFrom = none) :
    CutoffInv (s.addTask i new) := by
  refine h.quiet rfl rfl rfl rfl fun t task ht => ?_
  have ht' : (s.tasks ++ [(i, new)])[t]? = some task := ht
  by_cases hlt : t < s.tasks.length
  · rw [List.getElem?_append_left hlt] at ht'
    exact Or.inr ⟨task, ht', rfl, fun _ hsince => hsince⟩
  · rw [List.getElem?_append_right (Nat.le_of_not_lt hlt)] at ht'
    have heq : task = (i, new) := by simpa using List.mem_of_getElem? ht'
    subst heq
    exact Or.inl ⟨hwrites, hreads⟩

theorem CutoffInv.setInstance (h : CutoffInv s) {i : Nat} {copy : CompactionCopy} :
    CutoffInv (s.setInstance i copy) :=
  h.quiet rfl rfl rfl rfl fun _ task ht => Or.inr ⟨task, ht, rfl, fun _ hsince => hsince⟩
/-! ## The steps -/

theorem CutoffInv.ensure (h : CutoffInv s) {t : Nat} (hs : stepEnsure s t = some s') :
    CutoffInv s' := by
  simp only [stepEnsure] at hs
  split at hs
  · split at hs <;> cases hs
    · exact h.setTask rfl rfl
    · exact h.setInstance.setTask rfl rfl
  · cases hs

theorem CutoffInv.setCopy (h : CutoffInv s) {t : Nat} (hs : stepSetCopy s t = some s') :
    CutoffInv s' := by
  simp only [stepSetCopy] at hs
  split at hs
  · cases hs
    exact h.setInstance.setTask rfl rfl
  · cases hs

/-- An admitted cutoff is above the copy, and so above what is persisted. -/
theorem CompactionCopy.Covers.lt_of_admits {copy : CompactionCopy} {stored : Option Hlc}
    {cutoff : Hlc} (h : copy.Covers stored) (hadmits : copy.admits cutoff = true) :
    ∀ p ∈ stored, p < cutoff := by
  intro p hp
  rcases h p hp with ⟨c, hc, hle⟩
  have hcopy : copy.cutoffHlc = some c := hc
  simp only [CompactionCopy.admits, hcopy, decide_eq_true_eq] at hadmits
  exact lt_of_le_of_lt hle hadmits

theorem CompactionCopy.Covers.le_of_allowsResume {copy : CompactionCopy} {stored : Option Hlc}
    {since : Hlc} (h : copy.Covers stored) (hallows : copy.allowsResume since = true) :
    ∀ d ∈ stored, d ≤ since := by
  intro d hd
  rcases h d hd with ⟨c, hc, hle⟩
  have hcopy : copy.cutoffHlc = some c := hc
  simp only [CompactionCopy.allowsResume, hcopy, decide_eq_true_eq, not_lt] at hallows
  exact le_trans hle hallows

/-- The only task that begins to write takes a cutoff above the persisted one. -/
theorem CutoffInv.beginWrite (h : CutoffInv s) {t i : Nat} {cutoff : Hlc}
    (hlt : ∀ p ∈ s.persisted, p < cutoff)
    (hnone : ∀ other ∈ s.tasks, other.2.writes = none) :
    CutoffInv (s.setTask t i (.writing cutoff)) := by
  refine ⟨⟨h.sound.monotone, h.sound.resumes⟩, h.last, fun t' task ht c hc p hp => ?_,
    fun t' u task task' ht hu hw hw' => ?_, fun t' task ht since hsince => ?_⟩
  · rcases getElem?_setTask ht with ⟨_, heq⟩ | ⟨_, hold⟩
    · subst heq
      cases hc
      exact le_of_lt (hlt p hp)
    · exact h.writing t' task hold c hc p hp
  · -- Whoever writes now is the task that has just begun.
    have hself : ∀ (v : Nat) (other : Nat × CompactionTask),
        (s.setTask t i (.writing cutoff)).tasks[v]? = some other → other.2.writes.isSome →
          v = t := by
      intro v other hv hsome
      rcases getElem?_setTask hv with ⟨heq, _⟩ | ⟨_, hold⟩
      · exact heq
      · rw [hnone other (List.mem_of_getElem? hold)] at hsome
        cases hsome
    rw [hself t' task ht hw, hself u task' hu hw']
  · rcases getElem?_setTask ht with ⟨_, heq⟩ | ⟨_, hold⟩
    · subst heq
      cases hsince
    · exact h.reading t' task hold since hsince

theorem CutoffInv.compare (h : CutoffInv s) {t now : Nat}
    (hguard : CopiesCurrent s (.compare t now)) (hs : stepCompare s t now = some s') :
    CutoffInv s' := by
  simp only [stepCompare] at hs
  split at hs
  · rename_i i minOpAge htask
    simp only [CopiesCurrent, htask] at hguard
    split at hs
    · rename_i hadmits
      cases hs
      have hcurrent := hguard hadmits
      exact (h.setInstance (i := i)).beginWrite (hcurrent.1.lt_of_admits hadmits) hcurrent.2
    · cases hs
      exact h.setTask rfl rfl
  · cases hs

/-- The write of a task that is then done with writing. -/
theorem CutoffInv.persist (h : CutoffInv s) {t i : Nat} {cutoff : Hlc}
    {old new : CompactionTask} (ht : s.tasks[t]? = some (i, old))
    (hcutoff : old.writes = some cutoff) (hwrites : new.writes = none)
    (hreads : new.readingFrom = none) : CutoffInv ((s.persist cutoff).setTask t i new) := by
  have hle : ∀ p ∈ s.persisted, p ≤ cutoff := h.writing t _ ht cutoff hcutoff
  -- No task but this one was writing.
  have hnone : ∀ (v : Nat) (other : Nat × CompactionTask),
      ((s.persist cutoff).setTask t i new).tasks[v]? = some other → other.2.writes = none := by
    intro v other hv
    rcases getElem?_setTask hv with ⟨_, heq⟩ | ⟨hne, hold⟩
    · subst heq
      exact hwrites
    · cases hw : other.2.writes with
      | none => rfl
      | some c =>
          have heq : v = t := h.oneWriter v t other _ hold ht (by simp [hw]) (by simp [hcutoff])
          exact absurd heq hne
  refine ⟨⟨?_, h.sound.resumes⟩, ?_, fun v other hv c hc => ?_, fun v u other _ hv _ hw => ?_,
    fun v other hv since hsince => ?_⟩
  · exact Lib.pairwise_concat h.sound.monotone (h.last ▸ hle)
  · simp [CompactionState.setTask, CompactionState.persist]
  · rw [hnone v other hv] at hc
    cases hc
  · rw [hnone v other hv] at hw
    cases hw
  · rcases getElem?_setTask hv with ⟨_, heq⟩ | ⟨_, hold⟩
    · subst heq
      rw [hreads] at hsince
      cases hsince
    · exact h.reading v other hold since hsince

theorem CutoffInv.write (h : CutoffInv s) {t : Nat} {tookEffect threw : Bool}
    (hs : stepWrite s t tookEffect threw = some s') : CutoffInv s' := by
  simp only [stepWrite] at hs
  split at hs
  · rename_i i cutoff ht
    split at hs
    · cases hs
      cases tookEffect with
      | false => exact h.setTask rfl rfl
      | true => exact h.persist ht rfl rfl rfl
    · cases hs
      exact h.persist ht rfl rfl rfl
  · rename_i i cutoff ht
    cases hs
    cases tookEffect with
    | false => exact h.setTask rfl rfl
    | true => exact h.persist ht rfl rfl rfl
  · cases hs

theorem CutoffInv.delete (h : CutoffInv s) {t i : Nat} {cutoff : Hlc}
    (hguard : ∀ other ∈ s.tasks, ∀ since ∈ other.2.readingFrom, cutoff ≤ since) :
    CutoffInv ((s.deleteOpsBefore cutoff).setTask t i .done) := by
  have hdeleted : CutoffInv (s.deleteOpsBefore cutoff) := by
    refine ⟨⟨h.sound.monotone, h.sound.resumes⟩, h.last, h.writing, h.oneWriter, ?_⟩
    intro v task hv since hsince d hd
    have heq : max (s.deletedTo.getD cutoff) cutoff = d := Option.some.inj hd
    have hcutoff : cutoff ≤ since := hguard task (List.mem_of_getElem? hv) since hsince
    rw [← heq]
    refine max_le ?_ hcutoff
    cases hold : s.deletedTo with
    | none => exact hcutoff
    | some d' => exact h.reading v task hv since hsince d' hold
  exact hdeleted.setTask rfl rfl

theorem CutoffInv.check (h : CutoffInv s) {t : Nat} (hguard : CopiesCurrent s (.check t))
    (hs : stepCheck s t = some s') : CutoffInv s' := by
  simp only [stepCheck] at hs
  split at hs
  · rename_i i since htask
    simp only [CopiesCurrent, htask] at hguard
    split at hs
    · rename_i hallows
      cases hs
      refine ⟨⟨h.sound.monotone, h.sound.resumes⟩, h.last, fun v task hv c hc => ?_,
        fun v u task task' hv hu hw hw' => ?_, fun v task hv since' hsince => ?_⟩
      · rcases getElem?_setTask hv with ⟨_, heq⟩ | ⟨_, hold⟩
        · subst heq
          cases hc
        · exact h.writing v task hold c hc
      · rcases getElem?_setTask hv with ⟨_, heq⟩ | ⟨_, hold⟩
        · subst heq
          cases hw
        · rcases getElem?_setTask hu with ⟨_, heq⟩ | ⟨_, hold'⟩
          · subst heq
            cases hw'
          · exact h.oneWriter v u task task' hold hold' hw hw'
      · rcases getElem?_setTask hv with ⟨_, heq⟩ | ⟨_, hold⟩
        · subst heq
          cases hsince
          exact hguard.le_of_allowsResume hallows
        · exact h.reading v task hold since' hsince
    · cases hs
      exact h.setTask rfl rfl
  · cases hs

theorem CutoffInv.readLog (h : CutoffInv s) {t i : Nat} {since : Hlc}
    (ht : s.tasks[t]? = some (i, .reading since)) :
    CutoffInv { s.setTask t i .done with resumes := s.resumes ++ [⟨since, s.deletedTo⟩] } := by
  have hdone : CutoffInv (s.setTask t i .done) := h.setTask rfl rfl
  refine ⟨⟨hdone.sound.monotone, fun r hr d hd => ?_⟩, hdone.last, hdone.writing,
    hdone.oneWriter, hdone.reading⟩
  rcases List.mem_append.1 hr with hold | hnew
  · exact h.sound.resumes r hold d hd
  · have heq : r = ⟨since, s.deletedTo⟩ := by simpa using hnew
    subst heq
    exact not_lt_of_ge (h.reading t _ ht since rfl d hd)

/-- Each task of the process is gone, or goes on with what it has sent. -/
theorem CutoffInv.restart (h : CutoffInv s) (i : Nat) :
    CutoffInv { s.setInstance i ⟨none, false⟩ with
      tasks := s.tasks.map fun task =>
        (task.1, if task.1 = i then task.2.afterCrash else task.2) } := by
  refine h.quiet rfl rfl rfl rfl fun t task ht => ?_
  have ht' : (s.tasks.map fun task =>
      (task.1, if task.1 = i then task.2.afterCrash else task.2))[t]? = some task := ht
  rw [List.getElem?_map, Option.map_eq_some_iff] at ht'
  rcases ht' with ⟨old, hold, heq⟩
  subst heq
  by_cases hi : old.1 = i
  · simp only [if_pos hi]
    refine Or.inr ⟨old, hold, ?_⟩
    cases old.2 <;> simp [CompactionTask.afterCrash, CompactionTask.writes,
      CompactionTask.readingFrom]
  · simp only [if_neg hi]
    exact Or.inr ⟨old, hold, rfl, fun _ hsince => hsince⟩

theorem CutoffInv.step {e : CompactionEvent} (h : CutoffInv s) (hguard : CopiesCurrent s e)
    (hs : compactionStep s e = some s') : CutoffInv s' := by
  cases e with
  | append writer table hlc =>
      cases hs
      refine h.quiet rfl rfl rfl rfl fun _ task ht => ?_
      exact Or.inr ⟨task, ht, rfl, fun _ hsince => hsince⟩
  | runCompaction i minOpAge =>
      cases hs
      exact h.addTask rfl rfl
  | handleResume i since =>
      cases hs
      exact h.addTask rfl rfl
  | lock t granted =>
      simp only [compactionStep] at hs
      split at hs
      · cases hs
        cases granted <;> exact h.setTask rfl rfl
      · cases hs
  | ensure t => exact h.ensure hs
  | readMeta t =>
      simp only [compactionStep] at hs
      split at hs
      · cases hs
        exact h.setTask rfl rfl
      · cases hs
  | setCopy t => exact h.setCopy hs
  | compare t now => exact h.compare hguard hs
  | write t tookEffect threw => exact h.write hs
  | delete t =>
      simp only [compactionStep] at hs
      split at hs
      · rename_i i cutoff ht
        simp only [CopiesCurrent, ht] at hguard
        cases hs
        exact h.delete hguard
      · cases hs
  | check t => exact h.check hguard hs
  | readLog t =>
      simp only [compactionStep] at hs
      split at hs
      · rename_i i since ht
        cases hs
        exact h.readLog ht
      · cases hs
  | throw t =>
      simp only [compactionStep] at hs
      split at hs
      · cases hs
        exact h.setTask rfl rfl
      · cases hs
  | restart i =>
      cases hs
      exact h.restart i

theorem cutoffInv_start : CutoffInv .start := by
  refine ⟨⟨List.Pairwise.nil, fun r hr => absurd hr List.not_mem_nil⟩, rfl, ?_, ?_, ?_⟩
  · intro t task ht
    cases ht
  · intro t t' task task' ht
    cases ht
  · intro t task ht
    cases ht

/-- While the copies that decide are current, the cutoff only moves forward and no resume is served
from a log truncated above its watermark. -/
theorem cutoffSound_of_copiesCurrent (h : compactionMachine.Reach CopiesCurrent s) :
    CutoffSound s := by
  have hinv : CutoffInv s := h.invariant cutoffInv_start fun hinv hg hs => hinv.step hg hs
  exact hinv.sound

/-! ## Runs -/

/-- A compaction of an instance that has yet to load the cutoff. -/
def firstCompaction (i t now : Nat) : List CompactionEvent :=
  [.runCompaction i 0, .lock t true, .ensure t, .readMeta t, .setCopy t, .compare t now,
    .write t true false, .delete t]

/-- A resume on an instance that has yet to load the cutoff. -/
def firstResume (i t : Nat) (since : Hlc) : List CompactionEvent :=
  [.handleResume i since, .ensure t, .readMeta t, .setCopy t, .check t, .readLog t]

/-- An op, a compaction, and a resume on the other instance from a watermark above the cutoff. -/
theorem cutoffSound_afterCompaction : ∃ s, s.history = ["0000000000000070000.9999.compaction"] ∧
    s.resumes = [⟨"0000000000000080000.0000.a", some "0000000000000070000.9999.compaction"⟩] ∧
    CutoffSound s := by
  have hrun : ((compactionMachine.runWith (fun s e => decide (CopiesCurrent s e))
      compactionMachine.init (.append 0 "todos" "0000000000000060000.0000.a" ::
        (firstCompaction 0 0 100000 ++ firstResume 1 1 "0000000000000080000.0000.a"))).map
      fun s => (s.history, s.resumes)) =
      some (["0000000000000070000.9999.compaction"],
        [⟨"0000000000000080000.0000.a", some "0000000000000070000.9999.compaction"⟩]) := by
    decide +kernel
  rcases Option.map_eq_some_iff.1 hrun with ⟨s, hs, heq⟩
  simp only [Prod.mk.injEq] at heq
  have hreach := Lib.Machine.Reach.of_runWith (fun _ _ h => of_decide_eq_true h) .init hs
  exact ⟨s, heq.1, heq.2, cutoffSound_of_copiesCurrent hreach⟩

/-- Instance 1 has loaded before the first cutoff was written, and goes by what it loaded. -/
theorem not_cutoffSound_staleCopy : ¬ ∀ s, compactionMachine.Reachable s → CutoffSound s := by
  intro h
  have hrun : ((compactionMachine.run (.append 0 "todos" "0000000000000060000.0000.a" ::
      (firstResume 1 0 "0000000000000050000.0000.a" ++ firstCompaction 0 1 100000 ++
        [.handleResume 1 "0000000000000050000.0000.a", .ensure 2, .check 2, .readLog 2]))).map
      fun s => s.resumes[1]?) =
      some (some ⟨"0000000000000050000.0000.a",
        some "0000000000000070000.9999.compaction"⟩) := by
    decide +kernel
  rcases Option.map_eq_some_iff.1 hrun with ⟨s, hs, hresume⟩
  have hnot := (h s (.of_run hs)).resumes _ (List.mem_of_getElem? hresume) _ rfl
  exact hnot (by decide +kernel)

end Server
end Reflectdb
