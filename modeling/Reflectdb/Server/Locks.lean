import Mathlib.Data.Nat.Find
import Reflectdb.Lib.Chains
import Reflectdb.Lib.Machine
import Reflectdb.Server.Conflict

/-!
# Locks — sections that take turns under a key

`lock` of the server, `onRow` of the op processor and `withLock` of the broadcast engine chain each
call to the last one under its key: a map holds, for a key, the promise that the next call waits
for, until that promise settles as the last one.
-/

namespace Reflectdb
namespace Server
namespace Locks

open Lib

variable {ε α : Type}

/-! ## Model -/

/-- What has become of the function that a call was given. -/
inductive Body (ε α : Type)
  | waiting
  | running
  | ended (outcome : Except ε α)

/-- The calls in the order in which they were made.  A job of the chains is waiting until `prev`
settles, and done once `stored` has settled; `next` is the promise that the caller gets. -/
structure LockMap (ε α : Type) where
  chains : Chains String Unit
  body : Nat → Body ε α
  next : Nat → Option (Except ε α)

inductive LockStep (ε α : Type)
  /-- `prev` has settled. -/
  | begin_ (i : Nat)
  /-- The function's own promise resolves or rejects. -/
  | end_ (i : Nat) (outcome : Except ε α)
  | settleNext (i : Nat)
  | settleStored (i : Nat)

/-- `promise.then(onFulfilled, onRejected)`, once the promise has settled. -/
def onSettled {β : Type} (outcome : Except ε α) (onFulfilled onRejected : β) : β :=
  match outcome with
  | .ok _ => onFulfilled
  | .error _ => onRejected

namespace LockMap

def empty : LockMap ε α :=
  ⟨.empty, fun _ => .waiting, fun _ => none⟩

/-- A call under a key: `prev` is the map's promise for it, and the map gets `stored`. -/
def chain (s : LockMap ε α) (key : String) : LockMap ε α :=
  { s with chains := s.chains.push key () }

/-- Both handlers of `prev` call the function.  No `stored` rejects, since its handlers return. -/
def begin_ (s : LockMap ε α) (i : Nat) : Option (LockMap ε α) :=
  (s.chains.start i).map fun chains =>
    { s with chains, body := Function.update s.body i .running }

def end_ (s : LockMap ε α) (i : Nat) (outcome : Except ε α) : Option (LockMap ε α) :=
  match s.body i with
  | .running => some { s with body := Function.update s.body i (.ended outcome) }
  | _ => none

/-- `next` takes on what the function's promise has come to. -/
def settleNext (s : LockMap ε α) (i : Nat) : Option (LockMap ε α) :=
  match s.body i, s.next i with
  | .ended outcome, none => some { s with next := Function.update s.next i (some outcome) }
  | _, _ => none

/-- `if (locks.get(key) === stored) locks.delete(key)` -/
def deleteEntry (chains : Chains String Unit) (i : Nat) (key : String) : Chains String Unit :=
  if chains.tails key = some i then chains.forget key else chains

def removeEntry (s : LockMap ε α) (i : Nat) : Option (LockMap ε α) :=
  s.chains.jobs[i]?.bind fun job =>
    (s.chains.finish i).map fun chains => { s with chains := deleteEntry chains i job.key }

def settleStored (s : LockMap ε α) (i : Nat) : Option (LockMap ε α) :=
  (s.next i).bind fun outcome => onSettled outcome (s.removeEntry i) (s.removeEntry i)

def step (s : LockMap ε α) : LockStep ε α → Option (LockMap ε α)
  | .begin_ i => s.begin_ i
  | .end_ i outcome => s.end_ i outcome
  | .settleNext i => s.settleNext i
  | .settleStored i => s.settleStored i

end LockMap

/-- The three maps of a server. -/
structure ServerLocks (ε α : Type) where
  lockChains : LockMap ε α
  rowQueues : LockMap ε α
  locks : LockMap ε α

inductive LockEvent (ε α : Type)
  | lock (key : String)
  | tryLock (key : String)
  | onRow (key : String)
  | withLock (clientId queryName : String)
  | lockChains (e : LockStep ε α)
  | rowQueues (e : LockStep ε α)
  | locks (e : LockStep ε α)

namespace ServerLocks

def lock (s : ServerLocks ε α) (key : String) : ServerLocks ε α :=
  { s with lockChains := s.lockChains.chain key }

/-- The caller gets `null` at once where the key has an entry. -/
def tryLock (s : ServerLocks ε α) (key : String) : ServerLocks ε α :=
  if (s.lockChains.chains.tails key).isSome then s else s.lock key

def onRow (s : ServerLocks ε α) (key : String) : ServerLocks ε α :=
  { s with rowQueues := s.rowQueues.chain key }

def lockKey (clientId queryName : String) : String :=
  toString (utf16Length clientId) ++ ":" ++ clientId ++ ":" ++ queryName

def withLock (s : ServerLocks ε α) (clientId queryName : String) : ServerLocks ε α :=
  { s with locks := s.locks.chain (lockKey clientId queryName) }

def step (s : ServerLocks ε α) : LockEvent ε α → Option (ServerLocks ε α)
  | .lock key => some (s.lock key)
  | .tryLock key => some (s.tryLock key)
  | .onRow key => some (s.onRow key)
  | .withLock clientId queryName => some (s.withLock clientId queryName)
  | .lockChains e => (s.lockChains.step e).map fun m => { s with lockChains := m }
  | .rowQueues e => (s.rowQueues.step e).map fun m => { s with rowQueues := m }
  | .locks e => (s.locks.step e).map fun m => { s with locks := m }

end ServerLocks

def lockMachine (ε α : Type) : Machine (ServerLocks ε α) (LockEvent ε α) where
  init := ⟨.empty, .empty, .empty⟩
  step := ServerLocks.step

/-! ## One section at a time -/

/-- A call of the key has not got its answer. -/
def LockMap.Open (s : LockMap ε α) (key : String) (i : Nat) : Prop :=
  s.next i = none ∧ ∃ job, s.chains.jobs[i]? = some job ∧ job.key = key

/-- What the calls under a key are promised. -/
structure Mutual (s : LockMap ε α) : Prop where
  /-- No two bodies run at the same time. -/
  exclusive : ∀ i j a b, i ≠ j → s.chains.jobs[i]? = some a → s.chains.jobs[j]? = some b →
    a.key = b.key → ¬ (s.body i = .running ∧ s.body j = .running)
  /-- A body starts only when those of the earlier calls have ended. -/
  order : ∀ i j a b, i < j → s.chains.jobs[i]? = some a → s.chains.jobs[j]? = some b →
    a.key = b.key → s.body j ≠ .waiting → ∃ outcome, s.body i = .ended outcome
  /-- The caller gets the outcome of its own body. -/
  outcome : ∀ i outcome, s.next i = some outcome → s.body i = .ended outcome
  /-- No call is skipped: as long as one has no answer, a body of its key runs, or its call or one
  before it can go on. -/
  goesOn : ∀ key i, s.Open key i → ∃ j ≤ i, (∃ job, s.chains.jobs[j]? = some job ∧ job.key = key) ∧
    (s.body j = .running ∨
      ∃ e ∈ [LockStep.begin_ j, .settleNext j, .settleStored j], (s.step e).isSome)
  /-- A key without an entry has no call that is running or queued. -/
  entry : ∀ key, s.chains.tails key = none → ∀ i, ¬ s.Open key i

/-! ## What the steps keep -/

structure LockInv (s : LockMap ε α) : Prop where
  linked : s.chains.Linked
  waiting : ∀ i job, s.chains.jobs[i]? = some job → (job.phase = .waiting ↔ s.body i = .waiting)
  next : ∀ i outcome, s.next i = some outcome → s.body i = .ended outcome
  done : ∀ i job, s.chains.jobs[i]? = some job → job.phase = .done → (s.next i).isSome
  /-- Nothing is known of a call that has not been made. -/
  unmade : ∀ i, s.chains.jobs.length ≤ i → s.body i = .waiting ∧ s.next i = none

variable {s s' : LockMap ε α} {i : Nat} {job : Job String Unit}

theorem lockInv_empty : LockInv (LockMap.empty : LockMap ε α) where
  linked := Chains.linked_empty
  waiting _ _ h := by simp [LockMap.empty, Chains.empty] at h
  next _ _ h := by cases h
  done _ _ h := by simp [LockMap.empty, Chains.empty] at h
  unmade _ _ := ⟨rfl, rfl⟩

theorem lockInv_chain (h : LockInv s) (key : String) : LockInv (s.chain key) where
  linked := Chains.linked_push h.linked key ()
  waiting i job hi := by
    rcases Chains.getElem?_push hi with hi | ⟨rfl, rfl⟩
    · exact h.waiting i job hi
    · exact ⟨fun _ => (h.unmade _ (Nat.le_refl _)).1, fun _ => rfl⟩
  next := h.next
  done i job hi hdone := by
    rcases Chains.getElem?_push hi with hi | ⟨rfl, rfl⟩
    · exact h.done i job hi hdone
    · cases hdone
  unmade i hi := by
    refine h.unmade i ?_
    simp only [LockMap.chain, Chains.push, List.length_append, List.length_singleton] at hi
    omega

theorem lockInv_begin (h : LockInv s) (hs : s.begin_ i = some s') : LockInv s' := by
  obtain ⟨chains, hstart, rfl⟩ := Option.map_eq_some_iff.1 hs
  have hlinked := Chains.linked_start h.linked hstart
  obtain ⟨job, hi, hwaiting, -, rfl⟩ := Chains.start_eq_some hstart
  have hbody : s.body i = .waiting := (h.waiting i job hi).1 hwaiting
  refine ⟨hlinked, fun j a hj => ?_, fun j outcome hj => ?_, fun j a hj hdone => ?_, fun j hj => ?_⟩
  · rcases Chains.getElem?_setPhase hi hj with ⟨hne, hj⟩ | ⟨rfl, rfl⟩
    · change a.phase = _ ↔ Function.update s.body i .running j = _
      rw [Function.update_of_ne hne]
      exact h.waiting j a hj
    · simp
  · have hended := h.next j outcome hj
    have hne : j ≠ i := by
      rintro rfl
      rw [hbody] at hended
      cases hended
    exact (Function.update_of_ne hne ..).trans hended
  · rcases Chains.getElem?_setPhase hi hj with ⟨-, hj⟩ | ⟨rfl, rfl⟩
    · exact h.done j a hj hdone
    · cases hdone
  · change (s.chains.setPhase i job .running).jobs.length ≤ j at hj
    rw [Chains.length_setPhase] at hj
    have hlt : i < s.chains.jobs.length := (List.getElem?_eq_some_iff.1 hi).1
    obtain ⟨hwait, hnext⟩ := h.unmade j hj
    exact ⟨(Function.update_of_ne (by omega) ..).trans hwait, hnext⟩

theorem end_eq_some {outcome : Except ε α} (hs : s.end_ i outcome = some s') :
    s.body i = .running ∧ s' = { s with body := Function.update s.body i (.ended outcome) } := by
  unfold LockMap.end_ at hs
  split at hs
  · rename_i hrunning
    exact ⟨hrunning, (Option.some.inj hs).symm⟩
  · cases hs

theorem lockInv_end (h : LockInv s) {outcome : Except ε α} (hs : s.end_ i outcome = some s') :
    LockInv s' := by
  obtain ⟨hrunning, rfl⟩ := end_eq_some hs
  refine ⟨h.linked, fun j a hj => ?_, fun j o hj => ?_, h.done, fun j hj => ?_⟩
  · have hbefore := h.waiting j a hj
    change _ ↔ Function.update s.body i (.ended outcome) j = _
    by_cases hji : j = i
    · subst hji
      rw [hrunning] at hbefore
      simpa using hbefore
    · rw [Function.update_of_ne hji]
      exact hbefore
  · have hended := h.next j o hj
    have hne : j ≠ i := by
      rintro rfl
      rw [hrunning] at hended
      cases hended
    exact (Function.update_of_ne hne ..).trans hended
  · obtain ⟨hwait, hnext⟩ := h.unmade j hj
    have hne : j ≠ i := by
      rintro rfl
      rw [hrunning] at hwait
      cases hwait
    exact ⟨(Function.update_of_ne hne ..).trans hwait, hnext⟩

theorem settleNext_eq_some (hs : s.settleNext i = some s') :
    ∃ outcome, s.body i = .ended outcome ∧ s.next i = none ∧
      s' = { s with next := Function.update s.next i (some outcome) } := by
  unfold LockMap.settleNext at hs
  split at hs
  · rename_i outcome hended hnone
    exact ⟨outcome, hended, hnone, (Option.some.inj hs).symm⟩
  · cases hs

theorem lockInv_settleNext (h : LockInv s) (hs : s.settleNext i = some s') : LockInv s' := by
  obtain ⟨outcome, hended, -, rfl⟩ := settleNext_eq_some hs
  refine ⟨h.linked, h.waiting, fun j o hj => ?_, fun j a hj hdone => ?_, fun j hj => ?_⟩
  · change Function.update s.next i (some outcome) j = some o at hj
    by_cases hji : j = i
    · subst hji
      rw [Function.update_self] at hj
      cases hj
      exact hended
    · rw [Function.update_of_ne hji] at hj
      exact h.next j o hj
  · change (Function.update s.next i (some outcome) j).isSome
    by_cases hji : j = i
    · subst hji
      rw [Function.update_self]
      rfl
    · rw [Function.update_of_ne hji]
      exact h.done j a hj hdone
  · obtain ⟨hwait, hnext⟩ := h.unmade j hj
    have hne : j ≠ i := by
      rintro rfl
      rw [hended] at hwait
      cases hwait
    exact ⟨hwait, (Function.update_of_ne hne ..).trans hnext⟩

theorem settleStored_eq_some (hs : s.settleStored i = some s') :
    ∃ job chains, (s.next i).isSome ∧ s.chains.jobs[i]? = some job ∧
      s.chains.finish i = some chains ∧
      s' = { s with chains := LockMap.deleteEntry chains i job.key } := by
  obtain ⟨outcome, hnext, hs⟩ := Option.bind_eq_some_iff.1 hs
  have hremove : s.removeEntry i = some s' := by
    cases outcome <;> exact hs
  obtain ⟨job, hi, hs⟩ := Option.bind_eq_some_iff.1 hremove
  obtain ⟨chains, hfinish, rfl⟩ := Option.map_eq_some_iff.1 hs
  exact ⟨job, chains, by simp [hnext], hi, hfinish, rfl⟩

theorem jobs_deleteEntry (chains : Chains String Unit) (i : Nat) (key : String) :
    (LockMap.deleteEntry chains i key).jobs = chains.jobs := by
  unfold LockMap.deleteEntry
  split <;> rfl

/-- An entry that is deleted was that of the last call of its key. -/
theorem linked_deleteEntry {chains : Chains String Unit} {key : String} (h : chains.Linked)
    (hi : chains.jobs[i]? = some job) (hdone : job.phase = .done) :
    (LockMap.deleteEntry chains i key).Linked := by
  unfold LockMap.deleteEntry
  split
  · rename_i htail
    exact Chains.linked_forget h (h.idle_of_tail htail hi hdone)
  · exact h

theorem lockInv_settleStored (h : LockInv s) (hs : s.settleStored i = some s') : LockInv s' := by
  obtain ⟨job, chains, hnext, hi, hfinish, rfl⟩ := settleStored_eq_some hs
  have hlinked := Chains.linked_finish h.linked hfinish
  obtain ⟨job', hi', hrunning, rfl⟩ := Chains.finish_eq_some hfinish
  cases hi.symm.trans hi'
  have hlt : i < s.chains.jobs.length := (List.getElem?_eq_some_iff.1 hi).1
  have hself : (s.chains.setPhase i job .done).jobs[i]? = some { job with phase := .done } :=
    List.getElem?_set_self hlt
  refine ⟨linked_deleteEntry hlinked hself rfl, fun j a hj => ?_, h.next, fun j a hj hdone => ?_,
    fun j hj => ?_⟩
  · rw [jobs_deleteEntry] at hj
    rcases Chains.getElem?_setPhase hi hj with ⟨-, hj⟩ | ⟨rfl, rfl⟩
    · exact h.waiting j a hj
    · have hstarted : s.body j ≠ .waiting := fun hwait => by
        rw [← h.waiting j job hi, hrunning] at hwait
        cases hwait
      simpa using hstarted
  · rw [jobs_deleteEntry] at hj
    rcases Chains.getElem?_setPhase hi hj with ⟨-, hj⟩ | ⟨rfl, rfl⟩
    · exact h.done j a hj hdone
    · exact hnext
  · rw [jobs_deleteEntry, Chains.length_setPhase] at hj
    exact h.unmade j hj

theorem lockInv_step (h : LockInv s) {e : LockStep ε α} (hs : s.step e = some s') :
    LockInv s' := by
  cases e with
  | begin_ i => exact lockInv_begin h hs
  | end_ i outcome => exact lockInv_end h hs
  | settleNext i => exact lockInv_settleNext h hs
  | settleStored i => exact lockInv_settleStored h hs

/-! ## What follows for the calls -/

theorem LockInv.running (h : LockInv s) (hi : s.chains.jobs[i]? = some job)
    (hbody : s.body i = .running) : job.phase = .running := by
  cases hphase : job.phase with
  | waiting =>
      rw [(h.waiting i job hi).1 hphase] at hbody
      cases hbody
  | running => rfl
  | done =>
      obtain ⟨outcome, hnext⟩ := Option.isSome_iff_exists.1 (h.done i job hi hphase)
      rw [h.next i outcome hnext] at hbody
      cases hbody

theorem LockInv.undone (h : LockInv s) {key : String} (hopen : s.Open key i) :
    ∃ job, s.chains.jobs[i]? = some job ∧ job.key = key ∧ job.phase ≠ .done := by
  obtain ⟨hnext, job, hi, hkey⟩ := hopen
  refine ⟨job, hi, hkey, fun hdone => ?_⟩
  have hsome := h.done i job hi hdone
  rw [hnext] at hsome
  cases hsome

/-- A call that waits for nothing can begin. -/
theorem begin_isSome (hi : s.chains.jobs[i]? = some job) (hwaiting : job.phase = .waiting)
    (hsettled : s.chains.settled job.after = true) : (s.begin_ i).isSome := by
  simp [LockMap.begin_, Chains.start, hi, hwaiting, hsettled]

/-- A call whose body has ended can go on, however it has ended. -/
theorem settle_isSome (hi : s.chains.jobs[i]? = some job) (hrunning : job.phase = .running)
    {outcome : Except ε α} (hended : s.body i = .ended outcome) :
    (s.settleNext i).isSome ∨ (s.settleStored i).isSome := by
  cases hnext : s.next i with
  | none => exact .inl (by simp [LockMap.settleNext, hended, hnext])
  | some o =>
      have hremove : (s.removeEntry i).isSome := by
        simp [LockMap.removeEntry, Chains.finish, hi, hrunning]
      refine .inr ?_
      rw [LockMap.settleStored, hnext, Option.bind_some]
      cases o <;> exact hremove

theorem LockInv.goesOn (h : LockInv s) {key : String} (hopen : s.Open key i) :
    ∃ j ≤ i, (∃ job, s.chains.jobs[j]? = some job ∧ job.key = key) ∧
      (s.body j = .running ∨
        ∃ e ∈ [LockStep.begin_ j, .settleNext j, .settleStored j], (s.step e).isSome) := by
  classical
  -- the first call of the key that is not done
  have hexists : ∃ j : Nat, ∃ job, s.chains.jobs[j]? = some job ∧ job.key = key ∧
      job.phase ≠ .done :=
    ⟨i, h.undone hopen⟩
  obtain ⟨job, hj, hkey, hundone⟩ := Nat.find_spec hexists
  have hle : Nat.find hexists ≤ i := Nat.find_min' hexists (h.undone hopen)
  have hfirst : ∀ k < Nat.find hexists, ∀ c, s.chains.jobs[k]? = some c → c.key = key →
      c.phase = .done := by
    intro k hk c hc hck
    by_contra hphase
    exact Nat.find_min hexists hk ⟨c, hc, hck, hphase⟩
  refine ⟨Nat.find hexists, hle, ⟨job, hj, hkey⟩, ?_⟩
  cases hphase : job.phase with
  | waiting =>
      refine .inr ⟨_, List.mem_cons_self, begin_isSome hj hphase ?_⟩
      cases hafter : job.after with
      | none => rfl
      | some t =>
          obtain ⟨hlt, c, hc, hck⟩ := h.linked.afterKey _ job t hj hafter
          have hdone := hfirst t hlt c hc (hck.trans hkey)
          simp [Chains.settled, Chains.isDone, hc, hdone]
  | running =>
      cases hbody : s.body (Nat.find hexists) with
      | waiting =>
          rw [(h.waiting _ job hj).2 hbody] at hphase
          cases hphase
      | running => exact .inl rfl
      | ended outcome =>
          rcases settle_isSome hj hphase hbody with hnext | hstored
          · exact .inr ⟨.settleNext _, by simp, hnext⟩
          · exact .inr ⟨.settleStored _, by simp, hstored⟩
  | done => exact absurd hphase hundone

theorem LockInv.mutual (h : LockInv s) : Mutual s where
  exclusive i j a b hij ha hb hkey hboth :=
    h.linked.order.exclusive hij ha hb hkey ⟨h.running ha hboth.1, h.running hb hboth.2⟩
  order i j a b hij ha hb hkey hstarted := by
    have hphase : b.phase ≠ .waiting := fun hwait => hstarted ((h.waiting j b hb).1 hwait)
    have hdone := h.linked.order i j a b hij ha hb hkey hphase
    obtain ⟨outcome, hnext⟩ := Option.isSome_iff_exists.1 (h.done i a ha hdone)
    exact ⟨outcome, h.next i outcome hnext⟩
  outcome := h.next
  goesOn _ _ hopen := h.goesOn hopen
  entry key hnone i hopen := by
    obtain ⟨job, hi, rfl, hundone⟩ := h.undone hopen
    obtain ⟨t, htail, -⟩ := h.linked.tail i job hi hundone
    rw [hnone] at htail
    cases htail

/-! ## The three maps -/

structure LocksInv (s : ServerLocks ε α) : Prop where
  lockChains : LockInv s.lockChains
  rowQueues : LockInv s.rowQueues
  locks : LockInv s.locks

theorem locksInv_step {s s' : ServerLocks ε α} (h : LocksInv s) {e : LockEvent ε α}
    (hs : s.step e = some s') : LocksInv s' := by
  cases e with
  | lock key =>
      cases hs
      exact ⟨lockInv_chain h.lockChains key, h.rowQueues, h.locks⟩
  | tryLock key =>
      cases hs
      change LocksInv (if _ then s else s.lock key)
      split
      · exact h
      · exact ⟨lockInv_chain h.lockChains key, h.rowQueues, h.locks⟩
  | onRow key =>
      cases hs
      exact ⟨h.lockChains, lockInv_chain h.rowQueues key, h.locks⟩
  | withLock clientId queryName =>
      cases hs
      exact ⟨h.lockChains, h.rowQueues, lockInv_chain h.locks _⟩
  | lockChains e =>
      obtain ⟨m, hm, rfl⟩ := Option.map_eq_some_iff.1 hs
      exact ⟨lockInv_step h.lockChains hm, h.rowQueues, h.locks⟩
  | rowQueues e =>
      obtain ⟨m, hm, rfl⟩ := Option.map_eq_some_iff.1 hs
      exact ⟨h.lockChains, lockInv_step h.rowQueues hm, h.locks⟩
  | locks e =>
      obtain ⟨m, hm, rfl⟩ := Option.map_eq_some_iff.1 hs
      exact ⟨h.lockChains, h.rowQueues, lockInv_step h.locks hm⟩

/-- In each of the three maps the calls under a key take turns in the order in which they were
made, and a key is without an entry only while none of its calls is running or queued. -/
theorem mutual_of_reachable {s : ServerLocks ε α} (h : (lockMachine ε α).Reachable s) :
    Mutual s.lockChains ∧ Mutual s.rowQueues ∧ Mutual s.locks := by
  have hstart : LocksInv (lockMachine ε α).init := ⟨lockInv_empty, lockInv_empty, lockInv_empty⟩
  have hinv : LocksInv s :=
    h.invariant (P := LocksInv) hstart fun hi _ hs => locksInv_step hi hs
  exact ⟨hinv.lockChains.mutual, hinv.rowQueues.mutual, hinv.locks.mutual⟩

/-- A rejected section, a call that comes before its entry is removed, and one that comes after. -/
theorem mutual_of_reachable_rejected : ∃ s : ServerLocks String Nat,
    s.lockChains.next 0 = some (.error "failed") ∧ s.lockChains.body 1 = .running ∧
      Mutual s.lockChains := by
  have hrun : ((lockMachine String Nat).run
      [.lock "a", .lockChains (.begin_ 0), .lockChains (.end_ 0 (.error "failed")),
        .lockChains (.settleNext 0), .lock "a", .lockChains (.settleStored 0), .tryLock "a",
        .lockChains (.begin_ 1)]).isSome := rfl
  obtain ⟨s, hs⟩ := Option.isSome_iff_exists.1 hrun
  have hreach := Machine.Reachable.of_run hs
  cases hs
  exact ⟨_, rfl, rfl, (mutual_of_reachable hreach).1⟩

end Locks
end Server
end Reflectdb
