import Mathlib.Data.List.Basic
import Mathlib.Logic.Function.Basic

/-!
# Chains — jobs that wait for the last job under their key

A key's tail is the job that its next one waits for.  The jobs of a key run one at a time and in
order as long as a tail is forgotten only when all jobs of its key are done.
-/

namespace Reflectdb
namespace Lib

inductive JobPhase
  | waiting
  | running
  | done
  deriving DecidableEq

structure Job (κ α : Type) where
  key : κ
  data : α
  after : Option Nat
  phase : JobPhase

structure Chains (κ α : Type) where
  jobs : List (Job κ α)
  tails : κ → Option Nat

namespace Chains

variable {κ α : Type}

def empty : Chains κ α :=
  ⟨[], fun _ => none⟩

def push [DecidableEq κ] (s : Chains κ α) (key : κ) (data : α) : Chains κ α where
  jobs := s.jobs ++ [⟨key, data, s.tails key, .waiting⟩]
  tails := Function.update s.tails key (some s.jobs.length)

def isDone (s : Chains κ α) (i : Nat) : Bool :=
  s.jobs[i]?.any fun job => job.phase = .done

/-- There is nothing to wait for, or it is done. -/
def settled (s : Chains κ α) (after : Option Nat) : Bool :=
  after.all s.isDone

def setPhase (s : Chains κ α) (i : Nat) (job : Job κ α) (phase : JobPhase) : Chains κ α :=
  { s with jobs := s.jobs.set i { job with phase } }

def start (s : Chains κ α) (i : Nat) : Option (Chains κ α) :=
  s.jobs[i]?.bind fun job =>
    if job.phase = .waiting ∧ s.settled job.after then some (s.setPhase i job .running) else none

def finish (s : Chains κ α) (i : Nat) : Option (Chains κ α) :=
  s.jobs[i]?.bind fun job =>
    if job.phase = .running then some (s.setPhase i job .done) else none

/-- The next job of the key will wait for none. -/
def forget [DecidableEq κ] (s : Chains κ α) (key : κ) : Chains κ α :=
  { s with tails := Function.update s.tails key none }

/-! ## Order -/

/-- A job is started only when the earlier ones of its key are done. -/
def InOrder (s : Chains κ α) : Prop :=
  ∀ (i j : Nat) (a b : Job κ α), i < j → s.jobs[i]? = some a → s.jobs[j]? = some b →
    a.key = b.key → b.phase ≠ .waiting → a.phase = .done

def Idle (s : Chains κ α) (key : κ) : Prop :=
  ∀ job ∈ s.jobs, job.key = key → job.phase = .done

def pending [DecidableEq κ] (s : Chains κ α) (key : κ) : Nat :=
  s.jobs.countP fun job => job.key = key ∧ job.phase ≠ .done

/-- Every job that is not done is reached from the tail of its key and from each later job. -/
structure Linked (s : Chains κ α) : Prop where
  tail : ∀ (i : Nat) (a : Job κ α), s.jobs[i]? = some a → a.phase ≠ .done →
    ∃ t, s.tails a.key = some t ∧ i ≤ t
  tailKey : ∀ (key : κ) (t : Nat), s.tails key = some t →
    ∃ c : Job κ α, s.jobs[t]? = some c ∧ c.key = key
  after : ∀ (i j : Nat) (a b : Job κ α), i < j → s.jobs[i]? = some a → s.jobs[j]? = some b →
    a.key = b.key → a.phase ≠ .done → ∃ t, b.after = some t ∧ i ≤ t
  afterKey : ∀ (j : Nat) (b : Job κ α) (t : Nat), s.jobs[j]? = some b → b.after = some t →
    t < j ∧ ∃ c : Job κ α, s.jobs[t]? = some c ∧ c.key = b.key
  order : s.InOrder

variable {s s' : Chains κ α} {i j : Nat} {key : κ} {data : α} {job a b : Job κ α}

theorem pending_eq_zero_iff [DecidableEq κ] : s.pending key = 0 ↔ s.Idle key := by
  simp [pending, Idle, List.countP_eq_zero]

theorem linked_empty : (empty : Chains κ α).Linked := by
  constructor <;> intros <;> simp_all [empty, InOrder]

/-- Two jobs of one key do not run at the same time. -/
theorem InOrder.exclusive (h : s.InOrder) (hij : i ≠ j) (ha : s.jobs[i]? = some a)
    (hb : s.jobs[j]? = some b) (hkey : a.key = b.key) :
    ¬ (a.phase = .running ∧ b.phase = .running) := by
  rintro ⟨hra, hrb⟩
  rcases Nat.lt_or_gt_of_ne hij with hlt | hlt
  · have := h i j a b hlt ha hb hkey (by simp [hrb])
    simp [hra] at this
  · have := h j i b a hlt hb ha hkey.symm (by simp [hra])
    simp [hrb] at this

/-! ## Pushing -/

section Push

variable [DecidableEq κ]

theorem getElem?_push (h : (s.push key data).jobs[i]? = some a) :
    s.jobs[i]? = some a ∨ i = s.jobs.length ∧ a = ⟨key, data, s.tails key, .waiting⟩ := by
  rcases Nat.lt_or_ge i s.jobs.length with hi | hi
  · exact .inl (by rwa [push, List.getElem?_append_left hi] at h)
  · rw [push, List.getElem?_append_right hi, List.getElem?_singleton] at h
    split at h
    · exact .inr ⟨by omega, (Option.some.inj h).symm⟩
    · cases h

theorem getElem?_push_of_some (h : s.jobs[i]? = some a) :
    (s.push key data).jobs[i]? = some a := by
  have hi : i < s.jobs.length := (List.getElem?_eq_some_iff.1 h).1
  rwa [push, List.getElem?_append_left hi]

theorem linked_push (h : s.Linked) (key : κ) (data : α) : (s.push key data).Linked := by
  have hlt : ∀ {i a}, s.jobs[i]? = some a → i < s.jobs.length :=
    fun ha => (List.getElem?_eq_some_iff.1 ha).1
  have hlast : (s.push key data).jobs[s.jobs.length]? =
      some ⟨key, data, s.tails key, .waiting⟩ := by
    simp [push]
  refine ⟨?_, ?_, ?_, ?_, ?_⟩
  · intro i a ha hdone
    by_cases hkey : a.key = key
    · subst hkey
      refine ⟨s.jobs.length, by simp [push], ?_⟩
      rcases getElem?_push ha with ha | ⟨rfl, -⟩
      · exact Nat.le_of_lt (hlt ha)
      · exact Nat.le_refl _
    · rcases getElem?_push ha with ha | ⟨-, rfl⟩
      · simpa [push, Function.update_of_ne hkey] using h.tail i a ha hdone
      · exact absurd rfl hkey
  · intro k t ht
    by_cases hk : k = key
    · subst hk
      simp only [push, Function.update_self, Option.some_inj] at ht
      exact ⟨_, ht ▸ hlast, rfl⟩
    · simp only [push, Function.update_of_ne hk] at ht
      obtain ⟨c, hc, hck⟩ := h.tailKey k t ht
      exact ⟨c, getElem?_push_of_some hc, hck⟩
  · intro i j a b hij ha hb hkey hdone
    have hi : s.jobs[i]? = some a := by
      rcases getElem?_push ha with ha | ⟨rfl, -⟩
      · exact ha
      · rcases getElem?_push hb with hb | ⟨rfl, -⟩
        · exact absurd (hlt hb) (by omega)
        · omega
    rcases getElem?_push hb with hb | ⟨rfl, rfl⟩
    · exact h.after i j a b hij hi hb hkey hdone
    · have htail := h.tail i a hi hdone
      rwa [show a.key = key from hkey] at htail
  · intro j b t hb ht
    rcases getElem?_push hb with hb | ⟨rfl, rfl⟩
    · obtain ⟨hlt', c, hc, hck⟩ := h.afterKey j b t hb ht
      exact ⟨hlt', c, getElem?_push_of_some hc, hck⟩
    · obtain ⟨c, hc, hck⟩ := h.tailKey key t ht
      exact ⟨hlt hc, c, getElem?_push_of_some hc, hck⟩
  · intro i j a b hij ha hb hkey hstarted
    rcases getElem?_push hb with hb | ⟨rfl, rfl⟩
    · rcases getElem?_push ha with ha | ⟨rfl, -⟩
      · exact h.order i j a b hij ha hb hkey hstarted
      · exact absurd (hlt hb) (by omega)
    · exact absurd rfl hstarted

end Push

/-! ## Changes of phase -/

theorem getElem?_setPhase (hi : s.jobs[i]? = some job) {p : JobPhase}
    (h : (s.setPhase i job p).jobs[j]? = some a) :
    j ≠ i ∧ s.jobs[j]? = some a ∨ j = i ∧ a = { job with phase := p } := by
  by_cases hj : j = i
  · subst hj
    have hlt : j < s.jobs.length := (List.getElem?_eq_some_iff.1 hi).1
    rw [setPhase, List.getElem?_set_self hlt] at h
    exact .inr ⟨rfl, (Option.some.inj h).symm⟩
  · rw [setPhase, List.getElem?_set_ne (Ne.symm hj)] at h
    exact .inl ⟨hj, h⟩

/-- The job at a place, before a change of phase and after. -/
theorem exists_getElem?_setPhase (hi : s.jobs[i]? = some job) {p : JobPhase}
    (h : (s.setPhase i job p).jobs[j]? = some a) :
    ∃ b, s.jobs[j]? = some b ∧ b.key = a.key ∧ b.after = a.after ∧ b.data = a.data ∧
      (j ≠ i → b = a) ∧ (j = i → b = job) := by
  rcases getElem?_setPhase hi h with ⟨hj, hb⟩ | ⟨rfl, rfl⟩
  · exact ⟨a, hb, rfl, rfl, rfl, fun _ => rfl, fun h => absurd h hj⟩
  · exact ⟨job, hi, rfl, rfl, rfl, fun h => absurd rfl h, fun _ => rfl⟩

theorem exists_key_setPhase (hi : s.jobs[i]? = some job) (p : JobPhase)
    (h : s.jobs[j]? = some a) : ∃ b, (s.setPhase i job p).jobs[j]? = some b ∧ b.key = a.key := by
  by_cases hj : j = i
  · subst hj
    have hlt : j < s.jobs.length := (List.getElem?_eq_some_iff.1 hi).1
    cases hi.symm.trans h
    exact ⟨_, List.getElem?_set_self hlt, rfl⟩
  · exact ⟨a, by rw [setPhase, List.getElem?_set_ne (Ne.symm hj), h], rfl⟩

/-- A job that is not done may go on once the earlier ones of its key are done. -/
theorem linked_setPhase (h : s.Linked) (hi : s.jobs[i]? = some job) (hjob : job.phase ≠ .done)
    (hearlier : ∀ j a, j < i → s.jobs[j]? = some a → a.key = job.key → a.phase = .done)
    (p : JobPhase) : (s.setPhase i job p).Linked := by
  -- a job that is not done now was not done before
  have hundone : ∀ {j a b}, s.jobs[j]? = some b → (j ≠ i → b = a) → (j = i → b = job) →
      a.phase ≠ .done → b.phase ≠ .done := by
    intro j a b _ hne heq ha
    by_cases hj : j = i
    · exact heq hj ▸ hjob
    · exact hne hj ▸ ha
  refine ⟨?_, ?_, ?_, ?_, ?_⟩
  · intro j a ha hdone
    obtain ⟨b, hb, hkey, -, -, hne, heq⟩ := exists_getElem?_setPhase hi ha
    exact hkey ▸ h.tail j b hb (hundone hb hne heq hdone)
  · intro key t ht
    obtain ⟨c, hc, hck⟩ := h.tailKey key t ht
    obtain ⟨d, hd, hdk⟩ := exists_key_setPhase hi p hc
    exact ⟨d, hd, hdk.trans hck⟩
  · intro j k a c hjk ha hc hkey hdone
    obtain ⟨b, hb, hbkey, -, -, hne, heq⟩ := exists_getElem?_setPhase hi ha
    obtain ⟨d, hd, hdkey, hafter, -, -, -⟩ := exists_getElem?_setPhase hi hc
    rw [← hafter]
    exact h.after j k b d hjk hb hd (by rw [hbkey, hdkey, hkey]) (hundone hb hne heq hdone)
  · intro k c t hc ht
    obtain ⟨d, hd, hdkey, hafter, -, -, -⟩ := exists_getElem?_setPhase hi hc
    obtain ⟨hlt, e, he, hek⟩ := h.afterKey k d t hd (hafter.trans ht)
    obtain ⟨f, hf, hfk⟩ := exists_key_setPhase hi p he
    exact ⟨hlt, f, hf, by rw [hfk, hek, hdkey]⟩
  · intro j k a c hjk ha hc hkey hstarted
    obtain ⟨b, hb, hbkey, -, -, hbne, hbeq⟩ := exists_getElem?_setPhase hi ha
    obtain ⟨d, hd, hdkey, -, -, hdne, hdeq⟩ := exists_getElem?_setPhase hi hc
    have hsame : b.key = d.key := by rw [hbkey, hdkey, hkey]
    by_cases hk : k = i
    · have hj : j ≠ i := by omega
      subst hk
      rw [← hbne hj]
      exact hearlier j b hjk hb (by rw [hsame, hdeq rfl])
    · have hbdone := h.order j k b d hjk hb hd hsame (hdne hk ▸ hstarted)
      by_cases hj : j = i
      · exact absurd hbdone (hbeq hj ▸ hjob)
      · exact hbne hj ▸ hbdone

theorem start_eq_some (h : s.start i = some s') :
    ∃ job, s.jobs[i]? = some job ∧ job.phase = .waiting ∧ s.settled job.after = true ∧
      s' = s.setPhase i job .running := by
  obtain ⟨job, hi, h⟩ := Option.bind_eq_some_iff.1 h
  split at h
  · rename_i hguard
    exact ⟨job, hi, hguard.1, hguard.2, (Option.some.inj h).symm⟩
  · cases h

theorem finish_eq_some (h : s.finish i = some s') :
    ∃ job, s.jobs[i]? = some job ∧ job.phase = .running ∧ s' = s.setPhase i job .done := by
  obtain ⟨job, hi, h⟩ := Option.bind_eq_some_iff.1 h
  split at h
  · rename_i hguard
    exact ⟨job, hi, hguard, (Option.some.inj h).symm⟩
  · cases h

/-- A job that has nothing to wait for has no job of its key before it that is not done. -/
theorem Linked.earlier_done (h : s.Linked) (hi : s.jobs[i]? = some job)
    (hsettled : s.settled job.after = true) {j : Nat} {a : Job κ α} (hj : j < i)
    (ha : s.jobs[j]? = some a) (hkey : a.key = job.key) : a.phase = .done := by
  by_contra hdone
  obtain ⟨t, ht, hle⟩ := h.after j i a job hj ha hi hkey hdone
  obtain ⟨hlt, c, hc, hck⟩ := h.afterKey i job t hi ht
  have hcdone : c.phase = .done := by
    rw [ht] at hsettled
    simpa [settled, isDone, hc] using hsettled
  rcases Nat.lt_or_eq_of_le hle with hlt' | rfl
  · exact hdone (h.order j t a c hlt' ha hc (hkey.trans hck.symm) (by simp [hcdone]))
  · cases ha.symm.trans hc
    exact hdone hcdone

theorem linked_start (h : s.Linked) (hs : s.start i = some s') : s'.Linked := by
  obtain ⟨job, hi, hwaiting, hsettled, rfl⟩ := start_eq_some hs
  exact linked_setPhase h hi (by simp [hwaiting])
    (fun j a hj ha hkey => h.earlier_done hi hsettled hj ha hkey) .running

theorem linked_finish (h : s.Linked) (hs : s.finish i = some s') : s'.Linked := by
  obtain ⟨job, hi, hrunning, rfl⟩ := finish_eq_some hs
  exact linked_setPhase h hi (by simp [hrunning])
    (fun j a hj ha hkey => h.order j i a job hj ha hi hkey (by simp [hrunning])) .done

/-- A tail that is done was the last job of its key. -/
theorem Linked.idle_of_tail (h : s.Linked) (ht : s.tails key = some i) (hi : s.jobs[i]? = some job)
    (hdone : job.phase = .done) : s.Idle key := by
  obtain ⟨c, hc, hck⟩ := h.tailKey key i ht
  cases hi.symm.trans hc
  intro a ha hkey
  obtain ⟨j, hj⟩ := List.mem_iff_getElem?.1 ha
  by_contra hopen
  obtain ⟨t, htail, hle⟩ := h.tail j a hj hopen
  rw [hkey, ht] at htail
  cases htail
  rcases Nat.lt_or_eq_of_le hle with hlt | rfl
  · exact hopen (h.order j i a job hlt hj hi (hkey.trans hck.symm) (by simp [hdone]))
  · cases hi.symm.trans hj
    exact hopen hdone

theorem length_setPhase (s : Chains κ α) (i : Nat) (job : Job κ α) (p : JobPhase) :
    (s.setPhase i job p).jobs.length = s.jobs.length :=
  List.length_set

/-- A tail can be forgotten when no job of its key is left. -/
theorem linked_forget [DecidableEq κ] (h : s.Linked) (hidle : s.Idle key) :
    (s.forget key).Linked := by
  refine ⟨?_, ?_, h.after, h.afterKey, h.order⟩
  · intro i a ha hdone
    have hne : a.key ≠ key := fun hkey => hdone (hidle a (List.mem_of_getElem? ha) hkey)
    simpa [forget, Function.update_of_ne hne] using h.tail i a ha hdone
  · intro k t ht
    by_cases hk : k = key
    · simp [forget, hk] at ht
    · simp only [forget, Function.update_of_ne hk] at ht
      exact h.tailKey k t ht

/-! ## Counting -/

section Pending

variable [DecidableEq κ]

theorem pending_push (k : κ) :
    (s.push key data).pending k = s.pending k + if k = key then 1 else 0 := by
  simp [pending, push, List.countP_append, List.countP_cons, eq_comm]

theorem pending_forget (k : κ) : (s.forget key).pending k = s.pending k :=
  rfl

/-- A job that is not done counts for one under its key, before a change of phase and after. -/
theorem pending_setPhase (hi : s.jobs[i]? = some job) (hjob : job.phase ≠ .done) (p : JobPhase)
    (k : κ) :
    (s.setPhase i job p).pending k + (if job.key = k ∧ p = .done then 1 else 0) = s.pending k := by
  obtain ⟨hlt, hget⟩ := List.getElem?_eq_some_iff.1 hi
  have hle := @List.boole_getElem_le_countP _
    (fun job => decide (job.key = k ∧ job.phase ≠ .done)) s.jobs i hlt
  simp only [pending, setPhase, List.countP_set hlt]
  rw [hget] at hle ⊢
  by_cases hk : job.key = k <;> by_cases hp : p = .done <;> simp_all

end Pending

end Chains

end Lib
end Reflectdb
