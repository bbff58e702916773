import Reflectdb.Presence.RoomCap

/-!
# Store runs — one sequence of calls on both presence stores

A call reads one clock in both stores.  A row that has expired and was not swept lets its entry past
the cap, and is there or not as the sweeps of the store happened to pick.
-/

namespace Reflectdb
namespace Presence

open Lib

variable {δ : Type}

/-! ## Model -/

/-- A write with what both stores answered; `stored` if one of them had a row of the entry. -/
structure Answer (δ : Type) where
  request : WriteRequest δ
  time : Int
  stored : Bool
  memory : WriteOutcome
  postgres : WriteOutcome

/-- The two stores, and the writes so far, the newest first. -/
structure Stores (δ : Type) where
  now : Int
  memory : List (Row ℚ δ)
  table : List (Row Int δ)
  answers : List (Answer δ)

inductive StoreCall (δ : Type)
  | write (request : WriteRequest δ)
  | remove (projectId room clientId : Name) (channel : Option Name)
  | sweep (limit : Nat) (picked : List EntryKey)

structure StoreEvent (δ : Type) where
  time : Int
  call : StoreCall δ

namespace Stores

variable (s : Stores δ)

def stored (k : EntryKey) : Bool :=
  (rowOf Memory.rowKey s.memory (Memory.keyOf k)).isSome ||
    (rowOf Postgres.rowKey s.table k).isSome

def call (t : Int) : StoreCall δ → Option (Stores δ)
  | .write request =>
    some
      { now := t
        memory := (Memory.write s.memory request t).2
        table := (Postgres.write s.table request t).2
        answers :=
          { request := request
            time := t
            stored := s.stored request.toEntryKey
            memory := (Memory.write s.memory request t).1
            postgres := (Postgres.write s.table request t).1 } :: s.answers }
  | .remove projectId room clientId channel =>
    some
      { s with
        now := t
        memory := Memory.remove s.memory projectId room clientId channel
        table := Postgres.remove s.table projectId room clientId channel }
  | .sweep limit picked =>
    (Postgres.sweep s.table limit picked t).map fun table =>
      { s with now := t, memory := Memory.sweep t s.memory limit, table := table }

end Stores

/-- Calls one after another; the clock does not run back. -/
def storesMachine (start : Int) : Machine (Stores δ) (StoreEvent δ) where
  init := ⟨start, [], [], []⟩
  step s e := if s.now ≤ e.time then s.call e.time e.call else none

/-! ## What is asked of the runs -/

/-- When the entry was last written. -/
def lastWritten (answers : List (Answer δ)) (k : EntryKey) : Option Int :=
  (answers.find? fun a => a.request.toEntryKey = k && a.memory = .ok).map (·.time)

/-- The stores answered the same, and let no write of an entry that they had through too early. -/
def WellAnswered : List (Answer δ) → Prop
  | [] => True
  | a :: older =>
    a.memory = a.postgres ∧
      (a.memory = .ok → a.stored = true → ∀ last ∈ lastWritten older a.request.toEntryKey,
        (last : ℚ) ≤ a.time - a.request.minIntervalMs) ∧
      WellAnswered older

/-- When the row of an entry was written, if there is one and it has expired. -/
def Memory.expiredSince (rows : List (Row ℚ δ)) (k : EntryKey) (t : Int) : Option Int :=
  ((rowOf rowKey rows (keyOf k)).filter fun row => !live row t).map (·.updatedAt)

def Postgres.expiredSince (table : List (Row Int δ)) (k : EntryKey) (t : Int) : Option Int :=
  ((rowOf rowKey table k).filter fun row => !live row t).map (·.updatedAt)

/-- An expired row of the entry is in neither store, or is refused by both, or is refused by none
and the room has space for it. -/
def Revives (s : Stores δ) (request : WriteRequest δ) (t : Int) : Prop :=
  let m := Memory.expiredSince s.memory request.toEntryKey t
  let p := Postgres.expiredSince s.table request.toEntryKey t
  m = none ∧ p = none ∨
    (∃ since ∈ m, p = some since ∧ (t : ℚ) - request.minIntervalMs < since) ∨
    Memory.count s.memory request.projectId request.room t < request.maxEntriesPerRoom ∧
      (∀ since ∈ m, (since : ℚ) ≤ t - request.minIntervalMs) ∧
      ∀ since ∈ p, (since : ℚ) ≤ t - request.minIntervalMs

/-- The times of a write round up to whole milliseconds, and its expired row does no harm. -/
def StoreGuard (s : Stores δ) (e : StoreEvent δ) : Prop :=
  match e.call with
  | .write request =>
    Postgres.mathRound request.ttlMs = ⌈request.ttlMs⌉ ∧
      Postgres.mathRound request.minIntervalMs = ⌈request.minIntervalMs⌉ ∧
      Revives s request e.time
  | .remove .. | .sweep .. => True

instance (s : Stores δ) (request : WriteRequest δ) (t : Int) : Decidable (Revives s request t) :=
  inferInstanceAs (Decidable (_ ∨ _ ∨ _))

instance (s : Stores δ) : DecidablePred (StoreGuard s)
  | ⟨t, .write request⟩ => inferInstanceAs (Decidable (_ ∧ _ ∧ Revives s request t))
  | ⟨_, .remove ..⟩ | ⟨_, .sweep ..⟩ => instDecidableTrue

/-! ## Answers from two lists that agree -/

section Verdicts

variable {left right : List (EntryLease δ)} {request : WriteRequest δ} {t : Int}

/-- The lease under the key, if it has ended. -/
def endedSince (leases : List (EntryLease δ)) (k : EntryKey) (t : Int) : Option Int :=
  ((rowOf Lease.key leases k).filter fun l => !decide (t < l.deadline)).map (·.since)

theorem Memory.expiredSince_eq (rows : List (Row ℚ δ)) (k : EntryKey) (t : Int) :
    Memory.expiredSince rows k t = endedSince (rows.map Memory.lease) k t := by
  rw [Memory.expiredSince, endedSince, Memory.rowOf_lease]
  cases rowOf Memory.rowKey rows (Memory.keyOf k) with
  | none => rfl
  | some row =>
      simp only [Option.map_some, Option.filter_some, Memory.live_eq]
      split <;> rfl

theorem Postgres.expiredSince_eq (table : List (Row Int δ)) (k : EntryKey) (t : Int) :
    Postgres.expiredSince table k t = endedSince (table.map Postgres.lease) k t := by
  rw [Postgres.expiredSince, endedSince, Postgres.rowOf_lease]
  cases rowOf Postgres.rowKey table k with
  | none => rfl
  | some row =>
      simp only [Option.map_some, Option.filter_some, Postgres.live_eq]
      split <;> rfl

/-- What `Revives` says of the leases. -/
def Renews (left right : List (EntryLease δ)) (request : WriteRequest δ) (t : Int) : Prop :=
  let l := endedSince left request.toEntryKey t
  let r := endedSince right request.toEntryKey t
  l = none ∧ r = none ∨
    (∃ since ∈ l, r = some since ∧ (t : ℚ) - request.minIntervalMs < since) ∨
    Lease.liveCount left (inRoom request.projectId request.room) t < request.maxEntriesPerRoom ∧
      (∀ since ∈ l, (since : ℚ) ≤ t - request.minIntervalMs) ∧
      ∀ since ∈ r, (since : ℚ) ≤ t - request.minIntervalMs

theorem revives_iff {s : Stores δ} :
    Revives s request t ↔
      Renews (s.memory.map Memory.lease) (s.table.map Postgres.lease) request t := by
  rw [Revives, Renews, Memory.expiredSince_eq, Postgres.expiredSince_eq, Memory.count_lease]

theorem Renews.symm (hagree : Lease.Agree t left right) (h : Renews left right request t) :
    Renews right left request t := by
  rcases h with ⟨hl, hr⟩ | ⟨since, hl, hr, hrecent⟩ | ⟨hroom, hspaced⟩
  · exact .inl ⟨hr, hl⟩
  · exact .inr (.inl ⟨since, hr, hl, hrecent⟩)
  · refine .inr (.inr ⟨?_, hspaced.symm⟩)
    rwa [← hagree.liveCount_eq]

theorem verdict_of_none (h : rowOf Lease.key left request.toEntryKey = none) :
    verdict left request t =
      if Lease.liveCount left (inRoom request.projectId request.room) t <
        request.maxEntriesPerRoom then .ok
      else .roomFull := by
  rw [verdict, h]

theorem verdict_of_some {l : EntryLease δ}
    (h : rowOf Lease.key left request.toEntryKey = some l) :
    verdict left request t =
      if l.since + ⌈request.minIntervalMs⌉ ≤ t then .ok else .rateLimited := by
  rw [verdict, h]

theorem endedSince_of_some {l : EntryLease δ} {k : EntryKey}
    (h : rowOf Lease.key left k = some l) (hended : ¬ t < l.deadline) :
    endedSince left k t = some l.since := by
  simp [endedSince, h, not_lt.1 hended]

/-- A lease that only one of two agreeing lists has. -/
theorem verdict_of_only_left (hagree : Lease.Agree t left right) (h : Renews left right request t)
    {l : EntryLease δ} (hl : rowOf Lease.key left request.toEntryKey = some l)
    (hr : rowOf Lease.key right request.toEntryKey = none) :
    verdict left request t = .ok ∧ verdict right request t = .ok := by
  have hended : ¬ t < l.deadline := fun hlive =>
    rowOf_eq_none_iff.1 hr l (hagree.live_left l (mem_of_rowOf hl) hlive) (key_of_rowOf hl)
  have hsince := endedSince_of_some hl hended
  have hnone : endedSince right request.toEntryKey t = none := by simp [endedSince, hr]
  rcases h with ⟨hnot, -⟩ | ⟨since, -, hsome, -⟩ | ⟨hroom, hspaced⟩
  · rw [hsince] at hnot
    cases hnot
  · rw [hnone] at hsome
    cases hsome
  · constructor
    · rw [verdict_of_some hl, if_pos (le_sub_ceil_iff.2 (hspaced.1 _ hsince))]
    · rw [verdict_of_none hr, ← hagree.liveCount_eq, if_pos hroom]

theorem verdict_eq (hagree : Lease.Agree t left right) (h : Renews left right request t) :
    verdict left request t = verdict right request t := by
  cases hl : rowOf Lease.key left request.toEntryKey with
  | none =>
      cases hr : rowOf Lease.key right request.toEntryKey with
      | none => rw [verdict_of_none hl, verdict_of_none hr, hagree.liveCount_eq]
      | some r =>
          obtain ⟨hright, hleft⟩ := verdict_of_only_left hagree.symm (h.symm hagree) hr hl
          rw [hleft, hright]
  | some l =>
      cases hr : rowOf Lease.key right request.toEntryKey with
      | none =>
          obtain ⟨hleft, hright⟩ := verdict_of_only_left hagree h hl hr
          rw [hleft, hright]
      | some r =>
          have hkey : l.key = r.key := (key_of_rowOf hl).trans (key_of_rowOf hr).symm
          obtain rfl := hagree.same l (mem_of_rowOf hl) r (mem_of_rowOf hr) hkey
          rw [verdict_of_some hl, verdict_of_some hr]

end Verdicts

/-! ## Invariant -/

variable {s s' : Stores δ}

def Stores.leases (s : Stores δ) : List (EntryLease δ) :=
  s.memory.map Memory.lease

def Stores.tableLeases (s : Stores δ) : List (EntryLease δ) :=
  s.table.map Postgres.lease

/-- All writes of a room so far had the cap. -/
def CappedBy (answers : List (Answer δ)) (projectId room : Name) (cap : Nat) : Prop :=
  ∀ a ∈ answers, a.request.projectId = projectId → a.request.room = room →
    a.request.maxEntriesPerRoom = cap

structure StoresInv (s : Stores δ) : Prop where
  agree : Lease.Agree s.now s.leases s.tableLeases
  last : ∀ l ∈ s.leases, lastWritten s.answers l.key = some l.since
  last_table : ∀ l ∈ s.tableLeases, lastWritten s.answers l.key = some l.since
  well : WellAnswered s.answers
  capped : ∀ projectId room cap, CappedBy s.answers projectId room cap →
    Lease.liveCount s.leases (inRoom projectId room) s.now ≤ cap

theorem stored_iff {k : EntryKey} :
    s.stored k = true ↔
      (∃ l, rowOf Lease.key s.leases k = some l) ∨
        ∃ l, rowOf Lease.key s.tableLeases k = some l := by
  rw [Stores.stored, Stores.leases, Stores.tableLeases, Memory.rowOf_lease, Postgres.rowOf_lease,
    Bool.or_eq_true, Option.isSome_iff_exists, Option.isSome_iff_exists]
  simp

/-! ### The last write of an entry after one more -/

section LastWritten

variable {answers : List (Answer δ)} {a : Answer δ} {k : EntryKey}

theorem lastWritten_cons_ok (h : a.memory = .ok) :
    lastWritten (a :: answers) a.request.toEntryKey = some a.time := by
  simp [lastWritten, h]

theorem lastWritten_cons_of_ne (h : a.request.toEntryKey ≠ k) :
    lastWritten (a :: answers) k = lastWritten answers k := by
  simp [lastWritten, h]

theorem lastWritten_cons_refused (h : a.memory ≠ .ok) :
    lastWritten (a :: answers) k = lastWritten answers k := by
  simp [lastWritten, h]

/-- The leases after a write were written when the answers say. -/
theorem last_writeLease {leases : List (EntryLease δ)} {l : EntryLease δ}
    (hlast : ∀ l ∈ leases, lastWritten answers l.key = some l.since)
    (ha : a.memory = verdict leases a.request a.time)
    (hl : l ∈ writeLease leases a.request a.time) :
    lastWritten (a :: answers) l.key = some l.since := by
  rw [writeLease, ← ha] at hl
  split at hl
  · rename_i hok
    rcases mem_upsert_iff.1 hl with rfl | ⟨hl, hne⟩
    · exact lastWritten_cons_ok hok
    · rw [lastWritten_cons_of_ne fun heq => hne heq.symm, hlast l hl]
  · rename_i hrefused
    rw [lastWritten_cons_refused hrefused, hlast l hl]

/-- A write that a list let through over its lease comes late enough. -/
theorem spaced_of_ok {leases : List (EntryLease δ)} {l : EntryLease δ}
    {request : WriteRequest δ} {t last : Int}
    (hlast : ∀ l ∈ leases, lastWritten answers l.key = some l.since)
    (hl : rowOf Lease.key leases request.toEntryKey = some l)
    (hok : verdict leases request t = .ok)
    (h : last ∈ lastWritten answers request.toEntryKey) :
    (last : ℚ) ≤ t - request.minIntervalMs := by
  have hsince := hlast l (mem_of_rowOf hl)
  rw [key_of_rowOf hl] at hsince
  rw [Option.mem_def, hsince] at h
  cases h
  rw [verdict_of_some hl] at hok
  split at hok
  · exact le_sub_ceil_iff.1 ‹_›
  · cases hok

end LastWritten

/-- A write leaves a room within the cap. -/
theorem liveCount_writeLease {left right : List (EntryLease δ)} {request : WriteRequest δ} {t : Int}
    {projectId room : Name} {cap : Nat} (hagree : Lease.Agree t left right)
    (hrenews : Renews left right request t)
    (hcap : request.projectId = projectId → request.room = room →
      request.maxEntriesPerRoom = cap)
    (hle : Lease.liveCount left (inRoom projectId room) t ≤ cap) :
    Lease.liveCount (writeLease left request t) (inRoom projectId room) t ≤ cap := by
  rw [writeLease]
  split
  · rename_i hok
    by_cases hlive : inRoom projectId room request.toEntryKey = true →
        ∃ a ∈ left, a.key = request.toEntryKey ∧ t < a.deadline
    · exact (Lease.liveCount_upsert_of_live hagree.left_nodup hlive).trans hle
    · rw [Classical.not_imp] at hlive
      obtain ⟨hin, hnone⟩ := hlive
      simp only [inRoom, Bool.and_eq_true, decide_eq_true_eq] at hin
      obtain ⟨rfl, rfl⟩ := hin
      have hroom : Lease.liveCount left (inRoom request.projectId request.room) t <
          request.maxEntriesPerRoom := by
        cases hl : rowOf Lease.key left request.toEntryKey with
        | none =>
            rw [verdict_of_none hl] at hok
            split at hok
            · assumption
            · cases hok
        | some l =>
            -- the lease has ended, and was not refused
            have hended : ¬ t < l.deadline := fun hlive =>
              hnone ⟨l, mem_of_rowOf hl, key_of_rowOf hl, hlive⟩
            have hsince := endedSince_of_some hl hended
            rcases hrenews with ⟨hnot, -⟩ | ⟨since, hsome, -, hrecent⟩ | ⟨hroom, -⟩
            · rw [hsince] at hnot
              cases hnot
            · rw [Option.mem_def, hsince] at hsome
              cases hsome
              rw [verdict_of_some hl, if_neg (mt le_sub_ceil_iff.1 (not_le.2 hrecent))] at hok
              cases hok
            · exact hroom
      rw [← hcap rfl rfl]
      exact (Lease.liveCount_upsert_le hagree.left_nodup).trans hroom
  · exact hle

/-! ### The steps -/

theorem agree_writeLease {left right : List (EntryLease δ)} {request : WriteRequest δ}
    {t : Int} (h : Lease.Agree t left right) (hrenews : Renews left right request t) :
    Lease.Agree t (writeLease left request t) (writeLease right request t) := by
  rw [writeLease, writeLease, ← verdict_eq h hrenews]
  split
  · exact h.upsert _
  · exact h

theorem StoresInv.write {request : WriteRequest δ} {t : Int} (h : StoresInv s) (ht : s.now ≤ t)
    (hguard : StoreGuard s ⟨t, .write request⟩) (hs : s.call t (.write request) = some s') :
    StoresInv s' := by
  obtain ⟨httl, hinterval, hrevives⟩ := hguard
  cases hs
  have hagree := h.agree.mono ht
  have hrenews : Renews s.leases s.tableLeases request t := revives_iff.1 hrevives
  have hanswer := Memory.write_fst s.memory request t
  have hanswer' := Postgres.write_fst s.table hinterval t
  have hsame : (Memory.write s.memory request t).1 = (Postgres.write s.table request t).1 := by
    rw [hanswer, hanswer']
    exact verdict_eq hagree hrenews
  have hleases : (Memory.write s.memory request t).2.map Memory.lease =
      writeLease s.leases request t := Memory.write_snd s.memory request t
  have htable : (Postgres.write s.table request t).2.map Postgres.lease =
      writeLease s.tableLeases request t := Postgres.write_snd s.table httl hinterval t
  refine ⟨?_, ?_, ?_, ⟨hsame, ?_, h.well⟩, ?_⟩
  · rw [Stores.leases, Stores.tableLeases, hleases, htable]
    exact agree_writeLease hagree hrenews
  · intro l hl
    rw [Stores.leases, hleases] at hl
    exact last_writeLease h.last hanswer hl
  · intro l hl
    rw [Stores.tableLeases, htable] at hl
    exact last_writeLease h.last_table (hsame.trans hanswer') hl
  · intro hok hstored last hlast
    rcases stored_iff.1 hstored with ⟨l, hl⟩ | ⟨l, hl⟩
    · exact spaced_of_ok h.last hl (hanswer ▸ hok) hlast
    · exact spaced_of_ok h.last_table hl (hanswer' ▸ hsame ▸ hok) hlast
  · intro projectId room cap hcap
    rw [Stores.leases, hleases]
    refine liveCount_writeLease hagree hrenews (hcap _ List.mem_cons_self) ?_
    refine (Lease.liveCount_antitone _ _ ht).trans (h.capped projectId room cap fun a ha => ?_)
    exact hcap a (List.mem_cons_of_mem _ ha)

/-- What removes leases keeps the invariant, as long as the lists agree afterwards. -/
theorem StoresInv.of_sublist (h : StoresInv s) (ht : s.now ≤ s'.now)
    (hanswers : s'.answers = s.answers) (hleases : s'.leases.Sublist s.leases)
    (htable : s'.tableLeases.Sublist s.tableLeases)
    (hagree : Lease.Agree s'.now s'.leases s'.tableLeases) : StoresInv s' := by
  refine ⟨hagree, ?_, ?_, ?_, ?_⟩
  · intro l hl
    rw [hanswers]
    exact h.last l (hleases.subset hl)
  · intro l hl
    rw [hanswers]
    exact h.last_table l (htable.subset hl)
  · rw [hanswers]
    exact h.well
  · intro projectId room cap hcap
    rw [hanswers] at hcap
    calc Lease.liveCount s'.leases (inRoom projectId room) s'.now
        ≤ Lease.liveCount s.leases (inRoom projectId room) s'.now := hleases.countP_le
      _ ≤ Lease.liveCount s.leases (inRoom projectId room) s.now :=
          Lease.liveCount_antitone _ _ ht
      _ ≤ cap := h.capped projectId room cap hcap

theorem StoresInv.remove {projectId room clientId : Name} {channel : Option Name} {t : Int}
    (h : StoresInv s) (ht : s.now ≤ t)
    (hs : s.call t (.remove projectId room clientId channel) = some s') : StoresInv s' := by
  cases hs
  refine h.of_sublist ht rfl (List.filter_sublist.map _) (List.filter_sublist.map _) ?_
  let stays : EntryKey → Bool := fun k => !removes projectId room clientId channel k
  have hleases := map_lease_filter Int.ceil s.memory stays
  have htable := map_lease_filter id s.table stays
  have hagree := (h.agree.mono ht).filter stays
  rwa [Stores.leases, Stores.tableLeases, ← hleases, ← htable] at hagree

theorem StoresInv.sweep {limit : Nat} {picked : List EntryKey} {t : Int} (h : StoresInv s)
    (ht : s.now ≤ t) (hs : s.call t (.sweep limit picked) = some s') : StoresInv s' := by
  obtain ⟨table, htable, rfl⟩ := Option.map_eq_some_iff.1 hs
  have hmemory := Memory.sweep_sublist t s.memory limit
  have hsql := Postgres.sweep_sublist htable
  refine h.of_sublist ht rfl (hmemory.map _) (hsql.map _) ?_
  have hagree := h.agree.mono ht
  have hnodup : (s.table.map Postgres.rowKey).Nodup := by
    have hkeys := hagree.right_nodup
    rwa [Stores.tableLeases, List.map_map] at hkeys
  have hleft := hagree.expire_left (hmemory.map Memory.lease)
    fun l hl hlive => Memory.lease_mem_sweep hl hlive
  exact (hleft.symm.expire_left (hsql.map Postgres.lease)
    fun l hl hlive => Postgres.lease_mem_sweep htable hnodup hl hlive).symm

theorem StoresInv.step {start : Int} {e : StoreEvent δ} (h : StoresInv s) (hguard : StoreGuard s e)
    (hs : (storesMachine start).step s e = some s') : StoresInv s' := by
  obtain ⟨t, call⟩ := e
  simp only [storesMachine, Option.ite_none_right_eq_some] at hs
  obtain ⟨ht, hs⟩ := hs
  cases call with
  | write request => exact h.write ht hguard hs
  | remove projectId room clientId channel => exact h.remove ht hs
  | sweep limit picked => exact h.sweep ht hs

theorem storesInv_of_reach {start : Int}
    (h : (storesMachine start).Reach StoreGuard s) : StoresInv s := by
  refine h.invariant ?_ fun hi hg hs => hi.step hg hs
  refine ⟨.nil start, ?_, ?_, trivial, ?_⟩
  · exact fun l hl => absurd hl List.not_mem_nil
  · exact fun l hl => absurd hl List.not_mem_nil
  · exact fun _ _ cap _ => Nat.zero_le cap

/-! ## Outcomes, entries and the cap -/

/-- What the property asks of a state: the same answers, the same live entries from now on, and no
more of them in a room than a cap that all of its writes had. -/
structure SameStores (s : Stores δ) : Prop where
  well : WellAnswered s.answers
  entries : ∀ projectId room t, s.now ≤ t →
    (Memory.room s.memory projectId room t).Perm (Postgres.room s.table projectId room t)
  capped : ∀ projectId room cap, CappedBy s.answers projectId room cap → ∀ t, s.now ≤ t →
    Memory.count s.memory projectId room t ≤ cap ∧ Postgres.count s.table projectId room t ≤ cap

theorem StoresInv.sameStores (h : StoresInv s) : SameStores s := by
  refine ⟨h.well, ?_, ?_⟩
  · intro projectId room t ht
    rw [Memory.room, Postgres.room, map_storedEntry_room (Memory.live_eq · t),
      map_storedEntry_room (Postgres.live_eq · t)]
    exact ((h.agree.mono ht).live_perm.filter _).map _
  · intro projectId room cap hcap t ht
    have hle : Memory.count s.memory projectId room t ≤ cap := by
      rw [Memory.count_lease]
      exact (Lease.liveCount_antitone _ _ ht).trans (h.capped projectId room cap hcap)
    refine ⟨hle, ?_⟩
    rw [Postgres.count_lease]
    rw [Memory.count_lease] at hle
    exact (h.agree.mono ht).liveCount_eq (inRoom projectId room) ▸ hle

/-- Where no expired row that is still stored lets a write past the cap, or is refused by one store
alone, the stores answer alike and keep the interval and the cap. -/
theorem sameStores_of_reach {start : Int} (h : (storesMachine start).Reach StoreGuard s) :
    SameStores s :=
  (storesInv_of_reach h).sameStores

/-! ### An entry that comes back -/

def oneUnit : Name :=
  ⟨[97], rfl⟩

def otherUnit : Name :=
  ⟨[98], rfl⟩

/-- A write with a lifetime of ten and an interval of five, to a room for one entry. -/
def writeAt (clientId : Name) (t : Int) : StoreEvent Unit :=
  ⟨t, .write ⟨⟨oneUnit, oneUnit, oneUnit, clientId⟩, (), none, 10, 1, 5⟩⟩

/-- An entry that comes back after it has expired takes the only place again. -/
theorem sameStores_of_reach_returned :
    ∃ s : Stores Unit, s.answers.map (·.postgres) = [.roomFull, .ok, .ok] ∧ SameStores s := by
  let guard : Stores Unit → StoreEvent Unit → Bool := fun s e => decide (StoreGuard s e)
  let events := [writeAt oneUnit 0, writeAt oneUnit 12, writeAt otherUnit 13]
  have hrun : ((storesMachine 0).runWith guard (storesMachine 0).init events).map
      (fun s => s.answers.map (·.postgres)) = some [.roomFull, .ok, .ok] := by
    decide +kernel
  obtain ⟨s, hs, hanswers⟩ := Option.map_eq_some_iff.1 hrun
  have hreach : (storesMachine 0).Reach StoreGuard s :=
    .of_runWith (fun _ _ hg => of_decide_eq_true hg) .init hs
  exact ⟨s, hanswers, sameStores_of_reach hreach⟩

/-- An entry that comes back while another has the only place makes two. -/
theorem not_sameStores_returned :
    ¬ ∀ s : Stores Unit, (storesMachine 0).Reachable s → SameStores s := by
  intro h
  let events := [writeAt oneUnit 0, writeAt otherUnit 11, writeAt oneUnit 12]
  have hrun : ((storesMachine 0).run events).map (fun s =>
      (s.now, s.answers.map (·.request.maxEntriesPerRoom),
        Memory.count s.memory oneUnit oneUnit 12)) = some (12, [1, 1, 1], 2) := by
    decide +kernel
  obtain ⟨s, hs, hstate⟩ := Option.map_eq_some_iff.1 hrun
  obtain ⟨hnow, hcaps, hcount⟩ := by simpa only [Prod.mk.injEq] using hstate
  have hcapped : CappedBy s.answers oneUnit oneUnit 1 := by
    intro a ha _ _
    have hmem := List.mem_map_of_mem (f := fun a : Answer Unit => a.request.maxEntriesPerRoom) ha
    rw [hcaps] at hmem
    simpa using hmem
  have hle := ((h s (.of_run hs)).capped oneUnit oneUnit 1 hcapped 12 hnow.le).1
  omega

end Presence
end Reflectdb
