import Reflectdb.Presence.RoomCap

/-!
# Presence service — publishes and leaves of one project over either of the stores

What the service tells its clients apart by is the status of an answer: a write inside the minimum
interval gets a 429 and changes nothing.
-/

namespace Reflectdb
namespace Presence

open Lib

variable {δ : Type}

/-! ## Stores -/

/-- The store that a service runs on; neither ever has two rows under one key. -/
inductive Backend (δ : Type)
  | memory (rows : List (Row ℚ δ)) (keyed : (rows.map Memory.rowKey).Nodup)
  | postgres (table : List (Row Int δ)) (keyed : (table.map Postgres.rowKey).Nodup)

theorem Memory.nodup_write {rows : List (Row ℚ δ)} (h : (rows.map rowKey).Nodup)
    (request : WriteRequest δ) (t : Int) : ((write rows request t).2.map rowKey).Nodup := by
  rw [write_eq]
  split
  · exact nodup_upsert h
  · exact h

/-- A write that is not let through leaves the table. -/
theorem Postgres.write_snd_eq (table : List (Row Int δ)) (request : WriteRequest δ) (t : Int) :
    (write table request t).2 =
      if (write table request t).1 = .ok then
        upsert rowKey table (newRow request (mathRound request.ttlMs) t)
      else table := by
  rw [write, writeSql]
  cases rowOf rowKey table request.toEntryKey with
  | none =>
      by_cases hroom : count table request.projectId request.room t < request.maxEntriesPerRoom
      · simp [hroom]
      · simp [hroom]
  | some pe =>
      by_cases hspaced : pe.updatedAt ≤ t - mathRound request.minIntervalMs
      · simp [hspaced]
      · simp [hspaced]

theorem Postgres.nodup_write {table : List (Row Int δ)} (h : (table.map rowKey).Nodup)
    (request : WriteRequest δ) (t : Int) : ((write table request t).2.map rowKey).Nodup := by
  rw [write_snd_eq]
  split
  · exact nodup_upsert h
  · exact h

namespace Backend

def write : Backend δ → WriteRequest δ → Int → WriteOutcome × Backend δ
  | .memory rows keyed, request, t =>
    ((Memory.write rows request t).1,
      .memory (Memory.write rows request t).2 (Memory.nodup_write keyed request t))
  | .postgres table keyed, request, t =>
    ((Postgres.write table request t).1,
      .postgres (Postgres.write table request t).2 (Postgres.nodup_write keyed request t))

def remove (projectId room clientId : Name) (channel : Option Name) : Backend δ → Backend δ
  | .memory rows keyed =>
    .memory (Memory.remove rows projectId room clientId channel)
      (keyed.sublist (List.filter_sublist.map _))
  | .postgres table keyed =>
    .postgres (Postgres.remove table projectId room clientId channel)
      (keyed.sublist (List.filter_sublist.map _))

/-- `picked` is what the subquery of the statement picks. -/
def sweep (limit : Nat) (picked : List EntryKey) (t : Int) : Backend δ → Option (Backend δ)
  | .memory rows keyed =>
    some (.memory (Memory.sweep t rows limit)
      (keyed.sublist ((Memory.sweep_sublist t rows limit).map _)))
  | .postgres table keyed =>
    match h : Postgres.sweep table limit picked t with
    | none => none
    | some table' =>
      some (.postgres table' (keyed.sublist ((Postgres.sweep_sublist h).map _)))

/-- How many whole milliseconds an entry lives. -/
def lifetime : Backend δ → ℚ → Int
  | .memory .., ttlMs => ⌈ttlMs⌉
  | .postgres .., ttlMs => Postgres.mathRound ttlMs

def leases : Backend δ → List (EntryLease δ)
  | .memory rows _ => rows.map Memory.lease
  | .postgres table _ => table.map Postgres.lease

/-- The data of the entry under a key, if there is a live one. -/
def live (b : Backend δ) (k : EntryKey) (t : Int) : Option δ :=
  ((rowOf Lease.key b.leases k).filter fun l => decide (t < l.deadline)).map (·.value.1)

/-! ### What the operations leave -/

variable {b b' : Backend δ} {request : WriteRequest δ} {k : EntryKey} {t t' : Int}

theorem live_congr (h : b'.leases = b.leases) : b'.live k t' = b.live k t' := by
  rw [live, live, h]

theorem leases_write (b : Backend δ) (request : WriteRequest δ) (t : Int) :
    (b.write request t).2.leases =
      if (b.write request t).1 = .ok then
        upsert Lease.key b.leases
          ⟨request.toEntryKey, (request.data, request.identity), t, t + b.lifetime request.ttlMs⟩
      else b.leases := by
  cases b with
  | memory rows keyed =>
      simp only [write, leases, Memory.write_snd, writeLease, Memory.write_fst]
      rfl
  | postgres table keyed =>
      simp only [write, leases, Postgres.write_snd_eq]
      split
      · exact (@upsert_map _ _ _ Postgres.rowKey table _ _ _ _ Lease.key Postgres.lease
          fun _ => Iff.rfl).symm
      · rfl

theorem live_write_ok (h : (b.write request t).1 = .ok) :
    (b.write request t).2.live request.toEntryKey t' =
      if t' < t + b.lifetime request.ttlMs then some request.data else none := by
  rw [live, leases_write, if_pos h, rowOf_upsert, if_pos rfl, Option.filter_some]
  split <;> simp_all

theorem live_write_refused (h : (b.write request t).1 ≠ .ok) :
    (b.write request t).2.live k t' = b.live k t' :=
  live_congr (by rw [leases_write, if_neg h])

theorem live_write_of_ne (h : request.toEntryKey ≠ k) :
    (b.write request t).2.live k t' = b.live k t' := by
  by_cases hok : (b.write request t).1 = .ok
  · rw [live, live, leases_write, if_pos hok, rowOf_upsert, if_neg h]
  · exact live_write_refused hok

theorem live_remove {projectId room clientId : Name} {channel : Option Name} :
    (b.remove projectId room clientId channel).live k t' =
      if removes projectId room clientId channel k then none else b.live k t' := by
  let stays : EntryKey → Bool := fun k => !removes projectId room clientId channel k
  have hleases : (b.remove projectId room clientId channel).leases =
      b.leases.filter fun l => stays l.key := by
    cases b with
    | memory rows keyed => exact map_lease_filter Int.ceil rows stays
    | postgres table keyed => exact map_lease_filter id table stays
  rw [live, live, hleases, rowOf_filter stays k]
  cases hremoves : removes projectId room clientId channel k with
  | true => simp [stays, hremoves]
  | false => simp [stays, hremoves]

/-- Rows that are dropped once they have expired are not missed. -/
theorem live_of_sublist (hnodup : (b.leases.map Lease.key).Nodup)
    (hsub : b'.leases.Sublist b.leases)
    (hlive : ∀ l ∈ b.leases, t' < l.deadline → l ∈ b'.leases) : b'.live k t' = b.live k t' := by
  have hfilter : ((rowOf Lease.key b'.leases k).filter fun l => decide (t' < l.deadline)) =
      (rowOf Lease.key b.leases k).filter fun l => decide (t' < l.deadline) := by
    refine Option.ext fun l => ?_
    simp only [Option.filter_eq_some_iff, rowOf_eq_some_iff hnodup,
      rowOf_eq_some_iff (hnodup.sublist (hsub.map _)), decide_eq_true_eq]
    constructor
    · rintro ⟨⟨hl, hkey⟩, hdue⟩
      exact ⟨⟨hsub.subset hl, hkey⟩, hdue⟩
    · rintro ⟨⟨hl, hkey⟩, hdue⟩
      exact ⟨⟨hlive l hl hdue, hkey⟩, hdue⟩
  rw [live, live, hfilter]

theorem nodup_leases (b : Backend δ) : (b.leases.map Lease.key).Nodup := by
  cases b with
  | memory rows keyed =>
      -- the keys of the map are the joined texts of the leases' keys
      have htexts : ((rows.map fun row => row.toEntryKey).map Memory.keyOf).Nodup := by
        rwa [List.map_map]
      rw [leases, List.map_map]
      exact htexts.of_map
  | postgres table keyed =>
      rw [leases, List.map_map]
      exact keyed

theorem live_sweep {limit : Nat} {picked : List EntryKey} (h : b.sweep limit picked t = some b')
    (ht : t ≤ t') : b'.live k t' = b.live k t' := by
  cases b with
  | memory rows keyed =>
      cases h
      exact live_of_sublist (nodup_leases _) ((Memory.sweep_sublist t rows limit).map _)
        fun l hl hlive => Memory.lease_mem_sweep hl (ht.trans_lt hlive)
  | postgres table keyed =>
      rw [sweep] at h
      split at h
      · cases h
      · rename_i table' hsweep
        cases h
        exact live_of_sublist (nodup_leases _) ((Postgres.sweep_sublist hsweep).map _)
          fun l hl hlive => Postgres.lease_mem_sweep hsweep keyed hl (ht.trans_lt hlive)

end Backend

/-! ## Commands -/

structure Project where
  projectId : Name
  maxEntriesPerRoom : Nat
  defaultTtlMs : ℚ
  maxTtlMs : ℚ
  maxMessagesPerSecond : ℚ
  messages_pos : 0 < maxMessagesPerSecond

structure PublishRequest (δ : Type) where
  room : Name
  channel : Name
  clientId : Name
  data : δ
  identity : Option δ
  ttlMs : Option ℚ

/-- The status that answers a publish. -/
def WriteOutcome.status : WriteOutcome → Nat
  | .ok => 200
  | .rateLimited => 429
  | .roomFull => 409

theorem WriteOutcome.status_eq_ok_iff {outcome : WriteOutcome} :
    outcome.status = 200 ↔ outcome = .ok := by
  cases outcome <;> simp [status]

structure LeaveRequest where
  room : Name
  clientId : Name
  channel : Option Name

namespace Project

variable (project : Project)

def ttlOf (ttlMs : Option ℚ) : ℚ :=
  min (ttlMs.getD project.defaultTtlMs) project.maxTtlMs

def writeRequest (request : PublishRequest δ) : WriteRequest δ where
  projectId := project.projectId
  room := request.room
  channel := request.channel
  clientId := request.clientId
  data := request.data
  identity := request.identity
  ttlMs := project.ttlOf request.ttlMs
  maxEntriesPerRoom := project.maxEntriesPerRoom
  minIntervalMs := ⌊1000 / project.maxMessagesPerSecond⌋

/-- The status of the answer, and the store after it. -/
def publish (b : Backend δ) (request : PublishRequest δ) (t : Int) : Nat × Backend δ :=
  let written := b.write (project.writeRequest request) t
  (written.1.status, written.2)

def leave (b : Backend δ) (request : LeaveRequest) : Nat × Backend δ :=
  (200, b.remove project.projectId request.room request.clientId request.channel)

end Project

end Presence
end Reflectdb
