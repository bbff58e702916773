import Mathlib.Tactic.Linarith
import Reflectdb.Lib.Machine
import Reflectdb.Presence.Store

/-!
# Room cap — the two presence stores side by side, and how many live entries a room gets

Each store is a list of leases, and answers a write from the lease under its key and the count of
the live ones.  The two sweep different rows, so what one of them still holds the other may have
dropped.
-/

namespace Reflectdb
namespace Presence

open Lib

variable {δ : Type}

/-! ## Rows as leases -/

abbrev EntryLease (δ : Type) : Type :=
  Lease EntryKey (δ × Option δ)

def inRoom (projectId room : Name) (k : EntryKey) : Bool :=
  k.projectId = projectId && k.room = room

/-- A row's lease; `ends` is the first time at which an expiry is past. -/
def Row.lease {τ : Type} (ends : τ → Int) (row : Row τ δ) : EntryLease δ :=
  ⟨row.toEntryKey, (row.data, row.identity), row.updatedAt, ends row.expiresAt⟩

def leaseEntry (l : EntryLease δ) : StoredEntry δ :=
  ⟨l.key.clientId, l.key.channel, l.value.1, l.value.2, l.since⟩

def WriteRequest.lease (request : WriteRequest δ) (t : Int) : EntryLease δ :=
  ⟨request.toEntryKey, (request.data, request.identity), t, t + ⌈request.ttlMs⌉⟩

/-- The answer to a write, by the lease under its key and the live ones in its room. -/
def verdict (leases : List (EntryLease δ)) (request : WriteRequest δ) (t : Int) : WriteOutcome :=
  match rowOf Lease.key leases request.toEntryKey with
  | some l => if l.since + ⌈request.minIntervalMs⌉ ≤ t then .ok else .rateLimited
  | none =>
    if Lease.liveCount leases (inRoom request.projectId request.room) t <
      request.maxEntriesPerRoom then .ok
    else .roomFull

def writeLease (leases : List (EntryLease δ)) (request : WriteRequest δ) (t : Int) :
    List (EntryLease δ) :=
  if verdict leases request t = .ok then upsert Lease.key leases (request.lease t) else leases

/-- The lists of both stores, filtered by the keys. -/
theorem map_lease_filter {τ : Type} (ends : τ → Int) (rows : List (Row τ δ))
    (stays : EntryKey → Bool) :
    (rows.filter fun row => stays row.toEntryKey).map (Row.lease ends) =
      (rows.map (Row.lease ends)).filter fun l => stays l.key := by
  rw [List.filter_map]
  rfl

/-- What both stores read of a room. -/
theorem map_storedEntry_room {τ : Type} {ends : τ → Int} {live : Row τ δ → Bool} {t : Int}
    (hlive : ∀ row, live row = decide (t < (row.lease ends).deadline)) (rows : List (Row τ δ))
    (projectId room : Name) :
    (rows.filter fun row => row.projectId = projectId && row.room = room && live row).map
        Row.storedEntry =
      (((rows.map (Row.lease ends)).filter fun l => t < l.deadline).filter
        fun l => inRoom projectId room l.key).map leaseEntry := by
  rw [List.filter_filter, List.filter_map, List.map_map]
  refine congrArg₂ _ rfl (List.filter_congr fun row _ => ?_)
  rw [hlive]
  rfl

theorem le_sub_ceil_iff {since t : Int} {interval : ℚ} :
    since + ⌈interval⌉ ≤ t ↔ (since : ℚ) ≤ t - interval := by
  have hceil : ⌈interval⌉ ≤ t - since ↔ interval ≤ (t : ℚ) - since := by
    rw [Int.ceil_le, Int.cast_sub]
  rw [le_sub_comm, ← hceil]
  omega

namespace Memory

variable {rows : List (Row ℚ δ)} {row : Row ℚ δ} {request : WriteRequest δ} {t : Int}

abbrev lease (row : Row ℚ δ) : EntryLease δ :=
  row.lease Int.ceil

theorem live_eq (row : Row ℚ δ) (t : Int) : live row t = decide (t < (lease row).deadline) := by
  rw [live]
  exact decide_eq_decide.2 Int.lt_ceil.symm

/-- The names hold no NUL, so the joined key tells the entries apart. -/
theorem keyOf_inj {k k' : EntryKey} : keyOf k = keyOf k' ↔ k = k' := by
  refine ⟨fun h => ?_, fun h => congrArg keyOf h⟩
  have hsep (n : Name) : (0 : UInt16) ∉ n.text := by
    intro hmem
    have hno := n.no_nul
    rw [List.contains_iff_mem.2 hmem] at hno
    cases hno
  obtain ⟨hproject, h⟩ := append_separator_inj (hsep _) (hsep _) h
  obtain ⟨hroom, h⟩ := append_separator_inj (hsep _) (hsep _) h
  obtain ⟨hchannel, hclient⟩ := append_separator_inj (hsep _) (hsep _) h
  have hname {a b : Name} (heq : a.text = b.text) : a = b := by
    cases a
    cases b
    cases heq
    rfl
  cases k
  cases k'
  simp only [EntryKey.mk.injEq]
  exact ⟨hname hproject, hname hroom, hname hchannel, hname hclient⟩

theorem rowOf_lease (rows : List (Row ℚ δ)) (k : EntryKey) :
    rowOf Lease.key (rows.map lease) k = (rowOf rowKey rows (keyOf k)).map lease :=
  rowOf_map fun _ => keyOf_inj.symm

theorem count_lease (rows : List (Row ℚ δ)) (projectId room : Name) (t : Int) :
    count rows projectId room t =
      Lease.liveCount (rows.map lease) (inRoom projectId room) t := by
  rw [count, Lease.liveCount, List.countP_map]
  congr 1
  funext row
  rw [live_eq]
  rfl

theorem lease_newRow (request : WriteRequest δ) (t : Int) :
    lease (newRow request t) = request.lease t := by
  simp [Row.lease, newRow, WriteRequest.lease, Int.ceil_intCast_add]

theorem upsert_lease (rows : List (Row ℚ δ)) (request : WriteRequest δ) (t : Int) :
    (upsert rowKey rows (newRow request t)).map lease =
      upsert Lease.key (rows.map lease) (request.lease t) := by
  rw [← lease_newRow]
  exact (@upsert_map _ _ _ rowKey rows _ _ _ _ Lease.key lease fun _ => keyOf_inj.symm).symm

theorem write_eq (rows : List (Row ℚ δ)) (request : WriteRequest δ) (t : Int) :
    write rows request t =
      (verdict (rows.map lease) request t,
        if verdict (rows.map lease) request t = .ok then upsert rowKey rows (newRow request t)
        else rows) := by
  rw [write, verdict, rowOf_lease]
  cases rowOf rowKey rows (keyOf request.toEntryKey) with
  | none =>
      rw [Option.map_none]
      by_cases hfull : request.maxEntriesPerRoom ≤
        count rows request.projectId request.room t
      · have hnot : ¬ _ < _ := Nat.not_lt.2 (count_lease rows _ _ t ▸ hfull)
        simp [hfull, hnot]
      · have hroom := count_lease rows _ _ t ▸ Nat.lt_of_not_le hfull
        simp [hfull, hroom]
  | some existing =>
      rw [Option.map_some]
      by_cases hrecent : (t : ℚ) - request.minIntervalMs < existing.updatedAt
      · have hnot := mt le_sub_ceil_iff.1 (not_le.2 hrecent)
        simp [hrecent, Row.lease, hnot]
      · have hspaced := le_sub_ceil_iff.2 (not_lt.1 hrecent)
        simp [hrecent, Row.lease, hspaced]

theorem write_fst (rows : List (Row ℚ δ)) (request : WriteRequest δ) (t : Int) :
    (write rows request t).1 = verdict (rows.map lease) request t := by
  rw [write_eq]

theorem write_snd (rows : List (Row ℚ δ)) (request : WriteRequest δ) (t : Int) :
    (write rows request t).2.map lease = writeLease (rows.map lease) request t := by
  rw [write_eq, writeLease, ← upsert_lease]
  split <;> rfl

theorem sweep_sublist (t : Int) (rows : List (Row ℚ δ)) (limit : Nat) :
    (sweep t rows limit).Sublist rows := by
  fun_induction sweep t rows limit with
  | case1 => exact .refl _
  | case2 => exact .refl _
  | case3 row rows limit _ ih => exact ih.cons_cons row
  | case4 row rows limit _ ih => exact ih.cons row

/-- A sweep leaves the live rows. -/
theorem mem_sweep {t : Int} {rows : List (Row ℚ δ)} {limit : Nat} {row : Row ℚ δ} (h : row ∈ rows)
    (hlive : live row t = true) : row ∈ sweep t rows limit := by
  fun_induction sweep t rows limit with
  | case1 => exact h
  | case2 => exact h
  | case3 r rows limit _ ih =>
      rcases List.mem_cons.1 h with rfl | h
      · exact List.mem_cons_self
      · exact List.mem_cons_of_mem _ (ih h)
  | case4 r rows limit hexpired ih =>
      rcases List.mem_cons.1 h with rfl | h
      · exact absurd hlive hexpired
      · exact ih h

theorem lease_mem_sweep {t : Int} {rows : List (Row ℚ δ)} {limit : Nat} {l : EntryLease δ}
    (h : l ∈ rows.map lease) (hlive : t < l.deadline) : l ∈ (sweep t rows limit).map lease := by
  obtain ⟨row, hrow, rfl⟩ := List.mem_map.1 h
  refine List.mem_map_of_mem (mem_sweep hrow ?_)
  rw [live_eq]
  exact decide_eq_true hlive

end Memory

namespace Postgres

abbrev lease (row : Row Int δ) : EntryLease δ :=
  row.lease id

theorem live_eq (row : Row Int δ) (t : Int) : live row t = decide (t < (lease row).deadline) :=
  rfl

theorem rowOf_lease (table : List (Row Int δ)) (k : EntryKey) :
    rowOf Lease.key (table.map lease) k = (rowOf rowKey table k).map lease :=
  rowOf_map fun _ => Iff.rfl

theorem count_lease (table : List (Row Int δ)) (projectId room : Name) (t : Int) :
    count table projectId room t =
      Lease.liveCount (table.map lease) (inRoom projectId room) t := by
  rw [count, Lease.liveCount, List.countP_map]
  rfl

theorem upsert_lease (table : List (Row Int δ)) {request : WriteRequest δ}
    (httl : mathRound request.ttlMs = ⌈request.ttlMs⌉) (t : Int) :
    (upsert rowKey table (newRow request (mathRound request.ttlMs) t)).map lease =
      upsert Lease.key (table.map lease) (request.lease t) := by
  have hnew : lease (newRow request (mathRound request.ttlMs) t) = request.lease t := by
    rw [httl]
    rfl
  rw [← hnew]
  exact (@upsert_map _ _ _ rowKey table _ _ _ _ Lease.key lease fun _ => Iff.rfl).symm

/-- The statement answers as the map does, where both of the request's times round up. -/
theorem write_eq (table : List (Row Int δ)) {request : WriteRequest δ}
    (hinterval : mathRound request.minIntervalMs = ⌈request.minIntervalMs⌉) (t : Int) :
    write table request t =
      (verdict (table.map lease) request t,
        if verdict (table.map lease) request t = .ok then
          upsert rowKey table (newRow request (mathRound request.ttlMs) t)
        else table) := by
  rw [write, writeSql, verdict, rowOf_lease, hinterval, count_lease]
  cases rowOf rowKey table request.toEntryKey with
  | none =>
      by_cases hroom : Lease.liveCount (table.map lease)
        (inRoom request.projectId request.room) t < request.maxEntriesPerRoom
      · simp [hroom]
      · simp [hroom]
  | some pe =>
      by_cases hspaced : pe.updatedAt ≤ t - ⌈request.minIntervalMs⌉
      · have hsum := Int.add_le_of_le_sub_right hspaced
        simp [hspaced, Row.lease, hsum]
      · have hsum := mt Int.le_sub_right_of_add_le hspaced
        simp [hspaced, Row.lease, hsum]

theorem write_fst (table : List (Row Int δ)) {request : WriteRequest δ}
    (hinterval : mathRound request.minIntervalMs = ⌈request.minIntervalMs⌉) (t : Int) :
    (write table request t).1 = verdict (table.map lease) request t := by
  rw [write_eq table hinterval]

theorem write_snd (table : List (Row Int δ)) {request : WriteRequest δ}
    (httl : mathRound request.ttlMs = ⌈request.ttlMs⌉)
    (hinterval : mathRound request.minIntervalMs = ⌈request.minIntervalMs⌉) (t : Int) :
    (write table request t).2.map lease = writeLease (table.map lease) request t := by
  rw [write_eq table hinterval, writeLease, ← upsert_lease table httl]
  split <;> rfl

theorem sweep_sublist {table table' : List (Row Int δ)} {limit : Nat} {picked : List EntryKey}
    {t : Int} (h : sweep table limit picked t = some table') : table'.Sublist table := by
  rw [sweep] at h
  split at h
  · cases h
    exact List.filter_sublist
  · cases h

/-- A sweep leaves the live rows, of which the subquery selects none. -/
theorem mem_sweep {table table' : List (Row Int δ)} {limit : Nat} {picked : List EntryKey}
    {t : Int} (h : sweep table limit picked t = some table') (hnodup : (table.map rowKey).Nodup)
    {row : Row Int δ} (hrow : row ∈ table) (hlive : live row t = true) : row ∈ table' := by
  rw [sweep] at h
  split at h
  · rename_i hpicked
    cases h
    refine List.mem_filter.2 ⟨hrow, ?_⟩
    rw [Bool.not_eq_true', List.any_eq_false]
    intro k hk hkey
    have hexpired := List.all_eq_true.1 hpicked.2.1 k hk
    obtain ⟨e, he, heq⟩ := List.any_eq_true.1 hexpired
    obtain ⟨r, hr, rfl⟩ := List.mem_map.1 he
    obtain ⟨hr, hdue⟩ := List.mem_filter.1 hr
    have hsame : rowKey r = rowKey row :=
      (of_decide_eq_true heq).trans (of_decide_eq_true hkey).symm
    rw [List.inj_on_of_nodup_map hnodup hr hrow hsame, hlive] at hdue
    cases hdue
  · cases h

theorem lease_mem_sweep {table table' : List (Row Int δ)} {limit : Nat} {picked : List EntryKey}
    {t : Int} {l : EntryLease δ} (hs : sweep table limit picked t = some table')
    (hnodup : (table.map rowKey).Nodup) (h : l ∈ table.map lease) (hlive : t < l.deadline) :
    l ∈ table'.map lease := by
  obtain ⟨row, hrow, rfl⟩ := List.mem_map.1 h
  exact List.mem_map_of_mem (mem_sweep hs hnodup hrow (decide_eq_true hlive))

end Postgres

end Presence
end Reflectdb
