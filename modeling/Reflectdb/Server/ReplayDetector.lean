import Mathlib.Data.List.Dedup
import Mathlib.Data.List.Perm.Subperm
import Reflectdb.Lib.Machine

/-!
# Replay detector — the op ids that a server without a storage remembers

The ids are in a map, which keeps them in the order in which they were put into it: an id that is
seen again gets a new time and stays where it is.  A new id that finds the map full first sweeps the
expired ones, and then the older half if the map is still full.
-/

namespace Reflectdb
namespace Server
namespace ReplayDetector

open Lib

/-! ## Model -/

def TTL_MS : Int := 5 * 60000

def MAX_ENTRIES : Nat := 10000

structure Entry where
  opId : String
  ts : Int

/-- `Math.ceil(MAX_ENTRIES / 2)` -/
def DROPPED : Nat := (MAX_ENTRIES + 1) / 2

def has (inMemory : List Entry) (opId : String) : Bool :=
  inMemory.any fun e => decide (e.opId = opId)

/-- `inMemory.set` of an id that is there. -/
def refresh (inMemory : List Entry) (opId : String) (now : Int) : List Entry :=
  inMemory.map fun e => if e.opId = opId then ⟨opId, now⟩ else e

/-- The entries that have not expired. -/
def sweep (inMemory : List Entry) (cutoff : Int) : List Entry :=
  inMemory.filter fun e => !decide (e.ts < cutoff)

def makeRoom (inMemory : List Entry) (now : Int) : List Entry :=
  if MAX_ENTRIES ≤ inMemory.length then
    let swept := sweep inMemory (now - TTL_MS)
    -- the hard cap, if the sweep was not enough
    if MAX_ENTRIES ≤ swept.length then swept.drop DROPPED else swept
  else inMemory

/-- `reserve`: whether the id is fresh, and the map after the call. -/
def reserve (inMemory : List Entry) (now : Int) (opId : String) : Bool × List Entry :=
  if has inMemory opId then (false, refresh inMemory opId now)
  else (true, makeRoom inMemory now ++ [⟨opId, now⟩])

/-! ## Runs -/

structure Call where
  opId : String
  time : Int
  fresh : Bool

/-- The map, and the calls with their answers, the newest first. -/
structure DetectorRun where
  inMemory : List Entry
  calls : List Call

structure Request where
  opId : String
  now : Int

def answer (s : DetectorRun) (r : Request) : DetectorRun where
  inMemory := (reserve s.inMemory r.now r.opId).2
  calls := ⟨r.opId, r.now, (reserve s.inMemory r.now r.opId).1⟩ :: s.calls

def detectorMachine : Machine DetectorRun Request where
  init := ⟨[], []⟩
  step s r := some (answer s r)

/-- The call that saw the id last. -/
def lastSeen (calls : List Call) (opId : String) : Option Call :=
  calls.find? fun c => decide (c.opId = opId)

def sinceSeen (calls : List Call) (opId : String) : List Call :=
  calls.takeWhile fun c => !decide (c.opId = opId)

/-- The calls since the id was last taken for a fresh one. -/
def sinceReserved (calls : List Call) (opId : String) : List Call :=
  calls.takeWhile fun c => !(c.fresh && decide (c.opId = opId))

def distinctIds (calls : List Call) : Nat :=
  (calls.map (·.opId)).dedup.length

/-- The entries that the hard cap drops. -/
def cappedEntries (inMemory : List Entry) (now : Int) : List Entry :=
  if MAX_ENTRIES ≤ (sweep inMemory (now - TTL_MS)).length then
    (sweep inMemory (now - TTL_MS)).take DROPPED
  else []

/-! ### The calls after one more -/

section Calls

variable {calls : List Call} {c : Call} {opId : String}

theorem lastSeen_cons_self : lastSeen (c :: calls) c.opId = some c := by
  simp [lastSeen]

theorem lastSeen_cons_of_ne (h : c.opId ≠ opId) :
    lastSeen (c :: calls) opId = lastSeen calls opId := by
  simp [lastSeen, h]

theorem sinceSeen_cons_of_ne (h : c.opId ≠ opId) :
    sinceSeen (c :: calls) opId = c :: sinceSeen calls opId := by
  simp [sinceSeen, h]

theorem sinceReserved_cons (h : c.fresh = false ∨ c.opId ≠ opId) :
    sinceReserved (c :: calls) opId = c :: sinceReserved calls opId := by
  rcases h with h | h <;> simp [sinceReserved, h]

/-- An id whose last sight was its reservation. -/
theorem sinceReserved_eq_sinceSeen (h : (lastSeen calls opId).any (·.fresh) = true) :
    sinceReserved calls opId = sinceSeen calls opId := by
  induction calls with
  | nil => rfl
  | cons c calls ih =>
      by_cases hc : c.opId = opId
      · subst hc
        rw [lastSeen_cons_self] at h
        have hfresh : c.fresh = true := by simpa using h
        simp [sinceReserved, sinceSeen, hfresh]
      · rw [lastSeen_cons_of_ne hc] at h
        rw [sinceReserved_cons (.inr hc), sinceSeen_cons_of_ne hc, ih h]

theorem distinctIds_le_cons : distinctIds calls ≤ distinctIds (c :: calls) := by
  have hsub : (calls.map (·.opId)).dedup ⊆ ((c :: calls).map (·.opId)).dedup := by
    intro id hid
    rw [List.mem_dedup] at hid ⊢
    exact List.mem_cons_of_mem _ hid
  exact (List.subperm_of_subset (List.nodup_dedup _) hsub).length_le

/-- No more ids than distinct ones are without repetition. -/
theorem length_le_distinctIds {entries : List Entry} (hnodup : (entries.map (·.opId)).Nodup)
    (hsub : ∀ e ∈ entries, e.opId ∈ calls.map (·.opId)) : entries.length ≤ distinctIds calls := by
  have hsubset : entries.map (·.opId) ⊆ (calls.map (·.opId)).dedup := by
    intro id hid
    obtain ⟨e, he, rfl⟩ := List.mem_map.1 hid
    exact List.mem_dedup.2 (hsub e he)
  have hle := (List.subperm_of_subset hnodup hsubset).length_le
  rwa [List.length_map] at hle

end Calls

/-! ## What the map keeps -/

theorem has_iff {inMemory : List Entry} {opId : String} :
    has inMemory opId = true ↔ ∃ e ∈ inMemory, e.opId = opId := by
  simp [has]

theorem reserve_eq_false {inMemory : List Entry} {now : Int} {opId : String}
    (h : (reserve inMemory now opId).1 = false) : has inMemory opId = true := by
  rw [reserve] at h
  split at h
  · assumption
  · cases h

theorem map_refresh (inMemory : List Entry) (opId : String) (now : Int) :
    (refresh inMemory opId now).map (·.opId) = inMemory.map (·.opId) := by
  rw [refresh, List.map_map]
  refine List.map_congr_left fun e _ => ?_
  by_cases he : e.opId = opId <;> simp [he]

theorem makeRoom_sublist (inMemory : List Entry) (now : Int) :
    (makeRoom inMemory now).Sublist inMemory := by
  have hsweep : (sweep inMemory (now - TTL_MS)).Sublist inMemory := List.filter_sublist
  unfold makeRoom
  split
  · dsimp only
    split
    · exact (List.drop_sublist _ _).trans hsweep
    · exact hsweep
  · exact List.Sublist.refl _

theorem length_makeRoom_lt {inMemory : List Entry} (h : inMemory.length ≤ MAX_ENTRIES)
    (now : Int) : (makeRoom inMemory now).length < MAX_ENTRIES := by
  have hsweep : (sweep inMemory (now - TTL_MS)).length ≤ inMemory.length :=
    List.length_filter_le _ _
  have hdropped : 0 < DROPPED := by decide
  have hmax : 0 < MAX_ENTRIES := by decide
  unfold makeRoom
  split
  · dsimp only
    split
    · rw [List.length_drop]
      omega
    · omega
  · omega

/-- An entry that has not expired and has not too many behind it stays. -/
theorem mem_makeRoom {before after : List Entry} {e : Entry} {now : Int}
    (hts : now - TTL_MS ≤ e.ts) (hafter : after.length + DROPPED < MAX_ENTRIES) :
    e ∈ makeRoom (before ++ e :: after) now := by
  have hkept : (!decide (e.ts < now - TTL_MS)) = true := by simpa using hts
  have hsweep : sweep (before ++ e :: after) (now - TTL_MS) =
      sweep before (now - TTL_MS) ++ e :: sweep after (now - TTL_MS) := by
    simp only [sweep, List.filter_append, List.filter_cons, hkept, if_true]
  have hlen : (sweep after (now - TTL_MS)).length ≤ after.length := List.length_filter_le _ _
  unfold makeRoom
  split
  · dsimp only
    rw [hsweep]
    split
    · rename_i hfull
      rw [List.length_append, List.length_cons] at hfull
      rw [List.drop_append_of_le_length (by omega)]
      exact List.mem_append_right _ List.mem_cons_self
    · exact List.mem_append_right _ List.mem_cons_self
  · exact List.mem_append_right _ List.mem_cons_self

/-- At no call since was the id past the retention period. -/
def Retained (calls : List Call) (opId : String) : Prop :=
  ∃ c, lastSeen calls opId = some c ∧ ∀ d ∈ sinceSeen calls opId, d.time ≤ c.time + TTL_MS

structure Inv (s : DetectorRun) : Prop where
  room : s.inMemory.length ≤ MAX_ENTRIES
  nodup : (s.inMemory.map (·.opId)).Nodup
  /-- An entry has the time of the last sight of its id. -/
  seen : ∀ e ∈ s.inMemory, ∃ c, lastSeen s.calls e.opId = some c ∧ c.time = e.ts
  /-- The map is in the order of the reservations. -/
  order : s.inMemory.Pairwise fun a b => b.opId ∈ (sinceReserved s.calls a.opId).map (·.opId)
  remembers : ∀ opId, Retained s.calls opId →
    distinctIds (sinceReserved s.calls opId) + DROPPED < MAX_ENTRIES → has s.inMemory opId = true

variable {s : DetectorRun} {opId : String} {now : Int}

theorem inv_start : Inv ⟨[], []⟩ where
  room := Nat.zero_le _
  nodup := List.nodup_nil
  seen _ he := absurd he List.not_mem_nil
  order := List.Pairwise.nil
  remembers _ h _ := by
    obtain ⟨c, hc, -⟩ := h
    cases hc

/-- An id that another call comes after. -/
theorem Retained.of_cons {calls : List Call} {c : Call} (h : Retained (c :: calls) opId)
    (hne : c.opId ≠ opId) :
    Retained calls opId ∧ ∃ d, lastSeen calls opId = some d ∧ c.time ≤ d.time + TTL_MS := by
  obtain ⟨d, hd, hsince⟩ := h
  rw [lastSeen_cons_of_ne hne] at hd
  rw [sinceSeen_cons_of_ne hne] at hsince
  exact ⟨⟨d, hd, fun e he => hsince e (List.mem_cons_of_mem _ he)⟩, d, hd,
    hsince c List.mem_cons_self⟩

/-- A replay gets a new time, and nothing moves. -/
theorem inv_replay (h : Inv s) (hhas : has s.inMemory opId = true) :
    Inv ⟨refresh s.inMemory opId now, ⟨opId, now, false⟩ :: s.calls⟩ := by
  have hsince : ∀ id, sinceReserved (⟨opId, now, false⟩ :: s.calls) id =
      ⟨opId, now, false⟩ :: sinceReserved s.calls id := fun _ => sinceReserved_cons (.inl rfl)
  have hhas' : ∀ id, has (refresh s.inMemory opId now) id = has s.inMemory id := by
    intro id
    rw [Bool.eq_iff_iff, has_iff, has_iff]
    have hmem : id ∈ (refresh s.inMemory opId now).map (·.opId) ↔
        id ∈ s.inMemory.map (·.opId) := by rw [map_refresh]
    simpa using hmem
  refine ⟨?_, ?_, fun e he => ?_, ?_, fun id hretained hfew => ?_⟩
  · rw [refresh, List.length_map]
    exact h.room
  · rw [map_refresh]
    exact h.nodup
  · obtain ⟨e₀, he₀, rfl⟩ := List.mem_map.1 he
    by_cases hid : e₀.opId = opId
    · rw [if_pos hid]
      exact ⟨_, lastSeen_cons_self, rfl⟩
    · rw [if_neg hid]
      obtain ⟨c, hc, htime⟩ := h.seen e₀ he₀
      exact ⟨c, (lastSeen_cons_of_ne (Ne.symm hid)).trans hc, htime⟩
  · refine List.pairwise_map.2 (h.order.imp fun {a b} hab => ?_)
    have hname : ∀ e : Entry, (if e.opId = opId then ⟨opId, now⟩ else e : Entry).opId = e.opId := by
      intro e
      split
      · rename_i heq
        exact heq.symm
      · rfl
    rw [hname, hname, hsince]
    exact List.mem_cons_of_mem _ hab
  · rw [hhas']
    by_cases hid : opId = id
    · exact hid ▸ hhas
    · rw [hsince] at hfew
      have hle := @distinctIds_le_cons (sinceReserved s.calls id) ⟨opId, now, false⟩
      exact h.remembers id (hretained.of_cons hid).1 (by omega)

/-- What the map has of an id that is retained, and since whose reservation few others came, stays
when room is made. -/
theorem Inv.has_makeRoom (h : Inv s) {id : String} {c : Call}
    (hseen : lastSeen s.calls id = some c) (hnow : now ≤ c.time + TTL_MS)
    (hfew : distinctIds (sinceReserved s.calls id) + DROPPED < MAX_ENTRIES)
    (hhas : has s.inMemory id = true) : has (makeRoom s.inMemory now) id = true := by
  obtain ⟨e, he, rfl⟩ := has_iff.1 hhas
  obtain ⟨before, after, hsplit⟩ := List.append_of_mem he
  obtain ⟨d, hd, htime⟩ := h.seen e he
  have hsame : c = d := Option.some.inj (hseen.symm.trans hd)
  have horder := h.order
  have hnodup := h.nodup
  rw [hsplit] at horder hnodup ⊢
  rw [List.map_append, List.map_cons] at hnodup
  -- the ids behind it have been reserved since
  have hafter : after.length ≤ distinctIds (sinceReserved s.calls e.opId) :=
    length_le_distinctIds (List.nodup_cons.1 (List.nodup_append.1 hnodup).2.1).2
      (List.pairwise_cons.1 (List.pairwise_append.1 horder).2.1).1
  refine has_iff.2 ⟨e, mem_makeRoom ?_ (by omega), rfl⟩
  rw [← htime, ← hsame]
  omega

/-- A fresh id comes last. -/
theorem inv_fresh (h : Inv s) (hhas : has s.inMemory opId = false) :
    Inv ⟨makeRoom s.inMemory now ++ [⟨opId, now⟩], ⟨opId, now, true⟩ :: s.calls⟩ := by
  have hkept := makeRoom_sublist s.inMemory now
  have hne : ∀ e ∈ s.inMemory, opId ≠ e.opId := by
    rintro e he rfl
    rw [has_iff.2 ⟨e, he, rfl⟩] at hhas
    cases hhas
  have hsince : ∀ id, opId ≠ id → sinceReserved (⟨opId, now, true⟩ :: s.calls) id =
      ⟨opId, now, true⟩ :: sinceReserved s.calls id := fun id hid => sinceReserved_cons (.inr hid)
  refine ⟨?_, ?_, fun e he => ?_, ?_, fun id hretained hfew => ?_⟩
  · rw [List.length_append, List.length_singleton]
    exact length_makeRoom_lt h.room now
  · rw [List.map_append]
    refine List.nodup_append.2 ⟨(hkept.map _).nodup h.nodup, List.nodup_singleton _, ?_⟩
    intro id hid id' hid' heq
    obtain ⟨e, he, rfl⟩ := List.mem_map.1 hid
    exact hne e (hkept.subset he) ((List.mem_singleton.1 hid').symm.trans heq.symm)
  · rcases List.mem_append.1 he with hold | hnew
    · obtain ⟨c, hc, htime⟩ := h.seen e (hkept.subset hold)
      exact ⟨c, (lastSeen_cons_of_ne (hne e (hkept.subset hold))).trans hc, htime⟩
    · rw [List.mem_singleton.1 hnew]
      exact ⟨_, lastSeen_cons_self, rfl⟩
  · refine List.pairwise_append.2 ⟨?_, List.pairwise_singleton _ _, fun a ha b hb => ?_⟩
    · refine (h.order.sublist hkept).imp_of_mem fun {a b} ha _ hab => ?_
      rw [hsince a.opId (hne a (hkept.subset ha))]
      exact List.mem_cons_of_mem _ hab
    · rw [List.mem_singleton.1 hb, hsince a.opId (hne a (hkept.subset ha))]
      exact List.mem_cons_self
  · by_cases hid : opId = id
    · exact has_iff.2 ⟨_, List.mem_append_right _ List.mem_cons_self, hid⟩
    · rw [hsince id hid] at hfew
      have hle := @distinctIds_le_cons (sinceReserved s.calls id) ⟨opId, now, true⟩
      obtain ⟨hbefore, c, hc, hnow⟩ := hretained.of_cons hid
      have hold := h.remembers id hbefore (by omega)
      obtain ⟨e, he, heq⟩ := has_iff.1 (h.has_makeRoom hc hnow (by omega) hold)
      exact has_iff.2 ⟨e, List.mem_append_left _ he, heq⟩

theorem inv_answer (h : Inv s) (r : Request) : Inv (answer s r) := by
  cases hhas : has s.inMemory r.opId with
  | true =>
      simp only [answer, reserve, hhas, if_true]
      exact inv_replay h hhas
  | false =>
      simp only [answer, reserve, hhas, Bool.false_eq_true, if_false]
      exact inv_fresh h hhas

theorem inv_of_reachable (h : detectorMachine.Reachable s) : Inv s :=
  h.invariant (P := Inv) inv_start fun hinv _ hs => by
    cases hs
    exact inv_answer hinv _

/-! ## What it remembers -/

/-- The hard cap keeps what was reserved after what it drops. -/
theorem Inv.reserved_since (h : Inv s) {a b : Entry} (ha : a ∈ cappedEntries s.inMemory now)
    (hb : b ∈ makeRoom s.inMemory now) :
    b.opId ∈ (sinceReserved s.calls a.opId).map (·.opId) := by
  unfold cappedEntries at ha
  split at ha
  · rename_i hfull
    have hsweep : (sweep s.inMemory (now - TTL_MS)).Sublist s.inMemory := List.filter_sublist
    have hroom : makeRoom s.inMemory now = (sweep s.inMemory (now - TTL_MS)).drop DROPPED := by
      rw [makeRoom, if_pos (Nat.le_trans hfull hsweep.length_le)]
      exact if_pos hfull
    rw [hroom] at hb
    have horder := h.order.sublist hsweep
    rw [← List.take_append_drop DROPPED (sweep s.inMemory (now - TTL_MS))] at horder
    exact (List.pairwise_append.1 horder).2.2 a ha b hb
  · exact absurd ha List.not_mem_nil

/-- An id is remembered through the retention period after each of its sights, until half as many
others as the cap have been seen since its reservation.  What the cap drops was seen last before all
that it keeps, where it was not seen again after its reservation. -/
theorem remembers_of_reachable (h : detectorMachine.Reachable s) :
    (∀ opId now, Retained s.calls opId →
      distinctIds (sinceReserved s.calls opId) < MAX_ENTRIES / 2 →
        (reserve s.inMemory now opId).1 = false) ∧
      ∀ now, ∀ a ∈ cappedEntries s.inMemory now, (lastSeen s.calls a.opId).any (·.fresh) = true →
        ∀ b ∈ makeRoom s.inMemory now, b.opId ∈ (sinceSeen s.calls a.opId).map (·.opId) := by
  have hinv := inv_of_reachable h
  constructor
  · intro opId now hretained hfew
    have hhalf : MAX_ENTRIES / 2 + DROPPED ≤ MAX_ENTRIES := by decide
    have hhas := hinv.remembers opId hretained (by omega)
    rw [reserve, if_pos hhas]
  · intro now a ha hfresh b hb
    rw [← sinceReserved_eq_sinceSeen hfresh]
    exact hinv.reserved_since ha hb

/-! ## A map that fills up -/

/-- Ids that are all different. -/
def opIdOf (n : Nat) : String :=
  String.ofList (List.replicate n 'a')

theorem opIdOf_inj {m n : Nat} (h : opIdOf m = opIdOf n) : m = n := by
  simpa using congrArg List.length (String.ofList_injective h)

/-- The first `n` ids have been reserved at the time 0. -/
def filled (n : Nat) : DetectorRun where
  inMemory := (List.range n).map fun k => ⟨opIdOf k, 0⟩
  calls := ((List.range n).map fun k => ⟨opIdOf k, 0, true⟩).reverse

theorem filled_succ (n : Nat) : filled (n + 1) =
    ⟨(filled n).inMemory ++ [⟨opIdOf n, 0⟩], ⟨opIdOf n, 0, true⟩ :: (filled n).calls⟩ := by
  simp [filled, List.range_succ]

theorem not_has_filled {m n : Nat} (h : n ≤ m) : has (filled n).inMemory (opIdOf m) = false := by
  rw [Bool.eq_false_iff]
  intro hhas
  obtain ⟨e, he, heq⟩ := has_iff.1 hhas
  obtain ⟨k, hk, rfl⟩ := List.mem_map.1 he
  have hkn : k < n := List.mem_range.1 hk
  have hkm : k = m := opIdOf_inj heq
  omega

theorem reachable_filled {n : Nat} (h : n ≤ MAX_ENTRIES) :
    detectorMachine.Reachable (filled n) := by
  induction n with
  | zero => exact .init
  | succ n ih =>
      have hroom : makeRoom (filled n).inMemory 0 = (filled n).inMemory := by
        have hlen : (filled n).inMemory.length = n := by simp [filled]
        rw [makeRoom, if_neg (by omega)]
      have hstep : detectorMachine.step (filled n) ⟨opIdOf n, 0⟩ = some (filled (n + 1)) := by
        rw [filled_succ]
        simp only [detectorMachine, answer, reserve, not_has_filled (Nat.le_refl n),
          Bool.false_eq_true, if_false, hroom]
      exact (ih (by omega)).step trivial hstep

theorem lastSeen_filled {k n : Nat} (h : k < n) :
    lastSeen (filled n).calls (opIdOf k) = some ⟨opIdOf k, 0, true⟩ := by
  induction n with
  | zero => omega
  | succ n ih =>
      rw [filled_succ]
      by_cases hk : n = k
      · subst hk
        exact lastSeen_cons_self
      · have hne : opIdOf n ≠ opIdOf k := fun heq => hk (opIdOf_inj heq)
        exact (lastSeen_cons_of_ne hne).trans (ih (by omega))

/-- The ids that were reserved after it have been seen since. -/
theorem length_sinceSeen_filled {k n : Nat} (h : k < n) :
    (sinceSeen (filled n).calls (opIdOf k)).length = n - 1 - k := by
  induction n with
  | zero => omega
  | succ n ih =>
      rw [filled_succ]
      by_cases hk : n = k
      · subst hk
        simp [sinceSeen]
      · have hne : opIdOf n ≠ opIdOf k := fun heq => hk (opIdOf_inj heq)
        have hsince := @sinceSeen_cons_of_ne (filled n).calls ⟨opIdOf n, 0, true⟩ _ hne
        rw [hsince, List.length_cons, ih (by omega)]
        omega

theorem retained_filled {k n : Nat} (h : k < n) : Retained (filled n).calls (opIdOf k) := by
  refine ⟨_, lastSeen_filled h, fun d hd => ?_⟩
  have hcall : d ∈ (filled n).calls := List.takeWhile_sublist _ |>.subset hd
  obtain ⟨j, -, rfl⟩ := List.mem_map.1 (List.mem_reverse.1 hcall)
  change (0 : Int) ≤ 0 + TTL_MS
  decide

theorem distinctIds_le_length (calls : List Call) : distinctIds calls ≤ calls.length := by
  have hle := (List.dedup_sublist (calls.map (·.opId))).length_le
  rwa [List.length_map] at hle

theorem sweep_filled (n : Nat) :
    sweep (filled n).inMemory (0 - TTL_MS) = (filled n).inMemory := by
  refine List.filter_eq_self.2 fun e he => ?_
  obtain ⟨k, -, rfl⟩ := List.mem_map.1 he
  change (!decide ((0 : Int) < 0 - TTL_MS)) = true
  decide

theorem length_filled (n : Nat) : (filled n).inMemory.length = n := by
  simp [filled]

theorem makeRoom_filled :
    makeRoom (filled MAX_ENTRIES).inMemory 0 = (filled MAX_ENTRIES).inMemory.drop DROPPED := by
  have hfull : MAX_ENTRIES ≤ (filled MAX_ENTRIES).inMemory.length :=
    Nat.le_of_eq (length_filled MAX_ENTRIES).symm
  rw [makeRoom, if_pos hfull, sweep_filled]
  exact if_pos hfull

theorem cappedEntries_filled :
    cappedEntries (filled MAX_ENTRIES).inMemory 0 =
      (filled MAX_ENTRIES).inMemory.take DROPPED := by
  rw [cappedEntries, sweep_filled, length_filled, if_pos (Nat.le_refl _)]

/-- The dropped ids are not in the map after the call that dropped them. -/
theorem not_has_kept {n k : Nat} (hk : k < DROPPED) (hne : k ≠ n) :
    has ((filled n).inMemory.drop DROPPED ++ [⟨opIdOf n, 0⟩]) (opIdOf k) = false := by
  refine Bool.eq_false_iff.2 fun hhas => ?_
  obtain ⟨e, he, heq⟩ := has_iff.1 hhas
  rcases List.mem_append.1 he with hkept | hnew
  · rw [filled, ← List.map_drop] at hkept
    obtain ⟨i, hi, rfl⟩ := List.mem_map.1 hkept
    obtain ⟨j, hj, rfl⟩ := List.mem_iff_getElem.1 hi
    rw [List.getElem_drop, List.getElem_range] at heq
    have hindex : DROPPED + j = k := opIdOf_inj heq
    omega
  · rw [List.mem_singleton.1 hnew] at heq
    exact hne (opIdOf_inj heq).symm

/-- Two of three ids are behind the first; and in a full map the first one is dropped, and the one
after those that are dropped is kept. -/
theorem remembers_of_reachable_filled :
    (reserve (filled 3).inMemory 5 (opIdOf 0)).1 = false ∧
      opIdOf DROPPED ∈ (sinceSeen (filled MAX_ENTRIES).calls (opIdOf 0)).map (·.opId) := by
  constructor
  · refine (remembers_of_reachable (reachable_filled (by decide))).1 _ _
      (retained_filled (by decide)) ?_
    decide +kernel
  · refine (remembers_of_reachable (reachable_filled (Nat.le_refl _))).2 0 ⟨opIdOf 0, 0⟩ ?_ ?_
      ⟨opIdOf DROPPED, 0⟩ ?_
    · rw [cappedEntries_filled, filled, ← List.map_take, List.take_range]
      exact List.mem_map.2 ⟨0, List.mem_range.2 (by simp [DROPPED, MAX_ENTRIES]), rfl⟩
    · rw [lastSeen_filled (by simp [MAX_ENTRIES])]
      rfl
    · rw [makeRoom_filled, filled, ← List.map_drop]
      refine List.mem_map.2 ⟨DROPPED, ?_, rfl⟩
      exact List.mem_iff_getElem.2 ⟨0, by simp [DROPPED, MAX_ENTRIES], by simp⟩

/-- Where one id more than the cap comes, the second one is dropped with half of the map, though
fewer ids than the cap have been seen since. -/
theorem not_remembers_cap :
    ¬ ∀ s, detectorMachine.Reachable s → ∀ opId now, Retained s.calls opId →
      distinctIds (sinceSeen s.calls opId) < MAX_ENTRIES →
        (reserve s.inMemory now opId).1 = false := by
  intro h
  have hanswer : answer (filled MAX_ENTRIES) ⟨opIdOf MAX_ENTRIES, 0⟩ =
      ⟨(filled MAX_ENTRIES).inMemory.drop DROPPED ++ [⟨opIdOf MAX_ENTRIES, 0⟩],
        (filled (MAX_ENTRIES + 1)).calls⟩ := by
    rw [filled_succ]
    simp only [answer, reserve, not_has_filled (Nat.le_refl MAX_ENTRIES), Bool.false_eq_true,
      if_false, makeRoom_filled]
  have hreach : detectorMachine.Reachable (answer (filled MAX_ENTRIES) ⟨opIdOf MAX_ENTRIES, 0⟩) :=
    (reachable_filled (Nat.le_refl _)).step trivial rfl
  rw [hanswer] at hreach
  have hfew :
      distinctIds (sinceSeen (filled (MAX_ENTRIES + 1)).calls (opIdOf 1)) < MAX_ENTRIES := by
    have hlen := @length_sinceSeen_filled 1 (MAX_ENTRIES + 1) (by simp [MAX_ENTRIES])
    have hle := distinctIds_le_length (sinceSeen (filled (MAX_ENTRIES + 1)).calls (opIdOf 1))
    have hmax : 0 < MAX_ENTRIES := by simp [MAX_ENTRIES]
    omega
  have hretained : Retained (filled (MAX_ENTRIES + 1)).calls (opIdOf 1) :=
    @retained_filled 1 (MAX_ENTRIES + 1) (by simp [MAX_ENTRIES])
  have hall := h _ hreach
  dsimp only at hall
  have hreplay := hall (opIdOf 1) 0 hretained hfew
  have hhas := reserve_eq_false hreplay
  rw [not_has_kept (by simp [DROPPED, MAX_ENTRIES]) (by simp [MAX_ENTRIES])] at hhas
  cases hhas

end ReplayDetector
end Server
end Reflectdb
