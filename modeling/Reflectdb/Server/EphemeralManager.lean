import Mathlib.Data.List.AList
import Reflectdb.Server.Presence

/-!
# EphemeralManager — the ephemeral entries of one process

The in-memory store keeps an entry's state under its room, channel key and client, counts the
entries and lists each client's in an index, as texts in which a NUL separates the names.
-/

namespace Reflectdb
namespace Server

open Core Lib

/-! ## Lists by keys -/

section Count

variable {α : Type} {β : α → Type} [DecidableEq α] {a : α} {xs : AList β}

/-- The entries that a condition keeps. -/
def keep (xs : AList β) (p : (a : α) → β a → Bool) : AList β where
  entries := xs.entries.filter fun e => p e.1 e.2
  nodupKeys := xs.nodupKeys.sublist List.filter_sublist

theorem mem_keep {p : (a : α) → β a → Bool} :
    a ∈ keep xs p ↔ ∃ b, xs.lookup a = some b ∧ p a b = true := by
  rw [AList.mem_keys]
  constructor
  · intro h
    rcases List.mem_map.1 h with ⟨e, he, rfl⟩
    rcases List.mem_filter.1 he with ⟨hold, hp⟩
    exact ⟨e.2, AList.mem_lookup_iff.2 hold, hp⟩
  · rintro ⟨b, hb, hp⟩
    exact List.mem_map.2 ⟨⟨a, b⟩, List.mem_filter.2 ⟨AList.mem_lookup_iff.1 hb, hp⟩, rfl⟩

theorem length_keys_erase (h : a ∈ xs) : (xs.erase a).keys.length + 1 = xs.keys.length := by
  have hmem := AList.mem_keys.1 h
  have hpos := List.length_pos_of_mem hmem
  rw [AList.keys_erase, List.length_erase_of_mem hmem]
  omega

theorem length_keys_insert (a : α) (b : β a) (xs : AList β) :
    (xs.insert a b).keys.length = if a ∈ xs then xs.keys.length else xs.keys.length + 1 := by
  rw [AList.keys_insert, List.length_cons]
  split
  · rename_i h
    have herase := length_keys_erase h
    rwa [AList.keys_erase] at herase
  · rename_i h
    rw [List.erase_of_not_mem fun hmem => h (AList.mem_keys.2 hmem)]

end Count

/-! ## Entries and their names -/

structure EntryName where
  room : String
  key : String
  clientId : String
  deriving DecidableEq

/-- The separator of packed names. -/
def nul : Char :=
  Char.ofNat 0

def packed (name : EntryName) : String :=
  name.room ++ "\x00" ++ name.key ++ "\x00" ++ name.clientId

/-- The first three parts; what follows a third separator is dropped. -/
def unpack (value : String) : EntryName :=
  let parts := (value.toList.splitOn nul).map String.ofList
  ⟨parts.getD 0 "", parts.getD 1 "", parts.getD 2 ""⟩

/-- No name has a NUL. -/
structure EntryName.NulFree (name : EntryName) : Prop where
  room : nul ∉ name.room.toList
  key : nul ∉ name.key.toList
  clientId : nul ∉ name.clientId.toList

instance (name : EntryName) : Decidable name.NulFree :=
  decidable_of_iff (nul ∉ name.room.toList ∧ nul ∉ name.key.toList ∧ nul ∉ name.clientId.toList)
    ⟨fun h => ⟨h.1, h.2.1, h.2.2⟩, fun h => ⟨h.1, h.2, h.3⟩⟩

theorem toList_packed (name : EntryName) : (packed name).toList =
    name.room.toList ++ nul :: (name.key.toList ++ nul :: name.clientId.toList) := by
  have hsep : ("\x00" : String).toList = [nul] := rfl
  simp [packed, String.toList_append, hsep]

namespace EntryName

/-- Two separators are those between the names. -/
theorem nulFree_iff_count {name : EntryName} :
    name.NulFree ↔ (packed name).toList.count nul = 2 := by
  rw [toList_packed]
  simp only [List.count_append, List.count_cons_self]
  constructor
  · intro h
    rw [List.count_eq_zero_of_not_mem h.room, List.count_eq_zero_of_not_mem h.key,
      List.count_eq_zero_of_not_mem h.clientId]
  · intro h
    exact ⟨List.count_eq_zero.1 (by omega), List.count_eq_zero.1 (by omega),
      List.count_eq_zero.1 (by omega)⟩

theorem NulFree.unpack_packed {name : EntryName} (h : name.NulFree) :
    unpack (packed name) = name := by
  rw [unpack, toList_packed, List.splitOn_append_cons_self_of_not_mem h.room,
    List.splitOn_append_cons_self_of_not_mem h.key, List.splitOn_eq_singleton h.clientId]
  simp

theorem NulFree.packed_inj {name name' : EntryName} (h : name.NulFree)
    (heq : packed name = packed name') : name = name' := by
  have h' : name'.NulFree := nulFree_iff_count.2 (heq ▸ nulFree_iff_count.1 h)
  rw [← h.unpack_packed, heq, h'.unpack_packed]

end EntryName

/-- An entry's state with the time of its last write and its lifetime. -/
structure TimedState extends EphemeralState where
  updatedAt : Int
  ttlMs : Option Int

namespace TimedState

/-- A lifetime of zero is none. -/
def ttl (state : TimedState) : Option Int :=
  state.ttlMs.filter (· ≠ 0)

def isLive (state : TimedState) (now : Int) : Bool :=
  match state.ttl with
  | none => true
  | some ttl => now - state.updatedAt ≤ ttl

def deadline (state : TimedState) : Option Int :=
  state.ttl.map (state.updatedAt + ·)

theorem isLive_iff {state : TimedState} {now : Int} :
    state.isLive now = true ↔ ∀ d ∈ state.deadline, now ≤ d := by
  unfold isLive deadline
  cases state.ttl with
  | none => simp
  | some ttl =>
      simp only [decide_eq_true_eq, Option.map_some, Option.mem_some_iff, forall_eq']
      omega

/-- What has expired stays so. -/
theorem isLive_mono {state : TimedState} {now later : Int} (h : now ≤ later)
    (hlive : state.isLive later = true) : state.isLive now = true := by
  rw [isLive_iff] at *
  exact fun d hd => Int.le_trans h (hlive d hd)

end TimedState

/-- What a `set` writes, at the time of the call. -/
def newState (name : EntryName) (userId : String) (data : Record Json) (ttlMs : Option Int)
    (now : Int) : TimedState :=
  ⟨⟨name.clientId, userId, name.key, data⟩, now, ttlMs⟩

/-- `out[key] = value` on a plain object: under this name it sets the prototype. -/
def assigned {α : Type} (key : String) (value : Option α) : Option α :=
  if key = "__proto__" then none else value

/-! ## The store -/

/-- The entries are those of nested maps, of which none is empty; a client without an index has no
packed names. -/
structure EphemeralManager where
  store : AList fun _ : EntryName => TimedState
  clientIndex : String → List String
  entryCount : Int
  maxEntries : Int

namespace EphemeralManager

variable (m : EphemeralManager)

def empty (maxEntries : Int) : EphemeralManager :=
  ⟨∅, fun _ => [], 0, maxEntries⟩

/-- Refused where a new entry would be one too many. -/
def full (name : EntryName) : Bool :=
  (m.store.lookup name).isNone && m.maxEntries ≤ m.entryCount

def set (name : EntryName) (state : TimedState) : EphemeralManager × Bool :=
  if m.full name then (m, false)
  else if name ∈ m.store then ({ m with store := m.store.insert name state }, true)
  else
    ({ m with
      store := m.store.insert name state
      entryCount := m.entryCount + 1
      clientIndex := Function.update m.clientIndex name.clientId
        (addLast (m.clientIndex name.clientId) (packed name)) }, true)

def remove (name : EntryName) : EphemeralManager :=
  if name ∈ m.store then
    { m with
      store := m.store.erase name
      entryCount := m.entryCount - 1
      clientIndex := Function.update m.clientIndex name.clientId
        (without (m.clientIndex name.clientId) (packed name)) }
  else m

def dropIndex (clientId : String) : EphemeralManager :=
  { m with clientIndex := Function.update m.clientIndex clientId [] }

def removeClient (clientId : String) : EphemeralManager :=
  (((m.clientIndex clientId).map unpack).foldl remove m).dropIndex clientId

def cleanupExpired (now : Int) : EphemeralManager :=
  let toRemove := m.store.keys.filter fun name =>
    (m.store.lookup name).any fun state => !state.isLive now
  toRemove.foldl remove m

/-- A channel's entries by client, expired ones among them. -/
def get (room key clientId : String) : Option TimedState :=
  m.store.lookup ⟨room, key, clientId⟩

/-- A room's entries by channel key and client. -/
def getRoom (room key clientId : String) : Option TimedState :=
  assigned key (m.get room key clientId)

end EphemeralManager

/-! ## The counter and the index -/

/-- The counter counts the entries, and the index lists them under their clients. -/
structure ManagerInv (m : EphemeralManager) : Prop where
  nulFree : ∀ name ∈ m.store, name.NulFree
  count : m.entryCount = m.store.keys.length
  index : ∀ c value, value ∈ m.clientIndex c ↔ ∃ name ∈ m.store, name.clientId = c ∧
    packed name = value

namespace EphemeralManager

variable {m : EphemeralManager} {name : EntryName}

theorem inv_empty (maxEntries : Int) : ManagerInv (empty maxEntries) where
  nulFree name h := absurd h (AList.notMem_empty name)
  count := rfl
  index _ _ :=
    ⟨fun h => absurd h List.not_mem_nil, fun ⟨name, h, _⟩ => absurd h (AList.notMem_empty name)⟩

theorem lookup_set (name other : EntryName) (state : TimedState) (hfull : m.full name = false) :
    (m.set name state).1.store.lookup other =
      if other = name then some state else m.store.lookup other := by
  have hstore : (m.set name state).1.store = m.store.insert name state := by
    rw [set, if_neg (by simp [hfull])]
    split <;> rfl
  rw [hstore]
  split
  · rename_i heq
    rw [heq, AList.lookup_insert]
  · rename_i hne
    exact AList.lookup_insert_ne hne

theorem lookup_remove (name other : EntryName) :
    (m.remove name).store.lookup other =
      if other = name then none else m.store.lookup other := by
  unfold remove
  split
  · split
    · rename_i heq
      rw [heq, AList.lookup_erase]
    · rename_i hne
      exact AList.lookup_erase_ne hne
  · rename_i hmem
    split
    · rename_i heq
      rw [heq, AList.lookup_eq_none.2 hmem]
    · rfl

theorem mem_remove {other : EntryName} :
    other ∈ (m.remove name).store ↔ other ≠ name ∧ other ∈ m.store := by
  rw [← AList.lookup_isSome, lookup_remove]
  split
  · rename_i heq
    simp [heq]
  · rename_i hne
    rw [AList.lookup_isSome]
    exact ⟨fun h => ⟨hne, h⟩, fun h => h.2⟩

theorem inv_set (h : ManagerInv m) (hname : name.NulFree) (state : TimedState) :
    ManagerInv (m.set name state).1 := by
  unfold set
  split
  · exact h
  · split
    · rename_i hmem
      refine ⟨fun other hother => ?_, ?_, fun c value => ?_⟩
      · exact ((AList.mem_insert m.store).1 hother).elim (fun heq => heq ▸ hname) (h.nulFree other)
      · rw [h.count, length_keys_insert, if_pos hmem]
      · rw [h.index]
        refine exists_congr fun other => and_congr_left fun _ => ?_
        rw [AList.mem_insert]
        exact ⟨Or.inr, fun hor => hor.elim (fun heq => heq ▸ hmem) id⟩
    · rename_i hnew
      refine ⟨fun other hother => ?_, ?_, fun c value => ?_⟩
      · exact ((AList.mem_insert m.store).1 hother).elim (fun heq => heq ▸ hname) (h.nulFree other)
      · rw [h.count, length_keys_insert, if_neg hnew]
        rfl
      · dsimp only
        constructor
        · intro hvalue
          by_cases hc : c = name.clientId
          · subst hc
            rw [Function.update_self, mem_addLast, h.index] at hvalue
            rcases hvalue with ⟨other, hother, hrest⟩ | rfl
            · exact ⟨other, (AList.mem_insert m.store).2 (Or.inr hother), hrest⟩
            · exact ⟨name, (AList.mem_insert m.store).2 (Or.inl rfl), rfl, rfl⟩
          · rw [Function.update_of_ne hc, h.index] at hvalue
            rcases hvalue with ⟨other, hother, hrest⟩
            exact ⟨other, (AList.mem_insert m.store).2 (Or.inr hother), hrest⟩
        · rintro ⟨other, hother, rfl, rfl⟩
          rcases (AList.mem_insert m.store).1 hother with rfl | hold
          · rw [Function.update_self, mem_addLast]
            exact Or.inr rfl
          · have hindexed := (h.index other.clientId (packed other)).2 ⟨other, hold, rfl, rfl⟩
            by_cases hc : other.clientId = name.clientId
            · rw [← hc, Function.update_self, mem_addLast]
              exact Or.inl hindexed
            · rwa [Function.update_of_ne hc]

theorem inv_remove (h : ManagerInv m) (name : EntryName) : ManagerInv (m.remove name) := by
  by_cases hmem : name ∈ m.store
  · refine ⟨fun other hother => h.nulFree other (mem_remove.1 hother).2, ?_, fun c value => ?_⟩
    · have hlen := length_keys_erase hmem
      rw [remove, if_pos hmem, h.count]
      dsimp only
      omega
    · have hindex : (m.remove name).clientIndex = Function.update m.clientIndex name.clientId
          (without (m.clientIndex name.clientId) (packed name)) := by
        rw [remove, if_pos hmem]
      rw [hindex]
      constructor
      · intro hvalue
        by_cases hc : c = name.clientId
        · subst hc
          rw [Function.update_self, mem_without, h.index] at hvalue
          rcases hvalue with ⟨⟨other, hother, hc, rfl⟩, hne⟩
          exact ⟨other, mem_remove.2 ⟨fun heq => hne (heq ▸ rfl), hother⟩, hc, rfl⟩
        · rw [Function.update_of_ne hc, h.index] at hvalue
          rcases hvalue with ⟨other, hother, rfl, rfl⟩
          exact ⟨other, mem_remove.2 ⟨fun heq => hc (heq ▸ rfl), hother⟩, rfl, rfl⟩
      · rintro ⟨other, hother, rfl, rfl⟩
        rcases mem_remove.1 hother with ⟨hne, hold⟩
        have hindexed := (h.index other.clientId (packed other)).2 ⟨other, hold, rfl, rfl⟩
        by_cases hc : other.clientId = name.clientId
        · rw [← hc, Function.update_self, mem_without]
          exact ⟨hindexed, fun heq => hne ((h.nulFree other hold).packed_inj heq)⟩
        · rwa [Function.update_of_ne hc]
  · rwa [remove, if_neg hmem]

/-- Removing a list of entries, one after the other. -/
theorem foldl_remove (h : ManagerInv m) (names : List EntryName) :
    ManagerInv (names.foldl remove m) ∧
      ∀ other, (names.foldl remove m).store.lookup other =
        if other ∈ names then none else m.store.lookup other := by
  induction names generalizing m with
  | nil => exact ⟨h, fun other => by simp⟩
  | cons name names ih =>
      rcases ih (inv_remove h name) with ⟨hinv, hlookup⟩
      refine ⟨hinv, fun other => ?_⟩
      rw [List.foldl_cons, hlookup, lookup_remove]
      by_cases heq : other = name
      · simp [heq]
      · simp [heq]

/-- A client's entries go, and no others. -/
theorem removeClient_spec (h : ManagerInv m) (c : String) :
    ManagerInv (m.removeClient c) ∧
      ∀ other, (m.removeClient c).store.lookup other =
        if other.clientId = c then none else m.store.lookup other := by
  rcases foldl_remove h ((m.clientIndex c).map unpack) with ⟨hinv, hlookup⟩
  have hmem : ∀ other ∈ m.store, other ∈ (m.clientIndex c).map unpack ↔ other.clientId = c := by
    intro other hother
    rw [List.mem_map]
    constructor
    · rintro ⟨value, hvalue, rfl⟩
      rcases (h.index c value).1 hvalue with ⟨name, hname, hc, rfl⟩
      rwa [(h.nulFree name hname).unpack_packed]
    · intro hc
      exact ⟨packed other, (h.index c _).2 ⟨other, hother, hc, rfl⟩,
        (h.nulFree other hother).unpack_packed⟩
  have hstore : ∀ other, (m.removeClient c).store.lookup other =
      if other.clientId = c then none else m.store.lookup other := by
    intro other
    rw [removeClient, dropIndex, hlookup]
    by_cases hother : other ∈ m.store
    · simp only [hmem other hother]
    · simp [AList.lookup_eq_none.2 hother]
  refine ⟨?_, hstore⟩
  rw [removeClient] at hstore ⊢
  refine ⟨hinv.nulFree, hinv.count, fun c' value => ?_⟩
  rw [dropIndex]
  dsimp only
  by_cases hc : c' = c
  · subst hc
    rw [Function.update_self]
    refine ⟨fun hvalue => absurd hvalue List.not_mem_nil, ?_⟩
    rintro ⟨name, hname, hc, -⟩
    have hnone := (hstore name).trans (if_pos hc)
    exact absurd hname (AList.lookup_eq_none.1 hnone)
  · rw [Function.update_of_ne hc]
    exact hinv.index c' value

/-- Expired entries go, and no others. -/
theorem cleanupExpired_spec (h : ManagerInv m) (now : Int) :
    ManagerInv (m.cleanupExpired now) ∧
      ∀ other, (m.cleanupExpired now).store.lookup other =
        (m.store.lookup other).filter (·.isLive now) := by
  rcases foldl_remove h (m.store.keys.filter fun name =>
    (m.store.lookup name).any fun state => !state.isLive now) with ⟨hinv, hlookup⟩
  refine ⟨hinv, fun other => ?_⟩
  rw [cleanupExpired, hlookup]
  cases hother : m.store.lookup other with
  | none => simp
  | some state =>
      have hmem : other ∈ m.store.keys := AList.lookup_isSome.1 (by rw [hother]; rfl)
      cases hlive : state.isLive now <;> simp [hmem, hother, hlive, Option.filter]

end EphemeralManager

end Server
end Reflectdb
