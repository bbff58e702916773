import Reflectdb.Server.RedisEphemeral

/-!
# Shared presence — the store in Redis beside the store of one process

Both get the same calls at the same times.  The one in memory answers at once; a removal of many
entries in Redis goes on, command by command, while others are called.
-/

namespace Reflectdb
namespace Server

open Core Lib

/-! ## The machine -/

structure TwoStores where
  now : Int
  memory : EphemeralManager
  redis : RedisEphemeral
  removals : List Removal

inductive StoreEvent
  | set (name : EntryName) (userId : String) (data : Record Json) (ttlMs : Option Int)
  | remove (name : EntryName)
  | removeClient (clientId : String)
  | cleanupExpired
  /-- The next command of a removal is run. -/
  | run (removal : Nat)
  | tick (ms : Nat)

namespace TwoStores

variable (config : RedisConfig) (s : TwoStores)

def start : TwoStores :=
  ⟨0, .empty config.maxEntries, .empty, []⟩

def set (name : EntryName) (state : TimedState) : TwoStores :=
  { s with
    memory := (s.memory.set name state).1
    redis := (s.redis.set config name state s.now).1 }

def run (i : Nat) (removal : Removal) : TwoStores :=
  let ran := s.redis.runRemoval config removal
  { s with redis := ran.1, removals := s.removals.set i ran.2 }

def tick (ms : Nat) : TwoStores :=
  { s with now := s.now + ms, redis := s.redis.expire (s.now + ms) }

def step : StoreEvent → Option TwoStores
  | .set name userId data ttlMs => some (s.set config name (newState name userId data ttlMs s.now))
  | .remove name =>
    some { s with memory := s.memory.remove name, redis := s.redis.removeEntry config name }
  | .removeClient c =>
    some { s with
      memory := s.memory.removeClient c
      removals := s.removals ++ [s.redis.removeClient config c] }
  | .cleanupExpired =>
    some { s with
      memory := s.memory.cleanupExpired s.now
      removals := s.removals ++ [s.redis.cleanupExpired s.now] }
  | .run i => s.removals[i]?.map (s.run config i)
  | .tick ms => some (s.tick ms)

/-- A removal in progress has still to remove the entry. -/
def Pending (name : EntryName) : Prop :=
  ∃ removal ∈ s.removals, name ∈ removal.pending

instance (name : EntryName) : Decidable (s.Pending name) :=
  inferInstanceAs (Decidable (∃ _ ∈ _, _))

end TwoStores

def storesMachine (config : RedisConfig) : Machine TwoStores StoreEvent :=
  ⟨.start config, TwoStores.step config⟩

/-! ## What is expected -/

/-- Both counters are exact; the hash of a stored entry is that of no other room; and an entry that
no removal is about to remove is returned by both stores or by neither, if it has not expired. -/
structure SameEntries (config : RedisConfig) (s : TwoStores) : Prop where
  memoryCount : s.memory.entryCount = s.memory.store.keys.length
  redisCount : s.redis.n = s.redis.hashes.keys.length
  ownHash : ∀ name ∈ s.memory.store, ∀ room key,
    config.stateKey name.room name.key = config.stateKey room key → room = name.room
  get : ∀ room key c, ¬ s.Pending ⟨room, key, c⟩ →
    (s.memory.get room key c).filter (·.isLive s.now) = s.redis.get config s.now room key c
  getRoom : ∀ room key c, ¬ s.Pending ⟨room, key, c⟩ →
    (s.memory.getRoom room key c).filter (·.isLive s.now) = s.redis.getRoom config s.now room key c

/-! ## The condition -/

/-- The separators are in none of the names, and the client's is that of a plain property. -/
structure EntryName.Clean (name : EntryName) : Prop where
  nulFree : name.NulFree
  plain : name.Plain
  property : name.clientId ≠ "__proto__"

instance (name : EntryName) : Decidable name.Clean :=
  decidable_of_iff (name.NulFree ∧ name.Plain ∧ name.clientId ≠ "__proto__")
    ⟨fun h => ⟨h.1, h.2.1, h.2.2⟩, fun h => ⟨h.1, h.2, h.3⟩⟩

/-- Names are clean; both stores have room for an entry or neither has; no entry is set while a
removal of it or of its client goes on; no sweep comes at the very time of a deadline; and no key in
Redis gets as old as the safety net. -/
def KeptAlike (config : RedisConfig) (s : TwoStores) : StoreEvent → Prop
  | .set name _ _ _ => name.Clean ∧ s.memory.full name = s.redis.full config name ∧
    ∀ removal ∈ s.removals, name ∉ removal.pending ∧ removal.clientId ≠ some name.clientId
  | .cleanupExpired => ∀ name ∈ s.memory.store.keys,
    (s.memory.store.lookup name).bind (·.deadline) ≠ some s.now
  | .tick ms => s.redis.KeysStay (s.now + ms)
  | _ => True

/-! ## The invariant -/

/-- Redis has what the process has, and besides only what has expired or is about to be removed. -/
structure StoresInv (config : RedisConfig) (s : TwoStores) : Prop where
  memory : ManagerInv s.memory
  redis : RedisInv config EntryName.Clean s.redis
  held : ∀ name state, s.memory.store.lookup name = some state →
    name.Clean ∧ s.redis.hashes.lookup (config.field name) = some state
  extra : ∀ name, name.Clean → ∀ state, s.redis.hashes.lookup (config.field name) = some state →
    s.memory.store.lookup name = some state ∨ s.Pending name ∨ state.isLive s.now = false
  gone : ∀ name, s.Pending name → name ∉ s.memory.store
  listed : ∀ name, name.Clean → config.field name ∈ s.redis.hashes →
    name.key ∈ s.redis.sets (config.roomKeysKey name.room)
  deadlines : ∀ value d, s.redis.exp.lookup value = some d → ∃ name, name.Clean ∧
    packed name = value ∧ ∃ state, s.redis.hashes.lookup (config.field name) = some state ∧
      state.deadline = some d
  covers : ∀ removal ∈ s.removals, ∀ c, removal.clientId = some c →
    removal.Covers config s.redis c

namespace StoresInv

variable {config : RedisConfig} {s : TwoStores}

theorem sameEntries (h : StoresInv config s) : SameEntries config s := by
  have hget : ∀ room key c, ¬ s.Pending ⟨room, key, c⟩ →
      (s.memory.get room key c).filter (·.isLive s.now) =
        s.redis.get config s.now room key c := by
    intro room key c hpending
    rw [EphemeralManager.get, RedisEphemeral.get, assigned]
    cases hmem : s.memory.store.lookup ⟨room, key, c⟩ with
    | some state =>
        rcases h.held _ _ hmem with ⟨hclean, hred⟩
        rw [if_neg hclean.property]
        exact congrArg (Option.filter _) hred.symm
    | none =>
        have hnone : (s.redis.hashes.lookup (config.stateKey room key, c)).filter
            (·.isLive s.now) = none := by
          cases hred : s.redis.hashes.lookup (config.stateKey room key, c) with
          | none => rfl
          | some state =>
              rcases h.redis.named _ (AList.lookup_isSome.1 (by rw [hred]; rfl)) with
                ⟨name, hclean, hfield, -⟩
              have heq : name = ⟨room, key, c⟩ := hclean.plain.field_inj hfield
              subst heq
              rcases h.extra _ hclean state hred with hsome | hpend | hdead
              · rw [hmem] at hsome
                cases hsome
              · exact absurd hpend hpending
              · rw [Option.filter, if_neg (by simp [hdead])]
        rw [hnone]
        split <;> rfl
  refine ⟨h.memory.count, h.redis.count, fun name hname room key heq => ?_, hget,
    fun room key c hpending => ?_⟩
  · rcases Option.isSome_iff_exists.1 (AList.lookup_isSome.2 hname) with ⟨state, hstate⟩
    exact ((h.held _ _ hstate).1.plain.stateKey_inj heq).1.symm
  · rw [RedisEphemeral.getRoom, ← hget room key c hpending, EphemeralManager.getRoom]
    cases hmem : s.memory.get room key c with
    | none =>
        have hnone : assigned key (none : Option TimedState) = none := by
          rw [assigned]
          split <;> rfl
        rw [hnone, Option.filter_none, hnone]
        split <;> rfl
    | some state =>
        rcases h.held _ _ hmem with ⟨hclean, hred⟩
        have hlisted := h.listed _ hclean (AList.lookup_isSome.1 (by rw [hred]; rfl))
        rw [if_pos hlisted]
        simp only [assigned]
        split <;> rfl

theorem start (config : RedisConfig) : StoresInv config (.start config) where
  memory := EphemeralManager.inv_empty _
  redis := RedisEphemeral.inv_empty
  held _ _ h := absurd h (by simp [TwoStores.start, EphemeralManager.empty])
  extra _ _ _ h := absurd h (by simp [TwoStores.start, RedisEphemeral.empty])
  gone := fun _ ⟨_, h, _⟩ => absurd h List.not_mem_nil
  listed _ _ h := absurd h (AList.notMem_empty _)
  deadlines _ _ h := absurd h (by simp [TwoStores.start, RedisEphemeral.empty])
  covers _ h := absurd h List.not_mem_nil

/-! ### Set -/

theorem set (h : StoresInv config s) {name : EntryName} (hclean : name.Clean) (state : TimedState)
    (hfull : s.memory.full name = s.redis.full config name)
    (hfree : ∀ removal ∈ s.removals,
      name ∉ removal.pending ∧ removal.clientId ≠ some name.clientId) :
    StoresInv config (s.set config name state) := by
  cases hred : s.redis.full config name with
  | true =>
      -- Both refuse.
      have hmem := hfull.trans hred
      have heq : s.set config name state = s := by
        rw [TwoStores.set, RedisEphemeral.set_of_full hred, EphemeralManager.set, if_pos hmem]
      rwa [heq]
  | false =>
      have hmem := hfull.trans hred
      have hlookup : ∀ other, other.Clean →
          (s.set config name state).redis.hashes.lookup (config.field other) =
            if other = name then some state
            else s.redis.hashes.lookup (config.field other) := by
        intro other hother
        rw [TwoStores.set, RedisEphemeral.set_hashes hred]
        split
        · rename_i heq
          rw [heq, AList.lookup_insert]
        · rename_i hne
          exact AList.lookup_insert_ne fun heq => hne (hother.plain.field_inj heq)
      refine ⟨EphemeralManager.inv_set h.memory hclean.nulFree state,
        RedisEphemeral.inv_set h.redis hclean, fun other st hst => ?_,
        fun other hother st hst => ?_, fun other hpending hother => ?_,
        fun other hother hfield => ?_, fun value d hd => ?_, fun removal hremoval c hc => ?_⟩
      · rw [TwoStores.set, EphemeralManager.lookup_set name other state hmem] at hst
        by_cases heq : other = name
        · rw [if_pos heq] at hst
          exact ⟨heq ▸ hclean, by rw [hlookup other (heq ▸ hclean), if_pos heq, hst]⟩
        · rw [if_neg heq] at hst
          rcases h.held other st hst with ⟨hother, hfield⟩
          exact ⟨hother, by rw [hlookup other hother, if_neg heq, hfield]⟩
      · rw [hlookup other hother] at hst
        rw [TwoStores.set, EphemeralManager.lookup_set name other state hmem]
        by_cases heq : other = name
        · rw [if_pos heq] at hst ⊢
          exact Or.inl hst
        · rw [if_neg heq] at hst ⊢
          exact h.extra other hother st hst
      · have hother := AList.lookup_isSome.2 hother
        rw [TwoStores.set, EphemeralManager.lookup_set name other state hmem] at hother
        rcases hpending with ⟨removal, hremoval, hpend⟩
        by_cases heq : other = name
        · exact (hfree removal hremoval).1 (heq ▸ hpend)
        · rw [if_neg heq] at hother
          exact h.gone other ⟨removal, hremoval, hpend⟩ (AList.lookup_isSome.1 hother)
      · rw [TwoStores.set, RedisEphemeral.set_hashes hred] at hfield
        refine (RedisEphemeral.mem_roomSet_set hred).2 ?_
        rcases (AList.mem_insert _).1 hfield with heq | hold
        · have := hother.plain.field_inj heq
          exact Or.inr ⟨congrArg EntryName.room this, congrArg EntryName.key this⟩
        · exact Or.inl (h.listed other hother hold)
      · have hold : s.redis.exp.lookup value = some d → value ≠ packed name →
            ∃ other, other.Clean ∧ packed other = value ∧ ∃ st,
              (s.set config name state).redis.hashes.lookup (config.field other) = some st ∧
                st.deadline = some d := by
          intro hvalue hne
          rcases h.deadlines value d hvalue with ⟨other, hother, rfl, st, hst, hdl⟩
          refine ⟨other, hother, rfl, st, ?_, hdl⟩
          rw [hlookup other hother, if_neg fun heq => hne (by rw [heq])]
          exact hst
        rw [TwoStores.set, RedisEphemeral.set_exp hred] at hd
        cases hdl : state.deadline with
        | none =>
            rw [hdl] at hd
            by_cases hvalue : value = packed name
            · subst hvalue
              rw [AList.lookup_erase] at hd
              cases hd
            · exact hold ((AList.lookup_erase_ne hvalue).symm.trans hd) hvalue
        | some deadline =>
            rw [hdl] at hd
            by_cases hvalue : value = packed name
            · subst hvalue
              rw [AList.lookup_insert] at hd
              cases hd
              exact ⟨name, hclean, rfl, state, by rw [hlookup name hclean, if_pos rfl], hdl⟩
            · exact hold ((AList.lookup_insert_ne hvalue).symm.trans hd) hvalue
      · intro k hk hkc
        rw [TwoStores.set, RedisEphemeral.set_hashes hred] at hk
        rcases (AList.mem_insert _).1 hk with rfl | hold
        · exact absurd (hc.trans (congrArg some hkc.symm)) (hfree removal hremoval).2
        · exact h.covers removal hremoval c hc k hold hkc

/-! ### Removal of one entry -/

/-- What a script leaves of the parts that only Redis has. -/
theorem removeEntry_redis (h : StoresInv config s) (name : EntryName) :
    (∀ other, other.Clean → config.field other ∈ (s.redis.removeEntry config name).hashes →
      other.key ∈ (s.redis.removeEntry config name).sets (config.roomKeysKey other.room)) ∧
    ∀ value d, (s.redis.removeEntry config name).exp.lookup value = some d → ∃ other,
      other.Clean ∧ packed other = value ∧ ∃ state,
        (s.redis.removeEntry config name).hashes.lookup (config.field other) = some state ∧
          state.deadline = some d := by
  refine ⟨fun other hother hfield => ?_, fun value d hd => ?_⟩
  · refine RedisEphemeral.mem_roomSet_removeEntry (h.listed other hother ?_) hfield
    rw [RedisEphemeral.removeEntry_hashes] at hfield
    exact (AList.mem_erase.1 hfield).2
  · by_cases hname : config.field name ∈ s.redis.hashes
    · rw [RedisEphemeral.removeEntry_exp hname] at hd
      by_cases hvalue : value = packed name
      · subst hvalue
        rw [AList.lookup_erase] at hd
        cases hd
      · rw [AList.lookup_erase_ne hvalue] at hd
        rcases h.deadlines value d hd with ⟨other, hother, rfl, state, hstate, hdl⟩
        refine ⟨other, hother, rfl, state, ?_, hdl⟩
        rw [RedisEphemeral.removeEntry_hashes, AList.lookup_erase_ne]
        · exact hstate
        · exact fun heq => hvalue (by rw [hother.plain.field_inj heq])
    · rw [RedisEphemeral.removeEntry_of_notMem hname] at hd ⊢
      exact h.deadlines value d hd

theorem lookup_removeEntry {name other : EntryName} (hother : other.Clean) :
    (s.redis.removeEntry config name).hashes.lookup (config.field other) =
      if other = name then none else s.redis.hashes.lookup (config.field other) := by
  rw [RedisEphemeral.removeEntry_hashes]
  split
  · rename_i heq
    rw [heq, AList.lookup_erase]
  · rename_i hne
    exact AList.lookup_erase_ne fun heq => hne (hother.plain.field_inj heq)

theorem remove (h : StoresInv config s) (name : EntryName) :
    StoresInv config
      { s with memory := s.memory.remove name, redis := s.redis.removeEntry config name } := by
  rcases h.removeEntry_redis name with ⟨hlisted, hdeadlines⟩
  refine ⟨EphemeralManager.inv_remove h.memory name,
    RedisEphemeral.inv_removeEntry (fun _ hn => hn.nulFree) h.redis name, fun other st hst => ?_,
    fun other hother st hst => ?_, fun other hpending hother => ?_, hlisted, hdeadlines,
    fun removal hremoval c hc k hk => ?_⟩
  · rw [EphemeralManager.lookup_remove] at hst
    split at hst
    · cases hst
    · rename_i hne
      rcases h.held other st hst with ⟨hother, hfield⟩
      exact ⟨hother, by rw [lookup_removeEntry hother, if_neg hne, hfield]⟩
  · rw [lookup_removeEntry hother] at hst
    rw [EphemeralManager.lookup_remove]
    split at hst
    · cases hst
    · rename_i hne
      rw [if_neg hne]
      exact h.extra other hother st hst
  · exact h.gone other hpending (EphemeralManager.mem_remove.1 hother).2
  · rw [RedisEphemeral.removeEntry_hashes, AList.mem_erase] at hk
    exact h.covers removal hremoval c hc k hk.2

/-! ### Removal of many -/

theorem pending_concat {removal : Removal} {name : EntryName} {memory : EphemeralManager} :
    TwoStores.Pending { s with memory := memory, removals := s.removals ++ [removal] } name ↔
      s.Pending name ∨ name ∈ removal.pending := by
  constructor
  · rintro ⟨other, hother, hname⟩
    rcases List.mem_append.1 hother with hold | hnew
    · exact Or.inl ⟨other, hold, hname⟩
    · rw [List.mem_singleton.1 hnew] at hname
      exact Or.inr hname
  · rintro (⟨other, hother, hname⟩ | hname)
    · exact ⟨other, List.mem_append_left _ hother, hname⟩
    · exact ⟨removal, List.mem_append_right _ (List.mem_singleton_self _), hname⟩

theorem removeClient (h : StoresInv config s) (c : String) :
    StoresInv config { s with
      memory := s.memory.removeClient c
      removals := s.removals ++ [s.redis.removeClient config c] } := by
  rcases EphemeralManager.removeClient_spec h.memory c with ⟨hmemory, hlookup⟩
  have hpending : ∀ name ∈ (s.redis.removeClient config c).pending, name.clientId = c := by
    intro name hname
    rcases List.mem_map.1 hname with ⟨value, hvalue, rfl⟩
    rcases h.redis.members c value hvalue with ⟨other, hother, hc, rfl⟩
    rwa [hother.nulFree.unpack_packed]
  refine ⟨hmemory, h.redis, fun name st hst => ?_, fun name hname st hst => ?_,
    fun name hpend hname => ?_, h.listed, h.deadlines, fun removal hremoval c' hc' => ?_⟩
  · rw [hlookup] at hst
    split at hst
    · cases hst
    · exact h.held name st hst
  · rw [pending_concat]
    dsimp only
    rw [hlookup]
    by_cases hc : name.clientId = c
    · -- Its client's set lists it.
      rcases RedisEphemeral.covers_removeClient (fun _ hn => hn.nulFree)
        h.redis.toRedisIndex c
        (config.field name) (AList.lookup_isSome.1 (by rw [hst]; rfl)) hc with
        ⟨other, hother, hfield⟩
      rw [← hname.plain.field_inj hfield.symm] at hother
      exact Or.inr (Or.inl (Or.inr hother))
    · rw [if_neg hc]
      exact (h.extra name hname st hst).imp_right fun hor => hor.imp_left Or.inl
  · have hsome := AList.lookup_isSome.2 hname
    dsimp only at hsome
    rw [hlookup] at hsome
    split at hsome
    · cases hsome
    · rename_i hne
      rcases pending_concat.1 hpend with hold | hnew
      · exact h.gone name hold (AList.lookup_isSome.1 hsome)
      · exact hne (hpending name hnew)
  · rcases List.mem_append.1 hremoval with hold | hnew
    · exact h.covers removal hold c' hc'
    · rw [List.mem_singleton.1 hnew] at hc' ⊢
      cases hc'
      exact RedisEphemeral.covers_removeClient (fun _ hn => hn.nulFree)
        h.redis.toRedisIndex c

/-- What a sweep finds is stored with a deadline that has come. -/
theorem due_stored (h : StoresInv config s) {now : Int} {name : EntryName}
    (hname : name ∈ (s.redis.cleanupExpired now).pending) : name.Clean ∧ ∃ state,
      s.redis.hashes.lookup (config.field name) = some state ∧ ∃ d ≤ now,
        state.deadline = some d := by
  rcases List.mem_map.1 hname with ⟨value, hvalue, rfl⟩
  rcases List.mem_map.1 hvalue with ⟨e, he, rfl⟩
  have hdue := List.mem_filter.1 (List.mem_mergeSort.1 (List.mem_of_mem_take he))
  have hlookup : s.redis.exp.lookup e.1 = some e.2 := AList.mem_lookup_iff.2 hdue.1
  rcases h.deadlines e.1 e.2 hlookup with ⟨other, hother, heq, state, hstate, hd⟩
  rw [← heq, hother.nulFree.unpack_packed]
  exact ⟨hother, state, hstate, e.2, of_decide_eq_true hdue.2, hd⟩

theorem cleanupExpired (h : StoresInv config s)
    (hexact : ∀ name ∈ s.memory.store.keys,
      (s.memory.store.lookup name).bind (·.deadline) ≠ some s.now) :
    StoresInv config { s with
      memory := s.memory.cleanupExpired s.now
      removals := s.removals ++ [s.redis.cleanupExpired s.now] } := by
  rcases EphemeralManager.cleanupExpired_spec h.memory s.now with ⟨hmemory, hlookup⟩
  refine ⟨hmemory, h.redis, fun name st hst => ?_, fun name hname st hst => ?_,
    fun name hpend hname => ?_, h.listed, h.deadlines, fun removal hremoval c' hc' => ?_⟩
  · rw [hlookup, Option.filter_eq_some_iff] at hst
    exact h.held name st hst.1
  · rw [pending_concat]
    dsimp only
    rw [hlookup]
    rcases h.extra name hname st hst with hmem | hpend | hdead
    · cases hlive : st.isLive s.now with
      | true =>
          rw [hmem, Option.filter, if_pos hlive]
          exact Or.inl rfl
      | false => exact Or.inr (Or.inr rfl)
    · exact Or.inr (Or.inl (Or.inl hpend))
    · exact Or.inr (Or.inr hdead)
  · rcases Option.isSome_iff_exists.1 (AList.lookup_isSome.2 hname) with ⟨st, hst⟩
    dsimp only at hst
    rw [hlookup, Option.filter_eq_some_iff] at hst
    rcases pending_concat.1 hpend with hold | hnew
    · exact h.gone name hold (AList.lookup_isSome.1 (by rw [hst.1]; rfl))
    · -- It is live, so that its deadline is the time of the sweep.
      rcases h.due_stored hnew with ⟨-, st', hst', d, hd, hdl⟩
      have heq : st = st' := Option.some.inj ((h.held name st hst.1).2.symm.trans hst')
      subst heq
      have hle := TimedState.isLive_iff.1 hst.2 d hdl
      have hnow : d = s.now := Int.le_antisymm hd hle
      refine hexact name (AList.lookup_isSome.1 (Option.isSome_of_eq_some hst.1)) ?_
      rw [hst.1, Option.bind_some, hdl, hnow]
  · rcases List.mem_append.1 hremoval with hold | hnew
    · exact h.covers removal hold c' hc'
    · rw [List.mem_singleton.1 hnew] at hc'
      cases hc'

/-! ### Commands and time -/

/-- The list of removals with one of them further on. -/
theorem pending_set {i : Nat} {removal : Removal} (hi : s.removals[i]? = some removal)
    (next : Removal) (redis : RedisEphemeral) {name : EntryName} :
    (TwoStores.Pending { s with redis := redis, removals := s.removals.set i next } name →
      s.Pending name ∨ name ∈ next.pending) ∧
    (s.Pending name → name ∈ removal.pending ∨
      TwoStores.Pending { s with redis := redis, removals := s.removals.set i next } name) := by
  constructor
  · rintro ⟨other, hother, hname⟩
    rcases List.mem_or_eq_of_mem_set hother with hold | rfl
    · exact Or.inl ⟨other, hold, hname⟩
    · exact Or.inr hname
  · rintro ⟨other, hother, hname⟩
    rcases List.mem_iff_getElem?.1 hother with ⟨j, hj⟩
    by_cases hij : i = j
    · subst hij
      rw [hi] at hj
      cases hj
      exact Or.inl hname
    · refine Or.inr ⟨other, List.mem_iff_getElem?.2 ⟨j, ?_⟩, hname⟩
      rwa [List.getElem?_set_ne hij]

theorem run (h : StoresInv config s) {i : Nat} {removal : Removal}
    (hi : s.removals[i]? = some removal) : StoresInv config (s.run config i removal) := by
  have hmem : removal ∈ s.removals := List.mem_iff_getElem?.2 ⟨i, hi⟩
  obtain ⟨pending, client⟩ := removal
  cases pending with
  | cons name rest =>
      rcases h.removeEntry_redis name with ⟨hlisted, hdeadlines⟩
      have hpend : ∀ other, TwoStores.Pending (s.run config i ⟨name :: rest, client⟩) other →
          s.Pending other := fun other hother =>
        ((pending_set hi _ _).1 hother).elim id fun hrest =>
          ⟨_, hmem, List.mem_cons_of_mem _ hrest⟩
      refine ⟨h.memory, RedisEphemeral.inv_removeEntry (fun _ hn => hn.nulFree) h.redis name,
        fun other st hst => ?_, fun other hother st hst => ?_,
        fun other hother => h.gone other (hpend other hother), hlisted, hdeadlines,
        fun removal' hremoval c hc => ?_⟩
      · rcases h.held other st hst with ⟨hother, hfield⟩
        have hstored :
            other ∈ s.memory.store := AList.lookup_isSome.1 (Option.isSome_of_eq_some hst)
        have hne : other ≠ name := fun heq =>
          h.gone other ⟨_, hmem, heq ▸ List.mem_cons_self ..⟩ hstored
        exact ⟨hother, (lookup_removeEntry hother).trans ((if_neg hne).trans hfield)⟩
      · have hlookup := (lookup_removeEntry hother).symm.trans hst
        split at hlookup
        · cases hlookup
        · rename_i hne
          refine (h.extra other hother st hlookup).imp_right fun hor => hor.imp_left fun hold => ?_
          rcases (pending_set hi ⟨rest, client⟩ (s.redis.removeEntry config name)).2 hold with
            hin | hstill
          · rcases List.mem_cons.1 hin with heq | hrest
            · exact absurd heq hne
            · exact ⟨⟨rest, client⟩, List.mem_set (List.getElem?_eq_some_iff.1 hi).1 _, hrest⟩
          · exact hstill
      · rcases List.mem_or_eq_of_mem_set hremoval with hold | rfl
        · intro k hk
          rw [TwoStores.run, RedisEphemeral.runRemoval, RedisEphemeral.removeEntry_hashes,
            AList.mem_erase] at hk
          exact h.covers removal' hold c hc k hk.2
        · exact RedisEphemeral.covers_removeEntry (h.covers _ hmem c hc)
  | nil =>
      have hpend : ∀ redis other, TwoStores.Pending
          { s with redis := redis, removals := s.removals.set i ⟨[], none⟩ } other ↔
            s.Pending other := fun redis other =>
        ⟨fun hother => ((pending_set hi _ redis).1 hother).elim id fun hnil =>
            absurd hnil List.not_mem_nil,
          fun hother => ((pending_set hi _ redis).2 hother).elim (fun hnil =>
            absurd hnil List.not_mem_nil) id⟩
      have hcovers : ∀ removal' ∈ s.removals.set i ⟨[], none⟩, ∀ c, removal'.clientId = some c →
          removal'.Covers config s.redis c := by
        intro removal' hremoval c hc
        rcases List.mem_or_eq_of_mem_set hremoval with hold | rfl
        · exact h.covers removal' hold c hc
        · cases hc
      cases client with
      | none =>
          exact ⟨h.memory, h.redis, h.held, fun other hother st hst =>
            (h.extra other hother st hst).imp_right fun hor => hor.imp_left (hpend _ _).2,
            fun other hother => h.gone other ((hpend _ _).1 hother), h.listed, h.deadlines, hcovers⟩
      | some c =>
          -- The client has no entry left.
          have hnone : ∀ k ∈ s.redis.hashes, k.2 ≠ c := by
            intro k hk hc
            rcases h.covers _ hmem c rfl k hk hc with ⟨other, hother, -⟩
            exact List.not_mem_nil hother
          refine ⟨h.memory,
            ⟨RedisEphemeral.index_dropClient h.redis.toRedisIndex hnone, h.redis.count⟩, h.held,
            fun other hother st hst =>
              (h.extra other hother st hst).imp_right fun hor => hor.imp_left (hpend _ _).2,
            fun other hother => h.gone other ((hpend _ _).1 hother), fun other hother hfield => ?_,
            h.deadlines, hcovers⟩
          have hlisted := h.listed other hother hfield
          rw [TwoStores.run, RedisEphemeral.runRemoval]
          dsimp only
          rwa [RedisEphemeral.roomSet_dropClient]

theorem tick (h : StoresInv config s) {ms : Nat} (hstay : s.redis.KeysStay (s.now + ms)) :
    StoresInv config (s.tick ms) := by
  rw [TwoStores.tick, RedisEphemeral.expire_eq hstay]
  refine ⟨h.memory, h.redis, h.held, fun name hname st hst => ?_, h.gone, h.listed, h.deadlines,
    h.covers⟩
  refine (h.extra name hname st hst).imp_right fun hor => hor.imp_right fun hdead => ?_
  -- What has expired stays so.
  cases hlive : st.isLive (s.now + ms) with
  | false => rfl
  | true =>
      rw [TimedState.isLive_mono (by omega) hlive] at hdead
      cases hdead

theorem step (h : StoresInv config s) {e : StoreEvent} {s' : TwoStores}
    (hkept : KeptAlike config s e) (hs : s.step config e = some s') : StoresInv config s' := by
  cases e with
  | set name userId data ttlMs =>
      cases hs
      rcases hkept with ⟨hclean, hfull, hfree⟩
      exact h.set hclean _ hfull hfree
  | remove name =>
      cases hs
      exact h.remove name
  | removeClient c =>
      cases hs
      exact h.removeClient c
  | cleanupExpired =>
      cases hs
      exact h.cleanupExpired hkept
  | run i =>
      rcases Option.map_eq_some_iff.1 hs with ⟨removal, hi, rfl⟩
      exact h.run hi
  | tick ms =>
      cases hs
      exact h.tick hkept

end StoresInv

/-! ## The same entries -/

/-- Under the condition, calls and commands in any order leave both stores with the same unexpired
entries, no hash shared by rooms, and exact counters. -/
theorem redis_same_entries {config : RedisConfig} {s : TwoStores}
    (h : (storesMachine config).Reach (KeptAlike config) s) : SameEntries config s :=
  (h.invariant (P := StoresInv config) (.start config) fun hinv hg hs =>
    hinv.step hg hs).sameEntries

section Runs

def defaultConfig : RedisConfig :=
  ⟨"reflectdb:eph", 100000, 24 * 60 * 60⟩

def setCursor (room key clientId : String) (ttlMs : Option Int) : StoreEvent :=
  .set ⟨room, key, clientId⟩ "u" ∅ ttlMs

/-- The stores after two clients set their cursors, one of them for ten milliseconds. -/
def twoCursors : TwoStores :=
  ((TwoStores.start defaultConfig).set defaultConfig ⟨"r", "cursor", "a"⟩
    (newState ⟨"r", "cursor", "a"⟩ "u" ∅ (some 10) 0)).set defaultConfig ⟨"r", "cursor", "b"⟩
    (newState ⟨"r", "cursor", "b"⟩ "u" ∅ none 0)

theorem reach_twoCursors :
    (storesMachine defaultConfig).Reach (KeptAlike defaultConfig) twoCursors := by
  refine .step (e := setCursor "r" "cursor" "b" none)
    (.step (e := setCursor "r" "cursor" "a" (some 10)) .init ?_ rfl) ?_ rfl
  · exact ⟨by decide +kernel, by decide +kernel, by decide +kernel⟩
  · exact ⟨by decide +kernel, by decide +kernel, by decide +kernel⟩

theorem keysStay_twoCursors : twoCursors.redis.KeysStay (twoCursors.now + 11) :=
  RedisEphemeral.keysStay_set (RedisEphemeral.keysStay_set (RedisEphemeral.keysStay_empty _)
    (by decide) _ _) (by decide) _ _

/-- The first cursor expires, and is swept; then the second client leaves. -/
def twoCursorsSwept : List StoreEvent :=
  [.tick 11, .cleanupExpired, .run 0, .removeClient "b", .run 1, .run 1]

theorem redis_same_entries_swept : ∃ s,
    (storesMachine defaultConfig).runWith (fun _ _ => true) twoCursors twoCursorsSwept = some s ∧
      SameEntries defaultConfig s := by
  refine ⟨_, rfl, redis_same_entries ?_⟩
  refine .step (e := .run 1)
    (.step (e := .run 1) (.step (e := .removeClient "b") (.step (e := .run 0)
    (.step (e := .cleanupExpired) (.step (e := .tick 11) reach_twoCursors keysStay_twoCursors rfl)
      ?_ rfl) trivial rfl) trivial rfl) trivial rfl) trivial rfl
  unfold KeptAlike
  decide +kernel

/-- A day later the entry without a lifetime is gone from Redis only, and is counted there still;
and two channels of different rooms have one hash. -/
theorem not_same_entries :
    (∃ s, (storesMachine defaultConfig).Reachable s ∧ s.removals = [] ∧
      ¬ SameEntries defaultConfig s) ∧
    defaultConfig.stateKey "a:b" "c" = defaultConfig.stateKey "a" "b:c" := by
  have hrun : (storesMachine defaultConfig).run
      [setCursor "r" "cursor" "a" none, .tick 86400001] = some _ := rfl
  refine ⟨⟨_, .of_run hrun, rfl, fun h => ?_⟩, by decide +kernel⟩
  have hget := congrArg Option.isSome (h.get "r" "cursor" "a" (by decide +kernel))
  exact absurd hget (by decide +kernel)

end Runs

end Server
end Reflectdb
