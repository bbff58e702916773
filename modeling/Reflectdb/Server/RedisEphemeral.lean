import Reflectdb.Server.EphemeralManager

/-!
# RedisEphemeral — the ephemeral entries in Redis

A channel's entries are the fields of a hash whose name has the room and the key in it; two kinds of
sets list a room's channels and a client's packed entries, a sorted set the deadlines, and a counter
the entries.  Scripts write them together, and are run one at a time; a removal of many entries is
one script an entry, between which other commands come.
-/

namespace Reflectdb
namespace Server

open Core Lib

/-! ## The store -/

structure RedisConfig where
  keyPrefix : String
  maxEntries : Int
  hashTtlSeconds : Int

namespace RedisConfig

variable (config : RedisConfig)

def stateKey (room key : String) : String :=
  config.keyPrefix ++ ":s:" ++ room ++ ":" ++ key

def roomKeysKey (room : String) : String :=
  config.keyPrefix ++ ":rk:" ++ room

def clientKey (clientId : String) : String :=
  config.keyPrefix ++ ":c:" ++ clientId

/-- The hash of an entry's channel, and its field there. -/
def field (name : EntryName) : String × String :=
  (config.stateKey name.room name.key, name.clientId)

end RedisConfig

/-- A set without members is none; `expires` is when a key goes, unless it is written again. -/
structure RedisEphemeral where
  hashes : AList fun _ : String × String => TimedState
  sets : String → List String
  expires : String → Int
  exp : AList fun _ : String => Int
  n : Int

/-- What `removeClient` or a sweep has still to remove, and the client whose set goes at the end. -/
structure Removal where
  pending : List EntryName
  clientId : Option String
  deriving DecidableEq

namespace RedisEphemeral

variable (config : RedisConfig) (r : RedisEphemeral)

def empty : RedisEphemeral :=
  ⟨∅, fun _ => [], fun _ => 0, ∅, 0⟩

def full (name : EntryName) : Bool :=
  (r.hashes.lookup (config.field name)).isNone && config.maxEntries ≤ r.n

/-- `SET_SCRIPT`. -/
def set (name : EntryName) (state : TimedState) (now : Int) : RedisEphemeral × Bool :=
  if r.full config name then (r, false)
  else
    let hash := config.stateKey name.room name.key
    let roomKeys := config.roomKeysKey name.room
    let client := config.clientKey name.clientId
    let expiry := now + config.hashTtlSeconds * 1000
    let sets := Function.update r.sets roomKeys (addLast (r.sets roomKeys) name.key)
    ({
      hashes := r.hashes.insert (config.field name) state
      sets := Function.update sets client (addLast (sets client) (packed name))
      expires := Function.update (Function.update (Function.update r.expires hash expiry)
        roomKeys expiry) client expiry
      exp := match state.deadline with
        | some deadline => r.exp.insert (packed name) deadline
        | none => r.exp.erase (packed name)
      n := if config.field name ∈ r.hashes then r.n else r.n + 1 }, true)

/-- `HLEN`. -/
def hlen (hash : String) : Nat :=
  (r.hashes.keys.filter fun k => k.1 = hash).length

/-- The entry, its deadline and its place in its client's set. -/
def dropEntry (name : EntryName) : RedisEphemeral :=
  let client := config.clientKey name.clientId
  { r with
    hashes := r.hashes.erase (config.field name)
    exp := r.exp.erase (packed name)
    sets := Function.update r.sets client (without (r.sets client) (packed name))
    n := if 0 < r.n then r.n - 1 else r.n }

def unlistKey (name : EntryName) : RedisEphemeral :=
  let roomKeys := config.roomKeysKey name.room
  { r with sets := Function.update r.sets roomKeys (without (r.sets roomKeys) name.key) }

/-- `REMOVE_SCRIPT`. -/
def removeEntry (name : EntryName) : RedisEphemeral :=
  if config.field name ∈ r.hashes then
    let removed := r.dropEntry config name
    if removed.hlen (config.stateKey name.room name.key) = 0 then removed.unlistKey config name
    else removed
  else r

def get (now : Int) (room key clientId : String) : Option TimedState :=
  assigned clientId
    ((r.hashes.lookup (config.stateKey room key, clientId)).filter (·.isLive now))

def getRoom (now : Int) (room key clientId : String) : Option TimedState :=
  if key ∈ r.sets (config.roomKeysKey room) then
    assigned key (r.get config now room key clientId)
  else none

/-! ## Removals -/

/-- `removeClient` up to its first reply. -/
def removeClient (clientId : String) : Removal :=
  ⟨(r.sets (config.clientKey clientId)).map unpack, some clientId⟩

def sweepBatch : Nat :=
  1000

/-- `ZRANGEBYSCORE` up to the time, by deadline and then by member. -/
def due (now : Int) : List String :=
  (((r.exp.entries.filter fun e => e.2 ≤ now).mergeSort fun a b =>
    a.2 < b.2 || (a.2 = b.2 && a.1 ≤ b.1)).take sweepBatch).map (·.1)

/-- `cleanupExpired` up to its first reply. -/
def cleanupExpired (now : Int) : Removal :=
  ⟨(r.due now).map unpack, none⟩

/-- `DEL` of a client's set. -/
def dropClient (clientId : String) : RedisEphemeral :=
  { r with sets := Function.update r.sets (config.clientKey clientId) [] }

/-- The next command of a removal, and what is left of it. -/
def runRemoval (removal : Removal) : RedisEphemeral × Removal :=
  match removal.pending, removal.clientId with
  | name :: rest, client => (r.removeEntry config name, ⟨rest, client⟩)
  | [], some client => (r.dropClient config client, ⟨[], none⟩)
  | [], none => (r, ⟨[], none⟩)

/-! ## Expiry -/

/-- The keys go whose time has come. -/
def expire (now : Int) : RedisEphemeral :=
  { r with
    hashes := keep r.hashes fun k _ => now ≤ r.expires k.1
    sets := fun key => if now ≤ r.expires key then r.sets key else [] }

/-- No hash or set that holds anything goes by then. -/
def KeysStay (now : Int) : Prop :=
  (∀ k ∈ r.hashes.keys, now ≤ r.expires k.1) ∧
    ∀ key, r.sets key ≠ [] → now ≤ r.expires key

theorem expire_eq {r : RedisEphemeral} {now : Int} (h : r.KeysStay now) : r.expire now = r := by
  have hhashes : keep r.hashes (fun k _ => now ≤ r.expires k.1) = r.hashes := by
    refine AList.ext (List.filter_eq_self.2 fun e he => ?_)
    exact decide_eq_true (h.1 e.1 (List.mem_map_of_mem (f := Sigma.fst) he))
  have hsets : (fun key => if now ≤ r.expires key then r.sets key else []) = r.sets := by
    funext key
    split
    · rfl
    · rename_i hgone
      exact (not_not.1 fun hne => hgone (h.2 key hne)).symm
  rw [expire, hhashes, hsets]

theorem keysStay_empty (now : Int) : empty.KeysStay now :=
  ⟨fun _ hk => absurd hk List.not_mem_nil, fun _ hkey => absurd rfl hkey⟩

/-- The keys that a write touches stay for as long as the safety net says. -/
theorem keysStay_set {config : RedisConfig} {r : RedisEphemeral} {later now : Int}
    (h : r.KeysStay later) (hlater : later ≤ now + config.hashTtlSeconds * 1000)
    (name : EntryName) (state : TimedState) :
    (r.set config name state now).1.KeysStay later := by
  cases hfull : r.full config name with
  | true => rwa [set, if_pos hfull]
  | false =>
      rw [set, if_neg (by simp [hfull])]
      dsimp only
      refine ⟨fun k hk => ?_, fun key hkey => ?_⟩
      · simp only [Function.update_apply]
        split_ifs with hclient hroom hhash
        · exact hlater
        · exact hlater
        · exact hlater
        · rcases (AList.mem_insert r.hashes).1 (AList.mem_keys.2 hk) with rfl | hold
          · exact absurd rfl hhash
          · exact h.1 k (AList.mem_keys.1 hold)
      · simp only [Function.update_apply] at hkey ⊢
        split_ifs with hclient hroom hhash
        · exact hlater
        · exact hlater
        · exact hlater
        · rw [if_neg hclient, if_neg hroom] at hkey
          exact h.2 key hkey

end RedisEphemeral

/-! ## The names of keys -/

namespace RedisConfig

variable {config : RedisConfig}

theorem clientKey_inj {c c' : String} : config.clientKey c = config.clientKey c' ↔ c = c' := by
  refine ⟨fun h => ?_, fun h => h ▸ rfl⟩
  rw [← String.toList_inj]
  rw [← String.toList_inj] at h
  simpa [clientKey, String.toList_append] using h

theorem roomKeysKey_inj {room room' : String} :
    config.roomKeysKey room = config.roomKeysKey room' ↔ room = room' := by
  refine ⟨fun h => ?_, fun h => h ▸ rfl⟩
  rw [← String.toList_inj]
  rw [← String.toList_inj] at h
  simpa [roomKeysKey, String.toList_append] using h

theorem roomKeysKey_ne_clientKey (room c : String) :
    config.roomKeysKey room ≠ config.clientKey c := by
  intro h
  rw [← String.toList_inj] at h
  have hroom : (":rk:" : String).toList = [':', 'r', 'k', ':'] := rfl
  have hclient : (":c:" : String).toList = [':', 'c', ':'] := rfl
  simp [roomKeysKey, clientKey, String.toList_append, hroom, hclient] at h

end RedisConfig

/-- Neither the room nor the key has the separator of the hashes' names. -/
structure EntryName.Plain (name : EntryName) : Prop where
  room : ':' ∉ name.room.toList
  key : ':' ∉ name.key.toList

instance (name : EntryName) : Decidable name.Plain :=
  decidable_of_iff (':' ∉ name.room.toList ∧ ':' ∉ name.key.toList)
    ⟨fun h => ⟨h.1, h.2⟩, fun h => ⟨h.1, h.2⟩⟩

/-- A plain channel shares its hash with no other. -/
theorem EntryName.Plain.stateKey_inj {config : RedisConfig} {name : EntryName} (h : name.Plain)
    {room key : String} (heq : config.stateKey name.room name.key = config.stateKey room key) :
    name.room = room ∧ name.key = key := by
  have hcolon : (":" : String).toList = [':'] := rfl
  rw [← String.toList_inj] at heq
  simp only [RedisConfig.stateKey, String.toList_append, List.append_assoc,
    List.append_cancel_left_eq, hcolon, List.singleton_append] at heq
  have hcount := congrArg (List.count ':') heq
  simp only [List.count_append, List.count_cons_self, List.count_eq_zero_of_not_mem h.room,
    List.count_eq_zero_of_not_mem h.key] at hcount
  have hroom : ':' ∉ room.toList := List.count_eq_zero.1 (by omega)
  have hkey : ':' ∉ key.toList := List.count_eq_zero.1 (by omega)
  have hsplit := congrArg (List.splitOn ':') heq
  rw [List.splitOn_append_cons_self_of_not_mem h.room, List.splitOn_eq_singleton h.key,
    List.splitOn_append_cons_self_of_not_mem hroom, List.splitOn_eq_singleton hkey] at hsplit
  simpa [String.toList_inj] using hsplit

theorem EntryName.Plain.field_inj {config : RedisConfig} {name name' : EntryName} (h : name.Plain)
    (heq : config.field name = config.field name') : name = name' := by
  rcases h.stateKey_inj (congrArg Prod.fst heq) with ⟨hroom, hkey⟩
  have hclient := congrArg Prod.snd heq
  cases name
  cases name'
  simp_all [RedisConfig.field]

/-! ## The counter and the clients' sets -/

/-- Each field is that of an entry that its client's set lists, and the sets list packed names of
their own clients.  `P` is what is known of the names. -/
structure RedisIndex (config : RedisConfig) (P : EntryName → Prop) (r : RedisEphemeral) : Prop where
  named : ∀ k ∈ r.hashes, ∃ name, P name ∧ config.field name = k ∧
    packed name ∈ r.sets (config.clientKey name.clientId)
  members : ∀ c, ∀ value ∈ r.sets (config.clientKey c), ∃ name, P name ∧ name.clientId = c ∧
    packed name = value

/-- The counter counts the fields, too. -/
structure RedisInv (config : RedisConfig) (P : EntryName → Prop) (r : RedisEphemeral) : Prop
    extends RedisIndex config P r where
  count : r.n = r.hashes.keys.length

namespace RedisEphemeral

variable {config : RedisConfig} {P : EntryName → Prop} {r : RedisEphemeral} {name : EntryName}
  {state : TimedState} {now : Int}

theorem index_empty : RedisIndex config P empty where
  named k hk := absurd hk (AList.notMem_empty k)
  members _ _ h := absurd h List.not_mem_nil

theorem inv_empty : RedisInv config P empty :=
  ⟨index_empty, rfl⟩

/-! ### What the scripts write -/

section Set

theorem set_of_full (hfull : r.full config name = true) :
    r.set config name state now = (r, false) :=
  if_pos hfull

variable (hfull : r.full config name = false)
include hfull

theorem set_hashes :
    (r.set config name state now).1.hashes = r.hashes.insert (config.field name) state := by
  rw [set, if_neg (by simp [hfull])]

theorem set_exp : (r.set config name state now).1.exp =
    match state.deadline with
    | some deadline => r.exp.insert (packed name) deadline
    | none => r.exp.erase (packed name) := by
  rw [set, if_neg (by simp [hfull])]

theorem set_n : (r.set config name state now).1.n =
    if config.field name ∈ r.hashes then r.n else r.n + 1 := by
  rw [set, if_neg (by simp [hfull])]

theorem mem_clientSet_set {c value : String} :
    value ∈ (r.set config name state now).1.sets (config.clientKey c) ↔
      value ∈ r.sets (config.clientKey c) ∨ c = name.clientId ∧ value = packed name := by
  have hroom : ∀ c, config.roomKeysKey name.room ≠ config.clientKey c :=
    RedisConfig.roomKeysKey_ne_clientKey name.room
  rw [set, if_neg (by simp [hfull])]
  dsimp only
  by_cases hc : c = name.clientId
  · subst hc
    rw [Function.update_self, mem_addLast, Function.update_of_ne (hroom _).symm]
    simp
  · rw [Function.update_of_ne fun heq => hc (RedisConfig.clientKey_inj.1 heq),
      Function.update_of_ne (hroom c).symm]
    simp [hc]

theorem mem_roomSet_set {room key : String} :
    key ∈ (r.set config name state now).1.sets (config.roomKeysKey room) ↔
      key ∈ r.sets (config.roomKeysKey room) ∨ room = name.room ∧ key = name.key := by
  rw [set, if_neg (by simp [hfull])]
  dsimp only
  rw [Function.update_of_ne (RedisConfig.roomKeysKey_ne_clientKey room name.clientId)]
  by_cases hroom : room = name.room
  · subst hroom
    rw [Function.update_self, mem_addLast]
    simp
  · rw [Function.update_of_ne fun heq => hroom (RedisConfig.roomKeysKey_inj.1 heq)]
    simp [hroom]

end Set

section Remove

theorem removeEntry_of_notMem (hname : config.field name ∉ r.hashes) :
    r.removeEntry config name = r :=
  if_neg hname

theorem removeEntry_hashes :
    (r.removeEntry config name).hashes = r.hashes.erase (config.field name) := by
  unfold removeEntry
  split
  · dsimp only
    split <;> rfl
  · rename_i hname
    exact AList.ext (List.kerase_of_notMem_keys fun h => hname (AList.mem_keys.2 h)).symm

variable (hname : config.field name ∈ r.hashes)
include hname

theorem removeEntry_exp : (r.removeEntry config name).exp = r.exp.erase (packed name) := by
  rw [removeEntry, if_pos hname]
  dsimp only
  split <;> rfl

theorem removeEntry_n : (r.removeEntry config name).n = if 0 < r.n then r.n - 1 else r.n := by
  rw [removeEntry, if_pos hname]
  dsimp only
  generalize (r.dropEntry config name).hlen _ = len
  split <;> rfl

theorem mem_clientSet_removeEntry {c value : String} :
    value ∈ (r.removeEntry config name).sets (config.clientKey c) ↔
      value ∈ r.sets (config.clientKey c) ∧ ¬ (c = name.clientId ∧ value = packed name) := by
  have hclient : value ∈ (r.dropEntry config name).sets (config.clientKey c) ↔
      value ∈ r.sets (config.clientKey c) ∧ ¬ (c = name.clientId ∧ value = packed name) := by
    rw [dropEntry]
    dsimp only
    by_cases hc : c = name.clientId
    · subst hc
      rw [Function.update_self, mem_without]
      simp
    · rw [Function.update_of_ne fun heq => hc (RedisConfig.clientKey_inj.1 heq)]
      simp [hc]
  rw [removeEntry, if_pos hname]
  dsimp only
  split
  · rw [unlistKey]
    dsimp only
    rwa [Function.update_of_ne (RedisConfig.roomKeysKey_ne_clientKey name.room c).symm]
  · exact hclient

end Remove

/-- A channel that still has a field stays in its room's set. -/
theorem mem_roomSet_removeEntry {other : EntryName}
    (hlisted : other.key ∈ r.sets (config.roomKeysKey other.room))
    (hother : config.field other ∈ (r.removeEntry config name).hashes) :
    other.key ∈ (r.removeEntry config name).sets (config.roomKeysKey other.room) := by
  by_cases hname : config.field name ∈ r.hashes
  · rw [removeEntry_hashes] at hother
    have hroom : other.key ∈ (r.dropEntry config name).sets (config.roomKeysKey other.room) := by
      rw [dropEntry]
      dsimp only
      rwa [Function.update_of_ne (RedisConfig.roomKeysKey_ne_clientKey other.room name.clientId)]
    rw [removeEntry, if_pos hname]
    dsimp only
    split
    · rename_i hempty
      rw [unlistKey]
      dsimp only
      by_cases heq : other.room = name.room
      · rw [heq] at hroom ⊢
        rw [Function.update_self, mem_without]
        refine ⟨hroom, fun hkey => ?_⟩
        -- The channel's hash has the other entry's field.
        have hfield : config.field other ∈ (r.dropEntry config name).hashes.keys.filter fun k =>
            k.1 = config.stateKey name.room name.key := by
          rw [← heq, ← hkey]
          exact List.mem_filter.2 ⟨AList.mem_keys.1 hother, decide_eq_true rfl⟩
        exact absurd hempty (List.length_pos_of_mem hfield).ne'
      · rwa [Function.update_of_ne fun h => heq (RedisConfig.roomKeysKey_inj.1 h)]
    · exact hroom
  · rwa [removeEntry_of_notMem hname]

theorem roomSet_dropClient {c room : String} :
    (r.dropClient config c).sets (config.roomKeysKey room) = r.sets (config.roomKeysKey room) :=
  Function.update_of_ne (RedisConfig.roomKeysKey_ne_clientKey room c) ..

theorem mem_clientSet_dropClient {c c' value : String} :
    value ∈ (r.dropClient config c).sets (config.clientKey c') ↔
      c' ≠ c ∧ value ∈ r.sets (config.clientKey c') := by
  rw [dropClient]
  dsimp only
  by_cases hc : c' = c
  · subst hc
    rw [Function.update_self]
    simp
  · rw [Function.update_of_ne fun heq => hc (RedisConfig.clientKey_inj.1 heq)]
    simp [hc]

/-! ### The steps -/

variable (hP : ∀ name, P name → name.NulFree)

theorem index_set (h : RedisIndex config P r) (hname : P name) :
    RedisIndex config P (r.set config name state now).1 := by
  cases hfull : r.full config name with
  | true => rwa [set_of_full hfull]
  | false =>
      refine ⟨fun k hk => ?_, fun c value hvalue => ?_⟩
      · rw [set_hashes hfull] at hk
        rcases (AList.mem_insert _).1 hk with rfl | hold
        · exact ⟨name, hname, rfl, (mem_clientSet_set hfull).2 (Or.inr ⟨rfl, rfl⟩)⟩
        · rcases h.named k hold with ⟨other, hother, hfield, hlisted⟩
          exact ⟨other, hother, hfield, (mem_clientSet_set hfull).2 (Or.inl hlisted)⟩
      · rcases (mem_clientSet_set hfull).1 hvalue with hold | ⟨rfl, rfl⟩
        · exact h.members c value hold
        · exact ⟨name, hname, rfl, rfl⟩

theorem inv_set (h : RedisInv config P r) (hname : P name) :
    RedisInv config P (r.set config name state now).1 := by
  refine ⟨index_set h.toRedisIndex hname, ?_⟩
  cases hfull : r.full config name with
  | true =>
      rw [set_of_full hfull]
      exact h.count
  | false =>
      rw [set_n hfull, set_hashes hfull, length_keys_insert, h.count]
      split <;> rfl

include hP

theorem index_removeEntry (h : RedisIndex config P r) (name : EntryName) :
    RedisIndex config P (r.removeEntry config name) := by
  by_cases hmem : config.field name ∈ r.hashes
  · refine ⟨fun k hk => ?_, fun c value hvalue => ?_⟩
    · rw [removeEntry_hashes, AList.mem_erase] at hk
      rcases h.named k hk.2 with ⟨other, hother, hfield, hlisted⟩
      refine ⟨other, hother, hfield, (mem_clientSet_removeEntry hmem).2 ⟨hlisted, ?_⟩⟩
      rintro ⟨-, heq⟩
      exact hk.1 (by rw [← hfield, (hP other hother).packed_inj heq])
    · exact h.members c value ((mem_clientSet_removeEntry hmem).1 hvalue).1
  · rwa [removeEntry_of_notMem hmem]

theorem inv_removeEntry (h : RedisInv config P r) (name : EntryName) :
    RedisInv config P (r.removeEntry config name) := by
  refine ⟨index_removeEntry hP h.toRedisIndex name, ?_⟩
  by_cases hmem : config.field name ∈ r.hashes
  · have hlen := length_keys_erase hmem
    rw [removeEntry_n hmem, removeEntry_hashes, h.count]
    omega
  · rw [removeEntry_of_notMem hmem]
    exact h.count

omit hP

/-- A client's set may go where no field is the client's. -/
theorem index_dropClient (h : RedisIndex config P r) {c : String}
    (hnone : ∀ k ∈ r.hashes, k.2 ≠ c) : RedisIndex config P (r.dropClient config c) := by
  refine ⟨fun k hk => ?_, fun c' value hvalue => ?_⟩
  · rcases h.named k hk with ⟨other, hother, hfield, hlisted⟩
    refine ⟨other, hother, hfield, mem_clientSet_dropClient.2 ⟨?_, hlisted⟩⟩
    exact fun heq => hnone k hk (by rw [← hfield]; exact heq)
  · exact h.members c' value (mem_clientSet_dropClient.1 hvalue).2

/-- Where a client's set stays as long as its entries, both may expire. -/
theorem index_expire (h : RedisIndex config P r)
    (hstay : ∀ k ∈ r.hashes.keys, now ≤ r.expires k.1 → now ≤ r.expires (config.clientKey k.2)) :
    RedisIndex config P (r.expire now) := by
  refine ⟨fun k hk => ?_, fun c value hvalue => ?_⟩
  · rcases mem_keep.1 hk with ⟨state, hstate, hlive⟩
    have hmem : k ∈ r.hashes := AList.lookup_isSome.1 (Option.isSome_of_eq_some hstate)
    rcases h.named k hmem with ⟨name, hname, hfield, hlisted⟩
    refine ⟨name, hname, hfield, ?_⟩
    have hclient := hstay k (AList.mem_keys.1 hmem) (of_decide_eq_true hlive)
    have hc : k.2 = name.clientId := by rw [← hfield]; rfl
    rw [hc] at hclient
    rw [expire]
    dsimp only
    rwa [if_pos hclient]
  · rw [expire] at hvalue
    dsimp only at hvalue
    split at hvalue
    · exact h.members c value hvalue
    · exact absurd hvalue List.not_mem_nil

end RedisEphemeral

/-! ## What a removal has still to remove -/

/-- The removal will remove all fields of the client. -/
def Removal.Covers (config : RedisConfig) (removal : Removal) (r : RedisEphemeral) (c : String) :
    Prop :=
  ∀ k ∈ r.hashes, k.2 = c → ∃ name ∈ removal.pending, config.field name = k

namespace RedisEphemeral

variable {config : RedisConfig} {P : EntryName → Prop} {r : RedisEphemeral}

theorem covers_removeClient (hP : ∀ name, P name → name.NulFree) (h : RedisIndex config P r)
    (c : String) : (r.removeClient config c).Covers config r c := by
  intro k hk hc
  rcases h.named k hk with ⟨name, hname, rfl, hlisted⟩
  have hclient : name.clientId = c := hc
  refine ⟨name, List.mem_map.2 ⟨packed name, hclient ▸ hlisted, ?_⟩, rfl⟩
  exact (hP name hname).unpack_packed

theorem covers_removeEntry {rest : List EntryName} {name : EntryName} {client : Option String}
    {c : String} (h : Removal.Covers config ⟨name :: rest, client⟩ r c) :
    Removal.Covers config ⟨rest, client⟩ (r.removeEntry config name) c := by
  intro k hk hc
  rw [removeEntry_hashes, AList.mem_erase] at hk
  rcases h k hk.2 hc with ⟨other, hother, hfield⟩
  rcases List.mem_cons.1 hother with rfl | hrest
  · exact absurd hfield.symm hk.1
  · exact ⟨other, hrest, hfield⟩

end RedisEphemeral

end Server
end Reflectdb
