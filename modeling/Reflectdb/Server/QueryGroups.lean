import Reflectdb.Lib.Grouping
import Reflectdb.Lib.JsonText
import Reflectdb.Lib.Machine
import Reflectdb.Lib.OrderedSet
import Reflectdb.Lib.Table

/-!
# Query groups — one execution of a query for all who would get the same rows

A broadcast groups the subscribers of a query by everything that can change its result, runs the
query once per group for its first member, and sends each member what came out.  The groups are made
before the first await; the query runs with the inputs that the first member's session has then.
-/

namespace Reflectdb
namespace Server

open Lib JsonText

/-! ## Group keys -/

/-- Everything that can change what a query returns. -/
structure QueryInputs where
  auth : Value
  params : Value
  roomKey : Option Text

/-- A query; its `groupBy`, if it has one, may throw. -/
structure GroupedQuery where
  groupBy : Option (Value → Value → Option Text)

namespace GroupedQuery

variable (q : GroupedQuery)

/-- The key that `groupBy` answers. -/
def customKey (i : QueryInputs) : Option Text :=
  q.groupBy.bind fun groupBy => groupBy i.auth i.params

def bar : UInt16 := 124

def customPrefix : Text :=
  Text.ofChars ['c', 'u', 's', 't', 'o', 'm', ':']

def roomKeyValue : Option Text → Value
  | none => .null
  | some roomKey => .str roomKey

def authField : Text :=
  Text.ofChars ['a', 'u', 't', 'h']

def paramsField : Text :=
  Text.ofChars ['p', 'a', 'r', 'a', 'm', 's']

def roomKeyField : Text :=
  Text.ofChars ['r', 'o', 'o', 'm', 'K', 'e', 'y']

/-- `{ auth, params, roomKey }`. -/
def identityValue (i : QueryInputs) : Value :=
  .obj [(authField, i.auth), (paramsField, i.params), (roomKeyField, roomKeyValue i.roomKey)]

def groupKeyFor (i : QueryInputs) : Text :=
  match q.customKey i with
  | some key => customPrefix ++ (key ++ bar :: i.roomKey.getD [])
  | none => stableStringify (identityValue i)

/-- What the members of a group are to have in common: the custom key and the room, or all of the
inputs. -/
inductive Identity
  | custom (key : Text) (roomKey : Option Text)
  | inputs (auth params : Value) (roomKey : Option Text)

/-- Inputs are compared up to the order of keys. -/
def identity (i : QueryInputs) : Identity :=
  match q.customKey i with
  | some key => .custom key i.roomKey
  | none => .inputs (canonical i.auth) (canonical i.params) i.roomKey

/-- Two custom keys and rooms that are joined to one text: no room and the empty room, or a bar that
belongs to the key on one side and to the room on the other. -/
def Collide : Identity → Identity → Prop
  | .custom key room, .custom key' room' =>
    (key = key' ∧ room ≠ room' ∧ room.getD [] = [] ∧ room'.getD [] = []) ∨
      (∃ w, key' = key ++ bar :: w ∧ room.getD [] = w ++ bar :: room'.getD []) ∨
      ∃ w, key = key' ++ bar :: w ∧ room'.getD [] = w ++ bar :: room.getD []
  | _, _ => False

theorem not_collide_self (identity : Identity) : ¬ Collide identity identity := by
  have hlength : ∀ key w : Text, key ≠ key ++ bar :: w := by
    intro key w h
    have hle := congrArg List.length h
    simp at hle
  cases identity with
  | custom key room =>
      rintro (⟨-, hne, -⟩ | ⟨w, hkey, -⟩ | ⟨w, hkey, -⟩)
      · exact hne rfl
      · exact hlength key w hkey
      · exact hlength key w hkey
  | inputs auth params room => exact id

variable {q}

theorem identity_eq_iff {i j : QueryInputs} (hi : q.customKey i = none)
    (hj : q.customKey j = none) :
    q.identity i = q.identity j ↔
      SameJson i.auth j.auth ∧ SameJson i.params j.params ∧ i.roomKey = j.roomKey := by
  simp only [identity, hi, hj, Identity.inputs.injEq, SameJson]

theorem canonical_identityValue (i : QueryInputs) :
    canonical (identityValue i) =
      .obj [(authField, canonical i.auth), (paramsField, canonical i.params),
        (roomKeyField, roomKeyValue i.roomKey)] := by
  have hap : authField ≤ paramsField := by decide
  have har : authField ≤ roomKeyField := by decide
  have hpr : paramsField ≤ roomKeyField := by decide
  have hroom : canonical (roomKeyValue i.roomKey) = roomKeyValue i.roomKey := by
    cases i.roomKey <;> rfl
  rw [identityValue, canonical_obj_of_sorted (by simp [hap, har, hpr])]
  simp [hroom]

theorem roomKeyValue_inj {room room' : Option Text} :
    roomKeyValue room = roomKeyValue room' ↔ room = room' := by
  cases room <;> cases room' <;> simp [roomKeyValue]

theorem sameJson_identityValue {i j : QueryInputs} :
    SameJson (identityValue i) (identityValue j) ↔
      canonical i.auth = canonical j.auth ∧ canonical i.params = canonical j.params ∧
        i.roomKey = j.roomKey := by
  rw [SameJson, canonical_identityValue, canonical_identityValue]
  simp [roomKeyValue_inj]

/-- Where two texts around a bar are joined to one, the bars are one, or the one text holds the
other's bar. -/
theorem append_bar_eq {key key' room room' : Text} :
    key ++ bar :: room = key' ++ bar :: room' ↔
      (key = key' ∧ room = room') ∨ (∃ w, key' = key ++ bar :: w ∧ room = w ++ bar :: room') ∨
        ∃ w, key = key' ++ bar :: w ∧ room' = w ++ bar :: room := by
  rw [List.append_eq_append_iff]
  constructor
  · rintro (⟨w, rfl, hw⟩ | ⟨w, rfl, hw⟩)
    · cases w with
      | nil => exact Or.inl ⟨by simp, (List.cons.inj hw).2⟩
      | cons c w =>
          obtain ⟨rfl, hroom⟩ := List.cons.inj hw
          exact Or.inr (Or.inl ⟨w, rfl, hroom⟩)
    · cases w with
      | nil => exact Or.inl ⟨by simp, (List.cons.inj hw).2.symm⟩
      | cons c w =>
          obtain ⟨rfl, hroom⟩ := List.cons.inj hw
          exact Or.inr (Or.inr ⟨w, rfl, hroom⟩)
  · rintro (⟨rfl, rfl⟩ | ⟨w, rfl, rfl⟩ | ⟨w, rfl, rfl⟩)
    · exact Or.inl ⟨[], by simp, rfl⟩
    · exact Or.inl ⟨bar :: w, rfl, rfl⟩
    · exact Or.inr ⟨bar :: w, rfl, rfl⟩

/-- A custom key and a text of the inputs start with different symbols. -/
theorem customPrefix_ne (key : Text) (i : QueryInputs) :
    customPrefix ++ key ≠ stableStringify (identityValue i) := by
  intro h
  rw [identityValue, stableStringify_obj] at h
  have hhead := (List.cons.inj h).1
  exact absurd hhead (by decide)

/-- The group key tells the identities apart, but for custom keys and rooms that collide. -/
theorem groupKeyFor_eq_iff {i j : QueryInputs} :
    q.groupKeyFor i = q.groupKeyFor j ↔
      q.identity i = q.identity j ∨ Collide (q.identity i) (q.identity j) := by
  cases hi : q.customKey i with
  | none =>
      cases hj : q.customKey j with
      | none =>
          simp only [groupKeyFor, identity, hi, hj, Collide, or_false, Identity.inputs.injEq,
            stableStringify_eq_iff]
          exact sameJson_identityValue
      | some key' =>
          simp only [groupKeyFor, identity, hi, hj, Collide, or_false, reduceCtorEq, iff_false]
          exact (customPrefix_ne _ i).symm
  | some key =>
      cases hj : q.customKey j with
      | none =>
          simp only [groupKeyFor, identity, hi, hj, Collide, or_false, reduceCtorEq, iff_false]
          exact customPrefix_ne _ j
      | some key' =>
          simp only [groupKeyFor, identity, hi, hj, Collide, Identity.custom.injEq,
            List.append_cancel_left_eq, append_bar_eq, ← or_assoc]
          apply or_congr_left
          apply or_congr_left
          constructor
          · rintro ⟨rfl, hroom⟩
            -- Rooms of the same text are the same, or one is missing and one empty.
            by_cases heq : i.roomKey = j.roomKey
            · exact Or.inl ⟨rfl, heq⟩
            · refine Or.inr ⟨rfl, heq, ?_⟩
              cases hri : i.roomKey <;> cases hrj : j.roomKey <;> simp_all
          · rintro (⟨rfl, hroom⟩ | ⟨rfl, -, hnil, hnil'⟩)
            · exact ⟨rfl, by rw [hroom]⟩
            · exact ⟨rfl, hnil.trans hnil'.symm⟩

end GroupedQuery

/-! ## Sessions and groups -/

/-- A subscription to the query. -/
structure GroupedSub where
  params : Value
  roomKey : Option Text
  windowed : Bool
  bootstrapped : Bool

/-- A session object; `auth` is null until the client has authenticated. -/
structure SessionObject where
  clientId : String
  auth : Value
  sub : Option GroupedSub

/-- The inputs of the session's own subscription. -/
def SessionObject.inputs (session : SessionObject) : Option QueryInputs :=
  session.sub.map fun sub => ⟨session.auth, sub.params, sub.roomKey⟩

/-- A group member holds its session object, which later changes of the session go to; `inputs` are
those that it was grouped by. -/
structure GroupMember where
  session : Nat
  clientId : String
  inputs : QueryInputs

/-- A group of a running broadcast: the members that are still to be sent to, and the inputs that
the query ran with, once it has. -/
structure RunningGroup where
  members : List GroupMember
  representative : Nat
  ran : Option QueryInputs

/-- What the query was run with for a result, and the inputs of the client that it was sent to. -/
structure SentResult where
  ran : QueryInputs
  own : Option QueryInputs

structure GroupServer where
  /-- The session objects; the ones below `next` have been made. -/
  objects : Nat → SessionObject
  next : Nat
  sessions : Table String Nat
  subscribers : List String
  groups : List RunningGroup
  sent : List SentResult

namespace GroupServer

def empty : GroupServer :=
  ⟨fun _ => ⟨"", .null, none⟩, 0, fun _ => none, [], [], []⟩

/-- Change the client's live session object. -/
def modify (s : GroupServer) (clientId : String) (f : SessionObject → SessionObject) :
    GroupServer :=
  match s.sessions clientId with
  | none => s
  | some session => { s with objects := Function.update s.objects session (f (s.objects session)) }

def connect (s : GroupServer) (clientId : String) : GroupServer :=
  { s with
    objects := Function.update s.objects s.next ⟨clientId, .null, none⟩
    next := s.next + 1
    sessions := s.sessions.put clientId s.next }

def disconnect (s : GroupServer) (clientId : String) : GroupServer :=
  let subscribed := (s.sessions clientId).any fun session => (s.objects session).sub.isSome
  { s with
    sessions := s.sessions.remove clientId
    subscribers := if subscribed then without s.subscribers clientId else s.subscribers }

def setAuth (s : GroupServer) (clientId : String) (auth : Value) : GroupServer :=
  s.modify clientId fun session => { session with auth := auth }

def subscribe (s : GroupServer) (clientId : String) (params : Value) (roomKey : Option Text)
    (windowed : Bool) : GroupServer :=
  let subscribers :=
    if (s.sessions clientId).isSome then addLast s.subscribers clientId else s.subscribers
  { s.modify clientId fun session =>
      { session with sub := some ⟨params, roomKey, windowed, false⟩ } with
    subscribers := subscribers }

def markBootstrapped (s : GroupServer) (clientId : String) : GroupServer :=
  s.modify clientId fun session =>
    { session with sub := session.sub.map fun sub => { sub with bootstrapped := true } }

def unsubscribe (s : GroupServer) (clientId : String) : GroupServer :=
  let subscribers :=
    if (s.sessions clientId).isSome then without s.subscribers clientId else s.subscribers
  { s.modify clientId fun session => { session with sub := none } with
    subscribers := subscribers }

/-! ## The broadcast -/

/-- The room that the fanout is kept in: the caller's, else that of the writer's subscription. -/
def senderRoomKey (s : GroupServer) (excludeClientId : String)
    (overrideRoomKey : Option (Option Text)) : Option Text :=
  match overrideRoomKey with
  | some roomKey => roomKey
  | none => ((s.sessions excludeClientId).bind fun session => (s.objects session).sub).bind
      (·.roomKey)

/-- The member that a subscriber becomes, unless it is passed over. -/
def memberFor (s : GroupServer) (excludeClientId : String) (roomKey : Option Text)
    (clientId : String) : Option GroupMember :=
  (s.sessions clientId).bind fun session =>
    (s.objects session).sub.bind fun sub =>
      if roomKey.any (fun room => sub.roomKey ≠ some room) then none
      else if clientId = excludeClientId then none
      -- A windowed subscriber that has not bootstrapped yet.
      else if sub.windowed ∧ ¬ sub.bootstrapped then none
      else some ⟨session, clientId, (s.objects session).auth, sub.params, sub.roomKey⟩

def eligible (s : GroupServer) (excludeClientId : String)
    (overrideRoomKey : Option (Option Text)) : List GroupMember :=
  s.subscribers.filterMap
    (s.memberFor excludeClientId (s.senderRoomKey excludeClientId overrideRoomKey))

def buildGroups (q : GroupedQuery) (s : GroupServer) (excludeClientId : String)
    (overrideRoomKey : Option (Option Text)) : List (List GroupMember) :=
  groupInto (fun m => q.groupKeyFor m.inputs) (s.eligible excludeClientId overrideRoomKey)

/-- A group before its query has run; the first member stands for all. -/
def newGroup (members : List GroupMember) : RunningGroup :=
  ⟨members, (members.head?.map (·.session)).getD 0, none⟩

def broadcastChanges (q : GroupedQuery) (s : GroupServer) (excludeClientId : String)
    (overrideRoomKey : Option (Option Text)) : GroupServer :=
  { s with
    groups := s.groups ++ (s.buildGroups q excludeClientId overrideRoomKey).map newGroup }

/-- `executeQuery`: the context is made of what the session holds now. -/
def executeQuery (s : GroupServer) (session : Nat) : QueryInputs :=
  (s.objects session).inputs.getD ⟨(s.objects session).auth, .obj [], none⟩

/-- A result reaches the connection that the client has by then. -/
def send (s : GroupServer) (m : GroupMember) (ran : QueryInputs) : List SentResult :=
  match s.sessions m.clientId with
  | none => s.sent
  | some session => s.sent ++ [⟨ran, (s.objects session).inputs⟩]

end GroupServer

inductive GroupEvent
  | connect (clientId : String)
  | disconnect (clientId : String)
  | setAuth (clientId : String) (auth : Value)
  | subscribe (clientId : String) (params : Value) (roomKey : Option Text) (windowed : Bool)
  | markBootstrapped (clientId : String)
  | unsubscribe (clientId : String)
  | broadcast (excludeClientId : String) (overrideRoomKey : Option (Option Text))
  /-- The query of a group is called. -/
  | execute (group : Nat)
  /-- It fails, or it has timed out; nobody in the group is sent anything. -/
  | queryFailed (group : Nat)
  /-- A member of a group is sent the result. -/
  | send (group member : Nat)

open GroupServer in
def groupStep (q : GroupedQuery) (s : GroupServer) : GroupEvent → Option GroupServer
  | .connect c => some (s.connect c)
  | .disconnect c => some (s.disconnect c)
  | .setAuth c auth => some (s.setAuth c auth)
  | .subscribe c params roomKey windowed => some (s.subscribe c params roomKey windowed)
  | .markBootstrapped c => some (s.markBootstrapped c)
  | .unsubscribe c => some (s.unsubscribe c)
  | .broadcast exclude override => some (broadcastChanges q s exclude override)
  | .execute g =>
    (s.groups[g]?).bind fun group =>
      if group.ran.isSome then none
      else some { s with
        groups := s.groups.set g { group with ran := some (s.executeQuery group.representative) } }
  | .queryFailed g => some { s with groups := s.groups.eraseIdx g }
  | .send g i =>
    (s.groups[g]?).bind fun group =>
      group.ran.bind fun ran =>
        (group.members[i]?).map fun m => { s with
          groups := s.groups.set g { group with members := group.members.eraseIdx i }
          sent := s.send m ran }

def groupMachine (q : GroupedQuery) : Machine GroupServer GroupEvent where
  init := .empty
  step := groupStep q

/-! ## The groups of one broadcast -/

section Building

variable {q : GroupedQuery} {s : GroupServer} {exclude : String}
  {override : Option (Option Text)}

theorem mem_buildGroups {m : GroupMember} :
    (∃ g ∈ s.buildGroups q exclude override, m ∈ g) ↔ m ∈ s.eligible exclude override :=
  mem_groupInto

/-- Subscribers are grouped by identity exactly when none of their keys and rooms collide. -/
theorem buildGroups_partitioned_iff :
    Partitioned (fun m => q.identity m.inputs) (s.buildGroups q exclude override) ↔
      ∀ m ∈ s.eligible exclude override, ∀ m' ∈ s.eligible exclude override,
        ¬ GroupedQuery.Collide (q.identity m.inputs) (q.identity m'.inputs) := by
  have hkeys : Partitioned (fun m => q.groupKeyFor m.inputs) (s.buildGroups q exclude override) :=
    groupInto_partitioned _ _
  constructor
  · intro h m hm m' hm' hcollide
    obtain ⟨g, hg, hmg⟩ := mem_buildGroups.2 hm
    obtain ⟨g', hg', hmg'⟩ := mem_buildGroups.2 hm'
    have hkey : q.groupKeyFor m.inputs = q.groupKeyFor m'.inputs :=
      GroupedQuery.groupKeyFor_eq_iff.2 (Or.inr hcollide)
    obtain rfl := hkeys.same_group hg hg' hmg hmg' hkey
    have hsame := h.within g hg m hmg m' hmg'
    rw [hsame] at hcollide
    exact GroupedQuery.not_collide_self _ hcollide
  · intro h
    refine hkeys.congr fun g hg m hm g' hg' m' hm' => ?_
    rw [GroupedQuery.groupKeyFor_eq_iff]
    exact or_iff_left (h m (mem_buildGroups.1 ⟨g, hg, hm⟩) m' (mem_buildGroups.1 ⟨g', hg', hm'⟩))

end Building

/-! ## What is sent -/

/-- The inputs of the subscription that the client has now. -/
def GroupServer.ownInputs (s : GroupServer) (clientId : String) : Option QueryInputs :=
  (s.sessions clientId).bind fun session => (s.objects session).inputs

/-- A group has still to send to the client. -/
def GroupServer.Held (s : GroupServer) (clientId : String) : Prop :=
  ∃ g ∈ s.groups, ∃ m ∈ g.members, m.clientId = clientId

/-- While a group has still to send to a client, the client stays what it was grouped as; and no
keys collide where groups are made. -/
def KeepsGroups (q : GroupedQuery) (s : GroupServer) : GroupEvent → Prop
  | .connect c => ¬ s.Held c
  | .unsubscribe c => ¬ s.Held c
  | .setAuth c auth =>
    s.Held c → ∀ i ∈ s.ownInputs c, q.identity { i with auth := auth } = q.identity i
  | .subscribe c params roomKey _ =>
    s.Held c → ∀ i ∈ s.ownInputs c, q.identity ⟨i.auth, params, roomKey⟩ = q.identity i
  | .broadcast exclude override =>
    ∀ m ∈ s.eligible exclude override, ∀ m' ∈ s.eligible exclude override,
      ¬ GroupedQuery.Collide (q.identity m.inputs) (q.identity m'.inputs)
  | _ => True

/-- A broadcast groups by identity, and a result was computed with the identity of the client that
it was sent to. -/
structure GroupsIsolated (q : GroupedQuery) (allowed : GroupServer → GroupEvent → Prop)
    (s : GroupServer) : Prop where
  grouped : ∀ exclude override, allowed s (.broadcast exclude override) →
    Partitioned (fun m => q.identity m.inputs) (s.buildGroups q exclude override)
  sent : ∀ r ∈ s.sent, ∃ own, r.own = some own ∧ q.identity r.ran = q.identity own

/-! ### The invariant -/

/-- A member's session object is still what the member was grouped as. -/
structure MemberHolds (q : GroupedQuery) (s : GroupServer) (identity : GroupedQuery.Identity)
    (m : GroupMember) : Prop where
  made : m.session < s.next
  owner : (s.objects m.session).clientId = m.clientId
  inputs : ∃ i, (s.objects m.session).inputs = some i ∧ q.identity i = identity
  live : ∀ session, s.sessions m.clientId = some session → session = m.session

structure GroupHolds (q : GroupedQuery) (s : GroupServer) (g : RunningGroup)
    (identity : GroupedQuery.Identity) : Prop where
  members : ∀ m ∈ g.members, MemberHolds q s identity m
  representative : g.ran = none → ∃ m ∈ g.members, m.session = g.representative
  ran : ∀ i ∈ g.ran, q.identity i = identity

structure GroupInv (q : GroupedQuery) (s : GroupServer) : Prop where
  owner : ∀ c session, s.sessions c = some session →
    session < s.next ∧ (s.objects session).clientId = c
  groups : ∀ g ∈ s.groups, ∃ identity, GroupHolds q s g identity
  sent : ∀ r ∈ s.sent, ∃ own, r.own = some own ∧ q.identity r.ran = q.identity own

section Invariant

variable {q : GroupedQuery} {s s' : GroupServer}

/-- A step of the sessions, which leaves the groups alone. -/
theorem GroupInv.of_sessions (hi : GroupInv q s) (hgroups : s'.groups = s.groups)
    (hsent : s'.sent = s.sent)
    (howner : ∀ c session, s'.sessions c = some session →
      session < s'.next ∧ (s'.objects session).clientId = c)
    (hmember : ∀ g ∈ s.groups, ∀ m ∈ g.members, ∀ identity,
      MemberHolds q s identity m → MemberHolds q s' identity m) : GroupInv q s' := by
  refine ⟨howner, ?_, hsent ▸ hi.sent⟩
  intro g hg
  rw [hgroups] at hg
  obtain ⟨identity, hmembers, hrep, hran⟩ := hi.groups g hg
  exact ⟨identity, fun m hm => hmember g hg m hm identity (hmembers m hm), hrep, hran⟩

/-- A step of the groups leaves the sessions alone. -/
theorem MemberHolds.of_groups {identity : GroupedQuery.Identity} {m : GroupMember}
    (h : MemberHolds q s identity m) {groups : List RunningGroup} {sent : List SentResult} :
    MemberHolds q { s with groups := groups, sent := sent } identity m :=
  ⟨h.made, h.owner, h.inputs, h.live⟩

theorem GroupHolds.of_groups {identity : GroupedQuery.Identity} {g : RunningGroup}
    (h : GroupHolds q s g identity) {groups : List RunningGroup} {sent : List SentResult} :
    GroupHolds q { s with groups := groups, sent := sent } g identity :=
  ⟨fun m hm => (h.members m hm).of_groups, h.representative, h.ran⟩

theorem groups_modify (c : String) (f : SessionObject → SessionObject) :
    (s.modify c f).groups = s.groups ∧ (s.modify c f).sent = s.sent ∧
      (s.modify c f).sessions = s.sessions ∧ (s.modify c f).next = s.next := by
  unfold GroupServer.modify
  split <;> exact ⟨rfl, rfl, rfl, rfl⟩

theorem objects_modify {c : String} {f : SessionObject → SessionObject} {session : Nat} :
    (s.modify c f).objects session =
      if s.sessions c = some session then f (s.objects session) else s.objects session := by
  unfold GroupServer.modify
  split
  · rename_i h
    simp [h]
  · rename_i live h
    by_cases heq : live = session
    · subst heq
      simp [h]
    · simp [h, heq, Function.update_of_ne (Ne.symm heq)]

/-- A change of the client's live session object, which keeps its identity while it is held. -/
theorem GroupInv.modify (hi : GroupInv q s) {c : String} {f : SessionObject → SessionObject}
    (hclient : ∀ session, (f session).clientId = session.clientId)
    (hinputs : s.Held c → ∀ session i, s.sessions c = some session →
      (s.objects session).inputs = some i →
      ∃ i', (f (s.objects session)).inputs = some i' ∧ q.identity i' = q.identity i) :
    GroupInv q (s.modify c f) := by
  obtain ⟨hgroups, hsent, hsessions, hnext⟩ := groups_modify (s := s) c f
  have hid : ∀ session, ((s.modify c f).objects session).clientId =
      (s.objects session).clientId := by
    intro session
    rw [objects_modify]
    split
    · exact hclient _
    · rfl
  refine hi.of_sessions hgroups hsent ?_ ?_
  · intro c' session hsession
    have hold := hi.owner c' session (hsessions ▸ hsession)
    exact ⟨hnext ▸ hold.1, (hid session).trans hold.2⟩
  · intro g hg m hm identity hold
    obtain ⟨i, hinput, hidentity⟩ := hold.inputs
    refine ⟨hnext ▸ hold.made, (hid _).trans hold.owner, ?_, fun session hsession =>
      hold.live session (hsessions ▸ hsession)⟩
    rw [objects_modify]
    split
    · -- The object is the member's own, so that the client is held.
      rename_i hlive
      have hc : m.clientId = c := hold.owner.symm.trans (hi.owner c _ hlive).2
      obtain ⟨i', hi', hsame⟩ := hinputs ⟨g, hg, m, hm, hc⟩ m.session i hlive hinput
      exact ⟨i', hi', hsame.trans hidentity⟩
    · exact ⟨i, hinput, hidentity⟩

/-- The index only says who is grouped next. -/
theorem GroupInv.withSubscribers (hi : GroupInv q s) (subscribers : List String) :
    GroupInv q { s with subscribers := subscribers } :=
  hi.of_sessions rfl rfl hi.owner fun _ _ _ _ _ hold =>
    ⟨hold.made, hold.owner, hold.inputs, hold.live⟩

theorem GroupInv.connect (hi : GroupInv q s) {c : String} (hc : ¬ s.Held c) :
    GroupInv q (s.connect c) := by
  have hobject : ∀ session, session < s.next →
      (s.connect c).objects session = s.objects session :=
    fun session hlt => Function.update_of_ne (Nat.ne_of_lt hlt) _ _
  refine hi.of_sessions rfl rfl ?_ ?_
  · intro c' session hsession
    by_cases hcc : c' = c
    · subst hcc
      have hnew : (s.connect c').sessions c' = some s.next := Function.update_self _ _ _
      obtain rfl : s.next = session := Option.some.inj (hnew.symm.trans hsession)
      exact ⟨Nat.lt_succ_self _, by simp [GroupServer.connect]⟩
    · have hold : (s.connect c).sessions c' = s.sessions c' := Function.update_of_ne hcc _ _
      obtain ⟨hlt, hclient⟩ := hi.owner c' session (hold ▸ hsession)
      exact ⟨Nat.lt_succ_of_lt hlt, by rw [hobject session hlt, hclient]⟩
  · intro g hg m hm identity hold
    have hne : m.clientId ≠ c := fun heq => hc ⟨g, hg, m, hm, heq⟩
    have hlive : (s.connect c).sessions m.clientId = s.sessions m.clientId :=
      Function.update_of_ne hne _ _
    refine ⟨Nat.lt_succ_of_lt hold.made, ?_, ?_, fun session hsession =>
      hold.live session (hlive ▸ hsession)⟩
    · rw [hobject _ hold.made, hold.owner]
    · rw [hobject _ hold.made]
      exact hold.inputs

theorem GroupInv.disconnect (hi : GroupInv q s) (c : String) : GroupInv q (s.disconnect c) := by
  have hlive : ∀ c' session, (s.disconnect c).sessions c' = some session →
      s.sessions c' = some session := by
    intro c' session hsession
    by_cases hcc : c' = c
    · subst hcc
      have hnone : (s.disconnect c').sessions c' = none := Function.update_self _ _ _
      rw [hnone] at hsession
      cases hsession
    · have hold : (s.disconnect c).sessions c' = s.sessions c' := Function.update_of_ne hcc _ _
      exact hold ▸ hsession
  -- The object stays as it is, for the groups that hold it.
  refine hi.of_sessions rfl rfl
    (fun c' session hsession => hi.owner c' session (hlive _ _ hsession))
    fun g hg m hm identity hold => ?_
  exact ⟨hold.made, hold.owner, hold.inputs, fun session hsession =>
    hold.live session (hlive _ _ hsession)⟩

/-- A member of a new group is what its session object says. -/
theorem memberHolds_of_mem_eligible (hi : GroupInv q s) {exclude : String}
    {override : Option (Option Text)} {m : GroupMember} (h : m ∈ s.eligible exclude override) :
    MemberHolds q s (q.identity m.inputs) m := by
  obtain ⟨c, -, hc⟩ := List.mem_filterMap.1 h
  obtain ⟨session, hsession, hmember⟩ := Option.bind_eq_some_iff.1 hc
  obtain ⟨sub, hsub, hif⟩ := Option.bind_eq_some_iff.1 hmember
  split at hif
  · cases hif
  split at hif
  · cases hif
  split at hif
  · cases hif
  cases hif
  obtain ⟨hlt, hclient⟩ := hi.owner c session hsession
  refine ⟨hlt, hclient, ⟨_, by rw [SessionObject.inputs, hsub, Option.map_some], rfl⟩, ?_⟩
  exact fun session' hsession' => Option.some.inj (hsession'.symm.trans hsession)

theorem GroupInv.broadcastChanges (hi : GroupInv q s) {exclude : String}
    {override : Option (Option Text)} (h : KeepsGroups q s (.broadcast exclude override)) :
    GroupInv q (GroupServer.broadcastChanges q s exclude override) := by
  refine ⟨hi.owner, fun g hg => ?_, hi.sent⟩
  rcases List.mem_append.1 hg with hold | hnew
  · obtain ⟨identity, hholds⟩ := hi.groups g hold
    exact ⟨identity, hholds.of_groups⟩
  · obtain ⟨members, hmem, rfl⟩ := List.mem_map.1 hnew
    obtain ⟨first, rest, rfl⟩ := List.exists_cons_of_ne_nil (ne_nil_of_mem_groupInto hmem)
    have hpart := buildGroups_partitioned_iff.2 h
    refine ⟨q.identity first.inputs, fun m hm => ?_, fun _ => ⟨first, List.mem_cons_self, rfl⟩,
      fun i hran => by cases hran⟩
    have hsame := hpart.within _ hmem m hm first List.mem_cons_self
    have hholds := memberHolds_of_mem_eligible hi (mem_buildGroups.1 ⟨_, hmem, hm⟩)
    exact hsame ▸ hholds.of_groups

/-- The query runs with the identity of the group. -/
theorem identity_executeQuery {g : RunningGroup} {identity : GroupedQuery.Identity}
    (h : GroupHolds q s g identity) (hran : g.ran = none) :
    q.identity (s.executeQuery g.representative) = identity := by
  obtain ⟨m, hm, hrep⟩ := h.representative hran
  obtain ⟨i, hinputs, hidentity⟩ := (h.members m hm).inputs
  rw [GroupServer.executeQuery, ← hrep, hinputs, Option.getD_some, hidentity]

theorem GroupInv.set (hi : GroupInv q s) {n : Nat} {g : RunningGroup} {sent : List SentResult}
    (hg : ∃ identity, GroupHolds q s g identity)
    (hsent : ∀ r ∈ sent, ∃ own, r.own = some own ∧ q.identity r.ran = q.identity own) :
    GroupInv q { s with groups := s.groups.set n g, sent := sent } := by
  refine ⟨hi.owner, fun g' hg' => ?_, hsent⟩
  rcases List.mem_or_eq_of_mem_set hg' with hold | rfl
  · obtain ⟨identity, hholds⟩ := hi.groups g' hold
    exact ⟨identity, hholds.of_groups⟩
  · obtain ⟨identity, hholds⟩ := hg
    exact ⟨identity, hholds.of_groups⟩

/-- A member's client still has the identity that the query ran with. -/
theorem GroupInv.send (hi : GroupInv q s) {g : RunningGroup} {identity : GroupedQuery.Identity}
    (h : GroupHolds q s g identity) {ran : QueryInputs} (hran : g.ran = some ran)
    {m : GroupMember} (hm : m ∈ g.members) :
    ∀ r ∈ s.send m ran, ∃ own, r.own = some own ∧ q.identity r.ran = q.identity own := by
  intro r hr
  rw [GroupServer.send] at hr
  split at hr
  · exact hi.sent r hr
  · rename_i session hsession
    rcases List.mem_append.1 hr with hold | hnew
    · exact hi.sent r hold
    · obtain rfl := List.mem_singleton.1 hnew
      obtain rfl := (h.members m hm).live session hsession
      obtain ⟨own, hown, hidentity⟩ := (h.members m hm).inputs
      exact ⟨own, hown, (h.ran ran hran).trans hidentity.symm⟩

theorem groupInv_step {e : GroupEvent} (hi : GroupInv q s) (hk : KeepsGroups q s e)
    (hs : groupStep q s e = some s') : GroupInv q s' := by
  cases e with
  | connect c =>
      cases hs
      exact hi.connect hk
  | disconnect c =>
      cases hs
      exact hi.disconnect c
  | setAuth c auth =>
      cases hs
      apply hi.modify
      · exact fun _ => rfl
      · intro hheld session i hsession hinputs
        have hown : s.ownInputs c = some i := Option.bind_eq_some_iff.2 ⟨session, hsession, hinputs⟩
        obtain ⟨sub, hsub, rfl⟩ := Option.map_eq_some_iff.1 hinputs
        exact ⟨_, by rw [SessionObject.inputs, hsub, Option.map_some], hk hheld _ hown⟩
  | subscribe c params roomKey windowed =>
      cases hs
      apply GroupInv.withSubscribers
      apply hi.modify
      · exact fun _ => rfl
      · intro hheld session i hsession hinputs
        have hown : s.ownInputs c = some i := Option.bind_eq_some_iff.2 ⟨session, hsession, hinputs⟩
        obtain ⟨sub, -, rfl⟩ := Option.map_eq_some_iff.1 hinputs
        exact ⟨_, rfl, hk hheld _ hown⟩
  | markBootstrapped c =>
      cases hs
      apply hi.modify
      · exact fun _ => rfl
      · intro _ session i _ hinputs
        obtain ⟨sub, hsub, rfl⟩ := Option.map_eq_some_iff.1 hinputs
        exact ⟨_, by simp [SessionObject.inputs, hsub], rfl⟩
  | unsubscribe c =>
      cases hs
      apply GroupInv.withSubscribers
      apply hi.modify
      · exact fun _ => rfl
      · exact fun hheld => absurd hheld hk
  | broadcast exclude override =>
      cases hs
      exact hi.broadcastChanges hk
  | execute n =>
      obtain ⟨g, hg, hif⟩ := Option.bind_eq_some_iff.1 hs
      split at hif
      · cases hif
      · rename_i hran
        cases hif
        obtain ⟨identity, hholds⟩ := hi.groups g (List.mem_of_getElem? hg)
        have hnone : g.ran = none := by simpa using hran
        refine hi.set ⟨identity, hholds.members, fun h => (by cases h), ?_⟩ hi.sent
        intro i hi'
        cases hi'
        exact identity_executeQuery hholds hnone
  | queryFailed n =>
      cases hs
      refine ⟨hi.owner, fun g hg => ?_, hi.sent⟩
      obtain ⟨identity, hholds⟩ := hi.groups g (List.mem_of_mem_eraseIdx hg)
      exact ⟨identity, hholds.of_groups⟩
  | send n k =>
      obtain ⟨g, hg, hbind⟩ := Option.bind_eq_some_iff.1 hs
      obtain ⟨ran, hran, hmap⟩ := Option.bind_eq_some_iff.1 hbind
      obtain ⟨m, hm, rfl⟩ := Option.map_eq_some_iff.1 hmap
      obtain ⟨identity, hholds⟩ := hi.groups g (List.mem_of_getElem? hg)
      refine hi.set ⟨identity, fun m' hm' => hholds.members m' (List.mem_of_mem_eraseIdx hm'), ?_,
        hholds.ran⟩ (hi.send hholds hran (List.mem_of_getElem? hm))
      intro hnone
      rw [show g.ran = none from hnone] at hran
      cases hran

theorem groupInv_of_reach (h : (groupMachine q).Reach (KeepsGroups q) s) : GroupInv q s := by
  refine h.invariant (P := GroupInv q) ?_ fun hi hk hs => groupInv_step hi hk hs
  exact ⟨fun c session hsession => (by cases hsession), fun g hg => absurd hg List.not_mem_nil,
    fun r hr => absurd hr List.not_mem_nil⟩

/-- While nobody changes what a group still holds it as, groups are those of equal identity, and
nobody is sent a result that was computed for another. -/
theorem groupsIsolated_of_keepsGroups (h : (groupMachine q).Reach (KeepsGroups q) s) :
    GroupsIsolated q (KeepsGroups q) s where
  grouped _ _ hkeeps := buildGroups_partitioned_iff.2 hkeeps
  sent := (groupInv_of_reach h).sent

end Invariant

/-! ### Two clients, one of which declares again -/

def noGroupBy : GroupedQuery :=
  ⟨none⟩

def mineOnly : Value :=
  .obj [(Text.ofChars ['m'], .bool true)]

/-- Two clients with the same inputs are grouped, and the query is about to run for the first. -/
def twoGrouped : List GroupEvent :=
  [.connect "a", .connect "b", .subscribe "a" (.obj []) none false,
    .subscribe "b" (.obj []) none false, .broadcast "" none]

/-- A check that implies the condition: sessions change only while no group is running. -/
def keepsGroupsCheck (s : GroupServer) : GroupEvent → Bool
  | .connect _ | .setAuth _ _ | .subscribe _ _ _ _ | .unsubscribe _ => s.groups.isEmpty
  | _ => true

theorem keepsGroups_of_check (s : GroupServer) (e : GroupEvent)
    (h : keepsGroupsCheck s e = true) : KeepsGroups noGroupBy s e := by
  have hheld : s.groups.isEmpty = true → ∀ c, ¬ s.Held c := by
    rintro hempty c ⟨g, hg, -⟩
    rw [List.isEmpty_iff.1 hempty] at hg
    cases hg
  cases e with
  | connect c => exact hheld h c
  | unsubscribe c => exact hheld h c
  | setAuth c auth => exact fun hc => absurd hc (hheld h c)
  | subscribe c params roomKey windowed => exact fun hc => absurd hc (hheld h c)
  | broadcast exclude override => exact fun _ _ _ _ hcollide => hcollide
  | _ => trivial

theorem groupsIsolated_twoGrouped :
    ∃ s, (groupMachine noGroupBy).Reach (KeepsGroups noGroupBy) s ∧
      s.sent = [⟨⟨.null, .obj [], none⟩, some ⟨.null, .obj [], none⟩⟩] ∧
      GroupsIsolated noGroupBy (KeepsGroups noGroupBy) s := by
  have hrun : ((groupMachine noGroupBy).runWith keepsGroupsCheck (groupMachine noGroupBy).init
      (twoGrouped ++ [.execute 0, .send 0 1])).map (·.sent) =
      some [⟨⟨.null, .obj [], none⟩, some ⟨.null, .obj [], none⟩⟩] := by
    rfl
  obtain ⟨s, hs, hsent⟩ := Option.map_eq_some_iff.1 hrun
  have hreach : (groupMachine noGroupBy).Reach (KeepsGroups noGroupBy) s :=
    Machine.Reach.of_runWith keepsGroups_of_check .init hs
  exact ⟨s, hreach, hsent, groupsIsolated_of_keepsGroups hreach⟩

/-- The first declares with other params before the query runs: the second is sent their rows. -/
theorem groupsIsolated_fails :
    ¬ ∀ (q : GroupedQuery) (s : GroupServer), (groupMachine q).Reachable s →
      GroupsIsolated q (fun _ _ => True) s := by
  intro h
  have hrun : ((groupMachine noGroupBy).run (twoGrouped ++
      [.subscribe "a" mineOnly none false, .execute 0, .send 0 1])).map (·.sent) =
      some [⟨⟨.null, mineOnly, none⟩, some ⟨.null, .obj [], none⟩⟩] := by
    rfl
  obtain ⟨s, hs, hsent⟩ := Option.map_eq_some_iff.1 hrun
  obtain ⟨own, hown, hsame⟩ := (h noGroupBy s (Machine.Reachable.of_run hs)).sent
    ⟨⟨.null, mineOnly, none⟩, some ⟨.null, .obj [], none⟩⟩ (hsent ▸ List.mem_singleton_self _)
  cases hown
  have hparams := (GroupedQuery.identity_eq_iff rfl rfl).1 hsame
  have hne : ¬ SameJson mineOnly (.obj []) := by
    intro heq
    cases heq
  exact hne hparams.2.1

end Server
end Reflectdb
