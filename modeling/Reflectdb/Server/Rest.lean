import Reflectdb.Lib.Machine
import Reflectdb.Lib.Text
import Mathlib.Data.List.Infix
import Mathlib.Logic.Function.Basic

/-!
# Rest — writes over REST and their idempotency keys

A write that carries a key reserves `rest:<query>:<key>` before it is executed; whoever finds the id
reserved is answered as a replay.  The reservation knows neither the user nor how the execution
ended, and the detector may forget it.
-/

namespace Reflectdb
namespace Server
namespace Rest

open Lib

/-! ## The replay detector -/

/-- `storage`: the ids that a storage has reserved, when there is one. -/
structure ReplayDetector where
  storage : Option (List Text)
  inMemory : List (Text × Nat)

namespace ReplayDetector

def TTL_MS : Nat := 300000

def MAX_ENTRIES : Nat := 10000

/-- The entries that are left when a new one comes: the oldest half goes if no time is over. -/
def makeRoom (now : Nat) (entries : List (Text × Nat)) : List (Text × Nat) :=
  if MAX_ENTRIES ≤ entries.length then
    let swept := entries.filter fun entry => ¬ entry.2 + TTL_MS < now
    if MAX_ENTRIES ≤ swept.length then swept.drop ((MAX_ENTRIES + 1) / 2) else swept
  else entries

def known (d : ReplayDetector) (opId : Text) : Bool :=
  match d.storage with
  | some reserved => reserved.contains opId
  | none => d.inMemory.any fun entry => entry.1 = opId

/-- True when the id is fresh. -/
def reserve (d : ReplayDetector) (opId : Text) (now : Nat) : Bool × ReplayDetector :=
  match d.storage with
  | some reserved =>
    if reserved.contains opId then (false, d)
    else (true, { d with storage := some (opId :: reserved) })
  | none =>
    if d.inMemory.any fun entry => entry.1 = opId then
      (false, { d with
        inMemory := d.inMemory.map fun entry => if entry.1 = opId then (opId, now) else entry })
    else (true, { d with inMemory := makeRoom now d.inMemory ++ [(opId, now)] })

end ReplayDetector

/-! ## Requests -/

/-- The methods that write. -/
inductive Method
  | post
  | put
  | patch
  | delete
  | other
  deriving DecidableEq

/-- What `req.json()` gives; a row's id is its primary key or a random one.  An array ends for the
handler where the payload of an item cannot be built. -/
inductive Body
  | unreadable (message : Text)
  | object (id : Text)
  | array (ids : List Text) (broken : Option Text)

/-- `userId` is what the auth callback gives, unless it throws. -/
structure RestRequest where
  method : Method
  segments : List Text
  userId : Option Text
  idempotencyKey : Option Text
  body : Body

namespace RestRequest

def queryName (r : RestRequest) : Option Text :=
  r.segments[0]?

def rowId (r : RestRequest) : Option Text :=
  r.segments[1]?

/-- The id that a request reserves; an empty key is none. -/
def opId (r : RestRequest) : Option Text :=
  r.queryName.bind fun queryName => r.idempotencyKey.bind fun key =>
    if key = [] then none
    else some (Text.ofChars ['r', 'e', 's', 't', ':'] ++ queryName ++ Text.ofChars [':'] ++ key)

end RestRequest

/-! ## Answers -/

inductive RestBody
  | queries
  | error (message : Text)
  | replayed
  | batch (results : List (Text × Option Text))
  | created (id : Text)
  | ok

structure Response where
  status : Nat
  body : RestBody

def failed (status : Nat) (message : String) : Response :=
  ⟨status, .error (Text.ofChars message.toList)⟩

/-- What the `catch` makes of a message. -/
def thrown (message : Text) : Response :=
  if Text.ofChars "forbidden".toList <:+: message ∨ Text.ofChars "unauthorized".toList <:+: message
  then ⟨403, .error message⟩ else ⟨500, .error message⟩

/-- The answers that come before the key is looked at; `mutates` tells a query's writability. -/
def earlyAnswer (mutates : Text → Option Bool) (r : RestRequest) : Option Response :=
  match r.queryName with
  | none => some ⟨200, .queries⟩
  | some queryName =>
    if mutates queryName = none then some (failed 404 "not_found")
    else if r.userId = none then some (failed 401 "unauthorized")
    else none

/-- The rows that a request writes, or the answer that it gets without a write. -/
def plan (mutates : Text → Option Bool) (r : RestRequest) : Except Response (List Text) :=
  if r.method = .other then .error (failed 405 "method_not_allowed")
  else if r.queryName.bind mutates ≠ some true then .error (failed 405 "readonly")
  else if r.method = .post then
    match r.body with
    | .unreadable message => .error (thrown message)
    | .object id => .ok [id]
    | .array ids _ => .ok ids
  else
    match r.rowId with
    | none => .error (failed 400 "missing_id")
    | some rowId =>
      if r.method = .delete then .ok [rowId]
      else
        match r.body with
        | .unreadable message => .error (thrown message)
        | _ => .ok [rowId]

/-- The answer when every write has been tried; a result is the message it threw, if any. -/
def answer (r : RestRequest) (ids : List Text) (results : List (Option Text)) : Response :=
  match r.method, r.body, results with
  | .post, .array _ (some message), _ => thrown message
  | .post, .array _ none, _ =>
    ⟨if results.all Option.isNone then 201 else 207, .batch (ids.zip results)⟩
  | _, _, some message :: _ => thrown message
  | .post, _, _ => ⟨201, .created (ids.headD [])⟩
  | _, _, _ => ⟨200, .ok⟩

/-! ## Requests at work -/

inductive Phase
  | reserving
  | executing
  | answered (response : Response) (results : List (Option Text))

/-- Every write of the request has been applied. -/
def Phase.succeeded : Phase → Prop
  | .answered ⟨_, .batch results⟩ _ => ∀ result ∈ results, result.2 = none
  | .answered ⟨_, .created _⟩ _ => True
  | .answered ⟨_, .ok⟩ _ => True
  | _ => False

/-- Some write of the request has been applied. -/
def Phase.applied : Phase → Prop
  | .answered _ results => none ∈ results
  | _ => False

/-- A request that has applied a write, or still may. -/
def Phase.live (p : Phase) : Prop :=
  p = .executing ∨ p.applied

structure Entry where
  request : RestRequest
  phase : Phase

/-- `granted`: the request that an id was last fresh for; none after an op of another kind. -/
structure RestState where
  replay : ReplayDetector
  entries : List Entry
  granted : Text → Option Nat

inductive RestEvent
  | arrive (request : RestRequest)
  | reserve (i now : Nat)
  | finish (i : Nat) (results : List (Option Text))
  /-- A sync op reserves an id in the same table. -/
  | reserveOther (opId : Text) (now : Nat)
  /-- The storage deletes ids whose retention is over. -/
  | expire (opIds : List Text)

section Step

variable (mutates : Text → Option Bool)

def arrival (r : RestRequest) : Phase :=
  match earlyAnswer mutates r with
  | some response => .answered response []
  | none => if r.opId = none then .executing else .reserving

def execution (r : RestRequest) (results : List (Option Text)) : Option Phase :=
  match plan mutates r with
  | .error response => if results = [] then some (.answered response []) else none
  | .ok ids =>
    if results.length = ids.length then some (.answered (answer r ids results) results) else none

def RestState.setPhase (s : RestState) (i : Nat) (e : Entry) (phase : Phase) : RestState :=
  { s with entries := s.entries.set i { e with phase } }

def RestState.reserve (s : RestState) (i now : Nat) (e : Entry) (opId : Text) : RestState :=
  if s.replay.known opId then
    { s.setPhase i e (.answered ⟨200, .replayed⟩ []) with
      replay := (s.replay.reserve opId now).2 }
  else
    { s.setPhase i e .executing with
      replay := (s.replay.reserve opId now).2
      granted := Function.update s.granted opId (some i) }

def restStep (s : RestState) : RestEvent → Option RestState
  | .arrive r => some { s with entries := s.entries ++ [⟨r, arrival mutates r⟩] }
  | .reserve i now =>
    s.entries[i]?.bind fun e =>
      match e.phase, e.request.opId with
      | .reserving, some opId => some (s.reserve i now e opId)
      | _, _ => none
  | .finish i results =>
    s.entries[i]?.bind fun e =>
      match e.phase with
      | .executing => (execution mutates e.request results).map (s.setPhase i e)
      | _ => none
  | .reserveOther opId now =>
    some { s with
      replay := (s.replay.reserve opId now).2
      granted := if s.replay.known opId then s.granted
        else Function.update s.granted opId none }
  | .expire opIds =>
    some { s with
      replay := { s.replay with
        storage :=
          s.replay.storage.map fun reserved => reserved.filter fun opId => !opIds.contains opId } }

def restMachine (hasStorage : Bool) : Machine RestState RestEvent where
  init :=
    { replay := { storage := if hasStorage then some [] else none, inMemory := [] }
      entries := []
      granted := fun _ => none }
  step := restStep mutates

end Step

/-! ## What keys promise -/

/-- Two requests of one user to one query with one key. -/
def SameKey (r r' : RestRequest) : Prop :=
  r.opId ≠ none ∧ r.userId = r'.userId ∧ r.queryName = r'.queryName ∧
    r.idempotencyKey = r'.idempotencyKey

namespace RestState

variable (s : RestState)

def phaseOf (i : Nat) : Option Phase :=
  s.entries[i]?.map Entry.phase

def Same (i j : Nat) : Prop :=
  ∃ e e', s.entries[i]? = some e ∧ s.entries[j]? = some e' ∧ SameKey e.request e'.request

def Succeeded (i : Nat) : Prop :=
  ∃ p, s.phaseOf i = some p ∧ p.succeeded

def Applied (i : Nat) : Prop :=
  ∃ p, s.phaseOf i = some p ∧ p.applied

def Live (i : Nat) : Prop :=
  ∃ p, s.phaseOf i = some p ∧ p.live

/-- The request that the id of request `i` was last granted to. -/
def holder (i : Nat) : Option Nat :=
  s.entries[i]?.bind fun e => e.request.opId.bind s.granted

def userOf (i : Nat) : Option Text :=
  s.entries[i]?.bind fun e => e.request.userId

end RestState

/-- What holds after a step. -/
structure Idempotent (s : RestState) (e : RestEvent) (s' : RestState) : Prop where
  /-- A replay stands for an applied request of the same user with the same key. -/
  replayed : ∀ i now response results, e = .reserve i now →
    s'.phaseOf i = some (.answered response results) → ∃ j, s.Same i j ∧ s.Succeeded j
  /-- What has failed is executed when it is tried again. -/
  retried : ∀ i now, e = .reserve i now → (∀ j, s.Same i j → ¬ s.Succeeded j) →
    s'.phaseOf i = some .executing
  /-- No user's key suppresses the write of another. -/
  own : ∀ i now, e = .reserve i now → s'.phaseOf i ≠ some .executing →
    ∀ j, s.holder i = some j → s.userOf j = s.userOf i
  /-- No write is applied under one key twice. -/
  once : ∀ i j, i ≠ j → s'.Same i j → ¬ (s'.Applied i ∧ s'.Applied j)

/-- Whoever finds its id known has it from a request of the same user, query and key that has
succeeded by then; whoever finds it fresh has no such request that has applied a write, or is about
to: nothing that counts has been forgotten. -/
def KeyedWell (s : RestState) : RestEvent → Prop
  | .reserve i _ => ∀ e opId, s.entries[i]? = some e → e.request.opId = some opId →
      if s.replay.known opId then ∃ j, s.granted opId = some j ∧ s.Same i j ∧ s.Succeeded j
      else ∀ j, s.Same i j → ¬ s.Live j
  | _ => True

/-! ## Steps -/

theorem SameKey.opId_eq {r r' : RestRequest} (h : SameKey r r') : r.opId = r'.opId := by
  unfold RestRequest.opId
  rw [h.2.2.1, h.2.2.2]

theorem SameKey.symm {r r' : RestRequest} (h : SameKey r r') : SameKey r' r :=
  ⟨h.opId_eq ▸ h.1, h.2.1.symm, h.2.2.1.symm, h.2.2.2.symm⟩

variable {s s' : RestState} {i j : Nat} {e : Entry} {p : Phase}

theorem RestState.Same.symm (h : s.Same i j) : s.Same j i := by
  obtain ⟨e, e', he, he', hsame⟩ := h
  exact ⟨e', e, he', he, hsame.symm⟩

theorem RestState.Applied.live (h : s.Applied i) : s.Live i := by
  obtain ⟨p, hp, happlied⟩ := h
  exact ⟨p, hp, .inr happlied⟩

theorem phaseOf_setPhase_self (hi : s.entries[i]? = some e) :
    (s.setPhase i e p).phaseOf i = some p := by
  have hlt : i < s.entries.length := (List.getElem?_eq_some_iff.1 hi).1
  simp [RestState.phaseOf, RestState.setPhase, List.getElem?_set_self hlt]

theorem phaseOf_setPhase_of_ne (h : j ≠ i) : (s.setPhase i e p).phaseOf j = s.phaseOf j := by
  simp [RestState.phaseOf, RestState.setPhase, List.getElem?_set_ne h.symm]

theorem request_setPhase (hi : s.entries[i]? = some e) (j : Nat) :
    (s.setPhase i e p).entries[j]?.map Entry.request = s.entries[j]?.map Entry.request := by
  by_cases hj : j = i
  · subst hj
    have hlt : j < s.entries.length := (List.getElem?_eq_some_iff.1 hi).1
    simp [RestState.setPhase, List.getElem?_set_self hlt, hi]
  · simp [RestState.setPhase, List.getElem?_set_ne (Ne.symm hj)]

theorem same_iff (s : RestState) (i j : Nat) :
    s.Same i j ↔ ∃ r r', s.entries[i]?.map Entry.request = some r ∧
      s.entries[j]?.map Entry.request = some r' ∧ SameKey r r' := by
  simp only [RestState.Same, Option.map_eq_some_iff]
  constructor
  · rintro ⟨e, e', he, he', hsame⟩
    exact ⟨_, _, ⟨e, he, rfl⟩, ⟨e', he', rfl⟩, hsame⟩
  · rintro ⟨_, _, ⟨e, he, rfl⟩, ⟨e', he', rfl⟩, hsame⟩
    exact ⟨e, e', he, he', hsame⟩

theorem same_setPhase (hi : s.entries[i]? = some e) (j k : Nat) :
    (s.setPhase i e p).Same j k ↔ s.Same j k := by
  rw [same_iff, same_iff, request_setPhase hi, request_setPhase hi]

/-- At most one request of a user, a query and a key is or will be applied. -/
def OneLive (s : RestState) : Prop :=
  ∀ i j, i ≠ j → s.Same i j → ¬ (s.Live i ∧ s.Live j)

/-- A phase that is live only when the request was live before leaves one live request. -/
theorem oneLive_setPhase (hs : OneLive s) (hi : s.entries[i]? = some e)
    (hlive : p.live → s.Live i ∨ ∀ j, s.Same i j → ¬ s.Live j) :
    OneLive (s.setPhase i e p) := by
  have hother : ∀ {j}, j ≠ i → (s.setPhase i e p).Live j → s.Live j := by
    rintro j hj ⟨q, hq, hql⟩
    exact ⟨q, phaseOf_setPhase_of_ne hj ▸ hq, hql⟩
  have hself : (s.setPhase i e p).Live i → p.live := by
    rintro ⟨q, hq, hql⟩
    rw [phaseOf_setPhase_self hi, Option.some_inj] at hq
    exact hq ▸ hql
  -- a pair with `i` in it: what `i` is allowed keeps the other one from being live
  have hpair : ∀ j, j ≠ i → s.Same i j → (s.setPhase i e p).Live i →
      ¬ (s.setPhase i e p).Live j := by
    intro j hj hsame hli hlj
    rcases hlive (hself hli) with hbefore | hnone
    · exact hs i j hj.symm hsame ⟨hbefore, hother hj hlj⟩
    · exact hnone j hsame (hother hj hlj)
  intro j k hjk hsame hboth
  rw [same_setPhase hi] at hsame
  by_cases hj : j = i
  · subst hj
    exact hpair k hjk.symm hsame hboth.1 hboth.2
  · by_cases hk : k = i
    · subst hk
      exact hpair j hj hsame.symm hboth.2 hboth.1
    · exact hs j k hjk hsame ⟨hother hj hboth.1, hother hk hboth.2⟩

theorem not_live_arrival (mutates : Text → Option Bool) {r : RestRequest} (h : r.opId ≠ none) :
    ¬ (arrival mutates r).live := by
  unfold arrival
  split
  · rintro (hp | hp)
    · cases hp
    · exact absurd hp List.not_mem_nil
  · rw [if_neg h]
    rintro (hp | hp)
    · cases hp
    · exact hp

theorem oneLive_arrive (mutates : Text → Option Bool) (hs : OneLive s) (r : RestRequest) :
    OneLive { s with entries := s.entries ++ [⟨r, arrival mutates r⟩] } := by
  intro i j hij hsame hboth
  obtain ⟨e, e', he, he', hkey⟩ := hsame
  -- the request that has come in last is not live when it has a key
  have hold : ∀ {k : Nat} {e : Entry}, (s.entries ++ [⟨r, arrival mutates r⟩])[k]? = some e →
      e.request.opId ≠ none → e.phase.live → s.entries[k]? = some e := by
    intro k e he hop hlive
    rcases Nat.lt_or_ge k s.entries.length with hk | hk
    · rwa [List.getElem?_append_left hk] at he
    · rw [List.getElem?_append_right hk, List.getElem?_singleton] at he
      split at he
      · cases he
        exact absurd hlive (not_live_arrival mutates hop)
      · cases he
  have hphase : ∀ {k : Nat} {e : Entry}, (s.entries ++ [⟨r, arrival mutates r⟩])[k]? = some e →
      RestState.Live { s with entries := s.entries ++ [⟨r, arrival mutates r⟩] } k →
        e.phase.live := by
    rintro k e he ⟨p, hp, hlive⟩
    simp only [RestState.phaseOf, he, Option.map_some, Option.some_inj] at hp
    exact hp ▸ hlive
  have hi := hold he hkey.1 (hphase he hboth.1)
  have hj := hold he' hkey.symm.1 (hphase he' hboth.2)
  refine hs i j hij ⟨e, e', hi, hj, hkey⟩ ⟨⟨e.phase, ?_, hphase he hboth.1⟩,
    ⟨e'.phase, ?_, hphase he' hboth.2⟩⟩
  · simp [RestState.phaseOf, hi]
  · simp [RestState.phaseOf, hj]

section Runs

variable {mutates : Text → Option Bool}

theorem reserve_cases {now : Nat} (h : restStep mutates s (.reserve i now) = some s') :
    ∃ e opId, s.entries[i]? = some e ∧ e.phase = .reserving ∧ e.request.opId = some opId ∧
      s' = s.reserve i now e opId := by
  obtain ⟨e, he, h⟩ := Option.bind_eq_some_iff.1 h
  split at h
  · rename_i opId hphase hop
    cases h
    exact ⟨e, opId, he, hphase, hop, rfl⟩
  · cases h

theorem finish_cases {results : List (Option Text)}
    (h : restStep mutates s (.finish i results) = some s') :
    ∃ e p, s.entries[i]? = some e ∧ e.phase = .executing ∧ s' = s.setPhase i e p := by
  obtain ⟨e, he, h⟩ := Option.bind_eq_some_iff.1 h
  split at h
  · rename_i hphase
    obtain ⟨p, -, rfl⟩ := Option.map_eq_some_iff.1 h
    exact ⟨e, p, he, hphase, rfl⟩
  · cases h

theorem oneLive_step {ev : RestEvent} (hs : OneLive s) (hg : KeyedWell s ev)
    (hstep : restStep mutates s ev = some s') : OneLive s' := by
  cases ev with
  | arrive r =>
      cases hstep
      exact oneLive_arrive mutates hs r
  | reserve i now =>
      obtain ⟨e, opId, he, -, hop, rfl⟩ := reserve_cases hstep
      have hkey := hg e opId he hop
      unfold RestState.reserve
      split
      · apply oneLive_setPhase hs he
        rintro (hp | hp)
        · cases hp
        · exact absurd hp List.not_mem_nil
      · rename_i hfresh
        rw [if_neg hfresh] at hkey
        exact oneLive_setPhase hs he fun _ => .inr hkey
  | finish i results =>
      obtain ⟨e, p, he, hphase, rfl⟩ := finish_cases hstep
      apply oneLive_setPhase hs he
      intro _
      exact .inl ⟨e.phase, by simp [RestState.phaseOf, he], .inl hphase⟩
  | reserveOther opId now =>
      cases hstep
      exact hs
  | expire opIds =>
      cases hstep
      exact hs

theorem oneLive_of_reach {hasStorage : Bool}
    (h : (restMachine mutates hasStorage).Reach KeyedWell s) : OneLive s := by
  have hstart : OneLive (restMachine mutates hasStorage).init := by
    rintro i j - ⟨e, -, he, -⟩
    cases he
  exact h.invariant (P := OneLive) hstart fun hs hg hstep => oneLive_step hs hg hstep

theorem phaseOf_reserve {now : Nat} {opId : Text} (hi : s.entries[i]? = some e) :
    (s.reserve i now e opId).phaseOf i =
      some (if s.replay.known opId then .answered ⟨200, .replayed⟩ [] else .executing) := by
  unfold RestState.reserve
  split
  · exact phaseOf_setPhase_self hi
  · exact phaseOf_setPhase_self hi

end Runs

/-- `POST /api/posts` with the key `k`. -/
def postBy (user : Char) : RestRequest where
  method := .post
  segments := [Text.ofChars ['p', 'o', 's', 't', 's']]
  userId := some (Text.ofChars [user])
  idempotencyKey := some (Text.ofChars ['k'])
  body := .object (Text.ofChars ['1'])

def writable : Text → Option Bool :=
  fun _ => some true

def oneRequest (user : Char) : RestState :=
  { (restMachine writable true).init with entries := [⟨postBy user, .reserving⟩] }

/-- A second request with the key of the first, whose only write had the result. -/
def secondTry (first second : Char) (result : Option Text) : RestState :=
  ((restMachine writable true).run [.arrive (postBy first), .reserve 0 0, .finish 0 [result],
    .arrive (postBy second)]).getD (restMachine writable true).init

def boom : Text :=
  Text.ofChars ['b', 'o', 'o', 'm']

end Rest
end Server
end Reflectdb
