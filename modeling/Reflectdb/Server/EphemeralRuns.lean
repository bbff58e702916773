import Reflectdb.Server.EphemeralManager
import Reflectdb.Lib.Text

/-!
# Ephemeral runs — the counter, the index and the entries over sequences of calls

The index names an entry by a text that is split again when the client leaves, which gives the entry
back iff no name has a NUL.
-/

namespace Reflectdb
namespace Server

open Core Lib

/-! ## Calls -/

/-- A call on the in-memory store; those that look at the clock come with its reading. -/
inductive StoreCall
  | set (name : EntryName) (userId : String) (data : Record Json) (ttlMs : Option Int) (now : Int)
  | remove (name : EntryName)
  | removeClient (clientId : String)
  | cleanupExpired (now : Int)
  | get (room key clientId : String)

def StoreCall.run (m : EphemeralManager) : StoreCall → EphemeralManager
  | .set name userId data ttlMs now => (m.set name (newState name userId data ttlMs now)).1
  | .remove name => m.remove name
  | .removeClient clientId => m.removeClient clientId
  | .cleanupExpired now => m.cleanupExpired now
  | .get _ _ _ => m

/-- The store after these calls. -/
def afterCalls (maxEntries : Int) (calls : List StoreCall) : EphemeralManager :=
  calls.foldl StoreCall.run (.empty maxEntries)

theorem afterCalls_snoc (maxEntries : Int) (calls : List StoreCall) (call : StoreCall) :
    afterCalls maxEntries (calls ++ [call]) = call.run (afterCalls maxEntries calls) := by
  simp [afterCalls]

/-! ## What is to hold after each call -/

/-- The counter counts the entries, a client's index lists its entries, and when the client is
removed these go and no others. -/
structure InStep (m : EphemeralManager) : Prop where
  count : m.entryCount = m.store.keys.length
  index : ∀ c name, name ∈ (m.clientIndex c).map unpack ↔ name ∈ m.store ∧ name.clientId = c
  removal : ∀ c room key clientId, (m.removeClient c).get room key clientId =
    if clientId = c then none else m.get room key clientId

/-- What a new entry is called has no NUL. -/
def StoreCall.Readable (m : EphemeralManager) : StoreCall → Prop
  | .set name _ _ _ _ => name.NulFree ∨ m.full name = true
  | _ => True

/-! ## Names that are read back -/

/-- What a split gives back has no NUL, whatever was packed. -/
theorem nulFree_unpack (value : String) : (unpack value).NulFree := by
  have hpart : ∀ i, nul ∉ (((value.toList.splitOn nul).map String.ofList).getD i "").toList := by
    intro i
    rw [List.getD_eq_getElem?_getD, List.getElem?_map]
    cases hi : (value.toList.splitOn nul)[i]? with
    | none => exact List.not_mem_nil
    | some part =>
        rw [Option.map_some, Option.getD_some, String.toList_ofList]
        exact Lib.notMem_of_mem_splitOn (List.mem_of_getElem? hi)
  exact ⟨hpart 0, hpart 1, hpart 2⟩

/-! ## The invariant and the calls -/

namespace ManagerInv

variable {m : EphemeralManager}

theorem inStep (h : ManagerInv m) : InStep m where
  count := h.count
  index c name := by
    rw [List.mem_map]
    constructor
    · rintro ⟨value, hvalue, rfl⟩
      rcases (h.index c value).1 hvalue with ⟨name, hname, hc, rfl⟩
      rw [(h.nulFree name hname).unpack_packed]
      exact ⟨hname, hc⟩
    · rintro ⟨hname, hc⟩
      exact ⟨packed name, (h.index c _).2 ⟨name, hname, hc, rfl⟩,
        (h.nulFree name hname).unpack_packed⟩
  removal c room key clientId := (EphemeralManager.removeClient_spec h c).2 ⟨room, key, clientId⟩

theorem run (h : ManagerInv m) {call : StoreCall} (hcall : call.Readable m) :
    ManagerInv (call.run m) := by
  cases call with
  | set name userId data ttlMs now =>
      rcases hcall with hname | hfull
      · exact EphemeralManager.inv_set h hname _
      · rw [StoreCall.run, EphemeralManager.set, if_pos hfull]
        exact h
  | remove name => exact EphemeralManager.inv_remove h name
  | removeClient clientId => exact (EphemeralManager.removeClient_spec h clientId).1
  | cleanupExpired now => exact (EphemeralManager.cleanupExpired_spec h now).1
  | get room key clientId => exact h

end ManagerInv

/-- An entry whose name has a NUL is not what its index text is split into. -/
theorem not_inStep_set {m : EphemeralManager} {name : EntryName} {state : TimedState}
    (hname : ¬ name.NulFree) (hfull : m.full name = false) : ¬ InStep (m.set name state).1 := by
  intro h
  have hstored : name ∈ (m.set name state).1.store := by
    rw [← AList.lookup_isSome, EphemeralManager.lookup_set name name state hfull, if_pos rfl]
    rfl
  rcases List.mem_map.1 ((h.index name.clientId name).2 ⟨hstored, rfl⟩) with ⟨value, -, hvalue⟩
  exact hname (hvalue ▸ nulFree_unpack value)

/-- The three are in step after every call iff no name with a NUL was given an entry. -/
theorem inStep_iff_readable (maxEntries : Int) (calls : List StoreCall) :
    (∀ before after, calls = before ++ after → InStep (afterCalls maxEntries before)) ↔
      ∀ before call after, calls = before ++ call :: after →
        call.Readable (afterCalls maxEntries before) := by
  constructor
  · intro h before call after hcalls
    have hafter := h (before ++ [call]) after (by rw [hcalls, List.append_assoc]; rfl)
    rw [afterCalls_snoc] at hafter
    cases call with
    | set name userId data ttlMs now =>
        by_cases hname : name.NulFree
        · exact Or.inl hname
        · right
          by_contra hfull
          exact not_inStep_set hname (Bool.not_eq_true _ ▸ hfull) hafter
    | _ => trivial
  · intro h before after hcalls
    -- along the calls, by what each does to the invariant
    have hinv : ManagerInv (afterCalls maxEntries before) := by
      induction before using List.reverseRecOn generalizing after with
      | nil => exact EphemeralManager.inv_empty maxEntries
      | append_singleton before call ih =>
          rw [List.append_assoc] at hcalls
          rw [afterCalls_snoc]
          exact (ih (call :: after) hcalls).run (h before call after hcalls)
    exact hinv.inStep

/-! ## A name with a NUL -/

/-- The cursor of the client "x", and an entry of "c" under the key "cursor\x00x". -/
def nulCalls : List StoreCall :=
  [.set ⟨"r", "cursor", "x"⟩ "" ∅ none 0, .set ⟨"r", "cursor\x00x", "c"⟩ "" ∅ none 0]

/-- When "c" leaves, its entry stays and the one of "x" goes. -/
theorem not_inStep_nul :
    ¬ ∀ (maxEntries : Int) (calls : List StoreCall), InStep (afterCalls maxEntries calls) := by
  intro h
  have hstays := (h 10 nulCalls).removal "c" "r" "cursor\x00x" "c"
  rw [if_pos rfl] at hstays
  have hstill : (((afterCalls 10 nulCalls).removeClient "c").get "r" "cursor\x00x" "c").isSome =
      true := by
    decide +kernel
  rw [hstays] at hstill
  cases hstill

end Server
end Reflectdb
