import Reflectdb.Lib.JsonText
import Reflectdb.Lib.Machine
import Mathlib.Data.List.Perm.Basic
import Mathlib.Logic.Function.Basic

/-!
# useSync — the subscriptions that mounted hooks share

A reference count and a text of the params stand in for the hooks of a table.  The text leaves out
nested members that are not named like a member at the top, and a release does not say whose params
go: either way the client can be left with params that no mounted hook has.
-/

namespace Reflectdb
namespace Client
namespace UseSync

open Lib JsonText

/-! ## The text of the params -/

/-- `Record<string, unknown>`. -/
abbrev Params : Type :=
  List Field

mutual

/-- The members that `JSON.stringify` serialises when it is given a list of names. -/
def keepNamed (names : List Text) : Value → Value
  | .arr elems => .arr (keepElems names elems)
  | .obj fields => .obj (keepFields names fields)
  | v => v

def keepElems (names : List Text) : List Value → List Value
  | [] => []
  | x :: xs => keepNamed names x :: keepElems names xs

def keepFields (names : List Text) : List Field → List Field
  | [] => []
  | (k, x) :: fs =>
    if names.contains k then (k, keepNamed names x) :: keepFields names fs
    else keepFields names fs

end

/-- What is left of the params when their own keys are the names, at every depth. -/
def kept (params : Params) : Value :=
  keepNamed (params.map Prod.fst) (.obj params)

/-- `JSON.stringify(params, names)` writes the members in the order of the sorted names. -/
def stableKey : Option Params → Text
  | none => []
  | some params => stableStringify (kept params)

/-- Equal as JSON values up to the order of keys, or both absent. -/
def SameParams : Option Params → Option Params → Prop
  | none, none => True
  | some p, some q => SameJson (.obj p) (.obj q)
  | _, _ => False

/-- The same but for nested members that are not named like one at the top. -/
def KeyedAlike : Option Params → Option Params → Prop
  | none, none => True
  | some p, some q => SameJson (kept p) (kept q)
  | _, _ => False

theorem SameParams.refl (p : Option Params) : SameParams p p := by
  cases p with
  | none => trivial
  | some p => exact Eq.refl (canonical (.obj p))

theorem stableKey_some_ne_nil (params : Params) : stableKey (some params) ≠ [] := by
  simp [stableKey, kept, keepNamed, stableStringify]

theorem stableKey_eq_iff {p q : Option Params} : stableKey p = stableKey q ↔ KeyedAlike p q := by
  cases p with
  | none =>
      cases q with
      | none => exact iff_of_true rfl trivial
      | some q => exact iff_of_false (fun h => stableKey_some_ne_nil q h.symm) id
  | some p =>
      cases q with
      | none => exact iff_of_false (stableKey_some_ne_nil p) id
      | some q => exact stableStringify_eq_iff

/-! ## The client -/

inductive ClientCall
  | sync (table : Text) (params : Option Params) (window : Option Nat)
  | unsync (table : Text)

/-- The subscriptions of a client, and the calls that set them. -/
structure SyncClient where
  syncedTables : Text → Bool
  syncParams : Text → Option Params
  syncOptions : Text → Option Nat
  calls : List ClientCall

namespace SyncClient

def sync (c : SyncClient) (table : Text) (params : Option Params) (window : Option Nat) :
    SyncClient where
  syncedTables := Function.update c.syncedTables table true
  syncParams := if params.isSome then Function.update c.syncParams table params else c.syncParams
  syncOptions := if window.isSome then Function.update c.syncOptions table window
    else c.syncOptions
  calls := c.calls ++ [.sync table params window]

def unsync (c : SyncClient) (table : Text) : SyncClient where
  syncedTables := Function.update c.syncedTables table false
  syncParams := Function.update c.syncParams table none
  syncOptions := Function.update c.syncOptions table none
  calls := c.calls ++ [.unsync table]

end SyncClient

/-! ## The hooks -/

structure Hook where
  table : Text
  params : Option Params
  window : Option Nat

/-- `tracked`: the client has an entry in the two weak maps. -/
structure Hooks where
  client : SyncClient
  tracked : Bool
  counts : Text → Option Nat
  keys : Text → Option Text
  mounted : List Hook

def acquireSync (s : Hooks) (table : Text) (params : Option Params) (window : Option Nat) :
    Hooks :=
  let key := stableKey params
  let prev := s.keys table
  let cnt := (s.counts table).getD 0
  let held : Hooks :=
    if cnt = 0 ∨ prev ≠ some key then
      let client := if prev ≠ none ∧ prev ≠ some key then s.client.unsync table else s.client
      { s with
        client := client.sync table params window
        keys := Function.update s.keys table (some key) }
    else s
  { held with tracked := true, counts := Function.update held.counts table (some (cnt + 1)) }

def releaseSync (s : Hooks) (table : Text) : Hooks :=
  if s.tracked = false then s
  else
    let cnt := (s.counts table).getD 1 - 1
    if cnt = 0 then
      { s with
        counts := Function.update s.counts table none
        keys := Function.update s.keys table none
        client := s.client.unsync table }
    else { s with counts := Function.update s.counts table (some cnt) }

inductive HookEvent
  | mount (hook : Hook)
  | unmount (i : Nat)

def Hooks.mount (s : Hooks) (h : Hook) : Hooks :=
  { acquireSync s h.table h.params h.window with mounted := h :: s.mounted }

def Hooks.unmount (s : Hooks) (i : Nat) (h : Hook) : Hooks :=
  { releaseSync s h.table with mounted := s.mounted.eraseIdx i }

def hooksStep (s : Hooks) : HookEvent → Option Hooks
  | .mount h => some (s.mount h)
  | .unmount i => s.mounted[i]?.map (s.unmount i)

def hooksMachine : Machine Hooks HookEvent where
  init :=
    { client :=
        { syncedTables := fun _ => false
          syncParams := fun _ => none
          syncOptions := fun _ => none
          calls := [] }
      tracked := false
      counts := fun _ => none
      keys := fun _ => none
      mounted := [] }
  step := hooksStep

/-! ## What a call must leave behind -/

def Used (hooks : List Hook) (table : Text) : Prop :=
  ∃ h ∈ hooks, h.table = table

/-- Some hook of the table has these params. -/
def HasParams (hooks : List Hook) (table : Text) (params : Option Params) : Prop :=
  ∃ h ∈ hooks, h.table = table ∧ SameParams params h.params

structure InStep (s : Hooks) (e : HookEvent) (s' : Hooks) : Prop where
  subscribed : ∀ table, s'.client.syncedTables table = true ↔ Used s'.mounted table
  params : ∀ table, s'.client.syncedTables table = true →
    HasParams s'.mounted table (s'.client.syncParams table)
  resubscribes : ∀ h, e = .mount h → s.client.syncedTables h.table = true →
    ¬ SameParams (s.client.syncParams h.table) h.params →
      .sync h.table h.params h.window ∈ s'.client.calls.drop s.client.calls.length

/-- New params that differ from the active ones are keyed apart from them, and a hook that leaves
others behind on its table leaves one that has the active params. -/
def KeepsParams (s : Hooks) : HookEvent → Prop
  | .mount h => Used s.mounted h.table → KeyedAlike (s.client.syncParams h.table) h.params →
      SameParams (s.client.syncParams h.table) h.params
  | .unmount i => ∀ h, s.mounted[i]? = some h → Used (s.mounted.eraseIdx i) h.table →
      HasParams (s.mounted.eraseIdx i) h.table (s.client.syncParams h.table)

/-! ## One table at a time -/

/-- What the maps and the client hold for a table. -/
structure View where
  count : Option Nat
  key : Option Text
  synced : Bool
  params : Option Params

def Hooks.view (s : Hooks) (table : Text) : View where
  count := s.counts table
  key := s.keys table
  synced := s.client.syncedTables table
  params := s.client.syncParams table

def users (hooks : List Hook) (table : Text) : Nat :=
  hooks.countP fun h => h.table = table

/-- A table that `n` hooks use. -/
def View.Holds (v : View) (n : Nat) : Prop :=
  if n = 0 then v = ⟨none, none, false, none⟩
  else v = ⟨some n, some (stableKey v.params), true, v.params⟩

theorem users_ne_zero_iff {hooks : List Hook} {table : Text} :
    users hooks table ≠ 0 ↔ Used hooks table := by
  simp [users, Used, List.countP_eq_zero]

theorem View.Holds.synced_iff {v : View} {n : Nat} (h : v.Holds n) : v.synced = true ↔ n ≠ 0 := by
  unfold View.Holds at h
  split at h
  · rename_i hn
    simp [h, hn]
  · rename_i hn
    exact iff_of_true (by rw [h]) hn

variable {s : Hooks} {table other : Text} {params : Option Params} {window : Option Nat}

theorem view_acquireSync_of_ne (h : other ≠ table) :
    (acquireSync s table params window).view other = s.view other := by
  unfold acquireSync Hooks.view
  simp only [SyncClient.sync, SyncClient.unsync]
  split_ifs <;> simp [Function.update_of_ne h]

theorem view_releaseSync_of_ne (h : other ≠ table) :
    (releaseSync s table).view other = s.view other := by
  unfold releaseSync Hooks.view
  simp only [SyncClient.unsync]
  split_ifs <;> simp [Function.update_of_ne h]

/-- The params of a table's subscription after a mount: the new ones unless their key is the
same. -/
def paramsAfter (v : View) (n : Nat) (params : Option Params) : Option Params :=
  if n = 0 ∨ stableKey v.params ≠ stableKey params then params else v.params

theorem view_acquireSync {n : Nat} (h : (s.view table).Holds n) :
    (acquireSync s table params window).view table =
      ⟨some (n + 1), some (stableKey (paramsAfter (s.view table) n params)), true,
        paramsAfter (s.view table) n params⟩ := by
  unfold View.Holds at h
  split at h
  · rename_i hn
    -- nobody uses the table: the client subscribes, and holds no params from before
    have hcount : s.counts table = none := congrArg View.count h
    have hkey : s.keys table = none := congrArg View.key h
    have hparams : s.client.syncParams table = none := congrArg View.params h
    cases params <;>
      simp [acquireSync, Hooks.view, SyncClient.sync, paramsAfter, hcount, hkey, hparams, hn]
  · rename_i hn
    have hcount : s.counts table = some n := congrArg View.count h
    have hkey : s.keys table = some (stableKey (s.client.syncParams table)) :=
      congrArg View.key h
    have hsynced : s.client.syncedTables table = true := congrArg View.synced h
    by_cases hsame : stableKey (s.client.syncParams table) = stableKey params
    · simp [acquireSync, Hooks.view, paramsAfter, hcount, hkey, hsynced, hn, hsame]
    · cases params <;>
        simp [acquireSync, Hooks.view, SyncClient.sync, SyncClient.unsync, paramsAfter, hcount,
          hkey, hn, hsame]

theorem view_releaseSync {n : Nat} (h : (s.view table).Holds (n + 1))
    (htracked : s.tracked = true) :
    (releaseSync s table).view table =
      if n = 0 then ⟨none, none, false, none⟩ else { s.view table with count := some n } := by
  have hcount : s.counts table = some (n + 1) := congrArg View.count h
  unfold releaseSync
  by_cases hn : n = 0
  · simp [Hooks.view, SyncClient.unsync, htracked, hcount, hn]
  · simp [Hooks.view, htracked, hcount, hn]

/-! ## All runs -/

structure Inv (s : Hooks) : Prop where
  tracked : s.mounted ≠ [] → s.tracked = true
  holds : ∀ table, (s.view table).Holds (users s.mounted table)

theorem users_cons (h : Hook) (hooks : List Hook) (t : Text) :
    users (h :: hooks) t = users hooks t + if h.table = t then 1 else 0 := by
  simp [users, List.countP_cons]

/-- The hook at a place, with the others, makes the list. -/
theorem perm_eraseIdx {hooks : List Hook} {i : Nat} {h : Hook} (hi : hooks[i]? = some h) :
    (h :: hooks.eraseIdx i).Perm hooks := by
  obtain ⟨hlt, rfl⟩ := List.getElem?_eq_some_iff.1 hi
  exact List.getElem_cons_eraseIdx_perm hlt

theorem users_eraseIdx {hooks : List Hook} {i : Nat} {h : Hook} (hi : hooks[i]? = some h)
    (t : Text) :
    users hooks t = users (hooks.eraseIdx i) t + if h.table = t then 1 else 0 := by
  rw [← users_cons]
  exact ((perm_eraseIdx hi).countP_eq _).symm

theorem View.holds_succ (n : Nat) (p : Option Params) :
    (⟨some (n + 1), some (stableKey p), true, p⟩ : View).Holds (n + 1) := by
  rw [View.Holds, if_neg (Nat.succ_ne_zero n)]

theorem View.Holds.params_eq {v : View} {n : Nat} (h : v.Holds n) (hn : n ≠ 0) :
    v = ⟨some n, some (stableKey v.params), true, v.params⟩ := by
  rwa [View.Holds, if_neg hn] at h

theorem view_mount (hi : Inv s) (h : Hook) (t : Text) :
    (s.mount h).view t =
      if h.table = t then
        ⟨some (users s.mounted t + 1),
          some (stableKey (paramsAfter (s.view t) (users s.mounted t) h.params)), true,
          paramsAfter (s.view t) (users s.mounted t) h.params⟩
      else s.view t := by
  split
  · rename_i ht
    subst ht
    exact view_acquireSync (hi.holds h.table)
  · rename_i ht
    exact view_acquireSync_of_ne (Ne.symm ht)

theorem view_unmount (hi : Inv s) {i : Nat} {h : Hook} (hh : s.mounted[i]? = some h) (t : Text) :
    (s.unmount i h).view t =
      if h.table = t then
        if users (s.mounted.eraseIdx i) t = 0 then ⟨none, none, false, none⟩
        else { s.view t with count := some (users (s.mounted.eraseIdx i) t) }
      else s.view t := by
  split
  · rename_i ht
    subst ht
    have hholds := hi.holds h.table
    rw [users_eraseIdx hh, if_pos rfl] at hholds
    have hne : s.mounted ≠ [] := by
      intro hnil
      rw [hnil] at hh
      cases hh
    exact view_releaseSync hholds (hi.tracked hne)
  · rename_i ht
    exact view_releaseSync_of_ne (Ne.symm ht)

theorem inv_mount (hi : Inv s) (h : Hook) : Inv (s.mount h) := by
  refine ⟨fun _ => rfl, fun t => ?_⟩
  have husers : users (s.mount h).mounted t = users s.mounted t + if h.table = t then 1 else 0 :=
    users_cons h s.mounted t
  rw [view_mount hi, husers]
  split
  · exact View.holds_succ _ _
  · exact hi.holds t

theorem tracked_releaseSync : (releaseSync s table).tracked = s.tracked := by
  unfold releaseSync
  dsimp only
  split_ifs <;> rfl

theorem inv_unmount (hi : Inv s) {i : Nat} {h : Hook} (hh : s.mounted[i]? = some h) :
    Inv (s.unmount i h) := by
  refine ⟨fun _ => ?_, fun t => ?_⟩
  · have htracked : (s.unmount i h).tracked = s.tracked := tracked_releaseSync
    rw [htracked]
    apply hi.tracked
    intro hnil
    rw [hnil] at hh
    cases hh
  · have hholds := hi.holds t
    have husers := users_eraseIdx hh t
    rw [view_unmount hi hh]
    change View.Holds _ (users (s.mounted.eraseIdx i) t)
    by_cases ht : h.table = t
    · rw [if_pos ht] at husers ⊢
      split
      · rename_i hzero
        rw [hzero]
        rfl
      · rename_i hne
        have hview := hholds.params_eq (by omega)
        rw [View.Holds, if_neg hne]
        rw [hview]
    · rw [if_neg ht] at husers ⊢
      rwa [← Nat.add_zero (users (s.mounted.eraseIdx i) t), ← husers]

/-! ## Runs that keep the params -/

/-- The params of every subscription are those of a mounted hook. -/
def Current (s : Hooks) : Prop :=
  ∀ table, s.client.syncedTables table = true →
    HasParams s.mounted table (s.client.syncParams table)

theorem subscribed_iff (hi : Inv s) (table : Text) :
    s.client.syncedTables table = true ↔ Used s.mounted table := by
  rw [← users_ne_zero_iff]
  exact (hi.holds table).synced_iff

theorem HasParams.cons {hooks : List Hook} {t : Text} {p : Option Params}
    (h : HasParams hooks t p) (hook : Hook) : HasParams (hook :: hooks) t p := by
  obtain ⟨h, hh, ht⟩ := h
  exact ⟨h, List.mem_cons_of_mem _ hh, ht⟩

/-- A mount keeps the params of the subscriptions those of mounted hooks. -/
theorem current_mount (hi : Inv s) (hc : Current s) (h : Hook) : Current (s.mount h) := by
  intro t hsynced
  have hview := view_mount hi h t
  have hp : (s.mount h).client.syncParams t = ((s.mount h).view t).params := rfl
  rw [hp, hview]
  split
  · rename_i ht
    subst ht
    change HasParams (h :: s.mounted) h.table (paramsAfter _ _ _)
    unfold paramsAfter
    split
    · exact ⟨h, List.mem_cons_self, rfl, SameParams.refl h.params⟩
    · rename_i hsame
      have hbusy : users s.mounted h.table ≠ 0 := fun hzero => hsame (.inl hzero)
      have hold := hc h.table ((subscribed_iff hi _).2 (users_ne_zero_iff.1 hbusy))
      exact hold.cons h
  · rename_i ht
    have hold : s.client.syncedTables t = true := by
      have := congrArg View.synced hview
      rw [if_neg ht] at this
      exact this.symm.trans hsynced
    exact (hc t hold).cons h

theorem hasParams_eraseIdx {i : Nat} {h : Hook} (hh : s.mounted[i]? = some h) {t : Text}
    (ht : h.table ≠ t) {p : Option Params} (hp : HasParams s.mounted t p) :
    HasParams (s.mounted.eraseIdx i) t p := by
  obtain ⟨h', hmem, ht', hsame⟩ := hp
  rcases List.mem_cons.1 ((perm_eraseIdx hh).mem_iff.2 hmem) with rfl | hrest
  · exact absurd ht' ht
  · exact ⟨h', hrest, ht', hsame⟩

/-- After an unmount the params are those of a mounted hook iff one that is left has them. -/
theorem current_unmount_iff (hi : Inv s) (hc : Current s) {i : Nat} {h : Hook}
    (hh : s.mounted[i]? = some h) :
    Current (s.unmount i h) ↔
      (Used (s.mounted.eraseIdx i) h.table →
        HasParams (s.mounted.eraseIdx i) h.table (s.client.syncParams h.table)) := by
  have hview := view_unmount hi hh
  have hi' := inv_unmount hi hh
  have hparams : ∀ t, Used (s.mounted.eraseIdx i) t →
      (s.unmount i h).client.syncParams t = s.client.syncParams t := by
    intro t hused
    have hne := users_ne_zero_iff.2 hused
    have := congrArg View.params (hview t)
    rw [if_neg hne] at this
    exact this.trans (by split <;> rfl)
  constructor
  · intro hcurrent hused
    rw [← hparams _ hused]
    exact hcurrent h.table ((subscribed_iff hi' _).2 hused)
  · intro hleft t hsynced
    have hused : Used (s.mounted.eraseIdx i) t := (subscribed_iff hi' t).1 hsynced
    rw [hparams t hused]
    by_cases ht : h.table = t
    · subst ht
      exact hleft hused
    · apply hasParams_eraseIdx hh ht
      apply hc t
      rw [subscribed_iff hi]
      obtain ⟨h', hmem, ht'⟩ := hused
      exact ⟨h', (perm_eraseIdx hh).mem_iff.1 (List.mem_cons_of_mem _ hmem), ht'⟩

theorem calls_mount (hi : Inv s) (h : Hook) (hused : Used s.mounted h.table) :
    (s.mount h).client.calls = s.client.calls ++
      if stableKey (s.client.syncParams h.table) = stableKey h.params then []
      else [.unsync h.table, .sync h.table h.params h.window] := by
  have hview := (hi.holds h.table).params_eq (users_ne_zero_iff.2 hused)
  have hcount : (s.counts h.table).getD 0 ≠ 0 := by
    rw [show s.counts h.table = _ from congrArg View.count hview]
    exact users_ne_zero_iff.2 hused
  have hkey : s.keys h.table = some (stableKey (s.client.syncParams h.table)) :=
    congrArg View.key hview
  unfold Hooks.mount acquireSync
  by_cases hsame : stableKey (s.client.syncParams h.table) = stableKey h.params
  · simp [hcount, hkey, hsame]
  · simp [hkey, hsame, SyncClient.sync, SyncClient.unsync]

/-- A mount on a table in use subscribes again iff the key of the params is a new one. -/
theorem sync_mem_calls_mount (hi : Inv s) (h : Hook) (hused : Used s.mounted h.table) :
    .sync h.table h.params h.window ∈ (s.mount h).client.calls.drop s.client.calls.length ↔
      ¬ KeyedAlike (s.client.syncParams h.table) h.params := by
  rw [calls_mount hi h hused, List.drop_left, ← stableKey_eq_iff]
  split <;> simp_all

theorem current_of_reach (h : hooksMachine.Reach KeepsParams s) : Inv s ∧ Current s := by
  have hstart : Inv hooksMachine.init ∧ Current hooksMachine.init :=
    ⟨⟨fun hne => absurd rfl hne, fun t => rfl⟩, fun t ht => by cases ht⟩
  refine h.invariant (P := fun s => Inv s ∧ Current s) hstart ?_
  intro s s' e hs hg hstep
  cases e with
  | mount h =>
      cases hstep
      exact ⟨inv_mount hs.1 h, current_mount hs.1 hs.2 h⟩
  | unmount i =>
      obtain ⟨h, hh, rfl⟩ := Option.map_eq_some_iff.1 hstep
      exact ⟨inv_unmount hs.1 hh, (current_unmount_iff hs.1 hs.2 hh).2 (hg h hh)⟩

def postsOf (params : Params) : Hook where
  table := Text.ofChars ['p', 'o', 's', 't', 's']
  params := some params
  window := none

/-- `{ tag: "a" }`. -/
def tagged (c : Char) : Params :=
  [(Text.ofChars ['t', 'a', 'g'], .str (Text.ofChars [c]))]

/-- `{ where: { tag: "a" } }`. -/
def nested (c : Char) : Params :=
  [(Text.ofChars ['w', 'h', 'e', 'r', 'e'], .obj (tagged c))]

theorem not_sameParams_tagged : ¬ SameParams (some (tagged 'b')) (some (tagged 'a')) := by
  simp [SameParams, SameJson, sortKeys, tagged, canonical, canonicalFields, Text.ofChars]

theorem not_sameParams_nested : ¬ SameParams (some (nested 'a')) (some (nested 'b')) := by
  simp [SameParams, SameJson, sortKeys, nested, tagged, canonical, canonicalFields, Text.ofChars]

end UseSync
end Client
end Reflectdb
