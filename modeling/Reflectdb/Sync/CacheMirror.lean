import Reflectdb.Lib.Machine
import Reflectdb.Sync.ChannelSteps

/-!
# Cache mirror — client, cache and query once everything has finished

In every run whose steps come in the order of `SyncGuard`, a channel with nothing under way has the
query's current result in the cache and on the client.  `load_more` beside a write breaks that
order.
-/

namespace Reflectdb
namespace Sync

open Core Client Server

/-- Nothing of the channel is under way. -/
def Channel.quiescent (ch : Channel) : Bool :=
  ch.inbox.isEmpty && !ch.bootstrapScheduled && ch.handler.isNone && ch.jobs.isEmpty &&
    ch.lock.isNone && !ch.owed

/-- Cache and client have the query's current result, or nothing without a subscription. -/
def Settled (cfg : SyncConfig) (s : SyncState) (c : ChannelId) : Prop :=
  let ch := s.chans c
  match ch.subscription with
  | some sub =>
    let rows := byRowId (cfg.pk c.2) (cfg.rows c ⟨sub.params, sub.limit, s.version⟩)
    (∀ rowId, (ch.cached.getD ∅).lookup rowId = rows.lookup rowId) ∧
      Mirrors (cfg.pk c.2) ch.table rows
  | none => ch.cached = none ∧ ∀ key, heldRow ch.table key = none

/-- No client has subscribed yet. -/
def SyncState.initial (clock : Hlc) : SyncState :=
  ⟨0, clock, fun _ => .empty⟩

theorem syncInv_initial (cfg : SyncConfig) (clock : Hlc) : SyncInv cfg (.initial clock) := by
  intro c
  refine .ofDue (by simp [SyncState.initial, Channel.empty]) ?_ ?_ ?_ (fun _ => rfl) ?_ ?_
  · intro params windowSize post hsuffix
    have hnil := List.suffix_nil.1 hsuffix
    cases hnil
  · intro handler hmem
    cases hmem
  · intro job hjob
    cases hjob
  · intro _ key
    simp [SyncState.initial, Channel.empty, heldRow]
  · intro hends
    cases hends

variable {cfg : SyncConfig} {s : SyncState} {c : ChannelId}

/-- The invariant of a channel with nothing under way. -/
theorem ChannelInv.settled (h : ChannelInv cfg c s.version (s.chans c))
    (hq : (s.chans c).quiescent = true) : Settled cfg s c := by
  simp only [Channel.quiescent, Bool.and_eq_true, List.isEmpty_iff, Option.isNone_iff_eq_none,
    Bool.not_eq_true'] at hq
  rcases hq with ⟨⟨⟨⟨⟨hinbox, hscheduled⟩, hhandler⟩, hjobs⟩, hlock⟩, howed⟩
  have hends : (s.chans c).endsSubscribed = (s.chans c).sub.isSome := by
    simp [Channel.endsSubscribed, hinbox]
  have hnoPending : ¬ (s.chans c).Pending cfg c s.version := by
    rintro (h | ⟨job, hjob, _⟩)
    · simp [howed] at h
    · simp [hjobs] at hjob
  have hrereads : (s.chans c).rereads = none := by simp [Channel.rereads, hhandler]
  have hdelivered : (s.chans c).delivered = none := by simp [Channel.delivered, hhandler]
  have hshown : (s.chans c).shown cfg c = (s.chans c).cached.getD ∅ := by
    simp [Channel.shown, hdelivered, hlock]
  unfold Settled
  dsimp only
  split
  · rename_i sub hsub
    rcases Option.bind_eq_some_iff.1 hsub with ⟨i, hi, _⟩
    have hsteady : (s.chans c).Steady := by
      refine ⟨by simp [hends, hi], ?_, hrereads⟩
      simp [Channel.resetDue, hinbox, hscheduled, hhandler]
    have hcurrent : Current cfg c s.version (s.chans c).seen := by
      rcases h.fresh hsteady.subscribed hsteady.notDue with hseen | ⟨r, hr, _⟩ | hp
      · exact hseen
      · simp [hrereads] at hr
      · exact absurd hp hnoPending
    have hexact := (h.exact hsteady).resolve_left hnoPending
    have htarget : (s.chans c).target = some ⟨sub.params, sub.limit, (s.chans c).seen⟩ := by
      simp [Channel.target, hdelivered, hsub]
    have hrows : ∀ rowId, ((s.chans c).cached.getD ∅).lookup rowId =
        (byRowId (cfg.pk c.2) (cfg.rows c ⟨sub.params, sub.limit, s.version⟩)).lookup rowId := by
      intro rowId
      have heq := hexact _ htarget rowId
      rwa [hshown, hcurrent.rows_eq] at heq
    have hsynced := h.synced hsteady
    rw [hshown] at hsynced
    exact ⟨hrows, (hsynced.congr hrows).mirrors (rowsById_byRowId _ _)⟩
  · rename_i hnone
    have hsub := subscription_eq_none h.valid hnone
    exact ⟨h.uncached hsub, h.unsubscribed (by simp [hends, hsub])⟩

theorem syncInv_of_reach {start : SyncState} (hstart : SyncInv cfg start)
    (h : (syncMachine cfg start).Reach (SyncGuard cfg) s) : SyncInv cfg s :=
  h.invariant (P := SyncInv cfg) hstart fun hi hg hs => hi.step hg hs

/-- The property wanted of every interleaving. -/
def SettlesAlways (cfg : SyncConfig) (clock : Hlc) : Prop :=
  ∀ s, (syncMachine cfg (.initial clock)).Reachable s →
    ∀ c, (s.chans c).quiescent = true → Settled cfg s c

/-! ## Checking a run -/

def takes (t : TableRows) (d : Delta) : Bool :=
  match d.op, t.lookup (.str d.rowId) with
  | .update, some row => (d.payload.getD ∅).keys.all fun c =>
      (row.colClocks.lookup c).all fun held => held < ((d.colClocks.getD ∅).lookup c).getD d.hlc
  | _, existing => !isStale existing d.hlc

theorem taken_of_takes {t : TableRows} {d : Delta} (h : takes t d = true) : Taken t d := by
  unfold takes at h
  unfold Taken
  split
  · rename_i row hop hrow
    intro c hc held hheld
    simp only [hop, hrow, List.all_eq_true] at h
    have hlt := h c (AList.mem_keys.1 hc)
    have hheld' : row.colClocks.lookup c = some held := hheld
    simpa [hheld'] using hlt
  · rename_i hno
    split at h
    · rename_i row hop hrow
      exact absurd hrow (hno row hop)
    · simpa using h

def stringKeyed (pk : String) (rows : List Row) : Bool :=
  rows.all fun row =>
    match column row pk with
    | .str rowId => rowId ≠ ""
    | _ => false

theorem stringKeyed_sound {pk : String} {rows : List Row} (h : stringKeyed pk rows = true) :
    StringKeyed pk rows := by
  intro row hrow
  have hkey := List.all_eq_true.1 h row hrow
  split at hkey
  · rename_i rowId hcol
    exact ⟨rowId, hcol, by simpa using hkey⟩
  · cases hkey

/-- Enough for `Channel.Allows`; pages and subscribers that are passed over are refused. -/
def Channel.allows (cfg : SyncConfig) (c : ChannelId) (ch : Channel) : ChannelEvent → Bool
  | .group _ _ => ch.subscription.all fun sub => sub.windowSize.isNone || sub.bootstrapped
  | .snapshot =>
    match ch.handler with
    | some (.bootstrap _ (.read r)) =>
      ch.endsSubscribed && ch.lock.isNone && decide (ch.seen ≤ r.version) &&
        stringKeyed (cfg.pk c.2) (cfg.rows c r)
    | _ => false
  | .send j =>
    match ch.jobs[j]? with
    | some (.read hlc i r) =>
      ch.endsSubscribed && ch.sub.isSome && ch.delivered.isNone && decide (ch.seen ≤ r.version) &&
        ((ch.deltas cfg c hlc i r).all (takes ch.table) && ch.subscription.all fun sub =>
          decide (r.params = sub.params) && decide ((ch.subs[i]?).bind (·.limit) = sub.limit) &&
            r.limit.all fun l => sub.limit.any (· ≤ l))
    | _ => false
  | .commit => ch.sub.isSome
  | _ => true

theorem Channel.allows_sound {ch : Channel} {e : ChannelEvent} (h : ch.allows cfg c e = true) :
    ch.Allows cfg c e := by
  cases e with
  | group j rep =>
      intro sub hsub hwindow hboot
      have hsub' : ch.subscription = some sub := hsub
      simp only [Channel.allows, hsub', Option.all_some, Bool.or_eq_true] at h
      rcases h with hnone | hdone
      · simp [Option.isNone_iff_eq_none.1 hnone] at hwindow
      · simp [hdone] at hboot
  | snapshot =>
      constructor
      · intro hlc r hhandler
        simp only [Channel.allows, hhandler, Bool.and_eq_true, decide_eq_true_eq] at h
        rcases h with ⟨⟨⟨hends, hlock⟩, hnewer⟩, hkeys⟩
        exact ⟨fun _ => hends, fun _ _ => Option.isNone_iff_eq_none.1 hlock, fun _ _ => hnewer,
          fun _ _ => stringKeyed_sound hkeys⟩
      · intro prevLoaded newLimit r hhandler
        simp [Channel.allows, hhandler] at h
  | send j =>
      intro hlc i r hjob
      simp only [Channel.allows, hjob, Bool.and_eq_true, decide_eq_true_eq] at h
      rcases h with ⟨⟨⟨⟨hends, hsub⟩, hapart⟩, hnewer⟩, htakes, hcurrent⟩
      have hall : ∀ sub ∈ ch.subscription, (r.params = sub.params ∧
          (ch.subs[i]?).bind (·.limit) = sub.limit) ∧
            (r.limit.all fun l => sub.limit.any (· ≤ l)) = true := by
        intro sub hsub
        have hsub' : ch.subscription = some sub := hsub
        simpa only [hsub', Option.all_some, Bool.and_eq_true, decide_eq_true_eq] using hcurrent
      refine ⟨fun _ => hends, fun _ => hsub, fun _ => Option.isNone_iff_eq_none.1 hapart,
        fun _ _ => hnewer, ?_, fun _ sub hsub => (hall sub hsub).1.1, ?_⟩
      · exact fun _ d hd => taken_of_takes (List.all_eq_true.1 htakes d hd)
      · intro _ sub hsub
        refine ⟨(hall sub hsub).1.2, fun l hl => ?_⟩
        have hlimit := (hall sub hsub).2
        have hl' : r.limit = some l := hl
        rw [hl', Option.all_some, Option.any_eq_true] at hlimit
        rcases hlimit with ⟨n, hn, hle⟩
        exact ⟨n, hn, by simpa using hle⟩
  | commit => exact fun _ => h
  | sync params windowSize => trivial
  | sendBootstrap => trivial
  | sendResume => trivial
  | sendLoadMore count => trivial
  | sendUnsync => trivial
  | take skips => trivial
  | query => trivial
  | finish => trivial
  | limitFor j limit => trivial
  | execute j => trivial

def allowsEvent (cfg : SyncConfig) (s : SyncState) : SyncEvent → Bool
  | .eager _ => false
  | .channel c e => (s.chans c).allows cfg c e
  | _ => true

theorem syncGuard_of_allowsEvent {e : SyncEvent} (h : allowsEvent cfg s e = true) :
    SyncGuard cfg s e := by
  cases e with
  | eager e => cases h
  | channel c e => exact Channel.allows_sound h
  | write => trivial
  | broadcast table hlc reaches => trivial
  | stamp hlc => trivial

/-! ## `load_more` beside a write -/

/-- One row `a`; the write puts `b` before it. -/
def todosSync : SyncConfig where
  pk _ := "id"
  tableDependencies _ := ["todos"]
  writtenTable _ := "todos"
  result _ _ version := if version = 0 then [QueryShape.todoRow "a"]
    else [QueryShape.todoRow "b", QueryShape.todoRow "a"]
  frame _ _ _ h := by simp at h

def todosChannel : ChannelId :=
  (0, "todos")

/-- Declare and bootstrap, each handled. -/
def bootstrapEvents (windowSize : Option Nat) : List SyncEvent :=
  [.sync emptyParams windowSize, .take false, .sendBootstrap, .take false, .query, .snapshot,
    .finish].map (.channel todosChannel)

/-- The write, and its broadcast from call to commit. -/
def broadcastEvents : List SyncEvent :=
  [.write, .broadcast "todos" "1" fun _ => true] ++
    [.group 0 0, .limitFor 0 none, .execute 0, .send 0, .commit].map (.channel todosChannel)

/-- The window grows by one after the write and before its broadcast reads. -/
def loadMoreEvents : List SyncEvent :=
  [.write, .broadcast "todos" "1" fun _ => true] ++
    [.sendLoadMore 1, .take false, .query, .snapshot, .finish, .group 0 0, .limitFor 0 (some 2),
      .execute 0, .send 0].map (.channel todosChannel)

end Sync
end Reflectdb
