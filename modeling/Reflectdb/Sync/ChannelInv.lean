import Reflectdb.Sync.Channel
import Reflectdb.Sync.Synced

/-!
# Channel invariant — client, cache and result of a (client, query)

A channel is steady when its client stays subscribed and no bootstrap will replace its rows.  The
invariant says that in a steady channel client and cache agree, and that the cache is the query's
result at the version last seen, which is the current one unless a broadcast is pending.

`SyncGuard` names the orders of steps that keep it.
-/

namespace Reflectdb
namespace Sync

open Core Client Server

/-! ## What is under way on a channel -/

def ClientMessage.subscribes (before : Bool) : ClientMessage → Bool
  | .syncDeclare _ _ => true
  | .unsync => false
  | _ => before

def ClientMessage.isBootstrap : ClientMessage → Bool
  | .bootstrap => true
  | _ => false

/-- The query is subscribed once the messages under way are handled. -/
def Channel.endsSubscribed (ch : Channel) : Bool :=
  ch.inbox.foldl ClientMessage.subscribes ch.sub.isSome

def Handler.isQuerying : Handler → Bool
  | .bootstrap _ .querying => true
  | _ => false

/-- A bootstrap that has yet to run the query is under way. -/
def Channel.resetDue (ch : Channel) : Bool :=
  ch.bootstrapScheduled || ch.inbox.any ClientMessage.isBootstrap ||
    ch.handler.any Handler.isQuerying

/-- What a bootstrap has read and not sent yet. -/
def Channel.rereads (ch : Channel) : Option QueryRead :=
  match ch.handler with
  | some (.bootstrap _ (.read r)) => some r
  | _ => none

/-- What a handler has sent and not cached yet. -/
def Channel.delivered (ch : Channel) : Option QueryRead :=
  match ch.handler with
  | some (.bootstrap _ (.sent r)) => some r
  | some (.loadMore _ _ (.sent r)) => some r
  | _ => none

/-- The client stays subscribed and no bootstrap is about to replace its rows. -/
structure Channel.Steady (ch : Channel) : Prop where
  subscribed : ch.endsSubscribed = true
  notDue : ch.resetDue = false
  notRead : ch.rereads = none

/-- The cached rows once the open section, if any, has committed. -/
def committed (pk : String) (lock : Option (List Row)) (cached : Option CachedRows) : CachedRows :=
  match lock with
  | some rows => byRowId pk rows
  | none => cached.getD ∅

@[simp] theorem committed_none (pk : String) (cached : Option CachedRows) :
    committed pk none cached = cached.getD ∅ :=
  rfl

@[simp] theorem committed_some (pk : String) (rows : List Row) (cached : Option CachedRows) :
    committed pk (some rows) cached = byRowId pk rows :=
  rfl

/-- The rows the client is taken to hold, once the handler or the section is through. -/
def Channel.shown (cfg : SyncConfig) (c : ChannelId) (ch : Channel) : CachedRows :=
  match ch.delivered with
  | some r => byRowId (cfg.pk c.2) (cfg.rows c r)
  | none => committed (cfg.pk c.2) ch.lock ch.cached

/-- The read those rows are the result of. -/
def Channel.target (ch : Channel) : Option QueryRead :=
  match ch.delivered with
  | some r => some r
  | none => ch.subscription.map fun sub => ⟨sub.params, sub.limit, ch.seen⟩

/-- No write since version `v` touches a table the query depends on. -/
structure Current (cfg : SyncConfig) (c : ChannelId) (version v : Nat) : Prop where
  le : v ≤ version
  quiet : ∀ u, v ≤ u → u < version → cfg.writtenTable u ∉ cfg.tableDependencies c.2

/-- The broadcast has yet to read, or has read the current result. -/
def Job.Refreshes (cfg : SyncConfig) (c : ChannelId) (version : Nat) : Job → Prop
  | .read _ _ r => Current cfg c version r.version
  | _ => True

/-- A broadcast of the current result has yet to enter its section. -/
def Channel.Pending (cfg : SyncConfig) (c : ChannelId) (version : Nat) (ch : Channel) : Prop :=
  ch.owed = true ∨ ∃ job ∈ ch.jobs, job.Refreshes cfg c version

/-! ## Orders that keep client and cache agreed -/

section Guard

variable (cfg : SyncConfig) (c : ChannelId) (ch : Channel)

/-- A windowed subscriber is passed over only before its bootstrap runs the query. -/
def Channel.GroupInOrder : Prop :=
  ∀ sub ∈ ch.subscription, sub.windowSize.isSome → sub.bootstrapped = false →
    ch.endsSubscribed = true → ch.resetDue = true

/-- A handler sends `rows` of its read `r` to a client that has not unsubscribed; unless a later
bootstrap resets it, no section is open, nothing newer was sent, and the keys are strings. -/
structure Channel.SnapshotInOrder (r : QueryRead) (rows : List Row) : Prop where
  subscribed : rows ≠ [] → ch.endsSubscribed = true
  unlocked : ch.endsSubscribed = true → ch.resetDue = false → ch.lock = none
  newer : ch.endsSubscribed = true → ch.resetDue = false → ch.seen ≤ r.version
  stringKeyed : ch.endsSubscribed = true → ch.resetDue = false → StringKeyed (cfg.pk c.2) rows

/-- What `load_more` records beyond the page it sends is recorded already. -/
def Channel.PageCovers (r : QueryRead) (prevLoaded : Nat) : Prop :=
  ∀ rowId, (byRowId (cfg.pk c.2) (cfg.newRows c r prevLoaded)).lookup rowId = none →
    (ch.cached.getD ∅).lookup rowId = (byRowId (cfg.pk c.2) (cfg.rows c r)).lookup rowId

/-- A broadcast enters its section: it does not reach an unsubscribed client, and comes in the order
of reads.  In a steady channel it comes in the order of HLCs, too, for the params and the window of
the current subscription, and not between a handler's send and its write of the cache. -/
structure Channel.SendInOrder (hlc : Hlc) (i : Nat) (r : QueryRead) : Prop where
  subscribed : ch.deltas cfg c hlc i r ≠ [] → ch.endsSubscribed = true
  commits : ch.deltas cfg c hlc i r = [] → ch.sub.isSome
  apart : ch.Steady → ch.delivered = none
  newer : ch.endsSubscribed = true → ch.resetDue = false → ch.seen ≤ r.version
  taken : ch.Steady → ∀ d ∈ ch.deltas cfg c hlc i r, Taken ch.table d
  params : ch.Steady → ∀ sub ∈ ch.subscription, r.params = sub.params
  window : ch.Steady → ∀ sub ∈ ch.subscription, (ch.subs[i]?).bind (·.limit) = sub.limit ∧
    ∀ l ∈ r.limit, ∃ n ∈ sub.limit, n ≤ l

/-- The delta is newer than the client's row, and the row recorded is the one it leaves. -/
def EagerDelta.Exact (e : EagerDelta) (pk : String) (t : TableRows) : Prop :=
  Taken t e.delta ∧
    match e.delta.op, e.mergedRow with
    | .delete, _ => True
    | _, none => False
    | _, some row =>
      e.delta.rowId ≠ "" ∧ (e.delta.payload.getD ∅).entries ≠ [] ∧
        rowIdOf pk (withPk pk e.delta.rowId row) = e.delta.rowId ∧
        ∀ col, takenColumn pk t e.delta col = column (withPk pk e.delta.rowId row) col

/-- An eager delta does not reach an unsubscribed client; in a steady channel it is recorded for
this query exactly if it is sent for it, between sections and handlers, with the broadcast of its
write still to come. -/
structure EagerDelta.InOrder (s : SyncState) (e : EagerDelta) : Prop where
  subscribed : e.delivers s c = true → (s.chans c).endsSubscribed = true
  recorded : (s.chans c).Steady → e.delivers s c = e.records cfg s c
  apart : (s.chans c).Steady → e.delivers s c = true →
    (s.chans c).delivered = none ∧ (s.chans c).lock = none ∧ (s.chans c).cached.isSome
  pending : (s.chans c).Steady → e.delivers s c = true → (s.chans c).Pending cfg c s.version
  exact : (s.chans c).Steady → e.delivers s c = true → e.Exact (cfg.pk c.2) (s.chans c).table

end Guard

/-- The order the events of one channel come in. -/
def Channel.Allows (cfg : SyncConfig) (c : ChannelId) (ch : Channel) : ChannelEvent → Prop
  | .group _ _ => ch.GroupInOrder
  | .snapshot =>
    (∀ hlc r, ch.handler = some (.bootstrap hlc (.read r)) →
      ch.SnapshotInOrder cfg c r (cfg.rows c r)) ∧
    ∀ prevLoaded newLimit r, ch.handler = some (.loadMore prevLoaded newLimit (.read r)) →
      ch.SnapshotInOrder cfg c r (cfg.newRows c r prevLoaded) ∧
        (ch.Steady → ch.PageCovers cfg c r prevLoaded)
  | .send j => ∀ hlc i r, ch.jobs[j]? = some (.read hlc i r) → ch.SendInOrder cfg c hlc i r
  | .commit => ch.lock.isSome → ch.sub.isSome
  | _ => True

def SyncGuard (cfg : SyncConfig) (s : SyncState) : SyncEvent → Prop
  | .eager e => ∀ c, e.InOrder cfg c s
  | .channel c e => (s.chans c).Allows cfg c e
  | _ => True

/-! ## The invariant -/

/-- The handler runs for the subscription: its read has the subscription's params and limit. -/
def Handler.Fits (version : Nat) (sub : QuerySubscription) : Handler → Prop
  | .bootstrap _ (.read r) => r.params = sub.params ∧ r.limit = sub.limit ∧ r.version ≤ version
  | .bootstrap _ (.sent r) => r.params = sub.params ∧ r.limit = sub.limit ∧ r.version ≤ version
  | .loadMore _ newLimit (.read r) =>
    sub.windowSize.isSome ∧ r.params = sub.params ∧ r.limit = some newLimit ∧ r.version ≤ version
  | .loadMore _ newLimit (.sent r) =>
    sub.windowSize.isSome ∧ r.params = sub.params ∧ r.limit = some newLimit ∧ r.version ≤ version
  | .loadMore _ _ .querying => sub.windowSize.isSome
  | .bootstrap _ .querying => True

def Job.ReadBy (version : Nat) : Job → Prop
  | .read _ _ r => r.version ≤ version
  | _ => True

structure ChannelInv (cfg : SyncConfig) (c : ChannelId) (version : Nat) (ch : Channel) : Prop where
  valid : ∀ i ∈ ch.sub, i < ch.subs.length
  /-- Behind each declare there is a bootstrap. -/
  declared : ∀ params windowSize post, .syncDeclare params windowSize :: post <:+ ch.inbox →
    ch.bootstrapScheduled = true ∨ post.any ClientMessage.isBootstrap = true
  handled : ∀ h ∈ ch.handler, ∃ sub ∈ ch.subscription, h.Fits version sub
  reads : ∀ job ∈ ch.jobs, job.ReadBy version
  uncached : ch.sub = none → ch.cached = none
  unsubscribed : ch.endsSubscribed = false → ∀ key, heldRow ch.table key = none
  fresh : ch.endsSubscribed = true → ch.resetDue = false →
    Current cfg c version ch.seen ∨ (∃ r ∈ ch.rereads, Current cfg c version r.version) ∨
      ch.Pending cfg c version
  synced : ch.Steady → Synced (cfg.pk c.2) ch.table (ch.shown cfg c)
  exact : ch.Steady → ch.Pending cfg c version ∨ ∀ r ∈ ch.target, ∀ rowId,
    (ch.shown cfg c).lookup rowId = (byRowId (cfg.pk c.2) (cfg.rows c r)).lookup rowId
  delivered : ch.Steady → ∀ r ∈ ch.delivered, r.version = ch.seen ∧ ch.lock = none

variable {cfg : SyncConfig} {c : ChannelId} {version : Nat} {ch : Channel}

theorem Current.self : Current cfg c version version where
  le := Nat.le_refl version
  quiet u hle hlt := by omega

theorem Current.newer {v w : Nat} (h : Current cfg c version v) (hle : v ≤ w)
    (hw : w ≤ version) : Current cfg c version w where
  le := hw
  quiet u hu := h.quiet u (hle.trans hu)

/-- A write to a table the query does not depend on leaves reads current. -/
theorem Current.write {v : Nat} (h : Current cfg c version v)
    (hw : cfg.writtenTable version ∉ cfg.tableDependencies c.2) :
    Current cfg c (version + 1) v where
  le := h.le.trans (Nat.le_succ version)
  quiet u hle hlt := by
    rcases Nat.lt_succ_iff_lt_or_eq.1 hlt with hlt | rfl
    · exact h.quiet u hle hlt
    · exact hw

/-- A current read returns what a read now would. -/
theorem Current.result_eq {v : Nat} (h : Current cfg c version v) (params : Json) :
    cfg.result c params v = cfg.result c params version := by
  -- Induction on the writes since: each leaves the result as it was.
  have hchain : ∀ n, v + n ≤ version → cfg.result c params (v + n) = cfg.result c params v := by
    intro n
    induction n with
    | zero =>
        intro _
        simp
    | succ n ih =>
        intro hle
        have hframe : cfg.result c params (v + n + 1) = cfg.result c params (v + n) :=
          cfg.frame c params (v + n) (h.quiet (v + n) (by omega) (by omega))
        exact hframe.trans (ih (by omega))
  have hle := h.le
  have hsum : v + (version - v) = version := by omega
  simpa [hsum] using (hchain (version - v) (by omega)).symm

theorem Current.rows_eq {params : Json} {limit : Option Nat} {v : Nat}
    (h : Current cfg c version v) :
    cfg.rows c ⟨params, limit, v⟩ = cfg.rows c ⟨params, limit, version⟩ := by
  simp [SyncConfig.rows, h.result_eq params]

theorem Job.Refreshes.write {job : Job} (h : job.Refreshes cfg c version)
    (hw : cfg.writtenTable version ∉ cfg.tableDependencies c.2) :
    job.Refreshes cfg c (version + 1) := by
  cases job with
  | read hlc i r => exact Current.write h hw
  | called hlc => trivial
  | grouped hlc i rep => trivial
  | limited hlc i rep limit => trivial

theorem Job.ReadBy.mono {job : Job} {v w : Nat} (h : job.ReadBy v) (hle : v ≤ w) :
    job.ReadBy w := by
  cases job with
  | read hlc i r => exact Nat.le_trans h hle
  | called hlc => trivial
  | grouped hlc i rep => trivial
  | limited hlc i rep limit => trivial

theorem Handler.Fits.mono {h : Handler} {sub : QuerySubscription} {v w : Nat}
    (hfits : h.Fits v sub) (hle : v ≤ w) : h.Fits w sub := by
  cases h with
  | bootstrap hlc fetch =>
      cases fetch with
      | querying => trivial
      | read r => exact ⟨hfits.1, hfits.2.1, hfits.2.2.trans hle⟩
      | sent r => exact ⟨hfits.1, hfits.2.1, hfits.2.2.trans hle⟩
  | loadMore prevLoaded newLimit fetch =>
      cases fetch with
      | querying => exact hfits
      | read r => exact ⟨hfits.1, hfits.2.1, hfits.2.2.1, hfits.2.2.2.trans hle⟩
      | sent r => exact ⟨hfits.1, hfits.2.1, hfits.2.2.1, hfits.2.2.2.trans hle⟩

/-! ### Messages under way -/

/-- Without a declare under way, a client that ends up subscribed is subscribed. -/
theorem subscribed_of_foldl {inbox : List ClientMessage}
    (hdeclare : ∀ params windowSize, .syncDeclare params windowSize ∉ inbox) :
    ∀ {b : Bool}, inbox.foldl ClientMessage.subscribes b = true → b = true := by
  induction inbox with
  | nil =>
      intro b h
      exact h
  | cons m rest ih =>
      intro b h
      have hrest : ∀ params windowSize, .syncDeclare params windowSize ∉ rest :=
        fun params windowSize hmem => hdeclare params windowSize (List.mem_cons_of_mem _ hmem)
      have hm : m.subscribes b = true := ih hrest h
      cases m with
      | syncDeclare params windowSize =>
          exact absurd List.mem_cons_self (hdeclare params windowSize)
      | unsync => cases hm
      | bootstrap => exact hm
      | resume => exact hm
      | loadMore count => exact hm

/-- A client that stays subscribed, with no bootstrap due, has its subscription. -/
theorem subscription_of_declared (hends : ch.endsSubscribed = true) (hdue : ch.resetDue = false)
    (hvalid : ∀ i ∈ ch.sub, i < ch.subs.length)
    (hdeclared : ∀ params windowSize post, .syncDeclare params windowSize :: post <:+ ch.inbox →
      ch.bootstrapScheduled = true ∨ post.any ClientMessage.isBootstrap = true) :
    ∃ sub, ch.subscription = some sub := by
  have hnotDue : ch.bootstrapScheduled = false ∧
      ch.inbox.any ClientMessage.isBootstrap = false := by
    simp only [Channel.resetDue, Bool.or_eq_false_iff] at hdue
    exact hdue.1
  have hdeclare : ∀ params windowSize, .syncDeclare params windowSize ∉ ch.inbox := by
    intro params windowSize hmem
    rcases List.append_of_mem hmem with ⟨pre, post, hinbox⟩
    have hsuffix : .syncDeclare params windowSize :: post <:+ ch.inbox := ⟨pre, hinbox.symm⟩
    rcases hdeclared params windowSize post hsuffix with hscheduled | hpost
    · simp [hnotDue.1] at hscheduled
    · have hany : ch.inbox.any ClientMessage.isBootstrap = true := by simp [hinbox, hpost]
      simp [hnotDue.2] at hany
  have hsub : ch.sub.isSome = true := subscribed_of_foldl hdeclare hends
  rcases Option.isSome_iff_exists.1 hsub with ⟨i, hi⟩
  have hlt : i < ch.subs.length := hvalid i (by simp [hi])
  exact ⟨ch.subs[i], by simp [Channel.subscription, hi, hlt]⟩

theorem ChannelInv.exists_subscription (h : ChannelInv cfg c version ch)
    (hends : ch.endsSubscribed = true) (hdue : ch.resetDue = false) :
    ∃ sub, ch.subscription = some sub :=
  subscription_of_declared hends hdue h.valid h.declared

/-- While a bootstrap is due for a client that stays subscribed, nothing is asked of its rows. -/
theorem ChannelInv.ofDue (hvalid : ∀ i ∈ ch.sub, i < ch.subs.length)
    (hdeclared : ∀ params windowSize post, .syncDeclare params windowSize :: post <:+ ch.inbox →
      ch.bootstrapScheduled = true ∨ post.any ClientMessage.isBootstrap = true)
    (hhandled : ∀ h ∈ ch.handler, ∃ sub ∈ ch.subscription, h.Fits version sub)
    (hreads : ∀ job ∈ ch.jobs, job.ReadBy version)
    (huncached : ch.sub = none → ch.cached = none)
    (hunsubscribed : ch.endsSubscribed = false → ∀ key, heldRow ch.table key = none)
    (hdue : ch.endsSubscribed = true → ch.resetDue = true) : ChannelInv cfg c version ch :=
  have hnot : ∀ {p : Prop}, ch.endsSubscribed = true → ch.resetDue = false → p := by
    intro p hends hnotDue
    simp [hdue hends] at hnotDue
  { valid := hvalid
    declared := hdeclared
    handled := hhandled
    reads := hreads
    uncached := huncached
    unsubscribed := hunsubscribed
    fresh := fun hends hnotDue => hnot hends hnotDue
    synced := fun hsteady => hnot hsteady.subscribed hsteady.notDue
    exact := fun hsteady => hnot hsteady.subscribed hsteady.notDue
    delivered := fun hsteady => hnot hsteady.subscribed hsteady.notDue }

/-- Messages and handler change, and nothing else that counts. -/
theorem ChannelInv.withHandler (h : ChannelInv cfg c version ch) {inbox : List ClientMessage}
    {handler : Option Handler}
    (hdeclared : ∀ params windowSize post, .syncDeclare params windowSize :: post <:+ inbox →
      ch.bootstrapScheduled = true ∨ post.any ClientMessage.isBootstrap = true)
    (hhandled : ∀ h ∈ handler, ∃ sub ∈ ch.subscription, h.Fits version sub)
    (hends : Channel.endsSubscribed { ch with inbox := inbox } = ch.endsSubscribed)
    (hdue : Channel.resetDue { ch with inbox := inbox, handler := handler } = ch.resetDue)
    (hrereads : Channel.rereads { ch with handler := handler } = ch.rereads)
    (hdelivered : Channel.delivered { ch with handler := handler } = ch.delivered) :
    ChannelInv cfg c version { ch with inbox := inbox, handler := handler } := by
  have hsteady : Channel.Steady { ch with inbox := inbox, handler := handler } → ch.Steady :=
    fun hs => ⟨hends.symm.trans hs.subscribed, hdue.symm.trans hs.notDue,
      hrereads.symm.trans hs.notRead⟩
  have hdelivered' : Channel.delivered { ch with inbox := inbox, handler := handler } =
      ch.delivered := hdelivered
  have hshown : Channel.shown cfg c { ch with inbox := inbox, handler := handler } =
      ch.shown cfg c := by
    simp only [Channel.shown, hdelivered']
  have htarget : Channel.target { ch with inbox := inbox, handler := handler } = ch.target := by
    simp only [Channel.target, hdelivered']
    rfl
  constructor
  · exact h.valid
  · exact hdeclared
  · exact hhandled
  · exact h.reads
  · exact h.uncached
  · exact fun hnot => h.unsubscribed (hends.symm.trans hnot)
  · intro hsub hnotDue
    have hfresh := h.fresh (hends.symm.trans hsub) (hdue.symm.trans hnotDue)
    rw [← hrereads] at hfresh
    exact hfresh
  · intro hs
    rw [hshown]
    exact h.synced (hsteady hs)
  · intro hs
    rw [hshown, htarget]
    exact h.exact (hsteady hs)
  · intro hs
    rw [hdelivered']
    exact h.delivered (hsteady hs)

end Sync
end Reflectdb
