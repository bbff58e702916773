import Mathlib.Data.List.Infix
import Reflectdb.Sync.ChannelInv

/-!
# Channel steps — each event keeps the channel invariant

One lemma for each event of a channel, in the order of the model.
-/

namespace Reflectdb
namespace Sync

open Core Client Server

variable {cfg : SyncConfig} {c : ChannelId} {version : Nat} {ch : Channel}

/-! ## Messages -/

theorem endsSubscribed_concat (m : ClientMessage) :
    Channel.endsSubscribed { ch with inbox := ch.inbox ++ [m] } =
      m.subscribes ch.endsSubscribed := by
  simp [Channel.endsSubscribed, List.foldl_append]

/-- Another message than a declare keeps each declare followed by a bootstrap. -/
theorem declared_concat {inbox : List ClientMessage} {scheduled : Bool} {m : ClientMessage}
    (hm : ∀ params windowSize, m ≠ .syncDeclare params windowSize)
    (h : ∀ params windowSize post, .syncDeclare params windowSize :: post <:+ inbox →
      scheduled = true ∨ post.any ClientMessage.isBootstrap = true)
    (params : Json) (windowSize : Option Nat) (post : List ClientMessage)
    (hsuffix : .syncDeclare params windowSize :: post <:+ inbox ++ [m]) :
    (scheduled = true ∨ post.any ClientMessage.isBootstrap = true) ∧
      (m.isBootstrap = true → post.any ClientMessage.isBootstrap = true) := by
  rcases List.suffix_concat_iff.1 hsuffix with hnil | ⟨t, ht, hbefore⟩
  · cases hnil
  · cases t with
    | nil =>
        have heq : ClientMessage.syncDeclare params windowSize = m := by
          simpa using congrArg List.head? ht
        exact absurd heq.symm (hm params windowSize)
    | cons d t =>
        have heq : ClientMessage.syncDeclare params windowSize = d ∧ post = t ++ [m] := by
          simpa using ht
        rcases heq with ⟨rfl, rfl⟩
        refine ⟨?_, fun hboot => by simp [hboot]⟩
        rcases h params windowSize t hbefore with hscheduled | hany
        · exact .inl hscheduled
        · exact .inr (by simp [hany])

theorem ChannelInv.sync (h : ChannelInv cfg c version ch) (params : Json)
    (windowSize : Option Nat) : ChannelInv cfg c version (ch.sync params windowSize) := by
  refine .ofDue h.valid (fun _ _ _ _ => .inl rfl) h.handled h.reads h.uncached ?_ ?_
  · intro hends
    have htrue : Channel.endsSubscribed
        { ch with inbox := ch.inbox ++ [.syncDeclare params windowSize] } = true :=
      endsSubscribed_concat _
    exact absurd (htrue.symm.trans hends) (by simp)
  · intro _
    simp [Channel.resetDue, Channel.sync]

theorem ChannelInv.sendBootstrap (h : ChannelInv cfg c version ch) :
    ChannelInv cfg c version ch.sendBootstrap := by
  refine .ofDue h.valid ?_ h.handled h.reads h.uncached ?_ ?_
  · intro params windowSize post hsuffix
    have hconcat := declared_concat (m := .bootstrap) (by simp) h.declared params windowSize post
      hsuffix
    exact .inr (hconcat.2 rfl)
  · intro hends
    exact h.unsubscribed ((endsSubscribed_concat .bootstrap).symm.trans hends)
  · intro _
    simp [Channel.resetDue, Channel.sendBootstrap, ClientMessage.isBootstrap]

/-- `resume` and `load_more` neither subscribe nor reset. -/
theorem ChannelInv.sendOther (h : ChannelInv cfg c version ch) {m : ClientMessage}
    (hm : ∀ params windowSize, m ≠ .syncDeclare params windowSize)
    (hsubscribes : ∀ b, m.subscribes b = b) (hboot : m.isBootstrap = false) :
    ChannelInv cfg c version { ch with inbox := ch.inbox ++ [m] } := by
  refine h.withHandler ?_ h.handled ?_ ?_ rfl rfl
  · intro params windowSize post hsuffix
    exact (declared_concat hm h.declared params windowSize post hsuffix).1
  · exact (endsSubscribed_concat m).trans (hsubscribes _)
  · simp [Channel.resetDue, hboot]

theorem ChannelInv.sendUnsync (h : ChannelInv cfg c version ch) :
    ChannelInv cfg c version ch.sendUnsync := by
  have hends : Channel.endsSubscribed ch.sendUnsync = false :=
    endsSubscribed_concat .unsync
  refine .ofDue h.valid ?_ h.handled h.reads h.uncached ?_ ?_
  · intro params windowSize post hsuffix
    exact (declared_concat (m := .unsync) (by simp) h.declared params windowSize post hsuffix).1
  · intro _ key
    simp [Channel.sendUnsync, heldRow]
  · intro hsub
    simp [hends] at hsub

/-! ## Handlers -/

theorem subscription_eq_none (hvalid : ∀ i ∈ ch.sub, i < ch.subs.length)
    (h : ch.subscription = none) : ch.sub = none := by
  cases hsub : ch.sub with
  | none => rfl
  | some i =>
      have hlt : i < ch.subs.length := hvalid i (by simp [hsub])
      simp [Channel.subscription, hsub, hlt] at h

theorem ChannelInv.take (h : ChannelInv cfg c version ch) {clock : Hlc} {skips : Bool}
    {ch' : Channel} (htake : ch.take clock skips = some ch') : ChannelInv cfg c version ch' := by
  unfold Channel.take at htake
  split at htake
  · rename_i m inbox hhandler hinbox
    have htail : ∀ params windowSize post, .syncDeclare params windowSize :: post <:+ inbox →
        ch.bootstrapScheduled = true ∨ post.any ClientMessage.isBootstrap = true := by
      intro params windowSize post hsuffix
      refine h.declared params windowSize post ?_
      rw [hinbox]
      exact hsuffix.trans (List.suffix_cons m inbox)
    have hends : ch.endsSubscribed =
        inbox.foldl ClientMessage.subscribes (m.subscribes ch.sub.isSome) := by
      simp [Channel.endsSubscribed, hinbox]
    have hdue : ch.resetDue =
        (ch.bootstrapScheduled || (m.isBootstrap || inbox.any ClientMessage.isBootstrap)) := by
      simp [Channel.resetDue, hinbox, hhandler]
    -- A message of no effect is dropped.
    have hdrop : (∀ b, m.subscribes b = b) → m.isBootstrap = false →
        ChannelInv cfg c version { ch with inbox := inbox } := by
      intro hm hboot
      refine h.withHandler htail h.handled ?_ ?_ rfl rfl
      · rw [hends, hm]
        rfl
      · rw [hdue, hboot]
        simp [Channel.resetDue, hhandler]
    -- A handler that is to run the query for the subscription makes a bootstrap due.
    have hquery : ∀ hlc, (∀ b, m.subscribes b = b) → ChannelInv cfg c version
        { ch with
          inbox := inbox
          handler := ch.subscription.map fun _ => .bootstrap hlc .querying } := by
      intro hlc hm
      refine .ofDue h.valid htail ?_ h.reads h.uncached ?_ ?_
      · intro handler hmem
        rcases Option.map_eq_some_iff.1 hmem with ⟨sub, hsub, rfl⟩
        exact ⟨sub, hsub, trivial⟩
      · intro hnot
        exact h.unsubscribed (by rw [hends, hm]; exact hnot)
      · intro hsub
        by_contra hnotDue
        have hfalse := Bool.eq_false_iff.2 hnotDue
        have hexists := subscription_of_declared hsub hfalse h.valid htail
        rcases hexists with ⟨sub, hsubscription⟩
        have hsubscription' : ch.subscription = some sub := hsubscription
        simp [Channel.resetDue, hsubscription', Handler.isQuerying] at hfalse
    cases m with
    | syncDeclare params windowSize =>
        cases htake
        have hbehind := h.declared params windowSize inbox (by rw [hinbox])
        refine .ofDue ?_ htail ?_ h.reads (by simp) ?_ ?_
        · intro i hi
          have : ch.subs.length = i := by simpa using hi
          simp [this]
        · intro handler hmem
          simp [hhandler] at hmem
        · intro hnot
          exact h.unsubscribed (hends.trans hnot)
        · intro _
          simp only [Channel.resetDue]
          rcases hbehind with hscheduled | hany
          · simp [hscheduled]
          · simp [hany]
    | unsync =>
        cases htake
        refine .ofDue (by simp) htail ?_ h.reads (fun _ => rfl) ?_ ?_
        · intro handler hmem
          simp [hhandler] at hmem
        · intro hnot
          exact h.unsubscribed (hends.trans hnot)
        · intro hsub
          by_contra hnotDue
          rcases subscription_of_declared hsub (Bool.eq_false_iff.2 hnotDue) (by simp) htail with
            ⟨sub, hsubscription⟩
          simp [Channel.subscription] at hsubscription
    | bootstrap =>
        cases htake
        exact hquery none fun _ => rfl
    | resume =>
        cases htake
        cases skips with
        | true => simpa [hhandler] using hdrop (fun _ => rfl) rfl
        | false => exact hquery (some clock) fun _ => rfl
    | loadMore count =>
        dsimp only at htake
        split at htake
        · cases htake
          exact hdrop (fun _ => rfl) rfl
        · rename_i sub hsub
          cases htake
          have hcases : ∀ handler, (sub.limit.map fun limit =>
              Handler.loadMore sub.loadedCount (limit + count) .querying) = handler →
              ChannelInv cfg c version { ch with inbox := inbox, handler := handler } := by
            rintro handler rfl
            refine h.withHandler htail ?_ ?_ ?_ ?_ ?_
            · intro handler hmem
              rcases Option.map_eq_some_iff.1 hmem with ⟨limit, hlimit, rfl⟩
              refine ⟨sub, hsub, ?_⟩
              unfold QuerySubscription.limit at hlimit
              split at hlimit
              · assumption
              · cases hlimit
            · exact hends.symm
            · rw [hdue]
              cases sub.limit <;>
                simp [Channel.resetDue, Handler.isQuerying, ClientMessage.isBootstrap]
            · cases sub.limit <;> simp [Channel.rereads, hhandler]
            · cases sub.limit <;> simp [Channel.delivered, hhandler]
          exact hcases _ rfl
  · cases htake

theorem ChannelInv.query (h : ChannelInv cfg c version ch) {ch' : Channel}
    (hquery : ch.query version = some ch') : ChannelInv cfg c version ch' := by
  unfold Channel.query at hquery
  split at hquery
  · rename_i hlc sub hhandler hsub
    cases hquery
    have hnotSteady : ¬ Channel.Steady { ch with
        handler := some (.bootstrap hlc (.read ⟨sub.params, sub.limit, version⟩)) } :=
      fun hs => by simpa [Channel.rereads] using hs.notRead
    constructor
    · exact h.valid
    · exact h.declared
    · intro handler hmem
      have : handler = .bootstrap hlc (.read ⟨sub.params, sub.limit, version⟩) := by
        simpa [eq_comm] using hmem
      subst this
      exact ⟨sub, hsub, rfl, rfl, Nat.le_refl version⟩
    · exact h.reads
    · exact h.uncached
    · exact h.unsubscribed
    · intro _ _
      exact .inr (.inl ⟨_, rfl, .self⟩)
    · exact fun hs => absurd hs hnotSteady
    · exact fun hs => absurd hs hnotSteady
    · exact fun hs => absurd hs hnotSteady
  · rename_i prevLoaded newLimit sub hhandler hsub
    cases hquery
    rcases h.handled _ hhandler with ⟨sub', hsub', hfits⟩
    have hwindow : sub'.windowSize.isSome := hfits
    have : sub' = sub := by
      have heq : ch.subscription = some sub' := hsub'
      rw [hsub] at heq
      cases heq
      rfl
    subst this
    refine h.withHandler h.declared ?_ rfl ?_ ?_ ?_
    · intro handler hmem
      have : handler = .loadMore prevLoaded newLimit
          (.read ⟨sub'.params, some newLimit, version⟩) := by
        simpa [eq_comm] using hmem
      subst this
      exact ⟨sub', hsub, hwindow, rfl, rfl, Nat.le_refl version⟩
    · simp [Channel.resetDue, hhandler, Handler.isQuerying]
    · simp [Channel.rereads, hhandler]
    · simp [Channel.delivered, hhandler]
  · cases hquery

theorem lookup_byRowId_drop {pk : String} {rows : List Row} {n : Nat} {rowId : String} {r : Row}
    (h : (byRowId pk (rows.drop n)).lookup rowId = some r) :
    (byRowId pk rows).lookup rowId = some r := by
  have hsplit : byRowId pk rows = byRowId pk (rows.take n ++ rows.drop n) := by simp
  have hdrop : Lib.lastWrite (((rows.drop n).map fun row => (rowIdOf pk row, row)).filter
      (·.1 ≠ "")) rowId = some r := by
    simpa only [byRowId, Lib.lookup_replay_empty] using h
  rw [hsplit, byRowId, Lib.lookup_replay_empty, List.map_append, List.filter_append,
    Lib.lastWrite_append, hdrop]
  simp

theorem ChannelInv.snapshot (h : ChannelInv cfg c version ch) (hg : ch.Allows cfg c .snapshot)
    {clock : Hlc} {ch' : Channel} (hsnap : ch.snapshot cfg c clock = some ch') :
    ChannelInv cfg c version ch' := by
  unfold Channel.snapshot at hsnap
  split at hsnap
  · rename_i hlc r hhandler
    cases hsnap
    have horder := hg.1 hlc r hhandler
    rcases h.handled _ hhandler with ⟨sub, hsub, hfits⟩
    have hdue : ch.resetDue = Channel.resetDue { ch with
        table := applySnapshot ch.table
          (snapshotMessage (cfg.pk c.2) (cfg.rows c r) (hlc.getD clock) false)
        handler := some (.bootstrap hlc (.sent r))
        seen := r.version } := by
      simp [Channel.resetDue, hhandler, Handler.isQuerying]
    constructor
    · exact h.valid
    · exact h.declared
    · intro handler hmem
      have : handler = .bootstrap hlc (.sent r) := by simpa [eq_comm] using hmem
      subst this
      exact ⟨sub, hsub, hfits⟩
    · exact h.reads
    · exact h.uncached
    · -- The client has unsubscribed: there is nothing in the snapshot.
      intro hends key
      have hrows : cfg.rows c r = [] := by
        by_contra hne
        have : ch.endsSubscribed = true := horder.subscribed hne
        exact absurd (this.symm.trans hends) (by simp)
      simp [hrows, applySnapshot, snapshotMessage, heldRow, Lib.replay]
    · intro hends hnotDue
      rw [← hdue] at hnotDue
      rcases h.fresh hends hnotDue with hseen | ⟨r', hr', hcurrent⟩ | hpending
      · exact .inl (hseen.newer (horder.newer hends hnotDue) hfits.2.2)
      · have : r = r' := by simpa [Channel.rereads, hhandler] using hr'
        subst this
        exact .inl hcurrent
      · exact .inr (.inr hpending)
    · intro hs
      have hnotDue := hdue.trans hs.notDue
      have hkeys := horder.stringKeyed hs.subscribed hnotDue
      have hempty : false = true → Synced (cfg.pk c.2) ch.table ∅ := fun hfalse => by cases hfalse
      refine synced_applySnapshot hempty hkeys fun rowId => ?_
      simp [Channel.shown, Channel.delivered]
    · intro _
      refine .inr fun r' hr' rowId => ?_
      have : r = r' := by simpa [Channel.target, Channel.delivered] using hr'
      subst this
      simp [Channel.shown, Channel.delivered]
    · intro hs r' hr'
      have : r = r' := by simpa [Channel.delivered] using hr'
      subst this
      exact ⟨rfl, horder.unlocked hs.subscribed (hdue.trans hs.notDue)⟩
  · rename_i prevLoaded newLimit r hhandler
    cases hsnap
    rcases hg.2 prevLoaded newLimit r hhandler with ⟨horder, hcovers⟩
    rcases h.handled _ hhandler with ⟨sub, hsub, hfits⟩
    have hrereads : ch.rereads = none := by simp [Channel.rereads, hhandler]
    have hnone : ch.delivered = none := by simp [Channel.delivered, hhandler]
    have hdue : ∀ {t}, Channel.resetDue { ch with
        table := t
        handler := some (.loadMore prevLoaded newLimit (.sent r))
        seen := r.version } = ch.resetDue := by
      simp [Channel.resetDue, hhandler, Handler.isQuerying]
    have hsteady : ∀ {t}, Channel.Steady { ch with
        table := t
        handler := some (.loadMore prevLoaded newLimit (.sent r))
        seen := r.version } → ch.Steady :=
      fun hs => ⟨hs.subscribed, hdue.symm.trans hs.notDue, hrereads⟩
    constructor
    · exact h.valid
    · exact h.declared
    · intro handler hmem
      have : handler = .loadMore prevLoaded newLimit (.sent r) := by simpa [eq_comm] using hmem
      subst this
      exact ⟨sub, hsub, hfits⟩
    · exact h.reads
    · exact h.uncached
    · intro hends key
      have hrows : cfg.newRows c r prevLoaded = [] := by
        by_contra hne
        have : ch.endsSubscribed = true := horder.subscribed hne
        exact absurd (this.symm.trans hends) (by simp)
      simpa [hrows] using h.unsubscribed hends key
    · intro hends hnotDue
      rw [hdue] at hnotDue
      rcases h.fresh hends hnotDue with hseen | ⟨r', hr', _⟩ | hpending
      · exact .inl (hseen.newer (horder.newer hends hnotDue) hfits.2.2.2)
      · simp [hrereads] at hr'
      · exact .inr (.inr hpending)
    · intro hs
      have hold := h.synced (hsteady hs)
      have hunlocked := horder.unlocked hs.subscribed (hsteady hs).notDue
      have hcovers' := hcovers (hsteady hs)
      simp only [Channel.shown, hnone, hunlocked, committed_none] at hold
      simp only [Channel.shown, Channel.delivered]
      -- The rows recorded are those of the page over those recorded before.
      have hlookup : ∀ rowId, (byRowId (cfg.pk c.2) (cfg.rows c r)).lookup rowId =
          ((byRowId (cfg.pk c.2) (cfg.newRows c r prevLoaded)).lookup rowId).or
            ((ch.cached.getD ∅).lookup rowId) := by
        intro rowId
        cases hpage : (byRowId (cfg.pk c.2) (cfg.newRows c r prevLoaded)).lookup rowId with
        | none => simpa using (hcovers' rowId hpage).symm
        | some row => simpa using lookup_byRowId_drop hpage
      split
      · rename_i hempty
        refine hold.congr fun rowId => ?_
        simpa [hempty, byRowId, Lib.lookup_replay_empty] using (hlookup rowId).symm
      · have hkeys := horder.stringKeyed hs.subscribed (hsteady hs).notDue
        exact synced_applySnapshot (fun _ => hold) hkeys (by simpa using hlookup)
    · intro _
      refine .inr fun r' hr' rowId => ?_
      have : r = r' := by simpa [Channel.target, Channel.delivered] using hr'
      subst this
      simp [Channel.shown, Channel.delivered]
    · intro hs r' hr'
      have : r = r' := by simpa [Channel.delivered] using hr'
      subst this
      exact ⟨rfl, horder.unlocked hs.subscribed (hsteady hs).notDue⟩
  · cases hsnap

theorem subscription_modify {i : Nat} (h : ch.sub = some i)
    (f : QuerySubscription → QuerySubscription) :
    Channel.subscription { ch with subs := ch.subs.modify i f } = ch.subscription.map f := by
  simp [Channel.subscription, h]

/-- The handler's last step: its rows become the cached rows, and the subscription gets the limit
they were read with. -/
theorem ChannelInv.cacheDelivered (h : ChannelInv cfg c version ch) {r : QueryRead}
    {sub : QuerySubscription} (hdelivered : ch.delivered = some r)
    (hsub : ch.subscription = some sub) {f : QuerySubscription → QuerySubscription}
    (hparams : (f sub).params = r.params) (hlimit : (f sub).limit = r.limit) :
    ChannelInv cfg c version (Channel.modifySub
      { ch with cached := some (byRowId (cfg.pk c.2) (cfg.rows c r)), handler := none } f) := by
  have hrereads : ch.rereads = none := by
    unfold Channel.delivered at hdelivered
    unfold Channel.rereads
    split at hdelivered <;> simp_all
  have hquerying : ch.handler.any Handler.isQuerying = false := by
    unfold Channel.delivered at hdelivered
    split at hdelivered <;> simp_all [Handler.isQuerying]
  rcases Option.bind_eq_some_iff.1 hsub with ⟨i, hi, _⟩
  have hmodify : Channel.modifySub
      { ch with cached := some (byRowId (cfg.pk c.2) (cfg.rows c r)), handler := none } f =
      { ch with
        subs := ch.subs.modify i f
        cached := some (byRowId (cfg.pk c.2) (cfg.rows c r))
        handler := none } := by
    simp [Channel.modifySub, hi]
  rw [hmodify]
  have hdue : ∀ {subs cached}, Channel.resetDue { ch with
      subs := subs, cached := cached, handler := none } = ch.resetDue := by
    simp [Channel.resetDue, hquerying]
  have hsteady : ∀ {subs cached}, Channel.Steady { ch with
      subs := subs, cached := cached, handler := none } → ch.Steady :=
    fun hs => ⟨hs.subscribed, hdue.symm.trans hs.notDue, hrereads⟩
  constructor
  · intro k hk
    simpa using h.valid k hk
  · exact h.declared
  · intro handler hmem
    cases hmem
  · exact h.reads
  · intro hnone
    have hnone' : ch.sub = none := hnone
    rw [hi] at hnone'
    cases hnone'
  · exact h.unsubscribed
  · intro hends hnotDue
    rw [hdue] at hnotDue
    rcases h.fresh hends hnotDue with hseen | ⟨r', hr', _⟩ | hpending
    · exact .inl hseen
    · simp [hrereads] at hr'
    · exact .inr (.inr hpending)
  · intro hs
    have hold := h.synced (hsteady hs)
    have hunlocked := (h.delivered (hsteady hs) r hdelivered).2
    simp only [Channel.shown, hdelivered] at hold
    simpa [Channel.shown, Channel.delivered, hunlocked] using hold
  · intro hs
    have hseen := h.delivered (hsteady hs) r hdelivered
    refine .inr fun r' hr' rowId => ?_
    -- The current subscription asks for just what was read.
    have hr : r' = r := by
      have hsub' : Channel.subscription { ch with subs := ch.subs.modify i f } = some (f sub) := by
        rw [subscription_modify hi, hsub]
        rfl
      have heq : (⟨(f sub).params, (f sub).limit, ch.seen⟩ : QueryRead) = r' := by
        have hmap : (Channel.subscription { ch with subs := ch.subs.modify i f }).map
            (fun sub => (⟨sub.params, sub.limit, ch.seen⟩ : QueryRead)) = some r' := hr'
        rw [hsub'] at hmap
        simpa using hmap
      rw [← heq, hparams, hlimit, ← hseen.1]
    subst hr
    simp [Channel.shown, Channel.delivered, hseen.2]
  · intro _ r' hr'
    cases hr'

theorem ChannelInv.finish (h : ChannelInv cfg c version ch) {ch' : Channel}
    (hfinish : ch.finish cfg c = some ch') : ChannelInv cfg c version ch' := by
  unfold Channel.finish at hfinish
  split at hfinish
  · rename_i hlc r hhandler
    cases hfinish
    rcases h.handled _ hhandler with ⟨sub, hsub, hparams, hlimit, _⟩
    refine h.cacheDelivered ?_ hsub hparams.symm ?_
    · simp [Channel.delivered, hhandler]
    · exact hlimit.symm
  · rename_i prevLoaded newLimit r hhandler
    cases hfinish
    rcases h.handled _ hhandler with ⟨sub, hsub, hwindow, hparams, hlimit, _⟩
    refine h.cacheDelivered ?_ hsub hparams.symm ?_
    · simp [Channel.delivered, hhandler]
    · simp [QuerySubscription.limit, hwindow, hlimit]
  · cases hfinish

/-! ## Broadcasts -/

/-- Broadcasts move on or end; one that counts is not lost. -/
theorem ChannelInv.withJobs (h : ChannelInv cfg c version ch) {jobs : List Job} {owed : Bool}
    (hreads : ∀ job ∈ jobs, job.ReadBy version)
    (hpending : ch.endsSubscribed = true → ch.resetDue = false → ch.Pending cfg c version →
      Channel.Pending cfg c version { ch with jobs := jobs, owed := owed }) :
    ChannelInv cfg c version { ch with jobs := jobs, owed := owed } := by
  have hsteady : Channel.Steady { ch with jobs := jobs, owed := owed } → ch.Steady :=
    fun hs => ⟨hs.subscribed, hs.notDue, hs.notRead⟩
  constructor
  · exact h.valid
  · exact h.declared
  · exact h.handled
  · exact hreads
  · exact h.uncached
  · exact h.unsubscribed
  · intro hends hnotDue
    rcases h.fresh hends hnotDue with hseen | hread | hp
    · exact .inl hseen
    · exact .inr (.inl hread)
    · exact .inr (.inr (hpending hends hnotDue hp))
  · exact fun hs => h.synced (hsteady hs)
  · intro hs
    rcases h.exact (hsteady hs) with hp | heq
    · exact .inl (hpending hs.subscribed hs.notDue hp)
    · exact .inr heq
  · exact fun hs => h.delivered (hsteady hs)

/-- A broadcast moves on to a stage in which it still counts. -/
theorem ChannelInv.moveJob (h : ChannelInv cfg c version ch) {j : Nat} {job job' : Job}
    (hjob : ch.jobs[j]? = some job) (hread : job'.ReadBy version)
    (hrefreshes : job'.Refreshes cfg c version) :
    ChannelInv cfg c version { ch with jobs := ch.jobs.set j job' } := by
  have hlt : j < ch.jobs.length := (List.getElem?_eq_some_iff.1 hjob).1
  refine h.withJobs ?_ fun _ _ _ => .inr ⟨job', List.mem_set hlt job', hrefreshes⟩
  intro k hk
  rcases List.mem_or_eq_of_mem_set hk with hmem | rfl
  · exact h.reads k hmem
  · exact hread

theorem ChannelInv.dropJob (h : ChannelInv cfg c version ch) {j : Nat}
    (hreset : ch.endsSubscribed = true → ch.resetDue = true) :
    ChannelInv cfg c version { ch with jobs := ch.jobs.eraseIdx j } := by
  refine h.withJobs (fun job hjob => h.reads job (List.mem_of_mem_eraseIdx hjob)) ?_
  intro hends hnotDue
  simp [hreset hends] at hnotDue

theorem ChannelInv.group {s : SyncState} (h : ChannelInv cfg c s.version (s.chans c)) {j rep : Nat}
    (hg : (s.chans c).Allows cfg c (.group j rep)) {ch' : Channel}
    (hgroup : Channel.group s c j rep = some ch') : ChannelInv cfg c s.version ch' := by
  unfold Channel.group at hgroup
  dsimp only at hgroup
  split at hgroup
  · rename_i hlc hjob
    split at hgroup
    · rename_i i sub hi hsub
      split at hgroup
      · rename_i hpassed
        cases hgroup
        exact h.dropJob (hg sub hsub hpassed.1 hpassed.2)
      · split at hgroup
        · cases hgroup
          exact h.moveJob hjob trivial trivial
        · cases hgroup
    · -- No subscription: either the client does not stay subscribed or a bootstrap is due.
      rename_i hnone
      cases hgroup
      refine h.dropJob fun hends => ?_
      by_contra hnotDue
      rcases h.exists_subscription hends (Bool.eq_false_iff.2 hnotDue) with ⟨sub, hsub⟩
      rcases Option.bind_eq_some_iff.1 hsub with ⟨i, hi, _⟩
      exact hnone i sub hi hsub
  · cases hgroup

theorem ChannelInv.limitFor (h : ChannelInv cfg c version ch) {j : Nat} {limit : Option Nat}
    {ch' : Channel} (hlimit : ch.limitFor j limit = some ch') : ChannelInv cfg c version ch' := by
  unfold Channel.limitFor at hlimit
  split at hlimit
  · rename_i hlc i rep hjob
    split at hlimit
    · cases hlimit
    · split at hlimit
      · cases hlimit
        exact h.moveJob hjob trivial trivial
      · cases hlimit
  · cases hlimit

theorem ChannelInv.execute {s : SyncState} (h : ChannelInv cfg c s.version (s.chans c)) {j : Nat}
    {ch' : Channel} (hexecute : Channel.execute s c j = some ch') :
    ChannelInv cfg c s.version ch' := by
  unfold Channel.execute at hexecute
  dsimp only at hexecute
  split at hexecute
  · rename_i hlc i rep limit hjob
    cases hexecute
    exact h.moveJob hjob (Nat.le_refl s.version) Current.self
  · cases hexecute

theorem windowRows_windowRows {limit limit' : Option Nat} {rows : List Row}
    (h : ∀ l ∈ limit', ∃ n ∈ limit, n ≤ l) :
    windowRows limit (windowRows limit' rows) = windowRows limit rows := by
  cases limit' with
  | none => rfl
  | some l =>
      rcases h l rfl with ⟨n, hn, hle⟩
      have : limit = some n := hn
      subst this
      simp [windowRows, List.take_take, hle]

/-- Once in its section, a broadcast means its rows to be what the client holds, whether they are
cached already or with the commit. -/
theorem ChannelInv.enterSection (h : ChannelInv cfg c version ch) {j i : Nat} {hlc : Hlc}
    {r : QueryRead} (hjob : ch.jobs[j]? = some (.read hlc i r)) (hlock : ch.lock = none)
    (horder : ch.SendInOrder cfg c hlc i r) {cached : Option CachedRows}
    {lock : Option (List Row)} (huncached : ch.sub = none → cached = none)
    (hrows : committed (cfg.pk c.2) lock cached =
      byRowId (cfg.pk c.2) (ch.entitled cfg c i r)) :
    ChannelInv cfg c version { ch with
      jobs := ch.jobs.eraseIdx j
      seen := r.version
      table := applyDeltas (cfg.pk c.2) ch.table (ch.deltas cfg c hlc i r)
      cached := cached
      lock := lock } := by
  have hby : r.version ≤ version := h.reads _ (List.mem_of_getElem? hjob)
  have hsteady : Channel.Steady { ch with
      jobs := ch.jobs.eraseIdx j
      seen := r.version
      table := applyDeltas (cfg.pk c.2) ch.table (ch.deltas cfg c hlc i r)
      cached := cached
      lock := lock } → ch.Steady :=
    fun hs => ⟨hs.subscribed, hs.notDue, hs.notRead⟩
  have hdelivered : ∀ {jobs seen table cached lock}, ch.Steady → Channel.delivered { ch with
      jobs := jobs, seen := seen, table := table, cached := cached, lock := lock } = none :=
    fun hs => horder.apart hs
  constructor
  · exact h.valid
  · exact h.declared
  · exact h.handled
  · exact fun job hjob => h.reads job (List.mem_of_mem_eraseIdx hjob)
  · exact huncached
  · -- Nothing is sent to a client that has unsubscribed.
    intro hends key
    have hnil : ch.deltas cfg c hlc i r = [] := by
      by_contra hne
      have : ch.endsSubscribed = true := horder.subscribed hne
      exact absurd (this.symm.trans hends) (by simp)
    simpa [hnil, applyDeltas] using h.unsubscribed hends key
  · -- The broadcast may be the one that counted: then what it read is current.
    intro hends hnotDue
    rcases h.fresh hends hnotDue with hseen | hread | howed | ⟨job, hjobMem, hrefreshes⟩
    · exact .inl (hseen.newer (horder.newer hends hnotDue) hby)
    · exact .inr (.inl hread)
    · exact .inr (.inr (.inl howed))
    · rcases List.mem_iff_getElem?.1 hjobMem with ⟨k, hk⟩
      by_cases hkj : k = j
      · subst hkj
        have : job = .read hlc i r := Option.some.inj (hk.symm.trans hjob)
        subst this
        exact .inl hrefreshes
      · exact .inr (.inr (.inr ⟨job, List.mem_eraseIdx_iff_getElem?.2 ⟨k, hkj, hk⟩, hrefreshes⟩))
  · intro hs
    have hold := h.synced (hsteady hs)
    simp only [Channel.shown, horder.apart (hsteady hs), hlock, committed_none] at hold
    simp only [Channel.shown, hdelivered (hsteady hs), hrows]
    exact hold.applyDeltas (rowsById_byRowId _ _) (horder.taken (hsteady hs))
  · intro hs
    refine .inr fun r' hr' rowId => ?_
    simp only [Channel.target, hdelivered (hsteady hs)] at hr'
    rcases Option.map_eq_some_iff.1 hr' with ⟨sub, hsub, rfl⟩
    have hwindow := horder.window (hsteady hs) sub hsub
    have hentitled : ch.entitled cfg c i r =
        cfg.rows c ⟨sub.params, sub.limit, r.version⟩ := by
      simp only [Channel.entitled, SyncConfig.rows, hwindow.1,
        horder.params (hsteady hs) sub hsub]
      exact windowRows_windowRows hwindow.2
    simp only [Channel.shown, hdelivered (hsteady hs), hrows, hentitled]
  · intro hs r' hr'
    simp [hdelivered (hsteady hs)] at hr'

theorem ChannelInv.send (h : ChannelInv cfg c version ch) {j : Nat}
    (hg : ch.Allows cfg c (.send j)) {ch' : Channel} (hsend : ch.send cfg c j = some ch') :
    ChannelInv cfg c version ch' := by
  unfold Channel.send at hsend
  split at hsend
  · rename_i hlc i r hjob hlock
    have horder := hg hlc i r hjob
    dsimp only at hsend
    split at hsend
    · rename_i hempty
      have hnil : ch.deltas cfg c hlc i r = [] := by simpa using hempty
      cases hsend
      have huncached : ch.sub = none →
          some (byRowId (cfg.pk c.2) (ch.entitled cfg c i r)) = none := by
        intro hnone
        have hsome := horder.commits hnil
        simp [hnone] at hsome
      have henter : ChannelInv cfg c version { ch with
          jobs := ch.jobs.eraseIdx j
          seen := r.version
          table := applyDeltas (cfg.pk c.2) ch.table (ch.deltas cfg c hlc i r)
          cached := some (byRowId (cfg.pk c.2) (ch.entitled cfg c i r))
          lock := none } := h.enterSection hjob hlock horder huncached rfl
      simpa [hnil, applyDeltas, hlock] using henter
    · cases hsend
      exact h.enterSection hjob hlock horder h.uncached rfl
  · cases hsend

theorem ChannelInv.commit (h : ChannelInv cfg c version ch) (hg : ch.Allows cfg c .commit)
    {ch' : Channel} (hcommit : ch.commit (cfg.pk c.2) = some ch') :
    ChannelInv cfg c version ch' := by
  rcases Option.map_eq_some_iff.1 hcommit with ⟨rows, hlock, rfl⟩
  have hsteady : Channel.Steady { ch with
      cached := some (byRowId (cfg.pk c.2) rows), lock := none } → ch.Steady :=
    fun hs => ⟨hs.subscribed, hs.notDue, hs.notRead⟩
  have hnone : ch.Steady → ch.delivered = none := by
    intro hs
    cases hdelivered : ch.delivered with
    | none => rfl
    | some r =>
        have hunlocked := (h.delivered hs r hdelivered).2
        rw [hlock] at hunlocked
        cases hunlocked
  have hshown : ch.Steady → Channel.shown cfg c { ch with
      cached := some (byRowId (cfg.pk c.2) rows), lock := none } = ch.shown cfg c := by
    intro hs
    have hnone' : Channel.delivered { ch with
        cached := some (byRowId (cfg.pk c.2) rows), lock := none } = none := hnone hs
    simp [Channel.shown, hnone hs, hnone', hlock]
  constructor
  · exact h.valid
  · exact h.declared
  · exact h.handled
  · exact h.reads
  · intro hsub
    have hsome : ch.sub.isSome = true := hg (by simp [hlock])
    have hsub' : ch.sub = none := hsub
    simp [hsub'] at hsome
  · exact h.unsubscribed
  · exact h.fresh
  · intro hs
    rw [hshown (hsteady hs)]
    exact h.synced (hsteady hs)
  · intro hs
    rw [hshown (hsteady hs)]
    exact h.exact (hsteady hs)
  · intro hs r hr
    have hr' : ch.delivered = some r := hr
    rw [hnone (hsteady hs)] at hr'
    cases hr'

/-! ## Eager deltas -/

/-- Client and cache stay agreed when one row changes on both. -/
theorem Synced.applyDelta {pk : String} {t : TableRows} {rows rows' : CachedRows} {d : Delta}
    {e : LocalRow} (h : Synced pk t rows)
    (hentry : applyEntry pk (t.lookup (.str d.rowId)) d = some e)
    (hother : ∀ rowId, rowId ≠ d.rowId → rows'.lookup rowId = rows.lookup rowId)
    (hid : ∀ data ∈ e.data, rowIdOf pk data = d.rowId ∧ d.rowId ≠ "")
    (hself : Option.Rel SameRow e.data ((rows'.lookup d.rowId).map (withPk pk d.rowId))) :
    Synced pk (applyDelta pk t d) rows' := by
  have hheld : heldRow (Client.applyDelta pk t d) (.str d.rowId) = e.data := by
    simp [heldRow, lookup_applyDelta_self hentry]
  have hheldOther : ∀ {key}, key ≠ .str d.rowId →
      heldRow (Client.applyDelta pk t d) key = heldRow t key := by
    intro key hne
    simp [heldRow, lookup_applyDelta_ne hne]
  constructor
  · intro key row hrow
    by_cases hkey : key = .str d.rowId
    · subst hkey
      rw [hheld] at hrow
      exact ⟨d.rowId, rfl, hid row hrow⟩
    · rw [hheldOther hkey] at hrow
      exact h.filed key row hrow
  · intro rowId
    by_cases hrow : rowId = d.rowId
    · subst hrow
      rw [hheld]
      exact hself
    · have hkey : (Json.str rowId) ≠ .str d.rowId := by simpa using hrow
      rw [hheldOther hkey, hother rowId hrow]
      exact h.same rowId

theorem Synced.eager {pk : String} {t : TableRows} {rows : CachedRows} {e : EagerDelta}
    (h : Synced pk t rows) (he : e.Exact pk t) :
    Synced pk (Client.applyDelta pk t e.delta) (e.record rows) := by
  rcases he with ⟨htaken, hexact⟩
  by_cases hop : e.delta.op = .delete
  · rcases applyEntry_delete pk hop htaken with ⟨entry, hentry, hdata⟩
    have hrecord : e.record rows = rows.erase e.delta.rowId := by
      simp [EagerDelta.record, hop]
    rw [hrecord]
    refine h.applyDelta hentry ?_ ?_ ?_
    · exact fun rowId hne => AList.lookup_erase_ne hne
    · simp [hdata]
    · simp [hdata]
  · have hmerged : ∃ row, e.mergedRow = some row ∧ e.delta.rowId ≠ "" ∧
        (e.delta.payload.getD ∅).entries ≠ [] ∧
        rowIdOf pk (withPk pk e.delta.rowId row) = e.delta.rowId ∧
        ∀ col, takenColumn pk t e.delta col = column (withPk pk e.delta.rowId row) col := by
      cases hrow : e.mergedRow with
      | none =>
          cases hop' : e.delta.op with
          | delete => exact absurd hop' hop
          | insert => simp [hop', hrow] at hexact
          | update => simp [hop', hrow] at hexact
      | some row =>
          refine ⟨row, rfl, ?_⟩
          cases hop' : e.delta.op with
          | delete => exact absurd hop' hop
          | insert => simpa [hop', hrow] using hexact
          | update => simpa [hop', hrow] using hexact
    rcases hmerged with ⟨row, hrow, hne, hpayload, hid, hcols⟩
    rcases applyEntry_taken pk hop hpayload htaken with ⟨entry, data, hentry, hdata, hcol⟩
    have hrecord : e.record rows = rows.insert e.delta.rowId row := by
      cases hop' : e.delta.op with
      | delete => exact absurd hop' hop
      | insert => simp [EagerDelta.record, hop', hrow]
      | update => simp [EagerDelta.record, hop', hrow]
    have hsame : SameRow data (withPk pk e.delta.rowId row) :=
      fun col => (hcol col).trans (hcols col)
    rw [hrecord]
    refine h.applyDelta hentry ?_ ?_ ?_
    · exact fun rowId hne => AList.lookup_insert_ne hne
    · intro data' hdata'
      have : data = data' := by simpa [hdata] using hdata'
      subst this
      exact ⟨(rowIdOf_congr (hsame pk)).trans hid, hne⟩
    · simpa [hdata] using Option.Rel.some hsame

theorem ChannelInv.eager {s : SyncState} (h : ChannelInv cfg c s.version (s.chans c))
    {e : EagerDelta} (hg : e.InOrder cfg c s) :
    ChannelInv cfg c s.version (Channel.eager cfg s e c) := by
  have hsteady : Channel.Steady (Channel.eager cfg s e c) → (s.chans c).Steady :=
    fun hs => ⟨hs.subscribed, hs.notDue, hs.notRead⟩
  have hdelivered : (Channel.eager cfg s e c).delivered = (s.chans c).delivered := rfl
  have hlock : (Channel.eager cfg s e c).lock = (s.chans c).lock := rfl
  -- In a steady channel the delta is sent and recorded, or neither.
  have hnot : (s.chans c).Steady → e.delivers s c = false →
      Channel.eager cfg s e c = s.chans c := by
    intro hs hno
    have hrec : e.records cfg s c = false := (hg.recorded hs).symm.trans hno
    simp [Channel.eager, hno, hrec]
  constructor
  · exact h.valid
  · exact h.declared
  · exact h.handled
  · exact h.reads
  · intro hsub
    have hcached := h.uncached hsub
    simp [Channel.eager, hcached]
  · intro hends key
    have hno : e.delivers s c = false := by
      by_contra hyes
      have := hg.subscribed (Bool.eq_true_of_not_eq_false hyes)
      exact absurd (this.symm.trans hends) (by simp)
    simpa [Channel.eager, hno] using h.unsubscribed hends key
  · exact h.fresh
  · intro hs
    have hold := h.synced (hsteady hs)
    cases hyes : e.delivers s c with
    | false =>
        rw [hnot (hsteady hs) hyes]
        exact hold
    | true =>
        rcases hg.apart (hsteady hs) hyes with ⟨hnone, hunlocked, hsome⟩
        rcases Option.isSome_iff_exists.1 hsome with ⟨rows, hrows⟩
        have hrec : e.records cfg s c = true := (hg.recorded (hsteady hs)).symm.trans hyes
        simp only [Channel.shown, hnone, hunlocked, hrows, committed_none, Option.getD_some] at hold
        have hshown : (Channel.eager cfg s e c).shown cfg c = e.record rows := by
          simp only [Channel.shown, hdelivered, hnone, hlock, hunlocked]
          simp [Channel.eager, hrec, hrows]
        rw [hshown]
        simpa [Channel.eager, hyes] using hold.eager (hg.exact (hsteady hs) hyes)
  · intro hs
    cases hyes : e.delivers s c with
    | false =>
        rw [hnot (hsteady hs) hyes]
        exact h.exact (hsteady hs)
    | true => exact .inl (hg.pending (hsteady hs) hyes)
  · exact fun hs => h.delivered (hsteady hs)

/-! ## Writes -/

/-- A write to a table of the query owes it a broadcast. -/
theorem ChannelInv.writeOwed (h : ChannelInv cfg c version ch) :
    ChannelInv cfg c (version + 1) { ch with owed := true } := by
  have hle : version ≤ version + 1 := Nat.le_succ version
  have hsteady : Channel.Steady { ch with owed := true } → ch.Steady :=
    fun hs => ⟨hs.subscribed, hs.notDue, hs.notRead⟩
  constructor
  · exact h.valid
  · exact h.declared
  · intro handler hmem
    rcases h.handled handler hmem with ⟨sub, hsub, hfits⟩
    exact ⟨sub, hsub, hfits.mono hle⟩
  · exact fun job hjob => (h.reads job hjob).mono hle
  · exact h.uncached
  · exact h.unsubscribed
  · exact fun _ _ => .inr (.inr (.inl rfl))
  · exact fun hs => h.synced (hsteady hs)
  · exact fun _ => .inl (.inl rfl)
  · exact fun hs => h.delivered (hsteady hs)

theorem ChannelInv.writeOther (h : ChannelInv cfg c version ch)
    (hw : cfg.writtenTable version ∉ cfg.tableDependencies c.2) :
    ChannelInv cfg c (version + 1) ch := by
  have hle : version ≤ version + 1 := Nat.le_succ version
  have hpending : ch.Pending cfg c version → ch.Pending cfg c (version + 1) := by
    rintro (howed | ⟨job, hjob, hrefreshes⟩)
    · exact .inl howed
    · exact .inr ⟨job, hjob, hrefreshes.write hw⟩
  constructor
  · exact h.valid
  · exact h.declared
  · intro handler hmem
    rcases h.handled handler hmem with ⟨sub, hsub, hfits⟩
    exact ⟨sub, hsub, hfits.mono hle⟩
  · exact fun job hjob => (h.reads job hjob).mono hle
  · exact h.uncached
  · exact h.unsubscribed
  · intro hends hnotDue
    rcases h.fresh hends hnotDue with hseen | ⟨r, hr, hcurrent⟩ | hp
    · exact .inl (hseen.write hw)
    · exact .inr (.inl ⟨r, hr, hcurrent.write hw⟩)
    · exact .inr (.inr (hpending hp))
  · exact h.synced
  · intro hs
    rcases h.exact hs with hp | heq
    · exact .inl (hpending hp)
    · exact .inr heq
  · exact h.delivered

/-! ## The system -/

theorem ChannelInv.channelStep {s : SyncState} (h : ChannelInv cfg c s.version (s.chans c))
    {e : ChannelEvent} (hg : (s.chans c).Allows cfg c e) {ch' : Channel}
    (hs : channelStep cfg s c e = some ch') : ChannelInv cfg c s.version ch' := by
  cases e with
  | sync params windowSize =>
      cases hs
      exact h.sync params windowSize
  | sendBootstrap =>
      cases hs
      exact h.sendBootstrap
  | sendResume =>
      cases hs
      exact h.sendOther (by simp) (fun _ => rfl) rfl
  | sendLoadMore count =>
      cases hs
      exact h.sendOther (by simp) (fun _ => rfl) rfl
  | sendUnsync =>
      cases hs
      exact h.sendUnsync
  | take skips => exact h.take hs
  | query => exact h.query hs
  | snapshot => exact h.snapshot hg hs
  | finish => exact h.finish hs
  | group j rep => exact h.group hg hs
  | limitFor j limit => exact h.limitFor hs
  | execute j => exact h.execute hs
  | send j => exact h.send hg hs
  | commit => exact h.commit hg hs

/-- Every event keeps the invariant of a channel, whatever holds of the others. -/
theorem ChannelInv.step {s s' : SyncState} {e : SyncEvent}
    (h : ChannelInv cfg c s.version (s.chans c)) (hg : SyncGuard cfg s e)
    (hs : syncStep cfg s e = some s') : ChannelInv cfg c s'.version (s'.chans c) := by
  cases e with
  | write =>
      cases hs
      by_cases hw : cfg.writtenTable s.version ∈ cfg.tableDependencies c.2
      · simpa [stepWrite, hw] using h.writeOwed
      · simpa [stepWrite, hw] using h.writeOther hw
  | broadcast table hlc reaches =>
      simp only [syncStep, stepBroadcast] at hs
      split at hs
      · cases hs
        by_cases hr : table ∈ cfg.tableDependencies c.2 ∧ reaches c.1
        · have hreads : ∀ job ∈ (s.chans c).jobs ++ [.called hlc], job.ReadBy s.version := by
            intro job hjob
            rcases List.mem_append.1 hjob with hjob | hjob
            · exact h.reads job hjob
            · have : job = .called hlc := by simpa using hjob
              subst this
              trivial
          have hcalled : ChannelInv cfg c s.version { s.chans c with
              jobs := (s.chans c).jobs ++ [.called hlc], owed := false } :=
            h.withJobs hreads fun _ _ _ => .inr ⟨.called hlc, by simp, trivial⟩
          simpa [hr] using hcalled
        · simpa only [hr, if_false] using h
      · cases hs
  | eager e =>
      simp only [syncStep, stepEager] at hs
      split at hs
      · cases hs
        exact h.eager (hg c)
      · cases hs
  | stamp hlc =>
      simp only [syncStep] at hs
      split at hs
      · cases hs
        exact h
      · cases hs
  | channel c' e =>
      rcases Option.map_eq_some_iff.1 hs with ⟨ch', hch, rfl⟩
      by_cases hc : c = c'
      · subst hc
        simpa using h.channelStep hg hch
      · simpa [Function.update_of_ne hc] using h

/-- Every channel keeps its invariant. -/
def SyncInv (cfg : SyncConfig) (s : SyncState) : Prop :=
  ∀ c, ChannelInv cfg c s.version (s.chans c)

theorem SyncInv.step {s s' : SyncState} {e : SyncEvent} (h : SyncInv cfg s)
    (hg : SyncGuard cfg s e) (hs : syncStep cfg s e = some s') : SyncInv cfg s' :=
  fun c => (h c).step hg hs

end Sync
end Reflectdb
