import Reflectdb.Sync.CacheMirror

/-!
# Converge — concurrent broadcasts to subscribers that are in sync

Subscribers that have the query's result, writes, and broadcasts in any interleaving.  The query
runs and the HLC is stamped before the lock is taken, so the sections of a subscriber may come in
another order than either; where they come in both orders, cache and client converge to the last
result.
-/

namespace Reflectdb
namespace Sync

open Core Client Server

/-- The steps of writes and broadcasts. -/
def ChannelEvent.isBroadcast : ChannelEvent → Bool
  | .group _ _ => true
  | .limitFor _ _ => true
  | .execute _ => true
  | .send _ => true
  | .commit => true
  | _ => false

def SyncEvent.isBroadcast : SyncEvent → Bool
  | .write => true
  | .broadcast _ _ _ => true
  | .stamp _ => true
  | .eager _ => false
  | .channel _ e => e.isBroadcast

/-- Nothing is under way, and a subscriber is bootstrapped, with the result cached and held. -/
structure Channel.Ready (cfg : SyncConfig) (c : ChannelId) (version : Nat) (ch : Channel) :
    Prop where
  idle : ch.quiescent = true
  valid : ∀ i ∈ ch.sub, i < ch.subs.length
  seen : ch.seen = version
  bootstrapped : ∀ sub ∈ ch.subscription, sub.windowSize.isSome → sub.bootstrapped = true
  unsubscribed : ch.sub = none → ch.cached = none ∧ ∀ key, heldRow ch.table key = none
  synced : ∀ sub ∈ ch.subscription, Synced (cfg.pk c.2) ch.table (ch.cached.getD ∅)
  exact : ∀ sub ∈ ch.subscription, ∀ rowId, (ch.cached.getD ∅).lookup rowId =
    (byRowId (cfg.pk c.2) (cfg.rows c ⟨sub.params, sub.limit, version⟩)).lookup rowId

def SyncState.Ready (cfg : SyncConfig) (s : SyncState) : Prop :=
  ∀ c, (s.chans c).Ready cfg c s.version

/-- The broadcast's read is not older than what the subscriber was last sent, and its HLC is newer
than what the subscriber holds of the rows it changes. -/
structure Channel.SectionInOrder (cfg : SyncConfig) (c : ChannelId) (ch : Channel) (hlc : Hlc)
    (i : Nat) (r : QueryRead) : Prop where
  newer : ch.seen ≤ r.version
  taken : ∀ d ∈ ch.deltas cfg c hlc i r, Taken ch.table d

/-- Writes and broadcasts only. -/
def OnlyBroadcasts (_ : SyncState) (e : SyncEvent) : Prop :=
  e.isBroadcast = true

/-- Each section comes in the order of reads and of HLCs. -/
def SectionsInOrder (cfg : SyncConfig) (s : SyncState) (e : SyncEvent) : Prop :=
  OnlyBroadcasts s e ∧ ∀ c j, e = .channel c (.send j) → ∀ hlc i r,
    (s.chans c).jobs[j]? = some (.read hlc i r) → (s.chans c).SectionInOrder cfg c hlc i r

/-! ## What broadcasts leave alone -/

/-- The broadcast is for the subscription of the channel: its representative has the params, and
its limit covers the window. -/
def Job.For (start : SyncState) (c : ChannelId) : Job → Prop
  | .called _ => True
  | .grouped _ i rep => (start.chans c).sub = some i ∧
    ∀ sub ∈ (start.chans c).subscription, start.paramsOf rep c.2 = sub.params
  | .limited _ i rep limit => (start.chans c).sub = some i ∧
    ∀ sub ∈ (start.chans c).subscription, start.paramsOf rep c.2 = sub.params ∧
      ∀ l ∈ limit, ∃ n ∈ sub.limit, n ≤ l
  | .read _ i r => (start.chans c).sub = some i ∧
    ∀ sub ∈ (start.chans c).subscription, r.params = sub.params ∧
      ∀ l ∈ r.limit, ∃ n ∈ sub.limit, n ≤ l

/-- Subscriptions stay as they were, and each broadcast is for its channel's. -/
structure Undisturbed (start : SyncState) (c : ChannelId) (ch : Channel) : Prop where
  subs : ch.subs = (start.chans c).subs
  sub : ch.sub = (start.chans c).sub
  inbox : ch.inbox = []
  handler : ch.handler = none
  jobs : ∀ job ∈ ch.jobs, job.For start c
  lock : ch.lock.isSome → ch.sub.isSome

variable {cfg : SyncConfig} {start s : SyncState} {c : ChannelId}

theorem Undisturbed.subscription {ch : Channel} (h : Undisturbed start c ch) :
    ch.subscription = (start.chans c).subscription := by
  simp [Channel.subscription, h.subs, h.sub]

theorem undisturbed_start (h : start.Ready cfg) (c : ChannelId) :
    Undisturbed start c (start.chans c) := by
  have hq := (h c).idle
  simp only [Channel.quiescent, Bool.and_eq_true, List.isEmpty_iff, Option.isNone_iff_eq_none,
    Bool.not_eq_true'] at hq
  rcases hq with ⟨⟨⟨⟨⟨hinbox, _⟩, hhandler⟩, hjobs⟩, hlock⟩, _⟩
  exact ⟨rfl, rfl, hinbox, hhandler, by simp [hjobs], by simp [hlock]⟩

theorem Undisturbed.withJobs {ch : Channel} (h : Undisturbed start c ch) {jobs : List Job}
    {owed : Bool} (hjobs : ∀ job ∈ jobs, job.For start c) :
    Undisturbed start c { ch with jobs := jobs, owed := owed } :=
  ⟨h.subs, h.sub, h.inbox, h.handler, hjobs, h.lock⟩

theorem Undisturbed.moveJob {ch : Channel} (h : Undisturbed start c ch) {j : Nat} {job : Job}
    (hjob : job.For start c) : Undisturbed start c { ch with jobs := ch.jobs.set j job } := by
  refine h.withJobs fun k hk => ?_
  rcases List.mem_or_eq_of_mem_set hk with hmem | rfl
  · exact h.jobs k hmem
  · exact hjob

theorem paramsOf_eq (h : ∀ c, Undisturbed start c (s.chans c)) (rep : Nat) (query : String) :
    s.paramsOf rep query = start.paramsOf rep query := by
  simp [SyncState.paramsOf, (h (rep, query)).subscription]

theorem undisturbed_channelStep (h : ∀ c, Undisturbed start c (s.chans c)) {e : ChannelEvent}
    (he : e.isBroadcast = true) {ch' : Channel} (hs : channelStep cfg s c e = some ch') :
    Undisturbed start c ch' := by
  have hc := h c
  cases e with
  | group j rep =>
      simp only [channelStep, Channel.group] at hs
      split at hs
      · split at hs
        · rename_i hlc hjob _ _ i sub hi hsub
          split at hs
          · cases hs
            exact hc.withJobs fun job hjob => hc.jobs job (List.mem_of_mem_eraseIdx hjob)
          · split at hs
            · rename_i hparams
              cases hs
              refine hc.moveJob ⟨hc.sub.symm.trans hi, fun sub' hsub' => ?_⟩
              have : sub' = sub := by
                have heq : (start.chans c).subscription = some sub' := hsub'
                rw [← hc.subscription, hsub] at heq
                cases heq
                rfl
              subst this
              rw [← paramsOf_eq h, SyncState.paramsOf, hparams]
              rfl
            · cases hs
        · cases hs
          exact hc.withJobs fun job hjob => hc.jobs job (List.mem_of_mem_eraseIdx hjob)
      · cases hs
  | limitFor j limit =>
      simp only [channelStep, Channel.limitFor] at hs
      split at hs
      · rename_i hlc i rep hjob
        split at hs
        · cases hs
        · rename_i sub hsub
          split at hs
          · rename_i hlimit
            cases hs
            have hfor := hc.jobs _ (List.mem_of_getElem? hjob)
            refine hc.moveJob ⟨hfor.1, fun sub' hsub' => ⟨hfor.2 sub' hsub', ?_⟩⟩
            have : sub' = sub := by
              have heq : (start.chans c).subscription = some sub' := hsub'
              rw [Channel.subscription, hfor.1, ← hc.subs] at heq
              have heq' : (s.chans c).subs[i]? = some sub' := heq
              rw [hsub] at heq'
              cases heq'
              rfl
            subst this
            exact hlimit
          · cases hs
      · cases hs
  | execute j =>
      simp only [channelStep, Channel.execute] at hs
      split at hs
      · rename_i hlc i rep limit hjob
        cases hs
        have hfor := hc.jobs _ (List.mem_of_getElem? hjob)
        refine hc.moveJob ⟨hfor.1, fun sub hsub => ?_⟩
        rw [paramsOf_eq h]
        exact hfor.2 sub hsub
      · cases hs
  | send j =>
      simp only [channelStep, Channel.send] at hs
      split at hs
      · rename_i hlc i r hjob hlock
        have hfor := hc.jobs _ (List.mem_of_getElem? hjob)
        have hjobs : ∀ job ∈ (s.chans c).jobs.eraseIdx j, job.For start c :=
          fun job hjob => hc.jobs job (List.mem_of_mem_eraseIdx hjob)
        split at hs
        · cases hs
          exact ⟨hc.subs, hc.sub, hc.inbox, hc.handler, hjobs, hc.lock⟩
        · cases hs
          refine ⟨hc.subs, hc.sub, hc.inbox, hc.handler, hjobs, fun _ => ?_⟩
          simp [hc.sub, hfor.1]
      · cases hs
  | commit =>
      rcases Option.map_eq_some_iff.1 hs with ⟨rows, hlock, rfl⟩
      exact ⟨hc.subs, hc.sub, hc.inbox, hc.handler, hc.jobs, by simp⟩
  | sync params windowSize => cases he
  | sendBootstrap => cases he
  | sendResume => cases he
  | sendLoadMore count => cases he
  | sendUnsync => cases he
  | take skips => cases he
  | query => cases he
  | snapshot => cases he
  | finish => cases he

theorem undisturbed_step (h : ∀ c, Undisturbed start c (s.chans c)) {e : SyncEvent}
    (he : OnlyBroadcasts s e) {s' : SyncState} (hs : syncStep cfg s e = some s') (c : ChannelId) :
    Undisturbed start c (s'.chans c) := by
  cases e with
  | write =>
      cases hs
      simp only [stepWrite]
      split
      · exact (h c).withJobs (h c).jobs
      · exact h c
  | broadcast table hlc reaches =>
      simp only [syncStep, stepBroadcast] at hs
      split at hs
      · cases hs
        dsimp only
        split
        · refine (h c).withJobs fun job hjob => ?_
          rcases List.mem_append.1 hjob with hjob | hjob
          · exact (h c).jobs job hjob
          · have : job = .called hlc := by simpa using hjob
            subst this
            trivial
        · exact h c
      · cases hs
  | eager e => cases he
  | stamp hlc =>
      simp only [syncStep] at hs
      split at hs
      · cases hs
        exact h c
      · cases hs
  | channel c' e =>
      rcases Option.map_eq_some_iff.1 hs with ⟨ch', hch, rfl⟩
      by_cases hc : c = c'
      · subst hc
        simpa using undisturbed_channelStep h he hch
      · simpa [Function.update_of_ne hc] using h c

/-! ## Convergence -/

theorem syncInv_ready (h : start.Ready cfg) : SyncInv cfg start := by
  intro c
  have hready := h c
  have hu := undisturbed_start h c
  have hq := hready.idle
  simp only [Channel.quiescent, Bool.and_eq_true, List.isEmpty_iff, Option.isNone_iff_eq_none,
    Bool.not_eq_true'] at hq
  rcases hq with ⟨⟨⟨⟨⟨hinbox, hscheduled⟩, hhandler⟩, hjobs⟩, hlock⟩, _⟩
  have hends : (start.chans c).endsSubscribed = (start.chans c).sub.isSome := by
    simp [Channel.endsSubscribed, hinbox]
  have hdelivered : (start.chans c).delivered = none := by simp [Channel.delivered, hhandler]
  have hshown : (start.chans c).shown cfg c = (start.chans c).cached.getD ∅ := by
    simp [Channel.shown, hdelivered, hlock]
  have hdeclared : ∀ params windowSize post,
      .syncDeclare params windowSize :: post <:+ (start.chans c).inbox →
        (start.chans c).bootstrapScheduled = true ∨
          post.any ClientMessage.isBootstrap = true := by
    intro params windowSize post hsuffix
    rw [hinbox] at hsuffix
    cases List.suffix_nil.1 hsuffix
  have hsub : (start.chans c).Steady → ∃ sub, (start.chans c).subscription = some sub :=
    fun hs => subscription_of_declared hs.subscribed hs.notDue hready.valid hdeclared
  constructor
  · exact hready.valid
  · exact hdeclared
  · simp [hhandler]
  · simp [hjobs]
  · exact fun hnone => (hready.unsubscribed hnone).1
  · intro hnot
    rw [hends] at hnot
    exact (hready.unsubscribed (by simpa using hnot)).2
  · intro _ _
    rw [hready.seen]
    exact .inl .self
  · intro hs
    rcases hsub hs with ⟨sub, hsub⟩
    rw [hshown]
    exact hready.synced sub hsub
  · intro hs
    rcases hsub hs with ⟨sub, hsub⟩
    refine .inr fun r hr rowId => ?_
    have : r = ⟨sub.params, sub.limit, start.version⟩ := by
      simpa [Channel.target, hdelivered, hsub, hready.seen, eq_comm] using hr
    subst this
    rw [hshown]
    exact hready.exact sub hsub rowId
  · simp [hdelivered]

/-- Among writes and broadcasts the order of sections is all there is to the guard. -/
theorem syncGuard_of_sectionsInOrder (hstart : start.Ready cfg)
    (h : ∀ c, Undisturbed start c (s.chans c)) {e : SyncEvent} (hg : SectionsInOrder cfg s e) :
    SyncGuard cfg s e := by
  rcases hg with ⟨he, horder⟩
  cases e with
  | write => trivial
  | broadcast table hlc reaches => trivial
  | stamp hlc => trivial
  | eager e => cases he
  | channel c e =>
      have hc := h c
      cases e with
      | group j rep =>
          intro sub hsub hwindow hboot
          rw [hc.subscription] at hsub
          have := (hstart c).bootstrapped sub hsub hwindow
          simp [hboot] at this
      | send j =>
          intro hlc i r hjob
          have hsection := horder c j rfl hlc i r hjob
          have hfor := hc.jobs _ (List.mem_of_getElem? hjob)
          have hsub : (s.chans c).sub = some i := hc.sub.trans hfor.1
          have hends : (s.chans c).endsSubscribed = true := by
            simp [Channel.endsSubscribed, hc.inbox, hsub]
          have hwindow : ∀ sub ∈ (s.chans c).subscription, r.params = sub.params ∧
              ∀ l ∈ r.limit, ∃ n ∈ sub.limit, n ≤ l := by
            intro sub hmem
            rw [hc.subscription] at hmem
            exact hfor.2 sub hmem
          refine ⟨fun _ => hends, fun _ => by simp [hsub], fun _ => ?_, fun _ _ => hsection.newer,
            fun _ => hsection.taken, fun _ sub hmem => (hwindow sub hmem).1, fun _ sub hmem => ?_⟩
          · simp [Channel.delivered, hc.handler]
          · refine ⟨?_, (hwindow sub hmem).2⟩
            have hget : (s.chans c).subs[i]? = some sub := by
              have hmem' : (s.chans c).subscription = some sub := hmem
              simpa [Channel.subscription, hsub] using hmem'
            simp [hget]
      | commit => exact hc.lock
      | limitFor j limit => trivial
      | execute j => trivial
      | sync params windowSize => cases he
      | sendBootstrap => cases he
      | sendResume => cases he
      | sendLoadMore count => cases he
      | sendUnsync => cases he
      | take skips => cases he
      | query => cases he
      | snapshot => cases he
      | finish => cases he

/-- The property wanted of every interleaving of writes and broadcasts. -/
def ConvergesAlways (cfg : SyncConfig) : Prop :=
  ∀ start, SyncState.Ready cfg start → ∀ s, (syncMachine cfg start).Reach OnlyBroadcasts s →
    ∀ c, (s.chans c).quiescent = true → Settled cfg s c

/-! ## A newer result under an older HLC -/

/-- One row, whose title is the version of the database. -/
def titleRow (version : Nat) : Row :=
  ((∅ : Row).insert "title" (.num version)).insert "id" (.str "a")

def titleSync : SyncConfig where
  pk _ := "id"
  tableDependencies _ := ["todos"]
  writtenTable _ := "todos"
  result _ _ version := [titleRow version]
  frame _ _ _ h := by simp at h

/-- One subscriber, with the row. -/
def titleStart : SyncState where
  version := 0
  clock := "0"
  chans c :=
    if c = todosChannel then
      { Channel.empty with
        subs := [subscribe emptyParams none]
        sub := some 0
        cached := some (byRowId "id" [titleRow 0])
        table := applySnapshot ∅ (snapshotMessage "id" [titleRow 0] "0" false) }
    else .empty

theorem ready_titleStart : titleStart.Ready titleSync := by
  intro c
  by_cases hc : c = todosChannel
  · subst hc
    have hsub : (titleStart.chans todosChannel).subscription = some (subscribe emptyParams none) :=
      rfl
    refine ⟨rfl, ?_, rfl, ?_, ?_, ?_, ?_⟩
    · intro i hi
      have : (0 : Nat) = i := Option.some.inj hi
      subst this
      exact Nat.zero_lt_one
    · intro sub hmem hwindow
      rw [hsub] at hmem
      cases hmem
      cases hwindow
    · intro hnone
      cases hnone
    · intro _ _
      have hempty : false = true → Synced "id" ∅ ∅ := fun hfalse => by cases hfalse
      exact synced_applySnapshot hempty (stringKeyed_sound (by decide)) (by simp; intro rowId; rfl)
    · intro sub hmem rowId
      rw [hsub] at hmem
      cases hmem
      rfl
  · have hempty : titleStart.chans c = .empty := by simp [titleStart, hc]
    rw [hempty]
    refine ⟨rfl, by simp [Channel.empty], rfl, ?_, fun _ => ⟨rfl, ?_⟩, ?_, ?_⟩
    · simp [Channel.empty, Channel.subscription]
    · simp [Channel.empty, heldRow]
    · simp [Channel.empty, Channel.subscription]
    · simp [Channel.empty, Channel.subscription]

/-- The broadcast called first reads after the second write and enters its section last. -/
def overtakingEvents : List SyncEvent :=
  [.write, .broadcast "todos" "1" fun _ => true, .broadcast "todos" "2" fun _ => true] ++
    [.group 1 0, .limitFor 1 none, .execute 1, .send 1, .commit].map (.channel todosChannel) ++
    [.write, .broadcast "todos" "3" fun _ => true] ++
    [.group 0 0, .limitFor 0 none, .execute 0, .send 0, .commit].map (.channel todosChannel) ++
    [.group 0 0, .limitFor 0 none, .execute 0, .send 0].map (.channel todosChannel)

/-- A check of `SectionsInOrder`. -/
def sectionsInOrder (cfg : SyncConfig) (s : SyncState) (e : SyncEvent) : Bool :=
  e.isBroadcast &&
    match e with
    | .channel c (.send j) =>
      match (s.chans c).jobs[j]? with
      | some (.read hlc i r) =>
        decide ((s.chans c).seen ≤ r.version) &&
          ((s.chans c).deltas cfg c hlc i r).all (takes (s.chans c).table)
      | _ => true
    | _ => true

theorem sectionsInOrder_sound {e : SyncEvent} (h : sectionsInOrder cfg s e = true) :
    SectionsInOrder cfg s e := by
  have hboth := Bool.and_eq_true_iff.1 h
  refine ⟨hboth.1, ?_⟩
  rintro c j rfl hlc i r hjob
  have hcheck := hboth.2
  simp only [hjob, Bool.and_eq_true, decide_eq_true_eq] at hcheck
  exact ⟨hcheck.1, fun d hd => taken_of_takes (List.all_eq_true.1 hcheck.2 d hd)⟩

end Sync
end Reflectdb
