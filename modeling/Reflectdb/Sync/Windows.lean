import Mathlib.Algebra.GroupWithZero.Nat
import Reflectdb.Lib.OrderedSet
import Reflectdb.Sync.Converge

/-!
# Windows — what a windowed subscription entitles a client to

Every `load_more` that is served widens the window of its subscription at the server.  A connection
that is lost takes the session along, and the client declares its queries again from what it has on
record: the options of its `sync` calls, which no `load_more` touches.

The channels are those of `Sync.Channel`, with the connections of the clients beside them.
-/

namespace Reflectdb
namespace Sync

open Core Client Server

/-! ## The client's record -/

/-- What the client keeps of a query it syncs: `syncParams`, and the window of `syncOptions`. -/
structure SyncRecord where
  params : Option Json
  options : Option (Option Nat)

/-- `sync` keeps the params and the options of an earlier call where it has none of its own. -/
def SyncRecord.sync (record : Option SyncRecord) (params : Option Json)
    (options : Option (Option Nat)) : SyncRecord where
  params := params <|> record.bind (·.params)
  options := options <|> record.bind (·.options)

/-- The declare of a query from the record. -/
def SyncRecord.declare (record : SyncRecord) : ClientMessage :=
  .syncDeclare (record.params.getD emptyParams) record.options.join

inductive Link
  | never
  | up
  | lost
  deriving DecidableEq

/-- A connection opens: the declares that were queued, and after a lost one those of all queries. -/
def Link.declares (link : Link) (queued : Bool) (record : SyncRecord) : List ClientMessage :=
  (if queued then [record.declare] else []) ++ if link = .lost then [record.declare] else []

/-! ## The system -/

/-- What the client asked for: the window of its last `sync`, the counts of its `load_more`s since
then that were served, and the count of the one that is handled. -/
structure Asked where
  window : Option Nat
  served : List Nat
  handled : Nat

/-- The rows that the client is entitled to; none stands for no window. -/
def Asked.entitlement (a : Asked) : Option Nat :=
  a.window.map (· + a.served.sum)

structure WindowState where
  sync : SyncState
  links : Nat → Link
  records : Nat → Record SyncRecord
  /-- Queries whose declares wait for the handshake. -/
  queuedDeclares : Nat → List String
  /-- No step reads this. -/
  asked : ChannelId → Asked

inductive WindowEvent
  | sync (c : ChannelId) (params : Option Json) (options : Option (Option Nat))
  | unsync (c : ChannelId)
  /-- The client gets a connection.  `calls`: the broadcasts that left the old one out, and look for
  subscribers only now. -/
  | connect (client : Nat) (calls : String → List Hlc)
  /-- The client loses its connection, and what was on its way: it is left with these rows. -/
  | disconnect (client : Nat) (left : String → TableRows)
  /-- The query of a `load_more` throws, or its page does not reach the client. -/
  | failPage (c : ChannelId)
  /-- Anything else. -/
  | event (e : SyncEvent)

/-- The session is gone, and with it what only it had been looked up for. -/
def Channel.disconnect (ch : Channel) (table : TableRows) : Channel :=
  { ch with
    sub := none
    cached := none
    table := table
    inbox := []
    bootstrapScheduled := false
    handler := none
    jobs := ch.jobs.filter fun job => match job with
      | .called _ => true
      | _ => false
    lock := none }

/-- Behind the declares there is a bootstrap. -/
def Channel.connect (ch : Channel) (declares : List ClientMessage) (calls : List Hlc) : Channel :=
  { ch with
    inbox := declares
    bootstrapScheduled := !declares.isEmpty
    jobs := ch.jobs ++ calls.map .called }

/-- `handleLoadMore` returns without a page. -/
def Channel.failPage (cfg : SyncConfig) (c : ChannelId) (ch : Channel) : Option Channel :=
  match ch.handler with
  | some (.loadMore _ _ .querying) => some { ch with handler := none }
  | some (.loadMore prevLoaded _ (.read r)) =>
    if cfg.newRows c r prevLoaded = [] then none else some { ch with handler := none }
  | _ => none

def ClientMessage.window : ClientMessage → Option (Option Nat)
  | .syncDeclare _ windowSize => some windowSize
  | _ => none

/-- The window of the last declare under way. -/
def declaredWindow (inbox : List ClientMessage) : Option (Option Nat) :=
  (inbox.filterMap ClientMessage.window).getLast?

def MAX_LOAD_MORE_COUNT : Nat :=
  100000

/-- What a client sends goes out while it has a connection; its `sync` and `unsync` are events of
their own, and `validateClientMessage` drops a `load_more` of no rows or of too many. -/
def WindowState.sends (s : WindowState) : SyncEvent → Prop
  | .channel _ (.sync _ _) => False
  | .channel _ .sendUnsync => False
  | .channel c .sendBootstrap => s.links c.1 = .up
  | .channel c .sendResume => s.links c.1 = .up
  | .channel c (.sendLoadMore count) =>
    s.links c.1 = .up ∧ 0 < count ∧ count ≤ MAX_LOAD_MORE_COUNT
  | _ => True

instance (s : WindowState) : DecidablePred s.sends
  | .channel _ (.sync _ _) => inferInstanceAs (Decidable False)
  | .channel _ .sendUnsync => inferInstanceAs (Decidable False)
  | .channel _ .sendBootstrap => inferInstanceAs (Decidable (_ = _))
  | .channel _ .sendResume => inferInstanceAs (Decidable (_ = _))
  | .channel _ (.sendLoadMore _) => inferInstanceAs (Decidable (_ ∧ _ ∧ _))
  | .channel _ (.take _) | .channel _ .query | .channel _ .snapshot | .channel _ .finish
  | .channel _ (.group _ _) | .channel _ (.limitFor _ _) | .channel _ (.execute _)
  | .channel _ (.send _) | .channel _ .commit => inferInstanceAs (Decidable True)
  | .write | .broadcast .. | .eager _ | .stamp _ => inferInstanceAs (Decidable True)

/-- A `load_more` counts from when it is through, unless the client has called `sync` again. -/
def Channel.askedAfter (ch : Channel) (a : Asked) : ChannelEvent → Asked
  | .take _ =>
    match ch.inbox with
    | .loadMore count :: _ => { a with handled := count }
    | _ => a
  | .finish =>
    match ch.handler with
    | some (.loadMore _ _ _) =>
      if declaredWindow ch.inbox = none then { a with served := a.served ++ [a.handled] } else a
    | _ => a
  | _ => a

namespace WindowState

def setChannel (s : WindowState) (c : ChannelId) (ch : Channel) : WindowState :=
  { s with sync := { s.sync with chans := Function.update s.sync.chans c ch } }

/-- The channels of the client change. -/
def mapChannels (s : WindowState) (client : Nat) (f : String → Channel → Channel) : SyncState :=
  { s.sync with chans := fun c => if c.1 = client then f c.2 (s.sync.chans c) else s.sync.chans c }

def stepSync (s : WindowState) (c : ChannelId) (params : Option Json)
    (options : Option (Option Nat)) : WindowState :=
  let record := SyncRecord.sync ((s.records c.1).lookup c.2) params options
  let s := { s with
    records := Function.update s.records c.1 ((s.records c.1).insert c.2 record)
    asked := Function.update s.asked c ⟨options.join.filter (0 < ·), [], (s.asked c).handled⟩ }
  if s.links c.1 = .up then
    s.setChannel c ((s.sync.chans c).sync (params.getD emptyParams) options.join)
  else
    { s with queuedDeclares :=
        Function.update s.queuedDeclares c.1 (Lib.addLast (s.queuedDeclares c.1) c.2) }

def stepUnsync (s : WindowState) (c : ChannelId) : WindowState :=
  let s := { s with records := Function.update s.records c.1 ((s.records c.1).erase c.2) }
  if s.links c.1 = .up then s.setChannel c (s.sync.chans c).sendUnsync
  else s.setChannel c { s.sync.chans c with table := ∅ }

/-- The messages that the client sends for a query when its connection opens. -/
def declares (s : WindowState) (client : Nat) (query : String) : List ClientMessage :=
  (((s.records client).lookup query).map
    ((s.links client).declares (query ∈ s.queuedDeclares client))).getD []

def stepConnect (s : WindowState) (client : Nat) (calls : String → List Hlc) :
    Option WindowState :=
  if s.links client = .up then none
  else
    some { s with
      sync := s.mapChannels client fun query ch =>
        ch.connect (s.declares client query) (calls query)
      links := Function.update s.links client .up
      queuedDeclares := Function.update s.queuedDeclares client [] }

def stepDisconnect (s : WindowState) (client : Nat) (left : String → TableRows) :
    Option WindowState :=
  if s.links client = .up then
    some { s with
      sync := s.mapChannels client fun query ch =>
        ch.disconnect (if query ∈ s.records client then left query else ch.table)
      links := Function.update s.links client .lost }
  else none

def askedAfter (s : WindowState) : SyncEvent → ChannelId → Asked
  | .channel c e => Function.update s.asked c ((s.sync.chans c).askedAfter (s.asked c) e)
  | _ => s.asked

def step (cfg : SyncConfig) (s : WindowState) : WindowEvent → Option WindowState
  | .sync c params options => some (s.stepSync c params options)
  | .unsync c => some (s.stepUnsync c)
  | .connect client calls => s.stepConnect client calls
  | .disconnect client left => s.stepDisconnect client left
  | .failPage c => ((s.sync.chans c).failPage cfg c).map (s.setChannel c)
  | .event e =>
    if s.sends e then
      (syncStep cfg s.sync e).map fun sync => { s with sync := sync, asked := s.askedAfter e }
    else none

/-- No client has connected yet. -/
def initial (clock : Hlc) : WindowState :=
  ⟨.initial clock, fun _ => .never, fun _ => ∅, fun _ => [], fun _ => ⟨none, [], 0⟩⟩

end WindowState

def windowMachine (cfg : SyncConfig) (clock : Hlc) : Lib.Machine WindowState WindowEvent :=
  ⟨.initial clock, WindowState.step cfg⟩

/-! ## The property -/

/-- The subscription's window is what the client is entitled to, and the client holds so many rows
of the query, from the first. -/
structure WindowKept (cfg : SyncConfig) (s : WindowState) (c : ChannelId) : Prop where
  subscribed : c.2 ∈ s.records c.1 → (s.sync.chans c).subscription.isSome
  limit : ∀ sub ∈ (s.sync.chans c).subscription, sub.limit = (s.asked c).entitlement
  holds : ∀ sub ∈ (s.sync.chans c).subscription, Mirrors (cfg.pk c.2) (s.sync.chans c).table
    (byRowId (cfg.pk c.2)
      (windowRows (s.asked c).entitlement (cfg.result c sub.params s.sync.version)))
  nothing : (s.sync.chans c).subscription = none → ∀ key, heldRow (s.sync.chans c).table key = none

/-- What the client has on record of each query is the window that it is entitled to. -/
def WindowState.Restores (s : WindowState) (client : Nat) : Prop :=
  ∀ query record, (s.records client).lookup query = some record →
    record.options.join.filter (0 < ·) = (s.asked (client, query)).entitlement

/-- The condition. -/
def WindowGuard (cfg : SyncConfig) (s : WindowState) : WindowEvent → Prop
  | .connect client _ => s.Restores client
  | .event e => SyncGuard cfg s.sync e
  | _ => True

variable {cfg : SyncConfig} {c : ChannelId} {ch ch' : Channel} {a : Asked}

/-! ### What broadcasts leave alone -/

structure SameSession (ch ch' : Channel) : Prop where
  inbox : ch'.inbox = ch.inbox
  handler : ch'.handler = ch.handler
  subs : ch'.subs = ch.subs
  sub : ch'.sub = ch.sub

namespace SameSession

theorem subscription (h : SameSession ch ch') : ch'.subscription = ch.subscription := by
  rw [Channel.subscription, Channel.subscription, h.sub, h.subs]

theorem endsSubscribed (h : SameSession ch ch') : ch'.endsSubscribed = ch.endsSubscribed := by
  rw [Channel.endsSubscribed, Channel.endsSubscribed, h.inbox, h.sub]

theorem of_broadcast {s : SyncState} {e : ChannelEvent} (he : e.isBroadcast = true)
    (hs : channelStep cfg s c e = some ch') : SameSession (s.chans c) ch' := by
  cases e with
  | group j rep =>
      simp only [channelStep, Channel.group] at hs
      split at hs
      · split at hs
        · split at hs
          · cases hs
            exact ⟨rfl, rfl, rfl, rfl⟩
          · rcases Option.ite_none_right_eq_some.1 hs with ⟨-, hs⟩
            cases hs
            exact ⟨rfl, rfl, rfl, rfl⟩
        · cases hs
          exact ⟨rfl, rfl, rfl, rfl⟩
      · cases hs
  | limitFor j limit =>
      simp only [channelStep, Channel.limitFor] at hs
      split at hs
      · split at hs
        · cases hs
        · rcases Option.ite_none_right_eq_some.1 hs with ⟨-, hs⟩
          cases hs
          exact ⟨rfl, rfl, rfl, rfl⟩
      · cases hs
  | execute j =>
      simp only [channelStep, Channel.execute] at hs
      split at hs
      · cases hs
        exact ⟨rfl, rfl, rfl, rfl⟩
      · cases hs
  | send j =>
      simp only [channelStep, Channel.send] at hs
      split at hs
      · split at hs
        · cases hs
          exact ⟨rfl, rfl, rfl, rfl⟩
        · cases hs
          exact ⟨rfl, rfl, rfl, rfl⟩
      · cases hs
  | commit =>
      rcases Option.map_eq_some_iff.1 hs with ⟨rows, -, rfl⟩
      exact ⟨rfl, rfl, rfl, rfl⟩
  | sync _ _ | sendBootstrap | sendResume | sendLoadMore _ | sendUnsync | take _ | query
  | snapshot | finish => cases he

end SameSession

/-! ## The invariant of one channel -/

/-- What comes of the messages under way is what the client is entitled to. -/
structure ChannelWindow (a : Asked) (ch : Channel) : Prop where
  declared : ∀ w, declaredWindow ch.inbox = some w → w.filter (0 < ·) = a.entitlement
  current : declaredWindow ch.inbox = none → ∀ sub ∈ ch.subscription, sub.limit = a.entitlement
  handled : ∀ prevLoaded newLimit fetch, ch.handler = some (.loadMore prevLoaded newLimit fetch) →
    ∀ sub ∈ ch.subscription, sub.limit.map (· + a.handled) = some newLimit

theorem limit_subscribe (params : Json) (w : Option Nat) :
    (subscribe params w).limit = w.filter (0 < ·) := by
  cases hw : w.filter (0 < ·) with
  | none => simp [subscribe, QuerySubscription.limit, hw]
  | some n => simp [subscribe, QuerySubscription.limit, hw]

theorem entitlement_start (w : Option Nat) (handled : Nat) :
    (Asked.mk w [] handled).entitlement = w := by
  simp [Asked.entitlement]

theorem entitlement_serve (a : Asked) :
    ({ a with served := a.served ++ [a.handled] } : Asked).entitlement =
      a.entitlement.map (· + a.handled) := by
  cases hw : a.window with
  | none => simp [Asked.entitlement, hw]
  | some n => simp [Asked.entitlement, hw, Nat.add_assoc]

theorem declaredWindow_append (inbox inbox' : List ClientMessage) :
    declaredWindow (inbox ++ inbox') = (declaredWindow inbox').or (declaredWindow inbox) := by
  rw [declaredWindow, List.filterMap_append, List.getLast?_append]
  rfl

theorem declaredWindow_cons (m : ClientMessage) (inbox : List ClientMessage) :
    declaredWindow (m :: inbox) = (declaredWindow inbox).or m.window := by
  rw [← List.singleton_append, declaredWindow_append]
  cases m <;> rfl

theorem declaredWindow_concat {inbox : List ClientMessage} {m : ClientMessage}
    (hm : m.window = none) : declaredWindow (inbox ++ [m]) = declaredWindow inbox := by
  rw [declaredWindow_append, declaredWindow_cons, hm]
  rfl

section ModifySub

variable (ch : Channel) (f : QuerySubscription → QuerySubscription)

theorem subscription_modifySub : (ch.modifySub f).subscription = ch.subscription.map f := by
  cases hsub : ch.sub with
  | none => simp [Channel.modifySub, Channel.subscription, hsub]
  | some i => simp [Channel.modifySub, Channel.subscription, hsub]

theorem inbox_modifySub : (ch.modifySub f).inbox = ch.inbox := by
  cases hsub : ch.sub <;> simp [Channel.modifySub, hsub]

theorem handler_modifySub : (ch.modifySub f).handler = ch.handler := by
  cases hsub : ch.sub <;> simp [Channel.modifySub, hsub]

end ModifySub

namespace ChannelWindow

/-- The windows are no matter of cache, rows and broadcasts. -/
theorem congr (h : ChannelWindow a ch) (hsame : SameSession ch ch') : ChannelWindow a ch' := by
  refine ⟨?_, ?_, ?_⟩
  · rw [hsame.inbox]
    exact h.declared
  · rw [hsame.inbox, hsame.subscription]
    exact h.current
  · rw [hsame.handler, hsame.subscription]
    exact h.handled

/-- The client sends a message. -/
theorem send (h : ChannelWindow a ch) {m : ClientMessage} (hm : m.window = none)
    (hinbox : ch'.inbox = ch.inbox ++ [m]) (hhandler : ch'.handler = ch.handler)
    (hsub : ch'.subscription = ch.subscription) : ChannelWindow a ch' := by
  have hdeclared : declaredWindow ch'.inbox = declaredWindow ch.inbox := by
    rw [hinbox, declaredWindow_concat hm]
  refine ⟨?_, ?_, ?_⟩
  · rw [hdeclared]
    exact h.declared
  · rw [hdeclared, hsub]
    exact h.current
  · rw [hhandler, hsub]
    exact h.handled

/-- A new `sync` starts from its own window. -/
theorem sync (h : ChannelWindow a ch) (params : Json) (w : Option Nat) :
    ChannelWindow ⟨w.filter (0 < ·), [], a.handled⟩ (ch.sync params w) := by
  have hdeclared : declaredWindow (ch.sync params w).inbox = some w := by
    rw [Channel.sync, declaredWindow_append]
    rfl
  refine ⟨fun w' hw' => ?_, fun hnone => ?_, h.handled⟩
  · rw [hdeclared] at hw'
    cases hw'
    exact (entitlement_start _ _).symm
  · rw [hdeclared] at hnone
    cases hnone

theorem ofIdle (hhandler : ch.handler = none) (hsub : ch.subscription = none)
    (hdeclared : ∀ w, declaredWindow ch.inbox = some w → w.filter (0 < ·) = a.entitlement) :
    ChannelWindow a ch := by
  refine ⟨hdeclared, fun _ sub hmem => ?_, fun _ _ _ hsome => ?_⟩
  · rw [hsub] at hmem
    cases hmem
  · rw [hhandler] at hsome
    cases hsome

/-- No `load_more` is handled any more. -/
theorem withHandler (h : ChannelWindow a ch) {handler : Option Handler}
    (hhandler : ∀ prevLoaded newLimit fetch, handler ≠ some (.loadMore prevLoaded newLimit fetch)) :
    ChannelWindow a { ch with handler := handler } :=
  ⟨h.declared, h.current, fun _ _ _ hsome => absurd hsome (hhandler _ _ _)⟩

/-- The page that is fetched is of the same limit. -/
theorem withFetch (h : ChannelWindow a ch) {prevLoaded newLimit : Nat} {fetch fetch' : Fetch}
    (hhandler : ch.handler = some (.loadMore prevLoaded newLimit fetch)) :
    ChannelWindow a { ch with handler := some (.loadMore prevLoaded newLimit fetch') } := by
  refine ⟨h.declared, h.current, fun prevLoaded' newLimit' _ hsome => ?_⟩
  cases hsome
  exact h.handled prevLoaded newLimit fetch hhandler

theorem take (h : ChannelWindow a ch) {clock : Hlc} {skips : Bool}
    (hs : ch.take clock skips = some ch') :
    ChannelWindow (ch.askedAfter a (.take skips)) ch' := by
  unfold Channel.take at hs
  split at hs
  · rename_i m inbox hhandler hinbox
    have hdeclared : declaredWindow ch.inbox = (declaredWindow inbox).or m.window := by
      rw [hinbox, declaredWindow_cons]
    -- A message other than a declare leaves what has been declared.
    have hrest : m.window = none → ∀ handler : Option Handler,
        (∀ prevLoaded newLimit fetch, handler ≠ some (.loadMore prevLoaded newLimit fetch)) →
          ChannelWindow a { ch with inbox := inbox, handler := handler } := by
      intro hm handler hnot
      rw [hm, Option.or_none] at hdeclared
      refine ⟨fun w hw => h.declared w (hdeclared.trans hw), fun hnone => ?_,
        fun _ _ _ hsome => absurd hsome (hnot _ _ _)⟩
      exact h.current (hdeclared.trans hnone)
    cases m with
    | syncDeclare params w =>
        cases hs
        rw [Channel.askedAfter, hinbox]
        refine ⟨fun w' hw' => h.declared w' ?_, fun hnone sub hsub => ?_, fun _ _ _ hsome => ?_⟩
        · replace hw' : declaredWindow inbox = some w' := hw'
          rw [hdeclared, hw']
          rfl
        · replace hnone : declaredWindow inbox = none := hnone
          have hsub' : sub = subscribe params w := by
            simpa [Channel.subscription, eq_comm] using hsub
          rw [hsub', limit_subscribe]
          exact h.declared w (by rw [hdeclared, hnone]; rfl)
        · replace hsome : ch.handler = some _ := hsome
          rw [hhandler] at hsome
          cases hsome
    | unsync =>
        cases hs
        rw [Channel.askedAfter, hinbox]
        rw [show ClientMessage.unsync.window = none from rfl, Option.or_none] at hdeclared
        refine ofIdle hhandler rfl fun w hw => h.declared w ?_
        exact hdeclared.trans hw
    | bootstrap =>
        cases hs
        rw [Channel.askedAfter, hinbox]
        refine hrest rfl _ fun _ _ _ hsome => ?_
        rcases Option.map_eq_some_iff.1 hsome with ⟨_, _, heq⟩
        cases heq
    | resume =>
        cases hs
        rw [Channel.askedAfter, hinbox]
        refine hrest rfl _ fun _ _ _ hsome => ?_
        split at hsome
        · cases hsome
        · rcases Option.map_eq_some_iff.1 hsome with ⟨_, _, heq⟩
          cases heq
    | loadMore count =>
        rw [Channel.askedAfter, hinbox]
        rw [show (ClientMessage.loadMore count).window = none from rfl, Option.or_none] at hdeclared
        dsimp only at hs
        split at hs
        · rename_i hnone
          cases hs
          refine ofIdle hhandler hnone fun w hw => ?_
          exact h.declared w (hdeclared.trans hw)
        · rename_i sub hsub
          cases hs
          refine ⟨fun w hw => h.declared w (hdeclared.trans hw),
            fun hnone => h.current (hdeclared.trans hnone), fun _ newLimit _ hsome sub' hsub' => ?_⟩
          have heq : sub' = sub := Option.some.inj (hsub'.symm.trans hsub)
          rcases Option.map_eq_some_iff.1 hsome with ⟨limit, hlimit, hload⟩
          cases hload
          rw [heq, hlimit]
          rfl
  · cases hs

theorem query (h : ChannelWindow a ch) {version : Nat} (hs : ch.query version = some ch') :
    ChannelWindow a ch' := by
  unfold Channel.query at hs
  split at hs
  · cases hs
    exact h.withHandler fun _ _ _ heq => nomatch heq
  · rename_i hhandler _
    cases hs
    exact h.withFetch hhandler
  · cases hs

theorem snapshot (h : ChannelWindow a ch) {clock : Hlc}
    (hs : ch.snapshot cfg c clock = some ch') : ChannelWindow a ch' := by
  unfold Channel.snapshot at hs
  split at hs
  · cases hs
    refine ChannelWindow.congr (h.withHandler fun _ _ _ heq => ?_) ⟨rfl, rfl, rfl, rfl⟩
    cases heq
  · rename_i hhandler
    cases hs
    exact ChannelWindow.congr (h.withFetch hhandler) ⟨rfl, rfl, rfl, rfl⟩
  · cases hs

/-- What a page that is through entitles the client to. -/
theorem finish (h : ChannelWindow a ch) (hs : ch.finish cfg c = some ch') :
    ChannelWindow (ch.askedAfter a .finish) ch' := by
  unfold Channel.finish at hs
  split at hs
  · rename_i r hhandler
    cases hs
    rw [Channel.askedAfter, hhandler]
    refine ⟨?_, ?_, ?_⟩
    · rw [inbox_modifySub]
      exact h.declared
    · rw [inbox_modifySub, subscription_modifySub]
      intro hnone sub hsub
      rcases Option.map_eq_some_iff.1 hsub with ⟨old, hold, rfl⟩
      exact h.current hnone old hold
    · rw [handler_modifySub]
      intro _ _ _ hsome
      cases hsome
  · rename_i prevLoaded newLimit r hhandler
    cases hs
    rw [Channel.askedAfter, hhandler]
    dsimp only
    refine ⟨fun w hw => ?_, fun hnone sub hsub => ?_, fun _ _ _ hsome => ?_⟩
    · rw [inbox_modifySub] at hw
      replace hw : declaredWindow ch.inbox = some w := hw
      rw [if_neg (by simp [hw])]
      exact h.declared w hw
    · rw [inbox_modifySub] at hnone
      replace hnone : declaredWindow ch.inbox = none := hnone
      rw [subscription_modifySub] at hsub
      rcases Option.map_eq_some_iff.1 hsub with ⟨old, hold, rfl⟩
      rw [if_pos hnone, entitlement_serve, ← h.current hnone old hold,
        h.handled prevLoaded newLimit _ hhandler old hold]
      -- The window is counted on, so there is one.
      have hwindow : old.windowSize.isSome := by
        by_contra hno
        have hlimit := h.handled prevLoaded newLimit _ hhandler old hold
        simp [QuerySubscription.limit, hno] at hlimit
      simp [QuerySubscription.limit, hwindow]
    · rw [handler_modifySub] at hsome
      cases hsome
  · cases hs

/-- One event of the channel, a `sync` aside. -/
theorem channelStep {s : SyncState} (h : ChannelWindow a (s.chans c)) {e : ChannelEvent}
    (hsync : ∀ params w, e ≠ .sync params w) (hs : channelStep cfg s c e = some ch') :
    ChannelWindow ((s.chans c).askedAfter a e) ch' := by
  cases e with
  | sync params w => exact absurd rfl (hsync params w)
  | sendBootstrap =>
      cases hs
      exact h.send rfl rfl rfl rfl
  | sendResume =>
      cases hs
      exact h.send rfl rfl rfl rfl
  | sendLoadMore count =>
      cases hs
      exact h.send rfl rfl rfl rfl
  | sendUnsync =>
      cases hs
      exact h.send rfl rfl rfl rfl
  | take skips => exact h.take hs
  | query => exact h.query hs
  | snapshot => exact h.snapshot hs
  | finish => exact h.finish hs
  | group j rep => exact h.congr (.of_broadcast rfl hs)
  | limitFor j limit => exact h.congr (.of_broadcast rfl hs)
  | execute j => exact h.congr (.of_broadcast rfl hs)
  | send j => exact h.congr (.of_broadcast rfl hs)
  | commit => exact h.congr (.of_broadcast rfl hs)

end ChannelWindow

/-! ## Without a connection -/

/-- The server has nothing of the client, and nothing is on its way. -/
structure Offline (ch : Channel) : Prop where
  sub : ch.sub = none
  cached : ch.cached = none
  inbox : ch.inbox = []
  scheduled : ch.bootstrapScheduled = false
  handler : ch.handler = none
  jobs : ∀ job ∈ ch.jobs, ∃ hlc, job = .called hlc
  lock : ch.lock = none

namespace Offline

theorem subscription (h : Offline ch) : ch.subscription = none := by
  rw [Channel.subscription, h.sub]
  rfl

theorem endsSubscribed (h : Offline ch) : ch.endsSubscribed = false := by
  rw [Channel.endsSubscribed, h.inbox, h.sub]
  rfl

theorem window (h : Offline ch) : ChannelWindow a ch := by
  refine .ofIdle h.handler h.subscription fun w hw => ?_
  rw [h.inbox] at hw
  cases hw

theorem withJobs (h : Offline ch) {jobs : List Job} {owed : Bool}
    (hjobs : ∀ job ∈ jobs, ∃ hlc, job = .called hlc) :
    Offline { ch with jobs := jobs, owed := owed } :=
  ⟨h.sub, h.cached, h.inbox, h.scheduled, h.handler, hjobs, h.lock⟩

theorem withTable (h : Offline ch) (table : TableRows) : Offline { ch with table := table } :=
  ⟨h.sub, h.cached, h.inbox, h.scheduled, h.handler, h.jobs, h.lock⟩

theorem disconnect (ch : Channel) (table : TableRows) : Offline (ch.disconnect table) := by
  refine ⟨rfl, rfl, rfl, rfl, rfl, fun job hjob => ?_, rfl⟩
  have hcalled := (List.mem_filter.1 hjob).2
  cases job with
  | called hlc => exact ⟨hlc, rfl⟩
  | grouped _ _ _ | limited _ _ _ _ | read _ _ _ => cases hcalled

/-- All that goes on is that broadcasts find no subscriber. -/
theorem channelStep {s : SyncState} (h : Offline (s.chans c)) {e : ChannelEvent}
    (hsync : ∀ params w, e ≠ .sync params w) (hbootstrap : e ≠ .sendBootstrap)
    (hresume : e ≠ .sendResume) (hload : ∀ count, e ≠ .sendLoadMore count)
    (hunsync : e ≠ .sendUnsync) (hs : channelStep cfg s c e = some ch') :
    Offline ch' ∧ ch'.table = (s.chans c).table := by
  have hcalled : ∀ {j : Nat} {job : Job}, (s.chans c).jobs[j]? = some job →
      ∃ hlc, job = .called hlc := fun hjob => h.jobs _ (List.mem_of_getElem? hjob)
  cases e with
  | sync params w => exact absurd rfl (hsync params w)
  | sendBootstrap => exact absurd rfl hbootstrap
  | sendResume => exact absurd rfl hresume
  | sendLoadMore count => exact absurd rfl (hload count)
  | sendUnsync => exact absurd rfl hunsync
  | take skips => simp [Sync.channelStep, Channel.take, h.inbox] at hs
  | query => simp [Sync.channelStep, Channel.query, h.handler] at hs
  | snapshot => simp [Sync.channelStep, Channel.snapshot, h.handler] at hs
  | finish => simp [Sync.channelStep, Channel.finish, h.handler] at hs
  | group j rep =>
      simp only [Sync.channelStep, Channel.group] at hs
      split at hs
      · split at hs
        · rename_i hsub _
          rw [h.sub] at hsub
          cases hsub
        · cases hs
          exact ⟨h.withJobs fun job hjob => h.jobs job (List.mem_of_mem_eraseIdx hjob), rfl⟩
      · cases hs
  | limitFor j limit =>
      simp only [Sync.channelStep, Channel.limitFor] at hs
      split at hs
      · rename_i hjob
        rcases hcalled hjob with ⟨_, heq⟩
        cases heq
      · cases hs
  | execute j =>
      simp only [Sync.channelStep, Channel.execute] at hs
      split at hs
      · rename_i hjob
        rcases hcalled hjob with ⟨_, heq⟩
        cases heq
      · cases hs
  | send j =>
      simp only [Sync.channelStep, Channel.send] at hs
      split at hs
      · rename_i hjob _
        rcases hcalled hjob with ⟨_, heq⟩
        cases heq
      · cases hs
  | commit => simp [Sync.channelStep, Channel.commit, h.lock] at hs

end Offline

/-! ## The invariant of the system -/

/-- A channel beside the connection of its client; whether the client syncs the query, and whether
the declare is queued. -/
structure LinkedInv (cfg : SyncConfig) (c : ChannelId) (version : Nat) (link : Link)
    (synced queued : Prop) (a : Asked) (ch : Channel) : Prop where
  up : link = .up → ChannelInv cfg c version ch
  subscribed : link = .up → (ch.endsSubscribed = true ↔ synced)
  down : link ≠ .up → Offline ch
  dropped : link ≠ .up → ¬ synced → ∀ key, heldRow ch.table key = none
  /-- Before its first connection all that the client syncs is queued. -/
  never : link = .never → synced → queued
  window : ChannelWindow a ch

def WindowInv (cfg : SyncConfig) (s : WindowState) : Prop :=
  ∀ c : ChannelId, LinkedInv cfg c s.sync.version (s.links c.1) (c.2 ∈ s.records c.1)
    (c.2 ∈ s.queuedDeclares c.1) (s.asked c) (s.sync.chans c)

/-- What writes, broadcasts, eager deltas and the steps of other channels leave of a channel. -/
structure Beside (ch ch' : Channel) : Prop extends SameSession ch ch' where
  scheduled : ch'.bootstrapScheduled = ch.bootstrapScheduled
  lock : ch'.lock = ch.lock
  cached : ch.cached = none → ch'.cached = none
  jobs : ∀ job ∈ ch'.jobs, job ∈ ch.jobs ∨ ∃ hlc, job = .called hlc
  table : ch.subscription = none → ch'.table = ch.table

theorem Beside.refl (ch : Channel) : Beside ch ch :=
  ⟨⟨rfl, rfl, rfl, rfl⟩, rfl, rfl, id, fun _ => Or.inl, fun _ => rfl⟩

theorem Beside.offline (h : Beside ch ch') (hoff : Offline ch) : Offline ch' where
  sub := h.sub.trans hoff.sub
  cached := h.cached hoff.cached
  inbox := h.inbox.trans hoff.inbox
  scheduled := h.scheduled.trans hoff.scheduled
  handler := h.handler.trans hoff.handler
  jobs job hjob := (h.jobs job hjob).elim (hoff.jobs job) id
  lock := h.lock.trans hoff.lock

/-- An event of the system is a step of the channel, or goes on beside it. -/
theorem syncStep_cases {s s' : SyncState} {e : SyncEvent} (hs : syncStep cfg s e = some s')
    (c : ChannelId) :
    (∃ e', e = .channel c e' ∧ channelStep cfg s c e' = some (s'.chans c)) ∨
      (∀ e', e ≠ .channel c e') ∧ Beside (s.chans c) (s'.chans c) := by
  cases e with
  | write =>
      cases hs
      refine Or.inr ⟨fun _ heq => (by cases heq), ?_⟩
      dsimp only [stepWrite]
      split
      · exact ⟨⟨rfl, rfl, rfl, rfl⟩, rfl, rfl, id, fun _ => Or.inl, fun _ => rfl⟩
      · exact .refl _
  | broadcast table hlc reaches =>
      rcases Option.ite_none_right_eq_some.1 hs with ⟨-, hs⟩
      cases hs
      refine Or.inr ⟨fun _ heq => (by cases heq), ?_⟩
      dsimp only
      split
      · refine ⟨⟨rfl, rfl, rfl, rfl⟩, rfl, rfl, id, fun job hjob => ?_, fun _ => rfl⟩
        exact (List.mem_append.1 hjob).imp_right fun hnew => ⟨hlc, List.mem_singleton.1 hnew⟩
      · exact .refl _
  | eager e =>
      rcases Option.ite_none_right_eq_some.1 hs with ⟨-, hs⟩
      cases hs
      refine Or.inr ⟨fun _ heq => (by cases heq), ?_⟩
      refine ⟨⟨rfl, rfl, rfl, rfl⟩, rfl, rfl, fun hnone => ?_, fun _ => Or.inl, fun hnone => ?_⟩
      · simp [Channel.eager, hnone]
      · have hno : e.delivers s c = false := by
          by_cases hquery : c.2 = e.query
          · have hsub : (s.chans (c.1, e.query)).subscription = none := by rwa [← hquery]
            simp [EagerDelta.delivers, EagerDelta.reaches, hsub]
          · simp [EagerDelta.delivers, hquery]
        simp [Channel.eager, hno]
  | stamp hlc =>
      rcases Option.ite_none_right_eq_some.1 hs with ⟨-, hs⟩
      cases hs
      exact Or.inr ⟨fun _ heq => (by cases heq), .refl _⟩
  | channel c' e =>
      rcases Option.map_eq_some_iff.1 hs with ⟨ch', hch, rfl⟩
      by_cases hc : c = c'
      · subst hc
        refine Or.inl ⟨e, rfl, ?_⟩
        dsimp only
        rw [Function.update_self]
        exact hch
      · refine Or.inr ⟨fun e' heq => hc ?_, ?_⟩
        · cases heq
          rfl
        · dsimp only
          rw [Function.update_of_ne hc]
          exact .refl _

/-- Whether the client ends up subscribed changes with its `sync` and `unsync` only. -/
theorem endsSubscribed_channelStep {s : SyncState} {e : ChannelEvent}
    (hsync : ∀ params w, e ≠ .sync params w) (hunsync : e ≠ .sendUnsync)
    (hs : channelStep cfg s c e = some ch') :
    ch'.endsSubscribed = (s.chans c).endsSubscribed := by
  have hconcat : ∀ m : ClientMessage, (∀ b, m.subscribes b = b) →
      Channel.endsSubscribed { s.chans c with inbox := (s.chans c).inbox ++ [m] } =
        (s.chans c).endsSubscribed := fun m hm => (endsSubscribed_concat m).trans (hm _)
  have hmodify : ∀ (ch : Channel) f, (ch.modifySub f).endsSubscribed = ch.endsSubscribed := by
    intro ch f
    cases hsub : ch.sub <;> simp [Channel.modifySub, Channel.endsSubscribed, hsub]
  cases e with
  | sync params w => exact absurd rfl (hsync params w)
  | sendUnsync => exact absurd rfl hunsync
  | sendBootstrap =>
      cases hs
      exact hconcat .bootstrap fun _ => rfl
  | sendResume =>
      cases hs
      exact hconcat .resume fun _ => rfl
  | sendLoadMore count =>
      cases hs
      exact hconcat (.loadMore count) fun _ => rfl
  | take skips =>
      simp only [Sync.channelStep, Channel.take] at hs
      split at hs
      · rename_i m inbox _ hinbox
        have hends : (s.chans c).endsSubscribed =
            inbox.foldl ClientMessage.subscribes (m.subscribes (s.chans c).sub.isSome) := by
          rw [Channel.endsSubscribed, hinbox]
          rfl
        cases m with
        | syncDeclare params w | unsync | bootstrap | resume =>
            cases hs
            exact hends.symm
        | loadMore count =>
            dsimp only at hs
            split at hs
            · cases hs
              exact hends.symm
            · cases hs
              exact hends.symm
      · cases hs
  | query =>
      simp only [Sync.channelStep, Channel.query] at hs
      split at hs <;> cases hs <;> rfl
  | snapshot =>
      simp only [Sync.channelStep, Channel.snapshot] at hs
      split at hs <;> cases hs <;> rfl
  | finish =>
      simp only [Sync.channelStep, Channel.finish] at hs
      split at hs
      · cases hs
        exact hmodify _ _
      · cases hs
        exact hmodify _ _
      · cases hs
  | group j rep => exact SameSession.endsSubscribed (.of_broadcast rfl hs)
  | limitFor j limit => exact SameSession.endsSubscribed (.of_broadcast rfl hs)
  | execute j => exact SameSession.endsSubscribed (.of_broadcast rfl hs)
  | send j => exact SameSession.endsSubscribed (.of_broadcast rfl hs)
  | commit => exact SameSession.endsSubscribed (.of_broadcast rfl hs)

/-! ### One step -/

variable {version : Nat} {link : Link} {synced queued : Prop}

namespace LinkedInv

/-- On a connection. -/
theorem ofUp (hinv : ChannelInv cfg c version ch) (hsub : ch.endsSubscribed = true ↔ synced)
    (hwindow : ChannelWindow a ch) : LinkedInv cfg c version .up synced queued a ch :=
  ⟨fun _ => hinv, fun _ => hsub, fun hne => absurd rfl hne, fun hne => absurd rfl hne, nofun,
    hwindow⟩

/-- Without one. -/
theorem ofDown (hlink : link ≠ .up) (hoff : Offline ch)
    (hdropped : ¬ synced → ∀ key, heldRow ch.table key = none)
    (hnever : link = .never → synced → queued) : LinkedInv cfg c version link synced queued a ch :=
  ⟨fun heq => absurd heq hlink, fun heq => absurd heq hlink, fun _ => hoff, fun _ => hdropped,
    hnever, hoff.window⟩

theorem congr {synced' queued' : Prop} (h : LinkedInv cfg c version link synced queued a ch)
    (hsynced : synced' ↔ synced) (hqueued : queued → queued') :
    LinkedInv cfg c version link synced' queued' a ch where
  up := h.up
  subscribed hlink := (h.subscribed hlink).trans hsynced.symm
  down := h.down
  dropped hlink hnot := h.dropped hlink (mt hsynced.2 hnot)
  never hlink hsync := hqueued (h.never hlink (hsynced.1 hsync))
  window := h.window

theorem sync (h : LinkedInv cfg c version .up synced queued a ch) (params : Json)
    (w : Option Nat) : LinkedInv cfg c version .up True queued ⟨w.filter (0 < ·), [], a.handled⟩
      (ch.sync params w) := by
  refine ofUp ((h.up rfl).sync params w) ?_ (h.window.sync params w)
  have htrue : (ch.sync params w).endsSubscribed = true :=
    endsSubscribed_concat (.syncDeclare params w)
  simp [htrue]

theorem unsync (h : LinkedInv cfg c version .up synced queued a ch) :
    LinkedInv cfg c version .up False queued a ch.sendUnsync := by
  refine ofUp (h.up rfl).sendUnsync ?_ (h.window.send rfl rfl rfl rfl)
  have hfalse : ch.sendUnsync.endsSubscribed = false := endsSubscribed_concat .unsync
  simp [hfalse]

/-- The connection opens. -/
theorem connect (h : LinkedInv cfg c version link synced queued a ch) (hlink : link ≠ .up)
    {declares : List ClientMessage} {calls : List Hlc} {w : Option Nat}
    (hdeclares : ∀ m ∈ declares, ∃ params, m = .syncDeclare params w)
    (hsynced : declares ≠ [] ↔ synced) (hwindow : synced → w.filter (0 < ·) = a.entitlement) :
    LinkedInv cfg c version .up synced queued a (ch.connect declares calls) := by
  have hoff := h.down hlink
  have hends : (ch.connect declares calls).endsSubscribed = true ↔ synced := by
    rw [← hsynced]
    rcases List.eq_nil_or_concat declares with rfl | ⟨front, m, rfl⟩
    · simp [Channel.connect, Channel.endsSubscribed, hoff.sub]
    · rcases hdeclares m (by simp) with ⟨params, rfl⟩
      simp [Channel.connect, Channel.endsSubscribed, ClientMessage.subscribes]
  have hscheduled : (ch.connect declares calls).bootstrapScheduled = true ↔ declares ≠ [] := by
    simp [Channel.connect]
  refine ofUp (.ofDue ?_ (fun _ _ _ hsuffix => Or.inl ?_) ?_ (fun job hjob => ?_)
    (fun _ => hoff.cached) (fun hnot => ?_) fun hsub => ?_) hends
    (.ofIdle hoff.handler hoff.subscription fun w' hw' => ?_)
  · intro i hi
    replace hi : ch.sub = some i := hi
    rw [hoff.sub] at hi
    cases hi
  · refine hscheduled.2 ?_
    rintro rfl
    exact List.cons_ne_nil _ _ (List.suffix_nil.1 hsuffix)
  · intro handler hhandler
    replace hhandler : ch.handler = some handler := hhandler
    rw [hoff.handler] at hhandler
    cases hhandler
  · have hcalled : ∃ hlc, job = .called hlc := by
      rcases List.mem_append.1 hjob with hold | hnew
      · exact hoff.jobs job hold
      · rcases List.mem_map.1 hnew with ⟨hlc, -, rfl⟩
        exact ⟨hlc, rfl⟩
    rcases hcalled with ⟨hlc, rfl⟩
    trivial
  · refine h.dropped hlink fun hyes => ?_
    rw [hends.2 hyes] at hnot
    cases hnot
  · have hdue := hscheduled.2 (hsynced.2 (hends.1 hsub))
    simp [Channel.resetDue, hdue]
  · -- Every declare is of the window on record.
    have hmem : w' ∈ declares.filterMap ClientMessage.window := List.mem_of_getLast? hw'
    rcases List.mem_filterMap.1 hmem with ⟨m, hm, hmw⟩
    rcases hdeclares m hm with ⟨params, rfl⟩
    cases hmw
    exact hwindow (hsynced.1 (List.ne_nil_of_mem hm))

/-- The connection is lost; what the client does not sync it holds nothing of. -/
theorem disconnect (h : LinkedInv cfg c version .up synced queued a ch) {table : TableRows}
    (htable : ¬ synced → table = ch.table) :
    LinkedInv cfg c version .lost synced queued a (ch.disconnect table) := by
  refine ofDown nofun (.disconnect ch table) (fun hnot => ?_) nofun
  have hends : ch.endsSubscribed = false :=
    Bool.eq_false_iff.2 fun hyes => hnot ((h.subscribed rfl).1 hyes)
  rw [Channel.disconnect, htable hnot]
  exact (h.up rfl).unsubscribed hends

theorem failPage (h : LinkedInv cfg c version link synced queued a ch)
    (hs : ch.failPage cfg c = some ch') : LinkedInv cfg c version link synced queued a ch' := by
  have hload : ∃ prevLoaded newLimit fetch,
      ch.handler = some (.loadMore prevLoaded newLimit fetch) ∧
        (∀ r, fetch ≠ .sent r) ∧ ch' = { ch with handler := none } := by
    unfold Channel.failPage at hs
    split at hs
    · rename_i hhandler
      cases hs
      exact ⟨_, _, _, hhandler, nofun, rfl⟩
    · rename_i hhandler
      rcases Option.ite_none_left_eq_some.1 hs with ⟨-, hs⟩
      cases hs
      exact ⟨_, _, _, hhandler, nofun, rfl⟩
    · cases hs
  rcases hload with ⟨prevLoaded, newLimit, fetch, hhandler, hunsent, rfl⟩
  by_cases hlink : link = .up
  · subst hlink
    have hinv := h.up rfl
    refine ofUp ?_ (h.subscribed rfl) (h.window.withHandler nofun)
    refine hinv.withHandler hinv.declared nofun rfl ?_ ?_ ?_
    · simp [Channel.resetDue, hhandler, Handler.isQuerying]
    · simp [Channel.rereads, hhandler]
    · cases fetch with
      | querying | read r => simp [Channel.delivered, hhandler]
      | sent r => exact absurd rfl (hunsent r)
  · rw [(h.down hlink).handler] at hhandler
    cases hhandler

/-- An event of the system that is no `sync` and no `unsync` of the channel. -/
theorem event {s s' : SyncState} (h : LinkedInv cfg c s.version link synced queued a (s.chans c))
    {e : SyncEvent} (hguard : SyncGuard cfg s e) (hs : syncStep cfg s e = some s')
    (hsync : ∀ params w, e ≠ .channel c (.sync params w)) (hunsync : e ≠ .channel c .sendUnsync)
    (hup : link ≠ .up → e ≠ .channel c .sendBootstrap ∧ e ≠ .channel c .sendResume ∧
      ∀ count, e ≠ .channel c (.sendLoadMore count))
    {a' : Asked} (ha : ∀ e', e = .channel c e' → a' = (s.chans c).askedAfter a e')
    (ha' : (∀ e', e ≠ .channel c e') → a' = a) :
    LinkedInv cfg c s'.version link synced queued a' (s'.chans c) := by
  rcases syncStep_cases hs c with ⟨e', rfl, hstep⟩ | ⟨hno, hbeside⟩
  · rw [ha e' rfl]
    have hsync' : ∀ params w, e' ≠ .sync params w := by
      rintro params w rfl
      exact hsync params w rfl
    have hunsync' : e' ≠ .sendUnsync := by
      rintro rfl
      exact hunsync rfl
    by_cases hlink : link = .up
    · subst hlink
      refine ofUp ((h.up rfl).step hguard hs) ?_ (h.window.channelStep hsync' hstep)
      rw [endsSubscribed_channelStep hsync' hunsync' hstep]
      exact h.subscribed rfl
    · rcases hup hlink with ⟨hbootstrap, hresume, hload⟩
      have hoff := (h.down hlink).channelStep hsync' (fun heq => hbootstrap (by rw [heq]))
        (fun heq => hresume (by rw [heq]))
          (fun count heq => hload count (by rw [heq])) hunsync' hstep
      refine ofDown hlink hoff.1 (fun hnot => ?_) h.never
      rw [hoff.2]
      exact h.dropped hlink hnot
  · rw [ha' hno]
    by_cases hlink : link = .up
    · subst hlink
      refine ofUp ((h.up rfl).step hguard hs) ?_ (h.window.congr hbeside.toSameSession)
      rw [hbeside.endsSubscribed]
      exact h.subscribed rfl
    · have hoff := h.down hlink
      refine ofDown hlink (hbeside.offline hoff) (fun hnot => ?_) h.never
      rw [hbeside.table hoff.subscription]
      exact h.dropped hlink hnot

end LinkedInv

/-! ### Runs -/

variable {s s' : WindowState}

theorem windowInv_initial (clock : Hlc) : WindowInv cfg (.initial clock) := by
  intro c
  refine .ofDown nofun ⟨rfl, rfl, rfl, rfl, rfl, fun _ hjob => ?_, rfl⟩ (fun _ key => ?_)
    fun _ hsynced => ?_
  · cases hjob
  · simp [WindowState.initial, SyncState.initial, Channel.empty, heldRow]
  · cases hsynced

/-- Another query of the client, or a query of another one. -/
theorem mem_insert_of_ne {c c' : ChannelId} (hc : c' ≠ c) {records : Nat → Record SyncRecord}
    {record : SyncRecord} :
    c'.2 ∈ Function.update records c.1 ((records c.1).insert c.2 record) c'.1 ↔
      c'.2 ∈ records c'.1 := by
  by_cases hclient : c'.1 = c.1
  · have hquery : c'.2 ≠ c.2 := fun heq => hc (Prod.ext hclient heq)
    rw [hclient, Function.update_self, AList.mem_insert]
    simp [hquery]
  · rw [Function.update_of_ne hclient]

theorem mem_erase_of_ne {c c' : ChannelId} (hc : c' ≠ c) {records : Nat → Record SyncRecord} :
    c'.2 ∈ Function.update records c.1 ((records c.1).erase c.2) c'.1 ↔
      c'.2 ∈ records c'.1 := by
  by_cases hclient : c'.1 = c.1
  · have hquery : c'.2 ≠ c.2 := fun heq => hc (Prod.ext hclient heq)
    rw [hclient, Function.update_self, AList.mem_erase]
    simp [hquery]
  · rw [Function.update_of_ne hclient]

namespace WindowInv

theorem stepSync (h : WindowInv cfg s) (c : ChannelId) (params : Option Json)
    (options : Option (Option Nat)) : WindowInv cfg (s.stepSync c params options) := by
  intro c'
  have hold := h c'
  unfold WindowState.stepSync
  by_cases hup : s.links c.1 = .up
  · rw [if_pos hup]
    by_cases hc : c' = c
    · subst hc
      rw [hup] at hold
      have hsync := hold.sync (params.getD emptyParams) options.join
      simp only [WindowState.setChannel, Function.update_self, hup]
      exact hsync.congr (by simp) id
    · simp only [WindowState.setChannel, Function.update_of_ne hc]
      exact hold.congr (mem_insert_of_ne hc) id
  · rw [if_neg hup]
    have hqueued : c'.2 ∈ s.queuedDeclares c'.1 → c'.2 ∈ Function.update s.queuedDeclares c.1
        (Lib.addLast (s.queuedDeclares c.1) c.2) c'.1 := by
      intro hmem
      by_cases hclient : c'.1 = c.1
      · rw [hclient] at hmem ⊢
        rw [Function.update_self]
        exact Lib.mem_addLast.2 (Or.inl hmem)
      · rwa [Function.update_of_ne hclient]
    by_cases hc : c' = c
    · subst hc
      refine .ofDown hup (hold.down hup) (fun hnot => absurd ?_ hnot) fun _ _ => ?_
      · simp
      · simp
    · simp only [Function.update_of_ne hc]
      exact hold.congr (mem_insert_of_ne hc) hqueued

theorem stepUnsync (h : WindowInv cfg s) (c : ChannelId) : WindowInv cfg (s.stepUnsync c) := by
  intro c'
  have hold := h c'
  unfold WindowState.stepUnsync
  by_cases hup : s.links c.1 = .up
  · rw [if_pos hup]
    by_cases hc : c' = c
    · subst hc
      rw [hup] at hold
      simp only [WindowState.setChannel, Function.update_self, hup]
      exact hold.unsync.congr (by simp) id
    · simp only [WindowState.setChannel, Function.update_of_ne hc]
      exact hold.congr (mem_erase_of_ne hc) id
  · rw [if_neg hup]
    by_cases hc : c' = c
    · subst hc
      simp only [WindowState.setChannel, Function.update_self]
      refine .ofDown hup ((hold.down hup).withTable ∅) (fun _ key => rfl) fun _ hmem => ?_
      simp at hmem
    · simp only [WindowState.setChannel, Function.update_of_ne hc]
      exact hold.congr (mem_erase_of_ne hc) id

theorem stepDisconnect (h : WindowInv cfg s) {client : Nat} {left : String → TableRows}
    (hs : s.stepDisconnect client left = some s') : WindowInv cfg s' := by
  rcases Option.ite_none_right_eq_some.1 hs with ⟨hup, hs⟩
  cases hs
  intro c
  have hold := h c
  dsimp only [WindowState.mapChannels]
  by_cases hc : c.1 = client
  · subst hc
    rw [hup] at hold
    rw [if_pos rfl, Function.update_self]
    refine hold.disconnect fun hnot => ?_
    rw [if_neg hnot]
  · rw [if_neg hc, Function.update_of_ne hc]
    exact hold

/-- A lost connection has the client declare all that it syncs; before the first one all of it is
queued. -/
theorem declares_ne_nil (h : WindowInv cfg s) (hdown : s.links c.1 ≠ .up) :
    s.declares c.1 c.2 ≠ [] ↔ c.2 ∈ s.records c.1 := by
  rw [WindowState.declares]
  cases hrecord : (s.records c.1).lookup c.2 with
  | none =>
      have hnot : c.2 ∉ s.records c.1 := AList.lookup_eq_none.1 hrecord
      simp [hnot]
  | some record =>
      have hmem : c.2 ∈ s.records c.1 := AList.lookup_isSome.1 (by rw [hrecord]; rfl)
      refine iff_of_true ?_ hmem
      cases hlink : s.links c.1 with
      | up => exact absurd hlink hdown
      | lost => simp [Link.declares]
      | never =>
          have hqueued := (h c).never hlink hmem
          simp [Link.declares, hqueued]

theorem stepConnect (h : WindowInv cfg s) {client : Nat} {calls : String → List Hlc}
    (hguard : s.Restores client) (hs : s.stepConnect client calls = some s') :
    WindowInv cfg s' := by
  rcases Option.ite_none_left_eq_some.1 hs with ⟨hdown, hs⟩
  cases hs
  intro c
  have hold := h c
  dsimp only [WindowState.mapChannels]
  by_cases hc : c.1 = client
  · subst hc
    rw [if_pos rfl, Function.update_self, Function.update_self]
    have hconnect : LinkedInv cfg c s.sync.version .up (c.2 ∈ s.records c.1)
        (c.2 ∈ s.queuedDeclares c.1) (s.asked c)
        ((s.sync.chans c).connect (s.declares c.1 c.2) (calls c.2)) := by
      cases hrecord : (s.records c.1).lookup c.2 with
      | none =>
          have hnot : c.2 ∉ s.records c.1 := AList.lookup_eq_none.1 hrecord
          have hnil : s.declares c.1 c.2 = [] := by
            rw [WindowState.declares, hrecord]
            rfl
          refine hold.connect hdown (w := none) (fun m hm => ?_) (h.declares_ne_nil hdown)
            fun hmem => absurd hmem hnot
          rw [hnil] at hm
          cases hm
      | some record =>
          refine hold.connect hdown (fun m hm => ⟨record.params.getD emptyParams, ?_⟩)
            (h.declares_ne_nil hdown) fun _ => hguard c.2 record hrecord
          simp only [WindowState.declares, hrecord, Option.map_some, Option.getD_some,
            Link.declares, List.mem_append] at hm
          rcases hm with hm | hm
          · split at hm
            · exact List.mem_singleton.1 hm
            · cases hm
          · split at hm
            · exact List.mem_singleton.1 hm
            · cases hm
    exact ⟨hconnect.up, hconnect.subscribed, hconnect.down, hconnect.dropped, nofun,
      hconnect.window⟩
  · rw [if_neg hc, Function.update_of_ne hc, Function.update_of_ne hc]
    exact hold

theorem step (h : WindowInv cfg s) {e : WindowEvent} (hguard : WindowGuard cfg s e)
    (hs : s.step cfg e = some s') : WindowInv cfg s' := by
  cases e with
  | sync c params options =>
      cases hs
      exact h.stepSync c params options
  | unsync c =>
      cases hs
      exact h.stepUnsync c
  | connect client calls => exact h.stepConnect hguard hs
  | disconnect client left => exact h.stepDisconnect hs
  | failPage c =>
      rcases Option.map_eq_some_iff.1 hs with ⟨ch, hch, rfl⟩
      intro c'
      dsimp only [WindowState.setChannel]
      by_cases hc : c' = c
      · subst hc
        rw [Function.update_self]
        exact (h c').failPage hch
      · rw [Function.update_of_ne hc]
        exact h c'
  | event e =>
      rcases Option.ite_none_right_eq_some.1 hs with ⟨hsends, hs⟩
      rcases Option.map_eq_some_iff.1 hs with ⟨sync, hsync, rfl⟩
      intro c
      refine (h c).event hguard hsync ?_ ?_ ?_ ?_ ?_
      · rintro params w rfl
        exact hsends
      · rintro rfl
        exact hsends
      · refine fun hlink => ⟨?_, ?_, ?_⟩
        · rintro rfl
          exact hlink hsends
        · rintro rfl
          exact hlink hsends
        · rintro count rfl
          exact hlink hsends.1
      · rintro e' rfl
        exact Function.update_self ..
      · intro hno
        cases e with
        | channel c' e' =>
            have hc : c ≠ c' := by
              rintro rfl
              exact hno e' rfl
            exact Function.update_of_ne hc ..
        | write | broadcast _ _ _ | eager _ | stamp _ => rfl

end WindowInv

/-- The invariant of a channel with nothing under way. -/
theorem WindowInv.kept (h : WindowInv cfg s) (hup : s.links c.1 = .up)
    (hq : (s.sync.chans c).quiescent = true) : WindowKept cfg s c := by
  have hchannel := h c
  have hsettled := (hchannel.up hup).settled hq
  have hinbox : (s.sync.chans c).inbox = [] := by
    simp only [Channel.quiescent, Bool.and_eq_true, List.isEmpty_iff] at hq
    exact hq.1.1.1.1.1
  have hlimit : ∀ sub ∈ (s.sync.chans c).subscription, sub.limit = (s.asked c).entitlement :=
    hchannel.window.current (by rw [hinbox]; rfl)
  unfold Settled at hsettled
  refine ⟨fun hmem => ?_, hlimit, fun sub hsub => ?_, fun hnone => ?_⟩
  · have hends := (hchannel.subscribed hup).2 hmem
    rw [Channel.endsSubscribed, hinbox] at hends
    by_contra hno
    have hsub := subscription_eq_none (hchannel.up hup).valid (Option.not_isSome_iff_eq_none.1 hno)
    rw [hsub] at hends
    cases hends
  · have hsub' : (s.sync.chans c).subscription = some sub := hsub
    dsimp only at hsettled
    rw [hsub'] at hsettled
    rw [← hlimit sub hsub]
    exact hsettled.2
  · dsimp only at hsettled
    rw [hnone] at hsettled
    exact hsettled.2

/-- A check of `PageCovers`, by the ids that occur. -/
def Channel.pageCovers (cfg : SyncConfig) (c : ChannelId) (ch : Channel) (r : QueryRead)
    (prevLoaded : Nat) : Bool :=
  let cached := ch.cached.getD ∅
  let rows := byRowId (cfg.pk c.2) (cfg.rows c r)
  (cached.keys ++ rows.keys).all fun rowId =>
    ((byRowId (cfg.pk c.2) (cfg.newRows c r prevLoaded)).lookup rowId).isSome ||
      (cached.lookup rowId).map (·.entries) = (rows.lookup rowId).map (·.entries)

theorem pageCovers_sound {r : QueryRead} {prevLoaded : Nat}
    (h : ch.pageCovers cfg c r prevLoaded = true) : ch.PageCovers cfg c r prevLoaded := by
  intro rowId hnone
  by_cases hmem : rowId ∈ (ch.cached.getD ∅).keys ++ (byRowId (cfg.pk c.2) (cfg.rows c r)).keys
  · have hrow := List.all_eq_true.1 h rowId hmem
    rw [hnone] at hrow
    have hentries := of_decide_eq_true ((Bool.or_eq_true_iff.1 hrow).resolve_left nofun)
    exact Option.map_injective (fun a b heq => AList.ext heq) hentries
  · rw [List.mem_append, not_or] at hmem
    rw [AList.lookup_eq_none.2 hmem.1, AList.lookup_eq_none.2 hmem.2]

/-- Enough for the guard. -/
def windowCheck (cfg : SyncConfig) (s : WindowState) : WindowEvent → Bool
  | .connect client _ => (s.records client).entries.all fun e =>
    e.2.options.join.filter (0 < ·) = (s.asked (client, e.1)).entitlement
  | .event (.channel c .snapshot) =>
    let ch := s.sync.chans c
    match ch.handler with
    | some (.loadMore prevLoaded _ (.read r)) =>
      ch.endsSubscribed && ch.lock.isNone && decide (ch.seen ≤ r.version) &&
        (stringKeyed (cfg.pk c.2) (cfg.newRows c r prevLoaded) && ch.pageCovers cfg c r prevLoaded)
    | _ => allowsEvent cfg s.sync (.channel c .snapshot)
  | .event e => allowsEvent cfg s.sync e
  | _ => true

theorem windowGuard_of_check (s : WindowState) (e : WindowEvent)
    (h : windowCheck cfg s e = true) : WindowGuard cfg s e := by
  cases e with
  | sync c params options | unsync c | disconnect client left | failPage c => trivial
  | connect client calls =>
      intro query record hrecord
      have hmem : (⟨query, record⟩ : Sigma fun _ => SyncRecord) ∈ (s.records client).entries :=
        AList.mem_lookup_iff.1 hrecord
      exact of_decide_eq_true (List.all_eq_true.1 h _ hmem)
  | event e =>
      unfold windowCheck at h
      split at h
      · rename_i heq
        cases heq
      · rename_i c heq
        cases heq
        dsimp only at h
        split at h
        · rename_i prevLoaded newLimit r hhandler
          simp only [Bool.and_eq_true, decide_eq_true_eq] at h
          rcases h with ⟨⟨⟨hends, hlock⟩, hnewer⟩, hkeys, hcovers⟩
          refine ⟨fun hlc r' hboot => ?_, fun prevLoaded' newLimit' r' hload => ?_⟩
          · rw [hhandler] at hboot
            cases hboot
          · rw [hhandler] at hload
            cases hload
            refine ⟨⟨fun _ => hends,
              fun _ _ => Option.isNone_iff_eq_none.1 hlock, fun _ _ => hnewer,
              fun _ _ => stringKeyed_sound hkeys⟩, fun _ => pageCovers_sound hcovers⟩
        · exact syncGuard_of_allowsEvent h
      · rename_i heq
        cases heq
        exact syncGuard_of_allowsEvent h
      · rename_i hno
        exact (hno e rfl).elim

/-! ## A window of one row -/

/-- The client gets a connection, and its declare and bootstrap are handled. -/
def connectEvents : List WindowEvent :=
  .connect 0 (fun _ => []) ::
    [.take false, .sendBootstrap, .take false, .query, .snapshot, .finish].map
      fun e => .event (.channel todosChannel e)

def loadOneMore : List WindowEvent :=
  [.sendLoadMore 1, .take false, .query, .snapshot, .finish].map
    fun e => .event (.channel todosChannel e)

def WindowState.summary (s : WindowState) (c : ChannelId) :
    Bool × Bool × Option (Option Nat) × Option Nat × Nat :=
  let ch := s.sync.chans c
  (s.links c.1 = .up, ch.quiescent, ch.subscription.map (·.limit), (s.asked c).entitlement,
    ch.table.keys.length)

/-- The connection is lost before any `load_more`; then a row comes, and the window grows. -/
def reconnectThenLoad : List WindowEvent :=
  .sync todosChannel none (some (some 1)) :: connectEvents ++
    .disconnect 0 (fun _ => ∅) :: connectEvents ++
    [.event .write, .event (.broadcast "todos" "1" fun _ => true)] ++
    [.group 0 0, .limitFor 0 none, .execute 0, .send 0, .commit].map
      (fun e => .event (.channel todosChannel e)) ++
    loadOneMore

/-- The window grows, and the connection is lost: the client declares the window of its `sync`. -/
def loadThenReconnect : List WindowEvent :=
  .sync todosChannel none (some (some 1)) :: connectEvents ++ loadOneMore ++
    .disconnect 0 (fun _ => ∅) :: connectEvents

end Sync
end Reflectdb
