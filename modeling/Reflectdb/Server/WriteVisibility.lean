import Mathlib.Data.List.AList
import Reflectdb.Server.OpProcessor
import Reflectdb.Server.Poll
import Reflectdb.Server.RowClocks

/-!
# Write visibility — from the query an op names to the tables that others watch

Queries are registered with the tables they depend on.  An op names a query; storage, broadcasts,
resumes and polls go by tables, and take the op's query for one.  A message of ops is processed op
by op: the consistent path collects tables and broadcasts them at the end, the eager path sends its
delta at once.
-/

namespace Reflectdb
namespace Server

open Core Client

/-! ## Registered queries and sessions -/

structure QueryRegistration where
  name : String
  tableDependencies : List String
  broadcast : BroadcastMode
  deriving DecidableEq

structure QuerySubscription where
  query : String
  roomKey : Option String
  /-- It has a `windowSize`. -/
  windowed : Bool
  bootstrapped : Bool

structure ClientSession where
  clientId : String
  subscriptions : List QuerySubscription

/-- `session.subscriptions.get(query)`. -/
def ClientSession.subscription (session : ClientSession) (query : String) :
    Option QuerySubscription :=
  session.subscriptions.find? (·.query = query)

structure HandlerState where
  /-- The id of the instance in the log. -/
  id : Nat
  queries : Record QueryRegistration
  /-- The names of the queries that depend on a table. -/
  tableDependencyIndex : Record (List String)
  sessions : List ClientSession

/-- Add to a `Set`. -/
def addName (names : List String) (name : String) : List String :=
  if name ∈ names then names else names ++ [name]

/-- The queries that the index has for a table. -/
def dependents (index : Record (List String)) (table : String) : List String :=
  (index.lookup table).getD []

namespace HandlerState

def setQuery (h : HandlerState) (q : QueryRegistration) : HandlerState :=
  { h with
    queries := h.queries.insert q.name q
    tableDependencyIndex := q.tableDependencies.foldl
      (fun index table => index.insert table (addName (dependents index table) q.name))
      h.tableDependencyIndex }

/-- A handler after the registration of its queries. -/
def ofQueries (id : Nat) (sessions : List ClientSession) (queries : List QueryRegistration) :
    HandlerState :=
  queries.foldl setQuery ⟨id, ∅, ∅, sessions⟩

/-! ## Fanout -/

/-- `getSubscribersForQuery`, with their subscriptions. -/
def subscribersForQuery (h : HandlerState) (query : String) (roomKey : Option String) :
    List (ClientSession × QuerySubscription) :=
  h.sessions.filterMap fun session =>
    match session.subscription query with
    | some sub => if roomKey.isNone ∨ sub.roomKey = roomKey then some (session, sub) else none
    | none => none

/-- The room of the sender's own subscription to the query. -/
def senderRoomKey (h : HandlerState) (query : String) (sender : Option String) : Option String :=
  ((h.sessions.find? (some ·.clientId = sender)).bind (·.subscription query)).bind (·.roomKey)

/-- The members of the groups that `buildGroups` makes.  There is no client to exclude where the
source passes the empty id. -/
def members (h : HandlerState) (query : String) (exclude : Option String) : List String :=
  ((h.subscribersForQuery query (h.senderRoomKey query exclude)).filter fun member =>
    some member.1.clientId ≠ exclude ∧ ¬ (member.2.windowed ∧ ¬ member.2.bootstrapped)).map
      (·.1.clientId)

end HandlerState

/-- A query that is run again, or whose delta is sent, for its subscribers. -/
structure QueryRun where
  query : String
  members : List String
  deriving DecidableEq

def HandlerState.broadcastChanges (h : HandlerState) (table : String) (exclude : Option String) :
    List QueryRun :=
  (dependents h.tableDependencyIndex table).filterMap fun name =>
    match h.queries.lookup name with
    | none => none
    | some q =>
      let members := h.members q.name exclude
      if members = [] then none else some ⟨q.name, members⟩

/-- The other subscribers of an eager op's query. -/
def HandlerState.eagerMembers (h : HandlerState) (query writer : String) : List String :=
  ((h.subscribersForQuery query (h.senderRoomKey query (some writer))).map
    (·.1.clientId)).filter (· ≠ writer)

/-- The delta of an eager op. -/
def HandlerState.sendEager (h : HandlerState) (query writer : String) : List QueryRun :=
  if h.eagerMembers query writer = [] then [] else [⟨query, h.eagerMembers query writer⟩]

/-- What a handler sends out while it handles a message. -/
inductive Fanout
  | broadcast (table : String) (exclude : Option String)
  | eager (query : String)
  deriving DecidableEq

def Fanout.runs (h : HandlerState) (writer : String) : Fanout → List QueryRun
  | .broadcast table exclude => h.broadcastChanges table exclude
  | .eager query => h.sendEager query writer

/-! ## A message of ops -/

/-- An op that its query accepts. -/
structure AcceptedOp where
  /-- `op.table`. -/
  query : String
  /-- The HLC of its log entry: the client's, or on the eager path the server's. -/
  hlc : Hlc
  /-- `affected` of the mutate result. -/
  affected : List String
  hearWriter : Bool
  deriving DecidableEq

structure OpsProgress where
  deferredBroadcastTables : List String
  hearWriter : List String
  sent : List Fanout
  log : List LogOp

/-- The entry of an op in the log: its table is the op's query. -/
def HandlerState.logEntry (h : HandlerState) (op : AcceptedOp) : LogOp :=
  ⟨op.query, op.hlc, h.id⟩

/-- An op through `processClientOp`, as far as it reaches others. -/
def HandlerState.processClientOp (h : HandlerState) (writer : String) (p : OpsProgress)
    (op : AcceptedOp) : OpsProgress :=
  match (h.queries.lookup op.query).map QueryRegistration.broadcast with
  | none => p
  | some BroadcastMode.consistent =>
    { p with
      deferredBroadcastTables := (op.query :: op.affected).foldl addName p.deferredBroadcastTables
      hearWriter := if op.hearWriter then p.hearWriter ++ [op.query] else p.hearWriter
      log := p.log ++ [h.logEntry op] }
  | some _ =>
    -- The pending broadcasts go out first, so that subscribers see the ops in order.
    { p with
      deferredBroadcastTables := []
      sent := p.sent ++ p.deferredBroadcastTables.map (.broadcast · (some writer)) ++
        .eager op.query :: op.affected.map (.broadcast · (some writer))
      log := p.log ++ [h.logEntry op] }

def HandlerState.processOps (h : HandlerState) (writer : String) (p : OpsProgress)
    (ops : List AcceptedOp) : OpsProgress :=
  ops.foldl (h.processClientOp writer) p

/-- The broadcasts after all ops are processed. -/
def OpsProgress.broadcastDeferred (p : OpsProgress) (writer : String) : OpsProgress :=
  { p with
    deferredBroadcastTables := []
    sent := p.sent ++ p.deferredBroadcastTables.map fun table =>
      .broadcast table (if table ∈ p.hearWriter then none else some writer) }

def HandlerState.handleOps (h : HandlerState) (writer : String) (log : List LogOp)
    (ops : List AcceptedOp) : OpsProgress :=
  (h.processOps writer ⟨[], [], [], log⟩ ops).broadcastDeferred writer

/-! ## Visibility -/

/-- The queries have a table in common. -/
def QueryRegistration.Meets (q other : QueryRegistration) : Prop :=
  ∃ table ∈ q.tableDependencies, table ∈ other.tableDependencies

instance (q other : QueryRegistration) : Decidable (q.Meets other) :=
  inferInstanceAs (Decidable (∃ table ∈ q.tableDependencies, _))

/-- The fanout is one that an op of the query asks for. -/
def AcceptedOp.AsksFor (op : AcceptedOp) (q : QueryRegistration) : Fanout → Prop
  | .broadcast table _ => table ∈ op.affected ∨ q.broadcast = .consistent ∧ table = q.name
  | .eager query => q.broadcast ≠ .consistent ∧ query = q.name

/-- A query is run in a fanout that the op at `k` of the message asks for, after the op. -/
def ReachedAfter (h : HandlerState) (writer : String) (log : List LogOp) (ops : List AcceptedOp)
    (k : Nat) (q : QueryRegistration) (op : AcceptedOp) (other : QueryRegistration) : Prop :=
  ∃ (n : Nat) (fanout : Fanout), (h.handleOps writer log ops).sent[n]? = some fanout ∧
    (h.processOps writer ⟨[], [], [], log⟩ (ops.take k)).sent.length ≤ n ∧
    op.AsksFor q fanout ∧ ∃ run ∈ fanout.runs h writer, run.query = other.name

/-- The op that a message has at `k` reaches every query that shares a table with its query. -/
structure Visible (h : HandlerState) (queries : List QueryRegistration) (writer : String)
    (log : List LogOp) (ops : List AcceptedOp) (k : Nat) (q : QueryRegistration)
    (op : AcceptedOp) : Prop where
  /-- Where the query has subscribers to serve. -/
  live : ∀ other ∈ queries, q.Meets other → h.members other.name (some writer) ≠ [] →
    ReachedAfter h writer log ops k q op other
  /-- The log has the op's entry, for which `getChangedTablesSince` reports a table of the query to
  whoever asks for its tables. -/
  logged : ∀ other ∈ queries, q.Meets other → ∃ entry ∈ (h.handleOps writer log ops).log,
    entry = h.logEntry op ∧ ∀ (since : Hlc) (tables : List String), since < op.hlc →
      other.tableDependencies ⊆ tables →
        ∃ table ∈ changedTablesSince since tables [entry], table ∈ other.tableDependencies

/-- Every query that shares a table with the op's query depends on a table of that query's name; on
the eager path, one with subscribers also on a table that `mutate` reports, unless it is the query
itself. -/
def NamedAfterTable (h : HandlerState) (queries : List QueryRegistration) (writer : String)
    (q : QueryRegistration) (op : AcceptedOp) : Prop :=
  ∀ other ∈ queries, q.Meets other → q.name ∈ other.tableDependencies ∧
    (q.broadcast ≠ .consistent → h.members other.name (some writer) ≠ [] → other ≠ q →
      ∃ table ∈ op.affected, table ∈ other.tableDependencies)

instance (h : HandlerState) (queries : List QueryRegistration) (writer : String)
    (q : QueryRegistration) (op : AcceptedOp) : Decidable (NamedAfterTable h queries writer q op) :=
  inferInstanceAs (Decidable (∀ other ∈ queries, _ → _ ∧ (_ → _ → _ →
    ∃ table ∈ op.affected, table ∈ other.tableDependencies)))

/-! ## The index -/

theorem mem_addName {names : List String} {name x : String} :
    x ∈ addName names name ↔ x ∈ names ∨ x = name := by
  by_cases h : name ∈ names
  · rw [addName, if_pos h]
    refine ⟨Or.inl, fun hx => hx.elim id fun heq => heq ▸ h⟩
  · rw [addName, if_neg h]
    simp

theorem mem_foldl_addName {x : String} :
    ∀ (tables names : List String), x ∈ tables.foldl addName names ↔ x ∈ names ∨ x ∈ tables := by
  intro tables
  induction tables with
  | nil => intro names; simp
  | cons table tables ih =>
      intro names
      rw [List.foldl_cons, ih, mem_addName, List.mem_cons, or_assoc]

theorem dependents_insert (index : Record (List String)) (table t : String)
    (names : List String) :
    dependents (index.insert table names) t = if t = table then names else dependents index t := by
  by_cases h : t = table
  · subst h
    simp [dependents]
  · simp [dependents, h, AList.lookup_insert_ne h]

theorem mem_dependents_foldl (name : String) {x t : String} :
    ∀ (tables : List String) (index : Record (List String)),
      x ∈ dependents (tables.foldl (fun index table =>
        index.insert table (addName (dependents index table) name)) index) t ↔
        x ∈ dependents index t ∨ x = name ∧ t ∈ tables := by
  intro tables
  induction tables with
  | nil => intro index; simp
  | cons table tables ih =>
      intro index
      rw [List.foldl_cons, ih, dependents_insert, List.mem_cons]
      by_cases h : t = table
      · rw [if_pos h, mem_addName, h]
        tauto
      · rw [if_neg h]
        tauto

variable {id : Nat} {sessions : List ClientSession} {queries : List QueryRegistration}

/-- The index has the queries of each table, and the names are those of the queries. -/
theorem ofQueries_spec (id : Nat) (sessions : List ClientSession)
    {queries : List QueryRegistration} (hnames : (queries.map (·.name)).Nodup) :
    (∀ q ∈ queries, (HandlerState.ofQueries id sessions queries).queries.lookup q.name = some q) ∧
      ∀ name table, name ∈ dependents
        (HandlerState.ofQueries id sessions queries).tableDependencyIndex table ↔
          ∃ q ∈ queries, q.name = name ∧ table ∈ q.tableDependencies := by
  induction queries using List.reverseRecOn with
  | nil =>
      refine ⟨fun q hq => ?_, fun name table => ?_⟩
      · cases hq
      · simp [HandlerState.ofQueries, dependents]
  | append_singleton queries last ih =>
      rw [List.map_append, List.nodup_append] at hnames
      rcases ih hnames.1 with ⟨hlookup, hindex⟩
      have hset : HandlerState.ofQueries id sessions (queries ++ [last]) =
          (HandlerState.ofQueries id sessions queries).setQuery last := by
        simp [HandlerState.ofQueries]
      rw [hset]
      refine ⟨fun q hq => ?_, fun name table => ?_⟩
      · rcases List.mem_append.1 hq with hold | hnew
        · have hne : q.name ≠ last.name :=
            hnames.2.2 q.name (List.mem_map_of_mem hold) last.name (by simp)
          exact (AList.lookup_insert_ne hne).trans (hlookup q hold)
        · have heq : q = last := by simpa using hnew
          subst heq
          exact AList.lookup_insert _
      · refine (mem_dependents_foldl last.name _ _).trans ?_
        rw [hindex]
        constructor
        · rintro (⟨q, hq, hname, htable⟩ | ⟨rfl, htable⟩)
          · exact ⟨q, List.mem_append_left _ hq, hname, htable⟩
          · exact ⟨last, by simp, rfl, htable⟩
        · rintro ⟨q, hq, hname, htable⟩
          rcases List.mem_append.1 hq with hold | hnew
          · exact Or.inl ⟨q, hold, hname, htable⟩
          · have heq : q = last := by simpa using hnew
            subst heq
            exact Or.inr ⟨hname.symm, htable⟩

/-- A broadcast of a table runs the queries that depend on it and have members. -/
theorem exists_run_broadcastChanges (hnames : (queries.map (·.name)).Nodup) {table : String}
    {exclude : Option String} {other : QueryRegistration} (hother : other ∈ queries) :
    (∃ run ∈ (HandlerState.ofQueries id sessions queries).broadcastChanges table exclude,
      run.query = other.name) ↔ table ∈ other.tableDependencies ∧
        (HandlerState.ofQueries id sessions queries).members other.name exclude ≠ [] := by
  rcases ofQueries_spec id sessions hnames with ⟨hlookup, hindex⟩
  constructor
  · rintro ⟨run, hrun, hquery⟩
    rcases List.mem_filterMap.1 hrun with ⟨name, hname, hsome⟩
    rcases (hindex name table).1 hname with ⟨q, hq, rfl, htable⟩
    simp only [hlookup q hq] at hsome
    split at hsome
    · cases hsome
    · rename_i hmembers
      cases hsome
      have heq : q = other := List.inj_on_of_nodup_map hnames hq hother hquery
      subst heq
      exact ⟨htable, hmembers⟩
  · rintro ⟨htable, hmembers⟩
    have hname := (hindex other.name table).2 ⟨other, hother, rfl, htable⟩
    have hrun : (⟨other.name, (HandlerState.ofQueries id sessions queries).members other.name
        exclude⟩ : QueryRun) ∈
          (HandlerState.ofQueries id sessions queries).broadcastChanges table exclude := by
      refine List.mem_filterMap.2 ⟨other.name, hname, ?_⟩
      simp only [hlookup other hother, if_neg hmembers]
    exact ⟨_, hrun, rfl⟩

variable {h : HandlerState} {writer : String}

/-- The subscribers that a broadcast would serve are among those that an eager delta goes to. -/
theorem exists_run_sendEager {query : String} (hmembers : h.members query (some writer) ≠ []) :
    ∃ run ∈ h.sendEager query writer, run.query = query := by
  rcases List.exists_mem_of_ne_nil _ hmembers with ⟨client, hclient⟩
  rcases List.mem_map.1 hclient with ⟨member, hmember, rfl⟩
  rcases List.mem_filter.1 hmember with ⟨hsub, hdue⟩
  have hne : member.1.clientId ≠ writer := by
    simp only [decide_eq_true_eq] at hdue
    exact fun heq => hdue.1 (by rw [heq])
  have hsent : member.1.clientId ∈ h.eagerMembers query writer :=
    List.mem_filter.2 ⟨List.mem_map_of_mem hsub, by simpa using hne⟩
  refine ⟨⟨query, h.eagerMembers query writer⟩, ?_, rfl⟩
  rw [HandlerState.sendEager, if_neg (List.ne_nil_of_mem hsent)]
  exact List.mem_singleton_self _

theorem query_of_mem_sendEager {query : String} {run : QueryRun}
    (hrun : run ∈ h.sendEager query writer) : run.query = query := by
  simp only [HandlerState.sendEager] at hrun
  split at hrun
  · cases hrun
  · rw [List.mem_singleton.1 hrun]

/-- Without a client to exclude there is no room either. -/
theorem members_none_of_some {query : String} {exclude : Option String}
    (hmembers : h.members query exclude ≠ []) : h.members query none ≠ [] := by
  rcases List.exists_mem_of_ne_nil _ hmembers with ⟨client, hclient⟩
  rcases List.mem_map.1 hclient with ⟨member, hmember, rfl⟩
  rcases List.mem_filter.1 hmember with ⟨hsub, hdue⟩
  simp only [decide_eq_true_eq] at hdue
  have hroom : h.senderRoomKey query none = none := by
    have hfind : h.sessions.find? (some ·.clientId = none) = none :=
      List.find?_eq_none.2 fun session _ => by simp
    rw [HandlerState.senderRoomKey, hfind]
    rfl
  have hsub' : member ∈ h.subscribersForQuery query none := by
    rcases List.mem_filterMap.1 hsub with ⟨session, hsession, hsome⟩
    refine List.mem_filterMap.2 ⟨session, hsession, ?_⟩
    cases hcase : session.subscription query with
    | none => simp [hcase] at hsome
    | some sub =>
        simp only [hcase] at hsome ⊢
        split at hsome
        · simpa using hsome
        · cases hsome
  have hdue' : member ∈ (h.subscribersForQuery query (h.senderRoomKey query none)).filter
      fun member => some member.1.clientId ≠ none ∧
        ¬ (member.2.windowed ∧ ¬ member.2.bootstrapped) := by
    rw [hroom]
    exact List.mem_filter.2 ⟨hsub', decide_eq_true ⟨by simp, hdue.2⟩⟩
  exact List.ne_nil_of_mem (List.mem_map_of_mem hdue')

/-! ## The run of a message -/

theorem processOps_cons (p : OpsProgress) (op : AcceptedOp) (ops : List AcceptedOp) :
    h.processOps writer p (op :: ops) = h.processOps writer (h.processClientOp writer p op) ops :=
  rfl

theorem processOps_append (p : OpsProgress) (first rest : List AcceptedOp) :
    h.processOps writer p (first ++ rest) =
      h.processOps writer (h.processOps writer p first) rest :=
  List.foldl_append ..

/-- An op adds to what was sent and logged. -/
theorem prefix_processClientOp (h : HandlerState) (writer : String) (p : OpsProgress)
    (op : AcceptedOp) :
    p.sent <+: (h.processClientOp writer p op).sent ∧
      p.log <+: (h.processClientOp writer p op).log := by
  simp only [HandlerState.processClientOp]
  split
  · exact ⟨List.prefix_refl _, List.prefix_refl _⟩
  · exact ⟨List.prefix_refl _, List.prefix_append _ _⟩
  · exact ⟨(List.prefix_append _ _).trans (List.prefix_append _ _), List.prefix_append _ _⟩

theorem prefix_processOps (h : HandlerState) (writer : String) (ops : List AcceptedOp) :
    ∀ p : OpsProgress, p.sent <+: (h.processOps writer p ops).sent ∧
      p.log <+: (h.processOps writer p ops).log := by
  induction ops with
  | nil => exact fun p => ⟨List.prefix_refl _, List.prefix_refl _⟩
  | cons op ops ih =>
      intro p
      have hstep := prefix_processClientOp h writer p op
      have hrest := ih (h.processClientOp writer p op)
      exact ⟨hstep.1.trans hrest.1, hstep.2.trans hrest.2⟩

/-- What is sent has a place in the list of everything sent. -/
theorem exists_getElem?_of_mem_append {before middle : List Fanout} {all : List Fanout}
    {fanout : Fanout} (hmem : fanout ∈ middle) (hextends : before ++ middle <+: all) :
    ∃ n, all[n]? = some fanout ∧ before.length ≤ n := by
  rcases List.getElem?_of_mem hmem with ⟨i, hi⟩
  rcases hextends with ⟨rest, rfl⟩
  refine ⟨before.length + i, ?_, Nat.le_add_right _ _⟩
  rw [List.append_assoc, List.getElem?_append_right (Nat.le_add_right _ _), Nat.add_sub_cancel_left]
  exact (List.getElem?_append_left (List.getElem?_eq_some_iff.1 hi).1).trans hi

/-- What is sent by an op of a message is sent by the message. -/
theorem prefix_broadcastDeferred (h : HandlerState) (writer : String) (p : OpsProgress)
    (ops : List AcceptedOp) :
    p.sent <+: ((h.processOps writer p ops).broadcastDeferred writer).sent :=
  (prefix_processOps h writer ops p).1.trans (List.prefix_append _ _)

theorem processClientOp_consistent (writer : String) (p : OpsProgress) {op : AcceptedOp}
    (hmode : (h.queries.lookup op.query).map QueryRegistration.broadcast = some .consistent) :
    (h.processClientOp writer p op).sent = p.sent ∧
      (h.processClientOp writer p op).deferredBroadcastTables =
        (op.query :: op.affected).foldl addName p.deferredBroadcastTables := by
  simp only [HandlerState.processClientOp, hmode]
  exact ⟨trivial, trivial⟩

theorem processClientOp_eager (writer : String) (p : OpsProgress) {op : AcceptedOp}
    {mode : BroadcastMode}
    (hmode : (h.queries.lookup op.query).map QueryRegistration.broadcast = some mode)
    (heager : mode ≠ .consistent) :
    (h.processClientOp writer p op).sent =
      p.sent ++ p.deferredBroadcastTables.map (.broadcast · (some writer)) ++
        .eager op.query :: op.affected.map (.broadcast · (some writer)) := by
  cases mode with
  | consistent => exact absurd rfl heager
  | eager => simp only [HandlerState.processClientOp, hmode]
  | eagerDurable => simp only [HandlerState.processClientOp, hmode]

/-- A deferred table is broadcast, before an eager op or at the end. -/
theorem exists_broadcast_of_deferred {table : String} (ops : List AcceptedOp) :
    ∀ p : OpsProgress, table ∈ p.deferredBroadcastTables →
      ∃ (n : Nat) (exclude : Option String),
        ((h.processOps writer p ops).broadcastDeferred writer).sent[n]? =
          some (.broadcast table exclude) ∧
        p.sent.length ≤ n ∧ (exclude = none ∨ exclude = some writer) := by
  induction ops with
  | nil =>
      intro p hmem
      have hsent : Fanout.broadcast table (if table ∈ p.hearWriter then none else some writer) ∈
          p.deferredBroadcastTables.map fun table =>
            .broadcast table (if table ∈ p.hearWriter then none else some writer) :=
        List.mem_map_of_mem hmem
      rcases exists_getElem?_of_mem_append hsent (List.prefix_refl _) with ⟨n, hn, hle⟩
      refine ⟨n, _, hn, hle, ?_⟩
      split
      · exact Or.inl rfl
      · exact Or.inr rfl
  | cons op ops ih =>
      intro p hmem
      rw [processOps_cons]
      cases hmode : (h.queries.lookup op.query).map QueryRegistration.broadcast with
      | none =>
          have hp : h.processClientOp writer p op = p := by
            simp only [HandlerState.processClientOp, hmode]
          rw [hp]
          exact ih p hmem
      | some mode =>
          by_cases hconsistent : mode = .consistent
          · -- The table stays deferred.
            subst hconsistent
            have hop := processClientOp_consistent writer p hmode
            rw [← hop.1]
            refine ih _ ?_
            rw [hop.2]
            exact (mem_foldl_addName _ _).2 (Or.inl hmem)
          · -- The eager op flushes it.
            have hsent : p.sent ++ p.deferredBroadcastTables.map (.broadcast · (some writer)) <+:
                (h.processClientOp writer p op).sent := by
              rw [processClientOp_eager writer p hmode hconsistent]
              exact List.prefix_append _ _
            have hmem' : Fanout.broadcast table (some writer) ∈
                p.deferredBroadcastTables.map (Fanout.broadcast · (some writer)) :=
              List.mem_map_of_mem hmem
            have hall := hsent.trans (prefix_broadcastDeferred h writer _ ops)
            rcases exists_getElem?_of_mem_append hmem' hall with ⟨n, hn, hle⟩
            exact ⟨n, some writer, hn, hle, Or.inr rfl⟩

/-- Each fanout that an accepted op asks for goes out after the op. -/
theorem exists_sent (writer : String) (p : OpsProgress) {op : AcceptedOp} {q : QueryRegistration}
    (hq : h.queries.lookup op.query = some q) (hname : q.name = op.query)
    (rest : List AcceptedOp) :
    (∀ table, table ∈ op.affected ∨ q.broadcast = .consistent ∧ table = q.name →
      ∃ (n : Nat) (exclude : Option String),
        ((h.processOps writer p (op :: rest)).broadcastDeferred writer).sent[n]? =
          some (.broadcast table exclude) ∧
        p.sent.length ≤ n ∧ (exclude = none ∨ exclude = some writer)) ∧
      (q.broadcast ≠ .consistent → ∃ n : Nat,
        ((h.processOps writer p (op :: rest)).broadcastDeferred writer).sent[n]? =
          some (.eager q.name) ∧ p.sent.length ≤ n) := by
  have hmode : (h.queries.lookup op.query).map QueryRegistration.broadcast = some q.broadcast := by
    rw [hq]
    rfl
  rw [processOps_cons]
  by_cases hconsistent : q.broadcast = .consistent
  · rw [hconsistent] at hmode
    have hop := processClientOp_consistent writer p hmode
    refine ⟨fun table htable => ?_, fun heager => absurd hconsistent heager⟩
    rw [← hop.1]
    refine exists_broadcast_of_deferred rest _ ?_
    rw [hop.2]
    refine (mem_foldl_addName _ _).2 (Or.inr ?_)
    rcases htable with haffected | ⟨_, heq⟩
    · exact List.mem_cons_of_mem _ haffected
    · rw [heq, hname]
      exact List.mem_cons_self
  · have hsent := processClientOp_eager writer p hmode hconsistent
    have hall := prefix_broadcastDeferred h writer (h.processClientOp writer p op) rest
    rw [hsent] at hall
    have hlength : p.sent.length ≤
        (p.sent ++ p.deferredBroadcastTables.map (Fanout.broadcast · (some writer))).length := by
      simp
    refine ⟨fun table htable => ?_, fun _ => ?_⟩
    · have haffected : table ∈ op.affected := by
        rcases htable with haffected | ⟨heq, _⟩
        · exact haffected
        · exact absurd heq hconsistent
      have hmem : Fanout.broadcast table (some writer) ∈
          Fanout.eager op.query :: op.affected.map (Fanout.broadcast · (some writer)) :=
        List.mem_cons_of_mem _ (List.mem_map_of_mem haffected)
      rcases exists_getElem?_of_mem_append hmem hall with ⟨n, hn, hle⟩
      exact ⟨n, some writer, hn, le_trans hlength hle, Or.inr rfl⟩
    · rw [hname]
      rcases exists_getElem?_of_mem_append List.mem_cons_self hall with ⟨n, hn, hle⟩
      exact ⟨n, hn, le_trans hlength hle⟩

theorem mem_log {p : OpsProgress} {op : AcceptedOp} {q : QueryRegistration}
    (hq : h.queries.lookup op.query = some q) (rest : List AcceptedOp) :
    h.logEntry op ∈ ((h.processOps writer p (op :: rest)).broadcastDeferred writer).log := by
  have hmode : (h.queries.lookup op.query).map QueryRegistration.broadcast = some q.broadcast := by
    rw [hq]
    rfl
  have hmem : h.logEntry op ∈ (h.processClientOp writer p op).log := by
    cases hb : q.broadcast <;> rw [hb] at hmode <;>
      simp [HandlerState.processClientOp, hmode]
  exact (prefix_processOps h writer rest _).2.subset hmem

/-! ## The condition -/

/-- The one entry of an op is reported for its query's name alone. -/
theorem mem_changedTablesSince_entry {op : AcceptedOp} {since : Hlc} {tables : List String}
    {table : String} (hsince : since < op.hlc) :
    table ∈ changedTablesSince since tables [h.logEntry op] ↔
      table ∈ tables ∧ table = op.query := by
  have hentry : ([h.logEntry op].any fun entry => entry.table = table ∧ since < entry.hlc) = true ↔
      table = op.query := by
    simp only [HandlerState.logEntry, List.any_cons, List.any_nil, Bool.or_false,
      decide_eq_true_eq]
    exact ⟨fun h => h.1.symm, fun heq => ⟨heq.symm, hsince⟩⟩
  exact List.mem_filter.trans (and_congr_right fun _ => hentry)

def subscriber (clientId query : String) : ClientSession :=
  ⟨clientId, [⟨query, none, false, true⟩]⟩

end Server
end Reflectdb
