import Reflectdb.Server.Presence

/-!
# Isolation — presence stays within rooms

What a handler goes by when it sends is kept from one await to the next: a client's messages take
turns, so that its session stays as its message found it, unless it connects again meanwhile.
-/

namespace Reflectdb
namespace Server

open Core Client Lib

/-! ## The stores' channels -/

/-- Every entry and every listed channel was set, and no two rooms share a place. -/
structure StoreSound (adapter : EphemeralAdapter) (store : EphemeralStore) : Prop where
  apart : ∀ p ∈ store.channels, ∀ p' ∈ store.channels,
    adapter.slot p.1 p.2 = adapter.slot p'.1 p'.2 → p.1 = p'.1
  entries : ∀ entry ∈ store.entries, (entry.room, entry.state.key) ∈ store.channels
  roomKeys : ∀ room, ∀ key ∈ store.roomKeys room, (room, key) ∈ store.channels

namespace StoreSound

variable {adapter : EphemeralAdapter} {store store' : EphemeralStore}

theorem set (h : StoreSound adapter store) {room : String} {state : EphemeralState}
    (hown : store.OwnSlot adapter room state.key) :
    StoreSound adapter (store.set adapter room state) := by
  refine ⟨?_, ?_, ?_⟩
  · intro p hp p' hp' heq
    rcases List.mem_cons.1 hp with rfl | hp
    · rcases List.mem_cons.1 hp' with rfl | hp'
      · rfl
      · exact (hown p' hp' heq.symm).symm
    · rcases List.mem_cons.1 hp' with rfl | hp'
      · exact hown p hp heq
      · exact h.apart p hp p' hp' heq
  · intro entry hentry
    rcases List.mem_append.1 hentry with hold | hnew
    · exact List.mem_cons_of_mem _ (h.entries entry (List.mem_of_mem_filter hold))
    · obtain rfl := List.mem_singleton.1 hnew
      exact List.mem_cons_self ..
  · intro r key hkey
    simp only [EphemeralStore.set] at hkey
    split at hkey
    · rename_i hr
      subst hr
      rcases mem_addLast.1 hkey with hold | rfl
      · exact List.mem_cons_of_mem _ (h.roomKeys r key hold)
      · exact List.mem_cons_self ..
    · exact List.mem_cons_of_mem _ (h.roomKeys r key hkey)

/-- Nothing but removals. -/
theorem shrink (h : StoreSound adapter store) (hchannels : store'.channels = store.channels)
    (hentries : ∀ entry ∈ store'.entries, entry ∈ store.entries)
    (hkeys : ∀ room, ∀ key ∈ store'.roomKeys room, key ∈ store.roomKeys room) :
    StoreSound adapter store' := by
  refine ⟨?_, ?_, ?_⟩ <;> rw [hchannels]
  · exact h.apart
  · exact fun entry hentry => h.entries entry (hentries entry hentry)
  · exact fun room key hkey => h.roomKeys room key (hkeys room key hkey)

theorem removeEntry (h : StoreSound adapter store) (room key clientId : String) :
    StoreSound adapter (store.removeEntry adapter room key clientId) := by
  refine h.shrink rfl (fun entry hentry => List.mem_of_mem_filter hentry) fun r k hk => ?_
  simp only [EphemeralStore.removeEntry] at hk
  split at hk
  · exact (mem_without.1 hk).1
  · exact hk

theorem expireHash (h : StoreSound adapter store) (room key : String) :
    StoreSound adapter (store.expireHash adapter room key) :=
  h.shrink rfl (fun _ hentry => List.mem_of_mem_filter hentry) fun _ _ hk => hk

theorem expireRoomKeys (h : StoreSound adapter store) (room : String) :
    StoreSound adapter (store.expireRoomKeys room) := by
  refine h.shrink rfl (fun _ hentry => hentry) fun r k hk => ?_
  simp only [EphemeralStore.expireRoomKeys] at hk
  split at hk
  · cases hk
  · exact hk

/-- What is read of a room's channel is of the room. -/
theorem room_of_mem_readChannel (h : StoreSound adapter store) {room key : String}
    (hkey : (room, key) ∈ store.channels) {entry : PresenceEntry}
    (hentry : entry ∈ store.readChannel adapter room key) : entry.room = room := by
  rcases List.mem_filter.1 hentry with ⟨hmem, hslot⟩
  exact h.apart _ (h.entries entry hmem) _ hkey (of_decide_eq_true hslot)

end StoreSound

/-! ## The invariant -/

section Invariant

variable (adapter : EphemeralAdapter)

/-- The client's session is the one that the message came for. -/
def PresenceState.Connected (s : PresenceState) (job : MessageJob) : Prop :=
  (s.session job.client).isSome ∧ job.connection = s.connections job.client

/-- While its client is connected, it stays in the room that it has subscribed in. -/
def PresenceState.Placed (s : PresenceState) (job : MessageJob) (query room : String) : Prop :=
  s.Connected job → roomOf (s.held (job.client, job.connection)) query = some room

/-- What the handling of a message goes by. -/
def JobSound (s : PresenceState) (job : MessageJob) : Prop :=
  match job.phase with
  | .readingRoom query room => s.Placed job query room
  | .readingKeys query room keys read => s.Placed job query room ∧
      (∀ key ∈ keys, (room, key) ∈ (s.stores (adapter.storeOf job.instance_)).channels) ∧
      ∀ entry ∈ read, entry.room = room
  | .sending query room entries => s.Placed job query room ∧
      ∀ entry ∈ entries, entry.room = room
  | .setting connection _ _ queryNames => job.connection = connection ∧
      ∀ query ∈ queryNames, query ∈ s.held (job.client, job.connection)
  | .publishing event => TargetsOf event.sender event.targets
  | _ => True

/-- A client's messages are handled one after the other while it is connected, and each is handled
soundly. -/
structure EphemeralInv (s : PresenceState) : Prop where
  held : ∀ client session, s.session client = some session →
    s.held (client, s.connections client) = session.subscriptions
  received : ∀ job ∈ s.jobs, job.connection ≤ s.connections job.client
  queue : ∀ job ∈ s.jobs, s.Connected job → job.queue = s.queues job.client
  turn : ∀ {i j : Nat} {job other : MessageJob}, s.jobs[i]? = some job → s.jobs[j]? = some other →
    i < j → other.sameQueue job = true → other.phase.underway = true → job.phase.isDone = true
  jobs : ∀ job ∈ s.jobs, JobSound adapter s job
  stores : ∀ n, StoreSound adapter (s.stores n)
  bus : ∀ event ∈ s.bus, TargetsOf event.sender event.targets
  deliveries : Isolated s

end Invariant

section Steps

variable {adapter : EphemeralAdapter} {s s' : PresenceState} {job : MessageJob}

theorem sameQueue_iff {job other : MessageJob} :
    job.sameQueue other = true ↔ other.client = job.client ∧ other.queue = job.queue := by
  simp [MessageJob.sameQueue]

theorem jobSound_of_not_underway (h : job.phase.underway = false) : JobSound adapter s job := by
  unfold JobSound
  split <;> first | trivial | (rename_i heq; rw [heq] at h; cases h)

/-- What a job goes by is kept where the subscriptions are that it looked at, if its client is still
connected, and nothing set is forgotten. -/
theorem JobSound.frame (h : JobSound adapter s job)
    (hheld : s'.held (job.client, job.connection) = s.held (job.client, job.connection))
    (hconnected : s'.Connected job → s.Connected job)
    (hchannels : ∀ n, ∀ p ∈ (s.stores n).channels, p ∈ (s'.stores n).channels) :
    JobSound adapter s' job := by
  have hplaced : ∀ {query room}, s.Placed job query room → s'.Placed job query room := by
    intro query room hplaced hconn
    rw [hheld]
    exact hplaced (hconnected hconn)
  unfold JobSound at h ⊢
  split
  · exact hplaced (by simpa [*] using h)
  · simp only [*] at h
    exact ⟨hplaced h.1, fun key hkey => hchannels _ _ (h.2.1 key hkey), h.2.2⟩
  · simp only [*] at h
    exact ⟨hplaced h.1, h.2⟩
  · simp only [*] at h
    exact ⟨h.1, fun query hquery => hheld ▸ h.2 query hquery⟩
  · simpa [*] using h
  · trivial

/-- The message is being handled, or starts to be. -/
def PresenceState.Acts (s : PresenceState) (j : Nat) (job : MessageJob) : Prop :=
  job.phase.underway = true ∨ (job.phase.isDone = false ∧ s.isTurn j job = true)

theorem PresenceState.Acts.not_done {j : Nat} (h : s.Acts j job) : job.phase.isDone = false := by
  rcases h with hunderway | ⟨hdone, -⟩
  · cases hphase : job.phase <;> simp_all [MessagePhase.underway, MessagePhase.isDone]
  · exact hdone

/-- Where a message acts, those before it in its queue are done. -/
theorem EphemeralInv.earlier_done (h : EphemeralInv adapter s) {i j : Nat} {other : MessageJob}
    (hj : s.jobs[j]? = some job) (hacts : s.Acts j job) (hi : s.jobs[i]? = some other)
    (hlt : i < j) (hsame : job.sameQueue other = true) : other.phase.isDone = true := by
  rcases hacts with hunderway | ⟨-, hturn⟩
  · exact h.turn hi hj hlt hsame hunderway
  · have hmem : other ∈ s.jobs.take j := by
      refine List.mem_of_getElem? (i := i) ?_
      rw [List.getElem?_take_of_lt hlt]
      exact hi
    have hor := List.all_eq_true.1 hturn other hmem
    simpa [hsame] using hor

/-- No other message of the queue is being handled. -/
theorem EphemeralInv.exclusive (h : EphemeralInv adapter s) {i j : Nat} {other : MessageJob}
    (hj : s.jobs[j]? = some job) (hacts : s.Acts j job) (hi : s.jobs[i]? = some other)
    (hne : i ≠ j) (hsame : job.sameQueue other = true) : other.phase.underway = false := by
  refine Bool.eq_false_iff.2 fun hunderway => ?_
  rcases Nat.lt_or_gt_of_ne hne with hlt | hgt
  · have hdone := h.earlier_done hj hacts hi hlt hsame
    rw [PresenceState.Acts.not_done (s := s) (j := i) (Or.inl hunderway)] at hdone
    cases hdone
  · have hsame' : other.sameQueue job = true := by
      rcases sameQueue_iff.1 hsame with ⟨hclient, hqueue⟩
      exact sameQueue_iff.2 ⟨hclient.symm, hqueue.symm⟩
    cases hacts.not_done.symm.trans (h.turn hj hi hgt hsame' hunderway)

theorem EphemeralInv.setPhase (h : EphemeralInv adapter s) {j : Nat} {phase : MessagePhase}
    (hj : s.jobs[j]? = some job) (hacts : phase.isDone = true ∨ s.Acts j job)
    (hsound : JobSound adapter s { job with phase := phase }) :
    EphemeralInv adapter (s.setPhase j job phase) := by
  have hmem := List.mem_of_getElem? hj
  have hall : ∀ {P : MessageJob → Prop}, (∀ x ∈ s.jobs, P x) → P { job with phase := phase } →
      ∀ x ∈ (s.setPhase j job phase).jobs, P x := by
    intro P hold hnew x hx
    rcases List.mem_or_eq_of_mem_set hx with hx | rfl
    · exact hold x hx
    · exact hnew
  refine ⟨h.held, hall h.received (h.received job hmem), hall h.queue (h.queue job hmem), ?_,
    hall h.jobs hsound, h.stores, h.bus, h.deliveries⟩
  intro i k first second hi hk hlt hsame hunderway
  simp only [PresenceState.setPhase, List.getElem?_set] at hi hk
  by_cases hkj : j = k
  · -- The message that changes is the later one.
    subst hkj
    have hne : j ≠ i := hlt.ne'
    rw [if_neg hne] at hi
    simp only [if_true, (List.getElem?_eq_some_iff.1 hj).1, Option.some.injEq] at hk
    subst hk
    have hnot : phase.isDone = false :=
      @PresenceState.Acts.not_done s { job with phase := phase } j (Or.inl hunderway)
    have hacts' := hacts.resolve_left (by simp [hnot])
    exact h.earlier_done hj hacts' hi hlt hsame
  · rw [if_neg hkj] at hk
    by_cases hij : j = i
    · subst hij
      simp only [if_true, (List.getElem?_eq_some_iff.1 hj).1, Option.some.injEq] at hi
      subst hi
      rcases hacts with hdone | hacts
      · exact hdone
      · exact absurd (h.turn hj hk hlt hsame hunderway) (by simp [hacts.not_done])
    · rw [if_neg hij] at hi
      exact h.turn hi hk hlt hsame hunderway

theorem EphemeralInv.deliver (h : EphemeralInv adapter s) {ds : List Delivery}
    (hds : ∀ d ∈ ds, d.Allowed) :
    EphemeralInv adapter { s with deliveries := s.deliveries ++ ds } := by
  refine ⟨h.held, h.received, h.queue, h.turn, h.jobs, h.stores, h.bus, ?_⟩
  intro d hd
  exact (List.mem_append.1 hd).elim (h.deliveries d) (hds d)

theorem EphemeralInv.setStore (h : EphemeralInv adapter s) (i : Nat) {store : EphemeralStore}
    (hstore : StoreSound adapter store)
    (hgrows : ∀ p ∈ (s.stores (adapter.storeOf i)).channels, p ∈ store.channels) :
    EphemeralInv adapter (s.setStore adapter i store) := by
  refine ⟨h.held, h.received, h.queue, h.turn, ?_, ?_, h.bus, h.deliveries⟩
  · intro job hjob
    refine (h.jobs job hjob).frame rfl id fun n p hp => ?_
    simp only [PresenceState.setStore]
    by_cases hn : n = adapter.storeOf i
    · subst hn
      rw [Function.update_self]
      exact hgrows p hp
    · rw [Function.update_of_ne hn]
      exact hp
  · intro n
    simp only [PresenceState.setStore]
    by_cases hn : n = adapter.storeOf i
    · subst hn
      rw [Function.update_self]
      exact hstore
    · rw [Function.update_of_ne hn]
      exact h.stores n

/-! ## Sessions -/

/-- Of the sessions of the client's instance, only the client's may change. -/
def PresenceState.OnlyClient (s : PresenceState) (client : Nat × String) (m : SessionManager) :
    Prop :=
  ∀ c, c ≠ client.2 → m.sessions c = (s.managers client.1).sessions c

theorem PresenceState.session_setManager {client : Nat × String} {m : SessionManager} :
    (s.setManager client m).session client = m.sessions client.2 := by
  simp [PresenceState.session, PresenceState.setManager]

theorem PresenceState.session_setManager_of_ne {client client' : Nat × String}
    {m : SessionManager} (hm : s.OnlyClient client m) (hne : client' ≠ client) :
    (s.setManager client m).session client' = s.session client' := by
  simp only [PresenceState.session, PresenceState.setManager]
  by_cases hi : client'.1 = client.1
  · rw [hi, Function.update_self]
    exact hm _ fun hc => hne (Prod.ext hi hc)
  · rw [Function.update_of_ne hi]

theorem PresenceState.held_setManager {client : Nat × String} {m : SessionManager}
    {key : (Nat × String) × Nat}
    (hkey : m.sessions client.2 = none ∨ key ≠ (client, s.connections client)) :
    (s.setManager client m).held key = s.held key := by
  cases hsession : m.sessions client.2 with
  | none => simp only [PresenceState.setManager, hsession]
  | some session =>
      rw [hsession] at hkey
      simp only [PresenceState.setManager, hsession]
      exact Function.update_of_ne (hkey.resolve_left (by simp)) _ _

theorem PresenceState.held_setManager_self (s : PresenceState) (client : Nat × String)
    {m : SessionManager} {session : Session} (hsession : m.sessions client.2 = some session) :
    (s.setManager client m).held (client, s.connections client) = session.subscriptions := by
  simp only [PresenceState.setManager, hsession, Function.update_self]

/-- A client connects, leaves or changes what its session says.  Of its messages, those that came
over the connection that it has afterwards had it before, and what they go by is kept. -/
theorem EphemeralInv.changeSession (h : EphemeralInv adapter s) (client : Nat × String)
    (connections queues : Nat × String → Nat) {m : SessionManager}
    (hm : s.OnlyClient client m)
    (hconnections : ∀ c, c ≠ client → connections c = s.connections c)
    (hqueues : ∀ c, c ≠ client → queues c = s.queues c)
    (hgrows : s.connections client ≤ connections client)
    (hkept : ∀ job ∈ s.jobs, job.client = client → job.connection = connections client →
      ∀ session, m.sessions client.2 = some session → s.Connected job ∧
        job.queue = queues client ∧ ((∀ s', JobSound adapter s' job) ∨
          session.subscriptions = s.held (client, job.connection))) :
    EphemeralInv adapter
      ({ s with connections := connections, queues := queues }.setManager client m) := by
  let s₀ : PresenceState := { s with connections := connections, queues := queues }
  have hm₀ : s₀.OnlyClient client m := hm
  have hother : ∀ {c}, c ≠ client → (s₀.setManager client m).session c = s.session c :=
    fun hne => PresenceState.session_setManager_of_ne hm₀ hne
  have hself : (s₀.setManager client m).session client = m.sessions client.2 :=
    PresenceState.session_setManager
  refine ⟨?_, ?_, ?_, h.turn, ?_, h.stores, h.bus, h.deliveries⟩
  · intro c session hsession
    by_cases hc : c = client
    · subst hc
      exact PresenceState.held_setManager_self s₀ _ (hself.symm.trans hsession)
    · have hheld := h.held c session ((hother hc).symm.trans hsession)
      have hkey : (c, connections c) ≠ (client, connections client) :=
        fun heq => hc (Prod.mk.inj heq).1
      refine (PresenceState.held_setManager (s := s₀) (Or.inr hkey)).trans ?_
      rw [hconnections c hc]
      exact hheld
  · intro job hjob
    have hle := h.received job hjob
    by_cases hc : job.client = client
    · rw [hc] at hle ⊢
      exact hle.trans hgrows
    · exact hle.trans_eq (hconnections _ hc).symm
  · intro job hjob hconnected
    by_cases hc : job.client = client
    · rcases hconnected with ⟨hsome, hconnection⟩
      rw [hc] at hsome hconnection ⊢
      rw [hself] at hsome
      rcases Option.isSome_iff_exists.1 hsome with ⟨session, hsession⟩
      exact (hkept job hjob hc hconnection session hsession).2.1
    · refine (h.queue job hjob ⟨?_, ?_⟩).trans (hqueues _ hc).symm
      · rw [← hother hc]
        exact hconnected.1
      · exact hconnected.2.trans (hconnections _ hc)
  · intro job hjob
    by_cases hc : job.client = client
    · cases hsession : m.sessions client.2 with
      | none =>
          -- Nobody is connected.
          refine (h.jobs job hjob).frame (PresenceState.held_setManager (s := s₀) (Or.inl hsession))
            (fun hconnected => ?_) fun _ _ hp => hp
          have hsome := hconnected.1
          rw [hc, hself, hsession] at hsome
          cases hsome
      | some session =>
          by_cases hconnection : job.connection = connections client
          · rcases hkept job hjob hc hconnection session hsession with ⟨hconnected, -, hsound⟩
            rcases hsound with hany | hsubs
            · exact hany _
            · refine (h.jobs job hjob).frame ?_ (fun _ => hconnected) fun _ _ hp => hp
              rw [hc]
              refine Eq.trans ?_ hsubs
              rw [hconnection]
              exact PresenceState.held_setManager_self s₀ _ hsession
          · have hkey : (job.client, job.connection) ≠ (client, connections client) :=
              fun heq => hconnection (Prod.mk.inj heq).2
            refine (h.jobs job hjob).frame
              (PresenceState.held_setManager (s := s₀) (Or.inr hkey)) (fun hconnected => ?_)
              fun _ _ hp => hp
            exact absurd (hc ▸ hconnected.2) hconnection
    · have hkey : (job.client, job.connection) ≠ (client, connections client) :=
        fun heq => hc (Prod.mk.inj heq).1
      refine (h.jobs job hjob).frame (PresenceState.held_setManager (s := s₀) (Or.inr hkey))
        (fun hconnected => ⟨?_, ?_⟩) fun _ _ hp => hp
      · rw [← hother hc]
        exact hconnected.1
      · exact hconnected.2.trans (hconnections _ hc)

theorem EphemeralInv.connect (h : EphemeralInv adapter s) (client : Nat × String) (now : Nat) :
    EphemeralInv adapter (s.connect client now) := by
  refine h.changeSession client
    (Function.update s.connections client (s.connections client + 1)) s.queues ?_
    (fun c hc => Function.update_of_ne hc _ _) (fun _ _ => rfl) ?_ ?_
  · intro c hc
    simp [SessionManager.connect, Table.put, hc]
  · rw [Function.update_self]
    omega
  · -- No message has come over the new connection.
    intro job hjob hc hconnection
    rw [Function.update_self] at hconnection
    have hle := h.received job hjob
    rw [hc] at hle
    omega

theorem EphemeralInv.disconnect (h : EphemeralInv adapter s) (client : Nat × String) :
    EphemeralInv adapter (s.disconnect client) := by
  have hnone : ((s.managers client.1).disconnect client.2).sessions client.2 = none := by
    unfold SessionManager.disconnect
    split <;> simp [Table.remove]
  refine h.changeSession client s.connections
    (Function.update s.queues client (s.queues client + 1)) ?_ (fun _ _ => rfl)
    (fun c hc => Function.update_of_ne hc _ _) le_rfl ?_
  · intro c hc
    unfold SessionManager.disconnect
    split <;> simp [Table.remove, hc]
  · intro job _ _ _ session hsession
    rw [hnone] at hsession
    cases hsession

theorem EphemeralInv.setAuth (h : EphemeralInv adapter s) (client : Nat × String)
    (auth : AuthContext) :
    EphemeralInv adapter (s.setManager client ((s.managers client.1).setAuth client.2 auth)) := by
  refine h.changeSession client s.connections s.queues ?_
    (fun _ _ => rfl) (fun _ _ => rfl) le_rfl ?_
  · intro c hc
    unfold SessionManager.setAuth
    split <;> simp [Table.put, hc]
  · intro job hjob hc hconnection session hsession
    unfold SessionManager.setAuth at hsession
    split at hsession
    · rename_i hnone
      rw [hnone] at hsession
      cases hsession
    · rename_i old hold
      have hsubs : session.subscriptions = old.subscriptions := by
        simp only [Table.put, Function.update_self, Option.some.injEq] at hsession
        rw [← hsession]
      have hconnected : s.Connected job := by
        refine ⟨?_, by rw [hc]; exact hconnection⟩
        rw [hc, PresenceState.session, hold]
        rfl
      refine ⟨hconnected, ?_, Or.inr ?_⟩
      · have hqueue := h.queue job hjob hconnected
        rwa [hc] at hqueue
      · rw [hsubs, hconnection]
        exact (h.held client old hold).symm

/-- A message in its turn changes its client's subscriptions. -/
theorem EphemeralInv.changeSubscriptions (h : EphemeralInv adapter s) {j : Nat}
    (hj : s.jobs[j]? = some job) (hacts : s.Acts j job) (htime : s.OnTime job)
    (hfree : ∀ s', JobSound adapter s' job) {m : SessionManager} (hm : s.OnlyClient job.client m)
    (hsome : ∀ session, m.sessions job.clientId = some session → (s.session job.client).isSome) :
    EphemeralInv adapter (s.setManager job.client m) := by
  refine h.changeSession job.client s.connections s.queues hm
    (fun _ _ => rfl) (fun _ _ => rfl) le_rfl ?_
  intro other hother hc hconnection session hsession
  have hlive := hsome session hsession
  have hconnected : s.Connected other := ⟨by rw [hc]; exact hlive, by rw [hc]; exact hconnection⟩
  have hself : s.Connected job := by
    refine ⟨hlive, htime.resolve_left fun hnone => ?_⟩
    rw [Option.isNone_iff_eq_none.1 hnone] at hlive
    cases hlive
  have hqueue := h.queue other hother hconnected
  rw [hc] at hqueue
  refine ⟨hconnected, hqueue, Or.inl ?_⟩
  rcases List.mem_iff_getElem?.1 hother with ⟨i, hi⟩
  by_cases hij : i = j
  · subst hij
    obtain rfl : job = other := Option.some.inj (hj.symm.trans hi)
    exact hfree
  · have hsame : job.sameQueue other = true := by
      refine sameQueue_iff.2 ⟨hc, hqueue.trans ?_⟩
      exact (h.queue job (List.mem_of_getElem? hj) hself).symm
    exact fun s' => jobSound_of_not_underway (h.exclusive hj hacts hi hij hsame)

theorem EphemeralInv.receive (h : EphemeralInv adapter s) (i : Nat) (clientId : String)
    (message : PresenceMessage) :
    EphemeralInv adapter { s with
      jobs := s.jobs ++ [⟨i, clientId, message, s.connections (i, clientId),
        s.queues (i, clientId), .queued⟩] } := by
  have hall : ∀ {P : MessageJob → Prop} {new : MessageJob}, (∀ x ∈ s.jobs, P x) → P new →
      ∀ x ∈ s.jobs ++ [new], P x := by
    intro P new hold hnew x hx
    rcases List.mem_append.1 hx with hx | hx
    · exact hold x hx
    · obtain rfl := List.mem_singleton.1 hx
      exact hnew
  refine ⟨h.held, hall h.received le_rfl, hall h.queue fun _ => rfl, ?_, hall h.jobs trivial,
    h.stores, h.bus, h.deliveries⟩
  intro a b first second ha hb hlt hsame hunderway
  simp only at ha hb
  rcases Nat.lt_or_ge b s.jobs.length with hb' | hb'
  · rw [List.getElem?_append_left hb'] at hb
    rw [List.getElem?_append_left (hlt.trans hb')] at ha
    exact h.turn ha hb hlt hsame hunderway
  · -- The new message is not handled yet.
    rw [List.getElem?_append_right hb'] at hb
    have hqueued := List.mem_singleton.1 (List.mem_of_getElem? hb)
    rw [hqueued] at hunderway
    cases hunderway

theorem EphemeralInv.deliverSignal (h : EphemeralInv adapter s) (i : Nat) (to_ : String)
    {targets : List EphemeralTarget} {sender : Record Subscription}
    (hsender : TargetsOf sender targets) (state : EphemeralState) :
    EphemeralInv adapter (s.deliverSignal i to_ targets sender state).1 := by
  unfold PresenceState.deliverSignal
  split
  · exact h
  · rename_i recipient _
    split
    · rename_i haudience
      refine h.deliver fun d hd => ?_
      obtain rfl := List.mem_singleton.1 hd
      exact ⟨rfl, shares_of_inAudience hsender haudience⟩
    · exact h

theorem PresenceState.deliverSignal_jobs (i : Nat) (to_ : String) (targets : List EphemeralTarget)
    (sender : Record Subscription) (state : EphemeralState) :
    (s.deliverSignal i to_ targets sender state).1.jobs = s.jobs := by
  unfold PresenceState.deliverSignal
  split
  · rfl
  · split <;> rfl

theorem EphemeralInv.fanOut (h : EphemeralInv adapter s) (i : Nat) {exclude : Option String}
    {targets : List EphemeralTarget} {sender : Record Subscription}
    (hsender : TargetsOf sender targets)
    (hlisted : RoomlessListed (s.managers i) targets exclude) (state : EphemeralState) :
    EphemeralInv adapter (s.deliver (fanOutEphemeral (s.managers i) targets exclude)
      (.ephemeral sender state)) := by
  refine h.deliver fun d hd => ?_
  rcases List.mem_map.1 hd with ⟨r, hr, rfl⟩
  exact shares_of_mem_fanOut hsender hlisted hr

/-! ## The handlers -/

/-- The subscriptions of a session, with their rooms. -/
theorem targetsOf_entries (subscriptions : Record Subscription) :
    TargetsOf subscriptions
      (subscriptions.entries.map fun e => (⟨e.1, e.2.roomKey⟩ : EphemeralTarget)) := by
  intro target htarget
  rcases List.mem_map.1 htarget with ⟨e, he, rfl⟩
  exact ⟨e.2, AList.mem_lookup_iff.2 he, rfl⟩

theorem PresenceState.targetsOf_sound {connection : Nat} {queryNames : List String}
    (hheld : ∀ query ∈ queryNames, query ∈ s.held (job.client, connection)) :
    TargetsOf (s.held (job.client, connection)) (s.targetsOf job connection queryNames) := by
  intro target htarget
  rcases List.mem_map.1 htarget with ⟨query, hquery, rfl⟩
  rcases Option.isSome_iff_exists.1 (AList.lookup_isSome.2 (hheld query hquery)) with ⟨sub, hsub⟩
  refine ⟨sub, hsub, ?_⟩
  simp only [roomOf, hsub, Option.bind_some]

theorem EphemeralInv.handleMessage (h : EphemeralInv adapter s) {j : Nat}
    (hj : s.jobs[j]? = some job) (hacts : s.Acts j job) (hqueued : job.phase = .queued)
    (htime : s.OnTime job) {session : Session} (hsession : s.session job.client = some session)
    (userId : String) : EphemeralInv adapter (s.handleMessage j job session userId) := by
  have hfree : ∀ s', JobSound adapter s' job :=
    fun s' => jobSound_of_not_underway (by rw [hqueued]; rfl)
  have hconnection : job.connection = s.connections job.client :=
    htime.resolve_left (by simp [hsession])
  have hheld : s.held (job.client, job.connection) = session.subscriptions := by
    rw [hconnection]
    exact h.held job.client session hsession
  unfold PresenceState.handleMessage
  split
  · exact h.setPhase hj (Or.inr hacts) trivial
  · -- `unsync`
    rename_i query _
    have hnext := h.changeSubscriptions hj hacts htime hfree
      (m := (s.managers job.instance_).unsubscribe job.clientId query) (fun c hc => ?_)
      fun _ _ => by rw [hsession]; rfl
    · exact hnext.setPhase hj (Or.inl rfl) trivial
    · unfold SessionManager.unsubscribe
      split
      · rfl
      · exact Function.update_of_ne hc _ _
  · -- `ephemeral`
    refine h.setPhase hj (Or.inr hacts) ⟨hconnection, fun query hquery => ?_⟩
    rw [hheld]
    exact hquery
  · -- `signal`
    rename_i to_ data _
    have hsender := targetsOf_entries session.subscriptions
    simp only
    split
    · exact h.setPhase hj (Or.inl rfl) trivial
    · have hsignal := h.deliverSignal job.instance_ to_ hsender ⟨job.clientId, userId, "", data⟩
      have hjobs := PresenceState.deliverSignal_jobs (s := s) job.instance_ to_
        (session.subscriptions.entries.map fun e => ⟨e.1, e.2.roomKey⟩)
        session.subscriptions ⟨job.clientId, userId, "", data⟩
      split
      · rename_i s₁ heq
        rw [heq] at hsignal hjobs
        exact hsignal.setPhase (hjobs ▸ hj) (Or.inl rfl) trivial
      · rename_i s₁ heq
        rw [heq] at hsignal hjobs
        refine hsignal.setPhase (hjobs ▸ hj) (Or.inr ?_) hsender
        rcases hacts with hunderway | ⟨hdone, hturn⟩
        · exact Or.inl hunderway
        · refine Or.inr ⟨hdone, ?_⟩
          rw [PresenceState.isTurn, hjobs]
          exact hturn

theorem EphemeralInv.subscribe (h : EphemeralInv adapter s) {j : Nat}
    (hj : s.jobs[j]? = some job) {query : String} {params : Record Json}
    {roomKey : Option String} {window : Option Int}
    (hphase : job.phase = .subscribing query params roomKey window) (htime : s.OnTime job) :
    EphemeralInv adapter (s.setManager job.client
      ((s.managers job.instance_).subscribe job.clientId query params roomKey window)) ∧
    ∀ room, roomKey = some room → (s.setManager job.client
      ((s.managers job.instance_).subscribe job.clientId query params roomKey window)).Placed job
        query room := by
  have hacts : s.Acts j job := Or.inl (by rw [hphase]; rfl)
  have hlookup : (s.managers job.instance_).sessions job.clientId = s.session job.client := rfl
  have hm : s.OnlyClient job.client
      ((s.managers job.instance_).subscribe job.clientId query params roomKey window) := by
    intro c hc
    unfold SessionManager.subscribe
    split
    · rfl
    · exact Function.update_of_ne hc _ _
  constructor
  · refine h.changeSubscriptions hj hacts htime (fun s' => ?_) hm fun session hsession => ?_
    · simp [JobSound, hphase]
    · unfold SessionManager.subscribe at hsession
      split at hsession
      · rw [← hlookup, hsession]
        rfl
      · rename_i old hold
        rw [← hlookup, hold]
        rfl
  · rintro room rfl hconnected
    rcases hconnected with ⟨hsome, hconnection⟩
    rw [PresenceState.session_setManager] at hsome
    rcases Option.isSome_iff_exists.1 hsome with ⟨session, hsession⟩
    have hheld := PresenceState.held_setManager_self s job.client hsession
    have hconnection' : job.connection = s.connections job.client := hconnection
    rw [hconnection', hheld]
    -- The session's subscription is the new one.
    unfold SessionManager.subscribe at hsession
    split at hsession
    · rename_i hnone
      rw [hnone] at hsession
      cases hsession
    · rename_i old _
      simp only [Table.put, Function.update_self, Option.some.injEq] at hsession
      subst hsession
      simp [roomOf, SessionManager.newSubscription]

theorem EphemeralInv.sendPresence (h : EphemeralInv adapter s) {query room : String}
    {entry : PresenceEntry} (htime : s.OnTime job) (hplaced : s.Placed job query room)
    (hentry : entry.room = room) : EphemeralInv adapter (s.sendPresence job entry) := by
  unfold PresenceState.sendPresence
  split
  · rename_i session hsession
    split
    · exact h
    · refine h.deliver fun d hd => ?_
      obtain rfl := List.mem_singleton.1 hd
      have hconnection : job.connection = s.connections job.client :=
        htime.resolve_left (by simp [hsession])
      have hroom := hplaced ⟨by rw [hsession]; rfl, hconnection⟩
      rw [hconnection, h.held job.client session hsession] at hroom
      rcases Option.bind_eq_some_iff.1 hroom with ⟨sub, hsub, hroomKey⟩
      exact ⟨query, sub, hsub, hentry ▸ hroomKey⟩
  · exact h

theorem PresenceState.sendPresence_jobs (s : PresenceState) (job : MessageJob)
    (entry : PresenceEntry) :
    (s.sendPresence job entry).jobs = s.jobs := by
  unfold PresenceState.sendPresence
  split
  · split <;> rfl
  · rfl

theorem EphemeralInv.advance (h : EphemeralInv adapter s) {j : Nat} (hj : s.jobs[j]? = some job)
    (hg : HandledInTime adapter s (.advance j)) (hs : s.advance adapter j job = some s') :
    EphemeralInv adapter s' := by
  have hsound := h.jobs job (List.mem_of_getElem? hj)
  have hunderway : job.phase.underway = true → s.Acts j job := Or.inl
  simp only [HandledInTime, hj] at hg
  unfold PresenceState.advance at hs
  unfold JobSound at hsound
  cases hphase : job.phase with
  | queued =>
      simp only [hphase] at hg hs
      rcases Option.ite_none_right_eq_some.1 hs with ⟨hturn, hs⟩
      have hacts : s.Acts j job := Or.inr ⟨by rw [hphase]; rfl, hturn⟩
      split at hs
      · rename_i session auth hauth
        rcases Option.bind_eq_some_iff.1 hauth with ⟨session', hsession, hmap⟩
        rcases Option.map_eq_some_iff.1 hmap with ⟨auth', -, heq⟩
        cases heq
        cases hs
        exact h.handleMessage hj hacts hphase hg hsession _
      · cases hs
        exact h.setPhase hj (Or.inl rfl) trivial
  | subscribing query params roomKey window =>
      simp only [hphase] at hg hs
      rcases h.subscribe hj hphase hg with ⟨hnext, hplaced⟩
      split at hs
      · rename_i room hroom
        cases hs
        rcases Option.filter_eq_some_iff.1 hroom with ⟨hroomKey, -⟩
        exact hnext.setPhase hj (Or.inr (Or.inl (by rw [hphase]; rfl))) (hplaced room hroomKey)
      · cases hs
        exact hnext.setPhase hj (Or.inl rfl) trivial
  | readingRoom query room =>
      simp only [hphase] at hsound hs
      cases hs
      refine h.setPhase hj (Or.inr (hunderway (by rw [hphase]; rfl))) ⟨hsound, ?_, by simp⟩
      exact (h.stores _).roomKeys room
  | readingKeys query room keys read =>
      simp only [hphase] at hsound
      have hacts := hunderway (by rw [hphase]; rfl)
      cases keys with
      | nil =>
          simp only [hphase] at hs
          cases hs
          exact h.setPhase hj (Or.inr hacts) ⟨hsound.1, hsound.2.2⟩
      | cons key keys =>
          simp only [hphase] at hs
          cases hs
          rcases hsound with ⟨hplaced, hkeys, hread⟩
          refine h.setPhase hj (Or.inr hacts)
            ⟨hplaced, fun k hk => hkeys k (List.mem_cons_of_mem _ hk), fun entry hentry => ?_⟩
          rcases List.mem_append.1 hentry with hold | hnew
          · exact hread entry hold
          · exact (h.stores _).room_of_mem_readChannel (hkeys key (List.mem_cons_self ..)) hnew
  | sending query room entries =>
      simp only [hphase] at hg hsound
      have hacts := hunderway (by rw [hphase]; rfl)
      cases entries with
      | nil =>
          simp only [hphase] at hs
          cases hs
          exact h.setPhase hj (Or.inl rfl) trivial
      | cons entry entries =>
          simp only [hphase] at hs
          cases hs
          rcases hsound with ⟨hplaced, hentries⟩
          have hnext := h.sendPresence hg hplaced (hentries entry (List.mem_cons_self ..))
          have hjobs := PresenceState.sendPresence_jobs s job entry
          refine hnext.setPhase (hjobs ▸ hj) (Or.inr (Or.inl (by rw [hphase]; rfl))) ?_
          have hrest : JobSound adapter s { job with phase := .sending query room entries } :=
            ⟨hplaced, fun e he => hentries e (List.mem_cons_of_mem _ he)⟩
          -- Sending changes no session.
          unfold PresenceState.sendPresence
          split
          · split <;> exact hrest
          · exact hrest
  | setting connection state rooms queryNames =>
      simp only [hphase] at hsound
      rcases hsound with ⟨rfl, hheld⟩
      have hacts := hunderway (by rw [hphase]; rfl)
      cases rooms with
      | nil =>
          simp only [hphase] at hg hs
          cases hs
          have hsender := PresenceState.targetsOf_sound hheld
          have hnext := h.fanOut job.instance_ hsender hg state
          refine hnext.setPhase hj (Or.inr hacts) ?_
          cases adapter.shared with
          | false => trivial
          | true => exact hsender
      | cons room rooms =>
          simp only [hphase] at hg hs
          cases hs
          have hnext := h.setStore job.instance_ ((h.stores _).set hg)
            fun p hp => List.mem_cons_of_mem _ hp
          exact hnext.setPhase hj (Or.inr hacts) ⟨rfl, hheld⟩
  | publishing event =>
      simp only [hphase] at hsound hs
      cases hs
      have hnext : EphemeralInv adapter { s with bus := s.bus ++ [event] } := by
        refine ⟨h.held, h.received, h.queue, h.turn, h.jobs, h.stores, fun e he => ?_,
          h.deliveries⟩
        rcases List.mem_append.1 he with hold | hnew
        · exact h.bus e hold
        · obtain rfl := List.mem_singleton.1 hnew
          exact hsound
      exact hnext.setPhase hj (Or.inl rfl) trivial
  | done =>
      simp only [hphase] at hs
      cases hs

theorem EphemeralInv.step (h : EphemeralInv adapter s) {e : PresenceEvent}
    (hg : HandledInTime adapter s e) (hs : (presenceMachine adapter).step s e = some s') :
    EphemeralInv adapter s' := by
  cases e with
  | connect i c now =>
      cases hs
      exact h.connect (i, c) now
  | disconnect i c =>
      cases hs
      exact h.disconnect (i, c)
  | setAuth i c auth =>
      cases hs
      exact h.setAuth (i, c) auth
  | receive i c message =>
      cases hs
      exact h.receive i c message
  | advance j =>
      rcases Option.bind_eq_some_iff.1 hs with ⟨job, hj, hadvance⟩
      exact h.advance hj hg hadvance
  | giveUp j =>
      rcases Option.map_eq_some_iff.1 hs with ⟨job, hj, rfl⟩
      exact h.setPhase hj (Or.inl rfl) trivial
  | deliverRemote i b =>
      rcases Option.map_eq_some_iff.1 hs with ⟨event, hevent, rfl⟩
      have hsender := h.bus event (List.mem_of_getElem? hevent)
      simp only [HandledInTime, hevent] at hg
      unfold PresenceState.deliverRemote
      split
      · exact h
      · split
        · split
          · exact h
          · exact h.deliverSignal i _ hsender event.state
        · rename_i hto
          exact h.fanOut i hsender (hg hto) event.state
  | removeEntry i room key clientId =>
      cases hs
      exact h.setStore i ((h.stores _).removeEntry room key clientId) fun _ hp => hp
  | expireHash i room key =>
      cases hs
      exact h.setStore i ((h.stores _).expireHash room key) fun _ hp => hp
  | expireRoomKeys i room =>
      cases hs
      exact h.setStore i ((h.stores _).expireRoomKeys room) fun _ hp => hp

theorem EphemeralInv.start : EphemeralInv adapter (presenceMachine adapter).init := by
  refine ⟨?_, ?_, ?_, ?_, ?_, fun _ => ⟨?_, ?_, ?_⟩, ?_, ?_⟩
  all_goals simp [presenceMachine, PresenceState.start, PresenceState.session,
    SessionManager.empty, EphemeralStore.empty, Isolated]

/-- Where every message is handled in time, presence stays within rooms, however many instances
there are and however their handlers interleave. -/
theorem isolated_of_handledInTime
    (h : (presenceMachine adapter).Reach (HandledInTime adapter) s) : Isolated s := by
  have hinv : EphemeralInv adapter s := h.invariant .start fun hinv hg hs => hinv.step hg hs
  exact hinv.deliveries

end Steps

/-! ## Runs -/

/-- A client connects, authenticates and declares a query in a room. -/
def joinEvents (i : Nat) (clientId : String) (room : Option String) : List PresenceEvent :=
  [.connect i clientId 0, .setAuth i clientId ⟨clientId, ∅⟩,
    .receive i clientId (.syncDeclare "todos" ∅ room none)]

def advances (job n : Nat) : List PresenceEvent :=
  List.replicate n (.advance job)

/-- A client that joins a room gets the entry of another one, and its signal reaches that client on
another instance. -/
theorem isolated_acrossInstances : ∃ s : PresenceState,
    s.deliveries.map (·.clientId) = ["b", "a"] ∧ Isolated s := by
  have hrun : ((presenceMachine .redis).runWith (fun s e => decide (HandledInTime .redis s e))
      (presenceMachine .redis).init
      (joinEvents 0 "a" (some "r") ++ advances 0 5 ++
        [.receive 0 "a" (.ephemeral "cursor" ∅)] ++ advances 1 4 ++
        joinEvents 1 "b" (some "r") ++ advances 2 7 ++
        [.receive 1 "b" (.signal "a" ∅)] ++ advances 3 2 ++ [.deliverRemote 0 1])).map
          (fun s => s.deliveries.map (·.clientId)) = some ["b", "a"] := by decide +kernel
  rcases Option.map_eq_some_iff.1 hrun with ⟨s, hs, hclients⟩
  have hreach := Machine.Reach.of_runWith (fun _ _ h => of_decide_eq_true h) .init hs
  exact ⟨s, hclients, isolated_of_handledInTime hreach⟩

def Delivery.isPresence (d : Delivery) : Bool :=
  match d.content with
  | .presence _ => true
  | _ => false

/-- The client has no subscription, or none in the room of the entry. -/
def Delivery.leaks (d : Delivery) : Bool :=
  match d.content with
  | .presence entry => d.subscriptions.entries.all fun e => e.2.roomKey ≠ some entry.room
  | _ => d.subscriptions.entries.isEmpty

theorem not_allowed_of_leaks {d : Delivery} (h : d.leaks = true) : ¬ d.Allowed := by
  intro hallowed
  have hentry : ∀ {query sub}, d.subscriptions.lookup query = some sub →
      ⟨query, sub⟩ ∈ d.subscriptions.entries := fun hlookup => AList.mem_lookup_iff.1 hlookup
  unfold Delivery.leaks at h
  unfold Delivery.Allowed at hallowed
  cases hcontent : d.content with
  | presence entry =>
      simp only [hcontent] at h hallowed
      rcases hallowed with ⟨query, sub, hlookup, hroom⟩
      exact of_decide_eq_true (List.all_eq_true.1 h _ (hentry hlookup)) hroom
  | ephemeral sender state =>
      simp only [hcontent] at h hallowed
      rcases hallowed with ⟨query, -, sub, -, hlookup, -⟩
      exact List.ne_nil_of_mem (hentry hlookup) (List.isEmpty_iff.1 h)
  | signal sender to_ state =>
      simp only [hcontent] at h hallowed
      rcases hallowed with ⟨-, query, -, sub, -, hlookup, -⟩
      exact List.ne_nil_of_mem (hentry hlookup) (List.isEmpty_iff.1 h)

/-- A client that has connected again and subscribed to nothing gets an event by the old index, and
the rest of a snapshot that its last connection asked for.  With Redis a client gets an entry of the
room `r` with those of its room `r:a`. -/
theorem isolated_fails :
    (∃ s, (presenceMachine .memory).Reachable s ∧
      ∃ d ∈ s.deliveries, d.isPresence = false ∧ ¬ d.Allowed) ∧
    (∃ s, (presenceMachine .memory).Reachable s ∧
      ∃ d ∈ s.deliveries, d.isPresence = true ∧ ¬ d.Allowed) ∧
    ∃ s, (presenceMachine .redis).Reachable s ∧
      ∃ d ∈ s.deliveries, d.subscriptions.entries.isEmpty = false ∧ ¬ d.Allowed := by
  have hleaks : ∀ {adapter : EphemeralAdapter} (es : List PresenceEvent) {check : Delivery → Bool},
      ((presenceMachine adapter).run es).map
        (fun s => s.deliveries.any fun d => check d && d.leaks) = some true →
      ∃ s, (presenceMachine adapter).Reachable s ∧
        ∃ d ∈ s.deliveries, check d = true ∧ ¬ d.Allowed := by
    intro adapter es check hrun
    rcases Option.map_eq_some_iff.1 hrun with ⟨s, hs, hany⟩
    rcases List.any_eq_true.1 hany with ⟨d, hd, hboth⟩
    rcases Bool.and_eq_true_iff.1 hboth with ⟨hcheck, hleak⟩
    exact ⟨s, .of_run hs, d, hd, hcheck, not_allowed_of_leaks hleak⟩
  refine ⟨?_, ?_, ?_⟩
  · simp only [← Bool.not_eq_true']
    apply hleaks (joinEvents 0 "a" none ++ advances 0 2 ++ [.connect 0 "a" 1] ++
      joinEvents 0 "b" none ++ advances 1 2 ++ [.receive 0 "b" (.ephemeral "cursor" ∅)] ++
      advances 2 2)
    decide +kernel
  · apply hleaks (joinEvents 0 "a" (some "r") ++ advances 0 5 ++
      [.receive 0 "a" (.ephemeral "cursor" ∅)] ++ advances 1 3 ++
      joinEvents 0 "b" (some "r") ++ advances 2 5 ++
      [.disconnect 0 "b", .connect 0 "b" 1, .advance 2])
    decide +kernel
  · simp only [← Bool.not_eq_true']
    apply hleaks (joinEvents 0 "a" (some "r") ++ advances 0 5 ++
      [.receive 0 "a" (.ephemeral "a:cursor" ∅)] ++ advances 1 4 ++
      joinEvents 0 "b" (some "r:a") ++ advances 2 5 ++
      [.receive 0 "b" (.ephemeral "cursor" ∅)] ++ advances 3 4 ++
      joinEvents 0 "c" (some "r:a") ++ advances 4 8)
    decide +kernel

end Server
end Reflectdb
