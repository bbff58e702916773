import Reflectdb.Presence.Client

/-!
# Client runs — what the service holds of a channel once its requests are answered

Three invariants carry the result: one publish in flight a channel, posted requests since the last
call that carry it, and a store that holds what the newest of the arrivals left there.
-/

namespace Reflectdb
namespace Presence

open Lib

variable {δ : Type} {config : PresenceClientConfig δ} {project : Project} {s s' : Link δ}

/-- The client after an answer sends what is queued, its channel being free. -/
theorem PresenceClient.answered_cases (config : PresenceClientConfig δ) (m : PresenceClient δ)
    (channel : Name) (status : Option Nat) :
    ∃ m' : PresenceClient δ, m'.published = m.published ∧
      m'.inFlight = Function.update m.inFlight channel false ∧
      m'.queued = Function.update m.queued channel none ∧
      (m'.closed = true ↔ m.closed = true ∨ status = some 401 ∨ status = some 403) ∧
      (m.queued channel = none ∧ m.answered config channel status = (m', none) ∨
        ∃ next, m.queued channel = some next ∧
          m.answered config channel status = m'.send config channel next) := by
  let free : PresenceClient δ :=
    { m with inFlight := Function.update m.inFlight channel false }
  let told : PresenceClient δ :=
    if status = some 401 ∨ status = some 403 then { free with closed := true } else free
  have htold : told.published = m.published ∧ told.inFlight = free.inFlight ∧
      told.queued = m.queued ∧
      (told.closed = true ↔ m.closed = true ∨ status = some 401 ∨ status = some 403) := by
    by_cases hdenied : status = some 401 ∨ status = some 403 <;> simp [told, free, hdenied]
  obtain ⟨hpublished, hflag, hqueued, hclosed⟩ := htold
  refine ⟨{ told with queued := Function.update told.queued channel none }, hpublished, hflag,
    by rw [hqueued], hclosed, ?_⟩
  cases hnext : m.queued channel with
  | none =>
      have hempty : told.queued channel = none := by rw [hqueued, hnext]
      have hsame := Function.update_eq_self channel told.queued
      rw [hempty] at hsame
      refine .inl ⟨rfl, ?_⟩
      rw [hsame]
      unfold PresenceClient.answered
      extract_lets
      split
      · rfl
      · rename_i next hmore
        cases hempty.symm.trans hmore
  | some next =>
      have hmore : told.queued channel = some next := by rw [hqueued, hnext]
      refine .inr ⟨next, rfl, ?_⟩
      unfold PresenceClient.answered
      extract_lets
      split
      · rename_i hempty
        cases hmore.symm.trans hempty
      · rename_i next' hnext'
        cases hmore.symm.trans hnext'
        rfl

/-! ## Requests -/

def Progress.isSettled : Progress → Bool
  | .settled _ => true
  | .sent | .served _ => false

/-- A publish of the channel that the client has no answer for. -/
def Posted.inFlight (p : Posted δ) (channel : Name) : Bool :=
  p.request.isPublish && p.request.channel = channel && !p.progress.isSettled

namespace Link

def requestAt (s : Link δ) (i : Nat) : Option (ChannelRequest δ) :=
  s.posted[i]?.map (·.request)

def InFlight (s : Link δ) (channel : Name) (i : Nat) : Prop :=
  ∃ p, s.posted[i]? = some p ∧ p.inFlight channel = true

variable {next : PresenceClient δ × Option (ChannelRequest δ)} {i k : Nat} {progress : Progress}
  {channel : Name}

theorem getElem?_after {p : Posted δ} :
    (s.after next).posted[i]? = some p ↔
      s.posted[i]? = some p ∨
        i = s.posted.length ∧ next.2.map (fun request => ⟨request, .sent⟩) = some p := by
  rw [after]
  cases next.2 with
  | none => simp
  | some request =>
      rcases Nat.lt_trichotomy i s.posted.length with hlt | rfl | hgt
      · simp [List.getElem?_append_left hlt, hlt.ne]
      · simp
      · have hold : s.posted[i]? = none := List.getElem?_eq_none hgt.le
        have hnew : (s.posted ++ [(⟨request, .sent⟩ : Posted δ)])[i]? = none :=
          List.getElem?_eq_none (by simpa using Nat.succ_le_of_lt hgt)
        simp [hold, hnew, hgt.ne']

theorem getElem?_setProgress :
    (s.setProgress k progress).posted[i]? =
      s.posted[i]?.map fun p => if k = i then { p with progress := progress } else p := by
  rw [setProgress, List.getElem?_modify]
  rfl

theorem requestAt_after {request : ChannelRequest δ} :
    (s.after next).requestAt i = some request ↔
      s.requestAt i = some request ∨ i = s.posted.length ∧ next.2 = some request := by
  simp only [requestAt, Option.map_eq_some_iff, getElem?_after]
  constructor
  · rintro ⟨p, hp | ⟨hi, request', hnext, rfl⟩, rfl⟩
    · exact .inl ⟨p, hp, rfl⟩
    · exact .inr ⟨hi, hnext⟩
  · rintro (⟨p, hp, rfl⟩ | ⟨hi, hnext⟩)
    · exact ⟨p, .inl hp, rfl⟩
    · exact ⟨_, .inr ⟨hi, request, hnext, rfl⟩, rfl⟩

theorem requestAt_setProgress : (s.setProgress k progress).requestAt i = s.requestAt i := by
  rw [requestAt, requestAt, getElem?_setProgress, Option.map_map]
  congr 1
  funext p
  rw [Function.comp_apply]
  split <;> rfl

theorem inFlight_after :
    (s.after next).InFlight channel i ↔
      s.InFlight channel i ∨ i = s.posted.length ∧ ∃ request, next.2 = some request ∧
        request.isPublish = true ∧ request.channel = channel := by
  simp only [InFlight, getElem?_after, Option.map_eq_some_iff]
  constructor
  · rintro ⟨p, hp | ⟨hi, request, hnext, rfl⟩, hflight⟩
    · exact .inl ⟨p, hp, hflight⟩
    · exact .inr ⟨hi, request, hnext, by simpa [Posted.inFlight, Progress.isSettled] using hflight⟩
  · rintro (⟨p, hp, hflight⟩ | ⟨hi, request, hnext, hpublish⟩)
    · exact ⟨p, .inl hp, hflight⟩
    · exact ⟨_, .inr ⟨hi, request, hnext, rfl⟩,
        by simpa [Posted.inFlight, Progress.isSettled] using hpublish⟩

/-- Progress short of an answer at the client. -/
theorem inFlight_setProgress {p : Posted δ} (hp : s.posted[k]? = some p)
    (hopen : p.progress.isSettled = false) (hnew : progress.isSettled = false) :
    (s.setProgress k progress).InFlight channel i ↔ s.InFlight channel i := by
  simp only [InFlight, getElem?_setProgress]
  by_cases hki : k = i
  · subst hki
    simp [hp, Posted.inFlight, hopen, hnew]
  · simp [hki]

theorem inFlight_settled {status : Option Nat} :
    (s.setProgress k (.settled status)).InFlight channel i ↔ s.InFlight channel i ∧ i ≠ k := by
  simp only [InFlight, getElem?_setProgress]
  by_cases hki : k = i
  · subst hki
    simp [Posted.inFlight, Progress.isSettled]
  · simp [hki, Ne.symm hki]

end Link

/-! ## One publish in flight -/

structure FlightInv (s : Link δ) : Prop where
  unique : ∀ {channel i j}, s.InFlight channel i → s.InFlight channel j → i = j
  flag : ∀ channel, s.client.inFlight channel = true ↔ ∃ i, s.InFlight channel i
  queued : ∀ {channel entry}, s.client.queued channel = some entry →
    s.client.inFlight channel = true

namespace FlightInv

theorem congr (h : FlightInv s) (hat : ∀ channel i, s'.InFlight channel i ↔ s.InFlight channel i)
    (hflag : s'.client.inFlight = s.client.inFlight)
    (hqueued : ∀ channel entry, s'.client.queued channel = some entry →
      s.client.queued channel = some entry) : FlightInv s' where
  unique hi hj := h.unique ((hat _ _).1 hi) ((hat _ _).1 hj)
  flag channel := by
    rw [hflag, h.flag]
    exact exists_congr fun i => (hat channel i).symm
  queued hentry := by
    rw [hflag]
    exact h.queued (hqueued _ _ hentry)

theorem send (h : FlightInv s) (config : PresenceClientConfig δ) (channel : Name)
    (entry : Entry δ) : FlightInv (s.after (s.client.send config channel entry)) := by
  rw [PresenceClient.send]
  split
  · exact h.congr (fun c i => by simp [Link.inFlight_after]) rfl fun c e hq => hq
  split
  · rename_i hflag
    refine ⟨fun hi hj => ?_, fun c => ?_, fun {c e} hq => ?_⟩
    · simp only [Link.inFlight_after, reduceCtorEq, false_and, exists_false, and_false,
        or_false] at hi hj
      exact h.unique hi hj
    · refine (h.flag c).trans (exists_congr fun i => ?_)
      rw [Link.inFlight_after]
      simp
    · by_cases hc : c = channel
      · subst hc
        exact hflag
      · simp only [Link.after, Function.update_of_ne hc] at hq
        exact h.queued hq
  · rename_i hflag
    have hnone : ∀ i, ¬ s.InFlight channel i := fun i hi => hflag ((h.flag channel).2 ⟨i, hi⟩)
    refine ⟨fun {c i j} hi hj => ?_, fun c => ?_, fun {c e} hq => ?_⟩
    · simp only [Link.inFlight_after, Option.some.injEq, exists_eq_left',
        ChannelRequest.isPublish, ChannelRequest.channel, true_and] at hi hj
      rcases hi with hi | ⟨rfl, rfl⟩
      · rcases hj with hj | ⟨rfl, rfl⟩
        · exact h.unique hi hj
        · exact absurd hi (hnone i)
      · rcases hj with hj | ⟨rfl, -⟩
        · exact absurd hj (hnone j)
        · rfl
    · simp only [Link.inFlight_after, Option.some.injEq, exists_eq_left',
        ChannelRequest.isPublish, ChannelRequest.channel, true_and]
      by_cases hc : channel = c
      · subst hc
        simp only [Link.after, Function.update_self, true_iff]
        exact ⟨s.posted.length, .inr ⟨rfl, trivial⟩⟩
      · simp only [Link.after, Function.update_of_ne (Ne.symm hc), hc, and_false, or_false]
        exact h.flag c
    · by_cases hc : c = channel
      · subst hc
        simp [Link.after]
      · simp only [Link.after, Function.update_of_ne hc] at hq ⊢
        exact h.queued hq

theorem publish (h : FlightInv s) (config : PresenceClientConfig δ) (channel : Name)
    (entry : Entry δ) :
    FlightInv ((s.called channel (some entry)).after
      (s.client.publish config channel entry)) := by
  let called : Link δ :=
    { s.called channel (some entry) with
      client := { s.client with
        published := Function.update s.client.published channel (some entry) } }
  have hcalled : FlightInv called := h.congr (fun _ _ => Iff.rfl) rfl fun _ _ hq => hq
  exact hcalled.send config channel entry

theorem clear (h : FlightInv s) (channel : Name) :
    FlightInv ((s.called channel none).after (s.client.clear channel)) := by
  have hqueued : ∀ {m : PresenceClient δ}, m.queued = Function.update s.client.queued channel none →
      ∀ c e, m.queued c = some e → s.client.queued c = some e := by
    intro m hm c e hq
    rw [hm] at hq
    by_cases hc : c = channel
    · subst hc
      simp at hq
    · rwa [Function.update_of_ne hc] at hq
  rw [PresenceClient.clear]
  split
  · exact h.congr (fun c i => by rw [Link.inFlight_after]; simp; rfl) rfl (hqueued rfl)
  · exact h.congr (fun c i => by
      rw [Link.inFlight_after]; simp [ChannelRequest.isPublish]; rfl) rfl (hqueued rfl)

theorem replay (h : FlightInv s) (config : PresenceClientConfig δ) (channel : Name) :
    FlightInv (s.after (s.client.replay config channel)) := by
  rw [PresenceClient.replay]
  split
  · exact h.congr (fun c i => by rw [Link.inFlight_after]; simp) rfl fun _ _ hq => hq
  · exact h.send config channel _

/-- An answered publish leaves its channel free. -/
theorem settled (h : FlightInv s) {k : Nat} {p : Posted δ} (status : Option Nat) {channel : Name}
    (hp : s.posted[k]? = some p) (hpublish : p.inFlight channel = true) {m : PresenceClient δ}
    (hflag : m.inFlight = Function.update s.client.inFlight channel false)
    (hqueued : m.queued = Function.update s.client.queued channel none) :
    FlightInv { s.setProgress k (.settled status) with client := m } := by
  have hk : s.InFlight channel k := ⟨p, hp, hpublish⟩
  have hat : ∀ c i, ({ s.setProgress k (.settled status) with client := m } : Link δ).InFlight c i ↔
      s.InFlight c i ∧ i ≠ k := fun c i => Link.inFlight_settled
  refine ⟨fun hi hj => h.unique ((hat _ _).1 hi).1 ((hat _ _).1 hj).1, fun c => ?_,
    fun {c e} hq => ?_⟩
  · simp only [hat, hflag]
    by_cases hc : c = channel
    · subst hc
      simp only [Function.update_self, Bool.false_eq_true, false_iff]
      rintro ⟨i, hi, hne⟩
      exact hne (h.unique hi hk)
    · rw [Function.update_of_ne hc, h.flag c]
      refine exists_congr fun i => ⟨fun hi => ⟨hi, ?_⟩, fun hi => hi.1⟩
      -- the answered request is of another channel
      rintro rfl
      obtain ⟨q, hq, hflight⟩ := hi
      rw [hp] at hq
      cases hq
      simp only [Posted.inFlight, Bool.and_eq_true, decide_eq_true_eq] at hpublish hflight
      exact hc (hflight.1.2.symm.trans hpublish.1.2)
  · simp only [hflag, hqueued] at hq ⊢
    by_cases hc : c = channel
    · subst hc
      simp at hq
    · rw [Function.update_of_ne hc] at hq ⊢
      exact h.queued hq

theorem answered (h : FlightInv s) (config : PresenceClientConfig δ) {k : Nat} {p : Posted δ}
    (status : Option Nat) {channel : Name} (hp : s.posted[k]? = some p)
    (hpublish : p.inFlight channel = true) :
    FlightInv ((s.setProgress k (.settled status)).after
      (s.client.answered config channel status)) := by
  obtain ⟨m, -, hflag, hqueued, -, hm⟩ := s.client.answered_cases config channel status
  have hsettled := h.settled status hp hpublish hflag hqueued
  rcases hm with ⟨-, hm⟩ | ⟨next, -, hm⟩
  · rw [hm]
    exact hsettled.congr (fun c i => by rw [Link.inFlight_after]; simp; rfl) rfl
      fun _ _ hq => hq
  · rw [hm]
    exact hsettled.send config channel next

end FlightInv

/-! ## Requests since the last call -/

/-- The request that carries a call. -/
def carrier (config : PresenceClientConfig δ) (channel : Name) :
    Option (Entry δ) → ChannelRequest δ
  | none => .leave channel
  | some entry => .publish channel entry.data (entry.ttlMs <|> config.ttlMs)

/-- What has been posted since a call carries it. -/
structure Posts (config : PresenceClientConfig δ) (s : Link δ) (channel : Name)
    (last : LastCall δ) : Prop where
  since_le : last.since ≤ s.posted.length
  published : s.client.published channel = last.entry
  only : ∀ {i request}, last.since ≤ i → s.requestAt i = some request →
    request.channel = channel → request = carrier config channel last.entry

/-- And there is such a request, or one is queued. -/
structure Carries (config : PresenceClientConfig δ) (s : Link δ) (channel : Name)
    (last : LastCall δ) : Prop extends Posts config s channel last where
  queued : ∀ {entry}, s.client.queued channel = some entry → last.entry = some entry
  issued : (∃ i request, last.since ≤ i ∧ s.requestAt i = some request ∧
    request.channel = channel) ∨ ∃ entry, s.client.queued channel = some entry

section Posts

variable {channel : Name} {last : LastCall δ} {entry : Entry δ}
  {next : PresenceClient δ × Option (ChannelRequest δ)}

theorem Posts.after (h : Posts config s channel last)
    (hpublished : next.1.published channel = last.entry)
    (hnext : ∀ request, next.2 = some request → request.channel = channel →
      request = carrier config channel last.entry) : Posts config (s.after next) channel last := by
  refine ⟨?_, hpublished, fun {i request} hi hrequest hchannel => ?_⟩
  · rw [Link.after, List.length_append]
    exact Nat.le_add_right_of_le h.since_le
  · rcases Link.requestAt_after.1 hrequest with hold | ⟨-, hnew⟩
    · exact h.only hi hold hchannel
    · exact hnext request hnew hchannel

/-- A request posted after a call is one since the call. -/
theorem issued_after (hle : last.since ≤ s.posted.length) {request : ChannelRequest δ}
    (hnext : next.2 = some request) (hchannel : request.channel = channel) :
    ∃ i request, last.since ≤ i ∧ (s.after next).requestAt i = some request ∧
      request.channel = channel :=
  ⟨s.posted.length, request, hle, Link.requestAt_after.2 (.inr ⟨rfl, hnext⟩), hchannel⟩

theorem Posts.send (h : Posts config s channel last) (hentry : last.entry = some entry)
    (hopen : s.client.closed = false)
    (hfree : s.client.inFlight channel = false → s.client.queued channel = none) :
    Carries config (s.after (s.client.send config channel entry)) channel last := by
  rw [PresenceClient.send, if_neg (by rw [hopen]; exact Bool.false_ne_true)]
  split
  · refine ⟨h.after h.published fun _ hnone => ?_, ?_, .inr ⟨entry, ?_⟩⟩
    · cases hnone
    · intro e he
      simp only [Link.after, Function.update_self] at he
      rwa [← he]
    · simp [Link.after]
  · rename_i hflag
    refine ⟨h.after h.published ?_, ?_, .inl (issued_after h.since_le rfl rfl)⟩
    · intro request hrequest _
      cases hrequest
      rw [hentry, carrier]
    · intro e he
      rw [Link.after, hfree (Bool.eq_false_iff.2 hflag)] at he
      cases he

/-- What a step does for another channel. -/
theorem Carries.after (h : Carries config s channel last)
    (hpublished : next.1.published channel = s.client.published channel)
    (hqueued : next.1.queued channel = s.client.queued channel)
    (hnext : ∀ request, next.2 = some request → request.channel ≠ channel) :
    Carries config (s.after next) channel last := by
  refine ⟨h.toPosts.after (hpublished.trans h.published) ?_, ?_, ?_⟩
  · exact fun request hrequest hchannel => absurd hchannel (hnext request hrequest)
  · intro e he
    exact h.queued (hqueued ▸ he)
  · rcases h.issued with ⟨i, request, hi, hrequest, hchannel⟩ | ⟨e, he⟩
    · exact .inl ⟨i, request, hi, Link.requestAt_after.2 (.inl hrequest), hchannel⟩
    · exact .inr ⟨e, hqueued.trans he⟩

/-- Requests that only made progress. -/
theorem Carries.congr (h : Carries config s channel last)
    (hlength : s'.posted.length = s.posted.length) (hat : ∀ i, s'.requestAt i = s.requestAt i)
    (hpublished : s'.client.published channel = s.client.published channel)
    (hqueued : s'.client.queued channel = s.client.queued channel) :
    Carries config s' channel last := by
  refine ⟨⟨?_, hpublished.trans h.published, ?_⟩, ?_, ?_⟩
  · rw [hlength]
    exact h.since_le
  · intro i request hi hrequest hchannel
    exact h.only hi (hat i ▸ hrequest) hchannel
  · intro e he
    exact h.queued (hqueued ▸ he)
  · simp only [hat, hqueued]
    exact h.issued

end Posts

namespace PresenceClient

variable {m : PresenceClient δ} {channel c : Name} {entry : Entry δ}

/-- A send leaves the other channels. -/
theorem send_of_ne (config : PresenceClientConfig δ) (m : PresenceClient δ) (entry : Entry δ)
    (h : c ≠ channel) :
    (m.send config channel entry).1.published c = m.published c ∧
      (m.send config channel entry).1.queued c = m.queued c := by
  rw [send]
  split
  · exact ⟨rfl, rfl⟩
  split
  · exact ⟨rfl, Function.update_of_ne h _ _⟩
  · exact ⟨rfl, rfl⟩

theorem channel_of_send {request : ChannelRequest δ}
    (h : (m.send config channel entry).2 = some request) : request.channel = channel := by
  rw [send] at h
  split at h
  · cases h
  split at h
  · cases h
  · cases h
    rfl

theorem closed_send : (m.send config channel entry).1.closed = m.closed := by
  rw [send]
  split
  · rfl
  split <;> rfl

end PresenceClient

/-- As long as the client has not been turned away for its key. -/
def CallInv (config : PresenceClientConfig δ) (s : Link δ) : Prop :=
  s.client.closed = false → ∀ channel last, s.lastCall channel = some last →
    Carries config s channel last

theorem FlightInv.queued_eq_none (h : FlightInv s) {channel : Name}
    (hflag : s.client.inFlight channel = false) : s.client.queued channel = none := by
  cases hq : s.client.queued channel with
  | none => rfl
  | some entry =>
      rw [h.queued hq] at hflag
      cases hflag

namespace CallInv

variable {channel : Name} {entry : Entry δ}

/-- A send for a channel whose requests may still wait for it. -/
theorem send (hflight : FlightInv s) (h : s.client.closed = false → ∀ c last,
      s.lastCall c = some last → if c = channel then
        Posts config s c last ∧ last.entry = some entry else Carries config s c last) :
    CallInv config (s.after (s.client.send config channel entry)) := by
  intro hafter c last hlast
  have hopen : s.client.closed = false := PresenceClient.closed_send.symm.trans hafter
  have hc := h hopen c last hlast
  by_cases heq : c = channel
  · subst heq
    rw [if_pos rfl] at hc
    exact hc.1.send hc.2 hopen hflight.queued_eq_none
  · rw [if_neg heq] at hc
    obtain ⟨hpublished, hqueued⟩ := PresenceClient.send_of_ne config s.client entry heq
    refine hc.after hpublished hqueued fun request hrequest hchannel => ?_
    exact heq (hchannel.symm.trans (PresenceClient.channel_of_send hrequest))

theorem publish (h : CallInv config s) (hflight : FlightInv s) :
    CallInv config ((s.called channel (some entry)).after
      (s.client.publish config channel entry)) := by
  let called : Link δ :=
    { s.called channel (some entry) with
      client := { s.client with
        published := Function.update s.client.published channel (some entry) } }
  have hcalled : FlightInv called := hflight.congr (fun _ _ => Iff.rfl) rfl fun _ _ hq => hq
  refine CallInv.send (s := called) hcalled fun hopen c last hlast => ?_
  by_cases hc : c = channel
  · subst hc
    rw [if_pos rfl]
    obtain rfl : ⟨some entry, s.posted.length⟩ = last := by
      simpa [called, Link.called] using hlast
    refine ⟨⟨Nat.le_refl _, by simp [called], fun {i request} hi hrequest _ => ?_⟩, rfl⟩
    obtain ⟨p, hp, -⟩ := Option.map_eq_some_iff.1 hrequest
    exact absurd (List.getElem?_eq_some_iff.1 hp).1 (Nat.not_lt.2 hi)
  · rw [if_neg hc]
    have hold : s.lastCall c = some last := by
      simpa [called, Link.called, hc] using hlast
    refine (h hopen c last hold).congr rfl (fun _ => rfl) ?_ rfl
    exact Function.update_of_ne hc _ _

theorem replay (h : CallInv config s) (hflight : FlightInv s) :
    CallInv config (s.after (s.client.replay config channel)) := by
  rw [PresenceClient.replay]
  split
  · intro hopen c last hlast
    exact (h hopen c last hlast).after rfl rfl fun _ hnone => by cases hnone
  · rename_i entry hentry
    refine CallInv.send hflight fun hopen c last hlast => ?_
    have hc := h hopen c last hlast
    split
    · rename_i heq
      subst heq
      exact ⟨hc.toPosts, hc.published.symm.trans hentry⟩
    · exact hc

theorem clear (h : CallInv config s) :
    CallInv config ((s.called channel none).after (s.client.clear channel)) := by
  intro hafter c last hlast
  have hopen : s.client.closed = false := by
    rw [PresenceClient.clear] at hafter
    split at hafter <;> exact hafter
  have hclear : s.client.clear channel =
      ({ s.client with
        published := Function.update s.client.published channel none
        queued := Function.update s.client.queued channel none }, some (.leave channel)) := by
    rw [PresenceClient.clear, if_neg (by rw [hopen]; exact Bool.false_ne_true)]
  rw [hclear]
  by_cases hc : c = channel
  · subst hc
    obtain rfl : ⟨none, s.posted.length⟩ = last := by
      simpa [Link.after, Link.called] using hlast
    refine ⟨⟨?_, by simp [Link.after], fun {i request} hi hrequest _ => ?_⟩, fun {e} he => ?_,
      .inl (issued_after (Nat.le_refl _) rfl rfl)⟩
    · simp [Link.after, Link.called]
    · rcases Link.requestAt_after.1 hrequest with hold | ⟨-, hnew⟩
      · obtain ⟨p, hp, -⟩ := Option.map_eq_some_iff.1 hold
        exact absurd (List.getElem?_eq_some_iff.1 hp).1 (Nat.not_lt.2 hi)
      · cases hnew
        rfl
    · simp [Link.after] at he
  · have hold : s.lastCall c = some last := by
      simpa [Link.after, Link.called, hc] using hlast
    have hcalled : Carries config (s.called channel none) c last :=
      (h hopen c last hold).congr rfl (fun _ => rfl) rfl rfl
    refine hcalled.after (Function.update_of_ne hc _ _) (Function.update_of_ne hc _ _) ?_
    rintro request hrequest rfl
    cases hrequest
    exact hc rfl

/-- Steps of the service, and answers that the client does not read. -/
theorem congr (h : CallInv config s) (hclient : s'.client = s.client)
    (hlast : s'.lastCall = s.lastCall) (hlength : s'.posted.length = s.posted.length)
    (hat : ∀ i, s'.requestAt i = s.requestAt i) : CallInv config s' := by
  intro hopen c last hcall
  rw [hclient] at hopen
  rw [hlast] at hcall
  exact (h hopen c last hcall).congr hlength hat (by rw [hclient]) (by rw [hclient])

theorem answered (h : CallInv config s) (hflight : FlightInv s) {k : Nat} {p : Posted δ}
    (status : Option Nat) (hp : s.posted[k]? = some p) (hpublish : p.inFlight channel = true) :
    CallInv config ((s.setProgress k (.settled status)).after
      (s.client.answered config channel status)) := by
  obtain ⟨m, hpublished, hflag, hqueued, hclosed, hm⟩ :=
    s.client.answered_cases config channel status
  have hopen : m.closed = false → s.client.closed = false := fun h =>
    Bool.eq_false_iff.2 fun hold => Bool.eq_false_iff.1 h (hclosed.2 (.inl hold))
  let settled : Link δ := { s.setProgress k (.settled status) with client := m }
  have hlength : settled.posted.length = s.posted.length := by
    simp [settled, Link.setProgress]
  have hat : ∀ i, settled.requestAt i = s.requestAt i := fun _ => Link.requestAt_setProgress
  rcases hm with ⟨hnone, hm⟩ | ⟨next, hnext, hm⟩
  · have hsame : m.queued = s.client.queued := by
      rw [hqueued, ← hnone, Function.update_eq_self]
    rw [hm]
    intro hafter c last hlast
    have hc : Carries config settled c last :=
      (h (hopen hafter) c last hlast).congr hlength hat (by rw [← hpublished]) (by rw [← hsame])
    exact hc.after rfl rfl fun _ hno => by cases hno
  · rw [hm]
    have hsettled : FlightInv settled :=
      hflight.settled status hp hpublish hflag hqueued
    refine CallInv.send (s := settled) hsettled fun hafter c last hlast => ?_
    have hc := h (hopen hafter) c last hlast
    split
    · rename_i heq
      subst heq
      refine ⟨⟨hlength ▸ hc.since_le, ?_, fun {i request} hi hrequest => ?_⟩, hc.queued hnext⟩
      · rw [← hc.published, ← hpublished]
      · exact hc.only hi (hat i ▸ hrequest)
    · rename_i hne
      refine hc.congr hlength hat (by rw [← hpublished]) ?_
      change m.queued c = s.client.queued c
      rw [hqueued, Function.update_of_ne hne]

end CallInv

end Presence
end Reflectdb
