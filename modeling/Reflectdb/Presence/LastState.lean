import Reflectdb.Presence.ClientRuns

/-!
# Last state — the data of a channel's last publish, or no entry after its last clear

The store holds what the newest request that it took left there.  Where no request from before the
channel's last call reaches the service after one that carries the call, that is the call.
-/

namespace Reflectdb
namespace Presence

open Lib

variable {δ : Type} {config : PresenceClientConfig δ} {project : Project} {s s' : Link δ}

/-! ## What the service makes of a request -/

theorem keyOf_inj {c c' : Name} : keyOf config project c = keyOf config project c' ↔ c = c' := by
  simp [keyOf]

theorem removes_keyOf (channel c : Name) :
    removes project.projectId config.room config.clientId (some channel)
      (keyOf config project c) = decide (c = channel) := by
  simp [removes, keyOf]
  rfl

/-- What a request that the store took left for its channel. -/
def Arrival.dataAt (a : Arrival δ) (t : Int) : Option δ :=
  match a.request with
  | .publish _ data _ => if t < a.deadline then some data else none
  | .leave _ => none

section Serve

variable {b : Backend δ} {request : ChannelRequest δ} {t t' : Int} {c : Name}

theorem live_serve (h : (serve config project b request t).1 = 200) (i : Nat) :
    (serve config project b request t).2.live (keyOf config project request.channel) t' =
      Arrival.dataAt ⟨i, request, 200, deadlineOf project b request t⟩ t' := by
  cases request with
  | publish channel data ttlMs => exact Backend.live_write_ok (WriteOutcome.status_eq_ok_iff.1 h)
  | leave channel =>
      rw [serve, Project.leave, Backend.live_remove, ChannelRequest.channel, removes_keyOf]
      simp [Arrival.dataAt]

/-- A request that is refused, or of another channel, leaves the channel's entry. -/
theorem live_serve_of_ne
    (h : (serve config project b request t).1 ≠ 200 ∨ request.channel ≠ c) :
    (serve config project b request t).2.live (keyOf config project c) t' =
      b.live (keyOf config project c) t' := by
  cases request with
  | publish channel data ttlMs =>
      rcases h with hrefused | hne
      · exact Backend.live_write_refused (mt WriteOutcome.status_eq_ok_iff.2 hrefused)
      · exact Backend.live_write_of_ne (mt keyOf_inj.1 hne)
  | leave channel =>
      rcases h with hrefused | hne
      · exact absurd rfl hrefused
      · have hother : c ≠ channel := fun heq => hne heq.symm
        rw [serve, Project.leave, Backend.live_remove, removes_keyOf]
        simp [hother]

end Serve

theorem removes_other {projectId room clientId : Name} {channel : Option Name} {c : Name}
    (h : isOther config project projectId room clientId = true) :
    removes projectId room clientId channel (keyOf config project c) = false := by
  simp only [isOther, Bool.not_eq_true', Bool.and_eq_false_iff, decide_eq_false_iff_not] at h
  simp only [removes, keyOf, Bool.and_eq_false_iff]
  rcases h with (h | h) | h
  · exact .inl (.inl (.inl (decide_eq_false (Ne.symm h))))
  · exact .inl (.inl (.inr (decide_eq_false (Ne.symm h))))
  · exact .inl (.inr (decide_eq_false (Ne.symm h)))

theorem key_ne_of_other {request : WriteRequest δ} {c : Name}
    (h : isOther config project request.projectId request.room request.clientId = true) :
    request.toEntryKey ≠ keyOf config project c := by
  intro heq
  simp [isOther, heq, keyOf] at h

/-! ## The steps -/

namespace Link

variable {k : Nat} {t : Int} {status : Option Nat}

theorem arrive_eq_some (h : s.arrive config project k t = some s') :
    ∃ request, s.posted[k]? = some ⟨request, .sent⟩ ∧
      s' = { s.setProgress k (.served (some (serve config project s.backend request t).1)) with
        backend := (serve config project s.backend request t).2
        now := t
        arrivals := ⟨k, request, (serve config project s.backend request t).1,
          deadlineOf project s.backend request t⟩ :: s.arrivals } := by
  rw [arrive] at h
  split at h
  · rename_i request hp
    exact ⟨request, hp, (Option.some.inj h).symm⟩
  · cases h

theorem fail_eq_some (h : s.fail k status = some s') :
    ∃ p, s.posted[k]? = some p ∧ p.progress.isSettled = false ∧ status ≠ some 200 ∧
      status ≠ some 429 ∧ s' = s.setProgress k (.served status) := by
  rw [fail] at h
  split at h
  · rename_i hp
    split at h
    · cases h
    · rename_i hstatus
      exact ⟨_, hp, rfl, fun heq => hstatus (.inl heq), fun heq => hstatus (.inr heq),
        (Option.some.inj h).symm⟩
  · rename_i hp
    split at h
    · cases h
    · rename_i hstatus
      exact ⟨_, hp, rfl, fun heq => hstatus (.inl heq), fun heq => hstatus (.inr heq),
        (Option.some.inj h).symm⟩
  · cases h

theorem settle_eq_some (h : s.settle config k = some s') :
    ∃ request status, s.posted[k]? = some ⟨request, .served status⟩ ∧
      (request.isPublish = true ∧ s' = (s.setProgress k (.settled status)).after
          (s.client.answered config request.channel status) ∨
        request.isPublish = false ∧ s' = s.setProgress k (.settled status)) := by
  rw [settle] at h
  split at h
  · rename_i request status hp
    refine ⟨request, status, hp, ?_⟩
    cases request with
    | publish channel data ttlMs => exact .inl ⟨rfl, (Option.some.inj h).symm⟩
    | leave channel => exact .inr ⟨rfl, (Option.some.inj h).symm⟩
  · cases h

end Link

theorem Link.length_setProgress {k : Nat} {progress : Progress} :
    (s.setProgress k progress).posted.length = s.posted.length :=
  List.length_modify _ _ _

/-- Progress of a request up to its answer at the client. -/
theorem FlightInv.progress (h : FlightInv s) {k : Nat} {p : Posted δ} {progress : Progress}
    (hp : s.posted[k]? = some p) (hopen : p.progress.isSettled = false)
    (hnew : progress.isSettled = false) : FlightInv (s.setProgress k progress) :=
  h.congr (fun _ _ => Link.inFlight_setProgress hp hopen hnew) rfl fun _ _ hq => hq

theorem FlightInv.settledLeave (h : FlightInv s) {k : Nat} {p : Posted δ} {status : Option Nat}
    (hp : s.posted[k]? = some p) (hleave : p.request.isPublish = false) :
    FlightInv (s.setProgress k (.settled status)) := by
  refine h.congr (fun c i => ?_) rfl fun _ _ hq => hq
  refine Link.inFlight_settled.trans ⟨fun hi => hi.1, fun hi => ⟨hi, ?_⟩⟩
  rintro rfl
  obtain ⟨q, hq, hflight⟩ := hi
  rw [hp] at hq
  cases hq
  simp [Posted.inFlight, hleave] at hflight

theorem posted_inFlight {request : ChannelRequest δ} (status : Option Nat)
    (h : request.isPublish = true) :
    Posted.inFlight ⟨request, .served status⟩ request.channel = true := by
  simp [Posted.inFlight, h, Progress.isSettled]

/-- The client's part: one publish in flight a channel, and requests that carry the last call. -/
structure ClientInv (config : PresenceClientConfig δ) (s : Link δ) : Prop where
  flight : FlightInv s
  call : CallInv config s

theorem ClientInv.congr (h : ClientInv config s) (hclient : s'.client = s.client)
    (hlast : s'.lastCall = s.lastCall) (hposted : s'.posted = s.posted) : ClientInv config s' := by
  refine ⟨h.flight.congr (fun c i => ?_) (by rw [hclient]) fun c e hq => hclient ▸ hq,
    h.call.congr hclient hlast (by rw [hposted]) fun i => ?_⟩
  · rw [Link.InFlight, Link.InFlight, hposted]
  · rw [Link.requestAt, Link.requestAt, hposted]

theorem ClientInv.progress (h : ClientInv config s) {k : Nat} {p : Posted δ} {progress : Progress}
    (hp : s.posted[k]? = some p) (hopen : p.progress.isSettled = false)
    (hnew : progress.isSettled = false) : ClientInv config (s.setProgress k progress) :=
  ⟨h.flight.progress hp hopen hnew,
    h.call.congr rfl rfl Link.length_setProgress fun _ => Link.requestAt_setProgress⟩

theorem ClientInv.step {e : LinkEvent δ} (h : ClientInv config s)
    (hs : s.step config project e = some s') : ClientInv config s' := by
  cases e with
  | publish channel entry =>
      cases hs
      exact ⟨h.flight.publish config channel entry, h.call.publish h.flight⟩
  | clear channel =>
      cases hs
      exact ⟨h.flight.clear channel, h.call.clear⟩
  | replay channel =>
      cases hs
      exact ⟨h.flight.replay config channel, h.call.replay h.flight⟩
  | arrive k t =>
      simp only [Link.step, Option.ite_none_right_eq_some] at hs
      obtain ⟨request, hp, rfl⟩ := Link.arrive_eq_some hs.2
      exact (h.progress hp rfl rfl).congr rfl rfl rfl
  | fail k status =>
      obtain ⟨p, hp, hopen, -, -, rfl⟩ := Link.fail_eq_some hs
      exact h.progress hp hopen rfl
  | settle k =>
      obtain ⟨request, status, hp, ⟨hpublish, rfl⟩ | ⟨hleave, rfl⟩⟩ := Link.settle_eq_some hs
      · have hflight := posted_inFlight status hpublish
        exact ⟨h.flight.answered config status hp hflight,
          h.call.answered h.flight status hp hflight⟩
      · exact ⟨h.flight.settledLeave hp hleave,
          h.call.congr rfl rfl Link.length_setProgress fun _ => Link.requestAt_setProgress⟩
  | otherWrite request t =>
      simp only [Link.step, Option.ite_none_right_eq_some] at hs
      cases hs.2
      exact h.congr rfl rfl rfl
  | otherRemove projectId room clientId channel =>
      simp only [Link.step, Option.ite_none_right_eq_some] at hs
      cases hs.2
      exact h.congr rfl rfl rfl
  | sweep limit picked t =>
      simp only [Link.step, Option.ite_none_right_eq_some] at hs
      obtain ⟨backend, -, rfl⟩ := Option.map_eq_some_iff.1 hs.2
      exact h.congr rfl rfl rfl

/-! ## The arrivals -/

def Progress.status : Progress → Option Nat
  | .sent => none
  | .served status | .settled status => status

/-- The service has turned the client away for its key. -/
def Link.Denied (s : Link δ) : Prop :=
  ∃ i : Nat, ∃ p, s.posted[i]? = some p ∧
    (p.progress = .settled (some 401) ∨ p.progress = .settled (some 403))

structure LogInv (s : Link δ) : Prop where
  logged : ∀ a ∈ s.arrivals, s.requestAt a.index = some a.request
  arrived : ∀ {i p status}, s.posted[i]? = some p → p.progress.status = some status →
    status = 200 ∨ status = 429 → ∃ a ∈ s.arrivals, a.index = i ∧ a.status = status
  leave_ok : ∀ a ∈ s.arrivals, a.request.isPublish = false → a.status = 200
  closed : s.client.closed = true → s.Denied

namespace LogInv

theorem congr (h : LogInv s) (hclient : s'.client = s.client) (hposted : s'.posted = s.posted)
    (harrivals : s'.arrivals = s.arrivals) : LogInv s' := by
  have hat : ∀ i, s'.requestAt i = s.requestAt i := fun i => by
    rw [Link.requestAt, Link.requestAt, hposted]
  refine ⟨?_, ?_, ?_, ?_⟩
  · simpa only [harrivals, hat] using h.logged
  · intro i p status hp
    rw [hposted] at hp
    rw [harrivals]
    exact h.arrived hp
  · rw [harrivals]
    exact h.leave_ok
  · rw [hclient, Link.Denied, hposted]
    exact h.closed

/-- Something of the client's that may post a request. -/
theorem after (h : LogInv s) {next : PresenceClient δ × Option (ChannelRequest δ)}
    (hclosed : next.1.closed = true → s.client.closed = true ∨ s.Denied) :
    LogInv (s.after next) := by
  refine ⟨?_, ?_, h.leave_ok, ?_⟩
  · exact fun a ha => Link.requestAt_after.2 (.inl (h.logged a ha))
  · intro i p status hp hstatus
    rcases Link.getElem?_after.1 hp with hold | ⟨-, hnew⟩
    · exact h.arrived hold hstatus
    · obtain ⟨request, -, rfl⟩ := Option.map_eq_some_iff.1 hnew
      cases hstatus
  · intro hafter
    obtain ⟨i, p, hp, hdenied⟩ := (hclosed hafter).elim h.closed id
    exact ⟨i, p, Link.getElem?_after.2 (.inl hp), hdenied⟩

/-- Progress that adds no answer but the one it logs. -/
theorem progress (h : LogInv s) {k : Nat} {p : Posted δ} {progress : Progress}
    (backend : Backend δ) (now : Int) (new : List (Arrival δ)) (hp : s.posted[k]? = some p)
    (hopen : p.progress.isSettled = false)
    (hnew : ∀ a ∈ new, a.index = k ∧ a.request = p.request ∧
      (a.request.isPublish = false → a.status = 200))
    (hstatus : ∀ status, progress.status = some status → status = 200 ∨ status = 429 →
      p.progress.status = some status ∨ ∃ a ∈ new, a.status = status) :
    LogInv { s.setProgress k progress with
      backend := backend, now := now, arrivals := new ++ s.arrivals } := by
  refine ⟨?_, ?_, ?_, ?_⟩
  · intro a ha
    refine Link.requestAt_setProgress.trans ?_
    rcases List.mem_append.1 ha with ha | ha
    · obtain ⟨rfl, hrequest, -⟩ := hnew a ha
      rw [Link.requestAt, hp, hrequest]
      rfl
    · exact h.logged a ha
  · intro i q status hq hanswer hkind
    obtain ⟨q', hbefore, rfl⟩ :=
      Option.map_eq_some_iff.1 (Link.getElem?_setProgress.symm.trans hq)
    by_cases hki : k = i
    · subst hki
      rw [hp] at hbefore
      cases hbefore
      rw [if_pos rfl] at hanswer
      rcases hstatus status hanswer hkind with hold | ⟨a, ha, hstatus⟩
      · obtain ⟨a, ha, hindex, hstatus⟩ := h.arrived hp hold hkind
        exact ⟨a, List.mem_append_right _ ha, hindex, hstatus⟩
      · exact ⟨a, List.mem_append_left _ ha, (hnew a ha).1, hstatus⟩
    · rw [if_neg hki] at hanswer
      obtain ⟨a, ha, hindex, hstatus⟩ := h.arrived hbefore hanswer hkind
      exact ⟨a, List.mem_append_right _ ha, hindex, hstatus⟩
  · intro a ha
    rcases List.mem_append.1 ha with ha | ha
    · exact (hnew a ha).2.2
    · exact h.leave_ok a ha
  · intro hclosed
    obtain ⟨i, q, hq, hdenied⟩ := h.closed hclosed
    have hki : k ≠ i := by
      rintro rfl
      rw [hp] at hq
      cases hq
      rcases hdenied with hdenied | hdenied <;> rw [hdenied] at hopen <;> cases hopen
    refine ⟨i, q, ?_, hdenied⟩
    refine Link.getElem?_setProgress.trans ?_
    rw [hq, Option.map_some, if_neg hki]

theorem send (h : LogInv s) (config : PresenceClientConfig δ) (channel : Name)
    (entry : Entry δ) : LogInv (s.after (s.client.send config channel entry)) :=
  h.after fun hclosed => .inl (PresenceClient.closed_send.symm.trans hclosed)

theorem answered (h : LogInv s) (config : PresenceClientConfig δ) {k : Nat}
    {request : ChannelRequest δ} {status : Option Nat}
    (hp : s.posted[k]? = some ⟨request, .served status⟩) :
    LogInv ((s.setProgress k (.settled status)).after
      (s.client.answered config request.channel status)) := by
  have hsettled : LogInv (s.setProgress k (.settled status)) :=
    h.progress s.backend s.now [] hp rfl
      (fun a ha => absurd ha List.not_mem_nil) fun _ hstatus _ => .inl hstatus
  refine hsettled.after fun hclosed => ?_
  obtain ⟨m, -, -, -, hdenied, hm⟩ := s.client.answered_cases config request.channel status
  have hm : (s.client.answered config request.channel status).1.closed = m.closed := by
    rcases hm with ⟨-, hm⟩ | ⟨next, -, hm⟩
    · rw [hm]
    · rw [hm, PresenceClient.closed_send]
  rw [hm, hdenied] at hclosed
  rcases hclosed with hold | hstatus
  · exact .inl hold
  · refine .inr ⟨k, ⟨request, .settled status⟩, ?_, by simpa using hstatus⟩
    refine Link.getElem?_setProgress.trans ?_
    rw [hp, Option.map_some, if_pos rfl]

theorem step {e : LinkEvent δ} (h : LogInv s) (hs : s.step config project e = some s') :
    LogInv s' := by
  cases e with
  | publish channel entry =>
      cases hs
      refine (h.congr rfl rfl rfl : LogInv (s.called channel (some entry))).after fun hclosed =>
        .inl ?_
      rw [PresenceClient.publish, PresenceClient.closed_send] at hclosed
      exact hclosed
  | clear channel =>
      cases hs
      refine (h.congr rfl rfl rfl : LogInv (s.called channel none)).after fun hclosed => .inl ?_
      rw [PresenceClient.clear] at hclosed
      split at hclosed <;> exact hclosed
  | replay channel =>
      cases hs
      rw [PresenceClient.replay]
      split
      · exact h.after .inl
      · exact h.send config channel _
  | arrive k t =>
      simp only [Link.step, Option.ite_none_right_eq_some] at hs
      obtain ⟨request, hp, rfl⟩ := Link.arrive_eq_some hs.2
      refine h.progress _ t [_] hp rfl ?_ fun status hstatus _ =>
        .inr ⟨_, List.mem_singleton_self _, ?_⟩
      · intro a ha
        rw [List.mem_singleton.1 ha]
        refine ⟨rfl, rfl, fun hleave => ?_⟩
        cases request with
        | publish => cases hleave
        | leave => rfl
      · exact Option.some.inj hstatus
  | fail k status =>
      obtain ⟨p, hp, hopen, hne, hne', rfl⟩ := Link.fail_eq_some hs
      refine h.progress s.backend s.now [] hp hopen
        (fun a ha => absurd ha List.not_mem_nil) fun st hst hkind => ?_
      rcases hkind with rfl | rfl
      · exact absurd hst hne
      · exact absurd hst hne'
  | settle k =>
      obtain ⟨request, status, hp, ⟨-, rfl⟩ | ⟨-, rfl⟩⟩ := Link.settle_eq_some hs
      · exact h.answered config hp
      · exact h.progress s.backend s.now [] hp rfl
          (fun a ha => absurd ha List.not_mem_nil) fun _ hstatus _ => .inl hstatus
  | otherWrite request t =>
      simp only [Link.step, Option.ite_none_right_eq_some] at hs
      cases hs.2
      exact h.congr rfl rfl rfl
  | otherRemove projectId room clientId channel =>
      simp only [Link.step, Option.ite_none_right_eq_some] at hs
      cases hs.2
      exact h.congr rfl rfl rfl
  | sweep limit picked t =>
      simp only [Link.step, Option.ite_none_right_eq_some] at hs
      obtain ⟨backend, -, rfl⟩ := Option.map_eq_some_iff.1 hs.2
      exact h.congr rfl rfl rfl

end LogInv

/-! ## The store -/

/-- The newest request of a channel that the store took. -/
def lastTaken (arrivals : List (Arrival δ)) (channel : Name) : Option (Arrival δ) :=
  arrivals.find? fun a => a.request.channel = channel && a.status = 200

def StoreInv (config : PresenceClientConfig δ) (project : Project) (s : Link δ) : Prop :=
  ∀ channel a, lastTaken s.arrivals channel = some a → ∀ t, s.now ≤ t →
    s.backend.live (keyOf config project channel) t = a.dataAt t

namespace StoreInv

theorem congr (h : StoreInv config project s) (harrivals : s'.arrivals = s.arrivals)
    (hnow : s.now ≤ s'.now)
    (hlive : ∀ channel t, s'.now ≤ t → s'.backend.live (keyOf config project channel) t =
      s.backend.live (keyOf config project channel) t) : StoreInv config project s' := by
  intro channel a ha t ht
  rw [hlive channel t ht]
  exact h channel a (harrivals ▸ ha) t (hnow.trans ht)

/-- The store takes a request, or refuses it. -/
theorem arrive (h : StoreInv config project s) {k : Nat} {t : Int} (ht : s.now ≤ t)
    (hs : s.arrive config project k t = some s') : StoreInv config project s' := by
  obtain ⟨request, -, rfl⟩ := Link.arrive_eq_some hs
  intro channel a ha t' ht'
  by_cases htaken : (serve config project s.backend request t).1 = 200 ∧
      request.channel = channel
  · obtain ⟨hstatus, rfl⟩ := htaken
    have hnew : a = ⟨k, request, 200, deadlineOf project s.backend request t⟩ := by
      simpa [lastTaken, hstatus, eq_comm] using ha
    rw [hnew]
    exact live_serve hstatus k
  · have hold : lastTaken s.arrivals channel = some a := by
      rw [lastTaken, List.find?_cons_of_neg] at ha
      · exact ha
      · intro htrue
        simp only [Bool.and_eq_true, decide_eq_true_eq] at htrue
        exact htaken htrue.symm
    have hbefore := h channel a hold t' (ht.trans ht')
    exact (live_serve_of_ne (not_and_or.1 htaken)).trans hbefore

theorem step {e : LinkEvent δ} (h : StoreInv config project s)
    (hs : s.step config project e = some s') : StoreInv config project s' := by
  cases e with
  | publish channel entry =>
      cases hs
      exact h.congr rfl (le_refl _) fun _ _ _ => rfl
  | clear channel =>
      cases hs
      exact h.congr rfl (le_refl _) fun _ _ _ => rfl
  | replay channel =>
      cases hs
      exact h.congr rfl (le_refl _) fun _ _ _ => rfl
  | arrive k t =>
      simp only [Link.step, Option.ite_none_right_eq_some] at hs
      exact h.arrive hs.1 hs.2
  | fail k status =>
      obtain ⟨p, -, -, -, -, rfl⟩ := Link.fail_eq_some hs
      exact h.congr rfl (le_refl _) fun _ _ _ => rfl
  | settle k =>
      obtain ⟨request, status, -, ⟨-, rfl⟩ | ⟨-, rfl⟩⟩ := Link.settle_eq_some hs
      · exact h.congr rfl (le_refl _) fun _ _ _ => rfl
      · exact h.congr rfl (le_refl _) fun _ _ _ => rfl
  | otherWrite request t =>
      simp only [Link.step, Option.ite_none_right_eq_some] at hs
      obtain ⟨⟨ht, hother⟩, hs⟩ := hs
      cases hs
      exact h.congr rfl ht fun _ _ _ => Backend.live_write_of_ne (key_ne_of_other hother)
  | otherRemove projectId room clientId channel =>
      simp only [Link.step, Option.ite_none_right_eq_some] at hs
      obtain ⟨hother, hs⟩ := hs
      cases hs
      refine h.congr rfl (le_refl _) fun c t _ => ?_
      rw [Backend.live_remove, removes_other hother]
      rfl
  | sweep limit picked t =>
      simp only [Link.step, Option.ite_none_right_eq_some] at hs
      obtain ⟨ht, hs⟩ := hs
      obtain ⟨backend, hsweep, rfl⟩ := Option.map_eq_some_iff.1 hs
      exact h.congr rfl ht fun _ _ ht' => Backend.live_sweep hsweep ht'

end StoreInv

/-! ## Quiet states -/

/-- All requests are answered, each with success or for its minimum interval. -/
def Link.Quiet (s : Link δ) : Prop :=
  ∀ p ∈ s.posted, p.progress = .settled (some 200) ∨ p.progress = .settled (some 429)

/-- No request of the channel from before the call reached the service after one since the call;
the newest arrival is the first. -/
def InTurn (arrivals : List (Arrival δ)) (channel : Name) (since : Nat) : Prop :=
  arrivals.Pairwise fun newer older => newer.request.channel = channel →
    older.request.channel = channel → since ≤ older.index → since ≤ newer.index

instance (s : Link δ) : Decidable s.Quiet :=
  inferInstanceAs (Decidable (∀ _ ∈ _, _))

instance (arrivals : List (Arrival δ)) (channel : Name) (since : Nat) :
    Decidable (InTurn arrivals channel since) :=
  inferInstanceAs (Decidable (List.Pairwise _ _))

/-- The store took a request of the channel that was posted since the call. -/
def TakenSince (arrivals : List (Arrival δ)) (channel : Name) (since : Nat) (a : Arrival δ) :
    Prop :=
  a ∈ arrivals ∧ a.request.channel = channel ∧ since ≤ a.index ∧ a.status = 200

/-- After a clear there is no entry; after a publish that was taken there is its data, until the
deadline of a request that carried it. -/
structure HoldsLast (config : PresenceClientConfig δ) (project : Project) (s : Link δ)
    (channel : Name) (last : LastCall δ) : Prop where
  cleared : last.entry = none → ∀ t, s.now ≤ t →
    s.backend.live (keyOf config project channel) t = none
  published : ∀ {entry}, last.entry = some entry →
    (∃ a, TakenSince s.arrivals channel last.since a) →
    ∃ a, TakenSince s.arrivals channel last.since a ∧ ∀ t, s.now ≤ t →
      s.backend.live (keyOf config project channel) t =
        if t < a.deadline then some entry.data else none

structure LinkInv (config : PresenceClientConfig δ) (project : Project) (s : Link δ) : Prop where
  client : ClientInv config s
  log : LogInv s
  store : StoreInv config project s

theorem linkInv_of_reachable {backend : Backend δ} {start : Int}
    (h : (linkMachine config project backend start).Reachable s) : LinkInv config project s := by
  refine h.invariant ?_ fun hi _ hs => ⟨hi.client.step hs, hi.log.step hs, hi.store.step hs⟩
  refine ⟨⟨⟨?_, fun c => ?_, ?_⟩, ?_⟩, ⟨?_, ?_, ?_, ?_⟩, ?_⟩
  · rintro channel i j ⟨p, hp, -⟩ -
    cases hp
  · refine ⟨fun hflag => Bool.noConfusion hflag, ?_⟩
    rintro ⟨i, p, hp, -⟩
    cases hp
  · intro channel entry hqueued
    cases hqueued
  · intro _ channel last hlast
    cases hlast
  · exact fun a ha => absurd ha List.not_mem_nil
  · intro i p status hp
    cases hp
  · exact fun a ha => absurd ha List.not_mem_nil
  · exact fun hclosed => Bool.noConfusion hclosed
  · intro channel a ha
    cases ha

section Quiet

variable {channel : Name} {last : LastCall δ}

theorem LinkInv.open_of_quiet (h : LinkInv config project s) (hquiet : s.Quiet) :
    s.client.closed = false := by
  refine Bool.eq_false_iff.2 fun hclosed => ?_
  obtain ⟨i, p, hp, hdenied⟩ := h.log.closed hclosed
  rcases hquiet p (List.mem_of_getElem? hp) with hok | hok <;>
    rcases hdenied with hno | hno <;> rw [hno] at hok <;> cases hok

/-- With nothing in flight nothing is queued, so that a request has been posted since the call. -/
theorem LinkInv.issued_of_quiet (h : LinkInv config project s) (hquiet : s.Quiet)
    (hlast : s.lastCall channel = some last) :
    ∃ i request, last.since ≤ i ∧ s.requestAt i = some request ∧ request.channel = channel := by
  have hcarries := h.client.call (h.open_of_quiet hquiet) channel last hlast
  refine hcarries.issued.resolve_right ?_
  rintro ⟨entry, hqueued⟩
  obtain ⟨i, p, hp, hflight⟩ := (h.client.flight.flag channel).1 (h.client.flight.queued hqueued)
  rcases hquiet p (List.mem_of_getElem? hp) with hok | hok <;>
    simp [Posted.inFlight, hok, Progress.isSettled] at hflight

/-- The newest request that the store took, if it took one since the call, is one since the call. -/
theorem lastTaken_since (hturn : InTurn s.arrivals channel last.since) {a : Arrival δ}
    (ha : TakenSince s.arrivals channel last.since a) :
    ∃ b, lastTaken s.arrivals channel = some b ∧ TakenSince s.arrivals channel last.since b := by
  obtain ⟨hmem, hchannel, hsince, hstatus⟩ := ha
  have htakes : (decide (a.request.channel = channel) && decide (a.status = 200)) = true := by
    simp [hchannel, hstatus]
  have hsome : (lastTaken s.arrivals channel).isSome = true :=
    List.find?_isSome.2 ⟨a, hmem, htakes⟩
  obtain ⟨b, hb⟩ := Option.isSome_iff_exists.1 hsome
  obtain ⟨hbtakes, newer, older, heq, hnewer⟩ := List.find?_eq_some_iff_append.1 hb
  simp only [Bool.and_eq_true, decide_eq_true_eq] at hbtakes
  refine ⟨b, hb, List.mem_of_find?_eq_some hb, hbtakes.1, ?_, hbtakes.2⟩
  rw [heq] at hmem
  rcases List.mem_append.1 hmem with hmem | hmem
  · have hnot := hnewer a hmem
    rw [htakes] at hnot
    cases hnot
  · rcases List.mem_cons.1 hmem with rfl | hmem
    · exact hsince
    · rw [InTurn, heq] at hturn
      have hrest := (List.pairwise_append.1 hturn).2.1
      exact (List.pairwise_cons.1 hrest).1 a hmem hbtakes.1 hchannel hsince

/-- What the store holds is what a request since the call left. -/
theorem LinkInv.holds (h : LinkInv config project s) (hquiet : s.Quiet)
    (hlast : s.lastCall channel = some last) (hturn : InTurn s.arrivals channel last.since)
    {a : Arrival δ} (ha : TakenSince s.arrivals channel last.since a) :
    ∃ b, TakenSince s.arrivals channel last.since b ∧
      b.request = carrier config channel last.entry ∧ ∀ t, s.now ≤ t →
        s.backend.live (keyOf config project channel) t = b.dataAt t := by
  obtain ⟨b, hb, hmem, hchannel, hsince, hstatus⟩ := lastTaken_since hturn ha
  have hcarries := h.client.call (h.open_of_quiet hquiet) channel last hlast
  refine ⟨b, ⟨hmem, hchannel, hsince, hstatus⟩, ?_, h.store channel b hb⟩
  exact hcarries.only hsince (h.log.logged b hmem) hchannel

theorem LinkInv.holdsLast (h : LinkInv config project s) (hquiet : s.Quiet)
    (hlast : s.lastCall channel = some last) (hturn : InTurn s.arrivals channel last.since) :
    HoldsLast config project s channel last := by
  refine ⟨fun hclear => ?_, fun {entry} hentry htaken => ?_⟩
  · -- a clear's leave has been answered, and the store takes every leave
    obtain ⟨i, request, hi, hrequest, hchannel⟩ := h.issued_of_quiet hquiet hlast
    obtain ⟨p, hp, rfl⟩ := Option.map_eq_some_iff.1 hrequest
    have harrived : ∃ a ∈ s.arrivals, a.index = i := by
      rcases hquiet p (List.mem_of_getElem? hp) with hok | hok
      · obtain ⟨a, ha, hindex, -⟩ := h.log.arrived hp (by rw [hok]; rfl) (.inl rfl)
        exact ⟨a, ha, hindex⟩
      · obtain ⟨a, ha, hindex, -⟩ := h.log.arrived hp (by rw [hok]; rfl) (.inr rfl)
        exact ⟨a, ha, hindex⟩
    obtain ⟨a, ha, rfl⟩ := harrived
    have hsame : p.request = a.request := by
      have hlogged := h.log.logged a ha
      rw [hrequest] at hlogged
      exact Option.some.inj hlogged
    have hcarries := h.client.call (h.open_of_quiet hquiet) channel last hlast
    have hleave : a.request.isPublish = false := by
      rw [← hsame, hcarries.only hi hrequest hchannel, hclear]
      rfl
    have htaken : TakenSince s.arrivals channel last.since a :=
      ⟨ha, hsame ▸ hchannel, hi, h.log.leave_ok a ha hleave⟩
    obtain ⟨b, -, hb, hlive⟩ := h.holds hquiet hlast hturn htaken
    intro t ht
    rw [hlive t ht, Arrival.dataAt, hb, hclear]
    rfl
  · obtain ⟨a, ha⟩ := htaken
    obtain ⟨b, hmem, hb, hlive⟩ := h.holds hquiet hlast hturn ha
    refine ⟨b, hmem, fun t ht => ?_⟩
    rw [hlive t ht, Arrival.dataAt, hb, hentry]
    rfl

end Quiet

/-- One publish a channel is in flight.  Once all requests are answered the service holds the last
call of a channel, where nothing from before the call overtook it and the call was taken. -/
theorem lastState_of_reachable {backend : Backend δ} {start : Int}
    (h : (linkMachine config project backend start).Reachable s) :
    (∀ channel i j, s.InFlight channel i → s.InFlight channel j → i = j) ∧
      (s.Quiet → ∀ channel last, s.lastCall channel = some last →
        InTurn s.arrivals channel last.since → HoldsLast config project s channel last) := by
  have hinv := linkInv_of_reachable h
  exact ⟨fun _ _ _ hi hj => hinv.client.flight.unique hi hj,
    fun hquiet _ _ hlast hturn => hinv.holdsLast hquiet hlast hturn⟩

/-! ### A channel that publishes twice -/

def lobby : Name :=
  ⟨[108], rfl⟩

def lobbyConfig : PresenceClientConfig Nat :=
  ⟨lobby, lobby, none, none⟩

/-- A hundred messages a second: one in ten milliseconds. -/
def lobbyProject : Project :=
  ⟨lobby, 10, 100, 1000, 100, by decide⟩

def lobbyMachine : Machine (Link Nat) (LinkEvent Nat) :=
  linkMachine lobbyConfig lobbyProject (.memory [] List.nodup_nil) 0

/-- The second publish waits for the answer to the first, and is taken after the interval. -/
theorem lastState_of_reachable_queued :
    ∃ s : Link Nat, s.posted.length = 2 ∧ ∃ last, s.lastCall lobby = some last ∧
      last.entry.map (·.data) = some 8 ∧ HoldsLast lobbyConfig lobbyProject s lobby last := by
  let events : List (LinkEvent Nat) :=
    [.publish lobby ⟨7, none⟩, .arrive 0 0, .publish lobby ⟨8, none⟩, .settle 0, .arrive 1 10,
      .settle 1]
  have hrun : (lobbyMachine.run events).map (fun s => (s.posted.length, decide s.Quiet,
      (s.lastCall lobby).map (fun last =>
        (last.entry.map (·.data), decide (InTurn s.arrivals lobby last.since))))) =
      some (2, true, some (some 8, true)) := by
    decide +kernel
  obtain ⟨s, hs, hstate⟩ := Option.map_eq_some_iff.1 hrun
  simp only [Prod.mk.injEq, Option.map_eq_some_iff, decide_eq_true_eq] at hstate
  obtain ⟨hlength, hquiet, last, hlast, hdata, hturn⟩ := hstate
  exact ⟨s, hlength, last, hlast, Option.map_eq_some_iff.2 hdata,
    (lastState_of_reachable (.of_run hs)).2 hquiet lobby last hlast hturn⟩

/-- A last publish inside the interval is refused, and the one before it stays. -/
theorem not_lastState_refused :
    ¬ ∀ s : Link Nat, lobbyMachine.Reachable s → s.Quiet → ∀ channel last entry,
      s.lastCall channel = some last → last.entry = some entry →
        ∃ deadline, ∀ t, s.now ≤ t →
          s.backend.live (keyOf lobbyConfig lobbyProject channel) t =
            if t < deadline then some entry.data else none := by
  intro h
  let events : List (LinkEvent Nat) :=
    [.publish lobby ⟨7, none⟩, .arrive 0 0, .settle 0, .publish lobby ⟨8, none⟩, .arrive 1 1,
      .settle 1]
  have hrun : (lobbyMachine.run events).map (fun s => (decide s.Quiet, s.now,
      (s.lastCall lobby).bind (fun last => last.entry.map (·.data)),
      s.backend.live (keyOf lobbyConfig lobbyProject lobby) 1)) =
      some (true, 1, some 8, some 7) := by
    decide +kernel
  obtain ⟨s, hs, hstate⟩ := Option.map_eq_some_iff.1 hrun
  simp only [Prod.mk.injEq, Option.map_eq_some_iff, Option.bind_eq_some_iff,
    decide_eq_true_eq] at hstate
  obtain ⟨hquiet, hnow, ⟨last, hlast, entry, hentry, hdata⟩, hlive⟩ := hstate
  obtain ⟨deadline, hholds⟩ := h s (.of_run hs) hquiet lobby last entry hlast hentry
  have hone := hholds 1 (Int.le_of_eq hnow)
  rw [hlive, hdata] at hone
  split at hone <;> simp at hone

end Presence
end Reflectdb
