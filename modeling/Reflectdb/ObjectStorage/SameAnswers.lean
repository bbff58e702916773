import Reflectdb.ObjectStorage.DriverRefine

/-!
# Same answers — what the etags of both drivers tell over a run

No put gives an etag twice in the memory driver, and the filesystem driver gives one for each body.
They agree about a key as long as it does not get the same bytes again behind the caller's back.
-/

namespace Reflectdb
namespace ObjectStorage

open Lib

theorem MemoryDriver.etagOf_injective : Function.Injective etagOf := fun _ _ h =>
  decimal_injective (List.append_cancel_right (List.tail_eq_of_cons_eq h))

/-- The bytes have been put under the key, or were to be. -/
def PutUnder (history : List DriverStep) (key : Text) (body : Body) : Prop :=
  ∃ h ∈ history, h.call.bodyFor key = some body

theorem PutUnder.mono {history : List DriverStep} {key : Text} {body : Body}
    (h : PutUnder history key body) (later : List DriverStep) :
    PutUnder (history ++ later) key body := by
  obtain ⟨step, hmem, hcall⟩ := h
  exact ⟨step, List.mem_append_left _ hmem, hcall⟩

theorem PutUnder.of_concat {history : List DriverStep} {step : DriverStep} {key : Text}
    {body : Body} (h : PutUnder (history ++ [step]) key body) :
    PutUnder history key body ∨ step.call.bodyFor key = some body := by
  obtain ⟨step', hmem, hcall⟩ := h
  rcases List.mem_append.1 hmem with hold | hnew
  · exact Or.inl ⟨step', hold, hcall⟩
  · rw [List.mem_singleton.1 hnew] at hcall
    exact Or.inr hcall

theorem putUnder_concat {history : List DriverStep} {step : DriverStep} {key : Text} {body : Body}
    (h : step.call.bodyFor key = some body) : PutUnder (history ++ [step]) key body :=
  ⟨step, List.mem_append_right _ List.mem_cons_self, h⟩

/-! ## The invariant -/

/-- An etag that was returned is that of the bytes, and belongs to at most one object. -/
structure Known (m : MemoryDriver) (history : List DriverStep) (r : Returned) : Prop where
  filesystem : r.filesystem = contentEtag r.body
  put : PutUnder history r.key r.body
  numbered : ∃ n ≤ m.etagCounter, r.memory = MemoryDriver.etagOf n
  current : ∀ {key object}, m.get key = some object → object.etag = r.memory →
    key = r.key ∧ object.body = r.body

structure DriverInv (K : Keyspace) (s : DriverRun) : Prop where
  mirrors : Mirrors K s.memory s.filesystem.root
  stored : ∀ {key object}, s.memory.get key = some object →
    (∃ n ≤ s.memory.etagCounter, object.etag = MemoryDriver.etagOf n) ∧
      PutUnder s.history key object.body
  apart : ∀ {key key' object object'}, s.memory.get key = some object →
    s.memory.get key' = some object' → object.etag = object'.etag → key = key'
  returned : ∀ h ∈ s.history, ∀ r, h.returned = some r → Known s.memory s.history r
  distinct : ∀ {key body body'}, PutUnder s.history key body → PutUnder s.history key body' →
    contentEtag body = contentEtag body' → body = body'
  same : SameAnswers s

namespace DriverInv

variable {K : Keyspace} {s : DriverRun}

theorem start : DriverInv K driverMachine.init where
  mirrors := .start
  stored h := by simp [driverMachine, MemoryDriver.get] at h
  apart h := by simp [driverMachine, MemoryDriver.get] at h
  returned h hmem := by cases hmem
  distinct h := by
    obtain ⟨step, hmem, -⟩ := h
    cases hmem
  same h hmem := by cases hmem

/-- The bytes of a further put do not collide with the ones before. -/
theorem distinct_concat (h : DriverInv K s) {step : DriverStep}
    (hput : ∀ {key body}, step.call.bodyFor key = some body →
      ∀ body', PutUnder s.history key body' → contentEtag body' = contentEtag body → body' = body)
    {key : Text} {body body' : Body} (hbody : PutUnder (s.history ++ [step]) key body)
    (hbody' : PutUnder (s.history ++ [step]) key body')
    (hetag : contentEtag body = contentEtag body') : body = body' := by
  rcases hbody.of_concat with hold | hcall
  · rcases hbody'.of_concat with hold' | hcall'
    · exact h.distinct hold hold' hetag
    · exact hput hcall' body hold hetag
  · rcases hbody'.of_concat with hold' | hcall'
    · exact (hput hcall body' hold' hetag.symm).symm
    · exact Option.some.inj (hcall.symm.trans hcall')

theorem same_concat (h : DriverInv K s) {step : DriverStep}
    (hstep : step.memory.seen = step.filesystem.seen) {m : MemoryDriver} {f : FilesystemDriver} :
    SameAnswers ⟨m, f, s.history ++ [step]⟩ := by
  intro step' hmem
  rcases List.mem_append.1 hmem with hold | hnew
  · exact h.same step' hold
  · rw [List.mem_singleton.1 hnew]
    exact hstep

/-- A call that stores nothing; what it returns was stored. -/
theorem keep (h : DriverInv K s) {m : MemoryDriver} {f : FilesystemDriver} {step : DriverStep}
    (hmirrors : Mirrors K m f.root)
    (hget : ∀ {key object}, m.get key = some object → s.memory.get key = some object)
    (hcounter : m.etagCounter = s.memory.etagCounter)
    (hput : ∀ {key body}, step.call.bodyFor key = some body →
      ∀ body', PutUnder s.history key body' → contentEtag body' = contentEtag body → body' = body)
    (hreturned : ∀ r, step.returned = some r →
      s.memory.get r.key = some ⟨r.body, r.memory⟩ ∧ r.filesystem = contentEtag r.body)
    (hstep : step.memory.seen = step.filesystem.seen) :
    DriverInv K ⟨m, f, s.history ++ [step]⟩ where
  mirrors := hmirrors
  stored {key} {object} hobject := by
    obtain ⟨hnumbered, hunder⟩ := h.stored (hget hobject)
    rw [hcounter]
    exact ⟨hnumbered, hunder.mono _⟩
  apart hobject hobject' hetag := h.apart (hget hobject) (hget hobject') hetag
  returned step' hmem r hr := by
    rcases List.mem_append.1 hmem with hold | hnew
    · have hknown := h.returned step' hold r hr
      refine ⟨hknown.filesystem, hknown.put.mono _, ?_, fun hobject hetag => ?_⟩
      · rw [hcounter]
        exact hknown.numbered
      · exact hknown.current (hget hobject) hetag
    · rw [List.mem_singleton.1 hnew] at hr
      obtain ⟨hstored, hfilesystem⟩ := hreturned r hr
      obtain ⟨hnumbered, hunder⟩ := h.stored hstored
      refine ⟨hfilesystem, hunder.mono _, ?_, fun {key} {object} hobject hetag => ?_⟩
      · rw [hcounter]
        exact hnumbered
      · have hkey : key = r.key := h.apart (hget hobject) hstored hetag
        subst hkey
        have heq := (hget hobject).symm.trans hstored
        cases heq
        exact ⟨rfl, rfl⟩
  distinct hbody hbody' := h.distinct_concat hput hbody hbody'
  same := h.same_concat hstep

/-- A number that no stored or returned etag has yet. -/
theorem fresh {m : MemoryDriver} {etag : Text}
    (h : ∃ n ≤ m.etagCounter, etag = MemoryDriver.etagOf n) :
    etag ≠ MemoryDriver.etagOf (m.etagCounter + 1) := by
  obtain ⟨n, hle, rfl⟩ := h
  intro heq
  have hn := MemoryDriver.etagOf_injective heq
  omega

/-- A put that both drivers do. -/
theorem put (h : DriverInv K s) {key : Text} {body : Body} {ifMatch : Option Nat}
    {ifNoneMatch : Bool} {f : FilesystemDriver}
    (hmirrors : Mirrors K ⟨s.memory.store.insert key
      ⟨body, MemoryDriver.etagOf (s.memory.etagCounter + 1)⟩, s.memory.etagCounter + 1⟩ f.root)
    (hput : ∀ body', PutUnder s.history key body' → contentEtag body' = contentEtag body →
      body' = body) :
    DriverInv K ⟨⟨s.memory.store.insert key
      ⟨body, MemoryDriver.etagOf (s.memory.etagCounter + 1)⟩, s.memory.etagCounter + 1⟩, f,
      s.history ++ [⟨.put key body ifMatch ifNoneMatch,
        .etag (MemoryDriver.etagOf (s.memory.etagCounter + 1)), .etag (contentEtag body)⟩]⟩ where
  mirrors := hmirrors
  stored {key'} {object} hobject := by
    rw [MemoryDriver.get_insert] at hobject
    split at hobject
    · rename_i heq
      cases hobject
      exact ⟨⟨_, le_rfl, rfl⟩, putUnder_concat (if_pos heq.symm)⟩
    · obtain ⟨⟨n, hle, hn⟩, hunder⟩ := h.stored hobject
      exact ⟨⟨n, Nat.le_succ_of_le hle, hn⟩, hunder.mono _⟩
  apart {key₁} {key₂} {object} {object'} hobject hobject' hetag := by
    rw [MemoryDriver.get_insert] at hobject hobject'
    split at hobject
    · rename_i heq
      split at hobject'
      · rename_i heq'
        rw [heq, heq']
      · cases hobject
        exact absurd hetag.symm (fresh (h.stored hobject').1)
    · split at hobject'
      · cases hobject'
        exact absurd hetag (fresh (h.stored hobject).1)
      · exact h.apart hobject hobject' hetag
  returned step' hmem r hr := by
    rcases List.mem_append.1 hmem with hold | hnew
    · have hknown := h.returned step' hold r hr
      obtain ⟨n, hle, hn⟩ := hknown.numbered
      refine ⟨hknown.filesystem, hknown.put.mono _, ⟨n, Nat.le_succ_of_le hle, hn⟩,
        fun {key'} {object} hobject hetag => ?_⟩
      rw [MemoryDriver.get_insert] at hobject
      split at hobject
      · cases hobject
        exact absurd hetag.symm (fresh hknown.numbered)
      · exact hknown.current hobject hetag
    · rw [List.mem_singleton.1 hnew] at hr
      cases hr
      refine ⟨rfl, putUnder_concat (if_pos rfl), ⟨_, le_rfl, rfl⟩,
        fun {key'} {object} hobject hetag => ?_⟩
      rw [MemoryDriver.get_insert] at hobject
      split at hobject
      · rename_i heq
        cases hobject
        exact ⟨heq, rfl⟩
      · exact absurd hetag (fresh (h.stored hobject).1)
  distinct hbody hbody' := h.distinct_concat (fun {key'} {body'} hcall => by
    obtain ⟨hkey, hbody⟩ := Option.ite_none_right_eq_some.1 hcall
    cases hbody
    rwa [← hkey]) hbody hbody'
  same := h.same_concat rfl

/-- The etags of one place in the run agree about a key. -/
theorem etagsAgree (h : DriverInv K s) {key : Text} {body : Body} {ifMatch : Option Nat}
    {ifNoneMatch : Bool} {etags : Option Text × Option Text}
    (hkind : InKind s (.put key body ifMatch ifNoneMatch))
    (hetags : s.etags (.put key body ifMatch ifNoneMatch) = some etags) :
    EtagsAgree s.memory key etags := by
  cases ifMatch with
  | none =>
      cases hetags
      exact ⟨rfl, fun object _ => by simp⟩
  | some i =>
      obtain ⟨r, hr, rfl⟩ := Option.map_eq_some_iff.1 hetags
      obtain ⟨step, hstep, hreturned⟩ := Option.bind_eq_some_iff.1 hr
      have hknown := h.returned step (List.mem_of_getElem? hstep) r hreturned
      refine ⟨rfl, fun object hobject => ⟨fun heq => ?_, fun heq => ?_⟩⟩
      · obtain ⟨-, hbody⟩ := hknown.current hobject (Option.some.inj heq)
        rw [hknown.filesystem, hbody]
      · have hcontent : contentEtag object.body = contentEtag r.body := by
          rw [← hknown.filesystem]
          exact Option.some.inj heq
        by_contra hne
        obtain ⟨hbody, hother⟩ := hkind r hr object hobject fun he => hne (congrArg some he)
        by_cases hkey : r.key = key
        · exact hbody (h.distinct (h.stored hobject).2 (hkey ▸ hknown.put) hcontent)
        · exact hother hkey hcontent

/-- What is asked of a call keeps the answers the same. -/
theorem step (h : DriverInv K s) {e : DriverEvent} (hguard : DriverGuard K s e) {s' : DriverRun}
    (hs : driverMachine.step s e = some s') : DriverInv K s' := by
  obtain ⟨etags, hetags, rfl⟩ := Option.map_eq_some_iff.1 hs
  obtain ⟨call, random⟩ := e
  obtain ⟨honKeys, hkind⟩ := hguard
  cases call with
  | get key =>
      have hget := FilesystemDriver.get_of_mirrors h.mirrors honKeys
      simp only [MemoryDriver.answer, FilesystemDriver.answer, hget]
      cases hobject : s.memory.get key with
      | none =>
          exact h.keep h.mirrors id rfl (fun hcall => by cases hcall) (fun r hr => by cases hr) rfl
      | some object =>
          refine h.keep h.mirrors id rfl (fun hcall => by cases hcall) (fun r hr => ?_) rfl
          cases hr
          exact ⟨hobject, rfl⟩
  | put key body ifMatch ifNoneMatch =>
      obtain ⟨hkey, hdistinct⟩ := honKeys
      have hput : ∀ body', PutUnder s.history key body' → contentEtag body' = contentEtag body →
          body' = body := fun body' ⟨step, hmem, hcall⟩ => hdistinct step hmem body' hcall
      have hagree := h.etagsAgree hkind hetags
      simp only [MemoryDriver.answer, FilesystemDriver.answer]
      rcases put_cases h.mirrors hkey hagree body ifNoneMatch random with
        ⟨e, hmemory, hfilesystem⟩ | ⟨root, hmemory, hfilesystem, hmirrors⟩
      · rw [hmemory, hfilesystem]
        refine h.keep h.mirrors id rfl (fun hcall => ?_) (fun r hr => by cases hr) rfl
        obtain ⟨rfl, hbody⟩ := Option.ite_none_right_eq_some.1 hcall
        cases hbody
        exact hput
      · rw [hmemory, hfilesystem]
        exact h.put hmirrors hput
  | list pre =>
      have hlist := list_of_mirrors h.mirrors hkind.1 hkind.2
      simp only [MemoryDriver.answer, FilesystemDriver.answer, hlist]
      exact h.keep h.mirrors id rfl (fun hcall => by cases hcall) (fun r hr => by cases hr) rfl
  | delete keys =>
      obtain ⟨f', hdelete, hmirrors⟩ := delete_of_mirrors h.mirrors honKeys
      simp only [MemoryDriver.answer, FilesystemDriver.answer, hdelete]
      exact h.keep hmirrors MemoryDriver.get_of_delete rfl (fun hcall => by cases hcall)
        (fun r hr => by cases hr) rfl

end DriverInv

/-- Over every run of calls on the keys that does not come back to the same bytes behind an etag,
both drivers give the same answers. -/
theorem sameAnswers_of_reach {K : Keyspace} {s : DriverRun}
    (h : driverMachine.Reach (DriverGuard K) s) : SameAnswers s :=
  (h.invariant (P := DriverInv K) .start fun hinv hguard hs => hinv.step hguard hs).same

/-! ### Two keys -/

/-- Two keys, one of them below a directory. -/
def twoKeys : Keyspace where
  keys key := key = [97] ∨ key = [98, slash, 99]
  accepted := by
    rintro key (rfl | rfl)
    · decide
    · decide
  no_temp := by
    rintro key (rfl | rfl)
    · decide
    · decide
  prefix_free := by
    rintro key key' (rfl | rfl) (rfl | rfl) h
    · rfl
    · exact absurd h (by decide)
    · exact absurd h (by decide)
    · rfl

instance : DecidablePred twoKeys.keys := fun key =>
  inferInstanceAs (Decidable (key = [97] ∨ key = [98, slash, 99]))

/-- A conditional put with the etag of the first put, and the listing of its directory. -/
theorem sameAnswers_of_reach_conditional :
    ∃ s : DriverRun, s.history.map (·.memory.seen) =
        [.etag [], .etag [], .entries [⟨[98, slash, 99], 2⟩]] ∧ SameAnswers s := by
  let events : List DriverEvent :=
    [⟨.put [98, slash, 99] [1] none true, [48]⟩, ⟨.put [98, slash, 99] [2, 3] (some 0) false, [48]⟩,
      ⟨.list [98, slash], []⟩]
  have hrun : (driverMachine.runWith (fun s e => decide (DriverGuard twoKeys s e))
      driverMachine.init events).map (fun s => s.history.map (·.memory.seen)) =
      some [.etag [], .etag [], .entries [⟨[98, slash, 99], 2⟩]] := by
    decide +kernel
  obtain ⟨s, hs, hanswers⟩ := Option.map_eq_some_iff.1 hrun
  have hreach := Machine.Reach.of_runWith (fun _ _ hg => of_decide_eq_true hg) .init hs
  exact ⟨s, hanswers, sameAnswers_of_reach hreach⟩

/-- The same bytes again: the memory driver refuses the first etag, the filesystem one takes it. -/
theorem not_sameAnswers_rewritten :
    ¬ ∀ (K : Keyspace) (s : DriverRun), driverMachine.Reach (OnKeys K) s → SameAnswers s := by
  intro h
  let events : List DriverEvent :=
    [⟨.put [97] [1] none false, [48]⟩, ⟨.put [97] [1] none false, [48]⟩,
      ⟨.put [97] [2] (some 0) false, [48]⟩]
  have hrun : (driverMachine.runWith (fun s e => decide (OnKeys twoKeys s e))
      driverMachine.init events).map (fun s => decide (SameAnswers s)) = some false := by
    decide +kernel
  obtain ⟨s, hs, hdiffer⟩ := Option.map_eq_some_iff.1 hrun
  have hreach := Machine.Reach.of_runWith (fun _ _ hg => of_decide_eq_true hg) .init hs
  exact of_decide_eq_false hdiffer (h twoKeys s hreach)

end ObjectStorage
end Reflectdb
