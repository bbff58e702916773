import Reflectdb.ObjectStorage.Fleet.Machine

/-!
# Steps — what each step of an instance can do

One relation for each group of steps, with a constructor for each way a step can go.  The lemmas
`of_eq` take a step of the machine to its constructor, so that an invariant is a case analysis over
states that are written out.
-/

namespace Reflectdb
namespace ObjectStorage
namespace Fleet

open Core Client Lib

variable {ι : Type} {cfg : Config ι} {i : ι} {st st' : Store ι} {n n' : Instance}

/-! ## Boot and close -/

inductive RoomStep (cfg : Config ι) (st : Store ι) (n : Instance) :
    RoomAct → Store ι → Instance → Prop
  | load (hboot : n.room.boot = .cold) :
      RoomStep cfg st n .load st { n with
        commit := { n.commit with cached := manifestAt st.versions st.tip, cachedTag := st.tip }
        lease := n.lease.inherit (manifestAt st.versions st.tip)
        room := { n.room with
          boot := .loaded
          held := n.room.held.withMeta (manifestAt st.versions st.tip).meta_
          bootTag := st.tip
          bootSerial := st.serial } }
  | noSnapshot (now : Nat) (hboot : n.room.boot = .loaded)
      (hkey : n.commit.cached.snapshotKey = none) :
      RoomStep cfg st n (.loadSnapshot now) st (n.withBoot (.applying n.commit.cached.segments))
  | snapshot (now : Nat) (key : ObjectKey) (record : SnapshotRecord) (log : List Entry)
      (held : Held) (hboot : n.room.boot = .loaded) (hkey : n.commit.cached.snapshotKey = some key)
      (hsnap : snapshotOf st.objects key = some (record, log))
      (hrun : (loadSnapshot cfg.sizes record now).run n.room.held = .ok () held) :
      RoomStep cfg st n (.loadSnapshot now) st { n with room := { n.room with
        boot := .applying n.commit.cached.segments
        held := held
        log := log
        appliedSnapshotKey := some key } }
  | snapshotThrew (now : Nat) (record : SnapshotRecord) (error : MemoryError) (held : Held)
      (hboot : n.room.boot = .loaded)
      (hrun : (loadSnapshot cfg.sizes record now).run n.room.held = .error error held) :
      RoomStep cfg st n (.loadSnapshot now) st ((n.withHeld held).withBoot .cold)
  | segment (now : Nat) (key : ObjectKey) (todo : List ObjectKey) (lines : List Entry) (held : Held)
      (hboot : n.room.boot = .applying (key :: todo))
      (hlines : segmentLines st.objects key = some lines)
      (hrun : (applyLines cfg.sizes lines now).run n.room.held = .ok () held) :
      RoomStep cfg st n (.applySegment now) st
        ((n.withMemory held (n.room.log ++ lines)).withBoot (.applying todo))
  | segmentThrew (now : Nat) (key : ObjectKey) (todo : List ObjectKey) (lines : List Entry)
      (error : MemoryError) (held : Held) (hboot : n.room.boot = .applying (key :: todo))
      (hrun : (applyLines cfg.sizes lines now).run n.room.held = .error error held) :
      RoomStep cfg st n (.applySegment now) st ((n.withHeld held).withBoot .cold)
  | replayed (hboot : n.room.boot = .applying []) :
      RoomStep cfg st n .replayed st { n with room := { n.room with
        boot := .replayed, appliedSegments := n.commit.cached.segments } }
  | start (hboot : n.room.boot = .replayed)
      (hlease : cfg.mode = .optimistic ∨ cfg.leaseMode = .onWrite ∨ n.lease.acquired) :
      RoomStep cfg st n .start st (n.withBoot .ready)
  | failBoot (hcold : n.room.boot ≠ .cold) (hready : n.room.boot ≠ .ready)
      (hacquired : n.lease.acquired = false) (hcalls : n.lease.calls = []) :
      RoomStep cfg st n .failBoot st (n.withBoot .cold)
  | append (record : WalRecord) (now : Nat) (held : Held) (hboot : n.room.boot = .ready)
      (hclosed : n.room.closed = false) (hwritable : n.writable)
      (hrun : (mutation cfg.sizes record now).run n.room.held = .ok () held) :
      RoomStep cfg st n (.append record now)
        (Instance.buffered st (n.withMemory held (n.room.log ++ [⟨st.serial, record⟩])) record).1
        (Instance.buffered st (n.withMemory held (n.room.log ++ [⟨st.serial, record⟩])) record).2
  | appendThrew (record : WalRecord) (now : Nat) (error : MemoryError) (held : Held)
      (hboot : n.room.boot = .ready)
      (hrun : (mutation cfg.sizes record now).run n.room.held = .error error held) :
      RoomStep cfg st n (.append record now) st (n.withHeld held)
  | reserve (opIds : List String) (sweptAt now stamp : Nat) (fresh : List String) (held : Held)
      (hboot : n.room.boot = .ready) (hwritable : n.writable)
      (hrun : (reserveOps opIds sweptAt now).run n.room.held = .ok fresh held) :
      RoomStep cfg st n (.reserve opIds sweptAt now stamp)
        (Instance.buffered st
          (n.withMemory held (n.room.log ++ [⟨st.serial, .reserve fresh stamp⟩]))
          (.reserve fresh stamp)).1
        (Instance.buffered st
          (n.withMemory held (n.room.log ++ [⟨st.serial, .reserve fresh stamp⟩]))
          (.reserve fresh stamp)).2
  | reserveOnly (opIds : List String) (sweptAt now stamp : Nat) (fresh : List String) (held : Held)
      (hboot : n.room.boot = .ready)
      (hrun : (reserveOps opIds sweptAt now).run n.room.held = .ok fresh held) :
      RoomStep cfg st n (.reserve opIds sweptAt now stamp) st (n.withHeld held)
  | reserveThrew (opIds : List String) (sweptAt now stamp : Nat) (error : MemoryError)
      (held : Held) (hboot : n.room.boot = .ready)
      (hrun : (reserveOps opIds sweptAt now).run n.room.held = .error error held) :
      RoomStep cfg st n (.reserve opIds sweptAt now stamp) st (n.withHeld held)
  | flushed (hboot : n.room.boot = .ready) (hlive : n.loop.terminal = false)
      (hempty : n.loop.buffer = []) :
      RoomStep cfg st n .flushed st
        { n with loop := { n.loop with resolved := n.loop.resolved ++ n.loop.appended } }
  | close (hboot : n.room.boot = .ready) :
      RoomStep cfg st n .close st { n with room := { n.room with closed := true } }
  | stopWal (hclosed : n.room.closed) :
      RoomStep cfg st n .stopWal st { n with loop := { n.loop with stopped := true } }
  | stop (hstopped : n.loop.stopped) :
      RoomStep cfg st n .stop st { n with lease := { n.lease with stopped := true } }
  | dispose (held : Held) (hstopped : n.lease.stopped)
      (hrun : reset.run n.room.held = .ok () held) :
      RoomStep cfg st n .dispose st (n.withMemory held [])
  | disposeThrew (error : MemoryError) (held : Held) (hstopped : n.lease.stopped)
      (hrun : reset.run n.room.held = .error error held) :
      RoomStep cfg st n .dispose st (n.withHeld held)

theorem RoomStep.of_eq {a : RoomAct} (h : n.roomStep cfg st a = some (st', n')) :
    RoomStep cfg st n a st' n' := by
  cases a with
  | load =>
      simp only [Instance.roomStep, Instance.load, Option.map_eq_some_iff,
        Option.ite_none_right_eq_some, Option.some.injEq, Prod.mk.injEq] at h
      obtain ⟨_, ⟨hboot, rfl⟩, rfl, rfl⟩ := h
      exact .load hboot
  | loadSnapshot now =>
      simp only [Instance.roomStep, Instance.bootSnapshot, Option.map_eq_some_iff,
        Option.ite_none_right_eq_some] at h
      obtain ⟨_, ⟨hboot, h⟩, heq⟩ := h
      cases heq
      cases hkey : n.commit.cached.snapshotKey with
      | none =>
          simp only [hkey, Option.some.injEq] at h
          subst h
          exact .noSnapshot now hboot hkey
      | some key =>
          simp only [hkey, Option.map_eq_some_iff] at h
          obtain ⟨⟨record, log⟩, hsnap, h⟩ := h
          split at h <;> subst h
          · rename_i held hrun
            exact .snapshot now key record log held hboot hkey hsnap hrun
          · rename_i error held hrun
            exact .snapshotThrew now record error held hboot hrun
  | applySegment now =>
      simp only [Instance.roomStep, Instance.bootSegment, Option.map_eq_some_iff] at h
      obtain ⟨_, h, heq⟩ := h
      cases heq
      split at h <;> try contradiction
      rename_i key todo hboot
      obtain ⟨lines, hlines, h⟩ := Option.map_eq_some_iff.1 h
      split at h <;> subst h
      · rename_i held hrun
        exact .segment now key todo lines held hboot hlines hrun
      · rename_i error held hrun
        exact .segmentThrew now key todo lines error held hboot hrun
  | replayed =>
      simp only [Instance.roomStep, Instance.replayed, Option.map_eq_some_iff] at h
      obtain ⟨_, h, heq⟩ := h
      cases heq
      split at h <;> try contradiction
      rename_i hboot
      cases h
      exact .replayed hboot
  | start =>
      simp only [Instance.roomStep, Instance.bootDone, Option.map_eq_some_iff,
        Option.ite_none_right_eq_some, Option.some.injEq, Prod.mk.injEq] at h
      obtain ⟨_, ⟨⟨hboot, hlease⟩, rfl⟩, rfl, rfl⟩ := h
      exact .start hboot hlease
  | failBoot =>
      simp only [Instance.roomStep, Instance.failBoot, Option.map_eq_some_iff,
        Option.ite_none_right_eq_some, Option.some.injEq, Prod.mk.injEq, Bool.not_eq_true'] at h
      obtain ⟨_, ⟨⟨hcold, hready, hacquired, hcalls⟩, rfl⟩, rfl, rfl⟩ := h
      exact .failBoot hcold hready hacquired hcalls
  | append record now =>
      simp only [Instance.roomStep, Instance.append, Option.ite_none_right_eq_some,
        Bool.not_eq_true'] at h
      obtain ⟨⟨hboot, hclosed, hwritable⟩, h⟩ := h
      split at h <;> cases h
      · rename_i held hrun
        exact .append record now held hboot hclosed hwritable hrun
      · rename_i error held hrun
        exact .appendThrew record now error held hboot hrun
  | reserve opIds sweptAt now stamp =>
      simp only [Instance.roomStep, Instance.reserve, Option.ite_none_right_eq_some] at h
      obtain ⟨hboot, h⟩ := h
      split at h
      · rename_i fresh held hrun
        split at h <;> cases h
        · rename_i hfresh
          exact .reserve opIds sweptAt now stamp fresh held hboot hfresh.2 hrun
        · exact .reserveOnly opIds sweptAt now stamp fresh held hboot hrun
      · rename_i error held hrun
        cases h
        exact .reserveThrew opIds sweptAt now stamp error held hboot hrun
  | flushed =>
      simp only [Instance.roomStep, Instance.flushed, Option.map_eq_some_iff,
        Option.ite_none_right_eq_some, Option.some.injEq, Prod.mk.injEq, Bool.not_eq_true'] at h
      obtain ⟨_, ⟨⟨hboot, hlive, hempty⟩, rfl⟩, rfl, rfl⟩ := h
      exact .flushed hboot hlive hempty
  | close =>
      simp only [Instance.roomStep, Instance.close, Option.map_eq_some_iff,
        Option.ite_none_right_eq_some, Option.some.injEq, Prod.mk.injEq] at h
      obtain ⟨_, ⟨hboot, rfl⟩, rfl, rfl⟩ := h
      exact .close hboot
  | stopWal =>
      simp only [Instance.roomStep, Instance.stopWal, Option.map_eq_some_iff,
        Option.ite_none_right_eq_some, Option.some.injEq, Prod.mk.injEq] at h
      obtain ⟨_, ⟨hclosed, rfl⟩, rfl, rfl⟩ := h
      exact .stopWal hclosed
  | stop =>
      simp only [Instance.roomStep, Instance.stop, Option.map_eq_some_iff,
        Option.ite_none_right_eq_some, Option.some.injEq, Prod.mk.injEq] at h
      obtain ⟨_, ⟨hstopped, rfl⟩, rfl, rfl⟩ := h
      exact .stop hstopped
  | dispose =>
      simp only [Instance.roomStep, Instance.dispose, Option.map_eq_some_iff,
        Option.ite_none_right_eq_some] at h
      obtain ⟨_, ⟨hstopped, h⟩, heq⟩ := h
      cases heq
      split at h <;> cases h
      · rename_i held hrun
        exact .dispose held hstopped hrun
      · rename_i error held hrun
        exact .disposeThrew error held hstopped hrun

/-! ## Conditional PUTs -/

/-- A PUT that the store carries out names the latest version, and one that it refuses another. -/
theorem Outcome.settle_eq {outcome : Outcome} {ifMatch tip : Nat} {wrote : Bool} {reply : Reply}
    (h : outcome.settle ifMatch tip = some (wrote, reply)) :
    (wrote = true ∧ ifMatch = tip ∧ (∀ tag, reply = .ok tag → tag = tip + 1) ∧
        (reply = .conflict → outcome = .retried) ∧ (reply = .failed → outcome = .lost)) ∨
      (wrote = false ∧ (∀ tag, reply ≠ .ok tag) ∧ (reply = .conflict → ifMatch ≠ tip)) := by
  cases outcome <;>
    simp only [settle, Option.ite_none_right_eq_some, Option.some.injEq, Prod.mk.injEq] at h
  · obtain ⟨hmatch, rfl, rfl⟩ := h
    exact .inl ⟨rfl, hmatch, fun tag htag => (Reply.ok.inj htag).symm, fun hc => (by cases hc),
      fun hf => by cases hf⟩
  · obtain ⟨hmatch, rfl, rfl⟩ := h
    exact .inr ⟨rfl, fun tag htag => by (cases htag), fun _ => hmatch⟩
  · obtain ⟨rfl, rfl⟩ := h
    exact .inr ⟨rfl, fun tag htag => (by cases htag), fun hc => by cases hc⟩
  · obtain ⟨hmatch, rfl, rfl⟩ := h
    exact .inl ⟨rfl, hmatch, fun tag htag => (by cases htag), fun hc => (by cases hc), fun _ => rfl⟩
  · obtain ⟨hmatch, rfl, rfl⟩ := h
    exact .inl ⟨rfl, hmatch, fun tag htag => (by cases htag), fun _ => rfl, fun hf => by cases hf⟩

/-! ## The lease -/

inductive LeaseStep (cfg : Config ι) (i : ι) (leases : List (StoredLease ι)) (l : LeaseSide) :
    LeaseAct → List (StoredLease ι) → LeaseSide → Prop
  | get (hmode : cfg.mode = .singleWriter) (hheld : l.held = false) (hfenced : l.fenced = false) :
      LeaseStep cfg i leases l .get leases
        { l with calls := l.calls ++ [.got leases.length (leaseAt leases leases.length)] }
  | blocked (call now tag : Nat) (record : LeaseRecord)
      (hcall : l.calls[call]? = some (.got tag record)) :
      LeaseStep cfg i leases l (.decide call now) leases (l.done call)
  | decide (call now tag : Nat) (record : LeaseRecord)
      (hcall : l.calls[call]? = some (.got tag record)) :
      LeaseStep cfg i leases l (.decide call now) leases
        { l with calls := l.calls.set call (.issued .acquire tag (l.request cfg i record now)) }
  | put (call : Nat) (outcome : Outcome) (kind : LeaseKind) (ifMatch : Nat) (next : LeaseRecord)
      (reply : Reply) (hcall : l.calls[call]? = some (.issued kind ifMatch next))
      (hmatch : ifMatch = leases.length)
      (hreply : ∀ tag, reply = .ok tag → tag = leases.length + 1)
      (hconflict : reply = .conflict → outcome = .retried) :
      LeaseStep cfg i leases l (.put call outcome) (leases ++ [⟨next, i⟩])
        { l with calls := l.calls.set call (.replied kind next reply) }
  | refuse (call : Nat) (outcome : Outcome) (kind : LeaseKind) (ifMatch : Nat) (next : LeaseRecord)
      (reply : Reply) (hcall : l.calls[call]? = some (.issued kind ifMatch next))
      (hreply : ∀ tag, reply ≠ .ok tag)
      (hconflict : reply = .conflict → ifMatch ≠ leases.length) :
      LeaseStep cfg i leases l (.put call outcome) leases
        { l with calls := l.calls.set call (.replied kind next reply) }
  | answer (call now : Nat) (kind : LeaseKind) (next : LeaseRecord) (reply : Reply)
      (hcall : l.calls[call]? = some (.replied kind next reply)) :
      LeaseStep cfg i leases l (.answer call now) leases
        ((l.done call).answered next now kind reply)
  | renew (now : Nat) (hheld : l.held) (hfenced : l.fenced = false) (hstopped : l.stopped = false) :
      LeaseStep cfg i leases l (.tick now) leases
        { l with calls :=
          l.calls ++ [.issued .renew l.tag ⟨cfg.writerId i, l.epoch, now + cfg.ttlMs⟩] }
  | lapse (now : Nat) : LeaseStep cfg i leases l (.tick now) leases { l with held := false }
  | release (hheld : l.held) (hstopped : l.stopped) :
      LeaseStep cfg i leases l .release leases
        { l with held := false, calls := l.calls ++ [.issued .release l.tag ⟨[], l.epoch, 0⟩] }

theorem LeaseStep.of_eq {leases leases' : List (StoredLease ι)} {l l' : LeaseSide} {a : LeaseAct}
    (h : l.perform cfg i leases a = some (leases', l')) :
    LeaseStep cfg i leases l a leases' l' := by
  cases a with
  | get =>
      simp only [LeaseSide.perform, LeaseSide.get, Option.map_eq_some_iff,
        Option.ite_none_right_eq_some, Option.some.injEq, Prod.mk.injEq, Bool.not_eq_true'] at h
      obtain ⟨_, ⟨⟨hmode, hheld, hfenced⟩, rfl⟩, rfl, rfl⟩ := h
      exact .get hmode hheld hfenced
  | decide call now =>
      simp only [LeaseSide.perform, LeaseSide.decide, Option.map_eq_some_iff] at h
      obtain ⟨_, h, hl⟩ := h
      cases hl
      split at h <;> try contradiction
      rename_i tag record hcall
      split at h <;> cases h
      · exact .blocked call now tag record hcall
      · exact .decide call now tag record hcall
  | put call outcome =>
      simp only [LeaseSide.perform, LeaseSide.put] at h
      split at h <;> try contradiction
      rename_i kind ifMatch next hcall
      obtain ⟨⟨wrote, reply⟩, hsettle, h⟩ := Option.map_eq_some_iff.1 h
      cases h
      rcases Outcome.settle_eq hsettle with
        ⟨rfl, hmatch, hreply, hconflict, -⟩ | ⟨rfl, hreply, hconflict⟩
      · exact .put call outcome kind ifMatch next reply hcall hmatch hreply hconflict
      · exact .refuse call outcome kind ifMatch next reply hcall hreply hconflict
  | answer call now =>
      simp only [LeaseSide.perform, LeaseSide.answer, Option.map_eq_some_iff] at h
      obtain ⟨_, h, hl⟩ := h
      cases hl
      split at h <;> try contradiction
      rename_i kind next reply hcall
      cases h
      exact .answer call now kind next reply hcall
  | tick now =>
      simp only [LeaseSide.perform, LeaseSide.tick, Option.map_eq_some_iff,
        Option.ite_none_right_eq_some, Bool.not_eq_true'] at h
      obtain ⟨_, ⟨⟨hheld, hfenced, hstopped⟩, h⟩, hl⟩ := h
      cases hl
      split at h <;> cases h
      · exact .lapse now
      · exact .renew now hheld hfenced hstopped
  | release =>
      simp only [LeaseSide.perform, LeaseSide.release, Option.map_eq_some_iff,
        Option.ite_none_right_eq_some, Option.some.injEq, Prod.mk.injEq] at h
      obtain ⟨_, ⟨⟨hstopped, hheld, _⟩, rfl⟩, rfl, rfl⟩ := h
      exact .release hheld hstopped

/-! ## The flush loop -/

inductive LoopStep (cfg : Config ι) (i : ι) (st : Store ι) (n : Instance) :
    LoopAct → Store ι → Instance → Prop
  | ensure (hboot : n.room.boot = .ready) (hlive : n.loop.terminal = false)
      (hbuffer : n.loop.buffer ≠ []) (hheld : cfg.mode = .optimistic ∨ n.lease.held)
      (htask : n.loop.task = .idle) :
      LoopStep cfg i st n .ensure st (n.withTask .ensured)
  | fail (hmode : cfg.mode = .singleWriter) (hbuffer : n.loop.buffer ≠ [])
      (htask : n.loop.task = .idle) :
      LoopStep cfg i st n .fail st n.failLoop
  | flush (htask : n.loop.task = .ensured) :
      LoopStep cfg i st n .flush
        { st with allocated := st.allocated ++ [((n.nextRef cfg i).key, i)] }
        { n with loop := { n.loop with
            names := { n.loop.names with seq := n.nextSeq + 1, seqEpoch := some n.lease.epoch }
            task := .segment (n.nextRef cfg i) (n.nextBatch cfg) } }
  | putSegment (ref : WalSegmentRef) (batch : List Entry)
      (htask : n.loop.task = .segment ref batch) :
      LoopStep cfg i st n (.putSegment .ok) (st.upload ref.key (.segment batch))
        (n.enqueue (.append ref batch))
  | lostSegment (ref : WalSegmentRef) (batch : List Entry)
      (htask : n.loop.task = .segment ref batch) :
      LoopStep cfg i st n (.putSegment .lost) (st.upload ref.key (.segment batch))
        (n.withTask .idle)
  | failedSegment (ref : WalSegmentRef) (batch : List Entry)
      (htask : n.loop.task = .segment ref batch) :
      LoopStep cfg i st n (.putSegment .failed) st (n.withTask .idle)
  | skip (htask : n.loop.task = .maintain) : LoopStep cfg i st n .skip st (n.withTask .garbage)
  | compact (now : Nat) (htask : n.loop.task = .maintain) :
      LoopStep cfg i st n (.compact now)
        { st with allocated := st.allocated ++ [(n.nextSnapshot cfg i, i)] }
        { n with loop := { n.loop with
            names := { n.loop.names with snapshotSeq := n.loop.names.snapshotSeq + 1 }
            task :=
              .snapshot (n.nextSnapshot cfg i) (n.room.held.room.toSnapshot now) n.room.log } }
  | putSnapshot (now : Nat) (key : ObjectKey) (record : SnapshotRecord) (log : List Entry)
      (htask : n.loop.task = .snapshot key record log) :
      LoopStep cfg i st n (.putSnapshot now .ok) (st.upload key (.snapshot record log))
        (n.enqueue (.compact key record.hlc (now + cfg.gcGraceMs) log))
  | lostSnapshot (now : Nat) (key : ObjectKey) (record : SnapshotRecord) (log : List Entry)
      (htask : n.loop.task = .snapshot key record log) :
      LoopStep cfg i st n (.putSnapshot now .lost) (st.upload key (.snapshot record log))
        (n.withTask .idle)
  | failedSnapshot (now : Nat) (key : ObjectKey) (record : SnapshotRecord) (log : List Entry)
      (htask : n.loop.task = .snapshot key record log) :
      LoopStep cfg i st n (.putSnapshot now .failed) st (n.withTask .idle)
  | nothingDue (now : Nat) (htask : n.loop.task = .garbage) :
      LoopStep cfg i st n (.collect now) st (n.withTask .idle)
  | collect (now : Nat) (htask : n.loop.task = .garbage)
      (hnone : n.commit.cached.deletable now = []) :
      LoopStep cfg i st n (.collect now) st (n.enqueue (.collect now))
  | startDelete (now : Nat) (htask : n.loop.task = .garbage) :
      LoopStep cfg i st n (.collect now) st
        (n.withTask (.deleting (n.commit.cached.deletable now) now))
  | delete (done keys : List ObjectKey) (now : Nat) (htask : n.loop.task = .deleting keys now)
      (hdone : done ⊆ keys) :
      LoopStep cfg i st n (.delete done true) (st.remove done) (n.enqueue (.collect now))
  | deleteThrew (done keys : List ObjectKey) (now : Nat)
      (htask : n.loop.task = .deleting keys now) (hdone : done ⊆ keys) :
      LoopStep cfg i st n (.delete done false) (st.remove done) (n.withTask .idle)

theorem LoopStep.of_eq {a : LoopAct} (h : n.loopStep cfg i st a = some (st', n')) :
    LoopStep cfg i st n a st' n' := by
  cases a with
  | ensure =>
      simp only [Instance.loopStep, Instance.ensure, Option.map_eq_some_iff,
        Option.ite_none_right_eq_some, Bool.not_eq_true'] at h
      obtain ⟨_, ⟨⟨hboot, hlive, hbuffer, hheld⟩, h⟩, hst⟩ := h
      cases htask : n.loop.task <;> simp only [htask, reduceCtorEq] at h
      cases h
      cases hst
      exact .ensure hboot hlive hbuffer hheld htask
  | fail =>
      simp only [Instance.loopStep, Instance.fail, Option.map_eq_some_iff,
        Option.ite_none_right_eq_some, Bool.not_eq_true'] at h
      obtain ⟨_, ⟨⟨hmode, _, hbuffer⟩, h⟩, hst⟩ := h
      cases htask : n.loop.task <;> simp only [htask, reduceCtorEq] at h
      cases h
      cases hst
      exact .fail hmode hbuffer htask
  | flush =>
      cases htask : n.loop.task <;>
        simp only [Instance.loopStep, Instance.flush, htask, reduceCtorEq] at h
      cases h
      exact .flush htask
  | putSegment outcome =>
      cases htask : n.loop.task <;>
        simp only [Instance.loopStep, Instance.putSegment, htask, reduceCtorEq] at h
      rename_i ref batch
      cases outcome <;> simp only [reduceCtorEq] at h <;> cases h
      · exact .putSegment ref batch htask
      · exact .failedSegment ref batch htask
      · exact .lostSegment ref batch htask
  | skip =>
      simp only [Instance.loopStep, Instance.skip, Option.map_eq_some_iff] at h
      obtain ⟨_, h, hst⟩ := h
      cases hst
      cases htask : n.loop.task <;> simp only [htask, reduceCtorEq] at h
      split at h <;> cases h
      exact .skip htask
  | compact now =>
      cases htask : n.loop.task <;>
        simp only [Instance.loopStep, Instance.compact, htask, reduceCtorEq] at h
      split at h <;> cases h
      exact .compact now htask
  | putSnapshot now outcome =>
      cases htask : n.loop.task <;>
        simp only [Instance.loopStep, Instance.putSnapshot, htask, reduceCtorEq] at h
      rename_i key record log
      cases outcome <;> simp only [reduceCtorEq] at h <;> cases h
      · exact .putSnapshot now key record log htask
      · exact .failedSnapshot now key record log htask
      · exact .lostSnapshot now key record log htask
  | collect now =>
      simp only [Instance.loopStep, Instance.collect, Option.map_eq_some_iff] at h
      obtain ⟨_, h, hst⟩ := h
      cases hst
      cases htask : n.loop.task <;> simp only [htask, reduceCtorEq] at h
      split at h
      · cases h
        exact .nothingDue now htask
      · split at h <;> cases h
        · rename_i hnone
          exact .collect now htask hnone
        · exact .startDelete now htask
  | delete done ok =>
      cases htask : n.loop.task <;>
        simp only [Instance.loopStep, Instance.delete, htask, reduceCtorEq] at h
      rename_i keys now
      simp only [Option.ite_none_right_eq_some] at h
      obtain ⟨⟨hdone, _⟩, h⟩ := h
      cases ok <;> cases h
      · exact .deleteThrew done keys now htask hdone
      · exact .delete done keys now htask hdone

/-! ## Commits -/

namespace Instance

section Fields

variable (n) (next cached : ManifestRecord) (tag : Nat) (u : Update) (notWriter : Bool)

@[simp] theorem withPhase_phase (phase : CommitPhase) :
    (n.withPhase phase).commit.phase = phase :=
  rfl

@[simp] theorem resolve_lease : (n.resolve u next cached tag).lease = n.lease := by
  cases u <;> rfl

@[simp] theorem resolve_commit : (n.resolve u next cached tag).commit = { n.commit with
    cached := cached
    cachedTag := tag
    chain := n.commit.chain.tail
    phase := .waiting
    resolved := n.commit.resolved ++ [u] } := by
  cases u <;> rfl

@[simp] theorem resolve_boot : (n.resolve u next cached tag).room.boot = n.room.boot := by
  cases u <;> rfl

@[simp] theorem resolve_bootTag : (n.resolve u next cached tag).room.bootTag = n.room.bootTag := by
  cases u <;> rfl

@[simp] theorem resolve_bootSerial :
    (n.resolve u next cached tag).room.bootSerial = n.room.bootSerial := by
  cases u <;> rfl

@[simp] theorem resolve_log : (n.resolve u next cached tag).room.log = n.room.log := by
  cases u <;> rfl

@[simp] theorem resolve_names : (n.resolve u next cached tag).loop.names = n.loop.names := by
  cases u <;> rfl

@[simp] theorem reject_lease : (n.reject u notWriter).lease = n.lease := by
  cases u <;> cases notWriter <;> rfl

@[simp] theorem reject_commit : (n.reject u notWriter).commit =
    { n.commit with chain := n.commit.chain.tail, phase := .waiting } := by
  cases u <;> cases notWriter <;> rfl

@[simp] theorem reject_room : (n.reject u notWriter).room = n.room := by
  cases u <;> cases notWriter <;> rfl

@[simp] theorem reject_names : (n.reject u notWriter).loop.names = n.loop.names := by
  cases u <;> cases notWriter <;> rfl

end Fields

/-- A commit that returns after its PUT was answered. -/
def committed (cfg : Config ι) (n : Instance) : Instance :=
  if cfg.mode = .singleWriter then n.noteWrite else n

@[simp] theorem committed_commit : (n.committed cfg).commit = n.commit := by
  unfold committed
  split <;> rfl

@[simp] theorem committed_loop : (n.committed cfg).loop = n.loop := by
  unfold committed
  split <;> rfl

@[simp] theorem committed_room : (n.committed cfg).room = n.room := by
  unfold committed
  split <;> rfl

end Instance

inductive CommitStep (cfg : Config ι) (i : ι) (st : Store ι) (n : Instance) :
    CommitAct → Store ι → Instance → Prop
  | setMeta (key value : String) (hboot : n.room.boot = .ready) (hopen : n.room.closed = false) :
      CommitStep cfg i st n (.setMeta key value) st { n with
        room := { n.room with
          held := n.room.held.withMeta (n.room.held.room.meta_.insert key value) }
        commit := { n.commit with chain := n.commit.chain ++ [.setMeta key value] } }
  | startOptimistic (hmode : cfg.mode = .optimistic) (hphase : n.commit.phase = .waiting)
      (hchain : n.commit.chain ≠ []) :
      CommitStep cfg i st n .start st
        { n with commit := { n.commit with phase := .granted, attempt := 1 } }
  | start (hmode : cfg.mode = .singleWriter) (hphase : n.commit.phase = .waiting)
      (hchain : n.commit.chain ≠ []) (hfenced : n.lease.fenced = false)
      (hstopped : n.lease.stopped = false) :
      CommitStep cfg i st n .start st (n.withPhase .started)
  | grant (hphase : n.commit.phase = .started) (hheld : n.lease.held) :
      CommitStep cfg i st n .grant st (n.withPhase .granted)
  | issue (u : Update) (us : List Update) (hphase : n.commit.phase = .granted)
      (hchain : n.commit.chain = u :: us) :
      CommitStep cfg i st n .issue st
        (n.withPhase (.issued n.commit.cachedTag (n.attempts cfg i u)))
  | put (outcome : Outcome) (ifMatch : Nat) (next : ManifestRecord) (u : Update) (us : List Update)
      (reply : Reply) (hphase : n.commit.phase = .issued ifMatch next)
      (hchain : n.commit.chain = u :: us) (hmatch : ifMatch = st.tip)
      (hreply : ∀ tag, reply = .ok tag → tag = st.tip + 1)
      (hconflict : reply = .conflict → outcome = .retried)
      (hfailed : reply = .failed → outcome = .lost) :
      CommitStep cfg i st n (.put outcome) (st.publish i next u)
        (n.withPhase (.replied next reply))
  | putRefused (outcome : Outcome) (ifMatch : Nat) (next : ManifestRecord) (u : Update)
      (us : List Update) (reply : Reply) (hphase : n.commit.phase = .issued ifMatch next)
      (hchain : n.commit.chain = u :: us) (hreply : ∀ tag, reply ≠ .ok tag)
      (hconflict : reply = .conflict → ifMatch ≠ st.tip) :
      CommitStep cfg i st n (.put outcome) st (n.withPhase (.replied next reply))
  | answer (next : ManifestRecord) (tag : Nat) (u : Update) (us : List Update)
      (hphase : n.commit.phase = .replied next (.ok tag)) (hchain : n.commit.chain = u :: us) :
      CommitStep cfg i st n .answer st ((n.committed cfg).resolve u next next tag)
  | answerConflict (next : ManifestRecord) (u : Update) (us : List Update)
      (hphase : n.commit.phase = .replied next .conflict) (hchain : n.commit.chain = u :: us) :
      CommitStep cfg i st n .answer st (n.withPhase (.conflicted next))
  | answerFailed (next : ManifestRecord) (u : Update) (us : List Update)
      (hphase : n.commit.phase = .replied next .failed) (hchain : n.commit.chain = u :: us) :
      CommitStep cfg i st n .answer st (n.reject u false)
  | readBack (ok : Bool) (next : ManifestRecord) (hphase : n.commit.phase = .conflicted next) :
      CommitStep cfg i st n (.readBack ok) st
        (n.withPhase (.found next (if ok then some st.tip else none)))
  | adopt (tag : Nat) (next : ManifestRecord) (u : Update) (us : List Update)
      (hphase : n.commit.phase = .found next (some tag)) (hchain : n.commit.chain = u :: us)
      (htag : tag ≠ 0) (hown : IsOwnCommit (cfg.writerId i) next (manifestAt st.versions tag)) :
      CommitStep cfg i st n .judge st
        (n.noteWrite.resolve u next (manifestAt st.versions tag) tag)
  | fence (tag : Option Nat) (next : ManifestRecord) (u : Update) (us : List Update)
      (hphase : n.commit.phase = .found next tag) (hchain : n.commit.chain = u :: us)
      (hmode : cfg.mode = .singleWriter)
      (hadopts : Instance.adopts cfg i st.versions next tag = false) :
      CommitStep cfg i st n .judge st ({ n with lease := n.lease.fence }.reject u true)
  | giveUp (tag : Option Nat) (next : ManifestRecord) (u : Update) (us : List Update)
      (hphase : n.commit.phase = .found next tag) (hchain : n.commit.chain = u :: us)
      (hmode : cfg.mode = .optimistic) :
      CommitStep cfg i st n .judge st (n.reject u false)
  | retry (tag : Option Nat) (next : ManifestRecord) (u : Update) (us : List Update)
      (hphase : n.commit.phase = .found next tag) (hchain : n.commit.chain = u :: us)
      (hmode : cfg.mode = .optimistic)
      (hadopts : Instance.adopts cfg i st.versions next tag = false) :
      CommitStep cfg i st n .judge st (n.withPhase .reloading)
  | reload (hphase : n.commit.phase = .reloading) :
      CommitStep cfg i st n .reload st (n.withPhase (.reloaded st.tip))
  | reloaded (tag : Nat) (hphase : n.commit.phase = .reloaded tag) :
      CommitStep cfg i st n .reloaded st { n with
        lease := n.lease.inherit (manifestAt st.versions tag)
        commit := { n.commit with
          cached := manifestAt st.versions tag
          cachedTag := tag
          phase := .granted
          attempt := n.commit.attempt + 1 } }
  | refuse (notWriter : Bool) (u : Update) (us : List Update) (hchain : n.commit.chain = u :: us)
      (hrefuses : n.refuses cfg notWriter) :
      CommitStep cfg i st n (.refuse notWriter) st (n.reject u notWriter)

theorem CommitStep.of_eq {a : CommitAct} (h : n.commitStep cfg i st a = some (st', n')) :
    CommitStep cfg i st n a st' n' := by
  cases a with
  | setMeta key value =>
      simp only [Instance.commitStep, Instance.setMeta, Option.map_eq_some_iff,
        Option.ite_none_right_eq_some, Option.some.injEq, Prod.mk.injEq, Bool.not_eq_true'] at h
      obtain ⟨_, ⟨⟨hboot, hopen⟩, rfl⟩, rfl, rfl⟩ := h
      exact .setMeta key value hboot hopen
  | start =>
      simp only [Instance.commitStep, Instance.commitStart, Option.map_eq_some_iff,
        Option.ite_none_right_eq_some] at h
      obtain ⟨_, ⟨⟨hphase, hchain⟩, h⟩, hst⟩ := h
      cases hst
      cases hmode : cfg.mode with
      | optimistic =>
          simp only [hmode, Option.some.injEq] at h
          subst h
          exact .startOptimistic hmode hphase hchain
      | singleWriter =>
          simp only [hmode, Option.ite_none_right_eq_some, Option.some.injEq,
            Bool.not_eq_true'] at h
          obtain ⟨⟨hfenced, hstopped⟩, rfl⟩ := h
          exact .start hmode hphase hchain hfenced hstopped
  | grant =>
      simp only [Instance.commitStep, Instance.commitGrant, Option.map_eq_some_iff,
        Option.ite_none_right_eq_some, Option.some.injEq, Prod.mk.injEq] at h
      obtain ⟨_, ⟨⟨hphase, hheld⟩, rfl⟩, rfl, rfl⟩ := h
      exact .grant hphase hheld
  | issue =>
      simp only [Instance.commitStep, Instance.commitIssue, Option.map_eq_some_iff] at h
      obtain ⟨_, h, hst⟩ := h
      cases hst
      split at h <;> cases h
      rename_i u us hphase hchain
      exact .issue u us hphase hchain
  | put outcome =>
      simp only [Instance.commitStep, Instance.commitPut] at h
      split at h <;> try contradiction
      rename_i ifMatch next u us hphase hchain
      obtain ⟨⟨wrote, reply⟩, hsettle, h⟩ := Option.map_eq_some_iff.1 h
      cases h
      rcases Outcome.settle_eq hsettle with
        ⟨rfl, hmatch, hreply, hconflict, hfailed⟩ | ⟨rfl, hreply, hconflict⟩
      · exact .put outcome ifMatch next u us reply hphase hchain hmatch hreply hconflict hfailed
      · exact .putRefused outcome ifMatch next u us reply hphase hchain hreply hconflict
  | answer =>
      simp only [Instance.commitStep, Instance.commitAnswer, Option.map_eq_some_iff] at h
      obtain ⟨_, h, hst⟩ := h
      cases hst
      split at h
      · rename_i next tag u us hphase hchain
        have hstep : CommitStep cfg i st n .answer st ((n.committed cfg).resolve u next next tag) :=
          .answer next tag u us hphase hchain
        cases hmode : cfg.mode <;> simp only [hmode, Option.some.injEq] at h <;> subst h <;>
          simpa [Instance.committed, hmode] using hstep
      · rename_i next u us hphase hchain
        cases h
        exact .answerConflict next u us hphase hchain
      · rename_i next u us hphase hchain
        cases h
        exact .answerFailed next u us hphase hchain
      · cases h
  | readBack ok =>
      simp only [Instance.commitStep, Instance.readBack, Option.map_eq_some_iff] at h
      obtain ⟨_, h, hst⟩ := h
      cases hst
      split at h <;> cases h
      rename_i next hphase
      exact .readBack ok next hphase
  | judge =>
      simp only [Instance.commitStep, Instance.judge, Option.map_eq_some_iff] at h
      obtain ⟨_, h, hst⟩ := h
      cases hst
      split at h <;> try contradiction
      rename_i next tag u us hphase hchain
      split at h
      · rename_i hadopts
        cases h
        cases tag with
        | none => cases hadopts
        | some tag =>
            simp only [Instance.adopts, Bool.and_eq_true, decide_eq_true_eq] at hadopts
            exact .adopt tag next u us hphase hchain hadopts.1 hadopts.2
      · rename_i hadopts
        have hnot : Instance.adopts cfg i st.versions next tag = false := by simpa using hadopts
        cases hmode : cfg.mode with
        | singleWriter =>
            simp only [hmode, Option.some.injEq] at h
            subst h
            exact .fence tag next u us hphase hchain hmode hnot
        | optimistic =>
            simp only [hmode] at h
            split at h <;> cases h
            · exact .giveUp tag next u us hphase hchain hmode
            · exact .retry tag next u us hphase hchain hmode hnot
  | reload =>
      simp only [Instance.commitStep, Instance.reload, Option.map_eq_some_iff,
        Option.ite_none_right_eq_some, Option.some.injEq, Prod.mk.injEq] at h
      obtain ⟨_, ⟨hphase, rfl⟩, rfl, rfl⟩ := h
      exact .reload hphase
  | reloaded =>
      simp only [Instance.commitStep, Instance.reloaded, Option.map_eq_some_iff] at h
      obtain ⟨_, h, hst⟩ := h
      cases hst
      split at h <;> cases h
      rename_i tag hphase
      exact .reloaded tag hphase
  | refuse notWriter =>
      simp only [Instance.commitStep, Instance.refuse, Option.map_eq_some_iff] at h
      obtain ⟨_, h, hst⟩ := h
      cases hst
      cases hchain : n.commit.chain with
      | nil => simp [hchain] at h
      | cons u us =>
          simp only [hchain, Option.ite_none_right_eq_some, Option.some.injEq] at h
          obtain ⟨hrefuses, rfl⟩ := h
          exact .refuse notWriter u us hchain hrefuses

/-! ## Refreshes -/

inductive RefreshStep (cfg : Config ι) (i : ι) (st : Store ι) (n : Instance) :
    RefreshAct → Instance → Prop
  | get (hmode : cfg.mode = .optimistic) (hboot : n.room.boot = .ready) :
      RefreshStep cfg i st n .get { n with room := { n.room with
        refreshes := n.room.refreshes ++ [.got st.tip] } }
  | answer (call tag : Nat) (next : Refresh)
      (hcall : n.room.refreshes[call]? = some (.got tag))
      (hnext : next = if n.movedTo (n.adopt st tag).commit.cached
        then .loading (n.adopt st tag).commit.cached
        else .applying (n.adopt st tag).commit.cached false false
          (n.adopt st tag).commit.cached.segments) :
      RefreshStep cfg i st n (.answer call) ((n.adopt st tag).withRefresh call next)
  | load (call now : Nat) (m : ManifestRecord) (key : ObjectKey) (record : SnapshotRecord)
      (log : List Entry) (held : Held) (hcall : n.room.refreshes[call]? = some (.loading m))
      (hkey : m.snapshotKey = some key) (hsnap : snapshotOf st.objects key = some (record, log))
      (hrun : (loadSnapshot cfg.sizes record now).run n.room.held = .ok () held) :
      RefreshStep cfg i st n (.load call now)
        (Instance.withRefresh
          { n with room := { n.room with
            held := held.withMeta m.meta_
            log := log
            appliedSnapshotKey := m.snapshotKey
            appliedSegments := [] } } call (.applying m true true m.segments))
  | loadThrew (call now : Nat) (record : SnapshotRecord) (error : MemoryError) (held : Held)
      (hrun : (loadSnapshot cfg.sizes record now).run n.room.held = .error error held) :
      RefreshStep cfg i st n (.load call now) ((n.withHeld held).dropRefresh call)
  | pass (call now : Nat) (m : ManifestRecord) (moved : Bool) (key : ObjectKey)
      (todo : List ObjectKey)
      (hcall : n.room.refreshes[call]? = some (.applying m false moved (key :: todo)))
      (hskips : n.skips cfg i key) :
      RefreshStep cfg i st n (.segment call now)
        (n.withRefresh call (.applying m false moved todo))
  | segment (call now : Nat) (m : ManifestRecord) (all moved : Bool) (key : ObjectKey)
      (todo : List ObjectKey) (lines : List Entry) (held : Held)
      (hcall : n.room.refreshes[call]? = some (.applying m all moved (key :: todo)))
      (hall : all = false → n.skips cfg i key = false)
      (hlines : segmentLines st.objects key = some lines)
      (hrun : (applyLines cfg.sizes lines now).run n.room.held = .ok () held) :
      RefreshStep cfg i st n (.segment call now)
        (Instance.withRefresh
          { n with room := { n.room with
            held := held
            log := n.room.log ++ lines
            appliedSegments := n.room.appliedSegments ++ [key] } } call
          (.applying m all true todo))
  | segmentThrew (call now : Nat) (lines : List Entry) (error : MemoryError) (held : Held)
      (hrun : (applyLines cfg.sizes lines now).run n.room.held = .error error held) :
      RefreshStep cfg i st n (.segment call now) ((n.withHeld held).dropRefresh call)
  | doneMoved (call : Nat) (m : ManifestRecord)
      (hcall : n.room.refreshes[call]? = some (.applying m false true [])) :
      RefreshStep cfg i st n (.done call)
        ((n.withHeld (n.room.held.withMeta m.meta_)).dropRefresh call)
  | done (call : Nat) : RefreshStep cfg i st n (.done call) (n.dropRefresh call)
  | throw (call : Nat) : RefreshStep cfg i st n (.throw call) (n.dropRefresh call)

namespace Instance

@[simp] theorem adopt_room (tag : Nat) : (n.adopt st tag).room = n.room := by
  simp only [adopt]
  split <;> rfl

@[simp] theorem adopt_loop (tag : Nat) : (n.adopt st tag).loop = n.loop := by
  simp only [adopt]
  split <;> rfl

@[simp] theorem adopt_lease (tag : Nat) : (n.adopt st tag).lease = n.lease := by
  simp only [adopt]
  split <;> rfl

theorem adopt_commit (st : Store ι) (n : Instance) (tag : Nat) :
    (n.adopt st tag).commit = n.commit ∨
    tag ≠ 0 ∧ (n.adopt st tag).commit =
      { n.commit with cached := manifestAt st.versions tag, cachedTag := tag } := by
  simp only [adopt]
  split
  · exact .inl rfl
  · rename_i htag
    exact .inr ⟨htag, rfl⟩

@[simp] theorem movedTo_adopt (tag : Nat) (m : ManifestRecord) :
    (n.adopt st tag).movedTo m = n.movedTo m := by
  simp [movedTo]

end Instance

theorem RefreshStep.of_eq {a : RefreshAct} (h : n.refreshStep cfg i st a = some n') :
    RefreshStep cfg i st n a n' := by
  cases a with
  | get =>
      simp only [Instance.refreshStep, Instance.refreshGet, Option.ite_none_right_eq_some,
        Option.some.injEq] at h
      obtain ⟨⟨hmode, hboot⟩, rfl⟩ := h
      exact .get hmode hboot
  | answer call =>
      simp only [Instance.refreshStep, Instance.refreshAnswer, Instance.movedTo_adopt] at h
      split at h <;> try contradiction
      rename_i tag hcall
      have hstep : RefreshStep cfg i st n (.answer call) _ := .answer call tag _ hcall rfl
      split at h <;> cases h <;> rename_i hmoved <;> simpa [hmoved] using hstep
  | load call now =>
      simp only [Instance.refreshStep, Instance.refreshLoad] at h
      split at h <;> try contradiction
      rename_i m hcall
      obtain ⟨⟨record, log⟩, hsnap, h⟩ := Option.map_eq_some_iff.1 h
      obtain ⟨key, hkey, hsnap⟩ := Option.bind_eq_some_iff.1 hsnap
      split at h <;> subst h
      · rename_i held hrun
        exact .load call now m key record log held hcall hkey hsnap hrun
      · rename_i error held hrun
        exact .loadThrew call now record error held hrun
  | segment call now =>
      simp only [Instance.refreshStep, Instance.refreshSegment] at h
      split at h <;> try contradiction
      rename_i m all moved key todo hcall
      split at h
      · rename_i hskips
        cases h
        simp only [Bool.and_eq_true, Bool.not_eq_true'] at hskips
        obtain ⟨rfl, hskips⟩ := hskips
        exact .pass call now m moved key todo hcall hskips
      · rename_i hskips
        obtain ⟨lines, hlines, h⟩ := Option.map_eq_some_iff.1 h
        have hall : all = false → n.skips cfg i key = false := by
          intro hall
          simpa [hall] using hskips
        split at h <;> subst h
        · rename_i held hrun
          exact .segment call now m all moved key todo lines held hcall hall hlines hrun
        · rename_i error held hrun
          exact .segmentThrew call now lines error held hrun
  | done call =>
      simp only [Instance.refreshStep, Instance.refreshDone] at h
      split at h <;> try contradiction
      rename_i m all moved hcall
      split at h <;> cases h
      · rename_i hmoved
        obtain ⟨hall, rfl⟩ := hmoved
        cases all
        · exact .doneMoved call m hcall
        · cases hall
      · exact .done call
  | throw call =>
      simp only [Instance.refreshStep, Instance.refreshThrow, Option.ite_none_right_eq_some,
        Option.some.injEq] at h
      obtain ⟨_, rfl⟩ := h
      exact .throw call

/-! ## All steps -/

/-- A step of an instance, by its group. -/
inductive Step (cfg : Config ι) (i : ι) (st : Store ι) (n : Instance) :
    Act → Store ι → Instance → Prop
  | room {a : RoomAct} {st' : Store ι} {n' : Instance} (h : RoomStep cfg st n a st' n') :
      Step cfg i st n (.room a) st' n'
  | lease {a : LeaseAct} {leases' : List (StoredLease ι)} {l' : LeaseSide}
      (hboot : n.room.boot = .replayed ∨ n.room.boot = .ready)
      (h : LeaseStep cfg i st.leases n.lease a leases' l') :
      Step cfg i st n (.lease a) { st with leases := leases' } { n with lease := l' }
  | loop {a : LoopAct} {st' : Store ι} {n' : Instance} (h : LoopStep cfg i st n a st' n') :
      Step cfg i st n (.loop a) st' n'
  | commit {a : CommitAct} {st' : Store ι} {n' : Instance} (h : CommitStep cfg i st n a st' n') :
      Step cfg i st n (.commit a) st' n'
  | refresh {a : RefreshAct} {n' : Instance} (h : RefreshStep cfg i st n a n') :
      Step cfg i st n (.refresh a) st n'

theorem Step.of_eq {a : Act} (h : n.perform cfg i st a = some (st', n')) :
    Step cfg i st n a st' n' := by
  cases a with
  | room a => exact .room (.of_eq h)
  | lease a =>
      simp only [Instance.perform, Instance.leaseStep, Option.ite_none_right_eq_some,
        Option.map_eq_some_iff] at h
      obtain ⟨hboot, r, h, hr⟩ := h
      cases hr
      exact .lease hboot (.of_eq h)
  | loop a => exact .loop (.of_eq h)
  | commit a => exact .commit (.of_eq h)
  | refresh a =>
      simp only [Instance.perform, Option.map_eq_some_iff] at h
      obtain ⟨_, h, hst⟩ := h
      cases hst
      exact .refresh (.of_eq h)

/-! ## Runs -/

/-- A condition on the steps of an instance. -/
abbrev Guard (ι : Type) : Type :=
  ι → Store ι → Instance → Act → Prop

/-- The states of the runs whose steps meet the guard. -/
abbrev FleetReach [DecidableEq ι] (cfg : Config ι) (G : Guard ι) : FleetState ι → Prop :=
  (fleetMachine cfg).Reach (Parties.guard G)

/-- The invariant rule for the instances of a room; `K` is an invariant that is known already. -/
theorem FleetReach.invariant [DecidableEq ι] {G : Guard ι} {K : FleetState ι → Prop}
    {S : Store ι → Prop} {I : ι → Store ι → Instance → Prop}
    (hknown : ∀ {s}, FleetReach cfg G s → K s) (hstore : S .start)
    (hstart : ∀ i, I i .start (.start cfg.memory))
    (hown : ∀ {s : FleetState ι} {i : ι} {a : Act} {st' : Store ι} {n' : Instance}, K s →
      s.All S I → G i s.shared (s.locals i) a → Step cfg i s.shared (s.locals i) a st' n' →
        S st' ∧ I i st' n')
    (hothers : ∀ {s : FleetState ι} {i : ι} {a : Act} {st' : Store ι} {n' : Instance}, K s →
      s.All S I → G i s.shared (s.locals i) a → Step cfg i s.shared (s.locals i) a st' n' →
        ∀ j, j ≠ i → I j st' (s.locals j))
    {s : FleetState ι} (h : FleetReach cfg G s) : s.All S I :=
  Machine.Reach.parties hknown hstore hstart
    (fun hk hall hg hact => hown hk hall hg (.of_eq hact))
    (fun hk hall hg hact => hothers hk hall hg (.of_eq hact)) h

end Fleet
end ObjectStorage
end Reflectdb
