import Reflectdb.ObjectStorage.Fleet.Takeover

/-!
# Flush — the flush loop and the chain of commits

The loop queues one commit and waits for it; the other commits of an instance are those of
`setMeta`. A batch is what the buffer begins with until its commit returns.
-/

namespace Reflectdb
namespace ObjectStorage
namespace Fleet

open Core Client Lib

variable {ι : Type} {cfg : Config ι} {i j : ι} {st st' : Store ι} {n n' : Instance}

/-- The commits of the flush loop. -/
def Update.ofLoop : Update → Bool
  | .setMeta _ _ => false
  | _ => true

/-- The batch of an upload or of a commit that waits. -/
def Instance.Flushing (n : Instance) (ref : WalSegmentRef) (batch : List Entry) : Prop :=
  n.loop.task = .segment ref batch ∨ .append ref batch ∈ n.commit.chain

structure LoopOk (n : Instance) : Prop where
  waits : (n.loop.task = .commit ∧ ∃ u, n.commit.chain.filter Update.ofLoop = [u]) ∨
    (n.loop.task ≠ .commit ∧ n.commit.chain.filter Update.ofLoop = [])
  batch : ∀ ref batch, n.Flushing ref batch → batch <+: n.loop.buffer
  buffer : n.loop.buffer <:+ n.loop.appended

/-! ## The chain -/

section Chain

variable {chain us : List Update} {u : Update}

theorem filter_ofLoop_of_cons {v : Update} (hu : u.ofLoop)
    (h : (u :: us).filter Update.ofLoop = [v]) : u = v ∧ us.filter Update.ofLoop = [] := by
  rw [List.filter_cons_of_pos hu] at h
  exact List.cons_eq_cons.1 h

theorem append_not_mem_of_filter {ref : WalSegmentRef} {batch : List Entry}
    (h : chain.filter Update.ofLoop = []) : .append ref batch ∉ chain :=
  fun hmem => List.filter_eq_nil_iff.1 h _ hmem rfl

/-- The loop waits for a commit of its own. -/
theorem LoopOk.waiting (h : LoopOk n) (hmem : u ∈ n.commit.chain) (hu : u.ofLoop) :
    n.loop.task = .commit := by
  rcases h.waits with ⟨htask, -⟩ | ⟨-, hnone⟩
  · exact htask
  · exact absurd hu (List.filter_eq_nil_iff.1 hnone u hmem)

/-- The rest of the chain, once the commit at its head is over. -/
theorem LoopOk.rest (h : LoopOk n) (hchain : n.commit.chain = u :: us) (hu : u.ofLoop) :
    us.filter Update.ofLoop = [] := by
  rcases h.waits with ⟨-, v, hone⟩ | ⟨-, hnone⟩
  · rw [hchain] at hone
    exact (filter_ofLoop_of_cons hu hone).2
  · rw [hchain, List.filter_cons_of_pos hu] at hnone
    cases hnone

end Chain

/-! ## The steps -/

/-- A step that keeps the chain, the buffer and the appended records. -/
theorem LoopOk.keep (h : LoopOk n) (hchain : n'.commit.chain = n.commit.chain)
    (hbuffer : n'.loop.buffer = n.loop.buffer) (happended : n'.loop.appended = n.loop.appended)
    (htask : n'.loop.task = .commit ↔ n.loop.task = .commit)
    (hsegment : ∀ ref batch, n'.loop.task = .segment ref batch →
      batch <+: n.loop.buffer) : LoopOk n' := by
  refine ⟨?_, fun ref batch hflush => ?_, ?_⟩
  · rw [hchain, htask, ne_eq, htask]
    exact h.waits
  · rw [hbuffer]
    rcases hflush with htask' | hmem
    · exact hsegment ref batch htask'
    · exact h.batch ref batch (.inr (hchain ▸ hmem))
  · rw [hbuffer, happended]
    exact h.buffer

/-- A commit of `setMeta` is queued. -/
theorem LoopOk.setMeta (h : LoopOk n) {key value : String}
    (hchain : n'.commit.chain = n.commit.chain ++ [.setMeta key value]) (hloop : n'.loop = n.loop) :
    LoopOk n' := by
  refine ⟨?_, fun ref batch hflush => ?_, ?_⟩
  · rw [hchain, hloop, List.filter_append]
    simpa [Update.ofLoop] using h.waits
  · rw [hloop]
    refine h.batch ref batch (hflush.imp (fun htask => hloop ▸ htask) fun hmem => ?_)
    rw [hchain] at hmem
    simpa using hmem
  · rw [hloop]
    exact h.buffer

/-- The loop queues a commit, of what it has uploaded if it flushes. -/
theorem LoopOk.enqueue (h : LoopOk n) {u : Update} (htask : n.loop.task ≠ .commit)
    (hu : u.ofLoop) (hbatch : ∀ ref batch, u = .append ref batch → batch <+: n.loop.buffer) :
    LoopOk (n.enqueue u) := by
  have hnone : n.commit.chain.filter Update.ofLoop = [] := by
    rcases h.waits with ⟨hcommit, -⟩ | ⟨-, hnone⟩
    · exact absurd hcommit htask
    · exact hnone
  refine ⟨.inl ⟨rfl, u, ?_⟩, fun ref batch hflush => ?_, h.buffer⟩
  · simp [Instance.enqueue, List.filter_append, hnone, hu]
  · rcases hflush with hsegment | hmem
    · cases hsegment
    · rcases List.mem_append.1 hmem with hold | hnew
      · exact absurd hold (append_not_mem_of_filter hnone)
      · exact hbatch ref batch (List.mem_singleton.1 hnew).symm

/-- The loop waits for no PUT, no deletion and no commit. -/
def Task.Rests : Task → Prop
  | .idle | .ensured | .maintain | .garbage => True
  | .segment .. | .commit | .snapshot .. | .deleting .. => False

/-- What the end of a commit leaves of the loop: a commit of `setMeta` all of it. -/
structure Settles (u : Update) (n n' : Instance) : Prop where
  task : u.ofLoop → n'.loop.task.Rests
  loop : u.ofLoop = false → n'.loop = n.loop
  buffer : n'.loop.buffer <:+ n.loop.buffer
  appended : n'.loop.appended = n.loop.appended

theorem Settles.resolve {m : Instance} (hloop : m.loop = n.loop) (u : Update)
    (next cached : ManifestRecord) (tag : Nat) : Settles u n (m.resolve u next cached tag) := by
  have hbuffer : m.loop.buffer <:+ n.loop.buffer := hloop ▸ List.suffix_rfl
  have happended : m.loop.appended = n.loop.appended := congrArg LoopSide.appended hloop
  cases u with
  | setMeta key value => exact ⟨fun h => by (cases h), fun _ => hloop, hbuffer, happended⟩
  | append ref batch =>
      exact ⟨fun _ => trivial, fun h => by (cases h), (List.drop_suffix _ _).trans hbuffer,
        happended⟩
  | _ => exact ⟨fun _ => trivial, fun h => by (cases h), hbuffer, happended⟩

theorem Settles.reject {m : Instance} (hloop : m.loop = n.loop) (u : Update) (notWriter : Bool) :
    Settles u n (m.reject u notWriter) := by
  have hbuffer : m.loop.buffer <:+ n.loop.buffer := hloop ▸ List.suffix_rfl
  have happended : m.loop.appended = n.loop.appended := congrArg LoopSide.appended hloop
  cases u with
  | setMeta key value => exact ⟨fun h => by (cases h), fun _ => hloop, hbuffer, happended⟩
  | append ref batch =>
      cases notWriter with
      | false => exact ⟨fun _ => trivial, fun h => by (cases h), hbuffer, happended⟩
      | true => exact ⟨fun _ => trivial, fun h => by (cases h), List.nil_suffix, happended⟩
  | _ => exact ⟨fun _ => trivial, fun h => by (cases h), hbuffer, happended⟩

theorem Task.Rests.uploads {task : Task} (h : task.Rests) : task.uploads = none := by
  cases task <;> first | rfl | exact h.elim

theorem Settles.task_cases {u : Update} {us : List Update} (hs : Settles u n n') (h : LoopOk n)
    (hchain : n.commit.chain = u :: us) :
    n'.loop.task = n.loop.task ∨ n.loop.task = .commit ∧ n'.loop.task.Rests := by
  cases hu : u.ofLoop with
  | true => exact .inr ⟨h.waiting (hchain ▸ List.mem_cons_self) hu, hs.task hu⟩
  | false => exact .inl (congrArg LoopSide.task (hs.loop hu))

/-- The commit at the head of the chain is over, and the loop goes on. -/
theorem LoopOk.settled {u : Update} {us : List Update} (h : LoopOk n)
    (hchain : n.commit.chain = u :: us) (htail : n'.commit.chain = us) (hs : Settles u n n') :
    LoopOk n' := by
  cases hu : u.ofLoop with
  | true =>
      -- the loop waits for the head of the chain, and has queued nothing behind it
      have hrest := h.rest hchain hu
      have hrests := hs.task hu
      refine ⟨.inr ⟨fun htask => ?_, htail ▸ hrest⟩, fun ref batch hflush => ?_,
        hs.appended ▸ hs.buffer.trans h.buffer⟩
      · rw [htask] at hrests
        exact hrests
      · rcases hflush with htask | hmem
        · rw [htask] at hrests
          exact hrests.elim
        · exact absurd (htail ▸ hmem) (append_not_mem_of_filter hrest)
  | false =>
      -- a commit of `setMeta` is none of the loop's: what the loop waits for is still queued
      have hloop := hs.loop hu
      refine ⟨?_, fun ref batch hflush => ?_, hloop ▸ h.buffer⟩
      · have hwaits := h.waits
        rw [hchain, List.filter_cons_of_neg (by simp [hu])] at hwaits
        rw [htail, hloop]
        exact hwaits
      · rw [hloop]
        refine h.batch ref batch (hflush.imp (fun htask => hloop ▸ htask) fun hmem => ?_)
        exact hchain ▸ List.mem_cons_of_mem _ (htail ▸ hmem)

theorem LoopOk.resolve {m : Instance} (h : LoopOk n) (hcommit : m.commit.chain = n.commit.chain)
    (hloop : m.loop = n.loop) {u : Update} {us : List Update} (hchain : n.commit.chain = u :: us)
    (next cached : ManifestRecord) (tag : Nat) : LoopOk (m.resolve u next cached tag) :=
  h.settled hchain (by simp [hcommit, hchain]) (.resolve hloop u next cached tag)

theorem LoopOk.reject (h : LoopOk n) {m : Instance} (hcommit : m.commit.chain = n.commit.chain)
    (hloop : m.loop = n.loop) {u : Update} {us : List Update} (hchain : n.commit.chain = u :: us)
    (notWriter : Bool) : LoopOk (m.reject u notWriter) :=
  h.settled hchain (by simp [hcommit, hchain]) (.reject hloop u notWriter)

theorem fillBatch_prefix (sizes : JsonSizes) (maxBytes bytes : Nat) (lines : List Entry) :
    fillBatch sizes maxBytes bytes lines <+: lines := by
  induction lines generalizing bytes with
  | nil => exact List.prefix_rfl
  | cons line rest ih =>
      simp only [fillBatch]
      split
      · exact List.nil_prefix
      · exact List.cons_prefix_cons.2 ⟨rfl, ih _⟩

theorem takeBatch_prefix (sizes : JsonSizes) (maxBytes : Nat) (lines : List Entry) :
    takeBatch sizes maxBytes lines <+: lines := by
  cases lines with
  | nil => exact List.prefix_rfl
  | cons line rest => exact List.cons_prefix_cons.2 ⟨rfl, fillBatch_prefix _ _ _ _⟩

/-- The WAL buffers a record behind what waits. -/
theorem LoopOk.buffered (h : LoopOk n) {entry : Entry}
    (hbuffer : n'.loop.buffer = n.loop.buffer ++ [entry])
    (happended : n'.loop.appended = n.loop.appended ++ [entry])
    (htask : n'.loop.task = n.loop.task) (hchain : n'.commit.chain = n.commit.chain) :
    LoopOk n' := by
  refine ⟨?_, fun ref batch hflush => ?_, ?_⟩
  · rw [hchain, htask]
    exact h.waits
  · rw [hbuffer]
    refine (h.batch ref batch ?_).trans (List.prefix_append _ _)
    exact hflush.imp (fun h => htask ▸ h) fun h => hchain ▸ h
  · rw [hbuffer, happended]
    obtain ⟨earlier, heq⟩ := h.buffer
    exact ⟨earlier, by rw [← heq, List.append_assoc]⟩

theorem LoopOk.of_room {a : RoomAct} (h : LoopOk n) (hs : RoomStep cfg st n a st' n') :
    LoopOk n' := by
  cases hs with
  | append => exact h.buffered rfl rfl rfl rfl
  | reserve => exact h.buffered rfl rfl rfl rfl
  | _ => exact h.keep rfl rfl rfl Iff.rfl fun ref batch htask => h.batch ref batch (.inl htask)

theorem LoopOk.of_loop {a : LoopAct} (h : LoopOk n) (hs : LoopStep cfg i st n a st' n') :
    LoopOk n' := by
  have hgo : ∀ {task : Task}, n.loop.task ≠ .commit → task ≠ .commit →
      (∀ ref batch, task ≠ .segment ref batch) → LoopOk (n.withTask task) :=
    fun hold hnew hsegment => h.keep rfl rfl rfl (by simp [Instance.withTask, hold, hnew])
      fun ref batch htask => absurd htask (hsegment ref batch)
  cases hs with
  | ensure _ _ _ _ htask => exact hgo (by simp [htask]) (by simp) (by simp)
  | fail _ _ htask =>
      refine ⟨.inr ⟨by simp [Instance.failLoop], ?_⟩, fun ref batch hflush => ?_,
        List.nil_suffix⟩
      · rcases h.waits with ⟨hcommit, -⟩ | ⟨-, hnone⟩
        · simp [htask] at hcommit
        · exact hnone
      · rcases hflush with hsegment | hmem
        · simp [Instance.failLoop] at hsegment
        · have hcommit := h.waiting hmem rfl
          simp [htask] at hcommit
  | flush htask =>
      refine h.keep rfl rfl rfl (by simp [htask]) fun ref batch hsegment => ?_
      cases hsegment
      exact takeBatch_prefix _ _ _
  | putSegment ref batch htask =>
      refine h.enqueue (by simp [htask]) rfl fun ref' batch' heq => ?_
      cases heq
      exact h.batch ref batch (.inl htask)
  | lostSegment ref batch htask => exact hgo (by simp [htask]) (by simp) (by simp)
  | failedSegment ref batch htask => exact hgo (by simp [htask]) (by simp) (by simp)
  | skip htask => exact hgo (by simp [htask]) (by simp) (by simp)
  | compact now htask =>
      exact h.keep rfl rfl rfl (by simp [htask]) fun ref batch hsegment => by cases hsegment
  | putSnapshot now key record log htask =>
      exact h.enqueue (by simp [htask]) rfl fun ref batch heq => by cases heq
  | lostSnapshot now key record log htask => exact hgo (by simp [htask]) (by simp) (by simp)
  | failedSnapshot now key record log htask => exact hgo (by simp [htask]) (by simp) (by simp)
  | nothingDue now htask => exact hgo (by simp [htask]) (by simp) (by simp)
  | collect now htask =>
      exact h.enqueue (by simp [htask]) rfl fun ref batch heq => by cases heq
  | startDelete now htask => exact hgo (by simp [htask]) (by simp) (by simp)
  | delete done keys now htask =>
      exact h.enqueue (by simp [htask]) rfl fun ref batch heq => by cases heq
  | deleteThrew done keys now htask => exact hgo (by simp [htask]) (by simp) (by simp)

theorem LoopOk.of_commit {a : CommitAct} (h : LoopOk n) (hs : CommitStep cfg i st n a st' n') :
    LoopOk n' := by
  have hkeep : ∀ {m : Instance}, m.commit.chain = n.commit.chain → m.loop = n.loop → LoopOk m :=
    fun hchain hloop => h.keep hchain (by rw [hloop]) (by rw [hloop]) (by rw [hloop])
      fun ref batch htask => h.batch ref batch (.inl (hloop ▸ htask))
  cases hs with
  | setMeta key value => exact h.setMeta rfl rfl
  | answer next tag u us _ hchain =>
      exact h.resolve (by simp) (by simp) hchain next next tag
  | answerFailed next u us _ hchain => exact h.reject rfl rfl hchain false
  | adopt tag next u us _ hchain => exact h.resolve (m := n.noteWrite) rfl rfl hchain next _ tag
  | fence tag next u us _ hchain =>
    exact h.reject (m := { n with lease := n.lease.fence }) rfl rfl hchain true
  | giveUp tag next u us _ hchain => exact h.reject rfl rfl hchain false
  | refuse notWriter u us hchain => exact h.reject rfl rfl hchain notWriter
  | _ => exact hkeep rfl rfl

theorem LoopOk.of_refresh {a : RefreshAct} (h : LoopOk n) (hs : RefreshStep cfg i st n a n') :
    LoopOk n' := by
  have hframe : n'.commit.chain = n.commit.chain ∧ n'.loop = n.loop := by
    cases hs with
    | answer call tag =>
        rcases Instance.adopt_commit st n tag with heq | ⟨-, heq⟩ <;>
          simp [Instance.withRefresh, heq]
    | _ => exact ⟨rfl, rfl⟩
  obtain ⟨hchain, hloop⟩ := hframe
  refine h.keep hchain (by rw [hloop]) (by rw [hloop]) (by rw [hloop]) fun ref batch htask => ?_
  exact h.batch ref batch (.inl (hloop ▸ htask))

/-- In every state of every run. -/
theorem loopOk [DecidableEq ι] {G : Guard ι} {s : FleetState ι} (h : FleetReach cfg G s) (i : ι) :
    LoopOk (s.locals i) := by
  suffices hall : s.All (fun _ => True) fun _ _ n => LoopOk n from hall.2 i
  refine FleetReach.invariant (K := fun _ => True) (fun _ => trivial) trivial ?_ ?_
    (fun _ hall _ _ j _ => hall.2 j) h
  · intro i
    refine ⟨.inr ⟨by simp [Instance.start], rfl⟩, fun ref batch hflush => ?_, List.nil_suffix⟩
    simp [Instance.start, Instance.Flushing] at hflush
  · rintro s i a st' n' - ⟨-, hall⟩ - hs
    refine ⟨trivial, ?_⟩
    cases hs with
    | room hs => exact (hall i).of_room hs
    | lease => exact (hall i).keep rfl rfl rfl Iff.rfl fun ref batch ht =>
        (hall i).batch ref batch (.inl ht)
    | loop hs => exact (hall i).of_loop hs
    | commit hs => exact (hall i).of_commit hs
    | refresh hs => exact (hall i).of_refresh hs

end Fleet
end ObjectStorage
end Reflectdb
