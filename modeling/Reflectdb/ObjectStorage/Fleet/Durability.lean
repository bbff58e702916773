import Reflectdb.Lib.Lasting
import Reflectdb.ObjectStorage.Fleet.Memory

/-!
# Durability — what a single writer has acknowledged stays

A record is acknowledged when the commit of its segment returns.  Every later version of the
manifest reflects it, and nothing that was appended before it comes after it: not the segments of
others, and not a snapshot, although the room goes on while the snapshot is written.
-/

namespace Reflectdb
namespace ObjectStorage
namespace Fleet

open Core Client Lib

variable {ι : Type} {cfg : Config ι} {i j : ι} {st st' : Store ι} {n n' : Instance}

/-- The `k`-th commit brought the record in. -/
def Committed (versions : List (Version ι)) (k : Nat) (e : Entry) : Prop :=
  ∃ v ref batch, versions[k]? = some v ∧ v.update = .append ref batch ∧ e ∈ batch

/-- What `adoptOwnCommit` adopts does what the commit that it stands for does.  It cannot tell that
commit from one that was made on the same version earlier, and whose answer was lost. -/
def AdoptsSame (cfg : Config ι) (i : ι) (st : Store ι) (n : Instance) : Act → Prop
  | .commit .judge =>
    match n.commit.phase with
    | .found next (some tag) => Instance.adopts cfg i st.versions next (some tag) →
      ∀ v ∈ st.versions[n.commit.cachedTag]?, ∀ u ∈ n.commit.chain.head?, v.update.SameEffect u
    | _ => True
  | _ => True

instance [DecidableEq ι] (i : ι) (st : Store ι) (n : Instance) :
    DecidablePred (AdoptsSame cfg i st n) := fun a => by
  unfold AdoptsSame
  repeat' split
  all_goals infer_instance

def Dependable (cfg : Config ι) : Guard ι := fun i st n a =>
  KeepsEpoch cfg i st n a ∧ AdoptsSame cfg i st n a

instance [DecidableEq ι] (i : ι) (st : Store ι) (n : Instance) (a : Act) :
    Decidable (Dependable cfg i st n a) :=
  inferInstanceAs (Decidable (_ ∧ _))

/-- All later versions reflect what a commit brought in. -/
def StoreLasting (st : Store ι) : Prop :=
  ∀ k e, Committed st.versions k e → ∀ m, k < m → m ≤ st.tip →
    Lasting Entry.serial (logAt st.versions m) e

structure Acknowledges (st : Store ι) (n : Instance) : Prop where
  own : ∀ k e, Committed st.versions k e → n.room.bootTag ≤ k → k < n.commit.cachedTag →
    e ∈ n.loop.appended ∧ ∀ f ∈ n.loop.buffer, e.serial < f.serial
  done : n.loop.terminal = false → ∀ e ∈ n.loop.appended,
    e ∈ n.loop.buffer ∨ ∃ k, Committed st.versions k e
  resolved : ∀ e ∈ n.loop.resolved, ∃ k, Committed st.versions k e

/-! ## Frames -/

theorem Committed.lt {versions : List (Version ι)} {k : Nat} {e : Entry}
    (h : Committed versions k e) : k < versions.length := by
  obtain ⟨v, ref, batch, hv, -⟩ := h
  exact (List.getElem?_eq_some_iff.1 hv).1

theorem Committed.append {versions : List (Version ι)} {k : Nat} {e : Entry}
    (h : Committed versions k e) (more : List (Version ι)) : Committed (versions ++ more) k e := by
  have hlt := h.lt
  obtain ⟨v, ref, batch, hv, hbatch⟩ := h
  exact ⟨v, ref, batch, by rw [List.getElem?_append_left hlt, hv], hbatch⟩

theorem Committed.of_append {versions more : List (Version ι)} {k : Nat} {e : Entry}
    (h : Committed (versions ++ more) k e) (hk : k < versions.length) : Committed versions k e := by
  obtain ⟨v, ref, batch, hv, hbatch⟩ := h
  exact ⟨v, ref, batch, by rwa [List.getElem?_append_left hk] at hv, hbatch⟩

/-- What others do leaves an instance what it has acknowledged. -/
theorem Acknowledges.append (h : Acknowledges st n) (hcached : n.commit.cachedTag ≤ st.tip)
    {more : List (Version ι)} (hversions : st'.versions = st.versions ++ more) :
    Acknowledges st' n := by
  refine ⟨fun k e hk hboot hlt => ?_, fun hlive e he => ?_, fun e he => ?_⟩
  · rw [hversions] at hk
    exact h.own k e (hk.of_append (hlt.trans_le hcached)) hboot hlt
  · rw [hversions]
    exact (h.done hlive e he).imp_right fun ⟨k, hk⟩ => ⟨k, hk.append more⟩
  · rw [hversions]
    obtain ⟨k, hk⟩ := h.resolved e he
    exact ⟨k, hk.append more⟩

/-- A step that changes neither the records nor the cached manifest. -/
theorem Acknowledges.keep (h : Acknowledges st n) (hversions : st'.versions = st.versions)
    (htag : n'.room.bootTag = n.room.bootTag) (hcached : n'.commit.cachedTag = n.commit.cachedTag)
    (hbuffer : n'.loop.buffer = n.loop.buffer) (happended : n'.loop.appended = n.loop.appended)
    (hterminal : n'.loop.terminal = n.loop.terminal)
    (hresolved : n'.loop.resolved = n.loop.resolved) : Acknowledges st' n' := by
  refine ⟨?_, ?_, ?_⟩
  · rw [hversions, htag, hcached, hbuffer, happended]
    exact h.own
  · rw [hversions, hbuffer, happended, hterminal]
    exact h.done
  · rw [hversions, hresolved]
    exact h.resolved

/-- The loop has failed. -/
theorem Acknowledges.fail (h : Acknowledges st n) (htag : n'.room.bootTag = n.room.bootTag)
    (hcached : n'.commit.cachedTag = n.commit.cachedTag) (hloop : n'.loop = n.failLoop.loop) :
    Acknowledges st n' := by
  refine ⟨?_, ?_, ?_⟩
  · rw [htag, hcached, hloop]
    exact fun k e hk hboot hlt => ⟨(h.own k e hk hboot hlt).1, fun f hf => by cases hf⟩
  · rw [hloop]
    exact fun hlive => by cases hlive
  · rw [hloop]
    exact h.resolved

/-! ## A commit lands -/

/-- What was committed before a boot has a lower number than what is appended after it. -/
theorem StoreLasting.before_boot (hst : StoreLasting st) (h : Recall st n) {k : Nat} {e : Entry}
    (he : Committed st.versions k e) (hk : k < n.room.bootTag) (htag : n.room.bootTag ≤ st.tip) :
    ∀ f ∈ n.loop.appended, e.serial < f.serial := by
  have hmem := (hst k e he _ hk htag).mem
  exact fun f hf => (h.booted e hmem).trans_le (h.appended f hf).1

/-- A commit on top of the latest version leaves what the earlier ones brought in. -/
theorem StoreLasting.extend (hst : StoreLasting st) (hloop : LoopOk n) (h : Recall st n)
    (hack : Acknowledges st n) (htip : n.commit.cachedTag = st.tip)
    (hphase : n.commit.phase ≠ .waiting) {u : Update} {us : List Update}
    (hchain : n.commit.chain = u :: us) {k : Nat} {e : Entry} (he : Committed st.versions k e) :
    Lasting Entry.serial (u.extend (logAt st.versions st.tip)) e := by
  have hmem : u ∈ n.commit.chain := hchain ▸ List.mem_cons_self
  have htag : n.room.bootTag ≤ st.tip := htip ▸ h.bootTag
  have hold := hst k e he st.tip he.lt le_rfl
  cases u with
  | append ref batch =>
      refine hold.append fun f hf => ?_
      have hbuffer := (hloop.batch ref batch (.inr hmem)).subset hf
      by_cases hk : k < n.room.bootTag
      · exact (hst.before_boot h he hk htag f (hloop.buffer.subset hbuffer)).le
      · exact ((hack.own k e he (Nat.le_of_not_lt hk) (htip ▸ he.lt)).2 f hbuffer).le
  | setMeta key value => exact hold
  | compact key hlc deletableAt log =>
      obtain ⟨earlier, taken, since, rfl, happended, hsince⟩ :=
        (h.running hphase).2 key hlc deletableAt log (by rw [hchain]; rfl)
      have hsorted := h.sorted
      rw [happended] at hsorted
      by_cases hk : k < n.room.bootTag
      · -- the snapshot has what the boot read, and after it what was appended
        have hboot := (hst k e he _ hk htag).prepend earlier
        refine hboot.append fun f hf => (hst.before_boot h he hk htag f ?_).le
        exact happended ▸ List.mem_append_left _ hf
      · obtain ⟨hown, hbuffer⟩ := hack.own k e he (Nat.le_of_not_lt hk) (htip ▸ he.lt)
        rw [happended] at hown
        rcases List.mem_append.1 hown with htaken | hlate
        · exact (lasting_of_pairwise (List.pairwise_append.1 hsorted).1 htaken).prepend _
        · -- what waits in the buffer is not committed
          exact absurd (hbuffer e (hsince e hlate)) (lt_irrefl _)
  | collect now => exact hold

theorem StoreLasting.publish (hst : StoreLasting st) (hloop : LoopOk n) (h : Recall st n)
    (hack : Acknowledges st n) (htip : n.commit.cachedTag = st.tip)
    (hphase : n.commit.phase ≠ .waiting) {u : Update} {us : List Update}
    (hchain : n.commit.chain = u :: us) (next : ManifestRecord) :
    StoreLasting (st.publish i next u) := by
  have htop : logAt (st.publish i next u).versions (st.tip + 1) =
      u.extend (logAt st.versions st.tip) := tagged_concat _
  intro k e he m hkm hm
  have hlen : (st.publish i next u).tip = st.tip + 1 := by simp [Store.publish, Store.tip]
  rcases Nat.lt_or_ge st.tip m with hlast | hearlier
  · have hm' : m = st.tip + 1 := by omega
    subst hm'
    rw [htop]
    rcases Nat.lt_or_ge k st.tip with hlt | hge
    · exact hst.extend hloop h hack htip hphase hchain (he.of_append hlt)
    · have hk : k = st.tip := by omega
      subst hk
      obtain ⟨v, ref, batch, hv, hupdate, hbatch⟩ := he
      have hu : u = v.update := by
        simp only [Store.publish, Store.tip, List.getElem?_concat_length, Option.some.injEq] at hv
        rw [← hv]
      rw [hu, hupdate]
      have hflush : n.Flushing ref batch :=
        .inr (hupdate ▸ hu ▸ hchain ▸ List.mem_cons_self)
      have hsorted : batch.Pairwise fun a b => a.serial < b.serial :=
        h.sorted.sublist ((hloop.batch ref batch hflush).sublist.trans hloop.buffer.sublist)
      exact (lasting_of_pairwise hsorted hbatch).prepend _
  · rw [logAt, Store.publish, tagged_append hearlier]
    exact hst k e (he.of_append (hkm.trans_le hearlier)) m hkm hearlier

/-! ## A commit returns -/

/-- The version that an instance learns to be its commit, or to do the same, is the one after the
version that it held. -/
theorem Acknowledges.resolve (hack : Acknowledges st n) (h : Recall st n) (hloop : LoopOk n)
    {l : LeaseSide} {u : Update} {us : List Update} (hchain : n.commit.chain = u :: us)
    {v : Version ι} (hv : st.versions[n.commit.cachedTag]? = some v) (hsame : v.update.SameEffect u)
    (next cached : ManifestRecord) :
    Acknowledges st
      (Instance.resolve { n with lease := l } u next cached (n.commit.cachedTag + 1)) := by
  have hmem : u ∈ n.commit.chain := hchain ▸ List.mem_cons_self
  -- a commit that brings no records in leaves them as they were
  have hquiet : ∀ {n' : Instance}, (∀ ref batch, v.update ≠ .append ref batch) →
      n'.room.bootTag = n.room.bootTag → n'.commit.cachedTag = n.commit.cachedTag + 1 →
        n'.loop.buffer = n.loop.buffer → n'.loop.appended = n.loop.appended →
          n'.loop.terminal = n.loop.terminal → n'.loop.resolved = n.loop.resolved →
            Acknowledges st n' := by
    intro n' hnot htag hcached hbuffer happended hterminal hresolved
    refine ⟨fun k e hk hboot hlt => ?_, ?_, ?_⟩
    · rw [hbuffer, happended]
      rw [hcached] at hlt
      rcases Nat.lt_succ_iff_lt_or_eq.1 hlt with hold | rfl
      · exact hack.own k e hk (htag ▸ hboot) hold
      · obtain ⟨w, ref, batch, hw, hupdate, -⟩ := hk
        cases hv.symm.trans hw
        exact absurd hupdate (hnot ref batch)
    · rw [hbuffer, happended, hterminal]
      exact hack.done
    · rw [hresolved]
      exact hack.resolved
  cases u with
  | append ref batch =>
      obtain ⟨ref', hupdate⟩ : ∃ ref', v.update = .append ref' batch := by
        cases hv' : v.update <;> rw [hv'] at hsame <;> cases hsame
        exact ⟨_, rfl⟩
      have hcommitted : ∀ e ∈ batch, Committed st.versions n.commit.cachedTag e :=
        fun e he => ⟨v, ref', batch, hv, hupdate, he⟩
      -- the buffer begins with the batch, which is dropped from it
      obtain ⟨rest, hbuffer⟩ := hloop.batch ref batch (.inr hmem)
      have hsorted : (batch ++ rest).Pairwise fun a b => a.serial < b.serial :=
        hbuffer ▸ h.sorted.sublist hloop.buffer.sublist
      have hdrop : n.loop.buffer.drop batch.length = rest := by
        rw [← hbuffer, List.drop_left]
      have htake : n.loop.buffer.take batch.length = batch := by
        rw [← hbuffer, List.take_left]
      have hsub : ∀ f ∈ rest, f ∈ n.loop.buffer := fun f hf =>
        hbuffer ▸ List.mem_append_right _ hf
      refine ⟨fun k e hk hboot hlt => ?_, fun hlive e he => ?_, fun e he => ?_⟩
      · simp only [Instance.resolve, Instance.onResolved, hdrop]
        rcases Nat.lt_succ_iff_lt_or_eq.1 hlt with hold | rfl
        · obtain ⟨hown, hlater⟩ := hack.own k e hk hboot hold
          exact ⟨hown, fun f hf => hlater f (hsub f hf)⟩
        · obtain ⟨w, ref'', batch', hw, hupdate', hbatch⟩ := hk
          cases hv.symm.trans hw
          cases hupdate.symm.trans hupdate'
          refine ⟨hloop.buffer.subset (hbuffer ▸ List.mem_append_left _ hbatch), fun f hf => ?_⟩
          exact (List.pairwise_append.1 hsorted).2.2 e hbatch f hf
      · simp only [Instance.resolve, Instance.onResolved, hdrop]
        rcases hack.done hlive e he with hwaits | hk
        · rw [← hbuffer] at hwaits
          rcases List.mem_append.1 hwaits with hbatch | hrest
          · exact .inr ⟨_, hcommitted e hbatch⟩
          · exact .inl hrest
        · exact .inr hk
      · simp only [Instance.resolve, Instance.onResolved, htake] at he
        rcases List.mem_append.1 he with hold | hbatch
        · exact hack.resolved e hold
        · exact ⟨_, hcommitted e hbatch⟩
  | _ =>
      refine hquiet (fun ref batch hupdate => ?_) rfl rfl rfl rfl rfl rfl
      rw [hupdate] at hsame
      cases hsame

theorem Acknowledges.reject (hack : Acknowledges st n) {l : LeaseSide} {u : Update}
    (notWriter : Bool) : Acknowledges st (Instance.reject { n with lease := l } u notWriter) := by
  cases u with
  | append ref batch =>
      cases notWriter with
      | true => exact hack.fail rfl rfl rfl
      | false => exact hack.keep rfl rfl rfl rfl rfl rfl rfl
  | _ => exact hack.keep rfl rfl rfl rfl rfl rfl rfl

/-! ## The steps -/

theorem Acknowledges.of_room {a : RoomAct} (hack : Acknowledges st n) (h : Recall st n)
    (huntouched : n.room.boot ≠ .ready → Untouched n) (hs : RoomStep cfg st n a st' n') :
    Acknowledges st' n' := by
  -- a new record is later than all that was committed
  have hbuffered : ∀ {st' : Store ι} {n' : Instance} {entry : Entry}, st'.versions = st.versions →
      n'.room.bootTag = n.room.bootTag → n'.commit = n.commit → entry.serial = st.serial →
        n'.loop.buffer = n.loop.buffer ++ [entry] →
          n'.loop.appended = n.loop.appended ++ [entry] → n'.loop.terminal = n.loop.terminal →
            n'.loop.resolved = n.loop.resolved → Acknowledges st' n' := by
    intro st' n' entry hversions htag hcommit hserial hbuffer happended hterminal hresolved
    refine ⟨?_, ?_, ?_⟩
    · rw [hversions, htag, hcommit, hbuffer, happended]
      intro k e hk hboot hlt
      obtain ⟨hown, hlater⟩ := hack.own k e hk hboot hlt
      refine ⟨List.mem_append_left _ hown, fun f hf => ?_⟩
      rcases List.mem_append.1 hf with hold | hnew
      · exact hlater f hold
      · rw [List.mem_singleton.1 hnew, hserial]
        exact (h.appended e hown).2
    · rw [hversions, hbuffer, happended, hterminal]
      intro hlive e he
      rcases List.mem_append.1 he with hold | hnew
      · exact (hack.done hlive e hold).imp_left fun hwaits => List.mem_append_left _ hwaits
      · exact .inl (List.mem_append_right _ hnew)
    · rw [hversions, hresolved]
      exact hack.resolved
  cases hs with
  | load hcold =>
      have hu := huntouched (by simp [hcold])
      refine ⟨fun k e _ hboot hlt => absurd hlt (Nat.not_lt_of_le hboot), fun _ e he => ?_,
        hack.resolved⟩
      rw [hu.appended] at he
      cases he
  | append => exact hbuffered rfl rfl rfl rfl rfl rfl rfl rfl
  | reserve => exact hbuffered rfl rfl rfl rfl rfl rfl rfl rfl
  | flushed _ hlive hempty =>
      refine ⟨hack.own, hack.done, fun e he => ?_⟩
      rcases List.mem_append.1 he with hold | hnew
      · exact hack.resolved e hold
      · refine (hack.done hlive e hnew).resolve_left ?_
        simp [hempty]
  | _ => exact hack.keep rfl rfl rfl rfl rfl rfl rfl

theorem Acknowledges.of_loop {a : LoopAct} (hack : Acknowledges st n)
    (hs : LoopStep cfg i st n a st' n') : Acknowledges st' n' := by
  cases hs with
  | fail => exact hack.fail rfl rfl rfl
  | _ => exact hack.keep rfl rfl rfl rfl rfl rfl rfl

theorem Acknowledges.of_commit {a : CommitAct} (hmode : cfg.mode = .singleWriter)
    (hlinear : Linear cfg st.versions) (hl : LeasesOk st.leases)
    (hv : VersionsOk st.leases st.versions) (hi : EpochsOk i st n) (hsync : Synced cfg i st n)
    (hsolo : Solo i st n) (hloop : LoopOk n) (hadopts : AdoptsSame cfg i st n (.commit a))
    (hst : StoreLasting st) (h : Recall st n) (hack : Acknowledges st n)
    (hs : CommitStep cfg i st n a st' n') : StoreLasting st' ∧ Acknowledges st' n' := by
  have hphase : ∀ phase, Acknowledges st (n.withPhase phase) :=
    fun _ => hack.keep rfl rfl rfl rfl rfl rfl rfl
  cases hs with
  | setMeta => exact ⟨hst, hack.keep rfl rfl rfl rfl rfl rfl rfl⟩
  | startOptimistic => exact ⟨hst, hack.keep rfl rfl rfl rfl rfl rfl rfl⟩
  | put outcome ifMatch next u us reply hissued hchain hmatch =>
      have htip : n.commit.cachedTag = st.tip := (hsolo.issued _ _ hissued).symm.trans hmatch
      exact ⟨hst.publish hloop h hack htip (by simp [hissued]) hchain next,
        (hphase _).append hsync.cachedTag rfl⟩
  | answer next tag u us hreplied hchain =>
      obtain ⟨htag, v, hv, -, hhead⟩ := hsolo.replied next tag hreplied
      obtain ⟨l, heq, -⟩ := n.committed_eq cfg
      have hu : u = v.update := by simpa [hchain] using hhead
      rw [heq, htag]
      exact ⟨hst, hack.resolve h hloop hchain hv (hu ▸ .refl _) next next⟩
  | answerFailed next u => exact ⟨hst, hack.reject (l := n.lease) false⟩
  | adopt tag next u us hfound hchain hzero hown =>
      obtain ⟨htag, v, hv, -⟩ := hsolo.adopted hlinear hl hv hi hsync hfound hzero hown
      have hsame : v.update.SameEffect u := by
        simp only [AdoptsSame, hfound, Instance.adopts, hchain] at hadopts
        exact hadopts (by simp [hzero, hown]) v hv u rfl
      subst htag
      exact ⟨hst, hack.resolve (l := { n.lease with wroteSinceRenew := true }) h hloop hchain hv
        hsame next _⟩
  | fence tag next u => exact ⟨hst, hack.reject true⟩
  | giveUp tag next u us _ _ hopt => cases hmode.symm.trans hopt
  | reloaded tag hreloaded => exact absurd hreloaded (hi.phase.single.2 tag)
  | refuse notWriter u => exact ⟨hst, hack.reject (l := n.lease) notWriter⟩
  | _ => exact ⟨hst, hphase _⟩

/-- What a single writer has acknowledged, in every state of every run. -/
theorem acknowledges [DecidableEq ι] {G : Guard ι} (hmode : cfg.mode = .singleWriter)
    (hG : ∀ {i st n a}, G i st n a → Dependable cfg i st n a) {s : FleetState ι}
    (h : FleetReach cfg G s) : s.All StoreLasting fun _ st n => Acknowledges st n := by
  have hkeeps : ∀ {i st n a}, G i st n a → KeepsEpoch cfg i st n a := fun hg => (hG hg).1
  refine FleetReach.invariant
    (fun hr => And.intro (writtenRoom hmode hkeeps hr) (recalls hmode hkeeps hr)) ?_ ?_ ?_ ?_ h
  · exact fun k e he => absurd he.lt (Nat.not_lt_zero k)
  · exact fun _ => ⟨fun _ _ _ _ hlt => absurd hlt (Nat.not_lt_zero _), fun _ _ he => by (cases he),
      fun _ he => by cases he⟩
  · rintro s i a st' n' ⟨hroom, -, hrecall⟩ ⟨hst, hall⟩ hg hs
    have hkept : st'.versions = s.shared.versions → StoreLasting st' := by
      intro hversions
      rw [StoreLasting, Store.tip, hversions]
      exact hst
    cases hs with
    | room hs =>
        refine ⟨hkept ?_, (hall i).of_room (hrecall i) (hroom.solo.untouched i) hs⟩
        cases hs <;> rfl
    | lease => exact ⟨hkept rfl, (hall i).keep rfl rfl rfl rfl rfl rfl rfl⟩
    | loop hs =>
        refine ⟨hkept ?_, (hall i).of_loop hs⟩
        cases hs <;> rfl
    | commit hs =>
        exact (hall i).of_commit hmode hroom.solo.linear hroom.solo.leases hroom.solo.versions
          (hroom.solo.epochs i) (hroom.solo.sync i) (hroom.commits i) (hroom.loop i) (hG hg).2 hst
          (hrecall i) hs
    | refresh hs =>
        have hcommit := hs.commit hmode (hroom.solo.epochs i)
        have hloop : n'.loop = (s.locals i).loop := by
          cases hs <;> first | rfl | simp [Instance.withRefresh]
        have hbootTag : n'.room.bootTag = (s.locals i).room.bootTag := by
          cases hs <;> first | rfl | simp [Instance.withRefresh]
        exact ⟨hst, (hall i).keep rfl hbootTag (by rw [hcommit]) (by rw [hloop]) (by rw [hloop])
          (by rw [hloop]) (by rw [hloop])⟩
  · rintro s i a st' n' ⟨hroom, -⟩ ⟨-, hall⟩ - hs j -
    obtain ⟨more, hmore⟩ := hs.versions_append
    exact (hall j).append (hroom.solo.sync j).cachedTag hmore

/-- Where a lasting record wrote a row, a replay leaves its value or that of a later record. -/
theorem written_of_lasting {log : List Entry} {e : Entry} (h : Lasting Entry.serial log e)
    {key : RowKey} {row : Option Server.StoredRow} (hwrite : e.record.write = some (key, row)) :
    ∃ f ∈ log, e.serial ≤ f.serial ∧ ∃ later, f.record.write = some (key, later) ∧
      written (log.map (·.record)) key = some later := by
  obtain ⟨f, hf, hle, later, hlater, heq⟩ :=
    h.exists_lastWrite (fun f => f.record.write) hwrite
  refine ⟨f, hf, hle, later, hlater, ?_⟩
  rw [written, List.filterMap_map]
  exact heq

/-- A single writer that holds the lease commits. -/
def soloEvents (i : ι) : List (ι × Act) :=
  issueEvents i ++ [(i, .commit (.put .ok)), (i, .commit .answer)]

end Fleet
end ObjectStorage
end Reflectdb
