import Reflectdb.ObjectStorage.Fleet.Keys

/-!
# Garbage — what the stored manifest names exists

A manifest names an object from one commit on, until a compaction supersedes it; nothing names it
again.  `collectGarbage` deletes what the manifest of its instance no longer names, so that an
instance which is behind, or several at once, delete nothing that is in use.
-/

namespace Reflectdb
namespace ObjectStorage
namespace Fleet

open Core Client Lib

variable {ι : Type} {cfg : Config ι} {i j : ι} {st st' : Store ι} {n n' : Instance}

/-! ## Names in the manifests -/

/-- The objects that the commits brought in. -/
def introduced (versions : List (Version ι)) : List ObjectKey :=
  versions.filterMap (·.update.introduces)

section Versions

variable {versions : List (Version ι)} {key : ObjectKey}

theorem introduced_append (versions more : List (Version ι)) :
    introduced (versions ++ more) = introduced versions ++ introduced more :=
  List.filterMap_append

theorem mem_introduced :
    key ∈ introduced versions ↔ ∃ v ∈ versions, v.update.introduces = some key :=
  List.mem_filterMap

theorem mem_introduced_take {j k : Nat} (hjk : j ≤ k) (h : key ∈ introduced (versions.take j)) :
    key ∈ introduced (versions.take k) := by
  obtain ⟨v, hv, hkey⟩ := mem_introduced.1 h
  exact mem_introduced.2 ⟨v, List.take_subset_take_left versions hjk hv, hkey⟩

/-- A name is brought in by one version. -/
theorem introduces_ne_of_nodup (hnodup : (introduced versions).Nodup) {k : Nat} {v : Version ι}
    (hv : versions[k]? = some v) (h : key ∈ introduced (versions.take k)) :
    v.update.introduces ≠ some key := by
  intro hkey
  have hlt := (List.getElem?_eq_some_iff.1 hv).1
  have hsplit :
      introduced versions = introduced (versions.take k) ++ introduced (versions.drop k) := by
    rw [← introduced_append, List.take_append_drop]
  rw [hsplit] at hnodup
  refine (List.nodup_append'.1 hnodup).2.2 h (mem_introduced.2 ⟨v, ?_, hkey⟩)
  rw [List.drop_eq_getElem_cons hlt, (List.getElem?_eq_some_iff.1 hv).2]
  exact List.mem_cons_self

end Versions

theorem Update.mem_live_mutate {u : Update} {m : ManifestRecord} {key : ObjectKey}
    (h : key ∈ (u.mutate m).live) : key ∈ m.live ∨ u.introduces = some key := by
  cases u with
  | append ref batch =>
      simp only [Update.mutate, ManifestRecord.live, ManifestRecord.segments, List.map_append,
        List.mem_append, List.map_cons, List.map_nil, List.mem_singleton] at h
      rcases h with hsnap | hold | hnew
      · exact .inl (List.mem_append_left _ hsnap)
      · exact .inl (List.mem_append_right _ hold)
      · exact .inr (congrArg some hnew.symm)
  | setMeta name value => exact .inl h
  | compact snapshot hlc deletableAt log =>
      have heq : key = snapshot := by
        simpa [Update.mutate, ManifestRecord.live, ManifestRecord.segments] using h
      exact .inr (congrArg some heq.symm)
  | collect now => exact .inl h

/-- A compaction hands over what the manifest named. -/
theorem Update.mem_pendingGc_mutate {u : Update} {m : ManifestRecord} {entry : GcEntry}
    (h : entry ∈ (u.mutate m).pendingGc) : entry ∈ m.pendingGc ∨ entry.key ∈ m.live := by
  cases u with
  | append ref batch => exact .inl h
  | setMeta name value => exact .inl h
  | compact snapshot hlc deletableAt log =>
      simp only [Update.mutate, List.mem_append, List.mem_map] at h
      rcases h with (hold | ⟨key, hkey, rfl⟩) | ⟨key, hkey, rfl⟩
      · exact .inl hold
      · exact .inr (List.mem_append_right _ hkey)
      · exact .inr (List.mem_append_left _ hkey)
  | collect now => exact .inl (List.mem_of_mem_filter h)

/-- What a manifest names, or will delete, was brought in by a commit up to it. -/
theorem Linear.named {versions : List (Version ι)} (h : Linear cfg versions) {k : Nat}
    (hk : k ≤ versions.length) :
    (∀ key ∈ (manifestAt versions k).live, key ∈ introduced (versions.take k)) ∧
      ∀ entry ∈ (manifestAt versions k).pendingGc, entry.key ∈ introduced (versions.take k) := by
  induction k with
  | zero => exact ⟨fun key hkey => by (cases hkey), fun entry hentry => by cases hentry⟩
  | succ k ih =>
      have hv := List.getElem?_eq_getElem (Nat.lt_of_succ_le hk)
      obtain ⟨hlive, hpending⟩ := ih (Nat.le_of_succ_le hk)
      obtain ⟨epoch, hrecord⟩ := (h.built hv).1
      have hold : ∀ {key}, key ∈ introduced (versions.take k) →
          key ∈ introduced (versions.take (k + 1)) :=
        fun hmem => mem_introduced_take (Nat.le_succ k) hmem
      rw [manifestAt, tagged_of_getElem? hv, hrecord]
      refine ⟨fun key hkey => ?_, fun entry hentry => ?_⟩
      · rcases Update.mem_live_mutate hkey with hbase | hnew
        · exact hold (hlive key hbase)
        · refine mem_introduced.2 ⟨_, ?_, hnew⟩
          rw [List.take_succ_eq_append_getElem (Nat.lt_of_succ_le hk)]
          exact List.mem_append_right _ List.mem_cons_self
      · rcases Update.mem_pendingGc_mutate hentry with hbase | hbase
        · exact hold (hpending entry hbase)
        · exact hold (hlive entry.key hbase)

/-- A manifest no longer names the key. -/
def Dead (versions : List (Version ι)) (key : ObjectKey) : Prop :=
  ∃ k ≤ versions.length, key ∈ introduced (versions.take k) ∧ key ∉ (manifestAt versions k).live

theorem Dead.append {versions : List (Version ι)} {key : ObjectKey} (h : Dead versions key)
    (more : List (Version ι)) : Dead (versions ++ more) key := by
  obtain ⟨k, hk, hmem, hlive⟩ := h
  refine ⟨k, ?_, ?_, ?_⟩
  · rw [List.length_append]
    exact Nat.le_add_right_of_le hk
  · rwa [List.take_append_of_le_length hk]
  · rwa [manifestAt, tagged_append hk]

/-- Nothing names it again. -/
theorem Dead.not_live {versions : List (Version ι)} {key : ObjectKey} (h : Dead versions key)
    (hlinear : Linear cfg versions) (hnodup : (introduced versions).Nodup) :
    key ∉ (manifestAt versions versions.length).live := by
  obtain ⟨k, hk, hmem, hlive⟩ := h
  suffices hlater : ∀ d, k + d ≤ versions.length → key ∉ (manifestAt versions (k + d)).live by
    obtain ⟨d, hd⟩ := Nat.exists_eq_add_of_le hk
    exact hd ▸ hlater d hd.ge
  intro d
  induction d with
  | zero => exact fun _ => hlive
  | succ d ih =>
      intro hd
      have hlt : k + d < versions.length := Nat.lt_of_succ_le hd
      have hv := List.getElem?_eq_getElem hlt
      obtain ⟨epoch, hrecord⟩ := (hlinear.built hv).1
      intro hkey
      rw [← Nat.add_assoc, manifestAt, tagged_of_getElem? hv, hrecord] at hkey
      rcases Update.mem_live_mutate hkey with hbase | hnew
      · exact ih (Nat.le_of_succ_le hd) hbase
      · exact introduces_ne_of_nodup hnodup hv
          (mem_introduced_take (Nat.le_add_right k d) hmem) hnew

/-! ## Objects -/

/-- The object that a commit brings in was uploaded. -/
def Update.Published (puts : List (ObjectKey × ObjectBody)) : Update → Prop
  | .append ref batch => (ref.key, .segment batch) ∈ puts
  | .compact key _ _ log => ∃ record, (key, .snapshot record log) ∈ puts
  | _ => True

/-- The PUT of a commit may have taken effect, and the commit is not put again.  A single writer
does not put a commit twice; an optimistic one does after a 412. -/
def CommitPhase.spent (mode : ConcurrencyMode) : CommitPhase → Prop
  | .replied _ .conflict | .conflicted _ | .found _ _ => mode = .singleWriter
  | .replied _ _ => True
  | _ => False

/-- The driver's own retry of a PUT that took effect is not answered by a 412 to an instance which
would commit again. -/
def Act.PutsOnce (mode : ConcurrencyMode) : Act → Prop
  | .commit (.put outcome) => outcome = .retried → mode = .singleWriter
  | _ => True

instance (mode : ConcurrencyMode) : DecidablePred (Act.PutsOnce mode)
  | .commit (.put _) => inferInstanceAs (Decidable (_ → _))
  | .commit (.setMeta ..) | .commit .start | .commit .grant | .commit .issue | .commit .answer
  | .commit (.readBack _) | .commit .judge | .commit .reload | .commit .reloaded
  | .commit (.refuse _) | .room _ | .lease _ | .loop _ | .refresh _ => isTrue trivial

def PutsOnce (cfg : Config ι) : Guard ι := fun i st n a =>
  KeepsEpoch cfg i st n a ∧ a.PutsOnce cfg.mode

instance [DecidableEq ι] (i : ι) (st : Store ι) (n : Instance) (a : Act) :
    Decidable (PutsOnce cfg i st n a) :=
  inferInstanceAs (Decidable (_ ∧ _))

/-- Nothing that a manifest names was deleted. -/
structure StoreObjects (st : Store ι) : Prop where
  names : (introduced st.versions).Nodup
  published : ∀ v ∈ st.versions, v.update.Published st.puts
  kept : ∀ p ∈ st.puts, st.objects p.1 = some p.2 ∨ Dead st.versions p.1

/-- What an instance will commit was uploaded and not committed before, and what it deletes is
dead. -/
structure InstObjects (cfg : Config ι) (i : ι) (st : Store ι) (n : Instance) : Prop where
  published : ∀ u ∈ n.commit.chain, u.Published st.puts
  owned : ∀ u ∈ n.commit.chain, ∀ key, u.introduces = some key → (key, i) ∈ st.allocated
  fresh : ∀ u ∈ n.commit.chain, ∀ key, u.introduces = some key →
    key ∉ introduced st.versions ∨ n.commit.phase.spent cfg.mode ∧ n.commit.chain.head? = some u
  deleting : ∀ keys now, n.loop.task = .deleting keys now →
    ∀ key ∈ keys, Dead st.versions key

theorem Update.Published.append {puts : List (ObjectKey × ObjectBody)} {u : Update}
    (h : u.Published puts) (more : List (ObjectKey × ObjectBody)) : u.Published (puts ++ more) := by
  cases u with
  | append ref batch => exact List.mem_append_left more h
  | setMeta key value => trivial
  | compact key hlc deletableAt log =>
      obtain ⟨record, hput⟩ := h
      exact ⟨record, List.mem_append_left more hput⟩
  | collect now => trivial

theorem Update.Published.exists_put {puts : List (ObjectKey × ObjectBody)} {u : Update}
    {key : ObjectKey} (h : u.Published puts) (hkey : u.introduces = some key) :
    ∃ body, (key, body) ∈ puts := by
  cases u with
  | append ref batch =>
      cases hkey
      exact ⟨_, h⟩
  | setMeta key value => cases hkey
  | compact snapshot hlc deletableAt log =>
      cases hkey
      obtain ⟨record, hput⟩ := h
      exact ⟨_, hput⟩
  | collect now => cases hkey

theorem StoreObjects.exists_put (h : StoreObjects st) {key : ObjectKey}
    (hkey : key ∈ introduced st.versions) : key ∈ st.puts.map (·.1) := by
  obtain ⟨v, hv, hintro⟩ := mem_introduced.1 hkey
  obtain ⟨body, hput⟩ := (h.published v hv).exists_put hintro
  exact List.mem_map_of_mem hput

theorem Update.ofLoop_of_introduces {u : Update} {key : ObjectKey} (h : u.introduces = some key) :
    u.ofLoop := by
  cases u with
  | setMeta name value => cases h
  | _ => rfl

/-! ## The steps -/

/-- Versions, uploads and names only become more. -/
structure ObjectsGrow (st st' : Store ι) : Prop where
  versions : ∃ more, st'.versions = st.versions ++ more
  puts : ∃ more, st'.puts = st.puts ++ more
  allocated : st.allocated ⊆ st'.allocated

/-- A step that neither commits nor uploads, and starts no deletion. -/
theorem InstObjects.keep (h : InstObjects cfg i st n) (hversions : st'.versions = st.versions)
    (hputs : ∃ more, st'.puts = st.puts ++ more) (hallocated : st.allocated ⊆ st'.allocated)
    (hchain : n'.commit.chain = n.commit.chain)
    (hspent : n.commit.phase.spent cfg.mode → n'.commit.phase.spent cfg.mode)
    (hdeleting : ∀ keys now, n'.loop.task = .deleting keys now →
      ∀ key ∈ keys, Dead st.versions key) : InstObjects cfg i st' n' := by
  obtain ⟨more, hputs⟩ := hputs
  refine ⟨?_, ?_, ?_, ?_⟩
  · rw [hchain, hputs]
    exact fun u hu => (h.published u hu).append more
  · rw [hchain]
    exact fun u hu key hkey => hallocated (h.owned u hu key hkey)
  · rw [hchain, hversions]
    exact fun u hu key hkey => (h.fresh u hu key hkey).imp_right (And.imp_left hspent)
  · rw [hversions]
    exact hdeleting

/-- An update is queued behind the others. -/
theorem InstObjects.enqueue (h : InstObjects cfg i st n) {u : Update}
    (hversions : st'.versions = st.versions) (hputs : ∃ more, st'.puts = st.puts ++ more)
    (hallocated : st'.allocated = st.allocated) (hchain : n'.commit.chain = n.commit.chain ++ [u])
    (hphase : n'.commit.phase = n.commit.phase) (hpublished : u.Published st'.puts)
    (hnew : ∀ key, u.introduces = some key → (key, i) ∈ st.allocated ∧
      key ∉ introduced st.versions)
    (hdeleting : ∀ keys now, n'.loop.task = .deleting keys now →
      ∀ key ∈ keys, Dead st.versions key) : InstObjects cfg i st' n' := by
  obtain ⟨more, hputs⟩ := hputs
  refine ⟨fun v hv => ?_, fun v hv key hkey => ?_, fun v hv key hkey => ?_, ?_⟩
  · rw [hchain] at hv
    rcases List.mem_append.1 hv with hold | hlast
    · rw [hputs]
      exact (h.published v hold).append more
    · exact List.mem_singleton.1 hlast ▸ hpublished
  · rw [hallocated]
    rw [hchain] at hv
    rcases List.mem_append.1 hv with hold | hlast
    · exact h.owned v hold key hkey
    · exact (hnew key (List.mem_singleton.1 hlast ▸ hkey)).1
  · rw [hversions, hphase, hchain]
    rw [hchain] at hv
    rcases List.mem_append.1 hv with hold | hlast
    · refine (h.fresh v hold key hkey).imp_right (And.imp_right fun hhead => ?_)
      rw [List.head?_append, hhead]
      rfl
    · exact .inl (hnew key (List.mem_singleton.1 hlast ▸ hkey)).2
  · rw [hversions]
    exact hdeleting

/-- The commit at the head of the chain is over. -/
theorem InstObjects.settled (h : InstObjects cfg i st n) (hloop : LoopOk n) {u : Update}
    {us : List Update} (hchain : n.commit.chain = u :: us) (htail : n'.commit.chain = us)
    (hs : Settles u n n') : InstObjects cfg i st n' := by
  have hmem : ∀ v ∈ us, v ∈ n.commit.chain := fun v hv => hchain ▸ List.mem_cons_of_mem _ hv
  refine ⟨?_, ?_, ?_, fun keys now htask => ?_⟩
  rotate_left 3
  · cases hu : u.ofLoop with
    | true => exact absurd (hs.task hu) (by simp [htask, Task.Rests])
    | false => exact h.deleting keys now (hs.loop hu ▸ htask)
  all_goals rw [htail]
  · exact fun v hv => h.published v (hmem v hv)
  · exact fun v hv => h.owned v (hmem v hv)
  · intro v hv key hkey
    refine .inl ((h.fresh v (hmem v hv) key hkey).resolve_right ?_)
    -- the loop waits for one commit, which is not the head if it is in the rest
    rintro ⟨-, hhead⟩
    have heq : u = v := by simpa [hchain] using hhead
    subst heq
    have hloopU := Update.ofLoop_of_introduces hkey
    exact absurd hloopU (List.filter_eq_nil_iff.1 (hloop.rest hchain hloopU) u hv)

theorem ObjectsGrow.of_eq (hversions : st'.versions = st.versions) (hputs : st'.puts = st.puts)
    (hallocated : st.allocated ⊆ st'.allocated) : ObjectsGrow st st' :=
  ⟨⟨[], by rw [hversions, List.append_nil]⟩, ⟨[], by rw [hputs, List.append_nil]⟩, hallocated⟩

theorem StoreObjects.upload (h : StoreObjects st) {key : ObjectKey}
    (hnew : key ∉ st.puts.map (·.1)) (body : ObjectBody) : StoreObjects (st.upload key body) := by
  refine ⟨h.names, fun v hv => (h.published v hv).append _, fun p hp => ?_⟩
  rw [Store.upload_objects]
  rcases List.mem_append.1 hp with hold | hlast
  · have hne : p.1 ≠ key := by
      rintro rfl
      exact hnew (List.mem_map_of_mem hold)
    rw [if_neg hne]
    exact h.kept p hold
  · rw [List.mem_singleton.1 hlast]
    exact .inl (if_pos rfl)

theorem StoreObjects.remove (h : StoreObjects st) {keys : List ObjectKey}
    (hdead : ∀ key ∈ keys, Dead st.versions key) : StoreObjects (st.remove keys) := by
  refine ⟨h.names, h.published, fun p hp => ?_⟩
  simp only [Store.remove]
  split
  · rename_i hmem
    exact .inr (hdead p.1 (List.contains_iff_mem.1 hmem))
  · exact h.kept p hp

/-- What `collectGarbage` finds deletable is dead. -/
theorem dead_of_deletable (hlinear : Linear cfg st.versions) (hsync : Synced cfg i st n) {now : Nat}
    {key : ObjectKey} (hkey : key ∈ n.commit.cached.deletable now) : Dead st.versions key := by
  obtain ⟨hdue, hnot⟩ := List.mem_filter.1 hkey
  obtain ⟨entry, hentry, rfl⟩ := List.mem_map.1 hdue
  have hpending := List.mem_of_mem_filter hentry
  rw [hsync.cached] at hpending hnot
  refine ⟨_, hsync.cachedTag, (hlinear.named hsync.cachedTag).2 entry hpending, fun hlive => ?_⟩
  simp [hlive] at hnot

theorem InstObjects.of_loop {a : LoopAct} (hlinear : Linear cfg st.versions)
    (hsync : Synced cfg i st n) (hi : InstKeys cfg i st n) (hst : StoreObjects st)
    (h : InstObjects cfg i st n) (hs : LoopStep cfg i st n a st' n') :
    StoreObjects st' ∧ InstObjects cfg i st' n' ∧ ObjectsGrow st st' := by
  have hsame : ∃ more, st.puts = st.puts ++ more := ⟨[], (List.append_nil _).symm⟩
  have hgo : ∀ {n' : Instance}, n'.commit = n.commit →
      (∀ keys now, n'.loop.task ≠ .deleting keys now) → InstObjects cfg i st n' :=
    fun hcommit htask => h.keep rfl hsame (List.Subset.refl _) (by rw [hcommit])
      (by rw [hcommit]; exact id) fun keys now hdel => absurd hdel (htask keys now)
  have hquiet : ∀ {n' : Instance}, n'.commit = n.commit →
      (∀ keys now, n'.loop.task ≠ .deleting keys now) →
        StoreObjects st ∧ InstObjects cfg i st n' ∧ ObjectsGrow st st :=
    fun hcommit htask => ⟨hst, hgo hcommit htask, .of_eq rfl rfl (List.Subset.refl _)⟩
  have hupload : ∀ {key : ObjectKey}, n.loop.task.uploads = some key →
      ∀ body, StoreObjects (st.upload key body) ∧ ObjectsGrow st (st.upload key body) := by
    intro key hkey body
    exact ⟨hst.upload (hi.uploads key hkey).2 body,
      ⟨⟨[], (List.append_nil _).symm⟩, ⟨_, rfl⟩, List.Subset.refl _⟩⟩
  have hfresh : ∀ {key : ObjectKey}, n.loop.task.uploads = some key →
      (key, i) ∈ st.allocated ∧ key ∉ introduced st.versions := fun hkey =>
    ⟨(hi.uploads _ hkey).1, fun hmem => (hi.uploads _ hkey).2 (hst.exists_put hmem)⟩
  have hcollect : ∀ {st' : Store ι} (now : Nat), st'.versions = st.versions → st'.puts = st.puts →
      st'.allocated = st.allocated → InstObjects cfg i st' (n.enqueue (.collect now)) :=
    fun now hversions hputs hallocated => h.enqueue hversions ⟨[], by rw [hputs, List.append_nil]⟩
      hallocated rfl rfl trivial (fun key hkey => by cases hkey) fun keys now htask =>
        by cases htask
  cases hs with
  | ensure => exact hquiet rfl (by simp [Instance.withTask])
  | fail => exact hquiet rfl (by simp [Instance.failLoop])
  | flush =>
      exact ⟨⟨hst.names, hst.published, hst.kept⟩,
        h.keep rfl hsame (List.subset_append_left _ _) rfl id fun keys now htask =>
          by (cases htask),
        .of_eq rfl rfl (List.subset_append_left _ _)⟩
  | putSegment ref batch htask =>
      have hkey : n.loop.task.uploads = some ref.key := by rw [htask]; rfl
      obtain ⟨hst', hgrow⟩ := hupload hkey (.segment batch)
      refine ⟨hst', h.enqueue rfl hgrow.puts rfl rfl rfl ?_ ?_ fun keys now hdel => by (cases hdel),
        hgrow⟩
      · exact List.mem_append_right _ List.mem_cons_self
      · rintro key ⟨⟩
        exact hfresh hkey
  | lostSegment ref batch htask =>
      have hkey : n.loop.task.uploads = some ref.key := by rw [htask]; rfl
      obtain ⟨hst', hgrow⟩ := hupload hkey (.segment batch)
      exact ⟨hst', h.keep rfl hgrow.puts hgrow.allocated rfl id fun keys now hdel =>
        by (cases hdel),
        hgrow⟩
  | failedSegment => exact hquiet rfl (by simp [Instance.withTask])
  | skip => exact hquiet rfl (by simp [Instance.withTask])
  | compact =>
      exact ⟨⟨hst.names, hst.published, hst.kept⟩,
        h.keep rfl hsame (List.subset_append_left _ _) rfl id fun keys now htask =>
          by (cases htask),
        .of_eq rfl rfl (List.subset_append_left _ _)⟩
  | putSnapshot now key record log htask =>
      have hkey : n.loop.task.uploads = some key := by rw [htask]; rfl
      obtain ⟨hst', hgrow⟩ := hupload hkey (.snapshot record log)
      refine ⟨hst', h.enqueue rfl hgrow.puts rfl rfl rfl ?_ ?_ fun keys now hdel => by (cases hdel),
        hgrow⟩
      · exact ⟨record, List.mem_append_right _ List.mem_cons_self⟩
      · rintro key' ⟨⟩
        exact hfresh hkey
  | lostSnapshot now key record log htask =>
      have hkey : n.loop.task.uploads = some key := by rw [htask]; rfl
      obtain ⟨hst', hgrow⟩ := hupload hkey (.snapshot record log)
      exact ⟨hst', h.keep rfl hgrow.puts hgrow.allocated rfl id fun keys now hdel =>
        by (cases hdel),
        hgrow⟩
  | failedSnapshot => exact hquiet rfl (by simp [Instance.withTask])
  | nothingDue => exact hquiet rfl (by simp [Instance.withTask])
  | collect now => exact ⟨hst, hcollect now rfl rfl rfl, .of_eq rfl rfl (List.Subset.refl _)⟩
  | startDelete now =>
      refine ⟨hst, h.keep rfl hsame (List.Subset.refl _) rfl id fun keys now' htask => ?_,
        .of_eq rfl rfl (List.Subset.refl _)⟩
      cases htask
      -- what is dead in the manifest of the instance is dead in every later one
      exact fun key hkey => dead_of_deletable hlinear hsync hkey
  | delete done keys now htask hdone =>
      exact ⟨hst.remove fun key hkey => h.deleting keys now htask key (hdone hkey),
        hcollect now rfl rfl rfl, .of_eq rfl rfl (List.Subset.refl _)⟩
  | deleteThrew done keys now htask hdone =>
      exact ⟨hst.remove fun key hkey => h.deleting keys now htask key (hdone hkey),
        h.keep rfl hsame (List.Subset.refl _) rfl id fun keys now hdel => by (cases hdel),
        .of_eq rfl rfl (List.Subset.refl _)⟩

/-- The steps of `i` do not touch what another instance will commit. -/
theorem InstObjects.others {m : Instance} (h : InstObjects cfg j st m) (hkeys : StoreKeys cfg st)
    (hgrow : ObjectsGrow st st')
    (hnew : ∀ key, key ∈ introduced st'.versions → key ∉ introduced st.versions →
      (key, i) ∈ st.allocated) (hj : j ≠ i) : InstObjects cfg j st' m := by
  obtain ⟨⟨versions, hversions⟩, ⟨puts, hputs⟩, hallocated⟩ := hgrow
  refine ⟨?_, fun u hu key hkey => hallocated (h.owned u hu key hkey), fun u hu key hkey => ?_, ?_⟩
  · rw [hputs]
    exact fun u hu => (h.published u hu).append puts
  · refine (h.fresh u hu key hkey).imp_left fun hold hmem => ?_
    exact hj (hkeys.eq_of_allocated (h.owned u hu key hkey) (hnew key hmem hold))
  · rw [hversions]
    exact fun keys now htask key hkey => (h.deleting keys now htask key hkey).append versions

/-- A commit that is put brings in what no version had brought in. -/
theorem StoreObjects.publish (hst : StoreObjects st) (h : InstObjects cfg i st n) {u : Update}
    {us : List Update} (hchain : n.commit.chain = u :: us)
    (hspent : ¬ n.commit.phase.spent cfg.mode) (next : ManifestRecord) :
    StoreObjects (st.publish i next u) ∧
      ∀ key, key ∈ introduced (st.publish i next u).versions → key ∉ introduced st.versions →
        u.introduces = some key ∧ (key, i) ∈ st.allocated := by
  have hmem : u ∈ n.commit.chain := hchain ▸ List.mem_cons_self
  have hnew : ∀ key, u.introduces = some key → key ∉ introduced st.versions := fun key hkey =>
    (h.fresh u hmem key hkey).resolve_right fun hs => hspent hs.1
  have hintro : introduced (st.publish i next u).versions =
      introduced st.versions ++ u.introduces.toList := by
    rw [Store.publish, introduced_append]
    cases hkey : u.introduces <;> simp [introduced, hkey]
  refine ⟨⟨?_, fun v hv => ?_, fun p hp => (hst.kept p hp).imp_right (·.append _)⟩,
    fun key hkey hnot => ?_⟩
  · rw [hintro]
    cases hkey : u.introduces with
    | none => simpa using hst.names
    | some key =>
        exact hst.names.append (List.nodup_singleton _)
          (by simpa using hnew key hkey)
  · rcases List.mem_append.1 hv with hold | hlast
    · exact hst.published v hold
    · rw [List.mem_singleton.1 hlast]
      exact h.published u hmem
  · rw [hintro] at hkey
    have hadded := (List.mem_append.1 hkey).resolve_left hnot
    have heq : u.introduces = some key := by simpa using hadded
    exact ⟨heq, h.owned u hmem key heq⟩

/-- What a step of `i` brings in was chosen by `i`. -/
def BringsOwn (i : ι) (st st' : Store ι) : Prop :=
  ∀ key, key ∈ introduced st'.versions → key ∉ introduced st.versions → (key, i) ∈ st.allocated

theorem BringsOwn.of_eq (h : st'.versions = st.versions) : BringsOwn i st st' := by
  intro key hkey hnot
  rw [h] at hkey
  exact absurd hkey hnot

theorem InstObjects.of_commit {a : CommitAct} (honce : (Act.commit a).PutsOnce cfg.mode)
    (hloop : LoopOk n) (hst : StoreObjects st) (h : InstObjects cfg i st n)
    (hs : CommitStep cfg i st n a st' n') :
    StoreObjects st' ∧ InstObjects cfg i st' n' ∧ ObjectsGrow st st' ∧ BringsOwn i st st' := by
  have hsame : ∃ more, st.puts = st.puts ++ more := ⟨[], (List.append_nil _).symm⟩
  have hrefl : ObjectsGrow st st := .of_eq rfl rfl (List.Subset.refl _)
  have hquiet : ∀ {n' : Instance}, InstObjects cfg i st n' →
      StoreObjects st ∧ InstObjects cfg i st n' ∧ ObjectsGrow st st ∧ BringsOwn i st st :=
    fun h' => ⟨hst, h', hrefl, .of_eq rfl⟩
  have hphase : ∀ {phase : CommitPhase}, (n.commit.phase.spent cfg.mode → phase.spent cfg.mode) →
      InstObjects cfg i st (n.withPhase phase) :=
    fun hspent => h.keep rfl hsame (List.Subset.refl _) rfl hspent h.deleting
  have hresolve : ∀ {m : Instance} {u : Update} {us : List Update} (next cached : ManifestRecord)
      (tag : Nat), n.commit.chain = u :: us → m.loop = n.loop → m.commit.chain = n.commit.chain →
        InstObjects cfg i st (m.resolve u next cached tag) :=
    fun next cached tag hchain hm hmchain =>
      h.settled hloop hchain (by simp [hmchain, hchain]) (.resolve hm _ next cached tag)
  have hreject : ∀ {m : Instance} {u : Update} {us : List Update} (notWriter : Bool),
      n.commit.chain = u :: us → m.loop = n.loop → m.commit.chain = n.commit.chain →
        InstObjects cfg i st (m.reject u notWriter) :=
    fun notWriter hchain hm hmchain =>
      h.settled hloop hchain (by simp [hmchain, hchain]) (.reject hm _ notWriter)
  cases hs with
  | setMeta key value =>
      exact hquiet (h.enqueue rfl hsame rfl rfl rfl trivial (fun key hkey => by cases hkey)
        h.deleting)
  | startOptimistic _ hwaiting =>
      exact hquiet
        (h.keep rfl hsame (List.Subset.refl _) rfl (by simp [hwaiting, CommitPhase.spent])
        h.deleting)
  | start _ hwaiting => exact hquiet (hphase (by simp [hwaiting, CommitPhase.spent]))
  | grant hstarted => exact hquiet (hphase (by simp [hstarted, CommitPhase.spent]))
  | issue u us hgranted => exact hquiet (hphase (by simp [hgranted, CommitPhase.spent]))
  | put outcome ifMatch next u us reply hissued hchain hmatch hreply hconflict =>
      have hnot : ¬ n.commit.phase.spent cfg.mode := by simp [hissued, CommitPhase.spent]
      obtain ⟨hst', hbrings⟩ := hst.publish h hchain hnot next
      have hspent : (CommitPhase.replied next reply).spent cfg.mode := by
        cases reply with
        | ok tag => trivial
        | conflict => exact honce (hconflict rfl)
        | failed => trivial
      refine ⟨hst', ⟨h.published, h.owned, fun v hv key hkey => ?_, fun keys now htask key hkey =>
        (h.deleting keys now htask key hkey).append _⟩,
        ⟨⟨_, rfl⟩, hsame, List.Subset.refl _⟩, fun key hkey hold => (hbrings key hkey hold).2⟩
      by_cases hadded : key ∈ introduced (st.publish i next u).versions
      · -- only the head of the chain is the loop's
        refine .inr ⟨hspent, ?_⟩
        have hold := (h.fresh v hv key hkey).resolve_right fun hs => hnot hs.1
        have hu := (hbrings key hadded hold).1
        have hv' : v ∈ u :: us := hchain ▸ hv
        rcases List.mem_cons.1 hv' with heq | hrest
        · simp [Instance.withPhase, hchain, heq]
        · have hnone := hloop.rest hchain (Update.ofLoop_of_introduces hu)
          exact absurd (Update.ofLoop_of_introduces hkey) (List.filter_eq_nil_iff.1 hnone v hrest)
      · exact .inl hadded
  | putRefused outcome ifMatch next u us reply hissued =>
      exact hquiet (hphase (by simp [hissued, CommitPhase.spent]))
  | answer next tag u us _ hchain =>
      exact hquiet (hresolve next next tag hchain (by simp) (by simp))
  | answerConflict next u us hreplied =>
      exact hquiet (hphase (by simp [hreplied, CommitPhase.spent]))
  | answerFailed next u us _ hchain => exact hquiet (hreject false hchain rfl rfl)
  | readBack ok next hconflicted =>
      exact hquiet (hphase (by simp [hconflicted, CommitPhase.spent]))
  | adopt tag next u us _ hchain => exact hquiet (hresolve next _ tag hchain rfl rfl)
  | fence tag next u us _ hchain => exact hquiet (hreject true hchain rfl rfl)
  | giveUp tag next u us _ hchain => exact hquiet (hreject false hchain rfl rfl)
  | retry tag next u us hfound _ hopt =>
      exact hquiet (hphase (by simp [hfound, hopt, CommitPhase.spent]))
  | reload hreloading => exact hquiet (hphase (by simp [hreloading, CommitPhase.spent]))
  | reloaded tag hreloaded =>
      exact hquiet (h.keep rfl hsame (List.Subset.refl _) rfl
        (by simp [hreloaded, CommitPhase.spent]) h.deleting)
  | refuse notWriter u us hchain => exact hquiet (hreject notWriter hchain rfl rfl)

/-- What the objects of a room rest on. -/
structure KeyedRoom (cfg : Config ι) (s : FleetState ι) : Prop where
  linear : Linear cfg s.shared.versions
  sync : ∀ i, Synced cfg i s.shared (s.locals i)
  loop : ∀ i, LoopOk (s.locals i)
  keys : StoreKeys cfg s.shared
  inst : ∀ i, InstKeys cfg i s.shared (s.locals i)

theorem keyedRoom [DecidableEq ι] {G : Guard ι}
    (hG : ∀ {i st n a}, G i st n a → PutsOnce cfg i st n a)
    (hinj : cfg.mode = .optimistic → Function.Injective cfg.writerId) {s : FleetState ι}
    (h : FleetReach cfg G s) : KeyedRoom cfg s := by
  obtain ⟨hlinear, hsync⟩ := synced h
  obtain ⟨hkeys, hinst⟩ := keys (fun hg => (hG hg).1) hinj h
  exact ⟨hlinear, hsync, fun i => loopOk h i, hkeys, hinst⟩

theorem StoreObjects.start : StoreObjects (.start : Store ι) where
  names := .nil
  published := fun _ hv => by cases hv
  kept := fun _ hp => by cases hp

theorem InstObjects.start (i : ι) : InstObjects cfg i .start (.start cfg.memory) where
  published := fun _ hu => by cases hu
  owned := fun _ hu => by cases hu
  fresh := fun _ hu => by cases hu
  deleting := fun _ _ htask => by cases htask

/-- The objects of a room. -/
theorem objects [DecidableEq ι] {G : Guard ι}
    (hG : ∀ {i st n a}, G i st n a → PutsOnce cfg i st n a)
    (hinj : cfg.mode = .optimistic → Function.Injective cfg.writerId) {s : FleetState ι}
    (h : FleetReach cfg G s) : s.All StoreObjects (InstObjects cfg) := by
  suffices hown : ∀ {s : FleetState ι} {i : ι} {a : Act} {st' : Store ι} {n' : Instance},
      KeyedRoom cfg s → s.All StoreObjects (InstObjects cfg) → G i s.shared (s.locals i) a →
        Step cfg i s.shared (s.locals i) a st' n' →
          StoreObjects st' ∧ InstObjects cfg i st' n' ∧ ObjectsGrow s.shared st' ∧
            BringsOwn i s.shared st' by
    refine FleetReach.invariant (keyedRoom hG hinj) .start (fun i => .start i) ?_ ?_ h
    · intro s i a st' n' hroom hall hg hs
      obtain ⟨hst', hi, -⟩ := hown hroom hall hg hs
      exact ⟨hst', hi⟩
    · intro s i a st' n' hroom hall hg hs j hj
      obtain ⟨-, -, hgrow, hbrings⟩ := hown hroom hall hg hs
      exact (hall.2 j).others hroom.keys hgrow hbrings hj
  rintro s i a st' n' hroom ⟨hst, hall⟩ hg hs
  -- a step that touches neither an object nor a commit
  have hkeep : s.shared.allocated = st'.allocated → st'.versions = s.shared.versions →
      st'.puts = s.shared.puts → st'.objects = s.shared.objects →
        n'.commit.chain = (s.locals i).commit.chain →
          n'.commit.phase = (s.locals i).commit.phase →
            n'.loop.task = (s.locals i).loop.task →
              StoreObjects st' ∧ InstObjects cfg i st' n' ∧ ObjectsGrow s.shared st' ∧
                BringsOwn i s.shared st' := by
    intro hallocated hversions hputs hobjects hchain hphase htask
    have hgrow :
        ObjectsGrow s.shared st' := .of_eq hversions hputs (hallocated ▸ List.Subset.refl _)
    refine ⟨⟨?_, ?_, ?_⟩, (hall i).keep hversions hgrow.puts hgrow.allocated hchain ?_ ?_, hgrow,
      .of_eq hversions⟩
    · rw [hversions]
      exact hst.names
    · rw [hversions, hputs]
      exact hst.published
    · rw [hversions, hputs, hobjects]
      exact hst.kept
    · rw [hphase]
      exact id
    · rw [htask]
      exact (hall i).deleting
  cases hs with
  | room hs => cases hs <;> exact hkeep rfl rfl rfl rfl rfl rfl rfl
  | lease => exact hkeep rfl rfl rfl rfl rfl rfl rfl
  | loop hs =>
      obtain ⟨hst', hi, hgrow⟩ :=
        (hall i).of_loop hroom.linear (hroom.sync i) (hroom.inst i) hst hs
      exact ⟨hst', hi, hgrow, .of_eq (by cases hs <;> rfl)⟩
  | commit hs => exact (hall i).of_commit (hG hg).2 (hroom.loop i) hst hs
  | refresh hs =>
      refine hkeep rfl rfl rfl rfl ?_ hs.commit_phase ?_ <;>
        cases hs <;> simp [Instance.withRefresh, Instance.dropRefresh, Instance.withHeld]
      rename_i tag _ _ _
      rcases Instance.adopt_commit s.shared (s.locals i) tag with heq | ⟨-, heq⟩ <;>
        rw [heq]

/-! ## What a boot reads -/

/-- The records of the segments, one after the other. -/
def readSegments (objects : Objects) : List ObjectKey → Option (List Entry)
  | [] => some []
  | key :: keys => do
    let lines ← segmentLines objects key
    let rest ← readSegments objects keys
    return lines ++ rest

/-- The records that a boot of the manifest reads: those of its snapshot, then those of its
segments. -/
def readLog (objects : Objects) (m : ManifestRecord) : Option (List Entry) := do
  let base ←
    match m.snapshotKey with
    | none => some []
    | some key => (snapshotOf objects key).map (·.2)
  let rest ← readSegments objects m.segments
  return base ++ rest

/-- The records after a list of commits. -/
def extendAll (updates : List Update) : List Entry :=
  updates.foldl Update.extend []

/-- The uploads that the manifest names hold the records. -/
def Represents (puts : List (ObjectKey × ObjectBody)) (m : ManifestRecord) (log : List Entry) :
    Prop :=
  ∃ base batches, (m.snapshotKey = none ∧ base = [] ∨
      ∃ key record, m.snapshotKey = some key ∧ (key, .snapshot record base) ∈ puts) ∧
    List.Forall₂ (fun key batch => (key, .segment batch) ∈ puts) m.segments batches ∧
    log = base ++ batches.flatten

theorem Represents.mutate {puts : List (ObjectKey × ObjectBody)} {m : ManifestRecord}
    {log : List Entry} (h : Represents puts m log) {u : Update} (hu : u.Published puts) :
    Represents puts (u.mutate m) (u.extend log) := by
  obtain ⟨base, batches, hbase, hsegments, rfl⟩ := h
  cases u with
  | append ref batch =>
      refine ⟨base, batches ++ [batch], hbase, ?_, ?_⟩
      · have hlast : List.Forall₂ (fun key batch => (key, ObjectBody.segment batch) ∈ puts)
            [ref.key] [batch] := .cons hu .nil
        simpa [Update.mutate, ManifestRecord.segments] using List.rel_append hsegments hlast
      · simp [Update.extend]
  | setMeta key value => exact ⟨base, batches, hbase, hsegments, rfl⟩
  | compact key hlc deletableAt log =>
      obtain ⟨record, hput⟩ := hu
      exact ⟨log, [], .inr ⟨key, record, rfl, hput⟩, .nil, (List.append_nil _).symm⟩
  | collect now => exact ⟨base, batches, hbase, hsegments, rfl⟩

theorem StoreObjects.represents (hst : StoreObjects st) (hlinear : Linear cfg st.versions)
    {k : Nat} (hk : k ≤ st.tip) :
    Represents st.puts (manifestAt st.versions k) (logAt st.versions k) := by
  induction k with
  | zero => exact ⟨[], [], .inl ⟨rfl, rfl⟩, .nil, rfl⟩
  | succ k ih =>
      have hlt : k < st.versions.length := Nat.lt_of_succ_le hk
      have hv := List.getElem?_eq_getElem hlt
      obtain ⟨⟨epoch, hrecord⟩, hlog⟩ := hlinear.built hv
      have hbase : Represents st.puts (buildNext cfg.mode epoch
          (cfg.writerId st.versions[k].author) (manifestAt st.versions k)) (logAt st.versions k) :=
        ih (Nat.le_of_succ_le hk)
      rw [manifestAt, logAt, tagged_of_getElem? hv, tagged_of_getElem? hv, hrecord, hlog]
      exact hbase.mutate (hst.published _ (List.getElem_mem hlt))

theorem Linear.logAt_eq {versions : List (Version ι)} (h : Linear cfg versions) {k : Nat}
    (hk : k ≤ versions.length) :
    logAt versions k = extendAll ((versions.take k).map (·.update)) := by
  induction k with
  | zero => rfl
  | succ k ih =>
      have hlt : k < versions.length := Nat.lt_of_succ_le hk
      have hv := List.getElem?_eq_getElem hlt
      rw [logAt, tagged_of_getElem? hv, (h.built hv).2, ih (Nat.le_of_succ_le hk),
        List.take_succ_eq_append_getElem hlt, extendAll, extendAll, List.map_append,
        List.foldl_append]
      rfl

/-- The objects of a manifest that are there are read as they were uploaded. -/
theorem Represents.readLog {puts : List (ObjectKey × ObjectBody)} {objects : Objects}
    {m : ManifestRecord} {log : List Entry} (h : Represents puts m log)
    (hkept : ∀ key ∈ m.live, ∀ body, (key, body) ∈ puts → objects key = some body) :
    readLog objects m = some log := by
  obtain ⟨base, batches, hbase, hsegments, rfl⟩ := h
  have hrest : ∀ {keys : List ObjectKey} {batches : List (List Entry)},
      (∀ key ∈ keys, key ∈ m.live) →
        List.Forall₂ (fun key batch => (key, ObjectBody.segment batch) ∈ puts) keys batches →
          readSegments objects keys = some batches.flatten := by
    intro keys batches hlive hputs
    induction hputs with
    | nil => rfl
    | cons hput _ ih =>
        have hobject := hkept _ (hlive _ List.mem_cons_self) _ hput
        simp [readSegments, segmentLines, hobject,
          ih fun key hkey => hlive key (List.mem_cons_of_mem _ hkey)]
  have hsegs := hrest (fun key hkey => List.mem_append_right _ hkey) hsegments
  rcases hbase with ⟨hnone, rfl⟩ | ⟨key, record, hsome, hput⟩
  · simp [Fleet.readLog, hnone, hsegs]
  · have hobject := hkept key (by simp [ManifestRecord.live, hsome]) _ hput
    simp [Fleet.readLog, hsome, snapshotOf, hobject, hsegs]

theorem StoreObjects.readLog (hst : StoreObjects st) (hlinear : Linear cfg st.versions) :
    readLog st.objects (manifestAt st.versions st.tip) = some (logAt st.versions st.tip) := by
  refine (hst.represents hlinear le_rfl).readLog fun key hlive body hput => ?_
  exact (hst.kept _ hput).resolve_right fun hdead => hdead.not_live hlinear hst.names hlive

/-- An optimistic commit that nobody else disturbs. -/
def commitEvents (i : ι) : List (ι × Act) :=
  [(i, .commit .start), (i, .commit .issue), (i, .commit (.put .ok)), (i, .commit .answer)]

end Fleet
end ObjectStorage
end Reflectdb
