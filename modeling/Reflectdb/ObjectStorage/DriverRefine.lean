import Reflectdb.ObjectStorage.DriverPaths
import Reflectdb.ObjectStorage.DriverRuns

/-!
# Driver refinement — the files of a tree are the objects of a map

`Mirrors` relates the two stores: a file is at the segments of a stored key and holds its bytes, and
a directory is above the segments of a key.  Each operation is followed through it on its own; what
the etags add is stated about whole runs.
-/

namespace Reflectdb
namespace ObjectStorage

open Lib

/-! ## The stores -/

/-- The files of the tree are the objects of the map. -/
structure Mirrors (K : Keyspace) (m : MemoryDriver) (root : Dir Text Body) : Prop where
  keyed : root.Keyed
  stored : ∀ {key r}, m.get key = some r → K.keys key
  file_iff : ∀ {path body}, root.stat path = some (.file body) ↔
    ∃ key r, m.get key = some r ∧ r.body = body ∧ segments key = path
  dir : ∀ {path}, root.stat path = some .dir →
    path = [] ∨ ∃ key, K.keys key ∧ path <+: segments key ∧ path ≠ segments key

namespace Mirrors

variable {K : Keyspace} {m : MemoryDriver} {root : Dir Text Body} {key : Text}

theorem start : Mirrors K ⟨∅, 0⟩ .empty where
  keyed := trivial
  stored h := by simp [MemoryDriver.get] at h
  file_iff {path} {body} := by
    cases path with
    | nil => simp [MemoryDriver.get]
    | cons n path => simp [MemoryDriver.get]
  dir {path} h := by
    cases path with
    | nil => exact Or.inl rfl
    | cons n path => simp at h

/-- No key is a directory. -/
theorem not_dir (h : Mirrors K m root) (hkey : K.keys key) :
    root.stat (segments key) ≠ some .dir := by
  intro hdir
  rcases h.dir hdir with hnil | ⟨key', hkey', hpre, hne⟩
  · exact segments_ne_nil key hnil
  · exact hne (congrArg segments (K.prefix_free hkey hkey' hpre))

/-- The bytes at a key. -/
theorem stat_key (h : Mirrors K m root) (hkey : K.keys key) :
    root.stat (segments key) = (m.get key).map fun r => .file r.body := by
  cases hstat : root.stat (segments key) with
  | none =>
      cases hget : m.get key with
      | none => rfl
      | some r =>
          rw [h.file_iff.2 ⟨key, r, hget, rfl, rfl⟩] at hstat
          cases hstat
  | some kind =>
      cases kind with
      | dir => exact absurd hstat (h.not_dir hkey)
      | file body =>
          obtain ⟨key', r, hget, rfl, hsegments⟩ := h.file_iff.1 hstat
          rw [← segments_injective hsegments, hget]
          rfl

/-- Nothing has a temporary name. -/
theorem no_temp (h : Mirrors K m root) {path : List Text} {kind : Kind Body}
    (hstat : root.stat path = some kind) : ∀ name ∈ path, startsWithTemp name = false := by
  cases kind with
  | file body =>
      obtain ⟨key', r, hget, -, rfl⟩ := h.file_iff.1 hstat
      exact K.no_temp (h.stored hget)
  | dir =>
      rcases h.dir hstat with rfl | ⟨key', hkey', hpre, -⟩
      · simp
      · exact fun name hname => K.no_temp hkey' name (hpre.subset hname)

/-- No object is in the way of the directories of a key. -/
theorem not_file_above (h : Mirrors K m root) (hkey : K.keys key) {path : List Text}
    (hpre : path <+: (segments key).dropLast) (body : Body) :
    root.stat path ≠ some (.file body) := by
  intro hfile
  obtain ⟨key', r, hget, -, rfl⟩ := h.file_iff.1 hfile
  have hkeys := K.prefix_free (h.stored hget) hkey (hpre.trans (List.dropLast_prefix _))
  rw [hkeys] at hpre
  have hlen := hpre.length_le
  have hpos := List.length_pos_of_ne_nil (segments_ne_nil key)
  rw [List.length_dropLast] at hlen
  omega

/-! ### Writing and deleting -/

variable {m' : MemoryDriver} {root' : Dir Text Body}

/-- Where only one key's object changed, the files elsewhere are the objects as before. -/
theorem file_iff_of_ne (h : Mirrors K m root) (hget : ∀ key' ≠ key, m'.get key' = m.get key')
    {path : List Text} (hpath : path ≠ segments key) {body : Body} :
    root.stat path = some (.file body) ↔
      ∃ key r, m'.get key = some r ∧ r.body = body ∧ segments key = path := by
  have hne : ∀ {key'}, segments key' = path → key' ≠ key := fun hs heq => by
    subst heq
    exact hpath hs.symm
  rw [h.file_iff]
  constructor
  · rintro ⟨key', r', hr', hbody, hsegments⟩
    exact ⟨key', r', (hget key' (hne hsegments)).trans hr', hbody, hsegments⟩
  · rintro ⟨key', r', hr', hbody, hsegments⟩
    exact ⟨key', r', (hget key' (hne hsegments)).symm.trans hr', hbody, hsegments⟩

/-- A key gets an object, and its directories are made. -/
theorem insert (h : Mirrors K m root) (hkey : K.keys key) {r : ObjectRecord} (hkeyed : root'.Keyed)
    (hget : ∀ key', m'.get key' = if key' = key then some r else m.get key')
    (hstat : ∀ path, root'.stat path =
      if path = segments key then some (.file r.body)
      else if path <+: (segments key).dropLast then some .dir else root.stat path) :
    Mirrors K m' root' where
  keyed := hkeyed
  stored {key'} {r'} hr' := by
    rw [hget] at hr'
    split at hr'
    · rename_i heq
      rwa [heq]
    · exact h.stored hr'
  file_iff {path} {body} := by
    rw [hstat]
    split
    · rename_i hpath
      subst hpath
      constructor
      · intro hfile
        cases hfile
        exact ⟨key, r, by rw [hget, if_pos rfl], rfl, rfl⟩
      · rintro ⟨key', r', hr', rfl, hsegments⟩
        rw [hget, if_pos (segments_injective hsegments)] at hr'
        cases hr'
        rfl
    · rename_i hpath
      have hfiles : root.stat path = some (.file body) ↔
          ∃ key r, m'.get key = some r ∧ r.body = body ∧ segments key = path :=
        h.file_iff_of_ne (fun key' hne => by rw [hget, if_neg hne]) hpath
      split
      · rename_i hpre
        rw [← hfiles]
        constructor
        · intro hfile
          cases hfile
        · intro hfile
          exact absurd hfile (h.not_file_above hkey hpre body)
      · exact hfiles
  dir {path} hdir := by
    rw [hstat] at hdir
    split at hdir
    · cases hdir
    · rename_i hpath
      split at hdir
      · rename_i hpre
        exact Or.inr ⟨key, hkey, hpre.trans (List.dropLast_prefix _), hpath⟩
      · exact h.dir hdir

/-- A key loses its object. -/
theorem erase (h : Mirrors K m root) (hkeyed : root'.Keyed)
    (hget : ∀ key', m'.get key' = if key' = key then none else m.get key')
    (hstat : ∀ path, root'.stat path = if path = segments key then none else root.stat path) :
    Mirrors K m' root' where
  keyed := hkeyed
  stored {key'} {r'} hr' := by
    rw [hget] at hr'
    split at hr'
    · cases hr'
    · exact h.stored hr'
  file_iff {path} {body} := by
    rw [hstat]
    split
    · rename_i hpath
      subst hpath
      constructor
      · intro hfile
        cases hfile
      · rintro ⟨key', r', hr', -, hsegments⟩
        rw [hget, if_pos (segments_injective hsegments)] at hr'
        cases hr'
    · rename_i hpath
      exact h.file_iff_of_ne (fun key' hne => by rw [hget, if_neg hne]) hpath
  dir {path} hdir := by
    rw [hstat] at hdir
    split at hdir
    · cases hdir
    · exact h.dir hdir

end Mirrors

/-! ## The operations -/

section Operations

variable {K : Keyspace} {m : MemoryDriver} {f : FilesystemDriver} {key : Text} {body : Body}

theorem MemoryDriver.get_insert (m : MemoryDriver) (key : Text) (r : ObjectRecord) (n : Nat)
    (key' : Text) :
    (MemoryDriver.mk (m.store.insert key r) n).get key' =
      if key' = key then some r else m.get key' := by
  rw [MemoryDriver.get, MemoryDriver.get]
  split
  · rename_i heq
    rw [heq, AList.lookup_insert]
  · rename_i hne
    exact AList.lookup_insert_ne hne

theorem FilesystemDriver.get_of_mirrors (h : Mirrors K m f.root) (hkey : K.keys key) :
    f.get key = .ok ((m.get key).map fun r => ⟨r.body, contentEtag r.body⟩) := by
  have hok := K.accepted hkey
  rw [FilesystemDriver.get, if_pos hok, resolve_of_keyOk hok, Dir.readFile, h.stat_key hkey]
  cases m.get key <;> rfl

theorem FilesystemDriver.readEtag_of_mirrors (h : Mirrors K m f.root) (hkey : K.keys key) :
    f.readEtag (segments key) = .ok ((m.get key).map fun r => contentEtag r.body) := by
  rw [FilesystemDriver.readEtag, Dir.readFile, h.stat_key hkey]
  cases m.get key <;> rfl

/-- The bytes are written to a temporary file, which takes the place of the key's file. -/
theorem FilesystemDriver.write_of_mirrors (h : Mirrors K m f.root) (hkey : K.keys key)
    (body : Body) (random : Text) :
    ∃ root, f.write key body random = (.ok (contentEtag body), ⟨root, f.tempCounter + 1⟩) ∧
      root.Keyed ∧ ∀ path, root.stat path =
        if path = segments key then some (.file body)
        else if path <+: (segments key).dropLast then some .dir else f.root.stat path := by
  have hok := K.accepted hkey
  have hdir : resolve (beforeLastSlash key) = (segments key).dropLast :=
    resolve_beforeLastSlash fun segment hs => ne_nil_of_keyOk hok (List.dropLast_subset _ hs)
  obtain ⟨name, hname, hsegments⟩ := exists_name key
  obtain ⟨root₁, hmkdir⟩ := Dir.exists_mkdirp fun path hpre => h.not_file_above hkey hpre
  have hstat₁ := Dir.stat_mkdirp hmkdir
  -- what is below the key's directory was there before
  have hbelow : ∀ n : Text, root₁.stat ((segments key).dropLast ++ [n]) =
      f.root.stat ((segments key).dropLast ++ [n]) := fun n => by
    rw [hstat₁, if_neg fun hpre => absurd hpre.length_le (by simp)]
  have htemp : root₁.stat ((segments key).dropLast ++ [tempName (f.tempCounter + 1) random]) =
      none := by
    rw [hbelow]
    refine Option.eq_none_iff_forall_ne_some.2 fun kind hstat => ?_
    have hnot := h.no_temp hstat (tempName (f.tempCounter + 1) random) (by simp)
    rw [startsWithTemp_tempName] at hnot
    cases hnot
  have htarget : root₁.stat ((segments key).dropLast ++ [name]) ≠ some .dir := by
    rw [hbelow, ← hsegments]
    exact h.not_dir hkey
  have hne : tempName (f.tempCounter + 1) random ≠ name := fun heq => by
    have hnot := K.no_temp hkey name hname
    rw [← heq, startsWithTemp_tempName] at hnot
    cases hnot
  obtain ⟨root₂, hreplace, hkeyed, hstat₂⟩ :=
    Dir.exists_replace body (h.keyed.mkdirp hmkdir)
      (by rw [hstat₁, if_pos (List.prefix_refl _)]) htemp htarget hne
  rw [← hsegments] at hreplace hstat₂
  refine ⟨root₂, ?_, hkeyed, fun path => ?_⟩
  · rw [FilesystemDriver.write, hdir, hmkdir, resolve_of_keyOk hok]
    simp only [hreplace]
  · rw [hstat₂, hstat₁]

/-- The etags of a conditional put hold in both drivers or in neither. -/
def EtagsAgree (m : MemoryDriver) (key : Text) (etags : Option Text × Option Text) : Prop :=
  etags.1.isSome = etags.2.isSome ∧
    ∀ r, m.get key = some r → (some r.etag = etags.1 ↔ some (contentEtag r.body) = etags.2)

/-- Both drivers refuse a put and are as before, or both do it. -/
theorem put_cases (h : Mirrors K m f.root) (hkey : K.keys key) {etags : Option Text × Option Text}
    (hetags : EtagsAgree m key etags) (body : Body) (ifNoneMatch : Bool) (random : Text) :
    (∃ e, m.put key body ⟨etags.1, ifNoneMatch⟩ = (.error e, m) ∧
      f.put key body ⟨etags.2, ifNoneMatch⟩ random = (.error e, f)) ∨
    ∃ root,
      m.put key body ⟨etags.1, ifNoneMatch⟩ =
        (.ok (MemoryDriver.etagOf (m.etagCounter + 1)),
          ⟨m.store.insert key ⟨body, MemoryDriver.etagOf (m.etagCounter + 1)⟩,
            m.etagCounter + 1⟩) ∧
      f.put key body ⟨etags.2, ifNoneMatch⟩ random =
        (.ok (contentEtag body), ⟨root, f.tempCounter + 1⟩) ∧
      Mirrors K ⟨m.store.insert key ⟨body, MemoryDriver.etagOf (m.etagCounter + 1)⟩,
        m.etagCounter + 1⟩ root := by
  obtain ⟨hsome, hequal⟩ := hetags
  have hok := K.accepted hkey
  obtain ⟨root, hwrite, hkeyed, hstat⟩ := FilesystemDriver.write_of_mirrors h hkey body random
  have hmirrors : Mirrors K ⟨m.store.insert key ⟨body, MemoryDriver.etagOf (m.etagCounter + 1)⟩,
      m.etagCounter + 1⟩ root :=
    h.insert hkey hkeyed (m.get_insert key _ _) hstat
  have hexists : (f.root.stat (segments key)).isSome = (m.get key).isSome := by
    rw [h.stat_key hkey, Option.isSome_map]
  have hread := FilesystemDriver.readEtag_of_mirrors h hkey
  have hrejects : ¬ keyOk key = false := by simp [hok]
  by_cases hboth : etags.1.isSome ∧ ifNoneMatch
  · refine Or.inl ⟨.failed, ?_, ?_⟩
    · rw [MemoryDriver.put, if_pos hboth]
    · rw [FilesystemDriver.put, if_neg hrejects, if_pos (by rwa [← hsome])]
  have hboth' : ¬ (etags.2.isSome ∧ ifNoneMatch) := by rwa [← hsome]
  by_cases hthere : ifNoneMatch ∧ (m.get key).isSome
  · refine Or.inl ⟨.preconditionFailed key, ?_, ?_⟩
    · rw [MemoryDriver.put, if_neg hboth]
      exact if_pos hthere
    · rw [FilesystemDriver.put, if_neg hrejects, if_neg hboth', resolve_of_keyOk hok, hexists,
        if_pos hthere]
  have hmemory : m.put key body ⟨etags.1, ifNoneMatch⟩ =
      if etags.1.isSome ∧ (m.get key).map (·.etag) ≠ etags.1 then
        (.error (.preconditionFailed key), m)
      else (.ok (MemoryDriver.etagOf (m.etagCounter + 1)),
        ⟨m.store.insert key ⟨body, MemoryDriver.etagOf (m.etagCounter + 1)⟩,
          m.etagCounter + 1⟩) := by
    rw [MemoryDriver.put, if_neg hboth]
    exact if_neg hthere
  have hfilesystem : f.put key body ⟨etags.2, ifNoneMatch⟩ random =
      if etags.2.isSome ∧ (m.get key).map (fun r => contentEtag r.body) ≠ etags.2 then
        (.error (.preconditionFailed key), f)
      else (.ok (contentEtag body), ⟨root, f.tempCounter + 1⟩) := by
    rw [FilesystemDriver.put, if_neg hrejects, if_neg hboth', resolve_of_keyOk hok, hexists,
      if_neg hthere, hread, hwrite]
    cases etags.2.isSome with
    | false => simp
    | true => simp
  have hiff : (etags.1.isSome ∧ (m.get key).map (·.etag) ≠ etags.1) ↔
      etags.2.isSome ∧ (m.get key).map (fun r => contentEtag r.body) ≠ etags.2 := by
    cases hget : m.get key with
    | none =>
        cases h₁ : etags.1 <;> cases h₂ : etags.2 <;> simp_all
    | some r =>
        have hr := hequal r hget
        rw [Option.map_some, Option.map_some, hsome]
        exact and_congr_right fun _ => not_congr hr
  by_cases hif : etags.1.isSome ∧ (m.get key).map (·.etag) ≠ etags.1
  · refine Or.inl ⟨.preconditionFailed key, ?_, ?_⟩
    · rw [hmemory, if_pos hif]
    · rw [hfilesystem, if_pos (hiff.1 hif)]
  · refine Or.inr ⟨root, ?_, ?_, hmirrors⟩
    · rw [hmemory, if_neg hif]
    · rw [hfilesystem, if_neg (mt hiff.2 hif)]

/-! ### Listings -/

theorem pairwise_sortEntries (l : List ObjectListEntry) :
    (sortEntries l).Pairwise fun a b => ¬ b.key < a.key := by
  have : Std.Total fun a b : ObjectListEntry => ¬ b.key < a.key :=
    ⟨fun a b => List.le_total a.key b.key⟩
  have : IsTrans ObjectListEntry fun a b => ¬ b.key < a.key :=
    ⟨fun a b c hab hbc hca => hab (List.lt_of_le_of_lt hbc hca)⟩
  exact List.pairwise_insertionSort _ _

/-- Entries of different keys are sorted in one way. -/
theorem sortEntries_eq {l l' : List ObjectListEntry} (hl : (l.map (·.key)).Nodup)
    (hl' : (l'.map (·.key)).Nodup) (hmem : ∀ e, e ∈ l ↔ e ∈ l') :
    sortEntries l = sortEntries l' := by
  have hperm : l.Perm l' :=
    (List.perm_ext_iff_of_nodup (List.Nodup.of_map _ hl) (List.Nodup.of_map _ hl')).2 hmem
  have hsort : (sortEntries l).Perm l := List.perm_insertionSort _ _
  have hsort' : (sortEntries l').Perm l' := List.perm_insertionSort _ _
  refine ((hsort.trans hperm).trans hsort'.symm).eq_of_pairwise ?_ (pairwise_sortEntries l)
    (pairwise_sortEntries l')
  intro a b ha hb hle hle'
  exact List.inj_on_of_nodup_map hl (hsort.mem_iff.1 ha)
    ((hmem b).2 (hsort'.mem_iff.1 hb)) (List.le_antisymm hle hle')

theorem MemoryDriver.mem_entries {m : MemoryDriver} {pre : Text} {e : ObjectListEntry} :
    (e ∈ (m.store.entries.filter fun e => pre.isPrefixOf e.1).map
      fun e => (⟨e.1, e.2.body.length⟩ : ObjectListEntry)) ↔
      pre <+: e.key ∧ ∃ r, m.get e.key = some r ∧ r.body.length = e.size := by
  rw [List.mem_map]
  constructor
  · rintro ⟨⟨key, r⟩, hmem, rfl⟩
    obtain ⟨hstored, hpre⟩ := List.mem_filter.1 hmem
    exact ⟨List.isPrefixOf_iff_prefix.1 hpre, r, AList.mem_lookup_iff.2 hstored, rfl⟩
  · rintro ⟨hpre, r, hget, hsize⟩
    refine ⟨⟨e.key, r⟩, List.mem_filter.2 ⟨AList.mem_lookup_iff.1 hget, ?_⟩, ?_⟩
    · exact List.isPrefixOf_iff_prefix.2 hpre
    · rw [hsize]

theorem MemoryDriver.nodup_entries (m : MemoryDriver) (pre : Text) :
    (((m.store.entries.filter fun e => pre.isPrefixOf e.1).map
      fun e => (⟨e.1, e.2.body.length⟩ : ObjectListEntry)).map (·.key)).Nodup := by
  have hkeys : (m.store.entries.map Sigma.fst).Nodup := m.store.nodupKeys
  have hsub : ((m.store.entries.filter fun e => pre.isPrefixOf e.1).map Sigma.fst).Sublist
      (m.store.entries.map Sigma.fst) := List.filter_sublist.map _
  rw [List.map_map]
  exact hkeys.sublist hsub

section Walk

variable {base : List Text} {sub : Dir Text Body}

/-- The paths below a directory that lead to a file are the ends of stored keys. -/
theorem stat_below_iff (h : Mirrors K m f.root) (hnode : f.root.node base = some (.dir sub))
    {path : List Text} {body : Body} :
    sub.stat path = some (.file body) ↔
      ∃ key r, m.get key = some r ∧ r.body = body ∧ segments key = base ++ path := by
  rw [← Dir.stat_append_of_node hnode, h.file_iff]

theorem walk_of_mirrors (h : Mirrors K m f.root) (hnode : f.root.node base = some (.dir sub)) :
    walk ([slash].intercalate base) sub =
      sub.files.map fun f => ⟨[slash].intercalate (base ++ f.1), f.2.length⟩ := by
  have hkeyed := h.keyed.of_node hnode
  have hkey : ∀ f ∈ sub.files, ∃ key, K.keys key ∧ segments key = base ++ f.1 := by
    intro f hf
    obtain ⟨key, r, hget, -, hsegments⟩ := (stat_below_iff h hnode).1 ((Dir.mem_files hkeyed).1 hf)
    exact ⟨key, h.stored hget, hsegments⟩
  have hall : (sub.files.filter fun f => f.1.all fun name => !startsWithTemp name) = sub.files := by
    refine List.filter_eq_self.2 fun f hf => List.all_eq_true.2 fun name hname => ?_
    obtain ⟨key, hstored, hsegments⟩ := hkey f hf
    rw [K.no_temp hstored name (hsegments ▸ List.mem_append_right _ hname)]
    rfl
  rw [walk_eq, hall]
  refine List.map_congr_left fun f hf => ?_
  obtain ⟨key, hstored, hsegments⟩ := hkey f hf
  rw [foldl_keyIn fun segment hs => ne_nil_of_keyOk (K.accepted hstored) (hsegments ▸ hs)]

theorem mem_walk (h : Mirrors K m f.root) (hnode : f.root.node base = some (.dir sub))
    {e : ObjectListEntry} :
    e ∈ walk ([slash].intercalate base) sub ↔
      (∃ path, segments e.key = base ++ path) ∧
        ∃ r, m.get e.key = some r ∧ r.body.length = e.size := by
  rw [walk_of_mirrors h hnode, List.mem_map]
  constructor
  · rintro ⟨⟨path, body⟩, hf, rfl⟩
    obtain ⟨key, r, hget, rfl, hsegments⟩ :=
      (stat_below_iff h hnode).1 ((Dir.mem_files (h.keyed.of_node hnode)).1 hf)
    simp only [← hsegments, intercalate_segments]
    exact ⟨⟨path, hsegments⟩, r, hget, rfl⟩
  · rintro ⟨⟨path, hpath⟩, r, hget, hsize⟩
    refine ⟨⟨path, r.body⟩, (Dir.mem_files (h.keyed.of_node hnode)).2 ?_, ?_⟩
    · exact (stat_below_iff h hnode).2 ⟨e.key, r, hget, rfl, hpath⟩
    · rw [← hpath, intercalate_segments, hsize]

theorem nodup_walk (h : Mirrors K m f.root) (hnode : f.root.node base = some (.dir sub)) :
    ((walk ([slash].intercalate base) sub).map (·.key)).Nodup := by
  have hkeyed := h.keyed.of_node hnode
  have hsegments : ∀ path ∈ sub.files.map (·.1),
      segments ([slash].intercalate (base ++ path)) = base ++ path := by
    intro path hpath
    obtain ⟨⟨path, body⟩, hf, rfl⟩ := List.mem_map.1 hpath
    obtain ⟨key, r, -, -, hs⟩ := (stat_below_iff h hnode).1 ((Dir.mem_files hkeyed).1 hf)
    rw [← hs, intercalate_segments]
  rw [walk_of_mirrors h hnode, List.map_map]
  have hnodup := (Dir.nodup_files hkeyed).map_on
    (f := fun path => [slash].intercalate (base ++ path)) fun p hp q hq heq => by
      have hpq := (hsegments p hp).symm.trans ((congrArg segments heq).trans (hsegments q hq))
      exact List.append_cancel_left hpq
  rwa [List.map_map] at hnodup

end Walk

/-- The listings are the same. -/
theorem list_of_mirrors (h : Mirrors K m f.root) {pre : Text} (hok : prefixOk pre = true)
    (hpre : ∀ segment ∈ (segments pre).dropLast, segment ≠ []) :
    f.list pre = .ok (m.list pre) := by
  simp only [FilesystemDriver.list, if_pos hok, resolve_beforeLastSlash hpre, MemoryDriver.list]
  have hdir : ∀ {key}, pre <+: key → ∀ {r}, m.get key = some r →
      f.root.stat (segments pre).dropLast = some .dir := by
    intro key hstarts r hget
    obtain ⟨path, hne, hpath⟩ := exists_below_prefix hstarts
    have hfile := h.file_iff.2 ⟨key, r, hget, rfl, hpath⟩
    cases path with
    | nil => exact absurd rfl hne
    | cons name path => exact Dir.stat_above hfile
  by_cases hbase : f.root.stat (segments pre).dropLast = some .dir
  · obtain ⟨sub, hnode⟩ := Dir.exists_node_of_dir hbase
    have hwalk := nodup_walk h hnode
    rw [hnode]
    refine congrArg Except.ok (sortEntries_eq ?_ (m.nodup_entries pre) fun e => ?_)
    · exact hwalk.sublist (List.filter_sublist.map _)
    · rw [MemoryDriver.mem_entries, List.mem_filter, beforeLastSlash, mem_walk h hnode,
        List.isPrefixOf_iff_prefix]
      constructor
      · rintro ⟨⟨-, hstored⟩, hstarts⟩
        exact ⟨hstarts, hstored⟩
      · rintro ⟨hstarts, hstored⟩
        obtain ⟨path, -, hpath⟩ := exists_below_prefix hstarts
        exact ⟨⟨⟨path, hpath⟩, hstored⟩, hstarts⟩
  · have hnone : ∀ sub, f.root.node (segments pre).dropLast ≠ some (.dir sub) := fun sub hnode =>
      hbase (Dir.stat_of_node hnode)
    have hempty : ((m.store.entries.filter fun e => pre.isPrefixOf e.1).map
        fun e => (⟨e.1, e.2.body.length⟩ : ObjectListEntry)) = [] := by
      refine List.eq_nil_iff_forall_not_mem.2 fun e he => ?_
      obtain ⟨hstarts, r, hget, -⟩ := MemoryDriver.mem_entries.1 he
      exact hbase (hdir hstarts hget)
    rw [hempty]
    split
    · rename_i sub hnode
      exact absurd hnode (hnone sub)
    · rfl

/-! ### Deleting -/

theorem MemoryDriver.get_erase (m : MemoryDriver) (key key' : Text) :
    (MemoryDriver.mk (m.store.erase key) m.etagCounter).get key' =
      if key' = key then none else m.get key' := by
  rw [MemoryDriver.get, MemoryDriver.get]
  split
  · rename_i heq
    rw [heq, AList.lookup_erase]
  · rename_i hne
    exact AList.lookup_erase_ne hne

theorem MemoryDriver.get_of_delete {m : MemoryDriver} {keys : List Text} {key : Text}
    {r : ObjectRecord} (h : (m.delete keys).get key = some r) : m.get key = some r := by
  induction keys generalizing m with
  | nil => exact h
  | cons key' keys ih =>
      have hrest := ih (m := ⟨m.store.erase key', m.etagCounter⟩) h
      rw [m.get_erase] at hrest
      split at hrest
      · cases hrest
      · exact hrest

theorem delete_of_mirrors (h : Mirrors K m f.root) {keys : List Text}
    (hkeys : ∀ key ∈ keys, K.keys key) :
    ∃ f', FilesystemDriver.delete keys f = (.ok (), f') ∧ Mirrors K (m.delete keys) f'.root := by
  induction keys generalizing m f with
  | nil => exact ⟨f, rfl, h⟩
  | cons key keys ih =>
      have hkey := hkeys key List.mem_cons_self
      have hrest := fun key hmem => hkeys key (List.mem_cons_of_mem _ hmem)
      have hok := K.accepted hkey
      have hstat := h.stat_key hkey
      rw [FilesystemDriver.delete, if_pos hok, resolve_of_keyOk hok]
      cases hget : m.get key with
      | none =>
          rw [hget] at hstat
          have hsame : Mirrors K ⟨m.store.erase key, m.etagCounter⟩ f.root := by
            refine h.erase h.keyed (m.get_erase key) fun path => ?_
            split
            · rename_i hpath
              rw [hpath, hstat]
              rfl
            · rfl
          obtain ⟨f', hdelete, hmirrors⟩ := ih hsame hrest
          refine ⟨f', ?_, hmirrors⟩
          rw [Dir.unlink, hstat]
          exact hdelete
      | some r =>
          rw [hget] at hstat
          obtain ⟨root', hunlink, hkeyed, hstat'⟩ := Dir.unlink_of_file h.keyed hstat
          have herased : Mirrors K ⟨m.store.erase key, m.etagCounter⟩ root' :=
            h.erase hkeyed (m.get_erase key) hstat'
          obtain ⟨f', hdelete, hmirrors⟩ := ih (f := { f with root := root' }) herased hrest
          refine ⟨f', ?_, hmirrors⟩
          rw [hunlink]
          exact hdelete

end Operations

end ObjectStorage
end Reflectdb
