import Mathlib.Data.List.Basic
import Mathlib.Data.List.Nodup
import Mathlib.Data.Option.Basic

/-!
# File trees — directories of files under paths of names

A directory is the list of its entries.  What an operation does is stated by the kind of node that
each path has afterwards: `stat` of a path tells whether a file with some body is there, a
directory, or nothing.
-/

namespace Reflectdb
namespace Lib

/-- The entries of a directory. -/
inductive Dir (ν β : Type)
  | empty
  | file (name : ν) (body : β) (rest : Dir ν β)
  | dir (name : ν) (sub rest : Dir ν β)

inductive Node (ν β : Type)
  | file (body : β)
  | dir (sub : Dir ν β)

/-- What is at a path, without the entries of a directory. -/
inductive Kind (β : Type)
  | file (body : β)
  | dir

variable {ν β : Type}

def Node.kind : Node ν β → Kind β
  | .file body => .file body
  | .dir _ => .dir

namespace Dir

variable [DecidableEq ν]

def entry : Dir ν β → ν → Option (Node ν β)
  | .empty, _ => none
  | .file n body rest, name => if n = name then some (.file body) else rest.entry name
  | .dir n sub rest, name => if n = name then some (.dir sub) else rest.entry name

def cons (name : ν) : Node ν β → Dir ν β → Dir ν β
  | .file body, rest => .file name body rest
  | .dir sub, rest => .dir name sub rest

/-- Replace the entry of a name, or add it. -/
def set (name : ν) (node : Node ν β) : Dir ν β → Dir ν β
  | .empty => cons name node .empty
  | .file n body rest =>
    if n = name then cons name node rest else .file n body (rest.set name node)
  | .dir n sub rest => if n = name then cons name node rest else .dir n sub (rest.set name node)

def erase (name : ν) : Dir ν β → Dir ν β
  | .empty => .empty
  | .file n body rest => if n = name then rest.erase name else .file n body (rest.erase name)
  | .dir n sub rest => if n = name then rest.erase name else .dir n sub (rest.erase name)

/-- The node at a path. -/
def node : List ν → Dir ν β → Option (Node ν β)
  | [], d => some (.dir d)
  | n :: path, d =>
    match d.entry n with
    | none => none
    | some (.file body) => if path = [] then some (.file body) else none
    | some (.dir sub) => node path sub

def stat (d : Dir ν β) (path : List ν) : Option (Kind β) :=
  (node path d).map Node.kind

/-- Put a node at a path, or remove what is there; the directory above it has to be there. -/
def alter (node : Option (Node ν β)) : List ν → Dir ν β → Option (Dir ν β)
  | [], _ => none
  | [n], d =>
    match node with
    | none => some (d.erase n)
    | some node => some (d.set n node)
  | n :: m :: path, d =>
    match d.entry n with
    | some (.dir sub) => (alter node (m :: path) sub).map fun sub => d.set n (.dir sub)
    | _ => none

/-- `mkdir -p`; nothing if a file is in the way. -/
def mkdirp : List ν → Dir ν β → Option (Dir ν β)
  | [], d => some d
  | n :: path, d =>
    match d.entry n with
    | none => (mkdirp path .empty).map fun sub => d.set n (.dir sub)
    | some (.dir sub) => (mkdirp path sub).map fun sub => d.set n (.dir sub)
    | some (.file _) => none

inductive FileError
  | notFound
  | isDirectory
  deriving DecidableEq

def readFile (path : List ν) (d : Dir ν β) : Except FileError β :=
  match d.stat path with
  | none => .error .notFound
  | some .dir => .error .isDirectory
  | some (.file body) => .ok body

/-- Nothing where a directory is in the way, or none is above. -/
def writeFile (path : List ν) (body : β) (d : Dir ν β) : Option (Dir ν β) :=
  match d.stat path with
  | some .dir => none
  | _ => alter (some (.file body)) path d

/-- A file takes the place of another, or a new one. -/
def rename (source target : List ν) (d : Dir ν β) : Option (Dir ν β) :=
  match d.stat source, d.stat target with
  | some (.file _), some .dir => none
  | some (.file body), _ => (alter none source d).bind (alter (some (.file body)) target)
  | _, _ => none

def unlink (path : List ν) (d : Dir ν β) : Except FileError (Dir ν β) :=
  match d.stat path with
  | none => .error .notFound
  | some .dir => .error .isDirectory
  | some (.file _) => .ok ((alter none path d).getD d)

/-- The files of a tree, with their paths. -/
def files : Dir ν β → List (List ν × β)
  | .empty => []
  | .file name body rest => ([name], body) :: rest.files
  | .dir name sub rest => sub.files.map (fun f => (name :: f.1, f.2)) ++ rest.files

/-- No directory has two entries of one name. -/
def Keyed : Dir ν β → Prop
  | .empty => True
  | .file name _ rest => rest.entry name = none ∧ rest.Keyed
  | .dir name sub rest => rest.entry name = none ∧ sub.Keyed ∧ rest.Keyed

/-! ### Entries -/

section Entries

variable {d : Dir ν β} {n name : ν} {x : Node ν β}

theorem entry_cons : (cons n x d).entry name = if n = name then some x else d.entry name := by
  cases x <;> rfl

theorem entry_set : (d.set n x).entry name = if n = name then some x else d.entry name := by
  induction d with
  | empty => rw [set, entry_cons]
  | file m body rest ih =>
      rw [set]
      split
      · rename_i heq
        subst heq
        rw [entry_cons, entry]
        split <;> rfl
      · rename_i hne
        rw [entry, entry, ih]
        split
        · rename_i heq
          rw [if_neg fun h => hne (heq.trans h.symm)]
        · rfl
  | dir m sub rest _ ih =>
      rw [set]
      split
      · rename_i heq
        subst heq
        rw [entry_cons, entry]
        split <;> rfl
      · rename_i hne
        rw [entry, entry, ih]
        split
        · rename_i heq
          rw [if_neg fun h => hne (heq.trans h.symm)]
        · rfl

theorem entry_erase : (d.erase n).entry name = if n = name then none else d.entry name := by
  induction d with
  | empty => simp [erase, entry]
  | file m body rest ih =>
      rw [erase]
      split
      · rename_i heq
        subst heq
        rw [ih, entry]
        split <;> rfl
      · rename_i hne
        rw [entry, entry, ih]
        split
        · rename_i heq
          rw [if_neg fun h => hne (heq.trans h.symm)]
        · rfl
  | dir m sub rest _ ih =>
      rw [erase]
      split
      · rename_i heq
        subst heq
        rw [ih, entry]
        split <;> rfl
      · rename_i hne
        rw [entry, entry, ih]
        split
        · rename_i heq
          rw [if_neg fun h => hne (heq.trans h.symm)]
        · rfl

end Entries

/-! ### Kinds -/

end Dir

/-- What is at a path below a node. -/
def Node.stat [DecidableEq ν] : Node ν β → List ν → Option (Kind β)
  | .file body, [] => some (.file body)
  | .file _, _ :: _ => none
  | .dir sub, path => sub.stat path

@[simp] theorem Node.stat_dir [DecidableEq ν] (sub : Dir ν β) (path : List ν) :
    (Node.dir sub).stat path = sub.stat path := by
  cases path <;> rfl

namespace Dir

variable [DecidableEq ν] {d d' : Dir ν β} {n : ν} {path p q : List ν} {x : Option (Node ν β)}

@[simp] theorem stat_nil : d.stat [] = some .dir := rfl

theorem stat_cons : d.stat (n :: path) = (d.entry n).bind fun x => x.stat path := by
  rw [stat, node]
  cases d.entry n with
  | none => rfl
  | some x =>
      cases x with
      | file body => cases path <;> rfl
      | dir sub => rfl

@[simp] theorem stat_empty_cons : (empty : Dir ν β).stat (n :: path) = none := by
  rw [stat_cons]
  rfl

/-- An altered path shows what was put there, and the other paths are as they were. -/
theorem stat_alter (h : alter x p d = some d') (q : List ν) :
    d'.stat q = if p <+: q then x.bind fun y => y.stat (q.drop p.length) else d.stat q := by
  induction p generalizing d d' q with
  | nil => cases h
  | cons n p ih =>
      cases q with
      | nil => simp
      | cons k q =>
          cases p with
          | nil =>
              have hentry : d'.entry k = if n = k then x else d.entry k := by
                cases x with
                | none =>
                    cases h
                    exact entry_erase
                | some y =>
                    cases h
                    exact entry_set
              rw [stat_cons, hentry, stat_cons]
              by_cases hk : n = k
              · subst hk
                simp
              · simp [hk]
          | cons m p =>
              rw [alter] at h
              split at h
              · rename_i sub hsub
                obtain ⟨sub', hsub', rfl⟩ := Option.map_eq_some_iff.1 h
                rw [stat_cons, entry_set, stat_cons]
                by_cases hk : n = k
                · subst hk
                  rw [if_pos rfl, hsub, Option.bind_some, Option.bind_some]
                  simpa [List.cons_prefix_cons] using ih hsub' q
                · rw [if_neg hk, if_neg fun hpre => hk (List.cons_prefix_cons.1 hpre).1]
              · cases h

theorem stat_mkdirp (h : mkdirp p d = some d') (q : List ν) :
    d'.stat q = if q <+: p then some .dir else d.stat q := by
  induction p generalizing d d' q with
  | nil =>
      cases h
      cases q with
      | nil => simp
      | cons k q => simp
  | cons n p ih =>
      cases q with
      | nil => simp
      | cons k q =>
          rw [mkdirp] at h
          split at h
          · rename_i hnone
            obtain ⟨sub', hsub', rfl⟩ := Option.map_eq_some_iff.1 h
            rw [stat_cons, entry_set, stat_cons]
            by_cases hk : n = k
            · subst hk
              rw [if_pos rfl, hnone, Option.bind_some, Option.bind_none]
              have hsub := ih hsub' q
              cases q with
              | nil => simp
              | cons m q => simpa [List.cons_prefix_cons] using hsub
            · rw [if_neg hk, if_neg fun hpre => hk (List.cons_prefix_cons.1 hpre).1.symm]
          · rename_i sub hsub
            obtain ⟨sub', hsub', rfl⟩ := Option.map_eq_some_iff.1 h
            rw [stat_cons, entry_set, stat_cons]
            by_cases hk : n = k
            · subst hk
              rw [if_pos rfl, hsub, Option.bind_some, Option.bind_some]
              simpa [List.cons_prefix_cons] using ih hsub' q
            · rw [if_neg hk, if_neg fun hpre => hk (List.cons_prefix_cons.1 hpre).1.symm]
          · cases h

/-- Above an existing path everything is a directory. -/
theorem stat_above {k : Kind β} (h : d.stat (p ++ n :: path) = some k) :
    d.stat p = some .dir := by
  induction p generalizing d with
  | nil => rfl
  | cons m p ih =>
      rw [List.cons_append, stat_cons] at h
      rw [stat_cons]
      cases hm : d.entry m with
      | none =>
          rw [hm] at h
          cases h
      | some y =>
          rw [hm, Option.bind_some] at h
          cases y with
          | file body => cases p <;> cases h
          | dir sub =>
              rw [Node.stat_dir] at h
              exact ih h

theorem stat_append_of_node {sub : Dir ν β} (h : node p d = some (.dir sub)) (q : List ν) :
    d.stat (p ++ q) = sub.stat q := by
  induction p generalizing d with
  | nil =>
      cases h
      rfl
  | cons n p ih =>
      rw [node] at h
      rw [List.cons_append, stat_cons]
      cases hn : d.entry n with
      | none =>
          rw [hn] at h
          cases h
      | some y =>
          rw [hn] at h
          cases y with
          | file body => simp at h
          | dir sub' => simpa using ih h

theorem exists_node_of_dir (h : d.stat p = some .dir) : ∃ sub, node p d = some (.dir sub) := by
  obtain ⟨y, hy, hkind⟩ := Option.map_eq_some_iff.1 h
  cases y with
  | file body => cases hkind
  | dir sub => exact ⟨sub, hy⟩

theorem stat_of_node {sub : Dir ν β} (h : node p d = some (.dir sub)) : d.stat p = some .dir := by
  rw [stat, h]
  rfl

theorem exists_alter (x : Option (Node ν β)) (h : d.stat p = some .dir) (n : ν) :
    ∃ d', alter x (p ++ [n]) d = some d' := by
  induction p generalizing d with
  | nil =>
      cases x with
      | none => exact ⟨_, rfl⟩
      | some y => exact ⟨_, rfl⟩
  | cons m p ih =>
      rw [stat_cons] at h
      cases hm : d.entry m with
      | none =>
          rw [hm] at h
          cases h
      | some y =>
          rw [hm, Option.bind_some] at h
          cases y with
          | file body => cases p <;> cases h
          | dir sub =>
              rw [Node.stat_dir] at h
              obtain ⟨sub', hsub'⟩ := ih h
              cases hpath : p ++ [n] with
              | nil => simp at hpath
              | cons k path =>
                  refine ⟨d.set m (.dir sub'), ?_⟩
                  rw [hpath] at hsub'
                  rw [List.cons_append, hpath, alter, hm]
                  exact Option.map_eq_some_iff.2 ⟨sub', hsub', rfl⟩

/-- Directories can be made where no file is in the way. -/
theorem exists_mkdirp (h : ∀ q, q <+: p → ∀ body, d.stat q ≠ some (.file body)) :
    ∃ d', mkdirp p d = some d' := by
  induction p generalizing d with
  | nil => exact ⟨d, rfl⟩
  | cons n p ih =>
      rw [mkdirp]
      cases hn : d.entry n with
      | none =>
          have hempty : ∀ q, q <+: p → ∀ body, (empty : Dir ν β).stat q ≠ some (.file body) := by
            intro q _ body
            cases q with
            | nil => simp
            | cons k q => simp
          obtain ⟨sub', hsub'⟩ := ih hempty
          exact ⟨d.set n (.dir sub'), Option.map_eq_some_iff.2 ⟨sub', hsub', rfl⟩⟩
      | some y =>
          cases y with
          | file body =>
              refine absurd ?_ (h [n] (List.cons_prefix_cons.2 ⟨rfl, List.nil_prefix⟩) body)
              rw [stat_cons, hn]
              rfl
          | dir sub =>
              have hsub : ∀ q, q <+: p → ∀ body, sub.stat q ≠ some (.file body) := by
                intro q hq body hfile
                refine h (n :: q) (List.cons_prefix_cons.2 ⟨rfl, hq⟩) body ?_
                rw [stat_cons, hn, Option.bind_some, Node.stat_dir, hfile]
              obtain ⟨sub', hsub'⟩ := ih hsub
              exact ⟨d.set n (.dir sub'), Option.map_eq_some_iff.2 ⟨sub', hsub', rfl⟩⟩

/-! ### Trees without two entries of one name -/

end Dir

def Node.Keyed [DecidableEq ν] : Node ν β → Prop
  | .file _ => True
  | .dir sub => sub.Keyed

namespace Dir

variable [DecidableEq ν] {d d' : Dir ν β} {n : ν} {path p : List ν}

theorem Keyed.of_entry (h : d.Keyed) {x : Node ν β} (hx : d.entry n = some x) : x.Keyed := by
  induction d with
  | empty => cases hx
  | file m body rest ih =>
      rw [entry] at hx
      split at hx
      · cases hx
        trivial
      · exact ih h.2 hx
  | dir m sub rest _ ih =>
      rw [entry] at hx
      split at hx
      · cases hx
        exact h.2.1
      · exact ih h.2.2 hx

theorem Keyed.of_node (h : d.Keyed) {sub : Dir ν β} (hn : node p d = some (.dir sub)) :
    sub.Keyed := by
  induction p generalizing d with
  | nil =>
      cases hn
      exact h
  | cons n p ih =>
      rw [node] at hn
      cases hentry : d.entry n with
      | none =>
          rw [hentry] at hn
          cases hn
      | some y =>
          rw [hentry] at hn
          cases y with
          | file body => simp at hn
          | dir sub' => exact ih (h.of_entry hentry) hn

theorem Keyed.cons (h : d.Keyed) {x : Node ν β} (hx : x.Keyed) (hnone : d.entry n = none) :
    (Dir.cons n x d).Keyed := by
  cases x with
  | file body => exact ⟨hnone, h⟩
  | dir sub => exact ⟨hnone, hx, h⟩

theorem Keyed.set (h : d.Keyed) {x : Node ν β} (hx : x.Keyed) : (d.set n x).Keyed := by
  induction d with
  | empty => exact Keyed.cons (d := .empty) trivial hx rfl
  | file m body rest ih =>
      rw [Dir.set]
      split
      · rename_i heq
        exact h.2.cons hx (heq ▸ h.1)
      · rename_i hne
        refine ⟨?_, ih h.2⟩
        rw [entry_set, if_neg fun heq => hne heq.symm]
        exact h.1
  | dir m sub rest _ ih =>
      rw [Dir.set]
      split
      · rename_i heq
        exact h.2.2.cons hx (heq ▸ h.1)
      · rename_i hne
        refine ⟨?_, h.2.1, ih h.2.2⟩
        rw [entry_set, if_neg fun heq => hne heq.symm]
        exact h.1

theorem Keyed.erase (h : d.Keyed) : (d.erase n).Keyed := by
  induction d with
  | empty => trivial
  | file m body rest ih =>
      rw [Dir.erase]
      split
      · exact ih h.2
      · refine ⟨?_, ih h.2⟩
        rw [entry_erase, h.1]
        split <;> rfl
  | dir m sub rest _ ih =>
      rw [Dir.erase]
      split
      · exact ih h.2.2
      · refine ⟨?_, h.2.1, ih h.2.2⟩
        rw [entry_erase, h.1]
        split <;> rfl

theorem Keyed.alter (h : d.Keyed) {x : Option (Node ν β)} (hx : ∀ y ∈ x, y.Keyed)
    (ha : Dir.alter x p d = some d') : d'.Keyed := by
  induction p generalizing d d' with
  | nil => cases ha
  | cons n p ih =>
      cases p with
      | nil =>
          cases x with
          | none =>
              cases ha
              exact h.erase
          | some y =>
              cases ha
              exact h.set (hx y rfl)
      | cons m p =>
          rw [Dir.alter] at ha
          split at ha
          · rename_i sub hsub
            obtain ⟨sub', hsub', rfl⟩ := Option.map_eq_some_iff.1 ha
            exact h.set (x := .dir sub') (ih (h.of_entry hsub) hsub')
          · cases ha

theorem Keyed.mkdirp (h : d.Keyed) (hm : Dir.mkdirp p d = some d') : d'.Keyed := by
  induction p generalizing d d' with
  | nil =>
      cases hm
      exact h
  | cons n p ih =>
      rw [Dir.mkdirp] at hm
      split at hm
      · obtain ⟨sub', hsub', rfl⟩ := Option.map_eq_some_iff.1 hm
        exact h.set (x := .dir sub') (ih (d := .empty) trivial hsub')
      · rename_i sub hsub
        obtain ⟨sub', hsub', rfl⟩ := Option.map_eq_some_iff.1 hm
        exact h.set (x := .dir sub') (ih (h.of_entry hsub) hsub')
      · cases hm

theorem entry_of_stat {k : Kind β} (h : d.stat (n :: path) = some k) : d.entry n ≠ none := by
  intro hnone
  rw [stat_cons, hnone] at h
  cases h

theorem mem_files (h : d.Keyed) {body : β} :
    (path, body) ∈ d.files ↔ d.stat path = some (.file body) := by
  induction d generalizing path with
  | empty =>
      cases path with
      | nil => simp [files]
      | cons n path => simp [files]
  | file name contents rest ih =>
      rw [files, List.mem_cons, ih h.2]
      cases path with
      | nil => simp
      | cons n path =>
          rw [stat_cons, stat_cons, entry]
          by_cases hn : name = n
          · subst hn
            rw [h.1, if_pos rfl]
            cases path <;> simp [Node.stat, eq_comm]
          · simp [hn, Ne.symm hn]
  | dir name sub rest ihsub ih =>
      rw [files, List.mem_append, ih h.2.2]
      cases path with
      | nil => simp
      | cons n path =>
          rw [stat_cons, stat_cons, entry]
          by_cases hn : name = n
          · subst hn
            rw [h.1, if_pos rfl, Option.bind_some, Node.stat_dir, ← ihsub h.2.1]
            simp
          · simp [hn]

/-- A file's path starts with an entry of the directory. -/
theorem entry_of_mem_files (h : d.Keyed) {body : β} (hf : (n :: path, body) ∈ d.files) :
    d.entry n ≠ none :=
  entry_of_stat ((mem_files h).1 hf)

theorem nodup_files (h : d.Keyed) : (d.files.map (·.1)).Nodup := by
  induction d with
  | empty => exact List.nodup_nil
  | file name contents rest ih =>
      rw [files, List.map_cons, List.nodup_cons]
      refine ⟨fun hmem => ?_, ih h.2⟩
      obtain ⟨⟨path, body⟩, hf, rfl⟩ := List.mem_map.1 hmem
      exact entry_of_mem_files h.2 hf h.1
  | dir name sub rest ihsub ih =>
      rw [files, List.map_append, List.map_map]
      have hsub : (sub.files.map (List.cons name ∘ Prod.fst)).Nodup := by
        rw [← List.map_map]
        exact (ihsub h.2.1).map (List.cons_injective)
      refine List.nodup_append.2 ⟨hsub, ih h.2.2, fun p hp q hq => ?_⟩
      obtain ⟨f, -, rfl⟩ := List.mem_map.1 hp
      obtain ⟨⟨path, body⟩, hf, rfl⟩ := List.mem_map.1 hq
      rintro rfl
      exact entry_of_mem_files h.2.2 hf h.1

/-! ### Files -/

/-- A path with a node in it: what is below is there only if the node is a directory. -/
theorem stat_below {q : List ν} (hdir : d.stat path ≠ some .dir) (hpre : path <+: q)
    (hne : q ≠ path) : d.stat q = none := by
  obtain ⟨rest, rfl⟩ := hpre
  cases rest with
  | nil => exact absurd (List.append_nil path) hne
  | cons k rest =>
      cases hstat : d.stat (path ++ k :: rest) with
      | none => rfl
      | some kind => exact absurd (stat_above hstat) hdir

theorem stat_alter_file {body : β} (h : alter (some (.file body)) path d = some d')
    (hdir : d.stat path ≠ some .dir) (q : List ν) :
    d'.stat q = if q = path then some (.file body) else d.stat q := by
  rw [stat_alter h]
  by_cases hpre : path <+: q
  · rw [if_pos hpre]
    by_cases hq : q = path
    · subst hq
      simp [Node.stat]
    · rw [if_neg hq, stat_below hdir hpre hq]
      obtain ⟨rest, rfl⟩ := hpre
      cases rest with
      | nil => exact absurd (List.append_nil path) hq
      | cons k rest => simp [Node.stat]
  · rw [if_neg hpre, if_neg fun heq : q = path => hpre (heq ▸ List.prefix_refl _)]

theorem stat_alter_none (h : alter none path d = some d') (hdir : d.stat path ≠ some .dir)
    (q : List ν) : d'.stat q = if q = path then none else d.stat q := by
  rw [stat_alter h]
  by_cases hpre : path <+: q
  · rw [if_pos hpre]
    by_cases hq : q = path
    · rw [if_pos hq]
      rfl
    · rw [if_neg hq, stat_below hdir hpre hq]
      rfl
  · rw [if_neg hpre, if_neg fun heq : q = path => hpre (heq ▸ List.prefix_refl _)]

/-- A file written under a name of its own and renamed over the target. -/
theorem exists_replace (body : β) {temp name : ν} (h : d.Keyed) (hparent : d.stat p = some .dir)
    (htemp : d.stat (p ++ [temp]) = none) (htarget : d.stat (p ++ [name]) ≠ some .dir)
    (hne : temp ≠ name) :
    ∃ d', (writeFile (p ++ [temp]) body d).bind (rename (p ++ [temp]) (p ++ [name])) = some d' ∧
      d'.Keyed ∧ ∀ q, d'.stat q = if q = p ++ [name] then some (.file body) else d.stat q := by
  have hpath : ∀ {a : ν}, p ≠ p ++ [a] := fun heq => by simpa using congrArg List.length heq
  have hnames : p ++ [name] ≠ p ++ [temp] := fun heq => hne (by simpa using heq.symm)
  obtain ⟨d₁, hwrite⟩ := exists_alter (some (.file body)) hparent temp
  have hnot : d.stat (p ++ [temp]) ≠ some .dir := by simp [htemp]
  have hstat₁ := stat_alter_file hwrite hnot
  obtain ⟨d₂, hremove⟩ := exists_alter (none : Option (Node ν β))
    (show d₁.stat p = some .dir by rw [hstat₁, if_neg hpath, hparent]) temp
  have hfile₁ : d₁.stat (p ++ [temp]) = some (.file body) := by rw [hstat₁, if_pos rfl]
  have hstat₂ := stat_alter_none hremove (by simp [hfile₁])
  obtain ⟨d₃, hput⟩ := exists_alter (some (.file body))
    (show d₂.stat p = some .dir by rw [hstat₂, if_neg hpath, hstat₁, if_neg hpath, hparent]) name
  have htarget₁ : d₁.stat (p ++ [name]) ≠ some .dir := by
    rw [hstat₁, if_neg hnames]
    exact htarget
  have htarget₂ : d₂.stat (p ++ [name]) ≠ some .dir := by
    rw [hstat₂, if_neg hnames]
    exact htarget₁
  have hstat₃ := stat_alter_file hput htarget₂
  refine ⟨d₃, ?_, ?_, fun q => ?_⟩
  · have hwritten : writeFile (p ++ [temp]) body d = some d₁ := by
      rw [writeFile, htemp]
      exact hwrite
    have hrenamed : rename (p ++ [temp]) (p ++ [name]) d₁ = some d₃ := by
      rw [rename, hfile₁]
      cases hkind : d₁.stat (p ++ [name]) with
      | none =>
          rw [hremove]
          exact hput
      | some kind =>
          cases kind with
          | dir => exact absurd hkind htarget₁
          | file body =>
              rw [hremove]
              exact hput
    rw [hwritten, Option.bind_some, hrenamed]
  · have h₁ : d₁.Keyed := h.alter (fun y hy => by cases hy; trivial) hwrite
    have h₂ : d₂.Keyed := h₁.alter (fun y hy => by cases hy) hremove
    exact h₂.alter (fun y hy => by cases hy; trivial) hput
  · rw [hstat₃, hstat₂, hstat₁]
    by_cases hq : q = p ++ [name]
    · rw [if_pos hq, if_pos hq]
    · rw [if_neg hq, if_neg hq]
      by_cases hqt : q = p ++ [temp]
      · rw [if_pos hqt, hqt, htemp]
      · rw [if_neg hqt, if_neg hqt]

theorem unlink_of_file {body : β} (h : d.Keyed) (hfile : d.stat path = some (.file body)) :
    ∃ d', unlink path d = .ok d' ∧ d'.Keyed ∧
      ∀ q, d'.stat q = if q = path then none else d.stat q := by
  obtain ⟨d', hd'⟩ : ∃ d', alter none path d = some d' := by
    rcases List.eq_nil_or_concat path with rfl | ⟨p, n, rfl⟩
    · cases hfile
    · rw [List.concat_eq_append] at hfile ⊢
      exact exists_alter none (stat_above hfile) n
  refine ⟨d', ?_, h.alter (fun y hy => by cases hy) hd', stat_alter_none hd' ?_⟩
  · rw [unlink, hfile, hd']
    rfl
  · simp [hfile]

end Dir

end Lib
end Reflectdb
