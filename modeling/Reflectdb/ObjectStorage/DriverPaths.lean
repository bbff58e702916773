import Reflectdb.ObjectStorage.Drivers

/-!
# Driver paths — keys and prefixes as lists of segments

A key is where its segments lead.  A prefix is a directory, which is what stands before its last
slash, and the start of a name in it.
-/

namespace Reflectdb
namespace ObjectStorage

open Lib

/-! ## Segments -/

theorem segments_ne_nil (t : Text) : segments t ≠ [] :=
  List.splitOn_ne_nil slash t

theorem intercalate_segments (t : Text) : [slash].intercalate (segments t) = t :=
  List.intercalate_splitOn slash

theorem segments_injective : Function.Injective segments := fun t u h => by
  rw [← intercalate_segments t, h, intercalate_segments]

theorem slash_notMem {t segment : Text} (h : segment ∈ segments t) : slash ∉ segment :=
  notMem_of_mem_splitOn h

/-- The segments of a text that starts with joined segments. -/
theorem segments_append {path : List Text} (h : ∀ segment ∈ path, slash ∉ segment)
    (last rest : Text) :
    segments ([slash].intercalate (path ++ [last]) ++ rest) = path ++ segments (last ++ rest) := by
  induction path with
  | nil => simp
  | cons segment path ih =>
      have htail := ih fun n hn => h n (List.mem_cons_of_mem _ hn)
      rw [List.cons_append, List.intercalate_cons_of_ne_nil (by simp), List.append_assoc,
        List.append_assoc, segments, List.singleton_append,
        List.splitOn_append_cons_self_of_not_mem (h segment List.mem_cons_self)]
      rw [List.cons_append, ← htail, segments]

/-- A text with the prefix is below the directory of the prefix. -/
theorem exists_below_prefix {pre t : Text} (h : pre <+: t) :
    ∃ path, path ≠ [] ∧ segments t = (segments pre).dropLast ++ path := by
  obtain ⟨rest, rfl⟩ := h
  have hsplit := List.dropLast_append_getLast (segments_ne_nil pre)
  have hpre := intercalate_segments pre
  refine ⟨segments ((segments pre).getLast (segments_ne_nil pre) ++ rest), segments_ne_nil _, ?_⟩
  rw [← segments_append fun segment hs => slash_notMem (List.dropLast_subset _ hs), hsplit, hpre]

/-! ## Keys -/

theorem ne_nil_of_keyOk {key segment : Text} (h : keyOk key = true) (hs : segment ∈ segments key) :
    segment ≠ [] := by
  have hok : segmentsOk false (segments key) = true := by
    simp only [keyOk, Bool.and_eq_true] at h
    exact h.2
  have hsegment := List.all_eq_true.1 hok segment hs
  rintro rfl
  simp at hsegment

theorem resolve_of_keyOk {key : Text} (h : keyOk key = true) : resolve key = segments key := by
  refine List.filter_eq_self.2 fun segment hs => ?_
  simpa using ne_nil_of_keyOk h hs

theorem resolve_beforeLastSlash {t : Text} (h : ∀ segment ∈ (segments t).dropLast, segment ≠ []) :
    resolve (beforeLastSlash t) = (segments t).dropLast := by
  rw [resolve, beforeLastSlash]
  by_cases hnil : (segments t).dropLast = []
  · rw [hnil]
    rfl
  · have hslash : ∀ segment ∈ (segments t).dropLast, slash ∉ segment := fun segment hs =>
      slash_notMem (List.dropLast_subset _ hs)
    rw [segments, List.splitOn_intercalate slash hslash hnil]
    refine List.filter_eq_self.2 fun segment hs => ?_
    simpa using h segment hs

/-- The directory and the name of a key. -/
theorem exists_name (key : Text) :
    ∃ name ∈ segments key, segments key = (segments key).dropLast ++ [name] :=
  ⟨_, List.getLast_mem (segments_ne_nil key),
    (List.dropLast_append_getLast (segments_ne_nil key)).symm⟩

theorem startsWithTemp_tempName (counter : Nat) (random : Text) :
    startsWithTemp (FilesystemDriver.tempName counter random) = true := by
  rw [startsWithTemp, FilesystemDriver.tempName, List.append_assoc]
  exact List.isPrefixOf_iff_prefix.2 (List.prefix_append _ _)

/-! ## The walk -/

theorem intercalate_ne_nil {path : List Text} (h : ∀ segment ∈ path, segment ≠ [])
    (hpath : path ≠ []) : [slash].intercalate path ≠ [] := by
  cases path with
  | nil => exact absurd rfl hpath
  | cons segment path =>
      have hsegment := h segment List.mem_cons_self
      cases path with
      | nil => simpa using hsegment
      | cons n path => simp [List.intercalate_cons_cons]

theorem intercalate_concat {path : List Text} (h : path ≠ []) (name : Text) :
    [slash].intercalate (path ++ [name]) = [slash].intercalate path ++ slash :: name := by
  induction path with
  | nil => exact absurd rfl h
  | cons segment path ih =>
      cases path with
      | nil => simp [List.intercalate_cons_cons]
      | cons n path =>
          have htail := ih (List.cons_ne_nil _ _)
          rw [List.cons_append, List.intercalate_cons_of_ne_nil (by simp), htail,
            List.intercalate_cons_cons]
          simp

theorem keyIn_intercalate {path : List Text} (h : ∀ segment ∈ path, segment ≠ []) (name : Text) :
    keyIn ([slash].intercalate path) name = [slash].intercalate (path ++ [name]) := by
  by_cases hpath : path = []
  · subst hpath
    simp [keyIn]
  · rw [keyIn, if_neg (intercalate_ne_nil h hpath), intercalate_concat hpath]

/-- The key that a walk finds at the end of a path. -/
theorem foldl_keyIn {base path : List Text} (h : ∀ segment ∈ base ++ path, segment ≠ []) :
    path.foldl keyIn ([slash].intercalate base) = [slash].intercalate (base ++ path) := by
  induction path generalizing base with
  | nil => simp
  | cons name path ih =>
      have hbase : ∀ segment ∈ base, segment ≠ [] := fun segment hs =>
        h segment (List.mem_append_left _ hs)
      rw [List.foldl_cons, keyIn_intercalate hbase, ih (by simpa using h), List.append_assoc,
        List.singleton_append]

/-- A walk passes the files with no temporary name on their way. -/
theorem walk_eq (base : Text) (d : Dir Text Body) :
    walk base d = (d.files.filter fun f => f.1.all fun name => !startsWithTemp name).map
      fun f => ⟨f.1.foldl keyIn base, f.2.length⟩ := by
  induction d generalizing base with
  | empty => rfl
  | file name body rest ih =>
      rw [walk, ih, Dir.files]
      cases hname : startsWithTemp name with
      | true => simp [hname]
      | false => simp [hname]
  | dir name sub rest ihsub ih =>
      rw [walk, ih, ihsub, Dir.files, List.filter_append, List.map_append]
      cases hname : startsWithTemp name with
      | true => simp [List.filter_map, Function.comp_def, hname]
      | false => simp [List.filter_map, Function.comp_def, hname]

end ObjectStorage
end Reflectdb
