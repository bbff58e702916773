import Reflectdb.Lib.UrlPath
import Reflectdb.Lib.Text

/-!
# S3Keys — from a room's keys to the object names on S3

`roomPrefix` encodes the room id, the driver puts its own prefix before the key, encodes the path
and hands it to the URL parser; the object's name is the decoded path.  Encoding leaves a dot as it
is, so the parser takes a room id that is a dot segment for one.
-/

namespace Reflectdb
namespace ObjectStorage
namespace S3

open Lib

/-! ## Encodings -/

/-- `A-Za-z0-9-._~`. -/
def isUnreserved (b : UInt8) : Bool :=
  (65 ≤ b && b ≤ 90) || (97 ≤ b && b ≤ 122) || (48 ≤ b && b ≤ 57) || b ∈ [45, 46, 95, 126]

def percentEncode (value : List Char) : List Char :=
  encodeBytes isUnreserved (utf8 value)

/-- `encodeURIComponent` keeps `!'()*` as well. -/
def isUriMark (b : UInt8) : Bool :=
  isUnreserved b || b ∈ [33, 39, 40, 41, 42]

def encodeURIComponent (value : List Char) : List Char :=
  encodeBytes isUriMark (utf8 value)

def encodeUriPath (path : List Char) : List Char :=
  ['/'].intercalate ((path.splitOn '/').map percentEncode)

theorem keepsAscii_isUnreserved : KeepsAscii isUnreserved :=
  forall_byte (by decide +kernel)

theorem keepsAscii_isUriMark : KeepsAscii isUriMark :=
  forall_byte (by decide +kernel)

theorem slash_not_mem_percentEncode (value : List Char) : '/' ∉ percentEncode value := by
  apply not_mem_encodeBytes
  · exact forall_byte (by decide +kernel)
  · decide
  · decide

theorem slash_not_mem_encodeURIComponent (value : List Char) :
    '/' ∉ encodeURIComponent value := by
  apply not_mem_encodeBytes
  · exact forall_byte (by decide +kernel)
  · decide
  · decide

theorem encodeURIComponent_injective {v w : List Char}
    (h : encodeURIComponent v = encodeURIComponent w) : v = w :=
  utf8_injective (encodeBytes_injective keepsAscii_isUriMark h)

theorem percentDecode_percentEncode (value : List Char) :
    percentDecode (percentEncode value) = utf8 value := by
  have h := percentDecode_encodeBytes keepsAscii_isUnreserved (utf8 value) []
  simpa [percentEncode, percentDecode] using h

/-- The joined encodings of some segments decode to the joined segments. -/
theorem fromUtf8_segments (segs : List (List Char)) :
    fromUtf8 (percentDecode (['/'].intercalate (segs.map percentEncode))) =
      some (['/'].intercalate segs) := by
  have h := percentDecode_intercalate keepsAscii_isUnreserved segs
  calc fromUtf8 (percentDecode (['/'].intercalate (segs.map percentEncode)))
      = fromUtf8 (utf8 (['/'].intercalate segs)) := by rw [← h]; rfl
    _ = some (['/'].intercalate segs) := fromUtf8_utf8 _

/-! ## Texts without dot segments -/

def IsDots (seg : List Char) : Prop :=
  seg = ['.'] ∨ seg = ['.', '.']

instance (seg : List Char) : Decidable (IsDots seg) :=
  inferInstanceAs (Decidable (_ ∨ _))

def NoDots (text : List Char) : Prop :=
  ∀ seg ∈ text.splitOn '/', ¬ IsDots seg

instance (text : List Char) : Decidable (NoDots text) :=
  inferInstanceAs (Decidable (∀ seg ∈ _, _))

theorem noDots_append (a b : List Char) :
    NoDots (a ++ '/' :: b) ↔ NoDots a ∧ NoDots b := by
  simp only [NoDots, List.splitOn_append_cons_self, List.mem_append, or_imp, forall_and]

theorem noDots_of_not_mem {seg : List Char} (h : '/' ∉ seg) : NoDots seg ↔ ¬ IsDots seg := by
  simp [NoDots, List.splitOn_eq_singleton h]

/-- Encoding leaves a dot alone and writes none of the other spellings. -/
theorem isDotSegment_percentEncode (seg : List Char) :
    isDotSegment (percentEncode seg) = true ↔ IsDots seg := by
  constructor
  · intro h
    rcases Bool.or_eq_true .. ▸ h with h | h
    · have := percentDecode_of_isSingleDot h
      rw [percentDecode_percentEncode] at this
      exact .inl (utf8_injective this)
    · have := percentDecode_of_isDoubleDot h
      rw [percentDecode_percentEncode] at this
      exact .inr (utf8_injective this)
  · rintro (rfl | rfl) <;> decide

theorem isDots_encodeURIComponent (id : List Char) :
    IsDots (encodeURIComponent id) ↔ IsDots id := by
  have h₁ : encodeURIComponent ['.'] = ['.'] := by decide
  have h₂ : encodeURIComponent ['.', '.'] = ['.', '.'] := by decide
  constructor
  · rintro (h | h)
    · exact .inl (encodeURIComponent_injective (h.trans h₁.symm))
    · exact .inr (encodeURIComponent_injective (h.trans h₂.symm))
  · rintro (rfl | rfl)
    · exact .inl h₁
    · exact .inr h₂

/-! ## The layout of a room -/

def roomPrefix (roomId : List Char) : List Char :=
  "rooms/".toList ++ encodeURIComponent roomId ++ ['/']

theorem roomPrefix_append (roomId text : List Char) :
    roomPrefix roomId ++ text =
      "rooms".toList ++ '/' :: (encodeURIComponent roomId ++ '/' :: text) :=
  calc roomPrefix roomId ++ text
      = "rooms/".toList ++ encodeURIComponent roomId ++ ['/'] ++ text := rfl
    _ = "rooms/".toList ++ (encodeURIComponent roomId ++ (['/'] ++ text)) := by
        rw [List.append_assoc, List.append_assoc]
    _ = "rooms".toList ++ '/' :: (encodeURIComponent roomId ++ '/' :: text) := rfl

/-- The keys under a room's prefix; the token is the writer id, or the epoch under a lease. -/
inductive LayoutKey
  | manifest
  | lease
  | wal (token : List Char) (seq : Nat)
  | snap (token : List Char) (seq : Nat)

/-- `<dir>/<token>-<seq><ext>`. -/
def numbered (dir ext token : List Char) (seq : Nat) : List Char :=
  dir ++ '/' :: (token ++ ('-' :: Nat.toDigits 10 seq ++ ext))

def LayoutKey.text : LayoutKey → List Char
  | manifest => "_manifest".toList
  | lease => "_lease".toList
  | wal token seq => numbered "wal".toList ".jsonl".toList token seq
  | snap token seq => numbered "snap".toList ".json".toList token seq

structure Room where
  id : List Char
  /-- The tokens that the room's writers name their objects by. -/
  tokens : List (List Char)
  id_ne : id ≠ []

/-- A key that some writer of the room produces. -/
def Room.Produces (r : Room) : LayoutKey → Prop
  | .manifest => True
  | .lease => True
  | .wal token _ => token ∈ r.tokens
  | .snap token _ => token ∈ r.tokens

def Room.key (r : Room) (k : LayoutKey) : List Char :=
  roomPrefix r.id ++ k.text

/-- The parts of a token that become path segments of their own: all but the last. -/
def innerParts (token : List Char) : List (List Char) :=
  (token.splitOn '/').dropLast

theorem intercalate_snoc_append (segs : List (List Char)) (last w : List Char) :
    ['/'].intercalate (segs ++ [last]) ++ w = ['/'].intercalate (segs ++ [last ++ w]) := by
  induction segs with
  | nil => simp
  | cons seg segs ih =>
    cases segs with
    | nil => simp
    | cons s segs =>
      simp only [List.cons_append, List.intercalate_cons_cons] at ih ⊢
      rw [List.append_assoc, ih]

/-- Behind a text that goes on in its last segment, only the segments before it can be dots. -/
theorem noDots_append_of_not_mem {w : List Char} (hslash : '/' ∉ w) (hdot : ∃ c ∈ w, c ≠ '.')
    (t : List Char) : NoDots (t ++ w) ↔ ∀ seg ∈ innerParts t, ¬ IsDots seg := by
  have hne := List.splitOn_ne_nil '/' t
  have hsplit : (t ++ w).splitOn '/' =
      innerParts t ++ [(t.splitOn '/').getLast hne ++ w] := by
    have ht : t ++ w = ['/'].intercalate (innerParts t ++ [(t.splitOn '/').getLast hne ++ w]) := by
      rw [← intercalate_snoc_append, innerParts, List.dropLast_append_getLast,
        List.intercalate_splitOn]
    rw [ht, List.splitOn_intercalate _ _ (by simp)]
    intro seg hseg
    rcases List.mem_append.1 hseg with hseg | hseg
    · exact notMem_of_mem_splitOn (List.dropLast_subset _ hseg)
    · rw [List.mem_singleton.1 hseg, List.mem_append]
      rintro (hmem | hmem)
      · exact notMem_of_mem_splitOn (List.getLast_mem hne) hmem
      · exact hslash hmem
  have hlast : ¬ IsDots ((t.splitOn '/').getLast hne ++ w) := by
    obtain ⟨c, hc, hcdot⟩ := hdot
    have hmem := List.mem_append_right ((t.splitOn '/').getLast hne) hc
    rintro (h | h) <;> exact hcdot (by simpa [h] using hmem)
  simp only [NoDots, hsplit, List.mem_append, List.mem_singleton, or_imp, forall_and]
  exact and_iff_left (fun seg hseg => hseg ▸ hlast)

theorem slash_not_mem_tail (seq : Nat) {ext : List Char} (hext : '/' ∉ ext) :
    '/' ∉ '-' :: Nat.toDigits 10 seq ++ ext := by
  intro h
  rcases List.mem_append.1 h with h | h
  · rcases List.mem_cons.1 h with h | h
    · exact absurd h (by decide)
    · exact absurd (Nat.isDigit_of_mem_toDigits (by omega) (by omega) h) (by decide)
  · exact hext h

theorem noDots_numbered {dir ext : List Char} (hdir : NoDots dir) (hext : '/' ∉ ext)
    (token : List Char) (seq : Nat) :
    NoDots (numbered dir ext token seq) ↔ ∀ seg ∈ innerParts token, ¬ IsDots seg := by
  have hdash : ∃ c ∈ '-' :: Nat.toDigits 10 seq ++ ext, c ≠ '.' := ⟨'-', by simp, by decide⟩
  rw [numbered, noDots_append, noDots_append_of_not_mem (slash_not_mem_tail seq hext) hdash]
  exact and_iff_right hdir

theorem noDots_wal (token : List Char) (seq : Nat) :
    NoDots (LayoutKey.wal token seq).text ↔ ∀ seg ∈ innerParts token, ¬ IsDots seg :=
  noDots_numbered (by decide) (by decide) token seq

theorem noDots_snap (token : List Char) (seq : Nat) :
    NoDots (LayoutKey.snap token seq).text ↔ ∀ seg ∈ innerParts token, ¬ IsDots seg :=
  noDots_numbered (by decide) (by decide) token seq

/-! ## The driver -/

inductive UrlStyle
  | vhost
  | path
  deriving DecidableEq

/-- `basePath` is the endpoint's parsed path without its trailing slashes. -/
structure S3Driver where
  basePath : List (List Char)
  urlStyle : UrlStyle
  bucket : List Char
  configPrefix : List Char
  basePath_ok : ∀ seg ∈ basePath, '/' ∉ seg ∧ isDotSegment seg = false
  bucket_ok : '/' ∉ bucket ∧ ¬ IsDots bucket

namespace S3Driver

variable (D : S3Driver)

/-- `config.prefix` without leading and trailing slashes. -/
def prefixRoot : List Char :=
  ((D.configPrefix.dropWhile (· == '/')).reverse.dropWhile (· == '/')).reverse

def toStoreKey (key : List Char) : List Char :=
  let trimmed := key.dropWhile (· == '/')
  if D.prefixRoot = [] then trimmed else D.prefixRoot ++ '/' :: trimmed

def fromStoreKey (key : List Char) : List Char :=
  if D.prefixRoot = [] then key
  else if D.prefixRoot ++ ['/'] <+: key then key.drop (D.prefixRoot.length + 1)
  else key

/-- The path that addresses the bucket. -/
def bucketPath : List Char :=
  D.basePath.flatMap (fun seg => '/' :: seg) ++
    (if D.urlStyle = .path then '/' :: encodeUriPath D.bucket else [])

/-- The pathname of `buildUrl(key)`. -/
def buildUrl (key : List Char) : List Char :=
  urlPathname (D.bucketPath ++ '/' :: encodeUriPath (D.toStoreKey key))

def bucketSegments : List (List Char) :=
  D.basePath ++ (if D.urlStyle = .path then [percentEncode D.bucket] else [])

/-- The name of the object that a request addresses, if it addresses one of the bucket. -/
def objectName (pathname : List Char) : Option (List Char) :=
  let segs := (pathname.drop 1).splitOn '/'
  if D.bucketSegments <+: segs ∧ segs.drop D.bucketSegments.length ≠ [] then
    fromUtf8 (percentDecode (['/'].intercalate (segs.drop D.bucketSegments.length)))
  else none

theorem bucketSegments_ok :
    ∀ seg ∈ D.bucketSegments, '/' ∉ seg ∧ isDotSegment seg = false := by
  intro seg hseg
  rcases List.mem_append.1 hseg with hseg | hseg
  · exact D.basePath_ok seg hseg
  · split at hseg
    · rw [List.mem_singleton.1 hseg]
      refine ⟨slash_not_mem_percentEncode _, Bool.eq_false_iff.2 fun h => ?_⟩
      exact D.bucket_ok.2 ((isDotSegment_percentEncode _).1 h)
    · cases hseg

theorem bucketPath_eq : D.bucketPath = D.bucketSegments.flatMap fun seg => '/' :: seg := by
  have hbucket : encodeUriPath D.bucket = percentEncode D.bucket := by
    simp [encodeUriPath, List.splitOn_eq_singleton D.bucket_ok.1]
  unfold bucketPath bucketSegments
  split <;> simp [hbucket]

theorem flatMap_slash_append (segs rest : List (List Char)) (h : rest ≠ []) :
    segs.flatMap (fun seg => '/' :: seg) ++ '/' :: ['/'].intercalate rest =
      '/' :: ['/'].intercalate (segs ++ rest) := by
  induction segs with
  | nil => rfl
  | cons seg segs ih =>
    have hne : segs ++ rest ≠ [] := by simp [h]
    obtain ⟨s, ss, hs⟩ := List.exists_cons_of_ne_nil hne
    rw [List.flatMap_cons, List.append_assoc, ih, List.cons_append, List.cons_append, hs,
      List.intercalate_cons_cons]
    simp

/-- The segments of the parsed path that a key's request has. -/
def requestSegments (key : List Char) : List (List Char) :=
  parsePath D.bucketSegments (((D.toStoreKey key).splitOn '/').map percentEncode)

theorem map_percentEncode_ne_nil (text : List Char) :
    (text.splitOn '/').map percentEncode ≠ [] := by
  simp

theorem slash_not_mem_path {text : List Char} :
    ∀ seg ∈ D.bucketSegments ++ (text.splitOn '/').map percentEncode, '/' ∉ seg := by
  intro seg hseg
  rcases List.mem_append.1 hseg with hseg | hseg
  · exact (D.bucketSegments_ok seg hseg).1
  · obtain ⟨s, -, rfl⟩ := List.mem_map.1 hseg
    exact slash_not_mem_percentEncode s

theorem buildUrl_eq (key : List Char) :
    D.buildUrl key = '/' :: ['/'].intercalate (D.requestSegments key) := by
  have hne := map_percentEncode_ne_nil (D.toStoreKey key)
  unfold buildUrl urlPathname encodeUriPath requestSegments
  rw [D.bucketPath_eq, flatMap_slash_append _ _ hne, List.drop_succ_cons, List.drop_zero,
    List.splitOn_intercalate _ D.slash_not_mem_path (by simp [hne]),
    parsePath_append (fun seg hseg => (D.bucketSegments_ok seg hseg).2), List.nil_append]

/-! ## Objects -/

theorem mem_requestSegments {key seg : List Char} (h : seg ∈ D.requestSegments key) :
    seg ∈ D.bucketSegments ∨ seg = [] ∨ seg ∈ ((D.toStoreKey key).splitOn '/').map percentEncode :=
  mem_drop_parsePath (n := 0) h

theorem splitOn_buildUrl (key : List Char) :
    ((D.buildUrl key).drop 1).splitOn '/' = D.requestSegments key := by
  rw [D.buildUrl_eq, List.drop_succ_cons, List.drop_zero]
  apply List.splitOn_intercalate
  · intro seg hseg
    rcases D.mem_requestSegments hseg with h | rfl | h
    · exact (D.bucketSegments_ok seg h).1
    · exact List.not_mem_nil
    · exact D.slash_not_mem_path seg (List.mem_append_right _ h)
  · exact parsePath_ne_nil (map_percentEncode_ne_nil _) _

theorem objectName_buildUrl_eq (key : List Char) :
    D.objectName (D.buildUrl key) =
      if D.bucketSegments <+: D.requestSegments key ∧
          (D.requestSegments key).drop D.bucketSegments.length ≠ [] then
        fromUtf8 (percentDecode
          (['/'].intercalate ((D.requestSegments key).drop D.bucketSegments.length)))
      else none := by
  rw [objectName, D.splitOn_buildUrl]

/-- Without dot segments the object has the name that the driver asked for. -/
theorem objectName_of_noDots {key : List Char} (h : NoDots (D.toStoreKey key)) :
    D.objectName (D.buildUrl key) = some (D.toStoreKey key) := by
  have hreq : D.requestSegments key =
      D.bucketSegments ++ ((D.toStoreKey key).splitOn '/').map percentEncode := by
    apply parsePath_of_not_dot
    intro seg hseg
    obtain ⟨s, hs, rfl⟩ := List.mem_map.1 hseg
    exact Bool.eq_false_iff.2 fun hdot => h s hs ((isDotSegment_percentEncode s).1 hdot)
  have hdrop : (D.requestSegments key).drop D.bucketSegments.length =
      ((D.toStoreKey key).splitOn '/').map percentEncode := by
    rw [hreq, List.drop_left]
  rw [D.objectName_buildUrl_eq, hdrop, if_pos, fromUtf8_segments, List.intercalate_splitOn]
  exact ⟨hreq ▸ List.prefix_append _ _, map_percentEncode_ne_nil _⟩

theorem exists_map_percentEncode {P : List Char → Prop} {segs : List (List Char)}
    (h : ∀ seg ∈ segs, ∃ t, seg = percentEncode t ∧ P t) :
    ∃ ts : List (List Char), segs = ts.map percentEncode ∧ ∀ t ∈ ts, P t := by
  induction segs with
  | nil => exact ⟨[], rfl, by simp⟩
  | cons seg segs ih =>
    obtain ⟨t, rfl, ht⟩ := h seg List.mem_cons_self
    obtain ⟨ts, rfl, hts⟩ := ih fun s hs => h s (List.mem_cons_of_mem _ hs)
    exact ⟨t :: ts, rfl, by simpa using ⟨ht, hts⟩⟩

/-- No object of the bucket is named with a dot segment, whatever the key was. -/
theorem noDots_objectName {key name : List Char} (h : D.objectName (D.buildUrl key) = some name) :
    NoDots name := by
  rw [D.objectName_buildUrl_eq] at h
  split at h
  · rename_i hin
    obtain ⟨ts, hts, hok⟩ : ∃ ts : List (List Char),
        (D.requestSegments key).drop D.bucketSegments.length = ts.map percentEncode ∧
          ∀ t ∈ ts, '/' ∉ t ∧ ¬ IsDots t := by
      apply exists_map_percentEncode
      intro seg hseg
      have hdot : isDotSegment seg = false :=
        not_dot_parsePath (fun s hs => (D.bucketSegments_ok s hs).2) seg
          (List.mem_of_mem_drop hseg)
      rcases mem_drop_parsePath hseg with hmem | rfl | hmem
      · simp at hmem
      · exact ⟨[], rfl, List.not_mem_nil, by decide⟩
      · obtain ⟨t, ht, rfl⟩ := List.mem_map.1 hmem
        refine ⟨t, rfl, notMem_of_mem_splitOn ht, fun hdots => ?_⟩
        rw [(isDotSegment_percentEncode t).2 hdots] at hdot
        cases hdot
    have hne : ts ≠ [] := by
      rintro rfl
      exact hin.2 hts
    rw [hts, fromUtf8_segments, Option.some_inj] at h
    intro seg hseg
    rw [← h, List.splitOn_intercalate _ (fun t ht => (hok t ht).1) hne] at hseg
    exact (hok seg hseg).2
  · cases h

/-! ## Store keys -/

/-- What the driver writes before a key. -/
def root : List Char :=
  if D.prefixRoot = [] then [] else D.prefixRoot ++ ['/']

theorem toStoreKey_eq {key : List Char} (h : key.dropWhile (· == '/') = key) :
    D.toStoreKey key = D.root ++ key := by
  unfold toStoreKey root
  split
  · simpa using h
  · simp [h]

theorem fromStoreKey_root_append (key : List Char) : D.fromStoreKey (D.root ++ key) = key := by
  unfold fromStoreKey root
  split
  · rfl
  · have hlen : D.prefixRoot.length + 1 = (D.prefixRoot ++ ['/']).length := by simp
    rw [if_pos (List.prefix_append _ _), hlen, List.drop_left]

theorem dropWhile_roomPrefix (roomId rest : List Char) :
    (roomPrefix roomId ++ rest).dropWhile (· == '/') = roomPrefix roomId ++ rest := by
  rfl

theorem noDots_root_append (text : List Char) :
    NoDots (D.root ++ text) ↔ NoDots D.prefixRoot ∧ NoDots text := by
  unfold root
  split
  · rename_i h
    rw [h, List.nil_append]
    exact (and_iff_right (by decide)).symm
  · rw [List.append_assoc, List.singleton_append, noDots_append]

theorem noDots_roomPrefix_append (roomId text : List Char) :
    NoDots (roomPrefix roomId ++ text) ↔ ¬ IsDots roomId ∧ NoDots text := by
  have hrooms : NoDots "rooms".toList := by decide
  rw [roomPrefix_append, noDots_append, noDots_append,
    noDots_of_not_mem (slash_not_mem_encodeURIComponent roomId), isDots_encodeURIComponent]
  exact and_iff_right hrooms

theorem toStoreKey_key (r : Room) (k : LayoutKey) : D.toStoreKey (r.key k) = D.root ++ r.key k :=
  D.toStoreKey_eq (dropWhile_roomPrefix _ _)

theorem noDots_toStoreKey_key (r : Room) (k : LayoutKey) :
    NoDots (D.toStoreKey (r.key k)) ↔ NoDots D.prefixRoot ∧ ¬ IsDots r.id ∧ NoDots k.text := by
  rw [D.toStoreKey_key, D.noDots_root_append, Room.key, noDots_roomPrefix_append]

end S3Driver

/-! ## Rooms whose keys survive -/

/-- No part of a name of the room is a dot segment: neither its id nor a part of a token. -/
def Room.Plain (r : Room) : Prop :=
  ¬ IsDots r.id ∧ ∀ token ∈ r.tokens, ∀ seg ∈ innerParts token, ¬ IsDots seg

theorem Room.Plain.noDots {r : Room} (h : r.Plain) {k : LayoutKey} (hk : r.Produces k) :
    NoDots k.text := by
  cases k with
  | manifest => decide
  | lease => decide
  | wal token seq => exact (noDots_wal token seq).2 (h.2 token hk)
  | snap token seq => exact (noDots_snap token seq).2 (h.2 token hk)

/-- Keys of distinct rooms differ before the first slash behind the room ids. -/
theorem key_ne {r₁ r₂ : Room} (hne : r₁.id ≠ r₂.id) (k₁ k₂ : LayoutKey) :
    r₁.key k₁ ≠ r₂.key k₂ := by
  intro h
  have htail : encodeURIComponent r₁.id ++ '/' :: k₁.text =
      encodeURIComponent r₂.id ++ '/' :: k₂.text := by
    rw [Room.key, Room.key, roomPrefix_append, roomPrefix_append] at h
    exact List.tail_eq_of_cons_eq (List.append_cancel_left h)
  have henc := append_separator_inj (slash_not_mem_encodeURIComponent r₁.id)
    (slash_not_mem_encodeURIComponent r₂.id) htail
  exact hne (encodeURIComponent_injective henc.1)

end S3
end ObjectStorage
end Reflectdb
