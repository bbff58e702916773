import Mathlib.Data.List.Basic

/-!
# UrlPath — percent-encoded paths and the dot segments that a URL parser removes

A text is percent-encoded byte by byte in its UTF-8 form, and decoding reads it back.  A path is
cut at its slashes; the parser drops `.` and lets `..` take away the segment before it, so a path
survives parsing exactly when none of its segments is a dot segment.
-/

namespace Reflectdb
namespace Lib

/-! ## UTF-8 -/

def utf8 (s : List Char) : List UInt8 :=
  s.flatMap String.utf8EncodeChar

def fromUtf8 (bs : List UInt8) : Option (List Char) :=
  (ByteArray.utf8Decode? bs.toByteArray).map Array.toList

theorem fromUtf8_utf8 (s : List Char) : fromUtf8 (utf8 s) = some s := by
  have h : ByteArray.utf8Decode? (utf8 s).toByteArray = some s.toArray :=
    List.utf8Decode?_utf8Encode
  simp only [fromUtf8, h, Option.map_some]

theorem utf8_append (s t : List Char) : utf8 (s ++ t) = utf8 s ++ utf8 t := by
  simp [utf8]

/-! ## Percent encoding -/

def hexUpper (d : Nat) : Char :=
  Char.ofNat (if d < 10 then 48 + d else 55 + d)

def hexValue? (c : Char) : Option Nat :=
  if '0' ≤ c ∧ c ≤ '9' then some (c.toNat - 48)
  else if 'A' ≤ c ∧ c ≤ 'F' then some (c.toNat - 55)
  else if 'a' ≤ c ∧ c ≤ 'f' then some (c.toNat - 87)
  else none

def hexPair? (a b : Char) : Option UInt8 :=
  (hexValue? a).bind fun x => (hexValue? b).map fun y => UInt8.ofNat (16 * x + y)

def percentByte (b : UInt8) : List Char :=
  ['%', hexUpper (b.toNat / 16), hexUpper (b.toNat % 16)]

def encodeByte (keep : UInt8 → Bool) (b : UInt8) : List Char :=
  if keep b then [Char.ofNat b.toNat] else percentByte b

def encodeBytes (keep : UInt8 → Bool) (bs : List UInt8) : List Char :=
  bs.flatMap (encodeByte keep)

/-- A `%` that no two hex digits follow stands for itself. -/
def percentDecode : List Char → List UInt8
  | '%' :: a :: b :: s =>
    match hexPair? a b with
    | some x => x :: percentDecode s
    | none => 37 :: percentDecode (a :: b :: s)
  | c :: s => String.utf8EncodeChar c ++ percentDecode s
  | [] => []

/-- The bytes kept as they are: ASCII, and never the percent sign. -/
def KeepsAscii (keep : UInt8 → Bool) : Prop :=
  ∀ b, keep b = true → b < 128 ∧ b ≠ 37

theorem forall_byte {P : UInt8 → Prop} (h : ∀ n < 256, P (UInt8.ofNat n)) (b : UInt8) : P b := by
  simpa using h b.toNat b.toNat_lt

theorem hexPair?_hexUpper (b : UInt8) :
    hexPair? (hexUpper (b.toNat / 16)) (hexUpper (b.toNat % 16)) = some b := by
  have h : ∀ d < 16, hexValue? (hexUpper d) = some d := by decide
  have hb : b.toNat < 256 := b.toNat_lt
  simp only [hexPair?, h _ (show b.toNat / 16 < 16 by omega), h _ (Nat.mod_lt _ (by omega)),
    Option.bind_some, Option.map_some, Nat.div_add_mod, UInt8.ofNat_toNat]

theorem utf8EncodeChar_ascii (b : UInt8) (h : b < 128) :
    String.utf8EncodeChar (Char.ofNat b.toNat) = [b] := by
  have key : ∀ n < 128, String.utf8EncodeChar (Char.ofNat n) = [UInt8.ofNat n] := by
    decide +kernel
  simpa using key b.toNat (by simpa [UInt8.lt_iff_toNat_lt] using h)

theorem percentDecode_cons {c : Char} (h : c ≠ '%') (s : List Char) :
    percentDecode (c :: s) = String.utf8EncodeChar c ++ percentDecode s := by
  apply percentDecode.eq_2
  intro a b r hc
  exact absurd hc h

theorem percentDecode_slash (s : List Char) :
    percentDecode ('/' :: s) = 47 :: percentDecode s := by
  rw [percentDecode_cons (by decide)]
  rfl

section Keep

variable {keep : UInt8 → Bool} (hkeep : KeepsAscii keep)
include hkeep

theorem percentDecode_encodeByte (b : UInt8) (s : List Char) :
    percentDecode (encodeByte keep b ++ s) = b :: percentDecode s := by
  unfold encodeByte
  split
  · rename_i hb
    have hne : Char.ofNat b.toNat ≠ '%' := by
      intro heq
      have h37 := utf8EncodeChar_ascii b (hkeep b hb).1
      rw [heq] at h37
      have : (37 : UInt8) = b := by simpa [String.utf8EncodeChar] using h37
      exact (hkeep b hb).2 this.symm
    rw [List.singleton_append, percentDecode_cons hne, utf8EncodeChar_ascii b (hkeep b hb).1]
    rfl
  · simp only [percentByte, List.cons_append, List.nil_append, percentDecode, hexPair?_hexUpper]

theorem percentDecode_encodeBytes (bs : List UInt8) (s : List Char) :
    percentDecode (encodeBytes keep bs ++ s) = bs ++ percentDecode s := by
  induction bs with
  | nil => rfl
  | cons b bs ih =>
    calc percentDecode (encodeBytes keep (b :: bs) ++ s)
        = percentDecode (encodeByte keep b ++ (encodeBytes keep bs ++ s)) := by
          simp [encodeBytes]
      _ = b :: percentDecode (encodeBytes keep bs ++ s) := percentDecode_encodeByte hkeep b _
      _ = b :: bs ++ percentDecode s := by rw [ih, List.cons_append]

/-- Segments encoded on their own and joined by slashes decode to the joined segments. -/
theorem percentDecode_intercalate (segs : List (List Char)) :
    percentDecode (['/'].intercalate (segs.map fun s => encodeBytes keep (utf8 s))) =
      utf8 (['/'].intercalate segs) := by
  induction segs with
  | nil => rfl
  | cons s segs ih =>
    cases segs with
    | nil =>
      have := percentDecode_encodeBytes hkeep (utf8 s) []
      simpa [percentDecode] using this
    | cons t segs =>
      simp only [List.map_cons, List.intercalate_cons_cons] at ih ⊢
      rw [List.append_assoc, percentDecode_encodeBytes hkeep, List.singleton_append,
        percentDecode_slash, ih, utf8_append, utf8_append]
      simp [utf8, String.utf8EncodeChar]

theorem encodeBytes_injective {bs cs : List UInt8} (h : encodeBytes keep bs = encodeBytes keep cs) :
    bs = cs := by
  have hb := percentDecode_encodeBytes hkeep bs []
  have hc := percentDecode_encodeBytes hkeep cs []
  rw [h, hc] at hb
  simpa [percentDecode] using hb.symm

end Keep

theorem utf8_injective {s t : List Char} (h : utf8 s = utf8 t) : s = t := by
  have hs := fromUtf8_utf8 s
  rw [h, fromUtf8_utf8] at hs
  exact (Option.some.inj hs).symm

/-- A character that the encoding never writes on its own account. -/
theorem not_mem_encodeBytes {keep : UInt8 → Bool} {c : Char}
    (hkeep : ∀ b, keep b = true → Char.ofNat b.toNat ≠ c) (hc : c ≠ '%')
    (hhex : ∀ d < 16, hexUpper d ≠ c) (bs : List UInt8) : c ∉ encodeBytes keep bs := by
  intro hmem
  obtain ⟨b, -, hb⟩ := List.mem_flatMap.1 hmem
  have hlt : b.toNat < 256 := b.toNat_lt
  unfold encodeByte at hb
  split at hb
  · rename_i hk
    exact hkeep b hk (List.mem_singleton.1 hb).symm
  · simp only [percentByte, List.mem_cons, List.not_mem_nil, or_false] at hb
    rcases hb with hb | hb | hb
    · exact hc hb
    · exact hhex _ (by omega) hb.symm
    · exact hhex _ (by omega) hb.symm

/-! ## Dot segments -/

/-- The spellings of a dot, in either case. -/
def dotForms : List (List Char) :=
  [['.'], ['%', '2', 'e'], ['%', '2', 'E']]

def isSingleDot (seg : List Char) : Bool :=
  seg ∈ dotForms

def isDoubleDot (seg : List Char) : Bool :=
  seg ∈ dotForms.flatMap fun a => dotForms.map fun b => a ++ b

def isDotSegment (seg : List Char) : Bool :=
  isSingleDot seg || isDoubleDot seg

/-- The path state of the parser at the end of a segment, which is the path's last or not. -/
def endSegment (path : List (List Char)) (seg : List Char) (last : Bool) : List (List Char) :=
  if isDoubleDot seg then path.dropLast ++ (if last then [[]] else [])
  else if isSingleDot seg then path ++ (if last then [[]] else [])
  else path ++ [seg]

def parsePath (path : List (List Char)) : List (List Char) → List (List Char)
  | [] => path
  | seg :: rest => parsePath (endSegment path seg rest.isEmpty) rest

theorem percentDecode_of_isSingleDot {seg : List Char} (h : isSingleDot seg = true) :
    percentDecode seg = utf8 ['.'] := by
  have key : ∀ s ∈ dotForms, percentDecode s = utf8 ['.'] := by decide
  exact key seg (by simpa [isSingleDot] using h)

theorem percentDecode_of_isDoubleDot {seg : List Char} (h : isDoubleDot seg = true) :
    percentDecode seg = utf8 ['.', '.'] := by
  have key : ∀ s ∈ dotForms.flatMap fun a => dotForms.map fun b => a ++ b,
      percentDecode s = utf8 ['.', '.'] := by decide
  exact key seg (by simpa only [isDoubleDot, decide_eq_true_eq] using h)

theorem endSegment_of_not_dot {seg : List Char} (h : isDotSegment seg = false)
    (path : List (List Char)) (last : Bool) : endSegment path seg last = path ++ [seg] := by
  simp only [isDotSegment, Bool.or_eq_false_iff] at h
  simp [endSegment, h.1, h.2]

theorem parsePath_of_not_dot {segs : List (List Char)}
    (h : ∀ seg ∈ segs, isDotSegment seg = false) (path : List (List Char)) :
    parsePath path segs = path ++ segs := by
  induction segs generalizing path with
  | nil => simp [parsePath]
  | cons seg segs ih =>
    rw [parsePath, endSegment_of_not_dot (h seg (by simp)),
      ih (fun s hs => h s (List.mem_cons_of_mem _ hs)), List.append_assoc, List.singleton_append]

theorem parsePath_append {front : List (List Char)}
    (h : ∀ seg ∈ front, isDotSegment seg = false) (segs path : List (List Char)) :
    parsePath path (front ++ segs) = parsePath (path ++ front) segs := by
  induction front generalizing path with
  | nil => simp
  | cons seg front ih =>
    rw [List.cons_append, parsePath, endSegment_of_not_dot (h seg (by simp)),
      ih (fun s hs => h s (List.mem_cons_of_mem _ hs)), List.append_assoc, List.singleton_append]

theorem not_dot_endSegment {path : List (List Char)} {seg : List Char} {last : Bool}
    (h : ∀ s ∈ path, isDotSegment s = false) :
    ∀ s ∈ endSegment path seg last, isDotSegment s = false := by
  have hnil : isDotSegment [] = false := by decide
  intro s hs
  unfold endSegment at hs
  split at hs
  · rcases List.mem_append.1 hs with hs | hs
    · exact h s (List.dropLast_subset _ hs)
    · cases last <;> simp_all
  · rename_i hdouble
    split at hs
    · rcases List.mem_append.1 hs with hs | hs
      · exact h s hs
      · cases last <;> simp_all
    · rename_i hsingle
      rcases List.mem_append.1 hs with hs | hs
      · exact h s hs
      · simp_all [isDotSegment]

/-- A parsed path has no dot segment. -/
theorem not_dot_parsePath {path segs : List (List Char)}
    (h : ∀ s ∈ path, isDotSegment s = false) :
    ∀ s ∈ parsePath path segs, isDotSegment s = false := by
  induction segs generalizing path with
  | nil => exact h
  | cons seg segs ih => exact ih (not_dot_endSegment h)

/-- Beyond the first `n` segments, the end of a segment adds that segment or an empty one. -/
theorem mem_drop_endSegment {path : List (List Char)} {seg s : List Char} {last : Bool} {n : Nat}
    (hs : s ∈ (endSegment path seg last).drop n) : s ∈ path.drop n ∨ s = [] ∨ s = seg := by
  have hlast : ∀ t ∈ (if last then [[]] else [] : List (List Char)), t = [] := by
    cases last <;> simp
  unfold endSegment at hs
  split at hs
  · rw [List.drop_append] at hs
    rcases List.mem_append.1 hs with hs | hs
    · exact .inl (((List.dropLast_sublist path).drop n).subset hs)
    · exact .inr (.inl (hlast s (List.mem_of_mem_drop hs)))
  · split at hs
    · rw [List.drop_append] at hs
      rcases List.mem_append.1 hs with hs | hs
      · exact .inl hs
      · exact .inr (.inl (hlast s (List.mem_of_mem_drop hs)))
    · rw [List.drop_append] at hs
      rcases List.mem_append.1 hs with hs | hs
      · exact .inl hs
      · exact .inr (.inr (by simpa using List.mem_of_mem_drop hs))

theorem mem_drop_parsePath {path segs : List (List Char)} {s : List Char} {n : Nat}
    (hs : s ∈ (parsePath path segs).drop n) : s ∈ path.drop n ∨ s = [] ∨ s ∈ segs := by
  induction segs generalizing path with
  | nil => exact .inl hs
  | cons seg segs ih =>
    rcases ih hs with h | rfl | h
    · rcases mem_drop_endSegment h with h | rfl | rfl
      · exact .inl h
      · exact .inr (.inl rfl)
      · exact .inr (.inr List.mem_cons_self)
    · exact .inr (.inl rfl)
    · exact .inr (.inr (List.mem_cons_of_mem _ h))

theorem parsePath_ne_nil {segs : List (List Char)} (h : segs ≠ []) (path : List (List Char)) :
    parsePath path segs ≠ [] := by
  induction segs generalizing path with
  | nil => exact absurd rfl h
  | cons seg segs ih =>
    cases segs with
    | nil =>
      simp only [parsePath, endSegment, List.isEmpty_nil]
      split
      · simp
      · split <;> simp
    | cons s segs => exact ih (by simp) _

/-! ## Pathnames -/

/-- The pathname of a URL whose path starts with a slash. -/
def urlPathname (path : List Char) : List Char :=
  '/' :: ['/'].intercalate (parsePath [] ((path.drop 1).splitOn '/'))

end Lib
end Reflectdb
