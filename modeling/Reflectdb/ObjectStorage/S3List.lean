import Reflectdb.ObjectStorage.S3Keys
import Mathlib.Data.List.Sort
import Mathlib.Data.List.Dedup

/-!
# S3List — listing a prefix, and which rooms are kept apart

`list` asks for a prefix in a query parameter and reads the names from XML pages, so it never goes
through the URL parser that the object requests went through.  The two agree on a room exactly
when none of the segments in its keys is a dot segment.
-/

namespace Reflectdb
namespace ObjectStorage
namespace S3

open Lib

/-! ## Marks in a text -/

/-- The text before the first place where `mark` stands, and the text behind it. -/
def cutAt (mark : List Char) : List Char → Option (List Char × List Char)
  | [] => none
  | c :: s =>
    if mark <+: c :: s then some ([], (c :: s).drop mark.length)
    else (cutAt mark s).map fun p => (c :: p.1, p.2)

def between (start stop s : List Char) : Option (List Char × List Char) :=
  (cutAt start s).bind fun p => cutAt stop p.2

/-- The matches of `CONTENTS_RE`; the fuel is a bound on their number. -/
def contents : Nat → List Char → List (List Char)
  | 0, _ => []
  | fuel + 1, xml =>
    match between "<Contents>".toList "</Contents>".toList xml with
    | none => []
    | some (block, rest) => block :: contents fuel rest

/-- The text of `KEY_RE` in each block that has one. -/
def rawKeys (xml : List Char) : List (List Char) :=
  (contents xml.length xml).filterMap fun block =>
    (between "<Key>".toList "</Key>".toList block).map Prod.fst

theorem cutAt_self {mark : List Char} (h : mark ≠ []) (s : List Char) :
    cutAt mark (mark ++ s) = some ([], s) := by
  obtain ⟨c, m, rfl⟩ := List.exists_cons_of_ne_nil h
  rw [List.cons_append, cutAt, if_pos (by simp)]
  simp

theorem cutAt_cons {mark : List Char} {c : Char} {s : List Char} (h : ¬ mark <+: c :: s) :
    cutAt mark (c :: s) = (cutAt mark s).map fun p => (c :: p.1, p.2) := by
  rw [cutAt, if_neg h]

/-- A mark does not begin inside a text without its first character. -/
theorem cutAt_append {d : Char} {m k : List Char} (hk : d ∉ k) (s : List Char) :
    cutAt (d :: m) (k ++ s) = (cutAt (d :: m) s).map fun p => (k ++ p.1, p.2) := by
  induction k with
  | nil => simp
  | cons c k ih =>
    have hc : ¬ d :: m <+: c :: (k ++ s) := by
      intro h
      exact hk (by simp [(List.cons_prefix_cons.1 h).1])
    rw [List.cons_append, cutAt_cons hc, ih (List.not_mem_of_not_mem_cons hk), Option.map_map]
    rfl

/-- Nor inside a text none of whose ends agrees with its beginning. -/
theorem cutAt_skip {mark front : List Char}
    (h : ∀ u ∈ front.tails, u ≠ [] → ¬ mark <+: u ∧ ¬ u <+: mark) (s : List Char) :
    cutAt mark (front ++ s) = (cutAt mark s).map fun p => (front ++ p.1, p.2) := by
  induction front with
  | nil => simp
  | cons c front ih =>
    have hhead := h (c :: front) (by simp) (by simp)
    have hc : ¬ mark <+: c :: (front ++ s) := by
      intro hmark
      rcases List.prefix_or_prefix_of_prefix hmark (List.prefix_append (c :: front) s) with hp | hp
      · exact hhead.1 hp
      · exact hhead.2 hp
    rw [List.cons_append, cutAt_cons hc, ih (fun u hu => h u (by simp [hu])), Option.map_map]
    rfl

/-! ## Escapes -/

/-- How the store writes a character of a name. -/
def escapeChar (c : Char) : List Char :=
  if c = '&' then "&amp;".toList
  else if c = '<' then "&lt;".toList
  else if c = '>' then "&gt;".toList
  else if c.toNat = 34 then "&quot;".toList
  else if c.toNat = 39 then "&apos;".toList
  else [c]

def xmlEscape (value : List Char) : List Char :=
  value.flatMap escapeChar

inductive Entity
  | none
  | text (s : List Char)
  | throws

/-- `String.fromCodePoint`, on the code points that are characters. -/
def fromCodePoint (code : Nat) : Entity :=
  if code.isValidChar then .text [Char.ofNat code] else .throws

def parseDigits (base : Nat) (digits : List Char) : Nat :=
  digits.foldl (fun n d => base * n + (hexValue? d).getD 0) 0

/-- The name between `&` and `;`, and what the regex's callback makes of it. -/
def readEntity : List Char → Entity
  | ['a', 'm', 'p'] => .text ['&']
  | ['l', 't'] => .text ['<']
  | ['g', 't'] => .text ['>']
  | ['q', 'u', 'o', 't'] => .text [Char.ofNat 34]
  | ['a', 'p', 'o', 's'] => .text [Char.ofNat 39]
  | '#' :: 'x' :: ds =>
    if ds ≠ [] ∧ ds.all (fun d => (hexValue? d).isSome) then fromCodePoint (parseDigits 16 ds)
    else .none
  | '#' :: ds =>
    if ds ≠ [] ∧ ds.all (fun d => (hexValue? d).isSome) then
      -- `parseInt(.., 10)` stops at the first letter, and is NaN when that comes first
      if ds.takeWhile Char.isDigit = [] then .text ('&' :: '#' :: ds ++ [';'])
      else fromCodePoint (parseDigits 10 (ds.takeWhile Char.isDigit))
    else .none
  | _ => .none

/-- `none` where `String.fromCodePoint` throws. -/
def xmlUnescape : List Char → Option (List Char)
  | [] => some []
  | c :: s =>
    if c = '&' ∧ ';' ∈ s then
      match readEntity (s.takeWhile (· != ';')) with
      | .none => (xmlUnescape s).map (c :: ·)
      | .text t => (xmlUnescape ((s.dropWhile (· != ';')).drop 1)).map (t ++ ·)
      | .throws => none
    else (xmlUnescape s).map (c :: ·)
  termination_by s => s.length
  decreasing_by
    · simp
    · have h := (List.dropWhile_sublist (p := (· != ';')) (l := s)).length_le
      simp only [List.length_drop, List.length_cons]
      omega
    · simp

theorem xmlUnescape_cons {c : Char} (h : c ≠ '&') (s : List Char) :
    xmlUnescape (c :: s) = (xmlUnescape s).map (c :: ·) := by
  rw [xmlUnescape, if_neg (fun hc => h hc.1)]

theorem xmlUnescape_entity {name : List Char} {c : Char} (hname : ';' ∉ name)
    (hread : readEntity name = .text [c]) (s : List Char) :
    xmlUnescape ('&' :: name ++ ';' :: s) = (xmlUnescape s).map (c :: ·) := by
  have hall : ∀ d ∈ name, (d != ';') = true := fun d hd => by
    simpa using fun heq : d = ';' => hname (heq ▸ hd)
  have htake : (name ++ ';' :: s).takeWhile (· != ';') = name := by
    rw [List.takeWhile_append_of_pos hall]
    simp
  have hdrop : (name ++ ';' :: s).dropWhile (· != ';') = ';' :: s := by
    rw [List.dropWhile_append_of_pos hall]
    simp
  rw [List.cons_append, xmlUnescape, if_pos ⟨rfl, by simp⟩, htake, hread, hdrop]
  rfl

theorem xmlUnescape_escapeChar (c : Char) (s : List Char) :
    xmlUnescape (escapeChar c ++ s) = (xmlUnescape s).map (c :: ·) := by
  unfold escapeChar
  split
  · rename_i h
    exact h ▸ @xmlUnescape_entity "amp".toList _ (by decide) rfl s
  split
  · rename_i h
    exact h ▸ @xmlUnescape_entity "lt".toList _ (by decide) rfl s
  split
  · rename_i h
    exact h ▸ @xmlUnescape_entity "gt".toList _ (by decide) rfl s
  split
  · rename_i h
    have hc : c = Char.ofNat 34 := by rw [← h, Char.ofNat_toNat]
    exact hc ▸ @xmlUnescape_entity "quot".toList _ (by decide) rfl s
  split
  · rename_i h
    have hc : c = Char.ofNat 39 := by rw [← h, Char.ofNat_toNat]
    exact hc ▸ @xmlUnescape_entity "apos".toList _ (by decide) rfl s
  · rename_i h _ _ _ _
    exact xmlUnescape_cons h s

theorem xmlUnescape_xmlEscape (value : List Char) :
    xmlUnescape (xmlEscape value) = some value := by
  induction value with
  | nil => simp [xmlEscape, xmlUnescape]
  | cons c value ih =>
    have : xmlEscape (c :: value) = escapeChar c ++ xmlEscape value := List.flatMap_cons
    rw [this, xmlUnescape_escapeChar, ih, Option.map_some]

/-! ## Pages -/

/-- The store's entry for a name, and its page of such entries. -/
def entryXml (name : List Char) : List Char :=
  "<Contents>".toList ++
    ("<Key>".toList ++ xmlEscape name ++ "</Key>".toList ++ "</Contents>".toList)

def pageXml (names : List (List Char)) : List Char :=
  names.flatMap entryXml

theorem lt_not_mem_xmlEscape (value : List Char) : '<' ∉ xmlEscape value := by
  intro h
  obtain ⟨c, -, hc⟩ := List.mem_flatMap.1 h
  revert hc
  unfold escapeChar
  split_ifs with h₁ h₂
  all_goals try decide
  exact fun hc => h₂ (List.mem_singleton.1 hc).symm

theorem between_key (name rest : List Char) :
    between "<Key>".toList "</Key>".toList ("<Key>".toList ++ xmlEscape name ++ "</Key>".toList ++
      rest) = some (xmlEscape name, rest) := by
  have hstop : "</Key>".toList = '<' :: "/Key>".toList := rfl
  rw [between, List.append_assoc, List.append_assoc, cutAt_self (by decide), Option.bind_some,
    hstop, cutAt_append (lt_not_mem_xmlEscape name), ← hstop, cutAt_self (by decide)]
  simp

/-- The end of a block is not found before the key is over. -/
theorem cutAt_block (name rest : List Char) :
    cutAt "</Contents>".toList ("<Key>".toList ++ xmlEscape name ++ "</Key>".toList ++
      ("</Contents>".toList ++ rest)) =
      some ("<Key>".toList ++ xmlEscape name ++ "</Key>".toList, rest) := by
  have hstop : "</Contents>".toList = '<' :: "/Contents>".toList := rfl
  rw [List.append_assoc, List.append_assoc, cutAt_skip (by decide), hstop,
    cutAt_append (lt_not_mem_xmlEscape name), ← hstop, cutAt_skip (by decide),
    cutAt_self (by decide)]
  simp

theorem between_contents (name rest : List Char) :
    between "<Contents>".toList "</Contents>".toList (entryXml name ++ rest) =
      some ("<Key>".toList ++ xmlEscape name ++ "</Key>".toList, rest) := by
  have hentry : entryXml name = "<Contents>".toList ++
      ("<Key>".toList ++ xmlEscape name ++ "</Key>".toList ++ "</Contents>".toList) := rfl
  have hblock := cutAt_block name rest
  rw [← List.append_assoc] at hblock
  rw [hentry, between, List.append_assoc, cutAt_self (by decide), Option.bind_some, hblock]

theorem contents_pageXml (names : List (List Char)) (fuel : Nat) (h : names.length ≤ fuel) :
    contents fuel (pageXml names) =
      names.map fun name => "<Key>".toList ++ xmlEscape name ++ "</Key>".toList := by
  induction names generalizing fuel with
  | nil =>
    cases fuel with
    | zero => rfl
    | succ fuel => rfl
  | cons name names ih =>
    cases fuel with
    | zero => simp at h
    | succ fuel =>
      have hpage : pageXml (name :: names) = entryXml name ++ pageXml names := List.flatMap_cons
      rw [hpage, contents, between_contents]
      simp only [List.map_cons, ih fuel (by simpa using h)]

theorem length_le_pageXml (names : List (List Char)) : names.length ≤ (pageXml names).length := by
  induction names with
  | nil => simp
  | cons name names ih =>
    have hpage : pageXml (name :: names) = entryXml name ++ pageXml names := List.flatMap_cons
    have hentry : 0 < (entryXml name).length := Nat.succ_pos _
    rw [hpage, List.length_append, List.length_cons]
    omega

/-- The driver reads the names of a page as the store escaped them. -/
theorem rawKeys_pageXml (names : List (List Char)) :
    rawKeys (pageXml names) = names.map xmlEscape := by
  rw [rawKeys, contents_pageXml names _ (length_le_pageXml names), List.filterMap_map]
  have key : ∀ name, (between "<Key>".toList "</Key>".toList
      ("<Key>".toList ++ xmlEscape name ++ "</Key>".toList)).map Prod.fst =
        some (xmlEscape name) := by
    intro name
    have h := between_key name []
    rw [List.append_nil] at h
    rw [h, Option.map_some]
  simp only [Function.comp_def, key, List.filterMap_eq_map']

theorem mapM_xmlUnescape (names : List (List Char)) :
    (names.map xmlEscape).mapM xmlUnescape = some names := by
  induction names with
  | nil => rfl
  | cons name names ih => simp [xmlUnescape_xmlEscape, ih]

/-! ## Queries -/

abbrev Query : Type :=
  List (List Char × List Char)

def encodeParam (q : List Char × List Char) : List Char × List Char :=
  (percentEncode q.1, percentEncode q.2)

/-- UTF-16 code units, which `<` compares strings by. -/
def codeUnits (s : List Char) : Text :=
  s.flatMap fun c =>
    if c.toNat < 65536 then [c.toNat.toUInt16]
    else [(55296 + (c.toNat - 65536) / 1024).toUInt16,
      (56320 + (c.toNat - 65536) % 1024).toUInt16]

/-- A subresource without a value keeps its bare form. -/
def paramText (p : List Char × List Char) : List Char :=
  if p.2 = [] then p.1 else p.1 ++ '=' :: p.2

/-- The keys of a query are distinct, so any sort gives the same text. -/
def searchString (query : Query) : List Char :=
  ['&'].intercalate
    (((query.map encodeParam).insertionSort fun a b => codeUnits a.1 ≤ codeUnits b.1).map paramText)

def parseParam (part : List Char) : List UInt8 × List UInt8 :=
  (percentDecode (part.takeWhile (· != '=')),
    percentDecode ((part.dropWhile (· != '=')).drop 1))

/-- The store's reading of a query. -/
def parseQuery (search : List Char) : List (List UInt8 × List UInt8) :=
  (search.splitOn '&').map parseParam

def queryParam (name search : List Char) : Option (List Char) :=
  ((parseQuery search).lookup (utf8 name)).bind fromUtf8

def listTypeParam : List Char := "list-type".toList

def prefixParam : List Char := "prefix".toList

def tokenParam : List Char := "continuation-token".toList

def listQuery (fullPrefix : List Char) (token : Option (List Char)) : Query :=
  [(listTypeParam, ['2'])] ++ (if fullPrefix = [] then [] else [(prefixParam, fullPrefix)]) ++
    token.toList.map (tokenParam, ·)

theorem amp_not_mem_percentEncode (value : List Char) : '&' ∉ percentEncode value := by
  apply not_mem_encodeBytes
  · exact forall_byte (by decide +kernel)
  · decide
  · decide

theorem eq_not_mem_percentEncode (value : List Char) : '=' ∉ percentEncode value := by
  apply not_mem_encodeBytes
  · exact forall_byte (by decide +kernel)
  · decide
  · decide

theorem parseParam_paramText (q : List Char × List Char) :
    parseParam (paramText (encodeParam q)) = (utf8 q.1, utf8 q.2) := by
  have hall : ∀ d ∈ percentEncode q.1, (d != '=') = true := fun d hd => by
    simpa using fun heq : d = '=' => eq_not_mem_percentEncode q.1 (heq ▸ hd)
  unfold paramText parseParam encodeParam
  split
  · rename_i hnil
    have hq : utf8 q.2 = [] := by
      rw [← percentDecode_percentEncode, show percentEncode q.2 = [] from hnil]
      rfl
    have htake : (percentEncode q.1).takeWhile (· != '=') = percentEncode q.1 := by
      simpa using @List.takeWhile_append_of_pos _ _ _ [] hall
    have hdrop : (percentEncode q.1).dropWhile (· != '=') = [] := by
      simpa using @List.dropWhile_append_of_pos _ _ _ [] hall
    rw [htake, hdrop, percentDecode_percentEncode, hq]
    rfl
  · rw [List.takeWhile_append_of_pos hall, List.dropWhile_append_of_pos hall]
    simp [percentDecode_percentEncode]

theorem amp_not_mem_paramText (q : List Char × List Char) : '&' ∉ paramText (encodeParam q) := by
  unfold paramText encodeParam
  split
  · exact amp_not_mem_percentEncode q.1
  · intro h
    rcases List.mem_append.1 h with h | h
    · exact amp_not_mem_percentEncode q.1 h
    · rcases List.mem_cons.1 h with h | h
      · exact absurd h (by decide)
      · exact amp_not_mem_percentEncode q.2 h

/-- The store reads a sorted query back. -/
theorem parseQuery_intercalate {query : Query} (h : query ≠ []) :
    parseQuery (['&'].intercalate ((query.map encodeParam).map paramText)) =
      query.map fun q => (utf8 q.1, utf8 q.2) := by
  have hamp : ∀ part ∈ (query.map encodeParam).map paramText, '&' ∉ part := by
    intro part hpart
    rw [List.map_map] at hpart
    obtain ⟨q, -, rfl⟩ := List.mem_map.1 hpart
    exact amp_not_mem_paramText q
  rw [parseQuery, List.splitOn_intercalate _ hamp (by simpa using h), List.map_map, List.map_map]
  exact List.map_congr_left fun q _ => parseParam_paramText q

/-- The parameters of a listing in the order of their names. -/
def sortedQuery (fullPrefix : List Char) (token : Option (List Char)) : Query :=
  token.toList.map (tokenParam, ·) ++
    (listTypeParam, ['2']) :: (if fullPrefix = [] then [] else [(prefixParam, fullPrefix)])

theorem insertionSort_listQuery (fullPrefix : List Char) (token : Option (List Char)) :
    ((listQuery fullPrefix token).map encodeParam).insertionSort
        (fun a b => codeUnits a.1 ≤ codeUnits b.1) =
      (sortedQuery fullPrefix token).map encodeParam := by
  have h₁ : codeUnits (percentEncode listTypeParam) ≤ codeUnits (percentEncode prefixParam) := by
    decide
  have h₂ : ¬ codeUnits (percentEncode listTypeParam) ≤ codeUnits (percentEncode tokenParam) := by
    decide
  have h₃ : ¬ codeUnits (percentEncode prefixParam) ≤ codeUnits (percentEncode tokenParam) := by
    decide
  unfold listQuery sortedQuery
  cases token <;> split <;>
    simp [List.insertionSort, List.orderedInsert, encodeParam, h₁, h₂, h₃]

theorem parseQuery_listQuery (fullPrefix : List Char) (token : Option (List Char)) :
    parseQuery (searchString (listQuery fullPrefix token)) =
      (sortedQuery fullPrefix token).map fun q => (utf8 q.1, utf8 q.2) := by
  rw [searchString, insertionSort_listQuery]
  exact parseQuery_intercalate (by simp [sortedQuery])

theorem queryParam_prefix (fullPrefix : List Char) (token : Option (List Char)) :
    (queryParam prefixParam (searchString (listQuery fullPrefix token))).getD [] = fullPrefix := by
  have h₁ : (utf8 prefixParam == utf8 listTypeParam) = false := by decide
  have h₂ : (utf8 prefixParam == utf8 tokenParam) = false := by decide
  rw [queryParam, parseQuery_listQuery]
  unfold sortedQuery
  cases token <;> split <;> simp [List.lookup_cons, fromUtf8_utf8, *]

theorem queryParam_token (fullPrefix : List Char) (token : Option (List Char)) :
    queryParam tokenParam (searchString (listQuery fullPrefix token)) = token := by
  have h₁ : (utf8 tokenParam == utf8 listTypeParam) = false := by decide
  have h₂ : (utf8 tokenParam == utf8 prefixParam) = false := by decide
  rw [queryParam, parseQuery_listQuery]
  unfold sortedQuery
  cases token <;> split <;> simp [List.lookup_cons, h₁, h₂, fromUtf8_utf8]

/-! ## Listing -/

/-- The store's answer to a list request; the flags are read by regexes of their own. -/
structure Answer where
  xml : List Char
  truncated : Bool
  nextToken : List Char

/-- How a store cuts its listings into pages and names the places where they go on. -/
structure Paging where
  pageLength : Nat → Nat
  token : Nat → List Char
  offset : List Char → Nat
  pageLength_pos : ∀ i, 0 < pageLength i
  token_ne : ∀ i, token i ≠ []
  offset_token : ∀ i, offset (token i) = i

def Paging.answer (P : Paging) (names : List (List Char)) (search : List Char) : Answer :=
  let fullPrefix := (queryParam prefixParam search).getD []
  let found := names.filter fun name => fullPrefix <+: name
  let start := ((queryParam tokenParam search).map P.offset).getD 0
  let stop := start + P.pageLength start
  { xml := pageXml ((found.drop start).take (P.pageLength start))
    truncated := stop < found.length
    nextToken := xmlEscape (P.token stop) }

namespace S3Driver

variable (D : S3Driver)

/-- The pages from `token` on; `none` when the fuel is out or the driver throws. -/
def listPages (answer : List Char → Answer) (fullPrefix : List Char) :
    Nat → Option (List Char) → Option (List (List Char))
  | 0, _ => none
  | fuel + 1, token =>
    let page := answer (searchString (listQuery fullPrefix token))
    ((rawKeys page.xml).mapM xmlUnescape).bind fun keys =>
      if page.truncated then
        (xmlUnescape page.nextToken).bind fun next =>
          -- a truncated page without a token is refused
          if next = [] then none
          else (listPages answer fullPrefix fuel (some next)).map (keys.map D.fromStoreKey ++ ·)
      else some (keys.map D.fromStoreKey)

def fullPrefix (listed : List Char) : List Char :=
  let trimmed := listed.dropWhile (· == '/')
  if D.prefixRoot = [] then trimmed
  else if listed = [] then D.prefixRoot ++ ['/'] else D.prefixRoot ++ '/' :: trimmed

def list (answer : List Char → Answer) (listed : List Char) (fuel : Nat) :
    Option (List (List Char)) :=
  (D.listPages answer (D.fullPrefix listed) fuel none).map fun keys =>
    keys.mergeSort fun a b => codeUnits a ≤ codeUnits b

theorem answer_listQuery (P : Paging) (names : List (List Char)) (fullPrefix : List Char)
    (token : Option (List Char)) :
    P.answer names (searchString (listQuery fullPrefix token)) =
      let found := names.filter fun name => fullPrefix <+: name
      let start := (token.map P.offset).getD 0
      { xml := pageXml ((found.drop start).take (P.pageLength start))
        truncated := start + P.pageLength start < found.length
        nextToken := xmlEscape (P.token (start + P.pageLength start)) } := by
  simp only [Paging.answer, queryParam_prefix, queryParam_token]

/-- From any place on, the pages hold what is left of the names with the prefix. -/
theorem listPages_eq (P : Paging) (names : List (List Char)) (fullPrefix : List Char)
    {token : Option (List Char)} {start : Nat} (hstart : (token.map P.offset).getD 0 = start)
    {fuel : Nat}
    (hfuel : (names.filter fun name => fullPrefix <+: name).length - start < fuel) :
    D.listPages (P.answer names) fullPrefix fuel token =
      some (((names.filter fun name => fullPrefix <+: name).drop start).map D.fromStoreKey) := by
  induction fuel generalizing token start with
  | zero => exact absurd hfuel (Nat.not_lt_zero _)
  | succ fuel ih =>
    have hpos := P.pageLength_pos start
    have hsplit : ∀ found : List (List Char), found.drop start =
        (found.drop start).take (P.pageLength start) ++
          found.drop (start + P.pageLength start) := by
      intro found
      rw [← List.drop_drop, List.take_append_drop]
    simp only [listPages, answer_listQuery, hstart, rawKeys_pageXml, mapM_xmlUnescape,
      Option.bind_some, decide_eq_true_eq]
    generalize names.filter (fun name => fullPrefix <+: name) = found at *
    split
    · rename_i hmore
      have hnext := @ih (some (P.token (start + P.pageLength start)))
        (start + P.pageLength start) (by simp [P.offset_token]) (by omega)
      rw [xmlUnescape_xmlEscape, Option.bind_some, if_neg (P.token_ne _), hnext, Option.map_some,
        ← List.map_append, ← hsplit]
    · rename_i hlast
      have hnil : found.drop (start + P.pageLength start) = [] :=
        List.drop_eq_nil_of_le (Nat.le_of_not_lt hlast)
      have hrest := hsplit found
      rw [hnil, List.append_nil] at hrest
      rw [← hrest]

theorem fullPrefix_eq {listed : List Char} (h : listed.dropWhile (· == '/') = listed) :
    D.fullPrefix listed = D.root ++ listed := by
  unfold fullPrefix root
  split
  · simpa using h
  · simp [h]

/-- With fuel for every name the listing is the names with the prefix, less the driver's own. -/
theorem list_eq (P : Paging) (names : List (List Char)) {listed : List Char}
    (h : listed.dropWhile (· == '/') = listed) :
    ∃ keys, (∀ fuel, names.length < fuel → D.list (P.answer names) listed fuel = some keys) ∧
      keys.Perm ((names.filter fun name => D.root ++ listed <+: name).map D.fromStoreKey) := by
  refine ⟨_, ?_, List.mergeSort_perm _ fun a b => codeUnits a ≤ codeUnits b⟩
  intro fuel hfuel
  have hlen := List.length_filter_le (fun name => D.root ++ listed <+: name) names
  rw [list, D.fullPrefix_eq h, D.listPages_eq P names _ rfl (by simpa using by omega)]
  rfl

end S3Driver

/-! ## Rooms kept apart -/

/-- The names of the objects that some puts leave on the store. -/
def S3Driver.stored (D : S3Driver) (puts : List (List Char)) : List (List Char) :=
  (puts.filterMap fun key => D.objectName (D.buildUrl key)).dedup

/-- Two rooms on one store: their requests differ, their objects stay under their own prefixes, and
a listing of either gives back the keys it was given, however the store pages it. -/
structure Isolated (D : S3Driver) (r₁ r₂ : Room) : Prop where
  apart : ∀ k₁ k₂, r₁.Produces k₁ → r₂.Produces k₂ →
    D.buildUrl (r₁.key k₁) ≠ D.buildUrl (r₂.key k₂)
  own : ∀ r ∈ [r₁, r₂], ∀ k, r.Produces k →
    ∃ name, D.objectName (D.buildUrl (r.key k)) = some name ∧
      D.toStoreKey (roomPrefix r.id) <+: name
  listed : ∀ puts : List (List Char),
    (∀ key ∈ puts, ∃ r ∈ [r₁, r₂], ∃ k, r.Produces k ∧ key = r.key k) →
    ∀ (P : Paging), ∀ r ∈ [r₁, r₂], ∀ rest,
      ∃ keys, (∀ fuel, (D.stored puts).length < fuel →
          D.list (P.answer (D.stored puts)) (roomPrefix r.id ++ rest) fuel = some keys) ∧
        keys.Nodup ∧ ∀ key, key ∈ keys ↔ key ∈ puts ∧ roomPrefix r.id ++ rest <+: key

section Isolated

variable {D : S3Driver} {r₁ r₂ : Room}

/-- A key that a listing gives back is the name of its object, so it has no dot segment. -/
theorem Isolated.noDots (h : Isolated D r₁ r₂) {r : Room} (hr : r ∈ [r₁, r₂]) {k : LayoutKey}
    (hk : r.Produces k) (P : Paging) : NoDots (D.toStoreKey (r.key k)) := by
  obtain ⟨keys, hlist, -, hmem⟩ := h.listed [r.key k]
    (fun key hkey => ⟨r, hr, k, hk, List.mem_singleton.1 hkey⟩) P r hr []
  obtain ⟨keys', hlist', hperm⟩ := D.list_eq P (D.stored [r.key k])
    (S3Driver.dropWhile_roomPrefix r.id [])
  have hkeys : keys = keys' :=
    Option.some.inj ((hlist _ (Nat.lt_succ_self _)).symm.trans (hlist' _ (Nat.lt_succ_self _)))
  have hin : r.key k ∈ keys := (hmem (r.key k)).2 ⟨by simp, by simp [Room.key]⟩
  rw [hkeys, hperm.mem_iff] at hin
  obtain ⟨name, hname, hfrom⟩ := List.mem_map.1 hin
  obtain ⟨hstored, hprefix⟩ := List.mem_filter.1 hname
  obtain ⟨rest, rfl⟩ : D.root ++ (roomPrefix r.id ++ []) <+: name := by simpa using hprefix
  rw [List.append_assoc, D.fromStoreKey_root_append] at hfrom
  obtain ⟨key, hkey, hobj⟩ := List.mem_filterMap.1 (List.mem_dedup.1 hstored)
  rw [List.append_assoc, hfrom, ← D.toStoreKey_key] at hobj
  exact D.noDots_objectName hobj

/-- Objects under plain names are stored under the keys that they were put under. -/
theorem mem_stored {puts : List (List Char)} {name : List Char}
    (h : ∀ key ∈ puts, D.objectName (D.buildUrl key) = some (D.root ++ key)) :
    name ∈ D.stored puts ↔ ∃ key ∈ puts, name = D.root ++ key := by
  rw [S3Driver.stored, List.mem_dedup, List.mem_filterMap]
  constructor
  · rintro ⟨key, hkey, hname⟩
    rw [h key hkey] at hname
    exact ⟨key, hkey, (Option.some.inj hname).symm⟩
  · rintro ⟨key, hkey, rfl⟩
    exact ⟨key, hkey, h key hkey⟩

/-- On names that all begin with the driver's own prefix, leaving it out loses nothing. -/
theorem nodup_map_fromStoreKey {names : List (List Char)} (hnodup : names.Nodup)
    (h : ∀ name ∈ names, ∃ key, name = D.root ++ key) : (names.map D.fromStoreKey).Nodup := by
  apply hnodup.map_on
  intro name hname name' hname' heq
  obtain ⟨key, rfl⟩ := h name hname
  obtain ⟨key', rfl⟩ := h name' hname'
  rw [D.fromStoreKey_root_append, D.fromStoreKey_root_append] at heq
  rw [heq]

theorem listed_of_objectName {puts : List (List Char)}
    (h : ∀ key ∈ puts, D.objectName (D.buildUrl key) = some (D.root ++ key)) (P : Paging)
    {listed : List Char} (hlisted : listed.dropWhile (· == '/') = listed) :
    ∃ keys, (∀ fuel, (D.stored puts).length < fuel →
        D.list (P.answer (D.stored puts)) listed fuel = some keys) ∧
      keys.Nodup ∧ ∀ key, key ∈ keys ↔ key ∈ puts ∧ listed <+: key := by
  obtain ⟨keys, hlist, hperm⟩ := D.list_eq P (D.stored puts) hlisted
  refine ⟨keys, hlist, ?_, fun key => ?_⟩
  · rw [hperm.nodup_iff]
    apply nodup_map_fromStoreKey ((List.nodup_dedup _).filter _)
    intro name hname
    obtain ⟨key, -, hkey⟩ := (mem_stored h).1 (List.mem_filter.1 hname).1
    exact ⟨key, hkey⟩
  · rw [hperm.mem_iff, List.mem_map]
    constructor
    · rintro ⟨name, hname, rfl⟩
      obtain ⟨hstored, hprefix⟩ := List.mem_filter.1 hname
      obtain ⟨key, hkey, rfl⟩ := (mem_stored h).1 hstored
      rw [D.fromStoreKey_root_append]
      exact ⟨hkey, by simpa using hprefix⟩
    · rintro ⟨hkey, hprefix⟩
      refine ⟨D.root ++ key, List.mem_filter.2 ⟨(mem_stored h).2 ⟨key, hkey, rfl⟩, ?_⟩,
        D.fromStoreKey_root_append key⟩
      simpa using hprefix

theorem objectName_key (hD : NoDots D.prefixRoot) {r : Room} (hr : r.Plain) {k : LayoutKey}
    (hk : r.Produces k) : D.objectName (D.buildUrl (r.key k)) = some (D.root ++ r.key k) := by
  have hno : NoDots (D.toStoreKey (r.key k)) :=
    (D.noDots_toStoreKey_key r k).2 ⟨hD, hr.1, hr.noDots hk⟩
  rw [D.objectName_of_noDots hno, D.toStoreKey_key]

end Isolated

/-- A store that pages by hundreds and counts in dots. -/
def hundreds : Paging where
  pageLength _ := 100
  token i := List.replicate (i + 1) '.'
  offset t := t.length - 1
  pageLength_pos _ := by decide
  token_ne i := by simp
  offset_token i := by simp

/-- Two rooms are kept apart exactly when no dot segment is left over: not in the driver's own
prefix, not as a room id and not as a part of a writer's token. -/
theorem isolated_iff_plain (D : S3Driver) {r₁ r₂ : Room} (hne : r₁.id ≠ r₂.id) :
    Isolated D r₁ r₂ ↔ NoDots D.prefixRoot ∧ r₁.Plain ∧ r₂.Plain := by
  constructor
  · intro h
    have hkey : ∀ r ∈ [r₁, r₂], ∀ k, r.Produces k →
        NoDots D.prefixRoot ∧ ¬ IsDots r.id ∧ NoDots k.text :=
      fun r hr k hk => (D.noDots_toStoreKey_key r k).1 (h.noDots hr hk hundreds)
    have hplain : ∀ r ∈ [r₁, r₂], r.Plain := by
      intro r hr
      refine ⟨(hkey r hr .manifest trivial).2.1, fun token htoken => ?_⟩
      exact (noDots_wal token 0).1 (hkey r hr (.wal token 0) htoken).2.2
    exact ⟨(hkey r₁ (by simp) .manifest trivial).1, hplain r₁ (by simp), hplain r₂ (by simp)⟩
  · rintro ⟨hD, h₁, h₂⟩
    have hplain : ∀ r ∈ [r₁, r₂], r.Plain := by simp [h₁, h₂]
    have hobj : ∀ r ∈ [r₁, r₂], ∀ k, r.Produces k →
        D.objectName (D.buildUrl (r.key k)) = some (D.root ++ r.key k) :=
      fun r hr k hk => objectName_key hD (hplain r hr) hk
    refine ⟨fun k₁ k₂ hk₁ hk₂ heq => ?_, fun r hr k hk => ?_, fun puts hputs P r hr rest => ?_⟩
    · have hname := hobj r₁ (by simp) k₁ hk₁
      rw [heq, hobj r₂ (by simp) k₂ hk₂, Option.some_inj] at hname
      exact key_ne hne k₁ k₂ (List.append_cancel_left hname).symm
    · refine ⟨_, hobj r hr k hk, ?_⟩
      rw [← List.append_nil (roomPrefix r.id),
        D.toStoreKey_eq (S3Driver.dropWhile_roomPrefix r.id [])]
      simp [Room.key]
    · apply listed_of_objectName _ P (S3Driver.dropWhile_roomPrefix r.id rest)
      intro key hkey
      obtain ⟨r', hr', k, hk, rfl⟩ := hputs key hkey
      exact hobj r' hr' k hk

def dataBucket : S3Driver where
  basePath := []
  urlStyle := .path
  bucket := "data".toList
  configPrefix := []
  basePath_ok := by simp
  bucket_ok := by decide

def lobby : Room where
  id := "lobby".toList
  tokens := [['7'], "writer-a".toList]
  id_ne := by decide

def parent : Room where
  id := ['.', '.']
  tokens := []
  id_ne := by decide

theorem isolated_iff_plain_lobby :
    Isolated dataBucket lobby { lobby with id := "a/../b".toList, id_ne := by decide } :=
  (isolated_iff_plain dataBucket (by decide)).2
    ⟨by decide, ⟨by decide, by decide⟩, ⟨by decide, by decide⟩⟩

/-- The room `..` writes its manifest next to the rooms, and a listing never finds it again. -/
theorem not_isolated_parent :
    dataBucket.buildUrl (parent.key .manifest) = "/data/_manifest".toList ∧
      ¬ Isolated dataBucket parent lobby := by
  refine ⟨by decide +kernel, fun h => ?_⟩
  have hkey : NoDots (dataBucket.toStoreKey (parent.key .manifest)) :=
    h.noDots (by simp) trivial hundreds
  exact ((dataBucket.noDots_toStoreKey_key parent .manifest).1 hkey).2.1 (.inr rfl)

end S3
end ObjectStorage
end Reflectdb
