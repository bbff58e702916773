import Mathlib.Data.List.AList
import Mathlib.Data.List.Sort
import Reflectdb.Lib.FileTree
import Reflectdb.Lib.Numeral

/-!
# Object drivers — objects in a map of the process, and in files under a root directory

The memory driver numbers its etags; the filesystem driver derives them from the bytes, so that an
object that is written twice with the same bytes keeps its etag there.  Paths are relative to the
root directory, and the file system takes any name and keeps it as it is.
-/

namespace Reflectdb
namespace ObjectStorage

open Lib

/-! ## The contract -/

abbrev Body : Type :=
  List UInt8

structure ObjectRecord where
  body : Body
  etag : Text
  deriving DecidableEq

structure ObjectListEntry where
  key : Text
  size : Nat
  deriving DecidableEq

/-- `ifNoneMatch` has one value only. -/
structure ObjectPutOptions where
  ifMatch : Option Text
  ifNoneMatch : Bool

inductive DriverError
  | preconditionFailed (key : Text)
  /-- Any other error. -/
  | failed
  deriving DecidableEq

/-- Ascending by code units. -/
def sortEntries (entries : List ObjectListEntry) : List ObjectListEntry :=
  entries.insertionSort fun a b => ¬ b.key < a.key

/-! ## Memory -/

structure MemoryDriver where
  store : AList fun _ : Text => ObjectRecord
  etagCounter : Nat

namespace MemoryDriver

variable (m : MemoryDriver)

def etagOf (counter : Nat) : Text :=
  quoteMark :: (decimal counter ++ [quoteMark])

def get (key : Text) : Option ObjectRecord :=
  m.store.lookup key

def put (key : Text) (body : Body) (opts : ObjectPutOptions) :
    Except DriverError Text × MemoryDriver :=
  if opts.ifMatch.isSome ∧ opts.ifNoneMatch then (.error .failed, m)
  else if opts.ifNoneMatch ∧ (m.store.lookup key).isSome then
    (.error (.preconditionFailed key), m)
  else if opts.ifMatch.isSome ∧ (m.store.lookup key).map (·.etag) ≠ opts.ifMatch then
    (.error (.preconditionFailed key), m)
  else
    let etag := etagOf (m.etagCounter + 1)
    (.ok etag, ⟨m.store.insert key ⟨body, etag⟩, m.etagCounter + 1⟩)

def list (pre : Text) : List ObjectListEntry :=
  sortEntries ((m.store.entries.filter fun e => pre.isPrefixOf e.1).map
    fun e => ⟨e.1, e.2.body.length⟩)

def delete (keys : List Text) : MemoryDriver :=
  { m with store := keys.foldl (fun store key => store.erase key) m.store }

end MemoryDriver

/-! ## Filesystem -/

def slash : UInt16 := 47

/-- Four limbs of sixteen bits, the low one first. -/
structure Limbs where
  h0 : Nat
  h1 : Nat
  h2 : Nat
  h3 : Nat

def fnvStep (h : Limbs) (byte : UInt8) : Limbs :=
  let h0 := h.h0 ^^^ byte.toNat
  let t0 := h0 * 0x1b3
  let t1 := h.h1 * 0x1b3 + t0 / 0x10000
  let t2 := h.h2 * 0x1b3 + h0 * 0x100 + t1 / 0x10000
  let t3 := h.h3 * 0x1b3 + h.h1 * 0x100 + t2 / 0x10000
  ⟨t0 % 0x10000, t1 % 0x10000, t2 % 0x10000, t3 % 0x10000⟩

/-- FNV-1a over the bytes. -/
def contentEtag (bytes : Body) : Text :=
  let h := bytes.foldl fnvStep ⟨0x2325, 0x8422, 0x9ce4, 0xcbf2⟩
  quoteMark :: (hex4 h.h3.toUInt16 ++ hex4 h.h2.toUInt16 ++ hex4 h.h1.toUInt16 ++
    hex4 h.h0.toUInt16 ++ [quoteMark])

/-- `.reflectdb-tmp-` -/
def TEMP_PREFIX : Text :=
  Text.ofChars ['.', 'r', 'e', 'f', 'l', 'e', 'c', 't', 'd', 'b', '-', 't', 'm', 'p', '-']

def segments (t : Text) : List Text :=
  t.splitOn slash

def isLetter (c : UInt16) : Bool :=
  65 ≤ c && c ≤ 90 || 97 ≤ c && c ≤ 122

/-- `/^[a-zA-Z]:/` -/
def startsWithDrive : Text → Bool
  | c :: 58 :: _ => isLetter c
  | _ => false

/-- Whether `checkSegments` lets the segments pass. -/
def segmentsOk (allowEmpty : Bool) (segs : List Text) : Bool :=
  segs.all fun segment =>
    (allowEmpty || !segment.isEmpty) && !decide (segment = [46]) && !decide (segment = [46, 46]) &&
      !segment.contains backslash

/-- The keys that `resolveKeyPath` does not reject. -/
def keyOk (key : Text) : Bool :=
  !key.isEmpty && !decide (key.head? = some slash) && !startsWithDrive key &&
    segmentsOk false (segments key)

def prefixOk (pre : Text) : Bool :=
  !decide (pre.head? = some slash) && !startsWithDrive pre && segmentsOk true (segments pre)

/-- What the file system makes of a path: repeated slashes are one. -/
def resolve (path : Text) : List Text :=
  (segments path).filter fun segment => !segment.isEmpty

/-- What stands before the last slash. -/
def beforeLastSlash (t : Text) : Text :=
  [slash].intercalate (segments t).dropLast

def startsWithTemp (name : Text) : Bool :=
  TEMP_PREFIX.isPrefixOf name

/-- The key of an entry in the directory of a key. -/
def keyIn (base name : Text) : Text :=
  if base = [] then name else base ++ slash :: name

def walk (base : Text) : Dir Text Body → List ObjectListEntry
  | .empty => []
  | .file name body rest =>
    (if startsWithTemp name then [] else [⟨keyIn base name, body.length⟩]) ++ walk base rest
  | .dir name sub rest =>
    (if startsWithTemp name then [] else walk (keyIn base name) sub) ++ walk base rest

structure FilesystemDriver where
  root : Dir Text Body
  tempCounter : Nat

namespace FilesystemDriver

variable (m : FilesystemDriver)

def get (key : Text) : Except DriverError (Option ObjectRecord) :=
  if keyOk key then
    match m.root.readFile (resolve key) with
    | .error _ => .ok none
    | .ok body => .ok (some ⟨body, contentEtag body⟩)
  else .error .failed

/-- The etag of a file; no etag where nothing is there, and an error for a directory. -/
def readEtag (path : List Text) : Except DriverError (Option Text) :=
  match m.root.readFile path with
  | .error .notFound => .ok none
  | .error .isDirectory => .error .failed
  | .ok body => .ok (some (contentEtag body))

/-- The name of a temp file; `random` is the random part of it. -/
def tempName (counter : Nat) (random : Text) : Text :=
  TEMP_PREFIX ++ decimal counter ++ 45 :: random

/-- The write of `put`, past its conditions. -/
def write (key : Text) (body : Body) (random : Text) :
    Except DriverError Text × FilesystemDriver :=
  let dir := resolve (beforeLastSlash key)
  match m.root.mkdirp dir with
  | none => (.error .failed, m)
  | some root =>
    let temp := dir ++ [tempName (m.tempCounter + 1) random]
    match (root.writeFile temp body).bind fun root => root.rename temp (resolve key) with
    | none => (.error .failed, ⟨root, m.tempCounter + 1⟩)
    | some root => (.ok (contentEtag body), ⟨root, m.tempCounter + 1⟩)

def put (key : Text) (body : Body) (opts : ObjectPutOptions) (random : Text) :
    Except DriverError Text × FilesystemDriver :=
  if keyOk key = false then (.error .failed, m)
  else if opts.ifMatch.isSome ∧ opts.ifNoneMatch then (.error .failed, m)
  else if opts.ifNoneMatch ∧ (m.root.stat (resolve key)).isSome then
    (.error (.preconditionFailed key), m)
  else if opts.ifMatch.isSome then
    match m.readEtag (resolve key) with
    | .error e => (.error e, m)
    | .ok current =>
      if current ≠ opts.ifMatch then (.error (.preconditionFailed key), m)
      else m.write key body random
  else m.write key body random

def list (pre : Text) : Except DriverError (List ObjectListEntry) :=
  if prefixOk pre then
    let base := beforeLastSlash pre
    let entries :=
      match m.root.node (resolve base) with
      | some (.dir sub) => walk base sub
      | _ => []
    .ok (sortEntries (entries.filter fun e => pre.isPrefixOf e.key))
  else .error .failed

def delete : List Text → FilesystemDriver → Except DriverError Unit × FilesystemDriver
  | [], m => (.ok (), m)
  | key :: keys, m =>
    if keyOk key then
      match m.root.unlink (resolve key) with
      | .ok root => delete keys { m with root := root }
      | .error .notFound => delete keys m
      | .error .isDirectory => (.error .failed, m)
    else (.error .failed, m)

end FilesystemDriver

end ObjectStorage
end Reflectdb
