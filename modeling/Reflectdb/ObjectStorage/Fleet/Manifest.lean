import Reflectdb.ObjectStorage.S3Keys
import Reflectdb.ObjectStorage.WalReplay

/-!
# Manifest — object keys, the manifest of a room, and what a commit does to it

The records of `manifest.ts`, and the mutations that `wal.ts` and `index.ts` commit.  Keys are
relative to the prefix of the room.
-/

namespace Reflectdb
namespace ObjectStorage

deriving instance DecidableEq for Server.OpLogEntry, WalRowMutation, WalRecord, SnapshotRow,
  SnapshotRecord

namespace Fleet

open Core Client Lib

/-! ## Keys -/

abbrev WriterId : Type :=
  List Char

inductive ConcurrencyMode
  | singleWriter
  | optimistic
  deriving DecidableEq, Repr

/-- The write-once objects.  `token` is the fencing epoch, or the writer id of an optimistic
instance. -/
inductive ObjectKey
  | wal (token : List Char) (seq : Nat)
  | snap (token : List Char) (seq : Nat)
  deriving DecidableEq, Repr

namespace ObjectKey

def layout : ObjectKey → S3.LayoutKey
  | .wal token seq => .wal token seq
  | .snap token seq => .snap token seq

/-- The key as text, below the prefix of the room. -/
def path (key : ObjectKey) : List Char :=
  key.layout.text

def token : ObjectKey → List Char
  | .wal token _ => token
  | .snap token _ => token

end ObjectKey

/-- `key.startsWith(...)` of `isOwnSegment`, in `"optimistic"`. -/
def isOwnSegment (writerId : WriterId) (key : ObjectKey) : Bool :=
  ("wal/".toList ++ writerId ++ ['-']).isPrefixOf key.path

/-- `String(epoch)`. -/
def epochToken (epoch : Nat) : List Char :=
  Nat.toDigits 10 epoch

theorem dash_not_mem_digits (n : Nat) : '-' ∉ Nat.toDigits 10 n := by
  intro h
  exact absurd (Nat.isDigit_of_mem_toDigits (by decide) (by decide) h) (by decide)

theorem epochToken_injective : Function.Injective epochToken :=
  Function.LeftInverse.injective fun _ => Nat.ofDigitChars_ten_toDigits

/-- The last dash splits a name in one way. -/
theorem append_dash_inj {a b c d : List Char} (hb : '-' ∉ b) (hd : '-' ∉ d)
    (h : a ++ '-' :: b = c ++ '-' :: d) : a = c ∧ b = d := by
  have hrev : b.reverse ++ '-' :: a.reverse = d.reverse ++ '-' :: c.reverse := by
    simpa using congrArg List.reverse h
  have hinj := append_separator_inj (fun hm => hb (List.mem_reverse.1 hm))
    (fun hm => hd (List.mem_reverse.1 hm)) hrev
  exact ⟨List.reverse_injective hinj.2, List.reverse_injective hinj.1⟩

/-- Distinct keys are distinct objects, whatever characters a writer id has. -/
theorem path_injective : Function.Injective ObjectKey.path := by
  have hname : ∀ {t t' ext : List Char} {n n' : Nat},
      t ++ ('-' :: Nat.toDigits 10 n ++ ext) = t' ++ ('-' :: Nat.toDigits 10 n' ++ ext) →
        t = t' ∧ n = n' := by
    intro t t' ext n n' h
    rw [← List.append_assoc, ← List.append_assoc] at h
    have hinj := append_dash_inj (dash_not_mem_digits n) (dash_not_mem_digits n')
      (List.append_cancel_right h)
    exact ⟨hinj.1, epochToken_injective hinj.2⟩
  intro k k' h
  cases k with
  | wal t n =>
      cases k' with
      | wal t' n' =>
          have hrest := @List.append_cancel_left _ "wal".toList ([_] ++ _) ([_] ++ _) h
          obtain ⟨rfl, rfl⟩ := hname (List.append_cancel_left hrest)
          rfl
      | snap t' n' => exact absurd (List.head_eq_of_cons_eq h) (by decide)
  | snap t n =>
      cases k' with
      | wal t' n' => exact absurd (List.head_eq_of_cons_eq h) (by decide)
      | snap t' n' =>
          have hrest := @List.append_cancel_left _ "snap".toList ([_] ++ _) ([_] ++ _) h
          obtain ⟨rfl, rfl⟩ := hname (List.append_cancel_left hrest)
          rfl

/-! ## Records -/

/-- A line of a segment.  `serial` numbers the records of all instances in the order of their
appends; no function of the source reads it. -/
structure Entry where
  serial : Nat
  record : WalRecord
  deriving DecidableEq

structure LeaseRecord where
  owner : WriterId
  epoch : Nat
  expiresAt : Nat
  deriving DecidableEq, Repr

structure WalSegmentRef where
  key : ObjectKey
  epoch : Nat
  seq : Nat
  bytes : Nat
  maxHlc : Hlc
  deriving DecidableEq

structure GcEntry where
  key : ObjectKey
  deletableAt : Nat
  deriving DecidableEq

structure ManifestRecord where
  epoch : Nat
  commitSeq : Nat
  lastWriter : WriterId
  snapshotKey : Option ObjectKey
  snapshotHlc : Option Hlc
  walSegs : List WalSegmentRef
  oplogHead : Option Hlc
  meta_ : Record String
  pendingGc : List GcEntry
  deriving DecidableEq

def emptyManifest : ManifestRecord :=
  ⟨0, 0, [], none, none, [], none, ∅, []⟩

namespace ManifestRecord

/-- The keys of the segments, in commit order. -/
def segments (m : ManifestRecord) : List ObjectKey :=
  m.walSegs.map (·.key)

/-- Every object that the manifest names. -/
def live (m : ManifestRecord) : List ObjectKey :=
  m.snapshotKey.toList ++ m.segments

/-- The superseded objects whose grace period is over. -/
def due (m : ManifestRecord) (now : Nat) : List GcEntry :=
  m.pendingGc.filter fun entry => entry.deletableAt ≤ now

/-- Those of them that the manifest does not name. -/
def deletable (m : ManifestRecord) (now : Nat) : List ObjectKey :=
  ((m.due now).map (·.key)).filter fun key => !m.live.contains key

end ManifestRecord

/-! ## Commits -/

/-- What a commit does to the manifest.  `batch` is what the segment of a flush holds and `log` the
records that a snapshot was taken of; `mutate` reads neither. -/
inductive Update
  /-- `flushOnce`. -/
  | append (ref : WalSegmentRef) (batch : List Entry)
  | setMeta (key value : String)
  /-- `compactIfDue`. -/
  | compact (key : ObjectKey) (hlc : Option Hlc) (deletableAt : Nat) (log : List Entry)
  /-- `collectGarbage`. -/
  | collect (now : Nat)
  deriving DecidableEq

/-- The higher of a stored HLC and another; an absent or empty one is below every other. -/
def raise (head : Option Hlc) (hlc : Hlc) : Option Hlc :=
  if head.getD "" < hlc then some hlc else head

namespace Update

def mutate (m : ManifestRecord) : Update → ManifestRecord
  | .append ref _ =>
    { m with walSegs := m.walSegs ++ [ref], oplogHead := raise m.oplogHead ref.maxHlc }
  | .setMeta key value => { m with meta_ := m.meta_.insert key value }
  | .compact key hlc deletableAt _ =>
    { m with
      pendingGc := m.pendingGc ++ m.segments.map (⟨·, deletableAt⟩)
        ++ m.snapshotKey.toList.map (⟨·, deletableAt⟩)
      walSegs := []
      snapshotKey := some key
      snapshotHlc := hlc
      meta_ :=
        match raise (m.meta_.lookup "compactionCutoff") (hlc.getD "") with
        | none => m.meta_
        | some cutoff => m.meta_.insert "compactionCutoff" cutoff }
  | .collect now => { m with pendingGc := m.pendingGc.filter fun entry => now < entry.deletableAt }

@[simp] theorem mutate_epoch (u : Update) (m : ManifestRecord) : (u.mutate m).epoch = m.epoch := by
  cases u <;> rfl

@[simp] theorem mutate_commitSeq (u : Update) (m : ManifestRecord) :
    (u.mutate m).commitSeq = m.commitSeq := by
  cases u <;> rfl

@[simp] theorem mutate_lastWriter (u : Update) (m : ManifestRecord) :
    (u.mutate m).lastWriter = m.lastWriter := by
  cases u <;> rfl

/-- The object that the manifest names from this commit on. -/
def introduces : Update → Option ObjectKey
  | .append ref _ => some ref.key
  | .compact key _ _ _ => some key
  | _ => none

/-- The records that a boot reflects after the commit, from those before it. -/
def extend (log : List Entry) : Update → List Entry
  | .append _ batch => log ++ batch
  | .compact _ _ _ snapshot => snapshot
  | _ => log

/-- The commits do the same, but for the names of the objects they publish. -/
def SameEffect : Update → Update → Prop
  | .append _ batch, .append _ other => batch = other
  | .setMeta key value, .setMeta key' value' => key = key' ∧ value = value'
  | .compact _ hlc _ log, .compact _ hlc' _ log' => hlc = hlc' ∧ log = log'
  | .collect now, .collect now' => now = now'
  | _, _ => False

instance (u v : Update) : Decidable (u.SameEffect v) := by
  cases u <;> cases v <;> unfold SameEffect <;> infer_instance

theorem SameEffect.refl (u : Update) : u.SameEffect u := by
  cases u <;> simp [SameEffect]

end Update

/-- `buildNext`. -/
def buildNext (mode : ConcurrencyMode) (leaseEpoch : Nat) (writerId : WriterId)
    (cached : ManifestRecord) : ManifestRecord :=
  { cached with
    epoch := if mode = .optimistic then cached.epoch else leaseEpoch
    commitSeq := cached.commitSeq + 1
    lastWriter := writerId }

/-- What `adoptOwnCommit` compares. -/
def IsOwnCommit (writerId : WriterId) (attempted stored : ManifestRecord) : Prop :=
  stored.lastWriter = writerId ∧ stored.commitSeq = attempted.commitSeq ∧
    stored.epoch = attempted.epoch

instance (writerId : WriterId) (attempted stored : ManifestRecord) :
    Decidable (IsOwnCommit writerId attempted stored) :=
  inferInstanceAs (Decidable (_ ∧ _))

/-! ## Objects -/

/-- A segment, or a snapshot and the records that its room reflected. -/
inductive ObjectBody
  | segment (lines : List Entry)
  | snapshot (record : SnapshotRecord) (log : List Entry)

/-- The objects of the store by key. -/
abbrev Objects : Type :=
  ObjectKey → Option ObjectBody

/-- The records of a segment; a missing object is an error. -/
def segmentLines (objects : Objects) (key : ObjectKey) : Option (List Entry) :=
  match objects key with
  | some (.segment lines) => some lines
  | _ => none

/-- A snapshot, and the records that its room reflected. -/
def snapshotOf (objects : Objects) (key : ObjectKey) : Option (SnapshotRecord × List Entry) :=
  match objects key with
  | some (.snapshot record log) => some (record, log)
  | _ => none

end Fleet

end ObjectStorage
end Reflectdb
