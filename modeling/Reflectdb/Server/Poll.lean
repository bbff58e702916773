import Mathlib.Data.List.Induction
import Mathlib.Data.String.Basic
import Reflectdb.Client.Store
import Reflectdb.Lib.Machine

/-!
# Poll — detecting the writes of other instances

Any number of instances over one op log.  An instance's poll tick compares the highest HLC of the
log with its watermark, asks for the tables with newer ops, and broadcasts these; its storage calls
are awaited, so ops are appended between them.  Ticks of one instance do not overlap.
-/

namespace Reflectdb
namespace Server

open Client

/-! ## Model -/

/-- An op of the log, and the instance that appended it. -/
structure LogOp where
  table : String
  hlc : Hlc
  writer : Nat
  deriving DecidableEq

structure PollConfig where
  /-- `getTrackedTables` of each instance. -/
  tables : Nat → List String
  /-- The adapter has `getOplogHead` and `getChangedTablesSince`. -/
  detects : Bool

/-- `getOplogHead`: the highest HLC among the tables. -/
def oplogHead (tables : List String) (log : List LogOp) : Option Hlc :=
  log.foldl (fun head op =>
    if op.table ∈ tables then some (max (head.getD op.hlc) op.hlc) else head) none

/-- `getChangedTablesSince`. -/
def changedTablesSince (since : Hlc) (tables : List String) (log : List LogOp) : List String :=
  tables.filter fun table => log.any fun op => op.table = table ∧ since < op.hlc

/-- Where a poll tick stands.  `start` and `readAt` are the lengths of the log when the tick began
and when it read the changed tables; no step reads them. -/
inductive Tick
  | idle
  | headRead (head : Option Hlc) (start : Nat)
  /-- The head is above the watermark. -/
  | asking (head : Hlc) (start : Nat)
  | answered (head : Hlc) (changed : List String) (start readAt : Nat)
  /-- `notifyAll` has called `notifyChange` for each table. -/
  | notifying (start : Nat)
  deriving DecidableEq

/-- A broadcast of a tick, with the length of the log that the tick had read. -/
structure Notified where
  table : String
  readAt : Nat
  deriving DecidableEq

structure Poller where
  pollWatermark : Option Hlc
  tick : Tick
  /-- The length of the log when the first tick began. -/
  adopted : Option Nat
  notified : List Notified
  /-- The length of the log when the last completed tick began. -/
  completed : Nat

def Poller.start : Poller :=
  ⟨none, .idle, none, [], 0⟩

def Poller.notifyAll (n : Poller) (tables : List String) (start readAt : Nat) : Poller :=
  { n with
    tick := .notifying start
    notified := n.notified ++ tables.map fun table => ⟨table, readAt⟩ }

structure PollState where
  log : List LogOp
  pollers : List Poller

inductive PollEvent
  /-- An instance applies an op to the shared storage. -/
  | append (writer : Nat) (table : String) (hlc : Hlc)
  /-- A tick begins and reads the head of the log. -/
  | readHead (instance_ : Nat)
  /-- The head is compared with the watermark. -/
  | compare (instance_ : Nat)
  | readChanged (instance_ : Nat)
  /-- The watermark is moved and the changed tables are broadcast. -/
  | notify (instance_ : Nat)
  | finish (instance_ : Nat)
  /-- A storage call of the tick throws. -/
  | throw (instance_ : Nat)

/-- The beginning of `pollRemoteChanges`. -/
def Poller.readHead (cfg : PollConfig) (i : Nat) (log : List LogOp) (n : Poller) :
    Option Poller :=
  if n.tick ≠ .idle ∨ cfg.tables i = [] then none
  else if cfg.detects then
    some { n with tick := .headRead (oplogHead (cfg.tables i) log) log.length }
  else
    -- No change detection: notify everything.
    some ({ n with adopted := some (n.adopted.getD log.length) }.notifyAll (cfg.tables i)
      log.length log.length)

def Poller.compare (n : Poller) : Option Poller :=
  match n.tick with
  | .headRead head start =>
    match n.pollWatermark with
    | none =>
      -- First tick: adopt the current head rather than replaying history.
      some { n with
        pollWatermark := some (head.getD ""), tick := .idle, adopted := some start }
    | some w =>
      match head with
      | none => some { n with tick := .idle, completed := start }
      | some h =>
        if h ≤ w then some { n with tick := .idle, completed := start }
        else some { n with tick := .asking h start }
  | _ => none

def Poller.readChanged (cfg : PollConfig) (i : Nat) (log : List LogOp) (n : Poller) :
    Option Poller :=
  match n.tick, n.pollWatermark with
  | .asking head start, some w =>
    some { n with
      tick := .answered head (changedTablesSince w (cfg.tables i) log) start log.length }
  | _, _ => none

def Poller.notify (n : Poller) : Option Poller :=
  match n.tick with
  | .answered head changed start readAt =>
    some ({ n with pollWatermark := some head }.notifyAll changed start readAt)
  | _ => none

def Poller.finish (n : Poller) : Option Poller :=
  match n.tick with
  | .notifying start => some { n with tick := .idle, completed := start }
  | _ => none

def Poller.throw (n : Poller) : Option Poller :=
  match n.tick with
  | .headRead _ _ => some { n with tick := .idle }
  | .asking _ _ => some { n with tick := .idle }
  | _ => none

/-- A step of one instance's tick. -/
def PollState.poll (s : PollState) (i : Nat) (f : Poller → Option Poller) : Option PollState :=
  match s.pollers[i]? with
  | some n => (f n).map fun n' => { s with pollers := s.pollers.set i n' }
  | none => none

def pollStep (cfg : PollConfig) (s : PollState) : PollEvent → Option PollState
  | .append writer table hlc => some { s with log := s.log ++ [⟨table, hlc, writer⟩] }
  | .readHead i => s.poll i (Poller.readHead cfg i s.log)
  | .compare i => s.poll i Poller.compare
  | .readChanged i => s.poll i (Poller.readChanged cfg i s.log)
  | .notify i => s.poll i Poller.notify
  | .finish i => s.poll i Poller.finish
  | .throw i => s.poll i Poller.throw

/-- `count` instances. -/
def pollMachine (cfg : PollConfig) (count : Nat) : Lib.Machine PollState PollEvent :=
  ⟨⟨[], List.replicate count .start⟩, pollStep cfg⟩

/-! ## Completeness -/

/-- A tick that had read the log beyond position `p` has broadcast the table. -/
def Poller.Broadcast (n : Poller) (table : String) (p : Nat) : Prop :=
  ∃ b ∈ n.notified, b.table = table ∧ p < b.readAt

/-- Every op another instance appended after the first tick of an instance has had its table
broadcast by that instance, once a tick that began after the append has completed. -/
def Detected (s : PollState) : Prop :=
  ∀ (i : Nat) (n : Poller), s.pollers[i]? = some n → ∀ start ∈ n.adopted,
    ∀ (p : Nat) (op : LogOp), s.log[p]? = some op → op.writer ≠ i → start ≤ p →
      p < n.completed → n.Broadcast op.table p

/-- The instance has begun its first tick. -/
def Poller.polling (n : Poller) : Bool :=
  n.adopted.isSome || n.tick ≠ .idle

/-- The watermark that the next comparison of the instance comes to use: the one it has, or the head
that the tick under way is about to adopt without having seen what is appended from now on. -/
def Poller.floor (n : Poller) : Option Hlc :=
  match n.tick, n.pollWatermark with
  | .headRead head _, none => some (head.getD "")
  | .answered head _ _ _, _ => some head
  | _, watermark => watermark

/-- The instance comes to see an op appended now: it tracks the table, and counts as seen nothing at
or above its HLC. -/
def Poller.Sees (cfg : PollConfig) (i : Nat) (n : Poller) (table : String) (hlc : Hlc) : Prop :=
  table ∈ cfg.tables i ∧ (cfg.detects = true → ∀ w ∈ n.floor, w < hlc)

instance (cfg : PollConfig) (i : Nat) (n : Poller) (table : String) (hlc : Hlc) :
    Decidable (n.Sees cfg i table hlc) :=
  inferInstanceAs (Decidable (_ ∧ (_ → _)))

/-- Each other instance that polls comes to see what is appended. -/
def AppendsSeen (cfg : PollConfig) (s : PollState) : PollEvent → Prop
  | .append writer table hlc => ∀ x ∈ s.pollers.zipIdx, x.2 ≠ writer → x.1.polling = true →
      x.1.Sees cfg x.2 table hlc
  | _ => True

instance (cfg : PollConfig) (s : PollState) (e : PollEvent) : Decidable (AppendsSeen cfg s e) := by
  unfold AppendsSeen
  split <;> infer_instance

/-! ## Reads of the log -/

theorem oplogHead_concat (tables : List String) (log : List LogOp) (op : LogOp) :
    oplogHead tables (log ++ [op]) =
      if op.table ∈ tables then some (max ((oplogHead tables log).getD op.hlc) op.hlc)
      else oplogHead tables log := by
  simp [oplogHead]

theorem le_oplogHead {tables : List String} {op : LogOp} (htable : op.table ∈ tables) :
    ∀ {log : List LogOp}, op ∈ log →
      ∃ head, oplogHead tables log = some head ∧ op.hlc ≤ head := by
  intro log
  induction log using List.reverseRecOn with
  | nil => intro hop; cases hop
  | append_singleton log last ih =>
      intro hop
      rw [oplogHead_concat]
      rcases List.mem_append.1 hop with hold | hnew
      · rcases ih hold with ⟨head, hhead, hle⟩
        by_cases hlast : last.table ∈ tables
        · exact ⟨max head last.hlc, by simp [hlast, hhead], le_trans hle (le_max_left _ _)⟩
        · exact ⟨head, by simp [hlast, hhead], hle⟩
      · have heq : op = last := by simpa using hnew
        subst heq
        exact ⟨_, if_pos htable, le_max_right _ _⟩

theorem mem_changedTablesSince {since : Hlc} {tables : List String} {log : List LogOp} {op : LogOp}
    (hop : op ∈ log) (htable : op.table ∈ tables) (hlt : since < op.hlc) :
    op.table ∈ changedTablesSince since tables log := by
  refine List.mem_filter.2 ⟨htable, List.any_eq_true.2 ⟨op, hop, ?_⟩⟩
  simpa using hlt

/-! ## The invariant of one instance -/

/-- The tick reads the log. -/
def Tick.reads : Tick → Bool
  | .idle => false
  | .notifying _ => false
  | _ => true

/-- The tick has found the head above the watermark. -/
def Tick.asks : Tick → Bool
  | .asking _ _ => true
  | .answered _ _ _ _ => true
  | _ => false

/-- The tick under way has the table among those it is about to broadcast. -/
def Poller.Queued (n : Poller) (table : String) (p : Nat) : Prop :=
  match n.tick with
  | .answered _ changed _ readAt => table ∈ changed ∧ p < readAt
  | _ => False

/-- The ops of other instances in a stretch of the log. -/
def OthersIn (i : Nat) (log : List LogOp) (first last : Nat) (op : LogOp) (p : Nat) : Prop :=
  log[p]? = some op ∧ op.writer ≠ i ∧ first ≤ p ∧ p < last

/-- The ops from a position on are broadcast, queued, or yet to be seen. -/
def Poller.Covers (cfg : PollConfig) (i : Nat) (n : Poller) (log : List LogOp) (first : Nat) :
    Prop :=
  ∀ p op, OthersIn i log first log.length op p →
    n.Broadcast op.table p ∨ n.Queued op.table p ∨ n.Sees cfg i op.table op.hlc

/-- What the tick under way has read. -/
def Poller.TickInv (cfg : PollConfig) (i : Nat) (n : Poller) (log : List LogOp) : Prop :=
  match n.tick with
  | .idle => True
  | .headRead head start => start ≤ log.length ∧ head = oplogHead (cfg.tables i) (log.take start) ∧
      (n.adopted = none → n.Covers cfg i log start)
  | .asking _ start => start ≤ log.length
  | .answered _ changed start readAt => start ≤ readAt ∧ readAt ≤ log.length ∧
      ∀ first ∈ n.adopted, ∀ p op, OthersIn i log first readAt op p →
        n.Broadcast op.table p ∨ op.table ∈ changed
  | .notifying start => start ≤ log.length ∧ n.adopted ≠ none ∧ ∀ first ∈ n.adopted, ∀ p op,
      OthersIn i log first start op p → n.Broadcast op.table p

structure PollInv (cfg : PollConfig) (i : Nat) (n : Poller) (log : List LogOp) : Prop where
  /-- Without change detection there is no watermark, and no tick that reads the log. -/
  blind : cfg.detects = false → n.tick.reads = false
  watermark : cfg.detects = true → (n.pollWatermark = none ↔ n.adopted = none)
  asks : n.pollWatermark = none → n.tick.asks = false
  fresh : n.adopted = none → n.completed = 0
  tick : n.TickInv cfg i log
  covers : ∀ first ∈ n.adopted, n.Covers cfg i log first
  completed : n.completed ≤ log.length ∧ ∀ first ∈ n.adopted, ∀ p op,
    OthersIn i log first n.completed op p → n.Broadcast op.table p

variable {cfg : PollConfig} {i : Nat} {n n' : Poller} {log : List LogOp}

theorem OthersIn.mem {first last p : Nat} {op : LogOp} (h : OthersIn i log first last op p) :
    op ∈ log.take last :=
  List.mem_of_getElem? (l := log.take last) (i := p)
    (by rw [List.getElem?_take_of_lt h.2.2.2]; exact h.1)

/-- An append leaves the earlier stretches of the log as they are. -/
theorem OthersIn.of_append {first last p : Nat} {op new : LogOp}
    (h : OthersIn i (log ++ [new]) first last op p) (hlast : last ≤ log.length) :
    OthersIn i log first last op p := by
  rcases h with ⟨hget, hwriter, hfirst, hp⟩
  refine ⟨?_, hwriter, hfirst, hp⟩
  rwa [List.getElem?_append_left (lt_of_lt_of_le hp hlast)] at hget

theorem Poller.Covers.append {first : Nat} {new : LogOp} (h : n.Covers cfg i log first)
    (hnew : new.writer ≠ i → n.Sees cfg i new.table new.hlc) :
    n.Covers cfg i (log ++ [new]) first := by
  intro p op hop
  by_cases hp : p < log.length
  · have hold : OthersIn i (log ++ [new]) first log.length op p :=
      ⟨hop.1, hop.2.1, hop.2.2.1, hp⟩
    exact h p op (hold.of_append (le_refl _))
  · have hlast : p = log.length := by
      have := hop.2.2.2
      simp only [List.length_append, List.length_singleton] at this
      omega
    have heq : op = new := by
      have hget := hop.1
      rw [hlast, List.getElem?_append_right (le_refl _)] at hget
      simpa using hget.symm
    subst heq
    exact Or.inr (Or.inr (hnew hop.2.1))

theorem PollInv.append {new : LogOp} (h : PollInv cfg i n log)
    (hnew : new.writer ≠ i → n.polling = true → n.Sees cfg i new.table new.hlc) :
    PollInv cfg i n (log ++ [new]) := by
  have hle : log.length ≤ (log ++ [new]).length := by simp
  refine ⟨h.blind, h.watermark, h.asks, h.fresh, ?_, ?_, le_trans h.completed.1 hle, ?_⟩
  · have htick := h.tick
    cases hcase : n.tick with
    | idle => simp [Poller.TickInv, hcase]
    | headRead head start =>
        simp only [Poller.TickInv, hcase] at htick ⊢
        rcases htick with ⟨hstart, hhead, hcovers⟩
        refine ⟨le_trans hstart hle, ?_, fun hnone => (hcovers hnone).append fun hw => ?_⟩
        · rw [List.take_append_of_le_length hstart]
          exact hhead
        · exact hnew hw (by simp [Poller.polling, hcase])
    | asking head start =>
        simp only [Poller.TickInv, hcase] at htick ⊢
        exact le_trans htick hle
    | answered head changed start readAt =>
        simp only [Poller.TickInv, hcase] at htick ⊢
        rcases htick with ⟨hstart, hread, hchanged⟩
        exact ⟨hstart, le_trans hread hle, fun first hfirst p op hop =>
          hchanged first hfirst p op (hop.of_append hread)⟩
    | notifying start =>
        simp only [Poller.TickInv, hcase] at htick ⊢
        rcases htick with ⟨hstart, hadopted, hdone⟩
        exact ⟨le_trans hstart hle, hadopted, fun first hfirst p op hop =>
          hdone first hfirst p op (hop.of_append hstart)⟩
  · intro first hfirst
    refine (h.covers first hfirst).append fun hw => hnew hw ?_
    have hadopted : n.adopted = some first := hfirst
    simp [Poller.polling, hadopted]
  · intro first hfirst p op hop
    exact h.completed.2 first hfirst p op (hop.of_append h.completed.1)

/-! ## The steps of a tick -/

theorem Poller.Broadcast.mono {table : String} {p : Nat} (h : n.Broadcast table p)
    (hnotified : n.notified ⊆ n'.notified) : n'.Broadcast table p := by
  rcases h with ⟨b, hb, htable, hp⟩
  exact ⟨b, hnotified hb, htable, hp⟩

theorem Poller.Broadcast.congr {table : String} {p : Nat} (h : n.Broadcast table p)
    (hnotified : n'.notified = n.notified) : n'.Broadcast table p :=
  h.mono (hnotified ▸ List.Subset.refl _)

theorem Poller.broadcast_notifyAll {table : String} {tables : List String} {p readAt : Nat}
    (htable : table ∈ tables) (hp : p < readAt) (start : Nat) :
    (n.notifyAll tables start readAt).Broadcast table p := by
  refine ⟨⟨table, readAt⟩, List.mem_append_right _ ?_, rfl, hp⟩
  exact List.mem_map.2 ⟨table, htable, rfl⟩

theorem PollInv.readHead (h : PollInv cfg i n log) (hs : n.readHead cfg i log = some n') :
    PollInv cfg i n' log := by
  simp only [Poller.readHead] at hs
  split at hs
  · cases hs
  · rename_i hbegin
    have hidle : n.tick = .idle := by
      by_contra hne
      exact hbegin (Or.inl hne)
    split at hs
    · rename_i hdetects
      cases hs
      refine ⟨fun hblind => ?_, h.watermark, ?_, h.fresh, ?_, ?_, h.completed⟩
      · rw [hdetects] at hblind
        cases hblind
      · intro _
        rfl
      · refine ⟨le_refl _, by simp, fun _ p op hop => ?_⟩
        exact absurd hop.2.2.2 (not_lt_of_ge hop.2.2.1)
      · intro first hfirst p op hop
        have hadopted : n.adopted = some first := hfirst
        -- The watermark is there, so the tick does not change what counts as seen.
        have hwatermark : n.pollWatermark ≠ none := by
          intro hnone
          rw [(h.watermark hdetects).1 hnone] at hadopted
          cases hadopted
        rcases h.covers first hfirst p op hop with hdone | hqueued | hsees
        · exact Or.inl (hdone.congr rfl)
        · simp [Poller.Queued, hidle] at hqueued
        · refine Or.inr (Or.inr ⟨hsees.1, fun hd w hw => hsees.2 hd w ?_⟩)
          cases hcase : n.pollWatermark with
          | none => exact absurd hcase hwatermark
          | some w' => simpa [Poller.floor, hcase, hidle] using hw
    · rename_i hblind
      have hblind' : cfg.detects = false := by simpa using hblind
      cases hs
      -- Every tracked table is broadcast.
      have hall : ∀ first ∈ n.adopted, ∀ p op, OthersIn i log first log.length op p →
          (n.notifyAll (cfg.tables i) log.length log.length).Broadcast op.table p := by
        intro first hfirst p op hop
        rcases h.covers first hfirst p op hop with hdone | hqueued | hsees
        · exact hdone.mono (List.subset_append_left _ _)
        · simp [Poller.Queued, hidle] at hqueued
        · exact Poller.broadcast_notifyAll hsees.1 hop.2.2.2 _
      have hfirst : ∀ first, first ∈ some (n.adopted.getD log.length) →
          first ∈ n.adopted ∨ first = log.length := by
        intro first hmem
        have heq : n.adopted.getD log.length = first := by simpa using hmem
        cases hadopted : n.adopted with
        | none => exact Or.inr (by simpa [hadopted] using heq.symm)
        | some a => exact Or.inl (by simpa [hadopted] using heq)
      have hall' : ∀ first ∈ some (n.adopted.getD log.length), ∀ p op,
          OthersIn i log first log.length op p →
            (n.notifyAll (cfg.tables i) log.length log.length).Broadcast op.table p := by
        intro first hmem p op hop
        rcases hfirst first hmem with hold | hnew
        · exact hall first hold p op hop
        · subst hnew
          exact absurd hop.2.2.2 (not_lt_of_ge hop.2.2.1)
      refine ⟨fun _ => rfl, fun hd => ?_, fun _ => rfl, fun hnone => ?_, ?_, ?_, ?_⟩
      · rw [hblind'] at hd
        cases hd
      · cases hnone
      · exact ⟨le_refl _, Option.some_ne_none _, fun first hmem p op hop =>
          hall' first hmem p op hop⟩
      · intro first hmem p op hop
        exact Or.inl (hall' first hmem p op hop)
      · refine ⟨h.completed.1, fun first hmem p op hop => ?_⟩
        refine hall' first hmem p op ⟨hop.1, hop.2.1, hop.2.2.1, ?_⟩
        exact lt_of_lt_of_le hop.2.2.2 h.completed.1

theorem PollInv.detects (h : PollInv cfg i n log) (hreads : n.tick.reads = true) :
    cfg.detects = true := by
  by_contra hblind
  have hnot := h.blind (by simpa using hblind)
  rw [hreads] at hnot
  cases hnot

/-- With no head above the watermark, everything up to the read was broadcast before. -/
theorem PollInv.broadcast_of_head_le (h : PollInv cfg i n log) {head : Option Hlc} {start : Nat}
    (hcase : n.tick = .headRead head start)
    (hhead : head = oplogHead (cfg.tables i) (log.take start)) {w : Hlc}
    (hw : n.pollWatermark = some w) (hle : ∀ hd ∈ head, hd ≤ w) (hstart : start ≤ log.length) :
    ∀ first ∈ n.adopted, ∀ p op, OthersIn i log first start op p → n.Broadcast op.table p := by
  have hdetects : cfg.detects = true := h.detects (by rw [hcase]; rfl)
  intro first hfirst p op hop
  have hop' : OthersIn i log first log.length op p :=
    ⟨hop.1, hop.2.1, hop.2.2.1, lt_of_lt_of_le hop.2.2.2 hstart⟩
  rcases h.covers first hfirst p op hop' with hdone | hqueued | hsees
  · exact hdone
  · simp [Poller.Queued, hcase] at hqueued
  · have hlt : w < op.hlc := hsees.2 hdetects w (by simp [Poller.floor, hcase, hw])
    rcases le_oplogHead hsees.1 hop.mem with ⟨hd, hsome, hge⟩
    have hhd : hd ≤ w := hle hd (by rw [hhead, hsome]; rfl)
    exact absurd (lt_of_lt_of_le hlt hge) (not_lt_of_ge hhd)

/-- A tick that ends with everything up to its beginning broadcast. -/
theorem PollInv.complete (h : PollInv cfg i n log) {start : Nat} (hstart : start ≤ log.length)
    (hfresh : n.adopted ≠ none)
    (hsame : ∀ table hlc, n.Sees cfg i table hlc →
      ({ n with tick := .idle, completed := start } : Poller).Sees cfg i table hlc)
    (hqueued : ∀ table p, ¬ n.Queued table p)
    (hdone : ∀ first ∈ n.adopted, ∀ p op, OthersIn i log first start op p →
      n.Broadcast op.table p) :
    PollInv cfg i { n with tick := .idle, completed := start } log := by
  constructor
  · intro _
    rfl
  · exact h.watermark
  · intro _
    rfl
  · intro hnone
    exact absurd hnone hfresh
  · trivial
  · intro first hfirst p op hop
    rcases h.covers first hfirst p op hop with hbroadcast | hq | hsees
    · exact Or.inl (hbroadcast.congr rfl)
    · exact absurd hq (hqueued _ _)
    · exact Or.inr (Or.inr (hsame _ _ hsees))
  · exact ⟨hstart, fun first hfirst p op hop => (hdone first hfirst p op hop).congr rfl⟩

theorem PollInv.compare (h : PollInv cfg i n log) (hs : n.compare = some n') :
    PollInv cfg i n' log := by
  simp only [Poller.compare] at hs
  split at hs
  · rename_i head start hcase
    have hdetects : cfg.detects = true := h.detects (by rw [hcase]; rfl)
    have htick := h.tick
    simp only [Poller.TickInv, hcase] at htick
    rcases htick with ⟨hstart, hhead, hcovers⟩
    have hqueued : ∀ table p, ¬ n.Queued table p := by simp [Poller.Queued, hcase]
    split at hs
    · -- The first tick: what was appended since its read is above the head.
      rename_i hnone
      have hadopted : n.adopted = none := (h.watermark hdetects).1 hnone
      cases hs
      constructor
      · intro _
        rfl
      · intro _
        simp
      · intro hw
        cases hw
      · intro hw
        cases hw
      · trivial
      · intro first hfirst p op hop
        have heq : start = first := by simpa using hfirst
        subst heq
        rcases hcovers hadopted p op hop with hdone | hq | hsees
        · exact Or.inl (hdone.congr rfl)
        · exact absurd hq (hqueued _ _)
        · refine Or.inr (Or.inr ⟨hsees.1, fun hd w hw => hsees.2 hd w ?_⟩)
          simpa [Poller.floor, hcase, hnone] using hw
      · refine ⟨h.completed.1, fun first _ p op hop => ?_⟩
        have hzero : p < 0 := (h.fresh hadopted) ▸ hop.2.2.2
        exact absurd hzero (Nat.not_lt_zero p)
    · rename_i w hw
      have hadopted : n.adopted ≠ none := by
        intro hnone
        rw [(h.watermark hdetects).2 hnone] at hw
        cases hw
      have hsame : ∀ table hlc, n.Sees cfg i table hlc →
          ({ n with tick := .idle, completed := start } : Poller).Sees cfg i table hlc := by
        intro table hlc hsees
        refine ⟨hsees.1, fun hd w' hw' => hsees.2 hd w' ?_⟩
        simpa [Poller.floor, hcase, hw] using hw'
      split at hs
      · cases hs
        refine h.complete hstart hadopted hsame hqueued ?_
        exact h.broadcast_of_head_le hcase hhead hw (by simp) hstart
      · rename_i hd
        split at hs
        · rename_i hle
          cases hs
          refine h.complete hstart hadopted hsame hqueued ?_
          exact h.broadcast_of_head_le hcase hhead hw (by simpa using hle) hstart
        · cases hs
          refine ⟨fun hblind => ?_, h.watermark, fun hnone => ?_, h.fresh, hstart, ?_, h.completed⟩
          · rw [hdetects] at hblind
            cases hblind
          · rw [hw] at hnone
            cases hnone
          · intro first hfirst p op hop
            rcases h.covers first hfirst p op hop with hdone | hq | hsees
            · exact Or.inl (hdone.congr rfl)
            · exact absurd hq (hqueued _ _)
            · refine Or.inr (Or.inr ⟨hsees.1, fun hd w' hw' => hsees.2 hd w' ?_⟩)
              simpa [Poller.floor, hcase, hw] using hw'
  · cases hs

theorem PollInv.readChanged (h : PollInv cfg i n log) (hs : n.readChanged cfg i log = some n') :
    PollInv cfg i n' log := by
  simp only [Poller.readChanged] at hs
  split at hs
  · rename_i head start w hcase hw
    have hdetects : cfg.detects = true := h.detects (by rw [hcase]; rfl)
    have hstart : start ≤ log.length := by simpa [Poller.TickInv, hcase] using h.tick
    -- Whatever is yet to be seen is above the watermark, and so among the changed tables.
    have hall : ∀ first ∈ n.adopted, ∀ p op, OthersIn i log first log.length op p →
        n.Broadcast op.table p ∨ op.table ∈ changedTablesSince w (cfg.tables i) log := by
      intro first hfirst p op hop
      rcases h.covers first hfirst p op hop with hdone | hq | hsees
      · exact Or.inl hdone
      · simp [Poller.Queued, hcase] at hq
      · have hlt : w < op.hlc := hsees.2 hdetects w (by simp [Poller.floor, hcase, hw])
        exact Or.inr (mem_changedTablesSince (List.mem_of_getElem? hop.1) hsees.1 hlt)
    cases hs
    refine ⟨fun hblind => ?_, h.watermark, fun hnone => ?_, h.fresh, ?_, ?_, h.completed⟩
    · rw [hdetects] at hblind
      cases hblind
    · rw [hw] at hnone
      cases hnone
    · exact ⟨hstart, le_refl _, hall⟩
    · intro first hfirst p op hop
      rcases hall first hfirst p op hop with hdone | hchanged
      · exact Or.inl (hdone.congr rfl)
      · exact Or.inr (Or.inl ⟨hchanged, hop.2.2.2⟩)
  · cases hs

theorem PollInv.notify (h : PollInv cfg i n log) (hs : n.notify = some n') :
    PollInv cfg i n' log := by
  simp only [Poller.notify] at hs
  split at hs
  · rename_i head changed start readAt hcase
    have hdetects : cfg.detects = true := h.detects (by rw [hcase]; rfl)
    have htick := h.tick
    simp only [Poller.TickInv, hcase] at htick
    rcases htick with ⟨hstart, hread, hchanged⟩
    cases hs
    have hwatermark : n.pollWatermark ≠ none := by
      intro hnone
      have hasks := h.asks hnone
      simp [hcase, Tick.asks] at hasks
    have hadopted : n.adopted ≠ none :=
      fun hnone => hwatermark ((h.watermark hdetects).2 hnone)
    refine ⟨fun _ => rfl, fun hd => ?_, fun _ => rfl, h.fresh, ?_, ?_, ?_⟩
    · simp [Poller.notifyAll, hadopted]
    · refine ⟨le_trans hstart hread, hadopted, fun first hfirst p op hop => ?_⟩
      have hlt : p < readAt := lt_of_lt_of_le hop.2.2.2 hstart
      rcases hchanged first hfirst p op ⟨hop.1, hop.2.1, hop.2.2.1, hlt⟩ with hdone | hmem
      · exact hdone.mono (List.subset_append_left _ _)
      · exact Poller.broadcast_notifyAll hmem hlt start
    · intro first hfirst p op hop
      rcases h.covers first hfirst p op hop with hdone | hq | hsees
      · exact Or.inl (hdone.mono (List.subset_append_left _ _))
      · simp only [Poller.Queued, hcase] at hq
        exact Or.inl (Poller.broadcast_notifyAll hq.1 hq.2 start)
      · refine Or.inr (Or.inr ⟨hsees.1, fun hd w hw => hsees.2 hd w ?_⟩)
        simpa [Poller.floor, hcase, Poller.notifyAll] using hw
    · exact ⟨h.completed.1, fun first hfirst p op hop =>
        (h.completed.2 first hfirst p op hop).mono (List.subset_append_left _ _)⟩
  · cases hs

theorem PollInv.finish (h : PollInv cfg i n log) (hs : n.finish = some n') :
    PollInv cfg i n' log := by
  simp only [Poller.finish] at hs
  split at hs
  · rename_i start hcase
    have htick := h.tick
    simp only [Poller.TickInv, hcase] at htick
    rcases htick with ⟨hstart, hadopted, hdone⟩
    cases hs
    refine h.complete hstart hadopted (fun table hlc hsees => ?_) ?_ hdone
    · refine ⟨hsees.1, fun hd w hw => hsees.2 hd w ?_⟩
      simpa [Poller.floor, hcase] using hw
    · simp [Poller.Queued, hcase]
  · cases hs

/-- A tick that a storage call ends has moved nothing. -/
theorem PollInv.idle (h : PollInv cfg i n log) (hqueued : ∀ table p, ¬ n.Queued table p)
    (hfloor : n.adopted ≠ none → n.floor = n.pollWatermark) :
    PollInv cfg i { n with tick := .idle } log := by
  refine ⟨fun _ => rfl, h.watermark, fun _ => rfl, h.fresh, trivial, ?_, h.completed⟩
  intro first hfirst p op hop
  rcases h.covers first hfirst p op hop with hdone | hq | hsees
  · exact Or.inl (hdone.congr rfl)
  · exact absurd hq (hqueued _ _)
  · have hadopted : n.adopted = some first := hfirst
    refine Or.inr (Or.inr ⟨hsees.1, fun hd w hw => hsees.2 hd w ?_⟩)
    rw [hfloor (by simp [hadopted])]
    simpa [Poller.floor] using hw

theorem PollInv.throw (h : PollInv cfg i n log) (hs : n.throw = some n') :
    PollInv cfg i n' log := by
  simp only [Poller.throw] at hs
  split at hs
  · rename_i head start hcase
    cases hs
    refine h.idle (by simp [Poller.Queued, hcase]) fun hadopted => ?_
    have hdetects : cfg.detects = true := h.detects (by rw [hcase]; rfl)
    cases hw : n.pollWatermark with
    | none => exact absurd ((h.watermark hdetects).1 hw) hadopted
    | some w => simp [Poller.floor, hcase, hw]
  · rename_i head start hcase
    cases hs
    refine h.idle (by simp [Poller.Queued, hcase]) fun _ => ?_
    simp [Poller.floor, hcase]
  · cases hs

/-! ## The system -/

def AllPollInv (cfg : PollConfig) (s : PollState) : Prop :=
  ∀ (i : Nat) (n : Poller), s.pollers[i]? = some n → PollInv cfg i n s.log

variable {s s' : PollState}

theorem pollInv_start (cfg : PollConfig) (i : Nat) : PollInv cfg i .start [] := by
  refine ⟨fun _ => rfl, fun _ => ?_, fun _ => rfl, fun _ => rfl, trivial, ?_, le_refl _, ?_⟩
  · exact ⟨fun _ => rfl, fun _ => rfl⟩
  · intro first hfirst
    cases hfirst
  · intro first hfirst
    cases hfirst

theorem AllPollInv.poll (h : AllPollInv cfg s) {i : Nat} {f : Poller → Option Poller}
    (hf : ∀ n n', PollInv cfg i n s.log → f n = some n' → PollInv cfg i n' s.log)
    (hs : s.poll i f = some s') : AllPollInv cfg s' := by
  simp only [PollState.poll] at hs
  split at hs
  · rename_i n hn
    rcases Option.map_eq_some_iff.1 hs with ⟨n', hn', rfl⟩
    intro j m hm
    by_cases hj : i = j
    · subst hj
      have hlt : i < s.pollers.length := (List.getElem?_eq_some_iff.1 hn).1
      have heq : n' = m := by simpa [List.getElem?_set_self hlt] using hm
      subst heq
      exact hf n n' (h i n hn) hn'
    · exact h j m (by simpa [List.getElem?_set_ne hj] using hm)
  · cases hs

theorem AllPollInv.step {e : PollEvent} (h : AllPollInv cfg s) (hguard : AppendsSeen cfg s e)
    (hs : pollStep cfg s e = some s') : AllPollInv cfg s' := by
  cases e with
  | append writer table hlc =>
      cases hs
      intro i n hn
      refine (h i n hn).append fun hwriter hpolling => ?_
      exact hguard (n, i) (List.mem_zipIdx_iff_getElem?.2 hn) (Ne.symm hwriter) hpolling
  | readHead i => exact h.poll (fun _ _ hinv => hinv.readHead) hs
  | compare i => exact h.poll (fun _ _ hinv => hinv.compare) hs
  | readChanged i => exact h.poll (fun _ _ hinv => hinv.readChanged) hs
  | notify i => exact h.poll (fun _ _ hinv => hinv.notify) hs
  | finish i => exact h.poll (fun _ _ hinv => hinv.finish) hs
  | throw i => exact h.poll (fun _ _ hinv => hinv.throw) hs

/-- In a run in which each op is appended above what the polling instances count as seen, none stays
undetected. -/
theorem detected_of_appendsSeen {count : Nat}
    (h : (pollMachine cfg count).Reach (AppendsSeen cfg) s) : Detected s := by
  have hstart : AllPollInv cfg (pollMachine cfg count).init := by
    intro i n hn
    have heq : n = .start := List.eq_of_mem_replicate (List.mem_of_getElem? hn)
    subst heq
    exact pollInv_start cfg i
  have hinv : AllPollInv cfg s := h.invariant hstart fun hinv hg hs => hinv.step hg hs
  intro i n hn first hfirst p op hget hwriter hp hcompleted
  exact (hinv i n hn).completed.2 first hfirst p op ⟨hget, hwriter, hp, hcompleted⟩

/-! ## Runs -/

def todosPoll : PollConfig :=
  ⟨fun _ => ["todos"], true⟩

/-- The first tick of instance 0, an op of instance 1, and a tick that broadcasts it. -/
def firstTicks : List PollEvent :=
  [.readHead 0, .compare 0, .append 1 "todos" "10.0.a", .readHead 0, .compare 0, .readChanged 0,
    .notify 0, .finish 0]

theorem detected_afterTick : ∃ s, s.log.length = 1 ∧
    (s.pollers.map (·.completed)) = [1, 0] ∧ Detected s := by
  have hrun : (((pollMachine todosPoll 2).runWith (fun s e => decide (AppendsSeen todosPoll s e))
      (pollMachine todosPoll 2).init firstTicks).map fun s =>
        (s.log.length, s.pollers.map (·.completed))) = some (1, [1, 0]) := by decide +kernel
  rcases Option.map_eq_some_iff.1 hrun with ⟨s, hs, heq⟩
  simp only [Prod.mk.injEq] at heq
  have hreach := Lib.Machine.Reach.of_runWith (fun _ _ h => of_decide_eq_true h) .init hs
  exact ⟨s, heq.1, heq.2, detected_of_appendsSeen hreach⟩

/-- An op with an older HLC comes after the tick, and the next tick finds the head unchanged. -/
theorem not_detected_olderOp :
    ¬ ∀ cfg count s, (pollMachine cfg count).Reachable s → Detected s := by
  intro h
  have hrun : ((pollMachine todosPoll 2).run
      (firstTicks ++ [.append 1 "todos" "05.0.b", .readHead 0, .compare 0])).map (fun s =>
        (s.log[1]?, s.pollers[0]?.map fun n => (n.adopted, n.completed, n.notified))) =
      some (some ⟨"todos", "05.0.b", 1⟩, some (some 0, 2, [⟨"todos", 1⟩])) := by decide +kernel
  rcases Option.map_eq_some_iff.1 hrun with ⟨s, hs, heq⟩
  simp only [Prod.mk.injEq] at heq
  rcases Option.map_eq_some_iff.1 heq.2 with ⟨n, hn, hfields⟩
  simp only [Prod.mk.injEq] at hfields
  rcases hfields with ⟨hadopted, hcompleted, hnotified⟩
  have hdetected := h todosPoll 2 s (.of_run hs) 0 n hn 0 hadopted 1 ⟨"todos", "05.0.b", 1⟩ heq.1
    (by decide) (by decide) (by rw [hcompleted]; decide)
  -- The only broadcast is that of the first op.
  rcases hdetected with ⟨b, hb, _, hlt⟩
  rw [hnotified, List.mem_singleton] at hb
  subst hb
  exact absurd hlt (by decide)

end Server
end Reflectdb
