import Reflectdb.Lib.FixedWindow
import Reflectdb.Lib.Machine
import Reflectdb.Lib.Text
import Reflectdb.Server.EphemeralManager

/-!
# Rate limiter — op counts of clients, and of clients on single tables, in two maps of buckets

The global rule and the rules of the tables count in the same maps, under texts joined from the
names.  Each key's buckets count its own ops as long as no other key has its text.
-/

namespace Reflectdb
namespace Server

open Lib FixedWindow

/-! ## Rules -/

/-- Limits of one rule; zero is none. -/
structure Limits where
  opsPerSecond : Option Nat
  opsPerMinute : Option Nat

structure RateLimitConfig extends Limits where
  perTable : Option (AList fun _ : Text => Limits)

def colonUnit : UInt16 := 58

def globalKey (userId clientId : Text) : Text :=
  userId ++ colonUnit :: clientId

def tableKey (userId clientId table : Text) : Text :=
  userId ++ colonUnit :: (clientId ++ colonUnit :: table)

/-- `table ? config.perTable?.[table] : undefined`; what a plain object inherits has no limits. -/
def tableLimits (config : RateLimitConfig) : Option Text → Option (Text × Limits)
  | none | some [] => none
  | some table => (config.perTable.bind (·.lookup table)).map (table, ·)

/-! ## Buckets -/

abbrev Buckets : Type :=
  AList fun _ : Text => Bucket

def checkBucket (buckets : Buckets) (k : Text) (limit : Option Nat) (now : Nat) : Bool :=
  match limit with
  | none | some 0 => true
  | some limit => !full limit now (buckets.lookup k)

def recordBucket (buckets : Buckets) (k : Text) (limit : Option Nat) (windowMs now : Nat) :
    Buckets :=
  match limit with
  | none | some 0 => buckets
  | some _ => buckets.insert k (hit windowMs now (buckets.lookup k))

structure RateLimiter where
  secondBuckets : Buckets
  minuteBuckets : Buckets
  lastCleanup : Nat

def createRateLimiter (now : Nat) : RateLimiter :=
  ⟨∅, ∅, now⟩

namespace RateLimiter

variable (m : RateLimiter)

def cleanupStale (now : Nat) : RateLimiter :=
  if now < m.lastCleanup + 60000 then m
  else
    ⟨keep m.secondBuckets fun _ bucket => now < bucket.resetAt,
      keep m.minuteBuckets fun _ bucket => now < bucket.resetAt, now⟩

def checkBoth (k : Text) (limits : Limits) (now : Nat) : Bool :=
  checkBucket m.secondBuckets k limits.opsPerSecond now &&
    checkBucket m.minuteBuckets k limits.opsPerMinute now

def recordBoth (k : Text) (limits : Limits) (now : Nat) : RateLimiter :=
  { m with
    secondBuckets := recordBucket m.secondBuckets k limits.opsPerSecond 1000 now
    minuteBuckets := recordBucket m.minuteBuckets k limits.opsPerMinute 60000 now }

/-- The limiter after its cleanup, and the reason why the op may not pass. -/
def check (config : RateLimitConfig) (userId clientId : Text) (table : Option Text) (now : Nat) :
    RateLimiter × Option String :=
  let m := m.cleanupStale now
  if m.checkBoth (globalKey userId clientId) config.toLimits now = false then
    (m, some "rate_limited")
  else
    match tableLimits config table with
    | none => (m, none)
    | some (table, limits) =>
      if m.checkBoth (tableKey userId clientId table) limits now = false then
        (m, some "rate_limited")
      else (m, none)

def record (config : RateLimitConfig) (userId clientId : Text) (table : Option Text) (now : Nat) :
    RateLimiter :=
  let m := m.recordBoth (globalKey userId clientId) config.toLimits now
  let m :=
    match tableLimits config table with
    | none => m
    | some (table, limits) => m.recordBoth (tableKey userId clientId table) limits now
  m.cleanupStale now

end RateLimiter

/-- An op that comes to the limiter; the clock is read for the check and again for the record. -/
structure Request where
  userId : Text
  clientId : Text
  table : Option Text
  checkedAt : Nat
  recordedAt : Nat
  deriving DecidableEq

/-- Checked, and recorded only if the check passes. -/
def RateLimiter.pass (config : RateLimitConfig) (m : RateLimiter) (r : Request) :
    RateLimiter × Option String :=
  match m.check config r.userId r.clientId r.table r.checkedAt with
  | (m, none) => (m.record config r.userId r.clientId r.table r.recordedAt, none)
  | (m, some reason) => (m, some reason)

/-! ## Keys of the rules -/

/-- What a rule counts: the ops of a client, or a client's ops on a table. -/
inductive RuleKey
  | client (userId clientId : Text)
  | table (userId clientId table : Text)
  deriving DecidableEq

def RuleKey.text : RuleKey → Text
  | .client userId clientId => globalKey userId clientId
  | .table userId clientId name => tableKey userId clientId name

inductive Span
  | second
  | minute

def Span.ms : Span → Nat
  | .second => 1000
  | .minute => 60000

theorem Span.ms_pos (span : Span) : 0 < span.ms := by
  cases span <;> decide

def Limits.limit (limits : Limits) : Span → Option Nat
  | .second => limits.opsPerSecond.filter (0 < ·)
  | .minute => limits.opsPerMinute.filter (0 < ·)

/-- The limit of the rule that a key belongs to. -/
def RateLimitConfig.limitOf (config : RateLimitConfig) (span : Span) : RuleKey → Option Nat
  | .client _ _ => config.toLimits.limit span
  | .table _ _ table => (config.perTable.bind (·.lookup table)).bind (·.limit span)

/-- The keys that a request counts for. -/
def Request.keys (r : Request) : List RuleKey :=
  .client r.userId r.clientId ::
    match r.table with
    | none | some [] => []
    | some table => [.table r.userId r.clientId table]

def RateLimiter.buckets (m : RateLimiter) : Span → Buckets
  | .second => m.secondBuckets
  | .minute => m.minuteBuckets

theorem limitOf_pos {config : RateLimitConfig} {span : Span} {key : RuleKey} {limit : Nat}
    (h : limit ∈ config.limitOf span key) : 0 < limit := by
  have hlimits : ∀ {limits : Limits}, limit ∈ limits.limit span → 0 < limit := by
    intro limits hlimit
    cases span <;> exact of_decide_eq_true (Option.mem_filter_iff.1 hlimit).2
  cases key with
  | client userId clientId => exact hlimits h
  | table userId clientId table =>
      rcases Option.mem_bind_iff.1 h with ⟨limits, -, hlimit⟩
      exact hlimits hlimit

theorem limitOf_table {config : RateLimitConfig} {table : Text} {limits : Limits}
    (h : config.perTable.bind (·.lookup table) = some limits) (userId clientId : Text)
    (span : Span) : config.limitOf span (.table userId clientId table) = limits.limit span := by
  rw [RateLimitConfig.limitOf, h]
  rfl

/-! ## What a check and a record do -/

theorem lookup_keep {α : Type} {β : α → Type} [DecidableEq α] (xs : AList β)
    (p : (a : α) → β a → Bool) (a : α) : (keep xs p).lookup a = (xs.lookup a).filter (p a) := by
  apply Option.ext
  intro b
  rw [← Option.mem_def, ← Option.mem_def, AList.mem_lookup_iff, Option.mem_filter_iff,
    AList.mem_lookup_iff]
  exact List.mem_filter

theorem checkBucket_iff {buckets : Buckets} {k : Text} {limit : Option Nat} {now : Nat} :
    checkBucket buckets k limit now = true ↔
      ∀ n ∈ limit.filter (0 < ·), full n now (buckets.lookup k) = false := by
  unfold checkBucket
  split
  · simp
  · simp
  · rename_i n hn
    have hpos : 0 < n := Nat.pos_of_ne_zero fun hzero => hn (by rw [hzero])
    simp [Option.filter, hpos]

theorem lookup_recordBucket {buckets : Buckets} {k : Text} {limit : Option Nat} {w now : Nat}
    (text : Text) : (recordBucket buckets k limit w now).lookup text =
      if (limit.filter (0 < ·)).isSome ∧ k = text then some (hit w now (buckets.lookup text))
      else buckets.lookup text := by
  unfold recordBucket
  split
  · simp
  · simp
  · rename_i n hn
    have hpos : 0 < n := Nat.pos_of_ne_zero fun hzero => hn (by rw [hzero])
    by_cases htext : k = text
    · subst htext
      rw [AList.lookup_insert, if_pos ⟨by simp [Option.filter, hpos], rfl⟩]
    · rw [AList.lookup_insert_ne (Ne.symm htext), if_neg fun h => htext h.2]

namespace RateLimiter

variable {m : RateLimiter} {config : RateLimitConfig}

theorem checkBoth_iff {k : Text} {limits : Limits} {now : Nat} :
    m.checkBoth k limits now = true ↔
      ∀ span, ∀ n ∈ limits.limit span, full n now ((m.buckets span).lookup k) = false := by
  rw [checkBoth, Bool.and_eq_true, checkBucket_iff, checkBucket_iff]
  constructor
  · rintro ⟨hsecond, hminute⟩ span
    cases span with
    | second => exact hsecond
    | minute => exact hminute
  · intro h
    exact ⟨h .second, h .minute⟩

theorem lookup_recordBoth {k : Text} {limits : Limits} {now : Nat} (span : Span) (text : Text) :
    ((m.recordBoth k limits now).buckets span).lookup text =
      if (limits.limit span).isSome ∧ k = text then
        some (hit span.ms now ((m.buckets span).lookup text))
      else (m.buckets span).lookup text := by
  cases span with
  | second => exact lookup_recordBucket text
  | minute => exact lookup_recordBucket text

/-- A cleanup drops buckets whose windows have ended, or does nothing. -/
theorem lookup_cleanupStale {now : Nat} (span : Span) (text : Text) :
    ((m.cleanupStale now).buckets span).lookup text = (m.buckets span).lookup text ∨
      ((m.cleanupStale now).buckets span).lookup text =
        ((m.buckets span).lookup text).filter fun bucket => now < bucket.resetAt := by
  unfold cleanupStale
  split
  · exact Or.inl rfl
  · right
    cases span with
    | second => exact lookup_keep m.secondBuckets (fun _ bucket => now < bucket.resetAt) text
    | minute => exact lookup_keep m.minuteBuckets (fun _ bucket => now < bucket.resetAt) text

theorem tracks_cleanupStale {w now : Nat} {ts : List Nat} {span : Span} {text : Text}
    (h : Tracks w now ts ((m.buckets span).lookup text)) :
    Tracks w now ts (((m.cleanupStale now).buckets span).lookup text) := by
  rcases @lookup_cleanupStale m now span text with heq | heq
  · rwa [heq]
  · rw [heq]
    cases hbucket : (m.buckets span).lookup text with
    | none => rwa [hbucket] at h
    | some bucket =>
        rw [hbucket] at h
        by_cases hopen : now < bucket.resetAt
        · rwa [Option.filter_some_pos (by simpa using hopen)]
        · rw [Option.filter_some_neg (by simpa using hopen)]
          exact h.drop (Nat.le_of_not_lt hopen)

end RateLimiter

/-- The keys of a request go with the limits that are looked up for its table. -/
theorem keys_cases (config : RateLimitConfig) (r : Request) :
    (r.keys = [.client r.userId r.clientId] ∧ tableLimits config r.table = none) ∨
      ∃ table, r.keys = [.client r.userId r.clientId, .table r.userId r.clientId table] ∧
        tableLimits config r.table = (config.perTable.bind (·.lookup table)).map (table, ·) := by
  unfold Request.keys
  rcases r.table with _ | _ | ⟨c, cs⟩
  · exact Or.inl ⟨rfl, rfl⟩
  · exact Or.inl ⟨rfl, rfl⟩
  · exact Or.inr ⟨c :: cs, rfl, rfl⟩

theorem tableKey_ne_globalKey (userId clientId table : Text) :
    tableKey userId clientId table ≠ globalKey userId clientId := by
  intro h
  have hlen := congrArg List.length h
  simp only [tableKey, globalKey, List.length_append, List.length_cons] at hlen
  omega

namespace RateLimiter

variable {m : RateLimiter} {config : RateLimitConfig} {r : Request}

/-- A check passes iff no bucket of the request's keys is full after the cleanup. -/
theorem check_spec (now : Nat) :
    (m.check config r.userId r.clientId r.table now).1 = m.cleanupStale now ∧
      ((m.check config r.userId r.clientId r.table now).2 = none ↔
        ∀ span, ∀ key ∈ r.keys, ∀ n ∈ config.limitOf span key,
          full n now (((m.cleanupStale now).buckets span).lookup key.text) = false) := by
  have hclient := @checkBoth_iff (m.cleanupStale now) (globalKey r.userId r.clientId)
    config.toLimits now
  have hfirst : RuleKey.client r.userId r.clientId ∈ r.keys := List.mem_cons_self
  unfold check
  dsimp only
  split
  · rename_i hfull
    refine ⟨rfl, fun h => (by cases h), fun h => ?_⟩
    rw [hclient.2 fun span => h span _ hfirst] at hfull
    cases hfull
  · rename_i hroom
    rw [Bool.not_eq_false, hclient] at hroom
    rcases keys_cases config r with ⟨hkeys, htable⟩ | ⟨table, hkeys, htable⟩
    · rw [htable, hkeys]
      refine ⟨rfl, fun _ span key hkey => ?_, fun _ => rfl⟩
      rw [List.mem_singleton.1 hkey]
      exact hroom span
    · rw [htable, hkeys]
      cases hlimits : config.perTable.bind (·.lookup table) with
      | none =>
          refine ⟨rfl, fun _ span key hkey => ?_, fun _ => rfl⟩
          rcases List.mem_pair.1 hkey with rfl | rfl
          · exact hroom span
          · rw [RateLimitConfig.limitOf, hlimits]
            exact fun n hn => (by cases hn)
      | some limits =>
          have htableKey := @checkBoth_iff (m.cleanupStale now)
            (tableKey r.userId r.clientId table) limits now
          have hlimitOf := limitOf_table hlimits r.userId r.clientId
          dsimp only [Option.map_some]
          split
          · rename_i hfull
            refine ⟨rfl, fun h => (by cases h), fun h => ?_⟩
            have hnone := htableKey.2 fun span n hn =>
              h span (.table r.userId r.clientId table) (by simp) n (by rwa [hlimitOf])
            rw [hnone] at hfull
            cases hfull
          · rename_i hroom'
            rw [Bool.not_eq_false, htableKey] at hroom'
            refine ⟨rfl, fun _ span key hkey n hn => ?_, fun _ => rfl⟩
            rcases List.mem_pair.1 hkey with rfl | rfl
            · exact hroom span n hn
            · exact hroom' span n (by rwa [hlimitOf] at hn)

/-- A record counts the request once in each bucket of its keys, and then cleans up. -/
theorem record_spec (now : Nat) :
    ∃ m' : RateLimiter, m.record config r.userId r.clientId r.table now = m'.cleanupStale now ∧
      ∀ span text, (m'.buckets span).lookup text =
        if ∃ key ∈ r.keys, (config.limitOf span key).isSome ∧ key.text = text then
          some (hit span.ms now ((m.buckets span).lookup text))
        else (m.buckets span).lookup text := by
  unfold record
  rcases keys_cases config r with ⟨hkeys, htable⟩ | ⟨table, hkeys, htable⟩
  · rw [htable]
    refine ⟨_, rfl, fun span text => ?_⟩
    rw [lookup_recordBoth]
    simp [hkeys, RuleKey.text, RateLimitConfig.limitOf]
  · rw [htable]
    cases hlimits : config.perTable.bind (·.lookup table) with
    | none =>
        refine ⟨_, rfl, fun span text => ?_⟩
        rw [Option.map_none, lookup_recordBoth]
        simp [hkeys, RuleKey.text, RateLimitConfig.limitOf, hlimits]
    | some limits =>
        refine ⟨_, rfl, fun span text => ?_⟩
        rw [Option.map_some, lookup_recordBoth, lookup_recordBoth]
        by_cases hglobal : globalKey r.userId r.clientId = text
        · have hother : tableKey r.userId r.clientId table ≠ text :=
            hglobal ▸ tableKey_ne_globalKey r.userId r.clientId table
          simp [hkeys, RuleKey.text, RateLimitConfig.limitOf, hlimits, hglobal, hother]
        · simp [hkeys, RuleKey.text, RateLimitConfig.limitOf, hlimits, hglobal]

end RateLimiter

/-! ## Runs -/

/-- A request with the reason why it was rejected, if it was. -/
abbrev Answered : Type :=
  Request × Option String

/-- A limiter, the last reading of the clock, and what it has answered. -/
structure LimiterRun where
  limiter : RateLimiter
  now : Nat
  trace : List Answered

def LimiterRun.next (config : RateLimitConfig) (s : LimiterRun) (r : Request) : LimiterRun :=
  match s.limiter.pass config r with
  | (limiter, none) => ⟨limiter, r.recordedAt, s.trace ++ [(r, none)]⟩
  | (limiter, some reason) => ⟨limiter, r.checkedAt, s.trace ++ [(r, some reason)]⟩

/-- Requests one after the other; the clock does not go back. -/
def limiterMachine (config : RateLimitConfig) (startedAt : Nat) : Machine LimiterRun Request where
  init := ⟨createRateLimiter startedAt, startedAt, []⟩
  step s r :=
    if s.now ≤ r.checkedAt ∧ r.checkedAt ≤ r.recordedAt then some (s.next config r) else none

/-- When the admitted ops of a key were recorded. -/
def timesOf (trace : List Answered) (key : RuleKey) : List Nat :=
  (trace.filter fun e => e.2 = none ∧ key ∈ e.1.keys).map (·.1.recordedAt)

/-- No other key of a rule has the text of this one. -/
def Alone (config : RateLimitConfig) (span : Span) (trace : List Answered) (key : RuleKey) : Prop :=
  ∀ e ∈ trace, ∀ key' ∈ e.1.keys, (config.limitOf span key').isSome → key'.text = key.text →
    key' = key

theorem Alone.mono {config : RateLimitConfig} {span : Span} {trace trace' : List Answered}
    {key : RuleKey} (h : Alone config span trace key) (hsub : trace' ⊆ trace) :
    Alone config span trace' key :=
  fun e he => h e (hsub he)

@[simp]
theorem timesOf_rejected (trace : List Answered) (r : Request) (reason : String)
    (key : RuleKey) : timesOf (trace ++ [(r, some reason)]) key = timesOf trace key := by
  simp [timesOf]

@[simp]
theorem timesOf_admitted (trace : List Answered) (r : Request) (key : RuleKey) :
    timesOf (trace ++ [(r, none)]) key =
      timesOf trace key ++ if key ∈ r.keys then [r.recordedAt] else [] := by
  by_cases hkey : key ∈ r.keys <;> simp [timesOf, hkey]

/-- Each key whose text is no other's has a bucket that tracks its own admitted ops, and no window
of these has had too many. -/
structure LimiterInv (config : RateLimitConfig) (s : LimiterRun) : Prop where
  ordered : ∀ key, (timesOf s.trace key).Pairwise (· ≤ ·)
  past : ∀ key, ∀ t ∈ timesOf s.trace key, t ≤ s.now
  tracks : ∀ span key, (config.limitOf span key).isSome → Alone config span s.trace key →
    Tracks span.ms s.now (timesOf s.trace key) ((s.limiter.buckets span).lookup key.text)
  bounded : ∀ span key limit, config.limitOf span key = some limit →
    Alone config span s.trace key → ∀ start ∈ starts span.ms (timesOf s.trace key),
      within span.ms (timesOf s.trace key) start ≤ limit

namespace LimiterInv

variable {config : RateLimitConfig} {s : LimiterRun} {r : Request}

theorem init (startedAt : Nat) : LimiterInv config (limiterMachine config startedAt).init where
  ordered _ := List.Pairwise.nil
  past _ t ht := by cases ht
  tracks span key _ _ := by
    cases span <;> exact tracks_nil startedAt
  bounded _ _ _ _ _ start hstart := by cases hstart

/-- At the time of the check, after the cleanup. -/
theorem tracks_check (h : LimiterInv config s) (hnow : s.now ≤ r.checkedAt) {span : Span}
    {key : RuleKey} (hlimit : (config.limitOf span key).isSome)
    (halone : Alone config span s.trace key) :
    Tracks span.ms r.checkedAt (timesOf s.trace key)
      (((s.limiter.cleanupStale r.checkedAt).buckets span).lookup key.text) :=
  RateLimiter.tracks_cleanupStale ((h.tracks span key hlimit halone).mono hnow)

/-- A key's bucket is full iff its own ops have used up the limit. -/
theorem full_iff (h : LimiterInv config s) (hnow : s.now ≤ r.checkedAt) {span : Span}
    {key : RuleKey} {limit : Nat} (hlimit : limit ∈ config.limitOf span key)
    (halone : Alone config span s.trace key) :
    full limit r.checkedAt (((s.limiter.cleanupStale r.checkedAt).buckets span).lookup key.text) =
      true ↔ limit ≤ count span.ms (timesOf s.trace key) r.checkedAt :=
  (h.tracks_check hnow (Option.isSome_of_mem hlimit) halone).full_iff (limitOf_pos hlimit)

theorem reject (h : LimiterInv config s) (hnow : s.now ≤ r.checkedAt) (reason : String) :
    LimiterInv config ⟨s.limiter.cleanupStale r.checkedAt, r.checkedAt,
      s.trace ++ [(r, some reason)]⟩ where
  ordered key := by
    rw [timesOf_rejected]
    exact h.ordered key
  past key t ht := by
    rw [timesOf_rejected] at ht
    exact Nat.le_trans (h.past key t ht) hnow
  tracks span key hlimit halone := by
    rw [timesOf_rejected]
    exact h.tracks_check hnow hlimit (halone.mono (List.subset_append_left _ _))
  bounded span key limit hlimit halone := by
    rw [timesOf_rejected]
    exact h.bounded span key limit hlimit (halone.mono (List.subset_append_left _ _))

theorem admitted (h : LimiterInv config s) (hnow : s.now ≤ r.checkedAt)
    (hle : r.checkedAt ≤ r.recordedAt)
    (hcheck : (s.limiter.check config r.userId r.clientId r.table r.checkedAt).2 = none) :
    LimiterInv config
      ⟨(s.limiter.cleanupStale r.checkedAt).record config r.userId r.clientId r.table
      r.recordedAt, r.recordedAt, s.trace ++ [(r, none)]⟩ := by
  have hlast : s.now ≤ r.recordedAt := Nat.le_trans hnow hle
  have hpast : ∀ key, ∀ t ∈ timesOf s.trace key, t ≤ r.recordedAt :=
    fun key t ht => Nat.le_trans (h.past key t ht) hlast
  rcases @RateLimiter.record_spec (s.limiter.cleanupStale r.checkedAt) config r r.recordedAt with
    ⟨m', hrecord, hlookup⟩
  refine ⟨fun key => ?_, fun key t ht => ?_, fun span key hlimit halone => ?_,
    fun span key limit hlimit halone => ?_⟩
  · rw [timesOf_admitted]
    split
    · refine List.pairwise_append.2 ⟨h.ordered key, List.pairwise_singleton _ _, ?_⟩
      intro t ht u hu
      rw [List.mem_singleton.1 hu]
      exact hpast key t ht
    · rw [List.append_nil]
      exact h.ordered key
  · rw [timesOf_admitted] at ht
    split at ht
    · rcases List.mem_append.1 ht with hold | hnew
      · exact hpast key t hold
      · exact (List.mem_singleton.1 hnew).le
    · rw [List.append_nil] at ht
      exact hpast key t ht
  · -- the bucket of a key is hit iff the request counts for this key
    have hold := (h.tracks_check hnow hlimit
      (halone.mono (List.subset_append_left _ _))).mono hle
    have hhit : (∃ key' ∈ r.keys, (config.limitOf span key').isSome ∧ key'.text = key.text) ↔
        key ∈ r.keys := by
      constructor
      · rintro ⟨key', hkey', hsome, htext⟩
        rwa [← halone (r, none) (List.mem_append_right _ (List.mem_singleton_self _)) key' hkey'
          hsome htext]
      · intro hkey
        exact ⟨key, hkey, hlimit, rfl⟩
    rw [hrecord]
    apply RateLimiter.tracks_cleanupStale
    rw [hlookup, timesOf_admitted]
    by_cases hkey : key ∈ r.keys
    · rw [if_pos (hhit.2 hkey), if_pos hkey]
      exact hold.hit span.ms_pos (h.ordered key) (hpast key)
    · rw [if_neg fun hex => hkey (hhit.1 hex), if_neg hkey, List.append_nil]
      exact hold
  · have halone' := halone.mono (List.subset_append_left _ _)
    have hbound := h.bounded span key limit hlimit halone'
    rw [timesOf_admitted]
    split
    · rename_i hkey
      have hroom : count span.ms (timesOf s.trace key) r.checkedAt < limit := by
        have hfull := (RateLimiter.check_spec r.checkedAt).2.1 hcheck span key hkey limit hlimit
        rw [← Bool.not_eq_true, h.full_iff hnow hlimit halone', Nat.not_le] at hfull
        exact hfull
      exact within_le_snoc span.ms_pos (h.ordered key) (hpast key) hbound
        (Nat.lt_of_le_of_lt (count_anti hle) hroom)
    · rwa [List.append_nil]

theorem step (h : LimiterInv config s) {startedAt : Nat} {s' : LimiterRun}
    (hs : (limiterMachine config startedAt).step s r = some s') : LimiterInv config s' := by
  unfold limiterMachine at hs
  dsimp only at hs
  split at hs
  · rename_i htimes
    rcases htimes with ⟨hnow, hle⟩
    cases hs
    have hspec := (@RateLimiter.check_spec s.limiter config r r.checkedAt).1
    unfold LimiterRun.next RateLimiter.pass
    rcases hcheck : s.limiter.check config r.userId r.clientId r.table r.checkedAt with
      ⟨m, _ | reason⟩
    · rw [hcheck] at hspec
      rw [show m = s.limiter.cleanupStale r.checkedAt from hspec]
      exact h.admitted hnow hle (by rw [hcheck])
    · rw [hcheck] at hspec
      rw [show m = s.limiter.cleanupStale r.checkedAt from hspec]
      exact h.reject hnow reason
  · cases hs

end LimiterInv

/-! ## What the limiter is to do -/

/-- The keys are counted in one bucket. -/
def SharesBucket (config : RateLimitConfig) (span : Span) (key key' : RuleKey) : Prop :=
  (config.limitOf span key).isSome ∧ (config.limitOf span key').isSome ∧ key.text = key'.text

/-- The windows that a key's ops open stay within the limit, a request is rejected only if its own
counts have reached a limit, and the keys have buckets of their own. -/
structure Limited (config : RateLimitConfig) (trace : List Answered) : Prop where
  bounded : ∀ span key limit, config.limitOf span key = some limit →
    ∀ start ∈ starts span.ms (timesOf trace key),
      within span.ms (timesOf trace key) start ≤ limit
  fair : ∀ before r reason after, trace = before ++ (r, some reason) :: after →
    ∃ span, ∃ key ∈ r.keys, ∃ limit ∈ config.limitOf span key,
      limit ≤ count span.ms (timesOf before key) r.checkedAt
  apart : ∀ span, ∀ e ∈ trace, ∀ e' ∈ trace, ∀ key ∈ e.1.keys, ∀ key' ∈ e'.1.keys,
    SharesBucket config span key key' → key = key'

/-- No two keys of the requests that rules limit have one text. -/
def NoClash (config : RateLimitConfig) (trace : List Answered) : Prop :=
  ∀ span, ∀ e ∈ trace, ∀ key ∈ e.1.keys, (config.limitOf span key).isSome →
    Alone config span trace key

theorem Request.mem_keys {r : Request} {key : RuleKey} (h : key ∈ r.keys) :
    key = .client r.userId r.clientId ∨ ∃ table, key = .table r.userId r.clientId table := by
  rcases keys_cases ⟨⟨none, none⟩, none⟩ r with ⟨hkeys, -⟩ | ⟨table, hkeys, -⟩
  · rw [hkeys] at h
    exact Or.inl (List.mem_singleton.1 h)
  · rw [hkeys] at h
    rcases List.mem_pair.1 h with rfl | rfl
    · exact Or.inl rfl
    · exact Or.inr ⟨table, rfl⟩

/-- Ids without a colon tell where they end. -/
theorem noClash_of_noColon (config : RateLimitConfig) {trace : List Answered}
    (h : ∀ e ∈ trace, colonUnit ∉ e.1.userId ∧ colonUnit ∉ e.1.clientId) :
    NoClash config trace := by
  intro span e he key hkey _ e' he' key' hkey' _ htext
  have hnone : ∀ {a b x : Text}, colonUnit ∉ a → a ≠ b ++ colonUnit :: x := by
    rintro a b x ha rfl
    exact ha (List.mem_append_right _ List.mem_cons_self)
  rcases h e he with ⟨hu, hc⟩
  rcases h e' he' with ⟨hu', hc'⟩
  rcases Request.mem_keys hkey with rfl | ⟨table, rfl⟩ <;>
    rcases Request.mem_keys hkey' with rfl | ⟨table', rfl⟩ <;>
    rcases append_separator_inj hu' hu htext with ⟨huser, hrest⟩
  · rw [huser, hrest]
  · exact absurd hrest.symm (hnone hc)
  · exact absurd hrest (hnone hc')
  · rcases append_separator_inj hc' hc hrest with ⟨hclient, htable⟩
    rw [huser, hclient, htable]

/-- A request was rejected because its own counts had reached a limit, if its keys are alone. -/
def FairTo (config : RateLimitConfig) (trace : List Answered) : Prop :=
  ∀ before r reason after, trace = before ++ (r, some reason) :: after →
    (∀ span, ∀ key ∈ r.keys, (config.limitOf span key).isSome → Alone config span before key) →
      ∃ span, ∃ key ∈ r.keys, ∃ limit ∈ config.limitOf span key,
        limit ≤ count span.ms (timesOf before key) r.checkedAt

theorem FairTo.snoc {config : RateLimitConfig} {s : LimiterRun} {r : Request}
    (h : FairTo config s.trace) (hinv : LimiterInv config s) (hnow : s.now ≤ r.checkedAt) :
    FairTo config (s.next config r).trace := by
  intro before r' reason after htrace halone
  have hold : ∀ answer : Answered, s.trace ++ [answer] = before ++ (r', some reason) :: after →
      answer ≠ (r', some reason) ∨ after ≠ [] →
        ∃ span, ∃ key ∈ r'.keys, ∃ limit ∈ config.limitOf span key,
          limit ≤ count span.ms (timesOf before key) r'.checkedAt := by
    intro answer heq hlast
    rcases List.eq_nil_or_concat after with rfl | ⟨after', last, rfl⟩
    · rcases hlast with hne | hne
      · exact absurd (List.append_inj_right' heq rfl) (by simpa using hne)
      · exact absurd rfl hne
    · have hprefix : s.trace = before ++ (r', some reason) :: after' := by
        rw [List.concat_eq_append, ← List.cons_append, ← List.append_assoc] at heq
        exact List.append_inj_left' heq rfl
      exact h before r' reason after' hprefix halone
  have hspec := @RateLimiter.check_spec s.limiter config r r.checkedAt
  unfold LimiterRun.next RateLimiter.pass at htrace
  rcases hcheck : s.limiter.check config r.userId r.clientId r.table r.checkedAt with
    ⟨m, _ | reason'⟩
  · rw [hcheck] at htrace
    exact hold _ htrace (Or.inl fun heq => by cases heq)
  · rw [hcheck] at htrace hspec
    by_cases hlast : ((r, some reason') : Answered) ≠ (r', some reason) ∨ after ≠ []
    · exact hold _ htrace hlast
    · -- this request is the one in question: a bucket of its keys is full
      push Not at hlast
      rcases hlast with ⟨hsame, rfl⟩
      cases hsame
      have hbefore : s.trace = before := List.append_inj_left' htrace rfl
      subst hbefore
      by_contra hnone
      push Not at hnone
      have hpasses : (some reason : Option String) = none := by
        refine hspec.2.2 fun span key hkey limit hlimit => ?_
        have hsome := Option.isSome_of_mem hlimit
        rw [← Bool.not_eq_true, hinv.full_iff hnow hlimit (halone span key hkey hsome), Nat.not_le]
        exact hnone span key hkey limit hlimit
      cases hpasses

theorem limiter_run (config : RateLimitConfig) (startedAt : Nat) {s : LimiterRun}
    (h : (limiterMachine config startedAt).Reachable s) :
    LimiterInv config s ∧ FairTo config s.trace := by
  refine h.invariant (P := fun s => LimiterInv config s ∧ FairTo config s.trace)
    ⟨.init startedAt, ?_⟩ ?_
  · intro before r reason after htrace
    cases before <;> cases htrace
  · intro s s' r hboth _ hs
    refine ⟨hboth.1.step hs, ?_⟩
    dsimp only [limiterMachine] at hs
    split at hs
    · rename_i htimes
      cases hs
      exact hboth.2.snoc hboth.1 htimes.1
    · cases hs

/-- The limiter is sound and fair to each key, whatever the others do, iff no two keys of the
requests have one text. -/
theorem limited_iff_noClash (config : RateLimitConfig) (startedAt : Nat) {s : LimiterRun}
    (h : (limiterMachine config startedAt).Reachable s) :
    Limited config s.trace ↔ NoClash config s.trace := by
  rcases limiter_run config startedAt h with ⟨hinv, hfair⟩
  constructor
  · intro hlimited span e he key hkey hsome e' he' key' hkey' hsome' htext
    exact hlimited.apart span e' he' e he key' hkey' key hkey ⟨hsome', hsome, htext⟩
  · intro hclash
    refine ⟨fun span key limit hlimit => ?_, fun before r reason after htrace => ?_, ?_⟩
    · by_cases hused : ∃ e ∈ s.trace, key ∈ e.1.keys
      · rcases hused with ⟨e, he, hkey⟩
        exact hinv.bounded span key limit hlimit
          (hclash span e he key hkey (by rw [hlimit]; rfl))
      · have hnone : timesOf s.trace key = [] := by
          rw [timesOf, List.map_eq_nil_iff, List.filter_eq_nil_iff]
          intro e he hin
          simp only [decide_eq_true_eq] at hin
          exact hused ⟨e, he, hin.2⟩
        rw [hnone]
        intro start hstart
        cases hstart
    · refine hfair before r reason after htrace fun span key hkey hsome => ?_
      have hmem : (r, some reason) ∈ s.trace := by
        rw [htrace]
        simp
      refine (hclash span _ hmem key hkey hsome).mono ?_
      rw [htrace]
      exact List.subset_append_left _ _
    · rintro span e he e' he' key hkey key' hkey' ⟨hsome, hsome', htext⟩
      exact hclash span e' he' key' hkey' hsome' e he key hkey hsome htext

/-! ## Runs on fixed requests -/

/-- One op a second, and one a minute on the table "t". -/
def strictConfig : RateLimitConfig :=
  ⟨⟨some 1, none⟩, some ((∅ : AList fun _ : Text => Limits).insert [116] ⟨none, some 1⟩)⟩

/-- The user "a" and the client "b:c". -/
def firstRequest : Request :=
  ⟨[97], [98, 58, 99], none, 0, 0⟩

/-- The user "a:b" and the client "c". -/
def secondRequest : Request :=
  ⟨[97, 58, 98], [99], none, 1, 1⟩

/-- The user "a" writes to the table "t" twice within a minute. -/
def tableRequest (now : Nat) : Request :=
  ⟨[97], [98], some [116], now, now⟩

theorem limited_iff_noClash_table :
    ∃ s, (limiterMachine strictConfig 0).Reachable s ∧
      s.trace.map Prod.snd = [none, some "rate_limited", some "rate_limited", none] ∧
        Limited strictConfig s.trace := by
  have hrun : ((limiterMachine strictConfig 0).run
      [tableRequest 0, tableRequest 500, tableRequest 1500, tableRequest 60000]).map
        (·.trace) = some [(tableRequest 0, none), (tableRequest 500, some "rate_limited"),
          (tableRequest 1500, some "rate_limited"), (tableRequest 60000, none)] := by
    decide +kernel
  rcases Option.map_eq_some_iff.1 hrun with ⟨s, hs, htrace⟩
  have hreach := Machine.Reachable.of_run hs
  refine ⟨s, hreach, by rw [htrace]; rfl, ?_⟩
  refine (limited_iff_noClash strictConfig 0 hreach).2 (noClash_of_noColon strictConfig ?_)
  rw [htrace]
  decide

/-- Both are counted in the bucket "a:b:c", so that the second is rejected for the first. -/
theorem not_limited_clash :
    ¬ ∀ (config : RateLimitConfig) (startedAt : Nat) (s : LimiterRun),
      (limiterMachine config startedAt).Reachable s → Limited config s.trace := by
  intro h
  have hrun : ((limiterMachine strictConfig 0).run [firstRequest, secondRequest]).map (·.trace) =
      some [(firstRequest, none), (secondRequest, some "rate_limited")] := by
    decide +kernel
  rcases Option.map_eq_some_iff.1 hrun with ⟨s, hs, htrace⟩
  have hlimited := h strictConfig 0 s (Machine.Reachable.of_run hs)
  rcases hlimited.fair [(firstRequest, none)] secondRequest "rate_limited" [] htrace with
    ⟨span, key, hkey, limit, hlimit, hle⟩
  have hkeys : key = .client [97, 58, 98] [99] := List.mem_singleton.1 hkey
  subst hkeys
  have hnone : timesOf [(firstRequest, none)] (.client [97, 58, 98] [99]) = [] := by
    decide
  rw [hnone] at hle
  exact absurd (limitOf_pos hlimit) (Nat.not_lt.2 hle)

end Server
end Reflectdb
