import Reflectdb.ObjectStorage.Fleet.Garbage

/-!
# Memory — the records that a single writer remembers

A single writer remembers what its boot replayed and what was appended since, in this order.  A
snapshot is taken of that; records that are appended after it wait in the buffer until the
compaction has committed.
-/

namespace Reflectdb
namespace ObjectStorage
namespace Fleet

open Core Client Lib

variable {ι : Type} {cfg : Config ι} {i j : ι} {st st' : Store ι} {n n' : Instance}

/-! ## The numbers of the records -/

def ObjectBody.entries : ObjectBody → List Entry
  | .segment lines => lines
  | .snapshot _ log => log

/-- What is stored was appended before. -/
structure StoreSerials (st : Store ι) : Prop where
  versions : ∀ v ∈ st.versions, ∀ e ∈ v.log, e.serial < st.serial
  puts : ∀ p ∈ st.puts, ∀ e ∈ p.2.entries, e.serial < st.serial

/-- A compaction of these records is under way. -/
def Instance.Compacting (n : Instance) (log : List Entry) : Prop :=
  (∃ key record, n.loop.task = .snapshot key record log) ∨
    ∃ key hlc deletableAt, .compact key hlc deletableAt log ∈ n.commit.chain

/-- The records are those of the memory, but for some that wait in the buffer. -/
def Captured (st : Store ι) (n : Instance) (log : List Entry) : Prop :=
  ∃ earlier taken since, log = earlier ++ logAt st.versions n.room.bootTag ++ taken ∧
    n.loop.appended = taken ++ since ∧ ∀ e ∈ since, e ∈ n.loop.buffer

/-- What the memory reflects; `earlier` is what a boot that failed has left. -/
def Reflects (st : Store ι) (n : Instance) : BootPhase → Prop
  | .cold | .loaded => True
  | .applying todo =>
    ∃ earlier batches,
      List.Forall₂ (fun key batch => (key, .segment batch) ∈ st.puts) todo batches ∧
      n.room.log ++ batches.flatten = earlier ++ logAt st.versions n.room.bootTag
  | .replayed => ∃ earlier, n.room.log = earlier ++ logAt st.versions n.room.bootTag
  | .ready => ∃ earlier, n.room.log = earlier ++ logAt st.versions n.room.bootTag ++ n.loop.appended

structure Recall (st : Store ι) (n : Instance) : Prop where
  bootTag : n.room.bootTag ≤ n.commit.cachedTag
  booting : n.room.boot ≠ .cold → n.room.boot ≠ .ready → n.commit.cachedTag = n.room.bootTag
  bootSerial : n.room.bootSerial ≤ st.serial
  booted : ∀ e ∈ logAt st.versions n.room.bootTag, e.serial < n.room.bootSerial
  sorted : n.loop.appended.Pairwise fun a b => a.serial < b.serial
  appended : ∀ e ∈ n.loop.appended, n.room.bootSerial ≤ e.serial ∧ e.serial < st.serial
  log : ∀ e ∈ n.room.log, e.serial < st.serial
  memory : n.lease.stopped = false → Reflects st n n.room.boot
  compacting : ∀ log, n.Compacting log → ∀ e ∈ log, e.serial < st.serial
  captured : ∀ log, n.Compacting log → n.lease.stopped ∨ Captured st n log
  running : n.commit.phase ≠ .waiting → n.commit.chain ≠ [] ∧
    ∀ key hlc deletableAt log, n.commit.chain.head? = some (.compact key hlc deletableAt log) →
      Captured st n log

/-! ## Frames -/

/-- Versions, uploads and numbers only become more. -/
structure Grows (st st' : Store ι) : Prop where
  versions : ∃ more, st'.versions = st.versions ++ more
  puts : ∃ more, st'.puts = st.puts ++ more
  serial : st.serial ≤ st'.serial

theorem Grows.refl (st : Store ι) : Grows st st :=
  ⟨⟨[], (List.append_nil _).symm⟩, ⟨[], (List.append_nil _).symm⟩, le_rfl⟩

theorem Grows.of_eq (hversions : st'.versions = st.versions) (hputs : st'.puts = st.puts)
    (hserial : st'.serial = st.serial) : Grows st st' :=
  ⟨⟨[], by rw [hversions, List.append_nil]⟩, ⟨[], by rw [hputs, List.append_nil]⟩, hserial.ge⟩

theorem Grows.logAt (h : Grows st st') {k : Nat} (hk : k ≤ st.tip) :
    logAt st'.versions k = logAt st.versions k := by
  obtain ⟨more, hversions⟩ := h.versions
  rw [hversions, Fleet.logAt, tagged_append hk]

theorem Captured.grows (hgrow : Grows st st') {log : List Entry} (h : Captured st n log)
    (htag : n.room.bootTag ≤ st.tip) : Captured st' n log := by
  obtain ⟨earlier, taken, since, hlog, happended, hsince⟩ := h
  exact ⟨earlier, taken, since, by rw [hgrow.logAt htag]; exact hlog, happended, hsince⟩

theorem Captured.frame {log : List Entry} (h : Captured st n log)
    (htag : n'.room.bootTag = n.room.bootTag) (happended : n'.loop.appended = n.loop.appended)
    (hbuffer : n'.loop.buffer = n.loop.buffer) : Captured st n' log := by
  rw [Captured, htag, happended, hbuffer]
  exact h

theorem Reflects.grows (hgrow : Grows st st') {boot : BootPhase} (h : Reflects st n boot)
    (htag : n.room.bootTag ≤ st.tip) : Reflects st' n boot := by
  cases boot with
  | cold => trivial
  | loaded => trivial
  | applying todo =>
      obtain ⟨earlier, batches, hputs, hlog⟩ := h
      obtain ⟨more, hmore⟩ := hgrow.puts
      refine ⟨earlier, batches, hputs.imp fun key batch hput => ?_, ?_⟩
      · rw [hmore]
        exact List.mem_append_left _ hput
      · rw [hgrow.logAt htag]
        exact hlog
  | replayed =>
      rw [Reflects, hgrow.logAt htag]
      exact h
  | ready =>
      rw [Reflects, hgrow.logAt htag]
      exact h

/-- What others do leaves an instance its memory. -/
theorem Recall.grows (h : Recall st n) (hgrow : Grows st st')
    (hcached : n.commit.cachedTag ≤ st.tip) :
    Recall st' n := by
  have htag := h.bootTag.trans hcached
  refine ⟨h.bootTag, h.booting, h.bootSerial.trans hgrow.serial, ?_, h.sorted,
    fun e he => ⟨(h.appended e he).1, (h.appended e he).2.trans_le hgrow.serial⟩,
    fun e he => (h.log e he).trans_le hgrow.serial, fun hstopped =>
      (h.memory hstopped).grows hgrow htag,
    fun log hlog e he => (h.compacting log hlog e he).trans_le hgrow.serial,
    fun log hlog => (h.captured log hlog).imp_right fun hc => hc.grows hgrow htag,
    fun hphase => ⟨(h.running hphase).1, fun key hlc deletableAt log hhead =>
      ((h.running hphase).2 key hlc deletableAt log hhead).grows hgrow htag⟩⟩
  rw [hgrow.logAt htag]
  exact h.booted

/-- A step that touches neither the records nor the boot.  The buffer changes only where no
compaction is under way, and the cached manifest only in a room that is ready. -/
theorem Recall.keep (h : Recall st n) (htag : n'.room.bootTag = n.room.bootTag)
    (hserial : n'.room.bootSerial = n.room.bootSerial) (hboot : n'.room.boot = n.room.boot)
    (hlog : n'.room.log = n.room.log) (happended : n'.loop.appended = n.loop.appended)
    (hbuffer : ∀ log, n'.Compacting log → n'.loop.buffer = n.loop.buffer)
    (hstopped : n'.lease.stopped = n.lease.stopped)
    (hcached : n'.commit.cachedTag = n.commit.cachedTag ∨
      n.room.boot = .ready ∧ n.commit.cachedTag ≤ n'.commit.cachedTag)
    (hcompacting : ∀ log, n'.Compacting log → n.Compacting log)
    (hrunning : n'.commit.phase ≠ .waiting → n'.commit.chain ≠ [] ∧
      ∀ key hlc deletableAt log, n'.commit.chain.head? = some (.compact key hlc deletableAt log) →
        Captured st n log) : Recall st n' := by
  refine ⟨?_, ?_, ?_, ?_, ?_, ?_, ?_, ?_, fun log hc => h.compacting log (hcompacting log hc),
    fun log hc => ?_, fun hphase => ⟨(hrunning hphase).1, fun key hlc deletableAt log hhead => ?_⟩⟩
  · rw [htag]
    rcases hcached with heq | ⟨-, hle⟩
    · exact heq ▸ h.bootTag
    · exact h.bootTag.trans hle
  · rw [hboot, htag]
    intro hcold hready
    rcases hcached with heq | ⟨hr, -⟩
    · exact heq.trans (h.booting hcold hready)
    · exact absurd hr hready
  · rw [hserial]
    exact h.bootSerial
  · rw [htag, hserial]
    exact h.booted
  · rw [happended]
    exact h.sorted
  · rw [happended, hserial]
    exact h.appended
  · rw [hlog]
    exact h.log
  · rw [hstopped, hboot]
    intro hlive
    have hsame : ∀ boot, Reflects st n' boot = Reflects st n boot := by
      intro boot
      cases boot <;> simp only [Reflects, hlog, htag, happended]
    rw [hsame]
    exact h.memory hlive
  · rw [hstopped]
    exact (h.captured log (hcompacting log hc)).imp_right fun hcap =>
      hcap.frame htag happended (hbuffer log hc)
  · have hc : n'.Compacting log := .inr ⟨key, hlc, deletableAt, List.mem_of_head? hhead⟩
    exact ((hrunning hphase).2 key hlc deletableAt log hhead).frame htag happended (hbuffer log hc)

/-! ## Boot -/

theorem StoreKeys.puts_inj (h : StoreKeys cfg st) {key : ObjectKey} {body body' : ObjectBody}
    (hbody : (key, body) ∈ st.puts) (hbody' : (key, body') ∈ st.puts) : body = body' :=
  congrArg Prod.snd (List.inj_on_of_nodup_map h.puts_nodup hbody hbody' rfl)

theorem StoreKeys.mem_of_segmentLines (h : StoreKeys cfg st) {key : ObjectKey} {lines : List Entry}
    (hlines : segmentLines st.objects key = some lines) : (key, .segment lines) ∈ st.puts := by
  refine h.objects key _ ?_
  unfold segmentLines at hlines
  split at hlines
  · rename_i hobject
    cases hlines
    exact hobject
  · cases hlines

theorem StoreKeys.mem_of_snapshotOf (h : StoreKeys cfg st) {key : ObjectKey}
    {record : SnapshotRecord} {log : List Entry}
    (hsnap : snapshotOf st.objects key = some (record, log)) :
    (key, .snapshot record log) ∈ st.puts := by
  refine h.objects key _ ?_
  unfold snapshotOf at hsnap
  split at hsnap
  · rename_i hobject
    cases hsnap
    exact hobject
  · cases hsnap

theorem Untouched.not_compacting (h : Untouched n) (log : List Entry) : ¬ n.Compacting log := by
  rintro (⟨key, record, htask⟩ | ⟨key, hlc, deletableAt, hmem⟩)
  · cases h.task.symm.trans htask
  · simp [h.chain] at hmem

/-- Nothing was written yet: only the boot matters. -/
theorem Recall.of_untouched (hu : Untouched n) (hbootTag : n.room.bootTag ≤ n.commit.cachedTag)
    (hbooting : n.room.boot ≠ .cold → n.room.boot ≠ .ready →
      n.commit.cachedTag = n.room.bootTag)
    (hbootSerial : n.room.bootSerial ≤ st.serial)
    (hbooted : ∀ e ∈ logAt st.versions n.room.bootTag, e.serial < n.room.bootSerial)
    (hlog : ∀ e ∈ n.room.log, e.serial < st.serial)
    (hmemory : n.lease.stopped = false → Reflects st n n.room.boot) : Recall st n where
  bootTag := hbootTag
  booting := hbooting
  bootSerial := hbootSerial
  booted := hbooted
  sorted := by simp [hu.appended]
  appended := by simp [hu.appended]
  log := hlog
  memory := hmemory
  compacting := fun log hc => absurd hc (hu.not_compacting log)
  captured := fun log hc => absurd hc (hu.not_compacting log)
  running := fun hphase => absurd hu.phase hphase

theorem StoreSerials.logAt_lt (h : StoreSerials st) {k : Nat} :
    ∀ e ∈ logAt st.versions k, e.serial < st.serial :=
  tagged_induction (P := fun log : List Entry => ∀ e ∈ log, e.serial < st.serial)
    (fun _ he => by cases he) h.versions k

theorem StoreSerials.grows (h : StoreSerials st) (hversions : st'.versions = st.versions)
    (hputs : st'.puts = st.puts) (hserial : st.serial ≤ st'.serial) : StoreSerials st' := by
  refine ⟨?_, ?_⟩
  · rw [hversions]
    exact fun v hv e he => (h.versions v hv e he).trans_le hserial
  · rw [hputs]
    exact fun p hp e he => (h.puts p hp e he).trans_le hserial

/-- The WAL buffers a record that the memory has taken. -/
theorem Recall.buffered (h : Recall st n) (hcached : n.commit.cachedTag ≤ st.tip)
    (hready : n.room.boot = .ready) (held : Held) (record : WalRecord) :
    Recall
      (Instance.buffered st (n.withMemory held (n.room.log ++ [⟨st.serial, record⟩])) record).1
      (Instance.buffered st
        (n.withMemory held (n.room.log ++ [⟨st.serial, record⟩])) record).2 := by
  have hgrow : Grows st { st with serial := st.serial + 1 } :=
    ⟨⟨[], (List.append_nil _).symm⟩, ⟨[], (List.append_nil _).symm⟩, Nat.le_succ _⟩
  have h' := h.grows hgrow hcached
  have hnew : ∀ {e : Entry} {l : List Entry} {P : Entry → Prop}, (∀ e ∈ l, P e) →
      P ⟨st.serial, record⟩ → e ∈ l ++ [⟨st.serial, record⟩] → P e := by
    intro e l P hl hlast he
    rcases List.mem_append.1 he with hold | hnew
    · exact hl e hold
    · exact List.mem_singleton.1 hnew ▸ hlast
  -- a snapshot under way lacks the new record, which waits in the buffer
  have hcap : ∀ {log : List Entry}, Captured { st with serial := st.serial + 1 } n log →
      Captured { st with serial := st.serial + 1 }
        (Instance.buffered st (n.withMemory held (n.room.log ++ [⟨st.serial, record⟩])) record).2
        log := by
    rintro log ⟨earlier, taken, since, hlog, happended, hsince⟩
    refine ⟨earlier, taken, since ++ [⟨st.serial, record⟩], hlog, ?_, fun e he => ?_⟩
    · simp [Instance.buffered, Instance.withMemory, happended]
    · rcases List.mem_append.1 he with hold | hlast
      · exact List.mem_append_left _ (hsince e hold)
      · exact List.mem_append_right _ hlast
  refine ⟨h'.bootTag, h'.booting, h'.bootSerial, h'.booted, ?_, ?_, ?_, ?_, h'.compacting,
    fun log hc => (h'.captured log hc).imp_right hcap, fun hphase => ⟨(h'.running hphase).1,
      fun key hlc deletableAt log hhead =>
        hcap ((h'.running hphase).2 key hlc deletableAt log hhead)⟩⟩
  · refine List.pairwise_append.2 ⟨h.sorted, by simp, fun a ha b hb => ?_⟩
    rw [List.mem_singleton.1 hb]
    exact (h.appended a ha).2
  · exact fun e he => hnew (P := fun e => n.room.bootSerial ≤ e.serial ∧ e.serial < st.serial + 1)
      h'.appended ⟨h.bootSerial, Nat.lt_succ_self _⟩ he
  · exact fun e he => hnew (P := fun e => e.serial < st.serial + 1) h'.log (Nat.lt_succ_self _) he
  · intro hstopped
    have hmemory := h.memory hstopped
    rw [hready] at hmemory
    obtain ⟨earlier, hlog⟩ := hmemory
    simp only [Instance.buffered, Instance.withMemory, hready]
    exact ⟨earlier, by simp [hlog]⟩

theorem Recall.of_room {a : RoomAct} (hsync : Synced cfg i st n)
    (huntouched : n.room.boot ≠ .ready → Untouched n) (hkeys : StoreKeys cfg st)
    (hrep : Represents st.puts (manifestAt st.versions n.commit.cachedTag)
      (logAt st.versions n.commit.cachedTag))
    (hst : StoreSerials st) (h : Recall st n) (hs : RoomStep cfg st n a st' n') :
    StoreSerials st' ∧ Recall st' n' ∧ Grows st st' := by
  have hrefl := Grows.refl st
  have hcompact : ∀ {n' : Instance}, n'.loop.task = n.loop.task → n'.commit = n.commit →
      ∀ log, n'.Compacting log → n.Compacting log := by
    intro n' htask hcommit log hc
    rwa [Instance.Compacting, htask, hcommit] at hc
  -- before it is ready, a room goes on with what it has read
  have hboot : ∀ {n' : Instance}, n.room.boot ≠ .ready → n'.loop = n.loop →
      n'.commit = n.commit → n'.room.bootTag = n.room.bootTag →
        n'.room.bootSerial = n.room.bootSerial →
          (n'.room.boot ≠ .cold → n.room.boot ≠ .cold) →
            (∀ e ∈ n'.room.log, e.serial < st.serial) →
              (n.lease.stopped = false → Reflects st n' n'.room.boot) → n'.lease = n.lease →
                Recall st n' := by
    intro n' hne hloop hcommit htag hserial hcold hlog hmemory hlease
    obtain ⟨hchain, hphase, hcommits, htask, hbuffer, happended, hresolved⟩ := huntouched hne
    refine .of_untouched ⟨hcommit ▸ hchain, hcommit ▸ hphase, hcommit ▸ hcommits, hloop ▸ htask,
      hloop ▸ hbuffer, hloop ▸ happended, hloop ▸ hresolved⟩ ?_ ?_ ?_ ?_ hlog (hlease ▸ hmemory)
    · rw [htag, hcommit]
      exact h.bootTag
    · rw [htag, hcommit]
      exact fun hc _ => h.booting (hcold hc) hne
    · rw [hserial]
      exact h.bootSerial
    · rw [htag, hserial]
      exact h.booted
  cases hs with
  | load hcold =>
      have hu := huntouched (by simp [hcold])
      refine ⟨hst, .of_untouched ⟨hu.chain, hu.phase, hu.commits, hu.task, hu.buffer, hu.appended,
        hu.resolved⟩ le_rfl (fun _ _ => rfl) le_rfl hst.logAt_lt h.log fun _ => trivial, hrefl⟩
  | noSnapshot now hloaded hkey =>
      rw [h.booting (by simp [hloaded]) (by simp [hloaded])] at hrep
      obtain ⟨base, batches, hbase, hsegments, hlog⟩ := hrep
      have htag := h.booting (by simp [hloaded]) (by simp [hloaded])
      refine ⟨hst, hboot (by simp [hloaded]) rfl rfl rfl rfl (by simp [hloaded]) h.log
        (fun _ => ⟨n.room.log, batches, ?_, ?_⟩) rfl, hrefl⟩
      · rw [hsync.cached, htag]
        exact hsegments
      · have hnil : base = [] := by
          rcases hbase with ⟨-, hnil⟩ | ⟨key, record, hsome, -⟩
          · exact hnil
          · rw [hsync.cached, htag] at hkey
            cases hkey.symm.trans hsome
        simp [Instance.withBoot, hlog, hnil]
  | snapshot now key record log held hloaded hkey hsnap hrun =>
      have htag := h.booting (by simp [hloaded]) (by simp [hloaded])
      rw [htag] at hrep
      obtain ⟨base, batches, hbase, hsegments, hlog⟩ := hrep
      have hput := hkeys.mem_of_snapshotOf hsnap
      have heq : log = base := by
        rw [hsync.cached, htag] at hkey
        rcases hbase with ⟨hnone, -⟩ | ⟨key', record', hsome, hput'⟩
        · cases hkey.symm.trans hnone
        · cases hkey.symm.trans hsome
          have hsame := hkeys.puts_inj hput hput'
          cases hsame
          rfl
      refine ⟨hst, hboot (by simp [hloaded]) rfl rfl rfl rfl (by simp [hloaded]) (hst.puts _ hput)
        (fun _ => ⟨[], batches, ?_, ?_⟩) rfl, hrefl⟩
      · rw [hsync.cached, htag]
        exact hsegments
      · simp [hlog, heq]
  | snapshotThrew now record error held hloaded =>
      exact ⟨hst, hboot (by simp [hloaded]) rfl rfl rfl rfl (by simp [hloaded]) h.log
        (fun _ => trivial) rfl, hrefl⟩
  | segment now key todo lines held happlying hlines =>
      have hput := hkeys.mem_of_segmentLines hlines
      refine ⟨hst, hboot (by simp [happlying]) rfl rfl rfl rfl (by simp [happlying]) ?_
        (fun hlive => ?_) rfl, hrefl⟩
      · intro e he
        rcases List.mem_append.1 he with hold | hnew
        · exact h.log e hold
        · exact hst.puts _ hput e hnew
      · have hmemory := h.memory hlive
        rw [happlying] at hmemory
        obtain ⟨earlier, batches, hputs, hlog⟩ := hmemory
        cases hputs with
        | cons hhead hrest =>
            -- a key is put once, so that what is read is what the manifest means
            have hsame := hkeys.puts_inj hput hhead
            cases hsame
            exact ⟨earlier, _, hrest, by
              simpa [Instance.withBoot, Instance.withMemory] using hlog⟩
  | segmentThrew now key todo lines error held happlying =>
      exact ⟨hst, hboot (by simp [happlying]) rfl rfl rfl rfl (by simp [happlying]) h.log
        (fun _ => trivial) rfl, hrefl⟩
  | replayed happlying =>
      refine ⟨hst, hboot (by simp [happlying]) rfl rfl rfl rfl (by simp [happlying]) h.log
        (fun hlive => ?_) rfl, hrefl⟩
      have hmemory := h.memory hlive
      rw [happlying] at hmemory
      obtain ⟨earlier, batches, hputs, hlog⟩ := hmemory
      cases hputs
      exact ⟨earlier, by simpa using hlog⟩
  | start hreplayed =>
      refine ⟨hst, hboot (by simp [hreplayed]) rfl rfl rfl rfl (by simp [hreplayed]) h.log
        (fun hlive => ?_) rfl, hrefl⟩
      have hmemory := h.memory hlive
      rw [hreplayed] at hmemory
      obtain ⟨earlier, hlog⟩ := hmemory
      have happended := (huntouched (by simp [hreplayed])).appended
      exact ⟨earlier, by simp [Instance.withBoot, happended, hlog]⟩
  | failBoot hcold hready =>
      exact ⟨hst,
        hboot hready rfl rfl rfl rfl (fun hc => absurd rfl hc) h.log (fun _ => trivial) rfl,
        hrefl⟩
  | append record now held hready =>
      exact ⟨hst.grows rfl rfl (Nat.le_succ _), h.buffered hsync.cachedTag hready held record,
        ⟨⟨[], (List.append_nil _).symm⟩, ⟨[], (List.append_nil _).symm⟩, Nat.le_succ _⟩⟩
  | reserve opIds sweptAt now stamp fresh held hready =>
      exact ⟨hst.grows rfl rfl (Nat.le_succ _),
        h.buffered hsync.cachedTag hready held (.reserve fresh stamp),
        ⟨⟨[], (List.append_nil _).symm⟩, ⟨[], (List.append_nil _).symm⟩, Nat.le_succ _⟩⟩
  | stop hstopped =>
      exact ⟨hst, ⟨h.bootTag, h.booting, h.bootSerial, h.booted, h.sorted, h.appended, h.log,
        fun hlive => by (cases hlive), h.compacting, fun _ _ => .inl rfl, h.running⟩, hrefl⟩
  | dispose held hstopped =>
      -- the memory of a room that was stopped is not written out again
      exact ⟨hst, ⟨h.bootTag, h.booting, h.bootSerial, h.booted, h.sorted, h.appended,
        fun e he => by (cases he), fun hlive => by (cases hstopped.symm.trans hlive), h.compacting,
        h.captured, h.running⟩, hrefl⟩
  | _ =>
      exact ⟨hst, h.keep rfl rfl rfl rfl rfl (fun _ _ => rfl) rfl (.inl rfl) (hcompact rfl rfl)
        h.running, hrefl⟩

/-! ## The flush loop -/

/-- A commit is queued. -/
theorem Recall.push (h : Recall st n) {us : List Update}
    (hcommit : n'.commit = { n.commit with chain := n.commit.chain ++ us })
    (hroom : n'.room = n.room) (hlease : n'.lease = n.lease)
    (happended : n'.loop.appended = n.loop.appended) (hbuffer : n'.loop.buffer = n.loop.buffer)
    (hcompacting : ∀ log, n'.Compacting log → n.Compacting log) : Recall st n' := by
  refine h.keep (by rw [hroom]) (by rw [hroom]) (by rw [hroom]) (by rw [hroom]) happended
    (fun _ _ => hbuffer) (by rw [hlease]) (.inl (by rw [hcommit])) hcompacting ?_
  rw [hcommit]
  intro hphase
  obtain ⟨hchain, hhead⟩ := h.running hphase
  obtain ⟨u, us', hu⟩ := List.exists_cons_of_ne_nil hchain
  rw [hu] at hhead ⊢
  exact ⟨by simp, hhead⟩

theorem StoreSerials.upload (h : StoreSerials st) {key : ObjectKey} {body : ObjectBody}
    (hbody : ∀ e ∈ body.entries, e.serial < st.serial) : StoreSerials (st.upload key body) := by
  refine ⟨h.versions, fun p hp => ?_⟩
  rcases List.mem_append.1 hp with hold | hlast
  · exact h.puts p hold
  · rw [List.mem_singleton.1 hlast]
    exact hbody

/-- What waits in the buffer was appended. -/
theorem Recall.flushing (h : Recall st n) (hloop : LoopOk n) {ref : WalSegmentRef}
    {batch : List Entry} (hbatch : n.Flushing ref batch) :
    ∀ e ∈ batch, n.room.bootSerial ≤ e.serial ∧ e.serial < st.serial :=
  fun e he => h.appended e (hloop.buffer.subset ((hloop.batch ref batch hbatch).subset he))

theorem Recall.of_loop {a : LoopAct} (hloop : LoopOk n)
    (huntouched : n.room.boot ≠ .ready → Untouched n) (hcached : n.commit.cachedTag ≤ st.tip)
    (hst : StoreSerials st) (h : Recall st n) (hs : LoopStep cfg i st n a st' n') :
    StoreSerials st' ∧ Recall st' n' ∧ Grows st st' := by
  have hsame := Grows.refl st
  have hput : ∀ {key : ObjectKey} {body : ObjectBody}, Grows st (st.upload key body) :=
    ⟨⟨[], (List.append_nil _).symm⟩, ⟨_, rfl⟩, le_rfl⟩
  -- the loop goes on, or waits for a commit that is no compaction
  have hgo : ∀ {st' : Store ι} {n' : Instance}, Grows st st' → n'.room = n.room →
      n'.lease = n.lease → n'.commit = n.commit → n'.loop.appended = n.loop.appended →
        n'.loop.buffer = n.loop.buffer →
          (∀ key record log, n'.loop.task ≠ .snapshot key record log) → Recall st' n' := by
    intro st' n' hgrow hroom hlease hcommit happended hbuffer htask
    have hcommit' : n'.commit = { n.commit with chain := n.commit.chain ++ [] } := by
      rw [hcommit, List.append_nil]
    refine (h.grows hgrow hcached).push hcommit' hroom hlease happended hbuffer ?_
    rintro log (⟨key, record, hsnap⟩ | hmem)
    · exact absurd hsnap (htask key record log)
    · exact .inr (hcommit ▸ hmem)
  have hstay : ∀ {task : Task}, (∀ key record log, task ≠ .snapshot key record log) →
      StoreSerials st ∧ Recall st (n.withTask task) ∧ Grows st st :=
    fun htask => ⟨hst, hgo hsame rfl rfl rfl rfl rfl htask, hsame⟩
  have hqueue : ∀ {st' : Store ι} {u : Update}, Grows st st' →
      (∀ key hlc deletableAt log, u = .compact key hlc deletableAt log → n.Compacting log) →
        Recall st' (n.enqueue u) := by
    intro st' u hgrow hcompact
    refine (h.grows hgrow hcached).push rfl rfl rfl rfl rfl ?_
    rintro log (⟨key, record, hsnap⟩ | ⟨key, hlc, deletableAt, hmem⟩)
    · cases hsnap
    · rcases List.mem_append.1 hmem with hold | hlast
      · exact .inr ⟨key, hlc, deletableAt, hold⟩
      · exact hcompact key hlc deletableAt log (List.mem_singleton.1 hlast).symm
  cases hs with
  | ensure => exact hstay (by simp)
  | fail _ _ htask =>
      -- the loop waits for nothing, so that no compaction is under way
      have hnone : ∀ log, ¬ n.failLoop.Compacting log := by
        rintro log (⟨key, record, hsnap⟩ | ⟨key, hlc, deletableAt, hmem⟩)
        · cases hsnap
        · cases htask.symm.trans (hloop.waiting hmem rfl)
      exact ⟨hst, h.keep rfl rfl rfl rfl rfl (fun log hc => absurd hc (hnone log)) rfl (.inl rfl)
        (fun log hc => absurd hc (hnone log)) h.running, hsame⟩
  | flush htask =>
      have hgrow : Grows st { st with allocated := st.allocated ++ [((n.nextRef cfg i).key, i)] } :=
        .of_eq rfl rfl rfl
      exact ⟨hst.grows rfl rfl le_rfl, hgo hgrow rfl rfl rfl rfl rfl fun _ _ _ hsnap =>
        by (cases hsnap), hgrow⟩
  | putSegment ref batch htask =>
      have hbatch := h.flushing hloop (.inl htask)
      exact ⟨hst.upload fun e he => (hbatch e he).2, hqueue hput (by simp), hput⟩
  | lostSegment ref batch htask =>
      have hbatch := h.flushing hloop (.inl htask)
      exact ⟨hst.upload fun e he => (hbatch e he).2, hgo hput rfl rfl rfl rfl rfl fun _ _ _ hsnap =>
        by (cases hsnap), hput⟩
  | failedSegment ref batch => exact hstay (by simp)
  | skip => exact hstay (by simp)
  | compact now htask =>
      have hready : n.room.boot = .ready := by
        by_contra hne
        cases htask.symm.trans (huntouched hne).task
      have hgrow : Grows st { st with allocated := st.allocated ++ [(n.nextSnapshot cfg i, i)] } :=
        .of_eq rfl rfl rfl
      have h' := h.grows hgrow hcached
      have hcases : ∀ {log : List Entry}, Instance.Compacting { n with loop := { n.loop with
          names := { n.loop.names with snapshotSeq := n.loop.names.snapshotSeq + 1 }
          task := .snapshot (n.nextSnapshot cfg i) (n.room.held.room.toSnapshot now) n.room.log } }
            log → log = n.room.log ∨ n.Compacting log := by
        rintro log (⟨key, record, hsnap⟩ | hmem)
        · cases hsnap
          exact .inl rfl
        · exact .inr (.inr hmem)
      refine ⟨hst.grows rfl rfl le_rfl,
        ⟨h'.bootTag, h'.booting, h'.bootSerial, h'.booted, h'.sorted,
        h'.appended, h'.log, fun hlive => ?_, fun log hc => ?_, fun log hc => ?_,
          h'.running⟩, hgrow⟩
      · have hmemory := h'.memory hlive
        rw [hready] at hmemory
        rw [hready]
        exact hmemory
      · rcases hcases hc with rfl | hold
        · exact h'.log
        · exact h'.compacting log hold
      · rcases hcases hc with rfl | hold
        · cases hstopped : n.lease.stopped with
          | true => exact .inl rfl
          | false =>
              -- the snapshot has all that the memory reflects
              have hmemory := h'.memory hstopped
              rw [hready] at hmemory
              obtain ⟨earlier, hlog⟩ := hmemory
              exact .inr ⟨earlier, n.loop.appended, [], hlog, (List.append_nil _).symm, by simp⟩
        · exact h'.captured log hold
  | putSnapshot now key record log htask =>
      have hlog : n.Compacting log := .inl ⟨key, record, htask⟩
      refine ⟨hst.upload (h.compacting log hlog), hqueue hput ?_, hput⟩
      rintro _ _ _ _ ⟨⟩
      exact hlog
  | lostSnapshot now key record log htask =>
      have hlog : n.Compacting log := .inl ⟨key, record, htask⟩
      exact ⟨hst.upload (h.compacting log hlog), hgo hput rfl rfl rfl rfl rfl fun _ _ _ hsnap =>
        by (cases hsnap), hput⟩
  | failedSnapshot => exact hstay (by simp)
  | nothingDue => exact hstay (by simp)
  | collect => exact ⟨hst, hqueue hsame (by simp), hsame⟩
  | startDelete => exact hstay (by simp)
  | delete done =>
      have hgrow : Grows st (st.remove done) := .of_eq rfl rfl rfl
      exact ⟨hst.grows rfl rfl le_rfl, hqueue hgrow (by simp), hgrow⟩
  | deleteThrew done =>
      have hgrow : Grows st (st.remove done) := .of_eq rfl rfl rfl
      exact ⟨hst.grows rfl rfl le_rfl, hgo hgrow rfl rfl rfl rfl rfl fun _ _ _ hsnap =>
        by (cases hsnap), hgrow⟩

/-! ## The lease and the commits -/

@[simp] theorem LeaseSide.fence_stopped (l : LeaseSide) : l.fence.stopped = l.stopped := by
  unfold LeaseSide.fence
  split <;> rfl

theorem LeaseStep.stopped {leases leases' : List (StoredLease ι)} {l l' : LeaseSide} {a : LeaseAct}
    (hs : LeaseStep cfg i leases l a leases' l') : l'.stopped = l.stopped := by
  cases hs with
  | answer call now kind next reply =>
      have hdone : (l.done call).stopped = l.stopped := rfl
      cases kind <;> cases reply
      case renew.conflict => exact (LeaseSide.fence_stopped _).trans hdone
      case renew.failed =>
          simp only [LeaseSide.answered]
          split
          · exact (LeaseSide.fence_stopped _).trans hdone
          · exact hdone
      all_goals exact hdone
  | _ => rfl

/-- The commit at the head of the chain is over. -/
theorem Recall.over (h : Recall st n) (hloop : LoopOk n) {u : Update} {us : List Update}
    (hchain : n.commit.chain = u :: us) (htail : n'.commit.chain = us)
    (hphase : n'.commit.phase = .waiting) (hroom : n'.room.bootTag = n.room.bootTag ∧
      n'.room.bootSerial = n.room.bootSerial ∧ n'.room.boot = n.room.boot ∧
        n'.room.log = n.room.log) (hstopped : n'.lease.stopped = n.lease.stopped)
    (hcached : n'.commit.cachedTag = n.commit.cachedTag ∨
      n.room.boot = .ready ∧ n.commit.cachedTag ≤ n'.commit.cachedTag)
    (hs : Settles u n n') : Recall st n' := by
  obtain ⟨hbootTag, hbootSerial, hboot, hlog⟩ := hroom
  have hcompacting : ∀ log, n'.Compacting log → u.ofLoop = false ∧ n.Compacting log := by
    intro log hc
    cases hu : u.ofLoop with
    | true =>
        rcases hc with ⟨key, record, hsnap⟩ | ⟨key, hlc, deletableAt, hmem⟩
        · exact absurd (hs.task hu) (by simp [hsnap, Task.Rests])
        · exact absurd rfl (List.filter_eq_nil_iff.1 (hloop.rest hchain hu) _ (htail ▸ hmem))
    | false =>
        refine ⟨rfl, hc.imp ?_ ?_⟩
        · rintro ⟨key, record, hsnap⟩
          exact ⟨key, record, hs.loop hu ▸ hsnap⟩
        · rintro ⟨key, hlc, deletableAt, hmem⟩
          exact ⟨key, hlc, deletableAt, hchain ▸ List.mem_cons_of_mem _ (htail ▸ hmem)⟩
  refine h.keep hbootTag hbootSerial hboot hlog hs.appended (fun log hc => ?_) hstopped hcached
    (fun log hc => (hcompacting log hc).2) fun hne => absurd hphase hne
  rw [hs.loop (hcompacting log hc).1]

theorem Recall.resolve (h : Recall st n) (hloop : LoopOk n) {l : LeaseSide}
    (hstopped : l.stopped = n.lease.stopped) {u : Update} {us : List Update}
    (hchain : n.commit.chain = u :: us) (next cached : ManifestRecord) {tag : Nat}
    (hready : n.room.boot = .ready) (htag : n.commit.cachedTag ≤ tag) :
    Recall st (Instance.resolve { n with lease := l } u next cached tag) :=
  h.over hloop hchain (by simp [hchain]) (by simp) (by simp) (by simp [hstopped])
    (.inr ⟨hready, by simpa using htag⟩)
    (.resolve (n := n) (m := { n with lease := l }) rfl u next cached tag)

theorem Recall.reject (h : Recall st n) (hloop : LoopOk n) {l : LeaseSide}
    (hstopped : l.stopped = n.lease.stopped) {u : Update} {us : List Update}
    (hchain : n.commit.chain = u :: us) (notWriter : Bool) :
    Recall st (Instance.reject { n with lease := l } u notWriter) :=
  h.over hloop hchain (by simp [hchain]) (by simp) (by simp) (by simp [hstopped])
    (.inl (by simp)) (.reject (n := n) (m := { n with lease := l }) rfl u notWriter)

theorem StoreSerials.publish (hst : StoreSerials st) (h : Recall st n) (hloop : LoopOk n)
    {u : Update} {us : List Update} (hchain : n.commit.chain = u :: us) (next : ManifestRecord) :
    StoreSerials (st.publish i next u) := by
  have hmem : u ∈ n.commit.chain := hchain ▸ List.mem_cons_self
  refine ⟨fun v hv => ?_, hst.puts⟩
  rcases List.mem_append.1 hv with hold | hlast
  · exact hst.versions v hold
  · rw [List.mem_singleton.1 hlast]
    cases u with
    | append ref batch =>
        intro e he
        rcases List.mem_append.1 he with hold | hnew
        · exact hst.logAt_lt e hold
        · exact (h.flushing hloop (.inr hmem) e hnew).2
    | setMeta key value => exact hst.logAt_lt
    | compact key hlc deletableAt log => exact h.compacting log (.inr ⟨key, hlc, deletableAt, hmem⟩)
    | collect now => exact hst.logAt_lt

theorem Instance.committed_eq (cfg : Config ι) (n : Instance) :
    ∃ l, n.committed cfg = { n with lease := l } ∧ l.stopped = n.lease.stopped := by
  unfold Instance.committed
  split
  · exact ⟨{ n.lease with wroteSinceRenew := true }, rfl, rfl⟩
  · exact ⟨n.lease, rfl, rfl⟩

theorem Recall.of_commit {a : CommitAct} (hmode : cfg.mode = .singleWriter)
    (hlinear : Linear cfg st.versions) (hl : LeasesOk st.leases)
    (hv : VersionsOk st.leases st.versions) (hi : EpochsOk i st n) (hsync : Synced cfg i st n)
    (hsolo : Solo i st n) (hloop : LoopOk n) (huntouched : n.room.boot ≠ .ready → Untouched n)
    (hst : StoreSerials st) (h : Recall st n) (hs : CommitStep cfg i st n a st' n') :
    StoreSerials st' ∧ Recall st' n' ∧ Grows st st' := by
  have hsame := Grows.refl st
  have hready : ∀ {u : Update} {us : List Update}, n.commit.chain = u :: us →
      n.room.boot = .ready := by
    intro u us hchain
    by_contra hne
    cases hchain.symm.trans (huntouched hne).chain
  have hphase :
      ∀ {phase : CommitPhase}, n.commit.phase ≠ .waiting → Recall st (n.withPhase phase) :=
    fun hne => h.keep rfl rfl rfl rfl rfl (fun _ _ => rfl) rfl (.inl rfl) (fun _ hc => hc)
      fun _ => h.running hne
  cases hs with
  | setMeta key value hboot =>
      refine ⟨hst, h.keep rfl rfl rfl rfl rfl (fun _ _ => rfl) rfl (.inl rfl) ?_ ?_, hsame⟩
      · rintro log (hsnap | ⟨key', hlc, deletableAt, hmem⟩)
        · exact .inl hsnap
        · exact .inr ⟨key', hlc, deletableAt, by simpa using hmem⟩
      · intro hne
        obtain ⟨hchain, hhead⟩ := h.running hne
        obtain ⟨u, us, hu⟩ := List.exists_cons_of_ne_nil hchain
        rw [hu] at hhead ⊢
        exact ⟨by simp, hhead⟩
  | startOptimistic hopt => cases hmode.symm.trans hopt
  | start _ _ hchain _ hlive =>
      -- a stopped instance starts no commit, so that the snapshot is captured
      refine ⟨hst, h.keep rfl rfl rfl rfl rfl (fun _ _ => rfl) rfl (.inl rfl) (fun _ hc => hc) ?_,
        hsame⟩
      refine fun _ => ⟨hchain, fun key hlc deletableAt log hhead => ?_⟩
      refine (h.captured log
        (.inr ⟨key, hlc, deletableAt, List.mem_of_head? hhead⟩)).resolve_left ?_
      simp [hlive]
  | grant hstarted => exact ⟨hst, hphase (by simp [hstarted]), hsame⟩
  | issue u us hgranted => exact ⟨hst, hphase (by simp [hgranted]), hsame⟩
  | put outcome ifMatch next u us reply hissued hchain =>
      have hgrow : Grows st (st.publish i next u) :=
        ⟨⟨_, rfl⟩, ⟨[], (List.append_nil _).symm⟩, le_rfl⟩
      exact ⟨hst.publish h hloop hchain next,
        (hphase (by simp [hissued])).grows hgrow hsync.cachedTag, hgrow⟩
  | putRefused outcome ifMatch next u us reply hissued =>
      exact ⟨hst, hphase (by simp [hissued]), hsame⟩
  | answer next tag u us hreplied hchain =>
      obtain ⟨l, hl, hstopped⟩ := n.committed_eq cfg
      rw [hl]
      have htag := (hsolo.replied next tag hreplied).1
      exact ⟨hst, h.resolve hloop hstopped hchain next next (hready hchain)
        (htag ▸ Nat.le_succ _), hsame⟩
  | answerConflict next u us hreplied => exact ⟨hst, hphase (by simp [hreplied]), hsame⟩
  | answerFailed next u us _ hchain => exact ⟨hst, h.reject hloop rfl hchain false, hsame⟩
  | readBack ok next hconflicted => exact ⟨hst, hphase (by simp [hconflicted]), hsame⟩
  | adopt tag next u us hfound hchain hzero hown =>
      have htag := (hsolo.adopted hlinear hl hv hi hsync hfound hzero hown).1
      exact ⟨hst, h.resolve hloop (l := { n.lease with wroteSinceRenew := true }) rfl hchain next _
        (hready hchain) (htag ▸ Nat.le_succ _), hsame⟩
  | fence tag next u us _ hchain =>
      exact ⟨hst, h.reject hloop n.lease.fence_stopped hchain true, hsame⟩
  | giveUp tag next u us _ _ hopt => cases hmode.symm.trans hopt
  | retry tag next u us _ _ hopt => cases hmode.symm.trans hopt
  | reload hreloading => exact absurd hreloading hi.phase.single.1
  | reloaded tag hreloaded => exact absurd hreloaded (hi.phase.single.2 tag)
  | refuse notWriter u us hchain => exact ⟨hst, h.reject hloop rfl hchain notWriter, hsame⟩

/-! ## Runs -/

/-- The invariants of a single-writer room and its objects. -/
structure WrittenRoom (cfg : Config ι) (s : FleetState ι) : Prop where
  solo : SoloRoom cfg s
  commits : ∀ i, Solo i s.shared (s.locals i)
  loop : ∀ i, LoopOk (s.locals i)
  keys : StoreKeys cfg s.shared
  objects : StoreObjects s.shared

theorem writtenRoom [DecidableEq ι] {G : Guard ι} (hmode : cfg.mode = .singleWriter)
    (hG : ∀ {i st n a}, G i st n a → KeepsEpoch cfg i st n a) {s : FleetState ι}
    (h : FleetReach cfg G s) : WrittenRoom cfg s := by
  have honce : ∀ {i st n a}, G i st n a → PutsOnce cfg i st n a := by
    intro i st n a hg
    refine ⟨hG hg, ?_⟩
    unfold Act.PutsOnce
    split
    · exact fun _ => hmode
    · trivial
  have hinj : cfg.mode = .optimistic → Function.Injective cfg.writerId :=
    fun hopt => by cases hmode.symm.trans hopt
  exact ⟨soloRoom hmode hG h, fun i => solo hmode hG h i, fun i => loopOk h i,
    (keys hG hinj h).1, (objects honce hinj h).1⟩

/-- What a single writer remembers, in every state of every run. -/
theorem recalls [DecidableEq ι] {G : Guard ι} (hmode : cfg.mode = .singleWriter)
    (hG : ∀ {i st n a}, G i st n a → KeepsEpoch cfg i st n a) {s : FleetState ι}
    (h : FleetReach cfg G s) : s.All StoreSerials fun _ st n => Recall st n := by
  suffices hown : ∀ {s : FleetState ι} {i : ι} {a : Act} {st' : Store ι} {n' : Instance},
      WrittenRoom cfg s → s.All StoreSerials (fun _ st n => Recall st n) →
        Step cfg i s.shared (s.locals i) a st' n' →
          StoreSerials st' ∧ Recall st' n' ∧ Grows s.shared st' by
    refine FleetReach.invariant (writtenRoom hmode hG) ?_ ?_ ?_ ?_ h
    · exact ⟨fun _ hv => by (cases hv), fun _ hp => by cases hp⟩
    · intro i
      exact .of_untouched ⟨rfl, rfl, rfl, rfl, rfl, rfl, rfl⟩ le_rfl (fun hne => absurd rfl hne)
        le_rfl (fun _ he => by (cases he)) (fun _ he => by (cases he)) fun _ => trivial
    · intro s i a st' n' hroom hall _ hs
      obtain ⟨hst', hi, -⟩ := hown hroom hall hs
      exact ⟨hst', hi⟩
    · intro s i a st' n' hroom hall _ hs j _
      obtain ⟨-, -, hgrow⟩ := hown hroom hall hs
      exact (hall.2 j).grows hgrow (hroom.solo.sync j).cachedTag
  rintro s i a st' n' hroom ⟨hst, hall⟩ hs
  have hsync := hroom.solo.sync i
  have hsame := Grows.refl s.shared
  cases hs with
  | room hs =>
      have hrep := hroom.objects.represents hroom.solo.linear hsync.cachedTag
      exact (hall i).of_room hsync (hroom.solo.untouched i) hroom.keys hrep hst hs
  | @lease a leases' l' _ hs =>
      have hgrow : Grows s.shared { s.shared with leases := leases' } := .of_eq rfl rfl rfl
      have hgrown := (hall i).grows hgrow hsync.cachedTag
      refine ⟨hst.grows rfl rfl le_rfl, ?_, hgrow⟩
      exact hgrown.keep rfl rfl rfl rfl rfl (fun _ _ => rfl) hs.stopped (.inl rfl) (fun _ hc => hc)
        hgrown.running
  | loop hs =>
      exact (hall i).of_loop (hroom.loop i) (hroom.solo.untouched i) hsync.cachedTag hst hs
  | commit hs =>
      exact (hall i).of_commit hmode hroom.solo.linear hroom.solo.leases hroom.solo.versions
        (hroom.solo.epochs i) hsync (hroom.commits i) (hroom.loop i) (hroom.solo.untouched i) hst hs
  | refresh hs =>
      have hnone : ∀ {call : Nat} {r : Refresh}, (s.locals i).room.refreshes[call]? ≠ some r := by
        simp [(hroom.solo.epochs i).refreshes]
      cases hs with
      | get hopt => cases hmode.symm.trans hopt
      | answer _ _ _ hcall => exact absurd hcall hnone
      | load _ _ _ _ _ _ _ hcall => exact absurd hcall hnone
      | pass _ _ _ _ _ _ hcall => exact absurd hcall hnone
      | segment _ _ _ _ _ _ _ _ _ hcall => exact absurd hcall hnone
      | _ =>
          exact ⟨hst, (hall i).keep rfl rfl rfl rfl rfl (fun _ _ => rfl) rfl (.inl rfl)
            (fun _ hc => hc) (hall i).running, hsame⟩

end Fleet
end ObjectStorage
end Reflectdb
