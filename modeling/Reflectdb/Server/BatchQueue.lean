import Reflectdb.Server.Batches

/-!
# Batch queue — a batch stays together at the client and on the wire

Of the ops of a batch, what is missing in a client's queue, in a message or in what a call has
still to do was accepted: nothing else takes an op out without the rest of its batch.
-/

namespace Reflectdb
namespace Server

open Core Client Lib

/-- Of a batch that has an op in the list, the ops that are not in it were accepted. -/
def Whole (s : OpState) (xs : List ClientOp) : Prop :=
  ∀ op ∈ xs, op.batch.isSome → ∀ op' ∈ s.created, op'.batch = op.batch →
    op' ∈ xs ∨ s.fate op'.id = .accepted

structure ClientWhole (s : OpState) (client : PushState) : Prop where
  sub : client.pendingOps.Sublist s.created
  whole : Whole s client.pendingOps
  /-- The ops of a batch are on the wire together. -/
  marks : ∀ op ∈ client.pendingOps, ∀ op' ∈ client.pendingOps, op.batch.isSome →
    op'.batch = op.batch → client.inFlightOps.lookup op.id = client.inFlightOps.lookup op'.id
  marked : ∀ id, (client.inFlightOps.lookup id).isSome → id ∈ s.created.map (·.id)
  chunks : ∀ chunk ∈ client.chunks, chunk.Sublist s.created ∧ Whole s chunk ∧
    KeepsWhole ClientOp.batch client.pendingOps chunk

structure WireWhole (s : OpState) : Prop where
  nodup : (s.created.map (·.id)).Nodup
  contiguous : Contiguous ClientOp.batch s.created
  clients : ∀ c, ClientWhole s (s.clients c)
  messages : ∀ m ∈ s.messages, m.2.Sublist s.created ∧ Whole s m.2

variable {s s' : OpState} {client : PushState} {xs : List ClientOp}

theorem Whole.mono (h : Whole s xs) (hcreated : s'.created = s.created)
    (hacc : ∀ id, s.fate id = .accepted → s'.fate id = .accepted) : Whole s' xs := by
  intro op hop hbatch op' hop' heq
  rw [hcreated] at hop'
  exact (h op hop hbatch op' hop' heq).imp_right (hacc _)

theorem ClientWhole.mono (h : ClientWhole s client) (hcreated : s'.created = s.created)
    (hacc : ∀ id, s.fate id = .accepted → s'.fate id = .accepted) : ClientWhole s' client where
  sub := hcreated ▸ h.sub
  whole := h.whole.mono hcreated hacc
  marks := h.marks
  marked := hcreated ▸ h.marked
  chunks chunk hchunk :=
    ⟨hcreated ▸ (h.chunks chunk hchunk).1, (h.chunks chunk hchunk).2.1.mono hcreated hacc,
      (h.chunks chunk hchunk).2.2⟩

theorem WireWhole.mono (h : WireWhole s) (hclients : s'.clients = s.clients)
    (hmessages : ∀ m ∈ s'.messages, m ∈ s.messages) (hcreated : s'.created = s.created)
    (hacc : ∀ id, s.fate id = .accepted → s'.fate id = .accepted) : WireWhole s' where
  nodup := hcreated ▸ h.nodup
  contiguous := hcreated ▸ h.contiguous
  clients c := hclients ▸ (h.clients c).mono hcreated hacc
  messages m hm :=
    have hold := h.messages m (hmessages m hm)
    ⟨hcreated ▸ hold.1, hold.2.mono hcreated hacc⟩

/-- An op is told by its id. -/
theorem WireWhole.eq_of_id (h : WireWhole s) {op op' : ClientOp} (hop : op ∈ s.created)
    (hop' : op' ∈ s.created) (hid : op.id = op'.id) : op = op' :=
  List.inj_on_of_nodup_map h.nodup hop hop' hid

/-! ## Pushing -/

namespace ClientWhole

theorem clearInFlight (h : ClientWhole s client) : ClientWhole s client.clearInFlight where
  sub := h.sub
  whole := h.whole
  marks _ _ _ _ _ _ := rfl
  marked _ hid := by simp [PushState.clearInFlight] at hid
  chunks := h.chunks

theorem startPush (h : ClientWhole s client) (hc : Contiguous ClientOp.batch s.created) {now : Nat}
    {client' : PushState} (hpush : client.startPush now = some client') :
    ClientWhole s client' := by
  unfold PushState.startPush at hpush
  split at hpush
  · cases hpush
    refine ⟨h.sub, h.whole, h.marks, h.marked, fun chunk hchunk => ?_⟩
    have hfilter : (client.pendingOps.filter (client.sendable now)).Sublist s.created :=
      List.filter_sublist.trans h.sub
    have hsub := PushState.sublist_of_mem_pushChunks hchunk
    have hkeeps : KeepsWhole ClientOp.batch client.pendingOps chunk := by
      intro op hop hbatch op' hop' heq
      rcases List.mem_filter.1 (hsub.subset hop) with ⟨hpending, hsendable⟩
      refine PushState.keepsWhole_pushChunks (hc.sublist hfilter) hchunk op hop hbatch op' ?_ heq
      refine List.mem_filter.2 ⟨hop', ?_⟩
      rw [PushState.sendable, ← h.marks op hpending op' hop' hbatch heq]
      exact hsendable
    refine ⟨hsub.trans hfilter, fun op hop hbatch op' hop' heq => ?_, hkeeps⟩
    have hpending := (List.mem_filter.1 (hsub.subset hop)).1
    refine (h.whole op hpending hbatch op' hop' heq).imp_left fun hin => ?_
    exact hkeeps op hop hbatch op' hin heq
  · cases hpush

/-- A chunk has all pending ops of a batch, or none. -/
theorem mem_chunk_iff (hnodup : (s.created.map (·.id)).Nodup) (h : ClientWhole s client)
    {chunk : List ClientOp} (hchunk : chunk ∈ client.chunks) {op op' : ClientOp}
    (hop : op ∈ client.pendingOps) (hop' : op' ∈ client.pendingOps) (hbatch : op.batch.isSome)
    (heq : op'.batch = op.batch) : op.id ∈ chunk.map (·.id) ↔ op'.id ∈ chunk.map (·.id) := by
  have hmem :
      ∀ {op : ClientOp}, op ∈ client.pendingOps → op.id ∈ chunk.map (·.id) → op ∈ chunk := by
    intro op hop hid
    rcases List.mem_map.1 hid with ⟨op₁, hop₁, hid⟩
    have hsame : op₁ = op := List.inj_on_of_nodup_map hnodup
      ((h.chunks chunk hchunk).1.subset hop₁) (h.sub.subset hop) hid
    exact hsame ▸ hop₁
  have hkeeps := (h.chunks chunk hchunk).2.2
  exact ⟨fun hin => List.mem_map_of_mem (hkeeps op (hmem hop hin) hbatch op' hop' heq),
    fun hin => List.mem_map_of_mem (hkeeps op' (hmem hop' hin) (heq ▸ hbatch) op hop heq.symm)⟩

theorem sentChunk (hnodup : (s.created.map (·.id)).Nodup) (h : ClientWhole s client)
    {chunk : List ClientOp} {rest : List (List ClientOp)} (hchunks : client.chunks = chunk :: rest)
    (sentAt : Nat) : ClientWhole s (client.sentChunk chunk rest sentAt) := by
  have hchunk : chunk ∈ client.chunks := hchunks ▸ List.mem_cons_self
  refine ⟨h.sub, h.whole, fun op hop op' hop' hbatch heq => ?_, fun id hid => ?_,
    fun chunk' hchunk' => h.chunks chunk' (hchunks ▸ List.mem_cons_of_mem _ hchunk')⟩
  · simp only [PushState.sentChunk, PushState.lookup_markInFlight]
    rw [h.marks op hop op' hop' hbatch heq]
    exact if_congr (mem_chunk_iff hnodup h hchunk hop hop' hbatch heq) rfl rfl
  · simp only [PushState.sentChunk, PushState.lookup_markInFlight] at hid
    split at hid
    · rename_i hin
      exact ((h.chunks chunk hchunk).1.map _).subset hin
    · exact h.marked id hid

theorem failedChunk (hnodup : (s.created.map (·.id)).Nodup) (h : ClientWhole s client)
    {chunk : List ClientOp} (hchunk : chunk ∈ client.chunks) :
    ClientWhole s (client.failedChunk chunk) := by
  refine ⟨h.sub, h.whole, fun op hop op' hop' hbatch heq => ?_, fun id hid => ?_,
    fun chunk' hchunk' => absurd hchunk' List.not_mem_nil⟩
  · simp only [PushState.failedChunk, PushState.lookup_unmark]
    rw [h.marks op hop op' hop' hbatch heq]
    exact if_congr (mem_chunk_iff hnodup h hchunk hop hop' hbatch heq) rfl rfl
  · simp only [PushState.failedChunk, PushState.lookup_unmark] at hid
    split at hid
    · cases hid
    · exact h.marked id hid

/-! ## Answers -/

/-- Ops leave the queue, and either those that leave were accepted or their batch leaves with
them. -/
theorem filter (h : ClientWhole s client) {keep : ClientOp → Bool} {marks : Record Nat}
    (hkeep : ∀ op ∈ client.pendingOps, op.batch.isSome → keep op = false →
      s.fate op.id = .accepted ∨
        ∀ op' ∈ client.pendingOps, op'.batch = op.batch → keep op' = false)
    (hmarks : ∀ id, marks.lookup id = none ∨ marks.lookup id = client.inFlightOps.lookup id)
    (hsame : ∀ op ∈ client.pendingOps, keep op = true →
      marks.lookup op.id = client.inFlightOps.lookup op.id) :
    ClientWhole s ⟨client.pendingOps.filter keep, marks, client.chunks⟩ := by
  refine ⟨List.filter_sublist.trans h.sub, fun op hop hbatch op' hop' heq => ?_,
    fun op hop op' hop' hbatch heq => ?_, fun id hid => ?_, fun chunk hchunk => ?_⟩
  · rcases List.mem_filter.1 hop with ⟨hpending, hkept⟩
    rcases h.whole op hpending hbatch op' hop' heq with hin | hacc
    · cases hkept' : keep op' with
      | true => exact Or.inl (List.mem_filter.2 ⟨hin, hkept'⟩)
      | false =>
          rcases hkeep op' hin (heq ▸ hbatch) hkept' with hacc | hall
          · exact Or.inr hacc
          · have hout := hall op hpending heq.symm
            rw [hkept] at hout
            cases hout
    · exact Or.inr hacc
  · rcases List.mem_filter.1 hop with ⟨hpending, hkept⟩
    rcases List.mem_filter.1 hop' with ⟨hpending', hkept'⟩
    calc
      marks.lookup op.id = client.inFlightOps.lookup op.id := hsame op hpending hkept
      _ = client.inFlightOps.lookup op'.id := h.marks op hpending op' hpending' hbatch heq
      _ = marks.lookup op'.id := (hsame op' hpending' hkept').symm
  · rcases hmarks id with hnone | hold
    · simp [hnone] at hid
    · exact h.marked id (by rwa [← hold])
  · rcases h.chunks chunk hchunk with ⟨hsub, hwhole, hkeeps⟩
    refine ⟨hsub, hwhole, fun op hop hbatch op' hop' heq => ?_⟩
    exact hkeeps op hop hbatch op' (List.mem_filter.1 hop').1 heq

theorem ack (h : ClientWhole s client) {opIds : List String}
    (hacc : ∀ op ∈ s.created, op.batch.isSome → op.id ∈ opIds → s.fate op.id = .accepted) :
    ClientWhole s (client.ack opIds) := by
  refine h.filter (fun op hop hbatch hout => ?_) (fun id => ?_) fun op _ hkept => ?_
  · have hin : op.id ∈ opIds := by simpa using hout
    exact Or.inl (hacc op (h.sub.subset hop) hbatch hin)
  · rw [PushState.lookup_unmark]
    by_cases hin : id ∈ opIds
    · exact Or.inl (if_pos hin)
    · exact Or.inr (if_neg hin)
  · rw [PushState.lookup_unmark]
    exact if_neg (by simpa using hkept)

/-- What a reject takes out of the queue. -/
def takes (opId : String) (batchId : Option String) (op : ClientOp) : Bool :=
  op.id = opId || (batchId.filter (· ≠ "")).isSome && op.batchId == batchId

theorem pendingOps_reject (client : PushState) (opId : String) (batchId : Option String) :
    (client.reject opId batchId).pendingOps =
      client.pendingOps.filter fun op => ¬ takes opId batchId op := by
  simp only [PushState.reject, List.filter_filter]
  refine List.filter_congr fun op _ => ?_
  by_cases hid : op.id = opId <;> simp [takes, hid]

theorem reject (hnodup : (s.created.map (·.id)).Nodup) (h : ClientWhole s client) {opId : String}
    {batchId : Option String} (hnames : ∀ op ∈ s.created, op.id = opId → op.batchId = batchId) :
    ClientWhole s (client.reject opId batchId) := by
  have hlookup : ∀ id, (client.reject opId batchId).inFlightOps.lookup id =
      if id = opId ∨ id ∈ (client.pendingOps.filter (takes opId batchId)).map (·.id) then none
      else client.inFlightOps.lookup id := by
    intro id
    simp only [PushState.reject, PushState.lookup_unmark]
    by_cases hid : id = opId
    · subst hid
      simp [AList.lookup_erase]
    · rw [AList.lookup_erase_ne hid]
      refine if_congr ?_ rfl rfl
      simp only [hid, false_or, List.mem_map, List.mem_filter, takes]
      refine exists_congr fun op => and_congr_left fun heq => ?_
      have hne : op.id ≠ opId := heq ▸ hid
      simp [hne]
  have hclient : client.reject opId batchId =
      ⟨client.pendingOps.filter fun op => ¬ takes opId batchId op,
        (client.reject opId batchId).inFlightOps, client.chunks⟩ := by
    rw [← pendingOps_reject client opId batchId]
    rfl
  rw [hclient]
  refine h.filter (fun op hop hbatch hout => ?_) (fun id => ?_) fun op hop hkept => ?_
  · refine Or.inr fun op' _ heq => ?_
    have hbatchId := ClientOp.batchId_congr hbatch heq.symm
    have htaken : takes opId batchId op = true := by simpa using hout
    -- The batch of the op is that of the reject.
    have hreject : (batchId.filter (· ≠ "")).isSome = true ∧ op.batchId = batchId := by
      rcases (Bool.or_eq_true _ _).mp htaken with hid | hbatch'
      · have hsame := hnames op (h.sub.subset hop) (of_decide_eq_true hid)
        exact ⟨hsame ▸ hbatch, hsame⟩
      · simpa using hbatch'
    have : takes opId batchId op' = true := by
      rw [takes, hreject.1, ← hbatchId, hreject.2]
      simp
    simp [this]
  · rw [hlookup id]
    by_cases hin : id = opId ∨ id ∈ (client.pendingOps.filter (takes opId batchId)).map (·.id)
    · exact Or.inl (if_pos hin)
    · exact Or.inr (if_neg hin)
  · rw [hlookup op.id, if_neg]
    have hfree : takes opId batchId op = false := by simpa using hkept
    rintro (hid | hin)
    · simp [takes, hid] at hfree
    · rcases List.mem_map.1 hin with ⟨op', hop', hid⟩
      rcases List.mem_filter.1 hop' with ⟨hpending, htaken⟩
      have hsame : op' = op := List.inj_on_of_nodup_map hnodup (h.sub.subset hpending)
        (h.sub.subset hop) hid
      rw [hsame, hfree] at htaken
      cases htaken

/-- A batch that is new. -/
theorem create (h : ClientWhole s client) {ops : List ClientOp}
    (hnew : ∀ old ∈ s.created, ∀ op ∈ ops, op.batch.isSome → old.batch ≠ op.batch)
    (hsame : ∀ op ∈ ops, op.batch.isSome → ∀ op' ∈ ops, op'.batch = op.batch)
    (hids : ∀ op ∈ ops, op.id ∉ s.created.map (·.id)) (hcreated : s'.created = s.created ++ ops)
    (hfate : s'.fate = s.fate) {added : List ClientOp} (hadded : added = ops ∨ added = []) :
    ClientWhole s' { client with pendingOps := client.pendingOps ++ added } := by
  have hwhole : ∀ {xs : List ClientOp}, (∀ op ∈ xs, op ∈ s.created) → Whole s xs →
      Whole s' (xs ++ added) := by
    intro xs hxs hold op hop hbatch op' hop' heq
    rw [hcreated] at hop'
    rw [hfate]
    rcases List.mem_append.1 hop with hop | hop
    · rcases List.mem_append.1 hop' with hop' | hop'
      · exact (hold op hop hbatch op' hop' heq).imp_left (List.mem_append_left _)
      · exact absurd heq.symm (hnew op (hxs op hop) op' hop' (heq ▸ hbatch))
    · rcases hadded with rfl | rfl
      · rcases List.mem_append.1 hop' with hop' | hop'
        · exact absurd heq (hnew op' hop' op hop hbatch)
        · exact Or.inl (List.mem_append_right _ hop')
      · exact absurd hop List.not_mem_nil
  have hold : ∀ op ∈ client.pendingOps, op ∈ s.created := fun op hop => h.sub.subset hop
  have hadd : added.Sublist ops := by
    rcases hadded with rfl | rfl
    · exact List.Sublist.refl _
    · exact List.nil_sublist _
  have hunmarked : ∀ op ∈ added, client.inFlightOps.lookup op.id = none := by
    intro op hop
    by_contra hsome
    exact hids op (hadd.subset hop) (h.marked op.id (Option.ne_none_iff_isSome.1 hsome))
  refine ⟨hcreated ▸ h.sub.append hadd, hwhole hold h.whole,
    fun op hop op' hop' hbatch heq => ?_, fun id hid => ?_, fun chunk hchunk => ?_⟩
  · rcases List.mem_append.1 hop with hop | hop
    · rcases List.mem_append.1 hop' with hop' | hop'
      · exact h.marks op hop op' hop' hbatch heq
      · exact absurd heq.symm (hnew op (hold op hop) op' (hadd.subset hop') (heq ▸ hbatch))
    · rcases List.mem_append.1 hop' with hop' | hop'
      · exact absurd heq (hnew op' (hold op' hop') op (hadd.subset hop) hbatch)
      · exact (hunmarked op hop).trans (hunmarked op' hop').symm
  · rw [hcreated, List.map_append]
    exact List.mem_append_left _ (h.marked id hid)
  · rcases h.chunks chunk hchunk with ⟨hsub, hchunkWhole, hkeeps⟩
    refine ⟨hcreated ▸ hsub.trans (List.sublist_append_left _ _), ?_, ?_⟩
    · intro op hop hbatch op' hop' heq
      rw [hcreated] at hop'
      rw [hfate]
      rcases List.mem_append.1 hop' with hop' | hop'
      · exact hchunkWhole op hop hbatch op' hop' heq
      · exact absurd heq.symm (hnew op (hsub.subset hop) op' hop' (heq ▸ hbatch))
    · intro op hop hbatch op' hop' heq
      rcases List.mem_append.1 hop' with hop' | hop'
      · exact hkeeps op hop hbatch op' hop' heq
      · exact absurd heq.symm (hnew op (hsub.subset hop) op' (hadd.subset hop') (heq ▸ hbatch))

end ClientWhole

/-! ## Steps of the clients and the wire -/

theorem FormsBatch.same {created ops : List ClientOp} (h : FormsBatch created ops) :
    ∀ op ∈ ops, op.batch.isSome → ∀ op' ∈ ops, op'.batch = op.batch := by
  intro op hop hbatch op' hop'
  rcases h with ⟨hnone, -⟩ | hbatches
  · rw [ClientOp.batch, hnone op hop] at hbatch
    cases hbatch
  · exact ClientOp.batch_congr ((hbatches op hop).2.1 op' hop')

theorem FormsBatch.new {created ops : List ClientOp} (h : FormsBatch created ops) :
    ∀ old ∈ created, ∀ op ∈ ops, op.batch.isSome → old.batch ≠ op.batch := by
  intro old hold op hop hbatch heq
  rcases h with ⟨hnone, -⟩ | hbatches
  · rw [ClientOp.batch, hnone op hop] at hbatch
    cases hbatch
  · exact (hbatches op hop).2.2 old hold (ClientOp.batchId_congr (heq ▸ hbatch) heq)

/-- The ops of one creation, in order, at the end of the queue. -/
theorem foldlM_stepCreate {c : Nat} (ops : List ClientOp) :
    ∀ {s s' : OpState}, ops.foldlM (fun s op => stepCreate s c op) s = some s' →
      s' = { s.setClient c
          { s.clients c with pendingOps := (s.clients c).pendingOps ++ ops } with
        created := s.created ++ ops } ∧ ∀ op ∈ ops, op.id ∉ s.created.map (·.id) := by
  induction ops with
  | nil =>
      intro s s' h
      cases h
      refine ⟨?_, fun op hop => absurd hop List.not_mem_nil⟩
      simp
  | cons op ops ih =>
      intro s s' h
      rw [List.foldlM_cons] at h
      rcases Option.bind_eq_some_iff.1 h with ⟨s₁, hstep, hrest⟩
      rcases Option.ite_none_right_eq_some.1 hstep with ⟨hfresh, hs₁⟩
      cases hs₁
      rcases ih hrest with ⟨rfl, hids⟩
      refine ⟨by simp [PushState.addPendingOp, List.append_assoc], fun op' hop' => ?_⟩
      rcases List.mem_cons.1 hop' with rfl | hop'
      · intro hin
        rcases List.mem_map.1 hin with ⟨old, hold, hid⟩
        exact hfresh old hold hid
      · have hout := hids op' hop'
        rw [List.map_append] at hout
        exact fun hin => hout (List.mem_append_left _ hin)

namespace WireWhole

theorem start : WireWhole OpState.start where
  nodup := List.nodup_nil
  contiguous := contiguous_nil
  clients c := by
    refine ⟨List.Sublist.refl _, fun op hop => absurd hop List.not_mem_nil,
      fun op hop => absurd hop List.not_mem_nil, fun id hid => ?_,
      fun chunk hchunk => absurd hchunk List.not_mem_nil⟩
    simp [OpState.start, PushState.empty] at hid
  messages m hm := absurd hm List.not_mem_nil

theorem create (h : WireWhole s) {c : Nat} {ops : List ClientOp}
    (hforms : FormsBatch s.created ops)
    (hnodup : (s'.created.map (·.id)).Nodup)
    (hs : ops.foldlM (fun s op => stepCreate s c op) s = some s') : WireWhole s' := by
  rcases foldlM_stepCreate ops hs with ⟨hs', hids⟩
  have hcreated : s'.created = s.created ++ ops := by rw [hs']
  have hfate : s'.fate = s.fate := by
    rw [hs']
    rfl
  have hmessages : s'.messages = s.messages := by
    rw [hs']
    rfl
  have hclients : s'.clients = Function.update s.clients c
      { s.clients c with pendingOps := (s.clients c).pendingOps ++ ops } := by
    rw [hs']
    rfl
  refine ⟨hnodup, ?_, fun c' => ?_, fun m hm => ?_⟩
  · rw [hcreated]
    refine h.contiguous.append (fun x hx y hy => ?_) fun x hx y hy hsome =>
      hforms.new x hx y hy hsome
    rcases hforms with ⟨hnone, -⟩ | hbatches
    · rw [ClientOp.batch, ClientOp.batch, hnone x hx, hnone y hy]
    · exact ClientOp.batch_congr ((hbatches y hy).2.1 x hx)
  · rw [hclients]
    by_cases hc : c' = c
    · subst hc
      rw [Function.update_self]
      exact (h.clients c').create hforms.new hforms.same hids hcreated hfate (Or.inl rfl)
    · rw [Function.update_of_ne hc]
      have hadd :=
        (h.clients c').create hforms.new hforms.same hids hcreated hfate (Or.inr rfl)
      rwa [List.append_nil] at hadd
  · rw [hmessages] at hm
    rcases h.messages m hm with ⟨hsub, hwhole⟩
    refine ⟨hcreated ▸ hsub.trans (List.sublist_append_left _ _),
      fun op hop hbatch op' hop' heq => ?_⟩
    rw [hcreated] at hop'
    rw [hfate]
    rcases List.mem_append.1 hop' with hop' | hop'
    · exact hwhole op hop hbatch op' hop' heq
    · exact absurd heq.symm (hforms.new op (hsub.subset hop) op' hop' (heq ▸ hbatch))

theorem setClient (h : WireWhole s) {c : Nat} (hclient : ClientWhole s client) :
    WireWhole (s.setClient c client) where
  nodup := h.nodup
  contiguous := h.contiguous
  clients c' := by
    refine ClientWhole.mono (s := s) ?_ rfl fun _ hid => hid
    by_cases hc : c' = c
    · subst hc
      simpa using hclient
    · simpa [Function.update_of_ne hc] using h.clients c'
  messages := h.messages

theorem send (h : WireWhole s) {c now : Nat} {arrives threw : Bool}
    (hs : stepSend s c now arrives threw = some s') : WireWhole s' := by
  unfold stepSend at hs
  split at hs
  · cases hs
  · rename_i chunk rest hchunks
    cases hs
    have hchunk : chunk ∈ (s.clients c).chunks := hchunks ▸ List.mem_cons_self
    have hclient : ClientWhole s (if threw then (s.clients c).failedChunk chunk
        else (s.clients c).sentChunk chunk rest now) := by
      cases threw with
      | true => exact (h.clients c).failedChunk h.nodup hchunk
      | false => exact (h.clients c).sentChunk h.nodup hchunks now
    have hnew := h.setClient (c := c) hclient
    refine ⟨hnew.nodup, hnew.contiguous, fun c' => (hnew.clients c').mono rfl fun _ hid => hid,
      fun m hm => ?_⟩
    cases arrives with
    | false => exact h.messages m hm
    | true =>
        rcases List.mem_append.1 hm with hm | hm
        · exact h.messages m hm
        · rw [List.mem_singleton.1 hm]
          have hold := (h.clients c).chunks chunk hchunk
          exact ⟨hold.1, hold.2.1⟩

end WireWhole

end Server
end Reflectdb
