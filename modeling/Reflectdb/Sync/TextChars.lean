import Reflectdb.Client.TextBinding

/-!
# Text characters — one character in the texts of one binding

What a binding has beyond the text that it is based on, the server does not have yet.  The lemmas
say so of one character after each step of the binding, from `stored`, whether the server's text has
the character, and `merged`, whether the edit in flight is merged.
-/

namespace Reflectdb
namespace Sync

open Core Client

variable {γ : Type}

/-! ## Between the steps of a binding -/

/-- What is kept of a binding between its steps: whether an edit is in flight, and that the edit
changes the text for the code if it changes it. -/
structure BindingShape (unit : γ → UInt16) (b : TextBinding γ) : Prop where
  idle : b.flight = 0 ↔ b.opId = none
  absent : b.ready = false → b.opId = none
  sent : b.opId ≠ none → b.sent = b.shadow ∨ sameText unit b.sent b.shadow = false

/-- A pump merges cleanly, and a row that arrives meets typing that differs from the shadow to the
code if it differs. -/
def PumpsCleanly (unit : γ → UInt16) (b : TextBinding γ) (view : TextView γ) : Prop :=
  match b.mergeBase unit view with
  | some base => MergesCleanly unit base view.server b.localText
  | none => b.ready = false → b.localText = b.shadow

instance [DecidableEq γ] (unit : γ → UInt16) (b : TextBinding γ) (view : TextView γ) :
    Decidable (PumpsCleanly unit b view) :=
  match hbase : b.mergeBase unit view with
  | some base =>
    decidable_of_iff (MergesCleanly unit base view.server b.localText) (by rw [PumpsCleanly, hbase])
  | none =>
    decidable_of_iff (b.ready = false → b.localText = b.shadow) (by rw [PumpsCleanly, hbase])

/-- The edit in flight is the same one, on the same text. -/
structure SameFlight (b b' : TextBinding γ) : Prop where
  opId : b'.opId = b.opId
  flight : b'.flight = b.flight
  sent : b'.sent = b.sent
  shadow : b'.shadow = b.shadow

section BindingShape

variable {unit : γ → UInt16} {b : TextBinding γ}

theorem BindingShape.empty : BindingShape unit (TextBinding.empty : TextBinding γ) where
  idle := by simp [TextBinding.empty]
  absent := by simp [TextBinding.empty]
  sent := by simp [TextBinding.empty]

theorem BindingShape.set (h : BindingShape unit b) (next : List γ) :
    BindingShape unit (b.set next) :=
  ⟨h.idle, h.absent, h.sent⟩

theorem BindingShape.remove (h : BindingShape unit b) : BindingShape unit b.remove :=
  ⟨h.idle, h.absent, h.sent⟩

/-- What a flush sends is the shadow, for a removal, or differs from it. -/
theorem BindingShape.flush (hsends : b.sends unit = true)
    (hremoving : b.removing = true → b.localText = b.shadow) {n : Nat} (hn : n ≠ 0)
    (opId : String) {removing : Bool} :
    BindingShape unit
      { b with removing := removing, flight := n, sent := b.localText, opId := some opId } := by
  simp only [TextBinding.sends, decide_eq_true_eq, Bool.not_eq_true'] at hsends
  refine ⟨by simp [hn], fun hready => ?_, fun _ => ?_⟩
  · rw [hsends.2.1] at hready
    cases hready
  · rcases hsends.2.2 with hrem | hdiffers
    · exact .inl (hremoving hrem)
    · exact .inr hdiffers

/-- A pump keeps the edit in flight, or there is none after it, and it has taken it for merged. -/
theorem pumpRow_flight (h : BindingShape unit b) (view : TextView γ) :
    b.pumpRow unit view = b ∨
      (b.pumpRow unit view).opId = none ∧ (b.pumpRow unit view).flight = 0 ∧
        (b.opId ≠ none → b.settles view = true) := by
  unfold TextBinding.pumpRow
  split
  · rename_i hready
    split
    · exact .inl rfl
    · rename_i hseen
      have hsettles : b.opId ≠ none → b.settles view = true := by
        intro hop
        have hflight : b.flight ≠ 0 := fun hzero => hop (h.idle.1 hzero)
        simp only [TextBinding.settles, hready, decide_eq_true_eq]
        exact ⟨trivial, hflight, not_lt.1 fun hlt => hseen ⟨hflight, hlt⟩⟩
      right
      dsimp only
      split <;> exact ⟨rfl, rfl, hsettles⟩
  · rename_i hready
    have hop := h.absent (by simpa using hready)
    exact .inr ⟨hop, h.idle.2 hop, fun hne => absurd hop hne⟩

/-- A pump's merge is on the shadow or on what was sent. -/
theorem mergeBase_eq {view : TextView γ} {base : List γ} (h : b.mergeBase unit view = some base) :
    base = b.sent ∨ base = b.shadow := by
  unfold TextBinding.mergeBase at h
  split at h
  · split at h
    · cases h
    · rcases Option.ite_none_right_eq_some.1 h with ⟨-, hbase⟩
      obtain rfl := Option.some.inj hbase
      split
      · exact .inl rfl
      · exact .inr rfl
  · rcases Option.ite_none_left_eq_some.1 h with ⟨-, hbase⟩
    exact .inr (Option.some.inj hbase).symm

/-- A pump brings no characters but the server's. -/
theorem mem_pumpRow [DecidableEq γ] {view : TextView γ} (hclean : PumpsCleanly unit b view) {t : γ}
    (h : t ∈ (b.pumpRow unit view).shadow ∨ t ∈ (b.pumpRow unit view).localText ∨
      t ∈ (b.pumpRow unit view).sent) :
    t ∈ view.server ∨ t ∈ b.shadow ∨ t ∈ b.localText ∨ t ∈ b.sent := by
  have hmerge : ∀ {base}, b.mergeBase unit view = some base →
      t ∈ merge3 unit base view.server b.localText →
        t ∈ view.server ∨ t ∈ b.shadow ∨ t ∈ b.localText ∨ t ∈ b.sent := by
    intro base hbase hin
    rw [PumpsCleanly, hbase] at hclean
    rcases mem_of_mem_merge3 hclean hin with hold | hserver | hlocal
    · rcases mergeBase_eq hbase with rfl | rfl
      · exact .inr (.inr (.inr hold))
      · exact .inr (.inl hold)
    · exact .inl hserver
    · exact .inr (.inr (.inl hlocal))
  unfold TextBinding.pumpRow at h
  split at h
  · split at h
    · exact .inr h
    · dsimp only at h
      split at h
      · rename_i base hbase
        rcases h with hin | hin | hin
        · exact .inl hin
        · exact hmerge hbase hin
        · exact .inr (.inr (.inr hin))
      · exact .inr h
  · split at h
    · rename_i base hbase
      rcases h with hin | hin | hin
      · exact .inl hin
      · exact hmerge hbase hin
      · exact .inr (.inr (.inr hin))
    · rcases h with hin | hin | hin
      · exact .inl hin
      · exact .inl hin
      · exact .inr (.inr (.inr hin))

theorem BindingShape.of_idle (hop : b.opId = none) (hflight : b.flight = 0) :
    BindingShape unit b where
  idle := ⟨fun _ => hop, fun _ => hflight⟩
  absent := fun _ => hop
  sent := fun hne => absurd hop hne

theorem BindingShape.pumpRow (h : BindingShape unit b) (view : TextView γ) :
    BindingShape unit (b.pumpRow unit view) := by
  rcases pumpRow_flight h view with heq | ⟨hop, hflight, -⟩
  · rwa [heq]
  · exact .of_idle hop hflight

theorem BindingShape.pumpAbsent (h : BindingShape unit b) (hflight : b.flight = 0) :
    BindingShape unit b.pumpAbsent :=
  .of_idle (h.idle.1 hflight) rfl

/-- A reject keeps the binding, or it is of the edit in flight, which is given up. -/
theorem onRejected_flight (b : TextBinding γ) (opId : String) (reason : TextRefusal) :
    b.onRejected opId reason = b ∨
      b.opId = some opId ∧ (b.onRejected opId reason).opId = none ∧
        (b.onRejected opId reason).flight = 0 := by
  unfold TextBinding.onRejected
  split
  · exact .inl rfl
  · rename_i hop
    refine .inr ⟨not_not.1 hop, ?_⟩
    split <;> exact ⟨rfl, rfl⟩

theorem BindingShape.onRejected (h : BindingShape unit b) (opId : String) (reason : TextRefusal) :
    BindingShape unit (b.onRejected opId reason) := by
  rcases onRejected_flight b opId reason with heq | ⟨-, hop, hflight⟩
  · rwa [heq]
  · exact .of_idle hop hflight

end BindingShape

/-! ## One character in one binding -/

section BindingChar

variable [DecidableEq γ]

/-- A character in a binding of its column: `stored` says whether the server's text has it, `merged`
whether the edit in flight is merged. -/
structure BindingChar (stored merged : Prop) (b : TextBinding γ) (t : γ) : Prop where
  shadowOnce : b.shadow.count t ≤ 1
  localOnce : b.localText.count t ≤ 1
  sentOnce : b.sent.count t ≤ 1
  known : t ∈ b.shadow → stored
  keeps : b.opId = none → t ∈ b.shadow → t ∈ b.localText
  unsent : b.opId = none → t ∈ b.localText → t ∉ b.shadow → ¬ stored
  sends : b.opId ≠ none → t ∈ b.shadow → t ∈ b.sent
  keepsSent : b.opId ≠ none → t ∈ b.sent → t ∈ b.localText
  since : b.opId ≠ none → t ∈ b.localText → t ∉ b.sent → ¬ stored
  arrived : b.opId ≠ none → merged → t ∈ b.sent → stored
  waiting : b.opId ≠ none → ¬ merged → t ∈ b.sent → t ∉ b.shadow → ¬ stored

variable {stored merged : Prop} {b : TextBinding γ} {t : γ}

/-- With no edit in flight, only the text and the shadow matter. -/
theorem BindingChar.of_idle (hop : b.opId = none) (hshadow : b.shadow.count t ≤ 1)
    (hlocal : b.localText.count t ≤ 1) (hsent : b.sent.count t ≤ 1)
    (hknown : t ∈ b.shadow → stored) (hkeeps : t ∈ b.shadow → t ∈ b.localText)
    (hunsent : t ∈ b.localText → t ∉ b.shadow → ¬ stored) : BindingChar stored merged b t where
  shadowOnce := hshadow
  localOnce := hlocal
  sentOnce := hsent
  known := hknown
  keeps := fun _ => hkeeps
  unsent := fun _ => hunsent
  sends := fun hne => absurd hop hne
  keepsSent := fun hne => absurd hop hne
  since := fun hne => absurd hop hne
  arrived := fun hne => absurd hop hne
  waiting := fun hne => absurd hop hne

/-- A character that is only in what is typed, if anywhere. -/
theorem BindingChar.of_typed (hshadow : t ∉ b.shadow) (hsent : t ∉ b.sent)
    (hlocal : b.localText.count t ≤ 1) (hstored : t ∈ b.localText → ¬ stored) :
    BindingChar stored merged b t where
  shadowOnce := by simp [List.count_eq_zero_of_not_mem hshadow]
  localOnce := hlocal
  sentOnce := by simp [List.count_eq_zero_of_not_mem hsent]
  known := fun ht => absurd ht hshadow
  keeps := fun _ ht => absurd ht hshadow
  unsent := fun _ ht _ => hstored ht
  sends := fun _ ht => absurd ht hshadow
  keepsSent := fun _ ht => absurd ht hsent
  since := fun _ ht _ => hstored ht
  arrived := fun _ _ ht => absurd ht hsent
  waiting := fun _ _ ht => absurd ht hsent

/-! ### Steps of the server -/

/-- The server's text gets characters that are not in the binding's text. -/
theorem BindingChar.mono (h : BindingChar stored merged b t) {stored' merged' : Prop}
    (hstored : stored → stored') (hlocal : t ∈ b.localText → ¬ stored → ¬ stored')
    (hmerged : b.opId ≠ none → (merged' ↔ merged)) : BindingChar stored' merged' b t where
  shadowOnce := h.shadowOnce
  localOnce := h.localOnce
  sentOnce := h.sentOnce
  known := fun ht => hstored (h.known ht)
  keeps := h.keeps
  unsent := fun hop ht hnot => hlocal ht (h.unsent hop ht hnot)
  sends := h.sends
  keepsSent := h.keepsSent
  since := fun hop ht hnot => hlocal ht (h.since hop ht hnot)
  arrived := fun hop hm ht => hstored (h.arrived hop ((hmerged hop).1 hm) ht)
  waiting := fun hop hm ht hnot =>
    hlocal (h.keepsSent hop ht) (h.waiting hop (fun hm' => hm ((hmerged hop).2 hm')) ht hnot)

/-- The server merges the edit in flight. -/
theorem BindingChar.resolved (h : BindingChar stored merged b t) (hop : b.opId ≠ none)
    {stored' merged' : Prop} (hstored : stored' ↔ stored ∨ t ∈ b.sent) (hmerged : merged') :
    BindingChar stored' merged' b t where
  shadowOnce := h.shadowOnce
  localOnce := h.localOnce
  sentOnce := h.sentOnce
  known := fun ht => hstored.2 (.inl (h.known ht))
  keeps := h.keeps
  unsent := fun hnone => absurd hnone hop
  sends := h.sends
  keepsSent := h.keepsSent
  since := fun _ ht hnot hin => (hstored.1 hin).elim (h.since hop ht hnot) hnot
  arrived := fun _ _ ht => hstored.2 (.inr ht)
  waiting := fun _ hnot => absurd hmerged hnot

/-! ### Steps of the binding -/

/-- An edit of other characters. -/
theorem BindingChar.set (h : BindingChar stored merged b t) {next : List γ}
    (hmem : t ∈ next ↔ t ∈ b.localText) (hcount : next.count t ≤ 1) :
    BindingChar stored merged (b.set next) t where
  shadowOnce := h.shadowOnce
  localOnce := hcount
  sentOnce := h.sentOnce
  known := h.known
  keeps := fun hop ht => hmem.2 (h.keeps hop ht)
  unsent := fun hop ht => h.unsent hop (hmem.1 ht)
  sends := h.sends
  keepsSent := fun hop ht => hmem.2 (h.keepsSent hop ht)
  since := fun hop ht => h.since hop (hmem.1 ht)
  arrived := h.arrived
  waiting := h.waiting

/-- The text goes back to the shadow, and loses nothing by it that counts. -/
theorem BindingChar.remove (h : BindingChar stored merged b t)
    (hkeep : t ∈ b.localText → t ∈ b.shadow) : BindingChar stored merged b.remove t where
  shadowOnce := h.shadowOnce
  localOnce := h.shadowOnce
  sentOnce := h.sentOnce
  known := h.known
  keeps := fun _ ht => ht
  unsent := fun _ ht hnot => absurd ht hnot
  sends := h.sends
  keepsSent := fun hop ht => hkeep (h.keepsSent hop ht)
  since := fun hop ht hnot => absurd (h.sends hop ht) hnot
  arrived := h.arrived
  waiting := h.waiting

/-- The edit goes out. -/
theorem BindingChar.flush (h : BindingChar stored merged b t) (hop : b.opId = none) {n : Nat}
    {opId : String} {merged' : Prop} (hmerged : ¬ merged') {removing : Bool} :
    BindingChar stored merged'
      { b with removing := removing, flight := n, sent := b.localText, opId := some opId } t where
  shadowOnce := h.shadowOnce
  localOnce := h.localOnce
  sentOnce := h.localOnce
  known := h.known
  keeps := fun hnone => by cases hnone
  unsent := fun hnone => by cases hnone
  sends := fun _ ht => h.keeps hop ht
  keepsSent := fun _ ht => ht
  since := fun _ ht hnot => absurd ht hnot
  arrived := fun _ hm => absurd hm hmerged
  waiting := fun _ _ ht hnot => h.unsent hop ht hnot

/-- An edit that was refused, to be sent again: the text is based on the shadow as before. -/
theorem BindingChar.refused (h : BindingChar stored merged b t) (hmerged : ¬ merged)
    (hop : b.opId ≠ none) {retries : Nat} :
    BindingChar stored merged { b with flight := 0, opId := none, retries := retries } t := by
  refine .of_idle rfl h.shadowOnce h.localOnce h.sentOnce h.known
    (fun ht => h.keepsSent hop (h.sends hop ht)) fun ht hnot => ?_
  by_cases hsent : t ∈ b.sent
  · exact h.waiting hop hmerged hsent hnot
  · exact h.since hop ht hsent

/-- A text that is put on a version of the row: it has the version's characters and the ones beyond
its base. -/
theorem BindingChar.merge {unit : γ → UInt16} {base server : List γ}
    (h : BindingChar stored merged b t) (hclean : MergesCleanly unit base server b.localText)
    (hserver : server.count t ≤ 1) (hstored : t ∈ server → stored) (hbase : base.count t ≤ 1)
    (hkeeps : t ∈ base → t ∈ b.localText) (hunsent : t ∈ b.localText → t ∉ base → ¬ stored) :
    (t ∈ merge3 unit base server b.localText ↔ t ∈ server ∨ t ∈ b.localText ∧ t ∉ base) ∧
      (merge3 unit base server b.localText).count t ≤ 1 := by
  refine mem_merge3 hclean hbase hserver h.localOnce hkeeps fun hin hlocal => ?_
  by_contra hnot
  exact hunsent hlocal hnot (hstored hin)

/-- The binding after a pump, its text from what it was and what the server has. -/
theorem BindingChar.pumpRow {unit : γ → UInt16} {view : TextView γ}
    (h : BindingChar stored merged b t) (hshape : BindingShape unit b)
    (hclean : PumpsCleanly unit b view)
    (hserver : view.server.count t ≤ 1) (hstored : t ∈ view.server → stored)
    (hsettles : b.settles view = true → merged) :
    BindingChar stored merged (b.pumpRow unit view) t ∧
      (t ∈ (b.pumpRow unit view).localText → stored ∨ t ∈ b.localText) ∧
        (t ∈ b.localText → stored ∨ t ∈ (b.pumpRow unit view).localText) := by
  -- Both ways in which the text is put on the server's text.
  have hadopt : ∀ {base : List γ}, MergesCleanly unit base view.server b.localText →
      base.count t ≤ 1 → (t ∈ base → t ∈ b.localText) →
        (t ∈ b.localText → t ∉ base → ¬ stored) → (t ∈ base → stored) →
          ∀ b' : TextBinding γ, b'.opId = none → b'.shadow = view.server → b'.sent = b.sent →
            b'.localText = merge3 unit base view.server b.localText →
              BindingChar stored merged b' t ∧
                (t ∈ b'.localText → stored ∨ t ∈ b.localText) ∧
                  (t ∈ b.localText → stored ∨ t ∈ b'.localText) := by
    intro base hmerge hbase hkeeps hunsent hknown b' hop hshadow hsent hlocal
    rcases h.merge hmerge hserver hstored hbase hkeeps hunsent with ⟨hiff, hcount⟩
    refine ⟨.of_idle hop (hshadow ▸ hserver) (hlocal ▸ hcount)
      (hsent ▸ h.sentOnce) ?_ ?_ ?_, ?_, ?_⟩
    · rw [hshadow]
      exact hstored
    · rw [hshadow, hlocal, hiff]
      exact .inl
    · rw [hshadow, hlocal, hiff]
      intro ht hnot
      rcases ht with hin | ⟨hin, hout⟩
      · exact absurd hin hnot
      · exact hunsent hin hout
    · rw [hlocal, hiff]
      exact fun ht => ht.imp hstored And.left
    · rw [hlocal, hiff]
      intro ht
      by_cases hin : t ∈ base
      · exact .inl (hknown hin)
      · exact .inr (.inr ⟨ht, hin⟩)
  cases hready : b.ready with
  | false =>
      have hop := hshape.absent hready
      cases hbase : b.mergeBase unit view with
      | some base =>
          have heq : base = b.shadow := by
            simp only [TextBinding.mergeBase, hready] at hbase
            split at hbase <;> simp_all
          subst heq
          rw [PumpsCleanly, hbase] at hclean
          refine hadopt hclean h.shadowOnce (h.keeps hop) (h.unsent hop) h.known _ ?_ ?_ ?_ ?_
          all_goals simp [TextBinding.pumpRow, hready, hbase, hop]
      | none =>
          rw [PumpsCleanly, hbase] at hclean
          have hlocal : b.localText = b.shadow := hclean hready
          have hpump : b.pumpRow unit view =
              { b with ready := true, localText := view.server, shadow := view.server } := by
            simp [TextBinding.pumpRow, hready, hbase]
          rw [hpump]
          refine ⟨.of_idle hop hserver hserver h.sentOnce hstored id
            (fun ht hnot => absurd ht hnot),
            fun ht => .inl (hstored ht), fun ht => .inl (h.known (hlocal ▸ ht))⟩
  | true =>
      by_cases hwait : b.flight ≠ 0 ∧ view.seen < b.flight
      · have hpump : b.pumpRow unit view = b := by
          simp [TextBinding.pumpRow, hready, hwait]
        rw [hpump]
        exact ⟨h, .inr, .inr⟩
      -- The text is based on what was sent, once that is merged, and on the shadow otherwise.
      obtain ⟨base, hbase, honce, hkeeps, hunsent, hknown, hsame⟩ :
          ∃ base, base = (if b.flight ≠ 0 then b.sent else b.shadow) ∧ base.count t ≤ 1 ∧
            (t ∈ base → t ∈ b.localText) ∧ (t ∈ b.localText → t ∉ base → ¬ stored) ∧
              (t ∈ base → stored) ∧ (sameText unit base b.shadow = true → base = b.shadow) := by
        by_cases hflight : b.flight = 0
        · have hop := hshape.idle.1 hflight
          exact ⟨b.shadow, by simp [hflight], h.shadowOnce, h.keeps hop, h.unsent hop, h.known,
            fun _ => rfl⟩
        · have hop : b.opId ≠ none := fun hnone => hflight (hshape.idle.2 hnone)
          have hmerged : merged := hsettles (by
            simp only [TextBinding.settles, hready, decide_eq_true_eq]
            exact ⟨trivial, hflight, by omega⟩)
          refine ⟨b.sent, by simp [hflight], h.sentOnce, h.keepsSent hop, h.since hop,
            h.arrived hop hmerged, fun hsame => ?_⟩
          rcases hshape.sent hop with heq | hdiffers
          · exact heq
          · rw [hdiffers] at hsame
            cases hsame
      by_cases hdiffers : (! sameText unit view.server b.shadow || ! sameText unit base view.server)
          = true
      · have hmergeBase : b.mergeBase unit view = some base := by
          simp only [TextBinding.mergeBase, hready, if_true, if_neg hwait, ← hbase, hdiffers]
        rw [PumpsCleanly, hmergeBase] at hclean
        refine hadopt hclean honce hkeeps hunsent hknown _ ?_ ?_ ?_ ?_
        all_goals simp only [TextBinding.pumpRow, hready, if_true, if_neg hwait, hmergeBase]
      · have hmergeBase : b.mergeBase unit view = none := by
          simp only [TextBinding.mergeBase, hready, if_true, if_neg hwait, ← hbase]
          rw [if_neg hdiffers]
        have hpump : b.pumpRow unit view =
            { b with
              flight := 0, opId := none, retries := if b.flight ≠ 0 then 0 else b.retries } := by
          simp only [TextBinding.pumpRow, hready, if_true, if_neg hwait, hmergeBase]
        -- The server's text is the shadow and what was sent, for the code, and so for the
        -- characters.
        have heq : base = b.shadow := by
          simp only [Bool.or_eq_true, Bool.not_eq_true', not_or, Bool.not_eq_false] at hdiffers
          exact hsame (sameText_trans hdiffers.2 hdiffers.1)
        rw [heq] at hkeeps hunsent
        rw [hpump]
        exact ⟨.of_idle rfl h.shadowOnce h.localOnce h.sentOnce h.known hkeeps hunsent, .inr, .inr⟩

/-- The binding after a reject: it sends the edit again, or gives its text up for the shadow. -/
theorem BindingChar.onRejected (h : BindingChar stored merged b t) {opId : String}
    {reason : TextRefusal} (hmerged : b.opId = some opId → ¬ merged) :
    BindingChar stored merged (b.onRejected opId reason) t ∧
      (t ∈ (b.onRejected opId reason).localText → stored ∨ t ∈ b.localText) := by
  unfold TextBinding.onRejected
  split
  · exact ⟨h, .inr⟩
  · rename_i hop
    have hop : b.opId = some opId := not_not.1 hop
    have hne : b.opId ≠ none := by simp [hop]
    split
    · exact ⟨h.refused (hmerged hop) hne, .inr⟩
    · exact ⟨.of_idle rfl h.shadowOnce h.shadowOnce h.sentOnce h.known id
        (fun ht hnot => absurd ht hnot), fun ht => .inl (h.known ht)⟩

end BindingChar

end Sync
end Reflectdb
