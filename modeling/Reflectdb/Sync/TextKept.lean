import Mathlib.Data.Fintype.Basic
import Reflectdb.Sync.TextChars
import Reflectdb.Sync.TextSync

/-!
# Text kept — no typed character is lost or doubled

Under a condition on each step, the text that is stored has every typed character that nobody
dropped exactly once when nothing is unsent, and a binding takes only merged edits for merged.  The
invariant follows one character through the texts of its column: what a binding has beyond the text
it is based on, the server does not have yet.
-/

namespace Reflectdb
namespace Sync

open Core Client

variable {γ ι : Type} (cfg : TextConfig γ ι)

/-! ## The property -/

/-- Nothing is unsent or on its way. -/
def AllSettled (s : TextState γ ι) : Prop :=
  ∀ b, (s.bindings b).flight = 0 ∧ (s.bindings b).localText = (s.bindings b).shadow

/-- A binding takes an edit for merged only if it was, and the stored text has the typed characters
once nothing is unsent. -/
structure TextKept [DecidableEq γ] (s : TextState γ ι) : Prop where
  settled : ∀ opId ∈ s.settled, opId ∈ s.merged
  stored : AllSettled s → ∀ e ∈ s.typed, e.2 ∉ s.dropped → (s.row.textOf e.1).count e.2 = 1

/-! ## The condition -/

/-- No other binding of the op's client waits for an older edit that is not merged. -/
def InOrder (s : TextState γ ι) (op : TextOp γ) : Prop :=
  ∀ b opId, cfg.writer b = op.edit.who → (s.bindings b).opId = some opId → opId ∉ s.merged →
    opId ≠ op.id → op.edit.n < (s.bindings b).flight

/-- The diffs see the characters and the merges are clean; a removal goes out with nothing typed
since; the server merges no edit before an older one of the same client; and the row does not leave
the store while an edit is in flight. -/
def TextGuard [DecidableEq γ] (s : TextState γ ι) : TextEvent γ ι → Prop
  | .flush b _ =>
    (s.bindings b).sends cfg.unit = true →
      if (s.bindings b).removing then (s.bindings b).localText = (s.bindings b).shadow
      else DiffFollows cfg.unit (s.bindings b).localText (s.bindings b).shadow
  | .resolve opId =>
    ∀ op ∈ s.wire, op.id = opId → InOrder cfg s op ∧
      ∀ e ∈ op.edit.edits, MergesCleanly cfg.unit (applyHunks e.2.value e.2.back)
        (s.row.textOf e.1) e.2.value
  | .pump b i j => ∀ view ∈ s.view cfg b i j, PumpsCleanly cfg.unit (s.bindings b) view
  | .pumpAbsent b => (s.bindings b).flight = 0
  | _ => True

instance [Fintype ι] (s : TextState γ ι) (op : TextOp γ) : Decidable (InOrder cfg s op) :=
  decidable_of_iff (∀ b, ∀ opId ∈ (s.bindings b).opId, cfg.writer b = op.edit.who →
      opId ∉ s.merged → opId ≠ op.id → op.edit.n < (s.bindings b).flight)
    ⟨fun h b opId hwho hop => h b opId hop hwho, fun h b opId hop hwho => h b opId hwho hop⟩

instance [Fintype ι] [DecidableEq γ] (s : TextState γ ι) :
    ∀ e : TextEvent γ ι, Decidable (TextGuard cfg s e)
  | .flush _ _ => inferInstanceAs (Decidable (_ = true → ite _ _ _))
  | .resolve _ => inferInstanceAs (Decidable (∀ op ∈ _, _ → InOrder cfg s op ∧ ∀ _ ∈ _, _))
  | .pump _ _ _ => inferInstanceAs (Decidable (∀ _ ∈ _, PumpsCleanly _ _ _))
  | .pumpAbsent _ => inferInstanceAs (Decidable (_ = _))
  | .set _ _ | .remove _ | .otherWrite _ | .refuse _ _ | .rejected _ _ _ =>
    inferInstanceAs (Decidable True)

/-! ## Ops and bindings -/

/-- The op is the edit that the binding has in flight. -/
structure Carries (b : ι) (binding : TextBinding γ) (op : TextOp γ) : Prop where
  id : binding.opId = some op.id
  who : op.edit.who = cfg.writer b
  number : op.edit.n = binding.flight
  edits : op.edit.edits = [] ∧ binding.sent = binding.shadow ∨
    ∃ change : TextChange γ, op.edit.edits = [(cfg.column b, change)] ∧ op.edit.remove = none ∧
      change.value = binding.sent ∧ applyHunks change.value change.back = binding.shadow

/-- Each op on its way is the edit in flight of one binding, and is neither merged nor refused. -/
structure OpsInv (s : TextState γ ι) : Prop where
  shape : ∀ b, BindingShape cfg.unit (s.bindings b)
  used : ∀ b opId, (s.bindings b).opId = some opId → opId ∈ s.opIds
  distinct : ∀ b b' opId, (s.bindings b).opId = some opId →
    (s.bindings b').opId = some opId → b = b'
  carried : ∀ op ∈ s.wire, ∃ b, Carries cfg b (s.bindings b) op
  unmerged : ∀ op ∈ s.wire, op.id ∉ s.merged ∧ ∀ r ∈ s.refused, r.1 ≠ op.id
  mergedUsed : ∀ opId ∈ s.merged, opId ∈ s.opIds
  refusedUsed : ∀ r ∈ s.refused, r.1 ∈ s.opIds ∧ r.1 ∉ s.merged

section OpsInv

variable {cfg} {s : TextState γ ι}

theorem Carries.of_sameFlight {b : ι} {binding binding' : TextBinding γ} {op : TextOp γ}
    (h : Carries cfg b binding op) (hsame : SameFlight binding binding') :
    Carries cfg b binding' op where
  id := hsame.opId.trans h.id
  who := h.who
  number := h.number.trans hsame.flight.symm
  edits := by
    rw [hsame.sent, hsame.shadow]
    exact h.edits

/-- The op that the server takes off the wire is the edit of a binding. -/
theorem OpsInv.opId_mem (h : OpsInv cfg s) {op : TextOp γ} (hop : op ∈ s.wire) :
    op.id ∈ s.opIds := by
  rcases h.carried op hop with ⟨b, hcarries⟩
  exact h.used b op.id hcarries.id

/-- The server merges an op. -/
theorem OpsInv.resolve (h : OpsInv cfg s) {op : TextOp γ} (hop : op ∈ s.wire) {row : TextRow γ}
    {versions : List (TextRow γ)} :
    OpsInv cfg { s with
      wire := s.wire.filter (·.id ≠ op.id), row := row, versions := versions
      merged := op.id :: s.merged } where
  shape := h.shape
  used := h.used
  distinct := h.distinct
  carried := fun other hother => h.carried other (List.mem_filter.1 hother).1
  unmerged := by
    intro other hother
    rcases List.mem_filter.1 hother with ⟨hin, hne⟩
    refine ⟨fun hmem => ?_, (h.unmerged other hin).2⟩
    rcases List.mem_cons.1 hmem with heq | hmem
    · simp [heq] at hne
    · exact (h.unmerged other hin).1 hmem
  mergedUsed := by
    intro id hid
    rcases List.mem_cons.1 hid with rfl | hid
    · exact h.opId_mem hop
    · exact h.mergedUsed id hid
  refusedUsed := by
    intro r hr
    refine ⟨(h.refusedUsed r hr).1, fun hmem => ?_⟩
    rcases List.mem_cons.1 hmem with heq | hmem
    · exact (h.unmerged op hop).2 r hr heq
    · exact (h.refusedUsed r hr).2 hmem

/-- The server refuses an op. -/
theorem OpsInv.refuse (h : OpsInv cfg s) {op : TextOp γ} (hop : op ∈ s.wire)
    {reason : TextRefusal} :
    OpsInv cfg { s with
      wire := s.wire.filter (·.id ≠ op.id), refused := (op.id, reason) :: s.refused } where
  shape := h.shape
  used := h.used
  distinct := h.distinct
  carried := fun other hother => h.carried other (List.mem_filter.1 hother).1
  unmerged := by
    intro other hother
    rcases List.mem_filter.1 hother with ⟨hin, hne⟩
    refine ⟨(h.unmerged other hin).1, fun r hr heq => ?_⟩
    rcases List.mem_cons.1 hr with rfl | hr
    · simp [← heq] at hne
    · exact (h.unmerged other hin).2 r hr heq
  mergedUsed := h.mergedUsed
  refusedUsed := by
    intro r hr
    rcases List.mem_cons.1 hr with rfl | hr
    · exact ⟨h.opId_mem hop, (h.unmerged op hop).1⟩
    · exact h.refusedUsed r hr

variable [DecidableEq ι]

/-- The ops that are on their way, refused and merged, and the bindings, are all that counts. -/
theorem OpsInv.update (h : OpsInv cfg s) {b : ι} {binding : TextBinding γ}
    (hshape : BindingShape cfg.unit binding)
    (hsame : binding.opId ≠ none → SameFlight (s.bindings b) binding)
    (hdone : binding.opId = none → ∀ op ∈ s.wire, (s.bindings b).opId ≠ some op.id) :
    OpsInv cfg (s.update b binding) where
  shape := by
    intro b'
    by_cases hb : b' = b
    · subst hb
      simpa [TextState.update] using hshape
    · simpa [TextState.update, hb] using h.shape b'
  used := by
    intro b' opId hop
    by_cases hb : b' = b
    · subst hb
      simp only [TextState.update, Function.update_self] at hop
      exact h.used b' opId ((hsame (by simp [hop])).opId ▸ hop)
    · simp only [TextState.update, Function.update_of_ne hb] at hop
      exact h.used b' opId hop
  distinct := by
    have hold : ∀ b' opId, ((s.update b binding).bindings b').opId = some opId →
        (s.bindings b').opId = some opId := by
      intro b' opId hop
      by_cases hb : b' = b
      · subst hb
        simp only [TextState.update, Function.update_self] at hop
        exact (hsame (by simp [hop])).opId ▸ hop
      · simpa only [TextState.update, Function.update_of_ne hb] using hop
    exact fun b₁ b₂ opId h₁ h₂ => h.distinct b₁ b₂ opId (hold _ _ h₁) (hold _ _ h₂)
  carried := by
    intro op hop
    rcases h.carried op hop with ⟨b', hcarries⟩
    refine ⟨b', ?_⟩
    by_cases hb : b' = b
    · subst hb
      simp only [TextState.update, Function.update_self]
      exact hcarries.of_sameFlight (hsame fun hnone => hdone hnone op hop hcarries.id)
    · simpa only [TextState.update, Function.update_of_ne hb] using hcarries
  unmerged := h.unmerged
  mergedUsed := h.mergedUsed
  refusedUsed := h.refusedUsed

/-- An edit goes out, under an id of its own. -/
theorem OpsInv.flush (h : OpsInv cfg s) {b : ι} {opId : String} {n : Nat} (hn : n ≠ 0)
    (hsends : (s.bindings b).sends cfg.unit = true)
    (hremoving : (s.bindings b).removing = true →
      (s.bindings b).localText = (s.bindings b).shadow)
    (hfollows : (s.bindings b).removing = false →
      DiffFollows cfg.unit (s.bindings b).localText (s.bindings b).shadow)
    (hfresh : opId ∉ s.opIds) {binding : TextBinding γ}
    (hbinding : binding = { s.bindings b with
      removing := false, flight := n, sent := (s.bindings b).localText, opId := some opId })
    {writes : Lib.Text → Nat} :
    OpsInv cfg { s.update b binding with
      writes := writes
      wire := s.wire ++ [⟨opId, (s.bindings b).edit cfg.unit (cfg.writer b) n (cfg.column b)⟩]
      opIds := opId :: s.opIds } := by
  have hidle : (s.bindings b).opId = none := by
    simp only [TextBinding.sends, decide_eq_true_eq] at hsends
    exact (h.shape b).idle.1 hsends.1
  -- The id is new, so no other binding and no op has it.
  have hother : ∀ b' id, ((s.update b binding).bindings b').opId = some id →
      b' = b ∧ id = opId ∨ b' ≠ b ∧ (s.bindings b').opId = some id := by
    intro b' id hop
    by_cases hb : b' = b
    · subst hb
      simp only [TextState.update, Function.update_self, hbinding, Option.some.injEq] at hop
      exact .inl ⟨rfl, hop.symm⟩
    · simp only [TextState.update, Function.update_of_ne hb] at hop
      exact .inr ⟨hb, hop⟩
  have hcarried : ∀ b' op, Carries cfg b' (s.bindings b') op →
      Carries cfg b' ((s.update b binding).bindings b') op := by
    intro b' op hcarries
    have hb : b' ≠ b := by
      intro heq
      have hid := hcarries.id
      rw [heq, hidle] at hid
      cases hid
    simpa only [TextState.update, Function.update_of_ne hb] using hcarries
  refine ⟨?_, ?_, ?_, ?_, ?_, ?_, ?_⟩
  · intro b'
    by_cases hb : b' = b
    · subst hb
      simp only [TextState.update, Function.update_self, hbinding]
      exact .flush hsends hremoving hn opId
    · simpa only [TextState.update, Function.update_of_ne hb] using h.shape b'
  · intro b' id hop
    rcases hother b' id hop with ⟨-, rfl⟩ | ⟨-, hold⟩
    · exact List.mem_cons_self
    · exact List.mem_cons_of_mem _ (h.used b' id hold)
  · intro b₁ b₂ id h₁ h₂
    rcases hother b₁ id h₁ with ⟨rfl, rfl⟩ | ⟨-, hold₁⟩
    · rcases hother b₂ _ h₂ with ⟨rfl, -⟩ | ⟨-, hold₂⟩
      · rfl
      · exact absurd (h.used b₂ _ hold₂) hfresh
    · rcases hother b₂ _ h₂ with ⟨rfl, rfl⟩ | ⟨-, hold₂⟩
      · exact absurd (h.used b₁ _ hold₁) hfresh
      · exact h.distinct b₁ b₂ id hold₁ hold₂
  · intro op hop
    rcases List.mem_append.1 hop with hold | hnew
    · rcases h.carried op hold with ⟨b', hcarries⟩
      exact ⟨b', hcarried b' op hcarries⟩
    · obtain rfl := List.mem_singleton.1 hnew
      refine ⟨b, ?_⟩
      simp only [TextState.update, Function.update_self, hbinding]
      cases hrem : (s.bindings b).removing with
      | true =>
          refine ⟨rfl, ?_, ?_, .inl ⟨?_, hremoving hrem⟩⟩
          all_goals simp [TextBinding.edit, hrem]
      | false =>
          refine ⟨rfl, ?_, ?_, .inr ⟨⟨(s.bindings b).localText,
            diffText cfg.unit (s.bindings b).localText (s.bindings b).shadow⟩, ?_, ?_, rfl,
            (hfollows hrem).applies⟩⟩
          all_goals simp [TextBinding.edit, hrem]
  · intro op hop
    rcases List.mem_append.1 hop with hold | hnew
    · exact h.unmerged op hold
    · obtain rfl := List.mem_singleton.1 hnew
      exact ⟨fun hin => hfresh (h.mergedUsed _ hin),
        fun r hr (heq : r.1 = opId) => hfresh (heq ▸ (h.refusedUsed r hr).1)⟩
  · exact fun id hid => List.mem_cons_of_mem _ (h.mergedUsed id hid)
  · exact fun r hr => ⟨List.mem_cons_of_mem _ (h.refusedUsed r hr).1, (h.refusedUsed r hr).2⟩

end OpsInv

/-! ## Marks -/

/-- A row has a mark of a binding's client at or past its edit in flight only once that edit is
merged. -/
structure MarksInv (s : TextState γ ι) : Prop where
  row : s.row ∈ s.versions
  numbers : ∀ version ∈ s.versions, ∀ mark ∈ version.seen, mark.2 ≤ s.writes mark.1
  flights : ∀ b, (s.bindings b).flight ≤ s.writes (cfg.writer b)
  waits : ∀ version ∈ s.versions, ∀ b opId, (s.bindings b).opId = some opId → opId ∉ s.merged →
    ∀ mark ∈ version.seen, mark.1 = cfg.writer b → mark.2 < (s.bindings b).flight

section MarksInv

variable {cfg} {s : TextState γ ι}

/-- The marks after a merge are the ones before it, and the edit's own. -/
theorem mem_recordSeen {seen : List (Lib.Text × Nat)} {who : Lib.Text} {n : Nat}
    {mark : Lib.Text × Nat} (h : mark ∈ recordSeen seen who n) : mark ∈ seen ∨ mark = (who, n) := by
  rcases List.mem_append.1 (List.mem_of_mem_drop h) with hold | hnew
  · exact .inl (List.mem_filter.1 hold).1
  · exact .inr (List.mem_singleton.1 hnew)

/-- The mark of an edit that comes in order is below the edits that its client waits for. -/
theorem MarksInv.resolve (h : MarksInv cfg s) (hops : OpsInv cfg s) {op : TextOp γ}
    (hop : op ∈ s.wire) (horder : InOrder cfg s op) {row : TextRow γ}
    (hseen : ∀ mark ∈ row.seen, mark ∈ s.row.seen ∨ mark = (op.edit.who, op.edit.n))
    {wire : List (TextOp γ)} :
    MarksInv cfg { s with
      wire := wire, row := row, versions := s.versions ++ [row], merged := op.id :: s.merged } := by
  rcases hops.carried op hop with ⟨carrier, hcarries⟩
  have hmarks : ∀ version ∈ s.versions ++ [row], ∀ mark ∈ version.seen,
      (∃ old ∈ s.versions, mark ∈ old.seen) ∨ mark = (op.edit.who, op.edit.n) := by
    intro version hversion mark hmark
    rcases List.mem_append.1 hversion with hold | hnew
    · exact .inl ⟨version, hold, hmark⟩
    · obtain rfl := List.mem_singleton.1 hnew
      exact (hseen mark hmark).imp_left fun hin => ⟨s.row, h.row, hin⟩
  refine ⟨List.mem_append_right _ List.mem_cons_self, fun version hversion mark hmark => ?_,
    h.flights, fun version hversion b opId hb hmerged mark hmark hwho => ?_⟩
  · rcases hmarks version hversion mark hmark with ⟨old, hold, hin⟩ | rfl
    · exact h.numbers old hold mark hin
    · rw [hcarries.who, hcarries.number]
      exact h.flights carrier
  · have hmerged' : opId ≠ op.id ∧ opId ∉ s.merged := not_or.1 fun hor => hmerged (by
      rcases hor with heq | hin
      · exact heq ▸ List.mem_cons_self
      · exact List.mem_cons_of_mem _ hin)
    rcases hmarks version hversion mark hmark with ⟨old, hold, hin⟩ | rfl
    · exact h.waits old hold b opId hb hmerged'.2 mark hin hwho
    · exact horder b opId hwho.symm hb hmerged'.2 hmerged'.1

/-- What a store shows is the text of one version and the mark of another. -/
theorem exists_of_view {b : ι} {i j : Nat} {view : TextView γ} (h : s.view cfg b i j = some view) :
    ∃ shown ∈ s.versions, ∃ marked ∈ s.versions,
      view = ⟨shown.textOf (cfg.column b), marked.mark (cfg.writer b)⟩ := by
  unfold TextState.view at h
  split at h
  · rename_i shown marked hi hj
    exact ⟨shown, List.mem_of_getElem? hi, marked, List.mem_of_getElem? hj,
      (Option.some.inj h).symm⟩
  · cases h

/-- A binding takes an edit for merged only once it is. -/
theorem MarksInv.merged_of_settles (h : MarksInv cfg s) (hops : OpsInv cfg s) {b : ι} {i j : Nat}
    {view : TextView γ} (hview : s.view cfg b i j = some view)
    (hsettles : (s.bindings b).settles view = true) :
    ∃ opId, (s.bindings b).opId = some opId ∧ opId ∈ s.merged := by
  simp only [TextBinding.settles, decide_eq_true_eq] at hsettles
  rcases hsettles with ⟨-, hflight, hseen⟩
  cases hop : (s.bindings b).opId with
  | none => exact absurd ((hops.shape b).idle.2 hop) hflight
  | some opId =>
      refine ⟨opId, rfl, ?_⟩
      by_contra hmerged
      rcases exists_of_view hview with ⟨shown, -, marked, hmarked, rfl⟩
      -- A mark that is not 0 is one of the row's marks.
      have hmark : (cfg.writer b, marked.mark (cfg.writer b)) ∈ marked.seen := by
        cases hlookup : marked.seen.lookup (cfg.writer b) with
        | none =>
            have hzero : marked.mark (cfg.writer b) = 0 := by simp [TextRow.mark, hlookup]
            exact absurd (Nat.le_zero.1 (hzero ▸ hseen)) hflight
        | some n =>
            have heq : marked.mark (cfg.writer b) = n := by simp [TextRow.mark, hlookup]
            rcases List.lookup_eq_some_iff.1 hlookup with ⟨before, after, hseen, -⟩
            rw [heq, hseen]
            simp
      have hlt := h.waits marked hmarked b opId hop hmerged _ hmark rfl
      exact absurd hseen (by simpa using hlt)

variable [DecidableEq ι]

theorem MarksInv.update (h : MarksInv cfg s) {b : ι} {binding : TextBinding γ}
    (hshape : BindingShape cfg.unit binding)
    (hsame : binding.opId ≠ none → SameFlight (s.bindings b) binding) :
    MarksInv cfg (s.update b binding) where
  row := h.row
  numbers := h.numbers
  flights := by
    intro b'
    by_cases hb : b' = b
    · subst hb
      simp only [TextState.update, Function.update_self]
      by_cases hop : binding.opId = none
      · rw [hshape.idle.2 hop]
        exact Nat.zero_le _
      · rw [(hsame hop).flight]
        exact h.flights b'
    · simpa only [TextState.update, Function.update_of_ne hb] using h.flights b'
  waits := by
    intro version hversion b' opId hop hmerged
    by_cases hb : b' = b
    · subst hb
      simp only [TextState.update, Function.update_self] at hop ⊢
      have hflight := hsame (by simp [hop])
      rw [hflight.flight]
      exact h.waits version hversion b' opId (hflight.opId ▸ hop) hmerged
    · simp only [TextState.update, Function.update_of_ne hb] at hop ⊢
      exact h.waits version hversion b' opId hop hmerged

/-- A new edit has a number that no mark has. -/
theorem MarksInv.flush (h : MarksInv cfg s) {b : ι} {binding : TextBinding γ}
    {wire : List (TextOp γ)} {opIds : List String}
    (hflight : binding.flight = s.writes (cfg.writer b) + 1) :
    MarksInv cfg { s.update b binding with
      writes := Function.update s.writes (cfg.writer b) (s.writes (cfg.writer b) + 1)
      wire := wire, opIds := opIds } := by
  have hgrows : ∀ who, s.writes who ≤
      Function.update s.writes (cfg.writer b) (s.writes (cfg.writer b) + 1) who := by
    intro who
    by_cases hwho : who = cfg.writer b
    · subst hwho
      simp
    · rw [Function.update_of_ne hwho]
  refine ⟨h.row, fun version hversion mark hmark =>
    (h.numbers version hversion mark hmark).trans (hgrows mark.1), fun b' => ?_, ?_⟩
  · by_cases hb : b' = b
    · subst hb
      simp [TextState.update, hflight]
    · simp only [TextState.update, Function.update_of_ne hb]
      exact (h.flights b').trans (hgrows _)
  · intro version hversion b' opId hop hmerged mark hmark hwho
    by_cases hb : b' = b
    · subst hb
      simp only [TextState.update, Function.update_self, hflight]
      have hle := h.numbers version hversion mark hmark
      rw [hwho] at hle
      omega
    · simp only [TextState.update, Function.update_of_ne hb] at hop ⊢
      exact h.waits version hversion b' opId hop hmerged mark hmark hwho

end MarksInv

/-! ## What the server makes of an edit -/

section resolveText

variable {cfg} {s : TextState γ ι}

/-- The merge of an edit: the column has the text that was sent merged on the shadow, or stays for a
removal, which sends the shadow. -/
theorem resolveText_of_carries {b : ι} {binding : TextBinding γ} {op : TextOp γ}
    (h : Carries cfg b binding op) {row row' : TextRow γ}
    (hresolve : resolveText cfg.unit cfg.policy row op.edit = some row')
    (hclean : ∀ e ∈ op.edit.edits,
      MergesCleanly cfg.unit (applyHunks e.2.value e.2.back) (row.textOf e.1) e.2.value) :
    (∀ mark ∈ row'.seen, mark ∈ row.seen ∨ mark = (op.edit.who, op.edit.n)) ∧
      (binding.sent = binding.shadow ∧ (∀ c, row'.textOf c = row.textOf c) ∨
        MergesCleanly cfg.unit binding.shadow (row.textOf (cfg.column b)) binding.sent ∧
          ∀ c, row'.textOf c = if c = cfg.column b then
              merge3 cfg.unit binding.shadow (row.textOf (cfg.column b)) binding.sent
            else row.textOf c) := by
  unfold resolveText at hresolve
  split at hresolve
  swap
  · cases hresolve
  obtain rfl := Option.some.inj hresolve
  rcases h.edits with ⟨hedits, hsent⟩ | ⟨change, hedits, hremove, hvalue, hback⟩
  · simp only [hedits, List.foldl_nil]
    cases op.edit.remove with
    | none => exact ⟨fun mark hmark => mem_recordSeen hmark, .inl ⟨hsent, fun _ => rfl⟩⟩
    | some r =>
        have hrow : (applyRemoval cfg.unit cfg.policy row r).text = row.text ∧
            (applyRemoval cfg.unit cfg.policy row r).seen = row.seen := by
          unfold applyRemoval
          split <;> exact ⟨rfl, rfl⟩
        refine ⟨fun mark hmark => ?_, .inl ⟨hsent, fun c => ?_⟩⟩
        · have hseen := mem_recordSeen hmark
          simpa only [Option.elim_some, hrow.2] using hseen
        · simp only [TextRow.textOf, Option.elim_some, hrow.1]
  · have hmerge := hclean (cfg.column b, change) (by simp [hedits])
    have htext := textOf_mergeChange cfg.unit cfg.policy row (cfg.column b) change
    rw [hvalue] at hback
    simp only [hvalue, hback] at hmerge htext
    simp only [hedits, hremove, List.foldl_cons, List.foldl_nil, Option.elim_none]
    refine ⟨fun mark hmark => mem_recordSeen hmark, .inr ⟨hmerge, fun c => ?_⟩⟩
    exact htext c

end resolveText

/-! ## Characters -/

/-- The edit that the binding has in flight is merged. -/
def MergedIn (merged : List String) (binding : TextBinding γ) : Prop :=
  ∃ opId, binding.opId = some opId ∧ opId ∈ merged

/-- The texts have no character that is still fresh. -/
structure KnownInv (s : TextState γ ι) : Prop where
  rows : ∀ version ∈ s.versions, ∀ c, ∀ t ∈ version.textOf c, ¬ s.Fresh t
  bindings : ∀ b, ∀ t,
    t ∈ (s.bindings b).shadow ∨ t ∈ (s.bindings b).localText ∨ t ∈ (s.bindings b).sent → ¬ s.Fresh t

section Chars

variable [DecidableEq γ]

/-- A character that was typed into column `c` and is not dropped. -/
structure CharInv (s : TextState γ ι) (c : String) (t : γ) : Prop where
  versions : ∀ version ∈ s.versions,
    (version.textOf c).count t ≤ 1 ∧ (t ∈ version.textOf c → t ∈ s.row.textOf c)
  binding : ∀ b, cfg.column b = c →
    BindingChar (t ∈ s.row.textOf c) (MergedIn s.merged (s.bindings b)) (s.bindings b) t
  exclusive : ∀ b b', cfg.column b = c → cfg.column b' = c → t ∈ (s.bindings b).localText →
    t ∈ (s.bindings b').localText → t ∉ s.row.textOf c → b = b'
  somewhere : t ∈ s.row.textOf c ∨ ∃ b, cfg.column b = c ∧ t ∈ (s.bindings b).localText

section CharInv

variable {cfg} {s : TextState γ ι} {c : String} {t : γ}

/-- The merge of an edit puts the characters that were sent into the row, each once. -/
theorem CharInv.resolve (h : CharInv cfg s c t) (hrow : s.row ∈ s.versions) (hops : OpsInv cfg s)
    {op : TextOp γ} (hop : op ∈ s.wire) {b₀ : ι} (hcarries : Carries cfg b₀ (s.bindings b₀) op)
    {row : TextRow γ} {wire : List (TextOp γ)}
    (htexts : (s.bindings b₀).sent = (s.bindings b₀).shadow ∧ (∀ c, row.textOf c = s.row.textOf c) ∨
      MergesCleanly cfg.unit (s.bindings b₀).shadow (s.row.textOf (cfg.column b₀))
          (s.bindings b₀).sent ∧
        ∀ c, row.textOf c = if c = cfg.column b₀ then
            merge3 cfg.unit (s.bindings b₀).shadow (s.row.textOf (cfg.column b₀))
              (s.bindings b₀).sent
          else s.row.textOf c) :
    CharInv cfg { s with
      wire := wire, row := row, versions := s.versions ++ [row], merged := op.id :: s.merged }
      c t := by
  have hne : (s.bindings b₀).opId ≠ none := by simp [hcarries.id]
  have hunmerged : ¬ MergedIn s.merged (s.bindings b₀) := by
    rintro ⟨opId, hid, hmem⟩
    rw [hcarries.id, Option.some.injEq] at hid
    exact (hops.unmerged op hop).1 (hid ▸ hmem)
  have honce := (h.versions s.row hrow).1
  -- What the row's text has after the merge.
  have hstored : (t ∈ row.textOf c ↔
      t ∈ s.row.textOf c ∨ cfg.column b₀ = c ∧ t ∈ (s.bindings b₀).sent) ∧
        (row.textOf c).count t ≤ 1 := by
    rcases htexts with ⟨hsent, htext⟩ | ⟨hmerge, htext⟩
    · rw [htext, hsent]
      refine ⟨⟨.inl, fun hor => hor.elim id fun hin => ?_⟩, honce⟩
      exact (h.binding b₀ hin.1).known hin.2
    · rw [htext]
      by_cases hc : c = cfg.column b₀
      · subst hc
        have hchar := h.binding b₀ rfl
        rw [if_pos rfl]
        rcases mem_merge3 hmerge hchar.shadowOnce honce hchar.sentOnce (hchar.sends hne)
          (fun hin hsent => by_contra fun hnot => hchar.waiting hne hunmerged hsent hnot hin)
          with ⟨hiff, hcount⟩
        refine ⟨hiff.trans
          ⟨fun hor => hor.imp_right fun hin => ⟨rfl, hin.1⟩, fun hor => ?_⟩, hcount⟩
        rcases hor with hin | ⟨-, hsent⟩
        · exact .inl hin
        · by_cases hshadow : t ∈ (s.bindings b₀).shadow
          · exact .inl (hchar.known hshadow)
          · exact .inr ⟨hsent, hshadow⟩
      · rw [if_neg hc]
        exact ⟨⟨.inl, fun hor => hor.elim id fun hin => absurd hin.1.symm hc⟩, honce⟩
  have hgrows : t ∈ s.row.textOf c → t ∈ row.textOf c := fun hin => hstored.1.2 (.inl hin)
  refine ⟨fun version hversion => ?_, fun b hb => ?_, fun b b' hb hb' hin hin' hnot => ?_, ?_⟩
  · rcases List.mem_append.1 hversion with hold | hnew
    · exact ⟨(h.versions version hold).1, fun hin => hgrows ((h.versions version hold).2 hin)⟩
    · obtain rfl := List.mem_singleton.1 hnew
      exact ⟨hstored.2, id⟩
  · by_cases heq : b = b₀
    · subst heq
      refine (h.binding b hb).resolved hne ?_ ⟨op.id, hcarries.id, List.mem_cons_self⟩
      simpa [hb] using hstored.1
    · -- Another binding does not have what was sent, and is not merged by it.
      refine (h.binding b hb).mono hgrows (fun hin hnot => ?_) fun _ => ⟨?_, ?_⟩
      · rw [hstored.1, not_or]
        refine ⟨hnot, fun hsent => heq ?_⟩
        have hin₀ := (h.binding b₀ hsent.1).keepsSent hne hsent.2
        exact h.exclusive b b₀ hb hsent.1 hin hin₀ hnot
      · rintro ⟨opId, hid, hmem⟩
        rcases List.mem_cons.1 hmem with rfl | hmem
        · exact absurd (hops.distinct b b₀ op.id hid hcarries.id) heq
        · exact ⟨opId, hid, hmem⟩
      · rintro ⟨opId, hid, hmem⟩
        exact ⟨opId, hid, List.mem_cons_of_mem _ hmem⟩
  · exact h.exclusive b b' hb hb' hin hin' fun hold => hnot (hgrows hold)
  · exact h.somewhere.imp_left hgrows

variable [DecidableEq ι]

/-- A step of one binding, which gives up no character and takes none but from the row. -/
theorem CharInv.update (h : CharInv cfg s c t) {b : ι} {binding : TextBinding γ}
    (hchar : cfg.column b = c →
      BindingChar (t ∈ s.row.textOf c) (MergedIn s.merged binding) binding t ∧
        (t ∈ binding.localText → t ∈ s.row.textOf c ∨ t ∈ (s.bindings b).localText) ∧
          (t ∈ (s.bindings b).localText → t ∈ s.row.textOf c ∨ t ∈ binding.localText)) :
    CharInv cfg (s.update b binding) c t := by
  have hback : ∀ b', cfg.column b' = c → t ∈ ((s.update b binding).bindings b').localText →
      t ∉ s.row.textOf c → t ∈ (s.bindings b').localText := by
    intro b' hb' hin hnot
    by_cases heq : b' = b
    · subst heq
      simp only [TextState.update, Function.update_self] at hin
      exact ((hchar hb').2.1 hin).resolve_left hnot
    · simpa only [TextState.update, Function.update_of_ne heq] using hin
  refine ⟨h.versions, fun b' hb' => ?_, fun b₁ b₂ h₁ h₂ hin₁ hin₂ hnot => ?_, ?_⟩
  · by_cases heq : b' = b
    · subst heq
      simp only [TextState.update, Function.update_self]
      exact (hchar hb').1
    · simp only [TextState.update, Function.update_of_ne heq]
      exact h.binding b' hb'
  · exact h.exclusive b₁ b₂ h₁ h₂ (hback b₁ h₁ hin₁ hnot) (hback b₂ h₂ hin₂ hnot) hnot
  · rcases h.somewhere with hin | ⟨b', hb', hin⟩
    · exact .inl hin
    · by_cases heq : b' = b
      · subst heq
        refine ((hchar hb').2.2 hin).imp_right fun hin => ⟨b', hb', ?_⟩
        simpa only [TextState.update, Function.update_self] using hin
      · refine .inr ⟨b', hb', ?_⟩
        simpa only [TextState.update, Function.update_of_ne heq] using hin

/-- A character that is just typed is in one text only. -/
theorem CharInv.of_fresh (hknown : KnownInv s) (hrow : s.row ∈ s.versions) (hfresh : s.Fresh t)
    {b : ι} {next : List γ} (hnext : next.count t = 1) :
    CharInv cfg (s.update b ((s.bindings b).set next)) (cfg.column b) t := by
  have hrows : ∀ version ∈ s.versions, ∀ c, t ∉ version.textOf c :=
    fun version hversion c hin => hknown.rows version hversion c t hin hfresh
  have hnone : ∀ b', t ∉ (s.bindings b').shadow ∧ t ∉ (s.bindings b').localText ∧
      t ∉ (s.bindings b').sent := by
    intro b'
    rw [← not_or, ← not_or]
    exact fun hin => hknown.bindings b' t hin hfresh
  refine ⟨fun version hversion =>
    ⟨?_, fun hin => absurd hin (hrows version hversion _)⟩, ?_, ?_, ?_⟩
  · rw [List.count_eq_zero_of_not_mem (hrows version hversion _)]
    exact Nat.zero_le 1
  · intro b' _
    by_cases heq : b' = b
    · subst heq
      simp only [TextState.update, Function.update_self]
      exact .of_typed (hnone b').1 (hnone b').2.2 hnext.le fun _ => hrows s.row hrow _
    · simp only [TextState.update, Function.update_of_ne heq]
      refine .of_typed (hnone b').1 (hnone b').2.2 ?_ fun hin => absurd hin (hnone b').2.1
      rw [List.count_eq_zero_of_not_mem (hnone b').2.1]
      exact Nat.zero_le 1
  · have hself : ∀ b',
        t ∈ ((s.update b ((s.bindings b).set next)).bindings b').localText → b' = b := by
      intro b' hin
      by_contra heq
      simp only [TextState.update, Function.update_of_ne heq] at hin
      exact (hnone b').2.1 hin
    exact fun b₁ b₂ _ _ h₁ h₂ _ => (hself b₁ h₁).trans (hself b₂ h₂).symm
  · refine .inr ⟨b, rfl, ?_⟩
    simp only [TextState.update, Function.update_self, TextBinding.set]
    exact List.count_pos_iff.1 (by omega)

end CharInv

/-! ## The invariant -/

structure TextInv (s : TextState γ ι) : Prop where
  ops : OpsInv cfg s
  marks : MarksInv cfg s
  known : KnownInv s
  chars : ∀ e ∈ s.typed, e.2 ∉ s.dropped → CharInv cfg s e.1 e.2
  settled : ∀ opId ∈ s.settled, opId ∈ s.merged

section TextInv

variable {cfg} {s : TextState γ ι}

omit [DecidableEq γ] in
/-- The characters of a binding's texts are known from the texts before, or newly typed. -/
theorem KnownInv.update [DecidableEq ι] (h : KnownInv s) {b : ι} {binding : TextBinding γ}
    {typed : List (String × γ)} {dropped : List γ} {settled : List String}
    (htyped : ∀ e ∈ s.typed, e ∈ typed)
    (hknown : ∀ t, t ∈ binding.shadow ∨ t ∈ binding.localText ∨ t ∈ binding.sent →
      s.Fresh t → ∃ c, (c, t) ∈ typed) :
    KnownInv { s.update b binding with
      typed := typed, dropped := dropped, settled := settled } where
  rows := fun version hversion c t ht hfresh =>
    h.rows version hversion c t ht fun e he => hfresh e (htyped e he)
  bindings := by
    intro b' t ht hfresh
    have hold : s.Fresh t := fun e he => hfresh e (htyped e he)
    by_cases heq : b' = b
    · subst heq
      simp only [TextState.update, Function.update_self] at ht
      rcases hknown t ht hold with ⟨c, hc⟩
      exact hfresh (c, t) hc rfl
    · simp only [TextState.update, Function.update_of_ne heq] at ht
      exact h.bindings b' t ht hold

/-- A step of one binding that sends nothing. -/
theorem TextInv.update [DecidableEq ι] (h : TextInv cfg s) {b : ι} {binding : TextBinding γ}
    {typed : List (String × γ)} {dropped : List γ} {settled : List String}
    (hshape : BindingShape cfg.unit binding)
    (hsame : binding.opId ≠ none → SameFlight (s.bindings b) binding)
    (hdone : binding.opId = none → ∀ op ∈ s.wire, (s.bindings b).opId ≠ some op.id)
    (htyped : ∀ e ∈ s.typed, e ∈ typed)
    (hknown : ∀ t, t ∈ binding.shadow ∨ t ∈ binding.localText ∨ t ∈ binding.sent →
      s.Fresh t → ∃ c, (c, t) ∈ typed)
    (hchars : ∀ e ∈ typed, e.2 ∉ dropped → CharInv cfg (s.update b binding) e.1 e.2)
    (hsettled : ∀ opId ∈ settled, opId ∈ s.merged) :
    TextInv cfg { s.update b binding with
      typed := typed, dropped := dropped, settled := settled } := by
  have hops := h.ops.update hshape hsame hdone
  have hmarks := h.marks.update hshape hsame
  refine ⟨⟨hops.shape, hops.used, hops.distinct, hops.carried, hops.unmerged, hops.mergedUsed,
    hops.refusedUsed⟩, ⟨hmarks.row, hmarks.numbers, hmarks.flights, hmarks.waits⟩,
    h.known.update htyped hknown, fun e he hdropped => ?_, hsettled⟩
  have hchar := hchars e he hdropped
  exact ⟨hchar.versions, hchar.binding, hchar.exclusive, hchar.somewhere⟩

/-- A step of one binding that neither types nor sends, and drops what it gives up. -/
theorem TextInv.update_same [DecidableEq ι] (h : TextInv cfg s) {b : ι} {binding : TextBinding γ}
    {dropped : List γ} {settled : List String} (hshape : BindingShape cfg.unit binding)
    (hsame : binding.opId ≠ none → SameFlight (s.bindings b) binding)
    (hdone : binding.opId = none → ∀ op ∈ s.wire, (s.bindings b).opId ≠ some op.id)
    (hknown : ∀ t, t ∈ binding.shadow ∨ t ∈ binding.localText ∨ t ∈ binding.sent → ¬ s.Fresh t)
    (hdropped : ∀ t ∈ s.dropped, t ∈ dropped)
    (hchar : ∀ t, t ∉ dropped → CharInv cfg s (cfg.column b) t →
      BindingChar (t ∈ s.row.textOf (cfg.column b)) (MergedIn s.merged (s.bindings b)) binding t ∧
        (t ∈ binding.localText →
          t ∈ s.row.textOf (cfg.column b) ∨ t ∈ (s.bindings b).localText) ∧
          (t ∈ (s.bindings b).localText →
            t ∈ s.row.textOf (cfg.column b) ∨ t ∈ binding.localText))
    (hsettled : ∀ opId ∈ settled, opId ∈ s.merged) :
    TextInv cfg { s.update b binding with dropped := dropped, settled := settled } := by
  refine h.update hshape hsame hdone (fun _ he => he)
    (fun t ht hfresh => absurd hfresh (hknown t ht))
    (fun e he hout => ?_) hsettled
  have hold := h.chars e he fun hin => hout (hdropped _ hin)
  refine hold.update fun hc => ?_
  rw [← hc] at hold ⊢
  rcases hchar e.2 hout hold with ⟨hbinding, hlocal⟩
  refine ⟨hbinding.mono id (fun _ hnot => hnot) fun hne => ?_, hlocal⟩
  rw [MergedIn, MergedIn, (hsame hne).opId]

/-! ### The steps -/

variable [DecidableEq ι]

omit [DecidableEq γ] [DecidableEq ι] in
theorem mem_seed {c : String} {t : γ} :
    (c, t) ∈ (textStart cfg).typed ↔ t ∈ (seedRow cfg).textOf c := by
  constructor
  · intro h
    rcases List.mem_flatMap.1 h with ⟨⟨column, text⟩, hentry, ht⟩
    rcases List.mem_map.1 ht with ⟨t', ht', heq⟩
    obtain ⟨rfl, rfl⟩ := Prod.mk.inj heq
    have hlookup : cfg.seed.lookup column = some text := AList.mem_lookup_iff.2 hentry
    simpa [TextRow.textOf, seedRow, hlookup] using ht'
  · intro h
    cases hlookup : cfg.seed.lookup c with
    | none => simp [TextRow.textOf, seedRow, hlookup] at h
    | some text =>
        have ht : t ∈ text := by simpa [TextRow.textOf, seedRow, hlookup] using h
        exact List.mem_flatMap.2 ⟨⟨c, text⟩, AList.mem_lookup_iff.1 hlookup,
          List.mem_map.2 ⟨t, ht, rfl⟩⟩

omit [DecidableEq ι] in
theorem count_seed_le (c : String) (t : γ) : ((seedRow cfg).textOf c).count t ≤ 1 := by
  refine List.nodup_iff_count_le_one.1 ?_ t
  cases hlookup : cfg.seed.lookup c with
  | none => simp [TextRow.textOf, seedRow, hlookup]
  | some text =>
      have hnodup := (List.nodup_flatMap.1 cfg.seed_nodup).1 ⟨c, text⟩
        (AList.mem_lookup_iff.1 hlookup)
      simpa [TextRow.textOf, seedRow, hlookup] using hnodup

omit [DecidableEq ι] in
theorem textInv_start : TextInv cfg (textStart cfg) where
  ops := by
    refine ⟨fun _ => .empty, ?_, ?_, ?_, ?_, ?_, ?_⟩
    all_goals simp [textStart, TextBinding.empty]
  marks := by
    refine ⟨List.mem_cons_self, ?_, ?_, ?_⟩
    all_goals simp [textStart, TextBinding.empty, seedRow]
  known := by
    refine ⟨fun version hversion c t ht hfresh => ?_, ?_⟩
    · obtain rfl := List.mem_singleton.1 hversion
      exact hfresh (c, t) (mem_seed.2 ht) rfl
    · simp [textStart, TextBinding.empty]
  chars := by
    rintro ⟨c, t⟩ he -
    have hseed : t ∈ (seedRow cfg).textOf c := mem_seed.1 he
    refine ⟨fun version hversion => ?_, fun b _ => ?_, ?_, .inl hseed⟩
    · obtain rfl := List.mem_singleton.1 hversion
      exact ⟨count_seed_le c t, id⟩
    · refine .of_typed ?_ ?_ ?_ ?_
      all_goals simp [textStart, TextBinding.empty]
    · simp [textStart, TextBinding.empty]
  settled := by simp [textStart]

omit [DecidableEq γ] [DecidableEq ι] in
/-- What is on the wire is not of a binding whose edit is merged or refused. -/
theorem OpsInv.done (h : OpsInv cfg s) {b : ι} {opId : String}
    (hop : (s.bindings b).opId = some opId)
    (hdone : opId ∈ s.merged ∨ ∃ r ∈ s.refused, r.1 = opId) :
    ∀ op ∈ s.wire, (s.bindings b).opId ≠ some op.id := by
  intro op hwire heq
  obtain rfl : opId = op.id := Option.some.inj (hop.symm.trans heq)
  rcases hdone with hmerged | ⟨r, hr, hid⟩
  · exact (h.unmerged op hwire).1 hmerged
  · exact (h.unmerged op hwire).2 r hr hid

theorem textInv_set (h : TextInv cfg s) {b : ι} {next : List γ}
    (htypes : s.Types (s.bindings b).localText next) :
    TextInv cfg { s.update b ((s.bindings b).set next) with
      typed := s.typed ++ ((next.filter (· ∉ (s.bindings b).localText)).map
        fun t => (cfg.column b, t))
      dropped := s.drop b next } := by
  have hnew : ∀ t ∈ next, t ∉ (s.bindings b).localText → s.Fresh t ∧ next.count t = 1 := by
    intro t ht hnot
    refine (htypes t ht).resolve_left fun hle => ?_
    rw [List.count_eq_zero_of_not_mem hnot, Nat.le_zero] at hle
    exact List.count_eq_zero.1 hle ht
  have hdrop :
      ∀ t, t ∉ s.drop b next → t ∉ s.dropped ∧ (t ∈ (s.bindings b).localText → t ∈ next) := by
    intro t hnot
    rw [TextState.drop, List.mem_append, not_or] at hnot
    exact ⟨hnot.1, fun ht => by_contra fun hout =>
      hnot.2 (List.mem_filter.2 ⟨ht, by simpa using hout⟩)⟩
  have htyped : ∀ t ∈ next, t ∉ (s.bindings b).localText →
      (cfg.column b, t) ∈ s.typed ++ ((next.filter (· ∉ (s.bindings b).localText)).map
        fun t => (cfg.column b, t)) := fun t ht hnot =>
    List.mem_append_right _ (List.mem_map.2 ⟨t, List.mem_filter.2 ⟨ht, by simpa using hnot⟩, rfl⟩)
  refine h.update ((h.ops.shape b).set next) (fun _ => ⟨rfl, rfl, rfl, rfl⟩)
    (fun hnone op hop heq => ?_) (fun e he => List.mem_append_left _ he) (fun t ht hfresh => ?_)
    (fun e he hout => ?_) h.settled
  · have hnone : (s.bindings b).opId = none := hnone
    rw [hnone] at heq
    cases heq
  · rcases ht with hshadow | hlocal | hsent
    · exact absurd hfresh (h.known.bindings b t (.inl hshadow))
    · refine ⟨cfg.column b, htyped t hlocal fun hold => ?_⟩
      exact h.known.bindings b t (.inr (.inl hold)) hfresh
    · exact absurd hfresh (h.known.bindings b t (.inr (.inr hsent)))
  · rcases hdrop e.2 hout with ⟨hdropped, hkeep⟩
    rcases List.mem_append.1 he with hold | hadded
    · -- A character that was typed before stays as it was in the text.
      have hchar := h.chars e hold hdropped
      have hmem : e.2 ∈ next ↔ e.2 ∈ (s.bindings b).localText :=
        ⟨fun ht => by_contra fun hnot => (hnew e.2 ht hnot).1 e hold rfl, hkeep⟩
      refine hchar.update fun hc => ⟨?_, fun ht => .inr (hmem.1 ht), fun ht => .inr (hmem.2 ht)⟩
      refine (hchar.binding b hc).set hmem ?_
      by_cases ht : e.2 ∈ next
      · rcases htypes e.2 ht with hle | hfresh
        · exact hle.trans (hchar.binding b hc).localOnce
        · exact hfresh.2.le
      · rw [List.count_eq_zero_of_not_mem ht]
        exact Nat.zero_le 1
    · rcases List.mem_map.1 hadded with ⟨t, ht, rfl⟩
      rcases List.mem_filter.1 ht with ⟨hin, hnot⟩
      have hfresh := hnew t hin (by simpa using hnot)
      exact .of_fresh h.known h.marks.row hfresh.1 hfresh.2

theorem textInv_remove (h : TextInv cfg s) (b : ι) :
    TextInv cfg { s.update b (s.bindings b).remove with
      dropped := s.drop b (s.bindings b).shadow } := by
  refine h.update_same (h.ops.shape b).remove (fun _ => ⟨rfl, rfl, rfl, rfl⟩)
    (fun hnone op hop heq => ?_) (fun t ht => ?_) (fun t ht => List.mem_append_left _ ht)
    (fun t hout hchar => ?_) h.settled
  · have hnone : (s.bindings b).opId = none := hnone
    rw [hnone] at heq
    cases heq
  · refine h.known.bindings b t ?_
    rcases ht with hin | hin | hin
    · exact .inl hin
    · exact .inl hin
    · exact .inr (.inr hin)
  · rw [TextState.drop, List.mem_append, not_or] at hout
    have hkeep : t ∈ (s.bindings b).localText → t ∈ (s.bindings b).shadow := fun ht =>
      by_contra fun hnot => hout.2 (List.mem_filter.2 ⟨ht, by simpa using hnot⟩)
    have hbinding := hchar.binding b rfl
    exact ⟨hbinding.remove hkeep, fun ht => .inl (hbinding.known ht), fun ht => .inr (hkeep ht)⟩

theorem textInv_rejected (h : TextInv cfg s) {b : ι} {opId : String} {reason : TextRefusal}
    (hrefused : (opId, reason) ∈ s.refused) :
    TextInv cfg { s.update b ((s.bindings b).onRejected opId reason) with
      dropped := s.drop b ((s.bindings b).onRejected opId reason).localText } := by
  have hflight := onRejected_flight (s.bindings b) opId reason
  refine h.update_same ((h.ops.shape b).onRejected opId reason) (fun hne => ?_)
    (fun hnone op hop heq => ?_) (fun t ht => ?_) (fun t ht => List.mem_append_left _ ht)
    (fun t hout hchar => ?_) h.settled
  · rcases hflight with heq | ⟨-, hnone, -⟩
    · rw [heq]
      exact ⟨rfl, rfl, rfl, rfl⟩
    · exact absurd hnone hne
  · rcases hflight with hsame | ⟨hid, -, -⟩
    · rw [hsame, heq] at hnone
      cases hnone
    · exact h.ops.done hid (.inr ⟨_, hrefused, rfl⟩) op hop heq
  · refine h.known.bindings b t ?_
    unfold TextBinding.onRejected at ht
    split at ht
    · exact ht
    · split at ht
      · exact ht
      · rcases ht with hin | hin | hin
        · exact .inl hin
        · exact .inl hin
        · exact .inr (.inr hin)
  · rw [TextState.drop, List.mem_append, not_or] at hout
    have hmerged : (s.bindings b).opId = some opId → ¬ MergedIn s.merged (s.bindings b) := by
      rintro hid ⟨id, hid', hmem⟩
      obtain rfl : opId = id := Option.some.inj (hid.symm.trans hid')
      exact (h.ops.refusedUsed _ hrefused).2 hmem
    rcases (hchar.binding b rfl).onRejected hmerged with ⟨hbinding, hlocal⟩
    exact ⟨hbinding, hlocal, fun ht => .inr (by_contra fun hnot =>
      hout.2 (List.mem_filter.2 ⟨ht, by simpa using hnot⟩))⟩

theorem textInv_pump (h : TextInv cfg s) {b : ι} {i j : Nat} {view : TextView γ}
    (hview : s.view cfg b i j = some view) (hclean : PumpsCleanly cfg.unit (s.bindings b) view) :
    TextInv cfg { s.update b ((s.bindings b).pumpRow cfg.unit view) with
      settled := if (s.bindings b).settles view then s.settled ++ (s.bindings b).opId.toList
        else s.settled } := by
  have hflight := pumpRow_flight (h.ops.shape b) view
  rcases exists_of_view hview with ⟨shown, hshown, marked, -, hviewEq⟩
  have hserver : view.server = shown.textOf (cfg.column b) := by rw [hviewEq]
  have hmerged := h.marks.merged_of_settles h.ops hview
  refine h.update_same ((h.ops.shape b).pumpRow view) (fun hne => ?_) (fun hnone op hop heq => ?_)
    (fun t ht => ?_) (fun t ht => ht) (fun t hout hchar => ?_) fun opId hsettled => ?_
  · rcases hflight with heq | ⟨hnone, -⟩
    · rw [heq]
      exact ⟨rfl, rfl, rfl, rfl⟩
    · exact absurd hnone hne
  · rcases hflight with hsame | ⟨-, -, hsettles⟩
    · rw [hsame, heq] at hnone
      cases hnone
    · rcases hmerged (hsettles (by simp [heq])) with ⟨opId, hid, hin⟩
      exact h.ops.done hid (.inl hin) op hop heq
  · rcases mem_pumpRow hclean ht with hin | hin
    · exact h.known.rows shown hshown _ t (hserver ▸ hin)
    · exact h.known.bindings b t hin
  · have hversion := hchar.versions shown hshown
    rw [← hserver] at hversion
    exact (hchar.binding b rfl).pumpRow (h.ops.shape b) hclean hversion.1 hversion.2 hmerged
  · split at hsettled
    · rename_i hsettles
      rcases List.mem_append.1 hsettled with hold | hnew
      · exact h.settled opId hold
      · rcases hmerged hsettles with ⟨id, hid, hin⟩
        rw [hid, Option.toList_some, List.mem_singleton] at hnew
        exact hnew ▸ hin
    · exact h.settled opId hsettled

theorem textInv_pumpAbsent (h : TextInv cfg s) {b : ι} (hflight : (s.bindings b).flight = 0) :
    TextInv cfg (s.update b (s.bindings b).pumpAbsent) := by
  have hidle := (h.ops.shape b).idle.1 hflight
  refine h.update_same ((h.ops.shape b).pumpAbsent hflight) (fun hne => absurd hidle hne)
    (fun _ op _ heq => ?_) (fun t ht => h.known.bindings b t ht) (fun t ht => ht)
    (fun t _ hchar => ?_) h.settled
  · rw [hidle] at heq
    cases heq
  · have hbinding := hchar.binding b rfl
    exact ⟨.of_idle hidle hbinding.shadowOnce hbinding.localOnce hbinding.sentOnce hbinding.known
      (hbinding.keeps hidle) (hbinding.unsent hidle), .inr, .inr⟩

theorem textInv_flush (h : TextInv cfg s) {b : ι} {opId : String} {binding : TextBinding γ}
    {edit : TextEdit γ}
    (hguard : (s.bindings b).sends cfg.unit = true →
      if (s.bindings b).removing then (s.bindings b).localText = (s.bindings b).shadow
      else DiffFollows cfg.unit (s.bindings b).localText (s.bindings b).shadow)
    (hflush : (s.bindings b).flush cfg.unit (cfg.writer b) (s.writes (cfg.writer b) + 1)
      (cfg.column b) opId = some (binding, edit)) (hfresh : opId ∉ s.opIds) :
    TextInv cfg { s.update b binding with
      writes := Function.update s.writes (cfg.writer b) (s.writes (cfg.writer b) + 1)
      wire := s.wire ++ [⟨opId, edit⟩]
      opIds := opId :: s.opIds } := by
  rcases Option.ite_none_right_eq_some.1 hflush with ⟨hsends, heq⟩
  obtain ⟨rfl, rfl⟩ := Prod.mk.inj (Option.some.inj heq)
  have hguard := hguard hsends
  have hidle : (s.bindings b).opId = none := by
    have hsends := hsends
    simp only [TextBinding.sends, decide_eq_true_eq] at hsends
    exact (h.ops.shape b).idle.1 hsends.1
  refine ⟨h.ops.flush (Nat.succ_ne_zero _) hsends (fun hrem => ?_) (fun hrem => ?_) hfresh rfl,
    h.marks.flush rfl, ⟨h.known.rows, fun b' t ht => ?_⟩, fun e he hout => ?_, h.settled⟩
  · rwa [hrem, if_pos rfl] at hguard
  · rwa [hrem, if_neg Bool.false_ne_true] at hguard
  · by_cases hb : b' = b
    · subst hb
      simp only [TextState.update, Function.update_self] at ht
      exact h.known.bindings b' t (ht.imp_right (Or.elim · .inl .inl))
    · simp only [TextState.update, Function.update_of_ne hb] at ht
      exact h.known.bindings b' t ht
  · have hold := h.chars e he hout
    have hchar : CharInv cfg (s.update b { s.bindings b with
        removing := false, flight := s.writes (cfg.writer b) + 1, sent := (s.bindings b).localText
        opId := some opId }) e.1 e.2 := by
      refine hold.update fun hc => ⟨(hold.binding b hc).flush hidle ?_, .inr, .inr⟩
      rintro ⟨id, hid, hmem⟩
      obtain rfl : opId = id := Option.some.inj hid
      exact hfresh (h.ops.mergedUsed opId hmem)
    exact ⟨hchar.versions, hchar.binding, hchar.exclusive, hchar.somewhere⟩

omit [DecidableEq ι] in
theorem textInv_resolve (h : TextInv cfg s) {op : TextOp γ} (hop : op ∈ s.wire)
    (horder : InOrder cfg s op)
    (hclean : ∀ e ∈ op.edit.edits,
      MergesCleanly cfg.unit (applyHunks e.2.value e.2.back) (s.row.textOf e.1) e.2.value)
    {row : TextRow γ} (hresolve : resolveText cfg.unit cfg.policy s.row op.edit = some row) :
    TextInv cfg { s with
      wire := s.wire.filter (·.id ≠ op.id), row := row, versions := s.versions ++ [row]
      merged := op.id :: s.merged } := by
  rcases h.ops.carried op hop with ⟨b, hcarries⟩
  rcases resolveText_of_carries hcarries hresolve hclean with ⟨hseen, htexts⟩
  refine ⟨h.ops.resolve hop, h.marks.resolve h.ops hop horder hseen, ⟨?_, h.known.bindings⟩,
    fun e he hout => (h.chars e he hout).resolve h.marks.row h.ops hop hcarries htexts,
    fun id hid => List.mem_cons_of_mem _ (h.settled id hid)⟩
  intro version hversion c t ht
  rcases List.mem_append.1 hversion with hold | hnew
  · exact h.known.rows version hold c t ht
  · obtain rfl := List.mem_singleton.1 hnew
    rcases htexts with ⟨-, htext⟩ | ⟨hmerge, htext⟩
    · exact h.known.rows s.row h.marks.row c t (htext c ▸ ht)
    · rw [htext c] at ht
      split at ht
      · rcases mem_of_mem_merge3 hmerge ht with hin | hin | hin
        · exact h.known.bindings b t (.inl hin)
        · exact h.known.rows s.row h.marks.row _ t hin
        · exact h.known.bindings b t (.inr (.inr hin))
      · exact h.known.rows s.row h.marks.row c t ht

omit [DecidableEq ι] in
theorem textInv_refuse (h : TextInv cfg s) {op : TextOp γ} (hop : op ∈ s.wire)
    (reason : TextRefusal) :
    TextInv cfg { s with
      wire := s.wire.filter (·.id ≠ op.id), refused := (op.id, reason) :: s.refused } :=
  ⟨h.ops.refuse hop, ⟨h.marks.row, h.marks.numbers, h.marks.flights, h.marks.waits⟩,
    ⟨h.known.rows, h.known.bindings⟩, fun e he hout =>
      have hchar := h.chars e he hout
      ⟨hchar.versions, hchar.binding, hchar.exclusive, hchar.somewhere⟩, h.settled⟩

omit [DecidableEq ι] in
theorem textInv_otherWrite (h : TextInv cfg s) (who : Lib.Text) :
    TextInv cfg { s with writes := Function.update s.writes who (s.writes who + 1) } := by
  have hgrows : ∀ other, s.writes other ≤
      Function.update s.writes who (s.writes who + 1) other := by
    intro other
    by_cases heq : other = who
    · subst heq
      simp
    · rw [Function.update_of_ne heq]
  refine ⟨⟨h.ops.shape, h.ops.used, h.ops.distinct, h.ops.carried, h.ops.unmerged,
    h.ops.mergedUsed, h.ops.refusedUsed⟩, ⟨h.marks.row, fun version hversion mark hmark => ?_,
    fun b => (h.marks.flights b).trans (hgrows _), h.marks.waits⟩,
    ⟨h.known.rows, h.known.bindings⟩, fun e he hout => ?_, h.settled⟩
  · exact (h.marks.numbers version hversion mark hmark).trans (hgrows _)
  · have hchar := h.chars e he hout
    exact ⟨hchar.versions, hchar.binding, hchar.exclusive, hchar.somewhere⟩

/-- Each step keeps the invariant. -/
theorem textInv_step (h : TextInv cfg s) {e : TextEvent γ ι} (hguard : TextGuard cfg s e)
    {s' : TextState γ ι} (hs : textStep cfg s e = some s') : TextInv cfg s' := by
  cases e with
  | set b next =>
      rcases Option.ite_none_right_eq_some.1 hs with ⟨htypes, heq⟩
      obtain rfl := Option.some.inj heq
      exact textInv_set h htypes
  | remove b =>
      obtain rfl := Option.some.inj hs
      exact textInv_remove h b
  | flush b opId =>
      simp only [textStep] at hs
      split at hs
      · rename_i binding edit hflush
        rcases Option.ite_none_left_eq_some.1 hs with ⟨hfresh, heq⟩
        obtain rfl := Option.some.inj heq
        exact textInv_flush h hguard hflush hfresh
      · obtain rfl := Option.some.inj hs
        exact h
  | otherWrite who =>
      obtain rfl := Option.some.inj hs
      exact textInv_otherWrite h who
  | resolve opId =>
      simp only [textStep] at hs
      split at hs
      · rename_i op hfind
        have hop := List.mem_of_find?_eq_some hfind
        obtain rfl : op.id = opId := by simpa using List.find?_some hfind
        split at hs
        · rename_i row hresolve
          obtain rfl := Option.some.inj hs
          rcases hguard op hop rfl with ⟨horder, hclean⟩
          exact textInv_resolve h hop horder hclean hresolve
        · obtain rfl := Option.some.inj hs
          exact textInv_refuse h hop _
      · cases hs
  | refuse opId reason =>
      rcases Option.ite_none_right_eq_some.1 hs with ⟨hany, heq⟩
      obtain rfl := Option.some.inj heq
      rcases List.any_eq_true.1 hany with ⟨op, hop, hid⟩
      obtain rfl : op.id = opId := by simpa using hid
      exact textInv_refuse h hop reason
  | rejected b opId reason =>
      rcases Option.ite_none_right_eq_some.1 hs with ⟨hrefused, heq⟩
      obtain rfl := Option.some.inj heq
      exact textInv_rejected h hrefused
  | pump b i j =>
      simp only [textStep] at hs
      split at hs
      · rename_i view hview
        obtain rfl := Option.some.inj hs
        exact textInv_pump h hview (hguard view hview)
      · cases hs
  | pumpAbsent b =>
      obtain rfl := Option.some.inj hs
      exact textInv_pumpAbsent h hguard

/-- Each run whose steps meet the condition keeps the invariant. -/
theorem textInv_of_reach (h : (textMachine cfg).Reach (TextGuard cfg) s) : TextInv cfg s :=
  h.invariant textInv_start fun hinv hguard hs => textInv_step hinv hguard hs

omit [DecidableEq ι] in
/-- The invariant gives the property. -/
theorem TextInv.kept (h : TextInv cfg s) : TextKept s where
  settled := h.settled
  stored := by
    intro hsettled e he hout
    have hchar := h.chars e he hout
    have hin : e.2 ∈ s.row.textOf e.1 := by
      rcases hchar.somewhere with hin | ⟨b, hb, hin⟩
      · exact hin
      · rw [(hsettled b).2] at hin
        exact (hchar.binding b hb).known hin
    have hpos := List.count_pos_iff.2 hin
    have hle := (hchar.versions s.row h.marks.row).1
    omega

end TextInv

end Chars

/-! ## Runs that lose no character -/

/-- In each run whose steps meet the condition, no typed character is lost or doubled, and a binding
takes an edit for merged only if it is. -/
theorem textKept_of_guard [DecidableEq γ] [DecidableEq ι] {s : TextState γ ι}
    (h : (textMachine cfg).Reach (TextGuard cfg) s) : TextKept s :=
  (textInv_of_reach h).kept

/-- Two bindings on the text column of a note; a character has a number and a code unit. -/
def noteConfig (writer : Bool → Lib.Text) : TextConfig (Nat × UInt16) Bool where
  unit := Prod.snd
  policy := ⟨["body"], none⟩
  writer := writer
  column := fun _ => "body"
  seed := ∅
  seed_nodup := by decide

/-- The two writers type one character each, at one caret. -/
def typeBoth : List (TextEvent (Nat × UInt16) Bool) :=
  [.pump false 0 0, .pump true 0 0, .set false [(0, 120)], .set true [(1, 121)], .flush false "1",
    .flush true "2", .resolve "1", .resolve "2", .pump false 2 2, .pump true 2 2]

theorem textKept_typeBoth :
    ∃ s : TextState (Nat × UInt16) Bool, s.row.textOf "body" = [(0, 120), (1, 121)] ∧
    s.settled = ["1", "2"] ∧ TextKept s := by
  let cfg : TextConfig (Nat × UInt16) Bool := noteConfig fun b => if b then [98] else [97]
  have hrun : (((textMachine cfg).runWith (fun s e => decide (TextGuard cfg s e))
      (textMachine cfg).init typeBoth).map fun s => (s.row.textOf "body", s.settled)) =
      some ([(0, 120), (1, 121)], ["1", "2"]) := by decide +kernel
  rcases Option.map_eq_some_iff.1 hrun with ⟨s, hs, heq⟩
  simp only [Prod.mk.injEq] at heq
  have hreach := Lib.Machine.Reach.of_runWith (fun _ _ h => of_decide_eq_true h) .init hs
  exact ⟨s, heq.1, heq.2, textKept_of_guard cfg hreach⟩

/-- Both bindings are of one client.  The server refuses the first edit and merges the second one,
whose mark makes the first binding take its own edit for merged. -/
def refuseFirst : List (TextEvent (Nat × UInt16) Bool) :=
  [.pump false 0 0, .pump true 0 0, .set false [(0, 120)], .flush false "1", .set true [(1, 121)],
    .flush true "2", .refuse "1" (.op .rateLimited), .resolve "2", .pump false 1 1, .pump true 1 1]

theorem textKept_fails :
    ¬ ∀ (cfg : TextConfig (Nat × UInt16) Bool) s, (textMachine cfg).Reachable s → TextKept s := by
  intro h
  let cfg := noteConfig fun _ => [97]
  have hrun : ((textMachine cfg).run refuseFirst).map (fun s =>
      (decide (("body", (0, 120)) ∈ s.typed ∧ (0, 120) ∉ s.dropped),
        [false, true].map fun b => decide ((s.bindings b).flight = 0 ∧
          (s.bindings b).localText = (s.bindings b).shadow), s.row.textOf "body")) =
      some (true, [true, true], [(1, 121)]) := by decide +kernel
  rcases Option.map_eq_some_iff.1 hrun with ⟨s, hs, heq⟩
  simp only [Prod.mk.injEq, List.map_cons, List.map_nil, List.cons.injEq, decide_eq_true_eq,
    and_true] at heq
  rcases heq with ⟨⟨htyped, hdropped⟩, ⟨hfirst, hsecond⟩, htext⟩
  have hsettled : AllSettled s := by
    intro b
    cases b
    · exact hfirst
    · exact hsecond
  -- What the first binding typed is in no text any more.
  have hone := (h cfg s (.of_run hs)).stored hsettled ("body", (0, 120)) htyped hdropped
  rw [htext] at hone
  exact absurd hone (by decide)

end Sync
end Reflectdb
