import Reflectdb.Server.MergeOrder

/-!
# Newest wins — deletes among the ops of one row

Under `lww` and `merge` an op is compared with the HLC that the stored row has.  A delete leaves no
row, and so nothing that an older insert or update would be compared with.
-/

namespace Reflectdb
namespace Server

open Core Client

/-! ## Presence -/

/-- The op of the event is accepted. -/
def RowState.accepts (ops : TextOps) (policy : ConflictPolicy) (s : RowState) (e : RowEvent) :
    Bool :=
  match s.read e.sameBatch with
  | some existing => (resolveConflict ops policy e.incoming existing).accepted
  | none => false

/-- The deletes of a set of ops hold against its older ops, in every order of arrival and in any
batches. -/
structure NewestWins (ops : TextOps) (policy : ConflictPolicy) (set : List ConflictInput) :
    Prop where
  /-- A delete that is the newest op leaves no row. -/
  newest : ∀ (events : List RowEvent) (s : RowState), (events.map (·.incoming)).Perm set →
    (rowMachine ops policy).run events = some s → ∀ d ∈ set, d.op = .delete →
      (∀ o ∈ set, o.hlc ≤ d.hlc) → s.stored = none
  /-- An insert or update older than an accepted delete is not applied. -/
  stale : ∀ (before between after : List RowEvent) (d w : RowEvent),
    ((before ++ d :: between ++ w :: after).map (·.incoming)).Perm set →
      d.incoming.op = .delete → w.incoming.op ≠ .delete → w.incoming.hlc < d.incoming.hlc →
      ∀ s, (rowMachine ops policy).run before = some s → s.accepts ops policy d = true →
      ∀ s', (rowMachine ops policy).run (before ++ d :: between) = some s' →
        s'.accepts ops policy w = false
  /-- Whether there is a row does not depend on the order. -/
  presence : ∀ (events events' : List RowEvent) (s s' : RowState),
    (events.map (·.incoming)).Perm set → (events'.map (·.incoming)).Perm set →
      (rowMachine ops policy).run events = some s →
      (rowMachine ops policy).run events' = some s' → s.stored.isSome = s'.stored.isSome

/-- Every delete is older than every insert and update. -/
def DeletesFirst (set : List ConflictInput) : Prop :=
  ∀ d ∈ set, d.op = .delete → ∀ w ∈ set, w.op ≠ .delete → d.hlc < w.hlc

/-- An op as clients send it: it has an HLC, and an insert or update has a payload. -/
def IsRowOp (op : ConflictInput) : Prop :=
  op.hlc ≠ "" ∧ (op.op ≠ .delete → op.payload.isSome)

instance (op : ConflictInput) : Decidable (IsRowOp op) :=
  inferInstanceAs (Decidable (_ ∧ (_ → _)))

def IsHlcPolicy (policy : ConflictPolicy) : Prop :=
  policy = .lww ∨ policy = .merge

/-! ## The two policies -/

variable {ops : TextOps} {policy : ConflictPolicy} {op : ConflictInput} {existing : ExistingRow}

/-- Where there is no row, any op is accepted. -/
theorem resolveConflict_absent (hpolicy : IsHlcPolicy policy) (habsent : existing.row = none) :
    resolveConflict ops policy op existing = acceptFirst op := by
  have hversion : existing.version = none := by simp [ExistingRow.version, habsent]
  rcases hpolicy with rfl | rfl
  · simp only [resolveConflict, resolveLww, hversion]
  · simp only [resolveConflict, resolveMerge, hversion]

/-- A delete has to be newer than the row. -/
theorem resolveConflict_delete (hpolicy : IsHlcPolicy policy) {r : StoredRow} (hr : r.hlc ≠ "")
    (hop : op.op = .delete) (hlt : op.hlc < r.hlc) :
    (resolveConflict ops policy op (getRow (some r))).accepted = false := by
  have hversion : (getRow (some r)).version = some (r.row, r.hlc) :=
    version_eq_some_iff.2 ⟨rfl, rfl, hr⟩
  have hnot : ¬ r.hlc < op.hlc := lt_asymm hlt
  rcases hpolicy with rfl | rfl
  · simp only [resolveConflict, resolveLww, hversion, if_neg hnot]
    rfl
  · simp only [resolveConflict, resolveMerge, hversion, if_pos hop, if_neg hnot]
    rfl

/-- An accepted insert or update leaves a row. -/
theorem resolveConflict_write (hpolicy : IsHlcPolicy policy) {r : StoredRow} (hr : r.hlc ≠ "")
    (hop : op.op ≠ .delete) (hpayload : op.payload.isSome)
    (haccepted : (resolveConflict ops policy op (getRow (some r))).accepted = true) :
    (resolveConflict ops policy op (getRow (some r))).resolvedRow.isSome := by
  have hversion : (getRow (some r)).version = some (r.row, r.hlc) :=
    version_eq_some_iff.2 ⟨rfl, rfl, hr⟩
  rcases hpolicy with rfl | rfl
  · simp only [resolveConflict, resolveLww, hversion] at haccepted ⊢
    split at haccepted
    · rename_i hlt
      rw [if_pos hlt]
      cases hcase : op.op with
      | delete => exact absurd hcase hop
      | update => rfl
      | insert => exact hpayload
    · simp [ConflictResult.reject] at haccepted
  · simp only [resolveConflict, resolveMerge, hversion, if_neg hop] at haccepted ⊢
    split at haccepted
    · simp [ConflictResult.reject] at haccepted
    · rename_i hwon
      rw [if_neg hwon]
      rfl

/-! ## While the deletes are the older ops -/

/-- There is a row once there was an insert or update, and it has the HLC of one. -/
structure PresenceInv (done : List ConflictInput) (s : RowState) : Prop where
  cached : CacheCurrent s
  absent : (∀ o ∈ done, o.op = .delete) → s.stored = none
  present : (∃ o ∈ done, o.op ≠ .delete) →
    ∃ r, s.stored = some r ∧ ∃ w ∈ done, w.op ≠ .delete ∧ w.hlc = r.hlc

theorem process_eq {s s' : RowState} {e : RowEvent} (hs : s.process ops policy e = some s') :
    ∃ existing, existing ∈ s.read e.sameBatch ∧
      ((resolveConflict ops policy e.incoming existing).accepted = true ∧
          s' = s.record (resolveConflict ops policy e.incoming existing) e.incoming.hlc ∨
        (resolveConflict ops policy e.incoming existing).accepted = false ∧ s' = s) := by
  rcases Option.map_eq_some_iff.1 hs with ⟨existing, hread, heq⟩
  refine ⟨existing, hread, ?_⟩
  simp only at heq
  split at heq
  · rename_i haccepted
    exact Or.inl ⟨haccepted, heq.symm⟩
  · rename_i hrejected
    exact Or.inr ⟨by simpa using hrejected, heq.symm⟩

theorem stored_record (s : RowState) {result : ConflictResult} {row : Row} (hlc : Hlc)
    (hrow : result.resolvedRow = some row) :
    (s.record result hlc).stored = some ⟨row, hlc, result.updatedColClocks⟩ := by
  simp [RowState.record, ConflictResult.stored, hrow]

theorem PresenceInv.process {done : List ConflictInput} {s s' : RowState} {e : RowEvent}
    (h : PresenceInv done s) (hpolicy : IsHlcPolicy policy)
    (hops : ∀ o ∈ done ++ [e.incoming], IsRowOp o) (hfirst : DeletesFirst (done ++ [e.incoming]))
    (hs : s.process ops policy e = some s') : PresenceInv (done ++ [e.incoming]) s' := by
  rcases process_eq hs with ⟨existing, hread, hcases⟩
  have hlast : e.incoming ∈ done ++ [e.incoming] := by simp
  have hread := h.cached.read_eq hread
  by_cases hwritten : ∃ o ∈ done, o.op ≠ .delete
  · -- There is a row, newer than any of the deletes.
    rcases h.present hwritten with ⟨r, hstored, w, hw, hwop, hwhlc⟩
    have hold : w ∈ done ++ [e.incoming] := List.mem_append_left _ hw
    have hr : r.hlc ≠ "" := hwhlc ▸ (hops w hold).1
    have hexisting := hread.1 r hstored
    subst hexisting
    have hsome : ∃ o ∈ done ++ [e.incoming], o.op ≠ .delete := ⟨w, hold, hwop⟩
    have hnot : ¬ ∀ o ∈ done ++ [e.incoming], o.op = .delete := fun hall => hwop (hall w hold)
    rcases hcases with ⟨haccepted, heq⟩ | ⟨_, heq⟩
    · have hop : e.incoming.op ≠ .delete := by
        intro hdelete
        have hlt := hfirst _ hlast hdelete w hold hwop
        rw [resolveConflict_delete hpolicy hr hdelete (hwhlc ▸ hlt)] at haccepted
        cases haccepted
      rcases Option.isSome_iff_exists.1 (resolveConflict_write hpolicy hr hop
        ((hops _ hlast).2 hop) haccepted) with ⟨row, hrow⟩
      subst heq
      refine ⟨cacheCurrent_record _ _ _, fun hall => absurd hall hnot, fun _ => ?_⟩
      exact ⟨_, stored_record s _ hrow, e.incoming, hlast, hop, rfl⟩
    · subst heq
      exact ⟨h.cached, fun hall => absurd hall hnot,
        fun _ => ⟨r, hstored, w, hold, hwop, hwhlc⟩⟩
  · push Not at hwritten
    have hrow := hread.2 (h.absent hwritten)
    rw [resolveConflict_absent hpolicy hrow] at hcases
    rcases hcases with ⟨_, heq⟩ | ⟨hrejected, _⟩
    · subst heq
      refine ⟨cacheCurrent_record _ _ _, fun hall => ?_, fun hwrite => ?_⟩
      · have hop : e.incoming.op = .delete := hall _ hlast
        simp [RowState.record, ConflictResult.stored, acceptFirst, ConflictResult.accept, hop]
      · have hop : e.incoming.op ≠ .delete := by
          rcases hwrite with ⟨o, ho, hop⟩
          rcases List.mem_append.1 ho with hold | hnew
          · exact absurd (hwritten o hold) hop
          · exact (List.mem_singleton.1 hnew) ▸ hop
        rcases Option.isSome_iff_exists.1 ((hops _ hlast).2 hop) with ⟨row, hpayload⟩
        have hresolved : (acceptFirst e.incoming).resolvedRow = some row := by
          simp [acceptFirst, ConflictResult.accept, hop, hpayload]
        exact ⟨_, stored_record s _ hresolved, e.incoming, hlast, hop, rfl⟩
    · simp [acceptFirst, ConflictResult.accept] at hrejected

theorem DeletesFirst.subset {set set' : List ConflictInput} (h : DeletesFirst set)
    (hsub : ∀ o ∈ set', o ∈ set) : DeletesFirst set' :=
  fun d hd hop w hw => h d (hsub d hd) hop w (hsub w hw)

theorem presenceInv_run (hpolicy : IsHlcPolicy policy) {set : List ConflictInput}
    (hops : ∀ o ∈ set, IsRowOp o) (hfirst : DeletesFirst set) :
    ∀ (events : List RowEvent) {done : List ConflictInput} {s s' : RowState},
      PresenceInv done s → (∀ o ∈ done ++ events.map (·.incoming), o ∈ set) →
      (rowMachine ops policy).runWith (fun _ _ => true) s events = some s' →
        PresenceInv (done ++ events.map (·.incoming)) s' := by
  intro events
  induction events with
  | nil =>
      intro done s s' h _ hs
      cases hs
      simpa using h
  | cons e events ih =>
      intro done s s' h hsub hs
      rcases Option.bind_eq_some_iff.1 hs with ⟨s₁, hs₁, hs⟩
      have hsub' : ∀ o ∈ done ++ [e.incoming], o ∈ set := by
        intro o ho
        refine hsub o ?_
        rcases List.mem_append.1 ho with hold | hnew
        · exact List.mem_append_left _ hold
        · exact List.mem_append_right _ (by simp [List.mem_singleton.1 hnew])
      have h₁ := h.process hpolicy (fun o ho => hops o (hsub' o ho)) (hfirst.subset hsub') hs₁
      have heq : done ++ (e :: events).map (·.incoming) =
          done ++ [e.incoming] ++ events.map (·.incoming) := by simp
      rw [heq] at hsub ⊢
      exact ih h₁ hsub hs

theorem presenceInv_start : PresenceInv [] .start := by
  refine ⟨fun existing hexisting => ?_, fun _ => rfl, fun h => ?_⟩
  · cases hexisting
  · rcases h with ⟨o, ho, _⟩
    cases ho

theorem newestWins_of_deletesFirst (hpolicy : IsHlcPolicy policy) {set : List ConflictInput}
    (hops : ∀ o ∈ set, IsRowOp o) (hfirst : DeletesFirst set) : NewestWins ops policy set := by
  have hrun : ∀ (events : List RowEvent) (s : RowState), (events.map (·.incoming)).Perm set →
      (rowMachine ops policy).run events = some s → PresenceInv (events.map (·.incoming)) s := by
    intro events s hperm hs
    exact presenceInv_run hpolicy hops hfirst events presenceInv_start
      (fun o ho => hperm.mem_iff.1 ho) hs
  refine ⟨fun events s hperm hs d hd hop hmax => ?_,
    fun before between after d w hperm hd hw hlt => ?_,
    fun events events' s s' hperm hperm' hs hs' => ?_⟩
  · -- Whatever is not a delete would be newer than the newest op.
    refine (hrun events s hperm hs).absent fun o ho => ?_
    by_contra hwrite
    have hmem := hperm.mem_iff.1 ho
    exact absurd (hmax o hmem) (not_le_of_gt (hfirst d hd hop o hmem hwrite))
  · have hdmem : d.incoming ∈ set := hperm.mem_iff.1 (by simp)
    have hwmem : w.incoming ∈ set := hperm.mem_iff.1 (by simp)
    exact absurd (hfirst _ hdmem hd _ hwmem hw) (lt_asymm hlt)
  · have hinv := hrun events s hperm hs
    have hinv' := hrun events' s' hperm' hs'
    by_cases hwritten : ∃ o ∈ set, o.op ≠ .delete
    · rcases hwritten with ⟨o, ho, hop⟩
      rcases hinv.present ⟨o, hperm.mem_iff.2 ho, hop⟩ with ⟨r, hr, _⟩
      rcases hinv'.present ⟨o, hperm'.mem_iff.2 ho, hop⟩ with ⟨r', hr', _⟩
      rw [hr, hr']
      rfl
    · push Not at hwritten
      rw [hinv.absent fun o ho => hwritten o (hperm.mem_iff.1 ho),
        hinv'.absent fun o ho => hwritten o (hperm'.mem_iff.1 ho)]

/-! ## When a delete comes first -/

/-- A delete leaves no row, so whatever comes after it is accepted. -/
theorem NewestWins.deletesFirst (hpolicy : IsHlcPolicy policy) {set : List ConflictInput}
    (hnodup : (set.map (·.hlc)).Nodup) (h : NewestWins ops policy set) : DeletesFirst set := by
  intro d hd hdelete w hw hwrite
  by_contra hnot
  have hne : w ≠ d := by
    rintro rfl
    exact hwrite hdelete
  have hlt : w.hlc < d.hlc := by
    refine lt_of_le_of_ne (le_of_not_gt hnot) fun heq => hne ?_
    exact List.inj_on_of_nodup_map hnodup hw hd heq
  -- The delete comes first, then the older op, then the rest.
  rcases exists_perm_cons hd with ⟨rest, hperm⟩
  have hwrest : w ∈ rest := by
    rcases List.mem_cons.1 (hperm.mem_iff.2 hw) with heq | hmem
    · exact absurd heq hne
    · exact hmem
  rcases exists_perm_cons hwrest with ⟨after, hafter⟩
  have horder : (([] ++ ⟨d, false⟩ :: [] ++ ⟨w, false⟩ :: after.map fun o => ⟨o, false⟩ :
      List RowEvent).map (·.incoming)).Perm set := by
    refine List.Perm.trans ?_ ((hafter.cons d).trans hperm)
    simp [Function.comp_def]
  have hfirst : RowState.start.process ops policy ⟨d, false⟩ =
      some (RowState.start.record (acceptFirst d) d.hlc) := by
    simp only [RowState.process, RowState.read, RowState.start, Bool.false_eq_true, if_false,
      Option.map_some]
    rw [resolveConflict_absent hpolicy rfl]
    rfl
  have hdaccepted : RowState.start.accepts ops policy ⟨d, false⟩ = true := by
    simp only [RowState.accepts, RowState.read, RowState.start, Bool.false_eq_true, if_false]
    rw [resolveConflict_absent hpolicy rfl]
    rfl
  have hrun : (rowMachine ops policy).run [⟨d, false⟩] =
      some (RowState.start.record (acceptFirst d) d.hlc) := by
    simp only [Lib.Machine.run, Lib.Machine.runWith, if_true]
    exact Option.bind_eq_some_iff.2 ⟨_, hfirst, rfl⟩
  have hstale := h.stale [] [] (after.map fun o => ⟨o, false⟩) ⟨d, false⟩ ⟨w, false⟩ horder hdelete
    hwrite hlt .start rfl hdaccepted _ hrun
  have habsent : (RowState.start.record (acceptFirst d) d.hlc).stored = none := by
    simp [RowState.record, ConflictResult.stored, acceptFirst, ConflictResult.accept, hdelete]
  simp only [RowState.accepts, RowState.read, habsent, Bool.false_eq_true, if_false] at hstale
  rw [resolveConflict_absent hpolicy rfl] at hstale
  cases hstale

/-- The deletes of a set of ops hold exactly if they are older than all of its inserts and
updates. -/
theorem newestWins_iff (hpolicy : IsHlcPolicy policy) {set : List ConflictInput}
    (hops : ∀ o ∈ set, IsRowOp o) (hnodup : (set.map (·.hlc)).Nodup) :
    NewestWins ops policy set ↔ DeletesFirst set :=
  ⟨fun h => h.deletesFirst hpolicy hnodup, newestWins_of_deletesFirst hpolicy hops⟩

/-- A row deleted and seeded again, with a later update. -/
theorem newestWins_seededAgain : NewestWins noText .lww [rowOp .delete [] "1.0.a",
    rowOp .insert [("title", .str "b")] "2.0.b", rowOp .update [("done", .bool true)] "3.0.a"] :=
  (newestWins_iff (Or.inl rfl) (by decide +kernel) (by decide +kernel)).2
    (by unfold DeletesFirst; decide +kernel)

/-- A delete is the newest op, and the insert it is newer than arrives after it. -/
theorem not_newestWins_lateInsert :
    ¬ ∀ (ops : TextOps) (policy : ConflictPolicy) (set : List ConflictInput), IsHlcPolicy policy →
      (∀ o ∈ set, IsRowOp o) → (set.map (·.hlc)).Nodup → NewestWins ops policy set := by
  intro h
  have hwins := h noText .merge
    [rowOp .delete [] "2.0.b", rowOp .insert [("title", .str "a")] "1.0.a"]
    (Or.inr rfl) (by decide +kernel) (by decide +kernel)
  have hrun : ((rowMachine noText .merge).run [⟨rowOp .delete [] "2.0.b", false⟩,
      ⟨rowOp .insert [("title", .str "a")] "1.0.a", false⟩]).map (·.stored.isSome) =
      some true := by decide +kernel
  rcases Option.map_eq_some_iff.1 hrun with ⟨s, hs, hstored⟩
  have hnone := hwins.newest _ s (.refl _) hs (rowOp .delete [] "2.0.b") (by simp) rfl
    (by decide +kernel)
  rw [hnone] at hstored
  cases hstored

end Server
end Reflectdb
