import Mathlib.Data.List.AList

/-!
# Replay — logs of keyed writes

A log is a list of writes `(key, value)`.  Replaying it into a map leaves at each key the value of
the key's last write; `lastWrite` is that value, and the lemmas below say how it composes.  A log
replayed twice, or two logs with no key in common in either order, come to the same map.
-/

namespace Reflectdb
namespace Lib

variable {α : Type} [DecidableEq α] {β : Type}

/-- Apply the writes in order. -/
def replay (m : AList fun _ : α => β) (log : List (α × β)) : AList fun _ : α => β :=
  log.foldl (fun m w => m.insert w.1 w.2) m

/-- The value of the last write to `k`. -/
def lastWrite : List (α × β) → α → Option β
  | [], _ => none
  | w :: log, k => (lastWrite log k).or (if w.1 = k then some w.2 else none)

@[simp] theorem replay_nil (m : AList fun _ : α => β) : replay m [] = m :=
  rfl

@[simp] theorem lastWrite_nil (k : α) : lastWrite ([] : List (α × β)) k = none :=
  rfl

theorem lastWrite_append (l₁ l₂ : List (α × β)) (k : α) :
    lastWrite (l₁ ++ l₂) k = (lastWrite l₂ k).or (lastWrite l₁ k) := by
  induction l₁ with
  | nil => simp
  | cons w l₁ ih =>
      simp [lastWrite, ih, Option.or_assoc]

/-- A map after a replay: the last write to the key, else what was there. -/
theorem lookup_replay (m : AList fun _ : α => β) (log : List (α × β)) (k : α) :
    (replay m log).lookup k = (lastWrite log k).or (m.lookup k) := by
  induction log generalizing m with
  | nil => simp
  | cons w log ih =>
      have hcons : replay m (w :: log) = replay (m.insert w.1 w.2) log := rfl
      rw [hcons, ih, lastWrite, Option.or_assoc]
      by_cases hk : w.1 = k
      · subst hk
        simp
      · simp [hk, AList.lookup_insert_ne (Ne.symm hk)]

theorem lookup_replay_empty (log : List (α × β)) (k : α) :
    (replay ∅ log).lookup k = lastWrite log k := by
  simp [lookup_replay]

theorem mem_of_lastWrite {log : List (α × β)} {k : α} {v : β} (h : lastWrite log k = some v) :
    (k, v) ∈ log := by
  induction log with
  | nil => simp at h
  | cons w log ih =>
      cases hl : lastWrite log k with
      | some v' =>
          have hv : v' = v := by simpa [lastWrite, hl] using h
          exact List.mem_cons_of_mem _ (ih (by rw [hl, hv]))
      | none =>
          have hw : w.1 = k ∧ w.2 = v := by simpa [lastWrite, hl] using h
          rw [← hw.1, ← hw.2]
          exact List.mem_cons_self

theorem lastWrite_eq_none {log : List (α × β)} {k : α} :
    lastWrite log k = none ↔ ∀ w ∈ log, w.1 ≠ k := by
  induction log with
  | nil => simp
  | cons w log ih => simp [lastWrite, ih, and_comm]

theorem lastWrite_of_mem_nodup {log : List (α × β)} (hnodup : (log.map (·.1)).Nodup) {k : α}
    {v : β} (h : (k, v) ∈ log) : lastWrite log k = some v := by
  cases hl : lastWrite log k with
  | none => exact absurd rfl (lastWrite_eq_none.1 hl _ h)
  | some v' =>
      have h' : (k, v') ∈ log := mem_of_lastWrite hl
      have : (k, v') = (k, v) := List.inj_on_of_nodup_map hnodup h' h rfl
      simpa using this

/-- Renaming keys injectively and changing values commutes with `lastWrite`. -/
theorem lastWrite_map {γ δ : Type} [DecidableEq γ] {g : α → γ} (hg : Function.Injective g)
    (f : β → δ) (log : List (α × β)) (k : α) :
    lastWrite (log.map fun w => (g w.1, f w.2)) (g k) = (lastWrite log k).map f := by
  induction log with
  | nil => simp
  | cons w log ih =>
      by_cases hk : w.1 = k
      · cases hl : lastWrite log k <;> simp [lastWrite, ih, hk, hl]
      · have hgk : g w.1 ≠ g k := fun h => hk (hg h)
        simp [lastWrite, ih, hk, hgk]

/-- Two ways of keying the same values that agree on one key each leave the same last value. -/
theorem lastWrite_congr {α' : Type} [DecidableEq α'] {f : β → α} {g : β → α'} {values : List β}
    {k : α} {k' : α'} (h : ∀ v ∈ values, f v = k ↔ g v = k') :
    lastWrite (values.map fun v => (f v, v)) k = lastWrite (values.map fun v => (g v, v)) k' := by
  induction values with
  | nil => rfl
  | cons v values ih =>
      have hrest := ih fun v' hv' => h v' (List.mem_cons_of_mem _ hv')
      have hv := h v List.mem_cons_self
      by_cases hk : f v = k
      · simp [lastWrite, hrest, hk, hv.1 hk]
      · have hk' : g v ≠ k' := fun heq => hk (hv.2 heq)
        simp [lastWrite, hrest, hk, hk']

/-! ## Logs read off maps -/

/-- The entries of a map, as writes. -/
def writes (entries : List (Sigma fun _ : α => β)) : List (α × β) :=
  entries.map fun e => (e.1, e.2)

theorem mem_entries_iff {m : AList fun _ : α => β} {k : α} {v : β} :
    (⟨k, v⟩ : Sigma fun _ : α => β) ∈ m.entries ↔ m.lookup k = some v :=
  AList.mem_lookup_iff.symm

omit [DecidableEq α] in
theorem nodup_map_fst_writes (m : AList fun _ : α => β) :
    ((writes m.entries).map (·.1)).Nodup := by
  have h : (m.entries.map Sigma.fst).Nodup := m.nodupKeys
  simpa [writes, Function.comp_def] using h

omit [DecidableEq α] in
/-- Filtering and transforming the entries of a map keeps their keys distinct. -/
theorem map_filterMap_sublist {γ δ : Type} {f : γ → Option δ} {p : γ → α} {q : δ → α}
    (h : ∀ x y, f x = some y → q y = p x) (l : List γ) :
    ((l.filterMap f).map q).Sublist (l.map p) := by
  induction l with
  | nil => simp
  | cons x l ih =>
      cases hx : f x with
      | none => simpa [hx] using ih.cons (p x)
      | some y => simpa [hx, h x y hx] using ih

theorem lastWrite_filter (m : AList fun _ : α => β) (p : (Sigma fun _ : α => β) → Bool) (k : α) :
    lastWrite (writes (m.entries.filter p)) k = (m.lookup k).filter fun v => p ⟨k, v⟩ := by
  have hsub : ((writes (m.entries.filter p)).map (·.1)).Sublist ((writes m.entries).map (·.1)) :=
    (List.filter_sublist.map _).map _
  have hnodup := (nodup_map_fst_writes m).sublist hsub
  cases hv : (m.lookup k).filter fun v => p ⟨k, v⟩ with
  | some v =>
      rcases Option.filter_eq_some_iff.1 hv with ⟨hlookup, hp⟩
      refine lastWrite_of_mem_nodup hnodup (List.mem_map.2 ⟨⟨k, v⟩, ?_, rfl⟩)
      exact List.mem_filter.2 ⟨mem_entries_iff.2 hlookup, hp⟩
  | none =>
      refine lastWrite_eq_none.2 fun w hw hk => ?_
      rcases List.mem_map.1 hw with ⟨e, he, rfl⟩
      rcases List.mem_filter.1 he with ⟨hmem, hp⟩
      subst hk
      have hlookup : m.lookup e.1 = some e.2 := mem_entries_iff.1 hmem
      simp [hlookup, Option.filter, hp] at hv

/-- The entries of a map with what `f` makes of their values, where it makes something. -/
theorem lastWrite_filterMap {γ : Type} (m : AList fun _ : α => β) (f : β → Option γ) (k : α) :
    lastWrite (m.entries.filterMap fun e => (f e.2).map fun v => (e.1, v)) k =
      (m.lookup k).bind f := by
  have hkey : ∀ (e : Sigma fun _ : α => β) (w : α × γ),
      (f e.2).map (fun v => (e.1, v)) = some w → w.1 = e.1 := by
    intro e w hw
    rcases Option.map_eq_some_iff.1 hw with ⟨v, -, rfl⟩
    rfl
  have hkeys : (m.entries.map Sigma.fst).Nodup := m.nodupKeys
  have hnodup := hkeys.sublist (map_filterMap_sublist hkey m.entries)
  cases hv : (m.lookup k).bind f with
  | some v =>
      rcases Option.bind_eq_some_iff.1 hv with ⟨u, hlookup, hu⟩
      refine lastWrite_of_mem_nodup hnodup (List.mem_filterMap.2 ⟨⟨k, u⟩, ?_, ?_⟩)
      · exact mem_entries_iff.2 hlookup
      · rw [hu, Option.map_some]
  | none =>
      refine lastWrite_eq_none.2 fun w hw hk => ?_
      rcases List.mem_filterMap.1 hw with ⟨e, he, hwrite⟩
      rcases Option.map_eq_some_iff.1 hwrite with ⟨v, hvalue, rfl⟩
      subst hk
      rw [mem_entries_iff.1 he, Option.bind_some, hvalue] at hv
      cases hv

@[simp] theorem lastWrite_entries (m : AList fun _ : α => β) (k : α) :
    lastWrite (writes m.entries) k = m.lookup k := by
  have h := lastWrite_filter m (fun _ => true) k
  cases hk : m.lookup k <;> simpa [hk, Option.filter] using h

theorem lastWrite_const (ks : List α) (v : β) (k : α) :
    lastWrite (ks.map fun k' => (k', v)) k = if k ∈ ks then some v else none := by
  induction ks with
  | nil => simp
  | cons k' ks ih =>
      by_cases hk : k ∈ ks
      · simp [lastWrite, ih, hk]
      · by_cases hk' : k' = k
        · subst hk'
          simp [lastWrite, ih, hk]
        · simp [lastWrite, ih, hk, hk', Ne.symm hk']

/-- A map after keys have been erased. -/
theorem lookup_foldl_erase (ks : List α) (k : α) :
    ∀ m : AList fun _ : α => β,
      (ks.foldl (fun m k => m.erase k) m).lookup k = if k ∈ ks then none else m.lookup k := by
  induction ks with
  | nil =>
      intro m
      simp
  | cons k' ks ih =>
      intro m
      refine (ih _).trans ?_
      by_cases hk : k = k'
      · subst hk
        simp
      · rw [AList.lookup_erase_ne hk]
        simp [hk]

/-! ## Overlapping logs -/

section

variable {ρ μ : Type} (op : μ → μ → μ) (f : List ρ → μ)

/-- Where doing a thing twice is doing it once, a stretch of the log may be replayed. -/
theorem overlap_append (hassoc : ∀ a b c, op (op a b) c = op a (op b c)) (hidem : ∀ a, op a a = a)
    (hf : ∀ l₁ l₂, f (l₁ ++ l₂) = op (f l₁) (f l₂)) (front middle back : List ρ) :
    op (f (front ++ middle)) (f (middle ++ back)) = f (front ++ middle ++ back) := by
  calc
    op (f (front ++ middle)) (f (middle ++ back))
        = op (f front) (op (op (f middle) (f middle)) (f back)) := by
          rw [hf, hf, hassoc, hassoc]
    _ = op (op (f front) (f middle)) (f back) := by rw [hidem, hassoc]
    _ = f (front ++ middle ++ back) := by rw [hf, hf]

/-- A log from any place that a prefix of it has reached. -/
theorem overlap_take_drop (hassoc : ∀ a b c, op (op a b) c = op a (op b c))
    (hidem : ∀ a, op a a = a) (hf : ∀ l₁ l₂, f (l₁ ++ l₂) = op (f l₁) (f l₂)) (log : List ρ)
    {i k : Nat} (hik : i ≤ k) : op (f (log.take k)) (f (log.drop i)) = f log := by
  have hfront : log.take k = log.take i ++ (log.drop i).take (k - i) := by
    rw [← List.take_add, Nat.add_sub_cancel' hik]
  have hback : log.drop i = (log.drop i).take (k - i) ++ log.drop k := by
    have hdrop : log.drop k = (log.drop i).drop (k - i) := by
      rw [List.drop_drop, Nat.add_sub_cancel' hik]
    rw [hdrop, List.take_append_drop]
  calc
    op (f (log.take k)) (f (log.drop i))
        = op (f (log.take i ++ (log.drop i).take (k - i)))
            (f ((log.drop i).take (k - i) ++ log.drop k)) := by rw [← hfront, ← hback]
    _ = f (log.take i ++ (log.drop i).take (k - i) ++ log.drop k) :=
          overlap_append op f hassoc hidem hf _ _ _
    _ = f log := by rw [← hfront, List.take_append_drop]

end

end Lib
end Reflectdb
