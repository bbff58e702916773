import Reflectdb.Lib.Replay

/-!
# Keyed diff — the messages that lead from one map to another

For each key that only the new map has, an insert; for each that both have, an update if something
changed; for each that only the old map has, a delete.  No two messages are about one key, so that a
receiver that files each message under its key meets each of them with what it had there at first.
-/

namespace Reflectdb
namespace Lib

variable {κ ρ γ μ : Type} [DecidableEq κ]

structure KeyedDiff (κ ρ γ : Type) where
  inserted : List (κ × ρ)
  updated : List (κ × γ)
  deleted : List κ

/-- `change` is what an update says of the two values, if it says something. -/
def keyedDiff (change : ρ → ρ → Option γ) (old new : AList fun _ : κ => ρ) : KeyedDiff κ ρ γ where
  inserted := writes (new.entries.filter fun e => (old.lookup e.1).isNone)
  updated := new.entries.filterMap fun e =>
    ((old.lookup e.1).bind fun o => change o e.2).map fun c => (e.1, c)
  deleted := old.keys.filter (· ∉ new)

/-- How the three parts of a diff are put into messages, each about one key. -/
structure Messages (κ ρ γ μ : Type) where
  key : μ → κ
  insert : κ → ρ → μ
  update : κ → γ → μ
  delete : κ → μ
  key_insert : ∀ k r, key (insert k r) = k
  key_update : ∀ k c, key (update k c) = k
  key_delete : ∀ k, key (delete k) = k

attribute [simp] Messages.key_insert Messages.key_update Messages.key_delete

namespace Messages

variable (ms : Messages κ ρ γ μ) (change : ρ → ρ → Option γ)

def all (d : KeyedDiff κ ρ γ) : List μ :=
  d.inserted.map (fun e => ms.insert e.1 e.2) ++ d.updated.map (fun e => ms.update e.1 e.2) ++
    d.deleted.map ms.delete

/-- The message about one key, from what the two maps have there. -/
def ofKey (k : κ) : Option ρ → Option ρ → Option μ
  | none, none => none
  | none, some r => some (ms.insert k r)
  | some _, none => some (ms.delete k)
  | some o, some r => (change o r).map (ms.update k)

variable {ms change} {old new : AList fun _ : κ => ρ}

theorem mem_inserted {e : κ × ρ} :
    e ∈ (keyedDiff change old new).inserted ↔
      old.lookup e.1 = none ∧ new.lookup e.1 = some e.2 := by
  constructor
  · intro h
    rcases List.mem_map.1 h with ⟨e', he', rfl⟩
    rcases List.mem_filter.1 he' with ⟨hmem, hnone⟩
    exact ⟨Option.isNone_iff_eq_none.1 hnone, mem_entries_iff.1 hmem⟩
  · rintro ⟨hnone, hsome⟩
    refine List.mem_map.2 ⟨⟨e.1, e.2⟩, List.mem_filter.2 ⟨mem_entries_iff.2 hsome, ?_⟩, rfl⟩
    exact Option.isNone_iff_eq_none.2 hnone

theorem mem_updated {e : κ × γ} :
    e ∈ (keyedDiff change old new).updated ↔
      ∃ o r, old.lookup e.1 = some o ∧ new.lookup e.1 = some r ∧ change o r = some e.2 := by
  constructor
  · intro h
    rcases List.mem_filterMap.1 h with ⟨e', he', heq⟩
    rcases Option.map_eq_some_iff.1 heq with ⟨c, hc, rfl⟩
    rcases Option.bind_eq_some_iff.1 hc with ⟨o, ho, hchange⟩
    exact ⟨o, e'.2, ho, mem_entries_iff.1 he', hchange⟩
  · rintro ⟨o, r, ho, hr, hchange⟩
    refine List.mem_filterMap.2 ⟨⟨e.1, r⟩, mem_entries_iff.2 hr, ?_⟩
    rw [ho, Option.bind_some, hchange, Option.map_some]

theorem mem_deleted {k : κ} :
    k ∈ (keyedDiff change old new).deleted ↔ (old.lookup k).isSome ∧ new.lookup k = none := by
  simp [keyedDiff, AList.mem_keys, AList.lookup_isSome, AList.lookup_eq_none]

omit [DecidableEq κ] in
theorem key_of_ofKey {k : κ} {o r : Option ρ} {m : μ} (h : ms.ofKey change k o r = some m) :
    ms.key m = k := by
  cases o with
  | none =>
      cases r with
      | none => cases h
      | some r =>
          cases h
          exact ms.key_insert k r
  | some o =>
      cases r with
      | none =>
          cases h
          exact ms.key_delete k
      | some r =>
          rcases Option.map_eq_some_iff.1 h with ⟨c, -, rfl⟩
          exact ms.key_update k c

/-- The messages of a diff are those of its keys. -/
theorem mem_all_iff {m : μ} :
    m ∈ ms.all (keyedDiff change old new) ↔
      ms.ofKey change (ms.key m) (old.lookup (ms.key m)) (new.lookup (ms.key m)) = some m := by
  unfold all
  rw [List.mem_append, List.mem_append]
  constructor
  · rintro ((h | h) | h)
    · rcases List.mem_map.1 h with ⟨e, he, rfl⟩
      rcases mem_inserted.1 he with ⟨hold, hnew⟩
      rw [ms.key_insert, hold, hnew]
      rfl
    · rcases List.mem_map.1 h with ⟨e, he, rfl⟩
      rcases mem_updated.1 he with ⟨o, r, hold, hnew, hchange⟩
      rw [ms.key_update, hold, hnew, ofKey, hchange, Option.map_some]
    · rcases List.mem_map.1 h with ⟨k, hk, rfl⟩
      rcases mem_deleted.1 hk with ⟨hold, hnew⟩
      rcases Option.isSome_iff_exists.1 hold with ⟨o, ho⟩
      rw [ms.key_delete, ho, hnew]
      rfl
  · intro h
    cases hold : old.lookup (ms.key m) with
    | none =>
        cases hnew : new.lookup (ms.key m) with
        | none =>
            rw [hold, hnew] at h
            cases h
        | some r =>
            rw [hold, hnew] at h
            exact .inl (.inl (List.mem_map.2
              ⟨(ms.key m, r), mem_inserted.2 ⟨hold, hnew⟩, Option.some.inj h⟩))
    | some o =>
        cases hnew : new.lookup (ms.key m) with
        | none =>
            rw [hold, hnew] at h
            have hsome : (old.lookup (ms.key m)).isSome = true := by rw [hold, Option.isSome_some]
            exact .inr (List.mem_map.2 ⟨_, mem_deleted.2 ⟨hsome, hnew⟩, Option.some.inj h⟩)
        | some r =>
            rw [hold, hnew] at h
            rcases Option.map_eq_some_iff.1 h with ⟨c, hc, hm⟩
            exact .inl (.inr (List.mem_map.2
              ⟨(ms.key m, c), mem_updated.2 ⟨o, r, hold, hnew, hc⟩, hm⟩))

/-- At most one message is about a key. -/
theorem nodup_keys : ((ms.all (keyedDiff change old new)).map ms.key).Nodup := by
  have hkeys : (new.entries.map Sigma.fst).Nodup := new.nodupKeys
  have hins : ((keyedDiff change old new).inserted.map (·.1)).Nodup :=
    (nodup_map_fst_writes new).sublist ((List.filter_sublist.map _).map _)
  have hupd : ((keyedDiff change old new).updated.map (·.1)).Nodup := by
    refine hkeys.sublist (map_filterMap_sublist (fun e w hw => ?_) new.entries)
    rcases Option.map_eq_some_iff.1 hw with ⟨c, -, rfl⟩
    rfl
  have hdel : (keyedDiff change old new).deleted.Nodup := old.keys_nodup.filter _
  have hids : (ms.all (keyedDiff change old new)).map ms.key =
      (keyedDiff change old new).inserted.map (·.1) ++
        (keyedDiff change old new).updated.map (·.1) ++ (keyedDiff change old new).deleted := by
    simp [all, Function.comp_def]
  -- The three parts are told apart by what the two maps have under the key.
  rw [hids]
  refine List.nodup_append.2 ⟨List.nodup_append.2 ⟨hins, hupd, ?_⟩, hdel, ?_⟩
  · intro k hk k' hk' heq
    subst heq
    rcases List.mem_map.1 hk with ⟨e, he, rfl⟩
    rcases List.mem_map.1 hk' with ⟨e', he', heq⟩
    rcases mem_updated.1 he' with ⟨o, r, hold, -⟩
    rw [heq, (mem_inserted.1 he).1] at hold
    cases hold
  · intro k hk k' hk' heq
    subst heq
    have hnone := (mem_deleted.1 hk').2
    rcases List.mem_append.1 hk with hk | hk
    · rcases List.mem_map.1 hk with ⟨e, he, rfl⟩
      rw [(mem_inserted.1 he).2] at hnone
      cases hnone
    · rcases List.mem_map.1 hk with ⟨e, he, rfl⟩
      rcases mem_updated.1 he with ⟨o, r, -, hnew, -⟩
      rw [hnew] at hnone
      cases hnone

end Messages

/-! ## Receiving -/

/-- A receiver that a message changes at the message's own place only, by what it has there. -/
structure Files {σ π υ : Type} (step : σ → μ → σ) (read : σ → π → υ) (place : μ → π) : Prop where
  frame : ∀ s m p, p ≠ place m → read (step s m) p = read s p
  here : ∀ s s' m, read s (place m) = read s' (place m) →
    read (step s m) (place m) = read (step s' m) (place m)

namespace Files

variable {σ π υ : Type} {step : σ → μ → σ} {read : σ → π → υ} {place : μ → π}

theorem foldl_of_forall_ne (h : Files step read place) {p : π} :
    ∀ {messages : List μ} {s : σ}, (∀ m ∈ messages, p ≠ place m) →
      read (messages.foldl step s) p = read s p := by
  intro messages
  induction messages with
  | nil => exact fun _ => rfl
  | cons m messages ih =>
      intro s hne
      rw [List.forall_mem_cons] at hne
      rw [List.foldl_cons, ih hne.2, h.frame s m p hne.1]

/-- Of messages at different places, each meets what was there at first. -/
theorem foldl_of_mem (h : Files step read place) :
    ∀ {messages : List μ} {s : σ}, (messages.map place).Nodup → ∀ {m : μ}, m ∈ messages →
      read (messages.foldl step s) (place m) = read (step s m) (place m) := by
  intro messages
  induction messages with
  | nil => exact fun _ _ hmem => absurd hmem List.not_mem_nil
  | cons m₀ messages ih =>
      intro s hnodup m hmem
      rw [List.map_cons, List.nodup_cons] at hnodup
      rw [List.foldl_cons]
      rcases List.mem_cons.1 hmem with rfl | hmem
      · exact h.foldl_of_forall_ne fun m' hm' heq =>
          hnodup.1 (heq ▸ List.mem_map_of_mem hm')
      · have hne : place m ≠ place m₀ := fun heq => hnodup.1 (heq ▸ List.mem_map_of_mem hmem)
        exact (ih hnodup.2 hmem).trans (h.here _ _ m (h.frame s m₀ _ hne))

/-- A receiver of a whole diff: at the place of a key it has what the key's message makes of what it
had there, if there is one. -/
theorem foldl_all {ms : Messages κ ρ γ μ} {change : ρ → ρ → Option γ}
    {old new : AList fun _ : κ => ρ} {place : κ → π} (hplace : Function.Injective place)
    (h : Files step read fun m => place (ms.key m)) (s : σ) (k : κ) :
    read ((ms.all (keyedDiff change old new)).foldl step s) (place k) =
      match ms.ofKey change k (old.lookup k) (new.lookup k) with
      | some m => read (step s m) (place k)
      | none => read s (place k) := by
  have hnodup : ((ms.all (keyedDiff change old new)).map fun m => place (ms.key m)).Nodup := by
    have hkeys := (@Messages.nodup_keys _ _ _ _ _ ms change old new).map hplace
    rwa [List.map_map] at hkeys
  cases hm : ms.ofKey change k (old.lookup k) (new.lookup k) with
  | some m =>
      have hkey := Messages.key_of_ofKey hm
      subst hkey
      exact h.foldl_of_mem hnodup (Messages.mem_all_iff.2 hm)
  | none =>
      refine h.foldl_of_forall_ne fun m hmem heq => ?_
      have hk : k = ms.key m := hplace heq
      rw [hk, Messages.mem_all_iff.1 hmem] at hm
      cases hm

end Files

end Lib
end Reflectdb
