import Mathlib.Data.List.AList
import Mathlib.Algebra.GroupWithZero.Nat
import Mathlib.Algebra.BigOperators.Group.List.Basic

/-!
# Totals — the sum of the sizes of a map's entries

The sum moves with each entry that is set or erased, by what stood at its key before.
-/

namespace Reflectdb
namespace Lib

variable {α : Type} {β : Type}

/-- The sizes of all entries. -/
def total (size : α → β → Nat) (m : AList fun _ : α => β) : Nat :=
  (m.entries.map fun e => size e.1 e.2).sum

@[simp] theorem total_empty {size : α → β → Nat} :
    total size (∅ : AList fun _ : α => β) = 0 :=
  rfl

variable [DecidableEq α]

/-- The size of what stands at a key. -/
def sizeAt (size : α → β → Nat) (m : AList fun _ : α => β) (k : α) : Nat :=
  (m.lookup k).elim 0 (size k)

variable (size : α → β → Nat)

theorem sizeAt_of_notMem {m : AList fun _ : α => β} {k : α} (h : k ∉ m) : sizeAt size m k = 0 := by
  rw [sizeAt, AList.lookup_eq_none.2 h]
  rfl

theorem total_erase (m : AList fun _ : α => β) (k : α) :
    total size (m.erase k) + sizeAt size m k = total size m := by
  have hlist : ∀ entries : List (Sigma fun _ : α => β),
      ((entries.kerase k).map fun e => size e.1 e.2).sum + (entries.dlookup k).elim 0 (size k) =
        (entries.map fun e => size e.1 e.2).sum := by
    intro entries
    induction entries with
    | nil => rfl
    | cons e entries ih =>
        by_cases hk : k = e.1
        · subst hk
          rw [List.kerase_cons_eq rfl, List.dlookup_cons_eq, List.map_cons, List.sum_cons,
            Nat.add_comm]
          rfl
        · rw [List.kerase_cons_ne hk, List.dlookup_cons_ne _ _ hk, List.map_cons, List.map_cons,
            List.sum_cons, List.sum_cons, Nat.add_assoc, ih]
  exact hlist m.entries

theorem total_insert (m : AList fun _ : α => β) (k : α) (v : β) :
    total size (m.insert k v) + sizeAt size m k = total size m + size k v := by
  have hinsert : total size (m.insert k v) = size k v + total size (m.erase k) := by
    rw [total, AList.entries_insert, List.map_cons, List.sum_cons]
    rfl
  rw [hinsert, Nat.add_assoc, total_erase, Nat.add_comm]

/-- The entry of a new key is added. -/
theorem total_insert_of_notMem {m : AList fun _ : α => β} {k : α} (h : k ∉ m) (v : β) :
    total size (m.insert k v) = total size m + size k v := by
  have hinsert := total_insert size m k v
  rwa [sizeAt_of_notMem size h, Nat.add_zero] at hinsert

theorem sizeAt_le_total (m : AList fun _ : α => β) (k : α) :
    sizeAt size m k ≤ total size m :=
  Nat.le_of_add_left_le (total_erase size m k).le

/-- Erasing several entries takes the size of each off, where the size depends on the key only. -/
theorem total_foldl_erase (size : α → Nat) {ks : List α} (hks : ks.Nodup) :
    ∀ {m : AList fun _ : α => β}, (∀ k ∈ ks, k ∈ m) →
      total (fun k _ => size k) (ks.foldl (fun m k => m.erase k) m) + (ks.map size).sum =
        total (fun k _ => size k) m := by
  induction ks with
  | nil => exact fun _ => rfl
  | cons k ks ih =>
      intro m hmem
      rcases List.nodup_cons.1 hks with ⟨hk, hks⟩
      have hrest : ∀ k' ∈ ks, k' ∈ m.erase k := by
        intro k' hk'
        refine AList.mem_erase.2 ⟨?_, hmem k' (List.mem_cons_of_mem _ hk')⟩
        exact fun heq => hk (heq ▸ hk')
      have hat : sizeAt (fun k _ => size k) m k = size k := by
        obtain ⟨v, hv⟩ := Option.isSome_iff_exists.1
          (AList.lookup_isSome.2 (hmem k List.mem_cons_self))
        rw [sizeAt, hv]
        rfl
      calc
        total (fun k _ => size k) ((k :: ks).foldl (fun m k => m.erase k) m) +
              ((k :: ks).map size).sum
            = total (fun k _ => size k) (ks.foldl (fun m k => m.erase k) (m.erase k)) +
                (ks.map size).sum + size k := by
              rw [List.foldl_cons, List.map_cons, List.sum_cons]
              omega
        _ = total (fun k _ => size k) (m.erase k) + size k := by rw [ih hks hrest]
        _ = total (fun k _ => size k) m := by rw [← hat, total_erase]

end Lib
end Reflectdb
