import Mathlib.Data.List.Range
import Reflectdb.Lib.Hunks

/-!
# Hunk trace — where the elements of an edited list come from

Hunks are applied to the positions of a list as to the list itself, so that a result can be read
with the position each element was copied from.  An offset into the list is carried over hunks; a
merge is the application of the hunks that its rounds take.
-/

namespace Reflectdb
namespace Lib
namespace Hunk

variable {γ δ : Type}

/-! ## Hunks of another list -/

def map (f : γ → δ) (h : Hunk γ) : Hunk δ :=
  ⟨h.start, h.stop, h.insert.map f⟩

theorem slice_map (f : γ → δ) (text : List γ) (i j : Nat) :
    slice (text.map f) i j = (slice text i j).map f := by
  simp [slice]

theorem applyFrom_map (f : γ → δ) (text : List γ) (hs : List (Hunk γ)) :
    ∀ pos : Nat, applyFrom (text.map f) pos (hs.map (map f)) = (applyFrom text pos hs).map f := by
  induction hs with
  | nil => exact fun pos => List.map_drop.symm
  | cons h hs ih =>
      intro pos
      simp only [List.map_cons, applyFrom, List.map_append, ih]
      rw [show (map f h).start = h.start from rfl, slice_map]
      rfl

/-! ## Traces -/

/-- The elements of the list with their positions. -/
def positioned (text : List γ) : List (Option Nat × γ) :=
  text.zipIdx.map fun e => (some e.2, e.1)

/-- The hunks with inserts that have no positions. -/
def unpositioned (h : Hunk γ) : Hunk (Option Nat × γ) :=
  h.map fun c => (none, c)

/-- The elements of the list from `pos` on with the ranges replaced, each with the position that it
was copied from. -/
def traceFrom (text : List γ) (pos : Nat) (hs : List (Hunk γ)) : List (Option Nat × γ) :=
  applyFrom (positioned text) pos (hs.map unpositioned)

def trace (text : List γ) (hs : List (Hunk γ)) : List (Option Nat × γ) :=
  traceFrom text 0 hs

theorem map_snd_traceFrom (text : List γ) (pos : Nat) (hs : List (Hunk γ)) :
    (traceFrom text pos hs).map (·.2) = applyFrom text pos hs := by
  have hmap := applyFrom_map Prod.snd (positioned text) (hs.map unpositioned) pos
  have htext : (positioned text).map Prod.snd = text := by
    simp [positioned, Function.comp_def]
  have hhunks : (hs.map unpositioned).map (map Prod.snd) = hs := by
    simp [map, unpositioned, Function.comp_def]
  rw [htext, hhunks] at hmap
  exact hmap.symm

theorem map_snd_trace (text : List γ) (hs : List (Hunk γ)) :
    (trace text hs).map (·.2) = apply text hs :=
  map_snd_traceFrom text 0 hs

/-- No hunk replaces the element at the position. -/
def Untouched (hs : List (Hunk γ)) (i : Nat) : Prop :=
  ∀ h ∈ hs, i < h.start ∨ h.stop ≤ i

instance (hs : List (Hunk γ)) : DecidablePred (Untouched hs) :=
  fun _ => inferInstanceAs (Decidable (∀ h ∈ hs, _))

theorem getElem?_positioned {text : List γ} {i : Nat} {c : γ} (h : text[i]? = some c) :
    (positioned text)[i]? = some (some i, c) := by
  simp [positioned, h]

theorem length_positioned (text : List γ) : (positioned text).length = text.length := by
  simp [positioned]

theorem length_slice {text : List γ} (i : Nat) {j : Nat} (hj : j ≤ text.length) :
    (slice text i j).length = j - i := by
  simp only [slice, List.length_take, List.length_drop]
  omega

theorem getElem?_slice {text : List γ} {i j k : Nat} (hi : i ≤ k) (hk : k < j) :
    (slice text i j)[k - i]? = text[k]? := by
  rw [slice, List.getElem?_take_of_lt (by omega), List.getElem?_drop, Nat.add_sub_cancel' hi]

/-! ## Offsets -/

/-- How much longer the list gets. -/
def shift (h : Hunk γ) : ℤ :=
  h.insert.length - ((h.stop : ℤ) - h.start)

/-- Where an offset lands; `delta` is what the hunks passed so far have shifted. -/
def mapOffsetFrom (delta offset : ℤ) : List (Hunk γ) → ℤ
  | [] => offset + delta
  | h :: hs =>
    if (h.stop : ℤ) < offset ∨ (h.stop : ℤ) = offset ∧ (h.start : ℤ) < offset then
      mapOffsetFrom (delta + h.shift) offset hs
    else if (h.start : ℤ) < offset then h.start + delta + h.insert.length
    else offset + delta

section Offsets

variable {hs : List (Hunk γ)} {len : Nat}

/-- An offset behind `pos` stays behind where `pos` lands. -/
theorem le_mapOffsetFrom (offset : ℤ) :
    ∀ {pos : Nat} (delta : ℤ), Forward len pos hs → (pos : ℤ) ≤ offset →
      pos + delta ≤ mapOffsetFrom delta offset hs := by
  induction hs with
  | nil =>
      intro pos delta _ hle
      rw [mapOffsetFrom]
      omega
  | cons h hs ih =>
      intro pos delta hf hle
      have hstart := hf.1
      have hstop := hf.2.1
      rw [mapOffsetFrom]
      split
      · rename_i hpast
        have hrest := ih (delta + h.shift) hf.2.2 (by omega)
        unfold shift at hrest ⊢
        omega
      · split <;> omega

/-- Of two offsets the later one does not land before the other. -/
theorem mapOffsetFrom_mono {offset offset' : ℤ} (hle : offset ≤ offset') :
    ∀ {pos : Nat} (delta : ℤ), Forward len pos hs →
      mapOffsetFrom delta offset hs ≤ mapOffsetFrom delta offset' hs := by
  induction hs with
  | nil =>
      intro pos delta _
      simp only [mapOffsetFrom]
      omega
  | cons h hs ih =>
      intro pos delta hf
      have hstop := hf.2.1
      rw [mapOffsetFrom, mapOffsetFrom]
      by_cases hpast : (h.stop : ℤ) < offset ∨ (h.stop : ℤ) = offset ∧ (h.start : ℤ) < offset
      · rw [if_pos hpast, if_pos (by omega)]
        exact ih _ hf.2.2
      · rw [if_neg hpast]
        by_cases hpast' : (h.stop : ℤ) < offset' ∨ (h.stop : ℤ) = offset' ∧ (h.start : ℤ) < offset'
        · -- The later one has passed the hunk: it lands behind the insert.
          rw [if_pos hpast']
          have hland := le_mapOffsetFrom offset' (delta + h.shift) hf.2.2 (by omega)
          unfold shift at hland ⊢
          split <;> omega
        · rw [if_neg hpast']
          split <;> split <;> omega

/-- An offset within the list lands within the result. -/
theorem mapOffsetFrom_le {text : List γ} {offset : ℤ} (hend : offset ≤ text.length) :
    ∀ {pos : Nat} (delta : ℤ), Forward text.length pos hs → (pos : ℤ) ≤ offset →
      mapOffsetFrom delta offset hs ≤ pos + delta + (applyFrom text pos hs).length := by
  induction hs with
  | nil =>
      intro pos delta hf hle
      simp only [mapOffsetFrom, applyFrom, List.length_drop]
      omega
  | cons h hs ih =>
      intro pos delta hf hle
      have hstart := hf.1
      have hstop := hf.2.1
      have hlen := length_slice pos (Nat.le_trans hstop hf.2.2.le_length)
      rw [mapOffsetFrom]
      simp only [applyFrom, List.length_append]
      split
      · have hrest := ih (delta + h.shift) hf.2.2 (by omega)
        unfold shift at hrest ⊢
        omega
      · split <;> omega

/-- The offset behind an element that no hunk replaces lands behind the copy of the element. -/
theorem mapOffsetFrom_copy {text : List γ} {i : Nat} {c : γ} (hc : text[i]? = some c) :
    ∀ {pos : Nat} (delta : ℤ), Forward text.length pos hs → Untouched hs i → pos ≤ i →
      ∃ m : Nat, mapOffsetFrom delta (i + 1 : Nat) hs = pos + delta + (m + 1) ∧
        (traceFrom text pos hs)[m]? = some (some i, c) := by
  have hi : i < text.length := (List.getElem?_eq_some_iff.1 hc).1
  induction hs with
  | nil =>
      intro pos delta _ _ hle
      refine ⟨i - pos, ?_, ?_⟩
      · rw [mapOffsetFrom]
        omega
      · simp only [traceFrom, List.map_nil, applyFrom]
        rw [List.getElem?_drop, Nat.add_sub_cancel' hle]
        exact getElem?_positioned hc
  | cons h hs ih =>
      intro pos delta hf hfree hle
      have hstart := hf.1
      have hstop := hf.2.1
      have hhead := hfree h List.mem_cons_self
      have hslice : (slice (positioned text) pos h.start).length = h.start - pos :=
        length_slice pos (by rw [length_positioned]; exact Nat.le_trans hstop hf.2.2.le_length)
      have htrace : traceFrom text pos (h :: hs) = slice (positioned text) pos h.start ++
          (unpositioned h).insert ++ traceFrom text h.stop hs := rfl
      rw [mapOffsetFrom, htrace]
      rcases hhead with hbefore | hbehind
      · -- The element stands before the hunk.
        refine ⟨i - pos, ?_, ?_⟩
        · rw [if_neg (by omega), if_neg (by omega)]
          omega
        · rw [List.append_assoc, List.getElem?_append_left (by omega),
            getElem?_slice hle hbefore]
          exact getElem?_positioned hc
      · rcases ih (delta + h.shift) hf.2.2
          (fun h' hh' => hfree h' (List.mem_cons_of_mem _ hh')) hbehind with ⟨m, hland, hcopy⟩
        have hins : (unpositioned h).insert.length = h.insert.length := by
          simp [unpositioned, map]
        refine ⟨h.start - pos + h.insert.length + m, ?_, ?_⟩
        · rw [if_pos (by omega), hland]
          unfold shift
          omega
        · rw [List.getElem?_append_right (by rw [List.length_append]; omega), List.length_append,
            hslice, hins, Nat.add_sub_cancel_left]
          exact hcopy

end Offsets

end Hunk
end Lib
end Reflectdb
