import Mathlib.Data.List.Forall2
import Mathlib.Data.List.Perm.Subperm
import Reflectdb.Lib.JsonText
import Reflectdb.Lib.Replay

/-!
# JavaScript values — what a query returns, and its JSON

A column of a result may be `undefined`, and so may parts of it, which JSON leaves out of objects
and writes as `null` in arrays.  `deepEqual` takes two values for equal only where their JSON is the
same up to the order of keys.
-/

namespace Reflectdb
namespace Core

open Lib

inductive JsValue
  | undefined
  | null
  | bool (b : Bool)
  | num (n : JsonText.Number)
  | str (s : Lib.Text)
  | arr (elems : List JsValue)
  | obj (fields : List (Lib.Text × JsValue))

namespace JsValue

theorem induct {P : JsValue → Prop} (undefined : P .undefined) (null : P .null)
    (bool : ∀ b, P (.bool b)) (num : ∀ n, P (.num n)) (str : ∀ s, P (.str s))
    (arr : ∀ elems, (∀ x ∈ elems, P x) → P (.arr elems))
    (obj : ∀ fields, (∀ f ∈ fields, P f.2) → P (.obj fields)) (v : JsValue) : P v := by
  refine @JsValue.rec P (fun elems => ∀ x ∈ elems, P x) (fun fields => ∀ f ∈ fields, P f.2)
    (fun f => P f.2) undefined null bool num str arr obj ?_ ?_ ?_ ?_ ?_ v
  · exact fun x hx => absurd hx List.not_mem_nil
  · exact fun x elems hx helems => List.forall_mem_cons.2 ⟨hx, helems⟩
  · exact fun f hf => absurd hf List.not_mem_nil
  · exact fun f fields hf hfields => List.forall_mem_cons.2 ⟨hf, hfields⟩
  · exact fun _ _ hv => hv

mutual

/-- The keys of an object are distinct, at every depth. -/
def Distinct : JsValue → Prop
  | .arr elems => DistinctElems elems
  | .obj fields => (fields.map Prod.fst).Nodup ∧ DistinctFields fields
  | _ => True

def DistinctElems : List JsValue → Prop
  | [] => True
  | x :: xs => Distinct x ∧ DistinctElems xs

def DistinctFields : List (Lib.Text × JsValue) → Prop
  | [] => True
  | (_, x) :: fs => Distinct x ∧ DistinctFields fs

end

theorem distinctElems_iff {elems : List JsValue} :
    DistinctElems elems ↔ ∀ x ∈ elems, x.Distinct := by
  induction elems with
  | nil => simp [DistinctElems]
  | cons x xs ih => rw [DistinctElems, ih, List.forall_mem_cons]

theorem distinctFields_iff {fields : List (Lib.Text × JsValue)} :
    DistinctFields fields ↔ ∀ f ∈ fields, f.2.Distinct := by
  induction fields with
  | nil => simp [DistinctFields]
  | cons f fs ih => rw [DistinctFields, ih, List.forall_mem_cons]

/-! ## `deepEqual` -/

mutual

/-- Recursive deep equality check. -/
def deepEqual : JsValue → JsValue → Bool
  | .undefined, .undefined => true
  | .null, .null => true
  | .bool a, .bool b => a == b
  | .num a, .num b => a.text == b.text
  | .str a, .str b => a == b
  | .arr a, .arr b => deepEqualElems a b
  | .obj a, .obj b => a.length == b.length && deepEqualFields a b
  | _, _ => false

def deepEqualElems : List JsValue → List JsValue → Bool
  | [], [] => true
  | x :: xs, y :: ys => deepEqual x y && deepEqualElems xs ys
  | _, _ => false

/-- `hasOwnProperty.call(bObj, key)` and equal values, for every key of `aObj`. -/
def deepEqualFields : List (Lib.Text × JsValue) → List (Lib.Text × JsValue) → Bool
  | [], _ => true
  | (k, x) :: fs, gs =>
    (match gs.lookup k with
      | some y => deepEqual x y
      | none => false) && deepEqualFields fs gs

end

theorem forall₂_of_deepEqualElems {xs ys : List JsValue} (h : deepEqualElems xs ys = true) :
    List.Forall₂ (fun x y => deepEqual x y = true) xs ys := by
  induction xs generalizing ys with
  | nil =>
      cases ys with
      | nil => exact .nil
      | cons y ys => cases h
  | cons x xs ih =>
      cases ys with
      | nil => cases h
      | cons y ys =>
          rw [deepEqualElems, Bool.and_eq_true] at h
          exact .cons h.1 (ih h.2)

theorem lookup_of_deepEqualFields {fs gs : List (Lib.Text × JsValue)}
    (h : deepEqualFields fs gs = true) :
    ∀ f ∈ fs, ∃ y, gs.lookup f.1 = some y ∧ deepEqual f.2 y = true := by
  induction fs with
  | nil => exact fun f hf => absurd hf List.not_mem_nil
  | cons f fs ih =>
      rw [deepEqualFields, Bool.and_eq_true] at h
      refine List.forall_mem_cons.2 ⟨?_, ih h.2⟩
      have hhead := h.1
      split at hhead
      · rename_i y hy
        exact ⟨y, hy, hhead⟩
      · cases hhead

/-! ## JSON -/

mutual

/-- `JSON.stringify` and `JSON.parse`; `undefined` has no JSON. -/
def toJson : JsValue → Option JsonText.Value
  | .undefined => none
  | .null => some .null
  | .bool b => some (.bool b)
  | .num n => some (.num n)
  | .str s => some (.str s)
  | .arr elems => some (.arr (toJsonElems elems))
  | .obj fields => some (.obj (toJsonFields fields))

def toJsonElems : List JsValue → List JsonText.Value
  | [] => []
  | x :: xs => (toJson x).getD .null :: toJsonElems xs

def toJsonFields : List (Lib.Text × JsValue) → List JsonText.Field
  | [] => []
  | (k, x) :: fs =>
    match toJson x with
    | some v => (k, v) :: toJsonFields fs
    | none => toJsonFields fs

end

theorem toJsonElems_eq (elems : List JsValue) :
    toJsonElems elems = elems.map fun x => (toJson x).getD .null := by
  induction elems with
  | nil => rfl
  | cons x xs ih => rw [toJsonElems, ih, List.map_cons]

theorem toJsonFields_eq (fields : List (Lib.Text × JsValue)) :
    toJsonFields fields = fields.filterMap fun f => (toJson f.2).map (f.1, ·) := by
  induction fields with
  | nil => rfl
  | cons f fs ih =>
      rw [toJsonFields, ih, List.filterMap_cons]
      cases toJson f.2 <;> rfl

/-- The JSON up to the order of keys. -/
def json (v : JsValue) : Option JsonText.Value :=
  (toJson v).map JsonText.canonical

theorem canonical_getD (v : JsValue) :
    JsonText.canonical ((toJson v).getD .null) = (json v).getD .null := by
  unfold json
  cases toJson v with
  | none => simp [JsonText.canonical]
  | some w => rfl

theorem mem_of_lookup {fields : List (Lib.Text × JsValue)} {k : Lib.Text} {x : JsValue}
    (h : fields.lookup k = some x) : (k, x) ∈ fields := by
  rcases List.lookup_eq_some_iff.1 h with ⟨before, after, rfl, -⟩
  simp

/-- Objects with the same keys: the fields of the one in the order of the other. -/
theorem perm_reorder {fs gs : List (Lib.Text × JsValue)} (hfs : (fs.map Prod.fst).Nodup)
    (hlen : fs.length = gs.length) (h : ∀ f ∈ fs, ∃ y, gs.lookup f.1 = some y) :
    (fs.map fun f => (f.1, (gs.lookup f.1).getD .undefined)).Perm gs := by
  have hkeys : ((fs.map fun f => (f.1, (gs.lookup f.1).getD .undefined)).map Prod.fst) =
      fs.map Prod.fst := by
    rw [List.map_map]
    rfl
  have hnodup : (fs.map fun f => (f.1, (gs.lookup f.1).getD .undefined)).Nodup :=
    List.Nodup.of_map Prod.fst (hkeys ▸ hfs)
  have hsub : (fs.map fun f => (f.1, (gs.lookup f.1).getD .undefined)) ⊆ gs := by
    intro g hg
    rcases List.mem_map.1 hg with ⟨f, hf, rfl⟩
    rcases h f hf with ⟨y, hy⟩
    rw [hy]
    exact mem_of_lookup hy
  refine (hnodup.subperm hsub).perm_of_length_le ?_
  rw [List.length_map, hlen]

/-- Fields with values of the same JSON have the same fields in JSON. -/
theorem forall₂_toJsonFields {fs : List (Lib.Text × JsValue)} {g : Lib.Text → JsValue}
    (h : ∀ f ∈ fs, json f.2 = json (g f.1)) :
    List.Forall₂ (fun f f' => f.1 = f'.1 ∧ JsonText.SameJson f.2 f'.2) (toJsonFields fs)
      (toJsonFields (fs.map fun f => (f.1, g f.1))) := by
  induction fs with
  | nil => exact .nil
  | cons f fs ih =>
      rw [List.forall_mem_cons] at h
      have hrest := ih h.2
      have hhead := h.1
      unfold json at hhead
      rw [List.map_cons, toJsonFields, toJsonFields]
      cases hf : toJson f.2 with
      | none =>
          rw [hf, Option.map_none] at hhead
          rw [Option.map_eq_none_iff.1 hhead.symm]
          exact hrest
      | some v =>
          rw [hf, Option.map_some] at hhead
          rcases Option.map_eq_some_iff.1 hhead.symm with ⟨w, hw, hsame⟩
          rw [hw]
          exact .cons ⟨rfl, hsame.symm⟩ hrest

/-- Equal values have the same JSON. -/
theorem json_of_deepEqual (a : JsValue) : ∀ b : JsValue, a.Distinct → b.Distinct →
    deepEqual a b = true → json a = json b := by
  induction a using induct with
  | undefined =>
      intro b _ _ h
      cases b <;> first | rfl | cases h
  | null =>
      intro b _ _ h
      cases b <;> first | rfl | cases h
  | bool x =>
      intro b _ _ h
      cases b <;> first | cases h | skip
      rw [deepEqual, beq_iff_eq] at h
      rw [h]
  | num n =>
      intro b _ _ h
      cases b <;> first | cases h | skip
      rename_i m
      rw [deepEqual, beq_iff_eq] at h
      cases n
      cases m
      cases h
      rfl
  | str x =>
      intro b _ _ h
      cases b <;> first | cases h | skip
      rw [deepEqual, beq_iff_eq] at h
      rw [h]
  | arr xs ih =>
      intro b ha hb h
      cases b <;> first | cases h | skip
      rename_i ys
      rw [Distinct, distinctElems_iff] at ha hb
      rw [deepEqual] at h
      have hpairs := forall₂_of_deepEqualElems h
      have helems : (toJsonElems xs).map JsonText.canonical =
          (toJsonElems ys).map JsonText.canonical := by
        rw [toJsonElems_eq, toJsonElems_eq, List.map_map, List.map_map, ← List.forall₂_eq_eq_eq,
          List.forall₂_map_left_iff, List.forall₂_map_right_iff]
        refine List.forall₂_iff_get.2 ⟨hpairs.length_eq, fun i hi hi' => ?_⟩
        have hsame := ih _ (List.get_mem xs ⟨i, hi⟩) _ (ha _ (List.get_mem xs ⟨i, hi⟩))
          (hb _ (List.get_mem ys ⟨i, hi'⟩)) (hpairs.get hi hi')
        simp only [Function.comp_apply, canonical_getD, hsame]
      simp only [json, toJson, Option.map_some, JsonText.canonical_arr, helems]
  | obj fs ih =>
      intro b ha hb h
      cases b <;> first | cases h | skip
      rename_i gs
      rw [Distinct, distinctFields_iff] at ha hb
      rw [deepEqual, Bool.and_eq_true, beq_iff_eq] at h
      have hlookup := lookup_of_deepEqualFields h.2
      have hperm := perm_reorder ha.1 h.1 fun f hf => (hlookup f hf).imp fun _ hy => hy.1
      have hfields : ∀ f ∈ fs, json f.2 = json ((gs.lookup f.1).getD .undefined) := by
        intro f hf
        rcases hlookup f hf with ⟨y, hy, hequal⟩
        rw [hy]
        exact ih f hf y (ha.2 f hf) (hb.2 _ (mem_of_lookup hy)) hequal
      -- The fields of the other object, in the order of this one, have the same JSON one by one.
      have hsame : JsonText.SameJson (.obj (toJsonFields fs)) (.obj (toJsonFields gs)) := by
        have horder := @forall₂_toJsonFields fs (fun k => (gs.lookup k).getD .undefined) hfields
        refine (JsonText.sameJson_obj_iff ?_).2 ⟨_, horder, ?_⟩
        · rw [toJsonFields_eq]
          refine hb.1.sublist (Lib.map_filterMap_sublist (fun f v hv => ?_) gs)
          rcases Option.map_eq_some_iff.1 hv with ⟨w, -, rfl⟩
          rfl
        · rw [toJsonFields_eq, toJsonFields_eq]
          exact hperm.filterMap _
      have hcanonical : JsonText.canonical (.obj (toJsonFields fs)) =
          JsonText.canonical (.obj (toJsonFields gs)) := hsame
      simp only [json, toJson, Option.map_some, hcanonical]

end JsValue

end Core
end Reflectdb
