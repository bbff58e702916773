import Reflectdb.Lib.Text
import Mathlib.Data.List.Sort

/-!
# JSON text — values, their canonical form and their canonical text

The fields of an object are in the order in which they were set.  Two values are the same up to that
order if sorting the keys at every depth makes them equal.  The text that sorts the keys as it goes
tells values apart exactly up to that.
-/

namespace Reflectdb
namespace Lib
namespace JsonText

/-- The symbols of a number. -/
def isNumberUnit (c : UInt16) : Bool :=
  (48 ≤ c ∧ c ≤ 57) ∨ c = 43 ∨ c = 45 ∨ c = 46 ∨ c = 101

/-- A number, by the shortest decimal that is read as it. -/
structure Number where
  text : Text
  nonempty : text ≠ []
  units : ∀ c ∈ text, isNumberUnit c = true

instance : DecidableEq Number := fun a b =>
  decidable_of_iff (a.text = b.text)
    ⟨fun h => by
      cases a
      cases b
      cases h
      rfl, fun h => by rw [h]⟩

inductive Value
  | null
  | bool (b : Bool)
  | num (n : Number)
  | str (s : Text)
  | arr (elems : List Value)
  | obj (fields : List (Text × Value))

abbrev Field : Type :=
  Text × Value

theorem Value.induct {P : Value → Prop} (null : P .null) (bool : ∀ b, P (.bool b))
    (num : ∀ n, P (.num n)) (str : ∀ s, P (.str s))
    (arr : ∀ elems, (∀ x ∈ elems, P x) → P (.arr elems))
    (obj : ∀ fields, (∀ f ∈ fields, P f.2) → P (.obj fields)) (v : Value) : P v := by
  refine @Value.rec P (fun elems => ∀ x ∈ elems, P x) (fun fields => ∀ f ∈ fields, P f.2)
    (fun f => P f.2)
    null bool num str arr obj ?_ ?_ ?_ ?_ ?_ v
  · exact fun x hx => absurd hx List.not_mem_nil
  · exact fun x elems hx helems => List.forall_mem_cons.2 ⟨hx, helems⟩
  · exact fun f hf => absurd hf List.not_mem_nil
  · exact fun f fields hf hfields => List.forall_mem_cons.2 ⟨hf, hfields⟩
  · exact fun _ _ hv => hv

/-! ## Sorting -/

/-- `Object.keys(obj).sort()`, with what stands under the keys. -/
def sortKeys {ρ : Type} (fields : List (Text × ρ)) : List (Text × ρ) :=
  fields.insertionSort fun f g => f.1 ≤ g.1

theorem sortKeys_map {ρ σ : Type} (f : ρ → σ) (fields : List (Text × ρ)) :
    sortKeys (fields.map (Prod.map id f)) = (sortKeys fields).map (Prod.map id f) := by
  apply Eq.symm
  apply List.map_insertionSort
  exact fun _ _ _ _ => Iff.rfl

theorem mem_sortKeys {ρ : Type} {fields : List (Text × ρ)} {f : Text × ρ} :
    f ∈ sortKeys fields ↔ f ∈ fields :=
  List.mem_insertionSort _

theorem perm_sortKeys {ρ : Type} (fields : List (Text × ρ)) : (sortKeys fields).Perm fields :=
  List.perm_insertionSort _ _

theorem pairwise_sortKeys {ρ : Type} (fields : List (Text × ρ)) :
    (sortKeys fields).Pairwise fun f g => f.1 ≤ g.1 := by
  have : Std.Total fun f g : Text × ρ => f.1 ≤ g.1 := ⟨fun f g => List.le_total f.1 g.1⟩
  have : IsTrans (Text × ρ) fun f g => f.1 ≤ g.1 := ⟨fun _ _ _ h h' => List.le_trans h h'⟩
  exact List.pairwise_insertionSort _ _

theorem sortKeys_sortKeys {ρ : Type} (fields : List (Text × ρ)) :
    sortKeys (sortKeys fields) = sortKeys fields :=
  (pairwise_sortKeys fields).insertionSort_eq

/-- With distinct keys, the order in which the fields were set is lost. -/
theorem sortKeys_eq_of_perm {ρ : Type} {fields fields' : List (Text × ρ)}
    (h : fields.Perm fields') (hkeys : (fields.map Prod.fst).Nodup) :
    sortKeys fields = sortKeys fields' := by
  have hperm : (sortKeys fields).Perm (sortKeys fields') :=
    ((perm_sortKeys fields).trans h).trans (perm_sortKeys fields').symm
  refine hperm.eq_of_pairwise ?_ (pairwise_sortKeys fields) (pairwise_sortKeys fields')
  intro f g hf hg hle hle'
  have hmem : f ∈ fields := mem_sortKeys.1 hf
  have hmem' : g ∈ fields := h.mem_iff.2 (mem_sortKeys.1 hg)
  exact List.inj_on_of_nodup_map hkeys hmem hmem' (List.le_antisymm hle hle')

/-! ## The canonical form -/

mutual

/-- The keys sorted, at every depth. -/
def canonical : Value → Value
  | .arr elems => .arr (canonicalElems elems)
  | .obj fields => .obj (sortKeys (canonicalFields fields))
  | v => v

def canonicalElems : List Value → List Value
  | [] => []
  | x :: xs => canonical x :: canonicalElems xs

def canonicalFields : List Field → List Field
  | [] => []
  | (k, x) :: fs => (k, canonical x) :: canonicalFields fs

end

theorem canonicalElems_eq (elems : List Value) : canonicalElems elems = elems.map canonical := by
  induction elems with
  | nil => rfl
  | cons x xs ih => rw [canonicalElems, ih, List.map_cons]

theorem canonicalFields_eq (fields : List Field) :
    canonicalFields fields = fields.map (Prod.map id canonical) := by
  induction fields with
  | nil => rfl
  | cons f fs ih => rw [canonicalFields, ih, List.map_cons, Prod.map, id]

theorem canonical_arr (elems : List Value) : canonical (.arr elems) = .arr (elems.map canonical) :=
  congrArg Value.arr (canonicalElems_eq elems)

theorem canonical_obj (fields : List Field) :
    canonical (.obj fields) = .obj ((sortKeys fields).map (Prod.map id canonical)) := by
  rw [canonical, canonicalFields_eq, sortKeys_map]

/-- An object whose keys are sorted keeps the order of its fields. -/
theorem canonical_obj_of_sorted {fields : List Field}
    (h : fields.Pairwise fun f g => f.1 ≤ g.1) :
    canonical (.obj fields) = .obj (fields.map (Prod.map id canonical)) := by
  rw [canonical_obj, sortKeys, h.insertionSort_eq]

/-- Equal as JSON values: up to the order of the keys, at every depth. -/
def SameJson (v w : Value) : Prop :=
  canonical v = canonical w

/-- Objects are the same if some order of the fields makes them the same field by field. -/
theorem sameJson_obj_iff {fields fields' : List Field} (hkeys : (fields'.map Prod.fst).Nodup) :
    SameJson (.obj fields) (.obj fields') ↔
      ∃ order, List.Forall₂ (fun f g => f.1 = g.1 ∧ SameJson f.2 g.2) fields order ∧
        order.Perm fields' := by
  have hfields : ∀ fs gs : List Field,
      List.Forall₂ (fun f g => f.1 = g.1 ∧ SameJson f.2 g.2) fs gs ↔
        fs.map (Prod.map id canonical) = gs.map (Prod.map id canonical) := by
    intro fs gs
    rw [← @List.forall₂_eq_eq_eq Field, List.forall₂_map_left_iff, List.forall₂_map_right_iff]
    simp only [Prod.map, id, Prod.mk.injEq, SameJson]
  rw [SameJson, canonical_obj, canonical_obj, Value.obj.injEq, ← hfields]
  constructor
  · intro h
    obtain ⟨order, hsame, hperm⟩ := List.perm_comp_forall₂ (perm_sortKeys fields).symm h
    exact ⟨order, hsame, hperm.trans (perm_sortKeys fields')⟩
  · rintro ⟨order, hsame, hperm⟩
    have hsort := sortKeys_eq_of_perm hperm.symm hkeys
    rw [hsort, hfields, ← sortKeys_map, ← sortKeys_map, (hfields _ _).1 hsame]

/-! ## The canonical text -/

def comma : UInt16 := 44

def openBracket : UInt16 := 91

def closeBracket : UInt16 := 93

def openBrace : UInt16 := 123

def closeBrace : UInt16 := 125

/-- `"key":text`. -/
def fieldText (f : Text × Text) : Text :=
  quote f.1 ++ 58 :: f.2

mutual

/-- Deterministic JSON: object keys are emitted in sorted order at every depth. -/
def stableStringify : Value → Text
  | .null => Text.ofChars ['n', 'u', 'l', 'l']
  | .bool true => Text.ofChars ['t', 'r', 'u', 'e']
  | .bool false => Text.ofChars ['f', 'a', 'l', 's', 'e']
  | .num n => n.text
  | .str s => quote s
  | .arr elems => openBracket :: ([comma].intercalate (stringifyElems elems) ++ [closeBracket])
  | .obj fields =>
    openBrace :: ([comma].intercalate ((sortKeys (stringifyFields fields)).map fieldText) ++
      [closeBrace])

def stringifyElems : List Value → List Text
  | [] => []
  | x :: xs => stableStringify x :: stringifyElems xs

def stringifyFields : List Field → List (Text × Text)
  | [] => []
  | (k, x) :: fs => (k, stableStringify x) :: stringifyFields fs

end

theorem stringifyElems_eq (elems : List Value) :
    stringifyElems elems = elems.map stableStringify := by
  induction elems with
  | nil => rfl
  | cons x xs ih => rw [stringifyElems, ih, List.map_cons]

theorem stringifyFields_eq (fields : List Field) :
    stringifyFields fields = fields.map (Prod.map id stableStringify) := by
  induction fields with
  | nil => rfl
  | cons f fs ih => rw [stringifyFields, ih, List.map_cons, Prod.map, id]

theorem stableStringify_arr (elems : List Value) :
    stableStringify (.arr elems) =
      openBracket :: ([comma].intercalate (elems.map stableStringify) ++ [closeBracket]) := by
  rw [stableStringify, stringifyElems_eq]

/-- One field of an object. -/
def stringifyField (f : Field) : Text :=
  fieldText (f.1, stableStringify f.2)

theorem stableStringify_obj (fields : List Field) :
    stableStringify (.obj fields) =
      openBrace ::
        ([comma].intercalate ((sortKeys fields).map stringifyField) ++ [closeBrace]) := by
  rw [stableStringify, stringifyFields_eq, sortKeys_map, List.map_map]
  rfl

/-! ### The text of a value is the text of its canonical form -/

theorem stableStringify_canonical (v : Value) :
    stableStringify (canonical v) = stableStringify v := by
  induction v using Value.induct with
  | null => rfl
  | bool b => rfl
  | num n => rfl
  | str s => rfl
  | arr elems ih =>
      have helems : (elems.map canonical).map stableStringify = elems.map stableStringify := by
        rw [List.map_map]
        exact List.map_congr_left fun x hx => ih x hx
      rw [canonical_arr, stableStringify_arr, helems, stableStringify_arr]
  | obj fields ih =>
      have hfields : ((sortKeys fields).map (Prod.map id canonical)).map stringifyField =
          (sortKeys fields).map stringifyField := by
        rw [List.map_map]
        exact List.map_congr_left fun f hf =>
          congrArg (fun t => fieldText (f.1, t)) (ih f (mem_sortKeys.1 hf))
      rw [canonical_obj, stableStringify_obj, sortKeys_map, sortKeys_sortKeys, hfields,
        stableStringify_obj]

/-! ### The text of a value tells its canonical form -/

/-- What can come after a value. -/
def stops : List UInt16 :=
  [comma, closeBracket, closeBrace]

theorem not_isNumberUnit_stop : ∀ d ∈ stops, isNumberUnit d = false := by
  simp [stops, isNumberUnit, comma, closeBracket, closeBrace]

/-- What the first symbol of a value tells. -/
inductive Kind
  | null
  | bool (b : Bool)
  | number
  | string
  | array
  | object

def Value.kind : Value → Kind
  | .null => .null
  | .bool b => .bool b
  | .num _ => .number
  | .str _ => .string
  | .arr _ => .array
  | .obj _ => .object

def headKind (c : UInt16) : Kind :=
  if c = 110 then .null
  else if c = 116 then .bool true
  else if c = 102 then .bool false
  else if c = quoteMark then .string
  else if c = openBracket then .array
  else if c = openBrace then .object
  else .number

theorem ne_of_isNumberUnit {c d : UInt16} (hc : isNumberUnit c = true)
    (hd : isNumberUnit d = false) : c ≠ d := by
  rintro rfl
  rw [hc] at hd
  cases hd

theorem stableStringify_head (v : Value) :
    ∃ c t, stableStringify v = c :: t ∧ headKind c = v.kind ∧ c ∉ stops := by
  cases v with
  | null => exact ⟨_, _, rfl, rfl, by decide⟩
  | bool b => cases b <;> exact ⟨_, _, rfl, rfl, by decide⟩
  | num n =>
      obtain ⟨c, t, htext⟩ := List.exists_cons_of_ne_nil n.nonempty
      have hunit := n.units c (by simp [htext])
      have hne : ∀ d, isNumberUnit d = false → c ≠ d := fun d => ne_of_isNumberUnit hunit
      refine ⟨c, t, htext, ?_, fun hc => ?_⟩
      · simp only [headKind, Value.kind]
        rw [if_neg (hne _ (by decide)), if_neg (hne _ (by decide)), if_neg (hne _ (by decide)),
          if_neg (hne _ (by decide)), if_neg (hne _ (by decide)), if_neg (hne _ (by decide))]
      · exact hne c (not_isNumberUnit_stop c hc) rfl
  | str s => exact ⟨_, _, rfl, rfl, by decide⟩
  | arr elems => exact ⟨_, _, rfl, rfl, by decide⟩
  | obj fields => exact ⟨_, _, rfl, rfl, by decide⟩

theorem kind_eq {v w : Value} {r r' : Text}
    (h : stableStringify v ++ r = stableStringify w ++ r') : v.kind = w.kind := by
  obtain ⟨c, t, hv, hkind, -⟩ := stableStringify_head v
  obtain ⟨d, u, hw, hkind', -⟩ := stableStringify_head w
  rw [hv, hw] at h
  rw [← hkind, ← hkind', (List.cons.inj h).1]

/-- A number ends where the next stop is. -/
theorem number_determines (n m : Number) {r r' : Text} (hr : StopsAt stops r)
    (hr' : StopsAt stops r') (h : n.text ++ r = m.text ++ r') : n = m ∧ r = r' := by
  have hstop : ∀ {t : Text}, StopsAt stops t → t.takeWhile isNumberUnit = [] := by
    intro t ht
    cases t with
    | nil => rfl
    | cons c t =>
        simp [not_isNumberUnit_stop c (ht c rfl)]
  have htake := congrArg (List.takeWhile isNumberUnit) h
  rw [List.takeWhile_append_of_pos n.units, List.takeWhile_append_of_pos m.units, hstop hr,
    hstop hr', List.append_nil, List.append_nil] at htake
  cases n
  cases m
  cases htake
  exact ⟨rfl, List.append_cancel_left h⟩

theorem stringifyField_determines {f : Field}
    (h : DeterminesAt stops stableStringify canonical f.2) :
    DeterminesAt stops stringifyField (Prod.map id canonical) f := by
  intro g r r' hr hr' heq
  simp only [stringifyField, fieldText, List.append_assoc, List.cons_append] at heq
  have hcolon : ∀ t : Text, StopsAt [58] (58 :: t) :=
    fun t => stopsAt_cons (List.mem_singleton_self _)
  obtain ⟨hkey, hrest⟩ := quote_determines [58] f.1 g.1 _ _ (hcolon _) (hcolon _) heq
  obtain ⟨hvalue, htail⟩ := h g.2 r r' hr hr' (List.cons.inj hrest).2
  exact ⟨Prod.ext hkey hvalue, htail⟩

theorem stableStringify_determines (v : Value) :
    DeterminesAt stops stableStringify canonical v := by
  induction v using Value.induct with
  | null =>
      intro w r r' _ _ h
      have hkind := kind_eq h
      cases w with
      | null => exact ⟨rfl, List.append_cancel_left h⟩
      | _ => cases hkind
  | bool b =>
      intro w r r' _ _ h
      have hkind := kind_eq h
      cases w with
      | bool b' =>
          cases hkind
          exact ⟨rfl, List.append_cancel_left h⟩
      | _ => cases b <;> cases hkind
  | num n =>
      intro w r r' hr hr' h
      have hkind := kind_eq h
      cases w with
      | num m =>
          obtain ⟨rfl, hrest⟩ := number_determines n m hr hr' h
          exact ⟨rfl, hrest⟩
      | _ => cases hkind
  | str s =>
      intro w r r' hr hr' h
      have hkind := kind_eq h
      cases w with
      | str t =>
          obtain ⟨hst, hrest⟩ := quote_determines stops s t r r' hr hr' h
          exact ⟨congrArg Value.str hst, hrest⟩
      | _ => cases hkind
  | arr elems ih =>
      intro w r r' hr hr' h
      have hkind := kind_eq h
      cases w with
      | arr elems' =>
          simp only [stableStringify_arr, List.cons_append, List.append_assoc] at h
          have hhead : ∀ x, ∃ c t, stableStringify x = c :: t ∧ c ≠ closeBracket := by
            intro x
            obtain ⟨c, t, hx, -, hc⟩ := stableStringify_head x
            exact ⟨c, t, hx, fun heq => hc (by simp [heq, stops])⟩
          obtain ⟨helems, hrest⟩ := intercalate_determines (by decide) (by decide) (by decide) hhead
            ih (List.cons.inj h).2
          refine ⟨?_, hrest⟩
          rw [canonical_arr, canonical_arr, helems]
      | _ => cases hkind
  | obj fields ih =>
      intro w r r' hr hr' h
      have hkind := kind_eq h
      cases w with
      | obj fields' =>
          simp only [stableStringify_obj, List.cons_append, List.append_assoc] at h
          have hhead : ∀ f, ∃ c t, stringifyField f = c :: t ∧ c ≠ closeBrace :=
            fun f => ⟨quoteMark, _, rfl, by decide⟩
          obtain ⟨hfields, hrest⟩ := intercalate_determines (by decide) (by decide) (by decide)
            hhead (fun f hf => stringifyField_determines (ih f (mem_sortKeys.1 hf)))
            (List.cons.inj h).2
          refine ⟨?_, hrest⟩
          rw [canonical_obj, canonical_obj, hfields]
      | _ => cases hkind

/-- Two values have the same text exactly when they are the same up to the order of keys. -/
theorem stableStringify_eq_iff {v w : Value} :
    stableStringify v = stableStringify w ↔ SameJson v w := by
  constructor
  · intro h
    have hstop : StopsAt stops ([] : Text) := fun c hc => by cases hc
    exact (stableStringify_determines v w [] [] hstop hstop (congrArg (· ++ []) h)).1
  · intro h
    rw [← stableStringify_canonical v, h, stableStringify_canonical]

end JsonText
end Lib
end Reflectdb
