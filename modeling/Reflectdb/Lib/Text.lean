import Mathlib.Data.List.Basic
import Mathlib.Data.UInt

/-!
# Text — UTF-16 texts, quoted strings, and codes that can be read back

A code is read from the front of a text.  It may need to see where it ends: what comes after it has
to start with one of its stops.  Joined by a separator and closed, such codes make one for lists.
-/

namespace Reflectdb
namespace Lib

/-- A text as its UTF-16 code units. -/
abbrev Text : Type :=
  List UInt16

def Text.ofChars (cs : List Char) : Text :=
  cs.map fun c => c.toNat.toUInt16

/-! ## Codes -/

section Codes

variable {α β γ : Type}

/-- `r` is empty or starts with a stop. -/
def StopsAt (stops r : List β) : Prop :=
  ∀ c ∈ r.head?, c ∈ stops

theorem stopsAt_cons {stops r : List β} {c : β} (h : c ∈ stops) : StopsAt stops (c :: r) := by
  intro d hd
  cases hd
  exact h

/-- The code of `x`, at the front of a text, tells `p x` and where it ends. -/
def DeterminesAt (stops : List β) (enc : α → List β) (p : α → γ) (x : α) : Prop :=
  ∀ y r r', StopsAt stops r → StopsAt stops r' → enc x ++ r = enc y ++ r' → p x = p y ∧ r = r'

/-- What stands before a separator, if it has none, and what follows it. -/
theorem append_separator_inj {sep : β} {a b x y : List β} (ha : sep ∉ a) (hb : sep ∉ b)
    (h : a ++ sep :: x = b ++ sep :: y) : a = b ∧ x = y := by
  induction a generalizing b with
  | nil =>
      cases b with
      | nil => exact ⟨rfl, List.tail_eq_of_cons_eq h⟩
      | cons c b => exact absurd (List.head_eq_of_cons_eq h) (List.ne_of_not_mem_cons hb)
  | cons c a ih =>
      cases b with
      | nil => exact absurd (List.head_eq_of_cons_eq h).symm (List.ne_of_not_mem_cons ha)
      | cons d b =>
          have hrest := ih (List.not_mem_of_not_mem_cons ha) (List.not_mem_of_not_mem_cons hb)
            (List.tail_eq_of_cons_eq h)
          rw [List.head_eq_of_cons_eq h, hrest.1]
          exact ⟨rfl, hrest.2⟩

/-- A part of a split has no separator. -/
theorem notMem_of_mem_splitOn [BEq β] [LawfulBEq β] {sep : β} {cs part : List β}
    (h : part ∈ cs.splitOn sep) : sep ∉ part := by
  induction cs generalizing part with
  | nil =>
      rw [List.splitOn_nil, List.mem_singleton] at h
      rw [h]
      exact List.not_mem_nil
  | cons c cs ih =>
      rw [List.splitOn_cons_eq_if_modifyHead] at h
      split at h
      · rcases List.mem_cons.1 h with rfl | hrest
        · exact List.not_mem_nil
        · exact ih hrest
      · rename_i hc
        cases hparts : cs.splitOn sep with
        | nil => exact absurd hparts (List.splitOn_ne_nil sep cs)
        | cons first rest =>
            rw [hparts, List.modifyHead_cons] at h
            rcases List.mem_cons.1 h with rfl | hrest
            · have hfirst := @ih first (by rw [hparts]; exact List.mem_cons_self)
              intro hmem
              rcases List.mem_cons.1 hmem with rfl | hin
              · exact hc (beq_self_eq_true _)
              · exact hfirst hin
            · exact ih (by rw [hparts]; exact List.mem_cons_of_mem _ hrest)

theorem intercalate_cons (sep : β) (w : List β) (ws : List (List β)) :
    [sep].intercalate (w :: ws) = w ++ if ws = [] then [] else sep :: [sep].intercalate ws := by
  cases ws with
  | nil => simp
  | cons v ws => simp [List.intercalate_cons_cons]

/-- A list of codes with separators between them, closed by a symbol that starts none of them. -/
theorem intercalate_determines {stops : List β} {enc : α → List β} {p : α → γ} {sep close : β}
    (hsep : sep ∈ stops) (hclose : close ∈ stops) (hne : sep ≠ close)
    (hhead : ∀ x, ∃ c t, enc x = c :: t ∧ c ≠ close) {xs ys : List α} {r r' : List β}
    (hxs : ∀ x ∈ xs, DeterminesAt stops enc p x)
    (heq : [sep].intercalate (xs.map enc) ++ close :: r =
      [sep].intercalate (ys.map enc) ++ close :: r') :
    xs.map p = ys.map p ∧ r = r' := by
  have hstart : ∀ x ws t t', [sep].intercalate (enc x :: ws) ++ t ≠ close :: t' := by
    intro x ws t t' h
    obtain ⟨c, u, hc, hne'⟩ := hhead x
    rw [intercalate_cons, hc] at h
    exact hne' (List.cons.inj h).1
  induction xs generalizing ys with
  | nil =>
      cases ys with
      | nil => exact ⟨rfl, (List.cons.inj heq).2⟩
      | cons y ys => exact absurd heq.symm (hstart y _ _ _)
  | cons x xs ih =>
      cases ys with
      | nil => exact absurd heq (hstart x _ _ _)
      | cons y ys =>
          obtain ⟨hx, hrest⟩ := List.forall_mem_cons.1 hxs
          simp only [List.map_cons, intercalate_cons, List.append_assoc] at heq
          -- What follows an element is the separator or the close.
          have hstops : ∀ (zs : List α) (t : List β), StopsAt stops
              ((if zs.map enc = [] then [] else sep :: [sep].intercalate (zs.map enc)) ++
                close :: t) := by
            intro zs t
            split
            · exact stopsAt_cons hclose
            · exact stopsAt_cons hsep
          obtain ⟨hp, htail⟩ := hx y _ _ (hstops xs r) (hstops ys r') heq
          have hlist : xs.map p = ys.map p ∧ r = r' := by
            cases xs with
            | nil =>
                cases ys with
                | nil => exact ⟨rfl, (List.cons.inj htail).2⟩
                | cons y' ys => exact absurd (List.cons.inj htail).1.symm hne
            | cons x' xs =>
                cases ys with
                | nil => exact absurd (List.cons.inj htail).1 hne
                | cons y' ys => exact ih hrest (List.cons.inj htail).2
          exact ⟨congrArg₂ List.cons hp hlist.1, hlist.2⟩

end Codes

/-! ## Quoted strings -/

def quoteMark : UInt16 := 34

def backslash : UInt16 := 92

def isHighSurrogate (c : UInt16) : Bool :=
  0xD800 ≤ c ∧ c ≤ 0xDBFF

def isLowSurrogate (c : UInt16) : Bool :=
  0xDC00 ≤ c ∧ c ≤ 0xDFFF

/-- A surrogate without its other half. -/
def isLoneSurrogate (prev : Option UInt16) (c : UInt16) (next : Option UInt16) : Bool :=
  (isHighSurrogate c ∧ ¬ next.any isLowSurrogate) ∨ (isLowSurrogate c ∧ ¬ prev.any isHighSurrogate)

def hexDigit (d : Nat) : UInt16 :=
  if d < 10 then (48 + d).toUInt16 else (87 + d).toUInt16

/-- Four hexadecimal digits. -/
def hex4 (c : UInt16) : Text :=
  [hexDigit (c.toNat / 4096), hexDigit (c.toNat / 256 % 16), hexDigit (c.toNat / 16 % 16),
    hexDigit (c.toNat % 16)]

/-- The letter after the backslash, for the units that have one. -/
def shortEscape (c : UInt16) : Option UInt16 :=
  if c = quoteMark ∨ c = backslash then some c
  else if c = 8 then some 98
  else if c = 12 then some 102
  else if c = 10 then some 110
  else if c = 13 then some 114
  else if c = 9 then some 116
  else none

/-- One unit of a quoted string, between its neighbours. -/
def quoteUnit (prev : Option UInt16) (c : UInt16) (next : Option UInt16) : Text :=
  match shortEscape c with
  | some e => [backslash, e]
  | none =>
    if c < 32 ∨ isLoneSurrogate prev c next then backslash :: 117 :: hex4 c else [c]

def quoteUnits (prev : Option UInt16) : Text → Text
  | [] => []
  | c :: s => quoteUnit prev c s.head? ++ quoteUnits (some c) s

/-- `JSON.stringify` of a string. -/
def quote (s : Text) : Text :=
  quoteMark :: (quoteUnits none s ++ [quoteMark])

/-! ### Reading them back -/

def hexValue (c : UInt16) : Nat :=
  if c.toNat < 58 then c.toNat - 48 else c.toNat - 87

def unescape (c : UInt16) : UInt16 :=
  if c = 98 then 8
  else if c = 102 then 12
  else if c = 110 then 10
  else if c = 114 then 13
  else if c = 116 then 9
  else c

def readHex : Text → UInt16 × Text
  | a :: b :: c :: d :: s =>
    ((hexValue a * 4096 + hexValue b * 256 + hexValue c * 16 + hexValue d).toUInt16, s)
  | s => (0, s)

/-- The first unit of the inside of a quoted string, and what is left of it. -/
def readUnit : Text → UInt16 × Text
  | [] => (0, [])
  | c :: s =>
    if c = backslash then
      match s with
      | [] => (0, [])
      | e :: s => if e = 117 then readHex s else (unescape e, s)
    else (c, s)

theorem hexValue_hexDigit : ∀ d < 16, hexValue (hexDigit d) = d := by
  decide

theorem readHex_hex4 (c : UInt16) (r : Text) : readHex (hex4 c ++ r) = (c, r) := by
  have hc := c.toNat_lt
  have hdigits : c.toNat / 4096 * 4096 + c.toNat / 256 % 16 * 256 + c.toNat / 16 % 16 * 16 +
      c.toNat % 16 = c.toNat := by omega
  simp only [hex4, List.cons_append, List.nil_append, readHex]
  rw [hexValue_hexDigit _ (by omega), hexValue_hexDigit _ (by omega),
    hexValue_hexDigit _ (by omega), hexValue_hexDigit _ (by omega), hdigits]
  simp

theorem unescape_shortEscape {c e : UInt16} (h : shortEscape c = some e) :
    unescape e = c ∧ e ≠ 117 := by
  unfold shortEscape at h
  split at h
  · rename_i hc
    cases h
    rcases hc with rfl | rfl <;> decide
  · repeat' split at h
    all_goals cases h
    all_goals subst_vars; decide

theorem shortEscape_eq_none {c : UInt16} (h : shortEscape c = none) :
    c ≠ quoteMark ∧ c ≠ backslash := by
  unfold shortEscape at h
  split at h
  · cases h
  · rename_i hc
    exact not_or.1 hc

theorem readUnit_quoteUnit (prev : Option UInt16) (c : UInt16) (next : Option UInt16) (r : Text) :
    readUnit (quoteUnit prev c next ++ r) = (c, r) := by
  unfold quoteUnit
  split
  · rename_i e he
    obtain ⟨hc, hne⟩ := unescape_shortEscape he
    simp [readUnit, hne, hc]
  · rename_i hnone
    split
    · exact readHex_hex4 c r
    · simp [readUnit, (shortEscape_eq_none hnone).2]

theorem quoteUnit_head (prev : Option UInt16) (c : UInt16) (next : Option UInt16) :
    ∃ d t, quoteUnit prev c next = d :: t ∧ d ≠ quoteMark := by
  have hne : backslash ≠ quoteMark := by decide
  unfold quoteUnit
  split
  · exact ⟨_, _, rfl, hne⟩
  · rename_i hnone
    split
    · exact ⟨_, _, rfl, hne⟩
    · exact ⟨c, [], rfl, (shortEscape_eq_none hnone).1⟩

theorem quoteUnits_inj {prev prev' : Option UInt16} {s t r r' : Text}
    (h : quoteUnits prev s ++ quoteMark :: r = quoteUnits prev' t ++ quoteMark :: r') :
    s = t ∧ r = r' := by
  have hstart : ∀ prev c next u v, quoteUnit prev c next ++ u ≠ quoteMark :: v := by
    intro prev c next u v heq
    obtain ⟨d, w, hd, hne⟩ := quoteUnit_head prev c next
    rw [hd] at heq
    exact hne (List.cons.inj heq).1
  induction s generalizing prev prev' t with
  | nil =>
      cases t with
      | nil => exact ⟨rfl, (List.cons.inj h).2⟩
      | cons d t =>
          rw [quoteUnits.eq_2, List.append_assoc] at h
          exact absurd h.symm (hstart _ _ _ _ _)
  | cons c s ih =>
      cases t with
      | nil =>
          rw [quoteUnits.eq_2, List.append_assoc] at h
          exact absurd h (hstart _ _ _ _ _)
      | cons d t =>
          simp only [quoteUnits, List.append_assoc] at h
          have hread := congrArg readUnit h
          rw [readUnit_quoteUnit, readUnit_quoteUnit] at hread
          obtain ⟨rfl, hrest⟩ := Prod.mk.inj hread
          obtain ⟨rfl, hr⟩ := ih hrest
          exact ⟨rfl, hr⟩

/-- A quoted string ends at its own quote. -/
theorem quote_determines (stops s : Text) : DeterminesAt stops quote id s := by
  intro t r r' _ _ h
  simp only [quote, List.cons_append, List.append_assoc, List.nil_append] at h
  exact quoteUnits_inj (List.cons.inj h).2

end Lib
end Reflectdb
