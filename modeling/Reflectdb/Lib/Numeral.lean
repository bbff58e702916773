import Mathlib.Data.List.Basic
import Reflectdb.Lib.Text

/-!
# Numeral — numerals of one width, and the order of texts

Texts are compared by their first difference.  On numerals padded to one width this is the order of
the numbers, and what follows the numerals is compared only if they are equal.
-/

namespace Reflectdb
namespace Lib

/-! ## The order of lists -/

section Order

variable {α β : Type} [LT α] [LT β]

/-- Heads of one length decide first. -/
theorem append_lt_append_iff [Std.Irrefl fun a b : α => a < b] {as bs cs ds : List α}
    (hlen : as.length = bs.length) : as ++ cs < bs ++ ds ↔ as < bs ∨ as = bs ∧ cs < ds := by
  induction as generalizing bs with
  | nil =>
      have hbs : bs = [] := List.length_eq_zero_iff.1 hlen.symm
      subst hbs
      simp
  | cons a as ih =>
      cases bs with
      | nil => cases hlen
      | cons b bs =>
          have htail := ih (Nat.succ.inj hlen)
          simp only [List.cons_append, List.cons_lt_cons_iff, htail, List.cons.injEq]
          tauto

theorem append_lt_append_of_lt [Std.Irrefl fun a b : α => a < b] {as bs : List α}
    (hlen : as.length = bs.length) (h : as < bs) (cs ds : List α) : as ++ cs < bs ++ ds :=
  (append_lt_append_iff hlen).2 (Or.inl h)

end Order

/-! ## Numerals -/

/-- The last `width` digits of `n` in base `b`, the highest first. -/
def numeral {α : Type} (b : Nat) (sym : Nat → α) : (width n : Nat) → List α
  | 0, _ => []
  | width + 1, n => numeral b sym width (n / b) ++ [sym (n % b)]

section Numeral

variable {α : Type} {b : Nat} {sym : Nat → α}

@[simp] theorem length_numeral (width n : Nat) : (numeral b sym width n).length = width := by
  induction width generalizing n with
  | zero => rfl
  | succ width ih => simp [numeral, ih]

theorem numeral_zero (width : Nat) : numeral b sym width 0 = List.replicate width (sym 0) := by
  induction width with
  | zero => rfl
  | succ width ih => simp [numeral, ih, List.replicate_succ']

/-- Numerals of one width are ordered as the numbers. -/
theorem numeral_lt_iff [LT α] [Std.Irrefl fun a b : α => a < b]
    (hsym : ∀ d < b, ∀ e < b, sym d < sym e ↔ d < e) {width n m : Nat} (hn : n < b ^ width)
    (hm : m < b ^ width) : numeral b sym width n < numeral b sym width m ↔ n < m := by
  induction width generalizing n m with
  | zero =>
      have hn0 : n = 0 := by simpa using hn
      have hm0 : m = 0 := by simpa using hm
      simp [numeral, hn0, hm0]
  | succ width ih =>
      have hb : 0 < b := Nat.pos_of_ne_zero fun h => by simp [h] at hn
      have hdiv : ∀ {k : Nat}, k < b ^ (width + 1) → k / b < b ^ width := fun hk =>
        Nat.div_lt_of_lt_mul (by rwa [pow_succ'] at hk)
      have hhead : numeral b sym width (n / b) = numeral b sym width (m / b) ↔ n / b = m / b := by
        refine ⟨fun heq => ?_, fun heq => by rw [heq]⟩
        have hnm : ¬ n / b < m / b := fun hlt =>
          List.lt_irrefl _ (heq ▸ (ih (hdiv hn) (hdiv hm)).2 hlt)
        have hmn : ¬ m / b < n / b := fun hlt =>
          List.lt_irrefl _ (heq ▸ (ih (hdiv hm) (hdiv hn)).2 hlt)
        omega
      have hlast : [sym (n % b)] < [sym (m % b)] ↔ n % b < m % b := by
        simp [List.cons_lt_cons_iff, hsym _ (Nat.mod_lt n hb) _ (Nat.mod_lt m hb)]
      rw [numeral, numeral, append_lt_append_iff (by simp), ih (hdiv hn) (hdiv hm), hhead, hlast]
      -- The quotients decide, and the remainders if they are equal.
      have hn' : b * (n / b) + n % b = n := Nat.div_add_mod n b
      have hm' : b * (m / b) + m % b = m := Nat.div_add_mod m b
      constructor
      · rintro (hlt | ⟨heq, hlt⟩)
        · exact lt_of_not_ge fun hge => absurd (Nat.div_le_div_right hge) (Nat.not_le.2 hlt)
        · rw [heq] at hn'
          omega
      · intro hlt
        rcases (Nat.div_le_div_right (c := b) hlt.le).lt_or_eq with hdivs | hdivs
        · exact Or.inl hdivs
        · refine Or.inr ⟨hdivs, ?_⟩
          rw [hdivs] at hn'
          omega

end Numeral

/-! ## Decimal numerals of texts -/

def digit (d : Nat) : UInt16 :=
  (48 + d).toUInt16

/-- The decimal digits of `n`. -/
def decimal (n : Nat) : Text :=
  Text.ofChars (Nat.toDigits 10 n)

/-- `padStart` -/
def padStart (width : Nat) (c : UInt16) (t : Text) : Text :=
  List.replicate (width - t.length) c ++ t

theorem digit_lt_iff : ∀ d < 10, ∀ e < 10, digit d < digit e ↔ d < e := by
  decide

theorem ofChars_digitChar : ∀ d < 10, Text.ofChars [Nat.digitChar d] = [digit d] := by
  decide

/-- A number that fits its width is padded to a numeral. -/
theorem padStart_decimal {width n : Nat} (h : n < 10 ^ (width + 1)) :
    padStart (width + 1) (digit 0) (decimal n) = numeral 10 digit (width + 1) n := by
  induction width generalizing n with
  | zero =>
      have hn : n < 10 := by simpa using h
      simp [padStart, decimal, Nat.toDigits_of_lt_base hn, ofChars_digitChar n hn, numeral,
        Nat.mod_eq_of_lt hn]
  | succ width ih =>
      by_cases hn : n < 10
      · have hdiv : n / 10 = 0 := Nat.div_eq_of_lt hn
        simp [padStart, decimal, Nat.toDigits_of_lt_base hn, ofChars_digitChar n hn, numeral,
          Nat.mod_eq_of_lt hn, hdiv, numeral_zero, List.replicate_succ']
      · have hhead : decimal n = decimal (n / 10) ++ [digit (n % 10)] := by
          rw [decimal, Nat.toDigits_of_base_le (by decide) (not_lt.1 hn)]
          simp only [Text.ofChars, List.map_append, decimal]
          rw [← ofChars_digitChar _ (Nat.mod_lt n (by decide)), Text.ofChars]
        have hpad := ih (n := n / 10) (Nat.div_lt_of_lt_mul (by rwa [pow_succ'] at h))
        have hlen : width + 1 + 1 - (decimal n).length = width + 1 - (decimal (n / 10)).length := by
          simp [hhead]
        calc padStart (width + 1 + 1) (digit 0) (decimal n)
            = padStart (width + 1) (digit 0) (decimal (n / 10)) ++ [digit (n % 10)] := by
              rw [padStart, hlen, hhead, padStart, List.append_assoc]
          _ = numeral 10 digit (width + 1 + 1) n := by rw [hpad]; rfl

/-- Different numbers have different digits. -/
theorem decimal_injective : Function.Injective decimal := fun n m h => by
  have hn : n < 10 ^ (max n m + 1) :=
    (Nat.lt_pow_self (by decide)).trans_le (Nat.pow_le_pow_right (by decide) (by omega))
  have hm : m < 10 ^ (max n m + 1) :=
    (Nat.lt_pow_self (by decide)).trans_le (Nat.pow_le_pow_right (by decide) (by omega))
  have hnum : numeral 10 digit (max n m + 1) n = numeral 10 digit (max n m + 1) m := by
    rw [← padStart_decimal hn, ← padStart_decimal hm, h]
  have hlt := @numeral_lt_iff _ 10 digit _ _ digit_lt_iff (max n m + 1)
  rcases lt_trichotomy n m with hnm | hnm | hnm
  · exact absurd (hnum ▸ (hlt hn hm).2 hnm) (List.lt_irrefl _)
  · exact hnm
  · exact absurd (hnum ▸ (hlt hm hn).2 hnm) (List.lt_irrefl _)

end Lib
end Reflectdb
