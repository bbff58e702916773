import Mathlib.Algebra.Order.Floor.Ring
import Mathlib.Data.Nat.Log
import Mathlib.Data.Rat.Floor
import Reflectdb.Lib.Numeral

/-!
# Number — the finite numbers of JavaScript, read from texts and written to them

A finite number is the rational that it is.  `Number(text)` and a sum are rounded to the nearest
double, ties to even; a text that gives NaN or an infinity gives `none` here.
-/

namespace Reflectdb
namespace Core

open Lib

/-! ## Doubles -/

/-- The `e` with `2 ^ e ≤ q < 2 ^ (e + 1)`, of a positive `q`. -/
def binade (q : ℚ) : ℤ :=
  let e : ℤ := q.num.natAbs.log2 - q.den.log2
  if (2 : ℚ) ^ e ≤ q then e else e - 1

def roundHalfEven (q : ℚ) : ℤ :=
  let below := ⌊q⌋
  if q - below < 1 / 2 ∨ q - below = 1 / 2 ∧ below % 2 = 0 then below else below + 1

/-- The distance of the doubles around `q`. -/
def unitAt (q : ℚ) : ℚ :=
  2 ^ max (binade |q| - 52) (-1074)

/-- The double nearest to `q`. -/
def toDouble (q : ℚ) : ℚ :=
  if q = 0 then 0 else roundHalfEven (q / unitAt q) * unitAt q

def plus (x y : ℚ) : ℚ :=
  toDouble (x + y)

/-- The integers below are doubles, and so are their sums. -/
def MAX_SAFE : ℕ := 2 ^ 53

theorem roundHalfEven_intCast (n : ℤ) : roundHalfEven (n : ℚ) = n := by
  simp [roundHalfEven]

theorem floor_le_roundHalfEven (q : ℚ) : ⌊q⌋ ≤ roundHalfEven q := by
  simp only [roundHalfEven]
  split <;> omega

theorem unitAt_pos (q : ℚ) : 0 < unitAt q :=
  zpow_pos (by norm_num) _

theorem two_pow_binade_le {q : ℚ} (h : 0 < q) : (2 : ℚ) ^ binade q ≤ q := by
  simp only [binade]
  split
  · assumption
  · have hpos : 0 < q.num := Rat.num_pos.2 h
    have hnum : (2 : ℚ) ^ q.num.natAbs.log2 ≤ (q.num.natAbs : ℚ) := by
      exact_mod_cast Nat.log2_self_le (Int.natAbs_ne_zero.2 hpos.ne')
    have habs : (q.num.natAbs : ℚ) = q.num := by
      rw [Nat.cast_natAbs, abs_of_pos hpos]
    have hden : (q.den : ℚ) ≤ 2 ^ (q.den.log2 + 1) := by
      exact_mod_cast Nat.lt_log2_self.le
    calc (2 : ℚ) ^ ((q.num.natAbs.log2 : ℤ) - q.den.log2 - 1)
        = 2 ^ q.num.natAbs.log2 / 2 ^ (q.den.log2 + 1) := by
          rw [sub_sub, zpow_sub₀ (by norm_num)]
          norm_cast
      _ ≤ q.num / q.den := by
          rw [← habs]
          exact div_le_div₀ (by positivity) hnum (by exact_mod_cast q.den_pos) hden
      _ = q := Rat.num_div_den q

/-- Rounding passes no multiple of the unit. -/
theorem mul_unitAt_le_toDouble {q : ℚ} {m : ℤ} (hq : q ≠ 0) (h : m * unitAt q ≤ q) :
    m * unitAt q ≤ toDouble q := by
  have hfloor : m ≤ ⌊q / unitAt q⌋ := Int.le_floor.2 ((le_div_iff₀ (unitAt_pos q)).2 h)
  have hround : (m : ℚ) ≤ roundHalfEven (q / unitAt q) := by
    exact_mod_cast hfloor.trans (floor_le_roundHalfEven _)
  rw [toDouble, if_neg hq]
  exact mul_le_mul_of_nonneg_right hround (unitAt_pos q).le

/-- Rounding passes no integer up to `2 ^ 53`. -/
theorem le_toDouble {n : ℕ} {q : ℚ} (hn : n ≤ MAX_SAFE) (h : (n : ℚ) ≤ q) : n ≤ toDouble q := by
  by_cases hq : q = 0
  · simpa [toDouble, hq] using h
  · have hpos : 0 < q := lt_of_le_of_ne ((Nat.cast_nonneg n).trans h) (Ne.symm hq)
    have hunit : unitAt q = 2 ^ max (binade q - 52) (-1074) := by rw [unitAt, abs_of_pos hpos]
    -- A unit of at most 1 divides `n`; a larger one is that of a double above `2 ^ 53`.
    rcases le_or_gt (max (binade q - 52) (-1074)) 0 with hj | hj
    · obtain ⟨k, hk⟩ := Int.eq_ofNat_of_zero_le (neg_nonneg.2 hj)
      have hmul : ((n * 2 ^ k : ℕ) : ℤ) * unitAt q = n := by
        rw [hunit, ← neg_neg (max _ _), hk, zpow_neg, zpow_natCast]
        push_cast
        field_simp
      rw [← hmul]
      exact mul_unitAt_le_toDouble hq (hmul ▸ h)
    · have hmax : max (binade q - 52) (-1074) = binade q - 52 := by omega
      have hmul : ((2 ^ 52 : ℕ) : ℤ) * unitAt q = 2 ^ binade q := by
        rw [hunit, hmax, zpow_sub₀ (by norm_num)]
        norm_num
        field_simp
      have hlarge : (2 : ℚ) ^ (53 : ℤ) ≤ 2 ^ binade q :=
        zpow_le_zpow_right₀ (by norm_num) (by omega)
      calc (n : ℚ) ≤ 2 ^ (53 : ℤ) := by exact_mod_cast hn
        _ ≤ ((2 ^ 52 : ℕ) : ℤ) * unitAt q := hmul ▸ hlarge
        _ ≤ toDouble q := mul_unitAt_le_toDouble hq (hmul ▸ two_pow_binade_le hpos)

/-- An integer below `2 ^ 53` is a double. -/
theorem toDouble_intCast {n : ℤ} (h : n.natAbs < MAX_SAFE) : toDouble n = n := by
  by_cases hn : n = 0
  · simp [toDouble, hn]
  · have hne : n.natAbs ≠ 0 := Int.natAbs_ne_zero.2 hn
    have habs : |(n : ℚ)| = n.natAbs := by rw [Nat.cast_natAbs, Int.cast_abs]
    have hbinade : binade |(n : ℚ)| = n.natAbs.log2 := by
      have hle : (2 : ℚ) ^ n.natAbs.log2 ≤ n.natAbs := by exact_mod_cast Nat.log2_self_le hne
      have hone : Nat.log2 1 = 0 := by decide
      rw [habs]
      simp only [binade, Rat.num_natCast, Rat.den_natCast, Int.natAbs_natCast, hone,
        Nat.cast_zero, sub_zero, zpow_natCast, if_pos hle]
    have hlog : n.natAbs.log2 ≤ 52 := by
      have := (Nat.log2_lt hne).2 h
      omega
    obtain ⟨k, hk⟩ : ∃ k : ℕ, max ((n.natAbs.log2 : ℤ) - 52) (-1074) = -k :=
      ⟨52 - n.natAbs.log2, by omega⟩
    have hunit : unitAt (n : ℚ) = (2 ^ k)⁻¹ := by
      rw [unitAt, hbinade, hk, zpow_neg, zpow_natCast]
    have hscaled : (n : ℚ) / unitAt n = (n * 2 ^ k : ℤ) := by
      rw [hunit]
      push_cast
      field_simp
    rw [toDouble, if_neg (by exact_mod_cast hn), hscaled, roundHalfEven_intCast, hunit]
    push_cast
    field_simp

theorem toDouble_natCast {n : ℕ} (h : n < MAX_SAFE) : toDouble n = n := by
  exact_mod_cast toDouble_intCast (n := n) h

/-! ## `Number(text)` -/

def isSpace (c : UInt16) : Bool :=
  9 ≤ c && c ≤ 13 || 0x2000 ≤ c && c ≤ 0x200A ||
    c ∈ [32, 0xA0, 0x1680, 0x2028, 0x2029, 0x202F, 0x205F, 0x3000, 0xFEFF]

def trim (t : Text) : Text :=
  ((t.dropWhile isSpace).reverse.dropWhile isSpace).reverse

/-- What stands before the first unit of a kind, and what after it. -/
def cut (p : UInt16 → Bool) (t : Text) : Option (Text × Text) :=
  if t.any p then some (t.takeWhile (!p ·), (t.dropWhile (!p ·)).tail) else none

def dot : UInt16 := 46

def digitOf (radix : ℕ) (c : UInt16) : Option ℕ :=
  let d :=
    if 48 ≤ c ∧ c ≤ 57 then c.toNat - 48
    else if 65 ≤ c ∧ c ≤ 90 then c.toNat - 55
    else if 97 ≤ c ∧ c ≤ 122 then c.toNat - 87
    else radix
  if d < radix then some d else none

/-- Digits after the number `n`. -/
def digitsAfter (radix : ℕ) : ℕ → Text → Option ℕ
  | n, [] => some n
  | n, c :: t => (digitOf radix c).bind fun d => digitsAfter radix (radix * n + d) t

def digits (radix : ℕ) (t : Text) : Option ℕ :=
  if t = [] then none else digitsAfter radix 0 t

/-- A sign, or none, and what `read` makes of the rest. -/
def signed (read : Text → Option ℚ) : Text → Option ℚ
  | 43 :: t => read t
  | 45 :: t => (read t).map (- ·)
  | t => read t

def exponentPart (t : Text) : Option ℤ :=
  (signed (fun t => (digits 10 t).map (↑·)) t).map Rat.num

def unsignedDecimal (t : Text) : Option ℚ :=
  let parts := cut (fun c => c = 101 || c = 69) t
  let mantissa := parts.elim t (·.1)
  let (whole, fraction) := (cut (· = dot) mantissa).getD (mantissa, [])
  (digits 10 (whole ++ fraction)).bind fun n =>
    (parts.elim (some 0) fun p => exponentPart p.2).map fun (e : ℤ) =>
      (n : ℚ) * 10 ^ (e - fraction.length)

def literal : Text → Option ℚ
  | [] => some 0
  | 48 :: 120 :: t | 48 :: 88 :: t => (digits 16 t).map (↑·)
  | 48 :: 111 :: t | 48 :: 79 :: t => (digits 8 t).map (↑·)
  | 48 :: 98 :: t | 48 :: 66 :: t => (digits 2 t).map (↑·)
  | t => signed unsignedDecimal t

/-- `Number(text)`, if it is finite. -/
def toNumber (t : Text) : Option ℚ :=
  ((literal (trim t)).map toDouble).filter fun x => |x| < 2 ^ 1024

/-! ### Numerals are read back -/

def isDigit (c : UInt16) : Prop :=
  ∃ d < 10, c = digit d

theorem isDigit_of_mem_numeral {width n : ℕ} {c : UInt16} (h : c ∈ numeral 10 digit width n) :
    isDigit c := by
  induction width generalizing n with
  | zero => cases h
  | succ width ih =>
      rcases List.mem_append.1 h with hinit | hlast
      · exact ih hinit
      · exact ⟨n % 10, Nat.mod_lt n (by decide), by simpa using hlast⟩

theorem isSpace_digit : ∀ d < 10, isSpace (digit d) = false := by
  decide

theorem digitOf_digit : ∀ d < 10, digitOf 10 (digit d) = some d := by
  decide

/-- A digit is none of the units that a literal looks for. -/
theorem digit_notMem :
    ∀ d < 10, digit d ∉ [43, 45, dot, 101, 69, 120, 88, 111, 79, 98, 66] := by
  decide

theorem isDigit.ne {c e : UInt16} (h : isDigit c)
    (he : e ∈ [43, 45, dot, 101, 69, 120, 88, 111, 79, 98, 66]) : c ≠ e := by
  rintro rfl
  rcases h with ⟨d, hd, rfl⟩
  exact digit_notMem d hd he

theorem digitsAfter_append {radix : ℕ} (n : ℕ) (t u : Text) :
    digitsAfter radix n (t ++ u) =
      (digitsAfter radix n t).bind fun m => digitsAfter radix m u := by
  induction t generalizing n with
  | nil => rfl
  | cons c t ih =>
      rw [List.cons_append, digitsAfter, digitsAfter, Option.bind_assoc]
      simp only [ih]

theorem digitsAfter_numeral (acc : ℕ) {width n : ℕ} (h : n < 10 ^ width) :
    digitsAfter 10 acc (numeral 10 digit width n) = some (acc * 10 ^ width + n) := by
  induction width generalizing n with
  | zero =>
      have hn : n = 0 := by simpa using h
      simp [numeral, digitsAfter, hn]
  | succ width ih =>
      have hdiv : n / 10 < 10 ^ width := Nat.div_lt_of_lt_mul (by rwa [pow_succ'] at h)
      have hmod : 10 * (n / 10) + n % 10 = n := Nat.div_add_mod n 10
      rw [numeral, digitsAfter_append, ih hdiv]
      simp only [Option.bind_some, digitsAfter, digitOf_digit _ (Nat.mod_lt n (by decide))]
      congr 1
      rw [pow_succ, ← Nat.mul_assoc]
      omega

theorem trim_of_digits {t : Text} (h : ∀ c ∈ t, isDigit c) : trim t = t := by
  have hspace : ∀ u : Text, (∀ c ∈ u, isDigit c) → u.dropWhile isSpace = u := by
    intro u hu
    cases u with
    | nil => rfl
    | cons c u =>
        rcases hu c (by simp) with ⟨d, hd, rfl⟩
        simp [isSpace_digit d hd]
  rw [trim, hspace t h, hspace t.reverse fun c hc => h c (List.mem_reverse.1 hc),
    List.reverse_reverse]

theorem cut_of_digits {p : UInt16 → Bool} {t : Text} (h : ∀ c ∈ t, p c = false) :
    cut p t = none := by
  have hany : t.any p = false := List.any_eq_false.2 fun c hc => by simp [h c hc]
  simp [cut, hany]

theorem literal_of_digits {t : Text} (hne : t ≠ []) (h : ∀ c ∈ t, isDigit c) :
    literal t = unsignedDecimal t := by
  have hletter : ∀ c ∈ t, ∀ e ∈ [43, 45, dot, 101, 69, 120, 88, 111, 79, 98, 66], c ≠ e :=
    fun c hc e he => (h c hc).ne he
  unfold literal
  split
  · exact absurd rfl hne
  · exact absurd rfl (hletter 120 (by simp) 120 (by decide))
  · exact absurd rfl (hletter 88 (by simp) 88 (by decide))
  · exact absurd rfl (hletter 111 (by simp) 111 (by decide))
  · exact absurd rfl (hletter 79 (by simp) 79 (by decide))
  · exact absurd rfl (hletter 98 (by simp) 98 (by decide))
  · exact absurd rfl (hletter 66 (by simp) 66 (by decide))
  · unfold signed
    split
    · exact absurd rfl (hletter 43 (by simp) 43 (by decide))
    · exact absurd rfl (hletter 45 (by simp) 45 (by decide))
    · rfl

/-- A padded numeral of a safe integer is read as that integer. -/
theorem toNumber_numeral {width n : ℕ} (h : n < 10 ^ (width + 1)) (hn : n < MAX_SAFE) :
    toNumber (numeral 10 digit (width + 1) n) = some (n : ℚ) := by
  have hdigits : ∀ c ∈ numeral 10 digit (width + 1) n, isDigit c := fun c hc =>
    isDigit_of_mem_numeral hc
  have hne : numeral 10 digit (width + 1) n ≠ [] := by simp [numeral]
  have hexp : cut (fun c => c = 101 || c = 69) (numeral 10 digit (width + 1) n) = none :=
    cut_of_digits fun c hc => by
      simp [(hdigits c hc).ne (e := 101) (by decide), (hdigits c hc).ne (e := 69) (by decide)]
  have hdot : cut (· = dot) (numeral 10 digit (width + 1) n) = none :=
    cut_of_digits fun c hc => by simp [(hdigits c hc).ne (e := dot) (by decide)]
  have hvalue : digits 10 (numeral 10 digit (width + 1) n) = some n := by
    rw [digits, if_neg hne, digitsAfter_numeral 0 h, Nat.zero_mul, Nat.zero_add]
  have hliteral : literal (numeral 10 digit (width + 1) n) = some (n : ℚ) := by
    rw [literal_of_digits hne hdigits, unsignedDecimal, hexp]
    simp [hdot, hvalue]
  have hfinite : (n : ℚ) < 2 ^ 1024 :=
    calc (n : ℚ) < 2 ^ 53 := by exact_mod_cast hn
      _ ≤ 2 ^ 1024 := pow_le_pow_right₀ (by norm_num) (by norm_num)
  rw [toNumber, trim_of_digits hdigits, hliteral]
  simp [toDouble_natCast hn, hfinite]

/-! ## `String(number)` -/

/-- The place of the first digit: the `n` with `10 ^ (n - 1) ≤ x < 10 ^ n`. -/
def decade (x : ℚ) : ℤ :=
  if 1 ≤ x then Nat.log 10 ⌊x⌋.toNat + 1
  else -(((List.range 400).find? fun j => 1 ≤ x * 10 ^ (j + 1)).getD 0 : ℕ)

/-- The shortest digits that read back as `x`, and the place of the first. -/
def shortest (x : ℚ) : Option (Text × ℤ) :=
  (List.range 17).findSome? fun k =>
    let scale : ℚ := 10 ^ (decade x - (k + 1))
    let below := ⌊x / scale⌋
    let nearest := if x / scale - below ≤ 1 / 2 then [below, below + 1] else [below + 1, below]
    (nearest.find? fun (s : ℤ) => toDouble (s * scale) = x).map fun s =>
      (((decimal s.toNat).reverse.dropWhile (· = digit 0)).reverse,
        (decimal s.toNat).length + (decade x - (k + 1)))

def zeros (n : ℤ) : Text :=
  List.replicate n.toNat (digit 0)

/-- Digits with the dot after place `n`, or in exponential notation. -/
def layout (ds : Text) (n : ℤ) : Text :=
  if ds.length ≤ n ∧ n ≤ 21 then ds ++ zeros (n - ds.length)
  else if 0 < n ∧ n ≤ 21 then ds.take n.toNat ++ dot :: ds.drop n.toNat
  else if -6 < n ∧ n ≤ 0 then digit 0 :: dot :: zeros (-n) ++ ds
  else
    ds.take 1 ++ (if ds.length = 1 then [] else dot :: ds.drop 1) ++
      101 :: (if 0 < n then 43 else 45) :: decimal (n - 1).natAbs

/-- `String(number)` -/
def numberText (x : ℚ) : Text :=
  (if x < 0 then [45] else []) ++
    -- A safe integer is written with its own digits.
    if x.den = 1 ∧ x.num.natAbs < MAX_SAFE then decimal x.num.natAbs
    else (shortest |x|).elim [] fun s => layout s.1 s.2

theorem numberText_natCast {n : ℕ} (h : n < MAX_SAFE) : numberText n = decimal n := by
  simp [numberText, h]

end Core
end Reflectdb
