import Mathlib.Algebra.Order.Floor.Ring
import Mathlib.Data.List.Induction
import Mathlib.Data.Rat.Floor
import Mathlib.Tactic.Linarith
import LiteExchange.Foundation.Ascii

/-!
# Decimal numbers, their integer part and the nearest double

A decimal number is an optional sign, digits, and digits behind an optional point.
Reading such a text as an integer stops at the point, so it truncates the value.
A `long` converted to `double` is rounded to 53 significant bits, ties to even.
-/

namespace Foundation.Decimal

open Foundation.Ascii

/-- The value of the digits behind the point. -/
def fractionValue (digits : Bytes) : ℚ := digitsValue digits / 10 ^ digits.length

/-- The value of a decimal number without its sign. -/
def unsignedValue (text : Bytes) : Option ℚ :=
  match text.dropWhile isDigit with
  | [] => if text = [] then none else some (digitsValue text)
  | point :: fraction =>
    if point = 46 ∧ fraction.all isDigit = true ∧ (text.takeWhile isDigit ≠ [] ∨ fraction ≠ []) then
      some (digitsValue (text.takeWhile isDigit) + fractionValue fraction)
    else none

/-- The value of a text that is a decimal number. -/
def decimalValue (text : Bytes) : Option ℚ :=
  (unsignedValue (splitSign text).2).map fun value =>
    if (splitSign text).1 then -value else value

/-- The integer part: the value rounded toward zero. -/
def truncate (value : ℚ) : Int := if 0 ≤ value then ⌊value⌋ else ⌈value⌉

theorem digitsValue_snoc (digits : Bytes) (b : UInt8) :
    digitsValue (digits ++ [b]) = 10 * digitsValue digits + (b.toNat - 48) := by
  simp [digitsValue, List.foldl_append]

theorem digitsValue_lt {digits : Bytes} (h : ∀ b ∈ digits, isDigit b = true) :
    digitsValue digits < 10 ^ digits.length := by
  induction digits using List.reverseRecOn with
  | nil => decide
  | append_singleton digits b ih =>
    have hb := isDigit_iff.mp (h b (by simp))
    have hfront := ih fun c hc => h c (by simp [hc])
    rw [digitsValue_snoc, List.length_append, List.length_singleton, Nat.pow_succ]
    omega

theorem fractionValue_bounds {digits : Bytes} (h : ∀ b ∈ digits, isDigit b = true) :
    0 ≤ fractionValue digits ∧ fractionValue digits < 1 := by
  have hpositive : (0 : ℚ) < 10 ^ digits.length := by positivity
  have hlt : (digitsValue digits : ℚ) < 10 ^ digits.length := by
    exact_mod_cast digitsValue_lt h
  constructor
  · unfold fractionValue
    positivity
  · rw [fractionValue, div_lt_one hpositive]
    exact hlt

/-- The digits in front of the point are the integer part of the unsigned value. -/
theorem unsignedValue_bounds {text : Bytes} {value : ℚ} (h : unsignedValue text = some value) :
    (digitsValue (text.takeWhile isDigit) : ℚ) ≤ value ∧
      value < digitsValue (text.takeWhile isDigit) + 1 := by
  unfold unsignedValue at h
  split at h
  · rename_i hrest
    have hwhole : text.takeWhile isDigit = text := by
      have hjoin := List.takeWhile_append_dropWhile (p := isDigit) (l := text)
      rwa [hrest, List.append_nil] at hjoin
    split at h
    · cases h
    · cases h
      rw [hwhole]
      constructor
      · exact le_refl _
      · linarith
  · rename_i point fraction _
    split at h
    · rename_i hparts
      cases h
      have hbounds := fractionValue_bounds (List.all_eq_true.mp hparts.2.1)
      constructor
      · linarith [hbounds.1]
      · linarith [hbounds.2]
    · cases h

theorem dropWhile_isSpace {text : Bytes} {value : ℚ} (h : decimalValue text = some value) :
    text.dropWhile isSpace = text := by
  cases text with
  | nil => rfl
  | cons b rest =>
    have hspace : isSpace b = false := by
      by_cases hminus : b = 45
      · rw [hminus]
        rfl
      · by_cases hplus : b = 43
        · rw [hplus]
          rfl
        · have hsign : splitSign (b :: rest) = (false, b :: rest) := by
            simp [splitSign, hminus, hplus]
          rw [decimalValue, hsign] at h
          obtain ⟨unsigned, hunsigned, -⟩ := Option.map_eq_some_iff.mp h
          by_cases hdigit : isDigit b = true
          · exact not_isSpace_of_isDigit hdigit
          · have hdrop : (b :: rest).dropWhile isDigit = b :: rest := by simp [hdigit]
            rw [unsignedValue, hdrop] at hunsigned
            simp only at hunsigned
            split at hunsigned
            · rename_i hpoint
              rw [hpoint.1]
              rfl
            · cases hunsigned
    simp [hspace]

theorem truncate_of_nonneg {n : Nat} {value : ℚ} (low : (n : ℚ) ≤ value) (high : value < n + 1) :
    truncate value = n := by
  have hnonneg : 0 ≤ value := le_trans (by positivity) low
  rw [truncate, if_pos hnonneg, Int.floor_eq_iff]
  exact ⟨by exact_mod_cast low, by exact_mod_cast high⟩

theorem truncate_of_neg {n : Nat} {value : ℚ} (low : (n : ℚ) ≤ value) (high : value < n + 1) :
    truncate (-value) = -n := by
  by_cases hzero : value = 0
  · have hn : n = 0 := by
      have hle : (n : ℚ) ≤ 0 := by linarith
      exact_mod_cast le_antisymm hle (by positivity)
    simp [hzero, hn, truncate]
  · have hpositive : 0 < value := lt_of_le_of_ne (le_trans (by positivity) low) (Ne.symm hzero)
    rw [truncate, if_neg (by linarith), Int.ceil_eq_iff]
    push_cast
    constructor
    · linarith
    · linarith

/-- Reading a decimal number as an integer truncates it. -/
theorem parseInteger_decimal {low high n : Int} {text : Bytes} {value : ℚ}
    (h : decimalValue text = some value) (hread : parseInteger low high text = .ok n) :
    n = truncate value := by
  unfold parseInteger at hread
  rw [dropWhile_isSpace h] at hread
  obtain ⟨unsigned, hunsigned, rfl⟩ := Option.map_eq_some_iff.mp h
  obtain ⟨hlow, hhigh⟩ := unsignedValue_bounds hunsigned
  by_cases hsign : (splitSign text).1 = true
  · simp only [hsign, if_true] at hread ⊢
    rw [truncate_of_neg hlow hhigh]
    split at hread
    · cases hread
    · split at hread
      · exact (Except.ok.inj hread).symm
      · cases hread
  · simp only [hsign, if_false, Bool.false_eq_true] at hread ⊢
    rw [truncate_of_nonneg hlow hhigh]
    split at hread
    · cases hread
    · split at hread
      · exact (Except.ok.inj hread).symm
      · cases hread

/-! ## The nearest double -/

/-- Round to 53 significant bits, ties to even. -/
def roundNat (n : Nat) : Nat :=
  if n < 2 ^ 53 then n
  else
    let unit := 2 ^ (Nat.log2 n - 52)
    let quotient := n / unit
    let remainder := n % unit
    if 2 * remainder > unit ∨ (2 * remainder = unit ∧ quotient % 2 = 1) then (quotient + 1) * unit
    else quotient * unit

/-- The double that a `long` is converted to; it is an integer. -/
def nearestDouble (n : Int) : Int :=
  if n < 0 then -(roundNat n.natAbs : Int) else roundNat n.natAbs

/-- Integers up to 2^53 are doubles. -/
theorem nearestDouble_exact {n : Int} (h : n.natAbs < 2 ^ 53) : nearestDouble n = n := by
  rw [nearestDouble, roundNat, if_pos h]
  split
  · omega
  · omega

end Foundation.Decimal
