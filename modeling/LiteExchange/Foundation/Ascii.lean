import Mathlib.Data.List.TakeWhile
import Mathlib.Algebra.Order.Ring.Int

/-!
# Byte strings and decimal integers

Texts are byte strings. `natText` and `intText` print a number in base ten, and
`parseInteger` reads one as the C library's `strtol` does behind `std::stoi` and
`std::stol`: leading white space, an optional sign, the longest run of digits,
with an error when there is no digit or the value leaves the target type.
Reading what was printed gives the number back.
-/

namespace Foundation.Ascii

abbrev Bytes := List UInt8

/-- The bytes of an ASCII literal. -/
def ascii (text : String) : Bytes := text.toList.map fun c => UInt8.ofNat c.toNat

def isDigit (b : UInt8) : Bool := 48 ≤ b && b ≤ 57

/-- `isspace` in the C locale. -/
def isSpace (b : UInt8) : Bool := b == 32 || (9 ≤ b && b ≤ 13)

def digitsValue (digits : Bytes) : Nat :=
  digits.foldl (fun value b => 10 * value + (b.toNat - 48)) 0

def natText (n : Nat) : Bytes := (Nat.toDigits 10 n).map fun c => UInt8.ofNat c.toNat

def intText : Int → Bytes
  | .ofNat n => natText n
  | .negSucc n => 45 :: natText (n + 1)

inductive ConversionError where
  | invalidArgument | outOfRange
  deriving DecidableEq, Repr

/-- The sign and what follows it; only one sign is read. -/
def splitSign : Bytes → Bool × Bytes
  | [] => (false, [])
  | b :: rest =>
    if b = 45 then (true, rest) else if b = 43 then (false, rest) else (false, b :: rest)

def parseInteger (low high : Int) (text : Bytes) : Except ConversionError Int :=
  let (negative, rest) := splitSign (text.dropWhile isSpace)
  let digits := rest.takeWhile isDigit
  if digits = [] then .error .invalidArgument
  else
    let value : Int := if negative then -(digitsValue digits) else digitsValue digits
    if low ≤ value ∧ value ≤ high then .ok value else .error .outOfRange

/-- `std::stoi`: the result is a 32-bit `int`. -/
def stoi : Bytes → Except ConversionError Int := parseInteger (-2 ^ 31) (2 ^ 31 - 1)

/-- `std::stol`: the result is a 64-bit `long`. -/
def stol : Bytes → Except ConversionError Int := parseInteger (-2 ^ 63) (2 ^ 63 - 1)

theorem isDigit_iff {b : UInt8} : isDigit b = true ↔ 48 ≤ b.toNat ∧ b.toNat ≤ 57 := by
  simp [isDigit, UInt8.le_iff_toNat_le]

theorem not_isSpace_of_isDigit {b : UInt8} (h : isDigit b = true) : isSpace b = false := by
  have hb := isDigit_iff.mp h
  simp only [isSpace, Bool.or_eq_false_iff, beq_eq_false_iff_ne, ne_eq, Bool.and_eq_false_iff,
    decide_eq_false_iff_not, UInt8.le_iff_toNat_le]
  refine ⟨?_, Or.inr ?_⟩
  · rintro rfl
    exact absurd hb (by decide)
  · have h13 : (13 : UInt8).toNat = 13 := rfl
    omega

theorem isDigit_ofNat_digit {c : Char} (h : c.isDigit = true) :
    isDigit (UInt8.ofNat c.toNat) = true ∧ (UInt8.ofNat c.toNat).toNat = c.toNat := by
  have hc : 48 ≤ c.toNat ∧ c.toNat ≤ 57 := by
    simp only [Char.isDigit, Bool.and_eq_true, decide_eq_true_eq] at h
    exact h
  have hto : (UInt8.ofNat c.toNat).toNat = c.toNat := by
    rw [UInt8.toNat_ofNat']
    omega
  exact ⟨isDigit_iff.mpr (by omega), hto⟩

theorem natText_isDigit {n : Nat} {b : UInt8} (h : b ∈ natText n) : isDigit b = true := by
  obtain ⟨c, hc, rfl⟩ := List.mem_map.mp h
  exact (isDigit_ofNat_digit (Nat.isDigit_of_mem_toDigits (by decide) (by decide) hc)).1

theorem natText_ne_nil (n : Nat) : natText n ≠ [] := by
  simp [natText, Nat.toDigits_ne_nil]

theorem digitsValue_natText (n : Nat) : digitsValue (natText n) = n := by
  have hsame : ∀ (cs : List Char) (acc : Nat), (∀ c ∈ cs, c.isDigit = true) →
      (cs.map fun c => UInt8.ofNat c.toNat).foldl (fun value b => 10 * value + (b.toNat - 48)) acc =
        Nat.ofDigitChars 10 cs acc := by
    intro cs
    induction cs with
    | nil => intro acc _; rfl
    | cons c cs ih =>
      intro acc hcs
      rw [List.map_cons, List.foldl_cons, ih _ fun d hd => hcs d (List.mem_cons_of_mem c hd),
        Nat.ofDigitChars_cons, (isDigit_ofNat_digit (hcs c List.mem_cons_self)).2]
      rfl
  unfold digitsValue natText
  rw [hsame _ _ fun c hc => Nat.isDigit_of_mem_toDigits (by decide) (by decide) hc]
  exact Nat.ofDigitChars_ten_toDigits

/-- A text of digits is read whole: it has no leading space and no sign. -/
theorem splitSign_digits {text : Bytes} (hdigits : ∀ b ∈ text, isDigit b = true)
    (hne : text ≠ []) : splitSign (text.dropWhile isSpace) = (false, text) := by
  cases text with
  | nil => exact absurd rfl hne
  | cons b rest =>
    have hb := isDigit_iff.mp (hdigits b List.mem_cons_self)
    have hspace := not_isSpace_of_isDigit (hdigits b List.mem_cons_self)
    have hminus : b ≠ 45 := by rintro rfl; exact absurd hb (by decide)
    have hplus : b ≠ 43 := by rintro rfl; exact absurd hb (by decide)
    simp [hspace, splitSign, hminus, hplus]

theorem parseInteger_natText {low high : Int} {n : Nat} (hlow : low ≤ n) (hhigh : (n : Int) ≤ high) :
    parseInteger low high (natText n) = .ok n := by
  have hdigits : ∀ b ∈ natText n, isDigit b = true := fun b => natText_isDigit
  unfold parseInteger
  rw [splitSign_digits hdigits (natText_ne_nil n)]
  simp [List.takeWhile_eq_self_iff.mpr hdigits, natText_ne_nil, digitsValue_natText, hlow, hhigh]

theorem parseInteger_natText_outOfRange {low high : Int} {n : Nat} (hhigh : high < n) :
    parseInteger low high (natText n) = .error .outOfRange := by
  have hdigits : ∀ b ∈ natText n, isDigit b = true := fun b => natText_isDigit
  have hnot : ¬ (n : Int) ≤ high := by omega
  unfold parseInteger
  rw [splitSign_digits hdigits (natText_ne_nil n)]
  simp [List.takeWhile_eq_self_iff.mpr hdigits, natText_ne_nil, digitsValue_natText, hnot]

/-- A printed number is read as an `int` when it is one. -/
theorem stoi_natText (n : Nat) :
    stoi (natText n) = if n < 2 ^ 31 then .ok (n : Int) else .error .outOfRange := by
  unfold stoi
  split
  · exact parseInteger_natText (by omega) (by omega)
  · exact parseInteger_natText_outOfRange (by omega)

/-- What is read fits. -/
theorem parseInteger_range {low high : Int} {text : Bytes} {n : Int}
    (read : parseInteger low high text = .ok n) : low ≤ n ∧ n ≤ high := by
  unfold parseInteger at read
  dsimp only at read
  rcases ite_eq_iff.mp read with ⟨_, hnone⟩ | ⟨_, hsome⟩
  · cases hnone
  · rcases ite_eq_iff.mp hsome with ⟨hrange, hvalue⟩ | ⟨_, hvalue⟩
    · cases hvalue
      exact hrange
    · cases hvalue

theorem stoi_range {text : Bytes} {n : Int} (read : stoi text = .ok n) :
    -2 ^ 31 ≤ n ∧ n ≤ 2 ^ 31 - 1 := parseInteger_range read

theorem stol_range {text : Bytes} {n : Int} (read : stol text = .ok n) :
    -2 ^ 63 ≤ n ∧ n ≤ 2 ^ 63 - 1 := parseInteger_range read

/-- Reading a printed integer gives the integer back, within the target type. -/
theorem parseInteger_intText {low high : Int} {n : Int} (hlow : low ≤ n) (hhigh : n ≤ high) :
    parseInteger low high (intText n) = .ok n := by
  cases n with
  | ofNat n => exact parseInteger_natText hlow hhigh
  | negSucc n =>
    have hdigits : ∀ b ∈ natText (n + 1), isDigit b = true := fun b => natText_isDigit
    have hvalue : -((n : Int) + 1) = Int.negSucc n := by omega
    have hspace : isSpace 45 = false := rfl
    unfold parseInteger
    simp only [intText, List.dropWhile_cons, hspace, Bool.false_eq_true, if_false, splitSign, if_true,
      List.takeWhile_eq_self_iff.mpr hdigits, natText_ne_nil, digitsValue_natText, Nat.cast_add,
      Nat.cast_one, hvalue, hlow, hhigh, and_self]

theorem intText_injective : Function.Injective intText := by
  intro first second h
  have hfirst := parseInteger_intText (min_le_left first second) (le_max_left first second)
  have hsecond := parseInteger_intText (min_le_right first second) (le_max_right first second)
  rw [h, hsecond] at hfirst
  exact (Except.ok.inj hfirst).symm

theorem mem_intText {n : Int} {b : UInt8} (h : b ∈ intText n) : b = 45 ∨ isDigit b = true := by
  cases n with
  | ofNat n => exact Or.inr (natText_isDigit h)
  | negSucc n =>
    rcases List.mem_cons.mp h with rfl | h
    · exact Or.inl rfl
    · exact Or.inr (natText_isDigit h)

end Foundation.Ascii
