import LiteExchange.Foundation.Framing
import LiteExchange.Fix.Receive
import LiteExchange.Fix.WireFields

/-!
# The two numbers that a message says about itself

Source: `FixMessage::toString`, `calculateBodyLength` and `calculateCheckSum`. Both numbers are
computed as an `int`. The lengths add up to what is written as long as an `int` holds them. The
checksum adds up signed characters: where the sum is negative, so is its remainder, and a sign
is printed among the digits.
-/

namespace LiteExchange.Fix

open Foundation.Ascii Foundation.Framing FixConstants FixMessage

/-- The output ends with the checksum field, behind `front`. -/
def Trailed (output front checksum : Bytes) : Prop :=
  Plain checksum ∧ output = front ++ appendTagStringValue fixTagBodyChecksum checksum

/-- `text` is the value of the body length field, `body` what stands between it and the checksum
field. -/
def Delimits (output text body : Bytes) : Prop :=
  ∃ version checksum, fixDelimiter ∉ version ∧ fixDelimiter ∉ text ∧
    Trailed output (appendTagStringValue fixTagVersion version ++
      (appendTagStringValue fixTagBodyLength text ++ body)) checksum

/-- Three decimal digits that spell the number. -/
structure Spells (text : Bytes) (number : Nat) : Prop where
  three : text.length = 3
  digits : ∀ b ∈ text, isDigit b = true
  value : digitsValue text = number

/-- The sum of the bytes, from 0 to 255 each. -/
def byteSum (text : Bytes) : Nat := (text.map UInt8.toNat).sum

/-- The number of bytes that are negative as a `char`. -/
def highBytes (text : Bytes) : Nat := text.countP fun c => 128 ≤ c.toNat

/-- Tag 9 is the number of bytes between its field and the checksum field. -/
def BodyLengthExact (message : FixMessage) (order : List Int) : Prop :=
  ∃ text body, Delimits (message.toString order) text body ∧ text = natText body.length

/-- Tag 10 is the sum of the bytes in front of its field, modulo 256, in three digits. -/
def CheckSumExact (message : FixMessage) (order : List Int) : Prop :=
  ∃ front checksum, Trailed (message.toString order) front checksum ∧
    Spells checksum (byteSum front % 256)

/-! ## Fields are found again -/

theorem Trailed.unique {output front other checksum otherSum : Bytes}
    (first : Trailed output front checksum) (second : Trailed output other otherSum) :
    front = other ∧ checksum = otherSum := by
  obtain ⟨hplain, hfirst⟩ := first
  obtain ⟨hplainOther, hsecond⟩ := second
  have htag : ∀ front value, front ++ appendTagStringValue fixTagBodyChecksum value =
      ((front ++ [49, 48]) ++ fixEquals :: value) ++ [fixDelimiter] := by
    intro front value
    simp [appendTagStringValue, fixTagBodyChecksum]
    rfl
  rw [htag] at hfirst hsecond
  have hsame := List.append_cancel_right (hfirst.symm.trans hsecond)
  obtain ⟨hfront, hsum⟩ := started_unique hplain.1 hplainOther.1 hsame
  exact ⟨List.append_cancel_right hfront, hsum⟩

theorem Delimits.unique {output text other body otherBody : Bytes}
    (first : Delimits output text body) (second : Delimits output other otherBody) :
    text = other ∧ body = otherBody := by
  obtain ⟨version, checksum, hversion, htext, hfirst⟩ := first
  obtain ⟨otherVersion, otherSum, hotherVersion, hother, hsecond⟩ := second
  obtain ⟨hfront, -⟩ := hfirst.unique hsecond
  have hversionField : ∀ value, appendTagStringValue fixTagVersion value =
      56 :: fixEquals :: (value ++ [fixDelimiter]) := fun value => rfl
  have hlengthField : ∀ value, appendTagStringValue fixTagBodyLength value =
      57 :: fixEquals :: (value ++ [fixDelimiter]) := fun value => rfl
  simp only [hversionField, hlengthField, List.cons_append, List.append_assoc, List.nil_append,
    List.cons.injEq, true_and] at hfront
  obtain ⟨-, hrest⟩ := ended_unique hversion hotherVersion hfront
  simp only [List.cons.injEq, true_and] at hrest
  exact ended_unique htext hother hrest

theorem toString_trailed (message : FixMessage) (order : List Int) :
    Trailed (message.toString order) (fieldsText (message.fields order))
      (checkSumText message order) :=
  ⟨plain_checkSum _, rfl⟩

theorem toString_delimits (message : FixMessage) (order : List Int) :
    Delimits (message.toString order) (bodyLengthText message order)
      (fieldsText ((message.fields order).drop 2)) := by
  have hversion : fixDelimiter ∉ fixVersionString message.fixVersion := by
    cases message.fixVersion with
    | _ => decide
  refine ⟨_, checkSumText message order, hversion, plain_bodyLengthText message order, ?_⟩
  have htrailed := toString_trailed message order
  rw [fieldsText_fields] at htrailed
  exact htrailed

/-! ## The body length -/

/-- Tag 9 is exact where an `int` holds the length. -/
theorem bodyLengthExact_iff (message : FixMessage) (order : List Int) :
    BodyLengthExact message order ↔ bodySize message order < 2 ^ 31 := by
  have hdelimits := toString_delimits message order
  have hexact : BodyLengthExact message order ↔
      bodyLengthText message order = natText (bodySize message order) := by
    constructor
    · rintro ⟨text, body, hother, htext⟩
      obtain ⟨hsame, hbody⟩ := hdelimits.unique hother
      rw [hsame, htext, ← hbody]
      rfl
    · intro htext
      exact ⟨_, _, hdelimits, htext⟩
  have hprinted : natText (bodySize message order) = intText (bodySize message order : Int) := rfl
  rw [hexact, bodyLengthText, hprinted, intText_injective.eq_iff, calculateBodyLength_eq]
  unfold narrow
  omega

theorem heartbeatOf_enumerates (fixVersion : FixVersion) (text : Bytes) :
    (heartbeatOf fixVersion text).Enumerates [fixTagFreeText] where
  nodup := List.nodup_singleton _
  tags := by
    intro tag
    rw [List.mem_singleton]
    by_cases htext : tag = fixTagFreeText
    · simp [hasTag, heartbeatOf, htext]
    · have hother : ¬ tag = 58 := htext
      simp [hasTag, heartbeatOf, hother]

/-- A text of 2^31 bytes. -/
theorem not_bodyLengthExact_long :
    ¬ ∀ (message : FixMessage) (order : List Int), message.Enumerates order →
      BodyLengthExact message order := by
  intro h
  obtain ⟨text, hlength⟩ : ∃ text : Bytes, text.length = 2 ^ 31 :=
    ⟨List.replicate (2 ^ 31) 65, List.length_replicate⟩
  have hexact := h (heartbeatOf .fix42 text) [fixTagFreeText] (heartbeatOf_enumerates .fix42 text)
  have htext : (heartbeatOf .fix42 text).getTagValue fixTagFreeText = text := rfl
  rw [bodyLengthExact_iff, bodySize_eq, List.map_singleton, htext, hlength] at hexact
  simp at hexact
  omega

/-! ## The checksum -/

/-- As a `char`, a byte from 128 on is less by 256. -/
theorem toInt8_toInt (c : UInt8) :
    c.toInt8.toInt = (c.toNat : Int) - 256 * if 128 ≤ c.toNat then 1 else 0 := by
  have hsigned : c.toInt8.toInt = c.toBitVec.toInt := rfl
  have hunsigned : c.toBitVec.toNat = c.toNat := rfl
  rw [hsigned, BitVec.toInt_eq_toNat_cond, hunsigned]
  split
  · rw [if_neg (by omega)]
    omega
  · rw [if_pos (by omega)]
    omega

theorem signed_sum (text : Bytes) : (text.map fun c : UInt8 => c.toInt8.toInt).sum =
    (byteSum text : Int) - 256 * highBytes text := by
  induction text with
  | nil => rfl
  | cons c text ih =>
    have hsum : byteSum (c :: text) = c.toNat + byteSum text := by simp [byteSum]
    have hhigh : highBytes (c :: text) = highBytes text + if 128 ≤ c.toNat then 1 else 0 := by
      simp [highBytes, List.countP_cons]
    rw [List.map_cons, List.sum_cons, ih, toInt8_toInt, hsum, hhigh]
    push_cast
    split
    · omega
    · omega

/-- A number below 1000 is printed in three digits. -/
theorem padLeft_spells {number : Nat} (small : number < 1000) :
    Spells (padLeft (natText number) 3 48) number := by
  have hlength : (natText number).length ≤ 3 := by
    rw [natText, List.length_map]
    exact (Nat.length_toDigits_le_iff (by decide) (by decide)).mpr small
  have hzero : ∀ n value, digitsValue (List.replicate n 48 ++ natText value) = value := by
    intro n value
    induction n with
    | zero => exact digitsValue_natText value
    | succ n ih => exact ih
  constructor
  · simp [padLeft]
    omega
  · intro b hb
    rcases List.mem_append.mp hb with hpad | hdigit
    · rw [(List.mem_replicate.mp hpad).2]
      rfl
    · exact natText_isDigit hdigit
  · exact hzero _ number

/-- The remainder of a sum that is not negative is printed, and that of a negative one where there
is none. -/
theorem calculateCheckSum_spells (text : Bytes) :
    Spells (calculateCheckSum text) (byteSum text % 256) ↔
      256 ∣ byteSum text ∨
        ((byteSum text : Int) - 256 * highBytes text) % 2 ^ 32 < 2 ^ 31 := by
  have hmodulo : narrow ((byteSum text : Int) - 256 * highBytes text) % 256 =
      (byteSum text % 256 : Nat) := by
    unfold narrow
    omega
  have hsign : 0 ≤ narrow ((byteSum text : Int) - 256 * highBytes text) ↔
      ((byteSum text : Int) - 256 * highBytes text) % 2 ^ 32 < 2 ^ 31 := by
    unfold narrow
    omega
  rw [calculateCheckSum, signed_sum, ← hsign]
  generalize narrow ((byteSum text : Int) - 256 * highBytes text) = sum at hmodulo ⊢
  have hspelled : sum.tmod 256 = (byteSum text % 256 : Nat) →
      Spells (padLeft (intText (sum.tmod 256)) 3 48) (byteSum text % 256) := by
    intro hremainder
    rw [hremainder]
    exact padLeft_spells (by omega)
  by_cases hnegative : 0 ≤ sum
  · refine iff_of_true (hspelled ?_) (Or.inr hnegative)
    rw [Int.tmod_eq_emod_of_nonneg hnegative, hmodulo]
  by_cases hdivides : 256 ∣ byteSum text
  · refine iff_of_true (hspelled ?_) (Or.inl hdivides)
    have hnone : (256 : Int) ∣ sum := by omega
    rw [Int.tmod_eq_zero_of_dvd hnone]
    omega
  · refine iff_of_false ?_ (not_or.mpr ⟨hdivides, hnegative⟩)
    intro hspells
    -- the remainder is negative, and its sign is no digit
    obtain ⟨k, hk⟩ : ∃ k, sum.tmod 256 = Int.negSucc k := by
      refine Int.eq_negSucc_of_lt_zero ?_
      have hback : sum.tmod 256 = -((-sum).tmod 256) := by rw [Int.neg_tmod, neg_neg]
      rw [hback, Int.tmod_eq_emod_of_nonneg (by omega)]
      omega
    have hdigit : isDigit 45 = true := hspells.digits 45 (by simp [padLeft, hk, intText])
    exact absurd hdigit (by decide)

/-- Tag 10 is exact where the bytes from 128 on do not outweigh the others as signed characters, or
the sum is a multiple of 256. -/
theorem checkSumExact_iff (message : FixMessage) (order : List Int) :
    CheckSumExact message order ↔
      256 ∣ byteSum (fieldsText (message.fields order)) ∨
        ((byteSum (fieldsText (message.fields order)) : Int) -
          256 * highBytes (fieldsText (message.fields order))) % 2 ^ 32 < 2 ^ 31 := by
  have htrailed := toString_trailed message order
  rw [← calculateCheckSum_spells]
  constructor
  · rintro ⟨front, checksum, hother, hspells⟩
    obtain ⟨rfl, rfl⟩ := htrailed.unique hother
    exact hspells
  · intro hspells
    exact ⟨_, _, htrailed, hspells⟩

/-- Forty bytes of 128 in a text. -/
theorem not_checkSumExact_highBytes :
    ¬ ∀ (message : FixMessage) (order : List Int), message.Enumerates order →
      CheckSumExact message order := by
  intro h
  have hexact := h (heartbeatOf .fix42 (List.replicate 40 128)) [fixTagFreeText]
    (heartbeatOf_enumerates .fix42 _)
  rw [checkSumExact_iff] at hexact
  exact absurd hexact (by decide +kernel)

end LiteExchange.Fix
