import LiteExchange.Fix.Constants
import Mathlib.Data.List.Forall2

/-!
# Which texts are taken for a version or a message type

Source: `getFixVersionFromString` and `getMessageTypeFromString` of fix_constants.h over
`toLower` and `compare` of string_utility.h. The tables are spelled in one way, the comparison
is of lower-case C strings: a text is decoded when it spells a table text up to the case of
its letters and up to what follows a NUL.
-/

namespace LiteExchange.Fix

open Foundation.Ascii

def IsUpper (b : UInt8) : Prop := 65 ≤ b ∧ b ≤ 90

/-- The same character, up to case. -/
def SameLetter (first second : UInt8) : Prop :=
  first = second ∨ IsUpper first ∧ second = first + 32 ∨ IsUpper second ∧ first = second + 32

/-- The characters before the first NUL spell the text, up to case. -/
def Respells (given text : Bytes) : Prop :=
  ∃ letters behind, given = letters ++ behind ∧ (behind = [] ∨ ∃ rest, behind = 0 :: rest) ∧
    List.Forall₂ SameLetter letters text

/-- `std::tolower` on one character. -/
def lowerByte (b : UInt8) : UInt8 := if 65 ≤ b && b ≤ 90 then b + 32 else b

theorem toLower_eq_map (text : Bytes) : toLower text = text.map lowerByte := rfl

theorem lowerByte_toNat (b : UInt8) :
    (lowerByte b).toNat = if 65 ≤ b.toNat ∧ b.toNat ≤ 90 then b.toNat + 32 else b.toNat := by
  have h65 : (65 : UInt8).toNat = 65 := rfl
  have h90 : (90 : UInt8).toNat = 90 := rfl
  have h32 : (32 : UInt8).toNat = 32 := rfl
  simp only [lowerByte, Bool.and_eq_true, decide_eq_true_eq, UInt8.le_iff_toNat_le, h65, h90]
  split
  · rw [UInt8.toNat_add, h32]
    omega
  · rfl

theorem isUpper_iff {b : UInt8} : IsUpper b ↔ 65 ≤ b.toNat ∧ b.toNat ≤ 90 := by
  simp [IsUpper, UInt8.le_iff_toNat_le]

theorem lowerByte_eq_zero {b : UInt8} : lowerByte b = 0 ↔ b = 0 := by
  have h0 : (0 : UInt8).toNat = 0 := rfl
  rw [← UInt8.toNat_inj, ← UInt8.toNat_inj, lowerByte_toNat, h0]
  split <;> omega

/-- Two characters have one lower case exactly when they are the same up to case. -/
theorem lowerByte_eq_iff {first second : UInt8} :
    lowerByte first = lowerByte second ↔ SameLetter first second := by
  have hplus (b : UInt8) : (b + 32).toNat = (b.toNat + 32) % 2 ^ 8 := UInt8.toNat_add b 32
  simp only [SameLetter, isUpper_iff, ← UInt8.toNat_inj, lowerByte_toNat, hplus]
  split <;> split <;> omega

theorem takeWhile_toLower (text : Bytes) :
    (toLower text).takeWhile (· != 0) = toLower (text.takeWhile (· != 0)) := by
  rw [toLower_eq_map, toLower_eq_map, List.takeWhile_map]
  congr 2
  funext b
  simp [bne, lowerByte_eq_zero]

theorem toLower_eq_iff {first second : Bytes} :
    toLower first = toLower second ↔ List.Forall₂ SameLetter first second := by
  rw [toLower_eq_map, toLower_eq_map, ← List.forall₂_eq_eq_eq, List.forall₂_map_left_iff,
    List.forall₂_map_right_iff]
  simp only [lowerByte_eq_iff]

/-- What a text is up to its first NUL, and what follows. -/
theorem split_at_nul (text : Bytes) : ∃ behind, text = text.takeWhile (· != 0) ++ behind ∧
    (behind = [] ∨ ∃ rest, behind = 0 :: rest) := by
  induction text with
  | nil => exact ⟨[], rfl, Or.inl rfl⟩
  | cons b rest ih =>
    by_cases hb : b = 0
    · exact ⟨b :: rest, by simp [hb], Or.inr ⟨rest, by rw [hb]⟩⟩
    · obtain ⟨behind, hrest, hbehind⟩ := ih
      refine ⟨behind, ?_, hbehind⟩
      rw [List.takeWhile_cons_of_pos (by simpa using hb), List.cons_append, ← hrest]

/-- Letters that spell a text without NUL are none themselves. -/
theorem nonzero_of_spells {letters text : Bytes} (hletters : List.Forall₂ SameLetter letters text)
    (hplain : ∀ b ∈ text, b ≠ 0) : ∀ b ∈ letters, b ≠ 0 := by
  rintro b hb rfl
  have hlower : lowerByte 0 ∈ toLower text := by
    rw [← toLower_eq_iff.mpr hletters]
    exact List.mem_map_of_mem hb
  obtain ⟨c, hc, hsame⟩ := List.mem_map.mp hlower
  exact hplain c hc (lowerByte_eq_zero.mp (hsame.trans (lowerByte_eq_zero.mpr rfl)))

/-- A table text, which holds no NUL, is what is compared with: a text compares equal exactly
when it respells it. -/
theorem compare_iff_respells {given text : Bytes} (hplain : ∀ b ∈ text, b ≠ 0) :
    compare given text = true ↔ Respells given text := by
  have htext : text.takeWhile (· != 0) = text :=
    List.takeWhile_eq_self_iff.mpr fun b hb => by simpa using hplain b hb
  simp only [compare, takeWhile_toLower, htext, beq_iff_eq, toLower_eq_iff]
  constructor
  · intro hletters
    obtain ⟨behind, hgiven, hbehind⟩ := split_at_nul given
    exact ⟨given.takeWhile (· != 0), behind, hgiven, hbehind, hletters⟩
  · rintro ⟨letters, behind, rfl, hbehind, hletters⟩
    have hnonzero := nonzero_of_spells hletters hplain
    have htake : (letters ++ behind).takeWhile (· != 0) = letters := by
      rw [List.takeWhile_append_of_pos fun b hb => by simpa using hnonzero b hb]
      rcases hbehind with rfl | ⟨rest, rfl⟩ <;> simp
    rwa [htake]

namespace FixConstants

/-- A table text other than `"NONE"`. -/
def IsTableText (text : Bytes) : Prop :=
  (∃ messageType ≠ MessageType.none, fixMessageTypeString messageType = text) ∨
    ∃ version ≠ FixVersion.none, fixVersionString version = text

/-- What is decoded is the text itself, byte for byte, and each table text is decoded. -/
structure DecodesExactly (given : Bytes) : Prop where
  messageType : getMessageTypeFromString given ≠ .none →
    fixMessageTypeString (getMessageTypeFromString given) = given
  version : getFixVersionFromString given ≠ .none →
    fixVersionString (getFixVersionFromString given) = given
  messageTypeText : ∀ messageType ≠ MessageType.none,
    fixMessageTypeString messageType = given → getMessageTypeFromString given = messageType
  versionText : ∀ version ≠ FixVersion.none,
    fixVersionString version = given → getFixVersionFromString given = version

variable {given text : Bytes}

theorem fixMessageTypeString_plain (messageType : MessageType) :
    ∀ b ∈ fixMessageTypeString messageType, b ≠ 0 := by
  have hall : (fixMessageTypeString messageType).all (· != 0) = true := by
    cases messageType with
    | _ => decide
  exact fun b hb => bne_iff_ne.mp (List.all_eq_true.mp hall b hb)

theorem fixVersionString_plain (version : FixVersion) : ∀ b ∈ fixVersionString version, b ≠ 0 := by
  have hall : (fixVersionString version).all (· != 0) = true := by
    cases version with
    | _ => decide
  exact fun b hb => bne_iff_ne.mp (List.all_eq_true.mp hall b hb)

/-- The decoders look at a text through `compare` only. -/
theorem compare_left (h : compare given text = true) (other : Bytes) :
    compare given other = compare text other := by
  rw [compare, beq_iff_eq] at h
  rw [compare, compare, h]

theorem getMessageTypeFromString_congr (h : compare given text = true) :
    getMessageTypeFromString given = getMessageTypeFromString text := by
  simp only [getMessageTypeFromString, compare_left h]

theorem getFixVersionFromString_congr (h : compare given text = true) :
    getFixVersionFromString given = getFixVersionFromString text := by
  simp only [getFixVersionFromString, compare_left h]

/-- The types and the versions in the order in which the source tries their texts. -/
def messageTypesInOrder : List MessageType :=
  [.logon, .heartbeat, .testRequest, .resendRequest, .sequenceReset, .logoff, .userLogon,
    .userResponse, .newOrder, .cancel, .executionReport, .adminReject, .businessReject]

def versionsInOrder : List FixVersion :=
  [.fix40, .fix41, .fix42, .fix43, .fix44, .fix50, .fix50sp1, .fix50sp2]

theorem getD_find?_cons {α : Type} (p : α → Bool) (first : α) (rest : List α) (default : α) :
    ((first :: rest).find? p).getD default =
      if p first then first else (rest.find? p).getD default := by
  cases hp : p first <;> simp [hp]

theorem getMessageTypeFromString_eq (given : Bytes) : getMessageTypeFromString given =
    (messageTypesInOrder.find? fun messageType =>
      compare given (fixMessageTypeString messageType)).getD .none := by
  simp only [messageTypesInOrder, getD_find?_cons, List.find?_nil, Option.getD_none]
  rfl

theorem getFixVersionFromString_eq (given : Bytes) : getFixVersionFromString given =
    (versionsInOrder.find? fun version => compare given (fixVersionString version)).getD .none := by
  simp only [versionsInOrder, getD_find?_cons, List.find?_nil, Option.getD_none]
  rfl

/-- The text of what is decoded compares equal. -/
theorem compare_of_messageType (h : getMessageTypeFromString given ≠ .none) :
    compare given (fixMessageTypeString (getMessageTypeFromString given)) = true := by
  rw [getMessageTypeFromString_eq] at h ⊢
  cases hfound : messageTypesInOrder.find? fun messageType =>
      compare given (fixMessageTypeString messageType) with
  | none => rw [hfound] at h; exact absurd rfl h
  | some messageType =>
    have hcompare := List.find?_some hfound
    exact hcompare

theorem compare_of_version (h : getFixVersionFromString given ≠ .none) :
    compare given (fixVersionString (getFixVersionFromString given)) = true := by
  rw [getFixVersionFromString_eq] at h ⊢
  cases hfound : versionsInOrder.find? fun version =>
      compare given (fixVersionString version) with
  | none => rw [hfound] at h; exact absurd rfl h
  | some version =>
    have hcompare := List.find?_some hfound
    exact hcompare

/-- Decoding is exact on a text exactly when the text respells no table text but itself. -/
theorem decodesExactly_iff (given : Bytes) :
    DecodesExactly given ↔ ∀ text, IsTableText text → Respells given text → given = text := by
  constructor
  · rintro exact text (⟨messageType, hnone, rfl⟩ | ⟨version, hnone, rfl⟩) respells
    · have hsame := (compare_iff_respells (fixMessageTypeString_plain messageType)).mpr respells
      have hdecoded := getMessageTypeFromString_congr hsame
      rw [getMessageTypeFromString_string] at hdecoded
      rw [← exact.messageType (hdecoded ▸ hnone), hdecoded]
    · have hsame := (compare_iff_respells (fixVersionString_plain version)).mpr respells
      have hdecoded := getFixVersionFromString_congr hsame
      rw [getFixVersionFromString_string] at hdecoded
      rw [← exact.version (hdecoded ▸ hnone), hdecoded]
  · intro h
    refine ⟨fun hnone => ?_, fun hnone => ?_, ?_, ?_⟩
    · exact (h _ (Or.inl ⟨_, hnone, rfl⟩) ((compare_iff_respells
        (fixMessageTypeString_plain _)).mp (compare_of_messageType hnone))).symm
    · exact (h _ (Or.inr ⟨_, hnone, rfl⟩) ((compare_iff_respells
        (fixVersionString_plain _)).mp (compare_of_version hnone))).symm
    · rintro messageType - rfl
      exact getMessageTypeFromString_string messageType
    · rintro version - rfl
      exact getFixVersionFromString_string version

/-- `35=d` is a new order. -/
theorem not_decodesExactly_lower :
    getMessageTypeFromString (ascii "d") = .newOrder ∧ ¬ DecodesExactly (ascii "d") :=
  ⟨by decide, fun exact => absurd (exact.messageType (by decide)) (by decide)⟩

end FixConstants

end LiteExchange.Fix
