import LiteExchange.Fix.Constants
import Mathlib.Algebra.BigOperators.Group.List.Basic
import Mathlib.Algebra.Order.Group.Nat

/-!
# FIX messages

Source: fix_message.h and fix_message.cpp. The tag map is a partial function; the
order in which the `unordered_map` is iterated is a parameter where it shows. A
default-constructed message does not set its type, which is a parameter as well.
-/

namespace LiteExchange.Fix

open Foundation.Ascii FixConstants

structure FixMessage where
  fixVersion : FixVersion
  sequenceNumber : Nat
  messageType : MessageType
  senderCompId : Bytes
  targetCompId : Bytes
  sendingTime : Bytes
  bodyTagValuePairs : Int → Option Bytes

namespace FixMessage

/-- The default constructor; it leaves the type with an indeterminate value. -/
def construct (indeterminate : MessageType) : FixMessage where
  fixVersion := .none
  sequenceNumber := 1
  messageType := indeterminate
  senderCompId := []
  targetCompId := []
  sendingTime := []
  bodyTagValuePairs := fun _ => Option.none

def reset (_message : FixMessage) : FixMessage where
  fixVersion := .none
  sequenceNumber := 1
  messageType := .none
  senderCompId := []
  targetCompId := []
  sendingTime := []
  bodyTagValuePairs := fun _ => Option.none

def hasTag (message : FixMessage) (tag : Int) : Bool := (message.bodyTagValuePairs tag).isSome

/-- `operator[]`: a missing tag reads as the empty text. -/
def getTagValue (message : FixMessage) (tag : Int) : Bytes :=
  (message.bodyTagValuePairs tag).getD []

def getTagValueAsInt (message : FixMessage) (tag : Int) : Except ConversionError Int :=
  stoi (message.getTagValue tag)

def getTagValueAsLong (message : FixMessage) (tag : Int) : Except ConversionError Int :=
  stol (message.getTagValue tag)

def setTag (message : FixMessage) (tag : Int) (value : Bytes) : FixMessage :=
  { message with
    bodyTagValuePairs := fun other => if other = tag then some value
      else message.bodyTagValuePairs other }

def removeTag (message : FixMessage) (tag : Int) : FixMessage :=
  { message with
    bodyTagValuePairs := fun other => if other = tag then Option.none
      else message.bodyTagValuePairs other }

/-- The `int` is converted to `size_t`. -/
def toSize (value : Int) : Nat := (value % 2 ^ 64).toNat

/-- The header tags move from the tag map to their members, in the order of the source. -/
def initialiseHeader (message : FixMessage) : Except ConversionError FixMessage := do
  let message := if message.hasTag fixTagVersion then
      { message with
        fixVersion := getFixVersionFromString (message.getTagValue fixTagVersion) }.removeTag
          fixTagVersion
    else message
  let message := if message.hasTag fixTagMessageType then
      { message with
        messageType := getMessageTypeFromString (message.getTagValue fixTagMessageType) }.removeTag
          fixTagMessageType
    else message
  let message ← if message.hasTag fixTagSequenceNumber then do
      let value ← message.getTagValueAsInt fixTagSequenceNumber
      pure ({ message with sequenceNumber := toSize value }.removeTag fixTagSequenceNumber)
    else pure message
  let message := if message.hasTag fixTagSendingTime then
      { message with sendingTime := message.getTagValue fixTagSendingTime }.removeTag
        fixTagSendingTime
    else message
  let message := if message.hasTag fixTagSenderCompid then
      { message with senderCompId := message.getTagValue fixTagSenderCompid }.removeTag
        fixTagSenderCompid
    else message
  let message := if message.hasTag fixTagTargetCompid then
      { message with targetCompId := message.getTagValue fixTagTargetCompid }.removeTag
        fixTagTargetCompid
    else message
  pure message

/-- What an `int` holds of a value. A sum of several terms is narrowed once, which leaves the
same 32 bits as narrowing after each addition. -/
def narrow (value : Int) : Int := (2 ^ 31 + value) % 2 ^ 32 - 2 ^ 31

/-- 20 is the length of tag, `=` and delimiter of the five header tags counted here. -/
def calculateHeaderLength (message : FixMessage) : Int :=
  narrow (20 + (fixMessageTypeString message.messageType).length +
    (natText message.sequenceNumber).length + message.senderCompId.length +
    message.sendingTime.length + message.targetCompId.length)

def calculateBodyLength (message : FixMessage) (order : List Int) : Int :=
  narrow ((order.map fun tag =>
    (intText tag).length + 2 + (message.getTagValue tag).length).sum +
      message.calculateHeaderLength)

/-- `core::padLeft`. -/
def padLeft (input : Bytes) (number : Nat) (padChar : UInt8) : Bytes :=
  List.replicate (number - input.length) padChar ++ input

/-- `char` is signed, and so is the remainder. -/
def calculateCheckSum (message : Bytes) : Bytes :=
  padLeft (intText ((narrow (message.map fun c : UInt8 => c.toInt8.toInt).sum).tmod 256)) 3 48

/-- One field of the wire form. -/
def appendTagStringValue (tag : Int) (value : Bytes) : Bytes :=
  intText tag ++ fixEquals :: value ++ [fixDelimiter]

/-- The fields in front of the checksum, in the order of the source. -/
def fields (message : FixMessage) (order : List Int) : List (Int × Bytes) :=
  [(fixTagVersion, fixVersionString message.fixVersion),
    (fixTagBodyLength, intText (message.calculateBodyLength order)),
    (fixTagMessageType, fixMessageTypeString message.messageType),
    (fixTagSequenceNumber, natText message.sequenceNumber),
    (fixTagSenderCompid, message.senderCompId),
    (fixTagSendingTime, message.sendingTime),
    (fixTagTargetCompid, message.targetCompId)] ++
    order.map fun tag => (tag, message.getTagValue tag)

def fieldsText (pairs : List (Int × Bytes)) : Bytes :=
  pairs.flatMap fun pair => appendTagStringValue pair.1 pair.2

def toString (message : FixMessage) (order : List Int) : Bytes :=
  let stringOutput := fieldsText (message.fields order)
  stringOutput ++ appendTagStringValue fixTagBodyChecksum (calculateCheckSum stringOutput)

theorem narrow_range (value : Int) : -2 ^ 31 ≤ narrow value ∧ narrow value ≤ 2 ^ 31 - 1 := by
  unfold narrow
  omega

/-- An `int` holds its value up to a multiple of 2^32. -/
theorem narrow_congr (value : Int) : (2 ^ 32 : Int) ∣ narrow value - value := by
  unfold narrow
  omega

/-- The values of an `int`. -/
def IsInt (value : Int) : Prop := -2 ^ 31 ≤ value ∧ value ≤ 2 ^ 31 - 1

instance (value : Int) : Decidable (IsInt value) :=
  inferInstanceAs (Decidable (_ ∧ _))

theorem narrow_of_isInt {value : Int} (h : IsInt value) : narrow value = value := by
  unfold IsInt at h
  unfold narrow
  omega

theorem narrow_add_narrow (value more : Int) :
    narrow (value + narrow more) = narrow (value + more) := by
  unfold narrow
  omega

/-! ## What the fields of the wire form give back -/

/-- The tags set one after the other, as the parsers do. -/
def setTags (message : FixMessage) (pairs : List (Int × Bytes)) : FixMessage :=
  pairs.foldl (fun message pair => message.setTag pair.1 pair.2) message

theorem setTags_append (message : FixMessage) (front back : List (Int × Bytes)) :
    message.setTags (front ++ back) = (message.setTags front).setTags back := by
  simp [setTags, List.foldl_append]

/-- Tags set to values that depend on the tag alone: each listed tag has its value. -/
theorem setTags_order (message : FixMessage) (order : List Int) (value : Int → Bytes) :
    message.setTags (order.map fun tag => (tag, value tag)) =
      { message with
        bodyTagValuePairs := fun tag => if tag ∈ order then some (value tag)
          else message.bodyTagValuePairs tag } := by
  induction order generalizing message with
  | nil => simp [setTags]
  | cons tag order ih =>
    have hrest := ih (message.setTag tag (value tag))
    simp only [setTags, List.map_cons, List.foldl_cons] at hrest ⊢
    rw [hrest]
    simp only [setTag, FixMessage.mk.injEq, true_and]
    funext other
    by_cases hother : other ∈ order
    · simp [hother]
    · by_cases hsame : other = tag
      · simp [hsame]
      · simp [hother, hsame]

end FixMessage

/-- A text without the two separators of the wire form. -/
def Plain (text : Bytes) : Prop := fixEquals ∉ text ∧ fixDelimiter ∉ text

theorem plain_natText (n : Nat) : Plain (natText n) := by
  constructor
  · intro h
    exact absurd (natText_isDigit h) (by decide)
  · intro h
    exact absurd (natText_isDigit h) (by decide)

theorem plain_intText (n : Int) : Plain (intText n) := by
  constructor
  · intro h
    cases mem_intText h with
    | inl h => exact absurd h (by decide)
    | inr h => exact absurd h (by decide)
  · intro h
    cases mem_intText h with
    | inl h => exact absurd h (by decide)
    | inr h => exact absurd h (by decide)

theorem plain_checkSum (message : Bytes) : Plain (FixMessage.calculateCheckSum message) := by
  have hsum := plain_intText
    ((FixMessage.narrow (message.map fun c : UInt8 => c.toInt8.toInt).sum).tmod 256)
  unfold FixMessage.calculateCheckSum FixMessage.padLeft Plain
  simp only [List.mem_append, List.mem_replicate, not_or, not_and]
  constructor
  · exact ⟨fun _ => by decide, hsum.1⟩
  · exact ⟨fun _ => by decide, hsum.2⟩

/-- No value of the fields contains a separator, if none of the message's own texts does. -/
theorem FixMessage.fields_plain {message : FixMessage} {order : List Int}
    (plainHeader : Plain message.senderCompId ∧ Plain message.sendingTime ∧
      Plain message.targetCompId)
    (plainBody : ∀ tag ∈ order, Plain (message.getTagValue tag)) {pair : Int × Bytes}
    (hpair : pair ∈ message.fields order) : Plain pair.2 := by
  obtain ⟨hsender, htime, htarget⟩ := plainHeader
  have hversion : Plain (fixVersionString message.fixVersion) := by
    unfold Plain
    cases message.fixVersion with
    | _ => decide
  have htype : Plain (fixMessageTypeString message.messageType) := by
    unfold Plain
    cases message.messageType with
    | _ => decide
  simp only [fields, List.mem_append, List.mem_cons, List.not_mem_nil, or_false, List.mem_map]
    at hpair
  rcases hpair with (rfl | rfl | rfl | rfl | rfl | rfl | rfl) | ⟨tag, hmem, rfl⟩
  · exact hversion
  · dsimp only
    exact plain_intText _
  · exact htype
  · exact plain_natText _
  · exact hsender
  · exact htime
  · exact htarget
  · exact plainBody tag hmem

/-- The tags of the fields are those of the header and the body. -/
theorem FixMessage.fields_tags {message : FixMessage} {order : List Int} {pair : Int × Bytes}
    (hpair : pair ∈ message.fields order) :
    pair.1 ∈ [fixTagVersion, fixTagBodyLength, fixTagMessageType, fixTagSequenceNumber,
      fixTagSenderCompid, fixTagSendingTime, fixTagTargetCompid] ++ order := by
  have htags : (message.fields order).map Prod.fst =
      [fixTagVersion, fixTagBodyLength, fixTagMessageType, fixTagSequenceNumber,
        fixTagSenderCompid, fixTagSendingTime, fixTagTargetCompid] ++ order := by
    simp [fields, Function.comp_def]
  rw [← htags]
  exact List.mem_map_of_mem hpair

theorem FixMessage.fields_inRange {message : FixMessage} {order : List Int}
    (inRange : ∀ tag ∈ order, -2 ^ 31 ≤ tag ∧ tag ≤ 2 ^ 31 - 1) {pair : Int × Bytes}
    (hpair : pair ∈ message.fields order) : -2 ^ 31 ≤ pair.1 ∧ pair.1 ≤ 2 ^ 31 - 1 := by
  cases List.mem_append.mp (FixMessage.fields_tags hpair) with
  | inl hheader =>
    simp only [fixTagVersion, fixTagBodyLength, fixTagMessageType, fixTagSequenceNumber,
      fixTagSenderCompid, fixTagSendingTime, fixTagTargetCompid, List.mem_cons, List.not_mem_nil,
      or_false] at hheader
    omega
  | inr hbody => exact inRange pair.1 hbody

theorem FixMessage.fields_body {message : FixMessage} {order : List Int}
    (body : fixTagBodyChecksum ∉ order) {pair : Int × Bytes}
    (hpair : pair ∈ message.fields order) : pair.1 ≠ fixTagBodyChecksum := by
  intro hsum
  cases List.mem_append.mp (FixMessage.fields_tags hpair) with
  | inl hheader =>
    rw [hsum] at hheader
    exact absurd hheader (by decide)
  | inr hbody =>
    rw [hsum] at hbody
    exact body hbody

/-- A message together with an iteration order of its tag map, such that the wire form
is well formed: the body holds `int` tags that the header and the trailer do not use,
and no value contains a separator. -/
structure WireMessage where
  message : FixMessage
  order : List Int
  nodup : order.Nodup
  enumerates : ∀ tag, tag ∈ order ↔ message.hasTag tag = true
  inRange : ∀ tag ∈ order, -2 ^ 31 ≤ tag ∧ tag ≤ 2 ^ 31 - 1
  unreserved : ∀ tag ∈ order, tag ∉ [fixTagVersion, fixTagBodyLength, fixTagMessageType,
    fixTagSequenceNumber, fixTagSenderCompid, fixTagSendingTime, fixTagTargetCompid,
    fixTagBodyChecksum]
  plainHeader : Plain message.senderCompId ∧ Plain message.sendingTime ∧
    Plain message.targetCompId
  plainBody : ∀ tag ∈ order, Plain (message.getTagValue tag)

namespace WireMessage

open FixMessage

def wire (sent : WireMessage) : Bytes := sent.message.toString sent.order

def checksum (sent : WireMessage) : Bytes :=
  calculateCheckSum (fieldsText (sent.message.fields sent.order))

/-- The message a receiver gets: the one sent, with body length and checksum as tags. -/
def received (sent : WireMessage) : FixMessage :=
  (sent.message.setTag fixTagBodyLength
    (intText (sent.message.calculateBodyLength sent.order))).setTag fixTagBodyChecksum sent.checksum

theorem getTagValue_of_mem (sent : WireMessage) {tag : Int} (hmem : tag ∈ sent.order) :
    some (sent.message.getTagValue tag) = sent.message.bodyTagValuePairs tag := by
  have hset := (sent.enumerates tag).mp hmem
  obtain ⟨value, hvalue⟩ := Option.isSome_iff_exists.mp hset
  rw [getTagValue, hvalue, Option.getD_some]

theorem absent_of_not_mem (sent : WireMessage) {tag : Int} (hmem : tag ∉ sent.order) :
    sent.message.bodyTagValuePairs tag = none := by
  have hunset : ¬ sent.message.hasTag tag = true := fun h => hmem ((sent.enumerates tag).mpr h)
  exact Option.not_isSome_iff_eq_none.mp hunset

/-- The fields of the wire form set on a message with no tags give the received message;
the sequence number is read as an `int`. -/
theorem initialiseHeader_setTags (sent : WireMessage) (start : FixMessage)
    (fresh : start.bodyTagValuePairs = fun _ => none) :
    (start.setTags (sent.message.fields sent.order ++
        [(fixTagBodyChecksum, sent.checksum)])).initialiseHeader =
      if sent.message.sequenceNumber < 2 ^ 31 then .ok sent.received else .error .outOfRange := by
  have habsent : ∀ tag ∈ [8, 9, 35, 34, 49, 52, 56, 10], tag ∉ sent.order := by
    intro tag hreserved hmem
    exact sent.unreserved tag hmem hreserved
  rw [fields, setTags_append, setTags_append, setTags_order]
  simp only [setTags, List.foldl_cons, List.foldl_nil, setTag, fresh, initialiseHeader, hasTag,
    removeTag, getTagValueAsInt, getTagValue]
  simp [habsent, stoi_natText]
  split
  · rename_i hsmall
    have hsize : toSize (sent.message.sequenceNumber : Int) = sent.message.sequenceNumber := by
      unfold toSize
      omega
    simp [received, setTag, getFixVersionFromString_string, getMessageTypeFromString_string, hsize]
    funext other
    by_cases hmem : other ∈ sent.order
    · have hunreserved := sent.unreserved other hmem
      simp only [fixTagVersion, fixTagBodyLength, fixTagMessageType, fixTagSequenceNumber,
        fixTagSenderCompid, fixTagSendingTime, fixTagTargetCompid, fixTagBodyChecksum,
        List.mem_cons, List.not_mem_nil, or_false, not_or] at hunreserved
      have hvalue := sent.getTagValue_of_mem hmem
      rw [getTagValue] at hvalue
      simp [hmem, hunreserved, hvalue]
    · have habsentBody := sent.absent_of_not_mem hmem
      simp only [hmem, if_false, habsentBody]
      grind
  · rfl

/-- The fields in front of the checksum can be told apart by the separators. -/
theorem fields_plain (sent : WireMessage) {pair : Int × Bytes}
    (hpair : pair ∈ sent.message.fields sent.order) : Plain pair.2 :=
  FixMessage.fields_plain sent.plainHeader sent.plainBody hpair

theorem checksum_plain (sent : WireMessage) : Plain sent.checksum := plain_checkSum _

end WireMessage

end LiteExchange.Fix
