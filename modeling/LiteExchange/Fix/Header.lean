import LiteExchange.Fix.Message
import LiteExchange.Foundation.Results
import Mathlib.Data.List.Induction

/-!
# What a message takes from its tag map

Source: `FixMessage::initialiseHeader`, which moves six tags to their members one after
the other. Only the sequence number is read as a number, so only it can throw.
-/

namespace LiteExchange.Fix


open Foundation.Ascii FixConstants

namespace FixMessage

/-! ## Tags set one after the other -/

/-- The last of these values of the tag. -/
def lastValue (pairs : List (Int × Bytes)) (tag : Int) : Option Bytes :=
  (pairs.reverse.find? fun pair => pair.1 == tag).map Prod.snd

theorem setTags_concat (message : FixMessage) (pairs : List (Int × Bytes)) (pair : Int × Bytes) :
    message.setTags (pairs ++ [pair]) = (message.setTags pairs).setTag pair.1 pair.2 := by
  rw [setTags_append]
  rfl

theorem setTags_lookup (message : FixMessage) (pairs : List (Int × Bytes)) (tag : Int) :
    (message.setTags pairs).bodyTagValuePairs tag =
      (lastValue pairs tag).or (message.bodyTagValuePairs tag) := by
  induction pairs using List.reverseRecOn with
  | nil => rfl
  | append_singleton pairs pair ih =>
    rw [setTags_concat, setTag, lastValue, List.reverse_concat, List.find?_cons]
    by_cases htag : pair.1 = tag
    · simp [htag]
    · rw [lastValue] at ih
      simpa [Ne.symm htag, beq_eq_false_iff_ne.mpr htag] using ih

/-- Only the tag map changes. -/
theorem setTags_members (message : FixMessage) (pairs : List (Int × Bytes)) :
    message.setTags pairs =
      { message with bodyTagValuePairs := (message.setTags pairs).bodyTagValuePairs } := by
  induction pairs using List.reverseRecOn with
  | nil => rfl
  | append_singleton pairs pair ih => rw [setTags_concat, setTag, ih]

/-! ## The header -/

/-- The sequence number that the header gets: the tag 34 is read as an `int`. -/
def headerNumber (message : FixMessage) : Except ConversionError Nat :=
  match message.bodyTagValuePairs fixTagSequenceNumber with
  | none => .ok message.sequenceNumber
  | some text => (stoi text).map toSize

/-- The tags of `moved` are gone. -/
def without (message : FixMessage) (moved : List Int) : Int → Option Bytes :=
  fun tag => if tag ∈ moved then none else message.bodyTagValuePairs tag

/-- The message whose header tags in `moved` have moved to their members. -/
def moveTags (message : FixMessage) (moved : List Int) (number : Nat) : FixMessage where
  fixVersion := if fixTagVersion ∈ moved then
      (message.bodyTagValuePairs fixTagVersion).elim message.fixVersion getFixVersionFromString
    else message.fixVersion
  sequenceNumber := if fixTagSequenceNumber ∈ moved then number else message.sequenceNumber
  messageType := if fixTagMessageType ∈ moved then
      (message.bodyTagValuePairs fixTagMessageType).elim message.messageType
        getMessageTypeFromString
    else message.messageType
  senderCompId := if fixTagSenderCompid ∈ moved then
      (message.bodyTagValuePairs fixTagSenderCompid).getD message.senderCompId
    else message.senderCompId
  targetCompId := if fixTagTargetCompid ∈ moved then
      (message.bodyTagValuePairs fixTagTargetCompid).getD message.targetCompId
    else message.targetCompId
  sendingTime := if fixTagSendingTime ∈ moved then
      (message.bodyTagValuePairs fixTagSendingTime).getD message.sendingTime
    else message.sendingTime
  bodyTagValuePairs := message.without moved

/-- The header tags, the last one that moves first. -/
def headerTags : List Int := [fixTagTargetCompid, fixTagSenderCompid, fixTagSendingTime,
  fixTagSequenceNumber, fixTagMessageType, fixTagVersion]

theorem without_cons (message : FixMessage) (moved : List Int) (tag : Int) :
    (fun other => if other = tag then none else message.without moved other) =
      message.without (tag :: moved) := by
  funext other
  by_cases hother : other = tag
  · simp [without, hother]
  · simp [without, hother]

/-- A tag that is not there need not be removed. -/
theorem without_absent {message : FixMessage} {tag : Int} (moved : List Int)
    (absent : message.bodyTagValuePairs tag = none) :
    message.without (tag :: moved) = message.without moved := by
  funext other
  by_cases hother : other = tag
  · simp [without, hother, absent]
  · simp [without, hother]

/-- One header tag moves to its member, if it is there. -/
theorem moveTag_eq {start result : FixMessage} {tag : Int} (message : FixMessage)
    (moved : List Int) (assign : Bytes → FixMessage)
    (left : start.bodyTagValuePairs = message.without moved) (new : tag ∉ moved)
    (kept : ∀ value, (assign value).bodyTagValuePairs = start.bodyTagValuePairs)
    (present : ∀ value, message.bodyTagValuePairs tag = some value →
      { assign value with bodyTagValuePairs := message.without (tag :: moved) } = result)
    (absent : message.bodyTagValuePairs tag = none →
      { start with bodyTagValuePairs := message.without (tag :: moved) } = result) :
    (if start.hasTag tag = true then (assign (start.getTagValue tag)).removeTag tag else start) =
      result := by
  have htag : start.bodyTagValuePairs tag = message.bodyTagValuePairs tag := by
    rw [left, without, if_neg new]
  unfold hasTag getTagValue removeTag
  rw [htag]
  cases hvalue : message.bodyTagValuePairs tag with
  | some value =>
    have hpresent := present value hvalue
    simpa only [Option.isSome_some, if_true, Option.getD_some, kept, left, without_cons]
      using hpresent
  | none =>
    have habsent := absent hvalue
    rw [without_absent moved hvalue, ← left] at habsent
    simpa using habsent

section Moves

variable (message : FixMessage) (number : Nat)

theorem move_fixVersion :
    (if message.hasTag fixTagVersion then
      { message with
        fixVersion := getFixVersionFromString (message.getTagValue fixTagVersion) }.removeTag
          fixTagVersion
      else message) = message.moveTags [fixTagVersion] number := by
  apply moveTag_eq message [] fun value =>
    { message with fixVersion := getFixVersionFromString value }
  · funext tag
    simp [without]
  · simp
  · exact fun value => rfl
  · intro value hvalue
    simp [moveTags, show message.bodyTagValuePairs 8 = some value from hvalue]
  · intro hvalue
    simp [moveTags, show message.bodyTagValuePairs 8 = none from hvalue]

theorem move_messageType {moved : FixMessage}
    (hmoved : moved = message.moveTags [fixTagVersion] number) :
    (if moved.hasTag fixTagMessageType then
      { moved with
        messageType := getMessageTypeFromString (moved.getTagValue fixTagMessageType) }.removeTag
          fixTagMessageType
      else moved) = message.moveTags [fixTagMessageType, fixTagVersion] number := by
  apply moveTag_eq message [fixTagVersion] fun value =>
    { moved with messageType := getMessageTypeFromString value }
  · rw [hmoved]
    rfl
  · decide
  · exact fun value => rfl
  · intro value hvalue
    simp [moveTags, show message.bodyTagValuePairs 35 = some value from hvalue, hmoved]
  · intro hvalue
    simp [moveTags, show message.bodyTagValuePairs 35 = none from hvalue, hmoved]

/-- What follows gets the message with its number moved, if that can be read. -/
theorem move_sequenceNumber {moved : FixMessage}
    (hmoved : moved = message.moveTags [fixTagMessageType, fixTagVersion] number)
    (rest : FixMessage → Except ConversionError FixMessage) :
    (if moved.hasTag fixTagSequenceNumber then do
        let value ← moved.getTagValueAsInt fixTagSequenceNumber
        let message ←
          pure ({ moved with sequenceNumber := toSize value }.removeTag fixTagSequenceNumber)
        rest message
      else do
        let message ← pure moved
        rest message) = message.headerNumber.bind fun number => rest
          (message.moveTags [fixTagSequenceNumber, fixTagMessageType, fixTagVersion] number) := by
  have hnumber : moved.bodyTagValuePairs fixTagSequenceNumber =
      message.bodyTagValuePairs fixTagSequenceNumber := by
    rw [hmoved]
    rfl
  unfold headerNumber hasTag getTagValueAsInt getTagValue
  rw [hnumber]
  cases hvalue : message.bodyTagValuePairs fixTagSequenceNumber with
  | none =>
    have hsame : moved = message.moveTags
        [fixTagSequenceNumber, fixTagMessageType, fixTagVersion] message.sequenceNumber := by
      rw [hmoved, moveTags, moveTags, without_absent _ hvalue]
      simp
    rw [hsame]
    rfl
  | some text =>
    simp only [Option.isSome_some, if_true, Option.getD_some, bind, Except.bind]
    cases hread : stoi text with
    | error error => rfl
    | ok value =>
      have hsame : { moved with sequenceNumber := toSize value }.removeTag
          fixTagSequenceNumber = message.moveTags
            [fixTagSequenceNumber, fixTagMessageType, fixTagVersion] (toSize value) := by
        rw [hmoved, removeTag]
        simp only [moveTags, without_cons]
        simp
      simp only [Except.map, pure, Except.pure]
      rw [hsame]

theorem move_sendingTime {moved : FixMessage} (hmoved : moved =
      message.moveTags [fixTagSequenceNumber, fixTagMessageType, fixTagVersion] number) :
    (if moved.hasTag fixTagSendingTime then
      { moved with sendingTime := moved.getTagValue fixTagSendingTime }.removeTag
        fixTagSendingTime
      else moved) = message.moveTags
        [fixTagSendingTime, fixTagSequenceNumber, fixTagMessageType, fixTagVersion] number := by
  apply moveTag_eq message [fixTagSequenceNumber, fixTagMessageType, fixTagVersion] fun value =>
    { moved with sendingTime := value }
  · rw [hmoved]
    rfl
  · decide
  · exact fun value => rfl
  · intro value hvalue
    simp [moveTags, show message.bodyTagValuePairs 52 = some value from hvalue, hmoved]
  · intro hvalue
    simp [moveTags, show message.bodyTagValuePairs 52 = none from hvalue, hmoved]

theorem move_senderCompId {moved : FixMessage} (hmoved : moved = message.moveTags
      [fixTagSendingTime, fixTagSequenceNumber, fixTagMessageType, fixTagVersion] number) :
    (if moved.hasTag fixTagSenderCompid then
      { moved with senderCompId := moved.getTagValue fixTagSenderCompid }.removeTag
        fixTagSenderCompid
      else moved) = message.moveTags [fixTagSenderCompid, fixTagSendingTime,
        fixTagSequenceNumber, fixTagMessageType, fixTagVersion] number := by
  apply moveTag_eq message
    [fixTagSendingTime, fixTagSequenceNumber, fixTagMessageType, fixTagVersion] fun value =>
      { moved with senderCompId := value }
  · rw [hmoved]
    rfl
  · decide
  · exact fun value => rfl
  · intro value hvalue
    simp [moveTags, show message.bodyTagValuePairs 49 = some value from hvalue, hmoved]
  · intro hvalue
    simp [moveTags, show message.bodyTagValuePairs 49 = none from hvalue, hmoved]

theorem move_targetCompId {moved : FixMessage} (hmoved : moved = message.moveTags
      [fixTagSenderCompid, fixTagSendingTime, fixTagSequenceNumber, fixTagMessageType,
        fixTagVersion] number) :
    (if moved.hasTag fixTagTargetCompid then
      { moved with targetCompId := moved.getTagValue fixTagTargetCompid }.removeTag
        fixTagTargetCompid
      else moved) = message.moveTags headerTags number := by
  apply moveTag_eq message [fixTagSenderCompid, fixTagSendingTime, fixTagSequenceNumber,
    fixTagMessageType, fixTagVersion] fun value => { moved with targetCompId := value }
  · rw [hmoved]
    rfl
  · decide
  · exact fun value => rfl
  · intro value hvalue
    simp [moveTags, headerTags, show message.bodyTagValuePairs 56 = some value from hvalue,
      hmoved]
  · intro hvalue
    simp [moveTags, headerTags, show message.bodyTagValuePairs 56 = none from hvalue, hmoved]

end Moves

/-- Each member takes its tag from the body; only the number can fail. -/
theorem initialiseHeader_eq (message : FixMessage) :
    message.initialiseHeader = message.headerNumber.map (message.moveTags headerTags) := by
  unfold initialiseHeader
  extract_lets version messageType rest
  have hversion : version = message.moveTags [fixTagVersion] 0 := message.move_fixVersion 0
  have htype : messageType = message.moveTags [fixTagMessageType, fixTagVersion] 0 :=
    message.move_messageType 0 hversion
  have hrest : ∀ number, rest (message.moveTags
      [fixTagSequenceNumber, fixTagMessageType, fixTagVersion] number) =
        .ok (message.moveTags headerTags number) := by
    intro number
    have htime := message.move_sendingTime number rfl
    have hsender := message.move_senderCompId number htime
    exact congrArg Except.ok (message.move_targetCompId number hsender)
  have hmoved := message.move_sequenceNumber 0 htype rest
  simp only [hrest] at hmoved
  exact hmoved

theorem initialiseHeader_ok {message read : FixMessage} :
    message.initialiseHeader = .ok read ↔
      ∃ number, message.headerNumber = .ok number ∧ message.moveTags headerTags number = read := by
  rw [initialiseHeader_eq]
  exact Foundation.Results.map_eq_ok

end FixMessage

end LiteExchange.Fix
