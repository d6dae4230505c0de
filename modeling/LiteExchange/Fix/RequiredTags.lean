import LiteExchange.Fix.FileParser
import LiteExchange.Fix.Session

/-!
# Which fields a valid message contains

Source: `FixSession::validateRequiredTags` and its caller, after `FixParser::parseFromBuffer` on
a new message. The header tags are no longer in the tag map then: the check infers from the
members whether they were there. A missing tag 34 leaves the sequence number at its default,
which is not the zero that is looked for, a missing tag 35 leaves what the memory held, and only
the tags that are looked up in the map are reported.
-/

namespace LiteExchange.Fix

open Foundation.Ascii Foundation.Results FixConstants FixMessage FieldState FixSession

/-- The value of the last of the fields that sets the tag. -/
def valueOf (input : Bytes) (tag : Int) : Option Bytes :=
  (lastField (endedFields input) tag).map fieldValue

def Contains (input : Bytes) (tag : Int) : Prop := (valueOf input tag).isSome = true

instance (input : Bytes) (tag : Int) : Decidable (Contains input tag) :=
  inferInstanceAs (Decidable (_ = _))

/-- The type that tag 35 names, if it names one. -/
def namedType (input : Bytes) : MessageType :=
  (valueOf input fixTagMessageType).elim .none getMessageTypeFromString

def requiredTags (input : Bytes) : List Int :=
  [fixTagVersion, fixTagBodyLength, fixTagMessageType, fixTagBodyChecksum, fixTagSequenceNumber,
    fixTagSenderCompid, fixTagTargetCompid] ++ listedTags (namedType input)

/-- The fields of a valid message. -/
structure Complete (input : Bytes) : Prop where
  version : ∃ text, valueOf input fixTagVersion = some text ∧ getFixVersionFromString text ≠ .none
  messageType : ∃ text, valueOf input fixTagMessageType = some text ∧
    getMessageTypeFromString text ≠ .none
  bodyLength : Contains input fixTagBodyLength
  checksum : Contains input fixTagBodyChecksum
  sequenceNumber : Contains input fixTagSequenceNumber
  senderCompId : ∃ text, valueOf input fixTagSenderCompid = some text ∧ text ≠ []
  targetCompId : ∃ text, valueOf input fixTagTargetCompid = some text ∧ text ≠ []
  listed : ∀ tag ∈ listedTags (namedType input), Contains input tag

/-- A tag is there with a value that no valid message has. -/
def Malformed (input : Bytes) : Prop :=
  (∃ text, valueOf input fixTagVersion = some text ∧ getFixVersionFromString text = .none) ∨
    (∃ text, valueOf input fixTagMessageType = some text ∧
      getMessageTypeFromString text = .none) ∨
    (∃ text, valueOf input fixTagSenderCompid = some text ∧ text = []) ∨
    ∃ text, valueOf input fixTagTargetCompid = some text ∧ text = []

/-- The check accepts the complete messages, and where absent tags are the only reason not to
accept one, it reports one of them. The caller starts with the tag 0. -/
structure ChecksExactly (input : Bytes) (parsed : FixMessage) : Prop where
  verdict : (validateRequiredTags parsed 0).1 = true ↔ Complete input
  report : (validateRequiredTags parsed 0).1 = false → ¬ Malformed input →
    (∃ tag ∈ requiredTags input, ¬ Contains input tag) →
      (validateRequiredTags parsed 0).2 ∈ requiredTags input ∧
        ¬ Contains input (validateRequiredTags parsed 0).2

/-- Tag 34 is zero. -/
def NumberZero (input : Bytes) : Prop :=
  ∃ text, valueOf input fixTagSequenceNumber = some text ∧ stoi text = .ok 0

/-- The first check that fails looks a tag up in the map; or all checks of members pass and so
does the one that the number was there, unless a listed tag is missing. -/
def InferredRight (indeterminate : MessageType) (input : Bytes) : Prop :=
  Contains input fixTagVersion ∧
    (¬ Contains input fixTagBodyLength ∨
      ((Contains input fixTagMessageType ∨ indeterminate ≠ .none) ∧
        ¬ Contains input fixTagBodyChecksum) ∨
      (Contains input fixTagMessageType ∧ ¬ NumberZero input ∧
        Contains input fixTagSenderCompid ∧ Contains input fixTagTargetCompid ∧
        (fixTagSendingTime ∈ listedTags (namedType input) →
          ∃ text, valueOf input fixTagSendingTime = some text ∧ text ≠ []) ∧
        (Contains input fixTagSequenceNumber ∨
          ∃ tag ∈ listedTags (namedType input), ¬ Contains input tag)))

/-! ## What the parser leaves of the fields -/

/-- The members and the tag map of a new message that was parsed. -/
structure ParsedFrom (indeterminate : MessageType) (input : Bytes) (parsed : FixMessage) :
    Prop where
  fixVersion : parsed.fixVersion = (valueOf input fixTagVersion).elim .none getFixVersionFromString
  messageType : parsed.messageType =
    (valueOf input fixTagMessageType).elim indeterminate getMessageTypeFromString
  sequenceNumber : parsed.sequenceNumber = 0 ↔ NumberZero input
  senderCompId : parsed.senderCompId = (valueOf input fixTagSenderCompid).getD []
  targetCompId : parsed.targetCompId = (valueOf input fixTagTargetCompid).getD []
  sendingTime : parsed.sendingTime = (valueOf input fixTagSendingTime).getD []
  hasTag : ∀ tag ∉ headerTags, parsed.hasTag tag = true ↔ Contains input tag

/-- The number is zero where tag 34 is, for no other `int` becomes zero as a `size_t`, and the
default is one. -/
theorem headerNumber_zero {message : FixMessage} {number : Nat} {found : Option Bytes}
    (default : message.sequenceNumber = 1)
    (hfound : message.bodyTagValuePairs fixTagSequenceNumber = found)
    (h : message.headerNumber = .ok number) :
    number = 0 ↔ ∃ text, found = some text ∧ stoi text = .ok 0 := by
  rw [headerNumber, hfound] at h
  cases found with
  | none =>
    rw [← Except.ok.inj h, default]
    simp
  | some text =>
    cases hread : stoi text with
    | error e =>
      simp only [hread] at h
      cases h
    | ok value =>
      simp only [hread] at h
      have hrange := stoi_range hread
      have hvalue : number = 0 ↔ value = 0 := by
        rw [← Except.ok.inj h, toSize]
        omega
      simp [hvalue, hread]

theorem parsedFrom {indeterminate : MessageType} {input : Bytes} {parsed : FixMessage}
    (h : parseFromBuffer (construct indeterminate) input = .ok parsed) :
    ParsedFrom indeterminate input parsed := by
  obtain ⟨-, hheader⟩ := parseFromBuffer_accepted h
  have hlookup : ∀ tag, (setFields (construct indeterminate) fieldValue
      (endedFields input)).bodyTagValuePairs tag = valueOf input tag := by
    intro tag
    rw [setFields_lookup]
    exact Option.or_none
  have hmembers := setTags_members (construct indeterminate)
    ((endedFields input).map fun field => (tagNumber field, fieldValue field))
  rw [← setFields] at hmembers
  generalize setFields (construct indeterminate) fieldValue (endedFields input) = message
    at hheader hlookup hmembers
  obtain ⟨number, hnumber, hparsed⟩ := initialiseHeader_ok.mp hheader
  have hdefault : message.sequenceNumber = 1 := by rw [hmembers]; rfl
  have hzero : number = 0 ↔ NumberZero input := headerNumber_zero hdefault (hlookup _) hnumber
  have hversion : message.fixVersion = .none := by rw [hmembers]; rfl
  have htype : message.messageType = indeterminate := by rw [hmembers]; rfl
  have hsender : message.senderCompId = [] := by rw [hmembers]; rfl
  have htarget : message.targetCompId = [] := by rw [hmembers]; rfl
  have htime : message.sendingTime = [] := by rw [hmembers]; rfl
  rw [← hparsed]
  constructor
  · simp [moveTags, headerTags, hlookup, hversion]
  · simp [moveTags, headerTags, hlookup, htype]
  · simpa [moveTags, headerTags] using hzero
  · simp [moveTags, headerTags, hlookup, hsender]
  · simp [moveTags, headerTags, hlookup, htarget]
  · simp [moveTags, headerTags, hlookup, htime]
  · intro tag htag
    simp only [hasTag, moveTags, without, if_neg htag, hlookup, Contains]

/-- The tags that are looked up in the map are none of the header, and no required ones of all
types. -/
theorem mappedTags_outside {messageType : MessageType} {tag : Int}
    (h : tag ∈ mappedTags messageType) :
    tag ∉ headerTags ∧ tag ∉ [fixTagVersion, fixTagBodyLength, fixTagMessageType,
      fixTagBodyChecksum, fixTagSequenceNumber, fixTagSenderCompid, fixTagTargetCompid] := by
  revert tag
  cases messageType with
  | _ => decide

/-! ## Exactness, by the first check that fails -/

section Exactness

variable {input : Bytes} {parsed : FixMessage}

theorem contains_proper {tag : Int} {improper : Bytes → Prop} :
    (∃ text, valueOf input tag = some text ∧ ¬ improper text) ↔
      Contains input tag ∧ ¬ ∃ text, valueOf input tag = some text ∧ improper text := by
  unfold Contains
  cases valueOf input tag with
  | none => simp
  | some text => simp

theorem complete_iff : Complete input ↔
    ¬ Malformed input ∧ ∀ tag ∈ requiredTags input, Contains input tag := by
  unfold Malformed requiredTags
  simp only [not_or, List.cons_append, List.nil_append, List.forall_mem_cons]
  constructor
  · intro hcomplete
    obtain ⟨hversion, hknownVersion⟩ := contains_proper.mp hcomplete.version
    obtain ⟨htype, hknownType⟩ := contains_proper.mp hcomplete.messageType
    obtain ⟨hsender, hnamedSender⟩ := contains_proper.mp hcomplete.senderCompId
    obtain ⟨htarget, hnamedTarget⟩ := contains_proper.mp hcomplete.targetCompId
    exact ⟨⟨hknownVersion, hknownType, hnamedSender, hnamedTarget⟩, hversion,
      hcomplete.bodyLength, htype, hcomplete.checksum, hcomplete.sequenceNumber, hsender, htarget,
      hcomplete.listed⟩
  · rintro ⟨⟨hknownVersion, hknownType, hnamedSender, hnamedTarget⟩, hversion, hlength, htype,
      hchecksum, hnumber, hsender, htarget, hlisted⟩
    exact {
      version := contains_proper.mpr ⟨hversion, hknownVersion⟩
      messageType := contains_proper.mpr ⟨htype, hknownType⟩
      bodyLength := hlength
      checksum := hchecksum
      sequenceNumber := hnumber
      senderCompId := contains_proper.mpr ⟨hsender, hnamedSender⟩
      targetCompId := contains_proper.mpr ⟨htarget, hnamedTarget⟩
      listed := hlisted }

theorem zero_not_required : (0 : Int) ∉ requiredTags input := by
  unfold requiredTags
  cases namedType input with
  | _ => decide

/-- A reject is right where the reported tag is one that is missing. -/
theorem exact_of_rejected (proper : ¬ Malformed input) {tag : Int}
    (h : validateRequiredTags parsed 0 = (false, tag)) :
    ChecksExactly input parsed ↔ tag ∈ requiredTags input ∧ ¬ Contains input tag := by
  constructor
  · intro hexact
    have hincomplete : ¬ Complete input := by
      rw [← hexact.verdict, h]
      exact Bool.false_ne_true
    rw [complete_iff, not_and] at hincomplete
    have hmissing := hincomplete proper
    simp only [not_forall, exists_prop] at hmissing
    have hreport := hexact.report (by rw [h]) proper hmissing
    rwa [h] at hreport
  · rintro ⟨hrequired, habsent⟩
    constructor
    · rw [h, complete_iff]
      exact iff_of_false Bool.false_ne_true fun hall => habsent (hall.2 tag hrequired)
    · rw [h]
      exact fun _ _ _ => ⟨hrequired, habsent⟩

theorem exact_of_accepted (proper : ¬ Malformed input) {tag : Int}
    (h : validateRequiredTags parsed 0 = (true, tag)) :
    ChecksExactly input parsed ↔ ∀ tag ∈ requiredTags input, Contains input tag := by
  have hcomplete : Complete input ↔ ∀ tag ∈ requiredTags input, Contains input tag := by
    rw [complete_iff, and_iff_right proper]
  constructor
  · intro hexact
    rw [← hcomplete, ← hexact.verdict, h]
  · intro hall
    constructor
    · rw [h]
      exact iff_of_true rfl (hcomplete.mpr hall)
    · rw [h]
      intro hrejected
      cases hrejected

/-- A malformed message is rejected, whatever else is missing. -/
theorem exact_of_malformed {indeterminate : MessageType}
    (hparsed : ParsedFrom indeterminate input parsed) (malformed : Malformed input) :
    ChecksExactly input parsed := by
  have hrejected : (validateRequiredTags parsed 0).1 ≠ true := by
    intro hvalid
    obtain ⟨hversion, htype, hsender, htarget⟩ := members_of_valid hvalid
    rw [hparsed.fixVersion] at hversion
    rw [hparsed.messageType] at htype
    rw [hparsed.senderCompId] at hsender
    rw [hparsed.targetCompId] at htarget
    rcases malformed with ⟨text, hvalue, hbad⟩ | ⟨text, hvalue, hbad⟩ | ⟨text, hvalue, hbad⟩ |
      ⟨text, hvalue, hbad⟩
    · exact hversion (by rw [hvalue]; exact hbad)
    · exact htype (by rw [hvalue]; exact hbad)
    · exact hsender (by rw [hvalue]; exact hbad)
    · exact htarget (by rw [hvalue]; exact hbad)
  constructor
  · rw [complete_iff]
    exact iff_of_false hrejected fun h => h.1 malformed
  · intro _ proper
    exact absurd malformed proper

/-- What the members of a message without malformed fields say about its tags. -/
structure Inferred (indeterminate : MessageType) (input : Bytes) (parsed : FixMessage) : Prop where
  fixVersion : parsed.fixVersion = .none ↔ ¬ Contains input fixTagVersion
  senderCompId : parsed.senderCompId = [] ↔ ¬ Contains input fixTagSenderCompid
  targetCompId : parsed.targetCompId = [] ↔ ¬ Contains input fixTagTargetCompid
  known : Contains input fixTagMessageType →
    parsed.messageType = namedType input ∧ parsed.messageType ≠ .none
  unknown : ¬ Contains input fixTagMessageType → parsed.messageType = indeterminate

theorem inferred {indeterminate : MessageType}
    (hparsed : ParsedFrom indeterminate input parsed) (proper : ¬ Malformed input) :
    Inferred indeterminate input parsed := by
  unfold Malformed at proper
  simp only [not_or] at proper
  obtain ⟨hversion, htype, hsender, htarget⟩ := proper
  constructor
  · rw [hparsed.fixVersion, Contains]
    cases hvalue : valueOf input fixTagVersion with
    | none => simp
    | some text => simpa using fun h => hversion ⟨text, hvalue, h⟩
  · rw [hparsed.senderCompId, Contains]
    cases hvalue : valueOf input fixTagSenderCompid with
    | none => simp
    | some text => simpa using fun h => hsender ⟨text, hvalue, h⟩
  · rw [hparsed.targetCompId, Contains]
    cases hvalue : valueOf input fixTagTargetCompid with
    | none => simp
    | some text => simpa using fun h => htarget ⟨text, hvalue, h⟩
  · intro hcontains
    obtain ⟨text, hvalue⟩ := Option.isSome_iff_exists.mp hcontains
    rw [hparsed.messageType, namedType, hvalue]
    exact ⟨rfl, fun h => htype ⟨text, hvalue, h⟩⟩
  · intro habsent
    have hvalue : valueOf input fixTagMessageType = none := by simpa [Contains] using habsent
    rw [hparsed.messageType, hvalue]
    rfl

/-- The checks of the type that the message has, by the fields. -/
theorem listedChecks_cases {indeterminate : MessageType}
    (hparsed : ParsedFrom indeterminate input parsed) {answer : Bool × Int}
    (h : listedChecks parsed 0 = answer) :
    (fixTagSendingTime ∈ listedTags parsed.messageType ∧
        (¬ ∃ text, valueOf input fixTagSendingTime = some text ∧ text ≠ []) ∧
        answer = (false, 0)) ∨
      (fixTagSendingTime ∈ listedTags parsed.messageType →
        ∃ text, valueOf input fixTagSendingTime = some text ∧ text ≠ []) ∧
      ((∃ tag ∈ mappedTags parsed.messageType, ¬ Contains input tag ∧ answer = (false, tag)) ∨
        (∀ tag ∈ listedTags parsed.messageType, Contains input tag) ∧ answer = (true, 0)) := by
  have htime : parsed.sendingTime = [] ↔
      ¬ ∃ text, valueOf input fixTagSendingTime = some text ∧ text ≠ [] := by
    rw [hparsed.sendingTime]
    cases valueOf input fixTagSendingTime with
    | none => simp
    | some text => simp
  have hmapped : ∀ tag ∈ mappedTags parsed.messageType,
      (parsed.hasTag tag = true ↔ Contains input tag) :=
    fun tag hmem => hparsed.hasTag tag (mappedTags_outside hmem).1
  unfold listedChecks at h
  split at h
  · rename_i hempty
    exact Or.inl ⟨hempty.1, htime.mp hempty.2, h.symm⟩
  · rename_i hset
    have htimed : fixTagSendingTime ∈ listedTags parsed.messageType →
        ∃ text, valueOf input fixTagSendingTime = some text ∧ text ≠ [] :=
      fun hlisted => by_contra fun hnone => hset ⟨hlisted, htime.mpr hnone⟩
    refine Or.inr ⟨htimed, ?_⟩
    rcases verifyTags_cases parsed (mappedTags parsed.messageType) 0 with
      ⟨tag, hmem, habsent, hverified⟩ | ⟨hall, hverified⟩
    · refine Or.inl ⟨tag, hmem, ?_, h.symm.trans hverified⟩
      rw [← hmapped tag hmem, habsent]
      exact Bool.false_ne_true
    · refine Or.inr ⟨?_, h.symm.trans hverified⟩
      intro tag hmem
      by_cases hsending : tag = fixTagSendingTime
      · obtain ⟨text, hvalue, -⟩ := htimed (hsending ▸ hmem)
        rw [hsending, Contains, hvalue]
        rfl
      · have hmap : tag ∈ mappedTags parsed.messageType :=
          List.mem_filter.mpr ⟨hmem, bne_iff_ne.mpr hsending⟩
        exact (hmapped tag hmap).mp (hall tag hmap)

/-- Once the members are set, the listed tags decide, with the number behind them. -/
theorem exact_of_members {indeterminate : MessageType}
    (hparsed : ParsedFrom indeterminate input parsed) (proper : ¬ Malformed input)
    (version : Contains input fixTagVersion) (bodyLength : Contains input fixTagBodyLength)
    (checksum : Contains input fixTagBodyChecksum) (senderCompId : Contains input fixTagSenderCompid)
    (targetCompId : Contains input fixTagTargetCompid)
    (hchecked : validateRequiredTags parsed 0 = listedChecks parsed 0) :
    ChecksExactly input parsed ↔ Contains input fixTagMessageType ∧
      (fixTagSendingTime ∈ listedTags (namedType input) →
        ∃ text, valueOf input fixTagSendingTime = some text ∧ text ≠ []) ∧
      (Contains input fixTagSequenceNumber ∨
        ∃ tag ∈ listedTags (namedType input), ¬ Contains input tag) := by
  have hinferred := inferred hparsed proper
  generalize hanswer : listedChecks parsed 0 = answer at hchecked
  by_cases htype : Contains input fixTagMessageType
  · have hcases := listedChecks_cases hparsed hanswer
    rw [(hinferred.known htype).1] at hcases
    rcases hcases with ⟨hlisted, hempty, rfl⟩ |
      ⟨htimed, ⟨tag, hmem, hmissing, rfl⟩ | ⟨hall, rfl⟩⟩
    · rw [exact_of_rejected proper hchecked]
      refine iff_of_false (fun h => zero_not_required h.1) ?_
      exact fun h => hempty (h.2.1 hlisted)
    · have hlisted : tag ∈ listedTags (namedType input) := List.mem_of_mem_filter hmem
      rw [exact_of_rejected proper hchecked]
      exact iff_of_true ⟨List.mem_append_right _ hlisted, hmissing⟩
        ⟨htype, htimed, Or.inr ⟨tag, hlisted, hmissing⟩⟩
    · rw [exact_of_accepted proper hchecked]
      unfold requiredTags
      simp only [List.cons_append, List.nil_append, List.forall_mem_cons]
      constructor
      · rintro ⟨-, -, -, -, hnumber, -⟩
        exact ⟨htype, htimed, Or.inl hnumber⟩
      · rintro ⟨-, -, hnumber | ⟨tag, hmem, hmissing⟩⟩
        · exact ⟨version, bodyLength, htype, checksum, hnumber, senderCompId, targetCompId, hall⟩
        · exact absurd (hall tag hmem) hmissing
  · -- the listed tags are those of the type that the memory held
    refine iff_of_false ?_ fun h => htype h.1
    have hnone : namedType input = .none := by
      have hvalue : valueOf input fixTagMessageType = none := by simpa [Contains] using htype
      rw [namedType, hvalue]
      rfl
    rcases listedChecks_cases hparsed hanswer with ⟨-, -, rfl⟩ |
      ⟨-, ⟨tag, hmem, -, rfl⟩ | ⟨-, rfl⟩⟩
    · rw [exact_of_rejected proper hchecked]
      exact fun h => zero_not_required h.1
    · rw [exact_of_rejected proper hchecked, requiredTags, hnone]
      rintro ⟨hrequired, -⟩
      exact (mappedTags_outside hmem).2 (by simpa [listedTags] using hrequired)
    · rw [exact_of_accepted proper hchecked]
      exact fun hall => htype (hall fixTagMessageType (by simp [requiredTags]))

end Exactness

/-- The check is exact for a message with malformed fields, and for one whose tags it infers
rightly. -/
theorem checksExactly_iff (indeterminate : MessageType) (input : Bytes) (parsed : FixMessage)
    (h : parseFromBuffer (construct indeterminate) input = .ok parsed) :
    ChecksExactly input parsed ↔ Malformed input ∨ InferredRight indeterminate input := by
  have hparsed := parsedFrom h
  by_cases hmalformed : Malformed input
  · exact iff_of_true (exact_of_malformed hparsed hmalformed) (Or.inl hmalformed)
  rw [or_iff_right hmalformed, InferredRight]
  have hinferred := inferred hparsed hmalformed
  have hlength := hparsed.hasTag fixTagBodyLength (by decide)
  have hchecksum := hparsed.hasTag fixTagBodyChecksum (by decide)
  generalize hanswer : validateRequiredTags parsed 0 = answer
  -- a reject that does not say which tag is missing
  have hsilent : answer = (false, 0) → ¬ ChecksExactly input parsed := by
    rintro rfl
    rw [exact_of_rejected hmalformed hanswer]
    exact fun h => zero_not_required h.1
  have hreported : ∀ tag ∈ requiredTags input, ¬ Contains input tag → answer = (false, tag) →
      ChecksExactly input parsed := by
    rintro tag hrequired habsent rfl
    exact (exact_of_rejected hmalformed hanswer).mpr ⟨hrequired, habsent⟩
  obtain ⟨hnone, hreject⟩ | ⟨hset, hrest⟩ := validateRequiredTags_cases hanswer
  · exact iff_of_false (hsilent hreject) fun h => hinferred.fixVersion.mp hnone h.1
  have hversion : Contains input fixTagVersion :=
    by_contra fun hno => hset (hinferred.fixVersion.mpr hno)
  rw [and_iff_right hversion]
  obtain ⟨habsent, hreject⟩ | ⟨hpresent, hrest⟩ := hrest
  · have hbody : ¬ Contains input fixTagBodyLength := by
      rw [← hlength, habsent]
      exact Bool.false_ne_true
    exact iff_of_true (hreported _ (by simp [requiredTags]) hbody hreject) (Or.inl hbody)
  have hbody := hlength.mp hpresent
  rw [or_iff_right (not_not.mpr hbody)]
  obtain ⟨hnone, hreject⟩ | ⟨htype, hrest⟩ := hrest
  · have habsent : ¬ Contains input fixTagMessageType := fun h => (hinferred.known h).2 hnone
    refine iff_of_false (hsilent hreject) ?_
    rintro (⟨hset | hset, -⟩ | ⟨hset, -⟩)
    · exact habsent hset
    · exact hset ((hinferred.unknown habsent).symm.trans hnone)
    · exact habsent hset
  obtain ⟨habsent, hreject⟩ | ⟨hpresent, hrest⟩ := hrest
  · have hsum : ¬ Contains input fixTagBodyChecksum := by
      rw [← hchecksum, habsent]
      exact Bool.false_ne_true
    have hset : Contains input fixTagMessageType ∨ indeterminate ≠ .none := by
      by_contra hneither
      rw [not_or, not_not] at hneither
      exact htype ((hinferred.unknown hneither.1).trans hneither.2)
    exact iff_of_true (hreported _ (by simp [requiredTags]) hsum hreject) (Or.inl ⟨hset, hsum⟩)
  have hsum := hchecksum.mp hpresent
  have hnotSum : ¬ ((Contains input fixTagMessageType ∨ indeterminate ≠ .none) ∧
      ¬ Contains input fixTagBodyChecksum) := fun h => h.2 hsum
  rw [or_iff_right hnotSum]
  obtain ⟨hzero, hreject⟩ | ⟨hnumber, hrest⟩ := hrest
  · exact iff_of_false (hsilent hreject) fun h => h.2.1 (hparsed.sequenceNumber.mp hzero)
  obtain ⟨hempty, hreject⟩ | ⟨hset, hrest⟩ := hrest
  · exact iff_of_false (hsilent hreject) fun h => hinferred.senderCompId.mp hempty h.2.2.1
  have hsender : Contains input fixTagSenderCompid :=
    by_contra fun hno => hset (hinferred.senderCompId.mpr hno)
  obtain ⟨hempty, hreject⟩ | ⟨hset, hlisted⟩ := hrest
  · exact iff_of_false (hsilent hreject) fun h => hinferred.targetCompId.mp hempty h.2.2.2.1
  have htarget : Contains input fixTagTargetCompid :=
    by_contra fun hno => hset (hinferred.targetCompId.mpr hno)
  rw [exact_of_members hparsed hmalformed hversion hbody hsum hsender htarget
    (hanswer.trans hlisted), and_iff_right fun h => hnumber (hparsed.sequenceNumber.mpr h),
    and_iff_right hsender, and_iff_right htarget]

/-- These fields, each with its delimiter. -/
def delimited (fields : List String) : Bytes :=
  fields.flatMap fun field => ascii field ++ [fixDelimiter]

def completeHeartbeat : Bytes :=
  delimited ["8=FIX.4.2", "9=40", "35=0", "34=1", "49=CLIENT1", "56=SERVER", "10=000"]

def unnumberedHeartbeat : Bytes :=
  delimited ["8=FIX.4.2", "9=40", "35=0", "49=CLIENT1", "56=SERVER", "10=000"]

/-- A heartbeat with all required tags. -/
theorem checksExactly_heartbeat : ∃ parsed,
    parseFromBuffer (construct .none) completeHeartbeat = .ok parsed ∧
      ChecksExactly completeHeartbeat parsed := by
  have hok : (parseFromBuffer (construct .none) completeHeartbeat).isOk = true := by
    decide +kernel
  have hone : valueOf completeHeartbeat fixTagSequenceNumber = some [49] := by decide +kernel
  have hnumber : ¬ NumberZero completeHeartbeat := by
    rintro ⟨text, htext, hzero⟩
    rw [hone, Option.some.injEq] at htext
    subst htext
    exact absurd hzero (by decide)
  obtain ⟨parsed, hparsed⟩ := isOk_iff.mp hok
  refine ⟨parsed, hparsed, (checksExactly_iff _ _ _ hparsed).mpr (Or.inr ⟨by decide +kernel,
    Or.inr (Or.inr ⟨by decide +kernel, hnumber, by decide +kernel, by decide +kernel,
      fun hlisted => ?_, Or.inl (by decide +kernel)⟩)⟩)⟩
  exact absurd hlisted (by decide +kernel)

/-- A heartbeat without tag 34 is accepted. -/
theorem not_checksExactly_unnumbered :
    ¬ ∀ (indeterminate : MessageType) (input : Bytes) (parsed : FixMessage),
      parseFromBuffer (construct indeterminate) input = .ok parsed →
        ChecksExactly input parsed := by
  intro h
  have hvalid : (match parseFromBuffer (construct .none) unnumberedHeartbeat with
    | .ok parsed => (validateRequiredTags parsed 0).1
    | .error _ => false) = true := by
    decide +kernel
  split at hvalid
  · rename_i parsed hparsed
    have hcomplete := (h .none unnumberedHeartbeat parsed hparsed).verdict.mp hvalid
    exact absurd hcomplete.sequenceNumber (by decide +kernel)
  · cases hvalid

end LiteExchange.Fix
