import LiteExchange.Fix.Parser

/-!
# Parsing one message from a buffer

Source: `FixParser::parseFromBuffer`. All fields go into one message, whose header is
read when the buffer ends; a field ends at its delimiter, and what follows the last
delimiter is dropped. `std::stoi` may throw.
-/

namespace LiteExchange.Fix

open Foundation.Ascii FixConstants FixMessage

/-- The local variables of the loop, with the message it fills. -/
structure FieldState where
  tag : Bytes
  value : Bytes
  /-- `target` points to the value, not to the tag. -/
  targetIsValue : Bool
  message : FixMessage

namespace FieldState

/-- The start of the loop, and the state behind each delimiter. -/
def between (message : FixMessage) : FieldState where
  tag := []
  value := []
  targetIsValue := false
  message := message

/-- `(*target).push_back(iter)`. -/
def push (s : FieldState) (iter : UInt8) : FieldState :=
  if s.targetIsValue then { s with value := s.value ++ [iter] } else { s with tag := s.tag ++ [iter] }

def step (s : FieldState) (iter : UInt8) : Except ConversionError FieldState :=
  if iter = fixEquals then .ok { s with targetIsValue := true }
  else if iter = fixDelimiter then do
    let tag ← stoi s.tag
    pure (between (s.message.setTag tag s.value))
  else .ok (s.push iter)

end FieldState

open FieldState

def parseFromBuffer (message : FixMessage) (input : Bytes) : Except ConversionError FixMessage := do
  let s ← input.foldlM FieldState.step (between message)
  s.message.initialiseHeader

/-! ## What the loop does with one field -/

theorem step_push {iter : UInt8} (s : FieldState) (plain : Plain [iter]) :
    s.step iter = .ok (s.push iter) := by
  have hequals : iter ≠ fixEquals := fun h => plain.1 (by simp [h])
  have hdelimiter : iter ≠ fixDelimiter := fun h => plain.2 (by simp [h])
  rw [FieldState.step, if_neg hequals, if_neg hdelimiter]

/-- A text without separators is appended to the target. -/
theorem foldlM_step_plain {text : Bytes} (rest : Bytes) (s : FieldState) (plain : Plain text) :
    (text ++ rest).foldlM FieldState.step s = rest.foldlM FieldState.step (text.foldl push s) := by
  induction text generalizing s with
  | nil => rfl
  | cons b text ih =>
    obtain ⟨hequals, hdelimiter⟩ := plain
    rw [List.mem_cons, not_or] at hequals hdelimiter
    have hb : Plain [b] := by simpa [Plain] using And.intro hequals.1 hdelimiter.1
    rw [List.cons_append, List.foldlM_cons, step_push s hb]
    exact ih (s.push b) ⟨hequals.2, hdelimiter.2⟩

theorem foldl_push {s : FieldState} (text : Bytes) :
    text.foldl push s =
      if s.targetIsValue then { s with value := s.value ++ text }
      else { s with tag := s.tag ++ text } := by
  induction text generalizing s with
  | nil => simp
  | cons b text ih =>
    rw [List.foldl_cons, ih]
    cases htarget : s.targetIsValue with
    | false => simp [push, htarget]
    | true => simp [push, htarget]

/-- A whole field sets its tag. -/
theorem foldlM_step_field {tag : Int} {value : Bytes} (rest : Bytes) (message : FixMessage)
    (inRange : -2 ^ 31 ≤ tag ∧ tag ≤ 2 ^ 31 - 1) (plain : Plain value) :
    (appendTagStringValue tag value ++ rest).foldlM FieldState.step (between message) =
      rest.foldlM FieldState.step (between (message.setTag tag value)) := by
  have hwhole : appendTagStringValue tag value ++ rest =
      intText tag ++ ([fixEquals] ++ (value ++ ([fixDelimiter] ++ rest))) := by
    simp [appendTagStringValue]
  have hread : stoi (intText tag) = .ok tag := parseInteger_intText inRange.1 inRange.2
  have hdelimiter : fixDelimiter ≠ fixEquals := by decide
  rw [hwhole, foldlM_step_plain _ _ (plain_intText tag), foldl_push]
  simp only [between, Bool.false_eq_true, if_false, List.nil_append]
  rw [List.cons_append, List.nil_append, List.foldlM_cons, FieldState.step, if_pos rfl]
  simp only [bind, Except.bind]
  rw [foldlM_step_plain _ _ plain, foldl_push]
  simp only [if_true, List.nil_append]
  rw [List.cons_append, List.nil_append, List.foldlM_cons, FieldState.step, if_neg hdelimiter,
    if_pos rfl, hread]
  rfl

/-- The fields set their tags one after the other. -/
theorem foldlM_step_fields (pairs : List (Int × Bytes)) (message : FixMessage)
    (inRange : ∀ pair ∈ pairs, -2 ^ 31 ≤ pair.1 ∧ pair.1 ≤ 2 ^ 31 - 1)
    (plain : ∀ pair ∈ pairs, Plain pair.2) :
    (fieldsText pairs).foldlM FieldState.step (between message) =
      .ok (between (message.setTags pairs)) := by
  induction pairs generalizing message with
  | nil => rfl
  | cons pair pairs ih =>
    have hrest := ih (message.setTag pair.1 pair.2)
      (fun other hother => inRange other (List.mem_cons_of_mem pair hother))
      (fun other hother => plain other (List.mem_cons_of_mem pair hother))
    have hwhole : fieldsText (pair :: pairs) =
        appendTagStringValue pair.1 pair.2 ++ fieldsText pairs := by
      simp [fieldsText]
    rw [hwhole, foldlM_step_field _ _ (inRange pair List.mem_cons_self)
      (plain pair List.mem_cons_self), hrest]
    rfl

/-! ## Decoding what was encoded -/

/-- A whole message is read back, unless its sequence number is no `int`. -/
theorem parseFromBuffer_wire (sent : WireMessage) (indeterminate : MessageType) :
    parseFromBuffer (construct indeterminate) sent.wire =
      if sent.message.sequenceNumber < 2 ^ 31 then .ok sent.received else .error .outOfRange := by
  have hwire : sent.wire =
      fieldsText (sent.message.fields sent.order ++ [(fixTagBodyChecksum, sent.checksum)]) := by
    simp [wire_eq, fieldsText]
  have hfields := foldlM_step_fields
    (sent.message.fields sent.order ++ [(fixTagBodyChecksum, sent.checksum)])
    (construct indeterminate)
    (by
      intro pair hpair
      cases List.mem_append.mp hpair with
      | inl hfront => exact (fields_tags sent hfront).1
      | inr hlast =>
        rw [List.mem_singleton.mp hlast]
        exact ⟨by simp, by simp⟩)
    (by
      intro pair hpair
      cases List.mem_append.mp hpair with
      | inl hfront => exact sent.fields_plain hfront
      | inr hlast =>
        rw [List.mem_singleton.mp hlast]
        exact sent.checksum_plain)
  rw [parseFromBuffer, hwire, hfields]
  exact sent.initialiseHeader_setTags (construct indeterminate) rfl

/-- Decoding undoes encoding: only the body length and the checksum are new in the tag map. -/
theorem parseFromBuffer_toString (sent : WireMessage) (indeterminate : MessageType)
    (number : sent.message.sequenceNumber < 2 ^ 31) :
    ∃ decoded, parseFromBuffer (construct indeterminate) (sent.message.toString sent.order) =
        .ok decoded ∧
      decoded.fixVersion = sent.message.fixVersion ∧
      decoded.messageType = sent.message.messageType ∧
      decoded.sequenceNumber = sent.message.sequenceNumber ∧
      decoded.senderCompId = sent.message.senderCompId ∧
      decoded.targetCompId = sent.message.targetCompId ∧
      decoded.sendingTime = sent.message.sendingTime ∧
      ∀ tag, decoded.bodyTagValuePairs tag =
        if tag = fixTagBodyLength then
          some (intText (sent.message.calculateBodyLength sent.order))
        else if tag = fixTagBodyChecksum then some sent.checksum
        else sent.message.bodyTagValuePairs tag := by
  have hwire := parseFromBuffer_wire sent indeterminate
  rw [if_pos number] at hwire
  refine ⟨sent.received, hwire, rfl, rfl, rfl, rfl, rfl, rfl, fun tag => ?_⟩
  simp only [WireMessage.received, setTag]
  by_cases hlength : tag = fixTagBodyLength
  · have hnot : fixTagBodyLength ≠ fixTagBodyChecksum := by decide
    simp only [hlength, hnot, if_true, if_false]
  · simp only [hlength, if_false]

/-- A business reject whose text is empty. -/
def emptyReject : WireMessage where
  message :=
    { fixVersion := .fix50sp2
      sequenceNumber := 2 ^ 31 - 1
      messageType := .businessReject
      senderCompId := []
      targetCompId := ascii "CLIENT1"
      sendingTime := []
      bodyTagValuePairs := fun tag => if tag = fixTagFreeText then some [] else none }
  order := [fixTagFreeText]
  nodup := by decide
  enumerates := by
    intro tag
    by_cases htag : tag = fixTagFreeText
    · simp [htag, hasTag]
    · have hother : ¬ tag = 58 := htag
      simp [hasTag, hother]
  inRange := by decide
  unreserved := by decide
  plainHeader := by
    unfold Plain
    decide
  plainBody := by
    unfold Plain
    decide

theorem parseFromBuffer_emptyReject :
    ∃ decoded, parseFromBuffer (construct .none) (emptyReject.message.toString emptyReject.order) =
        .ok decoded ∧ decoded.sequenceNumber = 2 ^ 31 - 1 ∧
      decoded.bodyTagValuePairs fixTagFreeText = some [] := by
  obtain ⟨decoded, hparse, _, _, hnumber, _, _, _, htags⟩ :=
    parseFromBuffer_toString emptyReject .none (by decide)
  exact ⟨decoded, hparse, hnumber, htags fixTagFreeText⟩

end LiteExchange.Fix
