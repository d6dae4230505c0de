import LiteExchange.Fix.Header
import LiteExchange.Fix.HostileInput
import Mathlib.Data.List.Nodup

/-!
# The fields of a text

A text is read back as its fields: cut at the delimiters, with a tag in front of the first
`=` of each. `toString` writes the header members, the tag map and the checksum one after
the other, so a tag occurs twice exactly when the map holds one that is written without it.
The values of a message that the parser gives contain no separator.
-/

namespace LiteExchange.Fix

open Foundation.Ascii FixConstants FixMessage ParserState

/-- The tags of a text, field by field. -/
def wireTags (wire : Bytes) : List Bytes := (endedFields wire).map fieldTag

def TagsOnce (wire : Bytes) : Prop := (wireTags wire).Nodup

instance (wire : Bytes) : Decidable (TagsOnce wire) := inferInstanceAs (Decidable (List.Nodup _))

/-- The value of the first field with the tag. -/
def wireValue (wire : Bytes) (tag : Int) : Option Bytes :=
  ((endedFields wire).find? fun field => fieldTag field == intText tag).map fieldValue

/-- No text of the message contains a separator. -/
structure FixMessage.IsPlain (message : FixMessage) : Prop where
  senderCompId : Plain message.senderCompId
  sendingTime : Plain message.sendingTime
  targetCompId : Plain message.targetCompId
  body : ∀ tag, Plain (message.getTagValue tag)

/-- The order in which `toString` finds the tags of the map. -/
structure FixMessage.Enumerates (message : FixMessage) (order : List Int) : Prop where
  nodup : order.Nodup
  tags : ∀ tag, tag ∈ order ↔ message.hasTag tag = true

/-- The tags that are written without the map, and the checksum behind it. -/
def reservedTags : List Int := [fixTagVersion, fixTagBodyLength, fixTagMessageType,
  fixTagSequenceNumber, fixTagSenderCompid, fixTagSendingTime, fixTagTargetCompid,
  fixTagBodyChecksum]

/-! ## Reading the fields back -/

instance (text : Bytes) : Decidable (Plain text) := inferInstanceAs (Decidable (_ ∧ _))

theorem plain_nil : Plain [] := ⟨List.not_mem_nil, List.not_mem_nil⟩

theorem plain_fixMessageTypeString (messageType : MessageType) :
    Plain (fixMessageTypeString messageType) := by
  cases messageType with
  | _ => decide

theorem fieldTag_intText (tag : Int) (value : Bytes) :
    fieldTag (intText tag ++ fixEquals :: value) = intText tag :=
  (fieldTag_append value (plain_intText tag).1).1

theorem fieldValue_intText (tag : Int) {value : Bytes} (plain : Plain value) :
    fieldValue (intText tag ++ fixEquals :: value) = value := by
  rw [(fieldTag_append value (plain_intText tag).1).2, List.filter_eq_self]
  intro b hb
  exact bne_iff_ne.mpr fun h => plain.1 (h ▸ hb)

theorem endedFields_fieldsText {pairs : List (Int × Bytes)}
    (plain : ∀ pair ∈ pairs, Plain pair.2) :
    endedFields (fieldsText pairs) =
      pairs.map fun pair => intText pair.1 ++ fixEquals :: pair.2 := by
  induction pairs with
  | nil => rfl
  | cons pair pairs ih =>
    have hpair : fixDelimiter ∉ intText pair.1 ++ fixEquals :: pair.2 := by
      rw [List.mem_append, List.mem_cons, not_or, not_or]
      exact ⟨(plain_intText pair.1).2, by decide, (plain pair List.mem_cons_self).2⟩
    have htext : fieldsText (pair :: pairs) =
        (intText pair.1 ++ fixEquals :: pair.2) ++ fixDelimiter :: fieldsText pairs := by
      simp [fieldsText, appendTagStringValue]
    rw [htext, endedFields_append _ hpair,
      ih fun later hlater => plain later (List.mem_cons_of_mem pair hlater), List.map_cons]

theorem wireTags_fieldsText {pairs : List (Int × Bytes)} (plain : ∀ pair ∈ pairs, Plain pair.2) :
    wireTags (fieldsText pairs) = pairs.map fun pair => intText pair.1 := by
  rw [wireTags, endedFields_fieldsText plain, List.map_map]
  exact List.map_congr_left fun pair _ => fieldTag_intText pair.1 pair.2

theorem wireValue_fieldsText {pairs : List (Int × Bytes)} (plain : ∀ pair ∈ pairs, Plain pair.2)
    (tag : Int) : wireValue (fieldsText pairs) tag =
      (pairs.find? fun pair => pair.1 == tag).map Prod.snd := by
  rw [wireValue, endedFields_fieldsText plain, List.find?_map]
  have hsame : ((fun field => fieldTag field == intText tag) ∘
      fun pair : Int × Bytes => intText pair.1 ++ fixEquals :: pair.2) =
        fun pair => pair.1 == tag := by
    funext pair
    rw [Function.comp_apply, fieldTag_intText, Bool.eq_iff_iff, beq_iff_eq, beq_iff_eq,
      intText_injective.eq_iff]
  rw [hsame, Option.map_map]
  cases hfound : pairs.find? fun pair => pair.1 == tag with
  | none => rfl
  | some pair =>
    exact congrArg some (fieldValue_intText pair.1 (plain pair (List.mem_of_find?_eq_some hfound)))

/-! ## The fields of a message -/

section Message

variable {message : FixMessage} {order : List Int}

/-- What `toString` writes, field by field. -/
def FixMessage.allFields (message : FixMessage) (order : List Int) : List (Int × Bytes) :=
  message.fields order ++
    [(fixTagBodyChecksum, calculateCheckSum (fieldsText (message.fields order)))]

theorem toString_fields (message : FixMessage) (order : List Int) :
    message.toString order = fieldsText (message.allFields order) := by
  simp [FixMessage.toString, allFields, fieldsText]

theorem FixMessage.IsPlain.allFields (plain : message.IsPlain) (order : List Int) :
    ∀ pair ∈ message.allFields order, Plain pair.2 := by
  intro pair hpair
  rcases List.mem_append.mp hpair with hfield | hchecksum
  · exact fields_plain ⟨plain.senderCompId, plain.sendingTime, plain.targetCompId⟩
      (fun tag _ => plain.body tag) hfield
  · rw [List.mem_singleton.mp hchecksum]
    exact plain_checkSum _

/-- Each tag occurs once if and only if the map holds none of the reserved tags. -/
theorem tagsOnce_iff (plain : message.IsPlain) (enumerates : message.Enumerates order) :
    TagsOnce (message.toString order) ↔ ∀ tag ∈ reservedTags, message.hasTag tag = false := by
  have htags : wireTags (message.toString order) =
      (reservedTags.dropLast ++ order ++ [fixTagBodyChecksum]).map intText := by
    rw [toString_fields, wireTags_fieldsText (plain.allFields order)]
    simp [FixMessage.allFields, fields, Function.comp_def, reservedTags]
  have hperm : (reservedTags.dropLast ++ order ++ [fixTagBodyChecksum]).Perm
      (reservedTags ++ order) := by
    have hback : (order ++ [fixTagBodyChecksum]).Perm ([fixTagBodyChecksum] ++ order) :=
      List.perm_append_comm
    have hfront := hback.append_left reservedTags.dropLast
    rw [← List.append_assoc, ← List.append_assoc] at hfront
    exact hfront
  have hreserved : reservedTags.Nodup := by decide
  rw [TagsOnce, htags, List.nodup_map_iff intText_injective, hperm.nodup_iff, List.nodup_append]
  constructor
  · rintro ⟨-, -, hdisjoint⟩ tag htag
    have hnot : tag ∉ order := fun horder => hdisjoint tag htag tag horder rfl
    rw [enumerates.tags, Bool.not_eq_true] at hnot
    exact hnot
  · intro habsent
    refine ⟨hreserved, enumerates.nodup, ?_⟩
    rintro tag htag other horder rfl
    have hpresent := (enumerates.tags tag).mp horder
    rw [habsent tag htag] at hpresent
    cases hpresent

theorem find?_order {order : List Int} {tag : Int} (value : Int → Bytes) (mem : tag ∈ order) :
    (order.map fun tag => (tag, value tag)).find? (fun pair => pair.1 == tag) =
      some (tag, value tag) := by
  induction order with
  | nil => cases mem
  | cons first order ih =>
    rw [List.map_cons, List.find?_cons]
    by_cases hfirst : first = tag
    · simp [hfirst]
    · have hother : ((first, value first).1 == tag) = false := beq_false_of_ne hfirst
      rw [hother]
      exact ih ((List.mem_cons.mp mem).resolve_left (Ne.symm hfirst))

/-- The value that a tag of the map is sent with. -/
theorem wireValue_body (plain : message.IsPlain) (enumerates : message.Enumerates order)
    {tag : Int} (unreserved : tag ∉ reservedTags) (present : message.hasTag tag = true) :
    wireValue (message.toString order) tag = some (message.getTagValue tag) := by
  have hbody := find?_order message.getTagValue ((enumerates.tags tag).mpr present)
  simp only [reservedTags, List.mem_cons, List.not_mem_nil, or_false, not_or] at unreserved
  obtain ⟨hversion, hlength, htype, hnumber, hsender, htime, htarget, -⟩ := unreserved
  rw [toString_fields, wireValue_fieldsText (plain.allFields order), FixMessage.allFields, fields,
    List.find?_append, List.find?_append, hbody]
  simp [-fixTagVersion, -fixTagBodyLength, -fixTagMessageType, -fixTagSequenceNumber,
    -fixTagSenderCompid, -fixTagSendingTime, -fixTagTargetCompid, Ne.symm hversion,
    Ne.symm hlength, Ne.symm htype, Ne.symm hnumber, Ne.symm hsender, Ne.symm htime,
    Ne.symm htarget]

theorem wireValue_messageType (plain : message.IsPlain) :
    wireValue (message.toString order) fixTagMessageType =
      some (fixMessageTypeString message.messageType) := by
  rw [toString_fields, wireValue_fieldsText (plain.allFields order)]
  rfl

end Message

/-! ## What the parser gives -/

/-- No text that the parser holds contains a separator. -/
structure ParserState.HoldsPlain (s : ParserState) : Prop where
  value : Plain s.value
  message : s.message.IsPlain
  messages : ∀ message ∈ s.messages, message.IsPlain

theorem plain_setTag {message : FixMessage} (plain : message.IsPlain) (tag : Int) {value : Bytes}
    (hvalue : Plain value) : (message.setTag tag value).IsPlain := by
  refine ⟨plain.senderCompId, plain.sendingTime, plain.targetCompId, fun other => ?_⟩
  by_cases hother : other = tag
  · simpa [getTagValue, setTag, hother] using hvalue
  · simpa [getTagValue, setTag, hother] using plain.body other

theorem FixMessage.IsPlain.getD {message : FixMessage} (plain : message.IsPlain) (tag : Int)
    {member : Bytes} (hmember : Plain member) :
    Plain ((message.bodyTagValuePairs tag).getD member) := by
  have hbody := plain.body tag
  rw [getTagValue] at hbody
  cases hvalue : message.bodyTagValuePairs tag with
  | none => exact hmember
  | some value =>
    rw [hvalue] at hbody
    exact hbody

theorem plain_moveTags {message : FixMessage} (plain : message.IsPlain) (moved : List Int)
    (number : Nat) : (message.moveTags moved number).IsPlain := by
  have hmember : ∀ tag (member : Bytes), Plain member →
      Plain (if tag ∈ moved then (message.bodyTagValuePairs tag).getD member else member) := by
    intro tag member hplain
    split
    · exact plain.getD tag hplain
    · exact hplain
  refine ⟨hmember _ _ plain.senderCompId, hmember _ _ plain.sendingTime,
    hmember _ _ plain.targetCompId, fun tag => ?_⟩
  simp only [getTagValue, moveTags, without]
  split
  · exact plain_nil
  · exact plain.getD tag plain_nil

theorem plain_initialiseHeader {message read : FixMessage} (plain : message.IsPlain)
    (h : message.initialiseHeader = .ok read) : read.IsPlain := by
  obtain ⟨number, -, rfl⟩ := initialiseHeader_ok.mp h
  exact plain_moveTags plain headerTags number

namespace ParserState

theorem plain_push {s : ParserState} {iter : UInt8} (holds : s.HoldsPlain)
    (text : iter ≠ fixEquals ∧ iter ≠ fixDelimiter) : (s.push iter).HoldsPlain := by
  obtain ⟨⟨hequals, hdelimiter⟩, hmessage, hmessages⟩ := holds
  unfold push
  split
  · refine ⟨⟨?_, ?_⟩, hmessage, hmessages⟩
    · simp only [List.mem_append, List.mem_singleton, not_or]
      exact ⟨hequals, Ne.symm text.1⟩
    · simp only [List.mem_append, List.mem_singleton, not_or]
      exact ⟨hdelimiter, Ne.symm text.2⟩
  · exact ⟨⟨hequals, hdelimiter⟩, hmessage, hmessages⟩

theorem plain_start {s : ParserState} (holds : s.HoldsPlain) : s.start.HoldsPlain := by
  have htext : (56 : UInt8) ≠ fixEquals ∧ (56 : UInt8) ≠ fixDelimiter := by decide
  obtain ⟨hvalue, hmessage, hmessages⟩ := plain_push holds htext
  exact ⟨hvalue, hmessage, hmessages⟩

theorem plain_delimiter {s t : ParserState} {i : Nat} (holds : s.HoldsPlain)
    (done : s.delimiter i = .ok t) : t.HoldsPlain := by
  obtain ⟨tag, -, hdone⟩ := delimiter_cases done
  have hmessage := plain_setTag holds.message tag holds.value
  obtain ⟨-, rfl⟩ | ⟨-, message, hheader, rfl⟩ := hdone
  · exact ⟨plain_nil, hmessage, holds.messages⟩
  · refine ⟨plain_nil, ⟨plain_nil, plain_nil, plain_nil, fun _ => plain_nil⟩, ?_⟩
    intro given hgiven
    rcases List.mem_append.mp hgiven with hbefore | hnew
    · exact holds.messages given hbefore
    · rw [List.mem_singleton.mp hnew]
      exact plain_initialiseHeader hmessage hheader

theorem plain_process {s t : ParserState} {iter : UInt8} {i : Nat} (holds : s.HoldsPlain)
    (done : s.process iter i = .ok t) : t.HoldsPlain := by
  unfold process at done
  split at done
  · cases done
    exact ⟨holds.value, holds.message, holds.messages⟩
  · rename_i hequals
    split at done
    · exact plain_delimiter holds done
    · rename_i hdelimiter
      cases done
      exact plain_push holds ⟨hequals, hdelimiter⟩

end ParserState

theorem plain_parseFrom {past : UInt8} {buffer : Bytes} {i : Nat} {s t : ParserState}
    (holds : s.HoldsPlain) (done : parseFrom past buffer i s = .ok t) : t.HoldsPlain :=
  parseFrom_invariant (fun _ s => s.HoldsPlain) (fun _ _ hbefore => plain_start hbefore)
    (fun _ _ hbefore => ⟨hbefore.value, hbefore.message, hbefore.messages⟩)
    (fun _ _ _ _ hbefore hprocess => plain_process hbefore hprocess) (fun _ _ hbefore => hbefore)
    holds done

/-- No message that a session receives contains a separator in one of its texts. -/
theorem FixReceiveCache.parse_plain {cache next : FixReceiveCache} {indeterminate : MessageType}
    {messages : List FixMessage} (h : cache.parse indeterminate = .ok (next, messages)) :
    ∀ message ∈ messages, message.IsPlain := by
  obtain ⟨s, hparse, rfl, -⟩ := FixReceiveCache.parse_ok h
  have hinitial : (ParserState.initial indeterminate).HoldsPlain :=
    ⟨plain_nil, ⟨plain_nil, plain_nil, plain_nil, fun _ => plain_nil⟩, fun _ => by simp [initial]⟩
  exact (plain_parseFrom hinitial hparse).messages

end LiteExchange.Fix
