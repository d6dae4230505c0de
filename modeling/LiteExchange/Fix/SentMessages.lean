import LiteExchange.Fix.SessionSteps
import LiteExchange.Fix.WireFields

/-!
# What a session sends

Every builder starts from the base message of the session and sets tags. What it builds is
well formed as long as no tag is set that the header or the trailer writes; the admin reject
sets the tag 34, which the header writes as well.
-/

namespace LiteExchange.Fix

open Foundation.Ascii FixConstants FixMessage

/-- No text holds a separator, and the map none of the reserved tags. -/
structure FixMessage.WellBuilt (message : FixMessage) : Prop where
  plain : message.IsPlain
  unreserved : ∀ tag ∈ reservedTags, message.hasTag tag = false

/-- What a reply repeats of the message that it answers. -/
structure FixMessage.Correlates (incoming sent : FixMessage) : Prop where
  rejection : sent.messageType = .adminReject →
    sent.bodyTagValuePairs fixTagRefSeqNum = some (natText incoming.sequenceNumber)
  testRequest : incoming.messageType = .testRequest → sent.messageType = .heartbeat →
    sent.bodyTagValuePairs fixTagTestRequestId = some (incoming.getTagValue fixTagTestRequestId)
  userLogon : sent.messageType = .userResponse →
    sent.bodyTagValuePairs fixTagUserRequestId = some (incoming.getTagValue fixTagUserRequestId)

/-- The same of a text: the fields are read back from it. -/
structure CorrelatedWire (incoming : FixMessage) (wire : Bytes) : Prop where
  rejection : wireValue wire fixTagMessageType = some (fixMessageTypeString .adminReject) →
    wireValue wire fixTagRefSeqNum = some (natText incoming.sequenceNumber)
  testRequest : incoming.messageType = .testRequest →
    wireValue wire fixTagMessageType = some (fixMessageTypeString .heartbeat) →
    wireValue wire fixTagTestRequestId = some (incoming.getTagValue fixTagTestRequestId)
  userLogon : wireValue wire fixTagMessageType = some (fixMessageTypeString .userResponse) →
    wireValue wire fixTagUserRequestId = some (incoming.getTagValue fixTagUserRequestId)

/-! ## Messages with tags that are set -/

section Built

variable {message incoming : FixMessage} {order : List Int}

theorem FixMessage.WellBuilt.setTag (built : message.WellBuilt) {tag : Int} {value : Bytes}
    (unreserved : tag ∉ reservedTags) (plain : Plain value) :
    (message.setTag tag value).WellBuilt := by
  refine ⟨plain_setTag built.plain tag plain, fun other hother => ?_⟩
  have hne : other ≠ tag := fun h => unreserved (h ▸ hother)
  have hbefore := built.unreserved other hother
  simpa [FixMessage.setTag, hasTag, hne] using hbefore

theorem plain_setTags {pairs : List (Int × Bytes)} (plain : message.IsPlain)
    (pairsPlain : ∀ pair ∈ pairs, Plain pair.2) : (message.setTags pairs).IsPlain := by
  induction pairs generalizing message with
  | nil => exact plain
  | cons pair pairs ih =>
    exact ih (plain_setTag plain pair.1 (pairsPlain pair List.mem_cons_self))
      fun later hlater => pairsPlain later (List.mem_cons_of_mem pair hlater)

theorem hasTag_setTags (message : FixMessage) (pairs : List (Int × Bytes)) (tag : Int) :
    (message.setTags pairs).hasTag tag = true ↔
      tag ∈ pairs.map Prod.fst ∨ message.hasTag tag = true := by
  induction pairs generalizing message with
  | nil => simp [FixMessage.setTags]
  | cons pair pairs ih =>
    have hfirst : (message.setTag pair.1 pair.2).hasTag tag = true ↔
        tag = pair.1 ∨ message.hasTag tag = true := by
      by_cases htag : tag = pair.1
      · simp [hasTag, FixMessage.setTag, htag]
      · simp [hasTag, FixMessage.setTag, htag]
    have hrest := ih (message.setTag pair.1 pair.2)
    rw [hfirst] at hrest
    rw [List.map_cons, List.mem_cons, or_assoc, or_left_comm]
    exact hrest

/-- Different tags set on an empty map are its tags. -/
theorem setTags_enumerates {pairs : List (Int × Bytes)}
    (empty : ∀ tag, message.hasTag tag = false) (different : (pairs.map Prod.fst).Nodup) :
    (message.setTags pairs).Enumerates (pairs.map Prod.fst) := by
  refine ⟨different, fun tag => ?_⟩
  rw [hasTag_setTags, empty tag]
  simp

theorem FixMessage.WellBuilt.setTags {pairs : List (Int × Bytes)} (built : message.WellBuilt)
    (pairsBuilt : ∀ pair ∈ pairs, pair.1 ∉ reservedTags ∧ Plain pair.2) :
    (message.setTags pairs).WellBuilt := by
  induction pairs generalizing message with
  | nil => exact built
  | cons pair pairs ih =>
    obtain ⟨hunreserved, hplain⟩ := pairsBuilt pair List.mem_cons_self
    exact ih (built.setTag hunreserved hplain)
      fun later hlater => pairsBuilt later (List.mem_cons_of_mem pair hlater)

theorem fixMessageTypeString_injective : Function.Injective fixMessageTypeString :=
  Function.LeftInverse.injective getMessageTypeFromString_string

/-- A tag of the map is read back from the text. -/
theorem wireValue_tag (built : message.WellBuilt) (enumerates : message.Enumerates order)
    {tag : Int} {value : Bytes} (present : message.bodyTagValuePairs tag = some value) :
    wireValue (message.toString order) tag = some value := by
  have hpresent : message.hasTag tag = true := by rw [hasTag, present]; rfl
  have hunreserved : tag ∉ reservedTags := by
    intro hreserved
    rw [built.unreserved tag hreserved] at hpresent
    cases hpresent
  rw [wireValue_body built.plain enumerates hunreserved hpresent, getTagValue, present,
    Option.getD_some]

theorem correlatedWire (built : message.WellBuilt) (enumerates : message.Enumerates order)
    (correlates : incoming.Correlates message) :
    CorrelatedWire incoming (message.toString order) := by
  have htype : ∀ messageType, wireValue (message.toString order) fixTagMessageType =
      some (fixMessageTypeString messageType) → message.messageType = messageType := by
    intro messageType h
    rw [wireValue_messageType built.plain] at h
    exact fixMessageTypeString_injective (Option.some.inj h)
  constructor
  · intro h
    exact wireValue_tag built enumerates (correlates.rejection (htype _ h))
  · intro hrequest h
    exact wireValue_tag built enumerates (correlates.testRequest hrequest (htype _ h))
  · intro h
    exact wireValue_tag built enumerates (correlates.userLogon (htype _ h))

end Built

namespace FixSession

section Builders

variable {session : FixSession} {compId : Bytes} {message incoming : FixMessage}

theorem wellBuilt_base (session : FixSession) (messageType : MessageType)
    (server : Plain compId) (client : Plain session.targetCompId) :
    (session.getBaseMessage compId messageType).WellBuilt :=
  ⟨⟨server, plain_nil, client, fun _ => plain_nil⟩, fun _ _ => rfl⟩

theorem wellBuilt_logon (server : Plain compId) (client : Plain session.targetCompId) :
    (session.getLogonMessage compId).WellBuilt :=
  ((wellBuilt_base session .logon server client).setTag (by decide) (plain_intText _)).setTag
    (by decide) (plain_intText _)

/-- Every answer to an administrative message repeats what it has to. -/
theorem adminAnswer_formed (server : Plain compId) (client : Plain session.targetCompId)
    (texts : incoming.IsPlain) (h : session.adminAnswer compId incoming = some message) :
    message.WellBuilt ∧ incoming.Correlates message := by
  have hbase := fun messageType => wellBuilt_base session messageType server client
  unfold adminAnswer at h
  split at h
  · rename_i htype
    cases h
    exact ⟨hbase .logoff, nofun, by rw [htype]; nofun, nofun⟩
  · rename_i htype
    cases h
    exact ⟨hbase .heartbeat, nofun, by rw [htype]; nofun, nofun⟩
  · cases h
    exact ⟨(hbase .heartbeat).setTag (by decide) (texts.body _), nofun, fun _ _ => rfl, nofun⟩
  · rename_i htype
    cases h
    exact ⟨((hbase .userResponse).setTag (by decide) (texts.body _)).setTag (by decide)
      (texts.body _), nofun, by rw [htype]; nofun, fun _ => rfl⟩
  · cases h

/-- The tags of the reject for a missing tag. The number is looked up in the reject itself. -/
def rejectionPairs (incoming : FixMessage) (missingTag : Int) : List (Int × Bytes) :=
  [(fixTagSequenceNumber, []), (fixTagRefSeqNum, []),
    (fixTagFreeText, ascii "Required tag missing"), (fixTagRefTag, intText missingTag),
    (fixTagRefMsgType, fixMessageTypeString incoming.messageType),
    (fixTagRejectReason, intText 1)]

theorem missingTagRejection_eq (reactor : FixServerReactor) (session : FixSession)
    (incoming : FixMessage) (missingTag : Int) :
    reactor.missingTagRejection session incoming missingTag =
      (session.getBaseMessage reactor.compId .adminReject).setTags
        (rejectionPairs incoming missingTag) := rfl

theorem rejectionPairs_plain (incoming : FixMessage) (missingTag : Int) :
    ∀ pair ∈ rejectionPairs incoming missingTag, Plain pair.2 := by
  simp only [rejectionPairs, List.forall_mem_cons]
  exact ⟨plain_nil, plain_nil, by decide, plain_intText _,
    plain_fixMessageTypeString _, plain_intText _, nofun⟩

end Builders

/-! ## What the connection gets -/

/-- The message as it is sent, with its number and the time. -/
def stamped (session : FixSession) (message : FixMessage) (currentUTCDateTime : Bytes) :
    FixMessage :=
  let message := { message with
    sequenceNumber := toSize session.outgoingSequenceNumber
    sendingTime := currentUTCDateTime }
  if message.isAdminMessage then message
  else message.setTag fixTagTransactionTime currentUTCDateTime

theorem send_stamped (session : FixSession) (message : FixMessage) (currentUTCDateTime : Bytes) :
    (session.send message currentUTCDateTime).history = session.history ++
      [.sent (session.stamped message currentUTCDateTime)] := rfl

section Stamped

variable {message incoming : FixMessage} {currentUTCDateTime : Bytes}

theorem stamped_messageType (session : FixSession) :
    (session.stamped message currentUTCDateTime).messageType = message.messageType := by
  unfold stamped
  simp only
  split
  · rfl
  · rfl

theorem stamped_lookup (session : FixSession) {tag : Int} (other : tag ≠ fixTagTransactionTime) :
    (session.stamped message currentUTCDateTime).bodyTagValuePairs tag =
      message.bodyTagValuePairs tag := by
  unfold stamped
  simp only
  split
  · rfl
  · simp only [FixMessage.setTag, if_neg other]

/-- An administrative message has no tag added. -/
theorem stamped_enumerates {order : List Int} (session : FixSession)
    (admin : message.isAdminMessage = true) (enumerates : message.Enumerates order) :
    (session.stamped message currentUTCDateTime).Enumerates order := by
  have hadmin : ({ message with
      sequenceNumber := toSize session.outgoingSequenceNumber
      sendingTime := currentUTCDateTime } : FixMessage).isAdminMessage = true := admin
  unfold stamped
  simp only [hadmin, if_true]
  exact ⟨enumerates.nodup, enumerates.tags⟩

theorem stamped_plain (session : FixSession) (plain : message.IsPlain)
    (time : Plain currentUTCDateTime) : (session.stamped message currentUTCDateTime).IsPlain := by
  have htimed : ({ message with
      sequenceNumber := toSize session.outgoingSequenceNumber
      sendingTime := currentUTCDateTime } : FixMessage).IsPlain :=
    ⟨plain.senderCompId, time, plain.targetCompId, plain.body⟩
  unfold stamped
  simp only
  split
  · exact htimed
  · exact plain_setTag htimed _ time

theorem stamped_wellBuilt (session : FixSession) (built : message.WellBuilt)
    (time : Plain currentUTCDateTime) : (session.stamped message currentUTCDateTime).WellBuilt := by
  refine ⟨stamped_plain session built.plain time, fun tag hreserved => ?_⟩
  have hother : tag ≠ fixTagTransactionTime := by
    rintro rfl
    exact absurd hreserved (by decide)
  rw [hasTag, stamped_lookup session hother]
  exact built.unreserved tag hreserved

theorem stamped_correlates (session : FixSession) (correlates : incoming.Correlates message) :
    incoming.Correlates (session.stamped message currentUTCDateTime) := by
  constructor
  · rw [stamped_messageType, stamped_lookup session (by decide)]
    exact correlates.rejection
  · rw [stamped_messageType, stamped_lookup session (by decide)]
    exact correlates.testRequest
  · rw [stamped_messageType, stamped_lookup session (by decide)]
    exact correlates.userLogon

end Stamped

/-! ## The sends of a message's steps -/

section Sends

variable {session : FixSession} {reactor : FixServerReactor} {message incoming : FixMessage}
  {currentUTCDateTime time : Bytes} {taken : List SessionStep} {verdict : Verdict}

theorem send_of_numberedSteps
    (h : session.numberedSteps reactor incoming currentUTCDateTime = (taken, verdict))
    (mem : .send message time ∈ taken) :
    time = currentUTCDateTime ∧ session.adminAnswer reactor.compId incoming = some message := by
  unfold numberedSteps at h
  split at h
  · cases h
    cases mem
  · split at h
    · cases h
      simp only [List.mem_cons, reduceCtorEq, false_or, answerSteps] at mem
      split at mem
      · rename_i answer hanswer
        cases List.mem_singleton.mp mem
        exact ⟨rfl, hanswer⟩
      · cases mem
    · cases h
      simp at mem

/-- A valid message makes its session send the answer to a LOGON or to an administrative
message; the session is still logged on as before, or as the sender. -/
theorem send_of_steps (valid : (validateRequiredTags incoming 0).1 = true)
    (h : session.steps reactor incoming currentUTCDateTime = .ok (taken, verdict))
    (mem : .send message time ∈ taken) :
    time = currentUTCDateTime ∧ ∃ sender : FixSession,
      (sender.targetCompId = session.targetCompId ∨
        sender.targetCompId = incoming.senderCompId) ∧
      (message = sender.getLogonMessage reactor.compId ∨
        sender.adminAnswer reactor.compId incoming = some message) := by
  rcases steps_cases h with ⟨hinvalid, -⟩ | ⟨-, -, -, rfl, -⟩ |
    ⟨-, -, -, heartBeatInterval, encryptionMethod, rest, rfl, hnumbered⟩ | ⟨-, -, hnumbered⟩
  · rw [valid] at hinvalid
    cases hinvalid
  · cases mem
  · rcases List.mem_append.mp mem with hopening | hrest
    · simp only [logonSteps, List.cons_append, List.nil_append, List.mem_cons, reduceCtorEq,
        false_or, SessionStep.send.injEq, List.not_mem_nil, or_false] at hopening
      exact ⟨hopening.2, _, Or.inr rfl, Or.inl hopening.1⟩
    · have hsend := send_of_numberedSteps hnumbered hrest
      exact ⟨hsend.1, _, Or.inr rfl, Or.inr hsend.2⟩
  · have hsend := send_of_numberedSteps hnumbered mem
    exact ⟨hsend.1, session, Or.inl rfl, Or.inr hsend.2⟩

/-- What steps record as sent are the messages of their sends. -/
theorem sent_of_perform (session : FixSession) (steps : List SessionStep) :
    ∃ events, (session.perform steps).history = session.history ++ events ∧
      ∀ sent, .sent sent ∈ events → ∃ front message time back,
        steps = front ++ .send message time :: back ∧
          sent = (session.perform front).stamped message time := by
  induction steps using List.reverseRecOn with
  | nil => exact ⟨[], (List.append_nil _).symm, nofun⟩
  | append_singleton steps step ih =>
    obtain ⟨events, hevents, hsent⟩ := ih
    have hlast : session.perform (steps ++ [step]) = (session.perform steps).performStep step :=
      perform_append session steps [step]
    have hbefore : ∀ sent, .sent sent ∈ events → ∃ front message time back,
        steps ++ [step] = front ++ .send message time :: back ∧
          sent = (session.perform front).stamped message time := by
      intro sent hmem
      obtain ⟨front, message, time, back, rfl, hstamped⟩ := hsent sent hmem
      exact ⟨front, message, time, back ++ [step], by simp, hstamped⟩
    rw [hlast]
    cases step with
    | send message time =>
      refine ⟨events ++ [.sent ((session.perform steps).stamped message time)], ?_,
        fun sent hmem => ?_⟩
      · rw [performStep, send_stamped, hevents, List.append_assoc]
      · rcases List.mem_append.mp hmem with hold | hnew
        · exact hbefore sent hold
        · cases List.mem_singleton.mp hnew
          exact ⟨steps, message, time, [], rfl, rfl⟩
    | logOn store message =>
      refine ⟨events ++ [.loggedOn message], ?_, fun sent hmem => ?_⟩
      · rw [performStep, logOn, restoreSequenceNumbersFromStore, hevents, List.append_assoc]
      · exact hbefore sent (by simpa using hmem)
    | configure heartBeatInterval fixVersion encryptionMethod =>
      exact ⟨events, hevents, hbefore⟩
    | accept message =>
      refine ⟨events ++ [.accepted message], ?_, fun sent hmem => ?_⟩
      · rw [performStep, hevents, List.append_assoc]
      · exact hbefore sent (by simpa using hmem)

end Sends

end FixSession

end LiteExchange.Fix
