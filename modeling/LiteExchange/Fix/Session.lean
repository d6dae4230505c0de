import LiteExchange.Fix.Message

/-!
# FIX sessions

Source: fix_session.h, fix_session.cpp and fix_sequence_store.h. The server's own comp
id is a static member there and a parameter here. A message is sent with the time of a
clock. The store keeps a file for each comp id, with the two sequence numbers. A
connection is a number. `history` is not in the source: it records what happened on the
session, and no modelled function reads it. The sequence numbers of a session are `int`s;
going beyond 2^31 - 1 is undefined there, and wraps here as it does on the machine.
-/

namespace LiteExchange.Fix

open Foundation.Ascii FixConstants

/-- A LOGON was handled, a message got past the sequence number validation, or a message
was sent, as it went out. -/
inductive SessionEvent where
  | loggedOn (message : FixMessage)
  | accepted (message : FixMessage)
  | sent (message : FixMessage)

structure FixSession where
  fixVersion : FixVersion := .none
  outgoingSequenceNumber : Int := 1
  incomingSequenceNumber : Int := 1
  heartBeatInterval : Int := 30
  encryptionMethod : Int := fixEncryptionNone
  tcpConnection : Option Nat := none
  targetCompId : Bytes := []
  history : List SessionEvent := []

def FixMessage.isAdminMessage (message : FixMessage) : Bool :=
  message.messageType == .logoff || message.messageType == .logon ||
    message.messageType == .heartbeat || message.messageType == .testRequest ||
    message.messageType == .userLogon || message.messageType == .adminReject

/-- The stored outgoing and incoming sequence number of each comp id. -/
abbrev FixSequenceStore := Bytes → Option (Int × Int)

namespace FixSequenceStore

def loadFromSequenceStore (store : FixSequenceStore) (targetCompId : Bytes) : Int × Int :=
  (store targetCompId).getD (1, 0)

def updateSequenceStore (store : FixSequenceStore) (targetCompId : Bytes)
    (outgoingSequenceNumber incomingSequenceNumber : Int) : FixSequenceStore :=
  fun other => if other = targetCompId then some (outgoingSequenceNumber, incomingSequenceNumber)
    else store other

end FixSequenceStore

namespace FixSession

def connected (session : FixSession) : Bool := session.tcpConnection.isSome

def restoreSequenceNumbersFromStore (session : FixSession) (store : FixSequenceStore) :
    FixSession :=
  let numbers := store.loadFromSequenceStore session.targetCompId
  { session with outgoingSequenceNumber := numbers.1, incomingSequenceNumber := numbers.2 }

def saveSequenceNumbersToStore (session : FixSession) (store : FixSequenceStore) :
    FixSequenceStore :=
  store.updateSequenceStore session.targetCompId session.outgoingSequenceNumber
    session.incomingSequenceNumber

/-! ## Messages of a session -/

/-- Sequence number and sending time are added during sending. -/
def getBaseMessage (session : FixSession) (compId : Bytes) (messageType : MessageType) :
    FixMessage :=
  { FixMessage.construct messageType with
    fixVersion := session.fixVersion
    senderCompId := compId
    targetCompId := session.targetCompId }

def getLogonMessage (session : FixSession) (compId : Bytes) : FixMessage :=
  ((session.getBaseMessage compId .logon).setTag fixTagHearbeatInterval
    (intText session.heartBeatInterval)).setTag fixTagEncryptMethod
      (intText session.encryptionMethod)

/-- The sequence number is looked up in the new message itself: the lookup inserts an
empty tag 34. -/
def getAdminRejectionMessage (session : FixSession) (compId : Bytes) : FixMessage :=
  let message := session.getBaseMessage compId .adminReject
  let looked := message.setTag fixTagSequenceNumber (message.getTagValue fixTagSequenceNumber)
  looked.setTag fixTagRefSeqNum (looked.getTagValue fixTagSequenceNumber)

def getLogoffMessage (session : FixSession) (compId : Bytes) : FixMessage :=
  session.getBaseMessage compId .logoff

def getHeartBeatMessage (session : FixSession) (compId : Bytes) : FixMessage :=
  session.getBaseMessage compId .heartbeat

def getExecutionReportMessage (session : FixSession) (compId : Bytes) : FixMessage :=
  session.getBaseMessage compId .executionReport

def getUserLogonResponseMessage (session : FixSession) (compId : Bytes) : FixMessage :=
  session.getBaseMessage compId .userResponse

/-- The message gets the next number and the time. -/
def send (session : FixSession) (message : FixMessage) (currentUTCDateTime : Bytes) :
    FixSession :=
  let message := { message with
    sequenceNumber := FixMessage.toSize session.outgoingSequenceNumber
    sendingTime := currentUTCDateTime }
  let message := if message.isAdminMessage then message
    else message.setTag fixTagTransactionTime currentUTCDateTime
  { session with
    outgoingSequenceNumber := FixMessage.narrow (session.outgoingSequenceNumber + 1)
    history := session.history ++ [.sent message] }

/-- What is sent has the number of the session, and the type and the other tags of the
message. -/
theorem send_history (session : FixSession) (message : FixMessage) (currentUTCDateTime : Bytes) :
    ∃ sent, (session.send message currentUTCDateTime).history =
        session.history ++ [.sent sent] ∧
      sent.sequenceNumber = FixMessage.toSize session.outgoingSequenceNumber ∧
      sent.messageType = message.messageType ∧
      ∀ tag, tag ≠ fixTagTransactionTime → sent.getTagValue tag = message.getTagValue tag := by
  refine ⟨_, rfl, ?_, ?_, ?_⟩
  · split
    · rfl
    · rfl
  · split
    · rfl
    · rfl
  · intro tag htag
    split
    · rfl
    · simp only [FixMessage.getTagValue, FixMessage.setTag, if_neg htag]

/-- The session with the comp id of the message, and its stored numbers. -/
def logOn (session : FixSession) (store : FixSequenceStore) (message : FixMessage) : FixSession :=
  ({ session with
    targetCompId := message.senderCompId
    history := session.history ++ [.loggedOn message] } :
      FixSession).restoreSequenceNumbersFromStore store

def handleLogonMessage (session : FixSession) (compId : Bytes) (store : FixSequenceStore)
    (message : FixMessage) (currentUTCDateTime : Bytes) : Except ConversionError FixSession := do
  let session := session.logOn store message
  let heartbeatInterval ← message.getTagValueAsInt fixTagHearbeatInterval
  let session := { session with
    heartBeatInterval := heartbeatInterval
    fixVersion := message.fixVersion }
  let encryptionMethod ← message.getTagValueAsInt fixTagEncryptMethod
  let session := { session with encryptionMethod := encryptionMethod }
  pure (session.send (session.getLogonMessage compId) currentUTCDateTime)

/-- The answer to an administrative message, where there is one. -/
def adminAnswer (session : FixSession) (compId : Bytes) (message : FixMessage) :
    Option FixMessage :=
  match message.messageType with
  | .logoff => some (session.getLogoffMessage compId)
  | .heartbeat => some (session.getHeartBeatMessage compId)
  | .testRequest => some ((session.getHeartBeatMessage compId).setTag fixTagTestRequestId
      (message.getTagValue fixTagTestRequestId))
  | .userLogon => some (((session.getUserLogonResponseMessage compId).setTag fixTagUserRequestId
      (message.getTagValue fixTagUserRequestId)).setTag fixTagUsername
        (message.getTagValue fixTagUsername))
  | _ => none

def handleAdminMessage (session : FixSession) (compId : Bytes) (message : FixMessage)
    (currentUTCDateTime : Bytes) : FixSession :=
  match session.adminAnswer compId message with
  | some answer => session.send answer currentUTCDateTime
  | none => session

/-! ## Validation -/

/-- The `size_t` of the message is converted to the `int` parameter. -/
def toInt (value : Nat) : Int := (BitVec.ofNat 32 value).toInt

def validateSequenceNumber (session : FixSession) (incomingSequenceNumber : Int) : Bool :=
  FixMessage.narrow (session.incomingSequenceNumber + 1) == incomingSequenceNumber

def validateTargetCompid (compId : Bytes) (message : FixMessage) : Bool :=
  compare message.targetCompId compId

/-- `verifyTag` on one tag after the other. -/
def verifyTags (message : FixMessage) (tags : List Int) (missingTag : Int) : Bool × Int :=
  match tags.find? fun tag => message.hasTag tag == false with
  | some tag => (false, tag)
  | none => (true, missingTag)

/-- Whether the message is valid, and the missing tag where the check sets one. -/
def validateRequiredTags (message : FixMessage) (missingTag : Int) : Bool × Int :=
  if message.fixVersion = .none then (false, missingTag)
  else if message.hasTag fixTagBodyLength = false then (false, fixTagBodyLength)
  else if message.messageType = .none then (false, missingTag)
  else if message.hasTag fixTagBodyChecksum = false then (false, fixTagBodyChecksum)
  else if message.sequenceNumber = 0 then (false, missingTag)
  else if message.senderCompId.length = 0 then (false, missingTag)
  else if message.targetCompId.length = 0 then (false, missingTag)
  else match message.messageType with
  | .logon => verifyTags message [fixTagHearbeatInterval, fixTagEncryptMethod] missingTag
  | .newOrder =>
    if message.sendingTime.length = 0 then (false, missingTag)
    else verifyTags message [fixTagSymbol, fixTagClientOrderId, fixTagOrderQuantity,
      fixTagOrderPrice, fixTagOrderSide, fixTagOrderType, fixTagTransactionTime] missingTag
  | .cancel =>
    if message.sendingTime.length = 0 then (false, missingTag)
    else verifyTags message [fixTagClientOrderId, fixTagOrigClientOrderId] missingTag
  | _ => (true, missingTag)

/-- The tags that the check lists for the type. -/
def listedTags : MessageType → List Int
  | .logon => [fixTagHearbeatInterval, fixTagEncryptMethod]
  | .newOrder => [fixTagSendingTime, fixTagSymbol, fixTagClientOrderId, fixTagOrderQuantity,
    fixTagOrderPrice, fixTagOrderSide, fixTagOrderType, fixTagTransactionTime]
  | .cancel => [fixTagSendingTime, fixTagClientOrderId, fixTagOrigClientOrderId]
  | _ => []

/-- The listed tags that are looked up in the map. -/
def mappedTags (messageType : MessageType) : List Int :=
  (listedTags messageType).filter (· != fixTagSendingTime)

/-- The checks of a type: the sending time where it is listed, then the tags of the map. -/
def listedChecks (message : FixMessage) (missingTag : Int) : Bool × Int :=
  if fixTagSendingTime ∈ listedTags message.messageType ∧ message.sendingTime = [] then
    (false, missingTag)
  else verifyTags message (mappedTags message.messageType) missingTag

/-- The checks in their order, and what each answers. -/
theorem validateRequiredTags_cases {message : FixMessage} {missingTag : Int} {answer : Bool × Int}
    (h : validateRequiredTags message missingTag = answer) :
    (message.fixVersion = .none ∧ answer = (false, missingTag)) ∨ message.fixVersion ≠ .none ∧
    ((message.hasTag fixTagBodyLength = false ∧ answer = (false, fixTagBodyLength)) ∨
      message.hasTag fixTagBodyLength = true ∧
    ((message.messageType = .none ∧ answer = (false, missingTag)) ∨ message.messageType ≠ .none ∧
    ((message.hasTag fixTagBodyChecksum = false ∧ answer = (false, fixTagBodyChecksum)) ∨
      message.hasTag fixTagBodyChecksum = true ∧
    ((message.sequenceNumber = 0 ∧ answer = (false, missingTag)) ∨ message.sequenceNumber ≠ 0 ∧
    ((message.senderCompId = [] ∧ answer = (false, missingTag)) ∨ message.senderCompId ≠ [] ∧
    ((message.targetCompId = [] ∧ answer = (false, missingTag)) ∨ message.targetCompId ≠ [] ∧
      answer = listedChecks message missingTag)))))) := by
  have hnone : verifyTags message [] missingTag = (true, missingTag) := rfl
  unfold validateRequiredTags at h
  split at h
  · rename_i hversion
    exact Or.inl ⟨hversion, h.symm⟩
  rename_i hversion
  refine Or.inr ⟨hversion, ?_⟩
  split at h
  · rename_i hlength
    exact Or.inl ⟨hlength, h.symm⟩
  rename_i hlength
  refine Or.inr ⟨by simpa using hlength, ?_⟩
  split at h
  · rename_i htype
    exact Or.inl ⟨htype, h.symm⟩
  rename_i htype
  refine Or.inr ⟨htype, ?_⟩
  split at h
  · rename_i hchecksum
    exact Or.inl ⟨hchecksum, h.symm⟩
  rename_i hchecksum
  refine Or.inr ⟨by simpa using hchecksum, ?_⟩
  split at h
  · rename_i hnumber
    exact Or.inl ⟨hnumber, h.symm⟩
  rename_i hnumber
  refine Or.inr ⟨hnumber, ?_⟩
  split at h
  · rename_i hsender
    exact Or.inl ⟨List.length_eq_zero_iff.mp hsender, h.symm⟩
  rename_i hsender
  refine Or.inr ⟨fun hempty => hsender (List.length_eq_zero_iff.mpr hempty), ?_⟩
  split at h
  · rename_i htarget
    exact Or.inl ⟨List.length_eq_zero_iff.mp htarget, h.symm⟩
  rename_i htarget
  refine Or.inr ⟨fun hempty => htarget (List.length_eq_zero_iff.mpr hempty), ?_⟩
  rw [← h, listedChecks]
  cases message.messageType with
  | newOrder => simp [listedTags, mappedTags]
  | cancel => simp [listedTags, mappedTags]
  | logon => simp [listedTags, mappedTags]
  | _ => simp [listedTags, mappedTags, hnone]

theorem verifyTags_cases (message : FixMessage) (tags : List Int) (missingTag : Int) :
    (∃ tag ∈ tags, message.hasTag tag = false ∧
        verifyTags message tags missingTag = (false, tag)) ∨
      (∀ tag ∈ tags, message.hasTag tag = true) ∧
        verifyTags message tags missingTag = (true, missingTag) := by
  unfold verifyTags
  cases hfound : tags.find? fun tag => message.hasTag tag == false with
  | some tag =>
    have habsent := List.find?_some hfound
    exact Or.inl ⟨tag, List.mem_of_find?_eq_some hfound, by simpa using habsent, rfl⟩
  | none =>
    rw [List.find?_eq_none] at hfound
    exact Or.inr ⟨fun tag hmem => by simpa using hfound tag hmem, rfl⟩

/-- Of an accepted message the members that are checked for every type are set. -/
theorem members_of_valid {message : FixMessage} {missingTag : Int}
    (h : (validateRequiredTags message missingTag).1 = true) :
    message.fixVersion ≠ .none ∧ message.messageType ≠ .none ∧ message.senderCompId ≠ [] ∧
      message.targetCompId ≠ [] := by
  generalize hanswer : validateRequiredTags message missingTag = answer at h
  obtain ⟨-, rfl⟩ | ⟨hversion, ⟨-, rfl⟩ | ⟨-, ⟨-, rfl⟩ | ⟨htype, ⟨-, rfl⟩ | ⟨-, ⟨-, rfl⟩ |
    ⟨-, ⟨-, rfl⟩ | ⟨hsender, ⟨-, rfl⟩ | ⟨htarget, -⟩⟩⟩⟩⟩⟩⟩ := validateRequiredTags_cases hanswer
  iterate 7
    · cases h
  exact ⟨hversion, htype, hsender, htarget⟩

/-- A valid message names its sender. -/
theorem senderCompId_of_valid {message : FixMessage} {missingTag : Int}
    (h : (validateRequiredTags message missingTag).1 = true) : message.senderCompId ≠ [] :=
  (members_of_valid h).2.2.1

end FixSession

end LiteExchange.Fix
