import LiteExchange.Fix.Session

/-!
# The FIX server reactor

Source: fix_server_reactor.cpp and the peer table of tcp_server.cpp. Sessions and peers
stand in slots, each table with its flags; a new connection takes the first slot without
a flag, and the session of a slot stays there until the slot is taken again. The pointer
to a session is its slot. `stoi` throws on a tag of a LOGON that is not a number, `new` where
there is not enough memory, and `onClientDisconnected` of a slot without a session goes through
a null pointer.
-/

namespace LiteExchange.Fix

open Foundation.Ascii FixConstants

structure FixServerReactor where
  compId : Bytes
  sequenceNumberValidation : Bool
  peerSockets : List Nat := []
  peerSocketsConnectionFlags : List Bool := []
  sessions : List FixSession := []
  sessionFlags : List Bool := []
  sequenceStore : FixSequenceStore := fun _ => none
  acceptedConnections : Nat := 0

/-- What leaves the reactor thread: an exception, or a null pointer. -/
inductive Fault where
  | conversion (error : ConversionError)
  | badAlloc
  | nullSession
  deriving DecidableEq, Repr

/-- The first slot that is not in use; none where all are. -/
def freeSlot (flags : List Bool) : Option Nat := flags.findIdx? fun flag => flag == false

namespace FixServerReactor

/-- The slot that the new connection takes, and the table with it. -/
def addPeer (reactor : FixServerReactor) (peer : Nat) : FixServerReactor × Nat :=
  match freeSlot reactor.peerSocketsConnectionFlags with
  | none =>
    ({ reactor with
      peerSockets := reactor.peerSockets ++ [peer]
      peerSocketsConnectionFlags := reactor.peerSocketsConnectionFlags ++ [true] },
      reactor.peerSockets.length)
  | some slot =>
    ({ reactor with
      peerSockets := reactor.peerSockets.set slot peer
      peerSocketsConnectionFlags := reactor.peerSocketsConnectionFlags.set slot true }, slot)

def removePeer (reactor : FixServerReactor) (peerIndex : Nat) : FixServerReactor :=
  { reactor with
    peerSocketsConnectionFlags := reactor.peerSocketsConnectionFlags.set peerIndex false }

def addSession (reactor : FixServerReactor) (newSession : FixSession) : FixServerReactor :=
  match freeSlot reactor.sessionFlags with
  | none =>
    { reactor with
      sessions := reactor.sessions ++ [newSession]
      sessionFlags := reactor.sessionFlags ++ [true] }
  | some slot =>
    { reactor with
      sessions := reactor.sessions.set slot newSession
      sessionFlags := reactor.sessionFlags.set slot true }

def removeSession (reactor : FixServerReactor) (sessionIndex : Nat) : FixServerReactor :=
  { reactor with sessionFlags := reactor.sessionFlags.set sessionIndex false }

def getSession (reactor : FixServerReactor) (index : Nat) : Option FixSession :=
  if reactor.sessionFlags.getD index false = false then none else reactor.sessions[index]?

/-- The object behind the pointer is changed. -/
def setSession (reactor : FixServerReactor) (index : Nat) (session : FixSession) :
    FixServerReactor :=
  { reactor with sessions := reactor.sessions.set index session }

def onClientConnected (reactor : FixServerReactor) (peerIndex : Nat) :
    Except Fault FixServerReactor :=
  let reactor := reactor.addSession {}
  match reactor.getSession peerIndex with
  | some session =>
    .ok (reactor.setSession peerIndex
      { session with tcpConnection := reactor.peerSockets[peerIndex]? })
  | none => .error .nullSession

/-- Connections are numbered as they are accepted. -/
def acceptNewConnection (reactor : FixServerReactor) : Except Fault FixServerReactor :=
  let (added, peerIndex) := { reactor with
    acceptedConnections := reactor.acceptedConnections + 1 }.addPeer reactor.acceptedConnections
  added.onClientConnected peerIndex

def onClientDisconnected (reactor : FixServerReactor) (peerIndex : Nat) :
    Except Fault FixServerReactor :=
  match reactor.getSession peerIndex with
  | some session =>
    let saved := { reactor with
      sequenceStore := session.saveSequenceNumbersToStore reactor.sequenceStore }
    .ok ((saved.removeSession peerIndex).removePeer peerIndex)
  | none => .error .nullSession

/-- The store that `stop` leaves. The session of a slot stays connected when it is removed:
`m_tcpConnection` is never reset. -/
def stop (reactor : FixServerReactor) : FixSequenceStore :=
  reactor.sessions.foldl (fun store session =>
    if session.connected then session.saveSequenceNumbersToStore store else store)
    reactor.sequenceStore

/-- The admin level rejection for a missing tag. -/
def missingTagRejection (reactor : FixServerReactor) (session : FixSession)
    (incomingMessage : FixMessage) (missingTag : Int) : FixMessage :=
  ((((session.getAdminRejectionMessage reactor.compId).setTag fixTagFreeText
    (ascii "Required tag missing")).setTag fixTagRefTag (intText missingTag)).setTag
      fixTagRefMsgType (fixMessageTypeString incomingMessage.messageType)).setTag
        fixTagRejectReason (intText 1)

/-- The reactor after a message, and whether the message goes on to `onFixMessage`. -/
structure Processed where
  reactor : FixServerReactor
  passed : Bool := false

/-- `processMessage` after the validation of the sequence number. -/
def processAccepted (reactor : FixServerReactor) (session : FixSession)
    (incomingMessage : FixMessage) (peerIndex : Nat) (currentUTCDateTime : Bytes) :
    Except Fault Processed :=
  let session := { session with
    incomingSequenceNumber := FixSession.toInt incomingMessage.sequenceNumber
    history := session.history ++ [.accepted incomingMessage] }
  if incomingMessage.isAdminMessage then
    let answered := reactor.setSession peerIndex
      (session.handleAdminMessage reactor.compId incomingMessage currentUTCDateTime)
    if incomingMessage.messageType = .logoff then
      (answered.onClientDisconnected peerIndex).map fun closed => { reactor := closed }
    else .ok { reactor := answered }
  else .ok { reactor := reactor.setSession peerIndex session, passed := true }

/-- `processMessage` after the part about LOGON messages. -/
def processNumbered (reactor : FixServerReactor) (session : FixSession)
    (incomingMessage : FixMessage) (peerIndex : Nat) (currentUTCDateTime : Bytes) :
    Except Fault Processed :=
  if reactor.sequenceNumberValidation && !session.validateSequenceNumber
      (FixSession.toInt incomingMessage.sequenceNumber) then
    ((reactor.setSession peerIndex session).onClientDisconnected peerIndex).map
      fun closed => { reactor := closed }
  else reactor.processAccepted session incomingMessage peerIndex currentUTCDateTime

def processMessage (reactor : FixServerReactor) (incomingMessage : FixMessage)
    (session : FixSession) (peerIndex : Nat) (currentUTCDateTime : Bytes) :
    Except Fault Processed :=
  let (valid, missingTag) := FixSession.validateRequiredTags incomingMessage 0
  if valid = false then
    .ok { reactor := reactor.setSession peerIndex (session.send
      (reactor.missingTagRejection session incomingMessage missingTag) currentUTCDateTime) }
  else if incomingMessage.messageType = .logon then
    if FixSession.validateTargetCompid reactor.compId incomingMessage = false then
      (reactor.onClientDisconnected peerIndex).map fun closed => { reactor := closed }
    else
      match session.handleLogonMessage reactor.compId reactor.sequenceStore incomingMessage
          currentUTCDateTime with
      | .ok session =>
        reactor.processNumbered session incomingMessage peerIndex currentUTCDateTime
      | .error error => .error (.conversion error)
  else reactor.processNumbered session incomingMessage peerIndex currentUTCDateTime

end FixServerReactor

end LiteExchange.Fix
