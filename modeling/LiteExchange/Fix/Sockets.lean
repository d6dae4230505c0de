import LiteExchange.Fix.Lockstep

/-!
# Sockets and their descriptors

Source: socket.cpp, and the calls of `close` in tcp_server.cpp, fix_session.cpp and
fix_server_reactor.cpp, as they are compiled on Linux. A connection is the object that
`accept` made; it is closed by its session, by `removePeer`, and by its destructor when its
slot is taken again. `closes` records the calls of the `close` of the operating system,
with the connection whose descriptor they are for.
-/

namespace LiteExchange.Fix

open Foundation.Ascii Foundation.Runs Foundation.SlotTable FixConstants

/-- `SOCKET_STATE`. -/
inductive SocketState where
  | disconnected | bound | connected | listening | accepted
  deriving DecidableEq, Repr

structure Socket where
  socketDescriptor : Int
  state : SocketState
  deriving DecidableEq, Repr

namespace Socket

/-- The socket after `Socket::close`, and the descriptors that `::close` was called on. -/
def close (socket : Socket) : Socket × List Int :=
  if socket.state ≠ .disconnected then
    ({ socket with state := .disconnected },
      if socket.socketDescriptor > 0 then [socket.socketDescriptor] else [])
  else (socket, [])

def isConnectionLost (socket : Socket) (errorCode : Int) : Socket × Bool :=
  if errorCode ≥ 100 ∧ errorCode ≤ 104 then ({ socket with state := .disconnected }, true)
  else (socket, false)

end Socket

/-- The reactor with the objects of its connections, by their numbers. -/
structure SocketServer where
  reactor : FixServerReactor
  sockets : List Socket := []
  closes : List (Nat × Int) := []

namespace SocketServer

/-- `close` on the object of a connection; also its destructor. -/
def closeConnection (server : SocketServer) (connection : Nat) : SocketServer :=
  match server.sockets[connection]? with
  | some socket =>
    { server with
      sockets := server.sockets.set connection socket.close.1
      closes := server.closes ++ socket.close.2.map fun descriptor => (connection, descriptor) }
  | none => server

/-- `FixSession::close` of the session in a slot. -/
def closeSession (server : SocketServer) (sessionIndex : Nat) : SocketServer :=
  match server.reactor.sessions[sessionIndex]?.bind FixSession.tcpConnection with
  | some connection => server.closeConnection connection
  | none => server

/-- `close` of the connection that `getPeerSocket` returns. -/
def closePeer (server : SocketServer) (peerIndex : Nat) : SocketServer :=
  match server.reactor.getPeerSocket peerIndex with
  | some connection => server.closeConnection connection
  | none => server

/-- `reset` of the slot that `addPeer` takes: the destructor of an earlier object closes it. -/
def resetSlot (server : SocketServer) : SocketServer :=
  match freeSlot server.reactor.peerSocketsConnectionFlags with
  | some slot => server.closePeer slot
  | none => server

/-- `accept` returns no socket for a negative descriptor. -/
def acceptNewConnection (server : SocketServer) (descriptor : Int) : Except Fault SocketServer :=
  if descriptor < 0 then .ok server
  else
    server.reactor.acceptNewConnection.map fun reactor =>
      { server.resetSlot with
        reactor := reactor
        sockets := server.resetSlot.sockets ++ [⟨descriptor, .connected⟩] }

/-- `removeSession` closes the session, then `removePeer` closes the peer. -/
def onClientDisconnected (server : SocketServer) (peerIndex : Nat) : Except Fault SocketServer :=
  (server.reactor.onClientDisconnected peerIndex).map fun reactor =>
    ({ server with reactor := reactor }.closeSession peerIndex).closePeer peerIndex

/-- `processMessage` after the validation of the sequence number. -/
def processAccepted (server : SocketServer) (session : FixSession) (incomingMessage : FixMessage)
    (peerIndex : Nat) (currentUTCDateTime : Bytes) : Except Fault SocketServer :=
  let session := { session with
    incomingSequenceNumber := FixSession.toInt incomingMessage.sequenceNumber
    history := session.history ++ [.accepted incomingMessage] }
  if incomingMessage.isAdminMessage then
    let answered := { server with
      reactor := server.reactor.setSession peerIndex
        (session.handleAdminMessage server.reactor.compId incomingMessage currentUTCDateTime) }
    if incomingMessage.messageType = .logoff then answered.onClientDisconnected peerIndex
    else .ok answered
  else .ok { server with reactor := server.reactor.setSession peerIndex session }

/-- `processMessage` after the part about LOGON messages. -/
def processNumbered (server : SocketServer) (session : FixSession) (incomingMessage : FixMessage)
    (peerIndex : Nat) (currentUTCDateTime : Bytes) : Except Fault SocketServer :=
  if server.reactor.sequenceNumberValidation && !session.validateSequenceNumber
      (FixSession.toInt incomingMessage.sequenceNumber) then
    let written := { server with reactor := server.reactor.setSession peerIndex session }
    (written.closeSession peerIndex).onClientDisconnected peerIndex
  else server.processAccepted session incomingMessage peerIndex currentUTCDateTime

/-- `FixServerReactor::processMessage`, with the sockets it closes. -/
def processMessage (server : SocketServer) (incomingMessage : FixMessage) (session : FixSession)
    (peerIndex : Nat) (currentUTCDateTime : Bytes) : Except Fault SocketServer :=
  let (valid, missingTag) := FixSession.validateRequiredTags incomingMessage 0
  if valid = false then
    .ok { server with
      reactor := server.reactor.setSession peerIndex (session.send
        (server.reactor.missingTagRejection session incomingMessage missingTag)
          currentUTCDateTime) }
  else if incomingMessage.messageType = .logon then
    if FixSession.validateTargetCompid server.reactor.compId incomingMessage = false then
      (server.closeSession peerIndex).onClientDisconnected peerIndex
    else
      match session.handleLogonMessage server.reactor.compId server.reactor.sequenceStore
          incomingMessage currentUTCDateTime with
      | .ok session =>
        server.processNumbered session incomingMessage peerIndex currentUTCDateTime
      | .error error => .error (.conversion error)
  else server.processNumbered session incomingMessage peerIndex currentUTCDateTime

/-- `FixServerReactor::checkErrors`, with the error of the thread. -/
def checkErrors (server : SocketServer) (error : Int) (peerIndex : Nat) :
    Except Fault SocketServer :=
  match (server.reactor.getSession peerIndex).bind FixSession.tcpConnection with
  | none => .ok server
  | some connection =>
    match server.sockets[connection]? with
    | none => .ok server
    | some socket =>
      let (socket, lost) := socket.isConnectionLost error
      let server := { server with sockets := server.sockets.set connection socket }
      if lost then server.onClientDisconnected peerIndex else .ok server

/-- What happens to the server: a connection with the descriptor that the operating system
gives it, a receive that fails with an error, a poll event that is not valid, a message, or
a message that the exchange sends. -/
inductive Label where
  | accept (descriptor : Int)
  | receiveFailed (slot : Nat) (error : Int)
  | invalidEvent (slot : Nat)
  | handle (slot : Nat) (message : FixMessage) (currentUTCDateTime : Bytes)
  | send (slot : Nat) (message : FixMessage) (currentUTCDateTime : Bytes)

def step (server : SocketServer) : Label → Option SocketServer
  | .accept descriptor => (server.acceptNewConnection descriptor).toOption
  | .receiveFailed slot error => (server.checkErrors error slot).toOption
  | .invalidEvent slot => (server.onClientDisconnected slot).toOption
  | .handle slot message currentUTCDateTime =>
    server.reactor.sessions[slot]?.bind fun session =>
      (server.processMessage message session slot currentUTCDateTime).toOption
  | .send slot message currentUTCDateTime =>
    (server.reactor.getSession slot).map fun session =>
      { server with
        reactor := server.reactor.setSession slot (session.send message currentUTCDateTime) }

def initial (compId : Bytes) (sequenceNumberValidation : Bool) (store : FixSequenceStore) :
    SocketServer where
  reactor := FixServerReactor.initial compId sequenceNumberValidation store

end SocketServer

end LiteExchange.Fix
