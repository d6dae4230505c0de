import LiteExchange.Fix.CacheCompaction
import LiteExchange.Fix.Receive
import LiteExchange.Fix.SocketEffects

/-!
# A readable socket

Source: `FixServerReactor::handleClient` and `checkErrors`, `FixSession::receiveWithCaching`,
`Socket::isConnectionLost` and `getCurrentThreadLastSocketError`, as compiled on Linux. Without
a message `handleClient` asks for the error of the thread, which a receive that does not fail
leaves as it was, and `isConnectionLost` looks at nothing else.
-/

namespace LiteExchange.Fix

open Foundation.Ascii FixConstants

/-- What the connection gives to the receive calls of one event, and the memory to `new` between
them. `error` is the error of the thread behind the calls: one that does not fail leaves the one of
earlier calls. -/
structure Arrival where
  stream : Stream
  returnsFirst : Nat → Int
  returnsSecond : Nat → Int
  allocates : Nat → Bool
  past : UInt8
  indeterminate : MessageType
  error : Int
  currentUTCDateTime : Bytes

/-- The reactor with its sockets, and the receive cache of the session in each slot. -/
structure ReceivingReactor where
  server : SocketServer
  receiveCacheSize : Nat
  receiveCaches : Nat → FixReceiveCache

/-- `FixSession::receiveWithCaching`: the cache it leaves and the messages it appends. -/
def receiveWithCaching (cache : FixReceiveCache) (arrival : Arrival) :
    Except ConversionError (FixReceiveCache × List FixMessage) :=
  let (receivedSize, bytes, _) :=
    arrival.stream.receive cache.getRemainingBufferSize arrival.returnsFirst
  if receivedSize > 0 then
    ((cache.write bytes).incrementSize receivedSize.toNat).parse arrival.indeterminate
  else .ok (cache, [])

namespace ReceivingReactor

def setCache (reactor : ReceivingReactor) (slot : Nat) (cache : FixReceiveCache) :
    ReceivingReactor :=
  { reactor with receiveCaches := Function.update reactor.receiveCaches slot cache }

/-- `checkErrors` of an event without a message. -/
def checkErrors (reactor : ReceivingReactor) (error : Int) (peerIndex : Nat) :
    Except Fault ReceivingReactor :=
  (reactor.server.checkErrors error peerIndex).map fun server => { reactor with server := server }

/-- `processMessage` on the session that stands in the slot. -/
def processMessage (reactor : ReceivingReactor) (peerIndex : Nat) (currentUTCDateTime : Bytes)
    (message : FixMessage) : Except Fault ReceivingReactor :=
  match reactor.server.reactor.sessions[peerIndex]? with
  | some session =>
    (reactor.server.processMessage message session peerIndex currentUTCDateTime).map fun server =>
      { reactor with server := server }
  | none => .error .nullSession

def handleClient (reactor : ReceivingReactor) (peerIndex : Nat) (arrival : Arrival) :
    Except Fault ReceivingReactor :=
  match (reactor.server.reactor.getSession peerIndex).bind FixSession.tcpConnection with
  | none => .ok reactor
  | some _ =>
    if reactor.receiveCacheSize = 0 then
      match receive (FixMessage.construct arrival.indeterminate) arrival.past arrival.stream
          arrival.returnsFirst arrival.returnsSecond arrival.allocates with
      | .error fault => .error fault
      | .ok receipt =>
        if receipt.returned ≤ 0 then reactor.checkErrors arrival.error peerIndex
        else reactor.processMessage peerIndex arrival.currentUTCDateTime receipt.message
    else
      match receiveWithCaching (reactor.receiveCaches peerIndex) arrival with
      | .error error => .error (.conversion error)
      | .ok (cache, messages) =>
        let reactor := reactor.setCache peerIndex cache
        if messages.length = 0 then reactor.checkErrors arrival.error peerIndex
        else messages.foldlM (fun reactor message =>
          reactor.processMessage peerIndex arrival.currentUTCDateTime message) reactor

/-- A live slot with its connection and the object of the connection. -/
structure Serves (reactor : ReceivingReactor) (slot connection : Nat) (socket : Socket) : Prop where
  live : InUse reactor.server.reactor.sessionFlags slot
  linked : reactor.server.Linked slot connection
  object : reactor.server.sockets[connection]? = some socket

/-- A chunk that the receive call got into the cache, without the end of a message. -/
structure GetsPart (reactor : ReceivingReactor) (slot : Nat) (arrival : Arrival) (chunk : Bytes) :
    Prop where
  cached : reactor.receiveCacheSize ≠ 0
  nonempty : chunk ≠ []
  returned : arrival.returnsFirst (reactor.receiveCaches slot).getRemainingBufferSize = chunk.length
  received : chunk <+: arrival.stream
  part : NoEnd false ((reactor.receiveCaches slot).content ++ chunk)

/-- The receive of the event, in the mode of the server, returns 0. -/
def GetsNothing (reactor : ReceivingReactor) (slot : Nat) (arrival : Arrival) : Prop :=
  if reactor.receiveCacheSize = 0 then
    ∃ receipt, receive (FixMessage.construct arrival.indeterminate) arrival.past arrival.stream
      arrival.returnsFirst arrival.returnsSecond arrival.allocates = .ok receipt ∧
        receipt.returned = 0
  else arrival.returnsFirst (reactor.receiveCaches slot).getRemainingBufferSize = 0

/-- The session and its connection are as they were, and the chunk is in the cache. -/
def Keeps (reactor : ReceivingReactor) (slot : Nat) (chunk : Bytes)
    (result : Except Fault ReceivingReactor) : Prop :=
  ∃ next, result = .ok next ∧ next.server = reactor.server ∧
    (next.receiveCaches slot).content = (reactor.receiveCaches slot).content ++ chunk

/-- The session has left its slot, and its connection is closed. -/
def Disconnects (slot connection : Nat) (result : Except Fault ReceivingReactor) : Prop :=
  ∃ next, result = .ok next ∧ next.server.reactor.getSession slot = none ∧
    next.server.sockets[connection]?.map Socket.state = some .disconnected

/-- A partial message keeps the session, and the end of the stream disconnects it. -/
structure DecidesByOutcome (reactor : ReceivingReactor) (slot connection : Nat)
    (arrival : Arrival) : Prop where
  part : ∀ chunk, reactor.GetsPart slot arrival chunk →
    reactor.Keeps slot chunk (reactor.handleClient slot arrival)
  nothing : reactor.GetsNothing slot arrival →
    Disconnects slot connection (reactor.handleClient slot arrival)

/-- `ENETDOWN`, `ENETUNREACH`, `ENETRESET`, `ECONNABORTED` or `ECONNRESET`. -/
def Lost (error : Int) : Prop := 100 ≤ error ∧ error ≤ 104

instance (error : Int) : Decidable (Lost error) := inferInstanceAs (Decidable (_ ∧ _))

section Outcomes

variable {reactor : ReceivingReactor} {slot connection : Nat} {socket : Socket} {arrival : Arrival}
  {chunk : Bytes}

theorem Serves.session (h : reactor.Serves slot connection socket) :
    (reactor.server.reactor.getSession slot).bind FixSession.tcpConnection = some connection := by
  obtain ⟨session, hsession, hconnection⟩ := Option.bind_eq_some_iff.mp h.linked.session
  rw [FixServerReactor.getSession_some.mpr ⟨FixServerReactor.getD_flag.mpr h.live, hsession⟩]
  exact hconnection

/-- Every live slot of a server between two events. -/
theorem serves_of_tracked (h : reactor.server.Tracked)
    (hlive : InUse reactor.server.reactor.sessionFlags slot) :
    ∃ connection socket, reactor.Serves slot connection socket := by
  obtain ⟨hlt, -⟩ := List.getElem?_eq_some_iff.mp hlive
  rw [← h.joined.sessions] at hlt
  obtain ⟨connection, socket, hpeer, huses, hobject⟩ :=
    h.connection_of (List.getElem?_eq_getElem hlt)
  refine ⟨connection, socket, hlive, ⟨hpeer, ?_⟩, hobject⟩
  rw [List.getElem?_eq_getElem hlt]
  exact huses

theorem checkErrors_kept (h : reactor.Serves slot connection socket) {error : Int}
    (kept : ¬ Lost error) : reactor.checkErrors error slot = .ok reactor := by
  have hlost : socket.isConnectionLost error = (socket, false) := if_neg kept
  have hset : reactor.server.sockets.set connection socket = reactor.server.sockets := by
    obtain ⟨hlt, rfl⟩ := List.getElem?_eq_some_iff.mp h.object
    exact List.set_getElem_self hlt
  unfold checkErrors SocketServer.checkErrors
  rw [h.session]
  simp only [h.object, hlost, hset]
  rfl

theorem checkErrors_lost (h : reactor.Serves slot connection socket) {error : Int}
    (lost : Lost error) : Disconnects slot connection (reactor.checkErrors error slot) := by
  have hlost : socket.isConnectionLost error = ({ socket with state := .disconnected }, true) :=
    if_pos lost
  obtain ⟨hlt, -⟩ := List.getElem?_eq_some_iff.mp h.object
  obtain ⟨session, hsession, -⟩ := Option.bind_eq_some_iff.mp h.linked.session
  obtain ⟨closed, hclosed⟩ :
      ∃ closed, reactor.server.reactor.onClientDisconnected slot = .ok closed := by
    rw [FixServerReactor.onClientDisconnected, FixServerReactor.getSession_some.mpr
      ⟨FixServerReactor.getD_flag.mpr h.live, hsession⟩]
    exact ⟨_, rfl⟩
  obtain ⟨sockets, hsockets⟩ : ∃ sockets, sockets =
      reactor.server.sockets.set connection { socket with state := .disconnected } := ⟨_, rfl⟩
  have hobject : sockets[connection]? = some { socket with state := .disconnected } := by
    rw [hsockets]
    exact List.getElem?_set_self hlt
  have hmarked : ({ reactor.server with sockets := sockets } : SocketServer).Linked slot
      connection := ⟨h.linked.peer, h.linked.session⟩
  unfold checkErrors SocketServer.checkErrors
  rw [h.session]
  simp only [h.object, hlost, if_true, ← hsockets]
  rw [SocketServer.disconnect_linked hmarked]
  dsimp only
  rw [hclosed]
  refine ⟨_, rfl, ?_, ?_⟩
  · dsimp only
    rw [SocketServer.closeConnection_reactor]
    cases hpresent : closed.getSession slot with
    | none => rfl
    | some present =>
      exact absurd rfl (FixServerReactor.getSession_disconnect hclosed hpresent).1
  · dsimp only
    rw [SocketServer.closeConnection_some hobject, Socket.close_disconnected rfl]
    dsimp only
    rw [List.getElem?_set_self (List.getElem?_eq_some_iff.mp hobject).1]
    rfl

/-- A session that is disconnected is not kept. -/
theorem not_keeps_of_disconnects (h : reactor.Serves slot connection socket)
    {result : Except Fault ReceivingReactor} (disconnects : Disconnects slot connection result) :
    ¬ reactor.Keeps slot chunk result := by
  rintro ⟨next, hnext, hserver, -⟩
  obtain ⟨other, hother, hnone, -⟩ := disconnects
  rw [hnext] at hother
  cases hother
  have hsession := h.session
  rw [← hserver, hnone] at hsession
  cases hsession

/-- An event without a message ends with the check of the error. -/
theorem handleClient_nothing (h : reactor.Serves slot connection socket)
    (nothing : reactor.GetsNothing slot arrival) :
    reactor.handleClient slot arrival = reactor.checkErrors arrival.error slot := by
  unfold handleClient
  rw [h.session]
  unfold GetsNothing at nothing
  split at nothing
  · rename_i hone
    obtain ⟨receipt, hreceive, hzero⟩ := nothing
    rw [if_pos hone, hreceive]
    exact if_pos (le_of_eq hzero)
  · rename_i hcached
    have hreceive : receiveWithCaching (reactor.receiveCaches slot) arrival =
        .ok (reactor.receiveCaches slot, []) := by
      simp only [receiveWithCaching, Stream.receive, nothing]
      exact if_neg (lt_irrefl 0)
    rw [if_neg hcached, hreceive]
    simp only [setCache, List.length_nil, if_true, Function.update_eq_self]

/-- A chunk without the end of a message ends with the check of the error, or with an
exception where a number in the cache is no `int`. -/
theorem handleClient_part (h : reactor.Serves slot connection socket)
    (part : reactor.GetsPart slot arrival chunk) :
    (FieldsReadable none (endedFields ((reactor.receiveCaches slot).content ++ chunk)) →
      ∃ cache, cache.content = (reactor.receiveCaches slot).content ++ chunk ∧
        reactor.handleClient slot arrival =
          (reactor.setCache slot cache).checkErrors arrival.error slot) ∧
    (¬ FieldsReadable none (endedFields ((reactor.receiveCaches slot).content ++ chunk)) →
      ∃ error, reactor.handleClient slot arrival = .error (.conversion error)) := by
  have hbytes : arrival.stream.take chunk.length = chunk :=
    (List.prefix_iff_eq_take.mp part.received).symm
  have hpositive : (0 : Int) < chunk.length :=
    Int.natCast_pos.mpr (List.length_pos_of_ne_nil part.nonempty)
  have hreceive : receiveWithCaching (reactor.receiveCaches slot) arrival =
      (((reactor.receiveCaches slot).write chunk).incrementSize chunk.length).parse
        arrival.indeterminate := by
    simp only [receiveWithCaching, Stream.receive, part.returned, Int.toNat_natCast, hbytes]
    exact if_pos hpositive
  have hcontent := FixReceiveCache.content_write (reactor.receiveCaches slot) chunk
  have hreturns := FixReceiveCache.parse_isOk
    (((reactor.receiveCaches slot).write chunk).incrementSize chunk.length) arrival.indeterminate
  unfold handleClient
  rw [h.session]
  simp only [if_neg part.cached, hreceive]
  rw [← hcontent, ← hreturns]
  cases hparse : (((reactor.receiveCaches slot).write chunk).incrementSize chunk.length).parse
      arrival.indeterminate with
  | error error => exact ⟨fun hok => Bool.noConfusion hok, fun _ => ⟨error, rfl⟩⟩
  | ok result =>
    obtain ⟨cache, messages⟩ := result
    have hnone := part.part
    rw [← hcontent] at hnone
    obtain ⟨rfl, rfl⟩ := FixReceiveCache.parse_noEnd hnone hparse
    exact ⟨fun _ => ⟨_, rfl, rfl⟩, fun hthrows => absurd rfl hthrows⟩

/-- A chunk is kept, and the session with it, if the thread has no error of a lost connection. -/
theorem keeps_iff (h : reactor.Serves slot connection socket)
    (part : reactor.GetsPart slot arrival chunk) :
    reactor.Keeps slot chunk (reactor.handleClient slot arrival) ↔ ¬ Lost arrival.error ∧
      FieldsReadable none (endedFields ((reactor.receiveCaches slot).content ++ chunk)) := by
  obtain ⟨hreads, hthrows⟩ := handleClient_part h part
  by_cases hreadable :
      FieldsReadable none (endedFields ((reactor.receiveCaches slot).content ++ chunk))
  · obtain ⟨cache, hcontent, hevent⟩ := hreads hreadable
    have hserves : (reactor.setCache slot cache).Serves slot connection socket :=
      ⟨h.live, h.linked, h.object⟩
    rw [hevent, and_iff_left hreadable]
    constructor
    · intro hkeeps hlost
      exact not_keeps_of_disconnects h (checkErrors_lost hserves hlost) hkeeps
    · intro hkept
      refine ⟨_, checkErrors_kept hserves hkept, rfl, ?_⟩
      simpa [setCache] using hcontent
  · obtain ⟨error, hevent⟩ := hthrows hreadable
    rw [hevent]
    refine iff_of_false ?_ fun h => hreadable h.2
    rintro ⟨next, hnext, -⟩
    cases hnext

/-- Without bytes the session is disconnected if the thread has the error of a lost connection. -/
theorem disconnects_iff (h : reactor.Serves slot connection socket)
    (nothing : reactor.GetsNothing slot arrival) :
    Disconnects slot connection (reactor.handleClient slot arrival) ↔ Lost arrival.error := by
  rw [handleClient_nothing h nothing]
  constructor
  · intro hdisconnects
    by_contra hkept
    have hkeeps : reactor.Keeps slot [] (reactor.checkErrors arrival.error slot) :=
      ⟨reactor, checkErrors_kept h hkept, rfl, (List.append_nil _).symm⟩
    exact not_keeps_of_disconnects h hdisconnects hkeeps
  · exact checkErrors_lost h

end Outcomes

/-- For every live slot and whatever its receive calls return: the outcome decides if and only if
the error that the thread has been left with happens to agree with it. -/
theorem decidesByOutcome_iff (reactor : ReceivingReactor) (slot connection : Nat) (socket : Socket)
    (arrival : Arrival) (h : reactor.Serves slot connection socket) :
    reactor.DecidesByOutcome slot connection arrival ↔
      (∀ chunk, reactor.GetsPart slot arrival chunk → ¬ Lost arrival.error ∧
        FieldsReadable none (endedFields ((reactor.receiveCaches slot).content ++ chunk))) ∧
      (reactor.GetsNothing slot arrival → Lost arrival.error) := by
  constructor
  · intro decides
    exact ⟨fun chunk part => (keeps_iff h part).mp (decides.part chunk part),
      fun nothing => (disconnects_iff h nothing).mp (decides.nothing nothing)⟩
  · rintro ⟨hpart, hnothing⟩
    exact ⟨fun chunk part => (keeps_iff h part).mpr (hpart chunk part),
      fun nothing => (disconnects_iff h nothing).mpr (hnothing nothing)⟩

/-- The reactor in cached mode, with the session of its first connection. -/
def oneClient : ReceivingReactor where
  server :=
    { reactor :=
        { compId := ascii "SERVER"
          sequenceNumberValidation := true
          peerSockets := [0]
          peerSocketsConnectionFlags := [true]
          sessions := [{ tcpConnection := some 0 }]
          sessionFlags := [true]
          acceptedConnections := 1 }
      sockets := [⟨5, .connected⟩] }
  receiveCacheSize := 1024
  receiveCaches := fun _ => { capacity := 1024, size := 0, buffer := fun _ => 0 }

theorem oneClient_serves : oneClient.Serves 0 0 ⟨5, .connected⟩ := ⟨rfl, ⟨rfl, rfl⟩, rfl⟩

/-- The receive call returns what the client has sent so far. -/
def arrivalOf (sent : Bytes) (error : Int) : Arrival where
  stream := sent
  returnsFirst := fun _ => sent.length
  returnsSecond := fun _ => 0
  allocates := fun _ => true
  past := 0
  indeterminate := .none
  error := error
  currentUTCDateTime := ascii "T"

theorem oneClient_getsPart (error : Int) :
    oneClient.GetsPart 0 (arrivalOf (ascii "8=FIX") error) (ascii "8=FIX") where
  cached := by decide
  nonempty := by decide
  returned := rfl
  received := List.prefix_refl _
  part := noEnd_of_not_mem (by decide)

/-- The first bytes of a message, with an error that is none. -/
theorem decidesByOutcome_iff_noError :
    oneClient.DecidesByOutcome 0 0 (arrivalOf (ascii "8=FIX") 0) ↔
      (∀ chunk, oneClient.GetsPart 0 (arrivalOf (ascii "8=FIX") 0) chunk →
        ¬ Lost (arrivalOf (ascii "8=FIX") 0).error ∧
          FieldsReadable none (endedFields ((oneClient.receiveCaches 0).content ++ chunk))) ∧
      (oneClient.GetsNothing 0 (arrivalOf (ascii "8=FIX") 0) →
        Lost (arrivalOf (ascii "8=FIX") 0).error) :=
  decidesByOutcome_iff oneClient 0 0 ⟨5, .connected⟩ (arrivalOf (ascii "8=FIX") 0) oneClient_serves

/-- With a left-over `ECONNRESET` the first bytes of a message disconnect their session; without
an error the end of the stream does not. -/
theorem outcome_does_not_decide :
    (¬ ∀ (reactor : ReceivingReactor) (slot connection : Nat) (socket : Socket) (arrival : Arrival),
      reactor.Serves slot connection socket → ∀ chunk, reactor.GetsPart slot arrival chunk →
        reactor.Keeps slot chunk (reactor.handleClient slot arrival)) ∧
    ¬ ∀ (reactor : ReceivingReactor) (slot connection : Nat) (socket : Socket) (arrival : Arrival),
      reactor.Serves slot connection socket → reactor.GetsNothing slot arrival →
        Disconnects slot connection (reactor.handleClient slot arrival) := by
  constructor
  · intro h
    have hkeeps := h _ _ _ _ _ oneClient_serves _ (oneClient_getsPart 104)
    exact ((keeps_iff oneClient_serves (oneClient_getsPart 104)).mp hkeeps).1 (by decide)
  · intro h
    have hnothing : oneClient.GetsNothing 0 (arrivalOf [] 0) := rfl
    have hdisconnects := h _ _ _ _ _ oneClient_serves hnothing
    exact absurd ((disconnects_iff oneClient_serves hnothing).mp hdisconnects) (by decide)

end ReceivingReactor

end LiteExchange.Fix
