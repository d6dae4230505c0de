import LiteExchange.Fix.Sockets

/-!
# What an event does to the connections

A socket closes its descriptor only in another state than `DISCONNECTED`, and then goes to
that state, so no descriptor is closed twice however many layers call `close`. An event leaves
the connections alone, opens one or ends one.
-/

namespace LiteExchange.Fix

open Foundation.Ascii Foundation.Results Foundation.Runs Foundation.SlotTable FixConstants

theorem Socket.close_fst (socket : Socket) :
    socket.close.1 = { socket with state := .disconnected } := by
  unfold Socket.close
  split
  · rfl
  · rename_i hdisconnected
    rw [not_not] at hdisconnected
    rw [← hdisconnected]

theorem Socket.close_disconnected {socket : Socket} (h : socket.state = .disconnected) :
    socket.close = (socket, []) := if_neg (not_not.mpr h)

/-- What a close leaves is closed. -/
theorem Socket.close_close (socket : Socket) : socket.close.1.close = (socket.close.1, []) := by
  unfold Socket.close
  split
  · rfl
  · rfl

namespace SocketServer

variable {server next : SocketServer} {slot connection : Nat}

/-- The calls of `::close` on the descriptor of a connection. -/
def closesOf (server : SocketServer) (connection : Nat) : List Int :=
  (server.closes.filter fun call => call.1 == connection).map Prod.snd

/-- The connection stands in a slot that is in use. -/
def Occupies (server : SocketServer) (slot connection : Nat) : Prop :=
  InUse server.reactor.peerSocketsConnectionFlags slot ∧
    server.reactor.getPeerSocket slot = some connection

/-- The step ends the connection through `isConnectionLost`. -/
def Loses (server : SocketServer) (label : Label) (connection : Nat) : Prop :=
  match label with
  | .receiveFailed slot error => 100 ≤ error ∧ error ≤ 104 ∧ server.Occupies slot connection
  | _ => False

/-! ## One close -/

theorem closesOf_congr (h : next.closes = server.closes) (connection : Nat) :
    next.closesOf connection = server.closesOf connection := by
  unfold closesOf
  rw [h]

theorem closesOf_append {closes : List (Nat × Int)} {descriptors : List Int} (other : Nat)
    (h : next.closes = closes ++ descriptors.map fun descriptor => (connection, descriptor))
    (hserver : server.closes = closes) :
    next.closesOf other =
      server.closesOf other ++ if other = connection then descriptors else [] := by
  unfold closesOf
  rw [h, hserver, List.filter_append, List.map_append]
  congr 1
  by_cases hother : other = connection
  · subst hother
    rw [if_pos rfl, List.filter_eq_self.mpr (by simp), List.map_map]
    exact List.map_id descriptors
  · rw [if_neg hother, List.filter_eq_nil_iff.mpr (by simp [Ne.symm hother])]
    rfl

theorem closeConnection_some {socket : Socket} (h : server.sockets[connection]? = some socket) :
    server.closeConnection connection =
      { server with
        sockets := server.sockets.set connection socket.close.1
        closes := server.closes ++ socket.close.2.map fun descriptor =>
          (connection, descriptor) } := by
  unfold closeConnection
  rw [h]

/-- A second close of a connection does nothing. -/
theorem closeConnection_twice (server : SocketServer) (connection : Nat) :
    (server.closeConnection connection).closeConnection connection =
      server.closeConnection connection := by
  cases hsocket : server.sockets[connection]? with
  | none =>
    have hsame : server.closeConnection connection = server := by
      unfold closeConnection
      rw [hsocket]
    rw [hsame, hsame]
  | some socket =>
    obtain ⟨hlt, -⟩ := List.getElem?_eq_some_iff.mp hsocket
    rw [closeConnection_some hsocket]
    rw [closeConnection_some (List.getElem?_set_self hlt), Socket.close_close]
    simp

@[simp] theorem closeConnection_reactor (server : SocketServer) (connection : Nat) :
    (server.closeConnection connection).reactor = server.reactor := by
  unfold closeConnection
  split
  · rfl
  · rfl

@[simp] theorem closeSession_reactor (server : SocketServer) (sessionIndex : Nat) :
    (server.closeSession sessionIndex).reactor = server.reactor := by
  unfold closeSession
  split
  · exact closeConnection_reactor _ _
  · rfl

@[simp] theorem closePeer_reactor (server : SocketServer) (peerIndex : Nat) :
    (server.closePeer peerIndex).reactor = server.reactor := by
  unfold closePeer
  split
  · exact closeConnection_reactor _ _
  · rfl

theorem disconnect_reactor (hclose : server.onClientDisconnected slot = .ok next) :
    server.reactor.onClientDisconnected slot = .ok next.reactor := by
  obtain ⟨reactor, hreactor, rfl⟩ := map_eq_ok.mp hclose
  rw [closePeer_reactor, closeSession_reactor]
  exact hreactor

theorem closeConnection_with (server : SocketServer) (reactor : FixServerReactor)
    (connection : Nat) :
    { server.closeConnection connection with reactor := reactor } =
      { server with reactor := reactor }.closeConnection connection := by
  unfold closeConnection
  cases server.sockets[connection]? with
  | none => rfl
  | some socket => rfl

/-! ## The end of a connection -/

/-- A slot whose session and peer are one connection. -/
structure Linked (server : SocketServer) (slot connection : Nat) : Prop where
  peer : server.reactor.getPeerSocket slot = some connection
  session : server.reactor.sessions[slot]?.bind FixSession.tcpConnection = some connection

/-- Both closes are for the one connection of the slot, and the second one does nothing. -/
theorem disconnect_linked (h : server.Linked slot connection) :
    server.onClientDisconnected slot = (server.reactor.onClientDisconnected slot).map
      fun reactor => { server with reactor := reactor }.closeConnection connection := by
  unfold onClientDisconnected
  cases hclose : server.reactor.onClientDisconnected slot with
  | error fault => rfl
  | ok reactor =>
    obtain ⟨saved, -, hreactor⟩ := FixServerReactor.disconnect_cases hclose
    have hsessions : reactor.sessions = server.reactor.sessions := by rw [hreactor]
    have hpeers : reactor.getPeerSocket slot = server.reactor.getPeerSocket slot := by
      rw [hreactor]
      rfl
    have hsession : { server with reactor := reactor }.closeSession slot =
        { server with reactor := reactor }.closeConnection connection := by
      unfold closeSession
      dsimp only
      rw [hsessions, h.session]
    have hpeer : ({ server with reactor := reactor }.closeConnection connection).closePeer slot =
        ({ server with reactor := reactor }.closeConnection connection).closeConnection
          connection := by
      unfold closePeer
      rw [closeConnection_reactor]
      dsimp only
      rw [hpeers, h.peer]
    simp only [Except.map]
    rw [hsession, hpeer, closeConnection_twice]

/-- A session that is closed before its slot makes no difference. -/
theorem closeSession_disconnect (h : server.Linked slot connection) :
    (server.closeSession slot).onClientDisconnected slot = server.onClientDisconnected slot := by
  have hsession : server.closeSession slot = server.closeConnection connection := by
    unfold closeSession
    rw [h.session]
  have hlinked : (server.closeConnection connection).Linked slot connection :=
    ⟨by rw [closeConnection_reactor]; exact h.peer,
      by rw [closeConnection_reactor]; exact h.session⟩
  rw [hsession, disconnect_linked hlinked, disconnect_linked h, closeConnection_reactor]
  congr 1
  funext reactor
  rw [closeConnection_with, closeConnection_twice]

/-! ## A message -/

/-- The session is written back, and its slot is closed where the verdict says so. -/
def settle (server : SocketServer) (peerIndex : Nat) (session : FixSession) (verdict : Verdict) :
    Except Fault SocketServer :=
  let written := { server with reactor := server.reactor.setSession peerIndex session }
  if verdict = .closed then written.onClientDisconnected peerIndex else .ok written

theorem processAccepted_settle (server : SocketServer) (session : FixSession)
    (message : FixMessage) (slot : Nat) (currentUTCDateTime : Bytes) :
    server.processAccepted session message slot currentUTCDateTime =
      if message.isAdminMessage then
        server.settle slot (session.perform (.accept message ::
          session.answerSteps server.reactor.compId message currentUTCDateTime))
            (if message.messageType = .logoff then .closed else .answered)
      else server.settle slot (session.perform [.accept message]) .passed := by
  unfold processAccepted settle
  rw [FixServerReactor.perform_accept_answerSteps]
  split
  · split
    · rfl
    · rfl
  · rfl

/-- A message with a slot that is closed: the peer and the session are those of the slot. -/
theorem processNumbered_settle {session : FixSession} {slot : Nat}
    (hpeer : server.reactor.getPeerSocket slot = some connection)
    (hlt : slot < server.reactor.sessions.length)
    (huses : session.tcpConnection = some connection) (message : FixMessage)
    (currentUTCDateTime : Bytes) :
    server.processNumbered session message slot currentUTCDateTime =
      server.settle slot
        (session.perform (session.numberedSteps server.reactor message currentUTCDateTime).1)
        (session.numberedSteps server.reactor message currentUTCDateTime).2 := by
  unfold processNumbered FixSession.numberedSteps
  split
  · -- The session is closed first, to no effect.
    have hlinked : ({ server with reactor := server.reactor.setSession slot session } :
        SocketServer).Linked slot connection := by
      refine ⟨hpeer, ?_⟩
      simp only [FixServerReactor.setSession, List.getElem?_set_self hlt]
      exact huses
    exact closeSession_disconnect hlinked
  · rw [processAccepted_settle]
    split
    · rfl
    · rfl

/-- Handling a message is performing its steps and settling the verdict. -/
theorem processMessage_settle {session : FixSession}
    (h : server.reactor.sessions[slot]? = some session)
    (hpeer : server.reactor.getPeerSocket slot = some connection)
    (huses : session.tcpConnection = some connection) (message : FixMessage)
    (currentUTCDateTime : Bytes) :
    server.processMessage message session slot currentUTCDateTime =
      match session.steps server.reactor message currentUTCDateTime with
      | .ok (steps, verdict) => server.settle slot (session.perform steps) verdict
      | .error error => .error (.conversion error) := by
  obtain ⟨hlt, -⟩ := List.getElem?_eq_some_iff.mp h
  have hlinked : server.Linked slot connection := ⟨hpeer, by rw [h]; exact huses⟩
  unfold processMessage FixSession.steps
  simp only
  split
  · rfl
  · split
    · split
      · -- The comp id is wrong: the session is closed as it is.
        simp only [settle, FixSession.perform, List.foldl_nil, FixServerReactor.setSession_self h,
          if_true]
        exact closeSession_disconnect hlinked
      · unfold FixSession.handleLogonMessage
        cases hheartBeat : message.getTagValueAsInt fixTagHearbeatInterval with
        | error error => rfl
        | ok heartBeatInterval =>
          cases hencryption : message.getTagValueAsInt fixTagEncryptMethod with
          | error error => rfl
          | ok encryptionMethod =>
            have hlogged : (session.perform (session.logonSteps server.reactor message
                heartBeatInterval encryptionMethod currentUTCDateTime)).tcpConnection =
                  some connection := huses
            have hnumbered :=
              processNumbered_settle hpeer hlt hlogged message currentUTCDateTime
            rw [← FixSession.perform_append] at hnumbered
            exact hnumbered
    · exact processNumbered_settle hpeer hlt huses message currentUTCDateTime

/-! ## What a step does -/

/-- The sockets in a state between two events. -/
structure Tracked (server : SocketServer) : Prop where
  joined : server.reactor.Joined
  objects : server.sockets.length = server.reactor.acceptedConnections
  live : ∀ (slot connection : Nat) (socket : Socket), server.Occupies slot connection →
    server.sockets[connection]? = some socket → socket.state ≠ .disconnected
  ended : ∀ (connection : Nat) (socket : Socket), server.sockets[connection]? = some socket →
    (∀ slot, ¬ server.Occupies slot connection) → socket.state = .disconnected

/-- A step leaves the connections alone, opens one, or ends one: with its close, or without it
where the connection was lost. -/
inductive Effect (server : SocketServer) (label : Label) (next : SocketServer) : Prop
  | keeps (accepted : next.reactor.acceptedConnections = server.reactor.acceptedConnections)
      (sockets : next.sockets = server.sockets) (closes : next.closes = server.closes)
      (occupies : ∀ slot connection,
        next.Occupies slot connection ↔ server.Occupies slot connection)
      (loses : ∀ connection, ¬ server.Loses label connection)
  | opens (free : Nat) (descriptor : Int)
      (accepted : next.reactor.acceptedConnections = server.reactor.acceptedConnections + 1)
      (sockets : next.sockets = server.sockets ++ [⟨descriptor, .connected⟩])
      (closes : next.closes = server.closes)
      (occupies : ∀ slot connection, next.Occupies slot connection ↔
        server.Occupies slot connection ∨ slot = free ∧ connection = server.sockets.length)
      (loses : ∀ connection, ¬ server.Loses label connection)
  | ends (slot connection : Nat) (socket : Socket) (occupied : server.Occupies slot connection)
      (object : server.sockets[connection]? = some socket)
      (accepted : next.reactor.acceptedConnections = server.reactor.acceptedConnections)
      (sockets : next.sockets =
        server.sockets.set connection { socket with state := .disconnected })
      (closes : server.Loses label connection ∧ next.closes = server.closes ∨
        ¬ server.Loses label connection ∧ next.closes = server.closes ++
          socket.close.2.map fun descriptor => (connection, descriptor))
      (occupies : ∀ other peer, next.Occupies other peer ↔
        server.Occupies other peer ∧ other ≠ slot)
      (loses : ∀ peer, server.Loses label peer → peer = connection)

/-- A slot of joined tables has one connection. -/
theorem Tracked.connection_of (h : server.Tracked) {session : FixSession}
    (hsession : server.reactor.sessions[slot]? = some session) :
    ∃ connection socket, server.reactor.getPeerSocket slot = some connection ∧
      session.tcpConnection = some connection ∧ server.sockets[connection]? = some socket := by
  obtain ⟨hlt, -⟩ := List.getElem?_eq_some_iff.mp hsession
  have hslot : slot < server.reactor.peerSockets.length := by
    rw [h.joined.peers, ← h.joined.sessions]
    exact hlt
  obtain ⟨connection, hpeer⟩ : ∃ connection, server.reactor.peerSockets[slot]? = some connection :=
    ⟨_, List.getElem?_eq_getElem hslot⟩
  have hobject : connection < server.sockets.length := by
    rw [h.objects]
    exact h.joined.accepted connection (List.mem_of_getElem? hpeer)
  exact ⟨connection, _, hpeer, h.joined.uses slot connection session hpeer hsession,
    List.getElem?_eq_getElem hobject⟩

/-- A peer that is removed leaves its slot, and no other one does. -/
theorem occupies_removed (h : server.Tracked) {after : SocketServer}
    (hflags : after.reactor.peerSocketsConnectionFlags =
      server.reactor.peerSocketsConnectionFlags.set slot false)
    (hpeers : after.reactor.peerSockets = server.reactor.peerSockets) (other peer : Nat) :
    after.Occupies other peer ↔ server.Occupies other peer ∧ other ≠ slot := by
  have hremoved : ((server.reactor.peerTable h.joined.peerTable_length).remove slot).Holds
      other peer ↔ server.Occupies other peer ∧ other ≠ slot := Table.holds_remove
  rw [← hremoved]
  unfold Occupies FixServerReactor.getPeerSocket
  rw [hflags, hpeers]
  rfl

/-- An event that closes a slot, from a server whose socket may be marked as lost. -/
theorem effect_disconnect (h : server.Tracked) {marked : SocketServer} {label : Label}
    (hinStep : marked.reactor.InStep)
    (haccepted : marked.reactor.acceptedConnections = server.reactor.acceptedConnections)
    (hflags : marked.reactor.peerSocketsConnectionFlags =
      server.reactor.peerSocketsConnectionFlags)
    (hpeers : marked.reactor.peerSockets = server.reactor.peerSockets)
    (hlinked : marked.Linked slot connection) {socket : Socket}
    (hobject : server.sockets[connection]? = some socket)
    (hcloses : marked.closes = server.closes)
    (hmarked : server.Loses label connection ∧
        marked.sockets = server.sockets.set connection { socket with state := .disconnected } ∨
      ¬ server.Loses label connection ∧ marked.sockets = server.sockets)
    (hloses : ∀ peer, server.Loses label peer → peer = connection)
    (hclose : marked.onClientDisconnected slot = .ok next) : Effect server label next := by
  rw [disconnect_linked hlinked] at hclose
  obtain ⟨reactor, hreactor, rfl⟩ := map_eq_ok.mp hclose
  obtain ⟨saved, hlive, hsame⟩ := FixServerReactor.disconnect_cases hreactor
  obtain ⟨hlt, -⟩ := List.getElem?_eq_some_iff.mp hobject
  have hpeer : server.reactor.getPeerSocket slot = some connection := by
    have hpeer := hlinked.peer
    unfold FixServerReactor.getPeerSocket at hpeer ⊢
    rwa [hpeers] at hpeer
  have hused : InUse server.reactor.peerSocketsConnectionFlags slot := by
    rw [← hflags, hinStep.flags]
    exact FixServerReactor.getD_flag.mp (FixServerReactor.getSession_some.mp hlive).1
  have hoccupies : ∀ other peer,
      ({ marked with reactor := reactor }.closeConnection connection).Occupies other peer ↔
        server.Occupies other peer ∧ other ≠ slot := by
    apply occupies_removed h
    · rw [closeConnection_reactor, hsame, ← hflags]
    · rw [closeConnection_reactor, hsame]
      exact hpeers
  have hcount : ({ marked with reactor := reactor }.closeConnection
      connection).reactor.acceptedConnections = server.reactor.acceptedConnections := by
    rw [closeConnection_reactor, hsame]
    exact haccepted
  rcases hmarked with ⟨hlost, hsockets⟩ | ⟨hkept, hsockets⟩
  · have hdisconnected : ({ marked with reactor := reactor } : SocketServer).sockets[
        connection]? = some { socket with state := .disconnected } := by
      dsimp only
      rw [hsockets, List.getElem?_set_self hlt]
    rw [closeConnection_some hdisconnected, Socket.close_disconnected rfl] at hoccupies hcount ⊢
    refine .ends slot connection socket ⟨hused, hpeer⟩ hobject hcount ?_ (Or.inl ⟨hlost, ?_⟩)
      hoccupies hloses
    · dsimp only
      rw [hsockets, List.set_set]
    · dsimp only
      rw [List.map_nil, List.append_nil, hcloses]
  · have hopen : ({ marked with reactor := reactor } : SocketServer).sockets[connection]? =
        some socket := by
      dsimp only
      rw [hsockets, hobject]
    rw [closeConnection_some hopen] at hoccupies hcount ⊢
    refine .ends slot connection socket ⟨hused, hpeer⟩ hobject hcount ?_ (Or.inr ⟨hkept, ?_⟩)
      hoccupies hloses
    · dsimp only
      rw [hsockets, Socket.close_fst]
    · dsimp only
      rw [hcloses]

/-- An event that changes only the session of a slot. -/
theorem effect_setSession {label : Label}
    (hloses : ∀ peer, ¬ server.Loses label peer) (slot : Nat) (session : FixSession) :
    Effect server label
      { server with reactor := server.reactor.setSession slot session } :=
  .keeps rfl rfl rfl (fun _ _ => Iff.rfl) hloses

theorem effect_settle (h : server.Tracked) {label : Label}
    (hloses : ∀ peer, ¬ server.Loses label peer) {session changed : FixSession}
    (hsession : server.reactor.sessions[slot]? = some session)
    (hsame : changed.tcpConnection = session.tcpConnection) {verdict : Verdict}
    (hsettle : server.settle slot changed verdict = .ok next) : Effect server label next := by
  obtain ⟨connection, socket, hpeer, huses, hobject⟩ := h.connection_of hsession
  obtain ⟨hlt, -⟩ := List.getElem?_eq_some_iff.mp hsession
  have hlinked : ({ server with reactor := server.reactor.setSession slot changed } :
      SocketServer).Linked slot connection := by
    refine ⟨hpeer, ?_⟩
    simp only [FixServerReactor.setSession, List.getElem?_set_self hlt]
    exact hsame.trans huses
  unfold settle at hsettle
  split at hsettle
  · exact effect_disconnect h
      (by exact FixServerReactor.inStep_setSession h.joined.toInStep changed)
      (by rfl) (by rfl) (by rfl) hlinked hobject (by rfl) (Or.inr ⟨hloses connection, by rfl⟩)
      (fun peer hlost => absurd hlost (hloses peer)) hsettle
  · cases hsettle
    exact effect_setSession hloses slot changed

/-- The destructor of the object in a slot that is reset closes nothing. -/
theorem resetSlot_eq (h : server.Tracked) : server.resetSlot = server := by
  unfold resetSlot
  cases hfree : freeSlot server.reactor.peerSocketsConnectionFlags with
  | none => rfl
  | some slot =>
    obtain ⟨-, hunused⟩ := freeSlot_some hfree
    dsimp only
    unfold closePeer
    cases hpeer : server.reactor.getPeerSocket slot with
    | none => rfl
    | some connection =>
      dsimp only
      unfold closeConnection
      cases hobject : server.sockets[connection]? with
      | none => rfl
      | some socket =>
        have hended : ∀ other, ¬ server.Occupies other connection := by
          intro other hoccupies
          have hslot := h.joined.distinct other slot connection hoccupies.2 hpeer
          have hused := hoccupies.1
          rw [hslot, InUse, hunused] at hused
          cases hused
        have hstate := h.ended connection socket hobject hended
        obtain ⟨hlt, hget⟩ := List.getElem?_eq_some_iff.mp hobject
        dsimp only
        rw [Socket.close_disconnected hstate]
        dsimp only
        rw [← hget, List.set_getElem_self, List.map_nil, List.append_nil]

theorem effect_accept (h : server.Tracked) {descriptor : Int}
    (haccept : server.acceptNewConnection descriptor = .ok next) :
    Effect server (.accept descriptor) next := by
  have hloses : ∀ peer, ¬ server.Loses (.accept descriptor) peer := fun _ hlost => hlost
  unfold acceptNewConnection at haccept
  split at haccept
  · cases haccept
    exact .keeps rfl rfl rfl (fun _ _ => Iff.rfl) hloses
  · rw [resetSlot_eq h, FixServerReactor.accept_tables h.joined.toInStep] at haccept
    cases haccept
    refine .opens (server.reactor.peerTable h.joined.peerTable_length).nextSlot descriptor rfl rfl
      rfl (fun slot connection => ?_) hloses
    have hadded : ((server.reactor.peerTable h.joined.peerTable_length).add
        server.reactor.acceptedConnections).Holds slot connection ↔ _ := Table.holds_add
    rw [h.objects]
    exact hadded

theorem effect_checkErrors (h : server.Tracked) {error : Int}
    (hcheck : server.checkErrors error slot = .ok next) :
    Effect server (.receiveFailed slot error) next := by
  unfold checkErrors at hcheck
  cases hsession : server.reactor.getSession slot with
  | none =>
    -- The slot is not in use, so nothing can be lost.
    rw [hsession] at hcheck
    cases hcheck
    refine .keeps rfl rfl rfl (fun _ _ => Iff.rfl) ?_
    rintro peer ⟨-, -, hused, -⟩
    rw [h.joined.flags] at hused
    obtain ⟨object, hobject⟩ : ∃ object, server.reactor.sessions[slot]? = some object :=
      (show (server.reactor.sessionTable h.joined.sessions).Live slot from hused).entry
    rw [FixServerReactor.getSession_some.mpr ⟨FixServerReactor.getD_flag.mpr hused, hobject⟩]
      at hsession
    cases hsession
  | some session =>
    obtain ⟨hflag, hobject⟩ := FixServerReactor.getSession_some.mp hsession
    obtain ⟨connection, socket, hpeer, huses, hsocket⟩ := h.connection_of hobject
    obtain ⟨hlt, hget⟩ := List.getElem?_eq_some_iff.mp hsocket
    have hoccupies : server.Occupies slot connection :=
      ⟨h.joined.flags ▸ FixServerReactor.getD_flag.mp hflag, hpeer⟩
    have hloses : ∀ peer, server.Loses (.receiveFailed slot error) peer → peer = connection := by
      rintro peer ⟨-, -, -, hother⟩
      rw [hpeer] at hother
      exact (Option.some.inj hother).symm
    rw [hsession, Option.bind_some, huses] at hcheck
    dsimp only at hcheck
    rw [hsocket] at hcheck
    unfold Socket.isConnectionLost at hcheck
    by_cases herror : error ≥ 100 ∧ error ≤ 104
    · simp only [if_pos herror, if_true] at hcheck
      exact effect_disconnect h (by exact h.joined.toInStep) (by rfl) (by rfl) (by rfl)
        ⟨by exact hpeer, by rw [hobject]; exact huses⟩ hsocket (by rfl)
        (Or.inl ⟨⟨herror.1, herror.2, hoccupies⟩, by rfl⟩) hloses hcheck
    · simp only [if_neg herror, Bool.false_eq_true, if_false] at hcheck
      cases hcheck
      refine .keeps rfl ?_ rfl (fun _ _ => Iff.rfl) ?_
      · dsimp only
        rw [← hget, List.set_getElem_self]
      · rintro peer ⟨hlow, hhigh, -⟩
        exact herror ⟨hlow, hhigh⟩

theorem effect_invalidEvent (h : server.Tracked)
    (hclose : server.onClientDisconnected slot = .ok next) :
    Effect server (.invalidEvent slot) next := by
  have hloses : ∀ peer, ¬ server.Loses (.invalidEvent slot) peer := fun _ hlost => hlost
  obtain ⟨session, hsession, -⟩ := FixServerReactor.disconnect_cases (disconnect_reactor hclose)
  have hobject := (FixServerReactor.getSession_some.mp hsession).2
  obtain ⟨connection, socket, hpeer, huses, hsocket⟩ := h.connection_of hobject
  exact effect_disconnect h h.joined.toInStep rfl rfl rfl
    ⟨hpeer, by rw [hobject]; exact huses⟩ hsocket rfl
    (Or.inr ⟨hloses connection, rfl⟩) (fun peer hlost => absurd hlost (hloses peer)) hclose

/-- Every step has one of the three effects. -/
theorem step_effect (h : server.Tracked) {label : Label} (hstep : server.step label = some next) :
    Effect server label next := by
  cases label with
  | accept descriptor =>
    exact effect_accept h (FixServerReactor.toOption_eq_some.mp hstep)
  | receiveFailed slot error =>
    exact effect_checkErrors h (FixServerReactor.toOption_eq_some.mp hstep)
  | invalidEvent slot =>
    exact effect_invalidEvent h (FixServerReactor.toOption_eq_some.mp hstep)
  | handle slot message currentUTCDateTime =>
    obtain ⟨session, hsession, hprocess⟩ := Option.bind_eq_some_iff.mp hstep
    obtain ⟨connection, -, hpeer, huses, -⟩ := h.connection_of hsession
    have hsettle := FixServerReactor.toOption_eq_some.mp hprocess
    rw [processMessage_settle hsession hpeer huses] at hsettle
    split at hsettle
    · rename_i steps verdict hsteps
      have hloses : ∀ peer, ¬ server.Loses (.handle slot message currentUTCDateTime) peer :=
        fun _ hlost => hlost
      exact effect_settle h hloses hsession (FixSession.steps_frame hsteps).1 hsettle
    · cases hsettle
  | send slot message currentUTCDateTime =>
    obtain ⟨session, -, rfl⟩ := Option.map_eq_some_iff.mp hstep
    have hloses : ∀ peer, ¬ server.Loses (.send slot message currentUTCDateTime) peer :=
      fun _ hlost => hlost
    exact effect_setSession hloses slot _

/-! ## What an effect means for one connection -/

section Connection

variable {label : Label}

theorem Effect.objects (h : server.Tracked) (effect : Effect server label next) :
    next.sockets.length = next.reactor.acceptedConnections := by
  cases effect with
  | keeps accepted sockets closes occupies loses => rw [sockets, accepted, h.objects]
  | opens free descriptor accepted sockets closes occupies loses =>
    rw [sockets, List.length_append, accepted, h.objects]
    rfl
  | ends slot connection socket occupied object accepted sockets closes occupies loses =>
    rw [sockets, List.length_set, accepted, h.objects]

/-- A connection that has a slot after a step had it before, or is the one that was accepted. -/
theorem Effect.occupied (h : server.Tracked) (effect : Effect server label next)
    (hoccupies : next.Occupies slot connection) :
    next.closesOf connection = server.closesOf connection ∧ ¬ server.Loses label connection ∧
      (server.Occupies slot connection ∧
          next.sockets[connection]? = server.sockets[connection]? ∨
        connection = server.sockets.length ∧
          ∃ descriptor, next.sockets[connection]? = some ⟨descriptor, .connected⟩) := by
  cases effect with
  | keeps accepted sockets closes occupies loses =>
    refine ⟨closesOf_congr closes connection, loses connection, Or.inl ⟨?_, by rw [sockets]⟩⟩
    exact (occupies slot connection).mp hoccupies
  | opens free descriptor accepted sockets closes occupies loses =>
    refine ⟨closesOf_congr closes connection, loses connection, ?_⟩
    rcases (occupies slot connection).mp hoccupies with hold | ⟨-, hnew⟩
    · have hlt : connection < server.sockets.length := by
        rw [h.objects]
        exact h.joined.accepted connection (List.mem_of_getElem? hold.2)
      exact Or.inl ⟨hold, by rw [sockets, List.getElem?_append_left hlt]⟩
    · refine Or.inr ⟨hnew, descriptor, ?_⟩
      rw [sockets, hnew, List.getElem?_concat_length]
  | ends other peer socket occupied object accepted sockets closes occupies loses =>
    obtain ⟨hold, hslot⟩ := (occupies slot connection).mp hoccupies
    have hpeer : connection ≠ peer := by
      rintro rfl
      exact hslot (h.joined.distinct slot other connection hold.2 occupied.2)
    refine ⟨?_, fun hlost => hpeer (loses connection hlost), Or.inl ⟨hold, ?_⟩⟩
    · rcases closes with ⟨-, hcloses⟩ | ⟨-, hcloses⟩
      · exact closesOf_congr hcloses connection
      · rw [closesOf_append connection hcloses rfl, if_neg hpeer, List.append_nil]
    · rw [sockets, List.getElem?_set_ne (Ne.symm hpeer)]

/-- A connection without a slot after a step had none before, or the step has ended it. -/
theorem Effect.ended (effect : Effect server label next) {socket : Socket}
    (hsocket : next.sockets[connection]? = some socket)
    (hended : ∀ slot, ¬ next.Occupies slot connection) :
    (server.sockets[connection]? = some socket ∧ (∀ slot, ¬ server.Occupies slot connection) ∧
        next.closesOf connection = server.closesOf connection ∧
        ¬ server.Loses label connection) ∨
      ∃ slot before, server.Occupies slot connection ∧
        server.sockets[connection]? = some before ∧
        socket = { before with state := .disconnected } ∧
        (server.Loses label connection ∧
            next.closesOf connection = server.closesOf connection ∨
          ¬ server.Loses label connection ∧
            next.closesOf connection = server.closesOf connection ++ before.close.2) := by
  cases effect with
  | keeps accepted sockets closes occupies loses =>
    rw [sockets] at hsocket
    refine Or.inl ⟨hsocket, fun slot hoccupies => ?_, closesOf_congr closes connection,
      loses connection⟩
    exact hended slot ((occupies slot connection).mpr hoccupies)
  | opens free descriptor accepted sockets closes occupies loses =>
    have hother : connection ≠ server.sockets.length := by
      rintro rfl
      exact hended free ((occupies free _).mpr (Or.inr ⟨rfl, rfl⟩))
    rw [sockets, getElem?_append_other hother] at hsocket
    refine Or.inl ⟨hsocket, fun slot hoccupies => ?_, closesOf_congr closes connection,
      loses connection⟩
    exact hended slot ((occupies slot connection).mpr (Or.inl hoccupies))
  | ends slot peer before occupied object accepted sockets closes occupies loses =>
    obtain ⟨hlt, -⟩ := List.getElem?_eq_some_iff.mp object
    by_cases hpeer : connection = peer
    · subst hpeer
      rw [sockets, List.getElem?_set_self hlt] at hsocket
      refine Or.inr ⟨slot, before, occupied, object, (Option.some.inj hsocket).symm, ?_⟩
      rcases closes with ⟨hlost, hcloses⟩ | ⟨hstays, hcloses⟩
      · exact Or.inl ⟨hlost, closesOf_congr hcloses connection⟩
      · exact Or.inr ⟨hstays, by rw [closesOf_append connection hcloses rfl, if_pos rfl]⟩
    · rw [sockets, List.getElem?_set_ne (Ne.symm hpeer)] at hsocket
      refine Or.inl ⟨hsocket, fun other hoccupies => ?_, ?_,
        fun hlost => hpeer (loses connection hlost)⟩
      · refine hended other ((occupies other connection).mpr ⟨hoccupies, ?_⟩)
        rintro rfl
        exact hpeer (Option.some.inj (hoccupies.2.symm.trans occupied.2))
      · rcases closes with ⟨-, hcloses⟩ | ⟨-, hcloses⟩
        · exact closesOf_congr hcloses connection
        · rw [closesOf_append connection hcloses rfl, if_neg hpeer, List.append_nil]

/-- A connection that is still to come after a step was still to come before. -/
theorem Effect.future (effect : Effect server label next)
    (hfuture : next.sockets.length ≤ connection) :
    server.sockets.length ≤ connection ∧
      next.closesOf connection = server.closesOf connection ∧
      ¬ server.Loses label connection := by
  cases effect with
  | keeps accepted sockets closes occupies loses =>
    rw [sockets] at hfuture
    exact ⟨hfuture, closesOf_congr closes connection, loses connection⟩
  | opens free descriptor accepted sockets closes occupies loses =>
    rw [sockets, List.length_append] at hfuture
    exact ⟨by omega, closesOf_congr closes connection, loses connection⟩
  | ends slot peer before occupied object accepted sockets closes occupies loses =>
    obtain ⟨hlt, -⟩ := List.getElem?_eq_some_iff.mp object
    rw [sockets, List.length_set] at hfuture
    have hpeer : connection ≠ peer := by omega
    refine ⟨hfuture, ?_, fun hlost => hpeer (loses connection hlost)⟩
    rcases closes with ⟨-, hcloses⟩ | ⟨-, hcloses⟩
    · exact closesOf_congr hcloses connection
    · rw [closesOf_append connection hcloses rfl, if_neg hpeer, List.append_nil]

end Connection

end SocketServer

end LiteExchange.Fix
