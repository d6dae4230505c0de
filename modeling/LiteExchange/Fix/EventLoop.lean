import LiteExchange.Fix.ClientEvents
import LiteExchange.Fix.Descriptors

/-!
# The event loop of the reactor

Source: tcp_server_reactor.cpp and io_listener_epoll.cpp, as they are compiled on Linux. The loop
asks epoll for a batch of ready descriptors and handles them one by one; `m_peerSocketIndexTable`
leads from a descriptor to its slot. The kernel gives out no descriptor that is open, and forgets
a closed one in the interest set too. An exception or a null session ends the loop.
-/

namespace LiteExchange.Fix

open Foundation.Ascii Foundation.Results Foundation.Runs Foundation.SlotTable FixConstants

/-- The flags of an event that the listener looks at. -/
structure EpollEvent where
  fd : Int
  error : Bool := false
  hangUp : Bool := false
  input : Bool := true
  deriving DecidableEq, Repr

def EpollEvent.isValidEvent (event : EpollEvent) : Bool :=
  !(event.error || event.hangUp || !event.input)

/-- The sockets that are open, and the interest set of the epoll descriptor. -/
structure Kernel where
  opened : List Int
  interest : List Int

namespace Kernel

def removeFileDescriptor (kernel : Kernel) (fd : Int) : Kernel :=
  { kernel with interest := kernel.interest.filter (· ≠ fd) }

/-- `EPOLL_CTL_ADD` fails for a descriptor that is not open, or there already. -/
def addFileDescriptor (kernel : Kernel) (fd : Int) : Kernel :=
  if fd ∈ kernel.opened ∧ fd ∉ kernel.interest then
    { kernel with interest := kernel.interest ++ [fd] }
  else kernel

def close (kernel : Kernel) (fd : Int) : Kernel where
  opened := kernel.opened.filter (· ≠ fd)
  interest := kernel.interest.filter (· ≠ fd)

/-- The calls of `::close` that a step of the server has made. -/
def closes (kernel : Kernel) (before after : SocketServer) : Kernel :=
  (after.closes.drop before.closes.length).foldl (fun kernel call => kernel.close call.2) kernel

end Kernel

/-- What the kernel gives to the handling of an event: the descriptor of a new connection, with
what is in the buffer that its session makes, or what a receive finds. -/
inductive Input where
  | accepts (descriptor : Int) (buffer : Nat → UInt8)
  | receives (arrival : Arrival)

/-- `events` are the events of the batch that are still to be handled. -/
structure EventLoop where
  reactor : ReceivingReactor
  listening : Int
  kernel : Kernel
  maxPollEvents : Nat
  peerSocketIndexTable : Int → Nat := fun _ => 0
  events : List EpollEvent := []

/-- `epoll_wait` returns, the next event of the batch is handled, or another thread sends. -/
inductive LoopLabel where
  | wait (ready : List EpollEvent)
  | event (input : Input)
  | send (slot : Nat) (message : FixMessage) (currentUTCDateTime : Bytes)

namespace SocketServer

/-- `getSocketDescriptor` of the peer in a slot. -/
def descriptorOf (server : SocketServer) (slot : Nat) : Option Int :=
  ((server.reactor.getPeerSocket slot).bind fun connection => server.sockets[connection]?).map
    Socket.socketDescriptor

/-- `getSocketDescriptor` of a connection. -/
def HasDescriptor (server : SocketServer) (connection : Nat) (fd : Int) : Prop :=
  (server.sockets[connection]?).map Socket.socketDescriptor = some fd

/-- The slot that `addPeer` takes next. -/
def nextPeer (server : SocketServer) : Nat :=
  (server.reactor.addPeer server.reactor.acceptedConnections).2

end SocketServer

namespace EventLoop

/-- The loop behind `start`, with what `setMaxPollEvents` was called with. -/
def initial (compId : Bytes) (sequenceNumberValidation : Bool) (store : FixSequenceStore)
    (receiveCacheSize maxPollEvents : Nat) (listening : Int) : EventLoop where
  reactor :=
    { server := .initial compId sequenceNumberValidation store
      receiveCacheSize := receiveCacheSize
      receiveCaches := fun _ => ⟨0, 0, fun _ => 0⟩ }
  listening := listening
  maxPollEvents := maxPollEvents
  kernel := { opened := [listening], interest := [listening] }

/-- The sockets and the reactor. -/
def server (loop : EventLoop) : SocketServer := loop.reactor.server

def withServer (loop : EventLoop) (server : SocketServer) : EventLoop :=
  { loop with reactor := { loop.reactor with server := server } }

/-- The loop behind the work on a slot. `onClientDisconnected` is what clears a flag, and it calls
`removeFileDescriptor` for the peer of the slot. -/
def follow (loop : EventLoop) (slot : Nat) (reactor : ReceivingReactor) : EventLoop :=
  let kernel := loop.kernel.closes loop.server reactor.server
  let disconnected := loop.server.reactor.peerSocketsConnectionFlags.getD slot false &&
    !reactor.server.reactor.peerSocketsConnectionFlags.getD slot false
  { loop with
    reactor := reactor
    kernel :=
      if disconnected then
        ((loop.server.descriptorOf slot).map kernel.removeFileDescriptor).getD kernel
      else kernel }

/-- `accept`, `addPeer` and `onClientConnected`, with the receive cache of the new session. -/
def acceptNewConnection (loop : EventLoop) (descriptor : Int) (buffer : Nat → UInt8) :
    Option EventLoop :=
  if descriptor < 0 then some loop
  else if descriptor ∈ loop.kernel.opened then none
  else
    (loop.server.step (.accept descriptor)).map fun next =>
      let kernel := { loop.kernel with opened := loop.kernel.opened ++ [descriptor] }
      { loop with
        reactor := { loop.reactor with server := next }.setCache loop.server.nextPeer
          ⟨loop.reactor.receiveCacheSize, 0, buffer⟩
        kernel := (kernel.closes loop.server next).addFileDescriptor descriptor
        peerSocketIndexTable :=
          Function.update loop.peerSocketIndexTable descriptor loop.server.nextPeer }

/-- The body of the loop over the events. -/
def handleEvent (loop : EventLoop) (event : EpollEvent) (input : Input) : Option EventLoop :=
  let peerIndex := loop.peerSocketIndexTable event.fd
  if event.isValidEvent then
    if event.fd = loop.listening then
      match input with
      | .accepts descriptor buffer => loop.acceptNewConnection descriptor buffer
      | .receives _ => none
    else
      match input with
      | .accepts _ _ => none
      | .receives arrival =>
        ((loop.reactor.handleClient peerIndex arrival).toOption).map (loop.follow peerIndex)
  else
    (loop.server.step (.invalidEvent peerIndex)).map fun server =>
      loop.follow peerIndex { loop.reactor with server := server }

/-- What `epoll_wait` may return. -/
def Reports (loop : EventLoop) (ready : List EpollEvent) : Prop :=
  ready.length ≤ loop.maxPollEvents ∧ (ready.map EpollEvent.fd).Nodup ∧
    ∀ event ∈ ready, event.fd ∈ loop.kernel.interest

instance (loop : EventLoop) (ready : List EpollEvent) : Decidable (loop.Reports ready) :=
  inferInstanceAs (Decidable (_ ∧ _ ∧ _))

def step (loop : EventLoop) : LoopLabel → Option EventLoop
  | .wait ready =>
    if loop.events = [] ∧ loop.Reports ready then some { loop with events := ready } else none
  | .event input =>
    loop.events.head?.bind fun event =>
      { loop with events := loop.events.tail }.handleEvent event input
  | .send slot message currentUTCDateTime =>
    (loop.server.step (.send slot message currentUTCDateTime)).map loop.withServer

/-- The descriptor is that of a connected slot. -/
def Connected (loop : EventLoop) (fd : Int) (slot : Nat) : Prop :=
  ∃ connection, loop.server.Occupies slot connection ∧ loop.server.HasDescriptor connection fd

end EventLoop

/-! ## What a step of the server does to the tables -/

namespace SocketServer

variable {server next : SocketServer} {slot : Nat}

/-- The slot that a label is for; a connection takes one of its own. -/
def Label.slot? : Label → Option Nat
  | .accept _ => none
  | .receiveFailed slot _ => some slot
  | .invalidEvent slot => some slot
  | .handle slot _ _ => some slot
  | .send slot _ _ => some slot

/-- The peers stay, and of the flags at most the one of the slot is cleared. -/
structure LeavesPeers (server next : SocketServer) (slot : Nat) : Prop where
  accepted : next.reactor.acceptedConnections = server.reactor.acceptedConnections
  peers : next.reactor.peerSockets = server.reactor.peerSockets
  flags : next.reactor.peerSocketsConnectionFlags = server.reactor.peerSocketsConnectionFlags ∨
    next.reactor.peerSocketsConnectionFlags =
      server.reactor.peerSocketsConnectionFlags.set slot false

theorem leavesPeers_disconnect
    (hclose : server.reactor.onClientDisconnected slot = .ok next.reactor) :
    LeavesPeers server next slot := by
  obtain ⟨saved, -, hreactor⟩ := FixServerReactor.disconnect_cases hclose
  exact ⟨by rw [hreactor], by rw [hreactor], .inr (by rw [hreactor])⟩

theorem leavesPeers_settle {session : FixSession} {verdict : Verdict}
    (hsettle : server.settle slot session verdict = .ok next) : LeavesPeers server next slot := by
  unfold settle at hsettle
  split at hsettle
  · obtain ⟨saved, -, hreactor⟩ := FixServerReactor.disconnect_cases (disconnect_reactor hsettle)
    exact ⟨by rw [hreactor]; rfl, by rw [hreactor]; rfl, .inr (by rw [hreactor]; rfl)⟩
  · cases hsettle
    exact ⟨rfl, rfl, .inl rfl⟩

theorem leavesPeers_step (h : server.Tracked) {label : Label}
    (hstep : server.step label = some next) (hslot : label.slot? = some slot) :
    LeavesPeers server next slot := by
  cases label with
  | accept descriptor => cases hslot
  | receiveFailed slot error =>
    cases hslot
    have hcheck := FixServerReactor.toOption_eq_some.mp hstep
    unfold checkErrors at hcheck
    split at hcheck
    · cases hcheck
      exact ⟨rfl, rfl, .inl rfl⟩
    · split at hcheck
      · cases hcheck
        exact ⟨rfl, rfl, .inl rfl⟩
      · dsimp only at hcheck
        split at hcheck
        · have hreactor := disconnect_reactor hcheck
          exact leavesPeers_disconnect hreactor
        · cases hcheck
          exact ⟨rfl, rfl, .inl rfl⟩
  | invalidEvent slot =>
    cases hslot
    exact leavesPeers_disconnect (disconnect_reactor (FixServerReactor.toOption_eq_some.mp hstep))
  | handle slot message currentUTCDateTime =>
    cases hslot
    obtain ⟨session, hsession, hprocess⟩ := Option.bind_eq_some_iff.mp hstep
    obtain ⟨connection, -, hpeer, huses, -⟩ := h.connection_of hsession
    have hsettle := FixServerReactor.toOption_eq_some.mp hprocess
    rw [processMessage_settle hsession hpeer huses] at hsettle
    split at hsettle
    · exact leavesPeers_settle hsettle
    · cases hsettle
  | send slot message currentUTCDateTime =>
    cases hslot
    obtain ⟨session, -, rfl⟩ := Option.map_eq_some_iff.mp hstep
    exact ⟨rfl, rfl, .inl rfl⟩

/-- The effect of a step for a slot: none on the connections, or the end of the one in the slot. -/
inductive SlotEffect (server next : SocketServer) (slot : Nat) : Prop
  | keeps (sockets : next.sockets = server.sockets) (closes : next.closes = server.closes)
      (occupies : ∀ other connection,
        next.Occupies other connection ↔ server.Occupies other connection)
      (flag : InUse next.reactor.peerSocketsConnectionFlags slot ↔
        InUse server.reactor.peerSocketsConnectionFlags slot)
  | ends (connection : Nat) (socket : Socket) (occupied : server.Occupies slot connection)
      (object : server.sockets[connection]? = some socket)
      (sockets : next.sockets =
        server.sockets.set connection { socket with state := .disconnected })
      (closes : next.closes = server.closes ∨
        0 < socket.socketDescriptor ∧
          next.closes = server.closes ++ [(connection, socket.socketDescriptor)])
      (occupies : ∀ other peer,
        next.Occupies other peer ↔ server.Occupies other peer ∧ other ≠ slot)
      (flag : ¬ InUse next.reactor.peerSocketsConnectionFlags slot)

theorem slotEffect (h : server.Tracked) {label : Label} (hstep : server.step label = some next)
    (hslot : label.slot? = some slot) : SlotEffect server next slot := by
  have hleaves := leavesPeers_step h hstep hslot
  have hpeer (other : Nat) :
      next.reactor.getPeerSocket other = server.reactor.getPeerSocket other := by
    unfold FixServerReactor.getPeerSocket
    rw [hleaves.peers]
  cases step_effect h hstep with
  | keeps accepted sockets closes occupies loses =>
    refine .keeps sockets closes occupies ⟨fun hused => ?_, fun hused => ?_⟩
    · rcases hleaves.flags with hflags | hflags
      · exact hflags ▸ hused
      · obtain ⟨hlt, -⟩ := List.getElem?_eq_some_iff.mp hused
        rw [hflags, List.length_set] at hlt
        rw [hflags, InUse, List.getElem?_set_self hlt] at hused
        cases hused
    · obtain ⟨connection, hconnection⟩ :=
        (show (server.reactor.peerTable h.joined.peerTable_length).Live slot from hused).entry
      exact ((occupies slot connection).mpr ⟨hused, hconnection⟩).1
  | opens free descriptor accepted sockets closes occupies loses =>
    have hcount := hleaves.accepted
    rw [accepted] at hcount
    exact absurd hcount (Nat.succ_ne_self _)
  | ends ended connection socket occupied object accepted sockets closes occupies loses =>
    have hgone : ¬ InUse next.reactor.peerSocketsConnectionFlags ended := fun hused =>
      ((occupies ended connection).mp ⟨hused, (hpeer ended).trans occupied.2⟩).2 rfl
    have hsame : ended = slot := by
      by_contra hother
      rcases hleaves.flags with hflags | hflags
      · exact hgone (hflags ▸ occupied.1)
      · refine hgone ?_
        unfold InUse
        rw [hflags, List.getElem?_set_ne (Ne.symm hother)]
        exact occupied.1
    subst hsame
    refine .ends connection socket occupied object sockets ?_ occupies hgone
    rcases closes with ⟨-, hcloses⟩ | ⟨-, hcloses⟩
    · exact .inl hcloses
    · have hopen := h.live _ _ _ occupied object
      rw [Socket.close, if_pos hopen] at hcloses
      by_cases hpositive : socket.socketDescriptor > 0
      · rw [if_pos hpositive] at hcloses
        exact .inr ⟨hpositive, hcloses⟩
      · rw [if_neg hpositive] at hcloses
        exact .inl (hcloses.trans (List.append_nil _))

theorem SlotEffect.trans {middle : SocketServer} (first : SlotEffect server middle slot)
    (second : SlotEffect middle next slot) : SlotEffect server next slot := by
  cases first with
  | keeps sockets closes occupies flag =>
    cases second with
    | keeps sockets' closes' occupies' flag' =>
      exact .keeps (sockets'.trans sockets) (closes'.trans closes)
        (fun other connection => (occupies' other connection).trans (occupies other connection))
        (flag'.trans flag)
    | ends connection socket occupied object sockets' closes' occupies' flag' =>
      rw [sockets] at object sockets'
      rw [closes] at closes'
      refine .ends connection socket ((occupies slot connection).mp occupied) object sockets'
        closes' (fun other peer => ?_) flag'
      rw [occupies', occupies]
  | ends connection socket occupied object sockets closes occupies flag =>
    cases second with
    | keeps sockets' closes' occupies' flag' =>
      refine .ends connection socket occupied object (sockets'.trans sockets) ?_
        (fun other peer => (occupies' other peer).trans (occupies other peer)) (mt flag'.mp flag)
      rw [closes']
      exact closes
    | ends other socket' occupied' object' sockets' closes' occupies' flag' =>
      exact absurd rfl ((occupies slot other).mp occupied').2

/-- Several steps for one slot end its connection at most once. -/
theorem slotEffect_run (h : server.Tracked) {labels : List Label}
    (hslot : ∀ label ∈ labels, label.slot? = some slot)
    (hrun : run step server labels = some next) : next.Tracked ∧ SlotEffect server next slot := by
  induction labels generalizing server with
  | nil =>
    cases hrun
    exact ⟨h, .keeps rfl rfl (fun _ _ => Iff.rfl) Iff.rfl⟩
  | cons label rest ih =>
    obtain ⟨middle, hstep, hrest⟩ := Option.bind_eq_some_iff.mp hrun
    have hfirst := slotEffect h hstep (hslot label List.mem_cons_self)
    obtain ⟨htracked, hmore⟩ := ih (step_tracked h hstep)
      (fun other hother => hslot other (List.mem_cons_of_mem _ hother)) hrest
    exact ⟨htracked, hfirst.trans hmore⟩

/-- A connection that is accepted takes the next slot. -/
theorem accept_slot (h : server.Tracked) {descriptor : Int} (valid : ¬ descriptor < 0)
    (hstep : server.step (.accept descriptor) = some next) :
    next.sockets = server.sockets ++ [⟨descriptor, .connected⟩] ∧ next.closes = server.closes ∧
      ∀ slot connection, next.Occupies slot connection ↔
        server.Occupies slot connection ∨
          slot = server.nextPeer ∧ connection = server.sockets.length := by
  have haccept := FixServerReactor.toOption_eq_some.mp hstep
  unfold acceptNewConnection at haccept
  rw [if_neg valid, resetSlot_eq h, FixServerReactor.accept_tables h.joined.toInStep] at haccept
  cases haccept
  refine ⟨rfl, rfl, fun slot connection => ?_⟩
  have hadded : ((server.reactor.peerTable h.joined.peerTable_length).add
      server.reactor.acceptedConnections).Holds slot connection ↔ _ := Table.holds_add
  rw [h.objects, nextPeer, FixServerReactor.addPeer_eq h.joined.peerTable_length]
  exact hadded

end SocketServer

namespace ReceivingReactor

variable {reactor next : ReceivingReactor} {slot : Nat}

theorem processMessage_steps {message : FixMessage} {currentUTCDateTime : Bytes}
    (h : reactor.processMessage slot currentUTCDateTime message = .ok next) :
    reactor.server.step (.handle slot message currentUTCDateTime) = some next.server := by
  unfold processMessage at h
  split at h
  · rename_i session hsession
    obtain ⟨server, hserver, rfl⟩ := map_eq_ok.mp h
    rw [SocketServer.step, hsession]
    exact FixServerReactor.toOption_eq_some.mpr hserver
  · cases h

theorem checkErrors_steps {error : Int} (h : reactor.checkErrors error slot = .ok next) :
    reactor.server.step (.receiveFailed slot error) = some next.server := by
  obtain ⟨server, hserver, rfl⟩ := map_eq_ok.mp h
  exact FixServerReactor.toOption_eq_some.mpr hserver

/-- The messages of one receive are steps for their slot. -/
theorem processMessages_steps {messages : List FixMessage} {currentUTCDateTime : Bytes}
    (h : messages.foldlM (fun reactor message =>
      reactor.processMessage slot currentUTCDateTime message) reactor = .ok next) :
    ∃ labels : List SocketServer.Label, (∀ label ∈ labels, label.slot? = some slot) ∧
      run SocketServer.step reactor.server labels = some next.server := by
  induction messages generalizing reactor with
  | nil =>
    cases h
    exact ⟨[], nofun, rfl⟩
  | cons message rest ih =>
    obtain ⟨middle, hfirst, hrest⟩ := bind_eq_ok.mp h
    obtain ⟨labels, hslot, hrun⟩ := ih hrest
    refine ⟨.handle slot message currentUTCDateTime :: labels, ?_, ?_⟩
    · rintro label (_ | ⟨_, hmem⟩)
      · rfl
      · exact hslot label hmem
    · rw [run_cons, processMessage_steps hfirst]
      exact hrun

theorem handleClient_steps {arrival : Arrival}
    (h : reactor.handleClient slot arrival = .ok next) :
    ∃ labels : List SocketServer.Label, (∀ label ∈ labels, label.slot? = some slot) ∧
      run SocketServer.step reactor.server labels = some next.server := by
  have hone {before : ReceivingReactor} {label : SocketServer.Label}
      (same : before.server = reactor.server) (hslot : label.slot? = some slot)
      (hstep : before.server.step label = some next.server) :
      ∃ labels : List SocketServer.Label, (∀ label ∈ labels, label.slot? = some slot) ∧
        run SocketServer.step reactor.server labels = some next.server := by
    refine ⟨[label], fun other hother => ?_, ?_⟩
    · rw [List.mem_singleton.mp hother]
      exact hslot
    · rw [run_cons, ← same, hstep]
      rfl
  unfold handleClient at h
  split at h
  · cases h
    exact ⟨[], nofun, rfl⟩
  · split at h
    · split at h
      · cases h
      · split at h
        · exact hone rfl rfl (checkErrors_steps h)
        · exact hone rfl rfl (processMessage_steps h)
    · split at h
      · cases h
      · dsimp only at h
        split at h
        · have hchecked := checkErrors_steps h
          exact hone rfl rfl hchecked
        · have hprocessed := processMessages_steps h
          exact hprocessed

end ReceivingReactor

/-! ## The invariant -/

namespace EventLoop

variable {loop next : EventLoop} {slot : Nat}

/-- The connection has a descriptor that was never closed. -/
def Unclosed (loop : EventLoop) (fd : Int) (connection : Nat) : Prop :=
  loop.server.HasDescriptor connection fd ∧ loop.server.closesOf connection = []

/-- The interest set has the listening socket and those of the connected slots, the table leads to
these slots, and what was never closed is open. -/
structure Wired (loop : EventLoop) : Prop where
  tracked : loop.server.Tracked
  live : ∀ slot connection, loop.server.Occupies slot connection →
    loop.server.closesOf connection = []
  future : ∀ connection, loop.server.sockets.length ≤ connection →
    loop.server.closesOf connection = []
  listens : loop.listening ∈ loop.kernel.interest
  interest : ∀ fd ∈ loop.kernel.interest, fd = loop.listening ∨ ∃ slot, loop.Connected fd slot
  slots : ∀ fd slot, loop.Connected fd slot →
    fd ∈ loop.kernel.interest ∧ fd ≠ loop.listening ∧ loop.peerSocketIndexTable fd = slot
  opened : ∀ fd, fd ∈ loop.kernel.opened ↔
    fd = loop.listening ∨ ∃ connection, loop.Unclosed fd connection
  apart : ∀ fd first second, loop.Unclosed fd first → loop.Unclosed fd second → first = second
  unnamed : ∀ connection, ¬ loop.Unclosed loop.listening connection
  firstSlot : loop.peerSocketIndexTable loop.listening = 0

/-- The events that are still to be handled are for descriptors of the interest set. -/
structure Fresh (loop : EventLoop) : Prop where
  nodup : (loop.events.map EpollEvent.fd).Nodup
  interest : ∀ event ∈ loop.events, event.fd ∈ loop.kernel.interest
  valid : ∀ event ∈ loop.events, event.fd = loop.listening → event.isValidEvent = true

/-- No error is reported for the listening socket. -/
def ListensWell (loop : EventLoop) (label : LoopLabel) : Prop :=
  ∀ ready, label = .wait ready →
    ∀ event ∈ ready, event.fd = loop.listening → event.isValidEvent = true

/-- A descriptor in a slot was never closed. -/
theorem Wired.unclosed (h : loop.Wired) {fd : Int} (connected : loop.Connected fd slot) :
    ∃ connection, loop.server.Occupies slot connection ∧ loop.Unclosed fd connection := by
  obtain ⟨connection, hoccupies, hdescriptor⟩ := connected
  exact ⟨connection, hoccupies, hdescriptor, h.live slot connection hoccupies⟩

theorem Wired.interest_opened (h : loop.Wired) {fd : Int} (hmem : fd ∈ loop.kernel.interest) :
    fd ∈ loop.kernel.opened := by
  rcases h.interest fd hmem with rfl | ⟨slot, hconnected⟩
  · exact (h.opened _).mpr (.inl rfl)
  · obtain ⟨connection, -, hunclosed⟩ := h.unclosed hconnected
    exact (h.opened fd).mpr (.inr ⟨connection, hunclosed⟩)

theorem wired_initial (compId : Bytes) (sequenceNumberValidation : Bool)
    (store : FixSequenceStore) (receiveCacheSize maxPollEvents : Nat) (listening : Int) :
    (initial compId sequenceNumberValidation store receiveCacheSize maxPollEvents
      listening).Wired where
  tracked := SocketServer.initial_tracked compId sequenceNumberValidation store
  live slot connection h := by cases h.2
  future _ _ := rfl
  listens := List.mem_singleton_self _
  interest fd h := .inl (List.mem_singleton.mp h)
  slots fd slot h := by
    obtain ⟨connection, -, hdescriptor⟩ := h
    cases hdescriptor
  opened fd := by
    refine ⟨fun h => .inl (List.mem_singleton.mp h), ?_⟩
    rintro (rfl | ⟨connection, hdescriptor, -⟩)
    · exact List.mem_singleton_self _
    · cases hdescriptor
  apart fd first second h := by cases h.1
  unnamed connection h := by cases h.1
  firstSlot := rfl

/-- The connection in the slot ends: its descriptor leaves the interest set, and is closed or
stays open. -/
structure Ends (loop next : EventLoop) (slot connection : Nat) (socket : Socket) : Prop where
  occupied : loop.server.Occupies slot connection
  object : loop.server.sockets[connection]? = some socket
  sockets : next.server.sockets =
    loop.server.sockets.set connection { socket with state := .disconnected }
  occupies : ∀ other peer,
    next.server.Occupies other peer ↔ loop.server.Occupies other peer ∧ other ≠ slot
  same : next = { loop with reactor := next.reactor, kernel := next.kernel }
  interest : ∀ fd, fd ∈ next.kernel.interest ↔
    fd ∈ loop.kernel.interest ∧ fd ≠ socket.socketDescriptor
  kernel : next.server.closes = loop.server.closes ∧ next.kernel.opened = loop.kernel.opened ∨
    next.server.closes = loop.server.closes ++ [(connection, socket.socketDescriptor)] ∧
      ∀ fd, fd ∈ next.kernel.opened ↔ fd ∈ loop.kernel.opened ∧ fd ≠ socket.socketDescriptor

/-- What a step for a slot does to the loop. -/
inductive LoopEffect (loop next : EventLoop) (slot : Nat) : Prop
  | keeps (sockets : next.server.sockets = loop.server.sockets)
      (closes : next.server.closes = loop.server.closes)
      (occupies : ∀ other connection,
        next.server.Occupies other connection ↔ loop.server.Occupies other connection)
      (same : next = { loop with reactor := next.reactor })
  | ends (connection : Nat) (socket : Socket) (ends : Ends loop next slot connection socket)

theorem loopEffect {reactor : ReceivingReactor}
    (h : SocketServer.SlotEffect loop.server reactor.server slot) :
    LoopEffect loop (loop.follow slot reactor) slot := by
  unfold EventLoop.follow
  cases h with
  | keeps sockets closes occupies flag =>
    have hkernel : loop.kernel.closes loop.server reactor.server = loop.kernel := by
      rw [Kernel.closes, closes, List.drop_length]
      rfl
    have hflag : (loop.server.reactor.peerSocketsConnectionFlags.getD slot false &&
        !reactor.server.reactor.peerSocketsConnectionFlags.getD slot false) = false := by
      cases hbefore : loop.server.reactor.peerSocketsConnectionFlags.getD slot false with
      | false => rfl
      | true =>
        rw [FixServerReactor.getD_flag.mpr (flag.mpr (FixServerReactor.getD_flag.mp hbefore))]
        rfl
    dsimp only
    rw [hkernel, hflag]
    exact .keeps sockets closes occupies rfl
  | ends connection socket occupied object sockets closes occupies flag =>
    have hflag : (loop.server.reactor.peerSocketsConnectionFlags.getD slot false &&
        !reactor.server.reactor.peerSocketsConnectionFlags.getD slot false) = true := by
      rw [FixServerReactor.getD_flag.mpr occupied.1,
        Bool.eq_false_iff.mpr (mt FixServerReactor.getD_flag.mp flag)]
      rfl
    have hdescriptor : loop.server.descriptorOf slot = some socket.socketDescriptor := by
      rw [SocketServer.descriptorOf, occupied.2, Option.bind_some, object]
      rfl
    dsimp only
    rw [hflag, hdescriptor]
    rcases closes with hlost | ⟨-, hclosed⟩
    · have hkernel : loop.kernel.closes loop.server reactor.server = loop.kernel := by
        rw [Kernel.closes, hlost, List.drop_length]
        rfl
      refine .ends connection socket ⟨occupied, object, sockets, occupies, rfl, fun fd => ?_,
        .inl ⟨hlost, ?_⟩⟩
      · simp [hkernel, Kernel.removeFileDescriptor]
      · simp [hkernel, Kernel.removeFileDescriptor]
    · have hkernel : loop.kernel.closes loop.server reactor.server =
          loop.kernel.close socket.socketDescriptor := by
        rw [Kernel.closes, hclosed, List.drop_left]
        rfl
      refine .ends connection socket ⟨occupied, object, sockets, occupies, rfl, fun fd => ?_,
        .inr ⟨hclosed, fun fd => ?_⟩⟩
      · simp [hkernel, Kernel.removeFileDescriptor, Kernel.close]
      · simp [hkernel, Kernel.removeFileDescriptor, Kernel.close]

/-- A step that leaves the sockets and the kernel. -/
theorem Wired.keeps (h : loop.Wired) (tracked : next.server.Tracked)
    (sockets : next.server.sockets = loop.server.sockets)
    (closes : next.server.closes = loop.server.closes)
    (occupies : ∀ other connection,
      next.server.Occupies other connection ↔ loop.server.Occupies other connection)
    (same : next.listening = loop.listening ∧ next.kernel = loop.kernel ∧
      next.peerSocketIndexTable = loop.peerSocketIndexTable) : next.Wired := by
  obtain ⟨hlistening, hkernel, htable⟩ := same
  have hdescriptor (connection : Nat) (fd : Int) :
      next.server.HasDescriptor connection fd ↔ loop.server.HasDescriptor connection fd := by
    unfold SocketServer.HasDescriptor
    rw [sockets]
  have hconnected (fd : Int) (slot : Nat) : next.Connected fd slot ↔ loop.Connected fd slot := by
    simp only [Connected, occupies, hdescriptor]
  have hunclosed (fd : Int) (connection : Nat) :
      next.Unclosed fd connection ↔ loop.Unclosed fd connection := by
    rw [Unclosed, Unclosed, hdescriptor, SocketServer.closesOf_congr closes]
  exact
    { tracked := tracked
      live := fun slot connection hoccupies => by
        rw [SocketServer.closesOf_congr closes]
        exact h.live slot connection ((occupies slot connection).mp hoccupies)
      future := fun connection hfuture => by
        rw [SocketServer.closesOf_congr closes]
        exact h.future connection (sockets ▸ hfuture)
      listens := by
        rw [hlistening, hkernel]
        exact h.listens
      interest := by simpa only [hkernel, hlistening, hconnected] using h.interest
      slots := by simpa only [hkernel, hlistening, htable, hconnected] using h.slots
      opened := by simpa only [hkernel, hlistening, hunclosed] using h.opened
      apart := by simpa only [hunclosed] using h.apart
      unnamed := by simpa only [hlistening, hunclosed] using h.unnamed
      firstSlot := by
        rw [htable, hlistening]
        exact h.firstSlot }

/-! ### A connection ends -/

section Ends

variable {connection : Nat} {socket : Socket}

theorem Ends.listening (ends : Ends loop next slot connection socket) :
    next.listening = loop.listening := by rw [ends.same]

theorem Ends.table (ends : Ends loop next slot connection socket) :
    next.peerSocketIndexTable = loop.peerSocketIndexTable := by rw [ends.same]

/-- The connection keeps its descriptor, and so do the others. -/
theorem Ends.hasDescriptor_iff (ends : Ends loop next slot connection socket) (other : Nat)
    (fd : Int) : next.server.HasDescriptor other fd ↔ loop.server.HasDescriptor other fd := by
  unfold SocketServer.HasDescriptor
  rw [ends.sockets]
  by_cases hother : other = connection
  · subst hother
    obtain ⟨hlt, -⟩ := List.getElem?_eq_some_iff.mp ends.object
    rw [List.getElem?_set_self hlt, ends.object]
    rfl
  · rw [List.getElem?_set_ne (Ne.symm hother)]

theorem Ends.hasDescriptor (ends : Ends loop next slot connection socket) :
    loop.server.HasDescriptor connection socket.socketDescriptor := by
  rw [SocketServer.HasDescriptor, ends.object]
  rfl

theorem Ends.connected (ends : Ends loop next slot connection socket) :
    loop.Connected socket.socketDescriptor slot := ⟨connection, ends.occupied, ends.hasDescriptor⟩

theorem Ends.connected_iff (ends : Ends loop next slot connection socket) (fd : Int)
    (other : Nat) : next.Connected fd other ↔ loop.Connected fd other ∧ other ≠ slot := by
  simp only [Connected, ends.occupies, ends.hasDescriptor_iff]
  constructor
  · rintro ⟨peer, ⟨hoccupies, hother⟩, hfd⟩
    exact ⟨⟨peer, hoccupies, hfd⟩, hother⟩
  · rintro ⟨⟨peer, hoccupies, hfd⟩, hother⟩
    exact ⟨peer, ⟨hoccupies, hother⟩, hfd⟩

/-- A call of `::close` for the connection is counted for no other one. -/
theorem closesOf_closed
    (closed : next.server.closes = loop.server.closes ++ [(connection, socket.socketDescriptor)])
    (peer : Nat) : next.server.closesOf peer =
      loop.server.closesOf peer ++ if peer = connection then [socket.socketDescriptor] else [] := by
  have hadded : next.server.closes = loop.server.closes ++
      [socket.socketDescriptor].map fun descriptor => (connection, descriptor) := closed
  exact SocketServer.closesOf_append peer hadded rfl

theorem Ends.closesOf_cases (ends : Ends loop next slot connection socket) (peer : Nat) :
    next.server.closesOf peer = loop.server.closesOf peer ∨
      peer = connection ∧ next.server.closesOf peer =
        loop.server.closesOf peer ++ [socket.socketDescriptor] := by
  rcases ends.kernel with ⟨hsame, -⟩ | ⟨hclosed, -⟩
  · exact .inl (SocketServer.closesOf_congr hsame peer)
  · rw [closesOf_closed hclosed]
    by_cases hpeer : peer = connection
    · exact .inr ⟨hpeer, by rw [if_pos hpeer]⟩
    · exact .inl (by rw [if_neg hpeer, List.append_nil])

theorem Ends.unclosed (ends : Ends loop next slot connection socket) {fd : Int} {peer : Nat}
    (unclosed : next.Unclosed fd peer) : loop.Unclosed fd peer := by
  refine ⟨(ends.hasDescriptor_iff peer fd).mp unclosed.1, ?_⟩
  rcases ends.closesOf_cases peer with hsame | ⟨-, hmore⟩
  · rw [← hsame]
    exact unclosed.2
  · exact absurd (hmore.symm.trans unclosed.2) (List.append_ne_nil_of_right_ne_nil _ nofun)

theorem Wired.ends_live (h : loop.Wired) (ends : Ends loop next slot connection socket)
    {other peer : Nat} (occupies : next.server.Occupies other peer) :
    next.server.closesOf peer = [] := by
  obtain ⟨hbefore, hother⟩ := (ends.occupies other peer).mp occupies
  rcases ends.closesOf_cases peer with hsame | ⟨rfl, -⟩
  · rw [hsame]
    exact h.live other peer hbefore
  · exact absurd (h.tracked.joined.distinct other slot peer hbefore.2 ends.occupied.2) hother

theorem Wired.ends_future (h : loop.Wired) (ends : Ends loop next slot connection socket)
    {peer : Nat} (future : next.server.sockets.length ≤ peer) :
    next.server.closesOf peer = [] := by
  rw [ends.sockets, List.length_set] at future
  rcases ends.closesOf_cases peer with hsame | ⟨rfl, -⟩
  · rw [hsame]
    exact h.future peer future
  · obtain ⟨hlt, -⟩ := List.getElem?_eq_some_iff.mp ends.object
    exact absurd hlt (Nat.not_lt.mpr future)

theorem Wired.ends_interest (h : loop.Wired) (ends : Ends loop next slot connection socket)
    {fd : Int} (mem : fd ∈ next.kernel.interest) :
    fd = next.listening ∨ ∃ other, next.Connected fd other := by
  obtain ⟨hbefore, hfd⟩ := (ends.interest fd).mp mem
  rw [ends.listening]
  refine (h.interest fd hbefore).imp_right ?_
  rintro ⟨other, hother⟩
  refine ⟨other, (ends.connected_iff fd other).mpr ⟨hother, ?_⟩⟩
  rintro rfl
  obtain ⟨peer, hoccupies, hdescriptor⟩ := hother
  obtain rfl := Option.some.inj (hoccupies.2.symm.trans ends.occupied.2)
  exact hfd (Option.some.inj (hdescriptor.symm.trans ends.hasDescriptor))

theorem Wired.ends_slots (h : loop.Wired) (ends : Ends loop next slot connection socket)
    {fd : Int} {other : Nat} (connected : next.Connected fd other) :
    fd ∈ next.kernel.interest ∧ fd ≠ next.listening ∧ next.peerSocketIndexTable fd = other := by
  obtain ⟨hbefore, hother⟩ := (ends.connected_iff fd other).mp connected
  obtain ⟨hmem, hfd, htarget⟩ := h.slots fd other hbefore
  obtain ⟨-, -, hslot⟩ := h.slots _ _ ends.connected
  rw [ends.listening, ends.table]
  refine ⟨(ends.interest fd).mpr ⟨hmem, ?_⟩, hfd, htarget⟩
  rintro rfl
  exact hother (htarget.symm.trans hslot)

theorem Wired.ends_opened (h : loop.Wired) (ends : Ends loop next slot connection socket)
    (fd : Int) : fd ∈ next.kernel.opened ↔
      fd = next.listening ∨ ∃ peer, next.Unclosed fd peer := by
  rw [ends.listening]
  rcases ends.kernel with ⟨hsame, hkept⟩ | ⟨hclosed, hdropped⟩
  · rw [hkept, h.opened]
    simp only [Unclosed, ends.hasDescriptor_iff, SocketServer.closesOf_congr hsame]
  · -- Only the connection that ends had this descriptor without a close.
    have hgone : next.server.closesOf connection ≠ [] := by
      rw [closesOf_closed hclosed, if_pos rfl]
      exact List.append_ne_nil_of_right_ne_nil _ nofun
    rw [hdropped, h.opened]
    constructor
    · rintro ⟨rfl | ⟨peer, hpeer⟩, hother⟩
      · exact .inl rfl
      · refine .inr ⟨peer, (ends.hasDescriptor_iff peer fd).mpr hpeer.1, ?_⟩
        rcases ends.closesOf_cases peer with hsame | ⟨rfl, -⟩
        · rw [hsame]
          exact hpeer.2
        · exact absurd (Option.some.inj (hpeer.1.symm.trans ends.hasDescriptor)) hother
    · rintro (rfl | ⟨peer, hpeer⟩)
      · exact ⟨.inl rfl, (h.slots _ _ ends.connected).2.1.symm⟩
      · refine ⟨.inr ⟨peer, ends.unclosed hpeer⟩, ?_⟩
        rintro rfl
        obtain rfl := h.apart _ peer connection (ends.unclosed hpeer)
          ⟨ends.hasDescriptor, h.live slot connection ends.occupied⟩
        exact hgone hpeer.2

theorem Wired.ends (h : loop.Wired) (ends : Ends loop next slot connection socket)
    (tracked : next.server.Tracked) : next.Wired where
  tracked := tracked
  live := fun _ _ hoccupies => h.ends_live ends hoccupies
  future := fun _ hfuture => h.ends_future ends hfuture
  listens := by
    rw [ends.listening]
    exact (ends.interest _).mpr ⟨h.listens, (h.slots _ _ ends.connected).2.1.symm⟩
  interest := fun _ hmem => h.ends_interest ends hmem
  slots := fun _ _ hconnected => h.ends_slots ends hconnected
  opened := h.ends_opened ends
  apart := fun fd first second hfirst hsecond =>
    h.apart fd first second (ends.unclosed hfirst) (ends.unclosed hsecond)
  unnamed := fun peer hnext => h.unnamed peer (ends.listening ▸ ends.unclosed hnext)
  firstSlot := by
    rw [ends.table, ends.listening]
    exact h.firstSlot

end Ends

/-! ### A connection is accepted -/

/-- The loop behind a connection that has been accepted. -/
structure Accepts (loop next : EventLoop) (descriptor : Int) : Prop where
  sockets : next.server.sockets = loop.server.sockets ++ [⟨descriptor, .connected⟩]
  closes : next.server.closes = loop.server.closes
  occupies : ∀ slot connection, next.server.Occupies slot connection ↔
    loop.server.Occupies slot connection ∨
      slot = loop.server.nextPeer ∧ connection = loop.server.sockets.length
  kernel : next.kernel = ⟨loop.kernel.opened ++ [descriptor], loop.kernel.interest ++ [descriptor]⟩
  same : next.listening = loop.listening ∧ next.events = loop.events
  table : next.peerSocketIndexTable =
    Function.update loop.peerSocketIndexTable descriptor loop.server.nextPeer

theorem Wired.acceptNewConnection (h : loop.Wired) {descriptor : Int} {buffer : Nat → UInt8}
    (hnext : loop.acceptNewConnection descriptor buffer = some next) :
    next = loop ∨ descriptor ∉ loop.kernel.opened ∧ Accepts loop next descriptor ∧
      next.server.Tracked := by
  unfold EventLoop.acceptNewConnection at hnext
  split at hnext
  · exact .inl (Option.some.inj hnext).symm
  · rename_i hvalid
    obtain ⟨hfree, haccept⟩ := Option.ite_none_left_eq_some.mp hnext
    obtain ⟨server, hstep, rfl⟩ := Option.map_eq_some_iff.mp haccept
    obtain ⟨hsockets, hcloses, hoccupies⟩ := SocketServer.accept_slot h.tracked hvalid hstep
    refine .inr ⟨hfree, ⟨hsockets, hcloses, hoccupies, ?_, ⟨rfl, rfl⟩, rfl⟩,
      SocketServer.step_tracked h.tracked hstep⟩
    have hnew : descriptor ∉ loop.kernel.interest := mt h.interest_opened hfree
    dsimp only
    rw [Kernel.closes, hcloses, List.drop_length, List.foldl_nil, Kernel.addFileDescriptor,
      if_pos ⟨List.mem_append_right _ (List.mem_singleton_self _), hnew⟩]

section Accepts

variable {descriptor : Int}

/-- The new object is behind the others, and has the descriptor. -/
theorem Accepts.hasDescriptor_iff (accepts : Accepts loop next descriptor) (connection : Nat)
    (fd : Int) : next.server.HasDescriptor connection fd ↔
      loop.server.HasDescriptor connection fd ∨
        connection = loop.server.sockets.length ∧ fd = descriptor := by
  unfold SocketServer.HasDescriptor
  rw [accepts.sockets]
  by_cases hnew : connection = loop.server.sockets.length
  · subst hnew
    rw [List.getElem?_concat_length, List.getElem?_eq_none (Nat.le_refl _)]
    simp [eq_comm]
  · rw [getElem?_append_other hnew]
    simp [hnew]

theorem not_hasDescriptor_length (fd : Int) :
    ¬ loop.server.HasDescriptor loop.server.sockets.length fd := by
  unfold SocketServer.HasDescriptor
  rw [List.getElem?_eq_none (Nat.le_refl _)]
  exact nofun

theorem Wired.connected_accepts (h : loop.Wired) (accepts : Accepts loop next descriptor)
    (fd : Int) (slot : Nat) : next.Connected fd slot ↔
      loop.Connected fd slot ∨ slot = loop.server.nextPeer ∧ fd = descriptor := by
  have hold {connection : Nat} (hoccupies : loop.server.Occupies slot connection) :
      connection < loop.server.sockets.length := by
    rw [h.tracked.objects]
    exact h.tracked.joined.accepted connection (List.mem_of_getElem? hoccupies.2)
  simp only [Connected, accepts.occupies, accepts.hasDescriptor_iff]
  constructor
  · rintro ⟨connection, hbefore | ⟨hslot, rfl⟩, hfd | ⟨hconnection, hfd⟩⟩
    · exact .inl ⟨connection, hbefore, hfd⟩
    · exact absurd (hold hbefore) (by rw [hconnection]; exact Nat.lt_irrefl _)
    · exact absurd hfd (not_hasDescriptor_length fd)
    · exact .inr ⟨hslot, hfd⟩
  · rintro (⟨connection, hbefore, hfd⟩ | ⟨hslot, hfd⟩)
    · exact ⟨connection, .inl hbefore, .inl hfd⟩
    · exact ⟨_, .inr ⟨hslot, rfl⟩, .inr ⟨rfl, hfd⟩⟩

theorem Wired.unclosed_accepts (h : loop.Wired) (accepts : Accepts loop next descriptor)
    (fd : Int) (connection : Nat) : next.Unclosed fd connection ↔
      loop.Unclosed fd connection ∨
        connection = loop.server.sockets.length ∧ fd = descriptor := by
  rw [Unclosed, Unclosed, accepts.hasDescriptor_iff, SocketServer.closesOf_congr accepts.closes]
  constructor
  · rintro ⟨hfd | hnew, hcloses⟩
    · exact .inl ⟨hfd, hcloses⟩
    · exact .inr hnew
  · rintro (⟨hfd, hcloses⟩ | ⟨rfl, rfl⟩)
    · exact ⟨.inl hfd, hcloses⟩
    · exact ⟨.inr ⟨rfl, rfl⟩, h.future _ (Nat.le_refl _)⟩

theorem Accepts.interest_iff (accepts : Accepts loop next descriptor) (fd : Int) :
    fd ∈ next.kernel.interest ↔ fd ∈ loop.kernel.interest ∨ fd = descriptor := by
  rw [accepts.kernel, List.mem_append, List.mem_singleton]

/-- A free descriptor is none that epoll watches. -/
theorem Wired.ne_of_interest (h : loop.Wired) (free : descriptor ∉ loop.kernel.opened) {fd : Int}
    (mem : fd ∈ loop.kernel.interest) : fd ≠ descriptor := by
  rintro rfl
  exact free (h.interest_opened mem)

theorem Wired.accepts_live (h : loop.Wired) (accepts : Accepts loop next descriptor)
    {connection : Nat} (occupies : next.server.Occupies slot connection) :
    next.server.closesOf connection = [] := by
  rw [SocketServer.closesOf_congr accepts.closes]
  rcases (accepts.occupies slot connection).mp occupies with hbefore | ⟨-, rfl⟩
  · exact h.live slot connection hbefore
  · exact h.future _ (Nat.le_refl _)

theorem Wired.accepts_future (h : loop.Wired) (accepts : Accepts loop next descriptor)
    {connection : Nat} (future : next.server.sockets.length ≤ connection) :
    next.server.closesOf connection = [] := by
  rw [accepts.sockets, List.length_append] at future
  rw [SocketServer.closesOf_congr accepts.closes]
  exact h.future connection (Nat.le_of_add_right_le future)

theorem Wired.accepts_interest (h : loop.Wired) (accepts : Accepts loop next descriptor)
    {fd : Int} (mem : fd ∈ next.kernel.interest) :
    fd = next.listening ∨ ∃ slot, next.Connected fd slot := by
  rw [accepts.same.1]
  rcases (accepts.interest_iff fd).mp mem with hbefore | rfl
  · refine (h.interest fd hbefore).imp_right ?_
    rintro ⟨slot, hslot⟩
    exact ⟨slot, (h.connected_accepts accepts fd slot).mpr (.inl hslot)⟩
  · exact .inr ⟨_, (h.connected_accepts accepts _ _).mpr (.inr ⟨rfl, rfl⟩)⟩

theorem Wired.accepts_slots (h : loop.Wired) (free : descriptor ∉ loop.kernel.opened)
    (accepts : Accepts loop next descriptor) {fd : Int} (connected : next.Connected fd slot) :
    fd ∈ next.kernel.interest ∧ fd ≠ next.listening ∧ next.peerSocketIndexTable fd = slot := by
  rw [accepts.same.1, accepts.table]
  rcases (h.connected_accepts accepts fd slot).mp connected with hbefore | ⟨rfl, rfl⟩
  · obtain ⟨hinterest, hfd, htarget⟩ := h.slots fd slot hbefore
    refine ⟨(accepts.interest_iff fd).mpr (.inl hinterest), hfd, ?_⟩
    rw [Function.update_of_ne (h.ne_of_interest free hinterest)]
    exact htarget
  · exact ⟨(accepts.interest_iff _).mpr (.inr rfl), (h.ne_of_interest free h.listens).symm,
      Function.update_self _ _ _⟩

theorem Wired.accepts_opened (h : loop.Wired) (accepts : Accepts loop next descriptor) (fd : Int) :
    fd ∈ next.kernel.opened ↔ fd = next.listening ∨ ∃ connection, next.Unclosed fd connection := by
  rw [accepts.kernel, List.mem_append, List.mem_singleton, h.opened, accepts.same.1]
  simp only [h.unclosed_accepts accepts]
  constructor
  · rintro ((rfl | ⟨connection, hbefore⟩) | rfl)
    · exact .inl rfl
    · exact .inr ⟨connection, .inl hbefore⟩
    · exact .inr ⟨_, .inr ⟨rfl, rfl⟩⟩
  · rintro (rfl | ⟨connection, hbefore | ⟨-, rfl⟩⟩)
    · exact .inl (.inl rfl)
    · exact .inl (.inr ⟨connection, hbefore⟩)
    · exact .inr rfl

theorem Wired.accepts_apart (h : loop.Wired) (free : descriptor ∉ loop.kernel.opened)
    (accepts : Accepts loop next descriptor) {fd : Int} {first second : Nat}
    (unclosed : next.Unclosed fd first) (other : next.Unclosed fd second) : first = second := by
  have hclash {connection : Nat} (hbefore : loop.Unclosed descriptor connection) : False :=
    free ((h.opened descriptor).mpr (.inr ⟨connection, hbefore⟩))
  rcases (h.unclosed_accepts accepts fd first).mp unclosed with hbefore | ⟨rfl, rfl⟩
  · rcases (h.unclosed_accepts accepts fd second).mp other with hbefore' | ⟨rfl, rfl⟩
    · exact h.apart fd first second hbefore hbefore'
    · exact (hclash hbefore).elim
  · rcases (h.unclosed_accepts accepts fd second).mp other with hbefore | ⟨rfl, -⟩
    · exact (hclash hbefore).elim
    · rfl

theorem Wired.accepts_unnamed (h : loop.Wired) (free : descriptor ∉ loop.kernel.opened)
    (accepts : Accepts loop next descriptor) (connection : Nat) :
    ¬ next.Unclosed next.listening connection := by
  rw [accepts.same.1, h.unclosed_accepts accepts]
  rintro (hbefore | ⟨-, hsame⟩)
  · exact h.unnamed connection hbefore
  · exact h.ne_of_interest free h.listens hsame

theorem Wired.accepts (h : loop.Wired) (free : descriptor ∉ loop.kernel.opened)
    (accepts : Accepts loop next descriptor) (tracked : next.server.Tracked) : next.Wired where
  tracked := tracked
  live := fun _ _ hoccupies => h.accepts_live accepts hoccupies
  future := fun _ hfuture => h.accepts_future accepts hfuture
  listens := by
    rw [accepts.same.1]
    exact (accepts.interest_iff _).mpr (.inl h.listens)
  interest := fun _ hmem => h.accepts_interest accepts hmem
  slots := fun _ _ hconnected => h.accepts_slots free accepts hconnected
  opened := h.accepts_opened accepts
  apart := fun _ _ _ hfirst hsecond => h.accepts_apart free accepts hfirst hsecond
  unnamed := h.accepts_unnamed free accepts
  firstSlot := by
    rw [accepts.table, accepts.same.1, Function.update_of_ne (h.ne_of_interest free h.listens)]
    exact h.firstSlot

end Accepts

/-- What handling an event for a slot leaves, and what it may take away. -/
structure Serves (loop next : EventLoop) (slot : Nat) : Prop where
  wired : next.Wired
  same : next.listening = loop.listening ∧ next.events = loop.events ∧
    next.peerSocketIndexTable = loop.peerSocketIndexTable
  connected : ∀ fd other, next.Connected fd other → loop.Connected fd other
  others : ∀ fd other, other ≠ slot → loop.Connected fd other → next.Connected fd other
  interest : ∀ fd ∈ loop.kernel.interest, fd ∈ next.kernel.interest ∨ loop.Connected fd slot

theorem Wired.follow (h : loop.Wired) {reactor : ReceivingReactor}
    (tracked : reactor.server.Tracked)
    (heffect : SocketServer.SlotEffect loop.server reactor.server slot) :
    Serves loop (loop.follow slot reactor) slot := by
  have htracked : (loop.follow slot reactor).server.Tracked := tracked
  cases loopEffect heffect with
  | keeps sockets closes occupies same =>
    have hkernel : (loop.follow slot reactor).kernel = loop.kernel := by rw [same]
    have hconnected (fd : Int) (other : Nat) :
        (loop.follow slot reactor).Connected fd other ↔ loop.Connected fd other := by
      simp only [Connected, occupies, SocketServer.HasDescriptor, sockets]
    exact
      { wired := h.keeps htracked sockets closes occupies ⟨rfl, hkernel, rfl⟩
        same := ⟨rfl, rfl, rfl⟩
        connected := fun fd other => (hconnected fd other).mp
        others := fun fd other _ => (hconnected fd other).mpr
        interest := fun fd hmem => .inl (hkernel ▸ hmem) }
  | ends connection socket ends =>
    exact
      { wired := h.ends ends htracked
        same := ⟨rfl, rfl, rfl⟩
        connected := fun fd other hconnected => ((ends.connected_iff fd other).mp hconnected).1
        others := fun fd other hother hconnected =>
          (ends.connected_iff fd other).mpr ⟨hconnected, hother⟩
        interest := by
          intro fd hmem
          by_cases hfd : fd = socket.socketDescriptor
          · rw [hfd]
            exact .inr ends.connected
          · exact .inl ((ends.interest fd).mpr ⟨hmem, hfd⟩) }

theorem Wired.handleClient (h : loop.Wired) {arrival : Arrival} {reactor : ReceivingReactor}
    (hhandle : loop.reactor.handleClient slot arrival = .ok reactor) :
    Serves loop (loop.follow slot reactor) slot := by
  obtain ⟨labels, hslot, hrun⟩ := ReceivingReactor.handleClient_steps hhandle
  obtain ⟨htracked, heffect⟩ := SocketServer.slotEffect_run h.tracked hslot hrun
  exact h.follow htracked heffect

theorem Wired.invalidEvent (h : loop.Wired) {server : SocketServer}
    (hstep : loop.server.step (.invalidEvent slot) = some server) :
    Serves loop (loop.follow slot { loop.reactor with server := server }) slot :=
  h.follow (SocketServer.step_tracked h.tracked hstep)
    (SocketServer.slotEffect h.tracked hstep rfl)

/-- An event is for its slot, or a connection is accepted. -/
theorem Wired.handleEvent (h : loop.Wired) {event : EpollEvent} {input : Input}
    (hhandle : loop.handleEvent event input = some next) :
    (event.fd = loop.listening → event.isValidEvent = false) ∧
        Serves loop next (loop.peerSocketIndexTable event.fd) ∨
      event.fd = loop.listening ∧
        ∃ descriptor buffer, loop.acceptNewConnection descriptor buffer = some next := by
  unfold EventLoop.handleEvent at hhandle
  dsimp only at hhandle
  split at hhandle
  · split at hhandle
    · rename_i hlistening
      cases input with
      | accepts descriptor buffer => exact .inr ⟨hlistening, descriptor, buffer, hhandle⟩
      | receives arrival => cases hhandle
    · rename_i hother
      cases input with
      | accepts descriptor buffer => cases hhandle
      | receives arrival =>
        obtain ⟨reactor, hreactor, rfl⟩ := Option.map_eq_some_iff.mp hhandle
        refine .inl ⟨fun hlistening => absurd hlistening hother, ?_⟩
        exact h.handleClient (FixServerReactor.toOption_eq_some.mp hreactor)
  · rename_i hinvalid
    obtain ⟨server, hstep, rfl⟩ := Option.map_eq_some_iff.mp hhandle
    exact .inl ⟨fun _ => Bool.eq_false_iff.mpr hinvalid, h.invalidEvent hstep⟩

theorem Wired.with_events (h : loop.Wired) (events : List EpollEvent) :
    Wired { loop with events := events } :=
  h.keeps h.tracked rfl rfl (fun _ _ => Iff.rfl) ⟨rfl, rfl, rfl⟩

theorem Wired.step (h : loop.Wired) {label : LoopLabel} (hstep : loop.step label = some next) :
    next.Wired := by
  cases label with
  | wait ready =>
    obtain ⟨-, hnext⟩ := Option.ite_none_right_eq_some.mp hstep
    cases hnext
    exact h.with_events ready
  | event input =>
    obtain ⟨event, -, hhandle⟩ := Option.bind_eq_some_iff.mp hstep
    have hrest := h.with_events loop.events.tail
    rcases hrest.handleEvent hhandle with ⟨-, hserves⟩ | ⟨-, descriptor, buffer, haccept⟩
    · exact hserves.wired
    · rcases hrest.acceptNewConnection haccept with rfl | ⟨hfree, haccepts, htracked⟩
      · exact hrest
      · exact hrest.accepts hfree haccepts htracked
  | send slot message currentUTCDateTime =>
    obtain ⟨server, hsend, rfl⟩ := Option.map_eq_some_iff.mp hstep
    have htracked := SocketServer.step_tracked h.tracked hsend
    obtain ⟨session, -, rfl⟩ := Option.map_eq_some_iff.mp hsend
    exact h.keeps htracked rfl rfl (fun _ _ => Iff.rfl) ⟨rfl, rfl, rfl⟩

theorem wired_run {compId : Bytes} {sequenceNumberValidation : Bool} {store : FixSequenceStore}
    {receiveCacheSize maxPollEvents : Nat} {listening : Int} {labels : List LoopLabel}
    (h : run EventLoop.step (initial compId sequenceNumberValidation store receiveCacheSize
      maxPollEvents listening) labels = some loop) : loop.Wired :=
  run_invariant Wired
    (wired_initial compId sequenceNumberValidation store receiveCacheSize maxPollEvents listening)
    (fun _ _ _ hwired hstep => hwired.step hstep) h

/-- In every state of the loop, epoll watches the listening socket and those of the connected
slots, each of which the table leads to; and open are the listening socket and the descriptors
that were never closed, those of lost connections among them, no two of which are the same. -/
theorem interest_follows_slots (compId : Bytes) (sequenceNumberValidation : Bool)
    (store : FixSequenceStore) (receiveCacheSize maxPollEvents : Nat) (listening : Int)
    (labels : List LoopLabel) (loop : EventLoop)
    (h : run EventLoop.step (initial compId sequenceNumberValidation store receiveCacheSize
      maxPollEvents listening) labels = some loop) :
    (∀ fd, fd ∈ loop.kernel.interest ↔ fd = loop.listening ∨ ∃ slot, loop.Connected fd slot) ∧
      (∀ fd slot, loop.Connected fd slot →
        fd ≠ loop.listening ∧ loop.peerSocketIndexTable fd = slot) ∧
      (∀ fd, fd ∈ loop.kernel.opened ↔
        fd = loop.listening ∨ ∃ connection, loop.Unclosed fd connection) ∧
      ∀ fd first second, loop.Unclosed fd first → loop.Unclosed fd second → first = second := by
  have hwired := wired_run h
  refine ⟨fun fd => ⟨hwired.interest fd, ?_⟩, fun fd slot hslot => (hwired.slots fd slot hslot).2,
    hwired.opened, hwired.apart⟩
  rintro (rfl | ⟨slot, hslot⟩)
  · exact hwired.listens
  · exact (hwired.slots fd slot hslot).1

/-! ## The events of a batch -/

theorem connected_unique {fd other : Int} (hfd : loop.Connected fd slot)
    (hother : loop.Connected other slot) : fd = other := by
  obtain ⟨connection, hoccupies, hdescriptor⟩ := hfd
  obtain ⟨connection', hoccupies', hdescriptor'⟩ := hother
  obtain rfl := Option.some.inj (hoccupies.2.symm.trans hoccupies'.2)
  exact Option.some.inj (hdescriptor.symm.trans hdescriptor')

/-- An event leads to the slot of its descriptor. -/
theorem Wired.event_slot (h : loop.Wired) {fd : Int} (hmem : fd ∈ loop.kernel.interest)
    (hother : fd ≠ loop.listening) : loop.Connected fd (loop.peerSocketIndexTable fd) := by
  obtain ⟨slot, hslot⟩ := (h.interest fd hmem).resolve_left hother
  rw [(h.slots fd slot hslot).2.2]
  exact hslot

/-- Handling an event makes no other event of the batch stale. -/
theorem Fresh.handleEvent (fresh : loop.Fresh) (h : loop.Wired) {event : EpollEvent}
    {rest : List EpollEvent} {input : Input} (events : loop.events = event :: rest)
    (hhandle : ({ loop with events := rest } : EventLoop).handleEvent event input = some next) :
    next.Fresh := by
  have hrest := h.with_events rest
  have hnodup := fresh.nodup
  rw [events, List.map_cons, List.nodup_cons] at hnodup
  have hmem {other : EpollEvent} (hother : other ∈ rest) : other ∈ loop.events := by
    rw [events]
    exact List.mem_cons_of_mem _ hother
  have hevent : event ∈ loop.events := by
    rw [events]
    exact List.mem_cons_self
  rcases hrest.handleEvent hhandle with ⟨hinvalid, hserves⟩ | ⟨-, descriptor, buffer, haccept⟩
  · obtain ⟨hlistening, hevents, -⟩ := hserves.same
    have hclient : event.fd ≠ loop.listening := fun hsame =>
      absurd ((hinvalid hsame).symm.trans (fresh.valid event hevent hsame)) Bool.false_ne_true
    have hslot := h.event_slot (fresh.interest event hevent) hclient
    refine ⟨by rw [hevents]; exact hnodup.2, fun other hother => ?_, fun other hother => ?_⟩
    · rw [hevents] at hother
      refine (hserves.interest other.fd (fresh.interest other (hmem hother))).resolve_right
        fun hsame => ?_
      have hfd : event.fd = other.fd := connected_unique hslot hsame
      exact hnodup.1 (hfd ▸ List.mem_map_of_mem hother)
    · rw [hevents] at hother
      rw [hlistening]
      exact fresh.valid other (hmem hother)
  · rcases hrest.acceptNewConnection haccept with rfl | ⟨-, haccepts, -⟩
    · exact ⟨hnodup.2, fun other hother => fresh.interest other (hmem hother),
        fun other hother => fresh.valid other (hmem hother)⟩
    · obtain ⟨hlistening, hevents⟩ := haccepts.same
      refine ⟨by rw [hevents]; exact hnodup.2, fun other hother => ?_, fun other hother => ?_⟩
      · rw [hevents] at hother
        rw [haccepts.kernel]
        exact List.mem_append_left _ (fresh.interest other (hmem hother))
      · rw [hevents] at hother
        rw [hlistening]
        exact fresh.valid other (hmem hother)

theorem step_event {event : EpollEvent} {rest : List EpollEvent}
    (events : loop.events = event :: rest) (input : Input) :
    loop.step (.event input) =
      ({ loop with events := rest } : EventLoop).handleEvent event input := by
  simp only [EventLoop.step, events, List.head?_cons, Option.bind_some, List.tail_cons]

theorem Fresh.step (h : loop.Wired) (fresh : loop.Fresh) {label : LoopLabel}
    (listens : loop.ListensWell label) (hstep : loop.step label = some next) : next.Fresh := by
  cases label with
  | wait ready =>
    obtain ⟨⟨-, -, hnodup, hinterest⟩, hnext⟩ := Option.ite_none_right_eq_some.mp hstep
    cases hnext
    exact ⟨hnodup, hinterest, listens ready rfl⟩
  | event input =>
    cases hevents : loop.events with
    | nil =>
      rw [EventLoop.step, hevents] at hstep
      cases hstep
    | cons event rest =>
      rw [step_event hevents] at hstep
      exact fresh.handleEvent h hevents hstep
  | send slot message currentUTCDateTime =>
    obtain ⟨server, -, rfl⟩ := Option.map_eq_some_iff.mp hstep
    exact ⟨fresh.nodup, fresh.interest, fresh.valid⟩

/-- What handling the next event of the batch does, where it is one of a client. -/
structure Handles (loop : EventLoop) (event : EpollEvent) : Prop where
  connected : loop.Connected event.fd (loop.peerSocketIndexTable event.fd)
  others : ∀ input next, loop.step (.event input) = some next →
    ∀ fd other, other ≠ loop.peerSocketIndexTable event.fd →
      (next.Connected fd other ↔ loop.Connected fd other)
  invalid : event.isValidEvent = false → ∀ input, ∃ next,
    loop.step (.event input) = some next ∧ event.fd ∉ next.kernel.interest

/-- An invalid event ends the connection of its slot. -/
theorem Wired.drops (h : loop.Wired) {fd : Int} (connected : loop.Connected fd slot) :
    ∃ server, loop.server.step (.invalidEvent slot) = some server ∧
      fd ∉ (loop.follow slot { loop.reactor with server := server }).kernel.interest := by
  obtain ⟨connection, hoccupies, hdescriptor⟩ := connected
  have hused : InUse loop.server.reactor.sessionFlags slot :=
    h.tracked.joined.flags ▸ hoccupies.1
  obtain ⟨reactor, hclose, -⟩ := FixServerReactor.disconnect_keeps h.tracked.joined hused
  obtain ⟨server, hserver⟩ : ∃ server, loop.server.step (.invalidEvent slot) = some server := by
    change ∃ server, (loop.server.onClientDisconnected slot).toOption = some server
    rw [SocketServer.onClientDisconnected, FixServerReactor.toOption_eq_some.mp hclose]
    exact ⟨_, rfl⟩
  refine ⟨server, hserver, ?_⟩
  have heffect : LoopEffect loop (loop.follow slot { loop.reactor with server := server }) slot :=
    loopEffect (SocketServer.slotEffect h.tracked hserver rfl)
  cases heffect with
  | keeps sockets closes occupies same =>
    -- The flag of the slot has been cleared.
    obtain ⟨hused, -⟩ := (occupies slot connection).mpr hoccupies
    obtain ⟨saved, -, hreactor⟩ := FixServerReactor.disconnect_cases
      (SocketServer.disconnect_reactor (FixServerReactor.toOption_eq_some.mp hserver))
    obtain ⟨hlt, -⟩ := List.getElem?_eq_some_iff.mp hoccupies.1
    change InUse server.reactor.peerSocketsConnectionFlags slot at hused
    rw [hreactor, InUse, List.getElem?_set_self hlt] at hused
    cases hused
  | ends ended socket ends =>
    obtain rfl := Option.some.inj (hoccupies.2.symm.trans ends.occupied.2)
    rw [SocketServer.HasDescriptor, ends.object] at hdescriptor
    intro hmem
    exact ((ends.interest fd).mp hmem).2 (Option.some.inj hdescriptor).symm

theorem Fresh.handles (fresh : loop.Fresh) (h : loop.Wired) {event : EpollEvent}
    {rest : List EpollEvent} (events : loop.events = event :: rest)
    (client : event.fd ≠ loop.listening) : loop.Handles event := by
  have hmem : event ∈ loop.events := by
    rw [events]
    exact List.mem_cons_self
  have hconnected := h.event_slot (fresh.interest event hmem) client
  have hrest := h.with_events rest
  refine ⟨hconnected, ?_, ?_⟩
  · intro input next hstep fd other hother
    rw [step_event events] at hstep
    rcases hrest.handleEvent hstep with ⟨-, hserves⟩ | ⟨hlistening, -⟩
    · exact ⟨hserves.connected fd other, hserves.others fd other hother⟩
    · exact absurd hlistening client
  · intro hinvalid input
    obtain ⟨server, hserver, hgone⟩ := hrest.drops hconnected
    refine ⟨_, ?_, hgone⟩
    rw [step_event events]
    unfold EventLoop.handleEvent
    dsimp only
    rw [hinvalid, if_neg Bool.false_ne_true, hserver]
    rfl

/-- While no error is reported for the listening socket, each event of a batch is handled for the
connection that it was reported for, whatever the events before it have done, and leaves the other
connections; an invalid one ends its connection. -/
theorem events_reach_slots (compId : Bytes) (sequenceNumberValidation : Bool)
    (store : FixSequenceStore) (receiveCacheSize maxPollEvents : Nat) (listening : Int)
    (labels : List LoopLabel) (loop : EventLoop)
    (h : run EventLoop.step (initial compId sequenceNumberValidation store receiveCacheSize
      maxPollEvents listening) labels = some loop)
    (listens : Along EventLoop.step ListensWell
      (initial compId sequenceNumberValidation store receiveCacheSize maxPollEvents listening)
        labels) :
    (∀ event ∈ loop.events, event.fd ≠ loop.listening →
        loop.Connected event.fd (loop.peerSocketIndexTable event.fd)) ∧
      ∀ event rest, loop.events = event :: rest → event.fd ≠ loop.listening →
        loop.Handles event := by
  obtain ⟨hwired, hfresh⟩ : loop.Wired ∧ loop.Fresh := by
    refine run_induction_along (fun _ loop => loop.Wired ∧ loop.Fresh) ?_ ?_ h listens
    · exact ⟨wired_initial _ _ _ _ _ _, List.nodup_nil, nofun, nofun⟩
    · rintro labels loop label next - ⟨hwired, hfresh⟩ hlistens hstep
      exact ⟨hwired.step hstep, hfresh.step hwired hlistens hstep⟩
  refine ⟨fun event hevent => hwired.event_slot (hfresh.interest event hevent), ?_⟩
  intro event rest hevents
  exact hfresh.handles hwired hevents

/-- A receive that finds nothing. -/
def nothing : Arrival where
  stream := []
  returnsFirst := fun _ => 0
  returnsSecond := fun _ => 0
  allocates := fun _ => true
  past := 0
  indeterminate := .none
  error := 0
  currentUTCDateTime := []

/-- Two clients, one that hangs up while the other one's data and a third one wait. -/
def threeClients : List LoopLabel :=
  [.wait [{ fd := 3 }], .event (.accepts 5 fun _ => 0), .wait [{ fd := 3 }],
    .event (.accepts 6 fun _ => 0), .wait [{ fd := 5, hangUp := true }, { fd := 3 }, { fd := 6 }],
    .event (.receives nothing), .event (.accepts 5 fun _ => 0)]

/-- The loop of a server on the descriptor 3. -/
def onThree : EventLoop := initial (ascii "SERVER") true (fun _ => none) 0 1024 3

theorem interest_follows_slots_threeClients : ∃ loop,
    run EventLoop.step onThree threeClients = some loop ∧ loop.kernel.interest = [3, 6, 5] ∧
      (∀ fd, fd ∈ loop.kernel.interest ↔ fd = loop.listening ∨ ∃ slot, loop.Connected fd slot) ∧
      (∀ fd slot, loop.Connected fd slot →
        fd ≠ loop.listening ∧ loop.peerSocketIndexTable fd = slot) ∧
      (∀ fd, fd ∈ loop.kernel.opened ↔
        fd = loop.listening ∨ ∃ connection, loop.Unclosed fd connection) ∧
      ∀ fd first second, loop.Unclosed fd first → loop.Unclosed fd second → first = second := by
  obtain ⟨loop, hloop, hinterest⟩ : ∃ loop, run EventLoop.step onThree threeClients = some loop ∧
      loop.kernel.interest = [3, 6, 5] := ⟨_, rfl, rfl⟩
  exact ⟨loop, hloop, hinterest,
    interest_follows_slots (ascii "SERVER") true (fun _ => none) 0 1024 3 threeClients loop hloop⟩

theorem listensWell_of_all {server : EventLoop} {ready : List EpollEvent}
    (h : (ready.all fun event => event.fd ≠ server.listening || event.isValidEvent) = true) :
    server.ListensWell (.wait ready) := by
  rintro ready' hready event hevent hfd
  cases hready
  have hone := List.all_eq_true.mp h event hevent
  simpa [hfd] using hone

/-- The batch goes on with the listening socket and the other client. -/
theorem events_reach_slots_threeClients : ∃ loop,
    run EventLoop.step onThree (threeClients.take 6) = some loop ∧ loop.events.length = 2 ∧
      Along EventLoop.step ListensWell onThree (threeClients.take 6) ∧
      (∀ event ∈ loop.events, event.fd ≠ loop.listening →
        loop.Connected event.fd (loop.peerSocketIndexTable event.fd)) ∧
      ∀ event rest, loop.events = event :: rest → event.fd ≠ loop.listening →
        loop.Handles event := by
  obtain ⟨loop, hloop, hevents⟩ : ∃ loop,
      run EventLoop.step onThree (threeClients.take 6) = some loop ∧ loop.events.length = 2 :=
    ⟨_, rfl, rfl⟩
  have hlistens : Along EventLoop.step ListensWell onThree (threeClients.take 6) := by
    refine along_cons rfl (listensWell_of_all (by decide)) (along_cons rfl nofun ?_)
    refine along_cons rfl (listensWell_of_all (by decide)) (along_cons rfl nofun ?_)
    exact along_cons rfl (listensWell_of_all (by decide)) (along_cons rfl nofun trivial)
  exact ⟨loop, hloop, hevents, hlistens, events_reach_slots (ascii "SERVER") true (fun _ => none)
    0 1024 3 (threeClients.take 6) loop hloop hlistens⟩

end EventLoop

end LiteExchange.Fix
