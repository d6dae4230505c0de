import LiteExchange.Fix.StoredNumbers

/-!
# The peers and the sessions move in lockstep

Source: `TCPServer::addPeer`, `removePeer`, `FixServerReactor::addSession`,
`removeSession`. Each class finds the first free slot in its own flags; nothing checks that
both find the same one. They do because every event changes both tables.
-/

namespace LiteExchange.Fix

open Foundation.Ascii Foundation.Runs Foundation.SlotTable FixConstants

namespace FixServerReactor

variable {reactor next : FixServerReactor}

def getPeerSocket (reactor : FixServerReactor) (peerIndex : Nat) : Option Nat :=
  reactor.peerSockets[peerIndex]?

/-- The table of `TCPServer`. -/
def peerTable (reactor : FixServerReactor)
    (h : reactor.peerSockets.length = reactor.peerSocketsConnectionFlags.length) : Table Nat :=
  ⟨reactor.peerSockets, reactor.peerSocketsConnectionFlags, h⟩

/-- The table of `FixServerReactor`. -/
def sessionTable (reactor : FixServerReactor)
    (h : reactor.sessions.length = reactor.sessionFlags.length) : Table FixSession :=
  ⟨reactor.sessions, reactor.sessionFlags, h⟩

theorem InStep.peerTable_length (h : reactor.InStep) :
    reactor.peerSockets.length = reactor.peerSocketsConnectionFlags.length := by
  rw [h.peers, h.flags]

/-- The session works on the connection. -/
def Uses (peer : Nat) (session : FixSession) : Prop := session.tcpConnection = some peer

/-- Both classes look for a slot the way the tables do. -/
theorem freeSlot_eq (flags : List Bool) : freeSlot flags = firstFree flags := rfl

/-- `addPeer` is the addition to its table. -/
theorem addPeer_eq
    (h : reactor.peerSockets.length = reactor.peerSocketsConnectionFlags.length) (peer : Nat) :
    reactor.addPeer peer = ({ reactor with
      peerSockets := ((reactor.peerTable h).add peer).entries
      peerSocketsConnectionFlags := ((reactor.peerTable h).add peer).flags },
      (reactor.peerTable h).nextSlot) := by
  obtain ⟨hentries, hflags⟩ := (reactor.peerTable h).add_eq peer
  rw [hentries, hflags]
  cases hfree : firstFree reactor.peerSocketsConnectionFlags with
  | none => simp [addPeer, freeSlot_eq, Table.nextSlot, peerTable, hfree, h]
  | some slot => simp [addPeer, freeSlot_eq, Table.nextSlot, peerTable, hfree]

/-- `addSession` is the addition to its table. -/
theorem addSession_eq (h : reactor.sessions.length = reactor.sessionFlags.length)
    (session : FixSession) :
    reactor.addSession session = { reactor with
      sessions := ((reactor.sessionTable h).add session).entries
      sessionFlags := ((reactor.sessionTable h).add session).flags } := by
  obtain ⟨hentries, hflags⟩ := (reactor.sessionTable h).add_eq session
  rw [hentries, hflags]
  cases hfree : firstFree reactor.sessionFlags with
  | none => simp [addSession, freeSlot_eq, sessionTable, hfree]
  | some slot => simp [addSession, freeSlot_eq, sessionTable, hfree]

/-- A new connection is added to both tables, with a session that uses it. -/
theorem accept_tables (h : reactor.InStep) :
    reactor.acceptNewConnection = .ok { reactor with
      acceptedConnections := reactor.acceptedConnections + 1
      peerSockets :=
        ((reactor.peerTable h.peerTable_length).add reactor.acceptedConnections).entries
      peerSocketsConnectionFlags :=
        ((reactor.peerTable h.peerTable_length).add reactor.acceptedConnections).flags
      sessions := ((reactor.sessionTable h.sessions).add
        { tcpConnection := some reactor.acceptedConnections }).entries
      sessionFlags := ((reactor.sessionTable h.sessions).add
        { tcpConnection := some reactor.acceptedConnections }).flags } := by
  have hslot : (reactor.peerTable h.peerTable_length).nextSlot =
      (reactor.sessionTable h.sessions).nextSlot := Table.nextSlot_congr h.flags
  obtain ⟨hpeer, -⟩ :=
    (reactor.peerTable h.peerTable_length).add_nextSlot reactor.acceptedConnections
  obtain ⟨hentry, hlive⟩ := (reactor.sessionTable h.sessions).add_nextSlot {}
  obtain ⟨hset, hflags⟩ := (reactor.sessionTable h.sessions).set_add {}
    { tcpConnection := some reactor.acceptedConnections }
  rw [← hset, ← hflags, acceptNewConnection,
    @addPeer_eq { reactor with acceptedConnections := reactor.acceptedConnections + 1 }
      h.peerTable_length]
  change onClientConnected _ (reactor.peerTable h.peerTable_length).nextSlot = _
  unfold onClientConnected
  rw [hslot] at hpeer ⊢
  rw [@addSession_eq { reactor with
      acceptedConnections := reactor.acceptedConnections + 1
      peerSockets := _
      peerSocketsConnectionFlags := _ } h.sessions]
  have hlive' : ((reactor.sessionTable h.sessions).add {}).flags.getD
      (reactor.sessionTable h.sessions).nextSlot false = true := getD_flag.mpr hlive
  dsimp only
  rw [show getSession _ _ = some {} from getSession_some.mpr ⟨hlive', hentry⟩]
  dsimp only [setSession]
  exact hpeer ▸ rfl

/-- The tables are in step, the session of a slot uses the connection of the slot, and no two
slots have the same connection. -/
structure Joined (reactor : FixServerReactor) : Prop extends InStep reactor where
  accepted : ∀ peer ∈ reactor.peerSockets, peer < reactor.acceptedConnections
  distinct : ∀ (slot other peer : Nat), reactor.peerSockets[slot]? = some peer →
    reactor.peerSockets[other]? = some peer → slot = other
  uses : ∀ (slot peer : Nat) (session : FixSession), reactor.peerSockets[slot]? = some peer →
    reactor.sessions[slot]? = some session → Uses peer session

theorem Joined.lockstep (h : reactor.Joined) :
    Table.Lockstep Uses (reactor.peerTable h.peerTable_length) (reactor.sessionTable h.sessions) :=
  ⟨h.flags, h.uses⟩

theorem initial_joined (compId : Bytes) (sequenceNumberValidation : Bool)
    (store : FixSequenceStore) : (initial compId sequenceNumberValidation store).Joined where
  toInStep := initial_inStep compId sequenceNumberValidation store
  accepted := fun peer hmem => absurd hmem List.not_mem_nil
  distinct := fun slot other peer hpeer => by cases hpeer
  uses := fun slot peer session hpeer => by cases hpeer

/-- A session that changes keeps its connection. -/
theorem uses_set (h : reactor.Joined) {slot : Nat} {session changed : FixSession}
    (hsession : reactor.sessions[slot]? = some session)
    (same : changed.tcpConnection = session.tcpConnection) :
    ∀ (other peer : Nat) (present : FixSession), reactor.peerSockets[other]? = some peer →
      (reactor.sessions.set slot changed)[other]? = some present → Uses peer present := by
  intro other peer present hpeer hpresent
  by_cases heq : slot = other
  · subst heq
    rw [List.getElem?_set_self (List.getElem?_eq_some_iff.mp hsession).1] at hpresent
    cases hpresent
    exact same.trans (h.uses slot peer session hpeer hsession)
  · rw [List.getElem?_set_ne heq] at hpresent
    exact h.uses other peer present hpeer hpresent

theorem accept_joined (h : reactor.Joined) (haccept : reactor.acceptNewConnection = .ok next) :
    next.Joined := by
  have hstep := (accept_cases h.toInStep haccept).1
  rw [accept_tables h.toInStep] at haccept
  cases haccept
  have hnew : reactor.acceptedConnections ∉ reactor.peerSockets := fun hmem =>
    Nat.lt_irrefl _ (h.accepted _ hmem)
  have hdistinct : (reactor.peerTable h.peerTable_length).Distinct := h.distinct
  have hlinked := h.lockstep.add (a := reactor.acceptedConnections)
    (b := { tcpConnection := some reactor.acceptedConnections }) rfl
  refine ⟨hstep, fun peer hmem => ?_, hdistinct.add hnew, hlinked.entries⟩
  rcases Table.mem_add hmem with rfl | hold
  · exact Nat.lt_succ_self _
  · exact Nat.lt_succ_of_lt (h.accepted peer hold)

theorem step_joined (h : reactor.Joined) {label : ReactorLabel}
    (hstep : reactor.step label = some next) : next.Joined := by
  have hinStep := step_inStep h.toInStep hstep
  cases label with
  | accept => exact accept_joined h (toOption_eq_some.mp hstep)
  | disconnect slot =>
    obtain ⟨session, -, rfl⟩ := disconnect_cases (toOption_eq_some.mp hstep)
    exact ⟨hinStep, h.accepted, h.distinct, h.uses⟩
  | handle slot message currentUTCDateTime =>
    obtain ⟨session, steps, verdict, processed, hsession, hsteps, hsettle, rfl⟩ :=
      handle_cases hstep
    obtain ⟨hpeers, haccepted⟩ := (settle_frame hsettle).2
    refine ⟨hinStep, ?_, ?_, ?_⟩
    · rw [hpeers, haccepted]
      exact h.accepted
    · rw [hpeers]
      exact h.distinct
    · rw [hpeers, settle_sessions hsettle]
      exact uses_set h hsession (FixSession.steps_frame hsteps).1
  | send slot message currentUTCDateTime =>
    obtain ⟨session, hsession, rfl⟩ := Option.map_eq_some_iff.mp hstep
    exact ⟨hinStep, h.accepted, h.distinct, uses_set h (getSession_some.mp hsession).2 rfl⟩

/-- A new connection finds one slot in both tables, and it was not in use. -/
structure TakesSlot (reactor : FixServerReactor) (peer : Nat) (session : FixSession)
    (slot : Nat) : Prop where
  free : ¬ InUse reactor.sessionFlags slot
  chosen : (reactor.addPeer peer).2 = slot
  peerPlaced : (reactor.addPeer peer).1.peerSockets[slot]? = some peer
  peerUsed : InUse (reactor.addPeer peer).1.peerSocketsConnectionFlags slot
  sessionPlaced : (reactor.addSession session).sessions[slot]? = some session
  sessionUsed : InUse (reactor.addSession session).sessionFlags slot

theorem takesSlot (h : reactor.Joined) (peer : Nat) (session : FixSession) :
    ∃ slot, reactor.TakesSlot peer session slot := by
  obtain ⟨hpeer, hpeerLive⟩ := (reactor.peerTable h.peerTable_length).add_nextSlot peer
  obtain ⟨hsession, hsessionLive⟩ := (reactor.sessionTable h.sessions).add_nextSlot session
  have hfree := (reactor.sessionTable h.sessions).nextSlot_free
  rw [h.lockstep.nextSlot] at hpeer hpeerLive
  refine ⟨(reactor.sessionTable h.sessions).nextSlot, hfree, ?_, ?_, ?_, ?_, ?_⟩
  · rw [addPeer_eq h.peerTable_length]
    exact h.lockstep.nextSlot
  · rw [addPeer_eq h.peerTable_length]
    exact hpeer
  · rw [addPeer_eq h.peerTable_length]
    exact hpeerLive
  · rw [addSession_eq h.sessions]
    exact hsession
  · rw [addSession_eq h.sessions]
    exact hsessionLive

/-- A live slot stays as it is while others come and go. -/
def KeepsSlot (reactor next : FixServerReactor) (slot : Nat) : Prop :=
  InUse next.sessionFlags slot ∧ next.getSession slot = reactor.getSession slot ∧
    next.getPeerSocket slot = reactor.getPeerSocket slot

theorem getSession_congr {slot : Nat}
    (hflags : next.sessionFlags[slot]? = reactor.sessionFlags[slot]?)
    (hsessions : next.sessions[slot]? = reactor.sessions[slot]?) :
    next.getSession slot = reactor.getSession slot := by
  unfold getSession
  rw [List.getD_eq_getElem?_getD, List.getD_eq_getElem?_getD, hflags, hsessions]

theorem accept_keeps (h : reactor.Joined) :
    ∃ next, reactor.step .accept = some next ∧
      ∀ slot, InUse reactor.sessionFlags slot → reactor.KeepsSlot next slot := by
  refine ⟨_, toOption_eq_some.mpr (accept_tables h.toInStep), fun slot hused => ?_⟩
  have hpeerUsed : (reactor.peerTable h.peerTable_length).Live slot := by
    have hsame : reactor.peerSocketsConnectionFlags[slot]? = reactor.sessionFlags[slot]? := by
      rw [h.flags]
    exact hsame.trans hused
  have hsessionUsed : (reactor.sessionTable h.sessions).Live slot := hused
  obtain ⟨-, -, hpeer⟩ := Table.add_live hpeerUsed reactor.acceptedConnections
  obtain ⟨-, hlive, hsession⟩ := Table.add_live hsessionUsed
    { tcpConnection := some reactor.acceptedConnections }
  exact ⟨hlive, getSession_congr (hlive.trans hused.symm) hsession, hpeer⟩

theorem disconnect_keeps (h : reactor.Joined) {slot : Nat}
    (hused : InUse reactor.sessionFlags slot) :
    ∃ next, reactor.step (.disconnect slot) = some next ∧ ¬ InUse next.sessionFlags slot ∧
      ∀ other, other ≠ slot → InUse reactor.sessionFlags other → reactor.KeepsSlot next other := by
  obtain ⟨hlt, -⟩ := List.getElem?_eq_some_iff.mp hused
  have hlive : (reactor.sessionTable h.sessions).Live slot := hused
  obtain ⟨session, hsession⟩ := hlive.entry
  have hclose : ∃ next, reactor.onClientDisconnected slot = .ok next := by
    unfold onClientDisconnected
    rw [getSession_some.mpr ⟨getD_flag.mpr hused, hsession⟩]
    exact ⟨_, rfl⟩
  obtain ⟨next, hclose⟩ := hclose
  refine ⟨next, toOption_eq_some.mpr hclose, ?_⟩
  obtain ⟨saved, -, rfl⟩ := disconnect_cases hclose
  refine ⟨?_, fun other hother hlive => ?_⟩
  · unfold InUse
    rw [List.getElem?_set_self hlt]
    simp
  · have hflag : (reactor.sessionFlags.set slot false)[other]? = reactor.sessionFlags[other]? :=
      List.getElem?_set_ne (Ne.symm hother)
    exact ⟨hflag.trans hlive, getSession_congr hflag rfl, rfl⟩

end FixServerReactor

open FixServerReactor in
/-- After every run the two tables have the same flags, a new connection finds the same free
slot in both, the session of a live slot uses the connection of the slot and of no other one,
and no event but its own disconnect takes a live slot away. -/
theorem tables_in_lockstep (compId : Bytes) (sequenceNumberValidation : Bool)
    (store : FixSequenceStore) (labels : List ReactorLabel) (reactor : FixServerReactor)
    (hrun : run step (initial compId sequenceNumberValidation store) labels = some reactor) :
    reactor.sessionFlags = reactor.peerSocketsConnectionFlags ∧
      (∀ peer session, ∃ slot, reactor.TakesSlot peer session slot) ∧
      (∀ slot, InUse reactor.sessionFlags slot → ∃ session peer,
        reactor.getSession slot = some session ∧ reactor.getPeerSocket slot = some peer ∧
          session.tcpConnection = some peer ∧
          ∀ other, reactor.getPeerSocket other = some peer → other = slot) ∧
      (∃ next, reactor.step .accept = some next ∧
        ∀ slot, InUse reactor.sessionFlags slot → reactor.KeepsSlot next slot) ∧
      ∀ slot, InUse reactor.sessionFlags slot →
        ∃ next, reactor.step (.disconnect slot) = some next ∧ ¬ InUse next.sessionFlags slot ∧
          ∀ other, other ≠ slot → InUse reactor.sessionFlags other →
            reactor.KeepsSlot next other := by
  have hjoined : reactor.Joined :=
    run_invariant Joined (initial_joined _ _ _) (fun _ _ _ h => step_joined h) hrun
  refine ⟨hjoined.flags.symm, takesSlot hjoined, ?_, accept_keeps hjoined,
    fun slot => disconnect_keeps hjoined⟩
  intro slot hused
  have hlive : (reactor.sessionTable hjoined.sessions).Live slot := hused
  obtain ⟨peer, session, hpeer, hsession, huses⟩ := hjoined.lockstep.live hlive
  exact ⟨session, peer, getSession_some.mpr ⟨getD_flag.mpr hused, hsession⟩, hpeer, huses,
    fun other hother => hjoined.distinct other slot peer hother hpeer⟩

/-- Two clients come, the first goes, a third takes its slot. -/
theorem tables_in_lockstep_reused :
    ∃ reactor, run FixServerReactor.step
        (FixServerReactor.initial (ascii "SERVER") true fun _ => none)
        [.accept, .accept, .disconnect 0, .accept] = some reactor ∧
      reactor.peerSockets = [2, 1] ∧
      reactor.sessionFlags = reactor.peerSocketsConnectionFlags := by
  refine ⟨_, rfl, by decide, ?_⟩
  exact (tables_in_lockstep (ascii "SERVER") true (fun _ => none)
    [.accept, .accept, .disconnect 0, .accept] _ rfl).1

end LiteExchange.Fix
