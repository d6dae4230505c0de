import LiteExchange.Fix.SocketEffects

/-!
# When a descriptor is closed

A connection that ends is closed by the event that ends it, and by no other: before it is in
its slot, afterwards its socket is `DISCONNECTED`. `isConnectionLost` goes to that state and
closes nothing: after it no call of `close` has any effect.
-/

namespace LiteExchange.Fix

open Foundation.Ascii Foundation.Runs Foundation.SlotTable FixConstants

namespace SocketServer

variable {server next : SocketServer} {slot connection : Nat}

/-! ## The reactor does not depend on the sockets -/

theorem settle_reactor {session : FixSession} {verdict : Verdict}
    (hsettle : server.settle slot session verdict = .ok next) :
    ∃ processed, server.reactor.settle slot session verdict = .ok processed ∧
      next.reactor = processed.reactor := by
  unfold settle at hsettle
  unfold FixServerReactor.settle
  split at hsettle
  · rename_i hclosed
    rw [if_pos hclosed]
    rw [disconnect_reactor hsettle]
    exact ⟨_, rfl, rfl⟩
  · rename_i hopen
    rw [if_neg hopen]
    cases hsettle
    exact ⟨_, rfl, rfl⟩

/-- A step of the server is a step of its reactor, or none. -/
theorem step_reactor (h : server.Tracked) {label : Label} (hstep : server.step label = some next) :
    next.reactor = server.reactor ∨
      ∃ reactorLabel, server.reactor.step reactorLabel = some next.reactor := by
  cases label with
  | accept descriptor =>
    have haccept := FixServerReactor.toOption_eq_some.mp hstep
    unfold acceptNewConnection at haccept
    split at haccept
    · cases haccept
      exact Or.inl rfl
    · rw [FixServerReactor.accept_tables h.joined.toInStep] at haccept
      cases haccept
      exact Or.inr ⟨.accept, FixServerReactor.toOption_eq_some.mpr
        (FixServerReactor.accept_tables h.joined.toInStep)⟩
  | receiveFailed slot error =>
    have hcheck := FixServerReactor.toOption_eq_some.mp hstep
    unfold checkErrors at hcheck
    split at hcheck
    · cases hcheck
      exact Or.inl rfl
    · split at hcheck
      · cases hcheck
        exact Or.inl rfl
      · dsimp only at hcheck
        split at hcheck
        · have hreactor := disconnect_reactor hcheck
          exact Or.inr ⟨.disconnect slot, FixServerReactor.toOption_eq_some.mpr hreactor⟩
        · cases hcheck
          exact Or.inl rfl
  | invalidEvent slot =>
    exact Or.inr ⟨.disconnect slot, FixServerReactor.toOption_eq_some.mpr
      (disconnect_reactor (FixServerReactor.toOption_eq_some.mp hstep))⟩
  | handle slot message currentUTCDateTime =>
    obtain ⟨session, hsession, hprocess⟩ := Option.bind_eq_some_iff.mp hstep
    obtain ⟨connection, -, hpeer, huses, -⟩ := h.connection_of hsession
    have hsettle := FixServerReactor.toOption_eq_some.mp hprocess
    rw [processMessage_settle hsession hpeer huses] at hsettle
    right
    refine ⟨.handle slot message currentUTCDateTime, ?_⟩
    change server.reactor.handle slot message currentUTCDateTime = _
    unfold FixServerReactor.handle
    rw [hsession]
    dsimp only
    rw [FixServerReactor.processMessage_steps hsession]
    revert hsettle
    cases hsteps : session.steps server.reactor message currentUTCDateTime with
    | error error =>
      intro hsettle
      cases hsettle
    | ok taken =>
      intro hsettle
      obtain ⟨processed, hprocessed, hsame⟩ := settle_reactor hsettle
      dsimp only
      rw [hprocessed, hsame]
      rfl
  | send slot message currentUTCDateTime =>
    obtain ⟨session, hsession, rfl⟩ := Option.map_eq_some_iff.mp hstep
    exact Or.inr ⟨.send slot message currentUTCDateTime, Option.map_eq_some_iff.mpr
      ⟨session, hsession, rfl⟩⟩

/-! ## Whole runs -/

theorem initial_tracked (compId : Bytes) (sequenceNumberValidation : Bool)
    (store : FixSequenceStore) : (initial compId sequenceNumberValidation store).Tracked where
  joined := FixServerReactor.initial_joined compId sequenceNumberValidation store
  objects := rfl
  live := fun slot connection socket _ hsocket => by cases hsocket
  ended := fun connection socket hsocket => by cases hsocket

theorem step_joined (h : server.Tracked) {label : Label} (hstep : server.step label = some next) :
    next.reactor.Joined := by
  rcases step_reactor h hstep with hsame | ⟨reactorLabel, hreactor⟩
  · rw [hsame]
    exact h.joined
  · exact FixServerReactor.step_joined h.joined hreactor

theorem step_tracked (h : server.Tracked) {label : Label} (hstep : server.step label = some next) :
    next.Tracked := by
  have heffect := step_effect h hstep
  refine ⟨step_joined h hstep, heffect.objects h, ?_, ?_⟩
  · intro slot connection socket hoccupies hsocket
    rcases (heffect.occupied h hoccupies).2.2 with ⟨hold, hsame⟩ | ⟨-, descriptor, hnew⟩
    · rw [hsame] at hsocket
      exact h.live slot connection socket hold hsocket
    · rw [hnew] at hsocket
      cases hsocket
      simp
  · intro connection socket hsocket hended
    rcases heffect.ended hsocket hended with
      ⟨hold, hnone, -, -⟩ | ⟨slot, before, -, -, hsocket, -⟩
    · exact h.ended connection socket hold hnone
    · rw [hsocket]

/-- The calls of `::close` up to a state, where `kept` says of a connection that no step has
lost it. -/
structure Counted (kept : Nat → Prop) (server : SocketServer) : Prop where
  live : ∀ slot connection, server.Occupies slot connection →
    kept connection ∧ server.closesOf connection = []
  closed : ∀ (connection : Nat) (socket : Socket), server.sockets[connection]? = some socket →
    (∀ slot, ¬ server.Occupies slot connection) → 0 < socket.socketDescriptor → kept connection →
    server.closesOf connection = [socket.socketDescriptor]
  leaked : ∀ (connection : Nat) (socket : Socket), server.sockets[connection]? = some socket →
    (∀ slot, ¬ server.Occupies slot connection) →
    ¬ (0 < socket.socketDescriptor ∧ kept connection) → server.closesOf connection = []
  future : ∀ connection, server.sockets.length ≤ connection →
    kept connection ∧ server.closesOf connection = []

theorem step_counted {kept : Nat → Prop} (h : server.Tracked) (counted : server.Counted kept)
    {label : Label} (effect : Effect server label next) :
    next.Counted fun connection => kept connection ∧ ¬ server.Loses label connection := by
  refine ⟨?_, ?_, ?_, ?_⟩
  · intro slot connection hoccupies
    obtain ⟨hcloses, hstays, hold | hnew⟩ := effect.occupied h hoccupies
    · obtain ⟨hkept, hnone⟩ := counted.live slot connection hold.1
      exact ⟨⟨hkept, hstays⟩, hcloses.trans hnone⟩
    · obtain ⟨hkept, hnone⟩ := counted.future connection (Nat.le_of_eq hnew.1.symm)
      exact ⟨⟨hkept, hstays⟩, hcloses.trans hnone⟩
  · intro connection socket hsocket hended hpositive hstays
    rcases effect.ended hsocket hended with
      ⟨hold, hnone, hcloses, -⟩ | ⟨slot, before, hoccupied, hbefore, rfl, hlost | hclosed⟩
    · rw [hcloses]
      exact counted.closed connection socket hold hnone hpositive hstays.1
    · exact absurd hlost.1 hstays.2
    · -- The step has closed the descriptor of the connection, which no step has before.
      rw [hclosed.2, (counted.live slot connection hoccupied).2, List.nil_append, Socket.close,
        if_pos (h.live slot connection before hoccupied hbefore)]
      exact if_pos hpositive
  · intro connection socket hsocket hended hcondition
    rcases effect.ended hsocket hended with
      ⟨hold, hnone, hcloses, hstays⟩ | ⟨slot, before, hoccupied, hbefore, rfl, hlost | hclosed⟩
    · rw [hcloses]
      exact counted.leaked connection socket hold hnone fun hboth =>
        hcondition ⟨hboth.1, hboth.2, hstays⟩
    · rw [hlost.2]
      exact (counted.live slot connection hoccupied).2
    · obtain ⟨hkept, hnone⟩ := counted.live slot connection hoccupied
      have hnegative : ¬ before.socketDescriptor > 0 := fun hpositive =>
        hcondition ⟨hpositive, hkept, hclosed.1⟩
      rw [hclosed.2, hnone, List.nil_append, Socket.close,
        if_pos (h.live slot connection before hoccupied hbefore)]
      exact if_neg hnegative
  · intro connection hfuture
    obtain ⟨hlater, hcloses, hstays⟩ := effect.future hfuture
    obtain ⟨hkept, hnone⟩ := counted.future connection hlater
    exact ⟨⟨hkept, hstays⟩, hcloses.trans hnone⟩

theorem initial_counted (compId : Bytes) (sequenceNumberValidation : Bool)
    (store : FixSequenceStore) :
    (initial compId sequenceNumberValidation store).Counted fun _ => True where
  live := fun slot connection hoccupies => by cases hoccupies.2
  closed := fun connection socket hsocket => by cases hsocket
  leaked := fun connection socket hsocket => by cases hsocket
  future := fun connection _ => ⟨trivial, rfl⟩

/-- No step of the run has lost the connection. -/
abbrev NeverLost (start : SocketServer) (labels : List Label) (connection : Nat) : Prop :=
  Along step (fun before label => ¬ before.Loses label connection) start labels

theorem run_counted {compId : Bytes} {sequenceNumberValidation : Bool} {store : FixSequenceStore}
    {labels : List Label}
    (hrun : run step (initial compId sequenceNumberValidation store) labels = some server) :
    server.Tracked ∧
      server.Counted (NeverLost (initial compId sequenceNumberValidation store) labels) := by
  refine run_induction (fun labels server => server.Tracked ∧
    server.Counted (NeverLost (initial compId sequenceNumberValidation store) labels))
    ⟨initial_tracked _ _ _, initial_counted _ _ _⟩ ?_ hrun
  rintro labels before label after hbefore ⟨htracked, hcounted⟩ hstep
  refine ⟨step_tracked htracked hstep, ?_⟩
  have hlost : NeverLost (initial compId sequenceNumberValidation store) (labels ++ [label]) =
      fun connection => NeverLost (initial compId sequenceNumberValidation store) labels
        connection ∧ ¬ before.Loses label connection := by
    funext connection
    exact propext (along_snoc hbefore label)
  rw [hlost]
  exact step_counted htracked hcounted (step_effect htracked hstep)

end SocketServer

open SocketServer in
/-- A connection that has ended was closed exactly once if and only if its descriptor is positive
and no step ended it through `isConnectionLost`; otherwise it was never closed, and no connection
is closed before its slot is released. -/
theorem closed_exactly_once_iff (compId : Bytes) (sequenceNumberValidation : Bool)
    (store : FixSequenceStore) (labels : List SocketServer.Label) (server : SocketServer)
    (hrun : run step (initial compId sequenceNumberValidation store) labels = some server)
    (connection : Nat) (socket : Socket) (hsocket : server.sockets[connection]? = some socket) :
    ((∀ slot, ¬ server.Occupies slot connection) →
      (server.closesOf connection = [socket.socketDescriptor] ↔
        0 < socket.socketDescriptor ∧
          NeverLost (initial compId sequenceNumberValidation store) labels connection)) ∧
      (server.closesOf connection = [] ∨
        server.closesOf connection = [socket.socketDescriptor] ∧
          ∀ slot, ¬ server.Occupies slot connection) := by
  obtain ⟨-, hcounted⟩ := run_counted hrun
  constructor
  · intro hended
    constructor
    · intro honce
      by_contra hcondition
      rw [hcounted.leaked connection socket hsocket hended hcondition] at honce
      cases honce
    · rintro ⟨hpositive, hkept⟩
      exact hcounted.closed connection socket hsocket hended hpositive hkept
  · by_cases hended : ∀ slot, ¬ server.Occupies slot connection
    · by_cases hcondition : 0 < socket.socketDescriptor ∧
          NeverLost (initial compId sequenceNumberValidation store) labels connection
      · exact Or.inr ⟨hcounted.closed connection socket hsocket hended hcondition.1 hcondition.2,
          hended⟩
      · exact Or.inl (hcounted.leaked connection socket hsocket hended hcondition)
    · rw [not_forall_not] at hended
      obtain ⟨slot, hoccupies⟩ := hended
      exact Or.inl (hcounted.live slot connection hoccupies).2

/-- A client whose connection is reset, and another one that takes its slot. -/
def resetRun : List SocketServer.Label := [.accept 5, .receiveFailed 0 104, .accept 6]

theorem not_occupies_of_none {server : SocketServer} {connection : Nat}
    (h : ∀ slot < server.reactor.peerSockets.length,
      server.reactor.peerSocketsConnectionFlags[slot]? ≠ some true ∨
        server.reactor.peerSockets[slot]? ≠ some connection) (slot : Nat) :
    ¬ server.Occupies slot connection := by
  rintro ⟨hused, hpeer⟩
  obtain ⟨hlt, -⟩ := List.getElem?_eq_some_iff.mp hpeer
  rcases h slot hlt with hflag | hother
  · exact hflag hused
  · exact hother hpeer

/-- The descriptor of the connection is not closed when the connection ends, nor when its slot
is reused. -/
theorem reset_leaks :
    ∃ ended reused,
      run SocketServer.step (SocketServer.initial (ascii "SERVER") true fun _ => none)
        (resetRun.take 2) = some ended ∧
      run SocketServer.step (SocketServer.initial (ascii "SERVER") true fun _ => none)
        resetRun = some reused ∧
      ended.sockets[0]? = some ⟨5, .disconnected⟩ ∧ (∀ slot, ¬ ended.Occupies slot 0) ∧
      ended.closesOf 0 ≠ [5] ∧ (∀ slot, ¬ reused.Occupies slot 0) ∧ reused.closesOf 0 ≠ [5] :=
  ⟨_, _, rfl, rfl, by decide, not_occupies_of_none (by decide), by decide,
    not_occupies_of_none (by decide), by decide⟩

/-- A client whose poll event is not valid. -/
def droppedRun : List SocketServer.Label := [.accept 5, .invalidEvent 0]

theorem closed_exactly_once_iff_dropped :
    ∃ server, run SocketServer.step (SocketServer.initial (ascii "SERVER") true fun _ => none)
        droppedRun = some server ∧ server.closesOf 0 = [5] := by
  refine ⟨_, rfl, ?_⟩
  have hnever : SocketServer.NeverLost (SocketServer.initial (ascii "SERVER") true fun _ => none)
      droppedRun 0 := ⟨fun hlost => hlost, fun _ _ => ⟨fun hlost => hlost, fun _ _ => trivial⟩⟩
  exact ((closed_exactly_once_iff (ascii "SERVER") true (fun _ => none) droppedRun _ rfl 0
    ⟨5, .disconnected⟩ rfl).1 (not_occupies_of_none (by decide))).mpr ⟨by decide, hnever⟩

end LiteExchange.Fix
