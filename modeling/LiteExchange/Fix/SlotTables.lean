import LiteExchange.Fix.SessionSteps
import LiteExchange.Foundation.Results
import LiteExchange.Foundation.SlotTable

/-!
# The slot tables

The peers and the sessions stand in two pairs of tables that the reactor changes together,
so that a new connection finds the same slot in both. What an event does to the tables is
stated once here, for tables that are in step.
-/

namespace LiteExchange.Fix

open Foundation.Ascii Foundation.Results Foundation.SlotTable FixConstants

/-- A slot is in use: it has the flag. -/
def InUse (flags : List Bool) (slot : Nat) : Prop := flags[slot]? = some true

theorem freeSlot_some {flags : List Bool} {slot : Nat} (h : freeSlot flags = some slot) :
    slot < flags.length ∧ flags[slot]? = some false := firstFree_some h

namespace FixServerReactor

/-- Both tables have the same flags, and an entry for each of them. -/
structure InStep (reactor : FixServerReactor) : Prop where
  flags : reactor.peerSocketsConnectionFlags = reactor.sessionFlags
  sessions : reactor.sessions.length = reactor.sessionFlags.length
  peers : reactor.peerSockets.length = reactor.sessionFlags.length

variable {reactor next : FixServerReactor} {session : FixSession} {slot : Nat}

theorem getSession_some :
    reactor.getSession slot = some session ↔
      reactor.sessionFlags.getD slot false = true ∧ reactor.sessions[slot]? = some session := by
  unfold getSession
  split
  · rename_i hflag
    rw [hflag]
    simp
  · rename_i hflag
    simp only [Bool.not_eq_false] at hflag
    rw [hflag]
    simp

theorem getD_flag {flags : List Bool} : flags.getD slot false = true ↔ InUse flags slot := by
  unfold InUse
  rw [List.getD_eq_getElem?_getD]
  cases flags[slot]? with
  | none => simp
  | some flag => simp

theorem getSession_freed (h : ¬ InUse reactor.sessionFlags slot) :
    reactor.getSession slot = none := by
  have hflag := Bool.eq_false_of_not_eq_true fun hused => h (getD_flag.mp hused)
  exact if_pos hflag

/-- What stands in a slot after the object behind a pointer is changed. -/
theorem getSession_setSession {present : FixSession} {other : Nat}
    (h : (reactor.setSession slot session).getSession other = some present) :
    other = slot ∧ present = session ∧ InUse reactor.sessionFlags slot ∨
      other ≠ slot ∧ reactor.getSession other = some present := by
  obtain ⟨hflag, hpresent⟩ := getSession_some.mp h
  by_cases hother : other = slot
  · subst hother
    left
    simp only [setSession, List.getElem?_set, if_true] at hpresent
    split at hpresent
    · exact ⟨rfl, (Option.some.inj hpresent).symm, getD_flag.mp hflag⟩
    · cases hpresent
  · right
    simp only [setSession, List.getElem?_set_ne (Ne.symm hother)] at hpresent
    exact ⟨hother, getSession_some.mpr ⟨hflag, hpresent⟩⟩

theorem inStep_setSession (h : reactor.InStep) (session : FixSession) :
    (reactor.setSession slot session).InStep :=
  ⟨h.flags, by rw [setSession, List.length_set]; exact h.sessions, h.peers⟩

/-- A new connection takes a free slot or a new one, with a new session, and changes
nothing else. -/
theorem accept_cases (h : reactor.InStep) (haccept : reactor.acceptNewConnection = .ok next) :
    next.InStep ∧ next.compId = reactor.compId ∧
      next.sequenceNumberValidation = reactor.sequenceNumberValidation ∧
      next.sequenceStore = reactor.sequenceStore ∧
      next.acceptedConnections = reactor.acceptedConnections + 1 ∧
      ((∃ slot, reactor.sessionFlags[slot]? = some false ∧
          next.sessions = reactor.sessions.set slot
            { tcpConnection := some reactor.acceptedConnections } ∧
          next.sessionFlags = reactor.sessionFlags.set slot true) ∨
        next.sessions = reactor.sessions ++
            [{ tcpConnection := some reactor.acceptedConnections }] ∧
          next.sessionFlags = reactor.sessionFlags ++ [true]) := by
  unfold acceptNewConnection addPeer onClientConnected addSession at haccept
  simp only [h.flags] at haccept
  cases hfree : freeSlot reactor.sessionFlags with
  | none =>
    -- The tables grow by one slot.
    have hsession : (reactor.sessions ++ [({} : FixSession)])[reactor.peerSockets.length]? =
        some {} := by
      rw [h.peers, ← h.sessions]
      simp
    have hflag : (reactor.sessionFlags ++ [true]).getD reactor.peerSockets.length false =
        true := by
      rw [h.peers]
      simp
    have hpeer : (reactor.peerSockets ++ [reactor.acceptedConnections])[
        reactor.peerSockets.length]? = some reactor.acceptedConnections := by
      simp
    have hsessions : (reactor.sessions ++ [({} : FixSession)]).set reactor.peerSockets.length
        { tcpConnection := some reactor.acceptedConnections } =
          reactor.sessions ++ [{ tcpConnection := some reactor.acceptedConnections }] := by
      rw [h.peers, ← h.sessions]
      simp
    simp only [hfree, getSession, hflag, hsession, hpeer, hsessions, Bool.true_eq_false, if_false,
      setSession] at haccept
    cases haccept
    exact ⟨⟨rfl, by simp [h.sessions], by simp [h.peers]⟩, rfl, rfl, rfl, rfl,
      Or.inr ⟨rfl, rfl⟩⟩
  | some slot =>
    obtain ⟨hlt, hunused⟩ := freeSlot_some hfree
    have hsession : (reactor.sessions.set slot ({} : FixSession))[slot]? = some {} := by
      rw [List.getElem?_set_self (by rw [h.sessions]; exact hlt)]
    have hflag : (reactor.sessionFlags.set slot true).getD slot false = true := by
      rw [getD_flag, InUse, List.getElem?_set_self hlt]
    have hpeer : (reactor.peerSockets.set slot reactor.acceptedConnections)[slot]? =
        some reactor.acceptedConnections := by
      rw [List.getElem?_set_self (by rw [h.peers]; exact hlt)]
    simp only [hfree, getSession, hflag, hsession, hpeer, Bool.true_eq_false, if_false, setSession,
      List.set_set] at haccept
    cases haccept
    exact ⟨⟨rfl, by simp [h.sessions], by simp [h.peers]⟩, rfl, rfl, rfl, rfl,
      Or.inl ⟨slot, hunused, rfl, rfl⟩⟩

/-- The slot of the new connection was not in use, and the other slots stay as they are. -/
theorem accept_slot (h : reactor.InStep) (haccept : reactor.acceptNewConnection = .ok next) :
    ∃ slot, ¬ InUse reactor.sessionFlags slot ∧ InUse next.sessionFlags slot ∧
      next.sessions[slot]? = some { tcpConnection := some reactor.acceptedConnections } ∧
      ∀ other, other ≠ slot → next.sessions[other]? = reactor.sessions[other]? ∧
        next.sessionFlags[other]? = reactor.sessionFlags[other]? := by
  obtain ⟨-, -, -, -, -, hslot⟩ := accept_cases h haccept
  rcases hslot with ⟨slot, hunused, hsessions, hflags⟩ | ⟨hsessions, hflags⟩
  · obtain ⟨hlt, -⟩ := List.getElem?_eq_some_iff.mp hunused
    refine ⟨slot, ?_, ?_, ?_, fun other hother => ?_⟩
    · rw [InUse, hunused]
      simp
    · rw [InUse, hflags, List.getElem?_set_self hlt]
    · rw [hsessions, List.getElem?_set_self (by rw [h.sessions]; exact hlt)]
    · rw [hsessions, hflags, List.getElem?_set_ne (Ne.symm hother),
        List.getElem?_set_ne (Ne.symm hother)]
      exact ⟨rfl, rfl⟩
  · refine ⟨reactor.sessions.length, ?_, ?_, ?_, fun other hother => ?_⟩
    · rw [InUse, h.sessions, List.getElem?_eq_none (Nat.le_refl _)]
      simp
    · rw [InUse, hflags, h.sessions, List.getElem?_concat_length]
    · rw [hsessions, List.getElem?_concat_length]
    · rw [hsessions, hflags, getElem?_append_other hother,
        getElem?_append_other (by rw [← h.sessions]; exact hother)]
      exact ⟨rfl, rfl⟩

/-- A slot that is closed loses its flags; its session is saved and stays where it is. -/
theorem disconnect_cases (hclose : reactor.onClientDisconnected slot = .ok next) :
    ∃ session, reactor.getSession slot = some session ∧
      next = { reactor with
        sequenceStore := session.saveSequenceNumbersToStore reactor.sequenceStore
        sessionFlags := reactor.sessionFlags.set slot false
        peerSocketsConnectionFlags := reactor.peerSocketsConnectionFlags.set slot false } := by
  unfold onClientDisconnected at hclose
  split at hclose
  · rename_i session hsession
    exact ⟨session, hsession, (Except.ok.inj hclose).symm⟩
  · cases hclose

/-- The sessions of the other slots stay live. -/
theorem getSession_disconnect {present : FixSession} {other : Nat}
    (hclose : reactor.onClientDisconnected slot = .ok next)
    (h : next.getSession other = some present) :
    other ≠ slot ∧ reactor.getSession other = some present := by
  obtain ⟨saved, hsaved, rfl⟩ := disconnect_cases hclose
  obtain ⟨hflag, hpresent⟩ := getSession_some.mp h
  have hused := getD_flag.mp hflag
  have hother : other ≠ slot := by
    rintro rfl
    have hbefore := getD_flag.mp (getSession_some.mp hsaved).1
    rw [InUse, List.getElem?_set_self (List.getElem?_eq_some_iff.mp hbefore).1] at hused
    cases hused
  refine ⟨hother, getSession_some.mpr ⟨getD_flag.mpr ?_, hpresent⟩⟩
  rw [InUse, List.getElem?_set_ne (Ne.symm hother)] at hused
  exact hused

theorem inStep_disconnect (h : reactor.InStep)
    (hclose : reactor.onClientDisconnected slot = .ok next) : next.InStep := by
  obtain ⟨session, -, rfl⟩ := disconnect_cases hclose
  exact ⟨by rw [h.flags], by rw [List.length_set]; exact h.sessions,
    by rw [List.length_set]; exact h.peers⟩

/-- A verdict is settled by writing the session back, and closing its slot if it says so. -/
theorem settle_cases {verdict : Verdict} {processed : Processed}
    (hsettle : reactor.settle slot session verdict = .ok processed) :
    (verdict ≠ .closed ∧ processed.reactor = reactor.setSession slot session ∧
        processed.passed = (verdict == .passed)) ∨
      (verdict = .closed ∧
        (reactor.setSession slot session).onClientDisconnected slot = .ok processed.reactor ∧
        processed.passed = false) := by
  unfold settle at hsettle
  split at hsettle
  · rename_i hclosed
    obtain ⟨closed, hclose, rfl⟩ := map_eq_ok.mp hsettle
    exact Or.inr ⟨hclosed, hclose, rfl⟩
  · rename_i hopen
    cases hsettle
    exact Or.inl ⟨hopen, rfl, rfl⟩

/-- A live slot can be closed. -/
theorem settle_live {old : FixSession} (hused : InUse reactor.sessionFlags slot)
    (hold : reactor.sessions[slot]? = some old) (session : FixSession) (verdict : Verdict) :
    ∃ processed, reactor.settle slot session verdict = .ok processed := by
  have hlive : (reactor.setSession slot session).getSession slot = some session :=
    getSession_some.mpr ⟨getD_flag.mpr hused,
      List.getElem?_set_self (List.getElem?_eq_some_iff.mp hold).1⟩
  unfold settle onClientDisconnected
  rw [hlive]
  split
  · exact ⟨_, rfl⟩
  · exact ⟨_, rfl⟩

theorem settle_sessions {verdict : Verdict} {processed : Processed}
    (hsettle : reactor.settle slot session verdict = .ok processed) :
    processed.reactor.sessions = reactor.sessions.set slot session := by
  rcases settle_cases hsettle with ⟨-, hreactor, -⟩ | ⟨-, hclose, -⟩
  · rw [hreactor]
    rfl
  · obtain ⟨saved, -, hreactor⟩ := disconnect_cases hclose
    rw [hreactor]
    rfl

/-- What is done with a session by its verdict leaves the settings and the peers of the reactor. -/
theorem settle_frame {verdict : Verdict} {processed : Processed}
    (hsettle : reactor.settle slot session verdict = .ok processed) :
    (processed.reactor.compId = reactor.compId ∧
        processed.reactor.sequenceNumberValidation = reactor.sequenceNumberValidation) ∧
      processed.reactor.peerSockets = reactor.peerSockets ∧
        processed.reactor.acceptedConnections = reactor.acceptedConnections := by
  rcases settle_cases hsettle with ⟨-, hreactor, -⟩ | ⟨-, hclose, -⟩
  · rw [hreactor]
    exact ⟨⟨rfl, rfl⟩, rfl, rfl⟩
  · obtain ⟨saved, -, hreactor⟩ := disconnect_cases hclose
    rw [hreactor]
    exact ⟨⟨rfl, rfl⟩, rfl, rfl⟩

theorem inStep_settle (h : reactor.InStep) {verdict : Verdict} {processed : Processed}
    (hsettle : reactor.settle slot session verdict = .ok processed) : processed.reactor.InStep := by
  have hset : (reactor.setSession slot session).InStep := inStep_setSession h session
  rcases settle_cases hsettle with ⟨-, hreactor, -⟩ | ⟨-, hclose, -⟩
  · rw [hreactor]
    exact hset
  · exact inStep_disconnect hset hclose

/-- What handling a message does, in terms of the steps of its session. -/
theorem processMessage_cases {message : FixMessage} {currentUTCDateTime : Bytes}
    {processed : Processed} (hsession : reactor.sessions[slot]? = some session)
    (hprocess : reactor.processMessage message session slot currentUTCDateTime = .ok processed) :
    ∃ steps verdict, session.steps reactor message currentUTCDateTime = .ok (steps, verdict) ∧
      reactor.settle slot (session.perform steps) verdict = .ok processed := by
  rw [processMessage_steps hsession] at hprocess
  split at hprocess
  · rename_i steps verdict hsteps
    exact ⟨steps, verdict, hsteps, hprocess⟩
  · cases hprocess

end FixServerReactor

end LiteExchange.Fix
