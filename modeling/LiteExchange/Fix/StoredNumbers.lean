import LiteExchange.Fix.ReactorRuns

/-!
# Stored sequence numbers

The numbers of a session are saved when its slot is closed, and once more when the reactor
stops: `stop` writes every session object that is still in a slot, in the order of the slots,
whether its connection was closed long ago or not. The numbers of the most recent session of
a comp id win where its object comes last among those of the comp id.
-/

namespace LiteExchange.Fix

open Foundation.Ascii Foundation.Runs FixConstants

/-- The numbers that a session holds, and the connection it is on. -/
structure Held where
  connection : Option Nat
  outgoingSequenceNumber : Int
  incomingSequenceNumber : Int
  deriving DecidableEq, Repr

namespace FixSession

def held (session : FixSession) : Held where
  connection := session.tcpConnection
  outgoingSequenceNumber := session.outgoingSequenceNumber
  incomingSequenceNumber := session.incomingSequenceNumber

/-- The message logs a session on. -/
def LogsOn (reactor : FixServerReactor) (message : FixMessage) : Prop :=
  (validateRequiredTags message 0).1 = true ∧ message.messageType = .logon ∧
    validateTargetCompid reactor.compId message = true

instance (reactor : FixServerReactor) (message : FixMessage) : Decidable (LogsOn reactor message) :=
  inferInstanceAs (Decidable (_ ∧ _))

/-! ## The comp id and the connection of a session -/

/-- Sends and accepted messages change neither of them. -/
theorem numberedSteps_frame {session : FixSession} {reactor : FixServerReactor}
    {message : FixMessage} {currentUTCDateTime : Bytes} {taken : List SessionStep}
    {verdict : Verdict}
    (h : session.numberedSteps reactor message currentUTCDateTime = (taken, verdict)) :
    (session.perform taken).targetCompId = session.targetCompId ∧
      (session.perform taken).tcpConnection = session.tcpConnection := by
  rcases numberedSteps_cases h with ⟨-, rfl, -⟩ | ⟨answers, -, rfl, hanswers, -⟩
  · exact ⟨rfl, rfl⟩
  · refine perform_invariant (fun other => other.targetCompId = session.targetCompId ∧
      other.tcpConnection = session.tcpConnection) ?_ ⟨rfl, rfl⟩
    intro other step hmem hother
    cases hmem with
    | head => exact hother
    | tail _ hmem =>
      obtain ⟨answer, rfl⟩ := hanswers step hmem
      exact hother

/-- A message that logs on sets the comp id of the session, any other message leaves it. -/
theorem steps_frame {session : FixSession} {reactor : FixServerReactor} {message : FixMessage}
    {currentUTCDateTime : Bytes} {steps : List SessionStep} {verdict : Verdict}
    (h : session.steps reactor message currentUTCDateTime = .ok (steps, verdict)) :
    (session.perform steps).tcpConnection = session.tcpConnection ∧
      ((session.perform steps).targetCompId = session.targetCompId ∨
        LogsOn reactor message ∧
          (session.perform steps).targetCompId = message.senderCompId) := by
  rcases steps_cases h with ⟨-, -, rejection, rfl⟩ | ⟨-, -, -, rfl, -⟩ |
    ⟨hvalid, hlogon, htarget, heartBeatInterval, encryptionMethod, rest, rfl, hnumbered⟩ |
    ⟨-, -, hnumbered⟩
  · exact ⟨rfl, Or.inl rfl⟩
  · exact ⟨rfl, Or.inl rfl⟩
  · obtain ⟨hcompId, hconnection⟩ := numberedSteps_frame hnumbered
    rw [perform_append]
    exact ⟨hconnection, Or.inr ⟨⟨hvalid, hlogon, htarget⟩, hcompId⟩⟩
  · obtain ⟨hcompId, hconnection⟩ := numberedSteps_frame hnumbered
    exact ⟨hconnection, Or.inl hcompId⟩

end FixSession

/-! ## The most recent session of a comp id -/

/-- The reactor, and what is known of the most recent session of each comp id: the numbers it
holds, or held when it ended. -/
structure Observed where
  reactor : FixServerReactor
  held : Bytes → Option Held := fun _ => none

/-- The sessions that were live before a step or are live after it, as they are after it. -/
def attended (before after : FixServerReactor) : List FixSession :=
  (List.range after.sessions.length).filterMap fun slot =>
    if before.sessionFlags.getD slot false || after.sessionFlags.getD slot false
    then after.sessions[slot]? else none

namespace Observed

def observe (observed : Observed) (after : FixServerReactor) : Observed where
  reactor := after
  held := fun targetCompId =>
    match (attended observed.reactor after).find? fun session =>
        session.targetCompId == targetCompId with
    | some session => some session.held
    | none => observed.held targetCompId

@[simp] theorem observe_reactor (observed : Observed) (after : FixServerReactor) :
    (observed.observe after).reactor = after := rfl

def step (observed : Observed) (label : ReactorLabel) : Option Observed :=
  (observed.reactor.step label).map observed.observe

end Observed

theorem mem_attended {before after : FixServerReactor} {session : FixSession} :
    session ∈ attended before after ↔
      ∃ slot, (InUse before.sessionFlags slot ∨ InUse after.sessionFlags slot) ∧
        after.sessions[slot]? = some session := by
  simp only [attended, List.mem_filterMap, List.mem_range, Option.ite_none_right_eq_some,
    Bool.or_eq_true, FixServerReactor.getD_flag]
  constructor
  · rintro ⟨slot, -, hused, hsession⟩
    exact ⟨slot, hused, hsession⟩
  · rintro ⟨slot, hused, hsession⟩
    exact ⟨slot, (List.getElem?_eq_some_iff.mp hsession).1, hused, hsession⟩

/-- A live session of the comp id, seen after a step, is its most recent one. -/
theorem observe_held {observed : Observed} {after : FixServerReactor} {targetCompId : Bytes} :
    (∃ session ∈ attended observed.reactor after, session.targetCompId = targetCompId ∧
        (observed.observe after).held targetCompId = some session.held) ∨
      (∀ session ∈ attended observed.reactor after, session.targetCompId ≠ targetCompId) ∧
        (observed.observe after).held targetCompId = observed.held targetCompId := by
  simp only [Observed.observe]
  cases hfind : (attended observed.reactor after).find? fun session =>
      session.targetCompId == targetCompId with
  | some session =>
    have htarget := List.find?_some hfind
    exact Or.inl ⟨session, List.mem_of_find?_eq_some hfind, by simpa using htarget, rfl⟩
  | none =>
    have hnone := List.find?_eq_none.mp hfind
    exact Or.inr ⟨fun session hmem => by simpa using hnone session hmem, rfl⟩

/-! ## What is kept -/

/-- A live session that was logged on with the comp id stands in the slot. -/
def LiveAs (reactor : FixServerReactor) (slot : Nat) (session : FixSession) : Prop :=
  InUse reactor.sessionFlags slot ∧ reactor.sessions[slot]? = some session ∧
    session.targetCompId ≠ []

/-- What holds between two steps: the store has the numbers of every comp id without a live
session, and an object of a session that ended still has them too. -/
structure Kept (observed : Observed) : Prop where
  inStep : observed.reactor.InStep
  connection : ∀ (slot : Nat) (session : FixSession),
    observed.reactor.sessions[slot]? = some session →
    ∃ connection < observed.reactor.acceptedConnections, session.tcpConnection = some connection
  distinct : ∀ (slot other : Nat) (session present : FixSession),
    observed.reactor.sessions[slot]? = some session →
    observed.reactor.sessions[other]? = some present →
    session.tcpConnection = present.tcpConnection → slot = other
  alone : ∀ slot other session present, LiveAs observed.reactor slot session →
    LiveAs observed.reactor other present → session.targetCompId = present.targetCompId →
    slot = other
  live : ∀ slot session, LiveAs observed.reactor slot session →
    observed.held session.targetCompId = some session.held
  stored : ∀ targetCompId record, targetCompId ≠ [] →
    observed.held targetCompId = some record →
    (∀ slot session, LiveAs observed.reactor slot session →
      session.targetCompId ≠ targetCompId) →
    observed.reactor.sequenceStore targetCompId =
      some (record.outgoingSequenceNumber, record.incomingSequenceNumber)
  objects : ∀ (slot : Nat) (session : FixSession) (record : Held),
    observed.reactor.sessions[slot]? = some session → session.targetCompId ≠ [] →
    observed.held session.targetCompId = some record →
    session.tcpConnection = record.connection → session.held = record

/-- A step changes the session of a live slot and may then close it. -/
structure Touches (before after : FixServerReactor) (slot : Nat)
    (session changed : FixSession) : Prop where
  used : InUse before.sessionFlags slot
  present : before.sessions[slot]? = some session
  sessions : after.sessions = before.sessions.set slot changed
  accepted : after.acceptedConnections = before.acceptedConnections
  connection : changed.tcpConnection = session.tcpConnection
  closing : (after.sessionFlags = before.sessionFlags ∧
      after.sequenceStore = before.sequenceStore) ∨
    (after.sessionFlags = before.sessionFlags.set slot false ∧
      after.sequenceStore = changed.saveSequenceNumbersToStore before.sequenceStore)

/-- The message is handled on the session of a live slot. -/
theorem touches_settle {reactor : FixServerReactor} {slot : Nat} {session changed : FixSession}
    {verdict : Verdict} {processed : FixServerReactor.Processed}
    (used : InUse reactor.sessionFlags slot) (present : reactor.sessions[slot]? = some session)
    (connection : changed.tcpConnection = session.tcpConnection)
    (hsettle : reactor.settle slot changed verdict = .ok processed) :
    Touches reactor processed.reactor slot session changed := by
  rcases FixServerReactor.settle_cases hsettle with ⟨-, hreactor, -⟩ | ⟨-, hclose, -⟩
  · rw [hreactor]
    exact ⟨used, present, rfl, rfl, connection, Or.inl ⟨rfl, rfl⟩⟩
  · obtain ⟨saved, hsaved, hreactor⟩ := FixServerReactor.disconnect_cases hclose
    have hwritten : (reactor.setSession slot changed).sessions[slot]? = some changed :=
      List.getElem?_set_self (List.getElem?_eq_some_iff.mp present).1
    have hsame := (FixServerReactor.getSession_some.mp hsaved).2
    rw [hwritten, Option.some.injEq] at hsame
    rw [hreactor, ← hsame]
    exact ⟨used, present, rfl, rfl, connection, Or.inr ⟨rfl, rfl⟩⟩

namespace Touches

variable {before after : FixServerReactor} {slot : Nat} {session changed : FixSession}

theorem getElem_self (h : Touches before after slot session changed) :
    after.sessions[slot]? = some changed := by
  obtain ⟨hlt, -⟩ := List.getElem?_eq_some_iff.mp h.present
  rw [h.sessions, List.getElem?_set_self hlt]

theorem getElem_other (h : Touches before after slot session changed) {other : Nat}
    (hother : other ≠ slot) : after.sessions[other]? = before.sessions[other]? := by
  rw [h.sessions, List.getElem?_set_ne (Ne.symm hother)]

theorem inUse_of_after (h : Touches before after slot session changed) {other : Nat}
    (hused : InUse after.sessionFlags other) : InUse before.sessionFlags other := by
  rcases h.closing with ⟨hflags, -⟩ | ⟨hflags, -⟩
  · rw [← hflags]
    exact hused
  · by_cases heq : other = slot
    · rw [heq]
      exact h.used
    · rw [InUse, hflags, List.getElem?_set_ne (Ne.symm heq)] at hused
      exact hused

/-- Every object after the step has the connection of an object before it. -/
theorem connection_before (h : Touches before after slot session changed) {other : Nat}
    {present : FixSession} (hpresent : after.sessions[other]? = some present) :
    ∃ old, before.sessions[other]? = some old ∧ present.tcpConnection = old.tcpConnection := by
  by_cases heq : other = slot
  · rw [heq, h.getElem_self] at hpresent
    cases hpresent
    rw [heq]
    exact ⟨session, h.present, h.connection⟩
  · rw [h.getElem_other heq] at hpresent
    exact ⟨present, hpresent, rfl⟩

/-- The live sessions of the other slots are as before. -/
theorem liveAs_other (h : Touches before after slot session changed) {other : Nat}
    {present : FixSession} (hother : other ≠ slot) (hlive : LiveAs after other present) :
    LiveAs before other present := by
  obtain ⟨hused, hpresent, hnonempty⟩ := hlive
  rw [h.getElem_other hother] at hpresent
  exact ⟨h.inUse_of_after hused, hpresent, hnonempty⟩

theorem liveAs_other_after (h : Touches before after slot session changed) {other : Nat}
    {present : FixSession} (hother : other ≠ slot) (hlive : LiveAs before other present) :
    LiveAs after other present := by
  obtain ⟨hused, hpresent, hnonempty⟩ := hlive
  rw [← h.getElem_other hother] at hpresent
  refine ⟨?_, hpresent, hnonempty⟩
  rcases h.closing with ⟨hflags, -⟩ | ⟨hflags, -⟩
  · rw [hflags]
    exact hused
  · rw [InUse, hflags, List.getElem?_set_ne (Ne.symm hother)]
    exact hused

end Touches

section Touched

variable {observed : Observed} {after : FixServerReactor} {slot : Nat}
  {session changed : FixSession}

/-- The most recent session of a comp id is the changed one, or the one that it was. -/
theorem touched_held (kept : Kept observed)
    (h : Touches observed.reactor after slot session changed)
    (alone : ∀ other present, other ≠ slot → LiveAs observed.reactor other present →
      present.targetCompId ≠ changed.targetCompId)
    {targetCompId : Bytes} (hnonempty : targetCompId ≠ []) :
    (observed.observe after).held targetCompId =
      if changed.targetCompId = targetCompId then some changed.held
      else observed.held targetCompId := by
  have hattended : changed ∈ attended observed.reactor after :=
    mem_attended.mpr ⟨slot, Or.inl h.used, h.getElem_self⟩
  rcases observe_held with ⟨found, hfound, htarget, hheld⟩ | ⟨hnone, hheld⟩
  · rw [hheld]
    obtain ⟨other, hused, hpresent⟩ := mem_attended.mp hfound
    have hbefore : InUse observed.reactor.sessionFlags other := by
      cases hused with
      | inl hold => exact hold
      | inr hnew => exact h.inUse_of_after hnew
    by_cases heq : other = slot
    · rw [heq, h.getElem_self] at hpresent
      cases hpresent
      rw [if_pos htarget]
    · rw [h.getElem_other heq] at hpresent
      have hlive : LiveAs observed.reactor other found := ⟨hbefore, hpresent, by
        rw [htarget]
        exact hnonempty⟩
      have hdiffers := alone other found heq hlive
      rw [htarget] at hdiffers
      rw [if_neg (Ne.symm hdiffers), ← htarget, kept.live other found hlive]
  · rw [hheld, if_neg (hnone changed hattended)]

/-- A session that keeps its comp id stays the only live one. -/
theorem alone_of_same (kept : Kept observed)
    (h : Touches observed.reactor after slot session changed)
    (same : changed.targetCompId = session.targetCompId) :
    ∀ other present, other ≠ slot → LiveAs observed.reactor other present →
      present.targetCompId ≠ changed.targetCompId := by
  intro other present hother hlive htarget
  rw [same] at htarget
  have hsession : LiveAs observed.reactor slot session := ⟨h.used, h.present, by
    rw [← htarget]
    exact hlive.2.2⟩
  exact hother (kept.alone other slot present session hlive hsession htarget)

/-- The comp ids of two live sessions still differ. -/
theorem touched_alone (kept : Kept observed)
    (h : Touches observed.reactor after slot session changed)
    (alone : ∀ other present, other ≠ slot → LiveAs observed.reactor other present →
      present.targetCompId ≠ changed.targetCompId)
    {first second : Nat} {present other : FixSession} (hpresent : LiveAs after first present)
    (hother : LiveAs after second other) (hsame : present.targetCompId = other.targetCompId) :
    first = second := by
  by_cases hfirst : first = slot
  · by_cases hsecond : second = slot
    · omega
    · have hchanged := hpresent.2.1
      rw [hfirst, h.getElem_self] at hchanged
      cases hchanged
      exact absurd hsame.symm (alone second other hsecond (h.liveAs_other hsecond hother))
  · by_cases hsecond : second = slot
    · have hchanged := hother.2.1
      rw [hsecond, h.getElem_self] at hchanged
      cases hchanged
      exact absurd hsame (alone first present hfirst (h.liveAs_other hfirst hpresent))
    · exact kept.alone first second present other (h.liveAs_other hfirst hpresent)
        (h.liveAs_other hsecond hother) hsame

/-- A comp id without a live session that is not the one of the touched session had none. -/
theorem touched_none (h : Touches observed.reactor after slot session changed)
    (keeps : session.targetCompId = [] ∨ changed.targetCompId = session.targetCompId)
    {targetCompId : Bytes} (htarget : changed.targetCompId ≠ targetCompId)
    (hnone : ∀ other present, LiveAs after other present →
      present.targetCompId ≠ targetCompId) :
    ∀ other present, LiveAs observed.reactor other present →
      present.targetCompId ≠ targetCompId := by
  intro other present hlive hsame
  by_cases heq : other = slot
  · have hpresent := hlive.2.1
    rw [heq, h.present] at hpresent
    cases hpresent
    cases keeps with
    | inl hempty => exact hlive.2.2 hempty
    | inr hkeeps => exact htarget (hkeeps.trans hsame)
  · exact hnone other present (h.liveAs_other_after heq hlive) hsame

/-- The touched session is live, or its numbers have just been saved. -/
theorem touched_saved (h : Touches observed.reactor after slot session changed)
    (hnonempty : changed.targetCompId ≠ [])
    (hnone : ∀ other present, LiveAs after other present →
      present.targetCompId ≠ changed.targetCompId) :
    after.sequenceStore changed.targetCompId =
      some (changed.held.outgoingSequenceNumber, changed.held.incomingSequenceNumber) := by
  rcases h.closing with ⟨hflags, -⟩ | ⟨-, hstore⟩
  · refine absurd rfl (hnone slot changed ⟨?_, h.getElem_self, hnonempty⟩)
    rw [hflags]
    exact h.used
  · rw [hstore]
    simp only [FixSession.saveSequenceNumbersToStore, FixSequenceStore.updateSequenceStore,
      if_true, FixSession.held]

/-- The numbers of the other comp ids stay in the store. -/
theorem touched_store_other (h : Touches observed.reactor after slot session changed)
    {targetCompId : Bytes} (htarget : changed.targetCompId ≠ targetCompId) :
    after.sequenceStore targetCompId = observed.reactor.sequenceStore targetCompId := by
  rcases h.closing with ⟨-, hstore⟩ | ⟨-, hstore⟩
  · rw [hstore]
  · rw [hstore]
    simp only [FixSession.saveSequenceNumbersToStore, FixSequenceStore.updateSequenceStore]
    rw [if_neg (Ne.symm htarget)]

theorem touched_kept (kept : Kept observed) (inStep : after.InStep)
    (h : Touches observed.reactor after slot session changed)
    (keeps : session.targetCompId = [] ∨ changed.targetCompId = session.targetCompId)
    (alone : ∀ other present, other ≠ slot → LiveAs observed.reactor other present →
      present.targetCompId ≠ changed.targetCompId) :
    Kept (observed.observe after) := by
  have hheld : ∀ targetCompId, targetCompId ≠ [] →
      (observed.observe after).held targetCompId =
        if changed.targetCompId = targetCompId then some changed.held
        else observed.held targetCompId :=
    fun targetCompId hnonempty => touched_held kept h alone hnonempty
  constructor
  case inStep => exact inStep
  case connection =>
    intro other present hpresent
    obtain ⟨old, hold, hconnection⟩ := h.connection_before hpresent
    rw [hconnection, Observed.observe_reactor, h.accepted]
    exact kept.connection other old hold
  case distinct =>
    intro first second present other hpresent hother hsame
    obtain ⟨oldPresent, hfirst, hconnection⟩ := h.connection_before hpresent
    obtain ⟨oldOther, hsecond, hotherConnection⟩ := h.connection_before hother
    rw [hconnection, hotherConnection] at hsame
    exact kept.distinct first second oldPresent oldOther hfirst hsecond hsame
  case alone =>
    intro first second present other hpresent hother hsame
    exact touched_alone kept h alone hpresent hother hsame
  case live =>
    intro other present hlive
    rw [hheld present.targetCompId hlive.2.2]
    by_cases heq : other = slot
    · have hchanged := hlive.2.1
      rw [heq, Observed.observe_reactor, h.getElem_self] at hchanged
      cases hchanged
      rw [if_pos rfl]
    · have hbefore := h.liveAs_other heq hlive
      rw [if_neg (Ne.symm (alone other present heq hbefore))]
      exact kept.live other present hbefore
  case stored =>
    intro targetCompId record hnonempty hrecord hnone
    rw [hheld targetCompId hnonempty] at hrecord
    by_cases htarget : changed.targetCompId = targetCompId
    · subst htarget
      rw [if_pos rfl] at hrecord
      cases hrecord
      exact touched_saved h hnonempty hnone
    · rw [if_neg htarget] at hrecord
      rw [Observed.observe_reactor, touched_store_other h htarget]
      exact kept.stored targetCompId record hnonempty hrecord
        (touched_none h keeps htarget hnone)
  case objects =>
    intro other present record hpresent hnonempty hrecord hconnection
    rw [hheld present.targetCompId hnonempty] at hrecord
    rw [Observed.observe_reactor] at hpresent
    by_cases heq : other = slot
    · rw [heq, h.getElem_self] at hpresent
      cases hpresent
      rw [if_pos rfl] at hrecord
      exact Option.some.inj hrecord
    · rw [h.getElem_other heq] at hpresent
      by_cases htarget : changed.targetCompId = present.targetCompId
      · -- The record is that of another connection.
        rw [if_pos htarget] at hrecord
        cases hrecord
        exact absurd (kept.distinct other slot present session hpresent h.present
          (hconnection.trans h.connection)) heq
      · rw [if_neg htarget] at hrecord
        exact kept.objects other present record hpresent hnonempty hrecord hconnection

end Touched

/-- A new connection gets a session in a slot that is not in use. -/
structure Accepts (before after : FixServerReactor) (slot : Nat) : Prop where
  unused : ¬ InUse before.sessionFlags slot
  fresh : after.sessions[slot]? = some { tcpConnection := some before.acceptedConnections }
  others : ∀ other, other ≠ slot → after.sessions[other]? = before.sessions[other]? ∧
    after.sessionFlags[other]? = before.sessionFlags[other]?

namespace Accepts

variable {observed : Observed} {before after : FixServerReactor} {slot other : Nat}
  {session : FixSession}

theorem objects (h : Accepts before after slot) (hsession : after.sessions[other]? = some session) :
    other = slot ∧ session = { tcpConnection := some before.acceptedConnections } ∨
      other ≠ slot ∧ before.sessions[other]? = some session := by
  by_cases heq : other = slot
  · rw [heq, h.fresh] at hsession
    exact Or.inl ⟨heq, (Option.some.inj hsession).symm⟩
  · rw [(h.others other heq).1] at hsession
    exact Or.inr ⟨heq, hsession⟩

/-- The new session has no comp id yet. -/
theorem liveAs_iff (h : Accepts before after slot) :
    LiveAs after other session ↔ LiveAs before other session := by
  by_cases heq : other = slot
  · constructor
    · rintro ⟨-, hsession, hnonempty⟩
      rw [heq, h.fresh] at hsession
      cases hsession
      exact absurd rfl hnonempty
    · rintro ⟨hused, -⟩
      rw [heq] at hused
      exact absurd hused h.unused
  · rw [LiveAs, LiveAs, InUse, InUse, (h.others other heq).1, (h.others other heq).2]

theorem observe_held (h : Accepts observed.reactor after slot) (kept : Kept observed)
    {targetCompId : Bytes} (hnonempty : targetCompId ≠ []) :
    (observed.observe after).held targetCompId = observed.held targetCompId := by
  rcases @Fix.observe_held observed after targetCompId with ⟨found, hfound, htarget, hheld⟩ |
    ⟨-, hheld⟩
  · obtain ⟨other, hused, hpresent⟩ := mem_attended.mp hfound
    rw [← htarget] at hnonempty hheld
    have hbefore : LiveAs observed.reactor other found := by
      cases hused with
      | inr hnew => exact h.liveAs_iff.mp ⟨hnew, hpresent, hnonempty⟩
      | inl hold =>
        rcases h.objects hpresent with ⟨-, rfl⟩ | ⟨-, hsame⟩
        · exact absurd rfl hnonempty
        · exact ⟨hold, hsame, hnonempty⟩
    rw [← htarget, hheld, kept.live other found hbefore]
  · exact hheld

/-- No object before the accept has the new connection. -/
theorem connection_ne (kept : Kept observed)
    (hsession : observed.reactor.sessions[other]? = some session) :
    session.tcpConnection ≠ some observed.reactor.acceptedConnections := by
  obtain ⟨connection, hlt, hconnection⟩ := kept.connection other session hsession
  rw [hconnection]
  intro hsame
  cases hsame
  exact absurd hlt (Nat.lt_irrefl _)

theorem distinct (h : Accepts observed.reactor after slot) (kept : Kept observed)
    {first second : Nat} {present : FixSession} (hsession : after.sessions[first]? = some session)
    (hpresent : after.sessions[second]? = some present)
    (hsame : session.tcpConnection = present.tcpConnection) : first = second := by
  rcases h.objects hsession with ⟨hfirst, rfl⟩ | ⟨-, hfirst⟩
  · rcases h.objects hpresent with ⟨hsecond, -⟩ | ⟨-, hsecond⟩
    · exact hfirst.trans hsecond.symm
    · exact absurd hsame.symm (connection_ne kept hsecond)
  · rcases h.objects hpresent with ⟨-, rfl⟩ | ⟨-, hsecond⟩
    · exact absurd hsame (connection_ne kept hfirst)
    · exact kept.distinct first second session present hfirst hsecond hsame

end Accepts

theorem accept_kept {observed : Observed} {after : FixServerReactor} (kept : Kept observed)
    (haccept : observed.reactor.acceptNewConnection = .ok after) :
    Kept (observed.observe after) := by
  obtain ⟨hinStep, -, -, hstore, haccepted, -⟩ :=
    FixServerReactor.accept_cases kept.inStep haccept
  obtain ⟨slot, hunused, -, hfresh, hothers⟩ := FixServerReactor.accept_slot kept.inStep haccept
  have haccepts : Accepts observed.reactor after slot := ⟨hunused, hfresh, hothers⟩
  constructor
  case inStep => exact hinStep
  case connection =>
    intro other session hsession
    rw [Observed.observe_reactor, haccepted]
    rcases haccepts.objects hsession with ⟨-, rfl⟩ | ⟨-, hold⟩
    · exact ⟨_, Nat.lt_succ_self _, rfl⟩
    · obtain ⟨connection, hlt, hconnection⟩ := kept.connection other session hold
      exact ⟨connection, by omega, hconnection⟩
  case distinct =>
    intro first second session present hsession hpresent hsame
    exact haccepts.distinct kept hsession hpresent hsame
  case alone =>
    intro first second session present hsession hpresent hsame
    exact kept.alone first second session present (haccepts.liveAs_iff.mp hsession)
      (haccepts.liveAs_iff.mp hpresent) hsame
  case live =>
    intro other session hsession
    rw [haccepts.observe_held kept hsession.2.2]
    exact kept.live other session (haccepts.liveAs_iff.mp hsession)
  case stored =>
    intro targetCompId record hnonempty hrecord hnone
    rw [haccepts.observe_held kept hnonempty] at hrecord
    rw [Observed.observe_reactor, hstore]
    exact kept.stored targetCompId record hnonempty hrecord fun other session hsession =>
      hnone other session (haccepts.liveAs_iff.mpr hsession)
  case objects =>
    intro other session record hsession hnonempty hrecord hconnection
    rw [haccepts.observe_held kept hnonempty] at hrecord
    rcases haccepts.objects hsession with ⟨-, rfl⟩ | ⟨-, hold⟩
    · exact absurd rfl hnonempty
    · exact kept.objects other session record hold hnonempty hrecord hconnection

/-! ## Runs -/

namespace Observed

/-- At most one live session has a comp id: no other live session has that of a LOGON. -/
def OneSession (observed : Observed) : ReactorLabel → Prop
  | .handle slot message _ => FixSession.LogsOn observed.reactor message →
    ∀ other < observed.reactor.sessions.length, other ≠ slot →
      InUse observed.reactor.sessionFlags other →
      ∀ session ∈ observed.reactor.sessions[other]?,
        session.targetCompId ≠ message.senderCompId
  | _ => True

/-- No message is handled after the one that closed its slot, and a LOGON on a session that is
logged on has the same comp id. -/
def KeepsSession (observed : Observed) : ReactorLabel → Prop
  | .handle slot message _ => InUse observed.reactor.sessionFlags slot ∧
    (FixSession.LogsOn observed.reactor message →
      ∀ session ∈ observed.reactor.sessions[slot]?,
        session.targetCompId = [] ∨ session.targetCompId = message.senderCompId)
  | _ => True

/-- The last object of a comp id, in the order of the slots, is that of its most recent
session. -/
def LastIsLatest (observed : Observed) : Prop :=
  ∀ session ∈ observed.reactor.sessions, session.targetCompId ≠ [] →
    ∀ last ∈ observed.reactor.sessions.reverse.find? fun other =>
        other.targetCompId == session.targetCompId,
      ∀ record ∈ observed.held session.targetCompId, last.tcpConnection = record.connection

instance (observed : Observed) (label : ReactorLabel) : Decidable (observed.OneSession label) :=
  match label with
  | .handle _ _ _ => inferInstanceAs (Decidable (_ → ∀ other < _, _ ≠ _ → _ = _ →
      ∀ session ∈ _, _))
  | .accept => inferInstanceAs (Decidable True)
  | .disconnect _ => inferInstanceAs (Decidable True)
  | .send _ _ _ => inferInstanceAs (Decidable True)

instance (observed : Observed) (label : ReactorLabel) : Decidable (observed.KeepsSession label) :=
  match label with
  | .handle _ _ _ => inferInstanceAs (Decidable (_ = _ ∧ (_ → ∀ session ∈ _, _)))
  | .accept => inferInstanceAs (Decidable True)
  | .disconnect _ => inferInstanceAs (Decidable True)
  | .send _ _ _ => inferInstanceAs (Decidable True)

instance (observed : Observed) : Decidable observed.LastIsLatest :=
  inferInstanceAs (Decidable (∀ session ∈ _, _ → ∀ last ∈ _, ∀ record ∈ _, _))

def initial (compId : Bytes) (sequenceNumberValidation : Bool) (store : FixSequenceStore) :
    Observed where
  reactor := FixServerReactor.initial compId sequenceNumberValidation store

theorem initial_kept (compId : Bytes) (sequenceNumberValidation : Bool)
    (store : FixSequenceStore) : Kept (initial compId sequenceNumberValidation store) where
  inStep := FixServerReactor.initial_inStep _ _ _
  connection := fun slot session hsession => by cases hsession
  distinct := fun slot other session present hsession => by cases hsession
  alone := fun slot other session present hsession => by cases hsession.2.1
  live := fun slot session hsession => by cases hsession.2.1
  stored := fun targetCompId record hnonempty hrecord => by cases hrecord
  objects := fun slot session record hsession => by cases hsession

theorem step_kept {observed next : Observed} (kept : Kept observed) {label : ReactorLabel}
    (one : observed.OneSession label) (keeps : observed.KeepsSession label)
    (hstep : observed.step label = some next) : Kept next := by
  obtain ⟨after, hafter, rfl⟩ := Option.map_eq_some_iff.mp hstep
  have hinStep := FixServerReactor.step_inStep kept.inStep hafter
  cases label with
  | accept => exact accept_kept kept (FixServerReactor.toOption_eq_some.mp hafter)
  | disconnect slot =>
    obtain ⟨session, hsession, hclosed⟩ :=
      FixServerReactor.disconnect_cases (FixServerReactor.toOption_eq_some.mp hafter)
    obtain ⟨hflag, hpresent⟩ := FixServerReactor.getSession_some.mp hsession
    have htouches : Touches observed.reactor after slot session session := by
      rw [hclosed]
      exact ⟨FixServerReactor.getD_flag.mp hflag, hpresent,
        (congrArg FixServerReactor.sessions (FixServerReactor.setSession_self hpresent)).symm,
        rfl, rfl, Or.inr ⟨rfl, rfl⟩⟩
    exact touched_kept kept hinStep htouches (Or.inr rfl) (alone_of_same kept htouches rfl)
  | handle slot message currentUTCDateTime =>
    obtain ⟨session, steps, verdict, processed, hpresent, hsteps, hsettle, rfl⟩ :=
      FixServerReactor.handle_cases hafter
    obtain ⟨hconnection, htarget⟩ := FixSession.steps_frame hsteps
    have htouches := touches_settle keeps.1 hpresent hconnection hsettle
    rcases htarget with hsame | ⟨hlogsOn, hsender⟩
    · exact touched_kept kept hinStep htouches (Or.inr hsame)
        (alone_of_same kept htouches hsame)
    · refine touched_kept kept hinStep htouches ?_ ?_
      · rcases keeps.2 hlogsOn session hpresent with hempty | hsame
        · exact Or.inl hempty
        · exact Or.inr (hsender.trans hsame.symm)
      · rintro other present hother ⟨hused, hsession, -⟩
        rw [hsender]
        exact one hlogsOn other (List.getElem?_eq_some_iff.mp hsession).1 hother hused present
          hsession
  | send slot message currentUTCDateTime =>
    obtain ⟨session, hsession, rfl⟩ := Option.map_eq_some_iff.mp hafter
    obtain ⟨hflag, hpresent⟩ := FixServerReactor.getSession_some.mp hsession
    have htouches : Touches observed.reactor (observed.reactor.setSession slot
        (session.send message currentUTCDateTime)) slot session
          (session.send message currentUTCDateTime) :=
      ⟨FixServerReactor.getD_flag.mp hflag, hpresent, rfl, rfl, rfl, Or.inl ⟨rfl, rfl⟩⟩
    exact touched_kept kept hinStep htouches (Or.inr rfl) (alone_of_same kept htouches rfl)

/-- The assumption on the clients and the condition on the run. -/
def Orderly (observed : Observed) (label : ReactorLabel) : Prop :=
  observed.OneSession label ∧ observed.KeepsSession label

instance (observed : Observed) (label : ReactorLabel) : Decidable (observed.Orderly label) :=
  inferInstanceAs (Decidable (_ ∧ _))

theorem run_kept {compId : Bytes} {sequenceNumberValidation : Bool} {store : FixSequenceStore}
    {labels : List ReactorLabel} {observed : Observed}
    (hrun : run step (initial compId sequenceNumberValidation store) labels = some observed)
    (hok : Along step Orderly (initial compId sequenceNumberValidation store) labels) :
    Kept observed := by
  refine run_induction_along (fun _ observed => Kept observed) (initial_kept _ _ _) ?_ hrun hok
  rintro - before label after - hkept ⟨hone, hkeeps⟩ hstep
  exact step_kept hkept hone hkeeps hstep

/-- After a disconnect a comp id logs on with the numbers that its last session had. -/
theorem restored_on_reconnect {compId : Bytes} {sequenceNumberValidation : Bool}
    {store : FixSequenceStore} {labels : List ReactorLabel} {observed : Observed}
    (hrun : run step (initial compId sequenceNumberValidation store) labels = some observed)
    (hok : Along step Orderly (initial compId sequenceNumberValidation store) labels)
    {targetCompId : Bytes} {record : Held} (hnonempty : targetCompId ≠ [])
    (hrecord : observed.held targetCompId = some record)
    (ended : ∀ slot session, LiveAs observed.reactor slot session →
      session.targetCompId ≠ targetCompId) :
    observed.reactor.sequenceStore.loadFromSequenceStore targetCompId =
      (record.outgoingSequenceNumber, record.incomingSequenceNumber) := by
  rw [FixSequenceStore.loadFromSequenceStore,
    (run_kept hrun hok).stored targetCompId record hnonempty hrecord ended, Option.getD_some]

end Observed

/-- `stop` leaves the numbers of the last object of a comp id. -/
theorem stop_stores {store : FixSequenceStore} {sessions : List FixSession}
    (connected : ∀ session ∈ sessions, session.connected = true) (targetCompId : Bytes) :
    sessions.foldl (fun store session =>
        if session.connected then session.saveSequenceNumbersToStore store else store) store
        targetCompId =
      match sessions.reverse.find? fun session => session.targetCompId == targetCompId with
      | some session =>
        some (session.outgoingSequenceNumber, session.incomingSequenceNumber)
      | none => store targetCompId := by
  induction sessions using List.reverseRecOn with
  | nil => rfl
  | append_singleton front session ih =>
    have hfront := ih fun other hmem => connected other (List.mem_append_left _ hmem)
    have hsession := connected session (by simp)
    rw [List.foldl_append, List.foldl_cons, List.foldl_nil, if_pos hsession,
      List.reverse_append, List.reverse_singleton, List.singleton_append, List.find?_cons]
    by_cases htarget : session.targetCompId = targetCompId
    · simp only [FixSession.saveSequenceNumbersToStore, FixSequenceStore.updateSequenceStore,
        htarget, if_true, BEq.rfl]
    · have hother : (session.targetCompId == targetCompId) = false := by simpa using htarget
      rw [hother, FixSession.saveSequenceNumbersToStore, FixSequenceStore.updateSequenceStore,
        if_neg (Ne.symm htarget)]
      exact hfront

namespace Observed

theorem numbers_survive {compId : Bytes} {sequenceNumberValidation : Bool}
    {store : FixSequenceStore} {labels : List ReactorLabel} {observed : Observed}
    (hrun : run step (initial compId sequenceNumberValidation store) labels = some observed)
    (hok : Along step Orderly (initial compId sequenceNumberValidation store) labels)
    (hlast : observed.LastIsLatest) :
    ∀ targetCompId record, targetCompId ≠ [] → observed.held targetCompId = some record →
      observed.reactor.stop.loadFromSequenceStore targetCompId =
        (record.outgoingSequenceNumber, record.incomingSequenceNumber) := by
  have hkept := run_kept hrun hok
  intro targetCompId record hnonempty hrecord
  have hconnected : ∀ session ∈ observed.reactor.sessions, session.connected = true := by
    intro session hmem
    obtain ⟨slot, hslot⟩ := List.getElem?_of_mem hmem
    obtain ⟨connection, -, hconnection⟩ := hkept.connection slot session hslot
    rw [FixSession.connected, hconnection]
    rfl
  rw [FixSequenceStore.loadFromSequenceStore, FixServerReactor.stop,
    stop_stores hconnected targetCompId]
  cases hfind : observed.reactor.sessions.reverse.find? fun session =>
      session.targetCompId == targetCompId with
  | some session =>
    -- Its object comes last, and still has the numbers.
    have htarget : session.targetCompId = targetCompId := by
      simpa using List.find?_some hfind
    have hmem : session ∈ observed.reactor.sessions :=
      List.mem_reverse.mp (List.mem_of_find?_eq_some hfind)
    obtain ⟨slot, hslot⟩ := List.getElem?_of_mem hmem
    rw [← htarget] at hnonempty hrecord hfind
    have hconnection := hlast session hmem hnonempty session hfind record hrecord
    have hheld := hkept.objects slot session record hslot hnonempty hrecord hconnection
    rw [← hheld]
    rfl
  | none =>
    have hended : ∀ slot session, LiveAs observed.reactor slot session →
        session.targetCompId ≠ targetCompId := by
      rintro slot session ⟨-, hslot, -⟩
      have hnot := List.find?_eq_none.mp hfind session
        (List.mem_reverse.mpr (List.mem_of_getElem? hslot))
      simpa using hnot
    rw [hkept.stored targetCompId record hnonempty hrecord hended, Option.getD_some]

/-- CLIENT reconnects into its own slot. -/
theorem numbers_survive_reconnect :
    ∃ observed, run step (initial (ascii "SERVER") true fun _ => none)
        [.accept, .handle 0 (clientLogon 1) (ascii "T"), .handle 0 (clientOrder 2) (ascii "T"),
          .disconnect 0, .accept, .handle 0 (clientLogon 3) (ascii "T")] = some observed ∧
      ∀ targetCompId record, targetCompId ≠ [] → observed.held targetCompId = some record →
        observed.reactor.stop.loadFromSequenceStore targetCompId =
          (record.outgoingSequenceNumber, record.incomingSequenceNumber) := by
  have hsome : (run step (initial (ascii "SERVER") true fun _ => none)
      [.accept, .handle 0 (clientLogon 1) (ascii "T"), .handle 0 (clientOrder 2) (ascii "T"),
        .disconnect 0, .accept, .handle 0 (clientLogon 3) (ascii "T")]).map
      (fun observed => decide observed.LastIsLatest) = some true := by
    decide +kernel
  obtain ⟨observed, hrun, hlast⟩ := Option.map_eq_some_iff.mp hsome
  exact ⟨observed, hrun, numbers_survive hrun (by decide +kernel) (of_decide_eq_true hlast)⟩

/-- CLIENT leaves slot 1 and comes back in slot 0: the object in slot 1 is written last. -/
theorem numbers_overwritten :
    ¬ ∀ compId sequenceNumberValidation store labels observed,
      run step (initial compId sequenceNumberValidation store) labels = some observed →
      Along step OneSession (initial compId sequenceNumberValidation store) labels →
      ∀ targetCompId record, targetCompId ≠ [] → observed.held targetCompId = some record →
        observed.reactor.stop.loadFromSequenceStore targetCompId =
          (record.outgoingSequenceNumber, record.incomingSequenceNumber) := by
  intro h
  have hstopped : (run step (initial (ascii "SERVER") true fun _ => none)
      [.accept, .accept, .handle 1 (clientLogon 1) (ascii "T"), .disconnect 1, .disconnect 0,
        .accept, .handle 0 (clientLogon 2) (ascii "T")]).map (fun observed =>
          observed.held (ascii "CLIENT") == some ⟨some 2, 3, 2⟩ &&
            observed.reactor.stop.loadFromSequenceStore (ascii "CLIENT") == (2, 1)) =
        some true := by
    decide +kernel
  obtain ⟨observed, hrun, htest⟩ := Option.map_eq_some_iff.mp hstopped
  simp only [Bool.and_eq_true, beq_iff_eq] at htest
  have hrestored := h _ _ _ _ observed hrun (by decide +kernel) (ascii "CLIENT") _ (by decide)
    htest.1
  rw [htest.2] at hrestored
  simp at hrestored

end Observed

end LiteExchange.Fix
