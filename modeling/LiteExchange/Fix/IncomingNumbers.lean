import LiteExchange.Fix.ReactorRuns
import LiteExchange.Foundation.Counter

/-!
# Incoming sequence numbers

There is no logged-on state: before its LOGON a session expects the number after the one of
the constructor, and whoever sends that number is accepted. A LOGON overwrites the number of
the session with the stored one, also on a session that is logged on already, so that
numbers accepted before are accepted again.
-/

namespace LiteExchange.Fix

open Foundation.Ascii Foundation.Counter Foundation.Runs FixConstants

namespace SessionEvent

def isLoggedOn : SessionEvent → Bool
  | .loggedOn _ => true
  | _ => false

def acceptedNumber : SessionEvent → Option Int
  | .accepted message => some (FixSession.toInt message.sequenceNumber)
  | _ => none

end SessionEvent

/-- The numbers of the messages that got past the validation, in order. -/
def acceptedNumbers (history : List SessionEvent) : List Int :=
  history.filterMap SessionEvent.acceptedNumber

theorem acceptedNumbers_append (front back : List SessionEvent) :
    acceptedNumbers (front ++ back) = acceptedNumbers front ++ acceptedNumbers back :=
  List.filterMap_append

namespace FixSession

/-- A LOGON was handled on the connection. -/
def loggedOn (session : FixSession) : Bool := session.history.any SessionEvent.isLoggedOn

/-- No order or cancel gets through unless a LOGON with the server's comp id as its target was
handled before it. -/
def LogonFirst (compId : Bytes) (session : FixSession) : Prop :=
  ∀ front message back, session.history = front ++ .accepted message :: back →
    message.messageType = .newOrder ∨ message.messageType = .cancel →
    ∃ logon, .loggedOn logon ∈ front ∧ logon.messageType = .logon ∧ logon.targetCompId = compId

/-- From the first LOGON on the accepted numbers go up by one, and no NEW_ORDER has a number
that was accepted before. -/
structure NoReplay (session : FixSession) : Prop where
  increasing : Consecutive
    (acceptedNumbers (session.history.dropWhile fun event => !event.isLoggedOn))
  once : ∀ front message back, session.history = front ++ .accepted message :: back →
    message.messageType = .newOrder → toInt message.sequenceNumber ∉ acceptedNumbers front

/-! ## Sessions that accept nothing before their LOGON -/

/-- Nothing was accepted before the first LOGON. -/
structure Opened (compId : Bytes) (history : List SessionEvent) : Prop where
  logon : ∃ front message back, history = front ++ .loggedOn message :: back ∧
    acceptedNumbers front = [] ∧ message.messageType = .logon ∧ message.targetCompId = compId

/-- A session that waits for its LOGON. -/
structure Waiting (session : FixSession) : Prop where
  loggedOn : session.loggedOn = false
  accepted : acceptedNumbers session.history = []
  incoming : session.incomingSequenceNumber = 1

theorem Opened.append {compId : Bytes} {history : List SessionEvent} (h : Opened compId history)
    (events : List SessionEvent) : Opened compId (history ++ events) := by
  obtain ⟨front, message, back, rfl, hfront, hmessage⟩ := h.logon
  exact ⟨front, message, back ++ events, by simp, hfront, hmessage⟩

theorem opened_perform {compId : Bytes} {session : FixSession} (h : Opened compId session.history)
    (steps : List SessionStep) : Opened compId (session.perform steps).history := by
  refine perform_invariant (fun session => Opened compId session.history) ?_ h
  intro other step _ hother
  obtain ⟨events, hevents⟩ := performStep_history other step
  rw [hevents]
  exact hother.append events

theorem waiting_send {session : FixSession} (h : session.Waiting) (message : FixMessage)
    (currentUTCDateTime : Bytes) : (session.send message currentUTCDateTime).Waiting where
  loggedOn := by
    have hloggedOn := h.loggedOn
    simp only [FixSession.loggedOn, send, List.any_append] at hloggedOn ⊢
    rw [hloggedOn]
    rfl
  accepted := by
    simp only [send, acceptedNumbers_append, h.accepted]
    rfl
  incoming := h.incoming

/-- A handled LOGON to the server opens the session, whatever else it does. -/
theorem opened_logonSteps {session : FixSession} {reactor : FixServerReactor}
    {message : FixMessage} {currentUTCDateTime : Bytes} (heartBeatInterval encryptionMethod : Int)
    (before : session.Waiting ∧ message.targetCompId = reactor.compId ∨
      Opened reactor.compId session.history)
    (logon : message.messageType = .logon) :
    Opened reactor.compId (session.perform (session.logonSteps reactor message heartBeatInterval
      encryptionMethod currentUTCDateTime)).history := by
  have hfirst : Opened reactor.compId (session.logOn reactor.sequenceStore message).history := by
    cases before with
    | inl hwaiting =>
      exact ⟨session.history, message, [], rfl, hwaiting.1.accepted, logon, hwaiting.2⟩
    | inr hopened => exact hopened.append [.loggedOn message]
  exact opened_perform hfirst _

/-- Where nothing was accepted before the LOGON, orders come after it. -/
theorem Opened.logonFirst {compId : Bytes} {session : FixSession}
    (h : Opened compId session.history) : session.LogonFirst compId := by
  intro front message back hhistory _
  obtain ⟨before, logon, after, hopened, hbefore, htype, htarget⟩ := h.logon
  refine ⟨logon, ?_, htype, htarget⟩
  rw [hopened] at hhistory
  rcases List.append_eq_append_iff.mp hhistory with ⟨between, rfl, hrest⟩ | ⟨between, rfl, hrest⟩
  · cases between with
    | nil => cases hrest
    | cons event between =>
      rw [List.cons_append, List.cons.injEq] at hrest
      rw [hrest.1]
      simp
  · -- The message would be accepted before the LOGON.
    cases between with
    | nil => cases hrest
    | cons event between =>
      rw [List.cons_append, List.cons.injEq] at hrest
      rw [← hrest.1, acceptedNumbers_append] at hbefore
      simp [acceptedNumbers, SessionEvent.acceptedNumber] at hbefore

/-! ## Accepted numbers that go up by one -/

/-- The number of the session counts what it has accepted. -/
def Counting (session : FixSession) : Prop :=
  Counts (acceptedNumbers session.history) session.incomingSequenceNumber

theorem counting_send {session : FixSession} (h : session.Counting) (message : FixMessage)
    (currentUTCDateTime : Bytes) : (session.send message currentUTCDateTime).Counting := by
  have hnumbers : acceptedNumbers (session.send message currentUTCDateTime).history =
      acceptedNumbers session.history := by
    simp only [send, acceptedNumbers_append]
    exact List.append_nil _
  rw [Counting, hnumbers]
  exact h

theorem counting_logonSteps {session : FixSession} {reactor : FixServerReactor}
    {message : FixMessage} (heartBeatInterval encryptionMethod : Int) (currentUTCDateTime : Bytes)
    (h : session.Counting)
    (stored : acceptedNumbers session.history ≠ [] →
      (reactor.sequenceStore.loadFromSequenceStore message.senderCompId).2 =
        session.incomingSequenceNumber) :
    (session.perform (session.logonSteps reactor message heartBeatInterval encryptionMethod
      currentUTCDateTime)).Counting := by
  have hnumbers : acceptedNumbers (session.logOn reactor.sequenceStore message).history =
      acceptedNumbers session.history := by
    simp only [logOn, restoreSequenceNumbersFromStore, acceptedNumbers_append]
    exact List.append_nil _
  have hlogOn : (session.logOn reactor.sequenceStore message).Counting := by
    rw [Counting, hnumbers]
    exact h.overwrite stored
  have hconfigure : ((session.logOn reactor.sequenceStore message).performStep
      (.configure heartBeatInterval message.fixVersion encryptionMethod)).Counting := hlogOn
  exact counting_send hconfigure _ currentUTCDateTime

/-- A message with the next number is counted. -/
theorem counting_accept {session : FixSession} (h : session.Counting) {message : FixMessage}
    (next : toInt message.sequenceNumber = FixMessage.narrow (session.incomingSequenceNumber + 1))
    (fits : FixMessage.IsInt (session.incomingSequenceNumber + 1)) :
    (session.performStep (.accept message)).Counting := by
  have hnumbers : acceptedNumbers (session.performStep (.accept message)).history =
      acceptedNumbers session.history ++ [toInt message.sequenceNumber] :=
    acceptedNumbers_append _ _
  have hcounts := h.snoc
  rw [← FixMessage.narrow_of_isInt fits, ← next] at hcounts
  rw [Counting, hnumbers]
  exact hcounts

theorem counting_numberedSteps {session : FixSession} {reactor : FixServerReactor}
    {message : FixMessage} {currentUTCDateTime : Bytes} {taken : List SessionStep}
    {verdict : Verdict} (h : session.Counting) (validation : reactor.sequenceNumberValidation)
    (fits : FixMessage.IsInt (session.incomingSequenceNumber + 1))
    (hsteps : session.numberedSteps reactor message currentUTCDateTime = (taken, verdict)) :
    (session.perform taken).Counting := by
  rcases numberedSteps_cases hsteps with ⟨-, rfl, -⟩ | ⟨answers, hnext, rfl, hanswers, -⟩
  · exact h
  · have haccepted := counting_accept h (hnext validation) fits
    have hall : ((session.performStep (.accept message)).perform answers).Counting := by
      refine perform_invariant Counting ?_ haccepted
      intro other step hmem hother
      obtain ⟨answer, rfl⟩ := hanswers step hmem
      exact counting_send hother answer currentUTCDateTime
    exact hall

theorem Counting.noReplay {session : FixSession} (h : session.Counting) : session.NoReplay where
  increasing := by
    have hsplit := acceptedNumbers_append
      (session.history.takeWhile fun event => !event.isLoggedOn)
      (session.history.dropWhile fun event => !event.isLoggedOn)
    rw [List.takeWhile_append_dropWhile] at hsplit
    have hconsecutive := h.consecutive
    rw [hsplit] at hconsecutive
    exact hconsecutive.right
  once := by
    intro front message back hhistory _ hmem
    have hnodup := h.consecutive.nodup
    rw [hhistory, acceptedNumbers_append] at hnodup
    have hdistinct := (List.nodup_append.mp hnodup).2.2 _ hmem (toInt message.sequenceNumber)
      List.mem_cons_self
    exact hdistinct rfl

end FixSession

/-! ## Runs -/

namespace FixServerReactor

/-- Before its LOGON a session is sent no other valid message with the number that it
expects, and the LOGON that is let through has exactly the server's comp id as its target:
the comparison ignores case, and what follows a NUL. -/
def AwaitsLogon (reactor : FixServerReactor) : ReactorLabel → Prop
  | .handle slot message _ => ∀ session ∈ reactor.sessions[slot]?, session.loggedOn = false →
    (FixSession.validateRequiredTags message 0).1 = true →
    if message.messageType = .logon then
      FixSession.validateTargetCompid reactor.compId message = true →
        message.targetCompId = reactor.compId
    else FixSession.toInt message.sequenceNumber ≠ 2
  | _ => True

instance (reactor : FixServerReactor) (label : ReactorLabel) :
    Decidable (reactor.AwaitsLogon label) :=
  match label with
  | .handle _ _ _ => inferInstanceAs (Decidable (∀ session ∈ _, _))
  | .accept => inferInstanceAs (Decidable True)
  | .disconnect _ => inferInstanceAs (Decidable True)
  | .send _ _ _ => inferInstanceAs (Decidable True)

/-- A LOGON on a session that has accepted messages is of a comp id with the session's number
in the store, and the number that a message is compared with is an `int`. -/
def RestoresIncoming (reactor : FixServerReactor) : ReactorLabel → Prop
  | .handle slot message _ => ∀ session ∈ reactor.sessions[slot]?,
    (FixSession.validateRequiredTags message 0).1 = true →
    if message.messageType = .logon then
      FixSession.validateTargetCompid reactor.compId message = true →
        let stored := (reactor.sequenceStore.loadFromSequenceStore message.senderCompId).2
        (acceptedNumbers session.history ≠ [] → stored = session.incomingSequenceNumber) ∧
          FixMessage.IsInt (stored + 1)
    else FixMessage.IsInt (session.incomingSequenceNumber + 1)
  | _ => True

instance (reactor : FixServerReactor) (label : ReactorLabel) :
    Decidable (reactor.RestoresIncoming label) :=
  match label with
  | .handle _ _ _ => inferInstanceAs (Decidable (∀ session ∈ _, _))
  | .accept => inferInstanceAs (Decidable True)
  | .disconnect _ => inferInstanceAs (Decidable True)
  | .send _ _ _ => inferInstanceAs (Decidable True)

open FixSession

theorem opened_rule : SessionRule AwaitsLogon fun reactor session =>
    reactor.sequenceNumberValidation = true →
      session.Waiting ∨ Opened reactor.compId session.history where
  fresh := fun _ _ _ => Or.inl ⟨rfl, rfl, rfl⟩
  settings := by
    intro reactor next session hcompId hvalidation h
    rw [hcompId, hvalidation]
    exact h
  send := by
    intro reactor slot session message currentUTCDateTime _ _ h hvalidation
    cases h hvalidation with
    | inl hwaiting => exact Or.inl (waiting_send hwaiting message currentUTCDateTime)
    | inr hopened => exact Or.inr (hopened.append _)
  handle := by
    intro reactor slot session message currentUTCDateTime steps verdict hslot hok hsteps h
      hvalidation
    rcases steps_cases hsteps with ⟨-, -, rejection, rfl⟩ | ⟨-, -, -, rfl, -⟩ |
      ⟨hvalid, hlogon, htarget, heartBeatInterval, encryptionMethod, rest, rfl, -⟩ |
      ⟨hvalid, hother, hnumbered⟩
    · cases h hvalidation with
      | inl hwaiting => exact Or.inl (waiting_send hwaiting rejection currentUTCDateTime)
      | inr hopened => exact Or.inr (hopened.append _)
    · exact h hvalidation
    · have hbefore : session.Waiting ∧ message.targetCompId = reactor.compId ∨
          Opened reactor.compId session.history := by
        refine (h hvalidation).imp_left fun hwaiting => ⟨hwaiting, ?_⟩
        have hexact := hok session hslot hwaiting.loggedOn hvalid
        rw [if_pos hlogon] at hexact
        exact hexact htarget
      rw [perform_append]
      exact Or.inr (opened_perform
        (opened_logonSteps heartBeatInterval encryptionMethod hbefore hlogon) rest)
    · cases h hvalidation with
      | inr hopened => exact Or.inr (opened_perform hopened steps)
      | inl hwaiting =>
        rcases numberedSteps_cases hnumbered with ⟨-, rfl, -⟩ | ⟨answers, hnext, -⟩
        · exact Or.inl hwaiting
        · -- The number would be the second one.
          have hnumber := hnext hvalidation
          have hunsent := hok session hslot hwaiting.loggedOn hvalid
          rw [hwaiting.incoming] at hnumber
          rw [if_neg hother] at hunsent
          exact absurd hnumber hunsent

theorem counting_rule : SessionRule RestoresIncoming fun reactor session =>
    reactor.sequenceNumberValidation = true → session.Counting where
  fresh := fun _ _ _ => counts_nil _
  settings := by
    intro reactor next session _ hvalidation h
    rw [hvalidation]
    exact h
  send := by
    intro reactor slot session message currentUTCDateTime _ _ h hvalidation
    exact counting_send (h hvalidation) message currentUTCDateTime
  handle := by
    intro reactor slot session message currentUTCDateTime steps verdict hslot hok hsteps h
      hvalidation
    have hcounting := h hvalidation
    rcases steps_cases hsteps with ⟨-, -, rejection, rfl⟩ | ⟨-, -, -, rfl, -⟩ |
      ⟨hvalid, hlogon, htarget, heartBeatInterval, encryptionMethod, rest, rfl, hnumbered⟩ |
      ⟨hvalid, hother, hnumbered⟩
    · exact counting_send hcounting rejection currentUTCDateTime
    · exact hcounting
    · have hrestored := hok session hslot hvalid
      rw [if_pos hlogon] at hrestored
      obtain ⟨hstored, hfits⟩ := hrestored htarget
      rw [perform_append]
      have hopening := counting_logonSteps heartBeatInterval encryptionMethod currentUTCDateTime
        hcounting hstored
      exact counting_numberedSteps hopening hvalidation hfits hnumbered
    · have hfits := hok session hslot hvalid
      rw [if_neg hother] at hfits
      exact counting_numberedSteps hcounting hvalidation hfits hnumbered

theorem logon_before_orders {compId : Bytes} {store : FixSequenceStore}
    {labels : List ReactorLabel} {reactor : FixServerReactor}
    (hrun : run step (initial compId true store) labels = some reactor)
    (hok : Along step AwaitsLogon (initial compId true store) labels) :
    ∀ session ∈ reactor.sessions, session.LogonFirst compId := by
  intro session hmem
  obtain ⟨-, hcompId, hvalidation⟩ := run_settings hrun
  cases opened_rule.run hrun hok session hmem hvalidation with
  | inr hopened =>
    rw [hcompId] at hopened
    exact hopened.logonFirst
  | inl hwaiting =>
    -- Nothing was accepted.
    intro front message back hhistory _
    have hnone := hwaiting.accepted
    rw [hhistory, acceptedNumbers_append] at hnone
    simp [acceptedNumbers, SessionEvent.acceptedNumber] at hnone

/-- A LOGON and then an order. -/
theorem logon_before_orders_clientOrder :
    ∃ reactor, run step (initial (ascii "SERVER") true fun _ => none)
        [.accept, .handle 0 (clientLogon 1) (ascii "T"), .handle 0 (clientOrder 2) (ascii "T")] =
          some reactor ∧
      ∀ session ∈ reactor.sessions, session.LogonFirst (ascii "SERVER") := by
  have hsome : (run step (initial (ascii "SERVER") true fun _ => none)
      [.accept, .handle 0 (clientLogon 1) (ascii "T"),
        .handle 0 (clientOrder 2) (ascii "T")]).isSome = true := by
    decide +kernel
  obtain ⟨reactor, hrun⟩ := Option.isSome_iff_exists.mp hsome
  exact ⟨reactor, hrun, logon_before_orders hrun (by decide +kernel)⟩

/-- The first message of the connection is an order numbered 2. -/
theorem orders_without_logon :
    ¬ ∀ compId store labels reactor, run step (initial compId true store) labels = some reactor →
      ∀ session ∈ reactor.sessions, session.LogonFirst compId := by
  intro h
  have haccepted : (run step (initial (ascii "SERVER") true fun _ => none)
      [.accept, .handle 0 (clientOrder 2) (ascii "T")]).map (fun reactor =>
        reactor.sessions.any fun session => match session.history with
          | [.accepted message] => message.messageType == .newOrder
          | _ => false) = some true := by
    decide +kernel
  obtain ⟨reactor, hrun, htest⟩ := Option.map_eq_some_iff.mp haccepted
  obtain ⟨session, hmem, hsession⟩ := List.any_eq_true.mp htest
  split at hsession
  · rename_i message hhistory
    obtain ⟨logon, hlogon, -⟩ := h _ _ _ reactor hrun session hmem [] message [] hhistory
      (Or.inl (by simpa using hsession))
    cases hlogon
  · cases hsession

theorem accepted_numbers_increase {compId : Bytes} {store : FixSequenceStore}
    {labels : List ReactorLabel} {reactor : FixServerReactor}
    (hrun : run step (initial compId true store) labels = some reactor)
    (hok : Along step RestoresIncoming (initial compId true store) labels) :
    ∀ session ∈ reactor.sessions, session.NoReplay := by
  intro session hmem
  obtain ⟨-, -, hvalidation⟩ := run_settings hrun
  exact (counting_rule.run hrun hok session hmem hvalidation).noReplay

/-- A LOGON, two orders and a second LOGON after a reconnect. -/
theorem accepted_numbers_increase_reconnect :
    ∃ reactor, run step (initial (ascii "SERVER") true fun _ => none)
        [.accept, .handle 0 (clientLogon 1) (ascii "T"), .handle 0 (clientOrder 2) (ascii "T"),
          .disconnect 0, .accept, .handle 0 (clientLogon 3) (ascii "T"),
          .handle 0 (clientOrder 4) (ascii "T")] = some reactor ∧
      ∀ session ∈ reactor.sessions, session.NoReplay := by
  have hsome : (run step (initial (ascii "SERVER") true fun _ => none)
      [.accept, .handle 0 (clientLogon 1) (ascii "T"), .handle 0 (clientOrder 2) (ascii "T"),
        .disconnect 0, .accept, .handle 0 (clientLogon 3) (ascii "T"),
        .handle 0 (clientOrder 4) (ascii "T")]).isSome = true := by
    decide +kernel
  obtain ⟨reactor, hrun⟩ := Option.isSome_iff_exists.mp hsome
  exact ⟨reactor, hrun, accepted_numbers_increase hrun (by decide +kernel)⟩

/-- The client repeats its LOGON, and then its order. -/
theorem order_accepted_again :
    ¬ ∀ compId store labels reactor, run step (initial compId true store) labels = some reactor →
      ∀ session ∈ reactor.sessions, session.NoReplay := by
  intro h
  have hreplayed : (run step (initial (ascii "SERVER") true fun _ => none)
      [.accept, .handle 0 (clientLogon 1) (ascii "T"), .handle 0 (clientOrder 2) (ascii "T"),
        .handle 0 (clientLogon 1) (ascii "T"), .handle 0 (clientOrder 2) (ascii "T")]).map
      (fun reactor => reactor.sessions.any fun session =>
        acceptedNumbers (session.history.dropWhile fun event => !event.isLoggedOn) ==
          [1, 2, 1, 2]) = some true := by
    decide +kernel
  obtain ⟨reactor, hrun, htest⟩ := Option.map_eq_some_iff.mp hreplayed
  obtain ⟨session, hmem, hsession⟩ := List.any_eq_true.mp htest
  have hchain := (h _ _ _ reactor hrun session hmem).increasing
  rw [eq_of_beq hsession] at hchain
  exact absurd hchain.nodup (by decide)

end FixServerReactor

end LiteExchange.Fix
