import LiteExchange.Fix.Reactor

/-!
# A message as steps of its session

Handling a message performs a few steps on its session, each of them atomic for the
thread that sends execution reports: a send, the comp id and the stored numbers of a LOGON,
its other settings, and the number of an accepted message. What the steps are is decided by
members that no other thread writes. Then the session stays, or its slot is closed, or the
message is passed on.
-/

namespace LiteExchange.Fix

open Foundation.Ascii FixConstants

inductive SessionStep where
  | send (message : FixMessage) (currentUTCDateTime : Bytes)
  | logOn (store : FixSequenceStore) (message : FixMessage)
  | configure (heartBeatInterval : Int) (fixVersion : FixVersion) (encryptionMethod : Int)
  | accept (message : FixMessage)

/-- What becomes of a message. -/
inductive Verdict where
  | rejected | answered | passed | closed
  deriving DecidableEq, Repr

namespace FixSession

def performStep (session : FixSession) : SessionStep → FixSession
  | .send message currentUTCDateTime => session.send message currentUTCDateTime
  | .logOn store message => session.logOn store message
  | .configure heartBeatInterval fixVersion encryptionMethod =>
    { session with
      heartBeatInterval := heartBeatInterval
      fixVersion := fixVersion
      encryptionMethod := encryptionMethod }
  | .accept message =>
    { session with
      incomingSequenceNumber := toInt message.sequenceNumber
      history := session.history ++ [.accepted message] }

def perform (session : FixSession) (steps : List SessionStep) : FixSession :=
  steps.foldl performStep session

theorem perform_append (session : FixSession) (front back : List SessionStep) :
    session.perform (front ++ back) = (session.perform front).perform back :=
  List.foldl_append

/-- What every step keeps is kept by all of them. -/
theorem perform_invariant (I : FixSession → Prop) {steps : List SessionStep}
    (keep : ∀ session, ∀ step ∈ steps, I session → I (session.performStep step))
    {session : FixSession} (start : I session) : I (session.perform steps) := by
  induction steps generalizing session with
  | nil => exact start
  | cons step steps ih =>
    exact ih (fun other later hmem => keep other later (List.mem_cons_of_mem step hmem))
      (keep session step List.mem_cons_self start)

/-- A step adds to the history. -/
theorem performStep_history (session : FixSession) (step : SessionStep) :
    ∃ events, (session.performStep step).history = session.history ++ events := by
  cases step with
  | send message currentUTCDateTime => exact ⟨_, rfl⟩
  | logOn store message => exact ⟨_, rfl⟩
  | configure heartBeatInterval fixVersion encryptionMethod => exact ⟨[], by simp [performStep]⟩
  | accept message => exact ⟨_, rfl⟩

theorem perform_events (session : FixSession) (steps : List SessionStep) :
    ∃ events, (session.perform steps).history = session.history ++ events := by
  refine perform_invariant (fun other => ∃ events, other.history = session.history ++ events) ?_
    ⟨[], (List.append_nil _).symm⟩
  rintro other step - ⟨events, hevents⟩
  obtain ⟨added, hadded⟩ := performStep_history other step
  exact ⟨events ++ added, by rw [hadded, hevents, List.append_assoc]⟩

theorem perform_history (session : FixSession) (steps : List SessionStep) :
    session.history.length ≤ (session.perform steps).history.length := by
  obtain ⟨events, hevents⟩ := perform_events session steps
  rw [hevents, List.length_append]
  omega

/-- The answer to an accepted administrative message. -/
def answerSteps (session : FixSession) (compId : Bytes) (message : FixMessage)
    (currentUTCDateTime : Bytes) : List SessionStep :=
  match session.adminAnswer compId message with
  | some answer => [.send answer currentUTCDateTime]
  | none => []

/-- From the validation of the sequence number on. -/
def numberedSteps (session : FixSession) (reactor : FixServerReactor) (message : FixMessage)
    (currentUTCDateTime : Bytes) : List SessionStep × Verdict :=
  if reactor.sequenceNumberValidation &&
      !session.validateSequenceNumber (toInt message.sequenceNumber) then ([], .closed)
  else if message.isAdminMessage then
    (.accept message :: session.answerSteps reactor.compId message currentUTCDateTime,
      if message.messageType = .logoff then .closed else .answered)
  else ([.accept message], .passed)

/-- The session that a LOGON logs on, up to the send of the answer. -/
def logonSteps (session : FixSession) (reactor : FixServerReactor) (message : FixMessage)
    (heartBeatInterval encryptionMethod : Int) (currentUTCDateTime : Bytes) : List SessionStep :=
  let settings := [.logOn reactor.sequenceStore message,
    .configure heartBeatInterval message.fixVersion encryptionMethod]
  settings ++ [.send ((session.perform settings).getLogonMessage reactor.compId)
    currentUTCDateTime]

/-- The steps that a message performs on its session, and the verdict. -/
def steps (session : FixSession) (reactor : FixServerReactor) (message : FixMessage)
    (currentUTCDateTime : Bytes) : Except ConversionError (List SessionStep × Verdict) :=
  let (valid, missingTag) := validateRequiredTags message 0
  if valid = false then
    .ok ([.send (reactor.missingTagRejection session message missingTag) currentUTCDateTime],
      .rejected)
  else if message.messageType = .logon then
    if validateTargetCompid reactor.compId message = false then .ok ([], .closed)
    else do
      let heartBeatInterval ← message.getTagValueAsInt fixTagHearbeatInterval
      let encryptionMethod ← message.getTagValueAsInt fixTagEncryptMethod
      let opening := session.logonSteps reactor message heartBeatInterval encryptionMethod
        currentUTCDateTime
      let (rest, verdict) := (session.perform opening).numberedSteps reactor message
        currentUTCDateTime
      pure (opening ++ rest, verdict)
  else .ok (session.numberedSteps reactor message currentUTCDateTime)

/-! ## The cases of a message -/

section Cases

variable {session : FixSession} {reactor : FixServerReactor} {message : FixMessage}
  {currentUTCDateTime : Bytes} {taken : List SessionStep} {verdict : Verdict}

/-- The number is the next one, where numbers are validated. -/
def IsNext (session : FixSession) (reactor : FixServerReactor) (message : FixMessage) : Prop :=
  reactor.sequenceNumberValidation = true →
    toInt message.sequenceNumber = FixMessage.narrow (session.incomingSequenceNumber + 1)

/-- A message with the wrong number closes the session. Any other one is accepted, and
answered if it is an administrative message. -/
theorem numberedSteps_cases
    (h : session.numberedSteps reactor message currentUTCDateTime = (taken, verdict)) :
    (¬ session.IsNext reactor message ∧ taken = [] ∧ verdict = .closed) ∨
      ∃ answers, session.IsNext reactor message ∧ taken = .accept message :: answers ∧
        (∀ step ∈ answers, ∃ answer, step = .send answer currentUTCDateTime) ∧
        (message.isAdminMessage = true ∧
            (message.messageType = .logoff ∧ verdict = .closed ∨
              message.messageType ≠ .logoff ∧ verdict = .answered) ∨
          message.isAdminMessage = false ∧ answers = [] ∧ verdict = .passed) := by
  unfold numberedSteps validateSequenceNumber at h
  split at h
  · rename_i hwrong
    simp only [Bool.and_eq_true, Bool.not_eq_true', beq_eq_false_iff_ne] at hwrong
    cases h
    exact Or.inl ⟨fun hnext => hwrong.2 (hnext hwrong.1).symm, rfl, rfl⟩
  · rename_i hright
    have hnext : session.IsNext reactor message := by
      intro hvalidation
      simp only [hvalidation, Bool.true_and, Bool.not_eq_true', beq_eq_false_iff_ne, ne_eq,
        not_not] at hright
      exact hright.symm
    have hanswers : ∀ step ∈ session.answerSteps reactor.compId message currentUTCDateTime,
        ∃ answer, step = .send answer currentUTCDateTime := by
      unfold answerSteps
      cases session.adminAnswer reactor.compId message with
      | none => exact fun step hmem => absurd hmem List.not_mem_nil
      | some answer => exact fun step hmem => ⟨answer, List.mem_singleton.mp hmem⟩
    right
    split at h
    · rename_i hadmin
      simp only [Prod.mk.injEq] at h
      obtain ⟨rfl, rfl⟩ := h
      refine ⟨_, hnext, rfl, hanswers, Or.inl ⟨hadmin, ?_⟩⟩
      by_cases hlogoff : message.messageType = .logoff
      · exact Or.inl ⟨hlogoff, if_pos hlogoff⟩
      · exact Or.inr ⟨hlogoff, if_neg hlogoff⟩
    · rename_i hadmin
      cases h
      exact ⟨[], hnext, rfl, fun step hmem => absurd hmem List.not_mem_nil,
        Or.inr ⟨by simpa using hadmin, rfl, rfl⟩⟩

/-- A message without its tags is rejected, a LOGON with another target closes the session,
and a LOGON that is handled comes before its own number. -/
theorem steps_cases
    (h : session.steps reactor message currentUTCDateTime = .ok (taken, verdict)) :
    ((validateRequiredTags message 0).1 = false ∧ verdict = .rejected ∧
        ∃ rejection, taken = [.send rejection currentUTCDateTime]) ∨
      ((validateRequiredTags message 0).1 = true ∧ message.messageType = .logon ∧
        validateTargetCompid reactor.compId message = false ∧ taken = [] ∧ verdict = .closed) ∨
      ((validateRequiredTags message 0).1 = true ∧ message.messageType = .logon ∧
        validateTargetCompid reactor.compId message = true ∧
        ∃ heartBeatInterval encryptionMethod rest,
          let opening := session.logonSteps reactor message heartBeatInterval encryptionMethod
            currentUTCDateTime
          taken = opening ++ rest ∧
            (session.perform opening).numberedSteps reactor message currentUTCDateTime =
              (rest, verdict)) ∨
      ((validateRequiredTags message 0).1 = true ∧ message.messageType ≠ .logon ∧
        session.numberedSteps reactor message currentUTCDateTime = (taken, verdict)) := by
  unfold steps at h
  simp only at h
  split at h
  · rename_i hinvalid
    cases h
    exact Or.inl ⟨hinvalid, rfl, _, rfl⟩
  · rename_i hvalid
    simp only [Bool.not_eq_false] at hvalid
    split at h
    · rename_i hlogon
      split at h
      · rename_i htarget
        cases h
        exact Or.inr (Or.inl ⟨hvalid, hlogon, htarget, rfl, rfl⟩)
      · rename_i htarget
        simp only [Bool.not_eq_false] at htarget
        cases hheartBeat : message.getTagValueAsInt fixTagHearbeatInterval with
        | error error =>
          rw [hheartBeat] at h
          cases h
        | ok heartBeatInterval =>
          cases hencryption : message.getTagValueAsInt fixTagEncryptMethod with
          | error error =>
            rw [hheartBeat, hencryption] at h
            cases h
          | ok encryptionMethod =>
            rw [hheartBeat, hencryption] at h
            cases h
            exact Or.inr (Or.inr (Or.inl ⟨hvalid, hlogon, htarget, heartBeatInterval,
              encryptionMethod, _, rfl, rfl⟩))
    · rename_i hother
      exact Or.inr (Or.inr (Or.inr ⟨hvalid, hother, Except.ok.inj h⟩))

theorem numberedSteps_closed
    (h : session.numberedSteps reactor message currentUTCDateTime = (taken, verdict)) :
    verdict = .closed ↔
      message.messageType = .logoff ∨ ¬ session.IsNext reactor message := by
  rcases numberedSteps_cases h with ⟨hwrong, -, hclosed⟩ | ⟨answers, hnext, -, -, hverdict⟩
  · simp only [hclosed, hwrong, not_false_eq_true, or_true]
  · rcases hverdict with ⟨-, ⟨hlogoff, hclosed⟩ | ⟨hother, hanswered⟩⟩ | ⟨hother, -, hpassed⟩
    · simp only [hlogoff, hclosed, true_or]
    · simp [hother, hanswered, hnext]
    · have hlogoff : message.messageType ≠ .logoff := by
        intro hlogoff
        rw [FixMessage.isAdminMessage, hlogoff] at hother
        cases hother
      simp [hlogoff, hpassed, hnext]

/-- What a LOGON does where its tags can be read, and that it throws where they cannot. -/
theorem steps_logon (hvalid : (validateRequiredTags message 0).1 = true)
    (hlogon : message.messageType = .logon)
    (htarget : validateTargetCompid reactor.compId message = true) :
    session.steps reactor message currentUTCDateTime = (do
      let heartBeatInterval ← message.getTagValueAsInt fixTagHearbeatInterval
      let encryptionMethod ← message.getTagValueAsInt fixTagEncryptMethod
      let opening := session.logonSteps reactor message heartBeatInterval encryptionMethod
        currentUTCDateTime
      let (rest, verdict) := (session.perform opening).numberedSteps reactor message
        currentUTCDateTime
      pure (opening ++ rest, verdict)) := by
  unfold steps
  simp only [hvalid, hlogon, htarget, Bool.true_eq_false, if_false, if_true]

/-- The tags that a handled LOGON must have as numbers. -/
def LogonReadable (message : FixMessage) : Prop :=
  (message.getTagValueAsInt fixTagHearbeatInterval).isOk = true ∧
    (message.getTagValueAsInt fixTagEncryptMethod).isOk = true

theorem steps_logon_isOk (session : FixSession) (currentUTCDateTime : Bytes)
    (hvalid : (validateRequiredTags message 0).1 = true)
    (hlogon : message.messageType = .logon)
    (htarget : validateTargetCompid reactor.compId message = true) :
    (session.steps reactor message currentUTCDateTime).isOk = true ↔ LogonReadable message := by
  rw [steps_logon hvalid hlogon htarget, LogonReadable]
  cases message.getTagValueAsInt fixTagHearbeatInterval with
  | error error => simp [bind, Except.bind, Except.isOk, Except.toBool]
  | ok heartBeatInterval =>
    cases message.getTagValueAsInt fixTagEncryptMethod with
    | error error => simp [bind, Except.bind, Except.isOk, Except.toBool]
    | ok encryptionMethod => simp [bind, Except.bind, Except.isOk, Except.toBool, pure, Except.pure]

/-- The message closes the session. -/
def Closes (session : FixSession) (reactor : FixServerReactor) (message : FixMessage) : Prop :=
  (validateRequiredTags message 0).1 = true ∧
    if message.messageType = .logon then
      validateTargetCompid reactor.compId message = false ∨
        LogonReadable message ∧ ¬ (session.logOn reactor.sequenceStore message).IsNext reactor message
    else message.messageType = .logoff ∨ ¬ session.IsNext reactor message

theorem steps_closed
    (h : session.steps reactor message currentUTCDateTime = .ok (taken, verdict)) :
    verdict = .closed ↔ session.Closes reactor message := by
  unfold Closes
  rcases steps_cases h with ⟨hinvalid, hrejected, -⟩ | ⟨hvalid, hlogon, htarget, -, hclosed⟩ |
    ⟨hvalid, hlogon, htarget, heartBeatInterval, encryptionMethod, rest, rfl, hnumbered⟩ |
    ⟨hvalid, hother, hnumbered⟩
  · simp [hinvalid, hrejected]
  · simp [hvalid, hlogon, htarget, hclosed]
  · have hreadable := (steps_logon_isOk session currentUTCDateTime hvalid hlogon htarget).mp
      (by rw [h]; rfl)
    have hclosed := numberedSteps_closed hnumbered
    simp only [hlogon, reduceCtorEq, false_or] at hclosed
    simp only [hvalid, hlogon, htarget, hreadable, if_true, true_and, Bool.true_eq_false,
      false_or]
    exact hclosed
  · simp only [hvalid, hother, if_false, true_and]
    exact numberedSteps_closed hnumbered

/-- Only a valid application message with the next number is passed on, once it is accepted. -/
theorem steps_passed
    (h : session.steps reactor message currentUTCDateTime = .ok (taken, .passed)) :
    (validateRequiredTags message 0).1 = true ∧ message.isAdminMessage = false ∧
      session.IsNext reactor message ∧ taken = [.accept message] := by
  rcases steps_cases h with ⟨-, hrejected, -⟩ | ⟨-, -, -, -, hclosed⟩ |
    ⟨-, hlogon, -, heartBeatInterval, encryptionMethod, rest, -, hnumbered⟩ |
    ⟨hvalid, -, hnumbered⟩
  · cases hrejected
  · cases hclosed
  · have hadmin : message.isAdminMessage = true := by simp [FixMessage.isAdminMessage, hlogon]
    rcases numberedSteps_cases hnumbered with ⟨-, -, hclosed⟩ |
      ⟨-, -, -, -, ⟨-, ⟨-, hclosed⟩ | ⟨-, hanswered⟩⟩ | ⟨hother, -⟩⟩
    · cases hclosed
    · cases hclosed
    · cases hanswered
    · rw [hadmin] at hother
      cases hother
  · rcases numberedSteps_cases hnumbered with ⟨-, -, hclosed⟩ |
      ⟨answers, hnext, htaken, -, ⟨-, ⟨-, hclosed⟩ | ⟨-, hanswered⟩⟩ | ⟨hother, rfl, -⟩⟩
    · cases hclosed
    · cases hclosed
    · cases hanswered
    · exact ⟨hvalid, hother, hnext, htaken⟩

/-- Only a LOGON with a tag that is not a number throws. -/
theorem steps_throws {error : ConversionError}
    (h : session.steps reactor message currentUTCDateTime = .error error) :
    (validateRequiredTags message 0).1 = true ∧ message.messageType = .logon ∧
      validateTargetCompid reactor.compId message = true ∧ ¬ LogonReadable message := by
  by_cases hvalid : (validateRequiredTags message 0).1 = true
  · by_cases hlogon : message.messageType = .logon
    · by_cases htarget : validateTargetCompid reactor.compId message = true
      · refine ⟨hvalid, hlogon, htarget, fun hreadable => ?_⟩
        have hok := (steps_logon_isOk session currentUTCDateTime hvalid hlogon htarget).mpr
          hreadable
        rw [h] at hok
        cases hok
      · simp [steps, hvalid, hlogon, htarget] at h
    · simp [steps, hvalid, hlogon] at h
  · simp [steps, hvalid] at h

/-- A message that closes the session throws nothing. -/
theorem steps_of_closes (h : session.Closes reactor message) (currentUTCDateTime : Bytes) :
    ∃ taken, session.steps reactor message currentUTCDateTime = .ok (taken, .closed) := by
  cases hsteps : session.steps reactor message currentUTCDateTime with
  | error error =>
    obtain ⟨-, hlogon, htarget, hunreadable⟩ := steps_throws hsteps
    have hcloses := h.2
    rw [if_pos hlogon] at hcloses
    rcases hcloses with hwrong | ⟨hreadable, -⟩
    · rw [htarget] at hwrong
      cases hwrong
    · exact absurd hreadable hunreadable
  | ok result =>
    obtain ⟨taken, verdict⟩ := result
    rw [(steps_closed hsteps).mpr h]
    exact ⟨taken, rfl⟩

/-- A message that does not close the session leaves a trace on it. -/
theorem steps_recorded
    (h : session.steps reactor message currentUTCDateTime = .ok (taken, verdict))
    (hopen : verdict ≠ .closed) :
    session.history.length < (session.perform taken).history.length := by
  have haccept : ∀ (other : FixSession) (rest : List SessionStep),
      other.history.length < (other.perform (.accept message :: rest)).history.length := by
    intro other rest
    have hrest := perform_history (other.performStep (.accept message)) rest
    have hone : (other.performStep (.accept message)).history.length =
        other.history.length + 1 := List.length_append
    have hcons : other.perform (.accept message :: rest) =
        (other.performStep (.accept message)).perform rest := rfl
    rw [hcons]
    omega
  rcases steps_cases h with ⟨-, -, rejection, rfl⟩ | ⟨-, -, -, -, hclosed⟩ |
    ⟨-, -, -, heartBeatInterval, encryptionMethod, rest, rfl, hnumbered⟩ | ⟨-, -, hnumbered⟩
  · simp [perform, performStep, send]
  · exact absurd hclosed hopen
  · rcases numberedSteps_cases hnumbered with ⟨-, -, hclosed⟩ | ⟨answers, -, rfl, -⟩
    · exact absurd hclosed hopen
    · rw [perform_append]
      have hbefore := perform_history session (session.logonSteps reactor message
        heartBeatInterval encryptionMethod currentUTCDateTime)
      have hafter := haccept (session.perform (session.logonSteps reactor message
        heartBeatInterval encryptionMethod currentUTCDateTime)) answers
      omega
  · rcases numberedSteps_cases hnumbered with ⟨-, -, hclosed⟩ | ⟨answers, -, rfl, -⟩
    · exact absurd hclosed hopen
    · exact haccept session answers

end Cases

end FixSession

namespace FixServerReactor

variable {reactor : FixServerReactor} {session : FixSession} {message : FixMessage}
  {peerIndex : Nat} {currentUTCDateTime : Bytes}

/-- The session is written back, and its slot is closed where the verdict says so. -/
def settle (reactor : FixServerReactor) (peerIndex : Nat) (session : FixSession)
    (verdict : Verdict) : Except Fault Processed :=
  if verdict = .closed then
    ((reactor.setSession peerIndex session).onClientDisconnected peerIndex).map
      fun closed => { reactor := closed }
  else .ok { reactor := reactor.setSession peerIndex session, passed := verdict == .passed }

theorem setSession_self (h : reactor.sessions[peerIndex]? = some session) :
    reactor.setSession peerIndex session = reactor := by
  obtain ⟨hlt, hget⟩ := List.getElem?_eq_some_iff.mp h
  unfold setSession
  rw [← hget, List.set_getElem_self]

/-- An answer is sent, or nothing is. -/
theorem perform_answerSteps (session : FixSession) (compId : Bytes) (message : FixMessage)
    (currentUTCDateTime : Bytes) :
    session.perform (session.answerSteps compId message currentUTCDateTime) =
      session.handleAdminMessage compId message currentUTCDateTime := by
  unfold FixSession.answerSteps FixSession.handleAdminMessage
  cases session.adminAnswer compId message with
  | none => rfl
  | some answer => rfl

/-- The answer is decided by members that the number of the message does not change. -/
theorem perform_accept_answerSteps (session : FixSession) (compId : Bytes) (message : FixMessage)
    (currentUTCDateTime : Bytes) :
    session.perform (.accept message ::
      session.answerSteps compId message currentUTCDateTime) =
        (session.performStep (.accept message)).handleAdminMessage compId message
          currentUTCDateTime := by
  have hanswer : session.answerSteps compId message currentUTCDateTime =
      (session.performStep (.accept message)).answerSteps compId message currentUTCDateTime := rfl
  rw [hanswer, ← perform_answerSteps]
  rfl

theorem processAccepted_steps (reactor : FixServerReactor) (session : FixSession)
    (message : FixMessage) (peerIndex : Nat) (currentUTCDateTime : Bytes) :
    reactor.processAccepted session message peerIndex currentUTCDateTime =
      if message.isAdminMessage then
        reactor.settle peerIndex (session.perform (.accept message ::
          session.answerSteps reactor.compId message currentUTCDateTime))
            (if message.messageType = .logoff then .closed else .answered)
      else reactor.settle peerIndex (session.perform [.accept message]) .passed := by
  unfold processAccepted settle
  rw [perform_accept_answerSteps]
  split
  · split
    · rfl
    · rfl
  · rfl

theorem processNumbered_steps (reactor : FixServerReactor) (session : FixSession)
    (message : FixMessage) (peerIndex : Nat) (currentUTCDateTime : Bytes) :
    reactor.processNumbered session message peerIndex currentUTCDateTime =
      reactor.settle peerIndex
        (session.perform (session.numberedSteps reactor message currentUTCDateTime).1)
        (session.numberedSteps reactor message currentUTCDateTime).2 := by
  unfold processNumbered FixSession.numberedSteps
  split
  · rfl
  · rw [processAccepted_steps]
    split
    · rfl
    · rfl

/-- Handling a message is performing its steps and settling the verdict. -/
theorem processMessage_steps (h : reactor.sessions[peerIndex]? = some session) :
    reactor.processMessage message session peerIndex currentUTCDateTime =
      match session.steps reactor message currentUTCDateTime with
      | .ok (steps, verdict) => reactor.settle peerIndex (session.perform steps) verdict
      | .error error => .error (.conversion error) := by
  unfold processMessage FixSession.steps
  simp only
  split
  · rfl
  · split
    · split
      · -- The comp id is wrong: the session is closed as it is.
        simp only [settle, FixSession.perform, List.foldl_nil, setSession_self h, if_true]
      · unfold FixSession.handleLogonMessage
        cases hheartBeat : message.getTagValueAsInt fixTagHearbeatInterval with
        | error error => rfl
        | ok heartBeatInterval =>
          cases hencryption : message.getTagValueAsInt fixTagEncryptMethod with
          | error error => rfl
          | ok encryptionMethod =>
            have hnumbered := processNumbered_steps reactor (session.perform (session.logonSteps
              reactor message heartBeatInterval encryptionMethod currentUTCDateTime)) message
              peerIndex currentUTCDateTime
            rw [← FixSession.perform_append] at hnumbered
            exact hnumbered
    · exact processNumbered_steps reactor session message peerIndex currentUTCDateTime

end FixServerReactor

end LiteExchange.Fix
