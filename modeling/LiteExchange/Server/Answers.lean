import LiteExchange.Fix.FiledNumbers
import LiteExchange.Server.MessageHandling

/-!
# Which messages are answered

A message that has its required tags may still end the reactor thread: `stoi` and `stol` throw
on a text that is not a number, and `unordered_map::at` on a symbol that is not known. The
converter looks the symbol up before the guard for unknown symbols, so the guard never rejects
one. A LOGON also ends it where the file with the numbers of its sender is not as the server
writes it.
-/

namespace LiteExchange.Server

open Foundation.Ascii Foundation.Results OrderMatcher
open LiteExchange.Fix LiteExchange.Fix.FixConstants

variable {γ : Type}

/-- The session in the slot has sent such a message since `before`. -/
def Sends (before : FixSession) (after : FixServerReactor) (peerIndex : Nat)
    (answers : FixMessage → Prop) : Prop :=
  ∃ changed events sent, after.sessions[peerIndex]? = some changed ∧
    changed.history = before.history ++ events ∧ .sent sent ∈ events ∧ answers sent

/-- The sender gets a business level reject with the text. -/
def Rejects (before : FixSession) (handled : Handled γ) (peerIndex : Nat) (text : Bytes) : Prop :=
  Sends before handled.reactor peerIndex fun sent =>
    sent.messageType = .businessReject ∧ sent.getTagValue fixTagFreeText = text

/-- What is expected of a message that has its required tags. -/
structure IsAnswered (manager : SecurityManager) (message : FixMessage) (session : FixSession)
    (peerIndex : Nat) (handled : Handled γ) : Prop where
  logon : message.messageType = .logon →
    Sends session handled.reactor peerIndex (fun sent => sent.messageType = .logon) ∨
      ¬ InUse handled.reactor.sessionFlags peerIndex
  newOrder : message.messageType = .newOrder →
    (∃ order, handled.call = some (.newOrder order)) ∨
      ∃ text, Rejects session handled peerIndex text ∧
        (manager.getSecurityId (message.getTagValue fixTagSymbol) = none →
          text = ascii "Non supported symbol")
  cancel : message.messageType = .cancel →
    (∃ order origClientOrderID, handled.call = some (.cancelOrder order origClientOrderID)) ∨
      ∃ text, Rejects session handled peerIndex text
  unchanged : (∃ text, Rejects session handled peerIndex text) →
    ∀ central : Option (CentralOrderBook γ), handled.central callCentral central = central

/-- The numeric tags of an order that can be read, and its symbol that is known. -/
structure OrderReadable (manager : SecurityManager) (message : FixMessage) : Prop where
  symbol : (manager.getSecurityId (message.getTagValue fixTagSymbol)).isSome = true
  orderType : (message.getTagValueAsInt fixTagOrderType).isOk = true
  side : (message.getTagValueAsInt fixTagOrderSide).isOk = true
  quantity : (message.getTagValueAsLong fixTagOrderQuantity).isOk = true
  price : (message.getTagValueAsLong fixTagOrderPrice).isOk = true

/-- A limit order for a security that is supported. -/
def Supported (manager : SecurityManager) (message : FixMessage) : Prop :=
  message.getTagValueAsInt fixTagOrderType = .ok fixOrderTypeLimit ∧
    ∃ securityId, manager.getSecurityId (message.getTagValue fixTagSymbol) = some securityId ∧
      manager.isSecuritySupported securityId = true

/-- The messages that are answered: what must be read can be read, an order or cancel has the
next number, and what is closed or rejected has a live session. -/
def Answerable (reactor : FixServerReactor) (manager : SecurityManager) (message : FixMessage)
    (session : FixSession) (peerIndex : Nat) : Prop :=
  match message.messageType with
  | .logon =>
    if FixSession.validateTargetCompid reactor.compId message = true then
      FixSession.LogonReadable message ∧
        ((session.logOn reactor.sequenceStore message).IsNext reactor message ∨
          InUse reactor.sessionFlags peerIndex)
    else InUse reactor.sessionFlags peerIndex
  | .newOrder => session.IsNext reactor message ∧ OrderReadable manager message ∧
    (Supported manager message ∨ InUse reactor.sessionFlags peerIndex)
  | .cancel => session.IsNext reactor message ∧
    (manager.getSecurityId (message.getTagValue fixTagSymbol)).isSome = true
  | .logoff => InUse reactor.sessionFlags peerIndex
  | _ => session.IsNext reactor message ∨ InUse reactor.sessionFlags peerIndex

/-! ## The handlers -/

section Handlers

variable {manager : SecurityManager} {message : FixMessage} {sessionId : Nat}
  {memory : Indeterminate γ}

/-- The converter keeps the security that the symbol has. -/
theorem convertNewOrder_securityId {order converted : Order γ}
    (h : FixMessageConverter.convertNewOrder manager message order = .ok converted) :
    manager.getSecurityId (message.getTagValue fixTagSymbol) = some converted.securityId := by
  obtain ⟨common, hcommon, h⟩ := bind_eq_ok.mp h
  obtain ⟨securityId, hsecurity, rfl⟩ := convertCommonOrder_cases hcommon
  obtain ⟨orderType, -, h⟩ := bind_eq_ok.mp h
  obtain ⟨side, -, h⟩ := bind_eq_ok.mp h
  obtain ⟨quantity, -, h⟩ := bind_eq_ok.mp h
  obtain ⟨price, -, h⟩ := bind_eq_ok.mp h
  rw [hsecurity, ← Except.ok.inj h]
  congr 1
  simp only [Order.setPrice, Order.setQuantity]
  split
  · split
    · rfl
    · rfl
  · split
    · split
      · rfl
      · rfl
    · split
      · rfl
      · rfl

/-- A handled order is submitted where it is supported, and rejected elsewhere. -/
theorem onNewOrder_supported {handling : Handling γ}
    (h : onNewOrder manager message sessionId memory = .ok handling) :
    (Supported manager message ∧ ∃ order, handling = .call (.newOrder order)) ∨
      (¬ Supported manager message ∧ ∃ text, handling = .rejectOrder text) := by
  obtain ⟨order, horder, h⟩ := bind_eq_ok.mp h
  obtain ⟨orderType, htype, h⟩ := bind_eq_ok.mp h
  have hsecurity := convertNewOrder_securityId horder
  split at h
  · rename_i hother
    refine Or.inr ⟨fun hsupported => ?_, _, (Except.ok.inj h).symm⟩
    rw [hsupported.1, Except.ok.injEq] at htype
    exact hother htype.symm
  · rename_i hlimit
    rw [not_not] at hlimit
    rw [hlimit] at htype
    split at h
    · rename_i hunsupported
      refine Or.inr ⟨?_, _, (Except.ok.inj h).symm⟩
      rintro ⟨-, securityId, hsame, hsupported⟩
      rw [hsecurity, Option.some.injEq] at hsame
      rw [hsame, hsupported] at hunsupported
      cases hunsupported
    · rename_i hsupported
      refine Or.inl ⟨⟨htype, order.securityId, hsecurity, ?_⟩, _, (Except.ok.inj h).symm⟩
      simpa using hsupported

/-- A message is converted exactly where its tags can be read. -/
theorem convertNewOrder_isOk (order : Order γ) :
    (FixMessageConverter.convertNewOrder manager message order).isOk = true ↔
      OrderReadable manager message := by
  constructor
  · intro h
    obtain ⟨converted, h⟩ := isOk_iff.mp h
    obtain ⟨common, hcommon, h⟩ := bind_eq_ok.mp h
    obtain ⟨securityId, hsecurity, -⟩ := convertCommonOrder_cases hcommon
    obtain ⟨orderType, htype, h⟩ := bind_eq_ok.mp h
    obtain ⟨side, hside, h⟩ := bind_eq_ok.mp h
    obtain ⟨quantity, hquantity, h⟩ := bind_eq_ok.mp h
    obtain ⟨price, hprice, -⟩ := bind_eq_ok.mp h
    exact ⟨Option.isSome_iff_exists.mpr ⟨_, hsecurity⟩, isOk_iff.mpr ⟨_, htype⟩,
      isOk_iff.mpr ⟨_, hside⟩, isOk_iff.mpr ⟨_, hquantity⟩, isOk_iff.mpr ⟨_, hprice⟩⟩
  · intro h
    obtain ⟨securityId, hsecurity⟩ := Option.isSome_iff_exists.mp h.symbol
    obtain ⟨orderType, htype⟩ := isOk_iff.mp h.orderType
    obtain ⟨side, hside⟩ := isOk_iff.mp h.side
    obtain ⟨quantity, hquantity⟩ := isOk_iff.mp h.quantity
    obtain ⟨price, hprice⟩ := isOk_iff.mp h.price
    simp only [FixMessageConverter.convertNewOrder, FixMessageConverter.convertCommonOrder,
      hsecurity, htype, hside, hquantity, hprice, bind, Except.bind, pure, Except.pure]
    rfl

/-- An order is handled exactly where its tags can be read. -/
theorem onNewOrder_isOk (sessionId : Nat) (memory : Indeterminate γ) :
    (onNewOrder manager message sessionId memory).isOk = true ↔
      OrderReadable manager message := by
  constructor
  · intro h
    obtain ⟨handling, h⟩ := isOk_iff.mp h
    obtain ⟨order, horder, -⟩ := bind_eq_ok.mp h
    exact (convertNewOrder_isOk _).mp (isOk_iff.mpr ⟨order, horder⟩)
  · intro h
    obtain ⟨order, horder⟩ := isOk_iff.mp
      ((convertNewOrder_isOk ((Order.default memory).setSessionId sessionId)).mpr h)
    obtain ⟨orderType, htype⟩ := isOk_iff.mp h.orderType
    simp only [onNewOrder, horder, htype, bind, Except.bind]
    split
    · rfl
    · split
      · rfl
      · rfl

theorem convertCommonOrder_isOk (order : Order γ) :
    (FixMessageConverter.convertCommonOrder manager message order).isOk = true ↔
      (manager.getSecurityId (message.getTagValue fixTagSymbol)).isSome = true := by
  unfold FixMessageConverter.convertCommonOrder
  cases manager.getSecurityId (message.getTagValue fixTagSymbol) with
  | none => simp [Except.isOk, Except.toBool]
  | some securityId => simp [Except.isOk, Except.toBool]

theorem onCancelOrder_isOk (sessionId : Nat) (memory : Indeterminate γ) :
    (onCancelOrder manager message sessionId memory).isOk = true ↔
      (manager.getSecurityId (message.getTagValue fixTagSymbol)).isSome = true := by
  rw [← convertCommonOrder_isOk ((Order.default memory).setSessionId sessionId)]
  simp only [onCancelOrder, FixMessageConverter.convertCancelOrder]
  cases FixMessageConverter.convertCommonOrder manager message
      ((Order.default memory).setSessionId sessionId) with
  | error thrown => rfl
  | ok order => rfl

end Handlers

/-! ## Messages on a session -/

section Messages

variable {reactor : FixServerReactor} {manager : SecurityManager} {message : FixMessage}
  {session : FixSession} {peerIndex : Nat} {currentUTCDateTime : Bytes}
  {memory : Indeterminate γ}

/-- A message that closes the session is handled where the slot is live. -/
theorem processMessage_closing (manager : SecurityManager) (currentUTCDateTime : Bytes)
    (memory : Indeterminate γ) (hsession : reactor.sessions[peerIndex]? = some session)
    (hcloses : session.Closes reactor message) :
    (∃ handled, processMessage reactor manager message session peerIndex currentUTCDateTime
        memory = .ok handled) ↔ InUse reactor.sessionFlags peerIndex := by
  constructor
  · rintro ⟨handled, hhandled⟩
    obtain ⟨-, -, ⟨-, hused, -⟩ | ⟨hopen, -⟩⟩ := processMessage_slot hsession hhandled
    · exact hused
    · exact absurd hcloses hopen
  · intro hused
    exact processMessage_closes manager currentUTCDateTime memory hused hsession hcloses

/-- An application message with the next number is accepted and passed on. -/
theorem processMessage_passed (manager : SecurityManager) (currentUTCDateTime : Bytes)
    (memory : Indeterminate γ) (hsession : reactor.sessions[peerIndex]? = some session)
    (hvalid : (FixSession.validateRequiredTags message 0).1 = true)
    (hadmin : message.isAdminMessage = false) (hnext : session.IsNext reactor message) :
    processMessage reactor manager message session peerIndex currentUTCDateTime memory =
      match onFixMessage manager message peerIndex memory with
      | .ok (.rejectOrder rejectionMessage) =>
        .ok { reactor := rejectOrder (reactor.setSession peerIndex
                (session.performStep (.accept message))) peerIndex rejectionMessage
                  currentUTCDateTime }
      | .ok (.call task) =>
        .ok { reactor := reactor.setSession peerIndex (session.performStep (.accept message))
              call := some task }
      | .error error => .error (.conversion error) := by
  have hlogon : message.messageType ≠ .logon := by
    intro hlogon
    rw [FixMessage.isAdminMessage, hlogon] at hadmin
    cases hadmin
  have hnumber : (reactor.sequenceNumberValidation &&
      !session.validateSequenceNumber (FixSession.toInt message.sequenceNumber)) = false := by
    cases hvalidation : reactor.sequenceNumberValidation with
    | false => rfl
    | true =>
      simp [FixSession.validateSequenceNumber, hnext hvalidation]
  have hsteps : session.steps reactor message currentUTCDateTime =
      .ok ([.accept message], .passed) := by
    simp [FixSession.steps, FixSession.numberedSteps, hvalid, hlogon, hnumber, hadmin]
  unfold processMessage
  rw [FixServerReactor.processMessage_steps hsession, hsteps]
  rfl

/-- A message that is answered at once is handled on any slot. -/
theorem processMessage_answered (manager : SecurityManager) (memory : Indeterminate γ)
    (hsession : reactor.sessions[peerIndex]? = some session) {taken : List SessionStep}
    (hsteps : session.steps reactor message currentUTCDateTime = .ok (taken, .answered)) :
    processMessage reactor manager message session peerIndex currentUTCDateTime memory =
      .ok { reactor := reactor.setSession peerIndex (session.perform taken) } := by
  unfold processMessage
  rw [FixServerReactor.processMessage_steps hsession, hsteps]
  rfl

/-- A message that is not passed on makes no call. -/
theorem processMessage_uncalled {handled : Handled γ}
    (hsession : reactor.sessions[peerIndex]? = some session)
    (h : processMessage reactor manager message session peerIndex currentUTCDateTime memory =
      .ok handled)
    (hother : message.isAdminMessage = true ∨ ¬ session.IsNext reactor message) :
    ∃ taken verdict processed, verdict ≠ .passed ∧
      session.steps reactor message currentUTCDateTime = .ok (taken, verdict) ∧
      reactor.settle peerIndex (session.perform taken) verdict = .ok processed ∧
      handled = { reactor := processed.reactor } := by
  unfold processMessage at h
  split at h
  · rename_i processed hprocessed
    obtain ⟨taken, verdict, hsteps, hsettle⟩ :=
      FixServerReactor.processMessage_cases hsession hprocessed
    have hverdict : verdict ≠ .passed := by
      rintro rfl
      obtain ⟨-, happlication, hnext, -⟩ := FixSession.steps_passed hsteps
      rcases hother with hadmin | hwrong
      · rw [hadmin] at happlication
        cases happlication
      · exact hwrong hnext
    have hpassed : processed.passed = false := by
      rcases FixServerReactor.settle_cases hsettle with ⟨-, -, hpassed⟩ | ⟨-, -, hpassed⟩
      · rw [hpassed]
        simpa using hverdict
      · exact hpassed
    rw [hpassed] at h
    cases h
    exact ⟨taken, verdict, processed, hverdict, hsteps, hsettle, rfl⟩
  · cases h

/-- What is sent to a session stands at the end of its history. -/
theorem not_sends {after : FixServerReactor} {changed : FixSession} {events : List SessionEvent}
    {answers : FixMessage → Prop} (hchanged : after.sessions[peerIndex]? = some changed)
    (hhistory : changed.history = session.history ++ events)
    (hnone : ∀ sent, .sent sent ∉ events) :
    ¬ Sends session after peerIndex answers := by
  rintro ⟨other, more, sent, hother, hmore, hmem, -⟩
  rw [hchanged, Option.some.injEq] at hother
  rw [← hother, hhistory, List.append_cancel_left_eq] at hmore
  rw [← hmore] at hmem
  exact hnone sent hmem

/-- The message is handled as it should be. -/
def Answers (reactor : FixServerReactor) (manager : SecurityManager) (message : FixMessage)
    (session : FixSession) (peerIndex : Nat) (currentUTCDateTime : Bytes)
    (memory : Indeterminate γ) : Prop :=
  ∃ handled, processMessage reactor manager message session peerIndex currentUTCDateTime memory =
      .ok handled ∧
    IsAnswered manager message session peerIndex handled

/-! ## The types of messages -/

/-- A LOGON that can be read, with the number after the stored one, is answered. -/
theorem steps_logon_answered (currentUTCDateTime : Bytes)
    (hvalid : (FixSession.validateRequiredTags message 0).1 = true)
    (hlogon : message.messageType = .logon)
    (htarget : FixSession.validateTargetCompid reactor.compId message = true)
    (hreadable : FixSession.LogonReadable message)
    (hnext : (session.logOn reactor.sequenceStore message).IsNext reactor message) :
    ∃ taken, session.steps reactor message currentUTCDateTime = .ok (taken, .answered) ∧
      ∃ events sent, (session.perform taken).history = session.history ++ events ∧
        .sent sent ∈ events ∧ sent.messageType = .logon := by
  obtain ⟨result, hsteps⟩ := isOk_iff.mp
    ((FixSession.steps_logon_isOk session currentUTCDateTime hvalid hlogon htarget).mpr hreadable)
  obtain ⟨taken, verdict⟩ := result
  rcases FixSession.steps_cases hsteps with ⟨hinvalid, -⟩ | ⟨-, -, hwrong, -⟩ |
    ⟨-, -, -, heartBeatInterval, encryptionMethod, rest, rfl, hnumbered⟩ | ⟨-, hother, -⟩
  · rw [hvalid] at hinvalid
    cases hinvalid
  · rw [htarget] at hwrong
    cases hwrong
  · have hverdict : verdict = .answered := by
      rcases FixSession.numberedSteps_cases hnumbered with ⟨hwrong, -⟩ |
        ⟨-, -, -, -, ⟨-, ⟨hlogoff, -⟩ | ⟨-, hanswered⟩⟩ | ⟨hother, -⟩⟩
      · exact absurd hnext hwrong
      · rw [hlogon] at hlogoff
        cases hlogoff
      · exact hanswered
      · simp [FixMessage.isAdminMessage, hlogon] at hother
    rw [hverdict] at hsteps
    refine ⟨_, hsteps, ?_⟩
    rw [FixSession.perform_append]
    obtain ⟨after, hafter⟩ := FixSession.perform_events (session.perform (session.logonSteps
      reactor message heartBeatInterval encryptionMethod currentUTCDateTime)) rest
    obtain ⟨sent, hsent, -, htype, -⟩ := FixSession.send_history
      (session.perform [.logOn reactor.sequenceStore message,
        .configure heartBeatInterval message.fixVersion encryptionMethod])
      ((session.perform [.logOn reactor.sequenceStore message,
        .configure heartBeatInterval message.fixVersion encryptionMethod]).getLogonMessage
          reactor.compId) currentUTCDateTime
    have hopening : (session.perform (session.logonSteps reactor message
        heartBeatInterval encryptionMethod currentUTCDateTime)).history =
          session.history ++ [SessionEvent.loggedOn message] ++ [SessionEvent.sent sent] := hsent
    refine ⟨[.loggedOn message] ++ [.sent sent] ++ after, sent, ?_, by simp, htype⟩
    rw [hafter, hopening]
    simp only [List.append_assoc]
  · exact absurd hlogon hother

theorem answers_logon (hsession : reactor.sessions[peerIndex]? = some session)
    (hvalid : (FixSession.validateRequiredTags message 0).1 = true)
    (hlogon : message.messageType = .logon) :
    Answers reactor manager message session peerIndex currentUTCDateTime memory ↔
      Answerable reactor manager message session peerIndex := by
  have hadmin : message.isAdminMessage = true := by simp [FixMessage.isAdminMessage, hlogon]
  have hanswered : ∀ handled, processMessage reactor manager message session peerIndex
      currentUTCDateTime memory = .ok handled →
      (Sends session handled.reactor peerIndex (fun sent => sent.messageType = .logon) ∨
        ¬ InUse handled.reactor.sessionFlags peerIndex) →
      IsAnswered manager message session peerIndex handled := by
    intro handled hhandled hsent
    obtain ⟨-, -, processed, -, -, -, rfl⟩ :=
      processMessage_uncalled hsession hhandled (Or.inl hadmin)
    exact ⟨fun _ => hsent, fun htype => by simp [hlogon] at htype,
      fun htype => by simp [hlogon] at htype, fun _ central => rfl⟩
  have hclosing : session.Closes reactor message →
      (Answers reactor manager message session peerIndex currentUTCDateTime memory ↔
        InUse reactor.sessionFlags peerIndex) := by
    intro hcloses
    rw [← processMessage_closing manager currentUTCDateTime memory hsession hcloses]
    constructor
    · rintro ⟨handled, hhandled, -⟩
      exact ⟨handled, hhandled⟩
    · rintro ⟨handled, hhandled⟩
      obtain ⟨-, -, ⟨-, -, hfreed⟩ | ⟨hopen, -⟩⟩ := processMessage_slot hsession hhandled
      · exact ⟨handled, hhandled, hanswered handled hhandled (Or.inr hfreed)⟩
      · exact absurd hcloses hopen
  unfold Answerable
  simp only [hlogon]
  split
  · rename_i htarget
    by_cases hreadable : FixSession.LogonReadable message
    · by_cases hnext : (session.logOn reactor.sequenceStore message).IsNext reactor message
      · refine iff_of_true ?_ ⟨hreadable, Or.inl hnext⟩
        obtain ⟨taken, hsteps, hsent⟩ := steps_logon_answered currentUTCDateTime hvalid hlogon
          htarget hreadable hnext
        have hhandled := processMessage_answered manager memory hsession hsteps
        refine ⟨_, hhandled, hanswered _ hhandled (Or.inl ?_)⟩
        obtain ⟨events, sent, hevents, hmem, htype⟩ := hsent
        exact ⟨_, events, sent,
          List.getElem?_set_self (List.getElem?_eq_some_iff.mp hsession).1, hevents, hmem, htype⟩
      · have hcloses : session.Closes reactor message := by
          refine ⟨hvalid, ?_⟩
          rw [if_pos hlogon]
          exact Or.inr ⟨hreadable, hnext⟩
        rw [hclosing hcloses]
        simp [hreadable, hnext]
    · refine iff_of_false ?_ fun h => hreadable h.1
      rintro ⟨handled, hhandled, -⟩
      obtain ⟨taken, verdict, -, -, hsteps, -⟩ :=
        processMessage_uncalled hsession hhandled (Or.inl hadmin)
      exact hreadable ((FixSession.steps_logon_isOk session currentUTCDateTime hvalid hlogon
        htarget).mp (by rw [hsteps]; rfl))
  · rename_i htarget
    apply hclosing
    refine ⟨hvalid, ?_⟩
    rw [if_pos hlogon]
    exact Or.inl (by simpa using htarget)

/-- What closes a session, apart from a LOGON. -/
theorem closes_other (session : FixSession) (reactor : FixServerReactor)
    (hvalid : (FixSession.validateRequiredTags message 0).1 = true)
    (hother : message.messageType ≠ .logon) :
    session.Closes reactor message ↔
      message.messageType = .logoff ∨ ¬ session.IsNext reactor message := by
  simp only [FixSession.Closes, hvalid, if_neg hother, true_and]

/-- Nothing is sent to a session that is closed for a wrong number, and no call is made. -/
theorem not_answered_of_wrong {handled : Handled γ}
    (hsession : reactor.sessions[peerIndex]? = some session)
    (hvalid : (FixSession.validateRequiredTags message 0).1 = true)
    (hother : message.messageType ≠ .logon) (hwrong : ¬ session.IsNext reactor message)
    (h : processMessage reactor manager message session peerIndex currentUTCDateTime memory =
      .ok handled) :
    handled.call = none ∧ ∀ text, ¬ Rejects session handled peerIndex text := by
  obtain ⟨taken, verdict, processed, -, hsteps, hsettle, rfl⟩ :=
    processMessage_uncalled hsession h (Or.inr hwrong)
  refine ⟨rfl, fun text => ?_⟩
  have htaken : taken = [] := by
    rcases FixSession.steps_cases hsteps with ⟨hinvalid, -⟩ | ⟨-, hlogon, -⟩ | ⟨-, hlogon, -⟩ |
      ⟨-, -, hnumbered⟩
    · rw [hvalid] at hinvalid
      cases hinvalid
    · exact absurd hlogon hother
    · exact absurd hlogon hother
    · rcases FixSession.numberedSteps_cases hnumbered with ⟨-, htaken, -⟩ | ⟨-, hnext, -⟩
      · exact htaken
      · exact absurd hnext hwrong
  have hslot : processed.reactor.sessions[peerIndex]? = some session := by
    rw [FixServerReactor.settle_sessions hsettle, htaken]
    exact List.getElem?_set_self (List.getElem?_eq_some_iff.mp hsession).1
  exact not_sends hslot (List.append_nil _).symm fun sent hmem => by cases hmem

/-- An order or a cancel with a wrong number has no answer. -/
theorem not_answers_of_wrong (hsession : reactor.sessions[peerIndex]? = some session)
    (hvalid : (FixSession.validateRequiredTags message 0).1 = true)
    (htype : message.messageType = .newOrder ∨ message.messageType = .cancel)
    (hwrong : ¬ session.IsNext reactor message) :
    ¬ Answers reactor manager message session peerIndex currentUTCDateTime memory := by
  rintro ⟨handled, hhandled, hanswered⟩
  have hother : message.messageType ≠ .logon := by
    rcases htype with htype | htype <;> simp [htype]
  obtain ⟨hcall, hrejects⟩ := not_answered_of_wrong hsession hvalid hother hwrong hhandled
  rcases htype with horder | hcancel
  · rcases hanswered.newOrder horder with ⟨order, hsome⟩ | ⟨text, hsent, -⟩
    · rw [hcall] at hsome
      cases hsome
    · exact hrejects text hsent
  · rcases hanswered.cancel hcancel with ⟨order, origClientOrderID, hsome⟩ | ⟨text, hsent⟩
    · rw [hcall] at hsome
      cases hsome
    · exact hrejects text hsent

/-- Nothing is sent while a message is accepted. -/
theorem not_sends_accepted (hsession : reactor.sessions[peerIndex]? = some session)
    (message : FixMessage) (answers : FixMessage → Prop) :
    ¬ Sends session (reactor.setSession peerIndex (session.performStep (.accept message)))
      peerIndex answers := by
  have hslot : (reactor.setSession peerIndex
      (session.performStep (.accept message))).sessions[peerIndex]? =
        some (session.performStep (.accept message)) :=
    List.getElem?_set_self (List.getElem?_eq_some_iff.mp hsession).1
  refine not_sends hslot rfl ?_
  intro sent hmem
  cases List.mem_singleton.mp hmem

/-- A live session gets the reject, with its text. -/
theorem rejects_live (hsession : reactor.sessions[peerIndex]? = some session)
    (hused : InUse reactor.sessionFlags peerIndex) (message : FixMessage)
    (text currentUTCDateTime : Bytes) :
    Sends session (rejectOrder (reactor.setSession peerIndex
        (session.performStep (.accept message))) peerIndex text currentUTCDateTime) peerIndex
      fun sent => sent.messageType = .businessReject ∧ sent.getTagValue fixTagFreeText = text := by
  obtain ⟨hlt, -⟩ := List.getElem?_eq_some_iff.mp hsession
  have hslot : (reactor.setSession peerIndex
      (session.performStep (.accept message))).sessions[peerIndex]? =
        some (session.performStep (.accept message)) := List.getElem?_set_self hlt
  have hlive : (reactor.setSession peerIndex
      (session.performStep (.accept message))).getSession peerIndex =
        some (session.performStep (.accept message)) :=
    FixServerReactor.getSession_some.mpr ⟨FixServerReactor.getD_flag.mpr hused, hslot⟩
  obtain ⟨sent, hsent, -, htype, htags⟩ := FixSession.send_history
    (session.performStep (.accept message)) (rejectMessage reactor.compId
      (session.performStep (.accept message)) text) currentUTCDateTime
  rw [rejectOrder, hlive]
  refine ⟨_, [SessionEvent.accepted message] ++ [SessionEvent.sent sent], sent,
    List.getElem?_set_self (List.getElem?_eq_some_iff.mp hslot).1, ?_,
    List.mem_append_right _ (List.mem_singleton_self _), htype, ?_⟩
  · rw [← List.append_assoc]
    exact hsent
  · rw [htags fixTagFreeText (by decide)]
    simp [rejectMessage, FixMessage.getTagValue, FixMessage.setTag]

/-- An order that is rejected is answered where its slot still has a session. -/
theorem answers_rejected {text : Bytes} (hsession : reactor.sessions[peerIndex]? = some session)
    (htype : message.messageType = .newOrder) (hreadable : OrderReadable manager message)
    (hpassed : processMessage reactor manager message session peerIndex currentUTCDateTime memory =
      .ok ⟨rejectOrder (reactor.setSession peerIndex (session.performStep (.accept message)))
        peerIndex text currentUTCDateTime, none⟩) :
    Answers reactor manager message session peerIndex currentUTCDateTime memory ↔
      InUse reactor.sessionFlags peerIndex := by
  by_cases hused : InUse reactor.sessionFlags peerIndex
  · refine iff_of_true ⟨_, hpassed, ?_⟩ hused
    refine ⟨fun hlogon => by simp [htype] at hlogon, fun _ => Or.inr ⟨text, ?_, ?_⟩,
      fun hcancel => by simp [htype] at hcancel, fun _ central => rfl⟩
    · exact rejects_live hsession hused message text currentUTCDateTime
    · intro hnone
      have hsymbol := hreadable.symbol
      rw [hnone] at hsymbol
      cases hsymbol
  · refine iff_of_false ?_ hused
    rintro ⟨handled, hhandled, hanswered⟩
    have hnone : (reactor.setSession peerIndex
        (session.performStep (.accept message))).getSession peerIndex = none :=
      FixServerReactor.getSession_freed hused
    rw [hpassed] at hhandled
    simp only [rejectOrder, hnone] at hhandled
    cases hhandled
    rcases hanswered.newOrder htype with ⟨order, hcall⟩ | ⟨other, hrejects, -⟩
    · cases hcall
    · exact not_sends_accepted hsession message _ hrejects

theorem answers_newOrder (hsession : reactor.sessions[peerIndex]? = some session)
    (hvalid : (FixSession.validateRequiredTags message 0).1 = true)
    (htype : message.messageType = .newOrder) :
    Answers reactor manager message session peerIndex currentUTCDateTime memory ↔
      Answerable reactor manager message session peerIndex := by
  have hadmin : message.isAdminMessage = false := by simp [FixMessage.isAdminMessage, htype]
  unfold Answerable
  simp only [htype]
  by_cases hnext : session.IsNext reactor message
  · have hpassed := processMessage_passed manager currentUTCDateTime memory hsession hvalid hadmin
      hnext
    have hhandler : onFixMessage manager message peerIndex memory =
        onNewOrder manager message peerIndex memory := by
      rw [onFixMessage, htype]
    rw [hhandler] at hpassed
    by_cases hreadable : OrderReadable manager message
    · obtain ⟨handling, hhandling⟩ := isOk_iff.mp
        ((onNewOrder_isOk peerIndex memory).mpr hreadable)
      rw [hhandling] at hpassed
      rcases onNewOrder_supported hhandling with ⟨hsupported, order, rfl⟩ |
        ⟨hunsupported, text, rfl⟩
      · refine iff_of_true ⟨_, hpassed, ?_⟩ ⟨hnext, hreadable, Or.inl hsupported⟩
        exact ⟨fun hlogon => by simp [htype] at hlogon, fun _ => Or.inl ⟨order, rfl⟩,
          fun hcancel => by simp [htype] at hcancel,
          fun h => h.elim fun text hrejects =>
            absurd hrejects (not_sends_accepted hsession message _)⟩
      · rw [answers_rejected hsession htype hreadable hpassed]
        exact ⟨fun hused => ⟨hnext, hreadable, Or.inr hused⟩,
          fun h => h.2.2.resolve_left hunsupported⟩
    · refine iff_of_false ?_ fun h => hreadable h.2.1
      rintro ⟨handled, hhandled, -⟩
      cases hhandling : onNewOrder manager message peerIndex memory with
      | error error =>
        rw [hpassed, hhandling] at hhandled
        cases hhandled
      | ok handling =>
        have hreturns := isOk_iff.mpr ⟨handling, hhandling⟩
        exact hreadable ((onNewOrder_isOk peerIndex memory).mp hreturns)
  · exact iff_of_false (not_answers_of_wrong hsession hvalid (Or.inl htype) hnext)
      fun h => hnext h.1

theorem answers_cancel (hsession : reactor.sessions[peerIndex]? = some session)
    (hvalid : (FixSession.validateRequiredTags message 0).1 = true)
    (htype : message.messageType = .cancel) :
    Answers reactor manager message session peerIndex currentUTCDateTime memory ↔
      Answerable reactor manager message session peerIndex := by
  have hadmin : message.isAdminMessage = false := by simp [FixMessage.isAdminMessage, htype]
  unfold Answerable
  simp only [htype]
  by_cases hnext : session.IsNext reactor message
  · have hpassed := processMessage_passed manager currentUTCDateTime memory hsession hvalid hadmin
      hnext
    have hhandler : onFixMessage manager message peerIndex memory =
        onCancelOrder manager message peerIndex memory := by
      rw [onFixMessage, htype]
    rw [hhandler] at hpassed
    cases hhandling : onCancelOrder manager message peerIndex memory with
    | error error =>
      rw [hhandling] at hpassed
      refine iff_of_false ?_ fun h => ?_
      · rintro ⟨handled, hhandled, -⟩
        rw [hpassed] at hhandled
        cases hhandled
      · have hok := (onCancelOrder_isOk peerIndex memory).mpr h.2
        rw [hhandling] at hok
        cases hok
    | ok handling =>
      obtain ⟨securityId, hsecurity, rfl⟩ := onCancelOrder_cases hhandling
      rw [hhandling] at hpassed
      refine iff_of_true ⟨_, hpassed, ?_⟩ ⟨hnext, Option.isSome_iff_exists.mpr ⟨_, hsecurity⟩⟩
      exact ⟨fun hlogon => by simp [htype] at hlogon, fun horder => by simp [htype] at horder,
        fun _ => Or.inl ⟨_, _, rfl⟩,
        fun h => h.elim fun text hrejects =>
            absurd hrejects (not_sends_accepted hsession message _)⟩
  · exact iff_of_false (not_answers_of_wrong hsession hvalid (Or.inr htype) hnext)
      fun h => hnext h.1

/-- An administrative message with the next number is answered. -/
theorem steps_answered (currentUTCDateTime : Bytes)
    (hvalid : (FixSession.validateRequiredTags message 0).1 = true)
    (hlogon : message.messageType ≠ .logon) (hadmin : message.isAdminMessage = true)
    (hlogoff : message.messageType ≠ .logoff) (hnext : session.IsNext reactor message) :
    ∃ taken, session.steps reactor message currentUTCDateTime = .ok (taken, .answered) := by
  cases hsteps : session.steps reactor message currentUTCDateTime with
  | error error => exact absurd (FixSession.steps_throws hsteps).2.1 hlogon
  | ok result =>
    obtain ⟨taken, verdict⟩ := result
    rcases FixSession.steps_cases hsteps with ⟨hinvalid, -⟩ | ⟨-, hlogon', -⟩ |
      ⟨-, hlogon', -⟩ | ⟨-, -, hnumbered⟩
    · rw [hvalid] at hinvalid
      cases hinvalid
    · exact absurd hlogon' hlogon
    · exact absurd hlogon' hlogon
    · rcases FixSession.numberedSteps_cases hnumbered with ⟨hwrong, -⟩ |
        ⟨-, -, -, -, ⟨-, ⟨hother, -⟩ | ⟨-, hanswered⟩⟩ | ⟨happlication, -⟩⟩
      · exact absurd hnext hwrong
      · exact absurd hother hlogoff
      · exact ⟨taken, by rw [hanswered]⟩
      · rw [hadmin] at happlication
        cases happlication

/-- Any other message is handled, unless it would close a slot without a session. -/
theorem answers_other (hsession : reactor.sessions[peerIndex]? = some session)
    (hvalid : (FixSession.validateRequiredTags message 0).1 = true)
    (hlogon : message.messageType ≠ .logon) (horder : message.messageType ≠ .newOrder)
    (hcancel : message.messageType ≠ .cancel) :
    Answers reactor manager message session peerIndex currentUTCDateTime memory ↔
      (message.messageType ≠ .logoff ∧ session.IsNext reactor message) ∨
        InUse reactor.sessionFlags peerIndex := by
  have hanswered : ∀ handled, processMessage reactor manager message session peerIndex
      currentUTCDateTime memory = .ok handled → handled.call = none →
      IsAnswered manager message session peerIndex handled := by
    intro handled _ hcall
    exact ⟨fun htype => absurd htype hlogon, fun htype => absurd htype horder,
      fun htype => absurd htype hcancel, fun _ central => by rw [Handled.central, hcall]⟩
  have hclosing := closes_other session reactor hvalid hlogon
  by_cases hcloses : session.Closes reactor message
  · have huncalled : message.isAdminMessage = true ∨ ¬ session.IsNext reactor message := by
      rcases hclosing.mp hcloses with hlogoff | hwrong
      · exact Or.inl (by simp [FixMessage.isAdminMessage, hlogoff])
      · exact Or.inr hwrong
    have hnot : ¬ (message.messageType ≠ .logoff ∧ session.IsNext reactor message) := by
      rintro ⟨hother, hnext⟩
      exact (hclosing.mp hcloses).elim hother (fun hwrong => hwrong hnext)
    rw [or_iff_right hnot,
      ← processMessage_closing manager currentUTCDateTime memory hsession hcloses]
    constructor
    · rintro ⟨handled, hhandled, -⟩
      exact ⟨handled, hhandled⟩
    · rintro ⟨handled, hhandled⟩
      obtain ⟨-, -, processed, -, -, -, rfl⟩ :=
        processMessage_uncalled hsession hhandled huncalled
      exact ⟨_, hhandled, hanswered _ hhandled rfl⟩
  · rw [hclosing, not_or, not_not] at hcloses
    refine iff_of_true ?_ (Or.inl hcloses)
    cases hadmin : message.isAdminMessage with
    | true =>
      obtain ⟨taken, hsteps⟩ := steps_answered currentUTCDateTime hvalid hlogon hadmin hcloses.1
        hcloses.2
      have hhandled := processMessage_answered manager memory hsession hsteps
      exact ⟨_, hhandled, hanswered _ hhandled rfl⟩
    | false =>
      have hpassed := processMessage_passed manager currentUTCDateTime memory hsession hvalid hadmin
        hcloses.2
      have hhandler : onFixMessage manager message peerIndex memory =
          .ok (.rejectOrder (ascii "Only new and cancel orders accepted")) := by
        unfold onFixMessage
        split
        · rename_i htype
          exact absurd htype horder
        · rename_i htype
          exact absurd htype hcancel
        · rfl
      rw [hhandler] at hpassed
      exact ⟨_, hpassed, hanswered _ hpassed rfl⟩

end Messages

/-- With its numbers in a map, a message that has its required tags is answered exactly where it is
answerable. -/
theorem answers_iff_answerable (reactor : FixServerReactor) (manager : SecurityManager)
    (message : FixMessage) (session : FixSession) (peerIndex : Nat) (currentUTCDateTime : Bytes)
    (memory : Indeterminate γ) (hsession : reactor.sessions[peerIndex]? = some session)
    (hvalid : (FixSession.validateRequiredTags message 0).1 = true) :
    Answers reactor manager message session peerIndex currentUTCDateTime memory ↔
      Answerable reactor manager message session peerIndex := by
  by_cases hlogon : message.messageType = .logon
  · exact answers_logon hsession hvalid hlogon
  by_cases horder : message.messageType = .newOrder
  · exact answers_newOrder hsession hvalid horder
  by_cases hcancel : message.messageType = .cancel
  · exact answers_cancel hsession hvalid hcancel
  rw [answers_other hsession hvalid hlogon horder hcancel]
  unfold Answerable
  split
  · rename_i htype
    exact absurd htype hlogon
  · rename_i htype
    exact absurd htype horder
  · rename_i htype
    exact absurd htype hcancel
  · rename_i htype
    simp [htype]
  · rename_i hother
    have hlogoff : message.messageType ≠ .logoff := hother
    simp [hlogoff]

/-! ## With the sequence numbers in files -/

/-- What leaves the reactor thread, or the file that it reads behind the tokens of. -/
inductive FiledFault where
  | fault (fault : Fault)
  | file (error : FileError)

/-- The reactor and the call after a message, and the files. -/
structure FiledHandled (γ : Type) where
  handled : Handled γ
  files : Foundation.Files.Directory Bytes UInt8

/-- The first thing that is done about a LOGON with the right target is to load its numbers. -/
def loadFor (filed : FiledReactor) (message : FixMessage) :
    Except FileError (Option (Int × Int)) :=
  if FixSession.LogsOn filed.reactor message then
    (SequenceFiles.loadFromSequenceStore filed.files filed.reactor.compId
      message.senderCompId).map some
  else .ok none

/-- `processMessage` on the files: a message is handled with what is loaded out of them, and a
session that is closed saves its numbers. -/
def processFiled (creatable : Bytes → Bool) (filed : FiledReactor) (manager : SecurityManager)
    (message : FixMessage) (session : FixSession) (peerIndex : Nat) (currentUTCDateTime : Bytes)
    (memory : Indeterminate γ) : Except FiledFault (FiledHandled γ) :=
  match loadFor filed message with
  | .error error => .error (.file error)
  | .ok _ =>
    match processMessage filed.reading manager message session peerIndex currentUTCDateTime
        memory with
    | .error fault => .error (.fault fault)
    | .ok handled =>
      .ok { handled := handled
            files := (filed.reading.savedBy
                (.step (.handle peerIndex message currentUTCDateTime))).foldl
              (SequenceFiles.saveSequenceNumbersToStore creatable filed.reactor.compId)
              filed.files }

/-- The message is handled as it should be. -/
def AnswersOnFiles (creatable : Bytes → Bool) (filed : FiledReactor) (manager : SecurityManager)
    (message : FixMessage) (session : FixSession) (peerIndex : Nat) (currentUTCDateTime : Bytes)
    (memory : Indeterminate γ) : Prop :=
  ∃ filedHandled : FiledHandled γ, processFiled creatable filed manager message session peerIndex
      currentUTCDateTime memory = .ok filedHandled ∧
    IsAnswered manager message session peerIndex filedHandled.handled

/-- The numbers of a LOGON can be loaded, and with them the message is answerable. -/
structure AnswerableOnFiles (filed : FiledReactor) (manager : SecurityManager)
    (message : FixMessage) (session : FixSession) (peerIndex : Nat) : Prop where
  loads : FixSession.LogsOn filed.reactor message →
    (SequenceFiles.loadFromSequenceStore filed.files filed.reactor.compId
      message.senderCompId).isOk = true
  answerable : Answerable filed.reading manager message session peerIndex

theorem loadFor_isOk (filed : FiledReactor) (message : FixMessage) :
    (loadFor filed message).isOk = true ↔
      (FixSession.LogsOn filed.reactor message →
        (SequenceFiles.loadFromSequenceStore filed.files filed.reactor.compId
          message.senderCompId).isOk = true) := by
  unfold loadFor
  split
  · rename_i hlogsOn
    simp only [hlogsOn, forall_const]
    cases SequenceFiles.loadFromSequenceStore filed.files filed.reactor.compId
        message.senderCompId with
    | error error => exact Iff.rfl
    | ok numbers => exact Iff.rfl
  · rename_i hother
    exact iff_of_true rfl fun hlogsOn => absurd hlogsOn hother

/-- On files a message is answered where its numbers can be loaded and it is answered with them. -/
theorem answersOnFiles_iff (creatable : Bytes → Bool) (filed : FiledReactor)
    (manager : SecurityManager) (message : FixMessage) (session : FixSession) (peerIndex : Nat)
    (currentUTCDateTime : Bytes) (memory : Indeterminate γ) :
    AnswersOnFiles creatable filed manager message session peerIndex currentUTCDateTime memory ↔
      (loadFor filed message).isOk = true ∧
        Answers filed.reading manager message session peerIndex currentUTCDateTime memory := by
  unfold AnswersOnFiles Answers processFiled
  cases hload : loadFor filed message with
  | error error =>
    refine iff_of_false ?_ fun h => by cases h.1
    rintro ⟨filedHandled, hhandled, -⟩
    cases hhandled
  | ok numbers =>
    cases hprocess : processMessage filed.reading manager message session peerIndex
        currentUTCDateTime memory with
    | error fault =>
      refine iff_of_false ?_ ?_
      · rintro ⟨filedHandled, hhandled, -⟩
        cases hhandled
      · rintro ⟨-, handled, hhandled, -⟩
        cases hhandled
    | ok handled =>
      constructor
      · rintro ⟨filedHandled, hhandled, hanswered⟩
        cases hhandled
        exact ⟨rfl, handled, rfl, hanswered⟩
      · rintro ⟨-, other, hother, hanswered⟩
        cases hother
        exact ⟨_, rfl, hanswered⟩

/-- A message that has its required tags, on the session that stands in a slot, is answered
exactly where it is answerable. -/
theorem message_answered_iff (creatable : Bytes → Bool) (filed : FiledReactor)
    (manager : SecurityManager) (message : FixMessage) (session : FixSession) (peerIndex : Nat)
    (currentUTCDateTime : Bytes) (memory : Indeterminate γ)
    (hsession : filed.reactor.sessions[peerIndex]? = some session)
    (hvalid : (FixSession.validateRequiredTags message 0).1 = true) :
    AnswersOnFiles creatable filed manager message session peerIndex currentUTCDateTime memory ↔
      AnswerableOnFiles filed manager message session peerIndex := by
  rw [answersOnFiles_iff, loadFor_isOk,
    answers_iff_answerable filed.reading manager message session peerIndex currentUTCDateTime memory
      hsession hvalid]
  exact ⟨fun h => ⟨h.1, h.2⟩, fun h => ⟨h.loads, h.answerable⟩⟩

/-- CLIENT is logged on, and its numbers have not been saved. -/
def filedLoggedOn : FiledReactor := ⟨Engine.clientLoggedOn.reactor, fun _ => none⟩

/-- The order that CLIENT sends after its LOGON. -/
theorem message_answered_iff_clientOrder :
    ∃ session, filedLoggedOn.reactor.sessions[0]? = some session ∧
      AnswersOnFiles (fun _ => true) filedLoggedOn
        (CentralOrderBook.configured (γ := Unit) [ascii "MSFT"] false).2 (clientOrder 2) session 0
        (ascii "T") clearedMemory := by
  have hincoming : (filedLoggedOn.reactor.sessions[0]?).map
      FixSession.incomingSequenceNumber = some 1 := by
    decide +kernel
  obtain ⟨session, hsession, hone⟩ := Option.map_eq_some_iff.mp hincoming
  have hnext : session.IsNext filedLoggedOn.reading (clientOrder 2) := by
    intro _
    rw [hone]
    decide
  have hreadable : OrderReadable (CentralOrderBook.configured (γ := Unit) [ascii "MSFT"] false).2
      (clientOrder 2) :=
    ⟨by decide +kernel, by decide +kernel, by decide +kernel, by decide +kernel,
      by decide +kernel⟩
  have hused : InUse filedLoggedOn.reading.sessionFlags 0 := by
    unfold InUse
    decide +kernel
  refine ⟨session, hsession, (message_answered_iff _ _ _ _ session 0 _ _ hsession
    (by decide +kernel)).mpr ⟨fun hlogsOn => ?_, hnext, hreadable, Or.inr hused⟩⟩
  have hother : (clientOrder 2).messageType ≠ .logon := by decide
  exact absurd hlogsOn.2.1 hother

/-- CLIENT sends an order for a symbol that is not known. -/
theorem unknown_symbol_throws :
    ¬ ∀ creatable filed manager message session peerIndex currentUTCDateTime
        (memory : Indeterminate Unit), filed.reactor.sessions[peerIndex]? = some session →
      (FixSession.validateRequiredTags message 0).1 = true →
      AnswersOnFiles creatable filed manager message session peerIndex currentUTCDateTime
        memory := by
  intro h
  have hthrows : (filedLoggedOn.reactor.sessions[0]?).map (fun session =>
      (processFiled (fun _ => true) filedLoggedOn
        (CentralOrderBook.configured (γ := Unit) [ascii "MSFT"] false).2
        ((clientOrder 2).setTag fixTagSymbol (ascii "IBM")) session 0 (ascii "T")
        clearedMemory).isOk) = some false := by
    decide +kernel
  obtain ⟨session, hsession, hfails⟩ := Option.map_eq_some_iff.mp hthrows
  obtain ⟨handled, hhandled, -⟩ := h (fun _ => true) filedLoggedOn
    (CentralOrderBook.configured (γ := Unit) [ascii "MSFT"] false).2
    ((clientOrder 2).setTag fixTagSymbol (ascii "IBM")) session 0 (ascii "T")
    clearedMemory hsession (by decide +kernel)
  rw [hhandled] at hfails
  cases hfails

end LiteExchange.Server
