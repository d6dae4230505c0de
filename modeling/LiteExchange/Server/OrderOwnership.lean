import LiteExchange.Fix.CompIds
import LiteExchange.OrderMatcher.Outstanding
import LiteExchange.Server.Exchange

/-!
# Who owns an order

An order names its owner by the slot of the session it came from. A slot is freed when the
connection is lost and taken again by the next one, and a session may log on again under
another comp id, while the orders of the slot stay. As long as a comp id logs on only in
slots where nothing of another comp id is outstanding, and nothing is submitted or delivered
before the logon, the slot stands for the comp id. A report that the processor has popped and not
sent is outstanding too.
-/

namespace LiteExchange.Server

open Foundation.Ascii Foundation.Runs OrderMatcher
open LiteExchange.Fix LiteExchange.Fix.FixConstants LiteExchange.Fix.FixServerReactor

namespace Exchange

/-- The order matcher may still match the order, cancel it or report on it, or the processor has
a report on it in hand. -/
def Outstanding (exchange : Exchange) (order : Order Submission) : Prop :=
  exchange.system.Outstanding exchange.popped order ∨
    ∃ message, exchange.inHand.report = some message ∧ message.order = order

/-- The order that a label cancels for: a request, or the canceled order of a request whose
task ends. -/
def cancelsFor (exchange : Exchange) (label : ExchangeLabel) : Option (Order Submission) :=
  (exchange.issued label).bind exchange.system.cancelsFor

/-- What is expected of a step. -/
structure Owned (exchange : Exchange) (label : ExchangeLabel) : Prop where
  /-- A report is sent on the connection of a session that is logged on with the comp id of its
  order. -/
  delivered : ∀ currentUTCDateTime, label = .send currentUTCDateTime →
    ∀ message connection, exchange.inHand.receiver = some (message, connection) →
    ∃ session, exchange.reactor.getSession message.order.sessionId = some session ∧
      session.tcpConnection = connection ∧ session.targetCompId ≠ [] ∧
      session.targetCompId = message.order.origin.compId
  /-- What a request flags or takes off a book is an order of its own comp id. -/
  canceled : ∀ next, exchange.step label = some next →
    ∀ request, exchange.cancelsFor label = some request →
    ∀ securityId, ∀ order ∈ (exchange.system.central.book securityId).orders,
    order ∉ (next.system.central.book securityId).orders →
    request.origin.compId ≠ [] ∧ order.origin.compId = request.origin.compId

/-- The next message comes from a session that is logged on if it makes an order or a request,
and if it logs its session on, all that is outstanding for the slot is of its sender. The session
that was found for a report is still there when the report is sent, and is logged on. -/
def Keeps (exchange : Exchange) : ExchangeLabel → Prop
  | .process currentUTCDateTime memory =>
    (∀ task, (exchange.handled currentUTCDateTime memory).bind Handled.call = some task →
      exchange.loggedOnAs exchange.peerIndex ≠ []) ∧
    ∀ message, exchange.messages.head? = some message →
      exchange.reactor.LogsOnIn exchange.peerIndex message →
      ∀ order, exchange.Outstanding order → order.sessionId = exchange.peerIndex →
      order.origin.compId = message.senderCompId
  | .send _ =>
    ∀ message connection, exchange.inHand.receiver = some (message, connection) →
    ∃ session, exchange.reactor.getSession message.order.sessionId = some session ∧
      session.tcpConnection = connection ∧ session.targetCompId ≠ []
  | _ => True

/-- The slot of the order stands for the comp id it was submitted under. -/
def OwnedBy (owner : Nat → Bytes) (order : Order Submission) : Prop :=
  owner order.sessionId ≠ [] ∧ order.origin.compId = owner order.sessionId

/-- The slots stand for comp ids: what is outstanding for a slot is of its comp id, and a
session that is logged on there has it. -/
structure Attributed (owner : Nat → Bytes) (exchange : Exchange) : Prop where
  inStep : exchange.reactor.InStep
  outstanding : exchange.system.Stamped
    {stamp | owner stamp.1 ≠ [] ∧ stamp.2.compId = owner stamp.1} exchange.popped
  inHand : ∀ message, exchange.inHand.report = some message → OwnedBy owner message.order
  sessions : ∀ slot session, exchange.reactor.getSession slot = some session →
    session.targetCompId ≠ [] → session.targetCompId = owner slot

end Exchange

/-! ## What a message submits -/

section Handlers

variable {manager : SecurityManager} {message : FixMessage} {sessionId : Nat}
  {memory : Indeterminate Submission} {task : OrderMatcher.Task Submission}

/-- Only orders and cancel requests make a call, with the slot and the origin given. -/
theorem onFixMessage_call (h : onFixMessage manager message sessionId memory = .ok (.call task)) :
    message.messageType ≠ .logon ∧ task.order.stamp = (sessionId, memory.origin) := by
  unfold onFixMessage at h
  split at h
  · rename_i htype
    rcases onNewOrder_cases h with ⟨text, hrejected⟩ |
      ⟨securityId, side, quantity, price, -, -, -, -, -, hcall⟩
    · cases hrejected
    · cases hcall
      exact ⟨by rw [htype]; decide, rfl⟩
  · rename_i htype
    obtain ⟨securityId, -, hcall⟩ := onCancelOrder_cases h
    cases hcall
    exact ⟨by rw [htype]; decide, rfl⟩
  · cases h

end Handlers

section Reactor

variable {γ : Type} {reactor : FixServerReactor} {manager : SecurityManager}

theorem rejectOrder_keepsCompIds (reactor : FixServerReactor) (sessionId : Nat)
    (rejectionMessage currentUTCDateTime : Bytes) :
    reactor.KeepsCompIds (rejectOrder reactor sessionId rejectionMessage currentUTCDateTime) := by
  unfold rejectOrder
  split
  · rename_i session hsession
    exact setSession_keepsCompIds (getSession_some.mp hsession).2 rfl
  · exact KeepsCompIds.refl reactor

theorem sendReport_keepsCompIds {execID execID' : Nat} {message : OutgoingMessage γ}
    {session : FixSession} {currentUTCDateTime : Bytes} {next : FixServerReactor}
    (hinStep : reactor.InStep)
    (hsession : reactor.sessions[message.order.sessionId]? = some session)
    (h : sendReport reactor manager execID message session currentUTCDateTime =
      some (next, execID')) : next.InStep ∧ reactor.KeepsCompIds next := by
  obtain ⟨securityName, -, hresult⟩ := Option.map_eq_some_iff.mp h
  cases hresult
  exact ⟨inStep_setSession hinStep _, setSession_keepsCompIds hsession rfl⟩

/-- A message keeps the comp ids or logs its session on, and then it makes no call. -/
theorem processMessage_compIds {message : FixMessage} {session : FixSession} {peerIndex : Nat}
    {currentUTCDateTime : Bytes} {memory : Indeterminate Submission}
    {handled : Handled Submission} (hinStep : reactor.InStep)
    (hsession : reactor.sessions[peerIndex]? = some session)
    (h : processMessage reactor manager message session peerIndex currentUTCDateTime memory =
      .ok handled) :
    handled.reactor.InStep ∧
      (reactor.KeepsCompIds handled.reactor ∨ reactor.LogsOnIn peerIndex message ∧
        reactor.SetsCompId peerIndex message.senderCompId handled.reactor) := by
  obtain ⟨processed, hprocessed, hhandled⟩ := processMessage_cases h
  obtain ⟨taken, verdict, -, hsettle⟩ :=
    FixServerReactor.processMessage_cases hsession hprocessed
  have hstill := inStep_settle hinStep hsettle
  have hafter : handled.reactor.InStep ∧ processed.reactor.KeepsCompIds handled.reactor := by
    rcases hhandled with heq | ⟨rejectionMessage, heq⟩
    · rw [heq]
      exact ⟨hstill, KeepsCompIds.refl processed.reactor⟩
    · rw [heq]
      refine ⟨?_, rejectOrder_keepsCompIds _ _ _ _⟩
      unfold rejectOrder
      split
      · exact inStep_setSession hstill _
      · exact hstill
  refine ⟨hafter.1, ?_⟩
  rcases FixServerReactor.processMessage_compIds hsession hprocessed with hkeeps | ⟨hlogsOn, hsets⟩
  · exact Or.inl (hkeeps.trans hafter.2)
  · exact Or.inr ⟨hlogsOn, hsets.trans hafter.2⟩

theorem processMessage_call {message : FixMessage} {session : FixSession} {peerIndex : Nat}
    {currentUTCDateTime : Bytes} {memory : Indeterminate Submission}
    {handled : Handled Submission} {task : OrderMatcher.Task Submission}
    (h : processMessage reactor manager message session peerIndex currentUTCDateTime memory =
      .ok handled) (hcall : handled.call = some task) :
    message.messageType ≠ .logon ∧ task.order.stamp = (peerIndex, memory.origin) := by
  unfold processMessage at h
  split at h
  · split at h
    · split at h
      · cases h
        cases hcall
      · rename_i hmessage
        cases h
        cases hcall
        exact onFixMessage_call hmessage
      · cases h
    · cases h
      cases hcall
  · cases h

end Reactor

/-! ## The invariant -/

namespace Exchange

variable {exchange next : Exchange} {owner : Nat → Bytes}

/-- What the next message of the batch does, in terms of its slot. -/
theorem handled_cases {currentUTCDateTime : Bytes} {memory : Indeterminate Unit}
    {handled : Handled Submission} (hinStep : exchange.reactor.InStep)
    (h : exchange.handled currentUTCDateTime memory = some handled) :
    ∃ message, exchange.messages.head? = some message ∧ handled.reactor.InStep ∧
      (exchange.reactor.KeepsCompIds handled.reactor ∨
        exchange.reactor.LogsOnIn exchange.peerIndex message ∧
        exchange.reactor.SetsCompId exchange.peerIndex message.senderCompId handled.reactor) ∧
      ∀ task, handled.call = some task → message.messageType ≠ .logon ∧
        task.order.stamp = (exchange.peerIndex,
          { message := message, compId := exchange.loggedOnAs exchange.peerIndex }) := by
  unfold Exchange.handled at h
  split at h
  · rename_i message rest session hmessages hsession
    have hhandled := toOption_eq_some.mp h
    obtain ⟨hafter, hcompIds⟩ := processMessage_compIds hinStep hsession hhandled
    refine ⟨message, by rw [hmessages]; rfl, hafter, hcompIds, fun task hcall => ?_⟩
    exact processMessage_call hhandled hcall
  · cases h

/-- The slot of a session that is logged on stands for its comp id. -/
theorem Attributed.loggedOnAs (h : exchange.Attributed owner) {slot : Nat}
    (hlogged : exchange.loggedOnAs slot ≠ []) : exchange.loggedOnAs slot = owner slot := by
  unfold Exchange.loggedOnAs at hlogged ⊢
  split at hlogged
  · rename_i session hsession
    exact h.sessions slot session hsession hlogged
  · exact absurd rfl hlogged

/-- The comp ids are kept: so the slots stand for the same ones. -/
theorem sessions_of_keeps (h : exchange.Attributed owner) {reactor : FixServerReactor}
    (hkeeps : exchange.reactor.KeepsCompIds reactor) (slot : Nat) (session : FixSession)
    (hsession : reactor.getSession slot = some session) (hlogged : session.targetCompId ≠ []) :
    session.targetCompId = owner slot := by
  rcases hkeeps slot session hsession with hnone | ⟨before, hbefore, hsame⟩
  · exact absurd hnone hlogged
  · rw [hsame] at hlogged ⊢
    exact h.sessions slot before hbefore hlogged

/-- The call of a label carries the comp id that its slot stands for. -/
theorem issued_stamped (h : exchange.Attributed owner) {label : ExchangeLabel}
    (hkeeps : exchange.Keeps label) {systemLabel : Label Submission}
    (hissued : exchange.issued label = some systemLabel) :
    ∀ task, systemLabel.call = some task →
      owner task.order.sessionId ≠ [] ∧ task.order.origin.compId = owner task.order.sessionId := by
  intro task hcall
  cases label with
  | process currentUTCDateTime memory =>
    obtain ⟨made, hmade, rfl⟩ := Option.map_eq_some_iff.mp hissued
    have hsame : made = task := by
      cases made with
      | newOrder order => exact Option.some.inj hcall
      | cancelOrder order origClientOrderID => exact Option.some.inj hcall
    subst hsame
    have hlogged := hkeeps.1 made hmade
    obtain ⟨handled, hhandled, hhandledCall⟩ := Option.bind_eq_some_iff.mp hmade
    obtain ⟨message, -, -, -, hstamp⟩ := handled_cases h.inStep hhandled
    have hstamped := (hstamp made hhandledCall).2
    simp only [Order.stamp, Prod.mk.injEq] at hstamped
    rw [hstamped.1, hstamped.2, ← h.loggedOnAs hlogged]
    exact ⟨hlogged, rfl⟩
  | submit =>
    cases hissued
    cases hcall
  | work queueIndex =>
    cases hissued
    cases hcall
  | accept => cases hissued
  | disconnect peerIndex => cases hissued
  | receive peerIndex messages => cases hissued
  | pop queueIndex => cases hissued
  | look => cases hissued
  | send currentUTCDateTime => cases hissued

/-- A step of the order matcher. -/
theorem onSystem_attributed (h : exchange.Attributed owner) {systemLabel : Label Submission}
    (hcall : ∀ task, systemLabel.call = some task →
      owner task.order.sessionId ≠ [] ∧ task.order.origin.compId = owner task.order.sessionId)
    (hstep : exchange.onSystem systemLabel = some next) : next.Attributed owner := by
  obtain ⟨system, hsystem, rfl⟩ := Option.map_eq_some_iff.mp hstep
  exact ⟨h.inStep, System.step_stamped h.outstanding hcall hsystem, h.inHand, h.sessions⟩

/-- A message that logs its session on gives the slot to its sender. -/
theorem logOn_attributed (h : exchange.Attributed owner) {message : FixMessage}
    (hlogsOn : exchange.reactor.LogsOnIn exchange.peerIndex message)
    (houtstanding : ∀ order, exchange.Outstanding order →
      order.sessionId = exchange.peerIndex → order.origin.compId = message.senderCompId)
    {reactor : FixServerReactor} (hinStep : reactor.InStep)
    (hsets : exchange.reactor.SetsCompId exchange.peerIndex message.senderCompId reactor)
    (messages : List FixMessage) :
    ({ exchange with reactor := reactor, messages := messages } : Exchange).Attributed
      (Function.update owner exchange.peerIndex message.senderCompId) := by
  have hsender : message.senderCompId ≠ [] := by
    obtain ⟨session, -, ⟨hvalid, -, -⟩, -, -⟩ := hlogsOn
    exact FixSession.senderCompId_of_valid hvalid
  have hgiven : ∀ order, exchange.Outstanding order → OwnedBy owner order →
      OwnedBy (Function.update owner exchange.peerIndex message.senderCompId) order := by
    intro order hmem hbefore
    unfold OwnedBy at hbefore ⊢
    by_cases hslot : order.sessionId = exchange.peerIndex
    · rw [hslot, Function.update_self]
      exact ⟨hsender, houtstanding order hmem hslot⟩
    · rw [Function.update_of_ne hslot]
      exact hbefore
  refine ⟨hinStep, fun order hmem => hgiven order (Or.inl hmem) (h.outstanding order hmem),
    fun report hreport => ?_, fun slot session hsession hlogged => ?_⟩
  · exact hgiven report.order (Or.inr ⟨report, hreport, rfl⟩) (h.inHand report hreport)
  · rcases hsets slot session hsession with hnone | ⟨rfl, hcompId⟩ | ⟨hslot, before, hbefore, hsame⟩
    · exact absurd hnone hlogged
    · rw [Function.update_self]
      exact hcompId
    · rw [Function.update_of_ne hslot, hsame]
      rw [hsame] at hlogged
      exact h.sessions slot before hbefore hlogged

theorem processNext_attributed (h : exchange.Attributed owner) {currentUTCDateTime : Bytes}
    {memory : Indeterminate Unit} (hkeeps : exchange.Keeps (.process currentUTCDateTime memory))
    (hstep : exchange.processNext currentUTCDateTime memory = some next) :
    ∃ owner', next.Attributed owner' := by
  unfold processNext at hstep
  split at hstep
  · rename_i handled hhandled
    obtain ⟨message, hmessage, hinStep, hcompIds, hcall⟩ := handled_cases h.inStep hhandled
    rcases hcompIds with hkept | ⟨hlogsOn, hsets⟩
    · have hmiddle : ({ exchange with
          reactor := handled.reactor, messages := exchange.messages.tail } :
            Exchange).Attributed owner :=
        ⟨hinStep, h.outstanding, h.inHand, sessions_of_keeps h hkept⟩
      dsimp only at hstep
      split at hstep
      · rename_i task htask
        refine ⟨owner, onSystem_attributed hmiddle (issued_stamped h hkeeps ?_) hstep⟩
        simp only [issued, hhandled, Option.bind_some, htask, Option.map_some]
      · cases hstep
        exact ⟨owner, hmiddle⟩
    · have hlogon : message.messageType = .logon := by
        obtain ⟨session, -, ⟨-, hlogon, -⟩, -, -⟩ := hlogsOn
        exact hlogon
      dsimp only at hstep
      split at hstep
      · rename_i task htask
        exact absurd hlogon (hcall task htask).1
      · cases hstep
        exact ⟨_, logOn_attributed h hlogsOn (hkeeps.2 message hmessage hlogsOn) hinStep hsets _⟩
  · cases hstep

theorem pointed_some {slot : Nat} {connection : Option Nat} {session : FixSession}
    (h : exchange.pointed slot connection = some session) :
    exchange.reactor.sessions[slot]? = some session ∧ session.tcpConnection = connection := by
  obtain ⟨hsession, hconnection⟩ := Option.filter_eq_some_iff.mp h
  exact ⟨hsession, beq_iff_eq.mp hconnection⟩

/-- A report that is popped was outstanding, and is still. -/
theorem pop_attributed (h : exchange.Attributed owner) {queueIndex : Nat}
    (hstep : exchange.pop queueIndex = some next) : next.Attributed owner := by
  unfold pop at hstep
  split at hstep
  · rename_i message hhand hmessage
    cases hstep
    refine ⟨h.inStep, h.outstanding.pop fun queueID => ?_, fun report hreport => ?_, h.sessions⟩
    · dsimp only
      by_cases hqueue : queueID = queueIndex
      · subst hqueue
        rw [Function.update_self]
        omega
      · rw [Function.update_of_ne hqueue]
    · cases hreport
      exact h.outstanding message.order (.reported queueIndex _ (Nat.le_refl _) hmessage)
  · cases hstep

theorem look_attributed (h : exchange.Attributed owner) (hstep : exchange.look = some next) :
    next.Attributed owner := by
  unfold look at hstep
  split at hstep
  · rename_i queueIndex message hhand
    have hreport := h.inHand message (by rw [hhand]; rfl)
    split at hstep
    · cases hstep
      refine ⟨h.inStep, h.outstanding, fun report hfound => ?_, h.sessions⟩
      cases hfound
      exact hreport
    · cases hstep
      exact ⟨h.inStep, h.outstanding, fun _ hnone => (by cases hnone), h.sessions⟩
  · cases hstep

theorem send_attributed (h : exchange.Attributed owner) {currentUTCDateTime : Bytes}
    (hstep : exchange.send currentUTCDateTime = some next) : next.Attributed owner := by
  unfold send at hstep
  split at hstep
  · split at hstep
    · rename_i session hpointed
      obtain ⟨⟨reactor, execID⟩, hsend, rfl⟩ := Option.map_eq_some_iff.mp hstep
      obtain ⟨hinStep, hkept⟩ :=
        sendReport_keepsCompIds h.inStep (pointed_some hpointed).1 hsend
      exact ⟨hinStep, h.outstanding, fun _ hnone => (by cases hnone),
        sessions_of_keeps h hkept⟩
    · cases hstep
  · cases hstep

theorem step_attributed (h : exchange.Attributed owner) {label : ExchangeLabel}
    (hkeeps : exchange.Keeps label) (hstep : exchange.step label = some next) :
    ∃ owner', next.Attributed owner' := by
  cases label with
  | accept =>
    simp only [step, Option.ite_none_right_eq_some] at hstep
    obtain ⟨reactor, haccept, rfl⟩ := Option.map_eq_some_iff.mp hstep.2
    have haccepted := toOption_eq_some.mp haccept
    exact ⟨owner, (accept_cases h.inStep haccepted).1, h.outstanding, h.inHand,
      sessions_of_keeps h (accept_keepsCompIds h.inStep haccepted)⟩
  | disconnect peerIndex =>
    simp only [step, Option.ite_none_right_eq_some] at hstep
    obtain ⟨reactor, hclose, rfl⟩ := Option.map_eq_some_iff.mp hstep.2
    have hclosed := toOption_eq_some.mp hclose
    exact ⟨owner, inStep_disconnect h.inStep hclosed, h.outstanding, h.inHand,
      sessions_of_keeps h (disconnect_keepsCompIds hclosed)⟩
  | receive peerIndex messages =>
    simp only [step, Option.ite_none_right_eq_some] at hstep
    cases hstep.2
    exact ⟨owner, h.inStep, h.outstanding, h.inHand, h.sessions⟩
  | process currentUTCDateTime memory =>
    simp only [step, Option.ite_none_right_eq_some] at hstep
    exact processNext_attributed h hkeeps hstep.2
  | submit => exact ⟨owner, onSystem_attributed h (issued_stamped h hkeeps rfl) hstep⟩
  | work queueIndex => exact ⟨owner, onSystem_attributed h (issued_stamped h hkeeps rfl) hstep⟩
  | pop queueIndex => exact ⟨owner, pop_attributed h hstep⟩
  | look => exact ⟨owner, look_attributed h hstep⟩
  | send currentUTCDateTime => exact ⟨owner, send_attributed h hstep⟩

theorem configured_attributed (compId : Bytes) (sequenceNumberValidation : Bool)
    (store : FixSequenceStore) (symbols : List Bytes) (multithreaded : Bool) :
    (configured compId sequenceNumberValidation store symbols multithreaded).Attributed
      fun _ => [] where
  inStep := initial_inStep compId sequenceNumberValidation store
  outstanding := System.configured_stamped symbols multithreaded
  inHand := fun _ hnone => by cases hnone
  sessions := fun slot session hsession => by
    have hnone := (getSession_some.mp hsession).2
    cases hnone

/-- A step of the exchange makes the step of the order matcher that its label issues. -/
theorem issued_step {label : ExchangeLabel} {systemLabel : Label Submission}
    (hissued : exchange.issued label = some systemLabel)
    (hstep : exchange.step label = some next) :
    exchange.system.step systemLabel = some next.system := by
  cases label with
  | process currentUTCDateTime memory =>
    simp only [step, Option.ite_none_right_eq_some] at hstep
    obtain ⟨task, htask, rfl⟩ := Option.map_eq_some_iff.mp hissued
    obtain ⟨handled, hhandled, hcall⟩ := Option.bind_eq_some_iff.mp htask
    have hnext := hstep.2
    simp only [processNext, hhandled, hcall] at hnext
    obtain ⟨system, hsystem, rfl⟩ := Option.map_eq_some_iff.mp hnext
    exact hsystem
  | submit =>
    cases hissued
    obtain ⟨system, hsystem, rfl⟩ := Option.map_eq_some_iff.mp hstep
    exact hsystem
  | work queueIndex =>
    cases hissued
    obtain ⟨system, hsystem, rfl⟩ := Option.map_eq_some_iff.mp hstep
    exact hsystem
  | accept => cases hissued
  | disconnect peerIndex => cases hissued
  | receive peerIndex messages => cases hissued
  | pop queueIndex => cases hissued
  | look => cases hissued
  | send currentUTCDateTime => cases hissued

/-- Where the slots stand for comp ids, reports and cancels go to the owner. -/
theorem Attributed.owned (h : exchange.Attributed owner) {label : ExchangeLabel}
    (hkeeps : exchange.Keeps label) : exchange.Owned label where
  delivered := by
    rintro currentUTCDateTime rfl message connection hhand
    obtain ⟨session, hsession, hconnection, hlogged⟩ := hkeeps message connection hhand
    have howner := h.inHand message (InHand.report_of_receiver hhand)
    refine ⟨session, hsession, hconnection, hlogged, ?_⟩
    rw [h.sessions _ session hsession hlogged]
    exact howner.2.symm
  canceled := by
    intro next hstep request hcancels securityId order hmem hgone
    obtain ⟨systemLabel, hissued, hcancelsFor⟩ := Option.bind_eq_some_iff.mp hcancels
    have hrequest := System.cancelsFor_stamped h.outstanding (issued_stamped h hkeeps hissued)
      hcancelsFor
    have horder := h.outstanding order (.resting securityId hmem)
    have hslot : order.sessionId = request.sessionId := by
      by_contra hother
      exact hgone (System.cancels_keeps (issued_step hissued hstep) hcancelsFor hmem hother)
    simp only [Order.stamp, Set.mem_ofPred_eq] at hrequest horder
    rw [hslot] at horder
    refine ⟨?_, horder.2.trans hrequest.2.symm⟩
    rw [hrequest.2]
    exact hrequest.1

/-- In every run all of whose steps meet the condition, reports go to sessions that are logged
on with the comp id of the order, and requests cancel orders of their own comp id. -/
theorem orders_owned (compId : Bytes) (sequenceNumberValidation : Bool)
    (store : FixSequenceStore) (symbols : List Bytes) (multithreaded : Bool)
    (labels : List ExchangeLabel)
    (h : Along step Keeps
      (configured compId sequenceNumberValidation store symbols multithreaded) labels) :
    Along step Owned
      (configured compId sequenceNumberValidation store symbols multithreaded) labels := by
  refine along_invariant (fun exchange => ∃ owner, exchange.Attributed owner) ?_ ?_
    ⟨_, configured_attributed compId sequenceNumberValidation store symbols multithreaded⟩ h
  · rintro exchange label next ⟨owner, hattributed⟩ hkeeps hstep
    exact step_attributed hattributed hkeeps hstep
  · rintro exchange label ⟨owner, hattributed⟩ hkeeps
    exact hattributed.owned hkeeps

/-- An exchange for MSFT that has just started. -/
def started : Exchange := configured (ascii "SERVER") true (fun _ => none) [ascii "MSFT"] false

/-- CLIENT connects, logs on and submits an order. -/
def clientOrders : List ExchangeLabel :=
  [.accept, .receive 0 [clientLogon 1, clientOrder 2], .process (ascii "T") clearedMemory,
    .process (ascii "T") clearedMemory]

/-- CLIENT is gone, and OTHER logs on in its slot. -/
def otherLogsOn : List ExchangeLabel :=
  [.disconnect 0, .accept, .receive 0 [{ clientLogon 1 with senderCompId := ascii "OTHER" }],
    .process (ascii "T") clearedMemory]

/-- The processor takes the first report and sends it. -/
def reportDelivered : List ExchangeLabel := [.pop 0, .look, .send (ascii "T")]

/-- What is computed of the state after concrete labels. -/
theorem computed (test : Exchange → Bool) {labels : List ExchangeLabel}
    (h : (run step started labels).map test = some true)
    (hrun : run step started labels = some next) : test next = true := by
  rw [hrun] at h
  exact Option.some.inj h

/-- Nothing is outstanding when CLIENT logs on, and it is logged on from then on. -/
theorem clientOrders_keeps : Along step Keeps started (clientOrders ++ reportDelivered) := by
  refine ⟨trivial, fun connected hconnected => ⟨trivial, fun received hreceived => ⟨⟨?_, ?_⟩,
    fun loggedOn hloggedOn => ⟨⟨?_, ?_⟩, fun submitted hsubmitted => ⟨trivial,
      fun popped hpopped => ⟨trivial, fun found hfound => ⟨?_, fun _ _ => trivial⟩⟩⟩⟩⟩⟩⟩
  · have hrun : run step started (clientOrders.take 2) = some received := by
      simp [clientOrders, hconnected, hreceived]
    have hnone := computed (fun exchange =>
      ((exchange.handled (ascii "T") clearedMemory).bind Handled.call).isNone)
      (by decide +kernel) hrun
    intro task htask
    rw [htask] at hnone
    cases hnone
  · cases hconnected
    cases hreceived
    have hempty : (System.configured [ascii "MSFT"] false).Stamped
        (∅ : Set (Nat × Submission)) fun _ => 0 := System.configured_stamped _ _
    rintro _ _ _ order (hmem | ⟨report, hnone, -⟩)
    · exact absurd (hempty order hmem) id
    · cases hnone
  · have hrun : run step started (clientOrders.take 3) = some loggedOn := by
      simp [clientOrders, hconnected, hreceived, hloggedOn]
    have hlogged := computed (fun exchange =>
      decide (exchange.loggedOnAs exchange.peerIndex ≠ [])) (by decide +kernel) hrun
    exact fun _ _ => of_decide_eq_true hlogged
  · have hrun : run step started (clientOrders.take 3) = some loggedOn := by
      simp [clientOrders, hconnected, hreceived, hloggedOn]
    have hnext := computed (fun exchange =>
      exchange.messages.head?.all fun message => message.messageType != .logon)
      (by decide +kernel) hrun
    rintro message hmessage ⟨session, -, ⟨-, hlogon, -⟩, -, -⟩
    rw [hmessage, Option.all_some, hlogon] at hnext
    cases hnext
  · have hrun : run step started (clientOrders ++ reportDelivered.take 2) = some found := by
      simp [clientOrders, reportDelivered, hconnected, hreceived, hloggedOn, hsubmitted, hpopped,
        hfound]
    have hlogged := computed (fun exchange => exchange.inHand.receiver.all fun receiver =>
      (exchange.reactor.getSession receiver.1.order.sessionId).any fun session =>
        decide (session.tcpConnection = receiver.2 ∧ session.targetCompId ≠ []))
      (by decide +kernel) hrun
    intro message connection hhand
    rw [hhand, Option.all_some] at hlogged
    obtain ⟨session, hsession, hthere⟩ := (Option.any_eq_true _ _).mp hlogged
    exact ⟨session, hsession, of_decide_eq_true hthere⟩

/-- CLIENT gets the report of its order. -/
theorem orders_owned_client : Along step Owned started (clientOrders ++ reportDelivered) :=
  orders_owned (ascii "SERVER") true (fun _ => none) [ascii "MSFT"] false _ clientOrders_keeps

/-- OTHER gets the report of the order of CLIENT. -/
theorem report_to_another :
    ¬ ∀ compId sequenceNumberValidation store symbols multithreaded labels,
      Along step Owned
        (configured compId sequenceNumberValidation store symbols multithreaded) labels := by
  intro h
  have hboth := h (ascii "SERVER") true (fun _ => none) [ascii "MSFT"] false
    (clientOrders ++ otherLogsOn ++ [.pop 0, .look] ++ [.send (ascii "T")])
  have hcomputed : (run step started (clientOrders ++ otherLogsOn ++ [.pop 0, .look])).map
      (fun exchange => exchange.inHand.receiver.any fun receiver =>
        (exchange.reactor.getSession receiver.1.order.sessionId).all fun session =>
          decide (session.targetCompId ≠ receiver.1.order.origin.compId)) = some true := by
    decide +kernel
  obtain ⟨exchange, hrun, hreport⟩ := Option.map_eq_some_iff.mp hcomputed
  obtain ⟨-, howned, -⟩ := along_split hboth hrun
  obtain ⟨⟨message, connection⟩, hhand, hother⟩ := (Option.any_eq_true _ _).mp hreport
  obtain ⟨session, hsession, -, -, hsame⟩ :=
    howned.delivered (ascii "T") rfl message connection hhand
  rw [hsession, Option.all_some, decide_eq_true_eq] at hother
  exact hother hsame

end Exchange

end LiteExchange.Server
