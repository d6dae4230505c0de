import LiteExchange.OrderMatcher.Outcomes
import LiteExchange.Server.ClientReports
import LiteExchange.Server.Echoes

/-!
# What the clients see of a run

The outgoing message processor takes the reports out of the rings and sends each to the session
in the slot of its order. Whatever the reactor thread and the workers do in the meantime, a client
reads in every report what it has sent in its order or its request, and once all is delivered the
reports of a security are those of executing its orders and cancels one after the other. The main
results are about single-threaded mode, where the reactor thread alone pushes to a ring: a ring
that two threads push to at the same time may lose reports.
-/

namespace LiteExchange.Server

open Foundation.Ascii Foundation.Runs Foundation.Refinement OrderMatcher
open LiteExchange.Fix LiteExchange.Fix.FixConstants LiteExchange.Fix.FixMessage

/-- A report that the processor is done with. `sent` is what it has sent, with the session as it
was; without a session in the slot the report is dropped. -/
structure Delivery where
  queueIndex : Nat
  message : OutgoingMessage Submission
  execID : Nat
  sent : Option (FixSession × FixMessage)

/-- The report in hand, if it comes from the ring. -/
def InHand.fromRing (queueIndex : Nat) : InHand → List (OutgoingMessage Submission)
  | .nothing => []
  | .popped origin message => if origin = queueIndex then [message] else []
  | .found origin message _ => if origin = queueIndex then [message] else []

namespace Exchange

/-- The processor drops the report that it has popped. -/
def dropped (exchange : Exchange) : Option Delivery :=
  match exchange.inHand with
  | .popped queueIndex message =>
    if (exchange.reactor.getSession message.order.sessionId).isSome then none
    else
      some
        { queueIndex := queueIndex
          message := message
          execID := exchange.execID
          sent := none }
  | _ => none

/-- It sends the report to the session that it has found. -/
def sent (exchange : Exchange) (currentUTCDateTime : Bytes) : Option Delivery :=
  match exchange.inHand with
  | .found queueIndex message connection =>
    (exchange.pointed message.order.sessionId connection).bind fun session =>
      (exchange.manager.getSecurityName message.order.securityId).map fun securityName =>
        { queueIndex := queueIndex
          message := message
          execID := exchange.execID + 1
          sent := some (session, session.stamped (executionReport exchange.reactor.compId session
            message.order (exchange.execID + 1) securityName) currentUTCDateTime) }
  | _ => none

def delivery (exchange : Exchange) : ExchangeLabel → Option Delivery
  | .look => exchange.dropped
  | .send currentUTCDateTime => exchange.sent currentUTCDateTime
  | _ => none

/-- A step that is not the processor's delivers nothing. -/
theorem delivery_none {exchange : Exchange} {label : ExchangeLabel}
    (h : label.processor = false) : exchange.delivery label = none := by
  cases label with
  | pop queueIndex => rfl
  | look => cases h
  | send currentUTCDateTime => cases h
  | accept => rfl
  | disconnect peerIndex => rfl
  | receive peerIndex messages => rfl
  | process currentUTCDateTime memory => rfl
  | submit => rfl
  | work queueIndex => rfl

/-- A send delivers the report in hand: what is sent is what the session records. -/
theorem sent_cases {exchange next : Exchange} {currentUTCDateTime : Bytes}
    (hstep : exchange.send currentUTCDateTime = some next) :
    ∃ delivery session sent changed, exchange.sent currentUTCDateTime = some delivery ∧
      delivery.sent = some (session, sent) ∧ delivery.execID = exchange.execID + 1 ∧
      (∀ queueIndex, exchange.inHand.fromRing queueIndex =
        if delivery.queueIndex = queueIndex then [delivery.message] else []) ∧
      changed.history = session.history ++ [.sent sent] ∧
      next = { exchange with
        reactor := exchange.reactor.setSession delivery.message.order.sessionId changed
        inHand := .nothing
        execID := exchange.execID + 1 } := by
  obtain ⟨queueIndex, message, connection, session, securityName, hhand, hpointed, hname, rfl⟩ :=
    send_cases hstep
  generalize hreport : executionReport exchange.reactor.compId session message.order
    (exchange.execID + 1) securityName = report
  have hsent : exchange.sent currentUTCDateTime = some
      { queueIndex := queueIndex
        message := message
        execID := exchange.execID + 1
        sent := some (session, session.stamped report currentUTCDateTime) } := by
    rw [Exchange.sent, hhand]
    simp only [hpointed, hname, hreport, Option.bind_some, Option.map_some]
  exact ⟨_, session, session.stamped report currentUTCDateTime,
    session.send report currentUTCDateTime, hsent, rfl, rfl, fun other => by rw [hhand]; rfl, rfl,
    rfl⟩

/-! ## What is taken out of the rings -/

/-- Of each ring its first reports have been taken, in their order, the last one may be in hand,
and the reports that were sent are numbered from 1. -/
structure Taken (deliveries : List Delivery) (exchange : Exchange) : Prop where
  popped : ∀ queueIndex, exchange.popped queueIndex ≤
    (exchange.system.central.outgoingMessages queueIndex).length
  rings : ∀ queueIndex,
    (deliveries.filter fun delivery => delivery.queueIndex == queueIndex).map Delivery.message ++
        exchange.inHand.fromRing queueIndex =
      (exchange.system.central.outgoingMessages queueIndex).take (exchange.popped queueIndex)
  execIDs : (deliveries.filter fun delivery => delivery.sent.isSome).map Delivery.execID =
    List.range' 1 exchange.execID

section Taken

variable {deliveries : List Delivery} {exchange next : Exchange}

/-- A step that is not the processor's may push some reports. -/
theorem Taken.grow (h : Taken deliveries exchange)
    (grow : ∀ queueIndex, ∃ later, next.system.central.outgoingMessages queueIndex =
      exchange.system.central.outgoingMessages queueIndex ++ later)
    (popped : next.popped = exchange.popped) (inHand : next.inHand = exchange.inHand)
    (execID : next.execID = exchange.execID) : Taken deliveries next where
  popped := by
    intro queueIndex
    obtain ⟨later, hlater⟩ := grow queueIndex
    have hpopped := h.popped queueIndex
    rw [popped, hlater, List.length_append]
    omega
  rings := by
    intro queueIndex
    obtain ⟨later, hlater⟩ := grow queueIndex
    rw [inHand, h.rings, popped, hlater, List.take_append_of_le_length (h.popped queueIndex)]
  execIDs := by rw [h.execIDs, execID]

theorem Taken.pop (h : Taken deliveries exchange) {queueIndex : Nat}
    (hstep : exchange.pop queueIndex = some next) : Taken deliveries next := by
  obtain ⟨message, hhand, hmessage, rfl⟩ := pop_cases hstep
  have hring := List.getElem?_eq_some_iff.mp hmessage
  refine ⟨fun other => ?_, fun other => ?_, h.execIDs⟩
  · by_cases hother : other = queueIndex
    · subst hother
      simp only [Function.update_self]
      exact hring.1
    · simp only [Function.update_of_ne hother]
      exact h.popped other
  · have hbefore := h.rings other
    rw [hhand, InHand.fromRing, List.append_nil] at hbefore
    rw [hbefore, InHand.fromRing]
    by_cases hother : other = queueIndex
    · subst hother
      have hnext : (exchange.system.central.outgoingMessages other)[exchange.popped other]? =
          some message := hmessage
      simp only [Function.update_self, if_true]
      rw [List.take_add_one, hnext]
      rfl
    · simp only [Function.update_of_ne hother, if_neg (Ne.symm hother), List.append_nil]

/-- The report in hand is delivered. -/
theorem Taken.rings_deliver (h : Taken deliveries exchange) (delivery : Delivery)
    (hhand : ∀ queueIndex, exchange.inHand.fromRing queueIndex =
      if delivery.queueIndex = queueIndex then [delivery.message] else []) (queueIndex : Nat) :
    ((deliveries ++ [delivery]).filter fun delivery => delivery.queueIndex == queueIndex).map
        Delivery.message =
      (exchange.system.central.outgoingMessages queueIndex).take (exchange.popped queueIndex) := by
  rw [← h.rings queueIndex, hhand, List.filter_append, List.map_append]
  by_cases hqueue : delivery.queueIndex = queueIndex
  · simp [hqueue]
  · simp [hqueue]

theorem Taken.look (h : Taken deliveries exchange) (hstep : exchange.look = some next) :
    Taken (deliveries ++ exchange.dropped.toList) next := by
  obtain ⟨queueIndex, message, hhand, ⟨session, hsession, rfl⟩ | ⟨hnone, rfl⟩⟩ := look_cases hstep
  · have hkept : exchange.dropped = none := by
      rw [dropped, hhand]
      simp [hsession]
    rw [hkept, Option.toList_none, List.append_nil]
    refine ⟨h.popped, fun other => ?_, h.execIDs⟩
    rw [← h.rings other, hhand]
    rfl
  · have hdropped : exchange.dropped = some
        { queueIndex := queueIndex
          message := message
          execID := exchange.execID
          sent := none } := by
      rw [dropped, hhand]
      simp [hnone]
    rw [hdropped, Option.toList_some]
    refine ⟨h.popped, fun other => ?_, ?_⟩
    · have hrings := h.rings_deliver
        { queueIndex := queueIndex, message := message, execID := exchange.execID, sent := none }
        (fun other => by rw [hhand]; rfl) other
      rw [InHand.fromRing, List.append_nil]
      exact hrings
    · rw [List.filter_append, List.map_append, h.execIDs]
      exact List.append_nil _

theorem Taken.send (h : Taken deliveries exchange) {currentUTCDateTime : Bytes}
    (hstep : exchange.send currentUTCDateTime = some next) :
    Taken (deliveries ++ (exchange.sent currentUTCDateTime).toList) next := by
  obtain ⟨delivery, session, sent, changed, hdelivery, hsent, hexecID, hhand, -, rfl⟩ :=
    sent_cases hstep
  rw [hdelivery, Option.toList_some]
  refine ⟨h.popped, fun queueIndex => ?_, ?_⟩
  · rw [InHand.fromRing, List.append_nil]
    exact h.rings_deliver delivery hhand queueIndex
  · rw [List.filter_append, List.map_append, h.execIDs]
    simp only [List.filter_cons, hsent, Option.isSome_some, if_true, List.filter_nil,
      List.map_cons, List.map_nil, hexecID]
    rw [List.range'_1_concat, Nat.add_comm]

end Taken

section Runs

variable {compId : Bytes} {sequenceNumberValidation : Bool} {store : FixSequenceStore}
  {symbols : List Bytes} {multithreaded : Bool} {labels : List ExchangeLabel}
  {exchange next : Exchange}

/-- The requests of a run, security by security, are replayed in its state. -/
theorem run_simulates
    (hrun : run step (configured compId sequenceNumberValidation store symbols multithreaded)
      labels = some exchange) :
    exchange.system.Simulates (requestsOf (shown step issued
      (configured compId sequenceNumberValidation store symbols multithreaded) labels)) :=
  (System.run_simulates symbols multithreaded (run_system hrun)).1

/-- A step only pushes to the rings. -/
theorem rings_grow
    (hrun : run step (configured compId sequenceNumberValidation store symbols multithreaded)
      labels = some exchange) {label : ExchangeLabel} (hstep : exchange.step label = some next)
    (queueIndex : Nat) : ∃ later, next.system.central.outgoingMessages queueIndex =
      exchange.system.central.outgoingMessages queueIndex ++ later := by
  cases hissued : exchange.issued label with
  | none =>
    rw [(step_frame hstep).system hissued]
    exact ⟨[], (List.append_nil _).symm⟩
  | some systemLabel =>
    obtain ⟨later, -, hlater⟩ :=
      (System.step_pushes (run_simulates hrun) (issued_step hissued hstep)).2 queueIndex
    exact ⟨_, hlater⟩

/-- What the processor of a run has taken. -/
theorem run_taken
    (hrun : run step (configured compId sequenceNumberValidation store symbols multithreaded)
      labels = some exchange) :
    Taken (shown step delivery
      (configured compId sequenceNumberValidation store symbols multithreaded) labels)
      exchange := by
  refine run_induction (fun labels exchange => Taken (shown step delivery
    (configured compId sequenceNumberValidation store symbols multithreaded) labels)
    exchange) ?_ ?_ hrun
  · exact ⟨fun _ => Nat.zero_le _, fun _ => rfl, rfl⟩
  · intro labels before label after hbefore ih hstep
    rw [shown_snoc delivery hbefore hstep]
    cases hprocessor : label.processor with
    | false =>
      obtain ⟨hpopped, hhand, hexecID⟩ := (step_frame hstep).processor hprocessor
      rw [delivery_none hprocessor, Option.toList_none, List.append_nil]
      exact ih.grow (rings_grow hbefore hstep) hpopped hhand hexecID
    | true =>
      cases label with
      | pop queueIndex =>
        have hnone : before.delivery (.pop queueIndex) = none := rfl
        rw [hnone, Option.toList_none, List.append_nil]
        exact ih.pop hstep
      | look => exact ih.look hstep
      | send currentUTCDateTime => exact ih.send hstep
      | accept => cases hprocessor
      | disconnect peerIndex => cases hprocessor
      | receive peerIndex messages => cases hprocessor
      | process currentUTCDateTime memory => cases hprocessor
      | submit => cases hprocessor
      | work queueIndex => cases hprocessor

/-- The report in hand was in a ring. -/
theorem run_inHand
    (hrun : run step (configured compId sequenceNumberValidation store symbols multithreaded)
      labels = some exchange) {message : OutgoingMessage Submission}
    (hhand : exchange.inHand.report = some message) :
    ∃ queueIndex index : Nat,
      (exchange.system.central.outgoingMessages queueIndex)[index]? = some message := by
  have hfrom : ∃ queueIndex, message ∈ exchange.inHand.fromRing queueIndex := by
    cases hinHand : exchange.inHand with
    | nothing =>
      rw [hinHand] at hhand
      cases hhand
    | popped queueIndex held =>
      rw [hinHand] at hhand
      cases hhand
      exact ⟨queueIndex, by simp [InHand.fromRing]⟩
    | found queueIndex held connection =>
      rw [hinHand] at hhand
      cases hhand
      exact ⟨queueIndex, by simp [InHand.fromRing]⟩
  obtain ⟨queueIndex, hmem⟩ := hfrom
  have htaken := (run_taken hrun).rings queueIndex
  have hring : message ∈ exchange.system.central.outgoingMessages queueIndex := by
    apply List.mem_of_mem_take
    rw [← htaken]
    exact List.mem_append_right _ hmem
  obtain ⟨index, hindex⟩ := List.mem_iff_getElem?.mp hring
  exact ⟨queueIndex, index, hindex⟩

end Runs

/-! ## What is sent -/

/-- The texts that reports are built from hold no separator, as what the parser gives, and every
order is of a positive quantity. -/
structure PlainRun (compId : Bytes) (labels : List ExchangeLabel) : Prop where
  server : Plain compId
  received : ∀ pair ∈ receivedBy labels, pair.2.IsPlain
  positive : ∀ pair ∈ receivedBy labels, pair.2.messageType = .newOrder → PositiveQuantity pair.2
  times : ∀ currentUTCDateTime, .send currentUTCDateTime ∈ labels → Plain currentUTCDateTime

theorem PlainRun.front {compId : Bytes} {labels : List ExchangeLabel} {label : ExchangeLabel}
    (h : PlainRun compId (labels ++ [label])) : PlainRun compId labels := by
  have hfront : ∀ pair ∈ receivedBy labels, pair ∈ receivedBy (labels ++ [label]) := by
    intro pair hmem
    rw [receivedBy_snoc]
    exact List.mem_append_left _ hmem
  exact
    { server := h.server
      received := fun pair hmem => h.received pair (hfront pair hmem)
      positive := fun pair hmem => h.positive pair (hfront pair hmem)
      times := fun currentUTCDateTime hmem =>
        h.times currentUTCDateTime (List.mem_append_left _ hmem) }

/-- The comp ids of the sessions come from the messages that log them on. -/
theorem plain_rule : FixServerReactor.SessionRule
    (fun _ label => ∀ slot message currentUTCDateTime,
      label = .handle slot message currentUTCDateTime → message.IsPlain)
    (fun _ session => Plain session.targetCompId) where
  fresh := fun _ _ => plain_nil
  settings := fun _ _ _ _ _ htarget => htarget
  send := fun _ _ _ _ _ _ _ htarget => htarget
  handle := by
    intro reactor slot session message currentUTCDateTime steps verdict _ hok hsteps htarget
    rcases (FixSession.steps_frame hsteps).2 with hsame | ⟨-, hsender⟩
    · rw [hsame]
      exact htarget
    · rw [hsender]
      exact (hok slot message currentUTCDateTime rfl).senderCompId

/-- The report has the values of its message, and what is sent is the execution report of its
order. -/
structure Faithful (compId : Bytes) (symbols : List Bytes) (arrived : List (Nat × FixMessage))
    (delivery : Delivery) : Prop where
  report : EchoReport symbols arrived delivery.message
  sent : ∀ session sent, delivery.sent = some (session, sent) → Plain session.targetCompId ∧
    ∃ currentUTCDateTime, Plain currentUTCDateTime ∧
      sent = session.stamped (executionReport compId session delivery.message.order
        delivery.execID (delivery.message.order.origin.message.getTagValue fixTagSymbol))
        currentUTCDateTime

theorem Faithful.mono {compId : Bytes} {symbols : List Bytes}
    {arrived later : List (Nat × FixMessage)} {delivery : Delivery}
    (h : Faithful compId symbols arrived delivery) (hlater : ∀ pair ∈ arrived, pair ∈ later) :
    Faithful compId symbols later delivery :=
  ⟨⟨h.report.echoes.mono hlater, h.report.sum, h.report.fill⟩, h.sent⟩

section Sent

variable {compId : Bytes} {sequenceNumberValidation : Bool} {store : FixSequenceStore}
  {symbols : List Bytes} {multithreaded : Bool} {labels : List ExchangeLabel}
  {exchange next : Exchange}

/-- The report in hand has the values of a message that has arrived. -/
theorem inHand_echoes
    (hrun : run step (configured compId sequenceNumberValidation store symbols multithreaded)
      labels = some exchange) (plain : PlainRun compId labels)
    {message : OutgoingMessage Submission} (hhand : exchange.inHand.report = some message) :
    EchoReport symbols (receivedBy labels) message := by
  obtain ⟨queueIndex, index, hring⟩ := run_inHand hrun hhand
  exact (run_echoing plain.positive hrun fun _ hmem => hmem).rings queueIndex index message hring

theorem dropped_faithful
    (hrun : run step (configured compId sequenceNumberValidation store symbols multithreaded)
      labels = some exchange) (plain : PlainRun compId labels) {delivery : Delivery}
    (hdelivery : exchange.dropped = some delivery) :
    Faithful compId symbols (receivedBy labels) delivery := by
  unfold dropped at hdelivery
  split at hdelivery
  · rename_i queueIndex message hhand
    simp only [Option.ite_none_left_eq_some] at hdelivery
    cases hdelivery.2
    exact ⟨inHand_echoes hrun plain (by rw [hhand]; rfl), fun _ _ hnone => by cases hnone⟩
  · cases hdelivery

theorem sent_faithful
    (hrun : run step (configured compId sequenceNumberValidation store symbols multithreaded)
      labels = some exchange) (plain : PlainRun compId labels) {currentUTCDateTime : Bytes}
    (time : Plain currentUTCDateTime) {delivery : Delivery}
    (hdelivery : exchange.sent currentUTCDateTime = some delivery) :
    Faithful compId symbols (receivedBy labels) delivery := by
  unfold Exchange.sent at hdelivery
  split at hdelivery
  · rename_i queueIndex message connection hhand
    obtain ⟨receiver, hpointed, hnamed⟩ := Option.bind_eq_some_iff.mp hdelivery
    obtain ⟨securityName, hname, rfl⟩ := Option.map_eq_some_iff.mp hnamed
    have hreport := inHand_echoes hrun plain (by rw [hhand]; rfl)
    obtain ⟨hcompId, hsessions⟩ := run_sessions plain_rule hrun plain.received
    refine ⟨hreport, fun session sent hsent => ?_⟩
    cases hsent
    have hsymbol : securityName = message.order.origin.message.getTagValue fixTagSymbol := by
      have hregistered := CentralOrderBook.registered_configured (γ := Submission) symbols
        multithreaded
      rw [run_manager hrun, SecurityManager.getSecurityName, hregistered.byId] at hname
      exact Option.some.inj (hname.symm.trans hreport.echoes.symbol)
    refine ⟨hsessions receiver (List.mem_of_getElem? (pointed_some hpointed).1),
      currentUTCDateTime, time, ?_⟩
    rw [hsymbol, hcompId]
  · cases hdelivery

theorem run_faithful
    (hrun : run step (configured compId sequenceNumberValidation store symbols multithreaded)
      labels = some exchange) (plain : PlainRun compId labels) :
    ∀ taken ∈ shown step delivery
        (configured compId sequenceNumberValidation store symbols multithreaded) labels,
      Faithful compId symbols (receivedBy labels) taken := by
  revert plain
  refine run_induction (fun labels _ => PlainRun compId labels →
    ∀ taken ∈ shown step delivery
        (configured compId sequenceNumberValidation store symbols multithreaded) labels,
      Faithful compId symbols (receivedBy labels) taken) ?_ ?_ hrun
  · exact fun _ taken hmem => by cases hmem
  · intro labels before label after hbefore ih hstep plain taken hmem
    have hlater : ∀ pair ∈ receivedBy labels, pair ∈ receivedBy (labels ++ [label]) := by
      intro pair hpair
      rw [receivedBy_snoc]
      exact List.mem_append_left _ hpair
    rw [shown_snoc delivery hbefore hstep] at hmem
    rcases List.mem_append.mp hmem with hold | hnew
    · exact (ih plain.front taken hold).mono hlater
    · have hdelivery := Option.mem_toList.mp hnew
      cases label with
      | look => exact (dropped_faithful hbefore plain.front hdelivery).mono hlater
      | send currentUTCDateTime =>
        have htime := plain.times currentUTCDateTime (by simp)
        exact (sent_faithful hbefore plain.front htime hdelivery).mono hlater
      | pop queueIndex => cases hdelivery
      | accept => cases hdelivery
      | disconnect peerIndex => cases hdelivery
      | receive peerIndex messages => cases hdelivery
      | process time memory => cases hdelivery
      | submit => cases hdelivery
      | work queueIndex => cases hdelivery

end Sent

end Exchange

/-! ## What the clients read -/

/-- The report repeats what the message says. -/
structure ClientReport.Answers (report : ClientReport) (incoming : FixMessage) : Prop where
  clientOrderID : report.clientOrderID = incoming.getTagValue fixTagClientOrderId
  symbol : report.symbol = incoming.getTagValue fixTagSymbol
  quantity : incoming.messageType = .newOrder → ∃ quantity leaves cumulative,
    incoming.getTagValueAsLong fixTagOrderQuantity = .ok quantity ∧
      report.orderQuantity = intText quantity ∧ report.leavesQuantity = intText leaves ∧
      report.cumulativeQuantity = intText cumulative ∧ leaves + cumulative = quantity
  side : incoming.messageType = .newOrder → ∀ side,
    incoming.getTagValueAsInt fixTagOrderSide = .ok side →
      side = fixOrderSideBuy ∨ side = fixOrderSideSell → report.orderSide = intText side

theorem EchoReport.answers {symbols : List Bytes} {arrived : List (Nat × FixMessage)}
    {message : OutgoingMessage Submission} (h : EchoReport symbols arrived message)
    (execID : Nat) :
    (clientReport message.order execID
      (message.order.origin.message.getTagValue fixTagSymbol)).Answers
        message.order.origin.message where
  clientOrderID := h.echoes.clientOrderID
  symbol := rfl
  quantity := fun hnew =>
    ⟨message.order.quantity, message.order.openQuantity, message.order.executedQuantity,
      h.echoes.quantity hnew, rfl, rfl, rfl, h.sum⟩
  side := by
    intro hnew side hside hsupported
    obtain ⟨read, hread, hbuy, hsell⟩ := h.echoes.side hnew
    cases hside.symm.trans hread
    rcases hsupported with hsupported | hsupported
    · rw [clientReport, hbuy hsupported, if_pos rfl, hsupported]
    · rw [clientReport, hsell hsupported, hsupported]
      rfl

namespace Delivery

/-- The message that the order of the report comes from. -/
def incoming (taken : Delivery) : FixMessage := taken.message.order.origin.message

/-- What the client should read. -/
def report (taken : Delivery) : ClientReport :=
  clientReport taken.message.order taken.execID (taken.incoming.getTagValue fixTagSymbol)

end Delivery

namespace Exchange

/-- What the processor delivers in a run. -/
def deliveries (start : Exchange) (labels : List ExchangeLabel) : List Delivery :=
  shown step delivery start labels

section Clients

variable {compId : Bytes} {sequenceNumberValidation : Bool} {store : FixSequenceStore}
  {symbols : List Bytes} {labels : List ExchangeLabel} {exchange : Exchange}

/-- In every run in single-threaded mode the reports are taken from the front of their rings,
those that are sent are numbered one after the other, a fill is of a positive quantity, and each
report repeats the message that its order comes from and is read so by its client, as long as the
number of the message is an `int`. -/
theorem clients_read_reports
    (hrun : run step (configured compId sequenceNumberValidation store symbols false) labels =
      some exchange) (plain : PlainRun compId labels) (counted : exchange.execID < 2 ^ 31) :
    (∀ queueIndex, ((deliveries
        (configured compId sequenceNumberValidation store symbols false) labels).filter
          fun taken => taken.queueIndex == queueIndex).map Delivery.message ++
            exchange.inHand.fromRing queueIndex =
        (exchange.system.central.outgoingMessages queueIndex).take
          (exchange.popped queueIndex)) ∧
    ((deliveries
        (configured compId sequenceNumberValidation store symbols false) labels).filter
          fun taken => taken.sent.isSome).map Delivery.execID = List.range' 1 exchange.execID ∧
    ∀ taken ∈ deliveries
        (configured compId sequenceNumberValidation store symbols false) labels,
      (taken.message.order.sessionId, taken.incoming) ∈ receivedBy labels ∧
      taken.message.PositiveFill ∧ taken.report.Answers taken.incoming ∧
      ∀ session sent, taken.sent = some (session, sent) →
        stoi taken.report.execID = .ok taken.execID ∧
        ∀ tags, sent.Enumerates tags →
          (ClientReads (sent.toString tags) compId session taken.report ↔
            toSize session.outgoingSequenceNumber < 2 ^ 31) := by
  have htaken := run_taken hrun
  refine ⟨htaken.rings, htaken.execIDs, fun taken hmem => ?_⟩
  have hfaithful := run_faithful hrun plain taken hmem
  have hechoes := hfaithful.report.echoes
  have harrived := plain.received _ hechoes.arrived
  refine ⟨hechoes.arrived, hfaithful.report.fill, hfaithful.report.answers taken.execID,
    fun session sent hsent => ⟨?_, ?_⟩⟩
  · have hexecID : taken.execID ∈ List.range' 1 exchange.execID := by
      rw [← htaken.execIDs]
      refine List.mem_map_of_mem (List.mem_filter.mpr ⟨hmem, ?_⟩)
      rw [hsent]
      rfl
    have hsmall : taken.execID < 2 ^ 31 := by
      have hbounds := List.mem_range'_1.mp hexecID
      omega
    rw [Delivery.report, clientReport, stoi_natText, if_pos hsmall]
  · intro tags enumerates
    obtain ⟨hclient, time, htime, rfl⟩ := hfaithful.sent session sent hsent
    refine executionReport_read_iff plain.server hclient ?_ (harrived.body _) htime enumerates
    rw [hechoes.clientOrderID]
    exact harrived.body _

end Clients

theorem clientMessage_plain (messageType : MessageType) (sequenceNumber : Nat)
    {tags : List (Int × Bytes)} (plain : ∀ pair ∈ tags, Plain pair.2) :
    (clientMessage messageType sequenceNumber tags).IsPlain := by
  have hconstructed : (construct messageType).IsPlain :=
    ⟨plain_nil, plain_nil, plain_nil, fun _ => plain_nil⟩
  have htags := @plain_setTags (construct messageType)
    ([(fixTagBodyLength, ascii "100"), (fixTagBodyChecksum, ascii "000")] ++ tags) hconstructed (by
      simp only [List.cons_append, List.nil_append, List.forall_mem_cons]
      exact ⟨by decide, by decide, plain⟩)
  have hclient : Plain (ascii "CLIENT") := by decide
  have htime : Plain (ascii "T") := by decide
  have hserver : Plain (ascii "SERVER") := by decide
  exact ⟨hclient, htime, hserver, htags.body⟩

/-- CLIENT logs on, submits an order and gets its report. -/
def clientGetsReport : List ExchangeLabel := clientOrders ++ reportDelivered

theorem clientGetsReport_plain : PlainRun (ascii "SERVER") clientGetsReport where
  server := by decide
  received := by
    have hlogon : (clientLogon 1).IsPlain := clientMessage_plain _ _ (by decide)
    have horder : (clientOrder 2).IsPlain := clientMessage_plain _ _ (by decide)
    intro pair hmem
    rcases List.mem_cons.mp hmem with rfl | hmem
    · exact hlogon
    · rw [List.mem_singleton.mp hmem]
      exact horder
  positive := by
    have hfive : (clientOrder 2).getTagValueAsLong fixTagOrderQuantity = .ok 5 := by
      decide +kernel
    intro pair hmem hnew quantity hquantity
    rcases List.mem_cons.mp hmem with rfl | hmem
    · cases hnew
    · rw [List.mem_singleton.mp hmem, hfive] at hquantity
      cases hquantity
      decide
  times := by
    intro currentUTCDateTime hmem
    simp only [clientGetsReport, clientOrders, reportDelivered, List.cons_append, List.nil_append,
      List.mem_cons, reduceCtorEq, false_or, ExchangeLabel.send.injEq, List.not_mem_nil, or_false]
      at hmem
    rw [hmem]
    decide

theorem clients_read_reports_order :
    ∃ exchange, run step started clientGetsReport = some exchange ∧
      (deliveries started clientGetsReport).map (fun taken =>
        (taken.queueIndex, taken.execID, taken.report.orderQuantity)) = [(0, 1, ascii "5")] ∧
      ∀ taken ∈ deliveries started clientGetsReport, taken.report.Answers taken.incoming := by
  have hsome : (run step started clientGetsReport).map (fun exchange => exchange.execID) =
      some 1 := by
    decide +kernel
  obtain ⟨exchange, hrun, hexecID⟩ := Option.map_eq_some_iff.mp hsome
  have hread := clients_read_reports hrun clientGetsReport_plain (by rw [hexecID]; decide)
  refine ⟨exchange, hrun, by decide +kernel, fun taken hmem => ?_⟩
  exact (hread.2.2 taken hmem).2.2.1

end Exchange

/-! ## When all is delivered -/

/-- Every report in a ring is of a security that belongs to the ring. -/
theorem ring_placed {γ : Type} (symbols : List Bytes) (multithreaded : Bool)
    {labels : List (Label γ)} {system : System γ}
    (h : run System.step (System.configured symbols multithreaded) labels = some system) :
    ∀ queueID, ∀ message ∈ system.central.outgoingMessages queueID,
      system.central.queueID message.order.securityId = queueID := by
  refine run_induction (fun _ (system : System γ) => ∀ queueID,
    ∀ message ∈ system.central.outgoingMessages queueID,
      system.central.queueID message.order.securityId = queueID) ?_ ?_ h
  · intro queueID message hmem
    rw [(System.configured_start symbols multithreaded).1] at hmem
    cases hmem
  · intro labels before label after hbefore ih hstep queueID message hmem
    obtain ⟨hqueues, hrings⟩ :=
      System.step_pushes (System.run_simulates symbols multithreaded hbefore).1 hstep
    obtain ⟨later, hlater, hring⟩ := hrings queueID
    rw [hring, List.mem_append, List.mem_append] at hmem
    rw [hqueues]
    rcases hmem with hold | haccepted | hnew
    · exact ih queueID message hold
    · cases label with
      | addOrder order =>
        simp only [System.acceptedBy] at haccepted
        split at haccepted
        · rename_i hqueue
          rw [List.mem_singleton.mp haccepted]
          exact hqueue.symm
        · cases haccepted
      | cancelOrder order origClientOrderID => cases haccepted
      | submit => cases haccepted
      | work queueIndex => cases haccepted
    · exact (hlater message hnew).2

/-- The ACCEPTED report of a new order. -/
def acceptedReport {γ : Type} : OrderMatcher.Task γ → List (OutgoingMessage γ)
  | .newOrder order => [.new order .accepted]
  | .cancelOrder _ _ => []

theorem acceptedOf_security {γ : Type} (central : CentralOrderBook γ) (securityId : Nat)
    (requests : List (OrderMatcher.Task γ)) :
    (requests.flatMap (central.acceptedOf (central.queueID securityId))).filter
        (fun message => message.order.securityId == securityId) =
      (requests.filter fun task => task.securityId == securityId).flatMap acceptedReport := by
  induction requests with
  | nil => rfl
  | cons request requests ih =>
    rw [List.flatMap_cons, List.filter_append, ih, List.filter_cons]
    cases request with
    | cancelOrder order origClientOrderID =>
      split
      · rfl
      · rfl
    | newOrder order =>
      have hsecurity : (OrderMatcher.Task.newOrder order).securityId = order.securityId := rfl
      rw [hsecurity]
      by_cases hsame : order.securityId = securityId
      · subst hsame
        simp [CentralOrderBook.acceptedOf, acceptedReport, OutgoingMessage.new]
      · have hother : (order.securityId == securityId) = false := beq_eq_false_iff_ne.mpr hsame
        rw [hother, CentralOrderBook.acceptedOf]
        split
        · simp [OutgoingMessage.new, hother]
        · rfl

namespace Exchange

section Drained

variable {compId : Bytes} {sequenceNumberValidation : Bool} {store : FixSequenceStore}
  {symbols : List Bytes} {multithreaded : Bool} {labels : List ExchangeLabel}
  {exchange : Exchange}

/-- The processor has taken all reports, and is done with them. -/
structure Emptied (exchange : Exchange) : Prop where
  popped : ∀ queueIndex, exchange.popped queueIndex =
    (exchange.system.central.outgoingMessages queueIndex).length
  inHand : exchange.inHand = .nothing

/-- With all rings emptied, what was delivered of a security is what its ring holds of it. -/
theorem emptied_deliveries
    (hrun : run step (configured compId sequenceNumberValidation store symbols multithreaded)
      labels = some exchange) (emptied : exchange.Emptied) {securityId : Nat}
    {kind : OutgoingMessage Submission → Bool}
    (security : ∀ message, kind message = true → message.order.securityId = securityId) :
    ((deliveries (configured compId sequenceNumberValidation store symbols multithreaded)
        labels).map Delivery.message).filter kind =
      (exchange.system.central.outgoingMessages
        (exchange.system.central.queueID securityId)).filter kind := by
  have hplaced := ring_placed symbols multithreaded (run_system hrun)
  have hring : ∀ queueIndex, ((deliveries
      (configured compId sequenceNumberValidation store symbols multithreaded) labels).filter
        fun taken => taken.queueIndex == queueIndex).map Delivery.message =
      exchange.system.central.outgoingMessages queueIndex := by
    intro queueIndex
    have htaken := (run_taken hrun).rings queueIndex
    rwa [emptied.inHand, InHand.fromRing, List.append_nil, emptied.popped, List.take_length]
      at htaken
  have hqueue : ∀ taken ∈ deliveries
      (configured compId sequenceNumberValidation store symbols multithreaded) labels,
      kind taken.message = true →
        taken.queueIndex = exchange.system.central.queueID securityId := by
    intro taken hmem hkind
    have hpushed : taken.message ∈
        exchange.system.central.outgoingMessages taken.queueIndex := by
      rw [← hring taken.queueIndex]
      exact List.mem_map_of_mem (List.mem_filter.mpr ⟨hmem, beq_self_eq_true _⟩)
    rw [← security taken.message hkind]
    exact (hplaced taken.queueIndex taken.message hpushed).symm
  rw [← hring, List.filter_map, List.filter_map, List.filter_filter]
  refine congrArg (List.map Delivery.message) (List.filter_congr fun taken hmem => ?_)
  cases hkind : kind taken.message with
  | false => simp [hkind]
  | true => simp [hkind, hqueue taken hmem hkind]

/-- In single-threaded mode, once the rings are empty, the clients have got for each security what
its orders and cancels report when they are executed one after the other, and ACCEPTED for each of
its orders. -/
theorem drained_deliveries
    (hrun : run step (configured compId sequenceNumberValidation store symbols false) labels =
      some exchange) (emptied : exchange.Emptied) (securityId : Nat) :
    ∃ log, run BookLog.runTask {} ((requestsOf (shown step issued
        (configured compId sequenceNumberValidation store symbols false) labels)).filter
          fun task => task.securityId == securityId) = some log ∧
      ((deliveries (configured compId sequenceNumberValidation store symbols false)
        labels).map Delivery.message).filter (OutgoingMessage.isTaskReport securityId) =
          log.reports ∧
      ((deliveries (configured compId sequenceNumberValidation store symbols false)
        labels).map Delivery.message).filter (fun message =>
          message.order.securityId == securityId && message.status == .accepted) =
        ((requestsOf (shown step issued
          (configured compId sequenceNumberValidation store symbols false) labels)).filter
            fun task => task.securityId == securityId).flatMap acceptedReport := by
  have hquiescent : exchange.system.Quiescent :=
    (run_simulates hrun).placed.synchronous (System.run_mode symbols (run_system hrun))
  obtain ⟨log, hlog, -, hreports⟩ := (run_simulates hrun).drained hquiescent securityId
  obtain ⟨hqueues, haccepted⟩ := System.run_accepted symbols false (run_system hrun)
  refine ⟨log, hlog, ?_, ?_⟩
  · rw [emptied_deliveries hrun emptied fun message hkind => ?_]
    · exact hreports
    · simp only [OutgoingMessage.isTaskReport, Bool.and_eq_true, beq_iff_eq] at hkind
      exact hkind.1
  · rw [emptied_deliveries hrun emptied fun message hkind => ?_]
    · have hring := haccepted (exchange.system.central.queueID securityId)
      rw [← acceptedOf_security (System.configured symbols false).central, ← hqueues,
        ← hring, CentralOrderBook.acceptedReports, List.filter_filter]
    · simp only [Bool.and_eq_true, beq_iff_eq] at hkind
      exact hkind.1

/-- With one symbol there is one ring in use. -/
theorem one_ring {symbol : Bytes}
    (hrun : run step (configured compId sequenceNumberValidation store [symbol] multithreaded)
      labels = some exchange) {queueIndex : Nat} (other : queueIndex ≠ 0) :
    exchange.system.central.outgoingMessages queueIndex = [] := by
  have hqueue : ∀ securityId, exchange.system.central.queueID securityId = 0 := by
    intro securityId
    have hregistered := CentralOrderBook.registered_configured (γ := Submission) [symbol]
      multithreaded
    have hconfigured : (System.configured (γ := Submission) [symbol] multithreaded).central =
        (CentralOrderBook.configured [symbol] multithreaded).1 := rfl
    rw [(System.run_accepted [symbol] multithreaded (run_system hrun)).1, hconfigured,
      CentralOrderBook.queueID, hregistered.queues]
    split
    · rename_i hlt
      simpa using hlt
    · rfl
  refine List.eq_nil_iff_forall_not_mem.mpr fun message hmem => other ?_
  rw [← ring_placed [symbol] multithreaded (run_system hrun) queueIndex message hmem, hqueue]

end Drained

/-- The report of the one order is all there is to deliver. -/
theorem drained_deliveries_order :
    ∃ exchange, run step started clientGetsReport = some exchange ∧
      ∃ log, run BookLog.runTask {} ((requestsOf
          (shown step issued started clientGetsReport)).filter
            fun task => task.securityId == 0) = some log ∧
        ((deliveries started clientGetsReport).map Delivery.message).filter
          (OutgoingMessage.isTaskReport 0) = log.reports := by
  have hsome : (run step started clientGetsReport).map (fun exchange =>
      (exchange.popped 0, (exchange.system.central.outgoingMessages 0).length,
        exchange.inHand.report.isNone)) = some (1, 1, true) := by
    decide +kernel
  obtain ⟨exchange, hrun, hcounts⟩ := Option.map_eq_some_iff.mp hsome
  simp only [Prod.mk.injEq] at hcounts
  obtain ⟨hpopped, hlength, hhand⟩ := hcounts
  have hemptied : exchange.Emptied := by
    refine ⟨fun queueIndex => ?_, ?_⟩
    · by_cases hzero : queueIndex = 0
      · rw [hzero, hpopped, hlength]
      · have hbound := (run_taken hrun).popped queueIndex
        rw [one_ring hrun hzero] at hbound ⊢
        exact Nat.le_zero.mp hbound
    · cases hinHand : exchange.inHand with
      | nothing => rfl
      | popped queueIndex message =>
        rw [hinHand] at hhand
        cases hhand
      | found queueIndex message connection =>
        rw [hinHand] at hhand
        cases hhand
  obtain ⟨log, hlog, hreports, -⟩ := drained_deliveries hrun hemptied 0
  exact ⟨exchange, hrun, log, hlog, hreports⟩

end Exchange

end LiteExchange.Server
