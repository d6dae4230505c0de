import LiteExchange.OrderMatcher.Draining
import LiteExchange.Server.ExchangeRuns
import LiteExchange.Server.Quantities

/-!
# Orders repeat their messages

What is in the order matcher, in the books, the queues and the rings, comes from messages that
have arrived. Nothing that the workers do changes the values that an order has from its message.
Where every tag 38 that arrives is positive, the quantities of the reports add up as integers
and no average is divided by zero.
-/

namespace LiteExchange.Server

open Foundation.Ascii Foundation.Runs OrderMatcher
open LiteExchange.Fix LiteExchange.Fix.FixConstants

/-- The order has the values of its message, which arrived on its slot. -/
structure Echoes (symbols : List Bytes) (arrived : List (Nat × FixMessage))
    (order : Order Submission) : Prop where
  arrived : (order.sessionId, order.origin.message) ∈ arrived
  clientOrderID : order.clientOrderID = order.origin.message.getTagValue fixTagClientOrderId
  symbol : symbols[order.securityId]? = some (order.origin.message.getTagValue fixTagSymbol)
  quantity : order.origin.message.messageType = .newOrder →
    order.origin.message.getTagValueAsLong fixTagOrderQuantity = .ok order.quantity
  side : order.origin.message.messageType = .newOrder → ∃ side,
    order.origin.message.getTagValueAsInt fixTagOrderSide = .ok side ∧
      (side = fixOrderSideBuy → order.side = .buy) ∧ (side = fixOrderSideSell → order.side = .sell)

/-- A report of such an order, with quantities that add up and a fill of a positive one. -/
structure EchoReport (symbols : List Bytes) (arrived : List (Nat × FixMessage))
    (message : OutgoingMessage Submission) : Prop where
  echoes : Echoes symbols arrived message.order
  sum : message.order.openQuantity + message.order.executedQuantity = message.order.quantity
  fill : message.PositiveFill

/-- What a handler gives to the order matcher: an order of a positive quantity, or a request. -/
structure EchoTask (symbols : List Bytes) (arrived : List (Nat × FixMessage))
    (task : OrderMatcher.Task Submission) : Prop where
  echoes : Echoes symbols arrived task.order
  fresh : task.order.Fresh
  positive : ∀ order, task = .newOrder order → 0 < order.quantity

section Echoes

variable {symbols : List Bytes} {arrived : List (Nat × FixMessage)} {order : Order Submission}

theorem Echoes.execute (h : Echoes symbols arrived order) (price : ℚ) (quantity : Int) :
    Echoes symbols arrived (order.execute price quantity) :=
  ⟨h.arrived, h.clientOrderID, h.symbol, h.quantity, h.side⟩

theorem Echoes.mono (h : Echoes symbols arrived order) {later : List (Nat × FixMessage)}
    (hlater : ∀ pair ∈ arrived, pair ∈ later) : Echoes symbols later order :=
  ⟨hlater _ h.arrived, h.clientOrderID, h.symbol, h.quantity, h.side⟩

theorem Echoes.cancel (h : Echoes symbols arrived order) : Echoes symbols arrived order.cancel :=
  ⟨h.arrived, h.clientOrderID, h.symbol, h.quantity, h.side⟩

theorem Echoes.setOrderId (h : Echoes symbols arrived order) (id : Nat) :
    Echoes symbols arrived (order.setOrderId id) :=
  ⟨h.arrived, h.clientOrderID, h.symbol, h.quantity, h.side⟩

theorem Echoes.report (h : Echoes symbols arrived order) (status : OrderStatus) :
    Echoes symbols arrived (OutgoingMessage.new order status).order :=
  ⟨h.arrived, h.clientOrderID, h.symbol, h.quantity, h.side⟩

/-- The report of an order whose quantities add up, other than a fill. -/
theorem Echoes.unfilledReport (h : Echoes symbols arrived order)
    (sum : order.openQuantity + order.executedQuantity = order.quantity) {status : OrderStatus}
    (unfilled : (OutgoingMessage.new order status).isFill = false) :
    EchoReport symbols arrived (OutgoingMessage.new order status) where
  echoes := h.report status
  sum := sum
  fill := by
    intro hfill
    rw [unfilled] at hfill
    cases hfill

/-- A resting order: it has the values of its message and something of it is open. -/
def EchoResting (symbols : List Bytes) (arrived : List (Nat × FixMessage))
    (order : Order Submission) : Prop :=
  Echoes symbols arrived order ∧ order.InProgress

/-- Trades and the cancel flag keep the values, and a trade is of a positive quantity. -/
theorem echoes_rule (symbols : List Bytes) (arrived : List (Nat × FixMessage)) :
    SystemRule (EchoResting symbols arrived) (EchoResting symbols arrived)
      (Echoes symbols arrived) (EchoReport symbols arrived)
      fun _ _ message => EchoReport symbols arrived message where
  books :=
    { closed :=
        { trade := fun bid ask hbid hask hcross => by
            have hpositive := progress_rule.closed.trade bid ask hbid.2 hask.2 hcross
            have hexact :=
              counted_rule.closed.trade bid ask hbid.2.counted hask.2.counted hcross
            exact ⟨⟨(hbid.1.execute _ _).report _, hexact.1.sum, hpositive.1⟩,
              (hask.1.execute _ _).report _, hexact.2.sum, hpositive.2⟩
          tradedBid := fun bid ask hbid hask hcross hunfilled => ⟨hbid.1.execute _ _,
            progress_rule.closed.tradedBid bid ask hbid.2 hask.2 hcross hunfilled⟩
          tradedAsk := fun bid ask hbid hask hcross hunfilled => ⟨hask.1.execute _ _,
            progress_rule.closed.tradedAsk bid ask hbid.2 hask.2 hcross hunfilled⟩
          canceledBid := fun bid hbid =>
            ⟨hbid.1.cancel, progress_rule.closed.canceledBid bid hbid.2⟩
          canceledAsk := fun ask hask =>
            ⟨hask.1.cancel, progress_rule.closed.canceledAsk ask hask.2⟩ }
      canceledBid := fun _ hbid => hbid.1.cancel.unfilledReport hbid.2.counted.sum rfl
      canceledAsk := fun _ hask => hask.1.cancel.unfilledReport hask.2.counted.sum rfl }
  erased := fun _ horder => (horder.elim And.left And.left).cancel
  pushed := fun _ _ _ hreport => hreport

/-- All orders and reports in the order matcher have the values of their messages. -/
def Echoing (symbols : List Bytes) (arrived : List (Nat × FixMessage))
    (system : System Submission) : Prop :=
  system.Carries (EchoResting symbols arrived) (EchoResting symbols arrived)
    (Echoes symbols arrived) (EchoReport symbols arrived)
    fun _ _ message => EchoReport symbols arrived message

theorem Echoing.step {system next : System Submission} {label : Label Submission}
    (h : Echoing symbols arrived system)
    (hcall : ∀ task, label.call = some task → EchoTask symbols arrived task)
    (hstep : system.step label = some next) : Echoing symbols arrived next := by
  refine System.step_carries (echoes_rule symbols arrived) h ?_ ?_ hstep
  · cases label with
    | addOrder order =>
      intro orderID
      have htask := hcall (.newOrder order) rfl
      have hresting : EchoResting symbols arrived (order.setOrderId orderID) :=
        ⟨htask.echoes.setOrderId orderID,
          (htask.fresh.setOrderId orderID).inProgress (htask.positive order rfl)⟩
      exact ⟨fun _ => hresting, fun _ => hresting⟩
    | cancelOrder order origClientOrderID =>
      have htask := hcall (.cancelOrder order origClientOrderID) rfl
      exact htask.echoes.unfilledReport htask.fresh.sum rfl
    | submit => trivial
    | work queueIndex => trivial
  · rintro order rfl queueID index
    have htask := hcall (.newOrder order) rfl
    exact (htask.echoes.setOrderId _).unfilledReport (htask.fresh.setOrderId _).sum rfl

end Echoes

/-! ## What the handlers submit -/

/-- A symbol that has an id is the name of that id. -/
theorem getSecurityName_of_id {symbols : List Bytes} {multithreaded : Bool} {symbol : Bytes}
    {securityId : Nat}
    (h : (CentralOrderBook.configured (γ := Submission) symbols multithreaded).2.getSecurityId
      symbol = some securityId) : symbols[securityId]? = some symbol := by
  have hregistered : CentralOrderBook.Registered symbols
      (CentralOrderBook.configured (γ := Submission) symbols multithreaded) :=
    CentralOrderBook.registered_configured symbols multithreaded
  rw [SecurityManager.getSecurityId, hregistered.bySymbol] at h
  obtain ⟨hmem, hid⟩ := Option.ite_none_right_eq_some.mp h
  cases hid
  have hlt := List.idxOf_lt_length_of_mem hmem
  rw [List.getElem?_eq_getElem hlt, List.getElem_idxOf]

theorem onFixMessage_echoes {symbols : List Bytes} {multithreaded : Bool} {message : FixMessage}
    {sessionId : Nat} {memory : Indeterminate Submission} {task : OrderMatcher.Task Submission}
    {arrived : List (Nat × FixMessage)} (origin : memory.origin.message = message)
    (hmem : (sessionId, message) ∈ arrived)
    (positive : message.messageType = .newOrder → PositiveQuantity message)
    (h : onFixMessage (CentralOrderBook.configured (γ := Submission) symbols multithreaded).2
      message sessionId memory = .ok (.call task)) : EchoTask symbols arrived task := by
  subst origin
  unfold onFixMessage at h
  split at h
  · rename_i htype
    rcases onNewOrder_cases h with ⟨text, hrejected⟩ |
      ⟨securityId, side, quantity, price, hsecurity, -, hside, hquantity, -, hcall⟩
    · cases hrejected
    · cases hcall
      refine ⟨⟨hmem, rfl, getSecurityName_of_id hsecurity, fun _ => hquantity,
        fun _ => ⟨side, hside, ?_, ?_⟩⟩, submitted_fresh hquantity .., ?_⟩
      · rintro rfl
        rfl
      · rintro rfl
        rfl
      · rintro order horder
        cases horder
        exact positive htype quantity hquantity
  · rename_i htype
    obtain ⟨securityId, hsecurity, hcall⟩ := onCancelOrder_cases h
    cases hcall
    refine ⟨⟨hmem, rfl, getSecurityName_of_id hsecurity, fun hnew => ?_, fun hnew => ?_⟩,
      ⟨rfl, rfl, isLong_zero⟩, fun order horder => (by cases horder)⟩
    · cases htype.symm.trans hnew
    · cases htype.symm.trans hnew
  · cases h

/-- The call of a message is the one of its handler. -/
theorem call_of_handled {reactor : FixServerReactor} {manager : SecurityManager}
    {message : FixMessage} {session : FixSession} {peerIndex : Nat} {currentUTCDateTime : Bytes}
    {memory : Indeterminate Submission} {handled : Handled Submission}
    {task : OrderMatcher.Task Submission}
    (h : processMessage reactor manager message session peerIndex currentUTCDateTime memory =
      .ok handled) (hcall : handled.call = some task) :
    onFixMessage manager message peerIndex memory = .ok (.call task) := by
  unfold processMessage at h
  split at h
  · split at h
    · split at h
      · cases h
        cases hcall
      · rename_i hmessage
        cases h
        cases hcall
        exact hmessage
      · cases h
    · cases h
      cases hcall
  · cases h

namespace Exchange

/-- What a label calls for has the values of the next message of the batch. -/
theorem issued_echoes {exchange : Exchange} {label : ExchangeLabel}
    {systemLabel : Label Submission} {symbols : List Bytes} {multithreaded : Bool}
    {arrived : List (Nat × FixMessage)}
    (manager : exchange.manager =
      (CentralOrderBook.configured (γ := Submission) symbols multithreaded).2)
    (messages : ∀ message ∈ exchange.messages, (exchange.peerIndex, message) ∈ arrived)
    (positive : ∀ pair ∈ arrived, pair.2.messageType = .newOrder → PositiveQuantity pair.2)
    (hissued : exchange.issued label = some systemLabel) :
    ∀ task, systemLabel.call = some task → EchoTask symbols arrived task := by
  intro task hcall
  cases label with
  | process currentUTCDateTime memory =>
    obtain ⟨made, hmade, rfl⟩ := Option.map_eq_some_iff.mp hissued
    rw [OrderMatcher.Task.label_call] at hcall
    cases hcall
    obtain ⟨handled, hhandled, hhandledCall⟩ := Option.bind_eq_some_iff.mp hmade
    unfold Exchange.handled at hhandled
    split at hhandled
    · rename_i message rest session hmessages hsession
      have hmessage := call_of_handled (FixServerReactor.toOption_eq_some.mp hhandled) hhandledCall
      rw [manager] at hmessage
      have hmem : message ∈ exchange.messages := by
        rw [hmessages]
        exact List.mem_cons_self
      exact @onFixMessage_echoes symbols multithreaded message exchange.peerIndex
        (withOrigin memory ⟨message, exchange.loggedOnAs exchange.peerIndex⟩) task arrived rfl
        (messages message hmem) (positive _ (messages message hmem)) hmessage
    · cases hhandled
  | submit =>
    cases hissued
    cases hcall
  | work queueIndex =>
    cases hissued
    cases hcall
  | accept => cases hissued
  | disconnect peerIndex => cases hissued
  | receive peerIndex messages => cases hissued
  | pop queueIndex => cases hissued
  | look => cases hissued
  | send currentUTCDateTime => cases hissued

section Runs

variable {compId : Bytes} {sequenceNumberValidation : Bool} {store : FixSequenceStore}
  {symbols : List Bytes} {multithreaded : Bool} {labels : List ExchangeLabel}
  {exchange : Exchange}

/-- Everything in the order matcher comes from a message that has arrived. -/
theorem run_echoing {arrived : List (Nat × FixMessage)}
    (positive : ∀ pair ∈ arrived, pair.2.messageType = .newOrder → PositiveQuantity pair.2)
    (hrun : run step (configured compId sequenceNumberValidation store symbols multithreaded)
      labels = some exchange) (received : ∀ pair ∈ receivedBy labels, pair ∈ arrived) :
    Echoing symbols arrived exchange.system := by
  have hinduction := run_induction (fun labels (exchange : Exchange) =>
    (∀ pair ∈ receivedBy labels, pair ∈ arrived) → Echoing symbols arrived exchange.system)
    ?_ ?_ hrun
  · exact hinduction received
  · exact fun _ => System.configured_carries symbols multithreaded
  · intro labels before label after hbefore ih hstep hreceived
    rw [receivedBy_snoc] at hreceived
    have hearlier : ∀ pair ∈ receivedBy labels, pair ∈ arrived :=
      fun pair hmem => hreceived pair (List.mem_append_left _ hmem)
    cases hissued : before.issued label with
    | none =>
      rw [(step_frame hstep).system hissued]
      exact ih hearlier
    | some systemLabel =>
      refine (ih hearlier).step ?_ (issued_step hissued hstep)
      exact issued_echoes (run_manager hbefore)
        (fun message hmem => hearlier _ (run_messages hbefore message hmem)) positive hissued

end Runs

end Exchange

end LiteExchange.Server
