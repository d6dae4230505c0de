import LiteExchange.Server.ServerFix

/-!
# What a CANCEL message does to the order it names

`convertCancelOrder` copies the symbol and the client order id of the message and leaves
the side of the request as the stack slot held it, while `find` looks on that side only.
So tag 54 plays no part, and the request finds its order exactly when the slot happens to
hold the side of the order.
-/

namespace LiteExchange.Server

open Foundation.Ascii Foundation.Runs OrderMatcher
open LiteExchange.Fix LiteExchange.Fix.FixConstants

/-- The CANCEL message names a resting order by its session, symbol, side and client order
id, and no other resting order has the two ids. -/
structure NamesOrder (server : ServerFix) (message : FixMessage) (order : Order FixMessage) :
    Prop where
  messageType : message.messageType = .cancel
  symbol : server.manager.getSecurityId (message.getTagValue fixTagSymbol) =
    some order.securityId
  clientOrderID : message.getTagValue fixTagOrigClientOrderId = order.clientOrderID
  side : order.side = .buy ∧ message.getTagValueAsInt fixTagOrderSide = .ok fixOrderSideBuy ∨
    order.side = .sell ∧ message.getTagValueAsInt fixTagOrderSide = .ok fixOrderSideSell
  unique : (server.system.central.book order.securityId).orders.filter
    (OrderBook.sameClientOrder order.clientOrderID order.sessionId) = [order]

/-- The message becomes a cancel request whose task removes the order and pushes one
CANCELED report for it. -/
def Cancels (server : ServerFix) (message : FixMessage) (memory : Indeterminate Unit)
    (order : Order FixMessage) : Prop :=
  ∃ request origClientOrderID,
    onCancelOrder server.manager message order.sessionId (withOrigin memory message) =
      .ok (.call (.cancelOrder request origClientOrderID)) ∧
    let after := server.system.central.taskCancelOrder request origClientOrderID
    (server.system.central.book order.securityId).orders.Perm
        (order :: (after.book order.securityId).orders) ∧
      after.outgoingMessages (after.queueID order.securityId) =
        server.system.central.outgoingMessages (server.system.central.queueID order.securityId) ++
          [.new order.cancel .canceled]

/-- Buy orders rest with the bids and all others with the asks. -/
theorem sides_rule : BookLog.ReportRule (γ := FixMessage) (fun order => order.side = .buy)
    (fun order => order.side ≠ .buy) fun _ => True where
  closed :=
    { trade := fun _ _ _ _ _ => ⟨trivial, trivial⟩
      tradedBid := fun _ _ hbid _ _ _ => hbid
      tradedAsk := fun _ _ _ hask _ _ => hask
      canceledBid := fun _ hbid => hbid
      canceledAsk := fun _ hask => hask }
  canceledBid := fun _ _ => trivial
  canceledAsk := fun _ _ => trivial

theorem run_sides (symbols : List Bytes) (multithreaded : Bool) {labels : List ServerLabel}
    {server : ServerFix}
    (hrun : run ServerFix.step (ServerFix.configured symbols multithreaded) labels = some server)
    (securityId : Nat) :
    (server.system.central.book securityId).Holds (fun order => order.side = .buy)
      fun order => order.side ≠ .buy := by
  have hmeets : ∀ label ∈ labels, ∀ systemLabel, label.issued
      (ServerFix.configured symbols multithreaded).manager = some systemLabel →
      systemLabel.Meets (fun order => order.side = .buy) (fun order => order.side ≠ .buy)
        fun _ => True := by
    intro label _ systemLabel hissued
    exact issued_meets hissued (fun _ _ _ _ _ _ _ _ _ _ _ _ _ _ => ⟨fun h => h, fun h => h⟩)
      fun _ => trivial
  exact (ServerFix.run_holds sides_rule (System.configured_holds symbols multithreaded) hmeets
    hrun).books securityId

/-- `find` looks at the first match of the side. -/
theorem find_filter (book : OrderBook FixMessage) (clientID : Bytes) (sessionId : Nat) :
    book.find clientID sessionId .buy =
        (book.bidOrders.filter (OrderBook.sameClientOrder clientID sessionId)).head? ∧
      book.find clientID sessionId .sell =
        (book.askOrders.filter (OrderBook.sameClientOrder clientID sessionId)).head? := by
  rw [List.head?_filter, List.head?_filter]
  exact ⟨rfl, rfl⟩

/-- An order with unique ids is found on its own side and on no other. -/
theorem find_unique {book : OrderBook FixMessage} {order : Order FixMessage}
    (sides : book.Holds (fun order => order.side = .buy) fun order => order.side ≠ .buy)
    (sided : order.side = .buy ∨ order.side = .sell)
    (unique : book.orders.filter
      (OrderBook.sameClientOrder order.clientOrderID order.sessionId) = [order])
    (side : OrderSide) :
    book.find order.clientOrderID order.sessionId side =
      if side = order.side then some order else none := by
  obtain ⟨hbuy, hsell⟩ := find_filter book order.clientOrderID order.sessionId
  rw [OrderBook.orders, List.filter_append, List.append_eq_singleton_iff] at unique
  rcases unique with ⟨hbids, hasks⟩ | ⟨hbids, hasks⟩
  · -- The order rests with the asks.
    have hmem : order ∈ book.askOrders := by
      apply List.mem_of_mem_filter (p := OrderBook.sameClientOrder order.clientOrderID
        order.sessionId)
      rw [hasks]
      exact List.mem_singleton_self order
    have hask : order.side = .sell := sided.resolve_left (sides.asks order hmem)
    rw [hbids] at hbuy
    rw [hasks] at hsell
    rw [hask]
    cases side with
    | nonSupported => rfl
    | buy => exact hbuy
    | sell => exact hsell
  · have hmem : order ∈ book.bidOrders := by
      apply List.mem_of_mem_filter (p := OrderBook.sameClientOrder order.clientOrderID
        order.sessionId)
      rw [hbids]
      exact List.mem_singleton_self order
    have hbid : order.side = .buy := sides.bids order hmem
    rw [hbids] at hbuy
    rw [hasks] at hsell
    rw [hbid]
    cases side with
    | nonSupported => rfl
    | buy => exact hbuy
    | sell => exact hsell

/-- The request that a CANCEL message becomes: the side is what the slot held. -/
def cancelRequest (message : FixMessage) (sessionId : Nat) (memory : Indeterminate Unit)
    (securityId : Nat) : Order FixMessage :=
  { Order.default (withOrigin memory message) with
    sessionId := sessionId
    securityId := securityId
    clientOrderID := message.getTagValue fixTagClientOrderId }

theorem cancelRequest_fresh (message : FixMessage) (sessionId : Nat) (memory : Indeterminate Unit)
    (securityId : Nat) : (cancelRequest message sessionId memory securityId).Fresh :=
  ⟨rfl, rfl, isLong_zero⟩

theorem onCancelOrder_request {manager : SecurityManager} {message : FixMessage} {securityId : Nat}
    (h : manager.getSecurityId (message.getTagValue fixTagSymbol) = some securityId)
    (sessionId : Nat) (memory : Indeterminate Unit) :
    onCancelOrder manager message sessionId (withOrigin memory message) =
      .ok (.call (.cancelOrder (cancelRequest message sessionId memory securityId)
        (message.getTagValue fixTagOrigClientOrderId))) := by
  unfold onCancelOrder FixMessageConverter.convertCancelOrder FixMessageConverter.convertCommonOrder
  rw [h]
  rfl

/-- The task leaves the book and pushes the reports that it has for its security. -/
theorem taskCancelOrder_spec {central : CentralOrderBook FixMessage} {order : Order FixMessage}
    {origClientOrderID : Bytes} {next : OrderBook FixMessage}
    {reports : List (OutgoingMessage FixMessage)}
    (h : (central.book order.securityId).cancelOrder order origClientOrderID = (next, reports)) :
    let after := central.taskCancelOrder order origClientOrderID
    after.book order.securityId = next ∧
      after.outgoingMessages (after.queueID order.securityId) =
        central.outgoingMessages (central.queueID order.securityId) ++ reports := by
  simp only [CentralOrderBook.taskCancelOrder, h, CentralOrderBook.book_push,
    CentralOrderBook.book_setBook, CentralOrderBook.queueID_push, CentralOrderBook.queueID_setBook,
    if_true, true_and]
  simp [CentralOrderBook.push, CentralOrderBook.setBook, CentralOrderBook.queueID]

section Request

variable {server : ServerFix} {message : FixMessage} {memory : Indeterminate Unit}
  {order : Order FixMessage}

theorem NamesOrder.sided (names : NamesOrder server message order) :
    order.side = .buy ∨ order.side = .sell := by
  rcases names.side with ⟨hbuy, -⟩ | ⟨hsell, -⟩
  · exact Or.inl hbuy
  · exact Or.inr hsell

/-- What the request of the message finds. -/
theorem request_finds (memory : Indeterminate Unit) (names : NamesOrder server message order)
    (sides : (server.system.central.book order.securityId).Holds (fun order => order.side = .buy)
      fun order => order.side ≠ .buy) :
    ∃ request, onCancelOrder server.manager message order.sessionId (withOrigin memory message) =
        .ok (.call (.cancelOrder request order.clientOrderID)) ∧
      request.securityId = order.securityId ∧ request.side = memory.side ∧
      (server.system.central.book order.securityId).find order.clientOrderID request.sessionId
        request.side = if memory.side = order.side then some order else none := by
  have hrequest := onCancelOrder_request names.symbol order.sessionId memory
  rw [names.clientOrderID] at hrequest
  exact ⟨_, hrequest, rfl, rfl, find_unique sides names.sided names.unique memory.side⟩

/-- A request on another side finds nothing and leaves the book as it was. -/
theorem side_of_cancels (names : NamesOrder server message order)
    (sides : (server.system.central.book order.securityId).Holds (fun order => order.side = .buy)
      fun order => order.side ≠ .buy)
    (h : Cancels server message memory order) : memory.side = order.side := by
  obtain ⟨request, hrequest, hsecurity, -, hfind⟩ := request_finds memory names sides
  obtain ⟨other, origClientOrderID, hother, hperm, -⟩ := h
  by_contra hmemory
  rw [hrequest] at hother
  cases hother
  rw [if_neg hmemory] at hfind
  have hrejected : (server.system.central.book request.securityId).cancelOrder request
      order.clientOrderID =
        (server.system.central.book request.securityId, [.new request .rejected]) := by
    rw [hsecurity]
    unfold OrderBook.cancelOrder
    rw [hfind]
  have hafter := (taskCancelOrder_spec hrejected).1
  rw [hsecurity] at hafter
  rw [hafter] at hperm
  have hlength := hperm.length_eq
  simp only [List.length_cons] at hlength
  omega

theorem cancels_of_side (names : NamesOrder server message order)
    (sides : (server.system.central.book order.securityId).Holds (fun order => order.side = .buy)
      fun order => order.side ≠ .buy)
    (hmemory : memory.side = order.side) : Cancels server message memory order := by
  obtain ⟨request, hrequest, hsecurity, hside, hfind⟩ := request_finds memory names sides
  rw [if_pos hmemory] at hfind
  obtain ⟨front, back, next, hcanceled, hremoved⟩ :=
    OrderBook.cancelOrder_of_find hfind (by rw [hside, hmemory])
  rw [← hsecurity] at hcanceled
  obtain ⟨hbook, hring⟩ := taskCancelOrder_spec hcanceled
  rw [hsecurity] at hbook hring
  refine ⟨request, order.clientOrderID, hrequest, ?_, hring⟩
  rw [hbook]
  exact OrderBook.removed_perm hremoved

end Request

/-- In every reachable state a CANCEL message cancels the order it names exactly when the
uninitialised side of the request holds the side of the order. -/
theorem cancel_cancels_iff (symbols : List Bytes) (multithreaded : Bool)
    (labels : List ServerLabel) (server : ServerFix)
    (hrun : run ServerFix.step (ServerFix.configured symbols multithreaded) labels = some server)
    (message : FixMessage) (memory : Indeterminate Unit) (order : Order FixMessage)
    (names : NamesOrder server message order) :
    Cancels server message memory order ↔ memory.side = order.side := by
  have hsides := run_sides symbols multithreaded hrun order.securityId
  exact ⟨side_of_cancels names hsides, cancels_of_side names hsides⟩

/-- A CANCEL message with all tags that name the order of `newOrderMessage`. -/
def cancelMessage (side : String) : FixMessage :=
  { (FixMessage.construct .cancel).setTags
      [(fixTagBodyLength, ascii "100"), (fixTagBodyChecksum, ascii "000"),
        (fixTagTransactionTime, ascii "T"), (fixTagClientOrderId, ascii "2"),
        (fixTagOrigClientOrderId, ascii "1"), (fixTagSymbol, ascii "MSFT"),
        (fixTagOrderSide, ascii side)] with
    fixVersion := .fix42
    senderCompId := ascii "CLIENT"
    targetCompId := ascii "SERVER"
    sendingTime := ascii "T" }

/-- The run that submits one BUY order. -/
def oneBuyLabels : List ServerLabel :=
  [.onFixMessage (newOrderMessage "1" "5" "10") 0 clearedMemory]

/-- The message names the order that rests then. -/
theorem oneBuy_named :
    ∃ server order, run ServerFix.step (ServerFix.configured [ascii "MSFT"] false) oneBuyLabels =
      some server ∧ order.side = .buy ∧ NamesOrder server (cancelMessage "1") order := by
  have hresting : (run ServerFix.step (ServerFix.configured [ascii "MSFT"] false)
      oneBuyLabels).map (fun server =>
        server.manager.getSecurityId (ascii "MSFT") == some 0 &&
          (server.system.central.book 0).askOrders.isEmpty &&
          ((server.system.central.book 0).bidOrders.map fun order =>
            (order.securityId, order.clientOrderID, order.side)) == [(0, ascii "1", .buy)]) =
      some true := by
    decide +kernel
  obtain ⟨server, hrun, hstate⟩ := Option.map_eq_some_iff.mp hresting
  simp only [Bool.and_eq_true, beq_iff_eq, List.isEmpty_iff] at hstate
  obtain ⟨⟨hsymbol, hasks⟩, hbids⟩ := hstate
  obtain ⟨order, hbook, horder⟩ := List.map_eq_singleton_iff.mp hbids
  simp only [Prod.mk.injEq] at horder
  obtain ⟨hsecurity, hclient, hside⟩ := horder
  have hmessage : (cancelMessage "1").getTagValue fixTagSymbol = ascii "MSFT" ∧
      (cancelMessage "1").getTagValue fixTagOrigClientOrderId = ascii "1" ∧
      (cancelMessage "1").getTagValueAsInt fixTagOrderSide = .ok fixOrderSideBuy := by
    decide +kernel
  refine ⟨server, order, hrun, hside, rfl, ?_, ?_, Or.inl ⟨hside, hmessage.2.2⟩, ?_⟩
  · rw [hmessage.1, hsecurity]
    exact hsymbol
  · rw [hmessage.2.1, hclient]
  · rw [hsecurity, OrderBook.orders, hbook, hasks]
    simp [OrderBook.sameClientOrder]

theorem cancel_cancels_iff_oneBuy :
    ∃ server order, Cancels server (cancelMessage "1") { clearedMemory with side := .buy } order := by
  obtain ⟨server, order, hrun, hside, names⟩ := oneBuy_named
  exact ⟨server, order, (cancel_cancels_iff [ascii "MSFT"] false oneBuyLabels server hrun _
    { clearedMemory with side := .buy } order names).mpr hside.symm⟩

/-- The slot of the request holds no side: the order stays and the request is rejected. -/
theorem cancel_depends_on_memory :
    ¬ ∀ (symbols : List Bytes) (multithreaded : Bool) (labels : List ServerLabel)
        (server : ServerFix),
        run ServerFix.step (ServerFix.configured symbols multithreaded) labels = some server →
        ∀ message memory order, NamesOrder server message order →
          Cancels server message memory order := by
  intro h
  obtain ⟨server, order, hrun, hside, names⟩ := oneBuy_named
  have hcancels := h [ascii "MSFT"] false oneBuyLabels server hrun (cancelMessage "1")
    clearedMemory order names
  have hmemory := side_of_cancels names (run_sides [ascii "MSFT"] false hrun order.securityId)
    hcancels
  rw [hside] at hmemory
  cases hmemory

end LiteExchange.Server
