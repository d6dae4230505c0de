import LiteExchange.OrderMatcher.TaskEffects

/-!
# Price-time priority

Orders numbered by arrival rest behind every order of their price. The order of
a container only reads the price and the number of its entries, which trades and
cancels leave alone, so every reachable book keeps it, also between two
iterations of the loop and between the two halves of a cancel. The head of an
ordered container is preceded by nobody, and only heads trade.
-/

namespace LiteExchange.OrderMatcher

open Foundation.Ascii Foundation.Runs Foundation.PriorityList

variable {γ : Type}

namespace OrderBook

/-- Each container is ordered by price, the best on top, and then by arrival. -/
structure PriorityOrdered (book : OrderBook γ) : Prop where
  bids : book.bidOrders.Pairwise (Precedes (· > ·) Order.price Order.orderID)
  asks : book.askOrders.Pairwise (Precedes (· < ·) Order.price Order.orderID)

/-- No resting order goes before the orders the next iteration trades. -/
def TradesBest (book : OrderBook γ) : Prop :=
  ∀ trade next, book.matchOnce = some (trade, next) →
    (∀ bid ∈ book.bidOrders, ¬ Precedes (· > ·) Order.price Order.orderID bid trade.bid) ∧
    (∀ ask ∈ book.askOrders, ¬ Precedes (· < ·) Order.price Order.orderID ask trade.ask)

theorem insert_priorityOrdered {book : OrderBook γ} (hbook : book.PriorityOrdered)
    {order : Order γ} (latest : ∀ resting ∈ book.orders, resting.orderID < order.orderID) :
    (book.insert order).PriorityOrdered := by
  unfold insert
  split
  · exact ⟨pairwise_insert_latest hbook.bids fun resting h =>
      latest resting (List.mem_append_left _ h), hbook.asks⟩
  · exact ⟨hbook.bids, pairwise_insert_latest hbook.asks fun resting h =>
      latest resting (List.mem_append_right _ h)⟩

/-- A partial fill keeps its place, a complete one leaves the container. -/
theorem matchOnce_priorityOrdered {book next : OrderBook γ} {trade : Trade γ}
    (hbook : book.PriorityOrdered) (h : book.matchOnce = some (trade, next)) :
    next.PriorityOrdered := by
  obtain ⟨bid, bids, ask, asks, rfl, -, rfl, rfl⟩ := matchOnce_cases h
  constructor
  · apply pairwise_settle hbook.bids
    intro other hahead
    exact hahead.congr rfl rfl rfl rfl
  · apply pairwise_settle hbook.asks
    intro other hahead
    exact hahead.congr rfl rfl rfl rfl

theorem PriorityOrdered.tradesBest {book : OrderBook γ} (hbook : book.PriorityOrdered) :
    book.TradesBest := by
  intro trade next h
  obtain ⟨bid, bids, ask, asks, rfl, -, rfl, -⟩ := matchOnce_cases h
  constructor
  · intro other hmem hahead
    have hbid : Precedes (· > ·) Order.price Order.orderID other bid :=
      hahead.congr rfl rfl rfl rfl
    exact not_precedes_head hbook.bids hmem hbid
  · intro other hmem hahead
    have hask : Precedes (· < ·) Order.price Order.orderID other ask :=
      hahead.congr rfl rfl rfl rfl
    exact not_precedes_head hbook.asks hmem hask

theorem cancelFound_priorityOrdered {book : OrderBook γ} (hbook : book.PriorityOrdered)
    (clientID : Bytes) (sessionId : Nat) (side : OrderSide) :
    (book.cancelFound clientID sessionId side).PriorityOrdered := by
  obtain ⟨hbids, hasks⟩ :=
    cancelFound_map (fun order => (order.price, order.orderID)) (fun _ => rfl) book clientID
      sessionId side
  constructor
  · exact pairwise_of_map_eq (R := Precedes (· > ·) Prod.fst Prod.snd) hbids hbook.bids
  · exact pairwise_of_map_eq (R := Precedes (· < ·) Prod.fst Prod.snd) hasks hbook.asks

theorem erase_priorityOrdered {book : OrderBook γ} (hbook : book.PriorityOrdered)
    (order : Order γ) : (book.erase order).PriorityOrdered := by
  unfold erase
  split
  · exact ⟨hbook.bids.eraseP _, hbook.asks⟩
  · exact ⟨hbook.bids, hbook.asks.eraseP _⟩
  · exact hbook

theorem cancelOrder_priorityOrdered {book : OrderBook γ} (hbook : book.PriorityOrdered)
    (order : Order γ) (origClientOrderID : Bytes) :
    (book.cancelOrder order origClientOrderID).1.PriorityOrdered := by
  rcases cancelOrder_cases book order origClientOrderID with ⟨found, -, heq⟩ | ⟨-, heq⟩
  · rw [heq]
    exact erase_priorityOrdered (cancelFound_priorityOrdered hbook _ _ _) _
  · rw [heq]
    exact hbook

/-- The numbers of the resting orders: trades and cancels do not touch them. -/
theorem arrived_closed (arrivals : Nat) :
    Closed (γ := γ) (fun order => order.orderID < arrivals) (fun order => order.orderID < arrivals)
      (fun order => order.orderID < arrivals) where
  trade := fun _ _ hb ha _ => ⟨hb, ha⟩
  tradedBid := fun _ _ hb _ _ _ => hb
  tradedAsk := fun _ _ _ ha _ _ => ha
  canceledBid := fun _ hb => hb
  canceledAsk := fun _ ha => ha

/-- A book whose orders arrived before `arrivals`, in price-time priority. -/
structure Queued (arrivals : Nat) (book : OrderBook γ) : Prop where
  ordered : book.PriorityOrdered
  arrived : book.Holds (fun order => order.orderID < arrivals) fun order => order.orderID < arrivals

theorem empty_queued (arrivals : Nat) : ({} : OrderBook γ).Queued arrivals :=
  ⟨⟨List.Pairwise.nil, List.Pairwise.nil⟩, empty_holds⟩

theorem Queued.mono {arrivals later : Nat} {book : OrderBook γ} (hbook : book.Queued arrivals)
    (hle : arrivals ≤ later) : book.Queued later where
  ordered := hbook.ordered
  arrived := ⟨fun order h => Nat.lt_of_lt_of_le (hbook.arrived.bids order h) hle,
    fun order h => Nat.lt_of_lt_of_le (hbook.arrived.asks order h) hle⟩

theorem Queued.insert {book : OrderBook γ} {arrivals : Nat} (hbook : book.Queued arrivals)
    (order : Order γ) : (book.insert (order.setOrderId arrivals)).Queued (arrivals + 1) where
  ordered := by
    apply insert_priorityOrdered hbook.ordered
    intro resting hmem
    exact (List.mem_append.mp hmem).elim (hbook.arrived.bids resting) (hbook.arrived.asks resting)
  arrived := insert_holds (hbook.mono (Nat.le_succ _)).arrived (fun _ => Nat.lt_succ_self _)
    fun _ => Nat.lt_succ_self _

theorem Queued.iterations {book mid : OrderBook γ} {trades : List (Trade γ)} {arrivals : Nat}
    (hbook : book.Queued arrivals) (h : Iterations book trades mid) : mid.Queued arrivals where
  ordered := h.invariant PriorityOrdered (fun _ _ _ => matchOnce_priorityOrdered) hbook.ordered
  arrived := ((arrived_closed arrivals).iterations hbook.arrived h).2

theorem Queued.cancelOrder {book : OrderBook γ} {arrivals : Nat} (hbook : book.Queued arrivals)
    (order : Order γ) (origClientOrderID : Bytes) :
    (book.cancelOrder order origClientOrderID).1.Queued arrivals where
  ordered := cancelOrder_priorityOrdered hbook.ordered order origClientOrderID
  arrived := (arrived_closed arrivals).cancelOrder hbook.arrived order origClientOrderID

end OrderBook

/-- The tasks with the new orders numbered by arrival, from `arrivals`. -/
def numberTasks : Nat → List (Task γ) → List (Task γ)
  | _, [] => []
  | arrivals, .newOrder order :: rest =>
    .newOrder (order.setOrderId arrivals) :: numberTasks (arrivals + 1) rest
  | arrivals, .cancelOrder order origClientOrderID :: rest =>
    .cancelOrder order origClientOrderID :: numberTasks arrivals rest

namespace CentralOrderBook

theorem run_queued (tasks : List (Task γ)) (arrivals : Nat) {central last : CentralOrderBook γ}
    (before : ∀ securityId, (central.book securityId).Queued arrivals)
    (h : run runTask central (numberTasks arrivals tasks) = some last) :
    ∀ securityId, (last.book securityId).Queued (arrivals + arrivalsOf tasks) := by
  induction tasks generalizing arrivals central with
  | nil =>
    cases h
    exact before
  | cons task tasks ih =>
    cases task with
    | newOrder order =>
      obtain ⟨next, hstep, hrest⟩ := Option.bind_eq_some_iff.mp h
      have hnext : ∀ securityId, (next.book securityId).Queued (arrivals + 1) := by
        apply runTask_forall_books _ hstep fun securityId => (before securityId).mono (Nat.le_succ _)
        intro book reports hbook
        obtain ⟨trades, hiter, -, -⟩ := OrderBook.newOrder_cases hbook
        exact ((before order.securityId).insert order).iterations hiter
      have hcount : arrivals + arrivalsOf (.newOrder order :: tasks) =
          arrivals + 1 + arrivalsOf tasks := by
        simp only [arrivalsOf, List.countP_cons, Task.isNewOrder, if_true]
        omega
      rw [hcount]
      exact ih (arrivals + 1) hnext hrest
    | cancelOrder order origClientOrderID =>
      obtain ⟨next, hstep, hrest⟩ := Option.bind_eq_some_iff.mp h
      have hnext : ∀ securityId, (next.book securityId).Queued arrivals := by
        apply runTask_forall_books _ hstep before
        intro book reports hbook
        have hcancel := (before order.securityId).cancelOrder order origClientOrderID
        have hresult : (central.book order.securityId).cancelOrder order origClientOrderID =
            (book, reports) := Option.some.inj hbook
        rwa [hresult] at hcancel
      have hcount : arrivalsOf (.cancelOrder order origClientOrderID :: tasks) =
          arrivalsOf tasks := by
        simp [arrivalsOf, Task.isNewOrder]
      rw [hcount]
      exact ih arrivals hnext hrest

end CentralOrderBook

/-- Price-time priority over whole runs: in every state reached from empty books
both containers are ordered by price and then by arrival, also after the first
half of a cancel; and while the next new order is matched, every book between
two iterations is ordered the same way and trades its best orders. -/
theorem price_time_priority (symbols : List Bytes) (multithreaded : Bool)
    (tasks : List (Task γ)) (central : CentralOrderBook γ)
    (h : run CentralOrderBook.runTask (CentralOrderBook.configured symbols multithreaded).1
      (numberTasks 1 tasks) = some central) (securityId : Nat) :
    (central.book securityId).PriorityOrdered ∧
    (∀ clientID sessionId side,
      ((central.book securityId).cancelFound clientID sessionId side).PriorityOrdered) ∧
    ∀ (order : Order γ) (trades : List (Trade γ)) (mid : OrderBook γ),
      OrderBook.Iterations
          ((central.book securityId).insert (order.setOrderId (1 + arrivalsOf tasks))) trades mid →
        mid.PriorityOrdered ∧ mid.TradesBest := by
  have hempty : ∀ id, ((CentralOrderBook.configured (γ := γ) symbols multithreaded).1.book
      id).Queued 1 := by
    intro id
    rw [CentralOrderBook.configured_book]
    exact OrderBook.empty_queued 1
  have hqueued := CentralOrderBook.run_queued tasks 1 hempty h securityId
  refine ⟨hqueued.ordered, OrderBook.cancelFound_priorityOrdered hqueued.ordered, ?_⟩
  intro order trades mid hiter
  have hmid := (hqueued.insert order).iterations hiter
  exact ⟨hmid.ordered, hmid.ordered.tradesBest⟩

/-- Three bids at one price, a partial fill of the first and a cancel of the second. -/
def priceLevelTasks : List (Task Unit) :=
  [.newOrder (.new 0 (ascii "1") 0 0 .buy .limit 10 5 ()),
    .newOrder (.new 0 (ascii "2") 0 0 .buy .limit 10 4 ()),
    .newOrder (.new 0 (ascii "3") 0 1 .buy .limit 10 6 ()),
    .newOrder (.new 0 (ascii "9") 0 2 .sell .limit 10 2 ()),
    .cancelOrder (.new 0 (ascii "4") 0 0 .buy .limit 0 0 ()) (ascii "2")]

theorem price_time_priority_one_level :
    ∃ central, run CentralOrderBook.runTask
        (CentralOrderBook.configured [ascii "AAPL"] false).1 (numberTasks 1 priceLevelTasks) =
        some central ∧
      (central.book 0).bidOrders.map Order.orderID = [1, 3] ∧
      (central.book 0).PriorityOrdered := by
  have hids : (run CentralOrderBook.runTask (CentralOrderBook.configured [ascii "AAPL"] false).1
      (numberTasks 1 priceLevelTasks)).map
        (fun central => (central.book 0).bidOrders.map Order.orderID) = some [1, 3] := by
    decide
  obtain ⟨central, hrun, hbids⟩ := Option.map_eq_some_iff.mp hids
  exact ⟨central, hrun, hbids, (price_time_priority _ _ priceLevelTasks central hrun 0).1⟩

end LiteExchange.OrderMatcher
