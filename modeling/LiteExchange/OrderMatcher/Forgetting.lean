import LiteExchange.OrderMatcher.BookLog

/-!
# What the books do not read

Matching reads the side, the price and the open quantity of an order, and whether it is
filled; a cancel looks for a client order id and a session. A map of orders that keeps these,
and that a trade, a report and the cancel flag pass through, can be applied before a task or
after it.
-/

namespace LiteExchange.OrderMatcher

open Foundation.Ascii Foundation.Runs Foundation.PriorityList

variable {γ : Type}

/-- The map keeps what matching reads, and commutes with what matching writes. -/
structure Order.Forgets (forget : Order γ → Order γ) : Prop where
  side : ∀ order, (forget order).side = order.side
  price : ∀ order, (forget order).price = order.price
  openQuantity : ∀ order, (forget order).openQuantity = order.openQuantity
  isFilled : ∀ order, (forget order).isFilled = order.isFilled
  execute : ∀ order price quantity,
    forget (order.execute price quantity) = (forget order).execute price quantity
  report : ∀ order status,
    forget (OutgoingMessage.new order status).order = (OutgoingMessage.new (forget order) status).order

/-- The map also keeps what a cancel looks for, and commutes with the flag it sets. -/
structure Order.KeepsRequests (forget : Order γ → Order γ) : Prop where
  sessionId : ∀ order, (forget order).sessionId = order.sessionId
  clientOrderID : ∀ order, (forget order).clientOrderID = order.clientOrderID
  cancel : ∀ order, forget order.cancel = (forget order).cancel

def OutgoingMessage.mapOrder (forget : Order γ → Order γ) (message : OutgoingMessage γ) :
    OutgoingMessage γ :=
  ⟨forget message.order⟩

def Task.mapOrder (forget : Order γ → Order γ) : Task γ → Task γ
  | .newOrder order => .newOrder (forget order)
  | .cancelOrder order origClientOrderID => .cancelOrder (forget order) origClientOrderID

def Trade.mapOrders (forget : Order γ → Order γ) (trade : Trade γ) : Trade γ :=
  ⟨forget trade.bid, forget trade.ask⟩

namespace OrderBook

def mapOrders (forget : Order γ → Order γ) (book : OrderBook γ) : OrderBook γ :=
  ⟨book.bidOrders.map forget, book.askOrders.map forget⟩

variable {forget : Order γ → Order γ}

theorem mapOrders_orders (book : OrderBook γ) :
    (book.mapOrders forget).orders = book.orders.map forget := by
  simp [orders, mapOrders]

theorem mapOrders_insert (forgets : Order.Forgets forget) (book : OrderBook γ) (order : Order γ) :
    (book.mapOrders forget).insert (forget order) = (book.insert order).mapOrders forget := by
  have hbids : (book.bidOrders.map forget).orderedInsert (fun a b => a.price > b.price)
      (forget order) =
      (book.bidOrders.orderedInsert (fun a b => a.price > b.price) order).map forget := by
    symm
    apply List.map_orderedInsert
    · exact fun other _ => by rw [forgets.price, forgets.price]
    · exact fun other _ => by rw [forgets.price, forgets.price]
  have hasks : (book.askOrders.map forget).orderedInsert (fun a b => a.price < b.price)
      (forget order) =
      (book.askOrders.orderedInsert (fun a b => a.price < b.price) order).map forget := by
    symm
    apply List.map_orderedInsert
    · exact fun other _ => by rw [forgets.price, forgets.price]
    · exact fun other _ => by rw [forgets.price, forgets.price]
  unfold insert
  rw [forgets.side]
  split
  · simp only [mapOrders, hbids]
  · simp only [mapOrders, hasks]

theorem mapOrders_matchTwoOrders (forgets : Order.Forgets forget) (bid ask : Order γ) :
    matchTwoOrders (forget bid) (forget ask) = (matchTwoOrders bid ask).mapOrders forget := by
  simp only [matchTwoOrders, tradedQuantity, Trade.mapOrders, forgets.openQuantity, forgets.price,
    forgets.execute]

theorem mapOrders_settle (forgets : Order.Forgets forget) (traded : Order γ)
    (rest : List (Order γ)) :
    settle (forget traded) (rest.map forget) = (settle traded rest).map forget := by
  unfold settle
  rw [forgets.isFilled]
  split
  · rfl
  · rfl

theorem mapOrders_matchOnce (forgets : Order.Forgets forget) (book : OrderBook γ) :
    (book.mapOrders forget).matchOnce =
      book.matchOnce.map fun (trade, next) => (trade.mapOrders forget, next.mapOrders forget) := by
  obtain ⟨bidOrders, askOrders⟩ := book
  cases bidOrders with
  | nil => rfl
  | cons bid bids =>
    cases askOrders with
    | nil => rfl
    | cons ask asks =>
      have hbid := mapOrders_settle forgets (matchTwoOrders bid ask).bid bids
      have hask := mapOrders_settle forgets (matchTwoOrders bid ask).ask asks
      simp only [mapOrders, matchOnce, List.map_cons, forgets.price,
        mapOrders_matchTwoOrders forgets]
      split
      · simp only [Option.map_some, Trade.mapOrders, hbid, hask]
      · rfl

theorem mapOrders_processMatchingLoop (forgets : Order.Forgets forget) (fuel : Nat)
    (book : OrderBook γ) (processed : List (Order γ)) :
    processMatchingLoop fuel (book.mapOrders forget) (processed.map forget) =
      (processMatchingLoop fuel book processed).map fun (next, final) =>
        (next.mapOrders forget, final.map forget) := by
  induction fuel generalizing book processed with
  | zero => rfl
  | succ fuel ih =>
    unfold processMatchingLoop
    rw [mapOrders_matchOnce forgets]
    cases book.matchOnce with
    | none => rfl
    | some result =>
      obtain ⟨trade, next⟩ := result
      have hsnapshots : (trade.mapOrders forget).snapshots = trade.snapshots.map forget := rfl
      simp only [Option.map_some]
      rw [hsnapshots, ← List.map_append]
      exact ih next (processed ++ trade.snapshots)

theorem mapOrder_fillReport (forgets : Order.Forgets forget) (order : Order γ) :
    fillReport (forget order) = (fillReport order).mapOrder forget := by
  unfold fillReport OutgoingMessage.mapOrder
  rw [forgets.isFilled, forgets.report]

theorem mapOrders_newOrder (forgets : Order.Forgets forget) (book : OrderBook γ)
    (order : Order γ) :
    (book.mapOrders forget).newOrder (forget order) =
      (book.newOrder order).map fun (next, reports) =>
        (next.mapOrders forget, reports.map (OutgoingMessage.mapOrder forget)) := by
  have hsize : ((book.insert order).mapOrders forget).orders.length =
      (book.insert order).orders.length := by
    rw [mapOrders_orders, List.length_map]
  have hloop := mapOrders_processMatchingLoop forgets ((book.insert order).orders.length + 1)
    (book.insert order) []
  unfold newOrder processMatching
  rw [mapOrders_insert forgets, hsize]
  rw [List.map_nil] at hloop
  rw [hloop]
  cases processMatchingLoop ((book.insert order).orders.length + 1) (book.insert order) [] with
  | none => rfl
  | some result =>
    obtain ⟨next, final⟩ := result
    have hreports : (final.map forget).map fillReport =
        (final.map fillReport).map (OutgoingMessage.mapOrder forget) := by
      rw [List.map_map, List.map_map]
      exact List.map_congr_left fun order _ => mapOrder_fillReport forgets order
    simp only [Option.map_some, hreports]

/-! ## Cancels -/

theorem mapOrder_sameClientOrder (keeps : Order.KeepsRequests forget) (clientID : Bytes)
    (sessionId : Nat) :
    sameClientOrder clientID sessionId ∘ forget = sameClientOrder clientID sessionId := by
  funext order
  simp only [Function.comp_apply, sameClientOrder, keeps.sessionId, keeps.clientOrderID]

theorem mapOrders_find (keeps : Order.KeepsRequests forget) (book : OrderBook γ)
    (clientID : Bytes) (sessionId : Nat) (side : OrderSide) :
    (book.mapOrders forget).find clientID sessionId side =
      (book.find clientID sessionId side).map forget := by
  unfold find
  cases side with
  | nonSupported => rfl
  | buy =>
    simp only [mapOrders]
    rw [List.find?_map, mapOrder_sameClientOrder keeps]
  | sell =>
    simp only [mapOrders]
    rw [List.find?_map, mapOrder_sameClientOrder keeps]

theorem mapOrders_cancelFound (keeps : Order.KeepsRequests forget) (book : OrderBook γ)
    (clientID : Bytes) (sessionId : Nat) (side : OrderSide) :
    (book.mapOrders forget).cancelFound clientID sessionId side =
      (book.cancelFound clientID sessionId side).mapOrders forget := by
  have hlist : ∀ entries : List (Order γ),
      modifyFirst (sameClientOrder clientID sessionId) Order.cancel (entries.map forget) =
        (modifyFirst (sameClientOrder clientID sessionId) Order.cancel entries).map forget := by
    intro entries
    induction entries with
    | nil => rfl
    | cons order rest ih =>
      have hsame : sameClientOrder clientID sessionId (forget order) =
          sameClientOrder clientID sessionId order :=
        congrFun (mapOrder_sameClientOrder keeps clientID sessionId) order
      simp only [List.map_cons, modifyFirst, hsame]
      split
      · rw [List.map_cons, keeps.cancel]
      · rw [ih, List.map_cons]
  unfold cancelFound
  cases side with
  | nonSupported => rfl
  | buy => simp only [mapOrders, hlist]
  | sell => simp only [mapOrders, hlist]

theorem mapOrders_erase (forgets : Order.Forgets forget) (keeps : Order.KeepsRequests forget)
    (book : OrderBook γ) (order : Order γ) :
    (book.mapOrders forget).erase (forget order) = (book.erase order).mapOrders forget := by
  unfold erase
  rw [forgets.side, keeps.clientOrderID, keeps.sessionId]
  split
  · simp only [mapOrders, List.eraseP_map, mapOrder_sameClientOrder keeps]
  · simp only [mapOrders, List.eraseP_map, mapOrder_sameClientOrder keeps]
  · rfl

theorem mapOrders_cancelOrder (forgets : Order.Forgets forget) (keeps : Order.KeepsRequests forget)
    (book : OrderBook γ) (order : Order γ) (origClientOrderID : Bytes) :
    (book.mapOrders forget).cancelOrder (forget order) origClientOrderID =
      ((book.cancelOrder order origClientOrderID).1.mapOrders forget,
        (book.cancelOrder order origClientOrderID).2.map (OutgoingMessage.mapOrder forget)) := by
  have hfind := mapOrders_find keeps book origClientOrderID order.sessionId order.side
  have hflag := mapOrders_cancelFound keeps book origClientOrderID order.sessionId order.side
  unfold cancelOrder
  simp only [keeps.sessionId, forgets.side, hfind]
  cases book.find origClientOrderID order.sessionId order.side with
  | none =>
    simp only [Option.map_none, List.map_cons, List.map_nil, OutgoingMessage.mapOrder,
      forgets.report]
  | some found =>
    simp only [Option.map_some, hflag, List.map_cons, List.map_nil, OutgoingMessage.mapOrder,
      forgets.report]
    rw [← keeps.cancel, mapOrders_erase forgets keeps]

/-- The requests that the map can be applied to: new orders, and cancels if it keeps what they
look for. -/
def Covered (forget : Order γ → Order γ) (task : Task γ) : Prop :=
  task.isNewOrder = true ∨ Order.KeepsRequests forget

theorem mapOrders_runTask (forgets : Order.Forgets forget) (book : OrderBook γ) {task : Task γ}
    (covered : Covered forget task) :
    (book.mapOrders forget).runTask (task.mapOrder forget) =
      (book.runTask task).map fun (next, reports) =>
        (next.mapOrders forget, reports.map (OutgoingMessage.mapOrder forget)) := by
  cases task with
  | newOrder order => exact mapOrders_newOrder forgets book order
  | cancelOrder order origClientOrderID =>
    rcases covered with hnew | hkeeps
    · cases hnew
    · exact congrArg some (mapOrders_cancelOrder forgets hkeeps book order origClientOrderID)

end OrderBook

namespace BookLog

variable {forget : Order γ → Order γ}

def mapOrders (forget : Order γ → Order γ) (log : BookLog γ) : BookLog γ :=
  ⟨log.book.mapOrders forget, log.reports.map (OutgoingMessage.mapOrder forget)⟩

theorem mapOrders_runTask (forgets : Order.Forgets forget) (log : BookLog γ) {task : Task γ}
    (covered : OrderBook.Covered forget task) :
    (log.mapOrders forget).runTask (task.mapOrder forget) =
      (log.runTask task).map (mapOrders forget) := by
  unfold runTask
  rw [mapOrders, OrderBook.mapOrders_runTask forgets log.book covered]
  cases log.book.runTask task with
  | none => rfl
  | some result => simp [mapOrders]

theorem mapOrders_run (forgets : Order.Forgets forget) {tasks : List (Task γ)}
    (covered : ∀ task ∈ tasks, OrderBook.Covered forget task) (log : BookLog γ) :
    run runTask (log.mapOrders forget) (tasks.map (Task.mapOrder forget)) =
      (run runTask log tasks).map (mapOrders forget) := by
  induction tasks generalizing log with
  | nil => rfl
  | cons task tasks ih =>
    rw [List.map_cons, run_cons, run_cons,
      mapOrders_runTask forgets log (covered task List.mem_cons_self)]
    cases log.runTask task with
    | none => rfl
    | some next =>
      exact ih (fun later hlater => covered later (List.mem_cons_of_mem task hlater)) next

/-- Task sequences that the map makes equal leave logs that it makes equal. -/
theorem mapOrders_eq (forgets : Order.Forgets forget) {tasks others : List (Task γ)}
    {log otherLog : BookLog γ} (covered : ∀ task ∈ tasks, OrderBook.Covered forget task)
    (otherCovered : ∀ task ∈ others, OrderBook.Covered forget task)
    (same : tasks.map (Task.mapOrder forget) = others.map (Task.mapOrder forget))
    (h : run runTask {} tasks = some log) (h' : run runTask {} others = some otherLog) :
    log.mapOrders forget = otherLog.mapOrders forget := by
  have hlog := mapOrders_run forgets covered {}
  have hother := mapOrders_run forgets otherCovered {}
  rw [same] at hlog
  rw [hlog, h, h'] at hother
  exact Option.some.inj hother

end BookLog

end LiteExchange.OrderMatcher
