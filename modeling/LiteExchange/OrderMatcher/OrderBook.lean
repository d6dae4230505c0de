import LiteExchange.Foundation.PriorityList
import LiteExchange.OrderMatcher.Order

/-!
# The order book of one security

Source: order_book.h, order_book.cpp. A `std::multimap` keyed by the price of its
orders is the list of its orders in iteration order; `insert` puts an order
behind its equals, as C++11 fixes for equal keys. `processMatching` is a
`while(true)` loop. Its model runs at most `fuel` iterations and returns `none`
when they do not suffice; `Iterations` is the same loop without a bound.
-/

namespace LiteExchange.OrderMatcher

open Foundation.Ascii Foundation.PriorityList

variable {γ : Type}

/-- Bid orders with the greatest price on top, ask orders with the lowest. -/
structure OrderBook (γ : Type) where
  bidOrders : List (Order γ) := []
  askOrders : List (Order γ) := []
  deriving DecidableEq, Repr

/-- The snapshots of both sides of one trade. -/
structure Trade (γ : Type) where
  bid : Order γ
  ask : Order γ
  deriving DecidableEq, Repr

/-- The two entries a trade pushes to `processedOrders`. -/
def Trade.snapshots (trade : Trade γ) : List (Order γ) := [trade.bid, trade.ask]

namespace OrderBook

def orders (book : OrderBook γ) : List (Order γ) := book.bidOrders ++ book.askOrders

def insert (book : OrderBook γ) (order : Order γ) : OrderBook γ :=
  if order.side = .buy then
    { book with bidOrders := book.bidOrders.orderedInsert (fun a b => a.price > b.price) order }
  else
    { book with askOrders := book.askOrders.orderedInsert (fun a b => a.price < b.price) order }

/-- The test both linear searches make on an element. -/
def sameClientOrder (clientID : Bytes) (sessionId : Nat) (order : Order γ) : Bool :=
  order.sessionId == sessionId && order.clientOrderID == clientID

/-- The order `find` points at. -/
def find (book : OrderBook γ) (clientID : Bytes) (sessionId : Nat) (side : OrderSide) :
    Option (Order γ) :=
  match side with
  | .buy => book.bidOrders.find? (sameClientOrder clientID sessionId)
  | .sell => book.askOrders.find? (sameClientOrder clientID sessionId)
  | .nonSupported => none

/-- `(*order)->cancel()` on the element `find` points at. -/
def cancelFound (book : OrderBook γ) (clientID : Bytes) (sessionId : Nat) (side : OrderSide) :
    OrderBook γ :=
  match side with
  | .buy => { book with
      bidOrders := modifyFirst (sameClientOrder clientID sessionId) Order.cancel book.bidOrders }
  | .sell => { book with
      askOrders := modifyFirst (sameClientOrder clientID sessionId) Order.cancel book.askOrders }
  | .nonSupported => book

def erase (book : OrderBook γ) (order : Order γ) : OrderBook γ :=
  match order.side with
  | .buy => { book with
      bidOrders := book.bidOrders.eraseP (sameClientOrder order.clientOrderID order.sessionId) }
  | .sell => { book with
      askOrders := book.askOrders.eraseP (sameClientOrder order.clientOrderID order.sessionId) }
  | .nonSupported => book

/-- The quantity `matchTwoOrders` executes on both orders. -/
def tradedQuantity (bid ask : Order γ) : Int :=
  if bid.openQuantity > ask.openQuantity then ask.openQuantity else bid.openQuantity

def matchTwoOrders (bid ask : Order γ) : Trade γ where
  bid := bid.execute ask.price (tradedQuantity bid ask)
  ask := ask.execute ask.price (tradedQuantity bid ask)

/-- The container after a trade of its first order: a filled order is erased. -/
def settle (traded : Order γ) (rest : List (Order γ)) : List (Order γ) :=
  if traded.isFilled then rest else traded :: rest

/-- One iteration of the loop that trades; `none` where the loop returns. -/
def matchOnce (book : OrderBook γ) : Option (Trade γ × OrderBook γ) :=
  match book.bidOrders, book.askOrders with
  | bid :: bids, ask :: asks =>
    if bid.price ≥ ask.price then
      let trade := matchTwoOrders bid ask
      some (trade, ⟨settle trade.bid bids, settle trade.ask asks⟩)
    else none
  | _, _ => none

def processMatchingLoop : Nat → OrderBook γ → List (Order γ) →
    Option (OrderBook γ × List (Order γ))
  | 0, _, _ => none
  | fuel + 1, book, processedOrders =>
    match book.matchOnce with
    | none => some (book, processedOrders)
    | some (trade, next) => processMatchingLoop fuel next (processedOrders ++ trade.snapshots)

/-- The book and the queue after the loop, and whether any order was processed. -/
def processMatching (book : OrderBook γ) (processedOrders : List (Order γ)) :
    Option (OrderBook γ × List (Order γ) × Bool) :=
  (processMatchingLoop (book.orders.length + 1) book processedOrders).map
    fun (next, processed) => (next, processed, processed.length != 0)

/-- `Iterations book trades next`: consecutive iterations of the loop make these
trades and lead from `book` to `next`. -/
inductive Iterations : OrderBook γ → List (Trade γ) → OrderBook γ → Prop
  | done (book : OrderBook γ) : Iterations book [] book
  | trade {book next last : OrderBook γ} {trade : Trade γ} {trades : List (Trade γ)}
      (once : book.matchOnce = some (trade, next)) (rest : Iterations next trades last) :
      Iterations book (trade :: trades) last

/-! ## One iteration -/

/-- No more is traded than is open on either side. -/
theorem tradedQuantity_le (bid ask : Order γ) :
    tradedQuantity bid ask ≤ bid.openQuantity ∧ tradedQuantity bid ask ≤ ask.openQuantity := by
  unfold tradedQuantity
  split
  · omega
  · omega

/-- What an iteration that trades does: the best bid and the best ask cross, both
are executed, and each stays on top of its container unless it is filled. -/
theorem matchOnce_cases {book next : OrderBook γ} {trade : Trade γ}
    (h : book.matchOnce = some (trade, next)) :
    ∃ bid bids ask asks, book = ⟨bid :: bids, ask :: asks⟩ ∧ ask.price ≤ bid.price ∧
      trade = matchTwoOrders bid ask ∧ next = ⟨settle trade.bid bids, settle trade.ask asks⟩ := by
  obtain ⟨bidOrders, askOrders⟩ := book
  unfold matchOnce at h
  cases bidOrders with
  | nil => simp at h
  | cons bid bids =>
    cases askOrders with
    | nil => simp at h
    | cons ask asks =>
      simp only [Option.ite_none_right_eq_some, Option.some.injEq, Prod.mk.injEq] at h
      obtain ⟨hcross, rfl, rfl⟩ := h
      exact ⟨bid, bids, ask, asks, rfl, hcross, rfl, rfl⟩

/-- Where the loop returns, one side is empty or the best prices do not cross. -/
theorem matchOnce_none {book : OrderBook γ} (h : book.matchOnce = none) :
    book.bidOrders = [] ∨ book.askOrders = [] ∨
      ∃ bid bids ask asks, book = ⟨bid :: bids, ask :: asks⟩ ∧ bid.price < ask.price := by
  obtain ⟨bidOrders, askOrders⟩ := book
  unfold matchOnce at h
  cases bidOrders with
  | nil => exact Or.inl rfl
  | cons bid bids =>
    cases askOrders with
    | nil => exact Or.inr (Or.inl rfl)
    | cons ask asks =>
      simp only [ite_eq_right_iff, reduceCtorEq, imp_false, not_le] at h
      exact Or.inr (Or.inr ⟨bid, bids, ask, asks, rfl, h⟩)

theorem mem_settle {traded order : Order γ} {rest : List (Order γ)}
    (h : order ∈ settle traded rest) :
    order = traded ∧ traded.isFilled = false ∨ order ∈ rest := by
  unfold settle at h
  split at h
  · exact Or.inr h
  · rename_i hfilled
    rcases List.mem_cons.mp h with rfl | h
    · exact Or.inl ⟨rfl, by simpa using hfilled⟩
    · exact Or.inr h

theorem mem_insert {book : OrderBook γ} {order resting : Order γ} :
    resting ∈ (book.insert order).orders ↔ resting = order ∨ resting ∈ book.orders := by
  unfold insert orders
  split
  · simp only [List.mem_append, List.mem_orderedInsert]
    tauto
  · simp only [List.mem_append, List.mem_orderedInsert]
    tauto

theorem mem_erase {book : OrderBook γ} {order resting : Order γ}
    (h : resting ∈ (book.erase order).orders) : resting ∈ book.orders := by
  unfold erase at h
  unfold orders at *
  split at h
  · exact (List.mem_append.mp h).elim
      (fun h => List.mem_append_left _ (List.mem_of_mem_eraseP h)) (List.mem_append_right _)
  · exact (List.mem_append.mp h).elim (List.mem_append_left _)
      (fun h => List.mem_append_right _ (List.mem_of_mem_eraseP h))
  · exact h

/-! ## The loop -/

/-- The loop ends with the queue of all its trades' snapshots exactly when its
iterations lead to a book that does not trade, within the fuel. -/
theorem processMatchingLoop_iff {fuel : Nat} {book last : OrderBook γ}
    {processed final : List (Order γ)} :
    processMatchingLoop fuel book processed = some (last, final) ↔
      ∃ trades, Iterations book trades last ∧ last.matchOnce = none ∧
        final = processed ++ trades.flatMap Trade.snapshots ∧ trades.length < fuel := by
  induction fuel generalizing book processed with
  | zero => simp [processMatchingLoop]
  | succ fuel ih =>
    unfold processMatchingLoop
    cases hmatch : book.matchOnce with
    | none =>
      constructor
      · intro h
        simp only [Option.some.injEq, Prod.mk.injEq] at h
        obtain ⟨rfl, rfl⟩ := h
        exact ⟨[], .done book, hmatch, by simp, Nat.succ_pos fuel⟩
      · rintro ⟨trades, hiter, -, rfl, -⟩
        cases hiter with
        | done => simp
        | trade once _ =>
          rw [hmatch] at once
          cases once
    | some result =>
      obtain ⟨trade, next⟩ := result
      dsimp only
      rw [ih]
      constructor
      · rintro ⟨trades, hiter, hlast, rfl, hlen⟩
        exact ⟨trade :: trades, .trade hmatch hiter, hlast, by simp, Nat.succ_lt_succ hlen⟩
      · rintro ⟨trades, hiter, hlast, rfl, hlen⟩
        cases hiter with
        | done =>
          rw [hmatch] at hlast
          cases hlast
        | trade once rest =>
          rw [hmatch] at once
          cases once
          exact ⟨_, rest, hlast, by simp, Nat.lt_of_succ_lt_succ hlen⟩

/-- What every iteration preserves holds after any number of them. -/
theorem Iterations.invariant (I : OrderBook γ → Prop)
    (keep : ∀ book trade next, I book → book.matchOnce = some (trade, next) → I next)
    {book last : OrderBook γ} {trades : List (Trade γ)} (h : Iterations book trades last)
    (start : I book) : I last := by
  induction h with
  | done => exact start
  | trade once _ ih => exact ih (keep _ _ _ start once)

/-- What every iteration establishes of its trade, from an invariant, holds of all trades. -/
theorem Iterations.forall_trades (I : OrderBook γ → Prop) (P : Trade γ → Prop)
    (keep : ∀ book trade next, I book → book.matchOnce = some (trade, next) → P trade ∧ I next)
    {book last : OrderBook γ} {trades : List (Trade γ)} (h : Iterations book trades last)
    (start : I book) : ∀ trade ∈ trades, P trade := by
  induction h with
  | done => exact fun trade h => absurd h List.not_mem_nil
  | trade once _ ih =>
    obtain ⟨hP, hI⟩ := keep _ _ _ start once
    intro trade h
    rcases List.mem_cons.mp h with rfl | h
    · exact hP
    · exact ih hI trade h

end OrderBook

end LiteExchange.OrderMatcher
