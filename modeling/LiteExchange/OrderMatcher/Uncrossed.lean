import LiteExchange.OrderMatcher.TaskEffects

/-!
# Matching ends, and every reachable book is uncrossed

The invariant between two tasks is that every book is balanced, ordered by
price and uncrossed. Matching restores the last part after an insertion; a
cancel keeps all three because it flags and removes orders only.
-/

namespace LiteExchange.OrderMatcher

open Foundation.Ascii Foundation.Runs

variable {γ : Type}

namespace OrderBook

/-- The state of a book between two tasks. -/
structure Settled (book : OrderBook γ) : Prop where
  balanced : book.Balanced
  ordered : book.PriceOrdered
  uncrossed : book.Uncrossed

theorem empty_settled : ({} : OrderBook γ).Settled where
  balanced := fun _ h => absurd h List.not_mem_nil
  ordered := ⟨List.Pairwise.nil, List.Pairwise.nil⟩
  uncrossed := fun _ h => absurd h List.not_mem_nil

theorem newOrder_settled {book next : OrderBook γ} {order : Order γ}
    {reports : List (OutgoingMessage γ)} (hbook : book.Settled) (horder : order.Balanced)
    (h : book.newOrder order = some (next, reports)) : next.Settled := by
  obtain ⟨trades, hiter, hlast, -⟩ := newOrder_cases h
  have hordered : next.PriceOrdered :=
    hiter.invariant PriceOrdered (fun _ _ _ => matchOnce_priceOrdered)
      (insert_priceOrdered hbook.ordered order)
  exact ⟨hiter.balanced (insert_balanced hbook.balanced horder), hordered,
    uncrossed_of_matchOnce_none hordered hlast⟩

theorem cancelOrder_settled {book : OrderBook γ} (hbook : book.Settled) (order : Order γ)
    (origClientOrderID : Bytes) : (book.cancelOrder order origClientOrderID).1.Settled := by
  have hbalanced := cancelOrder_balanced hbook.balanced order origClientOrderID
  rcases cancelOrder_cases book order origClientOrderID with ⟨found, -, heq⟩ | ⟨-, heq⟩
  · rw [heq] at hbalanced ⊢
    exact ⟨hbalanced, erase_priceOrdered (cancelFound_priceOrdered hbook.ordered _ _ _) _,
      erase_uncrossed (cancelFound_uncrossed hbook.uncrossed _ _ _) _⟩
  · rw [heq]
    exact hbook

theorem runTask_settled {book next : OrderBook γ} {task : Task γ}
    {reports : List (OutgoingMessage γ)} (hbook : book.Settled)
    (balanced : task.isNewOrder = true → task.order.Balanced)
    (h : book.runTask task = some (next, reports)) : next.Settled := by
  cases task with
  | newOrder order => exact newOrder_settled hbook (balanced rfl) h
  | cancelOrder order origClientOrderID =>
    have hcancel := cancelOrder_settled hbook order origClientOrderID
    simp only [runTask, Option.some.injEq] at h
    rwa [h] at hcancel

theorem runTask_returns {book : OrderBook γ} {task : Task γ} (hbook : book.Balanced)
    (balanced : task.isNewOrder = true → task.order.Balanced) :
    ∃ next reports, book.runTask task = some (next, reports) := by
  cases task with
  | newOrder order => exact newOrder_returns hbook (balanced rfl)
  | cancelOrder order origClientOrderID => exact ⟨_, _, rfl⟩

/-- Where the loop returns, one side is empty or the best prices do not cross. -/
theorem best_uncrossed {book : OrderBook γ} (h : book.matchOnce = none) :
    book.bidOrders = [] ∨ book.askOrders = [] ∨
      ∃ bid ∈ book.bidOrders.head?, ∃ ask ∈ book.askOrders.head?, bid.price < ask.price := by
  rcases matchOnce_none h with hbids | hasks | ⟨bid, bids, ask, asks, rfl, hlt⟩
  · exact Or.inl hbids
  · exact Or.inr (Or.inl hasks)
  · exact Or.inr (Or.inr ⟨bid, rfl, ask, rfl, hlt⟩)

end OrderBook

namespace CentralOrderBook

/-- Every task sequence of balanced orders runs to its end from settled books,
and leaves all books settled. -/
theorem run_settled (tasks : List (Task γ)) (central : CentralOrderBook γ)
    (balanced : ∀ task ∈ tasks, task.isNewOrder = true → task.order.Balanced)
    (before : ∀ securityId, (central.book securityId).Settled) :
    ∃ next, run runTask central tasks = some next ∧
      ∀ securityId, (next.book securityId).Settled := by
  induction tasks generalizing central with
  | nil => exact ⟨central, rfl, before⟩
  | cons task tasks ih =>
    have htask := balanced task List.mem_cons_self
    obtain ⟨book, reports, hbook⟩ :=
      OrderBook.runTask_returns (before task.securityId).balanced htask
    have hrun : central.runTask task =
        some ((central.setBook task.securityId book).push task.securityId reports) := by
      rw [runTask_eq, hbook]
      rfl
    have hsettled := runTask_forall_books OrderBook.Settled hrun before
      fun _ _ h => OrderBook.runTask_settled (before task.securityId) htask h
    rw [run_cons, hrun]
    exact ih _ (fun other h => balanced other (List.mem_cons_of_mem task h)) hsettled

end CentralOrderBook

/-- Matching terminates and uncrosses: from every balanced book, however deeply
crossed, the loop makes at most `|bids| + |asks| - 1` trades, each iteration
erases an order, and it returns at every fuel above the size of the book; after
every sequence of tasks on an initially empty exchange all books are uncrossed. -/
theorem matching_terminates_uncrossed (symbols : List Bytes) (multithreaded : Bool)
    (tasks : List (Task γ))
    (balanced : ∀ task ∈ tasks, task.isNewOrder = true → task.order.Balanced) :
    (∀ book : OrderBook γ, book.Balanced →
      ∃ trades last, OrderBook.Iterations book trades last ∧
        trades.length ≤ book.bidOrders.length + book.askOrders.length - 1 ∧
        (∀ fuel, book.bidOrders.length + book.askOrders.length < fuel →
          OrderBook.processMatchingLoop fuel book [] =
            some (last, trades.flatMap Trade.snapshots)) ∧
        (∀ done mid trade next, OrderBook.Iterations book done mid →
          mid.matchOnce = some (trade, next) → next.orders.length < mid.orders.length) ∧
        (last.bidOrders = [] ∨ last.askOrders = [] ∨
          ∃ bid ∈ last.bidOrders.head?, ∃ ask ∈ last.askOrders.head?, bid.price < ask.price)) ∧
    ∃ central,
      run CentralOrderBook.runTask (CentralOrderBook.configured symbols multithreaded).1 tasks =
        some central ∧
      ∀ securityId, (central.book securityId).Uncrossed := by
  constructor
  · intro book hbook
    obtain ⟨trades, last, hiter, hlast, hloop⟩ :=
      OrderBook.processMatchingLoop_balanced book hbook []
    have hsize : book.orders.length = book.bidOrders.length + book.askOrders.length :=
      List.length_append
    refine ⟨trades, last, hiter, ?_, ?_, ?_, OrderBook.best_uncrossed hlast⟩
    · rcases hiter.length_lt hbook with rfl | hlen
      · exact Nat.zero_le _
      · omega
    · intro fuel hfuel
      exact hloop fuel (hsize ▸ hfuel)
    · intro done mid trade next hdone honce
      exact (OrderBook.matchOnce_shrinks (hdone.balanced hbook) honce).2.1
  · have hempty : ∀ securityId, ((CentralOrderBook.configured (γ := γ) symbols multithreaded).1.book
        securityId).Settled := by
      intro securityId
      rw [CentralOrderBook.configured_book]
      exact OrderBook.empty_settled
    obtain ⟨central, hrun, hsettled⟩ := CentralOrderBook.run_settled tasks _ balanced hempty
    exact ⟨central, hrun, fun securityId => (hsettled securityId).uncrossed⟩

/-- A bid that crosses two resting asks, and a cancel. -/
def crossingTasks : List (Task Unit) :=
  [.newOrder (.new 1 (ascii "1") 0 0 .sell .limit 10 5 ()),
    .newOrder (.new 2 (ascii "2") 0 0 .sell .limit 11 4 ()),
    .newOrder (.new 3 (ascii "3") 0 1 .buy .limit 12 7 ()),
    .cancelOrder (.new 0 (ascii "4") 0 0 .sell .limit 0 0 ()) (ascii "2")]

theorem matching_terminates_uncrossed_crossing :
    ∃ central, run CentralOrderBook.runTask
        (CentralOrderBook.configured [ascii "AAPL"] true).1 crossingTasks = some central ∧
      ∀ securityId, (central.book securityId).Uncrossed :=
  (matching_terminates_uncrossed [ascii "AAPL"] true crossingTasks (by decide)).2

end LiteExchange.OrderMatcher
