import LiteExchange.OrderMatcher.Forgetting

/-!
# Order numbers do not steer the books

Matching and cancelling read no order number, so they commute with forgetting
the numbers: two task sequences that differ in the numbers only leave books and
reports that differ in the numbers only.
-/

namespace LiteExchange.OrderMatcher

open Foundation.Ascii Foundation.Runs Foundation.PriorityList

variable {γ : Type}

/-- The order without its number. -/
def Order.unnumbered (order : Order γ) : Order γ := order.setOrderId 0

def OutgoingMessage.unnumbered (message : OutgoingMessage γ) : OutgoingMessage γ :=
  ⟨message.order.unnumbered⟩

def Task.unnumbered : Task γ → Task γ
  | .newOrder order => .newOrder order.unnumbered
  | .cancelOrder order origClientOrderID => .cancelOrder order.unnumbered origClientOrderID

theorem Order.unnumbered_forgets : Order.Forgets (Order.unnumbered (γ := γ)) where
  side _ := rfl
  price _ := rfl
  openQuantity _ := rfl
  isFilled _ := rfl
  execute _ _ _ := rfl
  report _ _ := rfl

theorem Order.unnumbered_keeps : Order.KeepsRequests (Order.unnumbered (γ := γ)) where
  sessionId _ := rfl
  clientOrderID _ := rfl
  cancel _ := rfl

theorem Task.unnumbered_eq (task : Task γ) : task.unnumbered = task.mapOrder Order.unnumbered := by
  cases task with
  | newOrder order => rfl
  | cancelOrder order origClientOrderID => rfl

namespace OrderBook

def unnumbered (book : OrderBook γ) : OrderBook γ :=
  ⟨book.bidOrders.map Order.unnumbered, book.askOrders.map Order.unnumbered⟩

end OrderBook

namespace BookLog

def unnumbered (log : BookLog γ) : BookLog γ :=
  ⟨log.book.unnumbered, log.reports.map OutgoingMessage.unnumbered⟩

/-- Task sequences that differ in the numbers only leave logs that do. -/
theorem unnumbered_eq {tasks others : List (Task γ)} {log otherLog : BookLog γ}
    (same : tasks.map Task.unnumbered = others.map Task.unnumbered)
    (h : run runTask {} tasks = some log) (h' : run runTask {} others = some otherLog) :
    log.unnumbered = otherLog.unnumbered := by
  have hkeeps : ∀ task : Task γ, OrderBook.Covered Order.unnumbered task :=
    fun _ => Or.inr Order.unnumbered_keeps
  rw [funext Task.unnumbered_eq] at same
  exact mapOrders_eq Order.unnumbered_forgets (fun task _ => hkeeps task)
    (fun task _ => hkeeps task) same h h'

end BookLog

end LiteExchange.OrderMatcher
