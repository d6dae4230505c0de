import LiteExchange.OrderMatcher.BookLog

/-!
# What a cancel leaves alone

Source: `CentralOrderBook::taskCancelOrder`, `OrderBook::find` and `OrderBook::erase`. The two
searches are independent of each other; in a book whose orders rest on their sides they
stop at the same element, and nothing else changes.
-/

namespace LiteExchange.OrderMatcher

open Foundation.Ascii Foundation.PriorityList

variable {γ : Type}

namespace OrderBook

/-- An order of the side rests under this client order id and session. -/
def Names (book : OrderBook γ) (clientID : Bytes) (sessionId : Nat) (side : OrderSide) : Prop :=
  ∃ resting ∈ book.orders, resting.side = side ∧
    resting.clientOrderID = clientID ∧ resting.sessionId = sessionId

/-- `next` is the book without the first order of the side under this client order id and
session: what stands before and behind it, and the other side, is the same. -/
def RemovesFirst (book next : OrderBook γ) (clientID : Bytes) (sessionId : Nat) (side : OrderSide)
    (found : Order γ) : Prop :=
  (found.clientOrderID = clientID ∧ found.sessionId = sessionId) ∧
    (∃ front back, book.container side = front ++ found :: back ∧
      (∀ ahead ∈ front, ¬ (ahead.clientOrderID = clientID ∧ ahead.sessionId = sessionId)) ∧
      next.container side = front ++ back) ∧
    ∀ other ≠ side, next.container other = book.container other

variable {book : OrderBook γ} {clientID : Bytes} {sessionId : Nat} {side : OrderSide}
  {order found : Order γ}

theorem sameClientOrder_iff : sameClientOrder clientID sessionId order = true ↔
    order.clientOrderID = clientID ∧ order.sessionId = sessionId := by
  simp only [sameClientOrder, Bool.and_eq_true, beq_iff_eq]
  exact and_comm

/-- The orders of a side are the ones in its container. -/
theorem Sided.mem_container (sided : book.Sided) :
    order ∈ book.container side ↔ order ∈ book.orders ∧ order.side = side := by
  unfold orders
  rw [List.mem_append]
  constructor
  · intro hmem
    cases side with
    | nonSupported => cases hmem
    | buy => exact ⟨Or.inl hmem, sided.bids order hmem⟩
    | sell => exact ⟨Or.inr hmem, sided.asks order hmem⟩
  · rintro ⟨hmem | hmem, rfl⟩
    · rw [sided.bids order hmem]
      exact hmem
    · rw [sided.asks order hmem]
      exact hmem

/-- An order is found exactly when the side has one under this client order id and session. -/
theorem Sided.find_none_iff (sided : book.Sided) :
    book.find clientID sessionId side = none ↔ ¬ book.Names clientID sessionId side := by
  rw [find_eq, List.find?_eq_none]
  simp only [sameClientOrder_iff, sided.mem_container, Names]
  constructor
  · rintro h ⟨resting, hmem, hside, hsame⟩
    exact h resting ⟨hmem, hside⟩ hsame
  · rintro h resting ⟨hmem, hside⟩ hsame
    exact h ⟨resting, hmem, hside, hsame⟩

theorem cancelOrder_removesFirst {origClientOrderID : Bytes} (sided : book.Sided)
    (names : book.Names origClientOrderID order.sessionId order.side) :
    ∃ found next, book.RemovesFirst next origClientOrderID order.sessionId order.side found ∧
      book.cancelOrder order origClientOrderID = (next, [.new found.cancel .canceled]) := by
  rcases cancelOrder_cases book order origClientOrderID with ⟨found, hfind, heq⟩ | ⟨hnone, -⟩
  · obtain ⟨-, hsession, hclient⟩ := find_mem hfind
    rw [find_eq] at hfind
    have hside := (sided.mem_container.mp (List.mem_of_find?_eq_some hfind)).2
    obtain ⟨front, back, hsplit, -, hfront, herase, -⟩ := split_of_find (f := id) hfind
    have hcontainer := cancelFound_erase book hside hclient hsession
    refine ⟨found, _, ⟨⟨hclient, hsession⟩, ⟨front, back, hsplit, ?_, ?_⟩, ?_⟩, heq⟩
    · intro ahead hahead hsame
      exact absurd (sameClientOrder_iff.mpr hsame) (by simp [hfront ahead hahead])
    · rw [hcontainer, if_pos rfl, herase]
    · intro other hother
      rw [hcontainer, if_neg hother]
  · exact absurd names (sided.find_none_iff.mp hnone)

end OrderBook

namespace CentralOrderBook

/-- `next` has this book for the security, the report behind the others in its ring, and every
other book and ring as before. -/
structure Leaves (central next : CentralOrderBook γ) (securityId : Nat) (book : OrderBook γ)
    (report : OutgoingMessage γ) : Prop where
  book : next.book securityId = book
  otherBooks : ∀ other ≠ securityId, next.book other = central.book other
  ring : next.outgoingMessages (central.queueID securityId) =
    central.outgoingMessages (central.queueID securityId) ++ [report]
  otherRings : ∀ other ≠ central.queueID securityId,
    next.outgoingMessages other = central.outgoingMessages other

theorem leaves_push (central : CentralOrderBook γ) (securityId : Nat) (book : OrderBook γ)
    (report : OutgoingMessage γ) :
    central.Leaves ((central.setBook securityId book).push securityId [report]) securityId book
      report where
  book := by rw [book_push, book_setBook, if_pos rfl]
  otherBooks := by
    intro other hother
    rw [book_push, book_setBook, if_neg hother]
  ring := Function.update_self _ _ _
  otherRings := fun other hother => Function.update_of_ne hother _ _

/-- A cancel removes the first order of its side under the client order id and the session and
reports its quantities, or, without such an order, is rejected and changes no book. -/
theorem taskCancelOrder_frame (central : CentralOrderBook γ) (order : Order γ)
    (origClientOrderID : Bytes) (sided : (central.book order.securityId).Sided) :
    ((central.book order.securityId).Names origClientOrderID order.sessionId order.side →
      ∃ found next,
        (central.book order.securityId).RemovesFirst next origClientOrderID order.sessionId
          order.side found ∧
        central.Leaves (central.taskCancelOrder order origClientOrderID) order.securityId next
          (.new found.cancel .canceled) ∧
        (OutgoingMessage.new found.cancel .canceled).order.account = found.account) ∧
    (¬ (central.book order.securityId).Names origClientOrderID order.sessionId order.side →
      central.Leaves (central.taskCancelOrder order origClientOrderID) order.securityId
        (central.book order.securityId) (.new order .rejected)) := by
  constructor
  · intro names
    obtain ⟨found, next, hremoves, heq⟩ := OrderBook.cancelOrder_removesFirst sided names
    refine ⟨found, next, hremoves, ?_, rfl⟩
    rw [taskCancelOrder, heq]
    exact leaves_push central order.securityId next _
  · intro unnamed
    have hnone := sided.find_none_iff.mpr unnamed
    rw [taskCancelOrder, OrderBook.cancelOrder, hnone]
    exact leaves_push central order.securityId _ _

/-- Two bids of one session under one client order id, one of another session between them. -/
def repeatedIds : CentralOrderBook Unit :=
  ({} : CentralOrderBook Unit).setBook 0
    { bidOrders :=
        [.new 1 (ascii "A") 0 7 .buy .limit 12 5 (), .new 2 (ascii "A") 0 8 .buy .limit 10 5 (),
          .new 3 (ascii "A") 0 8 .buy .limit 10 4 ()]
      askOrders := [.new 4 (ascii "A") 0 8 .sell .limit 13 5 ()] }

/-- The request of session 8 removes the second bid. -/
theorem taskCancelOrder_frame_repeatedIds :
    ∃ found next,
      (repeatedIds.book 0).RemovesFirst next (ascii "A") 8 .buy found ∧
      repeatedIds.Leaves
        (repeatedIds.taskCancelOrder (.new 0 (ascii "B") 0 8 .buy .limit 0 0 ()) (ascii "A")) 0 next
        (.new found.cancel .canceled) ∧
      (OutgoingMessage.new found.cancel .canceled).order.account = found.account :=
  (taskCancelOrder_frame repeatedIds (.new 0 (ascii "B") 0 8 .buy .limit 0 0 ()) (ascii "A")
    ⟨by decide, by decide⟩).1 ⟨.new 2 (ascii "A") 0 8 .buy .limit 10 5 (), by decide, by decide⟩

end CentralOrderBook

end LiteExchange.OrderMatcher
