import LiteExchange.OrderMatcher.CancelFrame
import LiteExchange.Server.Answers

/-!
# The side of an admitted order

The converter sets the side for two values of tag 54 and leaves the member as the stack slot held
it for all others, the handler does not look at it, and `OrderBook::insert` puts every order that
is not a BUY among the asks.
-/

namespace LiteExchange.Server

open Foundation.Ascii Foundation.Results OrderMatcher
open LiteExchange.Fix LiteExchange.Fix.FixConstants

variable {γ : Type}

/-- Under some id and in some book, the insert of the order changes the container. -/
def Reaches (order : Order γ) (container : OrderSide) : Prop :=
  ∃ (book : OrderBook γ) (orderID : Nat),
    (book.insert (order.setOrderId orderID)).container container ≠ book.container container

/-- The reactor thread returns from the message with a reject to its sender, and the central
order book with its threads is as it was. -/
def RejectedToSender (server : ServerFix) (message : FixMessage) (sessionId : Nat)
    (memory : Indeterminate Unit) : Prop :=
  ∃ next text, server.step (.onFixMessage message sessionId memory) = some next ∧
    next.rejected = server.rejected ++ [(sessionId, text)] ∧ next.system = server.system

/-- Tag 54 decides the container of the order that the message becomes, and a message with
another value does not become an order. -/
structure SideObeyed (server : ServerFix) (message : FixMessage) (sessionId : Nat)
    (memory : Indeterminate Unit) : Prop where
  bids : ∀ order, onFixMessage server.manager message sessionId (withOrigin memory message) =
    .ok (.call (.newOrder order)) → Reaches order .buy →
      message.getTagValueAsInt fixTagOrderSide = .ok fixOrderSideBuy
  asks : ∀ order, onFixMessage server.manager message sessionId (withOrigin memory message) =
    .ok (.call (.newOrder order)) → Reaches order .sell →
      message.getTagValueAsInt fixTagOrderSide = .ok fixOrderSideSell
  others : message.getTagValueAsInt fixTagOrderSide ≠ .ok fixOrderSideBuy →
    message.getTagValueAsInt fixTagOrderSide ≠ .ok fixOrderSideSell →
      RejectedToSender server message sessionId memory

/-- The side of the order that a handler submits. -/
def Handling.side : Handling γ → Option OrderSide
  | .call (.newOrder order) => some order.side
  | _ => none

/-! ## The insert -/

/-- An order reaches the container that its side selects: `buy` the bids, all else the asks. -/
theorem reaches_iff (order : Order γ) (container : OrderSide) :
    Reaches order container ↔
      (container = .buy ∧ order.side = .buy) ∨ (container = .sell ∧ order.side ≠ .buy) := by
  have hgrows : ∀ (before after : List (Order γ)), after.length = before.length + 1 →
      after ≠ before := by
    rintro before after hlength rfl
    omega
  constructor
  · rintro ⟨book, orderID, hchanged⟩
    have hside : (order.setOrderId orderID).side = order.side := rfl
    unfold OrderBook.insert at hchanged
    rw [hside] at hchanged
    split at hchanged
    · rename_i hbuy
      cases container with
      | buy => exact Or.inl ⟨rfl, hbuy⟩
      | _ => exact absurd rfl hchanged
    · rename_i hother
      cases container with
      | sell => exact Or.inr ⟨rfl, hother⟩
      | _ => exact absurd rfl hchanged
  · have hside : (order.setOrderId 0).side = order.side := rfl
    rintro (⟨rfl, hbuy⟩ | ⟨rfl, hother⟩)
    · refine ⟨{}, 0, hgrows _ _ ?_⟩
      rw [OrderBook.insert, hside, if_pos hbuy]
      exact List.orderedInsert_length _ _ _
    · refine ⟨{}, 0, hgrows _ _ ?_⟩
      rw [OrderBook.insert, hside, if_neg hother]
      exact List.orderedInsert_length _ _ _

section Orders

variable {server : ServerFix} {message : FixMessage} {sessionId : Nat}
  {memory : Indeterminate Unit}

theorem onFixMessage_newOrder (htype : message.messageType = .newOrder)
    (manager : SecurityManager) (memory : Indeterminate γ) :
    onFixMessage manager message sessionId memory =
      onNewOrder manager message sessionId memory := by
  rw [onFixMessage, htype]

theorem submits_of_side {handled : Except ConversionError (Handling γ)} {side : OrderSide}
    (h : handled.map Handling.side = .ok (some side)) :
    ∃ order, handled = .ok (.call (.newOrder order)) ∧ order.side = side := by
  cases handled with
  | error thrown => cases h
  | ok handling =>
    have hsome : handling.side = some side := Except.ok.inj h
    unfold Handling.side at hsome
    split at hsome
    · rename_i order
      exact ⟨order, rfl, Option.some.inj hsome⟩
    · cases hsome

/-- A step ends with a reject where the handler does. -/
theorem rejectedToSender_iff (hidle : server.system.submitting = none) :
    RejectedToSender server message sessionId memory ↔
      ∃ text, onFixMessage server.manager message sessionId (withOrigin memory message) =
        .ok (.rejectOrder text) := by
  have hnone : server.system.submitting.isNone = true := by rw [hidle]; rfl
  unfold RejectedToSender
  simp only [ServerFix.step, hnone, if_true]
  constructor
  · rintro ⟨next, text, hstep, hrejected, -⟩
    split at hstep
    · rename_i text hhandling
      exact ⟨text, hhandling⟩
    · -- a call leaves the rejects as they are
      obtain ⟨system, -, rfl⟩ := Option.map_eq_some_iff.mp hstep
      exact absurd (List.self_eq_append_right.mp hrejected) (List.cons_ne_nil _ _)
    · cases hstep
  · rintro ⟨text, hhandling⟩
    rw [hhandling]
    exact ⟨_, text, rfl, rfl, rfl⟩

/-- A NEW_ORDER message is rejected where it can be read and asks for something unsupported. -/
theorem newOrder_rejected_iff (sessionId : Nat) (memory : Indeterminate Unit)
    (hidle : server.system.submitting = none) (htype : message.messageType = .newOrder) :
    RejectedToSender server message sessionId memory ↔
      OrderReadable server.manager message ∧ ¬ Supported server.manager message := by
  rw [rejectedToSender_iff hidle, onFixMessage_newOrder htype,
    ← onNewOrder_isOk sessionId (withOrigin memory message), isOk_iff]
  constructor
  · rintro ⟨text, hhandling⟩
    refine ⟨⟨_, hhandling⟩, ?_⟩
    rcases onNewOrder_supported hhandling with ⟨-, order, hcall⟩ | ⟨hunsupported, -⟩
    · cases hcall
    · exact hunsupported
  · rintro ⟨⟨handling, hhandling⟩, hunsupported⟩
    rcases onNewOrder_supported hhandling with ⟨hsupported, -⟩ | ⟨-, text, rfl⟩
    · exact absurd hsupported hunsupported
    · exact ⟨text, hhandling⟩

/-- The order of a message has the side of tag 54, or what the member held. -/
theorem newOrder_side (htype : message.messageType = .newOrder) {order : Order FixMessage}
    (h : onFixMessage server.manager message sessionId (withOrigin memory message) =
      .ok (.call (.newOrder order))) :
    ∃ side, message.getTagValueAsInt fixTagOrderSide = .ok side ∧
      order.side = sideOf side memory.side := by
  rw [onFixMessage_newOrder htype] at h
  rcases onNewOrder_cases h with ⟨text, hreject⟩ |
    ⟨securityId, side, quantity, price, -, -, hside, -, -, hcall⟩
  · cases hreject
  · cases hcall
    exact ⟨side, hside, rfl⟩

end Orders

/-- Tag 54 of a NEW_ORDER message is obeyed exactly where it is 1 or 2, and where the message
is rejected for another reason. -/
theorem order_side_obeyed_iff (server : ServerFix) (message : FixMessage) (sessionId : Nat)
    (memory : Indeterminate Unit) (hidle : server.system.submitting = none)
    (htype : message.messageType = .newOrder) :
    SideObeyed server message sessionId memory ↔
      (message.getTagValueAsInt fixTagOrderSide = .ok fixOrderSideBuy ∨
        message.getTagValueAsInt fixTagOrderSide = .ok fixOrderSideSell) ∨
      (OrderReadable server.manager message ∧ ¬ Supported server.manager message) := by
  rw [← newOrder_rejected_iff sessionId memory hidle htype]
  constructor
  · intro hobeyed
    by_cases hknown : message.getTagValueAsInt fixTagOrderSide = .ok fixOrderSideBuy ∨
        message.getTagValueAsInt fixTagOrderSide = .ok fixOrderSideSell
    · exact Or.inl hknown
    · rw [not_or] at hknown
      exact Or.inr (hobeyed.others hknown.1 hknown.2)
  · rintro ((hbuy | hsell) | hrejected)
    · refine ⟨fun _ _ _ => hbuy, fun order hcall hreaches => ?_, fun hother => absurd hbuy hother⟩
      obtain ⟨side, hside, horder⟩ := newOrder_side htype hcall
      rw [hbuy, Except.ok.injEq] at hside
      rw [reaches_iff, horder, sideOf, if_pos hside.symm] at hreaches
      simp at hreaches
    · refine ⟨fun order hcall hreaches => ?_, fun _ _ _ => hsell,
        fun _ hother => absurd hsell hother⟩
      obtain ⟨side, hside, horder⟩ := newOrder_side htype hcall
      rw [hsell, Except.ok.injEq] at hside
      subst hside
      rw [reaches_iff, horder] at hreaches
      simp [sideOf, fixOrderSideBuy, fixOrderSideSell] at hreaches
    · obtain ⟨text, hreject⟩ := (rejectedToSender_iff hidle).mp hrejected
      have hnocall : ∀ order, onFixMessage server.manager message sessionId
          (withOrigin memory message) ≠ .ok (.call (.newOrder order)) := by
        intro order hcall
        rw [hreject] at hcall
        cases hcall
      exact ⟨fun order hcall => absurd hcall (hnocall order),
        fun order hcall => absurd hcall (hnocall order), fun _ _ => hrejected⟩

/-- A BUY order is obeyed. -/
theorem order_side_obeyed_iff_buy :
    SideObeyed (ServerFix.configured [ascii "MSFT"] false) (newOrderMessage "1" "5" "10") 0
      clearedMemory :=
  (order_side_obeyed_iff _ _ _ _ rfl rfl).mpr (Or.inl (Or.inl (by decide +kernel)))

/-- Side 3 (BUY MINUS) on a stack slot that held a BUY: the order is accepted as a bid. -/
theorem order_side_not_obeyed :
    ¬ ∀ (server : ServerFix) (message : FixMessage) (sessionId : Nat)
        (memory : Indeterminate Unit), server.system.submitting = none →
        message.messageType = .newOrder → SideObeyed server message sessionId memory := by
  intro h
  have hside : (newOrderMessage "3" "5" "10").getTagValueAsInt fixTagOrderSide = .ok 3 := by
    decide +kernel
  have hbid : (onFixMessage (ServerFix.configured [ascii "MSFT"] false).manager
      (newOrderMessage "3" "5" "10") 0 (withOrigin { clearedMemory with side := .buy }
        (newOrderMessage "3" "5" "10"))).map Handling.side = .ok (some .buy) := by
    decide +kernel
  have hobeyed := h (ServerFix.configured [ascii "MSFT"] false) (newOrderMessage "3" "5" "10") 0
    { clearedMemory with side := .buy } rfl rfl
  obtain ⟨order, hcall, hbuy⟩ := submits_of_side hbid
  have hone := hobeyed.bids order hcall ((reaches_iff order .buy).mpr (Or.inl ⟨rfl, hbuy⟩))
  rw [hside, Except.ok.injEq] at hone
  exact absurd hone (by decide)

end LiteExchange.Server
