import Mathlib.Algebra.Order.Field.Rat
import LiteExchange.Foundation.Ascii

/-!
# Orders and the reports pushed for them

Source: order.h, order.cpp, outgoing_message.h. A quantity is an integer that
`long` holds: sums and differences of quantities wrap at 64 bits, as they do on the
machine where the source leaves it undefined. Prices are `double` in the source and
exact rationals here, so the average is the one of exact arithmetic, and 0 where the
source divides by zero. The members that the default constructor leaves
indeterminate are the fields of `Indeterminate`.
`origin` is not in the source: it records where an order came from, and no
modelled function reads it.
-/

namespace LiteExchange.OrderMatcher

open Foundation.Ascii

/-- What a `long` holds of a value. -/
def long (value : Int) : Int := (2 ^ 63 + value) % 2 ^ 64 - 2 ^ 63

/-- The values of a `long`. -/
def IsLong (value : Int) : Prop := -2 ^ 63 ≤ value ∧ value ≤ 2 ^ 63 - 1

instance (value : Int) : Decidable (IsLong value) := inferInstanceAs (Decidable (_ ∧ _))

theorem isLong_long (value : Int) : IsLong (long value) := by
  unfold IsLong long
  omega

theorem long_of_isLong {value : Int} (h : IsLong value) : long value = value := by
  unfold IsLong at h
  unfold long
  omega

theorem isLong_zero : IsLong 0 := by
  unfold IsLong
  omega

inductive OrderSide where
  | nonSupported | buy | sell
  deriving DecidableEq, Repr

inductive OrderType where
  | nonSupported | limit
  deriving DecidableEq, Repr

inductive OrderStatus where
  | accepted | partiallyFilled | filled | doneForDay | canceled | replaced | pendingCancel
  | stopped | rejected
  deriving DecidableEq, Repr

structure Order (γ : Type) where
  orderID : Nat
  clientOrderID : Bytes
  securityId : Nat
  sessionId : Nat
  side : OrderSide
  orderType : OrderType
  price : ℚ
  quantity : Int
  openQuantity : Int
  executedQuantity : Int
  cancelled : Bool
  averageExecutedPrice : ℚ
  lastExecutedPrice : ℚ
  lastExecutedQuantity : Int
  orderStatus : OrderStatus
  lastExecution : OrderStatus
  origin : γ
  deriving DecidableEq, Repr

/-- What the members hold that `Order::Order()` does not initialise. -/
structure Indeterminate (γ : Type) where
  orderID : Nat
  securityId : Nat
  sessionId : Nat
  side : OrderSide
  orderType : OrderType
  cancelled : Bool
  origin : γ
  deriving DecidableEq, Repr

/-- An outgoing message carries a snapshot of its order. -/
structure OutgoingMessage (γ : Type) where
  order : Order γ
  deriving DecidableEq, Repr

variable {γ : Type}

namespace Order

/-- `Order::Order()`. -/
def default (memory : Indeterminate γ) : Order γ where
  orderID := memory.orderID
  clientOrderID := []
  securityId := memory.securityId
  sessionId := memory.sessionId
  side := memory.side
  orderType := memory.orderType
  price := 0
  quantity := 0
  openQuantity := 0
  executedQuantity := 0
  cancelled := memory.cancelled
  averageExecutedPrice := 0
  lastExecutedPrice := 0
  lastExecutedQuantity := 0
  orderStatus := .accepted
  lastExecution := .accepted
  origin := memory.origin

/-- `Order::Order(orderId, clientOrderID, ..., quantity)`. -/
def new (orderID : Nat) (clientOrderID : Bytes) (securityId sessionId : Nat) (side : OrderSide)
    (orderType : OrderType) (price : ℚ) (quantity : Int) (origin : γ) : Order γ where
  orderID := orderID
  clientOrderID := clientOrderID
  securityId := securityId
  sessionId := sessionId
  side := side
  orderType := orderType
  price := price
  quantity := quantity
  openQuantity := quantity
  executedQuantity := 0
  cancelled := false
  averageExecutedPrice := 0
  lastExecutedPrice := 0
  lastExecutedQuantity := 0
  orderStatus := .accepted
  lastExecution := .accepted
  origin := origin

def execute (order : Order γ) (price : ℚ) (quantity : Int) : Order γ :=
  { order with
    averageExecutedPrice :=
      (order.averageExecutedPrice * order.executedQuantity + price * quantity) /
        long (quantity + order.executedQuantity)
    openQuantity := long (order.openQuantity - quantity)
    executedQuantity := long (order.executedQuantity + quantity)
    lastExecutedPrice := price
    lastExecutedQuantity := quantity }

def cancel (order : Order γ) : Order γ := { order with cancelled := true }

def isFilled (order : Order γ) : Bool := order.executedQuantity == order.quantity

def setOrderId (order : Order γ) (id : Nat) : Order γ := { order with orderID := id }

def setQuantity (order : Order γ) (quantity : Int) : Order γ :=
  { order with quantity := quantity, openQuantity := quantity }

def setPrice (order : Order γ) (price : ℚ) : Order γ := { order with price := price }

def setClientOrderId (order : Order γ) (clientOrderId : Bytes) : Order γ :=
  { order with clientOrderID := clientOrderId }

def setSessionId (order : Order γ) (sessionId : Nat) : Order γ :=
  { order with sessionId := sessionId }

def setOrderType (order : Order γ) (orderType : OrderType) : Order γ :=
  { order with orderType := orderType }

def setOrderSide (order : Order γ) (side : OrderSide) : Order γ := { order with side := side }

def setSecurityId (order : Order γ) (securityId : Nat) : Order γ :=
  { order with securityId := securityId }

/-- The accounting identity every constructor establishes, in `long` arithmetic. -/
structure Balanced (order : Order γ) : Prop where
  openQuantity : IsLong order.openQuantity
  executedQuantity : IsLong order.executedQuantity
  sum : long (order.openQuantity + order.executedQuantity) = order.quantity

instance (order : Order γ) : Decidable order.Balanced :=
  decidable_of_iff (IsLong order.openQuantity ∧ IsLong order.executedQuantity ∧
      long (order.openQuantity + order.executedQuantity) = order.quantity)
    ⟨fun h => ⟨h.1, h.2.1, h.2.2⟩, fun h => ⟨h.openQuantity, h.executedQuantity, h.sum⟩⟩

/-- An order as the constructors and the setters leave it, before any execution. -/
structure Fresh (order : Order γ) : Prop where
  openQuantity : order.openQuantity = order.quantity
  executedQuantity : order.executedQuantity = 0
  quantity : IsLong order.quantity

theorem Fresh.sum {order : Order γ} (fresh : order.Fresh) :
    order.openQuantity + order.executedQuantity = order.quantity := by
  rw [fresh.openQuantity, fresh.executedQuantity, Int.add_zero]

theorem Fresh.balanced {order : Order γ} (fresh : order.Fresh) : order.Balanced where
  openQuantity := by
    rw [fresh.openQuantity]
    exact fresh.quantity
  executedQuantity := by
    rw [fresh.executedQuantity]
    exact isLong_zero
  sum := by
    rw [fresh.sum]
    exact long_of_isLong fresh.quantity

theorem new_fresh (orderID : Nat) (clientOrderID : Bytes) (securityId sessionId : Nat)
    (side : OrderSide) (orderType : OrderType) (price : ℚ) {quantity : Int}
    (fits : IsLong quantity) (origin : γ) :
    (new orderID clientOrderID securityId sessionId side orderType price quantity origin).Fresh :=
  ⟨rfl, rfl, fits⟩

theorem Fresh.setOrderId {order : Order γ} (fresh : order.Fresh) (id : Nat) :
    (order.setOrderId id).Fresh :=
  ⟨fresh.openQuantity, fresh.executedQuantity, fresh.quantity⟩

theorem Balanced.setOrderId {order : Order γ} (balanced : order.Balanced) (id : Nat) :
    (order.setOrderId id).Balanced :=
  ⟨balanced.openQuantity, balanced.executedQuantity, balanced.sum⟩

theorem Balanced.cancel {order : Order γ} (balanced : order.Balanced) : order.cancel.Balanced :=
  ⟨balanced.openQuantity, balanced.executedQuantity, balanced.sum⟩

/-- What is executed moves from the open to the executed quantity, whatever wraps. -/
theorem execute_balanced {order : Order γ} (balanced : order.Balanced) (price : ℚ)
    (quantity : Int) : (order.execute price quantity).Balanced where
  openQuantity := isLong_long _
  executedQuantity := isLong_long _
  sum := by
    have hsum := balanced.sum
    unfold long at hsum
    unfold execute long
    dsimp only
    omega

/-- Executing no more than is open does not wrap the open quantity. -/
theorem execute_openQuantity {order : Order γ} (fits : IsLong order.openQuantity) (price : ℚ)
    {quantity : Int} (nonneg : 0 ≤ quantity) (within : quantity ≤ order.openQuantity) :
    (order.execute price quantity).openQuantity = order.openQuantity - quantity := by
  apply long_of_isLong
  unfold IsLong at fits ⊢
  omega

theorem isFilled_iff {order : Order γ} (balanced : order.Balanced) :
    order.isFilled = true ↔ order.openQuantity = 0 := by
  obtain ⟨hopen, hexecuted, hsum⟩ := balanced
  unfold IsLong at hopen hexecuted
  unfold long at hsum
  simp only [isFilled, beq_iff_eq]
  omega

/-- The last execution wrapped neither quantity. -/
structure Unwrapped (order : Order γ) : Prop where
  openQuantity : IsLong (order.openQuantity + order.lastExecutedQuantity)
  executedQuantity : IsLong (order.executedQuantity - order.lastExecutedQuantity)

instance (order : Order γ) : Decidable order.Unwrapped :=
  decidable_of_iff (IsLong (order.openQuantity + order.lastExecutedQuantity) ∧
      IsLong (order.executedQuantity - order.lastExecutedQuantity))
    ⟨fun h => ⟨h.1, h.2⟩, fun h => ⟨h.openQuantity, h.executedQuantity⟩⟩

/-- Read off the order afterwards: the difference and the sum are values of a `long`. -/
theorem execute_unwrapped_iff {order : Order γ} (balanced : order.Balanced) (price : ℚ)
    (quantity : Int) :
    (order.execute price quantity).Unwrapped ↔
      IsLong (order.openQuantity - quantity) ∧ IsLong (order.executedQuantity + quantity) := by
  obtain ⟨hopen, hexecuted, -⟩ := balanced
  constructor
  · rintro ⟨hopenBefore, hexecutedBefore⟩
    simp only [execute, IsLong, long] at *
    omega
  · rintro ⟨hopenAfter, hexecutedAfter⟩
    constructor
    · simp only [execute, long_of_isLong hopenAfter, Int.sub_add_cancel]
      exact hopen
    · simp only [execute, long_of_isLong hexecutedAfter, Int.add_sub_cancel]
      exact hexecuted

/-- The quantities add up as integers, and none of them is negative. -/
structure Counted (order : Order γ) : Prop where
  quantity : IsLong order.quantity
  openQuantity : 0 ≤ order.openQuantity
  executedQuantity : 0 ≤ order.executedQuantity
  sum : order.openQuantity + order.executedQuantity = order.quantity

theorem Fresh.counted {order : Order γ} (fresh : order.Fresh) (nonneg : 0 ≤ order.quantity) :
    order.Counted where
  quantity := fresh.quantity
  openQuantity := by
    rw [fresh.openQuantity]
    exact nonneg
  executedQuantity := by rw [fresh.executedQuantity]
  sum := fresh.sum

theorem Counted.balanced {order : Order γ} (counted : order.Counted) : order.Balanced := by
  obtain ⟨hquantity, hopen, hexecuted, hsum⟩ := counted
  unfold IsLong at hquantity
  refine ⟨?_, ?_, ?_⟩
  · unfold IsLong
    omega
  · unfold IsLong
    omega
  · rw [hsum]
    exact long_of_isLong hquantity

theorem Counted.cancel {order : Order γ} (counted : order.Counted) : order.cancel.Counted :=
  ⟨counted.quantity, counted.openQuantity, counted.executedQuantity, counted.sum⟩

/-- Executing no more than is open wraps nothing. -/
theorem Counted.fits {order : Order γ} (counted : order.Counted) {quantity : Int}
    (nonneg : 0 ≤ quantity) (within : quantity ≤ order.openQuantity) :
    IsLong (order.openQuantity - quantity) ∧ IsLong (order.executedQuantity + quantity) := by
  obtain ⟨hquantity, hopen, hexecuted, hsum⟩ := counted
  unfold IsLong at hquantity ⊢
  omega

theorem Counted.execute_quantities {order : Order γ} (counted : order.Counted) (price : ℚ)
    {quantity : Int} (nonneg : 0 ≤ quantity) (within : quantity ≤ order.openQuantity) :
    (order.execute price quantity).openQuantity = order.openQuantity - quantity ∧
      (order.execute price quantity).executedQuantity = order.executedQuantity + quantity := by
  obtain ⟨hopen, hexecuted⟩ := counted.fits nonneg within
  exact ⟨long_of_isLong hopen, long_of_isLong hexecuted⟩

theorem Counted.execute {order : Order γ} (counted : order.Counted) (price : ℚ) {quantity : Int}
    (nonneg : 0 ≤ quantity) (within : quantity ≤ order.openQuantity) :
    (order.execute price quantity).Counted := by
  obtain ⟨hopen, hexecuted⟩ := counted.execute_quantities price nonneg within
  obtain ⟨hquantity, hopenBefore, hexecutedBefore, hsum⟩ := counted
  have hsame : (order.execute price quantity).quantity = order.quantity := rfl
  refine ⟨hquantity, ?_, ?_, ?_⟩
  · rw [hopen]
    omega
  · rw [hexecuted]
    omega
  · rw [hopen, hexecuted, hsame]
    omega

end Order

namespace OutgoingMessage

/-- `OutgoingMessage(order, executionType)`: the snapshot's status and last
execution type are both the report's type. -/
def new (order : Order γ) (executionType : OrderStatus) : OutgoingMessage γ :=
  ⟨{ order with orderStatus := executionType, lastExecution := executionType }⟩

theorem balanced_new {order : Order γ} (balanced : order.Balanced) (executionType : OrderStatus) :
    (new order executionType).order.Balanced :=
  ⟨balanced.openQuantity, balanced.executedQuantity, balanced.sum⟩

/-- The type of the report. -/
abbrev status (message : OutgoingMessage γ) : OrderStatus := message.order.orderStatus

end OutgoingMessage

end LiteExchange.OrderMatcher
