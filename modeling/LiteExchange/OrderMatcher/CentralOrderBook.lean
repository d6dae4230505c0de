import Mathlib.Data.BitVec
import LiteExchange.Foundation.Runs
import LiteExchange.OrderMatcher.Matching
import LiteExchange.OrderMatcher.SecurityManager

/-!
# The central order book

Source: central_order_book.h, central_order_book.cpp. `newOrder` and
`cancelOrder` are what the two tasks do with the book of their security and the
reports they push, in order; `taskNewOrder` and `taskCancelOrder` embed them in
the dictionaries. A ring of outgoing messages is the sequence pushed to it.
Reading `m_queueIDDictionary[securityId]` of an unknown id inserts the default
`0`, and reading `m_orderBookDictionary[securityId]` an empty book: the reads
below return these defaults. `m_orderNumber` is an `atomic<int>` and wraps; it
is converted to `size_t` when an order gets its id.
-/

namespace LiteExchange.OrderMatcher

open Foundation.Ascii Foundation.Runs

variable {γ : Type}

/-- The report of one processed order. -/
def fillReport (order : Order γ) : OutgoingMessage γ :=
  .new order (if order.isFilled then .filled else .partiallyFilled)

namespace OrderBook

/-- `taskNewOrder` on the book of the security: insert, match, report the fills. -/
def newOrder (book : OrderBook γ) (order : Order γ) :
    Option (OrderBook γ × List (OutgoingMessage γ)) :=
  ((book.insert order).processMatching []).map
    fun (next, processedOrders, _) => (next, processedOrders.map fillReport)

/-- `taskCancelOrder` on the book of the security. -/
def cancelOrder (book : OrderBook γ) (order : Order γ) (origClientOrderID : Bytes) :
    OrderBook γ × List (OutgoingMessage γ) :=
  match book.find origClientOrderID order.sessionId order.side with
  | some found =>
    let orderBeingCanceled := found.cancel
    ((book.cancelFound origClientOrderID order.sessionId order.side).erase orderBeingCanceled,
      [.new orderBeingCanceled .canceled])
  | none => (book, [.new order .rejected])

end OrderBook

/-- A task of the thread pool, or a call of the central order book. -/
inductive Task (γ : Type) where
  | newOrder (order : Order γ)
  | cancelOrder (order : Order γ) (origClientOrderID : Bytes)
  deriving DecidableEq, Repr

namespace Task

def order : Task γ → Order γ
  | newOrder order => order
  | cancelOrder order _ => order

def securityId (task : Task γ) : Nat := task.order.securityId

def isNewOrder : Task γ → Bool
  | newOrder _ => true
  | cancelOrder _ _ => false

end Task

/-- The number of new orders among the tasks. -/
def arrivalsOf (tasks : List (Task γ)) : Nat := tasks.countP Task.isNewOrder

def OrderBook.runTask (book : OrderBook γ) :
    Task γ → Option (OrderBook γ × List (OutgoingMessage γ))
  | .newOrder order => book.newOrder order
  | .cancelOrder order origClientOrderID => some (book.cancelOrder order origClientOrderID)

/-- An `int` as the `size_t` of an order id. -/
def orderIdOf (orderNumber : BitVec 32) : Nat := (orderNumber.signExtend 64).toNat

structure CentralOrderBook (γ : Type) where
  isMatchingMultithreaded : Bool := false
  orderNumber : BitVec 32 := 0
  orderBookDictionary : Nat → Option (OrderBook γ) := fun _ => none
  queueIDDictionary : Nat → Option Nat := fun _ => none
  securityIds : List Nat := []
  outgoingMessages : Nat → List (OutgoingMessage γ) := fun _ => []

namespace CentralOrderBook

/-- `m_queueIDDictionary[securityId]`. -/
def queueID (central : CentralOrderBook γ) (securityId : Nat) : Nat :=
  (central.queueIDDictionary securityId).getD 0

/-- `m_orderBookDictionary[securityId]`. -/
def book (central : CentralOrderBook γ) (securityId : Nat) : OrderBook γ :=
  (central.orderBookDictionary securityId).getD {}

def setBook (central : CentralOrderBook γ) (securityId : Nat) (book : OrderBook γ) :
    CentralOrderBook γ :=
  { central with
    orderBookDictionary := Function.update central.orderBookDictionary securityId (some book) }

/-- Push messages to the ring of a security, one after the other. -/
def push (central : CentralOrderBook γ) (securityId : Nat) (messages : List (OutgoingMessage γ)) :
    CentralOrderBook γ :=
  { central with
    outgoingMessages := Function.update central.outgoingMessages (central.queueID securityId)
      (central.outgoingMessages (central.queueID securityId) ++ messages) }

/-- The loop of `setSymbols`; `queueID` is the value after the increment. -/
def setSymbolsFrom (queueID : Nat) : List Bytes → CentralOrderBook γ × SecurityManager →
    CentralOrderBook γ × SecurityManager
  | [], result => result
  | symbol :: symbols, (central, manager) =>
    let (manager, currentSecurityId) := manager.addSecurity symbol
    setSymbolsFrom (queueID + 1) symbols
      ({ central with
          securityIds := central.securityIds ++ [currentSecurityId]
          queueIDDictionary := insertNew central.queueIDDictionary currentSecurityId queueID },
        manager)

def setSymbols (central : CentralOrderBook γ) (manager : SecurityManager) (symbols : List Bytes) :
    CentralOrderBook γ × SecurityManager :=
  setSymbolsFrom 0 symbols (central, manager)

/-- An empty book for every configured security. -/
def initialiseMultithreadedMatching (central : CentralOrderBook γ) : CentralOrderBook γ :=
  { central with
    isMatchingMultithreaded := true
    orderBookDictionary := central.securityIds.foldl
      (fun dictionary securityId => insertNew dictionary securityId {}) central.orderBookDictionary }

/-- The books and the manager that `ServerBase` sets up for its configuration. -/
def configured (symbols : List Bytes) (multithreaded : Bool) :
    CentralOrderBook γ × SecurityManager :=
  let (central, manager) := setSymbols {} {} symbols
  (if multithreaded then central.initialiseMultithreadedMatching else central, manager)

/-- `++m_orderNumber`, as the `size_t` of the order id. -/
def nextOrderId (central : CentralOrderBook γ) : Nat := orderIdOf (central.orderNumber + 1)

/-- The first half of `addOrder`: number the order and push its ACCEPTED report. -/
def acceptOrder (central : CentralOrderBook γ) (order : Order γ) :
    CentralOrderBook γ × Order γ :=
  let order := order.setOrderId central.nextOrderId
  (({ central with orderNumber := central.orderNumber + 1 } : CentralOrderBook γ).push
    order.securityId [.new order .accepted], order)

def taskNewOrder (central : CentralOrderBook γ) (order : Order γ) : Option (CentralOrderBook γ) :=
  ((central.book order.securityId).newOrder order).map fun (book, reports) =>
    (central.setBook order.securityId book).push order.securityId reports

def taskCancelOrder (central : CentralOrderBook γ) (order : Order γ) (origClientOrderID : Bytes) :
    CentralOrderBook γ :=
  let (book, reports) := (central.book order.securityId).cancelOrder order origClientOrderID
  (central.setBook order.securityId book).push order.securityId reports

def runTask (central : CentralOrderBook γ) : Task γ → Option (CentralOrderBook γ)
  | .newOrder order => central.taskNewOrder order
  | .cancelOrder order origClientOrderID => some (central.taskCancelOrder order origClientOrderID)

/-- `addOrder` in single-threaded mode. -/
def addOrder (central : CentralOrderBook γ) (order : Order γ) : Option (CentralOrderBook γ) :=
  let (central, order) := central.acceptOrder order
  central.taskNewOrder order

/-- `cancelOrder` in single-threaded mode. -/
def cancelOrder (central : CentralOrderBook γ) (order : Order γ) (origClientOrderID : Bytes) :
    CentralOrderBook γ :=
  central.taskCancelOrder order origClientOrderID

/-- A call of `addOrder` or `cancelOrder` in single-threaded mode. -/
def call (central : CentralOrderBook γ) : Task γ → Option (CentralOrderBook γ)
  | .newOrder order => central.addOrder order
  | .cancelOrder order origClientOrderID => some (central.cancelOrder order origClientOrderID)

end CentralOrderBook

end LiteExchange.OrderMatcher
