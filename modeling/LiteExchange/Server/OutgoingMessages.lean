import LiteExchange.Fix.Reactor
import LiteExchange.Foundation.Decimal
import LiteExchange.OrderMatcher.Order
import LiteExchange.OrderMatcher.SecurityManager

/-!
# Reject messages and execution reports

Source: server_outgoing_message_processor.cpp. Both are sent to the session that stands
in the slot of the order, whoever it is, and are dropped where the slot has no session.
`getSecurityName` throws on an unknown id.
-/

namespace LiteExchange.Server

open Foundation.Ascii OrderMatcher
open LiteExchange.Fix LiteExchange.Fix.FixConstants

variable {γ : Type}

/-- `std::to_string` of a `double`: six digits behind the point, ties to even. -/
def doubleText (value : ℚ) : Bytes :=
  let scaled : ℚ := |value| * 10 ^ 6
  let floor : Int := scaled.floor
  let rest : ℚ := scaled - (floor : ℚ)
  let millionths := (if rest > 1 / 2 ∨ rest = 1 / 2 ∧ floor % 2 = 1 then floor + 1
    else floor).toNat
  (if value < 0 then [45] else []) ++ natText (millionths / 10 ^ 6) ++
    46 :: FixMessage.padLeft (natText (millionths % 10 ^ 6)) 6 48

namespace FixMessageConverter

/-- The underlying value of the enumerator. -/
def convertOrderStatusToFixOrderStatus : OrderStatus → Int
  | .accepted => 0
  | .partiallyFilled => 1
  | .filled => 2
  | .doneForDay => 3
  | .canceled => 4
  | .replaced => 5
  | .pendingCancel => 6
  | .stopped => 7
  | .rejected => 8

end FixMessageConverter

/-- A business level reject. -/
def rejectMessage (compId : Bytes) (session : FixSession) (rejectionMessage : Bytes) :
    FixMessage :=
  (((session.getBaseMessage compId .businessReject).setTag fixTagOrderStatus
    (intText fixOrderStatusRejected)).setTag fixTagExecType
      (intText fixOrderStatusRejected)).setTag fixTagFreeText rejectionMessage

def rejectOrder (reactor : FixServerReactor) (sessionId : Nat) (rejectionMessage : Bytes)
    (currentUTCDateTime : Bytes) : FixServerReactor :=
  match reactor.getSession sessionId with
  | some session =>
    reactor.setSession sessionId
      (session.send (rejectMessage reactor.compId session rejectionMessage) currentUTCDateTime)
  | none => reactor

/-- The execution report of an order, with its tags in the order of the source. -/
def executionReport (compId : Bytes) (session : FixSession) (order : Order γ) (execID : Nat)
    (securityName : Bytes) : FixMessage :=
  let orderStatus := FixMessageConverter.convertOrderStatusToFixOrderStatus order.orderStatus
  let executionType := FixMessageConverter.convertOrderStatusToFixOrderStatus order.lastExecution
  let side := if order.side = .buy then fixOrderSideBuy else fixOrderSideSell
  let report := (session.getExecutionReportMessage compId).setTags
    [(fixTagOrderSide, intText side), (fixTagClientOrderId, order.clientOrderID),
      (fixTagOrderId, order.clientOrderID), (fixTagExecId, natText execID),
      (fixTagOrderStatus, intText orderStatus), (fixTagExecType, intText executionType),
      (fixTagOrderQuantity, intText order.quantity),
      (fixTagLeavesQty, intText order.openQuantity),
      (fixTagCumulativeQuantity, intText order.executedQuantity),
      (fixTagAveragePrice, doubleText order.averageExecutedPrice), (fixTagSymbol, securityName)]
  let report := if orderStatus = fixOrderStatusFilled ∨ orderStatus = fixOrderStatusPartiallyFilled
    then report.setTags [(fixTagLastQuantity, intText order.lastExecutedQuantity),
      (fixTagLastPrice, doubleText order.lastExecutedPrice)]
    else report
  if report.fixVersion = .fix42 then report.setTag fixTagExecTranstype (intText 0) else report

/-- What the processor does with a popped message and the session it has found for it; the
second part is the last execution id. `none` is the exception of `getSecurityName`. -/
def sendReport (reactor : FixServerReactor) (manager : SecurityManager) (execID : Nat)
    (message : OutgoingMessage γ) (session : FixSession) (currentUTCDateTime : Bytes) :
    Option (FixServerReactor × Nat) :=
  (manager.getSecurityName message.order.securityId).map fun securityName =>
    let report := executionReport reactor.compId session message.order (execID + 1) securityName
    (reactor.setSession message.order.sessionId (session.send report currentUTCDateTime),
      execID + 1)

end LiteExchange.Server
