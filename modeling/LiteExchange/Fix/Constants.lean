import LiteExchange.Foundation.Ascii

/-!
# FIX versions, message types and tags

Source: fix_constants.h, and `compare` of string_utility.h, which ignores case and
what follows a NUL. The tables map each enumerator to its text; the functions back
try the texts in the order of the source.
-/

namespace LiteExchange.Fix

open Foundation.Ascii

inductive FixVersion where
  | none | fix40 | fix41 | fix42 | fix43 | fix44 | fix50 | fix50sp1 | fix50sp2
  deriving DecidableEq, Repr

inductive MessageType where
  | none | logon | logoff | testRequest | resendRequest | adminReject | sequenceReset | heartbeat
  | userLogon | userResponse | newOrder | cancel | executionReport | businessReject
  deriving DecidableEq, Repr

namespace FixConstants

/-- `FIX_VERSION_STRINGS`. -/
def fixVersionString : FixVersion → Bytes
  | .none => ascii "NONE"
  | .fix40 => ascii "FIX.4.0"
  | .fix41 => ascii "FIX.4.1"
  | .fix42 => ascii "FIX.4.2"
  | .fix43 => ascii "FIX.4.3"
  | .fix44 => ascii "FIX.4.4"
  | .fix50 => ascii "FIX.5.0"
  | .fix50sp1 => ascii "FIX.5.0SP1"
  | .fix50sp2 => ascii "FIX.5.0SP2"

/-- `FIX_MESSAGE_TYPE_STRINGS`. -/
def fixMessageTypeString : MessageType → Bytes
  | .none => ascii "NONE"
  | .logon => ascii "A"
  | .logoff => ascii "5"
  | .testRequest => ascii "1"
  | .resendRequest => ascii "2"
  | .adminReject => ascii "3"
  | .sequenceReset => ascii "4"
  | .heartbeat => ascii "0"
  | .userLogon => ascii "BE"
  | .userResponse => ascii "BF"
  | .newOrder => ascii "D"
  | .cancel => ascii "F"
  | .executionReport => ascii "8"
  | .businessReject => ascii "j"

@[simp] def fixEquals : UInt8 := 61
@[simp] def fixDelimiter : UInt8 := 1

@[simp] def fixTagAveragePrice : Int := 6
@[simp] def fixTagVersion : Int := 8
@[simp] def fixTagBodyLength : Int := 9
@[simp] def fixTagBodyChecksum : Int := 10
@[simp] def fixTagClientOrderId : Int := 11
@[simp] def fixTagCumulativeQuantity : Int := 14
@[simp] def fixTagExecId : Int := 17
@[simp] def fixTagExecTranstype : Int := 20
@[simp] def fixTagLastPrice : Int := 31
@[simp] def fixTagLastQuantity : Int := 32
@[simp] def fixTagSequenceNumber : Int := 34
@[simp] def fixTagMessageType : Int := 35
@[simp] def fixTagOrderId : Int := 37
@[simp] def fixTagOrderQuantity : Int := 38
@[simp] def fixTagOrderStatus : Int := 39
@[simp] def fixTagOrderType : Int := 40
@[simp] def fixTagOrigClientOrderId : Int := 41
@[simp] def fixTagOrderPrice : Int := 44
@[simp] def fixTagRefSeqNum : Int := 45
@[simp] def fixTagSenderCompid : Int := 49
@[simp] def fixTagSendingTime : Int := 52
@[simp] def fixTagOrderSide : Int := 54
@[simp] def fixTagSymbol : Int := 55
@[simp] def fixTagTargetCompid : Int := 56
@[simp] def fixTagFreeText : Int := 58
@[simp] def fixTagTransactionTime : Int := 60
@[simp] def fixTagEncryptMethod : Int := 98
@[simp] def fixTagHearbeatInterval : Int := 108
@[simp] def fixTagTestRequestId : Int := 112
@[simp] def fixTagExecType : Int := 150
@[simp] def fixTagLeavesQty : Int := 151
@[simp] def fixTagRefTag : Int := 371
@[simp] def fixTagRefMsgType : Int := 372
@[simp] def fixTagRejectReason : Int := 373
@[simp] def fixTagUsername : Int := 553
@[simp] def fixTagUserRequestId : Int := 923

@[simp] def fixOrderStatusPartiallyFilled : Int := 1
@[simp] def fixOrderStatusFilled : Int := 2
@[simp] def fixOrderStatusRejected : Int := 8

@[simp] def fixOrderTypeLimit : Int := 2
@[simp] def fixOrderSideBuy : Int := 1
@[simp] def fixOrderSideSell : Int := 2

@[simp] def fixEncryptionNone : Int := 0

end FixConstants

/-- `std::tolower` in the C locale, on each character. -/
def toLower (text : Bytes) : Bytes := text.map fun b => if 65 ≤ b && b ≤ 90 then b + 32 else b

/-- `core::compare`: `strcmp` of the lower-case texts. -/
def compare (first second : Bytes) : Bool :=
  (toLower first).takeWhile (· != 0) == (toLower second).takeWhile (· != 0)

namespace FixConstants

def getFixVersionFromString (version : Bytes) : FixVersion :=
  if compare version (ascii "FIX.4.0") then .fix40
  else if compare version (ascii "FIX.4.1") then .fix41
  else if compare version (ascii "FIX.4.2") then .fix42
  else if compare version (ascii "FIX.4.3") then .fix43
  else if compare version (ascii "FIX.4.4") then .fix44
  else if compare version (ascii "FIX.5.0") then .fix50
  else if compare version (ascii "FIX.5.0SP1") then .fix50sp1
  else if compare version (ascii "FIX.5.0SP2") then .fix50sp2
  else .none

def getMessageTypeFromString (messageType : Bytes) : MessageType :=
  if compare messageType (ascii "A") then .logon
  else if compare messageType (ascii "0") then .heartbeat
  else if compare messageType (ascii "1") then .testRequest
  else if compare messageType (ascii "2") then .resendRequest
  else if compare messageType (ascii "4") then .sequenceReset
  else if compare messageType (ascii "5") then .logoff
  else if compare messageType (ascii "BE") then .userLogon
  else if compare messageType (ascii "BF") then .userResponse
  else if compare messageType (ascii "D") then .newOrder
  else if compare messageType (ascii "F") then .cancel
  else if compare messageType (ascii "8") then .executionReport
  else if compare messageType (ascii "3") then .adminReject
  else if compare messageType (ascii "j") then .businessReject
  else .none

/-- Every version is read back from its text. -/
theorem getFixVersionFromString_string (version : FixVersion) :
    getFixVersionFromString (fixVersionString version) = version := by
  cases version with
  | _ => decide

theorem getMessageTypeFromString_string (messageType : MessageType) :
    getMessageTypeFromString (fixMessageTypeString messageType) = messageType := by
  cases messageType with
  | _ => decide

end FixConstants

end LiteExchange.Fix
