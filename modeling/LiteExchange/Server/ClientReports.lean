import LiteExchange.Fix.BufferParser
import LiteExchange.Server.Replies

/-!
# What a client reads of an execution report

The report goes over the wire with its tags in any order. A client that parses the text gets the
header of its session and the values of the order.
-/

namespace LiteExchange.Server

open Foundation.Ascii OrderMatcher
open LiteExchange.Fix LiteExchange.Fix.FixConstants LiteExchange.Fix.FixMessage

variable {γ : Type}

/-- The values of the tags, as they stand in the text. -/
structure ClientReport where
  orderSide : Bytes
  clientOrderID : Bytes
  orderID : Bytes
  execID : Bytes
  orderStatus : Bytes
  execType : Bytes
  orderQuantity : Bytes
  leavesQuantity : Bytes
  cumulativeQuantity : Bytes
  averagePrice : Bytes
  symbol : Bytes
  lastQuantity : Option Bytes
  lastPrice : Option Bytes
  deriving DecidableEq, Repr

def readReport (message : FixMessage) : ClientReport where
  orderSide := message.getTagValue fixTagOrderSide
  clientOrderID := message.getTagValue fixTagClientOrderId
  orderID := message.getTagValue fixTagOrderId
  execID := message.getTagValue fixTagExecId
  orderStatus := message.getTagValue fixTagOrderStatus
  execType := message.getTagValue fixTagExecType
  orderQuantity := message.getTagValue fixTagOrderQuantity
  leavesQuantity := message.getTagValue fixTagLeavesQty
  cumulativeQuantity := message.getTagValue fixTagCumulativeQuantity
  averagePrice := message.getTagValue fixTagAveragePrice
  symbol := message.getTagValue fixTagSymbol
  lastQuantity := message.bodyTagValuePairs fixTagLastQuantity
  lastPrice := message.bodyTagValuePairs fixTagLastPrice

/-- What an order shows; the last fill is there where the order has just been filled. -/
def clientReport (order : Order γ) (execID : Nat) (securityName : Bytes) : ClientReport where
  orderSide := intText (if order.side = .buy then fixOrderSideBuy else fixOrderSideSell)
  clientOrderID := order.clientOrderID
  orderID := order.clientOrderID
  execID := natText execID
  orderStatus :=
    intText (FixMessageConverter.convertOrderStatusToFixOrderStatus order.orderStatus)
  execType := intText (FixMessageConverter.convertOrderStatusToFixOrderStatus order.lastExecution)
  orderQuantity := intText order.quantity
  leavesQuantity := intText order.openQuantity
  cumulativeQuantity := intText order.executedQuantity
  averagePrice := doubleText order.averageExecutedPrice
  symbol := securityName
  lastQuantity := if order.orderStatus = .filled ∨ order.orderStatus = .partiallyFilled then
    some (intText order.lastExecutedQuantity) else none
  lastPrice := if order.orderStatus = .filled ∨ order.orderStatus = .partiallyFilled then
    some (doubleText order.lastExecutedPrice) else none

/-- The tags that are read. -/
def readTags : List Int := [fixTagOrderSide, fixTagClientOrderId, fixTagOrderId, fixTagExecId,
  fixTagOrderStatus, fixTagExecType, fixTagOrderQuantity, fixTagLeavesQty,
  fixTagCumulativeQuantity, fixTagAveragePrice, fixTagSymbol, fixTagLastQuantity, fixTagLastPrice]

theorem readReport_congr {message other : FixMessage}
    (h : ∀ tag ∈ readTags, message.bodyTagValuePairs tag = other.bodyTagValuePairs tag) :
    readReport message = readReport other := by
  simp only [readTags, List.forall_mem_cons] at h
  obtain ⟨hside, hclientOrderID, horderID, hexecID, hstatus, htype, hquantity, hleaves,
    hcumulative, haverage, hsymbol, hlastQuantity, hlastPrice, -⟩ := h
  simp only [readReport, getTagValue, hside, hclientOrderID, horderID, hexecID, hstatus, htype,
    hquantity, hleaves, hcumulative, haverage, hsymbol, hlastQuantity, hlastPrice]

theorem readReport_setTag (message : FixMessage) {tag : Int} (value : Bytes)
    (unread : tag ∉ readTags) : readReport (message.setTag tag value) = readReport message := by
  refine readReport_congr fun other hmem => ?_
  have hother : other ≠ tag := fun h => unread (h ▸ hmem)
  simp only [FixMessage.setTag, if_neg hother]

/-! ## The report of an order -/

section Report

variable {compId : Bytes} {session : FixSession} {order : Order γ} {execID : Nat}
  {securityName : Bytes}

theorem convertOrderStatus_filled (status : OrderStatus) :
    FixMessageConverter.convertOrderStatusToFixOrderStatus status = fixOrderStatusFilled ∨
        FixMessageConverter.convertOrderStatusToFixOrderStatus status =
          fixOrderStatusPartiallyFilled ↔
      status = .filled ∨ status = .partiallyFilled := by
  cases status with
  | _ => decide

theorem readReport_executionReport :
    readReport (executionReport compId session order execID securityName) =
      clientReport order execID securityName := by
  unfold executionReport
  extract_lets orderStatus executionType side report filled
  have hfilled : readReport filled = clientReport order execID securityName := by
    simp only [filled, orderStatus, convertOrderStatus_filled]
    by_cases hfill : order.orderStatus = .filled ∨ order.orderStatus = .partiallyFilled
    · rw [if_pos hfill]
      simp only [clientReport, if_pos hfill]
      rfl
    · rw [if_neg hfill]
      simp only [clientReport, if_neg hfill]
      rfl
  split
  · rw [readReport_setTag _ _ (by decide)]
    exact hfilled
  · exact hfilled

end Report

/-! ## Its text -/

/-- The map has no other tags. -/
def TagsWithin (tags : List Int) (message : FixMessage) : Prop :=
  ∀ tag, message.hasTag tag = true → tag ∈ tags

section Tags

variable {tags : List Int} {message : FixMessage}

theorem TagsWithin.setTag (h : TagsWithin tags message) {tag : Int} (value : Bytes)
    (within : tag ∈ tags) : TagsWithin tags (message.setTag tag value) := by
  intro other hother
  by_cases hsame : other = tag
  · rwa [hsame]
  · apply h other
    simpa only [hasTag, FixMessage.setTag, if_neg hsame] using hother

theorem TagsWithin.setTags (h : TagsWithin tags message) {pairs : List (Int × Bytes)}
    (within : ∀ tag ∈ pairs.map Prod.fst, tag ∈ tags) :
    TagsWithin tags (message.setTags pairs) := by
  intro tag htag
  rcases (hasTag_setTags message pairs tag).mp htag with hpair | hbefore
  · exact within tag hpair
  · exact h tag hbefore

theorem TagsWithin.stamped (h : TagsWithin tags message) (session : FixSession)
    (currentUTCDateTime : Bytes) (within : fixTagTransactionTime ∈ tags) :
    TagsWithin tags (session.stamped message currentUTCDateTime) := by
  intro tag htag
  by_cases htime : tag = fixTagTransactionTime
  · rwa [htime]
  · apply h tag
    rwa [hasTag, FixSession.stamped_lookup session htime] at htag

end Tags

/-- The tags that a report may have. -/
def reportTags : List Int := readTags ++ [fixTagExecTranstype, fixTagTransactionTime]

section Text

variable {compId : Bytes} {session : FixSession} {order : Order γ} {execID : Nat}
  {securityName currentUTCDateTime : Bytes}

theorem executionReport_tags :
    TagsWithin reportTags (executionReport compId session order execID securityName) := by
  have hbase : TagsWithin reportTags (session.getExecutionReportMessage compId) :=
    fun tag htag => by cases htag
  unfold executionReport
  extract_lets orderStatus executionType side report filled
  have hreport : TagsWithin reportTags report := hbase.setTags (by
    simp only [List.map_cons, List.map_nil]
    decide)
  have hfilled : TagsWithin reportTags filled := by
    simp only [filled]
    split
    · refine hreport.setTags ?_
      simp only [List.map_cons, List.map_nil]
      decide
    · exact hreport
  split
  · exact hfilled.setTag _ (by decide)
  · exact hfilled

theorem readReport_stamped (message : FixMessage) :
    readReport (session.stamped message currentUTCDateTime) = readReport message := by
  refine readReport_congr fun tag hmem => FixSession.stamped_lookup session ?_
  rintro rfl
  exact absurd hmem (by decide)

/-- A message that is built with these tags goes over the wire in any order of its tags. -/
def sentWith {message : FixMessage} (built : message.WellBuilt)
    (within : TagsWithin reportTags message) {tags : List Int}
    (enumerates : message.Enumerates tags) : WireMessage where
  message := message
  order := tags
  nodup := enumerates.nodup
  enumerates := enumerates.tags
  inRange := by
    intro tag hmem
    have hrange : ∀ tag ∈ reportTags, -2 ^ 31 ≤ tag ∧ tag ≤ 2 ^ 31 - 1 := by decide
    exact hrange tag (within tag ((enumerates.tags tag).mp hmem))
  unreserved := by
    intro tag hmem hreserved
    have hset := (enumerates.tags tag).mp hmem
    rw [built.unreserved tag hreserved] at hset
    cases hset
  plainHeader := ⟨built.plain.senderCompId, built.plain.sendingTime, built.plain.targetCompId⟩
  plainBody := fun tag _ => built.plain.body tag

/-- A client that parses the text gets this report in a message of this session. -/
def ClientReads (text compId : Bytes) (session : FixSession) (report : ClientReport) : Prop :=
  ∀ indeterminate, ∃ decoded,
    parseFromBuffer (construct indeterminate) text = .ok decoded ∧
      decoded.messageType = .executionReport ∧ decoded.senderCompId = compId ∧
      decoded.targetCompId = session.targetCompId ∧
      decoded.sequenceNumber = toSize session.outgoingSequenceNumber ∧ readReport decoded = report

theorem executionReport_compIds :
    (executionReport compId session order execID securityName).senderCompId = compId ∧
      (executionReport compId session order execID securityName).targetCompId =
        session.targetCompId := by
  unfold executionReport
  extract_lets orderStatus executionType side report filled
  have hreport : report.senderCompId = compId ∧ report.targetCompId = session.targetCompId := by
    simp only [report]
    rw [setTags_members]
    exact ⟨rfl, rfl⟩
  have hfilled : filled.senderCompId = compId ∧ filled.targetCompId = session.targetCompId := by
    simp only [filled]
    split
    · rw [setTags_members]
      exact hreport
    · exact hreport
  split
  · exact hfilled
  · exact hfilled

theorem stamped_header (message : FixMessage) :
    (session.stamped message currentUTCDateTime).senderCompId = message.senderCompId ∧
      (session.stamped message currentUTCDateTime).targetCompId = message.targetCompId ∧
      (session.stamped message currentUTCDateTime).sequenceNumber =
        toSize session.outgoingSequenceNumber := by
  unfold FixSession.stamped
  simp only
  split
  · exact ⟨rfl, rfl, rfl⟩
  · exact ⟨rfl, rfl, rfl⟩

/-- The report that a session sends is read with the values of the order, if and only if its
number is an `int`. -/
theorem executionReport_read_iff (server : Plain compId) (client : Plain session.targetCompId)
    (orderID : Plain order.clientOrderID) (symbol : Plain securityName)
    (time : Plain currentUTCDateTime) {tags : List Int}
    (enumerates : (session.stamped (executionReport compId session order execID securityName)
      currentUTCDateTime).Enumerates tags) :
    ClientReads ((session.stamped (executionReport compId session order execID securityName)
        currentUTCDateTime).toString tags) compId session
        (clientReport order execID securityName) ↔
      toSize session.outgoingSequenceNumber < 2 ^ 31 := by
  have hbuilt := FixSession.stamped_wellBuilt session
    (executionReport_wellBuilt execID server client orderID symbol) time
  have hwithin : TagsWithin reportTags
      (session.stamped (executionReport compId session order execID securityName)
        currentUTCDateTime) :=
    executionReport_tags.stamped session currentUTCDateTime (by decide)
  obtain ⟨hsender, htarget, hnumber⟩ := @stamped_header session currentUTCDateTime
    (executionReport compId session order execID securityName)
  obtain ⟨hcompId, hclient⟩ :=
    @executionReport_compIds γ compId session order execID securityName
  have hparsed := fun indeterminate =>
    parseFromBuffer_wire (sentWith hbuilt hwithin enumerates) indeterminate
  have hsent : (sentWith hbuilt hwithin enumerates).message.sequenceNumber =
      toSize session.outgoingSequenceNumber := hnumber
  rw [hsent] at hparsed
  constructor
  · intro hreads
    by_contra hlarge
    obtain ⟨decoded, hdecoded, -⟩ := hreads .none
    have hthrows := hparsed .none
    rw [if_neg hlarge] at hthrows
    cases hthrows.symm.trans hdecoded
  · intro hsmall indeterminate
    have hreceived := hparsed indeterminate
    rw [if_pos hsmall] at hreceived
    refine ⟨(sentWith hbuilt hwithin enumerates).received, hreceived, ?_, hsender.trans hcompId,
      htarget.trans hclient, hnumber, ?_⟩
    · exact (FixSession.stamped_messageType session).trans
        (executionReport_messageType session order execID securityName)
    · rw [WireMessage.received, readReport_setTag _ _ (by decide),
        readReport_setTag _ _ (by decide)]
      exact (readReport_stamped _).trans readReport_executionReport

end Text

end LiteExchange.Server
