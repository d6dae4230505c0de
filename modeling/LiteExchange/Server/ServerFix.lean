import LiteExchange.Fix.Message
import LiteExchange.Foundation.Decimal
import LiteExchange.Foundation.Results
import LiteExchange.OrderMatcher.SystemRules

/-!
# Order messages at the server

Source: fix_message_converter.h and the message handlers of server_fix.cpp. A handler
either rejects the message to its sender or makes a call of the central order book. An
exception escapes from a handler when a numeric tag cannot be read and when a symbol
is not known (`unordered_map::at`); it ends the server. Each order starts from the
indeterminate members that its stack slot holds, and carries its origin.
-/

namespace LiteExchange.Server

open Foundation.Ascii Foundation.Decimal Foundation.Results Foundation.Runs OrderMatcher
open LiteExchange.Fix LiteExchange.Fix.FixConstants

variable {γ : Type}

namespace FixMessageConverter

def convertCommonOrder (manager : SecurityManager) (message : FixMessage) (order : Order γ) :
    Except ConversionError (Order γ) :=
  match manager.getSecurityId (message.getTagValue fixTagSymbol) with
  | some securityId =>
    .ok ((order.setSecurityId securityId).setClientOrderId
      (message.getTagValue fixTagClientOrderId))
  | none => .error .outOfRange

/-- Other order types and sides leave the member as it was. -/
def convertNewOrder (manager : SecurityManager) (message : FixMessage) (order : Order γ) :
    Except ConversionError (Order γ) := do
  let order ← convertCommonOrder manager message order
  let orderType ← message.getTagValueAsInt fixTagOrderType
  let order := if orderType = fixOrderTypeLimit then order.setOrderType .limit else order
  let side ← message.getTagValueAsInt fixTagOrderSide
  let order := if side = fixOrderSideBuy then order.setOrderSide .buy
    else if side = fixOrderSideSell then order.setOrderSide .sell
    else order
  let quantity ← message.getTagValueAsLong fixTagOrderQuantity
  let order := order.setQuantity quantity
  let price ← message.getTagValueAsLong fixTagOrderPrice
  pure (order.setPrice (nearestDouble price))

def convertCancelOrder (manager : SecurityManager) (message : FixMessage) (order : Order γ) :
    Except ConversionError (Order γ) :=
  convertCommonOrder manager message order

end FixMessageConverter

open FixMessageConverter

/-- What a handler does that returns. -/
inductive Handling (γ : Type) where
  | rejectOrder (rejectionMessage : Bytes)
  | call (task : OrderMatcher.Task γ)

def onNewOrder (manager : SecurityManager) (message : FixMessage) (sessionId : Nat)
    (memory : Indeterminate γ) : Except ConversionError (Handling γ) := do
  let order := (Order.default memory).setSessionId sessionId
  let order ← convertNewOrder manager message order
  let orderType ← message.getTagValueAsInt fixTagOrderType
  if orderType ≠ fixOrderTypeLimit then
    pure (.rejectOrder (ascii "Non supported order type"))
  else if manager.isSecuritySupported order.securityId = false then
    pure (.rejectOrder (ascii "Non supported symbol"))
  else pure (.call (.newOrder order))

def onCancelOrder (manager : SecurityManager) (message : FixMessage) (sessionId : Nat)
    (memory : Indeterminate γ) : Except ConversionError (Handling γ) := do
  let order := (Order.default memory).setSessionId sessionId
  let order ← convertCancelOrder manager message order
  pure (.call (.cancelOrder order (message.getTagValue fixTagOrigClientOrderId)))

def onFixMessage (manager : SecurityManager) (message : FixMessage) (sessionId : Nat)
    (memory : Indeterminate γ) : Except ConversionError (Handling γ) :=
  match message.messageType with
  | .newOrder => onNewOrder manager message sessionId memory
  | .cancel => onCancelOrder manager message sessionId memory
  | _ => pure (.rejectOrder (ascii "Only new and cancel orders accepted"))

/-! ## What the handlers do -/

/-- The side that tag 54 gives an order, or what the member held. -/
def sideOf (side : Int) (memory : OrderSide) : OrderSide :=
  if side = fixOrderSideBuy then .buy else if side = fixOrderSideSell then .sell else memory

/-- The order that is submitted for a message: the members that the converter sets, with
the values read from the tags. -/
def submitted (message : FixMessage) (sessionId : Nat) (memory : Indeterminate γ)
    (securityId : Nat) (side quantity price : Int) : Order γ :=
  { Order.default memory with
    sessionId := sessionId
    securityId := securityId
    clientOrderID := message.getTagValue fixTagClientOrderId
    orderType := .limit
    side := sideOf side memory.side
    quantity := quantity
    openQuantity := quantity
    price := nearestDouble price }

/-- What `stol` reads fits a `long`. -/
theorem submitted_fresh {message : FixMessage} {quantity : Int}
    (read : message.getTagValueAsLong fixTagOrderQuantity = .ok quantity) (sessionId : Nat)
    (memory : Indeterminate γ) (securityId : Nat) (side price : Int) :
    (submitted message sessionId memory securityId side quantity price).Fresh :=
  ⟨rfl, rfl, stol_range read⟩

theorem convertCommonOrder_cases {manager : SecurityManager} {message : FixMessage}
    {order converted : Order γ} (h : convertCommonOrder manager message order = .ok converted) :
    ∃ securityId, manager.getSecurityId (message.getTagValue fixTagSymbol) = some securityId ∧
      converted = { order with
        securityId := securityId
        clientOrderID := message.getTagValue fixTagClientOrderId } := by
  unfold convertCommonOrder at h
  split at h
  · rename_i securityId hsecurity
    exact ⟨securityId, hsecurity, (Except.ok.inj h).symm⟩
  · cases h

/-- `onNewOrder` rejects the message or submits its order. -/
theorem onNewOrder_cases {manager : SecurityManager} {message : FixMessage} {sessionId : Nat}
    {memory : Indeterminate γ} {handling : Handling γ}
    (h : onNewOrder manager message sessionId memory = .ok handling) :
    (∃ text, handling = .rejectOrder text) ∨
    ∃ (securityId : Nat) (side quantity price : Int),
      manager.getSecurityId (message.getTagValue fixTagSymbol) = some securityId ∧
      message.getTagValueAsInt fixTagOrderType = .ok fixOrderTypeLimit ∧
      message.getTagValueAsInt fixTagOrderSide = .ok side ∧
      message.getTagValueAsLong fixTagOrderQuantity = .ok quantity ∧
      message.getTagValueAsLong fixTagOrderPrice = .ok price ∧
      handling = .call (.newOrder
        (submitted message sessionId memory securityId side quantity price)) := by
  obtain ⟨order, horder, h⟩ := bind_eq_ok.mp h
  obtain ⟨orderType, htype, h⟩ := bind_eq_ok.mp h
  obtain ⟨common, hcommon, horder⟩ := bind_eq_ok.mp horder
  obtain ⟨securityId, hsecurity, rfl⟩ := convertCommonOrder_cases hcommon
  obtain ⟨sameType, hsameType, horder⟩ := bind_eq_ok.mp horder
  obtain ⟨side, hside, horder⟩ := bind_eq_ok.mp horder
  obtain ⟨quantity, hquantity, horder⟩ := bind_eq_ok.mp horder
  obtain ⟨price, hprice, horder⟩ := bind_eq_ok.mp horder
  rw [htype] at hsameType
  cases hsameType
  split at h
  · exact Or.inl ⟨_, (Except.ok.inj h).symm⟩
  · rename_i hlimit
    split at h
    · exact Or.inl ⟨_, (Except.ok.inj h).symm⟩
    · right
      simp only [not_not] at hlimit
      rw [hlimit] at htype
      refine ⟨securityId, side, quantity, price, hsecurity, htype, hside, hquantity, hprice, ?_⟩
      rw [← Except.ok.inj h, ← Except.ok.inj horder]
      unfold submitted sideOf
      simp only [hlimit, if_true]
      split
      · rfl
      · split
        · rfl
        · rfl

theorem onCancelOrder_cases {manager : SecurityManager} {message : FixMessage} {sessionId : Nat}
    {memory : Indeterminate γ} {handling : Handling γ}
    (h : onCancelOrder manager message sessionId memory = .ok handling) :
    ∃ securityId, manager.getSecurityId (message.getTagValue fixTagSymbol) = some securityId ∧
      handling = .call (.cancelOrder
        { Order.default memory with
          sessionId := sessionId
          securityId := securityId
          clientOrderID := message.getTagValue fixTagClientOrderId }
        (message.getTagValue fixTagOrigClientOrderId)) := by
  obtain ⟨order, horder, h⟩ := bind_eq_ok.mp h
  obtain ⟨securityId, hsecurity, rfl⟩ := convertCommonOrder_cases horder
  exact ⟨securityId, hsecurity, (Except.ok.inj h).symm⟩

/-! ## Runs of the server -/

/-- The members are those of the stack slot, the origin is the one given. -/
def withOrigin (memory : Indeterminate Unit) (origin : γ) : Indeterminate γ where
  orderID := memory.orderID
  securityId := memory.securityId
  sessionId := memory.sessionId
  side := memory.side
  orderType := memory.orderType
  cancelled := memory.cancelled
  origin := origin

/-- The central order book with its threads and the reject messages sent, as session and
text. The origin of an order is the message it was made from. -/
structure ServerFix where
  system : System FixMessage
  manager : SecurityManager
  rejected : List (Nat × Bytes) := []

/-- The reactor thread handles a message or submits the task of an `addOrder`, or a worker
makes a step. -/
inductive ServerLabel where
  | onFixMessage (message : FixMessage) (sessionId : Nat) (memory : Indeterminate Unit)
  | submit
  | work (queueIndex : Nat)

namespace ServerFix

/-- The server that is set up for these symbols. -/
def configured (symbols : List Bytes) (multithreaded : Bool) : ServerFix where
  system := System.configured symbols multithreaded
  manager := (CentralOrderBook.configured (γ := FixMessage) symbols multithreaded).2

def onSystem (server : ServerFix) (label : Label FixMessage) : Option ServerFix :=
  (server.system.step label).map fun system => { server with system := system }

def step (server : ServerFix) : ServerLabel → Option ServerFix
  | .onFixMessage message sessionId memory =>
    if server.system.submitting.isNone then
      match Server.onFixMessage server.manager message sessionId (withOrigin memory message) with
      | .ok (.rejectOrder rejectionMessage) =>
        some { server with rejected := server.rejected ++ [(sessionId, rejectionMessage)] }
      | .ok (.call task) => server.onSystem task.label
      | .error _ => none
    else none
  | .submit => server.onSystem .submit
  | .work queueIndex => server.onSystem (.work queueIndex)

end ServerFix

/-- The step of the system that a label of the server makes, if it makes one. -/
def ServerLabel.issued (manager : SecurityManager) : ServerLabel → Option (Label FixMessage)
  | .onFixMessage message sessionId memory =>
    match Server.onFixMessage manager message sessionId (withOrigin memory message) with
    | .ok (.call task) => some task.label
    | _ => none
  | .submit => some .submit
  | .work queueIndex => some (.work queueIndex)

theorem issued_onFixMessage {manager : SecurityManager} {message : FixMessage} {sessionId : Nat}
    {memory : Indeterminate Unit} {systemLabel : Label FixMessage}
    (h : (ServerLabel.onFixMessage message sessionId memory).issued manager = some systemLabel) :
    ∃ task, Server.onFixMessage manager message sessionId (withOrigin memory message) =
      .ok (.call task) ∧ systemLabel = task.label := by
  simp only [ServerLabel.issued] at h
  split at h
  · rename_i task htask
    exact ⟨task, htask, (Option.some.inj h).symm⟩
  · cases h

/-- What a label issues meets properties that the submitted orders meet, with the values of
their tags, and the reports of rejected requests. -/
theorem issued_meets {bid ask : Order FixMessage → Prop}
    {report : OutgoingMessage FixMessage → Prop} {manager : SecurityManager} {label : ServerLabel}
    {systemLabel : Label FixMessage} (h : label.issued manager = some systemLabel)
    (submits : ∀ message sessionId memory, label = .onFixMessage message sessionId memory →
      message.messageType = .newOrder → ∀ securityId side quantity price,
      message.getTagValueAsInt fixTagOrderType = .ok fixOrderTypeLimit →
      message.getTagValueAsInt fixTagOrderSide = .ok side →
      message.getTagValueAsLong fixTagOrderQuantity = .ok quantity →
      message.getTagValueAsLong fixTagOrderPrice = .ok price →
      ∀ orderID, (OrderMatcher.Task.newOrder ((submitted message sessionId
        (withOrigin memory message) securityId side quantity price).setOrderId orderID)).Meets
          bid ask report)
    (requests : ∀ order, report (.new order .rejected)) : systemLabel.Meets bid ask report := by
  cases label with
  | submit =>
    cases h
    trivial
  | work queueIndex =>
    cases h
    trivial
  | onFixMessage message sessionId memory =>
    obtain ⟨task, htask, rfl⟩ := issued_onFixMessage h
    unfold Server.onFixMessage at htask
    split at htask
    · rename_i htype
      rcases onNewOrder_cases htask with ⟨text, hrejected⟩ |
        ⟨securityId, side, quantity, price, -, hlimit, hside, hquantity, hprice, hcall⟩
      · cases hrejected
      · cases hcall
        exact submits message sessionId memory rfl htype securityId side quantity price hlimit hside
          hquantity hprice
    · obtain ⟨securityId, -, hcall⟩ := onCancelOrder_cases htask
      cases hcall
      exact requests _
    · cases htask

namespace ServerFix

variable {server next : ServerFix}

theorem onSystem_cases {label : Label FixMessage} (h : server.onSystem label = some next) :
    server.system.step label = some next.system ∧ next.manager = server.manager := by
  obtain ⟨system, hstep, rfl⟩ := Option.map_eq_some_iff.mp h
  exact ⟨hstep, rfl⟩

/-- A step of the server makes a step of the system, or sends a reject. -/
theorem step_cases {label : ServerLabel} (h : server.step label = some next) :
    next.manager = server.manager ∧
      (label.issued server.manager = none ∧ next.system = server.system ∨
        ∃ systemLabel, label.issued server.manager = some systemLabel ∧
          server.system.step systemLabel = some next.system) := by
  cases label with
  | onFixMessage message sessionId memory =>
    simp only [step, Option.ite_none_right_eq_some] at h
    obtain ⟨-, h⟩ := h
    split at h
    · rename_i hrejected
      cases h
      exact ⟨rfl, Or.inl ⟨by simp only [ServerLabel.issued, hrejected], rfl⟩⟩
    · rename_i task htask
      obtain ⟨hstep, hmanager⟩ := onSystem_cases h
      exact ⟨hmanager, Or.inr ⟨task.label, by simp only [ServerLabel.issued, htask], hstep⟩⟩
    · cases h
  | submit =>
    obtain ⟨hstep, hmanager⟩ := onSystem_cases h
    exact ⟨hmanager, Or.inr ⟨.submit, rfl, hstep⟩⟩
  | work queueIndex =>
    obtain ⟨hstep, hmanager⟩ := onSystem_cases h
    exact ⟨hmanager, Or.inr ⟨.work queueIndex, rfl, hstep⟩⟩

/-- A rule that the submitted tasks of a run meet holds in the state it reaches. -/
theorem run_holds {bid ask : Order FixMessage → Prop} {report : OutgoingMessage FixMessage → Prop}
    (rule : BookLog.ReportRule bid ask report) {labels : List ServerLabel} {start : ServerFix}
    (before : start.system.Holds bid ask report)
    (meets : ∀ label ∈ labels, ∀ systemLabel, label.issued start.manager = some systemLabel →
      systemLabel.Meets bid ask report)
    (hrun : run step start labels = some server) : server.system.Holds bid ask report := by
  induction labels generalizing start with
  | nil =>
    cases hrun
    exact before
  | cons label labels ih =>
    obtain ⟨next, hstep, hrest⟩ := Option.bind_eq_some_iff.mp hrun
    obtain ⟨hmanager, heffect⟩ := step_cases hstep
    apply ih _ _ hrest
    · cases heffect with
      | inl hunchanged =>
        rw [hunchanged.2]
        exact before
      | inr hchanged =>
        obtain ⟨systemLabel, hissued, hnext⟩ := hchanged
        exact System.step_holds rule before (meets label (by simp) systemLabel hissued) hnext
    · rw [hmanager]
      exact fun later hmem => meets later (List.mem_cons_of_mem label hmem)

end ServerFix

/-- A NEW_ORDER message for a limit order, with all tags that a session requires. -/
def newOrderMessage (side quantity price : String) : FixMessage :=
  { (FixMessage.construct .newOrder).setTags
      [(fixTagBodyLength, ascii "100"), (fixTagBodyChecksum, ascii "000"),
        (fixTagTransactionTime, ascii "T"), (fixTagClientOrderId, ascii "1"),
        (fixTagSymbol, ascii "MSFT"), (fixTagOrderType, ascii "2"), (fixTagOrderSide, ascii side),
        (fixTagOrderQuantity, ascii quantity), (fixTagOrderPrice, ascii price)] with
    fixVersion := .fix42
    senderCompId := ascii "CLIENT"
    targetCompId := ascii "SERVER"
    sendingTime := ascii "T" }

/-- What the stack slot of an order may hold. -/
def clearedMemory : Indeterminate Unit where
  orderID := 0
  securityId := 0
  sessionId := 0
  side := .nonSupported
  orderType := .nonSupported
  cancelled := false
  origin := ()

end LiteExchange.Server
