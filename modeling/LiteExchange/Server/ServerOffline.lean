import LiteExchange.Server.Answers

/-!
# Offline order entry

Source: server_offline.cpp and incoming_message.h. `loadOrders` converts the messages of the
input file and keeps the type of each in its `IncomingMessage`; `run` never asks for the type
and gives every order to `addOrder`. There is no guard for order types and symbols either. An
exception of a conversion escapes from `run` before the first call.
-/

namespace LiteExchange.Server

open Foundation.Ascii Foundation.Runs OrderMatcher
open LiteExchange.Fix LiteExchange.Fix.FixConstants

inductive IncomingMessageType where
  | newOrder | cancelOrder
  deriving DecidableEq, Repr

structure IncomingMessage (γ : Type) where
  order : Order γ
  originalOrderID : Bytes := []
  type : IncomingMessageType

/-- The central order book with its threads, and the loaded orders that are not submitted yet. -/
structure ServerOffline where
  system : System FixMessage
  orders : List (IncomingMessage FixMessage) := []

/-- The main thread makes the next call or submits the task of an `addOrder`, or a worker makes
a step. -/
inductive OfflineLabel where
  | addOrder
  | submit
  | work (queueIndex : Nat)

namespace ServerOffline

/-- The body of the loop of `loadOrders`: other messages are skipped. -/
def loadOrder (manager : SecurityManager) (message : FixMessage) (memory : Indeterminate Unit) :
    Except ConversionError (Option (IncomingMessage FixMessage)) :=
  let order := Order.default (withOrigin memory message)
  match message.messageType with
  | .newOrder => do
    let order ← FixMessageConverter.convertNewOrder manager message order
    pure (some { order := order, type := .newOrder })
  | .cancel => do
    let order ← FixMessageConverter.convertCancelOrder manager message order
    pure (some { order := order, type := .cancelOrder })
  | _ => pure none

/-- The messages of the file, each with what its order's slot holds. -/
def loadOrders (manager : SecurityManager) : List (FixMessage × Indeterminate Unit) →
    Except ConversionError (List (IncomingMessage FixMessage))
  | [] => pure []
  | (message, memory) :: messages => do
    let loaded ← loadOrder manager message memory
    let orders ← loadOrders manager messages
    pure (loaded.toList ++ orders)

/-- The server when `run` comes to its calls. None is made where `loadOrders` throws. -/
def loaded (symbols : List Bytes) (multithreaded : Bool)
    (messages : List (FixMessage × Indeterminate Unit)) : ServerOffline where
  system := System.configured symbols multithreaded
  orders :=
    match loadOrders (CentralOrderBook.configured (γ := FixMessage) symbols multithreaded).2
      messages with
    | .ok orders => orders
    | .error _ => []

def onSystem (server : ServerOffline) (label : Label FixMessage) : Option ServerOffline :=
  (server.system.step label).map fun system => { server with system := system }

def step (server : ServerOffline) : OfflineLabel → Option ServerOffline
  | .addOrder =>
    match server.orders with
    | message :: orders => ({ server with orders := orders } : ServerOffline).onSystem
      (.addOrder message.order)
    | [] => none
  | .submit => server.onSystem .submit
  | .work queueIndex => server.onSystem (.work queueIndex)

/-- All calls are made, and all tasks are done. -/
structure Done (server : ServerOffline) : Prop where
  orders : server.orders = []
  drained : server.system.Quiescent

/-! ## The calls of a run -/

/-- A run makes the calls of its orders in their sequence. -/
theorem run_calls {server next : ServerOffline} {labels : List OfflineLabel}
    (h : run step server labels = some next) :
    ∃ systemLabels, run System.step server.system systemLabels = some next.system ∧
      server.orders.map (fun message => Task.newOrder message.order) =
        callsOf systemLabels ++ next.orders.map fun message => Task.newOrder message.order := by
  induction labels generalizing server with
  | nil =>
    cases h
    exact ⟨[], rfl, rfl⟩
  | cons label labels ih =>
    obtain ⟨middle, hstep, hrest⟩ := Option.bind_eq_some_iff.mp h
    obtain ⟨systemLabels, hrun, hcalls⟩ := ih hrest
    have hsystem : ∀ (start : ServerOffline) (systemLabel : Label FixMessage),
        start.system = server.system → start.onSystem systemLabel = some middle →
        middle.orders = start.orders ∧
          run System.step server.system (systemLabel :: systemLabels) = some next.system := by
      intro start systemLabel hsame hon
      obtain ⟨system, hone, rfl⟩ := Option.map_eq_some_iff.mp hon
      rw [hsame] at hone
      exact ⟨rfl, by rw [run_cons, hone]; exact hrun⟩
    cases label with
    | addOrder =>
      simp only [step] at hstep
      split at hstep
      · rename_i message orders horders
        obtain ⟨hkept, hlonger⟩ := hsystem { server with orders := orders } _ rfl hstep
        refine ⟨_, hlonger, ?_⟩
        rw [horders, List.map_cons, ← show middle.orders = orders from hkept, hcalls]
        rfl
      · cases hstep
    | submit =>
      obtain ⟨hkept, hlonger⟩ := hsystem server .submit rfl hstep
      exact ⟨_, hlonger, by rw [← hkept, hcalls]; rfl⟩
    | work queueIndex =>
      obtain ⟨hkept, hlonger⟩ := hsystem server (.work queueIndex) rfl hstep
      exact ⟨_, hlonger, by rw [← hkept, hcalls]; rfl⟩

end ServerOffline

/-! ## What a message becomes -/

/-- What both modes read of a message can be read. -/
def Convertible (manager : SecurityManager) (message : FixMessage) : Prop :=
  match message.messageType with
  | .newOrder => OrderReadable manager message
  | .cancel => (manager.getSecurityId (message.getTagValue fixTagSymbol)).isSome = true
  | _ => True

section Messages

variable {manager : SecurityManager} {message : FixMessage} {sessionId : Nat}

theorem convertNewOrder_eq {securityId : Nat} {orderType side quantity price : Int}
    {memory : Indeterminate Unit}
    (hsecurity : manager.getSecurityId (message.getTagValue fixTagSymbol) = some securityId)
    (htype : message.getTagValueAsInt fixTagOrderType = .ok orderType)
    (hside : message.getTagValueAsInt fixTagOrderSide = .ok side)
    (hquantity : message.getTagValueAsLong fixTagOrderQuantity = .ok quantity)
    (hprice : message.getTagValueAsLong fixTagOrderPrice = .ok price) :
    FixMessageConverter.convertNewOrder manager message
        (Order.default (withOrigin memory message)) =
      .ok { submitted message memory.sessionId (withOrigin memory message) securityId side quantity
        price with
        orderType := if orderType = fixOrderTypeLimit then .limit else memory.orderType } := by
  simp only [FixMessageConverter.convertNewOrder, FixMessageConverter.convertCommonOrder, hsecurity,
    htype, hside, hquantity, hprice, bind, Except.bind, pure, Except.pure, submitted, sideOf]
  repeat' split
  all_goals rfl

theorem loadOrder_isOk (manager : SecurityManager) (message : FixMessage)
    (memory : Indeterminate Unit) :
    (ServerOffline.loadOrder manager message memory).isOk = true ↔ Convertible manager message := by
  have hkept : ∀ (converted : Except ConversionError (Order FixMessage))
      (type : IncomingMessageType),
      (converted.bind fun order => pure (some ({ order := order, type := type } :
        IncomingMessage FixMessage))).isOk = converted.isOk := by
    intro converted type
    cases converted with
    | error thrown => rfl
    | ok order => rfl
  unfold ServerOffline.loadOrder Convertible
  split
  · rw [← convertNewOrder_isOk (Order.default (withOrigin memory message)), ← hkept _ .newOrder]
    rfl
  · rw [← convertCommonOrder_isOk (Order.default (withOrigin memory message)),
      ← hkept _ .cancelOrder]
    rfl
  · simp [pure, Except.pure, Except.isOk, Except.toBool]

theorem onFixMessage_isOk (manager : SecurityManager) (message : FixMessage) (sessionId : Nat)
    (memory : Indeterminate FixMessage) :
    (onFixMessage manager message sessionId memory).isOk = true ↔ Convertible manager message := by
  unfold onFixMessage Convertible
  cases message.messageType with
  | newOrder => exact onNewOrder_isOk sessionId memory
  | cancel => exact onCancelOrder_isOk sessionId memory
  | _ => simp [pure, Except.pure, Except.isOk, Except.toBool]

end Messages

namespace ServerOffline

/-- The call that a loaded message makes: its type is not asked for. -/
def callFor (manager : SecurityManager) :
    FixMessage × Indeterminate Unit → Option (OrderMatcher.Task FixMessage)
  | (message, memory) =>
    match loadOrder manager message memory with
    | .ok (some loaded) => some (.newOrder loaded.order)
    | _ => none

/-- `loadOrders` returns where every message can be converted, and its orders become calls. -/
theorem loadOrders_cases (manager : SecurityManager)
    (messages : List (FixMessage × Indeterminate Unit)) :
    (∃ orders, loadOrders manager messages = .ok orders ∧
        (∀ entry ∈ messages, Convertible manager entry.1) ∧
        orders.map (fun message => OrderMatcher.Task.newOrder message.order) =
          messages.filterMap (callFor manager)) ∨
      (∃ thrown, loadOrders manager messages = .error thrown) ∧
        ∃ entry ∈ messages, ¬ Convertible manager entry.1 := by
  induction messages with
  | nil => exact Or.inl ⟨[], rfl, fun _ hmem => absurd hmem List.not_mem_nil, rfl⟩
  | cons entry messages ih =>
    obtain ⟨message, memory⟩ := entry
    have hconvertible := loadOrder_isOk manager message memory
    cases hone : loadOrder manager message memory with
    | error thrown =>
      rw [hone] at hconvertible
      refine Or.inr ⟨⟨thrown, ?_⟩, _, List.mem_cons_self, fun h => ?_⟩
      · simp only [loadOrders, hone, bind, Except.bind]
      · cases hconvertible.mpr h
    | ok loaded =>
      rw [hone] at hconvertible
      rcases ih with ⟨orders, horders, hall, hcalls⟩ | ⟨⟨thrown, hthrown⟩, other, hmem, hnot⟩
      · refine Or.inl ⟨loaded.toList ++ orders, ?_, ?_, ?_⟩
        · simp only [loadOrders, hone, horders, bind, Except.bind, pure, Except.pure]
        · exact List.forall_mem_cons.mpr ⟨hconvertible.mp rfl, hall⟩
        · cases loaded with
          | none =>
            have hcall : callFor manager (message, memory) = none := by simp only [callFor, hone]
            rw [List.filterMap_cons_none hcall]
            exact hcalls
          | some loaded =>
            have hcall : callFor manager (message, memory) = some (.newOrder loaded.order) := by
              simp only [callFor, hone]
            rw [List.filterMap_cons_some hcall, ← hcalls]
            rfl
      · refine Or.inr ⟨⟨thrown, ?_⟩, other, List.mem_cons_of_mem _ hmem, hnot⟩
        simp only [loadOrders, hone, hthrown, bind, Except.bind]

end ServerOffline

/-! ## A run for given calls -/

theorem ServerOffline.exists_run {labels : List (Label FixMessage)}
    {system next : System FixMessage} (h : run System.step system labels = some next)
    {orders : List (IncomingMessage FixMessage)}
    (calls : callsOf labels = orders.map fun message => OrderMatcher.Task.newOrder message.order) :
    ∃ offlineLabels, run ServerOffline.step { system := system, orders := orders } offlineLabels =
      some { system := next, orders := [] } := by
  induction labels generalizing system orders with
  | nil =>
    cases h
    obtain rfl := List.map_eq_nil_iff.mp calls.symm
    exact ⟨[], rfl⟩
  | cons label labels ih =>
    obtain ⟨middle, hstep, hrest⟩ := Option.bind_eq_some_iff.mp h
    have hwork : ∀ offlineLabel, label.call = none →
        ServerOffline.step { system := system, orders := orders } offlineLabel =
          ServerOffline.onSystem { system := system, orders := orders } label →
        ∃ offlineLabels, run ServerOffline.step { system := system, orders := orders }
          offlineLabels = some { system := next, orders := [] } := by
      intro offlineLabel hnone hsame
      rw [callsOf, List.filterMap_cons_none hnone] at calls
      obtain ⟨offlineLabels, hrun⟩ := ih hrest calls
      refine ⟨offlineLabel :: offlineLabels, ?_⟩
      rw [run_cons, hsame, ServerOffline.onSystem, hstep]
      exact hrun
    cases label with
    | submit => exact hwork .submit rfl rfl
    | work queueIndex => exact hwork (.work queueIndex) rfl rfl
    | cancelOrder order origClientOrderID =>
      have hcancel : OrderMatcher.Task.cancelOrder order origClientOrderID ∈
          orders.map fun message => OrderMatcher.Task.newOrder message.order := by
        rw [← calls]
        exact List.mem_cons_self
      obtain ⟨message, -, hmessage⟩ := List.mem_map.mp hcancel
      cases hmessage
    | addOrder order =>
      cases orders with
      | nil => cases calls
      | cons message orders =>
        obtain ⟨hfirst, hlater⟩ := List.cons.inj calls
        cases hfirst
        obtain ⟨offlineLabels, hrun⟩ := ih hrest hlater
        refine ⟨.addOrder :: offlineLabels, ?_⟩
        simp only [run_cons, ServerOffline.step, ServerOffline.onSystem, hstep, Option.map_some,
          Option.bind_some]
        exact hrun

end LiteExchange.Server
