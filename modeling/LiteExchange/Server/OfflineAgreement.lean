import LiteExchange.OrderMatcher.Draining
import LiteExchange.Server.CancelRequests
import LiteExchange.Server.HandedMessages
import LiteExchange.Server.ServerOffline

/-!
# Offline and FIX order entry

Both modes convert the messages alike. Offline every converted message becomes a new order; the
FIX mode makes a cancel request of a CANCEL message and rejects the orders that it does not
support. An exception ends the offline mode before its first call and the FIX mode at the
message.
-/

namespace LiteExchange.Server

open Foundation.Ascii Foundation.Results Foundation.ByKey Foundation.Runs OrderMatcher
open LiteExchange.Fix LiteExchange.Fix.FixConstants

/-- A message of the sequence, with what the slot of its order holds in the two modes. -/
structure Entry where
  message : FixMessage
  offlineMemory : Indeterminate Unit
  fixMemory : Indeterminate Unit

/-! ## What the two modes agree on -/

/-- An order without its session, which offline orders do not have, and without the flag that
neither mode sets. -/
def visible {γ : Type} (order : Order γ) : Order γ :=
  { order with sessionId := 0, cancelled := false }

theorem visible_forgets {γ : Type} : Order.Forgets (visible (γ := γ)) where
  side := fun _ => rfl
  price := fun _ => rfl
  openQuantity := fun _ => rfl
  isFilled := fun _ => rfl
  execute := fun _ _ _ => rfl
  report := fun _ _ => rfl

theorem visible_routing {γ : Type} : Order.KeepsRouting (visible (γ := γ)) := fun _ => rfl

namespace Entry

/-- Both modes enter the order, and with the same side: it is 1 or 2, or the slots hold the
same. -/
structure Agrees (manager : SecurityManager) (entry : Entry) : Prop where
  newOrder : entry.message.messageType = .newOrder
  readable : OrderReadable manager entry.message
  supported : Supported manager entry.message
  side : ∀ side, entry.message.getTagValueAsInt fixTagOrderSide = .ok side →
    sideOf side entry.offlineMemory.side = sideOf side entry.fixMemory.side

/-- The FIX mode rejects the order. -/
structure Refused (manager : SecurityManager) (entry : Entry) : Prop where
  newOrder : entry.message.messageType = .newOrder
  readable : OrderReadable manager entry.message
  unsupported : ¬ Supported manager entry.message

def loadedCall (manager : SecurityManager) (entry : Entry) :
    Option (OrderMatcher.Task FixMessage) :=
  ServerOffline.callFor manager (entry.message, entry.offlineMemory)

def handedCall (manager : SecurityManager) (sessionId : Nat) (entry : Entry) :
    Option (OrderMatcher.Task FixMessage) :=
  ServerFix.callFor manager (entry.message, sessionId, entry.fixMemory)

theorem loadedCall_newOrder {manager : SecurityManager} {entry : Entry}
    (newOrder : entry.message.messageType = .newOrder)
    (readable : OrderReadable manager entry.message) :
    ∃ securityId orderType side quantity price,
      manager.getSecurityId (entry.message.getTagValue fixTagSymbol) = some securityId ∧
      entry.message.getTagValueAsInt fixTagOrderType = .ok orderType ∧
      entry.message.getTagValueAsInt fixTagOrderSide = .ok side ∧
      entry.message.getTagValueAsLong fixTagOrderQuantity = .ok quantity ∧
      entry.message.getTagValueAsLong fixTagOrderPrice = .ok price ∧
      entry.loadedCall manager = some (.newOrder
        { submitted entry.message entry.offlineMemory.sessionId
            (withOrigin entry.offlineMemory entry.message) securityId side quantity price with
          orderType := if orderType = fixOrderTypeLimit then .limit
            else entry.offlineMemory.orderType }) := by
  obtain ⟨securityId, hsecurity⟩ := Option.isSome_iff_exists.mp readable.symbol
  obtain ⟨orderType, htype⟩ := isOk_iff.mp readable.orderType
  obtain ⟨side, hside⟩ := isOk_iff.mp readable.side
  obtain ⟨quantity, hquantity⟩ := isOk_iff.mp readable.quantity
  obtain ⟨price, hprice⟩ := isOk_iff.mp readable.price
  refine ⟨securityId, orderType, side, quantity, price, hsecurity, htype, hside, hquantity, hprice,
    ?_⟩
  simp only [loadedCall, ServerOffline.callFor, ServerOffline.loadOrder, newOrder,
    convertNewOrder_eq hsecurity htype hside hquantity hprice, bind, Except.bind, pure, Except.pure]

theorem loadedCall_cancel {manager : SecurityManager} {entry : Entry}
    (cancel : entry.message.messageType = .cancel) {securityId : Nat}
    (hsecurity : manager.getSecurityId (entry.message.getTagValue fixTagSymbol) = some securityId) :
    entry.loadedCall manager = some (.newOrder (cancelRequest entry.message
      entry.offlineMemory.sessionId entry.offlineMemory securityId)) := by
  simp only [loadedCall, ServerOffline.callFor, ServerOffline.loadOrder, cancel,
    FixMessageConverter.convertCancelOrder, FixMessageConverter.convertCommonOrder, hsecurity,
    bind, Except.bind, pure, Except.pure]
  rfl

/-- A loaded message becomes a new order for the security of its symbol. -/
theorem loadedCall_security {manager : SecurityManager} {entry : Entry}
    (type : entry.message.messageType = .newOrder ∨ entry.message.messageType = .cancel)
    (convertible : Convertible manager entry.message) :
    ∃ order, entry.loadedCall manager = some (.newOrder order) ∧
      manager.getSecurityId (entry.message.getTagValue fixTagSymbol) = some order.securityId ∧
      order.Balanced := by
  unfold Convertible at convertible
  rcases type with htype | htype
  · rw [htype] at convertible
    obtain ⟨securityId, orderType, side, quantity, price, hsecurity, -, -, hquantity, -, hcall⟩ :=
      loadedCall_newOrder htype convertible
    have hfresh := submitted_fresh hquantity entry.offlineMemory.sessionId
      (withOrigin entry.offlineMemory entry.message) securityId side price
    refine ⟨_, hcall, hsecurity, Order.Fresh.balanced ?_⟩
    exact ⟨hfresh.openQuantity, hfresh.executedQuantity, hfresh.quantity⟩
  · rw [htype] at convertible
    obtain ⟨securityId, hsecurity⟩ := Option.isSome_iff_exists.mp convertible
    exact ⟨_, loadedCall_cancel htype hsecurity, hsecurity, (cancelRequest_fresh ..).balanced⟩

/-- A message that the FIX mode handles becomes a new order where it is supported, a cancel, or
no call where it is rejected. -/
theorem handedCall_cases {manager : SecurityManager} {entry : Entry} (sessionId : Nat)
    (type : entry.message.messageType = .newOrder ∨ entry.message.messageType = .cancel)
    (convertible : Convertible manager entry.message) :
    (entry.message.messageType = .newOrder ∧ OrderReadable manager entry.message ∧
        Supported manager entry.message ∧
        ∃ securityId side quantity price,
          manager.getSecurityId (entry.message.getTagValue fixTagSymbol) = some securityId ∧
          entry.message.getTagValueAsInt fixTagOrderSide = .ok side ∧
          entry.message.getTagValueAsLong fixTagOrderQuantity = .ok quantity ∧
          entry.message.getTagValueAsLong fixTagOrderPrice = .ok price ∧
          entry.handedCall manager sessionId = some (.newOrder (submitted entry.message sessionId
            (withOrigin entry.fixMemory entry.message) securityId side quantity price))) ∨
      entry.Refused manager ∧ entry.handedCall manager sessionId = none ∨
      entry.message.messageType = .cancel ∧ ∃ order origClientOrderID,
        manager.getSecurityId (entry.message.getTagValue fixTagSymbol) = some order.securityId ∧
        order.Balanced ∧
        entry.handedCall manager sessionId = some (.cancelOrder order origClientOrderID) := by
  unfold Convertible at convertible
  rcases type with htype | htype
  · rw [htype] at convertible
    obtain ⟨handling, hhandling⟩ := isOk_iff.mp
      ((onNewOrder_isOk sessionId (withOrigin entry.fixMemory entry.message)).mpr convertible)
    have hcall : ∀ result, handling = result → entry.handedCall manager sessionId =
        match result with
        | .call task => some task
        | .rejectOrder _ => none := by
      rintro result rfl
      simp only [handedCall, ServerFix.callFor, Server.onFixMessage, htype, hhandling]
      cases handling with
      | rejectOrder text => rfl
      | call task => rfl
    rcases onNewOrder_supported hhandling with ⟨hsupported, order, horder⟩ | ⟨hnot, text, htext⟩
    · rcases onNewOrder_cases hhandling with ⟨text, htext⟩ |
        ⟨securityId, side, quantity, price, hsecurity, -, hside, hquantity, hprice, hsubmitted⟩
      · rw [horder] at htext
        cases htext
      · exact Or.inl ⟨htype, convertible, hsupported, securityId, side, quantity, price, hsecurity,
          hside, hquantity, hprice, hcall _ hsubmitted⟩
    · exact Or.inr (Or.inl ⟨⟨htype, convertible, hnot⟩, hcall _ htext⟩)
  · rw [htype] at convertible
    obtain ⟨securityId, hsecurity⟩ := Option.isSome_iff_exists.mp convertible
    refine Or.inr (Or.inr ⟨htype,
      cancelRequest entry.message sessionId entry.fixMemory securityId,
      entry.message.getTagValue fixTagOrigClientOrderId, hsecurity,
      (cancelRequest_fresh ..).balanced, ?_⟩)
    simp only [handedCall, ServerFix.callFor, Server.onFixMessage, htype,
      onCancelOrder_request hsecurity]

theorem convertible_of_readable {manager : SecurityManager} {entry : Entry}
    (newOrder : entry.message.messageType = .newOrder)
    (readable : OrderReadable manager entry.message) : Convertible manager entry.message := by
  unfold Convertible
  rw [newOrder]
  exact readable

/-- The call that the FIX mode makes of an order on which the modes agree. -/
theorem Agrees.calls {manager : SecurityManager} {entry : Entry} (h : entry.Agrees manager)
    (sessionId : Nat) :
    ∃ order other, entry.loadedCall manager = some (.newOrder order) ∧
      entry.handedCall manager sessionId = some (.newOrder other) ∧
      Order.AlikeNumbered visible order other := by
  have hconvertible := convertible_of_readable h.newOrder h.readable
  obtain ⟨securityId, orderType, side, quantity, price, hsecurity, htype, hside, hquantity, hprice,
    hloaded⟩ := loadedCall_newOrder h.newOrder h.readable
  rcases handedCall_cases sessionId (Or.inl h.newOrder) hconvertible with
    ⟨-, -, -, sameId, sameSide, sameQuantity, samePrice, hid, hs, hq, hp, hhanded⟩ |
    ⟨hrefused, -⟩ | ⟨hcancel, -⟩
  · rw [hsecurity, Option.some.injEq] at hid
    rw [hside, Except.ok.injEq] at hs
    rw [hquantity, Except.ok.injEq] at hq
    rw [hprice, Except.ok.injEq] at hp
    subst hid hs hq hp
    obtain rfl : orderType = fixOrderTypeLimit := by
      rw [h.supported.1, Except.ok.injEq] at htype
      exact htype.symm
    refine ⟨_, _, hloaded, hhanded, fun orderID => ?_⟩
    simp only [visible, submitted, Order.default, withOrigin, Order.setOrderId, if_true,
      h.side side hside]
  · exact absurd h.supported hrefused.unsupported
  · rw [h.newOrder] at hcancel
    cases hcancel

theorem Refused.call {manager : SecurityManager} {entry : Entry} (h : entry.Refused manager)
    (sessionId : Nat) : entry.handedCall manager sessionId = none := by
  rcases handedCall_cases sessionId (Or.inl h.newOrder)
      (convertible_of_readable h.newOrder h.readable) with
    ⟨-, -, hsupported, -⟩ | ⟨-, hnone⟩ | ⟨hcancel, -⟩
  · exact absurd hsupported h.unsupported
  · exact hnone
  · rw [h.newOrder] at hcancel
    cases hcancel

/-- A message without a call is an order that the FIX mode rejects. -/
theorem refused_of_call {manager : SecurityManager} {entry : Entry} {sessionId : Nat}
    (type : entry.message.messageType = .newOrder ∨ entry.message.messageType = .cancel)
    (convertible : Convertible manager entry.message)
    (none : entry.handedCall manager sessionId = none) : entry.Refused manager := by
  rcases handedCall_cases sessionId type convertible with
    ⟨-, -, -, _, _, _, _, -, -, -, -, hcall⟩ | ⟨hrefused, -⟩ |
    ⟨-, order, origClientOrderID, -, -, hcall⟩
  · rw [none] at hcall
    cases hcall
  · exact hrefused
  · rw [none] at hcall
    cases hcall

/-- A message that becomes a new order of the same side in both modes is one that they agree
on. -/
theorem agrees_of_arrival {manager : SecurityManager} {entry : Entry} {sessionId : Nat}
    {central : CentralOrderBook FixMessage}
    (type : entry.message.messageType = .newOrder ∨ entry.message.messageType = .cancel)
    (convertible : Convertible manager entry.message)
    (same : (entry.loadedCall manager).bind central.arrivesOn =
      (entry.handedCall manager sessionId).bind central.arrivesOn) : entry.Agrees manager := by
  obtain ⟨order, hloaded, -, -⟩ := loadedCall_security type convertible
  rw [hloaded, Option.bind_some, CentralOrderBook.arrivesOn] at same
  rcases handedCall_cases sessionId type convertible with
    ⟨hnew, hreadable, hsupported, securityId, side, quantity, price, -, hside, -, -, hhanded⟩ |
    ⟨-, hhanded⟩ | ⟨-, request, origClientOrderID, -, -, hhanded⟩
  · refine ⟨hnew, hreadable, hsupported, fun read hread => ?_⟩
    obtain ⟨_, _, sameSide, _, _, -, -, hsameSide, -, -, hcall⟩ :=
      loadedCall_newOrder hnew hreadable
    rw [hread, Except.ok.injEq] at hside hsameSide
    subst hside hsameSide
    rw [hcall, Option.some.injEq, Task.newOrder.injEq] at hloaded
    rw [hhanded, Option.bind_some, CentralOrderBook.arrivesOn, Option.some.injEq, Prod.mk.injEq,
      ← hloaded] at same
    exact same.2
  · rw [hhanded] at same
    cases same
  · rw [hhanded] at same
    cases same

end Entry

/-- The sequences that both modes treat alike: limit orders that both enter, or messages that
end both modes before one is entered. -/
def Agreeing (manager : SecurityManager) (entries : List Entry) : Prop :=
  (∀ entry ∈ entries, entry.Agrees manager) ∨
    ∃ front entry back, entries = front ++ entry :: back ∧
      ¬ Convertible manager entry.message ∧ ∀ earlier ∈ front, earlier.Refused manager

/-- A run of the offline mode that has submitted the orders of the messages and drained. -/
def OfflineRun (symbols : List Bytes) (multithreaded : Bool) (entries : List Entry)
    (server : ServerOffline) : Prop :=
  ∃ labels, run ServerOffline.step (ServerOffline.loaded symbols multithreaded
      (entries.map fun entry => (entry.message, entry.offlineMemory))) labels = some server ∧
    server.Done

/-- A run of the FIX mode that has handled the messages, up to the first that throws, and
drained. -/
def FixRun (symbols : List Bytes) (multithreaded : Bool) (sessionId : Nat) (entries : List Entry)
    (server : ServerFix) : Prop :=
  ∃ labels, run ServerFix.step (ServerFix.configured symbols multithreaded) labels = some server ∧
    ServerFix.handed labels = (entries.takeWhile fun entry =>
        (onFixMessage (ServerFix.configured symbols multithreaded).manager entry.message sessionId
          (withOrigin entry.fixMemory entry.message)).isOk).map
      (fun entry => (entry.message, sessionId, entry.fixMemory)) ∧
    server.system.Quiescent

theorem OfflineRun.drained {symbols : List Bytes} {multithreaded : Bool} {entries : List Entry}
    {server : ServerOffline} (h : OfflineRun symbols multithreaded entries server) :
    server.system.Quiescent := by
  obtain ⟨_, _, hdone⟩ := h
  exact hdone.drained

theorem FixRun.drained {symbols : List Bytes} {multithreaded : Bool} {sessionId : Nat}
    {entries : List Entry} {server : ServerFix}
    (h : FixRun symbols multithreaded sessionId entries server) : server.system.Quiescent := by
  obtain ⟨_, _, _, hquiescent⟩ := h
  exact hquiescent

section Runs

variable {symbols : List Bytes} {multithreaded : Bool} {sessionId : Nat} {entries : List Entry}

/-- The manager of both modes. -/
def managerOf (symbols : List Bytes) (multithreaded : Bool) : SecurityManager :=
  (CentralOrderBook.configured (γ := FixMessage) symbols multithreaded).2

theorem OfflineRun.calls {server : ServerOffline}
    (h : OfflineRun symbols multithreaded entries server) :
    ∃ systemLabels, run System.step (System.configured symbols multithreaded) systemLabels =
        some server.system ∧
      ((∀ entry ∈ entries, Convertible (managerOf symbols multithreaded) entry.message) ∧
          callsOf systemLabels =
            entries.filterMap (Entry.loadedCall (managerOf symbols multithreaded)) ∨
        (∃ entry ∈ entries, ¬ Convertible (managerOf symbols multithreaded) entry.message) ∧
          callsOf systemLabels = []) := by
  obtain ⟨labels, hrun, hdone⟩ := h
  obtain ⟨systemLabels, hsystem, hcalls⟩ := ServerOffline.run_calls hrun
  refine ⟨systemLabels, hsystem, ?_⟩
  rw [hdone.orders, List.map_nil, List.append_nil] at hcalls
  rw [← hcalls]
  rcases ServerOffline.loadOrders_cases (managerOf symbols multithreaded)
      (entries.map fun entry => (entry.message, entry.offlineMemory)) with
    ⟨orders, horders, hall, hmade⟩ | ⟨⟨thrown, hthrown⟩, entry, hmem, hnot⟩
  · refine Or.inl ⟨fun entry hmem => hall _ (List.mem_map_of_mem hmem), ?_⟩
    have hloaded : (ServerOffline.loaded symbols multithreaded
        (entries.map fun entry => (entry.message, entry.offlineMemory))).orders = orders := by
      unfold ServerOffline.loaded managerOf at *
      rw [horders]
    rw [hloaded, hmade, List.filterMap_map]
    rfl
  · obtain ⟨entry, hentry, rfl⟩ := List.mem_map.mp hmem
    refine Or.inr ⟨⟨entry, hentry, hnot⟩, ?_⟩
    have hloaded : (ServerOffline.loaded symbols multithreaded
        (entries.map fun entry => (entry.message, entry.offlineMemory))).orders = [] := by
      unfold ServerOffline.loaded managerOf at *
      rw [hthrown]
    rw [hloaded]
    rfl

theorem FixRun.calls {server : ServerFix}
    (h : FixRun symbols multithreaded sessionId entries server) {front back : List Entry}
    (split : entries = front ++ back)
    (handled : ∀ entry ∈ front, Convertible (managerOf symbols multithreaded) entry.message)
    (thrown : ∀ entry ∈ back.head?, ¬ Convertible (managerOf symbols multithreaded) entry.message) :
    ∃ systemLabels, run System.step (System.configured symbols multithreaded) systemLabels =
        some server.system ∧
      callsOf systemLabels =
        front.filterMap (Entry.handedCall (managerOf symbols multithreaded) sessionId) := by
  obtain ⟨labels, hrun, hhanded, -⟩ := h
  refine ⟨_, ServerFix.run_issued hrun, ?_⟩
  have hfront : (entries.takeWhile fun entry => (onFixMessage (managerOf symbols multithreaded)
      entry.message sessionId (withOrigin entry.fixMemory entry.message)).isOk) = front := by
    rw [split, List.takeWhile_append_of_pos fun entry hmem =>
      (onFixMessage_isOk _ _ _ _).mpr (handled entry hmem)]
    cases back with
    | nil => rw [List.takeWhile_nil, List.append_nil]
    | cons entry back =>
      have hthrows : ¬ (onFixMessage (managerOf symbols multithreaded) entry.message sessionId
          (withOrigin entry.fixMemory entry.message)).isOk = true :=
        fun h => thrown entry rfl ((onFixMessage_isOk _ _ _ _).mp h)
      rw [List.takeWhile_cons, if_neg hthrows, List.append_nil]
  have hmanager : (ServerFix.configured symbols multithreaded).manager =
    managerOf symbols multithreaded := rfl
  rw [ServerFix.callsOf_issued, hhanded, hmanager, hfront, List.filterMap_map]
  rfl

theorem exists_first_thrown {manager : SecurityManager}
    (h : ∃ entry ∈ entries, ¬ Convertible manager entry.message) :
    ∃ front entry back, entries = front ++ entry :: back ∧ ¬ Convertible manager entry.message ∧
      ∀ earlier ∈ front, Convertible manager earlier.message := by
  induction entries with
  | nil =>
    obtain ⟨entry, hmem, -⟩ := h
    cases hmem
  | cons first entries ih =>
    by_cases hfirst : Convertible manager first.message
    · obtain ⟨entry, hmem, hnot⟩ := h
      have hlater : entry ∈ entries := by
        rcases List.mem_cons.mp hmem with rfl | hlater
        · exact absurd hfirst hnot
        · exact hlater
      obtain ⟨front, thrown, back, rfl, hthrown, hfront⟩ := ih ⟨entry, hlater, hnot⟩
      exact ⟨first :: front, thrown, back, rfl, hthrown, List.forall_mem_cons.mpr ⟨hfirst, hfront⟩⟩
    · exact ⟨[], first, entries, rfl, hfirst, fun _ hmem => absurd hmem List.not_mem_nil⟩

/-- Where all messages are converted, the same new orders for each ring mean that both modes
enter the same ones. -/
theorem agrees_of_sameByKey {central : CentralOrderBook FixMessage} {manager : SecurityManager}
    (types : ∀ entry ∈ entries,
      entry.message.messageType = .newOrder ∨ entry.message.messageType = .cancel)
    (convertible : ∀ entry ∈ entries, Convertible manager entry.message)
    (same : SameByKey ((entries.filterMap (Entry.loadedCall manager)).filterMap central.arrivesOn)
      ((entries.filterMap (Entry.handedCall manager sessionId)).filterMap central.arrivesOn)) :
    ∀ entry ∈ entries, entry.Agrees manager := by
  rw [List.filterMap_filterMap, List.filterMap_filterMap] at same
  have hfull : ∀ entry ∈ entries,
      ((entry.loadedCall manager).bind central.arrivesOn).isSome = true := by
    intro entry hmem
    obtain ⟨order, hloaded, -, -⟩ :=
      Entry.loadedCall_security (types entry hmem) (convertible entry hmem)
    rw [hloaded]
    rfl
  have hkeys : ∀ entry ∈ entries, ∀ pair other,
      (entry.loadedCall manager).bind central.arrivesOn = some pair →
      (entry.handedCall manager sessionId).bind central.arrivesOn = some other →
      pair.1 = other.1 := by
    intro entry hmem pair other hpair hother
    obtain ⟨order, hloaded, hsecurity, -⟩ :=
      Entry.loadedCall_security (types entry hmem) (convertible entry hmem)
    rw [hloaded] at hpair
    cases hpair
    rcases Entry.handedCall_cases sessionId (types entry hmem) (convertible entry hmem) with
      ⟨-, -, -, securityId, side, quantity, price, hsame, -, -, -, hhanded⟩ | ⟨-, hhanded⟩ |
      ⟨-, request, origClientOrderID, -, -, hhanded⟩
    · rw [hhanded] at hother
      cases hother
      rw [hsecurity, Option.some.injEq] at hsame
      rw [hsame]
      rfl
    · rw [hhanded] at hother
      cases hother
    · rw [hhanded] at hother
      cases hother
  have hpointwise := same.pointwise hfull hkeys
  exact fun entry hmem =>
    Entry.agrees_of_arrival (types entry hmem) (convertible entry hmem) (hpointwise entry hmem)

theorem alike_calls {manager : SecurityManager} (sessionId : Nat)
    (agrees : ∀ entry ∈ entries, entry.Agrees manager) :
    ∃ orders others, entries.filterMap (Entry.loadedCall manager) = orders.map .newOrder ∧
      entries.filterMap (Entry.handedCall manager sessionId) = others.map .newOrder ∧
      List.Forall₂ (Order.AlikeNumbered visible) orders others := by
  induction entries with
  | nil => exact ⟨[], [], rfl, rfl, .nil⟩
  | cons entry entries ih =>
    obtain ⟨hentry, hentries⟩ := List.forall_mem_cons.mp agrees
    obtain ⟨orders, others, horders, hothers, halike⟩ := ih hentries
    obtain ⟨order, other, hloaded, hhanded, hsame⟩ := hentry.calls sessionId
    refine ⟨order :: orders, other :: others, ?_, ?_, .cons hsame halike⟩
    · rw [List.filterMap_cons_some hloaded, horders, List.map_cons]
    · rw [List.filterMap_cons_some hhanded, hothers, List.map_cons]

/-! ## Both modes can complete -/

/-- The call of a message is for a known symbol, with a balanced order. -/
theorem Entry.handedCall_balanced {manager : SecurityManager} {entry : Entry}
    (type : entry.message.messageType = .newOrder ∨ entry.message.messageType = .cancel)
    (convertible : Convertible manager entry.message) {call : OrderMatcher.Task FixMessage}
    (h : entry.handedCall manager sessionId = some call) :
    (∃ known, manager.getSecurityId (entry.message.getTagValue fixTagSymbol) = some known) ∧
      call.order.Balanced := by
  rcases handedCall_cases sessionId type convertible with
    ⟨-, -, -, securityId, side, quantity, price, hknown, -, hquantity, -, hcall⟩ | ⟨-, hcall⟩ |
    ⟨-, order, origClientOrderID, hknown, hbalanced, hcall⟩
  · rw [h, Option.some.injEq] at hcall
    rw [hcall]
    exact ⟨⟨securityId, hknown⟩, (submitted_fresh hquantity ..).balanced⟩
  · rw [h] at hcall
    cases hcall
  · rw [h, Option.some.injEq] at hcall
    rw [hcall]
    exact ⟨⟨_, hknown⟩, hbalanced⟩

theorem exists_offlineRun (symbols : List Bytes) (multithreaded : Bool)
    (types : ∀ entry ∈ entries,
      entry.message.messageType = .newOrder ∨ entry.message.messageType = .cancel) :
    ∃ server, OfflineRun symbols multithreaded entries server := by
  rcases ServerOffline.loadOrders_cases (managerOf symbols multithreaded)
      (entries.map fun entry => (entry.message, entry.offlineMemory)) with
    ⟨orders, horders, hall, hmade⟩ | ⟨⟨thrown, hthrown⟩, -⟩
  · have hcalls : ∀ call ∈ orders.map (fun message => OrderMatcher.Task.newOrder message.order),
        (∃ symbol known, (managerOf symbols multithreaded).getSecurityId symbol = some known) ∧
          call.order.Balanced := by
      intro call hmem
      rw [hmade, List.filterMap_map] at hmem
      obtain ⟨entry, hentry, hcall⟩ := List.mem_filterMap.mp hmem
      obtain ⟨order, hloaded, hknown, hbalanced⟩ :=
        Entry.loadedCall_security (types entry hentry) (hall _ (List.mem_map_of_mem hentry))
      obtain rfl : OrderMatcher.Task.newOrder order = call :=
        Option.some.inj (hloaded.symm.trans hcall)
      exact ⟨⟨_, _, hknown⟩, hbalanced⟩
    obtain ⟨labels, system, hrun, hsame, hdrained⟩ := System.exists_drained_run symbols
      multithreaded _ (fun call hmem => (hcalls call hmem).2) fun call hmem => by
        obtain ⟨⟨symbol, known, hknown⟩, -⟩ := hcalls call hmem
        exact CentralOrderBook.configured_served hknown _
    obtain ⟨offlineLabels, hoffline⟩ := ServerOffline.exists_run hrun hsame
    refine ⟨{ system := system, orders := [] }, offlineLabels, ?_, rfl, hdrained⟩
    have hloaded : ServerOffline.loaded symbols multithreaded
        (entries.map fun entry => (entry.message, entry.offlineMemory)) =
          ⟨System.configured symbols multithreaded, orders⟩ := by
      unfold ServerOffline.loaded managerOf at *
      rw [horders]
    rw [hloaded]
    exact hoffline
  · refine ⟨_, [], rfl, ?_, System.configured_quiescent symbols multithreaded⟩
    unfold ServerOffline.loaded managerOf at *
    rw [hthrown]

theorem exists_fixRun (symbols : List Bytes) (multithreaded : Bool) (sessionId : Nat)
    (types : ∀ entry ∈ entries,
      entry.message.messageType = .newOrder ∨ entry.message.messageType = .cancel) :
    ∃ server, FixRun symbols multithreaded sessionId entries server := by
  obtain ⟨front, hfront⟩ : ∃ front, front = entries.takeWhile fun entry =>
      (onFixMessage (managerOf symbols multithreaded) entry.message sessionId
        (withOrigin entry.fixMemory entry.message)).isOk := ⟨_, rfl⟩
  have hhandled : ∀ entry ∈ front, (onFixMessage (managerOf symbols multithreaded) entry.message
      sessionId (withOrigin entry.fixMemory entry.message)).isOk = true := by
    have himplied : ∀ (handles : Entry → Bool), ∀ entry ∈ entries.takeWhile handles,
        handles entry = true := fun _ _ hmem => List.mem_takeWhile_imp hmem
    rw [hfront]
    exact himplied _
  have hcalls : ∀ call ∈ front.filterMap
        (Entry.handedCall (managerOf symbols multithreaded) sessionId),
      (∃ symbol known, (managerOf symbols multithreaded).getSecurityId symbol = some known) ∧
        call.order.Balanced := by
    intro call hmem
    obtain ⟨entry, hentry, hcall⟩ := List.mem_filterMap.mp hmem
    have hmember : entry ∈ entries := by
      rw [hfront] at hentry
      exact (List.takeWhile_subset _) hentry
    obtain ⟨⟨known, hknown⟩, hbalanced⟩ := Entry.handedCall_balanced (types entry hmember)
      ((onFixMessage_isOk _ _ _ _).mp (hhandled entry hentry)) hcall
    exact ⟨⟨_, known, hknown⟩, hbalanced⟩
  obtain ⟨labels, system, hrun, hsame, hdrained⟩ := System.exists_drained_run symbols
    multithreaded _ (fun call hmem => (hcalls call hmem).2) fun call hmem => by
      obtain ⟨⟨symbol, known, hknown⟩, -⟩ := hcalls call hmem
      exact CentralOrderBook.configured_served hknown _
  have hmessages : ∀ message ∈ front.map fun entry => (entry.message, sessionId, entry.fixMemory),
      (onFixMessage (managerOf symbols multithreaded) message.1 message.2.1
        (withOrigin message.2.2 message.1)).isOk = true := by
    intro message hmem
    obtain ⟨entry, hentry, rfl⟩ := List.mem_map.mp hmem
    exact hhandled entry hentry
  have hmade : callsOf labels =
      (front.map fun entry => (entry.message, sessionId, entry.fixMemory)).filterMap
        (ServerFix.callFor (managerOf symbols multithreaded)) := by
    rw [hsame, List.filterMap_map]
    rfl
  obtain ⟨serverLabels, last, hlast, rfl, hhanded⟩ :=
    ServerFix.exists_run hrun hdrained.submitter hmessages hmade []
  refine ⟨last, serverLabels, hlast, ?_, hdrained⟩
  rw [hhanded, hfront]
  rfl

/-! ## Agreement -/

section Agreement

variable {offline : ServerOffline} {fix : ServerFix}

/-- Runs with the same outcome are of a sequence that both modes treat alike. -/
theorem agreeing_of_sameOutcome
    (types : ∀ entry ∈ entries,
      entry.message.messageType = .newOrder ∨ entry.message.messageType = .cancel)
    (hoffline : OfflineRun symbols multithreaded entries offline)
    (hfix : FixRun symbols multithreaded sessionId entries fix)
    (same : offline.system.SameOutcome visible fix.system) :
    Agreeing (managerOf symbols multithreaded) entries := by
  obtain ⟨offlineLabels, hofflineRun, ⟨hall, hcalls⟩ | ⟨hsome, hcalls⟩⟩ := hoffline.calls
  · -- Every message is converted, and every one of them becomes a new order.
    obtain ⟨fixLabels, hfixRun, hfixCalls⟩ := hfix.calls (List.append_nil entries).symm hall
      fun _ h => by cases h
    have hkeys := same.sameByKey visible_forgets hofflineRun hfixRun
    rw [hcalls, hfixCalls] at hkeys
    exact Or.inl (agrees_of_sameByKey types hall hkeys)
  · -- Offline nothing is submitted, so the FIX mode has made no call.
    obtain ⟨front, entry, back, rfl, hnot, hfront⟩ := exists_first_thrown hsome
    obtain ⟨fixLabels, hfixRun, hfixCalls⟩ := hfix.calls rfl hfront (by rintro _ ⟨⟩; exact hnot)
    have hnone := same.no_calls visible_forgets hofflineRun hfixRun hoffline.drained hfix.drained
      hcalls
    rw [hfixCalls, List.filterMap_eq_nil_iff] at hnone
    refine Or.inr ⟨front, entry, back, rfl, hnot, fun earlier hmem => ?_⟩
    exact Entry.refused_of_call (types earlier (List.mem_append_left _ hmem)) (hfront earlier hmem)
      (hnone earlier hmem)

theorem sameOutcome_of_agreeing
    (hoffline : OfflineRun symbols multithreaded entries offline)
    (hfix : FixRun symbols multithreaded sessionId entries fix)
    (agreeing : Agreeing (managerOf symbols multithreaded) entries) :
    offline.system.SameOutcome visible fix.system := by
  obtain ⟨offlineLabels, hofflineRun, hofflineCalls⟩ := hoffline.calls
  rcases agreeing with hagrees | ⟨front, entry, back, rfl, hnot, hrefused⟩
  · have hall : ∀ entry ∈ entries, Convertible (managerOf symbols multithreaded) entry.message :=
      fun entry hmem => Entry.convertible_of_readable (hagrees entry hmem).newOrder
        (hagrees entry hmem).readable
    obtain ⟨fixLabels, hfixRun, hfixCalls⟩ := hfix.calls (List.append_nil entries).symm hall
      fun _ h => by cases h
    rcases hofflineCalls with ⟨-, hcalls⟩ | ⟨⟨entry, hmem, hnot⟩, -⟩
    · obtain ⟨orders, others, horders, hothers, halike⟩ := alike_calls sessionId hagrees
      exact System.sameOutcome_of_calls visible_forgets visible_routing hofflineRun hfixRun
        hoffline.drained hfix.drained (hcalls.trans horders) (hfixCalls.trans hothers) halike
    · exact absurd (hall entry hmem) hnot
  · obtain ⟨fixLabels, hfixRun, hfixCalls⟩ := hfix.calls rfl
      (fun earlier hmem => Entry.convertible_of_readable (hrefused earlier hmem).newOrder
        (hrefused earlier hmem).readable) (by rintro _ ⟨⟩; exact hnot)
    have hnone : callsOf fixLabels = [].map OrderMatcher.Task.newOrder := by
      rw [hfixCalls, List.map_nil, List.filterMap_eq_nil_iff]
      exact fun earlier hmem => (hrefused earlier hmem).call sessionId
    rcases hofflineCalls with ⟨hall, -⟩ | ⟨-, hcalls⟩
    · exact absurd (hall entry (by simp)) hnot
    · exact System.sameOutcome_of_calls visible_forgets visible_routing hofflineRun hfixRun
        hoffline.drained hfix.drained (hcalls.trans List.map_nil.symm) hnone .nil

end Agreement

end Runs

/-- Both modes can complete on every sequence, and offline order entry agrees with FIX order
entry exactly on the sequences that they treat alike: limit orders that both enter, or messages
that end both modes before one is entered. -/
theorem offline_agrees_iff (symbols : List Bytes) (multithreaded : Bool) (sessionId : Nat)
    (entries : List Entry) (types : ∀ entry ∈ entries,
      entry.message.messageType = .newOrder ∨ entry.message.messageType = .cancel) :
    (∃ offline, OfflineRun symbols multithreaded entries offline) ∧
      (∃ fix, FixRun symbols multithreaded sessionId entries fix) ∧
      ∀ offline fix, OfflineRun symbols multithreaded entries offline →
        FixRun symbols multithreaded sessionId entries fix →
        (offline.system.SameOutcome visible fix.system ↔
          Agreeing (managerOf symbols multithreaded) entries) :=
  ⟨exists_offlineRun symbols multithreaded types,
    exists_fixRun symbols multithreaded sessionId types,
    fun _ _ hoffline hfix => ⟨agreeing_of_sameOutcome types hoffline hfix,
      sameOutcome_of_agreeing hoffline hfix⟩⟩

/-- A limit order, with slots that hold different sessions. -/
def limitEntry : Entry where
  message := newOrderMessage "1" "100" "10"
  offlineMemory := { clearedMemory with sessionId := 7 }
  fixMemory := clearedMemory

theorem limitEntry_agrees (multithreaded : Bool) :
    limitEntry.Agrees (managerOf [ascii "MSFT"] multithreaded) where
  newOrder := rfl
  readable := by
    cases multithreaded with
    | false => constructor <;> decide +kernel
    | true => constructor <;> decide +kernel
  supported := by
    cases multithreaded with
    | false => exact ⟨by decide +kernel, 0, by decide +kernel, by decide +kernel⟩
    | true => exact ⟨by decide +kernel, 0, by decide +kernel, by decide +kernel⟩
  side := by
    intro side hside
    have hbuy : limitEntry.message.getTagValueAsInt fixTagOrderSide = .ok fixOrderSideBuy := by
      decide +kernel
    rw [hbuy, Except.ok.injEq] at hside
    rw [← hside]
    rfl

theorem offline_agrees_iff_limitOrder :
    ∃ offline fix, OfflineRun [ascii "MSFT"] true [limitEntry] offline ∧
      FixRun [ascii "MSFT"] true 3 [limitEntry] fix ∧
      offline.system.SameOutcome visible fix.system := by
  obtain ⟨⟨offline, hoffline⟩, ⟨fix, hfix⟩, hiff⟩ :=
    offline_agrees_iff [ascii "MSFT"] true 3 [limitEntry]
      (by simp [(limitEntry_agrees true).newOrder])
  refine ⟨offline, fix, hoffline, hfix, (hiff offline fix hoffline hfix).mpr (Or.inl ?_)⟩
  simpa using limitEntry_agrees true

/-- The CANCEL message for that order. -/
def cancelEntry : Entry where
  message := cancelMessage "1"
  offlineMemory := clearedMemory
  fixMemory := clearedMemory

/-- Offline the CANCEL message enters the book as an order of its own. -/
theorem offline_enters_cancel :
    ¬ ∀ (symbols : List Bytes) (multithreaded : Bool) (sessionId : Nat) (entries : List Entry),
        (∀ entry ∈ entries,
          entry.message.messageType = .newOrder ∨ entry.message.messageType = .cancel) →
        ∀ offline fix, OfflineRun symbols multithreaded entries offline →
          FixRun symbols multithreaded sessionId entries fix →
          offline.system.SameOutcome visible fix.system := by
  intro h
  have htypes : ∀ entry ∈ [limitEntry, cancelEntry],
      entry.message.messageType = .newOrder ∨ entry.message.messageType = .cancel := by
    decide +kernel
  obtain ⟨offline, hoffline⟩ := exists_offlineRun [ascii "MSFT"] false htypes
  obtain ⟨fix, hfix⟩ := exists_fixRun [ascii "MSFT"] false 0 htypes
  have hsame := h [ascii "MSFT"] false 0 _ htypes offline fix hoffline hfix
  rcases agreeing_of_sameOutcome htypes hoffline hfix hsame with
    hagrees | ⟨front, entry, back, hsplit, hnot, -⟩
  · have hnew := (hagrees cancelEntry (by simp)).newOrder
    revert hnew
    decide +kernel
  · have hconvertible : ∀ entry ∈ [limitEntry, cancelEntry],
        Convertible (managerOf [ascii "MSFT"] false) entry.message := by
      intro entry hmem
      rw [← loadOrder_isOk _ _ clearedMemory]
      revert entry hmem
      decide +kernel
    exact hnot (hconvertible entry (by rw [hsplit]; simp))

end LiteExchange.Server
