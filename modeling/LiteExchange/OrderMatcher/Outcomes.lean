import LiteExchange.Foundation.ByKey
import LiteExchange.OrderMatcher.ExecutionReports
import LiteExchange.OrderMatcher.Forgetting
import LiteExchange.OrderMatcher.Refinement

/-!
# What drained runs agree on

A ring gets the ACCEPTED reports in the order of the calls, and between them, whenever the
workers come to it, the reports of the tasks. A drained run is therefore determined by its
calls, up to where in a ring the two kinds meet; and if the calls of two runs differ only in
what a map forgets, so do their books and reports.
-/

namespace LiteExchange.OrderMatcher

open Foundation.Ascii Foundation.ByKey Foundation.Runs

variable {γ : Type}

/-- The map keeps the security that an order is routed by. -/
def Order.KeepsRouting (forget : Order γ → Order γ) : Prop :=
  ∀ order, (forget order).securityId = order.securityId

/-- The map makes the orders equal once `addOrder` has numbered them. -/
def Order.AlikeNumbered (forget : Order γ → Order γ) (order other : Order γ) : Prop :=
  ∀ orderID, forget (order.setOrderId orderID) = forget (other.setOrderId orderID)

namespace CentralOrderBook

/-- The ACCEPTED reports of a ring. -/
def acceptedReports (central : CentralOrderBook γ) (queueID : Nat) : List (OutgoingMessage γ) :=
  (central.outgoingMessages queueID).filter fun message => message.status == .accepted

/-- The ACCEPTED report that a request puts into a ring. -/
def acceptedOf (central : CentralOrderBook γ) (queueID : Nat) :
    Task γ → List (OutgoingMessage γ)
  | .newOrder order =>
    if queueID = central.queueID order.securityId then [.new order .accepted] else []
  | .cancelOrder _ _ => []

/-- The ring that a new order is reported to, with its side. -/
def arrivesOn (central : CentralOrderBook γ) : Task γ → Option (Nat × OrderSide)
  | .newOrder order => some (central.queueID order.securityId, order.side)
  | .cancelOrder _ _ => none

theorem acceptedOf_sides (central : CentralOrderBook γ) (orderNumber : BitVec 32)
    (calls : List (Task γ)) (queueID : Nat) :
    ((numberCalls orderNumber calls).flatMap (central.acceptedOf queueID)).map
        (fun message => message.order.side) =
      ((calls.filterMap central.arrivesOn).filter fun pair => pair.1 == queueID).map Prod.snd := by
  induction calls generalizing orderNumber with
  | nil => rfl
  | cons call calls ih =>
    cases call with
    | cancelOrder order origClientOrderID => exact ih orderNumber
    | newOrder order =>
      have harrives : central.arrivesOn (.newOrder order) =
          some (central.queueID order.securityId, order.side) := rfl
      rw [List.filterMap_cons_some harrives, List.filter_cons, numberCalls, List.flatMap_cons,
        List.map_append, ih, acceptedOf]
      by_cases hring : queueID = central.queueID order.securityId
      · have hsame : queueID = central.queueID (order.setOrderId
            (orderIdOf (orderNumber + 1))).securityId := hring
        rw [if_pos hsame, if_pos (beq_iff_eq.mpr hring.symm)]
        rfl
      · have hother : ¬ queueID = central.queueID (order.setOrderId
            (orderIdOf (orderNumber + 1))).securityId := hring
        rw [if_neg hother, if_neg (by rw [beq_iff_eq]; exact Ne.symm hring)]
        rfl

end CentralOrderBook

/-- Every cancel request has one report. -/
theorem BookLog.cancel_reports {tasks : List (Task γ)}
    (cancels : ∀ task ∈ tasks, task.isNewOrder = false) {log after : BookLog γ}
    (h : run runTask log tasks = some after) :
    after.reports.length = log.reports.length + tasks.length := by
  induction tasks generalizing log with
  | nil =>
    cases h
    rfl
  | cons task tasks ih =>
    obtain ⟨next, hstep, hrest⟩ := Option.bind_eq_some_iff.mp h
    obtain ⟨hcancel, hcancels⟩ := List.forall_mem_cons.mp cancels
    cases task with
    | newOrder order => cases hcancel
    | cancelOrder order origClientOrderID =>
      obtain ⟨⟨book, reports⟩, hbook, rfl⟩ := Option.map_eq_some_iff.mp hstep
      have hone : reports.length = 1 := by
        obtain rfl : (log.book.cancelOrder order origClientOrderID).2 = reports :=
          congrArg Prod.snd (Option.some.inj hbook)
        unfold OrderBook.cancelOrder
        split
        · rfl
        · rfl
      rw [ih hcancels hrest, List.length_append, hone, List.length_cons]
      omega

namespace System

/-- Two systems agree on their books and reports, up to what the map forgets. Without
workers they agree on the rings. -/
structure SameOutcome (forget : Order γ → Order γ) (system other : System γ) : Prop where
  books : ∀ securityId, (system.central.book securityId).mapOrders forget =
    (other.central.book securityId).mapOrders forget
  accepted : ∀ queueID,
    (system.central.acceptedReports queueID).map (OutgoingMessage.mapOrder forget) =
      (other.central.acceptedReports queueID).map (OutgoingMessage.mapOrder forget)
  taskReports : ∀ securityId,
    (system.central.taskReports securityId).map (OutgoingMessage.mapOrder forget) =
      (other.central.taskReports securityId).map (OutgoingMessage.mapOrder forget)
  rings : system.central.isMatchingMultithreaded = false →
    other.central.isMatchingMultithreaded = false → ∀ queueID,
    (system.central.outgoingMessages queueID).map (OutgoingMessage.mapOrder forget) =
      (other.central.outgoingMessages queueID).map (OutgoingMessage.mapOrder forget)

/-! ## The ACCEPTED reports of a run -/

theorem acceptedBy_request (system : System γ) (queueID : Nat) (label : Label γ) :
    system.acceptedBy queueID label =
      (numberCalls system.central.orderNumber label.call.toList).flatMap
        (system.central.acceptedOf queueID) := by
  cases label with
  | addOrder order =>
    simp only [acceptedBy, Label.call, Option.toList_some, numberCalls, List.flatMap_cons,
      List.flatMap_nil, List.append_nil]
    rfl
  | cancelOrder order origClientOrderID => rfl
  | submit => rfl
  | work queueIndex => rfl

theorem step_accepted {requests : List (Task γ)} {system next : System γ} {label : Label γ}
    (h : system.Simulates requests) (hstep : system.step label = some next) (queueID : Nat) :
    next.central.acceptedReports queueID =
      system.central.acceptedReports queueID ++ system.acceptedBy queueID label := by
  obtain ⟨later, hlater, hring⟩ := (step_pushes h hstep).2 queueID
  have hnone : (later.filter fun message => message.status == .accepted) = [] := by
    rw [List.filter_eq_nil_iff]
    intro message hmem
    simpa using (hlater message hmem).1
  have hown : ((system.acceptedBy queueID label).filter fun message =>
      message.status == .accepted) = system.acceptedBy queueID label := by
    rw [List.filter_eq_self]
    intro message hmem
    unfold acceptedBy at hmem
    split at hmem
    · split at hmem
      · rw [List.mem_singleton.mp hmem]
        rfl
      · cases hmem
    · cases hmem
  unfold CentralOrderBook.acceptedReports
  rw [hring, List.filter_append, List.filter_append, hnone, hown, List.append_nil]

/-- Every ring holds the ACCEPTED reports of its requests, in the order of the calls. -/
theorem run_accepted (symbols : List Bytes) (multithreaded : Bool) {labels : List (Label γ)}
    {system : System γ} (h : run step (configured symbols multithreaded) labels = some system) :
    (∀ securityId, system.central.queueID securityId =
        (configured (γ := γ) symbols multithreaded).central.queueID securityId) ∧
      ∀ queueID, system.central.acceptedReports queueID = (requestsOf labels).flatMap
        ((configured symbols multithreaded).central.acceptedOf queueID) := by
  apply run_induction (fun labels (system : System γ) =>
    (∀ securityId, system.central.queueID securityId =
        (configured (γ := γ) symbols multithreaded).central.queueID securityId) ∧
      ∀ queueID, system.central.acceptedReports queueID = (requestsOf labels).flatMap
        ((configured symbols multithreaded).central.acceptedOf queueID)) _ _ h
  · refine ⟨fun _ => rfl, fun queueID => ?_⟩
    rw [CentralOrderBook.acceptedReports, (configured_start symbols multithreaded).1]
    rfl
  · intro labels system label next hrun hI hstep
    obtain ⟨hqueues, haccepted⟩ := hI
    obtain ⟨hsim, hnumber⟩ := run_simulates symbols multithreaded hrun
    refine ⟨fun securityId => ?_, fun queueID => ?_⟩
    · rw [(step_pushes hsim hstep).1, hqueues]
    · have hof : system.central.acceptedOf queueID =
          (configured (γ := γ) symbols multithreaded).central.acceptedOf queueID := by
        funext task
        cases task with
        | newOrder order => simp only [CentralOrderBook.acceptedOf, hqueues]
        | cancelOrder order origClientOrderID => rfl
      rw [step_accepted hsim hstep, haccepted, acceptedBy_request, hof, hnumber, requestsOf_snoc,
        List.flatMap_append]

/-! ## Runs with calls that a map makes equal -/

section Same

variable {forget : Order γ → Order γ}

theorem numberCalls_alike {orders others : List (Order γ)}
    (same : List.Forall₂ (Order.AlikeNumbered forget) orders others) (orderNumber : BitVec 32) :
    (numberCalls orderNumber (orders.map .newOrder)).map (Task.mapOrder forget) =
      (numberCalls orderNumber (others.map .newOrder)).map (Task.mapOrder forget) := by
  induction same generalizing orderNumber with
  | nil => rfl
  | cons hsame _ ih =>
    simp only [List.map_cons, numberCalls, Task.mapOrder, ih]
    rw [hsame]

theorem mapOrder_securityId (routing : Order.KeepsRouting forget) (task : Task γ) :
    (task.mapOrder forget).securityId = task.securityId := by
  cases task with
  | newOrder order => exact routing order
  | cancelOrder order origClientOrderID => exact routing order

theorem acceptedOf_mapOrder (forgets : Order.Forgets forget) (routing : Order.KeepsRouting forget)
    (central : CentralOrderBook γ) (queueID : Nat) (tasks : List (Task γ)) :
    (tasks.flatMap (central.acceptedOf queueID)).map (OutgoingMessage.mapOrder forget) =
      (tasks.map (Task.mapOrder forget)).flatMap (central.acceptedOf queueID) := by
  rw [List.map_flatMap, List.flatMap_map]
  apply List.flatMap_congr
  intro task _
  cases task with
  | cancelOrder order origClientOrderID => rfl
  | newOrder order =>
    simp only [Task.mapOrder, CentralOrderBook.acceptedOf, routing order]
    split
    · simp only [List.map_cons, List.map_nil, OutgoingMessage.mapOrder, forgets.report]
    · rfl

theorem filter_mapOrder (routing : Order.KeepsRouting forget) (tasks : List (Task γ))
    (securityId : Nat) :
    (tasks.filter fun task => task.securityId == securityId).map (Task.mapOrder forget) =
      (tasks.map (Task.mapOrder forget)).filter fun task => task.securityId == securityId := by
  have hsame : ((fun task : Task γ => task.securityId == securityId) ∘ Task.mapOrder forget) =
      fun task => task.securityId == securityId := by
    funext task
    simp only [Function.comp_apply, mapOrder_securityId routing]
  rw [List.filter_map, hsame]

/-- What a security ends with, in runs with such calls. -/
theorem drained_mapOrder (forgets : Order.Forgets forget) (routing : Order.KeepsRouting forget)
    {requests others : List (Task γ)} {system other : System γ}
    (h : system.Simulates requests) (h' : other.Simulates others) (drained : system.Quiescent)
    (drained' : other.Quiescent) (new : ∀ task ∈ requests, task.isNewOrder = true)
    (new' : ∀ task ∈ others, task.isNewOrder = true)
    (same : requests.map (Task.mapOrder forget) = others.map (Task.mapOrder forget))
    (securityId : Nat) :
    (system.central.book securityId).mapOrders forget =
        (other.central.book securityId).mapOrders forget ∧
      (system.central.taskReports securityId).map (OutgoingMessage.mapOrder forget) =
        (other.central.taskReports securityId).map (OutgoingMessage.mapOrder forget) := by
  obtain ⟨log, hlog, hbook, hreports⟩ := h.drained drained securityId
  obtain ⟨otherLog, hotherLog, hotherBook, hotherReports⟩ := h'.drained drained' securityId
  have hsame : log.mapOrders forget = otherLog.mapOrders forget := by
    refine BookLog.mapOrders_eq forgets (fun task hmem => Or.inl ?_)
      (fun task hmem => Or.inl ?_) ?_ hlog hotherLog
    · exact new task (List.mem_of_mem_filter hmem)
    · exact new' task (List.mem_of_mem_filter hmem)
    · rw [filter_mapOrder routing, filter_mapOrder routing, same]
  rw [hbook, hreports, hotherBook, hotherReports]
  exact ⟨congrArg BookLog.book hsame, congrArg BookLog.reports hsame⟩

end Same

/-! ## Without workers -/

theorem step_mode {system next : System γ} {label : Label γ}
    (h : system.step label = some next) :
    next.central.isMatchingMultithreaded = system.central.isMatchingMultithreaded := by
  cases label with
  | addOrder order =>
    simp only [step, addOrder, Option.ite_none_right_eq_some] at h
    obtain ⟨-, h⟩ := h
    split at h
    · cases h
      rfl
    · obtain ⟨central, htask, rfl⟩ := Option.map_eq_some_iff.mp h
      have hrun : (system.central.acceptOrder order).1.runTask
          (.newOrder (system.central.acceptOrder order).2) = some central := htask
      exact (runTask_mode hrun :)
  | cancelOrder order origClientOrderID =>
    simp only [step, cancelOrder, Option.ite_none_right_eq_some] at h
    obtain ⟨-, h⟩ := h
    split at h
    · rw [(submitTask_frame h).1]
    · cases h
      rfl
  | submit =>
    simp only [step] at h
    split at h
    · rw [(submitTask_frame h).1]
    · cases h
  | work queueIndex =>
    simp only [step, work] at h
    split at h
    · split at h
      · cases h
      · obtain ⟨result, -, rfl⟩ := Option.map_eq_some_iff.mp h
        rfl
    · cases h
      rfl
    · cases h
      rfl
    · cases h
      rfl

theorem run_mode (symbols : List Bytes) {multithreaded : Bool} {labels : List (Label γ)}
    {system : System γ} (h : run step (configured symbols multithreaded) labels = some system) :
    system.central.isMatchingMultithreaded = multithreaded := by
  apply run_induction
    (fun _ (system : System γ) => system.central.isMatchingMultithreaded = multithreaded) _ _ h
  · cases multithreaded with
    | false => exact configured_mode symbols
    | true => rfl
  · intro labels system label next _ hmode hstep
    exact (step_mode hstep).trans hmode

/-- A run of the single-threaded system makes its calls, one after the other. -/
theorem run_single (symbols : List Bytes) {labels : List (Label γ)} {system : System γ}
    (h : run step (configured symbols false) labels = some system) :
    run CentralOrderBook.call (configured symbols false).central (callsOf labels) =
      some system.central := by
  apply run_induction (fun labels (system : System γ) =>
    run CentralOrderBook.call (configured symbols false).central (callsOf labels) =
      some system.central) _ _ h
  · rfl
  · intro labels system label next hrun hcalls hstep
    have hmode := run_mode symbols hrun
    obtain ⟨hqueues, hworkers, hsubmitter⟩ :=
      (run_simulates symbols false hrun).1.placed.synchronous hmode
    have hcall : ∀ call : Task γ, label = call.label →
        run CentralOrderBook.call (configured symbols false).central
          (callsOf (labels ++ [label])) = some next.central := by
      rintro call rfl
      rw [step_label hsubmitter hmode] at hstep
      obtain ⟨central, hcentral, rfl⟩ := Option.map_eq_some_iff.mp hstep
      have hone : call.label.call.toList = [call] := by
        cases call with
        | newOrder order => rfl
        | cancelOrder order origClientOrderID => rfl
      rw [callsOf_snoc, hone, run_snoc, hcalls]
      exact hcentral
    cases label with
    | addOrder order => exact hcall (.newOrder order) rfl
    | cancelOrder order origClientOrderID =>
      exact hcall (.cancelOrder order origClientOrderID) rfl
    | submit => simp [step, hsubmitter] at hstep
    | work queueIndex => simp [step, work, hqueues, hworkers] at hstep

/-- Two central order books that the map makes equal. -/
structure Alike (forget : Order γ → Order γ) (central other : CentralOrderBook γ) : Prop where
  orderNumber : central.orderNumber = other.orderNumber
  queueID : ∀ securityId, central.queueID securityId = other.queueID securityId
  books : ∀ securityId,
    (central.book securityId).mapOrders forget = (other.book securityId).mapOrders forget
  rings : ∀ queueID, (central.outgoingMessages queueID).map (OutgoingMessage.mapOrder forget) =
    (other.outgoingMessages queueID).map (OutgoingMessage.mapOrder forget)

section Alike

variable {forget : Order γ → Order γ} {central other : CentralOrderBook γ}

theorem Alike.push (h : Alike forget central other) {securityId otherId : Nat}
    (security : securityId = otherId) {messages others : List (OutgoingMessage γ)}
    (same : messages.map (OutgoingMessage.mapOrder forget) =
      others.map (OutgoingMessage.mapOrder forget)) :
    Alike forget (central.push securityId messages) (other.push otherId others) := by
  refine ⟨h.orderNumber, h.queueID, h.books, fun queueID => ?_⟩
  rw [CentralOrderBook.outgoingMessages_push, CentralOrderBook.outgoingMessages_push,
    List.map_append, List.map_append, h.rings, h.queueID, security]
  congr 1
  split
  · exact same
  · rfl

theorem Alike.setBook (h : Alike forget central other) {securityId otherId : Nat}
    (security : securityId = otherId) {book otherBook : OrderBook γ}
    (same : book.mapOrders forget = otherBook.mapOrders forget) :
    Alike forget (central.setBook securityId book) (other.setBook otherId otherBook) := by
  refine ⟨h.orderNumber, h.queueID, fun id => ?_, h.rings⟩
  rw [CentralOrderBook.book_setBook, CentralOrderBook.book_setBook, security]
  split
  · exact same
  · exact h.books id

theorem same_security (routing : Order.KeepsRouting forget) {order otherOrder : Order γ}
    (same : forget order = forget otherOrder) : order.securityId = otherOrder.securityId := by
  rw [← routing order, same, routing]

theorem Alike.taskNewOrder (forgets : Order.Forgets forget) (routing : Order.KeepsRouting forget)
    (h : Alike forget central other) {order otherOrder : Order γ}
    (same : forget order = forget otherOrder) {next otherNext : CentralOrderBook γ}
    (htask : central.taskNewOrder order = some next)
    (hother : other.taskNewOrder otherOrder = some otherNext) : Alike forget next otherNext := by
  have hsecurity := same_security routing same
  obtain ⟨⟨book, reports⟩, hbook, rfl⟩ := Option.map_eq_some_iff.mp htask
  obtain ⟨⟨otherBook, otherReports⟩, hotherBook, rfl⟩ := Option.map_eq_some_iff.mp hother
  have hmapped := OrderBook.mapOrders_newOrder forgets (central.book order.securityId) order
  have hotherMapped :=
    OrderBook.mapOrders_newOrder forgets (other.book otherOrder.securityId) otherOrder
  rw [hbook, h.books, same, hsecurity, hotherMapped, hotherBook] at hmapped
  simp only [Option.map_some, Option.some.injEq, Prod.mk.injEq] at hmapped
  exact (h.setBook hsecurity hmapped.1.symm).push hsecurity hmapped.2.symm

/-- Orders that the map makes equal keep the books alike. -/
theorem Alike.addOrder (forgets : Order.Forgets forget) (routing : Order.KeepsRouting forget)
    (h : Alike forget central other) {order otherOrder : Order γ}
    (same : Order.AlikeNumbered forget order otherOrder) {next otherNext : CentralOrderBook γ}
    (hcall : central.addOrder order = some next)
    (hother : other.addOrder otherOrder = some otherNext) : Alike forget next otherNext := by
  have hid : central.nextOrderId = other.nextOrderId := by
    unfold CentralOrderBook.nextOrderId
    rw [h.orderNumber]
  have hnumbered : forget (order.setOrderId central.nextOrderId) =
      forget (otherOrder.setOrderId other.nextOrderId) := by
    rw [hid, same]
  have hreport : [OutgoingMessage.new (order.setOrderId central.nextOrderId) .accepted].map
        (OutgoingMessage.mapOrder forget) =
      [OutgoingMessage.new (otherOrder.setOrderId other.nextOrderId) .accepted].map
        (OutgoingMessage.mapOrder forget) := by
    simp only [List.map_cons, List.map_nil, OutgoingMessage.mapOrder, forgets.report, hnumbered]
  have hcounted : Alike forget
      ({ central with orderNumber := central.orderNumber + 1 } : CentralOrderBook γ)
      { other with orderNumber := other.orderNumber + 1 } :=
    ⟨congrArg (· + 1) h.orderNumber, h.queueID, h.books, h.rings⟩
  have haccepted : Alike forget (central.acceptOrder order).1 (other.acceptOrder otherOrder).1 :=
    hcounted.push (same_security routing hnumbered) hreport
  exact haccepted.taskNewOrder forgets routing hnumbered hcall hother

theorem Alike.run (forgets : Order.Forgets forget) (routing : Order.KeepsRouting forget)
    (h : Alike forget central other) {orders others : List (Order γ)}
    (same : List.Forall₂ (Order.AlikeNumbered forget) orders others)
    {next otherNext : CentralOrderBook γ}
    (hrun : Foundation.Runs.run CentralOrderBook.call central (orders.map .newOrder) = some next)
    (hother : Foundation.Runs.run CentralOrderBook.call other (others.map .newOrder) =
      some otherNext) : Alike forget next otherNext := by
  induction same generalizing central other with
  | nil =>
    cases hrun
    cases hother
    exact h
  | cons hsame _ ih =>
    obtain ⟨middle, hcall, hrest⟩ := Option.bind_eq_some_iff.mp hrun
    obtain ⟨otherMiddle, hotherCall, hotherRest⟩ := Option.bind_eq_some_iff.mp hother
    exact ih (h.addOrder forgets routing hsame hcall hotherCall) hrest hotherRest

end Alike

/-- Drained runs whose calls are new orders that the map makes equal have the same outcome. -/
theorem sameOutcome_of_calls {forget : Order γ → Order γ} (forgets : Order.Forgets forget)
    (routing : Order.KeepsRouting forget) {symbols : List Bytes} {multithreaded : Bool}
    {labels otherLabels : List (Label γ)} {system other : System γ}
    (h : run step (configured symbols multithreaded) labels = some system)
    (h' : run step (configured symbols multithreaded) otherLabels = some other)
    (drained : system.Quiescent) (drained' : other.Quiescent) {orders others : List (Order γ)}
    (calls : callsOf labels = orders.map .newOrder)
    (otherCalls : callsOf otherLabels = others.map .newOrder)
    (same : List.Forall₂ (Order.AlikeNumbered forget) orders others) :
    SameOutcome forget system other := by
  obtain ⟨hsim, -⟩ := run_simulates symbols multithreaded h
  obtain ⟨hotherSim, -⟩ := run_simulates symbols multithreaded h'
  have hnew : ∀ orders : List (Order γ), ∀ task ∈ numberCalls 0 (orders.map .newOrder),
      task.isNewOrder = true := by
    intro orders
    refine numberCalls_forall (P := fun task => task.isNewOrder = true) (fun _ _ _ => rfl) 0 ?_
    simp [Task.isNewOrder]
  have hrequests : (requestsOf labels).map (Task.mapOrder forget) =
      (requestsOf otherLabels).map (Task.mapOrder forget) := by
    unfold requestsOf
    rw [calls, otherCalls, numberCalls_alike same]
  have hdrained := drained_mapOrder forgets routing hsim hotherSim drained drained'
    (by rw [requestsOf, calls]; exact hnew orders)
    (by rw [requestsOf, otherCalls]; exact hnew others) hrequests
  refine ⟨fun securityId => (hdrained securityId).1, fun queueID => ?_,
    fun securityId => (hdrained securityId).2, fun hmode hmode' queueID => ?_⟩
  · rw [(run_accepted symbols multithreaded h).2, (run_accepted symbols multithreaded h').2,
      acceptedOf_mapOrder forgets routing, acceptedOf_mapOrder forgets routing, hrequests]
  · obtain rfl : multithreaded = false := (run_mode symbols h).symm.trans hmode
    have hstart : Alike forget (configured (γ := γ) symbols false).central
        (configured symbols false).central := ⟨rfl, fun _ => rfl, fun _ => rfl, fun _ => rfl⟩
    have hcalls := run_single symbols h
    have hotherCalls := run_single symbols h'
    rw [calls] at hcalls
    rw [otherCalls] at hotherCalls
    exact (hstart.run forgets routing same hcalls hotherCalls).rings queueID

/-! ## Which calls a drained run had -/

section Calls

variable {forget : Order γ → Order γ} {symbols : List Bytes} {multithreaded : Bool}
  {labels otherLabels : List (Label γ)} {system other : System γ}

/-- Runs with the same outcome had, for each ring, new orders of the same sides. -/
theorem SameOutcome.sameByKey (forgets : Order.Forgets forget)
    (same : SameOutcome forget system other)
    (h : run step (configured symbols multithreaded) labels = some system)
    (h' : run step (configured symbols multithreaded) otherLabels = some other) :
    SameByKey
      ((callsOf labels).filterMap (configured (γ := γ) symbols multithreaded).central.arrivesOn)
      ((callsOf otherLabels).filterMap
        (configured (γ := γ) symbols multithreaded).central.arrivesOn) := by
  have hsides : ∀ messages : List (OutgoingMessage γ),
      (messages.map (OutgoingMessage.mapOrder forget)).map (fun message => message.order.side) =
        messages.map fun message => message.order.side := by
    intro messages
    rw [List.map_map]
    exact List.map_congr_left fun message _ => forgets.side message.order
  intro queueID
  have haccepted := congrArg (List.map fun message => message.order.side) (same.accepted queueID)
  rwa [hsides, hsides, (run_accepted symbols multithreaded h).2,
    (run_accepted symbols multithreaded h').2, requestsOf, requestsOf,
    CentralOrderBook.acceptedOf_sides, CentralOrderBook.acceptedOf_sides] at haccepted

/-- A drained run that has the outcome of a run without calls has no calls. -/
theorem SameOutcome.no_calls (forgets : Order.Forgets forget)
    (same : SameOutcome forget system other)
    (h : run step (configured symbols multithreaded) labels = some system)
    (h' : run step (configured symbols multithreaded) otherLabels = some other)
    (drained : system.Quiescent) (drained' : other.Quiescent) (none : callsOf labels = []) :
    callsOf otherLabels = [] := by
  obtain ⟨hsim, -⟩ := run_simulates symbols multithreaded h
  obtain ⟨hotherSim, -⟩ := run_simulates symbols multithreaded h'
  have hcancels : ∀ call ∈ callsOf otherLabels, call.isNewOrder = false := by
    intro call hmem
    have hperm := (same.sameByKey forgets h h').perm
    rw [none] at hperm
    have hempty := List.filterMap_eq_nil_iff.mp hperm.symm.eq_nil call hmem
    cases call with
    | newOrder order => cases hempty
    | cancelOrder order origClientOrderID => rfl
  by_contra hcalls
  obtain ⟨task, tasks, hrequests⟩ : ∃ task tasks, requestsOf otherLabels = task :: tasks := by
    obtain ⟨call, calls, hcalls⟩ := List.exists_cons_of_ne_nil hcalls
    unfold requestsOf
    rw [hcalls]
    cases call with
    | newOrder order => exact ⟨_, _, rfl⟩
    | cancelOrder order origClientOrderID => exact ⟨_, _, rfl⟩
  obtain ⟨log, hlog, -, hreports⟩ := hsim.drained drained task.securityId
  obtain ⟨otherLog, hotherLog, -, hotherReports⟩ := hotherSim.drained drained' task.securityId
  have hempty : otherLog.reports = [] := by
    have htasks := same.taskReports task.securityId
    rw [requestsOf, none] at hlog
    cases hlog
    rw [hreports, hotherReports] at htasks
    exact List.map_eq_nil_iff.mp htasks.symm
  have hrequestCancels : ∀ request ∈ requestsOf otherLabels, request.isNewOrder = false :=
    numberCalls_forall (fun _ _ h => h) 0 hcancels
  have hlength := BookLog.cancel_reports
    (fun request hmem => hrequestCancels request (List.mem_of_mem_filter hmem)) hotherLog
  rw [hempty, hrequests, List.filter_cons, if_pos (beq_self_eq_true _)] at hlength
  simp at hlength

end Calls

end System

end LiteExchange.OrderMatcher
