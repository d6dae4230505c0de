import LiteExchange.OrderMatcher.TaskEffects

/-!
# The submitting thread and the workers

Source: addOrder, cancelOrder, the two tasks and thread_pool.cpp. One thread calls
`addOrder` and `cancelOrder`; in multithreaded mode `addOrder` pushes the ACCEPTED
report in one step and the task in another, and each worker pops the tasks of its
queue, works on the book of the task's security and pushes its reports one by one.
A found order is flagged when its task begins and erased after its CANCELED
report. A push to a full ring waits, so a ring is the sequence pushed to it.
-/

namespace LiteExchange.OrderMatcher

open Foundation.Ascii Foundation.Runs

variable {γ : Type}

namespace OrderBook

/-- A task up to its first push: the book, the reports to push and, for a cancel
that found its order, the order to erase afterwards. -/
def beginTask (book : OrderBook γ) :
    Task γ → Option (OrderBook γ × List (OutgoingMessage γ) × Option (Order γ))
  | .newOrder order => (book.newOrder order).map fun (next, reports) => (next, reports, none)
  | .cancelOrder order origClientOrderID =>
    match book.find origClientOrderID order.sessionId order.side with
    | some found =>
      some (book.cancelFound origClientOrderID order.sessionId order.side,
        [.new found.cancel .canceled], some found.cancel)
    | none => some (book, [.new order .rejected], none)

/-- The book after the erase that is still to come. -/
def finishTask (book : OrderBook γ) : Option (Order γ) → OrderBook γ
  | some order => book.erase order
  | none => book

/-- A task is its beginning, its pushes and its end. -/
theorem runTask_eq_beginTask (book : OrderBook γ) (task : Task γ) :
    book.runTask task = (book.beginTask task).map fun (next, reports, erasing) =>
      (next.finishTask erasing, reports) := by
  cases task with
  | newOrder order =>
    unfold runTask beginTask
    rw [Option.map_map]
    exact (Option.map_id' (x := book.newOrder order)).symm
  | cancelOrder order origClientOrderID =>
    simp only [runTask, beginTask, cancelOrder]
    cases book.find origClientOrderID order.sessionId order.side with
    | none => rfl
    | some found => rfl

end OrderBook

/-- A worker waits for a task, or has begun one of this security: it still has to
push `pending` and to erase `erasing`. -/
inductive Worker (γ : Type) where
  | idle
  | busy (securityId : Nat) (pending : List (OutgoingMessage γ)) (erasing : Option (Order γ))
  deriving DecidableEq

/-- `submitting` is the task of an `addOrder` that has pushed its ACCEPTED report
and not yet submitted the task. -/
structure System (γ : Type) where
  central : CentralOrderBook γ
  threadCount : Nat
  threadQueues : Nat → List (Task γ) := fun _ => []
  workers : Nat → Worker γ := fun _ => .idle
  submitting : Option (Task γ) := none

/-- The steps: the calls, the second half of `addOrder`, and a step of a worker. -/
inductive Label (γ : Type) where
  | addOrder (order : Order γ)
  | cancelOrder (order : Order γ) (origClientOrderID : Bytes)
  | submit
  | work (queueIndex : Nat)

namespace System

/-- `ThreadPool::submitTask`, which throws on an invalid queue index. -/
def submitTask (system : System γ) (task : Task γ) (queueID : Nat) : Option (System γ) :=
  if queueID < system.threadCount then
    some { system with
      threadQueues := Function.update system.threadQueues queueID
        (system.threadQueues queueID ++ [task]) }
  else none

def addOrder (system : System γ) (order : Order γ) : Option (System γ) :=
  let (central, order) := system.central.acceptOrder order
  if central.isMatchingMultithreaded then
    some { system with central := central, submitting := some (.newOrder order) }
  else
    (central.taskNewOrder order).map fun central => { system with central := central }

def cancelOrder (system : System γ) (order : Order γ) (origClientOrderID : Bytes) :
    Option (System γ) :=
  if system.central.isMatchingMultithreaded then
    system.submitTask (.cancelOrder order origClientOrderID)
      (system.central.queueID order.securityId)
  else
    some { system with central := system.central.taskCancelOrder order origClientOrderID }

/-- One step of `workerThreadFunction`. -/
def work (system : System γ) (queueIndex : Nat) : Option (System γ) :=
  match system.workers queueIndex with
  | .idle =>
    match system.threadQueues queueIndex with
    | [] => none
    | task :: tasks =>
      ((system.central.book task.securityId).beginTask task).map fun (book, pending, erasing) =>
        { system with
          central := system.central.setBook task.securityId book
          threadQueues := Function.update system.threadQueues queueIndex tasks
          workers := Function.update system.workers queueIndex
            (.busy task.securityId pending erasing) }
  | .busy securityId (report :: pending) erasing =>
    some { system with
      central := system.central.push securityId [report]
      workers := Function.update system.workers queueIndex (.busy securityId pending erasing) }
  | .busy securityId [] (some order) =>
    some { system with
      central := system.central.setBook securityId ((system.central.book securityId).erase order)
      workers := Function.update system.workers queueIndex (.busy securityId [] none) }
  | .busy _ [] none =>
    some { system with workers := Function.update system.workers queueIndex .idle }

/-- The submitting thread makes no call before `addOrder` has submitted its task. -/
def step (system : System γ) : Label γ → Option (System γ)
  | .addOrder order => if system.submitting.isNone then system.addOrder order else none
  | .cancelOrder order origClientOrderID =>
    if system.submitting.isNone then system.cancelOrder order origClientOrderID else none
  | .submit =>
    match system.submitting with
    | some task =>
      ({ system with submitting := none } : System γ).submitTask task
        (system.central.queueID task.securityId)
    | none => none
  | .work queueIndex => system.work queueIndex

/-- Only the queue changes. -/
theorem submitTask_frame {system next : System γ} {task : Task γ} {queueID : Nat}
    (h : system.submitTask task queueID = some next) :
    next.central = system.central ∧ next.workers = system.workers := by
  unfold submitTask at h
  split at h
  · cases h
    exact ⟨rfl, rfl⟩
  · cases h

/-- The system that `ServerBase` starts: one worker for each symbol. -/
def configured (symbols : List Bytes) (multithreaded : Bool) : System γ where
  central := (CentralOrderBook.configured symbols multithreaded).1
  threadCount := symbols.length

/-- No task is waiting or running. -/
structure Quiescent (system : System γ) : Prop where
  queues : ∀ queueIndex, system.threadQueues queueIndex = []
  workers : ∀ queueIndex, system.workers queueIndex = .idle
  submitter : system.submitting = none

end System

/-- The label of a call. -/
def Task.label : Task γ → Label γ
  | .newOrder order => .addOrder order
  | .cancelOrder order origClientOrderID => .cancelOrder order origClientOrderID

/-- The call a label makes. -/
def Label.call : Label γ → Option (Task γ)
  | .addOrder order => some (.newOrder order)
  | .cancelOrder order origClientOrderID => some (.cancelOrder order origClientOrderID)
  | .submit => none
  | .work _ => none

/-- The calls of a run, in submission order. -/
def callsOf (labels : List (Label γ)) : List (Task γ) := labels.filterMap Label.call

/-- The tasks of the calls: `addOrder` numbers its order, from the last number given. -/
def numberCalls : BitVec 32 → List (Task γ) → List (Task γ)
  | _, [] => []
  | orderNumber, .newOrder order :: rest =>
    .newOrder (order.setOrderId (orderIdOf (orderNumber + 1))) :: numberCalls (orderNumber + 1) rest
  | orderNumber, .cancelOrder order origClientOrderID :: rest =>
    .cancelOrder order origClientOrderID :: numberCalls orderNumber rest

theorem numberCalls_append (orderNumber : BitVec 32) (front back : List (Task γ)) :
    numberCalls orderNumber (front ++ back) =
      numberCalls orderNumber front ++
        numberCalls (orderNumber + BitVec.ofNat 32 (arrivalsOf front)) back := by
  induction front generalizing orderNumber with
  | nil => simp [numberCalls, arrivalsOf]
  | cons task front ih =>
    cases task with
    | newOrder order =>
      have hnext : orderNumber + 1 + BitVec.ofNat 32 (arrivalsOf front) =
          orderNumber + BitVec.ofNat 32 (arrivalsOf (.newOrder order :: front)) := by
        simp only [arrivalsOf, List.countP_cons, Task.isNewOrder, if_true]
        rw [Nat.add_comm (List.countP _ front), BitVec.ofNat_add, BitVec.add_assoc]
        rfl
      simp only [List.cons_append, numberCalls, ih, hnext]
    | cancelOrder order origClientOrderID =>
      have hnext : arrivalsOf (.cancelOrder order origClientOrderID :: front) =
          arrivalsOf front := by
        simp [arrivalsOf, Task.isNewOrder]
      simp only [List.cons_append, numberCalls, ih, hnext]

/-- The tasks of a run's calls. -/
def requestsOf (labels : List (Label γ)) : List (Task γ) := numberCalls 0 (callsOf labels)

end LiteExchange.OrderMatcher
