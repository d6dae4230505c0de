import LiteExchange.OrderMatcher.Outcomes
import LiteExchange.OrderMatcher.SystemRules
import LiteExchange.OrderMatcher.Uncrossed

/-!
# Runs that drain

On balanced orders of configured securities every sequence of calls has a drained run: each
call returns, its task is submitted, and the worker begins it, pushes its reports and waits
again.
-/

namespace LiteExchange.OrderMatcher

open Foundation.Ascii Foundation.Runs

variable {γ : Type}

theorem CentralOrderBook.runTask_completes {central : CentralOrderBook γ} {task : Task γ}
    (books : ∀ securityId, (central.book securityId).Balanced) (balanced : task.order.Balanced) :
    ∃ next, central.runTask task = some next := by
  obtain ⟨book, reports, hbook⟩ :=
    OrderBook.runTask_returns (books task.securityId) fun _ => balanced
  exact ⟨_, by rw [CentralOrderBook.runTask_eq, hbook, Option.map_some]⟩

/-- Where a symbol is known, every security has the queue of a thread. -/
theorem CentralOrderBook.configured_served {symbols : List Bytes} {multithreaded : Bool}
    {symbol : Bytes} {known : Nat}
    (h : (configured (γ := γ) symbols multithreaded).2.getSecurityId symbol = some known)
    (securityId : Nat) :
    (configured (γ := γ) symbols multithreaded).1.queueID securityId < symbols.length := by
  have hregistered := registered_configured (γ := γ) symbols multithreaded
  have hsome : 0 < symbols.length := by
    cases symbols with
    | nil => cases h
    | cons symbol symbols => exact Nat.zero_lt_succ _
  rw [queueID, hregistered.queues]
  split
  · assumption
  · exact hsome

@[simp] theorem Task.label_call (call : Task γ) : call.label.call = some call := by
  cases call with
  | newOrder order => rfl
  | cancelOrder order origClientOrderID => rfl

namespace System

/-- The system can go on to a drained state without another call. -/
def Drains (system : System γ) : Prop :=
  ∃ labels next, run step system labels = some next ∧ callsOf labels = [] ∧ next.Quiescent

theorem Quiescent.drains {system : System γ} (h : system.Quiescent) : system.Drains :=
  ⟨[], system, rfl, rfl, h⟩

theorem Drains.before {system next : System γ} {label : Label γ}
    (hstep : system.step label = some next) (nocall : label.call = none) (h : next.Drains) :
    system.Drains := by
  obtain ⟨labels, last, hrun, hcalls, hquiescent⟩ := h
  refine ⟨label :: labels, last, ?_, ?_, hquiescent⟩
  · rw [run_cons, hstep]
    exact hrun
  · unfold callsOf at *
    rw [List.filterMap_cons_none nocall, hcalls]

/-! ## A task on its own -/

/-- Nothing is waiting, and only this worker may have a task. -/
structure OnlyWorker (system : System γ) (queueIndex : Nat) : Prop where
  queues : ∀ other, system.threadQueues other = []
  others : ∀ other, other ≠ queueIndex → system.workers other = .idle
  submitter : system.submitting = none

theorem OnlyWorker.quiescent {system : System γ} {queueIndex : Nat}
    (h : system.OnlyWorker queueIndex) (idle : system.workers queueIndex = .idle) :
    system.Quiescent := by
  refine ⟨h.queues, fun other => ?_, h.submitter⟩
  by_cases hother : other = queueIndex
  · rw [hother, idle]
  · exact h.others other hother

/-- The worker is alone after its step, too. -/
theorem OnlyWorker.work {system : System γ} {queueIndex : Nat} (h : system.OnlyWorker queueIndex)
    (central : CentralOrderBook γ) (worker : Worker γ) :
    ({ system with
        central := central
        workers := Function.update system.workers queueIndex worker } : System γ).OnlyWorker
      queueIndex := by
  refine ⟨h.queues, fun other hother => ?_, h.submitter⟩
  rw [← h.others other hother]
  exact Function.update_of_ne hother _ _

theorem OnlyWorker.finishes {system : System γ} {queueIndex securityId : Nat}
    (h : system.OnlyWorker queueIndex)
    (busy : system.workers queueIndex = .busy securityId [] none) : system.Drains := by
  have hstep : system.step (.work queueIndex) = some
      { system with workers := Function.update system.workers queueIndex .idle } := by
    simp only [step, System.work, busy]
  refine Drains.before hstep rfl (Quiescent.drains ?_)
  exact (h.work system.central .idle).quiescent (Function.update_self _ _ _)

theorem OnlyWorker.drains {system : System γ} {queueIndex securityId : Nat}
    {pending : List (OutgoingMessage γ)} {erasing : Option (Order γ)}
    (h : system.OnlyWorker queueIndex)
    (busy : system.workers queueIndex = .busy securityId pending erasing) : system.Drains := by
  induction pending generalizing system with
  | nil =>
    cases erasing with
    | none => exact h.finishes busy
    | some order =>
      have hstep : system.step (.work queueIndex) = some
          { system with
            central := system.central.setBook securityId
              ((system.central.book securityId).erase order)
            workers := Function.update system.workers queueIndex (.busy securityId [] none) } := by
        simp only [step, System.work, busy]
      exact Drains.before hstep rfl ((h.work _ _).finishes (Function.update_self _ _ _))
  | cons report pending ih =>
    have hstep : system.step (.work queueIndex) = some
        { system with
          central := system.central.push securityId [report]
          workers := Function.update system.workers queueIndex
            (.busy securityId pending erasing) } := by
      simp only [step, System.work, busy]
    exact Drains.before hstep rfl (ih (h.work _ _) (Function.update_self _ _ _))

/-- A submitted task drains, if it returns on its book. -/
theorem submitTask_drains {system : System γ} (quiescent : system.Quiescent) {task : Task γ}
    {queueID : Nat} (served : queueID < system.threadCount)
    (returns : ∃ next reports, (system.central.book task.securityId).runTask task =
      some (next, reports)) :
    ∃ next, system.submitTask task queueID = some next ∧ next.Drains := by
  obtain ⟨after, reports, hrun⟩ := returns
  rw [OrderBook.runTask_eq_beginTask] at hrun
  obtain ⟨⟨book, pending, erasing⟩, hbegin, -⟩ := Option.map_eq_some_iff.mp hrun
  refine ⟨_, by rw [submitTask, if_pos served], ?_⟩
  have hqueue : Function.update system.threadQueues queueID
      (system.threadQueues queueID ++ [task]) queueID = [task] := by
    rw [Function.update_self, quiescent.queues, List.nil_append]
  have hstep : step ({ system with
        threadQueues := Function.update system.threadQueues queueID
          (system.threadQueues queueID ++ [task]) } : System γ) (.work queueID) = some
      { system with
        central := system.central.setBook task.securityId book
        threadQueues := Function.update (Function.update system.threadQueues queueID
          (system.threadQueues queueID ++ [task])) queueID []
        workers := Function.update system.workers queueID
          (.busy task.securityId pending erasing) } := by
    simp only [step, System.work, quiescent.workers queueID, hqueue, hbegin, Option.map_some]
  refine Drains.before hstep rfl ?_
  have hqueues : ∀ other, Function.update (Function.update system.threadQueues queueID
      (system.threadQueues queueID ++ [task])) queueID [] other = [] := by
    intro other
    by_cases hother : other = queueID
    · rw [hother]
      exact Function.update_self _ _ _
    · rw [Function.update_of_ne hother, Function.update_of_ne hother, quiescent.queues]
  have hothers : ∀ other, other ≠ queueID → Function.update system.workers queueID
      (.busy task.securityId pending erasing) other = .idle := by
    intro other hother
    rw [Function.update_of_ne hother, quiescent.workers]
  exact OnlyWorker.drains (show OnlyWorker _ queueID from ⟨hqueues, hothers, quiescent.submitter⟩)
    (Function.update_self _ _ _)

/-! ## Calls -/

/-- A call of a drained system returns and drains, where its queue has a thread. -/
theorem call_drains {system : System γ} (quiescent : system.Quiescent) (call : Task γ)
    (books : ∀ securityId, (system.central.book securityId).Balanced)
    (balanced : call.order.Balanced)
    (served : system.central.isMatchingMultithreaded = true →
      system.central.queueID call.securityId < system.threadCount) :
    ∃ next, system.step call.label = some next ∧ next.Drains := by
  have hidle : system.submitting.isNone = true := by
    rw [quiescent.submitter]
    rfl
  have haccepted : ∀ order securityId,
      ((system.central.acceptOrder order).1.book securityId).Balanced := by
    intro order securityId
    rw [acceptOrder_book]
    exact books securityId
  cases hmode : system.central.isMatchingMultithreaded with
  | false =>
    have hcall : ∃ central, system.central.call call = some central := by
      cases call with
      | newOrder order =>
        have hnumbered : (Task.newOrder (system.central.acceptOrder order).2).order.Balanced :=
          Order.Balanced.setOrderId balanced _
        exact CentralOrderBook.runTask_completes (haccepted order) hnumbered
      | cancelOrder order origClientOrderID => exact ⟨_, rfl⟩
    obtain ⟨central, hcentral⟩ := hcall
    rw [step_label quiescent.submitter hmode, hcentral]
    exact ⟨_, rfl, Quiescent.drains ⟨quiescent.queues, quiescent.workers, quiescent.submitter⟩⟩
  | true =>
    have hserved := served hmode
    cases call with
    | cancelOrder order origClientOrderID =>
      obtain ⟨next, hsubmit, hdrains⟩ := submitTask_drains quiescent hserved
        (OrderBook.runTask_returns (books _) fun _ => balanced)
      refine ⟨next, ?_, hdrains⟩
      simp only [Task.label, step, hidle, if_true, cancelOrder, hmode]
      exact hsubmit
    | newOrder order =>
      have hquiescent : ({ system with
          central := (system.central.acceptOrder order).1
          submitting := none } : System γ).Quiescent :=
        ⟨quiescent.queues, quiescent.workers, rfl⟩
      have hnumbered : (Task.newOrder (system.central.acceptOrder order).2).order.Balanced :=
        Order.Balanced.setOrderId balanced _
      obtain ⟨next, hsubmit, hdrains⟩ := submitTask_drains hquiescent hserved
        (OrderBook.runTask_returns (haccepted order _) fun _ => hnumbered)
      have hcall : system.step (Task.newOrder order).label = some
          { system with
            central := (system.central.acceptOrder order).1
            submitting := some (.newOrder (system.central.acceptOrder order).2) } := by
        have hsame : (system.central.acceptOrder order).1.isMatchingMultithreaded = true := hmode
        simp only [Task.label, step, hidle, if_true, addOrder, hsame]
      exact ⟨_, hcall, Drains.before (show step _ .submit = some next from hsubmit) rfl hdrains⟩

/-- The books of a run are balanced where its calls are. -/
theorem run_balanced (symbols : List Bytes) (multithreaded : Bool) {labels : List (Label γ)}
    {system : System γ} (h : run step (configured symbols multithreaded) labels = some system)
    (balanced : ∀ call ∈ callsOf labels, call.order.Balanced) (securityId : Nat) :
    (system.central.book securityId).Balanced := by
  have hholds : (∀ call ∈ callsOf labels, call.order.Balanced) →
      system.Holds Order.Balanced Order.Balanced OutgoingMessage.Consistent := by
    apply run_induction (fun labels (system : System γ) =>
      (∀ call ∈ callsOf labels, call.order.Balanced) →
        system.Holds Order.Balanced Order.Balanced OutgoingMessage.Consistent) _ _ h
    · exact fun _ => configured_holds symbols multithreaded
    · intro labels system label next _ ih hstep hcalls
      rw [callsOf_snoc] at hcalls
      refine step_holds consistent_rule
        (ih fun call hmem => hcalls call (List.mem_append_left _ hmem)) ?_ hstep
      cases label with
      | addOrder order =>
        have horder : order.Balanced := hcalls (.newOrder order) (by simp [Label.call])
        exact fun orderID => ⟨fun _ => horder.setOrderId orderID, fun _ => horder.setOrderId orderID⟩
      | cancelOrder order origClientOrderID =>
        have horder : order.Balanced :=
          hcalls (.cancelOrder order origClientOrderID) (by simp [Label.call])
        exact ⟨OutgoingMessage.balanced_new horder _, fun hfill => by cases hfill⟩
      | submit => trivial
      | work queueIndex => trivial
  have hbook := (hholds balanced).books securityId
  intro order hmem
  rcases List.mem_append.mp hmem with hbid | hask
  · exact hbook.bids order hbid
  · exact hbook.asks order hask

/-- Every sequence of calls with balanced orders of configured securities has a drained run. -/
theorem exists_drained_run (symbols : List Bytes) (multithreaded : Bool) (calls : List (Task γ))
    (balanced : ∀ call ∈ calls, call.order.Balanced)
    (served : ∀ call ∈ calls, (configured (γ := γ) symbols multithreaded).central.queueID
      call.securityId < symbols.length) :
    ∃ labels system, run step (configured symbols multithreaded) labels = some system ∧
      callsOf labels = calls ∧ system.Quiescent := by
  induction calls using List.reverseRecOn with
  | nil => exact ⟨[], _, rfl, rfl, configured_quiescent symbols multithreaded⟩
  | append_singleton calls call ih =>
    obtain ⟨labels, system, hrun, hcalls, hquiescent⟩ := ih
      (fun earlier hmem => balanced earlier (List.mem_append_left _ hmem))
      (fun earlier hmem => served earlier (List.mem_append_left _ hmem))
    have hbooks := run_balanced symbols multithreaded hrun
      (by rw [hcalls]; exact fun earlier hmem => balanced earlier (List.mem_append_left _ hmem))
    have hcount : system.threadCount = symbols.length :=
      (run_invariant (Bounded symbols.length) ⟨rfl, fun _ _ => ⟨rfl, rfl⟩⟩
        (fun _ _ _ hI hstep => step_bounded hI hstep) hrun).count
    have hserved : system.central.queueID call.securityId < system.threadCount := by
      rw [(run_accepted symbols multithreaded hrun).1, hcount]
      exact served call (by simp)
    obtain ⟨next, hstep, later, last, hlater, hnone, hdrained⟩ :=
      call_drains hquiescent call hbooks (balanced call (by simp)) fun _ => hserved
    refine ⟨labels ++ call.label :: later, last, ?_, ?_, hdrained⟩
    · rw [run_append, hrun, Option.bind_some, run_cons, hstep]
      exact hlater
    · unfold callsOf at *
      rw [List.filterMap_append, hcalls, List.filterMap_cons_some call.label_call, hnone]

end System

end LiteExchange.OrderMatcher
