import LiteExchange.OrderMatcher.BookLog
import LiteExchange.OrderMatcher.Concurrent

/-!
# Every interleaving replays the requests of each security in order

For each security, the tasks its worker has begun are a prefix of the tasks
submitted for it, and the book and the reports, with what the worker still has
to do, are those of running the prefix one task after the other. Steps for other
securities change neither. The statement covers both modes: without workers
every submitted task has run.
-/

namespace LiteExchange.OrderMatcher

open Foundation.Ascii Foundation.Runs

variable {γ : Type}

namespace OutgoingMessage

/-- A report that a task pushed for the security; `addOrder` pushes the ACCEPTED ones. -/
def isTaskReport (securityId : Nat) (message : OutgoingMessage γ) : Bool :=
  message.order.securityId == securityId && message.status != .accepted

end OutgoingMessage

namespace CentralOrderBook

/-- The reports that tasks have pushed for a security, oldest first. -/
def taskReports (central : CentralOrderBook γ) (securityId : Nat) : List (OutgoingMessage γ) :=
  (central.outgoingMessages (central.queueID securityId)).filter
    (OutgoingMessage.isTaskReport securityId)

@[simp] theorem taskReports_setBook (central : CentralOrderBook γ) (securityId other : Nat)
    (book : OrderBook γ) :
    (central.setBook securityId book).taskReports other = central.taskReports other := rfl

theorem outgoingMessages_push (central : CentralOrderBook γ) (securityId queueID : Nat)
    (messages : List (OutgoingMessage γ)) :
    (central.push securityId messages).outgoingMessages queueID =
      central.outgoingMessages queueID ++
        if queueID = central.queueID securityId then messages else [] := by
  unfold push
  by_cases h : queueID = central.queueID securityId
  · subst h
    simp
  · simp [h]

/-- Reports of another security, and ACCEPTED ones, are no task reports. -/
theorem taskReports_push_of_not (central : CentralOrderBook γ) (securityId other : Nat)
    (messages : List (OutgoingMessage γ))
    (h : ∀ message ∈ messages, message.isTaskReport other = false) :
    (central.push securityId messages).taskReports other = central.taskReports other := by
  have hfilter : messages.filter (OutgoingMessage.isTaskReport other) = [] := by
    apply List.filter_eq_nil_iff.mpr
    intro message hmem
    rw [h message hmem]
    exact Bool.false_ne_true
  unfold taskReports
  rw [outgoingMessages_push, queueID_push, List.filter_append]
  split
  · rw [hfilter, List.append_nil]
  · rw [List.filter_nil, List.append_nil]

theorem taskReports_push (central : CentralOrderBook γ) (securityId : Nat)
    (messages : List (OutgoingMessage γ))
    (h : ∀ message ∈ messages, message.isTaskReport securityId = true) :
    (central.push securityId messages).taskReports securityId =
      central.taskReports securityId ++ messages := by
  unfold taskReports
  rw [outgoingMessages_push, queueID_push, List.filter_append, if_pos rfl,
    List.filter_eq_self.mpr h]

end CentralOrderBook

/-- The orders that rest in the book of a security, and the reports of its tasks,
carry the security. -/
theorem BookLog.security_rule (securityId : Nat) :
    BookLog.ReportRule (γ := γ) (fun order => order.securityId = securityId)
      (fun order => order.securityId = securityId)
      (fun message => message.isTaskReport securityId = true) := by
  have hfill : ∀ order : Order γ, order.securityId = securityId →
      (fillReport order).isTaskReport securityId = true := by
    intro order horder
    unfold fillReport
    split
    · simp [OutgoingMessage.isTaskReport, OutgoingMessage.new, OutgoingMessage.status, horder]
    · simp [OutgoingMessage.isTaskReport, OutgoingMessage.new, OutgoingMessage.status, horder]
  have hcanceled : ∀ order : Order γ, order.securityId = securityId →
      (OutgoingMessage.new order.cancel .canceled).isTaskReport securityId = true := by
    intro order horder
    simp [OutgoingMessage.isTaskReport, OutgoingMessage.new, OutgoingMessage.status, Order.cancel,
      horder]
  exact
    { closed :=
        { trade := fun bid ask hbid hask _ => ⟨hfill _ hbid, hfill _ hask⟩
          tradedBid := fun _ _ hbid _ _ _ => hbid
          tradedAsk := fun _ _ _ hask _ _ => hask
          canceledBid := fun _ h => h
          canceledAsk := fun _ h => h }
      canceledBid := hcanceled
      canceledAsk := hcanceled }

/-- After any run of tasks of one security, the log carries the security. -/
theorem BookLog.run_security {securityId : Nat} {tasks : List (Task γ)} {log : BookLog γ}
    (same : ∀ task ∈ tasks, task.securityId = securityId)
    (h : run BookLog.runTask {} tasks = some log) :
    log.Holds (fun order => order.securityId = securityId)
      (fun order => order.securityId = securityId)
      (fun message => message.isTaskReport securityId = true) := by
  apply (BookLog.security_rule securityId).run tasks BookLog.empty_holds _ h
  intro task hmem
  have htask := same task hmem
  cases task with
  | newOrder order => exact ⟨fun _ => htask, fun _ => htask⟩
  | cancelOrder order origClientOrderID =>
    have horder : order.securityId = securityId := htask
    simp [Task.Meets, OutgoingMessage.isTaskReport, OutgoingMessage.new, OutgoingMessage.status,
      horder]

namespace System

/-- The worker of a security. -/
def worker (system : System γ) (securityId : Nat) : Worker γ :=
  system.workers (system.central.queueID securityId)

/-- The book of a security once its worker has finished the task it is running. -/
def bookAfterTask (system : System γ) (securityId : Nat) : OrderBook γ :=
  match system.worker securityId with
  | .idle => system.central.book securityId
  | .busy running _ erasing =>
    if running = securityId then (system.central.book securityId).finishTask erasing
    else system.central.book securityId

/-- The reports that the worker of a security still has to push for it. -/
def pending (system : System γ) (securityId : Nat) : List (OutgoingMessage γ) :=
  match system.worker securityId with
  | .idle => []
  | .busy running pending _ => if running = securityId then pending else []

/-- The submitted tasks of a security that have not begun. -/
def waiting (system : System γ) (securityId : Nat) : List (Task γ) :=
  (system.threadQueues (system.central.queueID securityId) ++ system.submitting.toList).filter
    fun task => task.securityId == securityId

/-- The requests submitted for a security are those begun, which the log replays,
and those waiting. -/
structure Replays (requests : List (Task γ)) (securityId : Nat) (begun : List (Task γ))
    (log : BookLog γ) (system : System γ) : Prop where
  submitted : (requests.filter fun task => task.securityId == securityId) =
    begun ++ system.waiting securityId
  replay : run BookLog.runTask {} begun = some log
  book : system.bookAfterTask securityId = log.book
  reports : system.central.taskReports securityId ++ system.pending securityId = log.reports

/-- Workers run, and queues hold, tasks of securities that belong to the queue;
without multithreaded matching there are none. -/
structure Placed (system : System γ) : Prop where
  busy : ∀ queueIndex securityId pending erasing,
    system.workers queueIndex = .busy securityId pending erasing →
      system.central.queueID securityId = queueIndex
  queued : ∀ queueIndex, ∀ task ∈ system.threadQueues queueIndex,
    system.central.queueID task.securityId = queueIndex
  synchronous : system.central.isMatchingMultithreaded = false → system.Quiescent

/-- The invariant of every run: what the run submitted is replayed for each security. -/
structure Simulates (requests : List (Task γ)) (system : System γ) : Prop where
  placed : system.Placed
  replays : ∀ securityId, ∃ begun log, system.Replays requests securityId begun log

/-! ## What the observers see of each step -/

theorem Replays.begun_security {requests begun : List (Task γ)} {securityId : Nat}
    {log : BookLog γ} {system : System γ} (h : system.Replays requests securityId begun log) :
    ∀ task ∈ begun, task.securityId = securityId := by
  intro task hmem
  have hfilter : task ∈ requests.filter fun task => task.securityId == securityId := by
    rw [h.submitted]
    exact List.mem_append_left _ hmem
  simpa using (List.mem_filter.mp hfilter).2

/-- Tasks that have begun were requested. -/
theorem Replays.begun_requests {requests begun : List (Task γ)} {securityId : Nat}
    {log : BookLog γ} {system : System γ} (h : system.Replays requests securityId begun log) :
    ∀ task ∈ begun, task ∈ requests := by
  intro task hmem
  have hfilter : task ∈ requests.filter fun task => task.securityId == securityId := by
    rw [h.submitted]
    exact List.mem_append_left _ hmem
  exact (List.mem_filter.mp hfilter).1

/-- A request of the security that no longer waits has begun. -/
theorem Replays.begun_of_not_waiting {requests begun : List (Task γ)} {securityId : Nat}
    {log : BookLog γ} {system : System γ} (h : system.Replays requests securityId begun log)
    {task : Task γ} (hmem : task ∈ requests) (own : task.securityId = securityId)
    (hbegun : task ∉ system.waiting securityId) : task ∈ begun := by
  have hfilter : task ∈ requests.filter fun task => task.securityId == securityId :=
    List.mem_filter.mpr ⟨hmem, beq_iff_eq.mpr own⟩
  rw [h.submitted] at hfilter
  exact (List.mem_append.mp hfilter).resolve_right hbegun

/-- Between two tasks the book and the task reports are those of the log. -/
theorem Replays.idle {requests begun : List (Task γ)} {securityId : Nat} {log : BookLog γ}
    {system : System γ} (h : system.Replays requests securityId begun log)
    (hidle : system.worker securityId = .idle) :
    system.central.book securityId = log.book ∧
      system.central.taskReports securityId = log.reports := by
  have hpending : system.pending securityId = [] := by
    rw [System.pending, hidle]
  constructor
  · rw [← h.book, System.bookAfterTask, hidle]
  · rw [← h.reports, hpending, List.append_nil]

theorem Replays.pending_security {requests begun : List (Task γ)} {securityId : Nat}
    {log : BookLog γ} {system : System γ} (h : system.Replays requests securityId begun log) :
    ∀ message ∈ system.pending securityId, message.isTaskReport securityId = true := by
  intro message hmem
  apply (BookLog.run_security h.begun_security h.replay).reports
  rw [← h.reports]
  exact List.mem_append_right _ hmem

theorem not_isTaskReport_of_ne {message : OutgoingMessage γ} {securityId other : Nat}
    (h : message.isTaskReport securityId = true) (hne : other ≠ securityId) :
    message.isTaskReport other = false := by
  simp only [OutgoingMessage.isTaskReport, Bool.and_eq_true, beq_iff_eq] at h
  simp [OutgoingMessage.isTaskReport, h.1, Ne.symm hne]

@[simp] theorem acceptOrder_queueID (central : CentralOrderBook γ) (order : Order γ)
    (securityId : Nat) :
    (central.acceptOrder order).1.queueID securityId = central.queueID securityId := rfl

@[simp] theorem acceptOrder_book (central : CentralOrderBook γ) (order : Order γ)
    (securityId : Nat) :
    (central.acceptOrder order).1.book securityId = central.book securityId := rfl

/-- An ACCEPTED report is not a task report. -/
@[simp] theorem acceptOrder_taskReports (central : CentralOrderBook γ) (order : Order γ)
    (securityId : Nat) :
    (central.acceptOrder order).1.taskReports securityId = central.taskReports securityId := by
  have hpush := CentralOrderBook.taskReports_push_of_not
    ({ central with orderNumber := central.orderNumber + 1 } : CentralOrderBook γ)
    order.securityId securityId
    [.new (order.setOrderId central.nextOrderId) .accepted] fun message hmem => by
      obtain rfl := List.mem_singleton.mp hmem
      simp [OutgoingMessage.isTaskReport, OutgoingMessage.new, OutgoingMessage.status]
  exact hpush

/-- A task that joins the waiting ones. -/
theorem Replays.submit {requests begun : List (Task γ)} {securityId : Nat} {log : BookLog γ}
    {system next : System γ} (h : system.Replays requests securityId begun log) (task : Task γ)
    (waiting : next.waiting securityId = system.waiting securityId ++
      [task].filter fun task => task.securityId == securityId)
    (book : next.bookAfterTask securityId = system.bookAfterTask securityId)
    (reports : next.central.taskReports securityId = system.central.taskReports securityId)
    (pending : next.pending securityId = system.pending securityId) :
    next.Replays (requests ++ [task]) securityId begun log where
  submitted := by rw [List.filter_append, h.submitted, waiting, List.append_assoc]
  replay := h.replay
  book := book.trans h.book
  reports := by rw [reports, pending, h.reports]

/-- A step that none of the observers of the security sees. -/
theorem Replays.stutter {requests begun : List (Task γ)} {securityId : Nat} {log : BookLog γ}
    {system next : System γ} (h : system.Replays requests securityId begun log)
    (waiting : next.waiting securityId = system.waiting securityId)
    (book : next.bookAfterTask securityId = system.bookAfterTask securityId)
    (reports : next.central.taskReports securityId ++ next.pending securityId =
      system.central.taskReports securityId ++ system.pending securityId) :
    next.Replays requests securityId begun log :=
  ⟨h.submitted.trans (by rw [waiting]), h.replay, book.trans h.book, reports.trans h.reports⟩

/-! ## Calls of the submitting thread -/

section Calls

variable {requests : List (Task γ)} {system next : System γ}

theorem Quiescent.waiting (h : system.Quiescent) (securityId : Nat) :
    system.waiting securityId = [] := by
  simp [System.waiting, h.queues, h.submitter]

theorem Quiescent.pending (h : system.Quiescent) (securityId : Nat) :
    system.pending securityId = [] := by
  simp [System.pending, System.worker, h.workers]

theorem Quiescent.bookAfterTask (h : system.Quiescent) (securityId : Nat) :
    system.bookAfterTask securityId = system.central.book securityId := by
  simp [System.bookAfterTask, System.worker, h.workers]

/-- A task begun after the others replays as the last step of the log. -/
theorem replay_snoc {begun : List (Task γ)} {log : BookLog γ} {task : Task γ} {book : OrderBook γ}
    {reports : List (OutgoingMessage γ)} (replay : run BookLog.runTask {} begun = some log)
    (h : log.book.runTask task = some (book, reports)) :
    run BookLog.runTask {} (begun ++ [task]) = some ⟨book, log.reports ++ reports⟩ := by
  rw [run_snoc, replay]
  simp only [Option.bind_some, BookLog.runTask, h, Option.map_some]

theorem replay_reports_security {begun : List (Task γ)} {log : BookLog γ} {task : Task γ}
    {book : OrderBook γ} {reports : List (OutgoingMessage γ)}
    (same : ∀ other ∈ begun, other.securityId = task.securityId)
    (replay : run BookLog.runTask {} begun = some log)
    (h : log.book.runTask task = some (book, reports)) :
    ∀ message ∈ reports, message.isTaskReport task.securityId = true := by
  intro message hmem
  have hsame : ∀ other ∈ begun ++ [task], other.securityId = task.securityId := by
    intro other hother
    obtain hbegun | hlast := List.mem_append.mp hother
    · exact same other hbegun
    · rw [List.mem_singleton.mp hlast]
  exact (BookLog.run_security hsame (replay_snoc replay h)).reports message
    (List.mem_append_right _ hmem)

/-- Without workers a task runs in the call. -/
theorem runTask_simulates (h : system.Simulates requests) (quiescent : system.Quiescent)
    {task : Task γ} {central : CentralOrderBook γ}
    (hrun : system.central.runTask task = some central) :
    ({ system with central := central } : System γ).Simulates (requests ++ [task]) := by
  obtain ⟨book, reports, hbook, rfl⟩ := CentralOrderBook.runTask_cases hrun
  have hquiescent : ({ system with central :=
      (system.central.setBook task.securityId book).push task.securityId reports } :
        System γ).Quiescent := ⟨quiescent.queues, quiescent.workers, quiescent.submitter⟩
  refine ⟨⟨h.placed.busy, h.placed.queued, fun _ => hquiescent⟩, fun securityId => ?_⟩
  obtain ⟨own, ownLog, hown⟩ := h.replays task.securityId
  have hownBook : ownLog.book = system.central.book task.securityId := by
    rw [← hown.book, quiescent.bookAfterTask]
  have htask : ownLog.book.runTask task = some (book, reports) := by rw [hownBook, hbook]
  have hreports := replay_reports_security hown.begun_security hown.replay htask
  by_cases hsame : securityId = task.securityId
  · subst hsame
    refine ⟨own ++ [task], _, ?_, replay_snoc hown.replay htask, ?_, ?_⟩
    · rw [List.filter_append, hown.submitted, quiescent.waiting, hquiescent.waiting]
      simp
    · rw [hquiescent.bookAfterTask]
      simp
    · rw [hquiescent.pending, CentralOrderBook.taskReports_push _ _ _ hreports, ← hown.reports,
        quiescent.pending]
      simp
  · obtain ⟨begun, log, hlog⟩ := h.replays securityId
    refine ⟨begun, log, ?_, hlog.replay, ?_, ?_⟩
    · rw [List.filter_append, hlog.submitted, quiescent.waiting, hquiescent.waiting]
      simp [Ne.symm hsame]
    · rw [hquiescent.bookAfterTask, ← hlog.book, quiescent.bookAfterTask]
      simp [hsame]
    · rw [hquiescent.pending, ← hlog.reports, quiescent.pending]
      rw [CentralOrderBook.taskReports_push_of_not _ _ _ _ fun message hmem =>
        not_isTaskReport_of_ne (hreports message hmem) hsame]
      rfl

theorem acceptOrder_simulates (h : system.Simulates requests) (order : Order γ) :
    ({ system with central := (system.central.acceptOrder order).1 } : System γ).Simulates
      requests := by
  refine ⟨⟨h.placed.busy, h.placed.queued, fun hmode => ?_⟩, fun securityId => ?_⟩
  · obtain ⟨hqueues, hworkers, hsubmitter⟩ := h.placed.synchronous hmode
    exact ⟨hqueues, hworkers, hsubmitter⟩
  · obtain ⟨begun, log, hlog⟩ := h.replays securityId
    refine ⟨begun, log, hlog.stutter rfl rfl ?_⟩
    exact congrArg (· ++ system.pending securityId)
      (acceptOrder_taskReports system.central order securityId)

theorem addOrder_simulates (h : system.Simulates requests) (idle : system.submitting = none)
    {order : Order γ} (hstep : system.addOrder order = some next) :
    next.Simulates (requests ++ [.newOrder (order.setOrderId system.central.nextOrderId)]) := by
  have haccepted := acceptOrder_simulates h order
  unfold addOrder at hstep
  dsimp only at hstep
  split at hstep
  · rename_i hmode
    obtain rfl := Option.some.inj hstep
    refine ⟨⟨h.placed.busy, h.placed.queued, fun hsync => ?_⟩, fun securityId => ?_⟩
    · exact absurd hmode (Bool.eq_false_iff.mp hsync)
    · obtain ⟨begun, log, hlog⟩ := haccepted.replays securityId
      refine ⟨begun, log, hlog.submit _ ?_ rfl rfl rfl⟩
      simp [System.waiting, idle]
      rfl
  · rename_i hmode
    obtain ⟨central, hrun, rfl⟩ := Option.map_eq_some_iff.mp hstep
    have hsync : (system.central.acceptOrder order).1.isMatchingMultithreaded = false := by
      simpa using hmode
    exact runTask_simulates haccepted (haccepted.placed.synchronous hsync) hrun

theorem submitTask_placed (h : system.Placed) (mode : system.central.isMatchingMultithreaded = true)
    {task : Task γ}
    (hstep : system.submitTask task (system.central.queueID task.securityId) = some next) :
    next.Placed := by
  unfold submitTask at hstep
  split at hstep
  · obtain rfl := Option.some.inj hstep
    refine ⟨h.busy, fun queueIndex other hmem => ?_, fun hsync => ?_⟩
    · by_cases hqueue : queueIndex = system.central.queueID task.securityId
      · subst hqueue
        simp only [Function.update_self, List.mem_append, List.mem_singleton] at hmem
        obtain hmem | rfl := hmem
        · exact h.queued _ other hmem
        · rfl
      · simp only [Function.update_of_ne hqueue] at hmem
        exact h.queued queueIndex other hmem
    · exact absurd mode (Bool.eq_false_iff.mp hsync)
  · cases hstep

/-- A task goes behind the waiting ones of its security. -/
theorem submitTask_waiting (idle : system.submitting = none) {task : Task γ}
    (hstep : system.submitTask task (system.central.queueID task.securityId) = some next)
    (securityId : Nat) :
    next.waiting securityId = system.waiting securityId ++
      [task].filter fun task => task.securityId == securityId := by
  unfold submitTask at hstep
  split at hstep
  · obtain rfl := Option.some.inj hstep
    unfold waiting
    rw [idle]
    by_cases hqueue : system.central.queueID securityId = system.central.queueID task.securityId
    · simp [hqueue]
    · have hne : task.securityId ≠ securityId := fun heq => hqueue (by rw [heq])
      simp [Function.update_of_ne hqueue, hne]
  · cases hstep

theorem submitTask_observers {task : Task γ} {queueID : Nat}
    (hstep : system.submitTask task queueID = some next) (securityId : Nat) :
    next.central = system.central ∧ next.bookAfterTask securityId = system.bookAfterTask securityId ∧
      next.pending securityId = system.pending securityId := by
  unfold submitTask at hstep
  split at hstep
  · obtain rfl := Option.some.inj hstep
    exact ⟨rfl, rfl, rfl⟩
  · cases hstep

theorem cancelOrder_simulates (h : system.Simulates requests) (idle : system.submitting = none)
    {order : Order γ} {origClientOrderID : Bytes}
    (hstep : system.cancelOrder order origClientOrderID = some next) :
    next.Simulates (requests ++ [.cancelOrder order origClientOrderID]) := by
  unfold cancelOrder at hstep
  split at hstep
  · rename_i hmode
    refine ⟨submitTask_placed h.placed hmode hstep, fun securityId => ?_⟩
    obtain ⟨begun, log, hlog⟩ := h.replays securityId
    obtain ⟨hcentral, hbook, hpending⟩ := submitTask_observers hstep securityId
    exact ⟨begun, log, hlog.submit _ (submitTask_waiting idle hstep securityId) hbook
      (by rw [hcentral]) hpending⟩
  · rename_i hmode
    obtain rfl := Option.some.inj hstep
    exact runTask_simulates h (h.placed.synchronous (by simpa using hmode)) rfl

/-- The second half of `addOrder` moves the task, it submits no new one. -/
theorem submit_simulates (h : system.Simulates requests) {task : Task γ}
    (submitting : system.submitting = some task)
    (hstep : ({ system with submitting := none } : System γ).submitTask task
      (system.central.queueID task.securityId) = some next) : next.Simulates requests := by
  have hmode : system.central.isMatchingMultithreaded = true := by
    by_contra hsync
    have hquiescent := h.placed.synchronous (by simpa using hsync)
    rw [hquiescent.submitter] at submitting
    cases submitting
  have hplaced : ({ system with submitting := none } : System γ).Placed :=
    ⟨h.placed.busy, h.placed.queued, fun hsync => absurd hmode (Bool.eq_false_iff.mp hsync)⟩
  refine ⟨submitTask_placed hplaced hmode hstep, fun securityId => ?_⟩
  obtain ⟨begun, log, hlog⟩ := h.replays securityId
  obtain ⟨hcentral, hbook, hpending⟩ := submitTask_observers hstep securityId
  refine ⟨begun, log, hlog.stutter ?_ hbook (by rw [hcentral, hpending]; rfl)⟩
  rw [submitTask_waiting rfl hstep securityId]
  simp [System.waiting, submitting]

end Calls

/-! ## Steps of a worker -/

section Work

variable {requests : List (Task γ)} {system next : System γ}

/-- A step of another worker is not seen. -/
theorem Replays.other_worker {begun : List (Task γ)} {securityId queueIndex : Nat}
    {log : BookLog γ} (h : system.Replays requests securityId begun log)
    (other : system.central.queueID securityId ≠ queueIndex)
    (queueID : next.central.queueID securityId = system.central.queueID securityId)
    (book : next.central.book securityId = system.central.book securityId)
    (reports : next.central.taskReports securityId = system.central.taskReports securityId)
    (queues : ∀ index, index ≠ queueIndex → next.threadQueues index = system.threadQueues index)
    (workers : ∀ index, index ≠ queueIndex → next.workers index = system.workers index)
    (submitting : next.submitting = system.submitting) :
    next.Replays requests securityId begun log := by
  have hworker : next.worker securityId = system.worker securityId := by
    unfold worker
    rw [queueID, workers _ other]
  apply h.stutter
  · unfold waiting
    rw [queueID, queues _ other, submitting]
  · unfold bookAfterTask
    rw [hworker, book]
  · unfold pending
    rw [hworker, reports]

/-- The book and the queue of the task that a worker begins. -/
theorem begin_simulates (h : system.Simulates requests) {queueIndex : Nat}
    (idle : system.workers queueIndex = .idle) {task : Task γ} {tasks : List (Task γ)}
    (queue : system.threadQueues queueIndex = task :: tasks) {book : OrderBook γ}
    {reports : List (OutgoingMessage γ)} {erasing : Option (Order γ)}
    (hbegin : (system.central.book task.securityId).beginTask task =
      some (book, reports, erasing)) :
    ({ system with
      central := system.central.setBook task.securityId book
      threadQueues := Function.update system.threadQueues queueIndex tasks
      workers := Function.update system.workers queueIndex
        (.busy task.securityId reports erasing) } : System γ).Simulates requests := by
  have htask : system.central.queueID task.securityId = queueIndex :=
    h.placed.queued queueIndex task (by rw [queue]; exact List.mem_cons_self)
  have hmode : system.central.isMatchingMultithreaded ≠ false := by
    intro hsync
    have hempty := (h.placed.synchronous hsync).queues queueIndex
    rw [queue] at hempty
    cases hempty
  refine ⟨⟨fun index securityId pending erasing hbusy => ?_, fun index other hmem => ?_,
    fun hsync => absurd hsync hmode⟩, fun securityId => ?_⟩
  · by_cases hindex : index = queueIndex
    · subst hindex
      simp only [Function.update_self, Worker.busy.injEq] at hbusy
      rw [← hbusy.1]
      exact htask
    · simp only [Function.update_of_ne hindex] at hbusy
      exact h.placed.busy index securityId pending erasing hbusy
  · by_cases hindex : index = queueIndex
    · subst hindex
      simp only [Function.update_self] at hmem
      exact h.placed.queued index other (by rw [queue]; exact List.mem_cons_of_mem _ hmem)
    · simp only [Function.update_of_ne hindex] at hmem
      exact h.placed.queued index other hmem
  · obtain ⟨begun, log, hlog⟩ := h.replays securityId
    by_cases hqueue : system.central.queueID securityId = queueIndex
    · have hworker : system.worker securityId = .idle := by
        unfold worker
        rw [hqueue, idle]
      by_cases hsame : securityId = task.securityId
      · subst hsame
        have hbook : log.book = system.central.book task.securityId := by
          rw [← hlog.book, System.bookAfterTask, hworker]
        have hrun : log.book.runTask task = some (book.finishTask erasing, reports) := by
          rw [OrderBook.runTask_eq_beginTask, hbook, hbegin]
          rfl
        refine ⟨begun ++ [task], _, ?_, replay_snoc hlog.replay hrun, ?_, ?_⟩
        · rw [hlog.submitted]
          simp [System.waiting, hqueue, queue]
        · simp [System.bookAfterTask, System.worker, hqueue]
        · rw [← hlog.reports]
          simp [System.pending, System.worker, hqueue, idle]
      · refine ⟨begun, log, hlog.stutter ?_ ?_ ?_⟩
        · simp [System.waiting, hqueue, queue, Ne.symm hsame]
        · simp [System.bookAfterTask, System.worker, hqueue, idle, hsame, Ne.symm hsame]
        · simp [System.pending, System.worker, hqueue, idle, Ne.symm hsame]
    · refine ⟨begun, log, hlog.other_worker hqueue rfl ?_ rfl ?_ ?_ rfl⟩
      · have hne : securityId ≠ task.securityId := fun heq => hqueue (by rw [heq, htask])
        simp [hne]
      · exact fun index hindex => Function.update_of_ne hindex _ _
      · exact fun index hindex => Function.update_of_ne hindex _ _

/-- A busy worker of `running` goes on: the other securities of its queue see nothing. -/
theorem busy_simulates (h : system.Simulates requests) {queueIndex running : Nat}
    {pending : List (OutgoingMessage γ)} {erasing : Option (Order γ)}
    (busy : system.workers queueIndex = .busy running pending erasing)
    (central : CentralOrderBook γ) (after : Worker γ)
    (mode : central.isMatchingMultithreaded = system.central.isMatchingMultithreaded)
    (queueID : ∀ securityId, central.queueID securityId = system.central.queueID securityId)
    (stays : ∀ securityId pending erasing, after = .busy securityId pending erasing →
      securityId = running)
    (otherBook : ∀ securityId, securityId ≠ running →
      central.book securityId = system.central.book securityId)
    (otherReports : ∀ securityId, securityId ≠ running →
      central.taskReports securityId = system.central.taskReports securityId)
    (own : ∀ begun log, system.Replays requests running begun log →
      ({ system with central := central, workers := Function.update system.workers queueIndex after } :
        System γ).Replays requests running begun log) :
    ({ system with central := central, workers := Function.update system.workers queueIndex after } :
      System γ).Simulates requests := by
  have hrunning : system.central.queueID running = queueIndex :=
    h.placed.busy queueIndex running pending erasing busy
  have hmode : system.central.isMatchingMultithreaded ≠ false := by
    intro hsync
    have hidle := (h.placed.synchronous hsync).workers queueIndex
    rw [busy] at hidle
    cases hidle
  refine ⟨⟨fun index securityId pending erasing hbusy => ?_, fun index task hmem => ?_,
    fun hsync => absurd (mode.symm.trans hsync) hmode⟩, fun securityId => ?_⟩
  · rw [queueID]
    by_cases hindex : index = queueIndex
    · subst hindex
      simp only [Function.update_self] at hbusy
      rw [stays securityId pending erasing hbusy]
      exact hrunning
    · simp only [Function.update_of_ne hindex] at hbusy
      exact h.placed.busy index securityId pending erasing hbusy
  · rw [queueID]
    exact h.placed.queued index task hmem
  · obtain ⟨begun, log, hlog⟩ := h.replays securityId
    by_cases hsame : securityId = running
    · subst hsame
      exact ⟨begun, log, own begun log hlog⟩
    · refine ⟨begun, log, ?_⟩
      by_cases hqueue : system.central.queueID securityId = queueIndex
      · have hafter : ∀ other pending erasing, after = .busy other pending erasing →
            other ≠ securityId := by
          intro other pending erasing hother heq
          exact hsame (heq.symm.trans (stays other pending erasing hother))
        have hworker : system.worker securityId = .busy running pending erasing := by
          unfold worker
          rw [hqueue, busy]
        apply hlog.stutter
        · simp [System.waiting, queueID]
        · simp only [System.bookAfterTask, hworker, if_neg (Ne.symm hsame)]
          simp only [System.worker, queueID, hqueue, Function.update_self]
          cases after with
          | idle => exact otherBook securityId hsame
          | busy other pending erasing =>
            simp only [if_neg (hafter other pending erasing rfl)]
            exact otherBook securityId hsame
        · simp only [System.pending, hworker, if_neg (Ne.symm hsame)]
          simp only [System.worker, queueID, hqueue, Function.update_self]
          cases after with
          | idle => rw [otherReports securityId hsame]
          | busy other pending erasing =>
            simp only [if_neg (hafter other pending erasing rfl)]
            rw [otherReports securityId hsame]
      · exact hlog.other_worker hqueue (queueID securityId) (otherBook securityId hsame)
          (otherReports securityId hsame) (fun _ _ => rfl)
          (fun index hindex => Function.update_of_ne hindex _ _) rfl

theorem work_simulates (h : system.Simulates requests) {queueIndex : Nat}
    (hstep : system.work queueIndex = some next) : next.Simulates requests := by
  unfold work at hstep
  split at hstep
  · rename_i hidle
    split at hstep
    · cases hstep
    · rename_i task tasks hqueue
      obtain ⟨⟨book, reports, erasing⟩, hbegin, rfl⟩ := Option.map_eq_some_iff.mp hstep
      exact begin_simulates h hidle hqueue hbegin
  · rename_i running report pending erasing hbusy
    obtain rfl := Option.some.inj hstep
    have hqueue := h.placed.busy queueIndex running _ _ hbusy
    obtain ⟨ownBegun, ownLog, hown⟩ := h.replays running
    have hworker : system.worker running = .busy running (report :: pending) erasing := by
      unfold worker
      rw [hqueue, hbusy]
    have hreport : report.isTaskReport running = true := by
      apply hown.pending_security
      simp [System.pending, hworker]
    refine busy_simulates h hbusy _ _ rfl (fun _ => rfl) ?_ (fun _ _ => rfl) ?_ ?_
    · intro securityId pending erasing hafter
      simp only [Worker.busy.injEq] at hafter
      exact hafter.1.symm
    · intro securityId hne
      apply CentralOrderBook.taskReports_push_of_not
      intro message hmem
      rw [List.mem_singleton.mp hmem]
      exact not_isTaskReport_of_ne hreport hne
    · intro begun log hlog
      refine hlog.stutter rfl ?_ ?_
      · simp [System.bookAfterTask, System.worker, hqueue, hbusy]
      · have hpush := CentralOrderBook.taskReports_push system.central running [report]
          (fun message hmem => by rw [List.mem_singleton.mp hmem]; exact hreport)
        simp [System.pending, System.worker, hqueue, hbusy, hpush]
  · rename_i running order hbusy
    obtain rfl := Option.some.inj hstep
    have hqueue := h.placed.busy queueIndex running _ _ hbusy
    refine busy_simulates h hbusy _ _ rfl (fun _ => rfl) ?_ ?_ (fun _ _ => rfl) ?_
    · intro securityId pending erasing hafter
      simp only [Worker.busy.injEq] at hafter
      exact hafter.1.symm
    · intro securityId hne
      simp [hne]
    · intro begun log hlog
      refine hlog.stutter rfl ?_ ?_
      · simp [System.bookAfterTask, System.worker, hqueue, hbusy, OrderBook.finishTask]
      · simp [System.pending, System.worker, hqueue, hbusy]
  · rename_i running hbusy
    obtain rfl := Option.some.inj hstep
    have hqueue := h.placed.busy queueIndex running _ _ hbusy
    refine busy_simulates h hbusy _ .idle rfl (fun _ => rfl) ?_ (fun _ _ => rfl) (fun _ _ => rfl) ?_
    · intro securityId pending erasing hafter
      cases hafter
    · intro begun log hlog
      refine hlog.stutter rfl ?_ ?_
      · simp [System.bookAfterTask, System.worker, hqueue, hbusy, OrderBook.finishTask]
      · simp [System.pending, System.worker, hqueue, hbusy]

end Work

/-! ## Runs -/

@[simp] theorem configured_book (symbols : List Bytes) (multithreaded : Bool) (securityId : Nat) :
    (configured (γ := γ) symbols multithreaded).central.book securityId = {} :=
  CentralOrderBook.configured_book symbols multithreaded securityId

theorem setSymbolsFrom_start (queueID : Nat) (symbols : List Bytes)
    (result : CentralOrderBook γ × SecurityManager) :
    (CentralOrderBook.setSymbolsFrom queueID symbols result).1.outgoingMessages =
        result.1.outgoingMessages ∧
      (CentralOrderBook.setSymbolsFrom queueID symbols result).1.orderNumber =
        result.1.orderNumber ∧
      (CentralOrderBook.setSymbolsFrom queueID symbols result).1.isMatchingMultithreaded =
        result.1.isMatchingMultithreaded := by
  induction symbols generalizing queueID result with
  | nil => exact ⟨rfl, rfl, rfl⟩
  | cons symbol symbols ih => exact ih (queueID + 1) _

/-- Nothing has been pushed or numbered when the server starts. -/
theorem configured_start (symbols : List Bytes) (multithreaded : Bool) :
    (configured (γ := γ) symbols multithreaded).central.outgoingMessages = (fun _ => []) ∧
      (configured (γ := γ) symbols multithreaded).central.orderNumber = 0 := by
  obtain ⟨hrings, hnumber, -⟩ := setSymbolsFrom_start (γ := γ) 0 symbols ({}, {})
  unfold configured CentralOrderBook.configured
  cases multithreaded with
  | false => exact ⟨hrings, hnumber⟩
  | true => exact ⟨hrings, hnumber⟩

theorem configured_quiescent (symbols : List Bytes) (multithreaded : Bool) :
    (configured (γ := γ) symbols multithreaded).Quiescent :=
  ⟨fun _ => rfl, fun _ => rfl, rfl⟩

theorem configured_simulates (symbols : List Bytes) (multithreaded : Bool) :
    (configured (γ := γ) symbols multithreaded).Simulates [] := by
  have hquiescent := configured_quiescent (γ := γ) symbols multithreaded
  refine ⟨⟨fun index securityId pending erasing hbusy => ?_, fun index task hmem => ?_,
    fun _ => hquiescent⟩, fun securityId => ⟨[], {}, rfl, rfl, ?_, ?_⟩⟩
  · rw [hquiescent.workers] at hbusy
    cases hbusy
  · rw [hquiescent.queues] at hmem
    cases hmem
  · rw [hquiescent.bookAfterTask, configured_book]
  · rw [hquiescent.pending, CentralOrderBook.taskReports, (configured_start symbols multithreaded).1]
    rfl

theorem work_orderNumber {system next : System γ} {queueIndex : Nat}
    (hstep : system.work queueIndex = some next) :
    next.central.orderNumber = system.central.orderNumber := by
  unfold work at hstep
  split at hstep
  · split at hstep
    · cases hstep
    · obtain ⟨_, -, rfl⟩ := Option.map_eq_some_iff.mp hstep
      rfl
  · obtain rfl := Option.some.inj hstep
    rfl
  · obtain rfl := Option.some.inj hstep
    rfl
  · obtain rfl := Option.some.inj hstep
    rfl

theorem addOrder_orderNumber {system next : System γ} {order : Order γ}
    (hstep : system.addOrder order = some next) :
    next.central.orderNumber = system.central.orderNumber + 1 := by
  unfold addOrder at hstep
  dsimp only at hstep
  split at hstep
  · obtain rfl := Option.some.inj hstep
    rfl
  · obtain ⟨central, hrun, rfl⟩ := Option.map_eq_some_iff.mp hstep
    have htask : (system.central.acceptOrder order).1.runTask
        (.newOrder (system.central.acceptOrder order).2) = some central := hrun
    obtain ⟨book, reports, -, rfl⟩ := CentralOrderBook.runTask_cases htask
    rfl

theorem cancelOrder_orderNumber {system next : System γ} {order : Order γ}
    {origClientOrderID : Bytes}
    (hstep : system.cancelOrder order origClientOrderID = some next) :
    next.central.orderNumber = system.central.orderNumber := by
  unfold cancelOrder at hstep
  split at hstep
  · rw [(submitTask_observers hstep 0).1]
  · obtain rfl := Option.some.inj hstep
    rfl

theorem callsOf_snoc (labels : List (Label γ)) (label : Label γ) :
    callsOf (labels ++ [label]) = callsOf labels ++ label.call.toList := by
  unfold callsOf
  rw [List.filterMap_append]
  cases label with
  | addOrder order => rfl
  | cancelOrder order origClientOrderID => rfl
  | submit => rfl
  | work queueIndex => rfl

/-- The task that one more label requests. -/
theorem requestsOf_snoc (labels : List (Label γ)) (label : Label γ) :
    requestsOf (labels ++ [label]) = requestsOf labels ++
      numberCalls (BitVec.ofNat 32 (arrivalsOf (callsOf labels))) label.call.toList := by
  have hstart : (0 : BitVec 32) + BitVec.ofNat 32 (arrivalsOf (callsOf labels)) =
      BitVec.ofNat 32 (arrivalsOf (callsOf labels)) := BitVec.zero_add _
  unfold requestsOf
  rw [callsOf_snoc, numberCalls_append, hstart]

/-- Every run simulates its requests, numbered in the order of the calls. -/
theorem run_simulates (symbols : List Bytes) (multithreaded : Bool) {labels : List (Label γ)}
    {system : System γ} (h : run step (configured symbols multithreaded) labels = some system) :
    system.Simulates (requestsOf labels) ∧
      system.central.orderNumber = BitVec.ofNat 32 (arrivalsOf (callsOf labels)) := by
  apply run_induction (fun labels (system : System γ) => system.Simulates (requestsOf labels) ∧
    system.central.orderNumber = BitVec.ofNat 32 (arrivalsOf (callsOf labels))) _ _ h
  · exact ⟨configured_simulates symbols multithreaded, (configured_start symbols multithreaded).2⟩
  · intro labels system label next _ hI hstep
    obtain ⟨hsim, hnumber⟩ := hI
    rw [requestsOf_snoc, ← hnumber, callsOf_snoc]
    cases label with
    | addOrder order =>
      simp only [step, Option.ite_none_right_eq_some, Option.isNone_iff_eq_none] at hstep
      refine ⟨addOrder_simulates hsim hstep.1 hstep.2, ?_⟩
      rw [addOrder_orderNumber hstep.2, hnumber]
      simp [arrivalsOf, Label.call, Task.isNewOrder, BitVec.ofNat_add]
    | cancelOrder order origClientOrderID =>
      simp only [step, Option.ite_none_right_eq_some, Option.isNone_iff_eq_none] at hstep
      refine ⟨cancelOrder_simulates hsim hstep.1 hstep.2, ?_⟩
      rw [cancelOrder_orderNumber hstep.2, hnumber]
      simp [arrivalsOf, Label.call, Task.isNewOrder]
    | submit =>
      simp only [step] at hstep
      simp only [Label.call, Option.toList_none, numberCalls, List.append_nil]
      cases hsubmitting : system.submitting with
      | none =>
        rw [hsubmitting] at hstep
        cases hstep
      | some task =>
        rw [hsubmitting] at hstep
        refine ⟨submit_simulates hsim hsubmitting hstep, ?_⟩
        rw [(submitTask_observers hstep 0).1]
        exact hnumber
    | work queueIndex =>
      simp only [Label.call, Option.toList_none, numberCalls, List.append_nil]
      refine ⟨work_simulates hsim hstep, ?_⟩
      rw [work_orderNumber hstep]
      exact hnumber

/-- There are no tasks and no workers beyond the threads of the pool. -/
structure Bounded (threads : Nat) (system : System γ) : Prop where
  count : system.threadCount = threads
  beyond : ∀ queueIndex, threads ≤ queueIndex →
    system.threadQueues queueIndex = [] ∧ system.workers queueIndex = .idle

theorem submitTask_bounded {threads : Nat} {system next : System γ} {task : Task γ} {queueID : Nat}
    (h : system.Bounded threads) (hstep : system.submitTask task queueID = some next) :
    next.Bounded threads := by
  unfold submitTask at hstep
  split at hstep
  · rename_i hlt
    obtain rfl := Option.some.inj hstep
    refine ⟨h.count, fun queueIndex hbeyond => ?_⟩
    have hne : queueIndex ≠ queueID := by
      rw [h.count] at hlt
      omega
    simp only [Function.update_of_ne hne]
    exact h.beyond queueIndex hbeyond
  · cases hstep

theorem work_bounded {threads : Nat} {system next : System γ} {queueIndex : Nat}
    (h : system.Bounded threads) (hstep : system.work queueIndex = some next) :
    next.Bounded threads := by
  have hlt : queueIndex < threads := by
    by_contra hbeyond
    obtain ⟨hqueue, hworker⟩ := h.beyond queueIndex (Nat.le_of_not_lt hbeyond)
    rw [work, hworker] at hstep
    simp [hqueue] at hstep
  have hbeyond : ∀ (queues : Nat → List (Task γ)) (workers : Nat → Worker γ),
      (∀ other, other ≠ queueIndex → queues other = system.threadQueues other) →
      (∀ other, other ≠ queueIndex → workers other = system.workers other) →
      ∀ other, threads ≤ other → queues other = [] ∧ workers other = .idle := by
    intro queues workers hqueues hworkers other hother
    have hne : other ≠ queueIndex := by omega
    rw [hqueues other hne, hworkers other hne]
    exact h.beyond other hother
  unfold work at hstep
  split at hstep
  · split at hstep
    · cases hstep
    · obtain ⟨_, -, rfl⟩ := Option.map_eq_some_iff.mp hstep
      exact ⟨h.count, hbeyond _ _ (fun _ hne => Function.update_of_ne hne _ _)
        fun _ hne => Function.update_of_ne hne _ _⟩
  · obtain rfl := Option.some.inj hstep
    exact ⟨h.count, hbeyond _ _ (fun _ _ => rfl) fun _ hne => Function.update_of_ne hne _ _⟩
  · obtain rfl := Option.some.inj hstep
    exact ⟨h.count, hbeyond _ _ (fun _ _ => rfl) fun _ hne => Function.update_of_ne hne _ _⟩
  · obtain rfl := Option.some.inj hstep
    exact ⟨h.count, hbeyond _ _ (fun _ _ => rfl) fun _ hne => Function.update_of_ne hne _ _⟩

theorem step_bounded {threads : Nat} {system next : System γ} {label : Label γ}
    (h : system.Bounded threads) (hstep : system.step label = some next) : next.Bounded threads := by
  cases label with
  | addOrder order =>
    simp only [step, addOrder, Option.ite_none_right_eq_some] at hstep
    obtain ⟨-, hstep⟩ := hstep
    split at hstep
    · obtain rfl := Option.some.inj hstep
      exact ⟨h.count, h.beyond⟩
    · obtain ⟨_, -, rfl⟩ := Option.map_eq_some_iff.mp hstep
      exact ⟨h.count, h.beyond⟩
  | cancelOrder order origClientOrderID =>
    simp only [step, cancelOrder, Option.ite_none_right_eq_some] at hstep
    obtain ⟨-, hstep⟩ := hstep
    split at hstep
    · exact submitTask_bounded h hstep
    · obtain rfl := Option.some.inj hstep
      exact ⟨h.count, h.beyond⟩
  | submit =>
    simp only [step] at hstep
    split at hstep
    · have hidle : ({ system with submitting := none } : System γ).Bounded threads :=
        ⟨h.count, h.beyond⟩
      exact submitTask_bounded hidle hstep
    · cases hstep
  | work queueIndex => exact work_bounded h hstep

/-- In a run, the threads of the pool are all there is to drain. -/
theorem quiescent_of_threads {symbols : List Bytes} {multithreaded : Bool}
    {labels : List (Label γ)} {system : System γ}
    (h : run step (configured symbols multithreaded) labels = some system)
    (threads : ∀ queueIndex < symbols.length,
      system.threadQueues queueIndex = [] ∧ system.workers queueIndex = .idle)
    (submitter : system.submitting = none) : system.Quiescent := by
  have hbounded : system.Bounded symbols.length :=
    run_invariant (Bounded symbols.length) ⟨rfl, fun _ _ => ⟨rfl, rfl⟩⟩
      (fun _ _ _ hI hstep => step_bounded hI hstep) h
  have hall : ∀ queueIndex,
      system.threadQueues queueIndex = [] ∧ system.workers queueIndex = .idle := by
    intro queueIndex
    by_cases hlt : queueIndex < symbols.length
    · exact threads queueIndex hlt
    · exact hbounded.beyond queueIndex (Nat.le_of_not_lt hlt)
  exact ⟨fun queueIndex => (hall queueIndex).1, fun queueIndex => (hall queueIndex).2, submitter⟩

end System

end LiteExchange.OrderMatcher
