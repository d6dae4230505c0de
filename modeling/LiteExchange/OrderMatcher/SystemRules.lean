import LiteExchange.OrderMatcher.Simulation

/-!
# Rules for the whole system

A rule for resting orders and reports, which the trades and the cancel flag keep, holds
of every state of every run whose calls meet it: of the books, also while a worker is
in the middle of a task, of the reports in the rings and of those still to be pushed.
What is asked of a report in a ring may depend on its place there.
-/

namespace LiteExchange.OrderMatcher

open Foundation.Ascii Foundation.Runs

variable {γ : Type}

/-- The properties hold of all resting orders, of the reports in the rings at their places, of
the reports to be pushed and the orders to be erased, and the tasks that are still to run meet
them. -/
structure System.Carries (bid ask erased : Order γ → Prop) (report : OutgoingMessage γ → Prop)
    (pushed : Nat → Nat → OutgoingMessage γ → Prop) (system : System γ) : Prop where
  books : ∀ securityId, (system.central.book securityId).Holds bid ask
  rings : ∀ queueID index message,
    (system.central.outgoingMessages queueID)[index]? = some message →
    pushed queueID index message
  pending : ∀ queueIndex securityId pending erasing,
    system.workers queueIndex = .busy securityId pending erasing →
    ∀ message ∈ pending, report message
  erasing : ∀ queueIndex securityId pending order,
    system.workers queueIndex = .busy securityId pending (some order) → erased order
  queued : ∀ queueIndex, ∀ task ∈ system.threadQueues queueIndex, task.Meets bid ask report
  submitting : ∀ task, system.submitting = some task → task.Meets bid ask report

/-- A rule for the books that also covers what a worker erases and what the rings hold. -/
structure SystemRule (bid ask erased : Order γ → Prop) (report : OutgoingMessage γ → Prop)
    (pushed : Nat → Nat → OutgoingMessage γ → Prop) : Prop where
  books : BookLog.ReportRule bid ask report
  erased : ∀ order, bid order ∨ ask order → erased order.cancel
  pushed : ∀ queueID index message, report message → pushed queueID index message

/-- The properties hold of all resting orders and of all reports but the ACCEPTED ones,
and the tasks that are still to run meet them. -/
structure System.Holds (bid ask : Order γ → Prop) (report : OutgoingMessage γ → Prop)
    (system : System γ) : Prop where
  books : ∀ securityId, (system.central.book securityId).Holds bid ask
  rings : ∀ queueID, ∀ message ∈ system.central.outgoingMessages queueID,
    message.status = .accepted ∨ report message
  busy : ∀ queueIndex securityId pending erasing,
    system.workers queueIndex = .busy securityId pending erasing → ∀ message ∈ pending, report message
  queued : ∀ queueIndex, ∀ task ∈ system.threadQueues queueIndex, task.Meets bid ask report
  submitting : ∀ task, system.submitting = some task → task.Meets bid ask report

/-- The reports pushed so far and those of the tasks that are under way. -/
def System.Reported (system : System γ) (message : OutgoingMessage γ) : Prop :=
  (∃ queueID, message ∈ system.central.outgoingMessages queueID) ∨
    ∃ queueIndex securityId pending erasing,
      system.workers queueIndex = .busy securityId pending erasing ∧ message ∈ pending

/-- The call meets the properties with every id that `addOrder` may give. -/
def Label.Meets (bid ask : Order γ → Prop) (report : OutgoingMessage γ → Prop) : Label γ → Prop
  | .addOrder order =>
    ∀ orderID, (Task.newOrder (order.setOrderId orderID)).Meets bid ask report
  | .cancelOrder order origClientOrderID =>
    (Task.cancelOrder order origClientOrderID).Meets bid ask report
  | .submit => True
  | .work _ => True

namespace System

variable {bid ask erased : Order γ → Prop} {report : OutgoingMessage γ → Prop}
  {pushed : Nat → Nat → OutgoingMessage γ → Prop} {system next : System γ}

theorem runTask_holds (rule : BookLog.ReportRule bid ask report) {book after : OrderBook γ}
    {task : Task γ} {reports : List (OutgoingMessage γ)} (hbook : book.Holds bid ask)
    (meets : task.Meets bid ask report) (h : book.runTask task = some (after, reports)) :
    after.Holds bid ask ∧ ∀ message ∈ reports, report message := by
  have hlog : (⟨book, []⟩ : BookLog γ).Holds bid ask report :=
    ⟨hbook, fun _ hmem => absurd hmem List.not_mem_nil⟩
  have hrun : (⟨book, []⟩ : BookLog γ).runTask task = some ⟨after, reports⟩ := by
    simp [BookLog.runTask, h]
  have hnext := rule.runTask hlog meets hrun
  exact ⟨hnext.book, hnext.reports⟩

theorem beginTask_holds (rule : BookLog.ReportRule bid ask report) {book after : OrderBook γ}
    {task : Task γ} {pending : List (OutgoingMessage γ)} {erasing : Option (Order γ)}
    (hbook : book.Holds bid ask) (meets : task.Meets bid ask report)
    (h : book.beginTask task = some (after, pending, erasing)) :
    after.Holds bid ask ∧ ∀ message ∈ pending, report message := by
  cases task with
  | newOrder order =>
    obtain ⟨⟨next, reports⟩, hrun, hresult⟩ := Option.map_eq_some_iff.mp h
    cases hresult
    exact runTask_holds rule hbook meets hrun
  | cancelOrder order origClientOrderID =>
    simp only [OrderBook.beginTask] at h
    split at h
    · rename_i found hfind
      cases h
      refine ⟨OrderBook.cancelFound_holds hbook rule.closed.canceledBid rule.closed.canceledAsk
        _ _ _, fun message hmem => ?_⟩
      rw [List.mem_singleton.mp hmem]
      cases List.mem_append.mp (OrderBook.find_mem hfind).1 with
      | inl hbid => exact rule.canceledBid found (hbook.bids found hbid)
      | inr hask => exact rule.canceledAsk found (hbook.asks found hask)
    · cases h
      refine ⟨hbook, fun message hmem => ?_⟩
      rw [List.mem_singleton.mp hmem]
      exact meets

theorem setBook_holds {central : CentralOrderBook γ} {securityId : Nat} {book : OrderBook γ}
    (h : ∀ other, (central.book other).Holds bid ask) (hbook : book.Holds bid ask) (other : Nat) :
    ((central.setBook securityId book).book other).Holds bid ask := by
  rw [CentralOrderBook.book_setBook]
  split
  · exact hbook
  · exact h other

theorem beginTask_erasing {book after : OrderBook γ} {task : Task γ}
    {pending : List (OutgoingMessage γ)} {order : Order γ}
    (h : book.beginTask task = some (after, pending, some order)) :
    ∃ found ∈ book.orders, order = found.cancel := by
  cases task with
  | newOrder arriving =>
    obtain ⟨⟨next, reports⟩, -, hresult⟩ := Option.map_eq_some_iff.mp h
    cases hresult
  | cancelOrder request origClientOrderID =>
    simp only [OrderBook.beginTask] at h
    split at h
    · rename_i found hfind
      cases h
      exact ⟨found, (OrderBook.find_mem hfind).1, rfl⟩
    · cases h

/-- A push adds its messages behind those that are there. -/
theorem push_carries {central : CentralOrderBook γ} {securityId : Nat}
    {messages : List (OutgoingMessage γ)}
    (h : ∀ queueID index message, (central.outgoingMessages queueID)[index]? = some message →
      pushed queueID index message)
    (hnew : ∀ queueID index, ∀ message ∈ messages, pushed queueID index message) :
    ∀ queueID index message,
      ((central.push securityId messages).outgoingMessages queueID)[index]? = some message →
      pushed queueID index message := by
  intro queueID index message hpushed
  rw [CentralOrderBook.outgoingMessages_push, List.getElem?_append] at hpushed
  split at hpushed
  · exact h queueID index message hpushed
  · apply hnew queueID index message
    have hmem := List.mem_of_getElem? hpushed
    split at hmem
    · exact hmem
    · cases hmem

/-- A task that runs in its call. -/
theorem central_runTask_carries (rule : SystemRule bid ask erased report pushed)
    (h : system.Carries bid ask erased report pushed) {task : Task γ}
    (meets : task.Meets bid ask report) {central : CentralOrderBook γ}
    (hrun : system.central.runTask task = some central) :
    ({ system with central := central } : System γ).Carries bid ask erased report pushed := by
  obtain ⟨book, reports, hbook, rfl⟩ := CentralOrderBook.runTask_cases hrun
  obtain ⟨hafter, hreports⟩ := runTask_holds rule.books (h.books task.securityId) meets hbook
  exact
    { books := setBook_holds h.books hafter
      rings := push_carries h.rings fun queueID index message hmem =>
        rule.pushed queueID index message (hreports message hmem)
      pending := h.pending
      erasing := h.erasing
      queued := h.queued
      submitting := h.submitting }

theorem acceptOrder_carries (h : system.Carries bid ask erased report pushed) {order : Order γ}
    (accepted : ∀ queueID index,
      pushed queueID index (.new (order.setOrderId system.central.nextOrderId) .accepted)) :
    ({ system with central := (system.central.acceptOrder order).1 } : System γ).Carries
      bid ask erased report pushed :=
  { books := h.books
    rings := push_carries h.rings fun queueID index message hmem => by
      rw [List.mem_singleton.mp hmem]
      exact accepted queueID index
    pending := h.pending
    erasing := h.erasing
    queued := h.queued
    submitting := h.submitting }

theorem submitTask_carries (h : system.Carries bid ask erased report pushed) {task : Task γ}
    (meets : task.Meets bid ask report) {queueID : Nat}
    (hstep : system.submitTask task queueID = some next) :
    next.Carries bid ask erased report pushed := by
  unfold submitTask at hstep
  split at hstep
  · cases hstep
    refine { h with queued := fun queueIndex other hmem => ?_ }
    by_cases hqueue : queueIndex = queueID
    · subst hqueue
      simp only [Function.update_self, List.mem_append, List.mem_singleton] at hmem
      cases hmem with
      | inl hold => exact h.queued _ other hold
      | inr hnew =>
        rw [hnew]
        exact meets
    · simp only [Function.update_of_ne hqueue] at hmem
      exact h.queued queueIndex other hmem
  · cases hstep

/-- A worker goes on among the others. -/
theorem worker_carries (h : system.Carries bid ask erased report pushed) (queueIndex : Nat)
    (worker : Worker γ)
    (hpending : ∀ securityId pending erasing, worker = .busy securityId pending erasing →
      ∀ message ∈ pending, report message)
    (herasing : ∀ securityId pending order, worker = .busy securityId pending (some order) →
      erased order) :
    ({ system with workers := Function.update system.workers queueIndex worker } :
      System γ).Carries bid ask erased report pushed := by
  refine { h with
    pending := fun index securityId pending erasing hbusy => ?_
    erasing := fun index securityId pending order hbusy => ?_ }
  · by_cases hindex : index = queueIndex
    · subst hindex
      simp only [Function.update_self] at hbusy
      exact hpending securityId pending erasing hbusy
    · simp only [Function.update_of_ne hindex] at hbusy
      exact h.pending index securityId pending erasing hbusy
  · by_cases hindex : index = queueIndex
    · subst hindex
      simp only [Function.update_self] at hbusy
      exact herasing securityId pending order hbusy
    · simp only [Function.update_of_ne hindex] at hbusy
      exact h.erasing index securityId pending order hbusy

theorem work_carries (rule : SystemRule bid ask erased report pushed)
    (h : system.Carries bid ask erased report pushed) {queueIndex : Nat}
    (hstep : system.work queueIndex = some next) : next.Carries bid ask erased report pushed := by
  unfold work at hstep
  split at hstep
  · split at hstep
    · cases hstep
    · -- The worker begins the next task of its queue.
      rename_i task tasks hqueue
      obtain ⟨⟨book, pending, erasing⟩, hbegin, rfl⟩ := Option.map_eq_some_iff.mp hstep
      have hmeets : task.Meets bid ask report := by
        apply h.queued queueIndex
        rw [hqueue]
        exact List.mem_cons_self
      obtain ⟨hbook, hpending⟩ :=
        beginTask_holds rule.books (h.books task.securityId) hmeets hbegin
      refine { worker_carries h queueIndex (.busy task.securityId pending erasing) ?_ ?_ with
        books := setBook_holds h.books hbook, queued := ?_ }
      · intro securityId others erasing hbusy
        cases hbusy
        exact hpending
      · intro securityId others order hbusy
        cases hbusy
        obtain ⟨found, hfound, rfl⟩ := beginTask_erasing hbegin
        apply rule.erased found
        cases List.mem_append.mp hfound with
        | inl hbid => exact Or.inl ((h.books task.securityId).bids found hbid)
        | inr hask => exact Or.inr ((h.books task.securityId).asks found hask)
      · intro index other hmem
        by_cases hindex : index = queueIndex
        · subst hindex
          simp only [Function.update_self] at hmem
          apply h.queued index
          rw [hqueue]
          exact List.mem_cons_of_mem task hmem
        · simp only [Function.update_of_ne hindex] at hmem
          exact h.queued index other hmem
  · -- It pushes its next report.
    rename_i securityId message pending erasing hbusy
    cases hstep
    have hmessages := h.pending queueIndex _ _ _ hbusy
    refine { worker_carries h queueIndex (.busy securityId pending erasing) ?_ ?_ with
      rings := push_carries h.rings fun queueID index other hmem => ?_ }
    · intro running others erasing hworker
      cases hworker
      exact fun other hmem => hmessages other (List.mem_cons_of_mem message hmem)
    · intro running others order hworker
      cases hworker
      exact h.erasing queueIndex _ _ order hbusy
    · rw [List.mem_singleton.mp hmem]
      exact rule.pushed queueID index message (hmessages message List.mem_cons_self)
  · -- It erases the order that it has canceled.
    rename_i securityId order hbusy
    cases hstep
    refine { worker_carries h queueIndex (.busy securityId [] none) ?_ ?_ with
      books := setBook_holds h.books (OrderBook.erase_holds (h.books _) _) }
    · intro running others erasing hworker
      cases hworker
      exact fun other hmem => absurd hmem List.not_mem_nil
    · intro running others other hworker
      cases hworker
  · cases hstep
    refine worker_carries h queueIndex .idle ?_ ?_
    · intro running others erasing hworker
      cases hworker
    · intro running others other hworker
      cases hworker

/-- The properties survive a step whose call meets them, and whose ACCEPTED report does. -/
theorem step_carries (rule : SystemRule bid ask erased report pushed)
    (h : system.Carries bid ask erased report pushed) {label : Label γ}
    (meets : label.Meets bid ask report)
    (accepted : ∀ order, label = .addOrder order → ∀ queueID index,
      pushed queueID index (.new (order.setOrderId system.central.nextOrderId) .accepted))
    (hstep : system.step label = some next) : next.Carries bid ask erased report pushed := by
  cases label with
  | addOrder order =>
    simp only [step, addOrder, Option.ite_none_right_eq_some] at hstep
    have haccepted := acceptOrder_carries h (accepted order rfl)
    have hmeets := meets system.central.nextOrderId
    obtain ⟨-, hstep⟩ := hstep
    split at hstep
    · cases hstep
      refine { haccepted with submitting := fun task htask => ?_ }
      rw [← Option.some.inj htask]
      exact hmeets
    · obtain ⟨central, hrun, rfl⟩ := Option.map_eq_some_iff.mp hstep
      exact central_runTask_carries rule haccepted hmeets hrun
  | cancelOrder order origClientOrderID =>
    have hmeets : (Task.cancelOrder order origClientOrderID).Meets bid ask report := meets
    simp only [step, cancelOrder, Option.ite_none_right_eq_some] at hstep
    obtain ⟨-, hstep⟩ := hstep
    split at hstep
    · exact submitTask_carries h hmeets hstep
    · cases hstep
      exact central_runTask_carries rule h hmeets rfl
  | submit =>
    simp only [step] at hstep
    split at hstep
    · rename_i task htask
      have hidle : ({ system with submitting := none } : System γ).Carries
          bid ask erased report pushed :=
        { h with submitting := fun _ hnone => by cases hnone }
      exact submitTask_carries hidle (h.submitting task htask) hstep
    · cases hstep
  | work queueIndex => exact work_carries rule h hstep

theorem configured_carries (symbols : List Bytes) (multithreaded : Bool) :
    (configured symbols multithreaded).Carries bid ask erased report pushed where
  books := fun securityId => by
    have hempty : (configured (γ := γ) symbols multithreaded).central.book securityId = {} :=
      CentralOrderBook.configured_book symbols multithreaded securityId
    rw [hempty]
    exact OrderBook.empty_holds
  rings := fun queueID index message hpushed => by
    rw [(configured_start symbols multithreaded).1] at hpushed
    cases hpushed
  pending := fun _ _ _ _ hbusy => by cases hbusy
  erasing := fun _ _ _ _ hbusy => by cases hbusy
  queued := fun _ _ hmem => by cases hmem
  submitting := fun _ htask => by cases htask

/-! ## All reports but the ACCEPTED ones -/

theorem holds_iff : system.Holds bid ask report ↔ system.Carries bid ask (fun _ => True) report
    fun _ _ message => message.status = .accepted ∨ report message := by
  constructor
  · intro h
    exact
      { books := h.books
        rings := fun queueID index message hpushed =>
          h.rings queueID message (List.mem_of_getElem? hpushed)
        pending := h.busy
        erasing := fun _ _ _ _ _ => trivial
        queued := h.queued
        submitting := h.submitting }
  · intro h
    exact
      { books := h.books
        rings := fun queueID message hmem => by
          obtain ⟨index, hpushed⟩ := List.mem_iff_getElem?.mp hmem
          exact h.rings queueID index message hpushed
        busy := h.pending
        queued := h.queued
        submitting := h.submitting }

theorem step_holds (rule : BookLog.ReportRule bid ask report) (h : system.Holds bid ask report)
    {label : Label γ} (meets : label.Meets bid ask report)
    (hstep : system.step label = some next) : next.Holds bid ask report := by
  have hrule : SystemRule bid ask (fun _ => True) report fun _ _ message =>
      message.status = .accepted ∨ report message :=
    ⟨rule, fun _ _ => trivial, fun _ _ _ hreport => Or.inr hreport⟩
  exact holds_iff.mpr (step_carries hrule (holds_iff.mp h) meets
    (fun _ _ _ _ => Or.inl rfl) hstep)

/-- A fill is never an ACCEPTED report. -/
theorem Holds.fill (h : system.Holds bid ask report) {message : OutgoingMessage γ}
    (hreported : system.Reported message) (hfill : message.isFill = true) : report message := by
  rcases hreported with ⟨queueID, hmem⟩ | ⟨queueIndex, securityId, pending, erasing, hbusy, hmem⟩
  · cases h.rings queueID message hmem with
    | inl haccepted => simp [OutgoingMessage.isFill, haccepted] at hfill
    | inr hreport => exact hreport
  · exact h.busy queueIndex securityId pending erasing hbusy message hmem

theorem configured_holds (symbols : List Bytes) (multithreaded : Bool) :
    (configured symbols multithreaded).Holds bid ask report :=
  holds_iff.mpr (configured_carries symbols multithreaded)

end System

end LiteExchange.OrderMatcher
