import LiteExchange.Foundation.Lineage
import LiteExchange.OrderMatcher.ExactQuantities
import LiteExchange.OrderMatcher.SystemRules

/-!
# How resting orders change

A resting order that is in progress trades the smaller of two positive quantities, so it
stays in progress until it is filled. From one state of the system to the next every
resting order stems from one that rested before, executed further at most, or from the
order whose task the step begins.
-/

namespace LiteExchange.OrderMatcher

open Foundation.Ascii Foundation.Lineage Foundation.PriorityList

variable {γ : Type}

/-- Something of the order is open, and the quantities add up. -/
structure Order.InProgress (order : Order γ) : Prop where
  counted : order.Counted
  openQuantity : 0 < order.openQuantity

/-- An order with a positive quantity, as it is submitted. -/
theorem Order.Fresh.inProgress {order : Order γ} (fresh : order.Fresh)
    (positive : 0 < order.quantity) : order.InProgress where
  counted := fresh.counted (le_of_lt positive)
  openQuantity := by rw [fresh.openQuantity]; exact positive

/-- The quantity of the trade is positive, and so is the divisor of the average: `execute`
divides by what is executed afterwards. -/
def OutgoingMessage.PositiveFill (message : OutgoingMessage γ) : Prop :=
  message.isFill = true →
    0 < message.order.lastExecutedQuantity ∧ 0 < message.order.executedQuantity

/-- The same order, executed further at most. -/
structure Order.Evolves (before after : Order γ) : Prop where
  same : after = { before with
    openQuantity := after.openQuantity
    executedQuantity := after.executedQuantity
    cancelled := after.cancelled
    averageExecutedPrice := after.averageExecutedPrice
    lastExecutedPrice := after.lastExecutedPrice
    lastExecutedQuantity := after.lastExecutedQuantity }
  openQuantity : after.openQuantity ≤ before.openQuantity
  executedQuantity : before.executedQuantity ≤ after.executedQuantity

instance : Std.Refl (Order.Evolves (γ := γ)) where
  refl _ := ⟨rfl, le_refl _, le_refl _⟩

instance : IsTrans (Order γ) Order.Evolves where
  trans first second third h h' := by
    refine ⟨?_, le_trans h'.openQuantity h.openQuantity,
      le_trans h.executedQuantity h'.executedQuantity⟩
    rw [h'.same, h.same]

theorem Order.evolves_cancel (order : Order γ) : order.Evolves order.cancel :=
  ⟨rfl, le_refl _, le_refl _⟩

theorem Order.Counted.evolves_execute {order : Order γ} (counted : order.Counted) (price : ℚ)
    {quantity : Int} (positive : 0 < quantity) (within : quantity ≤ order.openQuantity) :
    order.Evolves (order.execute price quantity) := by
  obtain ⟨hopen, hexecuted⟩ := counted.execute_quantities price (le_of_lt positive) within
  refine ⟨rfl, ?_, ?_⟩
  · rw [hopen]
    omega
  · rw [hexecuted]
    omega

namespace OrderBook

/-- The traded quantity is positive and no more than either open quantity. -/
theorem tradedQuantity_bounds {bid ask : Order γ} (hbid : bid.InProgress) (hask : ask.InProgress) :
    0 < tradedQuantity bid ask ∧ tradedQuantity bid ask ≤ bid.openQuantity ∧
      tradedQuantity bid ask ≤ ask.openQuantity := by
  refine ⟨?_, tradedQuantity_le bid ask⟩
  unfold tradedQuantity
  split
  · exact hask.openQuantity
  · exact hbid.openQuantity

/-- An execution of at most the open quantity that does not fill the order leaves it in
progress. -/
theorem execute_inProgress {order : Order γ} (h : order.InProgress) (price : ℚ) {quantity : Int}
    (positive : 0 < quantity) (within : quantity ≤ order.openQuantity)
    (unfilled : (order.execute price quantity).isFilled = false) :
    (order.execute price quantity).InProgress := by
  have hcounted := h.counted.execute price (le_of_lt positive) within
  refine ⟨hcounted, lt_of_le_of_ne hcounted.openQuantity fun hzero => ?_⟩
  rw [(Order.isFilled_iff hcounted.balanced).mpr hzero.symm] at unfilled
  cases unfilled

/-- The reports of an execution of a positive quantity. -/
theorem execute_positiveFill {order : Order γ} (h : order.InProgress) (price : ℚ) {quantity : Int}
    (positive : 0 < quantity) (within : quantity ≤ order.openQuantity) :
    (fillReport (order.execute price quantity)).PositiveFill := by
  intro _
  have hexecuted := (h.counted.execute_quantities price (le_of_lt positive) within).2
  have hnonneg := h.counted.executedQuantity
  refine ⟨positive, ?_⟩
  simp only [fillReport, OutgoingMessage.new, hexecuted]
  omega

end OrderBook

open OrderBook in
/-- Trades and cancels keep orders in progress, and every fill is of a positive quantity. -/
theorem progress_rule : BookLog.ReportRule (γ := γ) Order.InProgress Order.InProgress
    OutgoingMessage.PositiveFill where
  closed :=
    { trade := fun bid ask hbid hask _ => by
        obtain ⟨hpositive, hbidWithin, haskWithin⟩ := tradedQuantity_bounds hbid hask
        exact ⟨execute_positiveFill hbid _ hpositive hbidWithin,
          execute_positiveFill hask _ hpositive haskWithin⟩
      tradedBid := fun bid ask hbid hask _ hunfilled => by
        obtain ⟨hpositive, hwithin, -⟩ := tradedQuantity_bounds hbid hask
        exact execute_inProgress hbid _ hpositive hwithin hunfilled
      tradedAsk := fun bid ask hbid hask _ hunfilled => by
        obtain ⟨hpositive, -, hwithin⟩ := tradedQuantity_bounds hbid hask
        exact execute_inProgress hask _ hpositive hwithin hunfilled
      canceledBid := fun _ h => ⟨h.counted.cancel, h.openQuantity⟩
      canceledAsk := fun _ h => ⟨h.counted.cancel, h.openQuantity⟩ }
  canceledBid := fun _ _ hfill => by cases hfill
  canceledAsk := fun _ _ hfill => by cases hfill

namespace OrderBook

abbrev InProgress (book : OrderBook γ) : Prop :=
  book.Holds Order.InProgress Order.InProgress

/-! ## Books -/

theorem settle_stems {order traded : Order γ} (h : order.Evolves traded) (rest : List (Order γ)) :
    StemsFrom Order.Evolves (settle traded rest) (order :: rest) := by
  unfold settle
  split
  · exact stemsFrom_of_sublist (List.sublist_cons_self order rest)
  · exact stemsFrom_cons h rest

theorem matchOnce_stems {book next : OrderBook γ} {trade : Trade γ} (hbook : book.InProgress)
    (h : book.matchOnce = some (trade, next)) :
    StemsFrom Order.Evolves next.orders book.orders := by
  obtain ⟨bid, bids, ask, asks, rfl, -, rfl, rfl⟩ := matchOnce_cases h
  have hbid := hbook.bids bid List.mem_cons_self
  have hask := hbook.asks ask List.mem_cons_self
  obtain ⟨hpositive, hbidWithin, haskWithin⟩ := tradedQuantity_bounds hbid hask
  exact (settle_stems (hbid.counted.evolves_execute _ hpositive hbidWithin) bids).append
    (settle_stems (hask.counted.evolves_execute _ hpositive haskWithin) asks)

theorem iterations_stems {book last : OrderBook γ} {trades : List (Trade γ)}
    (h : Iterations book trades last) (hbook : book.InProgress) :
    StemsFrom Order.Evolves last.orders book.orders := by
  induction h with
  | done => exact StemsFrom.refl _
  | trade once _ ih =>
    have hnext := (progress_rule.closed.matchOnce hbook once).2
    exact (matchOnce_stems hbook once).trans (ih hnext)

theorem modifyFirst_stems (found : Order γ → Bool) (entries : List (Order γ)) :
    StemsFrom Order.Evolves (modifyFirst found Order.cancel entries) entries := by
  induction entries with
  | nil => exact StemsFrom.refl []
  | cons order rest ih =>
    unfold modifyFirst
    split
    · exact stemsFrom_cons order.evolves_cancel rest
    · exact ih.arrive [order]

theorem cancelFound_stems (book : OrderBook γ) (clientID : Bytes) (sessionId : Nat)
    (side : OrderSide) :
    StemsFrom Order.Evolves (book.cancelFound clientID sessionId side).orders book.orders := by
  unfold cancelFound
  cases side with
  | nonSupported => exact StemsFrom.refl _
  | buy => exact (modifyFirst_stems _ _).append (StemsFrom.refl _)
  | sell => exact (StemsFrom.refl _).append (modifyFirst_stems _ _)

theorem erase_stems (book : OrderBook γ) (order : Order γ) :
    StemsFrom Order.Evolves (book.erase order).orders book.orders := by
  apply stemsFrom_of_sublist
  unfold erase
  split
  · exact (List.eraseP_sublist ..).append (List.Sublist.refl _)
  · exact (List.Sublist.refl _).append (List.eraseP_sublist ..)
  · exact List.Sublist.refl _

end OrderBook

/-- The order that a task brings into the book. -/
def Task.brings : Task γ → List (Order γ)
  | .newOrder order => [order]
  | .cancelOrder _ _ => []

namespace OrderBook

/-- Up to its first push a task brings its order, trades and flags. -/
theorem beginTask_stems {book after : OrderBook γ} {task : Task γ}
    {pending : List (OutgoingMessage γ)} {erasing : Option (Order γ)} (hbook : book.InProgress)
    (meets : task.Meets Order.InProgress Order.InProgress OutgoingMessage.PositiveFill)
    (h : book.beginTask task = some (after, pending, erasing)) :
    StemsFrom Order.Evolves after.orders (task.brings ++ book.orders) := by
  cases task with
  | newOrder order =>
    obtain ⟨⟨next, reports⟩, hrun, hresult⟩ := Option.map_eq_some_iff.mp h
    cases hresult
    obtain ⟨trades, hiter, -, -⟩ := newOrder_cases hrun
    have hinserted := insert_holds hbook meets.1 meets.2
    exact (stemsFrom_of_perm (insert_orders_perm book order)).trans
      (iterations_stems hiter hinserted)
  | cancelOrder order origClientOrderID =>
    simp only [beginTask] at h
    split at h
    · cases h
      exact cancelFound_stems book _ _ _
    · cases h
      exact StemsFrom.refl _

theorem finishTask_stems (book : OrderBook γ) (erasing : Option (Order γ)) :
    StemsFrom Order.Evolves (book.finishTask erasing).orders book.orders := by
  cases erasing with
  | none => exact StemsFrom.refl _
  | some order => exact erase_stems book order

theorem runTask_stems {book after : OrderBook γ} {task : Task γ}
    {reports : List (OutgoingMessage γ)} (hbook : book.InProgress)
    (meets : task.Meets Order.InProgress Order.InProgress OutgoingMessage.PositiveFill)
    (h : book.runTask task = some (after, reports)) :
    StemsFrom Order.Evolves after.orders (task.brings ++ book.orders) := by
  rw [runTask_eq_beginTask] at h
  obtain ⟨⟨next, pending, erasing⟩, hbegin, hresult⟩ := Option.map_eq_some_iff.mp h
  cases hresult
  exact (beginTask_stems hbook meets hbegin).trans (finishTask_stems next erasing)

end OrderBook

/-! ## Steps of the system -/

namespace System

variable {system next : System γ}

/-- The task that a step begins. In single-threaded mode a call runs its task itself. -/
def begins (system : System γ) : Label γ → Option (Task γ)
  | .addOrder order =>
    if system.central.isMatchingMultithreaded then none
    else some (.newOrder (order.setOrderId system.central.nextOrderId))
  | .cancelOrder order origClientOrderID =>
    if system.central.isMatchingMultithreaded then none
    else some (.cancelOrder order origClientOrderID)
  | .submit => none
  | .work queueIndex =>
    match system.workers queueIndex with
    | .idle => (system.threadQueues queueIndex).head?
    | .busy _ _ _ => none

/-- The task that a step begins on the book of the security. -/
def beginsOn (system : System γ) (label : Label γ) (securityId : Nat) : Option (Task γ) :=
  (system.begins label).filter fun task => task.securityId == securityId

/-- The order that a step brings into the book of the security. -/
def brings (system : System γ) (label : Label γ) (securityId : Nat) : List (Order γ) :=
  match system.beginsOn label securityId with
  | some task => task.brings
  | none => []

/-- What a step makes of a book. A worker stops at the first push of its task. -/
inductive Changes (task : Option (Task γ)) (book : OrderBook γ) : OrderBook γ → Prop
  | runs {running : Task γ} {after : OrderBook γ} {reports : List (OutgoingMessage γ)}
      (which : task = some running) (run : book.runTask running = some (after, reports)) :
      Changes task book after
  | begins {running : Task γ} {after : OrderBook γ} {pending : List (OutgoingMessage γ)}
      {erasing : Option (Order γ)} (which : task = some running)
      (run : book.beginTask running = some (after, pending, erasing)) : Changes task book after
  | erases (which : task = none) (order : Order γ) : Changes task book (book.erase order)
  | keeps (which : task = none) : Changes task book book

/-- A task that runs in its call changes its own book. -/
theorem runTask_changes {start central : CentralOrderBook γ} {task : Task γ}
    (h : start.runTask task = some central) {label : Label γ}
    (which : system.begins label = some task) (securityId : Nat) :
    Changes (system.beginsOn label securityId) (start.book securityId)
      (central.book securityId) := by
  obtain ⟨book, reports, hrun, rfl⟩ := CentralOrderBook.runTask_cases h
  rw [CentralOrderBook.book_push, CentralOrderBook.book_setBook]
  by_cases hsecurity : securityId = task.securityId
  · subst hsecurity
    rw [if_pos rfl]
    exact .runs (by simp [beginsOn, which]) hrun
  · rw [if_neg hsecurity]
    exact .keeps (by simp [beginsOn, which, Ne.symm hsecurity])

theorem work_changes {queueIndex : Nat} (h : system.work queueIndex = some next)
    (securityId : Nat) :
    Changes (system.beginsOn (.work queueIndex) securityId) (system.central.book securityId)
      (next.central.book securityId) := by
  unfold work at h
  split at h
  · rename_i hidle
    split at h
    · cases h
    · -- The worker begins the next task of its queue.
      rename_i task tasks hqueue
      obtain ⟨⟨book, pending, erasing⟩, hbegin, rfl⟩ := Option.map_eq_some_iff.mp h
      have hbegins : system.begins (.work queueIndex) = some task := by
        simp [begins, hidle, hqueue]
      rw [CentralOrderBook.book_setBook]
      by_cases hsecurity : securityId = task.securityId
      · subst hsecurity
        rw [if_pos rfl]
        exact .begins (by simp [beginsOn, hbegins]) hbegin
      · rw [if_neg hsecurity]
        exact .keeps (by simp [beginsOn, hbegins, Ne.symm hsecurity])
  · -- It pushes its next report.
    rename_i hbusy
    cases h
    exact .keeps (by simp [beginsOn, begins, hbusy])
  · -- It erases the order that it has canceled.
    rename_i running order hbusy
    cases h
    have hnone : system.beginsOn (.work queueIndex) securityId = none := by
      simp [beginsOn, begins, hbusy]
    rw [CentralOrderBook.book_setBook]
    split
    · rename_i hsecurity
      rw [← hsecurity]
      exact .erases hnone order
    · exact .keeps hnone
  · rename_i hbusy
    cases h
    exact .keeps (by simp [beginsOn, begins, hbusy])

theorem step_changes {label : Label γ} (h : system.step label = some next) (securityId : Nat) :
    Changes (system.beginsOn label securityId) (system.central.book securityId)
      (next.central.book securityId) := by
  cases label with
  | addOrder order =>
    simp only [step, addOrder, Option.ite_none_right_eq_some] at h
    obtain ⟨-, h⟩ := h
    have haccept : (system.central.acceptOrder order).1.isMatchingMultithreaded =
        system.central.isMatchingMultithreaded := rfl
    rw [haccept] at h
    by_cases hmode : system.central.isMatchingMultithreaded = true
    · rw [if_pos hmode] at h
      cases h
      exact .keeps (by simp [beginsOn, begins, hmode])
    · rw [if_neg hmode] at h
      obtain ⟨central, htask, rfl⟩ := Option.map_eq_some_iff.mp h
      have hbegins : system.begins (.addOrder order) =
          some (.newOrder (order.setOrderId system.central.nextOrderId)) := by
        simp [begins, hmode]
      have hrun : (system.central.acceptOrder order).1.runTask
          (.newOrder (order.setOrderId system.central.nextOrderId)) = some central := htask
      rw [← acceptOrder_book system.central order]
      exact runTask_changes hrun hbegins securityId
  | cancelOrder order origClientOrderID =>
    simp only [step, cancelOrder, Option.ite_none_right_eq_some] at h
    obtain ⟨-, h⟩ := h
    by_cases hmode : system.central.isMatchingMultithreaded = true
    · rw [if_pos hmode] at h
      rw [(submitTask_frame h).1]
      exact .keeps (by simp [beginsOn, begins, hmode])
    · rw [if_neg hmode] at h
      cases h
      have hbegins : system.begins (.cancelOrder order origClientOrderID) =
          some (.cancelOrder order origClientOrderID) := by
        simp [begins, hmode]
      have hrun : system.central.runTask (.cancelOrder order origClientOrderID) =
          some (system.central.taskCancelOrder order origClientOrderID) := rfl
      exact runTask_changes hrun hbegins securityId
  | submit =>
    simp only [step] at h
    split at h
    · rw [(submitTask_frame h).1]
      exact .keeps rfl
    · cases h
  | work queueIndex => exact work_changes h securityId

/-- A step begins a task that meets the properties. -/
theorem begins_meets {bid ask : Order γ → Prop} {report : OutgoingMessage γ → Prop}
    (hholds : system.Holds bid ask report) {label : Label γ} (meets : label.Meets bid ask report)
    {task : Task γ} (h : system.begins label = some task) : task.Meets bid ask report := by
  cases label with
  | addOrder order =>
    simp only [begins, Option.ite_none_left_eq_some] at h
    rw [← Option.some.inj h.2]
    exact meets _
  | cancelOrder order origClientOrderID =>
    simp only [begins, Option.ite_none_left_eq_some] at h
    rw [← Option.some.inj h.2]
    exact meets
  | submit => cases h
  | work queueIndex =>
    simp only [begins] at h
    split at h
    · exact hholds.queued queueIndex task (List.mem_of_mem_head? h)
    · cases h

/-- Every order that rests after a step stems from one that rested before or is brought by
the step. -/
theorem step_stems (hholds : system.Holds Order.InProgress Order.InProgress
      OutgoingMessage.PositiveFill)
    {label : Label γ} (meets : label.Meets Order.InProgress Order.InProgress
      OutgoingMessage.PositiveFill)
    (h : system.step label = some next) (securityId : Nat) :
    StemsFrom Order.Evolves (next.central.book securityId).orders
      (system.brings label securityId ++ (system.central.book securityId).orders) := by
  have hmeets : ∀ task, system.beginsOn label securityId = some task →
      task.Meets Order.InProgress Order.InProgress OutgoingMessage.PositiveFill :=
    fun task htask => begins_meets hholds meets (Option.filter_eq_some_iff.mp htask).1
  have hbook := hholds.books securityId
  have hchanges := step_changes h securityId
  generalize next.central.book securityId = after at hchanges ⊢
  unfold brings
  cases hchanges with
  | runs which hrun =>
    rw [which]
    exact OrderBook.runTask_stems hbook (hmeets _ which) hrun
  | begins which hbegin =>
    rw [which]
    exact OrderBook.beginTask_stems hbook (hmeets _ which) hbegin
  | erases which order =>
    rw [which]
    exact OrderBook.erase_stems _ order
  | keeps which =>
    rw [which]
    exact StemsFrom.refl _

end System

end LiteExchange.OrderMatcher
