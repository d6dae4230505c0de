import LiteExchange.OrderMatcher.Conservation

/-!
# Quantities that do not wrap

In a run in which no execution goes beyond a `long` the accounts are balanced as integers, and
so are the sums over the fill reports. That is every run whose orders have quantities that are
not negative: what is traded is then at most what is open.
-/

namespace LiteExchange.OrderMatcher

open Foundation.Ascii Foundation.Ledger Foundation.Runs

variable {γ : Type}

namespace BookLog

/-- No execution of the run wrapped a quantity. -/
def Unwrapped (log : BookLog γ) : Prop :=
  ∀ report ∈ log.reports, report.isFill = true → report.order.Unwrapped

instance (log : BookLog γ) : Decidable log.Unwrapped :=
  inferInstanceAs (Decidable (∀ report ∈ log.reports, _ → _))

/-- The accounts and the fill entries, as integers. -/
structure Exact (log : BookLog γ) : Prop where
  balanced : ∀ account ∈ log.accounts,
    account.openQuantity + account.executedQuantity = account.quantity
  tallied : log.Tallied (AddMonoidHom.id Int)

/-- The invariant in both arithmetics. -/
structure Kept (arrived : List Nat) (log : BookLog γ) : Prop where
  sound : log.Sound arrived
  exactly : log.Unwrapped → log.Exact

variable {arrived others : List Nat} {log : BookLog γ}

theorem empty_kept : ({} : BookLog γ).Kept [] where
  sound := empty_sound
  exactly := fun _ => ⟨fun _ h => absurd h List.not_mem_nil, empty_tallied⟩

theorem Kept.perm (hlog : log.Kept arrived) (h : arrived.Perm others) : log.Kept others :=
  ⟨hlog.sound.perm h, hlog.exactly⟩

theorem Kept.insert (hlog : log.Kept arrived) {order : Order γ} (fresh : order.Fresh)
    (side : order.side = .buy ∨ order.side = .sell) :
    ({ log with book := log.book.insert order } : BookLog γ).Kept (order.orderID :: arrived) where
  sound := hlog.sound.insert fresh side
  exactly := by
    intro hunwrapped
    obtain ⟨hbalanced, htallied⟩ := hlog.exactly hunwrapped
    refine ⟨fun account hmem => ?_, htallied.insert fresh.executedQuantity⟩
    rcases List.mem_cons.mp ((insert_accounts log order).mem_iff.mp hmem) with rfl | hmem
    · simp only [Order.account, fresh.openQuantity, fresh.executedQuantity, Int.add_zero]
    · exact hbalanced account hmem

theorem fillReport_unwrapped {order : Order γ} :
    (fillReport order).order.Unwrapped ↔ order.Unwrapped :=
  ⟨fun h => ⟨h.openQuantity, h.executedQuantity⟩, fun h => ⟨h.openQuantity, h.executedQuantity⟩⟩

/-- The two reports of a trade tell whether it wrapped a quantity. -/
theorem traded_unwrapped {trade : Trade γ} {next : OrderBook γ}
    (h : (log.traded trade next).Unwrapped) :
    log.Unwrapped ∧ trade.bid.Unwrapped ∧ trade.ask.Unwrapped := by
  refine ⟨fun report hmem => h report (List.mem_append_left _ hmem), ?_, ?_⟩
  · have hreport := h (fillReport trade.bid) (List.mem_append_right _ (by simp [Trade.snapshots]))
    exact fillReport_unwrapped.mp (hreport (isFill_fillReport _))
  · have hreport := h (fillReport trade.ask) (List.mem_append_right _ (by simp [Trade.snapshots]))
    exact fillReport_unwrapped.mp (hreport (isFill_fillReport _))

theorem Sound.resting (hlog : log.Sound arrived) {order : Order γ}
    (resting : order ∈ log.book.orders) : order.Balanced :=
  (hlog.balanced order.account (List.mem_append_left _ (List.mem_map_of_mem resting))).of_account

/-- What a trade that wraps nothing makes of its two orders. -/
theorem Sound.trade_fits (hlog : log.Sound arrived) {trade : Trade γ}
    (bidUnwrapped : trade.bid.Unwrapped) (askUnwrapped : trade.ask.Unwrapped) {bid ask : Order γ}
    (hbid : bid ∈ log.book.bidOrders) (hask : ask ∈ log.book.askOrders)
    (h : trade = OrderBook.matchTwoOrders bid ask) :
    (IsLong (bid.openQuantity - OrderBook.tradedQuantity bid ask) ∧
        IsLong (bid.executedQuantity + OrderBook.tradedQuantity bid ask)) ∧
      IsLong (ask.openQuantity - OrderBook.tradedQuantity bid ask) ∧
        IsLong (ask.executedQuantity + OrderBook.tradedQuantity bid ask) := by
  subst h
  exact ⟨(Order.execute_unwrapped_iff (hlog.resting (List.mem_append_left _ hbid)) _ _).mp
      bidUnwrapped,
    (Order.execute_unwrapped_iff (hlog.resting (List.mem_append_right _ hask)) _ _).mp
      askUnwrapped⟩

theorem Kept.trade (hlog : log.Kept arrived) {next : OrderBook γ} {trade : Trade γ}
    (h : log.book.matchOnce = some (trade, next)) : (log.traded trade next).Kept arrived where
  sound := (hlog.sound.trade h).1
  exactly := by
    intro hunwrapped
    obtain ⟨hbefore, hbidUnwrapped, haskUnwrapped⟩ := traded_unwrapped hunwrapped
    obtain ⟨hbalanced, htallied⟩ := hlog.exactly hbefore
    have hfits : ∀ bid ∈ log.book.bidOrders, ∀ ask ∈ log.book.askOrders,
        trade = OrderBook.matchTwoOrders bid ask → _ := fun _ hbid _ hask =>
      hlog.sound.trade_fits hbidUnwrapped haskUnwrapped hbid hask
    have hentries := htallied.trade hlog.sound.sided h fun bid hbid ask hask hsame =>
      ⟨long_of_isLong (hfits bid hbid ask hask hsame).1.2,
        long_of_isLong (hfits bid hbid ask hask hsame).2.2⟩
    obtain ⟨bid, ask, others, hbid, hask, -, htrade, haccounts, hafter⟩ := traded_accounts h
    obtain ⟨⟨hbidOpen, hbidExecuted⟩, haskOpen, haskExecuted⟩ := hfits bid hbid ask hask htrade
    refine ⟨fun account hmem => ?_, hentries⟩
    have hsums : ∀ other ∈ bid.account :: ask.account :: others,
        other.openQuantity + other.executedQuantity = other.quantity :=
      fun other hother => hbalanced other (haccounts.mem_iff.mpr hother)
    simp only [List.forall_mem_cons] at hsums
    obtain ⟨hbidSum, haskSum, hothers⟩ := hsums
    simp only [hafter.mem_iff, List.mem_cons] at hmem
    obtain rfl | rfl | hmem := hmem
    · simp only [htrade, Order.account, OrderBook.matchTwoOrders, Order.execute,
        long_of_isLong hbidOpen, long_of_isLong hbidExecuted] at hbidSum ⊢
      omega
    · simp only [htrade, Order.account, OrderBook.matchTwoOrders, Order.execute,
        long_of_isLong haskOpen, long_of_isLong haskExecuted] at haskSum ⊢
      omega
    · exact hothers account hmem

theorem Kept.cancel (hlog : log.Kept arrived) (order : Order γ) (origClientOrderID : Bytes) :
    (⟨(log.book.cancelOrder order origClientOrderID).1,
      log.reports ++ (log.book.cancelOrder order origClientOrderID).2⟩ : BookLog γ).Kept
      arrived where
  sound := hlog.sound.cancel order origClientOrderID
  exactly := by
    intro hunwrapped
    obtain ⟨hbalanced, htallied⟩ := hlog.exactly
      fun report hmem => hunwrapped report (List.mem_append_left _ hmem)
    have hperm := cancelOrder_accounts hlog.sound.sided order origClientOrderID
    exact ⟨fun account hmem => hbalanced account (hperm.mem_iff.mp hmem),
      htallied.cancel hlog.sound.sided order origClientOrderID⟩

theorem Kept.iterations {book last : OrderBook γ} {reports : List (OutgoingMessage γ)}
    {trades : List (Trade γ)} (hlog : (⟨book, reports⟩ : BookLog γ).Kept arrived)
    (h : OrderBook.Iterations book trades last) :
    (⟨last, reports ++ (trades.flatMap Trade.snapshots).map fillReport⟩ : BookLog γ).Kept
      arrived :=
  iterations_invariant (Kept arrived) (fun _ _ _ hkept once => hkept.trade once) h hlog

theorem Kept.runTask {next : BookLog γ} {task : Task γ} (hlog : log.Kept arrived)
    (admitted : task.Admitted) (h : log.runTask task = some next) :
    next.Kept (task.arrival ++ arrived) := by
  rcases runTask_cases h with
    ⟨order, trades, rfl, hiter, -, hreports⟩ | ⟨order, origClientOrderID, rfl, rfl⟩
  · obtain ⟨fresh, side⟩ := admitted
    have hlast := (hlog.insert fresh side).iterations hiter
    rwa [← hreports] at hlast
  · exact hlog.cancel order origClientOrderID

theorem run_kept (tasks : List (Task γ)) (admitted : ∀ task ∈ tasks, task.Admitted)
    {last : BookLog γ} (h : run runTask {} (numberTasks 1 tasks) = some last) :
    last.Kept (List.range' 1 (arrivalsOf tasks)) := by
  have hkept := run_numbered Kept (fun _ _ _ hperm hlog => hlog.perm hperm)
    (fun _ _ _ _ hlog htask _ hstep => hlog.runTask htask hstep) tasks 0 admitted empty_kept h
  rwa [Nat.zero_add] at hkept

/-! ## Quantities that are not negative -/

end BookLog

/-- The quantities of the report add up as integers, and its execution wrapped nothing. -/
structure OutgoingMessage.Exact (message : OutgoingMessage γ) : Prop where
  sum : message.order.openQuantity + message.order.executedQuantity = message.order.quantity
  unwrapped : message.isFill = true → message.order.Unwrapped

/-- A new order has a quantity that is not negative. -/
def Task.NonNegative : Task γ → Prop
  | .newOrder order => 0 ≤ order.quantity
  | .cancelOrder _ _ => True

instance (task : Task γ) : Decidable task.NonNegative :=
  match task with
  | .newOrder order => inferInstanceAs (Decidable (0 ≤ order.quantity))
  | .cancelOrder _ _ => inferInstanceAs (Decidable True)

theorem OrderBook.tradedQuantity_nonneg {bid ask : Order γ} (hbid : bid.Counted)
    (hask : ask.Counted) : 0 ≤ tradedQuantity bid ask := by
  unfold tradedQuantity
  split
  · exact hask.openQuantity
  · exact hbid.openQuantity

/-- What is traded is not negative and at most what is open, so nothing ever wraps. -/
theorem counted_rule :
    BookLog.ReportRule (γ := γ) Order.Counted Order.Counted OutgoingMessage.Exact := by
  have hfill : ∀ {order : Order γ} (price : ℚ) {quantity : Int}, order.Counted → 0 ≤ quantity →
      quantity ≤ order.openQuantity → (fillReport (order.execute price quantity)).Exact := by
    intro order price quantity hcounted hnonneg hwithin
    refine ⟨(hcounted.execute price hnonneg hwithin).sum, fun _ => ?_⟩
    exact BookLog.fillReport_unwrapped.mpr ((Order.execute_unwrapped_iff hcounted.balanced price
      quantity).mpr (hcounted.fits hnonneg hwithin))
  have hcanceled : ∀ order : Order γ, order.Counted →
      (OutgoingMessage.new order.cancel .canceled).Exact :=
    fun order hcounted => ⟨hcounted.sum, fun hfill => by cases hfill⟩
  exact
    { closed :=
        { trade := fun bid ask hbid hask _ =>
            have hnonneg := OrderBook.tradedQuantity_nonneg hbid hask
            have hwithin := OrderBook.tradedQuantity_le bid ask
            ⟨hfill _ hbid hnonneg hwithin.1, hfill _ hask hnonneg hwithin.2⟩
          tradedBid := fun bid ask hbid hask _ _ =>
            hbid.execute _ (OrderBook.tradedQuantity_nonneg hbid hask)
              (OrderBook.tradedQuantity_le bid ask).1
          tradedAsk := fun bid ask hbid hask _ _ =>
            hask.execute _ (OrderBook.tradedQuantity_nonneg hbid hask)
              (OrderBook.tradedQuantity_le bid ask).2
          canceledBid := fun _ h => h.cancel
          canceledAsk := fun _ h => h.cancel }
      canceledBid := hcanceled
      canceledAsk := hcanceled }


/-- The request of a cancel may have any quantities: what it is rejected with is no fill. -/
theorem unwrapped_rule : BookLog.ReportRule (γ := γ) Order.Counted Order.Counted
    fun message => message.isFill = true → message.order.Unwrapped :=
  counted_rule.mono fun _ h => h.unwrapped

theorem Task.Admitted.unwrapped {task : Task γ} (admitted : task.Admitted)
    (nonneg : task.NonNegative) : task.Meets Order.Counted Order.Counted
      fun message => message.isFill = true → message.order.Unwrapped := by
  cases task with
  | newOrder order =>
    have hcounted : order.Counted := admitted.1.counted nonneg
    exact ⟨fun _ => hcounted, fun _ => hcounted⟩
  | cancelOrder order origClientOrderID => exact fun hfill => by cases hfill

namespace BookLog

variable {log : BookLog γ}

/-- What the log shows, as integers. -/
structure ConservedExactly (log : BookLog γ) : Prop where
  balanced : ∀ account ∈ log.accounts,
    account.openQuantity + account.executedQuantity = account.quantity
  reported : ∀ account ∈ log.accounts,
    log.reportedFor account.orderID = account.executedQuantity
  sides : log.executedOn .buy = log.executedOn .sell

/-- What the log shows of the orders it has taken: each has one account, balanced
and equal to the sum of its fill reports, and both sides have executed the same;
as values of a `long`, and as integers where no execution wrapped. -/
structure Conserved (arrived : List Nat) (log : BookLog γ) : Prop where
  orders : (log.accounts.map Account.orderID).Perm arrived
  balanced : ∀ account ∈ log.accounts, account.Balanced
  reported : ∀ account ∈ log.accounts,
    long (log.reportedFor account.orderID) = account.executedQuantity
  sides : long (log.executedOn .buy) = long (log.executedOn .sell)
  exactly : log.Unwrapped → log.ConservedExactly

theorem Kept.conserved {arrived : List Nat} (hlog : log.Kept arrived) (distinct : arrived.Nodup) :
    log.Conserved arrived where
  orders := hlog.sound.arrived
  balanced := hlog.sound.balanced
  reported := by
    intro account hmem
    have hreported := asLong_eq_iff.mp
      (hlog.sound.tallied.reported (hlog.sound.distinct distinct) hmem)
    rw [long_of_isLong (hlog.sound.balanced account hmem).executedQuantity] at hreported
    exact hreported
  sides := asLong_eq_iff.mp hlog.sound.tallied.sides
  exactly := by
    intro hunwrapped
    obtain ⟨hbalanced, htallied⟩ := hlog.exactly hunwrapped
    exact ⟨hbalanced, fun _ => htallied.reported (hlog.sound.distinct distinct), htallied.sides⟩

/-- Between two steps of a cancel the found order is flagged, and its quantities are those of its
account. -/
theorem cancelFound_account {clientID : Bytes} {sessionId : Nat} {side : OrderSide}
    {resting : Order γ} (h : resting ∈ (log.book.cancelFound clientID sessionId side).orders) :
    resting.account ∈ log.accounts := by
  have haccount : ∀ order ∈ log.book.orders, order.account ∈ log.accounts := fun order hmem =>
    List.mem_append_left _ (List.mem_map_of_mem hmem)
  rcases OrderBook.mem_cancelFound h with hkept | ⟨flagged, hflagged, rfl⟩
  · exact haccount resting hkept
  · exact haccount flagged hflagged

/-- Numbering keeps the quantities. -/
theorem forall_numberTasks {P : Task γ → Prop} (keep : ∀ (order : Order γ) (orderID : Nat),
      P (.newOrder order) → P (.newOrder (order.setOrderId orderID)))
    (arrivals : Nat) {tasks : List (Task γ)} (h : ∀ task ∈ tasks, P task) :
    ∀ task ∈ numberTasks arrivals tasks, P task := by
  induction tasks generalizing arrivals with
  | nil => exact h
  | cons task tasks ih =>
    obtain ⟨htask, htasks⟩ := List.forall_mem_cons.mp h
    cases task with
    | newOrder order => exact List.forall_mem_cons.mpr ⟨keep order _ htask, ih _ htasks⟩
    | cancelOrder order origClientOrderID =>
      exact List.forall_mem_cons.mpr ⟨htask, ih _ htasks⟩

theorem run_holds_unwrapped (tasks : List (Task γ)) (admitted : ∀ task ∈ tasks, task.Admitted)
    (nonneg : ∀ task ∈ tasks, task.NonNegative)
    (h : run runTask {} (numberTasks 1 tasks) = some log) :
    log.Holds Order.Counted Order.Counted fun message =>
      message.isFill = true → message.order.Unwrapped := by
  refine unwrapped_rule.run _ empty_holds (forall_numberTasks (fun order orderID hmeets => ?_) 1
    fun task hmem => (admitted task hmem).unwrapped (nonneg task hmem)) h
  have hnumbered : ∀ {other : Order γ}, other.Counted → (other.setOrderId orderID).Counted :=
    fun h => ⟨h.quantity, h.openQuantity, h.executedQuantity, h.sum⟩
  exact ⟨fun hside => hnumbered (hmeets.1 hside), fun hside => hnumbered (hmeets.2 hside)⟩

end BookLog

/-- Conservation and legality over whole runs on one book, for BUY and SELL orders
of any quantity: every order is balanced and is the sum of its fill reports, both
sides have executed the same quantity, also between the iterations of the loop
and inside a cancel; and the loop appends to the queue the snapshots of its
trades, two for each, and every trade is legal. No execution wraps where no
quantity is negative. -/
theorem quantity_conserved (tasks : List (Task γ)) (admitted : ∀ task ∈ tasks, task.Admitted)
    (log : BookLog γ) (h : run BookLog.runTask {} (numberTasks 1 tasks) = some log) :
    log.Conserved (List.range' 1 (arrivalsOf tasks)) ∧
    ((∀ task ∈ tasks, task.NonNegative) → log.Unwrapped) ∧
    (∀ clientID sessionId side, ∀ resting ∈
      (log.book.cancelFound clientID sessionId side).orders, resting.Balanced ∧
        (log.Unwrapped →
          resting.openQuantity + resting.executedQuantity = resting.quantity)) ∧
    ∀ order : Order γ, (Task.newOrder order).Admitted →
      ∀ inserted, inserted = log.book.insert (order.setOrderId (1 + arrivalsOf tasks)) →
      (∀ trades mid, OrderBook.Iterations inserted trades mid → mid.Balanced ∧
        ∀ midway : BookLog γ,
          midway = ⟨mid, log.reports ++ (trades.flatMap Trade.snapshots).map fillReport⟩ →
          midway.Conserved (List.range' 1 (arrivalsOf tasks + 1)) ∧
          ((∀ task ∈ tasks ++ [.newOrder order], task.NonNegative) → midway.Unwrapped)) ∧
      ∀ fuel queue last final,
        OrderBook.processMatchingLoop fuel inserted queue = some (last, final) →
        ∃ trades, OrderBook.Iterations inserted trades last ∧
          final = queue ++ trades.flatMap Trade.snapshots ∧ ∀ trade ∈ trades, trade.Legal := by
  have hlog := BookLog.run_kept tasks admitted h
  refine ⟨hlog.conserved List.nodup_range',
    fun hnonneg => (BookLog.run_holds_unwrapped tasks admitted hnonneg h).reports, ?_, ?_⟩
  · intro clientID sessionId side resting hmem
    have haccount := BookLog.cancelFound_account hmem
    exact ⟨(hlog.sound.balanced _ haccount).of_account,
      fun hunwrapped => (hlog.exactly hunwrapped).balanced _ haccount⟩
  · rintro order ⟨fresh, side⟩ inserted rfl
    have hfresh := fresh.setOrderId (1 + arrivalsOf tasks)
    have hinserted : (⟨log.book.insert (order.setOrderId (1 + arrivalsOf tasks)), log.reports⟩ :
        BookLog γ).Kept (List.range' 1 (arrivalsOf tasks + 1)) := by
      have hnew := hlog.insert hfresh side
      rw [List.range'_1_concat]
      exact hnew.perm (List.perm_append_singleton _ _).symm
    constructor
    · intro trades mid hiter
      have hmid := hinserted.iterations hiter
      refine ⟨fun resting hmem => hmid.sound.resting hmem, ?_⟩
      rintro midway rfl
      refine ⟨hmid.conserved List.nodup_range', fun hnonneg => ?_⟩
      obtain ⟨hbefore, horder⟩ := List.forall_mem_append.mp hnonneg
      have hholds := BookLog.run_holds_unwrapped tasks admitted hbefore h
      have hcounted := hfresh.counted (horder (.newOrder order) List.mem_cons_self)
      have hnext : (⟨log.book.insert (order.setOrderId (1 + arrivalsOf tasks)), log.reports⟩ :
          BookLog γ).Holds Order.Counted Order.Counted fun message =>
            message.isFill = true → message.order.Unwrapped :=
        ⟨OrderBook.insert_holds hholds.book (fun _ => hcounted) (fun _ => hcounted),
          hholds.reports⟩
      exact (unwrapped_rule.iterations hnext hiter).reports
    · intro fuel queue last final hloop
      obtain ⟨trades, hiter, -, hfinal, -⟩ := OrderBook.processMatchingLoop_iff.mp hloop
      exact ⟨trades, hiter, hfinal, hinserted.sound.legal hiter⟩

theorem quantity_conserved_one_level :
    ∃ log, run BookLog.runTask {} (numberTasks 1 priceLevelTasks) = some log ∧
      log.reports.map OutgoingMessage.status = [.partiallyFilled, .filled, .canceled] ∧
      log.Conserved [1, 2, 3, 4] ∧ log.Unwrapped := by
  have hadmitted : ∀ task ∈ priceLevelTasks, task.Admitted := by
    simp only [priceLevelTasks, List.forall_mem_cons]
    exact ⟨⟨⟨rfl, rfl, by decide⟩, Or.inl rfl⟩, ⟨⟨rfl, rfl, by decide⟩, Or.inl rfl⟩,
      ⟨⟨rfl, rfl, by decide⟩, Or.inl rfl⟩, ⟨⟨rfl, rfl, by decide⟩, Or.inr rfl⟩, trivial,
      fun _ h => absurd h List.not_mem_nil⟩
  have hstatuses : (run BookLog.runTask {} (numberTasks 1 priceLevelTasks)).map
      (fun log => log.reports.map OutgoingMessage.status) =
        some [.partiallyFilled, .filled, .canceled] := by
    decide
  obtain ⟨log, hrun, hreports⟩ := Option.map_eq_some_iff.mp hstatuses
  obtain ⟨hconserved, hunwrapped, -⟩ := quantity_conserved priceLevelTasks hadmitted log hrun
  exact ⟨log, hrun, hreports, hconserved, hunwrapped (by decide)⟩

/-- A BUY order of the greatest quantity meets a SELL order of quantity -1. -/
def wrappingTasks : List (Task Unit) :=
  [.newOrder (.new 0 (ascii "1") 0 0 .buy .limit 10 (2 ^ 63 - 1) ()),
    .newOrder (.new 0 (ascii "2") 0 1 .sell .limit 10 (-1) ())]

/-- What is open of the BUY order goes beyond a `long`. -/
theorem open_quantity_wraps :
    ¬ ∀ (tasks : List (Task Unit)) (log : BookLog Unit), (∀ task ∈ tasks, task.Admitted) →
      run BookLog.runTask {} (numberTasks 1 tasks) = some log → log.ConservedExactly := by
  intro h
  have hadmitted : ∀ task ∈ wrappingTasks, task.Admitted := by
    simp only [wrappingTasks, List.forall_mem_cons]
    exact ⟨⟨⟨rfl, rfl, by decide⟩, Or.inl rfl⟩, ⟨⟨rfl, rfl, by decide⟩, Or.inr rfl⟩,
      fun _ h => absurd h List.not_mem_nil⟩
  have hresting : (run BookLog.runTask {} (numberTasks 1 wrappingTasks)).map
      (fun log => log.book.bidOrders.map Order.account) =
        some [⟨1, .buy, 2 ^ 63 - 1, -2 ^ 63, -1⟩] := by
    decide +kernel
  obtain ⟨log, hrun, hbids⟩ := Option.map_eq_some_iff.mp hresting
  have hmem : (⟨1, .buy, 2 ^ 63 - 1, -2 ^ 63, -1⟩ : Account) ∈ log.accounts := by
    rw [BookLog.accounts, OrderBook.orders, List.map_append, hbids]
    simp
  have hsum := (h wrappingTasks log hadmitted hrun).balanced _ hmem
  exact absurd hsum (by decide)

end LiteExchange.OrderMatcher
