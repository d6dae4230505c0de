import LiteExchange.Foundation.WeightedMean
import LiteExchange.OrderMatcher.Conservation

/-!
# The average price of an order

Source: `Order::execute`, `matchTwoOrders`. The average is updated with each execution from
the executed quantity before it. Over a run it is the mean of the prices of the order's trades,
weighted by their quantities, and it keeps to the order's limit.
-/

namespace LiteExchange.OrderMatcher

open Foundation.Ascii Foundation.Runs Foundation.WeightedMean

variable {γ : Type}

/-- The fill reports of an order id. -/
def fillsOf (orderID : Nat) (reports : List (OutgoingMessage γ)) : List (OutgoingMessage γ) :=
  reports.filter fun report => report.isFill && report.order.orderID == orderID

/-- The price and the quantity of the trade that a fill reports. -/
def OutgoingMessage.sample (report : OutgoingMessage γ) : ℚ × ℤ :=
  (report.order.lastExecutedPrice, report.order.lastExecutedQuantity)

namespace Order

/-- After these trades: the average times the executed quantity is the sum of their prices times
their quantities, and the average is the limit of a SELL order and within the one of a BUY order. -/
structure AveragesTrades (order : Order γ) (fills : List (OutgoingMessage γ)) : Prop where
  average : order.averageExecutedPrice * order.executedQuantity =
    (fills.map fun fill =>
      fill.order.lastExecutedPrice * (fill.order.lastExecutedQuantity : ℚ)).sum
  sell : order.side = .sell → order.averageExecutedPrice = order.price
  buy : order.side = .buy → order.averageExecutedPrice ≤ order.price

/-- The average with the quantity behind it. -/
def mean (order : Order γ) : Mean ℚ := ⟨order.averageExecutedPrice, order.executedQuantity⟩

theorem execute_mean (order : Order γ) (price : ℚ) {quantity : Int}
    (fits : IsLong (order.executedQuantity + quantity)) :
    (order.execute price quantity).mean = order.mean.add (price, quantity) := by
  unfold mean execute Mean.add
  rw [Int.add_comm quantity, long_of_isLong fits, Int.cast_add,
    add_comm (order.executedQuantity : ℚ)]

/-- The average comes from executions at these prices, all within the limit. Positive ones add
up to no more than the quantity, so that nothing wraps. -/
structure Traded (order : Order γ) (samples : List (ℚ × ℤ)) : Prop where
  quantity : IsLong order.quantity
  sum : (∀ sample ∈ samples, 0 < sample.2) →
    0 ≤ order.executedQuantity ∧ order.openQuantity + order.executedQuantity = order.quantity
  mean : (∀ sample ∈ samples, 0 < sample.2) →
    ∃ start : Mean ℚ, start.weight = 0 ∧ order.mean = samples.foldl Mean.add start
  sell : order.side = .sell → ∀ sample ∈ samples, sample.1 = order.price
  buy : order.side = .buy → ∀ sample ∈ samples, sample.1 ≤ order.price

theorem Fresh.traded {order : Order γ} (fresh : order.Fresh) : order.Traded [] where
  quantity := fresh.quantity
  sum := fun _ => by
    rw [fresh.openQuantity, fresh.executedQuantity, Int.add_zero]
    exact ⟨le_refl 0, rfl⟩
  mean := fun _ => ⟨order.mean, fresh.executedQuantity, rfl⟩
  sell := fun _ _ h => absurd h List.not_mem_nil
  buy := fun _ _ h => absurd h List.not_mem_nil

theorem Traded.execute {order : Order γ} {samples : List (ℚ × ℤ)} (traded : order.Traded samples)
    {price : ℚ} (sell : order.side = .sell → price = order.price)
    (buy : order.side = .buy → price ≤ order.price) {quantity : Int}
    (within : quantity ≤ order.openQuantity) :
    (order.execute price quantity).Traded (samples ++ [(price, quantity)]) := by
  have hbefore : (∀ sample ∈ samples ++ [(price, quantity)], 0 < sample.2) →
      (∀ sample ∈ samples, 0 < sample.2) ∧ 0 < quantity := by
    intro hpositive
    exact ⟨fun sample hmem => hpositive sample (List.mem_append_left _ hmem),
      hpositive (price, quantity) (List.mem_append_right _ (List.mem_singleton_self _))⟩
  have hquantity := traded.quantity
  unfold IsLong at hquantity
  refine ⟨traded.quantity, fun hpositive => ?_, fun hpositive => ?_, fun hside sample hmem => ?_,
    fun hside sample hmem => ?_⟩
  · obtain ⟨hsamples, hlast⟩ := hbefore hpositive
    obtain ⟨hnonneg, hsum⟩ := traded.sum hsamples
    simp only [Order.execute, long]
    omega
  · obtain ⟨hsamples, hlast⟩ := hbefore hpositive
    obtain ⟨hnonneg, hsum⟩ := traded.sum hsamples
    obtain ⟨start, hempty, hmean⟩ := traded.mean hsamples
    have hfits : IsLong (order.executedQuantity + quantity) := by
      unfold IsLong
      omega
    refine ⟨start, hempty, ?_⟩
    rw [execute_mean order price hfits, hmean, List.foldl_append]
    rfl
  · rcases List.mem_append.mp hmem with hold | hnew
    · exact traded.sell hside sample hold
    · rw [List.mem_singleton.mp hnew]
      exact sell hside
  · rcases List.mem_append.mp hmem with hold | hnew
    · exact traded.buy hside sample hold
    · rw [List.mem_singleton.mp hnew]
      exact buy hside

/-- The snapshot that a report carries has the same average. -/
theorem Traded.reported {order : Order γ} {samples : List (ℚ × ℤ)} (traded : order.Traded samples) :
    (fillReport order).order.Traded samples :=
  ⟨traded.quantity, traded.sum, traded.mean, traded.sell, traded.buy⟩

theorem Traded.averages {order : Order γ} {fills : List (OutgoingMessage γ)}
    (traded : order.Traded (fills.map OutgoingMessage.sample)) (nonempty : fills ≠ [])
    (positive : ∀ fill ∈ fills, 0 < fill.order.lastExecutedQuantity) :
    order.AveragesTrades fills := by
  have hpositive : ∀ sample ∈ fills.map OutgoingMessage.sample, 0 < sample.2 := by
    intro sample hmem
    obtain ⟨fill, hfill, rfl⟩ := List.mem_map.mp hmem
    exact positive fill hfill
  obtain ⟨start, hempty, hmean⟩ := traded.mean hpositive
  have hnonempty : fills.map OutgoingMessage.sample ≠ [] := by simpa using nonempty
  have hvalue := congrArg Mean.value hmean
  have hweight := congrArg Mean.weight hmean
  constructor
  · have hvolume := value_mul_weight hempty hpositive
    rw [← hmean, volume, List.map_map] at hvolume
    exact hvolume
  · intro hside
    exact hvalue.trans (value_eq hempty hpositive hnonempty (traded.sell hside))
  · intro hside
    exact hvalue.trans_le (value_le hempty hpositive hnonempty (traded.buy hside))

end Order

/-! ## The fills of an id -/

section Fills

variable {orderID : Nat} {reports : List (OutgoingMessage γ)} {report : OutgoingMessage γ}

/-- The price and quantity of each trade of an order id. -/
def samplesOf (orderID : Nat) (reports : List (OutgoingMessage γ)) : List (ℚ × ℤ) :=
  (fillsOf orderID reports).map OutgoingMessage.sample

theorem samplesOf_snoc (orderID : Nat) (reports : List (OutgoingMessage γ))
    (report : OutgoingMessage γ) : samplesOf orderID (reports ++ [report]) =
      samplesOf orderID reports ++
        if report.isFill && report.order.orderID == orderID then [report.sample] else [] := by
  unfold samplesOf fillsOf
  rw [List.filter_append, List.map_append]
  cases hfill : report.isFill && report.order.orderID == orderID <;> simp [hfill]

theorem samplesOf_other (other : ¬ (report.isFill = true ∧ report.order.orderID = orderID)) :
    samplesOf orderID (reports ++ [report]) = samplesOf orderID reports := by
  have hnot : (report.isFill && report.order.orderID == orderID) = false := by
    rw [Bool.and_eq_false_imp]
    intro hfill
    exact beq_eq_false_iff_ne.mpr fun hsame => other ⟨hfill, hsame⟩
  rw [samplesOf_snoc, hnot, if_neg Bool.false_ne_true, List.append_nil]

theorem samplesOf_fillReport (order : Order γ) (reports : List (OutgoingMessage γ)) :
    samplesOf order.orderID (reports ++ [fillReport order]) =
      samplesOf order.orderID reports ++ [(order.lastExecutedPrice, order.lastExecutedQuantity)] := by
  have hsame : ((fillReport order).isFill && (fillReport order).order.orderID == order.orderID) =
      true := by
    rw [isFill_fillReport, Bool.true_and]
    exact beq_self_eq_true order.orderID
  rw [samplesOf_snoc, hsame, if_pos rfl]
  rfl

theorem samplesOf_unknown (unknown : ∀ report ∈ reports, report.isFill = true →
    report.order.orderID ≠ orderID) : samplesOf orderID reports = [] := by
  unfold samplesOf fillsOf
  rw [List.filter_eq_nil_iff.mpr, List.map_nil]
  intro report hmem hfill
  rw [Bool.and_eq_true, beq_iff_eq] at hfill
  exact unknown report hmem hfill.1 hfill.2

/-- Each fill shows the average of the trades of its order up to itself. -/
def Accounted (reports : List (OutgoingMessage γ)) : Prop :=
  ∀ front report back, reports = front ++ report :: back → report.isFill = true →
    report.order.Traded (samplesOf report.order.orderID (front ++ [report]))

theorem Accounted.snoc (accounted : Accounted reports) (last : report.isFill = true →
    report.order.Traded (samplesOf report.order.orderID (reports ++ [report]))) :
    Accounted (reports ++ [report]) := by
  intro front other back hsplit hfill
  rcases List.eq_nil_or_concat back with rfl | ⟨back, final, rfl⟩
  · obtain ⟨rfl, hlast⟩ := List.append_inj' hsplit rfl
    cases hlast
    exact last hfill
  · have hinner : reports ++ [report] = (front ++ other :: back) ++ [final] := by
      rw [hsplit]
      simp
    obtain ⟨hreports, -⟩ := List.append_inj' hinner rfl
    exact accounted front other back hreports hfill

end Fills

namespace BookLog

/-- The invariant of a log that has taken the orders with these ids. -/
structure Averaged (arrived : List Nat) (log : BookLog γ) : Prop where
  sound : log.Sound arrived
  known : ∀ report ∈ log.reports, report.isFill = true → report.order.orderID ∈ arrived
  resting : ∀ order ∈ log.book.orders, order.Traded (samplesOf order.orderID log.reports)
  reported : Accounted log.reports

variable {arrived others : List Nat} {log next : BookLog γ}

theorem empty_averaged : ({} : BookLog γ).Averaged [] where
  sound := empty_sound
  known := fun _ h => absurd h List.not_mem_nil
  resting := fun _ h => absurd h List.not_mem_nil
  reported := fun front report back h => by simp at h

theorem Averaged.perm (averaged : log.Averaged arrived) (h : arrived.Perm others) :
    log.Averaged others :=
  { averaged with
    sound := averaged.sound.perm h
    known := fun report hmem hfill => h.mem_iff.mp (averaged.known report hmem hfill) }

/-- A new order has no trades. -/
theorem Averaged.insert (averaged : log.Averaged arrived) {order : Order γ} (fresh : order.Fresh)
    (side : order.side = .buy ∨ order.side = .sell) (new : order.orderID ∉ arrived) :
    ({ log with book := log.book.insert order } : BookLog γ).Averaged
      (order.orderID :: arrived) where
  sound := averaged.sound.insert fresh side
  known := fun report hmem hfill => List.mem_cons_of_mem _ (averaged.known report hmem hfill)
  resting := by
    intro resting hmem
    rcases OrderBook.mem_insert.mp hmem with rfl | hmem
    · have hnone : samplesOf resting.orderID log.reports = [] := samplesOf_unknown
        fun report hreport hfill hsame => new (hsame ▸ averaged.known report hreport hfill)
      rw [hnone]
      exact fresh.traded
    · exact averaged.resting resting hmem
  reported := averaged.reported

/-- The ids of resting orders are distinct. -/
theorem Sound.nodup (sound : log.Sound arrived) (distinct : arrived.Nodup) :
    (log.book.orders.map Order.orderID).Nodup := by
  have hids := sound.arrived.nodup_iff.mpr distinct
  rw [accounts, List.map_append, List.map_map] at hids
  exact (List.nodup_append.mp hids).1

theorem Sound.mem_arrived (sound : log.Sound arrived) {order : Order γ}
    (resting : order ∈ log.book.orders) : order.orderID ∈ arrived := by
  rw [← sound.arrived.mem_iff, accounts, List.map_append, List.map_map]
  exact List.mem_append_left _ (List.mem_map_of_mem (f := fun o : Order γ => o.orderID) resting)

/-- The orders of a sound book: no two have one id, and all have arrived. -/
theorem Sound.heads {bid ask : Order γ} {bids asks : List (Order γ)} (sound : log.Sound arrived)
    (distinct : arrived.Nodup) (hbook : log.book = ⟨bid :: bids, ask :: asks⟩) :
    bid.orderID ≠ ask.orderID ∧
      ∀ other ∈ bids ++ asks, bid.orderID ≠ other.orderID ∧ ask.orderID ≠ other.orderID := by
  have hnodup := sound.nodup distinct
  have hperm : log.book.orders.Perm (bid :: ask :: (bids ++ asks)) := by
    rw [hbook]
    exact List.perm_middle.cons bid
  rw [(hperm.map Order.orderID).nodup_iff, List.map_cons, List.map_cons, List.nodup_cons,
    List.nodup_cons, List.mem_cons, not_or] at hnodup
  obtain ⟨⟨hne, hbid⟩, hask, -⟩ := hnodup
  refine ⟨hne, fun other hmem => ⟨fun hsame => hbid ?_, fun hsame => hask ?_⟩⟩
  · rw [hsame]
    exact List.mem_map_of_mem hmem
  · rw [hsame]
    exact List.mem_map_of_mem hmem

theorem samplesOf_otherFill {orderID : Nat} {order : Order γ} (reports : List (OutgoingMessage γ))
    (other : order.orderID ≠ orderID) :
    samplesOf orderID (reports ++ [fillReport order]) = samplesOf orderID reports :=
  samplesOf_other fun h => other h.2

/-- An iteration that trades executes the best bid and the best ask within their limits, and each
has one more sample then. -/
theorem Averaged.matchOnce (averaged : log.Averaged arrived) {next : OrderBook γ} {trade : Trade γ}
    (h : log.book.matchOnce = some (trade, next)) :
    trade.bid.Traded (samplesOf trade.bid.orderID log.reports ++
        [(trade.bid.lastExecutedPrice, trade.bid.lastExecutedQuantity)]) ∧
      trade.ask.Traded (samplesOf trade.ask.orderID log.reports ++
        [(trade.ask.lastExecutedPrice, trade.ask.lastExecutedQuantity)]) := by
  obtain ⟨bid, bids, ask, asks, hbook, hcross, rfl, -⟩ := OrderBook.matchOnce_cases h
  have hresting := averaged.resting
  have hsided := averaged.sound.sided
  rw [hbook] at hresting hsided
  have hbuy : bid.side = .buy := hsided.bids bid List.mem_cons_self
  have hsell : ask.side = .sell := hsided.asks ask List.mem_cons_self
  have hbid := hresting bid List.mem_cons_self
  have hask := hresting ask (List.mem_append_right _ List.mem_cons_self)
  obtain ⟨hbidWithin, haskWithin⟩ := OrderBook.tradedQuantity_le bid ask
  refine ⟨hbid.execute ?_ (fun _ => hcross) hbidWithin,
    hask.execute (fun _ => rfl) (fun _ => le_rfl) haskWithin⟩
  intro hside
  rw [hbuy] at hside
  cases hside

/-- The orders of a trade are those of two resting orders, with their ids. -/
theorem Sound.trade_arrived (sound : log.Sound arrived) (distinct : arrived.Nodup)
    {next : OrderBook γ} {trade : Trade γ} (h : log.book.matchOnce = some (trade, next)) :
    trade.bid.orderID ∈ arrived ∧ trade.ask.orderID ∈ arrived ∧
      trade.bid.orderID ≠ trade.ask.orderID := by
  obtain ⟨bid, bids, ask, asks, hbook, -, rfl, -⟩ := OrderBook.matchOnce_cases h
  have hbid : bid.orderID ∈ arrived := by
    apply sound.mem_arrived
    rw [hbook]
    exact List.mem_cons_self
  have hask : ask.orderID ∈ arrived := by
    apply sound.mem_arrived
    rw [hbook]
    exact List.mem_append_right _ List.mem_cons_self
  exact ⟨hbid, hask, (sound.heads distinct hbook).1⟩

/-- What rests after a trade has taken part in it, or has an id of its own. -/
theorem Sound.resting_next (sound : log.Sound arrived) (distinct : arrived.Nodup)
    {next : OrderBook γ} {trade : Trade γ} (h : log.book.matchOnce = some (trade, next))
    {order : Order γ} (resting : order ∈ next.orders) :
    order = trade.bid ∨ order = trade.ask ∨ (order ∈ log.book.orders ∧
      trade.bid.orderID ≠ order.orderID ∧ trade.ask.orderID ≠ order.orderID) := by
  obtain ⟨bid, bids, ask, asks, hbook, -, rfl, rfl⟩ := OrderBook.matchOnce_cases h
  have hothers := (sound.heads distinct hbook).2
  have hmem : ∀ other ∈ bids ++ asks, other ∈ log.book.orders := by
    intro other hother
    rw [hbook]
    exact (List.perm_middle.cons bid).mem_iff.mpr
      (List.mem_cons_of_mem _ (List.mem_cons_of_mem _ hother))
  rcases List.mem_append.mp resting with hin | hin
  · rcases OrderBook.mem_settle hin with ⟨rfl, -⟩ | hold
    · exact Or.inl rfl
    · have hother := List.mem_append_left asks hold
      exact Or.inr (Or.inr ⟨hmem order hother, hothers order hother⟩)
  · rcases OrderBook.mem_settle hin with ⟨rfl, -⟩ | hold
    · exact Or.inr (Or.inl rfl)
    · have hother := List.mem_append_right bids hold
      exact Or.inr (Or.inr ⟨hmem order hother, hothers order hother⟩)

/-- The samples of the orders of a trade and of the others after it. -/
theorem Averaged.trade (averaged : log.Averaged arrived) (distinct : arrived.Nodup)
    {next : OrderBook γ} {trade : Trade γ} (h : log.book.matchOnce = some (trade, next)) :
    (log.traded trade next).Averaged arrived := by
  obtain ⟨hbid, hask⟩ := averaged.matchOnce h
  obtain ⟨hbidArrived, haskArrived, hne⟩ := averaged.sound.trade_arrived distinct h
  have hreports : (log.traded trade next).reports =
      (log.reports ++ [fillReport trade.bid]) ++ [fillReport trade.ask] := by
    rw [List.append_assoc]
    rfl
  -- After the report of the bid the samples of the ask are as before, and the other way round.
  have hfirst : trade.bid.Traded
      (samplesOf trade.bid.orderID (log.reports ++ [fillReport trade.bid])) := by
    rw [samplesOf_fillReport]
    exact hbid
  have hsecond : trade.ask.Traded (samplesOf trade.ask.orderID
      ((log.reports ++ [fillReport trade.bid]) ++ [fillReport trade.ask])) := by
    rw [samplesOf_fillReport, samplesOf_otherFill _ hne]
    exact hask
  constructor
  · exact (averaged.sound.trade h).1
  · intro report hreport hfill
    rw [hreports, List.mem_append, List.mem_append, List.mem_singleton, List.mem_singleton] at hreport
    obtain (hold | rfl) | rfl := hreport
    · exact averaged.known report hold hfill
    · exact hbidArrived
    · exact haskArrived
  · intro order hresting
    rw [hreports]
    rcases averaged.sound.resting_next distinct h hresting with
      rfl | rfl | ⟨hold, hbidOther, haskOther⟩
    · rw [samplesOf_otherFill _ hne.symm]
      exact hfirst
    · exact hsecond
    · rw [samplesOf_otherFill _ haskOther, samplesOf_otherFill _ hbidOther]
      exact averaged.resting order hold
  · rw [hreports]
    exact (averaged.reported.snoc fun _ => hfirst.reported).snoc fun _ => hsecond.reported

/-- A cancel or a rejection is no trade. -/
theorem Averaged.cancel (averaged : log.Averaged arrived) (order : Order γ)
    (origClientOrderID : Bytes) :
    (⟨(log.book.cancelOrder order origClientOrderID).1,
      log.reports ++ (log.book.cancelOrder order origClientOrderID).2⟩ : BookLog γ).Averaged
      arrived := by
  have hsound := averaged.sound.cancel order origClientOrderID
  have hreport : ∃ report, report.isFill = false ∧
      (log.book.cancelOrder order origClientOrderID).2 = [report] ∧
      ∀ resting ∈ (log.book.cancelOrder order origClientOrderID).1.orders,
        resting ∈ log.book.orders := by
    rcases OrderBook.cancelOrder_perm averaged.sound.sided order origClientOrderID with
      ⟨found, next, heq, hperm⟩ | heq
    · rw [heq]
      exact ⟨_, rfl, rfl, fun resting hmem => hperm.mem_iff.mpr (List.mem_cons_of_mem _ hmem)⟩
    · rw [heq]
      exact ⟨_, rfl, rfl, fun resting hmem => hmem⟩
  obtain ⟨report, hnot, hreports, hresting⟩ := hreport
  have hsame : ∀ orderID, samplesOf orderID (log.reports ++ [report]) =
      samplesOf orderID log.reports := fun orderID => samplesOf_other fun h => by simp [hnot] at h
  rw [hreports] at hsound ⊢
  constructor
  · exact hsound
  · intro other hmem hfill
    rcases List.mem_append.mp hmem with hold | hnew
    · exact averaged.known other hold hfill
    · rw [List.mem_singleton.mp hnew, hnot] at hfill
      cases hfill
  · intro resting hmem
    rw [hsame]
    exact averaged.resting resting (hresting resting hmem)
  · exact averaged.reported.snoc fun hfill => by simp [hnot] at hfill

theorem Averaged.runTask {task : Task γ} (averaged : log.Averaged arrived)
    (admitted : task.Admitted) (distinct : (task.arrival ++ arrived).Nodup)
    (h : log.runTask task = some next) : next.Averaged (task.arrival ++ arrived) := by
  rcases runTask_cases h with
    ⟨order, trades, rfl, hiter, -, hreports⟩ | ⟨order, origClientOrderID, rfl, rfl⟩
  · obtain ⟨fresh, side⟩ := admitted
    have hnew : order.orderID ∉ arrived := (List.nodup_cons.mp distinct).1
    have hlast := iterations_invariant (Averaged (order.orderID :: arrived))
      (fun _ _ _ haveraged once => haveraged.trade distinct once) hiter
      (averaged.insert fresh side hnew)
    rw [← hreports] at hlast
    exact hlast
  · exact averaged.cancel order origClientOrderID

end BookLog

/-- Over whole runs on one book, for BUY and SELL orders of any quantity: as long as the trades of
an order have positive quantities, its average is the volume-weighted average of their prices,
in the report of each trade and in the order that rests. -/
theorem average_is_weighted (tasks : List (Task γ)) (admitted : ∀ task ∈ tasks, task.Admitted)
    (log : BookLog γ) (h : run BookLog.runTask {} (numberTasks 1 tasks) = some log) :
    (∀ front report back, log.reports = front ++ report :: back → report.isFill = true →
      (∀ fill ∈ fillsOf report.order.orderID (front ++ [report]),
        0 < fill.order.lastExecutedQuantity) →
      report.order.AveragesTrades (fillsOf report.order.orderID (front ++ [report]))) ∧
    ∀ order ∈ log.book.orders, fillsOf order.orderID log.reports ≠ [] →
      (∀ fill ∈ fillsOf order.orderID log.reports, 0 < fill.order.lastExecutedQuantity) →
      order.AveragesTrades (fillsOf order.orderID log.reports) := by
  have haveraged : log.Averaged (List.range' 1 (arrivalsOf tasks)) := by
    have hlast := BookLog.run_numbered BookLog.Averaged (fun _ _ _ hperm hlog => hlog.perm hperm)
      (fun _ _ _ _ hlog htask hdistinct hstep => hlog.runTask htask hdistinct hstep) tasks 0
      admitted BookLog.empty_averaged h
    rwa [Nat.zero_add] at hlast
  constructor
  · intro front report back hsplit hfill hpositive
    have hmem : report ∈ fillsOf report.order.orderID (front ++ [report]) := by
      refine List.mem_filter.mpr ⟨by simp, ?_⟩
      rw [hfill, Bool.true_and]
      exact beq_self_eq_true _
    have hnonempty := List.ne_nil_of_mem hmem
    exact (haveraged.reported front report back hsplit hfill).averages hnonempty hpositive
  · intro order hmem hnonempty hpositive
    exact (haveraged.resting order hmem).averages hnonempty hpositive

/-- A bid that sweeps two asks at different prices. -/
def twoPriceTasks : List (Task Unit) :=
  [.newOrder (.new 0 (ascii "1") 0 0 .sell .limit 9 4 ()),
    .newOrder (.new 0 (ascii "2") 0 0 .sell .limit 11 6 ()),
    .newOrder (.new 0 (ascii "3") 0 1 .buy .limit 12 10 ())]

/-- Its second fill, the third report, shows the average of both trades. -/
theorem average_is_weighted_two_prices :
    ∃ log front report back, run BookLog.runTask {} (numberTasks 1 twoPriceTasks) = some log ∧
      log.reports = front ++ report :: back ∧ report.order.averageExecutedPrice = 51 / 5 ∧
      report.order.AveragesTrades (fillsOf report.order.orderID (front ++ [report])) := by
  have hadmitted : ∀ task ∈ twoPriceTasks, task.Admitted := by
    simp only [twoPriceTasks, List.forall_mem_cons]
    exact ⟨⟨⟨rfl, rfl, by decide⟩, Or.inr rfl⟩, ⟨⟨rfl, rfl, by decide⟩, Or.inr rfl⟩,
      ⟨⟨rfl, rfl, by decide⟩, Or.inl rfl⟩,
      fun _ h => absurd h List.not_mem_nil⟩
  have hrun : (run BookLog.runTask {} (numberTasks 1 twoPriceTasks)).map (fun log =>
      (log.reports.all fun report => 0 < report.order.lastExecutedQuantity,
        log.reports[2]?.map fun report => (report.isFill, report.order.averageExecutedPrice))) =
      some (true, some (true, 51 / 5)) := by
    decide +kernel
  obtain ⟨log, hlog, hfacts⟩ := Option.map_eq_some_iff.mp hrun
  obtain ⟨hpositive, hthird⟩ := Prod.mk.inj hfacts
  obtain ⟨report, hreport, hreportFacts⟩ := Option.map_eq_some_iff.mp hthird
  obtain ⟨hfill, haverage⟩ := Prod.mk.inj hreportFacts
  obtain ⟨hinside, hget⟩ := List.getElem?_eq_some_iff.mp hreport
  have hsplit : log.reports = log.reports.take 2 ++ report :: log.reports.drop 3 := by
    rw [← hget, List.getElem_cons_drop, List.take_append_drop]
  refine ⟨log, _, report, _, hlog, hsplit, haverage,
    (average_is_weighted twoPriceTasks hadmitted log hlog).1 _ report _ hsplit hfill ?_⟩
  intro fill hmem
  have hin : fill ∈ log.reports := by
    rw [hsplit]
    have hfront := (List.mem_filter.mp hmem).1
    rw [List.mem_append, List.mem_singleton] at hfront
    rw [List.mem_append, List.mem_cons]
    exact hfront.imp_right Or.inl
  exact of_decide_eq_true (List.all_eq_true.mp hpositive fill hin)

end LiteExchange.OrderMatcher
