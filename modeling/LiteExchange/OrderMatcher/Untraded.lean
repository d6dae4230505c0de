import LiteExchange.OrderMatcher.AveragePrice
import LiteExchange.OrderMatcher.LaterOrders
import LiteExchange.OrderMatcher.Mirror

/-!
# Orders that never trade

An order that is canceled before it has traded was in the book without being on top when the
best prices crossed, so the others traded as they would have done without it. Without the
order and the request that cancels it, the calls for its security leave the same book and the
same reports of all other orders.
-/

namespace LiteExchange.OrderMatcher

open Foundation.Ascii Foundation.Runs Foundation.PriorityList

variable {γ : Type}

/-- The reports of all but the marked order. -/
def unmarked (mark : γ → Bool) (reports : List (OutgoingMessage γ)) : List (OutgoingMessage γ) :=
  reports.filter fun report => !mark report.order.origin

theorem unmarked_append (mark : γ → Bool) (front back : List (OutgoingMessage γ)) :
    unmarked mark (front ++ back) = unmarked mark front ++ unmarked mark back :=
  List.filter_append ..

theorem unmarked_all {mark : γ → Bool} {reports : List (OutgoingMessage γ)}
    (h : marked mark reports = []) : unmarked mark reports = reports := by
  refine List.filter_eq_self.mpr fun report hmem => ?_
  have hnot := List.filter_eq_nil_iff.mp h report hmem
  simpa using hnot

/-- The marked order has no fill. -/
def Untraded (mark : γ → Bool) (reports : List (OutgoingMessage γ)) : Prop :=
  ∀ report ∈ marked mark reports, report.isFill = false

theorem untraded_append {mark : γ → Bool} {front back : List (OutgoingMessage γ)} :
    Untraded mark (front ++ back) ↔ Untraded mark front ∧ Untraded mark back := by
  unfold Untraded
  rw [marked_append]
  exact List.forall_mem_append

namespace OrderBook

/-- The book has the marked order, the other book is the same without it. -/
structure Without (mark : γ → Bool) (side : OrderSide) (book other : OrderBook γ)
    (front : List (Order γ)) (watched : Order γ) (back opposite : List (Order γ)) : Prop where
  book : book = facing side (front ++ watched :: back) opposite
  other : other = facing side (front ++ back) opposite
  isMarked : mark watched.origin = true
  own : NoneMarked mark (front ++ back)
  opposite : NoneMarked mark opposite

variable {mark : γ → Bool} {side : OrderSide} {book other last : OrderBook γ}
  {front back opposite : List (Order γ)} {watched : Order γ} {trades : List (Trade γ)}

theorem Without.unmarked (h : Without mark side book other front watched back opposite) :
    other.Unmarked mark := by
  rw [h.other]
  exact unmarked_facing h.own h.opposite

theorem Without.not_unmarked (h : Without mark side book other front watched back opposite) :
    ¬ book.Unmarked mark := by
  intro hunmarked
  obtain ⟨rfl, -, hmark, -, -⟩ := h
  have hwatched : watched ∈ (facing side (front ++ watched :: back) opposite).orders :=
    orders_facing.mpr (Or.inl (by simp))
  have hnot : mark watched.origin = false :=
    (List.mem_append.mp hwatched).elim (hunmarked.bids watched) (hunmarked.asks watched)
  rw [hmark] at hnot
  cases hnot

/-! ## Matching -/

theorem marked_tradeFacing (side : OrderSide) {own : Order γ} (resting : Order γ)
    (hmark : mark own.origin = true) :
    ∃ report ∈ marked mark ((tradeFacing side own resting).snapshots.map fillReport),
      report.isFill = true := by
  unfold tradeFacing
  by_cases hside : side = .buy
  · rw [if_pos hside]
    refine ⟨fillReport (matchTwoOrders own resting).bid, ?_, isFill_fillReport _⟩
    exact List.mem_filter.mpr ⟨List.mem_map_of_mem (by simp [Trade.snapshots]), hmark⟩
  · rw [if_neg hside]
    refine ⟨fillReport (matchTwoOrders resting own).ask, ?_, isFill_fillReport _⟩
    exact List.mem_filter.mpr ⟨List.mem_map_of_mem (by simp [Trade.snapshots]), hmark⟩

/-- A trade of the marked order shows; any other trade is also made without it. -/
theorem Without.matchOnce {trade : Trade γ} {next : OrderBook γ}
    (h : Without mark side book other front watched back opposite)
    (once : book.matchOnce = some (trade, next))
    (untraded : Untraded mark (trade.snapshots.map fillReport)) :
    ∃ otherNext front' back' opposite', other.matchOnce = some (trade, otherNext) ∧
      Without mark side next otherNext front' watched back' opposite' := by
  obtain ⟨rfl, rfl, hmark, hown, hopposite⟩ := h
  cases opposite with
  | nil =>
    rw [matchOnce_opposite_empty] at once
    cases once
  | cons resting opposite =>
    obtain ⟨hresting, hopposite⟩ := List.forall_mem_cons.mp hopposite
    cases front with
    | nil =>
      rcases matchOnce_tops side watched resting with hnone | hsome
      · have hnever := hnone back opposite
        rw [List.nil_append, hnever] at once
        cases once
      · have htrade := hsome back opposite
        rw [List.nil_append, htrade] at once
        cases once
        obtain ⟨report, hmem, hfill⟩ := marked_tradeFacing side resting hmark
        rw [untraded report hmem] at hfill
        cases hfill
    | cons best front =>
      obtain ⟨hbest, hown⟩ := List.forall_mem_cons.mp hown
      rcases matchOnce_tops side best resting with hnone | hsome
      · have hnever := hnone (front ++ watched :: back) opposite
        rw [List.cons_append, hnever] at once
        cases once
      · have htrade := hsome (front ++ watched :: back) opposite
        rw [List.cons_append, htrade] at once
        cases once
        refine ⟨_, settle (tradedOwn side best resting) front, back,
          settle (tradedOpposite side best resting) opposite, hsome (front ++ back) opposite, ?_⟩
        rw [settle_append, settle_append]
        refine ⟨rfl, rfl, hmark, ?_, noneMarked_settle hresting hopposite⟩
        rw [← settle_append]
        exact noneMarked_settle hbest hown

/-- What does not cross does not cross without the marked order. -/
theorem Without.returns (h : Without mark side book other front watched back opposite)
    (ordered : book.PriceOrdered) (returns : book.matchOnce = none) : other.matchOnce = none := by
  have huncrossed := uncrossed_of_matchOnce_none ordered returns
  obtain ⟨rfl, rfl, -, -, -⟩ := h
  rw [facing_uncrossed_iff] at huncrossed
  refine matchOnce_uncrossed (facing_uncrossed_iff.mpr fun mine hmine => huncrossed mine ?_)
  rw [List.mem_append, List.mem_cons]
  exact (List.mem_append.mp hmine).imp id Or.inr

theorem Without.iterations (h : Without mark side book other front watched back opposite)
    (ordered : book.PriceOrdered) (hiter : Iterations book trades last)
    (returns : last.matchOnce = none) (untraded : Untraded mark (tradeReports trades)) :
    ∃ otherLast front' back' opposite', Iterations other trades otherLast ∧
      otherLast.matchOnce = none ∧
      Without mark side last otherLast front' watched back' opposite' := by
  induction hiter generalizing other front back opposite with
  | done book => exact ⟨other, front, back, opposite, .done other, h.returns ordered returns, h⟩
  | @trade book next last trade trades once rest ih =>
    rw [tradeReports_cons, untraded_append] at untraded
    obtain ⟨otherNext, front', back', opposite', hother, hnext⟩ := h.matchOnce once untraded.1
    obtain ⟨otherLast, front'', back'', opposite'', hiter, hreturns, hlast⟩ :=
      ih hnext (matchOnce_priceOrdered ordered once) returns untraded.2
    exact ⟨otherLast, front'', back'', opposite'', .trade hother hiter, hreturns, hlast⟩

/-- The reports of the loop are those of the other book. -/
theorem Without.reports (h : Without mark side book other front watched back opposite)
    (hiter : Iterations other trades last) : marked mark (tradeReports trades) = [] :=
  (h.unmarked.iterations hiter).2

/-! ## Insertion -/

/-- The comparator of a side, on both sides of an entry. -/
theorem insert_without {order : Order γ} (joins : order.JoinsSide side)
    (ordered : (facing side (front ++ watched :: back) opposite).PriceOrdered) :
    (∃ ahead, (facing side (front ++ watched :: back) opposite).insert order =
        facing side (ahead ++ watched :: back) opposite ∧
      (facing side (front ++ back) opposite).insert order = facing side (ahead ++ back) opposite ∧
      ∀ other, other ∈ ahead ↔ other = order ∨ other ∈ front) ∨
    ∃ next, (facing side (front ++ watched :: back) opposite).insert order =
        facing side (front ++ watched :: next) opposite ∧
      (facing side (front ++ back) opposite).insert order = facing side (front ++ next) opposite ∧
      ∀ other, other ∈ next ↔ other = order ∨ other ∈ back := by
  unfold facing insert at *
  by_cases hside : side = .buy
  · simp only [joins.mpr hside, hside, if_true] at *
    have hweaker : ∀ a b : Order γ, order.price > a.price → ¬ b.price > a.price →
        order.price > b.price := fun a b ha hb => lt_of_le_of_lt (not_lt.mp hb) ha
    rcases orderedInsert_without ordered.bids hweaker with
      ⟨ahead, hwith, hwithout, hmem⟩ | ⟨next, hwith, hwithout, hmem⟩
    · exact Or.inl ⟨ahead, by rw [hwith], by rw [hwithout], hmem⟩
    · exact Or.inr ⟨next, by rw [hwith], by rw [hwithout], hmem⟩
  · have horder : ¬ order.side = .buy := fun h => hside (joins.mp h)
    simp only [horder, hside, if_false] at *
    have hweaker : ∀ a b : Order γ, order.price < a.price → ¬ b.price < a.price →
        order.price < b.price := fun a b ha hb => lt_of_lt_of_le ha (not_lt.mp hb)
    rcases orderedInsert_without ordered.asks hweaker with
      ⟨ahead, hwith, hwithout, hmem⟩ | ⟨next, hwith, hwithout, hmem⟩
    · exact Or.inl ⟨ahead, by rw [hwith], by rw [hwithout], hmem⟩
    · exact Or.inr ⟨next, by rw [hwith], by rw [hwithout], hmem⟩

theorem Without.insert {order : Order γ}
    (h : Without mark side book other front watched back opposite) (ordered : book.PriceOrdered)
    (horder : mark order.origin = false) :
    ∃ front' back' opposite',
      Without mark side (book.insert order) (other.insert order) front' watched back' opposite' := by
  obtain ⟨rfl, rfl, hmark, hown, hopposite⟩ := h
  obtain ⟨hfront, hback⟩ := List.forall_mem_append.mp hown
  by_cases hjoins : order.JoinsSide side
  · rcases insert_without hjoins ordered with
      ⟨ahead, hwith, hwithout, hmem⟩ | ⟨next, hwith, hwithout, hmem⟩
    · exact ⟨ahead, back, opposite, hwith, hwithout, hmark,
        List.forall_mem_append.mpr ⟨noneMarked_insert hfront horder hmem, hback⟩, hopposite⟩
    · exact ⟨front, next, opposite, hwith, hwithout, hmark,
        List.forall_mem_append.mpr ⟨hfront, noneMarked_insert hback horder hmem⟩, hopposite⟩
  · obtain ⟨next, hmem, hinsert⟩ := insert_opposite hjoins opposite
    exact ⟨front, back, next, hinsert _, hinsert _, hmark, hown,
      noneMarked_insert hopposite horder hmem⟩

/-- The marked order itself comes into a book without it. -/
theorem Unmarked.insert_without {order : Order γ} (h : book.Unmarked mark)
    (ordered : book.PriceOrdered) (hmark : mark order.origin = true) :
    ∃ front back opposite,
      Without mark order.side (book.insert order) book front order back opposite := by
  obtain ⟨front, back, hsplit, hinsert, -, -⟩ := insert_between ordered order
  have hbook := facing_own_opposite book order.side
  obtain ⟨hown, hopposite⟩ := h.sides order.side
  rw [hsplit] at hbook hown
  exact ⟨front, back, _, hinsert, hbook.symm, hmark, hown, hopposite⟩

/-! ## Cancels -/

/-- A cancel takes the marked order out, by its name, or does the same in both books. -/
theorem Without.cancelOrder (hside : side = .buy ∨ side = .sell)
    (h : Without mark side book other front watched back opposite) (sided : book.Sided)
    (otherSided : other.Sided) (request : Order γ) (origClientOrderID : Bytes) :
    (request.side = side ∧ watched.clientOrderID = origClientOrderID ∧
        watched.sessionId = request.sessionId ∧
        book.cancelOrder request origClientOrderID = (other, [.new watched.cancel .canceled])) ∨
      ((book.cancelOrder request origClientOrderID).2 =
          (other.cancelOrder request origClientOrderID).2 ∧
        ∃ front' back' opposite', Without mark side (book.cancelOrder request origClientOrderID).1
          (other.cancelOrder request origClientOrderID).1 front' watched back' opposite') := by
  obtain ⟨rfl, rfl, hmark, hown, hopposite⟩ := h
  by_cases hrequest : request.side = side
  · rw [cancelOrder_own hside sided origClientOrderID hrequest,
      cancelOrder_own hside otherSided origClientOrderID hrequest]
    rcases firstMatch_without (sameClientOrder origClientOrderID request.sessionId) front watched
      back with ⟨hfound, hfind, herase⟩ | ⟨front', back', hfind, herase, hother⟩
    · obtain ⟨hclient, hsession⟩ := sameClientOrder_iff.mp hfound
      rw [hfind, herase]
      exact Or.inl ⟨hrequest, hclient, hsession, rfl⟩
    · rw [hfind, herase]
      refine Or.inr ⟨rfl, front', back', opposite, rfl, congrArg (facing side · opposite) hother,
        hmark, ?_, hopposite⟩
      rw [← hother]
      exact noneMarked_eraseP hown _
  · right
    by_cases hsided : request.side = .nonSupported
    · rw [cancelOrder_nonSupported _ hsided, cancelOrder_nonSupported _ hsided]
      exact ⟨rfl, front, back, opposite, rfl, rfl, hmark, hown, hopposite⟩
    · rw [cancelOrder_opposite hside sided origClientOrderID hrequest hsided,
        cancelOrder_opposite hside otherSided origClientOrderID hrequest hsided]
      exact ⟨rfl, front, back, _, rfl, rfl, hmark, hown, noneMarked_eraseP hopposite _⟩

/-- A task of other orders on a book without the marked one. -/
theorem Unmarked.runTask {task : Task γ} {reports : List (OutgoingMessage γ)}
    (h : book.Unmarked mark) (htask : mark task.order.origin = false)
    (hrun : book.runTask task = some (last, reports)) :
    last.Unmarked mark ∧ marked mark reports = [] := by
  cases task with
  | newOrder order =>
    obtain ⟨trades, hiter, -, rfl⟩ := newOrder_cases hrun
    exact (h.insert htask).iterations hiter
  | cancelOrder request origClientOrderID =>
    have hrequest : mark request.origin = false := htask
    have hcancel := h.cancelOrder hrequest origClientOrderID
    rwa [Option.some.inj hrun] at hcancel

end OrderBook

/-! ## Tasks -/

namespace BookLog

/-- The marked order rests in the log; the other log is the same without it. -/
structure Trails (mark : γ → Bool) (order : Order γ) (log other : BookLog γ) : Prop where
  settled : log.book.Settled
  otherSettled : other.book.Settled
  sided : log.book.Sided
  otherSided : other.book.Sided
  without : ∃ front watched back opposite,
    OrderBook.Without mark order.side log.book other.book front watched back opposite ∧
      watched.clientOrderID = order.clientOrderID ∧ watched.sessionId = order.sessionId
  reports : unmarked mark log.reports = other.reports

/-- The logs have the same book, without the marked order. -/
structure Rejoined (mark : γ → Bool) (log other : BookLog γ) : Prop where
  book : log.book = other.book
  unmarked : log.book.Unmarked mark
  reports : OrderMatcher.unmarked mark log.reports = other.reports

/-- The request cancels the order by its name. -/
def Cancels (order : Order γ) (task : Task γ) : Prop :=
  ∃ request, task = .cancelOrder request order.clientOrderID ∧ request.side = order.side ∧
    request.sessionId = order.sessionId

variable {mark : γ → Bool} {order : Order γ} {log next last other : BookLog γ} {task : Task γ}

theorem Rejoined.step (h : Rejoined mark log other) (htask : mark task.order.origin = false)
    (hrun : log.runTask task = some next) :
    ∃ otherNext, other.runTask task = some otherNext ∧ Rejoined mark next otherNext := by
  obtain ⟨⟨book, reports⟩, hbook, rfl⟩ := Option.map_eq_some_iff.mp hrun
  obtain ⟨hunmarked, hreports⟩ := h.unmarked.runTask htask hbook
  refine ⟨⟨book, other.reports ++ reports⟩, ?_, rfl, hunmarked, ?_⟩
  · rw [runTask, ← h.book, hbook]
    rfl
  · rw [unmarked_append, h.reports, unmarked_all hreports]

theorem Rejoined.run {tasks : List (Task γ)} (h : Rejoined mark log other)
    (htasks : ∀ task ∈ tasks, mark task.order.origin = false)
    (hrun : Foundation.Runs.run runTask log tasks = some last) :
    ∃ otherLast, Foundation.Runs.run runTask other tasks = some otherLast ∧
      Rejoined mark last otherLast := by
  induction tasks generalizing log other with
  | nil =>
    cases hrun
    exact ⟨other, rfl, h⟩
  | cons task tasks ih =>
    obtain ⟨htask, htasks⟩ := List.forall_mem_cons.mp htasks
    obtain ⟨next, hstep, hrest⟩ := Option.bind_eq_some_iff.mp hrun
    obtain ⟨otherNext, hother, hnext⟩ := h.step htask hstep
    obtain ⟨otherLast, hotherRest, hlast⟩ := ih hnext htasks hrest
    refine ⟨otherLast, ?_, hlast⟩
    rw [run_cons, hother, Option.bind_some, hotherRest]

/-- A task takes the marked order out or keeps the logs side by side. -/
theorem Trails.step (hside : order.side = .buy ∨ order.side = .sell)
    (h : Trails mark order log other) (admitted : task.Admitted)
    (htask : mark task.order.origin = false) (hrun : log.runTask task = some next)
    (untraded : Untraded mark next.reports) :
    (Cancels order task ∧ Rejoined mark next other) ∨
      ∃ otherNext, other.runTask task = some otherNext ∧ Trails mark order next otherNext := by
  obtain ⟨hsettled, hsided⟩ := runTask_keeps h.settled h.sided admitted hrun
  obtain ⟨front, watched, back, opposite, hwithout, hclient, hsession⟩ := h.without
  obtain ⟨⟨book, reports⟩, hbook, rfl⟩ := Option.map_eq_some_iff.mp hrun
  have huntraded := (untraded_append.mp untraded).2
  cases task with
  | newOrder arriving =>
    right
    have horder : mark arriving.origin = false := htask
    obtain ⟨trades, hiter, hreturns, rfl⟩ := OrderBook.newOrder_cases hbook
    obtain ⟨front', back', opposite', hinserted⟩ := hwithout.insert h.settled.ordered horder
    obtain ⟨otherBook, front'', back'', opposite'', hotherIter, hotherReturns, hlast⟩ :=
      hinserted.iterations (OrderBook.insert_priceOrdered h.settled.ordered arriving) hiter hreturns
        huntraded
    obtain ⟨otherNext, otherReports, hother⟩ :=
      OrderBook.newOrder_returns h.otherSettled.balanced admitted.1.balanced
    obtain ⟨otherTrades, hiter', hreturns', rfl⟩ := OrderBook.newOrder_cases hother
    obtain ⟨rfl, rfl⟩ := Operation.iterations_unique hotherIter hotherReturns hiter' hreturns'
    have hotherRun : other.runTask (.newOrder arriving) =
        some ⟨otherBook, other.reports ++ OrderBook.tradeReports trades⟩ := by
      rw [runTask, OrderBook.runTask, hother]
      rfl
    obtain ⟨hotherSettled, hotherSided⟩ :=
      runTask_keeps h.otherSettled h.otherSided admitted hotherRun
    refine ⟨_, hotherRun, hsettled, hotherSettled, hsided, hotherSided,
      ⟨front'', watched, back'', opposite'', hlast, hclient, hsession⟩, ?_⟩
    have hnone : unmarked mark ((trades.flatMap Trade.snapshots).map fillReport) =
        OrderBook.tradeReports trades := unmarked_all (hinserted.reports hotherIter)
    rw [unmarked_append, h.reports, hnone]
  | cancelOrder request origClientOrderID =>
    have hrequest : mark request.origin = false := htask
    have hcancel := Option.some.inj hbook
    rcases hwithout.cancelOrder hside h.sided h.otherSided request origClientOrderID with
      ⟨hown, hname, hsame, heq⟩ | ⟨hreports, front', back', opposite', hnext⟩
    · left
      rw [heq] at hcancel
      cases hcancel
      refine ⟨⟨request, ?_, hown, ?_⟩, rfl, hwithout.unmarked, ?_⟩
      · rw [← hname, hclient]
      · rw [← hsame, hsession]
      · rw [unmarked_append, h.reports]
        have hmarked : unmarked mark [OutgoingMessage.new watched.cancel .canceled] = [] := by
          simp [unmarked, OutgoingMessage.new, Order.cancel, hwithout.isMarked]
        rw [hmarked, List.append_nil]
    · right
      have hunmarked := hwithout.unmarked.cancelOrder hrequest origClientOrderID
      have hotherRun : other.runTask (.cancelOrder request origClientOrderID) =
          some ⟨(other.book.cancelOrder request origClientOrderID).1,
            other.reports ++ (other.book.cancelOrder request origClientOrderID).2⟩ := rfl
      obtain ⟨hotherSettled, hotherSided⟩ :=
        runTask_keeps h.otherSettled h.otherSided admitted hotherRun
      rw [hcancel] at hreports hnext
      refine ⟨_, hotherRun, hsettled, hotherSettled, hsided, hotherSided,
        ⟨front', watched, back', opposite', hnext, hclient, hsession⟩, ?_⟩
      dsimp only at hreports
      rw [unmarked_append, h.reports, hreports, unmarked_all hunmarked.2]

/-- Reports are only added. -/
theorem run_reports {tasks : List (Task γ)}
    (hrun : Foundation.Runs.run runTask log tasks = some last) :
    ∃ added, last.reports = log.reports ++ added := by
  induction tasks generalizing log with
  | nil =>
    cases hrun
    exact ⟨[], (List.append_nil _).symm⟩
  | cons task tasks ih =>
    obtain ⟨next, hstep, hrest⟩ := Option.bind_eq_some_iff.mp hrun
    obtain ⟨⟨book, reports⟩, -, rfl⟩ := Option.map_eq_some_iff.mp hstep
    obtain ⟨added, hadded⟩ := ih hrest
    exact ⟨reports ++ added, by rw [hadded, List.append_assoc]⟩

/-- A run of the tasks behind the order: where it has left without a trade, one of them has
canceled it, and the run without this one ends in the same book. -/
theorem Trails.run {tasks : List (Task γ)} (hside : order.side = .buy ∨ order.side = .sell)
    (h : Trails mark order log other) (admitted : ∀ task ∈ tasks, task.Admitted)
    (htasks : ∀ task ∈ tasks, mark task.order.origin = false)
    (hrun : Foundation.Runs.run runTask log tasks = some last)
    (untraded : Untraded mark last.reports) (left : last.book.Unmarked mark) :
    ∃ front cancel back, tasks = front ++ cancel :: back ∧ Cancels order cancel ∧
      ∃ otherLast, Foundation.Runs.run runTask other (front ++ back) = some otherLast ∧
        Rejoined mark last otherLast := by
  induction tasks generalizing log other with
  | nil =>
    cases hrun
    obtain ⟨front, watched, back, opposite, hwithout, -, -⟩ := h.without
    exact absurd left hwithout.not_unmarked
  | cons task tasks ih =>
    obtain ⟨htask, htasks⟩ := List.forall_mem_cons.mp htasks
    obtain ⟨hadmitted, hrestAdmitted⟩ := List.forall_mem_cons.mp admitted
    obtain ⟨next, hstep, hrest⟩ := Option.bind_eq_some_iff.mp hrun
    have hnextUntraded : Untraded mark next.reports := by
      obtain ⟨added, hadded⟩ := run_reports hrest
      rw [hadded] at untraded
      exact (untraded_append.mp untraded).1
    rcases h.step hside hadmitted htask hstep hnextUntraded with
      ⟨hcancels, hrejoined⟩ | ⟨otherNext, hother, hnext⟩
    · obtain ⟨otherLast, hotherRest, hlast⟩ := hrejoined.run htasks hrest
      exact ⟨[], task, tasks, rfl, hcancels, otherLast, hotherRest, hlast⟩
    · obtain ⟨front, cancel, back, rfl, hcancels, otherLast, hotherRest, hlast⟩ :=
        ih hnext hrestAdmitted htasks hrest
      refine ⟨task :: front, cancel, back, rfl, hcancels, otherLast, ?_, hlast⟩
      rw [List.cons_append, run_cons, hother, Option.bind_some, hotherRest]

/-- The marked order arrives: without a trade it rests, next to a log that has not got it. -/
theorem Trails.arrive (settled : log.book.Settled) (sided : log.book.Sided)
    (h : Rejoined mark log log) (admitted : (Task.newOrder order).Admitted)
    (hmark : mark order.origin = true) (hrun : log.runTask (.newOrder order) = some next)
    (untraded : Untraded mark next.reports) : Trails mark order next log := by
  obtain ⟨hsettled, hsided⟩ := runTask_keeps settled sided admitted hrun
  obtain ⟨⟨book, reports⟩, hbook, rfl⟩ := Option.map_eq_some_iff.mp hrun
  have huntraded := (untraded_append.mp untraded).2
  obtain ⟨trades, hiter, hreturns, rfl⟩ := OrderBook.newOrder_cases hbook
  obtain ⟨front, back, opposite, hinserted⟩ :=
    h.unmarked.insert_without settled.ordered hmark
  obtain ⟨otherLast, front', back', opposite', hother, -, hlast⟩ :=
    hinserted.iterations (OrderBook.insert_priceOrdered settled.ordered order) hiter hreturns
      huntraded
  -- Without the order nothing crosses, so nothing trades.
  cases hother with
  | trade once _ =>
    rw [OrderBook.matchOnce_uncrossed settled.uncrossed] at once
    cases once
  | done =>
    refine ⟨hsettled, settled, hsided, sided, ⟨front', order, back', opposite', hlast, rfl, rfl⟩, ?_⟩
    rw [unmarked_append, h.reports]
    exact List.append_nil _

/-- The order and the request that canceled it can be taken out of the tasks. -/
theorem run_untraded {before after : List (Task γ)}
    (admitted : ∀ task ∈ before ++ .newOrder order :: after, task.Admitted)
    (htasks : ∀ task ∈ before ++ after, mark task.order.origin = false)
    (hmark : mark order.origin = true)
    (hrun : Foundation.Runs.run runTask {} (before ++ .newOrder order :: after) = some last)
    (untraded : Untraded mark last.reports) (left : last.book.Unmarked mark) :
    ∃ front cancel back, after = front ++ cancel :: back ∧ Cancels order cancel ∧
      ∃ otherLast,
        Foundation.Runs.run runTask {} (before ++ (front ++ back)) = some otherLast ∧
          Rejoined mark last otherLast := by
  obtain ⟨hbefore, hlater⟩ := List.forall_mem_append.mp admitted
  obtain ⟨horder, hafter⟩ := List.forall_mem_cons.mp hlater
  obtain ⟨hearlier, hunmarked⟩ := List.forall_mem_append.mp htasks
  rw [run_append] at hrun
  obtain ⟨log, hlog, hrest⟩ := Option.bind_eq_some_iff.mp hrun
  obtain ⟨next, hnext, hrun⟩ := Option.bind_eq_some_iff.mp hrest
  obtain ⟨hsettled, hsided⟩ := run_keeps hbefore hlog
  have hempty : Rejoined mark ({} : BookLog γ) {} := ⟨rfl, OrderBook.empty_holds, rfl⟩
  obtain ⟨same, hsame, hrejoined⟩ := hempty.run hearlier hlog
  rw [hlog] at hsame
  cases hsame
  obtain ⟨added, hadded⟩ := run_reports hrun
  have hnextUntraded : Untraded mark next.reports := by
    rw [hadded] at untraded
    exact (untraded_append.mp untraded).1
  have htrails := Trails.arrive hsettled hsided hrejoined horder hmark hnext hnextUntraded
  obtain ⟨front, cancel, back, rfl, hcancels, otherLast, hother, hlast⟩ :=
    htrails.run horder.2 hafter hunmarked hrun untraded left
  refine ⟨front, cancel, back, rfl, hcancels, otherLast, ?_, hlast⟩
  rw [run_append, hlog, Option.bind_some, hother]

end BookLog

/-! ## Systems -/

theorem unmarked_unnumbered (mark : γ → Bool) (reports : List (OutgoingMessage γ)) :
    unmarked mark (reports.map OutgoingMessage.unnumbered) =
      (unmarked mark reports).map OutgoingMessage.unnumbered := by
  unfold unmarked
  rw [List.filter_map]
  rfl

theorem untraded_unnumbered {mark : γ → Bool} {reports : List (OutgoingMessage γ)}
    (h : Untraded mark reports) : Untraded mark (reports.map OutgoingMessage.unnumbered) := by
  intro report hmem
  rw [marked_unnumbered] at hmem
  obtain ⟨original, horiginal, rfl⟩ := List.mem_map.mp hmem
  exact h original horiginal

theorem OrderBook.unmarked_unnumbered {mark : γ → Bool} {book : OrderBook γ}
    (h : book.Unmarked mark) : book.unnumbered.Unmarked mark := by
  constructor
  · intro order hmem
    obtain ⟨original, horiginal, rfl⟩ := List.mem_map.mp hmem
    exact h.bids original horiginal
  · intro order hmem
    obtain ⟨original, horiginal, rfl⟩ := List.mem_map.mp hmem
    exact h.asks original horiginal

theorem Task.admitted_unnumbered {task : Task γ} (h : task.Admitted) : task.unnumbered.Admitted := by
  cases task with
  | newOrder order => exact ⟨h.1.setOrderId 0, h.2⟩
  | cancelOrder request origClientOrderID => trivial

theorem Task.origin_unnumbered (task : Task γ) :
    task.unnumbered.order.origin = task.order.origin := by
  cases task with
  | newOrder order => rfl
  | cancelOrder request origClientOrderID => rfl

theorem BookLog.cancels_unnumbered {order : Order γ} {task : Task γ}
    (h : BookLog.Cancels order.unnumbered task.unnumbered) : BookLog.Cancels order task := by
  obtain ⟨request, htask, hside, hsession⟩ := h
  cases task with
  | newOrder other => cases htask
  | cancelOrder original origClientOrderID =>
    cases htask
    exact ⟨original, rfl, hside, hsession⟩

/-- An order that has left without a trade leaves no trace: one of the later calls has canceled
it, and a run whose calls for the security are the same without the order and this call, under
any interleaving, ends in the same book and reports the same of all other orders. -/
theorem untraded_order_traceless (symbols : List Bytes) (multithreaded : Bool)
    (labels : List (Label γ)) (system : System γ)
    (h : run System.step (System.configured symbols multithreaded) labels = some system)
    (drained : system.Quiescent) (mark : γ → Bool) (order : Order γ) (before after : List (Task γ))
    (calls : ((callsOf labels).filter fun call => call.securityId == order.securityId) =
      before ++ .newOrder order :: after)
    (admitted : ∀ call ∈ before ++ .newOrder order :: after, call.Admitted)
    (isMarked : mark order.origin = true)
    (others : ∀ call ∈ before ++ after, mark call.order.origin = false)
    (untraded : Untraded mark (system.central.taskReports order.securityId))
    (left : (system.central.book order.securityId).Unmarked mark) :
    ∃ front cancel back, after = front ++ cancel :: back ∧ BookLog.Cancels order cancel ∧
      ∀ (otherSymbols : List Bytes) (otherMode : Bool) (otherLabels : List (Label γ))
        (other : System γ),
        run System.step (System.configured otherSymbols otherMode) otherLabels = some other →
        other.Quiescent →
        ((callsOf otherLabels).filter fun call => call.securityId == order.securityId) =
          before ++ (front ++ back) →
        (other.central.book order.securityId).unnumbered =
            (system.central.book order.securityId).unnumbered ∧
          (other.central.taskReports order.securityId).map OutgoingMessage.unnumbered =
            (unmarked mark (system.central.taskReports order.securityId)).map
              OutgoingMessage.unnumbered := by
  obtain ⟨hsim, -⟩ := System.run_simulates symbols multithreaded h
  obtain ⟨log, hlog, hbook, hreports⟩ := hsim.drained drained order.securityId
  have hrun := BookLog.run_unnumbered hlog
  unfold requestsOf at hrun
  rw [numberCalls_unnumbered, calls, List.map_append, List.map_cons] at hrun
  rw [hreports] at untraded
  rw [hbook] at left
  have hadmitted : ∀ task ∈ before.map Task.unnumbered ++ .newOrder order.unnumbered ::
      after.map Task.unnumbered, task.Admitted := by
    have hlist : before.map Task.unnumbered ++ .newOrder order.unnumbered ::
        after.map Task.unnumbered = (before ++ .newOrder order :: after).map Task.unnumbered := by
      rw [List.map_append, List.map_cons]
      rfl
    rw [hlist]
    exact List.forall_mem_map.mpr fun task hmem => Task.admitted_unnumbered (admitted task hmem)
  have hothers : ∀ task ∈ before.map Task.unnumbered ++ after.map Task.unnumbered,
      mark task.order.origin = false := by
    rw [← List.map_append]
    refine List.forall_mem_map.mpr fun task hmem => ?_
    rw [Task.origin_unnumbered]
    exact others task hmem
  obtain ⟨front, cancel, back, hsplit, hcancels, last, hlast, hrejoined⟩ :=
    BookLog.run_untraded hadmitted hothers isMarked hrun (untraded_unnumbered untraded)
      (OrderBook.unmarked_unnumbered left)
  obtain ⟨front, rest, rfl, rfl, hrest⟩ := List.map_eq_append_iff.mp hsplit
  obtain ⟨cancel, back, rfl, rfl, rfl⟩ := List.map_eq_cons_iff.mp hrest
  refine ⟨front, cancel, back, rfl, BookLog.cancels_unnumbered hcancels, ?_⟩
  intro otherSymbols otherMode otherLabels other h' otherDrained otherCalls
  obtain ⟨hotherSim, -⟩ := System.run_simulates otherSymbols otherMode h'
  obtain ⟨otherLog, hotherLog, hotherBook, hotherReports⟩ :=
    hotherSim.drained otherDrained order.securityId
  have hotherRun := BookLog.run_unnumbered hotherLog
  unfold requestsOf at hotherRun
  rw [numberCalls_unnumbered, otherCalls, List.map_append, List.map_append] at hotherRun
  rw [hotherRun] at hlast
  cases hlast
  rw [hbook, hreports, hotherBook, hotherReports]
  refine ⟨hrejoined.book.symm, ?_⟩
  rw [← unmarked_unnumbered]
  exact hrejoined.reports.symm

/-- The order is `A`; `B` and `C` trade in front of it before it is canceled. -/
def untradedCalls : List (Task Bool) :=
  [callAt "A" .sell 12 5 true, callAt "B" .sell 10 5 false, callAt "C" .buy 10 4 false,
    .cancelOrder (.new 0 (ascii "D") 0 0 .sell .limit 0 0 false) (ascii "A")]

theorem untradedCalls_admitted : ∀ call ∈ untradedCalls, call.Admitted := by
  intro call hmem
  simp only [untradedCalls, List.mem_cons, List.not_mem_nil, or_false] at hmem
  rcases hmem with rfl | rfl | rfl | rfl
  · exact ⟨Order.new_fresh _ _ _ _ _ _ _ (by decide) _, Or.inr rfl⟩
  · exact ⟨Order.new_fresh _ _ _ _ _ _ _ (by decide) _, Or.inr rfl⟩
  · exact ⟨Order.new_fresh _ _ _ _ _ _ _ (by decide) _, Or.inl rfl⟩
  · trivial

theorem untraded_order_traceless_canceled :
    ∃ system other : System Bool,
      run System.step (System.configured [ascii "AAPL"] false) (untradedCalls.map Task.label) =
        some system ∧
      run System.step (System.configured [ascii "AAPL"] false)
        ([callAt "B" .sell 10 5 false, callAt "C" .buy 10 4 false].map Task.label) = some other ∧
      (other.central.book 0).unnumbered = (system.central.book 0).unnumbered := by
  have hfacts : (run System.step (System.configured [ascii "AAPL"] false)
      (untradedCalls.map Task.label)).map (fun system =>
        ((system.central.taskReports 0).filter fun report => id report.order.origin).all
            (fun report => report.isFill == false) &&
          (system.central.book 0).bidOrders.all (fun order => order.origin == false) &&
          (system.central.book 0).askOrders.all fun order => order.origin == false) =
      some true := by decide +kernel
  obtain ⟨system, hrun, hsystem⟩ := Option.map_eq_some_iff.mp hfacts
  simp only [Bool.and_eq_true, List.all_eq_true, beq_iff_eq] at hsystem
  obtain ⟨⟨huntraded, hbids⟩, hasks⟩ := hsystem
  obtain ⟨other, hother⟩ := Option.isSome_iff_exists.mp (by decide +kernel :
    (run System.step (System.configured [ascii "AAPL"] false)
      ([callAt "B" .sell 10 5 false, callAt "C" .buy 10 4 false].map Task.label)).isSome = true)
  refine ⟨system, other, hrun, hother, ?_⟩
  obtain ⟨front, cancel, back, hsplit, ⟨request, rfl, -⟩, htraceless⟩ :=
    untraded_order_traceless [ascii "AAPL"] false _ system hrun (quiescent_of_calls hrun) id
      (.new 0 (ascii "A") 0 0 .sell .limit 12 5 true) [] untradedCalls.tail rfl
      untradedCalls_admitted rfl (by decide) huntraded ⟨hbids, hasks⟩
  have hcalls : front ++ back = [callAt "B" .sell 10 5 false, callAt "C" .buy 10 4 false] := by
    match front, hsplit with
    | [], hsplit => cases hsplit
    | [_], hsplit => cases hsplit
    | [_, _], hsplit => cases hsplit; rfl
    | _ :: _ :: _ :: _, hsplit =>
      have hlength := congrArg List.length hsplit
      simp [untradedCalls] at hlength
  refine (htraceless [ascii "AAPL"] false _ other hother (quiescent_of_calls hother) ?_).1
  rw [hcalls]
  rfl

end LiteExchange.OrderMatcher
