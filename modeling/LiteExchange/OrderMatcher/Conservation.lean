import Mathlib.Data.ZMod.Basic
import LiteExchange.OrderMatcher.BookLog
import LiteExchange.OrderMatcher.Priority

/-!
# Conservation of quantity

The accounts of a log are balanced, its fill entries reconcile with them, and
every entry of a bid is paired with an equal entry of an ask, all in the arithmetic
of a `long`. Each part of a task keeps this, so it holds between tasks and between
the iterations of the loop.
-/

namespace LiteExchange.OrderMatcher

open Foundation.Ascii Foundation.Ledger Foundation.Runs

variable {γ : Type}

/-- A new order is fresh and a BUY or a SELL; a cancel request is arbitrary. -/
def Task.Admitted : Task γ → Prop
  | .newOrder order => order.Fresh ∧ (order.side = .buy ∨ order.side = .sell)
  | .cancelOrder _ _ => True

/-- A trade as the loop may make it: a bid and an ask execute the same quantity
at the same price, which is the limit of the ask and within the limit of the bid. -/
structure Trade.Legal (trade : Trade γ) : Prop where
  bidSide : trade.bid.side = .buy
  askSide : trade.ask.side = .sell
  quantity : trade.bid.lastExecutedQuantity = trade.ask.lastExecutedQuantity
  price : trade.bid.lastExecutedPrice = trade.ask.lastExecutedPrice
  askLimit : trade.bid.lastExecutedPrice = trade.ask.price
  bidLimit : trade.bid.lastExecutedPrice ≤ trade.bid.price

/-- The id of the order a task adds to a book. -/
def Task.arrival : Task γ → List Nat
  | .newOrder order => [order.orderID]
  | .cancelOrder _ _ => []

/-- Quantities as the values of a `long`, of which sums and differences wrap. -/
def asLong : Int →+ ZMod (2 ^ 64) := Int.castAddHom (ZMod (2 ^ 64))

theorem asLong_eq_iff {value other : Int} : asLong value = asLong other ↔ long value = long other := by
  have hmodulo : asLong value = asLong other ↔ value % 2 ^ 64 = other % 2 ^ 64 :=
    ZMod.intCast_eq_intCast_iff value other (2 ^ 64)
  rw [hmodulo]
  unfold long
  omega

theorem asLong_long (value : Int) : asLong (long value) = asLong value := by
  rw [asLong_eq_iff]
  exact long_of_isLong (isLong_long value)

namespace BookLog

/-- The quantity executed on all orders of a side. -/
def executedOn (side : OrderSide) (log : BookLog γ) : Int :=
  total (fun key => key.2 == side) (log.accounts.map Account.balance)

/-- The quantity the fill reports of an order id add up to. -/
def reportedFor (orderID : Nat) (log : BookLog γ) : Int :=
  total (fun key => key.1 == orderID) (fillEntries log.reports)

/-! ## The ledger of a log -/

section Tallied

variable {M : Type} [AddCommMonoid M] {read : Int →+ M}

/-- Postings whose amounts are read in another arithmetic. -/
def readAs (read : Int →+ M) (postings : List ((Nat × OrderSide) × Int)) :
    List ((Nat × OrderSide) × M) :=
  postings.map fun posting => (posting.1, read posting.2)

/-- The fill entries reconcile with the accounts, and those of the bids with those of the asks. -/
structure Tallied (read : Int →+ M) (log : BookLog γ) : Prop where
  reconciled : Reconciled (readAs read (log.accounts.map Account.balance))
    (readAs read (fillEntries log.reports))
  paired : total (fun key => key.2 == .buy) (readAs read (fillEntries log.reports)) =
    total (fun key => key.2 == .sell) (readAs read (fillEntries log.reports))

theorem empty_tallied : ({} : BookLog γ).Tallied read where
  reconciled := reconciled_nil
  paired := rfl

theorem readAs_append (front back : List ((Nat × OrderSide) × Int)) :
    readAs read (front ++ back) = readAs read front ++ readAs read back :=
  List.map_append

theorem readAs_accounts {accounts others : List Account} (h : accounts.Perm others) :
    (readAs read (accounts.map Account.balance)).Perm (readAs read (others.map Account.balance)) :=
  (h.map Account.balance).map _

theorem Tallied.insert {log : BookLog γ} (hlog : log.Tallied read) {order : Order γ}
    (unexecuted : order.executedQuantity = 0) :
    ({ log with book := log.book.insert order } : BookLog γ).Tallied read where
  reconciled := by
    have hopened := hlog.reconciled.opened order.account.key
    have hbalance : (order.account.balance.1, read order.account.balance.2) =
        (order.account.key, 0) := by
      have hzero : order.account.balance.2 = 0 := unexecuted
      rw [hzero, map_zero]
      rfl
    rw [← hbalance] at hopened
    exact hopened.perm (readAs_accounts (insert_accounts log order))
  paired := hlog.paired

theorem fillEntries_snapshots (trade : Trade γ) :
    fillEntries (trade.snapshots.map fillReport) =
      [(trade.bid.account.key, trade.bid.lastExecutedQuantity),
        (trade.ask.account.key, trade.ask.lastExecutedQuantity)] := by
  have hsplit := fillEntries_append [fillReport trade.bid] [fillReport trade.ask]
  rw [fillEntries_fillReport, fillEntries_fillReport] at hsplit
  exact hsplit

/-- The execution of the order is read without what wraps. -/
def Reads (read : Int →+ M) (order : Order γ) (quantity : Int) : Prop :=
  read (long (order.executedQuantity + quantity)) = read (order.executedQuantity + quantity)

theorem Tallied.trade {log : BookLog γ} (hlog : log.Tallied read) (sided : log.book.Sided)
    {next : OrderBook γ} {trade : Trade γ} (h : log.book.matchOnce = some (trade, next))
    (reads : ∀ bid ∈ log.book.bidOrders, ∀ ask ∈ log.book.askOrders,
      trade = OrderBook.matchTwoOrders bid ask →
        Reads read bid (OrderBook.tradedQuantity bid ask) ∧
          Reads read ask (OrderBook.tradedQuantity bid ask)) :
    (log.traded trade next).Tallied read := by
  obtain ⟨bid, ask, others, hbid, hask, hcross, rfl, hbefore, hafter⟩ := traded_accounts h
  obtain ⟨hbidReads, haskReads⟩ := reads bid hbid ask hask rfl
  have hbuy : bid.side = .buy := sided.bids bid hbid
  have hsell : ask.side = .sell := sided.asks ask hask
  have hentries : readAs read (fillEntries (log.traded (OrderBook.matchTwoOrders bid ask)
      next).reports) = readAs read (fillEntries log.reports) ++
        [(bid.account.key, read (OrderBook.tradedQuantity bid ask)),
          (ask.account.key, read (OrderBook.tradedQuantity bid ask))] := by
    rw [traded, fillEntries_append, fillEntries_snapshots, readAs_append]
    rfl
  constructor
  · have hposted := (hlog.reconciled.perm (readAs_accounts hbefore.symm)).transferred
      (read (OrderBook.tradedQuantity bid ask))
    rw [← map_add, ← map_add] at hposted
    refine Reconciled.perm ?_ (readAs_accounts hafter)
    rw [hentries]
    simp only [readAs, List.map_cons, OrderBook.matchTwoOrders, Account.balance, Order.account,
      Order.execute] at hposted ⊢
    unfold Reads at hbidReads haskReads
    rw [hbidReads, haskReads]
    exact hposted
  · rw [hentries, total_append, total_append, hlog.paired]
    simp [total_cons, Order.account, Account.key, hbuy, hsell]

theorem fillEntries_cancelOrder (book : OrderBook γ) (order : Order γ) (origClientOrderID : Bytes) :
    fillEntries (book.cancelOrder order origClientOrderID).2 = [] := by
  rcases OrderBook.cancelOrder_cases book order origClientOrderID with ⟨found, -, heq⟩ | ⟨-, heq⟩
  · rw [heq]
    rfl
  · rw [heq]
    rfl

theorem Tallied.cancel {log : BookLog γ} (hlog : log.Tallied read) (sided : log.book.Sided)
    (order : Order γ) (origClientOrderID : Bytes) :
    (⟨(log.book.cancelOrder order origClientOrderID).1,
      log.reports ++ (log.book.cancelOrder order origClientOrderID).2⟩ : BookLog γ).Tallied
      read := by
  have hperm := cancelOrder_accounts sided order origClientOrderID
  have hentries := fillEntries_cancelOrder log.book order origClientOrderID
  constructor
  · rw [fillEntries_append, hentries, List.append_nil]
    exact hlog.reconciled.perm (readAs_accounts hperm)
  · rw [fillEntries_append, hentries, List.append_nil]
    exact hlog.paired

/-- The account of an order id is the sum of the id's fill reports. -/
theorem Tallied.reported {log : BookLog γ} (hlog : log.Tallied read)
    (distinct : (log.accounts.map Account.orderID).Nodup) {account : Account}
    (hmem : account ∈ log.accounts) :
    read (log.reportedFor account.orderID) = read account.executedQuantity := by
  have hnames : ((readAs read (log.accounts.map Account.balance)).map fun balance =>
      balance.1.1).Nodup := by
    rw [readAs, List.map_map, List.map_map]
    exact distinct
  have hbalance := hlog.reconciled.balance_eq Prod.fst hnames
    (List.mem_map_of_mem (f := fun posting : (Nat × OrderSide) × Int => (posting.1, read posting.2))
      (List.mem_map_of_mem (f := Account.balance) hmem))
  rw [readAs, total_read] at hbalance
  exact hbalance

theorem Tallied.sides {log : BookLog γ} (hlog : log.Tallied read) :
    read (log.executedOn .buy) = read (log.executedOn .sell) := by
  have hpaired := hlog.paired
  rw [hlog.reconciled, hlog.reconciled, readAs, total_read, total_read] at hpaired
  exact hpaired

end Tallied

/-! ## The invariant -/

/-- The invariant of a log that has taken the orders with these ids. -/
structure Sound (arrived : List Nat) (log : BookLog γ) : Prop where
  sided : log.book.Sided
  arrived : (log.accounts.map Account.orderID).Perm arrived
  balanced : ∀ account ∈ log.accounts, account.Balanced
  tallied : log.Tallied asLong

theorem empty_sound : ({} : BookLog γ).Sound [] where
  sided := OrderBook.empty_holds
  arrived := List.Perm.refl _
  balanced := fun _ h => absurd h List.not_mem_nil
  tallied := empty_tallied

theorem Sound.insert {arrived : List Nat} {log : BookLog γ} (hlog : log.Sound arrived)
    {order : Order γ} (fresh : order.Fresh) (side : order.side = .buy ∨ order.side = .sell) :
    ({ log with book := log.book.insert order } : BookLog γ).Sound (order.orderID :: arrived) := by
  have hperm := insert_accounts log order
  constructor
  · apply OrderBook.insert_holds hlog.sided
    · exact fun hbuy => hbuy
    · exact fun hbuy => side.resolve_left hbuy
  · exact (hperm.map Account.orderID).trans (hlog.arrived.cons order.orderID)
  · intro account hmem
    rcases List.mem_cons.mp (hperm.mem_iff.mp hmem) with rfl | hmem
    · exact fresh.balanced.account
    · exact hlog.balanced account hmem
  · exact hlog.tallied.insert fresh.executedQuantity

theorem Sound.trade {arrived : List Nat} {log : BookLog γ} (hlog : log.Sound arrived)
    {next : OrderBook γ} {trade : Trade γ} (h : log.book.matchOnce = some (trade, next)) :
    (log.traded trade next).Sound arrived ∧ trade.Legal := by
  have htallied := hlog.tallied.trade hlog.sided h
    fun bid _ ask _ _ => ⟨asLong_long _, asLong_long _⟩
  obtain ⟨bid, ask, others, hbid, hask, hcross, rfl, hbefore, hafter⟩ := traded_accounts h
  have hbuy : bid.side = .buy := hlog.sided.bids bid hbid
  have hsell : ask.side = .sell := hlog.sided.asks ask hask
  refine ⟨⟨?_, ?_, ?_, htallied⟩, hbuy, hsell, rfl, rfl, rfl, hcross⟩
  · exact (OrderBook.sided_closed.matchOnce hlog.sided h).2
  · have hids := hlog.arrived
    exact (hafter.map Account.orderID).trans ((hbefore.map Account.orderID).symm.trans hids)
  · intro account hmem
    have hbalanced : ∀ other ∈ bid.account :: ask.account :: others, other.Balanced :=
      fun other hother => hlog.balanced other (hbefore.mem_iff.mpr hother)
    simp only [List.forall_mem_cons] at hbalanced
    obtain ⟨hbidAccount, haskAccount, hothers⟩ := hbalanced
    have hbidBalanced : bid.Balanced := hbidAccount.of_account
    have haskBalanced : ask.Balanced := haskAccount.of_account
    simp only [hafter.mem_iff, List.mem_cons] at hmem
    obtain rfl | rfl | hmem := hmem
    · exact (Order.execute_balanced hbidBalanced ask.price _).account
    · exact (Order.execute_balanced haskBalanced ask.price _).account
    · exact hothers account hmem

theorem Sound.cancel {arrived : List Nat} {log : BookLog γ} (hlog : log.Sound arrived)
    (order : Order γ) (origClientOrderID : Bytes) :
    (⟨(log.book.cancelOrder order origClientOrderID).1,
      log.reports ++ (log.book.cancelOrder order origClientOrderID).2⟩ : BookLog γ).Sound
      arrived := by
  have hperm := cancelOrder_accounts hlog.sided order origClientOrderID
  constructor
  · exact OrderBook.sided_closed.cancelOrder hlog.sided order origClientOrderID
  · exact (hperm.map Account.orderID).trans hlog.arrived
  · exact fun account hmem => hlog.balanced account (hperm.mem_iff.mp hmem)
  · exact hlog.tallied.cancel hlog.sided order origClientOrderID

theorem Sound.iterations {arrived : List Nat} {book last : OrderBook γ}
    {reports : List (OutgoingMessage γ)} {trades : List (Trade γ)}
    (hlog : (⟨book, reports⟩ : BookLog γ).Sound arrived)
    (h : OrderBook.Iterations book trades last) :
    (⟨last, reports ++ (trades.flatMap Trade.snapshots).map fillReport⟩ : BookLog γ).Sound
      arrived :=
  iterations_invariant (Sound arrived) (fun _ _ _ hI once => (hI.trade once).1) h hlog

theorem Sound.legal {arrived : List Nat} {log : BookLog γ} (hlog : log.Sound arrived)
    {last : OrderBook γ} {trades : List (Trade γ)}
    (h : OrderBook.Iterations log.book trades last) : ∀ trade ∈ trades, trade.Legal :=
  h.forall_trades OrderBook.Sided Trade.Legal (fun book trade next hsided once => by
    obtain ⟨bid, bids, ask, asks, rfl, hcross, rfl, -⟩ := OrderBook.matchOnce_cases once
    have hlegal : (OrderBook.matchTwoOrders bid ask).Legal :=
      ⟨hsided.bids bid List.mem_cons_self, hsided.asks ask List.mem_cons_self, rfl, rfl, rfl, hcross⟩
    exact ⟨hlegal, (OrderBook.sided_closed.matchOnce hsided once).2⟩) hlog.sided

theorem Sound.runTask {arrived : List Nat} {log next : BookLog γ} {task : Task γ}
    (hlog : log.Sound arrived) (admitted : task.Admitted) (h : log.runTask task = some next) :
    next.Sound (task.arrival ++ arrived) := by
  rcases runTask_cases h with
    ⟨order, trades, rfl, hiter, -, hreports⟩ | ⟨order, origClientOrderID, rfl, rfl⟩
  · obtain ⟨fresh, side⟩ := admitted
    have hlast := (hlog.insert fresh side).iterations hiter
    rwa [← hreports] at hlast
  · exact hlog.cancel order origClientOrderID

/-- The ids of the accounts are distinct where those that arrived are. -/
theorem Sound.distinct {arrived : List Nat} {log : BookLog γ} (hlog : log.Sound arrived)
    (distinct : arrived.Nodup) : (log.accounts.map Account.orderID).Nodup :=
  hlog.arrived.nodup_iff.mpr distinct

end BookLog

theorem arrivalsOf_cons (task : Task γ) (tasks : List (Task γ)) :
    arrivalsOf (task :: tasks) = task.arrival.length + arrivalsOf tasks := by
  cases task with
  | newOrder order =>
    simp only [arrivalsOf, List.countP_cons, Task.isNewOrder, if_true, Task.arrival,
      List.length_singleton]
    omega
  | cancelOrder order origClientOrderID => simp [arrivalsOf, Task.isNewOrder, Task.arrival]

namespace BookLog

theorem Sound.perm {arrived others : List Nat} {log : BookLog γ} (hlog : log.Sound arrived)
    (h : arrived.Perm others) : log.Sound others :=
  { hlog with arrived := hlog.arrived.trans h }

/-- What every task keeps, in terms of the ids that have arrived, holds after every run: the ids
are those of the orders in their order of arrival. -/
theorem run_numbered (I : List Nat → BookLog γ → Prop)
    (perm : ∀ arrived others log, arrived.Perm others → I arrived log → I others log)
    (step : ∀ arrived log next task, I arrived log → Task.Admitted task →
      (task.arrival ++ arrived).Nodup → log.runTask task = some next →
        I (task.arrival ++ arrived) next)
    (tasks : List (Task γ)) (arrivals : Nat) {log last : BookLog γ}
    (admitted : ∀ task ∈ tasks, task.Admitted) (before : I (List.range' 1 arrivals) log)
    (h : run runTask log (numberTasks (1 + arrivals) tasks) = some last) :
    I (List.range' 1 (arrivals + arrivalsOf tasks)) last := by
  induction tasks generalizing arrivals log with
  | nil =>
    cases h
    exact before
  | cons task tasks ih =>
    obtain ⟨htask, htasks⟩ := List.forall_mem_cons.mp admitted
    cases task with
    | newOrder order =>
      obtain ⟨next, hstep, hrest⟩ := Option.bind_eq_some_iff.mp h
      have hnumbered : (Task.newOrder (order.setOrderId (1 + arrivals))).Admitted :=
        ⟨htask.1.setOrderId _, htask.2⟩
      have hids : ((1 + arrivals) :: List.range' 1 arrivals).Perm (List.range' 1 (arrivals + 1)) := by
        rw [List.range'_1_concat]
        exact (List.perm_append_singleton _ _).symm
      have hdistinct : ((1 + arrivals) :: List.range' 1 arrivals).Nodup :=
        hids.nodup_iff.mpr List.nodup_range'
      have hnext := step _ _ _ _ before hnumbered hdistinct hstep
      have hlater := ih (arrivals + 1) htasks (perm _ _ _ hids hnext) hrest
      rw [arrivalsOf_cons]
      convert hlater using 2
      simp only [Task.arrival, List.length_singleton]
      omega
    | cancelOrder order origClientOrderID =>
      obtain ⟨next, hstep, hrest⟩ := Option.bind_eq_some_iff.mp h
      have hnext := step _ _ _ _ before htask List.nodup_range' hstep
      have hlater := ih arrivals htasks hnext hrest
      rw [arrivalsOf_cons]
      convert hlater using 2
      simp only [Task.arrival, List.length_nil]
      omega

end BookLog

end LiteExchange.OrderMatcher
