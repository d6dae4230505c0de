import LiteExchange.Foundation.Ledger
import LiteExchange.OrderMatcher.TaskEffects

/-!
# A book and the reports of its tasks, as a ledger

A log is the book of one security with the reports its tasks have pushed. Its
accounts are the orders it has taken, with their current quantities: an order has
its account in the book while it rests and in its FILLED or CANCELED report once
it has left. Inserting an order opens an account, a trade transfers the traded
quantity to two accounts, and a cancel moves an account from the book to the
reports.
-/

namespace LiteExchange.OrderMatcher

open Foundation.Ascii Foundation.Ledger Foundation.PriorityList

variable {γ : Type}

/-- The quantities of an order, with what identifies it. -/
structure Account where
  orderID : Nat
  side : OrderSide
  quantity : Int
  openQuantity : Int
  executedQuantity : Int
  deriving DecidableEq, Repr

namespace Account

structure Balanced (account : Account) : Prop where
  openQuantity : IsLong account.openQuantity
  executedQuantity : IsLong account.executedQuantity
  sum : long (account.openQuantity + account.executedQuantity) = account.quantity

/-- The key of the postings of an account. -/
def key (account : Account) : Nat × OrderSide := (account.orderID, account.side)

def balance (account : Account) : (Nat × OrderSide) × Int := (account.key, account.executedQuantity)

end Account

def Order.account (order : Order γ) : Account :=
  ⟨order.orderID, order.side, order.quantity, order.openQuantity, order.executedQuantity⟩

theorem Order.Balanced.account {order : Order γ} (balanced : order.Balanced) :
    order.account.Balanced :=
  ⟨balanced.openQuantity, balanced.executedQuantity, balanced.sum⟩

theorem Account.Balanced.of_account {order : Order γ} (balanced : order.account.Balanced) :
    order.Balanced :=
  ⟨balanced.openQuantity, balanced.executedQuantity, balanced.sum⟩

namespace OutgoingMessage

/-- PARTIALLY_FILLED or FILLED. -/
def isFill (message : OutgoingMessage γ) : Bool :=
  message.status == .partiallyFilled || message.status == .filled

/-- FILLED or CANCELED: the order has left the book. -/
def isFinal (message : OutgoingMessage γ) : Bool :=
  message.status == .filled || message.status == .canceled

end OutgoingMessage

/-- The accounts of the orders that left. -/
def departed (reports : List (OutgoingMessage γ)) : List Account :=
  (reports.filter OutgoingMessage.isFinal).map fun report => report.order.account

/-- The last quantities of the fill reports, as postings. -/
def fillEntries (reports : List (OutgoingMessage γ)) : List ((Nat × OrderSide) × Int) :=
  (reports.filter OutgoingMessage.isFill).map fun report =>
    (report.order.account.key, report.order.lastExecutedQuantity)

theorem departed_append (front back : List (OutgoingMessage γ)) :
    departed (front ++ back) = departed front ++ departed back := by
  simp [departed]

theorem fillEntries_append (front back : List (OutgoingMessage γ)) :
    fillEntries (front ++ back) = fillEntries front ++ fillEntries back := by
  simp [fillEntries]

theorem departed_fillReport (order : Order γ) :
    departed [fillReport order] = if order.isFilled then [order.account] else [] := by
  unfold fillReport
  by_cases h : order.isFilled = true
  · rw [if_pos h, if_pos h]
    rfl
  · rw [if_neg h, if_neg h]
    rfl

theorem isFill_fillReport (order : Order γ) : (fillReport order).isFill = true := by
  unfold fillReport
  split
  · rfl
  · rfl

theorem fillEntries_fillReport (order : Order γ) :
    fillEntries [fillReport order] = [(order.account.key, order.lastExecutedQuantity)] := by
  unfold fillReport
  split
  · rfl
  · rfl

namespace OrderBook

/-- A settled order has its account in the container or in its report. -/
theorem settle_accounts (traded : Order γ) (rest : List (Order γ)) :
    ((settle traded rest).map Order.account ++ departed [fillReport traded]).Perm
      (traded.account :: rest.map Order.account) := by
  rw [departed_fillReport]
  unfold settle
  by_cases h : traded.isFilled = true
  · rw [if_pos h, if_pos h]
    exact List.perm_append_singleton _ _
  · rw [if_neg h, if_neg h, List.append_nil]
    exact List.Perm.refl _

theorem insert_orders_perm (book : OrderBook γ) (order : Order γ) :
    (book.insert order).orders.Perm (order :: book.orders) := by
  unfold insert orders
  split
  · exact (List.perm_orderedInsert _ _ _).append_right _
  · exact ((List.perm_orderedInsert _ _ _).append_left _).trans List.perm_middle

/-- Bids rest with the bids and asks with the asks. -/
abbrev Sided (book : OrderBook γ) : Prop :=
  book.Holds (fun order => order.side = .buy) fun order => order.side = .sell

theorem sided_closed : Closed (γ := γ) (fun order => order.side = .buy)
    (fun order => order.side = .sell) fun _ => True where
  trade := fun _ _ _ _ _ => ⟨trivial, trivial⟩
  tradedBid := fun _ _ hb _ _ _ => hb
  tradedAsk := fun _ _ _ ha _ _ => ha
  canceledBid := fun _ hb => hb
  canceledAsk := fun _ ha => ha

/-- The orders of a side, in priority order. -/
def container (book : OrderBook γ) : OrderSide → List (Order γ)
  | .buy => book.bidOrders
  | .sell => book.askOrders
  | .nonSupported => []

theorem find_eq (book : OrderBook γ) (clientID : Bytes) (sessionId : Nat) (side : OrderSide) :
    book.find clientID sessionId side =
      (book.container side).find? (sameClientOrder clientID sessionId) := by
  cases side with
  | _ => rfl

/-- The flag set on the found order does not change what `erase` finds: the container loses its
first match. -/
theorem cancelFound_erase (book : OrderBook γ) {found : Order γ} {clientID : Bytes}
    {sessionId : Nat} {side : OrderSide} (hside : found.side = side)
    (hclient : found.clientOrderID = clientID) (hsession : found.sessionId = sessionId)
    (other : OrderSide) :
    ((book.cancelFound clientID sessionId side).erase found.cancel).container other =
      if other = side then (book.container side).eraseP (sameClientOrder clientID sessionId)
      else book.container other := by
  have hflag : ∀ o : Order γ, sameClientOrder clientID sessionId o = true →
      sameClientOrder clientID sessionId o.cancel = true := fun _ h => h
  have hcancel : found.cancel.side = side := hside
  have hid : found.cancel.clientOrderID = clientID := hclient
  have hsessionId : found.cancel.sessionId = sessionId := hsession
  cases side with
  | nonSupported =>
    simp only [erase, hcancel, cancelFound]
    cases other with
    | _ => rfl
  | buy =>
    simp only [erase, hcancel, cancelFound, hid, hsessionId, eraseP_modifyFirst hflag]
    cases other with
    | _ => rfl
  | sell =>
    simp only [erase, hcancel, cancelFound, hid, hsessionId, eraseP_modifyFirst hflag]
    cases other with
    | _ => rfl

/-- Where the order that `find` points at has the side of the request, `erase` hits the same
element: the first order of the side with the client order id and the session. -/
theorem cancelOrder_of_find {book : OrderBook γ} {order found : Order γ}
    {origClientOrderID : Bytes}
    (hfind : book.find origClientOrderID order.sessionId order.side = some found)
    (hside : found.side = order.side) :
    ∃ front back next,
      book.cancelOrder order origClientOrderID = (next, [.new found.cancel .canceled]) ∧
      (order.side = .buy ∧ book.bidOrders = front ++ found :: back ∧
          next = { book with bidOrders := front ++ back } ∨
        order.side = .sell ∧ book.askOrders = front ++ found :: back ∧
          next = { book with askOrders := front ++ back }) := by
  obtain ⟨-, hsession, hclient⟩ := find_mem hfind
  have hcontainer := cancelFound_erase book hside hclient hsession
  have hcancel : book.cancelOrder order origClientOrderID =
      ((book.cancelFound origClientOrderID order.sessionId order.side).erase found.cancel,
        [.new found.cancel .canceled]) := by rw [cancelOrder, hfind]
  rw [find_eq] at hfind
  obtain ⟨front, back, hsplit, -, -, herase, -⟩ := split_of_find (f := id) hfind
  rw [herase] at hcontainer
  refine ⟨front, back, _, hcancel, ?_⟩
  generalize (book.cancelFound origClientOrderID order.sessionId order.side).erase found.cancel =
    next at hcontainer
  have hbids := hcontainer .buy
  have hasks := hcontainer .sell
  cases horder : order.side with
  | nonSupported =>
    rw [horder] at hfind
    cases hfind
  | buy =>
    rw [horder] at hsplit hbids hasks
    exact Or.inl ⟨rfl, hsplit, congrArg₂ OrderBook.mk hbids hasks⟩
  | sell =>
    rw [horder] at hsplit hbids hasks
    exact Or.inr ⟨rfl, hsplit, congrArg₂ OrderBook.mk hbids hasks⟩

/-- In a sided book every order that `find` points at has the side of the request. -/
theorem cancelOrder_removes {book : OrderBook γ} (sided : book.Sided) (order : Order γ)
    (origClientOrderID : Bytes) :
    (∃ found front back next,
      book.find origClientOrderID order.sessionId order.side = some found ∧
      book.cancelOrder order origClientOrderID = (next, [.new found.cancel .canceled]) ∧
      (order.side = .buy ∧ book.bidOrders = front ++ found :: back ∧
          next = { book with bidOrders := front ++ back } ∨
        order.side = .sell ∧ book.askOrders = front ++ found :: back ∧
          next = { book with askOrders := front ++ back })) ∨
    (book.find origClientOrderID order.sessionId order.side = none ∧
      book.cancelOrder order origClientOrderID = (book, [.new order .rejected])) := by
  rcases cancelOrder_cases book order origClientOrderID with ⟨found, hfind, -⟩ | hnone
  · left
    have hside : found.side = order.side := by
      unfold find at hfind
      cases horder : order.side with
      | nonSupported =>
        rw [horder] at hfind
        cases hfind
      | buy =>
        rw [horder] at hfind
        exact sided.bids found (List.mem_of_find?_eq_some hfind)
      | sell =>
        rw [horder] at hfind
        exact sided.asks found (List.mem_of_find?_eq_some hfind)
    obtain ⟨front, back, next, hremoved⟩ := cancelOrder_of_find hfind hside
    exact ⟨found, front, back, next, hfind, hremoved⟩
  · exact Or.inr hnone

/-- An order that is taken out of its container is taken out of the book. -/
theorem removed_perm {book next : OrderBook γ} {side : OrderSide} {found : Order γ}
    {front back : List (Order γ)}
    (h : side = .buy ∧ book.bidOrders = front ++ found :: back ∧
          next = { book with bidOrders := front ++ back } ∨
        side = .sell ∧ book.askOrders = front ++ found :: back ∧
          next = { book with askOrders := front ++ back }) :
    book.orders.Perm (found :: next.orders) := by
  obtain ⟨bids, asks⟩ := book
  obtain ⟨-, hbids, rfl⟩ | ⟨-, hasks, rfl⟩ := h
  · simp only at hbids
    simp only [orders, hbids, List.append_assoc, List.cons_append]
    exact List.perm_middle
  · simp only at hasks
    simp only [orders, hasks]
    rw [← List.append_assoc, ← List.append_assoc]
    exact List.perm_middle

theorem cancelOrder_perm {book : OrderBook γ} (sided : book.Sided) (order : Order γ)
    (origClientOrderID : Bytes) :
    (∃ found next, book.cancelOrder order origClientOrderID =
        (next, [.new found.cancel .canceled]) ∧ book.orders.Perm (found :: next.orders)) ∨
    book.cancelOrder order origClientOrderID = (book, [.new order .rejected]) := by
  rcases cancelOrder_removes sided order origClientOrderID with
    ⟨found, front, back, next, -, heq, hremoved⟩ | ⟨-, heq⟩
  · exact Or.inl ⟨found, next, heq, removed_perm hremoved⟩
  · exact Or.inr heq

end OrderBook

/-- The book of a security with the reports pushed for it, oldest first. -/
structure BookLog (γ : Type) where
  book : OrderBook γ := {}
  reports : List (OutgoingMessage γ) := []

namespace BookLog

def runTask (log : BookLog γ) (task : Task γ) : Option (BookLog γ) :=
  (log.book.runTask task).map fun (book, reports) => ⟨book, log.reports ++ reports⟩

/-- The log after an iteration of the loop, its two reports counted as pushed. -/
def traded (log : BookLog γ) (trade : Trade γ) (next : OrderBook γ) : BookLog γ :=
  ⟨next, log.reports ++ trade.snapshots.map fillReport⟩

/-- The accounts of all orders the log has taken. -/
def accounts (log : BookLog γ) : List Account :=
  log.book.orders.map Order.account ++ departed log.reports

theorem insert_accounts (log : BookLog γ) (order : Order γ) :
    ({ log with book := log.book.insert order } : BookLog γ).accounts.Perm
      (order.account :: log.accounts) :=
  ((OrderBook.insert_orders_perm log.book order).map Order.account).append_right _

/-- A trade replaces the accounts of its two orders by the traded ones. -/
theorem traded_accounts {log : BookLog γ} {next : OrderBook γ} {trade : Trade γ}
    (h : log.book.matchOnce = some (trade, next)) :
    ∃ bid ask others, bid ∈ log.book.bidOrders ∧ ask ∈ log.book.askOrders ∧
      ask.price ≤ bid.price ∧ trade = OrderBook.matchTwoOrders bid ask ∧
      log.accounts.Perm (bid.account :: ask.account :: others) ∧
      (log.traded trade next).accounts.Perm (trade.bid.account :: trade.ask.account :: others) := by
  obtain ⟨bid, bids, ask, asks, hbook, hcross, htrade, hnext⟩ := OrderBook.matchOnce_cases h
  refine ⟨bid, ask, bids.map Order.account ++ asks.map Order.account ++ departed log.reports,
    by simp [hbook], by simp [hbook], hcross, htrade, ?_, ?_⟩
  · simp only [accounts, hbook, OrderBook.orders, List.map_append, List.map_cons,
      List.cons_append, List.append_assoc]
    exact List.Perm.cons _ List.perm_middle
  · have hbid := OrderBook.settle_accounts trade.bid bids
    have hask := OrderBook.settle_accounts trade.ask asks
    rw [List.perm_iff_count] at hbid hask ⊢
    intro account
    have hbidCount := hbid account
    have haskCount := hask account
    have hsnapshots : departed (trade.snapshots.map fillReport) =
        departed [fillReport trade.bid] ++ departed [fillReport trade.ask] :=
      departed_append [fillReport trade.bid] [fillReport trade.ask]
    simp only [traded, accounts, hnext, OrderBook.orders, List.map_append, departed_append,
      hsnapshots, List.count_append, List.count_cons] at hbidCount haskCount ⊢
    omega

/-- A cancel that finds its order moves the account to the CANCELED report. -/
theorem cancelOrder_accounts {log : BookLog γ} (sided : log.book.Sided) (order : Order γ)
    (origClientOrderID : Bytes) :
    (⟨(log.book.cancelOrder order origClientOrderID).1,
      log.reports ++ (log.book.cancelOrder order origClientOrderID).2⟩ : BookLog γ).accounts.Perm
      log.accounts := by
  rcases OrderBook.cancelOrder_perm sided order origClientOrderID with
    ⟨found, next, heq, hperm⟩ | heq
  · rw [heq]
    have hfound : departed [OutgoingMessage.new found.cancel .canceled] = [found.account] := rfl
    have horders := (hperm.map Order.account).append_right (departed log.reports)
    simp only [accounts, departed_append, hfound]
    refine List.Perm.trans ?_ horders.symm
    rw [← List.append_assoc, List.map_cons, List.cons_append]
    exact List.perm_append_singleton _ _
  · rw [heq]
    have hrejected : departed [OutgoingMessage.new order .rejected] = [] := rfl
    simp only [accounts, departed_append, hrejected, List.append_nil]
    exact List.Perm.refl _

/-- What every trade keeps of a log holds after any number of iterations. -/
theorem iterations_invariant (I : BookLog γ → Prop)
    (keep : ∀ log trade next, I log → log.book.matchOnce = some (trade, next) →
      I (log.traded trade next))
    {book last : OrderBook γ} {trades : List (Trade γ)}
    (h : OrderBook.Iterations book trades last) {reports : List (OutgoingMessage γ)}
    (start : I ⟨book, reports⟩) :
    I ⟨last, reports ++ (trades.flatMap Trade.snapshots).map fillReport⟩ := by
  induction h generalizing reports with
  | done => simpa using start
  | @trade book next last trade trades once rest ih =>
    have hlog := ih (keep ⟨book, reports⟩ trade next start once)
    simpa [traded] using hlog

/-- The effect of a task on the log, from the effects of its parts. -/
theorem runTask_cases {log next : BookLog γ} {task : Task γ} (h : log.runTask task = some next) :
    (∃ order trades, task = .newOrder order ∧
      OrderBook.Iterations (log.book.insert order) trades next.book ∧
      next.book.matchOnce = none ∧
      next.reports = log.reports ++ (trades.flatMap Trade.snapshots).map fillReport) ∨
    (∃ order origClientOrderID, task = .cancelOrder order origClientOrderID ∧
      next = ⟨(log.book.cancelOrder order origClientOrderID).1,
        log.reports ++ (log.book.cancelOrder order origClientOrderID).2⟩) := by
  obtain ⟨⟨book, reports⟩, hbook, rfl⟩ := Option.map_eq_some_iff.mp h
  cases task with
  | newOrder order =>
    obtain ⟨trades, hiter, hlast, hreports⟩ := OrderBook.newOrder_cases hbook
    exact Or.inl ⟨order, trades, rfl, hiter, hlast, congrArg (log.reports ++ ·) hreports⟩
  | cancelOrder order origClientOrderID =>
    have hresult : log.book.cancelOrder order origClientOrderID = (book, reports) :=
      Option.some.inj hbook
    exact Or.inr ⟨order, origClientOrderID, rfl, by rw [hresult]⟩

/-- The property of a log that a rule for resting orders and reports establishes. -/
structure Holds (bid ask : Order γ → Prop) (report : OutgoingMessage γ → Prop)
    (log : BookLog γ) : Prop where
  book : log.book.Holds bid ask
  reports : ∀ message ∈ log.reports, report message

/-- A closed pair of properties of resting orders, and a property of reports that
follows for fills and cancels. -/
structure ReportRule (bid ask : Order γ → Prop) (report : OutgoingMessage γ → Prop) : Prop where
  closed : OrderBook.Closed bid ask fun order => report (fillReport order)
  canceledBid : ∀ order, bid order → report (.new order.cancel .canceled)
  canceledAsk : ∀ order, ask order → report (.new order.cancel .canceled)

end BookLog

/-- A task brings an order that may rest, or a request that may be rejected. -/
def Task.Meets (bid ask : Order γ → Prop) (report : OutgoingMessage γ → Prop) : Task γ → Prop
  | .newOrder order => (order.side = .buy → bid order) ∧ (order.side ≠ .buy → ask order)
  | .cancelOrder order _ => report (.new order .rejected)

namespace BookLog

variable {bid ask : Order γ → Prop} {report : OutgoingMessage γ → Prop}

theorem ReportRule.mono (rule : ReportRule bid ask report) {weaker : OutgoingMessage γ → Prop}
    (h : ∀ message, report message → weaker message) : ReportRule bid ask weaker where
  closed :=
    { rule.closed with
      trade := fun b a hb ha hcross => (rule.closed.trade b a hb ha hcross).imp (h _) (h _) }
  canceledBid := fun order hbid => h _ (rule.canceledBid order hbid)
  canceledAsk := fun order hask => h _ (rule.canceledAsk order hask)

/-- A rule holds after any number of iterations, the reports of their trades counted as pushed. -/
theorem ReportRule.iterations (rule : ReportRule bid ask report) {log : BookLog γ}
    {last : OrderBook γ} {trades : List (Trade γ)} (hlog : log.Holds bid ask report)
    (h : OrderBook.Iterations log.book trades last) :
    (⟨last, log.reports ++ (trades.flatMap Trade.snapshots).map fillReport⟩ : BookLog γ).Holds
      bid ask report := by
  obtain ⟨htrades, hlast⟩ := rule.closed.iterations hlog.book h
  refine ⟨hlast, fun message hmem => ?_⟩
  rw [List.mem_append, List.mem_map] at hmem
  obtain hold | ⟨order, horder, rfl⟩ := hmem
  · exact hlog.reports message hold
  · obtain ⟨trade, htrade, hsnapshot⟩ := List.mem_flatMap.mp horder
    simp only [Trade.snapshots, List.mem_cons, List.not_mem_nil, or_false] at hsnapshot
    obtain rfl | rfl := hsnapshot
    · exact (htrades trade htrade).1
    · exact (htrades trade htrade).2

theorem ReportRule.runTask (rule : ReportRule bid ask report) {log next : BookLog γ}
    {task : Task γ} (hlog : log.Holds bid ask report) (meets : task.Meets bid ask report)
    (h : log.runTask task = some next) : next.Holds bid ask report := by
  rcases runTask_cases h with
    ⟨order, trades, rfl, hiter, -, hreports⟩ | ⟨order, origClientOrderID, rfl, rfl⟩
  · have hinserted : (⟨log.book.insert order, log.reports⟩ : BookLog γ).Holds bid ask report :=
      ⟨OrderBook.insert_holds hlog.book meets.1 meets.2, hlog.reports⟩
    have hlast := rule.iterations hinserted hiter
    rwa [← hreports] at hlast
  · refine ⟨rule.closed.cancelOrder hlog.book order origClientOrderID, fun message hmem => ?_⟩
    obtain hold | hnew := List.mem_append.mp hmem
    · exact hlog.reports message hold
    · rcases OrderBook.cancelOrder_cases log.book order origClientOrderID with
        ⟨found, hfind, heq⟩ | ⟨-, heq⟩
      · rw [heq] at hnew
        obtain rfl := List.mem_singleton.mp hnew
        obtain hbid | hask := List.mem_append.mp (OrderBook.find_mem hfind).1
        · exact rule.canceledBid found (hlog.book.bids found hbid)
        · exact rule.canceledAsk found (hlog.book.asks found hask)
      · rw [heq] at hnew
        obtain rfl := List.mem_singleton.mp hnew
        exact meets

theorem empty_holds : ({} : BookLog γ).Holds bid ask report :=
  ⟨OrderBook.empty_holds, fun _ h => absurd h List.not_mem_nil⟩

/-- A rule holds after every run of tasks that meet it. -/
theorem ReportRule.run (rule : ReportRule bid ask report) (tasks : List (Task γ))
    {log last : BookLog γ} (before : log.Holds bid ask report)
    (meets : ∀ task ∈ tasks, task.Meets bid ask report)
    (h : Foundation.Runs.run BookLog.runTask log tasks = some last) :
    last.Holds bid ask report := by
  induction tasks generalizing log with
  | nil =>
    cases h
    exact before
  | cons task tasks ih =>
    obtain ⟨htask, htasks⟩ := List.forall_mem_cons.mp meets
    obtain ⟨next, hstep, hrest⟩ := Option.bind_eq_some_iff.mp h
    exact ih (rule.runTask before htask hstep) htasks hrest

end BookLog

end LiteExchange.OrderMatcher
