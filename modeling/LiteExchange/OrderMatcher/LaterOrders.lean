import LiteExchange.Foundation.Refinement
import LiteExchange.OrderMatcher.Conservation
import LiteExchange.OrderMatcher.Facing
import LiteExchange.OrderMatcher.Refinement

/-!
# Orders that come behind

A resting order trades while it is on top of its side, and what stands behind it is not looked
at before it has left. So the orders of its side that arrive later at no better price, and
their cancels, have no part in what becomes of it: the requests without them make the same
reports for it. The two runs are compared task by task, first on a book, then for whole
systems with any interleaving of their threads.
-/

namespace LiteExchange.OrderMatcher

open Foundation.Ascii Foundation.Runs Foundation.PriorityList Foundation.Refinement

variable {γ : Type}

/-- A new order of the side under one of the names, or a cancel of one. -/
def Task.takenOut (side : OrderSide) (names : Bytes → Nat → Bool) : Task γ → Bool
  | .newOrder order => order.side == side && names order.clientOrderID order.sessionId
  | .cancelOrder request origClientOrderID =>
    request.side == side && names origClientOrderID request.sessionId

/-- The reports of the marked order. -/
def marked (mark : γ → Bool) (reports : List (OutgoingMessage γ)) : List (OutgoingMessage γ) :=
  reports.filter fun report => mark report.order.origin

theorem marked_append (mark : γ → Bool) (front back : List (OutgoingMessage γ)) :
    marked mark (front ++ back) = marked mark front ++ marked mark back := List.filter_append ..

theorem marked_none {mark : γ → Bool} {reports : List (OutgoingMessage γ)}
    (h : ∀ report ∈ reports, mark report.order.origin = false) : marked mark reports = [] := by
  refine List.filter_eq_nil_iff.mpr fun report hmem => ?_
  rw [h report hmem]
  exact Bool.false_ne_true

namespace OrderBook

/-- No order of the list is marked. -/
def NoneMarked (mark : γ → Bool) (orders : List (Order γ)) : Prop :=
  ∀ order ∈ orders, mark order.origin = false

/-- No order of the list has one of the names. -/
def NoneNamed (names : Bytes → Nat → Bool) (orders : List (Order γ)) : Prop :=
  ∀ order ∈ orders, names order.clientOrderID order.sessionId = false

/-- No order of the book is marked. -/
def Unmarked (mark : γ → Bool) (book : OrderBook γ) : Prop :=
  book.Holds (fun order => mark order.origin = false) fun order => mark order.origin = false

/-- The marked order rests in both books, with the same orders in front of it and on the other
side; what stands behind it differs. -/
structure Rests (mark : γ → Bool) (side : OrderSide) (names : Bytes → Nat → Bool)
    (price : ℚ) (book other : OrderBook γ) (front : List (Order γ)) (watched : Order γ)
    (behind otherBehind opposite : List (Order γ)) : Prop where
  book : book = facing side (front ++ watched :: behind) opposite
  other : other = facing side (front ++ watched :: otherBehind) opposite
  isMarked : mark watched.origin = true
  price : watched.price = price
  kept : NoneNamed names (front ++ [watched])
  front : NoneMarked mark front
  behind : NoneMarked mark behind
  otherBehind : NoneMarked mark otherBehind
  opposite : NoneMarked mark opposite

/-- What the two books have in common: the marked order and all that is looked at before it,
or no marked order. -/
def Common (mark : γ → Bool) (side : OrderSide) (names : Bytes → Nat → Bool)
    (price : ℚ) (book other : OrderBook γ) : Prop :=
  (∃ front watched behind otherBehind opposite,
    Rests mark side names price book other front watched behind otherBehind opposite) ∨
  book.Unmarked mark ∧ other.Unmarked mark

variable {mark : γ → Bool} {side : OrderSide} {names : Bytes → Nat → Bool} {price : ℚ}
  {book other : OrderBook γ} {front : List (Order γ)} {watched : Order γ}
  {behind otherBehind opposite : List (Order γ)}

theorem Rests.common
    (h : Rests mark side names price book other front watched behind otherBehind opposite) :
    Common mark side names price book other := Or.inl ⟨_, _, _, _, _, h⟩

/-! ## Books without a marked order -/

theorem unmarked_closed (mark : γ → Bool) :
    Closed (γ := γ) (fun order => mark order.origin = false)
      (fun order => mark order.origin = false) (fun order => mark order.origin = false) where
  trade := fun _ _ hb ha _ => ⟨hb, ha⟩
  tradedBid := fun _ _ hb _ _ _ => hb
  tradedAsk := fun _ _ _ ha _ _ => ha
  canceledBid := fun _ hb => hb
  canceledAsk := fun _ ha => ha

theorem unmarked_facing {own : List (Order γ)} (hown : NoneMarked mark own)
    (hopposite : NoneMarked mark opposite) : (facing side own opposite).Unmarked mark := by
  unfold facing
  split
  · exact ⟨hown, hopposite⟩
  · exact ⟨hopposite, hown⟩

theorem Unmarked.sides (h : book.Unmarked mark) (side : OrderSide) :
    NoneMarked mark (book.own side) ∧ NoneMarked mark (book.opposite side) := by
  unfold own OrderBook.opposite
  split
  · exact ⟨h.bids, h.asks⟩
  · exact ⟨h.asks, h.bids⟩

theorem Unmarked.insert {order : Order γ} (h : book.Unmarked mark)
    (horder : mark order.origin = false) : (book.insert order).Unmarked mark :=
  insert_holds h (fun _ => horder) fun _ => horder

/-- The reports of these trades. -/
def tradeReports (trades : List (Trade γ)) : List (OutgoingMessage γ) :=
  (trades.flatMap Trade.snapshots).map fillReport

theorem tradeReports_cons (trade : Trade γ) (trades : List (Trade γ)) :
    tradeReports (trade :: trades) = trade.snapshots.map fillReport ++ tradeReports trades := by
  simp [tradeReports]

theorem Unmarked.iterations {last : OrderBook γ} {trades : List (Trade γ)}
    (h : book.Unmarked mark) (hiter : Iterations book trades last) :
    last.Unmarked mark ∧ marked mark (tradeReports trades) = [] := by
  obtain ⟨htrades, hlast⟩ := (unmarked_closed mark).iterations h hiter
  refine ⟨hlast, marked_none fun report hmem => ?_⟩
  obtain ⟨order, horder, rfl⟩ := List.mem_map.mp hmem
  obtain ⟨trade, htrade, hsnapshot⟩ := List.mem_flatMap.mp horder
  simp only [Trade.snapshots, List.mem_cons, List.not_mem_nil, or_false] at hsnapshot
  obtain rfl | rfl := hsnapshot
  · exact (htrades trade htrade).1
  · exact (htrades trade htrade).2

theorem marked_cancelReports {found : Option (Order γ)} {request : Order γ}
    (hfound : ∀ order, found = some order → mark order.origin = false)
    (hrequest : mark request.origin = false) : marked mark (cancelReports found request) = [] := by
  refine marked_none fun report hmem => ?_
  cases found with
  | none =>
    obtain rfl := List.mem_singleton.mp hmem
    exact hrequest
  | some order =>
    obtain rfl := List.mem_singleton.mp hmem
    exact hfound order rfl

theorem Unmarked.cancelOrder {request : Order γ} (h : book.Unmarked mark)
    (hrequest : mark request.origin = false) (origClientOrderID : Bytes) :
    (book.cancelOrder request origClientOrderID).1.Unmarked mark ∧
      marked mark (book.cancelOrder request origClientOrderID).2 = [] := by
  refine ⟨(unmarked_closed mark).cancelOrder h request origClientOrderID, ?_⟩
  rcases cancelOrder_cases book request origClientOrderID with ⟨found, hfind, heq⟩ | ⟨-, heq⟩
  · have hfound : mark found.origin = false :=
      (List.mem_append.mp (find_mem hfind).1).elim (h.bids found) (h.asks found)
    rw [heq]
    have hreports : marked mark (cancelReports (some found) request) = [] :=
      marked_cancelReports (fun order horder => by rwa [← Option.some.inj horder]) hrequest
    exact hreports
  · rw [heq]
    have hreports : marked mark (cancelReports none request) = [] :=
      marked_cancelReports (fun order horder => by cases horder) hrequest
    exact hreports

/-! ## Lists of orders without a mark or a name -/

theorem noneMarked_settle {traded : Order γ} {rest : List (Order γ)}
    (htraded : mark traded.origin = false) (hrest : NoneMarked mark rest) :
    NoneMarked mark (settle traded rest) := by
  intro order hmem
  rcases mem_settle hmem with ⟨rfl, -⟩ | hmem
  · exact htraded
  · exact hrest order hmem

theorem noneMarked_insert {order : Order γ} {orders next : List (Order γ)}
    (horders : NoneMarked mark orders) (horder : mark order.origin = false)
    (hnext : ∀ resting, resting ∈ next ↔ resting = order ∨ resting ∈ orders) :
    NoneMarked mark next := by
  intro resting hmem
  rcases (hnext resting).mp hmem with rfl | hmem
  · exact horder
  · exact horders resting hmem

theorem noneMarked_eraseP {orders : List (Order γ)} (horders : NoneMarked mark orders)
    (found : Order γ → Bool) : NoneMarked mark (orders.eraseP found) :=
  fun order hmem => horders order (List.mem_of_mem_eraseP hmem)

theorem marked_cancelReports_find {orders : List (Order γ)} (horders : NoneMarked mark orders)
    {request : Order γ} (hrequest : mark request.origin = false) (found : Order γ → Bool) :
    marked mark (cancelReports (orders.find? found) request) = [] :=
  marked_cancelReports (fun order hfind => horders order (List.mem_of_find?_eq_some hfind)) hrequest

theorem noneNamed_append {orders others : List (Order γ)} :
    NoneNamed names (orders ++ others) ↔ NoneNamed names orders ∧ NoneNamed names others :=
  List.forall_mem_append

theorem filter_noneMarked {orders : List (Order γ)} (h : NoneMarked mark orders) :
    orders.filter (fun order => mark order.origin) = [] := by
  refine List.filter_eq_nil_iff.mpr fun order hmem => ?_
  rw [h order hmem]
  exact Bool.false_ne_true

/-- The marked order is the same in both books. -/
theorem Common.resting (h : Common mark side names price book other) :
    book.orders.filter (fun order => mark order.origin) =
      other.orders.filter fun order => mark order.origin := by
  have hnone {book : OrderBook γ} (h : book.Unmarked mark) : NoneMarked mark book.orders :=
    List.forall_mem_append.mpr ⟨h.bids, h.asks⟩
  rcases h with ⟨front, watched, behind, otherBehind, opposite, rfl, rfl, hmark, -, -, hfront,
    hbehind, hotherBehind, hopposite⟩ | ⟨hbook, hother⟩
  · have hown {behind : List (Order γ)} (hbehind : NoneMarked mark behind) :
        (front ++ watched :: behind).filter (fun order => mark order.origin) = [watched] := by
      rw [List.filter_append, filter_noneMarked hfront,
        List.filter_cons_of_pos (p := fun order : Order γ => mark order.origin) hmark,
        filter_noneMarked hbehind, List.nil_append]
    unfold facing orders
    split
    · dsimp only
      rw [List.filter_append _ opposite, List.filter_append _ opposite, hown hbehind,
        hown hotherBehind]
    · dsimp only
      rw [List.filter_append opposite, List.filter_append opposite, hown hbehind,
        hown hotherBehind]
  · rw [filter_noneMarked (hnone hbook), filter_noneMarked (hnone hother)]

/-! ## Matching -/

/-- One iteration makes the same trade in both books, or none in either. -/
theorem Rests.matchOnce
    (h : Rests mark side names price book other front watched behind otherBehind opposite) :
    (book.matchOnce = none ∧ other.matchOnce = none) ∨
      ∃ trade next otherNext, book.matchOnce = some (trade, next) ∧
        other.matchOnce = some (trade, otherNext) ∧ Common mark side names price next otherNext := by
  obtain ⟨rfl, rfl, hmark, hprice, hkept, hfront, hbehind, hotherBehind, hopposite⟩ := h
  cases opposite with
  | nil => exact Or.inl ⟨matchOnce_opposite_empty _, matchOnce_opposite_empty _⟩
  | cons resting opposite =>
    obtain ⟨hresting, hopposite⟩ := List.forall_mem_cons.mp hopposite
    have hsettled (mine : Order γ) :
        NoneMarked mark (settle (tradedOpposite side mine resting) opposite) :=
      noneMarked_settle hresting hopposite
    cases front with
    | nil =>
      rcases matchOnce_tops side watched resting with hnone | hsome
      · exact Or.inl ⟨hnone _ _, hnone _ _⟩
      · refine Or.inr ⟨_, _, _, hsome _ _, hsome _ _, ?_⟩
        -- The marked order is on top: it leaves if it is filled.
        by_cases hfilled : (tradedOwn side watched resting).isFilled = true
        · rw [settle_of_filled hfilled, settle_of_filled hfilled]
          exact Or.inr ⟨unmarked_facing hbehind (hsettled watched),
            unmarked_facing hotherBehind (hsettled watched)⟩
        · rw [settle_of_open hfilled, settle_of_open hfilled]
          have hname : NoneNamed names [tradedOwn side watched resting] := by
            intro order hmem
            rw [List.mem_singleton.mp hmem]
            exact hkept watched List.mem_cons_self
          exact Or.inl ⟨[], tradedOwn side watched resting, behind, otherBehind, _, rfl, rfl, hmark,
            hprice, hname, hfront, hbehind, hotherBehind, hsettled watched⟩
    | cons best front =>
      obtain ⟨hbest, hfront⟩ := List.forall_mem_cons.mp hfront
      obtain ⟨hname, hkept⟩ := List.forall_mem_cons.mp hkept
      rcases matchOnce_tops side best resting with hnone | hsome
      · exact Or.inl ⟨hnone _ _, hnone _ _⟩
      · refine Or.inr ⟨_, _, _, hsome (front ++ watched :: behind) opposite,
          hsome (front ++ watched :: otherBehind) opposite, ?_⟩
        rw [settle_append, settle_append]
        have hnames : NoneNamed names (settle (tradedOwn side best resting) front ++ [watched]) := by
          rw [← settle_append]
          intro order hmem
          rcases mem_settle hmem with ⟨rfl, -⟩ | hmem
          · exact hname
          · exact hkept order hmem
        exact Rests.common ⟨rfl, rfl, hmark, hprice, hnames, noneMarked_settle hbest hfront,
          hbehind, hotherBehind, hsettled best⟩

/-- The loop reports the same for the marked order and leaves both books alike. -/
theorem Common.iterations {last otherLast : OrderBook γ} {trades otherTrades : List (Trade γ)}
    (h : Common mark side names price book other) (hiter : Iterations book trades last)
    (returns : last.matchOnce = none) (hother : Iterations other otherTrades otherLast)
    (otherReturns : otherLast.matchOnce = none) :
    Common mark side names price last otherLast ∧
      marked mark (tradeReports trades) = marked mark (tradeReports otherTrades) := by
  induction hiter generalizing other otherTrades with
  | done book =>
    rcases h with ⟨front, watched, behind, otherBehind, opposite, hrests⟩ | ⟨hbook, hunmarked⟩
    · rcases hrests.matchOnce with ⟨-, hnone⟩ | ⟨_, _, _, hsome, -⟩
      · cases hother with
        | done => exact ⟨hrests.common, rfl⟩
        | trade once _ =>
          rw [hnone] at once
          cases once
      · rw [returns] at hsome
        cases hsome
    · obtain ⟨hlast, hreports⟩ := hunmarked.iterations hother
      exact ⟨Or.inr ⟨hbook, hlast⟩, hreports.symm⟩
  | @trade book next last trade trades once rest ih =>
    rcases h with ⟨front, watched, behind, otherBehind, opposite, hrests⟩ | ⟨hbook, hunmarked⟩
    · rcases hrests.matchOnce with ⟨hnone, -⟩ | ⟨made, after, otherNext, hsome, hotherSome, hnext⟩
      · rw [hnone] at once
        cases once
      · rw [hsome] at once
        cases once
        cases hother with
        | done =>
          rw [otherReturns] at hotherSome
          cases hotherSome
        | trade otherOnce otherRest =>
          rw [hotherSome] at otherOnce
          cases otherOnce
          obtain ⟨hlast, hreports⟩ := ih hnext returns otherRest
          refine ⟨hlast, ?_⟩
          rw [tradeReports_cons, tradeReports_cons, marked_append, marked_append, hreports]
    · obtain ⟨hlast, hreports⟩ := hbook.iterations (.trade once rest)
      obtain ⟨hotherLast, hotherReports⟩ := hunmarked.iterations hother
      exact ⟨Or.inr ⟨hlast, hotherLast⟩, hreports.trans hotherReports.symm⟩

/-! ## Insertion -/

/-- An order that is in both runs. -/
theorem Common.insert {order : Order γ} (h : Common mark side names price book other)
    (horder : mark order.origin = false)
    (hkept : order.JoinsSide side → names order.clientOrderID order.sessionId = false) :
    Common mark side names price (book.insert order) (other.insert order) := by
  rcases h with ⟨front, watched, behind, otherBehind, opposite, rfl, rfl, hmark, hprice, hnames,
    hfront, hbehind, hotherBehind, hopposite⟩ | ⟨hbook, hother⟩
  · by_cases hjoins : order.JoinsSide side
    · rcases insert_own hjoins front watched with ⟨ahead, hahead, hinsert⟩ | hinsert
      · have hnames' : NoneNamed names (ahead ++ [watched]) := by
          obtain ⟨hfrontNames, hwatched⟩ := noneNamed_append.mp hnames
          refine noneNamed_append.mpr ⟨fun resting hmem => ?_, hwatched⟩
          rcases (hahead resting).mp hmem with rfl | hmem
          · exact hkept hjoins
          · exact hfrontNames resting hmem
        exact Rests.common ⟨hinsert _ _, hinsert _ _, hmark, hprice, hnames',
          noneMarked_insert hfront horder hahead, hbehind, hotherBehind, hopposite⟩
      · obtain ⟨next, hnext, hbook⟩ := hinsert behind
        obtain ⟨otherNext, hotherNext, hother⟩ := hinsert otherBehind
        exact Rests.common ⟨hbook _, hother _, hmark, hprice, hnames, hfront,
          noneMarked_insert hbehind horder hnext,
          noneMarked_insert hotherBehind horder hotherNext, hopposite⟩
    · obtain ⟨next, hnext, hinsert⟩ := insert_opposite hjoins opposite
      exact Rests.common ⟨hinsert _, hinsert _, hmark, hprice, hnames, hfront, hbehind,
        hotherBehind, noneMarked_insert hopposite horder hnext⟩
  · exact Or.inr ⟨hbook.insert horder, hother.insert horder⟩

/-- The marked order comes into a book that has it in common with itself. -/
theorem Unmarked.insert_common {order : Order γ} (h : book.Unmarked mark)
    (hnamed : ∀ resting ∈ book.own order.side,
      names resting.clientOrderID resting.sessionId = false)
    (ordered : book.PriceOrdered) (hmark : mark order.origin = true)
    (hname : names order.clientOrderID order.sessionId = false) :
    Common mark order.side names order.price (book.insert order) (book.insert order) := by
  obtain ⟨front, back, hsplit, hinsert, -, -⟩ := insert_between ordered order
  obtain ⟨hown, hopposite⟩ := h.sides order.side
  rw [hsplit] at hown hnamed
  have hback : NoneMarked mark back := fun resting hmem =>
    hown resting (List.mem_append_right _ hmem)
  refine Rests.common ⟨hinsert, hinsert, hmark, rfl, ?_, fun resting hmem =>
    hown resting (List.mem_append_left _ hmem), hback, hback, hopposite⟩
  exact noneNamed_append.mpr ⟨fun resting hmem => hnamed resting (List.mem_append_left _ hmem),
    fun resting hmem => by rwa [List.mem_singleton.mp hmem]⟩

/-- An order that does not beat the watched one beats nobody in front of it. -/
theorem not_beats_front {order : Order γ} (joins : order.JoinsSide side)
    (ordered : (facing side (front ++ watched :: behind) opposite).PriceOrdered)
    (hbeats : ¬ order.Beats watched) : ∀ resting ∈ front ++ [watched], ¬ order.Beats resting := by
  intro resting hmem
  rcases List.mem_append.mp hmem with hmem | hmem
  · unfold Order.Beats at *
    unfold facing at ordered
    by_cases hside : side = .buy
    · simp only [joins.mpr hside, hside, if_true] at *
      have hahead := (List.pairwise_append.mp ordered.bids).2.2 resting hmem watched
        List.mem_cons_self
      exact fun h => hbeats (lt_of_le_of_lt (not_lt.mp hahead) h)
    · have horder : ¬ order.side = .buy := fun h => hside (joins.mp h)
      simp only [horder, hside, if_false] at *
      have hahead := (List.pairwise_append.mp ordered.asks).2.2 resting hmem watched
        List.mem_cons_self
      exact fun h => hbeats (lt_of_lt_of_le h (not_lt.mp hahead))
  · obtain rfl := List.mem_singleton.mp hmem
    exact hbeats

/-- An order that is in one run only and comes behind: it does not trade while the marked
order rests. -/
theorem Common.newOrder_behind {order : Order γ} {next : OrderBook γ}
    {reports : List (OutgoingMessage γ)} (h : Common mark side names price book other)
    (settled : book.Settled) (horder : mark order.origin = false) (joins : order.JoinsSide side)
    (hbeats : ∀ resting : Order γ, resting.price = price → ¬ order.Beats resting)
    (hrun : book.newOrder order = some (next, reports)) :
    Common mark side names price next other ∧ marked mark reports = [] := by
  obtain ⟨trades, hiter, hreturns, rfl⟩ := newOrder_cases hrun
  rcases h with ⟨front, watched, behind, otherBehind, opposite, hrests⟩ | ⟨hbook, hother⟩
  · have hnone := matchOnce_uncrossed settled.uncrossed
    have hordered := settled.ordered
    rw [hrests.book] at hordered hnone hiter
    have hpast := not_beats_front joins hordered (hbeats watched hrests.price)
    obtain ⟨later, hlater, hinsert⟩ := insert_behind joins hpast behind opposite
    simp only [List.append_assoc, List.singleton_append] at hinsert
    rw [hinsert] at hiter
    have hlaterMarked := noneMarked_insert hrests.behind horder hlater
    -- The tops of both sides are the same with the order and without it.
    have hinserted : Rests mark side names price
        (facing side (front ++ watched :: later) opposite)
        (facing side (front ++ watched :: behind) opposite) front watched later behind opposite :=
      ⟨rfl, rfl, hrests.isMarked, hrests.price, hrests.kept, hrests.front, hlaterMarked,
        hrests.behind, hrests.opposite⟩
    rcases hinserted.matchOnce with ⟨hstays, -⟩ | ⟨_, _, _, -, hsome, -⟩
    · cases hiter with
      | trade once _ =>
        rw [hstays] at once
        cases once
      | done =>
        exact ⟨Rests.common ⟨rfl, hrests.other, hrests.isMarked, hrests.price, hrests.kept,
          hrests.front, hlaterMarked, hrests.otherBehind, hrests.opposite⟩, rfl⟩
    · rw [hnone] at hsome
      cases hsome
  · obtain ⟨hlast, hreports⟩ := (hbook.insert horder).iterations hiter
    exact ⟨Or.inr ⟨hlast, hother⟩, hreports⟩

/-! ## Cancels -/

theorem cancelOrder_nonSupported (book : OrderBook γ) {request : Order γ}
    (hrequest : request.side = .nonSupported) (origClientOrderID : Bytes) :
    book.cancelOrder request origClientOrderID = (book, cancelReports none request) := by
  rw [cancelOrder, hrequest]
  rfl

section Cancel

variable (hside : side = .buy ∨ side = .sell) (sided : book.Sided) {request : Order γ}
  (hrequest : mark request.origin = false) {origClientOrderID : Bytes}

include hside sided hrequest

/-- A cancel of the own side under a name that is taken out finds nothing in front. -/
theorem Common.cancelOrder_behind (h : Common mark side names price book other)
    (hown : request.side = side) (hnamed : names origClientOrderID request.sessionId = true) :
    Common mark side names price (book.cancelOrder request origClientOrderID).1 other ∧
      marked mark (book.cancelOrder request origClientOrderID).2 = [] := by
  rcases h with ⟨front, watched, behind, otherBehind, opposite, rfl, hother, hmark, hprice,
    hkept, hfront, hbehind, hotherBehind, hopposite⟩ | ⟨hbook, hother⟩
  · have hnot : ∀ order ∈ front ++ [watched],
        ¬ sameClientOrder origClientOrderID request.sessionId order = true := by
      intro order hmem hfound
      obtain ⟨hclient, hsession⟩ := sameClientOrder_iff.mp hfound
      have hname := hkept order hmem
      rw [hclient, hsession, hnamed] at hname
      cases hname
    rw [cancelOrder_own hside sided origClientOrderID hown]
    rcases firstMatch_around (sameClientOrder origClientOrderID request.sessionId) front watched with
      ⟨order, hfind, -⟩ | ⟨hfound, -⟩ | ⟨-, hback⟩
    · exact absurd (List.find?_some hfind)
        (hnot order (List.mem_append_left _ (List.mem_of_find?_eq_some hfind)))
    · exact absurd hfound (hnot watched (List.mem_append_right _ List.mem_cons_self))
    · rw [(hback behind).1, (hback behind).2]
      exact ⟨Rests.common ⟨rfl, hother, hmark, hprice, hkept, hfront, noneMarked_eraseP hbehind _,
        hotherBehind, hopposite⟩, marked_cancelReports_find hbehind hrequest _⟩
  · obtain ⟨hlast, hreports⟩ := hbook.cancelOrder hrequest origClientOrderID
    exact ⟨Or.inr ⟨hlast, hother⟩, hreports⟩

/-- A cancel that is in both runs. -/
theorem Common.cancelOrder (h : Common mark side names price book other)
    (otherSided : other.Sided) :
    Common mark side names price (book.cancelOrder request origClientOrderID).1
        (other.cancelOrder request origClientOrderID).1 ∧
      marked mark (book.cancelOrder request origClientOrderID).2 =
        marked mark (other.cancelOrder request origClientOrderID).2 := by
  rcases h with ⟨front, watched, behind, otherBehind, opposite, rfl, rfl, hmark, hprice,
    hkept, hfront, hbehind, hotherBehind, hopposite⟩ | ⟨hbook, hother⟩
  · by_cases hown : request.side = side
    · rw [cancelOrder_own hside sided origClientOrderID hown,
        cancelOrder_own hside otherSided origClientOrderID hown]
      rcases firstMatch_around (sameClientOrder origClientOrderID request.sessionId) front watched
        with ⟨found, -, hahead⟩ | ⟨-, hwatched⟩ | ⟨-, hback⟩
      · rw [(hahead behind).1, (hahead behind).2, (hahead otherBehind).1, (hahead otherBehind).2]
        obtain ⟨hnames, hname⟩ := noneNamed_append.mp hkept
        have hkept' : NoneNamed names
            (front.eraseP (sameClientOrder origClientOrderID request.sessionId) ++ [watched]) :=
          noneNamed_append.mpr
            ⟨fun order hmem => hnames order (List.mem_of_mem_eraseP hmem), hname⟩
        exact ⟨Rests.common ⟨rfl, rfl, hmark, hprice, hkept', noneMarked_eraseP hfront _, hbehind,
          hotherBehind, hopposite⟩, rfl⟩
      · rw [(hwatched behind).1, (hwatched behind).2, (hwatched otherBehind).1,
          (hwatched otherBehind).2]
        exact ⟨Or.inr ⟨unmarked_facing (List.forall_mem_append.mpr ⟨hfront, hbehind⟩) hopposite,
          unmarked_facing (List.forall_mem_append.mpr ⟨hfront, hotherBehind⟩) hopposite⟩, rfl⟩
      · rw [(hback behind).1, (hback behind).2, (hback otherBehind).1, (hback otherBehind).2,
          marked_cancelReports_find hbehind hrequest,
          marked_cancelReports_find hotherBehind hrequest]
        exact ⟨Rests.common ⟨rfl, rfl, hmark, hprice, hkept, hfront, noneMarked_eraseP hbehind _,
          noneMarked_eraseP hotherBehind _, hopposite⟩, rfl⟩
    · by_cases hsided : request.side = .nonSupported
      · rw [cancelOrder_nonSupported _ hsided, cancelOrder_nonSupported _ hsided]
        exact ⟨Rests.common ⟨rfl, rfl, hmark, hprice, hkept, hfront, hbehind, hotherBehind,
          hopposite⟩, rfl⟩
      · rw [cancelOrder_opposite hside sided origClientOrderID hown hsided,
          cancelOrder_opposite hside otherSided origClientOrderID hown hsided]
        exact ⟨Rests.common ⟨rfl, rfl, hmark, hprice, hkept, hfront, hbehind, hotherBehind,
          noneMarked_eraseP hopposite _⟩, rfl⟩
  · obtain ⟨hlast, hreports⟩ := hbook.cancelOrder hrequest origClientOrderID
    obtain ⟨hotherLast, hotherReports⟩ := hother.cancelOrder hrequest origClientOrderID
    exact ⟨Or.inr ⟨hlast, hotherLast⟩, hreports.trans hotherReports.symm⟩

end Cancel

end OrderBook

/-! ## Tasks -/

/-- The tasks of the run: an admitted order that is not the marked one, and, if it is taken
out, no order that beats the price. -/
structure Task.Allowed (mark : γ → Bool) (side : OrderSide) (names : Bytes → Nat → Bool)
    (price : ℚ) (task : Task γ) : Prop where
  admitted : task.Admitted
  unmarked : mark task.order.origin = false
  behind : task.isNewOrder = true → task.takenOut side names = true →
    ∀ resting : Order γ, resting.price = price → ¬ task.order.Beats resting

namespace BookLog

/-- The two logs between two tasks. -/
structure Agree (mark : γ → Bool) (side : OrderSide) (names : Bytes → Nat → Bool) (price : ℚ)
    (log other : BookLog γ) : Prop where
  settled : log.book.Settled
  otherSettled : other.book.Settled
  sided : log.book.Sided
  otherSided : other.book.Sided
  common : OrderBook.Common mark side names price log.book other.book
  reports : marked mark log.reports = marked mark other.reports

variable {mark : γ → Bool} {side : OrderSide} {names : Bytes → Nat → Bool} {price : ℚ}
  {log next other : BookLog γ} {task : Task γ}

/-- A book between two tasks stays settled and sided. -/
theorem runTask_keeps (settled : log.book.Settled) (sided : log.book.Sided)
    (admitted : task.Admitted) (h : log.runTask task = some next) :
    next.book.Settled ∧ next.book.Sided := by
  obtain ⟨⟨book, reports⟩, hrun, rfl⟩ := Option.map_eq_some_iff.mp h
  cases task with
  | newOrder order =>
    obtain ⟨trades, hiter, -, -⟩ := OrderBook.newOrder_cases hrun
    have hinserted : (log.book.insert order).Sided := OrderBook.insert_holds sided id
      fun hside => admitted.2.resolve_left hside
    exact ⟨OrderBook.newOrder_settled settled admitted.1.balanced hrun,
      (OrderBook.sided_closed.iterations hinserted hiter).2⟩
  | cancelOrder request origClientOrderID =>
    have hbook := congrArg Prod.fst (Option.some.inj hrun)
    dsimp only at hbook
    rw [← hbook]
    exact ⟨OrderBook.cancelOrder_settled settled request origClientOrderID,
      OrderBook.sided_closed.cancelOrder sided request origClientOrderID⟩

theorem joinsSide_iff {order : Order γ} (hside : side = .buy ∨ side = .sell)
    (horder : order.side = .buy ∨ order.side = .sell) : order.JoinsSide side ↔ order.side = side := by
  unfold Order.JoinsSide
  rcases hside with rfl | rfl
  · simp
  · rcases horder with h | h
    · simp [h]
    · simp [h]

/-- A task that is taken out leaves the logs in agreement. -/
theorem Agree.hidden (hside : side = .buy ∨ side = .sell)
    (h : Agree mark side names price log other) (allowed : task.Allowed mark side names price)
    (hrun : log.runTask task = some next) (hout : task.takenOut side names = true) :
    Agree mark side names price next other := by
  obtain ⟨hsettled, hsided⟩ := runTask_keeps h.settled h.sided allowed.admitted hrun
  have hkeeps : OrderBook.Common mark side names price next.book other.book ∧
      ∃ reports, next.reports = log.reports ++ reports ∧ marked mark reports = [] := by
    obtain ⟨⟨book, reports⟩, htask, rfl⟩ := Option.map_eq_some_iff.mp hrun
    cases task with
    | newOrder order =>
      have hbehind := allowed.behind rfl hout
      simp only [Task.takenOut, Bool.and_eq_true, beq_iff_eq] at hout
      have hjoins := (joinsSide_iff hside allowed.admitted.2).mpr hout.1
      obtain ⟨hcommon, hreports⟩ :=
        h.common.newOrder_behind h.settled allowed.unmarked hjoins hbehind htask
      exact ⟨hcommon, reports, rfl, hreports⟩
    | cancelOrder request origClientOrderID =>
      simp only [Task.takenOut, Bool.and_eq_true, beq_iff_eq] at hout
      have hrequest : mark request.origin = false := allowed.unmarked
      obtain ⟨hcommon, hreports⟩ :=
        h.common.cancelOrder_behind hside h.sided hrequest hout.1 hout.2
      have hcancel := Option.some.inj htask
      rw [hcancel] at hcommon hreports
      exact ⟨hcommon, reports, rfl, hreports⟩
  obtain ⟨hcommon, reports, hnext, hnone⟩ := hkeeps
  refine ⟨hsettled, h.otherSettled, hsided, h.otherSided, hcommon, ?_⟩
  rw [hnext, marked_append, hnone, List.append_nil, h.reports]

/-- A task that both runs make. -/
theorem Agree.visible (hside : side = .buy ∨ side = .sell)
    (h : Agree mark side names price log other) (allowed : task.Allowed mark side names price)
    (hrun : log.runTask task = some next) (hkept : task.takenOut side names = false) :
    ∃ otherNext, other.runTask task = some otherNext ∧
      Agree mark side names price next otherNext := by
  obtain ⟨hsettled, hsided⟩ := runTask_keeps h.settled h.sided allowed.admitted hrun
  have hreturns : ∃ book reports, other.book.runTask task = some (book, reports) := by
    refine OrderBook.runTask_returns h.otherSettled.balanced fun hnew => ?_
    cases task with
    | newOrder order => exact allowed.admitted.1.balanced
    | cancelOrder request origClientOrderID => cases hnew
  obtain ⟨otherBook, otherReports, hother⟩ := hreturns
  have hotherRun : other.runTask task = some ⟨otherBook, other.reports ++ otherReports⟩ := by
    rw [runTask, hother]
    rfl
  obtain ⟨hotherSettled, hotherSided⟩ :=
    runTask_keeps h.otherSettled h.otherSided allowed.admitted hotherRun
  obtain ⟨⟨book, reports⟩, htask, rfl⟩ := Option.map_eq_some_iff.mp hrun
  have hsame : OrderBook.Common mark side names price book otherBook ∧
      marked mark reports = marked mark otherReports := by
    cases task with
    | newOrder order =>
      obtain ⟨trades, hiter, hreturns, rfl⟩ := OrderBook.newOrder_cases htask
      obtain ⟨otherTrades, hotherIter, hotherReturns, rfl⟩ := OrderBook.newOrder_cases hother
      have hnamed : order.JoinsSide side →
          names order.clientOrderID order.sessionId = false := fun hjoins => by
        have hown := (joinsSide_iff hside allowed.admitted.2).mp hjoins
        simpa [Task.takenOut, hown] using hkept
      have hinserted := h.common.insert allowed.unmarked hnamed
      exact hinserted.iterations hiter hreturns hotherIter hotherReturns
    | cancelOrder request origClientOrderID =>
      have hrequest : mark request.origin = false := allowed.unmarked
      have hcancel : OrderBook.Common mark side names price
            (log.book.cancelOrder request origClientOrderID).1
            (other.book.cancelOrder request origClientOrderID).1 ∧
          marked mark (log.book.cancelOrder request origClientOrderID).2 =
            marked mark (other.book.cancelOrder request origClientOrderID).2 :=
        h.common.cancelOrder hside h.sided hrequest h.otherSided
      rwa [Option.some.inj htask, Option.some.inj hother] at hcancel
  refine ⟨_, hotherRun, hsettled, hotherSettled, hsided, hotherSided, hsame.1, ?_⟩
  rw [marked_append, marked_append, hsame.2, h.reports]

theorem run_keeps {tasks : List (Task γ)} (admitted : ∀ task ∈ tasks, task.Admitted)
    (hrun : run runTask {} tasks = some log) : log.book.Settled ∧ log.book.Sided :=
  run_induction_along (fun _ log => log.book.Settled ∧ log.book.Sided)
    ⟨OrderBook.empty_settled, OrderBook.empty_holds⟩
    (fun _ _ _ _ _ h (hadmitted : Task.Admitted _) hstep => runTask_keeps h.1 h.2 hadmitted hstep)
    hrun (along_of_mem admitted)

/-- The tasks before the marked order: nothing marked rests, and nothing of the side under a
name that is taken out. -/
theorem run_before {before : List (Task γ)}
    (admitted : ∀ task ∈ before, task.Admitted)
    (unmarked : ∀ task ∈ before, mark task.order.origin = false)
    (kept : ∀ task ∈ before, task.takenOut side names = false)
    (hrun : run runTask {} before = some log) :
    log.book.Settled ∧ log.book.Sided ∧
      log.Holds (fun order => mark order.origin = false ∧
          (side = .buy → names order.clientOrderID order.sessionId = false))
        (fun order => mark order.origin = false ∧
          (side = .sell → names order.clientOrderID order.sessionId = false))
        fun report => mark report.order.origin = false := by
  have hrule : ReportRule (γ := γ) (fun order => mark order.origin = false ∧
        (side = .buy → names order.clientOrderID order.sessionId = false))
      (fun order => mark order.origin = false ∧
        (side = .sell → names order.clientOrderID order.sessionId = false))
      fun report => mark report.order.origin = false :=
    { closed := {
        trade := fun _ _ hb ha _ => by
          unfold fillReport
          exact ⟨hb.1, ha.1⟩
        tradedBid := fun _ _ hb _ _ _ => hb
        tradedAsk := fun _ _ _ ha _ _ => ha
        canceledBid := fun _ hb => hb
        canceledAsk := fun _ ha => ha }
      canceledBid := fun _ hb => hb.1
      canceledAsk := fun _ ha => ha.1 }
  have hmeets : ∀ task ∈ before, task.Meets (fun order => mark order.origin = false ∧
        (side = .buy → names order.clientOrderID order.sessionId = false))
      (fun order => mark order.origin = false ∧
        (side = .sell → names order.clientOrderID order.sessionId = false))
      fun report => mark report.order.origin = false := by
    intro task hmem
    have hmark := unmarked task hmem
    have hout := kept task hmem
    cases task with
    | cancelOrder request origClientOrderID => exact hmark
    | newOrder order =>
      have hside := (admitted _ hmem).2
      refine ⟨fun hbuy => ⟨hmark, fun h => ?_⟩, fun hnot => ⟨hmark, fun h => ?_⟩⟩
      · simpa [Task.takenOut, hbuy, h] using hout
      · simpa [Task.takenOut, hside.resolve_left hnot, h] using hout
  obtain ⟨hsettled, hsided⟩ := run_keeps admitted hrun
  exact ⟨hsettled, hsided, hrule.run before empty_holds hmeets hrun⟩

theorem mem_own {book : OrderBook γ} {order : Order γ}
    (hside : side = .buy ∨ side = .sell) (h : order ∈ book.own side) :
    side = .buy ∧ order ∈ book.bidOrders ∨ side = .sell ∧ order ∈ book.askOrders := by
  rcases hside with rfl | rfl
  · exact Or.inl ⟨rfl, h⟩
  · exact Or.inr ⟨rfl, h⟩

/-- Up to its arrival both runs are the same, and then it rests in both books or has left. -/
theorem agree_arrival {before : List (Task γ)} {order : Order γ}
    (admitted : ∀ task ∈ before ++ [.newOrder order], task.Admitted)
    (unmarked : ∀ task ∈ before, mark task.order.origin = false)
    (kept : ∀ task ∈ before, task.takenOut order.side names = false)
    (hmark : mark order.origin = true)
    (hname : names order.clientOrderID order.sessionId = false)
    (hrun : run runTask {} (before ++ [.newOrder order]) = some log) :
    Agree mark order.side names order.price log log := by
  obtain ⟨hbefore, harrival⟩ := List.forall_mem_append.mp admitted
  have hside : order.side = .buy ∨ order.side = .sell := (harrival _ List.mem_cons_self).2
  obtain ⟨earlier, hearlier, hstep⟩ := run_snoc_some hrun
  obtain ⟨hsettled, hsided, hholds⟩ := run_before hbefore unmarked kept hearlier
  obtain ⟨hlast, hlastSided⟩ :=
    runTask_keeps hsettled hsided (harrival _ List.mem_cons_self) hstep
  have hunmarked : earlier.book.Unmarked mark :=
    ⟨fun resting hmem => (hholds.book.bids resting hmem).1,
      fun resting hmem => (hholds.book.asks resting hmem).1⟩
  have hnamed : ∀ resting ∈ earlier.book.own order.side,
      names resting.clientOrderID resting.sessionId = false := by
    intro resting hmem
    rcases mem_own hside hmem with ⟨hbuy, hbid⟩ | ⟨hsell, hask⟩
    · exact (hholds.book.bids resting hbid).2 hbuy
    · exact (hholds.book.asks resting hask).2 hsell
  have hinserted := hunmarked.insert_common hnamed hsettled.ordered hmark hname
  obtain ⟨⟨book, reports⟩, htask, rfl⟩ := Option.map_eq_some_iff.mp hstep
  obtain ⟨trades, hiter, hreturns, -⟩ := OrderBook.newOrder_cases htask
  exact ⟨hlast, hlast, hlastSided, hlastSided,
    (hinserted.iterations hiter hreturns hiter hreturns).1, rfl⟩

/-- Without the later orders of the side that do not beat it, and their cancels, the marked
order has the same reports, and rests with the same quantities if it does. -/
theorem run_takenOut {before after : List (Task γ)} {order : Order γ}
    (admitted : ∀ task ∈ before ++ .newOrder order :: after, task.Admitted)
    (unmarked : ∀ task ∈ before ++ after, mark task.order.origin = false)
    (kept : ∀ task ∈ before, task.takenOut order.side names = false)
    (hmark : mark order.origin = true)
    (hname : names order.clientOrderID order.sessionId = false)
    (behind : ∀ later, .newOrder later ∈ after →
      (Task.newOrder later).takenOut order.side names = true → ¬ later.Beats order)
    (hrun : run runTask {} (before ++ .newOrder order :: after) = some log)
    (hother : run runTask {} (before ++ .newOrder order ::
      after.filter fun task => !task.takenOut order.side names) = some other) :
    marked mark log.reports = marked mark other.reports ∧
      (log.book.orders.filter fun resting => mark resting.origin) =
        other.book.orders.filter fun resting => mark resting.origin := by
  have hsplit (rest : List (Task γ)) :
      before ++ .newOrder order :: rest = (before ++ [.newOrder order]) ++ rest := by simp
  rw [hsplit] at admitted hrun hother
  obtain ⟨hfront, hafter⟩ := List.forall_mem_append.mp admitted
  obtain ⟨hbefore, hlater⟩ := List.forall_mem_append.mp unmarked
  rw [run_append] at hrun hother
  obtain ⟨arrived, harrived, hrest⟩ := Option.bind_eq_some_iff.mp hrun
  rw [harrived, Option.bind_some] at hother
  have hagree := agree_arrival hfront hbefore kept hmark hname harrived
  have hside : order.side = .buy ∨ order.side = .sell :=
    (hfront _ (List.mem_append_right _ List.mem_cons_self)).2
  have hallowed : ∀ task ∈ after, task.Allowed mark order.side names order.price := by
    intro task hmem
    refine ⟨hafter task hmem, hlater task hmem, fun hnew hout resting hprice => ?_⟩
    cases task with
    | cancelOrder request origClientOrderID => cases hnew
    | newOrder later =>
      have hbeats := behind later hmem hout
      unfold Order.Beats at *
      rwa [hprice]
  obtain ⟨last, hlast, hagreed⟩ :
      ∃ last, run runTask arrived (after.filter fun task => !task.takenOut order.side names) =
        some last ∧ Agree mark order.side names order.price log last :=
    run_filter (fun h allowed hstep hout => h.hidden hside allowed hstep (by simpa using hout))
      (fun h allowed hstep hout => h.visible hside allowed hstep (by simpa using hout))
      hagree hallowed hrest
  rw [hlast] at hother
  cases hother
  exact ⟨hagreed.reports, hagreed.common.resting⟩

/-- A replay of the tasks without their numbers. -/
theorem run_unnumbered {tasks : List (Task γ)} (h : run runTask {} tasks = some log) :
    run runTask {} (tasks.map Task.unnumbered) = some log.unnumbered := by
  have hcovered : ∀ task ∈ tasks, OrderBook.Covered Order.unnumbered task :=
    fun _ _ => Or.inr Order.unnumbered_keeps
  have hrun := mapOrders_run Order.unnumbered_forgets hcovered {}
  rw [h, ← funext Task.unnumbered_eq] at hrun
  exact hrun

end BookLog

theorem marked_unnumbered (mark : γ → Bool) (reports : List (OutgoingMessage γ)) :
    marked mark (reports.map OutgoingMessage.unnumbered) =
      (marked mark reports).map OutgoingMessage.unnumbered := by
  unfold marked
  rw [List.filter_map]
  rfl

theorem OrderBook.resting_unnumbered (mark : γ → Bool) (book : OrderBook γ) :
    (book.unnumbered.orders.filter fun resting => mark resting.origin) =
      (book.orders.filter fun resting => mark resting.origin).map Order.unnumbered := by
  have horders : book.unnumbered.orders = book.orders.map Order.unnumbered :=
    mapOrders_orders book
  rw [horders, List.filter_map]
  rfl

theorem Task.takenOut_unnumbered (side : OrderSide) (names : Bytes → Nat → Bool) (task : Task γ) :
    task.unnumbered.takenOut side names = task.takenOut side names := by
  cases task with
  | newOrder order => rfl
  | cancelOrder request origClientOrderID => rfl

/-- The calls for the security of the marked order, before it and after it: those that are
taken out come after it, and none of their orders beats it. -/
structure Watched (mark : γ → Bool) (names : Bytes → Nat → Bool) (order : Order γ)
    (before after : List (Task γ)) : Prop where
  admitted : ∀ call ∈ before ++ .newOrder order :: after, call.Admitted
  marked : mark order.origin = true
  unmarked : ∀ call ∈ before ++ after, mark call.order.origin = false
  named : names order.clientOrderID order.sessionId = false
  kept : ∀ call ∈ before, call.takenOut order.side names = false
  behind : ∀ later, .newOrder later ∈ after →
    (Task.newOrder later).takenOut order.side names = true → ¬ later.Beats order

/-- What is asked of the calls does not depend on the order numbers. -/
theorem Watched.unnumbered {mark : γ → Bool} {names : Bytes → Nat → Bool} {order : Order γ}
    {before after : List (Task γ)} (h : Watched mark names order before after) :
    Watched mark names order.unnumbered (before.map Task.unnumbered)
      (after.map Task.unnumbered) where
  admitted := by
    have hlist : before.map Task.unnumbered ++ .newOrder order.unnumbered ::
        after.map Task.unnumbered =
          (before ++ .newOrder order :: after).map Task.unnumbered := by
      rw [List.map_append, List.map_cons]
      rfl
    rw [hlist]
    intro call hmem
    obtain ⟨task, htask, rfl⟩ := List.mem_map.mp hmem
    have hadmitted := h.admitted task htask
    cases task with
    | newOrder order => exact ⟨hadmitted.1.setOrderId 0, hadmitted.2⟩
    | cancelOrder request origClientOrderID => trivial
  marked := h.marked
  unmarked := by
    rw [← List.map_append]
    intro call hmem
    obtain ⟨task, htask, rfl⟩ := List.mem_map.mp hmem
    have hmark := h.unmarked task htask
    cases task with
    | newOrder order => exact hmark
    | cancelOrder request origClientOrderID => exact hmark
  named := h.named
  kept := by
    intro call hmem
    obtain ⟨task, htask, rfl⟩ := List.mem_map.mp hmem
    rw [Task.takenOut_unnumbered]
    exact h.kept task htask
  behind := by
    intro later hmem hout
    obtain ⟨task, htask, heq⟩ := List.mem_map.mp hmem
    cases task with
    | cancelOrder request origClientOrderID => cases heq
    | newOrder called =>
      cases heq
      exact h.behind called htask hout

/-- The orders of a side that come after a resting order at no better price, and their cancels,
change nothing for it: a run whose calls for the security are the same without them, under any
interleaving, makes the same reports for the order and leaves it with the same quantities. -/
theorem later_orders_behind (symbols otherSymbols : List Bytes) (multithreaded otherMode : Bool)
    (labels otherLabels : List (Label γ)) (system other : System γ)
    (h : run System.step (System.configured symbols multithreaded) labels = some system)
    (h' : run System.step (System.configured otherSymbols otherMode) otherLabels = some other)
    (drained : system.Quiescent) (otherDrained : other.Quiescent)
    (mark : γ → Bool) (names : Bytes → Nat → Bool) (order : Order γ) (before after : List (Task γ))
    (watched : Watched mark names order before after)
    (calls : ((callsOf labels).filter fun call => call.securityId == order.securityId) =
      before ++ .newOrder order :: after)
    (otherCalls : ((callsOf otherLabels).filter fun call => call.securityId == order.securityId) =
      before ++ .newOrder order :: after.filter fun call => !call.takenOut order.side names) :
    (marked mark (system.central.taskReports order.securityId)).map OutgoingMessage.unnumbered =
        (marked mark (other.central.taskReports order.securityId)).map
          OutgoingMessage.unnumbered ∧
      ((system.central.book order.securityId).orders.filter fun resting =>
          mark resting.origin).map Order.unnumbered =
        ((other.central.book order.securityId).orders.filter fun resting =>
          mark resting.origin).map Order.unnumbered := by
  obtain ⟨hsim, -⟩ := System.run_simulates symbols multithreaded h
  obtain ⟨hotherSim, -⟩ := System.run_simulates otherSymbols otherMode h'
  obtain ⟨log, hlog, hbook, hreports⟩ := hsim.drained drained order.securityId
  obtain ⟨otherLog, hotherLog, hotherBook, hotherReports⟩ :=
    hotherSim.drained otherDrained order.securityId
  have hrun := BookLog.run_unnumbered hlog
  have hotherRun := BookLog.run_unnumbered hotherLog
  unfold requestsOf at hrun hotherRun
  rw [numberCalls_unnumbered, calls, List.map_append, List.map_cons] at hrun
  rw [numberCalls_unnumbered, otherCalls, List.map_append, List.map_cons] at hotherRun
  have hfilter : (after.filter fun call => !call.takenOut order.side names).map Task.unnumbered =
      (after.map Task.unnumbered).filter fun call => !call.takenOut order.side names := by
    rw [List.filter_map]
    exact congrArg (List.map Task.unnumbered) (List.filter_congr fun task _ => by
      rw [Function.comp_apply, Task.takenOut_unnumbered])
  rw [hfilter] at hotherRun
  have hwatched := watched.unnumbered
  obtain ⟨hmarked, hresting⟩ := BookLog.run_takenOut hwatched.admitted hwatched.unmarked
    hwatched.kept hwatched.marked hwatched.named hwatched.behind hrun hotherRun
  rw [hbook, hotherBook, hreports, hotherReports]
  refine ⟨?_, ?_⟩
  · rwa [BookLog.unnumbered, BookLog.unnumbered, marked_unnumbered, marked_unnumbered] at hmarked
  · rwa [BookLog.unnumbered, BookLog.unnumbered, OrderBook.resting_unnumbered,
      OrderBook.resting_unnumbered] at hresting

/-- Single-threaded mode drains with every call. -/
theorem quiescent_of_calls {symbols : List Bytes} {calls : List (Task γ)} {system : System γ}
    (h : run System.step (System.configured symbols false) (calls.map Task.label) = some system) :
    system.Quiescent := by
  rw [System.run_label rfl (System.configured_mode symbols)] at h
  obtain ⟨central, -, rfl⟩ := Option.map_eq_some_iff.mp h
  exact ⟨fun _ => rfl, fun _ => rfl, rfl⟩

/-- A call for the first security. -/
def callAt (clientOrderID : String) (side : OrderSide) (price : ℚ) (quantity : Int)
    (watched : Bool) : Task Bool :=
  .newOrder (.new 0 (ascii clientOrderID) 0 0 side .limit price quantity watched)

/-- The order is `A`; `X` comes behind it at the same price, and `C` trades with both. -/
def behindCalls : List (Task Bool) :=
  [callAt "B" .sell 9 2 false, callAt "A" .sell 10 5 true, callAt "X" .sell 10 3 false,
    callAt "C" .buy 10 9 false]

theorem behindCalls_watched : Watched id (fun clientID _ => clientID == ascii "X")
    (.new 0 (ascii "A") 0 0 .sell .limit 10 5 true) [callAt "B" .sell 9 2 false]
    [callAt "X" .sell 10 3 false, callAt "C" .buy 10 9 false] where
  admitted := by
    intro call hmem
    simp only [List.cons_append, List.nil_append, List.mem_cons, List.not_mem_nil, or_false]
      at hmem
    rcases hmem with rfl | rfl | rfl | rfl
    all_goals exact ⟨Order.new_fresh _ _ _ _ _ _ _ (by decide) _, by decide⟩
  marked := rfl
  unmarked := by decide
  named := by decide
  kept := by decide
  behind := by
    intro later hmem hout
    simp only [callAt, List.mem_cons, Task.newOrder.injEq, List.not_mem_nil, or_false] at hmem
    rcases hmem with rfl | rfl
    · exact lt_irrefl (10 : ℚ)
    · cases hout

theorem later_orders_behind_sharedPrice :
    ∃ system other : System Bool,
      run System.step (System.configured [ascii "AAPL"] false) (behindCalls.map Task.label) =
        some system ∧
      run System.step (System.configured [ascii "AAPL"] false)
        ((behindCalls.eraseIdx 2).map Task.label) = some other ∧
      (marked id (system.central.taskReports 0)).map OutgoingMessage.unnumbered =
        (marked id (other.central.taskReports 0)).map OutgoingMessage.unnumbered := by
  obtain ⟨system, hrun⟩ := Option.isSome_iff_exists.mp (by decide +kernel :
    (run System.step (System.configured [ascii "AAPL"] false)
      (behindCalls.map Task.label)).isSome = true)
  obtain ⟨other, hother⟩ := Option.isSome_iff_exists.mp (by decide +kernel :
    (run System.step (System.configured [ascii "AAPL"] false)
      ((behindCalls.eraseIdx 2).map Task.label)).isSome = true)
  refine ⟨system, other, hrun, hother, ?_⟩
  exact (later_orders_behind [ascii "AAPL"] [ascii "AAPL"] false false _ _ system other hrun hother
    (quiescent_of_calls hrun) (quiescent_of_calls hother) id (fun clientID _ => clientID == ascii "X")
    (.new 0 (ascii "A") 0 0 .sell .limit 10 5 true) [callAt "B" .sell 9 2 false]
    [callAt "X" .sell 10 3 false, callAt "C" .buy 10 9 false] behindCalls_watched rfl rfl).1

end LiteExchange.OrderMatcher
