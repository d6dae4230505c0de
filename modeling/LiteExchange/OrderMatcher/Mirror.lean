import LiteExchange.Foundation.RelatedLists
import LiteExchange.OrderMatcher.CancelFrame

/-!
# Buy and sell are mirror images

Source: order_book.h, order_book.cpp. Each operation of the book is written twice, for the bid
container with the greatest price on top and for the ask container with the lowest. The
mirror of an order rests on the other side at the negated price; both copies of the code
do the same with mirrored orders. A trade executes at the price of its ask order, so the
prices of executions are what the mirror does not keep.
-/

namespace LiteExchange.OrderMatcher

open Foundation.Ascii Foundation.PriorityList Foundation.RelatedLists

variable {γ : Type}

def OrderSide.mirror : OrderSide → OrderSide
  | .buy => .sell
  | .sell => .buy
  | .nonSupported => .nonSupported

namespace Order

def mirror (order : Order γ) : Order γ :=
  { order with side := order.side.mirror, price := -order.price }

/-- The order without the prices of its executions. -/
def unpriced (order : Order γ) : Order γ :=
  { order with averageExecutedPrice := 0, lastExecutedPrice := 0 }

/-- `other` is the mirror of the order, up to the prices of executions. -/
def Mirrors (order other : Order γ) : Prop := other.unpriced = order.mirror.unpriced

end Order

/-- The bid snapshot of one trade mirrors the ask snapshot of the other. -/
def Trade.Mirrors (trade other : Trade γ) : Prop :=
  trade.bid.Mirrors other.ask ∧ trade.ask.Mirrors other.bid

namespace OrderBook

def mirror (book : OrderBook γ) : OrderBook γ :=
  ⟨book.askOrders.map Order.mirror, book.bidOrders.map Order.mirror⟩

/-- `other` is the mirror of the book, up to the prices of executions. -/
def Mirrors (book other : OrderBook γ) : Prop :=
  List.Forall₂ Order.Mirrors book.bidOrders other.askOrders ∧
    List.Forall₂ Order.Mirrors book.askOrders other.bidOrders

end OrderBook

/-- The operations of an order book. -/
inductive Operation (γ : Type) where
  | insert (order : Order γ)
  | processMatching
  | cancel (order : Order γ) (origClientOrderID : Bytes)
  deriving DecidableEq, Repr

namespace Operation

def mirror : Operation γ → Operation γ
  | insert order => insert order.mirror
  | processMatching => processMatching
  | cancel order origClientOrderID => cancel order.mirror origClientOrderID

/-- `Runs book operations trades last`: the operations, one after the other, make these trades
and lead from `book` to `last`. The loop of `processMatching` runs until it returns. -/
inductive Runs : OrderBook γ → List (Operation γ) → List (Trade γ) → OrderBook γ → Prop
  | done (book : OrderBook γ) : Runs book [] [] book
  | insert {book last : OrderBook γ} {order : Order γ} {operations : List (Operation γ)}
      {trades : List (Trade γ)} (rest : Runs (book.insert order) operations trades last) :
      Runs book (insert order :: operations) trades last
  | processMatching {book next last : OrderBook γ} {operations : List (Operation γ)}
      {made trades : List (Trade γ)} (loop : OrderBook.Iterations book made next)
      (returns : next.matchOnce = none) (rest : Runs next operations trades last) :
      Runs book (processMatching :: operations) (made ++ trades) last
  | cancel {book last : OrderBook γ} {order : Order γ} {origClientOrderID : Bytes}
      {operations : List (Operation γ)} {trades : List (Trade γ)}
      (rest : Runs (book.cancelOrder order origClientOrderID).1 operations trades last) :
      Runs book (cancel order origClientOrderID :: operations) trades last

/-- An order that is inserted is a BUY or a SELL order. -/
def Sided (operations : List (Operation γ)) : Prop :=
  ∀ order, insert order ∈ operations → order.side = .buy ∨ order.side = .sell

end Operation

/-! ## Mirrored orders -/

@[simp] theorem OrderSide.mirror_mirror (side : OrderSide) : side.mirror.mirror = side := by
  cases side with
  | _ => rfl

namespace Order

@[simp] theorem mirror_mirror (order : Order γ) : order.mirror.mirror = order := by
  simp [mirror]

theorem mirrors_mirror (order : Order γ) : order.Mirrors order.mirror := rfl

namespace Mirrors

variable {order other : Order γ} (h : order.Mirrors other)

include h

/-- What does not depend on the prices of executions is the same. -/
theorem agree {α : Type*} (f : Order γ → α) : f other.unpriced = f order.mirror.unpriced :=
  congrArg f h

theorem symm : other.Mirrors order := by
  have hback : other.mirror.unpriced = order.mirror.mirror.unpriced :=
    h.agree fun o => o.mirror
  rw [mirror_mirror] at hback
  exact hback.symm

theorem side : other.side = order.side.mirror :=
  h.agree fun o => o.side

theorem price : other.price = -order.price := h.agree fun o => o.price

theorem openQuantity : other.openQuantity = order.openQuantity :=
  h.agree fun o => o.openQuantity

theorem isFilled : other.isFilled = order.isFilled :=
  h.agree fun o => o.executedQuantity == o.quantity

theorem clientOrderID : other.clientOrderID = order.clientOrderID :=
  h.agree fun o => o.clientOrderID

theorem sessionId : other.sessionId = order.sessionId :=
  h.agree fun o => o.sessionId

theorem cancel : order.cancel.Mirrors other.cancel :=
  h.agree fun o => o.cancel

/-- An execution changes the quantities alike, whatever its price. -/
theorem execute (price otherPrice : ℚ) (quantity : Int) :
    (order.execute price quantity).Mirrors (other.execute otherPrice quantity) := by
  have hexecuted := h.agree fun o : Order γ =>
    { o with
      openQuantity := long (o.openQuantity - quantity)
      executedQuantity := long (o.executedQuantity + quantity)
      lastExecutedQuantity := quantity }
  exact hexecuted

theorem sameClientOrder (clientID : Bytes) (sessionId : Nat) :
    OrderBook.sameClientOrder clientID sessionId order =
      OrderBook.sameClientOrder clientID sessionId other := by
  simp only [OrderBook.sameClientOrder, h.clientOrderID, h.sessionId]

end Mirrors

end Order

/-! ## Mirrored books -/

namespace OrderBook

variable {book other : OrderBook γ}

theorem mirrors_mirror (book : OrderBook γ) : book.Mirrors book.mirror := by
  unfold Mirrors mirror
  rw [List.forall₂_map_right_iff, List.forall₂_map_right_iff]
  exact ⟨List.forall₂_same.mpr fun order _ => order.mirrors_mirror,
    List.forall₂_same.mpr fun order _ => order.mirrors_mirror⟩

theorem forall₂_symm {orders others : List (Order γ)}
    (h : List.Forall₂ Order.Mirrors orders others) : List.Forall₂ Order.Mirrors others orders :=
  (h.imp fun _ _ mirrors => mirrors.symm).flip

theorem Mirrors.symm (h : book.Mirrors other) : other.Mirrors book :=
  ⟨forall₂_symm h.2, forall₂_symm h.1⟩

theorem Mirrors.container (h : book.Mirrors other) (side : OrderSide) :
    List.Forall₂ Order.Mirrors (book.container side) (other.container side.mirror) := by
  cases side with
  | nonSupported => exact .nil
  | buy => exact h.1
  | sell => exact h.2

/-- The opposite comparators of the containers agree on negated prices. -/
theorem Mirrors.insert {order otherOrder : Order γ} (h : book.Mirrors other)
    (horder : order.Mirrors otherOrder) (sided : order.side = .buy ∨ order.side = .sell) :
    (book.insert order).Mirrors (other.insert otherOrder) := by
  have hside := horder.side
  rcases sided with hbuy | hsell
  · have hother : ¬ otherOrder.side = .buy := by
      rw [hside, hbuy]
      decide
    rw [OrderBook.insert, if_pos hbuy, OrderBook.insert, if_neg hother]
    refine ⟨forall₂_orderedInsert ?_ h.1 horder, h.2⟩
    intro a b hab a' b' hab'
    rw [hab.price, hab'.price]
    exact neg_lt_neg_iff.symm
  · have hnot : ¬ order.side = .buy := by
      rw [hsell]
      decide
    have hother : otherOrder.side = .buy := by
      rw [hside, hsell]
      rfl
    rw [OrderBook.insert, if_neg hnot, OrderBook.insert, if_pos hother]
    refine ⟨h.1, forall₂_orderedInsert ?_ h.2 horder⟩
    intro a b hab a' b' hab'
    rw [hab.price, hab'.price]
    exact neg_lt_neg_iff.symm

theorem tradedQuantity_mirrors {bid ask otherBid otherAsk : Order γ} (hbid : bid.Mirrors otherAsk)
    (hask : ask.Mirrors otherBid) : tradedQuantity otherBid otherAsk = tradedQuantity bid ask := by
  unfold tradedQuantity
  rw [hbid.openQuantity, hask.openQuantity]
  split
  · rw [if_neg (by omega)]
  · split
    · rfl
    · omega

theorem matchTwoOrders_mirrors {bid ask otherBid otherAsk : Order γ} (hbid : bid.Mirrors otherAsk)
    (hask : ask.Mirrors otherBid) :
    (matchTwoOrders bid ask).Mirrors (matchTwoOrders otherBid otherAsk) := by
  have hquantity := tradedQuantity_mirrors hbid hask
  unfold matchTwoOrders
  rw [hquantity]
  exact ⟨hbid.execute _ _ _, hask.execute _ _ _⟩

theorem settle_mirrors {traded otherTraded : Order γ} {rest otherRest : List (Order γ)}
    (h : traded.Mirrors otherTraded) (hrest : List.Forall₂ Order.Mirrors rest otherRest) :
    List.Forall₂ Order.Mirrors (settle traded rest) (settle otherTraded otherRest) := by
  unfold settle
  rw [h.isFilled]
  split
  · exact hrest
  · exact .cons h hrest

/-- One iteration: the best orders of both sides trade exactly when their mirrors do. -/
theorem Mirrors.matchOnce (h : book.Mirrors other) :
    Option.Rel (fun result otherResult => result.1.Mirrors otherResult.1 ∧
      result.2.Mirrors otherResult.2) book.matchOnce other.matchOnce := by
  obtain ⟨bidOrders, askOrders⟩ := book
  obtain ⟨otherBids, otherAsks⟩ := other
  obtain ⟨hbids, hasks⟩ := h
  cases hbids with
  | nil =>
    cases hasks with
    | _ => exact .none
  | @cons bid otherAsk bids otherAsks hbid hbids =>
    cases hasks with
    | nil => exact .none
    | @cons ask otherBid asks otherBids hask hasks =>
      unfold OrderBook.matchOnce
      dsimp only
      have hcross : otherBid.price ≥ otherAsk.price ↔ bid.price ≥ ask.price := by
        rw [hbid.price, hask.price]
        exact neg_le_neg_iff
      rw [if_congr hcross rfl rfl]
      have htrade := matchTwoOrders_mirrors hbid hask
      split
      · exact .some ⟨htrade, settle_mirrors htrade.1 hbids, settle_mirrors htrade.2 hasks⟩
      · exact .none

theorem Mirrors.iterations {next : OrderBook γ} {trades : List (Trade γ)}
    (h : book.Mirrors other) (hiter : Iterations book trades next) :
    ∃ otherTrades otherNext, Iterations other otherTrades otherNext ∧
      List.Forall₂ Trade.Mirrors trades otherTrades ∧ next.Mirrors otherNext := by
  induction hiter generalizing other with
  | done book => exact ⟨[], other, .done other, .nil, h⟩
  | @trade book next last trade trades once rest ih =>
    have hmatch := h.matchOnce
    rw [once] at hmatch
    cases hother : other.matchOnce with
    | none =>
      rw [hother] at hmatch
      cases hmatch
    | some result =>
      rw [hother] at hmatch
      cases hmatch with
      | some hresult =>
        obtain ⟨otherTrades, otherLast, hrest, htrades, hlast⟩ := ih hresult.2
        exact ⟨_, otherLast, .trade hother hrest, .cons hresult.1 htrades, hlast⟩

theorem Mirrors.returns (h : book.Mirrors other) (returns : book.matchOnce = none) :
    other.matchOnce = none := by
  have hmatch := h.matchOnce
  rw [returns] at hmatch
  cases hother : other.matchOnce with
  | none => rfl
  | some result =>
    rw [hother] at hmatch
    cases hmatch

theorem Mirrors.cancelFound (h : book.Mirrors other) (clientID : Bytes) (sessionId : Nat)
    (side : OrderSide) :
    (book.cancelFound clientID sessionId side).Mirrors
      (other.cancelFound clientID sessionId side.mirror) := by
  have hflag {orders others : List (Order γ)} (hlist : List.Forall₂ Order.Mirrors orders others) :
      List.Forall₂ Order.Mirrors
        (modifyFirst (sameClientOrder clientID sessionId) Order.cancel orders)
        (modifyFirst (sameClientOrder clientID sessionId) Order.cancel others) :=
    forall₂_modifyFirst (fun _ _ mirrors => mirrors.sameClientOrder clientID sessionId)
      (fun _ _ mirrors => mirrors.cancel) hlist
  cases side with
  | nonSupported => exact h
  | buy => exact ⟨hflag h.1, h.2⟩
  | sell => exact ⟨h.1, hflag h.2⟩

theorem Mirrors.erase {order otherOrder : Order γ} (h : book.Mirrors other)
    (horder : order.Mirrors otherOrder) : (book.erase order).Mirrors (other.erase otherOrder) := by
  have hlist {orders others : List (Order γ)} (hlist : List.Forall₂ Order.Mirrors orders others) :
      List.Forall₂ Order.Mirrors
        (orders.eraseP (sameClientOrder order.clientOrderID order.sessionId))
        (others.eraseP (sameClientOrder order.clientOrderID order.sessionId)) :=
    forall₂_eraseP (fun _ _ mirrors => mirrors.sameClientOrder _ _) hlist
  unfold OrderBook.erase
  rw [horder.side, horder.clientOrderID, horder.sessionId]
  cases order.side with
  | nonSupported => exact h
  | buy => exact ⟨hlist h.1, h.2⟩
  | sell => exact ⟨h.1, hlist h.2⟩

/-- The copies of `find` and `erase` stop at the mirrored element. -/
theorem Mirrors.cancelOrder {order otherOrder : Order γ} (h : book.Mirrors other)
    (horder : order.Mirrors otherOrder) (origClientOrderID : Bytes) :
    (book.cancelOrder order origClientOrderID).1.Mirrors
      (other.cancelOrder otherOrder origClientOrderID).1 := by
  have hfind : Option.Rel Order.Mirrors (book.find origClientOrderID order.sessionId order.side)
      (other.find origClientOrderID otherOrder.sessionId otherOrder.side) := by
    rw [find_eq, find_eq, horder.side, horder.sessionId]
    exact forall₂_find? (fun _ _ mirrors => mirrors.sameClientOrder _ _) (h.container order.side)
  have hflagged := h.cancelFound origClientOrderID order.sessionId order.side
  rw [← horder.side, ← horder.sessionId] at hflagged
  unfold OrderBook.cancelOrder
  generalize book.find origClientOrderID order.sessionId order.side = found at hfind ⊢
  generalize other.find origClientOrderID otherOrder.sessionId otherOrder.side = otherFound
    at hfind ⊢
  cases hfind with
  | none => exact h
  | some hfound =>
    rw [horder.sessionId] at hflagged ⊢
    exact hflagged.erase hfound.cancel

end OrderBook

/-! ## Mirrored runs -/

namespace Operation

variable {book other : OrderBook γ} {operations : List (Operation γ)}

@[simp] theorem mirror_mirror (operation : Operation γ) : operation.mirror.mirror = operation := by
  cases operation with
  | processMatching => rfl
  | insert order => simp [mirror]
  | cancel order origClientOrderID => simp [mirror]

theorem map_mirror_mirror (operations : List (Operation γ)) :
    (operations.map mirror).map mirror = operations := by
  simp [List.map_map, Function.comp_def]

theorem Sided.mirror (sided : Sided operations) : Sided (operations.map Operation.mirror) := by
  intro order hmem
  obtain ⟨operation, hoperation, heq⟩ := List.mem_map.mp hmem
  cases operation with
  | processMatching => cases heq
  | cancel order origClientOrderID => cases heq
  | insert inserted =>
    cases heq
    rcases sided inserted hoperation with h | h
    · exact Or.inr (congrArg OrderSide.mirror h)
    · exact Or.inl (congrArg OrderSide.mirror h)

theorem Sided.tail {operation : Operation γ} (sided : Sided (operation :: operations)) :
    Sided operations := fun order hmem => sided order (List.mem_cons_of_mem operation hmem)

/-- What a run makes of a book, the mirrored run makes of its mirror. -/
theorem Runs.mirrored {last : OrderBook γ} {trades : List (Trade γ)}
    (runs : Runs book operations trades last) (sided : Sided operations) (h : book.Mirrors other) :
    ∃ otherTrades otherLast, Runs other (operations.map Operation.mirror) otherTrades otherLast ∧
      List.Forall₂ Trade.Mirrors trades otherTrades ∧ last.Mirrors otherLast := by
  induction runs generalizing other with
  | done book => exact ⟨[], other, .done other, .nil, h⟩
  | @insert book last order operations trades rest ih =>
    have horder := sided order List.mem_cons_self
    obtain ⟨otherTrades, otherLast, hruns, htrades, hlast⟩ :=
      ih sided.tail (h.insert order.mirrors_mirror horder)
    exact ⟨otherTrades, otherLast, .insert hruns, htrades, hlast⟩
  | @processMatching book next last operations made trades loop returns rest ih =>
    obtain ⟨otherMade, otherNext, hloop, hmade, hnext⟩ := h.iterations loop
    obtain ⟨otherTrades, otherLast, hruns, htrades, hlast⟩ := ih sided.tail hnext
    exact ⟨otherMade ++ otherTrades, otherLast,
      .processMatching hloop (hnext.returns returns) hruns, List.rel_append hmade htrades, hlast⟩
  | @cancel book last order origClientOrderID operations trades rest ih =>
    obtain ⟨otherTrades, otherLast, hruns, htrades, hlast⟩ :=
      ih sided.tail (h.cancelOrder order.mirrors_mirror origClientOrderID)
    exact ⟨otherTrades, otherLast, .cancel hruns, htrades, hlast⟩

theorem iterations_unique {next otherNext : OrderBook γ} {trades otherTrades : List (Trade γ)}
    (loop : OrderBook.Iterations book trades next) (returns : next.matchOnce = none)
    (otherLoop : OrderBook.Iterations book otherTrades otherNext)
    (otherReturns : otherNext.matchOnce = none) : trades = otherTrades ∧ next = otherNext := by
  induction loop generalizing otherTrades with
  | done book =>
    cases otherLoop with
    | done => exact ⟨rfl, rfl⟩
    | trade once rest => rw [returns] at once; cases once
  | trade once rest ih =>
    cases otherLoop with
    | done => rw [otherReturns] at once; cases once
    | trade otherOnce otherRest =>
      rw [once] at otherOnce
      cases otherOnce
      obtain ⟨rfl, rfl⟩ := ih returns otherRest
      exact ⟨rfl, rfl⟩

/-- A run is determined by its operations. -/
theorem Runs.unique {last otherLast : OrderBook γ} {trades otherTrades : List (Trade γ)}
    (runs : Runs book operations trades last) (otherRuns : Runs book operations otherTrades otherLast) :
    trades = otherTrades ∧ last = otherLast := by
  induction runs generalizing otherTrades with
  | done book =>
    cases otherRuns with
    | done => exact ⟨rfl, rfl⟩
  | insert rest ih =>
    cases otherRuns with
    | insert otherRest => exact ih otherRest
  | cancel rest ih =>
    cases otherRuns with
    | cancel otherRest => exact ih otherRest
  | processMatching loop returns rest ih =>
    cases otherRuns with
    | processMatching otherLoop otherReturns otherRest =>
      obtain ⟨rfl, rfl⟩ := iterations_unique loop returns otherLoop otherReturns
      obtain ⟨rfl, rfl⟩ := ih otherRest
      exact ⟨rfl, rfl⟩

/-- On balanced orders every operation returns. -/
theorem returns_of_balanced (hbook : book.Balanced)
    (hinserted : ∀ order, insert order ∈ operations → order.Balanced) :
    ∃ trades last, Runs book operations trades last := by
  induction operations generalizing book with
  | nil => exact ⟨[], book, .done book⟩
  | cons operation operations ih =>
    have htail : ∀ order, insert order ∈ operations → order.Balanced :=
      fun order hmem => hinserted order (List.mem_cons_of_mem operation hmem)
    cases operation with
    | insert order =>
      obtain ⟨trades, last, runs⟩ :=
        ih (OrderBook.insert_balanced hbook (hinserted order List.mem_cons_self)) htail
      exact ⟨trades, last, .insert runs⟩
    | processMatching =>
      obtain ⟨made, next, loop, returns⟩ := OrderBook.iterations_end book hbook
      obtain ⟨trades, last, runs⟩ := ih (loop.balanced hbook) htail
      exact ⟨made ++ trades, last, .processMatching loop returns runs⟩
    | cancel order origClientOrderID =>
      obtain ⟨trades, last, runs⟩ :=
        ih (OrderBook.cancelOrder_balanced hbook order origClientOrderID) htail
      exact ⟨trades, last, .cancel runs⟩

/-- The operations return on a book exactly when the mirrored ones return on its mirror, and then
the trades are mirrored one by one and so is the book at the end. -/
theorem runs_mirror (book : OrderBook γ) (operations : List (Operation γ))
    (sided : Sided operations) :
    ((∃ trades last, Runs book operations trades last) ↔
      ∃ trades last, Runs book.mirror (operations.map mirror) trades last) ∧
    ∀ trades last otherTrades otherLast, Runs book operations trades last →
      Runs book.mirror (operations.map mirror) otherTrades otherLast →
      List.Forall₂ Trade.Mirrors trades otherTrades ∧ last.Mirrors otherLast := by
  refine ⟨⟨?_, ?_⟩, ?_⟩
  · rintro ⟨trades, last, runs⟩
    obtain ⟨otherTrades, otherLast, hruns, -, -⟩ := runs.mirrored sided book.mirrors_mirror
    exact ⟨otherTrades, otherLast, hruns⟩
  · rintro ⟨trades, last, runs⟩
    obtain ⟨otherTrades, otherLast, hruns, -, -⟩ :=
      runs.mirrored sided.mirror book.mirrors_mirror.symm
    rw [map_mirror_mirror] at hruns
    exact ⟨otherTrades, otherLast, hruns⟩
  · intro trades last otherTrades otherLast runs otherRuns
    obtain ⟨mirroredTrades, mirroredLast, hruns, htrades, hlast⟩ :=
      runs.mirrored sided book.mirrors_mirror
    obtain ⟨rfl, rfl⟩ := hruns.unique otherRuns
    exact ⟨htrades, hlast⟩

/-- Two bids, an ask that crosses both and a cancel of what is left of it. -/
def crossingOperations : List (Operation Unit) :=
  [.insert (.new 1 (ascii "1") 0 0 .buy .limit 10 5 ()),
    .insert (.new 2 (ascii "2") 0 0 .buy .limit 11 4 ()),
    .insert (.new 3 (ascii "3") 0 1 .sell .limit 9 12 ()), .processMatching,
    .cancel (.new 4 (ascii "4") 0 1 .sell .limit 0 0 ()) (ascii "3")]

theorem mem_crossingOperations {order : Order Unit} (h : insert order ∈ crossingOperations) :
    (order.side = .buy ∨ order.side = .sell) ∧ order.Balanced := by
  simp only [crossingOperations, List.mem_cons, insert.injEq, reduceCtorEq,
    List.not_mem_nil, or_false] at h
  rcases h with rfl | rfl | rfl
  all_goals decide

theorem runs_mirror_crossing :
    ∃ trades last, Runs ({} : OrderBook Unit).mirror (crossingOperations.map mirror) trades last :=
  (runs_mirror {} crossingOperations fun _ h => (mem_crossingOperations h).1).1.mp
    (returns_of_balanced (fun _ h => absurd h List.not_mem_nil)
      fun _ h => (mem_crossingOperations h).2)

end Operation

end LiteExchange.OrderMatcher
