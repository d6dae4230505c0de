import LiteExchange.OrderMatcher.OrderBook

/-!
# The matching loop terminates and leaves the book uncrossed

A trade executes the smaller of the two open quantities, so on balanced orders
it fills at least one side whatever the sign of the quantities, and every
iteration that trades erases an order. The size of the book is therefore the
measure of the loop. Where the loop returns, the best prices do not cross; since
the containers are ordered by price, no resting bid reaches any resting ask.
-/

namespace LiteExchange.OrderMatcher.OrderBook

open Foundation.PriorityList

variable {γ : Type}

/-- Every resting order satisfies `open + executed = quantity`, as a `long`. -/
def Balanced (book : OrderBook γ) : Prop := ∀ order ∈ book.orders, order.Balanced

/-- The containers are in key order: greatest bid first, lowest ask first. -/
structure PriceOrdered (book : OrderBook γ) : Prop where
  bids : book.bidOrders.Pairwise fun a b => ¬ b.price > a.price
  asks : book.askOrders.Pairwise fun a b => ¬ b.price < a.price

/-- No resting bid reaches a resting ask. -/
def Uncrossed (book : OrderBook γ) : Prop :=
  ∀ bid ∈ book.bidOrders, ∀ ask ∈ book.askOrders, bid.price < ask.price

theorem insert_balanced {book : OrderBook γ} {order : Order γ} (hbook : book.Balanced)
    (horder : order.Balanced) : (book.insert order).Balanced := by
  intro resting hmem
  rcases mem_insert.mp hmem with rfl | hmem
  · exact horder
  · exact hbook resting hmem

/-- On balanced orders a trade fills the side with the smaller open quantity. -/
theorem matchTwoOrders_fills {bid ask : Order γ} (hbid : bid.Balanced) (hask : ask.Balanced) :
    (matchTwoOrders bid ask).bid.isFilled = true ∨ (matchTwoOrders bid ask).ask.isFilled = true := by
  -- What is executed is all that is open on one side, and nothing is left there.
  have hnothing : ∀ value : Int, long (value - value) = 0 := by
    intro value
    rw [Int.sub_self]
    exact long_of_isLong isLong_zero
  by_cases hlarger : bid.openQuantity > ask.openQuantity
  · right
    refine (Order.isFilled_iff (Order.execute_balanced hask _ _)).mpr ?_
    rw [tradedQuantity, if_pos hlarger]
    exact hnothing ask.openQuantity
  · left
    refine (Order.isFilled_iff (Order.execute_balanced hbid _ _)).mpr ?_
    rw [tradedQuantity, if_neg hlarger]
    exact hnothing bid.openQuantity

theorem settle_length_le (traded : Order γ) (rest : List (Order γ)) :
    (settle traded rest).length ≤ rest.length + 1 := by
  unfold settle
  split
  · exact Nat.le_succ _
  · exact Nat.le_refl _

theorem settle_of_filled {traded : Order γ} (h : traded.isFilled = true) (rest : List (Order γ)) :
    settle traded rest = rest := by
  rw [settle, if_pos h]

/-- An iteration that trades starts with an order on each side, keeps the orders
balanced and leaves fewer of them. -/
theorem matchOnce_shrinks {book next : OrderBook γ} {trade : Trade γ} (hbook : book.Balanced)
    (h : book.matchOnce = some (trade, next)) :
    next.Balanced ∧ next.orders.length < book.orders.length ∧ 2 ≤ book.orders.length := by
  obtain ⟨bid, bids, ask, asks, rfl, -, rfl, rfl⟩ := matchOnce_cases h
  have hbid : bid.Balanced := hbook bid (by simp [orders])
  have hask : ask.Balanced := hbook ask (by simp [orders])
  refine ⟨?_, ?_, ?_⟩
  · intro resting hmem
    rcases List.mem_append.mp hmem with hmem | hmem
    · rcases mem_settle hmem with ⟨rfl, -⟩ | hmem
      · exact Order.execute_balanced hbid _ _
      · exact hbook resting (by simp [orders, hmem])
    · rcases mem_settle hmem with ⟨rfl, -⟩ | hmem
      · exact Order.execute_balanced hask _ _
      · exact hbook resting (by simp [orders, hmem])
  · simp only [orders, List.length_append, List.length_cons]
    have hbids := settle_length_le (matchTwoOrders bid ask).bid bids
    have hasks := settle_length_le (matchTwoOrders bid ask).ask asks
    rcases matchTwoOrders_fills hbid hask with hfilled | hfilled
    · rw [settle_of_filled hfilled]
      omega
    · rw [settle_of_filled hfilled]
      omega
  · simp only [orders, List.length_append, List.length_cons]
    omega

theorem Iterations.balanced {book last : OrderBook γ} {trades : List (Trade γ)}
    (h : Iterations book trades last) (hbook : book.Balanced) : last.Balanced :=
  h.invariant Balanced (fun _ _ _ hb once => (matchOnce_shrinks hb once).1) hbook

/-- The bound on the trades: every trade costs an order and needs two. -/
theorem Iterations.length_lt {book last : OrderBook γ} {trades : List (Trade γ)}
    (h : Iterations book trades last) (hbook : book.Balanced) :
    trades = [] ∨ trades.length + 1 ≤ book.orders.length := by
  induction h with
  | done => exact Or.inl rfl
  | trade once rest ih =>
    right
    have hstep := matchOnce_shrinks hbook once
    rcases ih hstep.1 with rfl | hlen
    · exact hstep.2.2
    · rw [List.length_cons]
      omega

/-- From a balanced book the loop comes to rest after finitely many trades. -/
theorem iterations_end (book : OrderBook γ) (hbook : book.Balanced) :
    ∃ trades last, Iterations book trades last ∧ last.matchOnce = none := by
  generalize hsize : book.orders.length = size
  induction size using Nat.strong_induction_on generalizing book with
  | _ size ih =>
    cases hmatch : book.matchOnce with
    | none => exact ⟨[], book, .done book, hmatch⟩
    | some result =>
      obtain ⟨trade, next⟩ := result
      obtain ⟨hnext, hlt, -⟩ := matchOnce_shrinks hbook hmatch
      obtain ⟨trades, last, hiter, hlast⟩ := ih _ (hsize ▸ hlt) next hnext rfl
      exact ⟨trade :: trades, last, .trade hmatch hiter, hlast⟩

/-- The specification of the loop on a balanced book, at every sufficient fuel. -/
theorem processMatchingLoop_balanced (book : OrderBook γ) (hbook : book.Balanced)
    (processed : List (Order γ)) :
    ∃ trades last, Iterations book trades last ∧ last.matchOnce = none ∧
      ∀ fuel, book.orders.length < fuel →
        processMatchingLoop fuel book processed =
          some (last, processed ++ trades.flatMap Trade.snapshots) := by
  obtain ⟨trades, last, hiter, hlast⟩ := iterations_end book hbook
  refine ⟨trades, last, hiter, hlast, fun fuel hfuel => ?_⟩
  refine processMatchingLoop_iff.mpr ⟨trades, hiter, hlast, rfl, ?_⟩
  rcases hiter.length_lt hbook with rfl | hlen
  · exact Nat.lt_of_le_of_lt (Nat.zero_le _) hfuel
  · omega

/-! ## Price order and crossing -/

theorem insert_priceOrdered {book : OrderBook γ} (hbook : book.PriceOrdered) (order : Order γ) :
    (book.insert order).PriceOrdered := by
  unfold insert
  split
  · exact ⟨pairwise_insert_price (· > ·) Order.price hbook.bids, hbook.asks⟩
  · exact ⟨hbook.bids, pairwise_insert_price (· < ·) Order.price hbook.asks⟩

/-- A traded order that stays on top keeps its place: its price did not change. -/
theorem pairwise_settle {ahead : Order γ → Order γ → Prop} {order traded : Order γ}
    {rest : List (Order γ)} (sorted : (order :: rest).Pairwise ahead)
    (same : ∀ other, ahead order other → ahead traded other) :
    (settle traded rest).Pairwise ahead := by
  have horder := List.pairwise_cons.mp sorted
  unfold settle
  split
  · exact horder.2
  · exact List.pairwise_cons.mpr ⟨fun other h => same other (horder.1 other h), horder.2⟩

theorem matchOnce_priceOrdered {book next : OrderBook γ} {trade : Trade γ}
    (hbook : book.PriceOrdered) (h : book.matchOnce = some (trade, next)) : next.PriceOrdered := by
  obtain ⟨bid, bids, ask, asks, rfl, -, rfl, rfl⟩ := matchOnce_cases h
  exact ⟨pairwise_settle hbook.bids fun _ h => h, pairwise_settle hbook.asks fun _ h => h⟩

theorem erase_priceOrdered {book : OrderBook γ} (hbook : book.PriceOrdered) (order : Order γ) :
    (book.erase order).PriceOrdered := by
  unfold erase
  split
  · exact ⟨hbook.bids.eraseP _, hbook.asks⟩
  · exact ⟨hbook.bids, hbook.asks.eraseP _⟩
  · exact hbook

theorem erase_uncrossed {book : OrderBook γ} (hbook : book.Uncrossed) (order : Order γ) :
    (book.erase order).Uncrossed := by
  unfold erase
  split
  · exact fun bid hbid ask hask => hbook bid (List.mem_of_mem_eraseP hbid) ask hask
  · exact fun bid hbid ask hask => hbook bid hbid ask (List.mem_of_mem_eraseP hask)
  · exact hbook

/-- Where the loop returns, the best prices do not cross, so by the order of the
containers no two prices do. -/
theorem uncrossed_of_matchOnce_none {book : OrderBook γ} (hbook : book.PriceOrdered)
    (h : book.matchOnce = none) : book.Uncrossed := by
  rcases matchOnce_none h with hbids | hasks | ⟨best, bids, low, asks, rfl, hlt⟩
  · intro bid hbid
    rw [hbids] at hbid
    exact absurd hbid List.not_mem_nil
  · intro bid _ ask hask
    rw [hasks] at hask
    exact absurd hask List.not_mem_nil
  · intro bid hbid ask hask
    have hbest : bid.price ≤ best.price := by
      rcases List.mem_cons.mp hbid with rfl | hbid
      · exact le_refl _
      · exact not_lt.mp ((List.pairwise_cons.mp hbook.bids).1 bid hbid)
    have hlow : low.price ≤ ask.price := by
      rcases List.mem_cons.mp hask with rfl | hask
      · exact le_refl _
      · exact not_lt.mp ((List.pairwise_cons.mp hbook.asks).1 ask hask)
    exact lt_of_le_of_lt hbest (lt_of_lt_of_le hlt hlow)

end LiteExchange.OrderMatcher.OrderBook
