import LiteExchange.Foundation.Allocation
import LiteExchange.OrderMatcher.Uncrossed

/-!
# What one incoming order does

Source: `OrderBook::insert` followed by `OrderBook::processMatching`. The loop reads both
tops of the book after each trade. On an uncrossed book an order that can trade goes to
the top of its own side and stays there until it is filled, so the loop is a sweep over
the other side: its quantity is shared out over the acceptable orders in their order.
-/

namespace LiteExchange.OrderMatcher

open Foundation.Allocation Foundation.PriorityList

variable {γ : Type}

namespace Order

/-- The price of a resting order is acceptable to an incoming one. -/
def Accepts (incoming resting : Order γ) : Prop :=
  if incoming.side = .buy then resting.price ≤ incoming.price else incoming.price ≤ resting.price

instance (incoming resting : Order γ) : Decidable (incoming.Accepts resting) :=
  inferInstanceAs (Decidable (if incoming.side = .buy then resting.price ≤ incoming.price
    else incoming.price ≤ resting.price))

/-- A trade is made at the price of the ask. -/
def tradePrice (incoming resting : Order γ) : ℚ :=
  if incoming.side = .buy then resting.price else incoming.price

/-- An order of this side comes in front of the other one, whenever it arrives. -/
def Beats (incoming resting : Order γ) : Prop :=
  if incoming.side = .buy then incoming.price > resting.price else incoming.price < resting.price

end Order

/-- The snapshot of the order that was already in the book. -/
def Trade.resting (side : OrderSide) (trade : Trade γ) : Order γ :=
  if side = .buy then trade.ask else trade.bid

namespace OrderBook

/-- The container of the incoming order's own side. -/
def own (book : OrderBook γ) (side : OrderSide) : List (Order γ) :=
  if side = .buy then book.bidOrders else book.askOrders

def opposite (book : OrderBook γ) (side : OrderSide) : List (Order γ) :=
  if side = .buy then book.askOrders else book.bidOrders

def facing (side : OrderSide) (own opposite : List (Order γ)) : OrderBook γ :=
  if side = .buy then ⟨own, opposite⟩ else ⟨opposite, own⟩

/-- The orders that the incoming one can trade with, in their order, each with its share: the
smaller of its open quantity and what is still unfilled. -/
def sharesOf (incoming : Order γ) (acceptable : List (Order γ)) : List (Order γ × Int) :=
  acceptable.zip (shares incoming.openQuantity (acceptable.map Order.openQuantity))

/-- Those of them that trade. -/
def tradesOf (incoming : Order γ) (acceptable : List (Order γ)) : List (Order γ × Int) :=
  (sharesOf incoming acceptable).filter fun given => 0 < given.2

/-- A resting order after the sweep; one that gives nothing is not touched. -/
def afterSweep (incoming : Order γ) (given : Order γ × Int) : Order γ :=
  if 0 < given.2 then given.1.execute (incoming.tradePrice given.1) given.2 else given.1

/-- The acceptable orders after the sweep: who is filled leaves. -/
def leftOf (incoming : Order γ) (acceptable : List (Order γ)) : List (Order γ) :=
  ((sharesOf incoming acceptable).map (afterSweep incoming)).filter fun resting =>
    0 < resting.openQuantity

/-- What is left of the incoming order after all these trades. -/
def remainder (incoming : Order γ) (trades : List (Order γ × Int)) : Order γ :=
  trades.foldl (fun order given => order.execute (incoming.tradePrice given.1) given.2) incoming

/-- The sweep of an incoming order over the orders of the other side that it accepts. -/
structure Sweeps (book : OrderBook γ) (incoming : Order γ) (acceptable others : List (Order γ))
    (trades : List (Trade γ)) (last : OrderBook γ) : Prop where
  split : book.opposite incoming.side = acceptable ++ others
  accepted : ∀ resting ∈ acceptable, incoming.Accepts resting
  refused : ∀ resting ∈ others, ¬ incoming.Accepts resting
  /-- Each positive share is one trade, in the order of the book. -/
  traded : trades.map (Trade.resting incoming.side) =
    (tradesOf incoming acceptable).map (afterSweep incoming)
  total : (trades.map fun trade => (trade.resting incoming.side).lastExecutedQuantity).sum =
    min incoming.quantity (acceptable.map Order.openQuantity).sum
  /-- Who is filled leaves; all others stay where they are. -/
  opposite : last.opposite incoming.side = leftOf incoming acceptable ++ others
  /-- A positive remainder rests behind its equals. -/
  rests : (acceptable.map Order.openQuantity).sum < incoming.quantity →
    (remainder incoming (tradesOf incoming acceptable)).openQuantity =
        incoming.quantity - (acceptable.map Order.openQuantity).sum ∧
      ∃ front back, book.own incoming.side = front ++ back ∧
        last.own incoming.side =
          front ++ remainder incoming (tradesOf incoming acceptable) :: back ∧
        (∀ resting ∈ front, ¬ incoming.Beats resting) ∧ ∀ resting ∈ back, incoming.Beats resting
  filled : incoming.quantity ≤ (acceptable.map Order.openQuantity).sum →
    last.own incoming.side = book.own incoming.side

/-! ## One trade of the sweep -/

theorem facing_own_opposite (book : OrderBook γ) (side : OrderSide) :
    facing side (book.own side) (book.opposite side) = book := by
  unfold facing own opposite
  split
  · rfl
  · rfl

@[simp] theorem own_facing (side : OrderSide) (first second : List (Order γ)) :
    (facing side first second).own side = first := by
  unfold facing own
  split
  · rfl
  · rfl

@[simp] theorem opposite_facing (side : OrderSide) (first second : List (Order γ)) :
    (facing side first second).opposite side = second := by
  unfold facing opposite
  split
  · rfl
  · rfl

theorem tradedQuantity_eq (bid ask : Order γ) :
    tradedQuantity bid ask = min bid.openQuantity ask.openQuantity := by
  unfold tradedQuantity
  split
  · omega
  · omega

theorem matchOnce_top {bid ask : Order γ} (bids asks : List (Order γ))
    (cross : ask.price ≤ bid.price) :
    matchOnce ⟨bid :: bids, ask :: asks⟩ =
      some (matchTwoOrders bid ask, ⟨settle (matchTwoOrders bid ask).bid bids,
        settle (matchTwoOrders bid ask).ask asks⟩) := if_pos cross

/-- Both tops of the book trade if the incoming order accepts the resting one. -/
theorem matchOnce_facing {incoming resting : Order γ} (behind rest : List (Order γ))
    (accepts : incoming.Accepts resting) :
    ∃ trade, matchOnce (facing incoming.side (incoming :: behind) (resting :: rest)) =
        some (trade, facing incoming.side
          (settle (incoming.execute (incoming.tradePrice resting)
            (min resting.openQuantity incoming.openQuantity)) behind)
          (settle (resting.execute (incoming.tradePrice resting)
            (min resting.openQuantity incoming.openQuantity)) rest)) ∧
      trade.resting incoming.side = resting.execute (incoming.tradePrice resting)
        (min resting.openQuantity incoming.openQuantity) := by
  unfold Order.Accepts at accepts
  unfold facing Order.tradePrice Trade.resting
  by_cases hside : incoming.side = .buy
  · simp only [hside, if_true] at accepts ⊢
    refine ⟨matchTwoOrders incoming resting, ?_, ?_⟩
    · rw [matchOnce_top behind rest accepts]
      simp only [matchTwoOrders, tradedQuantity_eq, min_comm]
    · simp only [matchTwoOrders, tradedQuantity_eq, min_comm]
  · simp only [hside, if_false] at accepts ⊢
    refine ⟨matchTwoOrders resting incoming, ?_, ?_⟩
    · rw [matchOnce_top rest behind accepts]
      simp only [matchTwoOrders, tradedQuantity_eq]
    · simp only [matchTwoOrders, tradedQuantity_eq]

theorem settle_balanced {traded : Order γ} (balanced : traded.Balanced) (rest : List (Order γ)) :
    settle traded rest = if traded.openQuantity = 0 then rest else traded :: rest := by
  unfold settle
  by_cases hopen : traded.openQuantity = 0
  · rw [if_pos ((Order.isFilled_iff balanced).mpr hopen), if_pos hopen]
  · rw [if_neg fun h => hopen ((Order.isFilled_iff balanced).mp h), if_neg hopen]

/-! ## The sweep over the acceptable orders -/

/-- What an incoming order needs of an acceptable one. -/
def Tradable (incoming resting : Order γ) : Prop :=
  incoming.Accepts resting ∧ resting.Balanced ∧ 0 < resting.openQuantity

theorem sharesOf_cons {incoming resting : Order γ} (fits : IsLong incoming.openQuantity)
    (unfilled : 0 ≤ incoming.openQuantity) (hopen : 0 ≤ resting.openQuantity)
    (rest : List (Order γ)) :
    sharesOf incoming (resting :: rest) =
      (resting, min resting.openQuantity incoming.openQuantity) ::
        sharesOf (incoming.execute (incoming.tradePrice resting)
          (min resting.openQuantity incoming.openQuantity)) rest := by
  have hleft := Order.execute_openQuantity fits (incoming.tradePrice resting)
    (le_min hopen unfilled) (min_le_right resting.openQuantity incoming.openQuantity)
  unfold sharesOf
  rw [hleft]
  rfl

theorem capacities_nonneg {incoming : Order γ} {acceptable : List (Order γ)}
    (tradable : ∀ resting ∈ acceptable, Tradable incoming resting) :
    ∀ capacity ∈ acceptable.map Order.openQuantity, 0 ≤ capacity := by
  intro capacity hmem
  obtain ⟨resting, hresting, rfl⟩ := List.mem_map.mp hmem
  exact (tradable resting hresting).2.2.le

/-- A filled order takes nothing more. -/
theorem sharesOf_filled {incoming : Order γ} {acceptable : List (Order γ)}
    (tradable : ∀ resting ∈ acceptable, Tradable incoming resting)
    (filled : incoming.openQuantity = 0) :
    tradesOf incoming acceptable = [] ∧ leftOf incoming acceptable = acceptable := by
  have hnone : ∀ given ∈ sharesOf incoming acceptable, ¬ 0 < given.2 := by
    intro given hgiven
    have hshare := List.of_mem_zip hgiven
    rw [filled] at hshare
    have hzero := shares_zero (capacities_nonneg tradable) given.2 hshare.2
    omega
  have hsame : (sharesOf incoming acceptable).map (afterSweep incoming) = acceptable := by
    calc (sharesOf incoming acceptable).map (afterSweep incoming)
        = (sharesOf incoming acceptable).map Prod.fst :=
          List.map_congr_left fun given hgiven => if_neg (hnone given hgiven)
      _ = acceptable := List.map_fst_zip (by rw [shares_length, List.length_map])
  refine ⟨?_, ?_⟩
  · rw [tradesOf, List.filter_eq_nil_iff]
    intro given hgiven
    simpa using hnone given hgiven
  · rw [leftOf, hsame, List.filter_eq_self]
    intro resting hresting
    simpa using (tradable resting hresting).2.2

theorem remainder_cons (incoming resting : Order γ) (share : Int)
    (trades : List (Order γ × Int)) :
    remainder incoming ((resting, share) :: trades) =
      remainder (incoming.execute (incoming.tradePrice resting) share) trades := rfl

/-- The loop is the sweep, from an incoming order on top of its own side. -/
theorem iterations_sweep {incoming : Order γ} {acceptable : List (Order γ)}
    (behind others : List (Order γ)) (balanced : incoming.Balanced)
    (unfilled : 0 < incoming.openQuantity)
    (tradable : ∀ resting ∈ acceptable, Tradable incoming resting) :
    ∃ trades, Iterations (facing incoming.side (incoming :: behind) (acceptable ++ others)) trades
        (facing incoming.side
          (settle (remainder incoming (tradesOf incoming acceptable)) behind)
          (leftOf incoming acceptable ++ others)) ∧
      trades.map (Trade.resting incoming.side) =
        (tradesOf incoming acceptable).map (afterSweep incoming) := by
  induction acceptable generalizing incoming with
  | nil =>
    have hrest : settle incoming behind = incoming :: behind := by
      rw [settle_balanced balanced, if_neg unfilled.ne']
    refine ⟨[], ?_, rfl⟩
    change Iterations _ [] (facing incoming.side (settle incoming behind) others)
    rw [hrest]
    exact .done _
  | cons resting rest ih =>
    obtain ⟨⟨haccepts, hbalanced, hopen⟩, hrest⟩ := List.forall_mem_cons.mp tradable
    obtain ⟨trade, honce, hresting⟩ := matchOnce_facing behind (rest ++ others) haccepts
    have hcons := sharesOf_cons balanced.openQuantity unfilled.le hopen.le rest
    generalize hshare : min resting.openQuantity incoming.openQuantity = share at *
    generalize hprice : incoming.tradePrice resting = price at *
    have hpositive : 0 < share := by omega
    have hkept : (resting.execute price share).openQuantity = resting.openQuantity - share :=
      Order.execute_openQuantity hbalanced.openQuantity price hpositive.le (by omega)
    have hremains : (incoming.execute price share).openQuantity = incoming.openQuantity - share :=
      Order.execute_openQuantity balanced.openQuantity price hpositive.le (by omega)
    have htrades : tradesOf incoming (resting :: rest) =
        (resting, share) :: tradesOf (incoming.execute price share) rest := by
      rw [tradesOf, hcons, List.filter_cons, if_pos (by simpa using hpositive)]
      rfl
    have hafter : afterSweep incoming (resting, share) = resting.execute price share := by
      rw [afterSweep, if_pos hpositive, hprice]
    have hremainder : remainder incoming (tradesOf incoming (resting :: rest)) =
        remainder (incoming.execute price share)
          (tradesOf (incoming.execute price share) rest) := by
      rw [htrades, remainder_cons, hprice]
    have hleft : leftOf incoming (resting :: rest) =
        if 0 < resting.openQuantity - share then
          resting.execute price share :: leftOf (incoming.execute price share) rest
        else leftOf (incoming.execute price share) rest := by
      rw [leftOf, hcons, List.map_cons, hafter, List.filter_cons, hkept]
      simp only [decide_eq_true_eq]
      rfl
    have hrestBalanced := Order.execute_balanced hbalanced price share
    have hincomingBalanced := Order.execute_balanced balanced price share
    rw [hremainder, htrades, List.map_cons, hafter, hleft]
    rw [settle_balanced hrestBalanced] at honce
    by_cases hfilled : (incoming.execute price share).openQuantity = 0
    · -- the incoming order is used up; this resting order may keep a part
      obtain ⟨hnone, hsame⟩ := @sharesOf_filled _ (incoming.execute price share) _ hrest hfilled
      rw [hnone, hsame]
      refine ⟨[trade], ?_, by rw [List.map_singleton, hresting]; rfl⟩
      have hdone := Iterations.trade honce (.done _)
      have hsettled : (if 0 < resting.openQuantity - share then
          resting.execute price share :: rest else rest) ++ others =
            if (resting.execute price share).openQuantity = 0 then rest ++ others
              else resting.execute price share :: (rest ++ others) := by
        have hnonneg : 0 ≤ resting.openQuantity - share := by omega
        rw [hkept]
        split
        · rw [if_neg (by omega), List.cons_append]
        · rw [if_pos (by omega)]
      rw [hsettled]
      exact hdone
    · have hwhole : (resting.execute price share).openQuantity = 0 := by omega
      have hmore : 0 < (incoming.execute price share).openQuantity := by omega
      obtain ⟨trades, hiter, hsnapshots⟩ := ih hincomingBalanced hmore hrest
      rw [settle_balanced hincomingBalanced, if_neg hfilled, if_pos hwhole] at honce
      rw [if_neg (by omega)]
      exact ⟨trade :: trades, .trade honce hiter, congrArg₂ _ hresting hsnapshots⟩

/-! ## The quantities of the sweep -/

theorem share_nonneg {incoming : Order γ} {acceptable : List (Order γ)}
    (unfilled : 0 ≤ incoming.openQuantity)
    (tradable : ∀ resting ∈ acceptable, Tradable incoming resting) :
    ∀ given ∈ sharesOf incoming acceptable, 0 ≤ given.2 := fun given hgiven =>
  shares_nonneg unfilled (capacities_nonneg tradable) given.2 (List.of_mem_zip hgiven).2

/-- The shares that trade add up to all shares. -/
theorem sum_positive {given : List (Order γ × Int)} (nonneg : ∀ share ∈ given, 0 ≤ share.2) :
    ((given.filter fun share => 0 < share.2).map Prod.snd).sum = (given.map Prod.snd).sum := by
  induction given with
  | nil => rfl
  | cons share given ih =>
    obtain ⟨hshare, hgiven⟩ := List.forall_mem_cons.mp nonneg
    rw [List.filter_cons]
    split
    · rw [List.map_cons, List.map_cons, List.sum_cons, List.sum_cons, ih hgiven]
    · rename_i hnone
      have hzero : share.2 = 0 := by simp only [decide_eq_true_eq] at hnone; omega
      rw [ih hgiven, List.map_cons, List.sum_cons, hzero, zero_add]

theorem sum_tradesOf {incoming : Order γ} {acceptable : List (Order γ)}
    (unfilled : 0 ≤ incoming.openQuantity)
    (tradable : ∀ resting ∈ acceptable, Tradable incoming resting) :
    ((tradesOf incoming acceptable).map Prod.snd).sum =
      min incoming.openQuantity (acceptable.map Order.openQuantity).sum := by
  rw [tradesOf, sum_positive (share_nonneg unfilled tradable), sharesOf,
    List.map_snd_zip (by rw [shares_length, List.length_map]),
    sum_shares unfilled (capacities_nonneg tradable)]

/-- No trade of the sweep wraps the open quantity, for none takes more than is open. -/
theorem remainder_openQuantity {incoming : Order γ} (fits : IsLong incoming.openQuantity)
    {trades : List (Order γ × Int)} (nonneg : ∀ given ∈ trades, 0 ≤ given.2)
    (within : (trades.map Prod.snd).sum ≤ incoming.openQuantity) :
    (remainder incoming trades).openQuantity =
      incoming.openQuantity - (trades.map Prod.snd).sum := by
  induction trades generalizing incoming with
  | nil => simp [remainder]
  | cons given trades ih =>
    obtain ⟨hgiven, hnonneg⟩ := List.forall_mem_cons.mp nonneg
    rw [List.map_cons, List.sum_cons] at within ⊢
    have hrest : 0 ≤ (trades.map Prod.snd).sum := by
      apply List.sum_nonneg
      intro share hshare
      obtain ⟨other, hother, rfl⟩ := List.mem_map.mp hshare
      exact hnonneg other hother
    have hopen := Order.execute_openQuantity fits (incoming.tradePrice given.1) hgiven (by omega)
    rw [remainder_cons, ih (isLong_long _) hnonneg (by omega), hopen]
    omega

theorem remainder_balanced {incoming : Order γ} (balanced : incoming.Balanced)
    (trades : List (Order γ × Int)) : (remainder incoming trades).Balanced := by
  induction trades generalizing incoming with
  | nil => exact balanced
  | cons given trades ih =>
    rw [remainder_cons]
    exact ih (Order.execute_balanced balanced _ _)

theorem remainder_price (incoming : Order γ) (trades : List (Order γ × Int)) :
    (remainder incoming trades).price = incoming.price := by
  induction trades generalizing incoming with
  | nil => rfl
  | cons given trades ih =>
    rw [remainder_cons, ih]
    rfl

/-- A trade of the list executes its share. -/
theorem lastExecutedQuantity_afterSweep (incoming : Order γ) (acceptable : List (Order γ)) :
    ((tradesOf incoming acceptable).map (afterSweep incoming)).map Order.lastExecutedQuantity =
      (tradesOf incoming acceptable).map Prod.snd := by
  rw [List.map_map]
  refine List.map_congr_left fun given hgiven => ?_
  have hpositive : 0 < given.2 := by simpa using (List.mem_filter.mp hgiven).2
  change (afterSweep incoming given).lastExecutedQuantity = given.2
  rw [afterSweep, if_pos hpositive]
  rfl

/-- If the acceptable orders do not suffice, all of them are filled. -/
theorem leftOf_exhausted {incoming : Order γ} {acceptable : List (Order γ)}
    (tradable : ∀ resting ∈ acceptable, Tradable incoming resting)
    (enough : (acceptable.map Order.openQuantity).sum ≤ incoming.openQuantity) :
    leftOf incoming acceptable = [] := by
  have hwhole : sharesOf incoming acceptable =
      acceptable.map fun resting => (resting, resting.openQuantity) := by
    rw [sharesOf, shares_of_sum_le (capacities_nonneg tradable) enough]
    simpa using List.zip_map' (f := id) (g := Order.openQuantity) (l := acceptable)
  rw [leftOf, hwhole, List.map_map, List.filter_eq_nil_iff]
  intro left hleft
  obtain ⟨resting, hresting, rfl⟩ := List.mem_map.mp hleft
  have hopen := (tradable resting hresting).2.2
  simp only [Function.comp, afterSweep, if_pos hopen, Order.execute, sub_self,
    long_of_isLong isLong_zero, lt_irrefl, decide_false, Bool.false_eq_true, not_false_iff]

theorem price_leftOf {incoming : Order γ} {acceptable : List (Order γ)} :
    ∀ left ∈ leftOf incoming acceptable, ∃ resting ∈ acceptable, left.price = resting.price := by
  intro left hleft
  obtain ⟨given, hgiven, rfl⟩ := List.mem_map.mp (List.mem_filter.mp hleft).1
  refine ⟨given.1, (List.of_mem_zip hgiven).1, ?_⟩
  unfold afterSweep
  split
  · rfl
  · rfl

/-! ## Insertion, and where the sweep ends -/

/-- An order lands between the resting ones of its side that it does not beat and the others. -/
theorem insert_between {book : OrderBook γ} (ordered : book.PriceOrdered) (incoming : Order γ) :
    ∃ front back, book.own incoming.side = front ++ back ∧
      book.insert incoming =
        facing incoming.side (front ++ incoming :: back) (book.opposite incoming.side) ∧
      (∀ resting ∈ front, ¬ incoming.Beats resting) ∧ ∀ resting ∈ back, incoming.Beats resting := by
  unfold Order.Beats own opposite facing insert
  by_cases hside : incoming.side = .buy
  · simp only [hside, if_true]
    obtain ⟨front, back, hsplit, hfront, hback⟩ :=
      split_of_pairwise (fun resting => ¬ incoming.price > resting.price) ordered.bids
        fun a b hab ha => by simp only [not_not] at ha ⊢; exact lt_of_le_of_lt (not_lt.mp hab) ha
    have hbeats : ∀ resting ∈ back, incoming.price > resting.price := fun resting hmem =>
      not_not.mp (hback resting hmem)
    have hinsert : (front ++ back).orderedInsert (fun a b => a.price > b.price) incoming =
        front ++ incoming :: back := orderedInsert_append hfront hbeats
    refine ⟨front, back, hsplit, ?_, hfront, hbeats⟩
    rw [hsplit, hinsert]
  · simp only [hside, if_false]
    obtain ⟨front, back, hsplit, hfront, hback⟩ :=
      split_of_pairwise (fun resting => ¬ incoming.price < resting.price) ordered.asks
        fun a b hab ha => by simp only [not_not] at ha ⊢; exact lt_of_lt_of_le ha (not_lt.mp hab)
    have hbeats : ∀ resting ∈ back, incoming.price < resting.price := fun resting hmem =>
      not_not.mp (hback resting hmem)
    have hinsert : (front ++ back).orderedInsert (fun a b => a.price < b.price) incoming =
        front ++ incoming :: back := orderedInsert_append hfront hbeats
    refine ⟨front, back, hsplit, ?_, hfront, hbeats⟩
    rw [hsplit, hinsert]

/-- The acceptable orders are the first ones of the other side. -/
theorem opposite_split {book : OrderBook γ} (ordered : book.PriceOrdered) (incoming : Order γ) :
    ∃ acceptable others, book.opposite incoming.side = acceptable ++ others ∧
      (∀ resting ∈ acceptable, incoming.Accepts resting) ∧
      ∀ resting ∈ others, ¬ incoming.Accepts resting := by
  unfold opposite Order.Accepts
  by_cases hside : incoming.side = .buy
  · simp only [hside, if_true]
    exact split_of_pairwise _ ordered.asks fun a b hab ha => not_le.mpr
      (lt_of_lt_of_le (not_le.mp ha) (not_lt.mp hab))
  · simp only [hside, if_false]
    exact split_of_pairwise _ ordered.bids fun a b hab ha => not_le.mpr
      (lt_of_le_of_lt (not_lt.mp hab) (not_le.mp ha))

/-- The prices of an own and an opposite order do not cross. -/
def Apart (side : OrderSide) (own opposite : Order γ) : Prop :=
  if side = .buy then own.price < opposite.price else opposite.price < own.price

theorem apart_iff (incoming resting : Order γ) :
    Apart incoming.side incoming resting ↔ ¬ incoming.Accepts resting := by
  unfold Apart Order.Accepts
  split
  · exact not_le.symm
  · exact not_le.symm

theorem facing_uncrossed_iff {side : OrderSide} {own opposite : List (Order γ)} :
    (facing side own opposite).Uncrossed ↔
      ∀ mine ∈ own, ∀ resting ∈ opposite, Apart side mine resting := by
  unfold Uncrossed facing Apart
  split
  · rfl
  · exact ⟨fun h mine hm resting hr => h resting hr mine hm,
      fun h bid hb ask ha => h ask ha bid hb⟩

/-- Where nothing crosses the loop stops. -/
theorem matchOnce_uncrossed {book : OrderBook γ} (uncrossed : book.Uncrossed) :
    book.matchOnce = none := by
  cases honce : book.matchOnce with
  | none => rfl
  | some result =>
    obtain ⟨bid, bids, ask, asks, rfl, hcross, -, -⟩ := matchOnce_cases honce
    have hapart := uncrossed bid List.mem_cons_self ask List.mem_cons_self
    exact absurd hcross (not_le.mpr hapart)

/-- Who crosses a resting order of an uncrossed book is better than its whole own side. -/
theorem beats_of_accepts {book : OrderBook γ} (uncrossed : book.Uncrossed)
    {incoming resting : Order γ} (hmem : resting ∈ book.opposite incoming.side)
    (accepts : incoming.Accepts resting) :
    ∀ mine ∈ book.own incoming.side, incoming.Beats mine := by
  unfold Order.Accepts at accepts
  unfold opposite at hmem
  unfold own Order.Beats
  by_cases hside : incoming.side = .buy
  · simp only [hside, if_true] at *
    exact fun mine hmine => lt_of_lt_of_le (uncrossed mine hmine resting hmem) accepts
  · simp only [hside, if_false] at *
    exact fun mine hmine => lt_of_le_of_lt accepts (uncrossed resting hmem mine hmine)

/-- What the orders of a book on both sides of an incoming one satisfy. -/
theorem mem_opposite {book : OrderBook γ} {side : OrderSide} {resting : Order γ}
    (hmem : resting ∈ book.opposite side) : resting ∈ book.orders := by
  unfold opposite at hmem
  split at hmem
  · exact List.mem_append_right _ hmem
  · exact List.mem_append_left _ hmem

/-- The acceptable orders of a settled book can all trade. -/
theorem tradable_of_accepts {book : OrderBook γ} (balanced : book.Balanced)
    (positive : ∀ resting ∈ book.orders, 0 < resting.openQuantity) {incoming : Order γ}
    {acceptable others : List (Order γ)}
    (split : book.opposite incoming.side = acceptable ++ others)
    (accepted : ∀ resting ∈ acceptable, incoming.Accepts resting) :
    ∀ resting ∈ acceptable, Tradable incoming resting := by
  intro resting hmem
  have hopposite : resting ∈ book.opposite incoming.side := by
    rw [split]
    exact List.mem_append_left _ hmem
  exact ⟨accepted resting hmem, balanced resting (mem_opposite hopposite),
    positive resting (mem_opposite hopposite)⟩

/-- After the sweep the loop stops. -/
theorem sweep_uncrossed {book : OrderBook γ} (uncrossed : book.Uncrossed) {incoming : Order γ}
    (balanced : incoming.Balanced) {acceptable others : List (Order γ)}
    (split : book.opposite incoming.side = acceptable ++ others)
    (refused : ∀ resting ∈ others, ¬ incoming.Accepts resting)
    (left : 0 < (remainder incoming (tradesOf incoming acceptable)).openQuantity →
      leftOf incoming acceptable = [])
    (unfilled : 0 ≤ (remainder incoming (tradesOf incoming acceptable)).openQuantity) :
    (facing incoming.side
      (settle (remainder incoming (tradesOf incoming acceptable)) (book.own incoming.side))
      (leftOf incoming acceptable ++ others)).Uncrossed := by
  rw [← facing_own_opposite book incoming.side, facing_uncrossed_iff, split] at uncrossed
  rw [facing_uncrossed_iff]
  have hrest := remainder_balanced balanced (tradesOf incoming acceptable)
  have hprice := remainder_price incoming (tradesOf incoming acceptable)
  generalize remainder incoming (tradesOf incoming acceptable) = rest at *
  have hown : ∀ mine ∈ book.own incoming.side, ∀ resting ∈ leftOf incoming acceptable ++ others,
      Apart incoming.side mine resting := by
    intro mine hmine resting hresting
    rcases List.mem_append.mp hresting with hleft | hother
    · obtain ⟨before, hbefore, hsame⟩ := price_leftOf resting hleft
      have hapart := uncrossed mine hmine before (List.mem_append_left _ hbefore)
      unfold Apart at hapart ⊢
      rwa [hsame]
    · exact uncrossed mine hmine resting (List.mem_append_right _ hother)
  rw [settle_balanced hrest]
  split
  · exact hown
  · rename_i hopen
    rw [left (by omega), List.nil_append] at hown ⊢
    refine List.forall_mem_cons.mpr ⟨fun resting hresting => ?_, hown⟩
    have hapart := (apart_iff incoming resting).mpr (refused resting hresting)
    unfold Apart at hapart ⊢
    rwa [hprice]

theorem sweep_of_accepts {book : OrderBook γ} (settled : book.Settled)
    (positive : ∀ resting ∈ book.orders, 0 < resting.openQuantity) {incoming : Order γ}
    (fresh : incoming.Fresh) (quantity : 0 < incoming.quantity)
    {acceptable others : List (Order γ)} {best : Order γ} (hbest : best ∈ acceptable)
    (split : book.opposite incoming.side = acceptable ++ others)
    (accepted : ∀ resting ∈ acceptable, incoming.Accepts resting)
    (refused : ∀ resting ∈ others, ¬ incoming.Accepts resting) :
    ∃ trades last, Iterations (book.insert incoming) trades last ∧ last.matchOnce = none ∧
      Sweeps book incoming acceptable others trades last := by
  have htradable := tradable_of_accepts settled.balanced positive split accepted
  have hunfilled : 0 < incoming.openQuantity := fresh.openQuantity ▸ quantity
  have hsum := sum_tradesOf hunfilled.le htradable
  have hnonneg : ∀ given ∈ tradesOf incoming acceptable, 0 ≤ given.2 := fun given hgiven =>
    share_nonneg hunfilled.le htradable given (List.mem_filter.mp hgiven).1
  have hopen := remainder_openQuantity fresh.balanced.openQuantity hnonneg
    (hsum ▸ min_le_left _ _)
  obtain ⟨front, back, hown, hinsert, hfront, hback⟩ := insert_between settled.ordered incoming
  have hbeats := beats_of_accepts settled.uncrossed
    (split ▸ List.mem_append_left others hbest) (accepted best hbest)
  have htop : front = [] := by
    refine List.eq_nil_iff_forall_not_mem.mpr fun mine hmine => ?_
    exact hfront mine hmine (hbeats mine (hown ▸ List.mem_append_left back hmine))
  rw [htop, List.nil_append] at hown hinsert
  obtain ⟨trades, hiter, htraded⟩ :=
    iterations_sweep back others fresh.balanced hunfilled htradable
  have hstop := sweep_uncrossed settled.uncrossed fresh.balanced split refused
    (fun hmore => leftOf_exhausted htradable (by omega)) (by omega)
  rw [hown] at hstop
  rw [hinsert, split]
  refine ⟨trades, _, hiter, matchOnce_uncrossed hstop, ?_⟩
  have hrest := remainder_balanced fresh.balanced (tradesOf incoming acceptable)
  rw [settle_balanced hrest]
  exact {
    split := split
    accepted := accepted
    refused := refused
    traded := htraded
    total := by
      have hquantities := congrArg (List.map Order.lastExecutedQuantity) htraded
      rw [lastExecutedQuantity_afterSweep, List.map_map] at hquantities
      rw [← fresh.openQuantity, ← hsum, ← hquantities]
      rfl
    opposite := opposite_facing _ _ _
    rests := by
      intro hmore
      rw [← fresh.openQuantity] at hmore ⊢
      refine ⟨by omega, [], back, hown, ?_, by simp, hback⟩
      rw [own_facing, if_neg (by omega), List.nil_append]
    filled := by
      intro henough
      rw [← fresh.openQuantity] at henough
      rw [own_facing, if_pos (by omega), hown] }

theorem sweep_of_refused {book : OrderBook γ} (settled : book.Settled) {incoming : Order γ}
    (fresh : incoming.Fresh) (quantity : 0 < incoming.quantity)
    (refused : ∀ resting ∈ book.opposite incoming.side, ¬ incoming.Accepts resting) :
    (book.insert incoming).matchOnce = none ∧
      Sweeps book incoming [] (book.opposite incoming.side) [] (book.insert incoming) := by
  obtain ⟨front, back, hown, hinsert, hfront, hback⟩ := insert_between settled.ordered incoming
  have huncrossed := settled.uncrossed
  rw [← facing_own_opposite book incoming.side, facing_uncrossed_iff] at huncrossed
  have hstop : (book.insert incoming).Uncrossed := by
    rw [hinsert, facing_uncrossed_iff]
    intro mine hmine
    rcases List.mem_append.mp hmine with hmem | hmem
    · exact huncrossed mine (hown ▸ List.mem_append_left back hmem)
    · rcases List.mem_cons.mp hmem with rfl | hmem
      · exact fun resting hresting => (apart_iff mine resting).mpr (refused resting hresting)
      · exact huncrossed mine (hown ▸ List.mem_append_right front hmem)
  refine ⟨matchOnce_uncrossed hstop, ?_⟩
  exact {
    split := rfl
    accepted := by simp
    refused := refused
    traded := rfl
    total := (min_eq_right quantity.le).symm
    opposite := by rw [hinsert, opposite_facing]; rfl
    rests := by
      intro _
      refine ⟨?_, front, back, hown, by rw [hinsert, own_facing]; rfl, hfront, hback⟩
      change incoming.openQuantity = incoming.quantity - 0
      rw [fresh.openQuantity, sub_zero]
    filled := fun hnone => absurd quantity (not_lt.mpr hnone) }

end OrderBook

open OrderBook in
/-- An incoming order sweeps the other side of a settled book: it trades the smaller of its
quantity and what it accepts, with the acceptable orders in their order, and rests behind its
price level if and only if something is left. -/
theorem insert_processMatching_sweeps (book : OrderBook γ) (settled : book.Settled)
    (positive : ∀ resting ∈ book.orders, 0 < resting.openQuantity) (incoming : Order γ)
    (fresh : incoming.Fresh) (quantity : 0 < incoming.quantity) :
    ∃ acceptable others trades last, Sweeps book incoming acceptable others trades last ∧
      ∀ processed, (book.insert incoming).processMatching processed =
        some (last, processed ++ trades.flatMap Trade.snapshots,
          (processed ++ trades.flatMap Trade.snapshots).length != 0) := by
  obtain ⟨acceptable, others, hsplit, haccepted, hrefused⟩ :=
    opposite_split settled.ordered incoming
  have hsweep : ∃ trades last, Iterations (book.insert incoming) trades last ∧
      last.matchOnce = none ∧ Sweeps book incoming acceptable others trades last := by
    cases acceptable with
    | nil =>
      rw [List.nil_append] at hsplit
      subst hsplit
      obtain ⟨hstop, hsweeps⟩ := sweep_of_refused settled fresh quantity hrefused
      exact ⟨[], _, .done _, hstop, hsweeps⟩
    | cons best acceptable =>
      exact sweep_of_accepts settled positive fresh quantity List.mem_cons_self hsplit
        haccepted hrefused
  obtain ⟨trades, last, hiter, hstop, hsweeps⟩ := hsweep
  refine ⟨acceptable, others, trades, last, hsweeps, fun processed => ?_⟩
  have hbalanced := insert_balanced settled.balanced fresh.balanced
  have hfuel : trades.length < (book.insert incoming).orders.length + 1 := by
    rcases hiter.length_lt hbalanced with rfl | hlen
    · exact Nat.succ_pos _
    · omega
  unfold processMatching
  rw [processMatchingLoop_iff.mpr ⟨trades, hiter, hstop, rfl, hfuel⟩]
  rfl

/-- One bid and three asks. -/
def sweptBook : OrderBook Unit where
  bidOrders := [.new 1 [] 0 0 .buy .limit 9 5 ()]
  askOrders := [.new 2 [] 0 0 .sell .limit 10 5 (), .new 3 [] 0 0 .sell .limit 11 4 (),
    .new 4 [] 0 0 .sell .limit 13 6 ()]

theorem sweptBook_settled : sweptBook.Settled where
  balanced := by unfold OrderBook.Balanced; decide
  ordered := ⟨List.pairwise_singleton _ _, by decide⟩
  uncrossed := by unfold OrderBook.Uncrossed; decide

theorem insert_processMatching_sweeps_deep :
    ∃ acceptable others trades last,
      OrderBook.Sweeps sweptBook (.new 5 [] 0 1 .buy .limit 12 7 ()) acceptable others trades last ∧
      ∀ processed, (sweptBook.insert (.new 5 [] 0 1 .buy .limit 12 7 ())).processMatching processed =
        some (last, processed ++ trades.flatMap Trade.snapshots,
          (processed ++ trades.flatMap Trade.snapshots).length != 0) :=
  insert_processMatching_sweeps sweptBook sweptBook_settled (by decide) _
    (Order.new_fresh _ _ _ _ _ _ _ (by decide) _) (by decide)

end LiteExchange.OrderMatcher
