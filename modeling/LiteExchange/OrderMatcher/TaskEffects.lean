import LiteExchange.OrderMatcher.CentralOrderBook

/-!
# Effects of the two tasks

One inversion lemma for each task on the book of its security, the totality of
`newOrder` on balanced books, and the lift to the dictionaries: a task touches
the book and the ring of its own security only. The dictionaries and the tables
of the security manager as `setSymbols` leaves them stand at the end.
-/

namespace LiteExchange.OrderMatcher

open Foundation.Ascii Foundation.Runs Foundation.PriorityList

variable {γ : Type}

namespace OrderBook

/-- What `taskNewOrder` does: the loop runs from the book with the order inserted
to a book that does not trade, and every snapshot is reported. -/
theorem newOrder_cases {book next : OrderBook γ} {order : Order γ}
    {reports : List (OutgoingMessage γ)} (h : book.newOrder order = some (next, reports)) :
    ∃ trades, Iterations (book.insert order) trades next ∧ next.matchOnce = none ∧
      reports = (trades.flatMap Trade.snapshots).map fillReport := by
  unfold newOrder processMatching at h
  simp only [Option.map_map, Option.map_eq_some_iff, Function.comp_def, Prod.mk.injEq,
    Prod.exists] at h
  obtain ⟨last, final, hloop, rfl, rfl⟩ := h
  obtain ⟨trades, hiter, hlast, hfinal, -⟩ := processMatchingLoop_iff.mp hloop
  exact ⟨trades, hiter, hlast, by rw [hfinal, List.nil_append]⟩

/-- On balanced orders `taskNewOrder` returns. -/
theorem newOrder_returns {book : OrderBook γ} {order : Order γ} (hbook : book.Balanced)
    (horder : order.Balanced) : ∃ next reports, book.newOrder order = some (next, reports) := by
  obtain ⟨trades, last, -, -, hloop⟩ :=
    processMatchingLoop_balanced (book.insert order) (insert_balanced hbook horder) []
  refine ⟨last, (trades.flatMap Trade.snapshots).map fillReport, ?_⟩
  unfold newOrder processMatching
  rw [hloop _ (Nat.lt_succ_self _)]
  rfl

/-- What `taskCancelOrder` does: the order `find` points at is flagged, reported
and looked up again by `erase`; or the request is rejected. -/
theorem cancelOrder_cases (book : OrderBook γ) (order : Order γ) (origClientOrderID : Bytes) :
    (∃ found, book.find origClientOrderID order.sessionId order.side = some found ∧
      book.cancelOrder order origClientOrderID =
        ((book.cancelFound origClientOrderID order.sessionId order.side).erase found.cancel,
          [.new found.cancel .canceled])) ∨
    (book.find origClientOrderID order.sessionId order.side = none ∧
      book.cancelOrder order origClientOrderID = (book, [.new order .rejected])) := by
  unfold cancelOrder
  cases hfind : book.find origClientOrderID order.sessionId order.side with
  | none => exact Or.inr ⟨rfl, rfl⟩
  | some found => exact Or.inl ⟨found, rfl, rfl⟩

theorem mem_cancelFound {book : OrderBook γ} {clientID : Bytes} {sessionId : Nat}
    {side : OrderSide} {resting : Order γ}
    (h : resting ∈ (book.cancelFound clientID sessionId side).orders) :
    resting ∈ book.orders ∨ ∃ order ∈ book.orders, resting = order.cancel := by
  have hlist : ∀ entries : List (Order γ), (∀ order ∈ entries, order ∈ book.orders) →
      resting ∈ modifyFirst (sameClientOrder clientID sessionId) Order.cancel entries →
      resting ∈ book.orders ∨ ∃ order ∈ book.orders, resting = order.cancel := by
    intro entries hsub hmem
    rcases mem_modifyFirst hmem with hkept | ⟨order, horder, hflagged⟩
    · exact Or.inl (hsub _ hkept)
    · exact Or.inr ⟨order, hsub _ horder, hflagged⟩
  have hbids : ∀ order ∈ book.bidOrders, order ∈ book.orders :=
    fun order h => List.mem_append_left _ h
  have hasks : ∀ order ∈ book.askOrders, order ∈ book.orders :=
    fun order h => List.mem_append_right _ h
  unfold cancelFound at h
  cases side with
  | nonSupported => exact Or.inl h
  | buy =>
    rcases List.mem_append.mp h with h | h
    · exact hlist _ hbids h
    · exact Or.inl (hasks _ h)
  | sell =>
    rcases List.mem_append.mp h with h | h
    · exact Or.inl (hbids _ h)
    · exact hlist _ hasks h

/-- Whatever the cancel task leaves in the book was there, flagged at most. -/
theorem mem_cancelOrder {book : OrderBook γ} {order resting : Order γ} {origClientOrderID : Bytes}
    (h : resting ∈ (book.cancelOrder order origClientOrderID).1.orders) :
    resting ∈ book.orders ∨ ∃ order ∈ book.orders, resting = order.cancel := by
  rcases cancelOrder_cases book order origClientOrderID with ⟨found, -, heq⟩ | ⟨-, heq⟩
  · rw [heq] at h
    exact mem_cancelFound (mem_erase h)
  · rw [heq] at h
    exact Or.inl h

theorem cancelOrder_balanced {book : OrderBook γ} (hbook : book.Balanced) (order : Order γ)
    (origClientOrderID : Bytes) : (book.cancelOrder order origClientOrderID).1.Balanced := by
  intro resting hmem
  rcases mem_cancelOrder hmem with hkept | ⟨canceled, hcanceled, hflagged⟩
  · exact hbook resting hkept
  · rw [hflagged]
    exact (hbook canceled hcanceled).cancel

theorem find_mem {book : OrderBook γ} {clientID : Bytes} {sessionId : Nat} {side : OrderSide}
    {found : Order γ} (h : book.find clientID sessionId side = some found) :
    found ∈ book.orders ∧ found.sessionId = sessionId ∧ found.clientOrderID = clientID := by
  unfold find at h
  have hmatch : ∀ entries : List (Order γ),
      entries.find? (sameClientOrder clientID sessionId) = some found →
      found ∈ entries ∧ found.sessionId = sessionId ∧ found.clientOrderID = clientID := by
    intro entries hfind
    have hfound := List.find?_some hfind
    simp only [sameClientOrder, Bool.and_eq_true, beq_iff_eq] at hfound
    exact ⟨List.mem_of_find?_eq_some hfind, hfound⟩
  cases side with
  | nonSupported => cases h
  | buy => exact ⟨List.mem_append_left _ (hmatch _ h).1, (hmatch _ h).2⟩
  | sell => exact ⟨List.mem_append_right _ (hmatch _ h).1, (hmatch _ h).2⟩

/-- A property of the orders of both containers that only depends on what
flagging keeps. -/
theorem cancelFound_map {α : Type*} (g : Order γ → α) (keeps : ∀ order, g order.cancel = g order)
    (book : OrderBook γ) (clientID : Bytes) (sessionId : Nat) (side : OrderSide) :
    (book.cancelFound clientID sessionId side).bidOrders.map g = book.bidOrders.map g ∧
    (book.cancelFound clientID sessionId side).askOrders.map g = book.askOrders.map g := by
  unfold cancelFound
  cases side with
  | nonSupported => exact ⟨rfl, rfl⟩
  | buy => exact ⟨map_modifyFirst keeps _, rfl⟩
  | sell => exact ⟨rfl, map_modifyFirst keeps _⟩

theorem cancelFound_priceOrdered {book : OrderBook γ} (hbook : book.PriceOrdered)
    (clientID : Bytes) (sessionId : Nat) (side : OrderSide) :
    (book.cancelFound clientID sessionId side).PriceOrdered := by
  obtain ⟨hbids, hasks⟩ := cancelFound_map Order.price (fun _ => rfl) book clientID sessionId side
  exact ⟨pairwise_of_map_eq (R := fun a b => ¬ b > a) hbids hbook.bids,
    pairwise_of_map_eq (R := fun a b => ¬ b < a) hasks hbook.asks⟩

theorem cancelFound_uncrossed {book : OrderBook γ} (hbook : book.Uncrossed)
    (clientID : Bytes) (sessionId : Nat) (side : OrderSide) :
    (book.cancelFound clientID sessionId side).Uncrossed := by
  obtain ⟨hbids, hasks⟩ := cancelFound_map Order.price (fun _ => rfl) book clientID sessionId side
  intro bid hbid ask hask
  have hbid' := List.mem_map_of_mem (f := Order.price) hbid
  have hask' := List.mem_map_of_mem (f := Order.price) hask
  rw [hbids] at hbid'
  rw [hasks] at hask'
  obtain ⟨bid', hmem, hprice⟩ := List.mem_map.mp hbid'
  obtain ⟨ask', hmem', hprice'⟩ := List.mem_map.mp hask'
  rw [← hprice, ← hprice']
  exact hbook bid' hmem ask' hmem'

/-! ## Properties of resting orders -/

/-- `bid` holds of every resting bid and `ask` of every resting ask. -/
structure Holds (bid ask : Order γ → Prop) (book : OrderBook γ) : Prop where
  bids : ∀ order ∈ book.bidOrders, bid order
  asks : ∀ order ∈ book.askOrders, ask order

/-- The two properties survive a trade of two crossing orders, which shows
`snapshot` of both its snapshots, and the flag that a cancel sets. -/
structure Closed (bid ask snapshot : Order γ → Prop) : Prop where
  trade : ∀ b a : Order γ, bid b → ask a → a.price ≤ b.price →
    snapshot (matchTwoOrders b a).bid ∧ snapshot (matchTwoOrders b a).ask
  tradedBid : ∀ b a : Order γ, bid b → ask a → a.price ≤ b.price →
    (matchTwoOrders b a).bid.isFilled = false → bid (matchTwoOrders b a).bid
  tradedAsk : ∀ b a : Order γ, bid b → ask a → a.price ≤ b.price →
    (matchTwoOrders b a).ask.isFilled = false → ask (matchTwoOrders b a).ask
  canceledBid : ∀ b : Order γ, bid b → bid b.cancel
  canceledAsk : ∀ a : Order γ, ask a → ask a.cancel

section Closure

variable {bid ask snapshot : Order γ → Prop}

theorem empty_holds : ({} : OrderBook γ).Holds bid ask :=
  ⟨fun _ h => absurd h List.not_mem_nil, fun _ h => absurd h List.not_mem_nil⟩

theorem insert_holds {book : OrderBook γ} {order : Order γ} (hbook : book.Holds bid ask)
    (hbid : order.side = .buy → bid order) (hask : order.side ≠ .buy → ask order) :
    (book.insert order).Holds bid ask := by
  unfold insert
  by_cases hside : order.side = .buy
  · rw [if_pos hside]
    refine ⟨fun resting h => ?_, hbook.asks⟩
    rcases (List.mem_orderedInsert _).mp h with rfl | h
    · exact hbid hside
    · exact hbook.bids resting h
  · rw [if_neg hside]
    refine ⟨hbook.bids, fun resting h => ?_⟩
    rcases (List.mem_orderedInsert _).mp h with rfl | h
    · exact hask hside
    · exact hbook.asks resting h

theorem Closed.matchOnce {book next : OrderBook γ} {trade : Trade γ}
    (closed : Closed bid ask snapshot) (hbook : book.Holds bid ask)
    (h : book.matchOnce = some (trade, next)) :
    (snapshot trade.bid ∧ snapshot trade.ask) ∧ next.Holds bid ask := by
  obtain ⟨b, bids, a, asks, rfl, hcross, rfl, rfl⟩ := matchOnce_cases h
  have hb := hbook.bids b List.mem_cons_self
  have ha := hbook.asks a List.mem_cons_self
  refine ⟨closed.trade b a hb ha hcross, fun order hmem => ?_, fun order hmem => ?_⟩
  · rcases mem_settle hmem with ⟨rfl, hopen⟩ | hmem
    · exact closed.tradedBid b a hb ha hcross hopen
    · exact hbook.bids order (List.mem_cons_of_mem b hmem)
  · rcases mem_settle hmem with ⟨rfl, hopen⟩ | hmem
    · exact closed.tradedAsk b a hb ha hcross hopen
    · exact hbook.asks order (List.mem_cons_of_mem a hmem)

theorem Closed.iterations {book last : OrderBook γ} {trades : List (Trade γ)}
    (closed : Closed bid ask snapshot) (hbook : book.Holds bid ask)
    (h : Iterations book trades last) :
    (∀ trade ∈ trades, snapshot trade.bid ∧ snapshot trade.ask) ∧ last.Holds bid ask :=
  ⟨h.forall_trades (Holds bid ask) _ (fun _ _ _ hI once => closed.matchOnce hI once) hbook,
    h.invariant (Holds bid ask) (fun _ _ _ hI once => (closed.matchOnce hI once).2) hbook⟩

theorem erase_holds {book : OrderBook γ} (hbook : book.Holds bid ask) (order : Order γ) :
    (book.erase order).Holds bid ask := by
  unfold erase
  split
  · exact ⟨fun resting h => hbook.bids resting (List.mem_of_mem_eraseP h), hbook.asks⟩
  · exact ⟨hbook.bids, fun resting h => hbook.asks resting (List.mem_of_mem_eraseP h)⟩
  · exact hbook

theorem cancelFound_holds {book : OrderBook γ} (hbook : book.Holds bid ask)
    (keepBid : ∀ b : Order γ, bid b → bid b.cancel) (keepAsk : ∀ a : Order γ, ask a → ask a.cancel)
    (clientID : Bytes) (sessionId : Nat) (side : OrderSide) :
    (book.cancelFound clientID sessionId side).Holds bid ask := by
  have hlist : ∀ (P : Order γ → Prop) (entries : List (Order γ)), (∀ order, P order → P order.cancel) →
      (∀ order ∈ entries, P order) → ∀ order ∈
        modifyFirst (sameClientOrder clientID sessionId) Order.cancel entries, P order := by
    intro P entries keep hentries order hmem
    rcases mem_modifyFirst hmem with hkept | ⟨other, hother, hflagged⟩
    · exact hentries order hkept
    · rw [hflagged]
      exact keep other (hentries other hother)
  unfold cancelFound
  cases side with
  | nonSupported => exact hbook
  | buy => exact ⟨hlist bid _ keepBid hbook.bids, hbook.asks⟩
  | sell => exact ⟨hbook.bids, hlist ask _ keepAsk hbook.asks⟩

theorem Closed.cancelOrder {book : OrderBook γ} (closed : Closed bid ask snapshot)
    (hbook : book.Holds bid ask) (order : Order γ) (origClientOrderID : Bytes) :
    (book.cancelOrder order origClientOrderID).1.Holds bid ask := by
  rcases cancelOrder_cases book order origClientOrderID with ⟨found, -, heq⟩ | ⟨-, heq⟩
  · rw [heq]
    exact erase_holds (cancelFound_holds hbook closed.canceledBid closed.canceledAsk _ _ _) _
  · rw [heq]
    exact hbook

end Closure

end OrderBook

namespace CentralOrderBook

@[simp] theorem book_setBook (central : CentralOrderBook γ) (securityId other : Nat)
    (book : OrderBook γ) :
    (central.setBook securityId book).book other =
      if other = securityId then book else central.book other := by
  unfold setBook CentralOrderBook.book
  by_cases h : other = securityId
  · subst h
    simp
  · simp [h]

@[simp] theorem book_push (central : CentralOrderBook γ) (securityId other : Nat)
    (messages : List (OutgoingMessage γ)) :
    (central.push securityId messages).book other = central.book other := rfl

@[simp] theorem queueID_push (central : CentralOrderBook γ) (securityId other : Nat)
    (messages : List (OutgoingMessage γ)) :
    (central.push securityId messages).queueID other = central.queueID other := rfl

@[simp] theorem queueID_setBook (central : CentralOrderBook γ) (securityId other : Nat)
    (book : OrderBook γ) :
    (central.setBook securityId book).queueID other = central.queueID other := rfl

/-- Both tasks run on the book of their security and push to its ring. -/
theorem runTask_eq (central : CentralOrderBook γ) (task : Task γ) :
    central.runTask task = ((central.book task.securityId).runTask task).map fun (book, reports) =>
      (central.setBook task.securityId book).push task.securityId reports := by
  cases task with
  | newOrder order => rfl
  | cancelOrder order origClientOrderID => rfl

theorem runTask_cases {central next : CentralOrderBook γ} {task : Task γ}
    (h : central.runTask task = some next) :
    ∃ book reports, (central.book task.securityId).runTask task = some (book, reports) ∧
      next = (central.setBook task.securityId book).push task.securityId reports := by
  rw [runTask_eq] at h
  obtain ⟨⟨book, reports⟩, hbook, rfl⟩ := Option.map_eq_some_iff.mp h
  exact ⟨book, reports, hbook, rfl⟩

/-- A task keeps an invariant of all books if it keeps it on its own. -/
theorem runTask_forall_books (I : OrderBook γ → Prop) {central next : CentralOrderBook γ}
    {task : Task γ} (h : central.runTask task = some next)
    (before : ∀ securityId, I (central.book securityId))
    (keep : ∀ book reports,
      (central.book task.securityId).runTask task = some (book, reports) → I book) :
    ∀ securityId, I (next.book securityId) := by
  obtain ⟨book, reports, hbook, rfl⟩ := runTask_cases h
  intro securityId
  rw [book_push, book_setBook]
  split
  · exact keep book reports hbook
  · exact before securityId

theorem setSymbolsFrom_book (queueID : Nat) (symbols : List Bytes)
    (result : CentralOrderBook γ × SecurityManager) (securityId : Nat) :
    (setSymbolsFrom queueID symbols result).1.book securityId = result.1.book securityId := by
  induction symbols generalizing queueID result with
  | nil => rfl
  | cons symbol symbols ih => exact ih (queueID + 1) _

theorem initialiseMultithreadedMatching_book (central : CentralOrderBook γ)
    (empty : ∀ securityId, central.book securityId = {}) (securityId : Nat) :
    central.initialiseMultithreadedMatching.book securityId = {} := by
  have hfold : ∀ (ids : List Nat) (dictionary : Nat → Option (OrderBook γ)),
      (∀ id, (dictionary id).getD {} = {}) → ∀ id,
        ((ids.foldl (fun dictionary id => insertNew dictionary id {}) dictionary) id).getD {} = {} := by
    intro ids
    induction ids with
    | nil => exact fun dictionary h => h
    | cons first ids ih =>
      intro dictionary h
      apply ih
      intro id
      rw [insertNew_getD]
      exact h id
  exact hfold central.securityIds central.orderBookDictionary empty securityId

/-- Every book is empty when the server starts. -/
theorem configured_book (symbols : List Bytes) (multithreaded : Bool) (securityId : Nat) :
    (configured (γ := γ) symbols multithreaded).1.book securityId = {} := by
  have hsymbols : ∀ id, (setSymbols (γ := γ) {} {} symbols).1.book id = {} :=
    fun id => setSymbolsFrom_book 0 symbols _ id
  unfold configured
  cases multithreaded with
  | false => exact hsymbols securityId
  | true => exact initialiseMultithreadedMatching_book _ hsymbols securityId

/-- What the tables hold when these symbols have been added, one after the other. -/
structure Registered (symbols : List Bytes) (result : CentralOrderBook γ × SecurityManager) :
    Prop where
  byId : result.2.securitiesById = symbols
  bySymbol : ∀ symbol, result.2.securitiesBySymbol symbol =
    if symbol ∈ symbols then some (symbols.idxOf symbol) else none
  queues : ∀ securityId, result.1.queueIDDictionary securityId =
    if securityId < symbols.length then some securityId else none

/-- One round of `setSymbols`. -/
theorem Registered.round {symbols : List Bytes} {result : CentralOrderBook γ × SecurityManager}
    (h : Registered symbols result) (symbol : Bytes) :
    Registered (symbols ++ [symbol])
      ({ result.1 with
          securityIds := result.1.securityIds ++ [(result.2.addSecurity symbol).2]
          queueIDDictionary := insertNew result.1.queueIDDictionary
            (result.2.addSecurity symbol).2 symbols.length },
        (result.2.addSecurity symbol).1) where
  byId := by
    rw [SecurityManager.addSecurity, h.byId]
  bySymbol := by
    intro other
    change insertNew result.2.securitiesBySymbol symbol result.2.securitiesById.length other = _
    rw [insertNew_apply, h.bySymbol, h.bySymbol, h.byId, List.idxOf_append]
    by_cases hother : other = symbol
    · subst hother
      by_cases hmem : other ∈ symbols <;> simp [hmem]
    · by_cases hmem : other ∈ symbols <;> simp [hmem, hother]
  queues := by
    intro securityId
    change insertNew result.1.queueIDDictionary result.2.securitiesById.length symbols.length
      securityId = _
    rw [insertNew_apply, h.queues, h.queues, h.byId, List.length_append, List.length_singleton]
    by_cases hlast : securityId = symbols.length
    · simp [hlast]
    · have hlt : securityId < symbols.length + 1 ↔ securityId < symbols.length := by omega
      simp [hlast, hlt]

theorem Registered.setSymbolsFrom {done : List Bytes}
    {result : CentralOrderBook γ × SecurityManager} (h : Registered done result)
    (symbols : List Bytes) :
    Registered (done ++ symbols)
      (setSymbolsFrom done.length symbols result) := by
  induction symbols generalizing done result with
  | nil => rwa [List.append_nil]
  | cons symbol symbols ih =>
    have hround := ih (h.round symbol)
    rw [List.append_assoc, List.length_append] at hround
    exact hround

theorem registered_configured (symbols : List Bytes) (multithreaded : Bool) :
    Registered symbols (configured (γ := γ) symbols multithreaded) := by
  have hempty : Registered [] (({}, {}) : CentralOrderBook γ × SecurityManager) :=
    ⟨rfl, fun _ => rfl, fun _ => rfl⟩
  have hsymbols := hempty.setSymbolsFrom symbols
  rw [List.nil_append] at hsymbols
  cases multithreaded with
  | false => exact hsymbols
  | true => exact ⟨hsymbols.byId, hsymbols.bySymbol, hsymbols.queues⟩

end CentralOrderBook

end LiteExchange.OrderMatcher
