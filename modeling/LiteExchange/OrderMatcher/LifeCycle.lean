import LiteExchange.OrderMatcher.Conservation

/-!
# The life cycle of an order on one book

The reports of an order id, REJECTED ones apart, are partial fills and then at
most one FILLED or CANCELED report. A report is appended only for an order that
rests, and an order that rests has not departed, because the accounts of a log
have distinct ids.
-/

namespace LiteExchange.OrderMatcher

open Foundation.Ascii Foundation.Runs

variable {γ : Type}

/-- The types of the reports of an order id, REJECTED ones apart, oldest first. -/
def history (orderID : Nat) (messages : List (OutgoingMessage γ)) : List OrderStatus :=
  (messages.filter fun message =>
    message.order.orderID == orderID && message.status != .rejected).map OutgoingMessage.status

theorem history_append (orderID : Nat) (front back : List (OutgoingMessage γ)) :
    history orderID (front ++ back) = history orderID front ++ history orderID back := by
  simp [history]

theorem history_eq_nil {orderID : Nat} {messages : List (OutgoingMessage γ)}
    (h : ∀ message ∈ messages, message.status ≠ .rejected → message.order.orderID ≠ orderID) :
    history orderID messages = [] := by
  unfold history
  rw [List.map_eq_nil_iff, List.filter_eq_nil_iff]
  intro message hmem
  simp only [Bool.and_eq_true, beq_iff_eq, bne_iff_ne, not_and, not_not]
  intro hid
  by_contra hstatus
  exact h message hmem hstatus hid

/-- Nothing, or the one report with which an order leaves the book. -/
def IsEnd (last : List OrderStatus) : Prop := last = [] ∨ last = [.filled] ∨ last = [.canceled]

/-- Any number of PARTIALLY_FILLED, then at most one of FILLED and CANCELED. -/
def FillsThenEnd (statuses : List OrderStatus) : Prop :=
  ∃ fills last, statuses = List.replicate fills .partiallyFilled ++ last ∧ IsEnd last

/-- ACCEPTED, any number of PARTIALLY_FILLED, then at most one of FILLED and CANCELED. -/
def IsLifeCycle (statuses : List OrderStatus) : Prop :=
  ∃ later, statuses = .accepted :: later ∧ FillsThenEnd later

theorem IsEnd.of_prefix {last front : List OrderStatus} (h : IsEnd last) (hfront : front <+: last) :
    IsEnd front := by
  have hsingle : ∀ status, front <+: [status] → front = [] ∨ front = [status] := by
    intro status hfront
    cases front with
    | nil => exact Or.inl rfl
    | cons first rest =>
      obtain ⟨rfl, hrest⟩ := List.cons_prefix_cons.mp hfront
      rw [List.prefix_nil.mp hrest]
      exact Or.inr rfl
  rcases h with rfl | rfl | rfl
  · exact Or.inl (List.prefix_nil.mp hfront)
  · rcases hsingle _ hfront with rfl | rfl
    · exact Or.inl rfl
    · exact Or.inr (Or.inl rfl)
  · rcases hsingle _ hfront with rfl | rfl
    · exact Or.inl rfl
    · exact Or.inr (Or.inr rfl)

/-- What has been pushed of such a sequence has the same form. -/
theorem FillsThenEnd.of_prefix {statuses front : List OrderStatus} (h : FillsThenEnd statuses)
    (hfront : front <+: statuses) : FillsThenEnd front := by
  obtain ⟨fills, last, rfl, hlast⟩ := h
  induction fills generalizing front with
  | zero => exact ⟨0, front, rfl, hlast.of_prefix hfront⟩
  | succ fills ih =>
    cases front with
    | nil => exact ⟨0, [], rfl, Or.inl rfl⟩
    | cons first rest =>
      rw [List.replicate_succ, List.cons_append] at hfront
      obtain ⟨rfl, hrest⟩ := List.cons_prefix_cons.mp hfront
      obtain ⟨count, end', rfl, hend⟩ := ih hrest
      exact ⟨count + 1, end', by rw [List.replicate_succ, List.cons_append], hend⟩

/-- The ids of the orders that FILLED and CANCELED reports have taken off the book. -/
def departedIds (reports : List (OutgoingMessage γ)) : List Nat :=
  (departed reports).map Account.orderID

theorem departedIds_append (front back : List (OutgoingMessage γ)) :
    departedIds (front ++ back) = departedIds front ++ departedIds back := by
  simp [departedIds, departed_append]

/-- An id that has not departed has partial fills only. -/
def Cycles (reports : List (OutgoingMessage γ)) : Prop :=
  ∀ orderID, ∃ fills last, history orderID reports = List.replicate fills .partiallyFilled ++ last ∧
    IsEnd last ∧ (last ≠ [] ↔ orderID ∈ departedIds reports)

theorem cycles_nil : Cycles ([] : List (OutgoingMessage γ)) :=
  fun _ => ⟨0, [], rfl, Or.inl rfl, by simp [departedIds, departed]⟩

/-- A fill or cancel report of an order that has not departed. -/
theorem Cycles.report {reports : List (OutgoingMessage γ)} (h : Cycles reports)
    {message : OutgoingMessage γ} (status : message.isFill = true ∨ message.isFinal = true)
    (resting : message.order.orderID ∉ departedIds reports) : Cycles (reports ++ [message]) := by
  have hdeparted : departedIds [message] =
      if message.isFinal then [message.order.orderID] else [] := by
    unfold departedIds departed
    by_cases hfinal : message.isFinal = true
    · simp [hfinal, Order.account]
    · simp [hfinal]
  intro orderID
  obtain ⟨fills, last, hhistory, hend, hlast⟩ := h orderID
  by_cases hid : message.order.orderID = orderID
  · have hnone : last = [] := by
      by_contra hne
      exact resting (hid ▸ hlast.mp hne)
    subst hnone
    have hnot : orderID ∉ departedIds reports := fun hmem => hlast.mpr hmem rfl
    have hnew : history orderID [message] = [message.status] := by
      have hrejected : message.status ≠ .rejected := by
        intro hrejected
        simp [OutgoingMessage.isFill, OutgoingMessage.isFinal, hrejected] at status
      simp [history, hid, hrejected]
    rw [history_append, hhistory, hnew, departedIds_append, hdeparted]
    by_cases hpart : message.status = .partiallyFilled
    · have hfinal : message.isFinal = false := by simp [OutgoingMessage.isFinal, hpart]
      refine ⟨fills + 1, [], ?_, Or.inl rfl, ?_⟩
      · rw [hpart, List.replicate_succ', List.append_nil, List.append_nil]
      · simp [hfinal, hnot]
    · have hfinal : message.isFinal = true := by
        simpa [OutgoingMessage.isFill, OutgoingMessage.isFinal, hpart] using status
      refine ⟨fills, [message.status], by rw [List.append_nil], ?_, ?_⟩
      · simpa [IsEnd, OutgoingMessage.isFinal] using hfinal
      · simp [hfinal, hid]
  · have hnew : history orderID [message] = [] := by
      apply history_eq_nil
      intro other hmem _
      rw [List.mem_singleton.mp hmem]
      exact hid
    refine ⟨fills, last, ?_, hend, ?_⟩
    · rw [history_append, hhistory, hnew, List.append_nil]
    · rw [hlast, departedIds_append, hdeparted]
      split
      · simp [Ne.symm hid]
      · simp

theorem Cycles.rejected {reports : List (OutgoingMessage γ)} (h : Cycles reports) (order : Order γ) :
    Cycles (reports ++ [.new order .rejected]) := by
  intro orderID
  obtain ⟨fills, last, hhistory, hend, hlast⟩ := h orderID
  have hnew : history orderID [OutgoingMessage.new order .rejected] = [] := by
    simp [history, OutgoingMessage.new, OutgoingMessage.status]
  have hdeparted : departedIds [OutgoingMessage.new order .rejected] = [] := rfl
  refine ⟨fills, last, ?_, hend, ?_⟩
  · rw [history_append, hhistory, hnew, List.append_nil]
  · rw [hlast, departedIds_append, hdeparted, List.append_nil]

theorem fillReport_status (order : Order γ) :
    (fillReport order).isFill = true ∧
      ((fillReport order).status = .filled ↔ order.isFilled = true) := by
  unfold fillReport
  by_cases hfilled : order.isFilled = true
  · simp [hfilled, OutgoingMessage.new, OutgoingMessage.isFill, OutgoingMessage.status]
  · simp [hfilled, OutgoingMessage.new, OutgoingMessage.isFill, OutgoingMessage.status]

namespace BookLog

/-- An order that rests has not departed: the ids of a log are distinct. -/
theorem Sound.not_departed {arrived : List Nat} {log : BookLog γ} (hlog : log.Sound arrived)
    (distinct : arrived.Nodup) {order : Order γ} (hmem : order ∈ log.book.orders) :
    order.orderID ∉ departedIds log.reports := by
  have hids := hlog.arrived.nodup_iff.mpr distinct
  rw [accounts, List.map_append] at hids
  have hdisjoint := (List.nodup_append'.mp hids).2.2
  apply hdisjoint
  rw [List.map_map]
  exact List.mem_map_of_mem (f := Account.orderID ∘ Order.account) hmem

theorem traded_cycles {arrived : List Nat} {log : BookLog γ} (hlog : log.Sound arrived)
    (distinct : arrived.Nodup) (hcycles : Cycles log.reports) {trade : Trade γ}
    {next : OrderBook γ} (h : log.book.matchOnce = some (trade, next)) :
    Cycles (log.traded trade next).reports := by
  obtain ⟨bid, ask, others, hbid, hask, -, rfl, hbefore, -⟩ := traded_accounts h
  have hne : ask.orderID ≠ bid.orderID := by
    have hids := (hlog.arrived.nodup_iff.mpr distinct)
    rw [(hbefore.map Account.orderID).nodup_iff] at hids
    simp only [List.map_cons, List.nodup_cons, List.mem_cons, not_or] at hids
    exact fun heq => hids.1.1 heq.symm
  have hbidResting := hlog.not_departed distinct (List.mem_append_left log.book.askOrders hbid)
  have haskResting := hlog.not_departed distinct (List.mem_append_right log.book.bidOrders hask)
  have hbidId : (fillReport (OrderBook.matchTwoOrders bid ask).bid).order.orderID = bid.orderID :=
    rfl
  have haskId : (fillReport (OrderBook.matchTwoOrders bid ask).ask).order.orderID = ask.orderID :=
    rfl
  have hfirst : Cycles (log.reports ++ [fillReport (OrderBook.matchTwoOrders bid ask).bid]) := by
    apply hcycles.report (Or.inl (fillReport_status _).1)
    rw [hbidId]
    exact hbidResting
  have hsecond := hfirst.report (Or.inl (fillReport_status (OrderBook.matchTwoOrders bid ask).ask).1)
    (by
      rw [haskId, departedIds_append, List.mem_append, not_or]
      refine ⟨haskResting, fun hmem => ?_⟩
      obtain ⟨account, haccount, hid⟩ := List.mem_map.mp hmem
      rw [departed_fillReport] at haccount
      split at haccount
      · rw [List.mem_singleton.mp haccount] at hid
        exact hne hid.symm
      · cases haccount)
  rw [List.append_assoc] at hsecond
  exact hsecond

theorem cancelOrder_cycles {arrived : List Nat} {log : BookLog γ} (hlog : log.Sound arrived)
    (distinct : arrived.Nodup) (hcycles : Cycles log.reports) (order : Order γ)
    (origClientOrderID : Bytes) :
    Cycles (log.reports ++ (log.book.cancelOrder order origClientOrderID).2) := by
  rcases OrderBook.cancelOrder_cases log.book order origClientOrderID with
    ⟨found, hfind, heq⟩ | ⟨-, heq⟩
  · rw [heq]
    have hresting := hlog.not_departed distinct (OrderBook.find_mem hfind).1
    exact hcycles.report (Or.inr rfl) hresting
  · rw [heq]
    exact hcycles.rejected order

theorem runTask_cycles {arrived : List Nat} {log next : BookLog γ} {task : Task γ}
    (hlog : log.Sound arrived) (admitted : task.Admitted)
    (distinct : (task.arrival ++ arrived).Nodup) (hcycles : Cycles log.reports)
    (h : log.runTask task = some next) : Cycles next.reports := by
  rcases runTask_cases h with
    ⟨order, trades, rfl, hiter, -, hreports⟩ | ⟨order, origClientOrderID, rfl, rfl⟩
  · obtain ⟨fresh, side⟩ := admitted
    have hinvariant := iterations_invariant
      (fun log : BookLog γ => log.Sound (order.orderID :: arrived) ∧ Cycles log.reports)
      (fun log trade next hI once =>
        ⟨(hI.1.trade once).1, traded_cycles hI.1 distinct hI.2 once⟩)
      hiter ⟨hlog.insert fresh side, hcycles⟩
    rw [hreports]
    exact hinvariant.2
  · exact cancelOrder_cycles hlog distinct hcycles order origClientOrderID

/-- The log of a run of admitted tasks whose new orders have distinct ids. -/
theorem run_cycles (tasks : List (Task γ)) {log : BookLog γ}
    (admitted : ∀ task ∈ tasks, task.Admitted) (distinct : (tasks.flatMap Task.arrival).Nodup)
    (h : run BookLog.runTask {} tasks = some log) :
    log.Sound (tasks.flatMap Task.arrival) ∧ Cycles log.reports := by
  induction tasks using List.reverseRecOn generalizing log with
  | nil =>
    cases h
    exact ⟨empty_sound, cycles_nil⟩
  | append_singleton tasks task ih =>
    obtain ⟨last, hlast, hstep⟩ := run_snoc_some h
    rw [List.flatMap_append, List.flatMap_singleton] at distinct ⊢
    have hperm : (tasks.flatMap Task.arrival ++ task.arrival).Perm
        (task.arrival ++ tasks.flatMap Task.arrival) := List.perm_append_comm
    have htask := admitted task (List.mem_append_right tasks List.mem_cons_self)
    obtain ⟨hsound, hcycles⟩ := ih
      (fun other hmem => admitted other (List.mem_append_left [task] hmem))
      (List.nodup_append'.mp distinct).1 hlast
    exact ⟨(hsound.runTask htask hstep).perm hperm.symm,
      runTask_cycles hsound htask (hperm.nodup_iff.mp distinct) hcycles hstep⟩

end BookLog

end LiteExchange.OrderMatcher
