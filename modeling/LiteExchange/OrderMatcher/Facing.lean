import LiteExchange.OrderMatcher.CancelFrame
import LiteExchange.OrderMatcher.Sweep

/-!
# A book seen from one side

The own container of a side and the one it trades with. An iteration looks at the two tops,
an insertion changes one container, and so does a cancel; what stands further behind plays no
part.
-/

namespace LiteExchange.OrderMatcher

open Foundation.Ascii Foundation.PriorityList

variable {γ : Type}

/-- The order comes into the own container of the side. -/
def Order.JoinsSide (order : Order γ) (side : OrderSide) : Prop := order.side = .buy ↔ side = .buy

/-- The reports of a cancel, by the order that the search finds. -/
def cancelReports (found : Option (Order γ)) (request : Order γ) : List (OutgoingMessage γ) :=
  match found with
  | some order => [.new order.cancel .canceled]
  | none => [.new request .rejected]

namespace OrderBook

/-- The trade of an own order with an opposite one. -/
def tradeFacing (side : OrderSide) (own opposite : Order γ) : Trade γ :=
  if side = .buy then matchTwoOrders own opposite else matchTwoOrders opposite own

/-- The snapshot of the own order. -/
def tradedOwn (side : OrderSide) (own opposite : Order γ) : Order γ :=
  own.execute (if side = .buy then opposite.price else own.price)
    (if side = .buy then tradedQuantity own opposite else tradedQuantity opposite own)

/-- The snapshot of the opposite order. -/
def tradedOpposite (side : OrderSide) (own opposite : Order γ) : Order γ :=
  opposite.execute (if side = .buy then opposite.price else own.price)
    (if side = .buy then tradedQuantity own opposite else tradedQuantity opposite own)

variable {side : OrderSide}

theorem orders_facing {own opposite : List (Order γ)} {order : Order γ} :
    order ∈ (facing side own opposite).orders ↔ order ∈ own ∨ order ∈ opposite := by
  unfold facing orders
  split
  · exact List.mem_append
  · rw [List.mem_append]
    exact or_comm

/-! ## Matching -/

theorem matchOnce_opposite_empty (own : List (Order γ)) :
    (facing side own []).matchOnce = none :=
  matchOnce_uncrossed (facing_uncrossed_iff.mpr fun _ _ _ h => absurd h List.not_mem_nil)

/-- An iteration with an order on both sides, by the two tops. -/
theorem matchOnce_tops (side : OrderSide) (mine resting : Order γ) :
    (∀ own opposite, (facing side (mine :: own) (resting :: opposite)).matchOnce = none) ∨
      ∀ own opposite, (facing side (mine :: own) (resting :: opposite)).matchOnce =
        some (tradeFacing side mine resting,
          facing side (settle (tradedOwn side mine resting) own)
            (settle (tradedOpposite side mine resting) opposite)) := by
  unfold facing matchOnce tradeFacing tradedOwn tradedOpposite
  by_cases hside : side = .buy
  · simp only [hside, if_true]
    by_cases hcross : mine.price ≥ resting.price
    · right
      intro own opposite
      simp only [hcross, if_true, matchTwoOrders]
    · left
      intro own opposite
      simp only [hcross, if_false]
  · simp only [hside, if_false]
    by_cases hcross : resting.price ≥ mine.price
    · right
      intro own opposite
      simp only [hcross, if_true, matchTwoOrders]
    · left
      intro own opposite
      simp only [hcross, if_false]

theorem settle_of_open {traded : Order γ} (h : ¬ traded.isFilled = true)
    (rest : List (Order γ)) : settle traded rest = traded :: rest := if_neg h

theorem settle_append (traded : Order γ) (front back : List (Order γ)) :
    settle traded (front ++ back) = settle traded front ++ back := by
  unfold settle
  split
  · rfl
  · rfl

/-! ## Insertion -/

/-- An order of the side comes in front of `watched`, or behind it, whatever stands there. -/
theorem insert_own {order : Order γ} (joins : order.JoinsSide side) (front : List (Order γ))
    (watched : Order γ) :
    (∃ ahead, (∀ other, other ∈ ahead ↔ other = order ∨ other ∈ front) ∧
      ∀ behind opposite, (facing side (front ++ watched :: behind) opposite).insert order =
        facing side (ahead ++ watched :: behind) opposite) ∨
    ∀ behind, ∃ next, (∀ other, other ∈ next ↔ other = order ∨ other ∈ behind) ∧
      ∀ opposite, (facing side (front ++ watched :: behind) opposite).insert order =
        facing side (front ++ watched :: next) opposite := by
  unfold facing insert
  by_cases hside : side = .buy
  · simp only [joins.mpr hside, hside, if_true]
    rcases orderedInsert_around (fun a b : Order γ => a.price > b.price) order watched front with
      haround | haround
    · left
      exact ⟨_, fun other => List.mem_orderedInsert _, fun behind opposite => by rw [haround]⟩
    · right
      exact fun behind => ⟨_, fun other => List.mem_orderedInsert _,
        fun opposite => by rw [haround]⟩
  · have horder : ¬ order.side = .buy := fun h => hside (joins.mp h)
    simp only [horder, hside, if_false]
    rcases orderedInsert_around (fun a b : Order γ => a.price < b.price) order watched front with
      haround | haround
    · left
      exact ⟨_, fun other => List.mem_orderedInsert _, fun behind opposite => by rw [haround]⟩
    · right
      exact fun behind => ⟨_, fun other => List.mem_orderedInsert _,
        fun opposite => by rw [haround]⟩

/-- An order that beats nobody in front comes behind all of them. -/
theorem insert_behind {order : Order γ} (joins : order.JoinsSide side) {front : List (Order γ)}
    (behind : ∀ resting ∈ front, ¬ order.Beats resting) (back opposite : List (Order γ)) :
    ∃ next, (∀ other, other ∈ next ↔ other = order ∨ other ∈ back) ∧
      (facing side (front ++ back) opposite).insert order = facing side (front ++ next) opposite := by
  unfold Order.Beats at behind
  unfold facing insert
  by_cases hside : side = .buy
  · simp only [joins.mpr hside, if_true] at behind
    simp only [joins.mpr hside, hside, if_true]
    exact ⟨_, fun other => List.mem_orderedInsert _, by rw [orderedInsert_past behind]⟩
  · have horder : ¬ order.side = .buy := fun h => hside (joins.mp h)
    simp only [horder, if_false] at behind
    simp only [horder, hside, if_false]
    exact ⟨_, fun other => List.mem_orderedInsert _, by rw [orderedInsert_past behind]⟩

theorem insert_opposite {order : Order γ} (other : ¬ order.JoinsSide side)
    (opposite : List (Order γ)) :
    ∃ next, (∀ resting, resting ∈ next ↔ resting = order ∨ resting ∈ opposite) ∧
      ∀ own, (facing side own opposite).insert order = facing side own next := by
  unfold facing insert
  unfold Order.JoinsSide at other
  by_cases hside : side = .buy
  · have horder : ¬ order.side = .buy := fun h => other ⟨fun _ => hside, fun _ => h⟩
    simp only [horder, hside, if_true, if_false]
    exact ⟨_, fun resting => List.mem_orderedInsert _, fun own => rfl⟩
  · have horder : order.side = .buy :=
      not_not.mp fun h => other ⟨fun hbuy => absurd hbuy h, fun hbuy => absurd hbuy hside⟩
    simp only [horder, hside, if_true, if_false]
    exact ⟨_, fun resting => List.mem_orderedInsert _, fun own => rfl⟩

/-! ## Cancels -/

/-- A cancel takes the first match out of the container of its side, and no other container
changes. -/
theorem cancelOrder_container {book : OrderBook γ} (sided : book.Sided) (request : Order γ)
    (origClientOrderID : Bytes) :
    (∀ side, (book.cancelOrder request origClientOrderID).1.container side =
        if side = request.side then
          (book.container side).eraseP (sameClientOrder origClientOrderID request.sessionId)
        else book.container side) ∧
      (book.cancelOrder request origClientOrderID).2 = cancelReports
        ((book.container request.side).find? (sameClientOrder origClientOrderID request.sessionId))
        request := by
  rcases cancelOrder_cases book request origClientOrderID with ⟨found, hfind, heq⟩ | ⟨hnone, heq⟩
  · obtain ⟨-, hsession, hclient⟩ := find_mem hfind
    rw [find_eq] at hfind
    have hside := (sided.mem_container.mp (List.mem_of_find?_eq_some hfind)).2
    rw [heq, hfind]
    refine ⟨fun side => ?_, rfl⟩
    rw [cancelFound_erase book hside hclient hsession]
    by_cases hsame : side = request.side
    · rw [if_pos hsame, if_pos hsame, hsame]
    · rw [if_neg hsame, if_neg hsame]
  · rw [find_eq] at hnone
    rw [heq, hnone]
    refine ⟨fun side => ?_, rfl⟩
    by_cases hsame : side = request.side
    · rw [if_pos hsame, hsame, List.eraseP_of_forall_not]
      exact fun resting hmem => List.find?_eq_none.mp hnone resting hmem
    · rw [if_neg hsame]

theorem eq_facing {book : OrderBook γ} {own opposite : List (Order γ)}
    (hside : side = .buy ∨ side = .sell) (hown : book.container side = own)
    (hopposite : ∀ other, other ≠ side → other ≠ .nonSupported → book.container other = opposite) :
    book = facing side own opposite := by
  obtain ⟨bids, asks⟩ := book
  rcases hside with rfl | rfl
  · exact congrArg₂ OrderBook.mk hown (hopposite .sell (by decide) (by decide))
  · exact congrArg₂ OrderBook.mk (hopposite .buy (by decide) (by decide)) hown

theorem container_own (hside : side = .buy ∨ side = .sell) (own opposite : List (Order γ)) :
    (facing side own opposite).container side = own := by
  rcases hside with rfl | rfl
  · rfl
  · rfl

theorem container_opposite (hside : side = .buy ∨ side = .sell) {other : OrderSide}
    (hother : other ≠ side) (sided : other ≠ .nonSupported) (own opposite : List (Order γ)) :
    (facing side own opposite).container other = opposite := by
  rcases hside with rfl | rfl
  · cases other with
    | nonSupported => exact absurd rfl sided
    | buy => exact absurd rfl hother
    | sell => rfl
  · cases other with
    | nonSupported => exact absurd rfl sided
    | buy => rfl
    | sell => exact absurd rfl hother

/-- There is one other side. -/
theorem otherSide_unique (hside : side = .buy ∨ side = .sell) {first second : OrderSide}
    (hfirst : first ≠ side) (hfirst' : first ≠ .nonSupported) (hsecond : second ≠ side)
    (hsecond' : second ≠ .nonSupported) : first = second := by
  rcases hside with rfl | rfl
  · cases first <;> cases second <;> simp_all
  · cases first <;> cases second <;> simp_all

variable (hside : side = .buy ∨ side = .sell) {own opposite : List (Order γ)}
  (sided : (facing side own opposite).Sided) {request : Order γ} (origClientOrderID : Bytes)

include hside sided

/-- A cancel of the side. -/
theorem cancelOrder_own (hrequest : request.side = side) :
    (facing side own opposite).cancelOrder request origClientOrderID =
      (facing side (own.eraseP (sameClientOrder origClientOrderID request.sessionId)) opposite,
        cancelReports (own.find? (sameClientOrder origClientOrderID request.sessionId))
          request) := by
  obtain ⟨hcontainer, hreports⟩ := cancelOrder_container sided request origClientOrderID
  rw [hrequest, container_own hside] at hreports
  refine Prod.ext (eq_facing hside ?_ fun other hother hsided => ?_) hreports
  · rw [hcontainer, if_pos hrequest.symm, container_own hside]
  · rw [hcontainer, if_neg (by rw [hrequest]; exact hother),
      container_opposite hside hother hsided]

/-- A cancel of the other side. -/
theorem cancelOrder_opposite (hrequest : request.side ≠ side)
    (hsided : request.side ≠ .nonSupported) :
    (facing side own opposite).cancelOrder request origClientOrderID =
      (facing side own (opposite.eraseP (sameClientOrder origClientOrderID request.sessionId)),
        cancelReports (opposite.find? (sameClientOrder origClientOrderID request.sessionId))
          request) := by
  obtain ⟨hcontainer, hreports⟩ := cancelOrder_container sided request origClientOrderID
  rw [container_opposite hside hrequest hsided] at hreports
  refine Prod.ext (eq_facing hside ?_ fun other hother hother' => ?_) hreports
  · rw [hcontainer, if_neg hrequest.symm, container_own hside]
  · have hsame := otherSide_unique hside hother hother' hrequest hsided
    rw [hcontainer, if_pos hsame, container_opposite hside hother hother']

end OrderBook

end LiteExchange.OrderMatcher
