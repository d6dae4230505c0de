import LiteExchange.Server.ServerFix

/-!
# The limit of an order, from its text to its trades

The matching engine trades within the prices it is given: an ask executes at its own
price and a bid at a price it reaches. The price it is given is tag 44 read as a `long`,
so a fraction is cut off. That lowers a positive price and raises a negative one,
and beyond 2^53 the conversion to `double` may move it either way.
-/

namespace LiteExchange.Server

open Foundation.Ascii Foundation.Decimal Foundation.Runs OrderMatcher
open LiteExchange.Fix LiteExchange.Fix.FixConstants

/-- Tag 44 of the message an order was made from. -/
def limitText (order : Order FixMessage) : Bytes := order.origin.getTagValue fixTagOrderPrice

/-- A resting order does not promise more than its text. -/
def WithinLimit (order : Order FixMessage) : Prop :=
  ∀ limit, decimalValue (limitText order) = some limit →
    (order.side = .sell → limit ≤ order.price) ∧ (order.side = .buy → order.price ≤ limit)

/-- The last execution of an order is within the limit of its text. -/
def ExecutedWithinLimit (order : Order FixMessage) : Prop :=
  ∀ limit, decimalValue (limitText order) = some limit →
    (order.side = .sell → limit ≤ order.lastExecutedPrice) ∧
      (order.side = .buy → order.lastExecutedPrice ≤ limit)

/-- No SELL order is executed below its tag 44 and no BUY order above it. -/
def PriceProtected (system : System FixMessage) : Prop :=
  ∀ message, system.Reported message → message.isFill = true → ExecutedWithinLimit message.order

/-- Of a limit order whose price text is a decimal number: the number, rounded toward zero and
then to the nearest double, is not lower for a SELL and not higher for a BUY. -/
def KeepsLimit (message : FixMessage) (memory : OrderSide) : Prop :=
  ∀ limit side, decimalValue (message.getTagValue fixTagOrderPrice) = some limit →
    message.getTagValueAsInt fixTagOrderSide = .ok side →
    message.getTagValueAsInt fixTagOrderType = .ok fixOrderTypeLimit →
    (sideOf side memory = .sell → limit ≤ nearestDouble (truncate limit)) ∧
      (sideOf side memory = .buy → (nearestDouble (truncate limit) : ℚ) ≤ limit)

/-- The NEW_ORDER messages of the run keep their limits. -/
def ServerLabel.KeepsLimit : ServerLabel → Prop
  | .onFixMessage message _ memory =>
    message.messageType = .newOrder → Server.KeepsLimit message memory.side
  | .submit => True
  | .work _ => True

/-- The price text of a NEW_ORDER message is a decimal number. -/
def ServerLabel.DecimalPrice : ServerLabel → Prop
  | .onFixMessage message _ _ =>
    message.messageType = .newOrder →
      (decimalValue (message.getTagValue fixTagOrderPrice)).isSome = true
  | .submit => True
  | .work _ => True

/-- A whole number up to 2^53 is kept on both sides. -/
theorem keepsLimit_of_whole {message : FixMessage} {memory : OrderSide} {n : Int}
    (h : decimalValue (message.getTagValue fixTagOrderPrice) = some (n : ℚ))
    (small : n.natAbs < 2 ^ 53) : KeepsLimit message memory := by
  intro limit side hlimit _ _
  rw [h] at hlimit
  have hwhole : truncate (n : ℚ) = n := by simp [truncate]
  rw [← Option.some.inj hlimit, hwhole, nearestDouble_exact small]
  exact ⟨fun _ => le_refl _, fun _ => le_refl _⟩

/-- Trades keep the limits of both orders: the ask executes at its own price, the bid at
a price it reaches. -/
theorem limit_rule : BookLog.ReportRule
    (fun order => order.side = .buy ∧ WithinLimit order)
    (fun order => order.side ≠ .buy ∧ WithinLimit order)
    (fun message => message.isFill = true → ExecutedWithinLimit message.order) := by
  have hcanceled : ∀ order : Order FixMessage,
      (OutgoingMessage.new order.cancel .canceled).isFill = false := fun _ => rfl
  refine ⟨⟨?_, ?_, ?_, fun _ h => h, fun _ h => h⟩, fun order _ hfill => ?_, fun order _ hfill => ?_⟩
  · intro bid ask hbid hask hcross
    refine ⟨fun _ limit hlimit => ⟨fun hsell => ?_, fun _ => ?_⟩,
      fun _ limit hlimit => ⟨fun hsell => ?_, fun hbuy => ?_⟩⟩
    · have hside : bid.side = .sell := hsell
      rw [hbid.1] at hside
      cases hside
    · exact le_trans hcross ((hbid.2 limit hlimit).2 hbid.1)
    · exact (hask.2 limit hlimit).1 hsell
    · exact absurd hbuy hask.1
  · exact fun _ _ hbid _ _ _ => hbid
  · exact fun _ _ _ hask _ _ => hask
  · rw [hcanceled] at hfill
    cases hfill
  · rw [hcanceled] at hfill
    cases hfill

/-- What a message that keeps its limit submits meets the rule. -/
theorem keepsLimit_meets {manager : SecurityManager} {label : ServerLabel}
    {systemLabel : Label FixMessage} (keeps : label.KeepsLimit)
    (h : label.issued manager = some systemLabel) :
    systemLabel.Meets (fun order => order.side = .buy ∧ WithinLimit order)
      (fun order => order.side ≠ .buy ∧ WithinLimit order)
      (fun message => message.isFill = true → ExecutedWithinLimit message.order) := by
  refine issued_meets h ?_ fun _ hfill => by cases hfill
  intro message sessionId memory hlabel htype securityId side quantity price hlimitType hside _
    hprice orderID
  subst hlabel
  have hwithin : WithinLimit ((submitted message sessionId (withOrigin memory message)
      securityId side quantity price).setOrderId orderID) := by
    intro limit hlimit
    have hkept := keeps htype limit side hlimit hside hlimitType
    have htruncated : price = truncate limit := parseInteger_decimal hlimit hprice
    rw [← htruncated] at hkept
    exact hkept
  exact ⟨fun hbuy => ⟨hbuy, hwithin⟩, fun hbuy => ⟨hbuy, hwithin⟩⟩

/-- In every run whose NEW_ORDER messages keep their limits, no execution breaks the limit of
its order. -/
theorem limit_price_protected (symbols : List Bytes) (multithreaded : Bool)
    (labels : List ServerLabel) (keeps : ∀ label ∈ labels, label.KeepsLimit) (server : ServerFix)
    (hrun : run ServerFix.step (ServerFix.configured symbols multithreaded) labels = some server) :
    PriceProtected server.system := by
  have hholds := ServerFix.run_holds limit_rule (System.configured_holds symbols multithreaded)
    (fun label hmem systemLabel hissued => keepsLimit_meets (keeps label hmem) hissued) hrun
  exact fun message hreported hfill => hholds.fill hreported hfill hfill

/-- A SELL at 10.5 and a BUY at 10. -/
def halfTickLabels : List ServerLabel :=
  [.onFixMessage (newOrderMessage "2" "5" "10.5") 0 clearedMemory,
    .onFixMessage (newOrderMessage "1" "5" "10") 1 clearedMemory]

/-- A BUY at 10.5 and a SELL at 10: the fraction is cut off in the buyer's favour. -/
def favourableLabels : List ServerLabel :=
  [.onFixMessage (newOrderMessage "1" "5" "10.5") 0 clearedMemory,
    .onFixMessage (newOrderMessage "2" "5" "10") 1 clearedMemory]

theorem limit_price_protected_favourable :
    ∃ server, run ServerFix.step (ServerFix.configured [ascii "MSFT"] false) favourableLabels =
      some server ∧ PriceProtected server.system := by
  have hkeeps : ∀ label ∈ favourableLabels, label.KeepsLimit := by
    simp only [favourableLabels, List.forall_mem_cons, List.not_mem_nil, false_implies,
      implies_true, and_true]
    constructor
    · intro _ limit side hlimit hside _
      have htext : decimalValue ((newOrderMessage "1" "5" "10.5").getTagValue fixTagOrderPrice) =
          some (21 / 2) := by decide +kernel
      have hbuy : (newOrderMessage "1" "5" "10.5").getTagValueAsInt fixTagOrderSide = .ok 1 := by
        decide +kernel
      rw [htext] at hlimit
      rw [hbuy] at hside
      cases hlimit
      cases hside
      decide +kernel
    · intro _
      have htext : decimalValue ((newOrderMessage "2" "5" "10").getTagValue fixTagOrderPrice) =
          some ((10 : Int) : ℚ) := by decide +kernel
      exact keepsLimit_of_whole htext (by decide)
  have hruns : (run ServerFix.step (ServerFix.configured [ascii "MSFT"] false)
      favourableLabels).isSome = true := by decide +kernel
  obtain ⟨server, hrun⟩ := Option.isSome_iff_exists.mp hruns
  exact ⟨server, hrun, limit_price_protected _ false favourableLabels hkeeps server hrun⟩

/-- The SELL at 10.5 is executed at 10. -/
theorem limit_price_cut_off :
    ¬ ∀ (symbols : List Bytes) (multithreaded : Bool) (labels : List ServerLabel)
        (server : ServerFix), (∀ label ∈ labels, label.DecimalPrice) →
        run ServerFix.step (ServerFix.configured symbols multithreaded) labels = some server →
        PriceProtected server.system := by
  intro h
  have hsold : (run ServerFix.step (ServerFix.configured [ascii "MSFT"] false) halfTickLabels).map
      (fun server => (server.system.central.outgoingMessages 0).any fun message =>
        message.isFill && message.order.side == .sell && message.order.lastExecutedPrice == 10 &&
          decimalValue (limitText message.order) == some (21 / 2)) = some true := by
    decide +kernel
  have hdecimal : ∀ label ∈ halfTickLabels, label.DecimalPrice := by
    simp only [halfTickLabels, List.forall_mem_cons, List.not_mem_nil, false_implies,
      implies_true, and_true]
    exact ⟨fun _ => by decide +kernel, fun _ => by decide +kernel⟩
  obtain ⟨server, hrun, hany⟩ := Option.map_eq_some_iff.mp hsold
  obtain ⟨message, hmem, hmessage⟩ := List.any_eq_true.mp hany
  simp only [Bool.and_eq_true, beq_iff_eq] at hmessage
  obtain ⟨⟨⟨hfill, hsell⟩, hprice⟩, hlimit⟩ := hmessage
  have hbroken := (h [ascii "MSFT"] false halfTickLabels server hdecimal hrun message
    (Or.inl ⟨0, hmem⟩) hfill (21 / 2) hlimit).1 hsell
  rw [hprice] at hbroken
  norm_num at hbroken

end LiteExchange.Server
