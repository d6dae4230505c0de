import LiteExchange.Fix.Session
import LiteExchange.OrderMatcher.Evolution
import LiteExchange.Server.ServerFix

/-!
# Positive quantities over a run of the server

The required tags are checked to be there, not for their values, so a NEW_ORDER message
with tag 38 zero or negative becomes an order. When every tag 38 of a run is positive, all
quantities are, and each order only ever executes further.
-/

namespace LiteExchange.Server

open Foundation.Ascii Foundation.Lineage Foundation.Runs OrderMatcher
open LiteExchange.Fix LiteExchange.Fix.FixConstants

/-- Every trade is of a positive quantity, no average is divided by zero, and every resting
order is open and not executed in full. -/
structure QuantitiesPositive (system : System FixMessage) : Prop where
  trades : ∀ message, system.Reported message → message.isFill = true →
    0 < message.order.lastExecutedQuantity
  /-- `execute` divides by what is executed after it. -/
  divisors : ∀ message, system.Reported message → message.isFill = true →
    message.order.executedQuantity ≠ 0
  resting : ∀ securityId, ∀ order ∈ (system.central.book securityId).orders,
    (0 < order.openQuantity ∧ order.openQuantity ≤ order.quantity) ∧
      0 ≤ order.executedQuantity ∧ order.executedQuantity < order.quantity

/-- Tag 38 is positive where it is a number. -/
def PositiveQuantity (message : FixMessage) : Prop :=
  ∀ quantity, message.getTagValueAsLong fixTagOrderQuantity = .ok quantity → 0 < quantity

/-- The NEW_ORDER messages of the run have a positive tag 38. -/
def ServerLabel.PositiveQuantity : ServerLabel → Prop
  | .onFixMessage message _ _ => message.messageType = .newOrder → Server.PositiveQuantity message
  | .submit => True
  | .work _ => True

/-- The messages of the run have their required tags. -/
def ServerLabel.Validated : ServerLabel → Prop
  | .onFixMessage message _ _ => (FixSession.validateRequiredTags message 0).1 = true
  | .submit => True
  | .work _ => True

/-- A submitted order of a positive quantity is in progress. -/
theorem positiveQuantity_meets {manager : SecurityManager} {label : ServerLabel}
    {systemLabel : Label FixMessage} (positive : label.PositiveQuantity)
    (h : label.issued manager = some systemLabel) :
    systemLabel.Meets Order.InProgress Order.InProgress OutgoingMessage.PositiveFill := by
  refine issued_meets h ?_ fun _ hfill => by cases hfill
  intro message sessionId memory hlabel htype securityId side quantity price _ _ hquantity _
    orderID
  subst hlabel
  have hpositive : 0 < quantity := positive htype quantity hquantity
  have hfresh : ((submitted message sessionId (withOrigin memory message) securityId side quantity
      price).setOrderId orderID).Fresh := (submitted_fresh hquantity ..).setOrderId orderID
  have hprogress := hfresh.inProgress hpositive
  exact ⟨fun _ => hprogress, fun _ => hprogress⟩

namespace ServerFix

variable {server next last : ServerFix}

/-- The order that a step of the server brings into the book of the security. -/
def brings (server : ServerFix) (label : ServerLabel) (securityId : Nat) :
    List (Order FixMessage) :=
  match label.issued server.manager with
  | some systemLabel => server.system.brings systemLabel securityId
  | none => []

/-- The orders that the steps of a run bring into the book of the security, latest first. -/
def arrivals (securityId : Nat) : ServerFix → List ServerLabel → List (Order FixMessage)
  | _, [] => []
  | server, label :: rest =>
    match server.step label with
    | some next => next.arrivals securityId rest ++ server.brings label securityId
    | none => server.brings label securityId

/-- Orders in progress in all books, and positive fills in all reports. -/
abbrev InProgress (server : ServerFix) : Prop :=
  server.system.Holds Order.InProgress Order.InProgress OutgoingMessage.PositiveFill

theorem step_inProgress (h : server.InProgress) {label : ServerLabel}
    (positive : label.PositiveQuantity) (hstep : server.step label = some next) :
    next.InProgress := by
  obtain ⟨-, ⟨-, hsame⟩ | ⟨systemLabel, hissued, hnext⟩⟩ := step_cases hstep
  · rw [InProgress, hsame]
    exact h
  · exact System.step_holds progress_rule h (positiveQuantity_meets positive hissued) hnext

theorem step_stems (h : server.InProgress) {label : ServerLabel}
    (positive : label.PositiveQuantity) (hstep : server.step label = some next)
    (securityId : Nat) :
    StemsFrom Order.Evolves (next.system.central.book securityId).orders
      (server.brings label securityId ++ (server.system.central.book securityId).orders) := by
  unfold brings
  obtain ⟨-, ⟨hnone, hsame⟩ | ⟨systemLabel, hissued, hnext⟩⟩ := step_cases hstep
  · rw [hnone, hsame]
    exact StemsFrom.refl _
  · rw [hissued]
    exact System.step_stems h (positiveQuantity_meets positive hissued) hnext securityId

/-- The orders that rest after a run stem from those before it and those it brings. -/
theorem run_stems {labels : List ServerLabel} (h : server.InProgress)
    (positive : ∀ label ∈ labels, label.PositiveQuantity)
    (hrun : run step server labels = some last) (securityId : Nat) :
    StemsFrom Order.Evolves (last.system.central.book securityId).orders
      (server.arrivals securityId labels ++ (server.system.central.book securityId).orders) := by
  induction labels generalizing server with
  | nil =>
    cases hrun
    exact StemsFrom.refl _
  | cons label labels ih =>
    obtain ⟨next, hstep, hrest⟩ := Option.bind_eq_some_iff.mp hrun
    have hlabel := positive label List.mem_cons_self
    have hlater := ih (step_inProgress h hlabel hstep)
      (fun other hmem => positive other (List.mem_cons_of_mem label hmem)) hrest
    have hfirst := step_stems h hlabel hstep securityId
    simp only [arrivals, hstep, List.append_assoc]
    exact (hfirst.arrive _).trans hlater

end ServerFix

theorem quantitiesPositive_of_inProgress {server : ServerFix} (h : server.InProgress) :
    QuantitiesPositive server.system where
  trades := fun _ hreported hfill => (h.fill hreported hfill hfill).1
  divisors := fun _ hreported hfill => (h.fill hreported hfill hfill).2.ne'
  resting := by
    intro securityId order hmem
    have horder : order.InProgress := by
      cases List.mem_append.mp hmem with
      | inl hbid => exact (h.books securityId).bids order hbid
      | inr hask => exact (h.books securityId).asks order hask
    obtain ⟨⟨-, -, hexecuted, hsum⟩, hopen⟩ := horder
    omega

/-- In every run whose NEW_ORDER messages have a positive tag 38 the quantities are positive,
and from any state of the run to any later one every resting order stems from one that
rested before, with no more open and no less executed, or from one brought in between. -/
theorem quantities_positive_and_monotone (symbols : List Bytes) (multithreaded : Bool)
    (front back : List ServerLabel)
    (positive : ∀ label ∈ front ++ back, label.PositiveQuantity) (before after : ServerFix)
    (hfront : run ServerFix.step (ServerFix.configured symbols multithreaded) front = some before)
    (hback : run ServerFix.step before back = some after) :
    QuantitiesPositive after.system ∧ ∀ securityId,
      StemsFrom Order.Evolves (after.system.central.book securityId).orders
        (before.arrivals securityId back ++ (before.system.central.book securityId).orders) := by
  have hrun : run ServerFix.step (ServerFix.configured symbols multithreaded) (front ++ back) =
      some after := by
    rw [run_append, hfront]
    exact hback
  have hmeets : ∀ label ∈ front ++ back, ∀ manager systemLabel,
      label.issued manager = some systemLabel →
      systemLabel.Meets Order.InProgress Order.InProgress OutgoingMessage.PositiveFill :=
    fun label hmem _ _ hissued => positiveQuantity_meets (positive label hmem) hissued
  have hbefore : before.InProgress := ServerFix.run_holds progress_rule
    (System.configured_holds symbols multithreaded)
    (fun label hmem => hmeets label (List.mem_append_left back hmem) _) hfront
  have hafter : after.InProgress := ServerFix.run_holds progress_rule
    (System.configured_holds symbols multithreaded) (fun label hmem => hmeets label hmem _) hrun
  exact ⟨quantitiesPositive_of_inProgress hafter, fun securityId => ServerFix.run_stems hbefore
    (fun label hmem => positive label (List.mem_append_right front hmem)) hback securityId⟩

/-- The first order rests, the second one trades with it. -/
theorem quantities_positive_and_monotone_trade :
    ∃ before after,
      run ServerFix.step (ServerFix.configured [ascii "MSFT"] false)
        [.onFixMessage (newOrderMessage "1" "5" "10") 0 clearedMemory] = some before ∧
      run ServerFix.step before [.onFixMessage (newOrderMessage "2" "3" "10") 1 clearedMemory] =
        some after ∧
      QuantitiesPositive after.system ∧ ∀ securityId,
        StemsFrom Order.Evolves (after.system.central.book securityId).orders
          (before.arrivals securityId
              [.onFixMessage (newOrderMessage "2" "3" "10") 1 clearedMemory] ++
            (before.system.central.book securityId).orders) := by
  have hruns : ((run ServerFix.step (ServerFix.configured [ascii "MSFT"] false)
      [.onFixMessage (newOrderMessage "1" "5" "10") 0 clearedMemory]).bind fun before =>
        run ServerFix.step before
          [.onFixMessage (newOrderMessage "2" "3" "10") 1 clearedMemory]).isSome = true := by
    decide +kernel
  obtain ⟨after, hboth⟩ := Option.isSome_iff_exists.mp hruns
  obtain ⟨before, hfront, hback⟩ := Option.bind_eq_some_iff.mp hboth
  have hfive : (newOrderMessage "1" "5" "10").getTagValueAsLong fixTagOrderQuantity = .ok 5 := by
    decide +kernel
  have hthree : (newOrderMessage "2" "3" "10").getTagValueAsLong fixTagOrderQuantity = .ok 3 := by
    decide +kernel
  refine ⟨before, after, hfront, hback,
    quantities_positive_and_monotone [ascii "MSFT"] false _ _ ?_ before after hfront hback⟩
  simp only [List.cons_append, List.nil_append, List.forall_mem_cons, List.not_mem_nil,
    false_implies, implies_true, and_true]
  constructor
  · intro _ quantity hquantity
    rw [hfive] at hquantity
    cases hquantity
    decide
  · intro _ quantity hquantity
    rw [hthree] at hquantity
    cases hquantity
    decide

/-- A BUY of nothing and a SELL at the same price: the trade is of zero, and the average of
the ask is divided by zero. -/
def emptyOrderLabels : List ServerLabel :=
  [.onFixMessage (newOrderMessage "1" "0" "10") 0 clearedMemory,
    .onFixMessage (newOrderMessage "2" "5" "10") 1 clearedMemory]

theorem quantities_of_empty_order :
    ¬ ∀ (symbols : List Bytes) (multithreaded : Bool) (labels : List ServerLabel)
        (server : ServerFix), (∀ label ∈ labels, label.Validated) →
        run ServerFix.step (ServerFix.configured symbols multithreaded) labels = some server →
        QuantitiesPositive server.system := by
  intro h
  have htraded : (run ServerFix.step (ServerFix.configured [ascii "MSFT"] false)
      emptyOrderLabels).map (fun server =>
        (server.system.central.outgoingMessages 0).any fun message =>
          message.isFill && message.order.lastExecutedQuantity == 0) = some true := by
    decide +kernel
  have hvalid : ∀ label ∈ emptyOrderLabels, label.Validated := by
    simp only [emptyOrderLabels, List.forall_mem_cons, List.not_mem_nil, false_implies,
      implies_true, and_true]
    constructor
    · unfold ServerLabel.Validated
      decide +kernel
    · unfold ServerLabel.Validated
      decide +kernel
  obtain ⟨server, hrun, hany⟩ := Option.map_eq_some_iff.mp htraded
  obtain ⟨message, hmem, hmessage⟩ := List.any_eq_true.mp hany
  simp only [Bool.and_eq_true, beq_iff_eq] at hmessage
  have hpositive := (h [ascii "MSFT"] false emptyOrderLabels server hvalid hrun).trades message
    (Or.inl ⟨0, hmem⟩) hmessage.1
  omega

end LiteExchange.Server
