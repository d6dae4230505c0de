import LiteExchange.Core.RingInvariant
import LiteExchange.OrderMatcher.Concurrent

/-!
# The rings of outgoing messages

Source: addOrder, taskNewOrder, taskCancelOrder and `OutgoingMessageProcessor::run`.
The submitting thread pushes the ACCEPTED report of an order while the worker of the same
ring pushes the reports of earlier orders, and each push is four steps of `tryPush`. A call
or a task goes on when the store of its push is done; one thread pops from every ring.
-/

namespace LiteExchange.OrderMatcher

open Foundation.Ascii Foundation.Runs LiteExchange.Core

variable {γ : Type}

/-- The threads that push reports. -/
inductive Pusher where
  | submitter
  | worker (queueIndex : Nat)
  deriving DecidableEq

inductive PushStep where
  | loadWrite | checkRead | writeSlot | storeWrite
  deriving DecidableEq

inductive PopStep where
  | loadRead | checkWrite | readSlot | storeRead

def PushStep.ringStep {α : Type} (pusher : Pusher) (message : α) : PushStep → RingStep Pusher α
  | .loadWrite => .loadWrite pusher message
  | .checkRead => .checkRead pusher
  | .writeSlot => .writeSlot pusher
  | .storeWrite => .storeWrite pusher

def PopStep.ringStep {α : Type} : PopStep → RingStep Pusher α
  | .loadRead => .loadRead
  | .checkWrite => .checkWrite
  | .readSlot => .readSlot
  | .storeRead => .storeRead

/-- `adding` is the order of an `addOrder` that has not pushed its ACCEPTED report yet. -/
structure Outgoing (γ : Type) where
  system : System γ
  rings : Nat → RingBuffer Pusher (OutgoingMessage γ)
  adding : Option (Order γ) := none

/-- A step of the submitting thread or of a worker that pushes nothing, a step of `tryPush`
for the report that a thread has to push next, or a step of `tryPop`. -/
inductive OutgoingStep (γ : Type) where
  | addOrder (order : Order γ)
  | cancelOrder (order : Order γ) (origClientOrderID : Bytes)
  | submit
  | work (queueIndex : Nat)
  | push (pusher : Pusher) (step : PushStep)
  | pop (queueID : Nat) (step : PopStep)

namespace Outgoing

/-- The ring, the report a thread has to push next, and the step it makes with that push. -/
def pending (outgoing : Outgoing γ) : Pusher → Option (Nat × OutgoingMessage γ × Label γ)
  | .submitter =>
    outgoing.adding.map fun order =>
      (outgoing.system.central.queueID order.securityId,
        .new (order.setOrderId outgoing.system.central.nextOrderId) .accepted, .addOrder order)
  | .worker queueIndex =>
    match outgoing.system.workers queueIndex with
    | .busy securityId (report :: _) _ =>
      some (outgoing.system.central.queueID securityId, report, .work queueIndex)
    | _ => none

def setSystem (outgoing : Outgoing γ) (system : System γ) : Outgoing γ :=
  { outgoing with system := system }

def setRing (outgoing : Outgoing γ) (queueID : Nat) (ring : RingBuffer Pusher (OutgoingMessage γ)) :
    Outgoing γ :=
  { outgoing with rings := Function.update outgoing.rings queueID ring }

/-- The push is done, and the call or the task goes on. -/
def finishPush (outgoing : Outgoing γ) (pusher : Pusher) (label : Label γ) : Option (Outgoing γ) :=
  (outgoing.system.step label).map fun system =>
    { outgoing with
      system := system
      adding := if pusher = .submitter then none else outgoing.adding }

def step (outgoing : Outgoing γ) : OutgoingStep γ → Option (Outgoing γ)
  | .addOrder order =>
    if outgoing.adding.isNone && outgoing.system.submitting.isNone then
      some { outgoing with adding := some order }
    else none
  | .cancelOrder order origClientOrderID =>
    if outgoing.adding.isNone then
      (outgoing.system.step (.cancelOrder order origClientOrderID)).map outgoing.setSystem
    else none
  | .submit => (outgoing.system.step .submit).map outgoing.setSystem
  | .work queueIndex =>
    if (outgoing.pending (.worker queueIndex)).isNone then
      (outgoing.system.step (.work queueIndex)).map outgoing.setSystem
    else none
  | .push pusher step =>
    match outgoing.pending pusher with
    | some (queueID, message, label) =>
      match (outgoing.rings queueID).step (step.ringStep pusher message) with
      | some ring =>
        if step = .storeWrite then (outgoing.setRing queueID ring).finishPush pusher label
        else some (outgoing.setRing queueID ring)
      | none => none
    | none => none
  | .pop queueID step =>
    ((outgoing.rings queueID).step step.ringStep).map (outgoing.setRing queueID)

/-- The system in multithreaded mode; `memory` is what the slots hold before they are written. -/
def configured (symbols : List Bytes) (capacity : Nat) (positive : 0 < capacity)
    (memory : Nat → Nat → OutgoingMessage γ) : Outgoing γ where
  system := System.configured symbols true
  rings := fun queueID => RingBuffer.initial capacity positive (memory queueID)

/-- The step of a ring that a step of the system is. -/
def ringStep (outgoing : Outgoing γ) :
    OutgoingStep γ → Option (Nat × RingStep Pusher (OutgoingMessage γ))
  | .push pusher step =>
    (outgoing.pending pusher).map fun (queueID, message, _) =>
      (queueID, step.ringStep pusher message)
  | .pop queueID step => some (queueID, step.ringStep)
  | _ => none

/-- The producers of a ring take turns in this step. -/
def Exclusive (outgoing : Outgoing γ) (label : OutgoingStep γ) : Prop :=
  ∀ queueID ringStep, outgoing.ringStep label = some (queueID, ringStep) →
    (outgoing.rings queueID).Exclusive ringStep

/-- A ring only changes by a step of its own. -/
theorem step_rings {outgoing next : Outgoing γ} {label : OutgoingStep γ}
    (hstep : outgoing.step label = some next) (queueID : Nat) :
    next.rings queueID = outgoing.rings queueID ∨
      ∃ ringStep, outgoing.ringStep label = some (queueID, ringStep) ∧
        (outgoing.rings queueID).step ringStep = some (next.rings queueID) := by
  have hother : ∀ other ring, other ≠ queueID →
      (outgoing.setRing other ring).rings queueID = outgoing.rings queueID :=
    fun other ring hne => Function.update_of_ne hne.symm ..
  have hself : ∀ ring, (outgoing.setRing queueID ring).rings queueID = ring :=
    fun ring => Function.update_self ..
  cases label with
  | addOrder order =>
    simp only [step] at hstep
    split at hstep
    · cases hstep
      exact Or.inl rfl
    · cases hstep
  | cancelOrder order origClientOrderID =>
    simp only [step] at hstep
    split at hstep
    · obtain ⟨system, _, rfl⟩ := Option.map_eq_some_iff.mp hstep
      exact Or.inl rfl
    · cases hstep
  | submit =>
    obtain ⟨system, _, rfl⟩ := Option.map_eq_some_iff.mp hstep
    exact Or.inl rfl
  | work queueIndex =>
    simp only [step] at hstep
    split at hstep
    · obtain ⟨system, _, rfl⟩ := Option.map_eq_some_iff.mp hstep
      exact Or.inl rfl
    · cases hstep
  | push pusher act =>
    simp only [step] at hstep
    split at hstep
    · rename_i other message label hpending
      split at hstep
      · rename_i ring hring
        have hrings : next.rings queueID = (outgoing.setRing other ring).rings queueID := by
          split at hstep
          · obtain ⟨system, _, rfl⟩ := Option.map_eq_some_iff.mp hstep
            rfl
          · cases hstep
            rfl
        rw [hrings]
        by_cases hsame : other = queueID
        · subst hsame
          rw [hself]
          exact Or.inr ⟨_, by rw [ringStep, hpending]; rfl, hring⟩
        · exact Or.inl (hother other ring hsame)
      · cases hstep
    · cases hstep
  | pop other act =>
    obtain ⟨ring, hring, rfl⟩ := Option.map_eq_some_iff.mp hstep
    by_cases hsame : other = queueID
    · subst hsame
      rw [hself]
      exact Or.inr ⟨_, rfl, hring⟩
    · exact Or.inl (hother other ring hsame)

/-- Where the threads take turns, every ring is sound. -/
theorem rings_sound (symbols : List Bytes) (capacity : Nat) (positive : 0 < capacity)
    (memory : Nat → Nat → OutgoingMessage γ) {labels : List (OutgoingStep γ)} {outgoing : Outgoing γ}
    (hrun : run step (configured symbols capacity positive memory) labels = some outgoing)
    (exclusive : Along step Exclusive (configured symbols capacity positive memory) labels)
    (queueID : Nat) : (outgoing.rings queueID).Sound := by
  refine run_induction_along
    (fun _ (outgoing : Outgoing γ) => ∀ queueID, (outgoing.rings queueID).Sound)
    (fun queueID => RingBuffer.initial_sound capacity positive (memory queueID)) ?_
    hrun exclusive queueID
  intro labels before label after _ hsound hexclusive hstep queueID
  rcases step_rings hstep queueID with hkept | ⟨ringStep, hlabel, hring⟩
  · rw [hkept]
    exact hsound queueID
  · exact (hsound queueID).step (hexclusive queueID ringStep hlabel) hring

/-- The reports popped from a ring are the ones pushed to it, each once and those of a thread
in the order of its pushes, in every run in which the threads take turns. -/
theorem reports_delivered (symbols : List Bytes) (capacity : Nat) (positive : 0 < capacity)
    (memory : Nat → Nat → OutgoingMessage γ) {labels : List (OutgoingStep γ)} {outgoing : Outgoing γ}
    (hrun : run step (configured symbols capacity positive memory) labels = some outgoing)
    (exclusive : Along step Exclusive (configured symbols capacity positive memory) labels)
    (queueID : Nat) : (outgoing.rings queueID).Delivers :=
  (rings_sound symbols capacity positive memory hrun exclusive queueID).delivers

def limitOrder (clientOrderID : String) (side : OrderSide) : Order Unit :=
  .new 0 (ascii clientOrderID) 0 0 side .limit 10 5 ()

/-- One symbol and a ring of eight reports. -/
def oneRing : Outgoing Unit :=
  configured [ascii "AAPL"] 8 (by decide) fun _ _ => .new (limitOrder "" .buy) .accepted

def pushAll (pusher : Pusher) : List (OutgoingStep Unit) :=
  [.push pusher .loadWrite, .push pusher .checkRead, .push pusher .writeSlot,
    .push pusher .storeWrite]

def popAll : List (OutgoingStep Unit) :=
  [.pop 0 .loadRead, .pop 0 .checkWrite, .pop 0 .readSlot, .pop 0 .storeRead]

def acceptedLabels : List (OutgoingStep Unit) :=
  .addOrder (limitOrder "A" .sell) :: pushAll .submitter ++ popAll

theorem acceptedLabels_exclusive : Along step Exclusive oneRing acceptedLabels := by
  -- One conjunct for each label; only the slot and the store of the push have a condition.
  refine ⟨fun _ _ h => (by cases h), fun _ h => ?_⟩
  cases h
  refine ⟨fun _ _ h => (by cases h; trivial), fun _ h => ?_⟩
  cases h
  refine ⟨fun _ _ h => (by cases h; trivial), fun _ h => ?_⟩
  cases h
  refine ⟨fun _ _ h => ?_, fun _ h => ?_⟩
  · cases h
    refine ⟨rfl, fun other => ?_⟩
    cases other with
    | submitter => rfl
    | worker queueIndex => rfl
  cases h
  refine ⟨fun _ _ h => ?_, fun _ h => ?_⟩
  · cases h
    change (0 : Int) < 2 ^ 31 - 1
    decide
  cases h
  refine ⟨fun _ _ h => (by cases h; trivial), fun _ h => ?_⟩
  cases h
  refine ⟨fun _ _ h => (by cases h; trivial), fun _ h => ?_⟩
  cases h
  refine ⟨fun _ _ h => (by cases h; trivial), fun _ h => ?_⟩
  cases h
  exact ⟨fun _ _ h => (by cases h; trivial), fun _ h => by cases h; trivial⟩

theorem reports_delivered_accepted :
    ∃ outgoing, run step oneRing acceptedLabels = some outgoing ∧
      (outgoing.rings 0).Delivers ∧ (outgoing.rings 0).popped.length = 1 := by
  have hpopped : (run step oneRing acceptedLabels).map
      (fun outgoing => (outgoing.rings 0).popped.length) = some 1 := by decide +kernel
  obtain ⟨outgoing, hrun, hlength⟩ := Option.map_eq_some_iff.mp hpopped
  have hdelivers := reports_delivered [ascii "AAPL"] 8 (by decide) _ hrun acceptedLabels_exclusive 0
  exact ⟨outgoing, hrun, hdelivers, hlength⟩

/-- The ACCEPTED reports of two orders are pushed and popped. Then the worker pushes the FILLED
report of the second order while the submitting thread pushes the ACCEPTED report of a third. -/
def crossingPushes : List (OutgoingStep Unit) :=
  [.addOrder (limitOrder "A" .sell)] ++ pushAll .submitter ++ [.submit, .work 0, .work 0] ++
    [.addOrder (limitOrder "B" .buy)] ++ pushAll .submitter ++ [.submit, .work 0] ++
    popAll ++ popAll ++
    [.addOrder (limitOrder "C" .buy),
      .push .submitter .loadWrite, .push (.worker 0) .loadWrite,
      .push .submitter .checkRead, .push (.worker 0) .checkRead,
      .push .submitter .writeSlot, .push (.worker 0) .writeSlot,
      .push .submitter .storeWrite, .push (.worker 0) .storeWrite] ++ popAll

/-- Four reports were pushed to this ring by two threads, three were popped, and it is empty. -/
def lacksReport (ring : RingBuffer Pusher (OutgoingMessage Unit)) : Bool :=
  (ring.pushed.filter fun push => push.1 = .submitter).length == 3 &&
    (ring.pushed.filter fun push => push.1 = .worker 0).length == 1 &&
    ring.popped.length == 3 && ring.consumer == .idle && ring.read == ring.write

theorem not_delivers_of_lacksReport {ring : RingBuffer Pusher (OutgoingMessage Unit)}
    (lacks : lacksReport ring = true) : ¬ ring.Delivers := by
  simp only [lacksReport, Bool.and_eq_true, beq_iff_eq] at lacks
  obtain ⟨⟨⟨⟨hsubmitter, hworker⟩, hpopped⟩, hidle⟩, hempty⟩ := lacks
  rintro ⟨merged, hmerged, -, hall⟩
  have hlength : merged.length = 3 := by
    rw [← hpopped, hall hidle hempty, List.length_map]
  rw [← hmerged] at hsubmitter hworker
  have hsplit := List.length_eq_length_filter_add (l := merged) fun push => push.1 = .submitter
  have hothers : (merged.filter fun push => push.1 = .worker 0).Sublist
      (merged.filter fun push => !decide (push.1 = .submitter)) := by
    apply List.monotone_filter_right
    intro push hpush
    simp only [decide_eq_true_eq] at hpush
    simp [hpush]
  have hle := hothers.length_le
  omega

/-- Two producers of one ring lose a report. -/
theorem report_lost :
    ∃ outgoing, run step oneRing crossingPushes = some outgoing ∧
      ¬ (outgoing.rings 0).Delivers := by
  have hlacks : (run step oneRing crossingPushes).map
      (fun outgoing => lacksReport (outgoing.rings 0)) = some true := by decide +kernel
  obtain ⟨outgoing, hrun, hring⟩ := Option.map_eq_some_iff.mp hlacks
  exact ⟨outgoing, hrun, not_delivers_of_lacksReport hring⟩

end Outgoing

end LiteExchange.OrderMatcher
