import LiteExchange.Foundation.Refinement
import LiteExchange.OrderMatcher.OutgoingRings
import LiteExchange.OrderMatcher.Simulation

/-!
# The rings hold what the order matcher pushed

With its rings, the multithreaded order matcher makes the steps that it makes without them: a
push is the step of the thread that makes it, done with the store of `m_write`. Each ring holds
the reports that were pushed to it in the order of these steps.
-/

namespace LiteExchange.OrderMatcher

open Foundation.Ascii Foundation.Runs Foundation.Refinement LiteExchange.Core

variable {γ : Type}

namespace Outgoing

/-- The step that the order matcher makes without its rings. -/
def systemStep (outgoing : Outgoing γ) : OutgoingStep γ → Option (Label γ)
  | .cancelOrder order origClientOrderID => some (.cancelOrder order origClientOrderID)
  | .submit => some .submit
  | .work queueIndex => some (.work queueIndex)
  | .push pusher .storeWrite => (outgoing.pending pusher).map fun (_, _, label) => label
  | _ => none

/-- A thread only pushes the report that it has to push next, and the rings hold what was
pushed. -/
structure Records (outgoing : Outgoing γ) : Prop where
  multithreaded : outgoing.system.central.isMatchingMultithreaded = true
  pushing : ∀ queueID pusher val, ((outgoing.rings queueID).producers pusher).val = some val →
    ∃ label, outgoing.pending pusher = some (queueID, val, label)
  values : ∀ queueID,
    (outgoing.rings queueID).values = outgoing.system.central.outgoingMessages queueID

variable {outgoing next : Outgoing γ}

theorem step_system {label : OutgoingStep γ} (hstep : outgoing.step label = some next) :
    match outgoing.systemStep label with
    | some systemLabel => outgoing.system.step systemLabel = some next.system
    | none => next.system = outgoing.system := by
  cases label with
  | addOrder order =>
    simp only [step, Option.ite_none_right_eq_some] at hstep
    cases hstep.2
    rfl
  | cancelOrder order origClientOrderID =>
    simp only [step, Option.ite_none_right_eq_some] at hstep
    obtain ⟨system, hsystem, rfl⟩ := Option.map_eq_some_iff.mp hstep.2
    exact hsystem
  | submit =>
    obtain ⟨system, hsystem, rfl⟩ := Option.map_eq_some_iff.mp hstep
    exact hsystem
  | work queueIndex =>
    simp only [step, Option.ite_none_right_eq_some] at hstep
    obtain ⟨system, hsystem, rfl⟩ := Option.map_eq_some_iff.mp hstep.2
    exact hsystem
  | push pusher act =>
    simp only [step] at hstep
    split at hstep
    · rename_i queueID message label hpending
      split at hstep
      · split at hstep
        · rename_i hstore
          subst hstore
          obtain ⟨system, hsystem, rfl⟩ := Option.map_eq_some_iff.mp hstep
          simp only [systemStep, hpending, Option.map_some]
          exact hsystem
        · rename_i hother
          cases hstep
          cases act with
          | storeWrite => exact absurd rfl hother
          | loadWrite => rfl
          | checkRead => rfl
          | writeSlot => rfl
      · cases hstep
    · cases hstep
  | pop queueID act =>
    obtain ⟨ring, -, rfl⟩ := Option.map_eq_some_iff.mp hstep
    rfl

/-! ## What the rings hold -/

theorem pending_submitter (adding : next.adding = outgoing.adding)
    (queueID : ∀ securityId,
      next.system.central.queueID securityId = outgoing.system.central.queueID securityId)
    (number : next.system.central.orderNumber = outgoing.system.central.orderNumber) :
    next.pending .submitter = outgoing.pending .submitter := by
  simp only [pending, adding, queueID, CentralOrderBook.nextOrderId, number]

theorem pending_worker {queueIndex : Nat}
    (workers : next.system.workers queueIndex = outgoing.system.workers queueIndex)
    (queueID : ∀ securityId,
      next.system.central.queueID securityId = outgoing.system.central.queueID securityId) :
    next.pending (.worker queueIndex) = outgoing.pending (.worker queueIndex) := by
  simp only [pending, workers, queueID]

/-- A step that pushes nothing, and changes no push that is under way. -/
theorem Records.unpushed (h : outgoing.Records) (rings : next.rings = outgoing.rings)
    (pushed : next.system.central.outgoingMessages = outgoing.system.central.outgoingMessages)
    (mode : next.system.central.isMatchingMultithreaded =
      outgoing.system.central.isMatchingMultithreaded)
    (pending : ∀ pusher report, outgoing.pending pusher = some report →
      next.pending pusher = some report) : next.Records where
  multithreaded := by rw [mode]; exact h.multithreaded
  pushing := fun queueID pusher val hval => by
    rw [rings] at hval
    obtain ⟨label, hpending⟩ := h.pushing queueID pusher val hval
    exact ⟨label, pending pusher _ hpending⟩
  values := fun queueID => by
    rw [rings, pushed]
    exact h.values queueID

/-- A task goes to its queue. -/
theorem Records.submitted (h : outgoing.Records) {system : System γ}
    (central : system.central = outgoing.system.central)
    (workers : system.workers = outgoing.system.workers) : (outgoing.setSystem system).Records := by
  refine h.unpushed rfl (by simp only [setSystem, central]) (by simp only [setSystem, central]) ?_
  intro pusher report hpending
  rw [← hpending]
  cases pusher with
  | submitter =>
    exact pending_submitter rfl (fun _ => by simp only [setSystem, central])
      (by simp only [setSystem, central])
  | worker queueIndex =>
    exact pending_worker (by simp only [setSystem, workers]) fun _ => by
      simp only [setSystem, central]

/-- A worker with no report to push goes on with its task. -/
theorem work_unpushed {system after : System γ} {queueIndex : Nat}
    (hstep : system.work queueIndex = some after)
    (hnone : ∀ securityId report pending erasing,
      system.workers queueIndex ≠ .busy securityId (report :: pending) erasing) :
    (∀ other, other ≠ queueIndex → after.workers other = system.workers other) ∧
      (∃ books, after.central = { system.central with orderBookDictionary := books }) := by
  unfold System.work at hstep
  split at hstep
  · split at hstep
    · cases hstep
    · obtain ⟨⟨book, pending, erasing⟩, -, rfl⟩ := Option.map_eq_some_iff.mp hstep
      exact ⟨fun other hother => Function.update_of_ne hother .., _, rfl⟩
  · rename_i hbusy
    exact absurd hbusy (hnone _ _ _ _)
  · cases hstep
    exact ⟨fun other hother => Function.update_of_ne hother .., _, rfl⟩
  · cases hstep
    exact ⟨fun other hother => Function.update_of_ne hother .., _, rfl⟩

theorem work_records (h : outgoing.Records) {queueIndex : Nat}
    (hstep : outgoing.step (.work queueIndex) = some next) : next.Records := by
  simp only [step, Option.ite_none_right_eq_some, Option.isNone_iff_eq_none] at hstep
  obtain ⟨hnone, hstep⟩ := hstep
  obtain ⟨system, hsystem, rfl⟩ := Option.map_eq_some_iff.mp hstep
  have hunpushed : ∀ securityId report pending erasing,
      outgoing.system.workers queueIndex ≠ .busy securityId (report :: pending) erasing := by
    intro securityId report pending erasing hbusy
    simp [Outgoing.pending, hbusy] at hnone
  obtain ⟨hothers, books, hcentral⟩ := work_unpushed hsystem hunpushed
  refine h.unpushed rfl (by simp only [setSystem, hcentral]) (by simp only [setSystem, hcentral]) ?_
  intro pusher report hpending
  rw [← hpending]
  cases pusher with
  | submitter =>
    exact pending_submitter rfl (fun _ => by simp only [setSystem, hcentral]; rfl)
      (by simp only [setSystem, hcentral])
  | worker other =>
    have hother : other ≠ queueIndex := by
      rintro rfl
      rw [hnone] at hpending
      cases hpending
    exact pending_worker (hothers other hother) fun _ => by simp only [setSystem, hcentral]; rfl

/-- A step of a ring that stores nothing. -/
theorem ring_records (h : outgoing.Records) {queueID : Nat}
    {ringStep : RingStep Pusher (OutgoingMessage γ)}
    {ring : RingBuffer Pusher (OutgoingMessage γ)}
    (hring : (outgoing.rings queueID).step ringStep = some ring)
    (hloads : ∀ pusher val, ringStep = .loadWrite pusher val →
      ∃ label, outgoing.pending pusher = some (queueID, val, label))
    (hstore : ∀ pusher, ringStep ≠ .storeWrite pusher) :
    (outgoing.setRing queueID ring).Records where
  multithreaded := h.multithreaded
  pushing := by
    intro other pusher val hval
    by_cases hsame : other = queueID
    · subst hsame
      simp only [setRing, Function.update_self] at hval
      rcases RingBuffer.step_val hring hval with hbefore | hload
      · exact h.pushing other pusher val hbefore
      · exact hloads pusher val hload
    · simp only [setRing, Function.update_of_ne hsame] at hval
      exact h.pushing other pusher val hval
  values := by
    intro other
    by_cases hsame : other = queueID
    · subst hsame
      simp only [setRing, Function.update_self]
      rcases RingBuffer.step_pushes hring with ⟨pusher, val, hstores, -⟩ | ⟨-, hpushed⟩
      · exact absurd hstores (hstore pusher)
      · rw [RingBuffer.values, hpushed]
        exact h.values other
    · simp only [setRing, Function.update_of_ne hsame]
      exact h.values other

/-- The step that a push is done with pushes its report, and changes no other push. -/
structure Pushes (outgoing next : Outgoing γ) (pusher : Pusher) (queueID : Nat)
    (message : OutgoingMessage γ) : Prop where
  multithreaded : next.system.central.isMatchingMultithreaded = true
  pushed : ∀ other, next.system.central.outgoingMessages other =
    outgoing.system.central.outgoingMessages other ++ if other = queueID then [message] else []
  pending : ∀ other, other ≠ pusher → next.pending other = outgoing.pending other

theorem submitter_pushes (mode : outgoing.system.central.isMatchingMultithreaded = true)
    {queueID : Nat} {message : OutgoingMessage γ} {label : Label γ}
    (hpending : outgoing.pending .submitter = some (queueID, message, label))
    (hstep : outgoing.finishPush .submitter label = some next) :
    Pushes outgoing next .submitter queueID message := by
  obtain ⟨order, hadding, hreport⟩ := Option.map_eq_some_iff.mp hpending
  cases hreport
  obtain ⟨system, hsystem, rfl⟩ := Option.map_eq_some_iff.mp hstep
  have haccepted : (outgoing.system.central.acceptOrder order).1.isMatchingMultithreaded = true :=
    mode
  simp only [System.step, System.addOrder, haccepted, if_true,
    Option.ite_none_right_eq_some] at hsystem
  cases hsystem.2
  refine ⟨mode, fun other => CentralOrderBook.outgoingMessages_push _ _ _ _, fun other hother => ?_⟩
  cases other with
  | submitter => exact absurd rfl hother
  | worker queueIndex => exact pending_worker rfl fun _ => rfl

theorem worker_pushes (mode : outgoing.system.central.isMatchingMultithreaded = true)
    {queueIndex queueID : Nat} {message : OutgoingMessage γ} {label : Label γ}
    (hpending : outgoing.pending (.worker queueIndex) = some (queueID, message, label))
    (hstep : outgoing.finishPush (.worker queueIndex) label = some next) :
    Pushes outgoing next (.worker queueIndex) queueID message := by
  simp only [Outgoing.pending] at hpending
  split at hpending
  · rename_i securityId report pending erasing hbusy
    cases hpending
    obtain ⟨system, hsystem, rfl⟩ := Option.map_eq_some_iff.mp hstep
    simp only [System.step, System.work, hbusy] at hsystem
    cases hsystem
    refine ⟨mode, fun other => CentralOrderBook.outgoingMessages_push _ _ _ _,
      fun other hother => ?_⟩
    cases other with
    | submitter => exact pending_submitter rfl (fun _ => rfl) rfl
    | worker other =>
      have hindex : other ≠ queueIndex := fun hsame => hother (congrArg Pusher.worker hsame)
      exact pending_worker (Function.update_of_ne hindex ..) fun _ => rfl
  · cases hpending

theorem finishPush_rings {pusher : Pusher} {label : Label γ}
    (hstep : outgoing.finishPush pusher label = some next) : next.rings = outgoing.rings := by
  obtain ⟨system, -, rfl⟩ := Option.map_eq_some_iff.mp hstep
  rfl

theorem store_records (h : outgoing.Records) {pusher : Pusher} {queueID : Nat}
    {message : OutgoingMessage γ} {label : Label γ}
    (hpending : outgoing.pending pusher = some (queueID, message, label))
    {ring : RingBuffer Pusher (OutgoingMessage γ)}
    (hring : (outgoing.rings queueID).step (.storeWrite pusher) = some ring)
    (hstep : (outgoing.setRing queueID ring).finishPush pusher label = some next) :
    next.Records := by
  have hmode : (outgoing.setRing queueID ring).system.central.isMatchingMultithreaded = true :=
    h.multithreaded
  have hstored : (outgoing.setRing queueID ring).pending pusher = some (queueID, message, label) :=
    hpending
  have hpushes : Pushes outgoing next pusher queueID message := by
    cases pusher with
    | submitter =>
      have hpushed : Pushes (outgoing.setRing queueID ring) next .submitter queueID message :=
        submitter_pushes hmode hstored hstep
      exact ⟨hpushed.multithreaded, hpushed.pushed, hpushed.pending⟩
    | worker queueIndex =>
      have hpushed : Pushes (outgoing.setRing queueID ring) next (.worker queueIndex) queueID
          message := worker_pushes hmode hstored hstep
      exact ⟨hpushed.multithreaded, hpushed.pushed, hpushed.pending⟩
  have hrings := finishPush_rings hstep
  obtain ⟨stored, val, hlabel, hval, hpushed, hidle⟩ | ⟨hother, -⟩ := RingBuffer.step_pushes hring
  swap
  · exact absurd rfl (hother pusher)
  cases hlabel
  -- The call pushes the report that the thread has to push next.
  obtain ⟨own, hown⟩ := h.pushing queueID pusher val hval
  rw [hpending] at hown
  cases hown
  refine ⟨hpushes.multithreaded, fun other another val hcall => ?_, fun other => ?_⟩
  · rw [hrings] at hcall
    have hbefore : ((outgoing.rings other).producers another).val = some val ∧
        another ≠ pusher := by
      by_cases hsame : other = queueID
      · subst hsame
        simp only [setRing, Function.update_self] at hcall
        constructor
        · rcases RingBuffer.step_val hring hcall with hbefore | hload
          · exact hbefore
          · cases hload
        · rintro rfl
          rw [hidle] at hcall
          cases hcall
      · simp only [setRing, Function.update_of_ne hsame] at hcall
        refine ⟨hcall, ?_⟩
        rintro rfl
        obtain ⟨elsewhere, helsewhere⟩ := h.pushing other another val hcall
        rw [hpending] at helsewhere
        cases helsewhere
        exact hsame rfl
    rw [hpushes.pending another hbefore.2]
    exact h.pushing other another val hbefore.1
  · rw [hrings, hpushes.pushed other, ← h.values other]
    by_cases hsame : other = queueID
    · subst hsame
      simp only [setRing, Function.update_self, RingBuffer.values, hpushed, List.map_append,
        if_true]
      rfl
    · simp only [setRing, Function.update_of_ne hsame, if_neg hsame, List.append_nil]

theorem step_records (h : outgoing.Records) {label : OutgoingStep γ}
    (hstep : outgoing.step label = some next) : next.Records := by
  cases label with
  | addOrder order =>
    simp only [step, Option.ite_none_right_eq_some, Bool.and_eq_true,
      Option.isNone_iff_eq_none] at hstep
    obtain ⟨⟨hadding, -⟩, hnext⟩ := hstep
    cases hnext
    refine h.unpushed rfl rfl rfl fun pusher report hpending => ?_
    cases pusher with
    | submitter =>
      rw [pending, hadding] at hpending
      cases hpending
    | worker queueIndex => exact hpending
  | cancelOrder order origClientOrderID =>
    simp only [step, Option.ite_none_right_eq_some] at hstep
    obtain ⟨system, hsystem, rfl⟩ := Option.map_eq_some_iff.mp hstep.2
    simp only [System.step, System.cancelOrder, h.multithreaded, if_true,
      Option.ite_none_right_eq_some] at hsystem
    obtain ⟨hcentral, hworkers⟩ := System.submitTask_frame hsystem.2
    exact h.submitted hcentral hworkers
  | submit =>
    obtain ⟨system, hsystem, rfl⟩ := Option.map_eq_some_iff.mp hstep
    simp only [System.step] at hsystem
    split at hsystem
    · obtain ⟨hcentral, hworkers⟩ := System.submitTask_frame hsystem
      exact h.submitted hcentral hworkers
    · cases hsystem
  | work queueIndex => exact work_records h hstep
  | push pusher act =>
    simp only [step] at hstep
    split at hstep
    · rename_i queueID message label hpending
      split at hstep
      · rename_i ring hring
        split at hstep
        · rename_i hstore
          subst hstore
          exact store_records h hpending hring hstep
        · rename_i hother
          cases hstep
          refine ring_records h hring (fun loaded val hload => ?_) fun stored hstores => ?_
          · cases act with
            | loadWrite =>
              cases hload
              exact ⟨label, hpending⟩
            | _ => cases hload
          · cases act with
            | storeWrite => exact hother rfl
            | _ => cases hstores
      · cases hstep
    · cases hstep
  | pop queueID act =>
    obtain ⟨ring, hring, rfl⟩ := Option.map_eq_some_iff.mp hstep
    refine ring_records h hring (fun pusher val hload => ?_) fun pusher hstores => ?_
    · cases act with
      | _ => cases hload
    · cases act with
      | _ => cases hstores

theorem configured_records (symbols : List Bytes) (capacity : Nat) (positive : 0 < capacity)
    (memory : Nat → Nat → OutgoingMessage γ) :
    (configured symbols capacity positive memory).Records where
  multithreaded := rfl
  pushing := fun _ _ _ hval => by cases hval
  values := fun queueID => by
    have hempty := congrFun (System.configured_start (γ := γ) symbols true).1 queueID
    exact hempty.symm

/-- With its rings the order matcher makes the steps that it makes without them. -/
theorem refines_system : Refines (step (γ := γ)) (fun _ _ => True) systemStep System.step
    fun outgoing system => outgoing.system = system ∧ outgoing.Records where
  hidden := by
    rintro outgoing next label - ⟨rfl, hrecords⟩ - hstep hshows
    have hsystem := step_system hstep
    rw [hshows] at hsystem
    exact ⟨hsystem, step_records hrecords hstep⟩
  visible := by
    rintro outgoing next label - act ⟨rfl, hrecords⟩ - hstep hshows
    have hsystem := step_system hstep
    rw [hshows] at hsystem
    exact ⟨next.system, hsystem, rfl, step_records hrecords hstep⟩

/-- In every run the order matcher is in a state that it reaches without its rings, and a ring
holds what was pushed to it there. -/
theorem rings_values (symbols : List Bytes) (capacity : Nat) (positive : 0 < capacity)
    (memory : Nat → Nat → OutgoingMessage γ) {labels : List (OutgoingStep γ)}
    {outgoing : Outgoing γ}
    (hrun : run step (configured symbols capacity positive memory) labels = some outgoing) :
    run System.step (System.configured symbols true)
        (shown step systemStep (configured symbols capacity positive memory) labels) =
          some outgoing.system ∧
      ∀ queueID,
        (outgoing.rings queueID).values = outgoing.system.central.outgoingMessages queueID := by
  obtain ⟨system, hsystem, rfl, hrecords⟩ := refines_system.run
    ⟨rfl, configured_records symbols capacity positive memory⟩ hrun
    (along_of_forall fun _ _ => trivial)
  exact ⟨hsystem, hrecords.values⟩

/-- Where the threads take turns, what is popped from a ring is a prefix of what was pushed. -/
theorem popped_prefix (symbols : List Bytes) (capacity : Nat) (positive : 0 < capacity)
    (memory : Nat → Nat → OutgoingMessage γ) {labels : List (OutgoingStep γ)}
    {outgoing : Outgoing γ}
    (hrun : run step (configured symbols capacity positive memory) labels = some outgoing)
    (exclusive : Along step Exclusive (configured symbols capacity positive memory) labels)
    (queueID : Nat) :
    (outgoing.rings queueID).popped <+: outgoing.system.central.outgoingMessages queueID := by
  rw [← (rings_values symbols capacity positive memory hrun).2 queueID]
  exact (rings_sound symbols capacity positive memory hrun exclusive queueID).fifo

end Outgoing

end LiteExchange.OrderMatcher
