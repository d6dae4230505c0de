import LiteExchange.Foundation.Refinement
import LiteExchange.Server.OrderOwnership

/-!
# The exchange as its two halves

In a run of the exchange the order matcher makes the steps that the labels issue, and the reactor
handles only messages that were received on their slot. A report may be sent through the object
of a session that is gone. So what holds of the runs of the order matcher, and what every
message and every send keeps of the sessions, holds of the exchange.
-/

namespace LiteExchange.Server

open Foundation.Ascii Foundation.Runs Foundation.Refinement OrderMatcher
open LiteExchange.Fix

/-- What arrives, with its slot. -/
def ExchangeLabel.received : ExchangeLabel → List (Nat × FixMessage)
  | .receive peerIndex messages => messages.map fun message => (peerIndex, message)
  | .accept => []
  | .disconnect _ => []
  | .process _ _ => []
  | .submit => []
  | .work _ => []
  | .pop _ => []
  | .look => []
  | .send _ => []

/-- A step of the outgoing message processor. -/
def ExchangeLabel.processor : ExchangeLabel → Bool
  | .pop _ => true
  | .look => true
  | .send _ => true
  | .accept => false
  | .disconnect _ => false
  | .receive _ _ => false
  | .process _ _ => false
  | .submit => false
  | .work _ => false

def receivedBy (labels : List ExchangeLabel) : List (Nat × FixMessage) :=
  labels.flatMap ExchangeLabel.received

theorem receivedBy_snoc (labels : List ExchangeLabel) (label : ExchangeLabel) :
    receivedBy (labels ++ [label]) = receivedBy labels ++ label.received := by
  simp [receivedBy]

namespace Exchange

variable {exchange next : Exchange} {label : ExchangeLabel}

/-- What a step leaves: the symbols, the batch but for the message that is handled, the order
matcher where the label issues nothing to it, and what the processor has where the step is not
its own. -/
structure Frame (exchange : Exchange) (label : ExchangeLabel) (next : Exchange) : Prop where
  manager : next.manager = exchange.manager
  messages : (next.peerIndex = exchange.peerIndex ∧
      ∀ message ∈ next.messages, message ∈ exchange.messages) ∨
    label = .receive next.peerIndex next.messages
  system : exchange.issued label = none → next.system = exchange.system
  processor : label.processor = false → next.popped = exchange.popped ∧
    next.inHand = exchange.inHand ∧ next.execID = exchange.execID

theorem processNext_frame {currentUTCDateTime : Bytes} {memory : Indeterminate Unit}
    (hstep : exchange.processNext currentUTCDateTime memory = some next) :
    exchange.Frame (.process currentUTCDateTime memory) next := by
  unfold processNext at hstep
  split at hstep
  · rename_i handled hhandled
    have hmessages : ∀ message ∈ exchange.messages.tail, message ∈ exchange.messages :=
      fun message hmem => List.mem_of_mem_tail hmem
    dsimp only at hstep
    split at hstep
    · rename_i task htask
      obtain ⟨system, -, rfl⟩ := Option.map_eq_some_iff.mp hstep
      refine ⟨rfl, Or.inl ⟨rfl, hmessages⟩, fun hunissued => ?_, fun _ => ⟨rfl, rfl, rfl⟩⟩
      simp only [issued, hhandled, Option.bind_some, htask, Option.map_some, reduceCtorEq]
        at hunissued
    · cases hstep
      exact ⟨rfl, Or.inl ⟨rfl, hmessages⟩, fun _ => rfl, fun _ => ⟨rfl, rfl, rfl⟩⟩
  · cases hstep

/-- The processor takes the next report of a ring. -/
theorem pop_cases {queueIndex : Nat} (hstep : exchange.pop queueIndex = some next) :
    ∃ message, exchange.inHand = .nothing ∧ exchange.nextReport queueIndex = some message ∧
      next = { exchange with
        popped := Function.update exchange.popped queueIndex (exchange.popped queueIndex + 1)
        inHand := .popped queueIndex message } := by
  unfold pop at hstep
  split at hstep
  · rename_i message hhand hmessage
    cases hstep
    exact ⟨message, hhand, hmessage, rfl⟩
  · cases hstep

/-- It has the session of the report, or drops the report. -/
theorem look_cases (hstep : exchange.look = some next) :
    ∃ queueIndex message, exchange.inHand = .popped queueIndex message ∧
      ((∃ session, exchange.reactor.getSession message.order.sessionId = some session ∧
          next = { exchange with inHand := .found queueIndex message session.tcpConnection }) ∨
        exchange.reactor.getSession message.order.sessionId = none ∧
          next = { exchange with inHand := .nothing }) := by
  unfold look at hstep
  split at hstep
  · rename_i queueIndex message hhand
    refine ⟨queueIndex, message, hhand, ?_⟩
    split at hstep
    · rename_i session hsession
      cases hstep
      exact Or.inl ⟨session, hsession, rfl⟩
    · rename_i hnone
      cases hstep
      exact Or.inr ⟨hnone, rfl⟩
  · cases hstep

/-- It sends the report through the object that it has found. -/
theorem send_cases {currentUTCDateTime : Bytes}
    (hstep : exchange.send currentUTCDateTime = some next) :
    ∃ queueIndex message connection session securityName,
      exchange.inHand = .found queueIndex message connection ∧
      exchange.pointed message.order.sessionId connection = some session ∧
      exchange.manager.getSecurityName message.order.securityId = some securityName ∧
      next = { exchange with
        reactor := exchange.reactor.setSession message.order.sessionId (session.send
          (executionReport exchange.reactor.compId session message.order (exchange.execID + 1)
            securityName) currentUTCDateTime)
        inHand := .nothing
        execID := exchange.execID + 1 } := by
  unfold send at hstep
  split at hstep
  · rename_i queueIndex message connection hhand
    split at hstep
    · rename_i session hpointed
      obtain ⟨⟨reactor, execID⟩, hsend, rfl⟩ := Option.map_eq_some_iff.mp hstep
      obtain ⟨securityName, hname, hresult⟩ := Option.map_eq_some_iff.mp hsend
      cases hresult
      exact ⟨queueIndex, message, connection, session, securityName, hhand, hpointed, hname, rfl⟩
    · cases hstep
  · cases hstep

theorem step_frame (hstep : exchange.step label = some next) : exchange.Frame label next := by
  cases label with
  | accept =>
    simp only [step, Option.ite_none_right_eq_some] at hstep
    obtain ⟨reactor, -, rfl⟩ := Option.map_eq_some_iff.mp hstep.2
    exact ⟨rfl, Or.inl ⟨rfl, fun _ hmem => hmem⟩, fun _ => rfl, fun _ => ⟨rfl, rfl, rfl⟩⟩
  | disconnect peerIndex =>
    simp only [step, Option.ite_none_right_eq_some] at hstep
    obtain ⟨reactor, -, rfl⟩ := Option.map_eq_some_iff.mp hstep.2
    exact ⟨rfl, Or.inl ⟨rfl, fun _ hmem => hmem⟩, fun _ => rfl, fun _ => ⟨rfl, rfl, rfl⟩⟩
  | receive peerIndex messages =>
    simp only [step, Option.ite_none_right_eq_some] at hstep
    cases hstep.2
    exact ⟨rfl, Or.inr rfl, fun _ => rfl, fun _ => ⟨rfl, rfl, rfl⟩⟩
  | process currentUTCDateTime memory =>
    simp only [step, Option.ite_none_right_eq_some] at hstep
    exact processNext_frame hstep.2
  | submit =>
    obtain ⟨system, -, rfl⟩ := Option.map_eq_some_iff.mp hstep
    exact ⟨rfl, Or.inl ⟨rfl, fun _ hmem => hmem⟩, fun hunissued => (by cases hunissued),
      fun _ => ⟨rfl, rfl, rfl⟩⟩
  | work queueIndex =>
    obtain ⟨system, -, rfl⟩ := Option.map_eq_some_iff.mp hstep
    exact ⟨rfl, Or.inl ⟨rfl, fun _ hmem => hmem⟩, fun hunissued => (by cases hunissued),
      fun _ => ⟨rfl, rfl, rfl⟩⟩
  | pop queueIndex =>
    obtain ⟨message, -, -, rfl⟩ := pop_cases hstep
    exact ⟨rfl, Or.inl ⟨rfl, fun _ hmem => hmem⟩, fun _ => rfl, fun hother => by cases hother⟩
  | look =>
    obtain ⟨queueIndex, message, -, ⟨session, -, rfl⟩ | ⟨-, rfl⟩⟩ := look_cases hstep
    · exact ⟨rfl, Or.inl ⟨rfl, fun _ hmem => hmem⟩, fun _ => rfl, fun hother => by cases hother⟩
    · exact ⟨rfl, Or.inl ⟨rfl, fun _ hmem => hmem⟩, fun _ => rfl, fun hother => by cases hother⟩
  | send currentUTCDateTime =>
    obtain ⟨queueIndex, message, connection, session, securityName, -, -, -, rfl⟩ :=
      send_cases hstep
    exact ⟨rfl, Or.inl ⟨rfl, fun _ hmem => hmem⟩, fun _ => rfl, fun hother => by cases hother⟩

/-- The exchange shows steps of the order matcher, and hides the others from it. -/
theorem refines_system : Refines step (fun _ _ => True) issued System.step
    fun exchange system => exchange.system = system where
  hidden := by
    rintro exchange next label system rfl - hstep hunissued
    exact (step_frame hstep).system hunissued
  visible := by
    rintro exchange next label system systemLabel rfl - hstep hissued
    exact ⟨next.system, issued_step hissued hstep, rfl⟩

/-! ## The reactor -/

theorem reactor_process {currentUTCDateTime : Bytes} {memory : Indeterminate Unit}
    {handled : Handled Submission}
    (h : exchange.handled currentUTCDateTime memory = some handled) :
    ∃ message reactorLabels, exchange.messages.head? = some message ∧
      run FixServerReactor.step exchange.reactor
        (.handle exchange.peerIndex message currentUTCDateTime :: reactorLabels) =
          some handled.reactor ∧
      ∀ reactorLabel ∈ reactorLabels, ∃ slot sent time, reactorLabel = .send slot sent time := by
  unfold Exchange.handled at h
  split at h
  · rename_i message rest session hmessages hsession
    obtain ⟨processed, hprocessed, hreactor⟩ :=
      processMessage_cases (FixServerReactor.toOption_eq_some.mp h)
    have hhandle : exchange.reactor.step
        (.handle exchange.peerIndex message currentUTCDateTime) = some processed.reactor := by
      simp only [FixServerReactor.step, FixServerReactor.handle, hsession, hprocessed]
      rfl
    have halone : run FixServerReactor.step exchange.reactor
        [.handle exchange.peerIndex message currentUTCDateTime] = some processed.reactor := by
      rw [run_cons, hhandle]
      rfl
    have hhead : exchange.messages.head? = some message := by
      rw [hmessages]
      rfl
    rcases hreactor with hsame | ⟨rejectionMessage, hrejected⟩
    · rw [hsame]
      exact ⟨message, [], hhead, halone, nofun⟩
    · cases hsender : processed.reactor.getSession exchange.peerIndex with
      | none =>
        refine ⟨message, [], hhead, ?_, nofun⟩
        rw [hrejected, rejectOrder, hsender]
        exact halone
      | some sender =>
        refine ⟨message, [.send exchange.peerIndex
          (rejectMessage processed.reactor.compId sender rejectionMessage) currentUTCDateTime],
          hhead, ?_, ?_⟩
        · rw [hrejected, rejectOrder, hsender, run_cons, hhandle, Option.bind_some, run_cons]
          simp only [FixServerReactor.step, hsender, Option.map_some, Option.bind_some, run_nil]
        · intro reactorLabel hmem
          exact ⟨_, _, _, List.mem_singleton.mp hmem⟩
  · cases h

/-- The steps of the reactor in a step of the exchange that sends no report; it handles the next
message of the batch, if any. -/
theorem reactor_steps (hstep : exchange.step label = some next)
    (unsent : ∀ currentUTCDateTime, label ≠ .send currentUTCDateTime) :
    ∃ reactorLabels, run FixServerReactor.step exchange.reactor reactorLabels =
        some next.reactor ∧
      ∀ slot message currentUTCDateTime,
        .handle slot message currentUTCDateTime ∈ reactorLabels →
          slot = exchange.peerIndex ∧ exchange.messages.head? = some message := by
  cases label with
  | accept =>
    simp only [step, Option.ite_none_right_eq_some] at hstep
    obtain ⟨reactor, haccept, rfl⟩ := Option.map_eq_some_iff.mp hstep.2
    refine ⟨[.accept], ?_, by simp⟩
    rw [run_cons, FixServerReactor.step, haccept]
    rfl
  | disconnect peerIndex =>
    simp only [step, Option.ite_none_right_eq_some] at hstep
    obtain ⟨reactor, hclose, rfl⟩ := Option.map_eq_some_iff.mp hstep.2
    refine ⟨[.disconnect peerIndex], ?_, by simp⟩
    rw [run_cons, FixServerReactor.step, hclose]
    rfl
  | receive peerIndex messages =>
    simp only [step, Option.ite_none_right_eq_some] at hstep
    cases hstep.2
    exact ⟨[], rfl, by simp⟩
  | process currentUTCDateTime memory =>
    simp only [step, processNext, Option.ite_none_right_eq_some] at hstep
    have hprocess := hstep.2
    split at hprocess
    · rename_i handled hhandled
      obtain ⟨message, sends, hhead, hrun, hsends⟩ := reactor_process hhandled
      have hreactor : next.reactor = handled.reactor := by
        split at hprocess
        · obtain ⟨system, -, rfl⟩ := Option.map_eq_some_iff.mp hprocess
          rfl
        · cases hprocess
          rfl
      refine ⟨_, by rw [hreactor]; exact hrun, fun slot other time hmem => ?_⟩
      rcases List.mem_cons.mp hmem with hhandle | hsend
      · cases hhandle
        exact ⟨rfl, hhead⟩
      · obtain ⟨_, _, _, hother⟩ := hsends _ hsend
        cases hother
    · cases hprocess
  | submit =>
    obtain ⟨system, -, rfl⟩ := Option.map_eq_some_iff.mp hstep
    exact ⟨[], rfl, by simp⟩
  | work queueIndex =>
    obtain ⟨system, -, rfl⟩ := Option.map_eq_some_iff.mp hstep
    exact ⟨[], rfl, by simp⟩
  | pop queueIndex =>
    obtain ⟨message, -, -, rfl⟩ := pop_cases hstep
    exact ⟨[], rfl, by simp⟩
  | look =>
    obtain ⟨queueIndex, message, -, ⟨session, -, rfl⟩ | ⟨-, rfl⟩⟩ := look_cases hstep
    · exact ⟨[], rfl, by simp⟩
    · exact ⟨[], rfl, by simp⟩
  | send currentUTCDateTime => exact absurd rfl (unsent currentUTCDateTime)

/-! ## Whole runs -/

section Runs

variable {compId : Bytes} {sequenceNumberValidation : Bool} {store : FixSequenceStore}
  {symbols : List Bytes} {multithreaded : Bool} {labels : List ExchangeLabel}

theorem run_system
    (hrun : run step (configured compId sequenceNumberValidation store symbols multithreaded)
      labels = some exchange) :
    run System.step (System.configured symbols multithreaded)
        (shown step issued
          (configured compId sequenceNumberValidation store symbols multithreaded) labels) =
      some exchange.system := by
  obtain ⟨system, hsystem, rfl⟩ :=
    refines_system.run rfl hrun (along_of_forall fun _ _ => trivial)
  exact hsystem

theorem run_manager
    (hrun : run step (configured compId sequenceNumberValidation store symbols multithreaded)
      labels = some exchange) :
    exchange.manager = (CentralOrderBook.configured (γ := Submission) symbols multithreaded).2 := by
  refine run_invariant (fun exchange : Exchange => exchange.manager =
    (CentralOrderBook.configured (γ := Submission) symbols multithreaded).2) rfl ?_ hrun
  intro before label after hbefore hstep
  exact (step_frame hstep).manager.trans hbefore

theorem run_messages
    (hrun : run step (configured compId sequenceNumberValidation store symbols multithreaded)
      labels = some exchange) :
    ∀ message ∈ exchange.messages, (exchange.peerIndex, message) ∈ receivedBy labels := by
  refine run_induction (fun labels (exchange : Exchange) => ∀ message ∈ exchange.messages,
    (exchange.peerIndex, message) ∈ receivedBy labels) (fun _ hmem => by cases hmem) ?_ hrun
  intro labels before label after _ hbefore hstep message hmem
  rw [receivedBy_snoc, List.mem_append]
  rcases (step_frame hstep).messages with ⟨hpeer, hmessages⟩ | hreceive
  · rw [hpeer]
    exact Or.inl (hbefore message (hmessages message hmem))
  · right
    rw [hreceive, ExchangeLabel.received]
    exact List.mem_map_of_mem hmem

/-- What the handled messages and the sends keep of the sessions holds of them in every run. -/
theorem run_sessions {M : FixMessage → Prop} {I : FixServerReactor → FixSession → Prop}
    (rule : FixServerReactor.SessionRule (fun _ label => ∀ slot message currentUTCDateTime,
      label = .handle slot message currentUTCDateTime → M message) I)
    (hrun : run step (configured compId sequenceNumberValidation store symbols multithreaded)
      labels = some exchange) (received : ∀ pair ∈ receivedBy labels, M pair.2) :
    exchange.reactor.compId = compId ∧
      ∀ session ∈ exchange.reactor.sessions, I exchange.reactor session := by
  have hinvariant := run_induction (fun labels (exchange : Exchange) =>
    (∀ pair ∈ receivedBy labels, M pair.2) → exchange.reactor.InStep ∧
      exchange.reactor.compId = compId ∧
      ∀ session ∈ exchange.reactor.sessions, I exchange.reactor session) ?_ ?_ hrun received
  · exact hinvariant.2
  · exact fun _ => ⟨FixServerReactor.initial_inStep _ _ _, rfl, fun session hmem => by cases hmem⟩
  · intro labels before label after hbefore ih hstep hreceived
    obtain ⟨hinStep, hcompId, hsessions⟩ := ih fun pair hmem => hreceived pair (by
      rw [receivedBy_snoc]
      exact List.mem_append_left _ hmem)
    by_cases hsend : ∃ currentUTCDateTime, label = .send currentUTCDateTime
    · obtain ⟨currentUTCDateTime, rfl⟩ := hsend
      obtain ⟨queueIndex, message, connection, session, securityName, -, hpointed, -, rfl⟩ :=
        send_cases hstep
      have hslot := (pointed_some hpointed).1
      refine ⟨FixServerReactor.inStep_setSession hinStep _, hcompId, fun present hpresent => ?_⟩
      refine rule.settings before.reactor (before.reactor.setSession _ _) present rfl rfl ?_
      rcases List.mem_or_eq_of_mem_set hpresent with hold | rfl
      · exact hsessions present hold
      · exact rule.send before.reactor message.order.sessionId session _ currentUTCDateTime hslot
          (fun _ _ _ hhandle => by cases hhandle) (hsessions session (List.mem_of_getElem? hslot))
    · obtain ⟨reactorLabels, hreactor, hhandled⟩ :=
        reactor_steps hstep fun currentUTCDateTime h => hsend ⟨currentUTCDateTime, h⟩
      have hallowed : ∀ reactorLabel ∈ reactorLabels, ∀ slot message currentUTCDateTime,
          reactorLabel = .handle slot message currentUTCDateTime → M message := by
        rintro _ hmem slot message currentUTCDateTime rfl
        obtain ⟨rfl, hhead⟩ := hhandled slot message currentUTCDateTime hmem
        apply hreceived (before.peerIndex, message)
        rw [receivedBy_snoc]
        exact List.mem_append_left _ (run_messages hbefore message (List.mem_of_mem_head? hhead))
      obtain ⟨hnext, hafter⟩ :=
        rule.run_from hinStep hsessions hreactor (along_of_mem hallowed)
      obtain ⟨-, hsame, -⟩ := FixServerReactor.run_settings_from hinStep hreactor
      exact ⟨hnext, hsame.trans hcompId, hafter⟩

end Runs

end Exchange

end LiteExchange.Server
