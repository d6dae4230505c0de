import LiteExchange.Server.ServerFix
import LiteExchange.Server.Answers

/-!
# The messages of a run and their calls

A run of the server makes a run of its system, with the calls of the messages that were handed
to it. The other way round, messages that are handled and a run of the system with their calls
make a run of the server: a message without a call is rejected before the next call.
-/

namespace LiteExchange.Server

open Foundation.Ascii Foundation.Results Foundation.Runs OrderMatcher
open LiteExchange.Fix LiteExchange.Fix.FixConstants

namespace ServerFix

/-- The messages that a run hands to `onFixMessage`, with session and slot. -/
def handed (labels : List ServerLabel) : List (FixMessage × Nat × Indeterminate Unit) :=
  labels.filterMap fun label =>
    match label with
    | .onFixMessage message sessionId memory => some (message, sessionId, memory)
    | _ => none

/-- The call that a message makes, if it makes one. -/
def callFor (manager : SecurityManager) :
    FixMessage × Nat × Indeterminate Unit → Option (OrderMatcher.Task FixMessage)
  | (message, sessionId, memory) =>
    match Server.onFixMessage manager message sessionId (withOrigin memory message) with
    | .ok (.call task) => some task
    | _ => none

theorem run_issued {server next : ServerFix} {labels : List ServerLabel}
    (h : run step server labels = some next) :
    run System.step server.system (labels.filterMap (ServerLabel.issued server.manager)) =
      some next.system := by
  induction labels generalizing server with
  | nil =>
    cases h
    rfl
  | cons label labels ih =>
    obtain ⟨middle, hstep, hrest⟩ := Option.bind_eq_some_iff.mp h
    have hrun := ih hrest
    obtain ⟨hmanager, ⟨hnone, hsame⟩ | ⟨systemLabel, hissued, hone⟩⟩ := step_cases hstep
    · rw [List.filterMap_cons_none hnone, ← hmanager, ← hsame]
      exact hrun
    · rw [List.filterMap_cons_some hissued, run_cons, hone, ← hmanager]
      exact hrun

theorem callsOf_issued (manager : SecurityManager) (labels : List ServerLabel) :
    callsOf (labels.filterMap (ServerLabel.issued manager)) =
      (handed labels).filterMap (callFor manager) := by
  unfold callsOf handed
  rw [List.filterMap_filterMap, List.filterMap_filterMap]
  apply List.filterMap_congr
  intro label _
  cases label with
  | submit => rfl
  | work queueIndex => rfl
  | onFixMessage message sessionId memory =>
    simp only [ServerLabel.issued, callFor, Option.bind_some]
    cases Server.onFixMessage manager message sessionId (withOrigin memory message) with
    | error thrown => rfl
    | ok handling =>
      cases handling with
      | rejectOrder text => rfl
      | call task =>
        cases task with
        | newOrder order => rfl
        | cancelOrder order origClientOrderID => rfl

end ServerFix

/-! ## A run for given calls -/

/-- A message without a call is rejected where the system takes calls. -/
theorem ServerFix.step_reject (server : ServerFix) {message : FixMessage} {sessionId : Nat}
    {memory : Indeterminate Unit} (idle : server.system.submitting = none)
    (handled : (onFixMessage server.manager message sessionId (withOrigin memory message)).isOk =
      true)
    (none : ServerFix.callFor server.manager (message, sessionId, memory) = none) :
    ∃ rejected, server.step (.onFixMessage message sessionId memory) =
      some { server with rejected := rejected } := by
  obtain ⟨handling, hhandling⟩ := isOk_iff.mp handled
  simp only [ServerFix.callFor, hhandling] at none
  simp only [ServerFix.step, idle, Option.isNone_none, if_true, hhandling]
  cases handling with
  | rejectOrder text => exact ⟨_, rfl⟩
  | call task => cases none

theorem ServerFix.step_call (server : ServerFix) {message : FixMessage} {sessionId : Nat}
    {memory : Indeterminate Unit} (idle : server.system.submitting = none)
    {call : OrderMatcher.Task FixMessage}
    (made : ServerFix.callFor server.manager (message, sessionId, memory) = some call) :
    server.step (.onFixMessage message sessionId memory) = server.onSystem call.label := by
  simp only [ServerFix.callFor] at made
  split at made
  · rename_i task htask
    cases made
    simp only [ServerFix.step, idle, Option.isNone_none, if_true, htask]
  · cases made

theorem label_of_call {label : Label FixMessage} {call : OrderMatcher.Task FixMessage}
    (h : label.call = some call) : label = call.label := by
  cases label with
  | addOrder order =>
    cases h
    rfl
  | cancelOrder order origClientOrderID =>
    cases h
    rfl
  | submit => cases h
  | work queueIndex => cases h

theorem call_idle {system next : System FixMessage} {call : OrderMatcher.Task FixMessage}
    (h : system.step call.label = some next) : system.submitting = none := by
  cases call with
  | newOrder order =>
    simp only [OrderMatcher.Task.label, System.step, Option.ite_none_right_eq_some,
      Option.isNone_iff_eq_none] at h
    exact h.1
  | cancelOrder order origClientOrderID =>
    simp only [OrderMatcher.Task.label, System.step, Option.ite_none_right_eq_some,
      Option.isNone_iff_eq_none] at h
    exact h.1

/-- The FIX mode can go on from the server to that system, and handle the messages. -/
def ServerFix.Handles (server : ServerFix) (next : System FixMessage)
    (messages : List (FixMessage × Nat × Indeterminate Unit)) : Prop :=
  ∃ labels last, run ServerFix.step server labels = some last ∧ last.system = next ∧
    ServerFix.handed labels = messages

theorem ServerFix.Handles.before {server middle : ServerFix} {next : System FixMessage}
    {messages : List (FixMessage × Nat × Indeterminate Unit)} (label : ServerLabel)
    (hstep : server.step label = some middle) (h : middle.Handles next messages) :
    server.Handles next (ServerFix.handed [label] ++ messages) := by
  obtain ⟨labels, last, hrun, hlast, rfl⟩ := h
  refine ⟨label :: labels, last, ?_, hlast, ?_⟩
  · rw [run_cons, hstep]
    exact hrun
  · rw [← List.singleton_append, ServerFix.handed, List.filterMap_append]
    rfl

/-- The messages with calls make the labels of the run, the others are rejected before the next
call. -/
theorem ServerFix.exists_run {manager : SecurityManager} {labels : List (Label FixMessage)}
    {system next : System FixMessage} (h : run System.step system labels = some next)
    (idle : next.submitting = none) {messages : List (FixMessage × Nat × Indeterminate Unit)}
    (handled : ∀ message ∈ messages, (onFixMessage manager message.1 message.2.1
      (withOrigin message.2.2 message.1)).isOk = true)
    (calls : callsOf labels = messages.filterMap (ServerFix.callFor manager))
    (rejected : List (Nat × Bytes)) :
    (⟨system, manager, rejected⟩ : ServerFix).Handles next messages := by
  induction labels generalizing system messages rejected with
  | nil =>
    cases h
    induction messages generalizing rejected with
    | nil => exact ⟨[], _, rfl, rfl, rfl⟩
    | cons message messages ih =>
      obtain ⟨hfirst, hlater⟩ := List.forall_mem_cons.mp handled
      have hnone := List.filterMap_eq_nil_iff.mp calls.symm
      obtain ⟨hnone, hnones⟩ := List.forall_mem_cons.mp hnone
      obtain ⟨grown, hstep⟩ := ServerFix.step_reject ⟨next, manager, rejected⟩ idle hfirst hnone
      exact ServerFix.Handles.before _ hstep
        (ih hlater (List.filterMap_eq_nil_iff.mpr hnones).symm grown)
  | cons label labels ih =>
    obtain ⟨middle, hstep, hrest⟩ := Option.bind_eq_some_iff.mp h
    cases hcall : label.call with
    | none =>
      rw [callsOf, List.filterMap_cons_none hcall] at calls
      have hlater := ih hrest handled calls rejected
      cases label with
      | submit =>
        refine ServerFix.Handles.before .submit ?_ hlater
        simp only [ServerFix.step, ServerFix.onSystem, hstep, Option.map_some]
      | work queueIndex =>
        refine ServerFix.Handles.before (.work queueIndex) ?_ hlater
        simp only [ServerFix.step, ServerFix.onSystem, hstep, Option.map_some]
      | addOrder order => cases hcall
      | cancelOrder order origClientOrderID => cases hcall
    | some call =>
      obtain rfl := label_of_call hcall
      have hidle := call_idle hstep
      rw [callsOf, List.filterMap_cons_some hcall] at calls
      induction messages generalizing rejected with
      | nil => cases calls
      | cons message messages ihm =>
        obtain ⟨hfirst, hothers⟩ := List.forall_mem_cons.mp handled
        cases hmade : ServerFix.callFor manager message with
        | none =>
          rw [List.filterMap_cons_none hmade] at calls
          obtain ⟨grown, hreject⟩ := ServerFix.step_reject ⟨system, manager, rejected⟩ hidle hfirst
            hmade
          exact ServerFix.Handles.before _ hreject (ihm hothers grown calls)
        | some made =>
          rw [List.filterMap_cons_some hmade] at calls
          obtain ⟨hsame, hcalls⟩ := List.cons.inj calls
          obtain ⟨text, sessionId, memory⟩ := message
          refine ServerFix.Handles.before (.onFixMessage text sessionId memory) ?_
            (ih hrest hothers hcalls rejected)
          rw [ServerFix.step_call _ hidle hmade, ← hsame, ServerFix.onSystem, hstep,
            Option.map_some]

end LiteExchange.Server
