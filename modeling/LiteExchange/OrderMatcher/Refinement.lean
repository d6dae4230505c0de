import LiteExchange.OrderMatcher.Renumbering
import LiteExchange.OrderMatcher.Simulation

/-!
# Multithreaded matching refines single-threaded matching

Single-threaded mode is the system without workers, so it simulates its calls
too. When a multithreaded run has drained its queues, both modes have replayed
the same requests for each security. What a security ends with is therefore a
function of its own requests, and by the previous module one that does not depend
on their numbers.
-/

namespace LiteExchange.OrderMatcher

open Foundation.Ascii Foundation.Runs

variable {γ : Type}

theorem callsOf_label (calls : List (Task γ)) : callsOf (calls.map Task.label) = calls := by
  induction calls with
  | nil => rfl
  | cons call calls ih =>
    cases call with
    | newOrder order => exact congrArg (Task.newOrder order :: ·) ih
    | cancelOrder order origClientOrderID =>
      exact congrArg (Task.cancelOrder order origClientOrderID :: ·) ih

theorem runTask_mode {central next : CentralOrderBook γ} {task : Task γ}
    (h : central.runTask task = some next) :
    next.isMatchingMultithreaded = central.isMatchingMultithreaded := by
  obtain ⟨book, reports, -, rfl⟩ := CentralOrderBook.runTask_cases h
  rfl

theorem call_mode {central next : CentralOrderBook γ} {call : Task γ}
    (h : central.call call = some next) :
    next.isMatchingMultithreaded = central.isMatchingMultithreaded := by
  cases call with
  | newOrder order =>
    have htask : (central.acceptOrder order).1.runTask (.newOrder (central.acceptOrder order).2) =
        some next := h
    have hmode := runTask_mode htask
    exact hmode
  | cancelOrder order origClientOrderID =>
    have htask : central.runTask (.cancelOrder order origClientOrderID) = some next := h
    exact runTask_mode htask

namespace System

/-- Without multithreaded matching, a step of the system is a call. -/
theorem step_label {system : System γ} (idle : system.submitting = none)
    (mode : system.central.isMatchingMultithreaded = false) (call : Task γ) :
    system.step call.label =
      (system.central.call call).map fun central => { system with central := central } := by
  cases call with
  | newOrder order =>
    have haccept : (system.central.acceptOrder order).1.isMatchingMultithreaded = false := mode
    simp only [Task.label, step, idle, Option.isNone_none, if_true, addOrder, haccept,
      Bool.false_eq_true, if_false]
    rfl
  | cancelOrder order origClientOrderID =>
    simp only [Task.label, step, idle, Option.isNone_none, if_true, cancelOrder, mode,
      Bool.false_eq_true, if_false]
    rfl

theorem run_label {system : System γ} (idle : system.submitting = none)
    (mode : system.central.isMatchingMultithreaded = false) (calls : List (Task γ)) :
    run step system (calls.map Task.label) =
      (run CentralOrderBook.call system.central calls).map
        fun central => { system with central := central } := by
  induction calls generalizing system with
  | nil => rfl
  | cons call calls ih =>
    rw [List.map_cons, run_cons, run_cons, step_label idle mode]
    cases hcall : system.central.call call with
    | none => rfl
    | some central =>
      have hmode := (call_mode hcall).trans mode
      have hnext : ({ system with central := central } : System γ).submitting = none := idle
      simp only [Option.map_some, Option.bind_some]
      exact ih hnext hmode

theorem configured_mode (symbols : List Bytes) :
    (configured (γ := γ) symbols false).central.isMatchingMultithreaded = false :=
  (setSymbolsFrom_start (γ := γ) 0 symbols ({}, {})).2.2

/-- A drained system holds, for each security, the log of its requests. -/
theorem Simulates.drained {requests : List (Task γ)} {system : System γ}
    (h : system.Simulates requests) (quiescent : system.Quiescent) (securityId : Nat) :
    ∃ log, run BookLog.runTask {} (requests.filter fun task => task.securityId == securityId) =
        some log ∧
      system.central.book securityId = log.book ∧
      system.central.taskReports securityId = log.reports := by
  obtain ⟨begun, log, hlog⟩ := h.replays securityId
  refine ⟨log, ?_, ?_, ?_⟩
  · rw [hlog.submitted, quiescent.waiting, List.append_nil]
    exact hlog.replay
  · rw [← hlog.book, quiescent.bookAfterTask]
  · rw [← hlog.reports, quiescent.pending, List.append_nil]

/-- The single-threaded system is drained after every call. -/
theorem call_drained (symbols : List Bytes) {calls : List (Task γ)} {central : CentralOrderBook γ}
    (h : run CentralOrderBook.call (configured symbols false).central calls = some central) :
    ({ configured symbols false with central := central } : System γ).Simulates
      (numberCalls 0 calls) ∧
    ({ configured symbols false with central := central } : System γ).Quiescent ∧
    central.orderNumber = BitVec.ofNat 32 (arrivalsOf calls) := by
  have hrun : run step (configured symbols false) (calls.map Task.label) =
      some { configured symbols false with central := central } := by
    rw [run_label rfl (configured_mode symbols), h]
    rfl
  obtain ⟨hsim, hnumber⟩ := run_simulates symbols false hrun
  rw [requestsOf, callsOf_label] at hsim
  rw [callsOf_label] at hnumber
  exact ⟨hsim, ⟨fun _ => rfl, fun _ => rfl, rfl⟩, hnumber⟩

theorem call_eq (central : CentralOrderBook γ) (call : Task γ) :
    ∃ accepted : CentralOrderBook γ, (∀ id, accepted.book id = central.book id) ∧
      ∀ task, numberCalls central.orderNumber [call] = [task] →
        central.call call = accepted.runTask task ∧ task.securityId = call.securityId := by
  cases call with
  | newOrder order =>
    refine ⟨(central.acceptOrder order).1, fun _ => rfl, fun task htask => ?_⟩
    obtain rfl := List.singleton_injective htask
    exact ⟨rfl, rfl⟩
  | cancelOrder order origClientOrderID =>
    refine ⟨central, fun _ => rfl, fun task htask => ?_⟩
    obtain rfl := List.singleton_injective htask
    exact ⟨rfl, rfl⟩

theorem numberCalls_singleton (orderNumber : BitVec 32) (call : Task γ) :
    ∃ task, numberCalls orderNumber [call] = [task] := by
  cases call with
  | newOrder order => exact ⟨_, rfl⟩
  | cancelOrder order origClientOrderID => exact ⟨_, rfl⟩

/-- If the requests of every security replay, the calls return in single-threaded mode. -/
theorem calls_return (symbols : List Bytes) (calls : List (Task γ))
    (replays : ∀ securityId, ∃ log, run BookLog.runTask {}
      ((numberCalls 0 calls).filter fun task => task.securityId == securityId) = some log) :
    ∃ central,
      run CentralOrderBook.call (configured (γ := γ) symbols false).central calls =
        some central := by
  induction calls using List.reverseRecOn with
  | nil => exact ⟨_, rfl⟩
  | append_singleton calls call ih =>
    have hstart : (0 : BitVec 32) + BitVec.ofNat 32 (arrivalsOf calls) =
        BitVec.ofNat 32 (arrivalsOf calls) := BitVec.zero_add _
    have hsplit : ∀ securityId, ∃ log front, run BookLog.runTask {}
        ((numberCalls 0 calls).filter fun task => task.securityId == securityId) = some front ∧
        run BookLog.runTask front ((numberCalls (BitVec.ofNat 32 (arrivalsOf calls)) [call]).filter
          fun task => task.securityId == securityId) = some log := by
      intro securityId
      obtain ⟨log, hlog⟩ := replays securityId
      rw [numberCalls_append, hstart, List.filter_append, run_append] at hlog
      obtain ⟨front, hfront, hlast⟩ := Option.bind_eq_some_iff.mp hlog
      exact ⟨log, front, hfront, hlast⟩
    obtain ⟨central, hcentral⟩ := ih fun securityId => by
      obtain ⟨-, front, hfront, -⟩ := hsplit securityId
      exact ⟨front, hfront⟩
    obtain ⟨hsim, hquiescent, hnumber⟩ := call_drained symbols hcentral
    obtain ⟨task, htask⟩ := numberCalls_singleton central.orderNumber call
    obtain ⟨accepted, hbooks, hcall⟩ := call_eq central call
    obtain ⟨heq, -⟩ := hcall task htask
    obtain ⟨log, front, hfront, hlast⟩ := hsplit task.securityId
    obtain ⟨drained, hdrained, hbook, -⟩ := hsim.drained hquiescent task.securityId
    rw [hfront] at hdrained
    obtain rfl := Option.some.inj hdrained
    rw [← hnumber, htask] at hlast
    simp only [List.filter_cons, beq_self_eq_true, if_true, List.filter_nil, run_cons] at hlast
    obtain ⟨next, hnext, -⟩ := Option.bind_eq_some_iff.mp hlast
    obtain ⟨⟨book, reports⟩, hrun, -⟩ := Option.map_eq_some_iff.mp hnext
    have hown : accepted.book task.securityId = front.book := (hbooks _).trans hbook
    refine ⟨(accepted.setBook task.securityId book).push task.securityId reports, ?_⟩
    rw [run_snoc, hcentral]
    simp only [Option.bind_some]
    rw [heq, CentralOrderBook.runTask_eq, hown, hrun]
    rfl

end System

theorem numberCalls_unnumbered (orderNumber : BitVec 32) (calls : List (Task γ)) (securityId : Nat) :
    ((numberCalls orderNumber calls).filter fun task => task.securityId == securityId).map
        Task.unnumbered =
      (calls.filter fun task => task.securityId == securityId).map Task.unnumbered := by
  induction calls generalizing orderNumber with
  | nil => rfl
  | cons call calls ih =>
    cases call with
    | newOrder order =>
      have hsame : (Task.newOrder (order.setOrderId (orderIdOf (orderNumber + 1)))).securityId =
          (Task.newOrder order).securityId := rfl
      simp only [numberCalls, List.filter_cons, hsame]
      split
      · rw [List.map_cons, List.map_cons, ih]
        rfl
      · exact ih _
    | cancelOrder order origClientOrderID =>
      simp only [numberCalls, List.filter_cons]
      split
      · rw [List.map_cons, List.map_cons, ih]
      · exact ih _

/-- Multithreaded matching refines single-threaded matching, security by security:
in every drained state of every run, each book and each sequence of fill and
cancel reports are those that single-threaded mode, which returns from all the
calls, produces; and two drained states, of runs in either mode, agree on a
security up to order numbers as soon as its own calls were the same. -/
theorem multithreaded_refines_single_threaded (symbols : List Bytes) (labels : List (Label γ))
    (system : System γ) (h : run System.step (System.configured symbols true) labels = some system)
    (drained : system.Quiescent) :
    (∃ single,
      run CentralOrderBook.call (CentralOrderBook.configured symbols false).1 (callsOf labels) =
        some single ∧
      ∀ securityId, system.central.book securityId = single.book securityId ∧
        system.central.taskReports securityId = single.taskReports securityId) ∧
    ∀ (others : List Bytes) (multithreaded : Bool) (otherLabels : List (Label γ))
      (other : System γ),
      run System.step (System.configured others multithreaded) otherLabels = some other →
      other.Quiescent → ∀ securityId,
      ((callsOf otherLabels).filter fun call => call.securityId == securityId) =
        ((callsOf labels).filter fun call => call.securityId == securityId) →
      (other.central.book securityId).unnumbered = (system.central.book securityId).unnumbered ∧
      (other.central.taskReports securityId).map OutgoingMessage.unnumbered =
        (system.central.taskReports securityId).map OutgoingMessage.unnumbered := by
  obtain ⟨hsim, -⟩ := System.run_simulates symbols true h
  constructor
  · obtain ⟨single, hsingle⟩ := System.calls_return symbols (callsOf labels) fun securityId => by
      obtain ⟨log, hlog, -⟩ := hsim.drained drained securityId
      exact ⟨log, hlog⟩
    refine ⟨single, hsingle, fun securityId => ?_⟩
    obtain ⟨hcalls, hquiescent, -⟩ := System.call_drained symbols hsingle
    obtain ⟨log, hlog, hbook, hreports⟩ := hsim.drained drained securityId
    obtain ⟨singleLog, hsingleLog, hsingleBook, hsingleReports⟩ :=
      hcalls.drained hquiescent securityId
    have hsame : log = singleLog := by
      rw [requestsOf, hsingleLog] at hlog
      exact (Option.some.inj hlog).symm
    rw [hbook, hreports, hsame]
    exact ⟨hsingleBook.symm, hsingleReports.symm⟩
  · intro others multithreaded otherLabels other hother hquiescent securityId hcalls
    obtain ⟨hotherSim, -⟩ := System.run_simulates others multithreaded hother
    obtain ⟨log, hlog, hbook, hreports⟩ := hsim.drained drained securityId
    obtain ⟨otherLog, hotherLog, hotherBook, hotherReports⟩ :=
      hotherSim.drained hquiescent securityId
    have hsame : otherLog.unnumbered = log.unnumbered := by
      apply BookLog.unnumbered_eq _ hotherLog hlog
      unfold requestsOf
      rw [numberCalls_unnumbered, numberCalls_unnumbered, hcalls]
    rw [hbook, hreports, hotherBook, hotherReports]
    exact ⟨congrArg BookLog.book hsame, congrArg BookLog.reports hsame⟩

/-- A sell and a crossing buy of one symbol, interleaved with a buy of another
symbol and its cancel. -/
def twoSymbolLabels : List (Label Unit) :=
  [.addOrder (.new 0 (ascii "1") 0 0 .sell .limit 10 5 ()), .submit, .work 0,
    .addOrder (.new 0 (ascii "2") 1 1 .buy .limit 20 3 ()), .work 0, .submit,
    .addOrder (.new 0 (ascii "3") 0 1 .buy .limit 11 5 ()), .work 1, .submit, .work 0,
    .cancelOrder (.new 0 (ascii "4") 1 1 .buy .limit 0 0 ()) (ascii "2"), .work 0, .work 1,
    .work 1, .work 0, .work 1, .work 1, .work 0, .work 1]

theorem multithreaded_refines_single_threaded_two_symbols :
    ∃ system,
      run System.step (System.configured [ascii "AAPL", ascii "MSFT"] true) twoSymbolLabels =
        some system ∧
      ∃ single, run CentralOrderBook.call
          (CentralOrderBook.configured [ascii "AAPL", ascii "MSFT"] false).1
          (callsOf twoSymbolLabels) = some single ∧
        ∀ securityId, system.central.book securityId = single.book securityId ∧
          system.central.taskReports securityId = single.taskReports securityId := by
  have hthreads :
      (run System.step (System.configured [ascii "AAPL", ascii "MSFT"] true) twoSymbolLabels).map
        (fun system => (system.threadQueues 0, system.workers 0, system.threadQueues 1,
          system.workers 1, system.submitting)) = some ([], .idle, [], .idle, none) := by
    rfl
  obtain ⟨system, hrun, hthreads⟩ := Option.map_eq_some_iff.mp hthreads
  simp only [Prod.mk.injEq] at hthreads
  obtain ⟨hqueue, hworker, hqueue', hworker', hsubmitter⟩ := hthreads
  have hdrained : system.Quiescent := by
    apply System.quiescent_of_threads hrun _ hsubmitter
    intro queueIndex hlt
    match queueIndex with
    | 0 => exact ⟨hqueue, hworker⟩
    | 1 => exact ⟨hqueue', hworker'⟩
    | _ + 2 => exact absurd hlt (by simp)
  exact ⟨system, hrun,
    (multithreaded_refines_single_threaded _ twoSymbolLabels system hrun hdrained).1⟩

end LiteExchange.OrderMatcher
