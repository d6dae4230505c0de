import LiteExchange.Fix.ReactorRuns
import LiteExchange.Server.OutgoingMessages
import LiteExchange.Server.ServerFix

/-!
# Handling a message

`processMessage` with the handlers of `ServerFix`, and the loop of `handleClient` over the
messages that it has parsed. The loop takes the pointer to the session once and does not look
at the slot again: what comes behind a message that closes the slot is handled on the session
that stays there. Delivering the same messages one at a time checks the slot before each.
-/

namespace LiteExchange.Server

open Foundation.Ascii Foundation.Results OrderMatcher
open LiteExchange.Fix LiteExchange.Fix.FixConstants

variable {γ σ : Type}

/-- The reactor after a message, and the call of the central order book that is made for it. -/
structure Handled (γ : Type) where
  reactor : FixServerReactor
  call : Option (OrderMatcher.Task γ) := none

def processMessage (reactor : FixServerReactor) (manager : SecurityManager)
    (message : FixMessage) (session : FixSession) (peerIndex : Nat) (currentUTCDateTime : Bytes)
    (memory : Indeterminate γ) : Except Fault (Handled γ) :=
  match reactor.processMessage message session peerIndex currentUTCDateTime with
  | .ok processed =>
    if processed.passed then
      match onFixMessage manager message peerIndex memory with
      | .ok (.rejectOrder rejectionMessage) =>
        .ok { reactor := rejectOrder processed.reactor peerIndex rejectionMessage
                currentUTCDateTime }
      | .ok (.call task) => .ok { reactor := processed.reactor, call := some task }
      | .error error => .error (.conversion error)
    else .ok { reactor := processed.reactor }
  | .error fault => .error fault

/-- The central order book after the call, where there is one. -/
def Handled.central (handled : Handled γ) (call : σ → OrderMatcher.Task γ → σ) (central : σ) : σ :=
  match handled.call with
  | some task => call central task
  | none => central

/-- The calls of a single-threaded central order book. -/
def callCentral (central : Option (CentralOrderBook γ)) (task : OrderMatcher.Task γ) :
    Option (CentralOrderBook γ) :=
  central.bind fun central => central.call task

/-! ## Batches -/

/-- A parsed message, the time at which it is handled and what its stack slot holds. -/
structure Arrival (γ : Type) where
  message : FixMessage
  currentUTCDateTime : Bytes
  memory : Indeterminate γ

/-- The reactor and the central order book. -/
structure Engine (σ : Type) where
  reactor : FixServerReactor
  central : σ

namespace Engine

-- The central order book is any state that calls change.
variable (manager : SecurityManager) (call : σ → OrderMatcher.Task γ → σ) (peerIndex : Nat)

/-- A message is handled on the session that stands in the slot, and the call that it makes is
made. -/
def process (engine : Engine σ) (arrival : Arrival γ) : Except Fault (Engine σ) :=
  match engine.reactor.sessions[peerIndex]? with
  | some session =>
    (processMessage engine.reactor manager arrival.message session peerIndex
      arrival.currentUTCDateTime arrival.memory).map fun handled =>
        { reactor := handled.reactor, central := handled.central call engine.central }
  | none => .ok engine

/-- The loop of `handleClient`: `getSession` is checked before it. -/
def handleClient (engine : Engine σ) (messages : List (Arrival γ)) : Except Fault (Engine σ) :=
  match engine.reactor.getSession peerIndex with
  | some _ => messages.foldlM (process manager call peerIndex) engine
  | none => .ok engine

/-- The same messages, each with a check of its own. -/
def handleOneByOne (engine : Engine σ) (messages : List (Arrival γ)) :
    Except Fault (Engine σ) :=
  messages.foldlM (fun engine arrival => handleClient manager call peerIndex engine [arrival])
    engine

end Engine

/-! ## What a message does to its slot -/

theorem rejectOrder_frame (reactor : FixServerReactor) (sessionId : Nat)
    (rejectionMessage currentUTCDateTime : Bytes) :
    (rejectOrder reactor sessionId rejectionMessage currentUTCDateTime).sessionFlags =
        reactor.sessionFlags ∧
      ∀ session, reactor.sessions[sessionId]? = some session →
        ∃ changed, (rejectOrder reactor sessionId rejectionMessage
            currentUTCDateTime).sessions[sessionId]? = some changed ∧
          session.history.length ≤ changed.history.length := by
  unfold rejectOrder
  split
  · rename_i sender hsender
    refine ⟨rfl, fun session hsession => ?_⟩
    have hsame := (FixServerReactor.getSession_some.mp hsender).2
    rw [hsession, Option.some.injEq] at hsame
    refine ⟨_, List.getElem?_set_self (List.getElem?_eq_some_iff.mp hsession).1, ?_⟩
    rw [hsame, FixSession.send, List.length_append]
    omega
  · exact ⟨rfl, fun session hsession => ⟨session, hsession, Nat.le_refl _⟩⟩

section Slot

variable {reactor : FixServerReactor} {manager : SecurityManager} {message : FixMessage}
  {session : FixSession} {peerIndex : Nat} {currentUTCDateTime : Bytes}
  {memory : Indeterminate γ} {handled : Handled γ}

/-- The handlers change nothing but to send a reject. -/
theorem processMessage_cases
    (h : processMessage reactor manager message session peerIndex currentUTCDateTime memory =
      .ok handled) :
    ∃ processed, reactor.processMessage message session peerIndex currentUTCDateTime =
        .ok processed ∧
      (handled.reactor = processed.reactor ∨
        ∃ rejectionMessage, handled.reactor =
          rejectOrder processed.reactor peerIndex rejectionMessage currentUTCDateTime) := by
  unfold processMessage at h
  split at h
  · rename_i processed hprocessed
    refine ⟨processed, hprocessed, ?_⟩
    split at h
    · split at h
      · cases h
        exact Or.inr ⟨_, rfl⟩
      · cases h
        exact Or.inl rfl
      · cases h
    · cases h
      exact Or.inl rfl
  · cases h

/-- The slot stays as it was, unless the message closes the session; one that does not close
it leaves a trace on it. -/
theorem processMessage_slot (hsession : reactor.sessions[peerIndex]? = some session)
    (h : processMessage reactor manager message session peerIndex currentUTCDateTime memory =
      .ok handled) :
    ∃ changed, handled.reactor.sessions[peerIndex]? = some changed ∧
      ((session.Closes reactor message ∧ InUse reactor.sessionFlags peerIndex ∧
          ¬ InUse handled.reactor.sessionFlags peerIndex) ∨
        (¬ session.Closes reactor message ∧
          handled.reactor.sessionFlags = reactor.sessionFlags ∧
          session.history.length < changed.history.length)) := by
  obtain ⟨processed, hprocessed, hhandled⟩ := processMessage_cases h
  obtain ⟨steps, verdict, hsteps, hsettle⟩ :=
    FixServerReactor.processMessage_cases hsession hprocessed
  have hcloses := FixSession.steps_closed hsteps
  have hwritten : processed.reactor.sessions[peerIndex]? = some (session.perform steps) := by
    rw [FixServerReactor.settle_sessions hsettle]
    exact List.getElem?_set_self (List.getElem?_eq_some_iff.mp hsession).1
  -- The handlers leave the flags, and at most add to the history.
  have hkept : handled.reactor.sessionFlags = processed.reactor.sessionFlags ∧
      ∃ changed, handled.reactor.sessions[peerIndex]? = some changed ∧
        (session.perform steps).history.length ≤ changed.history.length := by
    rcases hhandled with heq | ⟨rejectionMessage, heq⟩
    · rw [heq]
      exact ⟨rfl, _, hwritten, Nat.le_refl _⟩
    · rw [heq]
      exact ⟨(rejectOrder_frame _ _ _ _).1, (rejectOrder_frame _ _ _ _).2 _ hwritten⟩
  obtain ⟨hflags, changed, hchanged, hlength⟩ := hkept
  refine ⟨changed, hchanged, ?_⟩
  rw [hflags]
  rcases FixServerReactor.settle_cases hsettle with ⟨hopen, hreactor, -⟩ | ⟨hclosed, hclose, -⟩
  · right
    have hrecorded := FixSession.steps_recorded hsteps hopen
    refine ⟨fun hclosing => hopen (hcloses.mpr hclosing), ?_, by omega⟩
    rw [hreactor]
    rfl
  · left
    obtain ⟨saved, hsaved, hreactor⟩ := FixServerReactor.disconnect_cases hclose
    have hused := FixServerReactor.getD_flag.mp (FixServerReactor.getSession_some.mp hsaved).1
    refine ⟨hcloses.mp hclosed, hused, ?_⟩
    rw [hreactor, InUse, List.getElem?_set_self (List.getElem?_eq_some_iff.mp hused).1]
    simp

/-- On a live slot nothing goes through a null pointer. -/
theorem processMessage_live (hused : InUse reactor.sessionFlags peerIndex)
    (hsession : reactor.sessions[peerIndex]? = some session) :
    processMessage reactor manager message session peerIndex currentUTCDateTime memory ≠
      .error .nullSession := by
  intro hnull
  unfold processMessage at hnull
  rw [FixServerReactor.processMessage_steps hsession] at hnull
  cases hsteps : session.steps reactor message currentUTCDateTime with
  | error error =>
    rw [hsteps] at hnull
    cases hnull
  | ok result =>
    obtain ⟨processed, hsettle⟩ := FixServerReactor.settle_live hused hsession
      (session.perform result.1) result.2
    rw [hsteps] at hnull
    simp only [hsettle] at hnull
    split at hnull
    · split at hnull
      · cases hnull
      · cases hnull
      · cases hnull
    · cases hnull

/-- A message that closes the session of a live slot is handled. -/
theorem processMessage_closes (manager : SecurityManager) (currentUTCDateTime : Bytes)
    (memory : Indeterminate γ) (hused : InUse reactor.sessionFlags peerIndex)
    (hsession : reactor.sessions[peerIndex]? = some session)
    (hcloses : session.Closes reactor message) :
    ∃ handled, processMessage reactor manager message session peerIndex currentUTCDateTime
      memory = .ok handled := by
  obtain ⟨taken, hsteps⟩ := FixSession.steps_of_closes hcloses currentUTCDateTime
  obtain ⟨processed, hsettle⟩ := FixServerReactor.settle_live hused hsession
    (session.perform taken) .closed
  have hpassed : processed.passed = false := by
    rcases FixServerReactor.settle_cases hsettle with ⟨hopen, -⟩ | ⟨-, -, hpassed⟩
    · exact absurd rfl hopen
    · exact hpassed
  unfold processMessage
  rw [FixServerReactor.processMessage_steps hsession, hsteps]
  simp only [hsettle, hpassed, Bool.false_eq_true, if_false]
  exact ⟨_, rfl⟩

end Slot

namespace Engine

variable {manager : SecurityManager} {call : σ → OrderMatcher.Task γ → σ} {peerIndex : Nat}
  {engine next : Engine σ} {arrival : Arrival γ} {messages : List (Arrival γ)}

/-- The messages of a batch that close the session come last: each of the others leaves its
slot open, in the state in which it is handled. -/
def ClosesLast (manager : SecurityManager) (call : σ → OrderMatcher.Task γ → σ)
    (peerIndex : Nat) (engine : Engine σ) : List (Arrival γ) → Prop
  | [] => True
  | arrival :: rest =>
    (rest ≠ [] → ∀ session ∈ engine.reactor.sessions[peerIndex]?,
      ¬ session.Closes engine.reactor arrival.message) ∧
    ∀ next, process manager call peerIndex engine arrival = .ok next →
      ClosesLast manager call peerIndex next rest

theorem process_slot {session : FixSession}
    (hsession : engine.reactor.sessions[peerIndex]? = some session)
    (h : process manager call peerIndex engine arrival = .ok next) :
    ∃ changed, next.reactor.sessions[peerIndex]? = some changed ∧
      ((session.Closes engine.reactor arrival.message ∧
          InUse engine.reactor.sessionFlags peerIndex ∧
          ¬ InUse next.reactor.sessionFlags peerIndex) ∨
        (¬ session.Closes engine.reactor arrival.message ∧
          next.reactor.sessionFlags = engine.reactor.sessionFlags ∧
          session.history.length < changed.history.length)) := by
  simp only [process, hsession] at h
  cases hprocess : processMessage engine.reactor manager arrival.message session peerIndex
      arrival.currentUTCDateTime arrival.memory with
  | error fault =>
    rw [hprocess] at h
    cases h
  | ok handled =>
    rw [hprocess] at h
    cases h
    exact processMessage_slot hsession hprocess

/-- Nothing is delivered to a slot without a session. -/
theorem handleOneByOne_freed (h : engine.reactor.getSession peerIndex = none)
    (messages : List (Arrival γ)) :
    handleOneByOne manager call peerIndex engine messages = .ok engine := by
  induction messages with
  | nil => rfl
  | cons arrival rest ih =>
    rw [handleOneByOne, List.foldlM_cons, handleClient, h]
    exact ih

/-- The loop goes on behind a message that has closed the slot: whatever it does not end with
a fault leaves a trace on the session that stays there. -/
theorem foldlM_freed {session : FixSession} {last : Engine σ}
    (hfreed : ¬ InUse engine.reactor.sessionFlags peerIndex)
    (hsession : engine.reactor.sessions[peerIndex]? = some session)
    (h : messages.foldlM (process manager call peerIndex) engine = .ok last) :
    ∃ changed, last.reactor.sessions[peerIndex]? = some changed ∧
      session.history.length + messages.length ≤ changed.history.length := by
  refine (foldlM_induction (fun done engine => ¬ InUse engine.reactor.sessionFlags peerIndex ∧
    ∃ changed, engine.reactor.sessions[peerIndex]? = some changed ∧
      session.history.length + done.length ≤ changed.history.length) ?_ ?_ h).2
  · exact ⟨hfreed, session, hsession, Nat.le_refl _⟩
  · rintro done arrival engine next ⟨hfreed, present, hpresent, hgrown⟩ hnext
    obtain ⟨changed, hchanged, ⟨-, hused, -⟩ | ⟨-, hflags, hlength⟩⟩ :=
      process_slot hpresent hnext
    · exact absurd hused hfreed
    · rw [← hflags] at hfreed
      refine ⟨hfreed, changed, hchanged, ?_⟩
      rw [List.length_append, List.length_singleton]
      omega

/-- A live slot is handled the same way by the loop and with a check. -/
theorem handleOneByOne_cons {session : FixSession}
    (hlive : engine.reactor.getSession peerIndex = some session) (arrival : Arrival γ)
    (rest : List (Arrival γ)) :
    handleOneByOne manager call peerIndex engine (arrival :: rest) =
      (process manager call peerIndex engine arrival).bind fun next =>
        handleOneByOne manager call peerIndex next rest := by
  have hone : handleClient manager call peerIndex engine [arrival] =
      process manager call peerIndex engine arrival := by
    rw [handleClient, hlive]
    simp only [List.foldlM_cons, List.foldlM_nil]
    cases process manager call peerIndex engine arrival with
    | error fault => rfl
    | ok next => rfl
  rw [handleOneByOne, List.foldlM_cons, hone]
  rfl

/-- A message on a live slot never goes through a null pointer. -/
theorem process_live {session : FixSession}
    (hlive : engine.reactor.getSession peerIndex = some session) :
    process manager call peerIndex engine arrival ≠ .error .nullSession := by
  obtain ⟨hflag, hsession⟩ := FixServerReactor.getSession_some.mp hlive
  have hhandled : processMessage engine.reactor manager arrival.message session peerIndex
      arrival.currentUTCDateTime arrival.memory ≠ .error .nullSession :=
    processMessage_live (FixServerReactor.getD_flag.mp hflag) hsession
  simp only [process, hsession]
  cases hprocess : processMessage engine.reactor manager arrival.message session peerIndex
      arrival.currentUTCDateTime arrival.memory with
  | error fault =>
    rw [hprocess] at hhandled
    simpa [Except.map] using hhandled
  | ok handled => simp [Except.map]

theorem foldlM_eq_oneByOne_iff {session : FixSession}
    (hlive : engine.reactor.getSession peerIndex = some session) :
    messages.foldlM (process manager call peerIndex) engine =
        handleOneByOne manager call peerIndex engine messages ↔
      ClosesLast manager call peerIndex engine messages := by
  induction messages generalizing engine session with
  | nil => exact iff_of_true rfl trivial
  | cons arrival rest ih =>
    have hsession := (FixServerReactor.getSession_some.mp hlive).2
    rw [handleOneByOne_cons hlive, List.foldlM_cons, ClosesLast]
    cases hprocess : process manager call peerIndex engine arrival with
    | error fault =>
      -- The exception ends the reactor thread either way, and the message closes nothing.
      refine iff_of_true rfl ⟨fun _ other hother hcloses => ?_, fun next hnext => by cases hnext⟩
      rw [hsession, Option.mem_some_iff] at hother
      subst hother
      have hused := FixServerReactor.getD_flag.mp (FixServerReactor.getSession_some.mp hlive).1
      obtain ⟨handled, hhandled⟩ := processMessage_closes manager arrival.currentUTCDateTime
        arrival.memory hused hsession hcloses
      simp only [process, hsession, hhandled] at hprocess
      cases hprocess
    | ok next =>
      obtain ⟨changed, hchanged, ⟨hcloses, -, hfreed⟩ | ⟨hopen, hflags, -⟩⟩ :=
        process_slot hsession hprocess
      · -- The slot is closed: the loop must not go on.
        have hskipped : handleOneByOne manager call peerIndex next rest = .ok next :=
          handleOneByOne_freed (FixServerReactor.getSession_freed hfreed) rest
        cases rest with
        | nil =>
          refine iff_of_true rfl ⟨fun hrest => absurd rfl hrest, fun other hother => trivial⟩
        | cons later rest =>
          refine iff_of_false ?_ ?_
          · intro h
            have hloop : (later :: rest).foldlM (process manager call peerIndex) next =
                .ok next := Eq.trans h hskipped
            obtain ⟨final, hfinal, hgrown⟩ := foldlM_freed hfreed hchanged hloop
            rw [hchanged, Option.some.injEq] at hfinal
            rw [← hfinal, List.length_cons] at hgrown
            omega
          · intro h
            exact h.1 (List.cons_ne_nil later rest) session hsession hcloses
      · have hnext : next.reactor.getSession peerIndex = some changed := by
          refine FixServerReactor.getSession_some.mpr ⟨?_, hchanged⟩
          rw [hflags]
          exact (FixServerReactor.getSession_some.mp hlive).1
        constructor
        · intro h
          refine ⟨fun _ other hother => ?_, fun other hother => ?_⟩
          · rw [hsession, Option.mem_some_iff] at hother
            rw [← hother]
            exact hopen
          · cases hother
            exact (ih hnext).mp h
        · rintro ⟨-, hrest⟩
          exact (ih hnext).mpr (hrest next rfl)

theorem handleOneByOne_returns (engine : Engine σ) (messages : List (Arrival γ)) :
    handleOneByOne manager call peerIndex engine messages ≠ .error .nullSession := by
  induction messages generalizing engine with
  | nil => exact fun h => by cases h
  | cons arrival rest ih =>
    cases hlive : engine.reactor.getSession peerIndex with
    | none =>
      rw [handleOneByOne_freed hlive]
      exact fun h => by cases h
    | some session =>
      rw [handleOneByOne_cons hlive]
      cases hprocess : process manager call peerIndex engine arrival with
      | error fault =>
        have hfault : process manager call peerIndex engine arrival ≠ .error .nullSession :=
          process_live hlive
        rw [hprocess] at hfault
        exact hfault
      | ok next => exact ih next

/-- The loop does what delivering the messages one at a time does, and never goes through a
null pointer, exactly where only the last message of the batch may close the session. -/
theorem batch_agrees_iff (manager : SecurityManager) (call : σ → OrderMatcher.Task γ → σ)
    (peerIndex : Nat) (engine : Engine σ) (messages : List (Arrival γ)) :
    (handleClient manager call peerIndex engine messages =
          handleOneByOne manager call peerIndex engine messages ∧
        handleClient manager call peerIndex engine messages ≠ .error .nullSession) ↔
      ∀ session, engine.reactor.getSession peerIndex = some session →
        ClosesLast manager call peerIndex engine messages := by
  cases hlive : engine.reactor.getSession peerIndex with
  | none =>
    rw [handleClient, hlive, handleOneByOne_freed hlive]
    simp
  | some session =>
    rw [handleClient, hlive]
    simp only [Option.some.injEq, forall_eq']
    rw [← foldlM_eq_oneByOne_iff hlive]
    constructor
    · exact fun h => h.1
    · intro h
      refine ⟨h, ?_⟩
      rw [h]
      exact handleOneByOne_returns engine messages

/-- CLIENT has logged on at an exchange for MSFT. -/
def clientLoggedOn : Engine (Option (CentralOrderBook Unit)) where
  reactor := (Foundation.Runs.run FixServerReactor.step
    (FixServerReactor.initial (ascii "SERVER") true fun _ => none)
    [.accept, .handle 0 (clientLogon 1) (ascii "T")]).getD
      (FixServerReactor.initial (ascii "SERVER") true fun _ => none)
  central := some (CentralOrderBook.configured [ascii "MSFT"] false).1

/-- An order behind a LOGOFF reaches the book. -/
theorem order_behind_logoff :
    ¬ ∀ manager peerIndex (engine : Engine (Option (CentralOrderBook Unit)))
        (messages : List (Arrival Unit)),
      handleClient manager callCentral peerIndex engine messages =
          handleOneByOne manager callCentral peerIndex engine messages ∧
        handleClient manager callCentral peerIndex engine messages ≠ .error .nullSession := by
  intro h
  have hsame := (h (CentralOrderBook.configured (γ := Unit) [ascii "MSFT"] false).2 0
    clientLoggedOn [⟨clientMessage .logoff 2 [], ascii "T", clearedMemory⟩,
      ⟨clientOrder 3, ascii "T", clearedMemory⟩]).1
  -- The number of orders that the central order book has accepted.
  have horders := congrArg (fun engine : Except Fault (Engine (Option (CentralOrderBook Unit))) =>
    engine.toOption.bind fun engine => engine.central.map CentralOrderBook.orderNumber) hsame
  revert horders
  decide +kernel

end Engine

end LiteExchange.Server
