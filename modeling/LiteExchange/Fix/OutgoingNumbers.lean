import LiteExchange.Fix.ReactorRuns
import LiteExchange.Foundation.Counter

/-!
# Outgoing sequence numbers

The reactor thread answers on a session while the outgoing message processor sends its
reports on it. A send is atomic, and so is each step that a message performs on its
session; between two of them the processor may send. A LOGON overwrites the outgoing number
of the session with the stored one, whatever was sent on the connection before. A message
is stamped with the number as a `size_t`.
-/

namespace LiteExchange.Fix

open Foundation.Ascii Foundation.Counter Foundation.Runs FixConstants

/-- The number on the wire. -/
def SessionEvent.sentNumber : SessionEvent → Option Int
  | .sent message => some message.sequenceNumber
  | _ => none

/-- The numbers on the messages that were sent, in order. -/
def sentNumbers (history : List SessionEvent) : List Int :=
  history.filterMap SessionEvent.sentNumber

theorem sentNumbers_append (front back : List SessionEvent) :
    sentNumbers (front ++ back) = sentNumbers front ++ sentNumbers back :=
  List.filterMap_append

/-- The message that the reactor thread is handling: the steps that are left, and what becomes
of the message. There is no verdict where a tag of a LOGON cannot be read: the exception ends
the thread. -/
structure Underway where
  slot : Nat
  steps : List SessionStep
  verdict : Option Verdict

structure Threads where
  reactor : FixServerReactor
  underway : Option Underway := none

/-- `send` is a send of the processor, or one of the reactor thread after a message. -/
inductive ThreadLabel where
  | accept
  | disconnect (slot : Nat)
  | begin (slot : Nat) (message : FixMessage) (currentUTCDateTime : Bytes)
  | perform
  | finish
  | send (slot : Nat) (message : FixMessage) (currentUTCDateTime : Bytes)

namespace FixSession

/-- What a LOGON does before one of its tags throws. -/
def stepsBeforeThrow (session : FixSession) (reactor : FixServerReactor) (message : FixMessage) :
    List SessionStep :=
  .logOn reactor.sequenceStore message ::
    match message.getTagValueAsInt fixTagHearbeatInterval with
    | .ok heartBeatInterval =>
      [.configure heartBeatInterval message.fixVersion session.encryptionMethod]
    | .error _ => []

/-- Sends change nothing that decides the steps of a message. -/
theorem steps_send (session : FixSession) (reactor : FixServerReactor)
    (message sent : FixMessage) (currentUTCDateTime sendingTime : Bytes) :
    (session.send sent sendingTime).steps reactor message currentUTCDateTime =
      session.steps reactor message currentUTCDateTime := rfl

/-- The session can count on: the number after its own is an `int`, and it does not come from
below zero, where the `size_t` of a number is close to 2^64. -/
structure CountsOn (session : FixSession) : Prop where
  fits : FixMessage.IsInt (session.outgoingSequenceNumber + 1)
  nonzero : sentNumbers session.history ≠ [] → session.outgoingSequenceNumber ≠ 0

instance (session : FixSession) : Decidable session.CountsOn :=
  decidable_of_iff (FixMessage.IsInt (session.outgoingSequenceNumber + 1) ∧
      (sentNumbers session.history ≠ [] → session.outgoingSequenceNumber ≠ 0))
    ⟨fun h => ⟨h.1, h.2⟩, fun h => ⟨h.fits, h.nonzero⟩⟩

/-- What was sent is numbered consecutively, up to the outgoing number of the session. -/
structure Numbering (session : FixSession) : Prop where
  consecutive : Consecutive (sentNumbers session.history)
  counts : session.outgoingSequenceNumber ≠ 0 →
    Counts (sentNumbers session.history) (FixMessage.toSize session.outgoingSequenceNumber - 1)

/-- Where the number changes from -1 to 0, its `size_t` goes back to the start. -/
theorem toSize_succ {value : Int} (fits : FixMessage.IsInt (value + 1)) (nonzero : value + 1 ≠ 0) :
    (FixMessage.toSize (value + 1) : Int) = FixMessage.toSize value + 1 := by
  unfold FixMessage.IsInt at fits
  unfold FixMessage.toSize
  omega

theorem numbering_send {session : FixSession} (h : session.Numbering) (countsOn : session.CountsOn)
    (message : FixMessage) (currentUTCDateTime : Bytes) :
    (session.send message currentUTCDateTime).Numbering := by
  obtain ⟨sent, hsent, hnumber, -⟩ := send_history session message currentUTCDateTime
  have hnumbers : sentNumbers (session.send message currentUTCDateTime).history =
      sentNumbers session.history ++ [(FixMessage.toSize session.outgoingSequenceNumber : Int)] := by
    rw [hsent, sentNumbers_append, ← hnumber]
    rfl
  have houtgoing : (session.send message currentUTCDateTime).outgoingSequenceNumber =
      session.outgoingSequenceNumber + 1 := FixMessage.narrow_of_isInt countsOn.fits
  have hcounts : Counts (sentNumbers session.history)
      (FixMessage.toSize session.outgoingSequenceNumber - 1) := by
    by_cases hnone : sentNumbers session.history = []
    · rw [hnone]
      exact counts_nil _
    · exact h.counts (countsOn.nonzero hnone)
  have hnext := hcounts.snoc
  rw [Int.sub_add_cancel] at hnext
  constructor
  · rw [hnumbers]
    exact hnext.consecutive
  · intro hnonzero
    rw [houtgoing] at hnonzero
    rw [hnumbers, houtgoing, toSize_succ countsOn.fits hnonzero, Int.add_sub_cancel]
    exact hnext

/-- A step of a message numbers what it sends, and a LOGON that loads the stored numbers on a
session that has sent messages loads the outgoing number that the session has. -/
def KeepsNumbers (session : FixSession) : SessionStep → Prop
  | .send _ _ => session.CountsOn
  | .logOn store message => sentNumbers session.history ≠ [] →
    (store.loadFromSequenceStore message.senderCompId).1 = session.outgoingSequenceNumber
  | _ => True

instance (session : FixSession) (step : SessionStep) : Decidable (session.KeepsNumbers step) :=
  match step with
  | .send _ _ => inferInstanceAs (Decidable session.CountsOn)
  | .logOn _ _ => inferInstanceAs (Decidable (_ → _))
  | .configure _ _ _ => inferInstanceAs (Decidable True)
  | .accept _ => inferInstanceAs (Decidable True)

theorem numbering_performStep {session : FixSession} (h : session.Numbering) {step : SessionStep}
    (kept : session.KeepsNumbers step) : (session.performStep step).Numbering := by
  cases step with
  | send message currentUTCDateTime => exact numbering_send h kept message currentUTCDateTime
  | configure heartBeatInterval fixVersion encryptionMethod => exact ⟨h.consecutive, h.counts⟩
  | accept message =>
    have hnumbers : sentNumbers (session.performStep (.accept message)).history =
        sentNumbers session.history := by
      rw [performStep, sentNumbers_append]
      exact List.append_nil _
    constructor
    · rw [hnumbers]
      exact h.consecutive
    · rw [hnumbers]
      exact h.counts
  | logOn store message =>
    have hnumbers : sentNumbers (session.performStep (.logOn store message)).history =
        sentNumbers session.history := by
      rw [performStep, logOn, restoreSequenceNumbersFromStore, sentNumbers_append]
      exact List.append_nil _
    have houtgoing : (session.performStep (.logOn store message)).outgoingSequenceNumber =
        (store.loadFromSequenceStore message.senderCompId).1 := rfl
    constructor
    · rw [hnumbers]
      exact h.consecutive
    · rw [hnumbers, houtgoing]
      intro hnonzero
      by_cases hnone : sentNumbers session.history = []
      · rw [hnone]
        exact counts_nil _
      · have hsame := kept hnone
        rw [hsame] at hnonzero ⊢
        exact h.counts hnonzero

end FixSession

namespace Threads

def begin (threads : Threads) (slot : Nat) (message : FixMessage) (currentUTCDateTime : Bytes) :
    Option Threads :=
  match threads.underway, threads.reactor.sessions[slot]? with
  | none, some session =>
    let underway : Underway :=
      match session.steps threads.reactor message currentUTCDateTime with
      | .ok (steps, verdict) => { slot := slot, steps := steps, verdict := some verdict }
      | .error _ =>
        { slot := slot
          steps := session.stepsBeforeThrow threads.reactor message
          verdict := none }
    some { threads with underway := some underway }
  | _, _ => none

def perform (threads : Threads) : Option Threads :=
  match threads.underway with
  | some ⟨slot, step :: rest, verdict⟩ =>
    (threads.reactor.sessions[slot]?).map fun session =>
      { reactor := threads.reactor.setSession slot (session.performStep step)
        underway := some { slot := slot, steps := rest, verdict := verdict } }
  | _ => none

def finish (threads : Threads) : Option Threads :=
  match threads.underway with
  | some ⟨slot, [], some verdict⟩ =>
    if verdict = .closed then
      ((threads.reactor.onClientDisconnected slot).toOption).map fun reactor =>
        { reactor := reactor }
    else some { reactor := threads.reactor }
  | _ => none

/-- What the reactor thread does between two messages, and the sends. -/
def onReactor (threads : Threads) (label : ReactorLabel) : Option Threads :=
  (threads.reactor.step label).map fun reactor => { threads with reactor := reactor }

def step (threads : Threads) : ThreadLabel → Option Threads
  | .accept => if threads.underway.isNone then threads.onReactor .accept else none
  | .disconnect slot =>
    if threads.underway.isNone then threads.onReactor (.disconnect slot) else none
  | .begin slot message currentUTCDateTime => threads.begin slot message currentUTCDateTime
  | .perform => threads.perform
  | .finish => threads.finish
  | .send slot message currentUTCDateTime =>
    threads.onReactor (.send slot message currentUTCDateTime)

/-! ## A message that is not interrupted -/

theorem perform_all {reactor : FixServerReactor} {slot : Nat} {session : FixSession}
    (h : reactor.sessions[slot]? = some session) (steps : List SessionStep)
    (verdict : Option Verdict) :
    run step { reactor := reactor, underway := some ⟨slot, steps, verdict⟩ }
        (List.replicate steps.length .perform) =
      some
        { reactor := reactor.setSession slot (session.perform steps)
          underway := some ⟨slot, [], verdict⟩ } := by
  induction steps generalizing reactor session with
  | nil =>
    rw [FixSession.perform, List.foldl_nil, FixServerReactor.setSession_self h]
    rfl
  | cons first rest ih =>
    obtain ⟨hlt, -⟩ := List.getElem?_eq_some_iff.mp h
    have hslot : (reactor.setSession slot (session.performStep first)).sessions[slot]? =
        some (session.performStep first) := List.getElem?_set_self hlt
    have hrest := ih hslot
    have hset : (reactor.setSession slot (session.performStep first)).setSession slot
        ((session.performStep first).perform rest) =
          reactor.setSession slot (session.perform (first :: rest)) := by
      simp only [FixServerReactor.setSession, List.set_set]
      rfl
    rw [hset] at hrest
    rw [List.length_cons, List.replicate_succ, run_cons]
    simp only [step, perform, h, Option.map_some, Option.bind_some]
    exact hrest

/-- Without a send in between, the steps of a message are what the reactor does with it. -/
theorem handle_uninterrupted {reactor : FixServerReactor} {slot : Nat} {session : FixSession}
    {message : FixMessage} {currentUTCDateTime : Bytes} {steps : List SessionStep}
    {verdict : Verdict} (h : reactor.sessions[slot]? = some session)
    (hsteps : session.steps reactor message currentUTCDateTime = .ok (steps, verdict)) :
    run step { reactor := reactor } (.begin slot message currentUTCDateTime ::
        (List.replicate steps.length .perform ++ [.finish])) =
      (reactor.handle slot message currentUTCDateTime).map fun next => { reactor := next } := by
  have hbegin : step { reactor := reactor } (.begin slot message currentUTCDateTime) =
      some { reactor := reactor, underway := some ⟨slot, steps, some verdict⟩ } := by
    simp only [step, begin, h, hsteps]
  rw [run_cons, hbegin, Option.bind_some, run_append, perform_all h steps (some verdict)]
  simp only [Option.bind_some, run_cons, run_nil, Option.bind_fun_some, step, finish]
  simp only [FixServerReactor.handle, h, FixServerReactor.processMessage_steps h, hsteps,
    FixServerReactor.settle]
  split
  · cases (reactor.setSession slot (session.perform steps)).onClientDisconnected slot with
    | error fault => rfl
    | ok closed => rfl
  · rfl

/-! ## The numbers of a connection -/

/-- The step that is performed next keeps the numbers of its session, and so does a send. -/
def KeepsNumbers (threads : Threads) : ThreadLabel → Prop
  | .perform => ∀ underway ∈ threads.underway, ∀ step ∈ underway.steps.head?,
    ∀ session ∈ threads.reactor.sessions[underway.slot]?, session.KeepsNumbers step
  | .send slot _ _ => ∀ session ∈ threads.reactor.sessions[slot]?, session.CountsOn
  | _ => True

instance (threads : Threads) (label : ThreadLabel) : Decidable (threads.KeepsNumbers label) :=
  match label with
  | .perform => inferInstanceAs (Decidable (∀ underway ∈ _, ∀ step ∈ _, ∀ session ∈ _, _))
  | .send _ _ _ => inferInstanceAs (Decidable (∀ session ∈ _, _))
  | .accept => inferInstanceAs (Decidable True)
  | .disconnect _ => inferInstanceAs (Decidable True)
  | .begin _ _ _ => inferInstanceAs (Decidable True)
  | .finish => inferInstanceAs (Decidable True)

/-- The tables are in step and every session numbers what it sends. -/
structure Numbered (threads : Threads) : Prop where
  inStep : threads.reactor.InStep
  sessions : ∀ session ∈ threads.reactor.sessions, session.Numbering

/-- No message is handled, and a session that sends can count on. -/
def CountsOn (reactor : FixServerReactor) : ReactorLabel → Prop
  | .handle _ _ _ => False
  | .send slot _ _ => ∀ session ∈ reactor.sessions[slot]?, session.CountsOn
  | _ => True

/-- Outside of the messages, sessions are new or send. -/
theorem numbering_rule : FixServerReactor.SessionRule CountsOn
    (fun _ session => session.Numbering) where
  fresh := fun _ _ => ⟨List.isChain_nil, fun _ => counts_nil _⟩
  settings := fun _ _ _ _ _ h => h
  send := fun _ _ session message currentUTCDateTime hslot hok h =>
    FixSession.numbering_send h (hok session hslot) message currentUTCDateTime
  handle := fun _ _ _ _ _ _ _ _ hok => hok.elim

theorem onReactor_numbered {threads next : Threads} (h : threads.Numbered) {label : ReactorLabel}
    (hstep : threads.onReactor label = some next) (hok : CountsOn threads.reactor label) :
    next.Numbered := by
  obtain ⟨reactor, hreactor, rfl⟩ := Option.map_eq_some_iff.mp hstep
  exact ⟨FixServerReactor.step_inStep h.inStep hreactor,
    numbering_rule.step h.inStep h.sessions hok hreactor⟩

theorem step_numbered {threads next : Threads} (h : threads.Numbered) {label : ThreadLabel}
    (hok : threads.KeepsNumbers label) (hstep : threads.step label = some next) :
    next.Numbered := by
  cases label with
  | accept =>
    simp only [step, Option.ite_none_right_eq_some] at hstep
    exact onReactor_numbered h hstep.2 trivial
  | disconnect slot =>
    simp only [step, Option.ite_none_right_eq_some] at hstep
    exact onReactor_numbered h hstep.2 trivial
  | send slot message currentUTCDateTime => exact onReactor_numbered h hstep hok
  | begin slot message currentUTCDateTime =>
    simp only [step, begin] at hstep
    split at hstep
    · cases hstep
      exact ⟨h.inStep, h.sessions⟩
    · cases hstep
  | perform =>
    simp only [step, perform] at hstep
    split at hstep
    · rename_i slot first rest verdict hunderway
      obtain ⟨session, hsession, rfl⟩ := Option.map_eq_some_iff.mp hstep
      have hkept := hok _ hunderway first rfl session hsession
      have hnumbering := FixSession.numbering_performStep
        (h.sessions session (List.mem_of_getElem? hsession)) hkept
      refine ⟨FixServerReactor.inStep_setSession h.inStep _, fun other hmem => ?_⟩
      rcases List.mem_or_eq_of_mem_set hmem with hold | rfl
      · exact h.sessions other hold
      · exact hnumbering
    · cases hstep
  | finish =>
    simp only [step, finish] at hstep
    split at hstep
    · split at hstep
      · obtain ⟨reactor, hreactor, rfl⟩ := Option.map_eq_some_iff.mp hstep
        have hclose := FixServerReactor.toOption_eq_some.mp hreactor
        obtain ⟨saved, -, hclosed⟩ := FixServerReactor.disconnect_cases hclose
        refine ⟨FixServerReactor.inStep_disconnect h.inStep hclose, ?_⟩
        rw [hclosed]
        exact h.sessions
      · cases hstep
        exact ⟨h.inStep, h.sessions⟩
    · cases hstep

/-- The threads of a server that starts. -/
def initial (compId : Bytes) (sequenceNumberValidation : Bool) (store : FixSequenceStore) :
    Threads where
  reactor := FixServerReactor.initial compId sequenceNumberValidation store

theorem sent_numbers_consecutive {compId : Bytes} {sequenceNumberValidation : Bool}
    {store : FixSequenceStore} {labels : List ThreadLabel} {threads : Threads}
    (hrun : run step (initial compId sequenceNumberValidation store) labels = some threads)
    (hok : Along step KeepsNumbers (initial compId sequenceNumberValidation store) labels) :
    ∀ session ∈ threads.reactor.sessions,
      Consecutive (sentNumbers session.history) ∧ (sentNumbers session.history).Nodup := by
  have hnumbered : threads.Numbered := by
    refine run_induction_along (fun _ threads => threads.Numbered) ?_ ?_ hrun hok
    · exact ⟨FixServerReactor.initial_inStep _ _ _, fun session hmem => by cases hmem⟩
    · rintro - before label after - h hlabel hstep
      exact step_numbered h hlabel hstep
  intro session hmem
  have hconsecutive := (hnumbered.sessions session hmem).consecutive
  exact ⟨hconsecutive, hconsecutive.nodup⟩

/-- A LOGON is answered while the processor sends a message, and then an order comes without
its tags. -/
theorem sent_numbers_consecutive_logon :
    ∃ threads, run step (initial (ascii "SERVER") true fun _ => none)
        [.accept, .begin 0 (clientLogon 1) (ascii "T"), .perform, .perform,
          .send 0 (FixMessage.construct .executionReport) (ascii "T"), .perform, .perform, .finish,
          .begin 0 (clientMessage .newOrder 2 []) (ascii "T"), .perform, .finish] =
        some threads ∧
      ∀ session ∈ threads.reactor.sessions,
        Consecutive (sentNumbers session.history) ∧ (sentNumbers session.history).Nodup := by
  have hsome : (run step (initial (ascii "SERVER") true fun _ => none)
      [.accept, .begin 0 (clientLogon 1) (ascii "T"), .perform, .perform,
        .send 0 (FixMessage.construct .executionReport) (ascii "T"), .perform, .perform, .finish,
        .begin 0 (clientMessage .newOrder 2 []) (ascii "T"), .perform, .finish]).isSome = true := by
    decide +kernel
  obtain ⟨threads, hrun⟩ := Option.isSome_iff_exists.mp hsome
  exact ⟨threads, hrun, sent_numbers_consecutive hrun (by decide +kernel)⟩

/-- The client repeats its LOGON: both answers have number 1. -/
theorem number_sent_again :
    ¬ ∀ compId sequenceNumberValidation store labels threads,
      run step (initial compId sequenceNumberValidation store) labels = some threads →
        ∀ session ∈ threads.reactor.sessions,
          Consecutive (sentNumbers session.history) ∧ (sentNumbers session.history).Nodup := by
  intro h
  have hrepeated : (run step (initial (ascii "SERVER") true fun _ => none)
      [.accept, .begin 0 (clientLogon 1) (ascii "T"), .perform, .perform, .perform, .perform,
        .finish, .begin 0 (clientLogon 1) (ascii "T"), .perform, .perform, .perform, .perform,
        .finish]).map (fun threads => threads.reactor.sessions.any fun session =>
          sentNumbers session.history == [1, 1]) = some true := by
    decide +kernel
  obtain ⟨threads, hrun, htest⟩ := Option.map_eq_some_iff.mp hrepeated
  obtain ⟨session, hmem, hsession⟩ := List.any_eq_true.mp htest
  have hnodup := (h _ _ _ _ threads hrun session hmem).2
  rw [eq_of_beq hsession] at hnodup
  exact absurd hnodup (by decide)

end Threads

end LiteExchange.Fix
