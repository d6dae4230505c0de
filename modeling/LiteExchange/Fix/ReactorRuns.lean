import LiteExchange.Foundation.Runs
import LiteExchange.Fix.SlotTables

/-!
# Runs of the reactor

Connections are accepted and lost, messages are handled on the session of a slot, and the
session in a slot sends what the exchange has for it. A message may be handled on a session
whose slot has been closed: `handleClient` takes the pointer once for a whole batch. An
invariant of sessions needs to hold of a new session and to be kept by a send and by the
steps of a message.
-/

namespace LiteExchange.Fix

open Foundation.Ascii Foundation.Runs FixConstants

inductive ReactorLabel where
  | accept
  | disconnect (slot : Nat)
  | handle (slot : Nat) (message : FixMessage) (currentUTCDateTime : Bytes)
  | send (slot : Nat) (message : FixMessage) (currentUTCDateTime : Bytes)

namespace FixServerReactor

/-- The reactor of a server that starts, with the files that are there. -/
def initial (compId : Bytes) (sequenceNumberValidation : Bool) (store : FixSequenceStore) :
    FixServerReactor where
  compId := compId
  sequenceNumberValidation := sequenceNumberValidation
  sequenceStore := store

def handle (reactor : FixServerReactor) (slot : Nat) (message : FixMessage)
    (currentUTCDateTime : Bytes) : Option FixServerReactor :=
  match reactor.sessions[slot]? with
  | some session =>
    ((reactor.processMessage message session slot currentUTCDateTime).toOption).map
      Processed.reactor
  | none => none

def step (reactor : FixServerReactor) : ReactorLabel → Option FixServerReactor
  | .accept => reactor.acceptNewConnection.toOption
  | .disconnect slot => (reactor.onClientDisconnected slot).toOption
  | .handle slot message currentUTCDateTime => reactor.handle slot message currentUTCDateTime
  | .send slot message currentUTCDateTime =>
    (reactor.getSession slot).map fun session =>
      reactor.setSession slot (session.send message currentUTCDateTime)

variable {reactor next : FixServerReactor}

theorem toOption_eq_some {ε α : Type*} {x : Except ε α} {a : α} :
    x.toOption = some a ↔ x = .ok a := by
  cases x with
  | error e => simp [Except.toOption]
  | ok b => simp [Except.toOption]

theorem handle_cases {slot : Nat} {message : FixMessage} {currentUTCDateTime : Bytes}
    (h : reactor.handle slot message currentUTCDateTime = some next) :
    ∃ session steps verdict processed, reactor.sessions[slot]? = some session ∧
      session.steps reactor message currentUTCDateTime = .ok (steps, verdict) ∧
      reactor.settle slot (session.perform steps) verdict = .ok processed ∧
      next = processed.reactor := by
  unfold handle at h
  split at h
  · rename_i session hsession
    obtain ⟨processed, hprocess, rfl⟩ := Option.map_eq_some_iff.mp h
    obtain ⟨steps, verdict, hsteps, hsettle⟩ :=
      processMessage_cases hsession (toOption_eq_some.mp hprocess)
    exact ⟨session, steps, verdict, processed, hsession, hsteps, hsettle, rfl⟩
  · cases h

theorem initial_inStep (compId : Bytes) (sequenceNumberValidation : Bool)
    (store : FixSequenceStore) : (initial compId sequenceNumberValidation store).InStep :=
  ⟨rfl, rfl, rfl⟩

theorem step_inStep (h : reactor.InStep) {label : ReactorLabel}
    (hstep : reactor.step label = some next) : next.InStep := by
  cases label with
  | accept => exact (accept_cases h (toOption_eq_some.mp hstep)).1
  | disconnect slot => exact inStep_disconnect h (toOption_eq_some.mp hstep)
  | handle slot message currentUTCDateTime =>
    obtain ⟨session, steps, verdict, processed, -, -, hsettle, rfl⟩ := handle_cases hstep
    exact inStep_settle h hsettle
  | send slot message currentUTCDateTime =>
    obtain ⟨session, -, rfl⟩ := Option.map_eq_some_iff.mp hstep
    exact inStep_setSession h _

/-- The settings of the reactor never change. -/
theorem step_settings (h : reactor.InStep) {label : ReactorLabel}
    (hstep : reactor.step label = some next) :
    next.compId = reactor.compId ∧
      next.sequenceNumberValidation = reactor.sequenceNumberValidation := by
  cases label with
  | accept =>
    obtain ⟨-, hcompId, hvalidation, -⟩ := accept_cases h (toOption_eq_some.mp hstep)
    exact ⟨hcompId, hvalidation⟩
  | disconnect slot =>
    obtain ⟨session, -, rfl⟩ := disconnect_cases (toOption_eq_some.mp hstep)
    exact ⟨rfl, rfl⟩
  | handle slot message currentUTCDateTime =>
    obtain ⟨session, steps, verdict, processed, -, -, hsettle, rfl⟩ := handle_cases hstep
    exact (settle_frame hsettle).1
  | send slot message currentUTCDateTime =>
    obtain ⟨session, -, rfl⟩ := Option.map_eq_some_iff.mp hstep
    exact ⟨rfl, rfl⟩

/-! ## Invariants of sessions -/

/-- A property of sessions that holds of new ones and is kept by what happens to them, where
the messages are handled and sent under the condition `ok`. -/
structure SessionRule (ok : FixServerReactor → ReactorLabel → Prop)
    (I : FixServerReactor → FixSession → Prop) : Prop where
  fresh : ∀ reactor connection, I reactor { tcpConnection := some connection }
  /-- It depends on the settings of the reactor only. -/
  settings : ∀ reactor next session, next.compId = reactor.compId →
    next.sequenceNumberValidation = reactor.sequenceNumberValidation → I reactor session →
    I next session
  send : ∀ reactor slot session message currentUTCDateTime,
    reactor.sessions[slot]? = some session →
    ok reactor (.send slot message currentUTCDateTime) → I reactor session →
    I reactor (session.send message currentUTCDateTime)
  handle : ∀ reactor slot session message currentUTCDateTime steps verdict,
    reactor.sessions[slot]? = some session →
    ok reactor (.handle slot message currentUTCDateTime) →
    session.steps reactor message currentUTCDateTime = .ok (steps, verdict) →
    I reactor session → I reactor (session.perform steps)

variable {ok : FixServerReactor → ReactorLabel → Prop}
  {I : FixServerReactor → FixSession → Prop}

theorem SessionRule.step (rule : SessionRule ok I) (h : reactor.InStep)
    (before : ∀ session ∈ reactor.sessions, I reactor session) {label : ReactorLabel}
    (hok : ok reactor label) (hstep : reactor.step label = some next) :
    ∀ session ∈ next.sessions, I next session := by
  obtain ⟨hcompId, hvalidation⟩ := step_settings h hstep
  intro session hmem
  apply rule.settings reactor next session hcompId hvalidation
  cases label with
  | accept =>
    obtain ⟨-, -, -, -, -, hslot⟩ := accept_cases h (toOption_eq_some.mp hstep)
    rcases hslot with ⟨slot, -, hsessions, -⟩ | ⟨hsessions, -⟩
    · rw [hsessions] at hmem
      rcases List.mem_or_eq_of_mem_set hmem with hold | rfl
      · exact before session hold
      · exact rule.fresh reactor _
    · rw [hsessions] at hmem
      rcases List.mem_append.mp hmem with hold | hnew
      · exact before session hold
      · rw [List.mem_singleton.mp hnew]
        exact rule.fresh reactor _
  | disconnect slot =>
    obtain ⟨saved, -, rfl⟩ := disconnect_cases (toOption_eq_some.mp hstep)
    exact before session hmem
  | handle slot message currentUTCDateTime =>
    obtain ⟨handled, steps, verdict, processed, hslot, hsteps, hsettle, rfl⟩ := handle_cases hstep
    rw [settle_sessions hsettle] at hmem
    rcases List.mem_or_eq_of_mem_set hmem with hold | rfl
    · exact before session hold
    · exact rule.handle reactor slot handled message currentUTCDateTime steps verdict hslot hok
        hsteps (before handled (List.mem_of_getElem? hslot))
  | send slot message currentUTCDateTime =>
    obtain ⟨sender, hsender, rfl⟩ := Option.map_eq_some_iff.mp hstep
    rcases List.mem_or_eq_of_mem_set hmem with hold | rfl
    · exact before session hold
    · have hslot := (getSession_some.mp hsender).2
      exact rule.send reactor slot sender message currentUTCDateTime hslot hok
        (before sender (List.mem_of_getElem? hslot))

/-- What a rule says of sessions stays true of all of them, in every run under its condition. -/
theorem SessionRule.run_from (rule : SessionRule ok I) (h : reactor.InStep)
    (before : ∀ session ∈ reactor.sessions, I reactor session) {labels : List ReactorLabel}
    (hrun : run FixServerReactor.step reactor labels = some next)
    (hok : Along FixServerReactor.step ok reactor labels) :
    next.InStep ∧ ∀ session ∈ next.sessions, I next session := by
  refine run_induction_along (fun _ reactor => reactor.InStep ∧
    ∀ session ∈ reactor.sessions, I reactor session) ⟨h, before⟩ ?_ hrun hok
  rintro - middle label after - ⟨hinStep, hsessions⟩ hlabel hstep
  exact ⟨step_inStep hinStep hstep, rule.step hinStep hsessions hlabel hstep⟩

theorem SessionRule.run (rule : SessionRule ok I) {compId : Bytes}
    {sequenceNumberValidation : Bool} {store : FixSequenceStore} {labels : List ReactorLabel}
    (hrun : run FixServerReactor.step (initial compId sequenceNumberValidation store) labels =
      some reactor)
    (hok : Along FixServerReactor.step ok (initial compId sequenceNumberValidation store)
      labels) :
    ∀ session ∈ reactor.sessions, I reactor session :=
  (rule.run_from (initial_inStep _ _ _) (fun session hmem => by cases hmem) hrun hok).2

theorem run_settings_from (h : reactor.InStep) {labels : List ReactorLabel}
    (hrun : Foundation.Runs.run FixServerReactor.step reactor labels = some next) :
    next.InStep ∧ next.compId = reactor.compId ∧
      next.sequenceNumberValidation = reactor.sequenceNumberValidation := by
  refine run_invariant (fun after => after.InStep ∧ after.compId = reactor.compId ∧
    after.sequenceNumberValidation = reactor.sequenceNumberValidation) ⟨h, rfl, rfl⟩ ?_ hrun
  rintro before label after ⟨hinStep, hcompId, hvalidation⟩ hstep
  obtain ⟨hsameCompId, hsameValidation⟩ := step_settings hinStep hstep
  exact ⟨step_inStep hinStep hstep, hsameCompId.trans hcompId, hsameValidation.trans hvalidation⟩

/-- The settings a run started with. -/
theorem run_settings {compId : Bytes} {sequenceNumberValidation : Bool}
    {store : FixSequenceStore} {labels : List ReactorLabel}
    (hrun : Foundation.Runs.run FixServerReactor.step
      (initial compId sequenceNumberValidation store) labels = some reactor) :
    reactor.InStep ∧ reactor.compId = compId ∧
      reactor.sequenceNumberValidation = sequenceNumberValidation :=
  run_settings_from (initial_inStep _ _ _) hrun

end FixServerReactor

/-! ## Messages of a client -/

/-- A message of CLIENT to SERVER, with the tags that every message must have. -/
def clientMessage (messageType : MessageType) (sequenceNumber : Nat)
    (tags : List (Int × Bytes)) : FixMessage :=
  { (FixMessage.construct messageType).setTags
      ([(fixTagBodyLength, ascii "100"), (fixTagBodyChecksum, ascii "000")] ++ tags) with
    fixVersion := .fix42
    sequenceNumber := sequenceNumber
    senderCompId := ascii "CLIENT"
    targetCompId := ascii "SERVER"
    sendingTime := ascii "T" }

def clientLogon (sequenceNumber : Nat) : FixMessage :=
  clientMessage .logon sequenceNumber
    [(fixTagHearbeatInterval, ascii "30"), (fixTagEncryptMethod, ascii "0")]

def clientOrder (sequenceNumber : Nat) : FixMessage :=
  clientMessage .newOrder sequenceNumber
    [(fixTagTransactionTime, ascii "T"), (fixTagClientOrderId, ascii "1"),
      (fixTagSymbol, ascii "MSFT"), (fixTagOrderType, ascii "2"), (fixTagOrderSide, ascii "1"),
      (fixTagOrderQuantity, ascii "5"), (fixTagOrderPrice, ascii "10")]

end LiteExchange.Fix
