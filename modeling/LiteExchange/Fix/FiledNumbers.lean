import LiteExchange.Fix.SequenceFiles
import LiteExchange.Fix.StoredNumbers

/-!
# Server processes on their files

The reactor with its sequence numbers in files, one server process after the other: each starts on
the files that the one before it has left, by `stop` or killed between two updates. While the comp
ids have files of their own and the numbers fit an `int`, it makes the steps of the reactor that
has its numbers in a map.
-/

namespace LiteExchange.Fix

open Foundation.Ascii Foundation.Files Foundation.Runs Foundation.Refinement

inductive LifeLabel where
  | step (label : ReactorLabel)
  /-- `stop`, and the start of the next process. -/
  | stop
  /-- The process is killed, and the next one starts. -/
  | kill

namespace FixServerReactor

variable {reactor next : FixServerReactor} {store : FixSequenceStore}

def withStore (reactor : FixServerReactor) (store : FixSequenceStore) : FixServerReactor :=
  { reactor with sequenceStore := store }

/-- The next process, with the settings of this one. -/
def restarted (reactor : FixServerReactor) (store : FixSequenceStore) : FixServerReactor :=
  initial reactor.compId reactor.sequenceNumberValidation store

/-- The reactors of one process after the other, with the numbers in a map. -/
def live (reactor : FixServerReactor) : LifeLabel → Option FixServerReactor
  | .step label => reactor.step label
  | .stop => some (reactor.restarted reactor.stop)
  | .kill => some (reactor.restarted reactor.sequenceStore)

/-- The session whose numbers a step of the reactor saves. -/
def saved (reactor : FixServerReactor) : ReactorLabel → Option FixSession
  | .accept => none
  | .disconnect slot => reactor.getSession slot
  | .handle slot message currentUTCDateTime =>
    (reactor.sessions[slot]?).bind fun session =>
      match session.steps reactor message currentUTCDateTime with
      | .ok (steps, verdict) =>
        if verdict = .closed then some (session.perform steps) else none
      | .error _ => none
  | .send _ _ _ => none

/-- The sessions whose numbers are saved, in this order. -/
def savedBy (reactor : FixServerReactor) : LifeLabel → List FixSession
  | .step label => (reactor.saved label).toList
  | .stop => reactor.sessions.filter FixSession.connected
  | .kill => []

/-- The comp id whose numbers a step loads. -/
def loads (reactor : FixServerReactor) : LifeLabel → Option Bytes
  | .step (.handle _ message _) =>
    if FixSession.LogsOn reactor message then some message.senderCompId else none
  | .step .accept => none
  | .step (.disconnect _) => none
  | .step (.send _ _ _) => none
  | .stop => none
  | .kill => none

/-! ## A reactor with another store -/

theorem onClientDisconnected_withStore (reactor : FixServerReactor) (store : FixSequenceStore)
    (peerIndex : Nat) :
    (reactor.withStore store).onClientDisconnected peerIndex =
      (reactor.onClientDisconnected peerIndex).map fun closed => closed.withStore
        ((reactor.getSession peerIndex).elim store fun session =>
          session.saveSequenceNumbersToStore store) := by
  have hsession : (reactor.withStore store).getSession peerIndex =
      reactor.getSession peerIndex := rfl
  unfold onClientDisconnected
  rw [hsession]
  cases reactor.getSession peerIndex with
  | some session => rfl
  | none => rfl

theorem acceptNewConnection_withStore (reactor : FixServerReactor) (store : FixSequenceStore) :
    (reactor.withStore store).acceptNewConnection =
      reactor.acceptNewConnection.map fun accepted => accepted.withStore store := by
  have hpeer : ∀ (other : FixServerReactor) peer, (other.withStore store).addPeer peer =
      ((other.addPeer peer).1.withStore store, (other.addPeer peer).2) := by
    intro other peer
    unfold addPeer withStore
    cases freeSlot other.peerSocketsConnectionFlags with
    | none => rfl
    | some slot => rfl
  have hsession : ∀ (other : FixServerReactor) session, (other.withStore store).addSession session =
      (other.addSession session).withStore store := by
    intro other session
    unfold addSession withStore
    cases freeSlot other.sessionFlags with
    | none => rfl
    | some slot => rfl
  have hconnected : ∀ (other : FixServerReactor) peerIndex,
      (other.withStore store).onClientConnected peerIndex =
        (other.onClientConnected peerIndex).map fun accepted => accepted.withStore store := by
    intro other peerIndex
    have hget : ((other.addSession {}).withStore store).getSession peerIndex =
        (other.addSession {}).getSession peerIndex := rfl
    unfold onClientConnected
    rw [hsession]
    dsimp only
    rw [hget]
    cases (other.addSession {}).getSession peerIndex with
    | some session => rfl
    | none => rfl
  unfold acceptNewConnection
  have hadd := hpeer
    { reactor with acceptedConnections := reactor.acceptedConnections + 1 }
    reactor.acceptedConnections
  rw [show ({ reactor.withStore store with
    acceptedConnections := (reactor.withStore store).acceptedConnections + 1 } :
      FixServerReactor) = ({ reactor with
        acceptedConnections := reactor.acceptedConnections + 1 } :
          FixServerReactor).withStore store from rfl]
  rw [show (reactor.withStore store).acceptedConnections = reactor.acceptedConnections from rfl]
  rw [hadd]
  exact hconnected _ _

/-- A message performs the same steps where a LOGON loads the same numbers. -/
theorem steps_withStore (session : FixSession) {message : FixMessage} (currentUTCDateTime : Bytes)
    (same : FixSession.LogsOn reactor message →
      store.loadFromSequenceStore message.senderCompId =
        reactor.sequenceStore.loadFromSequenceStore message.senderCompId) :
    ((session.steps (reactor.withStore store) message currentUTCDateTime).map fun taken =>
        (session.perform taken.1, taken.2)) =
      (session.steps reactor message currentUTCDateTime).map fun taken =>
        (session.perform taken.1, taken.2) := by
  by_cases hlogsOn : FixSession.LogsOn reactor message
  · obtain ⟨hvalid, hlogon, htarget⟩ := hlogsOn
    have hload := same ⟨hvalid, hlogon, htarget⟩
    have hrestored : session.logOn store message = session.logOn reactor.sequenceStore message := by
      unfold FixSession.logOn FixSession.restoreSequenceNumbersFromStore
      dsimp only
      rw [hload]
    have hopening : ∀ heartBeatInterval encryptionMethod,
        session.perform (session.logonSteps (reactor.withStore store) message heartBeatInterval
            encryptionMethod currentUTCDateTime) =
          session.perform (session.logonSteps reactor message heartBeatInterval encryptionMethod
            currentUTCDateTime) := by
      intro heartBeatInterval encryptionMethod
      simp only [FixSession.logonSteps, FixSession.perform, List.foldl_append, List.foldl_cons,
        List.foldl_nil, FixSession.performStep, withStore, hrestored]
    rw [FixSession.steps_logon hvalid hlogon htarget,
      FixSession.steps_logon hvalid hlogon (show FixSession.validateTargetCompid
        (reactor.withStore store).compId message = true from htarget)]
    cases message.getTagValueAsInt FixConstants.fixTagHearbeatInterval with
    | error error => rfl
    | ok heartBeatInterval =>
      cases message.getTagValueAsInt FixConstants.fixTagEncryptMethod with
      | error error => rfl
      | ok encryptionMethod =>
        simp only [bind, Except.bind, pure, Except.pure, Except.map, FixSession.perform_append,
          hopening]
        rfl
  · unfold FixSession.steps
    by_cases hvalid : (FixSession.validateRequiredTags message 0).1 = false
    · simp only [hvalid, if_true]
      rfl
    · by_cases hlogon : message.messageType = .logon
      · have hwrong : FixSession.validateTargetCompid reactor.compId message = false := by
          by_contra htarget
          exact hlogsOn ⟨by simpa using hvalid, hlogon, by simpa using htarget⟩
        simp only [hvalid, hlogon, if_true, hwrong]
        simp [withStore, hwrong]
      · simp only [hvalid, hlogon, if_false]
        rfl

/-- With both stores the message fails, or it performs the same to the same verdict. -/
theorem taken_withStore (session : FixSession) (message : FixMessage) (currentUTCDateTime : Bytes)
    (same : FixSession.LogsOn reactor message →
      store.loadFromSequenceStore message.senderCompId =
        reactor.sequenceStore.loadFromSequenceStore message.senderCompId) :
    ((∃ error, session.steps (reactor.withStore store) message currentUTCDateTime = .error error) ∧
        ∃ error, session.steps reactor message currentUTCDateTime = .error error) ∨
      ∃ otherSteps steps verdict,
        session.steps (reactor.withStore store) message currentUTCDateTime =
          .ok (otherSteps, verdict) ∧
        session.steps reactor message currentUTCDateTime = .ok (steps, verdict) ∧
        session.perform otherSteps = session.perform steps := by
  have hsteps := steps_withStore session currentUTCDateTime same
  cases htaken : session.steps reactor message currentUTCDateTime with
  | error error =>
    rw [htaken] at hsteps
    cases hother : session.steps (reactor.withStore store) message currentUTCDateTime with
    | error otherError => exact .inl ⟨⟨otherError, rfl⟩, error, rfl⟩
    | ok otherTaken =>
      rw [hother] at hsteps
      cases hsteps
  | ok taken =>
    rw [htaken] at hsteps
    cases hother : session.steps (reactor.withStore store) message currentUTCDateTime with
    | error otherError =>
      rw [hother] at hsteps
      cases hsteps
    | ok otherTaken =>
      rw [hother] at hsteps
      obtain ⟨hperform, hverdict⟩ := Prod.mk.inj (Except.ok.inj hsteps)
      refine .inr ⟨otherTaken.1, taken.1, taken.2, ?_, rfl, hperform⟩
      rw [← hverdict]

theorem settle_withStore (reactor : FixServerReactor) (store : FixSequenceStore) {slot : Nat}
    (session : FixSession) (verdict : Verdict) (present : slot < reactor.sessions.length) :
    (reactor.withStore store).settle slot session verdict =
      (reactor.settle slot session verdict).map fun processed =>
        ⟨processed.reactor.withStore
          (if verdict = .closed then session.saveSequenceNumbersToStore store else store),
          processed.passed⟩ := by
  unfold settle
  split
  · have hset : (reactor.withStore store).setSession slot session =
        (reactor.setSession slot session).withStore store := rfl
    rw [hset, onClientDisconnected_withStore]
    cases hget : (reactor.setSession slot session).getSession slot with
    | some other =>
      have hother : other = session := by
        have hslot := (getSession_some.mp hget).2
        rw [setSession, List.getElem?_set_self present] at hslot
        exact (Option.some.inj hslot).symm
      rw [hother]
      unfold onClientDisconnected
      rw [hget]
      rfl
    | none =>
      unfold onClientDisconnected
      rw [hget]
      rfl
  · rfl

theorem saved_handle {slot : Nat} {session : FixSession} {message : FixMessage}
    {currentUTCDateTime : Bytes} {steps : List SessionStep} {verdict : Verdict}
    (hsession : reactor.sessions[slot]? = some session)
    (hsteps : session.steps reactor message currentUTCDateTime = .ok (steps, verdict)) :
    reactor.saved (.handle slot message currentUTCDateTime) =
      if verdict = .closed then some (session.perform steps) else none := by
  rw [saved, hsession, Option.bind_some, hsteps]

theorem handle_withStore {slot : Nat} {message : FixMessage} {currentUTCDateTime : Bytes}
    (same : FixSession.LogsOn reactor message →
      store.loadFromSequenceStore message.senderCompId =
        reactor.sequenceStore.loadFromSequenceStore message.senderCompId) :
    (reactor.withStore store).handle slot message currentUTCDateTime =
      (reactor.handle slot message currentUTCDateTime).map fun next => next.withStore
        ((reactor.saved (.handle slot message currentUTCDateTime)).elim store fun session =>
          session.saveSequenceNumbersToStore store) := by
  have hsessions : (reactor.withStore store).sessions = reactor.sessions := rfl
  unfold handle
  rw [hsessions]
  cases hsession : reactor.sessions[slot]? with
  | none => rfl
  | some session =>
    have hpresent := (List.getElem?_eq_some_iff.mp hsession).1
    dsimp only
    rw [processMessage_steps hsession,
      processMessage_steps (show (reactor.withStore store).sessions[slot]? = some session from
        hsession)]
    rcases taken_withStore session message currentUTCDateTime same with
      ⟨⟨otherError, hother⟩, error, htaken⟩ |
      ⟨otherSteps, steps, verdict, hother, htaken, hperform⟩
    · rw [hother, htaken]
      rfl
    · rw [hother, htaken]
      dsimp only
      rw [hperform, settle_withStore reactor store _ _ hpresent, saved_handle hsession htaken]
      cases reactor.settle slot (session.perform steps) verdict with
      | error fault => rfl
      | ok processed =>
        simp only [Except.map, Except.toOption, Option.map_some]
        by_cases hclosed : verdict = .closed
        · simp only [hclosed, if_true, Option.elim_some]
        · simp only [hclosed, if_false, Option.elim_none]

theorem saved_withStore {label : ReactorLabel}
    (same : ∀ targetCompId ∈ reactor.loads (.step label),
      store.loadFromSequenceStore targetCompId =
        reactor.sequenceStore.loadFromSequenceStore targetCompId) :
    (reactor.withStore store).saved label = reactor.saved label := by
  cases label with
  | accept => rfl
  | disconnect slot => rfl
  | send slot message currentUTCDateTime => rfl
  | handle slot message currentUTCDateTime =>
    have hsessions : (reactor.withStore store).sessions = reactor.sessions := rfl
    cases hsession : reactor.sessions[slot]? with
    | none => simp only [saved, hsessions, hsession, Option.bind_none]
    | some session =>
      rw [saved, saved, hsessions, hsession, Option.bind_some, Option.bind_some]
      rcases taken_withStore session message currentUTCDateTime fun hlogsOn =>
          same message.senderCompId (by rw [loads, if_pos hlogsOn]; rfl) with
        ⟨⟨otherError, hother⟩, error, htaken⟩ |
        ⟨otherSteps, steps, verdict, hother, htaken, hperform⟩
      · rw [hother, htaken]
      · rw [hother, htaken]
        dsimp only
        rw [hperform]

/-- The session that is saved stays in its slot. -/
theorem saved_mem {label : ReactorLabel} (hstep : reactor.step label = some next)
    {session : FixSession} (hsaved : reactor.saved label = some session) :
    session ∈ next.sessions := by
  cases label with
  | accept => cases hsaved
  | disconnect slot =>
    obtain ⟨other, -, rfl⟩ := disconnect_cases (toOption_eq_some.mp hstep)
    exact List.mem_of_getElem? (getSession_some.mp hsaved).2
  | handle slot message currentUTCDateTime =>
    obtain ⟨handled, steps, verdict, processed, hslot, hsteps, hsettle, rfl⟩ := handle_cases hstep
    rw [saved_handle hslot hsteps] at hsaved
    cases (Option.ite_none_right_eq_some.mp hsaved).2
    rw [settle_sessions hsettle]
    exact List.mem_of_getElem? (List.getElem?_set_self (List.getElem?_eq_some_iff.mp hslot).1)
  | send slot message currentUTCDateTime => cases hsaved

/-- With another store that loads the same numbers, the reactor makes the same step, and saves
the same numbers. -/
theorem step_withStore {label : ReactorLabel}
    (same : ∀ targetCompId ∈ reactor.loads (.step label),
      store.loadFromSequenceStore targetCompId =
        reactor.sequenceStore.loadFromSequenceStore targetCompId) :
    (reactor.withStore store).step label =
      (reactor.step label).map fun next => next.withStore
        ((reactor.saved label).elim store fun session =>
          session.saveSequenceNumbersToStore store) := by
  cases label with
  | accept =>
    simp only [step, acceptNewConnection_withStore]
    cases reactor.acceptNewConnection with
    | error fault => rfl
    | ok accepted => rfl
  | disconnect slot =>
    simp only [step, onClientDisconnected_withStore, saved]
    cases reactor.onClientDisconnected slot with
    | error fault => rfl
    | ok closed => rfl
  | handle slot message currentUTCDateTime =>
    refine handle_withStore fun hlogsOn => same message.senderCompId ?_
    rw [loads, if_pos hlogsOn]
    rfl
  | send slot message currentUTCDateTime =>
    have hget : (reactor.withStore store).getSession slot = reactor.getSession slot := rfl
    simp only [step, saved, hget]
    cases reactor.getSession slot with
    | none => rfl
    | some session => rfl

/-- What a step saves goes into the store. -/
theorem step_sequenceStore {label : ReactorLabel} (hstep : reactor.step label = some next) :
    next.sequenceStore = (reactor.saved label).elim reactor.sequenceStore fun session =>
      session.saveSequenceNumbersToStore reactor.sequenceStore := by
  have hself := @step_withStore reactor reactor.sequenceStore label fun _ _ => rfl
  rw [show reactor.withStore reactor.sequenceStore = reactor from rfl, hstep] at hself
  have hnext := Option.some.inj hself
  exact congrArg sequenceStore hnext

end FixServerReactor

/-! ## The files -/

namespace SequenceFiles

/-- The update that saves the numbers of a session, where the process is not killed in it. -/
def updateOf (session : FixSession) : Update where
  targetCompId := session.targetCompId
  outgoingSequenceNumber := Int32.ofInt session.outgoingSequenceNumber
  incomingSequenceNumber := Int32.ofInt session.incomingSequenceNumber
  progress := .written

def saveSequenceNumbersToStore (creatable : Bytes → Bool) (compId : Bytes)
    (files : Directory Bytes UInt8) (session : FixSession) : Directory Bytes UInt8 :=
  (updateOf session).updateSequenceStore creatable compId files

/-- The numbers of a session are values of an `int`. -/
def FitsInt (session : FixSession) : Prop :=
  (-2 ^ 31 ≤ session.outgoingSequenceNumber ∧ session.outgoingSequenceNumber < 2 ^ 31) ∧
    -2 ^ 31 ≤ session.incomingSequenceNumber ∧ session.incomingSequenceNumber < 2 ^ 31

instance : DecidablePred FitsInt := fun _ => inferInstanceAs (Decidable ((_ ∧ _) ∧ _ ∧ _))

/-- A comp id with a file of its own, which can be made. -/
def Storable (creatable : Bytes → Bool) (compId targetCompId : Bytes) : Prop :=
  0 ∉ targetCompId ∧ slash ∉ targetCompId ∧ creatable (path compId targetCompId) = true

instance (creatable : Bytes → Bool) (compId : Bytes) : DecidablePred (Storable creatable compId) :=
  fun _ => inferInstanceAs (Decidable (_ ∧ _ ∧ _))

/-- The files hold what the map holds. -/
def Represents (creatable : Bytes → Bool) (compId : Bytes) (files : Directory Bytes UInt8)
    (store : FixSequenceStore) : Prop :=
  ∀ targetCompId, Storable creatable compId targetCompId →
    loadFromSequenceStore files compId targetCompId =
      .ok (store.loadFromSequenceStore targetCompId)

variable {creatable : Bytes → Bool} {compId : Bytes} {files : Directory Bytes UInt8}
  {store : FixSequenceStore} {session : FixSession}

theorem restored_updateOf (fits : FitsInt session)
    (storable : Storable creatable compId session.targetCompId) :
    (updateOf session).restored creatable compId =
      .ok (session.outgoingSequenceNumber, session.incomingSequenceNumber) := by
  obtain ⟨⟨houtLow, houtHigh⟩, hinLow, hinHigh⟩ := fits
  have hout := Int32.toInt_ofInt_of_le houtLow houtHigh
  have hin := Int32.toInt_ofInt_of_le hinLow hinHigh
  simp only [Update.restored, updateOf, storable.2.2, if_true, hout, hin]

theorem Represents.save (h : Represents creatable compId files store) (own : 0 ∉ compId)
    (target : 0 ∉ session.targetCompId) (fits : FitsInt session) :
    Represents creatable compId (saveSequenceNumbersToStore creatable compId files session)
      (session.saveSequenceNumbersToStore store) := by
  intro targetCompId hstorable
  by_cases hsame : targetCompId = session.targetCompId
  · subst hsame
    have htouches : ((updateOf session).replacement compId).Touches
        (path compId session.targetCompId) := ⟨nofun, rfl⟩
    have hload : loadFromSequenceStore (saveSequenceNumbersToStore creatable compId files session)
        compId session.targetCompId = (updateOf session).restored creatable compId :=
      Update.load_leaves rfl (Replacement.perform_self htouches)
    rw [hload, restored_updateOf fits hstorable]
    simp [FixSession.saveSequenceNumbersToStore, FixSequenceStore.updateSequenceStore,
      FixSequenceStore.loadFromSequenceStore]
  · have huntouched : ¬ ((updateOf session).replacement compId).Touches
        (path compId targetCompId) := by
      intro htouches
      exact hsame (path_injective own target hstorable.1 htouches.2).symm
    have hload : loadFromSequenceStore (saveSequenceNumbersToStore creatable compId files session)
        compId targetCompId = loadFromSequenceStore files compId targetCompId :=
      load_congr (Replacement.perform_other huntouched)
    rw [hload, h targetCompId hstorable]
    simp [FixSession.saveSequenceNumbersToStore, FixSequenceStore.updateSequenceStore,
      FixSequenceStore.loadFromSequenceStore, hsame]

theorem Represents.saveAll {sessions : List FixSession}
    (h : Represents creatable compId files store) (own : 0 ∉ compId)
    (targets : ∀ session ∈ sessions, 0 ∉ session.targetCompId)
    (fits : ∀ session ∈ sessions, FitsInt session) :
    Represents creatable compId
      (sessions.foldl (saveSequenceNumbersToStore creatable compId) files)
      (sessions.foldl (fun store session => session.saveSequenceNumbersToStore store) store) := by
  induction sessions generalizing files store with
  | nil => exact h
  | cons session sessions ih =>
    exact ih (h.save own (targets session List.mem_cons_self) (fits session List.mem_cons_self))
      (fun other hmem => targets other (List.mem_cons_of_mem session hmem))
      (fun other hmem => fits other (List.mem_cons_of_mem session hmem))

/-- What loads out of the files, as far as it can be loaded. -/
def loaded (compId : Bytes) (files : Directory Bytes UInt8) : FixSequenceStore :=
  fun targetCompId => (loadFromSequenceStore files compId targetCompId).toOption

theorem Represents.loaded (h : Represents creatable compId files store) {targetCompId : Bytes}
    (storable : Storable creatable compId targetCompId) :
    (SequenceFiles.loaded compId files).loadFromSequenceStore targetCompId =
      store.loadFromSequenceStore targetCompId := by
  rw [FixSequenceStore.loadFromSequenceStore, SequenceFiles.loaded, h targetCompId storable]
  rfl

end SequenceFiles

open SequenceFiles

/-- The reactor, which reads nothing of its `sequenceStore`, and the files. -/
structure FiledReactor where
  reactor : FixServerReactor
  files : Directory Bytes UInt8

namespace FiledReactor

/-- The reactor, as what it loads comes out of the files. -/
def reading (filed : FiledReactor) : FixServerReactor :=
  filed.reactor.withStore (loaded filed.reactor.compId filed.files)

/-- A LOGON whose numbers cannot be loaded ends the process, or reads behind the tokens. -/
def LoadFails (filed : FiledReactor) (label : LifeLabel) : Prop :=
  ∃ targetCompId ∈ filed.reactor.loads label,
    (loadFromSequenceStore filed.files filed.reactor.compId targetCompId).isOk = false

instance (filed : FiledReactor) (label : LifeLabel) : Decidable (filed.LoadFails label) :=
  inferInstanceAs (Decidable (∃ targetCompId ∈ filed.reactor.loads label, _ = false))

def step (creatable : Bytes → Bool) (filed : FiledReactor) (label : LifeLabel) :
    Option FiledReactor :=
  if filed.LoadFails label then none
  else (filed.reading.live label).map fun next =>
    ⟨next, (filed.reading.savedBy label).foldl
      (saveSequenceNumbersToStore creatable filed.reactor.compId) filed.files⟩

/-- The same reactor, but for where its numbers are. -/
structure Mirrors (creatable : Bytes → Bool) (filed : FiledReactor) (reactor : FixServerReactor) :
    Prop where
  same : filed.reactor.withStore reactor.sequenceStore = reactor
  inStep : reactor.InStep
  own : 0 ∉ reactor.compId
  targets : ∀ session ∈ reactor.sessions, 0 ∉ session.targetCompId
  represents : Represents creatable reactor.compId filed.files reactor.sequenceStore

/-- The comp id of a LOGON has a file of its own, and the numbers that are saved fit an `int`. -/
def Ordinary (creatable : Bytes → Bool) (reactor : FixServerReactor) (label : LifeLabel) : Prop :=
  (∀ targetCompId ∈ reactor.loads label, Storable creatable reactor.compId targetCompId) ∧
    ∀ session ∈ reactor.savedBy label, FitsInt session

instance (creatable : Bytes → Bool) (reactor : FixServerReactor) (label : LifeLabel) :
    Decidable (Ordinary creatable reactor label) := inferInstanceAs (Decidable (_ ∧ _))

/-- The comp ids of the sessions have no zero byte, where those of the LOGONs have none. -/
theorem targets_rule : FixServerReactor.SessionRule
    (fun reactor label => ∀ targetCompId ∈ reactor.loads (.step label), 0 ∉ targetCompId)
    (fun _ session => 0 ∉ session.targetCompId) where
  fresh := fun _ _ => List.not_mem_nil
  settings := fun _ _ _ _ _ htarget => htarget
  send := fun _ _ _ _ _ _ _ htarget => htarget
  handle := by
    intro reactor slot session message currentUTCDateTime steps verdict _ hok hsteps htarget
    rcases (FixSession.steps_frame hsteps).2 with hsame | ⟨hlogsOn, hsender⟩
    · rw [hsame]
      exact htarget
    · rw [hsender]
      refine hok message.senderCompId ?_
      rw [FixServerReactor.loads, if_pos hlogsOn]
      rfl

section Matched

variable {creatable : Bytes → Bool} {filed : FiledReactor} {reactor : FixServerReactor}

theorem Mirrors.reading (h : Mirrors creatable filed reactor) :
    filed.reading = reactor.withStore (loaded reactor.compId filed.files) := by
  rw [FiledReactor.reading, ← h.same]
  rfl

theorem Mirrors.loads (h : Mirrors creatable filed reactor) (label : LifeLabel) :
    filed.reactor.loads label = reactor.loads label := by
  rw [← h.same]
  cases label with
  | step label => cases label <;> rfl
  | stop => rfl
  | kill => rfl

theorem Mirrors.not_loadFails (h : Mirrors creatable filed reactor) {label : LifeLabel}
    (hok : Ordinary creatable reactor label) : ¬ filed.LoadFails label := by
  rintro ⟨targetCompId, hmem, hfails⟩
  rw [h.loads] at hmem
  have hcompId : filed.reactor.compId = reactor.compId := by rw [← h.same]; rfl
  rw [hcompId, h.represents targetCompId (hok.1 targetCompId hmem)] at hfails
  cases hfails

theorem Mirrors.restarted (h : Mirrors creatable filed reactor) {files : Directory Bytes UInt8}
    {store other : FixSequenceStore} (represents : Represents creatable reactor.compId files store) :
    Mirrors creatable ⟨reactor.restarted other, files⟩ (reactor.restarted store) where
  same := rfl
  inStep := FixServerReactor.initial_inStep _ _ _
  own := h.own
  targets := fun session hmem => by cases hmem
  represents := represents

theorem matched {label : LifeLabel} (h : Mirrors creatable filed reactor)
    (hok : Ordinary creatable reactor label) :
    Option.Rel (Mirrors creatable) (filed.step creatable label) (reactor.live label) := by
  have hcompId : filed.reactor.compId = reactor.compId := by rw [← h.same]; rfl
  rw [step, if_neg (h.not_loadFails hok), h.reading, hcompId]
  cases label with
  | step label =>
    have hloads : ∀ targetCompId ∈ reactor.loads (.step label),
        (loaded reactor.compId filed.files).loadFromSequenceStore targetCompId =
          reactor.sequenceStore.loadFromSequenceStore targetCompId :=
      fun targetCompId hmem => h.represents.loaded (hok.1 targetCompId hmem)
    simp only [FixServerReactor.live, FixServerReactor.savedBy,
      FixServerReactor.step_withStore hloads, FixServerReactor.saved_withStore hloads]
    cases hstep : reactor.step label with
    | none => exact .none
    | some next =>
      have htargets : ∀ session ∈ next.sessions, 0 ∉ session.targetCompId :=
        targets_rule.step h.inStep h.targets (fun targetCompId hmem => (hok.1 targetCompId hmem).1)
          hstep
      have hsettings := (FixServerReactor.step_settings h.inStep hstep).1
      refine .some ⟨rfl, FixServerReactor.step_inStep h.inStep hstep, ?_, htargets, ?_⟩
      · rw [hsettings]
        exact h.own
      · have hsavedTargets : ∀ session ∈ (reactor.saved label).toList, 0 ∉ session.targetCompId :=
          fun session hmem => htargets session
            (FixServerReactor.saved_mem hstep (Option.mem_toList.mp hmem))
        have hsaved := h.represents.saveAll h.own hsavedTargets hok.2
        rw [hsettings, FixServerReactor.step_sequenceStore hstep]
        cases hlast : reactor.saved label with
        | none =>
          rw [hlast] at hsaved
          exact hsaved
        | some session =>
          rw [hlast] at hsaved
          exact hsaved
  | stop =>
    refine .some (h.restarted ?_)
    have hsaved := h.represents.saveAll h.own
      (fun session hmem => h.targets session (List.mem_of_mem_filter hmem)) hok.2
    have hstop : reactor.stop = (reactor.savedBy .stop).foldl
        (fun store session => session.saveSequenceNumbersToStore store) reactor.sequenceStore := by
      rw [FixServerReactor.savedBy, List.foldl_filter]
      rfl
    rw [hstop]
    exact hsaved
  | kill => exact .some (h.restarted h.represents)

end Matched

/-- One server process after the other, on the files that they leave each other: while the comp
ids have files of their own and the numbers fit, the processes go through the same runs as with
their numbers in a map, and the files hold the map. -/
theorem files_keep_numbers (creatable : Bytes → Bool) (compId : Bytes)
    (sequenceNumberValidation : Bool) (files : Directory Bytes UInt8) (store : FixSequenceStore)
    (own : 0 ∉ compId) (start : Represents creatable compId files store) (labels : List LifeLabel)
    (ordinary : Along FixServerReactor.live (Ordinary creatable)
      (FixServerReactor.initial compId sequenceNumberValidation store) labels) :
    Option.Rel (Mirrors creatable)
      (run (step creatable)
        ⟨FixServerReactor.initial compId sequenceNumberValidation fun _ => none, files⟩ labels)
      (run FixServerReactor.live
        (FixServerReactor.initial compId sequenceNumberValidation store) labels) := by
  have hmirrors : Mirrors creatable
      ⟨FixServerReactor.initial compId sequenceNumberValidation fun _ => none, files⟩
      (FixServerReactor.initial compId sequenceNumberValidation store) :=
    ⟨rfl, FixServerReactor.initial_inStep _ _ _, own, nofun, start⟩
  exact run_rel (@matched creatable) hmirrors ordinary

theorem represents_empty (creatable : Bytes → Bool) (compId : Bytes) :
    Represents creatable compId (fun _ => none) fun _ => none :=
  fun _ _ => load_absent rfl

/-- CLIENT logs on, and again after a disconnect, a stop and a kill. -/
def fourLogons : List LifeLabel :=
  [.step .accept, .step (.handle 0 (clientLogon 1) (ascii "T")), .step (.disconnect 0),
    .step .accept, .step (.handle 0 (clientLogon 2) (ascii "T")), .stop,
    .step .accept, .step (.handle 0 (clientLogon 3) (ascii "T")), .step (.disconnect 0), .kill,
    .step .accept, .step (.handle 0 (clientLogon 4) (ascii "T"))]

theorem files_keep_numbers_fourLogons :
    ∃ filed reactor, run (step fun _ => true)
        ⟨FixServerReactor.initial (ascii "SERVER") true fun _ => none, fun _ => none⟩ fourLogons =
          some filed ∧
      run FixServerReactor.live (FixServerReactor.initial (ascii "SERVER") true fun _ => none)
          fourLogons = some reactor ∧
      Mirrors (fun _ => true) filed reactor ∧
      loadFromSequenceStore filed.files (ascii "SERVER") (ascii "CLIENT") = .ok (4, 3) := by
  have hsome : (run FixServerReactor.live
      (FixServerReactor.initial (ascii "SERVER") true fun _ => none) fourLogons).map
      (fun reactor => (reactor.compId,
        reactor.sequenceStore.loadFromSequenceStore (ascii "CLIENT"))) =
          some (ascii "SERVER", 4, 3) := by
    decide +kernel
  obtain ⟨reactor, hrun, hlast⟩ := Option.map_eq_some_iff.mp hsome
  obtain ⟨hcompId, hnumbers⟩ := Prod.mk.inj hlast
  have hrel := files_keep_numbers (fun _ => true) (ascii "SERVER") true (fun _ => none)
    (fun _ => none) (by decide) (represents_empty _ _) fourLogons (by decide +kernel)
  rw [hrun] at hrel
  cases hfiled : run (step fun _ => true)
      ⟨FixServerReactor.initial (ascii "SERVER") true fun _ => none, fun _ => none⟩ fourLogons with
  | none =>
    rw [hfiled] at hrel
    cases hrel
  | some filed =>
    rw [hfiled] at hrel
    cases hrel with
    | some hmirrors =>
      refine ⟨filed, reactor, rfl, hrun, hmirrors, ?_⟩
      have hload := hmirrors.represents (ascii "CLIENT") ⟨by decide, by decide, rfl⟩
      rwa [hcompId, hnumbers] at hload

end FiledReactor

end LiteExchange.Fix
