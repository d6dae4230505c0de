import LiteExchange.Core.MemoryMappedFile
import LiteExchange.Core.QueueMPSC

/-!
# The logger

Source: logger.cpp, logger.h, actor.h, task.h. Any thread calls `log`. The thread of the logger
flushes the queue, processes the nodes one by one, and then asks whether it is to finish.
`Task::execute` catches an exception, which ends this thread only.
-/

namespace LiteExchange.Core

open Foundation.Runs Foundation.LinkedList Foundation.Ascii Foundation.AppendLog
open Foundation.Results

/-- The underlying type of the enumeration. -/
def LogLevel.value : LogLevel → Nat
  | .fatal => 0
  | .error => 1
  | .warning => 2
  | .info => 3
  | .debug => 4

structure LoggerArguments where
  rotationSizeInBytes : Nat := 10240000
  logLevel : LogLevel := .error
  copyToStdout : Bool := false
  memoryMappedFileName : Bytes := []

def LoggerArguments.backendEnabled (configuration : LoggerArguments) : Bool :=
  0 < configuration.memoryMappedFileName.length

def LoggerArguments.backend (configuration : LoggerArguments) : MemoryMappedFileBackend :=
  if configuration.backendEnabled then
    { rotationSize := configuration.rotationSizeInBytes
      resourceName := configuration.memoryMappedFileName }
  else {}

/-- Where `run` stands. `currentLog` points to the node that it comes to next. -/
inductive LoggerPlace (ι : Type) where
  | starting
  | flushing
  | writing (currentLog : Option ι)
  | waiting
  | ended
  | failed (fault : LogFault) (currentLog : Option ι)
  deriving DecidableEq

def LoggerPlace.currentLog {ι : Type} : LoggerPlace ι → Option ι
  | .writing currentLog => currentLog
  | .failed _ currentLog => currentLog
  | _ => none

/-- A flush is still to come, whatever `isFinishing` says. -/
def LoggerPlace.flushes {ι : Type} : LoggerPlace ι → Bool
  | .starting => true
  | .flushing => true
  | .waiting => true
  | _ => false

/-- The backend is open. -/
def LoggerPlace.opened {ι : Type} : LoggerPlace ι → Bool
  | .flushing => true
  | .writing _ => true
  | .waiting => true
  | _ => false

/-- The exceptions, which `Task::execute` catches. The other faults end the process. -/
def LogFault.caught : LogFault → Bool
  | .cannotBeOpened _ => true
  | _ => false

/-- The process is there. -/
def LoggerPlace.alive {ι : Type} : LoggerPlace ι → Bool
  | .failed fault _ => fault.caught
  | _ => true

/-- `written` are the entries that the thread has processed. -/
structure Logger (π ι : Type) where
  logLevel : LogLevel
  backendEnabled : Bool
  copyToStdout : Bool
  buffer : QueueMPSC π ι LogEntry
  backend : MemoryMappedFileBackend
  stdout : List Bytes := []
  place : LoggerPlace ι := .starting
  isFinishing : Bool := false
  written : List Logged := []

inductive LoggerStep (π ι : Type) where
  /-- `log`, up to the lock of `push`. -/
  | log (producer : π) (address : ι) (level : LogLevel) (sender message : Bytes)
  | link (producer : π)
  | start (opening : Opening)
  | checkEmpty
  | take
  | process (utcDatetime : Bytes) (opening : Opening)
  | finish
  | wake
  /-- The signal of `shutdown`. -/
  | shutdown

namespace Logger

variable {π ι : Type} [DecidableEq π] [DecidableEq ι]

/-- `initialise`, on a new logger. The dummy node of the queue holds `data`. -/
def initialise (configuration : LoggerArguments) (dummy : ι) (data : LogEntry) : Logger π ι where
  logLevel := configuration.logLevel
  backendEnabled := configuration.backendEnabled
  copyToStdout := configuration.copyToStdout
  buffer := .construct dummy data
  backend := configuration.backend

def withBuffer (logger : Logger π ι) (buffer : QueueMPSC π ι LogEntry) : Logger π ι :=
  { logger with buffer := buffer }

/-- The logger has somewhere to write to. -/
def enabled (logger : Logger π ι) : Bool := logger.backendEnabled || logger.copyToStdout

def openBackend (pageSize : Nat) (logger : Logger π ι) (opening : Opening) :
    Except LogFault MemoryMappedFileBackend :=
  if logger.backendEnabled then logger.backend.openBackend pageSize opening
  else .ok logger.backend

def process (pageSize : Nat) (logger : Logger π ι) (logged : Logged) :
    Except LogFault MemoryMappedFileBackend :=
  if logger.backendEnabled then logger.backend.process pageSize logged else .ok logger.backend

/-- Behind a node of a flushed list. -/
def processed (logger : Logger π ι) (logged : Logged) (currentLog : Option ι)
    (backend : MemoryMappedFileBackend) : Logger π ι :=
  { logger with
    backend := backend
    stdout :=
      if logger.copyToStdout then logger.stdout ++ [logged.entry.message] else logger.stdout
    place := .writing currentLog
    written := logger.written ++ [logged] }

/-- `run` closes the backend and returns. -/
def closed (logger : Logger π ι) : Logger π ι :=
  { logger with
    backend :=
      if logger.backendEnabled then logger.backend.closeMemoryMappedFile else logger.backend
    place := .ended }

/-- The thread goes on, or ends with its fault. -/
def attempt (logger : Logger π ι) : Except LogFault (Logger π ι) → Logger π ι
  | .ok next => next
  | .error fault => { logger with place := .failed fault logger.place.currentLog }

/-- What `flush` has returned. -/
def lastReturned (buffer : QueueMPSC π ι LogEntry) : Option ι := buffer.returned.getLast?.join

/-- The steps of `run`. -/
def runStep (pageSize : Nat) (logger : Logger π ι) : LoggerStep π ι → Option (Logger π ι)
  | .start opening =>
    if logger.place = .starting then
      if logger.enabled then
        some (logger.attempt ((logger.openBackend pageSize opening).map fun backend =>
          { logger with backend := backend, place := .flushing }))
      else some { logger with place := .ended }
    else none
  | .checkEmpty =>
    if logger.place = .flushing then
      (logger.buffer.step .checkEmpty).map fun buffer =>
        if buffer.flushing then logger.withBuffer buffer
        else { logger.withBuffer buffer with place := .writing (lastReturned buffer) }
    else none
  | .take =>
    if logger.place = .flushing then
      (logger.buffer.step .take).map fun buffer =>
        { logger.withBuffer buffer with place := .writing (lastReturned buffer) }
    else none
  | .process utcDatetime opening =>
    match logger.place with
    | .writing (some address) =>
      (logger.buffer.heap address).map fun node =>
        let logged : Logged := ⟨node.data, utcDatetime, opening⟩
        logger.attempt ((logger.process pageSize logged).map (logger.processed logged node.next))
    | _ => none
  | .finish =>
    if logger.place = .writing none then
      if logger.isFinishing then some logger.closed
      else some { logger with place := .waiting }
    else none
  | .wake => if logger.place = .waiting then some { logger with place := .flushing } else none
  | _ => none

def step (pageSize : Nat) (logger : Logger π ι) (label : LoggerStep π ι) :
    Option (Logger π ι) :=
  if logger.place.alive then
    match label with
    | .log producer address level sender message =>
      if level.value ≤ logger.logLevel.value then
        (logger.buffer.step (.newNode producer address ⟨level, sender, message⟩)).map
          logger.withBuffer
      else some logger
    | .link producer => (logger.buffer.step (.link producer)).map logger.withBuffer
    | .shutdown => some { logger with isFinishing := true }
    | label => logger.runStep pageSize label
  else none

/-! ## What a step does -/

inductive Effect (pageSize : Nat) (logger next : Logger π ι) : LoggerStep π ι → Prop
  | logs {producer : π} {address : ι} {level : LogLevel} {sender message : Bytes}
      {buffer : QueueMPSC π ι LogEntry} (passes : level.value ≤ logger.logLevel.value)
      (made : logger.buffer.step (.newNode producer address ⟨level, sender, message⟩) =
        some buffer)
      (after : next = logger.withBuffer buffer) :
      Effect pageSize logger next (.log producer address level sender message)
  | filters {producer : π} {address : ι} {level : LogLevel} {sender message : Bytes}
      (above : logger.logLevel.value < level.value) (after : next = logger) :
      Effect pageSize logger next (.log producer address level sender message)
  | links {producer : π} {buffer : QueueMPSC π ι LogEntry}
      (linked : logger.buffer.step (.link producer) = some buffer)
      (after : next = logger.withBuffer buffer) : Effect pageSize logger next (.link producer)
  | shuts (after : next = { logger with isFinishing := true }) :
      Effect pageSize logger next .shutdown
  | exits {opening : Opening} (place : logger.place = .starting) (off : logger.enabled = false)
      (after : next = { logger with place := .ended }) :
      Effect pageSize logger next (.start opening)
  | opens {opening : Opening} {backend : MemoryMappedFileBackend}
      (place : logger.place = .starting) (opened : logger.openBackend pageSize opening = .ok backend)
      (after : next = { logger with backend := backend, place := .flushing }) :
      Effect pageSize logger next (.start opening)
  | failsToOpen {opening : Opening} {fault : LogFault} (place : logger.place = .starting)
      (after : next = { logger with place := .failed fault logger.place.currentLog }) :
      Effect pageSize logger next (.start opening)
  | flushes {buffer : QueueMPSC π ι LogEntry} (place : logger.place = .flushing)
      (checked : logger.buffer.step .checkEmpty = some buffer) (nonempty : buffer.flushing = true)
      (after : next = logger.withBuffer buffer) : Effect pageSize logger next .checkEmpty
  | finds {buffer : QueueMPSC π ι LogEntry} (place : logger.place = .flushing)
      (checked : logger.buffer.step .checkEmpty = some buffer) (empty : buffer.flushing = false)
      (after : next = { logger.withBuffer buffer with place := .writing (lastReturned buffer) }) :
      Effect pageSize logger next .checkEmpty
  | takes {buffer : QueueMPSC π ι LogEntry} (place : logger.place = .flushing)
      (taken : logger.buffer.step .take = some buffer)
      (after : next = { logger.withBuffer buffer with place := .writing (lastReturned buffer) }) :
      Effect pageSize logger next .take
  | writes {utcDatetime : Bytes} {opening : Opening} {address : ι} {node : Node ι LogEntry}
      {backend : MemoryMappedFileBackend} (place : logger.place = .writing (some address))
      (here : logger.buffer.heap address = some node)
      (stored : logger.process pageSize ⟨node.data, utcDatetime, opening⟩ = .ok backend)
      (after : next = logger.processed ⟨node.data, utcDatetime, opening⟩ node.next backend) :
      Effect pageSize logger next (.process utcDatetime opening)
  | failsToWrite {utcDatetime : Bytes} {opening : Opening} {fault : LogFault} {address : ι}
      (place : logger.place = .writing (some address))
      (after : next = { logger with place := .failed fault logger.place.currentLog }) :
      Effect pageSize logger next (.process utcDatetime opening)
  | ends (place : logger.place = .writing none) (finishing : logger.isFinishing = true)
      (after : next = logger.closed) : Effect pageSize logger next .finish
  | waits (place : logger.place = .writing none) (goesOn : logger.isFinishing = false)
      (after : next = { logger with place := .waiting }) : Effect pageSize logger next .finish
  | wakes (place : logger.place = .waiting) (after : next = { logger with place := .flushing }) :
      Effect pageSize logger next .wake

section Steps

variable {pageSize : Nat} {logger next : Logger π ι} {label : LoggerStep π ι}

theorem effect_start {opening : Opening}
    (h : logger.runStep pageSize (.start opening) = some next) :
    Effect pageSize logger next (.start opening) := by
  obtain ⟨hplace, hstarts⟩ := Option.ite_none_right_eq_some.mp h
  split at hstarts
  · cases hopen : logger.openBackend pageSize opening with
    | error fault =>
      rw [hopen] at hstarts
      exact .failsToOpen hplace (Option.some.inj hstarts).symm
    | ok backend =>
      rw [hopen] at hstarts
      exact .opens hplace hopen (Option.some.inj hstarts).symm
  · rename_i hoff
    exact .exits hplace (Bool.eq_false_iff.mpr hoff) (Option.some.inj hstarts).symm

theorem effect_process {utcDatetime : Bytes} {opening : Opening}
    (h : logger.runStep pageSize (.process utcDatetime opening) = some next) :
    Effect pageSize logger next (.process utcDatetime opening) := by
  simp only [runStep] at h
  split at h
  · rename_i address hplace
    obtain ⟨node, hnode, hnext⟩ := Option.map_eq_some_iff.mp h
    cases hprocess : logger.process pageSize ⟨node.data, utcDatetime, opening⟩ with
    | error fault =>
      rw [hprocess] at hnext
      exact .failsToWrite hplace hnext.symm
    | ok backend =>
      rw [hprocess] at hnext
      exact .writes hplace hnode hprocess hnext.symm
  · cases h

theorem effect_of_step (h : logger.step pageSize label = some next) :
    Effect pageSize logger next label := by
  obtain ⟨-, hstep⟩ := Option.ite_none_right_eq_some.mp h
  cases label with
  | log producer address level sender message =>
    simp only at hstep
    split at hstep
    · rename_i hpasses
      obtain ⟨buffer, hmade, hnext⟩ := Option.map_eq_some_iff.mp hstep
      exact .logs hpasses hmade hnext.symm
    · rename_i habove
      exact .filters (Nat.not_le.mp habove) (Option.some.inj hstep).symm
  | link producer =>
    obtain ⟨buffer, hlinked, hnext⟩ := Option.map_eq_some_iff.mp hstep
    exact .links hlinked hnext.symm
  | start opening => exact effect_start hstep
  | checkEmpty =>
    obtain ⟨hplace, hflush⟩ := Option.ite_none_right_eq_some.mp hstep
    obtain ⟨buffer, hchecked, hnext⟩ := Option.map_eq_some_iff.mp hflush
    split at hnext
    · rename_i hnonempty
      exact .flushes hplace hchecked hnonempty hnext.symm
    · rename_i hempty
      exact .finds hplace hchecked (Bool.eq_false_iff.mpr hempty) hnext.symm
  | take =>
    obtain ⟨hplace, hflush⟩ := Option.ite_none_right_eq_some.mp hstep
    obtain ⟨buffer, htaken, hnext⟩ := Option.map_eq_some_iff.mp hflush
    exact .takes hplace htaken hnext.symm
  | process utcDatetime opening => exact effect_process hstep
  | finish =>
    obtain ⟨hplace, hfinish⟩ := Option.ite_none_right_eq_some.mp hstep
    split at hfinish
    · rename_i hfinishing
      exact .ends hplace hfinishing (Option.some.inj hfinish).symm
    · rename_i hgoesOn
      exact .waits hplace (Bool.eq_false_iff.mpr hgoesOn) (Option.some.inj hfinish).symm
  | wake =>
    obtain ⟨hplace, hwake⟩ := Option.ite_none_right_eq_some.mp hstep
    exact .wakes hplace (Option.some.inj hwake).symm
  | shutdown => exact .shuts (Option.some.inj hstep).symm

/-! ## From the queue to the files -/

/-- `inHand` are the nodes of the last flush that are not processed, `nodes` those that are still
in the queue. -/
structure Delivers (logger : Logger π ι) (flushed : List (List (ι × LogEntry))) (dummy : LogEntry)
    (inHand nodes : List (ι × LogEntry)) : Prop where
  intact : logger.buffer.Intact flushed dummy nodes
  chain : Chain logger.buffer.heap logger.place.currentLog inHand
  processed : ∃ done, flushed.flatten = done ++ inHand ∧
    done.map Prod.snd = logger.written.map Logged.entry

variable {flushed : List (List (ι × LogEntry))} {dummy : LogEntry}
  {inHand nodes : List (ι × LogEntry)} {buffer : QueueMPSC π ι LogEntry}

/-- No step of the queue touches the lists that it has returned. -/
theorem heap_flushed (h : logger.buffer.Intact flushed dummy nodes)
    {label : QueueMPSCStep π ι LogEntry} (hstep : logger.buffer.step label = some buffer)
    {address : ι} (passed : address ∈ addresses flushed.flatten) :
    buffer.heap address = logger.buffer.heap address := by
  obtain ⟨-, -, hapart⟩ := List.nodup_append.mp h.distinct
  cases label with
  | newNode producer free data =>
    obtain ⟨⟨-, hfree⟩, hnext⟩ := Option.ite_none_right_eq_some.mp hstep
    cases hnext
    refine Function.update_of_ne ?_ _ _
    rintro rfl
    exact chains_allocated h.returned passed (Option.isNone_iff_eq_none.mp hfree)
  | link producer =>
    obtain ⟨⟨newNode, data⟩, -, hnext⟩ := Option.map_eq_some_iff.mp hstep
    cases hnext
    exact Heap.setNext_of_ne _ fun hsame => hapart _ passed _ h.tail_mem hsame
  | isEmpty =>
    obtain ⟨-, hnext⟩ := Option.ite_none_left_eq_some.mp hstep
    cases hnext
    rfl
  | checkEmpty =>
    obtain ⟨-, hnext⟩ := Option.ite_none_left_eq_some.mp hstep
    split at hnext
    · cases hnext
      rfl
    · cases hnext
      rfl
  | take =>
    obtain ⟨-, hnext⟩ := Option.ite_none_right_eq_some.mp hstep
    cases hnext
    exact Heap.setNext_of_ne _ fun hsame => hapart _ passed _ List.mem_cons_self hsame

theorem Delivers.chain_step (h : logger.Delivers flushed dummy inHand nodes)
    {label : QueueMPSCStep π ι LogEntry} (hstep : logger.buffer.step label = some buffer) :
    Chain buffer.heap logger.place.currentLog inHand := by
  obtain ⟨done, hflatten, -⟩ := h.processed
  refine h.chain.frame fun address passed => heap_flushed h.intact hstep ?_
  rw [hflatten, addresses_append]
  exact List.mem_append_right _ passed

/-- A call of `log` or `push` leaves what has been flushed. -/
theorem Delivers.pushing (h : logger.Delivers flushed dummy inHand nodes)
    {label : QueueMPSCStep π ι LogEntry} (hstep : logger.buffer.step label = some buffer)
    {nodes' : List (ι × LogEntry)} (hintact : buffer.Intact flushed dummy nodes') :
    (logger.withBuffer buffer).Delivers flushed dummy inHand nodes' where
  intact := hintact
  chain := h.chain_step hstep
  processed := h.processed

omit [DecidableEq π] [DecidableEq ι] in
/-- A flush has returned a list, and the thread goes on with it. -/
theorem Delivers.takes (h : logger.Delivers flushed dummy [] nodes)
    {last nodes' : List (ι × LogEntry)} (hintact : buffer.Intact (flushed ++ [last]) dummy nodes') :
    Delivers { logger.withBuffer buffer with place := .writing (lastReturned buffer) }
      (flushed ++ [last]) dummy last nodes' where
  intact := hintact
  chain := chains_last hintact.returned
  processed := by
    obtain ⟨done, hflatten, hdone⟩ := h.processed
    rw [List.append_nil] at hflatten
    exact ⟨done, by rw [List.flatten_append, hflatten, List.flatten_singleton], hdone⟩

omit [DecidableEq π] [DecidableEq ι] in
/-- A change of place that leaves the node that comes next. -/
theorem Delivers.moves (h : logger.Delivers flushed dummy inHand nodes)
    (buffer : next.buffer = logger.buffer) (written : next.written = logger.written)
    (currentLog : next.place.currentLog = logger.place.currentLog) :
    next.Delivers flushed dummy inHand nodes where
  intact := buffer ▸ h.intact
  chain := by
    rw [buffer, currentLog]
    exact h.chain
  processed := written ▸ h.processed

omit [DecidableEq π] [DecidableEq ι] in
theorem Delivers.writes (h : logger.Delivers flushed dummy inHand nodes) {address : ι}
    {node : Node ι LogEntry} (place : logger.place = .writing (some address))
    (here : logger.buffer.heap address = some node) (utcDatetime : Bytes) (opening : Opening)
    (backend : MemoryMappedFileBackend) :
    ∃ rest, (logger.processed ⟨node.data, utcDatetime, opening⟩ node.next backend).Delivers
      flushed dummy rest nodes := by
  obtain ⟨done, hflatten, hdone⟩ := h.processed
  have hchain := h.chain
  rw [place] at hchain
  cases hchain with
  | @node _ data pointer rest here' hrest =>
    obtain rfl := Option.some.inj (here.symm.trans here')
    refine ⟨rest, h.intact, hrest, done ++ [(address, data)], ?_, ?_⟩
    · rw [hflatten, List.append_assoc]
      rfl
    · rw [List.map_append, hdone, Logger.processed, List.map_append]
      rfl

/-- What the first section of `flush` finds. -/
theorem checkEmpty_cases (h : logger.buffer.Intact flushed dummy nodes)
    (hstep : logger.buffer.step .checkEmpty = some buffer) :
    buffer.flushing = true ∧ buffer.Intact flushed dummy nodes ∨
      buffer.flushing = false ∧ nodes = [] ∧ buffer.Intact (flushed ++ [[]]) dummy [] := by
  obtain ⟨hidle, hnext⟩ := Option.ite_none_left_eq_some.mp hstep
  have hlength := h.returned.length_eq
  split at hnext
  · rename_i hempty
    obtain rfl := h.isEmpty_iff.mp hempty
    cases hnext
    refine .inr ⟨Bool.eq_false_iff.mpr hidle, rfl, ?_⟩
    refine (h.checkEmpty hstep).resolve_right fun hsame => ?_
    have hlonger := hsame.returned.length_eq
    rw [List.length_append, List.length_singleton] at hlonger
    omega
  · cases hnext
    refine .inl ⟨rfl, (h.checkEmpty hstep).resolve_left fun hmore => ?_⟩
    have hlonger := hmore.returned.length_eq
    rw [List.length_append, List.length_singleton] at hlonger
    exact Nat.succ_ne_self _ (hlonger.symm.trans hlength)

/-- `more` is what a step flushes: nothing, or all that is in the queue. -/
structure Flushed (pageSize : Nat) (logger next : Logger π ι) (more : List (List (ι × LogEntry)))
    (nodes : List (ι × LogEntry)) : Prop where
  only : logger.place.flushes = false → more = []
  last : logger.place.flushes = true → next.place.flushes = true ∨ nodes = [] ∨
    logger.enabled = false ∨ ∃ fault currentLog, next.place = .failed fault currentLog

omit [DecidableEq π] [DecidableEq ι] in
/-- A step that flushes nothing. -/
theorem Delivers.flushes_none {pageSize : Nat} (h : next.Delivers flushed dummy inHand nodes)
    (last : logger.place.flushes = true → next.place.flushes = true ∨ nodes = [] ∨
      logger.enabled = false ∨ ∃ fault currentLog, next.place = .failed fault currentLog) :
    ∃ more inHand' nodes', next.Delivers (flushed ++ more) dummy inHand' nodes' ∧
      Flushed pageSize logger next more nodes' := by
  refine ⟨[], inHand, nodes, ?_, fun _ => rfl, last⟩
  rw [List.append_nil]
  exact h

omit [DecidableEq π] [DecidableEq ι] in
/-- A step that flushes all that is in the queue. -/
theorem Delivers.flushes_all {pageSize : Nat} {last : List (ι × LogEntry)}
    (place : logger.place = .flushing) (h : next.Delivers (flushed ++ [last]) dummy inHand []) :
    ∃ more inHand' nodes', next.Delivers (flushed ++ more) dummy inHand' nodes' ∧
      Flushed pageSize logger next more nodes' := by
  refine ⟨[last], inHand, [], h, fun hpast => ?_, fun _ => .inr (.inl rfl)⟩
  rw [place] at hpast
  cases hpast

omit [DecidableEq π] [DecidableEq ι] in
/-- In front of a flush nothing is in the thread's hand. -/
theorem Delivers.inHand_nil (h : logger.Delivers flushed dummy inHand nodes)
    (place : logger.place = .flushing) : inHand = [] := by
  have hchain := h.chain
  rw [place] at hchain
  cases hchain
  rfl

theorem Delivers.newNode (h : logger.Delivers flushed dummy inHand nodes) {producer : π}
    {address : ι} {data : LogEntry}
    (made : logger.buffer.step (.newNode producer address data) = some buffer) :
    (logger.withBuffer buffer).Delivers flushed dummy inHand nodes :=
  h.pushing made (h.intact.newNode made)

/-- The node that `push` has made is in the queue once it is linked. -/
theorem Delivers.link (h : logger.Delivers flushed dummy inHand nodes) {producer : π}
    (linked : logger.buffer.step (.link producer) = some buffer) :
    ∃ node, (logger.withBuffer buffer).Delivers flushed dummy inHand (nodes ++ [node]) := by
  obtain ⟨⟨newNode, data⟩, hpushing, hbuffer⟩ := Option.map_eq_some_iff.mp linked
  cases hbuffer
  exact ⟨(newNode, data), h.pushing linked (h.intact.link hpushing)⟩

theorem Delivers.checkEmpty_goesOn (h : logger.Delivers flushed dummy inHand nodes)
    (checked : logger.buffer.step .checkEmpty = some buffer) (nonempty : buffer.flushing = true) :
    (logger.withBuffer buffer).Delivers flushed dummy inHand nodes := by
  rcases checkEmpty_cases h.intact checked with ⟨-, hintact⟩ | ⟨hidle, -⟩
  · exact h.pushing checked hintact
  · rw [hidle] at nonempty
    cases nonempty

theorem Delivers.checkEmpty_returns (h : logger.Delivers flushed dummy inHand nodes)
    (place : logger.place = .flushing) (checked : logger.buffer.step .checkEmpty = some buffer)
    (empty : buffer.flushing = false) :
    Delivers { logger.withBuffer buffer with place := .writing (lastReturned buffer) }
      (flushed ++ [[]]) dummy [] [] := by
  obtain rfl := h.inHand_nil place
  rcases checkEmpty_cases h.intact checked with ⟨hflushing, -⟩ | ⟨-, rfl, hintact⟩
  · rw [hflushing] at empty
    cases empty
  · exact h.takes hintact

theorem Delivers.take (h : logger.Delivers flushed dummy inHand nodes)
    (place : logger.place = .flushing) (taken : logger.buffer.step .take = some buffer) :
    Delivers { logger.withBuffer buffer with place := .writing (lastReturned buffer) }
      (flushed ++ [nodes]) dummy nodes [] := by
  obtain rfl := h.inHand_nil place
  obtain ⟨-, hbuffer⟩ := Option.ite_none_right_eq_some.mp taken
  have hintact := h.intact.cutOff
  rw [Option.some.inj hbuffer] at hintact
  exact h.takes hintact

theorem Delivers.step (h : logger.Delivers flushed dummy inHand nodes)
    (heffect : Effect pageSize logger next label) :
    ∃ more inHand' nodes', next.Delivers (flushed ++ more) dummy inHand' nodes' ∧
      Flushed pageSize logger next more nodes' := by
  cases heffect with
  | logs passes made after =>
    subst after
    exact Delivers.flushes_none (h.newNode made) .inl
  | filters above after =>
    subst after
    exact h.flushes_none .inl
  | links linked after =>
    subst after
    obtain ⟨node, hnext⟩ := h.link linked
    exact hnext.flushes_none .inl
  | shuts after =>
    subst after
    exact Delivers.flushes_none (h.moves rfl rfl rfl) .inl
  | exits place off after =>
    subst after
    refine Delivers.flushes_none (h.moves rfl rfl ?_) fun _ => .inr (.inr (.inl off))
    rw [place]
    rfl
  | opens place opened after =>
    subst after
    refine Delivers.flushes_none (h.moves rfl rfl ?_) fun _ => .inl rfl
    rw [place]
    rfl
  | failsToOpen place after | failsToWrite place after =>
    subst after
    exact Delivers.flushes_none (h.moves rfl rfl rfl) fun _ => .inr (.inr (.inr ⟨_, _, rfl⟩))
  | flushes place checked nonempty after =>
    subst after
    exact Delivers.flushes_none (h.checkEmpty_goesOn checked nonempty) .inl
  | finds place checked empty after =>
    subst after
    exact (h.checkEmpty_returns place checked empty).flushes_all place
  | takes place taken after =>
    subst after
    exact (h.take place taken).flushes_all place
  | writes place here stored after =>
    subst after
    obtain ⟨rest, hnext⟩ := h.writes place here _ _ _
    refine hnext.flushes_none fun hflushes => ?_
    rw [place] at hflushes
    cases hflushes
  | ends place finishing after =>
    subst after
    refine Delivers.flushes_none (h.moves rfl rfl ?_) fun hflushes => ?_
    · rw [place]
      rfl
    · rw [place] at hflushes
      cases hflushes
  | waits place goesOn after =>
    subst after
    refine Delivers.flushes_none (h.moves rfl rfl ?_) fun _ => .inl rfl
    rw [place]
    rfl
  | wakes place after =>
    subst after
    refine Delivers.flushes_none (h.moves rfl rfl ?_) fun _ => .inl rfl
    rw [place]
    rfl

/-! ## The files -/

/-- The texts in the files, in the order of the files. -/
def texts (logger : Logger π ι) : List Bytes :=
  logger.backend.files.flatMap fun file => file.appends.map Record.bytes

/-- What the files and the standard output hold of the entries that have been processed. -/
structure Stored (pageSize : Nat) (configuration : LoggerArguments) (logger : Logger π ι) :
    Prop where
  configured : logger.logLevel = configuration.logLevel ∧
    logger.backendEnabled = configuration.backendEnabled ∧
    logger.copyToStdout = configuration.copyToStdout
  starting : logger.place = .starting →
    logger.written = [] ∧ logger.backend = configuration.backend
  opened : logger.backendEnabled = true → logger.place.opened = true →
    logger.backend.Intact pageSize configuration.rotationSizeInBytes
      (logger.written.map Logged.entryAsString)
  whole : ∀ file ∈ logger.backend.files, file.Whole
  texts : logger.texts =
    if logger.backendEnabled then logger.written.map Logged.entryAsString else []
  stdout : logger.stdout =
    if logger.copyToStdout then logger.written.map fun logged => logged.entry.message else []

variable {configuration : LoggerArguments}

theorem whole_empty : (SharedMemory.file {}).Whole where
  packed := ⟨0, .nil⟩
  inside := nofun
  stored := nofun

omit [DecidableEq π] in
theorem stored_initialise (pageSize : Nat) (configuration : LoggerArguments) (dummy : ι)
    (data : LogEntry) :
    Stored pageSize configuration (initialise configuration dummy data : Logger π ι) := by
  have hfiles : configuration.backend.files = [SharedMemory.file {}] := by
    unfold LoggerArguments.backend
    split
    · rfl
    · rfl
  exact
    { configured := ⟨rfl, rfl, rfl⟩
      starting := fun _ => ⟨rfl, rfl⟩
      opened := fun _ hopened => by cases hopened
      whole := by
        intro file hfile
        rw [initialise, hfiles] at hfile
        obtain rfl := List.mem_singleton.mp hfile
        exact whole_empty
      texts := by
        rw [Logger.texts, initialise, hfiles]
        exact (ite_self _).symm
      stdout := (ite_self _).symm }

omit [DecidableEq π] [DecidableEq ι] in
/-- A step that neither opens nor closes nor processes. -/
theorem Stored.moves (h : logger.Stored pageSize configuration)
    (same : next.backend = logger.backend ∧ next.written = logger.written ∧
      next.stdout = logger.stdout ∧ next.logLevel = logger.logLevel ∧
      next.backendEnabled = logger.backendEnabled ∧ next.copyToStdout = logger.copyToStdout)
    (starting : next.place = .starting → logger.place = .starting)
    (opened : logger.backendEnabled = true → next.place.opened = true →
      logger.place.opened = true) :
    next.Stored pageSize configuration := by
  obtain ⟨hbackend, hwritten, hstdout, hlevel, henabled, hcopy⟩ := same
  obtain ⟨hlevel', henabled', hcopy'⟩ := h.configured
  exact
    { configured := ⟨hlevel.trans hlevel', henabled.trans henabled', hcopy.trans hcopy'⟩
      starting := fun hplace => by
        rw [hbackend, hwritten]
        exact h.starting (starting hplace)
      opened := fun hon hplace => by
        rw [hbackend, hwritten]
        exact h.opened (henabled ▸ hon) (opened (henabled ▸ hon) hplace)
      whole := hbackend ▸ h.whole
      texts := by
        rw [Logger.texts, hbackend, henabled, hwritten]
        exact h.texts
      stdout := by
        rw [hstdout, hcopy, hwritten]
        exact h.stdout }

omit [DecidableEq π] [DecidableEq ι] in
theorem Stored.opens (fits : FitsPages pageSize configuration.rotationSizeInBytes)
    (h : logger.Stored pageSize configuration) {opening : Opening}
    {backend : MemoryMappedFileBackend} (place : logger.place = .starting)
    (opened : logger.openBackend pageSize opening = .ok backend) :
    Stored pageSize configuration { logger with backend := backend, place := .flushing } := by
  obtain ⟨hwritten, hbackend⟩ := h.starting place
  unfold Logger.openBackend at opened
  by_cases henabled : logger.backendEnabled = true
  · rw [if_pos henabled, hbackend, LoggerArguments.backend, ← h.configured.2.1,
      if_pos henabled] at opened
    obtain ⟨hintact, -⟩ := MemoryMappedFileBackend.openBackend_ok fits opened
    exact
      { configured := h.configured
        starting := nofun
        opened := fun _ _ => by
          rw [hwritten]
          exact hintact
        whole := hintact.whole
        texts := by
          rw [if_pos henabled, hwritten]
          exact hintact.entries
        stdout := h.stdout }
  · rw [if_neg henabled] at opened
    cases opened
    exact h.moves ⟨rfl, rfl, rfl, rfl, rfl, rfl⟩ nofun fun hon => absurd hon henabled

omit [DecidableEq π] [DecidableEq ι] in
theorem Stored.writes (fits : FitsPages pageSize configuration.rotationSizeInBytes)
    (h : logger.Stored pageSize configuration) {address : ι} {logged : Logged}
    {currentLog : Option ι} {backend : MemoryMappedFileBackend}
    (place : logger.place = .writing (some address))
    (stored : logger.process pageSize logged = .ok backend) :
    (logger.processed logged currentLog backend).Stored pageSize configuration := by
  have hstdout : (logger.processed logged currentLog backend).stdout =
      if logger.copyToStdout then
        (logger.written ++ [logged]).map fun logged => logged.entry.message else [] := by
    have hbefore := h.stdout
    simp only [processed]
    cases hcopy : logger.copyToStdout with
    | false =>
      rw [hcopy] at hbefore
      exact hbefore
    | true =>
      rw [hcopy, if_pos rfl] at hbefore
      rw [if_pos rfl, if_pos rfl, List.map_append, hbefore]
      rfl
  unfold Logger.process at stored
  cases henabled : logger.backendEnabled with
  | false =>
    rw [henabled] at stored
    cases stored
    have htexts := h.texts
    rw [henabled, if_neg Bool.false_ne_true] at htexts
    exact
      { configured := h.configured
        starting := nofun
        opened := fun hon => by
          rw [processed, henabled] at hon
          cases hon
        whole := h.whole
        texts := by
          rw [processed, henabled, if_neg Bool.false_ne_true]
          exact htexts
        stdout := hstdout }
  | true =>
    rw [henabled, if_pos rfl] at stored
    have hintact := h.opened henabled (by rw [place]; rfl)
    obtain ⟨hnext, -⟩ := hintact.process_ok fits stored
    have hentries : logger.written.map Logged.entryAsString ++ [logged.entryAsString] =
        (logger.written ++ [logged]).map Logged.entryAsString := by
      rw [List.map_append, List.map_singleton]
    rw [hentries] at hnext
    exact
      { configured := h.configured
        starting := nofun
        opened := fun _ _ => hnext
        whole := hnext.whole
        texts := by
          rw [processed, henabled, if_pos rfl]
          exact hnext.entries
        stdout := hstdout }

omit [DecidableEq π] [DecidableEq ι] in
/-- Closing the backend leaves the files. -/
theorem Stored.ends (h : logger.Stored pageSize configuration) :
    logger.closed.Stored pageSize configuration := by
  cases henabled : logger.backendEnabled with
  | false =>
    refine h.moves ⟨?_, rfl, rfl, rfl, rfl, rfl⟩ nofun nofun
    rw [closed, henabled]
    rfl
  | true =>
    have hfiles : logger.closed.backend.files =
        logger.backend.files ++ [SharedMemory.file {}] := by
      rw [closed, henabled]
      rfl
    exact
      { configured := h.configured
        starting := nofun
        opened := nofun
        whole := by
          intro file hfile
          rw [hfiles] at hfile
          rcases List.mem_append.mp hfile with hbefore | hempty
          · exact h.whole file hbefore
          · obtain rfl := List.mem_singleton.mp hempty
            exact whole_empty
        texts := by
          have htexts := h.texts
          rw [Logger.texts] at htexts ⊢
          rw [hfiles, List.flatMap_append, htexts]
          exact List.append_nil _
        stdout := h.stdout }

theorem Stored.step (fits : FitsPages pageSize configuration.rotationSizeInBytes)
    (h : logger.Stored pageSize configuration) (heffect : Effect pageSize logger next label) :
    next.Stored pageSize configuration := by
  cases heffect with
  | logs passes made after =>
    subst after
    exact h.moves ⟨rfl, rfl, rfl, rfl, rfl, rfl⟩ id fun _ => id
  | filters above after =>
    subst after
    exact h
  | links linked after =>
    subst after
    exact h.moves ⟨rfl, rfl, rfl, rfl, rfl, rfl⟩ id fun _ => id
  | shuts after =>
    subst after
    exact h.moves ⟨rfl, rfl, rfl, rfl, rfl, rfl⟩ id fun _ => id
  | exits place off after =>
    subst after
    exact h.moves ⟨rfl, rfl, rfl, rfl, rfl, rfl⟩ nofun nofun
  | opens place opened after =>
    subst after
    exact h.opens fits place opened
  | failsToOpen place after =>
    subst after
    exact h.moves ⟨rfl, rfl, rfl, rfl, rfl, rfl⟩ nofun nofun
  | flushes place checked nonempty after =>
    subst after
    exact h.moves ⟨rfl, rfl, rfl, rfl, rfl, rfl⟩ id fun _ => id
  | finds place checked empty after =>
    subst after
    exact h.moves ⟨rfl, rfl, rfl, rfl, rfl, rfl⟩ nofun fun _ _ => by rw [place]; rfl
  | takes place taken after =>
    subst after
    exact h.moves ⟨rfl, rfl, rfl, rfl, rfl, rfl⟩ nofun fun _ _ => by rw [place]; rfl
  | writes place here stored after =>
    subst after
    exact h.writes fits place stored
  | failsToWrite place after =>
    subst after
    exact h.moves ⟨rfl, rfl, rfl, rfl, rfl, rfl⟩ nofun nofun
  | ends place finishing after =>
    subst after
    exact h.ends
  | waits place goesOn after =>
    subst after
    exact h.moves ⟨rfl, rfl, rfl, rfl, rfl, rfl⟩ nofun fun _ _ => by rw [place]; rfl
  | wakes place after =>
    subst after
    exact h.moves ⟨rfl, rfl, rfl, rfl, rfl, rfl⟩ nofun fun _ _ => by rw [place]; rfl

/-! ## The order of the producers -/

/-- What a producer has logged that is not filtered out. -/
def logged (level : LogLevel) (producer : π) (labels : List (LoggerStep π ι)) : List LogEntry :=
  labels.filterMap fun
    | .log caller _ entryLevel sender message =>
      if caller = producer ∧ entryLevel.value ≤ level.value then
        some ⟨entryLevel, sender, message⟩
      else none
    | _ => none

/-- The entries in the queue's order with their producers: those of each producer are in its own
order, its last one perhaps not linked yet. -/
def Ordered (labels : List (LoggerStep π ι)) (logger : Logger π ι) : Prop :=
  ∃ tagged : List (π × LogEntry), tagged.map Prod.snd = logger.buffer.pushed ∧
    ∀ producer, (tagged.filter fun entry => entry.1 = producer).map Prod.snd ++
      ((logger.buffer.pushing producer).map Prod.snd).toList =
        logged logger.logLevel producer labels

omit [DecidableEq ι] in
theorem logged_snoc (level : LogLevel) (producer : π) (labels : List (LoggerStep π ι))
    (label : LoggerStep π ι) :
    logged level producer (labels ++ [label]) =
      logged level producer labels ++ logged level producer [label] := List.filterMap_append

omit [DecidableEq ι] in
/-- A step that logs nothing and leaves the pushes. -/
theorem Ordered.quiet {labels : List (LoggerStep π ι)} (h : logger.Ordered labels)
    (label : LoggerStep π ι) (silent : ∀ producer, logged logger.logLevel producer [label] = [])
    (same : next.logLevel = logger.logLevel ∧ next.buffer.pushed = logger.buffer.pushed ∧
      next.buffer.pushing = logger.buffer.pushing) : next.Ordered (labels ++ [label]) := by
  obtain ⟨tagged, htagged, horder⟩ := h
  obtain ⟨hlevel, hpushed, hpushing⟩ := same
  refine ⟨tagged, htagged.trans hpushed.symm, fun producer => ?_⟩
  rw [hlevel, hpushing, logged_snoc, silent, List.append_nil]
  exact horder producer

theorem Ordered.logs {labels : List (LoggerStep π ι)} (h : logger.Ordered labels) {producer : π}
    {address : ι} {level : LogLevel} {sender message : Bytes}
    (passes : level.value ≤ logger.logLevel.value)
    (made : logger.buffer.step (.newNode producer address ⟨level, sender, message⟩) =
      some buffer) :
    (logger.withBuffer buffer).Ordered (labels ++ [.log producer address level sender message]) := by
  obtain ⟨tagged, htagged, horder⟩ := h
  obtain ⟨⟨hidle, -⟩, hbuffer⟩ := Option.ite_none_right_eq_some.mp made
  cases hbuffer
  refine ⟨tagged, htagged, fun other => ?_⟩
  have hother := horder other
  rw [logged_snoc, withBuffer, ← hother]
  by_cases hsame : other = producer
  · subst hsame
    simp [logged, passes, Option.isNone_iff_eq_none.mp hidle]
  · simp [logged, Function.update_of_ne hsame, Ne.symm hsame]

theorem Ordered.links {labels : List (LoggerStep π ι)} (h : logger.Ordered labels) {producer : π}
    (linked : logger.buffer.step (.link producer) = some buffer) :
    (logger.withBuffer buffer).Ordered (labels ++ [.link producer]) := by
  obtain ⟨tagged, htagged, horder⟩ := h
  obtain ⟨⟨newNode, data⟩, hpushing, hbuffer⟩ := Option.map_eq_some_iff.mp linked
  cases hbuffer
  refine ⟨tagged ++ [(producer, data)], ?_, fun other => ?_⟩
  · rw [List.map_append, htagged]
    rfl
  · have hother := horder other
    rw [logged_snoc, withBuffer, ← hother]
    by_cases hsame : other = producer
    · subst hsame
      simp [logged, QueueMPSC.linkNode, hpushing]
    · simp [logged, QueueMPSC.linkNode, Function.update_of_ne hsame, Ne.symm hsame]

/-- The sections of `flush` leave the pushes. -/
theorem flush_pushes {queue after : QueueMPSC π ι LogEntry}
    (h : queue.step .checkEmpty = some after ∨ queue.step .take = some after) :
    after.pushed = queue.pushed ∧ after.pushing = queue.pushing := by
  rcases h with hcheck | htake
  · obtain ⟨-, hnext⟩ := Option.ite_none_left_eq_some.mp hcheck
    split at hnext
    · cases hnext
      exact ⟨rfl, rfl⟩
    · cases hnext
      exact ⟨rfl, rfl⟩
  · obtain ⟨-, hnext⟩ := Option.ite_none_right_eq_some.mp htake
    cases hnext
    exact ⟨rfl, rfl⟩

theorem Ordered.step {labels : List (LoggerStep π ι)} (h : logger.Ordered labels)
    (heffect : Effect pageSize logger next label) : next.Ordered (labels ++ [label]) := by
  cases heffect with
  | logs passes made after =>
    subst after
    exact h.logs passes made
  | @filters producer address level sender message above after =>
    subst after
    refine h.quiet _ (fun other => ?_) ⟨rfl, rfl, rfl⟩
    simp [logged, Nat.not_le.mpr above]
  | links linked after =>
    subst after
    exact h.links linked
  | shuts after =>
    subst after
    exact h.quiet _ (fun _ => rfl) ⟨rfl, rfl, rfl⟩
  | exits place off after =>
    subst after
    exact h.quiet _ (fun _ => rfl) ⟨rfl, rfl, rfl⟩
  | opens place opened after =>
    subst after
    exact h.quiet _ (fun _ => rfl) ⟨rfl, rfl, rfl⟩
  | failsToOpen place after =>
    subst after
    exact h.quiet _ (fun _ => rfl) ⟨rfl, rfl, rfl⟩
  | flushes place checked nonempty after =>
    subst after
    exact h.quiet _ (fun _ => rfl) ⟨rfl, flush_pushes (.inl checked)⟩
  | finds place checked empty after =>
    subst after
    exact h.quiet _ (fun _ => rfl) ⟨rfl, flush_pushes (.inl checked)⟩
  | takes place taken after =>
    subst after
    exact h.quiet _ (fun _ => rfl) ⟨rfl, flush_pushes (.inr taken)⟩
  | writes place here stored after =>
    subst after
    exact h.quiet _ (fun _ => rfl) ⟨rfl, rfl, rfl⟩
  | failsToWrite place after =>
    subst after
    exact h.quiet _ (fun _ => rfl) ⟨rfl, rfl, rfl⟩
  | ends place finishing after =>
    subst after
    exact h.quiet _ (fun _ => rfl) ⟨rfl, rfl, rfl⟩
  | waits place goesOn after =>
    subst after
    exact h.quiet _ (fun _ => rfl) ⟨rfl, rfl, rfl⟩
  | wakes place after =>
    subst after
    exact h.quiet _ (fun _ => rfl) ⟨rfl, rfl, rfl⟩

/-! ## Runs -/

theorem delivers_run {dummy : ι} {data : LogEntry} {labels : List (LoggerStep π ι)}
    (h : run (step pageSize) (initialise configuration dummy data) labels = some logger) :
    ∃ flushed inHand nodes, logger.Delivers flushed data inHand nodes := by
  refine run_invariant (fun logger => ∃ flushed inHand nodes,
    logger.Delivers flushed data inHand nodes) ?_ ?_ h
  · exact ⟨[], [], [], QueueMPSC.intact_construct dummy data, .null, [], rfl, rfl⟩
  · rintro logger label next ⟨flushed, inHand, nodes, hdelivers⟩ hstep
    obtain ⟨more, inHand', nodes', hnext, -⟩ := hdelivers.step (effect_of_step hstep)
    exact ⟨_, inHand', nodes', hnext⟩

/-- Whatever any number of threads logs: what the logger has processed, then the nodes in its hand
and then those in the queue are what has been pushed, each thread's entries in its own order and
none that is filtered out. What has been processed is in the files and on the standard output. -/
theorem entries_written (pageSize : Nat) (configuration : LoggerArguments) (dummy : ι)
    (data : LogEntry) (labels : List (LoggerStep π ι)) (logger : Logger π ι)
    (fits : FitsPages pageSize configuration.rotationSizeInBytes)
    (h : run (step pageSize) (initialise configuration dummy data) labels = some logger) :
    logger.Stored pageSize configuration ∧ logger.Ordered labels ∧
      ∃ inHand queued, Chain logger.buffer.heap logger.place.currentLog inHand ∧
        Chain logger.buffer.heap (logger.buffer.heap.next logger.buffer.head) queued ∧
        logger.written.map Logged.entry ++ inHand.map Prod.snd ++ queued.map Prod.snd =
          logger.buffer.pushed := by
  have hstored : logger.Stored pageSize configuration :=
    run_invariant (fun logger => logger.Stored pageSize configuration)
      (stored_initialise pageSize configuration dummy data)
      (fun _ _ _ hstored hstep => hstored.step fits (effect_of_step hstep)) h
  have hordered : logger.Ordered labels := by
    refine run_induction (fun labels logger => logger.Ordered labels) ?_ ?_ h
    · exact ⟨[], rfl, fun _ => rfl⟩
    · intro labels logger label next _ hordered hstep
      exact hordered.step (effect_of_step hstep)
  obtain ⟨flushed, inHand, nodes, hdelivers⟩ := delivers_run h
  obtain ⟨done, hflatten, hdone⟩ := hdelivers.processed
  refine ⟨hstored, hordered, inHand, nodes, hdelivers.chain, hdelivers.intact.reachable.next, ?_⟩
  rw [← hdelivers.intact.pushed, hflatten, ← hdone, List.map_append, List.map_append]

/-- A logger with a file that copies to the standard output. -/
def toFile : LoggerArguments where
  rotationSizeInBytes := 0
  logLevel := .info
  copyToStdout := true
  memoryMappedFileName := ascii "log.txt"

/-- The first flush has one entry; another thread pushes the last one while it is written. -/
def lastEntry : List (LoggerStep Nat Nat) :=
  [.log 0 1 .info (ascii "Main thread") (ascii "starting"), .link 0, .start .mapped, .checkEmpty,
    .log 1 2 .debug (ascii "Server") (ascii "not logged"), .take,
    .log 1 2 .warning (ascii "Main thread") (ascii "Ending"), .process (ascii "T") .mapped,
    .link 1]

theorem entries_written_lastEntry :
    FitsPages 4096 0 ∧ ∃ logger, run (step 4096) (initialise toFile 0 ⟨.fatal, [], []⟩) lastEntry =
        some logger ∧
      logger.Stored 4096 toFile ∧ logger.Ordered lastEntry ∧
      ∃ inHand queued, Chain logger.buffer.heap logger.place.currentLog inHand ∧
        Chain logger.buffer.heap (logger.buffer.heap.next logger.buffer.head) queued ∧
        logger.written.map Logged.entry ++ inHand.map Prod.snd ++ queued.map Prod.snd =
          logger.buffer.pushed := by
  obtain ⟨logger, hlogger⟩ : ∃ logger, run (step 4096) (initialise toFile 0 ⟨.fatal, [], []⟩)
      lastEntry = some logger := Option.isSome_iff_exists.mp (by decide +kernel)
  exact ⟨MemoryMappedFileBackend.fitsPages_onePage, logger, hlogger,
    entries_written 4096 toFile 0 ⟨.fatal, [], []⟩ lastEntry logger
      MemoryMappedFileBackend.fitsPages_onePage hlogger⟩

/-! ## Shutting down -/

/-- What every step keeps. -/
structure Goes (logger next : Logger π ι) : Prop where
  enabled : next.enabled = logger.enabled
  finishing : logger.isFinishing = true → next.isFinishing = true
  pushed : logger.buffer.pushed <+: next.buffer.pushed
  past : logger.isFinishing = true → logger.place.flushes = false → next.place.flushes = false
  failed : ∀ fault currentLog, logger.place = .failed fault currentLog → next.place = logger.place

theorem Effect.goes (h : Effect pageSize logger next label) : Goes logger next := by
  cases h with
  | logs passes made after =>
    subst after
    obtain ⟨-, hbuffer⟩ := Option.ite_none_right_eq_some.mp made
    cases hbuffer
    exact ⟨rfl, id, List.prefix_rfl, fun _ => id, fun _ _ _ => rfl⟩
  | filters above after =>
    subst after
    exact ⟨rfl, id, List.prefix_rfl, fun _ => id, fun _ _ _ => rfl⟩
  | links linked after =>
    subst after
    obtain ⟨⟨newNode, data⟩, -, hbuffer⟩ := Option.map_eq_some_iff.mp linked
    cases hbuffer
    exact ⟨rfl, id, List.prefix_append _ _, fun _ => id, fun _ _ _ => rfl⟩
  | shuts after =>
    subst after
    exact ⟨rfl, fun _ => rfl, List.prefix_rfl, fun _ => id, fun _ _ _ => rfl⟩
  | exits place off after =>
    subst after
    refine ⟨rfl, id, List.prefix_rfl, fun _ _ => rfl, fun fault currentLog hfailed => ?_⟩
    exact absurd (place.symm.trans hfailed) nofun
  | opens place opened after =>
    subst after
    refine ⟨rfl, id, List.prefix_rfl, fun _ hpast => ?_, fun fault currentLog hfailed => ?_⟩
    · rw [place] at hpast
      cases hpast
    · exact absurd (place.symm.trans hfailed) nofun
  | failsToOpen place after =>
    subst after
    refine ⟨rfl, id, List.prefix_rfl, fun _ _ => rfl, fun fault currentLog hfailed => ?_⟩
    exact absurd (place.symm.trans hfailed) nofun
  | flushes place checked nonempty after =>
    subst after
    refine ⟨rfl, id, ?_, fun _ => id, fun _ _ _ => rfl⟩
    exact (flush_pushes (.inl checked)).1 ▸ List.prefix_rfl
  | finds place checked empty after =>
    subst after
    refine ⟨rfl, id, ?_, fun _ _ => rfl, fun fault currentLog hfailed => ?_⟩
    · exact (flush_pushes (.inl checked)).1 ▸ List.prefix_rfl
    · exact absurd (place.symm.trans hfailed) nofun
  | takes place taken after =>
    subst after
    refine ⟨rfl, id, ?_, fun _ _ => rfl, fun fault currentLog hfailed => ?_⟩
    · exact (flush_pushes (.inr taken)).1 ▸ List.prefix_rfl
    · exact absurd (place.symm.trans hfailed) nofun
  | writes place here stored after =>
    subst after
    refine ⟨rfl, id, List.prefix_rfl, fun _ _ => rfl, fun fault currentLog hfailed => ?_⟩
    exact absurd (place.symm.trans hfailed) nofun
  | failsToWrite place after =>
    subst after
    refine ⟨rfl, id, List.prefix_rfl, fun _ _ => rfl, fun fault currentLog hfailed => ?_⟩
    exact absurd (place.symm.trans hfailed) nofun
  | ends place finishing after =>
    subst after
    refine ⟨rfl, id, List.prefix_rfl, fun _ _ => rfl, fun fault currentLog hfailed => ?_⟩
    exact absurd (place.symm.trans hfailed) nofun
  | waits place goesOn after =>
    subst after
    refine ⟨rfl, id, List.prefix_rfl, fun hfinishing => ?_, fun fault currentLog hfailed => ?_⟩
    · exact absurd (goesOn.symm.trans hfinishing) Bool.false_ne_true
    · exact absurd (place.symm.trans hfailed) nofun
  | wakes place after =>
    subst after
    refine ⟨rfl, id, List.prefix_rfl, fun _ hpast => ?_, fun fault currentLog hfailed => ?_⟩
    · rw [place] at hpast
      cases hpast
    · exact absurd (place.symm.trans hfailed) nofun

/-- The logger behind a shutdown in the state `before`, whose flushed lists were `flushed`. -/
structure ShutDown (before logger : Logger π ι) (flushed more : List (List (ι × LogEntry))) :
    Prop where
  finishing : logger.isFinishing = true
  enabled : logger.enabled = true
  pushed : before.buffer.pushed <+: logger.buffer.pushed
  past : before.place.flushes = false → more = [] ∧ logger.place.flushes = false
  all : before.place.flushes = true ∨ before.buffer.isEmpty = true →
    logger.place.flushes = true ∨
      (∃ fault currentLog, logger.place = .failed fault currentLog) ∨
      before.buffer.pushed <+: (flushed ++ more).flatten.map Prod.snd

omit [DecidableEq π] [DecidableEq ι] in
theorem ShutDown.step {before : Logger π ι} {more added : List (List (ι × LogEntry))}
    {inHand' nodes' : List (ι × LogEntry)} (h : ShutDown before logger flushed more)
    (goes : Goes logger next) (hnext : next.Delivers (flushed ++ more ++ added) dummy inHand' nodes')
    (hadded : Flushed pageSize logger next added nodes') :
    ShutDown before next flushed (more ++ added) where
  finishing := goes.finishing h.finishing
  enabled := goes.enabled.trans h.enabled
  pushed := h.pushed.trans goes.pushed
  past := by
    intro hbefore
    obtain ⟨hmore, hpast⟩ := h.past hbefore
    exact ⟨by rw [hmore, hadded.only hpast]; rfl, goes.past h.finishing hpast⟩
  all := by
    intro hbefore
    rw [← List.append_assoc]
    rcases h.all hbefore with hflushes | ⟨fault, currentLog, hfailed⟩ | hflushed
    · rcases hadded.last hflushes with hnextFlushes | hempty | hoff | hfails
      · exact .inl hnextFlushes
      · have hpushed := hnext.intact.pushed
        rw [hempty, List.append_nil] at hpushed
        rw [hpushed]
        exact .inr (.inr (h.pushed.trans goes.pushed))
      · exact absurd (hoff.symm.trans h.enabled) Bool.false_ne_true
      · exact .inr (.inl hfails)
    · exact .inr (.inl ⟨fault, currentLog, (goes.failed _ _ hfailed).trans hfailed⟩)
    · have hlists : (flushed ++ more ++ added).flatten =
          (flushed ++ more).flatten ++ added.flatten := List.flatten_append
      refine .inr (.inr (hflushed.trans ?_))
      rw [hlists, List.map_append]
      exact List.prefix_append _ _

/-- When the thread has ended behind a `shutdown`, it has written all that had been pushed before
if and only if it was in front of a flush or the queue was empty. -/
theorem shutdown_writes_iff (pageSize : Nat) (configuration : LoggerArguments) (dummy : ι)
    (data : LogEntry) (front back : List (LoggerStep π ι)) (before after : Logger π ι)
    (h : run (step pageSize) (initialise configuration dummy data) front = some before)
    (hafter : run (step pageSize) before (.shutdown :: back) = some after)
    (enabled : before.enabled = true) (ended : after.place = .ended) :
    before.buffer.pushed <+: after.written.map Logged.entry ↔
      before.place.flushes = true ∨ before.buffer.isEmpty = true := by
  obtain ⟨flushed, inHand, nodes, hdelivers⟩ := delivers_run h
  obtain ⟨shut, hshut, hback⟩ := Option.bind_eq_some_iff.mp hafter
  obtain ⟨-, hsignal⟩ := Option.ite_none_right_eq_some.mp hshut
  have hpushed := hdelivers.intact.pushed
  obtain ⟨more, inHand', nodes', hend, hdown⟩ : ∃ more inHand nodes,
      after.Delivers (flushed ++ more) data inHand nodes ∧
        ShutDown before after flushed more := by
    refine run_invariant (fun logger => ∃ more inHand nodes,
      logger.Delivers (flushed ++ more) data inHand nodes ∧
        ShutDown before logger flushed more) ?_ ?_ hback
    · cases hsignal
      refine ⟨[], inHand, nodes, ?_, rfl, enabled, List.prefix_rfl, fun hpast => ⟨rfl, hpast⟩, ?_⟩
      · rw [List.append_nil]
        exact hdelivers.moves rfl rfl rfl
      · rintro (hflushes | hempty)
        · exact .inl hflushes
        · have hnodes := hdelivers.intact.isEmpty_iff.mp hempty
          rw [hnodes, List.append_nil] at hpushed
          rw [List.append_nil, hpushed]
          exact .inr (.inr List.prefix_rfl)
    · rintro logger label next ⟨more, inHand, nodes, hdelivers, hdown⟩ hstep
      have heffect := effect_of_step hstep
      obtain ⟨added, inHand', nodes', hnext, hadded⟩ := hdelivers.step heffect
      refine ⟨more ++ added, inHand', nodes', ?_, hdown.step heffect.goes hnext hadded⟩
      rw [← List.append_assoc]
      exact hnext
  -- The thread has no node in its hand, so that all flushed lists are written.
  obtain ⟨done, hflatten, hdone⟩ := hend.processed
  have hchain := hend.chain
  rw [ended] at hchain
  cases hchain
  rw [List.append_nil] at hflatten
  rw [← hdone, ← hflatten]
  constructor
  · intro hwritten
    by_contra hlost
    obtain ⟨hpast, hnonempty⟩ := not_or.mp hlost
    obtain ⟨rfl, -⟩ := hdown.past (Bool.eq_false_iff.mpr hpast)
    have hlength := hwritten.length_le
    have hnodes := List.length_pos_iff.mpr (mt hdelivers.intact.isEmpty_iff.mpr hnonempty)
    rw [← hpushed, List.append_nil, List.length_map, List.length_map, List.length_append] at hlength
    omega
  · intro hbefore
    rcases hdown.all hbefore with hflushes | ⟨fault, currentLog, hfailed⟩ | hall
    · rw [ended] at hflushes
      cases hflushes
    · exact absurd (ended.symm.trans hfailed) nofun
    · exact hall

/-- The entry that is pushed while the first one is written is lost. -/
theorem shutdown_writes_iff_lastEntry : ∃ before after,
    run (step 4096) (initialise toFile 0 ⟨.fatal, [], []⟩) lastEntry = some before ∧
      run (step 4096) before [.shutdown, .finish] = some after ∧ before.enabled = true ∧
      after.place = .ended ∧ before.buffer.isEmpty = false ∧
      (before.buffer.pushed <+: after.written.map Logged.entry ↔
        before.place.flushes = true ∨ before.buffer.isEmpty = true) := by
  obtain ⟨before, after, hbefore, hafter, henabled, hended, hnonempty⟩ : ∃ before after,
      run (step 4096) (initialise toFile 0 ⟨.fatal, [], []⟩) lastEntry = some before ∧
        run (step 4096) before [.shutdown, .finish] = some after ∧ before.enabled = true ∧
        after.place = .ended ∧ before.buffer.isEmpty = false := ⟨_, _, rfl, rfl, rfl, rfl, rfl⟩
  exact ⟨before, after, hbefore, hafter, henabled, hended, hnonempty,
    shutdown_writes_iff 4096 toFile 0 ⟨.fatal, [], []⟩ lastEntry [.finish] before after hbefore
      hafter henabled hended⟩

end Steps

end Logger

end LiteExchange.Core
