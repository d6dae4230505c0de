import LiteExchange.OrderMatcher.Concurrent
import LiteExchange.Server.MessageHandling

/-!
# The running exchange

The reactor thread accepts and loses connections and handles the messages that
`handleClient` has parsed, one after the other; the workers run the tasks; the outgoing
message processor pops a report, looks the session of its slot up, and locks the session to
build the report and send it. The reactor thread does one thing at a time, so a batch of
messages and an `addOrder` are finished first; between two steps of the processor it may do
anything. A label that would throw or go through a null or a dangling pointer is not enabled.
-/

namespace LiteExchange.Server

open Foundation.Ascii Foundation.Runs OrderMatcher
open LiteExchange.Fix LiteExchange.Fix.FixConstants

/-- The origin of an order or a request: its message, and the comp id with which the
session in its slot was logged on. -/
structure Submission where
  message : FixMessage
  compId : Bytes

/-- What the outgoing message processor has in hand: nothing, a report that it has popped, or
also the session that it has found for it. The pointer to the session is its connection: the
object in the slot is another one as soon as a new connection has the slot. -/
inductive InHand where
  | nothing
  | popped (queueIndex : Nat) (message : OutgoingMessage Submission)
  | found (queueIndex : Nat) (message : OutgoingMessage Submission) (connection : Option Nat)

/-- The report in hand. -/
def InHand.report : InHand → Option (OutgoingMessage Submission)
  | .nothing => none
  | .popped _ message => some message
  | .found _ message _ => some message

/-- The report in hand and the session that was found for it. -/
def InHand.receiver : InHand → Option (OutgoingMessage Submission × Option Nat)
  | .nothing => none
  | .popped _ _ => none
  | .found _ message connection => some (message, connection)

theorem InHand.report_of_receiver {inHand : InHand} {message : OutgoingMessage Submission}
    {connection : Option Nat} (h : inHand.receiver = some (message, connection)) :
    inHand.report = some message := by
  cases inHand with
  | nothing => cases h
  | popped queueIndex popped => cases h
  | found queueIndex found other =>
    cases h
    rfl

/-- `messages` are those that `handleClient` still has to process for the slot `peerIndex`;
`popped` counts what was taken from each ring. -/
structure Exchange where
  reactor : FixServerReactor
  manager : SecurityManager
  system : System Submission
  peerIndex : Nat := 0
  messages : List FixMessage := []
  popped : Nat → Nat := fun _ => 0
  inHand : InHand := .nothing
  execID : Nat := 0

inductive ExchangeLabel where
  | accept
  | disconnect (peerIndex : Nat)
  | receive (peerIndex : Nat) (messages : List FixMessage)
  | process (currentUTCDateTime : Bytes) (memory : Indeterminate Unit)
  | submit
  | work (queueIndex : Nat)
  | pop (queueIndex : Nat)
  | look
  | send (currentUTCDateTime : Bytes)

namespace Exchange

/-- The exchange that is set up for these symbols, with the files that are there. -/
def configured (compId : Bytes) (sequenceNumberValidation : Bool) (store : FixSequenceStore)
    (symbols : List Bytes) (multithreaded : Bool) : Exchange where
  reactor := FixServerReactor.initial compId sequenceNumberValidation store
  manager := (CentralOrderBook.configured (γ := Submission) symbols multithreaded).2
  system := System.configured symbols multithreaded

/-- The reactor thread is between two events. -/
def idle (exchange : Exchange) : Bool :=
  exchange.messages.isEmpty && exchange.system.submitting.isNone

def onSystem (exchange : Exchange) (label : Label Submission) : Option Exchange :=
  (exchange.system.step label).map fun system => { exchange with system := system }

/-- The comp id with which the session in the slot is logged on; empty where none is. -/
def loggedOnAs (exchange : Exchange) (slot : Nat) : Bytes :=
  match exchange.reactor.getSession slot with
  | some session => session.targetCompId
  | none => []

/-- What the next message of the batch does: the pointer to the session is taken before the
loop of `handleClient` and not checked again. -/
def handled (exchange : Exchange) (currentUTCDateTime : Bytes) (memory : Indeterminate Unit) :
    Option (Handled Submission) :=
  match exchange.messages, exchange.reactor.sessions[exchange.peerIndex]? with
  | message :: _, some session =>
    (processMessage exchange.reactor exchange.manager message session exchange.peerIndex
      currentUTCDateTime (withOrigin memory
        { message := message, compId := exchange.loggedOnAs exchange.peerIndex })).toOption
  | _, _ => none

/-- One turn of the loop. -/
def processNext (exchange : Exchange) (currentUTCDateTime : Bytes)
    (memory : Indeterminate Unit) : Option Exchange :=
  match exchange.handled currentUTCDateTime memory with
  | some handled =>
    let next := { exchange with reactor := handled.reactor, messages := exchange.messages.tail }
    match handled.call with
    | some task => next.onSystem task.label
    | none => some next
  | none => none

/-- The next report of a ring. -/
def nextReport (exchange : Exchange) (queueIndex : Nat) : Option (OutgoingMessage Submission) :=
  (exchange.system.central.outgoingMessages queueIndex)[exchange.popped queueIndex]?

/-- `tryPop` on a ring that is not empty. -/
def pop (exchange : Exchange) (queueIndex : Nat) : Option Exchange :=
  match exchange.inHand, exchange.nextReport queueIndex with
  | .nothing, some message =>
    some { exchange with
      popped := Function.update exchange.popped queueIndex (exchange.popped queueIndex + 1)
      inHand := .popped queueIndex message }
  | _, _ => none

/-- `getSession`; the report is dropped where the slot has no session. -/
def look (exchange : Exchange) : Option Exchange :=
  match exchange.inHand with
  | .popped queueIndex message =>
    match exchange.reactor.getSession message.order.sessionId with
    | some session =>
      some { exchange with inHand := .found queueIndex message session.tcpConnection }
    | none => some { exchange with inHand := .nothing }
  | _ => none

/-- The object behind the pointer of the processor, as long as it is there. It stays when its
session is removed, and is freed when a new one is put in the slot. -/
def pointed (exchange : Exchange) (slot : Nat) (connection : Option Nat) : Option FixSession :=
  (exchange.reactor.sessions[slot]?).filter fun session => session.tcpConnection == connection

/-- From `session->lock()` to `session->unlock()`. -/
def send (exchange : Exchange) (currentUTCDateTime : Bytes) : Option Exchange :=
  match exchange.inHand with
  | .found _ message connection =>
    match exchange.pointed message.order.sessionId connection with
    | some session =>
      (sendReport exchange.reactor exchange.manager exchange.execID message session
        currentUTCDateTime).map fun (reactor, execID) =>
          { exchange with reactor := reactor, inHand := .nothing, execID := execID }
    | none => none
  | _ => none

def step (exchange : Exchange) : ExchangeLabel → Option Exchange
  | .accept =>
    if exchange.idle then
      (exchange.reactor.acceptNewConnection.toOption).map fun reactor =>
        { exchange with reactor := reactor }
    else none
  | .disconnect peerIndex =>
    if exchange.idle then
      ((exchange.reactor.onClientDisconnected peerIndex).toOption).map fun reactor =>
        { exchange with reactor := reactor }
    else none
  | .receive peerIndex messages =>
    -- `handleClient` returns at once where the slot has no session.
    if exchange.idle && (exchange.reactor.getSession peerIndex).isSome then
      some { exchange with peerIndex := peerIndex, messages := messages }
    else none
  | .process currentUTCDateTime memory =>
    if exchange.system.submitting.isNone then exchange.processNext currentUTCDateTime memory
    else none
  | .submit => exchange.onSystem .submit
  | .work queueIndex => exchange.onSystem (.work queueIndex)
  | .pop queueIndex => exchange.pop queueIndex
  | .look => exchange.look
  | .send currentUTCDateTime => exchange.send currentUTCDateTime

/-- The step of the order matcher that a label makes, if it makes one. -/
def issued (exchange : Exchange) : ExchangeLabel → Option (Label Submission)
  | .process currentUTCDateTime memory =>
    ((exchange.handled currentUTCDateTime memory).bind Handled.call).map Task.label
  | .submit => some .submit
  | .work queueIndex => some (.work queueIndex)
  | _ => none

end Exchange

end LiteExchange.Server
