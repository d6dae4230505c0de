import LiteExchange.Core.RingBuffer
import LiteExchange.OrderMatcher.TaskEffects

/-!
# From a symbol to its queues

Source: the constructor of `ServerBase`, `CentralOrderBook::setSymbols` and
`initialiseOutgoingMessageQueues`, `ThreadPool::initialise`, security_manager.cpp. `addOrder`
reads the queue of an order in `m_queueIDDictionary`, and an id without an entry would get one.
A symbol that is configured twice keeps its first id: the second id has a queue that no symbol
leads to. The outgoing queues are counted with an `int`.
-/

namespace LiteExchange.Server

open Foundation.Ascii OrderMatcher LiteExchange.Core

variable {γ : Type}

/-- A ring is the sequence pushed to it. -/
structure ServerBase (γ : Type) where
  centralOrderBook : CentralOrderBook γ
  securityManager : SecurityManager
  outgoingMessages : List (List (OutgoingMessage γ))
  threadQueues : List (List (OrderMatcher.Task γ))

/-- The loop counts up to an `int`. -/
def initialiseOutgoingMessageQueues (numberOfThreads : Int) : List (List (OutgoingMessage γ)) :=
  List.replicate numberOfThreads.toNat []

/-- `ThreadPool::initialise`: one queue for each of the thread names. -/
def initialiseThreadQueues (threadNames : List Bytes) : List (List (OrderMatcher.Task γ)) :=
  threadNames.map fun _ => []

/-- The constructor, on an empty security manager. -/
def ServerBase.construct (symbols : List Bytes) (matchingMultithreadingMode : Bool) :
    ServerBase γ :=
  let symbolCount := symbols.length
  let (centralOrderBook, securityManager) :=
    CentralOrderBook.configured symbols matchingMultithreadingMode
  { centralOrderBook := centralOrderBook
    securityManager := securityManager
    outgoingMessages := initialiseOutgoingMessageQueues (toInt symbolCount)
    threadQueues := if matchingMultithreadingMode then initialiseThreadQueues symbols else [] }

namespace ServerBase

/-- The way from a symbol to its queues. -/
structure Routes (server : ServerBase γ) (multithreaded : Bool) (symbol : Bytes)
    (securityId queueID : Nat) : Prop where
  id : server.securityManager.getSecurityId symbol = some securityId
  name : server.securityManager.getSecurityName securityId = some symbol
  supported : server.securityManager.isSecuritySupported securityId = true
  entry : server.centralOrderBook.queueIDDictionary securityId = some queueID
  outgoing : queueID < server.outgoingMessages.length
  pool : multithreaded = true → queueID < server.threadQueues.length

/-- Each symbol leads to one id and one queue of its own. -/
structure RoutesSymbols (server : ServerBase γ) (multithreaded : Bool) (symbols : List Bytes) :
    Prop where
  routes : ∀ symbol ∈ symbols, ∃ securityId queueID,
    server.Routes multithreaded symbol securityId queueID
  supported : ∀ securityId, server.securityManager.isSecuritySupported securityId = true ↔
    securityId < symbols.length
  injective : ∀ symbol other securityId queueID otherId otherQueueID,
    server.Routes multithreaded symbol securityId queueID →
    server.Routes multithreaded other otherId otherQueueID →
    symbol ≠ other → securityId ≠ otherId ∧ queueID ≠ otherQueueID

/-- Every list of symbols that an `int` can count is routed, with any repetitions. -/
theorem routes_symbols (symbols : List Bytes) (multithreaded : Bool)
    (counted : symbols.length < 2 ^ 31) :
    (construct (γ := γ) symbols multithreaded).RoutesSymbols multithreaded symbols := by
  have hregistered : CentralOrderBook.Registered symbols
      ((construct (γ := γ) symbols multithreaded).centralOrderBook,
        (construct (γ := γ) symbols multithreaded).securityManager) :=
    CentralOrderBook.registered_configured symbols multithreaded
  have houtgoing : (construct (γ := γ) symbols multithreaded).outgoingMessages.length =
      symbols.length := by
    have hcount : toInt symbols.length = symbols.length := toInt_of_bounds (by omega) (by omega)
    simp [construct, initialiseOutgoingMessageQueues, hcount]
  have hpool : multithreaded = true →
      (construct (γ := γ) symbols multithreaded).threadQueues.length = symbols.length := by
    rintro rfl
    simp [construct, initialiseThreadQueues]
  refine ⟨fun symbol hsymbol => ?_, fun securityId => ?_, ?_⟩
  · have hlt := List.idxOf_lt_length_of_mem hsymbol
    refine ⟨symbols.idxOf symbol, symbols.idxOf symbol, ?_, ?_, ?_, ?_, ?_, fun hmulti => ?_⟩
    · exact (hregistered.bySymbol symbol).trans (if_pos hsymbol)
    · rw [SecurityManager.getSecurityName, hregistered.byId, List.getElem?_eq_getElem hlt,
        List.getElem_idxOf]
    · rw [SecurityManager.isSecuritySupported, hregistered.byId]
      exact decide_eq_true hlt
    · exact (hregistered.queues _).trans (if_pos hlt)
    · rwa [houtgoing]
    · rwa [hpool hmulti]
  · rw [SecurityManager.isSecuritySupported, hregistered.byId]
    exact decide_eq_true_iff
  · intro symbol other securityId queueID otherId otherQueueID h hother hdifferent
    have hids : securityId ≠ otherId := by
      rintro rfl
      exact hdifferent (Option.some.inj (h.name.symm.trans hother.name))
    have hqueue {id queue : Nat}
        (hentry : (construct (γ := γ) symbols multithreaded).centralOrderBook.queueIDDictionary id =
          some queue) : queue = id := by
      have hlookup := (hregistered.queues id).symm.trans hentry
      obtain ⟨-, hid⟩ := Option.ite_none_right_eq_some.mp hlookup
      exact (Option.some.inj hid).symm
    rw [hqueue h.entry, hqueue hother.entry]
    exact ⟨hids, hids⟩

/-- A symbol that is configured twice. -/
theorem routes_symbols_repeated :
    (construct (γ := Unit) [ascii "MSFT", ascii "AAPL", ascii "MSFT"] true).RoutesSymbols true
      [ascii "MSFT", ascii "AAPL", ascii "MSFT"] :=
  routes_symbols [ascii "MSFT", ascii "AAPL", ascii "MSFT"] true (by decide)

/-- The number of the outgoing queues is negative, and there are none. -/
theorem outgoingMessages_of_overflow {symbols : List Bytes} (multithreaded : Bool)
    (overflow : symbols.length = 2 ^ 31) :
    (construct (γ := γ) symbols multithreaded).outgoingMessages = [] := by
  have hcount : (toInt (symbols.length : Nat)).toNat = 0 := by
    rw [overflow]
    decide
  rw [construct, initialiseOutgoingMessageQueues, hcount]
  rfl

/-- With `2 ^ 31` symbols none has an outgoing queue. -/
theorem too_many_symbols :
    ¬ ∀ (symbols : List Bytes) (multithreaded : Bool),
      (construct (γ := Unit) symbols multithreaded).RoutesSymbols multithreaded symbols := by
  intro h
  obtain ⟨symbolCount, hcount⟩ : ∃ symbolCount, symbolCount = 2 ^ 31 := ⟨_, rfl⟩
  have hmem : ascii "MSFT" ∈ List.replicate symbolCount (ascii "MSFT") :=
    List.mem_replicate.mpr ⟨by omega, rfl⟩
  obtain ⟨securityId, queueID, hroutes⟩ := (h _ false).routes _ hmem
  have houtgoing := hroutes.outgoing
  rw [outgoingMessages_of_overflow false (by rw [List.length_replicate, hcount])] at houtgoing
  cases houtgoing

end ServerBase

end LiteExchange.Server
