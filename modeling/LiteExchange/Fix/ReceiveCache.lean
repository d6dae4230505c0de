import LiteExchange.Foundation.Results
import LiteExchange.Fix.Parser

/-!
# The receive cache of a session

Source: fix_receive_cache.h, fix_receive_cache.cpp and `FixSession::receiveWithCaching`.
Received bytes are written behind those already there; after a call of the parser that
completed a message, what follows the last message moves to the front.
-/

namespace LiteExchange.Fix

open Foundation.Ascii Foundation.Results

/-- The buffer is total: reading one byte past the capacity gives whatever is there. -/
structure FixReceiveCache where
  capacity : Nat
  size : Nat
  buffer : Nat → UInt8

namespace FixReceiveCache

/-- The bytes in use. -/
def content (cache : FixReceiveCache) : Bytes := (List.range cache.size).map cache.buffer

def getRemainingBufferSize (cache : FixReceiveCache) : Nat := cache.capacity - cache.size

/-- What a receive call writes at `getBuffer()`. -/
def write (cache : FixReceiveCache) (received : Bytes) : FixReceiveCache :=
  { cache with
    buffer := fun i =>
      if i < cache.size then cache.buffer i
      else (received[i - cache.size]?).getD (cache.buffer i) }

def incrementSize (cache : FixReceiveCache) (size : Nat) : FixReceiveCache :=
  { cache with size := cache.size + size }

/-- `memcpy` from a later place of the same buffer, taken to move the bytes as they were. -/
def moveBufferToStart (cache : FixReceiveCache) (startIndex endIndex : Nat) : FixReceiveCache :=
  let newSize := endIndex - startIndex + 1
  { cache with
    buffer := fun i => if i < newSize then cache.buffer (startIndex + i) else cache.buffer i
    size := newSize }

/-- `m_size - 1` wraps around when the cache is empty; no message is found then. -/
def parse (cache : FixReceiveCache) (indeterminate : MessageType) :
    Except ConversionError (FixReceiveCache × List FixMessage) := do
  let remainingBytesEndIndex := cache.size - 1
  let s ← parseMultipleMessagesFromBuffer indeterminate cache.content (cache.buffer cache.size)
  let cache :=
    if s.numOfFixMessages > 0 then
      if remainingBytesEndIndex > s.remainingBytesStartIndex then
        cache.moveBufferToStart s.remainingBytesStartIndex remainingBytesEndIndex
      else { cache with size := 0 }
    else cache
  pure (cache, s.messages)

/-- A call that returns has gone through the parser. -/
theorem parse_ok {cache next : FixReceiveCache} {indeterminate : MessageType}
    {messages : List FixMessage} (h : cache.parse indeterminate = .ok (next, messages)) :
    ∃ s, parseMultipleMessagesFromBuffer indeterminate cache.content (cache.buffer cache.size) =
        .ok s ∧ messages = s.messages ∧
      next = if s.numOfFixMessages > 0 then
          if cache.size - 1 > s.remainingBytesStartIndex then
            cache.moveBufferToStart s.remainingBytesStartIndex (cache.size - 1)
          else { cache with size := 0 }
        else cache := by
  obtain ⟨s, hparse, hreturned⟩ := bind_eq_ok.mp h
  cases hreturned
  exact ⟨s, hparse, rfl, rfl⟩

@[simp] theorem content_length (cache : FixReceiveCache) : cache.content.length = cache.size := by
  simp [content]

theorem content_write (cache : FixReceiveCache) (received : Bytes) :
    ((cache.write received).incrementSize received.length).content = cache.content ++ received := by
  apply List.ext_getElem?
  intro i
  simp only [content, write, incrementSize, List.getElem?_map, List.getElem?_append,
    List.length_map, List.length_range]
  by_cases hold : i < cache.size
  · simp [hold, List.getElem?_range (Nat.lt_add_right received.length hold)]
  · by_cases hnew : i < cache.size + received.length
    · have hinside : i - cache.size < received.length := by omega
      simp [hold, List.getElem?_range hnew, List.getElem?_eq_getElem hinside]
    · have hbehind : received.length ≤ i - cache.size := by omega
      simp [hold, hnew, List.getElem?_eq_none hbehind]

theorem content_moveBufferToStart (cache : FixReceiveCache) {startIndex : Nat}
    (inside : startIndex < cache.size) :
    (cache.moveBufferToStart startIndex (cache.size - 1)).content =
      cache.content.drop startIndex := by
  have hsize : cache.size - 1 - startIndex + 1 = cache.size - startIndex := by omega
  apply List.ext_getElem?
  intro i
  simp only [content, moveBufferToStart, hsize, List.getElem?_map, List.getElem?_drop]
  by_cases hi : i < cache.size - startIndex
  · have hshift : startIndex + i < cache.size := by omega
    simp [List.getElem?_range hshift, hi]
  · have hshift : ¬ startIndex + i < cache.size := by omega
    simp [hi, hshift]

/-- What a call of `parse` does to a cache that holds whole messages and a part of the next
one: the part stays, unless it follows a whole message and is one byte long. -/
theorem parse_spec (cache : FixReceiveCache) (indeterminate : MessageType)
    (sents : List WireMessage) {text : Bytes}
    (cut : text = [] ∨ ∃ sent : WireMessage, text <+: sent.wire ∧ text ≠ sent.wire)
    (holds : cache.content = (sents.map WireMessage.wire).flatten ++ text) :
    if ∀ sent ∈ sents, sent.message.sequenceNumber < 2 ^ 31 then
      ∃ next, cache.parse indeterminate = .ok (next, sents.map WireMessage.received) ∧
        next.content = if sents ≠ [] ∧ text.length = 1 then [] else text
    else cache.parse indeterminate = .error .outOfRange := by
  have hparse := parseMultipleMessagesFromBuffer_spec indeterminate (cache.buffer cache.size)
    sents cut
  rw [← holds] at hparse
  have hsize : cache.size = (sents.map WireMessage.wire).flatten.length + text.length := by
    rw [← content_length, holds, List.length_append]
  unfold parse
  split at hparse
  · rename_i hok
    obtain ⟨s, hrun, hmessages, hnum, hstart⟩ := hparse
    rw [if_pos hok, hrun]
    refine ⟨_, by rw [← hmessages]; rfl, ?_⟩
    rw [hnum, hstart]
    cases sents with
    | nil => simpa using holds
    | cons sent rest =>
      simp only [List.length_cons, Nat.zero_lt_succ, gt_iff_lt, if_true]
      by_cases hlong : 1 < text.length
      · have hinside : ((sent :: rest).map WireMessage.wire).flatten.length < cache.size - 1 := by
          omega
        rw [if_pos hinside, content_moveBufferToStart cache (by omega), holds, List.drop_left]
        simp [Nat.ne_of_gt hlong]
      · have hshort : ¬ ((sent :: rest).map WireMessage.wire).flatten.length < cache.size - 1 := by
          omega
        rw [if_neg hshort]
        by_cases hone : text.length = 1
        · simp [hone, content]
        · have hempty : text = [] := List.eq_nil_of_length_eq_zero (by omega)
          simp [hempty, content]
  · rename_i hbad
    rw [if_neg hbad, hparse]
    rfl

end FixReceiveCache

/-- One receive call that got bytes, and what the message of the parser held before. -/
structure Reception where
  bytes : Bytes
  indeterminate : MessageType

/-- The cache of a session and the messages its calls have appended so far. -/
structure Receiver where
  cache : FixReceiveCache
  messages : List FixMessage

namespace Receiver

/-- A cache of this capacity after `initialise`. -/
def initialise (capacity : Nat) (buffer : Nat → UInt8) : Receiver where
  cache := { capacity := capacity, size := 0, buffer := buffer }
  messages := []

/-- The call gets no more bytes than the cache has room for; an exception ends the run. -/
def receiveWithCaching (receiver : Receiver) (reception : Reception) : Option Receiver :=
  if reception.bytes.length ≤ receiver.cache.getRemainingBufferSize then
    if reception.bytes.length > 0 then
      match ((receiver.cache.write reception.bytes).incrementSize
          reception.bytes.length).parse reception.indeterminate with
      | .ok (cache, messages) => some ⟨cache, receiver.messages ++ messages⟩
      | .error _ => none
    else some receiver
  else none

end Receiver

end LiteExchange.Fix
