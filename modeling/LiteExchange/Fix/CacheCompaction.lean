import LiteExchange.Fix.MessageEnds
import LiteExchange.Fix.Reassembly

/-!
# The copy that moves the cache to its front

Source: `FixReceiveCache::parse` and `moveBufferToStart`. `std::memcpy` asks for two ranges that
do not overlap. The kept bytes are those behind the last message that ends in the cache, so
there must not be more of them than of the bytes in front.
-/

namespace LiteExchange.Fix

open Foundation.Ascii Foundation.Runs FixConstants

namespace FixReceiveCache

/-- The arguments of `moveBufferToStart`, where `parse` calls it. -/
def moved (cache : FixReceiveCache) (indeterminate : MessageType) : Option (Nat × Nat) :=
  match parseMultipleMessagesFromBuffer indeterminate cache.content (cache.buffer cache.size) with
  | .ok s =>
    if s.numOfFixMessages > 0 ∧ cache.size - 1 > s.remainingBytesStartIndex then
      some (s.remainingBytesStartIndex, cache.size - 1)
    else none
  | .error _ => none

/-- `moveBufferToStart` copies `newSize` bytes from `startIndex` to the front. -/
def CopiesApart (cache : FixReceiveCache) (indeterminate : MessageType) : Prop :=
  ∀ startIndex endIndex, cache.moved indeterminate = some (startIndex, endIndex) →
    endIndex - startIndex + 1 ≤ startIndex

/-- The bytes behind the last message that ends in these are not more than those in front. -/
def KeepsLess (bytes : Bytes) : Prop :=
  ∀ front back, bytes = front ++ back → LastEnd false bytes front → back.length ≤ front.length

variable {cache next : FixReceiveCache} {indeterminate : MessageType} {messages : List FixMessage}

/-- A call that returns has moved the buffer, or has copied nothing. -/
theorem parse_moved (h : cache.parse indeterminate = .ok (next, messages)) :
    match cache.moved indeterminate with
    | some (startIndex, endIndex) => next = cache.moveBufferToStart startIndex endIndex
    | none => next = cache ∨ next = { cache with size := 0 } := by
  obtain ⟨s, hparse, -, hnext⟩ := parse_ok h
  rw [moved, hparse]
  dsimp only
  by_cases hnum : s.numOfFixMessages > 0
  · rw [if_pos hnum] at hnext
    by_cases hend : cache.size - 1 > s.remainingBytesStartIndex
    · rw [if_pos hend] at hnext
      rw [if_pos ⟨hnum, hend⟩]
      exact hnext
    · rw [if_neg hend] at hnext
      rw [if_neg fun hmoves => hend hmoves.2]
      exact Or.inr hnext
  · rw [if_neg hnum] at hnext
    rw [if_neg fun hmoves => hnum hmoves.1]
    exact Or.inl hnext

/-- Where no message ends, a call that returns leaves the cache as it is. -/
theorem parse_noEnd (none : NoEnd false cache.content)
    (h : cache.parse indeterminate = .ok (next, messages)) : cache = next ∧ [] = messages := by
  obtain ⟨s, hparse, rfl, rfl⟩ := parse_ok h
  rcases parseMultipleMessagesFromBuffer_delivers hparse with
    ⟨-, hmessages, hnum⟩ | ⟨front, hlast, -⟩
  · rw [hmessages, hnum, if_neg (Nat.lt_irrefl 0)]
    exact ⟨rfl, rfl⟩
  · exact absurd hlast.completes (none front hlast.prefixed)

/-- Whatever the cache holds, the ranges are apart if and only if the call throws or keeps no
more bytes than it drops. -/
theorem copiesApart_iff (cache : FixReceiveCache) (indeterminate : MessageType) :
    cache.CopiesApart indeterminate ↔
      ¬ FieldsReadable none (endedFields cache.content) ∨ KeepsLess cache.content := by
  have hreturns := parseFrom_isOk (cache.buffer cache.size) cache.content 0
    (initial_awaits indeterminate)
  unfold CopiesApart moved
  cases hparse : parseMultipleMessagesFromBuffer indeterminate cache.content
      (cache.buffer cache.size) with
  | error e =>
    have hthrows : parseFrom (cache.buffer cache.size) cache.content 0
        (ParserState.initial indeterminate) = .error e := hparse
    rw [hthrows] at hreturns
    exact iff_of_true (fun startIndex endIndex h => by cases h)
      (Or.inl fun h => by cases hreturns.mpr h)
  | ok s =>
    have hok : parseFrom (cache.buffer cache.size) cache.content 0
        (ParserState.initial indeterminate) = .ok s := hparse
    rw [hok] at hreturns
    rw [or_iff_right (not_not.mpr (hreturns.mp rfl))]
    rcases parseMultipleMessagesFromBuffer_delivers hparse with
      ⟨hnone, -, hnum⟩ | ⟨front, hlast, -, hstart, hnum⟩
    · refine iff_of_true (fun startIndex endIndex h => ?_) fun front back _ hlast =>
        absurd hlast.completes (hnone front hlast.prefixed)
      simp [hnum] at h
    · have hnonempty := List.length_pos_of_ne_nil (completes_ne_nil hlast.completes)
      have hkeeps : KeepsLess cache.content ↔ cache.size - front.length ≤ front.length := by
        obtain ⟨back, hback⟩ := hlast.prefixed
        have hsize : cache.size = front.length + back.length := by
          rw [← content_length, ← hback, List.length_append]
        constructor
        · intro h
          have hle := h front back hback.symm hlast
          omega
        · intro hle other behind hsplit hother
          have hsame : other.length = front.length :=
            Nat.le_antisymm (hlast.last other hother.prefixed hother.completes)
              (hother.last front hlast.prefixed hlast.completes)
          have htotal : cache.size = other.length + behind.length := by
            rw [← content_length, hsplit, List.length_append]
          omega
      rw [hkeeps]
      simp only [hnum, hstart, true_and]
      constructor
      · intro h
        by_cases hmoves : cache.size - 1 > front.length
        · have hle := h front.length (cache.size - 1) (if_pos hmoves)
          omega
        · omega
      · intro hle startIndex endIndex h
        obtain ⟨hmoves, hargs⟩ := Option.ite_none_right_eq_some.mp h
        cases hargs
        omega

end FixReceiveCache

namespace Receiver

/-- The cache that the call of `parse` gets. -/
def filled (receiver : Receiver) (reception : Reception) : FixReceiveCache :=
  (receiver.cache.write reception.bytes).incrementSize reception.bytes.length

/-- A receive call copies between ranges that are apart, if it copies. -/
def CopiesApart (receiver : Receiver) (reception : Reception) : Prop :=
  Fits receiver reception → (receiver.filled reception).CopiesApart reception.indeterminate

/-- With the bytes of the call a number in the cache is no `int`, or at most as many bytes stand
behind the last message that ends as in front. -/
def KeepsLess (receiver : Receiver) (reception : Reception) : Prop :=
  Fits receiver reception →
    ¬ FieldsReadable none (endedFields (receiver.cache.content ++ reception.bytes)) ∨
      FixReceiveCache.KeepsLess (receiver.cache.content ++ reception.bytes)

theorem copiesApart_iff_keepsLess (receiver : Receiver) (reception : Reception) :
    receiver.CopiesApart reception ↔ receiver.KeepsLess reception := by
  unfold CopiesApart KeepsLess
  rw [FixReceiveCache.copiesApart_iff, filled, FixReceiveCache.content_write]

/-- In a run of receive calls all copies meet the precondition of `memcpy` if and only if no call
keeps more bytes than it drops. -/
theorem copies_apart_iff (capacity : Nat) (buffer : Nat → UInt8) (receptions : List Reception) :
    Along receiveWithCaching CopiesApart (initialise capacity buffer) receptions ↔
      Along receiveWithCaching KeepsLess (initialise capacity buffer) receptions := by
  have hsame : CopiesApart = KeepsLess :=
    funext₂ fun receiver reception => propext (copiesApart_iff_keepsLess receiver reception)
  rw [hsame]

/-- A heartbeat, and a longer part of a NEW_ORDER. -/
def heartbeatAndOrder : Bytes :=
  (heartbeat 1).wire ++ ["8=FIX.4.2", "9=100", "35=D", "34=2", "49=A", "52=T", "56=B", "11=1",
    "55=MSFT", "54=1", "38=100"].flatMap fun field => ascii field ++ [fixDelimiter]

/-- The rest of the NEW_ORDER is copied over itself. -/
theorem order_copied_over_itself :
    ¬ ∀ (capacity : Nat) (buffer : Nat → UInt8) (receptions : List Reception),
      Along receiveWithCaching CopiesApart (initialise capacity buffer) receptions := by
  intro h
  have hcopies := (h 1024 (fun _ => 0) [⟨heartbeatAndOrder, .none⟩]).1
    ⟨by decide +kernel, by decide +kernel⟩
  have hmoved : (((initialise 1024 fun _ => 0).filled ⟨heartbeatAndOrder, .none⟩).moved
      .none).map (fun args => (args.1, args.2 - args.1 + 1)) = some (47, 66) := by
    decide +kernel
  obtain ⟨⟨first, last⟩, hargs, hsizes⟩ := Option.map_eq_some_iff.mp hmoved
  have hle := hcopies first last hargs
  simp only [Prod.mk.injEq] at hsizes
  omega

end Receiver

end LiteExchange.Fix
