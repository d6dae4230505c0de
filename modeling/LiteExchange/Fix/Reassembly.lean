import LiteExchange.Fix.ReceiveCache
import LiteExchange.Foundation.Framing
import LiteExchange.Foundation.Runs

/-!
# Reassembly of a stream of messages from the receive calls

The bytes of the receive calls, one after the other, are the messages in wire form. After
each call the messages that have arrived whole should have been delivered, and the
bytes behind them should be in the cache. A call keeps this unless it completes a message
and gets exactly one byte of the next one: that byte is dropped.
-/

namespace LiteExchange.Fix

open Foundation.Ascii Foundation.Framing Foundation.Runs

/-- All bytes received. -/
def stream (receptions : List Reception) : Bytes := (receptions.map Reception.bytes).flatten

/-- How many of the messages are whole in the first `n` bytes. -/
def arrived (sents : List WireMessage) (n : Nat) : Nat := completed (sents.map WireMessage.wire) n

/-- The whole messages were delivered in order, and no byte behind them is lost. -/
def Intact (sents : List WireMessage) (front : List Reception) (receiver : Receiver) : Prop :=
  receiver.messages = (sents.take (arrived sents (stream front).length)).map WireMessage.received ∧
    receiver.cache.content = (stream front).drop
      ((sents.take (arrived sents (stream front).length)).map WireMessage.wire).flatten.length

/-- The receive call has room for its bytes, and gets some. -/
def Fits (receiver : Receiver) (reception : Reception) : Prop :=
  reception.bytes ≠ [] ∧ reception.bytes.length ≤ receiver.cache.getRemainingBufferSize

/-- The receive calls deliver the messages, and lose nothing on the way. -/
structure Reassembled (sents : List WireMessage) (start : Receiver) (receptions : List Reception) :
    Prop where
  delivered : ∃ receiver, run Receiver.receiveWithCaching start receptions = some receiver ∧
    receiver.messages = sents.map WireMessage.received
  intact : ∀ front back, receptions = front ++ back →
    ∃ receiver, run Receiver.receiveWithCaching start front = some receiver ∧
      Intact sents front receiver

/-- The call completes a message and gets exactly one byte of the next one. -/
def DropsByte (sents : List WireMessage) (front : List Reception) (reception : Reception) : Prop :=
  arrived sents (stream front).length < arrived sents (stream (front ++ [reception])).length ∧
    leftover (sents.map WireMessage.wire) (stream (front ++ [reception])).length = 1

theorem stream_append (front back : List Reception) :
    stream (front ++ back) = stream front ++ stream back := by
  simp [stream]

/-- What is behind the whole messages is a part of the next one. -/
theorem behind_arrived {sents : List WireMessage} {text : Bytes}
    (cut : text <+: (sents.map WireMessage.wire).flatten) :
    ∃ rest, text = ((sents.take (arrived sents text.length)).map WireMessage.wire).flatten ++ rest ∧
      rest.length = leftover (sents.map WireMessage.wire) text.length ∧
      (rest = [] ∨ ∃ sent : WireMessage, rest <+: sent.wire ∧ rest ≠ sent.wire) := by
  have hlength := length_completed (sents.map WireMessage.wire) text.length
  have hsplit := take_flatten (sents.map WireMessage.wire) text.length
  rw [← List.prefix_iff_eq_take.mp cut] at hsplit
  have hbound : text.length ≤ (sents.map WireMessage.wire).flatten.length := cut.length_le
  refine ⟨_, by rw [List.map_take]; exact hsplit, ?_, ?_⟩
  · have hall := congrArg List.length hsplit
    rw [List.length_append] at hall
    omega
  · cases leftover_lt (sents.map WireMessage.wire) text.length hbound with
    | inl hnone =>
      left
      rw [hnone.1]
      simp
    | inr hnext =>
      right
      obtain ⟨frame, frames, hdrop, hlt⟩ := hnext
      have hmem : frame ∈ sents.map WireMessage.wire := by
        apply List.mem_of_mem_drop (i := completed (sents.map WireMessage.wire) text.length)
        rw [hdrop]
        exact List.mem_cons_self
      obtain ⟨sent, _, rfl⟩ := List.mem_map.mp hmem
      have htake : (sent.wire :: frames).flatten.take
          (leftover (sents.map WireMessage.wire) text.length) =
            sent.wire.take (leftover (sents.map WireMessage.wire) text.length) := by
        rw [List.flatten_cons, List.take_append_of_le_length (Nat.le_of_lt hlt)]
      rw [hdrop, htake]
      refine ⟨sent, List.take_prefix _ _, fun hwhole => ?_⟩
      have hlong := congrArg List.length hwhole
      rw [List.length_take] at hlong
      omega

/-- One receive call on an intact receiver: it delivers the messages that become whole, fails
on a sequence number among these that is no `int`, and keeps the bytes behind them unless it
drops one. -/
theorem receiveWithCaching_spec {sents : List WireMessage} {front : List Reception}
    {receiver : Receiver} {reception : Reception} (intact : Intact sents front receiver)
    (fits : Fits receiver reception)
    (cut : stream (front ++ [reception]) <+: (sents.map WireMessage.wire).flatten) :
    if ∀ sent ∈ (sents.take (arrived sents (stream (front ++ [reception])).length)).drop
        (arrived sents (stream front).length), sent.message.sequenceNumber < 2 ^ 31 then
      ∃ next, receiver.receiveWithCaching reception = some next ∧
        (Intact sents (front ++ [reception]) next ↔ ¬ DropsByte sents front reception)
    else receiver.receiveWithCaching reception = none := by
  have hmono : arrived sents (stream front).length ≤
      arrived sents (stream (front ++ [reception])).length := by
    apply completed_mono
    rw [stream_append, List.length_append]
    omega
  have hle : arrived sents (stream (front ++ [reception])).length ≤ sents.length := by
    have hbound := completed_le (sents.map WireMessage.wire) (stream (front ++ [reception])).length
    rwa [List.length_map] at hbound
  have hinside : ((sents.take (arrived sents (stream front).length)).map
      WireMessage.wire).flatten.length ≤ (stream front).length := by
    have hlength := length_completed (sents.map WireMessage.wire) (stream front).length
    rw [← List.map_take] at hlength
    unfold arrived
    omega
  obtain ⟨rest, hall, hrest, hcut⟩ := behind_arrived cut
  unfold DropsByte
  generalize hbefore : arrived sents (stream front).length = before at *
  generalize hafter : arrived sents (stream (front ++ [reception])).length = after at *
  -- The messages that become whole with this call.
  have hnew : sents.take after = sents.take before ++ (sents.take after).drop before := by
    have hjoin := List.take_append_drop before (sents.take after)
    rw [List.take_take, Nat.min_eq_left hmono] at hjoin
    exact hjoin.symm
  have hholds : ((receiver.cache.write reception.bytes).incrementSize
      reception.bytes.length).content =
        (((sents.take after).drop before).map WireMessage.wire).flatten ++ rest := by
    have hbytes : stream (front ++ [reception]) = stream front ++ reception.bytes := by
      rw [stream_append]
      simp [stream]
    rw [FixReceiveCache.content_write, intact.2, hbefore,
      ← List.drop_append_of_le_length hinside, ← hbytes, hall, hnew, List.map_append,
      List.flatten_append, List.append_assoc, List.drop_left]
    rw [← hnew]
  have hnonempty : (sents.take after).drop before ≠ [] ↔ before < after := by
    rw [Ne, List.drop_eq_nil_iff, List.length_take, Nat.min_eq_left hle]
    omega
  have hparse := FixReceiveCache.parse_spec _ reception.indeterminate
    ((sents.take after).drop before) hcut hholds
  have hpositive : reception.bytes.length > 0 := List.length_pos_of_ne_nil fits.1
  unfold Receiver.receiveWithCaching
  rw [if_pos fits.2, if_pos hpositive]
  split at hparse
  · rename_i hsmall
    obtain ⟨cache, hrun, hcontent⟩ := hparse
    rw [if_pos hsmall, hrun]
    refine ⟨_, rfl, ?_⟩
    have hmessages : receiver.messages ++
        ((sents.take after).drop before).map WireMessage.received =
          (sents.take after).map WireMessage.received := by
      rw [intact.1, hbefore, ← List.map_append, ← hnew]
    have hbehind : (stream (front ++ [reception])).drop
        ((sents.take after).map WireMessage.wire).flatten.length = rest := by
      rw [hall, List.drop_left]
    rw [Intact, hafter, hbehind, hcontent, ← hnonempty, ← hrest]
    constructor
    · rintro ⟨_, hkept⟩ ⟨hmore, hone⟩
      rw [if_pos ⟨hmore, hone⟩] at hkept
      rw [← hkept] at hone
      cases hone
    · intro hkeeps
      exact ⟨hmessages, if_neg hkeeps⟩
  · rename_i hlarge
    rw [if_neg hlarge, hparse]

theorem wire_ne_nil (sent : WireMessage) : sent.wire ≠ [] := by
  simp [wire_eq, FixMessage.appendTagStringValue]

theorem arrived_zero (sents : List WireMessage) : arrived sents 0 = 0 := by
  cases sents with
  | nil => rfl
  | cons sent sents =>
    have hlength := List.length_pos_of_ne_nil (wire_ne_nil sent)
    simp only [arrived, List.map_cons, completed, if_neg (Nat.not_le_of_gt hlength)]

theorem intact_initialise (sents : List WireMessage) (capacity : Nat) (buffer : Nat → UInt8) :
    Intact sents [] (Receiver.initialise capacity buffer) := by
  have hstream : stream [] = [] := rfl
  rw [Intact, hstream, List.length_nil, arrived_zero]
  exact ⟨rfl, rfl⟩

section

variable {sents : List WireMessage} {receptions : List Reception} {start : Receiver}
  (whole : stream receptions = (sents.map WireMessage.wire).flatten)
  (fits : Along Receiver.receiveWithCaching Fits start receptions)

include whole fits

/-- The next receive call of a run that is intact so far. -/
theorem intact_step {front back : List Reception} {reception : Reception} {receiver : Receiver}
    (split : receptions = front ++ reception :: back)
    (hrun : run Receiver.receiveWithCaching start front = some receiver)
    (intact : Intact sents front receiver) :
    if ∀ sent ∈ (sents.take (arrived sents (stream (front ++ [reception])).length)).drop
        (arrived sents (stream front).length), sent.message.sequenceNumber < 2 ^ 31 then
      ∃ next, run Receiver.receiveWithCaching start (front ++ [reception]) = some next ∧
        (Intact sents (front ++ [reception]) next ↔ ¬ DropsByte sents front reception)
    else run Receiver.receiveWithCaching start (front ++ [reception]) = none := by
  rw [split] at fits
  have hfits : Fits receiver reception := (along_split fits hrun).2.1
  have hcut : stream (front ++ [reception]) <+: (sents.map WireMessage.wire).flatten := by
    have hjoin : receptions = (front ++ [reception]) ++ back := by simp [split]
    rw [← whole, hjoin, stream_append _ back]
    exact List.prefix_append _ _
  rw [run_snoc, hrun]
  exact receiveWithCaching_spec intact hfits hcut

theorem intact_of_small (initial : Intact sents [] start)
    (small : ∀ sent ∈ sents, sent.message.sequenceNumber < 2 ^ 31)
    (keeps : ∀ front reception back, receptions = front ++ reception :: back →
      ¬ DropsByte sents front reception) {front back : List Reception}
    (split : receptions = front ++ back) :
    ∃ receiver, run Receiver.receiveWithCaching start front = some receiver ∧
      Intact sents front receiver := by
  induction front using List.reverseRecOn generalizing back with
  | nil => exact ⟨start, rfl, initial⟩
  | append_singleton front reception ih =>
    rw [List.append_assoc, List.singleton_append] at split
    obtain ⟨receiver, hrun, hintact⟩ := ih split
    have hstep := intact_step whole fits split hrun hintact
    have hsmall : ∀ sent ∈ (sents.take (arrived sents (stream (front ++ [reception])).length)).drop
        (arrived sents (stream front).length), sent.message.sequenceNumber < 2 ^ 31 := by
      intro sent hmem
      exact small sent (List.mem_of_mem_take (List.mem_of_mem_drop hmem))
    rw [if_pos hsmall] at hstep
    obtain ⟨next, hnext, hkept⟩ := hstep
    exact ⟨next, hnext, hkept.mpr (keeps front reception back split)⟩

theorem small_of_intact
    (intact : ∀ front back, receptions = front ++ back →
      ∃ receiver, run Receiver.receiveWithCaching start front = some receiver ∧
        Intact sents front receiver) {front back : List Reception}
    (split : receptions = front ++ back) :
    ∀ sent ∈ sents.take (arrived sents (stream front).length),
      sent.message.sequenceNumber < 2 ^ 31 := by
  induction front using List.reverseRecOn generalizing back with
  | nil =>
    have hnone : arrived sents (stream []).length = 0 := arrived_zero sents
    rw [hnone]
    simp
  | append_singleton front reception ih =>
    have hsplit : receptions = front ++ reception :: back := by simpa using split
    obtain ⟨receiver, hrun, hintact⟩ := intact front (reception :: back) hsplit
    obtain ⟨next, hnext, _⟩ := intact (front ++ [reception]) back split
    have hstep := intact_step whole fits hsplit hrun hintact
    split at hstep
    · rename_i hsmall
      intro sent hmem
      rw [← List.take_append_drop (arrived sents (stream front).length)
        (sents.take (arrived sents (stream (front ++ [reception])).length))] at hmem
      cases List.mem_append.mp hmem with
      | inl hold =>
        apply ih hsplit sent
        rw [List.take_take] at hold
        exact List.take_subset_take_left _ (Nat.min_le_left _ _) hold
      | inr hnew => exact hsmall sent hnew
    · rw [hnext] at hstep
      cases hstep

end

/-- All bytes of the messages make all messages arrive. -/
theorem take_arrived {sents : List WireMessage} {receptions : List Reception}
    (whole : stream receptions = (sents.map WireMessage.wire).flatten) :
    sents.take (arrived sents (stream receptions).length) = sents := by
  rw [whole, arrived, completed_flatten, List.length_map, List.take_length]

/-- The receive calls are independent of the cuts exactly when no sequence number is too large
for an `int` and no call drops a byte. -/
theorem reassembled_iff (sents : List WireMessage) (receptions : List Reception) (capacity : Nat)
    (buffer : Nat → UInt8) (whole : stream receptions = (sents.map WireMessage.wire).flatten)
    (fits : Along Receiver.receiveWithCaching Fits (Receiver.initialise capacity buffer)
      receptions) :
    Reassembled sents (Receiver.initialise capacity buffer) receptions ↔
      (∀ sent ∈ sents, sent.message.sequenceNumber < 2 ^ 31) ∧
        ∀ front reception back, receptions = front ++ reception :: back →
          ¬ DropsByte sents front reception := by
  constructor
  · intro hall
    have hsmall := small_of_intact whole fits hall.intact (List.append_nil receptions).symm
    rw [take_arrived whole] at hsmall
    refine ⟨hsmall, fun front reception back hsplit => ?_⟩
    obtain ⟨receiver, hrun, hintact⟩ := hall.intact front (reception :: back) hsplit
    obtain ⟨next, hnext, hkept⟩ := hall.intact (front ++ [reception]) back (by simp [hsplit])
    have hstep := intact_step whole fits hsplit hrun hintact
    split at hstep
    · obtain ⟨other, hother, hiff⟩ := hstep
      rw [hnext] at hother
      cases hother
      exact hiff.mp hkept
    · rw [hnext] at hstep
      cases hstep
  · rintro ⟨hsmall, hkeeps⟩
    have hinitial := intact_initialise sents capacity buffer
    refine ⟨?_, fun front back hsplit => intact_of_small whole fits hinitial hsmall hkeeps hsplit⟩
    obtain ⟨receiver, hrun, hend⟩ := intact_of_small whole fits hinitial hsmall hkeeps
      (List.append_nil receptions).symm
    refine ⟨receiver, hrun, ?_⟩
    rw [hend.1, take_arrived whole]

/-- A heartbeat without body tags. -/
def heartbeat (sequenceNumber : Nat) : WireMessage where
  message :=
    { fixVersion := .fix42
      sequenceNumber := sequenceNumber
      messageType := .heartbeat
      senderCompId := ascii "A"
      targetCompId := ascii "B"
      sendingTime := ascii "T"
      bodyTagValuePairs := fun _ => none }
  order := []
  nodup := List.nodup_nil
  enumerates := by simp [FixMessage.hasTag]
  inRange := by simp
  unreserved := by simp
  plainHeader := by
    simp only [Plain]
    decide
  plainBody := by simp

/-- Two heartbeats, cut behind the first byte of the second one. -/
def cutHeartbeats : List Reception :=
  [{ bytes := (heartbeat 1).wire ++ [56], indeterminate := .none },
    { bytes := (heartbeat 2).wire.tail, indeterminate := .none }]

theorem cutHeartbeats_fit : Along Receiver.receiveWithCaching Fits
    (Receiver.initialise 200 fun _ => 0) cutHeartbeats := by
  have hroom : ((Receiver.initialise 200 fun _ => 0).receiveWithCaching
      { bytes := (heartbeat 1).wire ++ [56], indeterminate := .none }).map
        (fun receiver => receiver.cache.getRemainingBufferSize) = some 200 := by decide +kernel
  refine ⟨⟨by simp, by decide +kernel⟩, fun next hnext => ⟨⟨by decide +kernel, ?_⟩, ?_⟩⟩
  · rw [hnext] at hroom
    have hsize : next.cache.getRemainingBufferSize = 200 := Option.some.inj hroom
    rw [hsize]
    decide +kernel
  · intro _ _
    trivial

theorem reassembled_iff_cutHeartbeats :
    Reassembled [heartbeat 1, heartbeat 2] (Receiver.initialise 200 fun _ => 0) cutHeartbeats ↔
      (∀ sent ∈ [heartbeat 1, heartbeat 2], sent.message.sequenceNumber < 2 ^ 31) ∧
        ∀ front reception back, cutHeartbeats = front ++ reception :: back →
          ¬ DropsByte [heartbeat 1, heartbeat 2] front reception :=
  reassembled_iff _ _ _ _ (by decide +kernel) cutHeartbeats_fit

/-- The first byte of the second heartbeat is lost, and the heartbeat with it. -/
theorem reassembly_depends_on_cuts :
    ¬ ∀ (sents : List WireMessage) (receptions : List Reception) (capacity : Nat)
        (buffer : Nat → UInt8), (∀ sent ∈ sents, sent.wire.length ≤ capacity) →
        stream receptions = (sents.map WireMessage.wire).flatten →
        Along Receiver.receiveWithCaching Fits (Receiver.initialise capacity buffer) receptions →
        Reassembled sents (Receiver.initialise capacity buffer) receptions := by
  intro h
  have hlost : (run Receiver.receiveWithCaching (Receiver.initialise 200 fun _ => 0)
      cutHeartbeats).map (fun receiver => receiver.messages.length) = some 1 := by decide +kernel
  obtain ⟨receiver, hrun, hmessages⟩ := (h [heartbeat 1, heartbeat 2] cutHeartbeats 200 (fun _ => 0)
    (by decide +kernel) (by decide +kernel) cutHeartbeats_fit).delivered
  rw [hrun, Option.map_some, hmessages] at hlost
  exact absurd hlost (by decide)

end LiteExchange.Fix
