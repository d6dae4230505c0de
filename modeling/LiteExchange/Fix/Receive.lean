import LiteExchange.Fix.Reactor
import LiteExchange.Fix.TwoBuffers
import LiteExchange.Foundation.Decimal
import Mathlib.Data.List.GetD

/-!
# Receiving one message at a time

Source: `FixSession::receive`, used when there is no receive cache. It reads twenty bytes,
looks in them for the body length and for the start of the body, and asks for the bytes
that are missing then. The loop looks one byte ahead, at the last position behind the
bytes received: what lies there is a parameter (`past`). So is which sizes `new` can give.
-/

namespace LiteExchange.Fix

open Foundation.Ascii FixConstants FixMessage

/-- Length of `10=081` and its delimiter. -/
def trailerSize : Nat := 7

def initialBufferSize : Nat := 20

def stackBufferSize : Nat := 1024

/-- The bytes of a connection that were not received yet. -/
abbrev Stream := Bytes

/-- `TCPConnection::receive`: asked for `len` bytes, it returns `returns len`. -/
def Stream.receive (stream : Stream) (len : Nat) (returns : Nat → Int) : Int × Bytes × Stream :=
  (returns len, stream.take (returns len).toNat, stream.drop (returns len).toNat)

/-- The inner loop, in front of these bytes: the body length, if its delimiter was received. -/
def readBodyLength : Bytes → Bytes → Option Bytes
  | _, [] => none
  | bodyLength, currentChar :: rest =>
    if currentChar = fixDelimiter then some bodyLength
    else readBodyLength (bodyLength ++ [currentChar]) rest

/-- `stackBuffer[i]`, up to the byte behind the received ones. -/
def stackByte (received : Bytes) (past : UInt8) (i : Nat) : UInt8 := (received ++ [past]).getD i 0

/-- The text that the body length is read from, where `9=` stands at index `i`. -/
def bodyLengthAt (received : Bytes) (past : UInt8) (i : Nat) : Option Bytes :=
  if stackByte received past i = 57 ∧ stackByte received past (i + 1) = fixEquals then
    readBodyLength [] (received.drop (i + 2))
  else none

/-- The loop from index `i` on: `fixBodyLength` and `receivedBodyStartIndex`. -/
def scanHeader (received : Bytes) (past : UInt8) (i fixBodyLength : Nat) :
    Except ConversionError (Nat × Nat) :=
  if i < received.length then
    let bodyLength := bodyLengthAt received past i
    -- With a body length the loop goes on at the delimiter behind it.
    let j := i + bodyLength.elim 0 fun text => 2 + text.length
    (bodyLength.elim (.ok fixBodyLength) fun text => (stoi text).map toSize).bind
      fun fixBodyLength =>
        if stackByte received past j = 51 ∧ stackByte received past (j + 1) = 53 then
          .ok (fixBodyLength, j)
        else scanHeader received past (j + 1) fixBodyLength
  else .ok (fixBodyLength, 0)
termination_by received.length - i

/-- `size_t` arithmetic. -/
def remainingBytes (fixBodyLength receivedSize receivedBodyStartIndex : Nat) : Nat :=
  (fixBodyLength + 2 ^ 64 - (receivedSize - receivedBodyStartIndex) + trailerSize) % 2 ^ 64

/-- The size that the second call asks for. -/
def bytesToAsk (stackBuffer : Bytes) (past : UInt8) : Except ConversionError Nat := do
  let (fixBodyLength, receivedBodyStartIndex) ← scanHeader stackBuffer past 0 0
  return remainingBytes fixBodyLength stackBuffer.length receivedBodyStartIndex

/-- What a call leaves. -/
structure Receipt where
  returned : Int
  message : FixMessage
  left : Stream

/-- The bytes do not fit behind the received ones on the stack. -/
def onHeap (remaining : Nat) : Bool := (remaining + initialBufferSize) % 2 ^ 64 > stackBufferSize

/-- `returnsFirst` and `returnsSecond` say how much the two calls of the connection return, and
`allocates` whether `new` gives so many bytes. -/
def receive (message : FixMessage) (past : UInt8) (stream : Stream)
    (returnsFirst returnsSecond : Nat → Int) (allocates : Nat → Bool) : Except Fault Receipt := do
  let (receivedSize, stackBuffer, stream) := stream.receive initialBufferSize returnsFirst
  if receivedSize ≤ 0 then
    return { returned := receivedSize, message := message, left := stream }
  let remaining ← (bytesToAsk stackBuffer past).mapError Fault.conversion
  if onHeap remaining && !allocates remaining then
    throw .badAlloc
  let (receivedSize, rest, stream) := stream.receive remaining returnsSecond
  if receivedSize ≤ 0 then
    return { returned := receivedSize, message := message, left := stream }
  let message ← Except.mapError Fault.conversion
    -- From both stack memory and heap memory, or all from stack memory.
    (if onHeap remaining then parseFromMultipleBuffers message stackBuffer rest
    else parseFromBuffer message (stackBuffer ++ rest))
  return { returned := stackBuffer.length + receivedSize, message := message, left := stream }

/-! ## The header scan -/

theorem scanHeader_step {received : Bytes} {past : UInt8} {i fixBodyLength : Nat}
    (inside : i < received.length) (noLength : bodyLengthAt received past i = none)
    (noBody : ¬ (stackByte received past i = 51 ∧ stackByte received past (i + 1) = 53)) :
    scanHeader received past i fixBodyLength = scanHeader received past (i + 1) fixBodyLength := by
  rw [scanHeader, if_pos inside, noLength]
  simp only [Option.elim_none, Except.bind, Nat.add_zero]
  exact if_neg noBody

theorem scanHeader_body {received : Bytes} {past : UInt8} {i fixBodyLength : Nat}
    (inside : i < received.length) (body : stackByte received past i = 51)
    (next : stackByte received past (i + 1) = 53) :
    scanHeader received past i fixBodyLength = .ok (fixBodyLength, i) := by
  have hnot : ¬ (stackByte received past i = 57 ∧ stackByte received past (i + 1) = fixEquals) := by
    rw [body]
    exact fun h => absurd h.1 (by decide)
  rw [scanHeader, if_pos inside, bodyLengthAt, if_neg hnot]
  simp only [Option.elim_none, Except.bind, Nat.add_zero, body, next, and_self, if_true]

theorem scanHeader_end {received : Bytes} {past : UInt8} {i : Nat} (fixBodyLength : Nat)
    (outside : received.length ≤ i) :
    scanHeader received past i fixBodyLength = .ok (fixBodyLength, 0) := by
  rw [scanHeader, if_neg (Nat.not_lt.mpr outside)]

/-- Bytes in front of the body length are passed over. -/
theorem scanHeader_skip {received : Bytes} {past : UInt8} {i n fixBodyLength : Nat}
    (inside : i + n ≤ received.length)
    (other : ∀ k < n, stackByte received past (i + k) ≠ 57 ∧
      ¬ (stackByte received past (i + k) = 51 ∧ stackByte received past (i + k + 1) = 53)) :
    scanHeader received past i fixBodyLength = scanHeader received past (i + n) fixBodyLength := by
  induction n with
  | zero => rfl
  | succ n ih =>
    obtain ⟨hlength, hbody⟩ := other n (Nat.lt_succ_self n)
    have hnone : bodyLengthAt received past (i + n) = none := by
      rw [bodyLengthAt, if_neg fun h => hlength h.1]
    rw [ih (by omega) fun k hk => other k (by omega), scanHeader_step (by omega) hnone hbody,
      Nat.add_assoc]

/-- Without a body length none is found later, whatever the start of the body is taken for. -/
theorem scanHeader_none {received : Bytes} {past : UInt8} {i : Nat} (fixBodyLength : Nat)
    (noLength : ∀ k, i ≤ k → bodyLengthAt received past k = none) (nonempty : received ≠ []) :
    ∃ start < received.length, scanHeader received past i fixBodyLength =
      .ok (fixBodyLength, start) := by
  induction hleft : received.length - i using Nat.strong_induction_on generalizing i with
  | _ left ih =>
  by_cases hinside : i < received.length
  · by_cases hbody : stackByte received past i = 51 ∧ stackByte received past (i + 1) = 53
    · exact ⟨i, hinside, scanHeader_body hinside hbody.1 hbody.2⟩
    · obtain ⟨start, hstart, hscan⟩ := ih (received.length - (i + 1)) (by omega)
        (fun k hk => noLength k (by omega)) rfl
      exact ⟨start, hstart,
        (scanHeader_step hinside (noLength i (Nat.le_refl i)) hbody).trans hscan⟩
  · exact ⟨0, List.length_pos_of_ne_nil nonempty, scanHeader_end _ (Nat.not_lt.mp hinside)⟩

theorem readBodyLength_eq {digits : Bytes} (read rest : Bytes) (n : Nat)
    (plain : fixDelimiter ∉ digits) :
    readBodyLength read ((digits ++ fixDelimiter :: rest).take n) =
      if digits.length < n then some (read ++ digits) else none := by
  induction digits generalizing read n with
  | nil =>
    cases n with
    | zero => rfl
    | succ n => simp [readBodyLength]
  | cons b digits ih =>
    cases n with
    | zero => rfl
    | succ n =>
      rw [List.mem_cons, not_or] at plain
      rw [List.cons_append, List.take_succ_cons, readBodyLength, if_neg (Ne.symm plain.1),
        ih (read ++ [b]) n plain.2]
      simp

theorem readBodyLength_none {rest : Bytes} (read : Bytes) (absent : fixDelimiter ∉ rest) :
    readBodyLength read rest = none := by
  induction rest generalizing read with
  | nil => rfl
  | cons b rest ih =>
    rw [List.mem_cons, not_or] at absent
    rw [readBodyLength, if_neg (Ne.symm absent.1), ih _ absent.2]

/-! ## What `toString` puts there -/

theorem appendTagStringValue_length (tag : Int) (value : Bytes) :
    (appendTagStringValue tag value).length = (intText tag).length + 2 + value.length := by
  simp [appendTagStringValue]
  omega

/-- The bytes of the fields behind the body length, up to the checksum. -/
def bodySize (message : FixMessage) (order : List Int) : Nat :=
  (fieldsText ((message.fields order).drop 2)).length

theorem bodySize_eq (message : FixMessage) (order : List Int) :
    bodySize message order =
      (order.map fun tag => (intText tag).length + 2 + (message.getTagValue tag).length).sum +
        (20 + (fixMessageTypeString message.messageType).length +
          (natText message.sequenceNumber).length + message.senderCompId.length +
          message.sendingTime.length + message.targetCompId.length) := by
  have hheader : (intText 35).length = 2 ∧ (intText 34).length = 2 ∧ (intText 49).length = 2 ∧
      (intText 52).length = 2 ∧ (intText 56).length = 2 := by decide
  simp only [bodySize, FixMessage.fields, List.cons_append, List.nil_append,
    List.drop_succ_cons, List.drop_zero, fieldsText, List.flatMap_cons, List.length_append,
    List.length_flatMap, List.map_map, appendTagStringValue_length, Function.comp_def,
    fixTagMessageType, fixTagSequenceNumber, fixTagSenderCompid, fixTagSendingTime,
    fixTagTargetCompid, hheader]
  omega

/-- The declared body length is that of the fields behind it, as an `int`. -/
theorem calculateBodyLength_eq (message : FixMessage) (order : List Int) :
    message.calculateBodyLength order = narrow (bodySize message order) := by
  rw [calculateBodyLength, calculateHeaderLength, narrow_add_narrow, bodySize_eq]
  push_cast
  rfl

/-- The version field. -/
def versionField (message : FixMessage) : Bytes :=
  appendTagStringValue fixTagVersion (fixVersionString message.fixVersion)

def bodyLengthText (message : FixMessage) (order : List Int) : Bytes :=
  intText (message.calculateBodyLength order)

def checkSumText (message : FixMessage) (order : List Int) : Bytes :=
  calculateCheckSum (fieldsText (message.fields order))

/-- The fields in front of the checksum: version, body length, and what it is the length of. -/
theorem fieldsText_fields (message : FixMessage) (order : List Int) :
    fieldsText (message.fields order) = versionField message ++
      (appendTagStringValue fixTagBodyLength (bodyLengthText message order) ++
        fieldsText ((message.fields order).drop 2)) := by
  simp only [fieldsText, FixMessage.fields, versionField, bodyLengthText, List.cons_append,
    List.nil_append, List.flatMap_cons, List.drop_succ_cons, List.drop_zero]

/-- What follows the body length starts with the message type. -/
theorem fieldsText_body (message : FixMessage) (order : List Int) :
    ∃ rest, fieldsText ((message.fields order).drop 2) = 51 :: 53 :: rest := by
  have htype : ∀ value, appendTagStringValue fixTagMessageType value =
      51 :: 53 :: fixEquals :: value ++ [fixDelimiter] := fun value => rfl
  simp only [fieldsText, FixMessage.fields, List.cons_append, List.nil_append,
    List.drop_succ_cons, List.drop_zero, List.flatMap_cons, htype]
  exact ⟨_, rfl⟩

/-- The wire form up to the first two bytes of its body. -/
theorem toString_layout (message : FixMessage) (order : List Int) : ∃ rest,
    message.toString order = versionField message ++ 57 :: fixEquals ::
      (bodyLengthText message order ++ fixDelimiter :: 51 :: 53 :: rest) ∧
    rest.length + 2 = bodySize message order + (checkSumText message order).length + 4 := by
  obtain ⟨rest, hrest⟩ := fieldsText_body message order
  have hlength : bodySize message order = (51 :: 53 :: rest).length := by rw [bodySize, hrest]
  refine ⟨rest ++ appendTagStringValue fixTagBodyChecksum (checkSumText message order), ?_, ?_⟩
  · have hlengthField : ∀ value, appendTagStringValue fixTagBodyLength value =
        57 :: fixEquals :: (value ++ [fixDelimiter]) := fun value => rfl
    simp only [FixMessage.toString, fieldsText_fields, hlengthField, hrest, checkSumText,
      List.append_assoc, List.cons_append, List.nil_append]
  · have htag : (intText fixTagBodyChecksum).length = 2 := by decide
    simp only [List.length_append, appendTagStringValue_length, htag, List.length_cons] at hlength ⊢
    omega

/-- Nothing in the version field looks like a body length or the start of a body. -/
theorem versionField_skipped (message : FixMessage) :
    7 ≤ (versionField message).length ∧ (versionField message).length ≤ 13 ∧
      ∀ k < (versionField message).length, (versionField message ++ [57]).getD k 0 ≠ 57 ∧
        ¬ ((versionField message ++ [57]).getD k 0 = 51 ∧
          (versionField message ++ [57]).getD (k + 1) 0 = 53) := by
  unfold versionField
  cases message.fixVersion with
  | _ => decide

/-! ## The window -/

theorem stackByte_take {wire : Bytes} (past : UInt8) {k : Nat} (long : 20 ≤ wire.length)
    (inside : k < 20) : stackByte (wire.take 20) past k = wire.getD k 0 := by
  have hlength : (wire.take 20).length = 20 := List.length_take_of_le long
  rw [stackByte, List.getD_append _ _ _ _ (by omega), List.getD_eq_getElem?_getD,
    List.getD_eq_getElem?_getD, List.getElem?_take_of_lt inside]

theorem stackByte_past {wire : Bytes} (past : UInt8) (long : 20 ≤ wire.length) :
    stackByte (wire.take 20) past 20 = past := by
  have hlength : (wire.take 20).length = 20 := List.length_take_of_le long
  rw [stackByte, List.getD_append_right _ _ _ _ (by omega), hlength]
  rfl

/-- A version field, a body length field and the start of a body. -/
def layout (version digits rest : Bytes) : Bytes :=
  version ++ 57 :: fixEquals :: (digits ++ fixDelimiter :: 51 :: 53 :: rest)

section Window

variable {version digits rest : Bytes} {past : UInt8}

theorem layout_version {k : Nat} (inside : k ≤ version.length) :
    (layout version digits rest).getD k 0 = (version ++ [57]).getD k 0 := by
  have hwhole : layout version digits rest =
      (version ++ [57]) ++ fixEquals :: (digits ++ fixDelimiter :: 51 :: 53 :: rest) := by
    simp [layout]
  rw [hwhole, List.getD_append _ _ _ _ (by simp; omega)]

theorem layout_behind (k : Nat) : (layout version digits rest).getD (version.length + k) 0 =
    (57 :: fixEquals :: (digits ++ fixDelimiter :: 51 :: 53 :: rest)).getD k 0 := by
  rw [layout, List.getD_append_right _ _ _ _ (by omega), Nat.add_sub_cancel_left]

theorem layout_body (k : Nat) :
    (layout version digits rest).getD (version.length + digits.length + 2 + k) 0 =
      (fixDelimiter :: 51 :: 53 :: rest).getD k 0 := by
  have hindex : version.length + digits.length + 2 + k =
      version.length + (digits.length + k + 2) := by
    omega
  rw [hindex, layout_behind, List.getD_cons_succ, List.getD_cons_succ,
    List.getD_append_right _ _ _ _ (by omega), Nat.add_sub_cancel_left]

/-- The scan reaches the body length field. -/
theorem scanHeader_version (long : 20 ≤ (layout version digits rest).length)
    (short : version.length ≤ 13)
    (skipped : ∀ k < version.length, (version ++ [57]).getD k 0 ≠ 57 ∧
      ¬ ((version ++ [57]).getD k 0 = 51 ∧ (version ++ [57]).getD (k + 1) 0 = 53)) :
    scanHeader ((layout version digits rest).take 20) past 0 0 =
      scanHeader ((layout version digits rest).take 20) past version.length 0 := by
  have hlength : ((layout version digits rest).take 20).length = 20 := List.length_take_of_le long
  have hskip : scanHeader ((layout version digits rest).take 20) past 0 0 =
      scanHeader ((layout version digits rest).take 20) past (0 + version.length) 0 := by
    apply scanHeader_skip (by omega)
    intro k hk
    rw [Nat.zero_add, stackByte_take past long (by omega), stackByte_take past long (by omega),
      layout_version (by omega), layout_version (by omega)]
    exact skipped k hk
  rwa [Nat.zero_add] at hskip

theorem drop_window : ((layout version digits rest).take 20).drop (version.length + 2) =
    (digits ++ fixDelimiter :: 51 :: 53 :: rest).take (20 - (version.length + 2)) := by
  rw [List.drop_take, layout, List.drop_append, List.drop_of_length_le (by omega)]
  simp

theorem bodyLengthAt_layout (long : 20 ≤ (layout version digits rest).length)
    (short : version.length ≤ 13) (plain : fixDelimiter ∉ digits) :
    bodyLengthAt ((layout version digits rest).take 20) past version.length =
      if version.length + digits.length + 3 ≤ 20 then some digits else none := by
  have hnine : stackByte ((layout version digits rest).take 20) past version.length = 57 := by
    rw [stackByte_take past long (by omega), layout_version (Nat.le_refl _)]
    simp
  have hequals : stackByte ((layout version digits rest).take 20) past (version.length + 1) =
      fixEquals := by
    rw [stackByte_take past long (by omega), layout_behind]
    rfl
  rw [bodyLengthAt, if_pos ⟨hnine, hequals⟩, drop_window, readBodyLength_eq [] _ _ plain,
    List.nil_append]
  congr 1
  rw [eq_iff_iff]
  omega

/-- The body length was received: the scan goes on where the body starts. -/
theorem scanHeader_bodyLength (long : 20 ≤ (layout version digits rest).length)
    (short : version.length ≤ 13) (plain : fixDelimiter ∉ digits)
    (received : version.length + digits.length + 3 ≤ 20) :
    scanHeader ((layout version digits rest).take 20) past version.length 0 =
      ((stoi digits).map toSize).bind (scanHeader ((layout version digits rest).take 20) past
        (version.length + digits.length + 3)) := by
  have hlength : ((layout version digits rest).take 20).length = 20 := List.length_take_of_le long
  have hdelimiter : stackByte ((layout version digits rest).take 20) past
      (version.length + (2 + digits.length)) = fixDelimiter := by
    have hindex : version.length + (2 + digits.length) = version.length + digits.length + 2 + 0 := by
      omega
    rw [stackByte_take past long (by omega), hindex, layout_body]
    rfl
  have hnot : ¬ ((fixDelimiter : UInt8) = 51) := by decide
  have hnext : version.length + (2 + digits.length) + 1 = version.length + digits.length + 3 := by
    omega
  rw [scanHeader, if_pos (by omega), bodyLengthAt_layout long short plain, if_pos received]
  simp only [Option.elim_some, hdelimiter, hnot, false_and, if_false, hnext]

/-- The start of the body is found where its two bytes are in the window, or where the byte
behind the window happens to be the second one. -/
theorem scanHeader_start {length : Nat} (long : 20 ≤ (layout version digits rest).length)
    (received : version.length + digits.length + 3 ≤ 20) :
    scanHeader ((layout version digits rest).take 20) past (version.length + digits.length + 3)
        length =
      if version.length + digits.length + 3 ≤ 18 ∨
          version.length + digits.length + 3 = 19 ∧ past = 53 then
        .ok (length, version.length + digits.length + 3)
      else .ok (length, 0) := by
  have hlength : ((layout version digits rest).take 20).length = 20 := List.length_take_of_le long
  by_cases hlast : version.length + digits.length + 3 = 20
  · rw [if_neg (by omega), scanHeader_end _ (by omega)]
  have hthree : stackByte ((layout version digits rest).take 20) past
      (version.length + digits.length + 3) = 51 := by
    rw [stackByte_take past long (by omega)]
    exact layout_body 1
  by_cases hinside : version.length + digits.length + 3 ≤ 18
  · have hfive : stackByte ((layout version digits rest).take 20) past
        (version.length + digits.length + 3 + 1) = 53 := by
      rw [stackByte_take past long (by omega)]
      exact layout_body 2
    rw [if_pos (Or.inl hinside), scanHeader_body (by omega) hthree hfive]
  · have hnineteen : version.length + digits.length + 3 = 19 := by omega
    rw [hnineteen] at hthree ⊢
    have hpast : stackByte ((layout version digits rest).take 20) past (19 + 1) = past :=
      stackByte_past past long
    by_cases hfive : past = 53
    · rw [if_pos (Or.inr ⟨rfl, hfive⟩), scanHeader_body (by omega) hthree (hpast.trans hfive)]
    · have hnot : ¬ (stackByte ((layout version digits rest).take 20) past 19 = 57 ∧
          stackByte ((layout version digits rest).take 20) past (19 + 1) = fixEquals) := by
        rw [hthree]
        exact fun h => absurd h.1 (by decide)
      have hmissed : ¬ (19 ≤ 18 ∨ 19 = 19 ∧ past = 53) := by simp [hfive]
      rw [if_neg hmissed, scanHeader_step (by omega) (if_neg hnot)
        (fun h => hfive (hpast.symm.trans h.2)), scanHeader_end _ (by omega)]

/-- The body length was not received. -/
theorem scanHeader_missing (long : 20 ≤ (layout version digits rest).length)
    (short : version.length ≤ 13) (plain : fixDelimiter ∉ digits)
    (missing : ¬ version.length + digits.length + 3 ≤ 20) : ∃ start < 20,
    scanHeader ((layout version digits rest).take 20) past version.length 0 = .ok (0, start) := by
  have hlength : ((layout version digits rest).take 20).length = 20 := List.length_take_of_le long
  have hnone : ∀ k, version.length ≤ k →
      bodyLengthAt ((layout version digits rest).take 20) past k = none := by
    intro k hk
    unfold bodyLengthAt
    split
    · apply readBodyLength_none
      intro hmem
      have hbehind : fixDelimiter ∈ ((layout version digits rest).take 20).drop
          (version.length + 2) :=
        (List.drop_sublist_drop_left _ (by omega)).subset hmem
      rw [drop_window, List.take_append_of_le_length (by omega)] at hbehind
      exact plain ((List.take_sublist _ _).subset hbehind)
    · rfl
  have hnonempty : (layout version digits rest).take 20 ≠ [] := by
    rw [← List.length_pos_iff_ne_nil, hlength]
    decide
  have hscan := scanHeader_none 0 hnone hnonempty
  rwa [hlength] at hscan

end Window

/-! ## One message is read -/

/-- Where the body starts on the wire. -/
def bodyStart (message : FixMessage) (order : List Int) : Nat :=
  (versionField message).length + (bodyLengthText message order).length + 3

/-- The first two bytes of the body are in the window, or only the first one is and the byte
behind the window happens to be the second one; the checksum has three characters, and the
length of the body is an `int`. -/
def Framed (message : FixMessage) (order : List Int) (past : UInt8) : Prop :=
  (bodyStart message order ≤ 18 ∨ bodyStart message order = 19 ∧ past = 53) ∧
    (checkSumText message order).length = 3 ∧ bodySize message order < 2 ^ 31

instance (message : FixMessage) (order : List Int) (past : UInt8) :
    Decidable (Framed message order past) := inferInstanceAs (Decidable (_ ∧ _))

/-- The call asks for what the first twenty bytes leave, and where `new` gives that much, it makes
a message of the whole and leaves everything behind it. -/
def ReadsExactly (target message : FixMessage) (order : List Int) (past : UInt8) (next : Stream) :
    Prop :=
  bytesToAsk ((message.toString order).take initialBufferSize) past =
      .ok ((message.toString order).length - 20) ∧
    ∀ allocates : Nat → Bool, allocates ((message.toString order).length - 20) = true →
      receive target past (message.toString order ++ next) (fun len => len) (fun len => len)
          allocates =
        ((parseFromBuffer target (message.toString order)).mapError Fault.conversion).map
          fun parsed =>
            { returned := (message.toString order).length, message := parsed, left := next }

theorem plain_bodyLengthText (message : FixMessage) (order : List Int) :
    fixDelimiter ∉ bodyLengthText message order := (plain_intText _).2

theorem bodySize_ge (message : FixMessage) (order : List Int) : 20 ≤ bodySize message order := by
  rw [bodySize_eq]
  omega

/-- The declared length is read as the `int` that was printed. -/
theorem stoi_bodyLengthText (message : FixMessage) (order : List Int) :
    stoi (bodyLengthText message order) = .ok (message.calculateBodyLength order) := by
  obtain ⟨hlow, hhigh⟩ := narrow_range (bodySize message order)
  rw [bodyLengthText, calculateBodyLength_eq, stoi]
  exact parseInteger_intText hlow hhigh

/-- What is asked for is found by a scan of the window, behind the version. -/
theorem bytesToAsk_scan (message : FixMessage) (order : List Int) (past : UInt8) :
    ∃ rest, 20 ≤ (layout (versionField message) (bodyLengthText message order) rest).length ∧
      bytesToAsk ((message.toString order).take initialBufferSize) past =
        (scanHeader ((layout (versionField message) (bodyLengthText message order) rest).take 20)
            past (versionField message).length 0).map fun found =>
          remainingBytes found.1 20 found.2 := by
  obtain ⟨rest, hwire, hrest⟩ := toString_layout message order
  obtain ⟨_, hversion, hskipped⟩ := versionField_skipped message
  have hbody := bodySize_ge message order
  have hlong : 20 ≤ (message.toString order).length := by
    rw [hwire]
    simp
    omega
  have hask : bytesToAsk ((message.toString order).take initialBufferSize) past =
      (scanHeader ((message.toString order).take 20) past 0 0).map fun found =>
        remainingBytes found.1 20 found.2 := by
    rw [bytesToAsk, initialBufferSize, List.length_take_of_le hlong]
    cases scanHeader ((message.toString order).take 20) past 0 0 with
    | error e => rfl
    | ok found => rfl
  have hlayout : message.toString order =
    layout (versionField message) (bodyLengthText message order) rest := hwire
  rw [hlayout] at hlong
  refine ⟨rest, hlong, ?_⟩
  rw [hask, hlayout, scanHeader_version hlong hversion hskipped]

/-- What is asked for, by what the window shows. -/
theorem bytesToAsk_toString (message : FixMessage) (order : List Int) (past : UInt8) :
    (bodyStart message order ≤ 18 ∨ bodyStart message order = 19 ∧ past = 53) ∧
        bytesToAsk ((message.toString order).take initialBufferSize) past =
          .ok (remainingBytes (toSize (message.calculateBodyLength order)) 20
            (bodyStart message order)) ∨
      ¬ (bodyStart message order ≤ 18 ∨ bodyStart message order = 19 ∧ past = 53) ∧
        (bytesToAsk ((message.toString order).take initialBufferSize) past =
            .ok (remainingBytes (toSize (message.calculateBodyLength order)) 20 0) ∨
          20 < bodyStart message order ∧ ∃ start < 20,
            bytesToAsk ((message.toString order).take initialBufferSize) past =
              .ok (remainingBytes 0 20 start)) := by
  obtain ⟨rest, hwindow, hask⟩ := bytesToAsk_scan message order past
  obtain ⟨_, hversion, -⟩ := versionField_skipped message
  have hplain := plain_bodyLengthText message order
  rw [hask]
  by_cases hreceived : bodyStart message order ≤ 20
  · have hstart : ∀ length, scanHeader ((layout (versionField message)
        (bodyLengthText message order) rest).take 20) past ((versionField message).length +
          (bodyLengthText message order).length + 3) length =
        if bodyStart message order ≤ 18 ∨ bodyStart message order = 19 ∧ past = 53 then
          .ok (length, bodyStart message order)
        else .ok (length, 0) := fun length => scanHeader_start hwindow hreceived
    rw [scanHeader_bodyLength hwindow hversion hplain hreceived, stoi_bodyLengthText]
    simp only [Except.map, Except.bind, hstart]
    by_cases hfits : bodyStart message order ≤ 18 ∨ bodyStart message order = 19 ∧ past = 53
    · refine Or.inl ⟨hfits, ?_⟩
      rw [if_pos hfits]
    · refine Or.inr ⟨hfits, Or.inl ?_⟩
      rw [if_neg hfits]
  · have hmissed : ¬ (bodyStart message order ≤ 18 ∨ bodyStart message order = 19 ∧ past = 53) := by
      rintro (h | h)
      · omega
      · omega
    obtain ⟨start, hinside, hscan⟩ : ∃ start < 20, scanHeader ((layout (versionField message)
        (bodyLengthText message order) rest).take 20) past (versionField message).length 0 =
          .ok (0, start) := scanHeader_missing hwindow hversion hplain hreceived
    refine Or.inr ⟨hmissed, Or.inr ⟨Nat.lt_of_not_le hreceived, start, hinside, ?_⟩⟩
    rw [hscan]
    rfl

theorem bytesToAsk_iff (message : FixMessage) (order : List Int) (past : UInt8)
    (short : (message.toString order).length < 2 ^ 63) :
    bytesToAsk ((message.toString order).take initialBufferSize) past =
      .ok ((message.toString order).length - 20) ↔ Framed message order past := by
  obtain ⟨rest, hwire, hlength⟩ := toString_layout message order
  have htotal : (message.toString order).length =
      bodyStart message order + bodySize message order +
        (checkSumText message order).length + 4 := by
    rw [hwire]
    simp [bodyStart]
    omega
  have hbody := bodySize_ge message order
  have hstart : 10 ≤ bodyStart message order := by
    have hversion := (versionField_skipped message).1
    unfold bodyStart
    omega
  -- what is declared differs from the length by a multiple of 2^32
  obtain ⟨hlow, hhigh⟩ := narrow_range (bodySize message order)
  obtain ⟨wraps, hwraps⟩ := narrow_congr (bodySize message order)
  rw [← calculateBodyLength_eq] at hlow hhigh hwraps
  unfold Framed
  rcases bytesToAsk_toString message order past with ⟨hfits, hask⟩ | ⟨hmissed, hcases⟩
  · have hinside : bodyStart message order ≤ 19 := by
      rcases hfits with h | h
      · omega
      · omega
    rw [hask, Except.ok.injEq, remainingBytes, trailerSize, toSize, and_iff_right hfits]
    omega
  · rcases hcases with hask | ⟨hlate, start, hinside, hask⟩
    · rw [hask, Except.ok.injEq, remainingBytes, trailerSize, toSize]
      simp only [hmissed, false_and, iff_false]
      omega
    · rw [hask, Except.ok.injEq, remainingBytes, trailerSize]
      simp only [hmissed, false_and, iff_false]
      omega

/-- Calls that return what they are asked for take that much from a long enough stream. -/
theorem Stream.receive_whole (front back : Bytes) :
    Stream.receive (front ++ back) front.length (fun len => len) =
      ((front.length : Int), front, back) := by
  simp [Stream.receive]

/-- Asked for the rest of the message, the second call completes it. -/
theorem receive_asked (target : FixMessage) {wire : Bytes} {past : UInt8} (next : Stream)
    (long : 20 < wire.length) (asked : bytesToAsk (wire.take 20) past = .ok (wire.length - 20))
    {allocates : Nat → Bool} (memory : allocates (wire.length - 20) = true) :
    receive target past (wire ++ next) (fun len => len) (fun len => len) allocates =
      ((parseFromBuffer target wire).mapError Fault.conversion).map fun parsed =>
        { returned := wire.length, message := parsed, left := next } := by
  have hfirstLength : (wire.take 20).length = 20 := List.length_take_of_le (by omega)
  have hrestLength : (wire.drop 20).length = wire.length - 20 := List.length_drop
  have hstream : wire ++ next = wire.take 20 ++ (wire.drop 20 ++ next) := by
    rw [← List.append_assoc, List.take_append_drop]
  have hfirst := Stream.receive_whole (wire.take 20) (wire.drop 20 ++ next)
  have hsecond := Stream.receive_whole (wire.drop 20) next
  rw [hfirstLength] at hfirst
  rw [hrestLength] at hsecond
  have hsome : ¬ ((20 : Nat) : Int) ≤ 0 := by decide
  have hmore : ¬ ((wire.length - 20 : Nat) : Int) ≤ 0 := by omega
  have hnonempty : wire.take 20 ≠ [] := by
    rw [← List.length_pos_iff_ne_nil, hfirstLength]
    decide
  have hreturned : ((20 : Nat) : Int) + ((wire.length - 20 : Nat) : Int) = wire.length := by omega
  rw [receive, hstream, initialBufferSize, hfirst]
  simp only [hsome, if_false, asked, Except.mapError, memory, Bool.not_true, Bool.and_false,
    Bool.false_eq_true, bind, Except.bind, hsecond, hmore]
  rw [parseFromMultipleBuffers_eq target _ hnonempty, List.take_append_drop, ite_self, hfirstLength,
    hreturned]
  cases parseFromBuffer target wire with
  | error e => rfl
  | ok parsed => rfl

/-- When both calls return what they are asked for, exactly the bytes of the message are read, if
and only if the window shows its body length and the start of its body and its checksum has three
characters. No string is as long as the bound. -/
theorem readsExactly_iff (target message : FixMessage) (order : List Int) (past : UInt8)
    (next : Stream) (short : (message.toString order).length < 2 ^ 63) :
    ReadsExactly target message order past next ↔ Framed message order past := by
  rw [ReadsExactly, bytesToAsk_iff message order past short]
  refine and_iff_left_of_imp fun hframed => ?_
  have hasked := (bytesToAsk_iff message order past short).mpr hframed
  have hlong : 20 < (message.toString order).length := by
    obtain ⟨rest, hwire, hlength⟩ := toString_layout message order
    have hbody := bodySize_ge message order
    rw [hwire]
    simp
    omega
  exact fun allocates memory => receive_asked target next hlong hasked memory

/-- A heartbeat of this version with this text. -/
def heartbeatOf (fixVersion : FixVersion) (text : Bytes) : FixMessage where
  fixVersion := fixVersion
  sequenceNumber := 1
  messageType := .heartbeat
  senderCompId := ascii "CLIENT1"
  targetCompId := ascii "SERVER"
  sendingTime := []
  bodyTagValuePairs := fun tag => if tag = fixTagFreeText then some text else none

/-- A short message in a version of seven characters. -/
theorem readsExactly_heartbeat :
    ReadsExactly (construct .none) (heartbeatOf .fix42 (ascii "A")) [fixTagFreeText] 53 [56] :=
  (readsExactly_iff _ _ _ 53 [56] (by decide +kernel)).mpr (by decide +kernel)

/-- A text of a thousand bytes in the longest version: the window ends in front of the body. -/
theorem readsExactly_fails : ¬ ReadsExactly (construct .none)
    (heartbeatOf .fix50sp1 (List.replicate 1000 65)) [fixTagFreeText] 53 [] := by
  rintro ⟨hasked, _⟩
  have hframed := (bytesToAsk_iff _ _ 53 (by decide +kernel)).mp hasked
  exact absurd hframed (by decide +kernel)

end LiteExchange.Fix
