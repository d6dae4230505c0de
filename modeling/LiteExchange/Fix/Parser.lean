import LiteExchange.Fix.Message

/-!
# Parsing several messages from one buffer

Source: `FixParser::parseMultipleMessagesFromBuffer`. A message starts at the first
`8=` after the previous one and ends with the delimiter of its tag 10. The loop looks
one byte ahead when it meets an `8`; at the last position that byte lies behind the
received ones, so it is a parameter (`past`). `std::stoi` may throw.
-/

namespace LiteExchange.Fix

open Foundation.Ascii FixConstants FixMessage

/-- The local variables of the loop, with what it appends to and assigns. -/
structure ParserState where
  tag : Bytes
  value : Bytes
  /-- `target` points to the value, not to the tag. -/
  targetIsValue : Bool
  message : FixMessage
  lastTagOfMessage : Bool
  fixMessageStarted : Bool
  messages : List FixMessage
  remainingBytesStartIndex : Nat
  numOfFixMessages : Nat

namespace ParserState

def initial (indeterminate : MessageType) : ParserState where
  tag := []
  value := []
  targetIsValue := false
  message := construct indeterminate
  lastTagOfMessage := false
  fixMessageStarted := false
  messages := []
  remainingBytesStartIndex := 0
  numOfFixMessages := 0

/-- `(*target).push_back(iter)`. -/
def push (s : ParserState) (iter : UInt8) : ParserState :=
  if s.targetIsValue then { s with value := s.value ++ [iter] } else { s with tag := s.tag ++ [iter] }

def equals (s : ParserState) : ParserState :=
  { s with
    lastTagOfMessage := s.lastTagOfMessage || s.tag == [49, 48]
    targetIsValue := true }

/-- The delimiter at index `i`. -/
def delimiter (s : ParserState) (i : Nat) : Except ConversionError ParserState := do
  let tag ← stoi s.tag
  let message := s.message.setTag tag s.value
  let s := { s with targetIsValue := false, message := message }
  let s ← if s.lastTagOfMessage then do
      let message ← message.initialiseHeader
      pure { s with
        messages := s.messages ++ [message]
        remainingBytesStartIndex := i + 1
        message := message.reset
        numOfFixMessages := s.numOfFixMessages + 1
        lastTagOfMessage := false
        fixMessageStarted := false }
    else pure s
  pure { s with tag := [], value := [] }

/-- The byte `iter` of a started message, at index `i`. -/
def process (s : ParserState) (iter : UInt8) (i : Nat) : Except ConversionError ParserState :=
  if iter = fixEquals then .ok s.equals
  else if iter = fixDelimiter then s.delimiter i
  else .ok (s.push iter)

/-- `8=` was seen: the `8` is kept and the loop goes on with the `=`. -/
def start (s : ParserState) : ParserState := { s.push 56 with fixMessageStarted := true }

end ParserState

open ParserState

/-- The loop from index `i` on, over the bytes that are left. -/
def parseFrom (past : UInt8) : Bytes → Nat → ParserState → Except ConversionError ParserState
  | [], _, s => .ok s
  | [iter], i, s =>
    if iter = 56 ∧ past = fixEquals then s.start.process past (i + 1)
    else if s.fixMessageStarted then s.process iter i
    else .ok s
  | iter :: next :: rest, i, s =>
    if iter = 56 ∧ next = fixEquals then
      (s.start.process next (i + 1)).bind fun s => parseFrom past rest (i + 2) s
    else if s.fixMessageStarted then
      (s.process iter i).bind fun s => parseFrom past (next :: rest) (i + 1) s
    else parseFrom past (next :: rest) (i + 1) s

def parseMultipleMessagesFromBuffer (indeterminate : MessageType) (buffer : Bytes) (past : UInt8) :
    Except ConversionError ParserState :=
  parseFrom past buffer 0 (ParserState.initial indeterminate)

/-- What the start of a message, a `=` and each byte keep, the loop keeps. The invariant may
depend on the index of the next byte. -/
theorem parseFrom_invariant (I : Nat → ParserState → Prop) (opens : ∀ i s, I i s → I i s.start)
    (equals : ∀ i s, I i s → I i s.equals)
    (byte : ∀ i s t iter, I i s → s.process iter i = .ok t → I (i + 1) t)
    (skip : ∀ i s, I i s → I (i + 1) s) {past : UInt8} {buffer : Bytes} {i : Nat}
    {s t : ParserState} (before : I i s) (done : parseFrom past buffer i s = .ok t) :
    I (i + buffer.length) t := by
  fun_induction parseFrom past buffer i s with
  | case1 i s =>
    cases done
    exact before
  | case2 iter i s hpair =>
    rw [hpair.2, process, if_pos rfl] at done
    cases done
    exact skip i _ (equals i _ (opens i s before))
  | case3 iter i s _ _ => exact byte i s t iter before done
  | case4 iter i s _ _ =>
    cases done
    exact skip i _ before
  | case5 iter next rest i s _ ih =>
    cases hprocess : s.start.process next (i + 1) with
    | error e => simp [hprocess, Except.bind] at done
    | ok u =>
      rw [hprocess] at done
      have hafter := ih u (byte (i + 1) _ u next (skip i _ (opens i s before)) hprocess) done
      have hlength : i + (iter :: next :: rest).length = i + 2 + rest.length := by
        simp only [List.length_cons]
        omega
      rwa [hlength]
  | case6 iter next rest i s _ _ ih =>
    cases hprocess : s.process iter i with
    | error e => simp [hprocess, Except.bind] at done
    | ok u =>
      rw [hprocess] at done
      have hafter := ih u (byte i s u iter before hprocess) done
      rwa [Nat.add_right_comm] at hafter
  | case7 iter next rest i s _ _ ih =>
    have hafter := ih (skip i s before) done
    rwa [Nat.add_right_comm] at hafter

/-! ## Bytes of a started message -/

theorem start_started (s : ParserState) : s.start.fixMessageStarted = true := rfl

theorem push_started {s : ParserState} {iter : UInt8} :
    (s.push iter).fixMessageStarted = s.fixMessageStarted := by
  unfold push
  split <;> rfl

theorem start_of_started {s : ParserState} (started : s.fixMessageStarted = true) :
    s.start = s.push 56 := by
  unfold start push
  split <;> simp [started]

/-- The look-ahead only joins two steps: `8=` starts the message and leaves the `=`. -/
theorem parseFrom_start (past : UInt8) (rest : Bytes) (i : Nat) (s : ParserState) :
    parseFrom past (56 :: fixEquals :: rest) i s =
      parseFrom past (fixEquals :: rest) (i + 1) s.start := by
  rw [parseFrom, if_pos ⟨rfl, rfl⟩]
  cases rest with
  | nil => rfl
  | cons after rest => simp [parseFrom, start_started]

/-- In a started message the loop takes one byte at a time. -/
theorem parseFrom_started {past iter : UInt8} {rest : Bytes} {i : Nat} {s : ParserState}
    (started : s.fixMessageStarted = true) (ahead : iter ≠ 56 ∨ rest ≠ []) :
    parseFrom past (iter :: rest) i s =
      (s.process iter i).bind fun s => parseFrom past rest (i + 1) s := by
  cases rest with
  | nil =>
    have hiter : iter ≠ 56 := by simpa using ahead
    simp only [parseFrom, hiter, false_and, if_false, started, if_true]
    cases s.process iter i with
    | error e => rfl
    | ok s => rfl
  | cons next rest =>
    by_cases hpair : iter = 56 ∧ next = fixEquals
    · obtain ⟨rfl, rfl⟩ := hpair
      rw [parseFrom_start, start_of_started started]
      rfl
    · rw [parseFrom, if_neg hpair, if_pos started]

theorem parseFrom_push {past iter : UInt8} {rest : Bytes} {i : Nat} {s : ParserState}
    (started : s.fixMessageStarted = true) (plain : Plain [iter]) (ahead : rest ≠ []) :
    parseFrom past (iter :: rest) i s = parseFrom past rest (i + 1) (s.push iter) := by
  have hequals : iter ≠ fixEquals := fun h => plain.1 (by simp [h])
  have hdelimiter : iter ≠ fixDelimiter := fun h => plain.2 (by simp [h])
  rw [parseFrom_started started (Or.inr ahead), process, if_neg hequals, if_neg hdelimiter]
  rfl

theorem parseFrom_equals {past : UInt8} {rest : Bytes} {i : Nat} {s : ParserState}
    (started : s.fixMessageStarted = true) :
    parseFrom past (fixEquals :: rest) i s = parseFrom past rest (i + 1) s.equals := by
  rw [parseFrom_started started (Or.inl (by decide)), process, if_pos rfl]
  rfl

theorem parseFrom_delimiter {past : UInt8} {rest : Bytes} {i : Nat} {s : ParserState}
    (started : s.fixMessageStarted = true) :
    parseFrom past (fixDelimiter :: rest) i s =
      (s.delimiter i).bind fun s => parseFrom past rest (i + 1) s := by
  have hnot : fixDelimiter ≠ fixEquals := by decide
  rw [parseFrom_started started (Or.inl (by decide)), process, if_neg hnot, if_pos rfl]

/-- A text without separators is appended to the target. -/
theorem parseFrom_plain {past : UInt8} {text rest : Bytes} {i : Nat} {s : ParserState}
    (plain : Plain text) (started : s.fixMessageStarted = true) (ahead : rest ≠ []) :
    parseFrom past (text ++ rest) i s =
      parseFrom past rest (i + text.length) (text.foldl push s) := by
  induction text generalizing s i with
  | nil => rfl
  | cons b text ih =>
    obtain ⟨hequals, hdelimiter⟩ := plain
    rw [List.mem_cons, not_or] at hequals hdelimiter
    have hb : Plain [b] := by simpa [Plain] using And.intro hequals.1 hdelimiter.1
    rw [List.cons_append, parseFrom_push started hb (by simp [ahead]),
      ih ⟨hequals.2, hdelimiter.2⟩ (push_started.trans started), List.foldl_cons,
      List.length_cons, Nat.add_right_comm, Nat.add_assoc]

theorem foldl_push_tag {s : ParserState} (htarget : s.targetIsValue = false) (text : Bytes) :
    text.foldl push s = { s with tag := s.tag ++ text } := by
  induction text generalizing s with
  | nil => simp
  | cons b text ih =>
    have hpush : s.push b = { s with tag := s.tag ++ [b] } := by simp [push, htarget]
    rw [List.foldl_cons, hpush, ih (s := { s with tag := s.tag ++ [b] }) htarget]
    simp

theorem foldl_push_value {s : ParserState} (htarget : s.targetIsValue = true) (text : Bytes) :
    text.foldl push s = { s with value := s.value ++ text } := by
  induction text generalizing s with
  | nil => simp
  | cons b text ih =>
    have hpush : s.push b = { s with value := s.value ++ [b] } := by simp [push, htarget]
    rw [List.foldl_cons, hpush, ih (s := { s with value := s.value ++ [b] }) htarget]
    simp

/-! ## Fields -/

/-- Between two fields. -/
def ParserState.Ready (s : ParserState) : Prop :=
  s.tag = [] ∧ s.value = [] ∧ s.targetIsValue = false ∧ s.lastTagOfMessage = false

/-- The first of these fields is read: the message has started, or the field is its version. -/
def ParserState.Opens (s : ParserState) (pairs : List (Int × Bytes)) : Prop :=
  s.fixMessageStarted = true ∨ ∃ value rest, pairs = (fixTagVersion, value) :: rest

/-- Only the tag 10 is printed as `10`. -/
theorem intText_checksum (tag : Int) :
    (intText tag == [49, 48]) = decide (tag = fixTagBodyChecksum) := by
  by_cases htag : tag = fixTagBodyChecksum
  · rw [htag]
    rfl
  · have hne : intText tag ≠ [49, 48] := by
      intro h
      have hread := parseInteger_intText (le_refl tag) (le_refl tag)
      have hten : parseInteger tag tag [49, 48] =
          if tag ≤ 10 ∧ 10 ≤ tag then .ok 10 else .error .outOfRange := rfl
      rw [h, hten] at hread
      split at hread
      · cases hread
        exact htag rfl
      · cases hread
    rw [decide_eq_false htag]
    exact beq_eq_false_iff_ne.mpr hne

/-- The state behind the `=` and the value of a field that starts between two fields. -/
def ParserState.atDelimiter (s : ParserState) (tag : Int) (value : Bytes) : ParserState :=
  { s with
    tag := intText tag
    value := value
    targetIsValue := true
    lastTagOfMessage := decide (tag = fixTagBodyChecksum)
    fixMessageStarted := true }

/-- One whole field: everything happens at its delimiter. -/
theorem parseFrom_field (past : UInt8) {tag : Int} {value : Bytes} (rest : Bytes) {i : Nat}
    {s : ParserState} (plain : Plain value) (ready : s.Ready) (opens : s.Opens [(tag, value)]) :
    parseFrom past (appendTagStringValue tag value ++ rest) i s =
      ((s.atDelimiter tag value).delimiter
          (i + (appendTagStringValue tag value).length - 1)).bind
        fun s => parseFrom past rest (i + (appendTagStringValue tag value).length) s := by
  obtain ⟨htag, hvalue, htarget, hlast⟩ := ready
  have htagRead : parseFrom past (intText tag ++ fixEquals :: (value ++ fixDelimiter :: rest)) i s =
      parseFrom past (fixEquals :: (value ++ fixDelimiter :: rest)) (i + (intText tag).length)
        { s with tag := intText tag, fixMessageStarted := true } := by
    rcases opens with hstarted | ⟨_, _, hversion⟩
    · rw [parseFrom_plain (plain_intText tag) hstarted (by simp), foldl_push_tag htarget, htag]
      simp [hstarted]
    · cases hversion
      have hpush : s.start = { s with tag := intText 8, fixMessageStarted := true } := by
        unfold start push
        simp [htarget, htag]
        rfl
      exact (parseFrom_start ..).trans (by rw [hpush]; rfl)
  have hlength : (appendTagStringValue tag value).length =
      (intText tag).length + 1 + value.length + 1 := by
    simp [appendTagStringValue]
    omega
  have hwhole : appendTagStringValue tag value ++ rest =
      intText tag ++ fixEquals :: (value ++ fixDelimiter :: rest) := by
    simp [appendTagStringValue]
  have hstate : ({ s with tag := intText tag, fixMessageStarted := true } : ParserState).equals =
      { s.atDelimiter tag value with value := [] } := by
    simp [equals, atDelimiter, hvalue, hlast, intText_checksum]
  have hvalueRead : value.foldl push { s.atDelimiter tag value with value := [] } =
      s.atDelimiter tag value := foldl_push_value rfl value
  rw [hwhole, htagRead, parseFrom_equals rfl, hstate, parseFrom_plain plain rfl (by simp),
    hvalueRead, parseFrom_delimiter rfl, hlength]
  simp only [Nat.add_assoc]
  rfl

/-- The delimiter of a field other than the checksum sets its tag. -/
theorem delimiter_body {tag : Int} {value : Bytes} {i : Nat} {s : ParserState}
    (inRange : -2 ^ 31 ≤ tag ∧ tag ≤ 2 ^ 31 - 1) (body : tag ≠ fixTagBodyChecksum)
    (ready : s.Ready) :
    (s.atDelimiter tag value).delimiter i =
      .ok { s with message := s.message.setTag tag value, fixMessageStarted := true } := by
  obtain ⟨htag, hvalue, htarget, hlast⟩ := ready
  have hread : stoi (intText tag) = .ok tag := parseInteger_intText inRange.1 inRange.2
  simp only [delimiter, atDelimiter, hread, decide_eq_false body]
  simp [bind, Except.bind, pure, Except.pure, htag, hvalue, htarget, hlast]

/-- The state behind a message: what follows it starts at index `i`. -/
def ParserState.deliver (s : ParserState) (message : FixMessage) (i : Nat) : ParserState where
  tag := []
  value := []
  targetIsValue := false
  message := message.reset
  lastTagOfMessage := false
  fixMessageStarted := false
  messages := s.messages ++ [message]
  remainingBytesStartIndex := i
  numOfFixMessages := s.numOfFixMessages + 1

/-- A delimiter sets the tag in front of it, and behind the checksum delivers the message. -/
theorem delimiter_cases {s t : ParserState} {i : Nat} (done : s.delimiter i = .ok t) :
    ∃ tag, stoi s.tag = .ok tag ∧
      ((s.lastTagOfMessage = false ∧ t =
          { s with
            tag := []
            value := []
            targetIsValue := false
            message := s.message.setTag tag s.value }) ∨
        (s.lastTagOfMessage = true ∧ ∃ message,
          (s.message.setTag tag s.value).initialiseHeader = .ok message ∧
            t = s.deliver message (i + 1))) := by
  unfold delimiter at done
  cases hread : stoi s.tag with
  | error e => simp [hread, bind, Except.bind] at done
  | ok tag =>
    simp only [hread, bind, Except.bind, pure, Except.pure] at done
    refine ⟨tag, rfl, ?_⟩
    cases hlast : s.lastTagOfMessage with
    | false =>
      simp only [hlast, Bool.false_eq_true, if_false] at done
      cases done
      exact Or.inl ⟨rfl, rfl⟩
    | true =>
      simp only [hlast, if_true] at done
      cases hheader : (s.message.setTag tag s.value).initialiseHeader with
      | error e => simp [hheader] at done
      | ok message =>
        simp only [hheader] at done
        cases done
        exact Or.inr ⟨rfl, message, rfl, rfl⟩

/-- The delimiter of the checksum ends the message. -/
theorem delimiter_last {value : Bytes} {i : Nat} {s : ParserState} :
    (s.atDelimiter fixTagBodyChecksum value).delimiter i =
      (s.message.setTag fixTagBodyChecksum value).initialiseHeader.map fun message =>
        s.deliver message (i + 1) := by
  have hread : stoi (intText fixTagBodyChecksum) = .ok fixTagBodyChecksum := rfl
  simp only [delimiter, atDelimiter, hread, decide_true, bind, Except.bind, if_true]
  generalize (s.message.setTag fixTagBodyChecksum value).initialiseHeader = header
  cases header with
  | error e => rfl
  | ok message => rfl

/-- The state between two fields, after these have been read. -/
def ParserState.read (s : ParserState) (pairs : List (Int × Bytes)) : ParserState :=
  { s with
    message := s.message.setTags pairs
    fixMessageStarted := s.fixMessageStarted || !pairs.isEmpty }

/-- The fields in front of the checksum. -/
theorem parseFrom_fields {past : UInt8} {pairs : List (Int × Bytes)} {rest : Bytes} {i : Nat}
    {s : ParserState} (ready : s.Ready) (opens : s.Opens pairs)
    (inRange : ∀ pair ∈ pairs, -2 ^ 31 ≤ pair.1 ∧ pair.1 ≤ 2 ^ 31 - 1)
    (body : ∀ pair ∈ pairs, pair.1 ≠ fixTagBodyChecksum)
    (plain : ∀ pair ∈ pairs, Plain pair.2) :
    parseFrom past (fieldsText pairs ++ rest) i s =
      parseFrom past rest (i + (fieldsText pairs).length) (s.read pairs) := by
  induction pairs generalizing s i with
  | nil => simp [fieldsText, setTags, ParserState.read]
  | cons pair pairs ih =>
    have hopens : s.Opens [(pair.1, pair.2)] := by
      rcases opens with hstarted | ⟨value, more, hpairs⟩
      · exact Or.inl hstarted
      · cases hpairs
        exact Or.inr ⟨value, [], rfl⟩
    have hrest := ih (i := i + (appendTagStringValue pair.1 pair.2).length)
      (s := { s with message := s.message.setTag pair.1 pair.2, fixMessageStarted := true })
      ready (Or.inl rfl)
      (fun other hother => inRange other (List.mem_cons_of_mem pair hother))
      (fun other hother => body other (List.mem_cons_of_mem pair hother))
      (fun other hother => plain other (List.mem_cons_of_mem pair hother))
    have hfield := parseFrom_field past (fieldsText pairs ++ rest) (i := i)
      (plain pair List.mem_cons_self) ready hopens
    rw [delimiter_body (inRange pair List.mem_cons_self) (body pair List.mem_cons_self) ready]
      at hfield
    have hwhole : fieldsText (pair :: pairs) ++ rest =
        appendTagStringValue pair.1 pair.2 ++ (fieldsText pairs ++ rest) := by
      simp [fieldsText]
    have hlength : (fieldsText (pair :: pairs)).length =
        (appendTagStringValue pair.1 pair.2).length + (fieldsText pairs).length := by
      simp [fieldsText]
    rw [hwhole, hfield, Except.bind, hrest, hlength, Nat.add_assoc]
    simp [setTags, ParserState.read]

/-! ## Messages -/

/-- Between two messages. -/
def ParserState.Idle (s : ParserState) : Prop :=
  s.Ready ∧ s.message.bodyTagValuePairs = fun _ => none

theorem initial_idle (indeterminate : MessageType) : (ParserState.initial indeterminate).Idle :=
  ⟨⟨rfl, rfl, rfl, rfl⟩, rfl⟩

theorem deliver_idle (s : ParserState) (message : FixMessage) (i : Nat) :
    (s.deliver message i).Idle := ⟨⟨rfl, rfl, rfl, rfl⟩, rfl⟩

theorem fields_tags (sent : WireMessage) {pair : Int × Bytes}
    (hpair : pair ∈ sent.message.fields sent.order) :
    (-2 ^ 31 ≤ pair.1 ∧ pair.1 ≤ 2 ^ 31 - 1) ∧ pair.1 ≠ fixTagBodyChecksum := by
  have hbody : fixTagBodyChecksum ∉ sent.order := fun hmem => sent.unreserved _ hmem (by simp)
  exact ⟨FixMessage.fields_inRange sent.inRange hpair, FixMessage.fields_body hbody hpair⟩

theorem wire_eq (sent : WireMessage) :
    sent.wire = fieldsText (sent.message.fields sent.order) ++
      appendTagStringValue fixTagBodyChecksum sent.checksum := rfl

/-- A whole message is delivered at its last byte, unless its sequence number is no `int`. -/
theorem parseFrom_wire {past : UInt8} (sent : WireMessage) {rest : Bytes} {i : Nat}
    {s : ParserState} (idle : s.Idle) :
    parseFrom past (sent.wire ++ rest) i s =
      if sent.message.sequenceNumber < 2 ^ 31 then
        parseFrom past rest (i + sent.wire.length)
          (s.deliver sent.received (i + sent.wire.length))
      else .error .outOfRange := by
  obtain ⟨ready, fresh⟩ := idle
  have hopens : s.Opens (sent.message.fields sent.order) := Or.inr ⟨_, _, rfl⟩
  have hstarted : (s.read (sent.message.fields sent.order)).fixMessageStarted = true := by
    simp [ParserState.read, fields]
  have hheader := sent.initialiseHeader_setTags s.message fresh
  rw [setTags_append] at hheader
  have hlength : i + sent.wire.length - 1 + 1 = i + sent.wire.length := by
    simp [wire_eq, appendTagStringValue]
    omega
  have hmessage : (s.read (sent.message.fields sent.order)).message.setTag fixTagBodyChecksum
      sent.checksum = (s.message.setTags (sent.message.fields sent.order)).setTags
        [(fixTagBodyChecksum, sent.checksum)] := rfl
  rw [wire_eq, List.append_assoc, parseFrom_fields ready hopens
    (fun pair hpair => (fields_tags sent hpair).1) (fun pair hpair => (fields_tags sent hpair).2)
    (fun pair hpair => sent.fields_plain hpair),
    parseFrom_field past rest (s := s.read (sent.message.fields sent.order)) sent.checksum_plain ready
      (Or.inl hstarted), delimiter_last, hmessage, hheader, Nat.add_assoc, ← List.length_append,
    ← wire_eq, hlength]
  split
  · rfl
  · rfl

/-- The state behind these messages, the first of which starts at index `i`. -/
def ParserState.deliverAll (s : ParserState) : List WireMessage → Nat → ParserState
  | [], _ => s
  | sent :: sents, i =>
    (s.deliver sent.received (i + sent.wire.length)).deliverAll sents (i + sent.wire.length)

theorem deliverAll_idle {s : ParserState} (idle : s.Idle) (sents : List WireMessage) (i : Nat) :
    (s.deliverAll sents i).Idle := by
  induction sents generalizing s i with
  | nil => exact idle
  | cons sent sents ih => exact ih (deliver_idle _ _ _) _

theorem deliverAll_output (s : ParserState) (sents : List WireMessage) (i : Nat) :
    (s.deliverAll sents i).messages = s.messages ++ sents.map WireMessage.received ∧
      (s.deliverAll sents i).numOfFixMessages = s.numOfFixMessages + sents.length ∧
      (s.deliverAll sents i).remainingBytesStartIndex =
        if sents = [] then s.remainingBytesStartIndex
        else i + (sents.map WireMessage.wire).flatten.length := by
  induction sents generalizing s i with
  | nil => simp [deliverAll]
  | cons sent sents ih =>
    obtain ⟨hmessages, hnum, hstart⟩ :=
      ih (s.deliver sent.received (i + sent.wire.length)) (i + sent.wire.length)
    refine ⟨?_, ?_, ?_⟩
    · rw [deliverAll, hmessages]
      simp [deliver]
    · rw [deliverAll, hnum]
      simp only [deliver, List.length_cons]
      omega
    · rw [deliverAll, hstart, List.map_cons, List.flatten_cons, List.length_append]
      by_cases hnil : sents = []
      · simp [hnil, deliver]
      · simp only [hnil, if_false, List.cons_ne_nil]
        omega

/-- Whole messages are delivered one after the other. -/
theorem parseFrom_wires {past : UInt8} (sents : List WireMessage) {rest : Bytes} {i : Nat}
    {s : ParserState} (idle : s.Idle) :
    parseFrom past ((sents.map WireMessage.wire).flatten ++ rest) i s =
      if ∀ sent ∈ sents, sent.message.sequenceNumber < 2 ^ 31 then
        parseFrom past rest (i + (sents.map WireMessage.wire).flatten.length) (s.deliverAll sents i)
      else .error .outOfRange := by
  induction sents generalizing s i with
  | nil => simp [deliverAll]
  | cons sent sents ih =>
    have hrest := ih (i := i + sent.wire.length)
      (deliver_idle s sent.received (i + sent.wire.length))
    rw [List.map_cons, List.flatten_cons, List.append_assoc, parseFrom_wire sent idle, hrest,
      List.length_append, Nat.add_assoc]
    simp only [List.forall_mem_cons, deliverAll]
    by_cases hfirst : sent.message.sequenceNumber < 2 ^ 31
    · simp only [hfirst, if_true, true_and]
    · simp only [hfirst, if_false, false_and]

/-! ## A message that is not complete -/

/-- Nothing was delivered in between. -/
def ParserState.SameOutput (s t : ParserState) : Prop :=
  t.messages = s.messages ∧ t.remainingBytesStartIndex = s.remainingBytesStartIndex ∧
    t.numOfFixMessages = s.numOfFixMessages

theorem process_sameOutput (s : ParserState) (iter : UInt8) (i : Nat)
    (plain : iter ≠ fixDelimiter) : ∃ t, s.process iter i = .ok t ∧ s.SameOutput t := by
  unfold process
  split
  · exact ⟨s.equals, rfl, rfl, rfl, rfl⟩
  · refine ⟨s.push iter, rfl, ?_⟩
    unfold push SameOutput
    split <;> exact ⟨rfl, rfl, rfl⟩

theorem start_sameOutput (s : ParserState) : s.SameOutput s.start := by
  unfold start push SameOutput
  split <;> exact ⟨rfl, rfl, rfl⟩

theorem ParserState.SameOutput.trans {s t u : ParserState} (first : s.SameOutput t)
    (second : t.SameOutput u) : s.SameOutput u :=
  ⟨second.1.trans first.1, second.2.1.trans first.2.1, second.2.2.trans first.2.2⟩

/-- Without a delimiter nothing is delivered and no number is read, whatever the text is. -/
theorem parseFrom_withoutDelimiter {past : UInt8} {text : Bytes} {i : Nat} {s : ParserState}
    (plain : fixDelimiter ∉ text) :
    ∃ t, parseFrom past text i s = .ok t ∧ s.SameOutput t := by
  -- The look-ahead past the end can only be a `=`, so it delivers nothing either.
  fun_induction parseFrom past text i s with
  | case1 i s => exact ⟨s, rfl, rfl, rfl, rfl⟩
  | case2 iter i s hpair =>
    rw [hpair.2]
    obtain ⟨t, hprocess, hsame⟩ := process_sameOutput s.start fixEquals (i + 1)
      (by decide)
    exact ⟨t, hprocess, (start_sameOutput s).trans hsame⟩
  | case3 iter i s _ _ => exact process_sameOutput s iter i (by simpa [eq_comm] using plain)
  | case4 iter i s _ _ => exact ⟨s, rfl, rfl, rfl, rfl⟩
  | case5 iter next rest i s hpair ih =>
    rw [hpair.2]
    simp only [List.mem_cons, not_or] at plain
    obtain ⟨t, hrest, hsame⟩ := ih s.start.equals plain.2.2
    exact ⟨t, hrest, (start_sameOutput s).trans hsame⟩
  | case6 iter next rest i s _ _ ih =>
    rw [List.mem_cons, not_or] at plain
    obtain ⟨t, hprocess, hfirst⟩ := process_sameOutput s iter i (Ne.symm plain.1)
    obtain ⟨u, hrest, hsecond⟩ := ih t plain.2
    rw [hprocess]
    exact ⟨u, hrest, hfirst.trans hsecond⟩
  | case7 iter next rest i s _ _ ih =>
    rw [List.mem_cons, not_or] at plain
    exact ih plain.2

/-- A part of a field has no delimiter. -/
theorem field_cut {tag : Int} {value text : Bytes} (plain : Plain value)
    (cut : text <+: appendTagStringValue tag value) (missing : text ≠ appendTagStringValue tag value) :
    fixDelimiter ∉ text := by
  have hfront : text <+: intText tag ++ fixEquals :: value := by
    cases List.prefix_concat_iff.mp cut with
    | inl hwhole => exact absurd hwhole missing
    | inr hfront => exact hfront
  intro hmem
  have hnot : fixDelimiter ≠ fixEquals := by decide
  cases List.mem_append.mp (hfront.subset hmem) with
  | inl htag => exact (plain_intText tag).2 htag
  | inr hrest =>
    cases List.mem_cons.mp hrest with
    | inl hequals => exact hnot hequals
    | inr hvalue => exact plain.2 hvalue

/-- Part of the fields of a message delivers nothing. -/
theorem parseFrom_cutFields {past : UInt8} {pairs : List (Int × Bytes)} {checksum text : Bytes}
    {i : Nat} {s : ParserState} (ready : s.Ready) (opens : s.Opens pairs)
    (inRange : ∀ pair ∈ pairs, -2 ^ 31 ≤ pair.1 ∧ pair.1 ≤ 2 ^ 31 - 1)
    (body : ∀ pair ∈ pairs, pair.1 ≠ fixTagBodyChecksum)
    (plain : ∀ pair ∈ pairs, Plain pair.2) (plainSum : Plain checksum)
    (cut : text <+: fieldsText pairs ++ appendTagStringValue fixTagBodyChecksum checksum)
    (missing : text ≠ fieldsText pairs ++ appendTagStringValue fixTagBodyChecksum checksum) :
    ∃ t, parseFrom past text i s = .ok t ∧ s.SameOutput t := by
  induction pairs generalizing s i text with
  | nil => exact parseFrom_withoutDelimiter (field_cut plainSum cut missing)
  | cons pair pairs ih =>
    have hwhole : fieldsText (pair :: pairs) ++ appendTagStringValue fixTagBodyChecksum checksum =
        appendTagStringValue pair.1 pair.2 ++
          (fieldsText pairs ++ appendTagStringValue fixTagBodyChecksum checksum) := by
      simp [fieldsText]
    rw [hwhole] at cut missing
    by_cases hfirst : appendTagStringValue pair.1 pair.2 <+: text
    · -- The first field is whole; what is cut lies behind it.
      obtain ⟨rest, rfl⟩ := hfirst
      have hopens : s.Opens [(pair.1, pair.2)] := by
        rcases opens with hstarted | ⟨value, more, hpairs⟩
        · exact Or.inl hstarted
        · cases hpairs
          exact Or.inr ⟨value, [], rfl⟩
      rw [parseFrom_field past rest (plain pair List.mem_cons_self) ready hopens,
        delimiter_body (inRange pair List.mem_cons_self) (body pair List.mem_cons_self) ready,
        Except.bind]
      exact ih (s := { s with message := s.message.setTag pair.1 pair.2, fixMessageStarted := true })
        ready (Or.inl rfl)
        (fun other hother => inRange other (List.mem_cons_of_mem pair hother))
        (fun other hother => body other (List.mem_cons_of_mem pair hother))
        (fun other hother => plain other (List.mem_cons_of_mem pair hother))
        ((List.prefix_append_right_inj _).mp cut) (fun h => missing (by rw [h]))
    · have hinside : text <+: appendTagStringValue pair.1 pair.2 := by
        cases List.prefix_or_prefix_of_prefix cut (List.prefix_append _ _) with
        | inl hinside => exact hinside
        | inr hover => exact absurd hover hfirst
      apply parseFrom_withoutDelimiter
      apply field_cut (plain pair List.mem_cons_self) hinside
      rintro rfl
      exact hfirst (List.prefix_refl _)

/-- A message that is cut anywhere delivers nothing. -/
theorem parseFrom_cut {past : UInt8} (sent : WireMessage) {text : Bytes} {i : Nat}
    {s : ParserState} (idle : s.Idle) (cut : text <+: sent.wire) (missing : text ≠ sent.wire) :
    ∃ t, parseFrom past text i s = .ok t ∧ s.SameOutput t :=
  parseFrom_cutFields idle.1 (Or.inr ⟨_, _, rfl⟩) (fun _ hpair => (fields_tags sent hpair).1)
    (fun _ hpair => (fields_tags sent hpair).2) (fun _ hpair => sent.fields_plain hpair)
    sent.checksum_plain cut missing

/-- A buffer of whole messages and a part of the next one: the whole ones are delivered,
and the part is what starts at `remainingBytesStartIndex`. A sequence number that is no
`int` ends the call with an exception. -/
theorem parseMultipleMessagesFromBuffer_spec (indeterminate : MessageType) (past : UInt8)
    (sents : List WireMessage) {text : Bytes}
    (cut : text = [] ∨ ∃ sent : WireMessage, text <+: sent.wire ∧ text ≠ sent.wire) :
    if ∀ sent ∈ sents, sent.message.sequenceNumber < 2 ^ 31 then
      ∃ s, parseMultipleMessagesFromBuffer indeterminate
          ((sents.map WireMessage.wire).flatten ++ text) past = .ok s ∧
        s.messages = sents.map WireMessage.received ∧ s.numOfFixMessages = sents.length ∧
        s.remainingBytesStartIndex = (sents.map WireMessage.wire).flatten.length
    else parseMultipleMessagesFromBuffer indeterminate
      ((sents.map WireMessage.wire).flatten ++ text) past = .error .outOfRange := by
  unfold parseMultipleMessagesFromBuffer
  have hidle := initial_idle indeterminate
  obtain ⟨hmessages, hnum, hstart⟩ := deliverAll_output (ParserState.initial indeterminate) sents 0
  have hend := deliverAll_idle hidle sents 0
  rw [parseFrom_wires sents hidle]
  split
  · have hcut : ∃ t, parseFrom past text (0 + (sents.map WireMessage.wire).flatten.length)
        ((ParserState.initial indeterminate).deliverAll sents 0) = .ok t ∧
          ((ParserState.initial indeterminate).deliverAll sents 0).SameOutput t := by
      rcases cut with rfl | ⟨sent, hprefix, hmissing⟩
      · exact ⟨_, rfl, rfl, rfl, rfl⟩
      · exact parseFrom_cut sent hend hprefix hmissing
    obtain ⟨t, hparse, hsame⟩ := hcut
    refine ⟨t, hparse, hsame.1.trans ?_, hsame.2.2.trans ?_, hsame.2.1.trans ?_⟩
    · simpa [ParserState.initial] using hmessages
    · simpa [ParserState.initial] using hnum
    · rw [hstart, Nat.zero_add]
      split
      · rename_i hnil
        simp [hnil, ParserState.initial]
      · rfl
  · rfl

end LiteExchange.Fix
