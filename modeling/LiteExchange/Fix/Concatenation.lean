import LiteExchange.Fix.HostileInput
import LiteExchange.Fix.BufferParser
import LiteExchange.Fix.Header

/-!
# Messages behind one another in a buffer

Source: `FixParser::parseMultipleMessagesFromBuffer` against `FixParser::parseFromBuffer`.
The first one looks for `8=`, reuses one message and ends it at its tag 10; on whole
messages in wire form it does what the second one does on each of them alone, also where
that throws. A message type that was never set cannot show, since each message sets it.
-/

namespace LiteExchange.Fix

open Foundation.Ascii Foundation.Results FixConstants FixMessage ParserState

/-- The fields of a message on the wire: the version comes first and the checksum last. -/
structure WireForm where
  fields : List (Int × Bytes)
  checksum : Bytes
  begins : ∃ version rest, fields = (fixTagVersion, version) :: rest
  typed : ∃ text, (fixTagMessageType, text) ∈ fields
  inRange : ∀ pair ∈ fields, -2 ^ 31 ≤ pair.1 ∧ pair.1 ≤ 2 ^ 31 - 1
  body : ∀ pair ∈ fields, pair.1 ≠ fixTagBodyChecksum
  plain : ∀ pair ∈ fields, Plain pair.2
  plainSum : Plain checksum

namespace WireForm

def allFields (form : WireForm) : List (Int × Bytes) :=
  form.fields ++ [(fixTagBodyChecksum, form.checksum)]

def wire (form : WireForm) : Bytes := fieldsText form.allFields

/-- The message that the fields describe; it throws where its sequence number is no `int`. -/
def decoded (form : WireForm) : Except ConversionError FixMessage :=
  ((construct .none).setTags form.allFields).initialiseHeader

/-- The sequence number that is set last is an `int`. -/
def NumberReadable (form : WireForm) : Prop :=
  ∀ text ∈ lastValue form.allFields fixTagSequenceNumber, Readable text

instance (form : WireForm) : Decidable form.NumberReadable :=
  inferInstanceAs (Decidable (∀ text ∈ lastValue _ _, Readable text))

end WireForm

theorem FixMessage.fields_typed (message : FixMessage) (order : List Int) :
    ∃ text, (fixTagMessageType, text) ∈ message.fields order :=
  ⟨fixMessageTypeString message.messageType, by simp [FixMessage.fields]⟩

/-- What `toString` emits has this form, if the body has no tag 10 and no value a separator. -/
def FixMessage.wireForm (message : FixMessage) (order : List Int)
    (inRange : ∀ tag ∈ order, -2 ^ 31 ≤ tag ∧ tag ≤ 2 ^ 31 - 1)
    (body : fixTagBodyChecksum ∉ order)
    (plainHeader : Plain message.senderCompId ∧ Plain message.sendingTime ∧
      Plain message.targetCompId)
    (plainBody : ∀ tag ∈ order, Plain (message.getTagValue tag)) : WireForm where
  fields := message.fields order
  checksum := calculateCheckSum (fieldsText (message.fields order))
  begins := ⟨_, _, rfl⟩
  typed := message.fields_typed order
  inRange := fun _ hpair => FixMessage.fields_inRange inRange hpair
  body := fun _ hpair => FixMessage.fields_body body hpair
  plain := fun _ hpair => FixMessage.fields_plain plainHeader plainBody hpair
  plainSum := plain_checkSum _

/-! ## One message -/

/-- The type that a message had does not show where its type is set. -/
theorem initialiseHeader_typed {message : FixMessage} (other : MessageType)
    (typed : (message.bodyTagValuePairs fixTagMessageType).isSome = true) :
    { message with messageType := other }.initialiseHeader = message.initialiseHeader := by
  obtain ⟨text, htext⟩ := Option.isSome_iff_exists.mp typed
  have hmoved : { message with messageType := other }.moveTags headerTags =
      message.moveTags headerTags := by
    funext number
    rw [moveTags, moveTags, htext]
    simp [headerTags]
    rfl
  rw [initialiseHeader_eq, initialiseHeader_eq, hmoved]
  rfl

theorem lastValue_isSome {pairs : List (Int × Bytes)} {pair : Int × Bytes} (hmem : pair ∈ pairs) :
    (lastValue pairs pair.1).isSome = true := by
  rw [lastValue, Option.isSome_map, List.find?_isSome]
  exact ⟨pair, List.mem_reverse.mpr hmem, beq_self_eq_true pair.1⟩

namespace WireForm

theorem initialiseHeader_form (form : WireForm) (indeterminate : MessageType) :
    ((construct indeterminate).setTags form.allFields).initialiseHeader = form.decoded := by
  have hmap : ((construct indeterminate).setTags form.allFields).bodyTagValuePairs =
      ((construct .none).setTags form.allFields).bodyTagValuePairs := by
    funext tag
    rw [setTags_lookup, setTags_lookup]
    rfl
  have htyped : (((construct .none).setTags form.allFields).bodyTagValuePairs
      fixTagMessageType).isSome = true := by
    obtain ⟨text, hmem⟩ := form.typed
    have hlast := lastValue_isSome (List.mem_append_left [(fixTagBodyChecksum, form.checksum)] hmem)
    rw [setTags_lookup, Option.isSome_or]
    exact Bool.or_eq_true_iff.mpr (Or.inl hlast)
  rw [decoded, ← initialiseHeader_typed indeterminate htyped, setTags_members, hmap,
    setTags_members (construct .none)]
  rfl

theorem decoded_isOk (form : WireForm) : form.decoded.isOk = true ↔ form.NumberReadable := by
  rw [decoded, initialiseHeader_isOk, setTags_lookup]
  simp [NumberReadable, construct]

theorem allFields_inRange (form : WireForm) :
    ∀ pair ∈ form.allFields, -2 ^ 31 ≤ pair.1 ∧ pair.1 ≤ 2 ^ 31 - 1 := by
  intro pair hpair
  cases List.mem_append.mp hpair with
  | inl hfront => exact form.inRange pair hfront
  | inr hlast =>
    rw [List.mem_singleton.mp hlast]
    exact ⟨by simp, by simp⟩

theorem allFields_plain (form : WireForm) : ∀ pair ∈ form.allFields, Plain pair.2 := by
  intro pair hpair
  cases List.mem_append.mp hpair with
  | inl hfront => exact form.plain pair hfront
  | inr hlast =>
    rw [List.mem_singleton.mp hlast]
    exact form.plainSum

/-- The plain parser on the message alone. -/
theorem parseFromBuffer_wire (form : WireForm) (indeterminate : MessageType) :
    parseFromBuffer (construct indeterminate) form.wire = form.decoded := by
  rw [parseFromBuffer, wire, foldlM_step_fields _ _ form.allFields_inRange form.allFields_plain]
  exact form.initialiseHeader_form indeterminate

theorem wire_eq (form : WireForm) : form.wire =
    fieldsText form.fields ++ appendTagStringValue fixTagBodyChecksum form.checksum := by
  simp [wire, allFields, fieldsText]

end WireForm

/-! ## One message after the other -/

/-- Between two messages, the message to fill being as good as new. -/
def ParserState.Fresh (s : ParserState) : Prop :=
  s.Ready ∧ ∃ indeterminate, s.message = construct indeterminate

theorem initial_fresh (indeterminate : MessageType) :
    (ParserState.initial indeterminate).Fresh := ⟨⟨rfl, rfl, rfl, rfl⟩, indeterminate, rfl⟩

theorem deliver_fresh (s : ParserState) (message : FixMessage) (i : Nat) :
    (s.deliver message i).Fresh := ⟨⟨rfl, rfl, rfl, rfl⟩, .none, rfl⟩

/-- A whole message in a buffer gives what it gives alone, and nothing of it stays behind. -/
theorem parseFrom_form {past : UInt8} (form : WireForm) {rest : Bytes} {i : Nat} {s : ParserState}
    (fresh : s.Fresh) :
    parseFrom past (form.wire ++ rest) i s = form.decoded.bind fun message =>
      parseFrom past rest (i + form.wire.length) (s.deliver message (i + form.wire.length)) := by
  obtain ⟨ready, indeterminate, hmessage⟩ := fresh
  obtain ⟨version, more, hbegins⟩ := form.begins
  have hopens : s.Opens form.fields := Or.inr ⟨version, more, hbegins⟩
  have hstarted : (s.read form.fields).fixMessageStarted = true := by
    simp [ParserState.read, hbegins]
  have hlength : i + form.wire.length - 1 + 1 = i + form.wire.length := by
    simp [form.wire_eq, appendTagStringValue]
    omega
  have hheader : ((s.read form.fields).message.setTag fixTagBodyChecksum
      form.checksum).initialiseHeader = form.decoded := by
    rw [← form.initialiseHeader_form indeterminate, ← hmessage, WireForm.allFields, setTags_append]
    rfl
  rw [form.wire_eq, List.append_assoc, parseFrom_fields ready hopens form.inRange form.body
    form.plain, parseFrom_field past rest (s := s.read form.fields) form.plainSum ready
    (Or.inl hstarted), delimiter_last, hheader, Nat.add_assoc, ← List.length_append,
    ← form.wire_eq, hlength]
  cases form.decoded with
  | error e => rfl
  | ok message => rfl

/-- The wire forms behind one another. -/
def WireForm.wires (forms : List WireForm) : Bytes := (forms.map WireForm.wire).flatten

theorem wires_cons (form : WireForm) (forms : List WireForm) :
    WireForm.wires (form :: forms) = form.wire ++ WireForm.wires forms := by
  simp [WireForm.wires]

/-- Where each message alone is parsed, the call has parsed all of them. -/
theorem parseFrom_wires_decoded {past : UInt8} {forms : List WireForm} {messages : List FixMessage}
    {rest : Bytes} {i : Nat} {s : ParserState} (fresh : s.Fresh)
    (decoded : forms.mapM WireForm.decoded = .ok messages) :
    ∃ t, parseFrom past (WireForm.wires forms ++ rest) i s =
        parseFrom past rest (i + (WireForm.wires forms).length) t ∧
      t.Fresh ∧ t.messages = s.messages ++ messages ∧
      t.numOfFixMessages = s.numOfFixMessages + forms.length ∧
      t.remainingBytesStartIndex = if forms = [] then s.remainingBytesStartIndex
        else i + (WireForm.wires forms).length := by
  induction forms generalizing s i messages with
  | nil =>
    cases decoded
    exact ⟨s, rfl, fresh, by simp, by simp, by simp⟩
  | cons form forms ih =>
    rw [List.mapM_cons] at decoded
    obtain ⟨message, hdecoded, decoded⟩ := bind_eq_ok.mp decoded
    obtain ⟨others, hothers, decoded⟩ := bind_eq_ok.mp decoded
    cases decoded
    have hfresh := deliver_fresh s message (i + form.wire.length)
    obtain ⟨t, hparse, htfresh, hmessages, hnum, hstart⟩ := ih hfresh hothers
    have hlength : i + (WireForm.wires (form :: forms)).length =
        i + form.wire.length + (WireForm.wires forms).length := by
      rw [wires_cons, List.length_append, Nat.add_assoc]
    refine ⟨t, ?_, htfresh, ?_, ?_, ?_⟩
    · rw [wires_cons, List.append_assoc, parseFrom_form form fresh, hdecoded, Except.bind,
        hparse, List.length_append, Nat.add_assoc]
    · rw [hmessages]
      simp [ParserState.deliver]
    · rw [hnum, List.length_cons]
      simp only [ParserState.deliver]
      omega
    · rw [hstart, hlength, if_neg (List.cons_ne_nil form forms)]
      split
      · rename_i hnil
        simp [hnil, WireForm.wires, ParserState.deliver]
      · rfl

/-- Where a message alone throws, so does the call. -/
theorem parseFrom_wires_throws {past : UInt8} {forms : List WireForm} {e : ConversionError}
    {rest : Bytes} {i : Nat} {s : ParserState} (fresh : s.Fresh)
    (throws : forms.mapM WireForm.decoded = .error e) :
    parseFrom past (WireForm.wires forms ++ rest) i s = .error e := by
  induction forms generalizing s i with
  | nil => cases throws
  | cons form forms ih =>
    rw [List.mapM_cons] at throws
    rw [wires_cons, List.append_assoc, parseFrom_form form fresh]
    cases hdecoded : form.decoded with
    | error e =>
      rw [hdecoded] at throws
      cases throws
      rfl
    | ok message =>
      cases hothers : forms.mapM WireForm.decoded with
      | error e =>
        rw [hdecoded, hothers] at throws
        cases throws
        exact ih (deliver_fresh s message (i + form.wire.length)) hothers
      | ok others =>
        rw [hdecoded, hothers] at throws
        cases throws

/-- All messages are parsed if and only if each of them is. -/
theorem mapM_decoded_isOk (forms : List WireForm) :
    (forms.mapM WireForm.decoded).isOk = true ↔ ∀ form ∈ forms, form.NumberReadable := by
  induction forms with
  | nil => simp [pure, Except.pure, Except.isOk, Except.toBool]
  | cons form forms ih =>
    rw [List.forall_mem_cons, ← ih, ← form.decoded_isOk, List.mapM_cons]
    cases form.decoded with
    | error e => simp [bind, Except.bind, Except.isOk, Except.toBool]
    | ok message =>
      cases forms.mapM WireForm.decoded with
      | error e => simp [bind, Except.bind, Except.isOk, Except.toBool]
      | ok others => simp [bind, Except.bind, pure, Except.pure, Except.isOk, Except.toBool]

/-- One call on a buffer of messages and a part of a further one: it returns the number of
messages, those that the plain parser makes of each of them alone, and where the part starts,
if and only if all sequence numbers can be read. -/
theorem parseMultipleMessagesFromBuffer_iff (called : MessageType) (alone : WireForm → MessageType)
    (past : UInt8) (forms : List WireForm) {text : Bytes} {next : WireForm}
    (cut : text <+: next.wire) (proper : text ≠ next.wire) :
    (∃ s, parseMultipleMessagesFromBuffer called (WireForm.wires forms ++ text) past = .ok s ∧
        s.numOfFixMessages = forms.length ∧
        forms.mapM (fun form => parseFromBuffer (construct (alone form)) form.wire) =
          .ok s.messages ∧
        (forms ≠ [] → s.remainingBytesStartIndex = (WireForm.wires forms).length)) ↔
      ∀ form ∈ forms, form.NumberReadable := by
  have halone : (fun form : WireForm => parseFromBuffer (construct (alone form)) form.wire) =
      WireForm.decoded := by
    funext form
    exact form.parseFromBuffer_wire (alone form)
  rw [halone, ← mapM_decoded_isOk, parseMultipleMessagesFromBuffer]
  cases hdecoded : forms.mapM WireForm.decoded with
  | error e =>
    rw [parseFrom_wires_throws (initial_fresh called) hdecoded]
    simp [Except.isOk, Except.toBool]
  | ok messages =>
    obtain ⟨t, hparse, ⟨hready, _⟩, hmessages, hnum, hstart⟩ :=
      parseFrom_wires_decoded (initial_fresh called) hdecoded
    obtain ⟨version, more, hbegins⟩ := next.begins
    have hrest : ∃ u, parseFrom past text (0 + (WireForm.wires forms).length) t = .ok u ∧
        t.SameOutput u := by
      rw [next.wire_eq] at cut proper
      exact parseFrom_cutFields hready (Or.inr ⟨version, more, hbegins⟩) next.inRange next.body
        next.plain next.plainSum cut proper
    obtain ⟨u, hcut, hsame⟩ := hrest
    refine iff_of_true ⟨u, hparse.trans hcut, ?_, ?_, ?_⟩ rfl
    · rw [hsame.2.2, hnum]
      simp [ParserState.initial]
    · rw [hsame.1, hmessages]
      simp [ParserState.initial]
    · intro hsome
      rw [hsame.2.1, hstart, if_neg hsome, Nat.zero_add]

/-- A logon whose body tags end in `8`. -/
def logonAnswer (sequenceNumber : Nat) : FixMessage where
  fixVersion := .fix42
  sequenceNumber := sequenceNumber
  messageType := .logon
  senderCompId := ascii "SERVER"
  targetCompId := ascii "CLIENT1"
  sendingTime := []
  bodyTagValuePairs := fun tag =>
    if tag = fixTagHearbeatInterval then some (ascii "108")
    else if tag = fixTagEncryptMethod then some (ascii "98")
    else none

def logonForm (sequenceNumber : Nat) : WireForm :=
  have plainHeader : Plain (ascii "SERVER") ∧ Plain [] ∧ Plain (ascii "CLIENT1") := by
    unfold Plain
    decide
  have plainBody : ∀ tag ∈ [fixTagHearbeatInterval, fixTagEncryptMethod],
      Plain ((logonAnswer 1).getTagValue tag) := by
    unfold Plain
    decide
  (logonAnswer sequenceNumber).wireForm [fixTagHearbeatInterval, fixTagEncryptMethod] (by decide)
    (by decide) plainHeader plainBody

/-- Two of them and the first byte of a third, behind which a `=` happens to lie. -/
theorem parseMultipleMessagesFromBuffer_logons :
    ∃ s, parseMultipleMessagesFromBuffer .none
        (WireForm.wires [logonForm 1, logonForm 2] ++ [56]) fixEquals = .ok s ∧
      s.numOfFixMessages = 2 ∧
      s.remainingBytesStartIndex = (WireForm.wires [logonForm 1, logonForm 2]).length := by
  have hcut : [56] <+: (logonForm 3).wire := ⟨(logonForm 3).wire.tail, by decide +kernel⟩
  have hproper : [56] ≠ (logonForm 3).wire := by decide +kernel
  have hreadable : ∀ form ∈ [logonForm 1, logonForm 2], form.NumberReadable := by decide +kernel
  obtain ⟨s, hparse, hnum, _, hstart⟩ := (parseMultipleMessagesFromBuffer_iff .none
    (fun _ => .logon) fixEquals [logonForm 1, logonForm 2] hcut hproper).mpr hreadable
  exact ⟨s, hparse, hnum, hstart (by simp)⟩

/-- The number after the largest `int`, which `toString` prints. -/
theorem parseMultipleMessagesFromBuffer_throws :
    (parseMultipleMessagesFromBuffer .none
      ((logonAnswer (2 ^ 31)).toString [fixTagHearbeatInterval, fixTagEncryptMethod]) 0).isOk =
        false := by
  decide +kernel

end LiteExchange.Fix
