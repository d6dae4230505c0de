import LiteExchange.Fix.ReceiveCache
import Mathlib.Data.List.Infix

/-!
# The stream parser on arbitrary bytes

The buffer is cut at the delimiters. Outside a message a field is skipped, unless `8=`
occurs in it; inside a message the text in front of its first `=` is read as a number,
and the field that ends a message has the number of its tag 34 read. Everything behind
the last delimiter waits for the next call.
-/

namespace LiteExchange.Fix

open Foundation.Ascii Foundation.Results FixConstants FixMessage ParserState

/-- What one round of the loop reads, from index `i` on. -/
def inspectedAt (iter : UInt8) (i : Nat) : List Nat := if iter = 56 then [i, i + 1] else [i]

/-- The indexes at which the loop reads the buffer, in order; an exception ends them. -/
def inspectedFrom (past : UInt8) : Bytes → Nat → ParserState → List Nat
  | [], _, _ => []
  | [iter], i, _ => inspectedAt iter i
  | iter :: next :: rest, i, s =>
    inspectedAt iter i ++
      if iter = 56 ∧ next = fixEquals then
        match s.start.process next (i + 1) with
        | .ok s => inspectedFrom past rest (i + 2) s
        | .error _ => []
      else if s.fixMessageStarted then
        match s.process iter i with
        | .ok s => inspectedFrom past (next :: rest) (i + 1) s
        | .error _ => []
      else inspectedFrom past (next :: rest) (i + 1) s

def inspected (indeterminate : MessageType) (buffer : Bytes) (past : UInt8) : List Nat :=
  inspectedFrom past buffer 0 (ParserState.initial indeterminate)

/-- The call returns, and neither what it reads nor what it leaves lies outside the buffer. -/
def ParsesSafely (indeterminate : MessageType) (buffer : Bytes) (past : UInt8) : Prop :=
  (∀ index ∈ inspected indeterminate buffer past, index < buffer.length) ∧
    ∃ s, parseMultipleMessagesFromBuffer indeterminate buffer past = .ok s ∧
      s.remainingBytesStartIndex ≤ buffer.length

/-! ## Fields of an arbitrary buffer -/

def fieldTag (field : Bytes) : Bytes := field.takeWhile (· != fixEquals)

/-- A second `=` of a field is dropped. -/
def fieldValue (field : Bytes) : Bytes :=
  (field.dropWhile (· != fixEquals)).filter (· != fixEquals)

/-- Only a field with the tag `10` as written, and a `=`, ends a message. -/
def EndsMessage (field : Bytes) : Prop := fixEquals ∈ field ∧ fieldTag field = [49, 48]

instance (field : Bytes) : Decidable (EndsMessage field) :=
  inferInstanceAs (Decidable (_ ∧ _))

def Readable (text : Bytes) : Prop := (stoi text).isOk = true

instance (text : Bytes) : Decidable (Readable text) := inferInstanceAs (Decidable (_ = _))

/-- Every number that these fields make the parser read is an `int`. Inside a message the
value last given to the tag 34 is kept, if there was one. -/
def FieldsReadable : Option (Option Bytes) → List Bytes → Prop
  | _, [] => True
  | none, field :: fields =>
    if [56, fixEquals] <:+: field then FieldsReadable (some none) fields
    else FieldsReadable none fields
  | some number, field :: fields =>
    match stoi (fieldTag field) with
    | .error _ => False
    | .ok tag =>
      let number := if tag = fixTagSequenceNumber then some (fieldValue field) else number
      if EndsMessage field then (∀ text ∈ number, Readable text) ∧ FieldsReadable none fields
      else FieldsReadable (some number) fields

/-- The fields of a buffer that a delimiter ends. -/
def endedFields (buffer : Bytes) : List Bytes := (buffer.splitOn fixDelimiter).dropLast

theorem endedFields_of_not_mem {buffer : Bytes} (plain : fixDelimiter ∉ buffer) :
    endedFields buffer = [] := by
  rw [endedFields, List.splitOn_eq_singleton plain]
  rfl

theorem endedFields_append {field : Bytes} (rest : Bytes) (plain : fixDelimiter ∉ field) :
    endedFields (field ++ fixDelimiter :: rest) = field :: endedFields rest := by
  rw [endedFields, List.splitOn_append_cons_self_of_not_mem plain, endedFields,
    List.dropLast_cons_of_ne_nil (List.splitOn_ne_nil _ _)]

/-! ## What the loop does with one field -/

/-- A byte of a started message that is no delimiter. -/
def ParserState.take (s : ParserState) (iter : UInt8) : ParserState :=
  if iter = fixEquals then s.equals else s.push iter

theorem take_started {s : ParserState} (iter : UInt8) :
    (s.take iter).fixMessageStarted = s.fixMessageStarted := by
  unfold take
  split
  · rfl
  · exact push_started

theorem process_take {iter : UInt8} (s : ParserState) (i : Nat) (plain : iter ≠ fixDelimiter) :
    s.process iter i = .ok (s.take iter) := by
  unfold process take
  rw [if_neg plain]
  split
  · rfl
  · rfl

theorem parseFrom_take {past : UInt8} {text rest : Bytes} {i : Nat} {s : ParserState}
    (plain : fixDelimiter ∉ text) (started : s.fixMessageStarted = true) (ahead : rest ≠ []) :
    parseFrom past (text ++ rest) i s =
      parseFrom past rest (i + text.length) (text.foldl take s) := by
  induction text generalizing s i with
  | nil => rfl
  | cons b text ih =>
    rw [List.mem_cons, not_or] at plain
    rw [List.cons_append, parseFrom_started started (Or.inr (by simp [ahead])),
      process_take s i (Ne.symm plain.1)]
    have hrest := ih (i := i + 1) plain.2 ((take_started b).trans started)
    rw [Except.bind, hrest, List.foldl_cons, List.length_cons]
    congr 1
    omega

/-- Once the value has begun, only bytes other than `=` change anything. -/
theorem foldl_take_value {s : ParserState} (text : Bytes) (begun : s.equals = s) :
    text.foldl take s = { s with value := s.value ++ text.filter (· != fixEquals) } := by
  have htarget : s.targetIsValue = true := by
    rw [← begun]
    rfl
  induction text generalizing s with
  | nil => simp
  | cons b text ih =>
    by_cases hb : b = fixEquals
    · rw [List.foldl_cons, take, if_pos hb, begun, ih begun htarget]
      simp [hb]
    · have hpush : s.take b = { s with value := s.value ++ [b] } := by
        rw [take, if_neg hb, push, if_pos htarget]
      have hbegun : ({ s with value := s.value ++ [b] } : ParserState).equals =
          { s with value := s.value ++ [b] } := by
        have hlast := congrArg ParserState.lastTagOfMessage begun
        simp only [equals] at hlast ⊢
        rw [hlast, htarget]
      have hkeep : (b != fixEquals) = true := bne_iff_ne.mpr hb
      rw [List.foldl_cons, hpush, ih hbegun htarget, List.filter_cons, if_pos hkeep]
      simp only [List.append_assoc, List.singleton_append]

/-- The state in front of the delimiter that ends a field. -/
def ParserState.atField (s : ParserState) (field : Bytes) : ParserState :=
  { s with
    tag := fieldTag field
    value := fieldValue field
    targetIsValue := decide (fixEquals ∈ field)
    lastTagOfMessage := decide (EndsMessage field) }

theorem fieldTag_append {front : Bytes} (back : Bytes) (absent : fixEquals ∉ front) :
    fieldTag (front ++ fixEquals :: back) = front ∧
      fieldValue (front ++ fixEquals :: back) = back.filter (· != fixEquals) := by
  have hfront : ∀ b ∈ front, (b != fixEquals) = true := by
    intro b hb
    exact bne_iff_ne.mpr fun h => absent (h ▸ hb)
  constructor
  · rw [fieldTag, List.takeWhile_append_of_pos hfront]
    simp
  · rw [fieldValue, List.dropWhile_append_of_pos hfront]
    simp

theorem fieldTag_of_not_mem {field : Bytes} (absent : fixEquals ∉ field) :
    fieldTag field = field ∧ fieldValue field = [] := by
  have hall : ∀ b ∈ field, (b != fixEquals) = true := by
    intro b hb
    exact bne_iff_ne.mpr fun h => absent (h ▸ hb)
  constructor
  · exact List.takeWhile_eq_self_iff.mpr hall
  · rw [fieldValue, List.dropWhile_eq_nil_iff.mpr hall]
    rfl

/-- In front of the first `=` the bytes belong to the tag. -/
theorem foldl_take_tag {s : ParserState} {text : Bytes} (ready : s.Ready)
    (absent : fixEquals ∉ text) : text.foldl take s = { s with tag := text } := by
  obtain ⟨htag, _, htarget, _⟩ := ready
  have hpush : text.foldl take s = text.foldl push s := by
    apply List.foldl_ext
    intro t b hb
    have hb' : b ≠ fixEquals := fun h => absent (h ▸ hb)
    exact if_neg hb'
  rw [hpush, foldl_push_tag htarget, htag, List.nil_append]

theorem foldl_take_field {s : ParserState} (field : Bytes) (ready : s.Ready) :
    field.foldl take s = s.atField field := by
  by_cases hmem : fixEquals ∈ field
  · obtain ⟨front, back, rfl, habsent⟩ := List.eq_append_cons_of_mem hmem
    obtain ⟨htag, hvalue⟩ := fieldTag_append back habsent
    rw [List.foldl_append, foldl_take_tag ready habsent, List.foldl_cons, take, if_pos rfl,
      foldl_take_value back (by simp [equals])]
    obtain ⟨_, hempty, _, hlast⟩ := ready
    simp [-fixEquals, atField, equals, EndsMessage, htag, hvalue, hempty, hlast,
      Bool.beq_eq_decide_eq]
  · obtain ⟨htag, hvalue⟩ := fieldTag_of_not_mem hmem
    rw [foldl_take_tag ready hmem]
    obtain ⟨_, hempty, htarget, hlast⟩ := ready
    simp [-fixEquals, atField, EndsMessage, htag, hvalue, hempty, htarget, hlast, hmem]

/-- The state in front of the delimiter of a field in which a message starts. -/
def ParserState.atVersion (s : ParserState) (value : Bytes) : ParserState :=
  { s with
    tag := [56]
    value := value
    targetIsValue := true
    fixMessageStarted := true }

/-- Outside a message only `8=` has an effect. -/
theorem parseFrom_skip {past iter : UInt8} {rest : Bytes} {i : Nat} {s : ParserState}
    (stopped : s.fixMessageStarted = false)
    (noStart : ¬ [56, fixEquals] <+: iter :: (rest ++ [past])) :
    parseFrom past (iter :: rest) i s = parseFrom past rest (i + 1) s := by
  cases rest with
  | nil =>
    have hpair : ¬ (iter = 56 ∧ past = fixEquals) := by
      rintro ⟨rfl, rfl⟩
      exact noStart (List.prefix_refl _)
    simp only [parseFrom, hpair, stopped, Bool.false_eq_true, if_false]
  | cons next rest =>
    have hpair : ¬ (iter = 56 ∧ next = fixEquals) := by
      rintro ⟨rfl, rfl⟩
      exact noStart ⟨rest ++ [past], rfl⟩
    rw [parseFrom, if_neg hpair, stopped]
    rfl

/-- Outside a message a field is skipped, unless a message starts in it. -/
theorem parseFrom_outside (past : UInt8) {field : Bytes} (rest : Bytes) (i : Nat) {s : ParserState}
    (plain : fixDelimiter ∉ field) (stopped : s.fixMessageStarted = false) (ready : s.Ready) :
    if [56, fixEquals] <:+: field then
      ∃ value, parseFrom past (field ++ fixDelimiter :: rest) i s =
        parseFrom past (fixDelimiter :: rest) (i + field.length) (s.atVersion value)
    else parseFrom past (field ++ fixDelimiter :: rest) i s =
      parseFrom past (fixDelimiter :: rest) (i + field.length) s := by
  induction field generalizing i with
  | nil => simp
  | cons b field ih =>
    have hplain := plain
    rw [List.mem_cons, not_or] at hplain
    by_cases hstart : [56, fixEquals] <+: b :: field
    · obtain ⟨text, htext⟩ := hstart
      rw [if_pos ⟨[], text, htext⟩, ← htext]
      have htextPlain : fixDelimiter ∉ text := by
        intro h
        rw [← htext] at plain
        exact plain (List.mem_append_right _ h)
      obtain ⟨htag, hvalue, htarget, hlast⟩ := ready
      have hbegin : s.start.equals = s.atVersion [] := by
        simp [ParserState.start, push, equals, atVersion, htag, hvalue, htarget, hlast]
      refine ⟨text.filter (· != fixEquals), ?_⟩
      have hread : parseFrom past (56 :: fixEquals :: (text ++ fixDelimiter :: rest)) i s =
          parseFrom past (fixDelimiter :: rest) (i + 1 + 1 + text.length)
            (text.foldl take (s.atVersion [])) := by
        rw [parseFrom_start, parseFrom_equals rfl, hbegin, parseFrom_take htextPlain rfl (by simp)]
      rw [foldl_take_value text (by simp [equals, atVersion])] at hread
      simp only [List.cons_append, List.nil_append, List.length_cons]
      rw [hread]
      congr 1
      omega
    · have hoccurs : [56, fixEquals] <:+: b :: field ↔ [56, fixEquals] <:+: field := by
        rw [List.infix_cons_iff]
        exact or_iff_right hstart
      have hnoStart : ¬ [56, fixEquals] <+: b :: (field ++ fixDelimiter :: rest ++ [past]) := by
        cases field with
        | nil => simp
        | cons c field =>
          intro hprefix
          simp only [List.cons_append, List.cons_prefix_cons, List.nil_prefix] at hprefix hstart
          exact hstart hprefix
      rw [List.cons_append, parseFrom_skip stopped hnoStart]
      have hrest := ih (i + 1) hplain.2
      simp only [hoccurs, List.length_cons]
      rw [Nat.add_comm field.length 1, ← Nat.add_assoc]
      exact hrest

/-- What the fields behind this state find: no message, or one with this sequence number. -/
def ParserState.Awaits (s : ParserState) : Option (Option Bytes) → Prop
  | none => s.Ready ∧ s.fixMessageStarted = false ∧ s.message.bodyTagValuePairs = fun _ => none
  | some number => s.Ready ∧ s.fixMessageStarted = true ∧
      s.message.bodyTagValuePairs fixTagSequenceNumber = number

theorem initial_awaits (indeterminate : MessageType) :
    (ParserState.initial indeterminate).Awaits none := ⟨⟨rfl, rfl, rfl, rfl⟩, rfl, rfl⟩

/-- Reading the header can only fail at the sequence number. -/
theorem initialiseHeader_isOk (message : FixMessage) :
    message.initialiseHeader.isOk = true ↔
      ∀ text ∈ message.bodyTagValuePairs fixTagSequenceNumber, Readable text := by
  have hkept : ∀ (tag : Int) (start : FixMessage), tag ≠ fixTagSequenceNumber →
      (start.removeTag tag).bodyTagValuePairs fixTagSequenceNumber =
        start.bodyTagValuePairs fixTagSequenceNumber := fun tag start htag => if_neg htag.symm
  unfold initialiseHeader
  extract_lets version messageType rest
  have hversion : version.bodyTagValuePairs fixTagSequenceNumber =
      message.bodyTagValuePairs fixTagSequenceNumber := by
    unfold version
    split
    · exact hkept _ _ (by decide)
    · rfl
  have htype : messageType.bodyTagValuePairs fixTagSequenceNumber =
      version.bodyTagValuePairs fixTagSequenceNumber := by
    unfold messageType
    split
    · exact hkept _ _ (by decide)
    · rfl
  rw [← hversion, ← htype]
  unfold hasTag getTagValueAsInt getTagValue Readable
  cases messageType.bodyTagValuePairs fixTagSequenceNumber with
  | none => simp [rest, Except.isOk, Except.toBool, bind, Except.bind, pure, Except.pure]
  | some text =>
    cases hread : stoi text with
    | error e => simp [hread, Except.isOk, Except.toBool, bind, Except.bind]
    | ok number =>
      simp [hread, rest, Except.isOk, Except.toBool, bind, Except.bind, pure, Except.pure]

/-- The field in which a message starts always sets its version. -/
theorem delimiter_atVersion {s : ParserState} (value : Bytes) (i : Nat) (awaits : s.Awaits none) :
    ∃ t, (s.atVersion value).delimiter i = .ok t ∧ t.Awaits (some none) := by
  obtain ⟨⟨htag, hvalue, htarget, hlast⟩, hstopped, hfresh⟩ := awaits
  have hread : stoi [56] = .ok 8 := rfl
  have hdelimiter : (s.atVersion value).delimiter i =
      .ok { s with message := s.message.setTag 8 value, fixMessageStarted := true } := by
    simp only [ParserState.delimiter, atVersion, hread]
    simp [bind, Except.bind, pure, Except.pure, htag, hvalue, htarget, hlast]
  refine ⟨_, hdelimiter, ⟨htag, hvalue, htarget, hlast⟩, rfl, ?_⟩
  simp [setTag, hfresh]

/-- A field of a message whose tag is no `int` ends the call. -/
theorem delimiter_unreadable {s : ParserState} {field : Bytes} {e : ConversionError} (i : Nat)
    (unreadable : stoi (fieldTag field) = .error e) :
    (s.atField field).delimiter i = .error e := by
  simp only [ParserState.delimiter, atField, unreadable]
  rfl

/-- A field in the middle of a message. -/
theorem delimiter_continues {s : ParserState} {number : Option Bytes} {field : Bytes} {tag : Int}
    (i : Nat) (awaits : s.Awaits (some number)) (readable : stoi (fieldTag field) = .ok tag)
    (continues : ¬ EndsMessage field) :
    ∃ t, (s.atField field).delimiter i = .ok t ∧
      t.Awaits (some (if tag = fixTagSequenceNumber then some (fieldValue field) else number)) := by
  obtain ⟨⟨htag, hvalue, htarget, hlast⟩, hstarted, hnumber⟩ := awaits
  have hdelimiter : (s.atField field).delimiter i =
      .ok { s with message := s.message.setTag tag (fieldValue field) } := by
    simp only [ParserState.delimiter, atField, readable, continues]
    simp [bind, Except.bind, pure, Except.pure, htag, hvalue, htarget, hlast]
  refine ⟨_, hdelimiter, ⟨htag, hvalue, htarget, hlast⟩, hstarted, ?_⟩
  simp only [setTag, hnumber, eq_comm]

/-- The field that ends a message. -/
theorem delimiter_ends {s : ParserState} {number : Option Bytes} {field : Bytes} (i : Nat)
    (awaits : s.Awaits (some number)) (ends : EndsMessage field) :
    if ∀ text ∈ number, Readable text then
      ∃ t, (s.atField field).delimiter i = .ok t ∧ t.Awaits none
    else ((s.atField field).delimiter i).isOk = false := by
  obtain ⟨hready, hstarted, hnumber⟩ := awaits
  have hread : stoi (fieldTag field) = .ok 10 := by
    rw [ends.2]
    rfl
  have hheader := initialiseHeader_isOk (s.message.setTag 10 (fieldValue field))
  have hkept : (s.message.setTag 10 (fieldValue field)).bodyTagValuePairs fixTagSequenceNumber =
      number := by
    have hother : fixTagSequenceNumber ≠ 10 := by decide
    simp only [setTag, hother, if_false, hnumber]
  rw [hkept] at hheader
  simp only [ParserState.delimiter, atField, hread, ends, bind, Except.bind, decide_true, if_true]
  generalize (s.message.setTag 10 (fieldValue field)).initialiseHeader = result at hheader ⊢
  cases result with
  | error e =>
    have hnot : ¬ ∀ text ∈ number, Readable text := fun h => Bool.noConfusion (hheader.mpr h)
    rw [if_neg hnot]
    rfl
  | ok message =>
    rw [if_pos (hheader.mp rfl)]
    exact ⟨_, rfl, ⟨rfl, rfl, rfl, rfl⟩, rfl, rfl⟩

/-! ## The whole buffer -/

theorem isOk_bind {α β : Type} {result : Except ConversionError α}
    {next : α → Except ConversionError β} {value : α} (returns : result = .ok value) :
    (result.bind next).isOk = (next value).isOk := by
  rw [returns]
  rfl

/-- The call returns if and only if every number it is made to read is an `int`. -/
theorem parseFrom_isOk (past : UInt8) (buffer : Bytes) (i : Nat) {s : ParserState}
    {state : Option (Option Bytes)} (awaits : s.Awaits state) :
    (parseFrom past buffer i s).isOk = true ↔ FieldsReadable state (endedFields buffer) := by
  induction hlength : buffer.length using Nat.strong_induction_on generalizing buffer i s state with
  | _ length ih =>
  by_cases hmem : fixDelimiter ∈ buffer
  · obtain ⟨field, rest, rfl, hplain⟩ := List.eq_append_cons_of_mem hmem
    have hrest : ∀ (j : Nat) {t : ParserState} {next : Option (Option Bytes)}, t.Awaits next →
        ((parseFrom past rest j t).isOk = true ↔ FieldsReadable next (endedFields rest)) := by
      intro j t next hawaits
      exact ih rest.length (by simp at hlength; omega) rest j hawaits rfl
    rw [endedFields_append rest hplain]
    cases state with
    | none =>
      have houtside := parseFrom_outside past rest i hplain awaits.2.1 awaits.1
      rw [FieldsReadable]
      split at houtside
      · rename_i hstart
        obtain ⟨value, hparse⟩ := houtside
        obtain ⟨t, hdelimiter, hawaits⟩ := delimiter_atVersion value (i + field.length) awaits
        rw [if_pos hstart, hparse, parseFrom_delimiter rfl, isOk_bind hdelimiter]
        exact hrest _ hawaits
      · rename_i hstart
        rw [if_neg hstart, houtside, parseFrom_skip awaits.2.1 (by simp)]
        exact hrest _ awaits
    | some number =>
      have hfield : parseFrom past (field ++ fixDelimiter :: rest) i s =
          ((s.atField field).delimiter (i + field.length)).bind
            fun s => parseFrom past rest (i + field.length + 1) s := by
        rw [parseFrom_take hplain awaits.2.1 (by simp), foldl_take_field field awaits.1,
          parseFrom_delimiter (s := s.atField field) awaits.2.1]
      rw [hfield, FieldsReadable]
      cases hread : stoi (fieldTag field) with
      | error e =>
        rw [delimiter_unreadable _ hread]
        exact iff_of_false Bool.noConfusion id
      | ok tag =>
        simp only
        by_cases hends : EndsMessage field
        · have hlast := delimiter_ends (i + field.length) awaits hends
          have hother : tag ≠ fixTagSequenceNumber := by
            rw [hends.2] at hread
            cases hread
            decide
          rw [if_pos hends, if_neg hother]
          split at hlast
          · rename_i hheader
            obtain ⟨t, hdelimiter, hawaits⟩ := hlast
            rw [isOk_bind hdelimiter, hrest _ hawaits]
            exact (and_iff_right hheader).symm
          · rename_i hheader
            cases hdelimiter : (s.atField field).delimiter (i + field.length) with
            | error e => exact iff_of_false Bool.noConfusion fun h => hheader h.1
            | ok t =>
              rw [hdelimiter] at hlast
              cases hlast
        · obtain ⟨t, hdelimiter, hawaits⟩ :=
            delimiter_continues (i + field.length) awaits hread hends
          rw [if_neg hends, isOk_bind hdelimiter]
          exact hrest _ hawaits
  · have hparse : ∃ t, parseFrom past buffer i s = .ok t ∧ s.SameOutput t :=
      parseFrom_withoutDelimiter hmem
    obtain ⟨t, hparse, _⟩ := hparse
    rw [endedFields_of_not_mem hmem, hparse]
    cases state with
    | none => exact iff_of_true rfl trivial
    | some number => exact iff_of_true rfl trivial

theorem le_of_inspectedAt {iter : UInt8} {i index : Nat} (mem : index ∈ inspectedAt iter i) :
    index ≤ i + 1 := by
  unfold inspectedAt at mem
  split at mem
  · simp only [List.mem_cons, List.not_mem_nil, or_false] at mem
    omega
  · simp only [List.mem_singleton] at mem
    omega

/-- Only an `8` at the end makes the loop look behind the buffer. -/
theorem inspectedFrom_lt {past : UInt8} {buffer : Bytes} {i : Nat} {s : ParserState}
    (last : buffer.getLast? ≠ some 56) {index : Nat} (mem : index ∈ inspectedFrom past buffer i s) :
    index < i + buffer.length := by
  fun_induction inspectedFrom past buffer i s with
  | case1 i s => simp at mem
  | case2 iter i s =>
    have hiter : iter ≠ 56 := by simpa using last
    rw [inspectedAt, if_neg hiter, List.mem_singleton] at mem
    simp [mem]
  | case3 iter next rest i s ihPair ihStarted ihStopped =>
    rw [List.getLast?_cons_cons] at last
    simp only [List.length_cons]
    cases List.mem_append.mp mem with
    | inl here =>
      have hle := le_of_inspectedAt here
      omega
    | inr behind =>
      split at behind
      · rename_i hpair
        split at behind
        · rename_i t hprocess
          have hlast : rest.getLast? ≠ some 56 := by
            cases rest with
            | nil => simp
            | cons after rest => simpa using last
          have hbound := ihPair t hlast behind
          omega
        · simp at behind
      · split at behind
        · split at behind
          · rename_i t hprocess
            have hbound := ihStarted t last behind
            simp only [List.length_cons] at hbound
            omega
          · simp at behind
        · have hbound := ihStopped last behind
          simp only [List.length_cons] at hbound
          omega

/-- A call that returns has looked behind an `8` at the end. -/
theorem mem_inspectedFrom {past : UInt8} {buffer : Bytes} {i : Nat} {s t : ParserState}
    (last : buffer.getLast? = some 56) (done : parseFrom past buffer i s = .ok t) :
    i + buffer.length ∈ inspectedFrom past buffer i s := by
  fun_induction inspectedFrom past buffer i s with
  | case1 i s => simp at last
  | case2 iter i s =>
    have hiter : iter = 56 := by simpa using last
    simp [inspectedAt, hiter]
  | case3 iter next rest i s ihPair ihStarted ihStopped =>
    rw [List.getLast?_cons_cons] at last
    rw [parseFrom] at done
    simp only [List.length_cons, List.mem_append]
    right
    split at done
    · rename_i hpair
      rw [if_pos hpair]
      have hlast : rest.getLast? = some 56 := by
        rw [hpair.2] at last
        cases rest with
        | nil => simp at last
        | cons after rest => simpa using last
      cases hprocess : s.start.process next (i + 1) with
      | error e => simp [hprocess, Except.bind] at done
      | ok u =>
        rw [hprocess] at done
        have hmem := ihPair u hlast done
        rwa [Nat.add_assoc, Nat.add_comm 2] at hmem
    · rename_i hpair
      rw [if_neg hpair]
      split at done
      · rename_i hstarted
        rw [if_pos hstarted]
        cases hprocess : s.process iter i with
        | error e => simp [hprocess, Except.bind] at done
        | ok u =>
          rw [hprocess] at done
          have hmem := ihStarted u last done
          rwa [List.length_cons, Nat.add_assoc, Nat.add_comm 1] at hmem
      · rename_i hstopped
        rw [if_neg hstopped]
        have hmem := ihStopped last done
        rwa [List.length_cons, Nat.add_assoc, Nat.add_comm 1] at hmem

/-! ## Where the rest of the bytes starts -/

theorem delimiter_remaining {s t : ParserState} {i : Nat} (done : s.delimiter i = .ok t)
    (inside : s.remainingBytesStartIndex ≤ i) : t.remainingBytesStartIndex ≤ i + 1 := by
  obtain ⟨tag, -, ⟨-, rfl⟩ | ⟨-, message, -, rfl⟩⟩ := delimiter_cases done
  · exact Nat.le_succ_of_le inside
  · exact le_refl _

theorem process_remaining {s t : ParserState} {iter : UInt8} {i : Nat}
    (done : s.process iter i = .ok t) (inside : s.remainingBytesStartIndex ≤ i) :
    t.remainingBytesStartIndex ≤ i + 1 := by
  by_cases hdelimiter : iter = fixDelimiter
  · have hnot : fixDelimiter ≠ fixEquals := by decide
    rw [process, hdelimiter, if_neg hnot, if_pos rfl] at done
    exact delimiter_remaining done inside
  · obtain ⟨u, hprocess, _, hkept, _⟩ := process_sameOutput s iter i hdelimiter
    rw [hprocess] at done
    cases done
    rw [hkept]
    exact Nat.le_succ_of_le inside

theorem start_remaining (s : ParserState) :
    s.start.remainingBytesStartIndex = s.remainingBytesStartIndex := (start_sameOutput s).2.1

theorem parseFrom_remaining {past : UInt8} {buffer : Bytes} {i : Nat} {s t : ParserState}
    (done : parseFrom past buffer i s = .ok t) (inside : s.remainingBytesStartIndex ≤ i) :
    t.remainingBytesStartIndex ≤ i + buffer.length :=
  parseFrom_invariant (fun i s => s.remainingBytesStartIndex ≤ i)
    (fun _ s hbefore => (start_remaining s).trans_le hbefore) (fun _ _ hbefore => hbefore)
    (fun _ _ _ _ hbefore hprocess => process_remaining hprocess hbefore)
    (fun _ _ hbefore => Nat.le_succ_of_le hbefore) inside done

/-- The call is safe if and only if the buffer does not end with an `8` and every number it
makes the parser read is an `int`. -/
theorem parsesSafely_iff (indeterminate : MessageType) (buffer : Bytes) (past : UInt8) :
    ParsesSafely indeterminate buffer past ↔
      buffer.getLast? ≠ some 56 ∧ FieldsReadable none (endedFields buffer) := by
  have hreturns := parseFrom_isOk past buffer 0 (initial_awaits indeterminate)
  constructor
  · rintro ⟨hinside, s, hparse, _⟩
    have hok : (parseFrom past buffer 0 (ParserState.initial indeterminate)).isOk = true :=
      congrArg Except.isOk hparse
    refine ⟨fun hlast => ?_, hreturns.mp hok⟩
    have hbehind := hinside _ (mem_inspectedFrom hlast hparse)
    omega
  · rintro ⟨hlast, hreadable⟩
    have hok := hreturns.mpr hreadable
    obtain ⟨s, hparse⟩ := isOk_iff.mp hok
    have hbound := parseFrom_remaining hparse (Nat.le_refl 0)
    refine ⟨fun index hindex => ?_, s, hparse, by omega⟩
    have hlt := inspectedFrom_lt hlast hindex
    omega

/-- `8=`, a delimiter, and a field without a tag. -/
def emptyTag : Bytes := [56, fixEquals, fixDelimiter, fixEquals, fixDelimiter]

/-- An exception at the empty tag, and a look behind a buffer of one byte. -/
theorem parsesSafely_fails :
    ¬ ParsesSafely .none emptyTag 0 ∧ ¬ ParsesSafely .none [56] 0 := by
  constructor
  · rintro ⟨_, s, hparse, _⟩
    have hthrows : parseMultipleMessagesFromBuffer .none emptyTag 0 = .error .invalidArgument := rfl
    rw [hthrows] at hparse
    cases hparse
  · rintro ⟨hinside, _⟩
    exact absurd (hinside 1 (by decide)) (by decide)

/-- A call on a receive cache ends with an exception if and only if its content makes the
parser read what is no `int`. -/
theorem FixReceiveCache.parse_isOk (cache : FixReceiveCache) (indeterminate : MessageType) :
    (cache.parse indeterminate).isOk = true ↔ FieldsReadable none (endedFields cache.content) := by
  have hreturns := parseFrom_isOk (cache.buffer cache.size) cache.content 0
    (initial_awaits indeterminate)
  rw [← hreturns]
  unfold parse parseMultipleMessagesFromBuffer
  cases parseFrom (cache.buffer cache.size) cache.content 0 (ParserState.initial indeterminate) with
  | error e => rfl
  | ok s => exact iff_of_true rfl rfl

end LiteExchange.Fix
