import LiteExchange.Foundation.Results
import LiteExchange.Fix.HostileInput
import LiteExchange.Fix.BufferParser
import LiteExchange.Fix.Header

/-!
# Parsing a line of a file

Source: `FixParser::parseFromString`, which `FixMessage::loadFromFile` calls for each
line, and `core::split`. The line is split at the delimiters and each field at its `=`;
`getline` gives no piece for what follows a last separator, if that is empty.
-/

namespace LiteExchange.Fix

open Foundation.Ascii Foundation.Results FixConstants FixMessage FieldState

/-- The loop of `core::split`: `token` is what the current `getline` has read. -/
def splitFrom (separator : UInt8) : Bytes → Bytes → List Bytes
  | token, [] => if token = [] then [] else [token]
  | token, b :: rest =>
    if b = separator then token :: splitFrom separator [] rest
    else splitFrom separator (token ++ [b]) rest

def split (input : Bytes) (separator : UInt8) : List Bytes :=
  if input.length > 0 then splitFrom separator [] input else []

inductive FileError where
  | conversion (error : ConversionError)
  /-- `tokens[i]` behind the last token. -/
  | outsideTokens
  deriving DecidableEq, Repr

def tokenAt (tokens : List Bytes) (i : Nat) : Except FileError Bytes :=
  match tokens[i]? with
  | some token => .ok token
  | none => .error .outsideTokens

/-- One round of the loop over the fields. -/
def setTagValuePair (message : FixMessage) (tagValuePair : Bytes) : Except FileError FixMessage :=
  if tagValuePair.length = 0 then .ok message
  else do
    let tokens := split tagValuePair fixEquals
    let tag ← (stoi (← tokenAt tokens 0)).mapError .conversion
    let value ← tokenAt tokens 1
    pure (message.setTag tag value)

def parseFromString (message : FixMessage) (input : Bytes) : Except FileError FixMessage := do
  let message ← (split input fixDelimiter).foldlM setTagValuePair message
  message.initialiseHeader.mapError .conversion

/-! ## Fields -/

/-- What follows the first `=` of a field. -/
def behindTag (field : Bytes) : Bytes := (field.dropWhile (· != fixEquals)).drop 1

/-- What lies between the first and the second `=` of a field. -/
def firstPiece (field : Bytes) : Bytes := (behindTag field).takeWhile (· != fixEquals)

theorem splitFrom_of_not_mem {separator : UInt8} {token text : Bytes} (absent : separator ∉ text)
    (nonempty : token ++ text ≠ []) : splitFrom separator token text = [token ++ text] := by
  induction text generalizing token with
  | nil =>
    rw [List.append_nil] at nonempty ⊢
    exact if_neg nonempty
  | cons b text ih =>
    rw [List.mem_cons, not_or] at absent
    rw [splitFrom, if_neg (Ne.symm absent.1), ih absent.2 (by simp)]
    simp

theorem splitFrom_append {separator : UInt8} {token text : Bytes} (rest : Bytes)
    (absent : separator ∉ text) :
    splitFrom separator token (text ++ separator :: rest) =
      (token ++ text) :: splitFrom separator [] rest := by
  induction text generalizing token with
  | nil => simp [splitFrom]
  | cons b text ih =>
    rw [List.mem_cons, not_or] at absent
    rw [List.cons_append, splitFrom, if_neg (Ne.symm absent.1), ih absent.2]
    simp

/-- A text that ends with the delimiter is split into its ended fields. -/
theorem splitFrom_ended (front : Bytes) :
    splitFrom fixDelimiter [] (front ++ [fixDelimiter]) = endedFields (front ++ [fixDelimiter]) := by
  induction hlength : front.length using Nat.strong_induction_on generalizing front with
  | _ length ih =>
  by_cases hmem : fixDelimiter ∈ front
  · obtain ⟨field, rest, rfl, hplain⟩ := List.eq_append_cons_of_mem hmem
    have hrest := ih rest.length (by simp at hlength; omega) rest rfl
    rw [List.append_assoc, List.cons_append, splitFrom_append _ hplain, endedFields_append _ hplain,
      hrest]
    rfl
  · rw [splitFrom_append [] hmem, endedFields_append [] hmem]
    rfl

theorem split_ended (front : Bytes) :
    split (front ++ [fixDelimiter]) fixDelimiter = endedFields (front ++ [fixDelimiter]) := by
  rw [split, if_pos (by simp), splitFrom_ended]

/-- The first piece of a text reaches up to its first separator. -/
theorem splitFrom_first (separator : UInt8) {text : Bytes} (nonempty : text ≠ []) :
    ∃ pieces, splitFrom separator [] text = text.takeWhile (· != separator) :: pieces := by
  by_cases hmem : separator ∈ text
  · obtain ⟨front, back, rfl, habsent⟩ := List.eq_append_cons_of_mem hmem
    have hfront : ∀ b ∈ front, (b != separator) = true := by
      intro b hb
      exact bne_iff_ne.mpr fun h => habsent (h ▸ hb)
    refine ⟨splitFrom separator [] back, ?_⟩
    rw [splitFrom_append _ habsent, List.takeWhile_append_of_pos hfront]
    simp
  · have hall : ∀ b ∈ text, (b != separator) = true := by
      intro b hb
      exact bne_iff_ne.mpr fun h => hmem (h ▸ hb)
    refine ⟨[], ?_⟩
    rw [splitFrom_of_not_mem hmem (by simpa using nonempty), List.takeWhile_eq_self_iff.mpr hall,
      List.nil_append]

theorem behindTag_append {front : Bytes} (back : Bytes) (absent : fixEquals ∉ front) :
    behindTag (front ++ fixEquals :: back) = back := by
  have hfront : ∀ b ∈ front, (b != fixEquals) = true := by
    intro b hb
    exact bne_iff_ne.mpr fun h => absent (h ▸ hb)
  rw [behindTag, List.dropWhile_append_of_pos hfront]
  simp

theorem behindTag_of_not_mem {field : Bytes} (absent : fixEquals ∉ field) :
    behindTag field = [] := by
  have hall : ∀ b ∈ field, (b != fixEquals) = true := by
    intro b hb
    exact bne_iff_ne.mpr fun h => absent (h ▸ hb)
  rw [behindTag, List.dropWhile_eq_nil_iff.mpr hall]
  rfl

/-- The tokens of a field: its tag, and the first piece behind it if there is any byte. -/
theorem tokens_field {field : Bytes} (nonempty : field ≠ []) :
    tokenAt (split field fixEquals) 0 = .ok (fieldTag field) ∧
      tokenAt (split field fixEquals) 1 =
        if behindTag field = [] then .error .outsideTokens else .ok (firstPiece field) := by
  have hlength : field.length > 0 := List.length_pos_of_ne_nil nonempty
  rw [split, if_pos hlength, firstPiece]
  by_cases hmem : fixEquals ∈ field
  · obtain ⟨front, back, rfl, habsent⟩ := List.eq_append_cons_of_mem hmem
    rw [splitFrom_append _ habsent, (fieldTag_append back habsent).1, behindTag_append _ habsent]
    refine ⟨rfl, ?_⟩
    by_cases hnil : back = []
    · rw [hnil]
      rfl
    · obtain ⟨pieces, hpieces⟩ := splitFrom_first fixEquals hnil
      rw [hpieces, if_neg hnil]
      rfl
  · rw [splitFrom_of_not_mem hmem (by simpa using nonempty), (fieldTag_of_not_mem hmem).1,
      behindTag_of_not_mem hmem]
    exact ⟨rfl, rfl⟩

/-! ## The fields that the two parsers set -/

/-- The number of a readable tag. -/
def tagNumber (field : Bytes) : Int := (stoi (fieldTag field)).toOption.getD 0

theorem stoi_tagNumber {field : Bytes} (readable : Readable (fieldTag field)) :
    stoi (fieldTag field) = .ok (tagNumber field) := by
  obtain ⟨tag, hread⟩ := isOk_iff.mp readable
  rw [tagNumber, hread]
  rfl

/-- These fields set in turn, with what `text` takes from each of them. -/
def setFields (message : FixMessage) (text : Bytes → Bytes) (fields : List Bytes) : FixMessage :=
  message.setTags (fields.map fun field => (tagNumber field, text field))

/-- The last of these fields that sets the tag. -/
def lastField (fields : List Bytes) (tag : Int) : Option Bytes :=
  fields.reverse.find? fun field => tagNumber field == tag

theorem setFields_lookup (message : FixMessage) (text : Bytes → Bytes) (fields : List Bytes)
    (tag : Int) : (setFields message text fields).bodyTagValuePairs tag =
      ((lastField fields tag).map text).or (message.bodyTagValuePairs tag) := by
  rw [setFields, setTags_lookup, lastValue, ← List.map_reverse, List.find?_map, Option.map_map]
  rfl

theorem foldlM_step_value {text : Bytes} (rest : Bytes) {s : FieldState}
    (target : s.targetIsValue = true) (absent : fixDelimiter ∉ text) :
    (text ++ rest).foldlM FieldState.step s =
      rest.foldlM FieldState.step { s with value := s.value ++ text.filter (· != fixEquals) } := by
  induction text generalizing s with
  | nil => simp
  | cons b text ih =>
    rw [List.mem_cons, not_or] at absent
    rw [List.cons_append, List.foldlM_cons, FieldState.step, if_neg (Ne.symm absent.1)]
    by_cases hb : b = fixEquals
    · have hsame : { s with targetIsValue := true } = s := by rw [← target]
      have hfilter : (b :: text).filter (· != fixEquals) = text.filter (· != fixEquals) := by
        simp [hb]
      rw [if_pos hb, hsame, hfilter]
      exact ih target absent.2
    · have hpush : s.push b = { s with value := s.value ++ [b] } := by
        rw [FieldState.push, if_pos target]
      have hkeep : (b != fixEquals) = true := bne_iff_ne.mpr hb
      have hrest := ih (s := { s with value := s.value ++ [b] }) target absent.2
      rw [if_neg hb, hpush, List.filter_cons, if_pos hkeep]
      simp only [List.append_assoc, List.singleton_append] at hrest
      exact hrest

/-- One ended field of an arbitrary buffer. -/
theorem foldlM_step_ended {field : Bytes} (rest : Bytes) (message : FixMessage)
    (absent : fixDelimiter ∉ field) :
    (field ++ fixDelimiter :: rest).foldlM FieldState.step (between message) =
      (stoi (fieldTag field)).bind fun tag =>
        rest.foldlM FieldState.step (between (message.setTag tag (fieldValue field))) := by
  have hnot : fixDelimiter ≠ fixEquals := by decide
  have hend : ∀ target : Bool, (fixDelimiter :: rest).foldlM FieldState.step
      { tag := fieldTag field, value := fieldValue field, targetIsValue := target,
        message := message } = (stoi (fieldTag field)).bind fun tag =>
          rest.foldlM FieldState.step (between (message.setTag tag (fieldValue field))) := by
    intro target
    rw [List.foldlM_cons, FieldState.step, if_neg hnot, if_pos rfl]
    cases stoi (fieldTag field) with
    | error e => rfl
    | ok tag => rfl
  by_cases hmem : fixEquals ∈ field
  · obtain ⟨front, back, hfield, habsent⟩ := List.eq_append_cons_of_mem hmem
    have hplain : Plain front := ⟨habsent, fun h => absent (hfield ▸ List.mem_append_left _ h)⟩
    have hback : fixDelimiter ∉ back := by
      intro h
      exact absent (hfield ▸ List.mem_append_right _ (List.mem_cons_of_mem _ h))
    obtain ⟨htag, hvalue⟩ := fieldTag_append back habsent
    rw [← hfield] at htag hvalue
    rw [← hend true, hfield, List.append_assoc, foldlM_step_plain _ _ hplain, foldl_push,
      List.cons_append, List.foldlM_cons, FieldState.step, if_pos rfl, ← hfield, htag, hvalue]
    exact foldlM_step_value _ rfl hback
  · obtain ⟨htag, hvalue⟩ := fieldTag_of_not_mem hmem
    rw [← hend false, foldlM_step_plain _ _ ⟨hmem, absent⟩, foldl_push, htag, hvalue]
    rfl

/-- What no delimiter ends leaves the message as it is. -/
theorem foldlM_step_unended {text : Bytes} {s last : FieldState} (absent : fixDelimiter ∉ text)
    (accepted : text.foldlM FieldState.step s = .ok last) : last.message = s.message := by
  induction text generalizing s with
  | nil =>
    cases accepted
    rfl
  | cons b text ih =>
    rw [List.mem_cons, not_or] at absent
    rw [List.foldlM_cons, FieldState.step, if_neg (Ne.symm absent.1)] at accepted
    by_cases hb : b = fixEquals
    · rw [if_pos hb] at accepted
      exact ih (s := { s with targetIsValue := true }) absent.2 accepted
    · rw [if_neg hb] at accepted
      have hpush : (s.push b).message = s.message := by
        unfold FieldState.push
        split
        · rfl
        · rfl
      rw [← hpush]
      exact ih (s := s.push b) absent.2 accepted

/-- Where the wire parser comes to the end, it has set the ended fields. -/
theorem foldlM_step_accepted {input : Bytes} {message : FixMessage} {s : FieldState}
    (accepted : input.foldlM FieldState.step (between message) = .ok s) :
    (∀ field ∈ endedFields input, Readable (fieldTag field)) ∧
      s.message = setFields message fieldValue (endedFields input) := by
  induction hlength : input.length using Nat.strong_induction_on generalizing input message with
  | _ length ih =>
  by_cases hmem : fixDelimiter ∈ input
  · obtain ⟨field, rest, rfl, hplain⟩ := List.eq_append_cons_of_mem hmem
    rw [foldlM_step_ended _ _ hplain] at accepted
    rw [endedFields_append _ hplain]
    have hreadable : Readable (fieldTag field) := by
      obtain ⟨tag, hread, -⟩ := bind_eq_ok.mp accepted
      exact isOk_iff.mpr ⟨tag, hread⟩
    rw [stoi_tagNumber hreadable] at accepted
    obtain ⟨hrest, hstate⟩ := ih rest.length (by simp at hlength; omega) accepted rfl
    exact ⟨List.forall_mem_cons.mpr ⟨hreadable, hrest⟩, hstate⟩
  · rw [endedFields_of_not_mem hmem]
    exact ⟨by simp, foldlM_step_unended hmem accepted⟩

/-- A parsed message is what the header makes of the ended fields. -/
theorem parseFromBuffer_accepted {input : Bytes} {message parsed : FixMessage}
    (accepted : parseFromBuffer message input = .ok parsed) :
    (∀ field ∈ endedFields input, Readable (fieldTag field)) ∧
      (setFields message fieldValue (endedFields input)).initialiseHeader = .ok parsed := by
  obtain ⟨s, hread, accepted⟩ := bind_eq_ok.mp accepted
  obtain ⟨hreadable, hmessage⟩ := foldlM_step_accepted hread
  exact ⟨hreadable, hmessage ▸ accepted⟩

/-- The file parser sets the same tags, unless a field has nothing behind its tag. -/
theorem foldlM_setTagValuePair {fields : List Bytes} (message : FixMessage)
    (readable : ∀ field ∈ fields, Readable (fieldTag field)) :
    fields.foldlM setTagValuePair message =
      if ∀ field ∈ fields, behindTag field ≠ [] then .ok (setFields message firstPiece fields)
      else .error .outsideTokens := by
  induction fields generalizing message with
  | nil => simp [setFields, setTags]; rfl
  | cons field fields ih =>
    obtain ⟨hfirst, hrest⟩ := List.forall_mem_cons.mp readable
    have hnonempty : field ≠ [] := by
      rintro rfl
      exact absurd hfirst (by decide)
    have hlength : field.length ≠ 0 := fun h => hnonempty (List.length_eq_zero_iff.mp h)
    obtain ⟨htag, hvalue⟩ := tokens_field hnonempty
    rw [List.foldlM_cons, setTagValuePair, if_neg hlength]
    simp only [bind, Except.bind, htag, hvalue, stoi_tagNumber hfirst, Except.mapError,
      List.forall_mem_cons]
    by_cases hbehind : behindTag field = []
    · simp only [hbehind, if_true, ne_eq, not_true_eq_false, false_and, if_false]
    · simp only [hbehind, if_false, ne_eq, not_false_eq_true, true_and]
      exact ih _ hrest

/-! ## What the header makes of two values -/

/-- Both texts mean the same as value of this tag. -/
def SameMeaning (tag : Int) (first second : Bytes) : Prop :=
  if tag = fixTagVersion then getFixVersionFromString first = getFixVersionFromString second
  else if tag = fixTagMessageType then
    getMessageTypeFromString first = getMessageTypeFromString second
  else if tag = fixTagSequenceNumber then stoi first = stoi second
  else first = second

theorem sameMeaning_refl (tag : Int) (text : Bytes) : SameMeaning tag text text := by
  unfold SameMeaning
  simp

/-- `size_t` tells the `int` numbers apart. -/
theorem toSize_injective {first second : Bytes} {a b : Int} (hfirst : stoi first = .ok a)
    (hsecond : stoi second = .ok b) (same : toSize a = toSize b) : a = b := by
  have ha := stoi_range hfirst
  have hb := stoi_range hsecond
  unfold toSize at same
  omega

/-- A header member depends on the value of its tag through what is read from it. -/
theorem elim_agrees {α : Type} {first second : Option Bytes} (missing : α) (read : Bytes → α)
    (present : second.isSome = first.isSome) :
    second.elim missing read = first.elim missing read ↔
      ∀ value ∈ first, ∀ other ∈ second, read value = read other := by
  cases first with
  | none =>
    cases second with
    | none => simp
    | some other => cases present
  | some value =>
    cases second with
    | none => cases present
    | some other => simp [eq_comm]

theorem getD_agrees {first second : Option Bytes} (missing : Bytes)
    (present : second.isSome = first.isSome) :
    second.getD missing = first.getD missing ↔
      ∀ value ∈ first, ∀ other ∈ second, value = other := by
  have hread : ∀ text : Option Bytes, text.getD missing = text.elim missing id := by
    intro text
    cases text <;> rfl
  rw [hread, hread]
  exact elim_agrees missing id present

theorem option_agrees {first second : Option Bytes} (present : second.isSome = first.isSome) :
    second = first ↔ ∀ value ∈ first, ∀ other ∈ second, value = other := by
  have hread : ∀ text : Option Bytes, text.elim none some = text := Option.elim_none_some id
  have hagrees := elim_agrees none some present
  rw [hread, hread] at hagrees
  simpa using hagrees

/-- The sequence numbers agree if and only if the two texts are read as the same `int`. -/
theorem headerNumber_agrees {first second : FixMessage} {number : Nat}
    (members : second.sequenceNumber = first.sequenceNumber)
    (present : second.hasTag fixTagSequenceNumber = first.hasTag fixTagSequenceNumber)
    (accepted : first.headerNumber = .ok number) :
    second.headerNumber = .ok number ↔
      ∀ value ∈ first.bodyTagValuePairs fixTagSequenceNumber,
        ∀ other ∈ second.bodyTagValuePairs fixTagSequenceNumber, stoi value = stoi other := by
  unfold headerNumber at accepted ⊢
  unfold hasTag at present
  cases hfirst : first.bodyTagValuePairs fixTagSequenceNumber with
  | none =>
    rw [hfirst] at accepted present
    rw [Option.isSome_eq_false_iff.mp present |> Option.isNone_iff_eq_none.mp]
    simpa [members] using accepted
  | some value =>
    rw [hfirst] at accepted present
    obtain ⟨other, hsecond⟩ := Option.isSome_iff_exists.mp present
    rw [hsecond]
    simp only [Option.mem_def, Option.some.injEq, forall_eq']
    cases hvalue : stoi value with
    | error e =>
      simp only [hvalue] at accepted
      cases accepted
    | ok a =>
      simp only [hvalue] at accepted
      have hnumber : toSize a = number := Except.ok.inj accepted
      cases hother : stoi other with
      | error e => simp [Except.map]
      | ok b =>
        simp only [Except.map, Except.ok.injEq, ← hnumber]
        constructor
        · exact fun h => (toSize_injective hother hvalue h).symm
        · rintro rfl
          rfl

/-- The header numbers are read, and the members and the other tags are the same. -/
theorem map_moveTags_iff {first second : FixMessage} {number : Nat} :
    second.headerNumber.map (second.moveTags headerTags) =
        .ok (first.moveTags headerTags number) ↔
      second.headerNumber = .ok number ∧
        second.moveTags headerTags number = first.moveTags headerTags number := by
  cases second.headerNumber with
  | error e => simp [Except.map]
  | ok other =>
    simp only [Except.map, Except.ok.injEq]
    constructor
    · intro h
      have hsame : other = number := congrArg FixMessage.sequenceNumber h
      rw [hsame] at h ⊢
      exact ⟨rfl, h⟩
    · rintro ⟨rfl, h⟩
      exact h

theorem moveTags_eq_iff {first second : FixMessage} (number : Nat)
    (members : second = { first with bodyTagValuePairs := second.bodyTagValuePairs }) :
    second.moveTags headerTags number = first.moveTags headerTags number ↔
      (second.bodyTagValuePairs fixTagVersion).elim first.fixVersion getFixVersionFromString =
        (first.bodyTagValuePairs fixTagVersion).elim first.fixVersion getFixVersionFromString ∧
      (second.bodyTagValuePairs fixTagMessageType).elim first.messageType getMessageTypeFromString =
        (first.bodyTagValuePairs fixTagMessageType).elim first.messageType
          getMessageTypeFromString ∧
      (second.bodyTagValuePairs fixTagSenderCompid).getD first.senderCompId =
        (first.bodyTagValuePairs fixTagSenderCompid).getD first.senderCompId ∧
      (second.bodyTagValuePairs fixTagTargetCompid).getD first.targetCompId =
        (first.bodyTagValuePairs fixTagTargetCompid).getD first.targetCompId ∧
      (second.bodyTagValuePairs fixTagSendingTime).getD first.sendingTime =
        (first.bodyTagValuePairs fixTagSendingTime).getD first.sendingTime ∧
      second.without headerTags = first.without headerTags := by
  rw [members, moveTags, moveTags, FixMessage.mk.injEq]
  simp only [headerTags, List.mem_cons, true_or, or_true, if_true, true_and]

theorem without_eq_iff {first second : FixMessage}
    (present : ∀ tag, second.hasTag tag = first.hasTag tag) (moved : List Int) :
    second.without moved = first.without moved ↔
      ∀ tag ∉ moved, ∀ value ∈ first.bodyTagValuePairs tag,
        ∀ other ∈ second.bodyTagValuePairs tag, value = other := by
  rw [funext_iff]
  apply forall_congr'
  intro tag
  unfold without
  by_cases hmem : tag ∈ moved
  · simp [hmem]
  · simpa [hmem] using option_agrees (present tag)

/-- Of two messages that differ in the values of their tags only, the header reads the same if
and only if each tag's values mean the same. -/
theorem initialiseHeader_agrees {first second parsed : FixMessage}
    (members : second = { first with bodyTagValuePairs := second.bodyTagValuePairs })
    (present : ∀ tag, second.hasTag tag = first.hasTag tag)
    (accepted : first.initialiseHeader = .ok parsed) :
    second.initialiseHeader = .ok parsed ↔
      ∀ tag, ∀ value ∈ first.bodyTagValuePairs tag, ∀ other ∈ second.bodyTagValuePairs tag,
        SameMeaning tag value other := by
  obtain ⟨number, hfirst, rfl⟩ := initialiseHeader_ok.mp accepted
  rw [initialiseHeader_eq]
  have hnumber := headerNumber_agrees (by rw [members]) (present fixTagSequenceNumber) hfirst
  have hversion := elim_agrees first.fixVersion getFixVersionFromString (present fixTagVersion)
  have htype := elim_agrees first.messageType getMessageTypeFromString (present fixTagMessageType)
  have hsender := getD_agrees first.senderCompId (present fixTagSenderCompid)
  have htarget := getD_agrees first.targetCompId (present fixTagTargetCompid)
  have htime := getD_agrees first.sendingTime (present fixTagSendingTime)
  rw [map_moveTags_iff, hnumber, moveTags_eq_iff number members, hversion, htype, hsender, htarget,
    htime, without_eq_iff present]
  constructor
  · rintro ⟨h34, h8, h35, h49, h56, h52, hother⟩ tag value hvalue other hsecond
    unfold SameMeaning
    split
    · rename_i htag
      exact h8 value (htag ▸ hvalue) other (htag ▸ hsecond)
    · split
      · rename_i htag
        exact h35 value (htag ▸ hvalue) other (htag ▸ hsecond)
      · split
        · rename_i htag
          exact h34 value (htag ▸ hvalue) other (htag ▸ hsecond)
        · rename_i hversionTag htypeTag hnumberTag
          by_cases hmem : tag ∈ headerTags
          · simp only [headerTags, List.mem_cons, List.not_mem_nil, or_false, hversionTag,
              htypeTag, hnumberTag] at hmem
            rcases hmem with htag | htag | htag
            · exact h56 value (htag ▸ hvalue) other (htag ▸ hsecond)
            · exact h49 value (htag ▸ hvalue) other (htag ▸ hsecond)
            · exact h52 value (htag ▸ hvalue) other (htag ▸ hsecond)
          · exact hother tag hmem value hvalue other hsecond
  · intro h
    refine ⟨h fixTagSequenceNumber, h fixTagVersion, h fixTagMessageType, h fixTagSenderCompid,
      h fixTagTargetCompid, h fixTagSendingTime, ?_⟩
    intro tag hmem value hvalue other hsecond
    have hsame := h tag value hvalue other hsecond
    simp only [headerTags, List.mem_cons, List.not_mem_nil, or_false, not_or] at hmem
    simpa only [SameMeaning, hmem, if_false] using hsame

/-! ## The two parsers -/

/-- The file parser reads these fields as the wire parser does: each has a byte behind its
first `=`, and of the last field of each tag the first piece means what the whole value means
without its `=`. -/
def PiecesSuffice (fields : List Bytes) : Prop :=
  (∀ field ∈ fields, behindTag field ≠ []) ∧
    ∀ tag, ∀ field ∈ lastField fields tag, SameMeaning tag (fieldValue field) (firstPiece field)

/-- The header agrees on two ways to take a text from each field, if both texts of the last
field of each tag mean the same. -/
theorem setFields_agree {message parsed : FixMessage} {fields : List Bytes}
    (first second : Bytes → Bytes)
    (accepted : (setFields message first fields).initialiseHeader = .ok parsed) :
    (setFields message second fields).initialiseHeader = .ok parsed ↔
      ∀ tag, ∀ field ∈ lastField fields tag, SameMeaning tag (first field) (second field) := by
  have hmembers : setFields message second fields = { setFields message first fields with
      bodyTagValuePairs := (setFields message second fields).bodyTagValuePairs } := by
    have hfirst := setTags_members message (fields.map fun field => (tagNumber field, first field))
    unfold setFields
    rw [hfirst]
    exact setTags_members message (fields.map fun field => (tagNumber field, second field))
  have hpresent : ∀ tag, (setFields message second fields).hasTag tag =
      (setFields message first fields).hasTag tag := by
    intro tag
    unfold hasTag
    rw [setFields_lookup, setFields_lookup]
    cases lastField fields tag with
    | none => rfl
    | some field => rfl
  rw [initialiseHeader_agrees hmembers hpresent accepted]
  apply forall_congr'
  intro tag
  rw [setFields_lookup, setFields_lookup]
  cases lastField fields tag with
  | none =>
    simp only [Option.map_none, Option.none_or, Option.mem_def, reduceCtorEq, false_implies,
      implies_true, iff_true]
    intro value hvalue other hother
    rw [hvalue] at hother
    cases hother
    exact sameMeaning_refl tag value
  | some field => simp

/-- What the wire parser accepts, the file parser reads as the same message if and only if the
first pieces suffice. -/
theorem parseFromString_agrees_iff {message parsed : FixMessage} {input : Bytes}
    (ended : input.getLast? = some fixDelimiter)
    (accepted : parseFromBuffer message input = .ok parsed) :
    parseFromString message input = .ok parsed ↔ PiecesSuffice (endedFields input) := by
  obtain ⟨front, rfl⟩ := List.getLast?_eq_some_iff.mp ended
  obtain ⟨hreadable, hheader⟩ := parseFromBuffer_accepted accepted
  have hagree := setFields_agree fieldValue firstPiece hheader
  unfold parseFromString
  rw [split_ended, foldlM_setTagValuePair message hreadable, PiecesSuffice, ← hagree]
  by_cases hbehind : ∀ field ∈ endedFields (front ++ [fixDelimiter]), behindTag field ≠ []
  · rw [if_pos hbehind]
    simp only [bind, Except.bind, mapError_eq_ok]
    exact (and_iff_right hbehind).symm
  · rw [if_neg hbehind]
    simp only [hbehind, false_and, iff_false]
    intro h
    cases h

/-- `55=A=B` and then `55=C=`: only the second field is left. -/
theorem parseFromString_overwritten : ∃ parsed,
    parseFromBuffer (construct .none) [53, 53, 61, 65, 61, 66, 1, 53, 53, 61, 67, 61, 1] =
        .ok parsed ∧
      parseFromString (construct .none) [53, 53, 61, 65, 61, 66, 1, 53, 53, 61, 67, 61, 1] =
        .ok parsed ∧
      parsed.getTagValue fixTagSymbol = [67] := by
  have hfields : endedFields [53, 53, 61, 65, 61, 66, 1, 53, 53, 61, 67, 61, 1] =
      [[53, 53, 61, 65, 61, 66], [53, 53, 61, 67, 61]] := by decide
  have hsuffice : PiecesSuffice (endedFields [53, 53, 61, 65, 61, 66, 1, 53, 53, 61, 67, 61, 1]) := by
    rw [hfields]
    refine ⟨by decide, ?_⟩
    intro tag field hfield
    have hlast : field = [53, 53, 61, 67, 61] := by
      have hnumbers : tagNumber [53, 53, 61, 65, 61, 66] = 55 ∧
          tagNumber [53, 53, 61, 67, 61] = 55 := by decide
      rw [lastField, List.reverse_cons, List.reverse_singleton, List.singleton_append,
        List.find?_cons, hnumbers.2, List.find?_cons, hnumbers.1] at hfield
      cases htag : ((55 : Int) == tag) with
      | true => simpa [htag, eq_comm] using hfield
      | false => simp [htag] at hfield
    have hsame : fieldValue [53, 53, 61, 67, 61] = firstPiece [53, 53, 61, 67, 61] := by decide
    rw [hlast, hsame]
    exact sameMeaning_refl tag _
  exact ⟨_, rfl, (parseFromString_agrees_iff rfl rfl).mpr hsuffice, rfl⟩

/-- A field without a value: the second token does not exist. -/
theorem parseFromString_emptyValue :
    ([53, 53, 61, 1] : Bytes).getLast? = some fixDelimiter ∧
      (parseFromBuffer (construct .none) [53, 53, 61, 1]).isOk = true ∧
      parseFromString (construct .none) [53, 53, 61, 1] = .error .outsideTokens :=
  ⟨rfl, rfl, rfl⟩

end LiteExchange.Fix
