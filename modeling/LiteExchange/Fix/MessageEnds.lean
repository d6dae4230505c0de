import LiteExchange.Foundation.Results
import LiteExchange.Fix.HostileInput

/-!
# Where messages end in arbitrary bytes

Source: `FixParser::parseMultipleMessagesFromBuffer`. `Completes` says of received bytes that
a message ends with the last of them, from their fields alone. A call that returns delivers a
message if and only if one ends somewhere in its buffer, and leaves the bytes behind the last
end.
-/

namespace LiteExchange.Fix

open Foundation.Ascii Foundation.Results FixConstants FixMessage ParserState

/-- Whether a message is open behind a field, when it is or is not in front of it. -/
def opensBehind (inside : Bool) (field : Bytes) : Bool :=
  if inside then !decide (EndsMessage field) else decide ([56, fixEquals] <:+: field)

/-- The last of these bytes is the delimiter that ends a message; `inside` says whether a message
is open in front of them. -/
inductive Completes : Bool → Bytes → Prop where
  | ends {field : Bytes} : fixDelimiter ∉ field → EndsMessage field →
      Completes true (field ++ [fixDelimiter])
  | continues {inside : Bool} {field rest : Bytes} : fixDelimiter ∉ field →
      Completes (opensBehind inside field) rest → Completes inside (field ++ fixDelimiter :: rest)

/-- No message ends in these bytes. -/
def NoEnd (inside : Bool) (bytes : Bytes) : Prop :=
  ∀ front, front <+: bytes → ¬ Completes inside front

/-- The last message that ends in these bytes ends with `front`. -/
structure LastEnd (inside : Bool) (bytes front : Bytes) : Prop where
  prefixed : front <+: bytes
  completes : Completes inside front
  last : ∀ longer, longer <+: bytes → Completes inside longer → longer.length ≤ front.length

section Fields

variable {inside : Bool} {bytes field rest front : Bytes}

theorem completes_mem (completes : Completes inside bytes) : fixDelimiter ∈ bytes := by
  cases completes with
  | ends plain ends => simp
  | continues plain rest => simp

theorem completes_ne_nil (completes : Completes inside bytes) : bytes ≠ [] :=
  List.ne_nil_of_mem (completes_mem completes)

/-- A text in front of its first delimiter is determined. -/
theorem ended_cancel {other behind : Bytes} (plain : fixDelimiter ∉ field)
    (plainOther : fixDelimiter ∉ other)
    (same : field ++ fixDelimiter :: rest = other ++ fixDelimiter :: behind) :
    field = other ∧ rest = behind := by
  have hfields := congrArg endedFields same
  rw [endedFields_append rest plain, endedFields_append behind plainOther] at hfields
  obtain rfl : field = other := (List.cons.inj hfields).1
  exact ⟨rfl, (List.cons.inj (List.append_cancel_left same)).2⟩

theorem completes_field_iff (plain : fixDelimiter ∉ field) :
    Completes inside (field ++ fixDelimiter :: rest) ↔
      (inside = true ∧ EndsMessage field ∧ rest = []) ∨
        Completes (opensBehind inside field) rest := by
  constructor
  · intro completes
    generalize hbytes : field ++ fixDelimiter :: rest = bytes at completes
    cases completes with
    | ends plainOther ends =>
      obtain ⟨rfl, rfl⟩ := ended_cancel plain plainOther hbytes
      exact Or.inl ⟨rfl, ends, rfl⟩
    | continues plainOther behind =>
      obtain ⟨rfl, rfl⟩ := ended_cancel plain plainOther hbytes
      exact Or.inr behind
  · rintro (⟨rfl, ends, rfl⟩ | behind)
    · exact .ends plain ends
    · exact .continues plain behind

/-- What completes a message in front of these bytes takes the first field. -/
theorem front_field (plain : fixDelimiter ∉ field)
    (prefixed : front <+: field ++ fixDelimiter :: rest) (completes : Completes inside front) :
    ∃ behind, front = field ++ fixDelimiter :: behind ∧ behind <+: rest := by
  obtain ⟨other, behind, rfl, hplain⟩ := List.eq_append_cons_of_mem (completes_mem completes)
  obtain ⟨more, hmore⟩ := prefixed
  rw [List.append_assoc, List.cons_append] at hmore
  obtain ⟨rfl, rfl⟩ := ended_cancel hplain plain hmore
  exact ⟨behind, rfl, List.prefix_append behind more⟩

theorem noEnd_of_not_mem (plain : fixDelimiter ∉ bytes) : NoEnd inside bytes :=
  fun _ prefixed completes => plain (prefixed.subset (completes_mem completes))

/-- No message ends in the first field, nor behind it. -/
theorem noEnd_field (plain : fixDelimiter ∉ field) (goes : ¬ (inside = true ∧ EndsMessage field))
    (none : NoEnd (opensBehind inside field) rest) :
    NoEnd inside (field ++ fixDelimiter :: rest) := by
  intro front prefixed completes
  obtain ⟨behind, rfl, hbehind⟩ := front_field plain prefixed completes
  rcases (completes_field_iff plain).mp completes with ⟨hinside, hends, -⟩ | hrest
  · exact goes ⟨hinside, hends⟩
  · exact none behind hbehind hrest

/-- The last message that ends behind the first field is the last one. -/
theorem LastEnd.behind (plain : fixDelimiter ∉ field)
    (last : LastEnd (opensBehind inside field) rest front) :
    LastEnd inside (field ++ fixDelimiter :: rest) (field ++ fixDelimiter :: front) where
  prefixed :=
    (List.prefix_append_right_inj field).mpr (List.cons_prefix_cons.mpr ⟨rfl, last.prefixed⟩)
  completes := .continues plain last.completes
  last := by
    intro longer prefixed completes
    obtain ⟨behind, rfl, hbehind⟩ := front_field plain prefixed completes
    simp only [List.length_append, List.length_cons, Nat.add_le_add_iff_left,
      Nat.add_le_add_iff_right]
    rcases (completes_field_iff plain).mp completes with ⟨-, -, rfl⟩ | hrest
    · exact Nat.zero_le _
    · exact last.last behind hbehind hrest

/-- The first field ends the last message that ends. -/
theorem lastEnd_field (plain : fixDelimiter ∉ field) (ends : EndsMessage field)
    (none : NoEnd (opensBehind true field) rest) :
    LastEnd true (field ++ fixDelimiter :: rest) (field ++ [fixDelimiter]) where
  prefixed := (List.prefix_append_right_inj field).mpr (by simp)
  completes := .ends plain ends
  last := by
    intro longer prefixed completes
    obtain ⟨behind, rfl, hbehind⟩ := front_field plain prefixed completes
    rcases (completes_field_iff plain).mp completes with ⟨-, -, rfl⟩ | hrest
    · exact Nat.le_refl _
    · exact absurd hrest (none behind hbehind)

end Fields

/-! ## What the loop delivers -/

section Loop

variable {past : UInt8} {field rest buffer : Bytes} {i : Nat} {s t u : ParserState}
  {state : Option (Option Bytes)}

/-- Outside of a message a field starts one, or is passed over. -/
theorem parseFrom_ended_outside (plain : fixDelimiter ∉ field) (awaits : s.Awaits none)
    (done : parseFrom past (field ++ fixDelimiter :: rest) i s = .ok u) :
    ∃ t next, parseFrom past rest (i + field.length + 1) t = .ok u ∧ t.Awaits next ∧
      next.isSome = opensBehind false field ∧ s.SameOutput t := by
  have houtside := parseFrom_outside past rest i plain awaits.2.1 awaits.1
  split at houtside
  · rename_i hstart
    obtain ⟨value, hparse⟩ := houtside
    obtain ⟨t, hdelimiter, hawaits⟩ := delimiter_atVersion value (i + field.length) awaits
    rw [hparse, parseFrom_delimiter rfl, hdelimiter] at done
    refine ⟨t, some none, done, hawaits, decide_eq_true hstart |>.symm, ?_⟩
    obtain ⟨tag, -, ⟨-, rfl⟩ | ⟨hlast, -⟩⟩ := delimiter_cases hdelimiter
    · exact ⟨rfl, rfl, rfl⟩
    · rw [atVersion, awaits.1.2.2.2] at hlast
      cases hlast
  · rename_i hstart
    rw [houtside, parseFrom_skip awaits.2.1 (by simp)] at done
    exact ⟨s, none, done, awaits, decide_eq_false hstart |>.symm, rfl, rfl, rfl⟩

/-- Inside of a message a field ends it, and the message is delivered, or is read into it. -/
theorem parseFrom_ended_inside {number : Option Bytes} (plain : fixDelimiter ∉ field)
    (awaits : s.Awaits (some number))
    (done : parseFrom past (field ++ fixDelimiter :: rest) i s = .ok u) :
    ∃ t next, parseFrom past rest (i + field.length + 1) t = .ok u ∧ t.Awaits next ∧
      next.isSome = opensBehind true field ∧
        if EndsMessage field then
          t.messages ≠ [] ∧ t.remainingBytesStartIndex = i + (field.length + 1) ∧
            s.numOfFixMessages < t.numOfFixMessages
        else s.SameOutput t := by
  rw [parseFrom_take plain awaits.2.1 (by simp), foldl_take_field field awaits.1,
    parseFrom_delimiter (s := s.atField field) awaits.2.1] at done
  obtain ⟨t, hdelimiter, done⟩ := bind_eq_ok.mp done
  obtain ⟨tag, hread, hcases⟩ := delimiter_cases hdelimiter
  by_cases hends : EndsMessage field
  · have hlast := delimiter_ends (i + field.length) awaits hends
    split at hlast
    · obtain ⟨other, hother, hawaits⟩ := hlast
      rw [hdelimiter] at hother
      cases hother
      refine ⟨t, none, done, hawaits, by simp [opensBehind, hends], ?_⟩
      obtain ⟨hopen, -⟩ | ⟨-, message, -, rfl⟩ := hcases
      · simp [atField, hends] at hopen
      · rw [if_pos hends]
        exact ⟨by simp [deliver], rfl, Nat.lt_succ_self _⟩
    · rw [hdelimiter] at hlast
      cases hlast
  · obtain ⟨other, hother, hawaits⟩ := delimiter_continues (i + field.length) awaits hread hends
    rw [hdelimiter] at hother
    cases hother
    refine ⟨t, _, done, hawaits, by simp [opensBehind, hends], ?_⟩
    obtain ⟨-, rfl⟩ | ⟨hclosed, -⟩ := hcases
    · rw [if_neg hends]
      exact ⟨rfl, rfl, rfl⟩
    · simp [atField, hends] at hclosed

/-- At a field that a delimiter ends the loop delivers the message that ends there, if any. -/
theorem parseFrom_ended (plain : fixDelimiter ∉ field) (awaits : s.Awaits state)
    (done : parseFrom past (field ++ fixDelimiter :: rest) i s = .ok u) :
    ∃ t next, parseFrom past rest (i + field.length + 1) t = .ok u ∧ t.Awaits next ∧
      next.isSome = opensBehind state.isSome field ∧
        if state.isSome = true ∧ EndsMessage field then
          t.messages ≠ [] ∧ t.remainingBytesStartIndex = i + (field.length + 1) ∧
            s.numOfFixMessages < t.numOfFixMessages
        else s.SameOutput t := by
  cases state with
  | none =>
    obtain ⟨t, next, hrest, hawaits, hopens, hsame⟩ := parseFrom_ended_outside plain awaits done
    exact ⟨t, next, hrest, hawaits, hopens, hsame⟩
  | some number =>
    obtain ⟨t, next, hrest, hawaits, hopens, hhere⟩ := parseFrom_ended_inside plain awaits done
    refine ⟨t, next, hrest, hawaits, hopens, ?_⟩
    simpa using hhere

/-- Between the states `s` and `t` the loop has read these bytes, from index `i` on. -/
def Delivers (inside : Bool) (bytes : Bytes) (i : Nat) (s t : ParserState) : Prop :=
  (NoEnd inside bytes ∧ s.SameOutput t) ∨
    ∃ front, LastEnd inside bytes front ∧ t.messages ≠ [] ∧
      t.remainingBytesStartIndex = i + front.length ∧ s.numOfFixMessages < t.numOfFixMessages

theorem parseFrom_delivers (awaits : s.Awaits state)
    (done : parseFrom past buffer i s = .ok u) : Delivers state.isSome buffer i s u := by
  induction hlength : buffer.length using Nat.strong_induction_on generalizing buffer i s state with
  | _ length ih =>
  by_cases hmem : fixDelimiter ∈ buffer
  · obtain ⟨field, rest, rfl, hplain⟩ := List.eq_append_cons_of_mem hmem
    obtain ⟨t, next, hrest, hawaits, hnext, hhere⟩ := parseFrom_ended hplain awaits done
    have hbehind := ih rest.length (by simp at hlength; omega) hawaits hrest rfl
    rw [hnext] at hbehind
    split at hhere
    · rename_i hends
      obtain ⟨hmessages, hstart, hnum⟩ := hhere
      right
      rcases hbehind with ⟨hnone, hsame⟩ | ⟨front, hlast, hdelivered, hleft, hmore⟩
      · rw [hends.1] at hnone ⊢
        refine ⟨_, lastEnd_field hplain hends.2 hnone, ?_, ?_, ?_⟩
        · rw [hsame.1]
          exact hmessages
        · rw [hsame.2.1, hstart]
          simp
        · rw [hsame.2.2]
          exact hnum
      · refine ⟨_, hlast.behind hplain, hdelivered, ?_, hnum.trans hmore⟩
        rw [hleft]
        simp only [List.length_append, List.length_cons]
        omega
    · rename_i hgoes
      rcases hbehind with ⟨hnone, hsame⟩ | ⟨front, hlast, hdelivered, hleft, hmore⟩
      · exact Or.inl ⟨noEnd_field hplain hgoes hnone, hhere.trans hsame⟩
      · right
        refine ⟨_, hlast.behind hplain, hdelivered, ?_, hhere.2.2 ▸ hmore⟩
        rw [hleft]
        simp only [List.length_append, List.length_cons]
        omega
  · have hparse : ∃ t, parseFrom past buffer i s = .ok t ∧ s.SameOutput t :=
      parseFrom_withoutDelimiter hmem
    obtain ⟨t, hparse, hsame⟩ := hparse
    rw [hparse] at done
    cases done
    exact Or.inl ⟨noEnd_of_not_mem hmem, hsame⟩

/-- A call that returns either finds no end of a message, or leaves what is behind the last. -/
theorem parseMultipleMessagesFromBuffer_delivers {indeterminate : MessageType}
    (done : parseMultipleMessagesFromBuffer indeterminate buffer past = .ok u) :
    (NoEnd false buffer ∧ u.messages = [] ∧ u.numOfFixMessages = 0) ∨
      ∃ front, LastEnd false buffer front ∧ u.messages ≠ [] ∧
        u.remainingBytesStartIndex = front.length ∧ 0 < u.numOfFixMessages := by
  rcases parseFrom_delivers (initial_awaits indeterminate) done with
    ⟨hnone, hmessages, -, hnum⟩ | ⟨front, hlast, hmessages, hstart, hnum⟩
  · exact Or.inl ⟨hnone, hmessages, hnum⟩
  · rw [Nat.zero_add] at hstart
    exact Or.inr ⟨front, hlast, hmessages, hstart, hnum⟩

end Loop

end LiteExchange.Fix
