import LiteExchange.Fix.FileParser
import Mathlib.Data.Multiset.AddSub
import Mathlib.Data.List.DropRight

/-!
# Loading a configuration file

Source: `Configuration::loadFromFile` and `addAttribute`, `trim` of `string_utility.h`; the
`core::split` it calls is the one of the parser. The loop counts the lines, skips comments and
empty lines and throws at the first line that is not one attribute with one value. `split` has
no second token for a line whose value is empty.
-/

namespace LiteExchange.Core

open Foundation.Ascii
open LiteExchange.Fix (split splitFrom splitFrom_append splitFrom_of_not_mem)

/-! ## Lines -/

def trimLeft (inputString : Bytes) : Bytes := inputString.dropWhile isSpace

def trimRight (inputString : Bytes) : Bytes := inputString.rdropWhile isSpace

def trim (inputString : Bytes) : Bytes := trimRight (trimLeft inputString)

/-- `std::string::find` of one character; `none` is `npos`. -/
def find (line : Bytes) (character : UInt8) (position : Nat) : Option Nat :=
  ((line.drop position).findIdx? (· == character)).map (position + ·)

def newLine : UInt8 := 10

def commentSign : UInt8 := 35

def equalsSign : UInt8 := 61

/-- What `getline` reads from the file, call by call: the loop of `split` with the end of a line
as separator. -/
def getLines (content : Bytes) : List Bytes := split content newLine

/-! ## The dictionary -/

/-- An `unordered_multimap` keeps each pair that is inserted, in no order. -/
structure Configuration where
  dictionary : Multiset (Bytes × Bytes)
  deriving DecidableEq

namespace Configuration

inductive LoadError where
  | couldNotBeOpened (fileName : Bytes)
  | tooShort (lineNumber : Nat)
  | noEqualsSign (lineNumber : Nat)
  | moreThanOneEqualsSign (lineNumber : Nat)
  /-- `tokens[1]` behind the last token: nothing is thrown, the access is undefined. -/
  | outsideTokens
  deriving DecidableEq, Repr

/-- The message of the runtime error. -/
def LoadError.message : LoadError → Option Bytes
  | .couldNotBeOpened fileName => some (ascii "File " ++ fileName ++ ascii " could not be opened")
  | .tooShort lineNumber => some (ascii "Line is too short , line number : " ++ natText lineNumber)
  | .noEqualsSign lineNumber =>
    some (ascii "Line doesn`t contain equals sign , line number : " ++ natText lineNumber)
  | .moreThanOneEqualsSign lineNumber =>
    some (ascii "Line contains more than one equals sign , line number : " ++ natText lineNumber)
  | .outsideTokens => none

def addAttribute (config : Configuration) (attributeName value : Bytes) : Configuration :=
  { dictionary := (attributeName, value) ::ₘ config.dictionary }

/-- One round of the loop. An error leaves what the lines in front have put into the dictionary. -/
def loadLine (config : Configuration) (lineNumber : Nat) (line : Bytes) :
    Except LoadError Configuration :=
  let line := trim line
  let lineLength := line.length
  if line.head? = some commentSign ∨ lineLength = 0 then .ok config
  else if lineLength < 3 then .error (.tooShort lineNumber)
  else
    match find line equalsSign 0 with
    | none => .error (.noEqualsSign lineNumber)
    | some equalsPos =>
      if find line equalsSign (equalsPos + 1) ≠ none then
        .error (.moreThanOneEqualsSign lineNumber)
      else
        let tokens := split line equalsSign
        match tokens[0]?, tokens[1]? with
        | some attributeName, some value => .ok (config.addAttribute attributeName value)
        | _, _ => .error .outsideTokens

/-- The loop: what is thrown, and the dictionary behind. -/
def loadLines (lineNumber : Nat) :
    List Bytes → Configuration → Except LoadError Unit × Configuration
  | [], config => (.ok (), config)
  | line :: rest, config =>
    match config.loadLine (lineNumber + 1) line with
    | .error error => (.error error, config)
    | .ok config => loadLines (lineNumber + 1) rest config

/-- `file` is `none` where the file cannot be opened. -/
def loadFromFile (fileName : Bytes) (file : Option Bytes) (config : Configuration) :
    Except LoadError Unit × Configuration :=
  let config := { config with dictionary := 0 }
  match file with
  | none => (.error (.couldNotBeOpened fileName), config)
  | some content => loadLines 0 (getLines content) config

/-! ## What a file says -/

/-- Neither empty nor a comment. -/
def Significant (line : Bytes) : Prop := line ≠ [] ∧ line.head? ≠ some commentSign

/-- Too short, or not exactly one equals sign. -/
def Malformed (line : Bytes) : Prop := line.length < 3 ∨ line.count equalsSign ≠ 1

def EmptyValue (line : Bytes) : Prop := line.getLast? = some equalsSign

instance (line : Bytes) : Decidable (Significant line) := inferInstanceAs (Decidable (_ ∧ _))
instance (line : Bytes) : Decidable (Malformed line) := inferInstanceAs (Decidable (_ ∨ _))
instance (line : Bytes) : Decidable (EmptyValue line) := inferInstanceAs (Decidable (_ = _))

/-- The texts in front of the equals sign and behind it. -/
def pairOf (line : Bytes) : Bytes × Bytes :=
  (line.takeWhile (· != equalsSign), (line.dropWhile (· != equalsSign)).drop 1)

def significant (lines : List Bytes) : List Bytes :=
  (lines.map trim).filter fun line => decide (Significant line)

def significantLines (content : Bytes) : List Bytes := significant (getLines content)

/-- The line that the error names is there and has the fault. -/
def LoadError.Reports (content : Bytes) (error : LoadError) : Prop :=
  ∃ i line, (getLines content)[i]? = some line ∧ Significant (trim line) ∧
    (error = .tooShort (i + 1) ∧ (trim line).length < 3 ∨
      error = .noEqualsSign (i + 1) ∧ (trim line).count equalsSign = 0 ∨
      error = .moreThanOneEqualsSign (i + 1) ∧ 1 < (trim line).count equalsSign)

/-- An error reports a malformed line, or each line is well formed and the dictionary holds its
pair. -/
def LoadsExactly (content : Bytes) (result : Except LoadError Unit × Configuration) : Prop :=
  (∃ error, result.1 = .error error ∧ error.Reports content) ∨
    result.1 = .ok () ∧ (∀ line ∈ significantLines content, ¬ Malformed line) ∧
      result.2.dictionary = ((significantLines content).map pairOf : List (Bytes × Bytes))

section Lines

variable {line key value : Bytes} {config next : Configuration} {lineNumber : Nat}
  {lines : List Bytes} {error : LoadError}

/-- A line with one equals sign has a text on each side of it. -/
theorem sides_of_count (h : line.count equalsSign = 1) :
    ∃ key value, line = key ++ equalsSign :: value ∧ equalsSign ∉ key ∧ equalsSign ∉ value := by
  have hmem : equalsSign ∈ line := List.count_pos_iff.mp (by omega)
  obtain ⟨key, value, rfl, hkey⟩ := List.eq_append_cons_of_mem hmem
  rw [List.count_append, List.count_cons_self, List.count_eq_zero_of_not_mem hkey] at h
  exact ⟨key, value, rfl, hkey, List.count_eq_zero.mp (by omega)⟩

theorem find_none {position : Nat} :
    find line equalsSign position = none ↔ equalsSign ∉ line.drop position := by
  rw [find, Option.map_eq_none_iff, List.findIdx?_eq_none_iff]
  simp only [beq_eq_false_iff_ne, ne_eq]
  exact ⟨fun h hmem => h _ hmem rfl, fun h b hb he => h (he ▸ hb)⟩

theorem find_first (absent : equalsSign ∉ key) :
    find (key ++ equalsSign :: value) equalsSign 0 = some key.length := by
  rw [find, List.drop_zero, List.findIdx?_append, List.findIdx?_eq_none_iff.mpr]
  · simp [List.findIdx?_cons]
  · intro b hb
    exact beq_eq_false_iff_ne.mpr fun he => absent (he ▸ hb)

theorem pairOf_append (absent : equalsSign ∉ key) :
    pairOf (key ++ equalsSign :: value) = (key, value) := by
  have hkey : ∀ b ∈ key, (b != equalsSign) = true := by
    intro b hb
    exact bne_iff_ne.mpr fun he => absent (he ▸ hb)
  rw [pairOf, List.takeWhile_append_of_pos hkey, List.dropWhile_append_of_pos hkey]
  simp

theorem emptyValue_append (absent : equalsSign ∉ value) :
    EmptyValue (key ++ equalsSign :: value) ↔ value = [] := by
  constructor
  · intro h
    by_contra hvalue
    have hlast : value.getLast? = some equalsSign := by
      rw [EmptyValue, List.getLast?_append, List.getLast?_cons] at h
      cases hvalueLast : value.getLast? with
      | none => exact absurd (List.getLast?_eq_none_iff.mp hvalueLast) hvalue
      | some last =>
        rw [hvalueLast] at h
        exact h
    exact absent (List.mem_of_getLast? hlast)
  · rintro rfl
    simp [EmptyValue]

/-- A comment or an empty line is skipped. -/
theorem loadLine_skips (h : ¬ Significant (trim line)) :
    config.loadLine lineNumber line = .ok config := by
  refine if_pos ?_
  by_contra hneither
  rw [not_or] at hneither
  exact h ⟨fun hnil => hneither.2 (by rw [hnil]; rfl), hneither.1⟩

/-- A malformed line is reported, with its number. -/
theorem loadLine_malformed (config : Configuration) (lineNumber : Nat)
    (h : Significant (trim line)) (malformed : Malformed (trim line)) :
    ∃ error, config.loadLine lineNumber line = .error error ∧
      (error = .tooShort lineNumber ∧ (trim line).length < 3 ∨
        error = .noEqualsSign lineNumber ∧ (trim line).count equalsSign = 0 ∨
        error = .moreThanOneEqualsSign lineNumber ∧ 1 < (trim line).count equalsSign) := by
  have hguard : ¬ ((trim line).head? = some commentSign ∨ (trim line).length = 0) :=
    not_or.mpr ⟨h.2, fun hzero => h.1 (List.length_eq_zero_iff.mp hzero)⟩
  unfold loadLine
  simp only [if_neg hguard]
  by_cases hshort : (trim line).length < 3
  · rw [if_pos hshort]
    exact ⟨_, rfl, .inl ⟨rfl, hshort⟩⟩
  rw [if_neg hshort]
  by_cases hmem : equalsSign ∈ trim line
  · obtain ⟨key, value, hline, hkey⟩ := List.eq_append_cons_of_mem hmem
    have hcount : (trim line).count equalsSign = value.count equalsSign + 1 := by
      rw [hline, List.count_append, List.count_cons_self, List.count_eq_zero_of_not_mem hkey,
        Nat.zero_add]
    have hone := malformed.resolve_left hshort
    have hvalue : equalsSign ∈ value := List.count_pos_iff.mp (by omega)
    have hsecond : find (trim line) equalsSign (key.length + 1) ≠ none := by
      rw [Ne, find_none, hline, List.drop_length_add_append]
      exact fun hnot => hnot hvalue
    rw [show find (trim line) equalsSign 0 = some key.length by rw [hline, find_first hkey]]
    simp only [if_pos hsecond]
    exact ⟨_, rfl, .inr (.inr ⟨rfl, by omega⟩)⟩
  · rw [find_none.mpr (by simpa using hmem)]
    exact ⟨_, rfl, .inr (.inl ⟨rfl, List.count_eq_zero_of_not_mem hmem⟩)⟩

/-- A well-formed line puts its pair into the dictionary, if it has a value. -/
theorem loadLine_wellFormed (h : Significant (trim line)) (wellFormed : ¬ Malformed (trim line)) :
    config.loadLine lineNumber line =
      if EmptyValue (trim line) then .error .outsideTokens
      else .ok (config.addAttribute (pairOf (trim line)).1 (pairOf (trim line)).2) := by
  have hguard : ¬ ((trim line).head? = some commentSign ∨ (trim line).length = 0) :=
    not_or.mpr ⟨h.2, fun hzero => h.1 (List.length_eq_zero_iff.mp hzero)⟩
  obtain ⟨hlong, hone⟩ := not_or.mp wellFormed
  obtain ⟨key, value, hline, hkey, hvalue⟩ := sides_of_count (not_not.mp hone)
  have hsecond : ¬ find (trim line) equalsSign (key.length + 1) ≠ none := by
    rw [not_not, find_none, hline, List.drop_length_add_append]
    exact hvalue
  have hnonempty : 0 < (trim line).length := by omega
  unfold loadLine
  simp only [if_neg hguard, if_neg hlong]
  rw [show find (trim line) equalsSign 0 = some key.length by rw [hline, find_first hkey]]
  simp only [if_neg hsecond, split, if_pos hnonempty]
  rw [hline, splitFrom_append _ hkey, pairOf_append hkey]
  by_cases hempty : value = []
  · subst hempty
    rw [if_pos ((emptyValue_append hvalue).mpr rfl)]
    rfl
  · rw [if_neg (mt (emptyValue_append hvalue).mp hempty), splitFrom_of_not_mem hvalue
      (by simpa using hempty)]
    rfl

/-! ## The loop -/

theorem significant_append (front back : List Bytes) :
    significant (front ++ back) = significant front ++ significant back := by
  simp [significant]

theorem significant_one (h : Significant (trim line)) : significant [line] = [trim line] := by
  simp [significant, h]

theorem significant_skip (h : ¬ Significant (trim line)) : significant [line] = [] := by
  simp [significant, h]

/-- A line that is malformed or has no value ends the loop. -/
theorem loadLine_stops (config : Configuration) (lineNumber : Nat) (h : Significant (trim line))
    (fault : Malformed (trim line) ∨ EmptyValue (trim line)) :
    ∃ error, config.loadLine lineNumber line = .error error := by
  by_cases hmalformed : Malformed (trim line)
  · obtain ⟨error, herror, -⟩ := loadLine_malformed config lineNumber h hmalformed
    exact ⟨error, herror⟩
  · rw [loadLine_wellFormed h hmalformed, if_pos (fault.resolve_left hmalformed)]
    exact ⟨_, rfl⟩

/-- The other lines put what they say into the dictionary. -/
theorem loadLine_loads (config : Configuration) (lineNumber : Nat)
    (loads : ¬ (Significant (trim line) ∧ (Malformed (trim line) ∨ EmptyValue (trim line)))) :
    (∀ kept ∈ significant [line], ¬ Malformed kept ∧ ¬ EmptyValue kept) ∧
      ∃ next, config.loadLine lineNumber line = .ok next ∧
        next.dictionary =
          config.dictionary + ((significant [line]).map pairOf : List (Bytes × Bytes)) := by
  by_cases hsignificant : Significant (trim line)
  · obtain ⟨hwellFormed, hvalue⟩ := not_or.mp fun fault => loads ⟨hsignificant, fault⟩
    rw [significant_one hsignificant]
    refine ⟨fun kept hkept => ?_, _, (loadLine_wellFormed hsignificant hwellFormed).trans
      (if_neg hvalue), ?_⟩
    · obtain rfl := List.mem_singleton.mp hkept
      exact ⟨hwellFormed, hvalue⟩
    · rw [Multiset.add_comm]
      rfl
  · rw [significant_skip hsignificant]
    exact ⟨by simp, config, loadLine_skips hsignificant,
      (Multiset.add_zero _).symm⟩

/-- The loop loads the lines in front of the first that is malformed or has no value, and ends
there with its error. -/
theorem loadLines_front (lineNumber : Nat) (lines : List Bytes) (config : Configuration) :
    ∃ front back, lines = front ++ back ∧
      (∀ line ∈ significant front, ¬ Malformed line ∧ ¬ EmptyValue line) ∧
      (loadLines lineNumber lines config).2.dictionary =
        config.dictionary + ((significant front).map pairOf : List (Bytes × Bytes)) ∧
      (back = [] ∧ (loadLines lineNumber lines config).1 = .ok () ∨
        ∃ line rest error before, back = line :: rest ∧ Significant (trim line) ∧
          (Malformed (trim line) ∨ EmptyValue (trim line)) ∧
          loadLine before (lineNumber + front.length + 1) line = .error error ∧
          (loadLines lineNumber lines config).1 = .error error) := by
  induction lines generalizing lineNumber config with
  | nil =>
    exact ⟨[], [], rfl, by simp [significant], (Multiset.add_zero _).symm, .inl ⟨rfl, rfl⟩⟩
  | cons line lines ih =>
    by_cases hstops : Significant (trim line) ∧ (Malformed (trim line) ∨ EmptyValue (trim line))
    · obtain ⟨hsignificant, hfault⟩ := hstops
      obtain ⟨error, herror⟩ := loadLine_stops config (lineNumber + 1) hsignificant hfault
      have hloop : loadLines lineNumber (line :: lines) config = (.error error, config) := by
        rw [loadLines, herror]
      rw [hloop]
      refine ⟨[], line :: lines, rfl, by simp [significant], (Multiset.add_zero _).symm, .inr ?_⟩
      exact ⟨line, lines, error, config, rfl, hsignificant, hfault, herror, rfl⟩
    · obtain ⟨hclean, next, hround, hpairs⟩ := loadLine_loads config (lineNumber + 1) hstops
      have hloop : loadLines lineNumber (line :: lines) config =
          loadLines (lineNumber + 1) lines next := by
        rw [loadLines, hround]
      obtain ⟨front, back, rfl, hfront, hdictionary, hend⟩ := ih (lineNumber + 1) next
      have hsplit : significant (line :: front) = significant [line] ++ significant front :=
        significant_append [line] front
      rw [hloop]
      refine ⟨line :: front, back, rfl, ?_, ?_, ?_⟩
      · intro kept hkept
        rw [hsplit, List.mem_append] at hkept
        exact hkept.elim (hclean kept) (hfront kept)
      · rw [hdictionary, hpairs, hsplit, List.map_append, Multiset.add_assoc, Multiset.coe_add]
      · rw [List.length_cons, ← Nat.add_assoc, Nat.add_right_comm lineNumber]
        exact hend

end Lines

/-- In front of the first malformed line each line has a value. -/
def ValuesInFront (content : Bytes) : Prop :=
  ∀ line ∈ (significantLines content).takeWhile fun line => ¬ Malformed line, ¬ EmptyValue line

/-- The access behind the tokens is no error that reports a line. -/
theorem not_loadsExactly_of_outsideTokens {content : Bytes}
    {result : Except LoadError Unit × Configuration} (h : result.1 = .error .outsideTokens) :
    ¬ LoadsExactly content result := by
  rintro (⟨error, hthrown, i, line, -, -, hkind⟩ | ⟨hok, -⟩)
  · obtain rfl := Except.error.inj (h.symm.trans hthrown)
    simp at hkind
  · rw [h] at hok
    cases hok

/-- A file is loaded exactly if and only if each line in front of the first malformed one has a
value behind its equals sign. -/
theorem loadsExactly_iff (fileName content : Bytes) (config : Configuration) :
    LoadsExactly content (loadFromFile fileName (some content) config) ↔
      ValuesInFront content := by
  obtain ⟨front, back, hlines, hfront, hdictionary, hend⟩ :=
    loadLines_front 0 (getLines content) { config with dictionary := 0 }
  have hwell : ∀ line ∈ significant front, decide (¬ Malformed line) = true :=
    fun line hline => decide_eq_true (hfront line hline).1
  rcases hend with ⟨rfl, hok⟩ |
    ⟨line, rest, error, before, rfl, hsignificant, hfault, hround, herror⟩
  · -- Every line is loaded.
    rw [List.append_nil] at hlines
    have hall : significantLines content = significant front := by rw [significantLines, hlines]
    refine iff_of_true (.inr ⟨hok, ?_, ?_⟩) ?_
    · intro line hline
      exact (hfront line (hall ▸ hline)).1
    · rw [hall]
      exact hdictionary.trans (Multiset.zero_add _)
    · intro line hline
      exact (hfront line (hall ▸ List.takeWhile_subset _ hline)).2
  · -- The error is the one of the first line that is not loaded.
    have hthrown : (loadFromFile fileName (some content) config).1 = .error error := herror
    have hnamed : (getLines content)[front.length]? = some line := by
      rw [hlines, List.getElem?_append_right le_rfl, Nat.sub_self]
      rfl
    have hlater : significantLines content =
        significant front ++ trim line :: significant rest := by
      rw [significantLines, hlines, significant_append]
      congr 1
      rw [← List.singleton_append, significant_append, significant_one hsignificant]
      rfl
    rw [Nat.zero_add] at hround
    rw [ValuesInFront, hlater, List.takeWhile_append_of_pos hwell]
    by_cases hmalformed : Malformed (trim line)
    · obtain ⟨reported, hreported, hkind⟩ := loadLine_malformed before (front.length + 1)
        hsignificant hmalformed
      obtain rfl := Except.error.inj (hreported.symm.trans hround)
      refine iff_of_true (.inl ⟨_, hthrown, front.length, line, hnamed, hsignificant, hkind⟩) ?_
      intro kept hkept
      rw [List.takeWhile_cons_of_neg (by simpa using hmalformed), List.append_nil] at hkept
      exact (hfront kept hkept).2
    · have hempty := hfault.resolve_left hmalformed
      rw [loadLine_wellFormed hsignificant hmalformed, if_pos hempty] at hround
      obtain rfl := Except.error.inj hround
      refine iff_of_false (not_loadsExactly_of_outsideTokens hthrown) fun hvalues =>
        hvalues (trim line) ?_ hempty
      rw [List.takeWhile_cons_of_pos (by simpa using hmalformed)]
      simp

/-- An attribute without a value. -/
theorem emptyValue_outsideTokens :
    ¬ ∀ (fileName content : Bytes) (config : Configuration),
      LoadsExactly content (loadFromFile fileName (some content) config) := by
  intro h
  exact not_loadsExactly_of_outsideTokens (by decide) (h [] (ascii "ab=") ⟨0⟩)

end Configuration

end LiteExchange.Core
