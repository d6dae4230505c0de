import LiteExchange.Core.MemoryMappedFile
import LiteExchange.Foundation.Files
import LiteExchange.Foundation.Refinement
import LiteExchange.Fix.FileParser
import LiteExchange.Fix.ReactorRuns

/-!
# The files of the sequence store

Source: fix_sequence_store.h and its calls of file_utility.h. An update deletes the file of a
comp id, opens it for appending and writes the two numbers; the process may be killed between any
two of these calls. `creatable` says for which paths the system can make a file: not for one that
is too long, nor for one below a directory that is not there. Files are told apart by their paths;
only a comp id with a slash could lead to one file by two of them.
-/

namespace LiteExchange.Fix

open Foundation.Ascii Foundation.Files Foundation.Runs Foundation.Refinement

namespace SequenceFiles

def getSequenceStoreFileName (senderCompId targetCompId : Bytes) : Bytes :=
  senderCompId ++ ascii "_" ++ targetCompId ++ ascii "_sequence.txt"

/-- What the system calls see of the name: they get its `c_str()`. -/
def path (senderCompId targetCompId : Bytes) : Bytes :=
  Core.cString (getSequenceStoreFileName senderCompId targetCompId)

def comma : UInt8 := 44

def slash : UInt8 := 47

/-- `numbers[0]` and `numbers[1]` are not checked against the number of tokens. -/
def loadFromSequenceStore (files : Directory Bytes UInt8) (senderCompId targetCompId : Bytes) :
    Except FileError (Int × Int) :=
  match files (path senderCompId targetCompId) with
  | none => .ok (1, 0)
  | some fileContent => do
    let numbers := split fileContent comma
    let outgoingSequenceNumber ← (stoi (← tokenAt numbers 0)).mapError .conversion
    let incomingSequenceNumber ← (stoi (← tokenAt numbers 1)).mapError .conversion
    pure (outgoingSequenceNumber, incomingSequenceNumber)

def newContent (outgoingSequenceNumber incomingSequenceNumber : Int) : Bytes :=
  intText outgoingSequenceNumber ++ comma :: intText incomingSequenceNumber

/-- A call of `updateSequenceStore`, as far as the process got with it. -/
structure Update where
  targetCompId : Bytes
  outgoingSequenceNumber : Int32
  incomingSequenceNumber : Int32
  progress : Progress

namespace Update

def replacement (senderCompId : Bytes) (update : Update) : Replacement Bytes UInt8 where
  name := path senderCompId update.targetCompId
  text := newContent update.outgoingSequenceNumber.toInt update.incomingSequenceNumber.toInt
  progress := update.progress

def updateSequenceStore (creatable : Bytes → Bool) (senderCompId : Bytes)
    (files : Directory Bytes UInt8) (update : Update) : Directory Bytes UInt8 :=
  (update.replacement senderCompId).perform creatable files

end Update

/-! ## What is loaded again -/

theorem comma_notMem_intText (n : Int) : comma ∉ intText n := by
  intro hmem
  rcases mem_intText hmem with hminus | hdigit
  · exact absurd hminus (by decide)
  · exact absurd hdigit (by decide)

theorem intText_ne_nil (n : Int) : intText n ≠ [] := by
  cases n with
  | ofNat n => exact natText_ne_nil n
  | negSucc n => exact List.cons_ne_nil _ _

theorem split_newContent (outgoingSequenceNumber incomingSequenceNumber : Int) :
    split (newContent outgoingSequenceNumber incomingSequenceNumber) comma =
      [intText outgoingSequenceNumber, intText incomingSequenceNumber] := by
  have hlength : (newContent outgoingSequenceNumber incomingSequenceNumber).length > 0 := by
    simp [newContent]
  have hlast : splitFrom comma [] (intText incomingSequenceNumber) =
      [intText incomingSequenceNumber] := by
    rw [splitFrom_of_not_mem (comma_notMem_intText _) (by simpa using intText_ne_nil _),
      List.nil_append]
  rw [split, if_pos hlength, newContent, splitFrom_append _ (comma_notMem_intText _), hlast,
    List.nil_append]

theorem stoi_intText (n : Int32) : stoi (intText n.toInt) = .ok n.toInt :=
  parseInteger_intText n.le_toInt (by have := n.toInt_lt; omega)

section Load

variable {files : Directory Bytes UInt8} {senderCompId targetCompId : Bytes}

theorem load_absent (h : files (path senderCompId targetCompId) = none) :
    loadFromSequenceStore files senderCompId targetCompId = .ok (1, 0) := by
  rw [loadFromSequenceStore, h]

/-- An empty file has no token: `numbers[0]` is out of range. -/
theorem load_empty (h : files (path senderCompId targetCompId) = some []) :
    loadFromSequenceStore files senderCompId targetCompId = .error .outsideTokens := by
  rw [loadFromSequenceStore, h]
  rfl

theorem load_written {outgoingSequenceNumber incomingSequenceNumber : Int32}
    (h : files (path senderCompId targetCompId) =
      some (newContent outgoingSequenceNumber.toInt incomingSequenceNumber.toInt)) :
    loadFromSequenceStore files senderCompId targetCompId =
      .ok (outgoingSequenceNumber.toInt, incomingSequenceNumber.toInt) := by
  have hsplit := split_newContent outgoingSequenceNumber.toInt incomingSequenceNumber.toInt
  rw [loadFromSequenceStore, h]
  simp only [hsplit, tokenAt, List.getElem?_cons_zero, List.getElem?_cons_succ, bind, Except.bind,
    stoi_intText]
  rfl

/-- The load depends on the file of the comp id only. -/
theorem load_congr {other : Directory Bytes UInt8}
    (h : files (path senderCompId targetCompId) = other (path senderCompId targetCompId)) :
    loadFromSequenceStore files senderCompId targetCompId =
      loadFromSequenceStore other senderCompId targetCompId := by
  rw [loadFromSequenceStore, loadFromSequenceStore, h]

end Load

/-- What the next load gives after an update that has deleted the file: the numbers start again
until they are written, and between the open and the write the file has no numbers. -/
def Update.restored (creatable : Bytes → Bool) (senderCompId : Bytes) (update : Update) :
    Except FileError (Int × Int) :=
  if creatable (path senderCompId update.targetCompId) then
    match update.progress with
    | .begun => .ok (1, 0)
    | .deleted => .ok (1, 0)
    | .opened => .error .outsideTokens
    | .written => .ok (update.outgoingSequenceNumber.toInt, update.incomingSequenceNumber.toInt)
  else .ok (1, 0)

theorem Update.load_leaves {creatable : Bytes → Bool} {files : Directory Bytes UInt8}
    {senderCompId targetCompId : Bytes} {update : Update}
    (same : path senderCompId update.targetCompId = path senderCompId targetCompId)
    (h : files (path senderCompId targetCompId) =
      (update.replacement senderCompId).leaves creatable) :
    loadFromSequenceStore files senderCompId targetCompId =
      update.restored creatable senderCompId := by
  unfold Replacement.leaves Update.replacement at h
  unfold Update.restored
  rw [same] at h ⊢
  by_cases hcreatable : creatable (path senderCompId targetCompId) = true
  · rw [if_pos hcreatable] at h ⊢
    cases hprogress : update.progress with
    | begun =>
      rw [hprogress] at h
      exact load_absent h
    | deleted =>
      rw [hprogress] at h
      exact load_absent h
    | opened =>
      rw [hprogress] at h
      exact load_empty h
    | written =>
      rw [hprogress] at h
      exact load_written h
  · rw [if_neg hcreatable] at h ⊢
    exact load_absent h

/-- After any updates, killed at any call of theirs, a comp id is restored as the last update that
deleted the file of its path has left it. -/
theorem load_after_updates (creatable : Bytes → Bool) (senderCompId : Bytes)
    (files : Directory Bytes UInt8) (updates : List Update) (targetCompId : Bytes) :
    loadFromSequenceStore
        (updates.foldl (Update.updateSequenceStore creatable senderCompId) files)
        senderCompId targetCompId =
      match updates.reverse.find? fun update => (update.replacement senderCompId).Touches
          (path senderCompId targetCompId) with
      | some update => update.restored creatable senderCompId
      | none => loadFromSequenceStore files senderCompId targetCompId := by
  have hfold : updates.foldl (Update.updateSequenceStore creatable senderCompId) files =
      (updates.map (Update.replacement senderCompId)).foldl (Replacement.perform creatable)
        files := by
    rw [List.foldl_map]
    rfl
  have hperformed := Replacement.performed creatable files
    (updates.map (Update.replacement senderCompId)) (path senderCompId targetCompId)
  rw [← hfold, ← List.map_reverse, List.find?_map] at hperformed
  cases hfind : updates.reverse.find? fun update => (update.replacement senderCompId).Touches
      (path senderCompId targetCompId) with
  | some update =>
    have hsame : path senderCompId update.targetCompId = path senderCompId targetCompId := by
      have htouches := List.find?_some hfind
      exact (of_decide_eq_true htouches).2
    refine update.load_leaves hsame ?_
    simp only [hperformed, Function.comp_def, hfind, Option.map_some]
  | none =>
    refine load_congr ?_
    simp only [hperformed, Function.comp_def, hfind, Option.map_none]

/-! ## Comp ids and their paths -/

theorem path_of_notMem {senderCompId targetCompId : Bytes} (sender : 0 ∉ senderCompId)
    (target : 0 ∉ targetCompId) :
    path senderCompId targetCompId = getSequenceStoreFileName senderCompId targetCompId := by
  refine List.takeWhile_eq_self_iff.mpr fun b hb => bne_iff_ne.mpr ?_
  rintro rfl
  have hliterals : (0 : UInt8) ∉ ascii "_" ∧ (0 : UInt8) ∉ ascii "_sequence.txt" := by decide
  simp only [getSequenceStoreFileName, List.mem_append] at hb
  rcases hb with ((hb | hb) | hb) | hb
  · exact sender hb
  · exact hliterals.1 hb
  · exact target hb
  · exact hliterals.2 hb

/-- Comp ids without a zero byte have files of their own. -/
theorem path_injective {senderCompId first second : Bytes} (sender : 0 ∉ senderCompId)
    (hfirst : 0 ∉ first) (hsecond : 0 ∉ second)
    (h : path senderCompId first = path senderCompId second) : first = second := by
  rw [path_of_notMem sender hfirst, path_of_notMem sender hsecond] at h
  exact List.append_cancel_left (List.append_cancel_right h)

end SequenceFiles

end LiteExchange.Fix
