import Mathlib.Data.List.Induction
import Mathlib.Logic.Function.Basic

/-!
# Files that are deleted and written anew

A directory leads from names to contents. A file is replaced by three calls: it is deleted, opened
for appending, which makes it again where the name allows that, and written. A process may end
behind any of them. What stands under a name in the end is what the last replacement that got as
far as the first call left there.
-/

namespace Foundation.Files

variable {ν β : Type*} [DecidableEq ν]

abbrev Directory (ν β : Type*) := ν → Option (List β)

def delete (files : Directory ν β) (name : ν) : Directory ν β := Function.update files name none

/-- Opening for appending; a name that is not `creatable` has no file to be opened, either. -/
def openAppending (creatable : ν → Bool) (files : Directory ν β) (name : ν) : Directory ν β :=
  if creatable name then Function.update files name (some ((files name).getD [])) else files

/-- The text goes behind what the file has; without a file it goes nowhere. -/
def append (files : Directory ν β) (name : ν) (text : List β) : Directory ν β :=
  Function.update files name ((files name).map (· ++ text))

/-- The last call that was made. -/
inductive Progress where
  | begun | deleted | opened | written
  deriving DecidableEq, Repr

structure Replacement (ν β : Type*) where
  name : ν
  text : List β
  progress : Progress

namespace Replacement

def perform (creatable : ν → Bool) (files : Directory ν β) (replacement : Replacement ν β) :
    Directory ν β :=
  let deleted := delete files replacement.name
  let opened := openAppending creatable deleted replacement.name
  match replacement.progress with
  | .begun => files
  | .deleted => deleted
  | .opened => opened
  | .written => append opened replacement.name replacement.text

/-- What a replacement that has deleted the file leaves under its name. -/
def leaves (creatable : ν → Bool) (replacement : Replacement ν β) : Option (List β) :=
  if creatable replacement.name then
    match replacement.progress with
    | .begun => none
    | .deleted => none
    | .opened => some []
    | .written => some replacement.text
  else none

/-- It has deleted the file of this name. -/
def Touches (name : ν) (replacement : Replacement ν β) : Prop :=
  replacement.progress ≠ .begun ∧ replacement.name = name

instance (name : ν) : DecidablePred (Touches (β := β) name) :=
  fun _ => inferInstanceAs (Decidable (_ ∧ _))

variable {creatable : ν → Bool} {files : Directory ν β} {replacement : Replacement ν β} {name : ν}

theorem perform_other (h : ¬ replacement.Touches name) :
    replacement.perform creatable files name = files name := by
  have hother : replacement.progress ≠ .begun → name ≠ replacement.name :=
    fun hprogress hname => h ⟨hprogress, hname.symm⟩
  unfold perform openAppending append delete
  by_cases hcreatable : creatable replacement.name = true
  · cases hprogress : replacement.progress with
    | begun => rfl
    | deleted => simp [hother (by simp [hprogress])]
    | opened => simp [hother (by simp [hprogress]), hcreatable]
    | written => simp [hother (by simp [hprogress]), hcreatable]
  · cases hprogress : replacement.progress with
    | begun => rfl
    | deleted => simp [hother (by simp [hprogress])]
    | opened => simp [hother (by simp [hprogress]), hcreatable]
    | written => simp [hother (by simp [hprogress]), hcreatable]

theorem perform_self (h : replacement.Touches name) :
    replacement.perform creatable files name = replacement.leaves creatable := by
  obtain ⟨hprogress, rfl⟩ := h
  unfold perform leaves openAppending append delete
  by_cases hcreatable : creatable replacement.name = true
  · cases hlast : replacement.progress with
    | begun => exact absurd hlast hprogress
    | deleted => simp
    | opened => simp [hcreatable]
    | written => simp [hcreatable]
  · cases hlast : replacement.progress with
    | begun => exact absurd hlast hprogress
    | deleted => simp
    | opened => simp [hcreatable]
    | written => simp [hcreatable]

/-- The last replacement that deleted the file decides what is there. -/
theorem performed (creatable : ν → Bool) (files : Directory ν β)
    (replacements : List (Replacement ν β)) (name : ν) :
    replacements.foldl (perform creatable) files name =
      match replacements.reverse.find? fun replacement => replacement.Touches name with
      | some replacement => replacement.leaves creatable
      | none => files name := by
  induction replacements using List.reverseRecOn with
  | nil => rfl
  | append_singleton front last ih =>
    rw [List.foldl_append, List.foldl_cons, List.foldl_nil, List.reverse_append,
      List.reverse_singleton, List.singleton_append, List.find?_cons]
    by_cases hlast : last.Touches name
    · rw [decide_eq_true hlast]
      exact perform_self hlast
    · rw [decide_eq_false hlast, perform_other hlast]
      exact ih

end Replacement

end Foundation.Files
