import Mathlib.Data.Int.Basic
import Mathlib.Data.List.Chain

/-!
# Counters

A counter stamps what it sees with the next number. The numbers stamped so far are
consecutive, and the last one is the value of the counter; a counter that has not stamped
anything may be set to any value.
-/

namespace Foundation.Counter

/-- Each number is the one after the number before it. -/
def Consecutive (numbers : List Int) : Prop := List.IsChain (fun a b => b = a + 1) numbers

/-- The numbers are consecutive and end with the value. -/
structure Counts (numbers : List Int) (value : Int) : Prop where
  consecutive : Consecutive numbers
  last : ∀ number ∈ numbers.getLast?, number = value

theorem counts_nil (value : Int) : Counts [] value :=
  ⟨List.isChain_nil, fun number hnumber => by cases hnumber⟩

theorem Counts.snoc {numbers : List Int} {value : Int} (h : Counts numbers value) :
    Counts (numbers ++ [value + 1]) (value + 1) := by
  constructor
  · rw [Consecutive, List.isChain_append]
    refine ⟨h.consecutive, List.isChain_singleton _, ?_⟩
    intro number hnumber following hfollowing
    have hlast := h.last number hnumber
    simp only [List.head?_cons, Option.mem_def, Option.some.injEq] at hfollowing
    omega
  · intro number hnumber
    simp only [List.getLast?_append, List.getLast?_singleton, Option.some_or, Option.mem_def,
      Option.some.injEq] at hnumber
    exact hnumber.symm

/-- The counter is overwritten: nothing was stamped, or the value is the one it had. -/
theorem Counts.overwrite {numbers : List Int} {value other : Int} (h : Counts numbers value)
    (same : numbers ≠ [] → other = value) : Counts numbers other where
  consecutive := h.consecutive
  last := by
    intro number hnumber
    have hsome : numbers ≠ [] := by
      intro hempty
      rw [hempty] at hnumber
      cases hnumber
    rw [same hsome]
    exact h.last number hnumber

theorem Consecutive.right {front back : List Int} (h : Consecutive (front ++ back)) :
    Consecutive back :=
  List.IsChain.right_of_append h

theorem Consecutive.sorted {numbers : List Int} (h : Consecutive numbers) :
    numbers.Pairwise (· < ·) := by
  have hlt : List.IsChain (· < ·) numbers := by
    refine List.IsChain.imp ?_ h
    intro a b hab
    omega
  exact List.isChain_iff_pairwise.mp hlt

theorem Consecutive.nodup {numbers : List Int} (h : Consecutive numbers) : numbers.Nodup :=
  h.sorted.imp fun hlt => Int.ne_of_lt hlt

end Foundation.Counter
