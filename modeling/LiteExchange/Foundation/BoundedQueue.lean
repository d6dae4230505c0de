import LiteExchange.Foundation.Runs

/-!
# Bounded queues

A queue of at most `capacity` elements, with those that were taken from it so far. An element
is put behind the others where there is room, and taken from the front.
-/

namespace Foundation.BoundedQueue

open Runs

variable {α : Type*} {capacity : Nat}

structure Queue (α : Type*) (capacity : Nat) where
  taken : List α
  contents : List α
  bounded : contents.length ≤ capacity

inductive QueueStep (α : Type*) where
  | put (a : α)
  | take

namespace Queue

def empty (capacity : Nat) : Queue α capacity := ⟨[], [], Nat.zero_le capacity⟩

def put (queue : Queue α capacity) (a : α) (room : queue.contents.length < capacity) :
    Queue α capacity where
  taken := queue.taken
  contents := queue.contents ++ [a]
  bounded := by
    rw [List.length_append, List.length_singleton]
    omega

/-- A full queue accepts nothing, and an empty one gives nothing. -/
def step (queue : Queue α capacity) : QueueStep α → Option (Queue α capacity)
  | .put a =>
    if room : queue.contents.length < capacity then some (queue.put a room) else none
  | .take =>
    match queue with
    | ⟨taken, a :: rest, bounded⟩ =>
      some ⟨taken ++ [a], rest, Nat.le_trans (Nat.le_succ rest.length) bounded⟩
    | ⟨_, [], _⟩ => none

end Queue

/-- The elements put, in order. -/
def putsOf (steps : List (QueueStep α)) : List α :=
  steps.filterMap fun
    | .put a => some a
    | .take => none

/-- First in, first out: what was taken and what is still there is what was put. -/
theorem run_fifo {queue last : Queue α capacity} {steps : List (QueueStep α)}
    (h : run Queue.step queue steps = some last) :
    last.taken ++ last.contents = queue.taken ++ queue.contents ++ putsOf steps := by
  induction steps generalizing queue with
  | nil =>
    cases h
    exact (List.append_nil _).symm
  | cons act rest ih =>
    obtain ⟨next, hstep, hrest⟩ := Option.bind_eq_some_iff.mp h
    rw [ih hrest]
    cases act with
    | put a =>
      simp only [Queue.step] at hstep
      split at hstep
      · cases hstep
        simp [Queue.put, putsOf]
      · cases hstep
    | take =>
      simp only [Queue.step] at hstep
      split at hstep
      · cases hstep
        simp [putsOf]
      · cases hstep

end Foundation.BoundedQueue
