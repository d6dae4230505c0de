import LiteExchange.Foundation.Runs
import Mathlib.Logic.Function.Basic
import Mathlib.Data.Int.ModEq

/-!
# The ring buffer, one load or store at a time

Source: ring_buffer_spsc_lockfree.hpp. A call of `tryPush` loads `m_write`, loads
`m_read` and compares, writes the slot and stores `m_write`; `tryPop` does the same on
its side. The calls of any number of producers and of one consumer interleave at these
steps, and `push` repeats `tryPush`. The indexes are `int`s that wrap around and become
`size_t`s where they are compared with the capacity or choose a slot.
-/

namespace LiteExchange.Core

/-- What an `int` holds after an overflow. -/
def toInt (value : Int) : Int := value.bmod (2 ^ 32)

/-- The `int` is converted to `size_t`. -/
def toSize (value : Int) : Nat := (value % 2 ^ 64).toNat

theorem toInt_of_bounds {value : Int} (low : -2 ^ 31 ≤ value) (high : value < 2 ^ 31) :
    toInt value = value := by
  unfold toInt
  rw [Int.bmod_def]
  omega

theorem toSize_of_nonneg {value : Int} (low : 0 ≤ value) (high : value < 2 ^ 31) :
    (toSize value : Int) = value := by
  unfold toSize
  omega

theorem toSize_natCast {value : Nat} (high : value < 2 ^ 31) : toSize value = value := by
  unfold toSize
  omega

/-- A call of `tryPush`, with the locals that are set so far. -/
inductive TryPush (α : Type) where
  | idle
  | loaded (val : α) (currentTail : Int)
  | admitted (val : α) (currentTail : Int)
  | written (val : α) (currentTail : Int)
  deriving DecidableEq

/-- A call of `tryPop`, with the locals that are set so far. -/
inductive TryPop (α : Type) where
  | idle
  | loaded (currentHead : Int)
  | admitted (currentHead : Int)
  | read (currentHead : Int) (element : α)
  deriving DecidableEq

def TryPush.isWritten {α : Type} : TryPush α → Bool
  | .written _ _ => true
  | _ => false

def TryPush.tail {α : Type} : TryPush α → Option Int
  | .idle => none
  | .loaded _ currentTail => some currentTail
  | .admitted _ currentTail => some currentTail
  | .written _ currentTail => some currentTail

/-- The element that a call pushes. -/
def TryPush.val {α : Type} : TryPush α → Option α
  | .idle => none
  | .loaded val _ => some val
  | .admitted val _ => some val
  | .written val _ => some val

def TryPop.hasRead {α : Type} : TryPop α → Bool
  | .read _ _ => true
  | _ => false

structure RingBuffer (π α : Type) where
  capacity : Nat
  positive : 0 < capacity
  write : Int
  read : Int
  buffer : Nat → α
  producers : π → TryPush α
  consumer : TryPop α
  /-- The calls of `tryPush` that returned `true`, in the order of their stores. -/
  pushed : List (π × α)
  popped : List α
  /-- The slots that were written and not read since. -/
  unread : Nat → Bool

inductive RingStep (π α : Type) where
  | loadWrite (producer : π) (val : α)
  | checkRead (producer : π)
  | writeSlot (producer : π)
  | storeWrite (producer : π)
  | loadRead
  | checkWrite
  | readSlot
  | storeRead

namespace RingBuffer

variable {π α : Type}

def initial (capacity : Nat) (positive : 0 < capacity) (buffer : Nat → α) : RingBuffer π α where
  capacity := capacity
  positive := positive
  write := 0
  read := 0
  buffer := buffer
  producers := fun _ => .idle
  consumer := .idle
  pushed := []
  popped := []
  unread := fun _ => false

def increment (n : Int) : Int := toInt (n + 1)

def slot (ring : RingBuffer π α) (index : Int) : Nat := toSize index % ring.capacity

/-- The test of `tryPush`, with `m_read` as it is now. -/
def HasRoom (ring : RingBuffer π α) (currentTail : Int) : Prop :=
  toSize (toInt (currentTail - ring.read)) ≤ ring.capacity - 1

instance (ring : RingBuffer π α) (currentTail : Int) : Decidable (ring.HasRoom currentTail) :=
  inferInstanceAs (Decidable (_ ≤ _))

section Steps

variable [DecidableEq π]

/-- The producer goes on with its call. -/
def setProducer (ring : RingBuffer π α) (producer : π) (call : TryPush α) : RingBuffer π α :=
  { ring with producers := Function.update ring.producers producer call }

def step (ring : RingBuffer π α) : RingStep π α → Option (RingBuffer π α)
  | .loadWrite producer val =>
    match ring.producers producer with
    | .idle => some (ring.setProducer producer (.loaded val ring.write))
    | _ => none
  | .checkRead producer =>
    match ring.producers producer with
    | .loaded val currentTail =>
      if ring.HasRoom currentTail then some (ring.setProducer producer (.admitted val currentTail))
      else some (ring.setProducer producer .idle)
    | _ => none
  | .writeSlot producer =>
    match ring.producers producer with
    | .admitted val currentTail =>
      some { ring with
        producers := Function.update ring.producers producer (.written val currentTail)
        buffer := Function.update ring.buffer (ring.slot currentTail) val
        unread := Function.update ring.unread (ring.slot currentTail) true }
    | _ => none
  | .storeWrite producer =>
    match ring.producers producer with
    | .written val currentTail =>
      some { ring with
        producers := Function.update ring.producers producer .idle
        write := increment currentTail
        pushed := ring.pushed ++ [(producer, val)] }
    | _ => none
  | .loadRead =>
    match ring.consumer with
    | .idle => some { ring with consumer := .loaded ring.read }
    | _ => none
  | .checkWrite =>
    match ring.consumer with
    | .loaded currentHead =>
      if currentHead ≠ ring.write then some { ring with consumer := .admitted currentHead }
      else some { ring with consumer := .idle }
    | _ => none
  | .readSlot =>
    match ring.consumer with
    | .admitted currentHead =>
      some { ring with
        consumer := .read currentHead (ring.buffer (ring.slot currentHead))
        unread := Function.update ring.unread (ring.slot currentHead) false }
    | _ => none
  | .storeRead =>
    match ring.consumer with
    | .read currentHead element =>
      some { ring with
        consumer := .idle
        read := increment currentHead
        popped := ring.popped ++ [element] }
    | _ => none

/-! ## The steps -/

/-- What one step does, by the call it belongs to. -/
inductive Moves (ring : RingBuffer π α) : RingStep π α → RingBuffer π α → Prop
  | loadWrite {p : π} (val : α) (call : ring.producers p = .idle) :
      Moves ring (.loadWrite p val) (ring.setProducer p (.loaded val ring.write))
  | granted {p : π} {val : α} {currentTail : Int} (call : ring.producers p = .loaded val currentTail)
      (room : ring.HasRoom currentTail) :
      Moves ring (.checkRead p) (ring.setProducer p (.admitted val currentTail))
  | refuse {p : π} {val : α} {currentTail : Int} (call : ring.producers p = .loaded val currentTail)
      (full : ¬ ring.HasRoom currentTail) :
      Moves ring (.checkRead p) (ring.setProducer p .idle)
  | writeSlot {p : π} {val : α} {currentTail : Int}
      (call : ring.producers p = .admitted val currentTail) :
      Moves ring (.writeSlot p)
        { ring with
          producers := Function.update ring.producers p (.written val currentTail)
          buffer := Function.update ring.buffer (ring.slot currentTail) val
          unread := Function.update ring.unread (ring.slot currentTail) true }
  | storeWrite {p : π} {val : α} {currentTail : Int}
      (call : ring.producers p = .written val currentTail) :
      Moves ring (.storeWrite p)
        { ring with
          producers := Function.update ring.producers p .idle
          write := increment currentTail
          pushed := ring.pushed ++ [(p, val)] }
  | loadRead (call : ring.consumer = .idle) :
      Moves ring .loadRead { ring with consumer := .loaded ring.read }
  | found {currentHead : Int} (call : ring.consumer = .loaded currentHead)
      (differs : currentHead ≠ ring.write) :
      Moves ring .checkWrite { ring with consumer := .admitted currentHead }
  | foundEmpty {currentHead : Int} (call : ring.consumer = .loaded currentHead)
      (same : currentHead = ring.write) :
      Moves ring .checkWrite { ring with consumer := .idle }
  | readSlot {currentHead : Int} (call : ring.consumer = .admitted currentHead) :
      Moves ring .readSlot
        { ring with
          consumer := .read currentHead (ring.buffer (ring.slot currentHead))
          unread := Function.update ring.unread (ring.slot currentHead) false }
  | storeRead {currentHead : Int} {element : α} (call : ring.consumer = .read currentHead element) :
      Moves ring .storeRead
        { ring with
          consumer := .idle
          read := increment currentHead
          popped := ring.popped ++ [element] }

theorem step_moves {ring next : RingBuffer π α} {label : RingStep π α}
    (hstep : ring.step label = some next) : Moves ring label next := by
  cases label with
  | loadWrite p val =>
    simp only [step] at hstep
    split at hstep
    · rename_i hcall
      cases hstep
      exact .loadWrite val hcall
    · cases hstep
  | checkRead p =>
    simp only [step] at hstep
    split at hstep
    · rename_i hcall
      split at hstep
      · rename_i hroom
        cases hstep
        exact .granted hcall hroom
      · rename_i hroom
        cases hstep
        exact .refuse hcall hroom
    · cases hstep
  | writeSlot p =>
    simp only [step] at hstep
    split at hstep
    · rename_i hcall
      cases hstep
      exact .writeSlot hcall
    · cases hstep
  | storeWrite p =>
    simp only [step] at hstep
    split at hstep
    · rename_i hcall
      cases hstep
      exact .storeWrite hcall
    · cases hstep
  | loadRead =>
    simp only [step] at hstep
    split at hstep
    · rename_i hcall
      cases hstep
      exact .loadRead hcall
    · cases hstep
  | checkWrite =>
    simp only [step] at hstep
    split at hstep
    · rename_i hcall
      split at hstep
      · rename_i hdiffers
        cases hstep
        exact .found hcall hdiffers
      · rename_i hdiffers
        cases hstep
        exact .foundEmpty hcall (not_not.mp hdiffers)
    · cases hstep
  | readSlot =>
    simp only [step] at hstep
    split at hstep
    · rename_i hcall
      cases hstep
      exact .readSlot hcall
    · cases hstep
  | storeRead =>
    simp only [step] at hstep
    split at hstep
    · rename_i hcall
      cases hstep
      exact .storeRead hcall
    · cases hstep

/-- A call keeps its element until it is done. -/
theorem step_val {ring next : RingBuffer π α} {label : RingStep π α}
    (hstep : ring.step label = some next) {p : π} {val : α}
    (h : (next.producers p).val = some val) :
    (ring.producers p).val = some val ∨ label = .loadWrite p val := by
  have hgoes : ∀ (q : π) (call : TryPush α),
      (Function.update ring.producers q call p).val = some val →
      p = q ∧ call.val = some val ∨ (ring.producers p).val = some val := by
    intro q call hval
    by_cases hproducer : p = q
    · subst hproducer
      rw [Function.update_self] at hval
      exact Or.inl ⟨rfl, hval⟩
    · rw [Function.update_of_ne hproducer] at hval
      exact Or.inr hval
  cases step_moves hstep with
  | loadWrite loaded call =>
    rcases hgoes _ _ h with ⟨rfl, hval⟩ | hkept
    · cases hval
      exact Or.inr rfl
    · exact Or.inl hkept
  | granted call room =>
    rcases hgoes _ _ h with ⟨rfl, hval⟩ | hkept
    · rw [call]
      exact Or.inl hval
    · exact Or.inl hkept
  | refuse call full =>
    rcases hgoes _ _ h with ⟨rfl, hval⟩ | hkept
    · cases hval
    · exact Or.inl hkept
  | writeSlot call =>
    rcases hgoes _ _ h with ⟨rfl, hval⟩ | hkept
    · rw [call]
      exact Or.inl hval
    · exact Or.inl hkept
  | storeWrite call =>
    rcases hgoes _ _ h with ⟨rfl, hval⟩ | hkept
    · cases hval
    · exact Or.inl hkept
  | _ => exact Or.inl h

/-- Only a store of `m_write` pushes, and ends its call. -/
theorem step_pushes {ring next : RingBuffer π α} {label : RingStep π α}
    (hstep : ring.step label = some next) :
    (∃ p val, label = .storeWrite p ∧ (ring.producers p).val = some val ∧
        next.pushed = ring.pushed ++ [(p, val)] ∧ next.producers p = .idle) ∨
      (∀ p, label ≠ .storeWrite p) ∧ next.pushed = ring.pushed := by
  cases step_moves hstep with
  | storeWrite call =>
    exact Or.inl ⟨_, _, rfl, by rw [call]; rfl, rfl, Function.update_self ..⟩
  | _ => exact Or.inr ⟨fun p h => (by cases h), rfl⟩

end Steps

end RingBuffer

end LiteExchange.Core
