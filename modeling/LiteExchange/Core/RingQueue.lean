import LiteExchange.Core.BoundedFifo
import LiteExchange.Foundation.BoundedQueue
import LiteExchange.Foundation.Refinement

/-!
# The ring is a queue

While producers take turns, the stores of `m_write` and of `m_read` are the steps of a bounded
queue: a push that is done puts its value, a pop that is done takes one. Loads, tests and
writes of slots show nothing. A single producer always takes its turn.
-/

namespace LiteExchange.Core.RingBuffer

open Foundation.Runs Foundation.BoundedQueue Foundation.Refinement

variable {π α : Type}

/-- The step of the queue that a step of the ring is. -/
def queueStep (ring : RingBuffer π α) : RingStep π α → Option (QueueStep α)
  | .storeWrite p =>
    match ring.producers p with
    | .written val _ => some (.put val)
    | _ => none
  | .storeRead =>
    match ring.consumer with
    | .read _ _ => some .take
    | _ => none
  | _ => none

/-- What was popped was taken; the queue holds what was pushed since. -/
structure IsQueue {capacity : Nat} (ring : RingBuffer π α) (queue : Queue α capacity) : Prop where
  sound : ring.Sound
  capacity : ring.capacity = capacity
  values : ring.values = queue.taken ++ queue.contents
  popped : ring.popped = queue.taken

variable [DecidableEq π]

theorem refines_queue (capacity : Nat) :
    Refines step Exclusive queueStep (Queue.step : Queue α capacity → _)
      (IsQueue : RingBuffer π α → Queue α capacity → Prop) where
  hidden := by
    intro ring next label queue hqueue hexclusive hstep hshows
    have hsound := hqueue.sound.step hexclusive hstep
    cases step_moves hstep with
    | storeWrite call =>
      rw [queueStep, call] at hshows
      cases hshows
    | storeRead call =>
      rw [queueStep, call] at hshows
      cases hshows
    | _ => exact ⟨hsound, hqueue.capacity, hqueue.values, hqueue.popped⟩
  visible := by
    intro ring next label queue act hqueue hexclusive hstep hshows
    have hsound := hqueue.sound.step hexclusive hstep
    have hlength : queue.taken.length + queue.contents.length = ring.pushed.length := by
      rw [← values_length, hqueue.values, List.length_append]
    cases step_moves hstep with
    | @storeWrite p val tail call =>
      rw [queueStep, call] at hshows
      cases hshows
      have hpushing := hqueue.sound.pushing p
      rw [call] at hpushing
      have hpopped := congrArg List.length hqueue.popped
      have hcapacity := hqueue.capacity
      have hroom : queue.contents.length < capacity := by
        have hfree := hpushing.2.1
        omega
      refine ⟨queue.put val hroom, dif_pos hroom, hsound, hcapacity, ?_, hqueue.popped⟩
      rw [values, List.map_append, Queue.put, ← List.append_assoc, ← hqueue.values]
      rfl
    | @storeRead head element call =>
      rw [queueStep, call] at hshows
      cases hshows
      have hpopping := hqueue.sound.popping
      rw [call] at hpopping
      have hfirst : queue.contents[0]? = some element := by
        have hvalue := hpopping.2
        rw [hqueue.values, hqueue.popped, List.getElem?_append_right (Nat.le_refl _),
          Nat.sub_self] at hvalue
        exact hvalue
      obtain ⟨taken, contents, bounded⟩ := queue
      cases contents with
      | nil => cases hfirst
      | cons first rest =>
        cases hfirst
        refine ⟨_, rfl, hsound, hqueue.capacity, ?_, ?_⟩
        · have hvalues : ring.values = taken ++ element :: rest := hqueue.values
          rw [List.append_assoc]
          exact hvalues
        · have hpopped : ring.popped = taken := hqueue.popped
          rw [hpopped]
    | _ => cases hshows

/-- Every run of producers that take turns and one consumer shows a run of a bounded queue, and
has popped what that run took. -/
theorem run_queue (capacity : Nat) (positive : 0 < capacity) (buffer : Nat → α)
    (labels : List (RingStep π α)) {ring : RingBuffer π α}
    (hrun : run step (initial capacity positive buffer) labels = some ring)
    (exclusive : Along step Exclusive (initial capacity positive buffer) labels) :
    ∃ queue : Queue α capacity,
      run Queue.step (.empty capacity)
        (shown step queueStep (initial capacity positive buffer) labels) = some queue ∧
      ring.IsQueue queue :=
  (refines_queue capacity).run
    ⟨initial_sound capacity positive buffer, rfl, rfl, rfl⟩ hrun exclusive

/-- The pushes that were done in that run, in order, are the values of the ring. -/
theorem run_values (capacity : Nat) (positive : 0 < capacity) (buffer : Nat → α)
    (labels : List (RingStep π α)) {ring : RingBuffer π α}
    (hrun : run step (initial capacity positive buffer) labels = some ring)
    (exclusive : Along step Exclusive (initial capacity positive buffer) labels) :
    putsOf (shown step queueStep (initial capacity positive buffer) labels) = ring.values ∧
      ring.popped <+: ring.values := by
  obtain ⟨queue, hqueueRun, hqueue⟩ := run_queue capacity positive buffer labels hrun exclusive
  have hfifo := run_fifo hqueueRun
  rw [← hqueue.values] at hfifo
  exact ⟨hfifo.symm, hqueue.sound.fifo⟩

theorem run_pushed {ring last : RingBuffer Unit α} {labels : List (RingStep Unit α)}
    (hrun : run step ring labels = some last) : ring.pushed.length ≤ last.pushed.length :=
  run_invariant (fun later => ring.pushed.length ≤ later.pushed.length) (Nat.le_refl _)
    (fun _ _ _ hbefore hstep => Nat.le_trans hbefore (step_pushed hstep)) hrun

/-- With few enough pushes in the whole run, the producer takes its turn in every step. -/
theorem along_of_current {ring last : RingBuffer Unit α} {labels : List (RingStep Unit α)}
    (current : ring.Current) (sound : ring.Sound) (hrun : run step ring labels = some last)
    (few : last.pushed.length < 2 ^ 31) : Along step Exclusive ring labels := by
  induction labels generalizing ring with
  | nil => trivial
  | cons label rest ih =>
    obtain ⟨next, hstep, hrest⟩ := Option.bind_eq_some_iff.mp hrun
    have hexclusive := current.exclusive sound hstep (Nat.lt_of_le_of_lt (run_pushed hrest) few)
    refine ⟨hexclusive, fun other hother => ?_⟩
    rw [hstep] at hother
    cases hother
    exact ih (current.step hstep) (sound.step hexclusive hstep) hrest

/-- One producer and one consumer have a bounded queue, however their steps interleave. -/
theorem run_queue_one_producer (capacity : Nat) (positive : 0 < capacity) (buffer : Nat → α)
    (labels : List (RingStep Unit α)) {ring : RingBuffer Unit α}
    (hrun : run step (initial capacity positive buffer) labels = some ring)
    (few : ring.pushed.length < 2 ^ 31) :
    ∃ queue : Queue α capacity,
      run Queue.step (.empty capacity)
        (shown step queueStep (initial capacity positive buffer) labels) = some queue ∧
      ring.IsQueue queue := by
  have hcurrent : (initial capacity positive buffer : RingBuffer Unit α).Current :=
    fun tail htail => by cases htail
  exact run_queue capacity positive buffer labels hrun
    (along_of_current hcurrent (initial_sound capacity positive buffer) hrun few)

end LiteExchange.Core.RingBuffer
