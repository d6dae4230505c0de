import LiteExchange.Core.RingInvariant

/-!
# One producer and one consumer

The only producer always holds the current index, so it never writes out of turn: with
fewer pushes than an `int` counts, the ring is a bounded queue.
-/

namespace LiteExchange.Core.RingBuffer

open Foundation.Runs

variable {α : Type}

/-- The pushes that are done and not popped, and the slot of one that is not done. -/
def inFlight (ring : RingBuffer Unit α) : Nat :=
  ring.pushed.length + (if (ring.producers ()).isWritten then 1 else 0) - ring.popped.length

structure BoundedFifo (ring : RingBuffer Unit α) : Prop where
  fifo : ring.popped <+: ring.values
  bounded : ring.inFlight ≤ ring.capacity
  /-- The next slot to be written was read since it was last written. -/
  kept : ∀ val currentTail, ring.producers () = .admitted val currentTail →
    ring.unread (ring.slot currentTail) = false
  /-- The call of `tryPush` returns `false`. -/
  full : ∀ next, ring.step (.checkRead ()) = some next → next.producers () = .idle →
    ring.inFlight = ring.capacity
  /-- The call of `tryPop` returns `false`. -/
  empty : ∀ next, ring.step .checkWrite = some next → next.consumer = .idle →
    ring.popped = ring.values

/-- The producer's copy of `m_write` is not stale. -/
def Current (ring : RingBuffer Unit α) : Prop :=
  ∀ currentTail, (ring.producers ()).tail = some currentTail → currentTail = ring.write

theorem update_unit {β : Type} (f : Unit → β) (p : Unit) (b : β) :
    Function.update f p b = fun _ => b := by
  funext q
  exact Function.update_self ..

theorem Current.step {ring next : RingBuffer Unit α} {label : RingStep Unit α}
    (current : ring.Current) (hstep : ring.step label = some next) : next.Current := by
  intro tail htail
  cases step_moves hstep with
  | loadWrite val call =>
    simp only [setProducer, update_unit] at htail
    exact (Option.some.inj htail).symm
  | granted call room =>
    simp only [setProducer, update_unit] at htail
    exact current tail (by rw [call]; exact htail)
  | refuse call full =>
    simp only [setProducer, update_unit] at htail
    cases htail
  | writeSlot call =>
    simp only [update_unit] at htail
    exact current tail (by rw [call]; exact htail)
  | storeWrite call =>
    simp only [update_unit] at htail
    cases htail
  | loadRead call => exact current tail htail
  | found call differs => exact current tail htail
  | foundEmpty call same => exact current tail htail
  | readSlot call => exact current tail htail
  | storeRead call => exact current tail htail

theorem step_pushed {ring next : RingBuffer Unit α} {label : RingStep Unit α}
    (hstep : ring.step label = some next) : ring.pushed.length ≤ next.pushed.length := by
  cases step_moves hstep with
  | storeWrite call => simp
  | _ => exact le_refl _

/-- The only producer takes its turn, as long as its pushes can be counted. -/
theorem Current.exclusive {ring next : RingBuffer Unit α} {label : RingStep Unit α}
    (current : ring.Current) (sound : ring.Sound) (hstep : ring.step label = some next)
    (few : next.pushed.length < 2 ^ 31) : ring.Exclusive label := by
  cases step_moves hstep with
  | writeSlot call =>
    refine ⟨?_, fun other => ?_⟩
    · rw [call]
      exact congrArg some (current _ (by rw [call]; rfl))
    · rw [call]
      rfl
  | storeWrite call =>
    rw [List.length_append, List.length_singleton] at few
    change ring.write < 2 ^ 31 - 1
    rw [sound.write]
    omega
  | _ => trivial

/-- What every state of a run with one producer satisfies. -/
theorem boundedFifo_of_sound {ring : RingBuffer Unit α} (sound : ring.Sound)
    (current : ring.Current) : ring.BoundedFifo := by
  have hpopped := sound.popped_le
  have hpushing := sound.pushing ()
  refine
    { fifo := sound.fifo
      bounded := ?_
      kept := ?_
      full := ?_
      empty := ?_ }
  · have hbounded := sound.bounded
    unfold inFlight
    cases hcall : ring.producers () with
    | written val tail =>
      rw [hcall] at hpushing
      have hroom := hpushing.2.1
      simp only [TryPush.isWritten, if_true]
      omega
    | _ =>
      simp only [TryPush.isWritten, Bool.false_eq_true, if_false]
      omega
  · intro val tail hcall
    rw [hcall] at hpushing
    have htail : tail = ring.pushed.length := by
      rw [current tail (by rw [hcall]; rfl), sound.write]
    have hroom := hpushing.2.2
    rw [htail, slot_natCast sound.small]
    exact sound.unread_free (by omega) fun p => by rw [hcall]; rfl
  · intro next hstep hidle
    cases step_moves hstep with
    | granted call room =>
      simp only [setProducer, update_unit] at hidle
      cases hidle
    | @refuse _ _ tail call full =>
      have htail : tail = ring.pushed.length := by
        rw [current tail (by rw [call]; rfl), sound.write]
      have hbounded := sound.bounded
      rw [sound.hasRoom_iff (by omega) (by omega)] at full
      unfold inFlight
      rw [call]
      simp only [TryPush.isWritten, Bool.false_eq_true, if_false]
      omega
  · intro next hstep hidle
    have hpopping := sound.popping
    cases step_moves hstep with
    | found call differs => cases hidle
    | foundEmpty call same =>
      rw [call] at hpopping
      have hhead : _ = (ring.popped.length : Int) := hpopping
      rw [hhead, sound.write] at same
      exact sound.fifo.eq_of_length (by rw [values_length]; omega)

/-- The ring is a bounded queue for one producer and one consumer, however their steps
interleave. -/
theorem bounded_fifo (capacity : Nat) (positive : 0 < capacity) (buffer : Nat → α)
    (labels : List (RingStep Unit α)) {ring : RingBuffer Unit α}
    (hrun : run step (initial capacity positive buffer) labels = some ring)
    (few : ring.pushed.length < 2 ^ 31) : ring.BoundedFifo := by
  have hall := run_induction
    (fun _ (s : RingBuffer Unit α) => s.pushed.length < 2 ^ 31 → s.Sound ∧ s.Current)
    (fun _ => ⟨initial_sound capacity positive buffer, fun tail htail => by cases htail⟩)
    (fun labels s label next _ hs hstep hfew => by
      obtain ⟨hsound, hcurrent⟩ := hs (Nat.lt_of_le_of_lt (step_pushed hstep) hfew)
      exact ⟨hsound.step (hcurrent.exclusive hsound hstep hfew) hstep, hcurrent.step hstep⟩)
    hrun few
  exact boundedFifo_of_sound hall.1 hall.2

/-- A push into a ring of one slot, then a refused one; the pop overtakes the refusal. -/
def pushAndPop : List (RingStep Unit Nat) :=
  [.loadWrite () 7, .checkRead (), .writeSlot (), .loadRead, .storeWrite (), .loadWrite () 8,
    .checkWrite, .checkRead (), .readSlot, .storeRead]

theorem bounded_fifo_pushAndPop :
    ∃ ring, run step (initial 1 Nat.one_pos fun _ => 0) pushAndPop = some ring ∧
      ring.popped = [7] ∧ ring.BoundedFifo :=
  ⟨_, rfl, rfl, bounded_fifo 1 Nat.one_pos (fun _ => 0) pushAndPop rfl (by decide)⟩

end LiteExchange.Core.RingBuffer
