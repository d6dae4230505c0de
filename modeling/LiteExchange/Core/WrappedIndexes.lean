import LiteExchange.Core.BoundedFifo
import Mathlib.Data.Nat.Prime.Basic

/-!
# The ring when its indexes wrap

Source: ring_buffer_spsc_lockfree.hpp. `m_write` and `m_read` are `int`s that count the pushes
and the pops modulo `2 ^ 32`, and a negative one becomes a `size_t` close to `2 ^ 64` before
it is reduced to a slot. Their difference is exact for every capacity. The slots follow each
other around the ring where an index wraps exactly when the capacity divides `2 ^ 64`.
-/

namespace LiteExchange.Core

/-- A call of `tryPush` or `tryPop` that returns `true`. -/
inductive RingCall (α : Type) where
  | push (val : α)
  | pop

namespace RingBuffer

open Foundation.Runs

variable {α : Type}

/-- `tryPush` without steps of the consumer in between; `none` where it returns `false`. -/
def tryPush (ring : RingBuffer Unit α) (val : α) : Option (RingBuffer Unit α) :=
  run step ring [.loadWrite () val, .checkRead (), .writeSlot (), .storeWrite ()]

def tryPop (ring : RingBuffer Unit α) : Option (RingBuffer Unit α) :=
  run step ring [.loadRead, .checkWrite, .readSlot, .storeRead]

def call (ring : RingBuffer Unit α) : RingCall α → Option (RingBuffer Unit α)
  | .push val => ring.tryPush val
  | .pop => ring.tryPop

/-- The slot of the value that is pushed with this number, when `m_write` has counted so far. -/
def slotOf (ring : RingBuffer Unit α) (number : Nat) : Nat := ring.slot (toInt number)

/-- Values are popped in push order, at most as many as the capacity are held, and the slots of
the held ones are distinct. -/
structure Consistent (ring : RingBuffer Unit α) : Prop where
  order : ring.popped <+: ring.values
  held : ring.values.length ≤ ring.popped.length + ring.capacity
  slots : ∀ first second, ring.popped.length ≤ first → first < second →
    second < ring.values.length → ring.slotOf first ≠ ring.slotOf second

/-! ## The counters -/

theorem toInt_sub_toInt (first second : Int) :
    toInt (toInt first - toInt second) = toInt (first - second) := by
  unfold toInt
  rw [Int.bmod_sub_bmod, Int.sub_bmod_bmod]

theorem increment_toInt (n : Nat) : increment (toInt n) = toInt (n + 1 : Nat) := by
  unfold increment toInt
  rw [Int.bmod_add_bmod]
  rfl

/-- Counters less than a turn apart are told apart. -/
theorem toInt_inj {first second : Nat} (before : first ≤ second) (near : second < first + 2 ^ 32) :
    toInt first = toInt second ↔ first = second := by
  unfold toInt
  rw [Int.bmod_def, Int.bmod_def]
  omega

/-- Between calls: both indexes count, and no more values are held than fit. -/
structure Counted (ring : RingBuffer Unit α) : Prop where
  small : ring.capacity < 2 ^ 31
  producers : ring.producers = fun _ => .idle
  consumer : ring.consumer = .idle
  write : ring.write = toInt ring.pushed.length
  read : ring.read = toInt ring.popped.length
  popped_le : ring.popped.length ≤ ring.pushed.length
  held : ring.pushed.length ≤ ring.popped.length + ring.capacity

variable {ring next : RingBuffer Unit α} {val : α}

/-- The test of `tryPush` is exact, wherever the indexes are. -/
theorem Counted.hasRoom_iff (counted : ring.Counted) :
    ring.HasRoom ring.write ↔ ring.pushed.length < ring.popped.length + ring.capacity := by
  have hle := counted.popped_le
  have hheld := counted.held
  have hsmall := counted.small
  have hpositive := ring.positive
  have hdifference : toInt (ring.write - ring.read) =
      ((ring.pushed.length - ring.popped.length : Nat) : Int) := by
    rw [counted.write, counted.read, toInt_sub_toInt, ← Int.ofNat_sub hle]
    exact toInt_of_bounds (by omega) (by omega)
  rw [HasRoom, hdifference, toSize_natCast (by omega)]
  omega

theorem Counted.read_eq_write_iff (counted : ring.Counted) :
    ring.read = ring.write ↔ ring.popped.length = ring.pushed.length := by
  have hheld := counted.held
  have hsmall := counted.small
  rw [counted.read, counted.write]
  exact toInt_inj counted.popped_le (by omega)

/-! ## The calls -/

/-- The ring after a push. -/
def afterPush (ring : RingBuffer Unit α) (val : α) : RingBuffer Unit α :=
  { ring with
    buffer := Function.update ring.buffer (ring.slot ring.write) val
    unread := Function.update ring.unread (ring.slot ring.write) true
    write := increment ring.write
    pushed := ring.pushed ++ [((), val)] }

/-- The ring after a pop. -/
def afterPop (ring : RingBuffer Unit α) : RingBuffer Unit α :=
  { ring with
    unread := Function.update ring.unread (ring.slot ring.read) false
    read := increment ring.read
    popped := ring.popped ++ [ring.buffer (ring.slot ring.read)] }

section Fields

variable (ring : RingBuffer Unit α) (val : α)

@[simp] theorem afterPush_capacity : (ring.afterPush val).capacity = ring.capacity := rfl

@[simp] theorem afterPush_write : (ring.afterPush val).write = increment ring.write := rfl

@[simp] theorem afterPush_read : (ring.afterPush val).read = ring.read := rfl

@[simp] theorem afterPush_pushed : (ring.afterPush val).pushed = ring.pushed ++ [((), val)] := rfl

@[simp] theorem afterPush_popped : (ring.afterPush val).popped = ring.popped := rfl

@[simp] theorem afterPop_capacity : ring.afterPop.capacity = ring.capacity := rfl

@[simp] theorem afterPop_write : ring.afterPop.write = ring.write := rfl

@[simp] theorem afterPop_read : ring.afterPop.read = increment ring.read := rfl

@[simp] theorem afterPop_pushed : ring.afterPop.pushed = ring.pushed := rfl

@[simp] theorem afterPop_popped : ring.afterPop.popped =
    ring.popped ++ [ring.buffer (ring.slot ring.read)] := rfl

end Fields

theorem Counted.tryPush (counted : ring.Counted) (val : α) :
    ring.tryPush val = if ring.pushed.length < ring.popped.length + ring.capacity then
      some (ring.afterPush val) else none := by
  have hwrite := counted.write
  have hproducers := counted.producers
  rw [← if_congr counted.hasRoom_iff rfl rfl]
  have hload : ring.step (.loadWrite () val) = some (ring.setProducer () (.loaded val ring.write)) := by
    simp only [step, hproducers]
  have hcheck : (ring.setProducer () (.loaded val ring.write)).step (.checkRead ()) =
      if ring.HasRoom ring.write then some (ring.setProducer () (.admitted val ring.write))
      else some (ring.setProducer () .idle) := by
    simp only [step, setProducer, update_unit]
    rfl
  rw [RingBuffer.tryPush, run_cons, hload, Option.bind_some, run_cons, hcheck]
  by_cases hroom : ring.HasRoom ring.write
  · rw [if_pos hroom, if_pos hroom]
    simp only [Option.bind_some, run_cons, step, setProducer, update_unit, run_nil]
    simp only [afterPush, hproducers, slot]
  · rw [if_neg hroom, if_neg hroom]
    simp only [Option.bind_some, run_cons, step, setProducer, update_unit, Option.bind_none]

theorem Counted.tryPop (counted : ring.Counted) :
    ring.tryPop = if ring.popped.length < ring.pushed.length then some ring.afterPop else none := by
  have hread := counted.read
  have hconsumer := counted.consumer
  have hle := counted.popped_le
  have hsome : ring.popped.length < ring.pushed.length ↔ ring.read ≠ ring.write := by
    rw [Ne, counted.read_eq_write_iff]
    omega
  rw [if_congr hsome rfl rfl, RingBuffer.tryPop]
  by_cases hempty : ring.read = ring.write
  · simp only [run_cons, step, hconsumer, Option.bind_some, hempty, ne_eq, not_true_eq_false,
      if_false, Option.bind_none]
  · simp only [run_cons, step, hconsumer, Option.bind_some, ne_eq, hempty, not_false_eq_true, if_true,
      run_nil]
    simp only [afterPop, hconsumer, slot]

/-- A push that returns `true` keeps the count. -/
theorem Counted.afterPush (counted : ring.Counted)
    (room : ring.pushed.length < ring.popped.length + ring.capacity) (val : α) :
    (ring.afterPush val).Counted := by
  have hle := counted.popped_le
  refine ⟨counted.small, counted.producers, counted.consumer, ?_, counted.read, ?_, ?_⟩
  · rw [afterPush_write, counted.write, increment_toInt, afterPush_pushed, List.length_append,
      List.length_singleton]
  · rw [afterPush_popped, afterPush_pushed, List.length_append, List.length_singleton]
    exact Nat.le_succ_of_le hle
  · rw [afterPush_popped, afterPush_pushed, List.length_append, List.length_singleton]
    exact room

theorem Counted.afterPop (counted : ring.Counted) (some : ring.popped.length < ring.pushed.length) :
    ring.afterPop.Counted := by
  have hheld := counted.held
  refine ⟨counted.small, counted.producers, counted.consumer, counted.write, ?_, ?_, ?_⟩
  · rw [afterPop_read, counted.read, increment_toInt, afterPop_popped, List.length_append,
      List.length_singleton]
  · rw [afterPop_popped, afterPop_pushed, List.length_append, List.length_singleton]
    exact some
  · rw [afterPop_popped, afterPop_pushed, List.length_append, List.length_singleton]
    exact hheld.trans (Nat.add_le_add_right (Nat.le_succ _) _)

/-- What a call that returns `true` does. -/
theorem Counted.call_cases (counted : ring.Counted) {call : RingCall α}
    (h : ring.call call = some next) : next.Counted ∧
      ((∃ val, call = .push val ∧ ring.pushed.length < ring.popped.length + ring.capacity ∧
          next = ring.afterPush val) ∨
        call = .pop ∧ ring.popped.length < ring.pushed.length ∧ next = ring.afterPop) := by
  cases call with
  | push val =>
    rw [RingBuffer.call, counted.tryPush, Option.ite_none_right_eq_some] at h
    obtain ⟨hroom, hnext⟩ := h
    cases hnext
    exact ⟨counted.afterPush hroom val, Or.inl ⟨val, rfl, hroom, rfl⟩⟩
  | pop =>
    rw [RingBuffer.call, counted.tryPop, Option.ite_none_right_eq_some] at h
    obtain ⟨hsome, hnext⟩ := h
    cases hnext
    exact ⟨counted.afterPop hsome, Or.inr ⟨rfl, hsome, rfl⟩⟩

theorem toInt_zero : toInt 0 = 0 := toInt_of_bounds (by decide) (by decide)

theorem initial_counted {capacity : Nat} (positive : 0 < capacity) (small : capacity < 2 ^ 31)
    (buffer : Nat → α) : (initial capacity positive buffer : RingBuffer Unit α).Counted where
  small := small
  producers := rfl
  consumer := rfl
  write := toInt_zero.symm
  read := toInt_zero.symm
  popped_le := le_refl _
  held := Nat.zero_le _

/-! ## The slots -/

/-- Fewer than the capacity apart, and below the bound, no two numbers have one slot. -/
def SlotsApart (capacity bound : Nat) : Prop :=
  ∀ first second, first < second → second < first + capacity → second < bound →
    toSize (toInt first) % capacity ≠ toSize (toInt second) % capacity

/-- The index as a `size_t`: the upper half of a turn ends at `2 ^ 64`. -/
theorem toSize_toInt (n : Nat) : toSize (toInt n) =
    if n % 2 ^ 32 < 2 ^ 31 then n % 2 ^ 32 else 2 ^ 64 - 2 ^ 32 + n % 2 ^ 32 := by
  unfold toSize toInt
  rw [Int.bmod_def]
  by_cases hlow : n % 2 ^ 32 < 2 ^ 31
  · rw [if_pos hlow]
    omega
  · rw [if_neg hlow]
    omega

theorem slotsApart_of_dvd {capacity : Nat} (divides : capacity ∣ 2 ^ 32) (bound : Nat) :
    SlotsApart capacity bound := by
  have hslot : ∀ n : Nat, toSize (toInt n) % capacity = n % capacity := by
    intro n
    have hturn : toSize (toInt n) % 2 ^ 32 = n % 2 ^ 32 := by
      rw [toSize_toInt]
      split
      · omega
      · omega
    rw [← Nat.mod_mod_of_dvd _ divides, hturn, Nat.mod_mod_of_dvd _ divides]
  intro first second before near _
  rw [hslot, hslot]
  exact mod_ne_of_near before near

/-- The first half of the first turn uses the numbers as they are. -/
theorem slotsApart_firstHalf (capacity : Nat) : SlotsApart capacity (2 ^ 31) := by
  intro first second before near inside
  have hslot : ∀ n < 2 ^ 31, toSize (toInt (n : Nat)) = n := by
    intro n hn
    rw [toSize_toInt, if_pos (by omega)]
    omega
  rw [hslot first (by omega), hslot second inside]
  exact mod_ne_of_near before near

/-- The ring delivers what was pushed, and each value that is held stands in its slot. -/
structure Stored (ring : RingBuffer Unit α) : Prop where
  order : ring.popped <+: ring.values
  stored : ∀ number (inside : number < ring.values.length), ring.popped.length ≤ number →
    ring.buffer (ring.slotOf number) = ring.values.get ⟨number, inside⟩

@[simp] theorem afterPush_values (ring : RingBuffer Unit α) (val : α) :
    (ring.afterPush val).values = ring.values ++ [val] := by
  simp [values]

@[simp] theorem afterPush_slotOf (ring : RingBuffer Unit α) (val : α) (number : Nat) :
    (ring.afterPush val).slotOf number = ring.slotOf number := by
  simp only [slotOf, slot, afterPush_capacity]

@[simp] theorem afterPop_slotOf (ring : RingBuffer Unit α) (number : Nat) :
    ring.afterPop.slotOf number = ring.slotOf number := by
  simp only [slotOf, slot, afterPop_capacity]

theorem Stored.afterPush (stored : ring.Stored) (counted : ring.Counted)
    (room : ring.pushed.length < ring.popped.length + ring.capacity) {bound : Nat}
    (apart : SlotsApart ring.capacity bound) (inside : ring.pushed.length < bound) (val : α) :
    (ring.afterPush val).Stored := by
  have hwrite : ring.slot ring.write = ring.slotOf ring.pushed.length := by
    rw [counted.write, slotOf]
  constructor
  · rw [afterPush_popped, afterPush_values]
    exact stored.order.trans (List.prefix_append _ _)
  · intro number hnumber hheld
    have hbuffer : (ring.afterPush val).buffer =
        Function.update ring.buffer (ring.slot ring.write) val := rfl
    rw [afterPush_popped] at hheld
    rw [hbuffer, hwrite, afterPush_slotOf]
    have hlength : number ≤ ring.pushed.length := by
      rw [afterPush_values, List.length_append, List.length_singleton, values_length] at hnumber
      omega
    rcases Nat.lt_or_eq_of_le hlength with hold | rfl
    · have hother : ring.slotOf number ≠ ring.slotOf ring.pushed.length :=
        apart number ring.pushed.length hold (by omega) inside
      have hin : number < ring.values.length := by rwa [values_length]
      rw [Function.update_of_ne hother, stored.stored number hin hheld]
      simp [List.getElem_append_left hin]
    · rw [Function.update_self]
      simp

theorem prefix_snoc {front whole : List α} (h : front <+: whole) (inside : front.length < whole.length) :
    front ++ [whole.get ⟨front.length, inside⟩] <+: whole := by
  obtain ⟨rest, rfl⟩ := h
  cases rest with
  | nil => simp at inside
  | cons next rest => simp

theorem Stored.afterPop (stored : ring.Stored) (counted : ring.Counted)
    (some : ring.popped.length < ring.pushed.length) : ring.afterPop.Stored := by
  have hin : ring.popped.length < ring.values.length := by rwa [values_length]
  have hread : ring.slot ring.read = ring.slotOf ring.popped.length := by
    rw [counted.read, slotOf]
  have hvalues : ring.afterPop.values = ring.values := rfl
  constructor
  · rw [afterPop_popped, hread, stored.stored _ hin (le_refl _), hvalues]
    exact prefix_snoc stored.order hin
  · intro number hnumber hheld
    rw [afterPop_slotOf]
    rw [afterPop_popped, List.length_append, List.length_singleton] at hheld
    exact stored.stored number hnumber (by omega)

/-! ## Runs of calls -/

theorem call_capacity (counted : ring.Counted) {call : RingCall α} (h : ring.call call = some next) :
    next.capacity = ring.capacity := by
  rcases (counted.call_cases h).2 with ⟨val, -, -, rfl⟩ | ⟨-, -, rfl⟩
  · rfl
  · rfl

/-- As long as the pushes stay below a bound within which the slots are apart, the ring delivers. -/
theorem run_stored {capacity bound : Nat} (positive : 0 < capacity) (small : capacity < 2 ^ 31)
    (apart : SlotsApart capacity bound) {buffer : Nat → α} {calls : List (RingCall α)}
    (h : run call (initial capacity positive buffer) calls = some ring) :
    ring.capacity = capacity ∧ ring.Counted ∧ (ring.pushed.length ≤ bound → ring.Stored) := by
  refine run_invariant (fun ring => ring.capacity = capacity ∧ ring.Counted ∧
    (ring.pushed.length ≤ bound → ring.Stored)) ⟨rfl, initial_counted positive small buffer, ?_⟩ ?_ h
  · intro _
    exact ⟨List.nil_prefix, fun number inside => absurd inside (Nat.not_lt_zero _)⟩
  · rintro ring call next ⟨hcapacity, counted, stored⟩ hcall
    obtain ⟨hnext, hcases⟩ := counted.call_cases hcall
    refine ⟨(call_capacity counted hcall).trans hcapacity, hnext, ?_⟩
    rcases hcases with ⟨val, -, hroom, rfl⟩ | ⟨-, hsome, rfl⟩
    · intro hbound
      rw [afterPush_pushed, List.length_append, List.length_singleton] at hbound
      exact (stored (Nat.le_of_succ_le hbound)).afterPush counted hroom (hcapacity ▸ apart) hbound val
    · intro hbound
      exact (stored hbound).afterPop counted hsome

theorem consistent_of_apart {capacity bound : Nat} (positive : 0 < capacity)
    (small : capacity < 2 ^ 31) (apart : SlotsApart capacity bound) {buffer : Nat → α}
    {calls : List (RingCall α)}
    (h : run call (initial capacity positive buffer) calls = some ring)
    (few : ring.pushed.length ≤ bound) : ring.Consistent := by
  obtain ⟨hcapacity, counted, stored⟩ := run_stored positive small apart h
  have hheld := counted.held
  refine ⟨(stored few).order, by rw [values_length]; exact hheld, ?_⟩
  intro first second hfirst before hsecond
  rw [values_length] at hsecond
  have hslots := apart first second before (by omega) (by omega)
  rw [slotOf, slot, slotOf, slot, hcapacity]
  exact hslots

/-- In every run with at most `2 ^ 31` pushes the ring is consistent, whatever the capacity. -/
theorem consistent_of_few {capacity : Nat} (positive : 0 < capacity) (small : capacity < 2 ^ 31)
    {buffer : Nat → α} {calls : List (RingCall α)}
    (h : run call (initial capacity positive buffer) calls = some ring)
    (few : ring.pushed.length ≤ 2 ^ 31) : ring.Consistent :=
  consistent_of_apart positive small (slotsApart_firstHalf capacity) h few

/-- A run of pushes and pops reaches every count that the capacity admits. -/
theorem run_reaches {capacity : Nat} (positive : 0 < capacity) (small : capacity < 2 ^ 31)
    (buffer : Nat → α) (pops held : Nat) (fits : held ≤ capacity) :
    ∃ calls ring, run call (initial capacity positive buffer) calls = some ring ∧
      ring.capacity = capacity ∧ ring.Counted ∧ ring.popped.length = pops ∧
      ring.pushed.length = pops + held := by
  induction held with
  | zero =>
    induction pops with
    | zero =>
      exact ⟨[], _, rfl, rfl, initial_counted positive small buffer, rfl, rfl⟩
    | succ pops ih =>
      obtain ⟨calls, ring, hrun, hcapacity, counted, hpopped, hpushed⟩ := ih
      have hroom : ring.pushed.length < ring.popped.length + ring.capacity := by omega
      have hpush : ring.call (.push (buffer 0)) = some (ring.afterPush (buffer 0)) := by
        rw [call, counted.tryPush, if_pos hroom]
      have hcounted := counted.afterPush hroom (buffer 0)
      have hsome : (ring.afterPush (buffer 0)).popped.length <
          (ring.afterPush (buffer 0)).pushed.length := by
        rw [afterPush_popped, afterPush_pushed, List.length_append, List.length_singleton]
        omega
      have hpop : (ring.afterPush (buffer 0)).call .pop = some (ring.afterPush (buffer 0)).afterPop := by
        rw [call, hcounted.tryPop, if_pos hsome]
      refine ⟨calls ++ [.push (buffer 0), .pop], (ring.afterPush (buffer 0)).afterPop, ?_, ?_,
        hcounted.afterPop hsome, ?_, ?_⟩
      · rw [run_append, hrun, Option.bind_some, run_cons, hpush, Option.bind_some, run_cons, hpop]
        rfl
      · rw [afterPop_capacity, afterPush_capacity, hcapacity]
      · rw [afterPop_popped, List.length_append, List.length_singleton, afterPush_popped, hpopped]
      · rw [afterPop_pushed, afterPush_pushed, List.length_append, List.length_singleton, hpushed]
  | succ held ih =>
    obtain ⟨calls, ring, hrun, hcapacity, counted, hpopped, hpushed⟩ := ih (Nat.le_of_succ_le fits)
    have hroom : ring.pushed.length < ring.popped.length + ring.capacity := by omega
    refine ⟨calls ++ [.push (buffer 0)], ring.afterPush (buffer 0), ?_, hcapacity,
      counted.afterPush hroom _, hpopped, ?_⟩
    · rw [run_snoc, hrun, Option.bind_some, call, counted.tryPush, if_pos hroom]
    · rw [afterPush_pushed, List.length_append, List.length_singleton, hpushed]
      rfl

/-- With a capacity that does not divide `2 ^ 64`, the slot of the last index of a turn is taken
again before the ring is full. -/
theorem slots_meet {capacity : Nat} (positive : 0 < capacity) (small : capacity < 2 ^ 31)
    (divides : ¬ capacity ∣ 2 ^ 64) :
    ∃ second, 2 ^ 32 - 1 < second ∧ second < 2 ^ 32 - 1 + capacity ∧
      toSize (toInt (2 ^ 32 - 1 : Nat)) % capacity = toSize (toInt second) % capacity := by
  have hlast : toSize (toInt (2 ^ 32 - 1 : Nat)) = 2 ^ 64 - 1 := by
    rw [toSize_toInt, if_neg (by decide)]
    rfl
  have hslot : (2 ^ 64 - 1) % capacity < capacity := Nat.mod_lt _ positive
  have hne : (2 ^ 64 - 1) % capacity ≠ capacity - 1 := by
    intro hsame
    apply divides
    have hsplit := Nat.div_add_mod (2 ^ 64 - 1) capacity
    refine ⟨(2 ^ 64 - 1) / capacity + 1, ?_⟩
    rw [Nat.mul_add, Nat.mul_one]
    omega
  have hfirst : toSize (toInt (2 ^ 32 + (2 ^ 64 - 1) % capacity : Nat)) =
      (2 ^ 64 - 1) % capacity := by
    rw [toSize_toInt, if_pos (by omega)]
    omega
  refine ⟨2 ^ 32 + (2 ^ 64 - 1) % capacity, by omega, by omega, ?_⟩
  rw [hlast, hfirst, Nat.mod_mod]

/-- Filled at the end of a turn, the ring has two values in one slot. -/
theorem exists_inconsistent (capacity : Nat) (positive : 0 < capacity) (small : capacity < 2 ^ 31)
    (divides : ¬ capacity ∣ 2 ^ 64) (buffer : Nat → α) :
    ∃ calls ring, run call (initial capacity positive buffer) calls = some ring ∧
      ¬ ring.Consistent := by
  obtain ⟨calls, ring, hrun, hcapacity, -, hpopped, hpushed⟩ :=
    run_reaches positive small buffer (2 ^ 32 - 1) capacity (le_refl _)
  obtain ⟨second, hafter, hbefore, hsame⟩ := slots_meet positive small divides
  refine ⟨calls, ring, hrun, fun consistent => ?_⟩
  apply consistent.slots (2 ^ 32 - 1) second (by omega) hafter (by rw [values_length]; omega)
  rw [slotOf, slot, slotOf, slot, hcapacity]
  exact hsame

/-- Every run of any length is consistent exactly when the capacity is a power of two. -/
theorem consistent_iff {capacity : Nat} (positive : 0 < capacity) (small : capacity < 2 ^ 31)
    (buffer : Nat → α) :
    (∀ calls ring, run call (initial capacity positive buffer) calls = some ring →
      ring.Consistent) ↔ ∃ exponent, capacity = 2 ^ exponent := by
  constructor
  · intro consistent
    by_contra hnot
    have hdivides : ¬ capacity ∣ 2 ^ 64 := by
      intro hdvd
      obtain ⟨exponent, -, hpower⟩ := (Nat.dvd_prime_pow Nat.prime_two).mp hdvd
      exact hnot ⟨exponent, hpower⟩
    obtain ⟨calls, ring, hrun, hbad⟩ := exists_inconsistent capacity positive small hdivides buffer
    exact hbad (consistent calls ring hrun)
  · rintro ⟨exponent, rfl⟩ calls ring hrun
    have hexponent : exponent < 31 := (Nat.pow_lt_pow_iff_right (by decide)).mp small
    have hdivides : 2 ^ exponent ∣ 2 ^ 32 := pow_dvd_pow 2 (by omega)
    exact consistent_of_apart positive small (slotsApart_of_dvd hdivides _) hrun (le_refl _)

theorem consistent_iff_four :
    (∀ calls ring, run call (initial 4 (by decide) fun _ => ()) calls = some ring →
      ring.Consistent) ↔ ∃ exponent, 4 = 2 ^ exponent :=
  consistent_iff (by decide) (by decide) fun _ => ()

/-- A ring of three. -/
theorem not_consistent_three : ¬ ∀ calls ring,
    run call (initial 3 (by decide) fun _ => ()) calls = some ring →
      ring.Consistent := by
  intro consistent
  obtain ⟨calls, ring, hrun, hbad⟩ :=
    exists_inconsistent 3 (by decide) (by decide) (by decide) fun _ => ()
  exact hbad (consistent calls ring hrun)

end RingBuffer

end LiteExchange.Core
