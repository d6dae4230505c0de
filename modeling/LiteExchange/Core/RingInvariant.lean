import LiteExchange.Core.RingBuffer

/-!
# Producers that take turns

As long as a slot is only written with the current index and no other call stands between
its slot and its store, the indexes count the pushes and the pops, and each slot between
them holds the value pushed with its index, whatever the stale indexes of other calls are.
-/

namespace LiteExchange.Core.RingBuffer

variable {π α : Type}

def values (ring : RingBuffer π α) : List α := ring.pushed.map Prod.snd

@[simp] theorem values_length (ring : RingBuffer π α) :
    ring.values.length = ring.pushed.length := by
  simp [values]

/-- The first value that was not read from its slot. -/
def firstUnread (ring : RingBuffer π α) : Nat :=
  if ring.consumer.hasRead then ring.popped.length + 1 else ring.popped.length

theorem popped_le_firstUnread (ring : RingBuffer π α) : ring.popped.length ≤ ring.firstUnread := by
  unfold firstUnread
  split
  · exact Nat.le_succ _
  · exact le_refl _

/-- What a call of `tryPush` still relies on; the index it loaded may be stale. -/
def PushSound (ring : RingBuffer π α) : TryPush α → Prop
  | .idle => True
  | .loaded _ currentTail => 0 ≤ currentTail ∧ currentTail ≤ ring.pushed.length
  | .admitted _ currentTail =>
    0 ≤ currentTail ∧ currentTail ≤ ring.pushed.length ∧
      currentTail < ring.popped.length + ring.capacity
  | .written val currentTail =>
    currentTail = ring.pushed.length ∧ ring.pushed.length < ring.popped.length + ring.capacity ∧
      ring.buffer (ring.pushed.length % ring.capacity) = val

def PopSound (ring : RingBuffer π α) : TryPop α → Prop
  | .idle => True
  | .loaded currentHead => currentHead = ring.popped.length
  | .admitted currentHead =>
    currentHead = ring.popped.length ∧ ring.popped.length < ring.pushed.length
  | .read currentHead element =>
    currentHead = ring.popped.length ∧ ring.values[ring.popped.length]? = some element

/-- A call that has not written its slot can only gain by later pushes and pops. -/
theorem PushSound.of_grown {ring next : RingBuffer π α} {call : TryPush α}
    (h : ring.PushSound call) (before : call.isWritten = false)
    (popped : ring.popped.length ≤ next.popped.length)
    (pushed : ring.pushed.length ≤ next.pushed.length) (capacity : next.capacity = ring.capacity) :
    next.PushSound call := by
  cases call with
  | idle => trivial
  | loaded val tail =>
    obtain ⟨hlow, hhigh⟩ := h
    exact ⟨hlow, by omega⟩
  | admitted val tail =>
    obtain ⟨hlow, hhigh, hroom⟩ := h
    refine ⟨hlow, by omega, ?_⟩
    rw [capacity]
    omega
  | written val tail => cases before

/-- What a pop relies on stays when a value is pushed. -/
theorem PopSound.of_pushed {ring next : RingBuffer π α} {call : TryPop α}
    (h : ring.PopSound call) (popped : next.popped = ring.popped)
    (pushed : ring.values <+: next.values) : next.PopSound call := by
  have hlength := pushed.length_le
  rw [values_length, values_length] at hlength
  cases call with
  | idle => trivial
  | loaded head =>
    rw [PopSound, popped]
    exact h
  | admitted head =>
    rw [PopSound, popped]
    exact ⟨h.1, Nat.lt_of_lt_of_le h.2 hlength⟩
  | read head element =>
    obtain ⟨later, hlater⟩ := pushed
    rw [PopSound, popped, ← hlater,
      List.getElem?_append_left (List.getElem?_eq_some_iff.mp h.2).1]
    exact h

structure Sound (ring : RingBuffer π α) : Prop where
  write : ring.write = ring.pushed.length
  read : ring.read = ring.popped.length
  small : ring.pushed.length < 2 ^ 31
  fifo : ring.popped <+: ring.values
  bounded : ring.pushed.length ≤ ring.popped.length + ring.capacity
  slots : ∀ k val, ring.values[k]? = some val → ring.popped.length ≤ k →
    ring.buffer (k % ring.capacity) = val
  pushing : ∀ p, ring.PushSound (ring.producers p)
  writer : ∀ p q, (ring.producers p).isWritten = true → (ring.producers q).isWritten = true → p = q
  popping : ring.PopSound ring.consumer
  unread : ∀ slot, ring.unread slot = true → ∃ k, ring.firstUnread ≤ k ∧
    slot = k % ring.capacity ∧ (k < ring.pushed.length ∨
      k = ring.pushed.length ∧ ∃ p, (ring.producers p).isWritten = true)

/-- Indexes less than a capacity apart have different slots. -/
theorem mod_ne_of_near {capacity k n : Nat} (before : k < n) (near : n < k + capacity) :
    k % capacity ≠ n % capacity := by
  intro hsame
  have hdvd : capacity ∣ n - k := (Nat.modEq_iff_dvd' (Nat.le_of_lt before)).mp hsame
  have hle := Nat.le_of_dvd (by omega) hdvd
  omega

theorem Sound.popped_le {ring : RingBuffer π α} (sound : ring.Sound) :
    ring.popped.length ≤ ring.pushed.length := by
  have hlength := sound.fifo.length_le
  rwa [values_length] at hlength

theorem Sound.firstUnread_le {ring : RingBuffer π α} (sound : ring.Sound) :
    ring.firstUnread ≤ ring.pushed.length := by
  have hpopping := sound.popping
  unfold firstUnread
  cases hcall : ring.consumer with
  | read currentHead element =>
    rw [hcall] at hpopping
    have hlength := (List.getElem?_eq_some_iff.mp hpopping.2).1
    rwa [values_length] at hlength
  | _ => exact sound.popped_le

/-- The test is the comparison with the capacity, also for a stale index. -/
theorem Sound.hasRoom_iff {ring : RingBuffer π α} (sound : ring.Sound) {currentTail : Int}
    (high : currentTail ≤ ring.pushed.length)
    (current : (ring.popped.length : Int) ≤ currentTail) :
    ring.HasRoom currentTail ↔ currentTail < ring.popped.length + ring.capacity := by
  have hsmall := sound.small
  have hpositive := ring.positive
  have hdifference : toInt (currentTail - ring.read) = currentTail - ring.read := by
    rw [sound.read]
    exact toInt_of_bounds (by omega) (by omega)
  have hsize : (toSize (currentTail - ring.read) : Int) = currentTail - ring.read := by
    rw [sound.read]
    exact toSize_of_nonneg (by omega) (by omega)
  unfold HasRoom
  rw [hdifference]
  rw [sound.read] at hsize ⊢
  omega

theorem slot_natCast {ring : RingBuffer π α} {k : Nat} (small : k < 2 ^ 31) :
    ring.slot k = k % ring.capacity := by
  rw [slot, toSize_natCast small]

/-- The slot of the next value holds nothing that is still to be read. -/
theorem Sound.unread_free {ring : RingBuffer π α} (sound : ring.Sound)
    (room : ring.pushed.length < ring.popped.length + ring.capacity)
    (alone : ∀ p, (ring.producers p).isWritten = false) :
    ring.unread (ring.pushed.length % ring.capacity) = false := by
  by_contra hunread
  obtain ⟨k, hfirst, hslot, hbound⟩ := sound.unread _ (Bool.eq_true_of_not_eq_false hunread)
  have hpopped := ring.popped_le_firstUnread
  rcases hbound with hbefore | ⟨_, p, hp⟩
  · exact mod_ne_of_near hbefore (by omega) hslot.symm
  · rw [alone p] at hp
    cases hp

theorem increment_natCast {n : Nat} (small : n + 1 < 2 ^ 31) :
    increment n = ((n + 1 : Nat) : Int) := by
  unfold increment
  rw [toInt_of_bounds (by omega) (by omega), Int.natCast_succ]

/-- A step of the consumer that leaves the shared memory as it is. -/
theorem Sound.setConsumer {ring : RingBuffer π α} (sound : ring.Sound) {call : TryPop α}
    (before : ring.consumer.hasRead = false) (after : call.hasRead = false)
    (call_sound : ring.PopSound call) : Sound { ring with consumer := call } := by
  refine { sound with pushing := sound.pushing, popping := call_sound, unread := ?_ }
  intro slot hunread
  obtain ⟨k, hfirst, hk, hbound⟩ := sound.unread slot hunread
  refine ⟨k, ?_, hk, hbound⟩
  rw [firstUnread, before] at hfirst
  rw [firstUnread, after]
  exact hfirst

theorem Sound.readSlot {ring : RingBuffer π α} (sound : ring.Sound) {currentHead : Int}
    (call : ring.consumer = .admitted currentHead) :
    Sound { ring with
      consumer := .read currentHead (ring.buffer (ring.slot currentHead))
      unread := Function.update ring.unread (ring.slot currentHead) false } := by
  have hcall := sound.popping
  rw [call] at hcall
  obtain ⟨hhead, hnonempty⟩ := hcall
  have hsmall := sound.small
  have hslot : ring.slot currentHead = ring.popped.length % ring.capacity := by
    rw [hhead, slot_natCast (by omega)]
  have hfirst : ring.firstUnread = ring.popped.length := by
    rw [firstUnread, call]
    rfl
  have hlt : ring.popped.length < ring.values.length := by rwa [values_length]
  have hvalue := List.getElem?_eq_getElem hlt
  rw [hslot]
  refine { sound with pushing := sound.pushing, popping := ?_, unread := ?_ }
  · refine ⟨hhead, ?_⟩
    rw [sound.slots _ _ hvalue (le_refl _)]
    exact hvalue
  · intro slot hunread
    change Function.update ring.unread _ false slot = true at hunread
    by_cases hsame : slot = ring.popped.length % ring.capacity
    · rw [hsame, Function.update_self] at hunread
      cases hunread
    · rw [Function.update_of_ne hsame] at hunread
      obtain ⟨k, hk, hmod, hbound⟩ := sound.unread slot hunread
      rw [hfirst] at hk
      have hne : k ≠ ring.popped.length := by
        rintro rfl
        exact hsame hmod
      refine ⟨k, ?_, hmod, hbound⟩
      change ring.popped.length + 1 ≤ k
      omega

theorem Sound.storeRead {ring : RingBuffer π α} (sound : ring.Sound) {currentHead : Int}
    {element : α} (call : ring.consumer = .read currentHead element) :
    Sound { ring with
      consumer := .idle
      read := increment currentHead
      popped := ring.popped ++ [element] } := by
  have hcall := sound.popping
  rw [call] at hcall
  obtain ⟨hhead, hvalue⟩ := hcall
  have hsmall := sound.small
  obtain ⟨hlt, helement⟩ := List.getElem?_eq_some_iff.mp hvalue
  rw [values_length] at hlt
  have hlength : (ring.popped ++ [element]).length = ring.popped.length + 1 := by simp
  refine
    { sound with
      read := ?_
      fifo := ?_
      bounded := ?_
      slots := ?_
      pushing := ?_
      popping := trivial
      unread := ?_ }
  · change increment currentHead = ((ring.popped ++ [element]).length : Int)
    rw [hhead, hlength]
    exact increment_natCast (by omega)
  · change ring.popped ++ [element] <+: ring.values
    rw [List.prefix_iff_eq_take, hlength, List.take_add_one, hvalue,
      ← List.prefix_iff_eq_take.mp sound.fifo]
    rfl
  · change ring.pushed.length ≤ (ring.popped ++ [element]).length + ring.capacity
    have hbounded := sound.bounded
    omega
  · intro k other hother (hpopped : (ring.popped ++ [element]).length ≤ k)
    exact sound.slots k other hother (by omega)
  · intro q
    have hq := sound.pushing q
    change PushSound _ (ring.producers q)
    cases hwritten : (ring.producers q).isWritten with
    | false => exact hq.of_grown hwritten (by rw [hlength]; omega) (Nat.le_refl _) rfl
    | true =>
      cases hcall : ring.producers q with
      | written val tail =>
        rw [hcall] at hq
        obtain ⟨htail, hroom, hrest⟩ := hq
        refine ⟨htail, ?_, hrest⟩
        change ring.pushed.length < (ring.popped ++ [element]).length + ring.capacity
        omega
      | _ =>
        rw [hcall] at hwritten
        cases hwritten
  · intro slot hunread
    obtain ⟨k, hfirst, hrest⟩ := sound.unread slot hunread
    refine ⟨k, ?_, hrest⟩
    rw [firstUnread, call] at hfirst
    rw [firstUnread, hlength]
    exact hfirst

theorem initial_sound (capacity : Nat) (positive : 0 < capacity) (buffer : Nat → α) :
    (initial capacity positive buffer : RingBuffer π α).Sound where
  write := rfl
  read := rfl
  small := Nat.two_pow_pos 31
  fifo := List.nil_prefix
  bounded := Nat.zero_le _
  slots := by
    intro k val hvalue
    cases hvalue
  pushing := fun _ => trivial
  writer := by
    intro p q hp
    cases hp
  popping := trivial
  unread := by
    intro slot hunread
    cases hunread

/-- A slot is only written with the index that `m_write` still holds and with no other call
between its slot and its store, and only an index whose successor is an `int` is stored. -/
def Exclusive (ring : RingBuffer π α) : RingStep π α → Prop
  | .writeSlot producer =>
    (ring.producers producer).tail = some ring.write ∧
      ∀ other, (ring.producers other).isWritten = false
  | .storeWrite _ => ring.write < 2 ^ 31 - 1
  | _ => True

variable [DecidableEq π]

/-- A step of a producer that leaves the shared memory as it is. -/
theorem Sound.setProducer {ring : RingBuffer π α} (sound : ring.Sound) {p : π} {call : TryPush α}
    (before : (ring.producers p).isWritten = false) (after : call.isWritten = false)
    (call_sound : ring.PushSound call) : (ring.setProducer p call).Sound := by
  have hother : ∀ q, (Function.update ring.producers p call q).isWritten = true →
      (ring.producers q).isWritten = true := by
    intro q hq
    by_cases hpq : q = p
    · rw [hpq, Function.update_self, after] at hq
      cases hq
    · rwa [Function.update_of_ne hpq] at hq
  have hkept : ∀ q, (ring.producers q).isWritten = true →
      (Function.update ring.producers p call q).isWritten = true := by
    intro q hq
    by_cases hpq : q = p
    · rw [hpq, before] at hq
      cases hq
    · rwa [Function.update_of_ne hpq]
  refine { sound with pushing := ?_, writer := ?_, popping := ?_, unread := ?_ }
  · intro q
    change ring.PushSound (Function.update ring.producers p call q)
    by_cases hpq : q = p
    · rwa [hpq, Function.update_self]
    · rw [Function.update_of_ne hpq]
      exact sound.pushing q
  · exact fun q r hq hr => sound.writer q r (hother q hq) (hother r hr)
  · exact sound.popping
  · intro slot hslot
    obtain ⟨k, hfirst, hk, hbound⟩ := sound.unread slot hslot
    refine ⟨k, hfirst, hk, hbound.imp_right ?_⟩
    rintro ⟨hlast, q, hq⟩
    exact ⟨hlast, q, hkept q hq⟩

theorem Sound.writeSlot {ring : RingBuffer π α} (sound : ring.Sound) {p : π} {val : α}
    {currentTail : Int} (call : ring.producers p = .admitted val currentTail)
    (current : currentTail = ring.write)
    (alone : ∀ other, (ring.producers other).isWritten = false) :
    Sound { ring with
      producers := Function.update ring.producers p (.written val currentTail)
      buffer := Function.update ring.buffer (ring.slot currentTail) val
      unread := Function.update ring.unread (ring.slot currentTail) true } := by
  have hcall := sound.pushing p
  rw [call] at hcall
  obtain ⟨_, _, hroom⟩ := hcall
  have htail : currentTail = ring.pushed.length := current.trans sound.write
  have hsmall := sound.small
  have hslot : ring.slot currentTail = ring.pushed.length % ring.capacity := by
    rw [htail, slot_natCast hsmall]
  have hroom' : ring.pushed.length < ring.popped.length + ring.capacity := by omega
  have hwriter : ∀ q,
      (Function.update ring.producers p (.written val currentTail) q).isWritten = true →
        q = p := by
    intro q hq
    by_contra hpq
    rw [Function.update_of_ne hpq, alone q] at hq
    cases hq
  rw [hslot]
  refine { sound with slots := ?_, pushing := ?_, writer := ?_, popping := ?_, unread := ?_ }
  · intro k other (hvalue : ring.values[k]? = some other) (hpopped : ring.popped.length ≤ k)
    have hk : k < ring.pushed.length := by
      have hlength := (List.getElem?_eq_some_iff.mp hvalue).1
      rwa [values_length] at hlength
    have hne : k % ring.capacity ≠ ring.pushed.length % ring.capacity :=
      mod_ne_of_near hk (by omega)
    change Function.update ring.buffer _ val (k % ring.capacity) = other
    rw [Function.update_of_ne hne]
    exact sound.slots k other hvalue hpopped
  · intro q
    change PushSound _ (Function.update ring.producers p (.written val currentTail) q)
    by_cases hpq : q = p
    · rw [hpq, Function.update_self]
      exact ⟨htail, hroom', Function.update_self ..⟩
    · rw [Function.update_of_ne hpq]
      have hq := sound.pushing q
      have hfree := alone q
      cases hother : ring.producers q with
      | written _ _ =>
        rw [hother] at hfree
        cases hfree
      | _ =>
        rw [hother] at hq
        exact hq
  · intro q r hq hr
    rw [hwriter q hq, hwriter r hr]
  · exact sound.popping
  · intro slot hunread
    change Function.update ring.unread _ true slot = true at hunread
    by_cases hsame : slot = ring.pushed.length % ring.capacity
    · refine ⟨ring.pushed.length, ?_, hsame, Or.inr ⟨rfl, p, ?_⟩⟩
      · exact sound.firstUnread_le
      · change (Function.update ring.producers p _ p).isWritten = true
        rw [Function.update_self]
        rfl
    · rw [Function.update_of_ne hsame] at hunread
      obtain ⟨k, hfirst, hk, hbound⟩ := sound.unread slot hunread
      refine ⟨k, hfirst, hk, Or.inl ?_⟩
      rcases hbound with hbefore | ⟨_, q, hq⟩
      · exact hbefore
      · rw [alone q] at hq
        cases hq

theorem Sound.storeWrite {ring : RingBuffer π α} (sound : ring.Sound) {p : π} {val : α}
    {currentTail : Int} (call : ring.producers p = .written val currentTail)
    (small : ring.pushed.length + 1 < 2 ^ 31) :
    Sound { ring with
      producers := Function.update ring.producers p .idle
      write := increment currentTail
      pushed := ring.pushed ++ [(p, val)] } := by
  have hcall := sound.pushing p
  rw [call] at hcall
  obtain ⟨htail, hroom, hbuffer⟩ := hcall
  have hp : (ring.producers p).isWritten = true := by rw [call]; rfl
  have hlength : (ring.pushed ++ [(p, val)]).length = ring.pushed.length + 1 := by simp
  have hvalues : (ring.pushed ++ [(p, val)]).map Prod.snd = ring.values ++ [val] := by simp [values]
  have hextends : ring.values <+: (ring.pushed ++ [(p, val)]).map Prod.snd := by
    rw [hvalues]
    exact List.prefix_append ..
  have hfree : ∀ q, (Function.update ring.producers p .idle q).isWritten = false := by
    intro q
    by_cases hpq : q = p
    · rw [hpq, Function.update_self]
      rfl
    · rw [Function.update_of_ne hpq]
      by_contra hq
      exact hpq (sound.writer q p (Bool.eq_true_of_not_eq_false hq) hp)
  refine
    { write := ?_
      read := sound.read
      small := by rw [hlength]; exact small
      fifo := ?_
      bounded := by rw [hlength]; exact hroom
      slots := ?_
      pushing := ?_
      writer := ?_
      popping := ?_
      unread := ?_ }
  · change increment currentTail = ((ring.pushed ++ [(p, val)]).length : Int)
    rw [htail, hlength]
    exact increment_natCast small
  · exact sound.fifo.trans hextends
  · intro k other hvalue (hpopped : ring.popped.length ≤ k)
    change ((ring.pushed ++ [(p, val)]).map Prod.snd)[k]? = some other at hvalue
    rw [hvalues, List.getElem?_append, values_length] at hvalue
    split at hvalue
    · exact sound.slots k other hvalue hpopped
    · rename_i hbehind
      have hk : k = ring.pushed.length := by
        have hbound := (List.getElem?_eq_some_iff.mp hvalue).1
        simp only [List.length_singleton] at hbound
        omega
      rw [hk, Nat.sub_self] at hvalue
      cases hvalue
      rw [hk]
      exact hbuffer
  · intro q
    change PushSound _ (Function.update ring.producers p .idle q)
    have hnot := hfree q
    by_cases hpq : q = p
    · rw [hpq, Function.update_self]
      trivial
    · rw [Function.update_of_ne hpq] at hnot ⊢
      exact (sound.pushing q).of_grown hnot (Nat.le_refl _) (by rw [hlength]; omega) rfl
  · intro q r hq
    rw [hfree q] at hq
    cases hq
  · exact sound.popping.of_pushed rfl hextends
  · intro slot hunread
    obtain ⟨k, hfirst, hk, hbound⟩ := sound.unread slot hunread
    refine ⟨k, hfirst, hk, Or.inl ?_⟩
    rw [hlength]
    rcases hbound with hbefore | ⟨hlast, _⟩
    · exact Nat.lt_succ_of_lt hbefore
    · exact Nat.lt_succ_of_le (le_of_eq hlast)

theorem Sound.step {ring next : RingBuffer π α} {label : RingStep π α} (sound : ring.Sound)
    (exclusive : ring.Exclusive label) (hstep : ring.step label = some next) : next.Sound := by
  have hfree : ∀ {p : π} {call : TryPush α}, ring.producers p = call → call.isWritten = false →
      (ring.producers p).isWritten = false := fun h hcall => by rw [h]; exact hcall
  have hconsumer : ∀ {call : TryPop α}, ring.consumer = call → call.hasRead = false →
      ring.consumer.hasRead = false := fun h hcall => by rw [h]; exact hcall
  cases step_moves hstep with
  | loadWrite val call =>
    refine sound.setProducer (hfree call rfl) rfl ⟨?_, ?_⟩
    · rw [sound.write]
      exact Int.natCast_nonneg _
    · rw [sound.write]
  | @granted p val currentTail call room =>
    have hcall := sound.pushing p
    rw [call] at hcall
    refine sound.setProducer (hfree call rfl) rfl ⟨hcall.1, hcall.2, ?_⟩
    by_cases hstale : (ring.popped.length : Int) ≤ currentTail
    · exact (sound.hasRoom_iff hcall.2 hstale).mp room
    · have hpositive := ring.positive
      omega
  | refuse call full => exact sound.setProducer (hfree call rfl) rfl trivial
  | writeSlot call =>
    obtain ⟨htail, halone⟩ := exclusive
    rw [call] at htail
    exact sound.writeSlot call (Option.some.inj htail) halone
  | storeWrite call =>
    have hsmall : ring.write < 2 ^ 31 - 1 := exclusive
    rw [sound.write] at hsmall
    exact sound.storeWrite call (by omega)
  | loadRead call => exact sound.setConsumer (hconsumer call rfl) rfl sound.read
  | found call differs =>
    have hpopping := sound.popping
    have hpopped := sound.popped_le
    rw [call] at hpopping
    refine sound.setConsumer (hconsumer call rfl) rfl ⟨hpopping, ?_⟩
    have hhead : _ = (ring.popped.length : Int) := hpopping
    rw [hhead, sound.write] at differs
    omega
  | foundEmpty call same => exact sound.setConsumer (hconsumer call rfl) rfl trivial
  | readSlot call => exact sound.readSlot call
  | storeRead call => exact sound.storeRead call


/-- What is popped is what was pushed: the pushes of the producers in some order, each in its
own order and once, and all of them when `tryPop` finds the ring empty. -/
def Delivers (ring : RingBuffer π α) : Prop :=
  ∃ merged : List (π × α),
    (∀ p, (merged.filter fun push => push.1 = p) = ring.pushed.filter fun push => push.1 = p) ∧
    ring.popped <+: merged.map Prod.snd ∧
    (ring.consumer = .idle → ring.read = ring.write → ring.popped = merged.map Prod.snd)

theorem Sound.delivers {ring : RingBuffer π α} (sound : ring.Sound) : ring.Delivers := by
  refine ⟨ring.pushed, fun p => rfl, sound.fifo, fun _ hempty => ?_⟩
  rw [sound.read, sound.write] at hempty
  exact sound.fifo.eq_of_length (by rw [values_length]; omega)

end LiteExchange.Core.RingBuffer
