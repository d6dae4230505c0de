import LiteExchange.Core.QueueMPSC
import LiteExchange.Foundation.CriticalSections

/-!
# The spin lock, and the queue of the logger under it

Source: spinlock.hpp, queue_mpsc.hpp. A turn of the loop in `lock` is a `test_and_set`, or a
`yield` where the counter has reached the spin count. The sections of the queue are taken one
memory access at a time; producers allocate and fill their nodes meanwhile, without the lock.
-/

namespace LiteExchange.Core

open Foundation Foundation.Runs Foundation.LinkedList Foundation.CriticalSections

structure SpinLock where
  yielding : Bool := true
  spinCount : Nat := 0x400

namespace SpinLock

/-- The flag behind `test_and_set`, and what `tryLock` returns. -/
def tryLock (flag : Bool) : Bool × Bool := (true, !flag)

/-- A turn of `lock` with the counter of its inner loop; without one behind it `lock` returns. -/
def lockTurn (lock : SpinLock) (flag : Bool) (i : Nat) : Bool × Option Nat :=
  if lock.yielding then
    if i < lock.spinCount then
      let (flag, locked) := tryLock flag
      (flag, if locked then none else some (i + 1))
    else (flag, some 0)
  else
    let (flag, locked) := tryLock flag
    (flag, if locked then none else some i)

/-- The turn is a `test_and_set`. -/
def tries (lock : SpinLock) (i : Nat) : Bool := !lock.yielding || i < lock.spinCount

/-- The counter behind a turn that does not lock. -/
def again (lock : SpinLock) (i : Nat) : Nat :=
  if lock.yielding then if i < lock.spinCount then i + 1 else 0 else i

theorem lockTurn_eq (lock : SpinLock) (flag : Bool) (i : Nat) :
    lock.lockTurn flag i =
      if lock.tries i ∧ flag = false then (true, none) else (flag, some (lock.again i)) := by
  unfold lockTurn tries again tryLock
  cases lock.yielding with
  | false =>
    cases flag with
    | false => simp
    | true => simp
  | true =>
    by_cases hspins : i < lock.spinCount
    · cases flag with
      | false => simp [hspins]
      | true => simp [hspins]
    · simp [hspins]

end SpinLock

/-! ## The sections of the queue -/

/-- The call that a section belongs to. -/
inductive QueueCall where
  | push | isEmpty | checkEmpty | take
  deriving DecidableEq, Repr

structure QueueRegisters (ι : Type) where
  call : QueueCall
  newNode : Option ι := none
  retVal : Bool := true
  ret : Option ι := none
  deriving DecidableEq

inductive QueueAccess where
  | linkLast | moveTail
  | readNext
  | awaitData | takeNext | clearNext | resetTail
  deriving DecidableEq, Repr

/-- A producer makes a node for its data. -/
structure NewNode (π ι T : Type) where
  producer : π
  address : ι
  data : T

/-- An atomic step of the queue as the threads make it; no thread is the consumer's. -/
abbrev QueueEvent (π ι T : Type) :=
  Atomic (Option π) (QueueRegisters ι) QueueAccess (NewNode π ι T)

namespace QueueMPSC

variable {π ι T : Type} [DecidableEq π] [DecidableEq ι]

/-- An access through a dangling pointer is stuck, and so is a wait for data that are not there. -/
def access : QueueAccess → QueueMPSC π ι T × QueueRegisters ι →
    Option (QueueMPSC π ι T × QueueRegisters ι)
  | .linkLast, (queue, registers) =>
    if (queue.heap queue.tail).isSome ∧ registers.newNode.isSome then
      some ({ queue with heap := queue.heap.setNext queue.tail registers.newNode }, registers)
    else none
  | .moveTail, (queue, registers) =>
    registers.newNode.map fun newNode => ({ queue with tail := newNode }, registers)
  | .readNext, (queue, registers) =>
    (queue.heap queue.head).map fun node =>
      (queue, { registers with retVal := node.next.isNone })
  | .awaitData, (queue, registers) =>
    (queue.heap queue.head).bind fun node =>
      if node.next.isSome then some (queue, registers) else none
  | .takeNext, (queue, registers) =>
    (queue.heap queue.head).map fun node => (queue, { registers with ret := node.next })
  | .clearNext, (queue, registers) =>
    if (queue.heap queue.head).isSome then
      some ({ queue with heap := queue.heap.setNext queue.head none }, registers)
    else none
  | .resetTail, (queue, registers) => some ({ queue with tail := queue.head }, registers)

def pushBody (newNode : ι) : Body (QueueRegisters ι) QueueAccess where
  registers := { call := .push, newNode := some newNode }
  program := [.linkLast, .moveTail]

def isEmptyBody : Body (QueueRegisters ι) QueueAccess where
  registers := { call := .isEmpty }
  program := [.readNext]

/-- The `isEmpty` that `flush` calls. -/
def checkBody : Body (QueueRegisters ι) QueueAccess where
  registers := { call := .checkEmpty }
  program := [.readNext]

def takeBody : Body (QueueRegisters ι) QueueAccess where
  registers := { call := .take }
  program := [.awaitData, .takeNext, .clearNext, .resetTail]

/-- What a thread goes on with behind its section. -/
def leave (thread : Option π) (body : Body (QueueRegisters ι) QueueAccess)
    (now : QueueMPSC π ι T × QueueRegisters ι) : QueueMPSC π ι T :=
  match thread with
  | some producer =>
    { now.1 with
      pushing := Function.update now.1.pushing producer none
      pushed := now.1.pushed ++ ((now.1.pushing producer).map Prod.snd).toList }
  | none =>
    match body.registers.call with
    | .checkEmpty =>
      if now.2.retVal then { now.1 with returned := now.1.returned ++ [none] }
      else { now.1 with flushing := true }
    | .take => { now.1 with flushing := false, returned := now.1.returned ++ [now.2.ret] }
    | _ => now.1

/-- A producer locks for the node it has made; the consumer calls one function at a time. -/
def ready (queue : QueueMPSC π ι T) (thread : Option π)
    (body : Body (QueueRegisters ι) QueueAccess) : Bool :=
  match thread with
  | some producer => ((queue.pushing producer).map fun call => pushBody call.1) == some body
  | none => if queue.flushing then body == takeBody else body == isEmptyBody || body == checkBody

def makeNode (queue : QueueMPSC π ι T) (event : NewNode π ι T) : Option (QueueMPSC π ι T) :=
  queue.step (.newNode event.producer event.address event.data)

/-- The calls of the queue under its lock. -/
def sections (lock : SpinLock) :
    Program (Option π) Nat (QueueRegisters ι) QueueAccess (QueueMPSC π ι T) (NewNode π ι T) where
  access := access
  leave := leave
  ready := ready
  outside := makeNode
  owner := fun event => some event.producer
  loop := 0
  tries := lock.tries
  again := lock.again

section Sections

variable {queue next : QueueMPSC π ι T} {registers registers' : QueueRegisters ι}
  {access : QueueAccess} {lock : SpinLock}

omit [DecidableEq π] in
/-- An access changes links, and one of the two pointers; the calls of the threads are theirs. -/
theorem access_frame (h : QueueMPSC.access access (queue, registers) = some (next, registers')) :
    next.pushing = queue.pushing ∧ next.flushing = queue.flushing := by
  cases access with
  | linkLast =>
    obtain ⟨-, hnext⟩ := Option.ite_none_right_eq_some.mp h
    cases hnext
    exact ⟨rfl, rfl⟩
  | moveTail =>
    obtain ⟨newNode, -, hnext⟩ := Option.map_eq_some_iff.mp h
    cases hnext
    exact ⟨rfl, rfl⟩
  | readNext =>
    obtain ⟨node, -, hnext⟩ := Option.map_eq_some_iff.mp h
    cases hnext
    exact ⟨rfl, rfl⟩
  | awaitData =>
    obtain ⟨node, -, hawaits⟩ := Option.bind_eq_some_iff.mp h
    obtain ⟨-, hnext⟩ := Option.ite_none_right_eq_some.mp hawaits
    cases hnext
    exact ⟨rfl, rfl⟩
  | takeNext =>
    obtain ⟨node, -, hnext⟩ := Option.map_eq_some_iff.mp h
    cases hnext
    exact ⟨rfl, rfl⟩
  | clearNext =>
    obtain ⟨-, hnext⟩ := Option.ite_none_right_eq_some.mp h
    cases hnext
    exact ⟨rfl, rfl⟩
  | resetTail =>
    cases h
    exact ⟨rfl, rfl⟩

omit [DecidableEq π] in
theorem ready_congr (pushing : next.pushing = queue.pushing)
    (flushing : next.flushing = queue.flushing) (thread : Option π)
    (body : Body (QueueRegisters ι) QueueAccess) :
    next.ready thread body = queue.ready thread body := by
  unfold ready
  rw [pushing, flushing]

/-- A producer changes its own call only, and the consumer those of no producer. -/
theorem ready_leave {thread other : Option π} (made : Body (QueueRegisters ι) QueueAccess)
    (now : QueueMPSC π ι T × QueueRegisters ι) (hother : thread ≠ other)
    (body : Body (QueueRegisters ι) QueueAccess) :
    (leave other made now).ready thread body = now.1.ready thread body := by
  cases other with
  | none =>
    cases thread with
    | none => exact absurd rfl hother
    | some producer =>
      have hpushing : (leave none made now).pushing = now.1.pushing := by
        simp only [leave]
        split
        · split
          · rfl
          · rfl
        · rfl
        · rfl
      unfold ready
      rw [hpushing]
  | some pushes =>
    cases thread with
    | none => rfl
    | some producer =>
      have hproducer : producer ≠ pushes := fun h => hother (congrArg some h)
      simp [ready, leave, Function.update_of_ne hproducer]

theorem makeNode_some {event : NewNode π ι T} (h : queue.makeNode event = some next) :
    queue.pushing event.producer = none ∧ queue.heap event.address = none ∧
      next = { queue with
        heap := Function.update queue.heap event.address (some ⟨event.data, none⟩)
        pushing := Function.update queue.pushing event.producer
          (some (event.address, event.data)) } := by
  obtain ⟨⟨hidle, hfree⟩, hnext⟩ := Option.ite_none_right_eq_some.mp h
  exact ⟨Option.isNone_iff_eq_none.mp hidle, Option.isNone_iff_eq_none.mp hfree,
    (Option.some.inj hnext).symm⟩

theorem private_sections (lock : SpinLock) :
    Program.Private (sections lock : Program (Option π) Nat (QueueRegisters ι) QueueAccess
      (QueueMPSC π ι T) (NewNode π ι T)) where
  access thread body h := by
    obtain ⟨hpushing, hflushing⟩ := access_frame h
    exact ready_congr hpushing hflushing thread body
  leave thread body _ made now hother := ready_leave made now hother body
  outside := by
    intro event queue next thread body hother h
    obtain ⟨-, -, rfl⟩ := makeNode_some h
    cases thread with
    | none => rfl
    | some producer =>
      have hproducer : producer ≠ event.producer := fun h => hother (congrArg some h.symm)
      simp [sections, ready, Function.update_of_ne hproducer]

omit [DecidableEq ι] in
/-- A node that is in use does not stand where a new one is made. -/
theorem address_ne {heap : Heap ι T} {used free : ι} (husedNode : (heap used).isSome = true)
    (hfree : heap free = none) : free ≠ used := by
  rintro rfl
  rw [hfree] at husedNode
  cases husedNode

/-- Making a node takes an address that no access goes to. -/
theorem moves_sections (lock : SpinLock) :
    Program.Moves (sections lock : Program (Option π) Nat (QueueRegisters ι) QueueAccess
      (QueueMPSC π ι T) (NewNode π ι T)) := by
  intro access queue next after registers registers' event haccess hmade
  obtain ⟨hidle, hfree, rfl⟩ := makeNode_some hmade
  have hmake (now : QueueMPSC π ι T) (hidle : now.pushing event.producer = none)
      (hfree : now.heap event.address = none) : now.makeNode event = some { now with
        heap := Function.update now.heap event.address (some ⟨event.data, none⟩)
        pushing := Function.update now.pushing event.producer
          (some (event.address, event.data)) } := by
    simp only [makeNode, step]
    rw [if_pos ⟨Option.isNone_iff_eq_none.mpr hidle, Option.isNone_iff_eq_none.mpr hfree⟩]
  cases access with
  | linkLast =>
    obtain ⟨⟨hlast, hnew⟩, hnext⟩ := Option.ite_none_right_eq_some.mp haccess
    cases hnext
    have hunused := Heap.setNext_eq_none.mp hfree
    have hother := address_ne hlast hunused
    refine ⟨_, hmake queue hidle hunused, ?_⟩
    simp only [sections, QueueMPSC.access]
    rw [Function.update_of_ne hother.symm, if_pos ⟨hlast, hnew⟩,
      Heap.setNext_update _ _ hother]
  | moveTail =>
    obtain ⟨newNode, hnew, hnext⟩ := Option.map_eq_some_iff.mp haccess
    cases hnext
    refine ⟨_, hmake queue hidle hfree, ?_⟩
    simp only [sections, QueueMPSC.access, hnew]
    rfl
  | readNext =>
    obtain ⟨node, hnode, hnext⟩ := Option.map_eq_some_iff.mp haccess
    cases hnext
    have hother := address_ne (by rw [hnode]; rfl) hfree
    refine ⟨_, hmake queue hidle hfree, ?_⟩
    simp only [sections, QueueMPSC.access]
    rw [Function.update_of_ne hother.symm, hnode]
    rfl
  | awaitData =>
    obtain ⟨node, hnode, hawaits⟩ := Option.bind_eq_some_iff.mp haccess
    obtain ⟨hbehind, hnext⟩ := Option.ite_none_right_eq_some.mp hawaits
    cases hnext
    have hother := address_ne (by rw [hnode]; rfl) hfree
    refine ⟨_, hmake queue hidle hfree, ?_⟩
    simp only [sections, QueueMPSC.access]
    rw [Function.update_of_ne hother.symm, hnode, Option.bind_some, if_pos hbehind]
  | takeNext =>
    obtain ⟨node, hnode, hnext⟩ := Option.map_eq_some_iff.mp haccess
    cases hnext
    have hother := address_ne (by rw [hnode]; rfl) hfree
    refine ⟨_, hmake queue hidle hfree, ?_⟩
    simp only [sections, QueueMPSC.access]
    rw [Function.update_of_ne hother.symm, hnode]
    rfl
  | clearNext =>
    obtain ⟨hhead, hnext⟩ := Option.ite_none_right_eq_some.mp haccess
    cases hnext
    have hunused := Heap.setNext_eq_none.mp hfree
    have hother := address_ne hhead hunused
    refine ⟨_, hmake queue hidle hunused, ?_⟩
    simp only [sections, QueueMPSC.access]
    rw [Function.update_of_ne hother.symm, if_pos hhead, Heap.setNext_update _ _ hother]
  | resetTail =>
    cases haccess
    exact ⟨_, hmake queue hidle hfree, rfl⟩

/-! ## The sections are those of the atomic queue -/

/-- The step of the queue that an atomic section is. -/
def stepOf : QueueEvent π ι T → QueueMPSCStep π ι T
  | .critical (some producer) _ => .link producer
  | .critical none body =>
    match body.registers.call with
    | .take => .take
    | .checkEmpty => .checkEmpty
    | _ => .isEmpty
  | .outside event => .newNode event.producer event.address event.data

variable {flushed : List (List (ι × T))} {dummy : T} {nodes : List (ι × T)}

omit [DecidableEq π] [DecidableEq ι] in
theorem Intact.head_node (h : queue.Intact flushed dummy nodes) :
    ∃ node, queue.heap queue.head = some node := by
  cases h.reachable with
  | node here rest => exact ⟨_, here⟩

theorem atomic_push (h : queue.Intact flushed dummy nodes) {producer : π} {newNode : ι} {data : T}
    (hpushing : queue.pushing producer = some (newNode, data)) :
    (sections lock).atomic queue (.critical (some producer) (pushBody newNode)) =
      queue.step (.link producer) := by
  obtain ⟨last, hlast⟩ := Option.ne_none_iff_exists'.mp
    (h.allocated (List.mem_append_right _ h.tail_mem))
  have hready : (sections lock).ready queue (some producer) (pushBody newNode) = true := by
    simp [sections, ready, hpushing]
  have hperform : (sections lock : Program (Option π) Nat (QueueRegisters ι) QueueAccess
      (QueueMPSC π ι T) (NewNode π ι T)).perform (queue, (pushBody newNode).registers)
      (pushBody newNode).program = some
        ({ queue with heap := queue.heap.setNext queue.tail (some newNode), tail := newNode },
          (pushBody newNode).registers) := by
    simp [Program.perform, pushBody, sections, QueueMPSC.access, hlast]
  rw [Program.atomic_ready hready, hperform, step, hpushing]
  simp [sections, leave, linkNode, hpushing]

theorem atomic_isEmpty (h : queue.Intact flushed dummy nodes) (hidle : queue.flushing = false) :
    (sections lock).atomic queue (.critical none isEmptyBody) = queue.step .isEmpty := by
  obtain ⟨node, hnode⟩ := h.head_node
  have hready : (sections lock).ready queue none isEmptyBody = true := by
    simp [sections, ready, hidle]
  rw [Program.atomic_ready hready, step, if_neg (by simp [hidle])]
  simp [Program.perform, isEmptyBody, sections, QueueMPSC.access, hnode, leave]

theorem atomic_checkEmpty (h : queue.Intact flushed dummy nodes) (hidle : queue.flushing = false) :
    (sections lock).atomic queue (.critical none checkBody) = queue.step .checkEmpty := by
  obtain ⟨node, hnode⟩ := h.head_node
  have hready : (sections lock).ready queue none checkBody = true := by
    simp [sections, ready, hidle]
  have hempty : queue.isEmpty = node.next.isNone := by
    rw [isEmpty, Heap.next, hnode]
    rfl
  rw [Program.atomic_ready hready, step, if_neg (by simp [hidle]), hempty]
  simp only [Program.perform, checkBody, sections, QueueMPSC.access, hnode, leave,
    List.foldlM_cons, List.foldlM_nil, Option.map_some, Option.bind_eq_bind, Option.bind_some,
    Option.pure_def]
  split
  · rfl
  · rfl

theorem atomic_take (h : queue.Intact flushed dummy nodes) (hflushing : queue.flushing = true) :
    (sections lock).atomic queue (.critical none takeBody) = queue.step .take := by
  obtain ⟨node, hnode⟩ := h.head_node
  have hready : (sections lock).ready queue none takeBody = true := by
    simp [sections, ready, hflushing]
  have hnonempty : ¬ queue.isEmpty = true := mt h.isEmpty_iff.mp (h.proceeds hflushing)
  have hbehind : node.next.isSome = true := by
    rw [isEmpty, Heap.next, hnode, Option.bind_some, Option.isNone_iff_eq_none] at hnonempty
    exact Option.isSome_iff_ne_none.mpr hnonempty
  rw [Program.atomic_ready hready, step, if_pos ⟨hflushing, hnonempty⟩]
  simp [Program.perform, takeBody, sections, QueueMPSC.access, hnode, hbehind, leave, cutOff,
    Heap.next]

/-- A section that is ready is made as in the queue whose sections are atomic. -/
theorem atomic_section (lock : SpinLock) (h : queue.Intact flushed dummy nodes) {thread : Option π}
    {body : Body (QueueRegisters ι) QueueAccess} (hready : queue.ready thread body = true) :
    (sections lock).atomic queue (.critical thread body) =
        queue.step (stepOf (.critical thread body)) ∧
      queue.step (stepOf (.critical thread body)) ≠ none := by
  cases thread with
  | some producer =>
    rw [ready, beq_iff_eq] at hready
    obtain ⟨⟨newNode, data⟩, hpushing, rfl⟩ := Option.map_eq_some_iff.mp hready
    refine ⟨atomic_push h hpushing, ?_⟩
    rw [stepOf, step, hpushing]
    exact Option.some_ne_none _
  | none =>
    rw [ready] at hready
    split at hready
    · rename_i hflushing
      obtain rfl := beq_iff_eq.mp hready
      refine ⟨atomic_take h hflushing, ?_⟩
      exact h.keeps.proceeds hflushing
    · rename_i hidle
      simp only [Bool.not_eq_true] at hidle
      simp only [Bool.or_eq_true, beq_iff_eq] at hready
      rcases hready with rfl | rfl
      · refine ⟨atomic_isEmpty h hidle, ?_⟩
        simp [stepOf, isEmptyBody, step, hidle]
      · refine ⟨atomic_checkEmpty h hidle, ?_⟩
        simp only [stepOf, checkBody, step, hidle]
        split
        · exact absurd ‹_› Bool.noConfusion
        · split
          · exact Option.some_ne_none _
          · exact Option.some_ne_none _

theorem step_of_atomic (h : queue.Intact flushed dummy nodes) {event : QueueEvent π ι T}
    (hatomic : (sections lock).atomic queue event = some next) :
    queue.step (stepOf event) = some next := by
  cases event with
  | critical thread body =>
    obtain ⟨hready, -⟩ := Option.ite_none_right_eq_some.mp hatomic
    rw [← (atomic_section _ h hready).1]
    exact hatomic
  | outside event => exact hatomic

/-- A run whose sections are atomic is one of the atomic queue. -/
theorem run_of_atomic {dummy : ι} {data : T} {events : List (QueueEvent π ι T)}
    (hrun : run (sections lock).atomic (construct dummy data) events = some queue) :
    run step (construct dummy data) (events.map stepOf) = some queue ∧
      ∃ flushed nodes, queue.Intact flushed data nodes := by
  refine run_induction (fun events queue =>
    run step (construct dummy data) (events.map stepOf) = some queue ∧
      ∃ flushed nodes, queue.Intact flushed data nodes) ?_ ?_ hrun
  · exact ⟨rfl, [], [], intact_construct dummy data⟩
  · rintro events queue event next - ⟨hrun, flushed, nodes, hintact⟩ hatomic
    have hstep := step_of_atomic hintact hatomic
    obtain ⟨more, nodes', hnext, -⟩ := hintact.step hstep
    refine ⟨?_, _, nodes', hnext⟩
    rw [List.map_append, List.map_singleton, run_snoc, hrun]
    exact hstep

/-- The queue of the sections that have ended: `locked` while no section is being made. -/
structure Linearized (s : Guarded (Option π) Nat (QueueRegisters ι) QueueAccess (QueueMPSC π ι T))
    (queue : QueueMPSC π ι T) : Prop where
  exclusive : s.Exclusive
  unlocked : s.flag = false → s.data = queue
  keeps : ∃ flushed nodes, queue.Keeps flushed nodes

/-- With any number of producers, one memory access at a time: one thread at most is in a section,
none is stuck there, and the sections that have ended make a run of the queue whose sections are
atomic, so that nothing is lost or duplicated. -/
theorem sections_linearize (lock : SpinLock) (dummy : ι) (data : T)
    (labels : List (Label (Option π) (QueueRegisters ι) QueueAccess (NewNode π ι T)))
    (s : Guarded (Option π) Nat (QueueRegisters ι) QueueAccess (QueueMPSC π ι T))
    (h : run (sections lock).step (.initial (construct dummy data)) labels = some s) :
    ∃ queue, run step (construct dummy data)
        ((Refinement.shown (sections lock).step Program.shows (.initial (construct dummy data))
          labels).map stepOf) = some queue ∧
      Linearized s queue ∧
      ∀ thread body access rest registers, s.place thread = .inside body (access :: rest) registers →
        (sections lock).step s (.access thread) ≠ none := by
  obtain ⟨queue, hatomic, hrelated⟩ :=
    Program.atomic_run (private_sections lock) (moves_sections lock) h
  obtain ⟨hrun, flushed, nodes, hintact⟩ := run_of_atomic hatomic
  refine ⟨queue, hrun, ⟨hrelated.exclusive, hrelated.free, flushed, nodes, hintact.keeps⟩, ?_⟩
  intro thread body access rest registers hplace
  refine hrelated.proceeds hplace ?_
  have hready : queue.ready thread body = true := hrelated.ready _ _ (by rw [hplace]; rfl)
  obtain ⟨hsame, henabled⟩ := atomic_section lock hintact hready
  rw [hsame]
  exact henabled

/-- A producer makes its node and turns at the lock while another one links, then the consumer
asks for data. -/
def spinningProducer :
    List (Label (Option Nat) (QueueRegisters Nat) QueueAccess (NewNode Nat Nat Nat)) :=
  [.outside ⟨0, 1, 7⟩, .lock (some 0) (pushBody 1), .turn (some 0), .access (some 0),
    .outside ⟨1, 2, 8⟩, .lock (some 1) (pushBody 2), .turn (some 1), .access (some 0),
    .unlock (some 0), .turn (some 1), .access (some 1), .access (some 1), .unlock (some 1),
    .lock none checkBody, .turn none, .access none]

theorem sections_linearize_spinningProducer :
    ∃ s, run (sections {}).step (.initial (construct 0 0)) spinningProducer = some s ∧
      ∃ queue, run step (construct 0 0)
          ((Refinement.shown (sections {}).step Program.shows (.initial (construct 0 0))
            spinningProducer).map stepOf) = some queue ∧
        Linearized s queue ∧
        ∀ thread body access rest registers,
          s.place thread = .inside body (access :: rest) registers →
          (sections {}).step s (.access thread) ≠ none := by
  obtain ⟨s, hs⟩ : ∃ s, run (sections {}).step (.initial (construct 0 0)) spinningProducer =
      some s := Option.isSome_iff_exists.mp (by decide +kernel)
  exact ⟨s, hs, sections_linearize {} 0 0 spinningProducer s hs⟩

end Sections

end QueueMPSC

end LiteExchange.Core
