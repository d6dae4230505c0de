import LiteExchange.Core.BoundedFifo

/-!
# The thread pool

Source: thread_pool.cpp over the rings of ring_buffer_spsc_lockfree.hpp. One thread calls
`submitTask`, each worker runs `workerThreadFunction` on its queue, and `shutdown` stores
`m_isShuttingDown` and joins the workers. All of them interleave at the loads and stores of
the rings and of the flag. A worker leaves its loop where it finds the flag set, whatever is
in its queue.
-/

namespace LiteExchange.Core

open Foundation.Runs

variable {τ : Type}

/-- Where a worker stands in its loop. -/
inductive PoolWorker (τ : Type) where
  | checking
  | popping
  | executing (task : τ)
  | waiting
  | exited

def PoolWorker.isPopping : PoolWorker τ → Bool
  | .popping => true
  | _ => false

def PoolWorker.isExited : PoolWorker τ → Bool
  | .exited => true
  | _ => false

/-- `submitting` is the call of `submitTask` that is not done. -/
structure ThreadPool (τ : Type) where
  threadCount : Nat
  threadQueues : Nat → RingBuffer Unit τ
  workers : Nat → PoolWorker τ := fun _ => .checking
  isShuttingDown : Bool := false
  submitting : Option (τ × Nat) := none
  /-- What each worker has executed. -/
  executed : Nat → List τ := fun _ => []

inductive ThreadPoolStep (τ : Type) where
  | submitTask (task : τ) (queueID : Nat)
  | push
  | work (queueIndex : Nat)
  | shutdown

/-- The next step of `push`, which repeats `tryPush` until it returns `true`. -/
def nextPush (ring : RingBuffer Unit τ) (task : τ) : RingStep Unit τ :=
  match ring.producers () with
  | .idle => .loadWrite () task
  | .loaded _ _ => .checkRead ()
  | .admitted _ _ => .writeSlot ()
  | .written _ _ => .storeWrite ()

/-- The next step of `tryPop`. -/
def nextPop (ring : RingBuffer Unit τ) : RingStep Unit τ :=
  match ring.consumer with
  | .idle => .loadRead
  | .loaded _ => .checkWrite
  | .admitted _ => .readSlot
  | .read _ _ => .storeRead

/-- The worker after a step of `tryPop`: with a task, without one, or still in the call. -/
def afterPop (before after : TryPop τ) : PoolWorker τ :=
  match before, after with
  | .read _ element, _ => .executing element
  | .loaded _, .idle => .waiting
  | _, _ => .popping

namespace ThreadPool

def initial (threadCount capacity : Nat) (positive : 0 < capacity) (buffer : Nat → τ) :
    ThreadPool τ where
  threadCount := threadCount
  threadQueues := fun _ => .initial capacity positive buffer

/-- `submitTask` throws for a queue that does not exist. -/
def submitTask (pool : ThreadPool τ) (task : τ) (queueID : Nat) : Option (ThreadPool τ) :=
  match pool.submitting with
  | some _ => none
  | none =>
    if queueID < pool.threadCount then some { pool with submitting := some (task, queueID) }
    else some pool

/-- A step of the submitter in `push`. -/
def push (pool : ThreadPool τ) : Option (ThreadPool τ) :=
  match pool.submitting with
  | none => none
  | some (task, queueID) =>
    let ring := pool.threadQueues queueID
    (ring.step (nextPush ring task)).map fun next =>
      { pool with
        threadQueues := Function.update pool.threadQueues queueID next
        submitting := if (ring.producers ()).isWritten then none else pool.submitting }

/-- A step of `workerThreadFunction`. -/
def work (pool : ThreadPool τ) (queueIndex : Nat) : Option (ThreadPool τ) :=
  if queueIndex < pool.threadCount then
    match pool.workers queueIndex with
    | .checking =>
      some { pool with
        workers := Function.update pool.workers queueIndex
          (if pool.isShuttingDown then .exited else .popping) }
    | .popping =>
      let ring := pool.threadQueues queueIndex
      (ring.step (nextPop ring)).map fun next =>
        { pool with
          threadQueues := Function.update pool.threadQueues queueIndex next
          workers := Function.update pool.workers queueIndex
            (afterPop ring.consumer next.consumer) }
    | .executing task =>
      some { pool with
        executed := Function.update pool.executed queueIndex (pool.executed queueIndex ++ [task])
        workers := Function.update pool.workers queueIndex .checking }
    | .waiting =>
      some { pool with workers := Function.update pool.workers queueIndex .checking }
    | .exited => none
  else none

def step (pool : ThreadPool τ) : ThreadPoolStep τ → Option (ThreadPool τ)
  | .submitTask task queueID => pool.submitTask task queueID
  | .push => pool.push
  | .work queueIndex => pool.work queueIndex
  | .shutdown =>
    if pool.isShuttingDown then none else some { pool with isShuttingDown := true }

/-- `shutdown` has returned: all workers are joined. -/
structure Returned (pool : ThreadPool τ) : Prop where
  called : pool.isShuttingDown = true
  joined : ∀ queueIndex < pool.threadCount, (pool.workers queueIndex).isExited = true

/-- The tasks whose calls of `submitTask` have returned. -/
def submitted (pool : ThreadPool τ) (queueID : Nat) : List τ := (pool.threadQueues queueID).values

/-- The tasks of the calls of a run for a queue. -/
def callsFor (labels : List (ThreadPoolStep τ)) (queueID : Nat) : List τ :=
  labels.filterMap fun
    | .submitTask task other => if other = queueID then some task else none
    | _ => none

/-! ## What a step does to one queue -/

/-- The step of a queue, of its worker, or of neither. -/
inductive Moves (pool next : ThreadPool τ) (q : Nat) : Prop
  | stays (ring : next.threadQueues q = pool.threadQueues q)
      (worker : next.workers q = pool.workers q) (executed : next.executed q = pool.executed q)
  | pushes (task : τ) (call : pool.submitting = some (task, q))
      (ring : (pool.threadQueues q).step (nextPush (pool.threadQueues q) task) =
        some (next.threadQueues q))
      (worker : next.workers q = pool.workers q) (executed : next.executed q = pool.executed q)
  | checks (at_check : pool.workers q = .checking)
      (ring : next.threadQueues q = pool.threadQueues q)
      (worker : next.workers q = if pool.isShuttingDown then .exited else .popping)
      (executed : next.executed q = pool.executed q)
  | pops (at_pop : pool.workers q = .popping)
      (ring : (pool.threadQueues q).step (nextPop (pool.threadQueues q)) =
        some (next.threadQueues q))
      (worker : next.workers q =
        afterPop (pool.threadQueues q).consumer (next.threadQueues q).consumer)
      (executed : next.executed q = pool.executed q)
  | executes (task : τ) (at_task : pool.workers q = .executing task)
      (ring : next.threadQueues q = pool.threadQueues q) (worker : next.workers q = .checking)
      (executed : next.executed q = pool.executed q ++ [task])
  | waits (at_wait : pool.workers q = .waiting)
      (ring : next.threadQueues q = pool.threadQueues q) (worker : next.workers q = .checking)
      (executed : next.executed q = pool.executed q)

variable {pool next : ThreadPool τ} {label : ThreadPoolStep τ}

theorem submitTask_frame {task : τ} {queueID : Nat}
    (h : pool.submitTask task queueID = some next) :
    next = pool ∧ pool.threadCount ≤ queueID ∨
      pool.submitting = none ∧ queueID < pool.threadCount ∧
        next = { pool with submitting := some (task, queueID) } := by
  unfold submitTask at h
  split at h
  · cases h
  · rename_i hidle
    split at h
    · rename_i hvalid
      cases h
      exact Or.inr ⟨hidle, hvalid, rfl⟩
    · rename_i hinvalid
      cases h
      exact Or.inl ⟨rfl, Nat.le_of_not_lt hinvalid⟩

theorem push_moves (h : pool.push = some next) (q : Nat) : Moves pool next q := by
  unfold push at h
  split at h
  · cases h
  · rename_i task queueID hcall
    obtain ⟨ring, hring, rfl⟩ := Option.map_eq_some_iff.mp h
    by_cases hq : q = queueID
    · subst hq
      exact .pushes task hcall (by simpa using hring) rfl rfl
    · exact .stays (Function.update_of_ne hq ..) rfl rfl

theorem work_moves {queueIndex : Nat} (h : pool.work queueIndex = some next) (q : Nat) :
    Moves pool next q := by
  unfold work at h
  split at h
  · by_cases hq : q = queueIndex
    · subst hq
      split at h
      · rename_i hworker
        cases h
        exact .checks hworker rfl (Function.update_self ..) rfl
      · rename_i hworker
        obtain ⟨ring, hring, rfl⟩ := Option.map_eq_some_iff.mp h
        exact .pops hworker (by simpa using hring) (by simp) rfl
      · rename_i task hworker
        cases h
        exact .executes task hworker rfl (Function.update_self ..) (Function.update_self ..)
      · rename_i hworker
        cases h
        exact .waits hworker rfl (Function.update_self ..) rfl
      · cases h
    · split at h
      · cases h
        exact .stays rfl (Function.update_of_ne hq ..) rfl
      · obtain ⟨ring, hring, rfl⟩ := Option.map_eq_some_iff.mp h
        exact .stays (Function.update_of_ne hq ..) (Function.update_of_ne hq ..) rfl
      · cases h
        exact .stays rfl (Function.update_of_ne hq ..) (Function.update_of_ne hq ..)
      · cases h
        exact .stays rfl (Function.update_of_ne hq ..) rfl
      · cases h
  · cases h

theorem step_moves (hstep : pool.step label = some next) (q : Nat) : Moves pool next q := by
  cases label with
  | submitTask task queueID =>
    rcases submitTask_frame hstep with ⟨rfl, -⟩ | ⟨-, -, rfl⟩
    · exact .stays rfl rfl rfl
    · exact .stays rfl rfl rfl
  | push => exact push_moves hstep q
  | work queueIndex => exact work_moves hstep q
  | shutdown =>
    simp only [step] at hstep
    split at hstep
    · cases hstep
    · cases hstep
      exact .stays rfl rfl rfl

/-- The flag is never cleared, and no queue comes or goes. -/
theorem step_flag (hstep : pool.step label = some next) :
    next.threadCount = pool.threadCount ∧
      (pool.isShuttingDown = true → next.isShuttingDown = true) := by
  cases label with
  | submitTask task queueID =>
    rcases submitTask_frame hstep with ⟨rfl, -⟩ | ⟨-, -, rfl⟩
    · exact ⟨rfl, id⟩
    · exact ⟨rfl, id⟩
  | push =>
    simp only [step, push] at hstep
    split at hstep
    · cases hstep
    · obtain ⟨ring, -, rfl⟩ := Option.map_eq_some_iff.mp hstep
      exact ⟨rfl, id⟩
  | work queueIndex =>
    simp only [step, work] at hstep
    split at hstep
    · split at hstep
      · cases hstep
        exact ⟨rfl, id⟩
      · obtain ⟨ring, -, rfl⟩ := Option.map_eq_some_iff.mp hstep
        exact ⟨rfl, id⟩
      · cases hstep
        exact ⟨rfl, id⟩
      · cases hstep
        exact ⟨rfl, id⟩
      · cases hstep
    · cases hstep
  | shutdown =>
    simp only [step] at hstep
    split at hstep
    · cases hstep
    · cases hstep
      exact ⟨rfl, fun _ => rfl⟩

/-! ## The steps of a ring -/

theorem push_frame {ring after : RingBuffer Unit τ} {task : τ}
    (h : ring.step (nextPush ring task) = some after) :
    after.popped = ring.popped ∧ after.consumer = ring.consumer := by
  unfold nextPush at h
  split at h
  · cases RingBuffer.step_moves h with
    | loadWrite val call => exact ⟨rfl, rfl⟩
  · cases RingBuffer.step_moves h with
    | granted call room => exact ⟨rfl, rfl⟩
    | refuse call full => exact ⟨rfl, rfl⟩
  · cases RingBuffer.step_moves h with
    | writeSlot call => exact ⟨rfl, rfl⟩
  · cases RingBuffer.step_moves h with
    | storeWrite call => exact ⟨rfl, rfl⟩

theorem nextPush_storeWrite {ring : RingBuffer Unit τ} {task : τ} :
    (ring.producers ()).isWritten = true ↔ nextPush ring task = .storeWrite () := by
  unfold nextPush
  cases ring.producers () with
  | idle => simp [TryPush.isWritten]
  | loaded val tail => simp [TryPush.isWritten]
  | admitted val tail => simp [TryPush.isWritten]
  | written val tail => simp [TryPush.isWritten]

/-- A step of `push`: it puts its task and ends, or it goes on with the task. -/
theorem push_cases {ring after : RingBuffer Unit τ} {task : τ}
    (h : ring.step (nextPush ring task) = some after)
    (call : ∀ val, (ring.producers ()).val = some val → val = task) :
    (ring.producers ()).isWritten = true ∧ after.values = ring.values ++ [task] ∧
        after.producers () = .idle ∨
      (ring.producers ()).isWritten = false ∧ after.values = ring.values ∧
        ∀ val, (after.producers ()).val = some val → val = task := by
  rcases RingBuffer.step_pushes h with ⟨p, val, hlabel, hval, hpushed, hidle⟩ | ⟨hlabel, hpushed⟩
  · refine Or.inl ⟨nextPush_storeWrite.mpr hlabel, ?_, hidle⟩
    rw [RingBuffer.values, hpushed, List.map_append, ← call val hval]
    rfl
  · refine Or.inr ⟨?_, by rw [RingBuffer.values, hpushed]; rfl, fun val hval => ?_⟩
    · exact Bool.eq_false_of_not_eq_true fun hwritten =>
        hlabel () (nextPush_storeWrite.mp hwritten)
    · rcases RingBuffer.step_val h hval with hold | hload
      · exact call val hold
      · unfold nextPush at hload
        split at hload
        · cases hload
          rfl
        · cases hload
        · cases hload
        · cases hload

/-- A step of `tryPop`: it returns an element, it finds the ring empty, or it goes on. -/
inductive Pops (ring after : RingBuffer Unit τ) : Prop
  | popped (element : τ) (worker : afterPop ring.consumer after.consumer = .executing element)
      (popped : after.popped = ring.popped ++ [element]) (consumer : after.consumer = .idle)
  | empty (worker : afterPop ring.consumer after.consumer = .waiting)
      (popped : after.popped = ring.popped) (consumer : after.consumer = .idle)
      (head : ring.consumer = .loaded ring.write)
  | going (worker : afterPop ring.consumer after.consumer = .popping)
      (popped : after.popped = ring.popped)

theorem pop_cases {ring after : RingBuffer Unit τ} (h : ring.step (nextPop ring) = some after) :
    after.pushed = ring.pushed ∧ after.producers = ring.producers ∧ Pops ring after := by
  unfold nextPop at h
  split at h
  · rename_i hcall
    cases RingBuffer.step_moves h with
    | loadRead call => exact ⟨rfl, rfl, .going (by rw [hcall]; rfl) rfl⟩
  · rename_i head hcall
    cases RingBuffer.step_moves h with
    | found call differs => exact ⟨rfl, rfl, .going (by rw [hcall]; rfl) rfl⟩
    | foundEmpty call same =>
      refine ⟨rfl, rfl, .empty (by rw [hcall]; rfl) rfl rfl ?_⟩
      rw [call, same]
  · rename_i head hcall
    cases RingBuffer.step_moves h with
    | readSlot call => exact ⟨rfl, rfl, .going (by rw [hcall]; rfl) rfl⟩
  · rename_i head element hcall
    cases RingBuffer.step_moves h with
    | storeRead call =>
      rw [hcall] at call
      cases call
      exact ⟨rfl, rfl, .popped element (by rw [hcall]; rfl) rfl rfl⟩

/-! ## What a worker executes -/

/-- The task that a worker has popped and not yet executed. -/
def inHand (worker : PoolWorker τ) : List τ :=
  match worker with
  | .executing task => [task]
  | _ => []

/-- The ring is sound, and what was popped was executed, up to the task in hand. -/
structure QueueSound (pool : ThreadPool τ) (q : Nat) : Prop where
  sound : (pool.threadQueues q).Sound
  current : (pool.threadQueues q).Current
  executed : (pool.threadQueues q).popped = pool.executed q ++ inHand (pool.workers q)
  outside : (pool.workers q).isPopping = false → (pool.threadQueues q).consumer = .idle

theorem step_ring (hstep : pool.step label = some next) (q : Nat) :
    next.threadQueues q = pool.threadQueues q ∨
      ∃ ringLabel, (pool.threadQueues q).step ringLabel = some (next.threadQueues q) := by
  cases step_moves hstep q with
  | stays ring worker executed => exact Or.inl ring
  | pushes task call ring worker executed => exact Or.inr ⟨_, ring⟩
  | checks at_check ring worker executed => exact Or.inl ring
  | pops at_pop ring worker executed => exact Or.inr ⟨_, ring⟩
  | executes task at_task ring worker executed => exact Or.inl ring
  | waits at_wait ring worker executed => exact Or.inl ring

theorem step_pushed (hstep : pool.step label = some next) (q : Nat) :
    (pool.threadQueues q).pushed.length ≤ (next.threadQueues q).pushed.length := by
  rcases step_ring hstep q with hsame | ⟨ringLabel, hring⟩
  · rw [hsame]
  · exact RingBuffer.step_pushed hring

theorem QueueSound.step_executed {q : Nat} (h : pool.QueueSound q)
    (hstep : pool.step label = some next) :
    (next.threadQueues q).popped = next.executed q ++ inHand (next.workers q) := by
  have hexecuted := h.executed
  cases step_moves hstep q with
  | stays ring worker executed => rw [ring, worker, executed, hexecuted]
  | pushes task call ring worker executed =>
    rw [(push_frame ring).1, worker, executed, hexecuted]
  | checks at_check ring worker executed =>
    rw [at_check] at hexecuted
    rw [ring, worker, executed, hexecuted]
    split
    · rfl
    · rfl
  | pops at_pop ring worker executed =>
    rw [at_pop] at hexecuted
    rw [worker, executed]
    cases (pop_cases ring).2.2 with
    | popped element worker popped consumer =>
      rw [worker, popped, hexecuted]
      exact congrArg (· ++ [element]) (List.append_nil _)
    | empty worker popped consumer head => rw [worker, popped, hexecuted]; rfl
    | going worker popped => rw [worker, popped, hexecuted]
  | executes task at_task ring worker executed =>
    rw [at_task] at hexecuted
    rw [ring, worker, executed, hexecuted]
    exact (List.append_nil _).symm
  | waits at_wait ring worker executed =>
    rw [at_wait] at hexecuted
    rw [ring, worker, executed, hexecuted]
    rfl

theorem QueueSound.step_outside {q : Nat} (h : pool.QueueSound q)
    (hstep : pool.step label = some next) (hworker : (next.workers q).isPopping = false) :
    (next.threadQueues q).consumer = .idle := by
  have houtside := h.outside
  cases step_moves hstep q with
  | stays ring worker executed =>
    rw [worker] at hworker
    rw [ring]
    exact houtside hworker
  | pushes task call ring worker executed =>
    rw [worker] at hworker
    rw [(push_frame ring).2]
    exact houtside hworker
  | checks at_check ring worker executed =>
    rw [ring]
    exact houtside (by rw [at_check]; rfl)
  | pops at_pop ring worker executed =>
    rw [worker] at hworker
    cases (pop_cases ring).2.2 with
    | popped element worker popped consumer => exact consumer
    | empty worker popped consumer head => exact consumer
    | going worker popped =>
      rw [worker] at hworker
      cases hworker
  | executes task at_task ring worker executed =>
    rw [ring]
    exact houtside (by rw [at_task]; rfl)
  | waits at_wait ring worker executed =>
    rw [ring]
    exact houtside (by rw [at_wait]; rfl)

theorem QueueSound.step {q : Nat} (h : pool.QueueSound q) (hstep : pool.step label = some next)
    (few : (next.threadQueues q).pushed.length < 2 ^ 31) : next.QueueSound q := by
  have hring : (next.threadQueues q).Sound ∧ (next.threadQueues q).Current := by
    rcases step_ring hstep q with hsame | ⟨ringLabel, hring⟩
    · rw [hsame]
      exact ⟨h.sound, h.current⟩
    · exact ⟨h.sound.step (h.current.exclusive h.sound hring few) hring, h.current.step hring⟩
  exact ⟨hring.1, hring.2, h.step_executed hstep, h.step_outside hstep⟩

/-! ## What is submitted -/

/-- The task of the call of `submitTask` that is not done. -/
def pending (pool : ThreadPool τ) (q : Nat) : List τ :=
  match pool.submitting with
  | some (task, queueID) => if queueID = q then [task] else []
  | none => []

theorem pending_own {task : τ} {q : Nat} (h : pool.submitting = some (task, q)) :
    pool.pending q = [task] := by
  unfold pending
  rw [h]
  exact if_pos rfl

theorem pending_other {task : τ} {q queueID : Nat} (h : pool.submitting = some (task, queueID))
    (hq : q ≠ queueID) : pool.pending q = [] := by
  unfold pending
  rw [h]
  exact if_neg (Ne.symm hq)

theorem pending_none {q : Nat} (h : pool.submitting = none) : pool.pending q = [] := by
  unfold pending
  rw [h]

/-- The calls for a queue have put their tasks into its ring, but for the last one. -/
structure Records (labels : List (ThreadPoolStep τ)) (pool : ThreadPool τ) (q : Nat) : Prop where
  calls : pool.submitted q ++ pool.pending q = callsFor labels q
  pushing : ∀ val, ((pool.threadQueues q).producers ()).val = some val →
    pool.submitting = some (val, q)

theorem Records.submitTask {labels : List (ThreadPoolStep τ)} {q : Nat}
    (h : Records labels pool q) (hq : q < pool.threadCount) {task : τ} {queueID : Nat}
    (hstep : pool.submitTask task queueID = some next) :
    Records (labels ++ [.submitTask task queueID]) next q := by
  have hcalls : callsFor (labels ++ [.submitTask task queueID]) q =
      callsFor labels q ++ if queueID = q then [task] else [] := by
    unfold callsFor
    rw [List.filterMap_append]
    congr 1
    by_cases hsame : queueID = q
    · simp [hsame]
    · simp [hsame]
  rcases submitTask_frame hstep with ⟨rfl, hinvalid⟩ | ⟨hidle, -, rfl⟩
  · have hother : queueID ≠ q := by omega
    rw [if_neg hother, List.append_nil] at hcalls
    exact ⟨hcalls ▸ h.calls, h.pushing⟩
  · refine ⟨?_, fun val hval => ?_⟩
    · have hbefore := h.calls
      unfold pending at hbefore ⊢
      rw [hidle, List.append_nil] at hbefore
      rw [hcalls, ← hbefore]
      rfl
    · rw [h.pushing val hval] at hidle
      cases hidle

theorem callsFor_other {labels : List (ThreadPoolStep τ)} {q : Nat}
    (h : ∀ task queueID, label ≠ .submitTask task queueID) :
    callsFor (labels ++ [label]) q = callsFor labels q := by
  unfold callsFor
  rw [List.filterMap_append]
  cases label with
  | submitTask task queueID => exact absurd rfl (h task queueID)
  | push => exact List.append_nil _
  | work queueIndex => exact List.append_nil _
  | shutdown => exact List.append_nil _

/-- A step that neither submits nor pushes changes nothing here. -/
theorem Records.congr {labels : List (ThreadPoolStep τ)} {q : Nat} (h : Records labels pool q)
    (hlabel : ∀ task queueID, label ≠ .submitTask task queueID)
    (hpushed : (next.threadQueues q).pushed = (pool.threadQueues q).pushed)
    (hproducers : (next.threadQueues q).producers = (pool.threadQueues q).producers)
    (hsubmitting : next.submitting = pool.submitting) : Records (labels ++ [label]) next q := by
  refine ⟨?_, fun val hval => ?_⟩
  · have hbefore := h.calls
    unfold submitted RingBuffer.values pending at hbefore ⊢
    rw [callsFor_other hlabel, hpushed, hsubmitting, hbefore]
  · rw [hsubmitting]
    rw [hproducers] at hval
    exact h.pushing val hval

/-- A step of `push` for the queue stores the task, or has not stored it yet. -/
theorem Records.push_own {labels : List (ThreadPoolStep τ)} {q : Nat} (h : Records labels pool q)
    {task : τ} (hcall : pool.submitting = some (task, q)) {ring : RingBuffer Unit τ}
    (hring : (pool.threadQueues q).step (nextPush (pool.threadQueues q) task) = some ring)
    (hnext : next.threadQueues q = ring)
    (hsubmitting : next.submitting =
      if ((pool.threadQueues q).producers ()).isWritten then none else pool.submitting) :
    next.submitted q ++ next.pending q = callsFor labels q ∧
      ∀ val, ((next.threadQueues q).producers ()).val = some val →
        next.submitting = some (val, q) := by
  have hval : ∀ val, ((pool.threadQueues q).producers ()).val = some val → val = task := by
    intro val hval
    have hsame := h.pushing val hval
    rw [hcall] at hsame
    cases hsame
    rfl
  have hbefore := h.calls
  rw [pending_own hcall] at hbefore
  rcases push_cases hring hval with ⟨hwritten, hvalues, hidle⟩ | ⟨hwritten, hvalues, hgoes⟩
  · rw [hwritten, if_pos rfl] at hsubmitting
    refine ⟨?_, fun val hafter => ?_⟩
    · rw [pending_none hsubmitting, List.append_nil, submitted, hnext, hvalues]
      exact hbefore
    · rw [hnext, hidle] at hafter
      cases hafter
  · rw [hwritten, if_neg Bool.false_ne_true, hcall] at hsubmitting
    refine ⟨?_, fun val hafter => ?_⟩
    · rw [pending_own hsubmitting, submitted, hnext, hvalues]
      exact hbefore
    · rw [hnext] at hafter
      rw [hsubmitting, hgoes val hafter]

theorem Records.push {labels : List (ThreadPoolStep τ)} {q : Nat} (h : Records labels pool q)
    (hstep : pool.push = some next) : Records (labels ++ [.push]) next q := by
  have hlabel : ∀ task queueID, (.push : ThreadPoolStep τ) ≠ .submitTask task queueID := by
    intro task queueID heq
    cases heq
  unfold ThreadPool.push at hstep
  split at hstep
  · cases hstep
  · rename_i task queueID hcall
    obtain ⟨ring, hring, hnext⟩ := Option.map_eq_some_iff.mp hstep
    have hqueues : next.threadQueues = Function.update pool.threadQueues queueID ring := by
      rw [← hnext]
    have hsubmitting : next.submitting =
        if ((pool.threadQueues queueID).producers ()).isWritten then none
        else pool.submitting := by
      rw [← hnext]
    by_cases hq : q = queueID
    · subst hq
      obtain ⟨hcalls, hpushing⟩ := h.push_own hcall hring
        (by rw [hqueues, Function.update_self]) hsubmitting
      exact ⟨hcalls.trans (callsFor_other hlabel).symm, hpushing⟩
    · -- The task of another queue is pushed, so this queue has no call that is not done.
      have hidle : ((pool.threadQueues q).producers ()).val = none := by
        cases hval : ((pool.threadQueues q).producers ()).val with
        | none => rfl
        | some val =>
          have hsame := h.pushing val hval
          rw [hcall] at hsame
          cases hsame
          exact absurd rfl hq
      have hring' : next.threadQueues q = pool.threadQueues q := by
        rw [hqueues, Function.update_of_ne hq]
      have hpending : next.pending q = [] := by
        cases hwritten : ((pool.threadQueues queueID).producers ()).isWritten with
        | true =>
          rw [hwritten, if_pos rfl] at hsubmitting
          exact pending_none hsubmitting
        | false =>
          rw [hwritten, if_neg Bool.false_ne_true, hcall] at hsubmitting
          exact pending_other hsubmitting hq
      have hbefore := h.calls
      rw [pending_other hcall hq] at hbefore
      refine ⟨?_, fun val hafter => ?_⟩
      · rw [callsFor_other hlabel, ← hbefore, hpending, submitted, hring']
        rfl
      · rw [hring', hidle] at hafter
        cases hafter

theorem work_submitting {queueIndex : Nat} (h : pool.work queueIndex = some next) :
    next.submitting = pool.submitting := by
  unfold work at h
  split at h
  · split at h
    · cases h
      rfl
    · obtain ⟨ring, -, rfl⟩ := Option.map_eq_some_iff.mp h
      rfl
    · cases h
      rfl
    · cases h
      rfl
    · cases h
  · cases h

theorem work_pushed {queueIndex : Nat} (h : pool.work queueIndex = some next) (q : Nat) :
    (next.threadQueues q).pushed = (pool.threadQueues q).pushed ∧
      (next.threadQueues q).producers = (pool.threadQueues q).producers := by
  unfold work at h
  split at h
  · split at h
    · cases h
      exact ⟨rfl, rfl⟩
    · obtain ⟨ring, hring, rfl⟩ := Option.map_eq_some_iff.mp h
      obtain ⟨hpushed, hproducers, -⟩ := pop_cases hring
      by_cases hq : q = queueIndex
      · subst hq
        dsimp only
        rw [Function.update_self]
        exact ⟨hpushed, hproducers⟩
      · dsimp only
        rw [Function.update_of_ne hq]
        exact ⟨rfl, rfl⟩
    · cases h
      exact ⟨rfl, rfl⟩
    · cases h
      exact ⟨rfl, rfl⟩
    · cases h
  · cases h

theorem Records.step {labels : List (ThreadPoolStep τ)} {q : Nat} (h : Records labels pool q)
    (hq : q < pool.threadCount) (hstep : pool.step label = some next) :
    Records (labels ++ [label]) next q := by
  cases label with
  | submitTask task queueID => exact h.submitTask hq hstep
  | push => exact h.push hstep
  | work queueIndex =>
    have hlabel : ∀ task queueID, (.work queueIndex : ThreadPoolStep τ) ≠ .submitTask task queueID :=
      by
        intro task queueID heq
        cases heq
    obtain ⟨hpushed, hproducers⟩ := work_pushed hstep q
    exact h.congr hlabel hpushed hproducers (work_submitting hstep)
  | shutdown =>
    simp only [ThreadPool.step] at hstep
    split at hstep
    · cases hstep
    · cases hstep
      exact h.congr (by intro task queueID heq; cases heq) rfl rfl rfl

/-! ## After the call of `shutdown` -/

/-- At most the task that its worker is about to pop is in the queue. -/
def Drained (pool : ThreadPool τ) (q : Nat) : Prop :=
  (pool.threadQueues q).pushed.length ≤ (pool.threadQueues q).popped.length +
    if (pool.workers q).isPopping then 1 else 0

instance (pool : ThreadPool τ) (q : Nat) : Decidable (pool.Drained q) :=
  inferInstanceAs (Decidable (_ ≤ _))

/-- A worker ends the call of `tryPop` in which `shutdown` finds it, and starts no other one. -/
structure Late (before pool : ThreadPool τ) (q : Nat) : Prop where
  pushed : (before.threadQueues q).pushed.length ≤ (pool.threadQueues q).pushed.length
  outside : (before.workers q).isPopping = false → (pool.workers q).isPopping = false ∧
    (pool.threadQueues q).popped.length = (before.threadQueues q).popped.length
  inside : (before.workers q).isPopping = true →
    (pool.workers q).isPopping = true ∧
        (pool.threadQueues q).popped.length = (before.threadQueues q).popped.length ∨
      (pool.workers q).isPopping = false ∧
        ((pool.threadQueues q).popped.length = (before.threadQueues q).popped.length + 1 ∨
          (pool.threadQueues q).popped.length = (before.threadQueues q).popped.length ∧
            (before.threadQueues q).pushed.length ≤ (before.threadQueues q).popped.length)

theorem Late.refl (before : ThreadPool τ) (q : Nat) : Late before before q :=
  ⟨Nat.le_refl _, fun hworker => ⟨hworker, rfl⟩, fun hworker => Or.inl ⟨hworker, rfl⟩⟩

/-- A step after which the worker is as far in its loop and the pops are the same. -/
theorem Late.congr {before : ThreadPool τ} {q : Nat} (h : Late before pool q)
    (hpushed : (pool.threadQueues q).pushed.length ≤ (next.threadQueues q).pushed.length)
    (hworker : (next.workers q).isPopping = (pool.workers q).isPopping)
    (hpopped : (next.threadQueues q).popped = (pool.threadQueues q).popped) :
    Late before next q := by
  refine ⟨Nat.le_trans h.pushed hpushed, ?_, ?_⟩
  · rw [hworker, hpopped]
    exact h.outside
  · rw [hworker, hpopped]
    exact h.inside

theorem Late.step {before : ThreadPool τ} {q : Nat} (h : Late before pool q)
    (flag : pool.isShuttingDown = true) (sound : pool.QueueSound q)
    (hstep : pool.step label = some next) : Late before next q := by
  have hpushed := step_pushed hstep q
  cases step_moves hstep q with
  | stays ring worker executed => exact h.congr hpushed (by rw [worker]) (by rw [ring])
  | pushes task call ring worker executed =>
    exact h.congr hpushed (by rw [worker]) (push_frame ring).1
  | checks at_check ring worker executed =>
    exact h.congr hpushed (by rw [worker, flag, at_check]; rfl) (by rw [ring])
  | executes task at_task ring worker executed =>
    exact h.congr hpushed (by rw [worker, at_task]; rfl) (by rw [ring])
  | waits at_wait ring worker executed =>
    exact h.congr hpushed (by rw [worker, at_wait]; rfl) (by rw [ring])
  | pops at_pop ring worker executed =>
    have hpopping : (pool.workers q).isPopping = true := by rw [at_pop]; rfl
    have hbefore : (before.workers q).isPopping = true := by
      by_contra hoff
      rw [(h.outside (Bool.eq_false_of_not_eq_true hoff)).1] at hpopping
      cases hpopping
    have hsame : (pool.threadQueues q).popped.length = (before.threadQueues q).popped.length := by
      rcases h.inside hbefore with ⟨-, hsame⟩ | ⟨hleft, -⟩
      · exact hsame
      · rw [hleft] at hpopping
        cases hpopping
    cases (pop_cases ring).2.2 with
    | popped element worker' popped consumer =>
      refine ⟨Nat.le_trans h.pushed hpushed, fun hoff => ?_, fun _ => Or.inr ⟨?_, Or.inl ?_⟩⟩
      · rw [hoff] at hbefore
        cases hbefore
      · rw [worker, worker']
        rfl
      · rw [popped, List.length_append, List.length_singleton, hsame]
    | empty worker' popped consumer head =>
      -- The ring was empty, so nothing was in it before either.
      have hempty : (pool.threadQueues q).pushed.length = (pool.threadQueues q).popped.length := by
        have hhead := sound.sound.popping
        rw [head] at hhead
        have hpop : (pool.threadQueues q).write = (pool.threadQueues q).popped.length := hhead
        have hpush := sound.sound.write
        omega
      have hfew := h.pushed
      refine ⟨Nat.le_trans h.pushed hpushed, fun hoff => ?_,
        fun _ => Or.inr ⟨?_, Or.inr ⟨?_, by omega⟩⟩⟩
      · rw [hoff] at hbefore
        cases hbefore
      · rw [worker, worker']
        rfl
      · rw [popped, hsame]
    | going worker' popped =>
      exact h.congr hpushed (by rw [worker, worker', at_pop]) popped

/-- Where the workers are joined, the tasks in the queue at the call were executed if and only
if the queue was drained. -/
theorem Late.executed_iff {before : ThreadPool τ} {q : Nat} (h : Late before pool q)
    (sound : pool.QueueSound q) (prefixed : before.submitted q <+: pool.submitted q)
    (exited : (pool.workers q).isExited = true) :
    before.submitted q <+: pool.executed q ↔ before.Drained q := by
  have hworker : pool.workers q = .exited := by
    cases hworker : pool.workers q with
    | exited => rfl
    | _ =>
      rw [hworker] at exited
      cases exited
  have hexecuted := sound.executed
  rw [hworker] at hexecuted
  have hpopped : (pool.threadQueues q).popped = pool.executed q :=
    hexecuted.trans (List.append_nil _)
  have hfifo := sound.sound.fifo
  rw [hpopped] at hfifo
  have hlength : before.submitted q <+: pool.executed q ↔
      (before.threadQueues q).pushed.length ≤ (pool.threadQueues q).popped.length := by
    rw [hpopped, ← RingBuffer.values_length]
    exact ⟨List.IsPrefix.length_le, fun hle => List.prefix_of_prefix_length_le prefixed hfifo hle⟩
  rw [hlength, Drained]
  cases hpopping : (before.workers q).isPopping with
  | false =>
    rw [(h.outside hpopping).2]
    simp
  | true =>
    have hinside := h.inside hpopping
    rw [hworker] at hinside
    simp only [if_true]
    rcases hinside with ⟨hpopping, -⟩ | ⟨-, hmore | ⟨hsame, hnone⟩⟩
    · cases hpopping
    · omega
    · omega

/-! ## Whole runs -/

theorem step_submitted (hstep : pool.step label = some next) (q : Nat) :
    pool.submitted q <+: next.submitted q := by
  unfold submitted RingBuffer.values
  rcases step_ring hstep q with hsame | ⟨ringLabel, hring⟩
  · exact hsame ▸ List.prefix_refl _
  · rcases RingBuffer.step_pushes hring with ⟨p, val, -, -, hpushed, -⟩ | ⟨-, hpushed⟩
    · rw [hpushed, List.map_append]
      exact List.prefix_append _ _
    · exact hpushed ▸ List.prefix_refl _

theorem run_submitted {labels : List (ThreadPoolStep τ)} (hrun : run step pool labels = some next)
    (q : Nat) : pool.submitted q <+: next.submitted q :=
  run_invariant (fun later => pool.submitted q <+: later.submitted q) (List.prefix_refl _)
    (fun _ _ _ hbefore hstep => hbefore.trans (step_submitted hstep q)) hrun

theorem initial_queueSound (threadCount capacity : Nat) (positive : 0 < capacity)
    (buffer : Nat → τ) (q : Nat) :
    (initial threadCount capacity positive buffer).QueueSound q where
  sound := RingBuffer.initial_sound capacity positive buffer
  current := fun tail htail => by cases htail
  executed := rfl
  outside := fun _ => rfl

/-- In every run that keeps the indexes of a ring in an `int`, its queue is sound. -/
theorem run_queueSound {threadCount capacity : Nat} {positive : 0 < capacity} {buffer : Nat → τ}
    {labels : List (ThreadPoolStep τ)} {q : Nat}
    (hrun : run step (initial threadCount capacity positive buffer) labels = some pool)
    (few : (pool.threadQueues q).pushed.length < 2 ^ 31) : pool.QueueSound q :=
  run_induction
    (fun _ (s : ThreadPool τ) => (s.threadQueues q).pushed.length < 2 ^ 31 → s.QueueSound q)
    (fun _ => initial_queueSound threadCount capacity positive buffer q)
    (fun _ _ _ _ _ hbefore hstep hfew =>
      (hbefore (Nat.lt_of_le_of_lt (step_pushed hstep q) hfew)).step hstep hfew) hrun few

theorem run_records {threadCount capacity : Nat} {positive : 0 < capacity} {buffer : Nat → τ}
    {labels : List (ThreadPoolStep τ)} {q : Nat}
    (hrun : run step (initial threadCount capacity positive buffer) labels = some pool)
    (hq : q < threadCount) : Records labels pool q := by
  have hboth : pool.threadCount = threadCount ∧ Records labels pool q := by
    refine run_induction (fun labels s => s.threadCount = threadCount ∧ Records labels s q)
      ⟨rfl, rfl, fun val hval => by cases hval⟩ ?_ hrun
    rintro labels before label after - ⟨hcount, hrecords⟩ hstep
    exact ⟨(step_flag hstep).1.trans hcount, hrecords.step (hcount ▸ hq) hstep⟩
  exact hboth.2

/-- From the call of `shutdown` on. -/
theorem run_late {threadCount capacity : Nat} {positive : 0 < capacity} {buffer : Nat → τ}
    {front back : List (ThreadPoolStep τ)} {before : ThreadPool τ} {q : Nat}
    (hfront : run step (initial threadCount capacity positive buffer) front = some before)
    (hback : run step before (.shutdown :: back) = some pool)
    (few : (pool.threadQueues q).pushed.length < 2 ^ 31) : Late before pool q := by
  obtain ⟨called, hcall, hrest⟩ := Option.bind_eq_some_iff.mp hback
  have hcalled : called = { before with isShuttingDown := true } := by
    simp only [step] at hcall
    split at hcall
    · cases hcall
    · exact (Option.some.inj hcall).symm
  have hprefix : run step (initial threadCount capacity positive buffer)
      (front ++ [.shutdown]) = some called := by
    rw [run_snoc, hfront]
    exact hcall
  have hlate : Late before called q := by
    rw [hcalled]
    exact (Late.refl before q).congr (Nat.le_refl _) rfl rfl
  have hflag : called.isShuttingDown = true := by rw [hcalled]
  refine (run_induction (fun labels (s : ThreadPool τ) =>
    (s.threadQueues q).pushed.length < 2 ^ 31 → s.isShuttingDown = true ∧ Late before s q)
    (fun _ => ⟨hflag, hlate⟩) ?_ hrest few).2
  intro labels s label after hs hbefore hstep hfew
  have hsfew := Nat.lt_of_le_of_lt (step_pushed hstep q) hfew
  obtain ⟨hsflag, hslate⟩ := hbefore hsfew
  have hrun : run step (initial threadCount capacity positive buffer)
      ((front ++ [.shutdown]) ++ labels) = some s := by
    rw [run_append, hprefix]
    exact hs
  exact ⟨(step_flag hstep).2 hsflag, hslate.step hsflag (run_queueSound hrun hsfew) hstep⟩

end ThreadPool

open ThreadPool in
/-- In every run a worker executes a prefix of the tasks of the calls for its queue, in order.
Where `shutdown` has returned, all tasks that were submitted before it was called were executed
if and only if every queue was drained when it was called. -/
theorem tasks_executed_iff (threadCount capacity : Nat) (positive : 0 < capacity)
    (buffer : Nat → τ) (labels : List (ThreadPoolStep τ)) (pool : ThreadPool τ)
    (hrun : run ThreadPool.step (initial threadCount capacity positive buffer) labels = some pool)
    (few : ∀ q < threadCount, (pool.threadQueues q).pushed.length < 2 ^ 31) :
    (∀ q < threadCount, pool.executed q <+: pool.submitted q ∧
        pool.submitted q <+: callsFor labels q) ∧
      ∀ front back before, labels = front ++ .shutdown :: back →
        run ThreadPool.step (initial threadCount capacity positive buffer) front = some before →
        pool.Returned →
        ((∀ q < threadCount, before.submitted q <+: pool.executed q) ↔
          ∀ q < threadCount, before.Drained q) := by
  constructor
  · intro q hq
    have hsound := run_queueSound hrun (few q hq)
    have hrecords := run_records hrun hq
    constructor
    · have hfifo := hsound.sound.fifo
      rw [hsound.executed] at hfifo
      exact (List.prefix_append _ _).trans hfifo
    · rw [← hrecords.calls]
      exact List.prefix_append _ _
  · rintro front back before rfl hfront hreturned
    have hback : run ThreadPool.step before (.shutdown :: back) = some pool := by
      rw [run_append, hfront] at hrun
      exact hrun
    have hcount : pool.threadCount = threadCount :=
      run_invariant (fun s => s.threadCount = threadCount) rfl
        (fun _ _ _ hbefore hstep => (step_flag hstep).1.trans hbefore) hrun
    have hiff : ∀ q < threadCount, before.submitted q <+: pool.executed q ↔ before.Drained q := by
      intro q hq
      exact (run_late hfront hback (few q hq)).executed_iff (run_queueSound hrun (few q hq))
        (run_submitted hback q) (hreturned.joined q (hcount ▸ hq))
    exact forall₂_congr hiff

/-- Two tasks for the only worker, and `shutdown` before it has looked at its queue. -/
def lateShutdown : List (ThreadPoolStep Nat) :=
  [.submitTask 7 0, .push, .push, .push, .push, .submitTask 8 0, .push, .push, .push, .push,
    .shutdown, .work 0]

/-- `shutdown` returns, and no task was executed. -/
theorem tasks_left_behind :
    ∃ before pool, run ThreadPool.step (ThreadPool.initial 1 128 (by decide) fun _ => 0)
        (lateShutdown.take 10) = some before ∧
      run ThreadPool.step (ThreadPool.initial 1 128 (by decide) fun _ => 0) lateShutdown =
        some pool ∧
      pool.Returned ∧ before.submitted 0 = [7, 8] ∧ pool.executed 0 = [] := by
  refine ⟨_, _, rfl, rfl, ⟨rfl, fun queueIndex hlt => ?_⟩, rfl, rfl⟩
  have hzero : queueIndex = 0 := Nat.lt_one_iff.mp hlt
  rw [hzero]
  rfl

/-- One task, and `shutdown` while its worker is in `tryPop`. -/
def timelyShutdown : List (ThreadPoolStep Nat) :=
  [.submitTask 7 0, .push, .push, .push, .push, .work 0, .shutdown, .work 0, .work 0, .work 0,
    .work 0, .work 0, .work 0]

theorem tasks_executed_iff_timely :
    ∃ before pool, run ThreadPool.step (ThreadPool.initial 1 128 (by decide) fun _ => 0)
        (timelyShutdown.take 6) = some before ∧
      run ThreadPool.step (ThreadPool.initial 1 128 (by decide) fun _ => 0) timelyShutdown =
        some pool ∧
      ∀ q < 1, before.submitted q <+: pool.executed q := by
  -- The facts about both states are computed; the theorem gives the conclusion.
  have hbefore : (run ThreadPool.step (ThreadPool.initial 1 128 (by decide) fun _ => 0)
      (timelyShutdown.take 6)).any (fun before => decide (before.Drained 0)) = true := by
    decide +kernel
  have hpool : (run ThreadPool.step (ThreadPool.initial 1 128 (by decide) fun _ => 0)
      timelyShutdown).any (fun pool => decide ((pool.threadQueues 0).pushed.length < 2 ^ 31) &&
        (pool.isShuttingDown && (decide (pool.threadCount = 1) && (pool.workers 0).isExited))) =
          true := by
    decide +kernel
  obtain ⟨before, hfront, hdrained⟩ := (Option.any_eq_true _ _).mp hbefore
  obtain ⟨pool, hrun, hfacts⟩ := (Option.any_eq_true _ _).mp hpool
  simp only [Bool.and_eq_true, decide_eq_true_eq] at hdrained hfacts
  obtain ⟨hfew, hcalled, hcount, hexited⟩ := hfacts
  have honly : ∀ {P : Nat → Prop}, P 0 → ∀ q < 1, P q := by
    intro P hzero q hq
    rwa [Nat.lt_one_iff.mp hq]
  refine ⟨before, pool, hfront, hrun, ?_⟩
  exact ((tasks_executed_iff 1 128 (by decide) (fun _ => 0) timelyShutdown pool hrun
    (honly hfew)).2 (timelyShutdown.take 6) (timelyShutdown.drop 7) before rfl hfront
      ⟨hcalled, hcount ▸ honly hexited⟩).mpr (honly hdrained)

end LiteExchange.Core
