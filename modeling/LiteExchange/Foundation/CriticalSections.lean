import LiteExchange.Foundation.Refinement
import Mathlib.Logic.Function.Basic

/-!
# Critical sections under a test-and-set lock

A thread waits in a loop until it finds the flag clear, sets it, accesses the shared data one
access at a time and clears the flag. Between two accesses any other thread may step, also
outside of the lock. At most one thread is inside (`exclusive_step`), what holds while the lock is
free and inside of each section can be proved section by section (`resource_run`), and where the
steps outside move in front of the accesses, the sections are atomic (`atomic_refines`).
-/

namespace Foundation.CriticalSections

open Runs Refinement

/-- The registers of a thread when it calls `lock`, and the accesses it is going to make. -/
structure Body (ρ α : Type*) where
  registers : ρ
  program : List α
  deriving DecidableEq

/-- `loop` is where the loop of `lock` stands. -/
inductive Place (ω ρ α : Type*) where
  | outside
  | waiting (loop : ω) (body : Body ρ α)
  | inside (body : Body ρ α) (rest : List α) (registers : ρ)

namespace Place

variable {ω ρ α : Type*}

def IsInside : Place ω ρ α → Prop
  | .inside _ _ _ => True
  | _ => False

/-- The section that a thread is in or waits for. -/
def body? : Place ω ρ α → Option (Body ρ α)
  | .outside => none
  | .waiting _ body => some body
  | .inside body _ _ => some body

@[simp] theorem isInside_outside : ¬ (outside : Place ω ρ α).IsInside := id

@[simp] theorem isInside_waiting (loop : ω) (body : Body ρ α) :
    ¬ (waiting loop body : Place ω ρ α).IsInside := id

@[simp] theorem isInside_inside (body : Body ρ α) (rest : List α) (registers : ρ) :
    (inside body rest registers : Place ω ρ α).IsInside := trivial

end Place

/-- `leave` is what a thread writes down for itself when it has unlocked. A turn of the loop in
`lock` is a test-and-set or a pause. -/
structure Program (π ω ρ α σ ℓ : Type*) where
  access : α → σ × ρ → Option (σ × ρ)
  leave : π → Body ρ α → σ × ρ → σ
  ready : σ → π → Body ρ α → Bool
  outside : σ → ℓ → Option σ
  owner : ℓ → π
  loop : ω
  tries : ω → Bool
  again : ω → ω

structure Guarded (π ω ρ α σ : Type*) where
  flag : Bool
  data : σ
  place : π → Place ω ρ α

inductive Label (π ρ α ℓ : Type*) where
  | lock (thread : π) (body : Body ρ α)
  | turn (thread : π)
  | access (thread : π)
  | unlock (thread : π)
  | outside (event : ℓ)

/-- A step of the system whose sections are atomic. -/
inductive Atomic (π ρ α ℓ : Type*) where
  | critical (thread : π) (body : Body ρ α)
  | outside (event : ℓ)

namespace Guarded

variable {π ω ρ α σ : Type*}

/-- The lock is free and no thread is at it. -/
def initial (data : σ) : Guarded π ω ρ α σ where
  flag := false
  data := data
  place := fun _ => .outside

/-- The flag is set while one thread is inside. -/
inductive Exclusive (s : Guarded π ω ρ α σ) : Prop
  | free (flag : s.flag = false) (nobody : ∀ thread, ¬ (s.place thread).IsInside)
  | held (flag : s.flag = true) (holder : π)
      (one : ∀ thread, (s.place thread).IsInside ↔ thread = holder)

theorem exclusive_initial (data : σ) : (initial data : Guarded π ω ρ α σ).Exclusive :=
  .free rfl fun _ => id

theorem Exclusive.unique {s : Guarded π ω ρ α σ} (h : s.Exclusive) {thread other : π}
    (hthread : (s.place thread).IsInside) (hother : (s.place other).IsInside) :
    thread = other := by
  cases h with
  | free flag nobody => exact absurd hthread (nobody thread)
  | held flag holder one => exact ((one thread).mp hthread).trans ((one other).mp hother).symm

theorem Exclusive.flag_of_inside {s : Guarded π ω ρ α σ} (h : s.Exclusive) {thread : π}
    (hthread : (s.place thread).IsInside) : s.flag = true := by
  cases h with
  | free flag nobody => exact absurd hthread (nobody thread)
  | held flag holder one => exact flag

/-- The lock is free, or a thread holds it in the middle of its section. -/
theorem Exclusive.cases {s : Guarded π ω ρ α σ} (h : s.Exclusive) :
    s.flag = false ∨ ∃ thread body rest registers, s.flag = true ∧
      s.place thread = .inside body rest registers := by
  cases h with
  | free flag nobody => exact .inl flag
  | held flag holder one =>
    have hinside := (one holder).mpr rfl
    cases hplace : s.place holder with
    | outside =>
      rw [hplace] at hinside
      exact hinside.elim
    | waiting loop body =>
      rw [hplace] at hinside
      exact hinside.elim
    | inside body rest registers => exact .inr ⟨holder, body, rest, registers, flag, hplace⟩

end Guarded

section Steps

variable {π ω ρ α σ ℓ : Type*} [DecidableEq π]

namespace Program

variable (program : Program π ω ρ α σ ℓ)

def step (s : Guarded π ω ρ α σ) : Label π ρ α ℓ → Option (Guarded π ω ρ α σ)
  | .lock thread body =>
    match s.place thread with
    | .outside =>
      if program.ready s.data thread body then
        some { s with place := Function.update s.place thread (.waiting program.loop body) }
      else none
    | _ => none
  | .turn thread =>
    match s.place thread with
    | .waiting loop body =>
      if program.tries loop ∧ s.flag = false then
        some { s with
          flag := true
          place := Function.update s.place thread (.inside body body.program body.registers) }
      else
        some { s with place := Function.update s.place thread (.waiting (program.again loop) body) }
    | _ => none
  | .access thread =>
    match s.place thread with
    | .inside body rest registers =>
      match rest with
      | access :: rest =>
        (program.access access (s.data, registers)).map fun (data, registers) =>
          { s with
            data := data
            place := Function.update s.place thread (.inside body rest registers) }
      | [] => none
    | _ => none
  | .unlock thread =>
    match s.place thread with
    | .inside body rest registers =>
      match rest with
      | [] =>
        some { flag := false
               data := program.leave thread body (s.data, registers)
               place := Function.update s.place thread .outside }
      | _ :: _ => none
    | _ => none
  | .outside event =>
    match s.place (program.owner event) with
    | .outside => (program.outside s.data event).map fun data => { s with data := data }
    | _ => none

/-- The accesses of a section, one after the other. -/
def perform (start : σ × ρ) (accesses : List α) : Option (σ × ρ) :=
  accesses.foldlM (fun now access => program.access access now) start

def atomic (data : σ) : Atomic π ρ α ℓ → Option σ
  | .critical thread body =>
    if program.ready data thread body then
      (program.perform (data, body.registers) body.program).map (program.leave thread body)
    else none
  | .outside event => program.outside data event

variable {program}

omit [DecidableEq π] in
theorem atomic_ready {data : σ} {thread : π} {body : Body ρ α}
    (ready : program.ready data thread body = true) :
    program.atomic data (.critical thread body) =
      (program.perform (data, body.registers) body.program).map (program.leave thread body) :=
  if_pos ready

/-- What each step does, with the place of its thread before and behind it. -/
inductive Effect (program : Program π ω ρ α σ ℓ) (s next : Guarded π ω ρ α σ) :
    Label π ρ α ℓ → Prop
  | lock {thread : π} {body : Body ρ α} (place : s.place thread = .outside)
      (ready : program.ready s.data thread body = true)
      (after : next = { s with
        place := Function.update s.place thread (.waiting program.loop body) }) :
      Effect program s next (.lock thread body)
  | wait {thread : π} {loop : ω} {body : Body ρ α} (place : s.place thread = .waiting loop body)
      (after : next = { s with
        place := Function.update s.place thread (.waiting (program.again loop) body) }) :
      Effect program s next (.turn thread)
  | enter {thread : π} {loop : ω} {body : Body ρ α} (place : s.place thread = .waiting loop body)
      (flag : s.flag = false)
      (after : next = { s with
        flag := true
        place := Function.update s.place thread (.inside body body.program body.registers) }) :
      Effect program s next (.turn thread)
  | access {thread : π} {body : Body ρ α} {access : α} {rest : List α} {registers now : ρ}
      {data : σ} (place : s.place thread = .inside body (access :: rest) registers)
      (accessed : program.access access (s.data, registers) = some (data, now))
      (after : next = { s with
        data := data
        place := Function.update s.place thread (.inside body rest now) }) :
      Effect program s next (.access thread)
  | unlock {thread : π} {body : Body ρ α} {registers : ρ}
      (place : s.place thread = .inside body [] registers)
      (after : next = { flag := false
                        data := program.leave thread body (s.data, registers)
                        place := Function.update s.place thread .outside }) :
      Effect program s next (.unlock thread)
  | outside {event : ℓ} {data : σ} (place : s.place (program.owner event) = .outside)
      (happened : program.outside s.data event = some data)
      (after : next = { s with data := data }) : Effect program s next (.outside event)

theorem effect_of_step {s next : Guarded π ω ρ α σ} {label : Label π ρ α ℓ}
    (hstep : program.step s label = some next) : Effect program s next label := by
  cases label with
  | lock thread body =>
    simp only [step] at hstep
    split at hstep
    · rename_i hplace
      obtain ⟨hready, hnext⟩ := Option.ite_none_right_eq_some.mp hstep
      exact .lock hplace hready (Option.some.inj hnext).symm
    · cases hstep
  | turn thread =>
    simp only [step] at hstep
    split at hstep
    · rename_i loop body hplace
      split at hstep
      · rename_i hfree
        exact .enter hplace hfree.2 (Option.some.inj hstep).symm
      · exact .wait hplace (Option.some.inj hstep).symm
    · cases hstep
  | access thread =>
    simp only [step] at hstep
    split at hstep
    · rename_i body rest registers hplace
      split at hstep
      · obtain ⟨⟨data, now⟩, haccess, hnext⟩ := Option.map_eq_some_iff.mp hstep
        exact .access hplace haccess hnext.symm
      · cases hstep
    · cases hstep
  | unlock thread =>
    simp only [step] at hstep
    split at hstep
    · rename_i body rest registers hplace
      split at hstep
      · exact .unlock hplace (Option.some.inj hstep).symm
      · cases hstep
    · cases hstep
  | outside event =>
    simp only [step] at hstep
    split at hstep
    · rename_i hplace
      obtain ⟨data, hdata, hnext⟩ := Option.map_eq_some_iff.mp hstep
      exact .outside hplace hdata hnext.symm
    · cases hstep

/-! ## Mutual exclusion -/

/-- The place that `other` has behind a step of `thread`. -/
theorem place_update {place : π → Place ω ρ α} {thread other : π} {now : Place ω ρ α}
    (holds : Place ω ρ α → Prop) (h : holds (Function.update place thread now other)) :
    other = thread ∧ holds now ∨ other ≠ thread ∧ holds (place other) := by
  by_cases hother : other = thread
  · subst hother
    rw [Function.update_self] at h
    exact .inl ⟨rfl, h⟩
  · rw [Function.update_of_ne hother] at h
    exact .inr ⟨hother, h⟩

/-- A thread that stays outside or inside leaves who is inside. -/
theorem isInside_update {s : Guarded π ω ρ α σ} {thread : π} {place : Place ω ρ α}
    (same : place.IsInside ↔ (s.place thread).IsInside) (other : π) :
    (Function.update s.place thread place other).IsInside ↔ (s.place other).IsInside := by
  by_cases hother : other = thread
  · subst hother
    rw [Function.update_self]
    exact same
  · rw [Function.update_of_ne hother]

omit [DecidableEq π] in
theorem exclusive_frame {s next : Guarded π ω ρ α σ} (h : s.Exclusive) (flag : next.flag = s.flag)
    (same : ∀ thread, (next.place thread).IsInside ↔ (s.place thread).IsInside) :
    next.Exclusive := by
  cases h with
  | free clear nobody => exact .free (flag.trans clear) fun thread => mt (same thread).mp (nobody thread)
  | held set holder one =>
    exact .held (flag.trans set) holder fun thread => (same thread).trans (one thread)

theorem exclusive_step {s next : Guarded π ω ρ α σ} {label : Label π ρ α ℓ} (h : s.Exclusive)
    (effect : Effect program s next label) : next.Exclusive := by
  cases effect with
  | lock place ready after =>
    subst after
    exact exclusive_frame h rfl (isInside_update (by rw [place]; exact Iff.rfl))
  | wait place after =>
    subst after
    exact exclusive_frame h rfl (isInside_update (by rw [place]; exact Iff.rfl))
  | @enter thread _ body place flag after =>
    subst after
    cases h with
    | free _ nobody =>
      refine .held rfl thread fun other => ?_
      by_cases hother : other = thread
      · subst hother
        simp
      · simp only [Function.update_of_ne hother, hother, iff_false]
        exact nobody other
    | held set => exact absurd (flag.symm.trans set) Bool.noConfusion
  | access place accessed after =>
    subst after
    exact exclusive_frame h rfl (isInside_update (by rw [place]; exact Iff.rfl))
  | @unlock thread _ _ place after =>
    subst after
    have hthread : (s.place thread).IsInside := by
      rw [place]
      trivial
    refine .free rfl fun other hother => ?_
    rcases place_update Place.IsInside hother with ⟨-, houtside⟩ | ⟨hsame, hinside⟩
    · exact houtside
    · exact hsame (h.unique hinside hthread)
  | outside place happened after =>
    subst after
    exact exclusive_frame h rfl fun _ => Iff.rfl

/-! ## Sections that stay ready -/

/-- Whether a thread may make a section is up to the thread: the accesses and the steps of others
do not change it. -/
structure Private (program : Program π ω ρ α σ ℓ) : Prop where
  access : ∀ {access data registers data' registers'} (thread : π) (body : Body ρ α),
    program.access access (data, registers) = some (data', registers') →
    program.ready data' thread body = program.ready data thread body
  leave : ∀ (thread : π) (body : Body ρ α) {other : π} (made : Body ρ α) (now : σ × ρ),
    thread ≠ other →
    program.ready (program.leave other made now) thread body = program.ready now.1 thread body
  outside : ∀ {event data data'} {thread : π} (body : Body ρ α), program.owner event ≠ thread →
    program.outside data event = some data' →
    program.ready data' thread body = program.ready data thread body

/-- A thread that is in a section or waits for it may make it. -/
def ReadyAt (program : Program π ω ρ α σ ℓ) (s : Guarded π ω ρ α σ) : Prop :=
  ∀ thread body, (s.place thread).body? = some body → program.ready s.data thread body = true

theorem readyAt_step (h : Private program) {s next : Guarded π ω ρ α σ} {label : Label π ρ α ℓ}
    (hready : ReadyAt program s) (effect : Effect program s next label) :
    ReadyAt program next := by
  intro other body' hbody
  -- A step of `thread` that keeps its section.
  have hkeeps {thread : π} {place : Place ω ρ α} (same : place.body? = (s.place thread).body?)
      (h : (Function.update s.place thread place other).body? = some body') :
      program.ready s.data other body' = true := by
    rcases place_update (fun place => place.body? = some body') h with ⟨rfl, hplace⟩ | ⟨-, hplace⟩
    · exact hready _ _ (same ▸ hplace)
    · exact hready _ _ hplace
  cases effect with
  | lock place ready after =>
    subst after
    rcases place_update (fun place => place.body? = some body') hbody with
      ⟨rfl, hplace⟩ | ⟨-, hplace⟩
    · cases hplace
      exact ready
    · exact hready _ _ hplace
  | wait place after =>
    subst after
    exact hkeeps (by rw [place]; rfl) hbody
  | enter place flag after =>
    subst after
    exact hkeeps (by rw [place]; rfl) hbody
  | access place accessed after =>
    subst after
    exact (h.access _ _ accessed).trans (hkeeps (by rw [place]; rfl) hbody)
  | unlock place after =>
    subst after
    rcases place_update (fun place => place.body? = some body') hbody with
      ⟨-, hplace⟩ | ⟨hother, hplace⟩
    · cases hplace
    · exact (h.leave _ _ _ _ hother).trans (hready _ _ hplace)
  | @outside event _ place happened after =>
    subst after
    have hother : program.owner event ≠ other := by
      rintro rfl
      dsimp only at hbody
      rw [place] at hbody
      cases hbody
    exact (h.outside _ hother happened).trans (hready _ _ hbody)

/-! ## What the lock protects -/

/-- `I` holds of the shared data while the lock is free, `J` of a thread that is inside, with the
accesses it still has to make. -/
structure Resource (program : Program π ω ρ α σ ℓ) (I : σ → Prop)
    (J : π → Body ρ α → List α → σ × ρ → Prop) : Prop where
  enter : ∀ {data thread body}, I data → program.ready data thread body = true →
    J thread body body.program (data, body.registers)
  access : ∀ {thread body access rest now next}, J thread body (access :: rest) now →
    program.access access now = some next → J thread body rest next
  leave : ∀ {thread body now}, J thread body [] now → I (program.leave thread body now)
  outside : ∀ {data event data'}, I data → program.outside data event = some data' → I data'
  beside : ∀ {thread body rest data registers event data'},
    J thread body rest (data, registers) → program.owner event ≠ thread →
    program.outside data event = some data' → J thread body rest (data', registers)

structure Protected (program : Program π ω ρ α σ ℓ) (I : σ → Prop)
    (J : π → Body ρ α → List α → σ × ρ → Prop) (s : Guarded π ω ρ α σ) : Prop where
  exclusive : s.Exclusive
  ready : ReadyAt program s
  free : s.flag = false → I s.data
  held : ∀ thread body rest registers, s.place thread = .inside body rest registers →
    J thread body rest (s.data, registers)

section Resources

variable {I : σ → Prop} {J : π → Body ρ α → List α → σ × ρ → Prop}

omit [DecidableEq π] in
theorem Protected.cases {s : Guarded π ω ρ α σ} (h : Protected program I J s) :
    s.flag = false ∧ I s.data ∨
      ∃ thread body rest registers, s.flag = true ∧
        s.place thread = .inside body rest registers :=
  h.exclusive.cases.imp_left fun flag => ⟨flag, h.free flag⟩

/-- The steps of a thread that does not get inside leave what protects the data. -/
theorem Protected.frame {s : Guarded π ω ρ α σ} (h : Protected program I J s) {thread : π}
    {place : Place ω ρ α} (stays : ¬ place.IsInside) {other : π} {body : Body ρ α}
    {rest : List α} {registers : ρ}
    (hplace : Function.update s.place thread place other = .inside body rest registers) :
    J other body rest (s.data, registers) := by
  rcases place_update (· = .inside body rest registers) hplace with ⟨-, rfl⟩ | ⟨-, hplace⟩
  · exact absurd trivial stays
  · exact h.held _ _ _ _ hplace

theorem protected_step (keeps : Private program) (resource : Resource program I J)
    {s next : Guarded π ω ρ α σ} {label : Label π ρ α ℓ} (h : Protected program I J s)
    (effect : Effect program s next label) : Protected program I J next := by
  refine ⟨exclusive_step h.exclusive effect, readyAt_step keeps h.ready effect, ?_, ?_⟩
  · intro hfree
    cases effect with
    | lock place ready after =>
      subst after
      exact h.free hfree
    | wait place after =>
      subst after
      exact h.free hfree
    | enter place flag after =>
      subst after
      cases hfree
    | access place accessed after =>
      subst after
      have hset := h.exclusive.flag_of_inside (by rw [place]; trivial)
      exact absurd (hset.symm.trans hfree) Bool.noConfusion
    | unlock place after =>
      subst after
      exact resource.leave (h.held _ _ _ _ place)
    | outside place happened after =>
      subst after
      exact resource.outside (h.free hfree) happened
  · intro other body' rest' registers' hplace
    cases effect with
    | lock place ready after =>
      subst after
      exact h.frame (Place.isInside_waiting _ _) hplace
    | wait place after =>
      subst after
      exact h.frame (Place.isInside_waiting _ _) hplace
    | enter place flag after =>
      subst after
      rcases place_update (· = .inside body' rest' registers') hplace with ⟨rfl, hnew⟩ | ⟨-, hold⟩
      · cases hnew
        exact resource.enter (h.free flag) (h.ready _ _ (by rw [place]; rfl))
      · exact h.held _ _ _ _ hold
    | access place accessed after =>
      subst after
      rcases place_update (· = .inside body' rest' registers') hplace with
        ⟨rfl, hnew⟩ | ⟨hother, hold⟩
      · cases hnew
        exact resource.access (h.held _ _ _ _ place) accessed
      · exact absurd (h.exclusive.unique (by rw [hold]; trivial) (by rw [place]; trivial)) hother
    | unlock place after =>
      subst after
      rcases place_update (· = .inside body' rest' registers') hplace with
        ⟨-, hnew⟩ | ⟨hother, hold⟩
      · cases hnew
      · exact absurd (h.exclusive.unique (by rw [hold]; trivial) (by rw [place]; trivial)) hother
    | outside place happened after =>
      subst after
      refine resource.beside (h.held _ _ _ _ hplace) ?_ happened
      rintro rfl
      exact absurd (place.symm.trans hplace) nofun

/-- What is proved of one section at a time holds in every state that is reached. -/
theorem resource_run (keeps : Private program) (resource : Resource program I J) {data : σ}
    (start : I data) {s : Guarded π ω ρ α σ} {labels : List (Label π ρ α ℓ)}
    (h : run program.step (.initial data) labels = some s) : Protected program I J s := by
  refine run_invariant (Protected program I J) ?_
    (fun _ _ _ hprotected hstep => protected_step keeps resource hprotected (effect_of_step hstep)) h
  exact
    { exclusive := Guarded.exclusive_initial data
      ready := fun _ _ h => by cases h
      free := fun _ => start
      held := fun _ _ _ _ h => by cases h }

end Resources

/-! ## Atomic sections -/

/-- A step outside that comes behind an access could have come in front of it. -/
def Moves (program : Program π ω ρ α σ ℓ) : Prop :=
  ∀ {access : α} {data data' after : σ} {registers registers' : ρ} {event : ℓ},
    program.access access (data, registers) = some (data', registers') →
    program.outside data' event = some after →
    ∃ before, program.outside data event = some before ∧
      program.access access (before, registers) = some (after, registers')

/-- The data as they were when the section that is being made began. -/
structure Related (program : Program π ω ρ α σ ℓ) (s : Guarded π ω ρ α σ) (t : σ) : Prop where
  exclusive : s.Exclusive
  free : s.flag = false → s.data = t
  held : ∀ thread body rest registers, s.place thread = .inside body rest registers →
    ∃ ran, body.program = ran ++ rest ∧
      program.perform (t, body.registers) ran = some (s.data, registers)
  ready : ∀ thread body, (s.place thread).body? = some body →
    program.ready t thread body = true

/-- A section shows where it ends. -/
def shows (s : Guarded π ω ρ α σ) : Label π ρ α ℓ → Option (Atomic π ρ α ℓ)
  | .unlock thread => ((s.place thread).body?).map fun body => .critical thread body
  | .outside event => some (.outside event)
  | _ => none

omit [DecidableEq π] in
theorem perform_snoc (start : σ × ρ) (ran : List α) (access : α) :
    program.perform start (ran ++ [access]) = (program.perform start ran).bind
      (program.access access) := by
  simp [perform, List.foldlM_append]

omit [DecidableEq π] in
theorem ready_perform (keeps : Private program) {accesses : List α} {data data' : σ}
    {registers registers' : ρ}
    (h : program.perform (data, registers) accesses = some (data', registers')) (thread : π)
    (body : Body ρ α) : program.ready data' thread body = program.ready data thread body := by
  induction accesses using List.reverseRecOn generalizing data' registers' with
  | nil =>
    cases h
    rfl
  | append_singleton ran access ih =>
    rw [perform_snoc] at h
    obtain ⟨⟨middle, now⟩, hran, haccess⟩ := Option.bind_eq_some_iff.mp h
    rw [keeps.access thread body haccess, ih hran]

omit [DecidableEq π] in
theorem moves_perform (moves : Moves program) {accesses : List α} {data data' after : σ}
    {registers registers' : ρ} {event : ℓ}
    (h : program.perform (data, registers) accesses = some (data', registers'))
    (happened : program.outside data' event = some after) :
    ∃ before, program.outside data event = some before ∧
      program.perform (before, registers) accesses = some (after, registers') := by
  induction accesses using List.reverseRecOn generalizing data' after registers' with
  | nil =>
    cases h
    exact ⟨after, happened, rfl⟩
  | append_singleton ran access ih =>
    rw [perform_snoc] at h
    obtain ⟨⟨middle, now⟩, hran, haccess⟩ := Option.bind_eq_some_iff.mp h
    obtain ⟨between, hbetween, haccess'⟩ := moves haccess happened
    obtain ⟨before, hbefore, hran'⟩ := ih hran hbetween
    refine ⟨before, hbefore, ?_⟩
    rw [perform_snoc, hran']
    exact haccess'

section Relates

variable {s next : Guarded π ω ρ α σ} {t : σ}

omit [DecidableEq π] in
theorem Related.cases (h : Related program s t) :
    s.flag = false ∧ s.data = t ∨
      ∃ thread body rest registers, s.flag = true ∧
        s.place thread = .inside body rest registers :=
  h.exclusive.cases.imp_left fun flag => ⟨flag, h.free flag⟩

omit [DecidableEq π] in
theorem Related.ready_data (keeps : Private program) (h : Related program s t) (thread : π)
    (body : Body ρ α) : program.ready s.data thread body = program.ready t thread body := by
  rcases h.cases with ⟨-, hsame⟩ | ⟨holder, made, rest, registers, -, hplace⟩
  · rw [hsame]
  · obtain ⟨ran, -, hran⟩ := h.held _ _ _ _ hplace
    exact ready_perform keeps hran thread body

/-- A thread that comes to wait or turns in the loop. -/
theorem Related.waits (h : Related program s t) {thread : π} {loop : ω} {body : Body ρ α}
    (stays : ¬ (s.place thread).IsInside) (ready : program.ready t thread body = true) :
    Related program
      { s with place := Function.update s.place thread (.waiting loop body) } t where
  exclusive := exclusive_frame h.exclusive rfl
    (isInside_update (iff_of_false (Place.isInside_waiting _ _) stays))
  free := h.free
  held _ _ _ _ hplace := by
    rcases place_update (· = .inside _ _ _) hplace with ⟨-, hnew⟩ | ⟨-, hold⟩
    · cases hnew
    · exact h.held _ _ _ _ hold
  ready _ _ hbody := by
    rcases place_update (fun place => place.body? = some _) hbody with ⟨rfl, hnew⟩ | ⟨-, hold⟩
    · cases hnew
      exact ready
    · exact h.ready _ _ hold

theorem Related.enters (h : Related program s t) {thread : π} {loop : ω} {body : Body ρ α}
    (place : s.place thread = .waiting loop body) (flag : s.flag = false)
    (exclusive : ({ s with
      flag := true
      place := Function.update s.place thread
        (.inside body body.program body.registers) } : Guarded π ω ρ α σ).Exclusive) :
    Related program
      { s with
        flag := true
        place := Function.update s.place thread (.inside body body.program body.registers) } t where
  exclusive := exclusive
  free hfree := by cases hfree
  held _ _ _ _ hplace := by
    rcases place_update (· = .inside _ _ _) hplace with ⟨rfl, hnew⟩ | ⟨-, hold⟩
    · cases hnew
      exact ⟨[], rfl, by rw [← h.free flag]; rfl⟩
    · exact h.held _ _ _ _ hold
  ready _ _ hbody := by
    rcases place_update (fun place => place.body? = some _) hbody with ⟨rfl, hnew⟩ | ⟨-, hold⟩
    · cases hnew
      exact h.ready _ _ (by rw [place]; rfl)
    · exact h.ready _ _ hold

theorem Related.accesses (h : Related program s t) {thread : π} {body : Body ρ α} {access : α}
    {rest : List α} {registers now : ρ} {data : σ}
    (place : s.place thread = .inside body (access :: rest) registers)
    (accessed : program.access access (s.data, registers) = some (data, now)) :
    Related program
      { s with data := data, place := Function.update s.place thread (.inside body rest now) }
      t where
  exclusive := exclusive_frame h.exclusive rfl
    (isInside_update (by rw [place]; exact Iff.rfl))
  free hfree := by
    have hinside : (s.place thread).IsInside := by
      rw [place]
      trivial
    have hset := h.exclusive.flag_of_inside hinside
    exact absurd (hset.symm.trans hfree) Bool.noConfusion
  held other _ _ _ hplace := by
    rcases place_update (· = .inside _ _ _) hplace with ⟨rfl, hnew⟩ | ⟨hother, hold⟩
    · cases hnew
      obtain ⟨ran, hprogram, hran⟩ := h.held _ _ _ _ place
      refine ⟨ran ++ [access], by rw [hprogram, List.append_assoc]; rfl, ?_⟩
      rw [perform_snoc, hran]
      exact accessed
    · exact absurd (h.exclusive.unique (by rw [hold]; trivial) (by rw [place]; trivial)) hother
  ready _ _ hbody := by
    rcases place_update (fun place => place.body? = some _) hbody with ⟨rfl, hnew⟩ | ⟨-, hold⟩
    · cases hnew
      exact h.ready _ _ (by rw [place]; rfl)
    · exact h.ready _ _ hold

theorem Related.unlocks (keeps : Private program) (h : Related program s t) {thread : π}
    {body : Body ρ α} {registers : ρ} (place : s.place thread = .inside body [] registers)
    (exclusive : ({ flag := false
                    data := program.leave thread body (s.data, registers)
                    place := Function.update s.place thread .outside } :
      Guarded π ω ρ α σ).Exclusive) :
    ∃ t', program.atomic t (.critical thread body) = some t' ∧
      Related program
        { flag := false
          data := program.leave thread body (s.data, registers)
          place := Function.update s.place thread .outside } t' := by
  obtain ⟨ran, hprogram, hran⟩ := h.held _ _ _ _ place
  rw [List.append_nil] at hprogram
  refine ⟨program.leave thread body (s.data, registers), ?_, exclusive, fun _ => rfl, ?_, ?_⟩
  · rw [atomic_ready (h.ready _ _ (by rw [place]; rfl)), hprogram, hran]
    rfl
  · intro other _ _ _ hplace
    rcases place_update (· = .inside _ _ _) hplace with ⟨-, hnew⟩ | ⟨hother, hold⟩
    · cases hnew
    · exact absurd (h.exclusive.unique (by rw [hold]; trivial) (by rw [place]; trivial)) hother
  · intro other _ hbody
    rcases place_update (fun place => place.body? = some _) hbody with ⟨-, hnew⟩ | ⟨hother, hold⟩
    · cases hnew
    · rw [keeps.leave _ _ _ _ hother, h.ready_data keeps]
      exact h.ready _ _ hold

omit [DecidableEq π] in
theorem Related.happens (keeps : Private program) (moves : Moves program)
    (h : Related program s t) {event : ℓ} {data : σ}
    (place : s.place (program.owner event) = .outside)
    (happened : program.outside s.data event = some data) :
    ∃ t', program.outside t event = some t' ∧ Related program { s with data := data } t' := by
  have hready {t' : σ} (before : program.outside t event = some t') (thread : π) (body : Body ρ α)
      (hbody : (s.place thread).body? = some body) : program.ready t' thread body = true := by
    have hother : program.owner event ≠ thread := by
      rintro rfl
      rw [place] at hbody
      cases hbody
    rw [keeps.outside _ hother before]
    exact h.ready _ _ hbody
  have hexclusive : ({ s with data := data } : Guarded π ω ρ α σ).Exclusive :=
    exclusive_frame h.exclusive rfl fun _ => Iff.rfl
  rcases h.cases with ⟨hflag, hsame⟩ | ⟨holder, made, rest, registers, hflag, hholder⟩
  · subst hsame
    refine ⟨data, happened, hexclusive, fun _ => rfl, ?_, hready happened⟩
    intro thread _ _ _ hplace
    have hinside : (s.place thread).IsInside := by
      rw [hplace]
      trivial
    have hset := h.exclusive.flag_of_inside hinside
    exact absurd (hflag.symm.trans hset) Bool.noConfusion
  · obtain ⟨ran, hprogram, hran⟩ := h.held _ _ _ _ hholder
    obtain ⟨t', hbefore, hran'⟩ := moves_perform moves hran happened
    refine ⟨t', hbefore, hexclusive, ?_, ?_, hready hbefore⟩
    · intro hfree
      exact absurd (hflag.symm.trans hfree) Bool.noConfusion
    · intro thread _ _ _ hplace
      obtain rfl := h.exclusive.unique (by rw [hplace]; trivial)
        (show (s.place holder).IsInside by rw [hholder]; trivial)
      cases hholder.symm.trans hplace
      exact ⟨ran, hprogram, hran'⟩

end Relates

/-- Every run shows a run whose sections are atomic, in the order in which they end. -/
theorem atomic_refines (keeps : Private program) (moves : Moves program) :
    Refines program.step (fun _ _ => True) (shows (ℓ := ℓ)) program.atomic
      (Related program) where
  hidden := by
    intro s next label t related _ hstep hidden
    have heffect := effect_of_step hstep
    cases heffect with
    | lock place ready after =>
      subst after
      exact related.waits (by rw [place]; exact id) (related.ready_data keeps _ _ ▸ ready)
    | wait place after =>
      subst after
      exact related.waits (by rw [place]; exact id) (related.ready _ _ (by rw [place]; rfl))
    | enter place flag after =>
      have hexclusive := exclusive_step related.exclusive (effect_of_step hstep)
      subst after
      exact related.enters place flag hexclusive
    | access place accessed after =>
      subst after
      exact related.accesses place accessed
    | unlock place after =>
      rw [shows, place] at hidden
      cases hidden
    | outside place happened after => cases hidden
  visible := by
    intro s next label t event related _ hstep hshows
    have hexclusive := exclusive_step related.exclusive (effect_of_step hstep)
    have heffect := effect_of_step hstep
    cases heffect with
    | lock place ready after => cases hshows
    | wait place after => cases hshows
    | enter place flag after => cases hshows
    | access place accessed after => cases hshows
    | unlock place after =>
      rw [shows, place] at hshows
      cases hshows
      subst after
      exact related.unlocks keeps place hexclusive
    | outside place happened after =>
      cases hshows
      subst after
      exact related.happens keeps moves place happened

omit [DecidableEq π] in
theorem related_initial (data : σ) :
    Related program (.initial data : Guarded π ω ρ α σ) data where
  exclusive := Guarded.exclusive_initial data
  free _ := rfl
  held _ _ _ _ h := by cases h
  ready _ _ h := by cases h

theorem atomic_run (keeps : Private program) (moves : Moves program) {data : σ}
    {s : Guarded π ω ρ α σ} {labels : List (Label π ρ α ℓ)}
    (h : run program.step (.initial data) labels = some s) :
    ∃ t, run program.atomic data (shown program.step shows (.initial data) labels) = some t ∧
      Related program s t :=
  (atomic_refines keeps moves).run (related_initial data) h (along_of_forall fun _ _ => trivial)

/-- A thread that is inside is not stuck, if its section can be made from the data it found. -/
theorem Related.proceeds {s : Guarded π ω ρ α σ} {t : σ} (h : Related program s t) {thread : π}
    {body : Body ρ α} {access : α} {rest : List α} {registers : ρ}
    (place : s.place thread = .inside body (access :: rest) registers)
    (enabled : program.atomic t (.critical thread body) ≠ none) :
    program.step s (.access thread) ≠ none := by
  obtain ⟨ran, hprogram, hran⟩ := h.held _ _ _ _ place
  intro hstuck
  simp only [step, place, Option.map_eq_none_iff] at hstuck
  apply enabled
  rw [atomic_ready (h.ready _ _ (by rw [place]; rfl)), hprogram, Option.map_eq_none_iff,
    perform, List.foldlM_append]
  change (program.perform (t, body.registers) ran).bind _ = none
  rw [hran, Option.bind_some, List.foldlM_cons, hstuck]
  rfl

end Program
end Steps
end Foundation.CriticalSections
