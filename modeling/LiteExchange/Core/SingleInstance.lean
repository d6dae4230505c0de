import LiteExchange.Foundation.Runs
import Mathlib.Logic.Function.Basic

/-!
# One instance of the program

Source: single_instance.cpp as compiled on Linux, main.cpp, server_error.h. A process opens the
lock file, making it if it is not there, and asks for a write lock without waiting. The destructor
at the end of `main` unlinks the path; `onError` calls `std::exit`, which destroys nothing of
`main`. The lock belongs to the file behind the path, and lasts until the process ends.
-/

namespace LiteExchange.Core

open Foundation.Runs

/-- What `open` has returned: the descriptor, and the file that it stands for. -/
structure OpenedFile where
  fd : Nat
  file : Nat
  deriving DecidableEq, Repr

inductive InstancePlace where
  | starting
  /-- Between `open` and `fcntl`; `open` may have failed. -/
  | opened (m_fd : Option OpenedFile)
  /-- `operator()` has returned `true`. -/
  | running (m_fd : OpenedFile)
  /-- It has returned `false`, and `onError` is going to exit. -/
  | refused
  /-- Behind the destructor. -/
  | ending
  | exited
  deriving DecidableEq, Repr

/-- `path` is the file that the path leads to, out of the `files` that have been made; `lock` is
the process with the write lock of a file. -/
structure Instances (π : Type) where
  path : Option Nat := none
  files : Nat := 0
  lock : Nat → Option π := fun _ => none
  place : π → InstancePlace := fun _ => .starting

inductive InstanceStep (π : Type) where
  /-- `open`, with the descriptor that it returns if it does not fail. -/
  | opens (process : π) (fd : Option Nat)
  | lock (process : π)
  | destroy (process : π)
  /-- The process ends, by itself or killed. -/
  | exit (process : π)

namespace Instances

variable {π : Type} [DecidableEq π]

def moved (s : Instances π) (process : π) (place : InstancePlace) : Instances π :=
  { s with place := Function.update s.place process place }

/-- `open` with `O_CREAT`. -/
def openFile (s : Instances π) (process : π) (fd : Nat) : Instances π :=
  match s.path with
  | some file => s.moved process (.opened (some ⟨fd, file⟩))
  | none =>
    { s with path := some s.files, files := s.files + 1 }
      |>.moved process (.opened (some ⟨fd, s.files⟩))

/-- `fcntl` with `F_SETLK`. -/
def setLock (s : Instances π) (process : π) (m_fd : OpenedFile) : Instances π :=
  if s.lock m_fd.file = none ∨ s.lock m_fd.file = some process then
    { s with lock := Function.update s.lock m_fd.file (some process) }
      |>.moved process (.running m_fd)
  else s.moved process .refused

/-- The kernel releases the locks of a process that ends. -/
def exited (s : Instances π) (process : π) : Instances π :=
  { s with lock := fun file => if s.lock file = some process then none else s.lock file }
    |>.moved process .exited

def step (s : Instances π) : InstanceStep π → Option (Instances π)
  | .opens process fd =>
    match s.place process with
    | .starting =>
      match fd with
      | some fd => some (s.openFile process fd)
      | none => some (s.moved process (.opened none))
    | _ => none
  | .lock process =>
    match s.place process with
    | .opened (some m_fd) => some (s.setLock process m_fd)
    | .opened none => some (s.moved process .refused)
    | _ => none
  | .destroy process =>
    match s.place process with
    | .running m_fd =>
      some ({ s with path := if 0 < m_fd.fd then none else s.path } |>.moved process .ending)
    | _ => none
  | .exit process =>
    match s.place process with
    | .exited => none
    | _ => some (s.exited process)

def Running (s : Instances π) (process : π) : Prop := ∃ m_fd, s.place process = .running m_fd

/-- The process stands between its `open` and its `fcntl`. -/
def Opens (s : Instances π) (process : π) : Prop := ∃ m_fd, s.place process = .opened (some m_fd)

/-- Nobody unlinks the path while another process stands between its `open` and its `fcntl`. -/
def Calm (s : Instances π) (label : InstanceStep π) : Prop :=
  ∀ process, label = .destroy process → ∀ other, ¬ s.Opens other

/-! ## The invariant -/

/-- Who is at the file is at the one behind the path, and locks are held by processes that run or
are at their end. -/
structure Guarded (s : Instances π) : Prop where
  path : ∀ file, s.path = some file → file < s.files
  fresh : ∀ file, s.files ≤ file → s.lock file = none
  opened : ∀ process m_fd, s.place process = .opened (some m_fd) → s.path = some m_fd.file
  running : ∀ process m_fd, s.place process = .running m_fd →
    s.path = some m_fd.file ∧ s.lock m_fd.file = some process

omit [DecidableEq π] in
theorem guarded_initial : Guarded ({} : Instances π) where
  path _ h := by cases h
  fresh _ _ := rfl
  opened _ _ h := by cases h
  running _ _ h := by cases h

section Steps

variable {s next : Instances π} {process : π}

omit [DecidableEq π] in
theorem Guarded.exclusive (h : s.Guarded) {other : π} (hprocess : s.Running process)
    (hother : s.Running other) : process = other := by
  obtain ⟨m_fd, hplace⟩ := hprocess
  obtain ⟨m_fd', hplace'⟩ := hother
  obtain ⟨hpath, hlock⟩ := h.running _ _ hplace
  obtain ⟨hpath', hlock'⟩ := h.running _ _ hplace'
  have hfile : m_fd.file = m_fd'.file := Option.some.inj (hpath.symm.trans hpath')
  rw [hfile, hlock'] at hlock
  exact (Option.some.inj hlock).symm

theorem moved_place {other : π} {place towards : InstancePlace}
    (h : (s.moved process towards).place other = place) :
    other = process ∧ towards = place ∨ other ≠ process ∧ s.place other = place := by
  by_cases hother : other = process
  · subst hother
    exact .inl ⟨rfl, (Function.update_self _ _ _).symm.trans h⟩
  · exact .inr ⟨hother, (Function.update_of_ne hother _ _).symm.trans h⟩

/-- A process that goes on to a place where it is not at the file. -/
theorem Guarded.moved (h : s.Guarded) {towards : InstancePlace}
    (away : ∀ m_fd, towards ≠ .opened (some m_fd) ∧ towards ≠ .running m_fd) :
    (s.moved process towards).Guarded where
  path := h.path
  fresh := h.fresh
  opened := by
    intro other m_fd hplace
    rcases moved_place hplace with ⟨-, htowards⟩ | ⟨-, hplace⟩
    · exact absurd htowards (away m_fd).1
    · exact h.opened other m_fd hplace
  running := by
    intro other m_fd hplace
    rcases moved_place hplace with ⟨-, htowards⟩ | ⟨-, hplace⟩
    · exact absurd htowards (away m_fd).2
    · exact h.running other m_fd hplace

theorem Guarded.openFile (h : s.Guarded) (fd : Nat) : (s.openFile process fd).Guarded := by
  unfold Instances.openFile
  split
  · rename_i file hpath
    exact
      { path := h.path
        fresh := h.fresh
        opened := by
          intro other m_fd hplace
          rcases moved_place hplace with ⟨-, htowards⟩ | ⟨-, hplace⟩
          · cases htowards
            exact hpath
          · exact h.opened other m_fd hplace
        running := by
          intro other m_fd hplace
          rcases moved_place hplace with ⟨-, htowards⟩ | ⟨-, hplace⟩
          · cases htowards
          · exact h.running other m_fd hplace }
  · rename_i hpath
    exact
      { path := by
          intro file hfile
          cases hfile
          exact Nat.lt_succ_self _
        fresh := fun file hfile => h.fresh file (Nat.le_of_succ_le hfile)
        opened := by
          intro other m_fd hplace
          rcases moved_place hplace with ⟨-, htowards⟩ | ⟨-, hplace⟩
          · cases htowards
            rfl
          · exact absurd (hpath.symm.trans (h.opened other m_fd hplace)) nofun
        running := by
          intro other m_fd hplace
          rcases moved_place hplace with ⟨-, htowards⟩ | ⟨-, hplace⟩
          · cases htowards
          · exact absurd (hpath.symm.trans (h.running other m_fd hplace).1) nofun }

theorem Guarded.setLock (h : s.Guarded) {m_fd : OpenedFile}
    (place : s.place process = .opened (some m_fd)) : (s.setLock process m_fd).Guarded := by
  have hpath := h.opened process m_fd place
  unfold Instances.setLock
  split
  · rename_i hfree
    exact
      { path := h.path
        fresh := by
          intro file hfile
          have hother : file ≠ m_fd.file := by
            rintro rfl
            exact absurd (h.path _ hpath) (Nat.not_lt.mpr hfile)
          exact (Function.update_of_ne hother _ _).trans (h.fresh file hfile)
        opened := by
          intro other m_fd' hplace
          rcases moved_place hplace with ⟨-, htowards⟩ | ⟨-, hplace⟩
          · cases htowards
          · exact h.opened other m_fd' hplace
        running := by
          intro other m_fd' hplace
          rcases moved_place hplace with ⟨rfl, htowards⟩ | ⟨hother, hplace⟩
          · cases htowards
            exact ⟨hpath, Function.update_self _ _ _⟩
          · -- The lock that another one holds is on this file.
            obtain ⟨hpath', hlock⟩ := h.running other m_fd' hplace
            have hfile : m_fd.file = m_fd'.file := Option.some.inj (hpath.symm.trans hpath')
            rw [hfile, hlock] at hfree
            rcases hfree with hnone | hsame
            · cases hnone
            · exact absurd (Option.some.inj hsame) hother }
  · exact h.moved fun _ => ⟨nofun, nofun⟩

/-- The only process that runs unlinks the path, and no process is in front of its lock. -/
theorem Guarded.destroy (h : s.Guarded) (running : s.Running process)
    (calm : ∀ other, ¬ s.Opens other) (path : Option Nat) (kept : path = none ∨ path = s.path) :
    ({ s with path := path } |>.moved process .ending).Guarded where
  path := by
    intro file hfile
    rcases kept with hnone | hsame
    · exact absurd (hfile.symm.trans hnone) nofun
    · exact h.path file (hsame.symm.trans hfile)
  fresh := h.fresh
  opened := by
    intro other m_fd hplace
    rcases moved_place hplace with ⟨-, htowards⟩ | ⟨-, hplace⟩
    · cases htowards
    · exact absurd ⟨m_fd, hplace⟩ (calm other)
  running := by
    intro other m_fd hplace
    rcases moved_place hplace with ⟨-, htowards⟩ | ⟨hother, hplace⟩
    · cases htowards
    · exact absurd (h.exclusive ⟨m_fd, hplace⟩ running) hother

theorem Guarded.exited (h : s.Guarded) : (s.exited process).Guarded where
  path := h.path
  fresh := by
    intro file hfile
    change (if s.lock file = some process then none else s.lock file) = none
    rw [h.fresh file hfile]
    rfl
  opened := by
    intro other m_fd hplace
    rcases moved_place hplace with ⟨-, htowards⟩ | ⟨-, hplace⟩
    · cases htowards
    · exact h.opened other m_fd hplace
  running := by
    intro other m_fd hplace
    rcases moved_place hplace with ⟨-, htowards⟩ | ⟨hother, hplace⟩
    · cases htowards
    · obtain ⟨hpath, hlock⟩ := h.running other m_fd hplace
      refine ⟨hpath, ?_⟩
      change (if s.lock m_fd.file = some process then none else s.lock m_fd.file) = some other
      rw [hlock, if_neg fun hsame => hother (Option.some.inj hsame)]

theorem Guarded.step {label : InstanceStep π} (h : s.Guarded) (calm : s.Calm label)
    (hstep : s.step label = some next) : next.Guarded := by
  cases label with
  | opens process fd =>
    simp only [Instances.step] at hstep
    split at hstep
    · cases fd with
      | some fd =>
        cases hstep
        exact h.openFile fd
      | none =>
        cases hstep
        exact h.moved fun _ => ⟨nofun, nofun⟩
    · cases hstep
  | lock process =>
    simp only [Instances.step] at hstep
    split at hstep
    · rename_i m_fd hplace
      cases hstep
      exact h.setLock hplace
    · cases hstep
      exact h.moved fun _ => ⟨nofun, nofun⟩
    · cases hstep
  | destroy process =>
    simp only [Instances.step] at hstep
    split at hstep
    · rename_i m_fd hplace
      cases hstep
      refine h.destroy ⟨m_fd, hplace⟩ (calm process rfl) _ ?_
      split
      · exact .inl rfl
      · exact .inr rfl
    · cases hstep
  | exit process =>
    simp only [Instances.step] at hstep
    split at hstep
    · cases hstep
    · cases hstep
      exact h.exited

theorem step_destroy {m_fd : OpenedFile} (running : s.place process = .running m_fd)
    (linked : 0 < m_fd.fd) :
    s.step (.destroy process) = some ({ s with path := none } |>.moved process .ending) := by
  simp only [Instances.step, running, if_pos linked]

theorem step_exit {place : InstancePlace} (here : s.place process = place)
    (lives : place ≠ .exited) : s.step (.exit process) = some (s.exited process) := by
  simp only [Instances.step]
  split
  · rename_i hexited
    exact absurd (here.symm.trans hexited) lives
  · rfl

theorem step_lock {m_fd : OpenedFile} (opened : s.place process = .opened (some m_fd))
    (free : s.lock m_fd.file = none) :
    s.step (.lock process) = some
      ({ s with lock := Function.update s.lock m_fd.file (some process) }
        |>.moved process (.running m_fd)) := by
  simp only [Instances.step, opened, Instances.setLock, free, true_or, if_true]

theorem step_opens (starting : s.place process = .starting) (unlinked : s.path = none) (fd : Nat) :
    s.step (.opens process (some fd)) = some
      ({ s with path := some s.files, files := s.files + 1 }
        |>.moved process (.opened (some ⟨fd, s.files⟩))) := by
  simp only [Instances.step, starting, Instances.openFile, unlinked]

@[simp] theorem moved_place_self (place : InstancePlace) :
    (s.moved process place).place process = place := Function.update_self _ _ _

theorem moved_place_of_ne {other : π} (place : InstancePlace) (h : other ≠ process) :
    (s.moved process place).place other = s.place other := Function.update_of_ne h _ _

/-- The steps by which two processes come to run: the first one ends, the one in front of its lock
gets it on the file that has lost its path, and a third one makes a new file. -/
def race (process other third : π) : List (InstanceStep π) :=
  [.destroy process, .exit process, .lock other, .opens third (some 3), .lock third]

theorem Guarded.race (h : s.Guarded) {other third : π} {m_fd : OpenedFile}
    (running : s.place process = .running m_fd) (linked : 0 < m_fd.fd) (opens : s.Opens other)
    (starting : s.place third = .starting) :
    ∃ next, run Instances.step s (Instances.race process other third) = some next ∧
      next.Running other ∧ next.Running third ∧ other ≠ third := by
  obtain ⟨m_fd', hopened⟩ := opens
  obtain ⟨hpath, hlock⟩ := h.running _ _ running
  have hfile : m_fd'.file = m_fd.file :=
    Option.some.inj ((h.opened _ _ hopened).symm.trans hpath)
  have hother : other ≠ process := by
    rintro rfl
    exact absurd (hopened.symm.trans running) nofun
  have hthird : third ≠ process := by
    rintro rfl
    exact absurd (starting.symm.trans running) nofun
  have hdistinct : third ≠ other := by
    rintro rfl
    exact absurd (hopened.symm.trans starting) nofun
  -- The lock of the first process is released on the file that it has unlinked.
  obtain ⟨left, hleft⟩ : ∃ left, left = (({ s with path := none } : Instances π).moved process
    .ending).exited process := ⟨_, rfl⟩
  have hleftOther : left.place other = .opened (some m_fd') := by
    rw [hleft, Instances.exited, moved_place_of_ne _ hother, moved_place_of_ne _ hother]
    exact hopened
  have hleftThird : left.place third = .starting := by
    rw [hleft, Instances.exited, moved_place_of_ne _ hthird, moved_place_of_ne _ hthird]
    exact starting
  have hleftLock : left.lock m_fd'.file = none := by
    subst hleft
    rw [hfile]
    exact if_pos hlock
  obtain ⟨locked, hlocked⟩ : ∃ locked, locked = (({ left with
    lock := Function.update left.lock m_fd'.file (some other) } : Instances π).moved other
    (.running m_fd')) := ⟨_, rfl⟩
  have hlockedThird : locked.place third = .starting := by
    rw [hlocked, moved_place_of_ne _ hdistinct]
    exact hleftThird
  have hfresh : locked.lock locked.files = none := by
    have hnew : s.files ≠ m_fd'.file := by
      rw [hfile]
      exact (Nat.ne_of_lt (h.path _ hpath)).symm
    subst hlocked hleft
    refine (Function.update_of_ne hnew _ _).trans ?_
    change (if s.lock s.files = some process then none else s.lock s.files) = none
    rw [h.fresh s.files (Nat.le_refl _)]
    rfl
  have hunlinked : locked.path = none := by
    subst hlocked hleft
    rfl
  obtain ⟨made, hmade⟩ : ∃ made, made = (({ locked with
    path := some locked.files, files := locked.files + 1 } : Instances π).moved third
    (.opened (some ⟨3, locked.files⟩))) := ⟨_, rfl⟩
  have hmadeThird : made.place third = .opened (some ⟨3, locked.files⟩) := by
    rw [hmade, moved_place_self]
  have hmadeOther : made.place other = .running m_fd' := by
    rw [hmade, moved_place_of_ne _ hdistinct.symm]
    change locked.place other = _
    rw [hlocked, moved_place_self]
  have hmadeLock : made.lock locked.files = none := by
    rw [hmade]
    exact hfresh
  refine ⟨({ made with
    lock := Function.update made.lock locked.files (some third) } : Instances π).moved third
    (.running ⟨3, locked.files⟩), ?_, ⟨m_fd', ?_⟩, ⟨_, moved_place_self _⟩, hdistinct.symm⟩
  · rw [Instances.race, run_cons, step_destroy running linked, Option.bind_some, run_cons,
      step_exit (moved_place_self .ending) nofun, Option.bind_some, ← hleft, run_cons,
      step_lock hleftOther hleftLock, Option.bind_some, ← hlocked, run_cons,
      step_opens hlockedThird hunlinked, Option.bind_some, ← hmade, run_cons,
      step_lock hmadeThird hmadeLock]
    rfl
  · rw [moved_place_of_ne _ hdistinct.symm]
    exact hmadeOther

/-- In every run in which nobody unlinks the path while another process stands in front of its
lock, at most one process runs. Where it does happen, two processes can come to run. -/
theorem one_instance (labels : List (InstanceStep π)) (s : Instances π)
    (h : run Instances.step {} labels = some s) (calm : Along Instances.step Calm {} labels) :
    (∀ process other, s.Running process → s.Running other → process = other) ∧
      ∀ process other third m_fd, s.place process = .running m_fd → 0 < m_fd.fd → s.Opens other →
        s.place third = .starting →
        ∃ next, run Instances.step s (Instances.race process other third) = some next ∧
          next.Running other ∧ next.Running third ∧ other ≠ third := by
  have hguarded : s.Guarded := run_induction_along (fun _ s => s.Guarded) guarded_initial
    (fun _ _ _ _ _ hguarded hcalm hstep => hguarded.step hcalm hstep) h calm
  refine ⟨fun process other => hguarded.exclusive, ?_⟩
  intro process other third m_fd running linked opens starting
  exact hguarded.race running linked opens starting

/-- The first process has ended, a second one runs, and a third one is in front of its lock. -/
def threeStarts : List (InstanceStep Nat) :=
  [.opens 0 (some 3), .lock 0, .destroy 0, .opens 1 (some 3), .exit 0, .lock 1, .opens 2 (some 3)]

theorem one_instance_threeStarts :
    ∃ s, run Instances.step {} threeStarts = some s ∧ Along Instances.step Calm {} threeStarts ∧
      (∀ process other, s.Running process → s.Running other → process = other) ∧
      ∀ process other third m_fd, s.place process = .running m_fd → 0 < m_fd.fd →
        s.Opens other → s.place third = .starting →
        ∃ next, run Instances.step s (Instances.race process other third) = some next ∧
          next.Running other ∧ next.Running third ∧ other ≠ third := by
  obtain ⟨s, hs⟩ : ∃ s, run Instances.step {} threeStarts = some s := ⟨_, rfl⟩
  -- When the first process unlinks the path, nobody else has started.
  have halone : ∀ other, ¬ Opens (((({} : Instances Nat).openFile 0 3).setLock 0 ⟨3, 0⟩)) other := by
    rintro other ⟨m_fd, hplace⟩
    rcases moved_place hplace with ⟨-, htowards⟩ | ⟨hother, hplace⟩
    · cases htowards
    · rcases moved_place hplace with ⟨hsame, -⟩ | ⟨-, hplace⟩
      · exact hother hsame
      · cases hplace
  have hcalm : Along Instances.step Calm {} threeStarts := by
    refine along_cons rfl nofun (along_cons rfl nofun (along_cons rfl (fun _ _ => halone) ?_))
    exact along_cons rfl nofun (along_cons rfl nofun (along_cons rfl nofun
      (along_cons rfl nofun trivial)))
  exact ⟨s, hs, hcalm, one_instance threeStarts s hs hcalm⟩

end Steps

end Instances

end LiteExchange.Core
