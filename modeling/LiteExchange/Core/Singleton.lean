import LiteExchange.Core.SpinLock

/-!
# The singletons

Source: singleton_dclp.hpp. `getInstance` loads the pointer without the lock; where it is null it
loads it again under the lock, and makes the object if it is still null. An object is numbered by
its `new`, and its constructor returns later. The fences give the loads and stores one order.
-/

namespace LiteExchange.Core

open Foundation.Runs Foundation.CriticalSections

/-- `objects` tells of each `new` whether the constructor has returned; `missed` are the threads
whose first load was null; `returned` are the results of the calls. -/
structure SingletonDCLP (π : Type) where
  instancePointer : Option Nat := none
  objects : List Bool := []
  missed : π → Bool := fun _ => false
  returned : List (Option Nat) := []

structure SingletonRegisters where
  tmp : Option Nat := none
  made : Option Nat := none
  deriving DecidableEq, Repr

inductive SingletonAccess where
  | loadAgain | allocate | construct | store
  deriving DecidableEq, Repr

namespace SingletonDCLP

variable {π : Type} [DecidableEq π]

/-- Behind the second load all accesses are those of the `if`. -/
def access : SingletonAccess → SingletonDCLP π × SingletonRegisters →
    Option (SingletonDCLP π × SingletonRegisters)
  | .loadAgain, (singleton, registers) =>
    some (singleton, { registers with tmp := singleton.instancePointer })
  | .allocate, (singleton, registers) =>
    match registers.tmp with
    | none =>
      some ({ singleton with objects := singleton.objects ++ [false] },
        { registers with made := some singleton.objects.length })
    | some _ => some (singleton, registers)
  | .construct, (singleton, registers) =>
    match registers.made with
    | some object =>
      some ({ singleton with objects := singleton.objects.set object true },
        { registers with tmp := some object })
    | none => some (singleton, registers)
  | .store, (singleton, registers) =>
    match registers.made with
    | some _ => some ({ singleton with instancePointer := registers.tmp }, registers)
    | none => some (singleton, registers)

def getInstanceBody : Body SingletonRegisters SingletonAccess where
  registers := {}
  program := [.loadAgain, .allocate, .construct, .store]

def leave (thread : π) (_ : Body SingletonRegisters SingletonAccess)
    (now : SingletonDCLP π × SingletonRegisters) : SingletonDCLP π :=
  { now.1 with
    missed := Function.update now.1.missed thread false
    returned := now.1.returned ++ [now.2.tmp] }

def ready (singleton : SingletonDCLP π) (thread : π)
    (body : Body SingletonRegisters SingletonAccess) : Bool :=
  singleton.missed thread && body == getInstanceBody

/-- The load in front of the lock, which returns or goes on to the lock. -/
def load (singleton : SingletonDCLP π) (thread : π) : Option (SingletonDCLP π) :=
  if singleton.missed thread then none
  else
    match singleton.instancePointer with
    | some object => some { singleton with returned := singleton.returned ++ [some object] }
    | none => some { singleton with missed := Function.update singleton.missed thread true }

/-- The calls of `getInstance`. -/
def calls (lock : SpinLock) :
    Program π Nat SingletonRegisters SingletonAccess (SingletonDCLP π) π where
  access := access
  leave := leave
  ready := ready
  outside := load
  owner := id
  loop := 0
  tries := lock.tries
  again := lock.again

/-! ## One object -/

/-- The object is there with its pointer, or neither is; only the object is returned. -/
inductive Settled (singleton : SingletonDCLP π) : Prop
  | empty (pointer : singleton.instancePointer = none) (objects : singleton.objects = [])
      (returned : singleton.returned = [])
  | made (pointer : singleton.instancePointer = some 0) (objects : singleton.objects = [true])
      (returned : ∀ result ∈ singleton.returned, result = some 0)

/-- The object is being made, and no call has returned. -/
structure Making (constructed : Bool) (singleton : SingletonDCLP π) : Prop where
  pointer : singleton.instancePointer = none
  objects : singleton.objects = [constructed]
  returned : singleton.returned = []

/-- What holds inside of the section, in front of each of its accesses. -/
inductive Inside : List SingletonAccess → SingletonDCLP π × SingletonRegisters → Prop
  | entered {now : SingletonDCLP π × SingletonRegisters} (settled : Settled now.1)
      (made : now.2.made = none) : Inside [.loadAgain, .allocate, .construct, .store] now
  | loaded {now : SingletonDCLP π × SingletonRegisters} (settled : Settled now.1)
      (made : now.2.made = none) (tmp : now.2.tmp = now.1.instancePointer) :
      Inside [.allocate, .construct, .store] now
  | allocated {now : SingletonDCLP π × SingletonRegisters} (making : Making false now.1)
      (made : now.2.made = some 0) : Inside [.construct, .store] now
  | constructed {now : SingletonDCLP π × SingletonRegisters} (making : Making true now.1)
      (made : now.2.made = some 0) (tmp : now.2.tmp = some 0) : Inside [.store] now
  | found {now : SingletonDCLP π × SingletonRegisters} {rest : List SingletonAccess}
      (settled : Settled now.1) (made : .construct ∈ rest ∨ .store ∈ rest → now.2.made = none)
      (tmp : now.2.tmp = now.1.instancePointer) (there : now.1.instancePointer = some 0)
      (behind : .loadAgain ∉ rest ∧ .allocate ∉ rest) : Inside rest now

section Steps

variable {singleton next : SingletonDCLP π} {registers : SingletonRegisters} {lock : SpinLock}

/-- A load in front of the lock adds the object to what is returned, or nothing. -/
theorem load_cases {thread : π} (h : singleton.load thread = some next) :
    (∃ object, singleton.instancePointer = some object ∧
        next = { singleton with returned := singleton.returned ++ [some object] }) ∨
      singleton.instancePointer = none ∧
        next = { singleton with missed := Function.update singleton.missed thread true } := by
  obtain ⟨-, hload⟩ := Option.ite_none_left_eq_some.mp h
  split at hload
  · rename_i object hobject
    exact .inl ⟨object, hobject, (Option.some.inj hload).symm⟩
  · rename_i hnull
    exact .inr ⟨hnull, (Option.some.inj hload).symm⟩

theorem Settled.load {thread : π} (h : Settled singleton)
    (hload : singleton.load thread = some next) : Settled next := by
  rcases load_cases hload with ⟨object, hobject, rfl⟩ | ⟨hnull, rfl⟩
  · cases h with
    | empty pointer objects returned => exact absurd (hobject.symm.trans pointer) nofun
    | made pointer objects returned =>
      refine .made pointer objects fun result hresult => ?_
      rcases List.mem_append.mp hresult with hold | hnew
      · exact returned result hold
      · rw [List.mem_singleton.mp hnew, ← hobject]
        exact pointer
  · cases h with
    | empty pointer objects returned => exact .empty pointer objects returned
    | made pointer objects returned => exact .made pointer objects returned

theorem Making.load {constructed : Bool} {thread : π} (h : Making constructed singleton)
    (hload : singleton.load thread = some next) : Making constructed next := by
  rcases load_cases hload with ⟨object, hobject, rfl⟩ | ⟨hnull, rfl⟩
  · exact absurd (hobject.symm.trans h.pointer) nofun
  · exact ⟨h.pointer, h.objects, h.returned⟩

/-- A load does not change what was there for the section. -/
theorem load_pointer {thread : π} (hload : singleton.load thread = some next) :
    next.instancePointer = singleton.instancePointer := by
  rcases load_cases hload with ⟨object, hobject, rfl⟩ | ⟨hnull, rfl⟩
  · rfl
  · rfl

theorem Inside.load {thread : π} {rest : List SingletonAccess}
    (h : Inside rest (singleton, registers)) (hload : singleton.load thread = some next) :
    Inside rest (next, registers) := by
  have hpointer := load_pointer hload
  cases h with
  | entered settled made => exact .entered (settled.load hload) made
  | loaded settled made tmp => exact .loaded (settled.load hload) made (tmp.trans hpointer.symm)
  | allocated making made => exact .allocated (making.load hload) made
  | constructed making made tmp => exact .constructed (making.load hload) made tmp
  | found settled made tmp there behind =>
    exact .found (settled.load hload) made (tmp.trans hpointer.symm) (hpointer.trans there) behind

omit [DecidableEq π] in
/-- Each access of the section leads to what holds in front of the next one. -/
theorem Inside.access {access : SingletonAccess} {rest : List SingletonAccess}
    {now after : SingletonDCLP π × SingletonRegisters} (h : Inside (access :: rest) now)
    (haccess : SingletonDCLP.access access now = some after) : Inside rest after := by
  obtain ⟨singleton, registers⟩ := now
  cases h with
  | entered settled made =>
    cases haccess
    exact .loaded settled made rfl
  | loaded settled made tmp =>
    dsimp only at made tmp
    cases settled with
    | empty pointer objects returned =>
      have hnull : registers.tmp = none := tmp.trans pointer
      rw [SingletonDCLP.access, hnull] at haccess
      cases haccess
      exact .allocated ⟨pointer, by rw [objects]; rfl, returned⟩ (by rw [objects]; rfl)
    | made pointer objects returned =>
      have hthere : registers.tmp = some 0 := tmp.trans pointer
      rw [SingletonDCLP.access, hthere] at haccess
      cases haccess
      exact .found (.made pointer objects returned) (fun _ => made) tmp pointer (by decide)
  | allocated making made =>
    dsimp only at made
    rw [SingletonDCLP.access, made] at haccess
    cases haccess
    exact .constructed ⟨making.pointer, by rw [making.objects]; rfl, making.returned⟩ rfl rfl
  | constructed making made tmp =>
    dsimp only at made tmp
    rw [SingletonDCLP.access, made] at haccess
    cases haccess
    refine .found (.made tmp making.objects fun result hresult => ?_) nofun rfl tmp (by decide)
    dsimp only at hresult
    rw [making.returned] at hresult
    cases hresult
  | found settled made tmp there behind =>
    have hbehind : .loadAgain ∉ rest ∧ .allocate ∉ rest :=
      ⟨fun h => behind.1 (List.mem_cons_of_mem _ h), fun h => behind.2 (List.mem_cons_of_mem _ h)⟩
    have hmade : SingletonAccess.construct ∈ rest ∨ .store ∈ rest → registers.made = none := by
      rintro (hconstruct | hstore)
      · exact made (.inl (List.mem_cons_of_mem _ hconstruct))
      · exact made (.inr (List.mem_cons_of_mem _ hstore))
    cases access with
    | loadAgain => exact absurd List.mem_cons_self behind.1
    | allocate => exact absurd List.mem_cons_self behind.2
    | construct =>
      have hnone : registers.made = none := made (.inl List.mem_cons_self)
      rw [SingletonDCLP.access, hnone] at haccess
      cases haccess
      exact .found settled hmade tmp there hbehind
    | store =>
      have hnone : registers.made = none := made (.inr List.mem_cons_self)
      rw [SingletonDCLP.access, hnone] at haccess
      cases haccess
      exact .found settled hmade tmp there hbehind

omit [DecidableEq π] in
theorem access_missed {access : SingletonAccess} {registers' : SingletonRegisters}
    (h : SingletonDCLP.access access (singleton, registers) = some (next, registers')) :
    next.missed = singleton.missed := by
  cases access with
  | loadAgain =>
    cases h
    rfl
  | allocate =>
    simp only [SingletonDCLP.access] at h
    split at h
    · cases h
      rfl
    · cases h
      rfl
  | construct =>
    simp only [SingletonDCLP.access] at h
    split at h
    · cases h
      rfl
    · cases h
      rfl
  | store =>
    simp only [SingletonDCLP.access] at h
    split at h
    · cases h
      rfl
    · cases h
      rfl

theorem private_calls (lock : SpinLock) :
    Program.Private (calls lock : Program π Nat SingletonRegisters SingletonAccess
      (SingletonDCLP π) π) where
  access thread body h := by
    simp only [calls, ready, access_missed h]
  leave thread body _ made now hother := by
    simp [calls, ready, leave, Function.update_of_ne hother]
  outside := by
    intro caller singleton next thread body hother h
    rcases load_cases h with ⟨object, -, rfl⟩ | ⟨-, rfl⟩
    · rfl
    · have hcaller : thread ≠ caller := fun hsame => hother hsame.symm
      simp [calls, ready, Function.update_of_ne hcaller]

theorem resource_calls (lock : SpinLock) :
    Program.Resource (calls lock : Program π Nat SingletonRegisters SingletonAccess
      (SingletonDCLP π) π) Settled (fun _ _ => Inside) where
  enter := by
    intro singleton thread body hsettled hready
    obtain ⟨-, hbody⟩ := Bool.and_eq_true_iff.mp hready
    obtain rfl := beq_iff_eq.mp hbody
    exact .entered hsettled rfl
  access h haccess := h.access haccess
  leave := by
    rintro thread body ⟨singleton, registers⟩ h
    cases h with
    | found settled made tmp there behind =>
      cases settled with
      | empty pointer objects returned => exact absurd (pointer.symm.trans there) nofun
      | made pointer objects returned =>
        refine .made pointer objects fun result hresult => ?_
        rcases List.mem_append.mp hresult with hold | hnew
        · exact returned result hold
        · rw [List.mem_singleton.mp hnew]
          exact tmp.trans there
  outside h happened := h.load happened
  beside h _ happened := h.load happened

/-- In every order of the loads, stores and turns of the lock by any number of threads: `new` is
called once at most, and all calls return the one object, whose constructor has returned. -/
theorem getInstance_returns_one (lock : SpinLock)
    (labels : List (Label π SingletonRegisters SingletonAccess π))
    (s : Guarded π Nat SingletonRegisters SingletonAccess (SingletonDCLP π))
    (h : run (calls lock).step (.initial {}) labels = some s) :
    s.data.objects.length ≤ 1 ∧
      ∀ result ∈ s.data.returned, result = some 0 ∧ s.data.objects[0]? = some true := by
  have hprotected := Program.resource_run (private_calls lock) (resource_calls lock)
    (.empty rfl rfl rfl) h
  have hsettled (hsettled : Settled s.data) : s.data.objects.length ≤ 1 ∧
      ∀ result ∈ s.data.returned, result = some 0 ∧ s.data.objects[0]? = some true := by
    cases hsettled with
    | empty pointer objects returned =>
      rw [objects, returned]
      exact ⟨Nat.zero_le 1, nofun⟩
    | made pointer objects returned =>
      rw [objects]
      exact ⟨Nat.le_refl 1, fun result hresult => ⟨returned result hresult, rfl⟩⟩
  have hmaking {constructed : Bool} (hmaking : Making constructed s.data) :
      s.data.objects.length ≤ 1 ∧
        ∀ result ∈ s.data.returned, result = some 0 ∧ s.data.objects[0]? = some true := by
    rw [hmaking.objects, hmaking.returned]
    exact ⟨Nat.le_refl 1, nofun⟩
  rcases hprotected.cases with ⟨-, hfree⟩ | ⟨thread, body, rest, registers, -, hplace⟩
  · exact hsettled hfree
  · cases hprotected.held _ _ _ _ hplace with
    | entered settled made => exact hsettled settled
    | loaded settled made tmp => exact hsettled settled
    | allocated making made => exact hmaking making
    | constructed making made tmp => exact hmaking making
    | found settled made tmp there behind => exact hsettled settled

/-- Two threads miss the object; the second finds it under the lock, and a third in front of it. -/
def twoMisses : List (Label Nat SingletonRegisters SingletonAccess Nat) :=
  [.outside 0, .outside 1, .lock 0 getInstanceBody, .lock 1 getInstanceBody, .turn 0, .turn 1,
    .access 0, .access 0, .access 0, .access 0, .unlock 0, .turn 1, .access 1, .access 1,
    .outside 2, .access 1, .access 1, .unlock 1]

theorem getInstance_returns_one_twoMisses :
    ∃ s, run (calls {}).step (.initial {}) twoMisses = some s ∧ s.data.returned.length = 3 ∧
      s.data.objects.length ≤ 1 ∧
      ∀ result ∈ s.data.returned, result = some 0 ∧ s.data.objects[0]? = some true := by
  obtain ⟨s, hs, hreturned⟩ : ∃ s, run (calls {}).step (.initial {}) twoMisses = some s ∧
      s.data.returned.length = 3 := ⟨_, rfl, rfl⟩
  exact ⟨s, hs, hreturned, getInstance_returns_one {} twoMisses s hs⟩

end Steps

end SingletonDCLP

end LiteExchange.Core
