import Mathlib.Data.List.Basic

/-!
# Tables of slots

A table keeps its entries in slots with a flag for each. A new entry takes the first slot
without the flag, or a new slot behind the last one, and an entry that goes away leaves its
slot behind. Which slot is taken depends on the flags only, so two tables with the same
flags that see the same additions and removals stay in lockstep.
-/

namespace Foundation.SlotTable

/-- The first slot without the flag; none where all have it. -/
def firstFree (flags : List Bool) : Option Nat := flags.findIdx? fun flag => flag == false

theorem firstFree_some {flags : List Bool} {slot : Nat} (h : firstFree flags = some slot) :
    slot < flags.length ∧ flags[slot]? = some false := by
  obtain ⟨hlt, hflag, -⟩ := List.findIdx?_eq_some_iff_getElem.mp h
  refine ⟨hlt, ?_⟩
  rw [List.getElem?_eq_getElem hlt]
  simpa using hflag

theorem getElem?_append_other {α : Type*} {entries : List α} {entry : α} {other : Nat}
    (h : other ≠ entries.length) : (entries ++ [entry])[other]? = entries[other]? := by
  by_cases hlt : other < entries.length
  · exact List.getElem?_append_left hlt
  · rw [List.getElem?_append_right (by omega), List.getElem?_eq_none (by simp; omega),
      List.getElem?_eq_none (by omega)]

/-- Every slot has an entry and a flag. -/
structure Table (α : Type*) where
  entries : List α
  flags : List Bool
  sameLength : entries.length = flags.length

namespace Table

variable {α β : Type*}

/-- The slot is in use. -/
def Live (table : Table α) (slot : Nat) : Prop := table.flags[slot]? = some true

/-- The slot that the next entry takes. -/
def nextSlot (table : Table α) : Nat := (firstFree table.flags).getD table.flags.length

def add (table : Table α) (entry : α) : Table α :=
  match firstFree table.flags with
  | none => ⟨table.entries ++ [entry], table.flags ++ [true], by simp [table.sameLength]⟩
  | some slot => ⟨table.entries.set slot entry, table.flags.set slot true,
      by simp [table.sameLength]⟩

def remove (table : Table α) (slot : Nat) : Table α where
  entries := table.entries
  flags := table.flags.set slot false
  sameLength := by rw [List.length_set, table.sameLength]

/-- A live slot has an entry. -/
theorem Live.entry {table : Table α} {slot : Nat} (live : table.Live slot) :
    ∃ entry, table.entries[slot]? = some entry := by
  obtain ⟨hlt, -⟩ := List.getElem?_eq_some_iff.mp live
  exact ⟨_, List.getElem?_eq_getElem (table.sameLength ▸ hlt)⟩

theorem nextSlot_congr {first : Table α} {second : Table β} (h : first.flags = second.flags) :
    first.nextSlot = second.nextSlot := by
  unfold nextSlot
  rw [h]

theorem nextSlot_free (table : Table α) : ¬ table.Live table.nextSlot := by
  unfold Live nextSlot
  cases hfree : firstFree table.flags with
  | none => simp
  | some slot => simp [(firstFree_some hfree).2]

/-- What an addition does to the slot it takes, and to the others. -/
theorem add_nextSlot (table : Table α) (entry : α) :
    (table.add entry).entries[table.nextSlot]? = some entry ∧
      (table.add entry).Live table.nextSlot := by
  unfold Live nextSlot add
  cases hfree : firstFree table.flags with
  | none =>
    constructor
    · simp [← table.sameLength]
    · simp
  | some slot =>
    obtain ⟨hlt, -⟩ := firstFree_some hfree
    have hentry : slot < table.entries.length := table.sameLength ▸ hlt
    exact ⟨List.getElem?_set_self hentry, List.getElem?_set_self hlt⟩

theorem add_other (table : Table α) (entry : α) {other : Nat} (h : other ≠ table.nextSlot) :
    (table.add entry).entries[other]? = table.entries[other]? ∧
      (table.add entry).flags[other]? = table.flags[other]? := by
  unfold nextSlot at h
  unfold add
  cases hfree : firstFree table.flags with
  | none =>
    rw [hfree] at h
    exact ⟨getElem?_append_other (table.sameLength ▸ h), getElem?_append_other h⟩
  | some slot =>
    rw [hfree] at h
    exact ⟨List.getElem?_set_ne (Ne.symm h), List.getElem?_set_ne (Ne.symm h)⟩

/-- An addition never takes the slot of a live entry. -/
theorem add_live {table : Table α} {slot : Nat} (live : table.Live slot) (entry : α) :
    slot ≠ table.nextSlot ∧ (table.add entry).Live slot ∧
      (table.add entry).entries[slot]? = table.entries[slot]? := by
  have hother : slot ≠ table.nextSlot := fun heq => table.nextSlot_free (heq ▸ live)
  obtain ⟨hentry, hflag⟩ := table.add_other entry hother
  exact ⟨hother, hflag.trans live, hentry⟩

theorem add_eq (table : Table α) (entry : α) :
    (table.add entry).entries = (match firstFree table.flags with
      | none => table.entries ++ [entry]
      | some slot => table.entries.set slot entry) ∧
    (table.add entry).flags = (match firstFree table.flags with
      | none => table.flags ++ [true]
      | some slot => table.flags.set slot true) := by
  unfold add
  cases firstFree table.flags with
  | none => exact ⟨rfl, rfl⟩
  | some slot => exact ⟨rfl, rfl⟩

/-- No entry stands in two slots. -/
def Distinct (table : Table α) : Prop :=
  ∀ (slot other : Nat) a, table.entries[slot]? = some a → table.entries[other]? = some a →
    slot = other

/-- A new entry keeps the entries distinct. -/
theorem Distinct.add {table : Table α} (distinct : table.Distinct) {entry : α}
    (new : entry ∉ table.entries) : (table.add entry).Distinct := by
  have hnew : ∀ slot : Nat,
      (table.add entry).entries[slot]? = some entry → slot = table.nextSlot := by
    intro slot hslot
    by_contra hother
    rw [(table.add_other entry hother).1] at hslot
    exact new (List.mem_of_getElem? hslot)
  intro slot other a hslot hother
  by_cases hentry : a = entry
  · subst hentry
    rw [hnew slot hslot, hnew other hother]
  · have hold : ∀ i : Nat, (table.add entry).entries[i]? = some a → table.entries[i]? = some a := by
      intro i hi
      by_cases hnext : i = table.nextSlot
      · rw [hnext, (table.add_nextSlot entry).1, Option.some.injEq] at hi
        exact absurd hi.symm hentry
      · rwa [(table.add_other entry hnext).1] at hi
    exact distinct slot other a (hold slot hslot) (hold other hother)

/-- The entries after an addition are the new one and old ones. -/
theorem mem_add {table : Table α} {entry a : α} (h : a ∈ (table.add entry).entries) :
    a = entry ∨ a ∈ table.entries := by
  rw [(table.add_eq entry).1] at h
  cases hfree : firstFree table.flags with
  | none =>
    rw [hfree] at h
    rcases List.mem_append.mp h with hold | hnew
    · exact Or.inr hold
    · exact Or.inl (List.mem_singleton.mp hnew)
  | some slot =>
    rw [hfree] at h
    rcases List.mem_or_eq_of_mem_set h with hold | hnew
    · exact Or.inr hold
    · exact Or.inl hnew

/-- Changing the entry that was added is adding the changed entry. -/
theorem set_add (table : Table α) (entry changed : α) :
    (table.add entry).entries.set table.nextSlot changed = (table.add changed).entries ∧
      (table.add entry).flags = (table.add changed).flags := by
  rw [(table.add_eq entry).1, (table.add_eq entry).2, (table.add_eq changed).1,
    (table.add_eq changed).2]
  refine ⟨?_, rfl⟩
  unfold nextSlot
  cases firstFree table.flags with
  | none => simp [← table.sameLength]
  | some slot => exact List.set_set ..

theorem remove_other (table : Table α) {slot other : Nat} (h : other ≠ slot) :
    (table.remove slot).flags[other]? = table.flags[other]? := List.getElem?_set_ne (Ne.symm h)

/-- The entry stands in a live slot. -/
def Holds (table : Table α) (slot : Nat) (a : α) : Prop :=
  table.Live slot ∧ table.entries[slot]? = some a

theorem holds_add {table : Table α} {entry a : α} {slot : Nat} :
    (table.add entry).Holds slot a ↔ table.Holds slot a ∨ slot = table.nextSlot ∧ a = entry := by
  by_cases hslot : slot = table.nextSlot
  · obtain ⟨hentry, hlive⟩ := table.add_nextSlot entry
    have hfree := table.nextSlot_free
    subst hslot
    simp only [Holds, hentry, hlive, hfree, true_and, false_and, false_or, Option.some.injEq]
    exact eq_comm
  · obtain ⟨hentry, hflag⟩ := table.add_other entry hslot
    unfold Holds Live
    rw [hentry, hflag]
    simp only [hslot, false_and, or_false]

theorem holds_remove {table : Table α} {a : α} {slot removed : Nat} :
    (table.remove removed).Holds slot a ↔ table.Holds slot a ∧ slot ≠ removed := by
  by_cases hslot : slot = removed
  · subst hslot
    have hflag : ¬ (table.remove slot).Live slot := by
      unfold Live remove
      by_cases hlt : slot < table.flags.length
      · rw [List.getElem?_set_self hlt]
        simp
      · rw [List.getElem?_eq_none (by rw [List.length_set]; omega)]
        simp
    simp only [Holds, hflag, false_and, ne_eq, not_true_eq_false, and_false]
  · unfold Holds Live
    rw [table.remove_other hslot]
    simp only [remove, hslot, ne_eq, not_false_eq_true, and_true]

/-- Two tables with the same flags, whose entries in each slot belong together. -/
structure Lockstep (linked : α → β → Prop) (first : Table α) (second : Table β) : Prop where
  flags : first.flags = second.flags
  entries : ∀ (slot : Nat) a b, first.entries[slot]? = some a → second.entries[slot]? = some b →
    linked a b

namespace Lockstep

variable {linked : α → β → Prop} {first : Table α} {second : Table β}

theorem nextSlot (h : Lockstep linked first second) : first.nextSlot = second.nextSlot :=
  nextSlot_congr h.flags

/-- Entries that belong together go to the same slot. -/
theorem add (h : Lockstep linked first second) {a : α} {b : β} (hab : linked a b) :
    Lockstep linked (first.add a) (second.add b) where
  flags := by rw [(first.add_eq a).2, (second.add_eq b).2, h.flags]
  entries := by
    intro slot a' b' ha hb
    by_cases hslot : slot = first.nextSlot
    · subst hslot
      rw [(first.add_nextSlot a).1] at ha
      rw [h.nextSlot, (second.add_nextSlot b).1] at hb
      rwa [← Option.some.inj ha, ← Option.some.inj hb]
    · rw [(first.add_other a hslot).1] at ha
      rw [(second.add_other b (h.nextSlot ▸ hslot)).1] at hb
      exact h.entries slot a' b' ha hb

/-- A live slot of the one is a live slot of the other, with an entry in both. -/
theorem live (h : Lockstep linked first second) {slot : Nat} (live : second.Live slot) :
    ∃ a b, first.entries[slot]? = some a ∧ second.entries[slot]? = some b ∧ linked a b := by
  have hfirst : first.Live slot := by
    unfold Live
    rw [h.flags]
    exact live
  obtain ⟨a, ha⟩ := hfirst.entry
  obtain ⟨b, hb⟩ := live.entry
  exact ⟨a, b, ha, hb, h.entries slot a b ha hb⟩

end Lockstep

end Table

end Foundation.SlotTable
