import Mathlib.Data.Multiset.OrderedMonoid

/-!
# The members of a store, from one state to a later one

A store holds members that change, leave and arrive. `StemsFrom r after before` pairs
every member of `after` with a member of `before` of its own, such that `r` leads from the
one to the other; the others have left. Members are told apart by this pairing alone, so
equal members are as good as different ones.
-/

namespace Foundation.Lineage

variable {α : Type*} {r : α → α → Prop}

/-- Each member of `after` has its own member of `before` that `r` relates to it. -/
def StemsFrom (r : α → α → Prop) (after before : List α) : Prop :=
  ∃ kept : Multiset α, kept ≤ before ∧ Multiset.Rel r kept after

theorem StemsFrom.trans [IsTrans α r] {first second third : List α}
    (h : StemsFrom r second first) (h' : StemsFrom r third second) : StemsFrom r third first := by
  obtain ⟨kept, hkept, hrel⟩ := h
  obtain ⟨kept', hkept', hrel'⟩ := h'
  -- The members of `second` that stay have their own part of `kept`.
  obtain ⟨left, hsecond⟩ := Multiset.le_iff_exists_add.mp hkept'
  rw [hsecond, Multiset.rel_add_right] at hrel
  obtain ⟨stay, leave, hstay, -, rfl⟩ := hrel
  exact ⟨stay, le_trans (Multiset.le_add_right stay leave) hkept, hstay.trans r hrel'⟩

theorem StemsFrom.append {after after' before before' : List α} (h : StemsFrom r after before)
    (h' : StemsFrom r after' before') : StemsFrom r (after ++ after') (before ++ before') := by
  obtain ⟨kept, hkept, hrel⟩ := h
  obtain ⟨kept', hkept', hrel'⟩ := h'
  refine ⟨kept + kept', ?_, ?_⟩
  · rw [← Multiset.coe_add]
    exact add_le_add hkept hkept'
  · rw [← Multiset.coe_add]
    exact hrel.add hrel'

section Reflexive

variable [Std.Refl r]

theorem stemsFrom_of_subperm {after before : List α} (h : after.Subperm before) :
    StemsFrom r after before :=
  ⟨after, Multiset.coe_le.mpr h, Multiset.rel_refl_of_refl_on fun x _ => refl_of r x⟩

theorem stemsFrom_of_perm {after before : List α} (h : after.Perm before) :
    StemsFrom r after before :=
  stemsFrom_of_subperm h.subperm

theorem stemsFrom_of_sublist {after before : List α} (h : after.Sublist before) :
    StemsFrom r after before :=
  stemsFrom_of_subperm h.subperm

theorem StemsFrom.refl (members : List α) : StemsFrom r members members :=
  stemsFrom_of_perm (List.Perm.refl members)

/-- The first member changes and the others stay. -/
theorem stemsFrom_cons {x y : α} (h : r x y) (members : List α) :
    StemsFrom r (y :: members) (x :: members) := by
  have hfirst : StemsFrom r [y] [x] :=
    ⟨{x}, le_refl _, (Multiset.rel_cons_left.mpr ⟨y, 0, h, Multiset.Rel.zero, rfl⟩)⟩
  exact hfirst.append (StemsFrom.refl members)

/-- Members that are in neither state yet. -/
theorem StemsFrom.arrive {after before : List α} (h : StemsFrom r after before)
    (arrivals : List α) : StemsFrom r (arrivals ++ after) (arrivals ++ before) :=
  (StemsFrom.refl arrivals).append h

end Reflexive

end Foundation.Lineage
