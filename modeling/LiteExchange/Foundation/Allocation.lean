import Mathlib.Algebra.Order.BigOperators.Group.List
import Mathlib.Algebra.Order.Group.MinMax
import Mathlib.Data.List.Zip

/-!
# An amount shared out over capacities in order

Each capacity takes what it holds, or what is left of the amount. Together the shares
are the smaller of the amount and all capacities, and a share that does not fill its
capacity uses the amount up.
-/

namespace Foundation.Allocation

variable {α : Type*} [AddCommGroup α] [LinearOrder α]

/-- What each capacity takes. -/
def shares : α → List α → List α
  | _, [] => []
  | amount, capacity :: rest =>
    min capacity amount :: shares (amount - min capacity amount) rest

theorem shares_length (amount : α) (capacities : List α) :
    (shares amount capacities).length = capacities.length := by
  induction capacities generalizing amount with
  | nil => rfl
  | cons capacity rest ih => rw [shares, List.length_cons, ih, List.length_cons]

/-- The shares of nothing are nothing. -/
theorem shares_zero {capacities : List α} (nonneg : ∀ capacity ∈ capacities, 0 ≤ capacity) :
    ∀ share ∈ shares 0 capacities, share = 0 := by
  induction capacities with
  | nil => simp [shares]
  | cons capacity rest ih =>
    obtain ⟨hfirst, hrest⟩ := List.forall_mem_cons.mp nonneg
    have hnone : min capacity 0 = 0 := min_eq_right hfirst
    rw [shares, hnone, sub_zero]
    exact List.forall_mem_cons.mpr ⟨rfl, ih hrest⟩

variable [IsOrderedAddMonoid α]

theorem shares_nonneg {amount : α} {capacities : List α} (some : 0 ≤ amount)
    (nonneg : ∀ capacity ∈ capacities, 0 ≤ capacity) :
    ∀ share ∈ shares amount capacities, 0 ≤ share := by
  induction capacities generalizing amount with
  | nil => simp [shares]
  | cons capacity rest ih =>
    obtain ⟨hfirst, hrest⟩ := List.forall_mem_cons.mp nonneg
    rw [shares]
    exact List.forall_mem_cons.mpr ⟨le_min hfirst some, ih (sub_nonneg.mpr (min_le_right _ _)) hrest⟩

/-- An amount that enough fills every capacity. -/
theorem shares_of_sum_le {amount : α} {capacities : List α}
    (nonneg : ∀ capacity ∈ capacities, 0 ≤ capacity) (enough : capacities.sum ≤ amount) :
    shares amount capacities = capacities := by
  induction capacities generalizing amount with
  | nil => rfl
  | cons capacity rest ih =>
    obtain ⟨-, hrest⟩ := List.forall_mem_cons.mp nonneg
    rw [List.sum_cons] at enough
    have hfits : capacity ≤ amount :=
      le_trans (le_add_of_nonneg_right (List.sum_nonneg hrest)) enough
    rw [shares, min_eq_left hfits, ih hrest (le_sub_iff_add_le'.mpr enough)]

/-- All shares together. -/
theorem sum_shares {amount : α} {capacities : List α} (some : 0 ≤ amount)
    (nonneg : ∀ capacity ∈ capacities, 0 ≤ capacity) :
    (shares amount capacities).sum = min amount capacities.sum := by
  induction capacities generalizing amount with
  | nil => simp [shares, some]
  | cons capacity rest ih =>
    obtain ⟨hfirst, hrest⟩ := List.forall_mem_cons.mp nonneg
    have hsum := List.sum_nonneg hrest
    rw [shares, List.sum_cons, List.sum_cons]
    rcases le_total capacity amount with hless | hmore
    · rw [min_eq_left hless, ih (sub_nonneg.mpr hless) hrest, ← min_add_add_left,
        add_sub_cancel]
    · rw [min_eq_right hmore, sub_self, ih (le_refl 0) hrest, min_eq_left hsum, add_zero,
        min_eq_left (le_add_of_le_of_nonneg hmore hsum)]

end Foundation.Allocation
