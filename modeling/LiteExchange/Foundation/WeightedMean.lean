import Mathlib.Algebra.BigOperators.Ring.List
import Mathlib.Algebra.Order.BigOperators.Group.List
import Mathlib.Algebra.Order.Field.Basic
import Mathlib.Data.Int.Cast.Lemmas
import Mathlib.Data.List.Induction

/-!
# A mean that is kept up to date

A mean and the weight behind it, updated with one sample after the other: the mean times its
weight is the sum of what the samples contribute, and the mean stays within every bound of
the samples. Only the weight that is there at the start has to be zero.
-/

namespace Foundation.WeightedMean

variable {K : Type*} [Field K]

/-- A mean of samples with integer weights. -/
structure Mean (K : Type*) where
  value : K
  weight : ℤ

/-- The mean with one more sample. -/
def Mean.add (mean : Mean K) (sample : K × ℤ) : Mean K where
  value := (mean.value * mean.weight + sample.1 * sample.2) / (sample.2 + mean.weight)
  weight := mean.weight + sample.2

/-- What the samples contribute. -/
def volume (samples : List (K × ℤ)) : K := (samples.map fun sample => sample.1 * (sample.2 : K)).sum

theorem weight_foldl (start : Mean K) (samples : List (K × ℤ)) :
    (samples.foldl Mean.add start).weight = start.weight + (samples.map Prod.snd).sum := by
  induction samples using List.reverseRecOn with
  | nil => simp
  | append_singleton samples sample ih =>
    rw [List.foldl_append, List.map_append, List.sum_append, ← add_assoc, ← ih]
    simp [Mean.add]

theorem volume_append (front back : List (K × ℤ)) :
    volume (front ++ back) = volume front + volume back := by
  simp [volume]

variable {start : Mean K} {samples : List (K × ℤ)} {limit : K}

theorem volume_constant (constant : ∀ sample ∈ samples, sample.1 = limit) :
    volume samples = limit * ((samples.map Prod.snd).sum : ℤ) := by
  induction samples with
  | nil => simp [volume]
  | cons sample samples ih =>
    obtain ⟨hvalue, hrest⟩ := List.forall_mem_cons.mp constant
    have hvolume := ih hrest
    simp only [volume, List.map_cons, List.sum_cons, Int.cast_add, mul_add, hvalue] at hvolume ⊢
    rw [hvolume]

theorem weight_nonneg (empty : start.weight = 0) (positive : ∀ sample ∈ samples, 0 < sample.2) :
    0 ≤ (samples.foldl Mean.add start).weight := by
  rw [weight_foldl, empty, zero_add]
  apply List.sum_nonneg
  intro weight hmem
  obtain ⟨sample, hsample, rfl⟩ := List.mem_map.mp hmem
  exact (positive sample hsample).le

theorem weight_pos (empty : start.weight = 0) (positive : ∀ sample ∈ samples, 0 < sample.2)
    (nonempty : samples ≠ []) : 0 < (samples.foldl Mean.add start).weight := by
  rw [weight_foldl, empty, zero_add]
  apply List.sum_pos
  · intro weight hmem
    obtain ⟨sample, hsample, rfl⟩ := List.mem_map.mp hmem
    exact positive sample hsample
  · simpa using nonempty

section Positive

variable [LinearOrder K] [IsStrictOrderedRing K]

/-- The mean times its weight is the volume of the samples. -/
theorem value_mul_weight (empty : start.weight = 0) (positive : ∀ sample ∈ samples, 0 < sample.2) :
    (samples.foldl Mean.add start).value * (samples.foldl Mean.add start).weight =
      volume samples := by
  induction samples using List.reverseRecOn with
  | nil => simp [volume, empty]
  | append_singleton samples sample ih =>
    have hbefore : ∀ other ∈ samples, 0 < other.2 :=
      fun other hmem => positive other (List.mem_append_left _ hmem)
    have hlast : 0 < sample.2 := positive sample (by simp)
    have hweight := weight_nonneg empty hbefore
    have hpositive : (0 : K) < (sample.2 : K) + ((samples.foldl Mean.add start).weight : K) := by
      exact_mod_cast Int.add_pos_of_pos_of_nonneg hlast hweight
    have hsample : volume [sample] = sample.1 * sample.2 := by simp [volume]
    rw [List.foldl_append, List.foldl_cons, List.foldl_nil, volume_append, hsample, ← ih hbefore,
      Mean.add, add_comm (samples.foldl Mean.add start).weight, Int.cast_add]
    exact div_mul_cancel₀ _ hpositive.ne'

theorem volume_le (positive : ∀ sample ∈ samples, 0 < sample.2)
    (bounded : ∀ sample ∈ samples, sample.1 ≤ limit) :
    volume samples ≤ limit * ((samples.map Prod.snd).sum : ℤ) := by
  induction samples with
  | nil => simp [volume]
  | cons sample samples ih =>
    obtain ⟨hpositive, hpositives⟩ := List.forall_mem_cons.mp positive
    obtain ⟨hbounded, hboundeds⟩ := List.forall_mem_cons.mp bounded
    have hrest := ih hpositives hboundeds
    have hsample : sample.1 * (sample.2 : K) ≤ limit * sample.2 :=
      mul_le_mul_of_nonneg_right hbounded (by exact_mod_cast hpositive.le)
    simp only [volume, List.map_cons, List.sum_cons, Int.cast_add, mul_add] at hrest ⊢
    exact add_le_add hsample hrest

/-- The mean is within a bound of the samples. -/
theorem value_le (empty : start.weight = 0) (positive : ∀ sample ∈ samples, 0 < sample.2)
    (nonempty : samples ≠ []) (bounded : ∀ sample ∈ samples, sample.1 ≤ limit) :
    (samples.foldl Mean.add start).value ≤ limit := by
  have hweight := weight_pos empty positive nonempty
  have hvolume := volume_le positive bounded
  rw [← value_mul_weight empty positive] at hvolume
  have hsum : (samples.map Prod.snd).sum = (samples.foldl Mean.add start).weight := by
    rw [weight_foldl, empty, zero_add]
  rw [hsum] at hvolume
  exact le_of_mul_le_mul_right hvolume (by exact_mod_cast hweight)

/-- Samples of one value have it as their mean. -/
theorem value_eq (empty : start.weight = 0) (positive : ∀ sample ∈ samples, 0 < sample.2)
    (nonempty : samples ≠ []) (constant : ∀ sample ∈ samples, sample.1 = limit) :
    (samples.foldl Mean.add start).value = limit := by
  have hweight : ((samples.foldl Mean.add start).weight : K) ≠ 0 :=
    Int.cast_ne_zero.mpr (weight_pos empty positive nonempty).ne'
  have hvolume : volume samples = limit * (samples.foldl Mean.add start).weight := by
    rw [volume_constant constant, weight_foldl, empty, zero_add]
  rw [← value_mul_weight empty positive] at hvolume
  exact mul_right_cancel₀ hweight hvolume

end Positive

end Foundation.WeightedMean
