import Mathlib.Data.List.Count
import Mathlib.Data.List.Perm.Basic

/-!
# Lists that are known key by key

Where a sequence is split over several queues, by a key of its elements, only the order of the
elements with one key can be read back. That determines the sequence up to a permutation, and
the sequence itself where the keys are known.
-/

namespace Foundation.ByKey

variable {ε κ α : Type*} [DecidableEq κ] [DecidableEq α]

/-- Lists of pairs that have the same values for each key, in the same order. -/
def SameByKey (pairs others : List (κ × α)) : Prop :=
  ∀ key, (pairs.filter fun pair => pair.1 == key).map Prod.snd =
    (others.filter fun pair => pair.1 == key).map Prod.snd

theorem SameByKey.perm {pairs others : List (κ × α)} (h : SameByKey pairs others) :
    pairs.Perm others := by
  have hcount : ∀ (list : List (κ × α)) (pair : κ × α), list.count pair =
      ((list.filter fun other => other.1 == pair.1).map Prod.snd).count pair.2 := by
    intro list pair
    induction list with
    | nil => rfl
    | cons first list ih =>
      rw [List.count_cons, ih, List.filter_cons]
      by_cases hkey : first.1 = pair.1
      · have hsame : (first == pair) = (first.2 == pair.2) := by
          rw [Bool.eq_iff_iff, beq_iff_eq, beq_iff_eq]
          exact ⟨fun heq => by rw [heq], fun heq => Prod.ext hkey heq⟩
        rw [if_pos (beq_iff_eq.mpr hkey), List.map_cons, List.count_cons, hsame]
      · have hother : (first == pair) = false := by
          rw [beq_eq_false_iff_ne]
          exact fun heq => hkey (by rw [heq])
        rw [hother, if_neg Bool.false_ne_true, Nat.add_zero, if_neg (by rwa [beq_iff_eq])]
  rw [List.perm_iff_count]
  intro pair
  rw [hcount pairs, hcount others, h]

/-- Two ways to key the elements of a list that give the same values by key: if the one keys
them all and the keys agree, they are the same on each element. -/
theorem SameByKey.pointwise {elements : List ε} {first second : ε → Option (κ × α)}
    (h : SameByKey (elements.filterMap first) (elements.filterMap second))
    (full : ∀ element ∈ elements, (first element).isSome = true)
    (keys : ∀ element ∈ elements, ∀ pair other, first element = some pair →
      second element = some other → pair.1 = other.1) :
    ∀ element ∈ elements, first element = second element := by
  have hfull : ∀ element ∈ elements, (second element).isSome = true := by
    have hlength := h.perm.length_eq
    rw [List.length_filterMap_eq_countP, List.length_filterMap_eq_countP,
      List.countP_eq_length.mpr full] at hlength
    exact List.countP_eq_length.mp hlength.symm
  induction elements with
  | nil => exact fun _ hmem => absurd hmem List.not_mem_nil
  | cons element elements ih =>
    obtain ⟨hfirst, hfulls⟩ := List.forall_mem_cons.mp full
    obtain ⟨hsecond, hseconds⟩ := List.forall_mem_cons.mp hfull
    obtain ⟨⟨key, value⟩, hpair⟩ := Option.isSome_iff_exists.mp hfirst
    obtain ⟨⟨otherKey, otherValue⟩, hother⟩ := Option.isSome_iff_exists.mp hsecond
    obtain rfl : key = otherKey := keys element List.mem_cons_self _ _ hpair hother
    rw [List.filterMap_cons_some hpair, List.filterMap_cons_some hother] at h
    have hhead : value = otherValue := by
      have hkey := h key
      simp only [List.filter_cons, beq_self_eq_true, if_true, List.map_cons,
        List.cons.injEq] at hkey
      exact hkey.1
    have htail : SameByKey (elements.filterMap first) (elements.filterMap second) := by
      intro other
      have hkey := h other
      simp only [List.filter_cons] at hkey
      split at hkey
      · exact (List.cons.inj hkey).2
      · exact hkey
    refine List.forall_mem_cons.mpr ⟨?_, ih htail hfulls (fun later hlater =>
      keys later (List.mem_cons_of_mem element hlater)) hseconds⟩
    rw [hpair, hother, hhead]

end Foundation.ByKey
