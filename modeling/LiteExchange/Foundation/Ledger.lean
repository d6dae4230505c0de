import Mathlib.Algebra.BigOperators.Group.List.Basic
import Mathlib.Algebra.Group.Hom.Defs
import Mathlib.Data.List.Perm.Basic

/-!
# Balances and entries

A ledger keeps a balance for each account and a log of entries, both under the
accounts' keys, with amounts of any commutative monoid. It is reconciled when the
entries of every set of keys sum to the balances of that set. Opening an account at
zero and posting an amount together with its entry keep it reconciled, in whatever
order the accounts are listed. When an account is the only one in its set, the
entries of the set are its balance.
-/

namespace Foundation.Ledger

variable {κ ι M N : Type*} [AddCommMonoid M] [AddCommMonoid N]

/-- The sum over the postings whose key is in the set. -/
def total (keys : κ → Bool) (postings : List (κ × M)) : M :=
  ((postings.filter fun posting => keys posting.1).map Prod.snd).sum

@[simp] theorem total_nil (keys : κ → Bool) : total keys ([] : List (κ × M)) = 0 := rfl

theorem total_cons (keys : κ → Bool) (key : κ) (amount : M) (postings : List (κ × M)) :
    total keys ((key, amount) :: postings) =
      (if keys key then amount else 0) + total keys postings := by
  unfold total
  by_cases h : keys key = true
  · simp [h]
  · simp [h]

theorem total_append (keys : κ → Bool) (front back : List (κ × M)) :
    total keys (front ++ back) = total keys front + total keys back := by
  simp [total]

theorem total_perm (keys : κ → Bool) {postings others : List (κ × M)} (h : postings.Perm others) :
    total keys postings = total keys others :=
  ((h.filter _).map _).sum_eq

theorem total_eq_zero {keys : κ → Bool} {postings : List (κ × M)}
    (h : ∀ posting ∈ postings, keys posting.1 = false) : total keys postings = 0 := by
  induction postings with
  | nil => rfl
  | cons posting rest ih =>
    have hhead := h posting List.mem_cons_self
    have hrest := ih fun other hmem => h other (List.mem_cons_of_mem posting hmem)
    rw [total_cons, hhead, hrest, add_zero, if_neg Bool.false_ne_true]

/-- Postings whose amounts are read by a homomorphism. -/
theorem total_read (read : M →+ N) (keys : κ → Bool) (postings : List (κ × M)) :
    total keys (postings.map fun posting => (posting.1, read posting.2)) =
      read (total keys postings) := by
  induction postings with
  | nil => exact (map_zero read).symm
  | cons posting rest ih =>
    rw [List.map_cons, total_cons, ih, total_cons, map_add]
    split
    · rfl
    · rw [map_zero]

/-- The entries of every set of keys sum to the balances of that set. -/
def Reconciled (balances entries : List (κ × M)) : Prop :=
  ∀ keys : κ → Bool, total keys entries = total keys balances

theorem reconciled_nil : Reconciled ([] : List (κ × M)) [] := fun _ => rfl

theorem Reconciled.perm {balances others entries : List (κ × M)} (h : Reconciled balances entries)
    (hperm : others.Perm balances) : Reconciled others entries := by
  intro keys
  rw [h keys, total_perm keys hperm]

theorem Reconciled.opened {balances entries : List (κ × M)} (h : Reconciled balances entries)
    (key : κ) : Reconciled ((key, 0) :: balances) entries := by
  intro keys
  rw [h keys, total_cons, ite_self, zero_add]

theorem Reconciled.posted {balances entries : List (κ × M)} {key : κ} {balance : M}
    (h : Reconciled ((key, balance) :: balances) entries) (amount : M) :
    Reconciled ((key, balance + amount) :: balances) (entries ++ [(key, amount)]) := by
  intro keys
  have hbefore := h keys
  rw [total_cons] at hbefore
  rw [total_append, total_cons, total_cons, total_nil, hbefore]
  split
  · rw [add_zero, add_right_comm]
  · rw [add_zero, add_zero]

/-- An amount posted to two accounts. -/
theorem Reconciled.transferred {balances entries : List (κ × M)} {first second : κ} {x y : M}
    (h : Reconciled ((first, x) :: (second, y) :: balances) entries) (amount : M) :
    Reconciled ((first, x + amount) :: (second, y + amount) :: balances)
      (entries ++ [(first, amount), (second, amount)]) := by
  have hfirst := h.posted amount
  have hsecond := (hfirst.perm (List.Perm.swap _ _ _)).posted amount
  rw [List.append_assoc] at hsecond
  exact hsecond.perm (List.Perm.swap _ _ _)

/-- The entries of a set that one account alone is in sum to its balance. -/
theorem Reconciled.balance_eq [DecidableEq ι] {balances entries : List (κ × M)}
    (h : Reconciled balances entries) (name : κ → ι)
    (nodup : (balances.map fun balance => name balance.1).Nodup) {key : κ} {balance : M}
    (hmem : (key, balance) ∈ balances) :
    total (fun other => name other == name key) entries = balance := by
  rw [h]
  obtain ⟨front, back, rfl⟩ := List.append_of_mem hmem
  have hperm : (front ++ (key, balance) :: back).Perm ((key, balance) :: (front ++ back)) :=
    List.perm_middle
  have hothers := (hperm.map fun balance => name balance.1).nodup_iff.mp nodup
  rw [List.map_cons, List.nodup_cons] at hothers
  have hzero : total (fun other => name other == name key) (front ++ back) = 0 := by
    apply total_eq_zero
    intro other hother
    by_contra hsame
    apply hothers.1
    have hname : name other.1 = name key := by simpa using hsame
    rw [← hname]
    exact List.mem_map_of_mem (f := fun balance : κ × M => name balance.1) hother
  rw [total_perm _ hperm, total_cons, hzero]
  simp

end Foundation.Ledger
