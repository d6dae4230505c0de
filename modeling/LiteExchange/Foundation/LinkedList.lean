import Mathlib.Logic.Function.Basic
import Mathlib.Data.List.Nodup
import Mathlib.Data.List.Forall2

/-!
# Chains of nodes in a heap

Nodes stand at addresses and point to the next node; the null pointer is `none`. `Chain` reads
the nodes from a pointer on. A write at an address leaves every chain that does not pass it as
it was, and a node linked behind the last one of a chain stands at its end.
-/

namespace Foundation.LinkedList

structure Node (ι α : Type*) where
  data : α
  next : Option ι
  deriving DecidableEq

abbrev Heap (ι α : Type*) := ι → Option (Node ι α)

namespace Heap

variable {ι α : Type*} [DecidableEq ι]

def next (heap : Heap ι α) (address : ι) : Option ι := (heap address).bind Node.next

/-- The node at `address` gets another successor. -/
def setNext (heap : Heap ι α) (address : ι) (next : Option ι) : Heap ι α :=
  Function.update heap address ((heap address).map fun node => { node with next := next })

theorem setNext_self {heap : Heap ι α} {address : ι} {node : Node ι α} (next : Option ι)
    (h : heap address = some node) :
    heap.setNext address next address = some { node with next := next } := by
  rw [setNext, Function.update_self, h]
  rfl

theorem setNext_of_ne {heap : Heap ι α} {address other : ι} (next : Option ι)
    (h : other ≠ address) : heap.setNext address next other = heap other :=
  Function.update_of_ne h _ _

theorem setNext_eq_none {heap : Heap ι α} {address other : ι} {next : Option ι} :
    heap.setNext address next other = none ↔ heap other = none := by
  by_cases hother : other = address
  · subst hother
    rw [setNext, Function.update_self, Option.map_eq_none_iff]
  · rw [setNext_of_ne next hother]

/-- A new node elsewhere does not meet the write of a link. -/
theorem setNext_update {heap : Heap ι α} {address other : ι} (next : Option ι)
    (node : Option (Node ι α)) (h : other ≠ address) :
    Heap.setNext (Function.update heap other node) address next =
      Function.update (heap.setNext address next) other node := by
  rw [setNext, setNext, Function.update_of_ne h.symm, Function.update_comm h]

end Heap

variable {ι α : Type*}

/-- The nodes from the pointer on, each with its address and what it holds. -/
inductive Chain (heap : Heap ι α) : Option ι → List (ι × α) → Prop
  | null : Chain heap none []
  | node {address : ι} {data : α} {next : Option ι} {nodes : List (ι × α)}
      (here : heap address = some ⟨data, next⟩) (rest : Chain heap next nodes) :
      Chain heap (some address) ((address, data) :: nodes)

def addresses (nodes : List (ι × α)) : List ι := nodes.map Prod.fst

@[simp] theorem addresses_append (front back : List (ι × α)) :
    addresses (front ++ back) = addresses front ++ addresses back := List.map_append

@[simp] theorem addresses_cons (node : ι × α) (nodes : List (ι × α)) :
    addresses (node :: nodes) = node.1 :: addresses nodes := rfl

variable {heap after : Heap ι α} {pointer : Option ι} {nodes : List (ι × α)}

/-- A chain passes addresses of nodes only. -/
theorem Chain.allocated (h : Chain heap pointer nodes) {address : ι}
    (passed : address ∈ addresses nodes) : heap address ≠ none := by
  induction h with
  | null => cases passed
  | node here rest ih =>
    rcases List.mem_cons.mp passed with rfl | hrest
    · rw [here]
      exact Option.some_ne_none _
    · exact ih hrest

/-- What does not change the nodes of a chain leaves the chain. -/
theorem Chain.frame (h : Chain heap pointer nodes)
    (same : ∀ address ∈ addresses nodes, after address = heap address) :
    Chain after pointer nodes := by
  induction h with
  | null => exact .null
  | node here rest ih =>
    refine .node ((same _ List.mem_cons_self).trans here) (ih fun address passed => ?_)
    exact same address (List.mem_cons_of_mem _ passed)

/-- A pointer has one chain. -/
theorem Chain.unique {others : List (ι × α)} (h : Chain heap pointer nodes)
    (other : Chain heap pointer others) : nodes = others := by
  induction h generalizing others with
  | null =>
    cases other
    rfl
  | node here rest ih =>
    cases other with
    | node here' rest' =>
      obtain ⟨rfl, rfl⟩ := Node.mk.inj (Option.some.inj (here.symm.trans here'))
      rw [ih rest']

/-- The first node of a chain points to the others. -/
theorem Chain.next {address : ι} {data : α}
    (h : Chain heap (some address) ((address, data) :: nodes)) :
    Chain heap (heap.next address) nodes := by
  cases h with
  | node here rest =>
    rw [Heap.next, here]
    exact rest

/-! ## Several chains -/

variable {pointers : List (Option ι)} {lists : List (List (ι × α))}

theorem chains_allocated (h : List.Forall₂ (Chain heap) pointers lists) {address : ι}
    (passed : address ∈ addresses lists.flatten) : heap address ≠ none := by
  induction h with
  | nil => cases passed
  | cons first rest ih =>
    rw [List.flatten_cons, addresses_append, List.mem_append] at passed
    exact passed.elim first.allocated ih

theorem chains_frame (h : List.Forall₂ (Chain heap) pointers lists)
    (same : ∀ address ∈ addresses lists.flatten, after address = heap address) :
    List.Forall₂ (Chain after) pointers lists := by
  induction h with
  | nil => exact .nil
  | cons first rest ih =>
    simp only [List.flatten_cons, addresses_append, List.mem_append] at same
    exact .cons (first.frame fun address passed => same address (.inl passed))
      (ih fun address passed => same address (.inr passed))

theorem chains_unique {others : List (List (ι × α))} (h : List.Forall₂ (Chain heap) pointers lists)
    (other : List.Forall₂ (Chain heap) pointers others) : lists = others := by
  induction h generalizing others with
  | nil =>
    cases other
    rfl
  | cons first rest ih =>
    cases other with
    | cons first' rest' => rw [first.unique first', ih rest']

/-- The last pointer has the last list. -/
theorem chains_last {front : List (List (ι × α))} {last : List (ι × α)}
    (h : List.Forall₂ (Chain heap) pointers (front ++ [last])) :
    Chain heap pointers.getLast?.join last := by
  have hlast := List.forall₂_drop_append pointers front [last] h
  generalize hpointers : pointers.drop front.length = rest at hlast
  cases hlast with
  | cons chain rest =>
    cases rest
    rename_i pointer
    have hsplit := List.take_append_drop front.length pointers
    rw [hpointers] at hsplit
    rw [← hsplit, List.getLast?_concat]
    exact chain

/-! ## Writes -/

variable [DecidableEq ι]

theorem Chain.setNext {address : ι} {pointer' : Option ι} (h : Chain heap pointer nodes)
    (apart : address ∉ addresses nodes) : Chain (heap.setNext address pointer') pointer nodes :=
  h.frame fun _ passed => Heap.setNext_of_ne _ fun hsame => apart (hsame ▸ passed)

/-- The nodes behind the first one are cut off. -/
theorem Chain.cut {address : ι} {data : α}
    (h : Chain heap (some address) ((address, data) :: nodes)) :
    Chain (heap.setNext address none) (some address) [(address, data)] := by
  cases h with
  | node here rest => exact .node (Heap.setNext_self _ here) .null

/-- A node linked behind the last one. -/
theorem Chain.link {front : List (ι × α)} {last added : ι} {data value : α}
    (h : Chain heap pointer (front ++ [(last, data)]))
    (distinct : (addresses (front ++ [(last, data)])).Nodup)
    (fresh : added ∉ addresses (front ++ [(last, data)]))
    (node : heap added = some ⟨value, none⟩) :
    Chain (heap.setNext last (some added)) pointer (front ++ [(last, data), (added, value)]) := by
  induction front generalizing pointer with
  | nil =>
    cases h with
    | node here rest =>
      have hadded : added ≠ last := fun hsame => fresh (hsame ▸ List.mem_cons_self)
      have hend : Chain (heap.setNext last (some added)) (some added) [(added, value)] :=
        .node ((Heap.setNext_of_ne _ hadded).trans node) .null
      exact .node (Heap.setNext_self _ here) hend
  | cons first front ih =>
    cases h with
    | @node first _ _ _ here rest =>
      obtain ⟨hfirst, hdistinct⟩ := List.nodup_cons.mp distinct
      have hne : first ≠ last := by
        rintro rfl
        exact hfirst (by simp)
      exact .node ((Heap.setNext_of_ne _ hne).trans here)
        (ih rest hdistinct fun hmem => fresh (List.mem_cons_of_mem _ hmem))

end Foundation.LinkedList
