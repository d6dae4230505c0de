import LiteExchange.Foundation.LinkedList
import LiteExchange.Foundation.Runs

/-!
# The queue of the logger

Source: queue_mpsc.hpp. Any number of producers call `push` and one consumer calls `isEmpty` and
`flush`; their sections under the lock interleave. `push` fills its node before the lock.
`flush` takes the lock twice: for its own `isEmpty`, and to cut the nodes off behind the dummy
head. Nothing frees a node before the destructor.
-/

namespace LiteExchange.Core

open Foundation.Runs Foundation.LinkedList

structure QueueMPSC (π ι T : Type) where
  heap : Heap ι T
  head : ι
  tail : ι
  /-- The new node of a call of `push` that is in front of its lock, and the data. -/
  pushing : π → Option (ι × T)
  /-- `flush` stands between its `isEmpty`, which was `false`, and its lock. -/
  flushing : Bool
  /-- What has been pushed, in the order of the locks. -/
  pushed : List T
  /-- What the calls of `flush` have returned. -/
  returned : List (Option ι)

inductive QueueMPSCStep (π ι T : Type) where
  /-- `new` returns an address that is not in use. -/
  | newNode (producer : π) (address : ι) (data : T)
  | link (producer : π)
  | isEmpty
  | checkEmpty
  | take

namespace QueueMPSC

variable {π ι T : Type} [DecidableEq π] [DecidableEq ι]

/-- The constructor makes the dummy node. -/
def construct (dummy : ι) (data : T) : QueueMPSC π ι T where
  heap := Function.update (fun _ => none) dummy (some ⟨data, none⟩)
  head := dummy
  tail := dummy
  pushing := fun _ => none
  flushing := false
  pushed := []
  returned := []

def isEmpty (queue : QueueMPSC π ι T) : Bool := (queue.heap.next queue.head).isNone

/-- The section of `push`. -/
def linkNode (queue : QueueMPSC π ι T) (producer : π) (newNode : ι) (data : T) :
    QueueMPSC π ι T :=
  { queue with
    heap := queue.heap.setNext queue.tail (some newNode)
    tail := newNode
    pushing := Function.update queue.pushing producer none
    pushed := queue.pushed ++ [data] }

/-- The second section of `flush`. -/
def cutOff (queue : QueueMPSC π ι T) : QueueMPSC π ι T :=
  { queue with
    heap := queue.heap.setNext queue.head none
    tail := queue.head
    flushing := false
    returned := queue.returned ++ [queue.heap.next queue.head] }

def step (queue : QueueMPSC π ι T) : QueueMPSCStep π ι T → Option (QueueMPSC π ι T)
  | .newNode producer address data =>
    if (queue.pushing producer).isNone ∧ (queue.heap address).isNone then
      some { queue with
        heap := Function.update queue.heap address (some ⟨data, none⟩)
        pushing := Function.update queue.pushing producer (some (address, data)) }
    else none
  | .link producer =>
    (queue.pushing producer).map fun (newNode, data) => queue.linkNode producer newNode data
  | .isEmpty => if queue.flushing then none else some queue
  | .checkEmpty =>
    if queue.flushing then none
    else if queue.isEmpty then some { queue with returned := queue.returned ++ [none] }
    else some { queue with flushing := true }
  -- With an empty queue the call would wait.
  | .take => if queue.flushing ∧ ¬ queue.isEmpty then some queue.cutOff else none

/-- `flushed` are the lists that stand at the returned pointers, `nodes` is the one behind the
head. -/
structure Keeps (queue : QueueMPSC π ι T) (flushed : List (List (ι × T))) (nodes : List (ι × T)) :
    Prop where
  returned : List.Forall₂ (Chain queue.heap) queue.returned flushed
  reachable : ∃ dummy, Chain queue.heap (some queue.head) ((queue.head, dummy) :: nodes)
  pushed : (flushed.flatten ++ nodes).map Prod.snd = queue.pushed
  tail : (queue.head :: addresses nodes).getLast? = some queue.tail
  proceeds : queue.flushing → queue.step .take ≠ none

/-- The addresses of the nodes that the returned pointers and the head lead to. -/
def used (queue : QueueMPSC π ι T) (flushed : List (List (ι × T))) (nodes : List (ι × T)) :
    List ι :=
  addresses flushed.flatten ++ queue.head :: addresses nodes

/-- The invariant. No two chains share a node, and a node that is not linked is in none. -/
structure Intact (queue : QueueMPSC π ι T) (flushed : List (List (ι × T))) (dummy : T)
    (nodes : List (ι × T)) : Prop where
  returned : List.Forall₂ (Chain queue.heap) queue.returned flushed
  reachable : Chain queue.heap (some queue.head) ((queue.head, dummy) :: nodes)
  pushed : (flushed.flatten ++ nodes).map Prod.snd = queue.pushed
  tail : ∃ front data, (queue.head, dummy) :: nodes = front ++ [(queue.tail, data)]
  distinct : (queue.used flushed nodes).Nodup
  own : ∀ producer newNode data, queue.pushing producer = some (newNode, data) →
    queue.heap newNode = some ⟨data, none⟩ ∧ newNode ∉ queue.used flushed nodes
  apart : ∀ producer other newNode data data', queue.pushing producer = some (newNode, data) →
    queue.pushing other = some (newNode, data') → producer = other
  proceeds : queue.flushing → nodes ≠ []

section Steps

variable {queue next : QueueMPSC π ι T} {flushed : List (List (ι × T))} {dummy : T}
  {nodes : List (ι × T)}

omit [DecidableEq π] in
theorem intact_construct (dummy : ι) (data : T) :
    (construct dummy data : QueueMPSC π ι T).Intact [] data [] where
  returned := .nil
  reachable := .node (by simp [construct]) .null
  pushed := rfl
  tail := ⟨[], data, rfl⟩
  distinct := by simp [used, addresses]
  own _ _ _ h := by cases h
  apart _ _ _ _ _ h := by cases h
  proceeds h := by cases h

omit [DecidableEq π] [DecidableEq ι] in
theorem Intact.allocated (h : queue.Intact flushed dummy nodes) {address : ι}
    (hused : address ∈ queue.used flushed nodes) : queue.heap address ≠ none := by
  rcases List.mem_append.mp hused with hflushed | hreachable
  · exact chains_allocated h.returned hflushed
  · exact h.reachable.allocated hreachable

omit [DecidableEq π] [DecidableEq ι] in
theorem Intact.isEmpty_iff (h : queue.Intact flushed dummy nodes) :
    queue.isEmpty = true ↔ nodes = [] := by
  have hnext := h.reachable.next
  rw [isEmpty, Option.isNone_iff_eq_none]
  constructor
  · intro hnull
    rw [hnull] at hnext
    cases hnext
    rfl
  · rintro rfl
    generalize queue.heap.next queue.head = pointer at hnext
    cases hnext
    rfl

omit [DecidableEq ι] in
theorem pushing_update {pushing : π → Option (ι × T)} {producer other : π}
    {call : Option (ι × T)} {pushed : ι × T}
    (h : Function.update pushing producer call other = some pushed) :
    other = producer ∧ call = some pushed ∨ other ≠ producer ∧ pushing other = some pushed := by
  by_cases hproducer : other = producer
  · subst hproducer
    rw [Function.update_self] at h
    exact .inl ⟨rfl, h⟩
  · rw [Function.update_of_ne hproducer] at h
    exact .inr ⟨hproducer, h⟩

/-- The new node of a call of `push`. -/
theorem Intact.newNode (h : queue.Intact flushed dummy nodes) {producer : π} {address : ι}
    {data : T} (hstep : queue.step (.newNode producer address data) = some next) :
    next.Intact flushed dummy nodes := by
  obtain ⟨⟨-, hfree⟩, hnext⟩ := Option.ite_none_right_eq_some.mp hstep
  cases hnext
  rw [Option.isNone_iff_eq_none] at hfree
  have hother {taken : ι} (htaken : queue.heap taken ≠ none) : taken ≠ address := by
    rintro rfl
    exact htaken hfree
  have hsame {taken : ι} (htaken : queue.heap taken ≠ none) :
      Function.update queue.heap address (some ⟨data, none⟩) taken = queue.heap taken :=
    Function.update_of_ne (hother htaken) _ _
  have hpending {other : π} {newNode : ι} {value : T}
      (hpushing : queue.pushing other = some (newNode, value)) : queue.heap newNode ≠ none := by
    rw [(h.own _ _ _ hpushing).1]
    exact Option.some_ne_none _
  exact
    { returned := chains_frame h.returned fun _ passed =>
        hsame (chains_allocated h.returned passed)
      reachable := h.reachable.frame fun _ passed => hsame (h.reachable.allocated passed)
      pushed := h.pushed
      tail := h.tail
      distinct := h.distinct
      own := by
        intro other newNode value hpushing
        rcases pushing_update hpushing with ⟨-, hcall⟩ | ⟨-, hpushing⟩
        · cases hcall
          exact ⟨Function.update_self _ _ _, fun hused => h.allocated hused hfree⟩
        · obtain ⟨hnode, habsent⟩ := h.own _ _ _ hpushing
          exact ⟨(hsame (hpending hpushing)).trans hnode, habsent⟩
      apart := by
        intro first second newNode value value' hfirst hsecond
        rcases pushing_update hfirst with ⟨hsame, hcall⟩ | ⟨-, hpushing⟩ <;>
          rcases pushing_update hsecond with ⟨hsame', hcall'⟩ | ⟨-, hpushing'⟩
        · rw [hsame, hsame']
        · cases hcall
          exact absurd rfl (hother (hpending hpushing'))
        · cases hcall'
          exact absurd rfl (hother (hpending hpushing))
        · exact h.apart _ _ _ _ _ hpushing hpushing'
      proceeds := h.proceeds }

omit [DecidableEq π] [DecidableEq ι] in
theorem Intact.tail_mem (h : queue.Intact flushed dummy nodes) :
    queue.tail ∈ queue.head :: addresses nodes := by
  obtain ⟨front, data, hlast⟩ := h.tail
  rw [← addresses_cons (queue.head, dummy), hlast]
  simp

theorem used_linkNode (queue : QueueMPSC π ι T) (producer : π) (newNode : ι) (data : T) :
    (queue.linkNode producer newNode data).used flushed (nodes ++ [(newNode, data)]) =
      queue.used flushed nodes ++ [newNode] := by
  simp [used, addresses, linkNode]

/-- The nodes that other calls of `push` hold are not touched by the section of one. -/
theorem Intact.own_link (h : queue.Intact flushed dummy nodes) {producer other : π}
    {newNode pending : ι} {data value : T}
    (hpushing : queue.pushing producer = some (newNode, data))
    (hother : (queue.linkNode producer newNode data).pushing other = some (pending, value)) :
    (queue.linkNode producer newNode data).heap pending = some ⟨value, none⟩ ∧
      pending ∉ queue.used flushed nodes ++ [newNode] := by
  obtain ⟨-, hcall⟩ | ⟨hproducer, hpushing'⟩ := pushing_update hother
  · cases hcall
  obtain ⟨hpending, hunused⟩ := h.own _ _ _ hpushing'
  have hfree : pending ≠ queue.tail := by
    rintro rfl
    exact hunused (List.mem_append_right _ h.tail_mem)
  refine ⟨(Heap.setNext_of_ne _ hfree).trans hpending, ?_⟩
  rw [List.mem_append, List.mem_singleton]
  rintro (hmem | rfl)
  · exact hunused hmem
  · exact hproducer (h.apart _ _ _ _ _ hpushing' hpushing)

/-- The section of `push` puts the new node behind the last one. -/
theorem Intact.link (h : queue.Intact flushed dummy nodes) {producer : π} {newNode : ι} {data : T}
    (hpushing : queue.pushing producer = some (newNode, data)) :
    (queue.linkNode producer newNode data).Intact flushed dummy (nodes ++ [(newNode, data)]) := by
  obtain ⟨hnode, habsent⟩ := h.own _ _ _ hpushing
  obtain ⟨front, last, hlast⟩ := h.tail
  obtain ⟨-, hdistinct, hapart⟩ := List.nodup_append.mp h.distinct
  have hlinked : ((queue.linkNode producer newNode data).head, dummy) ::
      (nodes ++ [(newNode, data)]) = front ++ [(queue.tail, last), (newNode, data)] := by
    rw [← List.cons_append, linkNode, hlast, List.append_assoc]
    rfl
  exact
    { returned := chains_frame h.returned fun address passed => Heap.setNext_of_ne _ fun hsame =>
        hapart address passed queue.tail h.tail_mem hsame
      reachable := by
        rw [hlinked]
        refine Chain.link (hlast ▸ h.reachable) ?_ ?_ hnode
        · rw [← hlast]
          exact hdistinct
        · rw [← hlast]
          exact fun hmem => habsent (List.mem_append_right _ hmem)
      pushed := by
        rw [← List.append_assoc, List.map_append, h.pushed]
        rfl
      tail := ⟨front ++ [(queue.tail, last)], data, by rw [hlinked, List.append_assoc]; rfl⟩
      distinct := by
        rw [used_linkNode]
        refine List.nodup_append.mpr ⟨h.distinct, List.nodup_singleton _, ?_⟩
        rintro address hmem added hadded rfl
        exact habsent (List.mem_singleton.mp hadded ▸ hmem)
      own := by
        intro other pending value hother
        rw [used_linkNode]
        exact h.own_link hpushing hother
      apart := by
        intro first second pending value value' hfirst hsecond
        obtain ⟨-, hcall⟩ | ⟨-, hpushing⟩ := pushing_update hfirst
        · cases hcall
        obtain ⟨-, hcall⟩ | ⟨-, hpushing'⟩ := pushing_update hsecond
        · cases hcall
        exact h.apart _ _ _ _ _ hpushing hpushing'
      proceeds := fun _ => List.append_ne_nil_of_right_ne_nil _ (List.cons_ne_nil _ _) }

/-- The first section of `flush`. -/
theorem Intact.checkEmpty (h : queue.Intact flushed dummy nodes)
    (hstep : queue.step .checkEmpty = some next) :
    next.Intact (flushed ++ [[]]) dummy nodes ∨ next.Intact flushed dummy nodes := by
  obtain ⟨-, hnext⟩ := Option.ite_none_left_eq_some.mp hstep
  by_cases hempty : queue.isEmpty = true
  · rw [if_pos hempty] at hnext
    cases hnext
    have hflatten : (flushed ++ [[]]).flatten = flushed.flatten := by simp
    left
    exact
      { returned := List.rel_append h.returned (.cons .null .nil)
        reachable := h.reachable
        pushed := by rw [hflatten]; exact h.pushed
        tail := h.tail
        distinct := by rw [used, hflatten]; exact h.distinct
        own := by rw [used, hflatten]; exact h.own
        apart := h.apart
        proceeds := h.proceeds }
  · rw [if_neg hempty] at hnext
    cases hnext
    right
    exact { h with proceeds := fun _ hnodes => hempty (h.isEmpty_iff.mpr hnodes) }

omit [DecidableEq π] in
/-- What `flush` cuts off stands behind the lists before. -/
theorem Intact.cutOff (h : queue.Intact flushed dummy nodes) :
    queue.cutOff.Intact (flushed ++ [nodes]) dummy [] := by
  obtain ⟨-, hdistinct, hapart⟩ := List.nodup_append.mp h.distinct
  have hhead : queue.head ∉ addresses nodes := (List.nodup_cons.mp hdistinct).1
  have hflushed : queue.head ∉ addresses flushed.flatten := fun hmem =>
    hapart _ hmem _ List.mem_cons_self rfl
  have hflatten : (flushed ++ [nodes]).flatten = flushed.flatten ++ nodes := by simp
  have hused : (queue.cutOff.used (flushed ++ [nodes]) []).Perm (queue.used flushed nodes) := by
    rw [used, used, hflatten, addresses_append, List.append_assoc]
    exact List.Perm.append_left _ (List.perm_append_singleton _ _)
  exact
    { returned := by
        refine List.rel_append ?_ (.cons (h.reachable.next.setNext hhead) .nil)
        exact chains_frame h.returned fun address passed => Heap.setNext_of_ne _ fun hsame =>
          hflushed (hsame ▸ passed)
      reachable := h.reachable.cut
      pushed := by
        rw [hflatten, List.append_nil]
        exact h.pushed
      tail := ⟨[], dummy, rfl⟩
      distinct := hused.nodup_iff.mpr h.distinct
      own := by
        intro producer newNode data hpushing
        obtain ⟨hnode, hunused⟩ := h.own producer newNode data hpushing
        have hother : newNode ≠ queue.head := by
          rintro rfl
          exact hunused (by simp [used])
        exact ⟨(Heap.setNext_of_ne _ hother).trans hnode, fun hmem =>
          hunused (hused.mem_iff.mp hmem)⟩
      apart := h.apart
      proceeds := fun hflushing => Bool.noConfusion hflushing }

/-- Each step leaves the lists that have been returned, and may add one. -/
theorem Intact.step (h : queue.Intact flushed dummy nodes) {label : QueueMPSCStep π ι T}
    (hstep : queue.step label = some next) :
    ∃ more nodes', next.Intact (flushed ++ more) dummy nodes' ∧
      queue.returned <+: next.returned := by
  cases label with
  | newNode producer address data =>
    refine ⟨[], nodes, (List.append_nil flushed).symm ▸ h.newNode hstep, ?_⟩
    obtain ⟨-, hnext⟩ := Option.ite_none_right_eq_some.mp hstep
    cases hnext
    exact List.prefix_rfl
  | link producer =>
    obtain ⟨⟨newNode, data⟩, hpushing, hnext⟩ := Option.map_eq_some_iff.mp hstep
    cases hnext
    exact ⟨[], _, (List.append_nil flushed).symm ▸ h.link hpushing, List.prefix_rfl⟩
  | isEmpty =>
    obtain ⟨-, hnext⟩ := Option.ite_none_left_eq_some.mp hstep
    cases hnext
    exact ⟨[], nodes, (List.append_nil flushed).symm ▸ h, List.prefix_rfl⟩
  | checkEmpty =>
    have hgrows : queue.returned <+: next.returned := by
      obtain ⟨-, hnext⟩ := Option.ite_none_left_eq_some.mp hstep
      split at hnext
      · cases hnext
        exact List.prefix_append _ _
      · cases hnext
        exact List.prefix_rfl
    rcases h.checkEmpty hstep with hempty | hflushes
    · exact ⟨[[]], nodes, hempty, hgrows⟩
    · exact ⟨[], nodes, (List.append_nil flushed).symm ▸ hflushes, hgrows⟩
  | take =>
    obtain ⟨-, hnext⟩ := Option.ite_none_right_eq_some.mp hstep
    cases hnext
    exact ⟨[nodes], [], h.cutOff, List.prefix_append _ _⟩

theorem Intact.run (h : queue.Intact flushed dummy nodes) {labels : List (QueueMPSCStep π ι T)}
    (hrun : run QueueMPSC.step queue labels = some next) :
    ∃ more nodes', next.Intact (flushed ++ more) dummy nodes' ∧
      queue.returned <+: next.returned := by
  refine run_invariant (fun reached => ∃ more nodes',
    reached.Intact (flushed ++ more) dummy nodes' ∧ queue.returned <+: reached.returned) ?_ ?_ hrun
  · exact ⟨[], nodes, (List.append_nil flushed).symm ▸ h, List.prefix_rfl⟩
  · rintro reached label later ⟨more, kept, hintact, hprefix⟩ hstep
    obtain ⟨added, nodes', hlater, hgrows⟩ := hintact.step hstep
    exact ⟨more ++ added, nodes', (List.append_assoc _ _ _) ▸ hlater, hprefix.trans hgrows⟩

theorem Intact.keeps (h : queue.Intact flushed dummy nodes) : queue.Keeps flushed nodes where
  returned := h.returned
  reachable := ⟨dummy, h.reachable⟩
  pushed := h.pushed
  tail := by
    obtain ⟨front, data, hlast⟩ := h.tail
    rw [← addresses_cons (queue.head, dummy), hlast, addresses_append]
    simp [addresses]
  proceeds := by
    intro hflushing hwaits
    have hnonempty : ¬ queue.isEmpty = true := mt h.isEmpty_iff.mp (h.proceeds hflushing)
    rw [QueueMPSC.step, if_pos ⟨hflushing, hnonempty⟩] at hwaits
    cases hwaits

/-- The pointers of a state determine the lists. -/
theorem Keeps.unique (h : queue.Keeps flushed nodes) {others : List (List (ι × T))}
    {nodes' : List (ι × T)} (other : queue.Keeps others nodes') :
    flushed = others ∧ nodes = nodes' := by
  obtain ⟨dummy, hreachable⟩ := h.reachable
  obtain ⟨dummy', hreachable'⟩ := other.reachable
  exact ⟨chains_unique h.returned other.returned,
    (List.cons.inj (hreachable.unique hreachable')).2⟩

end Steps

/-- In every run the lists that have been returned and the one behind the head are, one behind
the other, what has been pushed. The lists that have been returned stay as they are. -/
theorem flushed_then_reachable (dummy : ι) (data : T) (labels : List (QueueMPSCStep π ι T))
    (queue : QueueMPSC π ι T) (h : run step (construct dummy data) labels = some queue) :
    ∃ flushed nodes, queue.Keeps flushed nodes ∧
      ∀ more later, run step queue more = some later → queue.returned <+: later.returned ∧
        ∃ others nodes', later.Keeps (flushed ++ others) nodes' := by
  obtain ⟨flushed, nodes, hintact, -⟩ := (intact_construct dummy data).run h
  refine ⟨flushed, nodes, hintact.keeps, fun more later hlater => ?_⟩
  obtain ⟨others, nodes', hlater, hgrows⟩ := hintact.run hlater
  exact ⟨hgrows, others, nodes', hlater.keeps⟩

/-- Two producers, whose nodes are linked the other way round, and a third push in the middle of
`flush`. -/
def threePushes : List (QueueMPSCStep Nat Nat Nat) :=
  [.newNode 0 1 7, .newNode 1 2 8, .link 1, .checkEmpty, .link 0, .take, .isEmpty, .newNode 0 3 9,
    .link 0]

theorem flushed_then_reachable_threePushes :
    ∃ queue : QueueMPSC Nat Nat Nat, run step (construct 0 0) threePushes = some queue ∧
      ∃ flushed nodes, queue.Keeps flushed nodes ∧
        ∀ more later, run step queue more = some later → queue.returned <+: later.returned ∧
          ∃ others nodes', later.Keeps (flushed ++ others) nodes' := by
  obtain ⟨queue, hqueue⟩ : ∃ queue, run step (construct 0 0) threePushes = some queue :=
    Option.isSome_iff_exists.mp (by decide)
  exact ⟨queue, hqueue, flushed_then_reachable 0 0 threePushes queue hqueue⟩

end QueueMPSC

end LiteExchange.Core
