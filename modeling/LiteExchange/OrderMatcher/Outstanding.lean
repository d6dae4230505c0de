import LiteExchange.OrderMatcher.Evolution

/-!
# Orders that are outstanding

An order is outstanding while the order matcher may still match it, cancel it or report on
it. The slot and the origin of an order never change: whatever is outstanding after a step
carries those of something that was outstanding before, or of the order of the call.
-/

namespace LiteExchange.OrderMatcher

open Foundation.Ascii Foundation.Runs Foundation.PriorityList

variable {γ : Type}

/-- The slot and the origin of an order. -/
def Order.stamp (order : Order γ) : Nat × γ := (order.sessionId, order.origin)

/-- An order in a book, in a report that is still to be popped or pushed, or of a task that
is still to run or to end. `popped` counts what was taken from each ring. -/
inductive System.Outstanding (system : System γ) (popped : Nat → Nat) : Order γ → Prop
  | resting {order : Order γ} (securityId : Nat)
      (mem : order ∈ (system.central.book securityId).orders) : Outstanding system popped order
  | reported {message : OutgoingMessage γ} (queueID index : Nat) (unpopped : popped queueID ≤ index)
      (pushed : (system.central.outgoingMessages queueID)[index]? = some message) :
      Outstanding system popped message.order
  | pending {message : OutgoingMessage γ} {securityId : Nat} {pending : List (OutgoingMessage γ)}
      {erasing : Option (Order γ)} (queueIndex : Nat)
      (busy : system.workers queueIndex = .busy securityId pending erasing)
      (mem : message ∈ pending) : Outstanding system popped message.order
  | erasing {order : Order γ} {securityId : Nat} {pending : List (OutgoingMessage γ)}
      (queueIndex : Nat) (busy : system.workers queueIndex = .busy securityId pending (some order)) :
      Outstanding system popped order
  | queued {task : Task γ} (queueIndex : Nat) (mem : task ∈ system.threadQueues queueIndex) :
      Outstanding system popped task.order
  | submitting {task : Task γ} (submits : system.submitting = some task) :
      Outstanding system popped task.order

/-- All that is outstanding carries one of the stamps. -/
def System.Stamped (stamps : Set (Nat × γ)) (popped : Nat → Nat) (system : System γ) : Prop :=
  ∀ order, system.Outstanding popped order → order.stamp ∈ stamps

namespace System

variable {stamps : Set (Nat × γ)} {popped : Nat → Nat} {system next : System γ}

/-- Popping a report leaves less outstanding. -/
theorem Stamped.pop (h : system.Stamped stamps popped) {popped' : Nat → Nat}
    (hpopped : ∀ queueID, popped queueID ≤ popped' queueID) : system.Stamped stamps popped' := by
  intro order houtstanding
  apply h order
  cases houtstanding with
  | resting securityId mem => exact .resting securityId mem
  | reported queueID index unpopped pushed =>
    exact .reported queueID index (Nat.le_trans (hpopped queueID) unpopped) pushed
  | pending queueIndex busy mem => exact .pending queueIndex busy mem
  | erasing queueIndex busy => exact .erasing queueIndex busy
  | queued queueIndex mem => exact .queued queueIndex mem
  | submitting submits => exact .submitting submits

/-- Trades and the cancel flag keep the stamp, and a report has the one of its order. -/
theorem stamp_rule (stamps : Set (Nat × γ)) (popped : Nat → Nat) :
    SystemRule (fun order => order.stamp ∈ stamps) (fun order => order.stamp ∈ stamps)
      (fun order => order.stamp ∈ stamps) (fun message => message.order.stamp ∈ stamps)
      fun queueID index message => popped queueID ≤ index → message.order.stamp ∈ stamps where
  books :=
    { closed :=
        { trade := fun _ _ hbid hask _ => ⟨hbid, hask⟩
          tradedBid := fun _ _ hbid _ _ _ => hbid
          tradedAsk := fun _ _ _ hask _ _ => hask
          canceledBid := fun _ hbid => hbid
          canceledAsk := fun _ hask => hask }
      canceledBid := fun _ hbid => hbid
      canceledAsk := fun _ hask => hask }
  erased := fun _ horder => horder.elim id id
  pushed := fun _ _ _ hreport _ => hreport

theorem stamp_meets {task : Task γ} :
    task.Meets (fun order => order.stamp ∈ stamps) (fun order => order.stamp ∈ stamps)
      (fun message => message.order.stamp ∈ stamps) ↔ task.order.stamp ∈ stamps := by
  cases task with
  | newOrder order =>
    constructor
    · intro h
      by_cases hside : order.side = .buy
      · exact h.1 hside
      · exact h.2 hside
    · exact fun h => ⟨fun _ => h, fun _ => h⟩
  | cancelOrder order origClientOrderID => exact Iff.rfl

theorem stamped_iff : system.Stamped stamps popped ↔
    system.Carries (fun order => order.stamp ∈ stamps) (fun order => order.stamp ∈ stamps)
      (fun order => order.stamp ∈ stamps) (fun message => message.order.stamp ∈ stamps)
      fun queueID index message => popped queueID ≤ index → message.order.stamp ∈ stamps := by
  constructor
  · intro h
    exact
      { books := fun securityId =>
          ⟨fun order hmem => h order (.resting securityId (List.mem_append_left _ hmem)),
            fun order hmem => h order (.resting securityId (List.mem_append_right _ hmem))⟩
        rings := fun queueID index message pushed unpopped =>
          h message.order (.reported queueID index unpopped pushed)
        pending := fun queueIndex _ _ _ busy message hmem =>
          h message.order (.pending queueIndex busy hmem)
        erasing := fun queueIndex _ _ order busy => h order (.erasing queueIndex busy)
        queued := fun queueIndex task hmem => stamp_meets.mpr (h task.order (.queued queueIndex hmem))
        submitting := fun task submits => stamp_meets.mpr (h task.order (.submitting submits)) }
  · intro h order houtstanding
    cases houtstanding with
    | resting securityId mem =>
      cases List.mem_append.mp mem with
      | inl hbid => exact (h.books securityId).bids order hbid
      | inr hask => exact (h.books securityId).asks order hask
    | reported queueID index unpopped pushed => exact h.rings queueID index _ pushed unpopped
    | pending queueIndex busy mem => exact h.pending queueIndex _ _ _ busy _ mem
    | erasing queueIndex busy => exact h.erasing queueIndex _ _ order busy
    | queued queueIndex mem => exact stamp_meets.mp (h.queued queueIndex _ mem)
    | submitting submits => exact stamp_meets.mp (h.submitting _ submits)

/-- A step keeps the stamps, where the order of its call carries one of them. -/
theorem step_stamped (h : system.Stamped stamps popped) {label : Label γ}
    (hcall : ∀ task, label.call = some task → task.order.stamp ∈ stamps)
    (hstep : system.step label = some next) : next.Stamped stamps popped := by
  have hmeets : label.Meets (fun order => order.stamp ∈ stamps)
      (fun order => order.stamp ∈ stamps) fun message => message.order.stamp ∈ stamps := by
    cases label with
    | addOrder order => exact fun orderID => stamp_meets.mpr (hcall (.newOrder order) rfl)
    | cancelOrder order origClientOrderID =>
      exact stamp_meets.mpr (hcall (.cancelOrder order origClientOrderID) rfl)
    | submit => trivial
    | work queueIndex => trivial
  refine stamped_iff.mpr (step_carries (stamp_rule stamps popped) (stamped_iff.mp h) hmeets ?_ hstep)
  rintro order rfl queueID index -
  exact hcall (.newOrder order) rfl

theorem configured_stamped (symbols : List Bytes) (multithreaded : Bool) :
    (configured (γ := γ) symbols multithreaded).Stamped stamps popped :=
  stamped_iff.mpr (configured_carries symbols multithreaded)

end System

/-! ## What a cancel takes off a book -/

namespace OrderBook

variable {book after : OrderBook γ} {resting : Order γ}

theorem sameClientOrder_other {clientID : Bytes} {sessionId : Nat}
    (h : resting.sessionId ≠ sessionId) : sameClientOrder clientID sessionId resting = false := by
  simp [sameClientOrder, h]

theorem cancelFound_keeps (hmem : resting ∈ book.orders) {sessionId : Nat}
    (hother : resting.sessionId ≠ sessionId) (clientID : Bytes) (side : OrderSide) :
    resting ∈ (book.cancelFound clientID sessionId side).orders := by
  have hkept : ∀ entries : List (Order γ), resting ∈ entries →
      resting ∈ modifyFirst (sameClientOrder clientID sessionId) Order.cancel entries :=
    fun entries h => mem_modifyFirst_of_neg h (sameClientOrder_other hother)
  unfold orders at hmem ⊢
  rw [List.mem_append] at hmem ⊢
  cases side with
  | nonSupported => exact hmem
  | buy => exact hmem.imp_left (hkept _)
  | sell => exact hmem.imp_right (hkept _)

theorem erase_keeps (hmem : resting ∈ book.orders) {order : Order γ}
    (hother : resting.sessionId ≠ order.sessionId) : resting ∈ (book.erase order).orders := by
  have hkept : ∀ entries : List (Order γ), resting ∈ entries →
      resting ∈ entries.eraseP (sameClientOrder order.clientOrderID order.sessionId) := by
    intro entries h
    exact (List.mem_eraseP_of_neg (by rw [sameClientOrder_other hother]; simp)).mpr h
  unfold orders at hmem ⊢
  rw [List.mem_append] at hmem ⊢
  unfold erase
  split
  · exact hmem.imp_left (hkept _)
  · exact hmem.imp_right (hkept _)
  · exact hmem

/-- The task of a request leaves the orders of other slots alone, at once or up to its first
push. -/
theorem cancelOrder_keeps (hmem : resting ∈ book.orders) {request : Order γ}
    (hother : resting.sessionId ≠ request.sessionId) (origClientOrderID : Bytes) :
    resting ∈ (book.cancelOrder request origClientOrderID).1.orders := by
  rcases cancelOrder_cases book request origClientOrderID with ⟨found, hfind, heq⟩ | ⟨-, heq⟩
  · rw [heq]
    refine erase_keeps (cancelFound_keeps hmem hother _ _) ?_
    exact (find_mem hfind).2.1.symm ▸ hother
  · rw [heq]
    exact hmem

theorem beginCancel_keeps (hmem : resting ∈ book.orders) {request : Order γ}
    (hother : resting.sessionId ≠ request.sessionId) {origClientOrderID : Bytes}
    {pending : List (OutgoingMessage γ)} {erasing : Option (Order γ)}
    (h : book.beginTask (.cancelOrder request origClientOrderID) = some (after, pending, erasing)) :
    resting ∈ after.orders := by
  simp only [beginTask] at h
  split at h
  · cases h
    exact cancelFound_keeps hmem hother _ _
  · cases h
    exact hmem

end OrderBook

namespace System

variable {system next : System γ}

/-- The order that a worker still has to erase when the reports of its task are pushed. -/
def finishes (system : System γ) : Label γ → Option (Order γ)
  | .work queueIndex =>
    match system.workers queueIndex with
    | .busy _ [] erasing => erasing
    | _ => none
  | _ => none

/-- The order that a step cancels for: the request whose task it begins, or the canceled
order that it erases at the end of the task. -/
def cancelsFor (system : System γ) (label : Label γ) : Option (Order γ) :=
  match system.begins label with
  | some (.cancelOrder request _) => some request
  | some (.newOrder _) => none
  | none => system.finishes label

theorem cancelsFor_cases {label : Label γ} {request : Order γ}
    (h : system.cancelsFor label = some request) :
    (∃ origClientOrderID, system.begins label = some (.cancelOrder request origClientOrderID)) ∨
      ∃ queueIndex securityId, label = .work queueIndex ∧
        system.workers queueIndex = .busy securityId [] (some request) := by
  unfold cancelsFor at h
  split at h
  · rename_i request origClientOrderID hbegins
    cases h
    exact Or.inl ⟨origClientOrderID, hbegins⟩
  · cases h
  · right
    cases label with
    | addOrder order => cases h
    | cancelOrder order origClientOrderID => cases h
    | submit => cases h
    | work queueIndex =>
      simp only [finishes] at h
      split at h
      · rename_i securityId erasing hbusy
        rw [h] at hbusy
        exact ⟨queueIndex, securityId, rfl, hbusy⟩
      · cases h

theorem begins_stamped {stamps : Set (Nat × γ)} {popped : Nat → Nat}
    (h : system.Stamped stamps popped) {label : Label γ}
    (hcall : ∀ task, label.call = some task → task.order.stamp ∈ stamps) {task : Task γ}
    (hbegins : system.begins label = some task) : task.order.stamp ∈ stamps := by
  cases label with
  | addOrder order =>
    simp only [begins, Option.ite_none_left_eq_some] at hbegins
    rw [← Option.some.inj hbegins.2]
    exact hcall (.newOrder order) rfl
  | cancelOrder order origClientOrderID =>
    simp only [begins, Option.ite_none_left_eq_some] at hbegins
    rw [← Option.some.inj hbegins.2]
    exact hcall (.cancelOrder order origClientOrderID) rfl
  | submit => cases hbegins
  | work queueIndex =>
    simp only [begins] at hbegins
    split at hbegins
    · exact h task.order (.queued queueIndex (List.mem_of_head? hbegins))
    · cases hbegins

/-- It is the request of the call or is outstanding. -/
theorem cancelsFor_stamped {stamps : Set (Nat × γ)} {popped : Nat → Nat}
    (h : system.Stamped stamps popped) {label : Label γ}
    (hcall : ∀ task, label.call = some task → task.order.stamp ∈ stamps) {request : Order γ}
    (hcancels : system.cancelsFor label = some request) : request.stamp ∈ stamps := by
  rcases cancelsFor_cases hcancels with ⟨origClientOrderID, hbegins⟩ |
    ⟨queueIndex, securityId, -, hbusy⟩
  · exact begins_stamped h hcall hbegins
  · exact h request (.erasing queueIndex hbusy)

/-- A step that cancels leaves the orders of other slots where they are. -/
theorem cancels_keeps {label : Label γ} (hstep : system.step label = some next)
    {request : Order γ} (hcancels : system.cancelsFor label = some request) {securityId : Nat}
    {resting : Order γ} (hmem : resting ∈ (system.central.book securityId).orders)
    (hother : resting.sessionId ≠ request.sessionId) :
    resting ∈ (next.central.book securityId).orders := by
  rcases cancelsFor_cases hcancels with ⟨origClientOrderID, hbegins⟩ |
    ⟨queueIndex, running, rfl, hbusy⟩
  · cases label with
    | addOrder order =>
      simp only [begins, Option.ite_none_left_eq_some] at hbegins
      cases hbegins.2
    | cancelOrder order requested =>
      simp only [begins, Option.ite_none_left_eq_some] at hbegins
      simp only [step, cancelOrder, hbegins.1, Option.ite_none_right_eq_some] at hstep
      cases hbegins.2
      cases hstep.2
      simp only [CentralOrderBook.taskCancelOrder, CentralOrderBook.book_push,
        CentralOrderBook.book_setBook]
      split
      · rename_i hsecurity
        rw [hsecurity] at hmem
        exact OrderBook.cancelOrder_keeps hmem hother origClientOrderID
      · exact hmem
    | submit => cases hbegins
    | work queueIndex =>
      -- The worker begins the task of the request.
      simp only [begins] at hbegins
      split at hbegins
      · rename_i hidle
        obtain ⟨tasks, hqueue⟩ := List.head?_eq_some_iff.mp hbegins
        simp only [step, work, hidle, hqueue] at hstep
        obtain ⟨⟨book, pending, erasing⟩, hbegin, rfl⟩ := Option.map_eq_some_iff.mp hstep
        simp only [CentralOrderBook.book_setBook]
        split
        · rename_i hsecurity
          rw [hsecurity] at hmem
          exact OrderBook.beginCancel_keeps hmem hother hbegin
        · exact hmem
      · cases hbegins
  · -- The worker erases the canceled order.
    simp only [step, work, hbusy] at hstep
    cases hstep
    simp only [CentralOrderBook.book_setBook]
    split
    · rename_i hsecurity
      rw [hsecurity] at hmem
      exact OrderBook.erase_keeps hmem hother
    · exact hmem

end System

end LiteExchange.OrderMatcher
