import Mathlib.Data.List.Flatten
import LiteExchange.OrderMatcher.ExactQuantities
import LiteExchange.OrderMatcher.LifeCycle
import LiteExchange.OrderMatcher.Simulation

/-!
# The reports of an order over every interleaving

The ACCEPTED report of an order and its later reports come from different
threads. The later ones are those of the replayed log, so they have the form the
log gives them; the ACCEPTED one is pushed before the task exists, when no report
of the id has been pushed, provided the ids are distinct. They are for the first
2^32 orders: the counter is an `int`.
-/

namespace LiteExchange.OrderMatcher

open Foundation.Ascii Foundation.Runs

variable {γ : Type}

/-! ## Distinct ids -/

theorem orderIdOf_injective : Function.Injective orderIdOf := by
  intro x y h
  have hwide : x.signExtend 64 = y.signExtend 64 := BitVec.eq_of_toNat_eq h
  have hint : (x.signExtend 64).toInt = (y.signExtend 64).toInt := by rw [hwide]
  rw [BitVec.toInt_signExtend_of_le (by omega), BitVec.toInt_signExtend_of_le (by omega)] at hint
  exact BitVec.eq_of_toInt_eq hint

/-- The ids that the calls get, in order. -/
theorem numberCalls_arrivals (orderNumber : BitVec 32) (calls : List (Task γ)) :
    (numberCalls orderNumber calls).flatMap Task.arrival =
      (List.range (arrivalsOf calls)).map fun k =>
        orderIdOf (orderNumber + BitVec.ofNat 32 (k + 1)) := by
  induction calls generalizing orderNumber with
  | nil => rfl
  | cons call calls ih =>
    cases call with
    | newOrder order =>
      have hcount : arrivalsOf (.newOrder order :: calls) = arrivalsOf calls + 1 :=
        List.countP_cons_of_pos rfl
      rw [numberCalls, List.flatMap_cons, ih, hcount, List.range_succ_eq_map, List.map_cons,
        List.map_map]
      have hshift : ∀ k, orderNumber + 1 + BitVec.ofNat 32 (k + 1) =
          orderNumber + BitVec.ofNat 32 (k + 1 + 1) := by
        intro k
        rw [BitVec.ofNat_add (k + 1) 1, BitVec.add_assoc,
          BitVec.add_comm (BitVec.ofNat 32 (k + 1))]
        rfl
      simp only [Function.comp_def, hshift]
      rfl
    | cancelOrder order origClientOrderID =>
      have hcount : arrivalsOf (.cancelOrder order origClientOrderID :: calls) =
          arrivalsOf calls := by
        simp [arrivalsOf, Task.isNewOrder]
      rw [numberCalls, List.flatMap_cons, ih, hcount]
      rfl

/-- Up to 2^32 orders the counter does not come back. -/
theorem arrivals_nodup (calls : List (Task γ)) (few : arrivalsOf calls ≤ 2 ^ 32) :
    ((numberCalls 0 calls).flatMap Task.arrival).Nodup := by
  rw [numberCalls_arrivals]
  apply List.Nodup.map_on _ List.nodup_range
  intro j hj k hk hsame
  have hbits := orderIdOf_injective hsame
  have hnat := congrArg BitVec.toNat ((BitVec.add_right_inj _).mp hbits)
  simp only [BitVec.toNat_ofNat] at hnat
  have hjlt := List.mem_range.mp hj
  have hklt := List.mem_range.mp hk
  omega

/-- The new orders of a security have the ids that its arrivals keep. -/
theorem arrivals_filter_nodup {tasks : List (Task γ)} (distinct : (tasks.flatMap Task.arrival).Nodup)
    (keep : Task γ → Bool) : ((tasks.filter keep).flatMap Task.arrival).Nodup :=
  List.Nodup.sublist (List.filter_sublist.flatMap _) distinct

/-- Distinct ids make the new order of an id unique. -/
theorem newOrder_unique {tasks : List (Task γ)} (distinct : (tasks.flatMap Task.arrival).Nodup)
    {order other : Order γ} (horder : .newOrder order ∈ tasks) (hother : .newOrder other ∈ tasks)
    (same : order.orderID = other.orderID) : order = other := by
  induction tasks with
  | nil => cases horder
  | cons task tasks ih =>
    rw [List.flatMap_cons] at distinct
    obtain ⟨-, hrest, hdisjoint⟩ := List.nodup_append'.mp distinct
    have hlater : ∀ {first second : Order γ}, task = .newOrder first → .newOrder second ∈ tasks →
        first.orderID ≠ second.orderID := by
      rintro first second rfl hsecond heq
      apply hdisjoint (a := first.orderID) List.mem_cons_self
      exact List.mem_flatMap.mpr ⟨_, hsecond, by simp [Task.arrival, heq]⟩
    rcases List.mem_cons.mp horder with hhead | horder
    · rcases List.mem_cons.mp hother with hhead' | hother
      · rw [← hhead] at hhead'
        exact (Task.newOrder.inj hhead').symm
      · exact absurd same (hlater hhead.symm hother)
    · rcases List.mem_cons.mp hother with hhead' | hother
      · exact absurd same.symm (hlater hhead'.symm horder)
      · exact ih hrest horder hother

/-- An order that is added has an id of its own. -/
theorem newOrder_disjoint {tasks added : List (Task γ)}
    (distinct : ((tasks ++ added).flatMap Task.arrival).Nodup) {order other : Order γ}
    (horder : .newOrder order ∈ tasks) (hother : .newOrder other ∈ added) :
    order.orderID ≠ other.orderID := by
  intro hsame
  rw [List.flatMap_append] at distinct
  obtain ⟨-, -, hdisjoint⟩ := List.nodup_append'.mp distinct
  apply hdisjoint (a := order.orderID)
  · exact List.mem_flatMap.mpr ⟨_, horder, List.mem_cons_self⟩
  · exact List.mem_flatMap.mpr ⟨_, hother, by simp [Task.arrival, hsame]⟩

/-! ## What each step pushes -/

namespace System

/-- The ACCEPTED report that a step pushes to a ring. -/
def acceptedBy (system : System γ) (queueID : Nat) : Label γ → List (OutgoingMessage γ)
  | .addOrder order =>
    if queueID = system.central.queueID order.securityId then
      [.new (order.setOrderId system.central.nextOrderId) .accepted]
    else []
  | _ => []

/-- A step extends every ring, by its ACCEPTED report and then by task reports of
securities that belong to the ring. -/
def Pushes (system : System γ) (label : Label γ) (next : System γ) : Prop :=
  (∀ securityId, next.central.queueID securityId = system.central.queueID securityId) ∧
  ∀ queueID, ∃ later, (∀ message ∈ later, message.status ≠ .accepted ∧
      system.central.queueID message.order.securityId = queueID) ∧
    next.central.outgoingMessages queueID =
      system.central.outgoingMessages queueID ++ (system.acceptedBy queueID label ++ later)

theorem pushes_of_same {system next : System γ} {label : Label γ}
    (central : next.central.outgoingMessages = system.central.outgoingMessages)
    (queueID : ∀ securityId, next.central.queueID securityId = system.central.queueID securityId)
    (none : ∀ queueID, system.acceptedBy queueID label = []) : system.Pushes label next := by
  refine ⟨queueID, fun ring => ⟨[], fun _ h => absurd h List.not_mem_nil, ?_⟩⟩
  rw [central, none, List.append_nil, List.append_nil]

/-- Reports of a security go to its ring. -/
theorem push_later (central : CentralOrderBook γ) {securityId : Nat}
    {messages : List (OutgoingMessage γ)}
    (h : ∀ message ∈ messages, message.isTaskReport securityId = true) (queueID : Nat) :
    ∃ later, (∀ message ∈ later, message.status ≠ .accepted ∧
        central.queueID message.order.securityId = queueID) ∧
      (central.push securityId messages).outgoingMessages queueID =
        central.outgoingMessages queueID ++ later := by
  rw [CentralOrderBook.outgoingMessages_push]
  by_cases hqueue : queueID = central.queueID securityId
  · refine ⟨messages, fun message hmem => ?_, by rw [if_pos hqueue]⟩
    have hreport := h message hmem
    simp only [OutgoingMessage.isTaskReport, Bool.and_eq_true, beq_iff_eq, bne_iff_ne] at hreport
    exact ⟨hreport.2, by rw [hreport.1, hqueue]⟩
  · exact ⟨[], fun _ hmem => absurd hmem List.not_mem_nil, by rw [if_neg hqueue]⟩

/-- The reports of a task that runs in its call carry the security. -/
theorem Simulates.runTask_security {requests : List (Task γ)} {system : System γ}
    (h : system.Simulates requests) (quiescent : system.Quiescent) {task : Task γ}
    {book : OrderBook γ} {reports : List (OutgoingMessage γ)}
    (hrun : (system.central.book task.securityId).runTask task = some (book, reports)) :
    ∀ message ∈ reports, message.isTaskReport task.securityId = true := by
  obtain ⟨begun, log, hlog⟩ := h.replays task.securityId
  have hbook : log.book = system.central.book task.securityId := by
    rw [← hlog.book, quiescent.bookAfterTask]
  exact replay_reports_security hlog.begun_security hlog.replay (by rw [hbook, hrun])

theorem step_pushes {requests : List (Task γ)} {system next : System γ} {label : Label γ}
    (h : system.Simulates requests) (hstep : system.step label = some next) :
    system.Pushes label next := by
  cases label with
  | addOrder order =>
    simp only [step, addOrder, Option.ite_none_right_eq_some] at hstep
    obtain ⟨-, hstep⟩ := hstep
    have haccept : ∀ queueID,
        (system.central.acceptOrder order).1.outgoingMessages queueID =
          system.central.outgoingMessages queueID ++
            system.acceptedBy queueID (.addOrder order) :=
      fun queueID => CentralOrderBook.outgoingMessages_push
        { system.central with orderNumber := system.central.orderNumber + 1 } order.securityId
        queueID _
    split at hstep
    · obtain rfl := Option.some.inj hstep
      refine ⟨fun _ => rfl, fun queueID => ⟨[], fun _ hmem => absurd hmem List.not_mem_nil, ?_⟩⟩
      rw [List.append_nil]
      exact haccept queueID
    · rename_i hmode
      obtain ⟨central, hrun, rfl⟩ := Option.map_eq_some_iff.mp hstep
      have htask : (system.central.acceptOrder order).1.runTask
          (.newOrder (system.central.acceptOrder order).2) = some central := hrun
      obtain ⟨book, reports, hbook, rfl⟩ := CentralOrderBook.runTask_cases htask
      have haccepted := acceptOrder_simulates h order
      have hsync : (system.central.acceptOrder order).1.isMatchingMultithreaded = false := by
        simpa using hmode
      have hreports := haccepted.runTask_security (haccepted.placed.synchronous hsync) hbook
      refine ⟨fun _ => rfl, fun queueID => ?_⟩
      obtain ⟨later, hlater, hpush⟩ := push_later
        ((system.central.acceptOrder order).1.setBook order.securityId book) hreports queueID
      refine ⟨later, hlater, ?_⟩
      rw [← List.append_assoc, ← haccept queueID]
      exact hpush
  | cancelOrder order origClientOrderID =>
    simp only [step, cancelOrder, Option.ite_none_right_eq_some] at hstep
    obtain ⟨-, hstep⟩ := hstep
    split at hstep
    · obtain ⟨hcentral, -, -⟩ := submitTask_observers hstep 0
      exact pushes_of_same (by rw [hcentral]) (fun _ => by rw [hcentral]) fun _ => rfl
    · rename_i hmode
      obtain rfl := Option.some.inj hstep
      have hrun : system.central.runTask (.cancelOrder order origClientOrderID) =
          some (system.central.taskCancelOrder order origClientOrderID) := rfl
      obtain ⟨book, reports, hbook, hcentral⟩ := CentralOrderBook.runTask_cases hrun
      have hreports := h.runTask_security (h.placed.synchronous (by simpa using hmode)) hbook
      refine ⟨fun _ => rfl, fun queueID => ?_⟩
      obtain ⟨later, hlater, hpush⟩ :=
        push_later (system.central.setBook order.securityId book) hreports queueID
      refine ⟨later, hlater, ?_⟩
      simp only [hcentral]
      exact hpush
  | submit =>
    simp only [step] at hstep
    split at hstep
    · obtain ⟨hcentral, -, -⟩ := submitTask_observers hstep 0
      exact pushes_of_same (by rw [hcentral]) (fun _ => by rw [hcentral]) fun _ => rfl
    · cases hstep
  | work queueIndex =>
    simp only [step, work] at hstep
    split at hstep
    · split at hstep
      · cases hstep
      · obtain ⟨_, -, rfl⟩ := Option.map_eq_some_iff.mp hstep
        exact pushes_of_same rfl (fun _ => rfl) fun _ => rfl
    · rename_i running report pending erasing hbusy
      obtain rfl := Option.some.inj hstep
      have hqueue := h.placed.busy queueIndex running _ _ hbusy
      obtain ⟨begun, log, hlog⟩ := h.replays running
      have hreport : ∀ message ∈ [report], message.isTaskReport running = true := by
        intro message hmem
        apply hlog.pending_security
        rw [List.mem_singleton.mp hmem]
        simp [System.pending, System.worker, hqueue, hbusy]
      exact ⟨fun _ => rfl, fun queueID => push_later system.central hreport queueID⟩
    · obtain rfl := Option.some.inj hstep
      exact pushes_of_same rfl (fun _ => rfl) fun _ => rfl
    · obtain rfl := Option.some.inj hstep
      exact pushes_of_same rfl (fun _ => rfl) fun _ => rfl

/-! ## The rings of a run -/

/-- What the rings hold: reports of the ring's securities, ACCEPTED ones of
submitted orders only, and each submitted order's ACCEPTED report before all its
others. -/
structure Rings (requests : List (Task γ)) (system : System γ) : Prop where
  placed : ∀ queueID, ∀ message ∈ system.central.outgoingMessages queueID,
    system.central.queueID message.order.securityId = queueID
  accepted : ∀ queueID, ∀ message ∈ system.central.outgoingMessages queueID,
    message.status = .accepted →
      ∃ order : Order γ, .newOrder order ∈ requests ∧ message = .new order .accepted
  first : ∀ order : Order γ, .newOrder order ∈ requests →
    history order.orderID
        (system.central.outgoingMessages (system.central.queueID order.securityId)) =
      .accepted :: history order.orderID
        ((system.central.outgoingMessages (system.central.queueID order.securityId)).filter
          fun message => message.status != .accepted)

/-- A report of an order that has been submitted, or of a rejected request. -/
def Known (requests : List (Task γ)) (message : OutgoingMessage γ) : Prop :=
  message.status = .rejected ∨ ∃ order : Order γ, .newOrder order ∈ requests ∧
    order.orderID = message.order.orderID ∧ order.securityId = message.order.securityId

theorem known_rule (requests : List (Task γ)) :
    BookLog.ReportRule (γ := γ) (fun resting => Known requests (.new resting .filled))
      (fun resting => Known requests (.new resting .filled)) (Known requests) := by
  have hkeep : ∀ (resting : Order γ) (message : OutgoingMessage γ),
      Known requests (.new resting .filled) → message.order.orderID = resting.orderID →
      message.order.securityId = resting.securityId → Known requests message := by
    intro resting message hresting hid hsecurity
    rcases hresting with hrejected | ⟨order, hmem, horder, hsame⟩
    · cases hrejected
    · exact Or.inr ⟨order, hmem, horder.trans hid.symm, hsame.trans hsecurity.symm⟩
  have hfill : ∀ order : Order γ, (fillReport order).order.orderID = order.orderID ∧
      (fillReport order).order.securityId = order.securityId := fun _ => ⟨rfl, rfl⟩
  exact
    { closed :=
        { trade := fun bid ask hbid hask _ =>
            ⟨hkeep bid _ hbid (hfill _).1 (hfill _).2, hkeep ask _ hask (hfill _).1 (hfill _).2⟩
          tradedBid := fun bid _ hbid _ _ _ => hkeep bid _ hbid rfl rfl
          tradedAsk := fun _ ask _ hask _ _ => hkeep ask _ hask rfl rfl
          canceledBid := fun bid hbid => hkeep bid _ hbid rfl rfl
          canceledAsk := fun ask hask => hkeep ask _ hask rfl rfl }
      canceledBid := fun bid hbid => hkeep bid _ hbid rfl rfl
      canceledAsk := fun ask hask => hkeep ask _ hask rfl rfl }

/-- What a rule shows of the log of every security, it shows of the task reports
in the rings. -/
theorem Simulates.task_reports {requests : List (Task γ)} {system : System γ}
    (h : system.Simulates requests) {bid ask : Order γ → Prop} {report : OutgoingMessage γ → Prop}
    (rule : BookLog.ReportRule bid ask report)
    (meets : ∀ task ∈ requests, task.Meets bid ask report) {queueID : Nat}
    {message : OutgoingMessage γ} (hmem : message ∈ system.central.outgoingMessages queueID)
    (hplaced : system.central.queueID message.order.securityId = queueID)
    (hstatus : message.status ≠ .accepted) : report message := by
  obtain ⟨begun, log, hlog⟩ := h.replays message.order.securityId
  have hbegun : ∀ task ∈ begun, task.Meets bid ask report :=
    fun task htask => meets task (hlog.begun_requests task htask)
  apply (rule.run begun BookLog.empty_holds hbegun hlog.replay).reports
  rw [← hlog.reports]
  apply List.mem_append_left
  rw [CentralOrderBook.taskReports, hplaced]
  exact List.mem_filter.mpr ⟨hmem, by simp [OutgoingMessage.isTaskReport, hstatus]⟩

theorem meets_known (requests : List (Task γ)) : ∀ task ∈ requests,
    task.Meets (fun resting => Known requests (.new resting .filled))
      (fun resting => Known requests (.new resting .filled)) (Known requests) := by
  intro task hmem
  cases task with
  | newOrder order =>
    have hknown : Known requests (.new order .filled) := Or.inr ⟨order, hmem, rfl, rfl⟩
    exact ⟨fun _ => hknown, fun _ => hknown⟩
  | cancelOrder order origClientOrderID => exact Or.inl rfl

/-- Every report in a ring is of a submitted order or a rejected request. -/
theorem Rings.known {requests : List (Task γ)} {system : System γ} (h : system.Rings requests)
    (hsim : system.Simulates requests) {queueID : Nat} {message : OutgoingMessage γ}
    (hmem : message ∈ system.central.outgoingMessages queueID) : Known requests message := by
  by_cases hstatus : message.status = .accepted
  · obtain ⟨order, horder, rfl⟩ := h.accepted queueID message hmem hstatus
    exact Or.inr ⟨order, horder, rfl, rfl⟩
  · exact hsim.task_reports (known_rule requests) (meets_known requests) hmem
      (h.placed queueID message hmem) hstatus

/-- Task reports that follow keep the ACCEPTED report in front. -/
theorem history_later {orderID : Nat} {ring later : List (OutgoingMessage γ)}
    (h : history orderID ring =
      .accepted :: history orderID (ring.filter fun message => message.status != .accepted))
    (status : ∀ message ∈ later, message.status ≠ .accepted) :
    history orderID (ring ++ later) =
      .accepted :: history orderID ((ring ++ later).filter fun message =>
        message.status != .accepted) := by
  have hfilter : (later.filter fun message => message.status != .accepted) = later :=
    List.filter_eq_self.mpr fun message hmem => by simpa using status message hmem
  rw [List.filter_append, hfilter, history_append, history_append, h, List.cons_append]

/-- The requests that a step adds: the order of an `addOrder`, under its new id. -/
def Adds (system : System γ) (label : Label γ) (added : List (Task γ)) : Prop :=
  ∀ order : Order γ, .newOrder order ∈ added ↔ ∃ called, label = .addOrder called ∧
    order = called.setOrderId system.central.nextOrderId

section Step

variable {requests added : List (Task γ)} {system next : System γ} {label : Label γ}

/-- The ACCEPTED report is that of the order that is added, in the ring of its security. -/
theorem mem_acceptedBy (hadded : system.Adds label added) {queueID : Nat}
    {message : OutgoingMessage γ} (hmem : message ∈ system.acceptedBy queueID label) :
    ∃ order : Order γ, .newOrder order ∈ added ∧
      system.central.queueID order.securityId = queueID ∧ message = .new order .accepted := by
  cases label with
  | addOrder called =>
    simp only [acceptedBy] at hmem
    split at hmem
    · rename_i hqueue
      exact ⟨_, (hadded _).mpr ⟨called, rfl, rfl⟩, hqueue.symm, List.mem_singleton.mp hmem⟩
    · cases hmem
  | cancelOrder order origClientOrderID => cases hmem
  | submit => cases hmem
  | work queueIndex => cases hmem

/-- An order that was there before does not get a second ACCEPTED report. -/
theorem Rings.first_kept (h : system.Rings requests)
    (distinct : ((requests ++ added).flatMap Task.arrival).Nodup)
    (hadded : system.Adds label added) {order : Order γ} (hmem : .newOrder order ∈ requests) :
    history order.orderID (system.central.outgoingMessages
          (system.central.queueID order.securityId) ++
        system.acceptedBy (system.central.queueID order.securityId) label) =
      .accepted :: history order.orderID ((system.central.outgoingMessages
          (system.central.queueID order.securityId) ++
        system.acceptedBy (system.central.queueID order.securityId) label).filter
          fun message => message.status != .accepted) := by
  have hother : history order.orderID
      (system.acceptedBy (system.central.queueID order.securityId) label) = [] := by
    apply history_eq_nil
    intro message hmessage _ hid
    obtain ⟨other, hotherMem, -, rfl⟩ := mem_acceptedBy hadded hmessage
    exact newOrder_disjoint distinct hmem hotherMem hid.symm
  have hnone : (system.acceptedBy (system.central.queueID order.securityId) label).filter
      (fun message => message.status != .accepted) = [] := by
    apply List.filter_eq_nil_iff.mpr
    intro message hmessage
    obtain ⟨other, -, -, rfl⟩ := mem_acceptedBy hadded hmessage
    simp [OutgoingMessage.new, OutgoingMessage.status]
  rw [List.filter_append, hnone, List.append_nil, history_append, hother, List.append_nil]
  exact h.first order hmem

/-- No report of a new id has been pushed, so its first one is the ACCEPTED one. -/
theorem Rings.first_added (h : system.Rings requests) (hsim : system.Simulates requests)
    (distinct : ((requests ++ added).flatMap Task.arrival).Nodup) {called : Order γ}
    (hnew : .newOrder (called.setOrderId system.central.nextOrderId) ∈ added) :
    history system.central.nextOrderId (system.central.outgoingMessages
          (system.central.queueID called.securityId) ++
        system.acceptedBy (system.central.queueID called.securityId) (.addOrder called)) =
      .accepted :: history system.central.nextOrderId ((system.central.outgoingMessages
          (system.central.queueID called.securityId) ++
        system.acceptedBy (system.central.queueID called.securityId) (.addOrder called)).filter
          fun message => message.status != .accepted) := by
  have hfresh : ∀ messages : List (OutgoingMessage γ),
      (∀ message ∈ messages, message ∈ system.central.outgoingMessages
        (system.central.queueID called.securityId)) →
      history system.central.nextOrderId messages = [] := by
    intro messages hsub
    apply history_eq_nil
    intro message hmessage hstatus hid
    rcases h.known hsim (hsub message hmessage) with hrejected | ⟨other, hother, hsame, -⟩
    · exact hstatus hrejected
    · exact newOrder_disjoint distinct hother hnew (hsame.trans hid)
  have hpushed : system.acceptedBy (system.central.queueID called.securityId)
      (.addOrder called) = [.new (called.setOrderId system.central.nextOrderId) .accepted] := by
    simp [acceptedBy]
  have hempty := hfresh _ fun message hmessage => hmessage
  have hrest := hfresh ((system.central.outgoingMessages
    (system.central.queueID called.securityId)).filter
      fun message => message.status != .accepted) fun message hmessage =>
        (List.mem_filter.mp hmessage).1
  rw [hpushed, List.filter_append, history_append, history_append, hempty, hrest]
  simp [history, Order.setOrderId, OutgoingMessage.new, OutgoingMessage.status]

theorem Rings.step (h : system.Rings requests) (hsim : system.Simulates requests)
    (distinct : ((requests ++ added).flatMap Task.arrival).Nodup)
    (hadded : system.Adds label added) (hpushes : system.Pushes label next) :
    next.Rings (requests ++ added) := by
  obtain ⟨hqueueID, hrings⟩ := hpushes
  constructor
  · intro queueID message hmem
    obtain ⟨later, hlater, hring⟩ := hrings queueID
    rw [hring, List.mem_append, List.mem_append] at hmem
    rw [hqueueID]
    rcases hmem with hold | hnew | hnew
    · exact h.placed queueID message hold
    · obtain ⟨order, -, hqueue, rfl⟩ := mem_acceptedBy hadded hnew
      exact hqueue
    · exact (hlater message hnew).2
  · intro queueID message hmem hstatus
    obtain ⟨later, hlater, hring⟩ := hrings queueID
    rw [hring, List.mem_append, List.mem_append] at hmem
    rcases hmem with hold | hnew | hnew
    · obtain ⟨order, horder, hmessage⟩ := h.accepted queueID message hold hstatus
      exact ⟨order, List.mem_append_left _ horder, hmessage⟩
    · obtain ⟨order, horder, -, hmessage⟩ := mem_acceptedBy hadded hnew
      exact ⟨order, List.mem_append_right _ horder, hmessage⟩
    · exact absurd hstatus (hlater message hnew).1
  · intro order hmem
    rw [hqueueID]
    obtain ⟨later, hlater, hring⟩ := hrings (system.central.queueID order.securityId)
    rw [hring, ← List.append_assoc]
    apply history_later _ fun message hmessage => (hlater message hmessage).1
    rcases List.mem_append.mp hmem with hold | hnew
    · exact h.first_kept distinct hadded hold
    · obtain ⟨called, rfl, rfl⟩ := (hadded order).mp hnew
      exact h.first_added hsim distinct hnew

end Step

theorem empty_rings (symbols : List Bytes) (multithreaded : Bool) :
    (configured (γ := γ) symbols multithreaded).Rings [] := by
  have hempty : ∀ queueID,
      (configured (γ := γ) symbols multithreaded).central.outgoingMessages queueID = [] := by
    intro queueID
    rw [(configured_start symbols multithreaded).1]
  constructor
  · intro queueID message hmem
    rw [hempty] at hmem
    cases hmem
  · intro queueID message hmem
    rw [hempty] at hmem
    cases hmem
  · intro order hmem
    cases hmem

/-- In every run of at most 2^32 `addOrder` calls. -/
theorem run_rings (symbols : List Bytes) (multithreaded : Bool) {labels : List (Label γ)}
    {system : System γ} (h : run step (configured symbols multithreaded) labels = some system)
    (few : arrivalsOf (callsOf labels) ≤ 2 ^ 32) : system.Rings (requestsOf labels) := by
  revert few
  apply run_induction (fun labels (system : System γ) =>
    arrivalsOf (callsOf labels) ≤ 2 ^ 32 → system.Rings (requestsOf labels)) _ _ h
  · exact fun _ => empty_rings symbols multithreaded
  · intro labels system label next hrun hI hstep few
    obtain ⟨hsim, hnumber⟩ := run_simulates symbols multithreaded hrun
    have hfewer : arrivalsOf (callsOf labels) ≤ 2 ^ 32 := by
      rw [callsOf_snoc, arrivalsOf, List.countP_append] at few
      unfold arrivalsOf
      omega
    have hdistinct := arrivals_nodup (callsOf (labels ++ [label])) few
    rw [← requestsOf] at hdistinct
    rw [requestsOf_snoc] at hdistinct ⊢
    apply (hI hfewer).step hsim hdistinct _ (step_pushes hsim hstep)
    intro order
    rw [← hnumber]
    cases label with
    | addOrder called =>
      simp only [Label.call, Option.toList_some, numberCalls, List.mem_singleton,
        Task.newOrder.injEq, Label.addOrder.injEq, exists_eq_left']
      rfl
    | cancelOrder order origClientOrderID => simp [Label.call, numberCalls]
    | submit => simp [Label.call, numberCalls]
    | work queueIndex => simp [Label.call, numberCalls]

section Order

variable {requests : List (Task γ)} {system : System γ} {order : Order γ}

/-- A report of the id of an order, wherever it is, carries the order's security. -/
theorem Rings.security (h : system.Rings requests) (hsim : system.Simulates requests)
    (distinct : (requests.flatMap Task.arrival).Nodup) (hmem : .newOrder order ∈ requests)
    {queueID : Nat} {message : OutgoingMessage γ}
    (hmessage : message ∈ system.central.outgoingMessages queueID)
    (hid : message.order.orderID = order.orderID) (hstatus : message.status ≠ .rejected) :
    message.order.securityId = order.securityId := by
  rcases h.known hsim hmessage with hrejected | ⟨other, hother, hsame, hsecurity⟩
  · exact absurd hrejected hstatus
  · rw [← hsecurity, newOrder_unique distinct hother hmem (hsame.trans hid)]

/-- Its ring has the ACCEPTED report of an order and then what the tasks report of it. -/
theorem Rings.history_ring (h : system.Rings requests) (hsim : system.Simulates requests)
    (distinct : (requests.flatMap Task.arrival).Nodup) (hmem : .newOrder order ∈ requests) :
    history order.orderID
        (system.central.outgoingMessages (system.central.queueID order.securityId)) =
      .accepted :: history order.orderID (system.central.taskReports order.securityId) := by
  have htask : history order.orderID ((system.central.outgoingMessages
        (system.central.queueID order.securityId)).filter
          fun message => message.status != .accepted) =
      history order.orderID (system.central.taskReports order.securityId) := by
    unfold history CentralOrderBook.taskReports
    rw [List.filter_filter, List.filter_filter]
    congr 1
    apply List.filter_congr
    intro message hmessage
    rw [Bool.eq_iff_iff]
    simp only [OutgoingMessage.isTaskReport, Bool.and_eq_true, beq_iff_eq, bne_iff_ne]
    constructor
    · rintro ⟨⟨hid, hrejected⟩, haccepted⟩
      exact ⟨⟨hid, hrejected⟩, h.security hsim distinct hmem hmessage hid hrejected, haccepted⟩
    · rintro ⟨hown, -, haccepted⟩
      exact ⟨hown, haccepted⟩
  rw [h.first order hmem, htask]

/-- The other rings have no report of the order. -/
theorem Rings.history_elsewhere (h : system.Rings requests) (hsim : system.Simulates requests)
    (distinct : (requests.flatMap Task.arrival).Nodup) (hmem : .newOrder order ∈ requests)
    {queueID : Nat} (hother : queueID ≠ system.central.queueID order.securityId) :
    history order.orderID (system.central.outgoingMessages queueID) = [] := by
  apply history_eq_nil
  intro message hmessage hrejected hid
  apply hother
  rw [← h.placed queueID message hmessage,
    h.security hsim distinct hmem hmessage hid hrejected]

end Order

end System

/-! ## The life cycle -/

/-- The order rests in exactly one of the two containers, once. -/
def OrderBook.RestsOnce (book : OrderBook γ) (orderID : Nat) : Prop :=
  book.bidOrders.countP (fun order => order.orderID == orderID) +
    book.askOrders.countP (fun order => order.orderID == orderID) = 1

instance (book : OrderBook γ) (orderID : Nat) : Decidable (book.RestsOnce orderID) :=
  inferInstanceAs (Decidable (_ = _))

/-- Cumulative and leaves quantity add up, as values of a `long`, and a fill is FILLED iff nothing
is left. -/
def OutgoingMessage.Consistent (message : OutgoingMessage γ) : Prop :=
  message.order.Balanced ∧
    (message.isFill = true → (message.status = .filled ↔ message.order.openQuantity = 0))

theorem consistent_rule :
    BookLog.ReportRule (γ := γ) Order.Balanced Order.Balanced OutgoingMessage.Consistent := by
  have hfill : ∀ order : Order γ, order.Balanced → (fillReport order).Consistent := by
    intro order hbalanced
    refine ⟨⟨hbalanced.openQuantity, hbalanced.executedQuantity, hbalanced.sum⟩, fun _ => ?_⟩
    rw [(fillReport_status order).2, Order.isFilled_iff hbalanced]
    rfl
  have hcanceled : ∀ order : Order γ, order.Balanced →
      (OutgoingMessage.new order.cancel .canceled).Consistent := by
    intro order hbalanced
    refine ⟨OutgoingMessage.balanced_new hbalanced.cancel _, fun hfill => ?_⟩
    cases hfill
  exact
    { closed :=
        { trade := fun bid ask hbid hask _ =>
            ⟨hfill _ (Order.execute_balanced hbid _ _), hfill _ (Order.execute_balanced hask _ _)⟩
          tradedBid := fun bid ask hbid _ _ _ => Order.execute_balanced hbid _ _
          tradedAsk := fun bid ask _ hask _ _ => Order.execute_balanced hask _ _
          canceledBid := fun _ h => h.cancel
          canceledAsk := fun _ h => h.cancel }
      canceledBid := hcanceled
      canceledAsk := hcanceled }

/-- Numbering keeps what does not depend on the numbers. -/
theorem numberCalls_forall {P : Task γ → Prop}
    (keep : ∀ (order : Order γ) (orderID : Nat), P (.newOrder order) →
      P (.newOrder (order.setOrderId orderID)))
    (orderNumber : BitVec 32) {calls : List (Task γ)} (h : ∀ call ∈ calls, P call) :
    ∀ task ∈ numberCalls orderNumber calls, P task := by
  induction calls generalizing orderNumber with
  | nil => exact fun _ hmem => absurd hmem List.not_mem_nil
  | cons call calls ih =>
    obtain ⟨hcall, hcalls⟩ := List.forall_mem_cons.mp h
    cases call with
    | newOrder order => exact List.forall_mem_cons.mpr ⟨keep order _ hcall, ih _ hcalls⟩
    | cancelOrder order origClientOrderID =>
      exact List.forall_mem_cons.mpr ⟨hcall, ih _ hcalls⟩

/-- An order as the callers construct it: fresh, and a BUY or a SELL. -/
structure Task.Constructed (task : Task γ) : Prop where
  fresh : task.order.Fresh
  side : task.order.side = .buy ∨ task.order.side = .sell

theorem Task.Constructed.numbered {order : Order γ}
    (h : (Task.newOrder order).Constructed) (orderID : Nat) :
    (Task.newOrder (order.setOrderId orderID)).Constructed :=
  ⟨h.fresh.setOrderId orderID, h.side⟩

theorem Task.Constructed.admitted {task : Task γ} (h : task.Constructed) : task.Admitted := by
  cases task with
  | newOrder order => exact ⟨h.fresh, h.side⟩
  | cancelOrder order origClientOrderID => trivial

/-- Whether the order of an id has left, by its book and by its reports. -/
theorem BookLog.Sound.rests_iff {arrived : List Nat} {log : BookLog γ} (h : log.Sound arrived)
    (cycles : Cycles log.reports) (distinct : arrived.Nodup) {orderID : Nat}
    (hmem : orderID ∈ arrived) :
    (log.book.RestsOnce orderID ↔ .filled ∉ history orderID log.reports ∧
      .canceled ∉ history orderID log.reports) ∧
    (¬ log.book.RestsOnce orderID → ∀ order ∈ log.book.orders, order.orderID ≠ orderID) := by
  have hcount : (log.book.bidOrders.countP fun order => order.orderID == orderID) +
      (log.book.askOrders.countP fun order => order.orderID == orderID) +
      (departedIds log.reports).count orderID = 1 := by
    have hone := List.count_eq_one_of_mem distinct hmem
    rw [← h.arrived.count_eq, BookLog.accounts, List.map_append, List.count_append, List.map_map,
      OrderBook.orders, List.map_append, List.count_append] at hone
    simpa [List.count, List.countP_map, Function.comp_def, Order.account, departedIds] using hone
  obtain ⟨fills, last, hhistory, hend, hlast⟩ := cycles orderID
  have hends : (.filled ∉ history orderID log.reports ∧ .canceled ∉ history orderID log.reports) ↔
      last = [] := by
    rw [hhistory]
    rcases hend with rfl | rfl | rfl
    · simp
    · simp
    · simp
  have hdeparted : (departedIds log.reports).count orderID = 0 ↔ last = [] := by
    rw [List.count_eq_zero, ← hlast, not_not]
  constructor
  · rw [hends, ← hdeparted]
    unfold OrderBook.RestsOnce
    omega
  · intro hrests order horder
    have hzero : (log.book.bidOrders.countP fun order => order.orderID == orderID) = 0 ∧
        (log.book.askOrders.countP fun order => order.orderID == orderID) = 0 := by
      unfold OrderBook.RestsOnce at hrests
      omega
    rw [List.countP_eq_zero, List.countP_eq_zero] at hzero
    rcases List.mem_append.mp horder with hbid | hask
    · simpa using hzero.1 order hbid
    · simpa using hzero.2 order hask

/-- What the calls construct makes every report consistent, ACCEPTED ones included. -/
theorem System.Rings.consistent {requests : List (Task γ)} {system : System γ}
    (h : system.Rings requests) (hsim : system.Simulates requests)
    (constructed : ∀ task ∈ requests, task.Constructed) {queueID : Nat}
    {report : OutgoingMessage γ} (hmem : report ∈ system.central.outgoingMessages queueID) :
    report.Consistent := by
  by_cases haccepted : report.status = .accepted
  · obtain ⟨order, horder, rfl⟩ := h.accepted queueID report hmem haccepted
    refine ⟨OutgoingMessage.balanced_new (constructed _ horder).fresh.balanced _,
      fun hfill => ?_⟩
    cases hfill
  · apply hsim.task_reports consistent_rule _ hmem (h.placed queueID report hmem) haccepted
    intro task htask
    have hfresh := (constructed task htask).fresh
    cases task with
    | newOrder order => exact ⟨fun _ => hfresh.balanced, fun _ => hfresh.balanced⟩
    | cancelOrder order origClientOrderID =>
      refine ⟨OutgoingMessage.balanced_new hfresh.balanced _, fun hfill => ?_⟩
      cases hfill

/-- Where no new order has a negative quantity, they add up as integers. -/
theorem System.Rings.exact {requests : List (Task γ)} {system : System γ}
    (h : system.Rings requests) (hsim : system.Simulates requests)
    (constructed : ∀ task ∈ requests, task.Constructed)
    (nonneg : ∀ task ∈ requests, task.NonNegative) {queueID : Nat} {report : OutgoingMessage γ}
    (hmem : report ∈ system.central.outgoingMessages queueID) : report.Exact := by
  have hfresh : ∀ {order : Order γ} (status : OrderStatus), order.Fresh →
      (OutgoingMessage.new order status).order.openQuantity +
        (OutgoingMessage.new order status).order.executedQuantity =
          (OutgoingMessage.new order status).order.quantity := by
    intro order status hfresh
    simp only [OutgoingMessage.new, hfresh.openQuantity, hfresh.executedQuantity, Int.add_zero]
  by_cases haccepted : report.status = .accepted
  · obtain ⟨order, horder, rfl⟩ := h.accepted queueID report hmem haccepted
    exact ⟨hfresh _ (constructed _ horder).fresh, fun hfill => by cases hfill⟩
  · refine hsim.task_reports counted_rule (fun task htask => ?_) hmem
      (h.placed queueID report hmem) haccepted
    have hconstructed := constructed task htask
    cases task with
    | newOrder order =>
      have hcounted := hconstructed.fresh.counted (nonneg _ htask)
      exact ⟨fun _ => hcounted, fun _ => hcounted⟩
    | cancelOrder order origClientOrderID =>
      exact ⟨hfresh _ hconstructed.fresh, fun hfill => by cases hfill⟩

/-- The life cycle over every interleaving of at most 2^32 orders: REJECTED reports
apart, the reports of an accepted order are in the ring of its security and form a
life cycle; the order rests once, between two tasks after its own, if and only if
neither FILLED nor CANCELED was pushed; and every report is consistent, as integers where no
quantity is negative. -/
theorem order_life_cycle (symbols : List Bytes) (multithreaded : Bool) (labels : List (Label γ))
    (system : System γ)
    (h : run System.step (System.configured symbols multithreaded) labels = some system)
    (constructed : ∀ call ∈ callsOf labels, call.Constructed)
    (few : arrivalsOf (callsOf labels) ≤ 2 ^ 32) :
    (∀ order : Order γ, .newOrder order ∈ requestsOf labels →
      ∀ reports, reports = system.central.outgoingMessages
        (system.central.queueID order.securityId) →
      IsLifeCycle (history order.orderID reports) ∧
      (∀ queueID, queueID ≠ system.central.queueID order.securityId →
        history order.orderID (system.central.outgoingMessages queueID) = []) ∧
      (.newOrder order ∉ system.waiting order.securityId →
        system.worker order.securityId = .idle →
        ((system.central.book order.securityId).RestsOnce order.orderID ↔
          .filled ∉ history order.orderID reports ∧ .canceled ∉ history order.orderID reports) ∧
        (¬ (system.central.book order.securityId).RestsOnce order.orderID →
          ∀ resting ∈ (system.central.book order.securityId).orders,
            resting.orderID ≠ order.orderID))) ∧
    ∀ queueID, ∀ report ∈ system.central.outgoingMessages queueID, report.Consistent ∧
      ((∀ call ∈ callsOf labels, call.NonNegative) →
        report.order.openQuantity + report.order.executedQuantity = report.order.quantity) := by
  obtain ⟨hsim, -⟩ := System.run_simulates symbols multithreaded h
  have hrings := System.run_rings symbols multithreaded h few
  have hdistinct : ((requestsOf labels).flatMap Task.arrival).Nodup :=
    arrivals_nodup (callsOf labels) few
  have hconstructed : ∀ task ∈ requestsOf labels, task.Constructed :=
    numberCalls_forall (fun _ orderID hcall => hcall.numbered orderID) 0 constructed
  refine ⟨?_, fun queueID report hmem => ⟨hrings.consistent hsim hconstructed hmem,
    fun hcalls => (hrings.exact hsim hconstructed (numberCalls_forall
      (fun _ _ hnonneg => hnonneg) 0 hcalls) hmem).sum⟩⟩
  rintro order hmem reports rfl
  obtain ⟨begun, log, hlog⟩ := hsim.replays order.securityId
  have hbegunDistinct : (begun.flatMap Task.arrival).Nodup := by
    have hfilter := arrivals_filter_nodup hdistinct
      fun task => task.securityId == order.securityId
    rw [hlog.submitted, List.flatMap_append] at hfilter
    exact (List.nodup_append'.mp hfilter).1
  obtain ⟨hsound, hcycles⟩ := BookLog.run_cycles begun
    (fun task htask => (hconstructed task (hlog.begun_requests task htask)).admitted)
    hbegunDistinct hlog.replay
  have hring := hrings.history_ring hsim hdistinct hmem
  refine ⟨?_, fun queueID hother => hrings.history_elsewhere hsim hdistinct hmem hother,
    fun hbegun hidle => ?_⟩
  · have hfront : history order.orderID (system.central.taskReports order.securityId) <+:
        history order.orderID log.reports := by
      rw [← hlog.reports, history_append]
      exact List.prefix_append _ _
    obtain ⟨fills, last, hhistory, hend, -⟩ := hcycles order.orderID
    exact ⟨_, hring, FillsThenEnd.of_prefix ⟨fills, last, hhistory, hend⟩ hfront⟩
  · obtain ⟨hbook, hreports⟩ := hlog.idle hidle
    have hhas : .newOrder order ∈ begun := hlog.begun_of_not_waiting hmem rfl hbegun
    have harrived : order.orderID ∈ begun.flatMap Task.arrival :=
      List.mem_flatMap.mpr ⟨_, hhas, List.mem_cons_self⟩
    have hrests := hsound.rests_iff hcycles hbegunDistinct harrived
    rw [hbook, hring, hreports]
    simpa using hrests

/-- A BUY order, and a cancel request of its session whose order has the id 1. -/
def firstOrder : Order Unit := .new 0 (ascii "1") 0 0 .buy .limit 10 5 ()

def cancelRequest : Order Unit := .new 1 (ascii "2") 0 0 .buy .limit 0 0 ()

theorem firstOrder_constructed (origClientOrderID : Bytes) :
    ∀ call ∈ [Task.newOrder firstOrder, .cancelOrder cancelRequest origClientOrderID],
      call.Constructed := by
  simp only [List.forall_mem_cons]
  exact ⟨⟨⟨rfl, rfl, by decide⟩, Or.inl rfl⟩, ⟨⟨rfl, rfl, isLong_zero⟩, Or.inl rfl⟩,
    fun _ h => absurd h List.not_mem_nil⟩

/-- The order is accepted, begun, canceled and erased. -/
def canceledLabels : List (Label Unit) :=
  [.addOrder firstOrder, .submit, .work 0, .work 0, .cancelOrder cancelRequest (ascii "1"),
    .work 0, .work 0, .work 0, .work 0]

theorem order_life_cycle_canceled :
    ∃ system, run System.step (System.configured [ascii "AAPL"] true) canceledLabels =
        some system ∧
      history 1 (system.central.outgoingMessages 0) = [.accepted, .canceled] ∧
      IsLifeCycle (history 1 (system.central.outgoingMessages 0)) := by
  have hhistory : (run System.step (System.configured [ascii "AAPL"] true) canceledLabels).map
      (fun system => (history 1 (system.central.outgoingMessages 0),
        system.central.queueID 0)) = some ([.accepted, .canceled], 0) := by
    rfl
  obtain ⟨system, hrun, hsystem⟩ := Option.map_eq_some_iff.mp hhistory
  simp only [Prod.mk.injEq] at hsystem
  have hcycle := ((order_life_cycle [ascii "AAPL"] true canceledLabels system hrun
    (firstOrder_constructed _) (by decide)).1 (firstOrder.setOrderId 1) List.mem_cons_self _ rfl).1
  have hqueue : system.central.queueID (firstOrder.setOrderId 1).securityId = 0 := hsystem.2
  rw [hqueue] at hcycle
  exact ⟨system, hrun, hsystem.1, hcycle⟩

/-! ## Where the life cycle needs its conditions -/

/-- The ring after `count` equal orders that no worker has touched. -/
theorem accepted_run (order : Order γ) (security : order.securityId = 0) (count : Nat) :
    ∃ system, run System.step (System.configured [ascii "AAPL"] true)
        ((List.range count).flatMap fun _ => [.addOrder order, .submit]) = some system ∧
      system.submitting = none ∧ system.threadCount = 1 ∧
      system.central.isMatchingMultithreaded = true ∧ system.central.queueID 0 = 0 ∧
      system.central.orderNumber = BitVec.ofNat 32 count ∧
      system.central.outgoingMessages 0 = (List.range count).map fun k =>
        .new (order.setOrderId (orderIdOf (BitVec.ofNat 32 (k + 1)))) .accepted := by
  induction count with
  | zero => exact ⟨_, rfl, rfl, rfl, rfl, rfl, rfl, rfl⟩
  | succ count ih =>
    obtain ⟨system, hrun, hidle, hthreads, hmode, hqueue, hnumber, hring⟩ := ih
    have hnext : system.central.nextOrderId = orderIdOf (BitVec.ofNat 32 (count + 1)) := by
      rw [CentralOrderBook.nextOrderId, hnumber, BitVec.ofNat_add]
      rfl
    have hadd : system.step (.addOrder order) = some { system with
        central := (system.central.acceptOrder order).1
        submitting := some (.newOrder (system.central.acceptOrder order).2) } := by
      have haccept : (system.central.acceptOrder order).1.isMatchingMultithreaded = true := hmode
      simp [System.step, System.addOrder, hidle, haccept]
    have hsubmit : ({ system with
        central := (system.central.acceptOrder order).1
        submitting := some (.newOrder (system.central.acceptOrder order).2) } : System γ).step
          .submit = some { system with
            central := (system.central.acceptOrder order).1
            threadQueues := Function.update system.threadQueues 0 (system.threadQueues 0 ++
              [.newOrder (system.central.acceptOrder order).2])
            submitting := none } := by
      have hsecurity : (Task.newOrder (system.central.acceptOrder order).2).securityId = 0 :=
        security
      simp [System.step, System.submitTask, hthreads, hsecurity, hqueue]
    refine ⟨{ system with
      central := (system.central.acceptOrder order).1
      threadQueues := Function.update system.threadQueues 0 (system.threadQueues 0 ++
        [.newOrder (system.central.acceptOrder order).2])
      submitting := none }, ?_, rfl, hthreads, hmode, hqueue, ?_, ?_⟩
    · rw [List.range_succ, List.flatMap_append, List.flatMap_singleton, run_append, hrun]
      simp only [Option.bind_some, run_cons, hadd, hsubmit, run_nil]
    · rw [BitVec.ofNat_add, ← hnumber]
      rfl
    · have hpush := CentralOrderBook.outgoingMessages_push
        { system.central with orderNumber := system.central.orderNumber + 1 } order.securityId 0
        [.new (order.setOrderId system.central.nextOrderId) .accepted]
      have hown : 0 = ({ system.central with orderNumber := system.central.orderNumber + 1 } :
          CentralOrderBook γ).queueID order.securityId := by
        rw [security]
        exact hqueue.symm
      rw [if_pos hown] at hpush
      rw [List.range_succ, List.map_append, ← hring, List.map_singleton, ← hnext]
      exact hpush

/-- Behind its first report, a life cycle has no ACCEPTED and no REJECTED one. -/
theorem not_isLifeCycle {statuses : List OrderStatus} {first status : OrderStatus}
    (h : [first, status].Sublist statuses) (other : status = .accepted ∨ status = .rejected) :
    ¬ IsLifeCycle statuses := by
  rintro ⟨later, rfl, fills, last, rfl, hend⟩
  have hlater : status ∈ List.replicate fills .partiallyFilled ++ last := by
    have htail := h.tail
    exact htail.subset List.mem_cons_self
  rcases List.mem_append.mp hlater with hfill | hlast
  · obtain ⟨-, rfl⟩ := List.mem_replicate.mp hfill
    simp at other
  · rcases hend with rfl | rfl | rfl
    · cases hlast
    · obtain rfl := List.mem_singleton.mp hlast
      simp at other
    · obtain rfl := List.mem_singleton.mp hlast
      simp at other

/-- Without its four conditions the life cycle fails. The order of a cancel request
has an uninitialised id, so its REJECTED report may carry an accepted one; between
the CANCELED report and the erase an order with an end report still rests; the
counter comes back after 2^32 orders; and what is open goes beyond a `long` where a
negative quantity is traded. -/
theorem order_life_cycle_conditions :
    (∃ labels system,
      run System.step (System.configured [ascii "AAPL"] true) labels = some system ∧
      (∀ call ∈ callsOf labels, call.Constructed) ∧
      .newOrder (firstOrder.setOrderId 1) ∈ requestsOf labels ∧
      ¬ IsLifeCycle (((system.central.outgoingMessages 0).filter
        fun report => report.order.orderID == 1).map OutgoingMessage.status)) ∧
    (∃ labels system,
      run System.step (System.configured [ascii "AAPL"] true) labels = some system ∧
      (∀ call ∈ callsOf labels, call.Constructed) ∧
      .newOrder (firstOrder.setOrderId 1) ∈ requestsOf labels ∧
      .newOrder (firstOrder.setOrderId 1) ∉ system.waiting 0 ∧
      .canceled ∈ history 1 (system.central.outgoingMessages 0) ∧
      (system.central.book 0).RestsOnce 1) ∧
    (∃ labels system,
      run System.step (System.configured [ascii "AAPL"] true) labels = some system ∧
      (∀ call ∈ callsOf labels, call.Constructed) ∧
      .newOrder (firstOrder.setOrderId 1) ∈ requestsOf labels ∧
      ¬ IsLifeCycle (history 1 (system.central.outgoingMessages 0))) ∧
    ∃ labels system,
      run System.step (System.configured [ascii "AAPL"] true) labels = some system ∧
      callsOf labels = wrappingTasks ∧
      (∀ call ∈ callsOf labels, call.Constructed) ∧
      ∃ report ∈ system.central.outgoingMessages 0,
        report.order.openQuantity + report.order.executedQuantity ≠ report.order.quantity := by
  refine ⟨?_, ?_, ?_, ?_⟩
  · have hstatuses : (run System.step (System.configured [ascii "AAPL"] true)
        [.addOrder firstOrder, .submit, .work 0, .work 0, .cancelOrder cancelRequest (ascii "9"),
          .work 0, .work 0]).map (fun system => ((system.central.outgoingMessages 0).filter
            fun report => report.order.orderID == 1).map OutgoingMessage.status) =
        some [.accepted, .rejected] := by
      rfl
    obtain ⟨system, hrun, hreports⟩ := Option.map_eq_some_iff.mp hstatuses
    refine ⟨_, system, hrun, firstOrder_constructed _, List.mem_cons_self, ?_⟩
    rw [hreports]
    exact not_isLifeCycle (List.Sublist.refl _) (Or.inr rfl)
  · have hstate : (run System.step (System.configured [ascii "AAPL"] true)
        [.addOrder firstOrder, .submit, .work 0, .work 0, .cancelOrder cancelRequest (ascii "1"),
          .work 0, .work 0]).map (fun system => (system.waiting 0,
            history 1 (system.central.outgoingMessages 0),
            decide ((system.central.book 0).RestsOnce 1))) =
        some ([], [.accepted, .canceled], true) := by
      rfl
    obtain ⟨system, hrun, hsystem⟩ := Option.map_eq_some_iff.mp hstate
    simp only [Prod.mk.injEq, decide_eq_true_eq] at hsystem
    obtain ⟨hwaiting, hhistory, hrests⟩ := hsystem
    refine ⟨_, system, hrun, firstOrder_constructed _, List.mem_cons_self, ?_, ?_, hrests⟩
    · rw [hwaiting]
      exact List.not_mem_nil
    · rw [hhistory]
      exact List.mem_cons_of_mem _ List.mem_cons_self
  · obtain ⟨system, hrun, -, -, -, -, -, hring⟩ := accepted_run firstOrder rfl (2 ^ 32 + 1)
    have hcalls : ∀ count, callsOf ((List.range count).flatMap fun _ =>
        [Label.addOrder firstOrder, .submit]) = List.replicate count (.newOrder firstOrder) := by
      intro count
      induction count with
      | zero => rfl
      | succ count ih =>
        rw [List.range_succ, List.flatMap_append, List.replicate_succ', ← ih]
        unfold callsOf
        rw [List.filterMap_append]
        rfl
    refine ⟨_, system, hrun, ?_, ?_, ?_⟩
    · intro call hmem
      rw [hcalls] at hmem
      rw [(List.mem_replicate.mp hmem).2]
      exact firstOrder_constructed [] _ List.mem_cons_self
    · rw [requestsOf, hcalls, List.replicate_succ]
      exact List.mem_cons_self
    · have htwice : [0, 2 ^ 32].Sublist (List.range (2 ^ 32 + 1)) := by
        rw [List.range_succ]
        have hzero : [0].Sublist (List.range (2 ^ 32)) :=
          List.singleton_sublist.mpr (List.mem_range.mpr (by omega))
        exact hzero.append (List.Sublist.refl [2 ^ 32])
      have hreports := ((htwice.map fun k => (OutgoingMessage.new (firstOrder.setOrderId
        (orderIdOf (BitVec.ofNat 32 (k + 1)))) .accepted)).filter fun message =>
          message.order.orderID == 1 && message.status != .rejected).map OutgoingMessage.status
      rw [← hring] at hreports
      exact not_isLifeCycle hreports (Or.inl rfl)
  · have hring : (run System.step (System.configured [ascii "AAPL"] true)
        [.addOrder (.new 0 (ascii "1") 0 0 .buy .limit 10 (2 ^ 63 - 1) ()), .submit, .work 0,
          .work 0, .addOrder (.new 0 (ascii "2") 0 1 .sell .limit 10 (-1) ()), .submit, .work 0,
          .work 0]).map (fun system => (system.central.outgoingMessages 0).any fun report =>
            decide (report.order.openQuantity + report.order.executedQuantity ≠
              report.order.quantity)) = some true := by
      decide +kernel
    obtain ⟨system, hrun, hany⟩ := Option.map_eq_some_iff.mp hring
    obtain ⟨report, hmem, hdiffers⟩ := List.any_eq_true.mp hany
    refine ⟨_, system, hrun, rfl, ?_, report, hmem, of_decide_eq_true hdiffers⟩
    simp only [callsOf, List.filterMap_cons, List.filterMap_nil, Label.call, List.forall_mem_cons]
    exact ⟨⟨⟨rfl, rfl, by decide⟩, Or.inl rfl⟩, ⟨⟨rfl, rfl, by decide⟩, Or.inr rfl⟩,
      fun _ h => absurd h List.not_mem_nil⟩

end LiteExchange.OrderMatcher
