import Mathlib.Data.List.Induction

/-!
# Runs of a labelled step function

A system is a partial step function: a label that is not enabled has no
successor. A run executes a list of labels; quantifying over the list is
quantifying over every order of steps. The rules below carry an invariant along
a run: with the labels already executed (`run_induction`), on the state alone
(`run_invariant`), and under a side condition met by every step of the run
(`run_induction_along`, `along_invariant`).
-/

namespace Foundation.Runs

variable {σ ℓ : Type*}

/-- Execute the labels in order, stopping at the first one that is not enabled. -/
def run (step : σ → ℓ → Option σ) : σ → List ℓ → Option σ
  | s, [] => some s
  | s, label :: rest => (step s label).bind fun next => run step next rest

@[simp] theorem run_nil (step : σ → ℓ → Option σ) (s : σ) : run step s [] = some s := rfl

@[simp] theorem run_cons (step : σ → ℓ → Option σ) (s : σ) (label : ℓ) (rest : List ℓ) :
    run step s (label :: rest) = (step s label).bind fun next => run step next rest := rfl

theorem run_append (step : σ → ℓ → Option σ) (s : σ) (front back : List ℓ) :
    run step s (front ++ back) = (run step s front).bind fun next => run step next back := by
  induction front generalizing s with
  | nil => rfl
  | cons label rest ih =>
    simp only [List.cons_append, run_cons]
    cases step s label with
    | none => rfl
    | some next => exact ih next

theorem run_snoc (step : σ → ℓ → Option σ) (s : σ) (labels : List ℓ) (label : ℓ) :
    run step s (labels ++ [label]) = (run step s labels).bind fun last => step last label := by
  rw [run_append]
  congr 1
  funext last
  simp

/-- The last step of a run that ends: the state before it and the step itself. -/
theorem run_snoc_some {step : σ → ℓ → Option σ} {s next : σ} {labels : List ℓ} {label : ℓ}
    (h : run step s (labels ++ [label]) = some next) :
    ∃ last, run step s labels = some last ∧ step last label = some next := by
  rw [run_snoc] at h
  exact Option.bind_eq_some_iff.mp h

/-- Induction on the labels executed so far. -/
theorem run_induction {step : σ → ℓ → Option σ} {init : σ} (I : List ℓ → σ → Prop)
    (start : I [] init)
    (keep : ∀ labels s label next, run step init labels = some s → I labels s →
      step s label = some next → I (labels ++ [label]) next)
    {labels : List ℓ} {s : σ} (h : run step init labels = some s) : I labels s := by
  induction labels using List.reverseRecOn generalizing s with
  | nil =>
    cases h
    exact start
  | append_singleton labels label ih =>
    obtain ⟨last, hlast, hstep⟩ := run_snoc_some h
    exact keep labels last label s hlast (ih hlast) hstep

/-- An invariant of every step holds in every state a run reaches. -/
theorem run_invariant {step : σ → ℓ → Option σ} {init : σ} (I : σ → Prop) (start : I init)
    (keep : ∀ s label next, I s → step s label = some next → I next)
    {labels : List ℓ} {s : σ} (h : run step init labels = some s) : I s :=
  run_induction (fun _ s => I s) start
    (fun _ s label next _ hI hstep => keep s label next hI hstep) h

/-- Every step of the run meets `ok` in the state it starts from. -/
def Along (step : σ → ℓ → Option σ) (ok : σ → ℓ → Prop) : σ → List ℓ → Prop
  | _, [] => True
  | s, label :: rest => ok s label ∧ ∀ next, step s label = some next → Along step ok next rest

theorem along_cons {step : σ → ℓ → Option σ} {ok : σ → ℓ → Prop} {s next : σ} {label : ℓ}
    {rest : List ℓ} (hstep : step s label = some next) (hok : ok s label)
    (hrest : Along step ok next rest) : Along step ok s (label :: rest) := by
  refine ⟨hok, fun other hother => ?_⟩
  rw [hstep] at hother
  cases hother
  exact hrest

/-- Whether a concrete run meets a decidable condition can be computed. -/
instance Along.decidable (step : σ → ℓ → Option σ) (ok : σ → ℓ → Prop)
    [(s : σ) → (label : ℓ) → Decidable (ok s label)] (s : σ) (labels : List ℓ) :
    Decidable (Along step ok s labels) :=
  match labels with
  | [] => isTrue trivial
  | label :: rest =>
    match hstep : step s label with
    | none =>
      decidable_of_iff (ok s label)
        ⟨fun h => ⟨h, fun next hnext => by rw [hstep] at hnext; cases hnext⟩, fun h => h.1⟩
    | some next =>
      have : Decidable (Along step ok next rest) := Along.decidable step ok next rest
      decidable_of_iff (ok s label ∧ Along step ok next rest)
        ⟨fun h => ⟨h.1, fun other hother => by rw [hstep] at hother; cases hother; exact h.2⟩,
          fun h => ⟨h.1, h.2 next hstep⟩⟩

theorem along_split {step : σ → ℓ → Option σ} {ok : σ → ℓ → Prop} {s last : σ}
    {front back : List ℓ} (h : Along step ok s (front ++ back))
    (hrun : run step s front = some last) : Along step ok s front ∧ Along step ok last back := by
  induction front generalizing s with
  | nil =>
    cases hrun
    exact ⟨trivial, h⟩
  | cons label rest ih =>
    obtain ⟨next, hstep, hrest⟩ := Option.bind_eq_some_iff.mp hrun
    obtain ⟨hok, hnext⟩ := h
    obtain ⟨hfront, hback⟩ := ih (hnext next hstep) hrest
    refine ⟨⟨hok, fun other hother => ?_⟩, hback⟩
    rw [hstep] at hother
    cases hother
    exact hfront

/-- One more step meets the side condition in the state that the run reached. -/
theorem along_snoc {step : σ → ℓ → Option σ} {ok : σ → ℓ → Prop} {s last : σ}
    {labels : List ℓ} (hrun : run step s labels = some last) (label : ℓ) :
    Along step ok s (labels ++ [label]) ↔ Along step ok s labels ∧ ok last label := by
  constructor
  · intro h
    obtain ⟨hfront, hlabel, -⟩ := along_split h hrun
    exact ⟨hfront, hlabel⟩
  · rintro ⟨hfront, hlabel⟩
    induction labels generalizing s with
    | nil =>
      cases hrun
      exact ⟨hlabel, fun _ _ => trivial⟩
    | cons first rest ih =>
      obtain ⟨next, hstep, hrest⟩ := Option.bind_eq_some_iff.mp hrun
      refine ⟨hfront.1, fun other hother => ?_⟩
      rw [hstep] at hother
      cases hother
      exact ih hrest (hfront.2 next hstep)

theorem along_of_forall {step : σ → ℓ → Option σ} {ok : σ → ℓ → Prop}
    (h : ∀ s label, ok s label) {s : σ} {labels : List ℓ} : Along step ok s labels := by
  induction labels generalizing s with
  | nil => trivial
  | cons label rest ih => exact ⟨h s label, fun next _ => ih⟩

/-- A side condition on the labels alone. -/
theorem along_of_mem {step : σ → ℓ → Option σ} {ok : ℓ → Prop} {labels : List ℓ}
    (h : ∀ label ∈ labels, ok label) {s : σ} : Along step (fun _ label => ok label) s labels := by
  induction labels generalizing s with
  | nil => trivial
  | cons label rest ih =>
    obtain ⟨hlabel, hrest⟩ := List.forall_mem_cons.mp h
    exact ⟨hlabel, fun next _ => ih hrest⟩

/-- Induction along a run all of whose steps meet the side condition. -/
theorem run_induction_along {step : σ → ℓ → Option σ} {ok : σ → ℓ → Prop} {init : σ}
    (I : List ℓ → σ → Prop) (start : I [] init)
    (keep : ∀ labels s label next, run step init labels = some s → I labels s → ok s label →
      step s label = some next → I (labels ++ [label]) next)
    {labels : List ℓ} {s : σ} (h : run step init labels = some s)
    (hok : Along step ok init labels) : I labels s := by
  induction labels using List.reverseRecOn generalizing s with
  | nil =>
    cases h
    exact start
  | append_singleton labels label ih =>
    obtain ⟨last, hlast, hstep⟩ := run_snoc_some h
    obtain ⟨hfront, hback⟩ := along_split hok hlast
    exact keep labels last label s hlast (ih hlast hfront) hback.1 hstep

/-- Under an invariant that its steps keep, a side condition shows another one all along. -/
theorem along_invariant {step : σ → ℓ → Option σ} {ok shown : σ → ℓ → Prop} (I : σ → Prop)
    (keep : ∀ s label next, I s → ok s label → step s label = some next → I next)
    (shows : ∀ s label, I s → ok s label → shown s label) {s : σ} (start : I s)
    {labels : List ℓ} (h : Along step ok s labels) : Along step shown s labels := by
  induction labels generalizing s with
  | nil => trivial
  | cons label rest ih =>
    obtain ⟨hok, hrest⟩ := h
    refine ⟨shows s label start hok, fun next hstep => ?_⟩
    exact ih (keep s label next start hok hstep) (hrest next hstep)

end Foundation.Runs
