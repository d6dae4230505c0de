import LiteExchange.Foundation.Runs

/-!
# Refinement

A step of an implementation is either hidden or shows one step of a specification. Where the
states stay related, every run of the implementation shows a run of the specification.
-/

namespace Foundation.Refinement

open Runs

variable {σ ℓ τ κ : Type*}

/-- The steps that a run shows, up to the first label that is not enabled. -/
def shown (step : σ → ℓ → Option σ) (shows : σ → ℓ → Option κ) : σ → List ℓ → List κ
  | _, [] => []
  | s, label :: rest =>
    match step s label with
    | some next => (shows s label).toList ++ shown step shows next rest
    | none => []

theorem shown_snoc {step : σ → ℓ → Option σ} (shows : σ → ℓ → Option κ) {s last next : σ}
    {labels : List ℓ} {label : ℓ} (hrun : Runs.run step s labels = some last)
    (hstep : step last label = some next) :
    shown step shows s (labels ++ [label]) =
      shown step shows s labels ++ (shows last label).toList := by
  induction labels generalizing s with
  | nil =>
    cases hrun
    simp [shown, hstep]
  | cons first rest ih =>
    obtain ⟨middle, hfirst, hrest⟩ := Option.bind_eq_some_iff.mp hrun
    simp only [List.cons_append, shown, hfirst, ih hrest, List.append_assoc]

/-- A step under the side condition either shows nothing and keeps the state of the
specification, or shows a step that is enabled there; the states stay related. -/
structure Refines (step : σ → ℓ → Option σ) (ok : σ → ℓ → Prop) (shows : σ → ℓ → Option κ)
    (spec : τ → κ → Option τ) (related : σ → τ → Prop) : Prop where
  hidden : ∀ {s next label t}, related s t → ok s label → step s label = some next →
    shows s label = none → related next t
  visible : ∀ {s next label t act}, related s t → ok s label → step s label = some next →
    shows s label = some act → ∃ t', spec t act = some t' ∧ related next t'

variable {step : σ → ℓ → Option σ} {ok : σ → ℓ → Prop} {shows : σ → ℓ → Option κ}
  {spec : τ → κ → Option τ} {related : σ → τ → Prop}

theorem Refines.run (refines : Refines step ok shows spec related) {s last : σ} {t : τ}
    {labels : List ℓ} (start : related s t) (hrun : Runs.run step s labels = some last)
    (hok : Along step ok s labels) :
    ∃ t', Runs.run spec t (shown step shows s labels) = some t' ∧ related last t' := by
  induction labels generalizing s t with
  | nil =>
    cases hrun
    exact ⟨t, rfl, start⟩
  | cons label rest ih =>
    obtain ⟨next, hstep, hrest⟩ := Option.bind_eq_some_iff.mp hrun
    have hafter := hok.2 next hstep
    simp only [shown, hstep]
    cases hshows : shows s label with
    | none => exact ih (refines.hidden start hok.1 hstep hshows) hrest hafter
    | some act =>
      obtain ⟨middle, hspec, hmiddle⟩ := refines.visible start hok.1 hstep hshows
      obtain ⟨t', hrun', hlast⟩ := ih hmiddle hrest hafter
      refine ⟨t', ?_, hlast⟩
      simp only [Option.toList_some, List.singleton_append, run_cons, hspec, Option.bind_some]
      exact hrun'

/-- What a run that ends shows, where this does not depend on the states. -/
theorem shown_of_run {shows : ℓ → Option κ} {s last : σ} {labels : List ℓ}
    (hrun : Runs.run step s labels = some last) :
    shown step (fun _ => shows) s labels = labels.filterMap shows := by
  induction labels generalizing s with
  | nil => rfl
  | cons label rest ih =>
    obtain ⟨next, hstep, hrest⟩ := Option.bind_eq_some_iff.mp hrun
    simp only [shown, hstep, List.filterMap_cons, ih hrest]
    cases shows label with
    | none => rfl
    | some act => rfl

/-- Taking out the labels that are not kept: where a step of such a label leaves the states
related and every other step is matched, the run that is left ends in a related state. -/
theorem run_filter {keep : ℓ → Bool} {ok : ℓ → Prop} {step : σ → ℓ → Option σ}
    {related : σ → σ → Prop}
    (hidden : ∀ {s next label t}, related s t → ok label → step s label = some next →
      keep label = false → related next t)
    (visible : ∀ {s next label t}, related s t → ok label → step s label = some next →
      keep label = true → ∃ t', step t label = some t' ∧ related next t')
    {s last t : σ} {labels : List ℓ} (start : related s t) (hok : ∀ label ∈ labels, ok label)
    (hrun : Runs.run step s labels = some last) :
    ∃ t', Runs.run step t (labels.filter keep) = some t' ∧ related last t' := by
  have refines : Refines step (fun _ label => ok label)
      (fun _ => Option.guard keep) step related :=
    { hidden := fun hrelated hlabel hstep hshows =>
        hidden hrelated hlabel hstep (by simpa using hshows)
      visible := by
        intro s next label t act hrelated hlabel hstep hshows
        obtain ⟨rfl, hkeep⟩ := Option.guard_eq_some_iff.mp hshows
        exact visible hrelated hlabel hstep hkeep }
  obtain ⟨t', hrun', hlast⟩ := refines.run start hrun (along_of_mem hok)
  refine ⟨t', ?_, hlast⟩
  rwa [shown_of_run hrun, List.filterMap_eq_filter] at hrun'

/-- Two systems that make the same steps: where every step under the side condition is matched,
or enabled in neither of them, a run ends in both or in neither of them, in related states. -/
theorem run_rel {spec : τ → ℓ → Option τ} {ok : τ → ℓ → Prop} {related : σ → τ → Prop}
    (matched : ∀ {s t label}, related s t → ok t label →
      Option.Rel related (step s label) (spec t label))
    {s : σ} {t : τ} {labels : List ℓ} (start : related s t) (hok : Along spec ok t labels) :
    Option.Rel related (Runs.run step s labels) (Runs.run spec t labels) := by
  induction labels generalizing s t with
  | nil => exact .some start
  | cons label rest ih =>
    have hlabel := matched start hok.1
    rw [run_cons, run_cons]
    cases hnext : spec t label with
    | none =>
      rw [hnext] at hlabel
      cases hstep : step s label with
      | none => exact .none
      | some next =>
        rw [hstep] at hlabel
        cases hlabel
    | some after =>
      rw [hnext] at hlabel
      cases hstep : step s label with
      | none =>
        rw [hstep] at hlabel
        cases hlabel
      | some next =>
        rw [hstep] at hlabel
        cases hlabel with
        | some hrelated => exact ih hrelated (hok.2 after hnext)

end Foundation.Refinement
