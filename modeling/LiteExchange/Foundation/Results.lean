import Mathlib.Data.List.Induction

/-!
# Computations that throw

A computation that returns has gone through each of its parts. `bind_eq_ok` and `map_eq_ok` take it
apart, and `foldlM_induction` carries an invariant along a loop that returns.
-/

namespace Foundation.Results

theorem isOk_iff {ε α : Type*} {x : Except ε α} : x.isOk = true ↔ ∃ a, x = .ok a := by
  cases x with
  | error e => simp [Except.isOk, Except.toBool]
  | ok a => simp [Except.isOk, Except.toBool]

theorem bind_eq_ok {ε α β : Type*} {x : Except ε α} {f : α → Except ε β} {b : β} :
    x.bind f = .ok b ↔ ∃ a, x = .ok a ∧ f a = .ok b := by
  cases x with
  | error e => simp [Except.bind]
  | ok a => simp [Except.bind]

theorem map_eq_ok {ε α β : Type*} {x : Except ε α} {f : α → β} {b : β} :
    x.map f = .ok b ↔ ∃ a, x = .ok a ∧ f a = b := by
  cases x with
  | error e => simp [Except.map]
  | ok a => simp [Except.map]

theorem mapError_eq_ok {α ε δ : Type} (result : Except ε α) (convert : ε → δ) (value : α) :
    result.mapError convert = .ok value ↔ result = .ok value := by
  cases result with
  | error e => simp [Except.mapError]
  | ok other => simp [Except.mapError]

/-- Induction on the elements that a loop has gone through. -/
theorem foldlM_induction {ε α : Type*} {σ : Type _} {step : σ → α → Except ε σ} {start last : σ}
    {elements : List α} (I : List α → σ → Prop) (initial : I [] start)
    (keep : ∀ done element s next, I done s → step s element = .ok next →
      I (done ++ [element]) next)
    (h : elements.foldlM step start = .ok last) : I elements last := by
  induction elements using List.reverseRecOn generalizing last with
  | nil =>
    cases h
    exact initial
  | append_singleton elements element ih =>
    rw [List.foldlM_append] at h
    obtain ⟨before, hbefore, hlast⟩ := bind_eq_ok.mp h
    obtain ⟨next, hstep, hnext⟩ := bind_eq_ok.mp hlast
    cases hnext
    exact keep elements element before last (ih hbefore) hstep

end Foundation.Results
