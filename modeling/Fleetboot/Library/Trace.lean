import Mathlib.Data.List.Basic

/-!
# Traces of machines with outputs

A machine takes one input after another; each gives an output and the next state.

* `trace_eq_iff_of_lockstep`: two machines that stay related, and agree on an output exactly if
  its input was allowed, agree on all outputs exactly if every input was allowed.
* `related_of_lockstep`: while every input is allowed they end up related.
* `trace_history`: an invariant that may speak of what the inputs so far amount to.
-/

set_option autoImplicit false

namespace Transition

universe u v w x y

variable {σ : Type u} {τ : Type v} {ι : Type w} {ο : Type x}

/-- The outputs for a list of inputs, and the state after them. -/
def trace (step : σ → ι → ο × σ) : σ → List ι → List ο × σ
  | s, [] => ([], s)
  | s, i :: is =>
    let rest := trace step (step s i).2 is
    ((step s i).1 :: rest.1, rest.2)

/-- Every input is allowed in the state that it meets. -/
def AllAllowed (step : σ → ι → ο × σ) (allowed : σ → ι → Prop) : σ → List ι → Prop
  | _, [] => True
  | s, i :: is => allowed s i ∧ AllAllowed step allowed (step s i).2 is

variable {step : σ → ι → ο × σ} {step' : τ → ι → ο × τ} {allowed : σ → ι → Prop}
  {R : σ → τ → Prop}

/-- **Lockstep.** Outputs agree as long as the inputs are allowed, and no longer. -/
theorem trace_eq_iff_of_lockstep
    (hstep : ∀ s t i, R s t → allowed s i →
      (step s i).1 = (step' t i).1 ∧ R (step s i).2 (step' t i).2)
    (hrefused : ∀ s t i, R s t → ¬ allowed s i → (step s i).1 ≠ (step' t i).1)
    {s : σ} {t : τ} (hR : R s t) (is : List ι) :
    (trace step s is).1 = (trace step' t is).1 ↔ AllAllowed step allowed s is := by
  induction is generalizing s t with
  | nil => exact iff_of_true rfl trivial
  | cons i is ih =>
    simp only [trace, AllAllowed, List.cons.injEq]
    constructor
    · rintro ⟨hout, hrest⟩
      have hallowed : allowed s i := Classical.byContradiction fun h => hrefused s t i hR h hout
      exact ⟨hallowed, (ih (hstep s t i hR hallowed).2).mp hrest⟩
    · rintro ⟨hallowed, hrest⟩
      obtain ⟨hout, hR'⟩ := hstep s t i hR hallowed
      exact ⟨hout, (ih hR').mpr hrest⟩

theorem related_of_lockstep
    (hstep : ∀ s t i, R s t → allowed s i →
      (step s i).1 = (step' t i).1 ∧ R (step s i).2 (step' t i).2)
    {s : σ} {t : τ} (hR : R s t) {is : List ι} (hallowed : AllAllowed step allowed s is) :
    R (trace step s is).2 (trace step' t is).2 := by
  induction is generalizing s t with
  | nil => exact hR
  | cons i is ih => exact ih (hstep s t i hR hallowed.1).2 hallowed.2

/-- An invariant of the state and of what `note` makes of the inputs. -/
theorem trace_history {η : Type y} {note : η → ι → η} {I : σ → η → Prop}
    (hkeep : ∀ s h i, I s h → I (step s i).2 (note h i)) {s : σ} {h : η} (h0 : I s h)
    (is : List ι) : I (trace step s is).2 (is.foldl note h) := by
  induction is generalizing s h with
  | nil => exact h0
  | cons i is ih => exact ih (hkeep s h i h0)

end Transition
