import Mathlib.Data.List.Nodup
import Mathlib.Logic.Function.Basic

/-!
# Steps on separate keys

A state gives each key a value. A step works on the value under its own key and may fail, and then
it may have changed the value already. Steps are taken in order, up to the first that fails.

* `failure_runSteps_eq_none_iff`: when no step fails.
* `state_runSteps_eq_iff`: when the steps leave the state as it was.
-/

set_option autoImplicit false

namespace KeyedSteps

universe u v w

/-- What a step leaves under its key, and how it failed. -/
structure StepResult (β : Type v) (ε : Type w) where
  value : β
  failure : Option ε

structure KeyedStep (κ : Type u) (β : Type v) (ε : Type w) where
  key : κ
  run : β → StepResult β ε

/-- What steps leave, and how they failed. -/
structure RunResult (κ : Type u) (β : Type v) (ε : Type w) where
  state : κ → β
  failure : Option ε

variable {κ : Type u} {β : Type v} {ε : Type w} [DecidableEq κ]

/-- The steps in order, up to the first that fails. -/
def runSteps : List (KeyedStep κ β ε) → (κ → β) → RunResult κ β ε
  | [], state => ⟨state, none⟩
  | step :: steps, state =>
    let result := step.run (state step.key)
    let state := Function.update state step.key result.value
    match result.failure with
    | some failure => ⟨state, some failure⟩
    | none => runSteps steps state

/-- A step of a list that is come to: no step before it fails. -/
def Reached (steps : List (KeyedStep κ β ε)) (state : κ → β) (step : KeyedStep κ β ε) : Prop :=
  ∃ before after, steps = before ++ step :: after ∧
    ∀ other ∈ before, (other.run (state other.key)).failure = none

variable {step : KeyedStep κ β ε} {steps : List (KeyedStep κ β ε)} {state : κ → β}

theorem runSteps_cons_of_some {failure : ε}
    (h : (step.run (state step.key)).failure = some failure) :
    runSteps (step :: steps) state =
      ⟨Function.update state step.key (step.run (state step.key)).value, some failure⟩ := by
  simp only [runSteps, h]

theorem runSteps_cons_of_none (h : (step.run (state step.key)).failure = none) :
    runSteps (step :: steps) state =
      runSteps steps (Function.update state step.key (step.run (state step.key)).value) := by
  simp only [runSteps, h]

omit [DecidableEq κ] in
theorem reached_cons_iff {first : KeyedStep κ β ε} : Reached (first :: steps) state step ↔
    step = first ∨ ((first.run (state first.key)).failure = none ∧ Reached steps state step) := by
  constructor
  · rintro ⟨before, after, heq, hbefore⟩
    cases before with
    | nil => exact .inl (List.cons.inj heq).1.symm
    | cons other before =>
      obtain ⟨rfl, rfl⟩ := List.cons.inj heq
      obtain ⟨hfirst, hbefore⟩ := List.forall_mem_cons.mp hbefore
      exact .inr ⟨hfirst, before, after, rfl, hbefore⟩
  · rintro (rfl | ⟨hfirst, before, after, rfl, hbefore⟩)
    · exact ⟨[], steps, rfl, List.forall_mem_nil _⟩
    · exact ⟨first :: before, after, rfl, List.forall_mem_cons.mpr ⟨hfirst, hbefore⟩⟩

/-- A key of no step keeps its value. -/
theorem state_runSteps_of_not_mem {key : κ} (h : key ∉ steps.map KeyedStep.key) :
    (runSteps steps state).state key = state key := by
  induction steps generalizing state with
  | nil => rfl
  | cons step steps ih =>
    obtain ⟨hne, hrest⟩ := List.ne_and_not_mem_of_not_mem_cons h
    cases hfailure : (step.run (state step.key)).failure with
    | some failure =>
      rw [runSteps_cons_of_some hfailure]
      exact Function.update_of_ne hne _ _
    | none =>
      rw [runSteps_cons_of_none hfailure, ih hrest]
      exact Function.update_of_ne hne _ _

/-- The steps before others do not touch the keys of those. -/
theorem update_eq_of_nodup (h : ((step :: steps).map KeyedStep.key).Nodup) (value : β)
    {other : KeyedStep κ β ε} (hother : other ∈ steps) :
    Function.update state step.key value other.key = state other.key := by
  refine Function.update_of_ne (fun heq => ?_) _ _
  exact (List.nodup_cons.mp h).1 (List.mem_map.mpr ⟨other, hother, heq⟩)

/-- Steps on separate keys all succeed when each does on the value that was there at first. -/
theorem failure_runSteps_eq_none_iff (hnodup : (steps.map KeyedStep.key).Nodup) :
    (runSteps steps state).failure = none ↔
      ∀ step ∈ steps, (step.run (state step.key)).failure = none := by
  induction steps generalizing state with
  | nil => simp [runSteps]
  | cons step steps ih =>
    rw [List.forall_mem_cons]
    cases hfailure : (step.run (state step.key)).failure with
    | some failure =>
      rw [runSteps_cons_of_some hfailure]
      simp
    | none =>
      rw [runSteps_cons_of_none hfailure, ih (List.nodup_cons.mp hnodup).2,
        and_iff_right rfl]
      refine forall₂_congr fun other hother => ?_
      rw [update_eq_of_nodup hnodup _ hother]

/-- Steps on separate keys leave the state as it was when each that is come to does. -/
theorem state_runSteps_eq_iff (hnodup : (steps.map KeyedStep.key).Nodup) :
    (runSteps steps state).state = state ↔ ∀ step, Reached steps state step →
      (step.run (state step.key)).value = state step.key := by
  induction steps generalizing state with
  | nil => simp [runSteps, Reached]
  | cons first steps ih =>
    have hrest := (List.nodup_cons.mp hnodup).2
    cases hfailure : (first.run (state first.key)).failure with
    | some failure =>
      rw [runSteps_cons_of_some hfailure]
      simp [reached_cons_iff, hfailure]
    | none =>
      rw [runSteps_cons_of_none hfailure]
      have hself : (runSteps steps (Function.update state first.key
          (first.run (state first.key)).value)).state first.key =
          (first.run (state first.key)).value := by
        rw [state_runSteps_of_not_mem (List.nodup_cons.mp hnodup).1, Function.update_self]
      constructor
      · intro h step hstep
        have hvalue : (first.run (state first.key)).value = state first.key := by
          rw [← hself, h]
        rw [hvalue, Function.update_eq_self] at h
        rcases reached_cons_iff.mp hstep with rfl | ⟨-, hreached⟩
        · exact hvalue
        · exact (ih hrest).mp h step hreached
      · intro h
        have hvalue := h first (reached_cons_iff.mpr (.inl rfl))
        rw [hvalue, Function.update_eq_self]
        exact (ih hrest).mpr fun step hstep =>
          h step (reached_cons_iff.mpr (.inr ⟨hfailure, hstep⟩))

end KeyedSteps
