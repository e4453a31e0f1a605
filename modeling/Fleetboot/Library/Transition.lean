import Mathlib.Data.List.Basic
import Mathlib.Data.List.Induction

/-!
# Runs of a transition system

A labelled transition system is a relation `step : σ → ε → σ → Prop`. A run is a finite
sequence of steps with its list of labels. The rules here are the only inductions over
runs that the rest needs:

* `Run.invariant`: what holds at the start and is kept by every step holds at the end.
* `Run.history`: the same for an invariant that speaks of the labels so far.
* `Run.labels_forall`: what holds of the label of every step from a state with the
  invariant holds of every label of the run.
* `Run.holds_iff`: a property that every step keeps exactly if its label is good.
* `Run.never_or_last`: the last step of a run that has a property.
* `Run.mono`: a run of a smaller relation is a run of a larger one; `Restrict` keeps the
  steps that meet a condition on the state before them and their label.
* `Run.of_concat`, `Run.of_cons`, `Run.of_append`, `Run.unique`: the last step of a run, the first,
  the parts of a run, and runs of deterministic systems.
* `throughout_iff`: a run has a property in all of its states exactly when its labels are good.
* `mem_taken`, `mem_of_mem_rest`: steps that take something out of a queue.
-/

set_option autoImplicit false

namespace Transition

universe u v

variable {σ : Type u} {ε : Type v}

/-- `Run step s es s'`: the labels `es`, oldest first, lead from `s` to `s'`. -/
inductive Run (step : σ → ε → σ → Prop) (s : σ) : List ε → σ → Prop
  | nil : Run step s [] s
  | snoc {es : List ε} {e : ε} {s' s'' : σ} :
      Run step s es s' → step s' e s'' → Run step s (es ++ [e]) s''

/-- The steps of `step` that meet `guard` in the state before them. -/
def Restrict (step : σ → ε → σ → Prop) (guard : σ → ε → Prop) (s : σ) (e : ε) (s' : σ) : Prop :=
  step s e s' ∧ guard s e

namespace Run

variable {step : σ → ε → σ → Prop}

theorem single {s s' : σ} {e : ε} (h : step s e s') : Run step s [e] s' :=
  @snoc _ _ _ _ [] _ _ _ .nil h

theorem mono {step' : σ → ε → σ → Prop} (hle : ∀ s e s', step s e s' → step' s e s')
    {s s' : σ} {es : List ε} (h : Run step s es s') : Run step' s es s' := by
  induction h with
  | nil => exact .nil
  | snoc _ hstep ih => exact .snoc ih (hle _ _ _ hstep)

theorem of_restrict {guard : σ → ε → Prop} {s s' : σ} {es : List ε}
    (h : Run (Restrict step guard) s es s') : Run step s es s' :=
  h.mono fun _ _ _ hs => hs.1

/-- The last step of a run. -/
theorem of_concat {s s'' : σ} {es : List ε} {e : ε} (h : Run step s (es ++ [e]) s'') :
    ∃ s', Run step s es s' ∧ step s' e s'' := by
  generalize hlabels : es ++ [e] = labels at h
  cases h with
  | nil => simp at hlabels
  | snoc hrun hstep =>
    obtain ⟨rfl, heq⟩ := List.append_inj' hlabels rfl
    cases heq
    exact ⟨_, hrun, hstep⟩

/-- A run can be cut between any two of its labels. -/
theorem of_append {s s'' : σ} {es es' : List ε} (h : Run step s (es ++ es') s'') :
    ∃ s', Run step s es s' ∧ Run step s' es' s'' := by
  induction es' using List.reverseRecOn generalizing s'' with
  | nil => exact ⟨s'', by simpa using h, .nil⟩
  | append_singleton es' e ih =>
    rw [← List.append_assoc] at h
    obtain ⟨s', hrun, hstep⟩ := h.of_concat
    obtain ⟨middle, hfirst, hthen⟩ := ih hrun
    exact ⟨middle, hfirst, hthen.snoc hstep⟩

/-- The first step of a run. -/
theorem of_cons {s s'' : σ} {es : List ε} {e : ε} (h : Run step s (e :: es) s'') :
    ∃ s', step s e s' ∧ Run step s' es s'' := by
  induction es using List.reverseRecOn generalizing s'' with
  | nil =>
    obtain ⟨s', hnil, hstep⟩ := @of_concat _ _ _ s s'' [] e h
    generalize hlabels : ([] : List ε) = labels at hnil
    cases hnil with
    | nil => exact ⟨s'', hstep, .nil⟩
    | snoc _ _ => simp at hlabels
  | append_singleton es last ih =>
    obtain ⟨middle, hrun, hstep⟩ := @of_concat _ _ _ s s'' (e :: es) last h
    obtain ⟨s', hfirst, hrest⟩ := ih hrun
    exact ⟨s', hfirst, hrest.snoc hstep⟩

/-- When a step is determined by its label, so is a run by its labels. -/
theorem unique (hdet : ∀ s e s' s'', step s e s' → step s e s'' → s' = s'') {s s' s'' : σ}
    {es : List ε} (h : Run step s es s') (h' : Run step s es s'') : s' = s'' := by
  induction h generalizing s'' with
  | nil =>
    generalize hlabels : ([] : List ε) = labels at h'
    cases h' with
    | nil => rfl
    | snoc _ _ => simp at hlabels
  | snoc _ hstep ih =>
    obtain ⟨middle, hrun, hstep'⟩ := h'.of_concat
    obtain rfl := ih hrun
    exact hdet _ _ _ _ hstep hstep'

theorem append {s s' s'' : σ} {es es' : List ε} (h : Run step s es s') (h' : Run step s' es' s'') :
    Run step s (es ++ es') s'' := by
  induction h' with
  | nil => simpa using h
  | snoc _ hstep ih =>
    rw [← List.append_assoc]
    exact ih.snoc hstep

/-- What every step keeps holds at the end of a run that starts with it. -/
theorem invariant {I : σ → Prop} (hkeep : ∀ s e s', I s → step s e s' → I s')
    {s s' : σ} {es : List ε} (h : Run step s es s') (h0 : I s) : I s' := by
  induction h with
  | nil => exact h0
  | snoc _ hstep ih => exact hkeep _ _ _ ih hstep

/-- An invariant that may speak of the labels so far. -/
theorem history {I : σ → List ε → Prop}
    (hkeep : ∀ s es e s', I s es → step s e s' → I s' (es ++ [e]))
    {s s' : σ} {es : List ε} (h : Run step s es s') (h0 : I s []) : I s' es := by
  induction h with
  | nil => exact h0
  | snoc _ hstep ih => exact hkeep _ _ _ _ ih hstep

/-- What a step from a state with the invariant says of its label holds of every label. -/
theorem labels_forall {I : σ → Prop} {P : ε → Prop} (hkeep : ∀ s e s', I s → step s e s' → I s')
    (hlabel : ∀ s e s', I s → step s e s' → P e)
    {s s' : σ} {es : List ε} (h : Run step s es s') (h0 : I s) : ∀ e ∈ es, P e := by
  induction h with
  | nil => simp
  | snoc hrun hstep ih =>
    intro e he
    rcases List.mem_append.mp he with he | he
    · exact ih e he
    · rw [List.mem_singleton.mp he]
      exact hlabel _ _ _ (hrun.invariant hkeep h0) hstep

/-- A property that every step keeps exactly if its label is good. -/
theorem holds_iff {I P : σ → Prop} {good : ε → Prop} (hkeep : ∀ s e s', I s → step s e s' → I s')
    (hstep : ∀ s e s', I s → step s e s' → (P s' ↔ P s ∧ good e))
    {s s' : σ} {es : List ε} (h : Run step s es s') (h0 : I s) :
    P s' ↔ P s ∧ ∀ e ∈ es, good e := by
  induction h with
  | nil => simp
  | snoc hrun hlast ih =>
    rw [hstep _ _ _ (hrun.invariant hkeep h0) hlast, ih]
    simp only [List.mem_append, List.mem_singleton, or_imp, forall_and, forall_eq, and_assoc]

/-- A run has a last step with a property, or none. -/
theorem never_or_last (P : σ → ε → σ → Prop) {s s' : σ} {es : List ε} (h : Run step s es s') :
    Run (fun s e s' => step s e s' ∧ ¬ P s e s') s es s' ∨
      ∃ before e after x y, es = before ++ e :: after ∧ Run step s before x ∧ step x e y ∧
        P x e y ∧ Run (fun s e s' => step s e s' ∧ ¬ P s e s') y after s' := by
  induction h with
  | nil => exact .inl .nil
  | @snoc es e middle s' hrun hstep ih =>
    by_cases hlast : P middle e s'
    · exact .inr ⟨es, e, [], middle, s', rfl, hrun, hstep, hlast, .nil⟩
    · rcases ih with hnever | ⟨before, e', after, x, y, rfl, hbefore, he, hP, hafter⟩
      · exact .inl (hnever.snoc ⟨hstep, hlast⟩)
      · exact .inr ⟨before, e', after ++ [e], x, y, by simp, hbefore, he, hP,
          hafter.snoc ⟨hstep, hlast⟩⟩

end Run

section Throughout

variable {step : σ → ε → σ → Prop} {I P : σ → Prop} {good : ε → Prop}

/-- `P` holds in every state that a run from `s` to `s'` with the labels `es` passes through. -/
def Throughout (step : σ → ε → σ → Prop) (P : σ → Prop) (s : σ) (es : List ε) (s' : σ) : Prop :=
  ∀ es₁ es₂ s₁, es = es₁ ++ es₂ → Run step s es₁ s₁ → Run step s₁ es₂ s' → P s₁

theorem Run.invariant_of_good (hkeep : ∀ s e s', I s → step s e s' → good e → I s')
    {s s' : σ} {es : List ε} (h : Run step s es s') (h0 : I s) (hgood : ∀ e ∈ es, good e) :
    I s' := by
  induction h with
  | nil => exact h0
  | snoc _ hstep ih =>
    have hlast := hgood _ (List.mem_append_right _ (List.mem_singleton_self _))
    exact hkeep _ _ _ (ih fun e he => hgood e (List.mem_append_left _ he)) hstep hlast

/-- When good steps keep an invariant that has the property, and any other step from it loses the
property, then a run has the property throughout if and only if all of its labels are good. -/
theorem throughout_iff (hkeep : ∀ s e s', I s → step s e s' → good e → I s')
    (hhas : ∀ s, I s → P s) (hloses : ∀ s e s', I s → step s e s' → ¬ good e → ¬ P s')
    {s s' : σ} {es : List ε} (h : Run step s es s') (h0 : I s) :
    Throughout step P s es s' ↔ ∀ e ∈ es, good e := by
  constructor
  · -- The induction lets the run go on, so that the first label that is not good shows.
    have hall : ∀ rest s'', Run step s' rest s'' → Throughout step P s (es ++ rest) s'' →
        ∀ e ∈ es, good e := by
      induction h with
      | nil => simp
      | @snoc es e middle s' hrun hstep ih =>
        intro rest s'' hrest hthrough
        have hbefore : ∀ e ∈ es, good e :=
          ih ([e] ++ rest) s'' ((Run.single hstep).append hrest)
            (by rwa [← List.append_assoc])
        have hmiddle := hrun.invariant_of_good hkeep h0 hbefore
        intro e' he'
        rcases List.mem_append.mp he' with he' | he'
        · exact hbefore e' he'
        · rw [List.mem_singleton.mp he']
          by_contra hbad
          exact hloses _ _ _ hmiddle hstep hbad (hthrough _ rest _ rfl (hrun.snoc hstep) hrest)
    intro hthrough
    exact hall [] s' .nil (by rwa [List.append_nil])
  · rintro hgood es₁ es₂ s₁ rfl hrun -
    exact hhas _ (hrun.invariant_of_good hkeep h0 fun e he =>
      hgood e (List.mem_append_left _ he))

end Throughout

section Queues

variable {queue before after : List ε} {a b : ε}

/-- What is taken out of a queue stood in it. -/
theorem mem_taken (h : queue = before ++ b :: after) : b ∈ queue := by
  simp [h]

/-- So did what is left of it. -/
theorem mem_of_mem_rest (h : queue = before ++ b :: after) (ha : a ∈ before ++ after) :
    a ∈ queue := by
  rw [h]
  exact (List.Sublist.append_left (List.sublist_cons_self b after) before).subset ha

/-- What stands in a queue in which one was replaced is the new one, or it stood there before. -/
theorem eq_or_mem_of_replaced {c : ε} (h : queue = before ++ b :: after)
    (ha : a ∈ before ++ c :: after) : a = c ∨ a ∈ queue := by
  rcases List.mem_append.mp ha with ha | ha
  · exact .inr (mem_of_mem_rest h (List.mem_append_left _ ha))
  · rcases List.mem_cons.mp ha with rfl | ha
    · exact .inl rfl
    · exact .inr (mem_of_mem_rest h (List.mem_append_right _ ha))

/-- An element of a history that grows is the new one, or it stood there before. -/
theorem concat_eq_split {history : List ε} (h : history ++ [a] = before ++ b :: after) :
    (b = a ∧ before = history ∧ after = []) ∨
      ∃ after', after = after' ++ [a] ∧ history = before ++ b :: after' := by
  rcases List.eq_nil_or_concat after with rfl | ⟨after', c, rfl⟩
  · obtain ⟨rfl, hlast⟩ := List.append_inj' h rfl
    exact .inl ⟨(List.singleton_inj.mp hlast).symm, rfl, rfl⟩
  · have h' : history ++ [a] = (before ++ b :: after') ++ [c] := by simpa using h
    obtain ⟨rfl, hlast⟩ := List.append_inj' h' rfl
    obtain rfl := List.singleton_inj.mp hlast
    exact .inr ⟨after', by simp, rfl⟩

end Queues

end Transition
