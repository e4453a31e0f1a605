import Fleetboot.Library.Traversal

/-!
# Changing the parents of one node

A graph changes in the edges out of one node, which may be new. Whether every node still has a
post-order can be read off the graph before the change.

* `reaches_iff`: what does not come to the node does not see the change.
* `postorder_congr`: nor does its chain.
* `faultless_rewired_iff`: every node of the new graph is without fault exactly if each new parent
  of the node was so and does not inherit from the node.
* `not_faulty_cons`: a new first node that the others stand behind makes no fault.
-/

set_option autoImplicit false

namespace Digraph

universe u

variable {α : Type u} {parents parents' : α → List α} {present present' : α → Bool}

/-- Only the edges out of `x` differ. -/
def AgreeOff (x : α) (parents parents' : α → List α) : Prop :=
  ∀ y, y ≠ x → parents' y = parents y

theorem AgreeOff.symm {x : α} (h : AgreeOff x parents parents') : AgreeOff x parents' parents :=
  fun y hy => (h y hy).symm

/-! ## Paths that do not meet the node -/

section Paths

variable {x y z : α}

theorem AgreeOff.reaches (h : AgreeOff x parents parents') (hx : ¬ Reaches parents y x)
    (hz : Reaches parents y z) : Reaches parents' y z := by
  induction hz using Relation.ReflTransGen.head_induction_on with
  | refl => exact .refl
  | @head a b hparent _ ih =>
    have hne : a ≠ x := by
      rintro rfl
      exact hx .refl
    have hparent' : b ∈ parents' a := by
      rw [h a hne]
      exact hparent
    have hb : ¬ Reaches parents b x := fun hreach => hx (.head hparent hreach)
    exact .head hparent' (ih hb)

theorem AgreeOff.reaches_self (h : AgreeOff x parents parents') (hreach : Reaches parents y x) :
    Reaches parents' y x := by
  induction hreach using Relation.ReflTransGen.head_induction_on with
  | refl => exact .refl
  | @head a b hparent _ ih =>
    by_cases hax : a = x
    · rw [hax]
      exact .refl
    · rw [← h a hax] at hparent
      exact .head hparent ih

/-- The change neither makes nor breaks a path to the node. -/
theorem AgreeOff.reaches_self_iff (h : AgreeOff x parents parents') :
    Reaches parents' y x ↔ Reaches parents y x := ⟨h.symm.reaches_self, h.reaches_self⟩

/-- What does not come to the node does not see the change. -/
theorem AgreeOff.reaches_iff (h : AgreeOff x parents parents') (hx : ¬ Reaches parents y x) :
    Reaches parents' y z ↔ Reaches parents y z := by
  have hx' : ¬ Reaches parents' y x := fun hreach => hx (h.reaches_self_iff.mp hreach)
  exact ⟨h.symm.reaches hx', h.reaches hx⟩

theorem onCycle_iff : OnCycle parents y ↔ ∃ p ∈ parents y, Reaches parents p y :=
  Relation.TransGen.head'_iff

theorem AgreeOff.onCycle_iff (h : AgreeOff x parents parents') (hx : ¬ Reaches parents y x) :
    OnCycle parents' y ↔ OnCycle parents y := by
  have hne : y ≠ x := by
    rintro rfl
    exact hx .refl
  rw [Digraph.onCycle_iff, Digraph.onCycle_iff, h y hne]
  refine exists_congr fun p => and_congr_right fun hp => ?_
  exact h.reaches_iff fun hreach => hx (.head hp hreach)

/-- A path of the new graph is one of the old graph, or its end is in reach of the node. -/
theorem AgreeOff.reaches_or (h : AgreeOff x parents parents') (hz : Reaches parents' y z) :
    Reaches parents y z ∨ Reaches parents' x z := by
  induction hz using Relation.ReflTransGen.head_induction_on with
  | refl => exact .inl .refl
  | @head a b hparent hrest ih =>
    by_cases hax : a = x
    · subst hax
      exact .inr (.head hparent hrest)
    · rw [h a hax] at hparent
      exact ih.imp_left fun hreach => .head hparent hreach

end Paths

/-! ## Searches that do not meet the node -/

section Searches

variable [DecidableEq α]

/-- **A search** sees what is in reach of its node, and how much more time it has does not matter. -/
theorem visit_congr {fuel fuel' : Nat} {x : α} {st : Search α}
    (hparents : ∀ y, Reaches parents x y → parents' y = parents y)
    (hpresent : ∀ y, Reaches parents x y → present' y = present y) (hfuel : fuel ≤ fuel')
    (h : visit parents present fuel x st ≠ .error .exhausted) :
    visit parents' present' fuel' x st = visit parents present fuel x st := by
  induction fuel generalizing x st fuel' with
  | zero => exact absurd rfl h
  | succ fuel ih =>
    obtain ⟨fuel', rfl⟩ : ∃ more, fuel' = more + 1 := ⟨fuel' - 1, by omega⟩
    have hall : ∀ ys : List α, (∀ y ∈ ys, y ∈ parents x) → ∀ st,
        ys.foldlM (fun st y => visit parents present fuel y st) st ≠ .error .exhausted →
        ys.foldlM (fun st y => visit parents' present' fuel' y st) st =
          ys.foldlM (fun st y => visit parents present fuel y st) st := by
      intro ys
      induction ys with
      | nil => exact fun _ _ _ => rfl
      | cons y ys ihys =>
        intro hys st hne
        have hy : y ∈ parents x := hys y List.mem_cons_self
        have hfirst : visit parents' present' fuel' y st = visit parents present fuel y st := by
          refine ih (fun z hz => hparents z (.head hy hz)) (fun z hz => hpresent z (.head hy hz))
            (by omega) fun hexhausted => hne ?_
          rw [List.foldlM_cons, hexhausted]
          rfl
        rw [List.foldlM_cons, List.foldlM_cons, hfirst]
        cases hvisit : visit parents present fuel y st with
        | error fault => rfl
        | ok st₁ =>
          refine ihys (fun z hz => hys z (List.mem_cons_of_mem _ hz)) st₁ fun hexhausted => hne ?_
          rw [List.foldlM_cons, hvisit]
          exact hexhausted
    unfold visit at h ⊢
    rw [hpresent x .refl, hparents x .refl]
    split
    · rfl
    · rename_i hseen
      split
      · rfl
      · rename_i hvisiting
        split
        · rfl
        · rename_i hmissing
          rw [if_neg hseen, if_neg hvisiting, if_neg hmissing] at h
          rw [hall _ (fun _ => id) _ fun hexhausted => h (by rw [hexhausted])]

/-- So does the chain of a node. -/
theorem postorder_congr {fuel fuel' : Nat} {x : α}
    (hparents : ∀ y, Reaches parents x y → parents' y = parents y)
    (hpresent : ∀ y, Reaches parents x y → present' y = present y)
    (h : postorder parents present fuel x ≠ .error .exhausted)
    (h' : postorder parents' present' fuel' x ≠ .error .exhausted) :
    postorder parents' present' fuel' x = postorder parents present fuel x := by
  have hne : ∀ {parents : α → List α} {present : α → Bool} {fuel : Nat},
      postorder parents present fuel x ≠ .error .exhausted →
      visit parents present fuel x .start ≠ .error .exhausted := fun h hvisit =>
    h (by rw [postorder, hvisit]; rfl)
  unfold postorder
  rcases Nat.le_total fuel fuel' with hle | hle
  · rw [visit_congr hparents hpresent hle (hne h)]
  · have hreach : ∀ y, Reaches parents' x y → Reaches parents x y := fun y hreach => by
      induction hreach with
      | refl => exact .refl
      | @tail a b _ hb ih => exact ih.tail (hparents a ih ▸ hb)
    rw [visit_congr (fun y hy => (hparents y (hreach y hy)).symm)
      (fun y hy => (hpresent y (hreach y hy)).symm) hle (hne h')]

end Searches

/-! ## Faults -/

/-- A graph whose edges out of `x` change, and in which `x` is present afterwards. -/
structure Rewired (x : α) (parents parents' : α → List α) (present present' : α → Bool) :
    Prop where
  agree : AgreeOff x parents parents'
  present_iff : ∀ y, present' y = true ↔ present y = true ∨ y = x

/-- Every node that is there is without fault. -/
def Faultless (parents : α → List α) (present : α → Bool) : Prop :=
  ∀ y, present y = true → ¬ Faulty parents present y

section Rewired

variable {x y : α}

theorem Rewired.missing_iff (h : Rewired x parents parents' present present') (hy : y ≠ x) :
    present' y = false ↔ present y = false := by
  have hiff := h.present_iff y
  rw [or_iff_left hy] at hiff
  rw [← Bool.not_eq_true, ← Bool.not_eq_true, hiff]

/-- A node that does not come to the changed one keeps its faults. -/
theorem Rewired.faulty_iff (h : Rewired x parents parents' present present')
    (hx : ¬ Reaches parents y x) :
    Faulty parents' present' y ↔ Faulty parents present y := by
  refine exists_congr fun z => ?_
  rw [h.agree.reaches_iff hx]
  refine and_congr_right fun hz => ?_
  have hzx : ¬ Reaches parents z x := fun hreach => hx (hz.trans hreach)
  have hne : z ≠ x := by
    rintro rfl
    exact hzx .refl
  rw [h.missing_iff hne, h.agree.onCycle_iff hzx]

/-- The changed node is without fault when its parents were, and do not come to it. -/
theorem Rewired.not_faulty_self (h : Rewired x parents parents' present present')
    (hparents : ∀ p ∈ parents' x, ¬ Faulty parents present p ∧ ¬ Reaches parents p x) :
    ¬ Faulty parents' present' x := by
  rintro ⟨z, hz, hfault⟩
  rcases Relation.ReflTransGen.cases_head hz with rfl | ⟨p, hp, hpz⟩
  · rcases hfault with hmissing | hcycle
    · rw [(h.present_iff x).mpr (.inr rfl)] at hmissing
      cases hmissing
    · obtain ⟨p, hp, hback⟩ := onCycle_iff.mp hcycle
      exact (hparents p hp).2 (h.agree.reaches_self_iff.mp hback)
  · obtain ⟨hsound, hpx⟩ := hparents p hp
    exact hsound ((h.faulty_iff hpx).mp ⟨z, hpz, hfault⟩)

/-- A fault of the new graph was there before, or it is one of the changed node. -/
theorem Rewired.faulty_or (h : Rewired x parents parents' present present')
    (hy : Faulty parents' present' y) :
    Faulty parents present y ∨ Faulty parents' present' x := by
  obtain ⟨z, hz, hfault⟩ := hy
  by_cases hxz : Reaches parents' x z
  · exact .inr ⟨z, hxz, hfault⟩
  · have hz' := (h.agree.reaches_or hz).resolve_right hxz
    have hne : z ≠ x := by
      rintro rfl
      exact hxz .refl
    refine .inl ⟨z, hz', hfault.imp (h.missing_iff hne).mp fun hcycle => ?_⟩
    obtain ⟨p, hp, hback⟩ := onCycle_iff.mp hcycle
    have hback' := (h.agree.reaches_or hback).resolve_right hxz
    rw [h.agree z hne] at hp
    exact onCycle_iff.mpr ⟨p, hp, hback'⟩

/-- **When a change keeps every node without fault.** -/
theorem faultless_rewired_iff (h : Rewired x parents parents' present present')
    (hsound : Faultless parents present) : Faultless parents' present' ↔
      ∀ p ∈ parents' x, ¬ Faulty parents present p ∧ ¬ Reaches parents p x := by
  constructor
  · intro hsound' p hp
    have hx := hsound' x ((h.present_iff x).mpr (.inr rfl))
    have hpx : ¬ Reaches parents p x := by
      intro hreach
      have hcycle := onCycle_iff.mpr ⟨p, hp, h.agree.reaches_self_iff.mpr hreach⟩
      exact hx ⟨x, .refl, .inr hcycle⟩
    exact ⟨fun hfault => hx (((h.faulty_iff hpx).mpr hfault).of_parent hp), hpx⟩
  · intro hparents y hy hfault
    have hx := h.not_faulty_self hparents
    have hold := (h.faulty_or hfault).resolve_right hx
    rcases (h.present_iff y).mp hy with hy | rfl
    · exact hsound y hy hold
    · exact hx hfault

end Rewired

/-! ## A new first node -/

theorem not_faulty_of_parentsFirst {l : List α} {x : α} (h : ParentsFirst parents l)
    (hnodup : l.Nodup) (hpresent : ∀ y ∈ l, present y = true) (hx : x ∈ l) :
    ¬ Faulty parents present x := by
  rintro ⟨y, hreach, hfault⟩
  have hy := h.mem_of_reaches hx hreach
  rcases hfault with hmissing | hcycle
  · rw [hpresent y hy] at hmissing
    cases hmissing
  · exact h.not_onCycle hnodup hy hcycle

/-- A node without parents may be put in front, and the others may stand behind it. -/
theorem ParentsFirst.cons {r : α} {l : List α} (h : ParentsFirst parents l)
    (hroot : parents' r = []) (hrest : ∀ y ∈ l, ∀ p ∈ parents' y, p = r ∨ p ∈ parents y) :
    ParentsFirst parents' (r :: l) := by
  induction h with
  | nil =>
    refine @ParentsFirst.concat α parents' [] r .nil ?_
    rw [hroot]
    exact fun p hp => absurd hp List.not_mem_nil
  | @concat l x _ hx ih =>
    refine @ParentsFirst.concat α parents' (r :: l) x (ih ?_) ?_
    · exact fun y hy => hrest y (List.mem_append_left _ hy)
    · intro p hp
      rcases hrest x (List.mem_append_right _ (List.mem_singleton_self x)) p hp with rfl | hp
      · exact List.mem_cons_self ..
      · exact List.mem_cons_of_mem _ (hx p hp)

/-- A new first node makes no fault. -/
theorem not_faulty_cons {r x : α} {chain : List α} (h : IsChain parents present x chain)
    (hnew : present r = false) (hroot : parents' r = [])
    (hrest : ∀ y ∈ chain, ∀ p ∈ parents' y, p = r ∨ p ∈ parents y)
    (hpresent : ∀ y, present' y = true ↔ present y = true ∨ y = r) :
    ¬ Faulty parents' present' x := by
  have hfresh : r ∉ chain := by
    intro hr
    rw [h.present r hr] at hnew
    cases hnew
  refine not_faulty_of_parentsFirst (h.order.cons hroot hrest) (h.nodup.cons hfresh) ?_
    (List.mem_cons_of_mem _ ((h.mem_iff x).mpr .refl))
  intro y hy
  rcases List.mem_cons.mp hy with rfl | hy
  · exact (hpresent y).mpr (.inr rfl)
  · exact (hpresent y).mpr (.inl (h.present y hy))

end Digraph
