import Mathlib.Data.Finset.Card
import Mathlib.Data.Finset.SDiff
import Mathlib.Data.Finset.Dedup
import Mathlib.Logic.Relation
import Mathlib.Data.List.Basic
import Mathlib.Tactic.Common

/-!
# Depth-first post-order

A directed graph is given by a function `parents`, and by the nodes that are `present`. `visit`
is the depth-first search that appends a node to a chain once all its parents stand in it, with
the set of finished nodes and the set of nodes under visit; it stops at a node that is under visit
already and at a node that is not present. The recursion is bounded by a number, and a number
larger than any set that is closed under parents is enough.

* `visit_ok`: a visit that succeeds appends ancestors, each after its parents.
* `fault_of_visit`, `visit_ne_exhausted`: a visit that fails has met a cycle or a missing node.
* `postorder_ok_iff`: when there is a post-order at all.
* `visit_filter`: a visit from a chain that has more already appends the rest, in the same order.
* `visit_mem`: which nodes are visited before the search comes to a node.
-/

set_option autoImplicit false

namespace Digraph

universe u

variable {α : Type u}

/-! ## Ancestors -/

section Ancestors

variable (parents : α → List α)

/-- `y` is `x` or an ancestor of it. -/
def Reaches : α → α → Prop := Relation.ReflTransGen fun x y => y ∈ parents x

/-- `x` is an ancestor of itself. -/
def OnCycle (x : α) : Prop := Relation.TransGen (fun x y => y ∈ parents x) x x

/-- Searching from a node, one comes to `z` by the first parent that is `z` or descends from it, and
on from there. These are visited before: the parents before that one, and their ancestors. -/
inductive VisitedBefore (z : α) : α → α → Prop
  | aside {x y w a : α} {front back : List α} : parents x = front ++ y :: back →
      (∀ v ∈ front, ¬ Reaches parents v z) → Reaches parents y z →
      w ∈ front → Reaches parents w a → VisitedBefore z x a
  | on {x y a : α} {front back : List α} : parents x = front ++ y :: back →
      (∀ v ∈ front, ¬ Reaches parents v z) → Reaches parents y z →
      VisitedBefore z y a → VisitedBefore z x a

/-- A list in which every node stands behind all its parents. -/
inductive ParentsFirst : List α → Prop
  | nil : ParentsFirst []
  | concat {l : List α} {x : α} : ParentsFirst l → (∀ y ∈ parents x, y ∈ l) →
      ParentsFirst (l ++ [x])

variable {parents}

theorem ParentsFirst.of_concat {l : List α} {x : α} (h : ParentsFirst parents (l ++ [x])) :
    ParentsFirst parents l ∧ ∀ y ∈ parents x, y ∈ l := by
  generalize hlist : l ++ [x] = list at h
  cases h with
  | nil => simp at hlist
  | concat hl hx =>
    obtain ⟨rfl, heq⟩ := List.append_inj' hlist rfl
    cases heq
    exact ⟨hl, hx⟩

theorem ParentsFirst.left {l m : List α} (h : ParentsFirst parents (l ++ m)) :
    ParentsFirst parents l := by
  induction m using List.reverseRecOn with
  | nil => simpa using h
  | append_singleton m x ih =>
    rw [← List.append_assoc] at h
    exact ih h.of_concat.1

/-- The parents of a node are in front of it. -/
theorem ParentsFirst.mem_before {before after : List α} {x y : α}
    (h : ParentsFirst parents (before ++ x :: after)) (hy : y ∈ parents x) : y ∈ before := by
  have hbefore : ParentsFirst parents (before ++ [x]) := by
    refine ParentsFirst.left (m := after) ?_
    simpa using h
  exact hbefore.of_concat.2 y hy

/-- So are all its ancestors. -/
theorem ParentsFirst.mem_before_of_transGen {before after : List α} {x y : α}
    (h : ParentsFirst parents (before ++ x :: after))
    (hxy : Relation.TransGen (fun x y => y ∈ parents x) x y) : y ∈ before := by
  induction hxy with
  | single hy => exact h.mem_before hy
  | tail _ hy ih =>
    obtain ⟨start, rest, rfl⟩ := List.append_of_mem ih
    have hmid := h.left.mem_before hy
    exact List.mem_append_left _ hmid

theorem ParentsFirst.mem_of_reaches {l : List α} {x y : α} (h : ParentsFirst parents l)
    (hx : x ∈ l) (hxy : Reaches parents x y) : y ∈ l := by
  rcases Relation.reflTransGen_iff_eq_or_transGen.mp hxy with rfl | htrans
  · exact hx
  · obtain ⟨before, after, rfl⟩ := List.append_of_mem hx
    exact List.mem_append_left _ (h.mem_before_of_transGen htrans)

theorem ParentsFirst.not_onCycle {l : List α} {x : α} (h : ParentsFirst parents l)
    (hnodup : l.Nodup) (hx : x ∈ l) : ¬ OnCycle parents x := by
  intro hcycle
  obtain ⟨before, after, rfl⟩ := List.append_of_mem hx
  have hmem := h.mem_before_of_transGen hcycle
  exact (List.nodup_append.mp hnodup).2.2 x hmem x (List.mem_cons_self ..) rfl

/-- An ancestor stands in front. -/
theorem ParentsFirst.sublist {l : List α} {x y : α} (h : ParentsFirst parents l) (hx : x ∈ l)
    (hxy : Relation.TransGen (fun x y => y ∈ parents x) x y) : [y, x].Sublist l := by
  obtain ⟨before, after, rfl⟩ := List.append_of_mem hx
  have hy := h.mem_before_of_transGen hxy
  exact (List.singleton_sublist.mpr hy).append
    (List.singleton_sublist.mpr (List.mem_cons_self ..))

/-- What comes before the first element with a property is determined by the list. -/
theorem eq_of_first {P : α → Prop} {front front' back back' : List α} {y y' : α}
    (h : front ++ y :: back = front' ++ y' :: back') (hfront : ∀ v ∈ front, ¬ P v) (hy : P y)
    (hfront' : ∀ v ∈ front', ¬ P v) (hy' : P y') : front = front' ∧ y = y' := by
  induction front generalizing front' with
  | nil =>
    cases front' with
    | nil => exact ⟨rfl, (List.cons.inj h).1⟩
    | cons v front' =>
      obtain ⟨rfl, -⟩ := List.cons.inj h
      exact absurd hy (hfront' y (List.mem_cons_self ..))
  | cons v front ih =>
    cases front' with
    | nil =>
      obtain ⟨rfl, -⟩ := List.cons.inj h
      exact absurd hy' (hfront v (List.mem_cons_self ..))
    | cons v' front' =>
      obtain ⟨rfl, hrest⟩ := List.cons.inj h
      obtain ⟨rfl, rfl⟩ := ih hrest (fun w hw => hfront w (List.mem_cons_of_mem _ hw))
        fun w hw => hfront' w (List.mem_cons_of_mem _ hw)
      exact ⟨rfl, rfl⟩

/-- What is visited before, for a node whose first parent on the way is known. -/
theorem visitedBefore_iff {x y z a : α} {front back : List α}
    (hparents : parents x = front ++ y :: back) (hfront : ∀ v ∈ front, ¬ Reaches parents v z)
    (hy : Reaches parents y z) : VisitedBefore parents z x a ↔
      (∃ w ∈ front, Reaches parents w a) ∨ VisitedBefore parents z y a := by
  constructor
  · rintro (⟨hparents', hfront', hy', hw, hreach⟩ | ⟨hparents', hfront', hy', hbefore⟩)
    · obtain ⟨rfl, rfl⟩ := eq_of_first (P := fun v => Reaches parents v z)
        (hparents.symm.trans hparents') hfront hy hfront' hy'
      exact .inl ⟨_, hw, hreach⟩
    · obtain ⟨rfl, rfl⟩ := eq_of_first (P := fun v => Reaches parents v z)
        (hparents.symm.trans hparents') hfront hy hfront' hy'
      exact .inr hbefore
  · rintro (⟨w, hw, hreach⟩ | hbefore)
    · exact .aside hparents hfront hy hw hreach
    · exact .on hparents hfront hy hbefore

/-- Nothing is visited before the node from which one starts. -/
theorem not_visitedBefore_self {z a : α} (hcycle : ¬ OnCycle parents z) :
    ¬ VisitedBefore parents z z a := by
  have hmem : ∀ {y : α} {front back : List α}, parents z = front ++ y :: back →
      ¬ Reaches parents y z := by
    intro y front back hparents hy
    refine hcycle (.head' ?_ hy)
    rw [hparents]
    exact List.mem_append_right _ (List.mem_cons_self ..)
  rintro (⟨hparents, -, hy, -, -⟩ | ⟨hparents, -, hy, -⟩) <;> exact hmem hparents hy

end Ancestors

/-! ## The search -/

/-- Why a search stops early. -/
inductive Fault (α : Type u)
  | cycle (x : α)
  | missing (x : α)
  | exhausted
  deriving DecidableEq

/-- The state of a search. -/
structure Search (α : Type u) where
  chain : List α
  seen : List α
  visiting : List α

/-- Before anything is visited. -/
def Search.start : Search α := ⟨[], [], []⟩

section Visit

variable [DecidableEq α] (parents : α → List α) (present : α → Bool)

/-- A node is under visit. -/
def Search.enter (st : Search α) (x : α) : Search α := { st with visiting := x :: st.visiting }

/-- A node was visited: it is appended unless it is there. -/
def Search.leave (st : Search α) (x : α) : Search α :=
  let visiting := st.visiting.erase x
  if x ∈ st.seen then { st with visiting }
  else { chain := st.chain ++ [x], seen := x :: st.seen, visiting }

/-- Visit a node and what it inherits from. -/
def visit : Nat → α → Search α → Except (Fault α) (Search α)
  | 0, _, _ => .error .exhausted
  | fuel + 1, x, st =>
    if x ∈ st.seen then .ok st
    else if x ∈ st.visiting then .error (.cycle x)
    else if present x = false then .error (.missing x)
    else
      match (parents x).foldlM (fun st y => visit fuel y st) (st.enter x) with
      | .error fault => .error fault
      | .ok st => .ok (st.leave x)

/-- The chain of a node, with so much recursion. -/
def postorder (fuel : Nat) (x : α) : Except (Fault α) (List α) :=
  (visit parents present fuel x .start).map Search.chain

variable {parents present}

/-- What is visited within a visit, one after the other. -/
theorem foldlM_cons_ok {fuel : Nat} {y : α} {ys : List α} {st st' : Search α}
    (h : (y :: ys).foldlM (fun st y => visit parents present fuel y st) st = .ok st') :
    ∃ st₁, visit parents present fuel y st = .ok st₁ ∧
      ys.foldlM (fun st y => visit parents present fuel y st) st₁ = .ok st' := by
  rw [List.foldlM_cons] at h
  cases hfirst : visit parents present fuel y st with
  | error fault =>
    rw [hfirst] at h
    cases h
  | ok st₁ =>
    rw [hfirst] at h
    exact ⟨st₁, rfl, h⟩

/-- The cases of a visit that succeeds. -/
theorem visit_eq_ok {fuel : Nat} {x : α} {st st' : Search α}
    (h : visit parents present fuel x st = .ok st') :
    (x ∈ st.seen ∧ st' = st) ∨ ∃ fuel' st₁, fuel = fuel' + 1 ∧ x ∉ st.seen ∧ x ∉ st.visiting ∧
      present x = true ∧
      (parents x).foldlM (fun st y => visit parents present fuel' y st) (st.enter x) = .ok st₁ ∧
      st' = st₁.leave x := by
  cases fuel with
  | zero => cases h
  | succ fuel =>
    unfold visit at h
    split at h
    · rename_i hseen
      cases h
      exact .inl ⟨hseen, rfl⟩
    · rename_i hseen
      split at h
      · cases h
      · rename_i hvisiting
        split at h
        · cases h
        · rename_i hpresent
          split at h
          · cases h
          · rename_i st₁ hfold
            cases h
            exact .inr ⟨fuel, st₁, rfl, hseen, hvisiting, by simpa using hpresent, hfold, rfl⟩

theorem visiting_of_visit {fuel : Nat} {x : α} {st st' : Search α}
    (h : visit parents present fuel x st = .ok st') : st'.visiting = st.visiting := by
  induction fuel generalizing x st st' with
  | zero => cases h
  | succ fuel ih =>
    have hall : ∀ (ys : List α) (st st' : Search α),
        ys.foldlM (fun st y => visit parents present fuel y st) st = .ok st' →
        st'.visiting = st.visiting := by
      intro ys
      induction ys with
      | nil =>
        intro st st' hfold
        cases hfold
        rfl
      | cons y ys ihys =>
        intro st st' hfold
        obtain ⟨st₁, hfirst, hrest⟩ := foldlM_cons_ok hfold
        exact (ihys _ _ hrest).trans (ih hfirst)
    obtain ⟨-, rfl⟩ | ⟨fuel', st₁, hfuel, -, -, -, hfold, rfl⟩ := visit_eq_ok h
    · rfl
    · cases hfuel
      have hvisiting := hall _ _ _ hfold
      unfold Search.leave
      split <;> simp [hvisiting, Search.enter]

/-! ## What a successful visit appends -/

/-- The nodes in the chain are the finished ones, all present, each once and after its parents;
the nodes under visit are not among them. -/
structure Search.Valid (parents : α → List α) (present : α → Bool) (st : Search α) : Prop where
  seen : ∀ x, x ∈ st.seen ↔ x ∈ st.chain
  order : ParentsFirst parents st.chain
  nodup : st.chain.Nodup
  present : ∀ x ∈ st.chain, present x = true
  visiting : ∀ x ∈ st.visiting, x ∉ st.chain

omit [DecidableEq α] in
theorem Search.valid_start : (Search.start : Search α).Valid parents present :=
  ⟨fun _ => Iff.rfl, .nil, List.nodup_nil, fun _ h => absurd h List.not_mem_nil,
    fun _ h => absurd h List.not_mem_nil⟩

/-- From one state to another, nodes that `xs` inherit from were appended. -/
structure Extends (parents : α → List α) (present : α → Bool) (xs : List α)
    (st st' : Search α) (new : List α) : Prop where
  valid : st'.Valid parents present
  chain : st'.chain = st.chain ++ new
  visiting : st'.visiting = st.visiting
  reaches : ∀ z ∈ new, ∃ x ∈ xs, Reaches parents x z
  mem : ∀ x ∈ xs, x ∈ st'.chain

omit [DecidableEq α] in
theorem Extends.nil {st : Search α} (h : st.Valid parents present) :
    Extends parents present [] st st [] :=
  ⟨h, (List.append_nil _).symm, rfl, fun _ hz => absurd hz List.not_mem_nil,
    fun _ hx => absurd hx List.not_mem_nil⟩

omit [DecidableEq α] in
theorem Extends.cons {x : α} {xs : List α} {st st₁ st' : Search α} {new new' : List α}
    (h : Extends parents present [x] st st₁ new) (h' : Extends parents present xs st₁ st' new') :
    Extends parents present (x :: xs) st st' (new ++ new') :=
  { valid := h'.valid
    chain := by rw [h'.chain, h.chain, List.append_assoc]
    visiting := h'.visiting.trans h.visiting
    reaches := by
      intro z hz
      rcases List.mem_append.mp hz with hz | hz
      · obtain ⟨y, hy, hreach⟩ := h.reaches z hz
        exact ⟨y, by rw [List.mem_singleton.mp hy]; exact List.mem_cons_self .., hreach⟩
      · obtain ⟨y, hy, hreach⟩ := h'.reaches z hz
        exact ⟨y, List.mem_cons_of_mem _ hy, hreach⟩
    mem := by
      intro y hy
      rcases List.mem_cons.mp hy with rfl | hy
      · rw [h'.chain]
        exact List.mem_append_left _ (h.mem y (List.mem_singleton_self y))
      · exact h'.mem y hy }

/-- Visits one after the other, when each does what a visit does. -/
theorem extends_foldlM {fuel : Nat}
    (hvisit : ∀ x (st st' : Search α), st.Valid parents present →
      visit parents present fuel x st = .ok st' →
      ∃ new, Extends parents present [x] st st' new)
    {ys : List α} {st st' : Search α} (hvalid : st.Valid parents present)
    (h : ys.foldlM (fun st y => visit parents present fuel y st) st = .ok st') :
    ∃ new, Extends parents present ys st st' new := by
  induction ys generalizing st with
  | nil =>
    cases h
    exact ⟨[], .nil hvalid⟩
  | cons y ys ih =>
    obtain ⟨st₁, hfirst, hrest⟩ := foldlM_cons_ok h
    obtain ⟨new, hnew⟩ := hvisit y st st₁ hvalid hfirst
    obtain ⟨new', hnew'⟩ := ih hnew.valid hrest
    exact ⟨new ++ new', hnew.cons hnew'⟩

omit [DecidableEq α] in
theorem Search.Valid.enter {x : α} {st : Search α} (h : st.Valid parents present)
    (hx : x ∉ st.chain) : (st.enter x).Valid parents present :=
  { h with
    visiting := by
      intro y hy hmem
      rcases List.mem_cons.mp hy with rfl | hy
      · exact hx hmem
      · exact h.visiting y hy hmem }

/-- A node is entered, its parents are visited, and it is left. -/
theorem extends_leave {x : α} {st st₁ : Search α} {new : List α} (hvisiting : x ∉ st.visiting)
    (hpresent : present x = true) (h : Extends parents present (parents x) (st.enter x) st₁ new) :
    Extends parents present [x] st (st₁.leave x) (new ++ [x]) := by
  have hfresh : x ∉ st₁.chain := by
    refine h.valid.visiting x ?_
    rw [h.visiting]
    exact List.mem_cons_self ..
  have hleave : st₁.leave x =
      { chain := st₁.chain ++ [x], seen := x :: st₁.seen, visiting := st.visiting } := by
    unfold Search.leave
    rw [if_neg (fun hs => hfresh ((h.valid.seen x).mp hs)), h.visiting]
    simp [Search.enter]
  rw [hleave]
  exact
    { valid :=
        { seen := fun y => by simp [h.valid.seen y, or_comm]
          order := .concat h.valid.order h.mem
          nodup := by
            rw [List.nodup_append]
            refine ⟨h.valid.nodup, List.nodup_singleton x, ?_⟩
            rintro y hy z hz rfl
            exact hfresh (List.mem_singleton.mp hz ▸ hy)
          present := by
            intro y hy
            rcases List.mem_append.mp hy with hy | hy
            · exact h.valid.present y hy
            · rw [List.mem_singleton.mp hy]
              exact hpresent
          visiting := by
            intro y hy hmem
            rcases List.mem_append.mp hmem with hmem | hmem
            · refine h.valid.visiting y ?_ hmem
              rw [h.visiting]
              exact List.mem_cons_of_mem _ hy
            · exact hvisiting (List.mem_singleton.mp hmem ▸ hy) }
      chain := by
        rw [h.chain]
        exact List.append_assoc ..
      visiting := rfl
      reaches := by
        intro z hz
        refine ⟨x, List.mem_singleton_self x, ?_⟩
        rcases List.mem_append.mp hz with hz | hz
        · obtain ⟨y, hy, hreach⟩ := h.reaches z hz
          exact .head hy hreach
        · rw [List.mem_singleton.mp hz]
          exact .refl
      mem := by
        intro y hy
        rw [List.mem_singleton.mp hy]
        exact List.mem_append_right _ (List.mem_singleton_self x) }

/-- **What a successful visit does.** A new node comes last. -/
theorem visit_ok {fuel : Nat} {x : α} {st st' : Search α} (hvalid : st.Valid parents present)
    (h : visit parents present fuel x st = .ok st') :
    ∃ new, Extends parents present [x] st st' new ∧
      (x ∉ st.chain → ∃ ancestors, new = ancestors ++ [x]) := by
  induction fuel generalizing x st st' with
  | zero => cases h
  | succ fuel ih =>
    obtain ⟨hseen, rfl⟩ | ⟨fuel', st₁, hfuel, hseen, hvisiting, hpresent, hfold, rfl⟩ :=
      visit_eq_ok h
    · have hmem := (hvalid.seen x).mp hseen
      refine ⟨[], ⟨hvalid, (List.append_nil _).symm, rfl, fun _ hz => absurd hz List.not_mem_nil,
        fun y hy => ?_⟩, fun hnew => absurd hmem hnew⟩
      rw [List.mem_singleton.mp hy]
      exact hmem
    · cases hfuel
      have henter := hvalid.enter fun hx => hseen ((hvalid.seen x).mpr hx)
      obtain ⟨new, hnew⟩ := extends_foldlM
        (fun y st st' hst hvisit => (ih hst hvisit).imp fun _ h => h.1) henter hfold
      exact ⟨new ++ [x], extends_leave hvisiting hpresent hnew, fun _ => ⟨new, rfl⟩⟩

theorem visit_new {fuel : Nat} {x : α} {st st' : Search α} (hvalid : st.Valid parents present)
    (h : visit parents present fuel x st = .ok st') :
    ∃ new, Extends parents present [x] st st' new :=
  (visit_ok hvalid h).imp fun _ h => h.1

/-- The visits within the visit of a new node. -/
theorem visit_split {fuel : Nat} {x : α} {st st' : Search α} (hvalid : st.Valid parents present)
    (hx : x ∉ st.chain) (h : visit parents present fuel x st = .ok st') :
    ∃ fuel' mid new, fuel = fuel' + 1 ∧
      (parents x).foldlM (fun st y => visit parents present fuel' y st) (st.enter x) = .ok mid ∧
      mid.chain = st.chain ++ new ∧ st'.chain = st.chain ++ (new ++ [x]) := by
  obtain ⟨hseen, -⟩ | ⟨fuel', mid, hfuel, hseen, hvisiting, hpresent, hfold, rfl⟩ :=
    visit_eq_ok h
  · exact absurd ((hvalid.seen x).mp hseen) hx
  · obtain ⟨new, hnew⟩ := extends_foldlM (fun y st st' hst => visit_new hst) (hvalid.enter hx) hfold
    exact ⟨fuel', mid, new, hfuel, hfold, hnew.chain,
      (extends_leave hvisiting hpresent hnew).chain⟩

/-! ## Why a visit fails -/

/-- A missing node or a cycle is `x` or among its ancestors. -/
def Faulty (parents : α → List α) (present : α → Bool) (x : α) : Prop :=
  ∃ y, Reaches parents x y ∧ (present y = false ∨ OnCycle parents y)

omit [DecidableEq α] in
theorem Faulty.of_parent {x y : α} (hy : y ∈ parents x) (h : Faulty parents present y) :
    Faulty parents present x := by
  obtain ⟨z, hreach, hz⟩ := h
  exact ⟨z, .head hy hreach, hz⟩

/-- The fault of a sequence of visits is that of one of them, from a state with the same nodes
under visit. -/
theorem foldlM_error {fuel : Nat} {ys : List α} {st : Search α} {fault : Fault α}
    (h : ys.foldlM (fun st y => visit parents present fuel y st) st = .error fault) :
    ∃ y ∈ ys, ∃ st', st'.visiting = st.visiting ∧
      visit parents present fuel y st' = .error fault := by
  induction ys generalizing st with
  | nil => cases h
  | cons y ys ih =>
    rw [List.foldlM_cons] at h
    cases hfirst : visit parents present fuel y st with
    | error fault' =>
      rw [hfirst] at h
      cases h
      exact ⟨y, List.mem_cons_self .., st, rfl, hfirst⟩
    | ok st₁ =>
      rw [hfirst] at h
      obtain ⟨z, hz, st', hvisiting, hlast⟩ := ih h
      exact ⟨z, List.mem_cons_of_mem _ hz, st', hvisiting.trans (visiting_of_visit hfirst), hlast⟩

/-- The cases of a visit that fails. -/
theorem visit_eq_error {fuel : Nat} {x : α} {st : Search α} {fault : Fault α}
    (h : visit parents present (fuel + 1) x st = .error fault) :
    (x ∈ st.visiting ∧ fault = .cycle x) ∨ (present x = false ∧ fault = .missing x) ∨
      x ∉ st.visiting ∧ ∃ y ∈ parents x, ∃ st', st'.visiting = x :: st.visiting ∧
        visit parents present fuel y st' = .error fault := by
  unfold visit at h
  split at h
  · cases h
  · split at h
    · rename_i hvisiting
      cases h
      exact .inl ⟨hvisiting, rfl⟩
    · rename_i hvisiting
      split at h
      · rename_i hpresent
        cases h
        exact .inr (.inl ⟨hpresent, rfl⟩)
      · split at h
        · rename_i hfold
          cases h
          exact .inr (.inr ⟨hvisiting, foldlM_error hfold⟩)
        · cases h

/-- **What a failed visit has met**, when the nodes under visit descend from `x`. -/
theorem fault_of_visit {fuel : Nat} {x : α} {st : Search α} {fault : Fault α}
    (hpath : ∀ y ∈ st.visiting, Relation.TransGen (fun x y => y ∈ parents x) y x)
    (h : visit parents present fuel x st = .error fault) :
    fault = .exhausted ∨ Faulty parents present x := by
  induction fuel generalizing x st with
  | zero =>
    cases h
    exact .inl rfl
  | succ fuel ih =>
    rcases visit_eq_error h with ⟨hvisiting, -⟩ | ⟨hmissing, -⟩ | ⟨-, y, hy, st', hsame, hlast⟩
    · exact .inr ⟨x, .refl, .inr (hpath x hvisiting)⟩
    · exact .inr ⟨x, .refl, .inl hmissing⟩
    · have hpath' : ∀ z ∈ st'.visiting, Relation.TransGen (fun x y => y ∈ parents x) z y := by
        intro z hz
        rw [hsame] at hz
        rcases List.mem_cons.mp hz with rfl | hz
        · exact .single hy
        · exact .tail (hpath z hz) hy
      exact (ih hpath' hlast).imp_right fun hfaulty => hfaulty.of_parent hy

/-- **Enough recursion**: more than there are nodes left to visit. -/
theorem visit_ne_exhausted {nodes : Finset α} (hclosed : ∀ x ∈ nodes, ∀ y ∈ parents x, y ∈ nodes)
    {fuel : Nat} {x : α} {st : Search α} (hx : x ∈ nodes)
    (hfuel : (nodes \ st.visiting.toFinset).card < fuel) :
    visit parents present fuel x st ≠ .error .exhausted := by
  induction fuel generalizing x st with
  | zero => exact absurd hfuel (Nat.not_lt_zero _)
  | succ fuel ih =>
    intro h
    rcases visit_eq_error h with ⟨-, h⟩ | ⟨-, h⟩ | ⟨hvisiting, y, hy, st', hsame, hlast⟩
    · cases h
    · cases h
    · refine ih (hclosed x hx y hy) ?_ hlast
      have hsub : nodes \ st'.visiting.toFinset ⊂ nodes \ st.visiting.toFinset := by
        rw [hsame, Finset.ssubset_iff_of_subset]
        · exact ⟨x, by simp [hx, hvisiting], by simp⟩
        · intro z hz
          simp only [Finset.mem_sdiff, List.mem_toFinset, List.mem_cons, not_or] at hz ⊢
          exact ⟨hz.1, hz.2.2⟩
      have hcard := Finset.card_lt_card hsub
      omega

/-! ## The chain of a node -/

theorem postorder_eq_ok {fuel : Nat} {x : α} {chain : List α}
    (h : postorder parents present fuel x = .ok chain) :
    ∃ st, visit parents present fuel x .start = .ok st ∧ st.chain = chain ∧
      Extends parents present [x] .start st chain ∧ ∃ ancestors, chain = ancestors ++ [x] := by
  unfold postorder at h
  cases hvisit : visit parents present fuel x .start with
  | error fault =>
    rw [hvisit] at h
    cases h
  | ok st =>
    rw [hvisit] at h
    cases h
    obtain ⟨new, hnew, hlast⟩ := visit_ok Search.valid_start hvisit
    have hchain : st.chain = new := hnew.chain
    exact ⟨st, rfl, rfl, hchain ▸ hnew, hchain ▸ hlast List.not_mem_nil⟩

/-- The chain of `x` is `x` and its ancestors, all present, each once and after its parents. -/
structure IsChain (parents : α → List α) (present : α → Bool) (x : α) (chain : List α) : Prop where
  order : ParentsFirst parents chain
  nodup : chain.Nodup
  present : ∀ y ∈ chain, present y = true
  mem_iff : ∀ y, y ∈ chain ↔ Reaches parents x y

theorem isChain_of_postorder {fuel : Nat} {x : α} {chain : List α}
    (h : postorder parents present fuel x = .ok chain) : IsChain parents present x chain := by
  obtain ⟨st, -, rfl, hnew, -⟩ := postorder_eq_ok h
  refine ⟨hnew.valid.order, hnew.valid.nodup, hnew.valid.present, fun y => ⟨fun hy => ?_, ?_⟩⟩
  · obtain ⟨z, hz, hreach⟩ := hnew.reaches y hy
    rwa [List.mem_singleton.mp hz] at hreach
  · exact fun hreach => hnew.valid.order.mem_of_reaches
      (hnew.mem x (List.mem_singleton_self x)) hreach

omit [DecidableEq α] in
theorem IsChain.not_faulty {x : α} {chain : List α} (h : IsChain parents present x chain) :
    ¬ Faulty parents present x := by
  rintro ⟨y, hreach, hy⟩
  have hmem := (h.mem_iff y).mpr hreach
  rcases hy with hmissing | hcycle
  · rw [h.present y hmem] at hmissing
    cases hmissing
  · exact h.order.not_onCycle h.nodup hmem hcycle

/-- **When there is a chain**: when no missing node and no cycle is in reach. -/
theorem postorder_ok_iff {nodes : Finset α} (hclosed : ∀ x ∈ nodes, ∀ y ∈ parents x, y ∈ nodes)
    {fuel : Nat} (hfuel : nodes.card < fuel) {x : α} (hx : x ∈ nodes) :
    (∃ chain, postorder parents present fuel x = .ok chain) ↔ ¬ Faulty parents present x := by
  constructor
  · rintro ⟨chain, h⟩
    exact (isChain_of_postorder h).not_faulty
  · intro hsound
    unfold postorder
    cases hvisit : visit parents present fuel x .start with
    | ok st => exact ⟨st.chain, rfl⟩
    | error fault =>
      rcases fault_of_visit (fun _ hy => absurd hy List.not_mem_nil) hvisit with rfl | hfaulty
      · exact absurd hvisit (visit_ne_exhausted hclosed hx
          (Nat.lt_of_le_of_lt (Finset.card_le_card Finset.sdiff_subset) hfuel))
      · exact absurd hfaulty hsound

/-- The node stands at the end of its chain. -/
theorem postorder_concat {fuel : Nat} {x : α} {chain : List α}
    (h : postorder parents present fuel x = .ok chain) : ∃ ancestors, chain = ancestors ++ [x] := by
  obtain ⟨-, -, -, -, hlast⟩ := postorder_eq_ok h
  exact hlast

/-! ## One search inside another -/

/-- Two sequences of visits from chains of which the second has more: the second appends what the
first does, without what it has. -/
theorem foldlM_filter {fuel fuel' : Nat}
    (hvisit : ∀ x (st st₁ st' st₁' : Search α) (new new' : List α), st.Valid parents present →
      st'.Valid parents present → st.chain ⊆ st'.chain →
      visit parents present fuel x st = .ok st₁ → visit parents present fuel' x st' = .ok st₁' →
      st₁.chain = st.chain ++ new → st₁'.chain = st'.chain ++ new' →
      new' = new.filter (· ∉ st'.chain))
    {ys : List α} {st st₁ st' st₁' : Search α} {new new' : List α}
    (hvalid : st.Valid parents present) (hvalid' : st'.Valid parents present)
    (hsub : st.chain ⊆ st'.chain)
    (h : ys.foldlM (fun st y => visit parents present fuel y st) st = .ok st₁)
    (h' : ys.foldlM (fun st y => visit parents present fuel' y st) st' = .ok st₁')
    (hnew : st₁.chain = st.chain ++ new) (hnew' : st₁'.chain = st'.chain ++ new') :
    new' = new.filter (· ∉ st'.chain) := by
  induction ys generalizing st st' new new' with
  | nil =>
    cases h
    cases h'
    obtain rfl : new = [] := by simpa using hnew
    obtain rfl : new' = [] := by simpa using hnew'
    rfl
  | cons y ys ih =>
    obtain ⟨mid, hfirst, hrest⟩ := foldlM_cons_ok h
    obtain ⟨mid', hfirst', hrest'⟩ := foldlM_cons_ok h'
    obtain ⟨a, ha⟩ := visit_new hvalid hfirst
    obtain ⟨a', ha'⟩ := visit_new hvalid' hfirst'
    have haa := hvisit y st mid st' mid' a a' hvalid hvalid' hsub hfirst hfirst' ha.chain ha'.chain
    have hsub' : mid.chain ⊆ mid'.chain := by
      intro z hz
      rw [ha.chain] at hz
      rw [ha'.chain, haa]
      rcases List.mem_append.mp hz with hz | hz
      · exact List.mem_append_left _ (hsub hz)
      · by_cases hin : z ∈ st'.chain
        · exact List.mem_append_left _ hin
        · exact List.mem_append_right _ (List.mem_filter.mpr ⟨hz, by simpa using hin⟩)
    obtain ⟨b, hb⟩ := extends_foldlM (fun z st st' hst => visit_new hst) ha.valid hrest
    obtain ⟨b', hb'⟩ := extends_foldlM (fun z st st' hst => visit_new hst) ha'.valid hrest'
    have hbb := ih ha.valid ha'.valid hsub' hrest hrest' hb.chain hb'.chain
    obtain rfl : new = a ++ b := by
      have := hnew.symm.trans hb.chain
      rwa [ha.chain, List.append_assoc, List.append_cancel_left_eq] at this
    obtain rfl : new' = a' ++ b' := by
      have := hnew'.symm.trans hb'.chain
      rwa [ha'.chain, List.append_assoc, List.append_cancel_left_eq] at this
    have hfresh : ∀ z ∈ b, z ∉ a := by
      intro z hz hza
      have hnodup := hb.valid.nodup
      rw [hb.chain, List.nodup_append] at hnodup
      refine hnodup.2.2 z ?_ z hz rfl
      rw [ha.chain]
      exact List.mem_append_right _ hza
    rw [List.filter_append, ← haa, hbb, ha'.chain]
    refine congrArg (a' ++ ·) (List.filter_congr fun z hz => ?_)
    have hza' : z ∉ a' := by
      rw [haa]
      exact fun h => hfresh z hz (List.mem_filter.mp h).1
    simp [hza']

/-- **A visit from a chain that has more** appends what the visit from the other chain does,
without what is there already, and in the same order. -/
theorem visit_filter {fuel fuel' : Nat} {x : α} {st st₁ st' st₁' : Search α} {new new' : List α}
    (hvalid : st.Valid parents present) (hvalid' : st'.Valid parents present)
    (hsub : st.chain ⊆ st'.chain) (h : visit parents present fuel x st = .ok st₁)
    (h' : visit parents present fuel' x st' = .ok st₁') (hnew : st₁.chain = st.chain ++ new)
    (hnew' : st₁'.chain = st'.chain ++ new') : new' = new.filter (· ∉ st'.chain) := by
  induction fuel generalizing fuel' x st st₁ st' st₁' new new' with
  | zero => cases h
  | succ fuel ih =>
    by_cases hx' : x ∈ st'.chain
    · -- the second chain has `x`, and so all that the first visit appends
      obtain ⟨a, ha⟩ := visit_new hvalid h
      obtain rfl : new = a := by rwa [ha.chain, List.append_cancel_left_eq, eq_comm] at hnew
      obtain ⟨-, rfl⟩ | ⟨_, _, _, hseen', -⟩ := visit_eq_ok h'
      · obtain rfl : new' = [] := by simpa using hnew'
        refine (List.filter_eq_nil_iff.mpr fun z hz => ?_).symm
        obtain ⟨y, hy, hreach⟩ := ha.reaches z hz
        rw [List.mem_singleton.mp hy] at hreach
        simpa using hvalid'.order.mem_of_reaches hx' hreach
      · exact absurd ((hvalid'.seen x).mpr hx') hseen'
    · have hx : x ∉ st.chain := fun hx => hx' (hsub hx)
      obtain ⟨fuel₁, mid, a, hfuel, hfold, ha, hchain⟩ := visit_split hvalid hx h
      obtain ⟨fuel₁', mid', a', -, hfold', ha', hchain'⟩ := visit_split hvalid' hx' h'
      cases hfuel
      obtain rfl : new = a ++ [x] := by rwa [hchain, List.append_cancel_left_eq, eq_comm] at hnew
      obtain rfl : new' = a' ++ [x] := by
        rwa [hchain', List.append_cancel_left_eq, eq_comm] at hnew'
      have haa := foldlM_filter (fun y st st₁ st' st₁' new new' hv hv' hs hy hy' hn hn' =>
        ih hv hv' hs hy hy' hn hn') (hvalid.enter hx) (hvalid'.enter hx') hsub hfold hfold' ha ha'
      rw [List.filter_append, List.filter_cons_of_pos (by simpa using hx'), haa]
      rfl

/-- A visit leaves in the chain what was there, the node and its ancestors. -/
theorem mem_chain_of_visit {fuel : Nat} {x a : α} {st st' : Search α}
    (hvalid : st.Valid parents present) (h : visit parents present fuel x st = .ok st') :
    a ∈ st'.chain ↔ a ∈ st.chain ∨ Reaches parents x a := by
  obtain ⟨new, hnew⟩ := visit_new hvalid h
  constructor
  · intro ha
    rw [hnew.chain] at ha
    refine (List.mem_append.mp ha).imp_right fun ha => ?_
    obtain ⟨y, hy, hreach⟩ := hnew.reaches a ha
    rwa [List.mem_singleton.mp hy] at hreach
  · rintro (ha | hreach)
    · rw [hnew.chain]
      exact List.mem_append_left _ ha
    · exact hnew.valid.order.mem_of_reaches (hnew.mem x (List.mem_singleton_self x)) hreach

/-- The search visits `z`, which is new, from a chain of the elements of `before`; and what that
visit makes of the chain is still there at the end. -/
def Comes (parents : α → List α) (present : α → Bool) (z : α) (st' : Search α)
    (before : α → Prop) : Prop :=
  ∃ fuel₁ st₁ st₂ rest, st₁.Valid parents present ∧ z ∉ st₁.chain ∧
    visit parents present fuel₁ z st₁ = .ok st₂ ∧ st'.chain = st₂.chain ++ rest ∧
    ∀ a, a ∈ st₁.chain ↔ before a

/-- One of several visits comes to a node, that of the first to descend from it. -/
theorem foldlM_mem {fuel : Nat} {z : α}
    (hvisit : ∀ x (st st' : Search α), st.Valid parents present →
      visit parents present fuel x st = .ok st' → z ∈ st'.chain → z ∉ st.chain →
      Comes parents present z st' fun a => a ∈ st.chain ∨ VisitedBefore parents z x a)
    {ys : List α} {st st' : Search α} (hvalid : st.Valid parents present)
    (h : ys.foldlM (fun st y => visit parents present fuel y st) st = .ok st')
    (hz : z ∈ st'.chain) (hnew : z ∉ st.chain) :
    ∃ front y back, ys = front ++ y :: back ∧ (∀ v ∈ front, ¬ Reaches parents v z) ∧
      Reaches parents y z ∧ Comes parents present z st' fun a =>
        a ∈ st.chain ∨ (∃ w ∈ front, Reaches parents w a) ∨ VisitedBefore parents z y a := by
  induction ys generalizing st with
  | nil =>
    cases h
    exact absurd hz hnew
  | cons y ys ih =>
    obtain ⟨mid, hfirst, hrest⟩ := foldlM_cons_ok h
    obtain ⟨a, ha⟩ := visit_new hvalid hfirst
    by_cases hmid : z ∈ mid.chain
    · -- the first of them
      obtain ⟨b, hb⟩ := extends_foldlM (fun z st st' hst => visit_new hst) ha.valid hrest
      obtain ⟨fuel₁, st₁, st₂, rest, hst₁, hz₁, hcome, hchain, hbefore⟩ :=
        hvisit y st mid hvalid hfirst hmid hnew
      refine ⟨[], y, ys, rfl, fun _ h => absurd h List.not_mem_nil,
        ((mem_chain_of_visit hvalid hfirst).mp hmid).resolve_left hnew,
        ⟨fuel₁, st₁, st₂, rest ++ b, hst₁, hz₁, hcome, ?_, fun c => ?_⟩⟩
      · rw [hb.chain, hchain, List.append_assoc]
      · rw [hbefore]
        simp
    · obtain ⟨front, y', back, rfl, hfront, hy', hcomes⟩ := ih ha.valid hrest hmid
      obtain ⟨fuel₁, st₁, st₂, rest, hst₁, hz₁, hcome, hchain, hbefore⟩ := hcomes
      have hnot : ¬ Reaches parents y z := fun hreach =>
        hmid ((mem_chain_of_visit hvalid hfirst).mpr (.inr hreach))
      refine ⟨y :: front, y', back, rfl, ?_, hy',
        ⟨fuel₁, st₁, st₂, rest, hst₁, hz₁, hcome, hchain, fun c => ?_⟩⟩
      · intro v hv
        rcases List.mem_cons.mp hv with rfl | hv
        · exact hnot
        · exact hfront v hv
      · rw [hbefore]
        beta_reduce
        rw [mem_chain_of_visit hvalid hfirst]
        simp only [List.mem_cons, exists_eq_or_imp, or_assoc]

/-- **When the search comes to a node**: what was visited before it. -/
theorem visit_mem {fuel : Nat} {x z : α} {st st' : Search α} (hvalid : st.Valid parents present)
    (h : visit parents present fuel x st = .ok st') (hz : z ∈ st'.chain) (hnew : z ∉ st.chain) :
    Comes parents present z st' fun a => a ∈ st.chain ∨ VisitedBefore parents z x a := by
  induction fuel generalizing x st st' with
  | zero => cases h
  | succ fuel ih =>
    obtain ⟨own, hown⟩ := visit_new hvalid h
    have hcycle := hown.valid.order.not_onCycle hown.valid.nodup hz
    by_cases hxz : x = z
    · subst hxz
      refine ⟨fuel + 1, st, st', [], hvalid, hnew, h, (List.append_nil _).symm, fun a => ?_⟩
      exact (or_iff_left (not_visitedBefore_self hcycle)).symm
    · have hx : x ∉ st.chain := by
        intro hx
        obtain ⟨-, rfl⟩ | ⟨_, _, _, hseen, -⟩ := visit_eq_ok h
        · exact hnew hz
        · exact hseen ((hvalid.seen x).mpr hx)
      obtain ⟨fuel', mid, new, hfuel, hfold, hmid, hchain⟩ := visit_split hvalid hx h
      cases hfuel
      have hzmid : z ∈ mid.chain := by
        rw [hchain, ← List.append_assoc, ← hmid] at hz
        exact (List.mem_append.mp hz).resolve_right fun hz => hxz (List.mem_singleton.mp hz).symm
      obtain ⟨front, y, back, hparents, hfront, hy, hcomes⟩ :=
        foldlM_mem (fun x st st' hst hvisit hz hnew => ih hst hvisit hz hnew) (hvalid.enter hx)
          hfold hzmid hnew
      obtain ⟨fuel₁, st₁, st₂, rest, hst₁, hz₁, hcome, hrest, hbefore⟩ := hcomes
      refine ⟨fuel₁, st₁, st₂, rest ++ [x], hst₁, hz₁, hcome, ?_, fun a => ?_⟩
      · rw [hchain, ← List.append_assoc, ← hmid, hrest, List.append_assoc]
      · rw [hbefore]
        exact or_congr_right (visitedBefore_iff hparents hfront hy).symm

/-- **A chain inside another.** The chain of a node of a chain is in it, in its own order, apart
from what was visited before the node. -/
theorem postorder_split {fuel fuel' : Nat} {x z : α} {chain chain' : List α}
    (h : postorder parents present fuel x = .ok chain) (hz : z ∈ chain)
    (h' : postorder parents present fuel' z = .ok chain') :
    ∃ before after, (∀ a, a ∈ before ↔ VisitedBefore parents z x a) ∧ z ∉ before ∧
      chain = before ++ chain'.filter (· ∉ before) ++ after := by
  obtain ⟨st, hvisit, rfl, -⟩ := postorder_eq_ok h
  obtain ⟨st', hvisit', rfl, -⟩ := postorder_eq_ok h'
  obtain ⟨fuel₁, st₁, st₂, rest, hst₁, hz₁, hvisit₁, hchain, hbefore⟩ :=
    visit_mem Search.valid_start hvisit hz List.not_mem_nil
  obtain ⟨new, hnew⟩ := visit_new hst₁ hvisit₁
  have hfilter := visit_filter Search.valid_start hst₁ (List.nil_subset _) hvisit' hvisit₁ rfl
    hnew.chain
  refine ⟨st₁.chain, rest, fun a => ?_, hz₁, ?_⟩
  · rw [hbefore]
    exact or_iff_right List.not_mem_nil
  · rw [hchain, hnew.chain, hfilter]

/-- The chain of a parent is in that of its child, behind what the parents before it inherit
from. -/
theorem postorder_parent {fuel fuel' : Nat} {x z : α} {front back chain chain' : List α}
    (hparents : parents x = front ++ z :: back)
    (h : postorder parents present fuel x = .ok chain)
    (h' : postorder parents present fuel' z = .ok chain') :
    ∃ before after, before.Nodup ∧ (∀ y ∈ before, ∃ w ∈ front, Reaches parents w y) ∧
      chain = before ++ chain'.filter (· ∉ before) ++ after := by
  obtain ⟨st, hvisit, rfl, -⟩ := postorder_eq_ok h
  obtain ⟨st', hvisit', rfl, -⟩ := postorder_eq_ok h'
  obtain ⟨fuel, mid, new, rfl, hfold, hmid, hchain⟩ :=
    visit_split Search.valid_start List.not_mem_nil hvisit
  rw [hparents, List.foldlM_append] at hfold
  cases hfront : front.foldlM (fun st y => visit parents present fuel y st)
      (Search.start.enter x) with
  | error fault =>
    rw [hfront] at hfold
    cases hfold
  | ok st₁ =>
    rw [hfront] at hfold
    obtain ⟨st₂, hz, hback⟩ := foldlM_cons_ok hfold
    obtain ⟨before, hbefore⟩ := extends_foldlM (fun y st st' hst => visit_new hst)
      (Search.valid_start.enter List.not_mem_nil) hfront
    obtain ⟨own, hown⟩ := visit_new hbefore.valid hz
    obtain ⟨rest, hrest⟩ := extends_foldlM (fun y st st' hst => visit_new hst) hown.valid hback
    have hfilter := visit_filter Search.valid_start hbefore.valid (List.nil_subset _) hvisit' hz
      rfl hown.chain
    have hfirst : st₁.chain = before := hbefore.chain
    rw [hfirst] at hfilter
    refine ⟨before, rest ++ [x], hfirst ▸ hbefore.valid.nodup, hbefore.reaches, ?_⟩
    calc
      st.chain = mid.chain ++ [x] := by rw [hchain, hmid, List.append_assoc]
      _ = before ++ st'.chain.filter (· ∉ before) ++ (rest ++ [x]) := by
        rw [hrest.chain, hown.chain, hfirst, hfilter, List.append_assoc _ rest]

end Visit

end Digraph
