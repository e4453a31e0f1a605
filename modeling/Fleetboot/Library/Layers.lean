import Fleetboot.Library.Traversal
import Mathlib.Algebra.BigOperators.Group.Finset.Basic
import Mathlib.Algebra.BigOperators.Group.Finset.Piecewise
import Mathlib.Data.Finset.Max
import Mathlib.Data.List.Perm.Basic
import Mathlib.Data.List.Sort

/-!
# Descendants in layers

The nodes below a node, collected by a worklist with a stack, and a set of nodes put in order layer
by layer: all nodes without a parent left first, then those whose parents are gone, and so on. Both
loops are bounded by a number; `collect_spec` and `layers_spec` say how large it has to be.

* `mem_collect_iff`: the worklist finds what can be reached.
* `layers_perm`: the layers are the nodes, with or without a cycle.
* `layers_spec`: each comes after its parents, when there is no cycle.
* `head?_layers_iff`: when a node that all others are below comes first.
* `collectLoop_collect`, `layerLoop_layers`: the loops end by themselves, and with this result.
-/

set_option autoImplicit false

namespace Digraph

universe u

variable {α : Type u} [DecidableEq α]

/-! ## The worklist -/

/-- Pop a node; unless it was found before, it is found now and its children are pushed. -/
def collect (children : α → List α) : Nat → List α → List α → List α
  | 0, _, found => found
  | _ + 1, [], found => found
  | fuel + 1, x :: stack, found =>
    if x ∈ found then collect children fuel stack found
    else collect children fuel ((children x).reverse ++ stack) (found ++ [x])

/-- The pushes that the nodes which were not found yet still make. -/
def pushesLeft (children : α → List α) (nodes : Finset α) (found : List α) : Nat :=
  ∑ x ∈ nodes \ found.toFinset, (children x).length

theorem pushesLeft_concat (children : α → List α) {nodes : Finset α} {found : List α} {x : α}
    (hx : x ∈ nodes) (hnew : x ∉ found) :
    pushesLeft children nodes (found ++ [x]) + (children x).length =
      pushesLeft children nodes found := by
  have hmem : x ∈ nodes \ found.toFinset := by simp [hx, hnew]
  have herase : nodes \ (found ++ [x]).toFinset = (nodes \ found.toFinset).erase x := by
    ext y
    simp only [Finset.mem_sdiff, List.mem_toFinset, List.mem_append, List.mem_singleton, not_or,
      Finset.mem_erase]
    tauto
  unfold pushesLeft
  rw [herase, add_comm]
  exact Finset.add_sum_erase _ (fun y => (children y).length) hmem

theorem nodup_collect {children : α → List α} {fuel : Nat} {stack found : List α}
    (h : found.Nodup) : (collect children fuel stack found).Nodup := by
  induction fuel generalizing stack found with
  | zero => exact h
  | succ fuel ih =>
    cases stack with
    | nil => exact h
    | cons x stack =>
      unfold collect
      split
      · exact ih h
      · rename_i hnew
        refine ih (List.nodup_append.mpr ⟨h, List.nodup_singleton x, ?_⟩)
        rintro y hy z hz rfl
        exact hnew (List.mem_singleton.mp hz ▸ hy)

/-- What the worklist finds: a set that is closed under children, with what was found and stacked,
all of it reachable from there. -/
structure Collected (children : α → List α) (stack found result : List α) : Prop where
  of_found : found ⊆ result
  of_stack : stack ⊆ result
  closed : ∀ x ∈ result, ∀ y ∈ children x, y ∈ result
  reaches : ∀ z ∈ result, ∃ x, (x ∈ found ∨ x ∈ stack) ∧ Reaches children x z

theorem collect_spec {children : α → List α} {nodes : Finset α}
    (hnodes : ∀ x ∈ nodes, ∀ y ∈ children x, y ∈ nodes) {fuel : Nat} {stack found : List α}
    (hstack : ∀ x ∈ stack, x ∈ nodes)
    (hfound : ∀ x ∈ found, ∀ y ∈ children x, y ∈ found ∨ y ∈ stack)
    (hfuel : stack.length + pushesLeft children nodes found < fuel) :
    Collected children stack found (collect children fuel stack found) := by
  induction fuel generalizing stack found with
  | zero => exact absurd hfuel (Nat.not_lt_zero _)
  | succ fuel ih =>
    cases stack with
    | nil =>
      exact
        { of_found := List.Subset.refl _
          of_stack := List.nil_subset _
          closed := fun x hx y hy => (hfound x hx y hy).resolve_right List.not_mem_nil
          reaches := fun z hz => ⟨z, .inl hz, .refl⟩ }
    | cons x stack =>
      rw [List.length_cons] at hfuel
      have htail : ∀ y ∈ stack, y ∈ nodes := fun y hy => hstack y (List.mem_cons_of_mem _ hy)
      unfold collect
      split
      · rename_i hold
        have hrest := ih htail (fun y hy z hz => (hfound y hy z hz).elim .inl fun h =>
          (List.mem_cons.mp h).elim (fun h => .inl (h ▸ hold)) .inr) (by omega)
        refine ⟨hrest.of_found, List.cons_subset.mpr ⟨hrest.of_found hold, hrest.of_stack⟩,
          hrest.closed, fun z hz => ?_⟩
        obtain ⟨y, hy, hreach⟩ := hrest.reaches z hz
        exact ⟨y, hy.imp_right (List.mem_cons_of_mem _), hreach⟩
      · rename_i hnew
        have hx : x ∈ nodes := hstack x (List.mem_cons_self ..)
        have hpushes := pushesLeft_concat children hx hnew
        have hstack' : ∀ y ∈ (children x).reverse ++ stack, y ∈ nodes := by
          intro y hy
          rcases List.mem_append.mp hy with hy | hy
          · exact hnodes x hx y (List.mem_reverse.mp hy)
          · exact htail y hy
        have hfound' : ∀ y ∈ found ++ [x], ∀ z ∈ children y,
            z ∈ found ++ [x] ∨ z ∈ (children x).reverse ++ stack := by
          intro y hy z hz
          rcases List.mem_append.mp hy with hy | hy
          · rcases hfound y hy z hz with h | h
            · exact .inl (List.mem_append_left _ h)
            · rcases List.mem_cons.mp h with rfl | h
              · exact .inl (List.mem_append_right _ (List.mem_singleton_self _))
              · exact .inr (List.mem_append_right _ h)
          · rw [List.mem_singleton.mp hy] at hz
            exact .inr (List.mem_append_left _ (List.mem_reverse.mpr hz))
        have hrest := ih hstack' hfound' (by
          rw [List.length_append, List.length_reverse]
          omega)
        refine
          { of_found := fun y hy => hrest.of_found (List.mem_append_left _ hy)
            of_stack := List.cons_subset.mpr
              ⟨hrest.of_found (List.mem_append_right _ (List.mem_singleton_self x)),
                fun y hy => hrest.of_stack (List.mem_append_right _ hy)⟩
            closed := hrest.closed
            reaches := fun z hz => ?_ }
        obtain ⟨y, hy, hreach⟩ := hrest.reaches z hz
        rcases hy with hy | hy
        · rcases List.mem_append.mp hy with hy | hy
          · exact ⟨y, .inl hy, hreach⟩
          · exact ⟨y, .inr (List.mem_singleton.mp hy ▸ List.mem_cons_self ..), hreach⟩
        · rcases List.mem_append.mp hy with hy | hy
          · exact ⟨x, .inr (List.mem_cons_self ..), .head (List.mem_reverse.mp hy) hreach⟩
          · exact ⟨y, .inr (List.mem_cons_of_mem _ hy), hreach⟩

/-- The loop `while stack:` without a bound; one derivation is one run of it that ends. -/
inductive CollectLoop (children : α → List α) : List α → List α → List α → Prop
  | done (found : List α) : CollectLoop children [] found found
  | skip {x : α} {stack found result : List α} : x ∈ found →
      CollectLoop children stack found result → CollectLoop children (x :: stack) found result
  | push {x : α} {stack found result : List α} : x ∉ found →
      CollectLoop children ((children x).reverse ++ stack) (found ++ [x]) result →
      CollectLoop children (x :: stack) found result

theorem collectLoop_collect {children : α → List α} {nodes : Finset α}
    (hnodes : ∀ x ∈ nodes, ∀ y ∈ children x, y ∈ nodes) {fuel : Nat} {stack found : List α}
    (hstack : ∀ x ∈ stack, x ∈ nodes)
    (hfuel : stack.length + pushesLeft children nodes found < fuel) :
    CollectLoop children stack found (collect children fuel stack found) := by
  induction fuel generalizing stack found with
  | zero => exact absurd hfuel (Nat.not_lt_zero _)
  | succ fuel ih =>
    cases stack with
    | nil => exact .done found
    | cons x stack =>
      rw [List.length_cons] at hfuel
      have htail : ∀ y ∈ stack, y ∈ nodes := fun y hy => hstack y (List.mem_cons_of_mem _ hy)
      unfold collect
      split
      · rename_i hold
        exact .skip hold (ih htail (by omega))
      · rename_i hnew
        have hx : x ∈ nodes := hstack x (List.mem_cons_self ..)
        have hpushes := pushesLeft_concat children hx hnew
        refine .push hnew (ih (fun y hy => ?_) ?_)
        · rcases List.mem_append.mp hy with hy | hy
          · exact hnodes x hx y (List.mem_reverse.mp hy)
          · exact htail y hy
        · rw [List.length_append, List.length_reverse]
          omega

/-- **The worklist finds what is below a node.** -/
theorem mem_collect_iff {children : α → List α} {nodes : Finset α}
    (hnodes : ∀ x ∈ nodes, ∀ y ∈ children x, y ∈ nodes) {root : α} (hroot : root ∈ nodes)
    {fuel : Nat} (hfuel : (children root).length + pushesLeft children nodes [root] < fuel)
    (x : α) :
    x ∈ collect children fuel (children root).reverse [root] ↔ Reaches children root x := by
  have hfound : ∀ y ∈ [root], ∀ z ∈ children y, z ∈ [root] ∨ z ∈ (children root).reverse := by
    intro y hy z hz
    rw [List.mem_singleton.mp hy] at hz
    exact .inr (List.mem_reverse.mpr hz)
  have hspec := collect_spec hnodes (fun y hy => hnodes root hroot y (List.mem_reverse.mp hy))
    hfound (by rwa [List.length_reverse])
  constructor
  · intro hx
    obtain ⟨y, hy, hreach⟩ := hspec.reaches x hx
    rcases hy with hy | hy
    · rwa [List.mem_singleton.mp hy] at hreach
    · exact .head (List.mem_reverse.mp hy) hreach
  · intro hreach
    induction hreach with
    | refl => exact hspec.of_found (List.mem_singleton_self root)
    | tail _ hy ih => exact hspec.closed _ ih _ hy

/-! ## Layers -/

/-- Emit the nodes without a parent left, sorted, and take them away everywhere, until none is
left; when there is a cycle emit what is left, sorted. -/
def layers (sort : List α → List α) : Nat → List (α × List α) → List α → List α
  | 0, _, ordered => ordered
  | fuel + 1, remaining, ordered =>
    if remaining.isEmpty then ordered
    else
      let ready := sort ((remaining.filter fun entry => entry.2.isEmpty).map Prod.fst)
      if ready.isEmpty then ordered ++ sort (remaining.map Prod.fst)
      else layers sort fuel
        ((remaining.filter fun entry => entry.1 ∉ ready).map fun entry =>
          (entry.1, entry.2.filter (· ∉ ready)))
        (ordered ++ ready)

/-- The nodes that are left, with the parents that were not emitted. -/
def leftover (inner : α → List α) (ordered rest : List α) : List (α × List α) :=
  rest.map fun x => (x, (inner x).filter (· ∉ ordered))

theorem leftover_step (inner : α → List α) (ordered rest ready : List α) :
    ((leftover inner ordered rest).filter fun entry => entry.1 ∉ ready).map (fun entry =>
      (entry.1, entry.2.filter (· ∉ ready))) =
      leftover inner (ordered ++ ready) (rest.filter (· ∉ ready)) := by
  unfold leftover
  rw [List.filter_map, List.map_map]
  refine congrArg₂ List.map (funext fun x => ?_) rfl
  simp only [Function.comp, List.filter_filter, List.mem_append, not_or, Prod.mk.injEq, true_and]
  refine List.filter_congr fun y _ => ?_
  simp only [Bool.decide_and, Bool.and_comm]

/-- The nodes that are left whose parents were all emitted. -/
def readyNodes (inner : α → List α) (ordered rest : List α) : List α :=
  rest.filter fun x => ((inner x).filter (· ∉ ordered)).isEmpty

theorem ready_leftover (inner : α → List α) (ordered rest : List α) :
    ((leftover inner ordered rest).filter fun entry => entry.2.isEmpty).map Prod.fst =
      readyNodes inner ordered rest := by
  unfold leftover
  rw [List.filter_map, List.map_map]
  exact List.map_id _

theorem keys_leftover (inner : α → List α) (ordered rest : List α) :
    (leftover inner ordered rest).map Prod.fst = rest := by
  unfold leftover
  rw [List.map_map]
  exact List.map_id _

theorem isEmpty_filter_notMem_iff {l ordered : List α} :
    (l.filter (· ∉ ordered)).isEmpty = true ↔ ∀ y ∈ l, y ∈ ordered := by
  rw [List.isEmpty_iff, List.filter_eq_nil_iff]
  simp

omit [DecidableEq α] in
/-- Nodes whose parents are all there can follow in any order. -/
theorem ParentsFirst.append {inner : α → List α} {l m : List α} (h : ParentsFirst inner l)
    (hm : ∀ x ∈ m, ∀ y ∈ inner x, y ∈ l) : ParentsFirst inner (l ++ m) := by
  induction m using List.reverseRecOn with
  | nil => simpa using h
  | append_singleton m x ih =>
    rw [← List.append_assoc]
    refine .concat (ih fun z hz => hm z (List.mem_append_left _ hz)) fun y hy => ?_
    exact List.mem_append_left _ (hm x (List.mem_append_right _ (List.mem_singleton_self x)) y hy)

/-- While nodes are left that are no ancestors of themselves, one is ready. -/
theorem exists_ready {inner : α → List α} {rank : α → Nat} {ordered rest : List α}
    (hinner : ∀ x ∈ rest, ∀ y ∈ inner x, y ∈ ordered ∨ (y ∈ rest ∧ rank y < rank x))
    (hne : rest ≠ []) : ∃ x ∈ rest, ∀ y ∈ inner x, y ∈ ordered := by
  have hnonempty : rest.toFinset.Nonempty := by
    obtain ⟨x, hx⟩ := List.exists_mem_of_ne_nil rest hne
    exact ⟨x, List.mem_toFinset.mpr hx⟩
  obtain ⟨x, hx, hmin⟩ := Finset.exists_min_image rest.toFinset rank hnonempty
  refine ⟨x, List.mem_toFinset.mp hx, fun y hy => ?_⟩
  rcases hinner x (List.mem_toFinset.mp hx) y hy with h | ⟨hrest, hlt⟩
  · exact h
  · have hle := hmin y (List.mem_toFinset.mpr hrest)
    omega

section Layers

variable {sort : List α → List α} {inner : α → List α} {fuel : Nat} {ordered rest : List α}

theorem mem_sort_readyNodes (hsort : ∀ l, (sort l).Perm l) {x : α} :
    x ∈ sort (readyNodes inner ordered rest) ↔ x ∈ rest ∧ ∀ y ∈ inner x, y ∈ ordered := by
  rw [(hsort _).mem_iff, readyNodes, List.mem_filter, isEmpty_filter_notMem_iff]

/-- What is ready and what is not. -/
theorem sort_readyNodes_append (hsort : ∀ l, (sort l).Perm l) :
    (sort (readyNodes inner ordered rest) ++
      rest.filter (· ∉ sort (readyNodes inner ordered rest))).Perm rest := by
  have hsplit : rest.filter (· ∉ sort (readyNodes inner ordered rest)) =
      rest.filter fun x => !((inner x).filter (· ∉ ordered)).isEmpty := by
    refine List.filter_congr fun y hy => ?_
    rw [Bool.eq_iff_iff]
    simp only [decide_eq_true_eq, Bool.not_eq_true', ← Bool.not_eq_true]
    rw [isEmpty_filter_notMem_iff, mem_sort_readyNodes hsort]
    simp [hy]
  rw [hsplit]
  exact ((hsort _).append_right _).trans (List.filter_append_perm _ _)

/-- While something is ready, less is left after it. -/
theorem length_notReady_lt (hsort : ∀ l, (sort l).Perm l)
    (hsome : sort (readyNodes inner ordered rest) ≠ []) :
    (rest.filter (· ∉ sort (readyNodes inner ordered rest))).length < rest.length := by
  have hlength := (@sort_readyNodes_append _ _ _ inner ordered rest hsort).length_eq
  have hpos := List.length_pos_iff.mpr hsome
  rw [List.length_append] at hlength
  omega

/-- One turn of the loop. -/
theorem layers_succ : layers sort (fuel + 1) (leftover inner ordered rest) ordered =
    if rest = [] then ordered
    else if sort (readyNodes inner ordered rest) = [] then ordered ++ sort rest
    else layers sort fuel
      (leftover inner (ordered ++ sort (readyNodes inner ordered rest))
        (rest.filter (· ∉ sort (readyNodes inner ordered rest))))
      (ordered ++ sort (readyNodes inner ordered rest)) := by
  conv_lhs => unfold layers
  dsimp only
  rw [ready_leftover, keys_leftover, leftover_step]
  simp only [List.isEmpty_iff, leftover, List.map_eq_nil_iff]

/-- What was emitted stays in front. -/
theorem isPrefix_layers : ordered <+: layers sort fuel (leftover inner ordered rest) ordered := by
  induction fuel generalizing ordered rest with
  | zero => exact List.prefix_rfl
  | succ fuel ih =>
    rw [layers_succ]
    split
    · exact List.prefix_rfl
    · split
      · exact List.prefix_append _ _
      · exact (List.prefix_append _ _).trans ih

/-- **The layers** are the nodes that were left, also when there is a cycle. -/
theorem layers_perm (hsort : ∀ l, (sort l).Perm l) (hfuel : rest.length ≤ fuel) :
    (layers sort fuel (leftover inner ordered rest) ordered).Perm (ordered ++ rest) := by
  induction fuel generalizing ordered rest with
  | zero =>
    obtain rfl := List.length_eq_zero_iff.mp (Nat.le_zero.mp hfuel)
    simp [layers]
  | succ fuel ih =>
    rw [layers_succ]
    split
    · rename_i hnone
      simp [hnone]
    · split
      · exact (hsort rest).append_left ordered
      · rename_i hsome
        have hlength := length_notReady_lt hsort hsome
        refine (ih (by omega)).trans ?_
        rw [List.append_assoc]
        exact (sort_readyNodes_append hsort).append_left ordered

/-- **The order of the layers**: each node comes after its parents, when there is no cycle. -/
theorem layers_spec (hsort : ∀ l, (sort l).Perm l) {rank : α → Nat}
    (hordered : ParentsFirst inner ordered)
    (hinner : ∀ x ∈ rest, ∀ y ∈ inner x, y ∈ ordered ∨ (y ∈ rest ∧ rank y < rank x))
    (hfuel : rest.length ≤ fuel) :
    ParentsFirst inner (layers sort fuel (leftover inner ordered rest) ordered) ∧
      (layers sort fuel (leftover inner ordered rest) ordered).Perm (ordered ++ rest) := by
  refine ⟨?_, layers_perm hsort hfuel⟩
  induction fuel generalizing ordered rest with
  | zero =>
    obtain rfl := List.length_eq_zero_iff.mp (Nat.le_zero.mp hfuel)
    exact hordered
  | succ fuel ih =>
    rw [layers_succ]
    split
    · exact hordered
    · rename_i hne
      obtain ⟨x, hx, hready⟩ := exists_ready hinner hne
      have hsome := List.ne_nil_of_mem ((mem_sort_readyNodes hsort).mpr ⟨hx, hready⟩)
      rw [if_neg hsome]
      have hlength := length_notReady_lt hsort hsome
      refine ih (hordered.append fun y hy => ((mem_sort_readyNodes hsort).mp hy).2) ?_ (by omega)
      intro y hy z hz
      obtain ⟨hyrest, -⟩ := List.mem_filter.mp hy
      rcases hinner y hyrest z hz with h | ⟨h, hlt⟩
      · exact .inl (List.mem_append_left _ h)
      · by_cases hzr : z ∈ sort (readyNodes inner ordered rest)
        · exact .inl (List.mem_append_right _ hzr)
        · exact .inr ⟨List.mem_filter.mpr ⟨h, by simpa using hzr⟩, hlt⟩

/-- The loop `while remaining_parents:` without a bound. -/
inductive LayerLoop (sort : List α → List α) : List (α × List α) → List α → List α → Prop
  | done (ordered : List α) : LayerLoop sort [] ordered ordered
  | cycle {remaining : List (α × List α)} (ordered : List α) : remaining ≠ [] →
      sort ((remaining.filter fun entry => entry.2.isEmpty).map Prod.fst) = [] →
      LayerLoop sort remaining ordered (ordered ++ sort (remaining.map Prod.fst))
  | layer {remaining : List (α × List α)} {ordered ready result : List α} : remaining ≠ [] →
      sort ((remaining.filter fun entry => entry.2.isEmpty).map Prod.fst) = ready → ready ≠ [] →
      LayerLoop sort ((remaining.filter fun entry => entry.1 ∉ ready).map fun entry =>
        (entry.1, entry.2.filter (· ∉ ready))) (ordered ++ ready) result →
      LayerLoop sort remaining ordered result

theorem layerLoop_layers (hsort : ∀ l, (sort l).Perm l) (hfuel : rest.length ≤ fuel) :
    LayerLoop sort (leftover inner ordered rest) ordered
      (layers sort fuel (leftover inner ordered rest) ordered) := by
  induction fuel generalizing ordered rest with
  | zero =>
    obtain rfl := List.length_eq_zero_iff.mp (Nat.le_zero.mp hfuel)
    exact .done ordered
  | succ fuel ih =>
    rw [layers_succ]
    split
    · rename_i hnone
      subst hnone
      exact .done ordered
    · rename_i hne
      have hremaining : leftover inner ordered rest ≠ [] := by simpa [leftover] using hne
      split
      · rename_i hnone
        have hcycle := LayerLoop.cycle ordered hremaining
          ((congrArg sort (ready_leftover inner ordered rest)).trans hnone)
        rwa [keys_leftover] at hcycle
      · rename_i hsome
        have hlength := length_notReady_lt hsort hsome
        refine .layer hremaining (congrArg sort (ready_leftover inner ordered rest)) hsome ?_
        rw [leftover_step]
        exact ih (by omega)

end Layers

section First

variable [LinearOrder α] {inner : α → List α} {fuel : Nat} {rest : List α} {root : α}

omit [DecidableEq α] in
theorem head?_insertionSort_iff {l : List α} :
    (l.insertionSort (· ≤ ·)).head? = some root ↔ root ∈ l ∧ ∀ x ∈ l, root ≤ x := by
  have hperm := List.perm_insertionSort (· ≤ ·) l
  have hsorted := List.pairwise_insertionSort (· ≤ ·) l
  constructor
  · intro hhead
    obtain ⟨tail, htail⟩ := List.head?_eq_some_iff.mp hhead
    rw [htail] at hperm hsorted
    refine ⟨hperm.subset (List.mem_cons_self ..), fun x hx => ?_⟩
    rcases List.mem_cons.mp (hperm.symm.subset hx) with rfl | hx
    · exact le_refl _
    · exact List.rel_of_pairwise_cons hsorted hx
  · rintro ⟨hroot, hleast⟩
    cases hsort : l.insertionSort (· ≤ ·) with
    | nil =>
      rw [hsort] at hperm
      exact absurd (hperm.symm.subset hroot) List.not_mem_nil
    | cons first tail =>
      rw [hsort] at hperm hsorted
      have hle := hleast first (hperm.subset (List.mem_cons_self ..))
      rcases List.mem_cons.mp (hperm.symm.subset hroot) with rfl | hmem
      · rfl
      · rw [List.head?_cons, le_antisymm hle (List.rel_of_pairwise_cons hsorted hmem)]

/-- **The first of the layers.** Where every other node has a parent left, a node comes first when
it has none, or else when it is the least. -/
theorem head?_layers_iff (hroot : root ∈ rest) (hnodup : rest.Nodup)
    (hbelow : ∀ x ∈ rest, x ≠ root → inner x ≠ []) (hfuel : rest.length ≤ fuel) :
    (layers (List.insertionSort (· ≤ ·)) fuel (leftover inner [] rest) []).head? = some root ↔
      inner root = [] ∨ ∀ x ∈ rest, root ≤ x := by
  have hpos := List.length_pos_of_mem hroot
  obtain ⟨fuel, rfl⟩ : ∃ n, fuel = n + 1 := ⟨fuel - 1, by omega⟩
  have hready : readyNodes inner [] rest = rest.filter fun x => (inner x).isEmpty := by
    refine List.filter_congr fun x _ => ?_
    simp
  rw [layers_succ, if_neg (List.ne_nil_of_mem hroot), hready]
  by_cases hnone : inner root = []
  · -- The root alone is ready, and stays in front.
    have hfirst : rest.filter (fun x => (inner x).isEmpty) = [root] := by
      have hfilter : rest.filter (fun x => (inner x).isEmpty) = rest.filter (· == root) := by
        refine List.filter_congr fun x hx => ?_
        rw [Bool.eq_iff_iff, List.isEmpty_iff, beq_iff_eq]
        refine ⟨fun h => ?_, fun h => h ▸ hnone⟩
        by_contra hne
        exact hbelow x hx hne h
      rw [hfilter, List.filter_beq, List.count_eq_one_of_mem hnodup hroot]
      rfl
    have hsort : [root].insertionSort (· ≤ ·) = [root] := rfl
    rw [hfirst, hsort, if_neg (List.cons_ne_nil _ _), List.nil_append]
    have hstays : [root] <+: layers (List.insertionSort (· ≤ ·)) fuel
        (leftover inner [root] (rest.filter fun x => x ∉ [root])) [root] := isPrefix_layers
    obtain ⟨tail, htail⟩ := hstays
    rw [← htail]
    simp [hnone]
  · have hempty : rest.filter (fun x => (inner x).isEmpty) = [] := by
      refine List.filter_eq_nil_iff.mpr fun x hx => ?_
      rw [List.isEmpty_iff]
      by_cases hx' : x = root
      · rwa [hx']
      · exact hbelow x hx hx'
    rw [hempty, List.insertionSort_nil, if_pos rfl, List.nil_append, head?_insertionSort_iff]
    simp [hnone, hroot]

end First

end Digraph
