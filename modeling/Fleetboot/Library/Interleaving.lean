import Mathlib.Data.List.Basic
import Mathlib.Data.List.Induction
import Mathlib.Data.List.Perm.Basic
import Mathlib.Logic.Function.Basic

/-!
# Tasks whose writes commute

Tasks share a state. A step of a task goes by what it finds there and by what the task knows, and
ends with some writes. When no write changes what a step does, and writes may change places, it
does not matter how the steps of the tasks are interleaved.

* `run_spec`: each task comes as far as it would alone, and the state is the one after the writes of
  one task after the other.
* `after_eq_of_done`: how many steps a task has made does not matter once it is done.
-/

set_option autoImplicit false

namespace Interleaving

universe u v w x

/-- What each of the tasks `ι` does with a state `σ`, given what it knows, of type `μ`. -/
structure System (σ : Type u) (ω : Type v) (ι : Type w) (μ : Type x) where
  apply : σ → ω → σ
  comm : ∀ s a b, apply (apply s a) b = apply (apply s b) a
  step : ι → μ → σ → μ × List ω
  /-- No step sees a write. -/
  blind : ∀ i m s a, step i m (apply s a) = step i m s

namespace System

variable {σ : Type u} {ω : Type v} {ι : Type w} {μ : Type x} (S : System σ ω ι μ)

/-! ## One task -/

/-- What a task knows after steps of its own. -/
def after (s : σ) (i : ι) : Nat → μ → μ
  | 0, m => m
  | n + 1, m => (S.step i (after s i n m) s).1

/-- What it has written by then. -/
def writes (s : σ) (i : ι) : Nat → μ → List ω
  | 0, _ => []
  | n + 1, m => writes s i n m ++ (S.step i (S.after s i n m) s).2

theorem step_foldl (i : ι) (m : μ) (s : σ) (ws : List ω) :
    S.step i m (ws.foldl S.apply s) = S.step i m s := by
  induction ws generalizing s with
  | nil => rfl
  | cons a ws ih => rw [List.foldl_cons, ih, S.blind]

theorem after_foldl (s : σ) (i : ι) (ws : List ω) (n : Nat) (m : μ) :
    S.after (ws.foldl S.apply s) i n m = S.after s i n m ∧
      S.writes (ws.foldl S.apply s) i n m = S.writes s i n m := by
  induction n with
  | zero => exact ⟨rfl, rfl⟩
  | succ n ih =>
    unfold after writes
    rw [ih.1, ih.2, S.step_foldl]
    exact ⟨rfl, rfl⟩

/-- A task that is done stays so and writes nothing. -/
def Done (i : ι) (m : μ) : Prop := ∀ s, S.step i m s = (m, [])

theorem after_of_done {s : σ} {i : ι} {n : Nat} {m : μ} (h : S.Done i (S.after s i n m))
    (k : Nat) : S.after s i (n + k) m = S.after s i n m ∧
      S.writes s i (n + k) m = S.writes s i n m := by
  induction k with
  | zero => exact ⟨rfl, rfl⟩
  | succ k ih =>
    rw [← Nat.add_assoc, after, writes, ih.1, ih.2, h s]
    exact ⟨rfl, List.append_nil _⟩

/-- The number of steps after which a task is done does not matter. -/
theorem after_eq_of_done {s : σ} {i : ι} {n n' : Nat} {m : μ} (h : S.Done i (S.after s i n m))
    (h' : S.Done i (S.after s i n' m)) : S.after s i n m = S.after s i n' m ∧
      S.writes s i n m = S.writes s i n' m := by
  rcases Nat.le_total n n' with hle | hle
  · obtain ⟨k, rfl⟩ := Nat.exists_eq_add_of_le hle
    obtain ⟨hafter, hwrites⟩ := S.after_of_done h k
    exact ⟨hafter.symm, hwrites.symm⟩
  · obtain ⟨k, rfl⟩ := Nat.exists_eq_add_of_le hle
    exact S.after_of_done h' k

/-! ## All of them -/

/-- More writes of one of the tasks. -/
theorem perm_flatMap_update {tasks : List ι} (hnodup : tasks.Nodup) {i : ι} (hi : i ∈ tasks)
    {f f' : ι → List ω} {ws : List ω} (hself : f' i = f i ++ ws)
    (hother : ∀ j, j ≠ i → f' j = f j) : (tasks.flatMap f ++ ws).Perm (tasks.flatMap f') := by
  induction tasks with
  | nil => cases hi
  | cons j tasks ih =>
    obtain ⟨hnot, hnodup⟩ := List.nodup_cons.mp hnodup
    rw [List.flatMap_cons, List.flatMap_cons]
    rcases List.mem_cons.mp hi with rfl | hmem
    · have hrest : tasks.flatMap f' = tasks.flatMap f :=
        List.flatMap_congr fun k hk => hother k fun heq => hnot (heq ▸ hk)
      rw [hself, hrest, List.append_assoc, List.append_assoc]
      exact List.perm_append_comm.append_left _
    · rw [hother j fun heq => hnot (heq ▸ hmem), List.append_assoc]
      exact (ih hnodup hmem).append_left _

theorem foldl_perm {ws ws' : List ω} (h : ws.Perm ws') (s : σ) :
    ws.foldl S.apply s = ws'.foldl S.apply s :=
  h.foldl_eq' (fun a _ b _ s => S.comm s a b) s

variable [DecidableEq ι]

/-- A step of the task `i`. -/
def next (x : σ × (ι → μ)) (i : ι) : σ × (ι → μ) :=
  let (m, ws) := S.step i (x.2 i) x.1
  (ws.foldl S.apply x.1, Function.update x.2 i m)

/-- Steps of the tasks, in the order of the schedule. -/
def run (schedule : List ι) (x : σ × (ι → μ)) : σ × (ι → μ) := schedule.foldl S.next x

theorem run_concat (schedule : List ι) (i : ι) (x : σ × (ι → μ)) :
    S.run (schedule ++ [i]) x = S.next (S.run schedule x) i := by
  rw [run, List.foldl_append]
  rfl

/-- What any interleaving leaves of what the tasks know, and of the state. -/
theorem run_spec (schedule : List ι) (s : σ) (locals : ι → μ) :
    (∀ i, (S.run schedule (s, locals)).2 i = S.after s i (schedule.count i) (locals i)) ∧
    ∃ ws : List ω, (S.run schedule (s, locals)).1 = ws.foldl S.apply s ∧
      ∀ tasks : List ι, tasks.Nodup → (∀ i ∈ schedule, i ∈ tasks) →
        ws.Perm (tasks.flatMap fun i => S.writes s i (schedule.count i) (locals i)) := by
  induction schedule using List.reverseRecOn with
  | nil => exact ⟨fun _ => rfl, [], rfl, fun tasks _ _ => by simp [writes]⟩
  | append_singleton schedule i ih =>
    obtain ⟨hlocals, ws, hstate, hperm⟩ := ih
    rw [run_concat]
    have hcount : ∀ j, (schedule ++ [i]).count j =
        if j = i then schedule.count j + 1 else schedule.count j := by
      intro j
      rw [List.count_append, List.count_singleton]
      by_cases hj : j = i
      · simp [hj]
      · simp [hj, Ne.symm hj]
    have hstep : S.step i ((S.run schedule (s, locals)).2 i) (S.run schedule (s, locals)).1 =
        S.step i (S.after s i (schedule.count i) (locals i)) s := by
      rw [hlocals i, hstate, S.step_foldl]
    refine ⟨fun j => ?_, ws ++ (S.step i (S.after s i (schedule.count i) (locals i)) s).2, ?_,
      fun tasks hnodup htasks => ?_⟩
    · unfold next
      rw [hstep, hcount]
      by_cases hj : j = i
      · subst hj
        rw [if_pos rfl]
        exact Function.update_self ..
      · rw [if_neg hj, ← hlocals j]
        exact Function.update_of_ne hj ..
    · unfold next
      rw [hstep, List.foldl_append, ← hstate]
    · refine ((hperm tasks hnodup fun j hj => htasks j (List.mem_append_left _ hj)).append_right
        _).trans (perm_flatMap_update hnodup
          (htasks i (List.mem_append_right _ (List.mem_singleton_self i))) ?_ fun j hj => ?_)
      · rw [hcount, if_pos rfl]
        rfl
      · rw [hcount, if_neg hj]

end System

end Interleaving
