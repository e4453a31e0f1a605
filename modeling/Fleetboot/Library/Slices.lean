import Mathlib.Data.List.DropRight

/-!
# Slices and bounded buffers

`xs[start:]` of Python, and `collections.deque(maxlen=…)`, which keeps the last elements.

* `rtake_pushBounded`: a bounded buffer holds the end of the stream that went through it.
* `sliceFrom_neg_eq_rtake_iff`: `xs[-n:]` is the last `n` elements unless `n` is zero.
-/

set_option autoImplicit false

namespace Python

variable {α : Type}

/-- `xs[start:]`: a negative index counts from the end, and what is outside is cut. -/
def sliceFrom (start : Int) (xs : List α) : List α :=
  xs.drop (if start < 0 then (xs.length + start).toNat else start.toNat)

/-- `buffer.append(x)` with `maxlen=cap`. -/
def pushBounded (cap : Nat) (buffer : List α) (x : α) : List α :=
  (buffer ++ [x]).drop ((buffer ++ [x]).length - cap)

section Last

variable {xs : List α} {n m : Nat}

theorem length_rtake (xs : List α) (n : Nat) : (xs.rtake n).length = min n xs.length := by
  rw [List.rtake, List.length_drop]
  omega

/-- The end of the end. -/
theorem rtake_rtake (xs : List α) (n m : Nat) : (xs.rtake m).rtake n = xs.rtake (min n m) := by
  rw [List.rtake, length_rtake, List.rtake, List.drop_drop, List.rtake]
  congr 1
  omega

/-- No more can be taken than there is. -/
theorem rtake_min_length (n m : Nat) : xs.rtake (min n (min m xs.length)) = xs.rtake (min n m) := by
  rw [List.rtake, List.rtake]
  congr 1
  omega

/-- **A bounded buffer** holds the end of what was pushed. -/
theorem rtake_pushBounded (cap : Nat) (x : α) :
    pushBounded cap (xs.rtake cap) x = (xs ++ [x]).rtake cap := by
  change (xs.rtake cap ++ [x]).rtake cap = _
  cases cap with
  | zero => rw [List.rtake_zero, List.rtake_zero]
  | succ cap =>
    rw [List.rtake_concat_succ, List.rtake_concat_succ, rtake_rtake,
      Nat.min_eq_left (Nat.le_succ cap)]

/-- **The slice from the end** is the last elements, except that `-0` is `0`. -/
theorem sliceFrom_neg_eq_rtake_iff : sliceFrom (-(n : Int)) xs = xs.rtake n ↔ 0 < n ∨ xs = [] := by
  unfold sliceFrom
  cases n with
  | zero =>
    rw [List.rtake_zero, or_iff_right (Nat.lt_irrefl 0)]
    rfl
  | succ n =>
    have hstart : ((xs.length : Int) + -((n + 1 : Nat) : Int)).toNat = xs.length - (n + 1) := by
      omega
    rw [if_pos (by omega), hstart]
    exact iff_of_true rfl (.inl (Nat.succ_pos n))

end Last

end Python
