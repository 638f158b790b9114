import Mathlib.Data.List.DropRight
import Mathlib.Tactic.Common

/-!
# Deques with a maximal length

A deque of at most `n` values drops its oldest value for a new one when it is full. It always holds
the last `n` of the values that were appended, or all of them while they are fewer
(`appendAll_eq_rtake`).
-/

namespace Guillemot

namespace Deque

variable {α : Type*} (n : ℕ)

/-- A value is appended. -/
def append (xs : List α) (x : α) : List α := (xs ++ [x]).rtake n

/-- Some values are appended to an empty deque, one after the other. -/
def appendAll (xs : List α) : List α := xs.foldl (append n) []

variable {n}

theorem rtake_rtake (m k : ℕ) (xs : List α) : (xs.rtake k).rtake m = xs.rtake (min m k) := by
  rw [List.rtake_eq_reverse_take_reverse, List.rtake_eq_reverse_take_reverse, List.reverse_reverse,
    List.take_take, ← List.rtake_eq_reverse_take_reverse]

/-- What is dropped once does not come back. -/
theorem append_rtake (xs : List α) (x : α) : append n (xs.rtake n) x = (xs ++ [x]).rtake n := by
  unfold append
  cases n with
  | zero => rw [List.rtake_zero, List.rtake_zero]
  | succ n =>
    rw [List.rtake_concat_succ, List.rtake_concat_succ, rtake_rtake, min_eq_left (Nat.le_succ n)]

theorem appendAll_concat (xs : List α) (x : α) :
    appendAll n (xs ++ [x]) = append n (appendAll n xs) x :=
  List.foldl_concat ..

/-- A deque holds the last values. -/
theorem appendAll_eq_rtake (xs : List α) : appendAll n xs = xs.rtake n := by
  induction xs using List.reverseRecOn with
  | nil => exact (List.rtake_nil n).symm
  | append_singleton xs x ih => rw [appendAll_concat, ih, append_rtake]

end Deque

end Guillemot
