import Guillemot.Library.RingBuffer
import Mathlib.Algebra.BigOperators.Group.List.Basic
import Mathlib.Algebra.BigOperators.Group.Multiset.Defs
import Mathlib.Algebra.Order.Ring.Rat

/-!
# The moving average of the console

`Filter` of `filter.cpp`. Its constructor leaves the array as it comes, so the first values of a
filter depend on what was in it; when as many values have been written as it has cells, they do not
(`value_eq_mean`). The array is a function of the index, and a `double` a rational number, without
rounding.
-/

namespace Guillemot.Console

/-- `Filter`. -/
structure Filter where
  _size : ℕ
  _buf : ℕ → ℚ
  _bufIndex : ℕ

namespace Filter

/-- The constructor, with what is in the array that it allocates. -/
def new (size : ℕ) (buf : ℕ → ℚ) : Filter := ⟨size, buf, 0⟩

/-- `Update`. -/
def Update (f : Filter) (value : ℚ) : Filter where
  _size := f._size
  _buf := fun i => if i = f._bufIndex then value else f._buf i
  _bufIndex := (f._bufIndex + 1) % f._size

/-- `Value`. -/
def Value (f : Filter) : ℚ :=
  let sum := (List.range f._size).foldl (fun sum i => sum + f._buf i) 0
  sum / f._size

/-- Some values are passed to `Update`, one after the other. -/
def updates (f : Filter) (values : List ℚ) : Filter := values.foldl Update f

/-- The array and the index as a ring buffer. -/
def ring (f : Filter) : RingBuffer ℚ := ⟨f._buf, f._bufIndex⟩

variable {f : Filter} {values : List ℚ}

theorem update_ring (f : Filter) (value : ℚ) : (f.Update value).ring = f.ring.push f._size value :=
  congrArg (RingBuffer.mk · _) (funext fun i => (Function.update_apply f._buf _ value i).symm)

theorem updates_size (f : Filter) (values : List ℚ) : (f.updates values)._size = f._size := by
  induction values using List.reverseRecOn with
  | nil => rfl
  | append_singleton values value ih =>
    rw [updates, List.foldl_append]
    exact ih

/-- A filter writes its array as a ring buffer. -/
theorem updates_ring (size : ℕ) (buf : ℕ → ℚ) (values : List ℚ) :
    ((new size buf).updates values).ring = RingBuffer.pushAll size buf values := by
  induction values using List.reverseRecOn with
  | nil => rfl
  | append_singleton values value ih =>
    have hsize : ((new size buf).updates values)._size = size := updates_size _ _
    calc ((new size buf).updates (values ++ [value])).ring
        = (((new size buf).updates values).Update value).ring := by
          rw [updates, updates, List.foldl_append]
          rfl
      _ = (RingBuffer.pushAll size buf values).push size value := by rw [update_ring, ih, hsize]
      _ = RingBuffer.pushAll size buf (values ++ [value]) := (RingBuffer.pushAll_concat _ _ _).symm

/-- The sum is that of the cells, in any order. -/
theorem value_eq_sum (f : Filter) :
    f.Value = ((Multiset.range f._size).map f._buf).sum / f._size := by
  have hsum : (List.range f._size).foldl (fun sum i => sum + f._buf i) 0 =
      ((List.range f._size).map f._buf).sum := by
    rw [List.sum_eq_foldl, List.foldl_map]
  rw [Value, hsum, Multiset.range, Multiset.map_coe, Multiset.sum_coe]

/-- Whatever was in the array: the index is always one of its cells, and when as many values have
been passed as it has cells, the filter has the mean of the last ones as its value. -/
theorem value_eq_mean (size : ℕ) (hsize : 1 ≤ size) (buf : ℕ → ℚ) (values : List ℚ) :
    ((new size buf).updates values)._bufIndex < size ∧
      (size ≤ values.length →
        ((new size buf).updates values).Value =
          (values.drop (values.length - size)).sum / size) := by
  have hring := updates_ring size buf values
  have hindex : ((new size buf).updates values)._bufIndex =
      (RingBuffer.pushAll size buf values).next := congrArg RingBuffer.next hring
  have hbuf : ((new size buf).updates values)._buf =
      (RingBuffer.pushAll size buf values).slots := congrArg RingBuffer.slots hring
  constructor
  · rw [hindex]
    exact RingBuffer.next_lt hsize buf values
  · intro hlength
    rw [value_eq_sum, updates_size, hbuf, new, RingBuffer.map_slots_pushAll hsize hlength,
      Multiset.sum_coe]

/-- A window of two, after three values: the first one does not count any more. -/
theorem two_of_three : ((new 2 fun _ => 7).updates [1, 2, 4])._bufIndex < 2 ∧
    ((new 2 fun _ => 7).updates [1, 2, 4]).Value = ([1, 2, 4].drop 1 : List ℚ).sum / 2 :=
  (value_eq_mean 2 (by decide) (fun _ => 7) [1, 2, 4]).imp_right fun h => h (by decide)

end Filter

end Guillemot.Console
