import Mathlib.Data.List.Basic
import Mathlib.Tactic.Common

/-!
# Windows of a circular buffer

A buffer of `n` cells is read from a position on, and behind the last cell from the first one again.
`window` is what some cells in a row hold. It gets shorter in front when the position moves on
(`drop_window`), and longer at the back when the cell behind it is written (`window_concat`); no
other cell matters (`window_congr`).

The wrap is a comparison and a subtraction, so that it is right for sums below `2 * n` only.
-/

namespace Guillemot

namespace Circular

variable {α : Type*}

/-- The cell with a number below `2 * n`. -/
def wrap (n i : ℕ) : ℕ := if n ≤ i then i - n else i

/-- What `count` cells hold from `pos` on. -/
def window (cell : ℕ → α) (n pos count : ℕ) : List α :=
  (List.range count).map fun i => cell (wrap n (pos + i))

variable {cell cell' : ℕ → α} {n pos count i j k : ℕ}

/-! ## Places -/

theorem wrap_of_lt (h : i < n) : wrap n i = i := if_neg (by omega)

theorem wrap_lt (h : i < 2 * n) : wrap n i < n := by
  unfold wrap
  split_ifs <;> omega

/-- A wrapped position, moved on. -/
theorem wrap_wrap_add (hpos : pos < n) (hk : k + i ≤ n) :
    wrap n (wrap n (pos + k) + i) = wrap n (pos + (k + i)) := by
  unfold wrap
  split_ifs <;> omega

/-- Different cells in a row have different places. -/
theorem wrap_ne (hi : i < n) (hj : j < n) (h : i ≠ j) :
    wrap n (pos + i) ≠ wrap n (pos + j) := by
  unfold wrap
  split_ifs <;> omega

/-! ## Windows -/

@[simp] theorem length_window : (window cell n pos count).length = count := by simp [window]

@[simp] theorem window_zero : window cell n pos 0 = [] := rfl

theorem getElem_window (h : i < (window cell n pos count).length) :
    (window cell n pos count)[i] = cell (wrap n (pos + i)) := by
  simp only [window, List.getElem_map, List.getElem_range]

/-- Only the cells of a window matter. -/
theorem window_congr (h : ∀ i < count, cell (wrap n (pos + i)) = cell' (wrap n (pos + i))) :
    window cell n pos count = window cell' n pos count :=
  List.map_congr_left fun i hi => h i (List.mem_range.mp hi)

/-- A window from a later position is what is left of one. -/
theorem drop_window (hpos : pos < n) (hcount : count ≤ n) (hk : k ≤ count) :
    (window cell n pos count).drop k = window cell n (wrap n (pos + k)) (count - k) := by
  apply List.ext_getElem
  · rw [List.length_drop, length_window, length_window]
  · intro i hi hi'
    rw [length_window] at hi'
    rw [List.getElem_drop, getElem_window, getElem_window, wrap_wrap_add hpos (by omega)]

/-- The first cells of a window. -/
theorem take_window (hk : k ≤ count) :
    (window cell n pos count).take k = window cell n pos k := by
  unfold window
  rw [← List.map_take, List.take_range, Nat.min_eq_left hk]

/-- The cell behind a window is written. -/
theorem window_concat (hpos : pos < n) (hcount : count < n)
    (h : ∀ i < n, i ≠ wrap n (pos + count) → cell' i = cell i) :
    window cell' n pos (count + 1) =
      window cell n pos count ++ [cell' (wrap n (pos + count))] := by
  have hold : window cell' n pos count = window cell n pos count := by
    refine window_congr fun i hi => h _ (wrap_lt (by omega)) ?_
    exact wrap_ne (by omega) hcount (by omega)
  calc window cell' n pos (count + 1)
      = window cell' n pos count ++ [cell' (wrap n (pos + count))] := by
        unfold window
        rw [List.range_succ, List.map_append, List.map_singleton]
    _ = window cell n pos count ++ [cell' (wrap n (pos + count))] := by rw [hold]

end Circular

end Guillemot
