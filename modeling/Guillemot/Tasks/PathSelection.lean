import Guillemot.Library.Lowest
import Guillemot.Tasks.PathTask
import Mathlib.Order.OrderDual

/-!
# Which path is selected

`select_correct_path` looks for the path that lies furthest to one side. It returns that path itself
when there is no other, and in every other case the pair that the search keeps, which
`align_to_path` cannot use (`selects_iff`). The search is right about the path in the pair, as far
as the bound that it begins with allows (`select_of_many`).
-/

namespace Guillemot.Tasks.PathTask

/-! ## The search -/

/-- The position that the search for a side begins with. -/
def Side.bound : Side → ℤ
  | .left => 9999
  | .right => -9999

/-- What the search for a side keeps. -/
def Side.search (side : Side) (paths : List ImgRecObject) : ℤ × Option ImgRecObject :=
  match side with
  | .left => paths.foldl lower (side.bound, none)
  | .right => paths.foldl higher (side.bound, none)

/-- A path lies further to a side than the bound of the search. -/
def Side.Within (side : Side) (path : ImgRecObject) : Prop :=
  match side with
  | .left => path.center_x < side.bound
  | .right => side.bound < path.center_x

/-- A path lies at least as far to a side as another one: its `center_x` is not larger, or not
smaller. -/
def Side.Beyond (side : Side) (path other : ImgRecObject) : Prop :=
  match side with
  | .left => path.center_x ≤ other.center_x
  | .right => other.center_x ≤ path.center_x

/-- The two ways in which the search for a side ends. -/
theorem search_cases (side : Side) (paths : List ImgRecObject) :
    (side.search paths = (side.bound, none) ∧ ∀ path ∈ paths, ¬ side.Within path) ∨
      ∃ path ∈ paths, side.search paths = (path.center_x, some path) ∧ side.Within path ∧
        ∀ other ∈ paths, side.Beyond path other := by
  cases side with
  | left =>
    rcases scan_cases ImgRecObject.center_x 9999 paths with ⟨hfold, hall⟩ | hfound
    · exact .inl ⟨hfold, fun path hpath => not_lt.mpr (hall path hpath)⟩
    · exact .inr hfound
  | right =>
    -- What lies further to the right is lower in the dual order.
    rcases scan_cases (K := ℤᵒᵈ) ImgRecObject.center_x (-9999 : ℤ) paths with
      ⟨hfold, hall⟩ | hfound
    · exact .inl ⟨hfold, fun path hpath => not_lt.mpr (hall path hpath)⟩
    · exact .inr hfound

/-! ## The selection -/

/-- A single path is selected. -/
theorem select_of_one {s : State} {path : ImgRecObject} (h : s.paths = [path]) :
    s.select_correct_path = .path path := by
  unfold State.select_correct_path
  rw [h]

/-- In every other case the pair of the search is. -/
theorem select_eq_best {s : State} (h : s.paths.length ≠ 1) :
    s.select_correct_path =
      .best (s.direction.search s.paths).1 (s.direction.search s.paths).2 := by
  unfold State.select_correct_path
  split
  · rename_i hone
    rw [hone] at h
    exact absurd rfl h
  · cases s.direction <;> rfl

/-- Of several paths one of those furthest to the side is in the pair, with its position, or none
when all are beyond the bound. -/
theorem select_of_many {s : State} (h : s.paths.length ≠ 1) :
    (s.select_correct_path = .best s.direction.bound none ∧
        ∀ path ∈ s.paths, ¬ s.direction.Within path) ∨
      ∃ path ∈ s.paths, s.select_correct_path = .best path.center_x (some path) ∧
        s.direction.Within path ∧ ∀ other ∈ s.paths, s.direction.Beyond path other := by
  rw [select_eq_best h]
  rcases search_cases s.direction s.paths with ⟨hsearch, hall⟩ | ⟨path, hmem, hsearch, hrest⟩
  · exact .inl ⟨by rw [hsearch], hall⟩
  · exact .inr ⟨path, hmem, by rw [hsearch], hrest⟩

/-- The task selects one of its paths, which lies furthest to its side, and `align_to_path` can use
what is selected. -/
def State.Selects (s : State) : Prop :=
  ∃ path ∈ s.paths, s.select_correct_path = .path path ∧
    (∀ other ∈ s.paths, s.direction.Beyond path other) ∧
    ∀ now, (s.align_to_path s.select_correct_path now).isSome

/-- For paths at any positions and either direction, the task does so exactly when there is one
path. -/
theorem selects_iff (s : State) : s.Selects ↔ s.paths.length = 1 := by
  constructor
  · rintro ⟨path, -, hselect, -⟩
    by_contra hmany
    rw [select_eq_best hmany] at hselect
    cases hselect
  · intro hone
    obtain ⟨path, hpath⟩ := List.length_eq_one_iff.mp hone
    have hselect := select_of_one hpath
    refine ⟨path, hpath ▸ List.mem_singleton_self path, hselect, fun other hother => ?_,
      fun now => by rw [hselect]; rfl⟩
    rw [hpath, List.mem_singleton] at hother
    unfold Side.Beyond
    rw [hother]
    cases s.direction <;> exact le_rfl

/-- Of two paths a pair is returned, for which `align_to_path` raises an error. -/
theorem pair_selected :
    let s : State := { State.init with
      paths := [⟨0, -100, 0, 0⟩, ⟨1, 100, 0, 0⟩]
      direction := .left }
    s.select_correct_path = .best (-100) (some ⟨0, -100, 0, 0⟩) ∧
      s.align_to_path s.select_correct_path 0 = none ∧ ¬ s.Selects := by
  refine ⟨rfl, rfl, ?_⟩
  rintro ⟨path, -, hselect, -⟩
  cases hselect

end Guillemot.Tasks.PathTask
