import Mathlib.Data.List.Basic
import Mathlib.Data.List.Induction
import Mathlib.Data.Nat.Notation
import Mathlib.Order.Lattice
import Mathlib.Tactic.Common

/-!
# The first of the lowest

A scan over a list keeps the best element met so far and replaces it by a later one only when that
one is strictly lower. `FirstLowest` is what it ends with: an element that is strictly lower than
all before it and no higher than all after it. The scan may keep the key beside the element, with an
initial bound for a key that belongs to no element (`scan_firstLowest`).
-/

namespace Guillemot

variable {α K : Type*} [LinearOrder K]

/-- `x` stands in `l` at a place where everything before is higher and nothing after is lower. -/
def FirstLowest (key : α → K) (l : List α) (x : α) : Prop :=
  ∃ s t, l = s ++ x :: t ∧ (∀ y ∈ s, key x < key y) ∧ ∀ y ∈ t, key x ≤ key y

namespace FirstLowest

variable {key : α → K} {l : List α} {x : α}

/-- The first of the lowest is one of the list. -/
theorem mem (h : FirstLowest key l x) : x ∈ l := by
  obtain ⟨s, t, rfl, -, -⟩ := h
  simp

/-- Nothing in the list is lower. -/
theorem le (h : FirstLowest key l x) {y : α} (hy : y ∈ l) : key x ≤ key y := by
  obtain ⟨s, t, rfl, hbefore, hafter⟩ := h
  rcases List.mem_append.mp hy with hy | hy
  · exact (hbefore y hy).le
  · rcases List.mem_cons.mp hy with rfl | hy
    · exact le_rfl
    · exact hafter y hy

/-- The head of the list is the first of the lowest, or the first of the lowest is lower. -/
theorem eq_head_or_lt {a : α} (h : FirstLowest key (a :: l) x) : x = a ∨ key x < key a := by
  obtain ⟨s, t, heq, hbefore, -⟩ := h
  cases s with
  | nil => exact .inl (List.cons.inj heq).1.symm
  | cons b s =>
    obtain ⟨rfl, -⟩ := List.cons.inj heq
    exact .inr (hbefore a List.mem_cons_self)

/-- Among the values of a function at the first numbers, the first of the lowest is the value at a
number below which all are higher. -/
theorem exists_of_map_range {f : ℕ → α} {n : ℕ} (h : FirstLowest key ((List.range n).map f) x) :
    ∃ k < n, x = f k ∧ ∀ i < k, key x < key (f i) := by
  obtain ⟨s, t, heq, hbefore, -⟩ := h
  have hlen : s.length < n := by
    have := congrArg List.length heq
    simp at this
    omega
  -- the place of the element is the length of what stands before it
  have hget : ∀ i < n, (s ++ x :: t)[i]? = some (f i) := by
    intro i hi
    simp [← heq, hi]
  refine ⟨s.length, hlen, by simpa using hget _ hlen, fun i hi => ?_⟩
  have hi' := hget i (hi.trans hlen)
  rw [List.getElem?_append_left hi] at hi'
  exact hbefore _ (List.mem_of_getElem? hi')

end FirstLowest

/-- One element more at the head, when the scan has come to the lower of two. -/
theorem FirstLowest.cons_ite {key : α → K} {a b : α} {l : List α} {x : α}
    (h : FirstLowest key ((if key b < key a then b else a) :: l) x) :
    FirstLowest key (a :: b :: l) x := by
  split_ifs at h with hlt
  · -- the later one is lower, and so is what is no higher than it
    have hxb := h.le List.mem_cons_self
    obtain ⟨s, t, heq, hbefore, hafter⟩ := h
    refine ⟨a :: s, t, by rw [heq, List.cons_append], fun y hy => ?_, hafter⟩
    rcases List.mem_cons.mp hy with rfl | hy
    · exact hxb.trans_lt hlt
    · exact hbefore y hy
  · rw [not_lt] at hlt
    obtain ⟨s, t, heq, hbefore, hafter⟩ := h
    cases s with
    | nil =>
      obtain ⟨rfl, rfl⟩ := List.cons.inj heq
      refine ⟨[], b :: l, rfl, by simp, fun y hy => ?_⟩
      rcases List.mem_cons.mp hy with rfl | hy
      · exact hlt
      · exact hafter y hy
    | cons c s =>
      obtain ⟨rfl, hrest⟩ := List.cons.inj heq
      refine ⟨a :: b :: s, t, by rw [hrest]; rfl, fun y hy => ?_, hafter⟩
      have hxa := hbefore a List.mem_cons_self
      rcases List.mem_cons.mp hy with rfl | hy
      · exact hxa
      rcases List.mem_cons.mp hy with rfl | hy
      · exact hxa.trans_le hlt
      · exact hbefore y (List.mem_cons_of_mem _ hy)

/-- Keeping the lower of two all along a list ends with the first of the lowest. -/
theorem foldl_firstLowest (key : α → K) (a : α) (l : List α) :
    FirstLowest key (a :: l) (l.foldl (fun best y => if key y < key best then y else best) a) := by
  induction l generalizing a with
  | nil => exact ⟨[], [], rfl, by simp, by simp⟩
  | cons b l ih => exact (ih _).cons_ite

/-- The same scan with the key kept beside the element, from a bound above all keys and an element
of no concern. -/
theorem scan_firstLowest {key : α → K} {bound : K} {l : List α} (hne : l ≠ [])
    (hbound : ∀ y ∈ l, key y < bound) (a : α) :
    FirstLowest key l
      (l.foldl (fun best y => if key y < best.1 then (key y, y) else best) (bound, a)).2 := by
  obtain ⟨b, l, rfl⟩ := List.exists_cons_of_ne_nil hne
  have hfold : l.foldl (fun best y => if key y < best.1 then (key y, y) else best) (key b, b) =
      (fun y => (key y, y))
        (l.foldl (fun best y => if key y < key best then y else best) b) := by
    refine List.foldl_hom (fun y => (key y, y)) fun best y => ?_
    split_ifs <;> rfl
  rw [List.foldl_cons, if_pos (hbound b List.mem_cons_self), hfold]
  exact foldl_firstLowest key b l

/-- A scan that begins without an element, with a bound for its key: it ends without one when
nothing in the list is below the bound, and otherwise with a lowest one. -/
theorem scan_cases (key : α → K) (bound : K) (l : List α) :
    (l.foldl (fun best y => if key y < best.1 then (key y, some y) else best) (bound, none) =
        (bound, none) ∧ ∀ y ∈ l, bound ≤ key y) ∨
      ∃ x ∈ l, l.foldl (fun best y => if key y < best.1 then (key y, some y) else best)
        (bound, none) = (key x, some x) ∧ key x < bound ∧ ∀ y ∈ l, key x ≤ key y := by
  induction l using List.reverseRecOn with
  | nil => exact .inl ⟨rfl, fun y hy => absurd hy List.not_mem_nil⟩
  | append_singleton l b ih =>
    simp only [List.foldl_append, List.foldl_cons, List.foldl_nil, List.mem_append,
      List.mem_singleton]
    rcases ih with ⟨hfold, hall⟩ | ⟨x, hx, hfold, hlt, hall⟩
    · rw [hfold]
      split_ifs with hb
      · exact .inr ⟨b, .inr rfl, rfl, hb, fun y hy =>
          hy.elim (fun hy => hb.le.trans (hall y hy)) fun hy => hy ▸ le_rfl⟩
      · exact .inl ⟨rfl, fun y hy => hy.elim (hall y) fun hy => hy ▸ not_lt.mp hb⟩
    · rw [hfold]
      split_ifs with hb
      · exact .inr ⟨b, .inr rfl, rfl, lt_trans hb hlt, fun y hy =>
          hy.elim (fun hy => hb.le.trans (hall y hy)) fun hy => hy ▸ le_rfl⟩
      · exact .inr ⟨x, .inl hx, rfl, hlt, fun y hy =>
          hy.elim (hall y) fun hy => hy ▸ not_lt.mp hb⟩

end Guillemot
