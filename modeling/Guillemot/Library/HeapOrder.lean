import Mathlib.Data.List.Sort
import Mathlib.Tactic.Common

/-!
# Heaps in an array

An array is a heap when no element is greater than its parent, which for the element at `i + 1` is
the one at `i / 2`. `HeapOps` is what is promised of the two operations that a program builds a heap
and takes its greatest element away by, and no more: nothing is said of a removal from an array that
is not a heap. The greatest element stands at the front (`IsHeap.key_le`), and after a removal the
greatest of the others does (`HeapOps.popHeap_cons`). `HeapOps.sorting` are operations of this kind
that sort.
-/

namespace Guillemot

variable {α K : Type*} [LinearOrder K]

/-- No element is greater than its parent. -/
def IsHeap (less : α → α → Bool) (l : List α) : Prop :=
  ∀ (i : ℕ) (a b : α), l[i / 2]? = some a → l[i + 1]? = some b → less a b = false

/-- Operations on heaps, and what is promised of them. -/
structure HeapOps (less : α → α → Bool) where
  /-- The elements are brought into the order of a heap. -/
  makeHeap : List α → List α
  /-- The first element is moved to the end, and the others are made a heap. -/
  popHeap : List α → List α
  makeHeap_perm : ∀ l, (makeHeap l).Perm l
  makeHeap_isHeap : ∀ l, IsHeap less (makeHeap l)
  /-- The promise for an array that is a heap. -/
  popHeap_spec : ∀ top rest, IsHeap less (top :: rest) →
    ∃ others, popHeap (top :: rest) = others ++ [top] ∧ others.Perm rest ∧ IsHeap less others

section

variable {less : α → α → Bool} {key : α → K} (hless : ∀ a b, less a b = true ↔ key a < key b)
include hless

/-- An element is not less when its key is not. -/
theorem less_eq_false_iff {a b : α} : less a b = false ↔ key b ≤ key a := by
  rw [← not_lt, ← hless, Bool.not_eq_true]

/-- The front of a heap is the greatest. -/
theorem IsHeap.key_le {top : α} {rest : List α} (h : IsHeap less (top :: rest)) {b : α}
    (hb : b ∈ top :: rest) : key b ≤ key top := by
  obtain ⟨i, hi⟩ := List.mem_iff_getElem?.mp hb
  -- Parent by parent, up to the front.
  induction i using Nat.strong_induction_on generalizing b with
  | _ i ih =>
    cases i with
    | zero =>
      obtain rfl : top = b := by simpa using hi
      exact le_refl _
    | succ i =>
      have hlt : i + 1 < (top :: rest).length := (List.getElem?_eq_some_iff.mp hi).1
      have hparent : (top :: rest)[i / 2]? = some (top :: rest)[i / 2] :=
        List.getElem?_eq_getElem (by omega)
      have hle := (less_eq_false_iff hless).mp (h i _ b hparent hi)
      exact hle.trans (ih (i / 2) (by omega) (List.getElem_mem _) hparent)

/-- A list that does not rise is a heap. -/
theorem isHeap_of_pairwise {l : List α} (h : l.Pairwise fun a b => key b ≤ key a) :
    IsHeap less l := by
  intro i a b ha hb
  obtain ⟨hi, rfl⟩ := List.getElem?_eq_some_iff.mp ha
  obtain ⟨hj, rfl⟩ := List.getElem?_eq_some_iff.mp hb
  exact (less_eq_false_iff hless).mpr (List.pairwise_iff_getElem.mp h _ _ hi hj (by omega))

namespace HeapOps

variable (heap : HeapOps less)

/-- A heap of what was not empty begins with a greatest element. -/
theorem makeHeap_cons {l : List α} (hne : l ≠ []) :
    ∃ top rest, heap.makeHeap l = top :: rest ∧ (top :: rest).Perm l ∧
      IsHeap less (top :: rest) ∧ ∀ b ∈ rest, key b ≤ key top := by
  have hperm := heap.makeHeap_perm l
  have hheap := heap.makeHeap_isHeap l
  cases hmake : heap.makeHeap l with
  | nil =>
    rw [hmake] at hperm
    exact absurd hperm.nil_eq.symm hne
  | cons top rest =>
    rw [hmake] at hperm hheap
    exact ⟨top, rest, rfl, hperm, hheap, fun b hb => hheap.key_le hless (.tail _ hb)⟩

/-- After a removal the greatest of the others is at the front. -/
theorem popHeap_cons {top : α} {rest : List α} (h : IsHeap less (top :: rest)) (hne : rest ≠ []) :
    ∃ next others, heap.popHeap (top :: rest) = next :: (others ++ [top]) ∧
      (next :: others).Perm rest ∧ ∀ b ∈ others, key b ≤ key next := by
  obtain ⟨heaped, hpop, hperm, hheap⟩ := heap.popHeap_spec top rest h
  cases heaped with
  | nil => exact absurd hperm.nil_eq.symm hne
  | cons next others =>
    exact ⟨next, others, hpop, hperm, fun b hb => hheap.key_le hless (.tail _ hb)⟩

end HeapOps

end

/-! ## Sorting -/

/-- The greatest first; of equals the first one. -/
def descending (key : α → K) (l : List α) : List α := l.insertionSort fun a b => key b ≤ key a

theorem perm_descending (key : α → K) (l : List α) : (descending key l).Perm l :=
  List.perm_insertionSort _ l

theorem pairwise_descending (key : α → K) (l : List α) :
    (descending key l).Pairwise fun a b => key b ≤ key a := by
  have : Std.Total fun a b : α => key b ≤ key a := ⟨fun a b => le_total (key b) (key a)⟩
  have : IsTrans α fun a b => key b ≤ key a := ⟨fun _ _ _ hab hbc => le_trans hbc hab⟩
  exact List.pairwise_insertionSort _ l

/-- A greatest element at the front stays there. -/
theorem descending_cons {key : α → K} {a : α} {l : List α} (h : ∀ b ∈ l, key b ≤ key a) :
    descending key (a :: l) = a :: descending key l :=
  List.insertionSort_cons_of_forall_rel _ h

/-- Operations that sort. Of equal elements, the one nearest to the end goes to the front. -/
def HeapOps.sorting {less : α → α → Bool} {key : α → K}
    (hless : ∀ a b, less a b = true ↔ key a < key b) : HeapOps less where
  makeHeap := descending key
  popHeap l := descending key l.tail.reverse ++ l.head?.toList
  makeHeap_perm := perm_descending key
  makeHeap_isHeap l := isHeap_of_pairwise hless (pairwise_descending key l)
  popHeap_spec _ rest _ := ⟨descending key rest.reverse, rfl,
    (perm_descending key _).trans (List.reverse_perm rest),
    isHeap_of_pairwise hless (pairwise_descending key _)⟩

end Guillemot
