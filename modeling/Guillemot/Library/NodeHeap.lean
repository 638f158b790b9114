import Mathlib.Data.List.Basic
import Mathlib.Data.Finset.Card
import Mathlib.Data.Finset.Range
import Mathlib.Tactic.Common

/-!
# Singly linked chains in a heap of nodes

A heap is a list of cells, addressed by their index; a freed cell is `none` and is never handed out
again. `alloc`, `load`, `store` and `free` are the four accesses, the last three undefined on a
freed cell. `Chain h as xs` says that the nodes at the addresses `as` are linked in this order, the
last one to nothing, and hold the data `xs`.

`Chain.alloc` and `Chain.link` are how such a chain grows: a fresh node is allocated and the last
one linked to it. `walk` follows the links from a pointer, and `Chain.walk_eq` says that it reads
`xs` off a chain.
-/

namespace Guillemot

/-- A node: its data, and the address of the next node. -/
structure Node (α : Type*) where
  /-- The data held. -/
  data : α
  /-- The next node's address; `none` is the null pointer. -/
  next : Option ℕ
deriving DecidableEq, Repr

/-- A heap of cells; `none` is a cell that has been freed. -/
abbrev Heap (ν : Type*) := List (Option ν)

namespace Heap

variable {ν : Type*}

/-- A fresh cell that holds `x`, and the heap with it. -/
def alloc (h : Heap ν) (x : ν) : ℕ × Heap ν := (h.length, h ++ [some x])

/-- The contents of the cell at `a`; undefined when it is freed. -/
def load (h : Heap ν) (a : ℕ) : Option ν := h[a]?.join

/-- Overwrites the cell at `a`; undefined when it is freed. -/
def store (h : Heap ν) (a : ℕ) (x : ν) : Option (Heap ν) :=
  if (h.load a).isSome then some (h.set a (some x)) else none

/-- Frees the cell at `a`; undefined when it is freed already. -/
def free (h : Heap ν) (a : ℕ) : Option (Heap ν) :=
  if (h.load a).isSome then some (h.set a none) else none

/-- Only cells of the heap can be loaded. -/
theorem lt_length_of_load {h : Heap ν} {a : ℕ} {x : ν} (hl : h.load a = some x) :
    a < h.length := by
  by_contra hlt
  simp [load, List.getElem?_eq_none (Nat.le_of_not_lt hlt)] at hl

/-- A loaded cell stays as it is when another one is allocated. -/
theorem load_alloc_of_load {h : Heap ν} {a : ℕ} {x y : ν} (hl : h.load a = some x) :
    (h.alloc y).2.load a = some x := by
  have hlt := lt_length_of_load hl
  simpa [load, alloc, List.getElem?_append_left hlt] using hl

/-- The cell allocated holds its data. -/
@[simp]
theorem load_alloc_self (h : Heap ν) (y : ν) : (h.alloc y).2.load (h.alloc y).1 = some y := by
  simp [load, alloc]

/-- A cell other than the one overwritten stays as it is. -/
theorem load_set_of_ne {h : Heap ν} {a b : ℕ} {c : Option ν} (hab : a ≠ b) :
    load (h.set a c) b = h.load b := by
  simp [load, List.getElem?_set_ne hab]

/-- The cell overwritten holds what was put there. -/
theorem load_set_self {h : Heap ν} {a : ℕ} {c : Option ν} (ha : a < h.length) :
    load (h.set a c) a = c := by
  simp [load, List.getElem?_set_self ha]

end Heap

open Heap

variable {α : Type*}

/-- The nodes at `as` are linked in this order and hold `xs`; the last one is linked to nothing. -/
def Chain (h : Heap (Node α)) : List ℕ → List α → Prop
  | [], [] => True
  | a :: as, x :: xs => h.load a = some ⟨x, as.head?⟩ ∧ Chain h as xs
  | _, _ => False

/-- Follows the links from `p` for at most `fuel` nodes; undefined on a dangling pointer, and when
the fuel runs out. -/
def walk (h : Heap (Node α)) : ℕ → Option ℕ → Option (List α)
  | _, none => some []
  | 0, some _ => none
  | fuel + 1, some a => do
    let node ← h.load a
    let xs ← walk h fuel node.next
    return node.data :: xs

namespace Chain

/-- A chain depends on the cells of its own nodes only. -/
theorem congr {h h' : Heap (Node α)} {as : List ℕ} {xs : List α} (hc : Chain h as xs)
    (heq : ∀ a ∈ as, h'.load a = h.load a) : Chain h' as xs := by
  induction as generalizing xs with
  | nil => cases xs <;> simp_all [Chain]
  | cons a as ih =>
    cases xs with
    | nil => exact hc.elim
    | cons x xs =>
      refine ⟨(heq a List.mem_cons_self).trans hc.1, ih hc.2 fun b hb => ?_⟩
      exact heq b (List.mem_cons_of_mem a hb)

/-- The nodes of a chain can be loaded. -/
theorem exists_load {h : Heap (Node α)} {as : List ℕ} {xs : List α} (hc : Chain h as xs) {a : ℕ}
    (ha : a ∈ as) : ∃ node, h.load a = some node := by
  induction as generalizing xs with
  | nil => cases ha
  | cons b as ih =>
    cases xs with
    | nil => exact hc.elim
    | cons x xs =>
      rcases List.mem_cons.mp ha with rfl | ha
      · exact ⟨_, hc.1⟩
      · exact ih hc.2 ha

/-- Every node of a chain is a cell of the heap. -/
theorem lt_length {h : Heap (Node α)} {as : List ℕ} {xs : List α} (hc : Chain h as xs) {a : ℕ}
    (ha : a ∈ as) : a < h.length := by
  obtain ⟨_, hl⟩ := hc.exists_load ha
  exact lt_length_of_load hl

/-- A chain holds one datum a node. -/
theorem length_eq {h : Heap (Node α)} {as : List ℕ} {xs : List α} (hc : Chain h as xs) :
    as.length = xs.length := by
  induction as generalizing xs with
  | nil => cases xs <;> simp_all [Chain]
  | cons a as ih =>
    cases xs with
    | nil => exact hc.elim
    | cons x xs => simp [ih hc.2]

/-- Distinct nodes are at most as many as the heap's cells. -/
theorem length_le {h : Heap (Node α)} {as : List ℕ} {xs : List α} (hc : Chain h as xs)
    (hnd : as.Nodup) : as.length ≤ h.length := by
  -- The nodes are among the indices of the heap.
  rw [← List.toFinset_card_of_nodup hnd, ← Finset.card_range h.length]
  refine Finset.card_le_card fun a ha => ?_
  exact Finset.mem_range.mpr (hc.lt_length (List.mem_toFinset.mp ha))

/-- Following the links of a chain reads its data, when there is fuel for every node. -/
theorem walk_eq {h : Heap (Node α)} {as : List ℕ} {xs : List α} (hc : Chain h as xs) {fuel : ℕ}
    (hfuel : as.length ≤ fuel) : walk h fuel as.head? = some xs := by
  induction as generalizing xs fuel with
  | nil =>
    cases xs with
    | nil => simp [walk]
    | cons x xs => exact hc.elim
  | cons a as ih =>
    cases xs with
    | nil => exact hc.elim
    | cons x xs =>
      obtain ⟨fuel, rfl⟩ : ∃ k, fuel = k + 1 := ⟨fuel - 1, by simp at hfuel; omega⟩
      have hlen : as.length ≤ fuel := by simpa using hfuel
      simp [walk, hc.1, ih hc.2 hlen]

/-- A node allocated beside a chain leaves it as it is. -/
theorem alloc {h : Heap (Node α)} {as : List ℕ} {xs : List α} (hc : Chain h as xs) (y : Node α) :
    Chain (h.alloc y).2 as xs := by
  refine hc.congr fun a ha => ?_
  obtain ⟨_, hl⟩ := hc.exists_load ha
  rw [load_alloc_of_load hl, hl]

/-- Linking the last node of a chain to a node outside it that holds `y` and ends there. -/
theorem link {h : Heap (Node α)} {as : List ℕ} {xs : List α} {l b : ℕ} {node : Node α} {y : α}
    (hc : Chain h (as ++ [l]) xs) (hnd : (as ++ [l]).Nodup) (hl : h.load l = some node)
    (hb : b ∉ as ++ [l]) (hy : h.load b = some ⟨y, none⟩) :
    Chain (h.set l (some { node with next := some b })) (as ++ [l] ++ [b]) (xs ++ [y]) := by
  induction as generalizing xs with
  | nil =>
    -- The chain is the last node alone.
    have hlb : l ≠ b := fun h => hb (by simp [h])
    match xs, hc with
    | [x], hc =>
      obtain rfl : node = ⟨x, none⟩ := Option.some.inj (hl.symm.trans hc.1)
      refine ⟨load_set_self (lt_length_of_load hl), ?_, trivial⟩
      rw [load_set_of_ne hlb, hy]
      rfl
  | cons a as ih =>
    match xs, hc with
    | x :: xs, hc =>
      -- The first node is not the last one, so it stays as it is.
      have hal : l ≠ a := by
        rintro rfl
        simp at hnd
      refine ⟨?_, ih hc.2 (List.nodup_cons.mp hnd).2 fun h => hb (List.mem_cons_of_mem a h)⟩
      rw [load_set_of_ne hal, hc.1]
      cases as <;> rfl

end Chain

end Guillemot
