import Mathlib.Order.Interval.Finset.Nat
import Mathlib.Tactic.Common

/-!
# Ring buffers

A ring buffer of `n` slots is written slot by slot, and from the first slot again behind the last
one. After at least `n` values its slots hold the last `n` of them, in the order of a rotation
(`map_slots_pushAll`), whatever they held before.
-/

namespace Guillemot

/-- The slots of a ring buffer, and the one that is written next. -/
structure RingBuffer (α : Type*) where
  slots : ℕ → α
  next : ℕ

namespace RingBuffer

variable {α : Type*} (n : ℕ)

/-- A value is written. -/
def push (r : RingBuffer α) (x : α) : RingBuffer α :=
  ⟨Function.update r.slots r.next x, (r.next + 1) % n⟩

/-- Some values are written, one after the other, from the first slot on. -/
def pushAll (slots : ℕ → α) (xs : List α) : RingBuffer α := xs.foldl (push n) ⟨slots, 0⟩

variable {n} {slots : ℕ → α} {xs : List α} {k : ℕ}

theorem pushAll_concat (slots : ℕ → α) (xs : List α) (x : α) :
    pushAll n slots (xs ++ [x]) = (pushAll n slots xs).push n x :=
  List.foldl_append

/-- The next slot. -/
theorem next_pushAll (slots : ℕ → α) (xs : List α) :
    (pushAll n slots xs).next = xs.length % n := by
  induction xs using List.reverseRecOn with
  | nil => exact (Nat.zero_mod n).symm
  | append_singleton xs x ih =>
    rw [pushAll_concat, push, ih, List.length_append, List.length_singleton, Nat.mod_add_mod]

/-- It is one of the buffer. -/
theorem next_lt (hn : 0 < n) (slots : ℕ → α) (xs : List α) : (pushAll n slots xs).next < n := by
  rw [next_pushAll]
  exact Nat.mod_lt _ hn

/-- The last `n` values are in their slots. -/
theorem slots_pushAll (hn : 0 < n) (hk : k < xs.length) (hlast : xs.length ≤ k + n) :
    (pushAll n slots xs).slots (k % n) = xs[k] := by
  induction xs using List.reverseRecOn with
  | nil => cases hk
  | append_singleton xs x ih =>
    rw [List.length_append, List.length_singleton] at hk hlast
    rw [pushAll_concat, push]
    dsimp only
    rw [next_pushAll]
    rcases Nat.lt_succ_iff_lt_or_eq.mp hk with hlt | rfl
    · -- The value that is written goes to another slot.
      have hother : k % n ≠ xs.length % n := by
        intro heq
        have hsame : k = xs.length := Nat.mod_injOn_Ico k n (Finset.mem_coe.mpr (by simp [hn]))
          (Finset.mem_coe.mpr (by simp; omega)) heq
        exact hlt.ne hsame
      rw [Function.update_of_ne hother, ih hlt (by omega), List.getElem_append_left hlt]
    · rw [Function.update_self, List.getElem_concat_length rfl]

/-- The slots hold the last `n` values. -/
theorem map_slots_pushAll (hn : 0 < n) (h : n ≤ xs.length) :
    (Multiset.range n).map (pushAll n slots xs).slots = xs.drop (xs.length - n) := by
  have hlength : xs.length - n + n = xs.length := Nat.sub_add_cancel h
  -- The places of these values go round the buffer once.
  have hround : (Multiset.Ico (xs.length - n) xs.length).map (· % n) = Multiset.range n := by
    have hmod := Nat.multiset_Ico_map_mod (xs.length - n) n
    rwa [hlength] at hmod
  have hvalues : (List.range' (xs.length - n) n).map ((pushAll n slots xs).slots ∘ (· % n)) =
      xs.drop (xs.length - n) := by
    refine List.ext_getElem (by simp; omega) fun i hi hi' => ?_
    rw [List.length_drop] at hi'
    rw [List.getElem_map, List.getElem_range', one_mul, List.getElem_drop]
    exact slots_pushAll hn (by omega) (by omega)
  have hplaces : Multiset.Ico (xs.length - n) xs.length =
      (List.range' (xs.length - n) n : Multiset ℕ) := by
    have hrange : Multiset.Ico (xs.length - n) xs.length =
        (List.range' (xs.length - n) (xs.length - (xs.length - n)) : Multiset ℕ) := rfl
    rwa [Nat.sub_sub_self h] at hrange
  rw [← hround, Multiset.map_map, ← hvalues, hplaces, Multiset.map_coe]

end RingBuffer

end Guillemot
