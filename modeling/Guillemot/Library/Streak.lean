import Mathlib.Data.List.Infix

/-!
# Streaks

A program that waits until something has held often enough without interruption keeps a counter: one
more for every entry with the property, and zero for any other. `Streak P n l` says what such a
counter knows of the list of entries: its last `n` entries have the property `P`.
-/

namespace Guillemot

variable {α : Type*} {P Q : α → Prop} {n m : ℕ} {l : List α} {a : α}

/-- The last `n` entries of a list have a property. -/
def Streak (P : α → Prop) (n : ℕ) (l : List α) : Prop :=
  ∃ last, last <:+ l ∧ last.length = n ∧ ∀ a ∈ last, P a

namespace Streak

/-- Of no entries nothing is said. -/
theorem zero (P : α → Prop) (l : List α) : Streak P 0 l :=
  ⟨[], List.nil_suffix, rfl, fun _ h => absurd h List.not_mem_nil⟩

/-- A streak that is not empty ends with the last entry. -/
theorem of_snoc (h : Streak P (n + 1) (l ++ [a])) : Streak P n l ∧ P a := by
  obtain ⟨last, hsuffix, hlen, hall⟩ := h
  rcases last.eq_nil_or_concat with rfl | ⟨last, b, rfl⟩
  · cases hlen
  · rw [List.concat_eq_append] at hsuffix hlen hall
    obtain ⟨front, heq⟩ := hsuffix
    rw [← List.append_assoc] at heq
    obtain ⟨rfl, hab⟩ := List.append_inj' heq rfl
    rw [List.length_append] at hlen
    refine ⟨⟨last, ⟨front, rfl⟩, Nat.succ_injective hlen, fun x hx => ?_⟩, ?_⟩
    · exact hall x (List.mem_append_left _ hx)
    · exact hall a (List.mem_append_right _ (by rw [hab]; exact List.mem_singleton_self a))

/-- A weaker property. -/
theorem mono (h : Streak P n l) (hPQ : ∀ a, P a → Q a) : Streak Q n l := by
  obtain ⟨last, hsuffix, hlen, hall⟩ := h
  exact ⟨last, hsuffix, hlen, fun a ha => hPQ a (hall a ha)⟩

end Streak

end Guillemot
