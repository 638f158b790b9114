import Mathlib.Data.List.Basic

/-!
# Publishing on change

A publisher that is called with a value in every round publishes only when the value has changed: it
stores what it has published, and compares. It may publish the value in another form, `f x`; then
the form is stored, but it is the value itself that is compared with it.

What is stored is always what was published last (`call_stored`). But a call leaves it up to date,
and the next call with the same value quiet, only for values that have the form already
(`upToDate_and_quiet_iff`). Of any other, the form is published again and again, and one that is
equal to the form that is stored is not published at all.
-/

namespace Guillemot.OnChange

variable {α : Type*} [DecidableEq α] (f : α → α)

/-- A call with a value: what is stored afterwards, and what is published. -/
def call (stored x : α) : α × List α := if x = stored then (stored, []) else (f x, [f x])

/-- What was published last is stored. -/
theorem call_stored (stored x : α) :
    (call f stored x).1 = (call f stored x).2.getLastD stored := by
  unfold call
  split_ifs <;> rfl

omit [DecidableEq α] in
/-- What was published last in two rounds. -/
theorem getLastD_append (xs ys : List α) (d : α) :
    (xs ++ ys).getLastD d = ys.getLastD (xs.getLastD d) := by
  simp only [List.getLastD_eq_getLast?, List.getLast?_append]
  cases ys.getLast? <;> rfl

/-- A call with what is stored publishes nothing. -/
theorem call_quiet_iff (stored x : α) : (call f stored x).2 = [] ↔ x = stored := by
  unfold call
  by_cases h : x = stored
  · rw [if_pos h]
    exact iff_of_true rfl h
  · rw [if_neg h]
    exact iff_of_false (List.cons_ne_nil _ _) h

/-- The form of the value has been published last, and a second call publishes nothing, exactly when
the value has this form. -/
theorem upToDate_and_quiet_iff (stored x : α) :
    (call f stored x).1 = f x ∧ (call f (call f stored x).1 x).2 = [] ↔ f x = x := by
  rw [call_quiet_iff]
  constructor
  · rintro ⟨hcurrent, hquiet⟩
    exact (hquiet.trans hcurrent).symm
  · intro hform
    have hstored : (call f stored x).1 = x := by
      unfold call
      split_ifs with h
      · exact h.symm
      · exact hform
    exact ⟨hstored.trans hform.symm, hstored.symm⟩

/-- What is published has a property of the forms that occur. -/
theorem forall_call {P : α → Prop} {stored x : α} (h : P (f x)) :
    ∀ y ∈ (call f stored x).2, P y := by
  unfold call
  split_ifs
  · exact fun y hy => absurd hy List.not_mem_nil
  · exact fun y hy => List.mem_singleton.mp hy ▸ h

/-- Without another form, what is published has a property that what is stored has exactly when the
value has it. -/
theorem forall_call_id_iff {P : α → Prop} {stored : α} (hstored : P stored) (x : α) :
    (∀ y ∈ (call id stored x).2, P y) ↔ P x := by
  constructor
  · intro h
    by_cases hx : x = stored
    · exact hx ▸ hstored
    · have hmem : x ∈ (call id stored x).2 := by
        unfold call
        rw [if_neg hx]
        exact List.mem_singleton_self x
      exact h x hmem
  · exact forall_call id

end Guillemot.OnChange
