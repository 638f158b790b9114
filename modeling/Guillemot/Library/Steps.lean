import Mathlib.Logic.Relation
import Mathlib.Tactic.SplitIfs

/-!
# Labelled steps

A machine is a partial step function on states and labels. `Moves` is one step under a guard on the
state and the label, so that the runs whose steps all meet the guard are its reflexive transitive
closure. `invariant_of_moves` is the invariant rule, and `moves_of_run` turns a run on a list of
labels into a run of `Moves`.
-/

namespace Guillemot

namespace Steps

open Relation (ReflTransGen)

variable {σ ι : Type*}

/-- A step with some label that meets the guard. -/
def Moves (step : σ → ι → Option σ) (guard : σ → ι → Prop) (s t : σ) : Prop :=
  ∃ a, guard s a ∧ step s a = some t

/-- The steps with the labels of a list, one after the other, as long as they meet the guard. -/
def run (step : σ → ι → Option σ) (guard : σ → ι → Prop) [∀ s a, Decidable (guard s a)] :
    List ι → σ → Option σ
  | [], s => some s
  | a :: as, s => if guard s a then (step s a).bind (run step guard as) else none

variable {step : σ → ι → Option σ} {guard : σ → ι → Prop}

/-- What every step keeps holds of every state of a run. -/
theorem invariant_of_moves {I : σ → Prop}
    (hstep : ∀ s a t, I s → guard s a → step s a = some t → I t) {s t : σ} (hs : I s)
    (h : ReflTransGen (Moves step guard) s t) : I t := by
  induction h with
  | refl => exact hs
  | tail _ hmove ih =>
    obtain ⟨a, hguard, hnext⟩ := hmove
    exact hstep _ a _ ih hguard hnext

/-- A run on two lists, one behind the other. -/
theorem run_append [∀ s a, Decidable (guard s a)] (as bs : List ι) (s : σ) :
    run step guard (as ++ bs) s = (run step guard as s).bind (run step guard bs) := by
  induction as generalizing s with
  | nil => rfl
  | cons a as ih =>
    simp only [List.cons_append, run]
    split_ifs
    · rw [Option.bind_assoc]
      exact Option.bind_congr fun u _ => ih u
    · rfl

/-- The state that a list of labels leads to is reached. -/
theorem moves_of_run [∀ s a, Decidable (guard s a)] {as : List ι} {s t : σ}
    (h : run step guard as s = some t) : ReflTransGen (Moves step guard) s t := by
  induction as generalizing s with
  | nil =>
    obtain rfl := Option.some.inj h
    exact .refl
  | cons a as ih =>
    unfold run at h
    split_ifs at h with hguard
    obtain ⟨u, hu, hrest⟩ := Option.bind_eq_some_iff.mp h
    exact .head ⟨a, hguard, hu⟩ (ih hrest)

end Steps

end Guillemot
