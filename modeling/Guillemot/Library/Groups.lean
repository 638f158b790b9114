import Mathlib.Data.List.Basic
import Mathlib.Data.List.Induction
import Mathlib.Tactic.Common

/-!
# Groups in a stream

A consumer of a stream that is sent in groups keeps the group that it is in, and begins another one
with every element that is marked as the first of its group. The groups come out as they were sent
where the first element of each is marked and no other is (`groups_flatten`). Where every element is
marked, each becomes a group of its own (`groups_of_starts`), so the groups come out as they were
sent only if none has two elements (`groups_flatten_iff`).
-/

namespace Guillemot

variable {α : Type*} (starts : α → Bool)

/-- One more element, which begins a group or belongs to the last one. -/
def addToGroups (groups : List (List α)) (x : α) : List (List α) :=
  match groups.getLast? with
  | none => [[x]]
  | some group => if starts x then groups ++ [[x]] else groups.dropLast ++ [group ++ [x]]

/-- The groups of a stream. -/
def groups (xs : List α) : List (List α) := xs.foldl (addToGroups starts) []

/-- A group of which the first element is marked, and no other. -/
def MarkedFirst : List α → Prop
  | [] => True
  | x :: xs => starts x = true ∧ ∀ y ∈ xs, starts y = false

variable {starts} {x : α} {xs : List α} {earlier sent : List (List α)}

/-- A marked element begins a group. -/
theorem addToGroups_of_start (h : starts x = true) :
    addToGroups starts earlier x = earlier ++ [[x]] := by
  unfold addToGroups
  cases hlast : earlier.getLast? with
  | none => rw [List.getLast?_eq_none_iff.mp hlast, List.nil_append]
  | some group => simp only [h, if_true]

/-- Elements that are not marked belong to the last group. -/
theorem foldl_addToGroups (earlier : List (List α)) (group : List α)
    (h : ∀ y ∈ xs, starts y = false) :
    xs.foldl (addToGroups starts) (earlier ++ [group]) = earlier ++ [group ++ xs] := by
  induction xs generalizing group with
  | nil => rw [List.foldl_nil, List.append_nil]
  | cons y xs ih =>
    have hadd : addToGroups starts (earlier ++ [group]) y = earlier ++ [group ++ [y]] := by
      simp [addToGroups, h y List.mem_cons_self]
    rw [List.foldl_cons, hadd, ih _ fun z hz => h z (List.mem_cons_of_mem _ hz), List.append_assoc,
      List.singleton_append]

/-- The groups that are not empty come out as they were sent. -/
theorem groups_flatten (h : ∀ group ∈ sent, MarkedFirst starts group) :
    groups starts sent.flatten = sent.filter (!·.isEmpty) := by
  induction sent using List.reverseRecOn with
  | nil => rfl
  | append_singleton sent group ih =>
    have hsent := ih fun other hother => h other (List.mem_append_left _ hother)
    have hgroup := h group (List.mem_append_right _ (List.mem_singleton_self group))
    unfold groups at hsent ⊢
    rw [List.flatten_append, List.foldl_append, hsent, List.filter_append, List.flatten_singleton]
    cases group with
    | nil => exact (List.append_nil _).symm
    | cons x xs =>
      obtain ⟨hfirst, hrest⟩ := hgroup
      rw [List.foldl_cons, addToGroups_of_start hfirst, foldl_addToGroups _ _ hrest]
      rfl

/-- Elements that are all marked are a group each. -/
theorem groups_of_starts (h : ∀ y ∈ xs, starts y = true) : groups starts xs = xs.map ([·]) := by
  induction xs using List.reverseRecOn with
  | nil => rfl
  | append_singleton xs y ih =>
    have hxs := ih fun z hz => h z (List.mem_append_left _ hz)
    have hy : starts y = true := h y (List.mem_append_right _ (List.mem_singleton_self y))
    unfold groups at hxs ⊢
    rw [List.foldl_append, hxs, List.map_append, List.foldl_cons, List.foldl_nil,
      addToGroups_of_start hy, List.map_singleton]

/-- If all elements are marked, the groups come out as they were sent exactly when none has two
elements. -/
theorem groups_flatten_iff (h : ∀ group ∈ sent, ∀ x ∈ group, starts x = true) :
    groups starts sent.flatten = sent.filter (!·.isEmpty) ↔ ∀ group ∈ sent, group.length ≤ 1 := by
  constructor
  · intro heq group hgroup
    have hstarts : ∀ x ∈ sent.flatten, starts x = true := by
      intro x hx
      obtain ⟨other, hother, hmem⟩ := List.mem_flatten.mp hx
      exact h other hother x hmem
    rw [groups_of_starts hstarts] at heq
    by_contra hlong
    have hmem : group ∈ sent.filter (!·.isEmpty) := by
      refine List.mem_filter.mpr ⟨hgroup, ?_⟩
      cases group with
      | nil => exact absurd (Nat.zero_le 1) hlong
      | cons x xs => rfl
    obtain ⟨x, -, rfl⟩ := List.mem_map.mp (heq ▸ hmem)
    exact hlong (Nat.le_refl 1)
  · intro hshort
    refine groups_flatten fun group hgroup => ?_
    match group, hshort group hgroup, h group hgroup with
    | [], _, _ => trivial
    | [x], _, hx => exact ⟨hx x (List.mem_singleton_self x), fun y hy => absurd hy List.not_mem_nil⟩
    | x :: y :: xs, hlength, _ => exact absurd hlength (by simp)

end Guillemot
