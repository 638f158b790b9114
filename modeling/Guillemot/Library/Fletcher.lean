import Mathlib.Algebra.Group.Basic
import Mathlib.Data.List.Basic
import Mathlib.Tactic.Common

/-!
# Two running sums as a checksum

The checksum of a list over an additive group is the sum of its elements together with the sum of
the sums of its beginnings. A list is sealed when its last two elements are the checksum of the
others. Two sealed lists that agree but for two elements next to each other are equal
(`Sealed.eq_of_window`).

No weights are computed: a step can be undone (`step_left_inj`), so what follows the two elements
does not matter, and each of the two sums settles one of them.
-/

namespace Guillemot

namespace Fletcher

variable {α : Type*} [AddCommGroup α]

/-- One element more: the sum, and the sum of the sums. -/
def step (s : α × α) (b : α) : α × α := (s.1 + b, s.2 + (s.1 + b))

/-- The checksum of a list. -/
def sums (xs : List α) : α × α := xs.foldl step (0, 0)

/-- The last two elements of a list are the checksum of the others. -/
def Sealed (xs : List α) : Prop := ∃ data a b, xs = data ++ [a, b] ∧ sums data = (a, b)

/-! ## One step -/

/-- A step can be undone. -/
theorem step_left_inj {s t : α × α} {b : α} : step s b = step t b ↔ s = t := by
  constructor
  · intro h
    obtain ⟨h1, h2⟩ := Prod.mk.inj h
    have hfirst : s.1 = t.1 := add_right_cancel h1
    rw [h1] at h2
    exact Prod.ext hfirst (add_right_cancel h2)
  · rintro rfl
    rfl

/-- The second sum after a step tells the element. -/
theorem step_snd_inj {s : α × α} {a b : α} : (step s a).2 = (step s b).2 ↔ a = b := by
  unfold step
  rw [add_right_inj, add_right_inj]

/-- Steps over the same elements can be undone. -/
theorem foldl_step_inj {s t : α × α} (xs : List α) :
    xs.foldl step s = xs.foldl step t ↔ s = t := by
  induction xs generalizing s t with
  | nil => exact Iff.rfl
  | cons x xs ih => rw [List.foldl_cons, List.foldl_cons, ih, step_left_inj]

theorem sums_append (xs ys : List α) : sums (xs ++ ys) = ys.foldl step (sums xs) :=
  List.foldl_append

/-! ## Windows -/

/-- Two elements are told by what they do to the sums. -/
theorem two_steps_inj {s : α × α} {a b c d : α} :
    step (step s a) b = step (step s c) d ↔ a = c ∧ b = d := by
  constructor
  · intro h
    obtain ⟨h1, h2⟩ := Prod.mk.inj h
    -- The sums of both are equal, so that the sums of the sums leave the first ones.
    rw [h1, add_left_inj] at h2
    obtain rfl := step_snd_inj.mp h2
    exact ⟨rfl, add_left_cancel h1⟩
  · rintro ⟨rfl, rfl⟩
    rfl

/-- At most two elements are told by what they do to the sums. -/
theorem window_inj {s : α × α} {ys ys' : List α} (hlen : ys'.length = ys.length)
    (hle : ys.length ≤ 2) (h : ys.foldl step s = ys'.foldl step s) : ys = ys' := by
  match ys, ys', hlen, hle with
  | [], [], _, _ => rfl
  | [a], [c], _, _ =>
    rw [step_snd_inj.mp (congrArg Prod.snd h)]
  | [a, b], [c, d], _, _ =>
    obtain ⟨rfl, rfl⟩ := two_steps_inj.mp h
    rfl

/-- At most one element is told by what it does to the second sum. -/
theorem window_snd_inj {s : α × α} {ys ys' : List α} (hlen : ys'.length = ys.length)
    (hle : ys.length ≤ 1) (h : (ys.foldl step s).2 = (ys'.foldl step s).2) : ys = ys' := by
  match ys, ys', hlen, hle with
  | [], [], _, _ => rfl
  | [a], [c], _, _ => rw [step_snd_inj.mp h]

/-! ## Sealed lists -/

theorem sealed_append {data : List α} {a b : α} :
    Sealed (data ++ [a, b]) ↔ sums data = (a, b) := by
  constructor
  · rintro ⟨data', a', b', heq, hsums⟩
    obtain ⟨rfl, hfooter⟩ := List.append_inj' heq rfl
    obtain ⟨rfl, rfl⟩ : a = a' ∧ b = b' := by simpa using hfooter
    exact hsums
  · exact fun h => ⟨data, a, b, rfl, h⟩

/-- A list is sealed when its end is the checksum of what is in front of it. -/
theorem sealed_iff {xs : List α} :
    Sealed xs ↔ xs.drop (xs.length - 2) =
      [(sums (xs.take (xs.length - 2))).1, (sums (xs.take (xs.length - 2))).2] := by
  constructor
  · rintro ⟨data, a, b, rfl, hsums⟩
    have hlen : (data ++ [a, b]).length - 2 = data.length := by simp
    rw [hlen, List.drop_left, List.take_left, hsums]
  · intro h
    have hsplit := List.take_append_drop (xs.length - 2) xs
    rw [h] at hsplit
    exact ⟨xs.take (xs.length - 2), _, _, hsplit.symm, rfl⟩

instance [DecidableEq α] (xs : List α) : Decidable (Sealed xs) :=
  decidable_of_iff _ sealed_iff.symm

/-- The end of a sealed list, of at most two elements, is told by what is in front of it. -/
theorem Sealed.eq_of_end {xs ys ys' : List α} (hlen : ys'.length = ys.length)
    (hle : ys.length ≤ 2) (h : Sealed (xs ++ ys)) (h' : Sealed (xs ++ ys')) : ys = ys' := by
  obtain ⟨data, a, b, heq, hsums⟩ := h
  obtain ⟨data', a', b', heq', hsums'⟩ := h'
  have hcount : xs.length + ys.length = data.length + 2 := by
    simpa using congrArg List.length heq
  have hcount' : xs.length + ys'.length = data'.length + 2 := by
    simpa using congrArg List.length heq'
  -- Both data parts are what `xs` begins with.
  have hdata : data = xs.take data.length := by
    have htake := congrArg (List.take data.length) heq
    rw [List.take_append_of_le_length (by omega), List.take_left] at htake
    exact htake.symm
  have hdata' : data' = xs.take data'.length := by
    have htake := congrArg (List.take data'.length) heq'
    rw [List.take_append_of_le_length (by omega), List.take_left] at htake
    exact htake.symm
  have hsame : data = data' := by
    rw [hdata, hdata', show data'.length = data.length by omega]
  subst hsame
  obtain ⟨rfl, rfl⟩ := Prod.mk.inj (hsums.symm.trans hsums')
  exact List.append_cancel_left (heq.trans heq'.symm)

/-- Two sealed lists that differ in at most two neighbouring elements are equal. -/
theorem Sealed.eq_of_window {xs ys ys' zs : List α} (hlen : ys'.length = ys.length)
    (hle : ys.length ≤ 2) (h : Sealed (xs ++ ys ++ zs)) (h' : Sealed (xs ++ ys' ++ zs)) :
    ys = ys' := by
  rcases zs.eq_nil_or_concat' with rfl | ⟨front, b, rfl⟩
  · rw [List.append_nil] at h h'
    exact Sealed.eq_of_end hlen hle h h'
  · rcases front.eq_nil_or_concat' with rfl | ⟨front, a, rfl⟩
    · -- The window ends in the first element of the checksum.
      rcases ys.eq_nil_or_concat' with rfl | ⟨zs, y, rfl⟩
      · exact (List.eq_nil_of_length_eq_zero hlen).symm
      · rcases ys'.eq_nil_or_concat' with rfl | ⟨zs', y', rfl⟩
        · simp at hlen
        · have hsums : sums (xs ++ zs) = (y, b) := by simpa [← sealed_append] using h
          have hsums' : sums (xs ++ zs') = (y', b) := by simpa [← sealed_append] using h'
          simp only [List.length_append, List.length_singleton] at hlen hle
          rw [sums_append] at hsums hsums'
          have hzs : zs = zs' := by
            refine window_snd_inj (by omega) (by omega) (s := sums xs) ?_
            rw [hsums, hsums']
          subst hzs
          rw [(Prod.mk.inj (hsums.symm.trans hsums')).1]
    · -- The window is followed by data and the whole checksum.
      have hsums : sums (xs ++ ys ++ front) = (a, b) := sealed_append.mp (by simpa using h)
      have hsums' : sums (xs ++ ys' ++ front) = (a, b) := sealed_append.mp (by simpa using h')
      have hsame : sums (xs ++ ys) = sums (xs ++ ys') := by
        rw [sums_append] at hsums hsums'
        exact (foldl_step_inj front).mp (hsums.trans hsums'.symm)
      rw [sums_append, sums_append] at hsame
      exact window_inj hlen hle hsame

end Fletcher

end Guillemot
