import Mathlib.Data.List.Infix
import Mathlib.Tactic.Common

/-!
# Scanning a stream that arrives in pieces

A scanner looks at the front of a stream: it waits for more, or it takes some values off and tells
some events. Its decision does not change when more values arrive. `scan` goes on until the scanner
waits, and it does not matter whether the stream is scanned at once or as it arrives
(`scan_append`), nor how far it has been scanned before (`scan_append_of`).

`Slices` says of some lists that they were cut out of a stream, one behind the other.
-/

namespace Guillemot

/-- A decision about the front of a stream: the events, and the number of values that are taken. -/
structure Scanner (α ε : Type*) where
  next : List α → Option (List ε × ℕ)
  bounds : ∀ {xs es n}, next xs = some (es, n) → 0 < n ∧ n ≤ xs.length
  mono : ∀ {xs es n}, next xs = some (es, n) → ∀ ys, next (xs ++ ys) = some (es, n)

namespace Scanner

variable {α ε : Type*} (s : Scanner α ε)

/-- At most so many decisions, one after the other: the events, and the rest of the stream. -/
def scanUpTo : ℕ → List α → List ε × List α
  | 0, xs => ([], xs)
  | fuel + 1, xs =>
    match s.next xs with
    | none => ([], xs)
    | some (es, n) =>
      let (es', rest) := scanUpTo fuel (xs.drop n)
      (es ++ es', rest)

/-- All decisions. -/
def scan (xs : List α) : List ε × List α := s.scanUpTo xs.length xs

variable {s} {xs ys : List α} {es : List ε} {n : ℕ}

/-- The bound on the decisions does not matter when it is at least the length. -/
theorem scanUpTo_eq {fuel : ℕ} (h : xs.length ≤ fuel) : s.scanUpTo fuel xs = s.scan xs := by
  -- By induction on the length of the stream, of which every decision takes something.
  induction hlen : xs.length using Nat.strong_induction_on generalizing fuel xs with
  | _ len ih =>
    have hstep : ∀ {fuel : ℕ}, xs.length ≤ fuel → s.scanUpTo fuel xs =
        match s.next xs with
        | none => ([], xs)
        | some (es, n) => (es ++ (s.scan (xs.drop n)).1, (s.scan (xs.drop n)).2) := by
      intro fuel hfuel
      cases fuel with
      | zero =>
        obtain rfl : xs = [] := List.length_eq_zero_iff.mp (Nat.le_zero.mp hfuel)
        have hnone : s.next ([] : List α) = none := by
          cases hnext : s.next ([] : List α) with
          | none => rfl
          | some r =>
            obtain ⟨hpos, hle⟩ := s.bounds hnext
            exact absurd (Nat.lt_of_lt_of_le hpos hle) (Nat.lt_irrefl 0)
        rw [hnone]
        rfl
      | succ fuel =>
        unfold scanUpTo
        cases hnext : s.next xs with
        | none => rfl
        | some r =>
          obtain ⟨es, n⟩ := r
          obtain ⟨hpos, hle⟩ := s.bounds hnext
          have hshort : (xs.drop n).length < len := by
            rw [List.length_drop]
            omega
          dsimp only
          rw [ih _ hshort (by omega) rfl]
    rw [hstep h, scan, hstep (Nat.le_refl _)]

/-- Where the scanner waits, nothing is taken. -/
theorem scan_of_none (h : s.next xs = none) : s.scan xs = ([], xs) := by
  rw [← scanUpTo_eq (Nat.le_succ xs.length), scanUpTo, h]

/-- After a decision comes the rest. -/
theorem scan_of_next (h : s.next xs = some (es, n)) :
    s.scan xs = (es ++ (s.scan (xs.drop n)).1, (s.scan (xs.drop n)).2) := by
  have hdrop : (xs.drop n).length ≤ xs.length := by
    rw [List.length_drop]
    omega
  rw [← scanUpTo_eq (Nat.le_succ xs.length), scanUpTo, h]
  dsimp only
  rw [scanUpTo_eq hdrop]

/-- The scanner waits for more behind what was scanned. -/
theorem next_scan_eq_none (xs : List α) : s.next (s.scan xs).2 = none := by
  induction hlen : xs.length using Nat.strong_induction_on generalizing xs with
  | _ len ih =>
    cases hnext : s.next xs with
    | none => rwa [scan_of_none hnext]
    | some r =>
      obtain ⟨es, n⟩ := r
      obtain ⟨hpos, hle⟩ := s.bounds hnext
      have hshort : (xs.drop n).length < len := by
        rw [List.length_drop]
        omega
      rw [scan_of_next hnext]
      exact ih _ hshort _ rfl

/-- The stream that has arrived can be scanned first, and what is left of it with the rest. -/
theorem scan_append (xs ys : List α) :
    s.scan (xs ++ ys) =
      ((s.scan xs).1 ++ (s.scan ((s.scan xs).2 ++ ys)).1, (s.scan ((s.scan xs).2 ++ ys)).2) := by
  induction hlen : xs.length using Nat.strong_induction_on generalizing xs with
  | _ len ih =>
    cases hnext : s.next xs with
    | none => rw [scan_of_none hnext, List.nil_append]
    | some r =>
      obtain ⟨es, n⟩ := r
      obtain ⟨hpos, hle⟩ := s.bounds hnext
      have hshort : (xs.drop n).length < len := by
        rw [List.length_drop]
        omega
      have hdrop : (xs ++ ys).drop n = xs.drop n ++ ys := List.drop_append_of_le_length hle
      rw [scan_of_next (s.mono hnext ys), scan_of_next hnext, hdrop, ih _ hshort _ rfl,
        List.append_assoc]

/-- What is left of a stream that was scanned in part is scanned with what arrives later. -/
theorem scan_append_of (h : s.scan xs = (es ++ (s.scan ys).1, (s.scan ys).2)) (zs : List α) :
    s.scan (xs ++ zs) = (es ++ (s.scan (ys ++ zs)).1, (s.scan (ys ++ zs)).2) := by
  rw [scan_append xs, scan_append ys, h, List.append_assoc]

/-- Values that are all taken at once are scanned first. -/
theorem scan_cons_block (h : s.next xs = some (es, xs.length)) (ys : List α) :
    s.scan (xs ++ ys) = (es ++ (s.scan ys).1, (s.scan ys).2) := by
  have hdrop : (xs ++ ys).drop xs.length = ys := List.drop_left
  rw [scan_of_next (s.mono h ys), hdrop]

/-- There are not more events than values, if that is so of each decision. -/
theorem length_scan_le (h : ∀ {xs es n}, s.next xs = some (es, n) → es.length ≤ n)
    (xs : List α) : (s.scan xs).1.length ≤ xs.length := by
  induction hlen : xs.length using Nat.strong_induction_on generalizing xs with
  | _ len ih =>
    cases hnext : s.next xs with
    | none =>
      rw [scan_of_none hnext]
      exact Nat.zero_le _
    | some r =>
      obtain ⟨es, n⟩ := r
      obtain ⟨hpos, hle⟩ := s.bounds hnext
      have hevents := h hnext
      have hdrop : (xs.drop n).length = len - n := by rw [List.length_drop, hlen]
      have hrest := ih _ (by omega) _ hdrop
      rw [scan_of_next hnext, List.length_append]
      omega

/-- Values that are taken one by one without an event are skipped. -/
theorem scan_skip (h : ∀ x ∈ xs, ∀ ys, s.next (x :: ys) = some ([], 1)) (ys : List α) :
    s.scan (xs ++ ys) = s.scan ys := by
  induction xs with
  | nil => rfl
  | cons x xs ih =>
    obtain ⟨hx, hxs⟩ := List.forall_mem_cons.mp h
    rw [List.cons_append, scan_of_next (hx _)]
    exact ih hxs

end Scanner

/-! ## Slices -/

/-- The lists `ps` were cut out of `xs`, one behind the other, and `ys` is what is left behind
them. -/
inductive Slices {α : Type*} (xs : List α) : List (List α) → List α → Prop where
  | whole : Slices xs [] xs
  | skip {ps ys} (n : ℕ) : Slices xs ps ys → Slices xs ps (ys.drop n)
  | take {ps p ys} : Slices xs ps (p ++ ys) → Slices xs (ps ++ [p]) ys

namespace Slices

variable {α : Type*} {xs ys : List α} {ps : List (List α)}

/-- More values at the end. -/
theorem append (h : Slices xs ps ys) (zs : List α) : Slices (xs ++ zs) ps (ys ++ zs) := by
  induction h with
  | whole => exact .whole
  | @skip ps ys n _ ih =>
    rcases Nat.le_total n ys.length with hle | hge
    · have hskip := ih.skip n
      rwa [List.drop_append_of_le_length hle] at hskip
    · -- No more is dropped than there was.
      have hskip := ih.skip ys.length
      rw [List.drop_left] at hskip
      rwa [List.drop_of_length_le hge, List.nil_append]
  | @take ps p ys _ ih =>
    rw [List.append_assoc] at ih
    exact ih.take

/-- The slices do not overlap, and are in the order of the stream. -/
theorem sublist (h : Slices xs ps ys) : (ps.flatten ++ ys).Sublist xs := by
  induction h with
  | whole => exact List.Sublist.refl _
  | skip n _ ih => exact ((List.Sublist.refl _).append (List.drop_sublist n _)).trans ih
  | take _ ih =>
    rw [List.flatten_append, List.flatten_singleton, List.append_assoc]
    exact ih

end Slices

end Guillemot
