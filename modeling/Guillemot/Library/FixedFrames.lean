import Mathlib.Data.List.TakeWhile
import Mathlib.Tactic.Common

/-!
# Cutting a stream into frames of fixed length

A reader of frames of `n` symbols that begin with the symbol `start`: it drops symbols up to a
`start`, and takes `n` symbols when that many are there (`next`). `cut` is the list of all frames
that it takes of a finite stream. How the stream arrives does not matter: `reads`, which lets a
piece of it arrive before every attempt, takes the frames of `cut` in the end (`reads_eq_cut`).

On a stream that consists of frames and is read from the border of one (`next_of_frames`) the reader
takes these frames.
-/

namespace Guillemot

namespace FixedFrames

variable {α : Type*} [DecidableEq α] (start : α) (n : ℕ)

/-- The stream from its first `start` on. -/
def skip (xs : List α) : List α := xs.dropWhile (· ≠ start)

/-- One attempt to take a frame: the frame, if one was taken, and what is left. -/
def next (xs : List α) : Option (List α) × List α :=
  if n ≤ (skip start xs).length then (some ((skip start xs).take n), (skip start xs).drop n)
  else (none, skip start xs)

/-- The frames taken in at most `fuel` attempts. -/
def cutUpTo : ℕ → List α → List (List α)
  | 0, _ => []
  | fuel + 1, xs =>
    match next start n xs with
    | (some f, rest) => f :: cutUpTo fuel rest
    | (none, _) => []

/-- The frames that the reader takes of a stream. -/
def cut (xs : List α) : List (List α) := cutUpTo start n xs.length xs

/-- A reader that makes one attempt after the arrival of each piece: the frames that it takes, and
what is left. -/
def reads : List (List α) → List α → List (List α) × List α
  | [], xs => ([], xs)
  | c :: cs, xs =>
    ((next start n (xs ++ c)).1.toList ++ (reads cs (next start n (xs ++ c)).2).1,
      (reads cs (next start n (xs ++ c)).2).2)

/-! ## One attempt -/

/-- Skipping shortens. -/
theorem length_skip_le (xs : List α) : (skip start xs).length ≤ xs.length :=
  (List.dropWhile_suffix _).length_le

/-- What is left after skipping is a part of the stream up to its end. -/
theorem skip_eq_drop (xs : List α) :
    skip start xs = xs.drop (xs.length - (skip start xs).length) :=
  List.suffix_iff_eq_drop.mp (List.dropWhile_suffix _)

theorem skip_cons_self (xs : List α) : skip start (start :: xs) = start :: xs := by simp [skip]

theorem skip_cons_of_ne {x : α} (hx : x ≠ start) (xs : List α) :
    skip start (x :: xs) = skip start xs := by
  simp [skip, hx]

/-- What is left after skipping begins with `start`. -/
theorem head?_skip {xs : List α} (h : skip start xs ≠ []) :
    (skip start xs).head? = some start := by
  induction xs with
  | nil => exact absurd rfl h
  | cons x xs ih =>
    by_cases hx : x = start
    · rw [hx, skip_cons_self, List.head?_cons]
    · rw [skip_cons_of_ne start hx] at h ⊢
      exact ih h

/-- Something is left after skipping when there is a `start`. -/
theorem skip_eq_nil_iff (xs : List α) : skip start xs = [] ↔ start ∉ xs := by
  unfold skip
  rw [List.dropWhile_eq_nil_iff]
  constructor
  · intro h hmem
    simpa using h start hmem
  · intro h x hx
    simpa using fun hxs : x = start => h (hxs ▸ hx)

/-- What is skipped is skipped in a longer stream, too. -/
theorem skip_append (xs ys : List α) :
    skip start (xs ++ ys) = skip start (skip start xs ++ ys) := by
  induction xs with
  | nil => rfl
  | cons x xs ih =>
    by_cases hx : x = start
    · rw [hx, skip_cons_self]
    · rw [List.cons_append, skip_cons_of_ne start hx, skip_cons_of_ne start hx]
      exact ih

/-- A stream that begins with `start` is not skipped. -/
theorem skip_of_head {xs : List α} (h : xs.head? = some start) : skip start xs = xs := by
  cases xs with
  | nil => cases h
  | cons x xs =>
    obtain rfl : x = start := by simpa using h
    exact skip_cons_self x xs

/-- A stream from which something is left begins with `start` after skipping. -/
theorem skip_eq_append {xs : List α} (h : skip start xs ≠ []) (ys : List α) :
    skip start (xs ++ ys) = skip start xs ++ ys := by
  have hhead : (skip start xs ++ ys).head? = some start := by
    rw [List.head?_append, head?_skip start h, Option.some_or]
  rw [skip_append, skip_of_head start hhead]

section Frames

variable {start n}

/-- An attempt that takes a frame takes `n` symbols away. -/
theorem length_of_next {xs f rest : List α} (h : next start n xs = (some f, rest)) :
    f.length = n ∧ rest.length + n ≤ xs.length := by
  have hle := length_skip_le start xs
  unfold next at h
  split_ifs at h with hn
  · obtain ⟨hf, hrest⟩ := Prod.mk.inj h
    rw [← Option.some.inj hf, ← hrest, List.length_take, List.length_drop]
    omega
  · cases h

/-- A frame that is taken is taken of a longer stream, too. -/
theorem next_append_of_some (hn : 0 < n) {xs f rest : List α}
    (h : next start n xs = (some f, rest)) (ys : List α) :
    next start n (xs ++ ys) = (some f, rest ++ ys) := by
  unfold next at h
  split_ifs at h with hle
  · obtain ⟨hf, hrest⟩ := Prod.mk.inj h
    have hne : skip start xs ≠ [] := by
      intro hnil
      rw [hnil] at hle
      simp at hle
      omega
    unfold next
    rw [skip_eq_append start hne, if_pos (by rw [List.length_append]; omega),
      List.take_append_of_le_length hle, List.drop_append_of_le_length hle, hf, hrest]
  · cases h

/-- An attempt that takes no frame does not change what later ones take. -/
theorem next_append_of_none {xs rest : List α} (h : next start n xs = (none, rest))
    (ys : List α) : next start n (xs ++ ys) = next start n (rest ++ ys) := by
  unfold next at h
  split_ifs at h
  · cases h
  · obtain ⟨-, hrest⟩ := Prod.mk.inj h
    rw [next, next, skip_append, hrest]

/-! ## All frames -/

/-- The bound on the attempts does not matter when it is at least the length. -/
theorem cutUpTo_eq (hn : 0 < n) {fuel : ℕ} {xs : List α} (h : xs.length ≤ fuel) :
    cutUpTo start n fuel xs = cut start n xs := by
  -- By induction on the length of the stream, of which a frame takes `n` symbols at once.
  induction hlen : xs.length using Nat.strong_induction_on generalizing fuel xs with
  | _ len ih =>
    -- The first attempt, after which the bound is no longer there.
    have hstep : ∀ {fuel : ℕ}, xs.length ≤ fuel → cutUpTo start n fuel xs =
        match next start n xs with
        | (some f, rest) => f :: cut start n rest
        | (none, _) => [] := by
      intro fuel hfuel
      cases fuel with
      | zero =>
        obtain rfl : xs = [] := List.length_eq_zero_iff.mp (Nat.le_zero.mp hfuel)
        have hnil : next start n ([] : List α) = (none, []) := by
          have : ¬ n ≤ 0 := by omega
          simp [next, skip, this]
        rw [hnil]
        rfl
      | succ fuel =>
        unfold cutUpTo
        cases hnext : next start n xs with
        | mk taken rest =>
          cases taken with
          | none => rfl
          | some f =>
            have := (length_of_next hnext).2
            simp only
            rw [ih rest.length (by omega) (by omega) rfl]
    rw [hstep h, cut, hstep le_rfl]

/-- After a frame come those of the rest. -/
theorem cut_of_some (hn : 0 < n) {xs f rest : List α} (h : next start n xs = (some f, rest)) :
    cut start n xs = f :: cut start n rest := by
  have hlen := (length_of_next h).2
  rw [← cutUpTo_eq hn (Nat.le_succ xs.length), cutUpTo, h]
  simp only
  rw [cutUpTo_eq hn (by omega)]

/-- Where no frame is taken, there is none. -/
theorem cut_of_none (hn : 0 < n) {xs rest : List α} (h : next start n xs = (none, rest)) :
    cut start n xs = [] := by
  rw [← cutUpTo_eq hn (Nat.le_succ xs.length), cutUpTo, h]

/-- The first attempt decides on all frames. -/
theorem cut_congr (hn : 0 < n) {xs ys : List α} (h : next start n xs = next start n ys) :
    cut start n xs = cut start n ys := by
  cases hnext : next start n ys with
  | mk taken rest =>
    rw [hnext] at h
    cases taken with
    | some f => rw [cut_of_some hn h, cut_of_some hn hnext]
    | none => rw [cut_of_none hn h, cut_of_none hn hnext]

/-- What an attempt takes, and what is left for later ones. -/
theorem cut_append (hn : 0 < n) (xs ys : List α) :
    cut start n (xs ++ ys) =
      (next start n xs).1.toList ++ cut start n ((next start n xs).2 ++ ys) := by
  cases hnext : next start n xs with
  | mk taken rest =>
    cases taken with
    | some f => exact cut_of_some hn (next_append_of_some hn hnext ys)
    | none => exact cut_congr hn (next_append_of_none hnext ys)

/-- What is skipped does not matter. -/
theorem cut_skip (hn : 0 < n) (xs ys : List α) :
    cut start n (xs ++ ys) = cut start n (skip start xs ++ ys) := by
  refine cut_congr hn ?_
  unfold next
  rw [skip_append]

/-- A stream that is shorter than a frame holds none. -/
theorem cut_of_lt (hn : 0 < n) {xs : List α} (h : xs.length < n) : cut start n xs = [] := by
  cases hnext : next start n xs with
  | mk taken rest =>
    cases taken with
    | some f =>
      have := (length_of_next hnext).2
      omega
    | none => exact cut_of_none hn hnext

/-- The frames take `n` symbols each. -/
theorem length_cut_le (hn : 0 < n) (xs : List α) : (cut start n xs).length * n ≤ xs.length := by
  induction hlen : xs.length using Nat.strong_induction_on generalizing xs with
  | _ len ih =>
    cases hnext : next start n xs with
    | mk taken rest =>
      cases taken with
      | none => simp [cut_of_none hn hnext]
      | some f =>
        have hle := (length_of_next hnext).2
        have := ih rest.length (by omega) rest rfl
        rw [cut_of_some hn hnext, List.length_cons, Nat.add_mul]
        omega

/-! ## Arrival in pieces -/

/-- However the stream arrives, the frames taken so far and those still to be taken are its
frames. -/
theorem reads_append_cut (hn : 0 < n) (cs : List (List α)) (xs : List α) :
    (reads start n cs xs).1 ++ cut start n (reads start n cs xs).2 =
      cut start n (xs ++ cs.flatten) := by
  induction cs generalizing xs with
  | nil => simp [reads]
  | cons c cs ih =>
    unfold reads
    rw [List.append_assoc, ih, List.flatten_cons, ← List.append_assoc,
      cut_append hn (xs ++ c)]

/-- Without arrivals, every attempt takes the next of the frames that are left. -/
theorem cut_reads_idle (hn : 0 < n) (k : ℕ) (xs : List α) :
    cut start n (reads start n (List.replicate k []) xs).2 = (cut start n xs).drop k := by
  induction k generalizing xs with
  | zero => rfl
  | succ k ih =>
    have happ : cut start n (xs ++ []) = _ := cut_append hn xs []
    rw [List.replicate_succ, reads, List.append_nil, ih]
    rw [List.append_nil, List.append_nil] at happ
    cases hnext : next start n xs with
    | mk taken rest =>
      cases taken with
      | some f => rw [cut_of_some hn hnext, List.drop_succ_cons]
      | none =>
        -- No frame was there, and none is there later.
        rw [hnext] at happ
        have hnil := cut_of_none hn hnext
        rw [hnil] at happ ⊢
        have hrest : cut start n rest = [] := by simpa using happ.symm
        simp [hrest]

/-- The state after the arrival of two sequences of pieces. -/
theorem reads_append (cs ds : List (List α)) (xs : List α) :
    reads start n (cs ++ ds) xs =
      ((reads start n cs xs).1 ++ (reads start n ds (reads start n cs xs).2).1,
        (reads start n ds (reads start n cs xs).2).2) := by
  induction cs generalizing xs with
  | nil => rfl
  | cons c cs ih => rw [List.cons_append, reads, reads, ih, List.append_assoc]

/-- When enough attempts follow the last arrival, all frames of the stream are taken. -/
theorem reads_eq_cut (hn : 0 < n) (cs : List (List α)) (xs : List α) {k : ℕ}
    (hk : (xs ++ cs.flatten).length < n * (k + 1)) :
    (reads start n (cs ++ List.replicate k []) xs).1 = cut start n (xs ++ cs.flatten) := by
  have hall : _ = cut start n _ := reads_append_cut hn (cs ++ List.replicate k []) xs
  have hidle : cut start n _ = _ := cut_reads_idle hn k (reads start n cs xs).2
  -- Not more than `k` frames are left after the last arrival.
  have hfew : (cut start n (reads start n cs xs).2).length ≤ k := by
    have hlen : (cut start n (xs ++ cs.flatten)).length * n ≤ _ := length_cut_le hn _
    rw [← reads_append_cut hn, List.length_append] at hlen
    by_contra hlt
    have hmul : n * (k + 1) ≤ ((reads start n cs xs).1.length +
        (cut start n (reads start n cs xs).2).length) * n := by
      rw [Nat.mul_comm n]
      exact Nat.mul_le_mul_right n (by omega)
    omega
  -- So none is left after `k` more attempts.
  have hnone : cut start n (reads start n (cs ++ List.replicate k []) xs).2 = [] := by
    rw [reads_append]
    exact hidle.trans (List.drop_eq_nil_of_le hfew)
  rw [hnone, List.append_nil] at hall
  rw [hall]
  simp

/-! ## A stream of frames -/

/-- A list of `n` symbols that begins with `start`. -/
def IsFrame (start : α) (n : ℕ) (f : List α) : Prop := f.length = n ∧ f.head? = some start

/-- A frame at the start of the stream is taken. -/
theorem next_frame (f ys : List α) (hf : IsFrame start n f) :
    next start n (f ++ ys) = (some f, ys) := by
  obtain ⟨hlen, hhead⟩ := hf
  have hskip : skip start (f ++ ys) = f ++ ys := by
    refine skip_of_head start ?_
    rw [List.head?_append, hhead]
    rfl
  unfold next
  rw [hskip, if_pos (by rw [List.length_append]; omega), ← hlen, List.take_left,
    List.drop_left]

omit [DecidableEq α] in
/-- The first `n` symbols of a stream of frames are its first frame. -/
theorem split_of_frames (hn : 0 < n) {fs : List (List α)} (hfs : ∀ f ∈ fs, IsFrame start n f)
    {xs ys : List α} (h : xs ++ ys = fs.flatten) (hlen : xs.length = n) :
    ∃ fs', fs = xs :: fs' ∧ ys = fs'.flatten := by
  cases fs with
  | nil =>
    have hnil : xs = [] := (List.append_eq_nil_iff.mp h).1
    rw [hnil] at hlen
    simp at hlen
    omega
  | cons f fs =>
    have hf := hfs f (by simp)
    obtain ⟨rfl, rfl⟩ := List.append_inj h (hlen.trans hf.1.symm)
    exact ⟨fs, rfl, rfl⟩

/-- On a part of a stream of frames, the reader takes the first one as soon as all of it is
there. -/
theorem next_of_frames (hn : 0 < n) {fs : List (List α)} (hfs : ∀ f ∈ fs, IsFrame start n f)
    {xs ys : List α} (h : xs ++ ys = fs.flatten) :
    (xs.length < n ∧ next start n xs = (none, xs)) ∨
      ∃ f fs' rest, fs = f :: fs' ∧ next start n xs = (some f, rest) ∧
        rest ++ ys = fs'.flatten := by
  rcases Nat.lt_or_ge xs.length n with hlt | hle
  · -- Nothing is skipped of a part of the first frame.
    left
    refine ⟨hlt, ?_⟩
    have hskip : skip start xs = xs := by
      cases xs with
      | nil => rfl
      | cons x xs =>
        cases fs with
        | nil => simp at h
        | cons f fs =>
          obtain ⟨hflen, hhead⟩ := hfs f (by simp)
          refine skip_of_head start ?_
          have hhead' := congrArg List.head? h
          rw [List.flatten_cons, List.head?_append (l := f), hhead] at hhead'
          simpa using hhead'
    unfold next
    rw [hskip, if_neg (by omega)]
  · -- The first `n` symbols are the first frame.
    right
    have hsplit := List.take_append_drop n xs
    have hlen : (xs.take n).length = n := by rw [List.length_take]; omega
    rw [← hsplit, List.append_assoc] at h
    obtain ⟨fs', rfl, hrest⟩ := split_of_frames hn hfs h hlen
    have hnext := next_frame (xs.take n) (xs.drop n) (hfs _ (by simp))
    rw [hsplit] at hnext
    exact ⟨xs.take n, fs', xs.drop n, rfl, hnext, hrest⟩

end Frames

end FixedFrames

end Guillemot
