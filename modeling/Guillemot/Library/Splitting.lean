import Mathlib.Data.List.Infix
import Mathlib.Tactic.Common

/-!
# Splitting at a separator

`split sep xs` cuts a list at every occurrence of the list `sep`, from left to right and without
overlaps, as the function of this name does on strings in most languages. A list in which `sep` does
not occur is one piece (`split_of_not_infix`), and a piece behind which the first occurrence begins
is split off (`split_append`). `split_lines` says what becomes of a text that is written as lines.
-/

namespace Guillemot

namespace Splitting

variable {α : Type*} [DecidableEq α]

/-- The pieces of a list, after its first `skip` elements, which belong to a separator. -/
def splitFrom (sep : List α) : ℕ → List α → List (List α)
  | _, [] => [[]]
  | skip + 1, _ :: xs => splitFrom sep skip xs
  | 0, x :: xs =>
    if sep <+: x :: xs then [] :: splitFrom sep (sep.length - 1) xs
    else (splitFrom sep 0 xs).modifyHead (x :: ·)

/-- The pieces of a list between the occurrences of `sep`. -/
def split (sep xs : List α) : List (List α) := splitFrom sep 0 xs

variable {sep : List α}

theorem splitFrom_drop (skip : ℕ) (xs : List α) :
    splitFrom sep skip xs = split sep (xs.drop skip) := by
  induction xs generalizing skip with
  | nil => cases skip <;> rfl
  | cons x xs ih =>
    cases skip with
    | zero => rfl
    | succ skip => exact ih skip

theorem split_of_not_prefix_cons {x : α} {xs : List α} (h : ¬ sep <+: x :: xs) :
    split sep (x :: xs) = (split sep xs).modifyHead (x :: ·) := by
  unfold split
  rw [splitFrom, if_neg h]

/-- At a separator a piece ends. -/
theorem split_separator (hsep : sep ≠ []) (xs : List α) :
    split sep (sep ++ xs) = [] :: split sep xs := by
  cases sep with
  | nil => exact absurd rfl hsep
  | cons s sep =>
    have hstarts : s :: sep <+: s :: (sep ++ xs) := List.prefix_append (s :: sep) xs
    have hlen : (s :: sep).length - 1 = sep.length := rfl
    rw [List.cons_append, split, splitFrom, if_pos hstarts, splitFrom_drop, hlen, List.drop_left]

/-- Up to the first separator there is one piece. -/
theorem split_append (hsep : sep ≠ []) {piece : List α} (h : ¬ sep <:+: piece ++ sep.dropLast)
    (xs : List α) : split sep (piece ++ (sep ++ xs)) = piece :: split sep xs := by
  induction piece with
  | nil => exact split_separator hsep xs
  | cons x piece ih =>
    have htail : ¬ sep <:+: piece ++ sep.dropLast := fun hwithin =>
      h (hwithin.trans (List.suffix_cons x _).isInfix)
    have hhead : ¬ sep <+: x :: (piece ++ (sep ++ xs)) := by
      -- A separator that begins at `x` would end before the one behind the piece does.
      intro hstarts
      refine h (List.IsPrefix.isInfix ?_)
      have hlen : sep.length ≤ (x :: piece ++ sep.dropLast).length := by
        have := List.length_pos_of_ne_nil hsep
        simp only [List.cons_append, List.length_cons, List.length_append, List.length_dropLast]
        omega
      have hwhole : x :: piece ++ sep.dropLast <+: x :: (piece ++ (sep ++ xs)) := by
        rw [← List.cons_append, List.prefix_append_right_inj]
        exact (List.dropLast_prefix sep).trans (List.prefix_append sep xs)
      exact List.prefix_of_prefix_length_le hstarts hwhole hlen
    rw [List.cons_append, split_of_not_prefix_cons hhead, ih htail]
    rfl

/-- A list without a separator is one piece. -/
theorem split_of_not_infix {xs : List α} (h : ¬ sep <:+: xs) : split sep xs = [xs] := by
  induction xs with
  | nil => rfl
  | cons x xs ih =>
    have hhead : ¬ sep <+: x :: xs := fun hstarts => h hstarts.isInfix
    have htail : ¬ sep <:+: xs := fun hwithin => h (hwithin.trans (List.suffix_cons x xs).isInfix)
    rw [split_of_not_prefix_cons hhead, ih htail]
    rfl

/-! ## Texts made of lines

A text is written as lines with `a` before each of them, and split at `a` followed by `b`. A line
that begins with `b` then begins a piece, and the other lines go on with the one before. -/

section Lines

variable {a b : α}

/-- The pieces of lines, where `piece` has begun. -/
def groups (a b : α) : List α → List (List α) → List (List α)
  | piece, [] => [piece]
  | piece, [] :: ls => groups a b (piece ++ [a]) ls
  | piece, (x :: l) :: ls =>
    if x = b then piece :: groups a b l ls else groups a b (piece ++ a :: x :: l) ls

theorem groups_of_ne {l : List α} (hl : l.head? ≠ some b) (piece : List α) (ls : List (List α)) :
    groups a b piece (l :: ls) = groups a b (piece ++ a :: l) ls := by
  cases l with
  | nil => rfl
  | cons x l =>
    have hx : x ≠ b := fun h => hl (by rw [List.head?_cons, h])
    rw [groups, if_neg hx]

theorem groups_cons_cons (piece l : List α) (ls : List (List α)) :
    groups a b piece ((b :: l) :: ls) = piece :: groups a b l ls := by
  rw [groups, if_pos rfl]

/-- At a line that begins with `b` the lines before are cut off. -/
theorem groups_append (piece : List α) (ls : List (List α)) (l : List α) (rest : List (List α)) :
    groups a b piece (ls ++ (b :: l) :: rest) = groups a b piece ls ++ groups a b l rest := by
  induction ls generalizing piece with
  | nil => exact groups_cons_cons piece l rest
  | cons k ls ih =>
    by_cases hk : k.head? = some b
    · obtain ⟨k, rfl⟩ : ∃ k', k = b :: k' := List.head?_eq_some_iff.mp hk
      rw [List.cons_append, groups_cons_cons, groups_cons_cons, ih, List.cons_append]
    · rw [List.cons_append, groups_of_ne hk, groups_of_ne hk, ih]

/-- Lines of which none begins with `b` make one piece. -/
theorem groups_of_forall {ls : List (List α)} (h : ∀ l ∈ ls, l.head? ≠ some b)
    (piece : List α) : groups a b piece ls = [piece ++ ls.flatMap (a :: ·)] := by
  induction ls generalizing piece with
  | nil => rw [List.flatMap_nil, List.append_nil, groups]
  | cons l ls ih =>
    rw [groups_of_ne (h l List.mem_cons_self), ih fun k hk => h k (List.mem_cons_of_mem _ hk),
      List.flatMap_cons, List.append_assoc]

omit [DecidableEq α] in
/-- A pair in a list is on one of the sides of any element. -/
theorem pair_infix_append {c : α} {xs ys : List α} (h : [a, b] <:+: xs ++ c :: ys) :
    [a, b] <:+: xs ++ [c] ∨ [a, b] <:+: c :: ys := by
  induction xs with
  | nil => exact .inr h
  | cons x xs ih =>
    rcases List.infix_cons_iff.mp h with hstarts | hwithin
    · refine .inl (List.IsPrefix.isInfix ?_)
      obtain ⟨rfl, htail⟩ := List.cons_prefix_cons.mp hstarts
      cases xs with
      | nil =>
        obtain ⟨rfl, -⟩ := List.cons_prefix_cons.mp htail
        exact List.prefix_refl _
      | cons y xs =>
        obtain ⟨rfl, -⟩ := List.cons_prefix_cons.mp htail
        exact ⟨xs ++ [c], rfl⟩
    · exact (ih hwithin).imp_left fun h => h.trans (List.suffix_cons x _).isInfix

omit [DecidableEq α] in
theorem not_infix_pair {l : List α} (h : a ∉ l) : ¬ [a, b] <:+: l ++ [a] := by
  induction l with
  | nil =>
    intro hwithin
    have := hwithin.length_le
    simp at this
  | cons x l ih =>
    rw [List.mem_cons, not_or] at h
    obtain ⟨hx, hl⟩ := h
    intro hwithin
    rcases List.infix_cons_iff.mp hwithin with hstarts | hwithin
    · exact hx (List.cons_prefix_cons.mp hstarts).1
    · exact ih hl hwithin

/-- A text of lines is split into its groups. -/
theorem split_lines (hab : a ≠ b) (ls : List (List α)) (hls : ∀ l ∈ ls, a ∉ l) (piece : List α)
    (hpiece : ¬ [a, b] <:+: piece ++ [a]) :
    split [a, b] (piece ++ ls.flatMap (a :: ·)) = groups a b piece ls := by
  induction ls generalizing piece with
  | nil =>
    rw [List.flatMap_nil, List.append_nil]
    exact split_of_not_infix fun h => hpiece (h.trans (List.prefix_append piece [a]).isInfix)
  | cons l ls ih =>
    have hl : a ∉ l := hls l List.mem_cons_self
    have hrest : ∀ k ∈ ls, a ∉ k := fun k hk => hls k (List.mem_cons_of_mem _ hk)
    by_cases hhead : l.head? = some b
    · obtain ⟨l, rfl⟩ : ∃ l', l = b :: l' := List.head?_eq_some_iff.mp hhead
      have htail : a ∉ l := fun h => hl (List.mem_cons_of_mem _ h)
      rw [groups_cons_cons, ← ih hrest l (not_infix_pair htail)]
      exact split_append (List.cons_ne_nil _ _) hpiece (l ++ ls.flatMap (a :: ·))
    · rw [groups_of_ne hhead, ← ih hrest (piece ++ a :: l), List.flatMap_cons, List.append_assoc]
      rw [List.append_assoc, List.cons_append]
      intro hwithin
      rcases pair_infix_append hwithin with h | h
      · exact hpiece h
      · rcases List.infix_cons_iff.mp h with hstarts | h
        · -- The line would begin with `b`, or there would be no line.
          obtain ⟨c, hc⟩ := (List.cons_prefix_cons.mp hstarts).2
          cases l with
          | nil => exact hab (List.cons.inj hc).1.symm
          | cons x l => exact hhead (by rw [List.head?_cons, ← (List.cons.inj hc).1])
        · exact not_infix_pair hl h

/-- Every piece is one line, or the piece that had begun, with other lines behind it. -/
theorem mem_groups {piece g : List α} {ls : List (List α)} (hg : g ∈ groups a b piece ls) :
    ∃ (head : List α) (ks : List (List α)),
      g = head ++ ks.flatMap (a :: ·) ∧ (head = piece ∨ b :: head ∈ ls) := by
  induction ls generalizing piece with
  | nil =>
    obtain rfl := List.mem_singleton.mp hg
    exact ⟨g, [], (List.append_nil g).symm, .inl rfl⟩
  | cons l ls ih =>
    by_cases hl : l.head? = some b
    · obtain ⟨l, rfl⟩ : ∃ l', l = b :: l' := List.head?_eq_some_iff.mp hl
      rw [groups_cons_cons] at hg
      rcases List.mem_cons.mp hg with rfl | hg
      · exact ⟨g, [], (List.append_nil g).symm, .inl rfl⟩
      · obtain ⟨head, ks, hks, hhead | hhead⟩ := ih hg
        · exact ⟨head, ks, hks, .inr (by rw [hhead]; exact List.mem_cons_self)⟩
        · exact ⟨head, ks, hks, .inr (List.mem_cons_of_mem _ hhead)⟩
    · rw [groups_of_ne hl] at hg
      obtain ⟨head, ks, hks, hhead | hhead⟩ := ih hg
      · refine ⟨piece, l :: ks, ?_, .inl rfl⟩
        rw [hks, hhead, List.flatMap_cons, List.append_assoc]
      · exact ⟨head, ks, hks, .inr (List.mem_cons_of_mem _ hhead)⟩

omit [DecidableEq α] in
/-- A prefix without `a` is one of the first line. -/
theorem prefix_of_prefix_lines {w l : List α} {ks : List (List α)} (hw : a ∉ w)
    (h : w <+: l ++ ks.flatMap (a :: ·)) : w <+: l := by
  rcases List.prefix_or_prefix_of_prefix h (List.prefix_append l _) with hshort | ⟨w', rfl⟩
  · exact hshort
  · rw [List.prefix_append_right_inj] at h
    cases ks with
    | nil =>
      rw [List.flatMap_nil, List.prefix_nil] at h
      rw [h, List.append_nil]
    | cons k ks =>
      cases w' with
      | nil => rw [List.append_nil]
      | cons c w' =>
        obtain ⟨rfl, -⟩ := List.cons_prefix_cons.mp h
        exact absurd (List.mem_append_right l List.mem_cons_self) hw

end Lines

/-! ## Splitting at single elements -/

section Single

omit [DecidableEq α]

variable {p : α → Bool}

/-- A piece has only elements of the list. -/
theorem mem_of_mem_splitOnP {xs piece : List α} {c : α} (hpiece : piece ∈ xs.splitOnP p)
    (hc : c ∈ piece) : c ∈ xs := by
  induction xs generalizing piece with
  | nil =>
    rw [List.splitOnP_nil, List.mem_singleton] at hpiece
    rwa [hpiece] at hc
  | cons x xs ih =>
    obtain ⟨first, rest, hsplit⟩ := List.exists_cons_of_ne_nil (List.splitOnP_ne_nil p xs)
    rw [List.splitOnP_cons_eq_if_modifyHead, hsplit] at hpiece
    rw [hsplit] at ih
    split_ifs at hpiece with hx
    · rcases List.mem_cons.mp hpiece with rfl | hpiece
      · cases hc
      · exact List.mem_cons_of_mem x (ih hpiece hc)
    · rw [List.modifyHead_cons] at hpiece
      rcases List.mem_cons.mp hpiece with rfl | hpiece
      · rcases List.mem_cons.mp hc with rfl | hc
        · exact List.mem_cons_self
        · exact List.mem_cons_of_mem x (ih List.mem_cons_self hc)
      · exact List.mem_cons_of_mem x (ih (List.mem_cons_of_mem _ hpiece) hc)

/-- What stands before the first separator begins the first piece. -/
theorem splitOnP_append_of_forall {w : List α} (hw : ∀ x ∈ w, p x = false) (xs : List α) :
    ∃ g gs, (w ++ xs).splitOnP p = (w ++ g) :: gs := by
  induction w with
  | nil => exact List.exists_cons_of_ne_nil (List.splitOnP_ne_nil p xs)
  | cons x w ih =>
    obtain ⟨g, gs, hsplit⟩ := ih fun y hy => hw y (List.mem_cons_of_mem x hy)
    refine ⟨g, gs, ?_⟩
    rw [List.cons_append, List.splitOnP_cons_eq_if_modifyHead, hw x List.mem_cons_self, hsplit]
    rfl

/-- A list of separators only has no pieces but empty ones. -/
theorem splitOnP_of_forall {xs : List α} (h : ∀ x ∈ xs, p x = true) :
    ∀ piece ∈ xs.splitOnP p, piece = [] := by
  induction xs with
  | nil =>
    rw [List.splitOnP_nil]
    exact fun piece hpiece => List.mem_singleton.mp hpiece
  | cons x xs ih =>
    rw [List.splitOnP_cons_eq_if_modifyHead, if_pos (h x List.mem_cons_self)]
    intro piece hpiece
    rcases List.mem_cons.mp hpiece with rfl | hpiece
    · rfl
    · exact ih (fun y hy => h y (List.mem_cons_of_mem x hy)) piece hpiece

/-- Two pieces mean one separator. -/
theorem splitOn_eq_pair_iff [BEq α] [LawfulBEq α] {a : α} {xs left right : List α} :
    xs.splitOn a = [left, right] ↔ xs = left ++ a :: right ∧ a ∉ left ∧ a ∉ right := by
  -- A list with a separator has more than one piece.
  have hlong : ∀ ys : List α, (ys.splitOn a).length = 1 → a ∉ ys := by
    intro ys hlen hmem
    obtain ⟨s, t, rfl⟩ := List.append_of_mem hmem
    have hs := List.length_pos_of_ne_nil (List.splitOn_ne_nil a s)
    have ht := List.length_pos_of_ne_nil (List.splitOn_ne_nil a t)
    rw [List.splitOn_append_cons_self, List.length_append] at hlen
    omega
  constructor
  · intro hsplit
    have hxs : xs = left ++ a :: right := by
      have hjoined : [a].intercalate (xs.splitOn a) = xs := List.intercalate_splitOn a
      rw [hsplit] at hjoined
      simpa [List.intercalate] using hjoined.symm
    have hlen : (xs.splitOn a).length = 2 := by rw [hsplit]; rfl
    rw [hxs, List.splitOn_append_cons_self, List.length_append] at hlen
    have hl := List.length_pos_of_ne_nil (List.splitOn_ne_nil a left)
    have hr := List.length_pos_of_ne_nil (List.splitOn_ne_nil a right)
    exact ⟨hxs, hlong left (by omega), hlong right (by omega)⟩
  · rintro ⟨rfl, hl, hr⟩
    rw [List.splitOn_append_cons_self, List.splitOn_eq_singleton hl, List.splitOn_eq_singleton hr]
    rfl

/-- The pieces of a text with a separator before every line are the lines, after an empty one. -/
theorem splitOn_lines [BEq α] [LawfulBEq α] {a : α} {ls : List (List α)}
    (hls : ∀ l ∈ ls, a ∉ l) : (ls.flatMap (a :: ·)).splitOn a = [] :: ls := by
  cases ls with
  | nil => rfl
  | cons l ls =>
    have hlines : ((l :: ls).flatMap (a :: ·)) = [a].intercalate ([] :: l :: ls) := by
      clear hls
      induction ls generalizing l with
      | nil => simp [List.intercalate]
      | cons k ls ih =>
        have := ih k
        simp only [List.flatMap_cons, List.intercalate, List.intersperse] at this ⊢
        rw [this]
        simp
    rw [hlines, List.splitOn_intercalate a ?_ (List.cons_ne_nil _ _)]
    intro k hk
    rcases List.mem_cons.mp hk with rfl | hk
    · exact List.not_mem_nil
    · exact hls k hk

end Single

end Splitting

end Guillemot
