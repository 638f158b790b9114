import Mathlib.Data.List.Basic
import Mathlib.Tactic.Common

/-!
# Scanning a stream with a window

A window of `n` symbols moves over a stream. `accept` says what a window holds, if anything: then
the window moves on behind it, and otherwise by one symbol. `scan` is this greedy scan of a whole
stream, with the symbols that are left at the end.

`feed` is the reader that does the same as the symbols arrive, with the window that it has filled so
far as its state. However the stream is cut, the reader accepts what the scan does and is left with
the same symbols (`feeds_eq_scan`).
-/

namespace Guillemot

namespace Windows

variable {α β : Type*} (n : ℕ) (accept : List α → Option β)

/-- The scan with at most `fuel` windows. -/
def scanUpTo : ℕ → List α → List β × List α
  | 0, xs => ([], xs)
  | fuel + 1, xs =>
    if xs.length < n then ([], xs)
    else
      match accept (xs.take n) with
      | some x => (x :: (scanUpTo fuel (xs.drop n)).1, (scanUpTo fuel (xs.drop n)).2)
      | none => scanUpTo fuel xs.tail

/-- The greedy scan of a stream: what it accepts, and what is left. -/
def scan (xs : List α) : List β × List α := scanUpTo n accept (xs.length + 1) xs

/-- The reader whose window holds `buf` takes the symbol `b`: its window afterwards, and what it
accepts. -/
def feed (buf : List α) (b : α) : List α × Option β :=
  if (buf ++ [b]).length = n then
    match accept (buf ++ [b]) with
    | some x => ([], some x)
    | none => ((buf ++ [b]).tail, none)
  else (buf ++ [b], none)

/-- The reader takes symbols one after the other: what it accepts, and its window afterwards. -/
def feeds : List α → List α → List β × List α
  | [], buf => ([], buf)
  | b :: bs, buf =>
    ((feed n accept buf b).2.toList ++ (feeds bs (feed n accept buf b).1).1,
      (feeds bs (feed n accept buf b).1).2)

/-! ## The scan -/

variable {n} {accept}

/-- A bound above the length of the stream does not matter. -/
theorem scanUpTo_of_lt (hn : 0 < n) {fuel : ℕ} {xs : List α} (h : xs.length < fuel) :
    scanUpTo n accept fuel xs = scan n accept xs := by
  unfold scan
  -- Both bounds are above the length, and every window shortens the stream.
  suffices hall : ∀ f₁ f₂ (xs : List α), xs.length < f₁ → xs.length < f₂ →
      scanUpTo n accept f₁ xs = scanUpTo n accept f₂ xs from hall _ _ xs h (Nat.lt_succ_self _)
  intro f₁
  induction f₁ with
  | zero => omega
  | succ f₁ ih =>
    intro f₂ xs h₁ h₂
    obtain ⟨f₂, rfl⟩ : ∃ f, f₂ = f + 1 := ⟨f₂ - 1, by omega⟩
    unfold scanUpTo
    split_ifs with hlen
    · rfl
    · have hdrop := ih f₂ (xs.drop n) (by rw [List.length_drop]; omega)
        (by rw [List.length_drop]; omega)
      have htail := ih f₂ xs.tail (by rw [List.length_tail]; omega)
        (by rw [List.length_tail]; omega)
      rw [hdrop, htail]

/-- Nothing is accepted where no window fits. -/
theorem scan_of_lt {xs : List α} (h : xs.length < n) : scan n accept xs = ([], xs) := by
  simp [scan, scanUpTo, h]

/-- The scan goes on behind a window that is accepted. -/
theorem scan_of_some (hn : 0 < n) {xs : List α} (h : n ≤ xs.length) {x : β}
    (hx : accept (xs.take n) = some x) :
    scan n accept xs = (x :: (scan n accept (xs.drop n)).1, (scan n accept (xs.drop n)).2) := by
  have hrest : scanUpTo n accept xs.length (xs.drop n) = scan n accept (xs.drop n) :=
    scanUpTo_of_lt hn (by rw [List.length_drop]; omega)
  conv_lhs => rw [scan, scanUpTo]
  rw [if_neg (by omega), hx, hrest]

/-- The scan drops one symbol when the window is not accepted. -/
theorem scan_of_none (hn : 0 < n) {xs : List α} (h : n ≤ xs.length)
    (hx : accept (xs.take n) = none) : scan n accept xs = scan n accept xs.tail := by
  have hrest : scanUpTo n accept xs.length xs.tail = scan n accept xs.tail :=
    scanUpTo_of_lt hn (by rw [List.length_tail]; omega)
  conv_lhs => rw [scan, scanUpTo]
  rw [if_neg (by omega), hx, hrest]

/-! ## The reader -/

/-- The window of the reader never stays full. -/
theorem length_feed_lt (hn : 0 < n) {buf : List α} (h : buf.length < n) (b : α) :
    (feed n accept buf b).1.length < n := by
  unfold feed
  have hlen : (buf ++ [b]).length = buf.length + 1 := by simp
  split_ifs with hfull
  · cases accept (buf ++ [b]) with
    | none =>
      rw [List.length_tail]
      omega
    | some x => exact hn
  · show (buf ++ [b]).length < n
    omega

/-- One symbol takes the reader as far as the scan gets with its window and this symbol. -/
theorem scan_feed (hn : 0 < n) (buf : List α) (b : α) (bs : List α) :
    scan n accept (buf ++ b :: bs) =
      ((feed n accept buf b).2.toList ++ (scan n accept ((feed n accept buf b).1 ++ bs)).1,
        (scan n accept ((feed n accept buf b).1 ++ bs)).2) := by
  have hsplit : buf ++ b :: bs = (buf ++ [b]) ++ bs := by simp
  unfold feed
  split_ifs with hfull
  · -- The window is full, and it is the first one of the stream.
    have hlen : n ≤ ((buf ++ [b]) ++ bs).length := by
      rw [List.length_append]
      omega
    have htake : ((buf ++ [b]) ++ bs).take n = buf ++ [b] := List.take_left' hfull
    rw [hsplit]
    cases hx : accept (buf ++ [b]) with
    | some x =>
      have hdrop : ((buf ++ [b]) ++ bs).drop n = bs := List.drop_left' hfull
      rw [scan_of_some hn hlen (htake.symm ▸ hx), hdrop]
      simp
    | none =>
      have htail : ((buf ++ [b]) ++ bs).tail = (buf ++ [b]).tail ++ bs :=
        List.tail_append_of_ne_nil (by simp)
      rw [scan_of_none hn hlen (htake.symm ▸ hx), htail]
      simp
  · rw [hsplit]
    simp

/-- The reader accepts what the scan of the whole stream does, and is left with the same symbols. -/
theorem feeds_eq_scan (hn : 0 < n) (bs : List α) {buf : List α} (h : buf.length < n) :
    feeds n accept bs buf = scan n accept (buf ++ bs) := by
  induction bs generalizing buf with
  | nil => rw [List.append_nil, scan_of_lt h, feeds]
  | cons b bs ih => rw [scan_feed hn, feeds, ih (length_feed_lt hn h b)]

/-- From an empty window on, the reader accepts what the scan does. -/
theorem feeds_nil (hn : 0 < n) (bs : List α) : feeds n accept bs [] = scan n accept bs := by
  rw [feeds_eq_scan hn bs (by simpa using hn), List.nil_append]

/-- The reader takes a stream in two pieces as it takes it in one. -/
theorem feeds_append (bs cs buf : List α) :
    feeds n accept (bs ++ cs) buf =
      ((feeds n accept bs buf).1 ++ (feeds n accept cs (feeds n accept bs buf).2).1,
        (feeds n accept cs (feeds n accept bs buf).2).2) := by
  induction bs generalizing buf with
  | nil => rfl
  | cons b bs ih => simp only [List.cons_append, feeds, ih, List.append_assoc]

end Windows

end Guillemot
