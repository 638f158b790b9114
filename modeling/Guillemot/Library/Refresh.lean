import Mathlib.Data.List.Destutter
import Mathlib.Tactic.Common

/-!
# Publishing on change and in regular intervals

A publisher that is called with a value now and then publishes it if it differs from the value that
was published last, or if its timer has run out; then it starts the timer again. A call looks at the
clock twice: when it asks the timer, and when it starts it.

What was published is, but for repetitions, what the publisher was called with; a repetition comes
no sooner than the period of the timer, and a call leaves the last publication younger than that
(`run_spec`).
-/

namespace Guillemot

/-- A publisher: the value that is stored, the time when its timer runs out, and what it published,
with the times when the timer was started. -/
structure Refresher (α : Type*) where
  stored : α
  endTime : ℕ
  published : List (α × ℕ)

namespace Refresher

variable {α : Type*}

/-- A call: its value, and the two times that it reads. -/
structure Call (α : Type*) where
  value : α
  checked : ℕ
  started : ℕ

variable [DecidableEq α] (period : ℕ)

/-- A publisher whose timer is started, with the value that counts as published. -/
def start (x : α) (now : ℕ) : Refresher α := ⟨x, now + period, []⟩

/-- A call of the publisher. -/
def call (r : Refresher α) (c : Call α) : Refresher α :=
  if r.stored ≠ c.value ∨ r.endTime ≤ c.checked then
    ⟨c.value, c.started + period, r.published ++ [(c.value, c.started)]⟩
  else r

/-- Some calls, one after the other. -/
def run (r : Refresher α) (cs : List (Call α)) : Refresher α := cs.foldl (call period) r

/-- Values without their repetitions. -/
def changes (xs : List α) : List α := xs.destutter (· ≠ ·)

theorem destutter'_concat (z : α) (xs : List α) (y x : α) :
    (xs ++ [y] ++ [x]).destutter' (· ≠ ·) z =
      if y = x then (xs ++ [y]).destutter' (· ≠ ·) z
      else (xs ++ [y]).destutter' (· ≠ ·) z ++ [x] := by
  induction xs generalizing z with
  | nil =>
    simp only [List.nil_append, List.cons_append, List.destutter'_cons, List.destutter'_nil]
    split_ifs <;> simp_all
  | cons w xs ih =>
    simp only [List.cons_append, List.destutter'_cons] at ih ⊢
    rw [ih, ih]
    split_ifs <;> rfl

/-- Behind a value, the same value is a repetition, and another one is not. -/
theorem changes_concat (xs : List α) (y x : α) :
    changes (xs ++ [y] ++ [x]) =
      if y = x then changes (xs ++ [y]) else changes (xs ++ [y]) ++ [x] := by
  cases xs with
  | nil =>
    show List.destutter' (· ≠ ·) y [x] = if y = x then [y] else [y] ++ [x]
    rw [List.destutter'_cons]
    by_cases h : y = x
    · rw [if_neg (not_not.mpr h), if_pos h]
      rfl
    · rw [if_pos h, if_neg h]
      rfl
  | cons z xs => exact destutter'_concat z xs y x

/-- What was published before the calls too: the value that the publisher was started with. -/
def log (x : α) (now : ℕ) (r : Refresher α) : List (α × ℕ) := (x, now) :: r.published

/-- What the publisher keeps over its calls, with the values that it was called with. -/
structure Kept (x : α) (now : ℕ) (values : List α) (r : Refresher α) : Prop where
  changes : changes ((r.log x now).map Prod.fst) = changes (x :: values)
  chain : (r.log x now).IsChain fun p q => p.1 ≠ q.1 ∨ p.2 + period ≤ q.2
  stored : ∃ before last, r.log x now = before ++ [(r.stored, last)] ∧ r.endTime = last + period
  called : ∃ before, x :: values = before ++ [r.stored]

variable {x : α} {now : ℕ} {values : List α} {r : Refresher α} {c : Call α}

theorem kept_start (x : α) (now : ℕ) : Kept period x now [] (start period x now) where
  changes := rfl
  chain := .singleton _
  stored := ⟨[], now, rfl, rfl⟩
  called := ⟨[], rfl⟩

/-- A call publishes its value, or it was stored already. -/
theorem call_cases (r : Refresher α) (c : Call α) :
    (r.call period c = ⟨c.value, c.started + period, r.published ++ [(c.value, c.started)]⟩ ∧
        (r.stored ≠ c.value ∨ r.endTime ≤ c.checked)) ∨
      (r.call period c = r ∧ r.stored = c.value ∧ c.checked < r.endTime) := by
  unfold call
  by_cases h : r.stored ≠ c.value ∨ r.endTime ≤ c.checked
  · exact .inl ⟨if_pos h, h⟩
  · obtain ⟨hsame, hlate⟩ := not_or.mp h
    exact .inr ⟨if_neg h, not_not.mp hsame, Nat.lt_of_not_le hlate⟩

theorem call_stored (r : Refresher α) (c : Call α) : (r.call period c).stored = c.value := by
  rcases call_cases period r c with ⟨heq, -⟩ | ⟨heq, hsame, -⟩
  · rw [heq]
  · rw [heq, hsame]

variable {period}

/-- A call keeps it. -/
theorem Kept.call (h : Kept period x now values r) (hclock : c.checked ≤ c.started) :
    Kept period x now (values ++ [c.value]) (r.call period c) := by
  obtain ⟨before, last, hlog, hend⟩ := h.stored
  obtain ⟨called, hcalled⟩ := h.called
  have hvalues : Refresher.changes (x :: (values ++ [c.value])) =
      if r.stored = c.value then Refresher.changes (x :: values)
      else Refresher.changes (x :: values) ++ [c.value] := by
    rw [← List.cons_append, hcalled]
    exact changes_concat called r.stored c.value
  rcases call_cases period r c with ⟨heq, hwhy⟩ | ⟨heq, hsame, -⟩
  · have hnext : (r.call period c).log x now = r.log x now ++ [(c.value, c.started)] := by
      rw [heq]
      rfl
    refine ⟨?_, ?_, ?_, ?_⟩
    · have hold := h.changes
      rw [hlog, List.map_append, List.map_singleton] at hold
      rw [hnext, hlog, hvalues, List.map_append, List.map_append, List.map_singleton,
        List.map_singleton, changes_concat, hold]
    · rw [hnext, List.isChain_append]
      refine ⟨h.chain, .singleton _, fun p hp q hq => ?_⟩
      obtain rfl : (c.value, c.started) = q := by simpa using hq
      rw [hlog, List.getLast?_concat] at hp
      obtain rfl : (r.stored, last) = p := by simpa using hp
      exact hwhy.imp id fun hover => by
        show last + period ≤ c.started
        omega
    · rw [hnext, heq]
      exact ⟨r.log x now, c.started, rfl, rfl⟩
    · rw [heq]
      exact ⟨x :: values, rfl⟩
  · refine ⟨?_, ?_, ?_, ?_⟩
    · rw [heq, hvalues, if_pos hsame]
      exact h.changes
    · rw [heq]
      exact h.chain
    · rw [heq]
      exact ⟨before, last, hlog, hend⟩
    · rw [heq, hsame]
      exact ⟨x :: values, rfl⟩

/-- What some calls publish: their values but for repetitions, equal values no closer to each other
than the period, and behind the last call its value is published, and it was published within the
period before the call. -/
theorem run_spec (hperiod : 0 < period) (x : α) (now : ℕ) (cs : List (Call α))
    (hclock : ∀ c ∈ cs, c.checked ≤ c.started) :
    let entries := ((start period x now).run period cs).log x now
    changes (entries.map Prod.fst) = changes (x :: cs.map Call.value) ∧
      (entries.IsChain fun p q => p.1 ≠ q.1 ∨ p.2 + period ≤ q.2) ∧
      ∀ c ∈ cs.getLast?, ∃ before last,
        entries = before ++ [(c.value, last)] ∧ c.checked < last + period := by
  have hkept : ∀ (cs : List (Call α)), (∀ c ∈ cs, c.checked ≤ c.started) →
      Kept period x now (cs.map Call.value) ((start period x now).run period cs) := by
    intro cs
    induction cs using List.reverseRecOn with
    | nil => exact fun _ => kept_start period x now
    | append_singleton cs c ih =>
      intro hclock
      have hold := ih fun c hc => hclock c (List.mem_append_left _ hc)
      have hone := hold.call (hclock c (List.mem_append_right _ (List.mem_singleton_self c)))
      rw [List.map_append, List.map_singleton, run, List.foldl_append]
      exact hone
  have hall := hkept cs hclock
  refine ⟨hall.changes, hall.chain, fun c hc => ?_⟩
  obtain ⟨cs, rfl⟩ : ∃ cs', cs = cs' ++ [c] := List.getLast?_eq_some_iff.mp hc
  obtain ⟨before, last, hlog, hend⟩ := hall.stored
  have hcall : (start period x now).run period (cs ++ [c]) =
      ((start period x now).run period cs).call period c := by
    rw [run, List.foldl_append]
    rfl
  rw [hcall] at hlog hend ⊢
  rw [call_stored] at hlog
  refine ⟨before, last, hlog, ?_⟩
  rw [← hend]
  have htime := hclock c (List.mem_append_right _ (List.mem_singleton_self c))
  rcases call_cases period ((start period x now).run period cs) c with
    ⟨heq, -⟩ | ⟨heq, -, hlate⟩
  · rw [heq]
    show c.checked < c.started + period
    omega
  · rw [heq]
    exact hlate

end Refresher

end Guillemot
