import Mathlib.Data.List.Induction
import Guillemot.Library.Log

/-!
# One request at a time

A log of a party that sends requests, repeats them, and handles responses. It is in order when a
request is sent only while no other one waits for its answer, and only the one that waits is
repeated. Two requests of such a log have an answer to the first one between them
(`answer_between`), and what is repeated is the last request (`repeated_is_last`).

`answers m r` says that the response `r` ends the waiting for the request `m`.
-/

namespace Guillemot

namespace StopAndWait

variable {μ ρ : Type*}

/-- What happens at the party. -/
inductive Event (μ ρ : Type*) where
  | request (m : μ)
  | repeated (m : μ)
  | response (r : ρ)
  | other
deriving DecidableEq, Repr

variable (answers : μ → ρ → Prop) [∀ m r, Decidable (answers m r)]

/-- The request that waits after an event. -/
def next (waiting : Option μ) : Event μ ρ → Option μ
  | .request m => some m
  | .response r => waiting.filter fun m => ¬ answers m r
  | _ => waiting

/-- An event is in order. -/
def InOrder (waiting : Option μ) : Event μ ρ → Prop
  | .request _ => waiting = none
  | .repeated m => waiting = some m
  | _ => True

/-- All events of a log are in order. -/
def Disciplined (waiting : Option μ) (log : List (Event μ ρ)) : Prop :=
  Log.Accounts (next answers) InOrder waiting log

variable {answers}

/-- A request waits as long as no response answers it, and no other one is sent. -/
theorem waiting_of_unanswered {m : μ} {log : List (Event μ ρ)}
    (h : Disciplined answers (some m) log) (hlog : ∀ r, Event.response r ∈ log → ¬ answers m r) :
    log.foldl (next answers) (some m) = some m := by
  induction log with
  | nil => rfl
  | cons e log ih =>
    obtain ⟨hnow, hrest⟩ := h
    have hsame : next answers (some m) e = some m := by
      cases e with
      | request m' => cases hnow
      | repeated m' => rfl
      | response r => simp [next, hlog r List.mem_cons_self]
      | other => rfl
    rw [hsame] at hrest
    rw [List.foldl_cons, hsame]
    exact ih hrest fun r hr => hlog r (List.mem_cons_of_mem _ hr)

/-- Between two requests the first one is answered. -/
theorem answer_between {w : Option μ} {before between after : List (Event μ ρ)} {m m' : μ}
    (h : Disciplined answers w (before ++ .request m :: (between ++ .request m' :: after))) :
    ∃ r, Event.response r ∈ between ∧ answers m r := by
  by_contra hnone
  push Not at hnone
  have hsent := (Log.accounts_append.mp h).2.2
  obtain ⟨hbetween, hnext, -⟩ := Log.accounts_append.mp hsent
  -- Without an answer the first request still waits when the second one is sent.
  have hwaiting := waiting_of_unanswered hbetween hnone
  exact nomatch hwaiting.symm.trans hnext

/-- The request that waits is the last one. -/
theorem last_of_waiting {log : List (Event μ ρ)} {m : μ}
    (h : log.foldl (next answers) none = some m) :
    ∃ before after, log = before ++ .request m :: after ∧ ∀ m', Event.request m' ∉ after := by
  induction log using List.reverseRecOn with
  | nil => cases h
  | append_singleton log e ih =>
    rw [List.foldl_append, List.foldl_cons, List.foldl_nil] at h
    have hcases : e = .request m ∨
        log.foldl (next answers) none = some m ∧ ∀ m', e ≠ .request m' := by
      cases e with
      | request m' => exact .inl (congrArg _ (Option.some.inj h))
      | repeated m' => exact .inr ⟨h, nofun⟩
      | response r => exact .inr ⟨(Option.filter_eq_some_iff.mp h).1, nofun⟩
      | other => exact .inr ⟨h, nofun⟩
    rcases hcases with rfl | ⟨hwaiting, hother⟩
    · exact ⟨log, [], rfl, fun _ => List.not_mem_nil⟩
    · obtain ⟨before, after, rfl, hafter⟩ := ih hwaiting
      refine ⟨before, after ++ [e], by simp, fun m' hm' => ?_⟩
      rcases List.mem_append.mp hm' with hm' | hm'
      · exact hafter m' hm'
      · exact hother m' (List.mem_singleton.mp hm').symm

/-- What is repeated is the last request. -/
theorem repeated_is_last {before after : List (Event μ ρ)} {m : μ}
    (h : Disciplined answers none (before ++ .repeated m :: after)) :
    ∃ b c, before = b ++ .request m :: c ∧ ∀ m', Event.request m' ∉ c :=
  last_of_waiting (Log.ok_of_accounts h)

end StopAndWait

end Guillemot
