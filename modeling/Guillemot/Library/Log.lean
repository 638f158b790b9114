import Mathlib.Data.List.Basic

/-!
# Logs that an abstract machine accounts for

A log is a list of entries, the oldest first. `Accounts next ok s log` says that each entry is right
(`ok`) in the state in which the entries before it leave an abstract machine that starts in `s`.
`accounts_snoc` is the rule for a log that grows, and `ok_of_accounts` reads an entry back.
`forall_split_concat` is the rule for what holds before each occurrence of an entry.
-/

namespace Guillemot

namespace Log

variable {σ ε : Type*} (next : σ → ε → σ) (ok : σ → ε → Prop)

/-- Every entry is right in the state that the entries before it lead to. -/
def Accounts : σ → List ε → Prop
  | _, [] => True
  | s, e :: es => ok s e ∧ Accounts (next s e) es

variable {next ok}

theorem accounts_append {s : σ} {xs ys : List ε} :
    Accounts next ok s (xs ++ ys) ↔
      Accounts next ok s xs ∧ Accounts next ok (xs.foldl next s) ys := by
  induction xs generalizing s with
  | nil => simp [Accounts]
  | cons x xs ih => simp [Accounts, ih, and_assoc]

/-- An entry at the end of a log is right in the state that the log leads to. -/
theorem accounts_snoc {s : σ} {log : List ε} {e : ε} :
    Accounts next ok s (log ++ [e]) ↔ Accounts next ok s log ∧ ok (log.foldl next s) e := by
  simp [accounts_append, Accounts]

/-- An entry of a log is right in the state that the entries before it lead to. -/
theorem ok_of_accounts {s : σ} {before after : List ε} {e : ε}
    (h : Accounts next ok s (before ++ e :: after)) : ok (before.foldl next s) e :=
  (accounts_append.mp h).2.1

/-- The places of an entry in a log that grows at its end. -/
theorem forall_split_append {xs ys : List ε} {y : ε} {P : List ε → Prop} :
    (∀ earlier later, xs ++ ys = earlier ++ y :: later → P earlier) ↔
      (∀ earlier later, xs = earlier ++ y :: later → P earlier) ∧
        ∀ earlier later, ys = earlier ++ y :: later → P (xs ++ earlier) := by
  constructor
  · intro h
    refine ⟨fun earlier later hxs => h earlier (later ++ ys) (by simp [hxs]),
      fun earlier later hys => h (xs ++ earlier) later (by simp [hys])⟩
  · rintro ⟨hxs, hys⟩ earlier later heq
    rcases List.append_eq_append_iff.mp heq with ⟨as, rfl, hrest⟩ | ⟨as, rfl, hrest⟩
    · exact hys as later hrest
    · -- The place is in `xs`, or right behind it.
      cases as with
      | nil => simpa using hys [] later hrest.symm
      | cons a as =>
        obtain ⟨rfl, -⟩ := List.cons.inj hrest
        exact hxs earlier as rfl

/-- The places of an entry in a log that grows by one entry. -/
theorem forall_split_concat {xs : List ε} {x y : ε} {P : List ε → Prop} :
    (∀ earlier later, xs ++ [x] = earlier ++ y :: later → P earlier) ↔
      (∀ earlier later, xs = earlier ++ y :: later → P earlier) ∧ (x = y → P xs) := by
  rw [forall_split_append]
  refine and_congr_right fun _ => ⟨fun h hxy => ?_, fun h earlier later heq => ?_⟩
  · simpa using h [] [] (by rw [hxy, List.nil_append])
  · cases earlier with
    | nil => simpa using h (List.cons.inj heq).1
    | cons a as => simp at heq

end Log

end Guillemot
