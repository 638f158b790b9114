import Mathlib.Tactic.Common

/-!
# Dictionaries

A dictionary is a list of entries, in the order in which their keys were first inserted. Which keys
are the same is decided by a function that is symmetric and transitive; it need not be reflexive, so
that there may be keys that are not found again. `get_insert` is the law of a dictionary, and
`get_foldl_insert` says that what is found after some insertions is the last of them.
-/

namespace Guillemot

namespace Dict

variable {α β : Type*} (same : α → α → Bool)

/-- The value of a key. -/
def get (d : List (α × β)) (k : α) : Option β := (d.find? fun e => same e.1 k).map Prod.snd

/-- The dictionary with a new value for a key. -/
def insert : List (α × β) → α → β → List (α × β)
  | [], k, v => [(k, v)]
  | e :: d, k, v => if same e.1 k then (e.1, v) :: d else e :: insert d k v

/-- The dictionary with new values for some keys, one after the other. -/
def insertAll (d entries : List (α × β)) : List (α × β) :=
  entries.foldl (fun d e => insert same d e.1 e.2) d

variable {same}

theorem get_cons (e : α × β) (d : List (α × β)) (k : α) :
    get same (e :: d) k = if same e.1 k then some e.2 else get same d k := by
  unfold get
  rw [List.find?_cons]
  split <;> simp_all

theorem get_append (d d' : List (α × β)) (k : α) :
    get same (d ++ d') k = (get same d k).or (get same d' k) := by
  unfold get
  rw [List.find?_append, Option.map_or]

/-- A key that is not found is inserted at the end. -/
theorem insert_of_get_eq_none {d : List (α × β)} {k : α} (h : get same d k = none) (v : β) :
    insert same d k v = d ++ [(k, v)] := by
  induction d with
  | nil => rfl
  | cons e d ih =>
    rw [get_cons] at h
    split_ifs at h with he
    rw [insert, if_neg he, ih h, List.cons_append]

/-- A value that is found is in an entry. -/
theorem exists_mem_of_get_eq_some {d : List (α × β)} {k : α} {v : β} (h : get same d k = some v) :
    ∃ e ∈ d, same e.1 k = true ∧ e.2 = v := by
  obtain ⟨e, he, rfl⟩ := Option.map_eq_some_iff.mp h
  have hsame := List.find?_some (p := fun e : α × β => same e.1 k) he
  exact ⟨e, List.mem_of_find?_eq_some he, hsame, rfl⟩

section Same

variable (hsymm : ∀ a b, same a b = true → same b a = true)
  (htrans : ∀ a b c, same a b = true → same b c = true → same a c = true)
include hsymm htrans

/-- A key that was inserted is found under all keys that are the same, and no other value changes.
-/
theorem get_insert (d : List (α × β)) (k : α) (v : β) (k' : α) :
    get same (insert same d k v) k' = if same k k' then some v else get same d k' := by
  induction d with
  | nil => simp [insert, get_cons]
  | cons e d ih =>
    unfold insert
    by_cases he : same e.1 k = true
    · rw [if_pos he, get_cons, get_cons]
      by_cases hk : same k k' = true
      · rw [if_pos hk, if_pos (htrans _ _ _ he hk)]
      · have hne : ¬ same e.1 k' = true := fun h => hk (htrans _ _ _ (hsymm _ _ he) h)
        rw [if_neg hk, if_neg hne, if_neg hne]
    · rw [if_neg he, get_cons, ih, get_cons]
      by_cases hk : same k k' = true
      · have hne : ¬ same e.1 k' = true := fun h => he (htrans _ _ _ h (hsymm _ _ hk))
        rw [if_neg hne, if_pos hk, if_pos hk]
      · rw [if_neg hk, if_neg hk]

/-- What is found is what was inserted last, or what was there before. -/
theorem get_insertAll (d entries : List (α × β)) (k : α) :
    get same (insertAll same d entries) k = (get same entries.reverse k).or (get same d k) := by
  induction entries generalizing d with
  | nil => rfl
  | cons e entries ih =>
    have hstep : insertAll same d (e :: entries) =
        insertAll same (insert same d e.1 e.2) entries := rfl
    rw [hstep, ih, get_insert hsymm htrans, List.reverse_cons, get_append, get_cons,
      Option.or_assoc]
    split_ifs <;> rfl

end Same

theorem insertAll_append (d entries more : List (α × β)) :
    insertAll same d (entries ++ more) = insertAll same (insertAll same d entries) more :=
  List.foldl_append

end Dict

end Guillemot
