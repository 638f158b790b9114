import Mathlib.Data.Fintype.Basic
import Mathlib.Data.List.FinRange
import Mathlib.Tactic.Common

/-!
# The lock of the serial port

`checkLock`, `getLock` and `releaseLock` of `SubSensorController.cpp`, and threads that use them in
`main` and in the callbacks. `checkLock` tries the mutex, and when it gets it, it has taken it. But
`getLock` unlocks it, so that the critical section is entered with the mutex free, and all threads
can be inside at once (`all_inside`).
-/

namespace Guillemot.Sensor

/-! ## The mutex -/

/-- The error of `pthread_mutex_trylock` for a mutex that is taken. -/
def EBUSY : ℕ := 16

/-- `pthread_mutex_trylock`: its value, and whether the mutex is taken afterwards. -/
def trylock (taken : Bool) : ℕ × Bool := if taken then (EBUSY, true) else (0, true)

/-- `pthread_mutex_unlock`, which frees the mutex. -/
def unlock (_ : Bool) : ℕ × Bool := (0, false)

/-- `checkLock` without an argument. -/
def checkLock (myMutex : Bool) : Bool × Bool :=
  let r := trylock myMutex
  (if r.1 ≠ 0 then false else true, r.2)

/-- `getLock`. -/
def getLock (myMutex : Bool) : Bool × Bool :=
  let r := unlock myMutex
  (if r.1 ≠ 0 then false else true, r.2)

/-- `releaseLock`. -/
def releaseLock (myMutex : Bool) : Bool × Bool :=
  let r := unlock myMutex
  (if r.1 ≠ 0 then false else true, r.2)

/-! ## The threads -/

/-- What a thread repeats: `if (checkLock() && getLock())`, as `main` does, or
`if (checkLock(true) && getLock())`, as the callbacks do. -/
inductive Variant where
  | once
  | looping
deriving DecidableEq, Repr

/-- Where a thread is: in front of the condition, in the loop of `checkLock(true)`, between
`checkLock` and `getLock`, or in the critical section up to `releaseLock`. -/
inductive Place where
  | outside
  | spinning
  | checked
  | critical
deriving DecidableEq, Repr

/-- A step of a thread: its place, and the mutex. -/
def Variant.step (variant : Variant) (place : Place) (myMutex : Bool) : Place × Bool :=
  match place with
  | .outside =>
    match variant with
    | .once => (if (checkLock myMutex).1 then .checked else .outside, (checkLock myMutex).2)
    | .looping => (.spinning, myMutex)
  | .spinning => (if (checkLock myMutex).1 then .checked else .spinning, (checkLock myMutex).2)
  | .checked => (if (getLock myMutex).1 then .critical else .outside, (getLock myMutex).2)
  | .critical => (.outside, (releaseLock myMutex).2)

/-- The places of the threads, and whether the mutex is taken. -/
structure Threads (n : ℕ) where
  places : Fin n → Place
  myMutex : Bool

variable {n : ℕ}

/-- The start. -/
def Threads.start (n : ℕ) : Threads n := ⟨fun _ => .outside, false⟩

/-- A step of the thread `i`. -/
def Threads.step (variants : Fin n → Variant) (s : Threads n) (i : Fin n) : Threads n :=
  let r := (variants i).step (s.places i) s.myMutex
  ⟨Function.update s.places i r.1, r.2⟩

/-- An interleaving: the threads whose turn it is, one after the other. -/
def Threads.run (variants : Fin n → Variant) (schedule : List (Fin n)) (s : Threads n) :
    Threads n :=
  schedule.foldl (Threads.step variants) s

/-- At most one thread is in its critical section. -/
def Threads.Exclusive (s : Threads n) : Prop :=
  ∀ i j, s.places i = .critical → s.places j = .critical → i = j

/-! ## Exclusion -/

variable {variants : Fin n → Variant} {s : Threads n} {i : Fin n}

theorem Threads.run_append (first second : List (Fin n)) (s : Threads n) :
    s.run variants (first ++ second) = (s.run variants first).run variants second :=
  List.foldl_append

/-- A thread that finds the mutex free comes to its critical section, and leaves the mutex free. -/
theorem Threads.enters (variants : Fin n → Variant) (hplace : s.places i = .outside)
    (hfree : s.myMutex = false) :
    ∃ schedule, s.run variants schedule = ⟨Function.update s.places i .critical, false⟩ := by
  cases hvariant : variants i with
  | once =>
    refine ⟨[i, i], ?_⟩
    simp only [run, List.foldl_cons, List.foldl_nil, step, hvariant, hplace, hfree,
      Function.update_self, Function.update_idem]
    rfl
  | looping =>
    refine ⟨[i, i, i], ?_⟩
    simp only [run, List.foldl_cons, List.foldl_nil, step, hvariant, hplace, hfree,
      Function.update_self, Function.update_idem]
    rfl

/-- Whatever they do, all threads can come to be in their critical sections. -/
theorem all_inside (variants : Fin n → Variant) :
    ∃ schedule, ∀ i, ((Threads.start n).run variants schedule).places i = .critical := by
  -- The threads enter one after the other.
  suffices hsome : ∀ threads : List (Fin n), threads.Nodup →
      ∃ schedule, ((Threads.start n).run variants schedule).myMutex = false ∧
        ∀ i, ((Threads.start n).run variants schedule).places i =
          if i ∈ threads then .critical else .outside by
    obtain ⟨schedule, -, hplaces⟩ := hsome (List.finRange n) (List.nodup_finRange n)
    exact ⟨schedule, fun i => by rw [hplaces, if_pos (List.mem_finRange i)]⟩
  intro threads hnodup
  induction threads with
  | nil => exact ⟨[], rfl, fun i => rfl⟩
  | cons i threads ih =>
    obtain ⟨hi, hrest⟩ := List.nodup_cons.mp hnodup
    obtain ⟨schedule, hfree, hplaces⟩ := ih hrest
    obtain ⟨more, hmore⟩ := Threads.enters variants
      (by rw [hplaces, if_neg hi]) hfree
    refine ⟨schedule ++ more, ?_, fun j => ?_⟩
    · rw [Threads.run_append, hmore]
    · rw [Threads.run_append, hmore]
      dsimp only
      rw [Function.update_apply, hplaces]
      by_cases hji : j = i
      · rw [if_pos hji, if_pos (hji ▸ List.mem_cons_self)]
      · have hmem : j ∈ i :: threads ↔ j ∈ threads := by
          rw [List.mem_cons, or_iff_right hji]
        rw [if_neg hji]
        simp only [hmem]

/-- In every interleaving at most one thread is in its critical section exactly when there are no
two threads. -/
theorem exclusive_iff (n : ℕ) (variants : Fin n → Variant) :
    (∀ schedule, ((Threads.start n).run variants schedule).Exclusive) ↔ n ≤ 1 := by
  constructor
  · intro hexclusive
    by_contra htwo
    obtain ⟨schedule, hinside⟩ := all_inside variants
    have hsame := hexclusive schedule ⟨0, by omega⟩ ⟨1, by omega⟩ (hinside _) (hinside _)
    exact absurd (Fin.mk.inj hsame) Nat.zero_ne_one
  · intro hone schedule i j _ _
    exact Fin.ext (by omega)

/-- `main` and a callback, in turns. -/
theorem both_inside :
    let s := (Threads.start 2).run (fun i => if i = 0 then .once else .looping) [0, 0, 1, 1, 1]
    s.places 0 = .critical ∧ s.places 1 = .critical ∧ ¬ s.Exclusive := by
  refine ⟨by decide, by decide, fun hexclusive => ?_⟩
  exact absurd (hexclusive 0 1 (by decide) (by decide)) (by decide)

end Guillemot.Sensor
