import Mathlib.Logic.Relation
import Mathlib.Tactic.Common

/-!
# While loops that may fault or never end

`whileLoop cond body` runs `while (cond s) s = body s` with a bound on the number of rounds. The
body is partial: `none` stands for a step that is undefined in the source language, such as a read
past the end of a buffer, and ends the loop in `Outcome.fault`. A loop that has not ended within its
bound is `Outcome.running`; it ends at all (`Ends`) when some bound is enough.

`Round` is one round as a relation, so that the states that a loop passes through are those of its
reflexive transitive closure. `done_iff` and `fault_iff` describe the outcomes by it. The rules that
clients use are `ends_of_variant`, with its bound on the rounds, `running_of_invariant`, and
`Simulates.rel`, which carries outcomes from one loop to another along a relation of their states.
-/

namespace Guillemot

open Relation (ReflTransGen)

universe u

/-- How a bounded run of a loop ends. -/
inductive Outcome (σ : Type*) where
  /-- The bound on the rounds was reached with the guard still true. -/
  | running
  /-- A round was undefined. -/
  | fault
  /-- The guard was false in the state `s`. -/
  | done (s : σ)
deriving DecidableEq, Repr

namespace Outcome

/-- A computation that may be undefined, as an outcome. -/
def ofOption {σ : Type*} : Option σ → Outcome σ
  | none => .fault
  | some s => .done s

instance : Monad Outcome where
  pure := .done
  bind
    | .running, _ => .running
    | .fault, _ => .fault
    | .done s, f => f s

@[simp]
theorem ofOption_some {σ : Type*} (s : σ) : ofOption (some s) = .done s := rfl

theorem ofOption_eq_done {σ : Type*} {o : Option σ} {s : σ} :
    ofOption o = .done s ↔ o = some s := by
  cases o <;> simp [ofOption]

@[simp]
theorem pure_eq {σ : Type*} (s : σ) : (pure s : Outcome σ) = .done s := rfl

@[simp]
theorem done_bind {σ τ : Type u} (s : σ) (f : σ → Outcome τ) : (Outcome.done s >>= f) = f s := rfl

/-- A sequence of two computations is done when both are. -/
theorem bind_eq_done {σ τ : Type u} {o : Outcome σ} {f : σ → Outcome τ} {t : τ} :
    (o >>= f) = .done t ↔ ∃ s, o = .done s ∧ f s = .done t := by
  cases o with
  | running => exact ⟨nofun, fun ⟨_, h, _⟩ => nomatch h⟩
  | fault => exact ⟨nofun, fun ⟨_, h, _⟩ => nomatch h⟩
  | done s => exact ⟨fun h => ⟨s, rfl, h⟩, fun ⟨_, h, ht⟩ => by cases h; exact ht⟩

end Outcome

namespace Loop

variable {σ τ : Type*}

/-- At most `fuel` rounds of `while (cond s) s = body s`. The guard is tested before each. -/
def whileLoop (cond : σ → Bool) (body : σ → Option σ) : ℕ → σ → Outcome σ
  | 0, s => if cond s then .running else .done s
  | fuel + 1, s =>
    if cond s then
      match body s with
      | none => .fault
      | some t => whileLoop cond body fuel t
    else .done s

/-- One round: the guard holds of `s`, and the body takes `s` to `t`. -/
def Round (cond : σ → Bool) (body : σ → Option σ) (s t : σ) : Prop :=
  cond s = true ∧ body s = some t

/-- The loop ends, in a final state or in a fault. -/
def Ends (cond : σ → Bool) (body : σ → Option σ) (s : σ) : Prop :=
  ∃ fuel, whileLoop cond body fuel s ≠ .running

variable {cond : σ → Bool} {body : σ → Option σ}

/-- A false guard ends the loop at once. -/
@[simp]
theorem whileLoop_of_false {s : σ} (h : cond s = false) (fuel : ℕ) :
    whileLoop cond body fuel s = .done s := by
  cases fuel <;> simp [whileLoop, h]

/-- A round that is undefined ends the loop in a fault. -/
theorem whileLoop_of_none {s : σ} (h : cond s = true) (hb : body s = none) (fuel : ℕ) :
    whileLoop cond body (fuel + 1) s = .fault := by
  simp [whileLoop, h, hb]

/-- A round moves on to the next state with one round less. -/
theorem whileLoop_of_round {s t : σ} (h : Round cond body s t) (fuel : ℕ) :
    whileLoop cond body (fuel + 1) s = whileLoop cond body fuel t := by
  simp [whileLoop, h.1, h.2]

/-- The three ways in which a loop goes on from a state. -/
theorem guard_cases (cond : σ → Bool) (body : σ → Option σ) (s : σ) :
    cond s = false ∨ (cond s = true ∧ body s = none) ∨ ∃ t, Round cond body s t := by
  cases hc : cond s with
  | false => exact .inl rfl
  | true =>
    cases hb : body s with
    | none => exact .inr (.inl ⟨rfl, rfl⟩)
    | some t => exact .inr (.inr ⟨t, hc, hb⟩)

/-- Once a loop has ended, a larger bound changes nothing. -/
theorem whileLoop_mono {s : σ} {n m : ℕ} (hnm : n ≤ m)
    (h : whileLoop cond body n s ≠ .running) :
    whileLoop cond body m s = whileLoop cond body n s := by
  induction n generalizing s m with
  | zero =>
    cases hc : cond s with
    | false => simp [hc]
    | true => simp [whileLoop, hc] at h
  | succ n ih =>
    -- A bound of at least `n + 1` is a successor, too, and both runs take the same round.
    obtain ⟨m, rfl⟩ : ∃ k, m = k + 1 := ⟨m - 1, by omega⟩
    rcases guard_cases cond body s with hc | ⟨hc, hb⟩ | ⟨t, ht⟩
    · simp [hc]
    · rw [whileLoop_of_none hc hb, whileLoop_of_none hc hb]
    · rw [whileLoop_of_round ht] at h ⊢
      rw [whileLoop_of_round ht]
      exact ih (by omega) h

/-- Rounds that lead from `s` to `t` cost their number in the bound. -/
theorem whileLoop_of_reaches {s t : σ} (h : ReflTransGen (Round cond body) s t) :
    ∃ k, ∀ fuel, whileLoop cond body (fuel + k) s = whileLoop cond body fuel t := by
  induction h using ReflTransGen.head_induction_on with
  | refl => exact ⟨0, fun _ => rfl⟩
  | head hround _ ih =>
    -- The first round costs one more.
    obtain ⟨k, hk⟩ := ih
    exact ⟨k + 1, fun fuel => by rw [← Nat.add_assoc, whileLoop_of_round hround, hk]⟩

/-- A loop that is done with `t` reached `t`, where its guard is false, and conversely. -/
theorem done_iff {s t : σ} :
    (∃ fuel, whileLoop cond body fuel s = .done t) ↔
      ReflTransGen (Round cond body) s t ∧ cond t = false := by
  constructor
  · -- The bounded run spells out the rounds, up to the false guard.
    rintro ⟨fuel, h⟩
    induction fuel generalizing s with
    | zero =>
      cases hc : cond s with
      | false =>
        obtain rfl : s = t := by simpa [hc] using h
        exact ⟨.refl, hc⟩
      | true => simp [whileLoop, hc] at h
    | succ fuel ih =>
      rcases guard_cases cond body s with hc | ⟨hc, hb⟩ | ⟨u, hu⟩
      · obtain rfl : s = t := by simpa [hc] using h
        exact ⟨.refl, hc⟩
      · simp [whileLoop_of_none hc hb] at h
      · rw [whileLoop_of_round hu] at h
        exact ⟨.head hu (ih h).1, (ih h).2⟩
  · -- Once the rounds to `t` are paid for, its false guard ends the loop.
    rintro ⟨hreach, hc⟩
    obtain ⟨k, hk⟩ := whileLoop_of_reaches hreach
    exact ⟨0 + k, by rw [hk]; simp [hc]⟩

/-- A loop faults when it reaches a state whose round is undefined, and only then. -/
theorem fault_iff {s : σ} :
    (∃ fuel, whileLoop cond body fuel s = .fault) ↔
      ∃ t, ReflTransGen (Round cond body) s t ∧ cond t = true ∧ body t = none := by
  constructor
  · rintro ⟨fuel, h⟩
    induction fuel generalizing s with
    | zero => simp only [whileLoop] at h; split at h <;> cases h
    | succ fuel ih =>
      rcases guard_cases cond body s with hc | ⟨hc, hb⟩ | ⟨u, hu⟩
      · simp [hc] at h
      · exact ⟨s, .refl, hc, hb⟩
      · rw [whileLoop_of_round hu] at h
        obtain ⟨t, ht, hct, hbt⟩ := ih h
        exact ⟨t, .head hu ht, hct, hbt⟩
  · -- One round more than it takes to reach `t` is the undefined one.
    rintro ⟨t, hreach, hc, hb⟩
    obtain ⟨k, hk⟩ := whileLoop_of_reaches hreach
    exact ⟨1 + k, by rw [hk]; exact whileLoop_of_none hc hb 0⟩

/-- Every state that a loop passes through leads on to the state that it ends in. -/
theorem reaches_of_done {s t u : σ} {fuel : ℕ} (h : whileLoop cond body fuel s = .done t)
    (hu : ReflTransGen (Round cond body) s u) : ReflTransGen (Round cond body) u t := by
  obtain ⟨k, hk⟩ := whileLoop_of_reaches hu
  have hmono := whileLoop_mono (Nat.le_add_right fuel k) (by rw [h]; simp)
  rw [hk, h] at hmono
  exact (done_iff.mp ⟨fuel, hmono⟩).1

/-- What holds at the start and is kept by every round holds of every state reached. -/
theorem invariant_of_reaches {I : σ → Prop} (hstep : ∀ s t, I s → Round cond body s t → I t)
    {s t : σ} (hs : I s) (h : ReflTransGen (Round cond body) s t) : I t := by
  induction h with
  | refl => exact hs
  | tail _ hround ih => exact hstep _ _ ih hround

/-- The variant rule: a loop whose rounds keep `I` and lower `μ` ends, within `μ s + 1` rounds. -/
theorem ends_of_variant {I : σ → Prop} {μ : σ → ℕ}
    (hstep : ∀ s t, I s → Round cond body s t → I t ∧ μ t < μ s) {s : σ} (hs : I s) {fuel : ℕ}
    (hfuel : μ s < fuel) : whileLoop cond body fuel s ≠ .running := by
  induction fuel generalizing s with
  | zero => omega
  | succ fuel ih =>
    rcases guard_cases cond body s with hc | ⟨hc, hb⟩ | ⟨t, ht⟩
    · simp [hc]
    · simp [whileLoop_of_none hc hb]
    · -- The bound goes down by one, and the variant by at least one.
      rw [whileLoop_of_round ht]
      obtain ⟨hI, hlt⟩ := hstep s t hs ht
      exact ih hI (by omega)

/-- The divergence rule: a loop that can always go on to another state of `I` never ends. -/
theorem running_of_invariant {I : σ → Prop} (hstep : ∀ s, I s → ∃ t, Round cond body s t ∧ I t)
    {s : σ} (hs : I s) (fuel : ℕ) : whileLoop cond body fuel s = .running := by
  induction fuel generalizing s with
  | zero =>
    obtain ⟨t, ht, -⟩ := hstep s hs
    simp [whileLoop, ht.1]
  | succ fuel ih =>
    obtain ⟨t, ht, hI⟩ := hstep s hs
    rw [whileLoop_of_round ht]
    exact ih hI

/-- A loop that reaches a state from which it never ends does not end either. -/
theorem not_ends_of_reaches {s t : σ} (h : ReflTransGen (Round cond body) s t)
    (ht : ∀ fuel, whileLoop cond body fuel t = .running) : ¬ Ends cond body s := by
  rintro ⟨fuel, hfuel⟩
  obtain ⟨k, hk⟩ := whileLoop_of_reaches h
  have := whileLoop_mono (Nat.le_add_right fuel k) hfuel
  rw [hk, ht] at this
  exact hfuel this.symm

/-- Outcomes of two loops that end alike, in related states. -/
inductive Related (R : σ → τ → Prop) : Outcome σ → Outcome τ → Prop
  | running : Related R .running .running
  | fault : Related R .fault .fault
  | done {s a} (h : R s a) : Related R (.done s) (.done a)

/-- Of two related outcomes, both are out of rounds or neither is. -/
theorem Related.running_iff {R : σ → τ → Prop} {o : Outcome σ} {o' : Outcome τ}
    (h : Related R o o') : o = .running ↔ o' = .running := by
  cases h <;> simp

/-- Of two related outcomes, both are faults or neither is. -/
theorem Related.fault_iff {R : σ → τ → Prop} {o : Outcome σ} {o' : Outcome τ}
    (h : Related R o o') : o = .fault ↔ o' = .fault := by
  cases h <;> simp

/-- `R` relates the states of two loops round by round: the guards agree, and the bodies are
undefined together or lead to related states. -/
structure Simulates (R : σ → τ → Prop) (cond : σ → Bool) (body : σ → Option σ)
    (cond' : τ → Bool) (body' : τ → Option τ) : Prop where
  /-- The guards agree. -/
  guard : ∀ s a, R s a → cond s = cond' a
  /-- A fault of the first loop is one of the second. -/
  fault : ∀ s a, R s a → cond s = true → body s = none → body' a = none
  /-- A round of the first loop is matched by one of the second. -/
  round : ∀ s a t, R s a → Round cond body s t → ∃ b, body' a = some b ∧ R t b

variable {R : σ → τ → Prop} {cond' : τ → Bool} {body' : τ → Option τ}

/-- Loops with related states have related outcomes. -/
theorem Simulates.rel (hsim : Simulates R cond body cond' body') {s : σ} {a : τ} (h : R s a)
    (fuel : ℕ) : Related R (whileLoop cond body fuel s) (whileLoop cond' body' fuel a) := by
  have hguard := hsim.guard s a h
  induction fuel generalizing s a with
  | zero =>
    simp only [whileLoop, ← hguard]
    cases cond s with
    | false => exact .done h
    | true => exact .running
  | succ fuel ih =>
    -- Both loops end, or both fault, or both go on in related states.
    rcases guard_cases cond body s with hc | ⟨hc, hb⟩ | ⟨t, ht⟩
    · rw [whileLoop_of_false hc, whileLoop_of_false (hguard ▸ hc)]
      exact .done h
    · rw [whileLoop_of_none hc hb, whileLoop_of_none (hguard ▸ hc) (hsim.fault s a h hc hb)]
      exact .fault
    · obtain ⟨b, hb, hR⟩ := hsim.round s a t h ht
      rw [whileLoop_of_round ht, whileLoop_of_round ⟨hguard ▸ ht.1, hb⟩]
      exact ih hR (hsim.guard t b hR)

/-- The states that the first loop passes through are related to states of the second. -/
theorem Simulates.reaches (hsim : Simulates R cond body cond' body') {s t : σ} {a : τ} (h : R s a)
    (hreach : ReflTransGen (Round cond body) s t) :
    ∃ b, ReflTransGen (Round cond' body') a b ∧ R t b := by
  induction hreach with
  | refl => exact ⟨a, .refl, h⟩
  | tail _ hround ih =>
    obtain ⟨b, hab, hR⟩ := ih
    obtain ⟨c, hc, hRc⟩ := hsim.round _ _ _ hR hround
    exact ⟨c, hab.tail ⟨hsim.guard _ _ hR ▸ hround.1, hc⟩, hRc⟩

end Loop

end Guillemot
