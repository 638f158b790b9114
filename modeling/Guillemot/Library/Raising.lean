import Mathlib.Data.List.Forall2
import Mathlib.Order.Defs.Unbundled
import Mathlib.Tactic.Common

/-!
# Computations that change a state and may raise

The language of the modelled program raises exceptions, and what was written before an exception
stays written. `EStateM` is such a computation: its result has a state also when it raises. `Keeps`
says that a relation holds between the states before and after, whatever the result is;
`forM_ok` is the invariant rule of a loop that ends, `forM_all_iff` reduces what holds of all rounds
of a loop that ends to its rounds, and `forM_eq_error_iff` says that a loop that raises has gone
through a prefix of its list. A loop that reads each element and registers what it
has read registers what `collect` returns (`forM_registers`).
-/

namespace Guillemot

namespace Raising

variable {ε σ α β : Type}

/-- The state in which a computation ends, whether it raises or not. -/
def final : EStateM.Result ε σ α → σ
  | .ok _ s => s
  | .error _ s => s

theorem final_of_ok {r : EStateM.Result ε σ α} {a : α} {s : σ} (h : r = .ok a s) : final r = s := by
  rw [h]
  rfl

theorem final_of_error {r : EStateM.Result ε σ α} {e : ε} {s : σ} (h : r = .error e s) :
    final r = s := by
  rw [h]
  rfl

theorem pure_apply (a : α) (s : σ) : (pure a : EStateM ε σ α) s = .ok a s := rfl

theorem bind_apply (x : EStateM ε σ α) (f : α → EStateM ε σ β) (s : σ) :
    (x >>= f) s =
      match x s with
      | .ok a t => f a t
      | .error e t => .error e t := rfl

theorem get_bind_apply (g : σ → EStateM ε σ β) (s : σ) : (get >>= g) s = g s s := rfl

theorem modify_apply (f : σ → σ) (s : σ) :
    (modify f : EStateM ε σ PUnit) s = .ok ⟨⟩ (f s) := rfl

theorem modify_bind_apply (f : σ → σ) (g : PUnit → EStateM ε σ β) (s : σ) :
    (modify f >>= g) s = g ⟨⟩ (f s) := rfl

theorem modifyGet_bind_apply (f : σ → α × σ) (g : α → EStateM ε σ β) (s : σ) :
    (modifyGet f >>= g) s = g (f s).1 (f s).2 := rfl

theorem bind_eq_ok_iff {x : EStateM ε σ α} {f : α → EStateM ε σ β} {s t : σ} {b : β} :
    (x >>= f) s = .ok b t ↔ ∃ a u, x s = .ok a u ∧ f a u = .ok b t := by
  rw [bind_apply]
  cases hx : x s with
  | ok a u => simp
  | error e u => simp

theorem bind_eq_error_iff {x : EStateM ε σ α} {f : α → EStateM ε σ β} {s t : σ} {e : ε} :
    (x >>= f) s = .error e t ↔
      x s = .error e t ∨ ∃ a u, x s = .ok a u ∧ f a u = .error e t := by
  rw [bind_apply]
  cases hx : x s with
  | ok a u => simp
  | error e' u => simp

/-! ## What holds whatever the result is -/

/-- The states before and after are related, whether the computation raises or not. -/
def Keeps (R : σ → σ → Prop) (x : EStateM ε σ α) : Prop := ∀ s, R s (final (x s))

section Keeps

variable {R : σ → σ → Prop}

theorem Keeps.of_ok {x : EStateM ε σ α} (h : Keeps R x) {s t : σ} {a : α} (hx : x s = .ok a t) :
    R s t := by
  have := h s
  rwa [hx] at this

theorem Keeps.of_error {x : EStateM ε σ α} (h : Keeps R x) {s t : σ} {e : ε}
    (hx : x s = .error e t) : R s t := by
  have := h s
  rwa [hx] at this

theorem keeps_pure [Std.Refl R] (a : α) : Keeps R (pure a : EStateM ε σ α) :=
  fun s => Std.Refl.refl s

theorem keeps_throw [Std.Refl R] (e : ε) : Keeps R (throw e : EStateM ε σ α) :=
  fun s => Std.Refl.refl s

theorem Keeps.bind [IsTrans σ R] {x : EStateM ε σ α} {f : α → EStateM ε σ β}
    (hx : Keeps R x) (hf : ∀ a, Keeps R (f a)) : Keeps R (x >>= f) := by
  intro s
  rw [bind_apply]
  cases hres : x s with
  | ok a t => exact IsTrans.trans _ _ _ (hx.of_ok hres) (hf a t)
  | error e t => exact hx.of_error hres

theorem keeps_forM [Std.Refl R] [IsTrans σ R] {f : α → EStateM ε σ Unit} {xs : List α}
    (hf : ∀ x ∈ xs, Keeps R (f x)) : Keeps R (forM xs f) := by
  induction xs with
  | nil => exact keeps_pure _
  | cons x xs ih =>
    rw [List.forM_cons]
    exact (hf x List.mem_cons_self).bind fun _ =>
      ih fun y hy => hf y (List.mem_cons_of_mem _ hy)

end Keeps

/-! ## Loops -/

section Loops

variable {f : α → EStateM ε σ Unit}

/-- The invariant rule of a loop that ends: `I` may speak of the elements that have been handled. -/
theorem forM_ok {I : List α → σ → Prop} {xs : List α} {s t : σ} (hs : I [] s)
    (hstep : ∀ done x u v, done ++ [x] <+: xs → I done u → f x u = .ok () v → I (done ++ [x]) v)
    (h : forM xs f s = .ok () t) : I xs t := by
  -- The invariant is carried over what has been handled, by induction on what is left.
  suffices hloop : ∀ rest done u, done ++ rest = xs → I done u → forM rest f u = .ok () t → I xs t
    from hloop xs [] s rfl hs h
  intro rest
  induction rest with
  | nil =>
    intro done u hxs hu hrun
    obtain rfl : done = xs := by simpa using hxs
    cases hrun
    exact hu
  | cons x rest ih =>
    intro done u hxs hu hrun
    rw [List.forM_cons] at hrun
    obtain ⟨⟨⟩, v, hx, hrest⟩ := bind_eq_ok_iff.mp hrun
    have hsplit : done ++ [x] ++ rest = xs := by simpa using hxs
    exact ih (done ++ [x]) v hsplit (hstep done x u v ⟨rest, hsplit⟩ hu hx) hrest

/-- A loop ends and all its rounds are right, exactly when every round that it comes to ends and is
right. -/
theorem forM_all_iff {Q : σ → α → σ → Prop} {xs : List α} {s : σ} :
    (∃ t, forM xs f s = .ok () t ∧ ∀ done x rest u v, xs = done ++ x :: rest →
        forM done f s = .ok () u → f x u = .ok () v → Q u x v) ↔
      ∀ done x rest u, xs = done ++ x :: rest → forM done f s = .ok () u →
        ∃ v, f x u = .ok () v ∧ Q u x v := by
  induction xs generalizing s with
  | nil =>
    refine iff_of_true ⟨s, rfl, fun done x rest u v h => ?_⟩ fun done x rest u h => ?_
    · exact absurd h.symm (List.append_ne_nil_of_right_ne_nil _ (List.cons_ne_nil _ _))
    · exact absurd h.symm (List.append_ne_nil_of_right_ne_nil _ (List.cons_ne_nil _ _))
  | cons y ys ih =>
    constructor
    · rintro ⟨t, ht, hall⟩
      rw [List.forM_cons] at ht
      obtain ⟨⟨⟩, u₀, hy, hys⟩ := bind_eq_ok_iff.mp ht
      have hrest := (ih (s := u₀)).mp ⟨t, hys, fun done x rest u v hsplit hdone hx =>
        hall (y :: done) x rest u v (congrArg _ hsplit)
          (by rw [List.forM_cons, bind_apply, hy]; exact hdone) hx⟩
      intro done x rest u hsplit hdone
      cases done with
      | nil =>
        obtain ⟨rfl, -⟩ := List.cons.inj hsplit
        cases hdone
        exact ⟨u₀, hy, hall [] y ys s u₀ rfl rfl hy⟩
      | cons z done =>
        obtain ⟨rfl, htail⟩ := List.cons.inj hsplit
        rw [List.forM_cons, bind_apply, hy] at hdone
        exact hrest done x rest u htail hdone
    · intro hall
      obtain ⟨u₀, hy, hQ⟩ := hall [] y ys s rfl rfl
      obtain ⟨t, hys, hrest⟩ := (ih (s := u₀)).mpr fun done x rest u hsplit hdone =>
        hall (y :: done) x rest u (congrArg _ hsplit)
          (by rw [List.forM_cons, bind_apply, hy]; exact hdone)
      refine ⟨t, by rw [List.forM_cons, bind_apply, hy]; exact hys, ?_⟩
      intro done x rest u v hsplit hdone hx
      cases done with
      | nil =>
        obtain ⟨rfl, -⟩ := List.cons.inj hsplit
        cases hdone
        rw [hy] at hx
        cases hx
        exact hQ
      | cons z done =>
        obtain ⟨rfl, htail⟩ := List.cons.inj hsplit
        rw [List.forM_cons, bind_apply, hy] at hdone
        exact hrest done x rest u v htail hdone hx

/-- A loop raises what some round raises, after the rounds before it. -/
theorem forM_eq_error_iff {xs : List α} {s t : σ} {e : ε} :
    forM xs f s = .error e t ↔
      ∃ done x rest u, xs = done ++ x :: rest ∧ forM done f s = .ok () u ∧
        f x u = .error e t := by
  induction xs generalizing s with
  | nil =>
    constructor
    · intro h
      cases h
    · rintro ⟨done, x, rest, u, hsplit, -⟩
      simp at hsplit
  | cons y xs ih =>
    rw [List.forM_cons, bind_eq_error_iff]
    constructor
    -- The first round raises, or one of the others does.
    · rintro (hraise | ⟨⟨⟩, u, hy, hrest⟩)
      · exact ⟨[], y, xs, s, rfl, rfl, hraise⟩
      · obtain ⟨done, x, rest, v, rfl, hdone, hraise⟩ := ih.mp hrest
        refine ⟨y :: done, x, rest, v, rfl, ?_, hraise⟩
        rw [List.forM_cons]
        exact bind_eq_ok_iff.mpr ⟨(), u, hy, hdone⟩
    · rintro ⟨done, x, rest, u, hsplit, hdone, hraise⟩
      cases done with
      | nil =>
        obtain ⟨rfl, rfl⟩ := List.cons.inj hsplit
        cases hdone
        exact .inl hraise
      | cons y' done =>
        obtain ⟨rfl, rfl⟩ := List.cons.inj hsplit
        rw [List.forM_cons] at hdone
        obtain ⟨⟨⟩, v, hy, hrest⟩ := bind_eq_ok_iff.mp hdone
        exact .inr ⟨(), v, hy, ih.mpr ⟨done, x, rest, u, rfl, hrest, hraise⟩⟩

/-- A loop all of whose rounds return returns. -/
theorem forM_returns {xs : List α} (h : ∀ x ∈ xs, ∀ s, ∃ t, f x s = .ok () t) (s : σ) :
    ∃ t, forM xs f s = .ok () t := by
  induction xs generalizing s with
  | nil => exact ⟨s, rfl⟩
  | cons x xs ih =>
    obtain ⟨u, hx⟩ := h x List.mem_cons_self s
    obtain ⟨t, hrest⟩ := ih (fun y hy => h y (List.mem_cons_of_mem x hy)) u
    exact ⟨t, by rw [List.forM_cons, bind_apply, hx]; exact hrest⟩

/-- A loop over lists that are put together is a loop of loops. -/
theorem forM_flatMap (g : β → List α) (ys : List β) :
    (forM (ys.flatMap g) f : EStateM ε σ Unit) = forM ys fun y => forM (g y) f := by
  induction ys with
  | nil => rfl
  | cons y ys ih => rw [List.flatMap_cons, List.forM_append, List.forM_cons, ih]

end Loops

/-! ## Reading and registering -/

/-- What is read up to the first element that raises, and what that element raises. -/
def collect (read : α → Except ε (Option β)) : List α → List β × Option ε
  | [] => ([], none)
  | x :: xs =>
    match read x with
    | .error e => ([], some e)
    | .ok none => collect read xs
    | .ok (some b) => (b :: (collect read xs).1, (collect read xs).2)

/-- One round of a loop that reads an element and registers what it says. -/
def readThen (read : α → Except ε (Option β)) (register : σ → β → σ) (x : α) : EStateM ε σ Unit :=
  fun s =>
    match read x with
    | .error e => .error e s
    | .ok none => .ok () s
    | .ok (some b) => .ok () (register s b)

/-- The result of a loop that has collected and registered. -/
def registered (register : σ → β → σ) (r : List β × Option ε) (s : σ) : EStateM.Result ε σ Unit :=
  match r.2 with
  | none => .ok () (r.1.foldl register s)
  | some e => .error e (r.1.foldl register s)

theorem final_registered (register : σ → β → σ) (r : List β × Option ε) (s : σ) :
    final (registered register r s) = r.1.foldl register s := by
  unfold registered
  split <;> rfl

/-- The loop registers what it collects, also when it raises. -/
theorem forM_registers (read : α → Except ε (Option β)) (register : σ → β → σ) (xs : List α)
    (s : σ) : forM xs (readThen read register) s = registered register (collect read xs) s := by
  induction xs generalizing s with
  | nil => rfl
  | cons x xs ih =>
    rw [List.forM_cons, bind_apply]
    -- An element raises, says nothing, or says what is registered.
    unfold readThen collect
    rcases read x with e | b | b
    · rfl
    · exact ih s
    · exact ih (register s b)

/-- A loop returns when no element raises. -/
theorem registered_returns {read : α → Except ε (Option β)} {xs : List α}
    (h : ∀ x ∈ xs, ∃ b, read x = .ok b) (register : σ → β → σ) (s : σ) :
    ∃ t, registered register (collect read xs) s = .ok () t := by
  have hnone : (collect read xs).2 = none := by
    induction xs with
    | nil => rfl
    | cons x xs ih =>
      obtain ⟨b, hb⟩ := h x List.mem_cons_self
      have hrest := ih fun y hy => h y (List.mem_cons_of_mem x hy)
      rw [collect, hb]
      cases b with
      | none => exact hrest
      | some b => exact hrest
  exact ⟨_, by rw [registered, hnone]⟩

/-- What is collected was read from an element. -/
theorem mem_collect {read : α → Except ε (Option β)} {xs : List α} {b : β}
    (hb : b ∈ (collect read xs).1) : ∃ x ∈ xs, read x = .ok (some b) := by
  induction xs with
  | nil => cases hb
  | cons x xs ih =>
    unfold collect at hb
    cases hx : read x with
    | error e => simp [hx] at hb
    | ok r =>
      cases r with
      | none =>
        rw [hx] at hb
        obtain ⟨y, hy, hread⟩ := ih hb
        exact ⟨y, List.mem_cons_of_mem x hy, hread⟩
      | some b' =>
        rw [hx] at hb
        rcases List.mem_cons.mp hb with rfl | hb
        · exact ⟨x, List.mem_cons_self, hx⟩
        · obtain ⟨y, hy, hread⟩ := ih hb
          exact ⟨y, List.mem_cons_of_mem x hy, hread⟩

/-- Elements that say nothing can be left out. -/
theorem collect_filter {read : α → Except ε (Option β)} {p : α → Bool}
    (hread : ∀ x, p x = false → read x = .ok none) (xs : List α) :
    collect read (xs.filter p) = collect read xs := by
  induction xs with
  | nil => rfl
  | cons x xs ih =>
    cases hx : p x with
    | true => rw [List.filter_cons_of_pos hx, collect, collect, ih]
    | false =>
      rw [List.filter_cons_of_neg (by simp [hx]), ih, collect, hread x hx]

/-- When every element says something, all of it is collected. -/
theorem collect_of_forall₂ {read : α → Except ε (Option β)} {xs : List α} {bs : List β}
    (h : List.Forall₂ (fun x b => read x = .ok (some b)) xs bs) :
    collect read xs = (bs, none) := by
  induction h with
  | nil => rfl
  | cons hx _ ih => rw [collect, hx, ih]

end Raising

end Guillemot
