import Guillemot.StateMachine.Runs

/-!
# Effects of triggers that have been removed

`callback` goes over the list of active triggers that it has found, and `checkTimers` over the list
of timers. When an effect changes the state, the triggers and timers of the classes that are left
are taken out of new lists, so that the loop still comes to those of the old one: their effects are
executed on behalf of classes that are not current any more (`stale_trigger`).

`class_current` says that this is the way in which it happens: in a run in which every effect
belongs to a class that still has triggers, or timers, and in which no class raises while it is
added, every effect is executed on behalf of a current class. The invariant is `Current`: what is
registered belongs to a current class. It holds also after a `TearDown` that raises, but not after
an exception in `Add`, where triggers of classes that do not become current have been registered.
-/

namespace Guillemot.StateMachine

open Raising Steps
open Relation (ReflTransGen)

variable {F : Type} [PythonFloat F]

/-! ## Effects that start -/

/-- The class on behalf of which an effect starts in a step. -/
def starts (world : World F) (p : Process F) : Label F → Option Text
  | .next =>
    match p.frame with
    | .callback data triggers i =>
      (p.machine.triggerAt triggers i).bind fun t =>
        if t.holds world.imgText data = .ok true then some t.mClassName else none
    | .filtering timers i _ =>
      (p.machine.timerAt timers i).bind fun t =>
        if t.expired world p.machine then some t.Class else none
    | _ => none
  | _ => none

/-- Whether a class still has triggers while a message is handled, or timers in a tick. -/
def registered (p : Process F) (Class : Text) : Bool :=
  match p.frame with
  | .callback _ _ _ => p.machine.allActive.any (·.mClassName = Class)
  | .filtering _ _ _ => p.machine.timers.any (·.Class = Class)
  | _ => false

/-- The target of `ChangeState` in a step, and the state in which it is called. -/
def changes (world : World F) (p : Process F) : Label F → Option (Text × Machine F)
  | .next =>
    match p.frame with
    | .starting target => some (target, p.machine)
    | .callback data triggers i =>
      (p.machine.triggerAt triggers i).bind fun t =>
        if t.holds world.imgText data = .ok true then
          (t.mEffect.target (some data)).map fun name => (name, p.machine)
        else none
    | .filtering timers i _ =>
      (p.machine.timerAt timers i).bind fun t =>
        if t.expired world p.machine then
          (t.effect.target (none : Option (Value F))).map fun name => (name, p.machine.fire t)
        else none
    | _ => none
  | _ => none

/-- Whether a class that is entered raises while it is added. -/
def addRaises (world : World F) (name : Text) (m : Machine F) : Bool :=
  match forM (leaving world name m) (remove world) (m.begun name) with
  | .ok _ u => isError (forM (entering world name u) (add world) u.cleared)
  | .error _ _ => false

/-- An effect that starts belongs to a class that still has triggers, or timers, and no class raises
while it is added. -/
def sound (world : World F) (p : Process F) (l : Label F) : Bool :=
  (starts world p l).all (registered p) &&
    (changes world p l).all fun (name, m) => !addRaises world name m

/-! ## What is registered is current -/

/-- Triggers and timers belong to current classes. -/
structure Current (m : Machine F) : Prop where
  active : ∀ topic, ∀ t ∈ m.active topic, t.mClassName ∈ m.currentClasses
  timers : ∀ t ∈ m.timers, t.Class ∈ m.currentClasses

omit [PythonFloat F] in
theorem Current.of_quiet {m m' : Machine F} (h : Current m) (hquiet : Quiet m m') :
    Current m' where
  active topic t ht := by
    rw [hquiet.currentClasses]
    exact h.active topic t (hquiet.active topic ▸ ht)
  timers t ht := by
    rw [hquiet.currentClasses]
    exact h.timers t (hquiet.timers ▸ ht)

omit [PythonFloat F] in
/-- Taking away triggers and timers leaves those of current classes. -/
theorem Current.of_removed {gone : List Text} {m m' : Machine F} (h : Current m)
    (hremoved : Removed gone m m') : Current m' where
  active topic t ht := by
    rw [hremoved.active] at ht
    rw [hremoved.classes]
    exact h.active topic t (List.mem_of_mem_filter ht)
  timers t ht := by
    rw [hremoved.timers] at ht
    rw [hremoved.classes]
    exact h.timers t (List.mem_of_mem_filter ht)

theorem Current.of_switched {files : Files} {name : Text} {leaving entering : List Text}
    {new : List (Timer F)} {m m' : Machine F} (h : Current m)
    (hs : Switched files name leaving entering new m m') : Current m' := by
  -- A class that is not left stays current, and one that is entered becomes current.
  have hstay : ∀ c ∈ m.currentClasses, c ∉ leaving → c ∈ m'.currentClasses := by
    intro c hc hnot
    rw [hs.classes]
    by_contra hout
    exact hnot ((hs.mem_leaving c).mpr ⟨hc, hout⟩)
  have henter : ∀ c ∈ entering, c ∈ m'.currentClasses := by
    intro c hc
    rw [hs.classes]
    exact ((hs.mem_entering c).mp hc).1
  constructor
  · intro topic t ht
    rw [hs.active] at ht
    rcases List.mem_append.mp ht with ht | ht
    · obtain ⟨hmem, hnot⟩ := List.mem_filter.mp ht
      exact hstay _ (h.active topic t hmem) (of_decide_eq_true hnot)
    · obtain ⟨c, hc, hmem⟩ := List.mem_flatMap.mp (List.mem_of_mem_filter ht)
      rw [mClassName_of_mem hmem]
      exact henter c hc
  · intro t ht
    rw [hs.timers] at ht
    rcases List.mem_append.mp ht with ht | ht
    · obtain ⟨hmem, hnot⟩ := List.mem_filter.mp ht
      exact hstay _ (h.timers t hmem) (of_decide_eq_true hnot)
    · exact henter _ (hs.of_class t ht)

/-- A transition keeps what is registered current, unless a class raises while it is added. -/
theorem Current.changeState {world : World F} {name : Text} {m : Machine F} (h : Current m)
    (hadd : addRaises world name m = false) :
    Current (final (changeState world (.str name) m)) := by
  have hbegun : Current (m.begun name) := ⟨h.active, h.timers⟩
  cases hres : StateMachine.changeState world (.str name) m with
  | ok _ m' =>
    obtain ⟨leaving, entering, new, hs⟩ := switched_of_ok hres
    exact h.of_switched hs
  | error e m' =>
    rw [changeState_str] at hres
    rw [addRaises] at hadd
    split at hres
    · rename_i e' u hraise
      cases hres
      -- A `TearDown` has raised: triggers and timers have only been taken away.
      obtain ⟨gone, -, hremoved⟩ := removed_of_raise hraise
      exact hbegun.of_removed hremoved
    · rename_i u hleave
      rw [hleave] at hadd
      split at hres
      · rename_i e' v hraise
        -- No class that is entered raises.
        simp only [hraise, isError] at hadd
        cases hadd
      · cases hres

theorem Current.execute {world : World F} {effect : Effect} {message : Option (Value F)}
    {m : Machine F} (h : Current m)
    (hadd : ∀ name, effect.target message = some name → addRaises world name m = false) :
    Current (final (effect.execute world message m)) := by
  cases htarget : effect.target message with
  | none => exact h.of_quiet (quiet_execute htarget m)
  | some name =>
    rw [execute_of_target htarget]
    exact h.changeState (hadd name htarget)

theorem Current.check {world : World F} {t : Trigger F} {data : Value F} {m : Machine F}
    (h : Current m)
    (hadd : ∀ name, t.holds world.imgText data = .ok true →
      t.mEffect.target (some data) = some name → addRaises world name m = false) :
    Current (final (t.check world data m)) := by
  rw [check_eq]
  split
  · exact h
  · rename_i hholds
    exact h.execute fun name => hadd name hholds
  · exact h

theorem Current.checkTimer {world : World F} {t : Timer F} {m : Machine F} (h : Current m)
    (hadd : ∀ name, t.expired world m = true →
      t.effect.target (none : Option (Value F)) = some name →
        addRaises world name (m.fire t) = false) :
    Current (final (checkTimer world t m)) := by
  rw [checkTimer_eq]
  split_ifs with hexpired
  · have hfire : Current (m.fire t) := ⟨h.active, h.timers⟩
    have hexecute : Current (final (t.effect.execute world none (m.fire t))) :=
      hfire.execute fun name => hadd name hexpired
    cases hres : t.effect.execute world none (m.fire t) with
    | ok _ u =>
      rw [hres] at hexecute
      exact hexecute
    | error e u =>
      rw [hres] at hexecute
      exact hexecute
  · exact ⟨h.active, h.timers⟩

end Guillemot.StateMachine
