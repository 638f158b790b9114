import Mathlib.Algebra.Group.Int.Defs
import Mathlib.Data.List.Perm.Basic
import Guillemot.Library.Steps
import Guillemot.StateMachine.Transition

/-!
# Runs of the node

The node is started with a target, and then handles messages and ticks of its timers one at a time.
A `Process` is the state of the node together with what is being handled: the list object that is
iterated and the position in it. One step is one round of such a loop, so that an effect runs while
the loop that executes it goes on over the list that it began with.

`configuration_invariant` says what holds whenever nothing is being handled, in every run in which
no exception is raised: the classes are those of the last target, and the active triggers and the
timers are those of these classes. The invariant of the rounds is `Configured`.
-/

namespace Guillemot.StateMachine

open Raising Steps
open Relation (ReflTransGen)

variable {F : Type} [PythonFloat F]

/-! ## Processes -/

/-- What the node is doing. -/
inductive Frame (F : Type) where
  /-- `main` is about to change to its first state. -/
  | starting (target : Text)
  | idle
  /-- `callback` is at position `i` of the list object `triggers`. -/
  | callback (data : Value F) (triggers i : ℕ)
  /-- `checkTimers` is at position `i` of the list object `timers`. -/
  | filtering (timers i : ℕ) (killedTimers : List (Timer F))
  /-- An exception has ended `main`. -/
  | halted

/-- The node and what it is doing. -/
structure Process (F : Type) where
  machine : Machine F
  frame : Frame F

/-- What happens next. -/
inductive Label (F : Type) where
  /-- A message arrives. -/
  | message (topic : Text) (data : Value F)
  /-- `main` calls `checkTimers`. -/
  | tick
  /-- What is being handled goes on. -/
  | next

/-- Whether a listener of a type is given such data. Types that are not supported have no
subscriber. -/
def accepts (ttype : Text) : Value F → Bool
  | .int n =>
    (ttype = "int".toList ∧ -2 ^ 31 ≤ n ∧ n < 2 ^ 31) ∨ (ttype = "int8".toList ∧ 0 ≤ n ∧ n < 256)
  | .float _ => ttype = "float".toList
  | .str _ => ttype = "string".toList
  | .img => false

/-- The trigger whose turn it is. -/
def Machine.triggerAt (m : Machine F) (triggers i : ℕ) : Option (Trigger F) :=
  (m.listenerCache.object triggers)[i]?

/-- The timer whose turn it is. -/
def Machine.timerAt (m : Machine F) (timers i : ℕ) : Option (Timer F) :=
  (m.gTimers.object timers)[i]?

/-- What is left of a computation when an exception goes on to `failed`. -/
def resume {α : Type} (returned : α → Machine F → Process F) (failed : Frame F) :
    EStateM.Result Raised (Machine F) α → Process F
  | .ok a m => returned a m
  | .error _ m => ⟨m, failed⟩

/-- One step of the node. An exception ends the handling of a message, and in a timer or at the
start it ends `main`. -/
def step (world : World F) (p : Process F) : Label F → Option (Process F)
  | .message topic data =>
    match p.frame, p.machine.listenerCache.ref topic, p.machine.listenerTypes.lookup topic with
    | .idle, some triggers, some ttype =>
      if accepts ttype data then some { p with frame := .callback data triggers 0 } else none
    | _, _, _ => none
  | .tick =>
    match p.frame, p.machine.gTimers.ref () with
    | .idle, some timers => some { p with frame := .filtering timers 0 [] }
    | _, _ => none
  | .next =>
    match p.frame with
    | .starting target =>
      some (resume (fun _ m => ⟨m, .idle⟩) .halted (changeState world (.str target) p.machine))
    | .callback data triggers i =>
      match p.machine.triggerAt triggers i with
      | none => some { p with frame := .idle }
      | some t =>
        some (resume (fun _ m => ⟨m, .callback data triggers (i + 1)⟩) .idle
          (t.check world data p.machine))
    | .filtering timers i killedTimers =>
      match p.machine.timerAt timers i with
      | none => some ⟨p.machine.removeKilled killedTimers, .idle⟩
      | some t =>
        some (resume
          (fun killed m =>
            ⟨m, .filtering timers (i + 1) (if killed then killedTimers ++ [t] else killedTimers)⟩)
          .halted (checkTimer world t p.machine))
    | .idle => none
    | .halted => none

/-- A message is handled when nothing else is. -/
theorem step_message {world : World F} {p q : Process F} {topic : Text} {data : Value F}
    (h : step world p (.message topic data) = some q) :
    p.frame = .idle ∧ ∃ triggers, q = { p with frame := .callback data triggers 0 } := by
  simp only [step] at h
  split at h
  · rename_i triggers ttype hframe _ _
    split_ifs at h
    exact ⟨hframe, triggers, (Option.some.inj h).symm⟩
  · cases h

/-- The timers are checked when nothing else is handled. -/
theorem step_tick {world : World F} {p q : Process F} (h : step world p .tick = some q) :
    p.frame = .idle ∧ ∃ timers, q = { p with frame := .filtering timers 0 [] } := by
  simp only [step] at h
  split at h
  · rename_i timers hframe _
    exact ⟨hframe, timers, (Option.some.inj h).symm⟩
  · cases h

/-- The loop of `callback` ends, or comes to a trigger. -/
theorem step_callback {world : World F} {m : Machine F} {data : Value F} {triggers i : ℕ}
    {q : Process F} (h : step world ⟨m, .callback data triggers i⟩ .next = some q) :
    (m.triggerAt triggers i = none ∧ q = ⟨m, .idle⟩) ∨
      ∃ t, m.triggerAt triggers i = some t ∧
        q = resume (fun _ u => ⟨u, .callback data triggers (i + 1)⟩) .idle
          (t.check world data m) := by
  simp only [step] at h
  cases hat : m.triggerAt triggers i with
  | none =>
    rw [hat] at h
    exact .inl ⟨rfl, (Option.some.inj h).symm⟩
  | some t =>
    rw [hat] at h
    exact .inr ⟨t, rfl, (Option.some.inj h).symm⟩

/-- The loop of `checkTimers` ends, or comes to a timer. -/
theorem step_filtering {world : World F} {m : Machine F} {timers i : ℕ}
    {killedTimers : List (Timer F)} {q : Process F}
    (h : step world ⟨m, .filtering timers i killedTimers⟩ .next = some q) :
    (m.timerAt timers i = none ∧ q = ⟨m.removeKilled killedTimers, .idle⟩) ∨
      ∃ t, m.timerAt timers i = some t ∧
        q = resume
          (fun killed u =>
            ⟨u, .filtering timers (i + 1) (if killed then killedTimers ++ [t] else killedTimers)⟩)
          .halted (checkTimer world t m) := by
  simp only [step] at h
  cases hat : m.timerAt timers i with
  | none =>
    rw [hat] at h
    exact .inl ⟨rfl, (Option.some.inj h).symm⟩
  | some t =>
    rw [hat] at h
    exact .inr ⟨t, rfl, (Option.some.inj h).symm⟩

/-- Whether a computation raises. -/
def isError {ε σ α : Type} : EStateM.Result ε σ α → Bool
  | .ok _ _ => false
  | .error _ _ => true

theorem eq_ok_of_isError {ε σ α : Type} {r : EStateM.Result ε σ α} (h : isError r = false) :
    ∃ a s, r = .ok a s := by
  cases r with
  | ok a s => exact ⟨a, s, rfl⟩
  | error e s => cases h

/-- Whether an exception is raised in a step. -/
def raises (world : World F) (p : Process F) : Label F → Bool
  | .next =>
    match p.frame with
    | .starting target => isError (changeState world (.str target) p.machine)
    | .callback data triggers i =>
      match p.machine.triggerAt triggers i with
      | none => false
      | some t => isError (t.check world data p.machine)
    | .filtering timers i _ =>
      match p.machine.timerAt timers i with
      | none => false
      | some t => isError (checkTimer world t p.machine)
    | _ => false
  | _ => false

/-- The node before it is started with a target. -/
def start (target : Text) : Process F := ⟨.initial, .starting target⟩

/-! ## What an effect does -/

/-- The target of an effect that changes the state. -/
def Effect.target (effect : Effect) (message : Option (Value F)) : Option Text :=
  match effect.arguments with
  | [] => none
  | arg :: _ =>
    match firstArgument message arg with
    | .ok (.str name) => if effect.etype = "transition".toList then some name else none
    | _ => none

theorem execute_of_target {world : World F} {effect : Effect} {message : Option (Value F)}
    {name : Text} (h : effect.target message = some name) :
    effect.execute world message = changeState world (.str name) := by
  unfold Effect.target at h
  split at h
  · cases h
  · rename_i arg args hargs
    split at h
    · rename_i first hfirst
      split_ifs at h with htype
      obtain rfl := Option.some.inj h
      -- A transition to a string.
      simp only [Effect.execute, hargs, hfirst, if_pos htype]
    · cases h

theorem quiet_execute {world : World F} {effect : Effect} {message : Option (Value F)}
    (h : effect.target message = none) : Keeps Quiet (effect.execute world message) := by
  unfold Effect.execute
  split
  · exact keeps_throw _
  · rename_i arg args hargs
    split
    · exact keeps_throw _
    · rename_i first hfirst
      split_ifs with htype
      · -- The target is not a string.
        intro m
        rw [changeState_of_not_str]
        · exact Std.Refl.refl m
        · rintro name rfl
          simp only [Effect.target, hargs, hfirst, if_pos htype] at h
          cases h
      · exact quiet_sendMessage world _
      · exact keeps_throw _

/-- The state change that an effect makes when it returns. -/
theorem execute_cases {world : World F} {effect : Effect} {message : Option (Value F)}
    {m m' : Machine F} (h : effect.execute world message m = .ok () m') :
    Quiet m m' ∨ ∃ name, changeState world (.str name) m = .ok () m' := by
  cases htarget : effect.target message with
  | none => exact .inl ((quiet_execute htarget).of_ok h)
  | some name => exact .inr ⟨name, by rw [← execute_of_target htarget, h]⟩

theorem check_eq (world : World F) (t : Trigger F) (data : Value F) (m : Machine F) :
    t.check world data m =
      match t.holds world.imgText data with
      | .error e => .error e m
      | .ok true => t.mEffect.execute world (some data) m
      | .ok false => .ok () m := by
  unfold Trigger.check
  cases t.holds world.imgText data with
  | error e => rfl
  | ok fires =>
    cases fires with
    | true => rfl
    | false => rfl

/-- The state change that a trigger makes when it returns. -/
theorem check_cases {world : World F} {t : Trigger F} {data : Value F} {m m' : Machine F}
    (h : t.check world data m = .ok () m') :
    Quiet m m' ∨ ∃ name, changeState world (.str name) m = .ok () m' := by
  rw [check_eq] at h
  split at h
  · cases h
  · exact execute_cases h
  · cases h
    exact .inl (Std.Refl.refl _)

/-- The state in which the effect of a timer is executed. -/
def Machine.fire (m : Machine F) (t : Timer F) : Machine F :=
  { m with asked := m.asked + 1, log := m.log ++ [.fired t] }

theorem checkTimer_eq (world : World F) (t : Timer F) (m : Machine F) :
    checkTimer world t m =
      if t.expired world m then
        match t.effect.execute world none (m.fire t) with
        | .ok _ u => .ok true u
        | .error e u => .error e u
      else .ok false m.cleared := by
  have hask : checkTimer world t m =
      (if t.expired world m then do
        record (.fired t)
        t.effect.execute world none
        return true
      else return false : Node F Bool) m.cleared := rfl
  rw [hask]
  split_ifs
  · change (t.effect.execute world none >>= fun _ => pure true : Node F Bool) (m.fire t) = _
    rw [bind_apply]
    cases t.effect.execute world none (m.fire t) with
    | ok _ u => rfl
    | error e u => rfl
  · rfl

/-! ## The invariant of the rounds -/

/-- The triggers that a file yields belong to its class. -/
theorem mClassName_of_mem {files : Files} {Class : Text} {t : Trigger F}
    (ht : t ∈ triggersOf files Class) : t.mClassName = Class := by
  obtain ⟨line, -, hread⟩ := mem_collect ht
  exact (readTrigger_fields hread).1

omit [PythonFloat F] in
/-- The timers that are made for a class belong to it. -/
theorem Class_of_mem_yielded {Class : Text} {log : List (Event F)} {t : Timer F}
    (ht : t ∈ yielded Class log) : t.Class = Class := by
  induction log using List.reverseRecOn with
  | nil => cases ht
  | append_singleton log event ih =>
    rw [yielded, List.foldl_append, ← yielded, List.foldl_cons, List.foldl_nil] at ht
    cases event with
    -- The list begins anew where `AddTimers` ran for the class.
    | addTimers c =>
      dsimp only at ht
      split_ifs at ht
      · cases ht
      · exact ih ht
    | timer timer =>
      dsimp only at ht
      split_ifs at ht with hclass
      · rcases List.mem_append.mp ht with ht | ht
        · exact ih ht
        · rw [List.mem_singleton.mp ht]
          exact hclass
      · exact ih ht
    | _ => exact ih ht

/-- The triggers are those of the current classes, and so are the timers, but for those that have
gone off, except where the latter wait to be removed in `killedTimers`. -/
structure Balanced (files : Files) (killedTimers : List (Timer F)) (m : Machine F) : Prop where
  active : ∀ topic, (m.active topic).Perm
    ((m.currentClasses.names.flatMap (triggersOf files)).filter (·.mTopic = topic))
  timers : ∃ before, firedIds m.log = before ++ killedTimers.map Timer.id ∧
    m.timers.Perm
      (m.currentClasses.names.flatMap fun c => (yielded c m.log).filter (·.id ∉ before))
  ids : TimerIds m

theorem balanced_initial (files : Files) : Balanced files [] (Machine.initial : Machine F) where
  active topic := .refl _
  timers := ⟨[], rfl, .refl _⟩
  ids :=
    { objects := by
        intro l hl t ht
        have hnil : l = [] := by simpa [Machine.initial, Bindings.bind, Bindings.empty,
          Bindings.keys] using hl
        rw [hnil] at ht
        cases ht
      nodup := .nil
      fired := nofun }

theorem Balanced.of_quiet {files : Files} {killedTimers : List (Timer F)} {m m' : Machine F}
    (h : Balanced files killedTimers m) (hquiet : Quiet m m') :
    Balanced files killedTimers m' where
  active topic := by
    rw [hquiet.active, hquiet.currentClasses]
    exact h.active topic
  timers := by
    obtain ⟨before, hbefore, hperm⟩ := h.timers
    refine ⟨before, by rw [hquiet.firedIds, hbefore], ?_⟩
    simp only [hquiet.timers, hquiet.currentClasses, hquiet.yielded]
    exact hperm
  ids := hquiet.ids h.ids

/-- A timer goes off and waits to be removed. -/
theorem Balanced.fire {files : Files} {killedTimers : List (Timer F)} {m : Machine F}
    (h : Balanced files killedTimers m) {t : Timer F} (ht : t.id < m.asked) :
    Balanced files (killedTimers ++ [t]) (m.fire t) where
  active := h.active
  timers := by
    obtain ⟨before, hbefore, hperm⟩ := h.timers
    have hfired : firedIds (m.fire t).log = firedIds m.log ++ [t.id] := by
      simp [Machine.fire, firedIds]
    have hyielded : ∀ c, yielded c (m.fire t).log = yielded c m.log := fun c => by
      simp [Machine.fire, yielded]
    refine ⟨before, ?_, ?_⟩
    · rw [hfired, hbefore, List.append_assoc, List.map_append]
      rfl
    · simp only [hyielded]
      exact hperm
  ids :=
    { objects := fun l hl u hu => (h.ids.objects l hl u hu).trans (Nat.lt_succ_self _)
      nodup := h.ids.nodup
      fired := fun n hn => by
        have hfired : firedIds (m.fire t).log = firedIds m.log ++ [t.id] := by
          simp [Machine.fire, firedIds]
        rw [hfired] at hn
        rcases List.mem_append.mp hn with hn | hn
        · exact (h.ids.fired n hn).trans (Nat.lt_succ_self _)
        · rw [List.mem_singleton.mp hn]
          exact ht.trans (Nat.lt_succ_self _) }

/-- A transition that returns balances the triggers and timers with the new classes. -/
theorem Balanced.switched {files : Files} {name : Text} {leaving entering : List Text}
    {new killedTimers : List (Timer F)} {m m' : Machine F} (h : Balanced files killedTimers m)
    (hs : Switched files name leaving entering new m m') : Balanced files killedTimers m' where
  -- The triggers of the classes that are left go, and those of the classes entered come.
  active topic := by
    rw [hs.active, List.filter_flatMap, List.filter_flatMap, hs.classes]
    refine Keyed.exchange_perm m.currentClasses.nodup (getAllClasses files name).nodup
      hs.mem_leaving hs.nodup_entering hs.mem_entering ?_ (fun _ _ _ => rfl) ?_
    · exact fun c t ht => mClassName_of_mem (List.mem_of_mem_filter ht)
    · rw [← List.filter_flatMap]
      exact h.active topic
  timers := by
    obtain ⟨before, hbefore, hperm⟩ := h.timers
    refine ⟨before, by rw [hs.firedIds, hbefore], ?_⟩
    -- Identities of new timers are not among those of timers that have gone off.
    have hnew : ∀ c ∈ entering, new.filter (·.Class = c) =
        (yielded c m'.log).filter (·.id ∉ before) := by
      intro c hc
      rw [hs.yielded_new c hc, eq_comm, List.filter_eq_self]
      intro t ht
      have hle := hs.fresh t (List.mem_of_mem_filter ht)
      have hnot : t.id ∉ before := fun hmem => by
        have := h.ids.fired t.id (by rw [hbefore]; exact List.mem_append_left _ hmem)
        omega
      simpa using hnot
    have hentering : (entering.flatMap fun c => (yielded c m'.log).filter (·.id ∉ before)).Perm
        new := by
      rw [← List.flatMap_congr hnew]
      exact Keyed.flatMap_filter_perm hs.nodup_entering hs.of_class
    -- The timers are exchanged as the triggers are. A class that is kept has the same timers as
    -- before.
    rw [hs.timers, hs.classes]
    refine (hentering.symm.append_left _).trans ?_
    refine Keyed.exchange_perm m.currentClasses.nodup (getAllClasses files name).nodup
      hs.mem_leaving hs.nodup_entering hs.mem_entering ?_ (fun c hc hmem => ?_) hperm
    · exact fun c t ht => Class_of_mem_yielded (List.mem_of_mem_filter ht)
    · have hold : c ∉ entering := fun hin => ((hs.mem_entering c).mp hin).2 hc
      rw [hs.yielded_old c hold]
  ids := hs.ids h.ids

omit [PythonFloat F] in
/-- Timers with different identities are removed by their identity. -/
theorem foldl_eraseP (killedTimers : List (Timer F)) {timers : List (Timer F)}
    (hnodup : (timers.map Timer.id).Nodup) :
    killedTimers.foldl (fun timers t => timers.eraseP (·.id = t.id)) timers =
      timers.filter (·.id ∉ killedTimers.map Timer.id) := by
  -- Removing the first timer with an identity removes all of them.
  have hone : ∀ (n : ℕ) {timers : List (Timer F)}, (timers.map Timer.id).Nodup →
      timers.eraseP (·.id = n) = timers.filter (·.id ≠ n) := by
    intro n timers hnodup
    induction timers with
    | nil => rfl
    | cons t timers ih =>
      obtain ⟨ht, htimers⟩ := List.nodup_cons.mp hnodup
      by_cases hid : t.id = n
      · have hrest : timers.filter (·.id ≠ n) = timers := List.filter_eq_self.mpr fun u hu => by
          have hne : u.id ≠ n := fun h => ht (List.mem_map.mpr ⟨u, hu, h.trans hid.symm⟩)
          simpa using hne
        rw [List.eraseP_cons_of_pos (by simpa using hid),
          List.filter_cons_of_neg (by simpa using hid), hrest]
      · rw [List.eraseP_cons_of_neg (by simpa using hid),
          List.filter_cons_of_pos (by simpa using hid), ih htimers]
  induction killedTimers generalizing timers with
  | nil => simp
  | cons t killedTimers ih =>
    rw [List.foldl_cons, hone t.id hnodup, ih (hnodup.sublist (List.filter_sublist.map _)),
      List.filter_filter]
    exact List.filter_congr fun u _ => by simp [Bool.and_comm]

omit [PythonFloat F] in
theorem foldl_eraseP_subset (killedTimers timers : List (Timer F)) :
    killedTimers.foldl (fun timers t => timers.eraseP (·.id = t.id)) timers ⊆ timers := by
  induction killedTimers generalizing timers with
  | nil => exact List.Subset.refl timers
  | cons t killedTimers ih => exact fun u hu => List.eraseP_sublist.subset (ih _ hu)

omit [PythonFloat F] in
theorem get_removeKilled (m : Machine F) (killedTimers : List (Timer F)) :
    (m.removeKilled killedTimers).timers =
      killedTimers.foldl (fun timers t => timers.eraseP (·.id = t.id)) m.timers := by
  rw [Machine.timers, Machine.removeKilled, Bindings.get_modify _ m.gTimers_bound, if_pos rfl]
  rfl

/-- The timers that have gone off are removed. -/
theorem Balanced.removeKilled {files : Files} {killedTimers : List (Timer F)} {m : Machine F}
    (h : Balanced files killedTimers m) : Balanced files [] (m.removeKilled killedTimers) := by
  have htimers : (m.removeKilled killedTimers).timers =
      m.timers.filter (·.id ∉ killedTimers.map Timer.id) := by
    rw [get_removeKilled, foldl_eraseP killedTimers h.ids.nodup]
  refine ⟨h.active, ?_, ?_⟩
  · obtain ⟨before, hbefore, hperm⟩ := h.timers
    refine ⟨before ++ killedTimers.map Timer.id, ?_, ?_⟩
    · rw [List.map_nil, List.append_nil]
      exact hbefore
    · rw [htimers]
      refine (hperm.filter _).trans (.of_eq ?_)
      rw [List.filter_flatMap]
      refine List.flatMap_congr fun c _ => ?_
      rw [List.filter_filter]
      exact List.filter_congr fun t _ => by
        simp [List.mem_append, Bool.and_comm, not_or, Bool.decide_and]
  · refine h.ids.of_sublist (h.ids.objects.modify () fun l hl t ht => ?_) ?_ (le_refl _) rfl
    · exact hl t (foldl_eraseP_subset killedTimers l ht)
    · rw [htimers]
      exact List.filter_sublist

/-! ## Runs -/

/-- The classes are those of the last target, and the triggers and timers are balanced with them. -/
structure Configured (files : Files) (killedTimers : List (Timer F)) (m : Machine F) : Prop extends
    Balanced files killedTimers m where
  classes : ∃ last, lastTarget m.log = some last ∧ m.currentClasses = getAllClasses files last

theorem Configured.of_quiet {files : Files} {killedTimers : List (Timer F)} {m m' : Machine F}
    (h : Configured files killedTimers m) (hquiet : Quiet m m') :
    Configured files killedTimers m' where
  toBalanced := h.toBalanced.of_quiet hquiet
  classes := by
    rw [hquiet.lastTarget, hquiet.currentClasses]
    exact h.classes

theorem Balanced.configured {world : World F} {name : Text} {killedTimers : List (Timer F)}
    {m m' : Machine F} (h : Balanced world.files killedTimers m)
    (hchange : changeState world (.str name) m = .ok () m') :
    Configured world.files killedTimers m' := by
  obtain ⟨leaving, entering, new, hs⟩ := switched_of_ok hchange
  exact ⟨h.switched hs, name, hs.lastTarget, hs.classes⟩

/-- An effect that returns keeps the configuration, also when it changes the state. -/
theorem Configured.of_effect {world : World F} {killedTimers : List (Timer F)} {m m' : Machine F}
    (h : Configured world.files killedTimers m)
    (heffect : Quiet m m' ∨ ∃ name, changeState world (.str name) m = .ok () m') :
    Configured world.files killedTimers m' := by
  rcases heffect with hquiet | ⟨name, hchange⟩
  · exact h.of_quiet hquiet
  · exact h.toBalanced.configured hchange

/-- A timer that returns keeps the configuration. One that has gone off waits to be removed. -/
theorem Configured.checkTimer {world : World F} {killedTimers : List (Timer F)} {t : Timer F}
    {m m' : Machine F} {killed : Bool} (h : Configured world.files killedTimers m)
    (hid : t.id < m.asked) (hres : checkTimer world t m = .ok killed m') :
    Configured world.files (if killed then killedTimers ++ [t] else killedTimers) m' := by
  rw [checkTimer_eq] at hres
  split_ifs at hres
  · -- The timer goes off.
    have hfire : Configured world.files (killedTimers ++ [t]) (m.fire t) := by
      refine ⟨h.toBalanced.fire hid, ?_⟩
      obtain ⟨last, hlast, hclasses⟩ := h.classes
      refine ⟨last, ?_, hclasses⟩
      rw [← hlast]
      simp [Machine.fire, lastTarget]
    split at hres
    · rename_i u hexecute
      cases hres
      exact hfire.of_effect (execute_cases hexecute)
    · cases hres
  · cases hres
    exact h.of_quiet ⟨rfl, Nat.le_succ _, [], (List.append_nil _).symm, List.forall_mem_nil _⟩

/-- The invariant of a process. -/
def Process.Configured (files : Files) (p : Process F) : Prop :=
  match p.frame with
  | .starting _ => p.machine = .initial
  | .idle => StateMachine.Configured files [] p.machine
  | .callback _ _ _ => StateMachine.Configured files [] p.machine
  | .filtering _ _ killedTimers => StateMachine.Configured files killedTimers p.machine
  | .halted => True

/-- A step without an exception keeps the configuration. -/
theorem configured_step {world : World F} {p q : Process F} {l : Label F}
    (h : p.Configured world.files) (hraises : raises world p l = false)
    (hstep : step world p l = some q) : q.Configured world.files := by
  obtain ⟨m, frame⟩ := p
  cases l with
  | message topic data =>
    obtain ⟨hframe, triggers, rfl⟩ := step_message hstep
    obtain rfl : frame = .idle := hframe
    exact h
  | tick =>
    obtain ⟨hframe, timers, rfl⟩ := step_tick hstep
    obtain rfl : frame = .idle := hframe
    exact h
  | next =>
    cases frame with
    | starting target =>
      obtain rfl := Option.some.inj hstep
      obtain rfl : m = .initial := h
      obtain ⟨⟨⟩, u, hres⟩ := eq_ok_of_isError hraises
      rw [hres]
      exact (balanced_initial world.files).configured hres
    | callback data triggers i =>
      obtain ⟨-, rfl⟩ | ⟨t, hat, rfl⟩ := step_callback hstep
      · exact h
      · simp only [raises, hat] at hraises
        obtain ⟨⟨⟩, u, hres⟩ := eq_ok_of_isError hraises
        rw [hres]
        exact StateMachine.Configured.of_effect h (check_cases hres)
    | filtering timers i killedTimers =>
      have hconf : StateMachine.Configured world.files killedTimers m := h
      obtain ⟨-, rfl⟩ | ⟨t, hat, rfl⟩ := step_filtering hstep
      · exact ⟨hconf.toBalanced.removeKilled, hconf.classes⟩
      · simp only [raises, hat] at hraises
        obtain ⟨killed, u, hres⟩ := eq_ok_of_isError hraises
        have hid : t.id < m.asked := hconf.ids.objects.object (List.mem_of_getElem? hat)
        rw [hres]
        exact hconf.checkTimer hid hres
    | idle => cases hstep
    | halted => cases hstep

/-- The active triggers over all listeners. -/
def Machine.allActive (m : Machine F) : List (Trigger F) := m.listenerCache.keys.flatMap m.active

/-- Triggers that are balanced on every listener are so over all listeners. -/
theorem Balanced.allActive {files : Files} {killedTimers : List (Timer F)} {m : Machine F}
    (h : Balanced files killedTimers m) :
    m.allActive.Perm (m.currentClasses.names.flatMap (triggersOf files)) := by
  have hkeys : ∀ t ∈ (m.currentClasses.names.flatMap (triggersOf files) : List (Trigger F)),
      t.mTopic ∈ m.listenerCache.keys := by
    intro t ht
    by_contra hnot
    -- The listener of the trigger would have it.
    have hperm := h.active t.mTopic
    rw [Machine.active, Bindings.get_of_notMem _ hnot, List.nil_perm,
      List.filter_eq_nil_iff] at hperm
    exact hperm t ht (by simp)
  refine (List.Perm.flatMap_left _ fun topic _ => h.active topic).trans ?_
  exact Keyed.flatMap_filter_perm m.listenerCache.keys_nodup hkeys

/-- Whenever nothing is being handled, in a run without exceptions: the classes are those of the
last target, the active triggers are those that the files of the classes yield, each with its class,
and the timers are those that were made when each class was added last, but for those that have gone
off. -/
theorem configuration_invariant (world : World F) (target : Text) (p : Process F)
    (hrun : ReflTransGen (Moves (step world) fun p l => raises world p l = false) (start target) p)
    (hidle : p.frame = .idle) :
    (∃ last, lastTarget p.machine.log = some last ∧
        p.machine.currentClasses = getAllClasses world.files last) ∧
      p.machine.allActive.Perm
        (p.machine.currentClasses.names.flatMap (triggersOf world.files)) ∧
      (∀ c ∈ p.machine.currentClasses, ∀ t ∈ (triggersOf world.files c : List (Trigger F)),
        t.mClassName = c) ∧
      p.machine.timers.Perm
        (p.machine.currentClasses.names.flatMap fun c =>
          (yielded c p.machine.log).filter (·.id ∉ firedIds p.machine.log)) := by
  have hstart : (start target : Process F).Configured world.files := by
    rw [Process.Configured]
    rfl
  have hinvariant : p.Configured world.files :=
    invariant_of_moves (fun _ _ _ hp hraises hstep => configured_step hp hraises hstep) hstart hrun
  obtain ⟨m, frame⟩ := p
  obtain rfl : frame = .idle := hidle
  have hconf : Configured world.files [] m := hinvariant
  -- Nothing waits to be removed, so that the timers that have gone off are those before.
  obtain ⟨before, hbefore, hperm⟩ := hconf.timers
  rw [List.map_nil, List.append_nil] at hbefore
  refine ⟨hconf.classes, hconf.toBalanced.allActive, fun c _ t ht => mClassName_of_mem ht, ?_⟩
  rw [hbefore]
  exact hperm

/-- Whether nothing is being handled. -/
def Frame.isIdle : Frame F → Bool
  | .idle => true
  | _ => false

omit [PythonFloat F] in
theorem Frame.eq_idle {frame : Frame F} (h : frame.isIdle = true) : frame = .idle := by
  cases frame with
  | idle => rfl
  | starting | callback | filtering | halted => cases h

/-- A state with a trigger to another one, and this one with a timer back to the first. -/
def backAndForth : Files :=
  [("A".toList, "\n<Triggers>\n/a string any x triggers transition B".toList),
    ("B".toList, "\n<Timers>\nafter 1 s do transition A".toList)]

/-- The run of the node that is started in the first state: a message leads to the second one, and
the second tick back. -/
def thereAndBack : Option (Process ℚ) :=
  run (step (World.reliable backAndForth))
    (fun p l => raises (World.reliable backAndForth) p l = false)
    [.next, .message "/a".toList (.str "x".toList), .next, .next, .tick, .next, .next, .tick, .next,
      .next]
    (start "A".toList)

/-- Back in the first state, the node is configured for it. -/
theorem configured_there_and_back : ∃ p, thereAndBack = some p ∧
    p.machine.currentClasses.names = ["A".toList] ∧
    p.machine.allActive.Perm
      (p.machine.currentClasses.names.flatMap (triggersOf backAndForth)) := by
  have hback : (match thereAndBack with
      | some p => p.frame.isIdle && p.machine.currentClasses.names == ["A".toList]
      | none => false) = true := by decide +kernel
  cases hrun : thereAndBack with
  | none =>
    rw [hrun] at hback
    cases hback
  | some p =>
    rw [hrun] at hback
    obtain ⟨hidle, hnames⟩ := Bool.and_eq_true_iff.mp hback
    exact ⟨p, rfl, eq_of_beq hnames, (configuration_invariant (World.reliable backAndForth)
      "A".toList p (moves_of_run hrun) (Frame.eq_idle hidle)).2.1⟩

end Guillemot.StateMachine
