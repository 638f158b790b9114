import Guillemot.Library.Keyed
import Guillemot.StateMachine.Loading

/-!
# What a change of state does

`ChangeState` removes the classes that are left, one after the other, and then adds those that are
entered. The relations of this file say what the parts do to the classes, the active triggers and
the timers. Publishing changes none of them (`Quiet`), removing classes takes their triggers and
timers away (`Removed`), and adding classes appends what their files yield (`Added`).

An exception ends the transition where it is, and nothing is undone: `changeState_raised` says in
which state the node is left. The classes are as before, and the triggers and timers are those of a
transition that has gone a part of the way.
-/

namespace Guillemot.StateMachine

open Raising

variable {F : Type}

/-! ## What the record says -/

/-- The target of the last `ChangeState`. -/
def lastTarget (log : List (Event F)) : Option Text :=
  log.foldl (fun target event =>
    match event with
    | .changeState newState => some newState
    | _ => target) none

/-- The identities of the timers that have gone off. -/
def firedIds (log : List (Event F)) : List ℕ :=
  log.filterMap fun event =>
    match event with
    | .fired timer => some timer.id
    | _ => none

/-- The timers that `AddTimers` made for a class when it ran last for it. -/
def yielded (Class : Text) (log : List (Event F)) : List (Timer F) :=
  log.foldl (fun timers event =>
    match event with
    | .addTimers c => if c = Class then [] else timers
    | .timer timer => if timer.Class = Class then timers ++ [timer] else timers
    | _ => timers) []

/-- Timers are told apart by their identities, and those to come will have new ones. -/
structure TimerIds (m : Machine F) : Prop where
  objects : m.gTimers.All fun t => t.id < m.asked
  nodup : (m.timers.map Timer.id).Nodup
  fired : ∀ n ∈ firedIds m.log, n < m.asked

/-- Identities stay told apart when timers are taken away. -/
theorem TimerIds.of_sublist {m m' : Machine F} (h : TimerIds m)
    (hobjects : m'.gTimers.All fun t => t.id < m.asked) (hsub : m'.timers.Sublist m.timers)
    (hasked : m.asked ≤ m'.asked) (hfired : firedIds m'.log = firedIds m.log) : TimerIds m' where
  objects l hl t ht := (hobjects l hl t ht).trans_le hasked
  nodup := h.nodup.sublist (hsub.map _)
  fired n hn := (h.fired n (hfired ▸ hn)).trans_le hasked

/-- The events of messages, set-up and tear-down. -/
def Event.quiet : Event F → Bool
  | .setup _ => true
  | .tearDown _ => true
  | .published _ _ => true
  | _ => false

section Quiet

variable {log events : List (Event F)} (h : ∀ event ∈ events, event.quiet = true)

include h

/-- What passes over quiet events is not changed by them. -/
theorem foldl_quiet {β : Type} {f : β → Event F → β}
    (hf : ∀ b event, event.quiet = true → f b event = b) (b : β) : events.foldl f b = b := by
  induction events with
  | nil => rfl
  | cons event events ih =>
    obtain ⟨hevent, hevents⟩ := List.forall_mem_cons.mp h
    rw [List.foldl_cons, hf b event hevent]
    exact ih hevents

theorem lastTarget_append : lastTarget (log ++ events) = lastTarget log := by
  rw [lastTarget, List.foldl_append, ← lastTarget]
  refine foldl_quiet h (fun target event hevent => ?_) _
  cases event with
  | setup | tearDown | published => rfl
  | changeState | addTimers | timer | fired => cases hevent

theorem firedIds_append : firedIds (log ++ events) = firedIds log := by
  rw [firedIds, List.filterMap_append, ← firedIds, List.append_right_eq_self,
    List.filterMap_eq_nil_iff]
  intro event hmem
  have hevent := h event hmem
  cases event with
  | setup | tearDown | published => rfl
  | changeState | addTimers | timer | fired => cases hevent

theorem yielded_append (Class : Text) : yielded Class (log ++ events) = yielded Class log := by
  rw [yielded, List.foldl_append, ← yielded]
  refine foldl_quiet h (fun timers event hevent => ?_) _
  cases event with
  | setup | tearDown | published => rfl
  | changeState | addTimers | timer | fired => cases hevent

end Quiet

/-- Nothing but messages, set-up and tear-down. -/
structure Quiet (m m' : Machine F) : Prop where
  same : m' = { m with asked := m'.asked, log := m'.log }
  asked : m.asked ≤ m'.asked
  log : ∃ events, m'.log = m.log ++ events ∧ ∀ event ∈ events, event.quiet = true

instance : Std.Refl (Quiet (F := F)) := ⟨fun m => ⟨rfl, le_refl _, [], by simp, by simp⟩⟩

instance : IsTrans (Machine F) Quiet where
  trans m u m' h h' := by
    obtain ⟨events, hlog, hquiet⟩ := h.log
    obtain ⟨events', hlog', hquiet'⟩ := h'.log
    refine ⟨?_, h.asked.trans h'.asked, events ++ events', ?_, fun event hmem => ?_⟩
    · rw [h'.same, h.same]
    · rw [hlog', hlog, List.append_assoc]
    · rcases List.mem_append.mp hmem with hmem | hmem
      · exact hquiet event hmem
      · exact hquiet' event hmem

namespace Quiet

variable {m m' : Machine F} (h : Quiet m m')

include h

theorem currentClasses : m'.currentClasses = m.currentClasses := by rw [h.same]

theorem active (topic : Text) : m'.active topic = m.active topic := by rw [h.same]; rfl

theorem timers : m'.timers = m.timers := by rw [h.same]; rfl

theorem lastTarget : StateMachine.lastTarget m'.log = StateMachine.lastTarget m.log := by
  obtain ⟨events, hlog, hquiet⟩ := h.log
  rw [hlog, lastTarget_append hquiet]

theorem firedIds : StateMachine.firedIds m'.log = StateMachine.firedIds m.log := by
  obtain ⟨events, hlog, hquiet⟩ := h.log
  rw [hlog, firedIds_append hquiet]

theorem yielded (Class : Text) :
    StateMachine.yielded Class m'.log = StateMachine.yielded Class m.log := by
  obtain ⟨events, hlog, hquiet⟩ := h.log
  rw [hlog, yielded_append hquiet]

theorem ids (hids : TimerIds m) : TimerIds m' := by
  have htimers : m'.gTimers = m.gTimers := by rw [h.same]
  refine hids.of_sublist (by rw [htimers]; exact hids.objects) ?_ h.asked h.firedIds
  rw [h.timers]

end Quiet

/-! ## Messages are quiet -/

theorem quiet_ask : Keeps Quiet (ask : Node F ℕ) :=
  fun m => ⟨rfl, Nat.le_succ _, [], by simp [ask, final], by simp⟩

theorem quiet_record {event : Event F} (h : event.quiet = true) : Keeps Quiet (record event) :=
  fun _ => ⟨rfl, le_refl _, [event], rfl, by simpa using h⟩

theorem quiet_published (topic : Value F) (message : Message F) :
    Keeps Quiet (record (.published topic message)) := quiet_record rfl

section Messages

variable {R : Machine F → Machine F → Prop} [Std.Refl R]

theorem keeps_attempt {α : Type} (result : Except Raised α) :
    Keeps R (attempt result : Node F α) := by
  cases result with
  | ok a => exact keeps_pure a
  | error e => exact keeps_throw e

variable [IsTrans (Machine F) R] [PythonFloat F]
  (hask : Keeps R ask) (hpublished : ∀ topic message, Keeps R (record (.published topic message)))

include hask hpublished

/-- What questions to the world and published messages keep is kept by every message. -/
theorem keeps_sendMessage (world : World F) (fields : List (Value F)) :
    Keeps R (sendMessage world fields) := by
  -- The two questions to the world, each of which may end in an exception.
  have hpublisher : ∀ topic, Keeps R (getPublisher world topic) := fun topic =>
    hask.bind fun n => by
      split_ifs
      · exact keeps_pure _
      · exact keeps_throw _
  have hpublish : ∀ topic message, Keeps R (publish world topic message) :=
    fun topic message => hask.bind fun n => by
      split_ifs
      · exact hpublished topic message
      · exact keeps_throw _
  refine (keeps_attempt _).bind fun kind => ?_
  split_ifs
  · refine (keeps_attempt _).bind fun topic => (hpublisher topic).bind fun _ => ?_
    -- The arguments of `publish` are made after the publisher has been looked up.
    exact (keeps_attempt _).bind fun message => hpublish topic message
  · exact keeps_pure _

theorem keeps_dispatchMessages (world : World F) (data : Text) :
    Keeps R (dispatchMessages world data) := by
  refine keeps_forM fun message _ => ?_
  split
  · exact keeps_throw _
  · split_ifs
    · exact keeps_sendMessage hask hpublished world _
    · exact keeps_pure _

/-- So do the sections with a name, under a condition on their data. -/
theorem keeps_dispatchSections (world : World F) (parts : List (Text × Text))
    (p : Text × Text → Prop) [DecidablePred p] :
    Keeps R (forM parts fun part =>
      if p part then dispatchMessages world part.2 else pure () : Node F Unit) := by
  refine keeps_forM fun part _ => ?_
  split_ifs
  · exact keeps_dispatchMessages hask hpublished world part.2
  · exact keeps_pure _

end Messages

section Sections

variable [PythonFloat F]

theorem quiet_sendMessage (world : World F) (fields : List (Value F)) :
    Keeps Quiet (sendMessage world fields) :=
  keeps_sendMessage quiet_ask quiet_published world fields

theorem quiet_setup (world : World F) (Class : Text) : Keeps Quiet (setup world Class) :=
  (quiet_record rfl).bind fun _ => keeps_dispatchSections quiet_ask quiet_published world _
    fun part => part.1 = "Setup".toList ∧ part.2 ≠ []

theorem quiet_tearDown (world : World F) (Class : Text) : Keeps Quiet (tearDown world Class) :=
  (quiet_record rfl).bind fun _ => keeps_dispatchSections quiet_ask quiet_published world _
    fun part => part.1 = "TearDown".toList

end Sections

/-! ## Classes that are left -/

/-- The triggers and timers of the classes in `gone` have been taken away. -/
structure Removed (gone : List Text) (m m' : Machine F) : Prop where
  classes : m'.currentClasses = m.currentClasses
  active : ∀ topic, m'.active topic = (m.active topic).filter (·.mClassName ∉ gone)
  timers : m'.timers = m.timers.filter (·.Class ∉ gone)
  asked : m.asked ≤ m'.asked
  log : ∃ events, m'.log = m.log ++ events ∧ ∀ event ∈ events, event.quiet = true
  ids : TimerIds m → TimerIds m'

theorem Quiet.removed {m m' : Machine F} (h : Quiet m m') : Removed [] m m' where
  classes := h.currentClasses
  active topic := by rw [h.active]; simp
  timers := by rw [h.timers]; simp
  asked := h.asked
  log := h.log
  ids := h.ids

theorem Removed.trans {gone gone' : List Text} {m u m' : Machine F} (h : Removed gone m u)
    (h' : Removed gone' u m') : Removed (gone ++ gone') m m' where
  classes := h'.classes.trans h.classes
  active topic := by
    rw [h'.active, h.active, List.filter_filter]
    exact List.filter_congr fun t _ => by simp [Bool.and_comm]
  timers := by
    rw [h'.timers, h.timers, List.filter_filter]
    exact List.filter_congr fun t _ => by simp [Bool.and_comm]
  asked := h.asked.trans h'.asked
  log := by
    obtain ⟨events, hlog, hquiet⟩ := h.log
    obtain ⟨events', hlog', hquiet'⟩ := h'.log
    refine ⟨events ++ events', by rw [hlog', hlog, List.append_assoc], fun event hmem => ?_⟩
    exact (List.mem_append.mp hmem).elim (hquiet event) (hquiet' event)
  ids hids := h'.ids (h.ids hids)

/-- What is left is what was there exactly when the classes held nothing. -/
theorem Removed.unchanged_iff {gone : List Text} {m m' : Machine F} (h : Removed gone m m') :
    ((∀ topic, m'.active topic = m.active topic) ∧ m'.timers = m.timers) ↔
      (∀ topic, ∀ t ∈ m.active topic, t.mClassName ∉ gone) ∧ ∀ t ∈ m.timers, t.Class ∉ gone := by
  simp only [h.active, h.timers, List.filter_eq_self, decide_eq_true_eq]

section Leaving

variable [PythonFloat F] {world : World F}

theorem removed_of_ok {Class : Text} {m m' : Machine F} (h : remove world Class m = .ok () m') :
    Removed [Class] m m' := by
  obtain ⟨⟨⟩, u, htear, hrest⟩ := bind_eq_ok_iff.mp h
  have hquiet := (quiet_tearDown world Class).of_ok htear
  -- `RemoveTriggers` and `RemoveTimers` do not raise.
  cases hrest
  have hactive : ∀ topic, (u.listenerCache.rebindAll
      (·.filter (·.mClassName ≠ Class))).get topic =
        (u.active topic).filter (·.mClassName ∉ [Class]) := by
    intro topic
    rw [Bindings.get_rebindAll _ List.filter_nil]
    exact List.filter_congr fun t _ => by simp
  have htimers : (u.gTimers.rebind (·.filter (·.Class ≠ Class)) ()).get () =
      u.timers.filter (·.Class ∉ [Class]) := by
    rw [Bindings.get_rebind _ _ u.gTimers_bound, if_pos rfl]
    exact List.filter_congr fun t _ => by simp
  exact
    { classes := hquiet.currentClasses
      active := fun topic => by rw [← hquiet.active]; exact hactive topic
      timers := by rw [← hquiet.timers]; exact htimers
      asked := hquiet.asked
      log := hquiet.log
      -- Only the list bound now is filtered: the objects of loops that still run are as before.
      ids := fun hids => by
        have hu := hquiet.ids hids
        refine hu.of_sublist (hu.objects.rebind () ?_) ?_ (le_refl _) rfl
        · exact fun l hl t ht => hl t (List.mem_of_mem_filter ht)
        · exact (htimers.symm ▸ List.filter_sublist : List.Sublist _ u.timers) }

/-- What raises when a class is removed is its `TearDown`. -/
theorem tearDown_of_error {Class : Text} {m m' : Machine F} {e : Raised}
    (h : remove world Class m = .error e m') : tearDown world Class m = .error e m' := by
  rcases bind_eq_error_iff.mp h with htear | ⟨_, u, -, hrest⟩
  · exact htear
  · rcases bind_eq_error_iff.mp hrest with hraise | ⟨_, v, -, hraise⟩
    · cases hraise
    · cases hraise

theorem removed_of_loop {leaving : List Text} {m m' : Machine F}
    (h : forM leaving (remove world) m = .ok () m') : Removed leaving m m' :=
  forM_ok (I := fun gone u => Removed gone m u) (Quiet.removed (Std.Refl.refl m))
    (fun _ _ _ _ _ hdone hremove => hdone.trans (removed_of_ok hremove)) h

theorem removed_of_raise {leaving : List Text} {m m' : Machine F} {e : Raised}
    (h : forM leaving (remove world) m = .error e m') :
    ∃ gone, gone <+: leaving ∧ Removed gone m m' := by
  obtain ⟨gone, c, rest, u, rfl, hgone, hraise⟩ := forM_eq_error_iff.mp h
  have hquiet := (quiet_tearDown world c).of_error (tearDown_of_error hraise)
  refine ⟨gone, List.prefix_append _ _, ?_⟩
  -- The class whose `TearDown` raises keeps its triggers and timers.
  simpa using (removed_of_loop hgone).trans hquiet.removed

end Leaving

/-! ## Classes that are entered -/

section Entering

variable [PythonFloat F]

/-- The triggers of the classes in `entered` and timers of those in `timed` have been appended. -/
structure Added (files : Files) (entered timed : List Text) (new : List (Timer F))
    (m m' : Machine F) : Prop where
  classes : m'.currentClasses = m.currentClasses
  active : ∀ topic, m'.active topic =
    m.active topic ++ (entered.flatMap (triggersOf files)).filter (·.mTopic = topic)
  timers : m'.timers = m.timers ++ new
  of_class : ∀ t ∈ new, t.Class ∈ timed
  fresh : ∀ t ∈ new, m.asked ≤ t.id
  asked : m.asked ≤ m'.asked
  lastTarget : lastTarget m'.log = lastTarget m.log
  firedIds : firedIds m'.log = firedIds m.log
  yielded_new : ∀ c ∈ timed, yielded c m'.log = new.filter (·.Class = c)
  yielded_old : ∀ c, c ∉ timed → yielded c m'.log = yielded c m.log
  ids : TimerIds m → TimerIds m'

variable {files : Files}

theorem Quiet.added {m m' : Machine F} (h : Quiet m m') : Added files [] [] [] m m' where
  classes := h.currentClasses
  active topic := by rw [h.active]; simp
  timers := by rw [h.timers]; simp
  of_class := nofun
  fresh := nofun
  asked := h.asked
  lastTarget := h.lastTarget
  firedIds := h.firedIds
  yielded_new := nofun
  yielded_old c _ := h.yielded c
  ids := h.ids

/-- Additions of timers for different classes one after the other. -/
theorem Added.trans {entered entered' timed timed' : List Text} {new new' : List (Timer F)}
    {m u m' : Machine F} (h : Added files entered timed new m u)
    (h' : Added files entered' timed' new' u m') (hdisjoint : timed.Disjoint timed') :
    Added files (entered ++ entered') (timed ++ timed') (new ++ new') m m' where
  classes := h'.classes.trans h.classes
  active topic := by
    rw [h'.active, h.active, List.flatMap_append, List.filter_append, List.append_assoc]
  timers := by rw [h'.timers, h.timers, List.append_assoc]
  of_class t ht := by
    rcases List.mem_append.mp ht with ht | ht
    · exact List.mem_append_left _ (h.of_class t ht)
    · exact List.mem_append_right _ (h'.of_class t ht)
  fresh t ht := by
    rcases List.mem_append.mp ht with ht | ht
    · exact h.fresh t ht
    · exact h.asked.trans (h'.fresh t ht)
  asked := h.asked.trans h'.asked
  lastTarget := h'.lastTarget.trans h.lastTarget
  firedIds := h'.firedIds.trans h.firedIds
  yielded_new c hc := by
    -- The timers of a class come from the part in which it is added.
    have hnone : ∀ (cs : List Text) (ts : List (Timer F)), (∀ t ∈ ts, t.Class ∈ cs) → c ∉ cs →
        ts.filter (·.Class = c) = [] := by
      intro cs ts hts hnot
      rw [List.filter_eq_nil_iff]
      intro t ht heq
      exact hnot (of_decide_eq_true heq ▸ hts t ht)
    rw [List.filter_append]
    rcases List.mem_append.mp hc with hc | hc
    · have hnot : c ∉ timed' := fun hmem => hdisjoint hc hmem
      rw [h'.yielded_old c hnot, h.yielded_new c hc, hnone timed' new' h'.of_class hnot,
        List.append_nil]
    · have hnot : c ∉ timed := fun hmem => hdisjoint hmem hc
      rw [h'.yielded_new c hc, hnone timed new h.of_class hnot, List.nil_append]
  yielded_old c hc := by
    rw [List.mem_append, not_or] at hc
    rw [h'.yielded_old c hc.2, h.yielded_old c hc.1]
  ids hids := h'.ids (h.ids hids)

/-- The triggers of a class are appended, also when a line raises. -/
theorem added_triggers (Class : Text) (m : Machine F) :
    Added files [Class] [] [] m ((triggersOf files Class).foldl Machine.appendTrigger m) := by
  -- Registering a trigger touches the listeners only.
  have hkeep : ∀ (ts : List (Trigger F)) (m : Machine F),
      ts.foldl Machine.appendTrigger m =
        { m with
          listenerTypes := (ts.foldl Machine.appendTrigger m).listenerTypes
          listenerCache := (ts.foldl Machine.appendTrigger m).listenerCache } := by
    intro ts
    induction ts with
    | nil => exact fun m => rfl
    | cons t ts ih =>
      intro m
      rw [List.foldl_cons, ih]
      rfl
  have htriggers : [Class].flatMap (triggersOf files) =
      (triggersOf files Class : List (Trigger F)) :=
    List.flatMap_singleton _ _
  exact
    { classes := by rw [hkeep]
      active := fun topic => by rw [active_foldl_appendTrigger, htriggers]
      timers := by rw [hkeep, List.append_nil]; rfl
      of_class := nofun
      fresh := nofun
      asked := by rw [hkeep]
      lastTarget := by rw [hkeep]
      firedIds := by rw [hkeep]
      yielded_new := nofun
      yielded_old := fun c _ => by rw [hkeep]
      ids := fun hids => by
        rw [hkeep]
        exact hids.of_sublist hids.objects (List.Sublist.refl _) (le_refl _) rfl }

/-- New timers have identities that no timer has had. -/
theorem ids_foldl_appendTimer (world : World F) (Class : Text) (ls : List (F × Effect))
    {m : Machine F} (hids : TimerIds m) :
    TimerIds (ls.foldl (Machine.appendTimer world Class)
      { m with log := m.log ++ [.addTimers Class] }) := by
  have hstep : ∀ (m : Machine F) (line : F × Effect), TimerIds m →
      TimerIds (m.appendTimer world Class line) := by
    intro m line hids
    have htimers : (m.appendTimer world Class line).timers =
        m.timers ++ [Timer.make world Class m.asked line] :=
      (foldl_appendTimer world Class [line] m).2.2.1
    -- The new timer is named by the question that is asked now, and those before by earlier ones.
    refine ⟨?_, ?_, fun n hn => ?_⟩
    · refine Bindings.All.modify (P := fun t : Timer F => t.id < m.asked + 1)
        (fun l hl t ht => (hids.objects l hl t ht).trans (Nat.lt_succ_self _)) () ?_
      intro l hl t ht
      rcases List.mem_append.mp ht with ht | ht
      · exact hl t ht
      · rw [List.mem_singleton.mp ht]
        exact Nat.lt_succ_self _
    · rw [htimers, List.map_append, List.map_singleton, List.nodup_append_comm]
      refine List.nodup_cons.mpr ⟨fun hmem => ?_, hids.nodup⟩
      obtain ⟨t, ht, hid⟩ := List.mem_map.mp hmem
      have hlt := hids.objects.get ht
      have hmake : (Timer.make world Class m.asked line).id = m.asked := rfl
      omega
    · have hlog : firedIds (m.appendTimer world Class line).log = firedIds m.log := by
        simp [Machine.appendTimer, firedIds]
      exact (hids.fired n (hlog ▸ hn)).trans (Nat.lt_succ_self _)
  have hbegin : TimerIds { m with log := m.log ++ [.addTimers Class] } :=
    hids.of_sublist hids.objects (List.Sublist.refl _) (le_refl _) (by simp [firedIds])
  -- One line after the other.
  have hloop : ∀ (ls : List (F × Effect)) (m : Machine F), TimerIds m →
      TimerIds (ls.foldl (Machine.appendTimer world Class) m) := by
    intro ls
    induction ls with
    | nil => exact fun m hids => hids
    | cons line ls ih => exact fun m hids => ih _ (hstep m line hids)
  exact hloop ls _ hbegin

omit [PythonFloat F] in
/-- What the record says when timers of one class have been added. -/
theorem log_timers {Class : Text} {ts : List (Timer F)} (hts : ∀ t ∈ ts, t.Class = Class)
    (log : List (Event F)) :
    lastTarget (log ++ ts.map .timer) = lastTarget log ∧
      firedIds (log ++ ts.map .timer) = firedIds log ∧
      yielded Class (log ++ ts.map .timer) = yielded Class log ++ ts ∧
      ∀ c, c ≠ Class → yielded c (log ++ ts.map .timer) = yielded c log := by
  induction ts generalizing log with
  | nil => simp
  | cons t ts ih =>
    obtain ⟨ht, hts⟩ := List.forall_mem_cons.mp hts
    obtain ⟨htarget, hfired, hyielded, hother⟩ := ih hts (log ++ [.timer t])
    rw [List.append_assoc] at htarget hfired hyielded
    refine ⟨htarget.trans ?_, hfired.trans ?_, hyielded.trans ?_, fun c hc => ?_⟩
    · simp [lastTarget]
    · simp [firedIds]
    · simp [yielded, ht]
    · have hne : t.Class ≠ c := fun h => hc (h ▸ ht)
      have hrest := hother c hc
      rw [List.append_assoc] at hrest
      refine hrest.trans ?_
      simp [yielded, hne]

/-- The timers of a class are appended, also when a line raises. -/
theorem added_timers (world : World F) (Class : Text) (ls : List (F × Effect)) (m : Machine F) :
    Added files [] [Class] (newTimers world Class m.asked ls) m
      (ls.foldl (Machine.appendTimer world Class)
        { m with log := m.log ++ [.addTimers Class] }) := by
  obtain ⟨hclasses, hcache, htimers, hasked, hlog⟩ :=
    foldl_appendTimer world Class ls { m with log := m.log ++ [.addTimers Class] }
  have hclass : ∀ t ∈ newTimers world Class m.asked ls, t.Class = Class := fun t ht =>
    (mem_newTimers ht).1
  obtain ⟨htarget, hfired, hyielded, hother⟩ :=
    log_timers hclass (m.log ++ [.addTimers Class])
  -- The record starts the list of the class anew, and all timers that follow are of this class.
  have hall : (newTimers world Class m.asked ls).filter (·.Class = Class) =
      newTimers world Class m.asked ls :=
    List.filter_eq_self.mpr fun t ht => by simpa using hclass t ht
  exact
    { classes := hclasses
      active := fun topic => by
        rw [Machine.active, hcache, List.flatMap_nil, List.filter_nil, List.append_nil]
        rfl
      timers := htimers
      of_class := fun t ht => by rw [hclass t ht]; exact List.mem_singleton_self _
      fresh := fun t ht => (mem_newTimers ht).2.1
      asked := by rw [hasked]; exact Nat.le_add_right _ _
      lastTarget := by rw [hlog, htarget]; simp [lastTarget]
      firedIds := by rw [hlog, hfired]; simp [firedIds]
      yielded_new := fun c hc => by
        rw [List.mem_singleton.mp hc, hlog, hyielded, hall]
        simp [yielded]
      yielded_old := fun c hc => by
        have hne : c ≠ Class := fun h => hc (List.mem_singleton.mpr h)
        rw [hlog, hother c hne]
        simp [yielded, hne.symm]
      ids := ids_foldl_appendTimer world Class ls }

variable {world : World F}

/-- Set-up and triggers of a class that is entered. -/
theorem added_setup {Class : Text} {m u v : Machine F}
    (hsetup : setup world Class m = .ok () u) (hv : final (addTriggers world Class u) = v) :
    Added world.files [Class] [] [] m v := by
  have hquiet : Added world.files [] [] [] m u := ((quiet_setup world Class).of_ok hsetup).added
  rw [final_addTriggers] at hv
  subst hv
  exact hquiet.trans (added_triggers Class u) (List.disjoint_nil_left _)

theorem added_of_ok {Class : Text} {m m' : Machine F} (h : add world Class m = .ok () m') :
    ∃ new, Added world.files [Class] [Class] new m m' := by
  obtain ⟨⟨⟩, u, hsetup, hrest⟩ := bind_eq_ok_iff.mp h
  obtain ⟨⟨⟩, v, htriggers, htimers⟩ := bind_eq_ok_iff.mp hrest
  have hadded := added_setup hsetup (final_of_ok htriggers)
  obtain rfl := (final_addTimers Class v).symm.trans (final_of_ok htimers)
  exact ⟨_, hadded.trans (added_timers world Class _ v) (List.disjoint_nil_left _)⟩

/-- A class that raises when it is added may have its triggers and timers in part. -/
theorem added_of_error {Class : Text} {m m' : Machine F} {e : Raised}
    (h : add world Class m = .error e m') :
    ∃ entered timed new, entered <+: [Class] ∧ timed <+: entered ∧
      Added world.files entered timed new m m' := by
  -- `Setup` raises, or a line of a trigger, or a line of a timer.
  rcases bind_eq_error_iff.mp h with hsetup | ⟨⟨⟩, u, hsetup, hrest⟩
  · exact ⟨[], [], [], List.nil_prefix, List.nil_prefix,
      ((quiet_setup world Class).of_error hsetup).added⟩
  rcases bind_eq_error_iff.mp hrest with htriggers | ⟨⟨⟩, v, htriggers, htimers⟩
  · exact ⟨[Class], [], [], List.prefix_refl _, List.nil_prefix,
      added_setup hsetup (final_of_error htriggers)⟩
  · have hadded := added_setup hsetup (final_of_ok htriggers)
    obtain rfl := (final_addTimers Class v).symm.trans (final_of_error htimers)
    exact ⟨[Class], [Class], _, List.prefix_refl _, List.prefix_refl _,
      hadded.trans (added_timers world Class _ v) (List.disjoint_nil_left _)⟩

theorem added_of_loop {entering : List Text} {m m' : Machine F} (hnodup : entering.Nodup)
    (h : forM entering (add world) m = .ok () m') :
    ∃ new, Added world.files entering entering new m m' := by
  refine forM_ok (I := fun entered u => ∃ new, Added world.files entered entered new m u)
    ⟨[], (Quiet.added (Std.Refl.refl m))⟩ ?_ h
  rintro entered c u v hstarts ⟨new, hadded⟩ hadd
  obtain ⟨new', hadded'⟩ := added_of_ok hadd
  have hnot := List.disjoint_of_nodup_append (hnodup.sublist hstarts.sublist)
  exact ⟨new ++ new', hadded.trans hadded' hnot⟩

theorem added_of_raise {entering : List Text} {m m' : Machine F} {e : Raised}
    (hnodup : entering.Nodup) (h : forM entering (add world) m = .error e m') :
    ∃ entered timed new, entered <+: entering ∧ timed <+: entered ∧
      Added world.files entered timed new m m' := by
  obtain ⟨done, c, rest, u, rfl, hdone, hraise⟩ := forM_eq_error_iff.mp h
  obtain ⟨new, hadded⟩ := added_of_loop (hnodup.sublist (List.sublist_append_left _ _)) hdone
  obtain ⟨entered, timed, new', hentered, htimed, hadded'⟩ := added_of_error hraise
  -- The class that raises has not been added before.
  have hdisjoint : done.Disjoint timed := by
    intro a ha htimed'
    have hc := (htimed.trans hentered).subset htimed'
    rw [List.mem_singleton] at hc
    exact List.disjoint_of_nodup_append hnodup ha (hc ▸ List.mem_cons_self)
  refine ⟨done ++ entered, done ++ timed, new ++ new', ?_, ?_, hadded.trans hadded' hdisjoint⟩
  · rw [List.prefix_append_right_inj]
    exact hentered.trans (List.prefix_append [c] rest)
  · rwa [List.prefix_append_right_inj]

end Entering

/-! ## The whole transition -/

section ChangeState

variable {world : World F}

/-- A transition has begun, and a set is about to be iterated. -/
def Machine.begun (m : Machine F) (name : Text) : Machine F :=
  { m with asked := m.asked + 1, log := m.log ++ [.changeState name] }

/-- Another set is about to be iterated. -/
def Machine.cleared (m : Machine F) : Machine F := { m with asked := m.asked + 1 }

/-- The classes are those of a target. -/
def Machine.switched (m : Machine F) (classes : ClassSet) : Machine F :=
  { m with currentClasses := classes }

/-- The classes that are left by a transition, in the order in which they are removed. -/
def leaving (world : World F) (name : Text) (m : Machine F) : List Text :=
  world.order m.asked (m.currentClasses.difference (getAllClasses world.files name))

/-- The classes that are entered, in the order in which they are added, where `m` is the state in
which the others have been removed. -/
def entering (world : World F) (name : Text) (m : Machine F) : List Text :=
  world.order m.asked ((getAllClasses world.files name).difference m.currentClasses)

theorem mem_leaving {name c : Text} {m : Machine F} :
    c ∈ leaving world name m ↔ c ∈ m.currentClasses ∧ c ∉ getAllClasses world.files name := by
  rw [leaving, (world.order_perm _ _).mem_iff, ClassSet.mem_difference]

theorem mem_entering {name c : Text} {m : Machine F} :
    c ∈ entering world name m ↔ c ∈ getAllClasses world.files name ∧ c ∉ m.currentClasses := by
  rw [entering, (world.order_perm _ _).mem_iff, ClassSet.mem_difference]

theorem nodup_entering (name : Text) (m : Machine F) : (entering world name m).Nodup :=
  (world.order_perm _ _).nodup_iff.mpr (ClassSet.nodup_difference _ _)

variable [PythonFloat F]

/-- A missing file does not end the transition: its empty text is not equal to zero. -/
theorem changeState_str (name : Text) (m : Machine F) :
    changeState world (.str name) m =
      match forM (leaving world name m) (remove world) (m.begun name) with
      | .error e u => .error e u
      | .ok _ u =>
        match forM (entering world name u) (add world) u.cleared with
        | .error e v => .error e v
        | .ok _ v => .ok () (v.switched (getAllClasses world.files name)) := by
  let classes := getAllClasses world.files name
  -- The test on the file is always passed, and the set to be left is asked for.
  have hbegun : changeState world (.str name) m =
      (forM (leaving world name m) (remove world) >>= fun _ => do
        let names := classes.difference (← get).currentClasses
        forM (← iterate world names) (add world)
        modify (·.switched classes) : Node F Unit) (m.begun name) := rfl
  rw [hbegun, bind_apply]
  cases forM (leaving world name m) (remove world) (m.begun name) with
  | error e u => rfl
  | ok _ u =>
    change (forM (entering world name u) (add world) >>= fun _ =>
      modify (·.switched classes) : Node F Unit) u.cleared =
        match forM (entering world name u) (add world) u.cleared with
        | .error e v => .error e v
        | .ok _ v => .ok () (v.switched classes)
    rw [bind_apply]
    cases forM (entering world name u) (add world) u.cleared with
    | error e v => rfl
    | ok _ v => rfl

/-- A target that is not a string raises at once. -/
theorem changeState_of_not_str {newState : Value F} (h : ∀ name, newState ≠ .str name)
    (m : Machine F) : changeState world newState m = .error .typeError m := by
  cases newState with
  | str name => exact absurd rfl (h name)
  | int n => rfl
  | float x => rfl
  | img => rfl

/-- What a transition that returns has done. -/
structure Switched (files : Files) (name : Text) (leaving entering : List Text)
    (new : List (Timer F)) (m m' : Machine F) : Prop where
  classes : m'.currentClasses = getAllClasses files name
  mem_leaving : ∀ c, c ∈ leaving ↔ c ∈ m.currentClasses ∧ c ∉ getAllClasses files name
  nodup_entering : entering.Nodup
  mem_entering : ∀ c, c ∈ entering ↔ c ∈ getAllClasses files name ∧ c ∉ m.currentClasses
  active : ∀ topic, m'.active topic =
    (m.active topic).filter (·.mClassName ∉ leaving) ++
      (entering.flatMap (triggersOf files)).filter (·.mTopic = topic)
  timers : m'.timers = m.timers.filter (·.Class ∉ leaving) ++ new
  of_class : ∀ t ∈ new, t.Class ∈ entering
  fresh : ∀ t ∈ new, m.asked ≤ t.id
  lastTarget : lastTarget m'.log = some name
  firedIds : firedIds m'.log = firedIds m.log
  yielded_new : ∀ c ∈ entering, yielded c m'.log = new.filter (·.Class = c)
  yielded_old : ∀ c, c ∉ entering → yielded c m'.log = yielded c m.log
  ids : TimerIds m → TimerIds m'

theorem switched_of_ok {name : Text} {m m' : Machine F}
    (h : changeState world (.str name) m = .ok () m') :
    ∃ leaving entering new, Switched world.files name leaving entering new m m' := by
  rw [changeState_str] at h
  split at h
  · cases h
  · rename_i u hleave
    split at h
    · cases h
    · rename_i v hadd
      obtain rfl : _ = m' := by
        cases h
        rfl
      have hremoved := removed_of_loop hleave
      obtain ⟨new, hadded⟩ := added_of_loop (nodup_entering name u) hadd
      obtain ⟨events, hlog, hquiet⟩ := hremoved.log
      have hclasses : u.currentClasses = m.currentClasses := hremoved.classes
      -- While classes are left, `currentClasses` stays, so that the second difference is that of
      -- the first state.
      refine ⟨leaving world name m, entering world name u, new, ?_⟩
      exact
        { classes := rfl
          mem_leaving := fun c => StateMachine.mem_leaving
          nodup_entering := nodup_entering name u
          mem_entering := fun c => by
            rw [← hclasses]
            exact StateMachine.mem_entering
          active := fun topic => (hadded.active topic).trans <|
            congrArg (· ++ _) (hremoved.active topic)
          timers := hadded.timers.trans <| congrArg (· ++ _) hremoved.timers
          of_class := hadded.of_class
          fresh := fun t ht =>
            (Nat.le_succ _).trans (hremoved.asked.trans ((Nat.le_succ _).trans (hadded.fresh t ht)))
          lastTarget := by
            refine hadded.lastTarget.trans ?_
            change StateMachine.lastTarget u.log = some name
            rw [hlog, lastTarget_append hquiet]
            simp [StateMachine.lastTarget, Machine.begun]
          firedIds := by
            refine hadded.firedIds.trans ?_
            change StateMachine.firedIds u.log = _
            rw [hlog, firedIds_append hquiet]
            simp [StateMachine.firedIds, Machine.begun]
          yielded_new := hadded.yielded_new
          yielded_old := fun c hc => by
            refine (hadded.yielded_old c hc).trans ?_
            change yielded c u.log = _
            rw [hlog, yielded_append hquiet]
            simp [yielded, Machine.begun]
          ids := fun hids => by
            have hbegun : TimerIds (m.begun name) := hids.of_sublist hids.objects
              (List.Sublist.refl _) (Nat.le_succ _) (by simp [Machine.begun, StateMachine.firedIds])
            have hu := hremoved.ids hbegun
            have hv := hadded.ids (hu.of_sublist hu.objects (List.Sublist.refl _)
              (Nat.le_succ _) rfl)
            exact hv.of_sublist hv.objects (List.Sublist.refl _) (le_refl _) rfl }

/-- The classes that a target stands for, if it stands for any. -/
def targetClasses (files : Files) : Value F → ClassSet
  | .str name => getAllClasses files name
  | _ => .empty

/-- A transition that raises leaves the classes as they are and undoes nothing: the triggers and
timers of the classes in `gone` have been taken away, and those of the classes in `entered` have
been appended, which happens only when all classes that are left are gone. -/
theorem changeState_raised (world : World F) (newState : Value F) (m m' : Machine F) (e : Raised)
    (h : changeState world newState m = .error e m') :
    m'.currentClasses = m.currentClasses ∧
      ∃ (gone entered : List Text) (timers : List (Timer F)),
        (∀ c ∈ gone, c ∈ m.currentClasses ∧ c ∉ targetClasses world.files newState) ∧
        (∀ c ∈ entered, c ∈ targetClasses world.files newState ∧ c ∉ m.currentClasses) ∧
        (entered ≠ [] → ∀ c ∈ m.currentClasses,
          c ∉ targetClasses world.files newState → c ∈ gone) ∧
        (∀ topic, m'.active topic =
          (m.active topic).filter (·.mClassName ∉ gone) ++
            (entered.flatMap (triggersOf world.files)).filter (·.mTopic = topic)) ∧
        m'.timers = m.timers.filter (·.Class ∉ gone) ++ timers ∧
        ∀ t ∈ timers, t.Class ∈ entered := by
  cases newState with
  | str name =>
    rw [changeState_str] at h
    split at h
    · -- A `TearDown` has raised.
      rename_i e' u hraise
      obtain rfl : u = m' := by
        cases h
        rfl
      obtain ⟨gone, hstarts, hremoved⟩ := removed_of_raise hraise
      refine ⟨hremoved.classes, gone, [], [], fun c hc => mem_leaving.mp (hstarts.subset hc),
        nofun, fun hne => absurd rfl hne, fun topic => ?_, ?_, nofun⟩
      · refine (hremoved.active topic).trans ?_
        rw [List.flatMap_nil, List.filter_nil, List.append_nil]
        rfl
      · refine hremoved.timers.trans ?_
        rw [List.append_nil]
        rfl
    · rename_i u hleave
      split at h
      · -- All classes have been removed, and something raises when a class is added.
        rename_i e' v hraise
        obtain rfl : v = m' := by
          cases h
          rfl
        have hremoved := removed_of_loop hleave
        have hclasses : u.currentClasses = m.currentClasses := hremoved.classes
        obtain ⟨entered, timed, new, hstarts, htimed, hadded⟩ :=
          added_of_raise (nodup_entering name u) hraise
        refine ⟨hadded.classes.trans hclasses, leaving world name m, entered, new,
          fun c hc => mem_leaving.mp hc, fun c hc => ?_,
          fun _ c hc hnot => mem_leaving.mpr ⟨hc, hnot⟩,
          fun topic => ?_, ?_, fun t ht => htimed.subset (hadded.of_class t ht)⟩
        · rw [← hclasses]
          exact mem_entering.mp (hstarts.subset hc)
        · exact (hadded.active topic).trans (congrArg (· ++ _) (hremoved.active topic))
        · exact hadded.timers.trans (congrArg (· ++ _) hremoved.timers)
      · cases h
  | int | float | img =>
    cases h
    refine ⟨rfl, [], [], [], nofun, nofun, fun hne => absurd rfl hne, fun topic => ?_, ?_, nofun⟩
    · simp
    · simp

end ChangeState

/-- A class with a trigger, and one whose `Setup` does not say what to send. -/
def brokenSetup : Files :=
  [("A".toList, "\n<Triggers>\n/a string any x triggers transition B".toList),
    ("B".toList, "\n<Setup>\nmessage".toList)]

/-- The node in a state, changed to another one. -/
def after (files : Files) (name : String) (m : Machine ℚ) :
    EStateM.Result Raised (Machine ℚ) Unit :=
  changeState (World.reliable files) (.str name.toList) m

/-- The transition to the second class raises, and leaves the first one the current class. -/
theorem broken_raised : ∃ e m',
    after brokenSetup "B" (final (after brokenSetup "A" .initial)) = .error e m' ∧
      m'.currentClasses = (final (after brokenSetup "A" .initial)).currentClasses := by
  cases h : after brokenSetup "B" (final (after brokenSetup "A" .initial)) with
  | error e m' => exact ⟨e, m', rfl, (changeState_raised _ _ _ _ _ h).1⟩
  | ok _ m' =>
    have hraises : (match after brokenSetup "B" (final (after brokenSetup "A" .initial)) with
        | .error _ _ => true
        | .ok _ _ => false) = true := by decide +kernel
    rw [h] at hraises
    cases hraises

/-- A transition that raises does not leave everything as it was: the trigger of the current class
is gone. -/
theorem not_atomic : ∃ e m',
    after brokenSetup "B" (final (after brokenSetup "A" .initial)) = .error e m' ∧
      ¬ (m'.currentClasses = (final (after brokenSetup "A" .initial)).currentClasses ∧
        (∀ topic, m'.active topic = (final (after brokenSetup "A" .initial)).active topic) ∧
        m'.timers = (final (after brokenSetup "A" .initial)).timers) := by
  have hraises : (match after brokenSetup "B" (final (after brokenSetup "A" .initial)) with
      | .error _ m' => decide (m'.active "/a".toList ≠
        (final (after brokenSetup "A" .initial)).active "/a".toList)
      | .ok _ _ => false) = true := by decide +kernel
  cases h : after brokenSetup "B" (final (after brokenSetup "A" .initial)) with
  | error e m' =>
    rw [h] at hraises
    exact ⟨e, m', rfl, fun hsame => of_decide_eq_true hraises (hsame.2.1 _)⟩
  | ok _ m' =>
    rw [h] at hraises
    cases hraises

end Guillemot.StateMachine
