import Guillemot.Tasks.BuoysPlaces

/-!
# The task that bumps two buoys after it was disabled

A message that disables the task only clears `m_isEnabled`, which nothing in `performTask` asks for:
what is running runs on. `silent_iff` says when nothing more is published until the task is enabled
again: when every running `performTask` is in a call of `ros::spinOnce` that is silent. While the
task is disabled the samples change only by its own doing, so that what is left of it is what it
does alone (`remaining`).
-/

namespace Guillemot.Tasks

open Relation (ReflTransGen)
open Script

/-- What the running tasks publish when they run to their ends, one after the other. -/
def remaining : List (Task Bool) → Samples → List Motion
  | [], _ => []
  | task :: rest, σ => (task.alone σ).1 ++ remaining rest (task.alone σ).2.1

/-- The calls of `ros::spinOnce` that tasks are in, the innermost first, are silent. -/
def SilentPlaces (first : BuoyColors) : Samples → List Place → Prop
  | _, [] => True
  | σ, p :: places => p.Silent first σ ∧ SilentPlaces first (p.after σ) places

/-- The calls of `ros::spinOnce` that the running tasks are in. -/
def System.places (s : System) : List Place := s.stack.filterMap Script.place?

/-! ## The running tasks -/

/-- The stack: rests of `performTask`, all in a call of `ros::spinOnce` but the innermost. -/
structure Stacked (c : Setup) (s : System) : Prop where
  rest : ∀ task ∈ s.stack, Rest c.performTask task
  outer : ∀ task ∈ s.stack.tail, task.place?.isSome

variable {c : Setup}

/-- A step of the innermost task: it ends, or a rest of it goes on. What it publishes in this step,
and what it does alone behind it, is what it does alone. -/
theorem run_cases {s t : System} (h : s.run = some t) :
    (∃ status rest, s.stack = .done status :: rest ∧ t = { s with
        isEnabled := false, stack := rest, log := s.log ++ [.completed status] }) ∨
      ∃ m next rest out, s.stack = m :: rest ∧ t.stack = next :: rest ∧ Rest m next ∧
        t.isEnabled = s.isEnabled ∧ t.motions = s.motions ++ out ∧
        m.alone s.samples = (out ++ (next.alone t.samples).1, (next.alone t.samples).2) := by
  unfold System.run at h
  split at h
  · cases h
  · next status rest hstack =>
    exact .inl ⟨status, rest, hstack, (Option.some.inj h).symm⟩
  · next motion task rest hstack =>
    obtain rfl := Option.some.inj h
    refine .inr ⟨_, task, rest, [motion], hstack, rfl, .emit (.refl _), rfl, ?_, rfl⟩
    simp [System.motions, Entry.motion?]
  · next task rest hstack =>
    obtain rfl := Option.some.inj h
    refine .inr ⟨_, task, rest, [], hstack, rfl, .pause (.refl _), rfl, ?_, rfl⟩
    simp [System.motions]
  · next task rest hstack =>
    obtain rfl := Option.some.inj h
    refine .inr ⟨_, task s.samples, rest, [], hstack, rfl, .read _ (.refl _), rfl, ?_, rfl⟩
    simp [System.motions]
  · next f task rest hstack =>
    obtain rfl := Option.some.inj h
    refine .inr ⟨_, task, rest, [], hstack, rfl, .write (.refl _), rfl, ?_, rfl⟩
    simp [System.motions]

theorem stacked_init : Stacked c .init := ⟨List.forall_mem_nil _, List.forall_mem_nil _⟩

/-- What goes on in the innermost task. -/
theorem Stacked.replace {s : System} (h : Stacked c s) {m next : Task Bool}
    {rest : List (Task Bool)} (hstack : s.stack = m :: rest) (hnext : Rest m next)
    {t : System} (ht : t.stack = next :: rest) : Stacked c t := by
  obtain ⟨hrest, houter⟩ := h
  rw [hstack] at hrest houter
  obtain ⟨hm, hrest⟩ := List.forall_mem_cons.mp hrest
  refine ⟨?_, ?_⟩
  · rw [ht]
    exact List.forall_mem_cons.mpr ⟨hm.trans hnext, hrest⟩
  · rw [ht]
    exact houter

/-- A message leaves the running tasks, or starts another one. -/
theorem handle_stack (s : System) (msg : Message) :
    (s.handle c msg).stack = s.stack ∨ (s.handle c msg).stack = c.performTask :: s.stack := by
  cases msg with
  | buoy color x y height width =>
    simp only [System.handle]
    split_ifs <;> exact .inl rfl
  | moduleEnable own state =>
    cases own <;> cases state
    · exact .inl rfl
    · exact .inl rfl
    · exact .inl rfl
    · exact .inr rfl

/-- A callback can run only while all running tasks are in a call of `ros::spinOnce`. -/
theorem Stacked.paused {s : System} (h : Stacked c s) (hspin : s.spinning = true) :
    ∀ task ∈ s.stack, task.place?.isSome := by
  unfold System.spinning at hspin
  rcases hstack : s.stack with _ | ⟨m, rest⟩
  · exact List.forall_mem_nil _
  · have houter := h.outer
    rw [hstack] at houter hspin
    exact List.forall_mem_cons.mpr ⟨hspin, houter⟩

theorem Stacked.step {s t : System} (h : Stacked c s) {e : Event} (hstep : s.step c e = some t) :
    Stacked c t := by
  cases e with
  | message msg =>
    simp only [System.step] at hstep
    split_ifs at hstep with hspin
    obtain rfl := Option.some.inj hstep
    obtain hsame | hpushed := handle_stack (c := c) s msg
    · refine ⟨?_, ?_⟩ <;> rw [hsame]
      · exact h.rest
      · exact h.outer
    · refine ⟨?_, ?_⟩ <;> rw [hpushed]
      · exact List.forall_mem_cons.mpr ⟨.refl _, h.rest⟩
      · exact h.paused hspin
  | run =>
    obtain ⟨status, rest, hstack, rfl⟩ | ⟨m, next, rest, out, hstack, ht, hrest, -⟩ :=
      run_cases hstep
    · -- the task below the one that ends goes on in its call
      obtain ⟨hrest, houter⟩ := h
      rw [hstack] at hrest houter
      refine ⟨(List.forall_mem_cons.mp hrest).2, fun task htask => ?_⟩
      exact houter task (List.mem_of_mem_tail htask)
    · exact h.replace hstack hrest ht

theorem stacked_of_run {s : System} (h : ReflTransGen (System.Next c) .init s) : Stacked c s :=
  Steps.invariant_of_moves (I := Stacked c) (fun _ _ _ hs _ hstep => hs.step hstep) stacked_init h

/-- Tasks that are all in a call of `ros::spinOnce` publish nothing more exactly when these calls
are silent. -/
theorem remaining_eq_nil_iff {stack : List (Task Bool)}
    (hrest : ∀ task ∈ stack, Rest c.performTask task)
    (hpaused : ∀ task ∈ stack, task.place?.isSome) (σ : Samples) :
    remaining stack σ = [] ↔
      SilentPlaces c.m_firstToBump σ (stack.filterMap Script.place?) := by
  induction stack generalizing σ with
  | nil => exact iff_of_true rfl trivial
  | cons task stack ih =>
    obtain ⟨htask, hrests⟩ := List.forall_mem_cons.mp hrest
    obtain ⟨hpause, hpauses⟩ := List.forall_mem_cons.mp hpaused
    cases task with
    | done | emit | read | write => cases hpause
    | pause p task =>
      obtain ⟨hsilent, hafter⟩ := places_performTask c p task htask σ
      have hrun : (pause p task : Task Bool).alone σ = task.alone σ := rfl
      have hplaces : (pause p task :: stack).filterMap Script.place? =
          p :: stack.filterMap Script.place? := rfl
      rw [remaining, hrun, hplaces, SilentPlaces, List.append_eq_nil_iff, hsilent]
      exact and_congr_right fun hp => by rw [hafter hp, ih hrests hpauses]

/-! ## While the task is disabled -/

/-- The task is disabled, and what is running publishes nothing more. -/
structure Hushed (s : System) : Prop where
  disabled : s.isEnabled = false
  remaining : Tasks.remaining s.stack s.samples = []

/-- Messages are handled without a motion. -/
theorem handle_motions (s : System) (msg : Message) : (s.handle c msg).motions = s.motions := by
  have hlog : (s.handle c msg).log = s.log ++ [.handled msg] := by
    cases msg with
    | buoy color x y height width =>
      simp only [System.handle]
      split_ifs <;> rfl
    | moduleEnable own state => cases own <;> cases state <;> rfl
  simp [System.motions, hlog, Entry.motion?]

/-- While nothing more is published and the task is not enabled, this stays so. -/
theorem Hushed.step {s t : System} (h : Hushed s) {e : Event}
    (he : e ≠ .message (.moduleEnable true true)) (hstep : s.step c e = some t) :
    Hushed t ∧ t.motions = s.motions := by
  obtain ⟨hdisabled, hremaining⟩ := h
  cases e with
  | message msg =>
    simp only [System.step] at hstep
    split_ifs at hstep with hspin
    obtain rfl := Option.some.inj hstep
    refine ⟨?_, handle_motions s msg⟩
    cases msg with
    | buoy color x y height width =>
      simp only [System.handle, hdisabled, Bool.false_eq_true, if_false]
      exact ⟨rfl, hremaining⟩
    | moduleEnable own state =>
      cases own <;> cases state
      · exact ⟨hdisabled, hremaining⟩
      · exact ⟨hdisabled, hremaining⟩
      · exact ⟨rfl, hremaining⟩
      · exact absurd rfl he
  | run =>
    obtain ⟨status, rest, hstack, rfl⟩ |
      ⟨m, next, rest, out, hstack, ht, -, henabled, hout, halone⟩ := run_cases hstep
    · rw [hstack] at hremaining
      exact ⟨⟨rfl, hremaining⟩, by simp [System.motions, Entry.motion?]⟩
    · -- what the step publishes is part of what remained
      rw [hstack, Tasks.remaining, halone, List.append_assoc] at hremaining
      obtain ⟨rfl, hnext⟩ := List.append_eq_nil_iff.mp hremaining
      refine ⟨⟨henabled.trans hdisabled, ?_⟩, by rw [hout, List.append_nil]⟩
      rw [ht]
      exact hnext

/-- The steps in which the task is not enabled. -/
def System.NextUnlessEnabled (c : Setup) (s t : System) : Prop :=
  Steps.Moves (System.step c) (fun _ e => e ≠ .message (.moduleEnable true true)) s t

theorem nextUnlessEnabled_of_run {s t : System} (h : s.run = some t) :
    System.NextUnlessEnabled c s t :=
  ⟨.run, by simp, h⟩

/-- The innermost task runs to its end. -/
theorem reaches_end (s : System) {m : Task Bool} {rest : List (Task Bool)}
    (hstack : s.stack = m :: rest) :
    ∃ t, ReflTransGen (System.NextUnlessEnabled c) s t ∧ t.stack = rest ∧
      t.samples = (m.alone s.samples).2.1 ∧ t.motions = s.motions ++ (m.alone s.samples).1 := by
  induction m generalizing s with
  | done status =>
    let t : System := { s with
      isEnabled := false, stack := rest, log := s.log ++ [.completed status] }
    have hrun : s.run = some t := by rw [System.run, hstack]
    refine ⟨t, .single (nextUnlessEnabled_of_run hrun), rfl, rfl, ?_⟩
    simp [t, System.motions, Entry.motion?, alone]
  | emit motion task ih =>
    let u : System := { s with stack := task :: rest, log := s.log ++ [.published motion] }
    have hrun : s.run = some u := by rw [System.run, hstack]
    obtain ⟨t, hreach, hrest, hsamples, hmotions⟩ := ih u rfl
    refine ⟨t, .head (nextUnlessEnabled_of_run hrun) hreach, hrest, hsamples, ?_⟩
    rw [hmotions]
    simp [u, System.motions, Entry.motion?, alone]
  | pause p task ih =>
    let u : System := { s with stack := task :: rest }
    have hrun : s.run = some u := by rw [System.run, hstack]
    obtain ⟨t, hreach, hend⟩ := ih u rfl
    exact ⟨t, .head (nextUnlessEnabled_of_run hrun) hreach, hend⟩
  | read task ih =>
    let u : System := { s with stack := task s.samples :: rest }
    have hrun : s.run = some u := by rw [System.run, hstack]
    obtain ⟨t, hreach, hend⟩ := ih s.samples u rfl
    exact ⟨t, .head (nextUnlessEnabled_of_run hrun) hreach, hend⟩
  | write f task ih =>
    let u : System := { s with samples := f s.samples, stack := task :: rest }
    have hrun : s.run = some u := by rw [System.run, hstack]
    obtain ⟨t, hreach, hend⟩ := ih u rfl
    exact ⟨t, .head (nextUnlessEnabled_of_run hrun) hreach, hend⟩

/-- All running tasks run to their ends, and publish what remains. -/
theorem reaches_remaining (s : System) :
    ∃ t, ReflTransGen (System.NextUnlessEnabled c) s t ∧
      t.motions = s.motions ++ remaining s.stack s.samples := by
  generalize hstack : s.stack = stack
  induction stack generalizing s with
  | nil => exact ⟨s, .refl, by simp [remaining]⟩
  | cons m rest ih =>
    obtain ⟨t, hreach, hrest, hsamples, hmotions⟩ := reaches_end (c := c) s hstack
    obtain ⟨u, hreach', hmotions'⟩ := ih t hrest
    refine ⟨u, hreach.trans hreach', ?_⟩
    rw [hmotions', hmotions, hsamples, remaining, List.append_assoc]

/-- From any state of a run in which a message disables the task: in every run on, up to a message
that enables it, no further motion or point is published exactly when every running `performTask` is
in a call of `ros::spinOnce` that is silent. -/
theorem silent_iff {s t : System} (hrun : ReflTransGen (System.Next c) .init s)
    (hstep : s.step c (.message (.moduleEnable true false)) = some t) :
    (∀ u, ReflTransGen (System.NextUnlessEnabled c) t u → u.motions = t.motions) ↔
      SilentPlaces c.m_firstToBump s.samples s.places := by
  have hstacked := stacked_of_run hrun
  simp only [System.step] at hstep
  split_ifs at hstep with hspin
  obtain rfl := Option.some.inj hstep
  rw [System.places, ← remaining_eq_nil_iff hstacked.rest (hstacked.paused hspin)]
  constructor
  · intro hsilent
    obtain ⟨u, hreach, hmotions⟩ := reaches_remaining (c := c)
      (s.handle c (.moduleEnable true false))
    rw [hsilent u hreach] at hmotions
    exact List.self_eq_append_right.mp hmotions
  · intro hnil u hu
    let I (v : System) : Prop :=
      Hushed v ∧ v.motions = (s.handle c (.moduleEnable true false)).motions
    have hstep : ∀ v e w, I v → e ≠ .message (.moduleEnable true true) → v.step c e = some w →
        I w := fun v e w hv he hvw => (hv.1.step he hvw).imp_right (·.trans hv.2)
    have hstart : I (s.handle c (.moduleEnable true false)) := ⟨⟨rfl, hnil⟩, rfl⟩
    exact (Steps.invariant_of_moves hstep hstart hu).2

/-- A task that bumps the yellow buoy first. -/
def yellowFirst : Setup := ⟨id, .yellow, .green⟩

/-- The red buoy is found, close by, and the search for the yellow one is about to fail. -/
def searchInVain : List Event :=
  .message (.moduleEnable true true) :: List.replicate 3 .run ++
    List.replicate 3 (.message (.buoy .red 0 0 122 122)) ++ List.replicate 124 .run

/-- Disabled while its search for the first buoy fails, the task is silent. -/
theorem silent_in_vain_search :
    ∃ s t, ReflTransGen (System.Next yellowFirst) .init s ∧
      s.step yellowFirst (.message (.moduleEnable true false)) = some t ∧
      s.places = [.turningRight .first] ∧
      ∀ u, ReflTransGen (System.NextUnlessEnabled yellowFirst) t u → u.motions = t.motions := by
  have hrun : ((Steps.run (System.step yellowFirst) (fun _ _ => True) searchInVain .init).bind
      fun s => (s.step yellowFirst (.message (.moduleEnable true false))).map fun _ =>
        (s.places, s.samples.yellow)) = some ([.turningRight .first], []) := by
    decide +kernel
  obtain ⟨s, hs, hrest⟩ := Option.bind_eq_some_iff.mp hrun
  obtain ⟨t, ht, heq⟩ := Option.map_eq_some_iff.mp hrest
  obtain ⟨hplaces, hyellow⟩ := Prod.mk.inj heq
  refine ⟨s, t, Steps.moves_of_run hs, ht, hplaces, ?_⟩
  refine (silent_iff (Steps.moves_of_run hs) ht).mpr ?_
  rw [hplaces]
  exact ⟨by simp [Place.Silent, Samples.Visible, Samples.of, yellowFirst, hyellow], trivial⟩

/-- Disabled while it drives forward to find the red buoy, the task drives on. -/
theorem drives_on_when_disabled :
    ¬ ∀ c s t u, ReflTransGen (System.Next c) .init s →
      s.step c (.message (.moduleEnable true false)) = some t →
      ReflTransGen (System.NextUnlessEnabled c) t u → u.motions = t.motions := by
  intro h
  have hrun : ((Steps.run (System.step yellowFirst) (fun _ _ => True)
      (.message (.moduleEnable true true) :: List.replicate 3 .run) .init).bind fun s =>
        (s.step yellowFirst (.message (.moduleEnable true false))).bind fun t =>
          (Steps.run (System.step yellowFirst)
            (fun _ e => e ≠ .message (.moduleEnable true true)) (List.replicate 3 .run) t).map
              fun u => (t.motions, u.motions)) =
      some ([.highLevel .forward .manual 125],
        [.highLevel .forward .manual 125, .highLevel .forward .manual 125]) := by
    decide +kernel
  obtain ⟨s, hs, hrest⟩ := Option.bind_eq_some_iff.mp hrun
  obtain ⟨t, ht, hrest⟩ := Option.bind_eq_some_iff.mp hrest
  obtain ⟨u, hu, heq⟩ := Option.map_eq_some_iff.mp hrest
  obtain ⟨hbefore, hafter⟩ := Prod.mk.inj heq
  have hsame := h yellowFirst s t u (Steps.moves_of_run hs) ht (Steps.moves_of_run hu)
  rw [hbefore, hafter] at hsame
  cases hsame

end Guillemot.Tasks
