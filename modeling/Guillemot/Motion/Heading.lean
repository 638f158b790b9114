import Guillemot.Motion.System

/-!
# The target of the heading controller and its echo

A reading makes the heading controller publish the error with the other sign as a command for the
turn. `HighLevelControl` passes it on like a heading from outside, and the controller adds it to the
yaw that is current when it comes back. It is the distance from the yaw of its reading to `aim`: the
target of that time, or the yaw itself when it was close. The target therefore stays only where the
yaw and the target are still those of the reading, up to the remainder that is taken
(`targetHeading_kept_iff`).
-/

namespace Guillemot.Motion

open Relation (ReflTransGen)

/-- The yaw that an echo is to lead back to. -/
def Reading.aim (r : Reading) : ℚ := if |r.yaw - r.target| < 2 / 100 then r.yaw else r.target

/-- What is published with a reading is the way from its yaw to the aim. -/
theorem neg_yawError (r : Reading) : -yawError r.yaw r.target = r.aim - r.yaw := by
  unfold yawError Reading.aim
  split_ifs <;> ring

/-- Every echo on its way is the way from the yaw of its reading to its aim. -/
structure Echoes (s : System) : Prop where
  fromHeading : ∀ sent ∈ s.fromHeading, sent.2.Publishes sent.1
  turn : ∀ r, s.turnSource = .echo r → ∀ v, s.control.turn.pending = some v → v = r.aim - r.yaw
  targetHeadings : ∀ v r, (v, .echo r) ∈ s.targetHeadings → v = r.aim - r.yaw

theorem echoes_init : Echoes .init :=
  ⟨List.forall_mem_nil _, by rintro r ⟨⟩, fun _ _ hmem => absurd hmem List.not_mem_nil⟩

theorem Echoes.of_quiet {s t : System} (h : Echoes s) (hquiet : Quiet s t) : Echoes t where
  fromHeading sent hsent := (hquiet.fromHeading sent hsent).elim (h.fromHeading sent) id
  turn := by
    rw [hquiet.control, hquiet.turnSource]
    exact h.turn
  targetHeadings v r hmem := h.targetHeadings v r (hquiet.targetHeadings _ hmem)

/-- Only the heading controller's own messages are the source of an echo. -/
theorem mem_of_carries_echo {s : System} {publisher : Publisher} {msg : HighLevelControl}
    {r : Reading} (h : s.Carries publisher msg (.echo r)) : (msg, r) ∈ s.fromHeading := by
  cases publisher with
  | operator => cases h
  | depthController => cases h.2
  | headingController =>
    obtain ⟨r', hmem, ⟨⟩⟩ := h
    exact hmem

/-- A message that is handled: a command of the heading controller is an echo. -/
theorem Echoes.handle {s u : System} (h : Echoes s) (hquiet : Quiet s u) {publisher : Publisher}
    {msg : HighLevelControl} {source : Source} (hcarries : s.Carries publisher msg source) :
    Echoes (u.handle publisher msg source) where
  fromHeading := (h.of_quiet hquiet).fromHeading
  targetHeadings := (h.of_quiet hquiet).targetHeadings
  turn := by
    intro r hsource v hpending
    have hturn : (u.handle publisher msg source).control.turn = _ :=
      commandCallback_turn u.control msg
    have hturnSource : (u.handle publisher msg source).turnSource =
      if msg.direction = .turn ∧ msg.motionType = .command then source else u.turnSource := rfl
    rw [hturn] at hpending
    rw [hturnSource] at hsource
    by_cases hdirection : msg.direction = .turn
    · rw [if_pos hdirection] at hpending
      cases htype : msg.motionType with
      | command =>
        rw [if_pos ⟨hdirection, htype⟩] at hsource
        subst hsource
        have hvalue : msg.value = v := by
          obtain ⟨-, hcommand, -⟩ := Axis.pending_eq_some.mp hpending
          simpa [Axis.receive, htype] using hcommand
        -- a command whose source is an echo has been published with its reading
        obtain ⟨-, hmanual | rfl⟩ : r.Publishes msg :=
          h.fromHeading _ (mem_of_carries_echo hcarries)
        · rw [htype] at hmanual
          cases hmanual
        · rw [← hvalue, ← neg_yawError]
          rfl
      | manual =>
        rw [Axis.receive_pending, htype] at hpending
        cases hpending
      | other =>
        rw [if_neg (by simp [htype])] at hsource
        rw [Axis.receive_pending, htype] at hpending
        exact (h.of_quiet hquiet).turn r hsource v hpending
    · rw [if_neg hdirection] at hpending
      rw [if_neg fun hcommand => hdirection hcommand.1] at hsource
      exact (h.of_quiet hquiet).turn r hsource v hpending

/-- A point to center on is from outside. -/
theorem Echoes.center {s : System} (h : Echoes s) (x y : ℤ) : Echoes (s.center x y) where
  fromHeading := h.fromHeading
  targetHeadings := h.targetHeadings
  turn := by rintro r ⟨⟩

/-- A round of the main loop: the turn that waited is passed on. -/
theorem Echoes.manage {s : System} (h : Echoes s) : Echoes s.manage := by
  obtain ⟨hturn, -, -, hheadings⟩ := manage_spec s.control
  refine ⟨h.fromHeading, fun r _ v hpending => ?_, fun v r hmem => ?_⟩
  · rw [show s.manage.control = s.control.manage.1 from rfl, hturn, Axis.handOn_pending] at hpending
    cases hpending
  · rw [show s.manage.targetHeadings = s.targetHeadings ++
      (s.control.manage.2.filterMap Output.heading?).map (·, s.turnSource) from rfl,
      hheadings] at hmem
    rcases List.mem_append.mp hmem with hmem | hmem
    · exact h.targetHeadings v r hmem
    · obtain ⟨w, hpending, heq⟩ := List.mem_map.mp hmem
      obtain ⟨rfl, hsource⟩ := Prod.mk.inj heq
      exact h.turn r hsource w (Option.mem_toList.mp hpending)

/-- Every step keeps the echoes. -/
theorem Echoes.step {s t : System} (h : Echoes s) {e : Event} (hstep : s.step e = some t) :
    Echoes t := by
  obtain hquiet | ⟨u, publisher, msg, source, hquiet, hcarries, rfl⟩ | ⟨x, y, rfl⟩ | rfl :=
    step_cases hstep
  · exact h.of_quiet hquiet
  · exact h.handle hquiet hcarries
  · exact h.center x y
  · exact h.manage

theorem echoes_of_run {s : System} (h : ReflTransGen System.Next .init s) : Echoes s :=
  Steps.invariant_of_moves (I := Echoes) (fun _ _ _ hs _ hstep => hs.step hstep) echoes_init h

/-! ## The target -/

/-- A message for the turn arrives from outside: at `HighLevelControl`, or passed on by it at the
heading controller. -/
def System.externalTurn (s : System) : Event → Bool
  | .command .operator => s.fromOperator.head?.any (·.direction = .turn)
  | .centerOnPoint _ _ => true
  | .targetHeading => s.targetHeadings.head?.any (·.2 = .external)
  | _ => false

/-- The reading that an echo comes from. -/
def Source.reading? : Source → Option Reading
  | .external => none
  | .echo r => some r

/-- An echo of a reading leads back to the target: its aim, moved by what the yaw has changed since,
is the target or a multiple of 180 behind it, and the target is smaller than 180. -/
def Reading.LeadsBack (r : Reading) (h : HeadingController) : Prop :=
  |h.targetYaw| < 180 ∧
    ∃ k : ℤ, r.aim + (h.currYaw - r.yaw) = h.targetYaw + 180 * k ∧ 0 ≤ k * h.targetYaw

/-- The remainder that is taken decides it. -/
theorem fmod_eq_iff_leadsBack {r : Reading} {h : HeadingController} :
    fmod (r.aim + (h.currYaw - r.yaw)) 180 = h.targetYaw ↔ r.LeadsBack h :=
  fmod_eq_iff (by norm_num)

instance (r : Reading) (h : HeadingController) : Decidable (r.LeadsBack h) :=
  decidable_of_iff _ fmod_eq_iff_leadsBack

/-- An echo that arrives leads back to the target. -/
def System.LeadsBack (s : System) (e : Event) : Prop :=
  e = .targetHeading → ∀ r ∈ s.targetHeadings.head?.bind (·.2.reading?), r.LeadsBack s.heading

instance (s : System) (e : Event) : Decidable (s.LeadsBack e) :=
  inferInstanceAs (Decidable (_ → _))

/-- Only a heading that is handled changes the target. -/
theorem targetYaw_of_ne {s t : System} {e : Event} (hstep : s.step e = some t)
    (he : e ≠ .targetHeading) : t.heading.targetYaw = s.heading.targetYaw := by
  cases e with
  | publish msg | currentDepth depth reset now | enableDepth module state | manage
  | centerOnPoint x y =>
    obtain rfl := Option.some.inj hstep
    rfl
  | command publisher =>
    cases publisher <;>
    · simp only [System.step] at hstep
      split at hstep
      · cases hstep
      · obtain rfl := Option.some.inj hstep
        rfl
  | targetDepth =>
    simp only [System.step] at hstep
    split at hstep
    · cases hstep
    · obtain rfl := Option.some.inj hstep
      rfl
  | attitude yaw =>
    obtain rfl := Option.some.inj hstep
    exact headingCallback_targetYaw s.heading yaw
  | targetHeading => exact absurd rfl he
  | forwardStatus =>
    simp only [System.step] at hstep
    split at hstep
    · cases hstep
    · obtain rfl := Option.some.inj hstep
      exact readForwardStatus_targetYaw s.heading _
  | enableHeading module state =>
    obtain rfl := Option.some.inj hstep
    exact enabledCallback_targetYaw s.heading module state

/-- In a step of a run with no message for the turn from outside, the target stays exactly when an
echo that arrives leads back to it. -/
theorem targetHeading_kept_iff {s t : System} (hrun : ReflTransGen System.Next .init s) {e : Event}
    (hexternal : s.externalTurn e = false) (hstep : s.step e = some t) :
    t.heading.targetYaw = s.heading.targetYaw ↔ s.LeadsBack e := by
  by_cases he : e = .targetHeading
  swap
  · exact iff_of_true (targetYaw_of_ne hstep he) fun heq => absurd heq he
  subst he
  rcases hqueue : s.targetHeadings with _ | ⟨⟨data, source⟩, rest⟩
  · simp [System.step, hqueue] at hstep
  cases source with
  | external => simp [System.externalTurn, hqueue] at hexternal
  | echo r =>
    have hdata : data = r.aim - r.yaw :=
      (echoes_of_run hrun).targetHeadings data r (by simp [hqueue])
    have htarget : t.heading.targetYaw = fmod (s.heading.currYaw + data) 180 := by
      simp only [System.step, hqueue] at hstep
      obtain rfl := Option.some.inj hstep
      rfl
    have hyaw : s.heading.currYaw + data = r.aim + (s.heading.currYaw - r.yaw) := by
      rw [hdata]
      ring
    rw [htarget, hyaw, fmod_eq_iff_leadsBack]
    simp [System.LeadsBack, hqueue, Source.reading?]

/-- From any state of a run on, in every run in which no message for the turn arrives from outside
and every echo that arrives leads back to the target, the target stays. -/
theorem targetYaw_stable {s t : System} (hs : ReflTransGen System.Next .init s)
    (hrun : ReflTransGen (Steps.Moves System.step
      fun u e => u.externalTurn e = false ∧ u.LeadsBack e) s t) :
    t.heading.targetYaw = s.heading.targetYaw := by
  have hkept : ReflTransGen System.Next .init t ∧ t.heading.targetYaw = s.heading.targetYaw :=
    Steps.invariant_of_moves
      (I := fun u => ReflTransGen System.Next .init u ∧ u.heading.targetYaw = s.heading.targetYaw)
      (fun u e v hu hguard hstep => ⟨hu.1.tail ⟨e, trivial, hstep⟩,
        ((targetHeading_kept_iff hu.1 hguard.1 hstep).mpr hguard.2).trans hu.2⟩) ⟨hs, rfl⟩ hrun
  exact hkept.2

/-- A heading from outside is set, and the controller begins to keep it. -/
def headingCommand : List Event :=
  [.publish ⟨.turn, .command, 10⟩, .publish ⟨.forward, .command, 1 / 10⟩, .forwardStatus,
    .forwardStatus, .command .operator, .manage, .targetHeading]

/-- A reading, up to where its echo is about to be handled. -/
def echo (yaw : ℚ) : List Event :=
  [.attitude yaw, .command .headingController, .command .headingController, .manage]

/-- The echo of a reading comes back before the next one. -/
theorem targetYaw_stable_at_rest :
    ∃ s t : System, ReflTransGen System.Next .init s ∧ s.heading.targetYaw = 10 ∧
      t.history.length = s.history.length + 3 ∧ t.heading.targetYaw = s.heading.targetYaw := by
  have hrun : ((Steps.run System.step (fun _ _ => True) headingCommand .init).bind fun s =>
      (Steps.run System.step (fun u e => u.externalTurn e = false ∧ u.LeadsBack e)
        (echo 0 ++ [.targetHeading]) s).map fun t =>
          (s.heading.targetYaw, t.history.length - s.history.length)) = some (10, 3) := by
    decide +kernel
  obtain ⟨s, hs, hrest⟩ := Option.bind_eq_some_iff.mp hrun
  obtain ⟨t, ht, heq⟩ := Option.map_eq_some_iff.mp hrest
  obtain ⟨htarget, hlength⟩ := Prod.mk.inj heq
  have hreach := Steps.moves_of_run hs
  exact ⟨s, t, hreach, htarget, by omega, targetYaw_stable hreach (Steps.moves_of_run ht)⟩

/-- A reading between an echo and its return moves the target, which no message from outside has
changed since it was set. -/
theorem targetYaw_moved_by_echo :
    ¬ ∀ s t u : System, ReflTransGen System.Next .init s → s.step .targetHeading = some t →
      s.targetHeadings.head?.map Prod.snd = some .external →
      ReflTransGen (Steps.Moves System.step fun v e => v.externalTurn e = false) t u →
      u.heading.targetYaw = t.heading.targetYaw := by
  intro h
  have hrun : ((Steps.run System.step (fun _ _ => True) headingCommand.dropLast .init).bind fun s =>
      (s.step .targetHeading).bind fun t =>
        (Steps.run System.step (fun v e => v.externalTurn e = false)
          (echo 0 ++ [.attitude 5, .targetHeading]) t).map fun u =>
            (s.targetHeadings.head?.map Prod.snd, t.heading.targetYaw, u.heading.targetYaw)) =
      some (some .external, 10, 15) := by
    decide +kernel
  obtain ⟨s, hs, hrest⟩ := Option.bind_eq_some_iff.mp hrun
  obtain ⟨t, ht, hrest⟩ := Option.bind_eq_some_iff.mp hrest
  obtain ⟨u, hu, heq⟩ := Option.map_eq_some_iff.mp hrest
  obtain ⟨hexternal, heq⟩ := Prod.mk.inj heq
  obtain ⟨htarget, hmoved⟩ := Prod.mk.inj heq
  have hsame := h s t u (Steps.moves_of_run hs) ht hexternal (Steps.moves_of_run hu)
  rw [htarget, hmoved] at hsame
  exact absurd hsame (by decide +kernel)

end Guillemot.Motion
