import Guillemot.Brain.NewPathTask

/-!
# The state that follows a path after it has ended

`execute` never ends what it subscribes to. After it has returned, a message on `img_rec/paths`
makes the task publish motions in any case, and a callback that was running when it returned
publishes what it has left: `silent_after_return_iff` says that there is nothing else. How many
motions a callback publishes does not depend on what the other threads do (`Emits`).
-/

namespace Guillemot.Brain

open Relation (ReflTransGen)
open Script

/-! ## Motions of a callback -/

/-- On every way through a task `n` motions are published. -/
abbrev Moves (n : ℕ) (task : Task Unit) : Prop := Emits Published.isMotion (fun _ => True) n task

theorem moves_move (direction : Direction) (value : ℚ) : Moves 1 (move direction value) := by
  refine emits_bind emits_update (fun _ _ => ?_) (Nat.zero_add 1)
  refine emits_bind emits_update (fun _ _ => ?_) (Nat.zero_add 1)
  refine emits_bind emits_update (fun _ _ => ?_) (Nat.zero_add 1)
  exact emits_bind emits_gets (fun _ _ => emits_publish rfl) (Nat.zero_add 1)

theorem moves_forward (value : ℚ) : Moves 2 (forward value) :=
  emits_bind (moves_move _ _) (fun _ _ => moves_move _ _) rfl

theorem moves_extendTimeout : Moves 0 extendTimeout := by
  refine emits_bind emits_gets (fun _ _ => ?_) (Nat.zero_add 0)
  split_ifs
  · exact emits_bind emits_gets (fun _ _ => emits_update) rfl
  · exact emits_update

/-- Centering publishes the same motions on every way, and says whether the path was centered. -/
theorem emits_centerX (msg : ImgRecObject) :
    Emits Published.isMotion (· = decide (|msg.center_x| ≤ 30)) 1 (centerX msg) := by
  unfold centerX
  split_ifs with h
  · exact emits_bind (moves_move _ _) (fun _ _ => .done (by simpa using h)) rfl
  · exact emits_bind (moves_move _ _) (fun _ _ => .done (by simpa using h)) rfl

theorem emits_centerY (msg : ImgRecObject) :
    Emits Published.isMotion (· = decide (|msg.center_y| ≤ 30)) 2 (centerY msg) := by
  unfold centerY
  split_ifs with h
  · exact emits_bind (moves_forward _) (fun _ _ => .done (by simpa using h)) rfl
  · exact emits_bind (moves_forward _) (fun _ _ => .done (by simpa using h)) rfl

theorem moves_alignToPath (msg : ImgRecObject) : Moves 1 (alignToPath msg) := by
  unfold alignToPath
  split_ifs
  · exact emits_bind (moves_move _ _) (fun _ _ => emits_update) rfl
  · exact moves_move _ _

theorem moves_centerOnPath (msg : ImgRecObject) : ∃ n, Moves n (centerOnPath msg) := by
  have hy : ∃ n, Moves n (do if ← centerY msg then alignToPath msg else pure ()) := by
    by_cases h : |msg.center_y| ≤ 30
    · refine ⟨3, emits_bind (k := 1) (emits_centerY msg) (fun centered hcentered => ?_) rfl⟩
      rw [hcentered, decide_eq_true h]
      exact moves_alignToPath msg
    · refine ⟨2, emits_bind (k := 0) (emits_centerY msg) (fun centered hcentered => ?_) rfl⟩
      rw [hcentered, decide_eq_false h]
      exact .done trivial
  obtain ⟨n, hy⟩ := hy
  by_cases h : |msg.center_x| ≤ 30
  · refine ⟨1 + n, emits_bind (emits_centerX msg) (fun centered hcentered => ?_) rfl⟩
    rw [hcentered, decide_eq_true h]
    exact hy
  · refine ⟨1, emits_bind (k := 0) (emits_centerX msg) (fun centered hcentered => ?_) rfl⟩
    rw [hcentered, decide_eq_false h]
    exact .done trivial

/-- A message about a path is answered by at least two motions. -/
theorem moves_objCallback (msg : ImgRecObject) : ∃ n, Moves (n + 2) (objCallback msg) := by
  obtain ⟨n, hcenter⟩ := moves_centerOnPath msg
  refine ⟨n, emits_bind emits_update (fun _ _ => ?_) (Nat.zero_add _)⟩
  refine emits_bind moves_extendTimeout (fun _ _ => ?_) (Nat.zero_add _)
  exact emits_bind (moves_forward 0) (fun _ _ => hcenter) (Nat.add_comm 2 n)

theorem moves_task_complete (own : Bool) : Moves 0 (task_complete own) := by
  cases own with
  | false => exact .done trivial
  | true => exact emits_update

theorem moves_calls {n : ℕ} {callback : Task Unit} (h : Moves n callback) (k : ℕ) :
    Moves (k * n) (calls callback k) := by
  induction k with
  | zero =>
    rw [Nat.zero_mul]
    exact .done trivial
  | succ k ih => exact emits_bind h (fun _ _ => ih) (by rw [Nat.succ_mul, Nat.add_comm])

/-- What handles a message publishes a number of motions; it is zero for a completion, and not for a
path, if the task has subscribed. -/
theorem moves_thread (msg : Message) (s : Shared) :
    ∃ n, Moves n (msg.thread s) ∧ (∀ own, msg = .completion own → n = 0) ∧
      (∀ path, msg = .path path → 0 < s.objSub → n ≠ 0) := by
  cases msg with
  | path path =>
    obtain ⟨n, hn⟩ := moves_objCallback path
    refine ⟨_, moves_calls hn s.objSub, by rintro _ ⟨⟩, fun _ _ hsub => ?_⟩
    exact Nat.mul_ne_zero hsub.ne' (by omega)
  | completion own =>
    refine ⟨_, moves_calls (moves_task_complete own) s.sub, fun _ _ => Nat.mul_zero _, ?_⟩
    rintro _ ⟨⟩

/-! ## The subscription -/

/-- A change that leaves the subscription to `img_rec/paths`. -/
def KeepsSubscription (f : Shared → Shared) : Prop := ∀ s, (f s).objSub = s.objSub

/-- A script that leaves the subscription to `img_rec/paths`. -/
abbrev Keeps {α : Type} (task : Task α) : Prop := Writes KeepsSubscription task

theorem keeps_move (direction : Direction) (value : ℚ) : Keeps (move direction value) := by
  refine writes_bind (writes_update fun _ => rfl) fun _ => ?_
  refine writes_bind (writes_update fun _ => rfl) fun _ => ?_
  refine writes_bind (writes_update fun _ => rfl) fun _ => ?_
  exact writes_bind writes_gets fun _ => writes_publish

theorem keeps_forward (value : ℚ) : Keeps (forward value) :=
  writes_bind (keeps_move _ _) fun _ => keeps_move _ _

theorem keeps_extendTimeout : Keeps extendTimeout := by
  refine writes_bind writes_gets fun _ => ?_
  split_ifs
  · exact writes_bind writes_gets fun _ => writes_update fun _ => rfl
  · exact writes_update fun _ => rfl

theorem keeps_centerX (msg : ImgRecObject) : Keeps (centerX msg) := by
  unfold centerX
  split_ifs <;> exact writes_bind (keeps_move _ _) fun _ => .done

theorem keeps_centerY (msg : ImgRecObject) : Keeps (centerY msg) := by
  unfold centerY
  split_ifs <;> exact writes_bind (keeps_forward _) fun _ => .done

theorem keeps_alignToPath (msg : ImgRecObject) : Keeps (alignToPath msg) := by
  unfold alignToPath
  split_ifs
  · exact writes_bind (keeps_move _ _) fun _ => writes_update fun _ => rfl
  · exact keeps_move _ _

theorem keeps_centerOnPath (msg : ImgRecObject) : Keeps (centerOnPath msg) := by
  refine writes_bind (keeps_centerX msg) fun _ => ?_
  split_ifs
  · refine writes_bind (keeps_centerY msg) fun _ => ?_
    split_ifs
    · exact keeps_alignToPath msg
    · exact .done
  · exact .done

theorem keeps_objCallback (msg : ImgRecObject) : Keeps (objCallback msg) :=
  writes_bind (writes_update fun _ => rfl) fun _ => writes_bind keeps_extendTimeout fun _ =>
    writes_bind (keeps_forward 0) fun _ => keeps_centerOnPath msg

theorem keeps_task_complete (own : Bool) : Keeps (task_complete own) := by
  cases own with
  | false => exact .done
  | true => exact writes_update fun _ => rfl

theorem keeps_calls {callback : Task Unit} (h : Keeps callback) (k : ℕ) :
    Keeps (calls callback k) := by
  induction k with
  | zero => exact .done
  | succ k ih => exact writes_bind h fun _ => ih

theorem keeps_thread (msg : Message) (s : Shared) : Keeps (msg.thread s) := by
  cases msg with
  | path path => exact keeps_calls (keeps_objCallback path) s.objSub
  | completion own => exact keeps_calls (keeps_task_complete own) s.sub

theorem keeps_enable : Keeps enable :=
  writes_bind writes_publish fun _ => writes_bind (keeps_move _ _) fun _ => .done

theorem keeps_round : Keeps round := by
  refine writes_bind writes_gets fun _ => ?_
  split_ifs
  · refine writes_bind writes_gets fun _ => ?_
    split_ifs
    · exact writes_bind writes_publish fun _ => .done
    · refine writes_bind writes_gets fun _ => ?_
      split_ifs
      · exact writes_bind writes_publish fun _ =>
          writes_bind (writes_update fun _ => rfl) fun _ => .done
      · exact writes_bind (keeps_forward _) fun _ => writes_bind writes_pauseAt fun _ =>
          writes_bind writes_gets fun _ => writes_bind (writes_update fun _ => rfl) fun _ => .done
  · exact writes_bind writes_publish fun _ => .done

/-! ## Statements -/

/-- What a statement does. -/
theorem statement_cases {α : Type} {s t : Shared} {task rest : Task α} {entries : List Entry}
    (h : statement s task = some (t, entries, rest)) :
    (∃ o, task = .emit o rest ∧ t = s ∧ entries = [.published o]) ∨
      (∃ place, task = .pause place rest ∧ t = s ∧ entries = []) ∨
      (∃ f, task = .read f ∧ rest = f s ∧ t = s ∧ entries = []) ∨
      ∃ f, task = .write f rest ∧ t = f s ∧ entries = [] := by
  cases task with
  | done => cases h
  | emit o next =>
    cases h
    exact .inl ⟨o, rfl, rfl, rfl⟩
  | pause place next =>
    cases h
    exact .inr (.inl ⟨place, rfl, rfl, rfl⟩)
  | read f =>
    cases h
    exact .inr (.inr (.inl ⟨f, rfl, rfl, rfl, rfl⟩))
  | write f next =>
    cases h
    exact .inr (.inr (.inr ⟨f, rfl, rfl, rfl⟩))

/-- A statement of a script that leaves the subscription. -/
theorem statement_keeps {α : Type} {s t : Shared} {task rest : Task α} {entries : List Entry}
    (h : statement s task = some (t, entries, rest)) (hkeeps : Keeps task) :
    t.objSub = s.objSub ∧ Keeps rest := by
  obtain ⟨o, rfl, rfl, -⟩ | ⟨place, rfl, rfl, -⟩ | ⟨f, rfl, rfl, rfl, -⟩ | ⟨f, rfl, rfl, -⟩ :=
    statement_cases h
  · cases hkeeps with
    | emit hrest => exact ⟨rfl, hrest⟩
  · cases hkeeps with
    | pause hrest => exact ⟨rfl, hrest⟩
  · cases hkeeps with
    | read hrest => exact ⟨rfl, hrest _⟩
  · cases hkeeps with
    | write hf hrest => exact ⟨hf s, hrest⟩

/-- A statement of a script with `n` motions left. -/
theorem statement_moves {n : ℕ} {s t : Shared} {task rest : Task Unit} {entries : List Entry}
    (h : statement s task = some (t, entries, rest)) (hmoves : Moves n task) :
    ∃ m, Moves m rest ∧ n = (entries.filter Entry.isMotion).length + m := by
  obtain ⟨o, rfl, -, rfl⟩ | ⟨place, rfl, -, rfl⟩ | ⟨f, rfl, rfl, -, rfl⟩ | ⟨f, rfl, -, rfl⟩ :=
    statement_cases h
  · cases hmoves with
    | @counted n _ _ ho hrest => exact ⟨n, hrest, by simp [Entry.isMotion, ho, Nat.add_comm]⟩
    | other ho hrest => exact ⟨n, hrest, by simp [Entry.isMotion, ho]⟩
  · cases hmoves with
    | pause hrest => exact ⟨n, hrest, by simp⟩
  · cases hmoves with
    | read hrest => exact ⟨n, hrest s, by simp⟩
  · cases hmoves with
    | write hrest => exact ⟨n, hrest, by simp⟩

/-- A statement does not return. -/
theorem statement_entries {α : Type} {s t : Shared} {task rest : Task α} {entries : List Entry}
    (h : statement s task = some (t, entries, rest)) (outcome : Outcome) :
    .returned outcome ∉ entries := by
  obtain ⟨o, -, -, rfl⟩ | ⟨place, -, -, rfl⟩ | ⟨f, -, -, -, rfl⟩ | ⟨f, -, -, rfl⟩ :=
    statement_cases h
  · simp
  · exact List.not_mem_nil
  · exact List.not_mem_nil
  · exact List.not_mem_nil

theorem statement_start (s : Shared) :
    statement s start = some ({ s with sub := s.sub + 1 }, [], subscribeToPaths) := rfl

theorem statement_subscribeToPaths (s : Shared) :
    statement s subscribeToPaths = some ({ s with objSub := s.objSub + 1 }, [], enable) := rfl

/-! ## The steps -/

/-- A step of `execute`: a new round, the return, or a statement. -/
theorem runMain_cases {s t : System} {task : Task (Option Outcome)} (h : s.runMain task = some t) :
    (task = .done none ∧ t = { s with main := some round }) ∨
      (∃ outcome, task = .done (some outcome) ∧
        t = { s with main := none, log := s.log ++ [.returned outcome] }) ∨
      ∃ shared entries rest, statement s.shared task = some (shared, entries, rest) ∧
        t = { s with shared := shared, main := some rest, log := s.log ++ entries } := by
  unfold System.runMain at h
  split at h
  · exact .inl ⟨rfl, (Option.some.inj h).symm⟩
  · exact .inr (.inl ⟨_, rfl, (Option.some.inj h).symm⟩)
  · obtain ⟨⟨shared, entries, rest⟩, hstatement, ht⟩ := Option.map_eq_some_iff.mp h
    exact .inr (.inr ⟨shared, entries, rest, hstatement, ht.symm⟩)

/-- A step of a callback is a statement. -/
theorem step_callback {s t : System} {i : ℕ} (h : s.step (.callback i) = some t) :
    ∃ task shared entries rest, s.callbacks[i]? = some task ∧
      statement s.shared task = some (shared, entries, rest) ∧
      t = { s with
        shared := shared, callbacks := s.callbacks.set i rest, log := s.log ++ entries } := by
  simp only [System.step] at h
  split at h
  · cases h
  · next task htask =>
    obtain ⟨⟨shared, entries, rest⟩, hstatement, ht⟩ := Option.map_eq_some_iff.mp h
    exact ⟨task, shared, entries, rest, htask, hstatement, ht.symm⟩

/-! ## Until the return -/

/-- Before `execute` returns it has subscribed to `img_rec/paths`, which no statement takes back;
and every callback publishes some number of motions. -/
structure Subscribed (s : System) : Prop where
  returned : ∀ outcome, .returned outcome ∈ s.log → 0 < s.shared.objSub
  main : ∀ task, s.main = some task →
    task = start ∨ task = subscribeToPaths ∨ Keeps task ∧ 0 < s.shared.objSub
  callbacks : ∀ task ∈ s.callbacks, Keeps task ∧ ∃ n, Moves n task

theorem subscribed_init : Subscribed .init :=
  ⟨fun _ h => absurd h List.not_mem_nil, nofun, List.forall_mem_nil _⟩

theorem Subscribed.runMain {s t : System} (h : Subscribed s) {task : Task (Option Outcome)}
    (hmain : s.main = some task) (hstep : s.runMain task = some t) : Subscribed t := by
  obtain ⟨hreturned, htask, hcallbacks⟩ := h
  obtain ⟨rfl, rfl⟩ | ⟨outcome, rfl, rfl⟩ | ⟨shared, entries, rest, hstatement, rfl⟩ :=
    runMain_cases hstep
  · obtain hstart | hsubscribe | ⟨-, hsub⟩ := htask _ hmain
    · cases hstart
    · cases hsubscribe
    · refine ⟨hreturned, fun task hround => .inr (.inr ?_), hcallbacks⟩
      obtain rfl := Option.some.inj hround
      exact ⟨keeps_round, hsub⟩
  · obtain hstart | hsubscribe | ⟨-, hsub⟩ := htask _ hmain
    · cases hstart
    · cases hsubscribe
    · exact ⟨fun _ _ => hsub, nofun, hcallbacks⟩
  · have hlog : ∀ outcome, .returned outcome ∈ s.log ++ entries → 0 < s.shared.objSub :=
      fun outcome hmem => (List.mem_append.mp hmem).elim (hreturned outcome)
        (absurd · (statement_entries hstatement outcome))
    obtain rfl | rfl | ⟨hkeeps, hsub⟩ := htask _ hmain
    · -- the first subscription
      rw [statement_start] at hstatement
      cases hstatement
      refine ⟨hlog, fun task hrest => .inr (.inl ?_), hcallbacks⟩
      exact (Option.some.inj hrest).symm
    · -- the subscription to `img_rec/paths`
      rw [statement_subscribeToPaths] at hstatement
      cases hstatement
      refine ⟨fun _ _ => Nat.succ_pos _, fun task hrest => .inr (.inr ?_), hcallbacks⟩
      obtain rfl := Option.some.inj hrest
      exact ⟨keeps_enable, Nat.succ_pos _⟩
    · obtain ⟨hsame, hrest⟩ := statement_keeps hstatement hkeeps
      have hsub' : 0 < shared.objSub := hsame ▸ hsub
      refine ⟨fun _ _ => hsub', fun task hnext => .inr (.inr ?_), hcallbacks⟩
      obtain rfl := Option.some.inj hnext
      exact ⟨hrest, hsub'⟩

theorem Subscribed.step {s t : System} (h : Subscribed s) {e : Event}
    (hstep : s.step e = some t) : Subscribed t := by
  cases e with
  | execute =>
    obtain ⟨hreturned, -, hcallbacks⟩ := h
    simp only [System.step] at hstep
    split at hstep
    · obtain rfl := Option.some.inj hstep
      exact ⟨hreturned, fun task hstart => .inl (Option.some.inj hstart).symm, hcallbacks⟩
    · cases hstep
  | requestPreempt =>
    obtain ⟨hreturned, htask, hcallbacks⟩ := h
    obtain rfl := Option.some.inj hstep
    exact ⟨hreturned, htask, hcallbacks⟩
  | message msg =>
    obtain ⟨hreturned, htask, hcallbacks⟩ := h
    obtain rfl := Option.some.inj hstep
    refine ⟨hreturned, htask, List.forall_mem_append.mpr ⟨hcallbacks, ?_⟩⟩
    obtain ⟨n, hn, -⟩ := moves_thread msg s.shared
    exact List.forall_mem_singleton.mpr ⟨keeps_thread msg s.shared, n, hn⟩
  | main =>
    obtain ⟨task, hmain, hrun⟩ := Option.bind_eq_some_iff.mp hstep
    exact h.runMain hmain hrun
  | callback i =>
    obtain ⟨task, shared, entries, rest, htask, hstatement, rfl⟩ := step_callback hstep
    obtain ⟨hreturned, hmain, hcallbacks⟩ := h
    obtain ⟨hkeeps, n, hmoves⟩ := hcallbacks task (List.mem_of_getElem? htask)
    obtain ⟨hsame, hrest⟩ := statement_keeps hstatement hkeeps
    obtain ⟨m, hm, -⟩ := statement_moves hstatement hmoves
    refine ⟨fun outcome hmem => ?_, fun task hnext => ?_, fun task hmem => ?_⟩
    · rw [hsame]
      exact (List.mem_append.mp hmem).elim (hreturned outcome)
        (absurd · (statement_entries hstatement outcome))
    · rw [hsame]
      exact hmain task hnext
    · obtain hmem | rfl := List.mem_or_eq_of_mem_set hmem
      · exact hcallbacks task hmem
      · exact ⟨hrest, m, hm⟩

theorem subscribed_of_run {s : System} (h : ReflTransGen System.Next .init s) : Subscribed s :=
  Steps.invariant_of_moves (I := Subscribed) (fun _ _ _ hs _ hstep => hs.step hstep)
    subscribed_init h

/-! ## After the return -/

/-- A callback has no statement left that publishes a motion. -/
def PastMotions (task : Task Unit) : Prop :=
  ∀ o rest, Rest task (.emit o rest) → o.isMotion = false

instance : Nonempty Shared := ⟨System.init.shared⟩

theorem Moves.pastMotions_iff {n : ℕ} {task : Task Unit} (h : Moves n task) :
    PastMotions task ↔ n = 0 := h.eq_zero_iff.symm

/-- `execute` does not run, and no motion is left in any callback. -/
structure Still (s : System) : Prop where
  main : s.main = none
  callbacks : ∀ task ∈ s.callbacks, Moves 0 task

theorem motions_append (s : System) (entries : List Entry) :
    (s.log ++ entries).filter Entry.isMotion = s.motions ++ entries.filter Entry.isMotion :=
  List.filter_append ..

/-- Without a message about a path, and without `execute`, no motion is published. -/
theorem Still.step {s t : System} (h : Still s) {e : Event} (hexecute : e ≠ .execute)
    (hpath : ∀ path, e ≠ .message (.path path)) (hstep : s.step e = some t) :
    Still t ∧ t.motions = s.motions := by
  obtain ⟨hmain, hcallbacks⟩ := h
  cases e with
  | execute => exact absurd rfl hexecute
  | requestPreempt =>
    obtain rfl := Option.some.inj hstep
    exact ⟨⟨hmain, hcallbacks⟩, rfl⟩
  | message msg =>
    obtain rfl := Option.some.inj hstep
    refine ⟨⟨hmain, List.forall_mem_append.mpr ⟨hcallbacks, ?_⟩⟩, rfl⟩
    obtain ⟨n, hn, hcompletion, -⟩ := moves_thread msg s.shared
    cases msg with
    | path path => exact absurd rfl (hpath path)
    | completion own =>
      obtain rfl := hcompletion own rfl
      exact List.forall_mem_singleton.mpr hn
  | main =>
    rw [System.step, hmain] at hstep
    cases hstep
  | callback i =>
    obtain ⟨task, shared, entries, rest, htask, hstatement, rfl⟩ := step_callback hstep
    have hmoves := hcallbacks task (List.mem_of_getElem? htask)
    obtain ⟨m, hm, hcount⟩ := statement_moves hstatement hmoves
    obtain ⟨hentries, rfl⟩ := Nat.add_eq_zero_iff.mp hcount.symm
    refine ⟨⟨hmain, fun task hmem => ?_⟩, ?_⟩
    · obtain hmem | rfl := List.mem_or_eq_of_mem_set hmem
      · exact hcallbacks task hmem
      · exact hm
    · rw [System.motions, motions_append, List.length_eq_zero_iff.mp hentries, List.append_nil]

/-- The steps before the state machine calls `execute` again. -/
abbrev System.runUnlessExecuted : List Event → System → Option System :=
  Steps.run System.step fun _ e => e ≠ .execute

theorem Still.run {s t : System} {es : List Event} (h : Still s)
    (hpath : ∀ path, .message (.path path) ∉ es) (hrun : System.runUnlessExecuted es s = some t) :
    t.motions = s.motions := by
  induction es generalizing s with
  | nil =>
    obtain rfl := Option.some.inj hrun
    rfl
  | cons e es ih =>
    simp only [System.runUnlessExecuted, Steps.run] at hrun
    split_ifs at hrun with hexecute
    obtain ⟨u, hu, hrest⟩ := Option.bind_eq_some_iff.mp hrun
    have hfirst : ∀ path, e ≠ .message (.path path) := by
      rintro path rfl
      exact hpath path List.mem_cons_self
    obtain ⟨hstill, hsame⟩ := h.step hexecute hfirst hu
    rw [ih hstill (fun path hmem => hpath path (List.mem_cons_of_mem _ hmem)) hrest, hsame]

/-! ## The callbacks to their ends -/

/-- The callback at a position can run to its end, and publishes `n` motions on the way. -/
def Finishes (i n : ℕ) (s : System) : Prop :=
  ∃ k t, System.runUnlessExecuted (List.replicate k (.callback i)) s = some t ∧
    t.motions.length = s.motions.length + n

/-- A statement of a callback, and its way from there to its end. -/
theorem finishes_cons {s : System} {i n m : ℕ} {task rest : Task Unit} {shared : Shared}
    {entries : List Entry} (htask : s.callbacks[i]? = some task)
    (hstatement : statement s.shared task = some (shared, entries, rest))
    (hrest : ∀ u : System, u.callbacks[i]? = some rest → Finishes i m u)
    (hn : n = (entries.filter Entry.isMotion).length + m) : Finishes i n s := by
  let u : System := { s with
    shared := shared, callbacks := s.callbacks.set i rest, log := s.log ++ entries }
  have hu : s.step (.callback i) = some u := by simp [System.step, htask, hstatement, u]
  have hnext : u.callbacks[i]? = some rest := by
    obtain ⟨hi, -⟩ := List.getElem?_eq_some_iff.mp htask
    exact List.getElem?_set_self hi
  obtain ⟨k, t, hrun, hlength⟩ := hrest u hnext
  refine ⟨k + 1, t, ?_, ?_⟩
  · rw [List.replicate_succ, System.runUnlessExecuted, Steps.run, if_pos (by simp), hu]
    exact hrun
  · have hmotions : u.motions = s.motions ++ entries.filter Entry.isMotion :=
      motions_append s entries
    rw [hlength, hmotions, List.length_append, hn, Nat.add_assoc]

theorem finishes {n : ℕ} {task : Task Unit} (h : Moves n task) {i : ℕ} {s : System}
    (htask : s.callbacks[i]? = some task) : Finishes i n s := by
  induction h generalizing s with
  | done => exact ⟨0, s, rfl, rfl⟩
  | counted ho _ ih =>
    exact finishes_cons htask rfl (fun _ => ih) (by simp [Entry.isMotion, ho, Nat.add_comm])
  | other ho _ ih => exact finishes_cons htask rfl (fun _ => ih) (by simp [Entry.isMotion, ho])
  | pause _ ih => exact finishes_cons htask rfl (fun _ => ih) (by simp)
  | read _ ih => exact finishes_cons htask rfl (fun _ => ih s.shared) (by simp)
  | write _ ih => exact finishes_cons htask rfl (fun _ => ih) (by simp)

/-- A message that arrives. -/
def Event.message? : Event → Option Message
  | .message msg => some msg
  | _ => none

/-- Messages arrive one after the other, and nothing else happens. -/
theorem run_messages (msgs : List Message) (s : System) :
    System.runUnlessExecuted (msgs.map .message) s =
      some { s with callbacks := s.callbacks ++ msgs.map (·.thread s.shared) } := by
  induction msgs generalizing s with
  | nil => simp [System.runUnlessExecuted, Steps.run]
  | cons msg msgs ih =>
    rw [List.map_cons, System.runUnlessExecuted, Steps.run, if_pos (by simp), System.step,
      Option.bind_some]
    exact (ih _).trans (by simp)

theorem filterMap_message (msgs : List Message) (k i : ℕ) :
    (msgs.map Event.message ++ List.replicate k (Event.callback i)).filterMap Event.message? =
      msgs := by
  have hmsgs : (Event.message? ∘ Event.message) = some := rfl
  rw [List.filterMap_append, List.filterMap_map, hmsgs, List.filterMap_some,
    List.filterMap_replicate_of_none rfl, List.append_nil]

/-- If nothing is published, then no motion is left in a callback that is running or is started by
one of the messages. -/
theorem moves_zero {s : System} {msgs : List Message}
    (hsilent : ∀ es t, es.filterMap Event.message? = msgs → System.runUnlessExecuted es s = some t →
      t.motions = s.motions)
    {task : Task Unit} (htask : task ∈ s.callbacks ++ msgs.map (·.thread s.shared)) {n : ℕ}
    (hn : Moves n task) : n = 0 := by
  obtain ⟨i, hi⟩ := List.mem_iff_getElem?.mp htask
  let u : System := { s with callbacks := s.callbacks ++ msgs.map (·.thread s.shared) }
  obtain ⟨k, t, hrun, hlength⟩ := finishes hn (s := u) hi
  have hall : System.runUnlessExecuted (msgs.map .message ++ List.replicate k (.callback i)) s =
      some t := by
    have hdelivered := run_messages msgs s
    unfold System.runUnlessExecuted at hdelivered ⊢
    rw [Steps.run_append, hdelivered]
    exact hrun
  have hsame : t.motions.length = s.motions.length :=
    congrArg List.length (hsilent _ t (filterMap_message msgs k i) hall)
  exact Nat.left_eq_add.mp (hsame.symm.trans hlength)

/-- From any state of a run in which `execute` has returned and does not run: whatever else happens
until it is executed again, messages are handled without a motion exactly when none of them is about
a path, and every callback that is still running has published its motions. -/
theorem silent_after_return_iff {s : System} (hrun : ReflTransGen System.Next .init s)
    {outcome : Outcome} (hreturned : .returned outcome ∈ s.log) (hmain : s.main = none)
    (msgs : List Message) :
    (∀ es t, es.filterMap Event.message? = msgs → System.runUnlessExecuted es s = some t →
        t.motions = s.motions) ↔
      (∀ path, .path path ∉ msgs) ∧ ∀ task ∈ s.callbacks, PastMotions task := by
  have hsubscribed := subscribed_of_run hrun
  have hsub := hsubscribed.returned outcome hreturned
  constructor
  · intro hsilent
    refine ⟨fun path hpath => ?_, fun task htask => ?_⟩
    · obtain ⟨n, hn, -, hne⟩ := moves_thread (.path path) s.shared
      refine hne path rfl hsub (moves_zero hsilent ?_ hn)
      exact List.mem_append_right _ (List.mem_map_of_mem hpath)
    · obtain ⟨-, n, hn⟩ := hsubscribed.callbacks task htask
      exact hn.pastMotions_iff.mpr (moves_zero hsilent (List.mem_append_left _ htask) hn)
  · rintro ⟨hpath, hcallbacks⟩ es t rfl hes
    have hstill : Still s := by
      refine ⟨hmain, fun task htask => ?_⟩
      obtain ⟨-, n, hn⟩ := hsubscribed.callbacks task htask
      obtain rfl := hn.pastMotions_iff.mp (hcallbacks task htask)
      exact hn
    refine hstill.run (fun path hmem => hpath path ?_) hes
    exact List.mem_filterMap.mpr ⟨_, hmem, rfl⟩

/-- The task is executed and preempted before its first round. -/
def preemptedRun : List Event := .execute :: .requestPreempt :: List.replicate 15 .main

/-- Preempted without a callback that is running, the task hears of its completion in silence. -/
theorem silent_when_preempted :
    ∃ s, ReflTransGen System.Next .init s ∧ .returned .preempted ∈ s.log ∧ s.main = none ∧
      ∀ es t, es.filterMap Event.message? = [.completion true] →
        System.runUnlessExecuted es s = some t → t.motions = s.motions := by
  have hrun : (Steps.run System.step (fun _ _ => True) preemptedRun .init).map
      (fun s => (decide (.returned .preempted ∈ s.log), s.main.isSome, s.callbacks.length)) =
      some (true, false, 0) := by
    decide +kernel
  obtain ⟨s, hs, heq⟩ := Option.map_eq_some_iff.mp hrun
  obtain ⟨hreturned, hrest⟩ := Prod.mk.inj heq
  obtain ⟨hmain, hcallbacks⟩ := Prod.mk.inj hrest
  have hreturned := of_decide_eq_true hreturned
  have hmain := Option.isNone_iff_eq_none.mp (Option.isSome_eq_false_iff.mp hmain)
  refine ⟨s, Steps.moves_of_run hs, hreturned, hmain, ?_⟩
  refine (silent_after_return_iff (Steps.moves_of_run hs) hreturned hmain _).mpr ⟨by simp, ?_⟩
  rw [List.length_eq_zero_iff.mp hcallbacks]
  exact List.forall_mem_nil _

/-- A path straight ahead is found, and the callback goes on up to its first motion. -/
def pathFound : List Event := .message (.path ⟨0, 0, 0⟩) :: List.replicate 8 (.callback 0)

/-- Preempted, the task turns the vehicle when it hears of a path. -/
theorem turns_after_preemption :
    ¬ ∀ s outcome, ReflTransGen System.Next .init s → .returned outcome ∈ s.log → s.main = none →
      ∀ es t, System.runUnlessExecuted es s = some t → t.motions = s.motions := by
  intro h
  have hrun : ((Steps.run System.step (fun _ _ => True) preemptedRun .init).bind fun s =>
      (System.runUnlessExecuted pathFound s).map fun t =>
        (decide (.returned .preempted ∈ s.log), s.main.isSome, s.motions, t.motions)) =
      some (true, false, [.published (.motion ⟨some .dive, "Command", 4⟩)],
        [.published (.motion ⟨some .dive, "Command", 4⟩),
          .published (.motion ⟨some .turn, "Command", 0⟩)]) := by
    decide +kernel
  obtain ⟨s, hs, hrest⟩ := Option.bind_eq_some_iff.mp hrun
  obtain ⟨t, ht, heq⟩ := Option.map_eq_some_iff.mp hrest
  obtain ⟨hreturned, heq⟩ := Prod.mk.inj heq
  obtain ⟨hmain, heq⟩ := Prod.mk.inj heq
  obtain ⟨hbefore, hafter⟩ := Prod.mk.inj heq
  have hmain := Option.isNone_iff_eq_none.mp (Option.isSome_eq_false_iff.mp hmain)
  have hsame := h s .preempted (Steps.moves_of_run hs) (of_decide_eq_true hreturned) hmain _ t ht
  rw [hbefore, hafter] at hsame
  cases hsame

end Guillemot.Brain
