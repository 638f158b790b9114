import Guillemot.StateMachine.Machine

/-!
# Loading triggers and timers

What `AddTriggers` and `AddTimers` do is a fold: they read the lines of the sections of their name,
up to one that raises, and append what these say (`addTriggers_apply`, `addTimers_apply`). Which
triggers a class file yields is therefore a function of the file, `triggersOf`.
-/

namespace Guillemot.StateMachine

variable {F : Type} [PythonFloat F]

/-- The lines of the sections with a name, in the order of the file. -/
def sectionLines (kind : String) (file : Text) : List Text :=
  (sections file).flatMap fun (name, data) => if name = kind.toList then lines data else []

/-- A loop over the lines of the sections with a name, where blank lines are passed over. -/
theorem forM_sections {σ : Type} (kind : String) (file : Text) (f : Text → EStateM Raised σ Unit)
    (hblank : ∀ line, strip line = [] → f line = pure ()) :
    (forM (sections file) fun (name, data) =>
      if name = kind.toList then
        forM (lines data) fun line => if strip line = [] then pure () else f line
      else pure ()) = (forM (sectionLines kind file) f : EStateM Raised σ Unit) := by
  have hpass : (fun line => if strip line = [] then pure () else f line) = f := by
    funext line
    split_ifs with hline
    · exact (hblank line hline).symm
    · rfl
  rw [sectionLines, Raising.forM_flatMap, hpass]
  congr 1
  funext ⟨name, data⟩
  by_cases hname : name = kind.toList
  · simp only [hname, if_true]
  · simp only [hname, if_false, List.forM_nil]

/-! ## Triggers -/

/-- The triggers that the file of a class yields up to a line that raises, and what that line
raises. -/
def readTriggers (files : Files) (Class : Text) : List (Trigger F) × Option Raised :=
  Raising.collect (readTrigger Class) (sectionLines "Triggers" (openClassFile files Class))

/-- The triggers that `AddTriggers` registers for a class. -/
def triggersOf (files : Files) (Class : Text) : List (Trigger F) := (readTriggers files Class).1

theorem readTrigger_blank {Class line : Text} (h : strip line = []) :
    (readTrigger Class line : Except Raised (Option (Trigger F))) = .ok none := by
  rw [readTrigger, if_pos h]

theorem Trigger.make_fields {Class topic ttype op value : Text} {effect : Effect} {t : Trigger F}
    (h : Trigger.make Class topic ttype op value effect = .ok t) :
    t.mClassName = Class ∧ t.mTopic = topic := by
  unfold Trigger.make at h
  split at h
  · obtain rfl := Except.ok.inj h
    exact ⟨rfl, rfl⟩
  · cases h

/-- A trigger that is read belongs to the class, and its topic is a word of the line. -/
theorem readTrigger_fields {Class line : Text} {t : Trigger F}
    (h : readTrigger Class line = .ok (some t)) :
    t.mClassName = Class ∧ t.mTopic ∈ words line := by
  unfold readTrigger at h
  by_cases hblank : strip line = []
  · rw [if_pos hblank] at h
    cases h
  · rw [if_neg hblank] at h
    split at h
    · rename_i topic ttype op value keyword etype arg args hwords
      split_ifs at h
      · cases h
      · split at h
        · rename_i t' hmake
          obtain rfl : t' = t := Option.some.inj (Except.ok.inj h)
          obtain ⟨hclass, htopic⟩ := Trigger.make_fields hmake
          rw [hwords, htopic]
          exact ⟨hclass, List.mem_cons_self⟩
        · cases h
    · cases h

/-- `AddTriggers` appends the triggers that are read, also when it raises. -/
theorem addTriggers_apply (world : World F) (Class : Text) (m : Machine F) :
    addTriggers world Class m =
      Raising.registered Machine.appendTrigger (readTriggers world.files Class) m := by
  -- The inner loop passes over blank lines, from which nothing is read anyway.
  have hloop : addTriggers world Class =
      forM (sectionLines "Triggers" (openClassFile world.files Class)) (addTrigger Class) :=
    forM_sections "Triggers" _ _ fun line hline => by
      funext m
      rw [addTrigger, Raising.readThen, readTrigger_blank hline]
      rfl
  rw [hloop]
  exact Raising.forM_registers _ _ _ _

theorem final_addTriggers {world : World F} (Class : Text) (m : Machine F) :
    Raising.final (addTriggers world Class m) =
      (triggersOf world.files Class).foldl Machine.appendTrigger m := by
  rw [addTriggers_apply, Raising.final_registered]
  rfl

omit [PythonFloat F] in
/-- A trigger is appended to the listener of its topic. -/
theorem active_appendTrigger (m : Machine F) (t : Trigger F) (topic : Text) :
    (m.appendTrigger t).active topic =
      m.active topic ++ [t].filter (·.mTopic = topic) := by
  have hbound : t.mTopic ∈ (m.listenerCache.bind t.mTopic).keys :=
    (Bindings.mem_keys_bind _ _ _).mpr (.inl rfl)
  rw [Machine.appendTrigger, Machine.active, Bindings.get_modify _ hbound, Bindings.get_bind,
    Bindings.get_bind, Machine.active]
  by_cases htopic : topic = t.mTopic
  · subst htopic
    simp
  · rw [if_neg htopic, List.filter_singleton, decide_eq_false (Ne.symm htopic), cond_false,
      List.append_nil]

omit [PythonFloat F] in
theorem active_foldl_appendTrigger (ts : List (Trigger F)) (m : Machine F) (topic : Text) :
    (ts.foldl Machine.appendTrigger m).active topic =
      m.active topic ++ ts.filter (·.mTopic = topic) := by
  induction ts generalizing m with
  | nil => rw [List.foldl_nil, List.filter_nil, List.append_nil]
  | cons t ts ih =>
    rw [List.foldl_cons, ih, active_appendTrigger, List.append_assoc, ← List.filter_append,
      List.singleton_append]

/-! ## Timers -/

/-- The delays and effects that the file of a class yields up to a line that raises, and what that
line raises. -/
def readTimers (files : Files) (Class : Text) : List (F × Effect) × Option Raised :=
  Raising.collect readTimer (sectionLines "Timers" (openClassFile files Class))

/-- The timers made of some lines, where the first one asks question `n` for the time. -/
def newTimers (world : World F) (Class : Text) : ℕ → List (F × Effect) → List (Timer F)
  | _, [] => []
  | n, line :: rest => Timer.make world Class n line :: newTimers world Class (n + 1) rest

theorem readTimer_blank {line : Text} (h : strip line = []) :
    (readTimer line : Except Raised (Option (F × Effect))) = .ok none := by
  rw [readTimer, if_pos h]

/-- `AddTimers` appends the timers that are read, also when it raises. -/
theorem addTimers_apply (world : World F) (Class : Text) (m : Machine F) :
    addTimers world Class m =
      Raising.registered (Machine.appendTimer world Class) (readTimers world.files Class)
        { m with log := m.log ++ [.addTimers Class] } := by
  have hloop : addTimers world Class = (do
      record (.addTimers Class)
      forM (sectionLines "Timers" (openClassFile world.files Class)) (addTimer world Class)) := by
    rw [addTimers, ← forM_sections "Timers" _ (addTimer world Class) fun line hline => ?_]
    funext m
    rw [addTimer, Raising.readThen, readTimer_blank hline]
    rfl
  rw [hloop, Raising.bind_apply, record]
  exact Raising.forM_registers _ _ _ _

theorem final_addTimers {world : World F} (Class : Text) (m : Machine F) :
    Raising.final (addTimers world Class m) =
      (readTimers world.files Class).1.foldl (Machine.appendTimer world Class)
        { m with log := m.log ++ [.addTimers Class] } := by
  rw [addTimers_apply, Raising.final_registered]

/-- Every new timer is made for the class, after the questions that have been asked. -/
theorem mem_newTimers {world : World F} {Class : Text} {n : ℕ} {ls : List (F × Effect)}
    {t : Timer F} (ht : t ∈ newTimers world Class n ls) :
    t.Class = Class ∧ n ≤ t.id ∧ t.id < n + ls.length := by
  induction ls generalizing n with
  | nil => cases ht
  | cons line ls ih =>
    rcases List.mem_cons.mp ht with rfl | ht
    · exact ⟨rfl, le_refl _, by rw [List.length_cons]; exact Nat.lt_add_of_pos_right (by omega)⟩
    · obtain ⟨hclass, hle, hlt⟩ := ih ht
      rw [List.length_cons]
      exact ⟨hclass, by omega, by omega⟩

/-- What appending timers does: only `gTimers`, the number of questions and the record change. -/
theorem foldl_appendTimer (world : World F) (Class : Text) (ls : List (F × Effect))
    (m : Machine F) :
    let m' := ls.foldl (Machine.appendTimer world Class) m
    m'.currentClasses = m.currentClasses ∧ m'.listenerCache = m.listenerCache ∧
      m'.timers = m.timers ++ newTimers world Class m.asked ls ∧
      m'.asked = m.asked + ls.length ∧
      m'.log = m.log ++ (newTimers world Class m.asked ls).map .timer := by
  induction ls generalizing m with
  | nil => simp [newTimers]
  | cons line ls ih =>
    obtain ⟨hclasses, hcache, htimers, hasked, hlog⟩ := ih (m.appendTimer world Class line)
    have hget : (m.appendTimer world Class line).timers =
        m.timers ++ [Timer.make world Class m.asked line] := by
      rw [Machine.timers, Machine.appendTimer, Bindings.get_modify _ m.gTimers_bound, if_pos rfl]
      rfl
    have hnext : (m.appendTimer world Class line).asked = m.asked + 1 := rfl
    have hrecord : (m.appendTimer world Class line).log =
        m.log ++ [.timer (Timer.make world Class m.asked line)] := rfl
    rw [List.foldl_cons]
    refine ⟨hclasses, hcache, ?_, ?_, ?_⟩
    · rw [htimers, hget, hnext, List.append_assoc]
      rfl
    · rw [hasked, hnext, List.length_cons]
      omega
    · rw [hlog, hrecord, hnext, List.append_assoc]
      rfl

end Guillemot.StateMachine
