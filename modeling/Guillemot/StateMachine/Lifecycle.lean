import Mathlib.Data.List.Chain
import Mathlib.Data.List.Induction
import Guillemot.StateMachine.Transition

/-!
# Set-up and tear-down of classes

`ChangeState` tears down the classes that are left and sets up those that are entered, by the two
differences against `currentClasses`, which is replaced at the end. `Cycled` says what a transition
that returns adds to the record of set-ups and tear-downs (`phases`). Where the sections of the
class files can be read (`SectionsParse`) every transition to a named class returns, and
`setup_tearDown_alternate` follows for every sequence of calls: each class is set up and torn down
in turn, and it has been set up last exactly when it is in `currentClasses`.
-/

namespace Guillemot.StateMachine

open Raising

variable {F : Type}

/-! ## The record -/

/-- What happens to a class. -/
inductive Phase where
  | setup
  | tearDown
deriving DecidableEq, Repr

/-- The set-up or tear-down that an event is. -/
def Event.phase? : Event F → Option (Phase × Text)
  | .setup Class => some (.setup, Class)
  | .tearDown Class => some (.tearDown, Class)
  | _ => none

/-- The set-ups and tear-downs of a record, in order. -/
def phases (log : List (Event F)) : List (Phase × Text) := log.filterMap Event.phase?

/-- What has happened to one class. -/
def phasesOf (Class : Text) (log : List (Event F)) : List Phase :=
  ((phases log).filter (·.2 = Class)).map Prod.fst

theorem phases_append (log events : List (Event F)) :
    phases (log ++ events) = phases log ++ phases events := List.filterMap_append

/-- The classes are as before, and some set-ups and tear-downs have been recorded. -/
structure Recorded (added : List (Phase × Text)) (m m' : Machine F) : Prop where
  classes : m'.currentClasses = m.currentClasses
  phases : phases m'.log = phases m.log ++ added

theorem Recorded.trans {added added' : List (Phase × Text)} {m u m' : Machine F}
    (h : Recorded added m u) (h' : Recorded added' u m') : Recorded (added ++ added') m m' where
  classes := h'.classes.trans h.classes
  phases := by rw [h'.phases, h.phases, List.append_assoc]

theorem Recorded.refl (m : Machine F) : Recorded [] m m := ⟨rfl, (List.append_nil _).symm⟩

instance : Std.Refl (Recorded (F := F) []) := ⟨Recorded.refl⟩

instance : IsTrans (Machine F) (Recorded []) := ⟨fun _ _ _ h h' => h.trans h'⟩

theorem recorded_ask : Keeps (Recorded []) (ask : Node F ℕ) :=
  fun _ => ⟨rfl, (List.append_nil _).symm⟩

theorem recorded_published (topic : Value F) (message : Message F) :
    Keeps (Recorded []) (record (.published topic message)) :=
  fun _ => ⟨rfl, phases_append _ _⟩

/-! ## A transition -/

section Transitions

variable [PythonFloat F] {world : World F}

/-- A set-up that returns has recorded itself, and no other one. -/
theorem recorded_setup {Class : Text} {m m' : Machine F}
    (h : setup world Class m = .ok () m') : Recorded [(.setup, Class)] m m' := by
  obtain ⟨⟨⟩, u, hrecord, hrest⟩ := bind_eq_ok_iff.mp h
  cases hrecord
  have hitself : Recorded [(.setup, Class)] m { m with log := m.log ++ [.setup Class] } :=
    ⟨rfl, phases_append _ _⟩
  exact hitself.trans ((keeps_dispatchSections recorded_ask recorded_published world _
    fun part => part.1 = "Setup".toList ∧ part.2 ≠ []).of_ok hrest)

theorem recorded_tearDown {Class : Text} {m m' : Machine F}
    (h : tearDown world Class m = .ok () m') : Recorded [(.tearDown, Class)] m m' := by
  obtain ⟨⟨⟩, u, hrecord, hrest⟩ := bind_eq_ok_iff.mp h
  cases hrecord
  have hitself : Recorded [(.tearDown, Class)] m { m with log := m.log ++ [.tearDown Class] } :=
    ⟨rfl, phases_append _ _⟩
  exact hitself.trans ((keeps_dispatchSections recorded_ask recorded_published world _
    fun part => part.1 = "TearDown".toList).of_ok hrest)

theorem recorded_addTriggers (Class : Text) : Keeps (Recorded []) (addTriggers world Class) := by
  have hloop : ∀ (ts : List (Trigger F)) (m : Machine F),
      Recorded [] m (ts.foldl Machine.appendTrigger m) := by
    intro ts
    induction ts with
    | nil => exact Recorded.refl
    | cons t ts ih =>
      intro m
      have hfirst : Recorded [] m (m.appendTrigger t) := ⟨rfl, (List.append_nil _).symm⟩
      exact hfirst.trans (ih _)
  intro m
  rw [final_addTriggers]
  exact hloop _ m

theorem recorded_addTimers (Class : Text) : Keeps (Recorded []) (addTimers world Class) := by
  intro m
  rw [final_addTimers]
  obtain ⟨hclasses, -, -, -, hlog⟩ := foldl_appendTimer world Class
    (readTimers world.files Class).1 { m with log := m.log ++ [.addTimers Class] }
  refine ⟨hclasses, ?_⟩
  have htimers : ∀ ts : List (Timer F), phases (ts.map .timer) = [] := fun ts => by
    rw [phases, List.filterMap_map]
    exact List.filterMap_eq_nil_iff.mpr fun _ _ => rfl
  rw [hlog, phases_append, phases_append, htimers, List.append_nil]
  rfl

theorem recorded_add {Class : Text} {m m' : Machine F} (h : add world Class m = .ok () m') :
    Recorded [(.setup, Class)] m m' := by
  obtain ⟨⟨⟩, u, hsetup, hrest⟩ := bind_eq_ok_iff.mp h
  obtain ⟨⟨⟩, v, htriggers, htimers⟩ := bind_eq_ok_iff.mp hrest
  have htriggers := (recorded_addTriggers Class).of_ok htriggers
  have htimers := (recorded_addTimers Class).of_ok htimers
  exact (recorded_setup hsetup).trans (htriggers.trans htimers)

theorem recorded_remove {Class : Text} {m m' : Machine F} (h : remove world Class m = .ok () m') :
    Recorded [(.tearDown, Class)] m m' := by
  obtain ⟨⟨⟩, u, htearDown, hrest⟩ := bind_eq_ok_iff.mp h
  -- Triggers and timers are taken away without a record.
  cases hrest
  exact (recorded_tearDown htearDown).trans ⟨rfl, (List.append_nil _).symm⟩

omit [PythonFloat F] in
/-- A loop over classes records each of them in turn. -/
theorem recorded_loop {f : Text → Node F Unit} {phase : Phase}
    (hf : ∀ {c : Text} {u v : Machine F}, f c u = .ok () v → Recorded [(phase, c)] u v)
    {classes : List Text} {m m' : Machine F} (h : forM classes f m = .ok () m') :
    Recorded (classes.map (phase, ·)) m m' := by
  refine forM_ok (I := fun done u => Recorded (done.map (phase, ·)) m u) (Recorded.refl m) ?_ h
  intro done c u v _ hdone hround
  rw [List.map_append]
  exact hdone.trans (hf hround)

/-- What a transition that returns has done: some classes have been torn down, then others set
up. -/
structure Cycled (files : Files) (name : Text) (leaving entering : List Text) (m m' : Machine F) :
    Prop where
  classes : m'.currentClasses = getAllClasses files name
  nodup_leaving : leaving.Nodup
  mem_leaving : ∀ c, c ∈ leaving ↔ c ∈ m.currentClasses ∧ c ∉ getAllClasses files name
  nodup_entering : entering.Nodup
  mem_entering : ∀ c, c ∈ entering ↔ c ∈ getAllClasses files name ∧ c ∉ m.currentClasses
  phases : phases m'.log =
    phases m.log ++ leaving.map (.tearDown, ·) ++ entering.map (.setup, ·)

theorem cycled_of_ok {name : Text} {m m' : Machine F}
    (h : changeState world (.str name) m = .ok () m') :
    ∃ leaving entering, Cycled world.files name leaving entering m m' := by
  rw [changeState_str] at h
  split at h
  · cases h
  · rename_i u hleave
    split at h
    · cases h
    · rename_i v hadd
      cases h
      have hleft := recorded_loop recorded_remove hleave
      have hentered := recorded_loop recorded_add hadd
      have hclasses : u.currentClasses = m.currentClasses := hleft.classes
      refine ⟨leaving world name m, entering world name u, rfl, ?_, fun c => mem_leaving,
        nodup_entering name u, fun c => ?_, ?_⟩
      · exact (world.order_perm _ _).nodup_iff.mpr (ClassSet.nodup_difference _ _)
      · rw [← hclasses]
        exact mem_entering
      · have hbegun : phases (m.begun name).log = phases m.log :=
          (phases_append _ _).trans (List.append_nil _)
        exact hentered.phases.trans (congrArg (· ++ _) (hleft.phases.trans (by rw [hbegun])))

end Transitions

/-! ## One class -/

/-- Set-up and tear-down in turn, set-up first. -/
def Alternates (history : List Phase) : Prop := List.IsChain (· ≠ ·) (.tearDown :: history)

theorem Alternates.tearDown {history : List Phase} (h : Alternates history)
    (hlast : history.getLast? = some .setup) : Alternates (history ++ [.tearDown]) := by
  refine List.IsChain.append h (List.isChain_singleton _) ?_
  rintro x hx y ⟨⟩
  rw [List.getLast?_cons, hlast] at hx
  cases hx
  decide

theorem Alternates.setup {history : List Phase} (h : Alternates history)
    (hlast : history.getLast? ≠ some .setup) : Alternates (history ++ [.setup]) := by
  refine List.IsChain.append h (List.isChain_singleton _) ?_
  rintro x hx y ⟨⟩
  rw [List.getLast?_cons] at hx
  cases hhistory : history.getLast? with
  | none =>
    rw [hhistory] at hx
    cases hx
    decide
  | some z =>
    rw [hhistory] at hx
    cases hx
    exact fun hz => hlast (hhistory.trans (congrArg some hz))

/-- A class is set up and torn down in turn, and has been set up last exactly when it is a current
class. -/
structure InTurn (m : Machine F) (Class : Text) : Prop where
  alternates : Alternates (phasesOf Class m.log)
  current : Class ∈ m.currentClasses ↔ (phasesOf Class m.log).getLast? = some .setup

/-- A list of different classes, all in the same phase, as the history of one of them. -/
theorem map_filter_of_nodup {classes : List Text} (h : classes.Nodup) (phase : Phase)
    (Class : Text) :
    ((classes.map (phase, ·)).filter (·.2 = Class)).map Prod.fst =
      if Class ∈ classes then [phase] else [] := by
  have hself : classes.filter (· = Class) = if Class ∈ classes then [Class] else [] := by
    rw [List.filter_eq]
    split_ifs with hmem
    · rw [List.count_eq_one_of_mem h hmem, List.replicate_one]
    · rw [List.count_eq_zero_of_not_mem hmem, List.replicate_zero]
  have hfilter : (classes.map (phase, ·)).filter (·.2 = Class) =
      (classes.filter (· = Class)).map (phase, ·) := List.filter_map
  rw [hfilter, hself]
  split_ifs
  · rfl
  · rfl

/-- What a transition adds to the history of a class. -/
theorem Cycled.phasesOf {files : Files} {name : Text} {leaving entering : List Text}
    {m m' : Machine F} (h : Cycled files name leaving entering m m') (Class : Text) :
    phasesOf Class m'.log = phasesOf Class m.log ++
      (if Class ∈ leaving then [.tearDown] else []) ++
        if Class ∈ entering then [.setup] else [] := by
  unfold StateMachine.phasesOf
  rw [h.phases, List.filter_append, List.filter_append, List.map_append, List.map_append,
    map_filter_of_nodup h.nodup_leaving, map_filter_of_nodup h.nodup_entering]

/-- A transition that returns keeps every class in turn. -/
theorem InTurn.of_cycled {files : Files} {name : Text} {leaving entering : List Text}
    {m m' : Machine F} (h : Cycled files name leaving entering m m') {Class : Text}
    (hturn : InTurn m Class) : InTurn m' Class := by
  have hphases := h.phasesOf Class
  by_cases hcurrent : Class ∈ m.currentClasses <;>
    by_cases hnew : Class ∈ getAllClasses files name
  · -- A class that is kept has neither.
    rw [if_neg (fun hmem => ((h.mem_leaving Class).mp hmem).2 hnew),
      if_neg (fun hmem => ((h.mem_entering Class).mp hmem).2 hcurrent), List.append_nil,
      List.append_nil] at hphases
    constructor
    · rw [hphases]
      exact hturn.alternates
    · rw [hphases, h.classes]
      exact iff_of_true hnew (hturn.current.mp hcurrent)
  · rw [if_pos ((h.mem_leaving Class).mpr ⟨hcurrent, hnew⟩),
      if_neg (fun hmem => hnew ((h.mem_entering Class).mp hmem).1), List.append_nil] at hphases
    constructor
    · rw [hphases]
      exact hturn.alternates.tearDown (hturn.current.mp hcurrent)
    · rw [hphases, h.classes, List.getLast?_concat]
      exact iff_of_false hnew (by decide)
  · rw [if_neg (fun hmem => hcurrent ((h.mem_leaving Class).mp hmem).1),
      if_pos ((h.mem_entering Class).mpr ⟨hnew, hcurrent⟩), List.append_nil] at hphases
    constructor
    · rw [hphases]
      exact hturn.alternates.setup (fun hlast => hcurrent (hturn.current.mpr hlast))
    · rw [hphases, h.classes, List.getLast?_concat]
      exact iff_of_true hnew rfl
  · rw [if_neg (fun hmem => hcurrent ((h.mem_leaving Class).mp hmem).1),
      if_neg (fun hmem => hnew ((h.mem_entering Class).mp hmem).1), List.append_nil,
      List.append_nil] at hphases
    constructor
    · rw [hphases]
      exact hturn.alternates
    · rw [hphases, h.classes]
      exact iff_of_false hnew fun hlast => hcurrent (hturn.current.mpr hlast)

/-! ## Calls -/

section Calls

variable [PythonFloat F]

/-- The node after some calls of `ChangeState`. -/
def changeStates (world : World F) (targets : List (Value F)) (m : Machine F) : Machine F :=
  targets.foldl (fun m target => final (changeState world target m)) m

/-- No section of a class file raises when it is read: `Setup` and `TearDown` say messages that can
be published, and the lines of triggers and timers are well formed. -/
structure SectionsParse (world : World F) : Prop where
  setup : ∀ Class m, ∃ u, setup world Class m = .ok () u
  tearDown : ∀ Class m, ∃ u, tearDown world Class m = .ok () u
  addTriggers : ∀ Class m, ∃ u, addTriggers world Class m = .ok () u
  addTimers : ∀ Class m, ∃ u, addTimers world Class m = .ok () u

/-- The words behind `message` make a message, or are of a kind that is not sent. -/
def FieldsParse (fields : List (Value F)) : Prop :=
  ∃ kind, fieldAt fields 1 = .ok kind ∧ (messageKinds.any kind.isText = true →
    ∃ topic message, fieldAt fields 0 = .ok topic ∧ makeMessage kind fields = .ok message)

/-- A line that `DispatchMessages` comes to is not blank, and a message can be made of it if it says
one. -/
def LineParses (F : Type) [PythonFloat F] (line : Text) : Prop :=
  ∃ action fields, words line = action :: fields ∧
    (action = "message".toList → FieldsParse (fields.map (.str : Text → Value F)))

/-- The lines of the sections of a file say messages, triggers and timers. -/
structure FileParses (F : Type) [PythonFloat F] (file : Text × Text) : Prop where
  messages : ∀ part ∈ sections file.2,
    part.1 = "Setup".toList ∧ part.2 ≠ [] ∨ part.1 = "TearDown".toList →
      ∀ line ∈ lines (strip part.2), LineParses F line
  triggers : ∀ line ∈ sectionLines "Triggers" file.2,
    ∃ t : Option (Trigger F), readTrigger file.1 line = .ok t
  timers : ∀ line ∈ sectionLines "Timers" file.2,
    ∃ t : Option (F × Effect), readTimer line = .ok t

/-- Publishers are found, and publishing returns. -/
structure World.Publishes (world : World F) : Prop where
  publisher : ∀ n topic, world.publisher n topic = true
  publish : ∀ n topic message, world.publish n topic message = true

variable {world : World F}

/-- Messages that can be made are sent. -/
theorem World.Publishes.sends (hpublishes : world.Publishes) {fields : List (Value F)}
    (hfields : FieldsParse fields) (m : Machine F) :
    ∃ u, sendMessage world fields m = .ok () u := by
  obtain ⟨kind, hkind, hmessage⟩ := hfields
  simp only [sendMessage, hkind, attempt, pure_bind]
  split_ifs with hsent
  · obtain ⟨topic, message, htopic, hmake⟩ := hmessage hsent
    simp only [htopic, hmake, pure_bind]
    have hpublisher : getPublisher world topic m = .ok () { m with asked := m.asked + 1 } := by
      rw [getPublisher, bind_apply, ask]
      dsimp only
      rw [if_pos (hpublishes.publisher _ _)]
      rfl
    have hpublish : ∀ v, StateMachine.publish world topic message v =
        .ok () { v with asked := v.asked + 1, log := v.log ++ [.published topic message] } := by
      intro v
      rw [StateMachine.publish, bind_apply, ask]
      dsimp only
      rw [if_pos (hpublishes.publish _ _ _)]
      rfl
    exact ⟨_, bind_eq_ok_iff.mpr ⟨(), _, hpublisher, hpublish _⟩⟩
  · exact ⟨m, rfl⟩

theorem World.Publishes.dispatches (hpublishes : world.Publishes) {data : Text}
    (hlines : ∀ line ∈ lines (strip data), LineParses F line) (m : Machine F) :
    ∃ u, dispatchMessages world data m = .ok () u := by
  refine forM_returns (fun line hline u => ?_) m
  obtain ⟨action, fields, hwords, hfields⟩ := hlines line hline
  simp only [hwords]
  split_ifs with haction
  · exact hpublishes.sends (hfields haction) u
  · exact ⟨u, rfl⟩

/-- What is read for a class is nothing, or its file. -/
theorem openClassFile_cases (files : Files) (Class : Text) :
    openClassFile files Class = [] ∨ (Class, openClassFile files Class) ∈ files := by
  unfold openClassFile
  cases hfile : files.lookup Class with
  | none => exact .inl rfl
  | some text =>
    obtain ⟨before, after, rfl, -⟩ := List.lookup_eq_some_iff.mp hfile
    exact .inr (by simp)

/-- Sections can be read when publishing returns and their lines say messages, triggers and
timers. -/
theorem sectionsParse_of_files (hpublishes : world.Publishes)
    (hfiles : ∀ file ∈ world.files, FileParses F file) : SectionsParse world := by
  have hclass : ∀ Class, FileParses F (Class, openClassFile world.files Class) := by
    intro Class
    rcases openClassFile_cases world.files Class with hnone | hmem
    · rw [hnone]
      exact ⟨nofun, nofun, nofun⟩
    · exact hfiles _ hmem
  -- The sections of one of the two kinds of messages.
  have hloop : ∀ (Class : Text) (p : Text × Text → Prop) [DecidablePred p],
      (∀ part, p part → part.1 = "Setup".toList ∧ part.2 ≠ [] ∨ part.1 = "TearDown".toList) →
      ∀ m, ∃ u, (forM (sections (openClassFile world.files Class)) fun part =>
        if p part then dispatchMessages world part.2 else pure () : Node F Unit) m = .ok () u := by
    intro Class p _ hp m
    refine forM_returns (fun part hpart u => ?_) m
    split_ifs with hkind
    · exact hpublishes.dispatches ((hclass Class).messages part hpart (hp part hkind)) u
    · exact ⟨u, rfl⟩
  constructor
  · intro Class m
    obtain ⟨u, hu⟩ := hloop Class (fun part => part.1 = "Setup".toList ∧ part.2 ≠ [])
      (fun _ => .inl) { m with log := m.log ++ [.setup Class] }
    exact ⟨u, hu⟩
  · intro Class m
    obtain ⟨u, hu⟩ := hloop Class (fun part => part.1 = "TearDown".toList)
      (fun _ => .inr) { m with log := m.log ++ [.tearDown Class] }
    exact ⟨u, hu⟩
  · intro Class m
    rw [addTriggers_apply]
    exact registered_returns (hclass Class).triggers _ m
  · intro Class m
    rw [addTimers_apply]
    exact registered_returns (hclass Class).timers _ _

variable (hparse : SectionsParse world)

include hparse

theorem SectionsParse.add (Class : Text) (m : Machine F) :
    ∃ u, StateMachine.add world Class m = .ok () u := by
  obtain ⟨u, hsetup⟩ := hparse.setup Class m
  obtain ⟨v, htriggers⟩ := hparse.addTriggers Class u
  obtain ⟨w, htimers⟩ := hparse.addTimers Class v
  exact ⟨w, bind_eq_ok_iff.mpr ⟨(), u, hsetup, bind_eq_ok_iff.mpr ⟨(), v, htriggers, htimers⟩⟩⟩

theorem SectionsParse.remove (Class : Text) (m : Machine F) :
    ∃ u, StateMachine.remove world Class m = .ok () u := by
  obtain ⟨u, htearDown⟩ := hparse.tearDown Class m
  exact ⟨_, bind_eq_ok_iff.mpr ⟨(), u, htearDown, rfl⟩⟩

/-- A transition to a named class returns. -/
theorem SectionsParse.changeState (name : Text) (m : Machine F) :
    ∃ m', StateMachine.changeState world (.str name) m = .ok () m' := by
  obtain ⟨u, hleave⟩ : ∃ u, forM (leaving world name m) (StateMachine.remove world)
      (m.begun name) = .ok () u := forM_returns (fun c _ => hparse.remove c) _
  obtain ⟨v, henter⟩ : ∃ v, forM (entering world name u) (StateMachine.add world) u.cleared =
      .ok () v := forM_returns (fun c _ => hparse.add c) _
  refine ⟨v.switched (getAllClasses world.files name), ?_⟩
  rw [changeState_str, hleave]
  dsimp only
  rw [henter]

/-- A call keeps every class in turn; one with a target that is not a string changes nothing. -/
theorem SectionsParse.inTurn {m : Machine F} (hturn : ∀ Class, InTurn m Class)
    (target : Value F) (Class : Text) :
    InTurn (final (StateMachine.changeState world target m)) Class := by
  cases target with
  | str name =>
    obtain ⟨m', hchange⟩ := hparse.changeState name m
    obtain ⟨leaving, entering, hcycled⟩ := cycled_of_ok hchange
    rw [final_of_ok hchange]
    exact (hturn Class).of_cycled hcycled
  | int | float | img => exact hturn Class

theorem SectionsParse.inTurn_changeStates (targets : List (Value F)) (Class : Text) :
    InTurn (changeStates world targets .initial) Class := by
  induction targets using List.reverseRecOn generalizing Class with
  | nil =>
    have hlast : (phasesOf Class (Machine.initial : Machine F).log).getLast? ≠ some .setup := nofun
    exact ⟨List.isChain_singleton _, iff_of_false List.not_mem_nil hlast⟩
  | append_singleton targets target ih =>
    rw [changeStates, List.foldl_append]
    exact hparse.inTurn ih target Class

/-- What a call adds to the record: tear-downs and then set-ups, of no class that is kept. -/
theorem SectionsParse.cycles (target : Value F) (m : Machine F) :
    let m' := final (StateMachine.changeState world target m)
    ∃ leaving entering : List Text, phases m'.log =
        phases m.log ++ leaving.map (.tearDown, ·) ++ entering.map (.setup, ·) ∧
      ∀ Class, Class ∈ m.currentClasses → Class ∈ m'.currentClasses →
        Class ∉ leaving ∧ Class ∉ entering := by
  cases target with
  | str name =>
    obtain ⟨m', hchange⟩ := hparse.changeState name m
    obtain ⟨leaving, entering, hcycled⟩ := cycled_of_ok hchange
    rw [final_of_ok hchange]
    refine ⟨leaving, entering, hcycled.phases, fun Class hcurrent hkept => ⟨?_, ?_⟩⟩
    · rw [hcycled.classes] at hkept
      exact fun hmem => ((hcycled.mem_leaving Class).mp hmem).2 hkept
    · exact fun hmem => ((hcycled.mem_entering Class).mp hmem).2 hcurrent
  | int | float | img =>
    have hsame : phases m.log = phases m.log ++ [] ++ [] := by simp
    exact ⟨[], [], hsame, fun _ _ _ => ⟨List.not_mem_nil, List.not_mem_nil⟩⟩

/-- After any calls of `ChangeState`, every class has been set up and torn down in turn, and last
set up exactly when it is a current class; and the next call tears down classes and then sets up
others, but none that is kept. -/
theorem setup_tearDown_alternate (targets : List (Value F)) (target : Value F) :
    let m := changeStates world targets .initial
    let m' := final (StateMachine.changeState world target m)
    (∀ Class, Alternates (phasesOf Class m.log) ∧
      (Class ∈ m.currentClasses ↔ (phasesOf Class m.log).getLast? = some .setup)) ∧
    ∃ leaving entering : List Text, phases m'.log =
        phases m.log ++ leaving.map (.tearDown, ·) ++ entering.map (.setup, ·) ∧
      ∀ Class, Class ∈ m.currentClasses → Class ∈ m'.currentClasses →
        Class ∉ leaving ∧ Class ∉ entering :=
  ⟨fun Class => ⟨(hparse.inTurn_changeStates targets Class).alternates,
    (hparse.inTurn_changeStates targets Class).current⟩, hparse.cycles target _⟩

end Calls

/-- A class that says hello, and inherits one without a file. -/
def greeting : Files :=
  [("A".toList, "\n<Inherits>\nB\n<Setup>\nmessage /a string hello".toList)]

theorem greeting_parses : SectionsParse (World.reliable greeting) := by
  have hsections : sections "\n<Inherits>\nB\n<Setup>\nmessage /a string hello".toList =
      [("Inherits".toList, "\nB".toList),
        ("Setup".toList, "\nmessage /a string hello".toList)] := by
    decide
  have hline : LineParses ℚ "message /a string hello".toList :=
    ⟨"message".toList, ["/a".toList, "string".toList, "hello".toList], by decide, fun _ =>
      ⟨.str "string".toList, rfl, fun _ => ⟨.str "/a".toList, .string "hello".toList, rfl, rfl⟩⟩⟩
  refine sectionsParse_of_files ⟨fun _ _ => rfl, fun _ _ _ => rfl⟩ fun file hfile => ?_
  obtain rfl := List.mem_singleton.mp hfile
  refine ⟨fun part hpart hkind => ?_, ?_, ?_⟩
  · rw [hsections] at hpart
    rcases List.mem_pair.mp hpart with rfl | rfl
    · exact absurd hkind (by decide)
    · have hlines : lines (strip "\nmessage /a string hello".toList) =
          ["message /a string hello".toList] := by decide
      rw [hlines]
      exact List.forall_mem_singleton.mpr hline
  · intro line hline
    rw [sectionLines, hsections] at hline
    cases hline
  · intro line hline
    rw [sectionLines, hsections] at hline
    cases hline

/-- After two calls for the class and one for the other. -/
theorem greeting_alternates :
    let m := changeStates (World.reliable greeting) [.str "A".toList, .str "A".toList] .initial
    let m' := final (changeState (World.reliable greeting) (.str "B".toList) m)
    (∀ Class, Alternates (phasesOf Class m.log) ∧
      (Class ∈ m.currentClasses ↔ (phasesOf Class m.log).getLast? = some .setup)) ∧
    ∃ leaving entering : List Text, phases m'.log =
        phases m.log ++ leaving.map (.tearDown, ·) ++ entering.map (.setup, ·) ∧
      ∀ Class, Class ∈ m.currentClasses → Class ∈ m'.currentClasses →
        Class ∉ leaving ∧ Class ∉ entering :=
  setup_tearDown_alternate greeting_parses [.str "A".toList, .str "A".toList] (.str "B".toList)

end Guillemot.StateMachine
