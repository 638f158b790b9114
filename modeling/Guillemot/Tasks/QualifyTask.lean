import Guillemot.Library.Steps
import Mathlib.Data.List.Basic
import Mathlib.Data.Rat.Defs

/-!
# The qualification

`QualifyTask.py`. A message that enables the task starts a thread, which dives and then drives. All
threads look at the same flag `isEnabled`, so that one which is asleep while the task is disabled
and enabled again goes on beside the new one. `stopped_run_silent` says that what was stopped stays
silent as long as no message comes at one of two times: one that disables the task while a thread is
between its look at the flag and what it publishes, or one that starts a run while a stopped one
still has something to publish. `disallowed_publishes` says that nothing less will do.

The threads take turns at each statement, in any order, and a callback is one step. The time that is
left to sleep is counted in slices of `FANCY_SLEEP_SLICE`.
-/

namespace Guillemot.Tasks.QualifyTask

/-! ## The task -/

/-- What the task publishes: on `Target_Depth`, and on `Motor_Control`. -/
inductive Published where
  | targetDepth (data : ℚ)
  | motorControl (mask Left Right : ℤ)
deriving DecidableEq, Repr

/-- `TARGET_DEPTH`. -/
def TARGET_DEPTH : ℚ := 2

/-- `SPEED_LEFT`. -/
def SPEED_LEFT : ℤ := 150

/-- `SPEED_RIGHT`. -/
def SPEED_RIGHT : ℤ := 200

/-- The three times that `diveAndDrive` calls `fancySleep`. -/
inductive Stage where
  | delay
  | dive
  | forward
deriving DecidableEq, Repr

/-- `TIME_DELAY`, `TIME_DIVE` and `TIME_FORWARD`, in slices of half a second. -/
def Stage.slices : Stage → ℕ
  | delay => 2 * 0
  | dive => 2 * 4
  | forward => 2 * 100

/-- Where a thread is in `diveAndDrive`. -/
inductive Place where
  /-- In front of the condition of the loop in `fancySleep`. -/
  | loop (stage : Stage) (timeLeft : ℕ)
  /-- In `sleep`. -/
  | asleep (stage : Stage) (timeLeft : ℕ)
  /-- In front of `if self.isEnabled`. -/
  | check (stage : Stage)
  /-- `fancySleep` has returned `False`. -/
  | passed (stage : Stage)
  /-- In front of `self.reset()` in `fancySleep`. -/
  | cancelled
  | done
deriving DecidableEq, Repr

/-- One step of a thread: the flag, where the thread is then, and what it publishes. -/
def Place.step (isEnabled : Bool) : Place → Option (Bool × Place × Option Published)
  | loop stage timeLeft =>
    if isEnabled ∧ timeLeft ≠ 0 then some (isEnabled, asleep stage (timeLeft - 1), none)
    else some (isEnabled, check stage, none)
  | asleep stage timeLeft => some (isEnabled, loop stage timeLeft, none)
  | check stage => some (isEnabled, if isEnabled then passed stage else cancelled, none)
  | passed .delay =>
    some (isEnabled, loop .dive Stage.dive.slices, some (.targetDepth TARGET_DEPTH))
  | passed .dive =>
    some (isEnabled, loop .forward Stage.forward.slices,
      some (.motorControl 3 SPEED_LEFT SPEED_RIGHT))
  | passed .forward => some (false, done, none)
  | cancelled => some (false, done, none)
  | done => none

/-- A message on `Module_Enable`. -/
structure ModuleEnableMsg where
  Module : String
  State : Bool
deriving DecidableEq, Repr

/-- `QualifyTask`: the flag, and the threads in the order of their start. -/
structure Node where
  isEnabled : Bool
  runs : List Place
deriving DecidableEq, Repr

/-- `moduleEnableCallback`. -/
def Node.moduleEnableCallback (n : Node) (msg : ModuleEnableMsg) : Node :=
  if msg.Module = "QualifyTask" then
    if msg.State = true ∧ n.isEnabled = false then
      ⟨true, n.runs ++ [.loop .delay Stage.delay.slices]⟩
    else if msg.State = false ∧ n.isEnabled = true then { n with isEnabled := false }
    else n
  else n

/-- One step of the thread `i`, with what it publishes. -/
def Node.threadStep (n : Node) (i : ℕ) : Option (Node × Option Published) :=
  n.runs[i]?.bind fun place =>
    (place.step n.isEnabled).map fun r => (⟨r.1, n.runs.set i r.2.1⟩, r.2.2)

/-- What the thread `i` publishes if it is its turn. -/
def Node.published (n : Node) (i : ℕ) : Option Published := (n.threadStep i).bind (·.2)

/-! ## Its runs -/

/-- What happens: a callback, or a step of a thread. -/
inductive Event where
  | moduleEnable (msg : ModuleEnableMsg)
  | thread (i : ℕ)
deriving DecidableEq, Repr

/-- The message that disables the task. -/
def disable : ModuleEnableMsg := ⟨"QualifyTask", false⟩

/-- The message that enables it. -/
def enable : ModuleEnableMsg := ⟨"QualifyTask", true⟩

/-- The task, and how many of its runs had been started when it was disabled for the last time. -/
structure Watched where
  node : Node
  stopped : ℕ
deriving DecidableEq, Repr

/-- The start. -/
def init : Watched := ⟨⟨false, []⟩, 0⟩

def step (w : Watched) : Event → Option Watched
  | .moduleEnable msg =>
    some ⟨w.node.moduleEnableCallback msg, if msg = disable then w.node.runs.length else w.stopped⟩
  | .thread i => (w.node.threadStep i).map fun r => ⟨r.1, w.stopped⟩

/-- A thread is between its look at the flag and what it publishes. -/
def Place.publishing : Place → Bool
  | passed .delay | passed .dive => true
  | _ => false

/-- A thread has nothing more to publish. -/
def Place.quiet : Place → Bool
  | loop .forward _ | asleep .forward _ | check .forward | passed .forward => true
  | cancelled | done => true
  | _ => false

/-- The times at which messages may come: for one that disables the task, when no thread is about to
publish, and for one that starts a run, when no stopped run has anything more to publish. -/
def Allowed (w : Watched) : Event → Prop
  | .moduleEnable msg =>
    (msg = disable → ∀ place ∈ w.node.runs, place.publishing = false) ∧
      (msg = enable → w.node.isEnabled = false →
        ∀ place ∈ w.node.runs.take w.stopped, place.quiet = true)
  | .thread _ => True

instance (w : Watched) : (e : Event) → Decidable (Allowed w e)
  | .moduleEnable _ => inferInstanceAs (Decidable (_ ∧ _))
  | .thread _ => .isTrue trivial

/-! ## Steps -/

variable {w w' : Watched} {place place' : Place} {isEnabled isEnabled' : Bool}
  {out : Option Published}

theorem Place.publishing_of_quiet (h : place.quiet = true) : place.publishing = false := by
  cases place with
  | passed stage =>
    cases stage with
    | delay => cases h
    | dive => cases h
    | forward => rfl
  | _ => rfl

/-- What one step of a thread can do: it does not set the flag, it has nothing to publish where it
had nothing before, it gets to a place in front of a publication with the flag set only, and it
publishes from there only. -/
theorem Place.step_spec (h : place.step isEnabled = some (isEnabled', place', out)) :
    (isEnabled' = true → isEnabled = true) ∧ (place.quiet = true → place'.quiet = true) ∧
      (place'.publishing = true → isEnabled = true) ∧ (out ≠ none → place.publishing = true) := by
  cases place with
  | loop stage timeLeft =>
    rw [step] at h
    split_ifs at h with htime
    · cases h
      exact ⟨id, by cases stage <;> exact id, nofun, nofun⟩
    · cases h
      exact ⟨id, by cases stage <;> exact id, nofun, nofun⟩
  | asleep stage timeLeft =>
    cases h
    exact ⟨id, by cases stage <;> exact id, nofun, nofun⟩
  | check stage =>
    cases h
    cases isEnabled with
    | false => exact ⟨id, fun _ => rfl, nofun, nofun⟩
    | true => exact ⟨id, by cases stage <;> exact id, fun _ => rfl, nofun⟩
  | passed stage =>
    cases stage with
    | delay =>
      cases h
      exact ⟨id, nofun, nofun, fun _ => rfl⟩
    | dive =>
      cases h
      exact ⟨id, nofun, nofun, fun _ => rfl⟩
    | forward =>
      cases h
      exact ⟨nofun, fun _ => rfl, nofun, fun hout => absurd rfl hout⟩
  | cancelled =>
    cases h
    exact ⟨nofun, fun _ => rfl, nofun, fun hout => absurd rfl hout⟩
  | done => cases h

/-- What a step of a thread does to the threads. -/
theorem threadStep_spec {n n' : Node} {i : ℕ} (h : n.threadStep i = some (n', out)) :
    ∃ place place', n.runs[i]? = some place ∧
      place.step n.isEnabled = some (n'.isEnabled, place', out) ∧
      n'.runs = n.runs.set i place' := by
  obtain ⟨place, hplace, hmap⟩ := Option.bind_eq_some_iff.mp h
  obtain ⟨r, hr, heq⟩ := Option.map_eq_some_iff.mp hmap
  cases heq
  exact ⟨place, r.2.1, hplace, hr, rfl⟩

/-- A thread that publishes is in front of a publication. -/
theorem publishing_of_published {n : Node} {i : ℕ} (h : n.published i ≠ none) :
    ∃ place, n.runs[i]? = some place ∧ place.publishing = true := by
  obtain ⟨message, hmessage⟩ := Option.ne_none_iff_exists'.mp h
  obtain ⟨⟨n', out⟩, hstep, hout⟩ := Option.bind_eq_some_iff.mp hmessage
  obtain ⟨place, place', hplace, hr, -⟩ := threadStep_spec hstep
  have hsome : out ≠ none := Option.ne_none_iff_exists'.mpr ⟨message, hout⟩
  exact ⟨place, hplace, (Place.step_spec hr).2.2.2 hsome⟩

/-- The callback of a message that disables the task. -/
theorem callback_disable (n : Node) :
    n.moduleEnableCallback disable = { n with isEnabled := false } := by
  obtain ⟨isEnabled, runs⟩ := n
  cases isEnabled <;> rfl

/-- That of a message that enables it, with the flag cleared. -/
theorem callback_enable {n : Node} (h : n.isEnabled = false) :
    n.moduleEnableCallback enable = ⟨true, n.runs ++ [.loop .delay Stage.delay.slices]⟩ := by
  obtain ⟨isEnabled, runs⟩ := n
  cases h
  rfl

/-- That of another message starts a run, or does nothing. -/
theorem callback_spec (n : Node) {msg : ModuleEnableMsg} (h : msg ≠ disable) :
    n.moduleEnableCallback msg = n ∨
      msg = enable ∧ n.isEnabled = false := by
  obtain ⟨Module, State⟩ := msg
  unfold Node.moduleEnableCallback
  dsimp only
  split_ifs with hmodule henable hdisable
  · obtain ⟨rfl, hflag⟩ := henable
    subst hmodule
    exact .inr ⟨rfl, hflag⟩
  · obtain ⟨rfl, -⟩ := hdisable
    subst hmodule
    exact absurd rfl h
  · exact .inl rfl
  · exact .inl rfl

/-! ## Stopped runs -/

/-- A stopped run has nothing more to publish, or the flag is still cleared and the run is not past
its look at it. -/
structure Cancelled (w : Watched) : Prop where
  le : w.stopped ≤ w.node.runs.length
  silent : ∀ i place, i < w.stopped → w.node.runs[i]? = some place →
    place.quiet = true ∨ w.node.isEnabled = false ∧ place.publishing = false

/-- A step of a thread keeps this. -/
theorem Cancelled.thread (h : Cancelled w) {i : ℕ} {n' : Node}
    (hstep : w.node.threadStep i = some (n', out)) : Cancelled ⟨n', w.stopped⟩ := by
  obtain ⟨place, place', hplace, hplace', hruns⟩ := threadStep_spec hstep
  obtain ⟨hflag, hquiet, hpublishing, -⟩ := Place.step_spec hplace'
  refine ⟨by rw [hruns, List.length_set]; exact h.le, fun j other hj hother => ?_⟩
  dsimp only at hother ⊢
  rw [hruns, List.getElem?_set] at hother
  -- The flag stays cleared.
  have hcleared (hfalse : w.node.isEnabled = false) : n'.isEnabled = false := by
    rw [← Bool.not_eq_true] at hfalse ⊢
    exact fun htrue => hfalse (hflag htrue)
  split_ifs at hother with hij hlt
  · subst hij
    obtain rfl := Option.some.inj hother
    rcases h.silent i place hj hplace with hdone | ⟨hfalse, -⟩
    · exact .inl (hquiet hdone)
    · refine .inr ⟨hcleared hfalse, ?_⟩
      rw [← Bool.not_eq_true] at hfalse ⊢
      exact fun htrue => hfalse (hpublishing htrue)
  · rcases h.silent j other hj hother with hdone | ⟨hfalse, hbefore⟩
    · exact .inl hdone
    · exact .inr ⟨hcleared hfalse, hbefore⟩

/-- So does a message that disables the task while no thread is about to publish. All runs are
stopped then. -/
theorem Cancelled.disable (h : Allowed w (.moduleEnable disable)) :
    Cancelled ⟨w.node.moduleEnableCallback disable, w.node.runs.length⟩ := by
  rw [callback_disable]
  refine ⟨le_refl _, fun i place _ hplace => .inr ⟨rfl, ?_⟩⟩
  exact h.1 rfl place (List.mem_of_getElem? hplace)

/-- So does a message that starts a run while the stopped ones are quiet. -/
theorem Cancelled.enable (h : Cancelled w)
    (hquiet : ∀ place ∈ w.node.runs.take w.stopped, place.quiet = true) (started : Place) :
    Cancelled ⟨⟨true, w.node.runs ++ [started]⟩, w.stopped⟩ := by
  have hle := h.le
  constructor
  · dsimp only
    rw [List.length_append]
    omega
  · intro i place hi hplace
    dsimp only at hi hplace
    rw [List.getElem?_append_left (by omega), ← List.getElem?_take_of_lt hi] at hplace
    exact .inl (hquiet place (List.mem_of_getElem? hplace))

/-- Every allowed step keeps what is stopped as it is. -/
theorem cancelled_step {e : Event} (h : Cancelled w) (hallowed : Allowed w e)
    (hstep : step w e = some w') : Cancelled w' ∧ w.stopped ≤ w'.stopped := by
  cases e with
  | thread i =>
    obtain ⟨⟨n', out⟩, hthread, rfl⟩ := Option.map_eq_some_iff.mp hstep
    exact ⟨h.thread hthread, le_refl _⟩
  | moduleEnable msg =>
    obtain rfl := Option.some.inj hstep
    by_cases hdisable : msg = disable
    · subst hdisable
      rw [if_pos rfl]
      exact ⟨.disable hallowed, h.le⟩
    · rw [if_neg hdisable]
      refine ⟨?_, le_refl _⟩
      rcases callback_spec w.node hdisable with hsame | ⟨rfl, hflag⟩
      · rw [hsame]
        exact h
      · rw [callback_enable hflag]
        exact h.enable (hallowed.2 rfl hflag) _

theorem cancelled_init : Cancelled init := ⟨le_refl 0, fun _ _ hi => absurd hi (Nat.not_lt_zero _)⟩

/-- No stopped run publishes anything. -/
theorem Cancelled.published (h : Cancelled w) {i : ℕ} (hi : i < w.stopped) :
    w.node.published i = none := by
  by_contra hpublished
  obtain ⟨place, hplace, hpublishing⟩ := publishing_of_published hpublished
  rcases h.silent i place hi hplace with hquiet | ⟨-, hnot⟩
  · rw [Place.publishing_of_quiet hquiet] at hpublishing
    cases hpublishing
  · rw [hnot] at hpublishing
    cases hpublishing

/-- What is stopped stays as it is in a run whose messages all come at allowed times. -/
theorem cancelled_of_moves {v : Watched} {n : ℕ}
    (h : Relation.ReflTransGen (Steps.Moves step Allowed) v w) (hv : Cancelled v)
    (hn : n ≤ v.stopped) : Cancelled w ∧ n ≤ w.stopped := by
  refine Steps.invariant_of_moves (I := fun w => Cancelled w ∧ n ≤ w.stopped) ?_ ⟨hv, hn⟩ h
  intro a e b ha hallowed hstep
  exact (cancelled_step ha.1 hallowed hstep).imp_right ha.2.trans

/-- In a run whose messages all come at allowed times, what was started before the task was disabled
publishes nothing from then on. -/
theorem stopped_run_silent (before after : List Event) (v w : Watched)
    (hbefore : Steps.run step Allowed before init = some v)
    (hafter : Steps.run step Allowed (before ++ .moduleEnable disable :: after) init = some w)
    (i : ℕ) (hi : i < v.node.runs.length) : w.node.published i = none := by
  rw [Steps.run_append, hbefore, Option.bind_some, Steps.run] at hafter
  split_ifs at hafter with hallowed
  obtain ⟨u, hu, hrest⟩ := Option.bind_eq_some_iff.mp hafter
  obtain rfl := Option.some.inj hu
  rw [if_pos rfl] at hrest
  obtain ⟨hcancelled, hstopped⟩ :=
    cancelled_of_moves (Steps.moves_of_run hrest) (.disable hallowed) (le_refl _)
  exact hcancelled.published (lt_of_lt_of_le hi hstopped)

/-- A run that is stopped while it is asleep, in the dive, and another one started when it is over:
the first one is silent. -/
theorem stopped_asleep : ((Steps.run step Allowed
    ([.moduleEnable enable, .thread 0, .thread 0, .thread 0, .thread 0] ++
      .moduleEnable disable :: [.thread 0, .thread 0, .thread 0, .moduleEnable enable]) init).get
        (by decide)).node.published 0 = none :=
  stopped_run_silent [.moduleEnable enable, .thread 0, .thread 0, .thread 0, .thread 0]
    [.thread 0, .thread 0, .thread 0, .moduleEnable enable]
    ((Steps.run step Allowed
      [.moduleEnable enable, .thread 0, .thread 0, .thread 0, .thread 0] init).get (by decide)) _
    (Option.some_get _).symm (Option.some_get _).symm 0 (by decide)

/-- Disabled and enabled again at once, the first run goes on and dives. -/
theorem enabled_again_dives : ¬(∀ (before after : List Event) (v w : Watched),
    Steps.run step (fun _ _ => True) before init = some v →
    Steps.run step (fun _ _ => True) (before ++ .moduleEnable disable :: after) init = some w →
    ∀ i < v.node.runs.length, w.node.published i = none) := by
  intro h
  have hsilent := h [.moduleEnable enable] [.moduleEnable enable, .thread 0, .thread 0] _ _
    (Option.some_get (by decide)).symm (Option.some_get (by decide)).symm 0 (by decide)
  exact absurd hsilent (by decide)

/-! ## The times of the messages -/

/-- How many steps a thread has to go to its next publication. -/
def Place.rank : Place → ℕ
  | check _ => 1
  | loop _ timeLeft => 2 * timeLeft + 2
  | asleep _ timeLeft => 2 * timeLeft + 3
  | _ => 0

/-- With the flag set, a thread that has something left to publish gets closer to it. -/
theorem Place.step_true (hquiet : place.quiet = false) (hbefore : place.publishing = false) :
    ∃ place', place.step true = some (true, place', none) ∧ place'.quiet = false ∧
      place'.rank < place.rank := by
  cases place with
  | loop stage timeLeft =>
    have hstage : stage ≠ .forward := by
      rintro rfl
      cases hquiet
    cases timeLeft with
    | zero =>
      refine ⟨check stage, rfl, ?_, Nat.one_lt_two⟩
      cases stage <;> first | rfl | exact absurd rfl hstage
    | succ timeLeft =>
      refine ⟨asleep stage timeLeft, by simp [step], ?_, by simp only [rank]; omega⟩
      cases stage <;> first | rfl | exact absurd rfl hstage
  | asleep stage timeLeft =>
    exact ⟨loop stage timeLeft, rfl, by cases stage <;> exact hquiet, Nat.lt_succ_self _⟩
  | check stage =>
    exact ⟨passed stage, rfl, by cases stage <;> exact hquiet, Nat.one_pos⟩
  | passed stage =>
    cases stage with
    | delay => cases hbefore
    | dive => cases hbefore
    | forward => cases hquiet
  | cancelled => cases hquiet
  | done => cases hquiet

/-- A thread in front of a publication publishes when it is its turn. -/
theorem published_of_publishing {n : Node} {i : ℕ} (hplace : n.runs[i]? = some place)
    (h : place.publishing = true) : n.published i ≠ none := by
  rw [Node.published, Node.threadStep, hplace, Option.bind_some]
  cases place with
  | passed stage =>
    cases stage with
    | delay => exact nofun
    | dive => exact nofun
    | forward => cases h
  | _ => cases h

/-- With the flag set, it gets there if it is its turn often enough. -/
theorem reaches_publication {i : ℕ} (hflag : w.node.isEnabled = true)
    (hplace : w.node.runs[i]? = some place) (hquiet : place.quiet = false) :
    ∃ k w', Steps.run step (fun _ _ => True) (List.replicate k (.thread i)) w = some w' ∧
      w'.stopped = w.stopped ∧ w'.node.published i ≠ none := by
  induction hrank : place.rank using Nat.strong_induction_on generalizing place w with
  | _ rank ih =>
    cases hbefore : place.publishing with
    | true => exact ⟨0, w, rfl, rfl, published_of_publishing hplace hbefore⟩
    | false =>
      obtain ⟨place', hstep, hquiet', hlt⟩ := Place.step_true hquiet hbefore
      -- The thread takes one step, and then those of its next place.
      have hthread : QualifyTask.step w (.thread i) =
          some ⟨⟨true, w.node.runs.set i place'⟩, w.stopped⟩ := by
        rw [QualifyTask.step, Node.threadStep, hplace, Option.bind_some, hflag, hstep]
        rfl
      have hlength : i < w.node.runs.length := (List.getElem?_eq_some_iff.mp hplace).1
      obtain ⟨k, w', hrun, hstopped, hpublished⟩ :=
        ih place'.rank (hrank ▸ hlt) (w := ⟨⟨true, w.node.runs.set i place'⟩, w.stopped⟩) rfl
          (List.getElem?_set_self hlength) hquiet' rfl
      refine ⟨k + 1, w', ?_, hstopped, hpublished⟩
      rw [List.replicate_succ, Steps.run, if_pos trivial, hthread, Option.bind_some, hrun]

/-- The first message that comes at another time can make a stopped run publish something. -/
theorem disallowed_publishes {before : List Event}
    (hbefore : Steps.run step Allowed before init = some w) {msg : ModuleEnableMsg}
    (hnot : ¬Allowed w (.moduleEnable msg)) :
    ∃ i k w', Steps.run step (fun _ _ => True)
        (.moduleEnable msg :: List.replicate k (.thread i)) w = some w' ∧
      i < w'.stopped ∧ w'.node.published i ≠ none := by
  obtain ⟨hcancelled, -⟩ :=
    cancelled_of_moves (Steps.moves_of_run hbefore) cancelled_init (Nat.zero_le _)
  rw [Allowed, not_and_or, Classical.not_imp, Classical.not_imp, Classical.not_imp] at hnot
  rcases hnot with ⟨rfl, hpublishing⟩ | ⟨rfl, hflag, hquiet⟩
  · push Not at hpublishing
    obtain ⟨place, hmem, hplace⟩ := hpublishing
    obtain ⟨i, hi⟩ := List.getElem?_of_mem hmem
    refine ⟨i, 0, ⟨{ w.node with isEnabled := false }, w.node.runs.length⟩, ?_, ?_, ?_⟩
    · rw [List.replicate_zero, Steps.run, if_pos trivial, step, callback_disable, if_pos rfl]
      rfl
    · exact (List.getElem?_eq_some_iff.mp hi).1
    · exact published_of_publishing hi (eq_true_of_ne_false hplace)
  · push Not at hquiet
    obtain ⟨place, hmem, hplace⟩ := hquiet
    obtain ⟨i, hi⟩ := List.getElem?_of_mem hmem
    rw [List.getElem?_take] at hi
    split_ifs at hi with hlt
    have hplaced : (w.node.runs ++ [.loop .delay Stage.delay.slices])[i]? = some place := by
      rw [List.getElem?_append_left (lt_of_lt_of_le hlt hcancelled.le), hi]
    obtain ⟨k, w', hrun, hstopped, hpublished⟩ := reaches_publication
      (w := ⟨⟨true, w.node.runs ++ [.loop .delay Stage.delay.slices]⟩, w.stopped⟩) rfl hplaced
      (eq_false_of_ne_true hplace)
    refine ⟨i, k, w', ?_, by rw [hstopped]; exact hlt, hpublished⟩
    rw [Steps.run, if_pos trivial, step, callback_enable hflag, if_neg (by decide),
      Option.bind_some, hrun]

end Guillemot.Tasks.QualifyTask
