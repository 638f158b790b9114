import Guillemot.StateMachine.Runs

/-!
# States without a file

`ChangeState` tests whether the file of the new state is missing by comparing what `openClassFile`
returns with zero, but for a missing file this is the empty text. The transition goes on: all
classes are left, and the state without a file, which has no triggers and no timers, is the only
current class (`safety_dropped`).

`unknown_rejected_iff` says when nothing changes all the same: when this state is the current one
already, or when the `TearDown` of a class that is left raises before anything has been taken away.
-/

namespace Guillemot.StateMachine

open Raising Steps
open Relation (ReflTransGen)

variable {F : Type} [PythonFloat F] {world : World F}

/-- What a listener and the timers hold, and the classes, are as before. -/
def Unchanged (m m' : Machine F) : Prop :=
  m'.currentClasses = m.currentClasses ∧ (∀ topic, m'.active topic = m.active topic) ∧
    m'.timers = m.timers

/-- A `TearDown` raises, and the classes that have been removed before had no triggers and no
timers. -/
def StopsInTime (world : World F) (name : Text) (m : Machine F) : Prop :=
  ∃ gone c rest u e v, leaving world name m = gone ++ c :: rest ∧
    forM gone (remove world) (m.begun name) = .ok () u ∧ tearDown world c u = .error e v ∧
    (∀ topic, ∀ t ∈ m.active topic, t.mClassName ∉ gone) ∧ ∀ t ∈ m.timers, t.Class ∉ gone

/-- A class without a file is added without an exception. -/
theorem add_of_notMem {name : Text} (hname : name ∉ world.files.map Prod.fst) (m : Machine F) :
    ∃ m', add world name m = .ok () m' := by
  have hfile : sections (openClassFile world.files name) = [] := by
    rw [openClassFile_of_notMem hname, sections_nil]
  unfold add setup addTriggers addTimers
  rw [hfile]
  exact ⟨_, rfl⟩

/-- What is entered is only the state without a file, which does not raise. -/
theorem entering_of_notMem {name : Text} (hname : name ∉ world.files.map Prod.fst)
    (m u : Machine F) : ∃ v, forM (entering world name m) (add world) u = .ok () v := by
  have hmem : ∀ c ∈ entering world name m, c = name := by
    intro c hc
    have hin := (mem_entering.mp hc).1
    rw [← ClassSet.mem_names, getAllClasses_of_notMem hname] at hin
    exact List.mem_singleton.mp hin
  generalize entering world name m = names at hmem
  induction names generalizing u with
  | nil => exact ⟨u, rfl⟩
  | cons c names ih =>
    obtain ⟨rfl, hrest⟩ := List.forall_mem_cons.mp hmem
    obtain ⟨v, hv⟩ := add_of_notMem hname u
    obtain ⟨v', hv'⟩ := ih v hrest
    refine ⟨v', ?_⟩
    rw [List.forM_cons]
    exact bind_eq_ok_iff.mpr ⟨(), v, hv, hv'⟩

/-- Where the classes are removed without an exception, they are not current afterwards. -/
theorem names_of_unchanged {name : Text} (hname : name ∉ world.files.map Prod.fst)
    {m m' : Machine F} (h : changeState world (.str name) m = .ok () m')
    (hsame : m'.currentClasses = m.currentClasses) : m.currentClasses.names = [name] := by
  obtain ⟨leaving, entering, new, hs⟩ := switched_of_ok h
  rw [← hsame, hs.classes, getAllClasses_of_notMem hname]

/-- A transition to the state that is current already changes nothing. -/
theorem unchanged_of_current {name : Text} (hname : name ∉ world.files.map Prod.fst)
    {m : Machine F} (h : m.currentClasses.names = [name]) :
    Unchanged m (final (changeState world (.str name) m)) := by
  have hclasses : getAllClasses world.files name = m.currentClasses := by
    have hnames := (getAllClasses_of_notMem hname).trans h.symm
    cases hset : m.currentClasses
    cases hset' : getAllClasses world.files name
    rw [hset, hset'] at hnames
    congr
  -- Both differences are empty, in whatever order a set is iterated.
  have hnone : ∀ (n : ℕ) (s : ClassSet), world.order n (s.difference s) = [] := by
    intro n s
    refine List.eq_nil_iff_forall_not_mem.mpr fun c hc => ?_
    rw [(world.order_perm _ _).mem_iff, ClassSet.mem_difference] at hc
    exact hc.2 hc.1
  have hleaving : leaving world name m = [] := by rw [leaving, hclasses, hnone]
  have hentering : entering world name (m.begun name) = [] := by
    rw [entering, hclasses]
    exact hnone _ _
  have hfinal : changeState world (.str name) m =
      .ok () ((m.begun name).cleared.switched m.currentClasses) := by
    simp only [changeState_str, hleaving, List.forM_nil, pure_apply, hentering, hclasses]
  rw [hfinal]
  exact ⟨rfl, fun _ => rfl, rfl⟩

/-- A state without a file is rejected, so that the classes, the active triggers and the timers stay
as they are, if and only if it is the current state already, or a `TearDown` raises before anything
has been taken away. -/
theorem unknown_rejected_iff (world : World F) (m : Machine F) (name : Text)
    (hname : name ∉ world.files.map Prod.fst) :
    Unchanged m (final (changeState world (.str name) m)) ↔
      m.currentClasses.names = [name] ∨ StopsInTime world name m := by
  constructor
  · intro hsame
    cases hres : changeState world (.str name) m with
    | ok _ m' =>
      rw [hres] at hsame
      exact .inl (names_of_unchanged hname hres hsame.1)
    | error e m' =>
      rw [hres] at hsame
      rw [changeState_str] at hres
      split at hres
      · rename_i e' v hraise
        -- What has raised is the `TearDown` of the class `c`, behind those that are gone.
        obtain ⟨gone, c, rest, u, hleaving, hgone, hremove⟩ := forM_eq_error_iff.mp hraise
        have htear := tearDown_of_error hremove
        obtain rfl : v = m' := by
          cases hres
          rfl
        have hremoved : Removed gone (m.begun name) v := by
          simpa using (removed_of_loop hgone).trans
            ((quiet_tearDown world c).of_error htear).removed
        exact .inr ⟨gone, c, rest, u, e', v, hleaving, hgone, htear,
          hremoved.unchanged_iff.mp ⟨hsame.2.1, hsame.2.2⟩⟩
      · rename_i u hleave
        -- Nothing raises when the state without a file is added.
        obtain ⟨v, hv⟩ := entering_of_notMem hname u u.cleared
        rw [hv] at hres
        cases hres
  · rintro (hcurrent | ⟨gone, c, rest, u, e, v, hleaving, hgone, htear, hactive, htimers⟩)
    · exact unchanged_of_current hname hcurrent
    · have hremove : remove world c u = .error e v := bind_eq_error_iff.mpr (.inl htear)
      have hraise : forM (leaving world name m) (remove world) (m.begun name) = .error e v :=
        forM_eq_error_iff.mpr ⟨gone, c, rest, u, hleaving, hgone, hremove⟩
      have hremoved : Removed gone (m.begun name) v := by
        simpa using (removed_of_loop hgone).trans
          ((quiet_tearDown world c).of_error htear).removed
      rw [changeState_str, hraise]
      exact ⟨hremoved.classes, hremoved.unchanged_iff.mpr ⟨hactive, htimers⟩⟩

/-- A state that is current already, without a file, stays so. -/
theorem missing_stays : Unchanged (final (after [] "Missing" .initial))
    (final (changeState (World.reliable []) (.str "Missing".toList)
      (final (after [] "Missing" .initial)))) :=
  (unknown_rejected_iff (World.reliable []) (final (after [] "Missing" .initial))
    "Missing".toList (by decide)).mpr (.inl (by decide +kernel))

/-- A state that inherits a class for safety. -/
def withSafety : Files :=
  [("Normal".toList, "\n<Inherits>\nSafety".toList),
    ("Safety".toList, "\n<Triggers>\n/a string any x triggers transition Surface".toList)]

/-- The node has been started. -/
def started : Option (Process ℚ) :=
  run (step (World.reliable withSafety)) (fun _ _ => True) [.next] (start "Normal".toList)

/-- A state without a file is not rejected: the class for safety is current no longer. -/
theorem safety_dropped : ∃ p,
    ReflTransGen (Moves (step (World.reliable withSafety)) fun _ _ => True)
        (start "Normal".toList) p ∧
      "Missing".toList ∉ withSafety.map Prod.fst ∧ "Safety".toList ∈ p.machine.currentClasses ∧
      ¬ Unchanged p.machine
        (final (changeState (World.reliable withSafety) (.str "Missing".toList) p.machine)) := by
  have hdropped : (match started with
      | some p => decide ("Safety".toList ∈ p.machine.currentClasses) &&
        decide ((final (changeState (World.reliable withSafety) (.str "Missing".toList)
          p.machine)).currentClasses ≠ p.machine.currentClasses)
      | none => false) = true := by decide +kernel
  cases hrun : started with
  | none =>
    rw [hrun] at hdropped
    cases hdropped
  | some p =>
    rw [hrun] at hdropped
    obtain ⟨hsafety, hclasses⟩ := Bool.and_eq_true_iff.mp hdropped
    exact ⟨p, moves_of_run hrun, by decide, of_decide_eq_true hsafety,
      fun hsame => of_decide_eq_true hclasses hsame.1⟩

end Guillemot.StateMachine
