import Guillemot.Brain.NewPathTask
import Guillemot.Library.Streak

/-!
# The state that centers on a buoy

`CenterOnBuoy` of `BuoyTask.py`. A round of its loop is taken as a whole, with the callbacks that
run before it. The loop counts its rounds with a centered buoy, and when it has counted ten of them
it counts on (`counts_of_streak`): no statement leaves it, and the state never returns `succeeded`,
the outcome that leads to `GoForwardOnCenter` (`finishes_iff`).

Numbers are rational, without rounding.
-/

namespace Guillemot.Brain.CenterOnBuoy

/-! ## The state -/

/-- The arguments of `__init__`. -/
structure Settings where
  _timeout : ℚ
  _gain_x : ℚ
  _gain_y : ℚ

/-- Their default values. -/
def Settings.default : Settings := ⟨2, -1 / 100, 1 / 100⟩

/-- The fields that the loop and the callbacks use. -/
structure State where
  last_buoy : Option ImgRecObject
  last_time : ℚ
  last_depth : Option ℚ
  good_x_count : ℕ
  good_y_count : ℕ
deriving DecidableEq, Repr

/-- The outcomes. -/
inductive Outcome where
  | succeeded
  | lost_buoy
  | preempted
deriving DecidableEq, Repr

/-- The states of the machine that the outcomes lead to. -/
inductive Stage where
  | GoForwardOnCenter
  | ScanNarrow
  | preempted
deriving DecidableEq, Repr

/-- The transitions of `CenterOnBuoy` in `BuoyTask`. -/
def transitions : Outcome → Stage
  | .succeeded => .GoForwardOnCenter
  | .lost_buoy => .ScanNarrow
  | .preempted => .preempted

/-- `reset`. -/
def State.reset (now : ℚ) : State := ⟨none, now, none, 0, 0⟩

/-- A callback: a message on `img_rec/buoys/red` and when it comes, or one on `Sub_Depth`. -/
inductive Callback where
  | buoy (msg : ImgRecObject) (now : ℚ)
  | depth (data : ℚ)
deriving DecidableEq, Repr

/-- `buoy_cb` and `depth_cb`. -/
def State.handle (s : State) : Callback → State
  | .buoy msg now => { s with last_buoy := some msg, last_time := now }
  | .depth data => { s with last_depth := some data }

/-! ## The loop -/

/-- `strafe`. -/
def strafe (value : ℚ) : HighLevelControl := ⟨some .strafe, "Command", value⟩

/-- `dive`. -/
def dive (value : ℚ) : HighLevelControl := ⟨some .dive, "Command", value⟩

/-- `self.last_depth` in a condition: neither `None` nor zero. -/
def State.depth? (s : State) : Option ℚ := s.last_depth.filter (· ≠ 0)

variable (c : Settings)

/-- The part of a round about `center_x`. -/
def State.centerX (s : State) (buoy : ImgRecObject) : State × List HighLevelControl :=
  if |buoy.center_x| < 50 then
    ({ s with good_x_count := s.good_x_count + 1 }, [strafe (buoy.center_x * c._gain_x)])
  else ({ s with good_x_count := 0 }, [strafe 0])

/-- The part about `center_y`. -/
def State.centerY (s : State) (buoy : ImgRecObject) : State × List HighLevelControl :=
  if |buoy.center_y| < 50 then
    ({ s with good_y_count := s.good_y_count + 1 }, [dive (buoy.center_y * c._gain_y)])
  else
    ({ s with good_y_count := 0 },
      (s.depth?.map fun depth => dive (depth - buoy.center_y * c._gain_y)).toList)

/-- The part that tests both counters. -/
def State.checkCounts (s : State) : State × List HighLevelControl :=
  if s.good_x_count ≥ 10 ∧ s.good_y_count ≥ 10 then
    ({ s with good_y_count := s.good_y_count + 1 }, (s.depth?.map dive).toList)
  else (s, [])

/-- A round with a message. -/
def State.center (s : State) (buoy : ImgRecObject) : State × List HighLevelControl :=
  let x := s.centerX c buoy
  let y := x.1.centerY c buoy
  let checked := y.1.checkCounts
  ({ checked.1 with last_buoy := none }, x.2 ++ y.2 ++ checked.2)

/-- What a round of the loop takes from outside: the callbacks before it, whether the state is to be
preempted, and the time. -/
structure Turn where
  callbacks : List Callback
  preemptRequested : Bool
  now : ℚ

/-- How a round ends: with another one, with a statement that leaves the loop, or with `return`. -/
inductive Flow where
  | again (s : State)
  | leave
  | returned (outcome : Outcome)
deriving DecidableEq, Repr

/-- The message that is seen in a round. -/
def State.sees (s : State) (turn : Turn) : Option ImgRecObject :=
  if turn.preemptRequested then none
  else s.last_buoy.filter fun _ => turn.now - s.last_time < c._timeout

/-- A round of the loop, behind its callbacks. -/
def State.round (s : State) (turn : Turn) : Flow × List HighLevelControl :=
  if turn.preemptRequested then (.returned .preempted, [])
  else
    match s.sees c turn with
    | some buoy => (.again (s.center c buoy).1, (s.center c buoy).2)
    | none =>
      if turn.now - s.last_time > c._timeout then (.returned .lost_buoy, []) else (.again s, [])

/-! ## `execute` -/

/-- How far `execute` has come, with all that it has published and seen. -/
structure Progress where
  /-- The fields while the loop runs, and then the outcome. -/
  control : State ⊕ Outcome
  published : List HighLevelControl
  seen : List ImgRecObject

/-- What follows a round. Behind the loop `execute` returns `succeeded`. -/
def Flow.control : Flow → State ⊕ Outcome
  | .again s => .inl s
  | .leave => .inr .succeeded
  | .returned outcome => .inr outcome

/-- A round of `execute`. -/
def Progress.next (p : Progress) (turn : Turn) : Progress :=
  match p.control with
  | .inr _ => p
  | .inl s =>
    let s := turn.callbacks.foldl State.handle s
    ⟨(s.round c turn).1.control, p.published ++ (s.round c turn).2,
      p.seen ++ (s.sees c turn).toList⟩

/-- `execute`, with its first `n` rounds. -/
def execute (start : ℚ) (turns : ℕ → Turn) : ℕ → Progress
  | 0 => ⟨.inl (State.reset start), [], []⟩
  | n + 1 => (execute start turns n).next c (turns n)

/-! ## What the loop counts -/

/-- Both offsets are small. -/
def Centred (buoy : ImgRecObject) : Prop := |buoy.center_x| < 50 ∧ |buoy.center_y| < 50

variable {c} {s : State} {turn : Turn} {start : ℚ} {turns : ℕ → Turn}

/-- The callbacks do not count. -/
theorem handle_counts (s : State) (callbacks : List Callback) :
    (callbacks.foldl State.handle s).good_x_count = s.good_x_count ∧
      (callbacks.foldl State.handle s).good_y_count = s.good_y_count := by
  induction callbacks generalizing s with
  | nil => exact ⟨rfl, rfl⟩
  | cons callback callbacks ih =>
    have hone : (s.handle callback).good_x_count = s.good_x_count ∧
        (s.handle callback).good_y_count = s.good_y_count := by
      cases callback <;> exact ⟨rfl, rfl⟩
    obtain ⟨hx, hy⟩ := ih (s.handle callback)
    exact ⟨hx.trans hone.1, hy.trans hone.2⟩

/-- The counters after a round with a centered buoy. -/
theorem center_counts {buoy : ImgRecObject} (h : Centred buoy) :
    s.good_x_count + 1 ≤ (s.center c buoy).1.good_x_count ∧
      s.good_y_count + 1 ≤ (s.center c buoy).1.good_y_count := by
  have hx : (s.centerX c buoy).1 = { s with good_x_count := s.good_x_count + 1 } := by
    unfold State.centerX
    rw [if_pos h.1]
  have hy : ∀ t : State, (t.centerY c buoy).1 = { t with good_y_count := t.good_y_count + 1 } := by
    intro t
    unfold State.centerY
    rw [if_pos h.2]
  have hcheck : ∀ t : State, t.good_x_count ≤ t.checkCounts.1.good_x_count ∧
      t.good_y_count ≤ t.checkCounts.1.good_y_count := by
    intro t
    unfold State.checkCounts
    split_ifs
    · exact ⟨le_rfl, Nat.le_succ _⟩
    · exact ⟨le_rfl, le_rfl⟩
  unfold State.center
  dsimp only
  rw [hy, hx]
  exact hcheck
    { s with good_x_count := s.good_x_count + 1, good_y_count := s.good_y_count + 1 }

/-- A round in which a buoy is seen. -/
theorem round_of_sees {buoy : ImgRecObject} (h : s.sees c turn = some buoy) :
    s.round c turn = (.again (s.center c buoy).1, (s.center c buoy).2) := by
  have hpreempt : ¬ turn.preemptRequested = true := by
    intro hpreempt
    unfold State.sees at h
    rw [if_pos hpreempt] at h
    cases h
  unfold State.round
  rw [if_neg hpreempt, h]

/-- The ways in which a round ends. -/
theorem round_cases (s : State) (turn : Turn) :
    (s.round c turn).1 = .returned .preempted ∨ (s.round c turn).1 = .returned .lost_buoy ∨
      (s.round c turn).1 = .again s ∧ s.sees c turn = none ∨
      ∃ buoy, s.sees c turn = some buoy ∧ (s.round c turn).1 = .again (s.center c buoy).1 := by
  cases hsees : s.sees c turn with
  | some buoy => exact .inr (.inr (.inr ⟨buoy, rfl, by rw [round_of_sees hsees]⟩))
  | none =>
    unfold State.round
    rw [hsees]
    dsimp only
    split_ifs
    · exact .inl rfl
    · exact .inr (.inl rfl)
    · exact .inr (.inr (.inl ⟨rfl, rfl⟩))

/-- A round of `execute` while the loop runs: it ends, or nothing is seen and counted, or a buoy is.
-/
theorem next_cases {p : Progress} (hp : p.control = .inl s) (turn : Turn) :
    (∃ o, o ≠ .succeeded ∧ (p.next c turn).control = .inr o) ∨
      ((p.next c turn).control = .inl (turn.callbacks.foldl State.handle s) ∧
        (p.next c turn).seen = p.seen) ∨
      ∃ buoy,
        (p.next c turn).control =
          .inl ((turn.callbacks.foldl State.handle s).center c buoy).1 ∧
        (p.next c turn).seen = p.seen ++ [buoy] := by
  unfold Progress.next
  rw [hp]
  dsimp only
  rcases round_cases (c := c) (turn.callbacks.foldl State.handle s) turn with
    h | h | ⟨h, hsees⟩ | ⟨buoy, hsees, h⟩
  · exact .inl ⟨.preempted, by decide, by rw [h]; rfl⟩
  · exact .inl ⟨.lost_buoy, by decide, by rw [h]; rfl⟩
  · exact .inr (.inl ⟨by rw [h]; rfl, by rw [hsees]; exact List.append_nil _⟩)
  · exact .inr (.inr ⟨buoy, by rw [h]; rfl, by rw [hsees]; rfl⟩)

/-- What has been returned stays. -/
theorem next_of_returned {p : Progress} {o : Outcome} (hp : p.control = .inr o) (turn : Turn) :
    p.next c turn = p := by
  unfold Progress.next
  rw [hp]

/-- While the loop runs, the counters are no smaller than any streak of centered buoys at the end of
what it has seen. -/
theorem counts_of_streak (n : ℕ) (hs : (execute c start turns n).control = .inl s) {k : ℕ}
    (hk : Streak Centred k (execute c start turns n).seen) :
    k ≤ s.good_x_count ∧ k ≤ s.good_y_count := by
  induction n generalizing s k with
  | zero =>
    obtain ⟨last, hsuffix, rfl, -⟩ := hk
    rw [List.eq_nil_of_suffix_nil hsuffix]
    exact ⟨Nat.zero_le _, Nat.zero_le _⟩
  | succ n ih =>
    unfold execute at hs hk
    cases hp : (execute c start turns n).control with
    | inr o =>
      rw [next_of_returned hp, hp] at hs
      cases hs
    | inl t =>
      obtain ⟨hx, hy⟩ := handle_counts t (turns n).callbacks
      rcases next_cases (c := c) hp (turns n) with
        ⟨o, -, hcontrol⟩ | ⟨hcontrol, hseen⟩ | ⟨buoy, hcontrol, hseen⟩
      · rw [hcontrol] at hs
        cases hs
      · obtain rfl := Sum.inl.inj (hcontrol.symm.trans hs)
        rw [hseen] at hk
        rw [hx, hy]
        exact ih hp hk
      · obtain rfl := Sum.inl.inj (hcontrol.symm.trans hs)
        rw [hseen] at hk
        cases k with
        | zero => exact ⟨Nat.zero_le _, Nat.zero_le _⟩
        | succ k =>
          -- The buoy is centered, and the streak before it was counted.
          obtain ⟨hearlier, hbuoy⟩ := hk.of_snoc
          obtain ⟨hcountx, hcounty⟩ := ih hp hearlier
          obtain ⟨hmorex, hmorey⟩ := center_counts (c := c)
            (s := (turns n).callbacks.foldl State.handle t) hbuoy
          omega

/-! ## What it returns -/

/-- `execute` never returns `succeeded`. -/
theorem never_succeeded (n : ℕ) : (execute c start turns n).control ≠ .inr .succeeded := by
  induction n with
  | zero => exact Sum.inl_ne_inr
  | succ n ih =>
    unfold execute
    cases hp : (execute c start turns n).control with
    | inr o => rwa [next_of_returned hp]
    | inl s =>
      rcases next_cases (c := c) hp (turns n) with
        ⟨o, ho, hcontrol⟩ | ⟨hcontrol, -⟩ | ⟨_, hcontrol, -⟩
      · rw [hcontrol]
        exact fun heq => ho (Sum.inr.inj heq)
      all_goals
        rw [hcontrol]
        exact Sum.inl_ne_inr

variable (c start turns) in
/-- The state is neither preempted nor does it lose the buoy. -/
def Undisturbed : Prop :=
  ∀ n, (execute c start turns n).control ≠ .inr .preempted ∧
    (execute c start turns n).control ≠ .inr .lost_buoy

variable (c start turns) in
/-- After ten centered buoys in a row, at most one more round follows, without a command, and then
the transition to `GoForwardOnCenter`. -/
def Finishes : Prop :=
  ∀ n, Streak Centred 10 (execute c start turns n).seen →
    ∃ o, (execute c start turns (n + 1)).control = .inr o ∧ transitions o = .GoForwardOnCenter ∧
      (execute c start turns (n + 1)).published = (execute c start turns n).published

/-- A run that is not disturbed finishes as it should exactly when there are never ten centered
buoys in a row, that is, when there is nothing to finish. -/
theorem finishes_iff (c : Settings) (start : ℚ) (turns : ℕ → Turn) :
    (Undisturbed c start turns → Finishes c start turns) ↔
      ¬ (Undisturbed c start turns ∧
        ∃ n, Streak Centred 10 (execute c start turns n).seen) := by
  constructor
  · rintro hfinishes ⟨hundisturbed, n, hn⟩
    obtain ⟨o, ho, htransition, -⟩ := hfinishes hundisturbed n hn
    have hsucceeded : o = .succeeded := by
      cases o
      · rfl
      all_goals cases htransition
    exact never_succeeded (n + 1) (hsucceeded ▸ ho)
  · exact fun hnone hundisturbed n hn => absurd ⟨hundisturbed, n, hn⟩ hnone

/-- A buoy in the center is seen in every round. -/
def alwaysCentered (_ : ℕ) : Turn := ⟨[.buoy ⟨0, 0, 0⟩ 0], false, 0⟩

/-- Nothing disturbs this run. -/
theorem always_centered_runs (n : ℕ) :
    ∃ s, (execute .default 0 alwaysCentered n).control = .inl s := by
  induction n with
  | zero => exact ⟨_, rfl⟩
  | succ n ih =>
    obtain ⟨s, hs⟩ := ih
    have hsees : (s.handle (.buoy ⟨0, 0, 0⟩ 0)).sees .default (alwaysCentered n) =
        some ⟨0, 0, 0⟩ := by
      simp [State.sees, alwaysCentered, State.handle, Settings.default]
    unfold execute Progress.next
    rw [hs]
    exact ⟨_, by dsimp only [alwaysCentered, List.foldl] at hsees ⊢; rw [round_of_sees hsees]; rfl⟩

/-- Ten rounds with a buoy in the center, and the loop goes on. -/
theorem always_centered_not_finished :
    Undisturbed .default 0 alwaysCentered ∧
      Streak Centred 10 (execute .default 0 alwaysCentered 10).seen ∧
      ¬ Finishes .default 0 alwaysCentered := by
  have hundisturbed : Undisturbed .default 0 alwaysCentered := by
    intro n
    obtain ⟨s, hs⟩ := always_centered_runs n
    rw [hs]
    exact ⟨Sum.inl_ne_inr, Sum.inl_ne_inr⟩
  have hseen : (execute .default 0 alwaysCentered 10).seen = List.replicate 10 ⟨0, 0, 0⟩ := by
    decide +kernel
  have hstreak : Streak Centred 10 (execute .default 0 alwaysCentered 10).seen := by
    rw [hseen]
    refine ⟨_, List.suffix_rfl, rfl, fun buoy hbuoy => ?_⟩
    rw [List.eq_of_mem_replicate hbuoy]
    exact ⟨by decide, by decide⟩
  refine ⟨hundisturbed, hstreak, fun hfinishes => ?_⟩
  obtain ⟨o, ho, -⟩ := hfinishes 10 hstreak
  obtain ⟨s, hs⟩ := always_centered_runs 11
  rw [hs] at ho
  cases ho

end Guillemot.Brain.CenterOnBuoy
