import Guillemot.Library.Log
import Mathlib.Analysis.Convex.Hull
import Mathlib.Tactic.FieldSimp
import Mathlib.Tactic.Linarith

/-!
# The mixer of the simulation

`SimpleMixer` of `mixer.cpp` blends its value with those of the messages, by weights that it
computes from the two confidences. They are weights of a mean (`weights_spec`) unless both
confidences are 1: then the sum of the distances to 1 is zero, and each weight is 1. The confidence
of the mixer is 1 exactly from a message of confidence 1 on until it decays (`Mixed.full`), so that
`blends_iff` can say in terms of the messages which runs blend as they should.

A `float` is a rational number, without rounding.
-/

namespace Guillemot.Sim

/-- A message of the type `mixer`. -/
structure Mixer where
  value : ℚ
  confidence : ℚ
deriving DecidableEq, Repr

/-- The variables of the node. -/
structure SimpleMixer where
  currentValue : ℚ
  currentConfindence : ℚ
deriving DecidableEq, Repr

namespace SimpleMixer

/-- The initial values. -/
def init : SimpleMixer := ⟨0, 0⟩

/-- The confidence of a message in `inputCallback`. -/
def capped (confidence : ℚ) : ℚ := if confidence > 1 then 1 else confidence

/-- `aPrime` and `bPrime` of `inputCallback`. -/
def weights (a b : ℚ) : ℚ × ℚ :=
  let smallest := if b < a then b else a
  if 1 - a < smallest ∨ 1 - b < smallest then
    let y := 2 - (a + b)
    let y := if y = 0 then 1 else y
    (1 - (1 - a) / y, 1 - (1 - b) / y)
  else
    let y := a + b
    let y := if y = 0 then 1 else y
    (a / y, b / y)

/-- `inputCallback`. -/
def inputCallback (m : SimpleMixer) (msg : Mixer) : SimpleMixer :=
  let a := capped msg.confidence
  if a ≤ 0 then m
  else
    let b := m.currentConfindence
    let (aPrime, bPrime) := weights a b
    ⟨msg.value * aPrime + m.currentValue * bPrime, a * aPrime + b * bPrime⟩

/-- A round of the main loop up to `spinOnce`, with the message that it publishes. -/
def round (m : SimpleMixer) : SimpleMixer × Mixer :=
  ({ m with currentConfindence := m.currentConfindence * (999 / 1000) },
    ⟨m.currentValue, m.currentConfindence⟩)

/-- What the node does: a message, or a round of the main loop. -/
inductive Event where
  | input (msg : Mixer)
  | round
deriving DecidableEq, Repr

def step (m : SimpleMixer) : Event → SimpleMixer
  | .input msg => m.inputCallback msg
  | .round => m.round.1

/-- The node after some events. -/
def run (events : List Event) : SimpleMixer := events.foldl step init

/-! ## The law -/

/-- Two weights of a mean. -/
structure IsWeights (w : ℚ × ℚ) : Prop where
  fst_nonneg : 0 ≤ w.1
  snd_nonneg : 0 ≤ w.2
  sum : w.1 + w.2 = 1

/-- The values of the messages that are accepted. -/
def accepted (events : List Event) : Set ℚ :=
  {v | ∃ msg, .input msg ∈ events ∧ 0 < msg.confidence ∧ msg.value = v}

/-- A run blends: all updates are means, the confidence stays between 0 and 1, and the value in the
convex hull of 0 and the values accepted so far. -/
structure Blends (events : List Event) : Prop where
  weights : ∀ before msg later, events = before ++ .input msg :: later → 0 < msg.confidence →
    IsWeights (weights (capped msg.confidence) (run before).currentConfindence)
  confidence : ∀ before later, events = before ++ later →
    0 ≤ (run before).currentConfindence ∧ (run before).currentConfindence ≤ 1
  value : ∀ before later, events = before ++ later →
    (run before).currentValue ∈ convexHull ℚ (insert 0 (accepted before))

/-- A message of confidence 1 or more has come since the last round. -/
def full (events : List Event) : Bool :=
  events.foldl (fun full e => match e with
    | .input msg => full || 1 ≤ msg.confidence
    | .round => false) false

/-- No two messages of confidence 1 or more come in one round. -/
def Spaced (events : List Event) : Prop :=
  ∀ before msg later, events = before ++ .input msg :: later → 1 ≤ msg.confidence →
    full before = false

/-! ## The weights -/

variable {a b : ℚ}

/-- A mean of two numbers between 0 and 1 lies between them. -/
theorem IsWeights.mean_mem {w : ℚ × ℚ} (h : IsWeights w) (ha : 0 ≤ a) (ha' : a ≤ 1) (hb : 0 ≤ b)
    (hb' : b ≤ 1) : 0 ≤ a * w.1 + b * w.2 ∧ a * w.1 + b * w.2 ≤ 1 := by
  have hfst := mul_nonneg h.fst_nonneg (sub_nonneg.mpr ha')
  have hsnd := mul_nonneg h.snd_nonneg (sub_nonneg.mpr hb')
  refine ⟨add_nonneg (mul_nonneg ha h.fst_nonneg) (mul_nonneg hb h.snd_nonneg), ?_⟩
  linarith [h.sum]

/-- The shares of two numbers in their sum are weights of a mean, and the mean of `a` and `b` is 1
exactly if neither of them is below 1 where it counts. -/
theorem shares_spec {u v : ℚ} (hu : 0 ≤ u) (hv : 0 ≤ v) (hy : 0 < u + v) (ha' : a ≤ 1)
    (hb' : b ≤ 1) :
    IsWeights (u / (u + v), v / (u + v)) ∧
      (a * (u / (u + v)) + b * (v / (u + v)) = 1 ↔ (1 - a) * u = 0 ∧ (1 - b) * v = 0) := by
  refine ⟨⟨div_nonneg hu hy.le, div_nonneg hv hy.le, ?_⟩, ?_⟩
  · rw [← add_div, div_self hy.ne']
  · have hsum : a * (u / (u + v)) + b * (v / (u + v)) = (a * u + b * v) / (u + v) := by ring
    have hfst : 0 ≤ (1 - a) * u := mul_nonneg (sub_nonneg.mpr ha') hu
    have hsnd : 0 ≤ (1 - b) * v := mul_nonneg (sub_nonneg.mpr hb') hv
    rw [hsum, div_eq_one_iff_eq hy.ne', ← add_eq_zero_iff_of_nonneg hfst hsnd]
    constructor
    · intro heq
      linarith
    · intro heq
      linarith

/-- The weights of the first formula: the share of each distance to 1 goes to the other value. -/
theorem inverted_spec (ha' : a ≤ 1) (hb' : b ≤ 1) (hy : 0 < 2 - (a + b)) :
    IsWeights (1 - (1 - a) / (2 - (a + b)), 1 - (1 - b) / (2 - (a + b))) ∧
      (a * (1 - (1 - a) / (2 - (a + b))) + b * (1 - (1 - b) / (2 - (a + b))) = 1 ↔
        a = 1 ∨ b = 1) := by
  have hsum : 2 - (a + b) = (1 - b) + (1 - a) := by ring
  rw [hsum] at hy ⊢
  have hfst : 1 - (1 - a) / ((1 - b) + (1 - a)) = (1 - b) / ((1 - b) + (1 - a)) := by
    rw [one_sub_div hy.ne', add_sub_cancel_right]
  have hsnd : 1 - (1 - b) / ((1 - b) + (1 - a)) = (1 - a) / ((1 - b) + (1 - a)) := by
    rw [one_sub_div hy.ne', add_sub_cancel_left]
  obtain ⟨hweights, hone⟩ :=
    shares_spec (sub_nonneg.mpr hb') (sub_nonneg.mpr ha') hy ha' hb'
  rw [hfst, hsnd]
  refine ⟨hweights, hone.trans ?_⟩
  rw [mul_comm (1 - b), and_self, mul_eq_zero, sub_eq_zero, sub_eq_zero, eq_comm, eq_comm (a := b)]

/-- The weights of the second formula: the shares of the confidences. -/
theorem plain_spec (ha : 0 < a) (ha' : a ≤ 1) (hb : 0 ≤ b) (hb' : b ≤ 1) :
    IsWeights (a / (a + b), b / (a + b)) ∧
      (a * (a / (a + b)) + b * (b / (a + b)) = 1 ↔ a = 1 ∧ (b = 0 ∨ b = 1)) := by
  obtain ⟨hweights, hone⟩ := shares_spec ha.le hb (by linarith) ha' hb'
  refine ⟨hweights, hone.trans ?_⟩
  rw [mul_eq_zero, or_iff_left ha.ne', mul_eq_zero, sub_eq_zero, sub_eq_zero, eq_comm,
    eq_comm (a := 1) (b := b), or_comm]

/-- The weights for the confidences `a` of the message and `b` of the mixer are weights of a mean
unless both are 1, and the mean is 1 exactly if one of them is. -/
theorem weights_spec (ha : 0 < a) (ha' : a ≤ 1) (hb : 0 ≤ b) (hb' : b ≤ 1)
    (h : ¬(a = 1 ∧ b = 1)) :
    IsWeights (weights a b) ∧ (a * (weights a b).1 + b * (weights a b).2 = 1 ↔ a = 1 ∨ b = 1) := by
  unfold weights
  dsimp only
  by_cases hinvert : 1 - a < (if b < a then b else a) ∨ 1 - b < (if b < a then b else a)
  · have hy : 0 < 2 - (a + b) := by
      by_contra hle
      exact h ⟨by linarith, by linarith⟩
    rw [if_pos hinvert, if_neg hy.ne']
    exact inverted_spec ha' hb' hy
  · rw [if_neg hinvert, if_neg (by linarith : a + b ≠ 0)]
    obtain ⟨hweights, hone⟩ := plain_spec ha ha' hb hb'
    refine ⟨hweights, hone.trans ?_⟩
    obtain ⟨hleft, hright⟩ := not_or.mp hinvert
    constructor
    · exact fun hboth => .inl hboth.1
    · -- The first formula is taken for a confidence of 1, unless the other one is 0.
      rintro (rfl | rfl)
      · split_ifs at hleft <;> exact ⟨rfl, .inl (by linarith)⟩
      · rw [if_neg (not_lt.mpr ha')] at hright
        exact absurd ha (by linarith)

/-- Between two confidences of 1 there is no distance to divide by. -/
theorem not_isWeights_one : ¬IsWeights (weights 1 1) :=
  fun h => absurd h.sum (by decide +kernel)

/-! ## One event more -/

theorem run_concat (before : List Event) (e : Event) :
    run (before ++ [e]) = (run before).step e :=
  List.foldl_concat ..

theorem full_input (before : List Event) (msg : Mixer) :
    full (before ++ [.input msg]) = (full before || decide (1 ≤ msg.confidence)) :=
  List.foldl_concat ..

theorem full_round (before : List Event) : full (before ++ [.round]) = false :=
  List.foldl_concat ..

theorem accepted_mono (before : List Event) (e : Event) :
    accepted before ⊆ accepted (before ++ [e]) :=
  fun _ ⟨msg, hmem, h⟩ => ⟨msg, List.mem_append_left _ hmem, h⟩

/-- What holds of the mixer as long as no two messages of confidence 1 come in one round. -/
structure Mixed (events : List Event) : Prop where
  nonneg : 0 ≤ (run events).currentConfindence
  le_one : (run events).currentConfindence ≤ 1
  full : (run events).currentConfindence = 1 ↔ full events = true
  value : (run events).currentValue ∈ convexHull ℚ (insert 0 (accepted events))

variable {before : List Event}

/-- A round keeps it. -/
theorem Mixed.round (h : Mixed before) : Mixed (before ++ [.round]) := by
  have hconf : (run (before ++ [.round])).currentConfindence =
      (run before).currentConfindence * (999 / 1000) := by
    rw [run_concat]
    rfl
  have hnonneg := h.nonneg
  have hle := h.le_one
  refine ⟨by linarith, by linarith, ?_, ?_⟩
  · rw [full_round]
    exact iff_of_false (by linarith) Bool.false_ne_true
  · have hhull : (run (before ++ [.round])).currentValue = (run before).currentValue := by
      rw [run_concat]
      rfl
    rw [hhull]
    exact convexHull_mono (Set.insert_subset_insert (accepted_mono _ _)) h.value

theorem capped_spec {confidence : ℚ} (h : 0 < confidence) :
    0 < capped confidence ∧ capped confidence ≤ 1 ∧ (capped confidence = 1 ↔ 1 ≤ confidence) := by
  unfold capped
  split_ifs with hgt
  · exact ⟨one_pos, le_refl 1, iff_of_true rfl hgt.le⟩
  · refine ⟨h, not_lt.mp hgt, fun heq => heq.ge, fun hle => le_antisymm (not_lt.mp hgt) hle⟩

/-- The weights of the update by a message, unless it is the second one of confidence 1 in a
round. -/
theorem Mixed.weights_spec (h : Mixed before) {msg : Mixer} (hpos : 0 < msg.confidence)
    (hspaced : 1 ≤ msg.confidence → SimpleMixer.full before = false) {w : ℚ × ℚ}
    (hw : weights (capped msg.confidence) (run before).currentConfindence = w) :
    IsWeights w ∧ (capped msg.confidence * w.1 + (run before).currentConfindence * w.2 = 1 ↔
      1 ≤ msg.confidence ∨ SimpleMixer.full before = true) := by
  obtain ⟨ha, ha', hone⟩ := capped_spec hpos
  subst hw
  rw [← hone, ← h.full]
  refine SimpleMixer.weights_spec ha ha' h.nonneg h.le_one ?_
  rintro ⟨hmsg, hmixer⟩
  exact absurd (h.full.mp hmixer) (ne_true_of_eq_false (hspaced (hone.mp hmsg)))

/-- A message without confidence is not accepted. -/
theorem run_rejected (before : List Event) {msg : Mixer} (hneg : msg.confidence ≤ 0) :
    run (before ++ [.input msg]) = run before := by
  have hcapped : capped msg.confidence ≤ 0 := by
    rw [capped, if_neg (by linarith)]
    exact hneg
  rw [run_concat, step, inputCallback]
  exact if_pos hcapped

/-- The update by a message that is accepted. -/
theorem run_accepted (before : List Event) {msg : Mixer} (hpos : 0 < msg.confidence) {w : ℚ × ℚ}
    (hw : weights (capped msg.confidence) (run before).currentConfindence = w) :
    run (before ++ [.input msg]) =
      ⟨msg.value * w.1 + (run before).currentValue * w.2,
        capped msg.confidence * w.1 + (run before).currentConfindence * w.2⟩ := by
  subst hw
  rw [run_concat, step, inputCallback]
  exact if_neg (not_le.mpr (capped_spec hpos).1)

/-- So does a message, unless it is the second one of confidence 1 in a round. -/
theorem Mixed.input (h : Mixed before) {msg : Mixer}
    (hspaced : 1 ≤ msg.confidence → SimpleMixer.full before = false) :
    Mixed (before ++ [.input msg]) := by
  have hmono := Set.insert_subset_insert (a := (0 : ℚ)) (accepted_mono before (.input msg))
  rcases le_or_gt msg.confidence 0 with hneg | hpos
  · have hrun := run_rejected before hneg
    refine ⟨by rw [hrun]; exact h.nonneg, by rw [hrun]; exact h.le_one, ?_, ?_⟩
    · rw [hrun, h.full, full_input, decide_eq_false (by linarith), Bool.or_false]
    · rw [hrun]
      exact convexHull_mono hmono h.value
  · obtain ⟨ha, ha', -⟩ := capped_spec hpos
    obtain ⟨hweights, hfull⟩ := h.weights_spec hpos hspaced rfl
    obtain ⟨hlow, hhigh⟩ := hweights.mean_mem ha.le ha' h.nonneg h.le_one
    have hrun := run_accepted before hpos rfl
    refine ⟨by rw [hrun]; exact hlow, by rw [hrun]; exact hhigh, ?_, ?_⟩
    · rw [hrun, full_input, Bool.or_eq_true, decide_eq_true_iff, hfull, or_comm]
    · -- The new value is a mean of the old one and of the value of the message.
      have hmsg : msg.value ∈ convexHull ℚ (insert 0 (accepted (before ++ [.input msg]))) :=
        subset_convexHull ℚ _ (.inr ⟨msg, List.mem_append_right _ (List.mem_singleton_self _), hpos,
          rfl⟩)
      have hmean := convex_convexHull ℚ _ hmsg (convexHull_mono hmono h.value)
        hweights.fst_nonneg hweights.snd_nonneg hweights.sum
      rw [hrun]
      rwa [smul_eq_mul, smul_eq_mul, mul_comm, mul_comm (_ : ℚ × ℚ).2] at hmean

/-! ## The run -/

theorem mixed_nil : Mixed [] :=
  ⟨le_refl 0, zero_le_one, iff_of_false zero_ne_one Bool.false_ne_true,
    subset_convexHull ℚ _ (Set.mem_insert 0 _)⟩

theorem Spaced.of_append {later : List Event} (h : Spaced (before ++ later)) : Spaced before :=
  fun earlier msg rest => (Log.forall_split_append.mp fun xs ys => h xs msg ys).1 earlier rest

theorem Blends.of_append {later : List Event} (h : Blends (before ++ later)) : Blends before where
  weights earlier msg rest :=
    (Log.forall_split_append.mp fun xs ys => h.weights xs msg ys).1 earlier rest
  confidence earlier rest heq :=
    h.confidence earlier (rest ++ later) (by rw [heq, List.append_assoc])
  value earlier rest heq := h.value earlier (rest ++ later) (by rw [heq, List.append_assoc])

/-- What holds of the mixer in a run with no two messages of confidence 1 in one round. -/
theorem mixed_of_spaced {events : List Event} (h : Spaced events) : Mixed events := by
  induction events using List.reverseRecOn with
  | nil => exact mixed_nil
  | append_singleton before e ih =>
    cases e with
    | round => exact (ih h.of_append).round
    | input msg => exact (ih h.of_append).input (h before msg [] rfl)

theorem spaced_of_blends {events : List Event} (h : Blends events) : Spaced events := by
  induction events using List.reverseRecOn with
  | nil => exact fun before msg later heq => absurd heq (by simp)
  | append_singleton before e ih =>
    have hspaced := ih h.of_append
    have hmixed := mixed_of_spaced hspaced
    refine fun earlier msg later => Log.forall_split_concat.mpr
      ⟨fun earlier later => hspaced earlier msg later, ?_⟩ earlier later
    rintro rfl hmsg
    -- A second message of confidence 1 would find the confidence 1 of the first one.
    by_contra hfull
    have hone := hmixed.full.mpr (eq_true_of_ne_false hfull)
    have hpos : 0 < msg.confidence := by linarith
    have hweights := h.weights before msg [] rfl hpos
    rw [hone, (capped_spec hpos).2.2.mpr hmsg] at hweights
    exact not_isWeights_one hweights

/-- A run blends exactly when no two messages of confidence 1 or more come in one round. -/
theorem blends_iff (events : List Event) : Blends events ↔ Spaced events := by
  refine ⟨spaced_of_blends, fun h => ⟨?_, ?_, ?_⟩⟩
  · rintro before msg later rfl hpos
    exact ((mixed_of_spaced h.of_append).weights_spec hpos (h before msg later rfl) rfl).1
  · rintro before later rfl
    have hmixed := mixed_of_spaced h.of_append
    exact ⟨hmixed.nonneg, hmixed.le_one⟩
  · rintro before later rfl
    exact (mixed_of_spaced h.of_append).value

/-- Two messages of confidence 1 in one round. -/
theorem twice_full_added : ¬(∀ events, Blends events) := by
  intro h
  have hconf := (h [.input ⟨1, 1⟩, .input ⟨1, 1⟩]).confidence _ [] (List.append_nil _).symm
  exact absurd hconf.2 (by decide +kernel)

end SimpleMixer

end Guillemot.Sim
