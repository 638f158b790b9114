import Guillemot.Tasks.BuoysTask

/-!
# Where `performTask` publishes nothing more

For each call of `ros::spinOnce`: whether what is left of `performTask` behind it publishes a motion
when no sample arrives any more, which is so while the task is disabled. Nearly everywhere it does,
since something is published further on in any case (`Place.Loud`). The exceptions are the ways out
of `performTask` (`Place.Silent`), and `places_performTask` says that there are no others.
-/

namespace Guillemot.Tasks

open Script

/-! ## Where nothing more is published -/

/-- A buoy is visible. -/
def Samples.Visible (σ : Samples) (buoy : BuoyColors) : Prop := 3 ≤ (σ.of buoy).length

instance (σ : Samples) (buoy : BuoyColors) : Decidable (σ.Visible buoy) :=
  inferInstanceAs (Decidable (_ ≤ _))

/-- The calls of `ros::spinOnce` behind which `performTask` publishes no motion: the second wait of
the last search for the red buoy, or of the one for the first buoy, when it is not visible, the
calls in which centering on the first buoy is about to fail, and the last one. -/
def Place.Silent (first : BuoyColors) (σ : Samples) : Place → Prop
  | .turningRight (.red rounds) => rounds = 0 ∧ ¬ σ.Visible .red
  | .turningRight .first => ¬ σ.Visible first
  | .centering .first isCentered retries =>
    isCentered = false ∧ (retries = 1 ∨ (σ.of first).length ≤ 1)
  | .diving => True
  | _ => False

/-- The samples that `performTask` leaves behind such a call. -/
def Place.after (σ : Samples) : Place → Samples
  | .centering _ _ _ => ⟨[], [], []⟩
  | _ => σ

/-- At a place, what is left of a task publishes nothing exactly when the place is silent, and then
leaves the samples as said. -/
def Placed (first : BuoyColors) (p : Place) (rest : Task Bool) : Prop :=
  ∀ σ, ((rest.alone σ).1 = [] ↔ p.Silent first σ) ∧
    (p.Silent first σ → (rest.alone σ).2.1 = p.after σ)

/-- A place where something is published later on and that is not silent. -/
theorem placed_of_publishes {first : BuoyColors} {p : Place} {rest : Task Bool}
    (hp : ∀ σ, ¬ p.Silent first σ) (hrest : ∀ σ, (rest.alone σ).1 ≠ []) : Placed first p rest :=
  fun σ => ⟨iff_of_false (hrest σ) (hp σ), fun h => absurd h (hp σ)⟩

/-- What publishes something later on, publishes something. -/
theorem alone_bind_ne_nil {α β : Type} {m : Task α} {f : α → Task β}
    (h : ∀ a σ, ((f a).alone σ).1 ≠ []) (σ : Samples) : ((m >>= f).alone σ).1 ≠ [] := by
  rw [alone_bind]
  exact List.append_ne_nil_of_right_ne_nil _ (h _ _)

@[simp]
theorem alone_isBuoyVisible (buoy : BuoyColors) (σ : Samples) :
    (isBuoyVisible buoy).alone σ = ([], σ, decide (σ.Visible buoy)) := rfl

@[simp]
theorem alone_spinOnce (place : Place) (σ : Samples) :
    (spinOnce place).alone σ = ([], σ, ()) := rfl

/-! ## Searching -/

@[simp]
theorem alone_waitForBuoy (place : Place) (buoy : BuoyColors) (retries : ℕ) (σ : Samples) :
    (waitForBuoy place buoy retries).alone σ = ([], σ, ()) := by
  induction retries with
  | zero => rfl
  | succ retries ih =>
    by_cases h : σ.Visible buoy
    · simp [waitForBuoy, h]
    · simp [waitForBuoy, h, ih]

theorem places_waitForBuoy (place : Place) (buoy : BuoyColors) (retries : ℕ) :
    AtPauses (fun p rest => p = place ∧ ∀ σ, rest.alone σ = ([], σ, ()))
      (waitForBuoy place buoy retries) := by
  induction retries with
  | zero => exact atPauses_pure ()
  | succ retries ih =>
    refine atPauses_bind (atPauses_gets _) fun visible => ?_
    split_ifs
    · exact atPauses_pure ()
    · exact atPauses_bind (atPauses_pauseAt ⟨rfl, fun σ => by simp⟩) fun _ => ih

/-- A search publishes, and leaves the samples. -/
theorem alone_searchBuoys (caller : Search) (buoy : BuoyColors) (σ : Samples) :
    ((searchBuoys caller buoy).alone σ).1 ≠ [] ∧
      ((searchBuoys caller buoy).alone σ).2.1 = σ := by
  by_cases h : σ.Visible buoy
  · simp [searchBuoys, h]
  · simp [searchBuoys, h]

/-- The first wait of a search goes on to publish, and so does the second one if the buoy is
visible. -/
theorem places_searchBuoys (caller : Search) (buoy : BuoyColors) :
    AtPauses (fun p rest =>
      (p = .turningLeft caller ∧ ∀ σ, (rest.alone σ).1 ≠ []) ∨
        (p = .turningRight caller ∧ ∀ σ, ((rest.alone σ).1 = [] ↔ ¬ σ.Visible buoy) ∧
          (rest.alone σ).2.1 = σ))
      (searchBuoys caller buoy) := by
  refine atPauses_bind (atPauses_publish _) fun _ => atPauses_bind ?_ fun _ =>
    atPauses_bind (atPauses_gets _) fun _ => ?_
  · refine (places_waitForBuoy _ buoy 50).mono fun p rest h => .inl ⟨h.1, fun σ => ?_⟩
    by_cases hvisible : σ.Visible buoy
    · simp [h.2, hvisible]
    · simp [h.2, hvisible]
  · split_ifs
    · exact atPauses_publish _
    · refine atPauses_bind (atPauses_publish _) fun _ => atPauses_bind ?_ fun _ =>
        atPauses_bind (atPauses_gets _) fun _ => ?_
      · refine (places_waitForBuoy _ buoy 75).mono fun p rest h => .inr ⟨h.1, fun σ => ?_⟩
        by_cases hvisible : σ.Visible buoy
        · simp [h.2, hvisible]
        · simp [h.2, hvisible]
      · split_ifs
        · exact atPauses_publish _
        · exact atPauses_pure ()

/-! ## Centering -/

/-- No samples at all. -/
def noSamples : Samples := ⟨[], [], []⟩

@[simp]
theorem noSamples_of (color : BuoyColors) : noSamples.of color = [] := by
  cases color <;> rfl

@[simp]
theorem alone_clearPastSamples (σ : Samples) : clearPastSamples.alone σ = ([], noSamples, ()) := rfl

theorem lastPoint_eq_none {samples : List BuoyData} :
    lastPoint samples = none ↔ samples.length ≤ 1 := by
  unfold lastPoint
  split_ifs with h
  · have hne : samples ≠ [] := by
      rintro rfl
      simp at h
    simp [List.getLast?_eq_some_getLast hne, h]
  · simpa using h

/-- A point that is sent is published. -/
theorem alone_sendCenter (x y : ℤ) (σ : Samples) :
    ((sendCenter (some (x, y))).alone σ).1 ≠ [] ∧
      ((sendCenter (some (x, y))).alone σ).2.1 = σ := by
  unfold sendCenter
  constructor
  · simp
  · simp only [alone_bind, alone_publish]
    split_ifs <;> rfl

@[simp]
theorem alone_sendCenter_none (σ : Samples) : (sendCenter none).alone σ = ([], σ, false) := rfl

theorem places_sendCenter (Q : Place → Task Bool → Prop) (point : Option (ℤ × ℤ)) :
    AtPauses Q (sendCenter point) := by
  rcases point with _ | ⟨x, y⟩
  · exact atPauses_pure _
  · refine atPauses_bind (atPauses_publish _) fun _ => ?_
    split_ifs
    · exact atPauses_bind (atPauses_publish _) fun _ => atPauses_pure _
    · exact atPauses_pure _

theorem alone_centerLoop_true (caller : Centering) (color : BuoyColors) (retries : ℕ)
    (σ : Samples) : (centerLoop caller color retries true).alone σ = ([], σ, true) := by
  cases retries <;> rfl

/-- While a buoy is not centered, its samples are sent if there is more than one. -/
theorem alone_centerLoop_false (caller : Centering) (color : BuoyColors) (retries : ℕ)
    (σ : Samples) :
    ((centerLoop caller color retries false).alone σ).2.1 = σ ∧
      (retries = 0 ∨ (σ.of color).length ≤ 1 →
        (centerLoop caller color retries false).alone σ = ([], σ, false)) ∧
      (retries ≠ 0 → 1 < (σ.of color).length →
        ((centerLoop caller color retries false).alone σ).1 ≠ []) := by
  induction retries with
  | zero => exact ⟨rfl, fun _ => rfl, fun h => absurd rfl h⟩
  | succ retries ih =>
    obtain ⟨hstate, hquiet, -⟩ := ih
    unfold centerLoop
    simp only [alone_bind, alone_gets, alone_spinOnce, List.nil_append]
    rcases hpoint : lastPoint (σ.of color) with _ | ⟨x, y⟩
    · have hlen := lastPoint_eq_none.mp hpoint
      simp only [alone_sendCenter_none, hquiet (.inr hlen)]
      exact ⟨trivial, fun _ => rfl, fun _ h => by omega⟩
    · have hlen : ¬ (σ.of color).length ≤ 1 := by
        rw [← lastPoint_eq_none, hpoint]
        simp
      obtain ⟨hsent, hsame⟩ := alone_sendCenter x y σ
      simp only [hsame]
      refine ⟨?_, ?_, fun _ _ => List.append_ne_nil_of_left_ne_nil hsent _⟩
      · cases ((sendCenter (some (x, y))).alone σ).2.2 with
        | true => rw [alone_centerLoop_true]
        | false => exact hstate
      · rintro (h | h)
        · cases h
        · exact absurd h hlen

/-- A call of `ros::spinOnce` in `centerOnBuoy`: what is left publishes nothing if the buoy is
centered, or there is no retry or no second sample; then it returns whether the buoy is centered. -/
def Centers (caller : Centering) (color : BuoyColors) (p : Place) (rest : Task Bool) : Prop :=
  ∃ isCentered retries, p = .centering caller isCentered (retries + 1) ∧
    ∀ σ, (rest.alone σ).2.1 = noSamples ∧
      ((rest.alone σ).1 = [] ↔
        isCentered = true ∨ retries = 0 ∨ (σ.of color).length ≤ 1) ∧
      ((rest.alone σ).1 = [] → (rest.alone σ).2.2 = isCentered)

theorem places_centerLoop (caller : Centering) (color : BuoyColors) (retries : ℕ)
    (isCentered : Bool) :
    AtPauses (fun p rest => ∃ b n, p = .centering caller b (n + 1) ∧
      ∀ σ, rest.alone σ = (centerLoop caller color n b).alone σ)
      (centerLoop caller color retries isCentered) := by
  induction retries generalizing isCentered with
  | zero => exact atPauses_pure _
  | succ retries ih =>
    cases isCentered with
    | true => exact atPauses_pure _
    | false =>
      exact atPauses_bind (atPauses_gets _) fun _ => atPauses_bind (places_sendCenter _ _) fun b =>
        atPauses_bind (atPauses_pauseAt ⟨b, retries, rfl, fun σ => by simp⟩) fun _ => ih b

theorem places_centerOnBuoy (caller : Centering) (color : BuoyColors) :
    AtPauses (Centers caller color) (centerOnBuoy caller color) := by
  refine atPauses_bind ?_ fun _ => atPauses_bind (atPauses_update _) fun _ => atPauses_pure _
  refine (places_centerLoop caller color 25 false).mono ?_
  rintro p rest ⟨b, n, rfl, hrest⟩
  refine ⟨b, n, rfl, fun σ => ?_⟩
  simp only [alone_bind, hrest, alone_clearPastSamples, alone_pure, List.append_nil]
  refine ⟨trivial, ?_⟩
  cases b with
  | true => simp [alone_centerLoop_true]
  | false =>
    obtain ⟨-, hquiet, hsends⟩ := alone_centerLoop_false caller color n σ
    by_cases h : n = 0 ∨ (σ.of color).length ≤ 1
    · simp [hquiet h, h]
    · push Not at h
      have hne := hsends h.1 h.2
      exact ⟨iff_of_false hne (by simp; omega), fun heq => absurd heq hne⟩

/-- Centering on a buoy with more than one sample publishes, and leaves no samples. -/
theorem alone_centerOnBuoy (caller : Centering) (color : BuoyColors) (σ : Samples) :
    ((centerOnBuoy caller color).alone σ).2.1 = noSamples ∧
      (1 < (σ.of color).length → ((centerOnBuoy caller color).alone σ).1 ≠ []) := by
  unfold centerOnBuoy
  simp only [alone_bind, alone_clearPastSamples, alone_pure, List.append_nil]
  exact ⟨trivial, (alone_centerLoop_false caller color 25 σ).2.2 (by omega)⟩

theorem alone_centerToBump_of_not_visible (caller : Centering) {color : BuoyColors} (retries : ℕ)
    {σ : Samples} (h : ¬ σ.Visible color) :
    (centerToBump caller color retries).alone σ = ([], σ, false) := by
  cases retries with
  | zero => rfl
  | succ retries => simp [centerToBump, h]

/-- Once it is not centered, a buoy is not visible any more: one attempt is all. -/
theorem places_centerToBump (caller : Centering) (color : BuoyColors) (retries : ℕ) :
    AtPauses (Centers caller color) (centerToBump caller color retries) := by
  have hgone : ¬ noSamples.Visible color := by simp [Samples.Visible]
  induction retries with
  | zero => exact atPauses_pure _
  | succ retries ih =>
    refine atPauses_bind (atPauses_gets _) fun _ => ?_
    split_ifs
    swap
    · exact atPauses_pure _
    refine atPauses_bind ((places_centerOnBuoy caller color).mono ?_) fun isCentered => ?_
    · rintro p rest ⟨b, n, rfl, hrest⟩
      refine ⟨b, n, rfl, fun σ => ?_⟩
      obtain ⟨hstate, hquiet, hvalue⟩ := hrest σ
      simp only [alone_bind, hstate]
      cases hcentered : (rest.alone σ).2.2 with
      | true =>
        rw [hcentered] at hvalue
        simpa using ⟨hquiet, fun hnil => (hvalue hnil).symm⟩
      | false =>
        rw [hcentered] at hvalue
        simpa [alone_centerToBump_of_not_visible caller retries hgone] using
          ⟨hquiet, fun hnil => (hvalue hnil).symm⟩
    · split_ifs
      · exact atPauses_pure _
      · exact ih

/-! ## Bumping -/

/-- A place that is never silent. -/
def Place.Loud (p : Place) : Prop := ∀ first σ, ¬ p.Silent first σ

/-- A part of a task with something to publish behind it. -/
theorem placed_of_loud {first : BuoyColors} {α : Type} {m : Task α} {f : α → Task Bool}
    (hm : AtPauses (fun p _ => p.Loud) m) (hf : ∀ a σ, ((f a).alone σ).1 ≠ []) :
    AtPauses (fun p rest => Placed first p (rest >>= f)) m :=
  hm.mono fun _ _ hloud => placed_of_publishes (hloud first) (alone_bind_ne_nil hf)

theorem loud_of_centers {caller : Centering} (hcaller : caller ≠ .first) {color : BuoyColors}
    {p : Place} {rest : Task Bool} (h : Centers caller color p rest) : p.Loud := by
  obtain ⟨b, n, rfl, -⟩ := h
  cases caller with
  | first => exact absurd rfl hcaller
  | approach | second | bump => exact fun _ _ => id

theorem places_bumpBuoy (color : BuoyColors) :
    AtPauses (fun p _ => p.Loud) (bumpBuoy color) := by
  have hloop : ∀ rounds, AtPauses (fun p _ => p.Loud) (bumpLoop color rounds) := by
    intro rounds
    induction rounds with
    | zero => exact atPauses_pure ()
    | succ rounds ih =>
      have hspin : AtPauses (fun p _ => p.Loud) (do
          spinOnce .bumping
          bumpLoop color rounds) :=
        atPauses_bind (atPauses_pauseAt fun _ _ => id) fun _ => ih
      refine atPauses_bind (atPauses_publish _) fun _ => ?_
      split_ifs
      · exact atPauses_bind ((places_centerOnBuoy .bump color).mono fun p rest h =>
          loud_of_centers (by decide) h) fun _ => hspin
      · exact hspin
  exact atPauses_bind (hloop 50) fun _ => atPauses_publish _

theorem places_backOff (rounds : ℕ) : AtPauses (fun p _ => p.Loud) (backOff rounds) := by
  induction rounds with
  | zero => exact atPauses_pure ()
  | succ rounds ih =>
    exact atPauses_bind (atPauses_publish _) fun _ =>
      atPauses_bind (atPauses_pauseAt fun _ _ => id) fun _ => ih

theorem places_moveAndSpin {Q : Place → Task Unit → Prop} (motion : Motion) {place : Place}
    (h : Q place (pure ())) : AtPauses Q (moveAndSpin motion place) :=
  atPauses_bind (atPauses_publish _) fun _ => atPauses_pauseAt h

theorem places_bumpOrPass (second : BuoyColors) :
    AtPauses (fun p _ => p.Loud) (bumpOrPass second) := by
  refine atPauses_bind ((places_centerToBump .second second 20).mono fun p rest h =>
    loud_of_centers (by decide) h) fun _ => ?_
  split_ifs
  · exact atPauses_bind (places_bumpBuoy second) fun _ => atPauses_bind (atPauses_update _) fun _ =>
      atPauses_bind (places_moveAndSpin _ fun _ _ => id) fun _ => atPauses_pure _
  · exact atPauses_bind (places_moveAndSpin _ fun _ _ => id) fun _ => atPauses_pure _

theorem places_bumpSecond (second : BuoyColors) :
    AtPauses (fun p _ => p.Loud) (bumpSecond second) := by
  refine atPauses_bind (atPauses_update _) fun _ => atPauses_bind (places_backOff 75) fun _ =>
    atPauses_bind (atPauses_gets _) fun _ => ?_
  split_ifs
  · exact places_bumpOrPass second
  · refine atPauses_bind ((places_searchBuoys .second second).mono fun p rest h => ?_) fun _ =>
      places_bumpOrPass second
    obtain ⟨rfl, -⟩ | ⟨rfl, -⟩ := h <;> exact fun _ _ => id

@[simp]
theorem alone_moveAndSpin (motion : Motion) (place : Place) (σ : Samples) :
    (moveAndSpin motion place).alone σ = ([motion], σ, ()) := rfl

/-- When the first buoy is centered, only the last call of `ros::spinOnce` is silent. -/
theorem places_bumpBoth (first second : BuoyColors) :
    AtPauses (Placed first) (bumpBoth first second) := by
  refine atPauses_bind (placed_of_loud (places_bumpBuoy first) fun _ σ => by simp) fun _ =>
    atPauses_bind (placed_of_loud (places_bumpSecond second) fun _ σ => by simp) fun _ =>
    atPauses_bind (placed_of_loud (places_moveAndSpin _ fun _ _ => id) fun _ σ => by simp) fun _ =>
    atPauses_bind (placed_of_loud (places_moveAndSpin _ fun _ _ => id) fun _ σ => by simp) fun _ =>
    atPauses_bind (places_moveAndSpin _ fun σ => ?_) fun _ => atPauses_pure _
  simp [Place.Silent, Place.after]

theorem alone_bumpBoth (first second : BuoyColors) (σ : Samples) :
    ((bumpBoth first second).alone σ).1 ≠ [] := by
  simp [bumpBoth, bumpBuoy]

/-! ## The whole task -/

/-- In centering on the first buoy, the calls in which it fails are silent. -/
theorem places_bumpOrGiveUp (first second : BuoyColors) :
    AtPauses (Placed first) (bumpOrGiveUp first second) := by
  refine atPauses_bind ((places_centerToBump .first first 20).mono ?_) fun _ => ?_
  swap
  · split_ifs
    · exact places_bumpBoth first second
    · exact atPauses_pure _
  rintro p rest ⟨b, n, rfl, hrest⟩ σ
  obtain ⟨hstate, hquiet, hvalue⟩ := hrest σ
  by_cases hnil : (rest.alone σ).1 = []
  · simp only [alone_bind, hnil, hstate, hvalue hnil, List.nil_append]
    cases b with
    | true => simp [Place.Silent, alone_bumpBoth]
    | false =>
      have hfails : n = 0 ∨ (σ.of first).length ≤ 1 := by simpa using hquiet.mp hnil
      simpa [Place.Silent, Place.after, noSamples] using hfails
  · have hloud : ¬ (Place.centering .first b (n + 1)).Silent first σ := by
      rintro ⟨rfl, hfails⟩
      exact hnil (hquiet.mpr (.inr (by simpa using hfails)))
    refine ⟨iff_of_false ?_ hloud, fun h => absurd h hloud⟩
    rw [alone_bind]
    exact List.append_ne_nil_of_left_ne_nil hnil _

theorem alone_bumpOrGiveUp_of_not_visible {first : BuoyColors} (second : BuoyColors) {σ : Samples}
    (h : ¬ σ.Visible first) : (bumpOrGiveUp first second).alone σ = ([], σ, false) := by
  simp [bumpOrGiveUp, alone_centerToBump_of_not_visible .first 20 h]

theorem alone_centerToBump_of_visible (caller : Centering) {color : BuoyColors} (retries : ℕ)
    {σ : Samples} (h : σ.Visible color) :
    ((centerToBump caller color (retries + 1)).alone σ).1 ≠ [] := by
  have hlen : 1 < (σ.of color).length := lt_of_lt_of_le (by decide) h
  have hcenter := (alone_centerOnBuoy caller color σ).2 hlen
  simp [centerToBump, h, hcenter]

theorem alone_bumpFirst (first second : BuoyColors) (σ : Samples) :
    ((bumpFirst first second).alone σ).1 ≠ [] := by
  by_cases h : σ.Visible first
  · have hcenter := alone_centerToBump_of_visible .first 19 h
    simp [bumpFirst, bumpOrGiveUp, h, hcenter]
  · have hsearch := (alone_searchBuoys .first first σ).1
    simp [bumpFirst, h, hsearch]

theorem places_bumpFirst (first second : BuoyColors) :
    AtPauses (Placed first) (bumpFirst first second) := by
  refine atPauses_bind (atPauses_gets _) fun _ => ?_
  split_ifs
  · exact places_bumpOrGiveUp first second
  · refine atPauses_bind ((places_searchBuoys .first first).mono ?_) fun _ =>
      places_bumpOrGiveUp first second
    rintro p rest (⟨rfl, hrest⟩ | ⟨rfl, hrest⟩)
    · refine placed_of_publishes (fun _ => id) fun σ => ?_
      rw [alone_bind]
      exact List.append_ne_nil_of_left_ne_nil (hrest σ) _
    · intro σ
      obtain ⟨hquiet, hstate⟩ := hrest σ
      by_cases hvisible : σ.Visible first
      · have hne : (rest.alone σ).1 ≠ [] := fun hnil => hquiet.mp hnil hvisible
        simp [Place.Silent, hvisible, hne]
      · have hnil := hquiet.mpr hvisible
        have hrest := alone_bumpOrGiveUp_of_not_visible second hvisible
        simp [Place.Silent, Place.after, hvisible, hnil, hstate, hrest]

theorem alone_bumpBuoys (c : Setup) (σ : Samples) :
    ((bumpBuoys c.tan c.m_firstToBump c.m_secondToBump).alone σ).1 ≠ [] := by
  simp [bumpBuoys]

theorem places_approach (tan : ℚ → ℚ) (retries : ℕ) (distanceToRed : ℚ) :
    AtPauses (fun p _ => p.Loud) (approach tan retries distanceToRed) := by
  induction retries generalizing distanceToRed with
  | zero => exact atPauses_pure ()
  | succ retries ih =>
    unfold approach
    split_ifs
    · exact atPauses_bind ((places_centerOnBuoy .approach .red).mono fun p rest h =>
        loud_of_centers (by decide) h) fun _ =>
          atPauses_bind (atPauses_pauseAt fun _ _ => id) fun _ =>
            atPauses_bind (atPauses_gets _) fun distance => ih distance
    · exact atPauses_pure ()

theorem places_letMessagesIn (retries : ℕ) :
    AtPauses (fun p _ => p.Loud) (letMessagesIn retries) := by
  induction retries with
  | zero => exact atPauses_pure ()
  | succ retries ih => exact atPauses_bind (atPauses_pauseAt fun _ _ => id) fun _ => ih

theorem places_bumpBuoys (c : Setup) :
    AtPauses (Placed c.m_firstToBump) (bumpBuoys c.tan c.m_firstToBump c.m_secondToBump) := by
  refine atPauses_bind (atPauses_update _) fun _ => atPauses_bind (atPauses_gets _) fun distance =>
    atPauses_bind (atPauses_publish _) fun _ =>
    atPauses_bind (placed_of_loud (places_approach _ 40 distance) fun _ σ => ?_) fun _ =>
    atPauses_bind (atPauses_publish _) fun _ =>
    atPauses_bind (placed_of_loud (places_letMessagesIn 10) fun _ σ => ?_) fun _ =>
    places_bumpFirst _ _
  · simp
  · exact alone_bumpFirst _ _ σ

/-- Driving forward leaves the samples, and publishes unless the red buoy is visible. -/
theorem alone_driveForward (retries : ℕ) (σ : Samples) :
    ((driveForward retries).alone σ).2.1 = σ ∧
      (¬ σ.Visible .red → retries ≠ 0 → ((driveForward retries).alone σ).1 ≠ []) := by
  induction retries with
  | zero => exact ⟨rfl, fun _ h => absurd rfl h⟩
  | succ retries ih =>
    by_cases h : σ.Visible .red
    · simp [driveForward, h]
    · simp [driveForward, h, ih.1]

/-- The search for the red buoy leaves the samples, and publishes unless there is no round left or
the buoy is visible. -/
theorem alone_searchRed (rounds : ℕ) (σ : Samples) :
    ((searchRed rounds).alone σ).2.1 = σ ∧
      (¬ σ.Visible .red → (((searchRed rounds).alone σ).1 = [] ↔ rounds = 0)) := by
  induction rounds with
  | zero => exact ⟨rfl, fun _ => iff_of_true rfl rfl⟩
  | succ rounds ih =>
    obtain ⟨hdrive, hpublishes⟩ := alone_driveForward 30 σ
    obtain ⟨-, hsearch⟩ := alone_searchBuoys (.red rounds) .red σ
    by_cases h : σ.Visible .red
    · simp [searchRed, h]
    · simp [searchRed, h, hdrive, hsearch, ih.1, hpublishes h]

/-- What is left behind the search for the red buoy. -/
def afterSearch (c : Setup) : Task Bool := do
  if ← isBuoyVisible .red then bumpBuoys c.tan c.m_firstToBump c.m_secondToBump else pure false

theorem alone_afterSearch_of_visible (c : Setup) {σ : Samples} (h : σ.Visible .red) :
    ((afterSearch c).alone σ).1 ≠ [] := by
  simp [afterSearch, h, alone_bumpBuoys]

theorem alone_afterSearch_of_not_visible (c : Setup) {σ : Samples} (h : ¬ σ.Visible .red) :
    (afterSearch c).alone σ = ([], σ, false) := by
  simp [afterSearch, h]

theorem places_driveForward (retries : ℕ) :
    AtPauses (fun p rest => p = .driving ∧ ∀ σ, (rest.alone σ).2.1 = σ) (driveForward retries) := by
  induction retries with
  | zero => exact atPauses_pure ()
  | succ retries ih =>
    refine atPauses_bind (atPauses_gets _) fun _ => ?_
    split_ifs
    · exact atPauses_pure ()
    · refine atPauses_bind (atPauses_publish _) fun _ =>
        atPauses_bind (atPauses_pauseAt ⟨rfl, fun σ => ?_⟩) fun _ => ih
      simp [(alone_driveForward retries σ).1]

/-- Driving forward is never silent: either the round goes on to search, or the buoy is found. -/
theorem placed_driving (c : Setup) {first : BuoyColors} {rest round : Task Unit}
    (hrest : ∀ σ, (rest.alone σ).2.1 = σ) (hstate : ∀ σ, (round.alone σ).2.1 = σ)
    (hround : ∀ σ : Samples, ¬ σ.Visible .red → (round.alone σ).1 ≠ []) :
    Placed first .driving ((rest >>= fun _ => round) >>= fun _ => afterSearch c) := by
  refine placed_of_publishes (fun _ => id) fun σ => ?_
  by_cases h : σ.Visible .red
  · simp [hrest, hstate, alone_afterSearch_of_visible c h]
  · simp [hrest, hround σ h]

/-- The wait to the right is silent only in the last round, when the buoy is not visible. -/
theorem placed_turningRight (c : Setup) {first : BuoyColors} {rest : Task Unit} (rounds : ℕ)
    (hrest : ∀ σ : Samples, ((rest.alone σ).1 = [] ↔ ¬ σ.Visible .red) ∧ (rest.alone σ).2.1 = σ) :
    Placed first (.turningRight (.red rounds))
      ((rest >>= fun _ => searchRed rounds) >>= fun _ => afterSearch c) := by
  intro σ
  obtain ⟨hquiet, hstate⟩ := hrest σ
  obtain ⟨hsame, hsearch⟩ := alone_searchRed rounds σ
  by_cases h : σ.Visible .red
  · have hne : (rest.alone σ).1 ≠ [] := fun hnil => hquiet.mp hnil h
    simp [Place.Silent, h, hne]
  · have hnil := hquiet.mpr h
    simp [Place.Silent, Place.after, h, hnil, hstate, hsame, hsearch h,
      alone_afterSearch_of_not_visible c h]

/-- The search for the red buoy is silent only in the last wait of its last round. -/
theorem places_searchRed (c : Setup) (rounds : ℕ) :
    AtPauses (fun p rest => Placed c.m_firstToBump p (rest >>= fun _ => afterSearch c))
      (searchRed rounds) := by
  induction rounds with
  | zero => exact atPauses_pure ()
  | succ rounds ih =>
    refine atPauses_bind (atPauses_gets _) fun _ => ?_
    split_ifs
    · exact atPauses_pure ()
    refine atPauses_bind ((places_driveForward 30).mono ?_) fun _ =>
      atPauses_bind (atPauses_gets _) fun _ => ?_
    · rintro p rest ⟨rfl, hrest⟩
      refine placed_driving c hrest (fun σ => ?_) fun σ h => ?_
      · by_cases h : σ.Visible .red
        · simp [h, (alone_searchRed rounds σ).1]
        · simp [h, (alone_searchBuoys (.red rounds) .red σ).2, (alone_searchRed rounds σ).1]
      · simp [h, (alone_searchBuoys (.red rounds) .red σ).1]
    · split_ifs
      · exact ih
      · refine atPauses_bind ((places_searchBuoys (.red rounds) .red).mono ?_) fun _ => ih
        rintro p rest (⟨rfl, hrest⟩ | ⟨rfl, hrest⟩)
        · refine placed_of_publishes (fun _ => id) fun σ => ?_
          simp [hrest σ]
        · exact placed_turningRight c rounds hrest

theorem places_performTask (c : Setup) : AtPauses (Placed c.m_firstToBump) c.performTask := by
  refine atPauses_bind (places_searchRed c 10) fun _ => atPauses_bind (atPauses_gets _) fun _ => ?_
  split_ifs
  · exact places_bumpBuoys c
  · exact atPauses_pure _

end Guillemot.Tasks
