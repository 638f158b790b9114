import Mathlib.Data.List.Basic
import Mathlib.Data.Nat.Notation
import Mathlib.Tactic.Linarith
import Mathlib.Tactic.SplitIfs

/-!
# Tracks of blobs

A blob that is passed to `trackBlob` falls to the first track of its type that it is close enough
to, whose lifetime goes up by one, and is reported once the lifetime is at least three; a blob that
falls to none begins a track. `updateBlobTracking` ends a frame, and drops the tracks that have not
been seen for long.

The lifetime counts blobs, and nothing keeps two blobs of a frame from falling to one track. What
`reported_after_frames` says of the frames of a type is true of the runs in which none do (`Fresh`):
a track has been seen in more frames than its lifetime, the frame it began in being one of them.
Which blobs are close to which tracks is a parameter there, since the code computes distances in
single precision.
-/

namespace Guillemot.Vision

/-! ## The tracker -/

/-- `FRAME_MARGIN_OF_ERROR`. -/
def frameMargin : ℕ := 3

/-- `TRACKING_MOVEMENT_TOLERANCE`. -/
def movementTolerance : ℤ := 200000

/-- What tracking reads of the analysis of a blob. -/
structure BlobAnalysis where
  centerX : ℤ
  centerY : ℤ
deriving DecidableEq, Repr

/-- A blob that has been seen before. -/
structure BlobTrack where
  x : ℤ
  y : ℤ
  lifetime : ℕ
  lastSeen : ℤ
  objType : ℤ
deriving DecidableEq, Repr

/-- A new track. -/
def BlobTrack.new (analysis : BlobAnalysis) (lastSeen objType : ℤ) : BlobTrack :=
  { x := analysis.centerX, y := analysis.centerY, lifetime := 0, lastSeen, objType }

/-- The track has been seen again. -/
def BlobTrack.see (track : BlobTrack) (analysis : BlobAnalysis) (curFrame : ℤ) : BlobTrack :=
  { track with
    x := analysis.centerX
    y := analysis.centerY
    lastSeen := curFrame
    lifetime := track.lifetime + 1 }

/-- The blob is within the tolerance of the track, by exact distances. -/
def inCircle (analysis : BlobAnalysis) (track : BlobTrack) : Bool :=
  let deltaX := analysis.centerX - track.x
  let deltaY := analysis.centerY - track.y
  deltaX * deltaX + deltaY * deltaY ≤ movementTolerance * movementTolerance

/-- The tracks, and the number of the frame. -/
structure Tracker where
  trackBlobs : List BlobTrack
  curFrame : ℤ
deriving DecidableEq, Repr

/-- No tracks, before the first frame. -/
def Tracker.init : Tracker := ⟨[], 0⟩

section

variable (near : BlobAnalysis → BlobTrack → Bool)

/-- The tracks after a blob of a type has fallen to the first that it matches, and whether it is
reported; `none` if it matches no track. -/
def seeFirst (curFrame : ℤ) (analysis : BlobAnalysis) (type : ℤ) :
    List BlobTrack → Option (List BlobTrack × Bool)
  | [] => none
  | track :: tracks =>
    if type = track.objType ∧ near analysis track = true then
      let seen := track.see analysis curFrame
      some (seen :: tracks, decide (frameMargin ≤ seen.lifetime))
    else
      (seeFirst curFrame analysis type tracks).map fun (rest, found) => (track :: rest, found)

/-- A blob is passed to the tracker. -/
def Tracker.trackBlob (s : Tracker) (analysis : BlobAnalysis) (type : ℤ) : Tracker × Bool :=
  match seeFirst near s.curFrame analysis type s.trackBlobs with
  | some (tracks, found) => ({ s with trackBlobs := tracks }, found)
  | none =>
    ({ s with trackBlobs := s.trackBlobs ++ [BlobTrack.new analysis s.curFrame type] }, false)

/-- A frame ends. -/
def Tracker.updateBlobTracking (s : Tracker) : Tracker where
  trackBlobs := s.trackBlobs.filter fun track => ¬ track.lastSeen < s.curFrame - frameMargin
  curFrame := s.curFrame + 1

/-- The track that a blob of a type falls to. -/
def Tracker.matched (s : Tracker) (analysis : BlobAnalysis) (type : ℤ) : Option BlobTrack :=
  s.trackBlobs.find? fun track => decide (type = track.objType) && near analysis track

/-- The blob does not fall to a track that another blob of the frame has fallen to. -/
def Fresh (s : Tracker) (analysis : BlobAnalysis) (type : ℤ) : Prop :=
  ∀ track ∈ s.matched near analysis type, track.lastSeen ≠ s.curFrame

instance (s : Tracker) (analysis : BlobAnalysis) (type : ℤ) :
    Decidable (Fresh near s analysis type) :=
  inferInstanceAs (Decidable (∀ track ∈ s.matched near analysis type, _))

/-- The blobs of a frame, with their types. -/
abbrev Frame := List (BlobAnalysis × ℤ)

/-- A tracker is reached by frames that have ended, and the blobs of the current one so far. All of
the blobs met the guard when they were passed. -/
inductive Run (guard : Tracker → BlobAnalysis → ℤ → Prop) : List Frame → Frame → Tracker → Prop
  | start : Run guard [] [] .init
  | blob {frames now s} (analysis type) : Run guard frames now s → guard s analysis type →
      Run guard frames (now ++ [(analysis, type)]) (s.trackBlob near analysis type).1
  | update {frames now s} : Run guard frames now s →
      Run guard (frames ++ [now]) [] s.updateBlobTracking

end

/-- The number of frames that have a blob of a type. -/
def seenIn (type : ℤ) (frames : List Frame) : ℕ :=
  frames.countP fun frame => frame.any fun blob => blob.2 = type

/-! ## Frames of a type -/

section Frames

variable {type : ℤ} {frames : List Frame} {now : Frame}

/-- The last frame counts if it has a blob of the type. -/
theorem seenIn_concat (type : ℤ) (frames : List Frame) (frame : Frame) :
    seenIn type (frames ++ [frame]) =
      seenIn type frames + if frame.any fun blob => blob.2 = type then 1 else 0 := by
  rw [seenIn, List.countP_append, List.countP_singleton]
  rfl

/-- The frames before are among them. -/
theorem seenIn_le (type : ℤ) (frames : List Frame) (frame : Frame) :
    seenIn type frames ≤ seenIn type (frames ++ [frame]) := by
  rw [seenIn_concat]
  exact Nat.le_add_right _ _

/-- A further blob takes no frame away. -/
theorem seenIn_le_blob (type : ℤ) (frames : List Frame) (now : Frame) (blob : BlobAnalysis × ℤ) :
    seenIn type (frames ++ [now]) ≤ seenIn type (frames ++ [now ++ [blob]]) := by
  rw [seenIn_concat, seenIn_concat, List.any_append]
  cases now.any fun blob => blob.2 = type <;> simp

/-- A frame with a blob of the type. -/
theorem seenIn_blob (analysis : BlobAnalysis) (type : ℤ) (frames : List Frame) (now : Frame) :
    seenIn type (frames ++ [now ++ [(analysis, type)]]) = seenIn type frames + 1 := by
  rw [seenIn_concat, List.any_append]
  simp

end Frames

/-! ## One call -/

section Calls

variable {near : BlobAnalysis → BlobTrack → Bool} {s : Tracker} {analysis : BlobAnalysis} {type : ℤ}

/-- A blob that falls to a track changes this one only. -/
theorem seeFirst_eq_some {curFrame : ℤ} {tracks rest : List BlobTrack} {found : Bool}
    (h : seeFirst near curFrame analysis type tracks = some (rest, found)) :
    ∃ before track behind, tracks = before ++ track :: behind ∧
      rest = before ++ track.see analysis curFrame :: behind ∧
      found = decide (frameMargin ≤ track.lifetime + 1) ∧ track.objType = type ∧
      tracks.find? (fun track => decide (type = track.objType) && near analysis track) =
        some track := by
  induction tracks generalizing rest with
  | nil => cases h
  | cons track tracks ih =>
    rw [seeFirst] at h
    split_ifs at h with hmatch
    · obtain ⟨rfl, rfl⟩ := Prod.mk.inj (Option.some.inj h)
      exact ⟨[], track, tracks, rfl, rfl, rfl, hmatch.1.symm, by simp [hmatch]⟩
    · obtain ⟨⟨tail, found'⟩, htail, heq⟩ := Option.map_eq_some_iff.mp h
      obtain ⟨rfl, rfl⟩ := Prod.mk.inj heq
      obtain ⟨before, other, behind, rfl, rfl, hfound, htype, hfind⟩ := ih htail
      refine ⟨track :: before, other, behind, rfl, rfl, hfound, htype, ?_⟩
      rw [List.find?_cons_of_neg, hfind]
      simpa using hmatch

/-- A blob falls to a track, or begins one and is not reported. -/
theorem trackBlob_cases (near : BlobAnalysis → BlobTrack → Bool) (s : Tracker)
    (analysis : BlobAnalysis) (type : ℤ) :
    (∃ before track behind, s.trackBlobs = before ++ track :: behind ∧
      s.matched near analysis type = some track ∧ track.objType = type ∧
      s.trackBlob near analysis type =
        ({ s with trackBlobs := before ++ track.see analysis s.curFrame :: behind },
          decide (frameMargin ≤ track.lifetime + 1))) ∨
    s.trackBlob near analysis type =
      ({ s with trackBlobs := s.trackBlobs ++ [.new analysis s.curFrame type] }, false) := by
  rw [Tracker.trackBlob]
  cases hsee : seeFirst near s.curFrame analysis type s.trackBlobs with
  | none => exact .inr rfl
  | some seen =>
    obtain ⟨before, track, behind, htracks, hrest, hfound, htype, hfind⟩ := seeFirst_eq_some hsee
    exact .inl ⟨before, track, behind, htracks, hfind, htype, by rw [← hrest, ← hfound]⟩

end Calls

/-! ## Runs -/

section Runs

variable {near : BlobAnalysis → BlobTrack → Bool} {s : Tracker} {frames : List Frame} {now : Frame}
variable {track : BlobTrack} {analysis : BlobAnalysis} {type : ℤ}

/-- A track has been seen in more frames than its lifetime, up to the one it was last seen in. -/
structure Counted (frames : List Frame) (now : Frame) (track : BlobTrack) : Prop where
  lastSeen_le : track.lastSeen ≤ frames.length
  before : track.lastSeen < frames.length → track.lifetime < seenIn track.objType frames
  now : track.lastSeen = frames.length → track.lifetime < seenIn track.objType (frames ++ [now])

/-- In any case there are more frames up to the current one. -/
theorem Counted.lifetime_lt (h : Counted frames now track) :
    track.lifetime < seenIn track.objType (frames ++ [now]) := by
  rcases h.lastSeen_le.lt_or_eq with hlt | heq
  · exact (h.before hlt).trans_le (seenIn_le _ _ _)
  · exact h.now heq

/-- A blob that falls to another track. -/
theorem Counted.blob (h : Counted frames now track) (blob : BlobAnalysis × ℤ) :
    Counted frames (now ++ [blob]) track :=
  ⟨h.lastSeen_le, h.before, fun heq => (h.now heq).trans_le (seenIn_le_blob _ _ _ _)⟩

/-- The end of a frame. -/
theorem Counted.update (h : Counted frames now track) : Counted (frames ++ [now]) [] track := by
  have hlt : track.lastSeen < (frames ++ [now]).length := by
    rw [List.length_append, List.length_singleton]
    push_cast
    linarith [h.lastSeen_le]
  exact ⟨hlt.le, fun _ => h.lifetime_lt, fun heq => absurd heq hlt.ne⟩

/-- A blob that falls to the track, the first one to do so in the frame. -/
theorem Counted.see (h : Counted frames now track) (hfresh : track.lastSeen ≠ frames.length)
    (analysis : BlobAnalysis) :
    Counted frames (now ++ [(analysis, track.objType)]) (track.see analysis frames.length) := by
  refine ⟨le_refl _, fun hlt => absurd hlt (lt_irrefl _), fun _ => ?_⟩
  have hbefore := h.before (lt_of_le_of_ne h.lastSeen_le hfresh)
  calc track.lifetime + 1 < seenIn track.objType frames + 1 := Nat.succ_lt_succ hbefore
    _ = seenIn track.objType (frames ++ [now ++ [(analysis, track.objType)]]) :=
        (seenIn_blob _ _ _ _).symm

/-- A blob that begins a track. -/
theorem Counted.new (analysis : BlobAnalysis) (type : ℤ) (frames : List Frame) (now : Frame) :
    Counted frames (now ++ [(analysis, type)]) (.new analysis frames.length type) := by
  refine ⟨le_refl _, fun hlt => absurd hlt (lt_irrefl _), fun _ => ?_⟩
  calc 0 < seenIn type frames + 1 := Nat.succ_pos _
    _ = seenIn type (frames ++ [now ++ [(analysis, type)]]) := (seenIn_blob _ _ _ _).symm

/-- The tracker counts its frames, and its tracks are counted. -/
structure Tracker.Counts (frames : List Frame) (now : Frame) (s : Tracker) : Prop where
  curFrame_eq : s.curFrame = frames.length
  tracks : ∀ track ∈ s.trackBlobs, Counted frames now track

/-- A blob that is the first of its frame to fall to its track. -/
theorem Tracker.Counts.blob (h : s.Counts frames now) (hfresh : Fresh near s analysis type) :
    (s.trackBlob near analysis type).1.Counts frames (now ++ [(analysis, type)]) := by
  rcases trackBlob_cases near s analysis type with
    ⟨before, track, behind, htracks, hmatched, rfl, heq⟩ | heq
  · rw [heq]
    refine ⟨h.curFrame_eq, fun other hother => ?_⟩
    have hfresh : track.lastSeen ≠ frames.length := h.curFrame_eq ▸ hfresh track hmatched
    rcases List.mem_append.mp hother with hbefore | hother
    · exact (h.tracks other (by rw [htracks]; simp [hbefore])).blob _
    · rcases List.mem_cons.mp hother with rfl | hbehind
      · rw [h.curFrame_eq]
        exact (h.tracks track (by rw [htracks]; simp)).see hfresh analysis
      · exact (h.tracks other (by rw [htracks]; simp [hbehind])).blob _
  · rw [heq]
    refine ⟨h.curFrame_eq, fun other hother => ?_⟩
    rcases List.mem_append.mp hother with hother | hnew
    · exact (h.tracks other hother).blob _
    · rw [List.mem_singleton.mp hnew, h.curFrame_eq]
      exact Counted.new analysis type frames now

/-- The end of a frame only drops tracks. -/
theorem Tracker.Counts.update (h : s.Counts frames now) :
    s.updateBlobTracking.Counts (frames ++ [now]) [] where
  curFrame_eq := by
    rw [Tracker.updateBlobTracking, h.curFrame_eq, List.length_append, List.length_singleton]
    push_cast
    rfl
  tracks track htrack := (h.tracks track (List.mem_filter.mp htrack).1).update

/-- The runs in which no two blobs of a frame fall to one track. -/
theorem Run.counts (h : Run near (Fresh near) frames now s) : s.Counts frames now := by
  induction h with
  | start => exact ⟨rfl, by simp [Tracker.init]⟩
  | blob _ _ _ hfresh ih => exact ih.blob hfresh
  | update _ ih => exact ih.update

/-- In these runs, a blob is reported only when its type has been seen in three frames, and no
track's lifetime counts a frame twice. -/
theorem reported_after_frames (near : BlobAnalysis → BlobTrack → Bool) {frames : List Frame}
    {now : Frame} {s : Tracker} (h : Run near (Fresh near) frames now s)
    {analysis : BlobAnalysis} {type : ℤ} (hfresh : Fresh near s analysis type) :
    ((s.trackBlob near analysis type).2 = true →
        frameMargin ≤ seenIn type (frames ++ [now ++ [(analysis, type)]])) ∧
      ∀ track ∈ (s.trackBlob near analysis type).1.trackBlobs,
        track.lifetime < seenIn track.objType (frames ++ [now ++ [(analysis, type)]]) := by
  have hcounts := h.counts.blob hfresh
  refine ⟨fun hreported => ?_, fun track htrack => (hcounts.tracks track htrack).lifetime_lt⟩
  rcases trackBlob_cases near s analysis type with
    ⟨before, track, behind, -, -, rfl, heq⟩ | heq
  · -- The lifetime it is reported for is that of the track it fell to.
    rw [heq] at hcounts hreported
    have hlt := (hcounts.tracks (track.see analysis s.curFrame) (by simp)).lifetime_lt
    exact (of_decide_eq_true hreported).trans hlt.le
  · rw [heq] at hreported
    cases hreported

end Runs

/-- A buoy that is seen in one frame after the other is reported in the fourth. -/
theorem buoy_reported : frameMargin ≤ seenIn 2 ([[(⟨320, 240⟩, 2)], [(⟨321, 238⟩, 2)],
    [(⟨322, 236⟩, 2)]] ++ [[] ++ [(⟨323, 234⟩, 2)]]) := by
  have first : Run inCircle (Fresh inCircle) _ _ _ :=
    (Run.start.blob ⟨320, 240⟩ 2 (by decide)).update
  have second := (first.blob ⟨321, 238⟩ 2 (by decide)).update
  have third := (second.blob ⟨322, 236⟩ 2 (by decide)).update
  exact (reported_after_frames inCircle third (by decide)).1 (by decide)

/-- Both posts of a gate fall to one track. The second is reported in the second frame. -/
theorem gate_reported_early : ¬ ∀ (frames : List Frame) (now : Frame) (s : Tracker)
    (analysis : BlobAnalysis) (type : ℤ), Run inCircle (fun _ _ _ => True) frames now s →
      (s.trackBlob inCircle analysis type).2 = true →
        frameMargin ≤ seenIn type (frames ++ [now ++ [(analysis, type)]]) := by
  intro hall
  have first : Run inCircle (fun _ _ _ => True) _ _ _ :=
    ((Run.start.blob ⟨100, 240⟩ 1 trivial).blob ⟨500, 240⟩ 1 trivial).update
  have second := first.blob ⟨100, 240⟩ 1 trivial
  exact absurd (hall _ _ _ ⟨500, 240⟩ 1 second (by decide)) (by decide)

end Guillemot.Vision
