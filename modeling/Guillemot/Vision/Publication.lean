import Guillemot.Library.Binary32
import Guillemot.Library.Groups
import Guillemot.Library.Truncation
import Guillemot.Vision.FindBlob
import Guillemot.Vision.TrackBlob
import Mathlib.Data.Int.Bitwise
import Mathlib.Data.Int.Log
import Mathlib.Data.Rat.Floor

/-!
# What is published of a frame

`genericCallback` goes through the objects, the blobs that were found of each, and the analyses of
each blob. An analysis that is confident enough is tracked, and published if the tracker reports it.
The index of the analysis in the list of its blob becomes the id of the message; but there is one
analysis of a blob at most, so every id is zero (`publishObject_ids`). `ids_number_iff` says what
comes of it: the messages of an object are numbered, and a task that begins a new group with each id
of zero gets them in the groups of the frames, exactly when no more than one blob of the object
passes both tests in a frame.

The roundings to single and double precision, `minAreaRect`, and which blobs are close to which
tracks are parameters.
-/

namespace Guillemot.Vision

/-! ## Objects and analyses -/

/-- `M_PI`. -/
def mPi : ℚ := 884279719003555 / 281474976710656

/-- `MIN_CONFIDENCE`. -/
def minConfidence : ℚ := 1 / 2

/-- `MIN_PATH_CONFIDENCE`, the float next to 0.7. -/
def minPathConfidence : ℚ := 11744051 / 16777216

/-- `FLAG_ENABLED`. -/
def flagEnabled : ℤ := 1

/-- `CAMERA_FORWARD`. -/
def cameraForward : ℤ := 0

/-- `CAMERA_DOWNWARD`. -/
def cameraDownward : ℤ := 1

/-- `ANALYSIS_RECTANGLE`. -/
def analysisRectangle : ℤ := 0

/-- `CONFIDENCE_RECTANGLE`. -/
def confidenceRectangle : ℤ := 0

/-- `CONFIDENCE_CIRCLE`. -/
def confidenceCircle : ℤ := 1

/-- An object that is searched for, without what the search and the annotation read. -/
structure Object where
  name : String
  flags : ℤ
  camera : ℤ
  analysisType : ℤ
  confidenceType : ℤ
  enumType : ℤ
deriving DecidableEq, Repr

/-- `initObjects`, with `objectTracking`. -/
def initObjects : List (Object × Bool) :=
  [(⟨"gate", 1, cameraForward, analysisRectangle, confidenceRectangle, 1⟩, true),
    (⟨"buoys/red", 1, cameraForward, analysisRectangle, confidenceCircle, 2⟩, true),
    (⟨"paths", 1, cameraDownward, analysisRectangle, confidenceRectangle, 3⟩, true),
    (⟨"parking", 1, cameraForward, analysisRectangle, confidenceRectangle, 4⟩, true)]

/-- A rectangle with its rotation in degrees. -/
structure RotatedRect where
  centerX : ℚ
  centerY : ℚ
  width : ℚ
  height : ℚ
  angle : ℚ
deriving DecidableEq, Repr

/-- An analysis of a blob by its rectangle. -/
structure RectangleAnalysis extends BlobAnalysis where
  rotation : ℚ
  width : ℕ
  height : ℕ
  size : ℕ
deriving DecidableEq, Repr

/-- `ImgRecObject`. -/
structure ImgRecObject where
  stamp : ℚ
  id : ℤ
  centerX : ℤ
  centerY : ℤ
  rotation : ℚ
  height : ℕ
  width : ℕ
  confidence : ℚ
deriving DecidableEq, Repr

/-- A frame of a camera: the size of the upright image, and the blobs that were found of each
object, by its index, with the times at which their analyses begin. -/
structure Capture where
  camera : ℤ
  rows : ℕ
  cols : ℕ
  blobs : ℕ → List (ℚ × List Point)

/-- What the analysis rests on. -/
structure Platform where
  single : ℚ → ℚ
  double : ℚ → ℚ
  minAreaRect : List Point → RotatedRect
  near : BlobAnalysis → BlobTrack → Bool

namespace Platform

variable (p : Platform)

/-- The constructor of `BlobAnalysis`. The height is always the larger side. -/
def analyzeRectangle (blob : List Point) (rectangle : RotatedRect) : RectangleAnalysis :=
  let center : BlobAnalysis := ⟨truncate rectangle.centerX, truncate rectangle.centerY⟩
  let width := (truncate rectangle.width).toNat
  let height := (truncate rectangle.height).toNat
  let rotation := p.single (p.double (rectangle.angle * p.double (mPi / 180)))
  let size := blob.length % 2 ^ 32
  if height < width then
    { center with rotation, width := height, height := width, size }
  else
    { center with rotation := p.single (p.double (rotation - mPi / 2)), width, height, size }

/-- `analyzeBlob`. -/
def analyzeBlob (object : Object) (blob : List Point) : List RectangleAnalysis :=
  if object.analysisType = analysisRectangle then
    [p.analyzeRectangle blob (p.minAreaRect blob)]
  else []

/-- `expectedPoints` of `computeConfidence`, unless the type is unknown. -/
def expectedPoints (object : Object) (a : RectangleAnalysis) : Option ℤ :=
  if object.confidenceType = confidenceRectangle then
    some ((a.width * a.height % 2 ^ 32 : ℕ) / (sampleSize * sampleSize))
  else if object.confidenceType = confidenceCircle then
    some (truncate (p.double (p.double (mPi * a.width) * a.height) / (4 * sampleSize * sampleSize)))
  else none

/-- `computeConfidence`. -/
def computeConfidence (object : Object) (a : RectangleAnalysis) : ℚ :=
  match p.expectedPoints object a with
  | none => -2
  | some expectedPoints =>
    if expectedPoints ≤ 0 then -1
    else
      let confidence := p.single (p.single a.size / p.single expectedPoints)
      if confidence > 1 then 1 else confidence

/-- The test of the confidence. -/
def Confident (object : Object) (a : RectangleAnalysis) : Prop :=
  p.computeConfidence object a >
    if object.enumType = 3 then minPathConfidence else minConfidence

instance (object : Object) (a : RectangleAnalysis) : Decidable (p.Confident object a) :=
  inferInstanceAs (Decidable (_ < _))

/-! ## Publication -/

/-- The message of an analysis, in the fields of its type. -/
def message (object : Object) (capture : Capture) (time : ℚ) (k : ℕ) (a : RectangleAnalysis) :
    ImgRecObject where
  stamp := time
  id := (k : ℤ).bmod (2 ^ 8)
  centerX := (a.centerX - (capture.cols / 2 : ℕ)).bmod (2 ^ 16)
  centerY := ((capture.rows / 2 : ℕ) - a.centerY).bmod (2 ^ 16)
  rotation := p.single (p.double (p.double (p.double (a.rotation + mPi / 2) * 180) / mPi))
  width := a.width % 2 ^ 16
  height := a.height % 2 ^ 16
  confidence := p.computeConfidence object a

/-- The tests of an analysis: it is tracked if it is confident, and passes if it is reported. -/
def test (object : Object) (s : Tracker) (a : RectangleAnalysis) : Tracker × Bool :=
  if p.Confident object a then s.trackBlob p.near a.toBlobAnalysis object.enumType else (s, false)

/-- A round of the loop over the analyses of a blob. -/
def publishAnalysis (object : Object) (capture : Capture) (time : ℚ)
    (state : Tracker × List ImgRecObject) (analysis : RectangleAnalysis × ℕ) :
    Tracker × List ImgRecObject :=
  let tested := p.test object state.1 analysis.1
  if tested.2 then
    (tested.1, state.2 ++ [p.message object capture time analysis.2 analysis.1])
  else (tested.1, state.2)

/-- A round of the loop over the blobs of an object. -/
def publishBlob (object : Object) (capture : Capture) (state : Tracker × List ImgRecObject)
    (blob : ℚ × List Point) : Tracker × List ImgRecObject :=
  (p.analyzeBlob object blob.2).zipIdx.foldl (p.publishAnalysis object capture blob.1) state

/-- The applicable algorithms are run for an object. -/
def Processed (entry : Object × Bool) (capture : Capture) : Prop :=
  entry.2 = true ∧ entry.1.flags.land flagEnabled ≠ 0 ∧ entry.1.camera = capture.camera

instance (entry : Object × Bool) (capture : Capture) : Decidable (Processed entry capture) :=
  inferInstanceAs (Decidable (_ ∧ _ ∧ _))

/-- A round of the loop over the objects, with the messages that it publishes. -/
def publishObject (capture : Capture) (s : Tracker) (entry : Object × Bool) (i : ℕ) :
    Tracker × List ImgRecObject :=
  if Processed entry capture then
    (capture.blobs i).foldl (p.publishBlob entry.1 capture) (s, [])
  else (s, [])

/-- The loop over the objects from an index on, with the messages of each. -/
def publishObjects (capture : Capture) (s : Tracker) :
    ℕ → List (Object × Bool) → Tracker × List (List ImgRecObject)
  | _, [] => (s, [])
  | i, entry :: entries =>
    let published := p.publishObject capture s entry i
    let others := publishObjects capture published.1 (i + 1) entries
    (others.1, published.2 :: others.2)

/-- `genericCallback`, after the segmentation of the image. -/
def genericCallback (objects : List (Object × Bool)) (s : Tracker) (capture : Capture) :
    Tracker × List (List ImgRecObject) :=
  let published := p.publishObjects capture s 0 objects
  (published.1.updateBlobTracking, published.2)

/-- The messages of the object of an index, frame by frame. -/
def published (objects : List (Object × Bool)) (i : ℕ) :
    Tracker → List Capture → List (List ImgRecObject)
  | _, [] => []
  | s, capture :: captures =>
    let called := p.genericCallback objects s capture
    called.2.getD i [] :: published objects i called.1 captures

/-! ## The blobs that pass -/

/-- The analyses that pass the tests, one after the other. -/
def passing (object : Object) : Tracker → List RectangleAnalysis → List RectangleAnalysis
  | _, [] => []
  | s, a :: as =>
    let tested := p.test object s a
    if tested.2 then a :: passing object tested.1 as else passing object tested.1 as

/-- Those of the object of an index, in a frame. -/
def passingIn (objects : List (Object × Bool)) (i : ℕ) (s : Tracker) (capture : Capture) :
    List RectangleAnalysis :=
  match objects[i]? with
  | none => []
  | some entry =>
    if Processed entry capture then
      p.passing entry.1 (p.publishObjects capture s 0 (objects.take i)).1
        ((capture.blobs i).flatMap fun blob => p.analyzeBlob entry.1 blob.2)
    else []

/-- Those of the object of an index, frame by frame. -/
def passed (objects : List (Object × Bool)) (i : ℕ) :
    Tracker → List Capture → List (List RectangleAnalysis)
  | _, [] => []
  | s, capture :: captures =>
    p.passingIn objects i s capture ::
      passed objects i (p.genericCallback objects s capture).1 captures

end Platform

/-- The messages carry the ids 0, 1, 2 and so on. -/
def Numbered (msgs : List ImgRecObject) : Prop :=
  msgs.map ImgRecObject.id = (List.range msgs.length).map Int.ofNat

instance (msgs : List ImgRecObject) : Decidable (Numbered msgs) :=
  inferInstanceAs (Decidable (_ = _))

/-- A task begins a new group with a message. -/
def ImgRecObject.starts (msg : ImgRecObject) : Bool := msg.id == 0

section Ids

variable {p : Platform} {object : Object} {capture : Capture} {objects : List (Object × Bool)}
variable {i : ℕ} {s : Tracker} {msgs : List ImgRecObject}

/-- The only analysis of a blob is published with the id zero if it passes. -/
theorem publishBlob_ids (blob : ℚ × List Point) (as : List RectangleAnalysis) :
    let state := p.publishBlob object capture (s, msgs) blob
    state.2.map ImgRecObject.id ++ (p.passing object state.1 as).map (fun _ => 0) =
      msgs.map ImgRecObject.id ++
        (p.passing object s (p.analyzeBlob object blob.2 ++ as)).map fun _ => 0 := by
  unfold Platform.publishBlob Platform.analyzeBlob
  split_ifs with htype
  · rw [List.singleton_append, Platform.passing]
    simp only [List.zipIdx_singleton, List.foldl_cons, List.foldl_nil, Platform.publishAnalysis]
    split_ifs with hpass
    · simp [Platform.message]
    · rfl
  · rfl

/-- The messages of an object all have the id zero, and are as many as there are blobs that
pass. -/
theorem publishObject_ids (blobs : List (ℚ × List Point)) :
    (blobs.foldl (p.publishBlob object capture) (s, msgs)).2.map ImgRecObject.id =
      msgs.map ImgRecObject.id ++
        (p.passing object s (blobs.flatMap fun blob => p.analyzeBlob object blob.2)).map
          fun _ => 0 := by
  induction blobs generalizing s msgs with
  | nil => exact (List.append_nil _).symm
  | cons blob blobs ih =>
    rw [List.foldl_cons, List.flatMap_cons, ih, publishBlob_ids]

/-- The messages of an object are those of its index. -/
theorem publishObjects_getElem? (n : ℕ) :
    (p.publishObjects capture s n objects).2[i]? = objects[i]?.map fun entry =>
      (p.publishObject capture (p.publishObjects capture s n (objects.take i)).1 entry
        (n + i)).2 := by
  induction objects generalizing s n i with
  | nil => rfl
  | cons entry objects ih =>
    cases i with
    | zero => rfl
    | succ i =>
      have hindex : n + (i + 1) = n + 1 + i := by omega
      simp only [Platform.publishObjects, List.getElem?_cons_succ, List.take_succ_cons, ih, hindex]

/-- So all ids of a frame are zero. -/
theorem genericCallback_ids (p : Platform) (objects : List (Object × Bool)) (i : ℕ) (s : Tracker)
    (capture : Capture) :
    ((p.genericCallback objects s capture).2.getD i []).map ImgRecObject.id =
      (p.passingIn objects i s capture).map fun _ => 0 := by
  rw [Platform.genericCallback, List.getD_eq_getElem?_getD, publishObjects_getElem?,
    Platform.passingIn]
  cases objects[i]? with
  | none => rfl
  | some entry =>
    simp only [Option.map_some, Option.getD_some, Nat.zero_add, Platform.publishObject]
    split_ifs with hprocessed
    · exact publishObject_ids _
    · rfl

/-- And all ids of a run. -/
theorem published_ids (p : Platform) (objects : List (Object × Bool)) (i : ℕ) (s : Tracker)
    (captures : List Capture) :
    (p.published objects i s captures).map (List.map ImgRecObject.id) =
      (p.passed objects i s captures).map (List.map fun _ => 0) := by
  induction captures generalizing s with
  | nil => rfl
  | cons capture captures ih =>
    rw [Platform.published, Platform.passed, List.map_cons, List.map_cons, ih, genericCallback_ids]

/-- Each message of a run has the id zero. -/
theorem id_of_mem_published {captures : List Capture}
    (hmsgs : msgs ∈ p.published objects i s captures) {msg : ImgRecObject} (hmsg : msg ∈ msgs) :
    msg.id = 0 := by
  have hids : msgs.map ImgRecObject.id ∈
      (p.published objects i s captures).map (List.map ImgRecObject.id) := List.mem_map_of_mem hmsgs
  rw [published_ids] at hids
  obtain ⟨analyses, -, heq⟩ := List.mem_map.mp hids
  have hid : msg.id ∈ analyses.map fun _ => (0 : ℤ) := heq ▸ List.mem_map_of_mem hmsg
  obtain ⟨-, -, hzero⟩ := List.mem_map.mp hid
  exact hzero.symm

/-- There are as many messages in a frame as there are blobs that pass. -/
theorem published_length (p : Platform) (objects : List (Object × Bool)) (i : ℕ) (s : Tracker)
    (captures : List Capture) :
    (p.published objects i s captures).map List.length =
      (p.passed objects i s captures).map List.length := by
  have hids := congrArg (List.map List.length) (published_ids p objects i s captures)
  rw [List.map_map, List.map_map] at hids
  simpa only [Function.comp_def, List.length_map] using hids

/-- One message at most, in each frame. -/
theorem published_short_iff {captures : List Capture} :
    (∀ msgs ∈ p.published objects i s captures, msgs.length ≤ 1) ↔
      ∀ analyses ∈ p.passed objects i s captures, analyses.length ≤ 1 := by
  have hlength := published_length p objects i s captures
  rw [← List.forall_mem_map (P := (· ≤ 1)), hlength, List.forall_mem_map]

/-- Messages that all have the id zero are numbered if there is one at most. -/
theorem numbered_iff_of_ids (hids : ∀ msg ∈ msgs, msg.id = 0) :
    Numbered msgs ↔ msgs.length ≤ 1 := by
  match msgs with
  | [] => exact ⟨fun _ => Nat.zero_le 1, fun _ => rfl⟩
  | [msg] =>
    refine ⟨fun _ => le_refl 1, fun _ => ?_⟩
    rw [Numbered, List.map_singleton, hids msg (List.mem_singleton_self msg)]
    rfl
  | first :: second :: msgs =>
    refine ⟨fun hnumbered => ?_, fun hlength => absurd hlength (by simp)⟩
    -- The second message would have the id one.
    have hone : second.id = 1 := by
      have hsecond := congrArg (fun ids : List ℤ => ids[1]?) hnumbered
      simpa [List.getElem?_range] using hsecond
    rw [hids second (by simp)] at hone
    exact absurd hone (by decide)

end Ids

/-- In a run, the messages of each object are numbered in each frame, and the groups that begin with
the ids of zero are the frames, exactly when no more than one blob of the object passes the tests in
a frame. -/
theorem ids_number_iff (p : Platform) (objects : List (Object × Bool)) (i : ℕ) (s : Tracker)
    (captures : List Capture) :
    ((∀ msgs ∈ p.published objects i s captures, Numbered msgs) ↔
        ∀ analyses ∈ p.passed objects i s captures, analyses.length ≤ 1) ∧
      (groups ImgRecObject.starts (p.published objects i s captures).flatten =
          (p.published objects i s captures).filter (!·.isEmpty) ↔
        ∀ analyses ∈ p.passed objects i s captures, analyses.length ≤ 1) := by
  rw [← published_short_iff]
  constructor
  · exact forall₂_congr fun msgs hmsgs =>
      numbered_iff_of_ids fun msg hmsg => id_of_mem_published hmsgs hmsg
  · refine groups_flatten_iff fun msgs hmsgs msg hmsg => ?_
    rw [ImgRecObject.starts, id_of_mem_published hmsgs hmsg]
    rfl

/-! ## Two paths -/

/-- The bounding rectangle of a blob, which is the least one around an upright strip. -/
def boundingRect (blob : List Point) : RotatedRect :=
  let left := (blob.map Point.x).min?.getD 0
  let right := (blob.map Point.x).max?.getD 0
  let top := (blob.map Point.y).min?.getD 0
  let bottom := (blob.map Point.y).max?.getD 0
  ⟨(left + right) / 2, (top + bottom) / 2, right - left, bottom - top, 0⟩

/-- The float next to a number, with a significand of so many bits. -/
def nextFloat (bits : ℕ) (x : ℚ) : ℚ :=
  let scale : ℚ := 2 ^ ((bits : ℤ) - 1 - Int.log 2 |x|)
  let significand := |x| * scale
  let magnitude := Binary32.divNearest significand.num.toNat significand.den / scale
  if x < 0 then -magnitude else magnitude

/-- Floats of 32 and of 64 bits. -/
def floats : Platform := ⟨nextFloat 24, nextFloat 53, boundingRect, inCircle⟩

/-- A strip of 200 sampled pixels. -/
def strip (x : ℤ) : List Point :=
  (List.range 40).flatMap fun (i : ℕ) => (List.range 5).map fun (j : ℕ) => ⟨x + 4 * j, 100 + 4 * i⟩

/-- A frame of the downward camera with two paths. -/
def twoPaths : Capture where
  camera := cameraDownward
  rows := 640
  cols := 480
  blobs i := if i = 2 then [(0, strip 100), (0, strip 300)] else []

/-- Two paths that are seen in three frames both have the id zero in the third. -/
theorem second_path_not_numbered : ¬ ∀ (p : Platform) (objects : List (Object × Bool)) (i : ℕ)
    (captures : List Capture), ∀ msgs ∈ p.published objects i .init captures, Numbered msgs := by
  intro hall
  exact absurd (hall floats initObjects 2 [twoPaths, twoPaths, twoPaths]) (by decide +kernel)

end Guillemot.Vision
