import Guillemot.Library.Worklist
import Mathlib.Data.Fintype.Prod

/-!
# One blob of an image

`findBlob` of the image recognition searches the pixels of an object that hang together, a sample's
distance apart. It keeps them in one vector, looks at one after another, and overwrites each in the
image as it is added, so that it is not added again. Reads and writes outside the image are
undefined, and end the search in a fault.

The image of a round is the one at the start, overwritten at the pixels found so far (`Mat.fill`),
and a pixel still holds the object exactly when it did at the start and has not been found. So the
loop goes round by round with a worklist search of the image at the start (`Fills`), and
`findBlob_component` says that it returns the component of its first pixel.
-/

namespace Guillemot.Vision

/-! ## Images -/

/-- A pixel, by column and row. They are `int` in the source: a sample's distance beyond an image of
up to `2 ^ 31 - 5` rows and columns, they do not wrap. -/
structure Point where
  x : ℤ
  y : ℤ
deriving DecidableEq, Repr

/-- An image of one byte a pixel. -/
structure Mat where
  rows : ℕ
  cols : ℕ
  data : Fin rows → Fin cols → UInt8

namespace Mat

/-- A pixel is one of the image. -/
def Inside (image : Mat) (p : Point) : Prop :=
  (0 ≤ p.y ∧ p.y < image.rows) ∧ 0 ≤ p.x ∧ p.x < image.cols

instance (image : Mat) (p : Point) : Decidable (image.Inside p) :=
  inferInstanceAs (Decidable (_ ∧ _))

/-- Reading a pixel. -/
def pixelAt (image : Mat) (p : Point) : Option UInt8 :=
  if h : image.Inside p then
    some (image.data ⟨p.y.toNat, (Int.toNat_lt h.1.1).mpr h.1.2⟩
      ⟨p.x.toNat, (Int.toNat_lt h.2.1).mpr h.2.2⟩)
  else none

/-- Every pixel of a blob overwritten. -/
def fill (image : Mat) (blob : List Point) (value : UInt8) : Mat :=
  { image with data := fun i j => if ⟨j, i⟩ ∈ blob then value else image.data i j }

/-- Writing a pixel. -/
def setPixelAt (image : Mat) (p : Point) (value : UInt8) : Option Mat :=
  if image.Inside p then
    some { image with data := fun i j => if ⟨j, i⟩ = p then value else image.data i j }
  else none

/-- A pixel of the image holds an object's value. -/
def Holds (image : Mat) (obj : ℤ) (p : Point) : Prop :=
  ∃ pixel, image.pixelAt p = some pixel ∧ (pixel.toNat : ℤ) = obj

instance (image : Mat) (obj : ℤ) (p : Point) : Decidable (image.Holds obj p) :=
  match h : image.pixelAt p with
  | none => isFalse fun ⟨_, hpixel, _⟩ => by rw [h] at hpixel; cases hpixel
  | some pixel =>
    decidable_of_iff ((pixel.toNat : ℤ) = obj)
      ⟨fun heq => ⟨pixel, h, heq⟩, fun ⟨_, hpixel, heq⟩ => by
        rw [h] at hpixel; cases hpixel; exact heq⟩

variable {image : Mat} {obj : ℤ} {p : Point} {blob : List Point} {value : UInt8}

/-- What is read inside of the image. -/
theorem pixelAt_isSome : (image.pixelAt p).isSome ↔ image.Inside p := by
  unfold pixelAt
  split_ifs with h <;> simp [h]

theorem Holds.inside (h : image.Holds obj p) : image.Inside p := by
  obtain ⟨pixel, hpixel, -⟩ := h
  rw [← pixelAt_isSome, hpixel, Option.isSome_some]

/-- Overwriting twice. -/
theorem fill_fill {more : List Point} :
    (image.fill blob value).fill more value = image.fill (blob ++ more) value := by
  simp only [fill, List.mem_append, Mat.mk.injEq, heq_eq_eq, true_and]
  funext i j
  by_cases hmore : ⟨j, i⟩ ∈ more
  · simp [hmore]
  · simp [hmore]

/-- Overwriting keeps the other pixels. -/
theorem pixelAt_fill : (image.fill blob value).pixelAt p =
    if p ∈ blob then (image.pixelAt p).map fun _ => value else image.pixelAt p := by
  by_cases h : image.Inside p
  · have hfill : (image.fill blob value).Inside p := h
    have hy := Int.toNat_of_nonneg h.1.1
    have hx := Int.toNat_of_nonneg h.2.1
    rw [pixelAt, dif_pos hfill, pixelAt, dif_pos h]
    simp only [fill, hx, hy, Option.map_some]
    split_ifs <;> rfl
  · have hfill : ¬ (image.fill blob value).Inside p := h
    simp [pixelAt, dif_neg h, dif_neg hfill]

/-- Writing a pixel of the image. -/
theorem setPixelAt_eq (h : image.Inside p) :
    image.setPixelAt p value = some (image.fill [p] value) := by
  rw [setPixelAt, if_pos h]
  simp only [fill, List.mem_singleton]

/-- Overwritten by another value, a pixel does not hold the object any more. -/
theorem holds_fill_iff (hvalue : (value.toNat : ℤ) ≠ obj) :
    (image.fill blob value).Holds obj p ↔ image.Holds obj p ∧ p ∉ blob := by
  unfold Holds
  rw [pixelAt_fill]
  split_ifs with hp
  · simp only [Option.map_eq_some_iff, hp, not_true_eq_false, and_false, iff_false]
    rintro ⟨_, ⟨_, -, rfl⟩, heq⟩
    exact hvalue heq
  · simp [hp]

/-- The pixels of an image. -/
def pixels (image : Mat) : Finset Point :=
  (Finset.univ : Finset (Fin image.rows × Fin image.cols)).image
    fun cell => ⟨(cell.2 : ℕ), (cell.1 : ℕ)⟩

theorem mem_pixels (h : image.Inside p) : p ∈ image.pixels := by
  obtain ⟨⟨hy, hrows⟩, hx, hcols⟩ := h
  refine Finset.mem_image.mpr ⟨(⟨p.y.toNat, (Int.toNat_lt hy).mpr hrows⟩,
    ⟨p.x.toNat, (Int.toNat_lt hx).mpr hcols⟩), Finset.mem_univ _, ?_⟩
  simp only [Int.toNat_of_nonneg hy, Int.toNat_of_nonneg hx]

theorem card_pixels_le (image : Mat) : image.pixels.card ≤ image.rows * image.cols := by
  refine Finset.card_image_le.trans_eq ?_
  rw [Finset.card_univ, Fintype.card_prod, Fintype.card_fin, Fintype.card_fin]

end Mat

/-! ## The search -/

/-- The distance of the pixels that are looked at (`SAMPLE_SIZE`). -/
def sampleSize : ℤ := 4

/-- The value that marks the pixels of a blob as done. -/
def doneThresh (obj : ℤ) : UInt8 := if obj = 1 ∨ obj = 3 then 255 else 0

/-- The search's variables. The index is an `unsigned int` in the source: it counts up to the number
of pixels found, of which there are no more than the image has, and does not wrap if these are fewer
than `2 ^ 32`. -/
structure BlobSearch where
  index : ℕ
  blob : List Point
  image : Mat

/-- A test of a round: if the pixel is in the image, going by the coordinate that the step to it
changes, and holds the object, it is added to the blob and marked. -/
def BlobSearch.test (obj : ℤ) (inRange : Bool) (p : Point) (s : BlobSearch) : Option BlobSearch :=
  if inRange then do
    let pixel ← s.image.pixelAt p
    if (pixel.toNat : ℤ) = obj then do
      let image ← s.image.setPixelAt p (doneThresh obj)
      return { s with blob := s.blob ++ [p], image }
    else
      return s
  else
    return s

/-- A round of the loop. -/
def BlobSearch.round (obj : ℤ) (s : BlobSearch) : Option BlobSearch := do
  let point ← s.blob[s.index]?
  let i := point.y
  let j := point.x
  let s ← s.test obj (i + sampleSize < s.image.rows) ⟨j, i + sampleSize⟩
  let s ← s.test obj (i - sampleSize ≥ 0) ⟨j, i - sampleSize⟩
  let s ← s.test obj (j + sampleSize < s.image.cols) ⟨j + sampleSize, i⟩
  let s ← s.test obj (j - sampleSize ≥ 0) ⟨j - sampleSize, i⟩
  return { s with index := s.index + 1 }

/-- There are pixels left to look at. -/
def BlobSearch.pending (s : BlobSearch) : Bool := decide (s.index < s.blob.length)

/-- The blob around a pixel, and the image with the blob's pixels marked. -/
def findBlob (image : Mat) (i j obj : ℤ) (fuel : ℕ) : Outcome (List Point × Mat) := do
  let image ← .ofOption (image.setPixelAt ⟨j, i⟩ (doneThresh obj))
  let s ← Loop.whileLoop BlobSearch.pending (BlobSearch.round obj) fuel ⟨0, [⟨j, i⟩], image⟩
  return (s.blob, s.image)

/-! ## Components -/

/-- The pixels one step away, in the order of the tests. -/
def neighbours (p : Point) : List Point :=
  [⟨p.x, p.y + sampleSize⟩, ⟨p.x, p.y - sampleSize⟩, ⟨p.x + sampleSize, p.y⟩,
    ⟨p.x - sampleSize, p.y⟩]

/-- Those that hold the object. -/
def Mat.next (image : Mat) (obj : ℤ) (p : Point) : List Point :=
  (neighbours p).filter fun q => image.Holds obj q

/-- A pixel can be reached from another by steps to pixels that hold the object. -/
def Mat.Joined (image : Mat) (obj : ℤ) : Point → Point → Prop := Worklist.Reach (image.next obj)

/-- Steps lead to pixels that hold the object. -/
theorem Mat.Joined.holds {image : Mat} {obj : ℤ} {start p : Point} (h : image.Joined obj start p)
    (hstart : image.Holds obj start) : image.Holds obj p := by
  cases h with
  | refl => exact hstart
  | tail _ hnext => exact of_decide_eq_true (List.mem_filter.mp hnext).2

/-! ## The search as one of the image at the start -/

section Simulation

variable {image : Mat} {obj : ℤ} {start p : Point} {s : BlobSearch} {w : Worklist Point}

/-- A search of the image at the start that has found the same pixels. -/
structure Fills (image : Mat) (obj : ℤ) (s : BlobSearch) (w : Worklist Point) : Prop where
  index_eq : s.index = w.index
  blob_eq : s.blob = w.found
  image_eq : s.image = image.fill w.found (doneThresh obj)
  holds : ∀ p ∈ w.found, image.Holds obj p

/-- The pixels found, after a test. -/
def Mat.pushHolding (image : Mat) (obj : ℤ) (found : List Point) (p : Point) : List Point :=
  if image.Holds obj p then Worklist.push found p else found

/-- A pixel that is not both new and holding the object is not pushed. -/
theorem pushHolding_eq_self {found : List Point} (h : ¬ (image.Holds obj p ∧ p ∉ found)) :
    image.pushHolding obj found p = found := by
  unfold Mat.pushHolding Worklist.push
  split_ifs with hheld hmem
  · rfl
  · exact absurd ⟨hheld, hmem⟩ h
  · rfl

/-- A test pushes its pixel if that held the object at the start. -/
theorem Fills.test (h : Fills image obj s w) (hmarker : ((doneThresh obj).toNat : ℤ) ≠ obj)
    (inRange : Bool) (p : Point) (hrange : inRange = true ↔ image.Inside p) :
    ∃ s', s.test obj inRange p = some s' ∧
      Fills image obj s' ⟨w.index, image.pushHolding obj w.found p⟩ := by
  have hholds : s.image.Holds obj p ↔ image.Holds obj p ∧ p ∉ w.found := by
    rw [h.image_eq, Mat.holds_fill_iff hmarker]
  by_cases hin : image.Inside p
  · have hfill : s.image.Inside p := by rw [h.image_eq]; exact hin
    obtain ⟨pixel, hpixel⟩ := Option.isSome_iff_exists.mp (Mat.pixelAt_isSome.mpr hfill)
    have hnow : s.image.Holds obj p ↔ (pixel.toNat : ℤ) = obj := by
      simp [Mat.Holds, hpixel]
    simp only [BlobSearch.test, hrange.mpr hin, if_true, hpixel, Option.bind_eq_bind,
      Option.bind_some]
    by_cases hnew : (pixel.toNat : ℤ) = obj
    · obtain ⟨hheld, hnotMem⟩ := hholds.mp (hnow.mpr hnew)
      rw [if_pos hnew, Mat.setPixelAt_eq hfill, h.image_eq, Mat.fill_fill]
      refine ⟨_, rfl, h.index_eq, ?_, ?_, ?_⟩
      all_goals simp only [Mat.pushHolding, if_pos hheld, Worklist.push, if_neg hnotMem]
      · rw [h.blob_eq]
      · intro q hq
        rcases List.mem_append.mp hq with hq | hq
        · exact h.holds q hq
        · exact List.mem_singleton.mp hq ▸ hheld
    · -- It holds another value: it always did, or it was found before.
      have hsame : image.pushHolding obj w.found p = w.found :=
        pushHolding_eq_self fun hboth => hnew (hnow.mp (hholds.mpr hboth))
      rw [if_neg hnew, hsame]
      exact ⟨s, rfl, h⟩
  · have hrange' : inRange = false := Bool.eq_false_iff.mpr fun htrue => hin (hrange.mp htrue)
    have hsame : image.pushHolding obj w.found p = w.found :=
      pushHolding_eq_self fun hboth => hin hboth.1.inside
    rw [BlobSearch.test, hrange', hsame]
    exact ⟨s, rfl, h⟩

/-- The four tests of a round push the neighbours that hold the object. -/
theorem foldl_next (image : Mat) (obj : ℤ) (found : List Point) (p : Point) :
    (image.next obj p).foldl Worklist.push found =
      (neighbours p).foldl (image.pushHolding obj) found := by
  rw [Mat.next, List.foldl_filter]
  simp only [decide_eq_true_eq]
  rfl

theorem Fills.rows_eq (h : Fills image obj s w) : s.image.rows = image.rows := by
  rw [h.image_eq]
  rfl

theorem Fills.cols_eq (h : Fills image obj s w) : s.image.cols = image.cols := by
  rw [h.image_eq]
  rfl

/-- A round looks at the next pixel. -/
theorem Fills.round (h : Fills image obj s w) (hmarker : ((doneThresh obj).toNat : ℤ) ≠ obj)
    (hpending : s.pending = true) :
    ∃ s' w', s.round obj = some s' ∧ Worklist.look (image.next obj) w = some w' ∧
      Fills image obj s' w' := by
  have hlt : w.index < w.found.length := by
    rw [← h.index_eq, ← h.blob_eq]
    exact of_decide_eq_true hpending
  have hget := List.getElem?_eq_getElem hlt
  obtain ⟨⟨hy, hrows⟩, hx, hcols⟩ := (h.holds _ (List.getElem_mem hlt)).inside
  generalize w.found[w.index] = point at hget hy hrows hx hcols
  -- One coordinate is tested, and the other is that of a pixel of the image.
  obtain ⟨down, hdown, hfillsDown⟩ := h.test hmarker (point.y + sampleSize < s.image.rows)
    ⟨point.x, point.y + sampleSize⟩
    (by rw [decide_eq_true_eq, h.rows_eq]; simp only [Mat.Inside, sampleSize]; omega)
  obtain ⟨up, hup, hfillsUp⟩ := hfillsDown.test hmarker (point.y - sampleSize ≥ 0)
    ⟨point.x, point.y - sampleSize⟩
    (by rw [decide_eq_true_eq]; simp only [Mat.Inside, sampleSize]; omega)
  obtain ⟨right, hright, hfillsRight⟩ := hfillsUp.test hmarker
    (point.x + sampleSize < up.image.cols) ⟨point.x + sampleSize, point.y⟩
    (by rw [decide_eq_true_eq, hfillsUp.cols_eq]; simp only [Mat.Inside, sampleSize]; omega)
  obtain ⟨left, hleft, hfillsLeft⟩ := hfillsRight.test hmarker (point.x - sampleSize ≥ 0)
    ⟨point.x - sampleSize, point.y⟩
    (by rw [decide_eq_true_eq]; simp only [Mat.Inside, sampleSize]; omega)
  refine ⟨{ left with index := left.index + 1 }, _, ?_, Worklist.look_of_getElem? hget, ?_⟩
  · simp only [BlobSearch.round, h.blob_eq, h.index_eq, hget, hdown, hup, hright, hleft,
      Option.bind_eq_bind, Option.bind_some]
    rfl
  · rw [foldl_next]
    exact ⟨congrArg (· + 1) hfillsLeft.index_eq, hfillsLeft.blob_eq, hfillsLeft.image_eq,
      hfillsLeft.holds⟩

/-- The loop is a worklist search of the image at the start. -/
theorem fills_simulates (hmarker : ((doneThresh obj).toNat : ℤ) ≠ obj) :
    Loop.Simulates (Fills image obj) BlobSearch.pending (BlobSearch.round obj) Worklist.pending
      (Worklist.look (image.next obj)) where
  guard s w h := by rw [BlobSearch.pending, h.index_eq, h.blob_eq]; rfl
  fault s w h hpending hnone := by
    obtain ⟨s', w', hround, -⟩ := h.round hmarker hpending
    rw [hround] at hnone
    cases hnone
  round s w s' h hround := by
    obtain ⟨t, w', ht, hlook, hfills⟩ := h.round hmarker hround.1
    obtain rfl : t = s' := Option.some.inj (ht.symm.trans hround.2)
    exact ⟨w', hlook, hfills⟩

/-- The blob of a pixel that holds the object, and the image with it marked. -/
theorem findBlob_spec (hmarker : ((doneThresh obj).toNat : ℤ) ≠ obj)
    (hstart : image.Holds obj start) :
    ∃ blob, (∀ fuel, image.rows * image.cols < fuel →
        findBlob image start.y start.x obj fuel =
          .done (blob, image.fill blob (doneThresh obj))) ∧
      blob.Nodup ∧ ∀ p, p ∈ blob ↔ image.Joined obj start p := by
  obtain ⟨w, hsearch, hnodup, hmem⟩ := Worklist.search_spec image.pixels
    fun p (hp : image.Joined obj start p) => Mat.mem_pixels (hp.holds hstart).inside
  refine ⟨w.found, fun fuel hfuel => ?_, hnodup, hmem⟩
  have hbegin : Fills image obj ⟨0, [start], image.fill [start] (doneThresh obj)⟩ ⟨0, [start]⟩ :=
    ⟨rfl, rfl, rfl, fun p hp => List.mem_singleton.mp hp ▸ hstart⟩
  have hrel := (fills_simulates hmarker).rel hbegin fuel
  rw [hsearch fuel ((Mat.card_pixels_le image).trans_lt hfuel)] at hrel
  generalize hloop : Loop.whileLoop BlobSearch.pending (BlobSearch.round obj) fuel
    ⟨0, [start], image.fill [start] (doneThresh obj)⟩ = outcome at hrel
  cases hrel with
  | done hfills =>
    rw [findBlob, show (⟨start.x, start.y⟩ : Point) = start from rfl,
      Mat.setPixelAt_eq hstart.inside]
    simp only [Outcome.ofOption_some, Outcome.done_bind, hloop, Outcome.pure_eq]
    rw [hfills.blob_eq, hfills.image_eq]

end Simulation

/-- A blob is the component of a pixel, and `filled` the image with this component marked. -/
structure ComponentOf (image : Mat) (obj : ℤ) (start : Point) (blob : List Point) (filled : Mat) :
    Prop where
  /-- No pixel is in the blob twice. -/
  nodup : blob.Nodup
  /-- The blob is what can be reached. -/
  mem_iff : ∀ p, p ∈ blob ↔ image.Joined obj start p
  /-- The image keeps its size. -/
  size : filled.rows = image.rows ∧ filled.cols = image.cols
  /-- It has changed at the blob's pixels, and nowhere else. -/
  changed : ∀ p, filled.pixelAt p ≠ image.pixelAt p ↔ p ∈ blob
  /-- The blob's pixels hold the marker. -/
  marked : ∀ p ∈ blob, filled.pixelAt p = some (doneThresh obj)

/-- From a pixel that holds the object, the search ends without having touched a pixel outside of
the image, whatever the image's size, and returns the component of the pixel. -/
theorem findBlob_component (image : Mat) (obj : ℤ) (start : Point)
    (hmarker : ((doneThresh obj).toNat : ℤ) ≠ obj) (hstart : image.Holds obj start) :
    ∃ blob filled, (∀ fuel, image.rows * image.cols < fuel →
        findBlob image start.y start.x obj fuel = .done (blob, filled)) ∧
      ComponentOf image obj start blob filled := by
  obtain ⟨blob, hdone, hnodup, hmem⟩ := findBlob_spec hmarker hstart
  have hheld : ∀ p ∈ blob, image.Holds obj p := fun p hp => ((hmem p).mp hp).holds hstart
  have hmarked : ∀ p ∈ blob, (image.fill blob (doneThresh obj)).pixelAt p =
      some (doneThresh obj) := by
    intro p hp
    obtain ⟨pixel, hpixel, -⟩ := hheld p hp
    rw [Mat.pixelAt_fill, if_pos hp, hpixel, Option.map_some]
  refine ⟨blob, image.fill blob (doneThresh obj), hdone, hnodup, hmem, ⟨rfl, rfl⟩, ?_, hmarked⟩
  intro p
  constructor
  · intro hne
    by_contra hp
    exact hne (by rw [Mat.pixelAt_fill, if_neg hp])
  · intro hp heq
    obtain ⟨pixel, hpixel, hobj⟩ := hheld p hp
    rw [hmarked p hp, hpixel] at heq
    cases heq
    exact hmarker hobj

/-- A gate's post, two samples wide and three high. -/
def post : Mat where
  rows := 10
  cols := 6
  data _ _ := 210

/-- All of the post is found from its corner. -/
theorem post_component : ∃ blob filled, (∀ fuel, 60 < fuel →
    findBlob post 0 0 210 fuel = .done (blob, filled)) ∧ ComponentOf post 210 ⟨0, 0⟩ blob filled :=
  findBlob_component post 210 ⟨0, 0⟩ (by decide) (by decide)

example : (match findBlob post 0 0 210 61 with | .done (blob, _) => blob.length | _ => 0) = 6 := by
  decide +kernel

end Guillemot.Vision
