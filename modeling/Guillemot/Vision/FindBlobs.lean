import Guillemot.Vision.Components

/-!
# All blobs of an image

The scan of `findBlobs` goes through the sampled pixels, has `findBlob` search and mark the
component of each that holds the object, and keeps the large ones. `Scanned` is what holds after
some pixels: their components are marked, and the large ones kept, each once. A pixel that has been
marked belongs to a component before, and one that still holds the object can be reached from none
of the pixels before, so its component is that of the image at the start. `scan_spec` says that the
scan ends with the components of all sampled pixels.
-/

namespace Guillemot.Vision

/-! ## The scan -/

/-- `for (i = offset; i < bound; i += SAMPLE_SIZE)`. -/
def samples (offset bound : ℕ) : List ℕ := List.range' offset ((bound + 3 - offset) / 4) 4

/-- The sampled pixels, row by row. -/
def samplePoints (image : Mat) (offset : ℕ) : List Point :=
  (samples offset image.rows).flatMap fun (i : ℕ) =>
    (samples offset image.cols).map fun (j : ℕ) => ⟨j, i⟩

/-- The variables of the scan: the image, and the blobs found. -/
structure Scan where
  image : Mat
  allBlobs : List (List Point)

/-- A blob that is at least the minimum size is kept. -/
def keepLarge (obj : ℤ) (allBlobs : List (List Point)) (blob : List Point) : List (List Point) :=
  if blob.length ≥ minPoints obj then allBlobs ++ [blob] else allBlobs

/-- A sampled pixel is visited. -/
def Scan.visit (obj : ℤ) (fuel : ℕ) (s : Scan) (p : Point) : Outcome Scan := do
  let pixel ← .ofOption (s.image.pixelAt p)
  if (pixel.toNat : ℤ) = obj then do
    let (blob, image) ← findBlob s.image p.y p.x obj fuel
    return { image, allBlobs := keepLarge obj s.allBlobs blob }
  else
    return s

/-- All blobs that are at least the minimum size. -/
def scan (image : Mat) (offset : ℕ) (obj : ℤ) (fuel : ℕ) : Outcome Scan :=
  (samplePoints image offset).foldlM (Scan.visit obj fuel) ⟨image, []⟩

/-! ## The scan finds the components -/

section Scanning

variable {image : Mat} {offset : ℕ} {obj : ℤ} {p : Point}

/-- The samples of a row or a column. -/
theorem mem_samples {offset bound i : ℕ} :
    i ∈ samples offset bound ↔ i < bound ∧ ∃ k, i = offset + 4 * k := by
  rw [samples, List.mem_range']
  constructor
  · rintro ⟨k, hk, rfl⟩
    exact ⟨by omega, k, rfl⟩
  · rintro ⟨hlt, k, rfl⟩
    exact ⟨k, by omega, rfl⟩

/-- The sampled pixels are those of the image on the grid. -/
theorem mem_samplePoints (hoffset : offset < 4) :
    p ∈ samplePoints image offset ↔ image.Inside p ∧ OnGrid offset p := by
  simp only [samplePoints, List.mem_flatMap, List.mem_map, mem_samples]
  constructor
  · rintro ⟨i, ⟨hrows, k, rfl⟩, j, ⟨hcols, l, rfl⟩, rfl⟩
    refine ⟨⟨⟨Int.natCast_nonneg _, Int.ofNat_lt.mpr hrows⟩, Int.natCast_nonneg _,
      Int.ofNat_lt.mpr hcols⟩, ?_, ?_⟩
    · exact ⟨l, by simp [sampleSize]⟩
    · exact ⟨k, by simp [sampleSize]⟩
  · rintro ⟨⟨⟨hy, hrows⟩, hx, hcols⟩, ⟨l, hl⟩, k, hk⟩
    rw [sampleSize] at hl hk
    refine ⟨p.y.toNat, ⟨by omega, k.toNat, by omega⟩, p.x.toNat, ⟨by omega, l.toNat, by omega⟩, ?_⟩
    simp only [Int.toNat_of_nonneg hy, Int.toNat_of_nonneg hx]

/-- A list of blobs is made of the large components of some pixels. -/
structure BlobsOf (image : Mat) (obj : ℤ) (points : List Point) (blobs : List (List Point)) :
    Prop where
  nodup : ∀ blob ∈ blobs, blob.Nodup
  component : ∀ blob ∈ blobs, minPoints obj ≤ blob.length ∧
    ∃ p ∈ points, image.Holds obj p ∧ {q | q ∈ blob} = image.component obj p
  disjoint : blobs.Pairwise List.Disjoint
  complete : ∀ p ∈ points, image.Holds obj p → minPoints obj ≤ (image.component obj p).ncard →
    ∃ blob ∈ blobs, {q | q ∈ blob} = image.component obj p

/-- The scan has visited some pixels: their components are marked, and the large ones kept. -/
structure Scanned (image : Mat) (obj : ℤ) (points : List Point) (s : Scan) : Prop where
  marked : ∃ marked, s.image = image.fill marked (doneThresh obj) ∧
    ∀ q, q ∈ marked ↔ ∃ p ∈ points, image.Holds obj p ∧ image.Joined obj p q
  blobs : BlobsOf image obj points s.allBlobs

/-- The blobs kept, and the new one if it is large. -/
theorem mem_keepLarge {blobs : List (List Point)} {blob b : List Point} :
    b ∈ keepLarge obj blobs blob ↔ b ∈ blobs ∨ b = blob ∧ minPoints obj ≤ blob.length := by
  unfold keepLarge
  split_ifs with hmin
  · simp [hmin]
  · simp [hmin]

/-- The component of a further pixel that can be reached from none before. -/
theorem BlobsOf.add {points : List Point} {blobs : List (List Point)} {blob : List Point}
    (h : BlobsOf image obj points blobs) (hnodup : blob.Nodup) (hheld : image.Holds obj p)
    (hblob : {q | q ∈ blob} = image.component obj p)
    (hnew : ∀ r ∈ points, image.Holds obj r → ¬ image.Joined obj r p) :
    BlobsOf image obj (points ++ [p]) (keepLarge obj blobs blob) := by
  have hold : ∀ b ∈ blobs, b.Disjoint blob := by
    intro b hb q hq hqblob
    obtain ⟨-, r, hr, hheldr, heq⟩ := h.component b hb
    have hto : image.Joined obj r q := (Set.ext_iff.mp heq q).mp hq
    have hfrom : image.Joined obj p q := (Set.ext_iff.mp hblob q).mp hqblob
    exact hnew r hr hheldr (hto.trans (hfrom.symm hheld))
  refine ⟨fun b hb => ?_, fun b hb => ?_, ?_, fun r hr hheldr hmin => ?_⟩
  · rcases mem_keepLarge.mp hb with hb | ⟨rfl, -⟩
    · exact h.nodup b hb
    · exact hnodup
  · rcases mem_keepLarge.mp hb with hb | ⟨rfl, hmin⟩
    · obtain ⟨hmin, r, hr, hheldr, heq⟩ := h.component b hb
      exact ⟨hmin, r, List.mem_append_left _ hr, hheldr, heq⟩
    · exact ⟨hmin, p, List.mem_append_right _ (List.mem_singleton_self p), hheld, hblob⟩
  · unfold keepLarge
    split_ifs
    · refine List.pairwise_append.mpr ⟨h.disjoint, List.pairwise_singleton _ _, fun b hb c hc => ?_⟩
      exact List.mem_singleton.mp hc ▸ hold b hb
    · exact h.disjoint
  · rcases List.mem_append.mp hr with hr | hr
    · obtain ⟨b, hb, heq⟩ := h.complete r hr hheldr hmin
      exact ⟨b, mem_keepLarge.mpr (.inl hb), heq⟩
    · obtain rfl := List.mem_singleton.mp hr
      rw [← hblob, ncard_setOf_mem hnodup] at hmin
      exact ⟨blob, mem_keepLarge.mpr (.inr ⟨rfl, hmin⟩), hblob⟩

/-- A visit to a pixel that holds the object searches its blob. -/
theorem visit_of_holds {s : Scan} {fuel : ℕ} {blob : List Point} {filled : Mat}
    (hheld : s.image.Holds obj p)
    (hfind : findBlob s.image p.y p.x obj fuel = .done (blob, filled)) :
    s.visit obj fuel p = .done ⟨filled, keepLarge obj s.allBlobs blob⟩ := by
  obtain ⟨pixel, hpixel, hobj⟩ := hheld
  simp only [Scan.visit, hpixel, Outcome.ofOption_some, Outcome.done_bind, if_pos hobj, hfind,
    Outcome.pure_eq]

/-- A visit to another pixel does nothing. -/
theorem visit_of_not_holds {s : Scan} (fuel : ℕ) (hin : s.image.Inside p)
    (hheld : ¬ s.image.Holds obj p) : s.visit obj fuel p = .done s := by
  obtain ⟨pixel, hpixel⟩ := Option.isSome_iff_exists.mp (Mat.pixelAt_isSome.mpr hin)
  have hobj : ¬ (pixel.toNat : ℤ) = obj := fun heq => hheld ⟨pixel, hpixel, heq⟩
  simp only [Scan.visit, hpixel, Outcome.ofOption_some, Outcome.done_bind, if_neg hobj,
    Outcome.pure_eq]

/-- A pixel whose component is one of those before, or that does not hold the object, adds no
blob. -/
theorem BlobsOf.skip {points : List Point} {blobs : List (List Point)}
    (h : BlobsOf image obj points blobs)
    (hskip : image.Holds obj p →
      ∃ r ∈ points, image.Holds obj r ∧ image.component obj p = image.component obj r) :
    BlobsOf image obj (points ++ [p]) blobs := by
  refine ⟨h.nodup, fun blob hblob => ?_, h.disjoint, fun r hr hheld hmin => ?_⟩
  · obtain ⟨hmin, r, hr, hheld, heq⟩ := h.component blob hblob
    exact ⟨hmin, r, List.mem_append_left _ hr, hheld, heq⟩
  · rcases List.mem_append.mp hr with hr | hr
    · exact h.complete r hr hheld hmin
    · obtain rfl := List.mem_singleton.mp hr
      obtain ⟨t, ht, hheldt, heq⟩ := hskip hheld
      rw [heq] at hmin ⊢
      exact h.complete t ht hheldt hmin

/-- Nor does it change what is marked. -/
theorem Scanned.skip {points : List Point} {s : Scan} (h : Scanned image obj points s)
    (hskip : image.Holds obj p →
      ∃ r ∈ points, image.Holds obj r ∧ image.component obj p = image.component obj r) :
    Scanned image obj (points ++ [p]) s := by
  obtain ⟨marked, himage, hmarked⟩ := h.marked
  refine ⟨⟨marked, himage, fun q => ?_⟩, h.blobs.skip hskip⟩
  rw [hmarked]
  constructor
  · rintro ⟨r, hr, hheld, hto⟩
    exact ⟨r, List.mem_append_left _ hr, hheld, hto⟩
  · rintro ⟨r, hr, hheld, hto⟩
    rcases List.mem_append.mp hr with hr | hr
    · exact ⟨r, hr, hheld, hto⟩
    · obtain rfl := List.mem_singleton.mp hr
      obtain ⟨t, ht, hheldt, heq⟩ := hskip hheld
      exact ⟨t, ht, hheldt, (Set.ext_iff.mp heq q).mp hto⟩

/-- A visit to a further pixel. -/
theorem Scanned.visit {points : List Point} {s : Scan} (h : Scanned image obj points s)
    (hmarker : ((doneThresh obj).toNat : ℤ) ≠ obj) (hp : image.Inside p) :
    ∃ s', (∀ fuel, image.rows * image.cols < fuel → s.visit obj fuel p = .done s') ∧
      Scanned image obj (points ++ [p]) s' := by
  obtain ⟨marked, himage, hmarked⟩ := h.marked
  have hin : s.image.Inside p := by rw [himage]; exact hp
  have hholds : s.image.Holds obj p ↔ image.Holds obj p ∧ p ∉ marked := by
    rw [himage, Mat.holds_fill_iff hmarker]
  by_cases hheld : s.image.Holds obj p
  · obtain ⟨hpheld, hpmarked⟩ := hholds.mp hheld
    obtain ⟨blob, hfind, hnodup, hmem⟩ := findBlob_spec hmarker hheld
    have hclosed : ∀ q ∈ marked, ∀ r, image.Joined obj q r → r ∈ marked := by
      intro q hq r hto
      obtain ⟨t, ht, htheld, htq⟩ := (hmarked q).mp hq
      exact (hmarked r).mpr ⟨t, ht, htheld, htq.trans hto⟩
    have hblob : {q | q ∈ blob} = image.component obj p := by
      ext q
      have hjoined := joined_fill_iff (q := q) hmarker hclosed hpheld hpmarked
      rw [← himage] at hjoined
      exact (hmem q).trans hjoined
    refine ⟨_, fun fuel hfuel => visit_of_holds hheld (hfind fuel (by rwa [himage])),
      ⟨marked ++ blob, by rw [himage, Mat.fill_fill], fun q => ?_⟩,
      h.blobs.add hnodup hpheld hblob fun r hr hrheld hto =>
        hpmarked ((hmarked p).mpr ⟨r, hr, hrheld, hto⟩)⟩
    simp only [List.mem_append, List.mem_singleton, hmarked, or_and_right, exists_or,
      exists_eq_left, hpheld, true_and]
    exact or_congr_right (Set.ext_iff.mp hblob q)
  · refine ⟨s, fun fuel _ => visit_of_not_holds fuel hin hheld, h.skip fun hpheld => ?_⟩
    -- It has been marked, as one of an earlier component.
    have hpmarked : p ∈ marked := by_contra fun hnot => hheld (hholds.mpr ⟨hpheld, hnot⟩)
    obtain ⟨r, hr, hrheld, hto⟩ := (hmarked p).mp hpmarked
    exact ⟨r, hr, hrheld, hto.component_eq hrheld⟩

/-- Visits to further pixels. -/
theorem Scanned.foldlM (hmarker : ((doneThresh obj).toNat : ℤ) ≠ obj) (more : List Point)
    {points : List Point} {s : Scan} (h : Scanned image obj points s)
    (hmore : ∀ p ∈ more, image.Inside p) :
    ∃ s', (∀ fuel, image.rows * image.cols < fuel →
        more.foldlM (Scan.visit obj fuel) s = .done s') ∧
      Scanned image obj (points ++ more) s' := by
  induction more generalizing points s with
  | nil => exact ⟨s, fun _ _ => rfl, by rwa [List.append_nil]⟩
  | cons p more ih =>
    obtain ⟨t, hvisit, ht⟩ := h.visit hmarker (hmore p List.mem_cons_self)
    obtain ⟨s', hmoreVisits, hs'⟩ := ih ht fun q hq => hmore q (List.mem_cons_of_mem p hq)
    rw [List.append_assoc, List.singleton_append] at hs'
    refine ⟨s', fun fuel hfuel => ?_, hs'⟩
    rw [List.foldlM_cons, hvisit fuel hfuel, Outcome.done_bind, hmoreVisits fuel hfuel]

/-- Before the first visit. -/
theorem scanned_start : Scanned image obj [] ⟨image, []⟩ where
  marked := ⟨[], by simp only [Mat.fill, List.not_mem_nil, if_false], fun q => by
    simp only [List.not_mem_nil, false_and, exists_false]⟩
  blobs := ⟨List.forall_mem_nil _, List.forall_mem_nil _, .nil, List.forall_mem_nil _⟩

/-- The scan ends, and keeps the large components of the sampled pixels. -/
theorem scan_spec (image : Mat) (hoffset : offset < 4)
    (hmarker : ((doneThresh obj).toNat : ℤ) ≠ obj) :
    ∃ s, (∀ fuel, image.rows * image.cols < fuel → scan image offset obj fuel = .done s) ∧
      BlobsOf image obj (samplePoints image offset) s.allBlobs := by
  obtain ⟨s, hscan, hs⟩ := scanned_start.foldlM hmarker (samplePoints image offset)
    fun p hp => ((mem_samplePoints hoffset).mp hp).1
  exact ⟨s, hscan, hs.blobs⟩

end Scanning

end Guillemot.Vision
