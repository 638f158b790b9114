import Guillemot.Library.HeapOrder
import Guillemot.Vision.FindBlobs

/-!
# The largest blobs of an image

If `findBlobs` has found more blobs than asked for, it makes them a heap and takes the front of it
as often as blobs are asked for, with a `pop_heap` before each but the first. But `pop_heap` moves
the blob that was taken to the end of `allBlobs`, and nothing takes it away: from the second removal
on, the range is not a heap, and the largest blob comes to the front again.
`findBlobs_largest_iff` says when the blobs returned are the largest: where all of them are, or no
more than two are asked for.
-/

namespace Guillemot.Vision

/-! ## The choice -/

/-- A blob is smaller than another. -/
def compareBlobs (blob0 blob1 : List Point) : Bool := decide (blob0.length < blob1.length)

theorem compareBlobs_iff (blob0 blob1 : List Point) :
    compareBlobs blob0 blob1 = true ↔ blob0.length < blob1.length := decide_eq_true_iff

/-- The rounds of the loop that takes blobs off the heap, as many as are left. -/
def takeBlobs (heap : HeapOps compareBlobs) :
    ℕ → List (List Point) → List (List Point) → Option (List (List Point))
  | 0, _, blobs => some blobs
  | rounds + 1, allBlobs, blobs =>
    if allBlobs.length > 1 then do
      let front ← (heap.popHeap allBlobs).head?
      takeBlobs heap rounds (heap.popHeap allBlobs) (blobs ++ [front])
    else
      some blobs

/-- The biggest blobs (`make_heap`, and a `pop_heap` between any two that are taken). -/
def limitBlobs (heap : HeapOps compareBlobs) (maxBlobs : ℕ) (allBlobs : List (List Point)) :
    Option (List (List Point)) := do
  let front ← (heap.makeHeap allBlobs).head?
  takeBlobs heap (maxBlobs - 1) (heap.makeHeap allBlobs) [front]

/-- The blobs of an object, and the image with all of its components on the grid marked. -/
def findBlobs (heap : HeapOps compareBlobs) (image : Mat) (offset maxBlobs : ℕ) (obj : ℤ)
    (fuel : ℕ) : Outcome (List (List Point) × Mat) := do
  let s ← scan image offset obj fuel
  if s.allBlobs.length ≤ maxBlobs then
    return (s.allBlobs, s.image)
  else
    let blobs ← .ofOption (limitBlobs heap maxBlobs s.allBlobs)
    return (blobs, s.image)

/-! ## The largest blobs -/

/-- As many blobs as are asked for, or all if there are fewer: different components on the grid that
have the minimum size, none smaller than one that is left out. -/
structure Largest (image : Mat) (offset maxBlobs : ℕ) (obj : ℤ) (blobs : List (List Point)) :
    Prop where
  nodup : ∀ blob ∈ blobs, blob.Nodup
  component : ∀ blob ∈ blobs, image.IsBlob offset obj {q | q ∈ blob}
  disjoint : blobs.Pairwise List.Disjoint
  length : blobs.length = min maxBlobs (image.blobCount offset obj)
  largest : ∀ C, image.IsBlob offset obj C → (∀ blob ∈ blobs, {q | q ∈ blob} ≠ C) →
    ∀ blob ∈ blobs, C.ncard ≤ blob.length

section Choice

variable {image : Mat} {offset maxBlobs : ℕ} {obj : ℤ} {points : List Point}
variable {all blobs : List (List Point)}

/-- The blobs of the scan, in any order. -/
theorem BlobsOf.perm (h : BlobsOf image obj points all)
    (hperm : blobs.Perm all) : BlobsOf image obj points blobs where
  nodup blob hblob := h.nodup blob (hperm.mem_iff.mp hblob)
  component blob hblob := h.component blob (hperm.mem_iff.mp hblob)
  disjoint := (hperm.pairwise_iff List.Disjoint.symm).mpr h.disjoint
  complete p hp hheld hmin := by
    obtain ⟨blob, hblob, heq⟩ := h.complete p hp hheld hmin
    exact ⟨blob, hperm.mem_iff.mpr hblob, heq⟩

/-- No blob is empty. -/
theorem BlobsOf.exists_mem (h : BlobsOf image obj points all) {blob : List Point}
    (hblob : blob ∈ all) : ∃ q, q ∈ blob := by
  obtain ⟨-, p, -, -, heq⟩ := h.component blob hblob
  exact ⟨p, (Set.ext_iff.mp heq p).mpr .refl⟩

/-- No blob is kept twice. -/
theorem BlobsOf.nodup_blobs (h : BlobsOf image obj points all) : all.Nodup := by
  refine h.disjoint.imp_of_mem fun hblob _ hdisjoint heq => ?_
  obtain ⟨q, hq⟩ := h.exists_mem hblob
  exact hdisjoint hq (heq ▸ hq)

/-- Blobs of the same pixels are the same. -/
theorem BlobsOf.injOn (h : BlobsOf image obj points all) :
    Set.InjOn (fun blob : List Point => {q | q ∈ blob}) {b | b ∈ all} := by
  intro b hb c hc heq
  have : Std.Symm (List.Disjoint (α := Point)) := ⟨fun _ _ => List.Disjoint.symm⟩
  by_contra hne
  obtain ⟨q, hq⟩ := h.exists_mem hb
  exact h.disjoint.forall hb hc hne hq ((Set.ext_iff.mp heq q).mp hq)

variable (h : BlobsOf image obj (samplePoints image offset) all) (hoffset : offset < 4)
include h hoffset

/-- They are the large components on the grid. -/
theorem BlobsOf.isBlob_iff {C : Set Point} :
    image.IsBlob offset obj C ↔ ∃ blob ∈ all, {q | q ∈ blob} = C := by
  constructor
  · rintro ⟨p, hheld, hgrid, rfl, hmin⟩
    exact h.complete p ((mem_samplePoints hoffset).mpr ⟨hheld.inside, hgrid⟩) hheld hmin
  · rintro ⟨blob, hblob, rfl⟩
    obtain ⟨hmin, p, hp, hheld, heq⟩ := h.component blob hblob
    refine ⟨p, hheld, ((mem_samplePoints hoffset).mp hp).2, heq, ?_⟩
    rwa [ncard_setOf_mem (h.nodup blob hblob)]

/-- There are as many as these. -/
theorem BlobsOf.blobCount_eq : image.blobCount offset obj = all.length := by
  have himage : {C | image.IsBlob offset obj C} =
      (fun blob : List Point => {q | q ∈ blob}) '' {b | b ∈ all} :=
    Set.ext fun C => h.isBlob_iff hoffset
  rw [Mat.blobCount, himage, Set.InjOn.ncard_image h.injOn, ncard_setOf_mem h.nodup_blobs]

/-- A choice of the largest. -/
theorem BlobsOf.largest {rest : List (List Point)} (hperm : (blobs ++ rest).Perm all)
    (hlength : blobs.length = min maxBlobs all.length)
    (hrest : ∀ blob ∈ blobs, ∀ left ∈ rest, left.length ≤ blob.length) :
    Largest image offset maxBlobs obj blobs := by
  have hmem : ∀ blob ∈ blobs, blob ∈ all :=
    fun blob hblob => hperm.mem_iff.mp (List.mem_append_left rest hblob)
  refine ⟨fun blob hblob => h.nodup blob (hmem blob hblob),
    fun blob hblob => (h.isBlob_iff hoffset).mpr ⟨blob, hmem blob hblob, rfl⟩,
    (List.pairwise_append.mp (h.perm hperm).disjoint).1, by rw [hlength, h.blobCount_eq hoffset],
    fun C hC hleft blob hblob => ?_⟩
  obtain ⟨left, hall, rfl⟩ := (h.isBlob_iff hoffset).mp hC
  rw [ncard_setOf_mem (h.nodup left hall)]
  refine hrest blob hblob left ?_
  exact (List.mem_append.mp (hperm.mem_iff.mpr hall)).resolve_left fun hin => hleft left hin rfl

/-- One blob, or two, are chosen rightly. -/
theorem BlobsOf.limitBlobs_largest (heap : HeapOps compareBlobs) (hpos : 1 ≤ maxBlobs)
    (htwo : maxBlobs ≤ 2) (hmany : maxBlobs < all.length) :
    ∃ blobs, limitBlobs heap maxBlobs all = some blobs ∧
      Largest image offset maxBlobs obj blobs := by
  have hne : all ≠ [] := List.ne_nil_of_length_pos (by omega)
  obtain ⟨top, rest, hmake, hperm, hheap, htop⟩ := heap.makeHeap_cons compareBlobs_iff hne
  have hlength := hperm.length_eq
  rw [List.length_cons] at hlength
  obtain rfl | rfl : maxBlobs = 1 ∨ maxBlobs = 2 := by omega
  · refine ⟨[top], by rw [limitBlobs, hmake]; rfl, h.largest hoffset hperm ?_ ?_⟩
    · rw [min_eq_left hmany.le, List.length_singleton]
    · exact fun blob hblob left hleft => List.mem_singleton.mp hblob ▸ htop left hleft
  · have hrest : rest ≠ [] := List.ne_nil_of_length_pos (by omega)
    obtain ⟨next, others, hpop, hpermRest, hnext⟩ := heap.popHeap_cons compareBlobs_iff hheap hrest
    refine ⟨[top, next], ?_, h.largest hoffset ((hpermRest.cons top).trans hperm) ?_ ?_⟩
    · rw [limitBlobs, hmake]
      simp only [List.head?_cons, Option.bind_eq_bind, Option.bind_some, takeBlobs, hpop,
        List.length_cons]
      exact if_pos (by have := List.length_pos_iff.mpr hrest; omega)
    · rw [min_eq_left hmany.le]
      rfl
    · intro blob hblob left hleft
      have hin : left ∈ rest := hpermRest.mem_iff.mp (List.mem_cons_of_mem next hleft)
      rcases List.mem_pair.mp hblob with rfl | rfl
      · exact htop left hin
      · exact hnext left hleft

end Choice

/-- What has been taken stays. -/
theorem prefix_takeBlobs {heap : HeapOps compareBlobs} {rounds : ℕ}
    {allBlobs taken blobs : List (List Point)}
    (h : takeBlobs heap rounds allBlobs taken = some blobs) : taken <+: blobs := by
  induction rounds generalizing allBlobs taken with
  | zero =>
    obtain rfl : taken = blobs := Option.some.inj h
    exact List.prefix_rfl
  | succ rounds ih =>
    rw [takeBlobs] at h
    split_ifs at h
    · obtain ⟨front, -, h⟩ := Option.bind_eq_some_iff.mp h
      exact (List.prefix_append taken [front]).trans (ih h)
    · obtain rfl : taken = blobs := Option.some.inj h
      exact List.prefix_rfl

/-- The third blob is the first one again, where the operations on heaps sort. -/
theorem limitBlobs_sorting {maxBlobs : ℕ} {all blobs : List (List Point)} (hthree : 3 ≤ maxBlobs)
    (hmany : maxBlobs < all.length)
    (h : limitBlobs (HeapOps.sorting compareBlobs_iff) maxBlobs all = some blobs) :
    ∃ first second more, blobs = first :: second :: first :: more := by
  set heap := HeapOps.sorting compareBlobs_iff with hheap
  have hne : all ≠ [] := List.ne_nil_of_length_pos (by omega)
  obtain ⟨first, rest, hmake, hperm, hisHeap, hfirst⟩ := heap.makeHeap_cons compareBlobs_iff hne
  have hlength := hperm.length_eq
  rw [List.length_cons] at hlength
  have hrest : rest ≠ [] := List.ne_nil_of_length_pos (by omega)
  obtain ⟨second, others, hpop, hpermRest, -⟩ := heap.popHeap_cons compareBlobs_iff hisHeap hrest
  -- The first blob is still in the range, and is the greatest.
  have hpopAgain : heap.popHeap (second :: (others ++ [first])) =
      first :: (descending List.length others.reverse ++ [second]) := by
    have hgreatest : ∀ b ∈ others.reverse, b.length ≤ first.length := fun b hb =>
      hfirst b (hpermRest.mem_iff.mp (List.mem_cons_of_mem second (List.mem_reverse.mp hb)))
    calc heap.popHeap (second :: (others ++ [first]))
        = descending List.length (others ++ [first]).reverse ++ [second] := rfl
      _ = descending List.length (first :: others.reverse) ++ [second] := by
          rw [List.reverse_concat]
      _ = first :: (descending List.length others.reverse ++ [second]) := by
          rw [descending_cons hgreatest, List.cons_append]
  have hlong : (first :: rest).length > 1 := by simp only [List.length_cons]; omega
  have hlongAgain : (second :: (others ++ [first])).length > 1 := by simp
  obtain ⟨rounds, hrounds⟩ : ∃ rounds, maxBlobs - 1 = rounds + 2 := ⟨maxBlobs - 3, by omega⟩
  rw [limitBlobs, hmake, hrounds] at h
  simp only [List.head?_cons, Option.bind_eq_bind, Option.bind_some, takeBlobs, if_pos hlong, hpop,
    if_pos hlongAgain, hpopAgain] at h
  obtain ⟨more, rfl⟩ := prefix_takeBlobs h
  exact ⟨first, second, more, rfl⟩

/-- A blob that is returned twice is not disjoint from itself. -/
theorem Largest.not_twice {image : Mat} {offset maxBlobs : ℕ} {obj : ℤ}
    {first second : List Point} {more : List (List Point)}
    (h : Largest image offset maxBlobs obj (first :: second :: first :: more)) : False := by
  obtain ⟨p, -, -, heq, -⟩ := h.component first List.mem_cons_self
  have hmem : p ∈ first := (Set.ext_iff.mp heq p).mpr .refl
  exact (List.pairwise_cons.mp h.disjoint).1 first (by simp) hmem hmem

/-! ## What is returned -/

/-- The blobs that are returned for the operations on heaps. -/
def Returns (heap : HeapOps compareBlobs) (image : Mat) (offset maxBlobs : ℕ) (obj : ℤ)
    (blobs : List (List Point)) : Prop :=
  ∃ filled, ∀ fuel, image.rows * image.cols < fuel →
    findBlobs heap image offset maxBlobs obj fuel = .done (blobs, filled)

/-- Where more blobs are found than asked for, and more than two are asked for, one of them is
returned twice. -/
theorem not_returns_largest {image : Mat} {offset maxBlobs : ℕ} {obj : ℤ} (hoffset : offset < 4)
    (hmarker : ((doneThresh obj).toNat : ℤ) ≠ obj) (hthree : 3 ≤ maxBlobs)
    (hmany : maxBlobs < image.blobCount offset obj) :
    ¬ ∃ blobs, Returns (HeapOps.sorting compareBlobs_iff) image offset maxBlobs obj blobs ∧
      Largest image offset maxBlobs obj blobs := by
  rintro ⟨blobs, ⟨filled, hfind⟩, hlargest⟩
  obtain ⟨s, hscan, hs⟩ := scan_spec image hoffset hmarker
  rw [hs.blobCount_eq hoffset] at hmany
  have hrun := hfind _ (Nat.lt_succ_self _)
  rw [findBlobs, hscan _ (Nat.lt_succ_self _), Outcome.done_bind, if_neg (by omega)] at hrun
  obtain ⟨limited, hlimited, hreturned⟩ := Outcome.bind_eq_done.mp hrun
  obtain ⟨rfl, -⟩ : limited = blobs ∧ s.image = filled := by simpa using hreturned
  obtain ⟨first, second, more, rfl⟩ :=
    limitBlobs_sorting hthree hmany (Outcome.ofOption_eq_done.mp hlimited)
  exact hlargest.not_twice

/-- The largest blobs are returned, whatever the operations on heaps do beyond their promises,
exactly when there are no more than are asked for, or no more than two are asked for. -/
theorem findBlobs_largest_iff (image : Mat) (offset maxBlobs : ℕ) (obj : ℤ) (hoffset : offset < 4)
    (hpos : 1 ≤ maxBlobs) (hmarker : ((doneThresh obj).toNat : ℤ) ≠ obj) :
    (∀ heap : HeapOps compareBlobs, ∃ blobs, Returns heap image offset maxBlobs obj blobs ∧
        Largest image offset maxBlobs obj blobs) ↔
      image.blobCount offset obj ≤ maxBlobs ∨ maxBlobs ≤ 2 := by
  constructor
  · intro hall
    by_contra! hcon
    exact not_returns_largest hoffset hmarker hcon.2 hcon.1 (hall _)
  · intro hcond heap
    obtain ⟨s, hscan, hs⟩ := scan_spec image hoffset hmarker
    rw [hs.blobCount_eq hoffset] at hcond
    by_cases hfew : s.allBlobs.length ≤ maxBlobs
    · have hall : (s.allBlobs ++ []).Perm s.allBlobs := by rw [List.append_nil]
      refine ⟨s.allBlobs, ⟨s.image, fun fuel hfuel => ?_⟩,
        hs.largest hoffset hall (min_eq_right hfew).symm (by simp)⟩
      rw [findBlobs, hscan fuel hfuel, Outcome.done_bind, if_pos hfew, Outcome.pure_eq]
    · obtain ⟨blobs, hlimited, hlargest⟩ :=
        hs.limitBlobs_largest hoffset heap hpos (hcond.resolve_left hfew) (not_le.mp hfew)
      refine ⟨blobs, ⟨s.image, fun fuel hfuel => ?_⟩, hlargest⟩
      rw [findBlobs, hscan fuel hfuel, Outcome.done_bind, if_neg hfew, hlimited]
      rfl

/-- Four parking bars, each a sample longer than the one before. -/
def bars : Mat where
  rows := 812
  cols := 25
  data i j := if (j : ℕ) % 8 = 0 ∧ (i : ℕ) < 800 + j / 2 then 240 else 0

/-- The pixels of the bars. -/
theorem holds_bars_iff {p : Point} :
    bars.Holds 240 p ↔ bars.Inside p ∧ p.x % 8 = 0 ∧ p.y < 800 + p.x / 2 := by
  by_cases h : bars.Inside p
  · obtain ⟨⟨hy, -⟩, hx, -⟩ := id h
    have hcell : p.x.toNat % 8 = 0 ∧ p.y.toNat < 800 + p.x.toNat / 2 ↔
        p.x % 8 = 0 ∧ p.y < 800 + p.x / 2 := by omega
    have hpixel : bars.pixelAt p =
        some (if p.x.toNat % 8 = 0 ∧ p.y.toNat < 800 + p.x.toNat / 2 then 240 else 0) := dif_pos h
    rw [Mat.Holds, hpixel]
    split_ifs with hbar
    · exact iff_of_true ⟨240, rfl, rfl⟩ ⟨h, hcell.mp hbar⟩
    · refine iff_of_false ?_ fun hall => hbar (hcell.mpr hall.2)
      rintro ⟨_, hzero, hobj⟩
      obtain rfl := Option.some.inj hzero
      cases hobj
  · exact ⟨fun hheld => absurd hheld.inside h, fun hbar => absurd hbar.1 h⟩

/-- A component stays in its bar. -/
theorem x_eq_of_joined {p q : Point} (h : bars.Joined 240 p q) (hp : bars.Holds 240 p) :
    q.x = p.x := by
  induction h with
  | refl => rfl
  | tail hto hnext ih =>
    obtain ⟨hstep, hheld⟩ := mem_next_iff.mp hnext
    have hx := (holds_bars_iff.mp hheld).2.1
    have hxp := (holds_bars_iff.mp hp).2.1
    rw [← ih] at hxp ⊢
    simp only [neighbours, sampleSize, List.mem_cons, List.not_mem_nil, or_false] at hstep
    rcases hstep with rfl | rfl | rfl | rfl
    · rfl
    · rfl
    · simp only at hx; omega
    · simp only at hx; omega

/-- The samples of a bar hang together. -/
theorem joined_bar {bar : ℕ} (hbar : bar < 4) {k : ℕ} (hk : k < 200) :
    bars.Joined 240 ⟨8 * bar, 0⟩ ⟨8 * bar, 4 * k⟩ := by
  induction k with
  | zero => exact .refl
  | succ k ih =>
    refine (ih (by omega)).tail (mem_next_iff.mpr ⟨by simp [neighbours, sampleSize]; omega, ?_⟩)
    refine holds_bars_iff.mpr ⟨⟨⟨?_, ?_⟩, ?_, ?_⟩, ?_, ?_⟩ <;> simp only [bars] <;> omega

/-- A bar begins at the top. -/
theorem holds_bar {bar : ℕ} (hbar : bar < 4) : bars.Holds 240 ⟨8 * bar, 0⟩ := by
  refine holds_bars_iff.mpr ⟨⟨⟨?_, ?_⟩, ?_, ?_⟩, ?_, ?_⟩ <;> simp only [bars] <;> omega

/-- Every bar is long enough. -/
theorem isBlob_bar {bar : ℕ} (hbar : bar < 4) :
    bars.IsBlob 0 240 (bars.component 240 ⟨8 * bar, 0⟩) := by
  refine ⟨_, holds_bar hbar, ⟨⟨2 * bar, by simp only [sampleSize]; omega⟩, ⟨0, by simp⟩⟩, rfl, ?_⟩
  refine Set.le_ncard_of_inj_on_range (fun k : ℕ => (⟨8 * bar, 4 * k⟩ : Point))
    (fun k hk => joined_bar hbar hk) (fun k _ l _ heq => ?_) (Mat.finite_component (holds_bar hbar))
  have hy := (Point.mk.inj heq).2
  omega

/-- So there are four large components. -/
theorem blobCount_bars : 3 < bars.blobCount 0 240 := by
  refine Set.le_ncard_of_inj_on_range (fun bar : ℕ => bars.component 240 ⟨8 * bar, 0⟩)
    (fun bar hbar => isBlob_bar hbar) (fun bar hbar other _ heq => ?_) (bars.finite_isBlob 0 240)
  have hmem : bars.Joined 240 ⟨8 * (bar : ℕ), 0⟩ ⟨8 * (other : ℕ), 0⟩ :=
    (Set.ext_iff.mp heq _).mpr .refl
  have hx := x_eq_of_joined hmem (holds_bar hbar)
  simp only at hx
  omega

/-- Asked for two of the bars, the search returns the longest two. -/
theorem two_bars : ∃ blobs, Returns (HeapOps.sorting compareBlobs_iff) bars 0 2 240 blobs ∧
    Largest bars 0 2 240 blobs :=
  (findBlobs_largest_iff bars 0 2 240 (by decide) (by decide) (by decide)).mpr (.inr (le_refl 2)) _

/-- Asked for three of the bars, as for the parking bars of the course, the search returns the
longest one twice. -/
theorem bar_returned_twice : ¬ ∀ heap : HeapOps compareBlobs, ∃ blobs,
    Returns heap bars 0 3 240 blobs ∧ Largest bars 0 3 240 blobs := fun hall =>
  not_returns_largest (by decide) (by decide) (le_refl 3) blobCount_bars (hall _)

end Guillemot.Vision
