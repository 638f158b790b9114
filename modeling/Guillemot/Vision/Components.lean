import Guillemot.Vision.FindBlob
import Mathlib.Data.Set.Card

/-!
# The components of an image

Steps between pixels that hold an object can be taken back, so the components of these pixels are
equal or disjoint. Components that are marked as done leave the others as they are
(`joined_fill_iff`). The blobs of an offset are the components of the pixels on its grid that are
large enough.
-/

namespace Guillemot.Vision

open Relation (ReflTransGen)

variable {image : Mat} {obj : ℤ} {p q : Point}

/-- The least number of pixels of a blob that counts (`MIN_POINTS_PATH` and `MIN_POINTS`). -/
def minPoints (obj : ℤ) : ℕ := if obj = 3 then 400 else 200

/-- The pixels that hang together with a pixel. -/
def Mat.component (image : Mat) (obj : ℤ) (p : Point) : Set Point := {q | image.Joined obj p q}

/-- A pixel is one of those that are sampled. -/
def OnGrid (offset : ℕ) (p : Point) : Prop :=
  sampleSize ∣ p.x - offset ∧ sampleSize ∣ p.y - offset

/-- A component on the grid that has at least the minimum size. -/
def Mat.IsBlob (image : Mat) (offset : ℕ) (obj : ℤ) (C : Set Point) : Prop :=
  ∃ p, image.Holds obj p ∧ OnGrid offset p ∧ C = image.component obj p ∧ minPoints obj ≤ C.ncard

/-- The number of these components. -/
noncomputable def Mat.blobCount (image : Mat) (offset : ℕ) (obj : ℤ) : ℕ :=
  {C | image.IsBlob offset obj C}.ncard

/-! ## Components -/

/-- A step to a pixel that holds the object. -/
theorem mem_next_iff : q ∈ image.next obj p ↔ q ∈ neighbours p ∧ image.Holds obj q := by
  rw [Mat.next, List.mem_filter, decide_eq_true_eq]

/-- Steps go both ways. -/
theorem neighbours_symm (h : q ∈ neighbours p) : p ∈ neighbours q := by
  obtain ⟨x, y⟩ := p
  simp only [neighbours, List.mem_cons, List.not_mem_nil, or_false] at h ⊢
  rcases h with rfl | rfl | rfl | rfl <;> simp

namespace Mat.Joined

/-- So do ways, from a pixel that holds the object. -/
theorem symm (h : image.Joined obj p q) (hp : image.Holds obj p) : image.Joined obj q p := by
  induction h with
  | refl => exact .refl
  | tail hto hnext ih =>
    have hback := neighbours_symm (mem_next_iff.mp hnext).1
    exact .head (mem_next_iff.mpr ⟨hback, Mat.Joined.holds hto hp⟩) ih

/-- Pixels that are joined have one component. -/
theorem component_eq (h : image.Joined obj p q) (hp : image.Holds obj p) :
    image.component obj q = image.component obj p :=
  Set.ext fun _ => ⟨fun hr => ReflTransGen.trans h hr, fun hr => ReflTransGen.trans (h.symm hp) hr⟩

end Mat.Joined

/-- A component is finite. -/
theorem Mat.finite_component (hp : image.Holds obj p) : (image.component obj p).Finite :=
  image.pixels.finite_toSet.subset fun _ hq => Mat.mem_pixels (hq.holds hp).inside

/-- There are finitely many blobs. -/
theorem Mat.finite_isBlob (image : Mat) (offset : ℕ) (obj : ℤ) :
    {C | image.IsBlob offset obj C}.Finite := by
  refine (image.pixels.finite_toSet.image (image.component obj)).subset ?_
  rintro C ⟨p, hp, -, rfl, -⟩
  exact ⟨p, Mat.mem_pixels hp.inside, rfl⟩

/-- A list of different elements has as many as the set of them. -/
theorem ncard_setOf_mem {α : Type*} [DecidableEq α] {l : List α} (h : l.Nodup) :
    {a | a ∈ l}.ncard = l.length := by
  rw [← List.toFinset_card_of_nodup h, ← Set.ncard_coe_finset]
  congr 1
  ext a
  simp

/-! ## Marked components -/

/-- Marking whole components leaves the others as they are. -/
theorem joined_fill_iff {marked : List Point} (hmarker : ((doneThresh obj).toNat : ℤ) ≠ obj)
    (hclosed : ∀ q ∈ marked, ∀ r, image.Joined obj q r → r ∈ marked) (hp : image.Holds obj p)
    (hpmarked : p ∉ marked) :
    (image.fill marked (doneThresh obj)).Joined obj p q ↔ image.Joined obj p q := by
  constructor
  · refine ReflTransGen.mono (fun a b hnext => ?_) p q
    obtain ⟨hstep, hheld⟩ := mem_next_iff.mp hnext
    exact mem_next_iff.mpr ⟨hstep, ((Mat.holds_fill_iff hmarker).mp hheld).1⟩
  · intro h
    induction h with
    | refl => exact .refl
    | tail hto hnext ih =>
      obtain ⟨hstep, hheld⟩ := mem_next_iff.mp hnext
      -- From a marked pixel there would be a way back to the first one.
      refine ih.tail (mem_next_iff.mpr ⟨hstep, (Mat.holds_fill_iff hmarker).mpr ⟨hheld, ?_⟩⟩)
      intro hmarked
      exact hpmarked (hclosed _ hmarked p (Mat.Joined.symm (hto.tail hnext) hp))

end Guillemot.Vision
