import Mathlib.Data.List.Basic
import Mathlib.Tactic.Common

/-!
# Decision trees

The samples and trees of `DLT.h`, and `Classify`. A node is a leaf with its class, or a branch with
the attribute it looks at, the value it compares with and its two sides; the source tells them apart
by the sign of `splitId`, which is `-1` in a leaf. Indexing outside a sample's attributes is
undefined in the source and `none` here.

A path from the root is a list of sides, `true` for the high one. `reaches` are the samples that
`Classify` takes along a path, and `classify_of_reaches` says so.
-/

namespace Guillemot.Trees

/-- `ATTR`. -/
def ATTR : ℕ := 5

/-- `Sample`. -/
structure Sample where
  iAttr : Vector Int32 ATTR
  type : Int32
deriving DecidableEq, Repr

/-- `iAttr[id]`, undefined outside the array. -/
def Sample.attr (s : Sample) (id : Int32) : Option Int32 :=
  if 0 ≤ id then s.iAttr[id.toNatClampNeg]? else none

/-- The attributes that every sample has. -/
def InRange (id : Int32) : Prop := 0 ≤ id ∧ id.toNatClampNeg < ATTR

instance (id : Int32) : Decidable (InRange id) := inferInstanceAs (Decidable (_ ∧ _))

/-- An attribute is defined when its number is in range, and only then. -/
theorem Sample.attr_isSome_iff (s : Sample) (id : Int32) : (s.attr id).isSome ↔ InRange id := by
  unfold Sample.attr InRange
  split_ifs with h <;> simp [h]

/-- `DLT`. -/
inductive DLT where
  | leaf (splitVal : Int32)
  | branch (splitId splitVal : Int32) (lowSide highSide : DLT)
deriving DecidableEq, Repr

namespace DLT

/-- `Classify`. A negative `splitId` makes any node a leaf. -/
def classify : DLT → Sample → Option Int32
  | .leaf splitVal, _ => some splitVal
  | .branch splitId splitVal lowSide highSide, s =>
    if splitId < 0 then some splitVal
    else
      (s.attr splitId).bind fun a =>
        if a > splitVal then highSide.classify s else lowSide.classify s

/-- The number of branches on the longest way down. -/
def height : DLT → ℕ
  | .leaf _ => 0
  | .branch _ _ lowSide highSide => max lowSide.height highSide.height + 1

/-- The node at the end of a path. -/
def subtree : DLT → List Bool → Option DLT
  | t, [] => some t
  | .leaf _, _ :: _ => none
  | .branch _ _ _ highSide, true :: p => highSide.subtree p
  | .branch _ _ lowSide _, false :: p => lowSide.subtree p

/-- Whether a branch sends a sample to the side `high`. -/
def sends (splitId splitVal : Int32) (high : Bool) (s : Sample) : Bool :=
  (s.attr splitId).any fun a => decide (a > splitVal) == high

/-- Whether `Classify` comes to the end of a path with a sample. -/
def reaches : DLT → List Bool → Sample → Bool
  | _, [], _ => true
  | .leaf _, _ :: _, _ => false
  | .branch splitId splitVal lowSide highSide, high :: p, s =>
    sends splitId splitVal high s && (bif high then highSide else lowSide).reaches p s

/-- The samples that `Classify` takes along a path. -/
def routed (t : DLT) (p : List Bool) (data : List Sample) : List Sample :=
  data.filter (t.reaches p)

/-- Every branch looks at an attribute that samples have. -/
def AttrsInRange : DLT → Prop
  | .leaf _ => True
  | .branch splitId _ lowSide highSide =>
    InRange splitId ∧ lowSide.AttrsInRange ∧ highSide.AttrsInRange

instance decidableAttrsInRange : (t : DLT) → Decidable t.AttrsInRange
  | .leaf _ => .isTrue trivial
  | .branch splitId _ lowSide highSide =>
    let _ := decidableAttrsInRange lowSide
    let _ := decidableAttrsInRange highSide
    inferInstanceAs (Decidable (InRange splitId ∧ _ ∧ _))

/-- A node below a side of a branch is one below the branch. -/
theorem subtree_cons (splitId splitVal : Int32) (lowSide highSide : DLT) (high : Bool)
    (p : List Bool) :
    (branch splitId splitVal lowSide highSide).subtree (high :: p) =
      (bif high then highSide else lowSide).subtree p := by
  cases high <;> rfl

/-- A branch sends a sample to a side by the attribute it looks at. -/
theorem sends_iff {splitId splitVal : Int32} {high : Bool} {s : Sample} :
    sends splitId splitVal high s = true ↔
      ∃ a, s.attr splitId = some a ∧ decide (a > splitVal) = high := by
  unfold sends
  cases s.attr splitId <;> simp

/-- The two sides of a branch are two: a sample goes to one of them exactly. -/
theorem sends_not {splitId : Int32} (hid : InRange splitId) (splitVal : Int32) (s : Sample) :
    sends splitId splitVal false s = !sends splitId splitVal true s := by
  obtain ⟨a, ha⟩ := Option.isSome_iff_exists.mp ((s.attr_isSome_iff splitId).mpr hid)
  simp [sends, ha]

/-- `Classify` of a sample is that of any node it comes to. -/
theorem classify_of_reaches {t u : DLT} {p : List Bool} {s : Sample}
    (hreach : t.reaches p s = true) (hsub : t.subtree p = some u) :
    t.classify s = u.classify s := by
  induction p generalizing t with
  | nil =>
    obtain rfl : t = u := by simpa [subtree] using hsub
    rfl
  | cons high p ih =>
    cases t with
    | leaf v => simp [subtree] at hsub
    | branch splitId splitVal lowSide highSide =>
      rw [subtree_cons] at hsub
      simp only [reaches, Bool.and_eq_true] at hreach
      obtain ⟨hsends, hreach⟩ := hreach
      rw [← ih hreach hsub]
      -- the attribute is defined, so it has a number that is not negative
      obtain ⟨a, ha, hside⟩ := sends_iff.mp hsends
      have hid : InRange splitId := (s.attr_isSome_iff splitId).mp (by simp [ha])
      rw [classify, if_neg (Int32.not_lt.mpr hid.1), ha, Option.bind_some]
      cases high with
      | true => rw [if_pos (of_decide_eq_true hside)]; rfl
      | false => rw [if_neg (of_decide_eq_false hside)]; rfl

/-- `Classify` is defined on every sample when every branch looks at an attribute in range. -/
theorem classify_isSome {t : DLT} (ht : t.AttrsInRange) (s : Sample) : (t.classify s).isSome := by
  induction t with
  | leaf v => rfl
  | branch splitId splitVal lowSide highSide ihlow ihhigh =>
    obtain ⟨hid, hlow, hhigh⟩ := ht
    obtain ⟨a, ha⟩ := Option.isSome_iff_exists.mp ((s.attr_isSome_iff splitId).mpr hid)
    simp only [classify, ha, Option.bind_some]
    split_ifs
    · rfl
    · exact ihhigh hhigh
    · exact ihlow hlow

end DLT

end Guillemot.Trees
