import Guillemot.Library.Lowest
import Guillemot.Trees.Training
import Mathlib.Data.Real.Basic
import Mathlib.Tactic.IntervalCases
import Mathlib.Tactic.NormNum

/-!
# The search for a split, with any measure

`getBestSplit` of `DLT.cpp` with a parameter in the place of `CalcEntropy`: a task for every
attribute finds the largest value and waits for three tasks, each of which looks at a third of the
values. The `int` arithmetic of the bounds is undefined when it overflows, and reading an attribute
that samples do not have is undefined, too. `getBestSplitBy_calcSplitEntropy` says that with the
measure of the source this is the search that training uses.

A third of fewer than three values may be empty. Its task still answers, with a tuple of zeros, and
a tuple of zeros is lower than every positive measure: `exists_isBest_iff` is exactly when
the split that is found is one that a serial search could find.
-/

namespace Guillemot.Trees

/-! ## The functions of the source -/

/-- The product of two `int`s that are not negative. -/
def intMul (a b : ℕ) : Option ℕ := if a * b < 2 ^ 31 then some (a * b) else none

/-- `biggestValue`, read off the samples. -/
def readBiggest (data : List Sample) (i : Int32) : Option Int32 :=
  data.foldlM (fun biggest s => (s.attr i).map fun a => if biggest < a then a else biggest) 0

/-- The values of a third, when nothing overflows. -/
def valuesOfThird (biggest j : ℕ) : List ℕ :=
  List.range' (j * biggest / 3) ((j + 1) * biggest / 3 - j * biggest / 3)

section Search

variable {K : Type*} [Field K] [LinearOrder K] (calcEntropy : List Sample → Int32 → Int32 → K)
  (data : List Sample)

/-- The tuple that a loop makes for one value. -/
def tupleOf (i : Int32) (curValue : ℕ) : K × Int32 × Int32 :=
  (calcEntropy data i (.ofNat curValue), i, .ofNat curValue)

/-- The task for a third of the values below `biggest`. -/
def bestOfThirdBy (i : Int32) (biggest j : ℕ) : Option (K × Int32 × Int32) :=
  (intMul j biggest).bind fun low =>
  (intMul (j + 1) biggest).map fun high =>
    pickLowest ((List.range' (low / 3) (high / 3 - low / 3)).map (tupleOf calcEntropy data i))

/-- The task for an attribute. -/
def bestOfAttributeBy (i : Int32) : Option (K × Int32 × Int32) :=
  (readBiggest data i).bind fun biggest =>
    ((List.range 3).mapM (bestOfThirdBy calcEntropy data i biggest.toNatClampNeg)).map pickLowest

/-- `getBestSplit`. -/
def getBestSplitBy (attr : ℤ) : Option (Int32 × Int32) :=
  ((List.range attr.toNat).mapM fun i => bestOfAttributeBy calcEntropy data (.ofNat i)).map
    fun tuples => (pickLowest tuples).2

/-- What the task for a third answers when nothing overflows. -/
def lowestOfThird (i : Int32) (j : ℕ) : K × Int32 × Int32 :=
  pickLowest ((valuesOfThird (biggestValue data i) j).map (tupleOf calcEntropy data i))

/-- What the task for an attribute answers when nothing overflows. -/
def lowestOfAttribute (i : Int32) : K × Int32 × Int32 :=
  pickLowest ((List.range 3).map (lowestOfThird calcEntropy data i))

/-- The serial `getBestSplit`, which is commented out. -/
def serialBestSplitBy (attr : ℤ) : Int32 × Int32 :=
  (pickLowest ((List.range attr.toNat).flatMap fun i =>
    (List.range (biggestValue data (.ofNat i))).map (tupleOf calcEntropy data (.ofNat i)))).2

end Search

/-! ## What is asked of a split -/

/-- A split that the search may consider: an attribute below `attr`, and one of its values below the
largest. -/
def Candidate (data : List Sample) (attr : ℤ) (split : Int32 × Int32) : Prop :=
  0 ≤ split.1 ∧ split.1.toInt < attr ∧ 0 ≤ split.2 ∧
    split.2.toNatClampNeg < biggestValue data split.1

instance (data : List Sample) (attr : ℤ) (split : Int32 × Int32) :
    Decidable (Candidate data attr split) := inferInstanceAs (Decidable (_ ∧ _))

/-- A candidate than which none has a lower measure. -/
def IsBest {K : Type*} [LE K] (calcEntropy : List Sample → Int32 → Int32 → K) (data : List Sample)
    (attr : ℤ) (split : Int32 × Int32) : Prop :=
  Candidate data attr split ∧ ∀ other, Candidate data attr other →
    calcEntropy data split.1 split.2 ≤ calcEntropy data other.1 other.2

/-- The search is defined: it reads no attribute past the last one, and the bounds of the thirds do
not overflow. -/
def Searchable (data : List Sample) (attr : ℤ) : Prop :=
  (data ≠ [] → attr ≤ ATTR) ∧ ∀ i < attr.toNat, 3 * biggestValue data (.ofNat i) < 2 ^ 31

/-- Wherever fewer than three values leave zeros, they lose: to a negative measure, or to one that
is not positive and that an earlier attribute has. -/
def ZerosLose {K : Type*} [LinearOrder K] [Zero K] (calcEntropy : List Sample → Int32 → Int32 → K)
    (data : List Sample) (attr : ℤ) : Prop :=
  ∀ i < attr.toNat, biggestValue data (.ofNat i) < 3 →
    ∃ k < attr.toNat, ∃ v < biggestValue data (.ofNat k),
      calcEntropy data (.ofNat k) (.ofNat v) < 0 ∨
        (k < i ∧ calcEntropy data (.ofNat k) (.ofNat v) ≤ 0)

/-! ## Candidates by their numbers -/

/-- The largest value of an attribute is an `int`. -/
theorem biggestValue_lt (data : List Sample) (i : Int32) : biggestValue data i < 2 ^ 31 := by
  suffices h : ∀ n < 2 ^ 31, data.foldl
      (fun biggest s => max biggest ((s.attr i).getD 0).toNatClampNeg) n < 2 ^ 31 from
    h 0 (by decide)
  induction data with
  | nil => exact fun n hn => hn
  | cons s data ih => exact fun n hn => ih _ (max_lt hn (Int32.toNatClampNeg_lt _))

/-- Reading the largest value off samples that have the attribute. -/
theorem readBiggest_eq {data : List Sample} {i : Int32} (hi : data ≠ [] → InRange i) :
    readBiggest data i = some (.ofNat (biggestValue data i)) := by
  suffices h : ∀ n < 2 ^ 31, data.foldlM
      (fun biggest s => (s.attr i).map fun a => if biggest < a then a else biggest)
        (Int32.ofNat n) =
      some (Int32.ofNat (data.foldl
        (fun biggest s => max biggest ((s.attr i).getD 0).toNatClampNeg) n)) from
    h 0 (by decide)
  induction data with
  | nil => exact fun n _ => rfl
  | cons s data ih =>
    intro n hn
    obtain ⟨a, ha⟩ := Option.isSome_iff_exists.mp
      ((s.attr_isSome_iff i).mpr (hi (List.cons_ne_nil s data)))
    have hmax : (if Int32.ofNat n < a then a else Int32.ofNat n) =
        Int32.ofNat (max n a.toNatClampNeg) := by
      have hofNat := Int32.toInt_ofNat_of_lt hn
      have hle := Int.self_le_toNat a.toInt
      rw [Int32.toNat_toInt] at hle
      split_ifs with hlt <;> rw [Int32.lt_iff_toInt_lt, hofNat] at hlt
      · have hnonneg : 0 ≤ a := Int32.le_iff_toInt_le.mpr (by rw [Int32.toInt_zero]; omega)
        rw [max_eq_right (by omega), Int32.ofNat_toNatClampNeg a hnonneg]
      · have hclamp : a.toNatClampNeg ≤ n := by
          rw [← Int32.toNat_toInt]
          omega
        rw [max_eq_left hclamp]
    rw [List.foldlM_cons, List.foldl_cons, ha, Option.map_some, hmax, Option.getD_some]
    exact ih (fun _ => hi (List.cons_ne_nil s data)) _ (max_lt hn (Int32.toNatClampNeg_lt a))

/-- An attribute that samples do not have is not read. -/
theorem readBiggest_eq_none {data : List Sample} (hne : data ≠ []) {i : Int32}
    (hi : ¬InRange i) : readBiggest data i = none := by
  obtain ⟨s, data, rfl⟩ := List.exists_cons_of_ne_nil hne
  have hnone : s.attr i = none := by
    rw [← Option.not_isSome_iff_eq_none, s.attr_isSome_iff]
    exact hi
  rw [readBiggest, List.foldlM_cons, hnone]
  rfl

/-- The attributes of samples are the numbers below `ATTR`. -/
theorem inRange_ofNat {i : ℕ} (hi : i < ATTR) : InRange (.ofNat i) := by
  have hrange : ∀ i < 5, InRange (.ofNat i) := by decide
  exact hrange i hi

/-- Candidates are the values below the largest one of the attributes below `attr`. -/
theorem candidate_iff {data : List Sample} {attr : ℤ} (hattr : attr ≤ ATTR)
    (split : Int32 × Int32) :
    Candidate data attr split ↔
      ∃ i < attr.toNat, ∃ v < biggestValue data (.ofNat i), split = (.ofNat i, .ofNat v) := by
  obtain ⟨id, value⟩ := split
  constructor
  · rintro ⟨hid, hlt, hvalue, hbiggest⟩
    have hofNat := Int32.ofNat_toNatClampNeg id hid
    have hcast := Int32.cast_toNatClampNeg id hid
    have hlt : id.toInt < attr := hlt
    refine ⟨id.toNatClampNeg, by omega, value.toNatClampNeg, by rwa [hofNat], ?_⟩
    rw [hofNat, Int32.ofNat_toNatClampNeg value hvalue]
  · rintro ⟨i, hi, v, hv, heq⟩
    obtain ⟨rfl, rfl⟩ := Prod.mk.inj heq
    have hi' : i < ATTR := by omega
    have hv' := hv.trans (biggestValue_lt data _)
    obtain ⟨hid, -⟩ := inRange_ofNat hi'
    have hlt : i < 2 ^ 31 := hi'.trans (by decide)
    refine ⟨hid, ?_, ?_, ?_⟩
    · rw [Int32.toInt_ofNat_of_lt hlt]
      omega
    · rw [Int32.le_iff_toInt_le, Int32.toInt_ofNat_of_lt hv', Int32.toInt_zero]
      omega
    · rwa [Int32.toNatClampNeg_ofNat_of_lt hv']

/-! ## When the search is defined -/

/-- Tasks that all answer are waited for. -/
theorem mapM_eq_some_map {α β : Type*} {f : α → Option β} {g : α → β} {l : List α}
    (h : ∀ x ∈ l, f x = some (g x)) : l.mapM f = some (l.map g) := by
  induction l with
  | nil => rfl
  | cons x l ih =>
    rw [List.mapM_cons, h x List.mem_cons_self, ih fun y hy => h y (List.mem_cons_of_mem x hy)]
    rfl

/-- Waiting for tasks is undefined when one of them is. -/
theorem isSome_of_mapM {α β : Type*} {f : α → Option β} {l : List α} (h : (l.mapM f).isSome)
    {x : α} (hx : x ∈ l) : (f x).isSome := by
  induction l with
  | nil => cases hx
  | cons y l ih =>
    rw [List.mapM_cons] at h
    obtain ⟨ys, hys⟩ := Option.isSome_iff_exists.mp h
    obtain ⟨b, hb, hrest⟩ := Option.bind_eq_some_iff.mp hys
    obtain ⟨bs, hbs, -⟩ := Option.bind_eq_some_iff.mp hrest
    rcases List.mem_cons.mp hx with rfl | hx
    · simp [hb]
    · exact ih (by simp [hbs]) hx

section Search

variable {K : Type*} [Field K] [LinearOrder K] {calcEntropy : List Sample → Int32 → Int32 → K}
  {data : List Sample} {attr : ℤ}

/-- A third is searched when its upper bound does not overflow. -/
theorem bestOfThirdBy_eq {i : Int32} {j : ℕ} (h : (j + 1) * biggestValue data i < 2 ^ 31) :
    bestOfThirdBy calcEntropy data i (biggestValue data i) j =
      some (lowestOfThird calcEntropy data i j) := by
  have hlow : j * biggestValue data i < 2 ^ 31 :=
    (Nat.mul_le_mul_right _ (Nat.le_succ j)).trans_lt h
  rw [bestOfThirdBy, intMul, intMul, if_pos hlow, if_pos h]
  rfl

/-- An attribute is searched when samples have it and its bounds do not overflow. -/
theorem bestOfAttributeBy_eq {i : Int32} (hi : data ≠ [] → InRange i)
    (h : 3 * biggestValue data i < 2 ^ 31) :
    bestOfAttributeBy calcEntropy data i = some (lowestOfAttribute calcEntropy data i) := by
  have hthirds : (List.range 3).mapM (bestOfThirdBy calcEntropy data i (biggestValue data i)) =
      some ((List.range 3).map (lowestOfThird calcEntropy data i)) := by
    refine mapM_eq_some_map fun j hj => bestOfThirdBy_eq ?_
    have hle : j + 1 ≤ 3 := List.mem_range.mp hj
    exact (Nat.mul_le_mul_right _ hle).trans_lt h
  rw [bestOfAttributeBy, readBiggest_eq hi, Option.bind_some,
    Int32.toNatClampNeg_ofNat_of_lt (biggestValue_lt data i), hthirds]
  rfl

/-- Attributes that are searched are ones that samples have, with bounds that do not overflow. -/
theorem of_bestOfAttributeBy {i : Int32} (h : (bestOfAttributeBy calcEntropy data i).isSome) :
    (data ≠ [] → InRange i) ∧ 3 * biggestValue data i < 2 ^ 31 := by
  have hi : data ≠ [] → InRange i := by
    intro hne
    by_contra hi
    rw [bestOfAttributeBy, readBiggest_eq_none hne hi] at h
    cases h
  refine ⟨hi, ?_⟩
  rw [bestOfAttributeBy, readBiggest_eq hi, Option.bind_some, Option.isSome_map,
    Int32.toNatClampNeg_ofNat_of_lt (biggestValue_lt data i)] at h
  -- the upper bound of the last third is the one that overflows first
  have hlast := isSome_of_mapM h (List.mem_range.mpr (by decide : 2 < 3))
  by_contra hover
  have hnone : intMul (2 + 1) (biggestValue data i) = none := if_neg hover
  simp [bestOfThirdBy, hnone] at hlast

/-- A search that is defined answers the lowest tuple over the attributes. -/
theorem getBestSplitBy_eq (h : Searchable data attr) :
    getBestSplitBy calcEntropy data attr =
      some (pickLowest ((List.range attr.toNat).map fun i =>
        lowestOfAttribute calcEntropy data (.ofNat i))).2 := by
  obtain ⟨hattr, hover⟩ := h
  rw [getBestSplitBy, mapM_eq_some_map fun i hi => ?_, Option.map_some]
  have hlt := List.mem_range.mp hi
  refine bestOfAttributeBy_eq (fun hne => inRange_ofNat ?_) (hover i hlt)
  have := hattr hne
  omega

/-- The search is defined when it is searchable, and only then. -/
theorem getBestSplitBy_isSome_iff :
    (getBestSplitBy calcEntropy data attr).isSome ↔ Searchable data attr := by
  refine ⟨fun h => ?_, fun h => by rw [getBestSplitBy_eq h, Option.isSome_some]⟩
  rw [getBestSplitBy, Option.isSome_map] at h
  have hall : ∀ i < attr.toNat, (data ≠ [] → InRange (.ofNat i)) ∧
      3 * biggestValue data (.ofNat i) < 2 ^ 31 :=
    fun i hi => of_bestOfAttributeBy (isSome_of_mapM h (List.mem_range.mpr hi))
  refine ⟨fun hne => ?_, fun i hi => (hall i hi).2⟩
  -- the attribute after the last one would be read
  by_contra hattr
  have hlast := (hall ATTR (by omega)).1 hne
  exact absurd hlast (by decide)

/-- With the measure of the source, the search is the one that training uses. -/
theorem getBestSplitBy_calcSplitEntropy (log : K → K) (h : Searchable data attr) :
    getBestSplitBy (calcSplitEntropy log) data attr = some (getBestSplit log data attr) :=
  getBestSplitBy_eq h

end Search

/-! ## The serial search -/

section Lowest

variable {K : Type*} [Field K] [LinearOrder K] {calcEntropy : List Sample → Int32 → Int32 → K}
  {data : List Sample}

/-- The tuple picked is the first of the lowest when all are below the initial bound. -/
theorem pickLowest_firstLowest {tuples : List (K × Int32 × Int32)} (hne : tuples ≠ [])
    (hbound : ∀ tup ∈ tuples, tup.1 < 1000000) :
    FirstLowest Prod.fst tuples (pickLowest tuples) :=
  scan_firstLowest hne hbound (0, 0, 0)

/-- The serial search finds a best split whenever there is a candidate. -/
theorem serialBestSplitBy_isBest {attr : ℤ} (hattr : attr ≤ ATTR)
    (hbound : ∀ i v, calcEntropy data i v < 1000000) (hcand : ∃ split, Candidate data attr split) :
    IsBest calcEntropy data attr (serialBestSplitBy calcEntropy data attr) := by
  set tuples := (List.range attr.toNat).flatMap fun i =>
    (List.range (biggestValue data (.ofNat i))).map (tupleOf calcEntropy data (.ofNat i))
    with htuples
  have hmem : ∀ tup, tup ∈ tuples ↔ ∃ i < attr.toNat, ∃ v < biggestValue data (.ofNat i),
      tup = tupleOf calcEntropy data (.ofNat i) v := by
    intro tup
    simp [htuples, eq_comm]
  have hoffered : ∀ split, Candidate data attr split →
      (calcEntropy data split.1 split.2, split) ∈ tuples := by
    intro split hsplit
    obtain ⟨i, hi, v, hv, rfl⟩ := (candidate_iff hattr split).mp hsplit
    exact (hmem _).mpr ⟨i, hi, v, hv, rfl⟩
  have hpick : FirstLowest Prod.fst tuples (pickLowest tuples) := by
    obtain ⟨split, hsplit⟩ := hcand
    refine pickLowest_firstLowest (List.ne_nil_of_mem (hoffered split hsplit)) fun tup htup => ?_
    obtain ⟨i, -, v, -, rfl⟩ := (hmem tup).mp htup
    exact hbound _ _
  obtain ⟨i, hi, v, hv, heq⟩ := (hmem _).mp hpick.mem
  have hresult : serialBestSplitBy calcEntropy data attr = (.ofNat i, .ofNat v) :=
    congrArg Prod.snd heq
  rw [hresult]
  refine ⟨(candidate_iff hattr _).mpr ⟨i, hi, v, hv, rfl⟩, fun other hother => ?_⟩
  have hle := hpick.le (hoffered other hother)
  rw [heq] at hle
  exact hle

/-! ## The lowest of an attribute -/

/-- Where the values of a third are. -/
theorem mem_valuesOfThird {biggest j w : ℕ} :
    w ∈ valuesOfThird biggest j ↔ j * biggest / 3 ≤ w ∧ w < (j + 1) * biggest / 3 := by
  rw [valuesOfThird, List.mem_range'_1]
  omega

/-- The values of a third are below the largest. -/
theorem lt_of_mem_valuesOfThird {biggest j w : ℕ} (hj : j < 3)
    (hw : w ∈ valuesOfThird biggest j) : w < biggest := by
  obtain ⟨-, hlt⟩ := mem_valuesOfThird.mp hw
  have hle : (j + 1) * biggest / 3 ≤ 3 * biggest / 3 :=
    Nat.div_le_div_right (Nat.mul_le_mul_right _ hj)
  omega

/-- Every value below the largest is in a third. -/
theorem exists_mem_valuesOfThird {biggest w : ℕ} (hw : w < biggest) :
    ∃ j < 3, w ∈ valuesOfThird biggest j := by
  simp only [mem_valuesOfThird]
  rcases Nat.lt_or_ge w (1 * biggest / 3) with h1 | h1
  · exact ⟨0, by decide, by omega, h1⟩
  rcases Nat.lt_or_ge w (2 * biggest / 3) with h2 | h2
  · exact ⟨1, by decide, h1, h2⟩
  · exact ⟨2, by decide, h2, by omega⟩

/-- Only fewer than three values leave a third empty. -/
theorem lt_three_of_valuesOfThird {biggest j : ℕ} (hj : j < 3)
    (h : valuesOfThird biggest j = []) : biggest < 3 := by
  by_contra hthree
  have hfirst : j * biggest / 3 ∈ valuesOfThird biggest j := by
    rw [mem_valuesOfThird]
    interval_cases j <;> omega
  rw [h] at hfirst
  cases hfirst

/-- The tuple picked among those of some values. -/
theorem pickLowest_tupleOf {i : Int32} (hbound : ∀ v, calcEntropy data i v < 1000000)
    {values : List ℕ} (hne : values ≠ []) :
    FirstLowest Prod.fst (values.map (tupleOf calcEntropy data i))
      (pickLowest (values.map (tupleOf calcEntropy data i))) := by
  refine pickLowest_firstLowest (by simpa using hne) fun tup htup => ?_
  obtain ⟨v, -, rfl⟩ := List.mem_map.mp htup
  exact hbound _

/-- A third is answered with zeros when it is empty, and else with one of its values. -/
theorem lowestOfThird_cases {i : Int32} (hbound : ∀ v, calcEntropy data i v < 1000000) {j : ℕ}
    (hj : j < 3) :
    (biggestValue data i < 3 ∧ lowestOfThird calcEntropy data i j = (0, 0, 0)) ∨
      ∃ v < biggestValue data i,
        lowestOfThird calcEntropy data i j = tupleOf calcEntropy data i v := by
  rcases eq_or_ne (valuesOfThird (biggestValue data i) j) [] with hempty | hne
  · refine .inl ⟨lt_three_of_valuesOfThird hj hempty, ?_⟩
    rw [lowestOfThird, hempty]
    rfl
  · obtain ⟨v, hv, heq⟩ := List.mem_map.mp (pickLowest_tupleOf hbound hne).mem
    exact .inr ⟨v, lt_of_mem_valuesOfThird hj hv, heq.symm⟩

/-- No value of a third is lower than its answer. -/
theorem lowestOfThird_le {i : Int32} (hbound : ∀ v, calcEntropy data i v < 1000000) {j w : ℕ}
    (hw : w ∈ valuesOfThird (biggestValue data i) j) :
    (lowestOfThird calcEntropy data i j).1 ≤ calcEntropy data i (.ofNat w) :=
  (pickLowest_tupleOf hbound (List.ne_nil_of_mem hw)).le (List.mem_map_of_mem hw)

/-- The first third of fewer than three values is empty. -/
theorem lowestOfThird_zero {i : Int32} (h : biggestValue data i < 3) :
    lowestOfThird calcEntropy data i 0 = (0, 0, 0) := by
  have hempty : valuesOfThird (biggestValue data i) 0 = [] := by
    refine List.eq_nil_iff_forall_not_mem.mpr fun w hw => ?_
    rw [mem_valuesOfThird] at hw
    omega
  rw [lowestOfThird, hempty]
  rfl

variable [IsStrictOrderedRing K]

/-- The answer for an attribute is the first of the lowest over its thirds. -/
theorem lowestOfAttribute_firstLowest {i : Int32} (hbound : ∀ v, calcEntropy data i v < 1000000) :
    FirstLowest Prod.fst ((List.range 3).map (lowestOfThird calcEntropy data i))
      (lowestOfAttribute calcEntropy data i) := by
  refine pickLowest_firstLowest (by simp) fun tup htup => ?_
  obtain ⟨j, hj, rfl⟩ := List.mem_map.mp htup
  rcases lowestOfThird_cases hbound (List.mem_range.mp hj) with ⟨-, heq⟩ | ⟨v, -, heq⟩
  · have hzero : (0 : K) < 1000000 := by norm_num
    rwa [heq]
  · rw [heq]
    exact hbound _

/-- No value of an attribute is lower than its answer. -/
theorem lowestOfAttribute_le {i : Int32} (hbound : ∀ v, calcEntropy data i v < 1000000) {w : ℕ}
    (hw : w < biggestValue data i) :
    (lowestOfAttribute calcEntropy data i).1 ≤ calcEntropy data i (.ofNat w) := by
  obtain ⟨j, hj, hmem⟩ := exists_mem_valuesOfThird hw
  have hle := (lowestOfAttribute_firstLowest hbound).le
    (List.mem_map_of_mem (List.mem_range.mpr hj))
  exact hle.trans (lowestOfThird_le hbound hmem)

/-- An attribute is answered with zeros or with one of its values. With fewer than three values, the
zeros of the first third give way to a negative measure only. -/
theorem lowestOfAttribute_cases {i : Int32} (hbound : ∀ v, calcEntropy data i v < 1000000) :
    (biggestValue data i < 3 ∧ lowestOfAttribute calcEntropy data i = (0, 0, 0)) ∨
      ∃ v < biggestValue data i,
        lowestOfAttribute calcEntropy data i = tupleOf calcEntropy data i v ∧
        (biggestValue data i < 3 → calcEntropy data i (.ofNat v) < 0) := by
  have hpick := lowestOfAttribute_firstLowest hbound
  obtain ⟨j, hj, heq⟩ := List.mem_map.mp hpick.mem
  rcases lowestOfThird_cases hbound (List.mem_range.mp hj) with ⟨hthree, hzero⟩ | ⟨v, hv, htup⟩
  · exact .inl ⟨hthree, heq.symm.trans hzero⟩
  rcases Nat.lt_or_ge (biggestValue data i) 3 with hthree | hthree
  · -- the scan starts with the zeros of the first third
    have hrange : List.range 3 = [0, 1, 2] := rfl
    rw [hrange, List.map_cons, lowestOfThird_zero hthree] at hpick
    rcases hpick.eq_head_or_lt with hhead | hlt
    · exact .inl ⟨hthree, hhead⟩
    · rw [← heq, htup] at hlt
      exact .inr ⟨v, hv, heq.symm.trans htup, fun _ => hlt⟩
  · exact .inr ⟨v, hv, heq.symm.trans htup, fun h => absurd h hthree.not_gt⟩

variable (calcEntropy data) in
/-- The answer over all attributes is that of one of them, no higher than any and lower than those
of the attributes before it. -/
theorem exists_attribute {attr : ℤ} (hattr : 0 < attr)
    (hbound : ∀ i v, calcEntropy data i v < 1000000) :
    ∃ k < attr.toNat,
      pickLowest ((List.range attr.toNat).map fun i =>
        lowestOfAttribute calcEntropy data (.ofNat i)) =
          lowestOfAttribute calcEntropy data (.ofNat k) ∧
      (∀ i < k, (lowestOfAttribute calcEntropy data (.ofNat k)).1 <
        (lowestOfAttribute calcEntropy data (.ofNat i)).1) ∧
      ∀ i < attr.toNat, (lowestOfAttribute calcEntropy data (.ofNat k)).1 ≤
        (lowestOfAttribute calcEntropy data (.ofNat i)).1 := by
  have hpos : 0 < attr.toNat := by omega
  set tuples := (List.range attr.toNat).map fun i =>
    lowestOfAttribute calcEntropy data (.ofNat i) with htuples
  have hpick : FirstLowest Prod.fst tuples (pickLowest tuples) := by
    refine pickLowest_firstLowest (by simpa [htuples] using hpos.ne') fun tup htup => ?_
    obtain ⟨i, -, rfl⟩ := List.mem_map.mp htup
    rcases lowestOfAttribute_cases (hbound (.ofNat i)) with ⟨-, heq⟩ | ⟨v, -, heq, -⟩
    · have hzero : (0 : K) < 1000000 := by norm_num
      rwa [heq]
    · rw [heq]
      exact hbound _ _
  obtain ⟨k, hk, heq, hbefore⟩ := hpick.exists_of_map_range
  refine ⟨k, hk, heq, fun i hi => heq ▸ hbefore i hi, fun i hi => ?_⟩
  rw [← heq]
  exact hpick.le (List.mem_map_of_mem (List.mem_range.mpr hi))

/-! ## The best split -/

/-- The answer of the parallel search is a best split when its zeros lose everywhere, or when
attribute `0` and value `0` are best anyway, and only then. -/
theorem isBest_answer_iff {attr : ℤ} (hpos : 0 < attr) (hattr : attr ≤ ATTR)
    (hbound : ∀ i v, calcEntropy data i v < 1000000) :
    IsBest calcEntropy data attr (pickLowest ((List.range attr.toNat).map fun i =>
        lowestOfAttribute calcEntropy data (.ofNat i))).2 ↔
      ZerosLose calcEntropy data attr ∨ IsBest calcEntropy data attr (0, 0) := by
  obtain ⟨k, hk, heq, hbefore, hle⟩ := exists_attribute calcEntropy data hpos hbound
  rw [heq]
  rcases lowestOfAttribute_cases (hbound (.ofNat k)) with ⟨hthree, hzero⟩ | ⟨v, hv, htup, hneg⟩
  · -- the zeros of an attribute win
    rw [hzero]
    rw [hzero] at hbefore hle
    refine ⟨.inr, fun h => h.resolve_left fun hlose => ?_⟩
    obtain ⟨m, hm, v, hv, hlt | ⟨hmk, hnonpos⟩⟩ := hlose k hk hthree
    · exact ((hle m hm).trans (lowestOfAttribute_le (hbound _) hv)).not_gt hlt
    · exact ((hbefore m hmk).trans_le (lowestOfAttribute_le (hbound _) hv)).not_ge hnonpos
  · -- a value of an attribute wins, and it is no higher than any other
    rw [htup] at hbefore hle ⊢
    have hbest : IsBest calcEntropy data attr (.ofNat k, .ofNat v) := by
      refine ⟨(candidate_iff hattr _).mpr ⟨k, hk, v, hv, rfl⟩, fun other hother => ?_⟩
      obtain ⟨m, hm, w, hw, rfl⟩ := (candidate_iff hattr other).mp hother
      exact (hle m hm).trans (lowestOfAttribute_le (hbound _) hw)
    refine iff_of_true hbest (.inl fun i hi hthree => ?_)
    rcases lowestOfAttribute_cases (hbound (.ofNat i)) with ⟨-, hzero⟩ | ⟨w, hw, -, hlt⟩
    · -- the zeros of that attribute have lost to the value that wins
      refine ⟨k, hk, v, hv, ?_⟩
      rcases Nat.lt_trichotomy k i with hki | rfl | hik
      · have hki' := hle i hi
        rw [hzero] at hki'
        exact .inr ⟨hki, hki'⟩
      · exact .inl (hneg hthree)
      · have hik' := hbefore i hik
        rw [hzero] at hik'
        exact .inl hik'
    · exact ⟨i, hi, w, hw, .inl (hlt hthree)⟩

/-- Where there is a candidate there are an attribute to search and a sample. -/
theorem of_candidate {attr : ℤ} {split : Int32 × Int32} (h : Candidate data attr split) :
    0 < attr ∧ data ≠ [] := by
  obtain ⟨hid, hlt, -, hvalue⟩ := h
  have hid' := Int32.le_iff_toInt_le.mp hid
  rw [Int32.toInt_zero] at hid'
  refine ⟨by omega, ?_⟩
  rintro rfl
  exact Nat.not_lt_zero _ hvalue

variable (calcEntropy data) in
/-- The search answers with a best split exactly when it is defined and either the zeros that stand
for empty thirds lose everywhere, or attribute `0` and value `0`, which they name, are best. -/
theorem exists_isBest_iff (attr : ℤ) (hbound : ∀ i v, calcEntropy data i v < 1000000)
    (hcand : ∃ split, Candidate data attr split) :
    (∃ split, getBestSplitBy calcEntropy data attr = some split ∧
        IsBest calcEntropy data attr split) ↔
      Searchable data attr ∧
        (ZerosLose calcEntropy data attr ∨ IsBest calcEntropy data attr (0, 0)) := by
  obtain ⟨split, hsplit⟩ := hcand
  obtain ⟨hpos, hne⟩ := of_candidate hsplit
  constructor
  · rintro ⟨best, hbest, hisBest⟩
    have hsearch : Searchable data attr := getBestSplitBy_isSome_iff.mp (by rw [hbest]; rfl)
    rw [getBestSplitBy_eq hsearch] at hbest
    rw [← Option.some.inj hbest] at hisBest
    exact ⟨hsearch, (isBest_answer_iff hpos (hsearch.1 hne) hbound).mp hisBest⟩
  · rintro ⟨hsearch, hbest⟩
    exact ⟨_, getBestSplitBy_eq hsearch,
      (isBest_answer_iff hpos (hsearch.1 hne) hbound).mpr hbest⟩

end Lowest

/-- Three values leave no third empty. -/
theorem exists_isBest_of_three :
    ∃ split, getBestSplitBy (fun _ _ _ => (1 : ℝ)) [⟨#v[3, 0, 0, 0, 0], 0⟩] 1 = some split ∧
      IsBest (fun _ _ _ => (1 : ℝ)) [⟨#v[3, 0, 0, 0, 0], 0⟩] 1 split := by
  refine (exists_isBest_iff (fun _ _ _ => (1 : ℝ)) [⟨#v[3, 0, 0, 0, 0], 0⟩] 1
    (fun _ _ => by norm_num) ⟨(0, 0), by decide⟩).mpr ⟨⟨fun _ => by decide, by decide⟩, .inl ?_⟩
  intro i hi hthree
  obtain rfl : i = 0 := by
    have : i < 1 := hi
    omega
  exact absurd hthree (by decide)

/-- With two values the first third is empty. Its zeros are answered though value `1` is lower than
value `0`. -/
theorem zeros_win :
    let calcEntropy : List Sample → Int32 → Int32 → ℝ := fun _ _ v => if v = 0 then 2 else 1
    let data : List Sample := [⟨#v[2, 0, 0, 0, 0], 0⟩]
    (∀ i v, calcEntropy data i v < 1000000) ∧ Candidate data 1 (0, 1) ∧
      ¬∃ split, getBestSplitBy calcEntropy data 1 = some split ∧
        IsBest calcEntropy data 1 split := by
  intro calcEntropy data
  have hbound : ∀ i v, calcEntropy data i v < 1000000 := by
    intro i v
    dsimp only [calcEntropy]
    split_ifs <;> norm_num
  have hcand : Candidate data 1 (0, 1) := by decide
  refine ⟨hbound, hcand, ?_⟩
  rintro ⟨split, heq, hbest⟩
  rw [getBestSplitBy_eq ⟨fun _ => by decide, by decide⟩] at heq
  rw [← Option.some.inj heq] at hbest
  rcases (isBest_answer_iff (by decide) (by decide) hbound).mp hbest with hlose | ⟨-, hle⟩
  · -- no measure is low enough
    obtain ⟨k, -, v, -, hlow⟩ := hlose 0 (by decide) (by decide)
    have hpos : 0 < calcEntropy data (.ofNat k) (.ofNat v) := by
      dsimp only [calcEntropy]
      split_ifs <;> norm_num
    rcases hlow with hlow | ⟨-, hlow⟩
    · exact hpos.not_gt hlow
    · exact hpos.not_ge hlow
  · have hone : (if (0 : Int32) = 0 then (2 : ℝ) else 1) ≤ if (1 : Int32) = 0 then 2 else 1 :=
      hle (0, 1) hcand
    rw [if_pos rfl, if_neg (by decide)] at hone
    norm_num at hone

end Guillemot.Trees
