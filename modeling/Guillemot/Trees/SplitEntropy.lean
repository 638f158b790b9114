import Guillemot.Trees.Training
import Mathlib.Analysis.SpecialFunctions.Log.Basic

/-!
# The entropy of a split in one pass

The `CalcEntropy` of `DLT.cpp` that takes a split goes through the samples once and counts the types
of both sides as it goes. `calcEntropyScan` is this function, and `calcEntropyScan_eq` says that the
histograms are those of the two sides, so that training uses the value that is computed here. A type
that cannot be counted leaves both functions undefined.

The serial search cuts the samples with `splitOn` first and calls `CalcEntropy` for each side, which
takes a probability to be a share of the side. The one pass takes it to be a share of all samples.
`calcEntropyScan_eq_iff` is what the sizes and the numbers of types have to be for the two to agree:
multiplied out, an equation of natural numbers.
-/

namespace Guillemot.Trees

/-! ## The functions of the source -/

/-- The variables of the loop over the samples. -/
structure SplitCounts where
  lowCount : List ℕ
  highCount : List ℕ
  lowSize : ℕ
  highSize : ℕ
deriving DecidableEq, Repr

/-- A round of the loop. -/
def SplitCounts.add (splitId splitVal : Int32) (counts : SplitCounts) (s : Sample) :
    Option SplitCounts :=
  (s.attr splitId).bind fun a =>
    if a > splitVal then
      (bump counts.highCount s.type).map fun highCount =>
        { counts with highCount := highCount, highSize := counts.highSize + 1 }
    else
      (bump counts.lowCount s.type).map fun lowCount =>
        { counts with lowCount := lowCount, lowSize := counts.lowSize + 1 }

section Entropy

variable {K : Type*} [Field K] [LinearOrder K]

/-- `CalcEntropy` of some samples and a split. -/
def calcEntropyScan (log : K → K) (data : List Sample) (splitId splitVal : Int32) : Option K :=
  (data.foldlM (SplitCounts.add splitId splitVal) ⟨[], [], 0, 0⟩).map fun counts =>
    entropyOf log counts.highCount data.length * (counts.highSize : K) / (data.length : K) +
      entropyOf log counts.lowCount data.length * (counts.lowSize : K) / (data.length : K)

/-! ## The scan -/

/-- The scan counts the types of the two sides. -/
theorem foldlM_add {splitId : Int32} (hid : InRange splitId) (splitVal : Int32) {data : List Sample}
    (hdata : ∀ s ∈ data, Countable s.type) :
    data.foldlM (SplitCounts.add splitId splitVal) ⟨[], [], 0, 0⟩ = some
      ⟨typeCounts (data.filter (DLT.sends splitId splitVal false)),
        typeCounts (data.filter (DLT.sends splitId splitVal true)),
        (data.filter (DLT.sends splitId splitVal false)).length,
        (data.filter (DLT.sends splitId splitVal true)).length⟩ := by
  -- by induction from the end, where the loop adds to both
  induction data using List.reverseRecOn with
  | nil => rfl
  | append_singleton data s ih =>
    have hs := bump_eq (hdata s (by simp))
    obtain ⟨a, ha⟩ := Option.isSome_iff_exists.mp ((s.attr_isSome_iff splitId).mpr hid)
    rw [List.foldlM_append, ih fun t ht => hdata t (List.mem_append_left _ ht)]
    by_cases hside : a > splitVal
    · have hhigh : DLT.sends splitId splitVal true s = true := by simp [DLT.sends, ha, hside]
      have hlow : DLT.sends splitId splitVal false s = false := by simp [DLT.sends, ha, hside]
      simp [SplitCounts.add, ha, hs, hside, hhigh, hlow, typeCounts]
    · have hhigh : DLT.sends splitId splitVal true s = false := by simp [DLT.sends, ha, hside]
      have hlow : DLT.sends splitId splitVal false s = true := by simp [DLT.sends, ha, hside]
      simp [SplitCounts.add, ha, hs, hside, hhigh, hlow, typeCounts]

/-- With a sample of the largest type the scan is undefined. -/
theorem foldlM_add_eq_none (splitId splitVal : Int32) {data : List Sample} {s : Sample}
    (hs : s ∈ data) (htype : s.type = Int32.maxValue) :
    data.foldlM (SplitCounts.add splitId splitVal) ⟨[], [], 0, 0⟩ = none := by
  refine foldlM_eq_none
    (I := fun counts => counts.lowCount.length < 2 ^ 31 ∧ counts.highCount.length < 2 ^ 31)
    (fun counts t counts' hlen hadd => ?_) hs (fun counts hlen => ?_) ⟨by decide, by decide⟩
  · unfold SplitCounts.add at hadd
    obtain ⟨a, -, hadd⟩ := Option.bind_eq_some_iff.mp hadd
    split_ifs at hadd
    · obtain ⟨highCount, hcount, rfl⟩ := Option.map_eq_some_iff.mp hadd
      exact ⟨hlen.1, length_bump hlen.2 hcount⟩
    · obtain ⟨lowCount, hcount, rfl⟩ := Option.map_eq_some_iff.mp hadd
      exact ⟨length_bump hlen.1 hcount, hlen.2⟩
  · unfold SplitCounts.add
    rw [htype, bump_maxValue hlen.1, bump_maxValue hlen.2]
    cases s.attr splitId with
    | none => rfl
    | some a =>
      rw [Option.bind_some]
      split_ifs <;> rfl

/-- The value of the one pass is the one that training uses. -/
theorem calcEntropyScan_eq (log : K → K) {splitId : Int32} (hid : InRange splitId)
    (splitVal : Int32) {data : List Sample} (hdata : ∀ s ∈ data, Countable s.type) :
    calcEntropyScan log data splitId splitVal =
      some (calcSplitEntropy log data splitId splitVal) := by
  have hlow : data.filter (DLT.sends splitId splitVal false) =
      data.filter fun s => !DLT.sends splitId splitVal true s :=
    List.filter_congr fun s _ => DLT.sends_not hid splitVal s
  rw [calcEntropyScan, foldlM_add hid splitVal hdata, hlow]
  rfl

end Entropy

/-! ## Entropy without a logarithm of a quotient -/

/-- The counts of a vector multiplied, each one to the power of itself. -/
def selfPower (counts : List ℕ) : ℕ := (counts.map fun c => c ^ c).prod

/-- No count to the power of itself is zero. -/
theorem selfPower_pos (counts : List ℕ) : 0 < selfPower counts := by
  refine List.prod_pos fun n hn => ?_
  obtain ⟨c, -, rfl⟩ := List.mem_map.mp hn
  exact Nat.pow_self_pos

/-- The sum over a vector of counts, with the number among which they are taken in a term of its
own. -/
theorem entropyOf_log (counts : List ℕ) {count : ℕ} (hcount : 0 < count) :
    entropyOf Real.log counts count =
      (counts.sum * Real.log count - Real.log (selfPower counts)) / (count * Real.log 2) := by
  have hN : (0 : ℝ) < count := by exact_mod_cast hcount
  have hlog2 : Real.log 2 ≠ 0 := (Real.log_pos one_lt_two).ne'
  suffices h : ∀ e : ℝ, counts.foldl
      (fun (entropy : ℝ) (c : ℕ) =>
        let prob := (c : ℝ) / (count : ℝ)
        if prob > 0 then entropy - prob * Real.log prob / Real.log (2 : ℕ) else entropy) e =
      e + (counts.sum * Real.log count - Real.log (selfPower counts)) /
        (count * Real.log 2) by
    rw [entropyOf, h, zero_add]
  induction counts with
  | nil => simp [selfPower]
  | cons c counts ih =>
    intro e
    have hpower : Real.log (selfPower (c :: counts)) =
        c * Real.log c + Real.log (selfPower counts) := by
      have hc : ((c ^ c : ℕ) : ℝ) ≠ 0 := by exact_mod_cast Nat.pow_self_pos.ne'
      have hrest : ((selfPower counts : ℕ) : ℝ) ≠ 0 := by
        exact_mod_cast (selfPower_pos counts).ne'
      rw [selfPower, List.map_cons, List.prod_cons, ← selfPower, Nat.cast_mul,
        Real.log_mul hc hrest, Nat.cast_pow, Real.log_pow]
    rw [List.foldl_cons, ih, hpower, List.sum_cons]
    rcases Nat.eq_zero_or_pos c with rfl | hpos
    · simp
    · have hc : (0 : ℝ) < c := by exact_mod_cast hpos
      simp only [gt_iff_lt, div_pos hc hN, if_true]
      rw [Real.log_div hc.ne' hN.ne']
      push_cast
      field_simp
      ring

/-- One more at one place is one more in the sum. -/
theorem sum_modify_succ {counts : List ℕ} {i : ℕ} (hi : i < counts.length) :
    (counts.modify i (· + 1)).sum = counts.sum + 1 := by
  have hsum : counts.sum = (counts.take i).sum + (counts[i] + (counts.drop (i + 1)).sum) := by
    rw [← List.sum_cons, ← List.drop_eq_getElem_cons hi, ← List.sum_append, List.take_append_drop]
  rw [List.modify_eq_take_cons_drop hi, List.sum_append, List.sum_cons, hsum]
  omega

/-- One more of a type is one more in the sum of the counts. -/
theorem sum_tally (counts : List ℕ) (type : ℕ) : (tally counts type).sum = counts.sum + 1 := by
  have hlt : type < (counts ++ List.replicate (type + 1 - counts.length) 0).length := by
    rw [List.length_append, List.length_replicate]
    omega
  -- the zeros that make the vector long enough add nothing
  rw [tally, sum_modify_succ hlt, List.sum_append, List.sum_replicate, smul_zero, add_zero]

/-- The counts add up to the number of samples. -/
theorem sum_typeCounts (data : List Sample) : (typeCounts data).sum = data.length := by
  induction data using List.reverseRecOn with
  | nil => rfl
  | append_singleton data s ih =>
    rw [typeCounts, List.foldl_append, List.foldl_cons, List.foldl_nil, sum_tally, ← typeCounts, ih,
      List.length_append, List.length_singleton]

/-- The entropy of a side by itself, weighted with its size. An empty side has none. -/
theorem length_mul_entropyAmong (side : List Sample) :
    side.length * entropyAmong Real.log side side.length =
      (side.length * Real.log side.length - Real.log (selfPower (typeCounts side))) /
        Real.log 2 := by
  rcases List.eq_nil_or_concat' side with rfl | ⟨init, s, rfl⟩
  · simp [typeCounts, selfPower]
  have hpos : 0 < (init ++ [s]).length := by simp
  have hlength : ((init ++ [s]).length : ℝ) ≠ 0 := by exact_mod_cast hpos.ne'
  have hlog2 : Real.log 2 ≠ 0 := (Real.log_pos one_lt_two).ne'
  rw [entropyAmong, entropyOf_log _ hpos, sum_typeCounts]
  field_simp

/-! ## When the two agree -/

/-- Taking probabilities among all samples and among those of a side comes to the same: a side is
empty, or the sizes and the numbers of the types make up for it. -/
def SharesAgree (high low : List Sample) : Prop :=
  high = [] ∨ low = [] ∨
    (high.length + low.length) ^ (high.length ^ 2 + low.length ^ 2) *
        (selfPower (typeCounts high) ^ low.length * selfPower (typeCounts low) ^ high.length) =
      (high.length ^ high.length * low.length ^ low.length) ^ (high.length + low.length)

instance (high low : List Sample) : Decidable (SharesAgree high low) :=
  inferInstanceAs (Decidable (_ ∨ _))

/-- The equation of natural numbers, in logarithms. -/
theorem shares_eq_iff {h l p q : ℕ} (hh : 0 < h) (hl : 0 < l) (hp : 0 < p) (hq : 0 < q) :
    (h + l) ^ (h ^ 2 + l ^ 2) * (p ^ l * q ^ h) = (h ^ h * l ^ l) ^ (h + l) ↔
      ((h : ℝ) ^ 2 + (l : ℝ) ^ 2) * Real.log (h + l) + (l * Real.log p + h * Real.log q) =
        (h + l) * (h * Real.log h + l * Real.log l) := by
  have hh' : (0 : ℝ) < h := by exact_mod_cast hh
  have hl' : (0 : ℝ) < l := by exact_mod_cast hl
  have hp' : (0 : ℝ) < p := by exact_mod_cast hp
  have hq' : (0 : ℝ) < q := by exact_mod_cast hq
  have hleft : Real.log (((h : ℝ) + l) ^ (h ^ 2 + l ^ 2) * ((p : ℝ) ^ l * (q : ℝ) ^ h)) =
      ((h : ℝ) ^ 2 + (l : ℝ) ^ 2) * Real.log (h + l) + (l * Real.log p + h * Real.log q) := by
    rw [Real.log_mul (by positivity) (by positivity), Real.log_mul (by positivity) (by positivity),
      Real.log_pow, Real.log_pow, Real.log_pow]
    push_cast
    ring
  have hright : Real.log (((h : ℝ) ^ h * (l : ℝ) ^ l) ^ (h + l)) =
      (h + l) * (h * Real.log h + l * Real.log l) := by
    rw [Real.log_pow, Real.log_mul (by positivity) (by positivity), Real.log_pow, Real.log_pow]
    push_cast
    ring
  rw [← hleft, ← hright, ← Nat.cast_inj (R := ℝ)]
  push_cast
  refine ⟨fun heq => by rw [heq], fun heq => Real.log_injOn_pos ?_ ?_ heq⟩
  · exact Set.mem_Ioi.mpr (by positivity)
  · exact Set.mem_Ioi.mpr (by positivity)

/-- Cleared of denominators, the two sums of entropies differ by what the sizes do. -/
theorem weighted_sums_eq_iff {h l a b p q t g : ℝ} (hsum : h + l ≠ 0) (hg : g ≠ 0) :
    (h * t - p) / ((h + l) * g) * h / (h + l) + (l * t - q) / ((h + l) * g) * l / (h + l) =
        ((h * a - p) / g + (l * b - q) / g) / (h + l) ↔
      (h ^ 2 + l ^ 2) * t + (l * p + h * q) = (h + l) * (h * a + l * b) := by
  have hdiff : (h * t - p) / ((h + l) * g) * h / (h + l) +
        (l * t - q) / ((h + l) * g) * l / (h + l) -
        ((h * a - p) / g + (l * b - q) / g) / (h + l) =
      ((h ^ 2 + l ^ 2) * t + (l * p + h * q) - (h + l) * (h * a + l * b)) /
        ((h + l) ^ 2 * g) := by
    field_simp
    ring
  rw [← sub_eq_zero, hdiff, div_eq_zero_iff, or_iff_left (mul_ne_zero (pow_ne_zero 2 hsum) hg),
    sub_eq_zero]

/-- A side alone is all samples, so that its shares are the same. -/
theorem entropyOf_alone (side : List Sample) :
    entropyOf Real.log (typeCounts side) side.length * side.length / side.length =
      side.length * entropyAmong Real.log side side.length / side.length := by
  rw [mul_comm]
  rfl

/-- The entropies of two sides among all samples and by themselves, for the samples of both. -/
theorem weighted_eq_iff {high low : List Sample} {count : ℕ}
    (hcount : count = high.length + low.length) :
    entropyOf Real.log (typeCounts high) count * (high.length : ℝ) / (count : ℝ) +
        entropyOf Real.log (typeCounts low) count * (low.length : ℝ) / (count : ℝ) =
      (high.length * entropyAmong Real.log high high.length +
        low.length * entropyAmong Real.log low low.length) / (count : ℝ) ↔
      SharesAgree high low := by
  subst hcount
  rcases eq_or_ne high [] with hhigh | hhigh
  · -- the low side alone
    refine iff_of_true ?_ (.inl hhigh)
    subst hhigh
    simp [← entropyOf_alone low]
  rcases eq_or_ne low [] with hlow | hlow
  · refine iff_of_true ?_ (.inr (.inl hlow))
    subst hlow
    simp [← entropyOf_alone high]
  have hh := List.length_pos_iff.mpr hhigh
  have hl := List.length_pos_iff.mpr hlow
  have hcount : 0 < high.length + low.length := Nat.add_pos_left hh _
  have hsum : (high.length : ℝ) + low.length ≠ 0 := by exact_mod_cast hcount.ne'
  have hlog2 : Real.log 2 ≠ 0 := (Real.log_pos one_lt_two).ne'
  rw [SharesAgree, or_iff_right hhigh, or_iff_right hlow,
    shares_eq_iff hh hl (selfPower_pos _) (selfPower_pos _), length_mul_entropyAmong,
    length_mul_entropyAmong, entropyOf_log _ hcount, entropyOf_log _ hcount, sum_typeCounts,
    sum_typeCounts, Nat.cast_add]
  exact weighted_sums_eq_iff hsum hlog2

/-- What the serial search computes with the two sides that `splitOn` returns is what the one pass
computes. -/
def PassesAgree (data : List Sample) (splitId splitVal : Int32) : Prop :=
  ∃ high low highEntropy lowEntropy,
    splitOn splitId splitVal true data = some high ∧
    splitOn splitId splitVal false data = some low ∧
    calcEntropy Real.log high = some highEntropy ∧ calcEntropy Real.log low = some lowEntropy ∧
    calcEntropyScan Real.log data splitId splitVal =
      some ((high.length * highEntropy + low.length * lowEntropy) / data.length)

/-- The entropy of a side whose types can be counted. -/
theorem calcEntropy_filter {data : List Sample} (hdata : ∀ s ∈ data, Countable s.type)
    (p : Sample → Bool) : calcEntropy Real.log (data.filter p) =
      some (entropyAmong Real.log (data.filter p) (data.filter p).length) := by
  rw [calcEntropy, countTypes_eq fun s hs => hdata s (List.mem_of_mem_filter hs)]
  rfl

/-- The two agree on samples whose types can be counted when the shares of the sides agree, and only
then. -/
theorem passesAgree_iff_sharesAgree {data : List Sample} (hdata : ∀ s ∈ data, Countable s.type)
    {splitId : Int32} (hid : InRange splitId) (splitVal : Int32) :
    PassesAgree data splitId splitVal ↔
      SharesAgree (data.filter (DLT.sends splitId splitVal true))
        (data.filter (DLT.sends splitId splitVal false)) := by
  have hhigh := splitOn_eq_filter hid splitVal true data
  have hlow := splitOn_eq_filter hid splitVal false data
  have hhighEntropy := calcEntropy_filter hdata (DLT.sends splitId splitVal true)
  have hlowEntropy := calcEntropy_filter hdata (DLT.sends splitId splitVal false)
  have hscan := foldlM_add hid splitVal hdata
  have hcount := (halves_perm hid splitVal data).length_eq.symm
  rw [List.length_append] at hcount
  rw [← weighted_eq_iff hcount]
  constructor
  · rintro ⟨high, low, highEntropy, lowEntropy, hhigh', hlow', hhighEntropy', hlowEntropy', heq⟩
    obtain rfl := Option.some.inj (hhigh.symm.trans hhigh')
    obtain rfl := Option.some.inj (hlow.symm.trans hlow')
    obtain rfl := Option.some.inj (hhighEntropy.symm.trans hhighEntropy')
    obtain rfl := Option.some.inj (hlowEntropy.symm.trans hlowEntropy')
    rw [calcEntropyScan, hscan] at heq
    exact Option.some.inj heq
  · intro heq
    refine ⟨_, _, _, _, hhigh, hlow, hhighEntropy, hlowEntropy, ?_⟩
    rw [calcEntropyScan, hscan]
    exact congrArg some heq

/-- The one pass computes the weighted entropy of the sides that `splitOn` returns exactly when no
sample is of the largest type and the shares of the sides agree. -/
theorem calcEntropyScan_eq_iff {data : List Sample} (htypes : ∀ s ∈ data, 0 ≤ s.type)
    {splitId : Int32} (hid : InRange splitId) (splitVal : Int32) :
    PassesAgree data splitId splitVal ↔
      (∀ s ∈ data, s.type ≠ Int32.maxValue) ∧
        SharesAgree (data.filter (DLT.sends splitId splitVal true))
          (data.filter (DLT.sends splitId splitVal false)) := by
  by_cases hmax : ∀ s ∈ data, s.type ≠ Int32.maxValue
  · rw [and_iff_right hmax]
    exact passesAgree_iff_sharesAgree (fun s hs => ⟨htypes s hs, hmax s hs⟩) hid splitVal
  · refine iff_of_false ?_ fun h => hmax h.1
    push Not at hmax
    obtain ⟨s, hs, htype⟩ := hmax
    rintro ⟨high, low, highEntropy, lowEntropy, -, -, -, -, heq⟩
    rw [calcEntropyScan, foldlM_add_eq_none splitId splitVal hs htype] at heq
    cases heq

/-- Two samples on each side, with four types, make up for the shares. -/
theorem calcEntropyScan_eq_iff_of_four :
    PassesAgree [⟨#v[1, 0, 0, 0, 0], 0⟩, ⟨#v[1, 0, 0, 0, 0], 1⟩, ⟨#v[3, 0, 0, 0, 0], 2⟩,
      ⟨#v[3, 0, 0, 0, 0], 3⟩] 0 2 :=
  (calcEntropyScan_eq_iff (by decide) (by decide) 2).mpr ⟨by decide, by decide⟩

/-- Two samples of different types, one on each side. -/
def onePerSide : List Sample := [⟨#v[1, 0, 0, 0, 0], 0⟩, ⟨#v[3, 0, 0, 0, 0], 1⟩]

/-- Each side by itself has no entropy, and the one pass finds some. -/
theorem shares_differ : ¬PassesAgree onePerSide 0 2 := by
  rw [passesAgree_iff_sharesAgree (by decide) (by decide)]
  decide

end Guillemot.Trees
