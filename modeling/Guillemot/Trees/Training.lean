import Guillemot.Trees.Tree
import Mathlib.Algebra.Field.Rat
import Mathlib.Algebra.Order.Ring.Rat
import Mathlib.Order.Lattice

/-!
# Training a decision tree

The training constructor of `DLT.cpp` with `splitOn`, `CalcEntropy` and `getBestSplit`. The
arithmetic of the entropy is that of any ordered field, with any function for `log`. The constructor
takes its splits from a parameter that may answer differently at every node: nothing below depends
on them as long as the attribute is one that samples have, and `getBestSplit` only ever chooses such
a one. An array is a list, and reading past its end is `none`, as is an attribute out of range.

The counts of the types are in a vector that is made long enough with `resize(s.type + 1)`, in
`int`: a sample of the largest type cannot be counted, and no tree is built from it. A negative type
is compared with the size of the vector as a huge unsigned number, and cannot be counted either.
`typeCounts` are the counts otherwise.

`train_subtree` is the invariant of the construction: the node at the end of a path was built from
the samples that `Classify` takes along that path, no others.
-/

namespace Guillemot.Trees

/-! ## The functions of the source -/

/-- The first `count` samples of an array. -/
def firstSamples (data : List Sample) (count : ℤ) : Option (List Sample) :=
  if count ≤ data.length then some (data.take count.toNat) else none

/-- `type + 1`, in `int`, of a type that is not negative. -/
def nextType (type : Int32) : Option ℕ :=
  if type.toNatClampNeg + 1 < 2 ^ 31 then some (type.toNatClampNeg + 1) else none

/-- `++counts[type]`, with the vector made long enough before. -/
def bump (counts : List ℕ) (type : Int32) : Option (List ℕ) :=
  if type < 0 then none
  else if counts.length ≤ type.toNatClampNeg then
    (nextType type).map fun size =>
      (counts ++ List.replicate (size - counts.length) 0).modify type.toNatClampNeg (· + 1)
  else some (counts.modify type.toNatClampNeg (· + 1))

/-- The vector `counts`: how many samples there are of each type. -/
def countTypes (data : List Sample) : Option (List ℕ) :=
  data.foldlM (fun counts s => bump counts s.type) []

/-- `max_count`: the first type of which there are most. -/
def maxCount (counts : List ℕ) : ℕ :=
  (List.range counts.length).foldl
    (fun max_count i => if counts.getD i 0 > counts.getD max_count 0 then i else max_count) 0

/-- The class of a leaf. -/
def leafClass (data : List Sample) : Option Int32 :=
  (countTypes data).map fun counts => Int32.ofNat (maxCount counts)

/-- A vector of counts with one more of a type. -/
def tally (counts : List ℕ) (type : ℕ) : List ℕ :=
  (counts ++ List.replicate (type + 1 - counts.length) 0).modify type (· + 1)

/-- How many samples there are of each type, when all of them can be counted. -/
def typeCounts (data : List Sample) : List ℕ :=
  data.foldl (fun counts s => tally counts s.type.toNatClampNeg) []

section Entropy

variable {K : Type*} [Field K] [LinearOrder K]

/-- `EPSILON`. -/
def EPSILON : K := 0.0001

/-- The sum over a vector of counts, each probability taken among `count`. -/
def entropyOf (log : K → K) (counts : List ℕ) (count : ℕ) : K :=
  counts.foldl
    (fun (entropy : K) (c : ℕ) =>
      let prob := (c : K) / (count : K)
      if prob > 0 then entropy - prob * log prob / log (2 : ℕ) else entropy) 0

/-- `CalcEntropy` of some samples. -/
def calcEntropy (log : K → K) (data : List Sample) : Option K :=
  (countTypes data).map fun counts => entropyOf log counts data.length

/-- The entropy of the types of some samples that can be counted, each probability taken among
`count`. -/
def entropyAmong (log : K → K) (data : List Sample) (count : ℕ) : K :=
  entropyOf log (typeCounts data) count

/-- `CalcEntropy` of some samples that are split, when all of them can be counted. -/
def calcSplitEntropy (log : K → K) (data : List Sample) (splitId splitVal : Int32) : K :=
  let high := data.filter (DLT.sends splitId splitVal true)
  let low := data.filter fun s => !DLT.sends splitId splitVal true s
  let count : K := (data.length : K)
  entropyAmong log high data.length * (high.length : K) / count +
    entropyAmong log low data.length * (low.length : K) / count

/-- The first of the lowest tuples below `1000000`, and a tuple of zeros when there is none. -/
def pickLowest (tuples : List (K × Int32 × Int32)) : K × Int32 × Int32 :=
  (tuples.foldl (fun best tup => if tup.1 < best.1 then (tup.1, tup) else best)
    ((1000000 : K), (0, 0, 0))).2

/-- `biggestValue`: the largest value of an attribute, from `0` on. -/
def biggestValue (data : List Sample) (i : Int32) : ℕ :=
  data.foldl (fun biggest s => max biggest ((s.attr i).getD 0).toNatClampNeg) 0

/-- The task for a third of the values of an attribute. -/
def bestOfThird (log : K → K) (data : List Sample) (i : Int32) (j : ℕ) : K × Int32 × Int32 :=
  let biggest := biggestValue data i
  pickLowest ((List.range' (j * biggest / 3) ((j + 1) * biggest / 3 - j * biggest / 3)).map
    fun curValue => (calcSplitEntropy log data i (.ofNat curValue), i, .ofNat curValue))

/-- `getBestSplit`: the lowest entropy over all attributes, where the tasks for the thirds of one
attribute and for the attributes are waited for in order. -/
def getBestSplit (log : K → K) (data : List Sample) (attr : ℤ) : Int32 × Int32 :=
  (pickLowest ((List.range attr.toNat).map fun i =>
    pickLowest ((List.range 3).map fun j => bestOfThird log data (.ofNat i) j))).2

end Entropy

/-- `splitOn`: the comparison binds tighter than the `^`. -/
def splitOn (id value : Int32) (greater : Bool) : List Sample → Option (List Sample)
  | [] => some []
  | s :: data =>
    (s.attr id).bind fun a =>
      (splitOn id value greater data).map fun ret =>
        if xor (decide (a ≤ value)) greater then s :: ret else ret

section Train

variable {K : Type*} [Field K] [LinearOrder K] (log : K → K)
  (bestSplit : List Bool → List Sample → ℤ → Int32 × Int32) (attr : ℤ)

/-- The training constructor `DLT::DLT`, at the end of a path from the root. -/
def DLT.train (path : List Bool) (data : List Sample) (count depth : ℤ) : Option DLT :=
  (firstSamples data count).bind fun data =>
  (calcEntropy log data).bind fun entropy =>
    if h : depth ≤ 0 ∨ entropy < EPSILON then (leafClass data).map .leaf
    else
      let split := bestSplit path data attr
      (splitOn split.1 split.2 true data).bind fun highData =>
      (splitOn split.1 split.2 false data).bind fun lowData =>
      (train (path ++ [true]) highData highData.length (depth - 1)).bind fun highSide =>
      (train (path ++ [false]) lowData lowData.length (depth - 1)).map fun lowSide =>
        .branch split.1 split.2 lowSide highSide
termination_by depth.toNat
decreasing_by all_goals omega

end Train

/-! ## Counting types -/

/-- An array of its own length is read whole. -/
@[simp]
theorem firstSamples_length (data : List Sample) : firstSamples data data.length = some data := by
  simp [firstSamples]

/-- A type that can be counted. -/
def Countable (type : Int32) : Prop := 0 ≤ type ∧ type ≠ Int32.maxValue

instance (type : Int32) : Decidable (Countable type) := inferInstanceAs (Decidable (_ ∧ _))

theorem nextType_eq {type : Int32} (h : type ≠ Int32.maxValue) :
    nextType type = some (type.toNatClampNeg + 1) := by
  refine if_pos ?_
  have hlt := Int32.toNatClampNeg_lt type
  have hne : type.toNatClampNeg ≠ 2 ^ 31 - 1 := by
    intro heq
    refine h (Int32.toInt_inj.mp ?_)
    rw [Int32.toInt_maxValue]
    have hnat := Int32.toNat_toInt type
    omega
  omega

/-- A type is counted. -/
theorem bump_eq {type : Int32} (h : Countable type) (counts : List ℕ) :
    bump counts type = some (tally counts type.toNatClampNeg) := by
  unfold bump tally
  rw [if_neg (Int32.not_lt.mpr h.1)]
  split_ifs with hlen
  · rw [nextType_eq h.2, Option.map_some]
  · have hnone : type.toNatClampNeg + 1 - counts.length = 0 := by omega
    rw [hnone, List.replicate_zero, List.append_nil]

/-- The largest type is not. -/
theorem bump_maxValue {counts : List ℕ} (h : counts.length < 2 ^ 31) :
    bump counts Int32.maxValue = none := by
  have hmax : Int32.maxValue.toNatClampNeg = 2 ^ 31 - 1 := rfl
  have hnext : nextType Int32.maxValue = none := rfl
  unfold bump
  rw [if_neg (by decide), if_pos (by rw [hmax]; omega), hnext, Option.map_none]

/-- The vector is never longer than an `int`. -/
theorem length_bump {counts counts' : List ℕ} {type : Int32} (hlen : counts.length < 2 ^ 31)
    (h : bump counts type = some counts') : counts'.length < 2 ^ 31 := by
  unfold bump at h
  split_ifs at h with hneg hshort
  · obtain ⟨size, hsize, rfl⟩ := Option.map_eq_some_iff.mp h
    have hsmall : size < 2 ^ 31 := by
      unfold nextType at hsize
      split_ifs at hsize with hlt
      obtain rfl := Option.some.inj hsize
      exact hlt
    rw [List.length_modify, List.length_append, List.length_replicate]
    omega
  · obtain rfl := Option.some.inj h
    rwa [List.length_modify]

/-- A fold that is undefined at one of its steps, in all states that it may be in, is undefined. -/
theorem foldlM_eq_none {α β : Type*} {f : β → α → Option β} {I : β → Prop} {l : List α} {a : α}
    (hstep : ∀ b x b', I b → f b x = some b' → I b') (ha : a ∈ l) (hnone : ∀ b, I b → f b a = none)
    {b : β} (hb : I b) : l.foldlM f b = none := by
  induction l generalizing b with
  | nil => cases ha
  | cons x l ih =>
    rw [List.foldlM_cons]
    rcases hx : f b x with _ | b'
    · rfl
    · rcases List.mem_cons.mp ha with rfl | ha
      · rw [hnone b hb] at hx
        cases hx
      · exact ih ha (hstep b x b' hb hx)

/-- Samples whose types can be counted are counted. -/
theorem countTypes_eq {data : List Sample} (h : ∀ s ∈ data, Countable s.type) :
    countTypes data = some (typeCounts data) := by
  suffices hfold : ∀ counts : List ℕ, data.foldlM (fun counts s => bump counts s.type) counts =
      some (data.foldl (fun counts s => tally counts s.type.toNatClampNeg) counts) from hfold []
  induction data with
  | nil => exact fun _ => rfl
  | cons s data ih =>
    intro counts
    rw [List.foldlM_cons, bump_eq (h s List.mem_cons_self)]
    exact ih (fun t ht => h t (List.mem_cons_of_mem s ht)) _

/-- With a sample of the largest type there are no counts. -/
theorem countTypes_eq_none {data : List Sample} {s : Sample} (hs : s ∈ data)
    (htype : s.type = Int32.maxValue) : countTypes data = none := by
  refine foldlM_eq_none (I := fun counts => counts.length < 2 ^ 31)
    (fun counts t counts' hlen => length_bump hlen) hs (fun counts hlen => ?_) (by decide)
  rw [htype]
  exact bump_maxValue hlen

theorem tally_getD (counts : List ℕ) (type i : ℕ) :
    (tally counts type).getD i 0 = counts.getD i 0 + if type = i then 1 else 0 := by
  unfold tally
  simp only [List.getD_eq_getElem?_getD, List.getElem?_modify]
  split_ifs <;> grind

/-- The counts are the numbers of samples of each type. -/
theorem typeCounts_getD (data : List Sample) (i : ℕ) :
    (typeCounts data).getD i 0 = data.countP fun s => s.type.toNatClampNeg = i := by
  suffices h : ∀ counts : List ℕ,
      (data.foldl (fun counts s => tally counts s.type.toNatClampNeg) counts).getD i 0 =
        counts.getD i 0 + data.countP fun s => s.type.toNatClampNeg = i by
    simpa [typeCounts] using h []
  induction data with
  | nil => simp
  | cons s data ih =>
    intro counts
    rw [List.foldl_cons, ih, tally_getD, List.countP_cons]
    simp only [decide_eq_true_eq]
    omega

/-- The class chosen has the largest count. -/
theorem getD_le_maxCount (counts : List ℕ) (i : ℕ) :
    counts.getD i 0 ≤ counts.getD (maxCount counts) 0 := by
  suffices h : ∀ n, ∀ i < n, counts.getD i 0 ≤ counts.getD ((List.range n).foldl
      (fun m i => if counts.getD i 0 > counts.getD m 0 then i else m) 0) 0 by
    rcases Nat.lt_or_ge i counts.length with hi | hi
    · exact h _ i hi
    · simp [hi]
  intro n
  induction n with
  | zero => simp
  | succ n ih =>
    -- the last candidate either wins or leaves the choice as it was
    intro i hi
    rw [List.range_succ, List.foldl_append, List.foldl_cons, List.foldl_nil]
    rcases Nat.lt_succ_iff_lt_or_eq.mp hi with hi | rfl
    · have := ih i hi
      split_ifs <;> omega
    · split_ifs <;> omega

/-- A class is a most frequent type of some samples: no type has more of them, and it is `0` when
there are none. -/
def MostFrequent (v : Int32) (data : List Sample) : Prop :=
  (data = [] → v = 0) ∧ ∀ u, data.countP (·.type = u) ≤ data.countP (·.type = v)

/-- Types that are not negative are told apart by their numbers. -/
theorem countP_type {data : List Sample} (htypes : ∀ s ∈ data, 0 ≤ s.type) {u : Int32}
    (hu : 0 ≤ u) :
    (data.countP fun s => s.type.toNatClampNeg = u.toNatClampNeg) = data.countP (·.type = u) := by
  refine List.countP_congr fun s hs => ?_
  simp only [decide_eq_true_eq]
  refine ⟨fun h => ?_, congrArg _⟩
  rw [← Int32.ofNat_toNatClampNeg s.type (htypes s hs), h, Int32.ofNat_toNatClampNeg u hu]

/-- The type of which there are most samples, when all of them can be counted. -/
def modalType (data : List Sample) : Int32 := Int32.ofNat (maxCount (typeCounts data))

/-- The class of a leaf is a most frequent type of the samples it was built from. -/
theorem modalType_mostFrequent {data : List Sample} (htypes : ∀ s ∈ data, 0 ≤ s.type) :
    MostFrequent (modalType data) data := by
  have hmax := getD_le_maxCount (typeCounts data)
  simp only [typeCounts_getD] at hmax
  set m := maxCount (typeCounts data) with hm
  refine ⟨?_, fun u => ?_⟩
  · rintro rfl
    rfl
  by_cases hu : 0 ≤ u
  · -- either there are none of the largest class, or one of them is a sample of that type
    rw [← countP_type htypes hu]
    refine (hmax _).trans ?_
    rcases Nat.eq_zero_or_pos (data.countP fun s => s.type.toNatClampNeg = m) with hzero | hpos
    · omega
    obtain ⟨s, hs, hsm⟩ := List.countP_pos_iff.mp hpos
    have hclass : modalType data = s.type := by
      rw [modalType, ← hm, ← of_decide_eq_true hsm, Int32.ofNat_toNatClampNeg _ (htypes s hs)]
    rw [hclass, ← countP_type htypes (htypes s hs), of_decide_eq_true hsm]
  · have hnone : data.countP (·.type = u) = 0 := by
      refine List.countP_eq_zero.mpr fun s hs hsu => hu ?_
      rw [← of_decide_eq_true hsu]
      exact htypes s hs
    omega

/-! ## Splitting -/

/-- A half of the samples is those that the branch sends to that side. -/
theorem splitOn_eq_filter {id : Int32} (hid : InRange id) (value : Int32) (greater : Bool)
    (data : List Sample) :
    splitOn id value greater data = some (data.filter (DLT.sends id value greater)) := by
  induction data with
  | nil => rfl
  | cons s data ih =>
    obtain ⟨a, ha⟩ := Option.isSome_iff_exists.mp ((s.attr_isSome_iff id).mpr hid)
    have hside : xor (decide (a ≤ value)) greater = DLT.sends id value greater s := by
      rw [DLT.sends, ha, Option.any_some]
      rcases Decidable.em (a ≤ value) with h | h <;> cases greater <;> simp_all
    rw [splitOn, ha, Option.bind_some, ih, Option.map_some, hside, List.filter_cons]

/-- The two halves are all the samples. -/
theorem halves_perm {id : Int32} (hid : InRange id) (value : Int32) (data : List Sample) :
    (data.filter (DLT.sends id value true) ++ data.filter (DLT.sends id value false)).Perm
      data := by
  have hlow : data.filter (DLT.sends id value false) =
      data.filter fun s => !DLT.sends id value true s :=
    List.filter_congr fun s _ => DLT.sends_not hid value s
  rw [hlow]
  exact List.filter_append_perm _ data

/-! ## The construction -/

section Construction

variable {K : Type*} [Field K] [LinearOrder K] {log : K → K}
  {bestSplit : List Bool → List Sample → ℤ → Int32 × Int32} {attr : ℤ}

/-- A node built from a whole array that can be counted: a leaf with the class of its samples where
the depth is used up or the entropy is small, and else a branch whose sides are built from the
samples it sends there. -/
theorem train_length (hbest : ∀ path data, InRange (bestSplit path data attr).1)
    (path : List Bool) {data : List Sample} (hdata : ∀ s ∈ data, Countable s.type) (depth : ℤ) :
    DLT.train log bestSplit attr path data data.length depth =
      if depth ≤ 0 ∨ entropyAmong log data data.length < EPSILON then
        some (.leaf (modalType data))
      else
        let split := bestSplit path data attr
        let half (high : Bool) := data.filter (DLT.sends split.1 split.2 high)
        (DLT.train log bestSplit attr (path ++ [true]) (half true) (half true).length
          (depth - 1)).bind fun highSide =>
        (DLT.train log bestSplit attr (path ++ [false]) (half false) (half false).length
          (depth - 1)).map fun lowSide => .branch split.1 split.2 lowSide highSide := by
  have hentropy : calcEntropy log data = some (entropyAmong log data data.length) := by
    rw [calcEntropy, countTypes_eq hdata]
    rfl
  have hclass : leafClass data = some (modalType data) := by
    rw [leafClass, countTypes_eq hdata]
    rfl
  rw [DLT.train, firstSamples_length, Option.bind_some, hentropy, Option.bind_some]
  split_ifs with hstop
  · rw [hclass, Option.map_some]
  · simp only [splitOn_eq_filter (hbest path data), Option.bind_some]

/-- Nothing is built from a sample of the largest type. -/
theorem train_eq_none {path : List Bool} {data : List Sample} {depth : ℤ} {s : Sample}
    (hs : s ∈ data) (htype : s.type = Int32.maxValue) :
    DLT.train log bestSplit attr path data data.length depth = none := by
  rw [DLT.train, firstSamples_length, Option.bind_some, calcEntropy,
    countTypes_eq_none hs htype]
  rfl

variable (log) in
/-- The constructor ends with a tree that is no higher than its depth allows and that looks at
attributes in range only. -/
theorem train_total (hbest : ∀ path data, InRange (bestSplit path data attr).1)
    (path : List Bool) {data : List Sample} (hdata : ∀ s ∈ data, Countable s.type) (depth : ℤ) :
    ∃ t, DLT.train log bestSplit attr path data data.length depth = some t ∧
      (t.height : ℤ) ≤ max depth 0 ∧ t.AttrsInRange := by
  -- by induction on the depth, which every branch uses up by one
  obtain ⟨n, hn⟩ : ∃ n, n = depth.toNat := ⟨_, rfl⟩
  induction n generalizing path data depth with
  | zero =>
    refine ⟨.leaf (modalType data), ?_, by simp [DLT.height], trivial⟩
    rw [train_length hbest path hdata, if_pos (.inl (by omega))]
  | succ n ih =>
    rw [train_length hbest path hdata]
    split_ifs with hstop
    · exact ⟨.leaf (modalType data), rfl, by simp [DLT.height], trivial⟩
    · set split := bestSplit path data attr with hsplit
      have hhalf (high : Bool) :
          ∀ s ∈ data.filter (DLT.sends split.1 split.2 high), Countable s.type :=
        fun s hs => hdata s (List.mem_of_mem_filter hs)
      obtain ⟨highSide, hhigh, hhighheight, hhighattrs⟩ :=
        ih (path ++ [true]) (hhalf true) (depth - 1) (by omega)
      obtain ⟨lowSide, hlow, hlowheight, hlowattrs⟩ :=
        ih (path ++ [false]) (hhalf false) (depth - 1) (by omega)
      refine ⟨.branch split.1 split.2 lowSide highSide, by simp [hhigh, hlow], ?_,
        hbest path data, hlowattrs, hhighattrs⟩
      simp only [DLT.height]
      omega

/-- The node at the end of a path is what the constructor builds, one level deeper for every step of
the path, from the samples that `Classify` takes along it. -/
theorem train_subtree (hbest : ∀ path data, InRange (bestSplit path data attr).1)
    {path p : List Bool} {data : List Sample} (hdata : ∀ s ∈ data, Countable s.type) {depth : ℤ}
    {t u : DLT} (ht : DLT.train log bestSplit attr path data data.length depth = some t)
    (hu : t.subtree p = some u) :
    DLT.train log bestSplit attr (path ++ p) (data.filter (t.reaches p))
      (data.filter (t.reaches p)).length (depth - p.length) = some u := by
  induction p generalizing path data depth t with
  | nil =>
    obtain rfl : t = u := by simpa [DLT.subtree] using hu
    simpa [DLT.reaches] using ht
  | cons high p ih =>
    rw [train_length hbest path hdata] at ht
    split_ifs at ht with hstop
    · obtain rfl := Option.some.inj ht
      simp [DLT.subtree] at hu
    · -- the side of the branch that the path goes to was built from the half sent there
      obtain ⟨highSide, hhigh, ht⟩ := Option.bind_eq_some_iff.mp ht
      obtain ⟨lowSide, hlow, rfl⟩ := Option.map_eq_some_iff.mp ht
      rw [DLT.subtree_cons] at hu
      set split := bestSplit path data attr with hsplit
      have hside : DLT.train log bestSplit attr (path ++ [high])
          (data.filter (DLT.sends split.1 split.2 high))
          (data.filter (DLT.sends split.1 split.2 high)).length (depth - 1) =
            some (bif high then highSide else lowSide) := by
        cases high
        · exact hlow
        · exact hhigh
      have hhalf : ∀ s ∈ data.filter (DLT.sends split.1 split.2 high), Countable s.type :=
        fun s hs => hdata s (List.mem_of_mem_filter hs)
      have hrest := ih hhalf hside hu
      rw [List.filter_filter, List.append_assoc] at hrest
      have hdepth : depth - 1 - (p.length : ℤ) = depth - ((high :: p).length : ℤ) := by
        push_cast [List.length_cons]
        omega
      rw [hdepth] at hrest
      simpa only [DLT.reaches, Bool.and_comm, List.singleton_append] using hrest

/-- The constructor reads the first `count` samples and no others. -/
theorem train_take {path : List Bool} {data : List Sample} {count depth : ℤ}
    (hcount : count ≤ data.length) :
    DLT.train log bestSplit attr path data count depth =
      DLT.train log bestSplit attr path (data.take count.toNat) (data.take count.toNat).length
        depth := by
  rw [DLT.train, DLT.train, firstSamples_length, firstSamples, if_pos hcount]

/-- One step more of a path is one branch more to be sent on by. -/
theorem reaches_append {t : DLT} {p : List Bool} {splitId splitVal : Int32}
    {lowSide highSide : DLT} (h : t.subtree p = some (.branch splitId splitVal lowSide highSide))
    (high : Bool) (s : Sample) :
    t.reaches (p ++ [high]) s = (t.reaches p s && DLT.sends splitId splitVal high s) := by
  induction p generalizing t with
  | nil =>
    obtain rfl : t = _ := by simpa [DLT.subtree] using h
    cases high <;> simp [DLT.reaches]
  | cons b p ih =>
    cases t with
    | leaf v => simp [DLT.subtree] at h
    | branch splitId' splitVal' lowSide' highSide' =>
      rw [DLT.subtree_cons] at h
      rw [List.cons_append, DLT.reaches, DLT.reaches, ih h, Bool.and_assoc]

/-- Branches of a tree with attributes in range have attributes in range. -/
theorem attrsInRange_subtree {t u : DLT} {p : List Bool} (ht : t.AttrsInRange)
    (hu : t.subtree p = some u) : u.AttrsInRange := by
  induction p generalizing t with
  | nil =>
    obtain rfl : t = u := by simpa [DLT.subtree] using hu
    exact ht
  | cons high p ih =>
    cases t with
    | leaf v => simp [DLT.subtree] at hu
    | branch splitId splitVal lowSide highSide =>
      obtain ⟨-, hlow, hhigh⟩ := ht
      rw [DLT.subtree_cons] at hu
      cases high
      · exact ih hlow hu
      · exact ih hhigh hu

/-- A leaf that the constructor built has a most frequent type of its samples. -/
theorem mostFrequent_of_train (hbest : ∀ path data, InRange (bestSplit path data attr).1)
    {path : List Bool} {data : List Sample} (hdata : ∀ s ∈ data, Countable s.type) {depth : ℤ}
    {v : Int32} (h : DLT.train log bestSplit attr path data data.length depth = some (.leaf v)) :
    MostFrequent v data := by
  rw [train_length hbest path hdata] at h
  split_ifs at h with hstop
  · obtain rfl : modalType data = v := by simpa using h
    exact modalType_mostFrequent fun s hs => (hdata s hs).1
  · obtain ⟨highSide, -, h⟩ := Option.bind_eq_some_iff.mp h
    obtain ⟨lowSide, -, h⟩ := Option.map_eq_some_iff.mp h
    cases h

/-- What is asked of a tree trained with some samples. It is no higher than the depth asked for. At
each of its branches `splitOn` cuts the samples that `Classify` takes there into two halves, which
are together all of them and which are those that `Classify` takes on to the two sides. Each of its
leaves has the class that is most frequent among the samples that `Classify` takes there, and gives
them that class. -/
structure DLT.Routes (t : DLT) (samples : List Sample) (depth : ℤ) : Prop where
  height : (t.height : ℤ) ≤ max depth 0
  halves : ∀ p splitId splitVal lowSide highSide,
    t.subtree p = some (.branch splitId splitVal lowSide highSide) →
    splitOn splitId splitVal true (t.routed p samples) =
      some (t.routed (p ++ [true]) samples) ∧
    splitOn splitId splitVal false (t.routed p samples) =
      some (t.routed (p ++ [false]) samples) ∧
    (t.routed (p ++ [true]) samples ++ t.routed (p ++ [false]) samples).Perm (t.routed p samples)
  leaves : ∀ p v, t.subtree p = some (.leaf v) →
    MostFrequent v (t.routed p samples) ∧ ∀ s, t.reaches p s = true → t.classify s = some v

/-- A tree that was built from samples that can be counted. -/
theorem routes_of_train (hbest : ∀ path data, InRange (bestSplit path data attr).1)
    {samples : List Sample} (hsamples : ∀ s ∈ samples, Countable s.type) {depth : ℤ} {t : DLT}
    (ht : DLT.train log bestSplit attr [] samples samples.length depth = some t)
    (hheight : (t.height : ℤ) ≤ max depth 0) (hattrs : t.AttrsInRange) :
    t.Routes samples depth := by
  refine ⟨hheight, fun p splitId splitVal lowSide highSide hp => ?_,
    fun p v hp => ⟨?_, fun s hs => DLT.classify_of_reaches hs hp⟩⟩
  · obtain ⟨hid, -, -⟩ := attrsInRange_subtree hattrs hp
    have hnext : ∀ high, t.routed (p ++ [high]) samples =
        (t.routed p samples).filter (DLT.sends splitId splitVal high) := by
      intro high
      rw [DLT.routed, DLT.routed, List.filter_filter]
      exact List.filter_congr fun s _ => by rw [reaches_append hp high s, Bool.and_comm]
    refine ⟨?_, ?_, ?_⟩
    · rw [hnext]
      exact splitOn_eq_filter hid splitVal true _
    · rw [hnext]
      exact splitOn_eq_filter hid splitVal false _
    · rw [hnext, hnext]
      exact halves_perm hid splitVal _
  · refine mostFrequent_of_train hbest (fun s hs => ?_) (train_subtree hbest hsamples ht hp)
    exact hsamples s (List.mem_of_mem_filter hs)

variable (log) (bestSplit) (attr) in
/-- Training ends with a tree that routes its samples exactly when none of them is of the largest
type. -/
theorem train_routes_iff (hbest : ∀ path data, InRange (bestSplit path data attr).1)
    (data : List Sample) (count depth : ℤ) (hcount : count ≤ data.length)
    (htypes : ∀ s ∈ data, 0 ≤ s.type) :
    (∃ t, DLT.train log bestSplit attr [] data count depth = some t ∧
        t.Routes (data.take count.toNat) depth) ↔
      ∀ s ∈ data.take count.toNat, s.type ≠ Int32.maxValue := by
  rw [train_take hcount]
  constructor
  · rintro ⟨t, ht, -⟩ s hs htype
    rw [train_eq_none hs htype] at ht
    cases ht
  · intro hmax
    have hsamples : ∀ s ∈ data.take count.toNat, Countable s.type :=
      fun s hs => ⟨htypes s (List.mem_of_mem_take hs), hmax s hs⟩
    obtain ⟨t, ht, hheight, hattrs⟩ := train_total log hbest [] hsamples depth
    exact ⟨t, ht, routes_of_train hbest hsamples ht hheight hattrs⟩

/-- Two samples told apart by their first attribute. -/
theorem train_routes_iff_of_two :
    ∃ t, DLT.train (fun _ : ℚ => -1) (fun _ _ _ => (0, 2)) 5 []
        [⟨#v[1, 0, 0, 0, 0], 0⟩, ⟨#v[5, 0, 0, 0, 0], 1⟩] 2 1 = some t ∧
      t.Routes [⟨#v[1, 0, 0, 0, 0], 0⟩, ⟨#v[5, 0, 0, 0, 0], 1⟩] 1 :=
  (train_routes_iff (fun _ : ℚ => -1) (fun _ _ _ => (0, 2)) 5 (fun _ _ => by decide)
    [⟨#v[1, 0, 0, 0, 0], 0⟩, ⟨#v[5, 0, 0, 0, 0], 1⟩] 2 1 (by decide) (by decide)).mpr (by decide)

/-- A sample of the largest type, for which the vector of counts cannot be made long enough. -/
def largestType : Sample := ⟨#v[0, 0, 0, 0, 0], 2147483647⟩

/-- No tree is built from this sample. -/
theorem largestType_not_trained :
    ¬∃ t, DLT.train (fun _ : ℚ => -1) (fun _ _ _ => (0, 0)) 5 [] [largestType] 1 5 = some t ∧
      t.Routes [largestType] 5 := by
  rintro ⟨t, ht, -⟩
  have hnone : DLT.train (fun _ : ℚ => -1) (fun _ _ _ => (0, 0)) 5 [] [largestType] 1 5 = none :=
    train_eq_none (List.mem_singleton_self largestType) rfl
  rw [hnone] at ht
  cases ht

end Construction

/-! ## The splits of the source -/

section BestSplit

variable {K : Type*} [Field K] [LinearOrder K]

/-- The tuple picked is one of those offered or all zeros. -/
theorem pickLowest_mem (tuples : List (K × Int32 × Int32)) :
    pickLowest tuples = (0, 0, 0) ∨ pickLowest tuples ∈ tuples := by
  suffices h : ∀ best : K × K × Int32 × Int32,
      let picked :=
        tuples.foldl (fun best tup => if tup.1 < best.1 then (tup.1, tup) else best) best
      picked = best ∨ picked.2 ∈ tuples by
    rcases h (1000000, (0, 0, 0)) with h | h
    · exact .inl (by rw [pickLowest, h])
    · exact .inr h
  induction tuples with
  | nil => exact fun _ => .inl rfl
  | cons tup tuples ih =>
    intro best
    rw [List.foldl_cons]
    split_ifs with hlt
    · rcases ih (tup.1, tup) with h | h
      · exact .inr (by simp [h])
      · exact .inr (List.mem_cons_of_mem _ h)
    · exact (ih best).imp_right (List.mem_cons_of_mem _)

/-- A property of the attribute of every tuple offered, and of attribute `0`, is one of the
attribute picked. -/
theorem pickLowest_attr {A : Int32 → Prop} (hzero : A 0) {tuples : List (K × Int32 × Int32)}
    (h : ∀ tup ∈ tuples, A tup.2.1) : A (pickLowest tuples).2.1 := by
  rcases pickLowest_mem tuples with hpick | hpick
  · rw [hpick]
    exact hzero
  · exact h _ hpick

/-- `getBestSplit` chooses an attribute that samples have. -/
theorem getBestSplit_inRange (log : K → K) (data : List Sample) {attr : ℤ} (hattr : attr ≤ ATTR) :
    InRange (getBestSplit log data attr).1 := by
  have hzero : InRange 0 := by decide
  refine pickLowest_attr hzero fun tup htup => ?_
  obtain ⟨i, hi, rfl⟩ := List.mem_map.mp htup
  have hlt : i < 5 := by
    have := List.mem_range.mp hi
    unfold ATTR at hattr
    omega
  have hrange : ∀ i < 5, InRange (.ofNat i) := by decide
  refine pickLowest_attr hzero fun tup htup => ?_
  obtain ⟨j, -, rfl⟩ := List.mem_map.mp htup
  refine pickLowest_attr hzero fun tup htup => ?_
  obtain ⟨curValue, -, rfl⟩ := List.mem_map.mp htup
  exact hrange i hlt

/-- Training with the splits of `getBestSplit` ends with a tree that classifies every sample, if the
types can be counted. -/
theorem train_getBestSplit_classifies (log : K → K) {data : List Sample} {count attr : ℤ}
    (depth : ℤ) (hcount : count ≤ data.length) (hattr : attr ≤ ATTR)
    (hdata : ∀ s ∈ data, Countable s.type) :
    ∃ t, DLT.train log (fun _ => getBestSplit log) attr [] data count depth = some t ∧
      ∀ s, (t.classify s).isSome := by
  obtain ⟨t, ht, -, hattrs⟩ := train_total log
    (fun (_ : List Bool) data => getBestSplit_inRange log data hattr) []
    (fun s hs => hdata s (List.mem_of_mem_take hs)) depth
  exact ⟨t, (train_take hcount).trans ht, DLT.classify_isSome hattrs⟩

end BestSplit

end Guillemot.Trees
