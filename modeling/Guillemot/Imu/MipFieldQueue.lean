import Guillemot.Imu.MipFieldList

/-!
# `MipFieldList` as a queue

The other operations of `MipFieldList.cpp`: `remove`, `getAtPos` and `getCount`. `Queue.call` is
what each operation is for, over the sequence of pointers that the list should hold, and `Agrees`
says of a sequence of calls that the list answers each of them as the queue does. No operation looks
into a field, so that equal fields stand for one pointer that was added twice.

`remove` steps to the second node before it reads a field, and `clear` leaves the tail pointer and
the count behind. `Harmless` singles out the calls in which neither can be seen, and
`agrees_new_iff` says that a fresh list is a queue for these and no others.
-/

namespace Guillemot.Imu

/-! ## The operations -/

namespace MipFieldList

/-- `MipFieldList::remove`; undefined when there is no node after the first. -/
def remove (list : MipFieldList) : Option (MipFieldList × Option MipField) :=
  match list.head with
  | some head => do
    let node ← list.heap.load head
    -- `m_pHead` is the next node already when its field is read
    let next ← node.next
    let pNode ← list.heap.load next
    return ({ list with head := some next, count := list.count - 1 }, pNode.data)
  | none => some (list, none)

/-- The loop of `MipFieldList::getAtPos`, where `pos` is one less than the number of rounds left. -/
def getAtPosFrom (heap : Heap MipFieldNode) :
    ℕ → Option ℕ → Option MipField → Option (Option MipField)
  | 0, _, pRet => some pRet
  | _ + 1, none, pRet => some pRet
  | rounds + 1, some pIt, _ => do
    let node ← heap.load pIt
    getAtPosFrom heap rounds node.next node.data

/-- `MipFieldList::getAtPos`. -/
def getAtPos (list : MipFieldList) (pos : Int32) : Option (Option MipField) :=
  if pos.toInt < list.count then
    getAtPosFrom list.heap (pos.toInt + 1).toNat list.head none
  else some none

/-- `MipFieldList::getCount`, which returns the `Int32` as a `UInt32`. -/
def getCount (list : MipFieldList) : UInt32 := .ofInt list.count

end MipFieldList

/-- A call of a member function. -/
inductive Call where
  | add (pField : Option MipField)
  | remove
  | clear
  | getAtPos (pos : Int32)
  | getCount
deriving DecidableEq, Repr

/-- What a call returns. -/
inductive Answer where
  | void
  | field (pField : Option MipField)
  | count (n : ℕ)
deriving DecidableEq, Repr

/-- A call on a list; undefined also when `m_count` overflows. -/
def MipFieldList.call (list : MipFieldList) : Call → Option (MipFieldList × Answer)
  | .add pField =>
    if list.count + 1 < 2 ^ 31 then (list.add pField).map fun list => (list, .void) else none
  | .remove => list.remove.map fun (list, pField) => (list, .field pField)
  | .clear => list.clear.map fun list => (list, .void)
  | .getAtPos pos => (list.getAtPos pos).map fun pField => (list, .field pField)
  | .getCount => some (list, .count list.getCount.toNat)

/-! ## The queue -/

/-- The pointers that were added and not removed, the oldest one first. -/
abbrev Queue := List (Option MipField)

/-- A call on a queue. -/
def Queue.call (xs : Queue) : Call → Queue × Answer
  | .add pField => (xs ++ [pField], .void)
  | .remove => (xs.tail, .field xs.head?.join)
  | .clear => ([], .void)
  | .getAtPos pos => (xs, .field (if 0 ≤ pos then xs[pos.toNatClampNeg]?.join else none))
  | .getCount => (xs, .count xs.length)

/-- Head and tail are null when the queue is empty, and only then. -/
def NullWhenEmpty (list : MipFieldList) (xs : Queue) : Prop :=
  (list.head = none ↔ xs = []) ∧ (list.tail = none ↔ xs = [])

/-- Every call is defined and answers as the queue does, with head and tail null when the queue is
empty. -/
def Agrees : MipFieldList → Queue → List Call → Prop
  | list, xs, [] => NullWhenEmpty list xs
  | list, xs, c :: calls =>
    NullWhenEmpty list xs ∧
      ∃ list', list.call c = some (list', (Queue.call xs c).2) ∧
        Agrees list' (Queue.call xs c).1 calls

/-- A call in which the list does what the queue does: the count does not overflow; nothing is
removed, or the two oldest pointers are the same; nothing is cleared. -/
def Harmless (xs : Queue) : Call → Prop
  | .add _ => xs.length + 1 < 2 ^ 31
  | .remove => xs = [] ∨ (2 ≤ xs.length ∧ xs[0]? = xs[1]?)
  | .clear => xs = []
  | .getAtPos _ => True
  | .getCount => True

instance (xs : Queue) : (c : Call) → Decidable (Harmless xs c)
  | .add _ => inferInstanceAs (Decidable (_ < _))
  | .remove => inferInstanceAs (Decidable (_ ∨ _))
  | .clear => inferInstanceAs (Decidable (_ = _))
  | .getAtPos _ => inferInstanceAs (Decidable True)
  | .getCount => inferInstanceAs (Decidable True)

/-- Every call of a sequence is harmless where it comes. -/
def HarmlessRun : Queue → List Call → Prop
  | _, [] => True
  | xs, c :: calls => Harmless xs c ∧ HarmlessRun (Queue.call xs c).1 calls

/-! ## One call -/

namespace MipFieldList

variable {list : MipFieldList} {xs : Queue}

/-- The count is that of the queue. -/
theorem Holds.count_eq (h : list.Holds xs) : list.count = xs.length := by
  obtain ⟨as, -, -, -, -, hcount⟩ := h
  exact hcount

/-- The pointers of a list that holds a queue are null when it is empty, and only then. -/
theorem Holds.nullWhenEmpty (h : list.Holds xs) : NullWhenEmpty list xs := by
  obtain ⟨as, hchain, -, hhead, htail, -⟩ := h
  have hempty : as = [] ↔ xs = [] := by
    rw [← List.length_eq_zero_iff, ← List.length_eq_zero_iff, hchain.length_eq]
  rw [NullWhenEmpty, hhead, htail, List.head?_eq_none_iff, List.getLast?_eq_none_iff]
  exact ⟨hempty, hempty⟩

/-- Nothing is removed from a list that holds nothing. -/
theorem Holds.remove_of_nil (h : list.Holds []) : list.remove = some (list, none) := by
  have hhead : list.head = none := h.nullWhenEmpty.1.mpr rfl
  rw [remove, hhead]

/-- A list that holds two pointers loses the first one and returns the second. -/
theorem Holds.remove_of_two {x y : Option MipField} (h : list.Holds (x :: y :: xs)) :
    ∃ list', list.remove = some (list', y) ∧ list'.Holds (y :: xs) := by
  obtain ⟨as, hchain, hnd, hhead, htail, hcount⟩ := h
  match as, hchain with
  | a :: b :: as, hchain =>
    obtain ⟨hfirst, hsecond, hrest⟩ := hchain
    refine ⟨{ list with head := some b, count := list.count - 1 }, ?_, b :: as,
      ⟨hsecond, hrest⟩, (List.nodup_cons.mp hnd).2, rfl, ?_, ?_⟩
    · simp [remove, hhead, hfirst, hsecond]
    · rw [htail, List.getLast?_cons_cons]
    · simp [hcount]

/-- The only pointer of a list cannot be removed: there is no second node to read. -/
theorem Holds.remove_of_one {x : Option MipField} (h : list.Holds [x]) : list.remove = none := by
  obtain ⟨as, hchain, -, hhead, -⟩ := h
  match as, hchain with
  | [a], hchain => simp [remove, hhead, hchain.1]

/-- The loop of `getAtPos` ends at the position asked for. -/
theorem getAtPosFrom_eq {heap : Heap MipFieldNode} {as : List ℕ} (h : Chain heap as xs) {n : ℕ}
    (hn : n < xs.length) (pRet : Option MipField) :
    getAtPosFrom heap (n + 1) as.head? pRet = some xs[n] := by
  induction as generalizing xs n pRet with
  | nil =>
    cases xs with
    | nil => cases hn
    | cons x xs => exact h.elim
  | cons a as ih =>
    cases xs with
    | nil => exact h.elim
    | cons x xs =>
      cases n with
      | zero => simp [getAtPosFrom, h.1]
      | succ n =>
        have hrest := ih h.2 (Nat.lt_of_succ_lt_succ hn) x
        simpa [getAtPosFrom, h.1] using hrest

/-- `getAtPos` returns the pointer at a position, and null where there is none. -/
theorem Holds.getAtPos_eq (h : list.Holds xs) (pos : Int32) :
    list.getAtPos pos = some (if 0 ≤ pos then xs[pos.toNatClampNeg]?.join else none) := by
  obtain ⟨as, hchain, -, hhead, -, hcount⟩ := h
  rw [getAtPos, hhead, hcount]
  split_ifs with hlt hpos hpos
  · have hcast := Int32.cast_toNatClampNeg pos hpos
    have hn : pos.toNatClampNeg < xs.length := by omega
    have hrounds : (pos.toInt + 1).toNat = pos.toNatClampNeg + 1 := by omega
    rw [hrounds, getAtPosFrom_eq hchain hn, List.getElem?_eq_getElem hn]
    rfl
  · -- no round for a negative position
    have hneg := Int32.lt_iff_toInt_lt.mp (Int32.not_le.mp hpos)
    rw [Int32.toInt_zero] at hneg
    have hrounds : (pos.toInt + 1).toNat = 0 := by omega
    rw [hrounds]
    rfl
  · have hcast := Int32.cast_toNatClampNeg pos hpos
    rw [List.getElem?_eq_none (by omega)]
    rfl
  · rfl

/-- `getCount` is the number of pointers. -/
theorem Holds.getCount_eq (h : list.Holds xs) (hlen : xs.length < 2 ^ 31) :
    list.getCount.toNat = xs.length := by
  have hmod : (xs.length : ℤ) % 2 ^ 32 = xs.length := by omega
  rw [getCount, h.count_eq, UInt32.ofInt, hmod, Int.toNat_natCast, UInt32.toNat_ofNat']
  omega

/-- Clearing a list that holds nothing leaves it as it is. -/
theorem Holds.clear_of_nil (h : list.Holds []) : list.clear = some list := by
  obtain ⟨heap, head, tail, count⟩ := list
  obtain rfl : head = none := h.nullWhenEmpty.1.mpr rfl
  cases heap <;> rfl

/-- `clear` leaves the tail pointer as it is. -/
theorem tail_of_clear {list' : MipFieldList} (h : list.clear = some list') :
    list'.tail = list.tail := by
  unfold clear at h
  obtain ⟨heap, -, hlist⟩ := Option.bind_eq_some_iff.mp h
  rw [← Option.some.inj hlist]

/-- The list answers a harmless call as the queue does, and holds the queue after it. -/
theorem Holds.call (h : list.Holds xs) (hlen : xs.length < 2 ^ 31) {c : Call}
    (hc : Harmless xs c) :
    ∃ list', list.call c = some (list', (Queue.call xs c).2) ∧ list'.Holds (Queue.call xs c).1 := by
  cases c with
  | add pField =>
    obtain ⟨list', hadd, hholds⟩ := add_holds h pField
    have hlt : list.count + 1 < 2 ^ 31 := by
      rw [h.count_eq]
      exact_mod_cast hc
    refine ⟨list', ?_, hholds⟩
    rw [MipFieldList.call, if_pos hlt, hadd]
    rfl
  | remove =>
    rcases hc with rfl | ⟨htwo, heq⟩
    · refine ⟨list, ?_, h⟩
      rw [MipFieldList.call, h.remove_of_nil]
      rfl
    · match xs, htwo with
      | x :: y :: xs, _ =>
        -- the second pointer is returned, and it is the first one
        obtain rfl : x = y := by simpa using heq
        obtain ⟨list', hremove, hholds⟩ := h.remove_of_two
        refine ⟨list', ?_, hholds⟩
        rw [MipFieldList.call, hremove]
        rfl
  | clear =>
    obtain rfl : xs = [] := hc
    refine ⟨list, ?_, h⟩
    rw [MipFieldList.call, h.clear_of_nil]
    rfl
  | getAtPos pos =>
    refine ⟨list, ?_, h⟩
    rw [MipFieldList.call, h.getAtPos_eq]
    rfl
  | getCount =>
    refine ⟨list, ?_, h⟩
    rw [MipFieldList.call, h.getCount_eq hlen]
    rfl

/-- A call that is not harmless is undefined, or it is answered in another way or leaves a pointer
that is not null. -/
theorem Holds.not_call (h : list.Holds xs) {c : Call} (hc : ¬Harmless xs c) {list' : MipFieldList}
    (hcall : list.call c = some (list', (Queue.call xs c).2)) :
    ¬NullWhenEmpty list' (Queue.call xs c).1 := by
  cases c with
  | add pField =>
    have hge : ¬list.count + 1 < 2 ^ 31 := by
      rw [h.count_eq]
      exact_mod_cast hc
    rw [MipFieldList.call, if_neg hge] at hcall
    cases hcall
  | remove =>
    match xs with
    | [] => exact absurd (.inl rfl) hc
    | [x] =>
      rw [MipFieldList.call, h.remove_of_one] at hcall
      cases hcall
    | x :: y :: xs =>
      obtain ⟨list'', hremove, -⟩ := h.remove_of_two
      rw [MipFieldList.call, hremove] at hcall
      have hxy : y = x := by simpa [Queue.call] using (Prod.mk.inj (Option.some.inj hcall)).2
      exact absurd (.inr ⟨by simp, by simp [hxy]⟩) hc
  | clear =>
    obtain ⟨cleared, hclear, heq⟩ := Option.map_eq_some_iff.mp hcall
    obtain rfl := (Prod.mk.inj heq).1
    -- the tail pointer still points to a node that is freed
    intro hnull
    have htail := hnull.2.mpr rfl
    rw [tail_of_clear hclear] at htail
    exact hc (h.nullWhenEmpty.2.mp htail)
  | getAtPos pos => exact absurd trivial hc
  | getCount => exact absurd trivial hc

end MipFieldList

/-! ## A sequence of calls -/

/-- A harmless call leaves the count in the range of an `Int32`. -/
theorem length_call_lt {xs : Queue} (hlen : xs.length < 2 ^ 31) {c : Call} (hc : Harmless xs c) :
    (Queue.call xs c).1.length < 2 ^ 31 := by
  cases c with
  | add pField =>
    rw [Queue.call, List.length_append, List.length_singleton]
    exact hc
  | remove =>
    simp only [Queue.call, List.length_tail]
    omega
  | clear => exact Nat.two_pow_pos 31
  | getAtPos pos => exact hlen
  | getCount => exact hlen

/-- A list that holds a queue goes on as one exactly as long as the calls are harmless. -/
theorem agrees_iff {list : MipFieldList} {xs : Queue} (h : list.Holds xs)
    (hlen : xs.length < 2 ^ 31) (calls : List Call) :
    Agrees list xs calls ↔ HarmlessRun xs calls := by
  induction calls generalizing list xs with
  | nil => exact iff_of_true h.nullWhenEmpty trivial
  | cons c calls ih =>
    by_cases hc : Harmless xs c
    · obtain ⟨list', hcall, hholds⟩ := h.call hlen hc
      rw [HarmlessRun, and_iff_right hc, ← ih hholds (length_call_lt hlen hc), Agrees,
        and_iff_right h.nullWhenEmpty]
      refine ⟨?_, fun hagrees => ⟨list', hcall, hagrees⟩⟩
      rintro ⟨list'', hcall', hagrees⟩
      obtain rfl := (Prod.mk.inj (Option.some.inj (hcall.symm.trans hcall'))).1
      exact hagrees
    · -- the first call that is not harmless ends the agreement
      refine iff_of_false ?_ fun hrun => hc hrun.1
      rintro ⟨-, list', hcall, hagrees⟩
      refine h.not_call hc hcall ?_
      cases calls with
      | nil => exact hagrees
      | cons c' calls => exact hagrees.1

/-- A fresh list holds the empty queue. -/
theorem new_holds : MipFieldList.new.Holds [] :=
  MipFieldList.represents_iff_holds.mp MipFieldList.new_represents

/-- A fresh list is a queue for the sequences of harmless calls and no others. -/
theorem agrees_new_iff (calls : List Call) :
    Agrees MipFieldList.new [] calls ↔ HarmlessRun [] calls :=
  agrees_iff new_holds (by decide) calls

/-- The only field cannot be removed: `remove` reads the node after it, which is null. -/
theorem remove_reads_null :
    ¬Agrees MipFieldList.new [] [.add (some (.dataField FieldHeader.new)), .remove] := by
  rw [agrees_iff new_holds (by decide)]
  rintro ⟨-, h, -⟩
  simp [Harmless, Queue.call] at h

end Guillemot.Imu
