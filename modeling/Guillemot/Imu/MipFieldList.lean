import Guillemot.Library.Loop
import Guillemot.Library.NodeHeap
import Guillemot.Imu.MipField

/-!
# `MipFieldList`: a linked list of fields, and its decoder

`MipFieldList.cpp` keeps fields in a singly linked list with a head and a tail pointer. The list is
modelled with its nodes in a heap, so that `add` writes through the tail pointer and a freed node
faults. `Holds` says which pointers a list holds and `Represents` which fields, and `add_holds` and
`add_represents` that `add` appends.

`deserialize` is the decoding loop over this list (`deserializeLoop`). `decodeLoop` is the same loop
over a Lean list of fields, and `deserialize_simulates` connects the two: whatever is proved of the
second holds of the first.
-/

namespace Guillemot.Imu

open Relation (ReflTransGen)

/-! ## The list -/

/-- `MipFieldNode`: a field pointer, null or not, and the next node. -/
abbrev MipFieldNode := Node (Option MipField)

/-- `MipFieldList`, with the heap that its nodes are in. -/
structure MipFieldList where
  /-- The nodes allocated so far. -/
  heap : Heap MipFieldNode
  /-- `m_pHead`. -/
  head : Option ℕ
  /-- `m_pTail`. -/
  tail : Option ℕ
  /-- `m_count`. -/
  count : ℤ
deriving DecidableEq, Repr

namespace MipFieldList

/-- The constructor. -/
def new : MipFieldList := ⟨[], none, none, 0⟩

/-- `MipFieldList::add`; undefined when the tail pointer dangles. -/
def add (list : MipFieldList) (pField : Option MipField) : Option MipFieldList := do
  let (pNode, heap) := list.heap.alloc ⟨pField, none⟩
  let heap ← match list.tail with
    | some tail => do
      let node ← heap.load tail
      heap.store tail { node with next := some pNode }
    | none => some heap
  return {
    heap
    tail := some pNode
    head := match list.head with
      | some head => some head
      | none => some pNode
    count := list.count + 1 }

/-- The loop of `MipFieldList::clear`, which frees the nodes from a head on, for at most `fuel`
nodes. -/
def clearFrom (heap : Heap MipFieldNode) : ℕ → Option ℕ → Option (Heap MipFieldNode)
  | _, none => some heap
  | 0, some _ => none
  | fuel + 1, some pToDel => do
    let node ← heap.load pToDel
    let heap ← heap.free pToDel
    clearFrom heap fuel node.next

/-- `MipFieldList::clear`. The tail pointer and the count stay as they are. -/
def clear (list : MipFieldList) : Option MipFieldList := do
  let heap ← clearFrom list.heap list.heap.length list.head
  return { list with heap, head := none }

/-- The fields that a loop from `getIterator()` along `m_pNext` meets. -/
def iterate (list : MipFieldList) : Option (List (Option MipField)) :=
  walk list.heap list.heap.length list.head

/-- The list holds the pointers `xs`, in this order. -/
def Holds (list : MipFieldList) (xs : List (Option MipField)) : Prop :=
  ∃ as : List ℕ, Chain list.heap as xs ∧ as.Nodup ∧ list.head = as.head? ∧
    list.tail = as.getLast? ∧ list.count = xs.length

/-- The list holds the fields `xs`, in this order. -/
def Represents (list : MipFieldList) (xs : List MipField) : Prop :=
  ∃ as : List ℕ, Chain list.heap as (xs.map some) ∧ as.Nodup ∧ list.head = as.head? ∧
    list.tail = as.getLast? ∧ list.count = xs.length

/-- Fields are pointers that are not null. -/
theorem represents_iff_holds {list : MipFieldList} {xs : List MipField} :
    list.Represents xs ↔ list.Holds (xs.map some) := by
  rw [Represents, Holds, List.length_map]

/-- A fresh list holds nothing. -/
theorem new_represents : new.Represents [] := ⟨[], trivial, List.nodup_nil, rfl, rfl, rfl⟩

/-- `add` appends a pointer. -/
theorem add_holds {list : MipFieldList} {xs : List (Option MipField)} (h : list.Holds xs)
    (x : Option MipField) : ∃ list', list.add x = some list' ∧ list'.Holds (xs ++ [x]) := by
  obtain ⟨as, hchain, hnd, hhead, htail, hcount⟩ := h
  -- The new node is at the end of the heap, outside of the chain.
  set b := list.heap.length with hb
  have hfresh : b ∉ as := fun hmem => Nat.lt_irrefl _ (hchain.lt_length hmem)
  have hnd' : (as ++ [b]).Nodup := by
    rw [List.nodup_append]
    refine ⟨hnd, List.nodup_singleton b, fun a ha c hc hac => hfresh ?_⟩
    rwa [← List.mem_singleton.mp hc, ← hac]
  have hcount' : list.count + 1 = (xs ++ [x]).length := by simp [hcount]
  have halloc := hchain.alloc (⟨x, none⟩ : MipFieldNode)
  have hload := Heap.load_alloc_self list.heap (⟨x, none⟩ : MipFieldNode)
  rcases List.eq_nil_or_concat' as with rfl | ⟨init, l, rfl⟩
  · -- An empty list: the new node is its head, too.
    obtain rfl : xs = [] := by simpa using hchain.length_eq.symm
    refine ⟨⟨(list.heap.alloc ⟨x, none⟩).2, some b, some b, list.count + 1⟩, ?_, [b],
      ⟨hload, trivial⟩, hnd', rfl, rfl, hcount'⟩
    simp only [add, htail, hhead, List.getLast?_nil, List.head?_nil]
    rfl
  · -- The node that the tail pointer points to is linked to the new one.
    obtain ⟨node, hl⟩ := halloc.exists_load (a := l) (by simp)
    have hstore : (list.heap.alloc ⟨x, none⟩).2.store l { node with next := some b } =
        some ((list.heap.alloc ⟨x, none⟩).2.set l (some { node with next := some b })) := by
      simp [Heap.store, hl]
    have hlink := halloc.link hnd hl hfresh hload
    obtain ⟨a, ha⟩ : ∃ a, (init ++ [l]).head? = some a := by cases init <;> simp
    refine ⟨⟨(list.heap.alloc ⟨x, none⟩).2.set l (some { node with next := some b }), some a,
      some b, list.count + 1⟩, ?_, init ++ [l] ++ [b], hlink, hnd', ?_, ?_, hcount'⟩
    · simp only [add, htail, hhead, ha, List.getLast?_concat, hl, Option.bind_eq_bind,
        Option.bind_some]
      rw [show (list.heap.alloc ⟨x, none⟩).1 = b from rfl, hstore]
      rfl
    · rw [List.head?_append, ha]
      rfl
    · simp

/-- `add` appends a field. -/
theorem add_represents {list : MipFieldList} {xs : List MipField} (h : list.Represents xs)
    (x : MipField) : ∃ list', list.add (some x) = some list' ∧ list'.Represents (xs ++ [x]) := by
  obtain ⟨list', hadd, hholds⟩ := add_holds (represents_iff_holds.mp h) (some x)
  refine ⟨list', hadd, represents_iff_holds.mpr ?_⟩
  rwa [List.map_append, List.map_singleton]

/-- A loop over the list meets its fields in order. -/
theorem iterate_eq {list : MipFieldList} {xs : List MipField} (h : list.Represents xs) :
    list.iterate = some (xs.map some) := by
  obtain ⟨as, hchain, hnd, hhead, -, -⟩ := h
  unfold iterate
  rw [hhead]
  exact hchain.walk_eq (hchain.length_le hnd)

end MipFieldList

/-! ## The decoding loop -/

/-- `MipPacket::DESCRIPTOR_SET_IMU_DATA`. -/
def descriptorSetImuData : UInt8 := 0x80

/-- The `switch` of `MipFieldList::deserialize` at position `pos`: the value that is added to `pos`,
and the field that is added to the list. The cases of the other descriptor sets are left to do in
the source and, like no case at all, leave `ret` at zero. -/
def deserializeAt (descriptorSet : UInt8) (pBuf : Buf) (size : ℤ) (pos : ℕ) :
    Option (UInt8 × Option MipField) :=
  if descriptorSet = descriptorSetImuData then
    deserializeToField (pBuf.offset pos) (toUInt8 size)
  else some (0, none)

/-- The variables of a decoding loop whose list is a `List`. -/
structure Decoding (List : Type*) where
  /-- `pos`. -/
  pos : ℕ
  /-- The list that the fields are added to. -/
  list : List
deriving DecidableEq, Repr

/-- The guard of the decoding loop. -/
def decodingGuard {L : Type*} (size : ℤ) (s : Decoding L) : Bool :=
  decide ((s.pos : ℤ) < size ∧ (minMipFieldHeaderSize : ℤ) ≤ size)

/-- The body of the loop of `MipFieldList::deserialize`. -/
def deserializeBody (descriptorSet : UInt8) (pBuf : Buf) (size : ℤ) (s : Decoding MipFieldList) :
    Option (Decoding MipFieldList) := do
  let (ret, pField) ← deserializeAt descriptorSet pBuf size s.pos
  let list ← match pField with
    | some field => s.list.add (some field)
    | none => some s.list
  return ⟨s.pos + ret.toNat, list⟩

/-- The loop of `MipFieldList::deserialize` after `clear()`, for at most `fuel` rounds. -/
def deserializeLoop (descriptorSet : UInt8) (pBuf : Buf) (size : ℤ) (fuel : ℕ)
    (list : MipFieldList) : Outcome (Decoding MipFieldList) :=
  Loop.whileLoop (decodingGuard size) (deserializeBody descriptorSet pBuf size) fuel ⟨0, list⟩

/-- `MipFieldList::deserialize`, for at most `fuel` rounds of its loop: the position and the list at
its end. -/
def MipFieldList.deserialize (list : MipFieldList) (descriptorSet : UInt8) (pBuf : Buf) (size : ℤ)
    (fuel : ℕ) : Outcome (Decoding MipFieldList) :=
  match list.clear with
  | some list => deserializeLoop descriptorSet pBuf size fuel list
  | none => .fault

/-- The body of the decoding loop over a Lean list of fields. -/
def decodeBody (descriptorSet : UInt8) (pBuf : Buf) (size : ℤ) (s : Decoding (List MipField)) :
    Option (Decoding (List MipField)) := do
  let (ret, pField) ← deserializeAt descriptorSet pBuf size s.pos
  return ⟨s.pos + ret.toNat, s.list ++ pField.toList⟩

/-- The decoding loop over a Lean list of fields. -/
def decodeLoop (descriptorSet : UInt8) (pBuf : Buf) (size : ℤ) (fuel : ℕ) :
    Outcome (Decoding (List MipField)) :=
  Loop.whileLoop (decodingGuard size) (decodeBody descriptorSet pBuf size) fuel ⟨0, []⟩

/-- The two loops are at the same position, and the linked list holds the fields of the Lean
list. -/
def SameDecoding (s : Decoding MipFieldList) (a : Decoding (List MipField)) : Prop :=
  s.pos = a.pos ∧ s.list.Represents a.list

/-- Decoding into the linked list does what decoding into a Lean list does, round by round. -/
theorem deserialize_simulates (descriptorSet : UInt8) (pBuf : Buf) (size : ℤ) :
    Loop.Simulates SameDecoding (decodingGuard size) (deserializeBody descriptorSet pBuf size)
      (decodingGuard size) (decodeBody descriptorSet pBuf size) where
  guard s a h := by simp [decodingGuard, h.1]
  fault s a h _ hs := by
    cases hat : deserializeAt descriptorSet pBuf size a.pos with
    | none => simp [decodeBody, hat]
    | some r =>
      obtain ⟨ret, pField⟩ := r
      cases pField with
      | none => simp [deserializeBody, h.1, hat] at hs
      | some field =>
        -- Adding to a list that represents one does not fault.
        obtain ⟨list', hadd, -⟩ := MipFieldList.add_represents h.2 field
        simp [deserializeBody, h.1, hat, hadd] at hs
  round s a t h ht := by
    cases hat : deserializeAt descriptorSet pBuf size a.pos with
    | none => simp [Loop.Round, deserializeBody, h.1, hat] at ht
    | some r =>
      obtain ⟨ret, pField⟩ := r
      refine ⟨⟨a.pos + ret.toNat, a.list ++ pField.toList⟩, by simp [decodeBody, hat], ?_⟩
      have hbody := ht.2
      cases pField with
      | none =>
        obtain rfl : ⟨a.pos + ret.toNat, s.list⟩ = t := by
          simpa [deserializeBody, h.1, hat] using hbody
        exact ⟨rfl, by simpa using h.2⟩
      | some field =>
        obtain ⟨list', hadd, hrep⟩ := MipFieldList.add_represents h.2 field
        obtain rfl : ⟨a.pos + ret.toNat, list'⟩ = t := by
          simpa [deserializeBody, h.1, hat, hadd] using hbody
        exact ⟨rfl, hrep⟩

/-- `deserialize` on a fresh list ends as the loop over a Lean list does. -/
theorem deserialize_related (descriptorSet : UInt8) (pBuf : Buf) (size : ℤ) (fuel : ℕ) :
    Loop.Related SameDecoding (MipFieldList.new.deserialize descriptorSet pBuf size fuel)
      (decodeLoop descriptorSet pBuf size fuel) :=
  (deserialize_simulates descriptorSet pBuf size).rel ⟨rfl, MipFieldList.new_represents⟩ fuel

end Guillemot.Imu
