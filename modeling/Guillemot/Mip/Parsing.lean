import Guillemot.Mip.Interface
import Guillemot.Library.Scanner

/-!
# What the packet parser finds in a stream

`scanner` says what the parser should report of a stream of bytes, whenever its bytes arrive: it
skips what is not a start byte, drops a start byte without a header or with a wrong checksum behind
it, and takes a packet off as a whole. `At` relates the interface to the bytes that it has not
settled yet, which are those of the ring buffer behind the start byte that it may have read.

A call of the parser makes some decisions of the scanner, or gives a start byte up because its
packet did not come in time (`Reads`).
-/

namespace Guillemot.Mip

/-! ## The scanner -/

/-- The packets that were reported as valid. -/
def validPackets (es : List Event) : List (List UInt8) :=
  es.filterMap fun
    | .packet .validPacket bytes _ => some bytes
    | _ => none

/-- What becomes of the front of a stream. -/
def decision (find : UInt8 → Option ℕ) : List UInt8 → Option (List Event × ℕ)
  | [] => none
  | sync1 :: xs =>
    if sync1 ≠ syncByte1 then some ([], 1)
    else
      match xs with
      | sync2 :: descriptorSet :: payloadSize :: rest =>
        if sync2 ≠ syncByte2 then some ([.headerSkipped], 1)
        else
          let header := [sync1, sync2, descriptorSet, payloadSize]
          let packet := header ++ rest.take (payloadSize.toNat + checksumSize)
          if rest.length < payloadSize.toNat + checksumSize then none
          else if Fletcher.Sealed packet then
            some ([.packet .validPacket packet (find descriptorSet)], packet.length)
          else some ([.packet .checksumError header (find descriptorSet)], 1)
      | _ => none

variable {find : UInt8 → Option ℕ} {xs ys rest : List UInt8} {es : List Event} {n : ℕ}
  {x descriptorSet payloadSize : UInt8}

/-- The packet behind a header. -/
def packetOf (descriptorSet payloadSize : UInt8) (rest : List UInt8) : List UInt8 :=
  [syncByte1, syncByte2, descriptorSet, payloadSize] ++
    rest.take (payloadSize.toNat + checksumSize)

theorem length_packetOf (h : payloadSize.toNat + checksumSize ≤ rest.length) :
    (packetOf descriptorSet payloadSize rest).length =
      headerSize + (payloadSize.toNat + checksumSize) := by
  rw [packetOf, List.length_append, List.length_take, Nat.min_eq_left h]
  rfl

theorem decision_of_ne (h : x ≠ syncByte1) : decision find (x :: xs) = some ([], 1) := if_pos h

theorem decision_of_short (h : xs.length < 3) : decision find (syncByte1 :: xs) = none := by
  match xs, h with
  | [], _ => rfl
  | [_], _ => rfl
  | [_, _], _ => rfl

theorem decision_of_skipped (h : x ≠ syncByte2) :
    decision find (syncByte1 :: x :: descriptorSet :: payloadSize :: rest) =
      some ([.headerSkipped], 1) := if_pos h

theorem decision_of_waiting (h : rest.length < payloadSize.toNat + checksumSize) :
    decision find (syncByte1 :: syncByte2 :: descriptorSet :: payloadSize :: rest) = none :=
  if_pos h

theorem decision_of_sealed (h : payloadSize.toNat + checksumSize ≤ rest.length)
    (hsealed : Fletcher.Sealed (packetOf descriptorSet payloadSize rest)) :
    decision find (syncByte1 :: syncByte2 :: descriptorSet :: payloadSize :: rest) =
      some ([.packet .validPacket (packetOf descriptorSet payloadSize rest) (find descriptorSet)],
        (packetOf descriptorSet payloadSize rest).length) :=
  (if_neg (Nat.not_lt.mpr h)).trans (if_pos hsealed)

theorem decision_of_not_sealed (h : payloadSize.toNat + checksumSize ≤ rest.length)
    (hbad : ¬Fletcher.Sealed (packetOf descriptorSet payloadSize rest)) :
    decision find (syncByte1 :: syncByte2 :: descriptorSet :: payloadSize :: rest) =
      some ([.packet .checksumError [syncByte1, syncByte2, descriptorSet, payloadSize]
        (find descriptorSet)], 1) :=
  (if_neg (Nat.not_lt.mpr h)).trans (if_neg hbad)

/-- The fronts of a stream, by what becomes of them. -/
theorem front_cases (xs : List UInt8) :
    xs = [] ∨ (∃ x ys, xs = x :: ys ∧ x ≠ syncByte1) ∨
      (∃ ys, xs = syncByte1 :: ys ∧ ys.length < 3) ∨
      (∃ x descriptorSet payloadSize rest, x ≠ syncByte2 ∧
        xs = syncByte1 :: x :: descriptorSet :: payloadSize :: rest) ∨
      ∃ descriptorSet payloadSize rest,
        xs = syncByte1 :: syncByte2 :: descriptorSet :: payloadSize :: rest := by
  rcases xs with _ | ⟨x, ys⟩
  · exact .inl rfl
  by_cases hx : x = syncByte1
  · subst hx
    match ys with
    | [] => exact .inr (.inr (.inl ⟨[], rfl, Nat.lt_of_sub_eq_succ rfl⟩))
    | [a] => exact .inr (.inr (.inl ⟨[a], rfl, Nat.lt_of_sub_eq_succ rfl⟩))
    | [a, b] => exact .inr (.inr (.inl ⟨[a, b], rfl, Nat.lt_of_sub_eq_succ rfl⟩))
    | a :: b :: c :: rest =>
      by_cases ha : a = syncByte2
      · subst ha
        exact .inr (.inr (.inr (.inr ⟨b, c, rest, rfl⟩)))
      · exact .inr (.inr (.inr (.inl ⟨a, b, c, rest, ha, rfl⟩)))
  · exact .inr (.inl ⟨x, ys, rfl, hx⟩)

/-- A decision takes a packet off, or a single byte. -/
theorem decision_cases (h : decision find xs = some (es, n)) :
    (∃ x ys, xs = x :: ys ∧ n = 1 ∧ validPackets es = []) ∨
      ∃ descriptorSet payloadSize rest,
        xs = syncByte1 :: syncByte2 :: descriptorSet :: payloadSize :: rest ∧
        payloadSize.toNat + checksumSize ≤ rest.length ∧
        Fletcher.Sealed (packetOf descriptorSet payloadSize rest) ∧
        n = (packetOf descriptorSet payloadSize rest).length ∧
        validPackets es = [packetOf descriptorSet payloadSize rest] := by
  rcases front_cases xs with rfl | ⟨x, ys, rfl, hx⟩ | ⟨ys, rfl, hshort⟩ |
    ⟨x, set, size, rest, hx, rfl⟩ | ⟨set, size, rest, rfl⟩
  · cases h
  · rw [decision_of_ne hx] at h
    cases h
    exact .inl ⟨x, ys, rfl, rfl, rfl⟩
  · rw [decision_of_short hshort] at h
    cases h
  · rw [decision_of_skipped hx] at h
    cases h
    exact .inl ⟨_, _, rfl, rfl, rfl⟩
  · rcases Nat.lt_or_ge rest.length (size.toNat + checksumSize) with hwait | hall
    · rw [decision_of_waiting hwait] at h
      cases h
    · by_cases hsealed : Fletcher.Sealed (packetOf set size rest)
      · rw [decision_of_sealed hall hsealed] at h
        cases h
        exact .inr ⟨set, size, rest, rfl, hall, hsealed, rfl, rfl⟩
      · rw [decision_of_not_sealed hall hsealed] at h
        cases h
        exact .inl ⟨_, _, rfl, rfl, rfl⟩

theorem decision_bounds (h : decision find xs = some (es, n)) : 0 < n ∧ n ≤ xs.length := by
  rcases decision_cases h with ⟨x, ys, rfl, rfl, -⟩ | ⟨set, size, rest, rfl, hall, -, rfl, -⟩
  · exact ⟨Nat.zero_lt_one, Nat.succ_pos _⟩
  · rw [length_packetOf hall]
    simp only [headerSize, List.length_cons]
    omega

theorem decision_mono (h : decision find xs = some (es, n)) (ys : List UInt8) :
    decision find (xs ++ ys) = some (es, n) := by
  rcases front_cases xs with rfl | ⟨x, zs, rfl, hx⟩ | ⟨zs, rfl, hshort⟩ |
    ⟨x, set, size, rest, hx, rfl⟩ | ⟨set, size, rest, rfl⟩
  · cases h
  · rw [decision_of_ne hx] at h
    rw [← h]
    exact decision_of_ne hx
  · rw [decision_of_short hshort] at h
    cases h
  · rw [decision_of_skipped hx] at h
    rw [← h]
    exact decision_of_skipped hx
  · rcases Nat.lt_or_ge rest.length (size.toNat + checksumSize) with hwait | hall
    · rw [decision_of_waiting hwait] at h
      cases h
    · -- The packet is there already.
      have hmore : size.toNat + checksumSize ≤ (rest ++ ys).length := by
        rw [List.length_append]
        omega
      have hsame : packetOf set size (rest ++ ys) = packetOf set size rest := by
        rw [packetOf, List.take_append_of_le_length hall, packetOf]
      rw [← h]
      show decision find (syncByte1 :: syncByte2 :: set :: size :: (rest ++ ys)) = _
      by_cases hsealed : Fletcher.Sealed (packetOf set size rest)
      · rw [decision_of_sealed hall hsealed, ← hsame]
        exact decision_of_sealed hmore (by rwa [hsame])
      · rw [decision_of_not_sealed hall hsealed]
        exact decision_of_not_sealed hmore (by rwa [hsame])

/-- What the parser should report of a stream, with the slots that `find` gives the callbacks. -/
def scanner (find : UInt8 → Option ℕ) : Scanner UInt8 Event where
  next := decision find
  bounds := decision_bounds
  mono := decision_mono

/-! ## The bytes of the ring buffer -/

/-- The ring buffer of an interface, with the bytes that it holds. -/
structure Holds (b : RingBuffer) (xs : List UInt8) : Prop where
  valid : b.Valid
  maxEntries : b.maxEntries = inputRingBufferSize
  entrySize : b.entrySize = 1
  contents : b.contents = xs.map fun x => [x]

section Holds

variable {b : RingBuffer}

theorem holds_init (m : Memory) : Holds (.initStatic m inputRingBufferSize 1) [] where
  valid := RingBuffer.valid_initStatic (by decide) (by decide)
  maxEntries := rfl
  entrySize := rfl
  contents := rfl

theorem Holds.currentCount (h : Holds b xs) : b.currentCount = xs.length := by
  rw [← RingBuffer.length_contents, h.contents, List.length_map]

theorem Holds.count (h : Holds b xs) : b.count = xs.length := by
  rw [RingBuffer.count, if_pos h.valid.ready, h.currentCount]

theorem Holds.length_le (h : Holds b xs) : xs.length ≤ inputRingBufferSize := by
  rw [← h.currentCount, ← h.maxEntries]
  exact h.valid.bounded

theorem Holds.remainingEntries (h : Holds b xs) :
    b.remainingEntries = inputRingBufferSize - xs.length := by
  rw [RingBuffer.remainingEntries, if_pos h.valid.ready, h.currentCount, h.maxEntries]

/-- The first byte is read. -/
theorem Holds.read (h : Holds b (x :: xs)) :
    ∃ b', b.read = (.ok, [x], b') ∧ Holds b' xs := by
  have hcount : b.currentCount ≠ 0 := by
    rw [h.currentCount]
    exact Nat.succ_ne_zero _
  have hcontents := h.valid.contents_popped hcount
  rw [h.contents, List.map_cons] at hcontents
  obtain ⟨hfirst, hrest⟩ := List.cons.inj hcontents
  refine ⟨b.popped, ?_, h.valid.popped hcount, h.maxEntries, h.entrySize, hrest.symm⟩
  rw [RingBuffer.read, if_neg hcount, ← hfirst]

/-- A byte is seen. -/
theorem Holds.lookaheadRead {k : ℕ} (h : Holds b xs) (hk : k < xs.length) :
    b.lookaheadRead k 1 = (.ok, [xs[k]]) := by
  have hlt : k < b.contents.length := by
    rw [h.contents, List.length_map]
    exact hk
  rw [h.valid.lookaheadRead_eq hlt (Nat.le_of_eq h.entrySize)]
  simp only [h.contents, List.getElem_map]

/-- Bytes are consumed. -/
theorem Holds.consumeEntries (h : Holds b xs) (n : ℕ) :
    Holds (b.consumeEntries n).2 (xs.drop n) where
  valid := h.valid.consumeEntries n
  maxEntries := h.maxEntries
  entrySize := h.entrySize
  contents := by
    rw [h.valid.contents_consumeEntries, h.contents, List.map_drop]

/-- A byte that has room is written. -/
theorem Holds.fill_written (h : Holds b xs) (hroom : xs.length < inputRingBufferSize) (y : UInt8) :
    Holds (b.fill [y]).written (xs ++ [y]) := by
  have hfree : b.currentCount < b.maxEntries := by
    rw [h.currentCount, h.maxEntries]
    exact hroom
  have hlen : [y].length = b.entrySize := h.entrySize.symm
  refine ⟨h.valid.fill_written hfree, h.maxEntries, h.entrySize, ?_⟩
  rw [h.valid.contents_fill_whole hfree hlen, h.contents, List.map_append]
  rfl

/-- Bytes are written as long as there is room. -/
theorem Holds.writeEntries (ys : List UInt8) (h : Holds b xs) :
    ∃ n, n = min ys.length (inputRingBufferSize - xs.length) ∧
      (RingBuffer.writeEntries (ys.map fun y => [y]) b).2.1 = n ∧
      Holds (RingBuffer.writeEntries (ys.map fun y => [y]) b).2.2 (xs ++ ys.take n) := by
  induction ys generalizing b xs with
  | nil => exact ⟨0, by simp, rfl, by simpa [RingBuffer.writeEntries] using h⟩
  | cons y ys ih =>
    rw [List.map_cons]
    unfold RingBuffer.writeEntries
    have hcount := h.currentCount
    have hmax := h.maxEntries
    rcases Nat.lt_or_ge xs.length inputRingBufferSize with hroom | hfull
    · obtain ⟨n, hn, hwritten, hholds⟩ := ih (h.fill_written hroom y)
      rw [if_neg (by omega)]
      refine ⟨n + 1, ?_, congrArg (· + 1) hwritten, ?_⟩
      · rw [hn, List.length_append, List.length_singleton, List.length_cons]
        omega
      · rw [List.take_succ_cons, List.append_cons]
        exact hholds
    · rw [if_pos (by omega)]
      refine ⟨0, by omega, rfl, ?_⟩
      rw [List.take_zero, List.append_nil]
      exact
        ⟨⟨h.valid.ready, h.valid.twice, h.valid.bytes, h.valid.placed, h.valid.bounded⟩,
          h.maxEntries, h.entrySize, h.contents⟩

/-- The bytes of a local buffer, written to the ring buffer. -/
theorem Holds.writeMulti (ys : List UInt8) (h : Holds b xs)
    (hroom : xs.length + ys.length ≤ inputRingBufferSize) :
    Holds (b.writeMulti (fun k => ys.getD k 0) ys.length).2.2 (xs ++ ys) := by
  have hentries : RingBuffer.entriesOf b.entrySize (fun k => ys.getD k 0) ys.length =
      ys.map fun y => [y] := by
    have hsize : inputRingBufferSize = 261 := rfl
    rw [h.entrySize]
    apply List.ext_getElem
    · simp [RingBuffer.entriesOf]
    · intro k hk hk'
      rw [List.length_map] at hk'
      have hplace : u32 k = k := u32_of_lt (by omega)
      simp [RingBuffer.entriesOf, hplace, hk']
  obtain ⟨n, hn, -, hholds⟩ := h.writeEntries ys
  rw [Nat.min_eq_left (by omega)] at hn
  subst hn
  rw [List.take_length] at hholds
  rw [RingBuffer.writeMulti, hentries]
  exact hholds

end Holds

/-! ## What a call may do -/

/-- Something did not come in time. -/
def Event.isTimeout : Event → Bool
  | .headerTimeout => true
  | .packet .timeout _ _ => true
  | _ => false

/-- Bytes at the front of a stream are settled, with events: by decisions of the scanner, or because
a header or a packet did not come in time. -/
inductive Reads (find : UInt8 → Option ℕ) : List UInt8 → List Event → List UInt8 → Prop where
  | done (xs : List UInt8) : Reads find xs [] xs
  | decided {xs ys : List UInt8} {es es' : List Event} {n : ℕ} : decision find xs = some (es, n) →
      Reads find (xs.drop n) es' ys → Reads find xs (es ++ es') ys
  | headerTimeout {xs ys : List UInt8} {es : List Event} : Reads find xs es ys →
      Reads find (syncByte1 :: xs) (.headerTimeout :: es) ys
  | timeout {xs ys header : List UInt8} {es : List Event} (slot : Option ℕ) : Reads find xs es ys →
      Reads find (syncByte1 :: xs) (.packet .timeout header slot :: es) ys

/-- Nothing but decisions. -/
theorem Reads.one (h : decision find xs = some (es, n)) : Reads find xs es (xs.drop n) := by
  have hone := Reads.decided h (.done _)
  rwa [List.append_nil] at hone

theorem Reads.trans {es' : List Event} {zs : List UInt8} (h : Reads find xs es ys)
    (h' : Reads find ys es' zs) : Reads find xs (es ++ es') zs := by
  induction h with
  | done xs => exact h'
  | decided hnext _ ih =>
    rw [List.append_assoc]
    exact .decided hnext (ih h')
  | headerTimeout _ ih => exact .headerTimeout (ih h')
  | timeout slot _ ih => exact .timeout slot (ih h')

/-- Without timeouts it is what the scanner does. -/
theorem Reads.scan (h : Reads find xs es ys) (hno : ∀ e ∈ es, e.isTimeout = false) :
    (scanner find).scan xs = (es ++ ((scanner find).scan ys).1, ((scanner find).scan ys).2) := by
  induction h with
  | done xs => rfl
  | decided hnext _ ih =>
    rw [Scanner.scan_of_next hnext, ih fun e he => hno e (List.mem_append_right _ he),
      List.append_assoc]
  | headerTimeout => cases hno _ List.mem_cons_self
  | timeout => cases hno _ List.mem_cons_self

theorem validPackets_append (es es' : List Event) :
    validPackets (es ++ es') = validPackets es ++ validPackets es' := List.filterMap_append

/-- What a decision takes off is a packet, or is left out. -/
theorem slices_of_decision {s : List UInt8} {ps : List (List UInt8)} (hs : Slices s ps xs)
    (h : decision find xs = some (es, n)) : Slices s (ps ++ validPackets es) (xs.drop n) := by
  rcases decision_cases h with ⟨x, ys, rfl, rfl, hnone⟩ |
    ⟨set, size, rest, rfl, -, -, rfl, hpacket⟩
  · rw [hnone, List.append_nil]
    exact hs.skip 1
  · have hsplit : syncByte1 :: syncByte2 :: set :: size :: rest =
        packetOf set size rest ++ rest.drop (size.toNat + checksumSize) := by
      rw [packetOf, List.append_assoc, List.take_append_drop]
      rfl
    rw [hpacket]
    rw [hsplit] at hs ⊢
    rw [List.drop_left]
    exact hs.take

/-- The packets that are reported are slices of the stream, whatever comes in time. -/
theorem Reads.slices {s : List UInt8} {ps : List (List UInt8)} (h : Reads find xs es ys)
    (hs : Slices s ps xs) : Slices s (ps ++ validPackets es) ys := by
  induction h generalizing ps with
  | done xs =>
    rw [show validPackets [] = [] from rfl, List.append_nil]
    exact hs
  | decided hnext _ ih =>
    rw [validPackets_append, ← List.append_assoc]
    exact ih (slices_of_decision hs hnext)
  | headerTimeout _ ih => exact ih (hs.skip 1)
  | timeout slot _ ih => exact ih (hs.skip 1)

/-- The packets that are reported are packets. -/
theorem Reads.sealed (h : Reads find xs es ys) :
    ∀ p ∈ validPackets es, ∃ descriptorSet payloadSize rest,
      p = packetOf descriptorSet payloadSize rest ∧
        payloadSize.toNat + checksumSize ≤ rest.length ∧ Fletcher.Sealed p := by
  induction h with
  | done xs => intro p hp; cases hp
  | decided hnext _ ih =>
    intro p hp
    rw [validPackets_append] at hp
    refine (List.mem_append.mp hp).elim (fun hp => ?_) (ih p)
    rcases decision_cases hnext with ⟨-, -, -, -, hnone⟩ |
      ⟨set, size, rest, -, hall, hsealed, -, hpacket⟩
    · rw [hnone] at hp
      cases hp
    · rw [hpacket] at hp
      obtain rfl := List.mem_singleton.mp hp
      exact ⟨set, size, rest, rfl, hall, hsealed⟩
  | headerTimeout _ ih => exact ih
  | timeout slot _ ih => exact ih

end Guillemot.Mip
