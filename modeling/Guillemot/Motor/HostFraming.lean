import Guillemot.Library.Loop
import Guillemot.Library.Windows
import Guillemot.Motor.Host

/-!
# The receive buffer of the host

`MotorControllerHandler::receive` and `processResponse` on the array `buffer` and the index
`bufIndex`, with the loop that the model of `Host.lean` leaves out. An access outside of the seven
bytes of a frame is undefined, so that a run that is done has made none.

What the buffer holds below its index is the window of a reader that takes byte after byte
(`FrameBuffer.receiveByte_eq`), so the responses that are handled are those of a greedy scan of all
bytes, however they come in (`receive_scans`). The host of `Host.lean` handles the same ones
(`Host.receiveBytes_eq_scan`).
-/

namespace Guillemot.Motor

/-! ## The buffer -/

/-- `buffer` and `bufIndex`. -/
structure FrameBuffer where
  /-- `buffer`, which has eight elements. -/
  buffer : List UInt8
  /-- The number of elements does not change. -/
  length_buffer : buffer.length = 8
  /-- `bufIndex`. -/
  bufIndex : ℤ
deriving DecidableEq

/-- The index lies within the bytes of a frame. -/
def FrameBuffer.InFrame (i : ℤ) : Prop := 0 ≤ i ∧ i < packetSize

instance (i : ℤ) : Decidable (FrameBuffer.InFrame i) := inferInstanceAs (Decidable (_ ∧ _))

/-- `buffer[i]`. -/
def FrameBuffer.get (fb : FrameBuffer) (i : ℤ) : Option UInt8 :=
  if FrameBuffer.InFrame i then fb.buffer[i.toNat]? else none

/-- `buffer[i] = data`. -/
def FrameBuffer.put (fb : FrameBuffer) (i : ℤ) (data : UInt8) : Option FrameBuffer :=
  if FrameBuffer.InFrame i then
    some { fb with
      buffer := fb.buffer.set i.toNat data
      length_buffer := by rw [List.length_set]; exact fb.length_buffer }
  else none

/-- The loop of `processResponse` that moves the bytes down, for the indices `is`. -/
def FrameBuffer.shift (fb : FrameBuffer) : List ℕ → Option FrameBuffer
  | [] => some fb
  | i :: is => (fb.get (i + 1)).bind fun b => (fb.put i b).bind fun fb => fb.shift is

/-- `processResponse`, up to its `switch`: the response that the `switch` is given, unless the bytes
are misaligned. -/
def FrameBuffer.processResponse (fb : FrameBuffer) : Option (FrameBuffer × Option Message) := do
  let first ← fb.get 0
  let last ← fb.get 6
  if first ≠ startSyncVal ∨ last ≠ endSyncVal then
    let fb ← fb.shift (List.range 6)
    return ({ fb with bufIndex := fb.bufIndex - 1 }, none)
  else
    let type ← fb.get 1
    let b0 ← fb.get 2
    let b1 ← fb.get 3
    let b2 ← fb.get 4
    let b3 ← fb.get 5
    return ({ fb with bufIndex := 0 }, some ⟨type, ⟨b0, b1, b2, b3⟩⟩)

/-- `buffer[bufIndex++] = data`. -/
def FrameBuffer.store (fb : FrameBuffer) (data : UInt8) : Option FrameBuffer :=
  (fb.put fb.bufIndex data).map fun fb => { fb with bufIndex := fb.bufIndex + 1 }

/-- The loop `while (bufIndex == 7) processResponse();` in at most `fuel` rounds, with the responses
that are handled. -/
def FrameBuffer.drain (fuel : ℕ) (fb : FrameBuffer) : Outcome (FrameBuffer × List Message) :=
  Loop.whileLoop (fun s => s.1.bufIndex == 7)
    (fun s => s.1.processResponse.map fun r => (r.1, s.2 ++ r.2.toList)) fuel (fb, [])

/-- One round of the loop of `receive`, for the byte `data`. -/
def FrameBuffer.receiveByte (fuel : ℕ) (fb : FrameBuffer) (data : UInt8) :
    Outcome (FrameBuffer × List Message) := do
  let (fb, drained) ← fb.drain fuel
  let fb ← Outcome.ofOption (fb.store data)
  if fb.bufIndex = 7 then
    let (fb, response) ← Outcome.ofOption fb.processResponse
    return (fb, drained ++ response.toList)
  else return (fb, drained)

/-- The loop of `receive` over the bytes that are read. -/
def FrameBuffer.receiveBytes (fuel : ℕ) : List UInt8 → FrameBuffer →
    Outcome (FrameBuffer × List Message)
  | [], fb => pure (fb, [])
  | b :: bs, fb => do
    let (fb, responses) ← fb.receiveByte fuel b
    let (fb, more) ← FrameBuffer.receiveBytes fuel bs fb
    return (fb, responses ++ more)

/-- `receive`, with the port open and `data` available, when `awaitingResponse` is as given. What
the responses do to the other members does not matter before the next call. -/
def FrameBuffer.receive (fuel : ℕ) (fb : FrameBuffer) (awaitingResponse : Bool)
    (data : List UInt8) : Outcome (FrameBuffer × List Message) :=
  if awaitingResponse then fb.receiveBytes fuel data else pure (fb, [])

/-- Calls of `receive`, each with `awaitingResponse` as it is then and the bytes available. -/
def FrameBuffer.receives (fuel : ℕ) : List (Bool × List UInt8) → FrameBuffer →
    Outcome (FrameBuffer × List Message)
  | [], fb => pure (fb, [])
  | call :: calls, fb => do
    let (fb, responses) ← fb.receive fuel call.1 call.2
    let (fb, more) ← FrameBuffer.receives fuel calls fb
    return (fb, responses ++ more)

/-! ## The window -/

/-- The bytes below the index. -/
def FrameBuffer.window (fb : FrameBuffer) : List UInt8 := fb.buffer.take fb.bufIndex.toNat

/-- The index as it is between two bytes. -/
def FrameBuffer.Between (fb : FrameBuffer) : Prop := 0 ≤ fb.bufIndex ∧ fb.bufIndex < packetSize

theorem FrameBuffer.length_window {fb : FrameBuffer} (h : fb.Between) :
    (fb.window.length : ℤ) = fb.bufIndex := by
  obtain ⟨hlow, hhigh⟩ := h
  unfold packetSize at hhigh
  rw [window, List.length_take, fb.length_buffer]
  omega

/-- Between two bytes the next one is stored below the end of the frame. -/
theorem FrameBuffer.store_of_between {fb : FrameBuffer} (h : fb.Between) (data : UInt8) :
    ∃ fb', fb.store data = some fb' ∧ fb'.bufIndex = fb.bufIndex + 1 ∧
      fb'.window = fb.window ++ [data] := by
  have hlen := fb.length_buffer
  obtain ⟨i, hi⟩ := Int.eq_ofNat_of_zero_le h.1
  have hi8 : i < fb.buffer.length := by
    have hhigh := h.2
    unfold packetSize at hhigh
    omega
  refine ⟨_, by rw [store, put, if_pos (show InFrame fb.bufIndex from h)]; rfl, rfl, ?_⟩
  -- The bytes below the index are left alone, and the new one comes behind them.
  have hindex : (fb.bufIndex + 1).toNat = i + 1 := by omega
  have hfront : (fb.buffer.set i data).take i = fb.buffer.take i := List.take_set_of_le le_rfl
  unfold window
  simp only [hindex]
  simp only [hi, Int.toNat_natCast]
  rw [List.take_add_one, hfront, List.getElem?_set_self hi8]
  rfl

/-- With a full frame in the buffer, `processResponse` looks at the window: it empties it when there
is a response, and throws its first byte out otherwise. -/
theorem FrameBuffer.processResponse_of_full {fb : FrameBuffer} (h : fb.bufIndex = 7) :
    ∃ fb', fb.processResponse = some (fb', Message.ofBytes fb.window) ∧ fb'.Between ∧
      fb'.window = if (Message.ofBytes fb.window).isSome then [] else fb.window.tail := by
  obtain ⟨buffer, hlen, i⟩ := fb
  subst h
  match buffer, hlen with
  | [b0, b1, b2, b3, b4, b5, b6, b7], hlen =>
    have hwindow : FrameBuffer.window ⟨[b0, b1, b2, b3, b4, b5, b6, b7], hlen, 7⟩ =
      [b0, b1, b2, b3, b4, b5, b6] := rfl
    rw [hwindow]
    unfold processResponse
    -- A response is taken out of the seven bytes, and otherwise they move down by one.
    by_cases hsync : b0 = startSyncVal ∧ b6 = endSyncVal
    · have hbytes : Message.ofBytes [b0, b1, b2, b3, b4, b5, b6] =
          some ⟨b1, ⟨b2, b3, b4, b5⟩⟩ := if_pos hsync
      obtain ⟨rfl, rfl⟩ := hsync
      rw [hbytes]
      exact ⟨⟨_, hlen, 0⟩, rfl, show (0 : ℤ) ≤ 0 ∧ (0 : ℤ) < packetSize by decide, rfl⟩
    · have hbytes : Message.ofBytes [b0, b1, b2, b3, b4, b5, b6] = none := if_neg hsync
      have hmisaligned : b0 ≠ startSyncVal ∨ b6 ≠ endSyncVal := by tauto
      rw [hbytes]
      refine ⟨⟨[b1, b2, b3, b4, b5, b6, b6, b7], rfl, 6⟩, ?_,
        show (0 : ℤ) ≤ 6 ∧ (6 : ℤ) < packetSize by decide, rfl⟩
      have hget0 : FrameBuffer.get ⟨[b0, b1, b2, b3, b4, b5, b6, b7], hlen, 7⟩ 0 = some b0 := rfl
      have hget6 : FrameBuffer.get ⟨[b0, b1, b2, b3, b4, b5, b6, b7], hlen, 7⟩ 6 = some b6 := rfl
      simp only [hget0, hget6, Option.bind_eq_bind, Option.bind_some, if_pos hmisaligned]
      rfl

/-- The inner loop of `receive` does nothing between two bytes. -/
theorem FrameBuffer.drain_of_between {fb : FrameBuffer} (h : fb.Between) (fuel : ℕ) :
    fb.drain fuel = .done (fb, []) := by
  obtain ⟨-, hhigh⟩ := h
  unfold packetSize at hhigh
  have hopen : (fb.bufIndex == 7) = false := beq_eq_false_iff_ne.mpr (by omega)
  exact Loop.whileLoop_of_false (s := (fb, [])) hopen fuel

/-! ## The bytes of a stream -/

/-- A byte is received as the reader of windows takes it. -/
theorem FrameBuffer.receiveByte_eq {fb : FrameBuffer} (h : fb.Between) (fuel : ℕ) (data : UInt8) :
    ∃ fb', fb.receiveByte fuel data =
        .done (fb', (Windows.feed packetSize Message.ofBytes fb.window data).2.toList) ∧
      fb'.Between ∧
      fb'.window = (Windows.feed packetSize Message.ofBytes fb.window data).1 := by
  obtain ⟨stored, hstore, hindex, hwindow⟩ := store_of_between h data
  have hlen : ((fb.window ++ [data]).length : ℤ) = stored.bufIndex := by
    rw [hindex, ← length_window h]
    simp
  unfold receiveByte Windows.feed
  simp only [drain_of_between h, Outcome.done_bind, hstore, Outcome.ofOption_some, List.nil_append]
  by_cases hfull : stored.bufIndex = 7
  · -- The frame is full, and `processResponse` looks at it.
    have hpacket : (fb.window ++ [data]).length = packetSize := by
      unfold packetSize
      omega
    obtain ⟨fb', hprocess, hbetween, hwindow'⟩ := processResponse_of_full hfull
    rw [hwindow] at hprocess hwindow'
    refine ⟨fb', ?_, hbetween, ?_⟩
    · rw [if_pos hfull, if_pos hpacket, hprocess]
      cases Message.ofBytes (fb.window ++ [data]) <;> rfl
    · rw [if_pos hpacket, hwindow']
      cases Message.ofBytes (fb.window ++ [data]) <;> rfl
  · have hpacket : (fb.window ++ [data]).length ≠ packetSize := by
      unfold packetSize
      omega
    rw [if_neg hfull, if_neg hpacket]
    refine ⟨stored, rfl, ?_, hwindow⟩
    obtain ⟨hlow, hhigh⟩ := h
    unfold packetSize at hhigh
    exact ⟨by omega, by unfold packetSize; omega⟩

/-- Bytes are received as the reader of windows takes them. -/
theorem FrameBuffer.receiveBytes_eq (fuel : ℕ) (bs : List UInt8) {fb : FrameBuffer}
    (h : fb.Between) :
    ∃ fb', FrameBuffer.receiveBytes fuel bs fb =
        .done (fb', (Windows.feeds packetSize Message.ofBytes bs fb.window).1) ∧
      fb'.Between ∧ fb'.window = (Windows.feeds packetSize Message.ofBytes bs fb.window).2 := by
  induction bs generalizing fb with
  | nil => exact ⟨fb, rfl, h, rfl⟩
  | cons b bs ih =>
    obtain ⟨fb', hbyte, hbetween, hwindow⟩ := receiveByte_eq h fuel b
    obtain ⟨fb'', hrest, hbetween', hwindow'⟩ := ih hbetween
    refine ⟨fb'', ?_, hbetween', by rw [hwindow', hwindow]; rfl⟩
    simp only [receiveBytes, hbyte, hrest, Outcome.done_bind, hwindow]
    rfl

/-- The calls made while a response is awaited receive all bytes one after the other. -/
theorem FrameBuffer.receives_eq (fuel : ℕ) (calls : List (Bool × List UInt8)) {fb : FrameBuffer}
    (h : fb.Between) (hawaiting : ∀ call ∈ calls, call.1 = true) :
    ∃ fb', FrameBuffer.receives fuel calls fb =
        .done (fb', (Windows.feeds packetSize Message.ofBytes (calls.flatMap Prod.snd)
          fb.window).1) ∧
      fb'.Between := by
  induction calls generalizing fb with
  | nil => exact ⟨fb, rfl, h⟩
  | cons call calls ih =>
    obtain ⟨fb', hcall, hbetween, hwindow⟩ := receiveBytes_eq fuel call.2 h
    obtain ⟨fb'', hrest, hbetween'⟩ :=
      ih hbetween fun c hc => hawaiting c (List.mem_cons_of_mem _ hc)
    have hreceive : fb.receive fuel call.1 call.2 = FrameBuffer.receiveBytes fuel call.2 fb :=
      if_pos (hawaiting call List.mem_cons_self)
    refine ⟨fb'', ?_, hbetween'⟩
    -- What one call leaves in the window the next one goes on with.
    rw [List.flatMap_cons, Windows.feeds_append]
    simp only [receives, hreceive, hcall, hrest, Outcome.done_bind, hwindow]
    rfl

/-- From an empty buffer on, whatever else it holds, and in any number of calls made while a
response is awaited: the index stays within the frame, with the frame full once the next byte is
stored at most, and the responses handled are those of a greedy scan of all bytes received. -/
theorem receive_scans (fuel : ℕ) (fb : FrameBuffer) (hempty : fb.bufIndex = 0)
    (calls : List (Bool × List UInt8)) (hawaiting : ∀ call ∈ calls, call.1 = true) :
    ∃ fb', FrameBuffer.receives fuel calls fb =
        .done (fb', (Windows.scan packetSize Message.ofBytes (calls.flatMap Prod.snd)).1) ∧
      (0 ≤ fb'.bufIndex ∧ fb'.bufIndex ≤ 6) ∧
      ∀ data, ∃ stored, fb'.store data = some stored ∧
        0 ≤ stored.bufIndex ∧ stored.bufIndex ≤ 7 := by
  have hbetween : fb.Between := ⟨by omega, by rw [hempty]; decide⟩
  -- Nothing of what an empty buffer holds is in the window.
  have hwindow : fb.window = [] := by
    unfold FrameBuffer.window
    rw [hempty]
    rfl
  obtain ⟨fb', hreceives, hbetween'⟩ := FrameBuffer.receives_eq fuel calls hbetween hawaiting
  rw [hwindow, Windows.feeds_nil packetSize_pos] at hreceives
  have hhigh := hbetween'.2
  unfold packetSize at hhigh
  refine ⟨fb', hreceives, ⟨hbetween'.1, by omega⟩, fun data => ?_⟩
  obtain ⟨stored, hstore, hindex, -⟩ := FrameBuffer.store_of_between hbetween' data
  exact ⟨stored, hstore, by have := hbetween'.1; omega, by omega⟩

/-- A frame behind a false start, cut in three: its message is the only response. -/
theorem received_behind_false_start :
    ∃ fb', FrameBuffer.receives 0 [(true, [0x53, 0x64]), (true, [0x53, 0x76, 1, 2]),
        (true, [3, 4, 0x45, 0x53])] ⟨[9, 9, 9, 9, 9, 9, 9, 9], rfl, 0⟩ =
        .done (fb', [⟨voltageResp, ⟨1, 2, 3, 4⟩⟩]) ∧
      (0 ≤ fb'.bufIndex ∧ fb'.bufIndex ≤ 6) ∧
      ∀ data, ∃ stored, fb'.store data = some stored ∧
        0 ≤ stored.bufIndex ∧ stored.bufIndex ≤ 7 :=
  receive_scans 0 ⟨[9, 9, 9, 9, 9, 9, 9, 9], rfl, 0⟩ rfl
    [(true, [0x53, 0x64]), (true, [0x53, 0x76, 1, 2]), (true, [3, 4, 0x45, 0x53])] (by decide)

/-! ## The host as a reader -/

/-- The host of `Host.lean` takes a byte as the reader does. -/
theorem Host.receiveByte_eq_feed (h : Host) (b : UInt8) :
    (h.receiveByte b).1.buffer = (Windows.feed packetSize Message.ofBytes h.buffer b).1 ∧
      (h.receiveByte b).2.map Prod.fst =
        (Windows.feed packetSize Message.ofBytes h.buffer b).2 := by
  unfold receiveByte Windows.feed
  simp only
  split_ifs
  · unfold processResponse
    cases hbytes : Message.ofBytes (h.buffer ++ [b]) with
    | none => exact ⟨rfl, rfl⟩
    | some response =>
      have hhandle := Host.handleResponse_buffer h [] response
      exact ⟨by simp only [hhandle], rfl⟩
  · exact ⟨rfl, rfl⟩

/-- The host handles the responses of a greedy scan, from an empty buffer on. -/
theorem Host.receiveBytes_eq_scan (bs : List UInt8) (h : Host) (hempty : h.buffer = []) :
    (Host.receiveBytes bs h).2.map Prod.fst =
      (Windows.scan packetSize Message.ofBytes bs).1 := by
  suffices hall : ∀ h : Host, (Host.receiveBytes bs h).2.map Prod.fst =
      (Windows.feeds packetSize Message.ofBytes bs h.buffer).1 by
    rw [hall, hempty, Windows.feeds_nil packetSize_pos]
  induction bs with
  | nil => exact fun _ => rfl
  | cons b bs ih =>
    intro h
    obtain ⟨hbuffer, hresponse⟩ := h.receiveByte_eq_feed b
    rw [receiveBytes, Windows.feeds, List.map_append, ih, hbuffer, ← hresponse]
    cases (h.receiveByte b).2 <;> rfl

end Guillemot.Motor
