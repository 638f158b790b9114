import Mathlib.Algebra.Ring.Parity
import Guillemot.Imu.PacketHandling

/-!
# Framing: which frames the receiver finds, and which it publishes

`WireFrame` is a frame as the IMU sends it. The receiver finds a frame behind garbage when an even
number of first sync bytes precedes it (`waitForGoodHeader_finds_iff`), since after one of them
`waitForGoodHeader` takes the next byte for the second. It cuts a stream of frames at their borders
when every payload length fits `expectedSize` and no frame but the last makes the field decoder loop
(`main_assembles_iff`).

`Comes` is the set of frames that the receiver comes to in an arbitrary stream, by `nextFrame`
alone. The frames that `main` handles are these (`mainLoop_sound`, `mainLoop_complete`), and since
nothing asks for their checksum, `published_checksums_iff` says of the stream when every message
comes from a frame whose checksum is good.
-/

namespace Guillemot.Imu

/-! ## Frames -/

/-- A well-formed frame. -/
structure WireFrame where
  /-- The descriptor set. -/
  descriptorSet : UInt8
  /-- The payload. -/
  payload : List UInt8
  /-- The two bytes of the checksum. -/
  checksum : UInt8 × UInt8
  /-- The payload length is a byte. -/
  length_le : payload.length ≤ 255

namespace WireFrame

variable (f : WireFrame)

/-- The payload length byte. -/
def lengthByte : UInt8 := UInt8.ofNat f.payload.length

/-- The frame on the wire, behind its sync bytes. -/
def body : List UInt8 :=
  f.descriptorSet :: f.lengthByte :: (f.payload ++ [f.checksum.1, f.checksum.2])

/-- The frame on the wire. -/
def bytes : List UInt8 := syncByte1Value :: syncByte2Value :: f.body

@[simp]
theorem toNat_lengthByte : f.lengthByte.toNat = f.payload.length := by
  have := f.length_le
  simp only [lengthByte, UInt8.toNat_ofNat']
  omega

@[simp]
theorem length_bytes : f.bytes.length = 6 + f.payload.length := by
  simp only [bytes, body, List.length_cons, List.length_append, List.length_nil]
  omega

end WireFrame

/-! ## Finding a frame behind garbage -/

/-- The two sync bytes are at index `i`. -/
def SyncAt (s : List UInt8) (i : ℕ) : Prop :=
  s[i]? = some syncByte1Value ∧ s[i + 1]? = some syncByte2Value

/-- The number of first sync bytes at the end of a list. -/
def trailingSyncs (g : List UInt8) : ℕ := (g.reverse.takeWhile (· = syncByte1Value)).length

/-- Behind `g`, which holds no pair of sync bytes, `waitForGoodHeader` waits for the second one. -/
def pendingSync : List UInt8 → Bool
  | [] => false
  | b0 :: g =>
    if b0 = syncByte1Value then
      match g with
      | [] => true
      | _ :: g => pendingSync g
    else pendingSync g

/-- A prefix without a pair of sync bytes is skipped, but for a first one at its end that is taken
into account. -/
theorem hunt_append {g : List UInt8} (h : ∀ i, i + 1 < g.length → ¬ SyncAt g i) (s : List UInt8) :
    hunt (g ++ s) = hunt (if pendingSync g then syncByte1Value :: s else s) := by
  fun_induction pendingSync g with
  | case1 => rfl
  | case2 => rfl
  | case3 b1 g ih =>
    -- The byte after a first sync byte is not the second one, since `g` holds no pair.
    have hb1 : b1 ≠ syncByte2Value := fun hb1 =>
      h 0 (by simp) ⟨rfl, by simp [hb1]⟩
    have hrest := ih fun i hi hsync => h (i + 2) (by
      simp only [List.length_cons]
      omega) hsync
    rw [← hrest]
    simp [hunt, hb1]
  | case4 b0 g hb0 ih =>
    have hrest := ih fun i hi hsync => h (i + 1) (by
      rw [List.length_cons]
      omega) hsync
    rw [← hrest, List.cons_append]
    conv_lhs => rw [hunt.eq_def]
    simp [hb0]

/-- One more byte of garbage. -/
theorem pendingSync_concat (g : List UInt8) (b : UInt8) :
    pendingSync (g ++ [b]) = (!pendingSync g && decide (b = syncByte1Value)) := by
  fun_induction pendingSync g with
  | case1 => by_cases hb : b = syncByte1Value <;> simp [pendingSync, hb]
  | case2 => simp [pendingSync]
  | case3 b1 g ih => simpa [pendingSync] using ih
  | case4 b0 g hb0 ih =>
    rw [List.cons_append, pendingSync.eq_def]
    simpa [hb0] using ih

/-- The receiver waits for a second sync byte behind an odd number of first ones. -/
theorem pendingSync_iff (g : List UInt8) : pendingSync g = true ↔ Odd (trailingSyncs g) := by
  induction g using List.reverseRecOn with
  | nil => simp [pendingSync, trailingSyncs]
  | append_singleton g b ih =>
    have htrail : trailingSyncs (g ++ [b]) =
        if b = syncByte1Value then trailingSyncs g + 1 else 0 := by
      by_cases hb : b = syncByte1Value <;> simp [trailingSyncs, hb]
    rw [pendingSync_concat, htrail]
    split_ifs with hb
    · simp [hb, ← ih, Nat.odd_add_one, Bool.not_eq_true]
    · simp [hb]

/-- What `hunt` returns is at most what it is given. -/
theorem length_le_of_hunt {port s : List UInt8} (h : hunt port = some s) :
    s.length ≤ port.length := by
  fun_induction hunt port with
  | case1 => cases h
  | case2 => cases h
  | case3 rest => exact (congrArg List.length (Option.some.inj h)).ge
  | case4 b1 rest hb1 ih =>
    have := ih h
    simp only [List.length_cons]
    omega
  | case5 b0 port hb0 ih =>
    have := ih h
    simp only [List.length_cons]
    omega

/-- `waitForGoodHeader`, fed the bytes `port`, returns with the header of `f`: the six bytes from
its start on are in the buffer, and the rest of it is still to come. -/
def FindsFrame (pBuf : Memory) (port : List UInt8) (f : WireFrame) : Prop :=
  waitForGoodHeader pBuf port = some (6, pBuf.write 0 (f.bytes.take 6), f.bytes.drop 6)

/-- When the first pair of sync bytes in `g` followed by the frame `f` is that of `f`,
`waitForGoodHeader` returns with the header of `f` exactly when the number of first sync bytes at
the end of `g` is even. When it is odd, the last of them is paired with the first sync byte of `f`,
and `f` is skipped. -/
theorem waitForGoodHeader_finds_iff (pBuf : Memory) (g : List UInt8) (f : WireFrame)
    (hfirst : ∀ i < g.length, ¬ SyncAt (g ++ f.bytes) i) :
    FindsFrame pBuf (g ++ f.bytes) f ↔ Even (trailingSyncs g) := by
  have hg : ∀ i, i + 1 < g.length → ¬ SyncAt g i := by
    rintro i hi ⟨h0, h1⟩
    refine hfirst i (by omega) ⟨?_, ?_⟩
    · rw [List.getElem?_append_left (by omega), h0]
    · rw [List.getElem?_append_left (by omega), h1]
  unfold FindsFrame
  rw [waitForGoodHeader_eq, hunt_append hg, ← Nat.not_odd_iff_even, ← pendingSync_iff]
  cases hpend : pendingSync g with
  | false =>
    have hhunt : hunt f.bytes = some f.bytes := by simp [WireFrame.bytes, hunt]
    simp [hhunt]
  | true =>
    -- What is found starts behind the sync bytes of `f`.
    have hskip : hunt (syncByte1Value :: f.bytes) = hunt f.body := by
      have hne : syncByte2Value ≠ syncByte1Value := by decide
      simp [WireFrame.bytes, hunt, hne.symm]
      rw [hunt.eq_def]
      simp [hne]
    have hbody : f.body.length + 2 = f.bytes.length := rfl
    simp only [if_true, hskip, not_true_eq_false, iff_false]
    intro hret
    obtain ⟨s, hs, hret⟩ := Option.bind_eq_some_iff.mp hret
    have hle := length_le_of_hunt hs
    split_ifs at hret with hshort
    have hdrop : s.drop 6 = f.bytes.drop 6 := by
      simpa using congrArg (fun r => r.2.2) (Option.some.inj hret)
    have hlen := congrArg List.length hdrop
    rw [List.length_drop, List.length_drop] at hlen
    omega

instance (s : List UInt8) (i : ℕ) : Decidable (SyncAt s i) := by
  unfold SyncAt
  infer_instance

/-- Behind a byte that is no sync byte, an empty frame is found. -/
theorem empty_frame_found :
    FindsFrame (fun _ => 0) ([0x01] ++ WireFrame.bytes ⟨0x80, [], (0x5a, 0x03), by decide⟩)
      ⟨0x80, [], (0x5a, 0x03), by decide⟩ :=
  (waitForGoodHeader_finds_iff (fun _ => 0) [0x01] ⟨0x80, [], (0x5a, 0x03), by decide⟩
    (by decide)).mpr ⟨0, rfl⟩

/-- Behind a single first sync byte, it is skipped. -/
theorem empty_frame_skipped :
    (∀ i < 1, ¬ SyncAt ([0x75] ++ WireFrame.bytes ⟨0x80, [], (0x5a, 0x03), by decide⟩) i) ∧
      ¬ FindsFrame (fun _ => 0) ([0x75] ++ WireFrame.bytes ⟨0x80, [], (0x5a, 0x03), by decide⟩)
        ⟨0x80, [], (0x5a, 0x03), by decide⟩ := by
  refine ⟨by decide, fun h => ?_⟩
  have hnone : waitForGoodHeader (fun _ => 0)
      ([0x75] ++ WireFrame.bytes ⟨0x80, [], (0x5a, 0x03), by decide⟩) = none := rfl
  unfold FindsFrame at h
  rw [hnone] at h
  cases h

/-! ## The loop of `main`, frame by frame -/

/-- The loop of `main` goes on behind the frame: it is not handled, or the field decoder ends. -/
def Passes (frame : List UInt8) : Prop :=
  descriptorSetOf frame = descriptorSetImuData → DecoderEnds frame

/-- The frames that an iteration assembles have a header and a checksum, and a length that is a
byte. What is left is less than what there was. -/
theorem nextFrame_bounds {port rest : List UInt8} {cut : Option (List UInt8)}
    (h : nextFrame port = some (cut, rest)) :
    rest.length < port.length ∧
      ∀ frame, cut = some frame → 6 ≤ frame.length ∧ frame.length ≤ 255 := by
  obtain ⟨s, hs, hcut⟩ := Option.bind_eq_some_iff.mp h
  have hle := length_le_of_hunt hs
  unfold cutFrame at hcut
  split_ifs at hcut with hshort hlarge hwait
  · obtain ⟨rfl, rfl⟩ := Prod.mk.inj (Option.some.inj hcut)
    exact ⟨by rw [List.length_drop]; omega, by simp⟩
  · obtain ⟨rfl, rfl⟩ := Prod.mk.inj (Option.some.inj hcut)
    refine ⟨by rw [List.length_drop]; omega, ?_⟩
    rintro _ ⟨⟩
    rw [List.length_take]
    omega

/-- The iteration that handles a frame returns when the frame passes, and publishes messages of the
frames that it publishes. -/
theorem ofFrame_spec (degrees : UInt32 → UInt32) (aBuf : Memory) (frame : List UInt8)
    (hlen : 6 ≤ frame.length) (hle : frame.length ≤ 255) :
    ((Round.ofFrame degrees aBuf frame).Returns = true ↔ Passes frame) ∧
      ((Round.ofFrame degrees aBuf frame).published ≠ [] ↔ Publishes frame) := by
  by_cases hset : descriptorSetOf frame = descriptorSetImuData
  · have hhandled : (Round.ofFrame degrees aBuf frame).handled =
        some (handlePacket degrees (aBuf.write 0 frame) frame.length) := if_pos hset
    rcases handlePacket_cases degrees aBuf hset hlen hle with ⟨hends, hrun⟩ | ⟨hends, ps, hps, hiff⟩
    · rw [hrun] at hhandled
      simp [Round.Returns, Round.published, hhandled, Passes, Publishes, hset, hends]
    · rw [hps] at hhandled
      simp only [Round.Returns, Round.published, hhandled, hiff, and_true]
      simp [Passes, hends]
  · have hhandled : (Round.ofFrame degrees aBuf frame).handled = none := if_neg hset
    simp [Round.Returns, Round.published, hhandled, Passes, Publishes, hset]

/-- The iteration that drops what it read. -/
def Round.dropped : Round := ⟨none, none⟩

/-- The loop of `main` takes one iteration after the other. -/
theorem mainLoop_cases (degrees : UInt32 → UInt32) {fuel : ℕ} (aBuf : Memory) {port : List UInt8}
    (hfuel : port.length ≤ fuel) :
    (nextFrame port = none ∧ mainLoop degrees fuel aBuf port = ([], port)) ∨
    ∃ cut rest aBuf' fuel', nextFrame port = some (cut, rest) ∧ rest.length ≤ fuel' ∧
      mainLoop degrees fuel aBuf port =
        if (cut.elim .dropped (Round.ofFrame degrees aBuf)).Returns then
          (cut.elim .dropped (Round.ofFrame degrees aBuf) :: (mainLoop degrees fuel' aBuf' rest).1,
            (mainLoop degrees fuel' aBuf' rest).2)
        else ([cut.elim .dropped (Round.ofFrame degrees aBuf)], rest) := by
  cases fuel with
  | zero =>
    obtain rfl : port = [] := List.length_eq_zero_iff.mp (Nat.le_zero.mp hfuel)
    exact .inl ⟨rfl, rfl⟩
  | succ fuel =>
    rcases mainRound_eq degrees aBuf port with ⟨hnext, hround⟩ | ⟨cut, rest, aBuf', hnext, hround⟩
    · exact .inl ⟨hnext, by rw [mainLoop, hround]⟩
    · have := (nextFrame_bounds hnext).1
      refine .inr ⟨cut, rest, aBuf', fuel, hnext, by omega, ?_⟩
      rw [mainLoop, hround]
      rfl

/-- The iteration of `main` on a stream from which something is taken. -/
theorem mainLoop_of_nextFrame (degrees : UInt32 → UInt32) {fuel : ℕ} (aBuf : Memory)
    {port rest : List UInt8} {cut : Option (List UInt8)} (hfuel : port.length ≤ fuel)
    (hnext : nextFrame port = some (cut, rest)) :
    ∃ aBuf' fuel', rest.length ≤ fuel' ∧
      mainLoop degrees fuel aBuf port =
        if (cut.elim .dropped (Round.ofFrame degrees aBuf)).Returns then
          (cut.elim .dropped (Round.ofFrame degrees aBuf) :: (mainLoop degrees fuel' aBuf' rest).1,
            (mainLoop degrees fuel' aBuf' rest).2)
        else ([cut.elim .dropped (Round.ofFrame degrees aBuf)], rest) := by
  rcases mainLoop_cases degrees aBuf hfuel with
    ⟨hwait, -⟩ | ⟨cut', rest', aBuf', fuel', hcut, hfuel', hloop⟩
  · rw [hnext] at hwait
    cases hwait
  · rw [hnext] at hcut
    obtain ⟨rfl, rfl⟩ := Prod.mk.inj (Option.some.inj hcut)
    exact ⟨aBuf', fuel', hfuel', hloop⟩

/-! ## A clean stream -/

/-- The header of a frame in a stream. -/
theorem getD_bytes_three (f : WireFrame) (tail : List UInt8) :
    (f.bytes ++ tail).getD 3 0 = f.lengthByte := rfl

/-- The receiver does not skip the start of a frame. -/
theorem hunt_bytes (f : WireFrame) (tail : List UInt8) :
    hunt (f.bytes ++ tail) = some (f.bytes ++ tail) := by
  simp [WireFrame.bytes, hunt]

/-- A frame whose length `expectedSize` holds is cut off whole. -/
theorem nextFrame_bytes (f : WireFrame) (h : f.payload.length < 250) (tail : List UInt8) :
    nextFrame (f.bytes ++ tail) = some (some f.bytes, tail) := by
  have hlen := f.length_bytes
  unfold nextFrame
  rw [hunt_bytes, Option.bind_some, cutFrame, getD_bytes_three, f.toNat_lengthByte,
    if_neg (by rw [List.length_append]; omega), if_neg (by omega),
    if_neg (by rw [List.length_append]; omega), ← hlen, List.take_left, List.drop_left]

/-- Of a longer frame six bytes are read and dropped. -/
theorem nextFrame_bytes_of_long (f : WireFrame) (h : ¬ f.payload.length < 250) (tail : List UInt8) :
    nextFrame (f.bytes ++ tail) = some (none, (f.bytes ++ tail).drop 6) := by
  have hlen := f.length_bytes
  unfold nextFrame
  rw [hunt_bytes, Option.bind_some, cutFrame, getD_bytes_three, f.toNat_lengthByte,
    if_neg (by rw [List.length_append]; omega), if_pos (by omega)]

/-- The bytes of a stream of frames. -/
def streamBytes (frames : List WireFrame) : List UInt8 := frames.flatMap WireFrame.bytes

/-- A run of `main` assembles exactly `frames`, whole and in order, passes those of the IMU data set
to `MipPacket::deserialize`, and leaves no byte over. -/
def Assembles (run : List Round × List UInt8) (frames : List WireFrame) : Prop :=
  run.1.map (fun r => (r.assembled, r.handled.isSome)) =
      frames.map (fun f => (some f.bytes, decide (f.descriptorSet = descriptorSetImuData))) ∧
    run.2 = []

/-- `expectedSize` holds the lengths of the frames, and the field decoder ends on all of them that
have another one behind them. -/
def CleanlyFramed (frames : List WireFrame) : Prop :=
  (∀ f ∈ frames, f.payload.length < 250) ∧ ∀ f ∈ frames.dropLast, Passes f.bytes

/-- A stream is framed cleanly from its first frame on. -/
theorem cleanlyFramed_cons (f : WireFrame) (fs : List WireFrame) :
    CleanlyFramed (f :: fs) ↔
      f.payload.length < 250 ∧ (fs ≠ [] → Passes f.bytes) ∧ CleanlyFramed fs := by
  cases fs with
  | nil => simp [CleanlyFramed]
  | cons f' fs =>
    have hlast : (f :: f' :: fs).dropLast = f :: (f' :: fs).dropLast := rfl
    rw [CleanlyFramed, CleanlyFramed, hlast, List.forall_mem_cons (a := f) (l := f' :: fs),
      List.forall_mem_cons (a := f) (l := (f' :: fs).dropLast)]
    have hpasses : (f' :: fs ≠ [] → Passes f.bytes) ↔ Passes f.bytes :=
      imp_iff_right (List.cons_ne_nil f' fs)
    rw [hpasses]
    tauto

/-- The loop of `main` on a stream of frames, by induction on the frames: an iteration that
assembles the first one and returns leaves the others. -/
theorem assembles_mainLoop_iff (degrees : UInt32 → UInt32) (frames : List WireFrame) {fuel : ℕ}
    (aBuf : Memory) (hfuel : (streamBytes frames).length ≤ fuel) :
    Assembles (mainLoop degrees fuel aBuf (streamBytes frames)) frames ↔ CleanlyFramed frames := by
  induction frames generalizing fuel aBuf with
  | nil =>
    have hloop : mainLoop degrees fuel aBuf (streamBytes []) = ([], []) := by
      cases fuel <;> rfl
    simp [hloop, Assembles, CleanlyFramed]
  | cons f fs ih =>
    have hstream : streamBytes (f :: fs) = f.bytes ++ streamBytes fs := rfl
    have hlen := f.length_bytes
    have hle := f.length_le
    rw [cleanlyFramed_cons, hstream]
    by_cases hshort : f.payload.length < 250
    · -- The first frame is cut off whole, and handled.
      have hnext := nextFrame_bytes f hshort (streamBytes fs)
      obtain ⟨hreturns, -⟩ := ofFrame_spec degrees aBuf f.bytes (by omega) (by omega)
      have hpair : ((Round.ofFrame degrees aBuf f.bytes).assembled,
          (Round.ofFrame degrees aBuf f.bytes).handled.isSome) =
          (some f.bytes, decide (f.descriptorSet = descriptorSetImuData)) := by
        by_cases hset : f.descriptorSet = 0x80 <;>
          simp [Round.ofFrame, descriptorSetOf, WireFrame.bytes, WireFrame.body,
            descriptorSetImuData, hset]
      obtain ⟨aBuf', fuel', hfuel', hloop⟩ :=
        mainLoop_of_nextFrame degrees aBuf (hstream ▸ hfuel) hnext
      rw [hloop, Option.elim_some]
      by_cases hpass : Passes f.bytes
      · rw [if_pos (hreturns.mpr hpass)]
        have hiff := ih aBuf' hfuel'
        simp only [Assembles, List.map_cons, hpair, List.cons.injEq, true_and] at hiff ⊢
        rw [hiff]
        simp [hshort, hpass]
      · -- Nothing is assembled behind a frame that does not pass.
        rw [if_neg fun h => hpass (hreturns.mp h)]
        cases fs with
        | nil => simp [Assembles, hpair, streamBytes, CleanlyFramed, hshort]
        | cons f' fs => simp [Assembles, hpass]
    · -- A long frame is not assembled, but dropped.
      have hnext := nextFrame_bytes_of_long f hshort (streamBytes fs)
      obtain ⟨aBuf', fuel', -, hloop⟩ :=
        mainLoop_of_nextFrame degrees aBuf (hstream ▸ hfuel) hnext
      rw [hloop]
      simp [Assembles, Round.dropped, Round.Returns, hshort]

/-- `main` assembles exactly the frames of a clean stream, and leaves no byte over, exactly when all
payload lengths are below 250 and the field decoder ends on every frame of the IMU data set that has
another one behind it. -/
theorem main_assembles_iff (degrees : UInt32 → UInt32) (aBuf : Memory) (frames : List WireFrame) :
    Assembles (main degrees aBuf (streamBytes frames)) frames ↔ CleanlyFramed frames :=
  assembles_mainLoop_iff degrees frames aBuf le_rfl

/-- A frame whose payload length `expectedSize` does not hold. -/
def longFrame : WireFrame where
  descriptorSet := 0x01
  payload := List.replicate 250 0
  checksum := (0, 0)
  length_le := by
    rw [List.length_replicate]
    norm_num

/-- A frame with 250 bytes of payload is not assembled. -/
theorem long_frame_dropped :
    ¬ Assembles (main id (fun _ => 0) (streamBytes [longFrame])) [longFrame] := by
  unfold main
  rw [assembles_mainLoop_iff id [longFrame] _ le_rfl]
  intro hclean
  have hlen : longFrame.payload.length = 250 := by simp only [longFrame, List.length_replicate]
  have hlt := hclean.1 longFrame (by simp)
  omega

/-! ## Any stream, and what is published of it -/

/-- The frames that the receiver comes to in a stream: each frame that `nextFrame` cuts off, behind
what was dropped and behind frames that pass. -/
inductive Comes : List UInt8 → List UInt8 → Prop
  | here {port rest frame : List UInt8} : nextFrame port = some (some frame, rest) →
      Comes port frame
  | behindDropped {port rest frame : List UInt8} : nextFrame port = some (none, rest) →
      Comes rest frame → Comes port frame
  | behindFrame {port rest first frame : List UInt8} : nextFrame port = some (some first, rest) →
      Passes first → Comes rest frame → Comes port frame

/-- An iteration of `main` drops what it read, or handles a frame that the receiver comes to. -/
theorem mainLoop_sound (degrees : UInt32 → UInt32) {fuel : ℕ} (aBuf : Memory) {port : List UInt8}
    (hfuel : port.length ≤ fuel) {r : Round} (hr : r ∈ (mainLoop degrees fuel aBuf port).1) :
    r = .dropped ∨ ∃ frame aBuf', Comes port frame ∧ r = Round.ofFrame degrees aBuf' frame := by
  -- By induction on the length of the stream, of which an iteration takes something.
  induction hn : port.length using Nat.strong_induction_on generalizing fuel aBuf port with
  | _ n ih =>
    rcases mainLoop_cases degrees aBuf hfuel with
      ⟨-, hloop⟩ | ⟨cut, rest, aBuf', fuel', hnext, hfuel', hloop⟩
    · simp [hloop] at hr
    obtain ⟨hlt, hbounds⟩ := nextFrame_bounds hnext
    rw [hloop] at hr
    cases cut with
    | none =>
      rcases List.mem_cons.mp hr with rfl | hr
      · exact .inl rfl
      · rcases ih rest.length (by omega) aBuf' hfuel' hr rfl with h | ⟨frame, m, hcomes, h⟩
        · exact .inl h
        · exact .inr ⟨frame, m, .behindDropped hnext hcomes, h⟩
    | some first =>
      obtain ⟨hlen, hle⟩ := hbounds first rfl
      obtain ⟨hreturns, -⟩ := ofFrame_spec degrees aBuf first hlen hle
      by_cases hpass : Passes first
      · rw [Option.elim_some, if_pos (hreturns.mpr hpass)] at hr
        rcases List.mem_cons.mp hr with rfl | hr
        · exact .inr ⟨first, aBuf, .here hnext, rfl⟩
        · rcases ih rest.length (by omega) aBuf' hfuel' hr rfl with h | ⟨frame, m, hcomes, h⟩
          · exact .inl h
          · exact .inr ⟨frame, m, .behindFrame hnext hpass hcomes, h⟩
      · -- No iteration follows on one that does not return.
        rw [Option.elim_some, if_neg fun h => hpass (hreturns.mp h)] at hr
        exact .inr ⟨first, aBuf, .here hnext, List.mem_singleton.mp hr⟩

/-- Every frame that the receiver comes to is handled in an iteration of `main`. -/
theorem mainLoop_complete (degrees : UInt32 → UInt32) {fuel : ℕ} (aBuf : Memory)
    {port frame : List UInt8} (hfuel : port.length ≤ fuel) (h : Comes port frame) :
    6 ≤ frame.length ∧ frame.length ≤ 255 ∧
      ∃ aBuf', Round.ofFrame degrees aBuf' frame ∈ (mainLoop degrees fuel aBuf port).1 := by
  induction h generalizing fuel aBuf with
  | @here port rest frame hnext =>
    obtain ⟨hlen, hle⟩ := (nextFrame_bounds hnext).2 frame rfl
    refine ⟨hlen, hle, aBuf, ?_⟩
    obtain ⟨aBuf', fuel', -, hloop⟩ := mainLoop_of_nextFrame degrees aBuf hfuel hnext
    rw [hloop]
    split_ifs <;> simp
  | @behindDropped port rest frame hnext _ ih =>
    obtain ⟨aBuf', fuel', hfuel', hloop⟩ := mainLoop_of_nextFrame degrees aBuf hfuel hnext
    obtain ⟨hlen, hle, m, hm⟩ := ih aBuf' hfuel'
    rw [hloop]
    exact ⟨hlen, hle, m, List.mem_cons_of_mem _ hm⟩
  | @behindFrame port rest first frame hnext hpass _ ih =>
    -- The iteration that handles `first` returns, and `frame` is handled in a later one.
    obtain ⟨aBuf', fuel', hfuel', hloop⟩ := mainLoop_of_nextFrame degrees aBuf hfuel hnext
    obtain ⟨hlen, hle⟩ := (nextFrame_bounds hnext).2 first rfl
    obtain ⟨hreturns, -⟩ := ofFrame_spec degrees aBuf first hlen hle
    obtain ⟨hlen', hle', m, hm⟩ := ih aBuf' hfuel'
    rw [hloop, Option.elim_some, if_pos (hreturns.mpr hpass)]
    exact ⟨hlen', hle', m, List.mem_cons_of_mem _ hm⟩

/-- The last two bytes of a frame are `calculateChecksum` of the bytes before them. -/
def ChecksumGood (frame : List UInt8) : Prop :=
  calculateChecksum (.ofList frame) (frame.length - 2) =
    getUInt16 ((Buf.ofList frame).offset (frame.length - 2))

/-- Every message that `main` publishes was decoded from a frame with a good checksum. -/
def PublishesChecked (rounds : List Round) : Prop :=
  ∀ r ∈ rounds, r.published ≠ [] → ∃ frame, r.assembled = some frame ∧ ChecksumGood frame

/-- Every message that `main` publishes was decoded from a frame with a good checksum exactly when
among the frames that the receiver comes to in the stream, those with a field to publish have good
checksums. Nothing in `main` makes it so: `isChecksumGood` is never called. -/
theorem published_checksums_iff (degrees : UInt32 → UInt32) (aBuf : Memory) (port : List UInt8) :
    PublishesChecked (main degrees aBuf port).1 ↔
      ∀ frame, Comes port frame → Publishes frame → ChecksumGood frame := by
  constructor
  · intro h frame hcomes hpub
    obtain ⟨hlen, hle, m, hm⟩ := mainLoop_complete degrees aBuf le_rfl hcomes
    obtain ⟨frame', hframe', hgood⟩ := h _ hm ((ofFrame_spec degrees m frame hlen hle).2.mpr hpub)
    obtain rfl : frame = frame' := Option.some.inj hframe'
    exact hgood
  · intro h r hr hpub
    rcases mainLoop_sound degrees aBuf le_rfl hr with rfl | ⟨frame, m, hcomes, rfl⟩
    · exact absurd rfl hpub
    · obtain ⟨hlen, hle, -⟩ := mainLoop_complete degrees aBuf le_rfl hcomes
      exact ⟨frame, rfl, h frame hcomes ((ofFrame_spec degrees m frame hlen hle).2.mp hpub)⟩

/-- A frame with one `EulerAngles` field and two zero bytes for its checksum. -/
def badFrame : List UInt8 :=
  [0x75, 0x65, 0x80, 0x0e, 0x0e, 0x0c, 0, 0, 0, 0, 0, 0, 0, 0, 0, 0, 0, 0, 0, 0]

/-- `main` publishes the angles of a frame with a wrong checksum. -/
theorem bad_checksum_published : ¬ PublishesChecked (main id (fun _ => 0) badFrame).1 := by
  have hrun : (main id (fun _ => 0) badFrame).1 =
      [⟨some badFrame, some (.done [⟨.imuAttitude, [0, 0, 0]⟩])⟩] := rfl
  intro h
  obtain ⟨frame, hframe, hgood⟩ := h ⟨some badFrame, some (.done [⟨.imuAttitude, [0, 0, 0]⟩])⟩
    (by simp [hrun]) (by simp [Round.published])
  obtain rfl : badFrame = frame := Option.some.inj hframe
  have hbad : calculateChecksum (.ofList badFrame) (badFrame.length - 2) ≠
      getUInt16 ((Buf.ofList badFrame).offset (badFrame.length - 2)) := by decide
  exact hbad hgood

end Guillemot.Imu
