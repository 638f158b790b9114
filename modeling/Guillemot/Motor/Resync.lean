import Mathlib.Tactic.IntervalCases
import Guillemot.Motor.Firmware

/-!
# Resynchronisation of the firmware

The firmware drops bytes up to the next `'S'` and then takes seven, whether or not they end in
`'E'`. So a residue in its receive buffer that begins with an `'S'` takes the first bytes of the
next frame with it, and the rest of that frame is searched for another `'S'`. When there is one
among its data, the firmware stays out of step: the repetition of the frame brings it back to the
same place (`cut_rotated`). `Realigns` is the condition on residue and frame that decides it, and
`dispatched_iff` the statement about the loop of the firmware.
-/

namespace Guillemot.Motor

/-! ## The loop of the firmware on arriving bytes -/

/-- What happens in one iteration of `loop`: bytes arrive before it, and the clock and the pins are
read in it. -/
structure Iteration where
  /-- The bytes that arrive. -/
  arriving : List UInt8
  /-- `millis()` when a request is handled. -/
  now : UInt32
  /-- The readings of the second part. -/
  readings : Readings
deriving DecidableEq, Repr

/-- The iterations of `loop` one after the other: the messages dispatched, and the firmware
afterwards. -/
def Firmware.run : List Iteration → Firmware → List Message × Firmware
  | [], fw => ([], fw)
  | it :: its, fw =>
    let (fw', served) := Firmware.loop { fw with rx := fw.rx ++ it.arriving } it.now it.readings
    ((served.map Prod.fst).toList ++ (Firmware.run its fw').1, (Firmware.run its fw').2)

/-- The firmware reads its packets as the reader of frames does, and dispatches the messages in
them. -/
theorem Firmware.run_eq_reads (its : List Iteration) (fw : Firmware) :
    (Firmware.run its fw).1 =
      (FixedFrames.reads startSyncVal packetSize (its.map (·.arriving)) fw.rx).1.filterMap
        Message.ofBytes := by
  induction its generalizing fw with
  | nil => rfl
  | cons it its ih =>
    have hrx : (Firmware.loop { fw with rx := fw.rx ++ it.arriving } it.now it.readings).1.rx =
        (FixedFrames.next startSyncVal packetSize (fw.rx ++ it.arriving)).2 := by
      unfold loop
      rw [measureAndCheck_rx, dispatch_rx]
    have hserved : (Firmware.loop { fw with rx := fw.rx ++ it.arriving } it.now
        it.readings).2.map Prod.fst =
        (FixedFrames.next startSyncVal packetSize (fw.rx ++ it.arriving)).1.bind
          Message.ofBytes := by
      unfold loop
      rw [dispatch_message]
    rw [List.map_cons, FixedFrames.reads, List.filterMap_append, run]
    simp only
    rw [ih, hrx, hserved]
    congr 1
    cases (FixedFrames.next startSyncVal packetSize (fw.rx ++ it.arriving)).1 with
    | none => rfl
    | some packet =>
      cases hpacket : Message.ofBytes packet <;> simp [hpacket]

/-- A message was dispatched exactly when its frame was read. -/
theorem Firmware.mem_run_iff (its : List Iteration) (fw : Firmware) (m : Message) :
    m ∈ (Firmware.run its fw).1 ↔
      m.bytes ∈ (FixedFrames.reads startSyncVal packetSize (its.map (·.arriving)) fw.rx).1 := by
  rw [run_eq_reads, List.mem_filterMap]
  constructor
  · rintro ⟨packet, hmem, hpacket⟩
    rwa [← Message.ofBytes_eq_some.mp hpacket]
  · exact fun hmem => ⟨m.bytes, hmem, m.ofBytes_bytes⟩

/-! ## A residue in front of a repeated frame -/

/-- Bytes that begin with an `'S'` take the first bytes of the frame behind them with them. -/
theorem cut_residue (m : Message) {t : List UInt8} (hhead : t.head? = some startSyncVal)
    (hlen : t.length ≤ packetSize) (ys : List UInt8) :
    FixedFrames.cut startSyncVal packetSize (t ++ (m.bytes ++ ys)) =
      (t ++ m.bytes.take (packetSize - t.length)) ::
        FixedFrames.cut startSyncVal packetSize (m.bytes.drop (packetSize - t.length) ++ ys) := by
  have hsplit : t ++ (m.bytes ++ ys) = (t ++ m.bytes.take (packetSize - t.length)) ++
      (m.bytes.drop (packetSize - t.length) ++ ys) := by
    rw [List.append_assoc, ← List.append_assoc (m.bytes.take _), List.take_append_drop]
  have hframe : FixedFrames.IsFrame startSyncVal packetSize
      (t ++ m.bytes.take (packetSize - t.length)) := by
    constructor
    · rw [List.length_append, List.length_take, Message.length_bytes]
      omega
    · rw [List.head?_append, hhead]
      rfl
  rw [hsplit]
  exact FixedFrames.cut_of_some packetSize_pos (FixedFrames.next_frame _ _ hframe)

/-- Bytes without an `'S'` are dropped. -/
theorem cut_of_notMem {d : List UInt8} (h : startSyncVal ∉ d) (ys : List UInt8) :
    FixedFrames.cut startSyncVal packetSize (d ++ ys) =
      FixedFrames.cut startSyncVal packetSize ys := by
  have hskip : FixedFrames.skip startSyncVal d = [] := (FixedFrames.skip_eq_nil_iff _ d).mpr h
  rw [FixedFrames.cut_skip packetSize_pos, hskip, List.nil_append]

/-- No rotation of a frame is the frame, which begins and ends differently. -/
theorem rotated_ne (m : Message) {j : ℕ} (hj : 0 < j) (hj' : j < packetSize) :
    m.bytes.drop j ++ m.bytes.take j ≠ m.bytes := by
  obtain ⟨type, b0, b1, b2, b3⟩ := m
  have hsync : startSyncVal ≠ endSyncVal := by decide
  unfold packetSize at hj'
  intro h
  -- Going around by `j`, the first byte would be equal to the last one.
  interval_cases j <;>
    simp only [Message.bytes, Data.bytes, List.cons_append, List.nil_append, List.drop_succ_cons,
      List.drop_zero, List.take_succ_cons, List.take_zero, List.cons.injEq, and_true] at h <;>
    grind

/-- The firmware stays out of step with a frame that is repeated: from an `'S'` inside of it, it
takes a rotation of the frame each time. -/
theorem cut_rotated (m : Message) {j : ℕ} (hj : 0 < j) (hj' : j < packetSize)
    (hhead : (m.bytes.drop j).head? = some startSyncVal) :
    m.bytes ∉ FixedFrames.cut startSyncVal packetSize
      (m.bytes.drop j ++ (m.bytes ++ m.bytes)) := by
  have hlen : (m.bytes.drop j).length = packetSize - j := by
    rw [List.length_drop, Message.length_bytes]
  have hback : packetSize - (m.bytes.drop j).length = j := by omega
  have hfirst := cut_residue m hhead (by omega) m.bytes
  have hsecond := cut_residue m hhead (by omega) []
  have hlast : FixedFrames.cut startSyncVal packetSize (m.bytes.drop j) = [] :=
    FixedFrames.cut_of_lt packetSize_pos (by omega)
  -- The first two packets are the rotation by `j`, and the rest is shorter than a packet.
  rw [hback] at hfirst hsecond
  rw [List.append_nil, List.append_nil, hlast] at hsecond
  rw [hfirst, hsecond]
  have hne := rotated_ne m hj hj'
  simpa using fun h => hne h.symm

/-- The bytes of a residue from its first `'S'` on. -/
def residueTail (r : List UInt8) : List UInt8 := FixedFrames.skip startSyncVal r

/-- The firmware gets into step with the frame of `m` behind the residue `r`: the residue holds no
`'S'`; or what it takes first is the frame all the same; or the part of the first frame that it
leaves holds no `'S'`. -/
def Realigns (r : List UInt8) (m : Message) : Prop :=
  residueTail r = [] ∨
    residueTail r ++ m.bytes.take (packetSize - (residueTail r).length) = m.bytes ∨
    startSyncVal ∉ m.bytes.drop (packetSize - (residueTail r).length)

instance (r : List UInt8) (m : Message) : Decidable (Realigns r m) := by
  unfold Realigns
  infer_instance

/-- The frame at the start of the stream is taken first. -/
theorem mem_cut_self (m : Message) (ys : List UInt8) :
    m.bytes ∈ FixedFrames.cut startSyncVal packetSize (m.bytes ++ ys) := by
  rw [FixedFrames.cut_of_some packetSize_pos (FixedFrames.next_frame _ ys m.isFrame_bytes)]
  exact List.mem_cons_self

/-- The part of a frame from an `'S'` on that is not its first byte begins inside of it. -/
theorem skip_drop (m : Message) {i : ℕ} (hi : 0 < i)
    (hmem : startSyncVal ∈ m.bytes.drop i) :
    ∃ j, 0 < j ∧ j < packetSize ∧ FixedFrames.skip startSyncVal (m.bytes.drop i) = m.bytes.drop j ∧
      (m.bytes.drop j).head? = some startSyncVal := by
  have hne : FixedFrames.skip startSyncVal (m.bytes.drop i) ≠ [] :=
    fun hnil => (FixedFrames.skip_eq_nil_iff _ _).mp hnil hmem
  have hdrop := FixedFrames.skip_eq_drop startSyncVal (m.bytes.drop i)
  rw [List.drop_drop, List.length_drop, Message.length_bytes] at hdrop
  have hpos := List.length_pos_iff.mpr hne
  have hle := FixedFrames.length_skip_le startSyncVal (m.bytes.drop i)
  rw [List.length_drop, Message.length_bytes] at hle
  exact ⟨_, by omega, by omega, hdrop, hdrop ▸ FixedFrames.head?_skip _ hne⟩

/-- The frame is taken of three copies of it behind a residue exactly when the firmware gets into
step. -/
theorem mem_cut_iff (r : List UInt8) (hr : r.length < packetSize) (m : Message) :
    m.bytes ∈ FixedFrames.cut startSyncVal packetSize (r ++ (m.bytes ++ (m.bytes ++ m.bytes))) ↔
      Realigns r m := by
  have hlen : (residueTail r).length < packetSize :=
    lt_of_le_of_lt (FixedFrames.length_skip_le startSyncVal r) hr
  rw [FixedFrames.cut_skip packetSize_pos]
  change m.bytes ∈ FixedFrames.cut startSyncVal packetSize (residueTail r ++ _) ↔ _
  by_cases hnil : residueTail r = []
  · rw [hnil, List.nil_append]
    exact iff_of_true (mem_cut_self m _) (.inl hnil)
  have hhead : (residueTail r).head? = some startSyncVal := FixedFrames.head?_skip _ hnil
  rw [cut_residue m hhead hlen.le, List.mem_cons, Realigns]
  by_cases hmem : startSyncVal ∈ m.bytes.drop (packetSize - (residueTail r).length)
  · -- The firmware goes on at an `'S'` inside of the first frame.
    obtain ⟨j, hj, hj', hskip, hjhead⟩ := skip_drop m (by omega) hmem
    rw [FixedFrames.cut_skip packetSize_pos, hskip]
    have hout := cut_rotated m hj hj' hjhead
    simp [hnil, hmem, hout, eq_comm]
  · -- The rest of the first frame is dropped, and the second one is taken.
    rw [cut_of_notMem hmem]
    simp [hmem, mem_cut_self]

/-- After a residue of fewer than seven bytes and three copies of the frame of `m`, however they
arrive, and three more iterations of `loop`, the firmware has dispatched a copy of `m` exactly when
it gets into step with the frame. -/
theorem dispatched_iff (fw : Firmware) (m : Message) (its idle : List Iteration)
    (hr : fw.rx.length < packetSize)
    (harrive : (its.map (·.arriving)).flatten = m.bytes ++ (m.bytes ++ m.bytes))
    (hidle : ∀ it ∈ idle, it.arriving = []) (hthree : 3 ≤ idle.length) :
    m ∈ (Firmware.run (its ++ idle) fw).1 ↔ Realigns fw.rx m := by
  have hpieces : (its ++ idle).map (·.arriving) =
      its.map (·.arriving) ++ List.replicate idle.length [] := by
    rw [List.map_append, List.append_cancel_left_eq, List.eq_replicate_iff]
    simpa using hidle
  rw [Firmware.mem_run_iff, hpieces, FixedFrames.reads_eq_cut packetSize_pos, harrive,
    mem_cut_iff _ hr]
  -- Six bytes and three frames are fewer than four frames.
  rw [harrive, List.length_append, List.length_append, List.length_append, Message.length_bytes]
  unfold packetSize at hr ⊢
  omega

/-- An iteration of `loop` with all pins low, in which `bytes` arrive. -/
def Iteration.quiet (bytes : List UInt8) : Iteration := ⟨bytes, 0, .at 0 0 0 0⟩

/-- Behind a residue that is an `'S'` alone, a message without another `'S'` is dispatched. -/
theorem dispatched_behind_start_byte :
    ⟨driveCmd, ⟨20, 0, 20, 0⟩⟩ ∈ (Firmware.run
      ([.quiet (wire (List.replicate 3 ⟨driveCmd, ⟨20, 0, 20, 0⟩⟩))] ++
        List.replicate 3 (.quiet [])) { Firmware.setup 0 with rx := [startSyncVal] }).1 :=
  (dispatched_iff { Firmware.setup 0 with rx := [startSyncVal] } ⟨driveCmd, ⟨20, 0, 20, 0⟩⟩
    [.quiet (wire (List.replicate 3 ⟨driveCmd, ⟨20, 0, 20, 0⟩⟩))] (List.replicate 3 (.quiet []))
    (by decide) (by decide) (by decide) (by decide)).mpr (by decide)

/-- Behind a residue of an `'S'` and four more bytes, a drive message to the left speed 83, which is
an `'S'`, is never dispatched. -/
theorem drive_not_dispatched :
    ⟨driveCmd, ⟨0x53, 0, 0, 0⟩⟩ ∉ (Firmware.run
      ([.quiet (wire (List.replicate 3 ⟨driveCmd, ⟨0x53, 0, 0, 0⟩⟩))] ++
        List.replicate 3 (.quiet []))
      { Firmware.setup 0 with rx := [startSyncVal, 0, 0, 0, 0] }).1 := by
  rw [Firmware.mem_run_iff]
  decide

end Guillemot.Motor
