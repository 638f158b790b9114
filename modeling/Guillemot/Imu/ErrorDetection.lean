import Guillemot.Imu.MipPacket
import Guillemot.Library.Fletcher

/-!
# What the checksum of a frame detects

The loop of `calculateChecksum` keeps two running sums of bytes (`Fletcher.sums`), and the last two
bytes of a frame are to be these sums of the others. So a frame with a good checksum is a sealed
list (`checksumHolds_iff`), and a change of one byte or of two neighbouring ones makes it another
list that is not sealed: `deserialize` then finds the checksum wrong.
-/

namespace Guillemot.Imu

/-! ## Frames that hold their checksum -/

/-- The checksum of a frame without its last two bytes, as `deserialize` computes it. -/
def frameChecksum (pBuf : Buf) (size : ℕ) : Option UInt16 :=
  calculateChecksum pBuf (size - mipPacketFooterSize)

/-- The last two bytes of a frame, as `deserialize` reads them. -/
def frameFooter (pBuf : Buf) (size : ℕ) : Option UInt16 :=
  getUInt16 (pBuf.offsetInt (size - mipPacketFooterSize))

/-- The last two bytes of a frame are the checksum of the bytes before them. -/
def ChecksumHolds (frame : List UInt8) : Prop :=
  ∃ checksum, frameChecksum (.ofList frame) frame.length = some checksum ∧
    frameFooter (.ofList frame) frame.length = some checksum

/-- The checksum is the word of the two running sums. -/
theorem checksumOf_eq (bytes : List UInt8) :
    checksumOf bytes =
      (Fletcher.sums bytes).1.toUInt16 <<< 8 ||| (Fletcher.sums bytes).2.toUInt16 := rfl

section Frame

variable (data rest : List UInt8) (msb lsb : UInt8)

/-- The checksum of a frame that may be followed by other bytes. -/
theorem frameChecksum_ofList :
    frameChecksum (.ofList (data ++ [msb, lsb] ++ rest)) (data ++ [msb, lsb]).length =
      some (checksumOf data) := by
  have hsize : (((data ++ [msb, lsb]).length : ℕ) : ℤ) - mipPacketFooterSize = data.length := by
    simp [mipPacketFooterSize]
  unfold frameChecksum
  rw [hsize, List.append_assoc]
  exact calculateChecksum_ofList data ([msb, lsb] ++ rest)

/-- The last two bytes of a frame that may be followed by other bytes. -/
theorem frameFooter_ofList :
    frameFooter (.ofList (data ++ [msb, lsb] ++ rest)) (data ++ [msb, lsb]).length =
      some (msb.toUInt16 <<< 8 ||| lsb.toUInt16) := by
  have hsize : (((data ++ [msb, lsb]).length : ℕ) : ℤ) - mipPacketFooterSize = data.length := by
    simp [mipPacketFooterSize]
  unfold frameFooter
  rw [hsize, Buf.offsetInt_of_nonneg _ (by omega), Int.toNat_natCast]
  simp [getUInt16, Buf.ofList]

end Frame

/-- A frame holds its checksum when it is sealed with it. -/
theorem checksumHolds_iff (data : List UInt8) (msb lsb : UInt8) :
    ChecksumHolds (data ++ [msb, lsb]) ↔ Fletcher.Sealed (data ++ [msb, lsb]) := by
  have hsum := frameChecksum_ofList data [] msb lsb
  have hfooter := frameFooter_ofList data [] msb lsb
  rw [List.append_nil] at hsum hfooter
  rw [Fletcher.sealed_append, ChecksumHolds, hsum, hfooter, checksumOf_eq]
  constructor
  · rintro ⟨checksum, hleft, hright⟩
    obtain ⟨h1, h2⟩ := word_inj.mp (Option.some.inj (hleft.trans hright.symm))
    exact Prod.ext h1 h2
  · intro h
    exact ⟨_, by rw [h], rfl⟩

/-- A frame of at least two bytes ends in its checksum bytes. -/
theorem eq_append_footer {frame : List UInt8} (hlen : 2 ≤ frame.length) :
    ∃ data msb lsb, frame = data ++ [msb, lsb] := by
  rcases frame.eq_nil_or_concat' with rfl | ⟨front, lsb, rfl⟩
  · simp at hlen
  · rcases front.eq_nil_or_concat' with rfl | ⟨data, msb, rfl⟩
    · simp at hlen
    · exact ⟨data, msb, lsb, by simp⟩

/-! ## What `deserialize` finds -/

/-- `deserialize` compares the two words of the frame. -/
theorem MipPacket.isChecksumGood_of_deserialize {packet packet' : MipPacket} {pBuf : Buf}
    {size fuel : ℕ} (h : packet.deserialize pBuf size fuel = .done packet') :
    ∃ checksum footer, frameChecksum pBuf size = some checksum ∧
      frameFooter pBuf size = some footer ∧
      packet'.isChecksumGood = decide (checksum = footer) := by
  unfold MipPacket.deserialize at h
  obtain ⟨_, -, h⟩ := Outcome.bind_eq_done.mp h
  obtain ⟨_, -, h⟩ := Outcome.bind_eq_done.mp h
  obtain ⟨_, -, h⟩ := Outcome.bind_eq_done.mp h
  obtain ⟨_, -, h⟩ := Outcome.bind_eq_done.mp h
  obtain ⟨_, -, h⟩ := Outcome.bind_eq_done.mp h
  -- What is left are the checksum, the footer, and the comparison.
  obtain ⟨checksum, hsum, h⟩ := Outcome.bind_eq_done.mp h
  obtain ⟨footer, hfooter, h⟩ := Outcome.bind_eq_done.mp h
  injection h with h
  subst h
  exact ⟨checksum, footer, Outcome.ofOption_eq_done.mp hsum, Outcome.ofOption_eq_done.mp hfooter,
    rfl⟩

/-- A frame of at least three bytes that holds its checksum, in which one byte or two neighbouring
ones are replaced by any others, does not hold its checksum: the words that are compared differ, and
`deserialize` reports it, whatever follows the frame in the buffer. -/
theorem change_detected (front window window' back : List UInt8)
    (hlen : 3 ≤ (front ++ window ++ back).length) (hwindow : window.length = 1 ∨ window.length = 2)
    (hsame : window'.length = window.length) (hne : window' ≠ window)
    (hgood : ChecksumHolds (front ++ window ++ back)) :
    let frame := front ++ window' ++ back
    (∃ checksum footer, frameChecksum (.ofList frame) frame.length = some checksum ∧
        frameFooter (.ofList frame) frame.length = some footer ∧ checksum ≠ footer) ∧
      ∀ (packet packet' : MipPacket) (rest : List UInt8) (fuel : ℕ),
        packet.deserialize (.ofList (frame ++ rest)) frame.length fuel = .done packet' →
          packet'.isChecksumGood = false := by
  intro frame
  have hlen' : 2 ≤ frame.length := by
    simp only [frame, List.length_append] at hlen ⊢
    omega
  obtain ⟨data, msb, lsb, hframe⟩ := eq_append_footer hlen'
  -- A changed frame that is sealed as well would be the frame itself.
  have hbad : ¬ Fletcher.Sealed (data ++ [msb, lsb]) := by
    intro hsealed
    obtain ⟨data₀, msb₀, lsb₀, hframe₀⟩ :=
      eq_append_footer (by omega : 2 ≤ (front ++ window ++ back).length)
    rw [hframe₀, checksumHolds_iff, ← hframe₀] at hgood
    rw [← hframe] at hsealed
    exact hne (Fletcher.Sealed.eq_of_window hsame (by omega) hgood hsealed).symm
  have hdiffer : checksumOf data ≠ msb.toUInt16 <<< 8 ||| lsb.toUInt16 := by
    intro heq
    obtain ⟨h1, h2⟩ := word_inj.mp (checksumOf_eq data ▸ heq)
    exact hbad (Fletcher.sealed_append.mpr (Prod.ext h1 h2))
  rw [hframe]
  constructor
  · have hsum := frameChecksum_ofList data [] msb lsb
    have hfooter := frameFooter_ofList data [] msb lsb
    rw [List.append_nil] at hsum hfooter
    exact ⟨_, _, hsum, hfooter, hdiffer⟩
  · intro packet packet' rest fuel hdone
    obtain ⟨checksum, footer, hsum, hfooter, hgood'⟩ :=
      MipPacket.isChecksumGood_of_deserialize hdone
    obtain rfl := Option.some.inj ((frameChecksum_ofList data rest msb lsb).symm.trans hsum)
    obtain rfl := Option.some.inj ((frameFooter_ofList data rest msb lsb).symm.trans hfooter)
    rw [hgood']
    exact decide_eq_false hdiffer

/-- The frame `75 65 80 00 5a 03` holds its checksum; with `81 ff` for `80 00` it does not. -/
theorem neighbours_changed :
    ∃ checksum footer,
      frameChecksum (.ofList [0x75, 0x65, 0x81, 0xff, 0x5a, 0x03]) 6 = some checksum ∧
        frameFooter (.ofList [0x75, 0x65, 0x81, 0xff, 0x5a, 0x03]) 6 = some footer ∧
        checksum ≠ footer :=
  (change_detected [0x75, 0x65] [0x80, 0x00] [0x81, 0xff] [0x5a, 0x03] (by decide) (by decide)
    (by decide) (by decide) ⟨0x5a03, by decide, by decide⟩).1

end Guillemot.Imu
