import ThingyAccel.Bits
import ThingyAccel.HeatshrinkEncoder

/-!
The bit output of src/heatshrink_encoder.c. `current_byte` and `bit_index` hold
the bits of a byte that is not full yet; pushing bits appends them to the bits
written so far, and one free output byte is room enough for eight of them.
-/
namespace ThingyAccel.HeatshrinkOutput

open Memory Bits HeatshrinkEncoder

structure Pending (hse : Encoder) (bits : List Bool) : Prop where
  short : bits.length < 8
  mask : hse.bitIndex = maskAfter bits.length
  byte : hse.currentByte = pack bits

theorem pending_start {hse : Encoder} {bits : List Bool} (pending : Pending hse bits) :
    hse.bitIndex = 0x80 ↔ bits = [] := by
  rw [pending.mask, mask_fresh pending.short, List.length_eq_zero_iff]

def withByte (hse : Encoder) (currentByte bitIndex : UInt8) : Encoder :=
  { hse with currentByte := currentByte, bitIndex := bitIndex }

theorem push_byte_room {oi : OutputInfo} (room : oi.outputSize < oi.bufSize) (byte : UInt8) :
    pushByte oi byte = .ok { oi with buf := oi.buf ++ [byte] } := by
  rw [pushByte, if_pos room]

/-- `pushed` follows what was there: the bits went out or wait in the byte. -/
structure Pushed (hse : Encoder) (oi : OutputInfo) (before pushed : List Bool)
    (next : Encoder × OutputInfo) : Prop where
  frame : ∃ currentByte bitIndex, next.1 = withByte hse currentByte bitIndex
  limit : next.2.bufSize = oi.bufSize
  room : next.2.outputSize ≤ oi.bufSize
  bits : ∃ pending, Pending next.1 pending ∧
    ofBytes next.2.buf ++ pending = ofBytes oi.buf ++ before ++ pushed

theorem push_bit_loop_exact (value : UInt8) (count : Nat) (hse : Encoder) (oi : OutputInfo)
    (before : List Bool) (pending : Pending hse before) (fits : oi.outputSize ≤ oi.bufSize)
    (room : (before.length + count) / 8 ≤ oi.bufSize - oi.outputSize) :
    ∃ next, pushBitLoop value count hse oi = .ok next ∧
      Pushed hse oi before (ofNat count value.toNat) next := by
  induction count generalizing hse oi before with
  | zero =>
      refine ⟨(hse, oi), rfl, ⟨⟨hse.currentByte, hse.bitIndex, rfl⟩, rfl, fits, before, pending, ?_⟩⟩
      simp [ofNat]
  | succ count ih =>
      obtain ⟨short, mask, byte⟩ := pending
      have accumulated : (if value.toNat.testBit count then hse.currentByte ||| hse.bitIndex
          else hse.currentByte) = pack (before ++ [value.toNat.testBit count]) := by
        rw [pack_snoc, byte, mask]
      simp only [pushBitLoop, accumulated]
      by_cases last : before.length = 7
      · -- The eighth bit completes the byte, which goes out.
        have free : oi.outputSize < oi.bufSize := by omega
        have wraps : hse.bitIndex >>> 1 = 0x00 := by
          rw [mask]; exact (mask_exhausted short).mpr last
        have eight : (before ++ [value.toNat.testBit count]).length = 8 := by simp [last]
        have whole := of_byte_pack eight
        rw [if_pos wraps, push_byte_room free, checked_bind]
        obtain ⟨next, computed, ⟨first, mask', same⟩, limit, inside, later, waiting, appended⟩ :=
          ih { hse with currentByte := 0x00, bitIndex := 0x80 }
            { oi with buf := oi.buf ++ [pack (before ++ [value.toNat.testBit count])] } []
            ⟨by simp, rfl, rfl⟩ (by simpa [OutputInfo.outputSize] using Nat.succ_le_of_lt free)
            (by simp only [OutputInfo.outputSize, List.length_append, List.length_cons,
                  List.length_nil] at *; omega)
        refine ⟨next, computed, ⟨first, mask', same⟩, limit, inside, later, waiting, ?_⟩
        rw [appended, of_bytes_snoc, whole]
        simp [ofNat]
      · have stays : ¬ hse.bitIndex >>> 1 = 0x00 := by
          rw [mask]; exact fun zero => last ((mask_exhausted short).mp zero)
        rw [if_neg stays]
        obtain ⟨next, computed, ⟨first, mask', same⟩, limit, inside, later, waiting, appended⟩ :=
          ih { hse with
              currentByte := pack (before ++ [value.toNat.testBit count])
              bitIndex := hse.bitIndex >>> 1 }
            oi (before ++ [value.toNat.testBit count])
            ⟨by simp; omega, by simp [mask, maskAfter], rfl⟩ fits
            (by simp only [List.length_append, List.length_cons, List.length_nil]; omega)
        refine ⟨next, computed, ⟨first, mask', same⟩, limit, inside, later, waiting, ?_⟩
        rw [appended]
        simp [ofNat]

/-- `push_bits` with a free output byte, the whole-byte shortcut included. -/
theorem push_bits_exact (value : UInt8) (count : Nat) (hse : Encoder) (oi : OutputInfo)
    (before : List Bool) (pending : Pending hse before) (byteAtMost : count ≤ 8)
    (room : oi.outputSize < oi.bufSize) :
    ∃ next, pushBits hse count value oi = .ok next ∧
      Pushed hse oi before (ofNat count value.toNat) next := by
  by_cases whole : count = 8 ∧ hse.bitIndex = 0x80
  · have empty := (pending_start pending).mp whole.2
    subst empty
    refine ⟨(hse, { oi with buf := oi.buf ++ [value] }), ?_,
      ⟨⟨hse.currentByte, hse.bitIndex, rfl⟩, rfl, ?_, [], pending, ?_⟩⟩
    · rw [pushBits, if_pos whole, push_byte_room room, checked_bind]
    · simpa [OutputInfo.outputSize] using Nat.succ_le_of_lt room
    · rw [of_bytes_snoc, whole.1]
      simp [ofByte]
  · have short := pending.short
    rw [pushBits, if_neg whole]
    exact push_bit_loop_exact value count hse oi before pending (Nat.le_of_lt room) (by omega)

theorem push_outgoing_bits_exact (hse : Encoder) (oi : OutputInfo) (before : List Bool)
    (pending : Pending hse before) (room : oi.outputSize < oi.bufSize)
    (queued : 0 < hse.outgoingBitsCount) :
    ∃ next : Encoder × OutputInfo,
      pushOutgoingBits hse oi = .ok (min 8 hse.outgoingBitsCount,
        { next.1 with outgoingBitsCount := hse.outgoingBitsCount - min 8 hse.outgoingBitsCount },
        next.2) ∧
      Pushed hse oi before (ofNat (min 8 hse.outgoingBitsCount)
        (hse.outgoingBits >>> (hse.outgoingBitsCount - min 8 hse.outgoingBitsCount))) next := by
  have count : (if 8 < hse.outgoingBitsCount then 8 else hse.outgoingBitsCount) =
      min 8 hse.outgoingBitsCount := by
    split <;> omega
  have shifted : (if 8 < hse.outgoingBitsCount
        then UInt8.ofNat (hse.outgoingBits >>> (hse.outgoingBitsCount - 8))
        else UInt8.ofNat hse.outgoingBits) =
      UInt8.ofNat (hse.outgoingBits >>> (hse.outgoingBitsCount - min 8 hse.outgoingBitsCount)) := by
    split
    case isTrue wide => rw [Nat.min_eq_left (by omega)]
    case isFalse narrow => rw [Nat.min_eq_right (by omega), Nat.sub_self, Nat.shiftRight_zero]
  obtain ⟨next, computed, pushed⟩ := push_bits_exact
    (UInt8.ofNat (hse.outgoingBits >>> (hse.outgoingBitsCount - min 8 hse.outgoingBitsCount)))
    (min 8 hse.outgoingBitsCount) hse oi before pending (by omega) room
  refine ⟨next, ?_, ?_⟩
  · obtain ⟨first, mask, same⟩ := pushed.frame
    simp only [pushOutgoingBits, count, shifted]
    rw [if_pos (by omega), computed, checked_bind]
    rw [same]
    rfl
  · have low := of_nat_mod (min 8 hse.outgoingBitsCount) 8
      (hse.outgoingBits >>> (hse.outgoingBitsCount - min 8 hse.outgoingBitsCount)) (by omega)
    rw [UInt8.toNat_ofNat', low] at pushed
    exact pushed

theorem push_outgoing_bits_none (hse : Encoder) (oi : OutputInfo)
    (nothing : hse.outgoingBitsCount = 0) : pushOutgoingBits hse oi = .ok (0, hse, oi) := by
  simp [pushOutgoingBits, nothing]

end ThingyAccel.HeatshrinkOutput
