import Mathlib.Tactic.SplitIfs
import ThingyAccel.EmptyFifo
import ThingyAccel.NextFit

/-!
The width functions of src/sensor.c against the lengths of canonical CBOR, and a
message as a bin: the metadata is its label with the bytes around them as tare,
the triples are its items.
-/
namespace ThingyAccel.MessageSize

open Cbor Messages EmptyFifo NextFit

theorem cbor_bit_width_exact {number : Int} (low : -2 ^ 31 ≤ number) (high : number < 2 ^ 31) :
    cborBitWidth number = (integer number).length := by
  rw [integer_length]
  cases number with
  | ofNat value =>
      have natural : Int.ofNat value = (value : Int) := rfl
      have argument : magnitude (Int.ofNat value) = value := rfl
      rw [argument, natural, cborBitWidth, headLength]
      rw [natural] at high
      split_ifs <;> omega
  | negSucc below =>
      have value : Int.negSucc below = -(below : Int) - 1 := by omega
      have argument : magnitude (Int.negSucc below) = below := rfl
      rw [argument, value, cborBitWidth, headLength]
      rw [value] at low
      split_ifs <;> omega

theorem cbor_bit_width_timestamp_exact (number : UInt64) :
    cborBitWidthTimestamp number = (integer number.toNat).length := by
  have bounded := number.toNat_lt
  rw [integer_length]
  simp only [cborBitWidthTimestamp, UInt64.le_iff_toNat_le]
  show _ = headLength number.toNat
  simp only [headLength, UInt64.reduceToNat]
  split_ifs <;> omega

theorem cbor_bit_width_range (number : Int) : 1 ≤ cborBitWidth number ∧ cborBitWidth number ≤ 5 := by
  unfold cborBitWidth
  repeat' split
  all_goals decide

theorem timestamp_width_range (number : UInt64) :
    1 ≤ cborBitWidthTimestamp number ∧ cborBitWidthTimestamp number ≤ 9 := by
  unfold cborBitWidthTimestamp
  repeat' split
  all_goals decide

theorem narrow_width {number : Int} (low : -2 ^ 15 ≤ number) (high : number < 2 ^ 15) :
    cborBitWidth number ≤ 3 := by
  unfold cborBitWidth
  split_ifs <;> omega

structure Metadata where
  timestamp : UInt64
  temp : Int32
  press : Int32
  hum : Int32
  deriving DecidableEq, Repr

def Metadata.cleared : Metadata := ⟨0, 0, 0, 0⟩

def metadata (input : Msg) : Metadata :=
  ⟨input.msgTphgTimestamp, input.msgTphgTemp, input.msgTphgPress, input.msgTphgHum⟩

/-- The bytes of a message beside its triples, with two bytes for the outer head. -/
def Metadata.bytes (label : Metadata) : Nat :=
  cborBitWidth label.temp.toInt + cborBitWidth label.press.toInt + cborBitWidth label.hum.toInt +
    cborBitWidthTimestamp label.timestamp + tableBytes + arrayByte

def xyzBytes (xyz : MsgXyz) : Nat :=
  cborBitWidth xyz.msgXyzX.toInt + cborBitWidth xyz.msgXyzY.toInt +
    cborBitWidth xyz.msgXyzZ.toInt + arrayByte

def NarrowXyz (xyz : MsgXyz) : Prop :=
  InInt16 xyz.msgXyzX ∧ InInt16 xyz.msgXyzY ∧ InInt16 xyz.msgXyzZ

abbrev MessageBin := Bin Metadata MsgXyz

def MessageBin.bytes (bin : MessageBin) : Nat := bin.weight Metadata.bytes xyzBytes

theorem metadata_bytes_range (label : Metadata) : 7 ≤ label.bytes ∧ label.bytes ≤ 27 := by
  have temp := cbor_bit_width_range label.temp.toInt
  have press := cbor_bit_width_range label.press.toInt
  have hum := cbor_bit_width_range label.hum.toInt
  have timestamp := timestamp_width_range label.timestamp
  simp only [Metadata.bytes, tableBytes, arrayByte]
  omega

theorem cleared_bytes : Metadata.cleared.bytes = 7 := by decide

theorem xyz_bytes_range (xyz : MsgXyz) : 4 ≤ xyzBytes xyz ∧ xyzBytes xyz ≤ 16 := by
  have x := cbor_bit_width_range xyz.msgXyzX.toInt
  have y := cbor_bit_width_range xyz.msgXyzY.toInt
  have z := cbor_bit_width_range xyz.msgXyzZ.toInt
  simp only [xyzBytes, arrayByte]
  omega

theorem narrow_xyz_bytes {xyz : MsgXyz} (narrow : NarrowXyz xyz) : xyzBytes xyz ≤ 10 := by
  obtain ⟨⟨lowX, highX⟩, ⟨lowY, highY⟩, ⟨lowZ, highZ⟩⟩ := narrow
  have x := narrow_width lowX highX
  have y := narrow_width lowY highY
  have z := narrow_width lowZ highZ
  simp only [xyzBytes, arrayByte]
  omega

/-- A message that holds a bin: its fields, its count and its size. -/
structure Holds (input : Msg) (bin : MessageBin) : Prop where
  label : metadata input = bin.label
  triples : input.triples = bin.items
  count : input.msgXyzCount = bin.items.length
  size : input.size = bin.bytes

/-- What the code keeps true of the triples of an open message. -/
structure Bounded (items : List MsgXyz) : Prop where
  light : load xyzBytes items ≤ 1017
  narrow : ∀ xyz ∈ items, NarrowXyz xyz

theorem bounded_count {items : List MsgXyz} (bounded : Bounded items) : items.length ≤ 254 := by
  have light := bounded.light
  have least := load_lower xyzBytes items fun xyz _ => (xyz_bytes_range xyz).1
  omega

theorem bounded_bytes {bin : MessageBin} (bounded : Bounded bin.items) : bin.bytes ≤ 1044 := by
  have light := bounded.light
  have tare := (metadata_bytes_range bin.label).2
  simp only [MessageBin.bytes, Bin.weight]
  omega

theorem full_count {bin : MessageBin} (bounded : Bounded bin.items) {xyz : MsgXyz} (narrow : NarrowXyz xyz)
    (full : payloadSize < bin.bytes + xyzBytes xyz) : 99 ≤ bin.items.length := by
  have last := narrow_xyz_bytes narrow
  have tare := (metadata_bytes_range bin.label).2
  have most := load_upper xyzBytes bin.items fun xyz member =>
    narrow_xyz_bytes (bounded.narrow xyz member)
  simp only [MessageBin.bytes, Bin.weight, payloadSize] at full
  omega

theorem triple_length (xyz : MsgXyz) : (encodeRepeatedMsgXyz xyz).length = xyzBytes xyz := by
  rw [repeated_length, xyzBytes,
    cbor_bit_width_exact xyz.msgXyzX.le_toInt xyz.msgXyzX.toInt_lt,
    cbor_bit_width_exact xyz.msgXyzY.le_toInt xyz.msgXyzY.toInt_lt,
    cbor_bit_width_exact xyz.msgXyzZ.le_toInt xyz.msgXyzZ.toInt_lt, arrayByte, Nat.add_comm]

theorem tphg_bytes (input : Msg) : (encodeTphg input).length + 2 = (metadata input).bytes := by
  simp only [tphg_length, Metadata.bytes, metadata, cbor_bit_width_timestamp_exact,
    cbor_bit_width_exact input.msgTphgTemp.le_toInt input.msgTphgTemp.toInt_lt,
    cbor_bit_width_exact input.msgTphgPress.le_toInt input.msgTphgPress.toInt_lt,
    cbor_bit_width_exact input.msgTphgHum.le_toInt input.msgTphgHum.toInt_lt, tableBytes, arrayByte]
  omega

/-- The head of the outer array takes the two bytes that the size counts as long
as the message holds 23 to 254 triples. -/
theorem canonical_length {input : Msg} {bin : MessageBin} (holds : Holds input bin)
    (least : 23 ≤ bin.items.length) (most : bin.items.length ≤ 254) :
    (encodeMsg input).length = bin.bytes := by
  -- From 24 elements on the head takes a second byte, from 256 on a third.
  have outer : headLength (1 + bin.items.length) = 2 := by
    simp only [headLength]
    split_ifs <;> omega
  have triples : (bin.items.map fun xyz => (encodeRepeatedMsgXyz xyz).length) =
      bin.items.map xyzBytes := List.map_congr_left fun xyz _ => triple_length xyz
  have tare := tphg_bytes input
  rw [encode_msg_length, holds.triples, outer, triples, MessageBin.bytes, Bin.weight, ← holds.label,
    ← tare, load]
  omega

end ThingyAccel.MessageSize
