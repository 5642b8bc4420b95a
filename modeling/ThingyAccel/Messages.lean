import Mathlib.Algebra.Ring.Int.Defs
import ThingyAccel.Cbor

/-! The message types of src/msg_encode_types.h and src/shared.h, and the CBOR
form that `encode_msg` of src/msg_encode.c gives to a message. -/
namespace ThingyAccel.Messages

open Cbor

def payloadSize : Nat := 1024

def payloadCount : Nat := 60

structure MsgXyz where
  msgXyzX : Int32
  msgXyzY : Int32
  msgXyzZ : Int32
  deriving DecidableEq, Repr

structure Msg where
  msgTphgTimestamp : UInt64
  msgTphgTemp : Int32
  msgTphgPress : Int32
  msgTphgHum : Int32
  msgXyz : List MsgXyz
  msgXyzCount : Nat
  size : Nat
  deriving DecidableEq, Repr

structure MessagePayload where
  size : Nat
  payload : List UInt8
  deriving DecidableEq, Repr

def clearedXyz : List MsgXyz := List.replicate 256 ⟨0, 0, 0⟩

/-- `memset(&encode_msg_buf, 0, sizeof(encode_msg_buf))`. -/
def clearedMsg : Msg :=
  { msgTphgTimestamp := 0, msgTphgTemp := 0, msgTphgPress := 0, msgTphgHum := 0,
    msgXyz := clearedXyz, msgXyzCount := 0, size := 0 }

theorem cleared_length : clearedXyz.length = 256 := List.length_replicate

/-- The triples that a message counts as its own. -/
def Msg.triples (input : Msg) : List MsgXyz := input.msgXyz.take input.msgXyzCount

def encodeRepeatedMsgXyz (input : MsgXyz) : List UInt8 :=
  array [integer input.msgXyzX.toInt, integer input.msgXyzY.toInt, integer input.msgXyzZ.toInt]

def encodeTphg (input : Msg) : List UInt8 :=
  array [integer input.msgTphgTimestamp.toNat, integer input.msgTphgTemp.toInt,
    integer input.msgTphgPress.toInt, integer input.msgTphgHum.toInt]

def encodeMsg (input : Msg) : List UInt8 :=
  array (encodeTphg input :: input.triples.map encodeRepeatedMsgXyz)

def InInt16 (value : Int32) : Prop := -2 ^ 15 ≤ value.toInt ∧ value.toInt < 2 ^ 15

/-- The range checks of `encode_msg`, and room for the bytes behind the longest
head of the outer array, which `zcbor` reserves first. -/
structure Encodable (payloadLen : Nat) (input : Msg) : Prop where
  present : 1 ≤ input.msgXyzCount
  counted : input.msgXyzCount ≤ 256
  ranged : ∀ xyz ∈ input.triples,
    InInt16 xyz.msgXyzX ∧ InInt16 xyz.msgXyzY ∧ InInt16 xyz.msgXyzZ
  room : (encodeMsg input).length + 2 ≤ payloadLen

instance (payloadLen : Nat) (input : Msg) : Decidable (Encodable payloadLen input) :=
  decidable_of_iff
    (1 ≤ input.msgXyzCount ∧ input.msgXyzCount ≤ 256 ∧
      (∀ xyz ∈ input.triples,
        (-2 ^ 15 ≤ xyz.msgXyzX.toInt ∧ xyz.msgXyzX.toInt < 2 ^ 15) ∧
        (-2 ^ 15 ≤ xyz.msgXyzY.toInt ∧ xyz.msgXyzY.toInt < 2 ^ 15) ∧
        (-2 ^ 15 ≤ xyz.msgXyzZ.toInt ∧ xyz.msgXyzZ.toInt < 2 ^ 15)) ∧
      (encodeMsg input).length + 2 ≤ payloadLen)
    ⟨fun ⟨present, counted, ranged, room⟩ => ⟨present, counted, ranged, room⟩,
      fun encodable => ⟨encodable.present, encodable.counted, encodable.ranged, encodable.room⟩⟩

/-- A `cbor_encode_msg` that succeeds writes the canonical form. -/
def CanonicalEncoder (cborEncodeMsg : Msg → Option (List UInt8)) : Prop :=
  ∀ input bytes, cborEncodeMsg input = some bytes → bytes = encodeMsg input

/-- A `cbor_encode_msg` that fails only on what cannot be encoded. -/
def CompleteEncoder (payloadLen : Nat) (cborEncodeMsg : Msg → Option (List UInt8)) : Prop :=
  ∀ input, Encodable payloadLen input → ∃ bytes, cborEncodeMsg input = some bytes

def checkedEncoder (payloadLen : Nat) (input : Msg) : Option (List UInt8) :=
  if Encodable payloadLen input then some (encodeMsg input) else none

theorem checked_encoder_canonical (payloadLen : Nat) :
    CanonicalEncoder (checkedEncoder payloadLen) := by
  intro input bytes encodes
  rw [checkedEncoder] at encodes
  split at encodes
  · exact (Option.some.inj encodes).symm
  · cases encodes

theorem checked_encoder_complete (payloadLen : Nat) :
    CompleteEncoder payloadLen (checkedEncoder payloadLen) := by
  intro input encodable
  exact ⟨encodeMsg input, if_pos encodable⟩

theorem repeated_length (input : MsgXyz) :
    (encodeRepeatedMsgXyz input).length =
      1 + ((integer input.msgXyzX.toInt).length + (integer input.msgXyzY.toInt).length +
        (integer input.msgXyzZ.toInt).length) := by
  have short : headLength 3 = 1 := rfl
  simp only [encodeRepeatedMsgXyz, array_length, List.length_cons, List.length_nil, List.map_cons,
    List.map_nil, List.sum_cons, List.sum_nil, Nat.zero_add, short]
  omega

theorem tphg_length (input : Msg) :
    (encodeTphg input).length =
      1 + ((integer input.msgTphgTimestamp.toNat).length + (integer input.msgTphgTemp.toInt).length +
        (integer input.msgTphgPress.toInt).length + (integer input.msgTphgHum.toInt).length) := by
  have short : headLength 4 = 1 := rfl
  simp only [encodeTphg, array_length, List.length_cons, List.length_nil, List.map_cons,
    List.map_nil, List.sum_cons, List.sum_nil, Nat.zero_add, short]
  omega

theorem encode_msg_length (input : Msg) :
    (encodeMsg input).length =
      headLength (1 + input.triples.length) + (encodeTphg input).length +
        (input.triples.map fun xyz => (encodeRepeatedMsgXyz xyz).length).sum := by
  have outer : (input.triples.map encodeRepeatedMsgXyz).length + 1 = 1 + input.triples.length := by
    rw [List.length_map, Nat.add_comm]
  rw [encodeMsg, array_length, List.length_cons, outer, List.map_cons, List.sum_cons, List.map_map,
    Nat.add_assoc]
  rfl

end ThingyAccel.Messages
