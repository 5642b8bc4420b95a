import ThingyAccel.HeatshrinkCompression
import ThingyAccel.Messages

/-!
`empty_fifo_fn` of src/sensor.c with the globals it works on. `cbor_encode_msg`
is a parameter, since the library behind it is not part of the repository, and
what the sensors, the clock and the allocator answer is given call by call.
-/
namespace ThingyAccel.EmptyFifo

open Memory HeatshrinkCompression Messages

def fifoSize : Nat := 510

def arrayByte : Nat := 1

def tableBytes : Nat := 2

def cborBitWidth (number : Int) : Nat :=
  if -24 ≤ number ∧ number ≤ 23 then 1
  else if -256 ≤ number ∧ number ≤ 255 then 2
  else if -65536 ≤ number ∧ number ≤ 65535 then 3
  else 5

def cborBitWidthTimestamp (number : UInt64) : Nat :=
  if number ≤ 23 then 1
  else if number ≤ 255 then 2
  else if number ≤ 65535 then 3
  else if number ≤ 4294967295 then 5
  else 9

structure SensorValue where
  val1 : Int32
  val2 : Int32
  deriving DecidableEq, Repr

structure Samples where
  values : List Int16
  count : values.length = fifoSize

/-- What a call meets outside: the uptime, the result of `sensor_sample_fetch`,
the result of `sensor_fifo_get` with the values it copies, the BME680 channels,
and for each message the call compresses whether the two allocations succeed. -/
structure Call where
  uptime : UInt64
  sampleFetch : Int
  fifoGet : Int × Samples
  temp1 : SensorValue
  press : SensorValue
  humidity : SensorValue
  memory : Nat → Bool × Bool

/-- The globals of src/shared.c and src/sensor.c. -/
structure Sampler where
  collectedAccel : Nat
  encodeMsgBuf : Msg
  sendFlag : Bool
  msgIndex : Nat
  message : List (List MessagePayload)
  deriving DecidableEq, Repr

/-- The slot that a message went to and what the slot holds since. -/
structure Stored where
  bank : Nat
  index : Nat
  slot : MessagePayload
  deriving DecidableEq, Repr

/-- A message handed to `cbor_encode_msg`; none stored when that failed. -/
structure Flush where
  message : Msg
  stored : Option Stored
  deriving DecidableEq, Repr

structure Filling where
  sampler : Sampler
  encodeIndex : Nat
  flushes : List Flush
  deriving DecidableEq, Repr

structure Served where
  sampler : Sampler
  flushes : List Flush
  submitted : Bool
  deriving DecidableEq, Repr

/-- The sum that the code adds to the size and takes off again: the widths of
the metadata, the heads around it and the head of the outer array. -/
def metadataBytes (buf : Msg) : Nat :=
  cborBitWidth buf.msgTphgTemp.toInt + cborBitWidth buf.msgTphgPress.toInt +
    cborBitWidth buf.msgTphgHum.toInt + cborBitWidthTimestamp buf.msgTphgTimestamp +
    tableBytes + arrayByte

def restartedMsg : Msg :=
  { clearedMsg with size := (clearedMsg.size + metadataBytes clearedMsg) % 2 ^ 16 }

/-- Compression into the slot, or the plain CBOR bytes when it returns zero.
Memory that came out longer than the payload array was written past its end. -/
def storeMessage (memory : Bool × Bool) (temporary : List UInt8) (slot : MessagePayload) :
    Checked MessagePayload := do
  let (compressionSize, payload) ←
    heatshrinkCompression memory.1 memory.2 temporary slot.payload
  if slot.payload.length < payload.length then .error .outOfBounds
  else if 0 < compressionSize then .ok { size := compressionSize, payload := payload }
  else do
    let payload ← writeAt payload 0 temporary
    .ok { size := temporary.length % 2 ^ 16, payload := payload }

section Call

variable (cborEncodeMsg : Msg → Option (List UInt8))

def flushMessage (memory : Nat → Bool × Bool) (run : Filling) : Checked Filling :=
  let st := run.sampler
  let buf := { st.encodeMsgBuf with msgXyzCount := run.encodeIndex }
  match cborEncodeMsg buf with
  -- The encoder failed: the triples are lost, the slot stays as it is.
  | none => .ok {
      sampler := { st with encodeMsgBuf := restartedMsg }
      encodeIndex := 0
      flushes := run.flushes ++ [⟨buf, none⟩] }
  | some temporary => do
      let bank ← readAt st.message st.msgIndex
      let slot ← readAt bank st.collectedAccel
      let slot ← storeMessage (memory run.flushes.length) temporary slot
      let bank ← writeAt bank st.collectedAccel [slot]
      let message ← writeAt st.message st.msgIndex [bank]
      let collectedAccel := (st.collectedAccel + 1) % 2 ^ 16
      -- The last slot turns to the other bank and asks for the upload.
      let full := collectedAccel = payloadCount
      .ok {
        sampler := {
          collectedAccel := if full then 0 else collectedAccel
          encodeMsgBuf := restartedMsg
          sendFlag := if full then true else st.sendFlag
          msgIndex := if full then (if st.msgIndex = 1 then 0 else 1) else st.msgIndex
          message := message }
        encodeIndex := 0
        flushes := run.flushes ++ [⟨buf, some ⟨st.msgIndex, st.collectedAccel, slot⟩⟩] }

def appendXyz (elementSize : Nat) (x y z : Int16) (run : Filling) : Checked Filling := do
  let buf := run.sampler.encodeMsgBuf
  let msgXyz ← writeAt buf.msgXyz run.encodeIndex [⟨x.toInt32, y.toInt32, z.toInt32⟩]
  .ok { run with
    sampler := { run.sampler with
      encodeMsgBuf := { buf with
        msgXyz := msgXyz, size := (buf.size + elementSize + arrayByte) % 2 ^ 16 } }
    encodeIndex := run.encodeIndex + 1 }

def encodeLoop (memory : Nat → Bool × Bool) : List Int16 → Filling → Checked Filling
  | [], run => .ok run
  | x :: y :: z :: accel, run => do
      let elementSize := (cborBitWidth x.toInt + cborBitWidth y.toInt + cborBitWidth z.toInt) % 2 ^ 8
      let run ←
        if payloadSize < run.sampler.encodeMsgBuf.size + elementSize + arrayByte then
          flushMessage cborEncodeMsg memory run
        else .ok run
      let run ← appendXyz elementSize x y z run
      encodeLoop memory accel run
  -- One or two values left over would be read past the array.
  | _, _ => .error .outOfBounds

def startMessage (call : Call) (buf : Msg) : Msg :=
  let buf := { buf with
    msgTphgTemp := call.temp1.val1
    msgTphgPress := call.press.val1 * 1000 + call.press.val2 / 1000
    msgTphgHum := call.humidity.val1 * 1000 + call.humidity.val2 / 1000 }
  { buf with size := (buf.size + metadataBytes buf) % 2 ^ 16 }

def leaveMessage (call : Call) (encodeIndex : Nat) (buf : Msg) : Msg :=
  let buf := { buf with msgXyzCount := encodeIndex }
  { buf with
    size := (buf.size + 2 ^ 16 - metadataBytes buf) % 2 ^ 16
    msgTphgTimestamp := call.uptime }

def emptyFifoFn (call : Call) (st : Sampler) : Checked Served :=
  if call.sampleFetch < 0 then .ok ⟨st, [], false⟩
  else if call.fifoGet.1 < 0 then .ok ⟨st, [], false⟩
  else do
    let buf := startMessage call st.encodeMsgBuf
    -- The loop goes on where the call before stopped.
    let run ← encodeLoop cborEncodeMsg call.memory call.fifoGet.2.values
      { sampler := { st with encodeMsgBuf := buf }, encodeIndex := buf.msgXyzCount, flushes := [] }
    let st := { run.sampler with
      encodeMsgBuf := leaveMessage call run.encodeIndex run.sampler.encodeMsgBuf }
    .ok ⟨st, run.flushes, st.sendFlag⟩

end Call

def initialSampler : Sampler :=
  { collectedAccel := 0, encodeMsgBuf := clearedMsg, sendFlag := false, msgIndex := 0,
    message := List.replicate 2 (List.replicate 60 ⟨0, List.replicate 1100 0⟩) }

end ThingyAccel.EmptyFifo
