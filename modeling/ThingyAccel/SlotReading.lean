import ThingyAccel.CompressionBounds
import ThingyAccel.MessageReading
import ThingyAccel.SampleConservation

/-!
What a receiver gets out of the bytes of a slot. A slot does not say whether it was
compressed, but a message starts with an array and its compressed form does not.
-/
namespace ThingyAccel.SlotReading

open Memory Bits Lzss HeatshrinkPoll HeatshrinkCompression CompressionBounds Messages EmptyFifo
  Formats MessageReading NextFit MessageSize MessagePacking SampleRuns MessageContents SampleConservation

/-- The bytes that `client_get_send` is given for a slot. -/
def slotBytes (slot : MessagePayload) : List UInt8 := slot.payload.take slot.size

def inflate (bytes : List UInt8) : List UInt8 :=
  (decode 9 3 (ofBytes bytes) (List.replicate 512 0)).drop 512

/-- The message of a slot, sent as it is or compressed. -/
def receive (bytes : List UInt8) : Option Report :=
  (messageFormat.readAll bytes).or (messageFormat.readAll (inflate bytes))

section FirstByte

variable {input out : List UInt8}

theorem first_literal {byte : UInt8} {rest : List UInt8} (nonzero : byte ≠ 0) :
    tokensFrom (byte :: rest) 0 = .literal byte :: tokensFrom (byte :: rest) 1 := by
  have here : (history (byte :: rest))[512]? = some byte := by
    rw [history, List.getElem?_append_right (Nat.le_of_eq List.length_replicate),
      List.length_replicate, Nat.sub_self]
    rfl
  have gap := @best_match_gap (history (byte :: rest)) 512
    (min 8 ((history (byte :: rest)).length - 512)) 0 512 (by
      intro reach above below same
      have zero : (history (byte :: rest))[512 - reach]? = some 0 := by
        rw [history, List.getElem?_append_left (by rw [List.length_replicate]; omega)]
        exact List.getElem?_replicate_of_lt (by omega)
      rw [zero, here] at same
      exact nonzero (Option.some.inj same).symm)
  rw [Nat.zero_add] at gap
  have start : (history (byte :: rest))[512 + 0]? = some byte := by
    rw [Nat.add_zero]
    exact here
  have short : (matchAt (history (byte :: rest)) 512 8 (512 + 0)).1 ≤ 1 := by
    rw [matchAt, Nat.add_zero, gap]
    exact Nat.zero_le 1
  exact tokens_literal start short

theorem major_bits {byte : UInt8} (major : byte.toNat / 32 = 4) :
    byte.toNat.testBit 7 = true ∧ byte.toNat.testBit 6 = false := by
  have every : ∀ value : Fin 256, value.val / 32 = 4 →
      value.val.testBit 7 = true ∧ value.val.testBit 6 = false := by
    decide +kernel
  exact every ⟨byte.toNat, byte.toNat_lt⟩ major

theorem bits_major {byte : UInt8} (first : byte.toNat.testBit 7 = true)
    (second : byte.toNat.testBit 6 = true) (third : byte.toNat.testBit 5 = false) :
    byte.toNat / 32 = 6 := by
  have every : ∀ value : Fin 256, value.val.testBit 7 = true → value.val.testBit 6 = true →
      value.val.testBit 5 = false → value.val / 32 = 6 := by
    decide +kernel
  exact every ⟨byte.toNat, byte.toNat_lt⟩ first second third

theorem byte_front (byte : UInt8) :
    (ofByte byte).take 3 =
      [byte.toNat.testBit 7, byte.toNat.testBit 6, byte.toNat.testBit 5] := rfl

/-- The tag bit of the first literal moves the major type of an array from 4 to 6. -/
theorem compressed_front {initial : UInt8} {rest : List UInt8} {allowance : Nat}
    (major : initial.toNat / 32 = 4) (finished : Finished (initial :: rest) allowance out) :
    ∃ first tail, out = first :: tail ∧ first.toNat / 32 = 6 := by
  obtain ⟨padding, -, spelled⟩ := finished.spelled
  have nonzero : initial ≠ 0 := by
    intro zero
    rw [zero] at major
    exact absurd major (by decide)
  rw [first_literal nonzero, stream_cons, List.append_assoc] at spelled
  cases out with
  | nil => cases spelled
  | cons first tail =>
      refine ⟨first, tail, rfl, ?_⟩
      have written : ofBytes (first :: tail) = ofByte first ++ ofBytes tail := rfl
      have long (byte : UInt8) : 3 ≤ (ofByte byte).length := by
        rw [of_byte_length]
        decide
      have front := congrArg (List.take 3) spelled
      rw [written, List.take_append_of_le_length (long first), byte_front] at front
      have literal : ((Token.literal initial).bits 9 3 ++ (stream 9 3 (tokensFrom (initial :: rest) 1) ++
          List.replicate padding false)).take 3 =
            [true, initial.toNat.testBit 7, initial.toNat.testBit 6] := rfl
      rw [literal] at front
      obtain ⟨set, clear⟩ := major_bits major
      rw [set, clear] at front
      simp only [List.cons.injEq] at front
      exact bits_major front.1 front.2.1 front.2.2.1

end FirstByte

section Slots

variable {input : Msg} {out : List UInt8} {allowance : Nat}

theorem message_front (admitted : messageFormat.admits (reportOf input)) :
    ∃ initial rest, encodeMsg input = initial :: rest ∧ initial.toNat / 32 = 4 := by
  have found := messageFormat.read_write (reportOf input) [] admitted
  rw [List.append_nil, message_written] at found
  cases encoded : encodeMsg input with
  | nil =>
      rw [encoded] at found
      cases found
  | cons initial rest =>
      rw [encoded] at found
      exact ⟨initial, rest, rfl, read_major found⟩

theorem read_whole (admitted : messageFormat.admits (reportOf input)) :
    messageFormat.readAll (encodeMsg input) = some (reportOf input) :=
  (read_all_iff messageFormat).mpr ⟨admitted, (message_written input).symm⟩

theorem receive_plain (admitted : messageFormat.admits (reportOf input)) :
    receive (encodeMsg input) = some (reportOf input) := by
  rw [receive, read_whole admitted]
  rfl

theorem compressed_not_plain (admitted : messageFormat.admits (reportOf input))
    (finished : Finished (encodeMsg input) allowance out) : messageFormat.readAll out = none := by
  obtain ⟨initial, rest, encoded, major⟩ := message_front admitted
  rw [encoded] at finished
  obtain ⟨first, tail, rfl, six⟩ := compressed_front major finished
  cases found : messageFormat.readAll (first :: tail) with
  | none => rfl
  | some report =>
      obtain ⟨inside, spelled⟩ := (read_all_iff messageFormat).mp found
      have back := messageFormat.read_write report [] inside
      rw [List.append_nil, ← spelled] at back
      exact absurd (six.symm.trans (read_major back)) (by decide)

theorem receive_compressed (admitted : messageFormat.admits (reportOf input))
    (finished : Finished (encodeMsg input) allowance out) :
    receive out = some (reportOf input) := by
  rw [receive, compressed_not_plain admitted finished, Option.none_or, inflate,
    decode_finished finished, read_whole admitted]

theorem held_bytes {bytes : List UInt8} {slot : MessagePayload} (fits : Fits bytes)
    (holds : HoldsBytes bytes slot) :
    slotBytes slot = bytes ∨ Finished bytes bytes.length (slotBytes slot) := by
  cases holds with
  | compressed _ _ whole => exact Or.inr (whole (Or.inl fits)).finished
  | plain _ _ front => exact Or.inl front

end Slots

section Runs

variable {cborEncodeMsg : Msg → Option (List UInt8)} {message : Msg} {run : SampleRun}

def Closed (message : Msg) : Prop :=
  ∃ bin, Holds message bin ∧ Bounded bin.items ∧ 99 ≤ bin.items.length

theorem closed_admitted (closed : Closed message) : messageFormat.admits (reportOf message) := by
  obtain ⟨bin, holds, range⟩ := closed
  have counted : message.triples.length = message.msgXyzCount := by
    rw [holds.triples, holds.count]
  exact encodable_admitted counted (holds_encodable holds range)

theorem closed_size (closed : Closed message) :
    1 ≤ (encodeMsg message).length ∧ (encodeMsg message).length ≤ 1100 := by
  obtain ⟨bin, holds, range⟩ := closed
  exact holds_size holds range

/-- A slot gives back its message if the stream of the message fits. -/
theorem carried_received (canonical : CanonicalEncoder cborEncodeMsg) (closed : Closed message)
    {slot : MessagePayload} (carries : Carries cborEncodeMsg message slot)
    (fits : Fits (encodeMsg message)) : receive (slotBytes slot) = some (reportOf message) := by
  obtain ⟨bytes, encodes, holds⟩ := carries
  rw [canonical message bytes encodes] at holds
  have admitted := closed_admitted closed
  rcases held_bytes fits holds with plain | finished
  · rw [plain]
    exact receive_plain admitted
  · exact receive_compressed admitted finished

def received (entry : Entry) : Option Report :=
  entry.flush.stored.bind fun stored => receive (slotBytes stored.slot)

theorem closed_run (canonical : CanonicalEncoder cborEncodeMsg)
    (complete : CompleteEncoder 1200 cborEncodeMsg) (calls : List Call) :
    ∃ run, runCalls cborEncodeMsg calls = .ok run ∧ Consistent run.sampler ∧
      Conserved cborEncodeMsg calls run ∧ ∀ message ∈ messages run.log, Closed message := by
  refine @run_induction cborEncodeMsg canonical
    (fun calls run => Conserved cborEncodeMsg calls run ∧ ∀ message ∈ messages run.log, Closed message)
    ⟨conserved_start, fun message member => absurd member List.not_mem_nil⟩ ?_ calls
  rintro calls call run next - consistent ⟨conserved, earlier⟩ serves
  refine ⟨conserved_step canonical complete consistent conserved serves, ?_⟩
  cases serves with
  | failed _ => exact earlier
  | served _ held _ closed _ _ =>
      intro message member
      rw [messages_append] at member
      rcases List.mem_append.mp member with old | new
      · exact earlier message old
      · obtain ⟨flush, inside, rfl⟩ := List.mem_map.mp new
        obtain ⟨bin, member', holds⟩ := flush_bin held flush inside
        exact ⟨bin, holds, closed bin member'⟩

theorem entry_received (canonical : CanonicalEncoder cborEncodeMsg) {calls : List Call}
    (conserved : Conserved cborEncodeMsg calls run)
    (closed : ∀ message ∈ messages run.log, Closed message) {entry : Entry} (member : entry ∈ run.log)
    (fits : Fits (encodeMsg entry.flush.message)) :
    received entry = some (reportOf entry.flush.message) := by
  obtain ⟨index, present⟩ := List.mem_iff_getElem?.mp member
  obtain ⟨slot, stored, carries, -⟩ :=
    (conserved.placed.messages index entry.flush (by simp [present])).placed
  rw [received, stored, Option.bind_some]
  exact carried_received canonical (closed _ (List.mem_map_of_mem member)) carries fits

/-- Whoever reads the slots of a run, as they are or decompressed, gets the messages
whose streams fit; and if all of them do, every sample of the bursts in order. -/
def SamplesReceived (cborEncodeMsg : Msg → Option (List UInt8)) (data : Samples)
    (calls : List DeviceCall) : Prop :=
  ∃ run, runCalls cborEncodeMsg (deviceCalls data calls) = .ok run ∧
    (∀ entry ∈ run.log, Fits (encodeMsg entry.flush.message) →
      received entry = some (reportOf entry.flush.message)) ∧
    ((∀ entry ∈ run.log, Fits (encodeMsg entry.flush.message)) →
      ∃ reports : List Report, run.log.map received = reports.map some ∧
        (reports.flatMap Report.xyz ++ run.sampler.encodeMsgBuf.triples).map xyzValues =
          calls.flatMap DeviceCall.triples)

theorem samples_received (canonical : CanonicalEncoder cborEncodeMsg)
    (complete : CompleteEncoder 1200 cborEncodeMsg) (data : Samples) (calls : List DeviceCall) :
    SamplesReceived cborEncodeMsg data calls := by
  obtain ⟨run, computed, -, conserved, closed⟩ := closed_run canonical complete (deviceCalls data calls)
  have each : ∀ entry ∈ run.log, Fits (encodeMsg entry.flush.message) →
      received entry = some (reportOf entry.flush.message) :=
    fun entry member fits => entry_received canonical conserved closed member fits
  refine ⟨run, computed, each, ?_⟩
  intro fits
  refine ⟨(messages run.log).map reportOf, ?_, ?_⟩
  · rw [messages, List.map_map, List.map_map]
    apply List.map_congr_left
    intro entry member
    exact each entry member (fits entry member)
  · have triples : ((messages run.log).map reportOf).flatMap Report.xyz =
        (messages run.log).flatMap Msg.triples := List.flatMap_map ..
    rw [triples, conserved.triples]
    exact device_triples data calls

theorem samples_received_resting :
    CanonicalEncoder (checkedEncoder 1200) ∧ CompleteEncoder 1200 (checkedEncoder 1200) ∧
      SamplesReceived (checkedEncoder 1200) restingSamples
        [restingCall (.ok restingBurst), restingCall (.ok restingBurst)] :=
  ⟨checked_encoder_canonical 1200, checked_encoder_complete 1200,
    samples_received (checked_encoder_canonical 1200) (checked_encoder_complete 1200)
      restingSamples _⟩

end Runs

end ThingyAccel.SlotReading
