import ThingyAccel.CborFormats
import ThingyAccel.Messages

/-!
What a receiver reads off the bytes of a message: the array that src/msg_encode.c
writes, with its ranges, as a format.
-/
namespace ThingyAccel.MessageReading

open Cbor Formats CborFormats Messages

/-- What a message says. -/
structure Report where
  timestamp : UInt64
  temp : Int32
  press : Int32
  hum : Int32
  xyz : List MsgXyz
  deriving DecidableEq, Repr

def reportOf (input : Msg) : Report where
  timestamp := input.msgTphgTimestamp
  temp := input.msgTphgTemp
  press := input.msgTphgPress
  hum := input.msgTphgHum
  xyz := input.triples

section Schema

def int32Format : Format UInt8 Int32 :=
  converted integerFormat Int32.toInt
    (fun value => if (Int32.ofInt value).toInt = value then some (Int32.ofInt value) else none)
    (fun value => by rw [Int32.ofInt_toInt, if_pos rfl])
    (by
      intro value number found
      split at found
      · cases found
        assumption
      · cases found)

def uint64Format : Format UInt8 UInt64 :=
  converted integerFormat (fun value => (value.toNat : Int))
    (fun value => if ((UInt64.ofNat value.toNat).toNat : Int) = value then
      some (UInt64.ofNat value.toNat) else none)
    (fun value => by rw [Int.toNat_natCast, UInt64.ofNat_toNat, if_pos rfl])
    (by
      intro value number found
      split at found
      · cases found
        assumption
      · cases found)

def Narrow (xyz : MsgXyz) : Prop :=
  InInt16 xyz.msgXyzX ∧ InInt16 xyz.msgXyzY ∧ InInt16 xyz.msgXyzZ

instance (value : Int32) : Decidable (InInt16 value) := inferInstanceAs (Decidable (_ ∧ _))

instance : DecidablePred Narrow := fun _ => inferInstanceAs (Decidable (_ ∧ _))

def xyzFormat : Format UInt8 MsgXyz :=
  checked
    (converted (fixedArray 3 (both int32Format (both int32Format int32Format)))
      (fun xyz => (xyz.msgXyzX, xyz.msgXyzY, xyz.msgXyzZ))
      (fun values => some ⟨values.1, values.2.1, values.2.2⟩)
      (fun _ => rfl)
      (by
        intro values xyz found
        cases found
        rfl))
    Narrow

def tphgFormat : Format UInt8 (UInt64 × Int32 × Int32 × Int32) :=
  fixedArray 4 (both uint64Format (both int32Format (both int32Format int32Format)))

/-- The elements behind the head of the outer array. -/
def bodyFormat (count : Nat) : Format UInt8 Report :=
  checked
    (converted (both tphgFormat (times xyzFormat (count - 1)))
      (fun report => ((report.timestamp, report.temp, report.press, report.hum), report.xyz))
      (fun values => some ⟨values.1.1, values.1.2.1, values.1.2.2.1, values.1.2.2.2, values.2⟩)
      (fun _ => rfl)
      (by
        intro values report found
        cases found
        rfl))
    (fun report => 1 ≤ report.xyz.length ∧ report.xyz.length ≤ 256)

theorem body_sized (count : Nat) (report : Report) (admitted : (bodyFormat count).admits report) :
    report.xyz.length + 1 = count := by
  obtain ⟨⟨-, long, -⟩, present, -⟩ := admitted
  have long : report.xyz.length = count - 1 := long
  omega

def messageFormat : Format UInt8 Report :=
  led arrayHead bodyFormat (fun report => report.xyz.length + 1) body_sized

end Schema

section Writing

theorem int32_written (value : Int32) : int32Format.write value = integer value.toInt :=
  integer_written value.toInt

theorem int32_admitted (value : Int32) : int32Format.admits value := by
  have least := value.le_toInt
  have most := value.toInt_lt
  apply (integer_admitted value.toInt).mpr
  cases number : value.toInt with
  | ofNat number' =>
      rw [number] at most
      have bound : (number' : Int) < 2 ^ 31 := most
      exact (by omega : number' < 2 ^ 64)
  | negSucc below =>
      rw [number] at least
      exact (by omega : below < 2 ^ 64)

theorem uint64_written (value : UInt64) : uint64Format.write value = integer value.toNat :=
  integer_written value.toNat

theorem uint64_admitted (value : UInt64) : uint64Format.admits value :=
  (integer_admitted value.toNat).mpr value.toNat_lt

theorem xyz_written (xyz : MsgXyz) : xyzFormat.write xyz = encodeRepeatedMsgXyz xyz := by
  have elements : xyzFormat.write xyz = arrayHead.write 3 ++ (int32Format.write xyz.msgXyzX ++
      (int32Format.write xyz.msgXyzY ++ int32Format.write xyz.msgXyzZ)) := rfl
  rw [elements, int32_written, int32_written, int32_written, encodeRepeatedMsgXyz, array,
    array_head_written]
  simp

theorem xyz_admitted {xyz : MsgXyz} : xyzFormat.admits xyz ↔ Narrow xyz := by
  apply and_iff_right
  exact ⟨(array_head_admitted 3).mpr (by decide), int32_admitted _, int32_admitted _,
    int32_admitted _⟩

theorem tphg_written (input : Msg) :
    tphgFormat.write (input.msgTphgTimestamp, input.msgTphgTemp, input.msgTphgPress,
      input.msgTphgHum) = encodeTphg input := by
  have elements : tphgFormat.write (input.msgTphgTimestamp, input.msgTphgTemp, input.msgTphgPress,
      input.msgTphgHum) = arrayHead.write 4 ++ (uint64Format.write input.msgTphgTimestamp ++
        (int32Format.write input.msgTphgTemp ++ (int32Format.write input.msgTphgPress ++
          int32Format.write input.msgTphgHum))) := rfl
  rw [elements, uint64_written, int32_written, int32_written, int32_written, encodeTphg, array,
    array_head_written]
  simp

theorem tphg_admitted (values : UInt64 × Int32 × Int32 × Int32) : tphgFormat.admits values :=
  ⟨(array_head_admitted 4).mpr (by decide), uint64_admitted _, int32_admitted _, int32_admitted _,
    int32_admitted _⟩

theorem message_written (input : Msg) : messageFormat.write (reportOf input) = encodeMsg input := by
  have parts : messageFormat.write (reportOf input) =
      arrayHead.write (input.triples.length + 1) ++ (tphgFormat.write (input.msgTphgTimestamp,
        input.msgTphgTemp, input.msgTphgPress, input.msgTphgHum) ++
          input.triples.flatMap xyzFormat.write) := rfl
  have triples : input.triples.flatMap xyzFormat.write =
      (input.triples.map encodeRepeatedMsgXyz).flatten := by
    rw [List.flatMap_def, funext xyz_written]
  rw [parts, tphg_written, triples, array_head_written, encodeMsg, array, List.length_cons,
    List.length_map, List.flatten_cons]

theorem message_admitted {report : Report} :
    messageFormat.admits report ↔
      1 ≤ report.xyz.length ∧ report.xyz.length ≤ 256 ∧ ∀ xyz ∈ report.xyz, Narrow xyz := by
  constructor
  · rintro ⟨-, ⟨-, -, inside⟩, present, counted⟩
    exact ⟨present, counted, fun xyz member => xyz_admitted.mp (inside xyz member)⟩
  · rintro ⟨present, counted, narrow⟩
    have small : report.xyz.length + 1 < 2 ^ 64 := by omega
    refine ⟨(array_head_admitted _).mpr small, ⟨tphg_admitted _, rfl, ?_⟩, present, counted⟩
    exact fun xyz member => xyz_admitted.mpr (narrow xyz member)

end Writing

section Reading

variable {payloadLen : Nat} {input : Msg}

theorem triples_counted (stored : input.msgXyz.length = 256) (counted : input.msgXyzCount ≤ 256) :
    input.triples.length = input.msgXyzCount := by
  rw [Msg.triples, List.length_take, stored]
  omega

theorem encodable_admitted (long : input.triples.length = input.msgXyzCount)
    (encodable : Encodable payloadLen input) : messageFormat.admits (reportOf input) := by
  apply message_admitted.mpr
  exact ⟨long ▸ encodable.present, long ▸ encodable.counted, encodable.ranged⟩

/-- The message with the contents of a report. -/
def messageOf (report : Report) : Msg :=
  { msgTphgTimestamp := report.timestamp, msgTphgTemp := report.temp, msgTphgPress := report.press,
    msgTphgHum := report.hum, msgXyzCount := report.xyz.length, size := 0
    msgXyz := report.xyz ++ List.replicate (256 - report.xyz.length) ⟨0, 0, 0⟩ }

theorem message_of_report (report : Report) : reportOf (messageOf report) = report := by
  have front : (messageOf report).triples = report.xyz := List.take_left
  rw [reportOf, front]
  rfl

theorem read_exactly (bytes : List UInt8) (report : Report) :
    messageFormat.readAll bytes = some report ↔
      ∃ payloadLen input, input.msgXyz.length = 256 ∧ Encodable payloadLen input ∧
        reportOf input = report ∧ encodeMsg input = bytes := by
  rw [read_all_iff]
  constructor
  · rintro ⟨admitted, rfl⟩
    obtain ⟨present, counted, narrow⟩ := message_admitted.mp admitted
    have contents := message_of_report report
    have triples : (messageOf report).triples = report.xyz := congrArg Report.xyz contents
    refine ⟨(encodeMsg (messageOf report)).length + 2, messageOf report, ?_, ?_, contents, ?_⟩
    · simp only [messageOf, List.length_append, List.length_replicate]
      omega
    · exact ⟨present, counted, triples ▸ narrow, Nat.le_refl _⟩
    · rw [← message_written, contents]
  · rintro ⟨payloadLen, input, stored, encodable, rfl, rfl⟩
    have long := triples_counted stored encodable.counted
    exact ⟨encodable_admitted long encodable, (message_written input).symm⟩

/-- The reader accepts just the bytes that `encode_msg` can write for a message, whole
and in the shortest form, and finds its contents in them. It finds them in front of other
bytes, too; together with these it accepts nothing, and nothing of bytes that break off. -/
theorem reads_exactly_written (bytes : List UInt8) (report : Report) :
    (messageFormat.readAll bytes = some report ↔
      ∃ payloadLen input, input.msgXyz.length = 256 ∧ Encodable payloadLen input ∧
        reportOf input = report ∧ encodeMsg input = bytes) ∧
    (messageFormat.readAll bytes = some report →
      (∀ rest, messageFormat.read (bytes ++ rest) = some (report, rest)) ∧
      (∀ rest, rest ≠ [] → messageFormat.readAll (bytes ++ rest) = none) ∧
      ∀ front back, bytes = front ++ back → back ≠ [] → messageFormat.read front = none) := by
  refine ⟨read_exactly bytes report, fun accepted => ?_⟩
  obtain ⟨admitted, rfl⟩ := (read_all_iff messageFormat).mp accepted
  have ahead (rest : List UInt8) := messageFormat.read_write report rest admitted
  refine ⟨ahead, fun rest more => ?_, fun front back split missing =>
    truncated_refused messageFormat admitted split missing⟩
  cases rest with
  | nil => exact absurd rfl more
  | cons byte rest => rw [Format.readAll, ahead]

/-- A message starts with the head of an array, and so does all that is read as one. -/
theorem read_major {initial : UInt8} {tail rest : List UInt8} {report : Report}
    (found : messageFormat.read (initial :: tail) = some (report, rest)) : initial.toNat / 32 = 4 := by
  obtain ⟨front, head, -⟩ := Option.bind_eq_some_iff.mp found
  exact read_array_head head

end Reading

end ThingyAccel.MessageReading
