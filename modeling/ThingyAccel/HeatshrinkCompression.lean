import ThingyAccel.Executions
import ThingyAccel.HeatshrinkPauses

/-!
`heatshrink_compression` of src/sensor.c: the wrapper that sinks a message into
the encoder and polls the compressed bytes into a payload, with as many bytes of
output allowed as the input has.
-/
namespace ThingyAccel.HeatshrinkCompression

open Memory Bits Lzss HeatshrinkEncoder HeatshrinkMatch HeatshrinkOutput HeatshrinkPoll
  HeatshrinkRounds HeatshrinkPauses Executions

inductive EncoderCall where
  | sink (res : SinkRes) (offered : Nat) (taken : Option Nat)
  | poll (res : PollRes) (offset room : Nat) (written : Option Nat)
  deriving DecidableEq, Repr

/-- The local variables and the memory at `output_data`; `calls` is a record for
statements and decides nothing. -/
structure Compression where
  hse : Encoder
  sunk : Nat
  polled : Nat
  count : Nat
  output : List UInt8
  calls : List EncoderCall
  deriving DecidableEq, Repr

def sizeDifference (left right : Nat) : Nat := (left + 2 ^ 32 - right) % 2 ^ 32

/-- `do … while (pres == HSER_POLL_MORE)`. A poll that leaves `count` untouched
makes the wrapper add the value of an earlier call once more. -/
def pollLoop (inputLen : Nat) : Nat → Compression → Checked Compression
  | 0, _ => .error .outOfFuel
  | fuel + 1, run => do
      let room := sizeDifference inputLen run.polled
      let (pres, hse, bytes) ← heatshrinkEncoderPoll run.hse room
      let count := (bytes.map List.length).getD run.count
      let output := storeAt run.output run.polled (bytes.getD [])
      let next := { run with
        hse := hse, count := count, output := output
        polled := (run.polled + count) % 2 ^ 16
        calls := run.calls ++ [.poll pres run.polled room (bytes.map List.length)] }
      if pres = .more then pollLoop inputLen fuel next else .ok next

def finishAtEnd (inputLen : Nat) (run : Compression) : Compression :=
  if run.sunk = inputLen then { run with hse := (heatshrinkEncoderFinish run.hse).2 } else run

def sinkRest (input : List UInt8) (run : Compression) : Checked Compression := do
  let offered := sizeDifference input.length run.sunk
  let (res, hse, taken) ← heatshrinkEncoderSink run.hse (input.drop run.sunk) offered
  let count := taken.getD run.count
  .ok { run with
    hse := hse, count := count, sunk := (run.sunk + count) % 2 ^ 16
    calls := run.calls ++ [.sink res offered taken] }

/-- `while (sunk < input_len)`; two polls are enough, since a poll that asks for
more room leaves none. -/
def sinkLoop (input : List UInt8) : Nat → Compression → Checked Compression
  | 0, _ => .error .outOfFuel
  | fuel + 1, run =>
      if run.sunk < input.length then do
        let run ← sinkRest input run
        let run ← pollLoop input.length 2 (finishAtEnd input.length run)
        if input.length ≤ run.polled then .ok run
        else sinkLoop input fuel (finishAtEnd input.length run)
      else .ok run

def compressionRun (encoderMemory indexMemory : Bool) (input output : List UInt8) :
    Checked (Option Compression) :=
  match heatshrinkEncoderAlloc 9 3 encoderMemory indexMemory with
  | none => .ok none
  | some hse => do
      let run ← sinkLoop input (input.length + 1)
        { hse := hse, sunk := 0, polled := 0, count := 0, output := output, calls := [] }
      .ok (some run)

def heatshrinkCompression (encoderMemory indexMemory : Bool) (input output : List UInt8) :
    Checked (Nat × List UInt8) := do
  let run ← compressionRun encoderMemory indexMemory input output
  match run with
  | none => .ok (0, output)
  | some run => .ok (run.polled, run.output)

/-- A byte is not encoded yet or the encoder is not through with its stream. -/
def StoppedShort (input : List UInt8) (run : Compression) : Prop :=
  run.sunk < input.length ∨ run.hse.matchScanIndex < run.hse.inputSize ∨ run.hse.state ≠ .done

theorem size_difference {left right : Nat} (ordered : right ≤ left) (small : left < 2 ^ 32) :
    sizeDifference left right = left - right := by
  have total : left + 2 ^ 32 - right = (left - right) + 2 ^ 32 := by omega
  rw [sizeDifference, total, Nat.add_mod_right, Nat.mod_eq_of_lt (by omega)]

def freshEncoder : Encoder :=
  { inputSize := 0, matchScanIndex := 0, matchLength := 0, matchPos := 0, outgoingBits := 0,
    outgoingBitsCount := 0, flags := 0, state := .notFull, currentByte := 0x00, bitIndex := 0x80,
    windowSz2 := 9, lookaheadSz2 := 3, searchIndex := [], buffer := List.replicate 1024 0 }

theorem alloc_exact (encoderMemory indexMemory : Bool) :
    heatshrinkEncoderAlloc 9 3 encoderMemory indexMemory =
      if encoderMemory && indexMemory then some freshEncoder else none := by
  cases encoderMemory <;> cases indexMemory <;> rfl

theorem fresh_inv {input : List UInt8} (positive : 0 < input.length) :
    Inv input 0 input.length [] freshEncoder := by
  refine ⟨0, [], [], ⟨rfl, rfl, ?_, Nat.zero_le _, rfl, Nat.zero_le _, ?_, ?_⟩,
    ⟨by decide, rfl, rfl⟩, rfl, rfl, ⟨rfl, Or.inl ?_⟩, by decide, by decide, rfl⟩
  · exact List.length_replicate
  · intro index bound
    have empty : freshEncoder.inputSize = 0 := rfl
    rw [empty, Nat.add_zero] at bound
    have zeros : freshEncoder.buffer = List.replicate 1024 0 := rfl
    have left : (List.replicate 1024 (0 : UInt8))[index]? = some 0 :=
      List.getElem?_replicate_of_lt (by omega)
    have right : (List.replicate 512 (0 : UInt8))[index]? = some 0 :=
      List.getElem?_replicate_of_lt bound
    have front : (history input)[0 + index]? = (List.replicate 512 (0 : UInt8))[index]? := by
      rw [Nat.zero_add]
      exact List.getElem?_append_left (by rw [List.length_replicate]; exact bound)
    exact (congrArg (fun buffer => buffer[index]?) zeros).trans (left.trans (right.symm.trans front.symm))
  · have running : isFinishing freshEncoder = false := by decide
    rw [running]
    constructor
    · intro impossible
      exact absurd impossible (by decide)
    · intro empty
      omega
  · simpa using positive

section Sink

variable {input out : List UInt8} {sunk : Nat} {hse : Encoder}

theorem stretch_sunk {buffer : List UInt8} {base size taken : Nat}
    (window : Stretch (history input) buffer base (512 + size)) (total : base + size = sunk)
    (inside : sunk + taken ≤ input.length)
    (fits : 512 + size + ((input.drop sunk).take taken).length ≤ buffer.length) :
    Stretch (history input)
      (buffer.take (512 + size) ++ (input.drop sunk).take taken ++
        buffer.drop (512 + size + ((input.drop sunk).take taken).length))
      base (512 + (size + taken)) := by
  have copied : ((input.drop sunk).take taken).length = taken := by
    rw [List.length_take, List.length_drop]; omega
  intro index bound
  rw [written_get fits, copied]
  by_cases old : index < 512 + size
  · rw [if_pos old]
    exact window index old
  · have source : base + index - 512 = sunk + (index - (512 + size)) := by omega
    rw [if_neg old, if_pos (by omega), List.getElem?_take_of_lt (by omega), List.getElem?_drop,
      history, List.getElem?_append_right (by rw [List.length_replicate]; omega),
      List.length_replicate, source]

theorem sink_exact (state : hse.state = .notFull) (inv : Inv input sunk input.length out hse) :
    ∃ taken next,
      heatshrinkEncoderSink hse (input.drop sunk) (input.length - sunk) =
        .ok (.ok, next, some taken) ∧
      1 ≤ taken ∧ sunk + taken ≤ input.length ∧
      let ready := if sunk + taken = input.length then (heatshrinkEncoderFinish next).2 else next
      ready.state = .filled ∧ Inv input (sunk + taken) input.length out ready := by
  obtain ⟨base, spoken, pending, geometry, packed, split, bits, shape⟩ := inv
  simp only [Shape, state] at shape
  obtain ⟨between, running, free, start⟩ := shape
  have offset : getInputOffset hse = 512 := by
    simp [getInputOffset, getInputBufferSize, geometry.windowBits]
  have window : getInputBufferSize hse = 512 := by
    simp [getInputBufferSize, geometry.windowBits]
  have more : sunk ≠ input.length := fun finished => by
    rw [geometry.finishing.mpr finished] at running
    exact absurd running (by decide)
  have available := geometry.available
  have capacity := geometry.capacity
  have total := geometry.total
  obtain ⟨taken, fewer⟩ : ∃ taken, (if 512 - hse.inputSize < input.length - sunk
      then 512 - hse.inputSize else input.length - sunk) = taken := ⟨_, rfl⟩
  have positive : 1 ≤ taken ∧ sunk + taken ≤ input.length ∧ hse.inputSize + taken ≤ 512 := by
    split at fewer <;> omega
  obtain ⟨some', inside, room⟩ := positive
  have copied : ((input.drop sunk).take taken).length = taken := by
    rw [List.length_take, List.length_drop]; omega
  have fits : 512 + hse.inputSize + ((input.drop sunk).take taken).length ≤ hse.buffer.length := by
    omega
  obtain ⟨buffer, stored⟩ : ∃ buffer, hse.buffer.take (512 + hse.inputSize) ++
      (input.drop sunk).take taken ++ hse.buffer.drop (512 + hse.inputSize +
        ((input.drop sunk).take taken).length) = buffer := ⟨_, rfl⟩
  have bufferLength : buffer.length = 1024 := by rw [← stored, written_length fits, capacity]
  have stretched : Stretch (history input) buffer base (512 + (hse.inputSize + taken)) := by
    rw [← stored]
    exact stretch_sunk geometry.window total inside fits
  refine ⟨taken, { hse with
    buffer := buffer, inputSize := hse.inputSize + taken,
    state := if taken = 512 - hse.inputSize then .filled else hse.state }, ?_, some', inside, ?_⟩
  · simp only [heatshrinkEncoderSink, running, state, offset, window, fewer]
    simp only [ne_eq, not_true_eq_false, Bool.false_eq_true, ↓reduceIte]
    rw [if_neg (by rw [List.length_drop]; omega), write_at_inside fits, checked_bind, stored]
  · have closed := between.closed
    -- The flags are the only field in which the two ways to be ready differ.
    have ready (flags : UInt8)
        (marked : (flags &&& flagIsFinishing ≠ 0) ↔ sunk + taken = input.length)
        (active : flags &&& flagIsFinishing ≠ 0 ∨ hse.inputSize + taken = 512) :
        Inv input (sunk + taken) input.length out { hse with
          buffer := buffer, inputSize := hse.inputSize + taken, flags := flags,
          state := .filled } := by
      refine ⟨base, spoken, pending, ⟨geometry.windowBits, geometry.lookaheadBits, bufferLength,
        room, by simp only; omega, inside, stretched, by simpa [isFinishing] using marked⟩,
        ⟨packed.short, packed.mask, packed.byte⟩, split, ?_, ⟨between.plain, closed⟩,
        by simpa [Active, isFinishing] using active, start⟩
      simpa [owed, state] using bits
    by_cases finished : sunk + taken = input.length
    · have marked := of_decide_eq_true (finish_marks hse)
      simp only [heatshrinkEncoderFinish] at marked
      have inv := ready (hse.flags ||| flagIsFinishing) (iff_of_true marked finished) (Or.inl marked)
      simp only [finished, ↓reduceIte, heatshrinkEncoderFinish]
      rw [finished] at inv
      have filled : (if (if taken = 512 - hse.inputSize then HseState.filled else hse.state) =
          .notFull then HseState.filled
          else if taken = 512 - hse.inputSize then .filled else hse.state) = .filled := by
        rw [state]
        split <;> simp_all
      rw [filled]
      exact ⟨rfl, inv⟩
    · have full : taken = 512 - hse.inputSize := by
        split at fewer <;> omega
      have clear : ¬ (hse.flags &&& flagIsFinishing ≠ 0) := by
        simpa [isFinishing] using running
      have inv := ready hse.flags (iff_of_false clear finished) (Or.inr (by omega))
      rw [if_neg finished, if_pos full]
      exact ⟨rfl, inv⟩

end Sink

/-- The greedy parse of the input fits its allowance of one byte for each byte of
input; when it fills the allowance to the last bit, its last token is a literal. -/
def Fits (input : List UInt8) : Prop :=
  (stream 9 3 (tokensFrom input 0)).length < 8 * input.length ∨
    (stream 9 3 (tokensFrom input 0)).length = 8 * input.length ∧ EndsLiteral (tokensFrom input 0)

theorem fits_of_finished {input out : List UInt8} (short : out.length ≤ input.length)
    (finished : Finished input input.length out) : Fits input := by
  obtain ⟨padding, few, spelled⟩ := finished.spelled
  have total := congrArg List.length spelled
  rw [of_bytes_length, List.length_append, List.length_replicate] at total
  rcases finished.closed with below | literal
  · exact Or.inl below
  · by_cases exact' : (stream 9 3 (tokensFrom input 0)).length = 8 * input.length
    · exact Or.inr ⟨exact', literal⟩
    · exact Or.inl (by omega)

section Short

variable {input out : List UInt8} {sunk : Nat} {hse : Encoder}

theorem not_fits (unfit : 8 * input.length < (stream 9 3 (tokensFrom input 0)).length ∨
    8 * input.length ≤ (stream 9 3 (tokensFrom input 0)).length ∧ EndsBackref (tokensFrom input 0)) :
    ¬ Fits input := by
  rintro (below | ⟨equal, literal⟩)
  · rcases unfit with more | ⟨enough, backref⟩ <;> omega
  · rcases unfit with more | ⟨enough, backref⟩
    · omega
    · exact ends_exclusive backref literal

theorem represented_length {base : Nat} {spoken : List Token} {pending : List Bool}
    (stands : Represents input sunk input.length out hse base spoken pending) :
    (stream 9 3 (tokensFrom input 0)).length = 8 * out.length + pending.length + (owed hse).length +
      (stream 9 3 (tokensFrom input (reached base hse))).length := by
  rw [stands.split, stream_append, List.length_append, ← stands.bits]
  simp only [List.length_append, of_bytes_length]

theorem full_not_fits (yields : Yields hse.state) (inv : Inv input sunk input.length out hse)
    (full : out.length = input.length) : ¬ Fits input := by
  obtain ⟨base, spoken, pending, stands⟩ := inv
  have total := represented_length stands
  have shape := stands.shape
  apply not_fits
  cases state : hse.state with
  | yieldTagBit =>
      have more : 0 < (owed hse).length := by
        simp only [owed, state]
        split <;> exact token_bits_pos 9 3 _
      exact Or.inl (by omega)
  | yieldLiteral =>
      have more : (owed hse).length = 8 := by simp [owed, state]
      exact Or.inl (by omega)
  | yieldBrIndex =>
      have more : 3 ≤ (owed hse).length := by simp [owed, state]
      exact Or.inl (by omega)
  | yieldBrLength =>
      simp only [Shape, state] at shape
      obtain ⟨-, -, ⟨front, distance, length, last⟩, -⟩ := shape
      by_cases ended : tokensFrom input (reached base hse) = []
      · have whole := stands.split
        rw [ended, List.append_nil] at whole
        exact Or.inr ⟨by omega, front, distance, length, by rw [whole, last]⟩
      · have more := stream_pos 9 3 ended
        exact Or.inl (by omega)
  | notFull | filled | search | saveBacklog | flushBits | done =>
      rw [state] at yields
      exact yields.elim

theorem unflushed_not_fits (inv : Inv input sunk input.length out hse)
    (full : out.length = input.length) (waiting : hse.bitIndex ≠ 0x80) : ¬ Fits input := by
  obtain ⟨base, spoken, pending, stands⟩ := inv
  have total := represented_length stands
  have some' : 0 < pending.length := by
    apply List.length_pos_iff.mpr
    exact fun empty => waiting ((pending_start stands.packed).mpr empty)
  exact not_fits (Or.inl (by omega))

theorem waiting_not_fits (state : hse.state = .notFull) (inv : Inv input sunk input.length out hse)
    (full : input.length ≤ out.length) : ¬ Fits input := by
  obtain ⟨base, spoken, pending, stands⟩ := inv
  have total := represented_length stands
  have shape := stands.shape
  have geometry := stands.geometry
  simp only [Shape, state] at shape
  obtain ⟨between, running, -, start⟩ := shape
  have unfinished : sunk ≠ input.length := fun finished => by
    rw [geometry.finishing.mpr finished] at running
    exact absurd running (by decide)
  have remaining : reached base hse < input.length := by
    have here := geometry.total
    have available := geometry.available
    rw [reached, start, between.plain]
    omega
  have more := stream_pos 9 3 (tokens_ne_nil remaining)
  exact not_fits (Or.inl (by omega))

end Short

/-- How the two loops end: with the whole stream in the output, or with the
allowance used up and the stream incomplete. -/
inductive Stops (input : List UInt8) (run : Compression) : Prop where
  | complete (state : run.hse.state = .done) (searched : run.hse.matchScanIndex = run.hse.inputSize)
      (sunk : run.sunk = input.length) (inside : run.polled ≤ input.length)
      (front : (run.output.take run.polled).length = run.polled)
      (finished : Finished input input.length (run.output.take run.polled)) : Stops input run
  | short (state : run.hse.state ≠ .done) (full : input.length ≤ run.polled)
      (unfit : ¬ Fits input) : Stops input run

def Kept (input : List UInt8) (capacity : Nat) (run : Compression) : Prop :=
  input.length ≤ capacity → run.output.length = capacity

/-- The wrapper between two rounds: the bytes polled so far are in place. -/
structure Polled (input : List UInt8) (capacity : Nat) (run : Compression) (out : List UInt8) :
    Prop where
  inv : Inv input run.sunk input.length out run.hse
  polled : run.polled = out.length
  front : run.output.take out.length = out
  kept : Kept input capacity run

def bytesTaken : EncoderCall → Nat
  | .sink _ _ bytes => bytes.getD 0
  | .poll _ _ _ _ => 0

def bytesWritten : EncoderCall → Nat
  | .sink _ _ _ => 0
  | .poll _ _ _ bytes => bytes.getD 0

def sumOver (bytes : EncoderCall → Nat) (calls : List EncoderCall) : Nat :=
  calls.foldl (fun sum call => sum + bytes call) 0

@[simp] theorem sum_over_snoc (bytes : EncoderCall → Nat) (calls : List EncoderCall)
    (call : EncoderCall) : sumOver bytes (calls ++ [call]) = sumOver bytes calls + bytes call := by
  simp only [sumOver, List.foldl_append, List.foldl_cons, List.foldl_nil]

/-- A sink succeeds and takes some of what is left; a poll goes on where the output of
the polls before it ends, and stays below the input length. -/
def CallInside (inputLen : Nat) (earlier : List EncoderCall) : EncoderCall → Prop
  | .sink res offered bytes => res = .ok ∧ offered = inputLen - sumOver bytesTaken earlier ∧
      ∃ count, bytes = some count ∧ 1 ≤ count ∧ count ≤ offered
  | .poll _ offset _ bytes => ∀ count, bytes = some count →
      offset = sumOver bytesWritten earlier ∧ offset + count ≤ inputLen

structure Recorded (input output : List UInt8) (run : Compression) (out : List UInt8) : Prop where
  calls : AtEvery (CallInside input.length) run.calls
  taken : sumOver bytesTaken run.calls = run.sunk
  written : sumOver bytesWritten run.calls = out.length
  behind : ∀ index, input.length ≤ index → run.output[index]? = output[index]?

structure Tracked (input output : List UInt8) (run : Compression) (out : List UInt8) : Prop where
  polled : Polled input output.length run out
  paced : PacedInv input run.sunk input.length out run.hse
  recorded : Recorded input output run out

/-- How the loops end; a run that has not settled adds the count of its last poll
once more. -/
structure Ended (input output : List UInt8) (run : Compression) : Prop where
  stops : Stops input run
  kept : Kept input output.length run
  recorded : ∃ out, out.length ≤ input.length ∧ Recorded input output run out
  returns : Settles input ∧ run.polled = sumOver bytesWritten run.calls ∨
    ¬ Settles input ∧ sumOver bytesWritten run.calls < run.polled

structure PollRound (input output : List UInt8) (run : Compression) (out : List UInt8)
    (next : Compression) (out' : List UInt8) : Prop where
  sunk : next.sunk = run.sunk
  polled : next.polled = out'.length
  count : out'.length = out.length + next.count
  inside : out'.length ≤ input.length
  front : next.output.take out'.length = out'
  kept : Kept input output.length next
  paced : next.hse.state = .done ∨ PacedInv input run.sunk input.length out' next.hse
  recorded : Recorded input output next out'

section Loops

variable {input output out : List UInt8} {run : Compression}

theorem poll_round (fuel : Nat) (small : input.length ≤ 1200)
    (tracked : Tracked input output run out) (room : out.length < input.length) :
    ∃ res next out', Outcome input run.sunk input.length out' res next.hse ∧
      PollRound input output run out next out' ∧
      pollLoop input.length (fuel + 1) run =
        if res = .more then pollLoop input.length fuel next else .ok next := by
  have polled := tracked.polled
  have recorded := tracked.recorded
  have offered : sizeDifference input.length run.polled = input.length - out.length := by
    rw [polled.polled, size_difference (Nat.le_of_lt room) (by omega)]
  have positive : input.length - out.length ≠ 0 := by omega
  have total' : out.length + (input.length - out.length) = input.length := by omega
  obtain ⟨res, hse, bytes, computed, short, outcome⟩ := poll_exact polled.inv positive total'
  have paced := paced_inv_poll tracked.paced positive total' computed
  have total : (run.polled + bytes.length) % 2 ^ 16 = (out ++ bytes).length := by
    rw [polled.polled, List.length_append, Nat.mod_eq_of_lt (by omega)]
  have inside : (out ++ bytes).length ≤ input.length := by
    rw [List.length_append]
    omega
  refine ⟨res, { run with
    hse := hse, count := bytes.length, output := storeAt run.output run.polled bytes
    polled := (out ++ bytes).length
    calls := run.calls ++ [.poll res run.polled (input.length - out.length) (some bytes.length)] },
    out ++ bytes, outcome, ?_, ?_⟩
  · constructor
    case sunk => rfl
    case polled => rfl
    case count => exact List.length_append
    case inside => exact inside
    case front =>
      simp only [polled.polled, List.length_append]
      exact store_at_take polled.front
    case kept =>
      intro enough
      have size := polled.kept enough
      rw [store_at_length (by rw [polled.polled, size]; omega), size]
    case paced => exact paced
    case recorded =>
      constructor
      case calls =>
        apply at_every_snoc recorded.calls
        intro count same
        cases same
        rw [recorded.written, polled.polled, ← List.length_append]
        exact ⟨rfl, inside⟩
      case taken =>
        rw [sum_over_snoc, recorded.taken]
        rfl
      case written =>
        rw [sum_over_snoc, recorded.written, List.length_append]
        rfl
      case behind =>
        intro index past
        rw [List.length_append] at inside
        rw [← recorded.behind index past]
        exact store_at_behind (by rw [polled.polled]; omega)
  · simp only [pollLoop, offered, computed, checked_bind, Option.map_some, Option.getD_some, total]

theorem poll_without_room (fuel : Nat) (small : input.length ≤ 1200)
    (full : run.polled = input.length) (count : run.count ≤ input.length)
    (kept : Kept input output.length run) (recorded : Recorded input output run out) :
    ∃ next, pollLoop input.length (fuel + 1) run = .ok next ∧ next.hse = run.hse ∧
      next.sunk = run.sunk ∧ next.polled = input.length + run.count ∧
      Kept input output.length next ∧ Recorded input output next out := by
  have offered : sizeDifference input.length input.length = 0 := by
    rw [size_difference (Nat.le_refl _) (by omega), Nat.sub_self]
  have stale : (input.length + run.count) % 2 ^ 16 = input.length + run.count :=
    Nat.mod_eq_of_lt (by omega)
  refine ⟨{ run with
    polled := input.length + run.count
    output := storeAt run.output input.length []
    calls := run.calls ++ [.poll .errorMisuse input.length 0 none] }, ?_, rfl, rfl, rfl, ?_, ?_⟩
  · simp only [pollLoop, offered, heatshrinkEncoderPoll, ↓reduceIte, checked_bind, full,
      Option.map_none, Option.getD_none, stale, reduceCtorEq]
  · intro enough
    have size := kept enough
    rw [store_at_length (by rw [size]; exact enough), size]
  · constructor
    case calls =>
      apply at_every_snoc recorded.calls
      intro count same
      cases same
    case taken =>
      rw [sum_over_snoc, recorded.taken]
      rfl
    case written =>
      rw [sum_over_snoc, recorded.written]
      rfl
    case behind =>
      intro index past
      rw [← recorded.behind index past]
      exact store_at_behind past

theorem polled_ends {next : Compression} {out' : List UInt8}
    (poll : PollRound input output run out next out') (stops : Stops input next)
    (settles : Settles input) : Ended input output next where
  stops := stops
  kept := poll.kept
  recorded := ⟨out', poll.inside, poll.recorded⟩
  returns := Or.inl ⟨settles, poll.polled.trans poll.recorded.written.symm⟩

theorem fits_settles (fits : Fits input) : Settles input := by
  rcases fits with below | ⟨equal, front, byte, ends⟩
  · exact Or.inl below
  · have total := congrArg (fun tokens => (stream 9 3 tokens).length) ends
    simp only [stream_snoc_length, literal_bits] at total
    refine Or.inr ⟨input.length, front, byte, Or.inl rfl, ?_, by omega, by omega⟩
    rw [ends, tokens_end (Nat.le_refl _)]

theorem poll_loop_ends (small : input.length ≤ 1200) (tracked : Tracked input output run out)
    (room : out.length < input.length) :
    ∃ next, pollLoop input.length 2 run = .ok next ∧ next.sunk = run.sunk ∧
      ((∃ out', next.hse.state = .notFull ∧ Tracked input output next out' ∧
        out'.length < input.length) ∨ Ended input output next) := by
  obtain ⟨res, next, out', outcome, poll, computed⟩ := poll_round 1 small tracked room
  have sunk := poll.sunk
  have total := poll.polled
  have inside := poll.inside
  rw [computed]
  cases outcome with
  | waiting state inv =>
      have paced := poll.paced.resolve_left (by rw [state]; decide)
      refine ⟨next, rfl, sunk, ?_⟩
      by_cases full : input.length ≤ out'.length
      · exact Or.inr (polled_ends poll (.short (by rw [state]; decide) (by omega)
          (waiting_not_fits state inv full)) (rested_settles paced (by omega) (Or.inl state)))
      · exact Or.inl ⟨out', state, ⟨⟨by rw [sunk]; exact inv, total, poll.front, poll.kept⟩,
          by rw [sunk]; exact paced, poll.recorded⟩, by omega⟩
  | finished state searched sunkAll finished =>
      have front : (next.output.take next.polled).length = next.polled := by
        rw [total, poll.front]
      have whole : Finished input input.length (next.output.take next.polled) := by
        rw [total, poll.front]
        exact finished
      exact ⟨next, rfl, sunk, Or.inr (polled_ends poll (.complete state searched
        (by rw [sunk, sunkAll]) (by omega) front whole)
        (fits_settles (fits_of_finished inside finished)))⟩
  | unflushed state inv full waiting =>
      have paced := poll.paced.resolve_left (by rw [state]; decide)
      exact ⟨next, rfl, sunk, Or.inr (polled_ends poll (.short (by rw [state]; decide) (by omega)
        (unflushed_not_fits inv full waiting)) (rested_settles paced full (Or.inr state)))⟩
  | full yields inv full =>
      have unfinished : next.hse.state ≠ .done := by
        intro done
        rw [done] at yields
        exact yields
      have count := poll.count
      obtain ⟨last, stopped, same, sunk', total', kept', recorded⟩ :=
        poll_without_room 0 small (by omega) (by omega) poll.kept poll.recorded
      refine ⟨last, stopped, by rw [sunk', sunk], Or.inr ⟨.short (by rw [same]; exact unfinished)
        (by omega) (full_not_fits yields inv full), kept', ⟨out', inside, recorded⟩, Or.inr ⟨?_, ?_⟩⟩⟩
      · exact stuck_unsettled yields (poll.paced.resolve_left unfinished) full
      · -- The last poll had room, so its count is not zero.
        have written := recorded.written
        omega

theorem waiting_unfinished (state : run.hse.state = .notFull)
    (inv : Inv input run.sunk input.length out run.hse) : run.sunk < input.length := by
  obtain ⟨base, spoken, pending, stands⟩ := inv
  have shape := stands.shape
  simp only [Shape, state] at shape
  obtain ⟨between, running, free, start⟩ := shape
  have unfinished : run.sunk ≠ input.length := fun finished => by
    rw [stands.geometry.finishing.mpr finished] at running
    exact absurd running (by decide)
  exact Nat.lt_of_le_of_ne stands.geometry.available unfinished

theorem sink_round (small : input.length ≤ 1200) (state : run.hse.state = .notFull)
    (tracked : Tracked input output run out) (room : out.length < input.length) :
    ∃ next, sinkRest input run = .ok next ∧ run.sunk < next.sunk ∧
      next.sunk ≤ input.length ∧ Tracked input output (finishAtEnd input.length next) out := by
  have polled := tracked.polled
  have recorded := tracked.recorded
  have unfinished := waiting_unfinished state polled.inv
  obtain ⟨taken, hse, computed, some', inside, ready⟩ := sink_exact state polled.inv
  obtain ⟨size, scan, length⟩ := sink_place computed
  have offered : sizeDifference input.length run.sunk = input.length - run.sunk :=
    size_difference (Nat.le_of_lt unfinished) (by omega)
  have total : (run.sunk + taken) % 2 ^ 16 = run.sunk + taken := Nat.mod_eq_of_lt (by omega)
  have calls : AtEvery (CallInside input.length)
      (run.calls ++ [.sink .ok (input.length - run.sunk) (some taken)]) := by
    apply at_every_snoc recorded.calls
    rw [CallInside, recorded.taken]
    exact ⟨rfl, rfl, taken, rfl, some', by omega⟩
  refine ⟨{ run with
    hse := hse, count := taken, sunk := run.sunk + taken
    calls := run.calls ++ [.sink .ok (input.length - run.sunk) (some taken)] }, ?_, ?_, inside, ?_⟩
  · simp only [sinkRest, offered, computed, checked_bind, Option.getD_some, total]
  · exact Nat.lt_add_of_pos_right some'
  · by_cases finished : run.sunk + taken = input.length
    · simp only [finishAtEnd, finished, ↓reduceIte] at ready ⊢
      have paced := paced_sink state tracked.paced room ready.1 size (by rw [← scan, ← length]; rfl)
        (by rw [finished]; exact ready.2)
      rw [finished] at paced
      refine ⟨⟨ready.2, polled.polled, polled.front, polled.kept⟩, paced, calls, ?_, ?_,
        recorded.behind⟩
      · rw [sum_over_snoc, recorded.taken]
        exact finished
      · rw [sum_over_snoc, recorded.written]
        rfl
    · simp only [finishAtEnd, finished, ↓reduceIte] at ready ⊢
      have paced := paced_sink state tracked.paced room ready.1 size (by rw [scan, length]) ready.2
      refine ⟨⟨ready.2, polled.polled, polled.front, polled.kept⟩, paced, calls, ?_, ?_,
        recorded.behind⟩
      · rw [sum_over_snoc, recorded.taken]
        rfl
      · rw [sum_over_snoc, recorded.written]
        rfl

theorem stops_finish (stops : Stops input run) : Stops input (finishAtEnd input.length run) := by
  by_cases finished : run.sunk = input.length
  · rw [finishAtEnd, if_pos finished]
    cases stops with
    | complete state searched sunk inside front whole =>
        refine .complete ?_ searched sunk inside front whole
        simp only [heatshrinkEncoderFinish, state]
        rfl
    | short state full unfit =>
        refine .short ?_ full unfit
        simp only [heatshrinkEncoderFinish]
        split
        · decide
        · exact state
  · rw [finishAtEnd, if_neg finished]
    exact stops

theorem ended_finish (ended : Ended input output run) :
    Ended input output (finishAtEnd input.length run) := by
  have stops := stops_finish ended.stops
  rw [finishAtEnd] at stops ⊢
  split at stops
  · rename_i finished
    obtain ⟨out, inside, recorded⟩ := ended.recorded
    rw [if_pos finished]
    exact ⟨stops, ended.kept, ⟨out, inside, recorded.calls, recorded.taken, recorded.written,
      recorded.behind⟩, ended.returns⟩
  · rename_i unfinished
    rw [if_neg unfinished]
    exact ended

theorem sink_loop_ends (small : input.length ≤ 1200) :
    ∀ (fuel : Nat) (run : Compression) (out : List UInt8), input.length - run.sunk < fuel →
      run.hse.state = .notFull → Tracked input output run out → out.length < input.length →
      ∃ last, sinkLoop input fuel run = .ok last ∧ Ended input output last := by
  intro fuel
  induction fuel with
  | zero =>
      intro run out enough
      exact absurd enough (Nat.not_lt_zero _)
  | succ fuel ih =>
      intro run out enough state tracked room
      have unfinished := waiting_unfinished state tracked.polled.inv
      obtain ⟨sunk, sinks, progress, inside, ready⟩ := sink_round small state tracked room
      obtain ⟨next, polls, same, ends⟩ := poll_loop_ends small ready room
      have kept : next.sunk = sunk.sunk := by
        rw [same, finishAtEnd]
        split <;> rfl
      rw [sinkLoop, if_pos unfinished, sinks, checked_bind, polls, checked_bind]
      rcases ends with ⟨out', waiting, tracked', room'⟩ | ended
      · have below := waiting_unfinished waiting tracked'.polled.inv
        have left : ¬ input.length ≤ next.polled := by rw [tracked'.polled.polled]; omega
        have untouched : finishAtEnd input.length next = next := by
          rw [finishAtEnd, if_neg (Nat.ne_of_lt below)]
        rw [if_neg left, untouched]
        exact ih next out' (by omega) waiting tracked' room'
      · by_cases broke : input.length ≤ next.polled
        · rw [if_pos broke]
          exact ⟨next, rfl, ended⟩
        · rw [if_neg broke]
          -- Only a complete stream leaves room, and then the loop condition fails.
          have all : next.sunk = input.length := by
            cases ended.stops with
            | complete _ _ sunkAll _ _ _ => exact sunkAll
            | short _ full _ => exact absurd full broke
          have through : ¬ (finishAtEnd input.length next).sunk < input.length := by
            rw [finishAtEnd, if_pos all, all]
            exact Nat.lt_irrefl _
          cases fuel with
          | zero => omega
          | succ fuel =>
              rw [sinkLoop, if_neg through]
              exact ⟨_, rfl, ended_finish ended⟩

end Loops

section Wrapper

variable {input : List UInt8}

theorem fresh_tracked (positive : 0 < input.length) (output : List UInt8) :
    Tracked input output
      { hse := freshEncoder, sunk := 0, polled := 0, count := 0, output := output, calls := [] } [] := by
  have inv := fresh_inv positive
  refine ⟨⟨inv, rfl, rfl, fun _ => rfl⟩, ?_, at_every_nil, rfl, rfl, fun _ _ => rfl⟩
  obtain ⟨base, spoken, pending, stands⟩ := inv
  have total := stands.geometry.total
  have empty : freshEncoder.inputSize = 0 := rfl
  have start : base = 0 := by omega
  subst start
  have here : reached 0 freshEncoder = 0 := rfl
  have split := stands.split
  rw [here] at split
  have none : spoken = [] := List.append_left_eq_self.mp split.symm
  refine ⟨0, spoken, pending, stands, ⟨0, rfl⟩, fun waiting => absurd rfl waiting, ?_⟩
  rw [none]
  exact ⟨⟨Nat.le_refl 0, fun _ => rfl⟩, Or.inl (by rw [Below]; simp [stream]; omega)⟩

theorem compression_ended (positive : 1 ≤ input.length) (small : input.length ≤ 1200)
    (output : List UInt8) :
    ∃ run, compressionRun true true input output = .ok (some run) ∧ Ended input output run := by
  obtain ⟨run, computed, ended⟩ := sink_loop_ends small (input.length + 1)
    { hse := freshEncoder, sunk := 0, polled := 0, count := 0, output := output, calls := [] } []
    (by simp) rfl (fresh_tracked positive output) positive
  refine ⟨run, ?_, ended⟩
  simp only [compressionRun, alloc_exact, Bool.and_self, ↓reduceIte, computed, checked_bind]

theorem compression_ends (positive : 1 ≤ input.length) (small : input.length ≤ 1200)
    (output : List UInt8) :
    ∃ run, compressionRun true true input output = .ok (some run) ∧ Stops input run ∧
      Kept input output.length run := by
  obtain ⟨run, computed, ended⟩ := compression_ended positive small output
  exact ⟨run, computed, ended.stops, ended.kept⟩

theorem tokens_fit (input : List UInt8) :
    ∀ token ∈ tokensFrom input 0, token.Fits 9 3 :=
  (@greedy_parses (history input) 512 8 1 9 3 (by decide) (by decide) 512 (Nat.le_refl _)
    (by simp)).2

theorem decode_finished {allowance : Nat} {out : List UInt8}
    (finished : Finished input allowance out) :
    (decode 9 3 (ofBytes out) (List.replicate 512 0)).drop 512 = input := by
  obtain ⟨padding, few, spelled⟩ := finished.spelled
  have zeros : (history input).take 512 = List.replicate 512 0 := by
    rw [history, List.take_left' List.length_replicate]
  have decoded := @decode_greedy (history input) 512 8 1 9 3 (by decide) (by decide) 512
    (Nat.le_refl _) (by simp) padding (by omega)
  rw [zeros] at decoded
  rw [spelled, tokensFrom]
  rw [decoded, history, List.drop_left' List.length_replicate]

/-- A result below the input length is a complete stream that decodes to the
input. -/
theorem compression_lossless (input output : List UInt8) (positive : 1 ≤ input.length)
    (small : input.length ≤ 1200) :
    ∃ returned outputData,
      heatshrinkCompression true true input output = .ok (returned, outputData) ∧
      (returned < input.length →
        (outputData.take returned).length = returned ∧
        (∃ tokens padding, (∀ token ∈ tokens, token.Fits 9 3) ∧ padding < 8 ∧
          ofBytes (outputData.take returned) = stream 9 3 tokens ++ List.replicate padding false) ∧
        (decode 9 3 (ofBytes (outputData.take returned)) (List.replicate 512 0)).drop 512 =
          input) := by
  obtain ⟨run, computed, stops, -⟩ := compression_ends positive small output
  refine ⟨run.polled, run.output, ?_, ?_⟩
  · rw [heatshrinkCompression, computed, checked_bind]
  · intro shrunk
    cases stops with
    | short state full unfit => exact absurd full (Nat.not_le_of_lt shrunk)
    | complete state searched sunk inside front finished =>
        obtain ⟨padding, few, spelled⟩ := finished.spelled
        exact ⟨front, ⟨tokensFrom input 0, padding, tokens_fit input, few, spelled⟩,
          decode_finished finished⟩

/-- Eight zeros are one reference into the zeros before the input. -/
theorem compression_lossless_zeros :
    1 ≤ (List.replicate 8 (0 : UInt8)).length ∧ (List.replicate 8 (0 : UInt8)).length ≤ 1200 ∧
      2 < (List.replicate 8 (0 : UInt8)).length ∧
      ∃ outputData,
        heatshrinkCompression true true (List.replicate 8 0) [] = .ok (2, outputData) ∧
        (outputData.take 2).length = 2 ∧
        (∃ tokens padding, (∀ token ∈ tokens, token.Fits 9 3) ∧ padding < 8 ∧
          ofBytes (outputData.take 2) = stream 9 3 tokens ++ List.replicate padding false) ∧
        (decode 9 3 (ofBytes (outputData.take 2)) (List.replicate 512 0)).drop 512 =
          List.replicate 8 0 := by
  have two : heatshrinkCompression true true (List.replicate 8 0) [] = .ok (2, [0, 56]) := by
    decide +kernel
  obtain ⟨returned, outputData, computed, lossless⟩ :=
    compression_lossless (List.replicate 8 0) [] (by decide) (by decide)
  rw [two] at computed
  cases computed
  exact ⟨by decide, by decide, by decide, _, two, lossless (by decide)⟩

theorem compression_kept (encoderMemory indexMemory : Bool) (output : List UInt8)
    (positive : 1 ≤ input.length) (small : input.length ≤ 1200)
    (room : input.length ≤ output.length) :
    ∃ returned outputData,
      heatshrinkCompression encoderMemory indexMemory input output = .ok (returned, outputData) ∧
        outputData.length = output.length := by
  cases allocated : encoderMemory && indexMemory with
  | true =>
      obtain ⟨rfl, rfl⟩ := (Bool.and_eq_true _ _).mp allocated
      obtain ⟨run, computed, -, kept⟩ := compression_ends positive small output
      refine ⟨run.polled, run.output, ?_, kept room⟩
      rw [heatshrinkCompression, computed, checked_bind]
  | false =>
      refine ⟨0, output, ?_, rfl⟩
      rw [heatshrinkCompression, compressionRun, alloc_exact, allocated]
      rfl

def ReportsShortage (encoderMemory indexMemory : Bool) (input output : List UInt8) : Prop :=
  ∃ result, heatshrinkCompression encoderMemory indexMemory input output = .ok result ∧
    ∀ run, compressionRun encoderMemory indexMemory input output = .ok (some run) →
      StoppedShort input run → result.1 = 0

theorem complete_of_fits {run : Compression} (fits : Fits input) (stops : Stops input run) :
    ¬ StoppedShort input run := by
  cases stops with
  | short state full unfit => exact absurd fits unfit
  | complete state searched sunk inside front finished =>
      rintro (unsunk | unsearched | unfinished)
      · exact absurd sunk (Nat.ne_of_lt unsunk)
      · exact absurd searched (Nat.ne_of_lt unsearched)
      · exact unfinished state

theorem short_of_not_fits {run : Compression} (unfit : ¬ Fits input) (stops : Stops input run) :
    StoppedShort input run ∧ input.length ≤ run.polled := by
  cases stops with
  | short state full _ => exact ⟨Or.inr (Or.inr state), full⟩
  | complete state searched sunk inside front finished =>
      exact absurd (fits_of_finished (by rw [front]; exact inside) finished) unfit

/-- A run that stops short returns at least the input length, so a shortage is
reported only where none occurs or the encoder is missing. -/
theorem shortage_reported_iff (encoderMemory indexMemory : Bool) (input output : List UInt8)
    (positive : 1 ≤ input.length) (small : input.length ≤ 1200) :
    ReportsShortage encoderMemory indexMemory input output ↔
      encoderMemory = false ∨ indexMemory = false ∨ Fits input := by
  by_cases allocated : encoderMemory = true ∧ indexMemory = true
  · obtain ⟨rfl, rfl⟩ := allocated
    obtain ⟨run, computed, stops, -⟩ := compression_ends positive small output
    have returns : heatshrinkCompression true true input output = .ok (run.polled, run.output) := by
      rw [heatshrinkCompression, computed, checked_bind]
    constructor
    · rintro ⟨result, same, reports⟩
      rw [returns] at same
      cases same
      by_contra missing
      have unfit : ¬ Fits input := fun fits => missing (Or.inr (Or.inr fits))
      obtain ⟨short, full⟩ := short_of_not_fits unfit stops
      have zero := reports run computed short
      simp only at zero
      omega
    · rintro (impossible | impossible | fits)
      · exact absurd impossible (by decide)
      · exact absurd impossible (by decide)
      · refine ⟨_, returns, ?_⟩
        intro other same short
        rw [computed] at same
        cases same
        exact absurd short (complete_of_fits fits stops)
  · have unavailable : heatshrinkEncoderAlloc 9 3 encoderMemory indexMemory = none := by
      rw [alloc_exact, if_neg (by simpa using allocated)]
    have empty : compressionRun encoderMemory indexMemory input output = .ok none := by
      rw [compressionRun, unavailable]
    constructor
    · intro _
      cases encoderMemory with
      | false => exact Or.inl rfl
      | true =>
          cases indexMemory with
          | false => exact Or.inr (Or.inl rfl)
          | true => exact absurd ⟨rfl, rfl⟩ allocated
    · intro _
      refine ⟨(0, output), ?_, fun _ _ _ => rfl⟩
      rw [heatshrinkCompression, empty, checked_bind]

theorem shortage_reported_iff_single :
    1 ≤ [(0x2a : UInt8)].length ∧ [(0x2a : UInt8)].length ≤ 1200 ∧
      (ReportsShortage true true [0x2a] [] ↔ true = false ∨ true = false ∨ Fits [0x2a]) :=
  ⟨by decide, by decide, shortage_reported_iff true true [0x2a] [] (by decide) (by decide)⟩

/-- A single byte needs nine bits, and the wrapper returns a length of one or more. -/
theorem single_byte_unreported :
    ∃ run result, compressionRun true true [0x2a] [] = .ok (some run) ∧
      StoppedShort [0x2a] run ∧ heatshrinkCompression true true [0x2a] [] = .ok result ∧
      result.1 ≠ 0 := by
  obtain ⟨run, computed, stops, -⟩ := @compression_ends [0x2a] (by decide) (by decide) []
  have unfit : ¬ Fits [0x2a] := by
    have nine : 9 ≤ (stream 9 3 (tokensFrom [0x2a] 0)).length := by
      cases tokens : tokensFrom [0x2a] 0 with
      | nil => exact absurd tokens (tokens_ne_nil (by decide))
      | cons token rest =>
          rw [stream_cons, List.length_append]
          cases token <;> simp [Token.bits]
          omega
    intro fits
    rcases fits with below | ⟨equal, _⟩
    · exact absurd below (Nat.not_lt.mpr (by simpa using Nat.le_of_lt nine))
    · rw [equal] at nine
      exact absurd nine (by decide)
  obtain ⟨short, full⟩ := short_of_not_fits unfit stops
  refine ⟨run, (run.polled, run.output), computed, short, ?_, ?_⟩
  · rw [heatshrinkCompression, computed, checked_bind]
  · intro zero
    simp only at zero
    rw [zero] at full
    exact absurd full (by decide)

end Wrapper

end ThingyAccel.HeatshrinkCompression
