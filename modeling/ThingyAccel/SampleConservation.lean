import ThingyAccel.Adxl362
import ThingyAccel.CompressionBounds
import ThingyAccel.MessageContents

/-!
From FIFO bursts to message slots: the driver and `empty_fifo_fn` together keep
every sample, in order, and put the messages into consecutive slots.
-/
namespace ThingyAccel.SampleConservation

open Memory Bits Lzss HeatshrinkPoll HeatshrinkCompression CompressionBounds Messages EmptyFifo
  Adxl362 NextFit MessageSize MessagePacking SampleRuns MessageContents

/-- A call with what the accelerometer's bus answers instead of its values. -/
structure DeviceCall where
  uptime : UInt64
  spi : Except SpiFailure Burst
  temp1 : SensorValue
  press : SensorValue
  humidity : SensorValue
  memory : Nat → Bool × Bool

def throughDriver (data : Samples) (call : DeviceCall) : Call × Samples :=
  let (err, data) := adxl362SampleFetch call.spi data
  ({ uptime := call.uptime, sampleFetch := err, fifoGet := adxl362FifoGet data,
     temp1 := call.temp1, press := call.press, humidity := call.humidity, memory := call.memory },
    data)

def driverData (data : Samples) (calls : List DeviceCall) : Samples :=
  calls.foldl (fun data call => (throughDriver data call).2) data

def deviceCalls : Samples → List DeviceCall → List Call
  | _, [] => []
  | data, call :: rest =>
      (throughDriver data call).1 :: deviceCalls (throughDriver data call).2 rest

/-- The triples of a burst: words 3k, 3k+1 and 3k+2, sign-extended. -/
def Burst.triples (burst : Burst) : List (Int × Int × Int) :=
  (List.range 170).map fun index =>
    (burst.value (3 * index), burst.value (3 * index + 1), burst.value (3 * index + 2))

def DeviceCall.triples (call : DeviceCall) : List (Int × Int × Int) :=
  match call.spi with
  | .error _ => []
  | .ok burst => Burst.triples burst

def xyzValues (xyz : MsgXyz) : Int × Int × Int :=
  (xyz.msgXyzX.toInt, xyz.msgXyzY.toInt, xyz.msgXyzZ.toInt)

section Driver

theorem convert_get (bytes : List UInt8) (index : Nat) :
    (convert bytes)[index]? = bytes[2 * index]?.bind fun low =>
      bytes[2 * index + 1]?.map fun high => accValue (fifoWord low high) := by
  induction bytes using convert.induct generalizing index with
  | case1 low high rest ih =>
      cases index with
      | zero => rfl
      | succ index => exact ih index
  | case2 bytes short =>
      rcases bytes with - | ⟨low, - | ⟨high, rest⟩⟩
      · simp [convert]
      · cases index <;> simp [convert]
      · exact (short low high rest rfl).elim

theorem triples_of_get (accel : List Int16) (index : Nat) :
    (triplesOf accel)[index]? = accel[3 * index]?.bind fun x =>
      accel[3 * index + 1]?.bind fun y => accel[3 * index + 2]?.map fun z => xyzOf x y z := by
  induction accel using triplesOf.induct generalizing index with
  | case1 x y z rest ih =>
      cases index with
      | zero => rfl
      | succ index => exact ih index
  | case2 accel short =>
      rcases accel with - | ⟨x, - | ⟨y, - | ⟨z, rest⟩⟩⟩
      · simp [triplesOf]
      · cases index <;> simp [triplesOf]
      · cases index <;> simp [triplesOf]
      · exact (short x y z rest rfl).elim

theorem convert_value (burst : Burst) {index : Nat} (inside : index < 510) :
    ∃ value, (convert burst.bytes)[index]? = some value ∧ value.toInt = burst.value index := by
  have count := burst.count
  have low : 2 * index < burst.bytes.length := by omega
  have high : 2 * index + 1 < burst.bytes.length := by omega
  have lowByte := List.getElem?_eq_getElem low
  have highByte := List.getElem?_eq_getElem high
  refine ⟨accValue (fifoWord burst.bytes[2 * index] burst.bytes[2 * index + 1]), ?_, ?_⟩
  · rw [convert_get, lowByte, highByte]
    rfl
  · rw [acc_value_exact _ _ (burst.extended index _ highByte), Burst.value,
      List.getD_eq_getElem?_getD, List.getD_eq_getElem?_getD, lowByte, highByte]
    rfl

theorem burst_triples (burst : Burst) :
    (triplesOf (convert burst.bytes)).map xyzValues = Burst.triples burst := by
  apply List.ext_getElem?
  intro index
  rw [List.getElem?_map, triples_of_get, Burst.triples, List.getElem?_map]
  by_cases inside : index < 170
  · obtain ⟨x, foundX, sameX⟩ := convert_value burst (by omega : 3 * index < 510)
    obtain ⟨y, foundY, sameY⟩ := convert_value burst (by omega : 3 * index + 1 < 510)
    obtain ⟨z, foundZ, sameZ⟩ := convert_value burst (by omega : 3 * index + 2 < 510)
    rw [foundX, foundY, foundZ, List.getElem?_range inside]
    simp [xyzValues, xyzOf, ← sameX, ← sameY, ← sameZ]
  · have long := convert_length burst.bytes
    rw [burst.count] at long
    have past : (List.range 170)[index]? = none := by
      apply List.getElem?_eq_none
      rw [List.length_range]
      exact Nat.le_of_not_lt inside
    rw [List.getElem?_eq_none (by omega), past]
    rfl

theorem driver_fails (data : Samples) (call : DeviceCall) {failure : SpiFailure}
    (fails : call.spi = .error failure) :
    ¬ Succeeds (throughDriver data call).1 ∧ (throughDriver data call).2 = data := by
  have negative := failure.negative
  simp only [throughDriver, adxl362SampleFetch, fails, Succeeds]
  exact ⟨fun succeeds => succeeds.1 negative, trivial⟩

theorem driver_succeeds (data : Samples) (call : DeviceCall) {burst : Burst}
    (works : call.spi = .ok burst) :
    Succeeds (throughDriver data call).1 ∧
      (triplesOf (throughDriver data call).1.fifoGet.2.values).map xyzValues = call.triples := by
  simp only [throughDriver, adxl362SampleFetch, works, Succeeds, DeviceCall.triples, adxl362FifoGet]
  exact ⟨by decide, burst_triples burst⟩

end Driver

section Stored

/-- The compressed bytes are in the slot, all of them. -/
structure WholeStream (bytes : List UInt8) (slot : MessagePayload) : Prop where
  inside : slot.size ≤ bytes.length
  front : (slot.payload.take slot.size).length = slot.size
  finished : Finished bytes bytes.length (slot.payload.take slot.size)
  decodes : (decode 9 3 (ofBytes (slot.payload.take slot.size)) (List.replicate 512 0)).drop 512 =
    bytes

/-- What a slot has of the bytes of a message: the output of the compression and the
length that it returned, or the bytes as they are when it returned zero. The output is
the whole stream if this fits or the compression has shrunk the bytes. -/
inductive HoldsBytes (bytes : List UInt8) (slot : MessagePayload) : Prop where
  | compressed {memory : Bool × Bool} {output : List UInt8}
      (returned : heatshrinkCompression memory.1 memory.2 bytes output =
        .ok (slot.size, slot.payload))
      (positive : 0 < slot.size)
      (whole : Fits bytes ∨ slot.size < bytes.length → WholeStream bytes slot) :
      HoldsBytes bytes slot
  | plain {memory : Bool × Bool} {output unchanged : List UInt8}
      (returned : heatshrinkCompression memory.1 memory.2 bytes output = .ok (0, unchanged))
      (size : slot.size = bytes.length) (front : slot.payload.take slot.size = bytes) :
      HoldsBytes bytes slot

variable {bytes out : List UInt8} {allowance : Nat}

theorem finished_positive (positive : 1 ≤ bytes.length) (finished : Finished bytes allowance out) :
    0 < out.length := by
  obtain ⟨padding, -, spelled⟩ := finished.spelled
  have more := stream_pos 9 3 (tokens_ne_nil (Nat.lt_of_lt_of_le Nat.one_pos positive))
  have total := congrArg List.length spelled
  rw [of_bytes_length, List.length_append] at total
  omega

theorem stops_whole {run : Compression} (stops : Stops bytes run)
    (room : Fits bytes ∨ run.polled < bytes.length) : WholeStream bytes ⟨run.polled, run.output⟩ := by
  cases stops with
  | complete _ _ _ inside front finished =>
      exact ⟨inside, front, finished, decode_finished finished⟩
  | short _ full unfit =>
      rcases room with fits | shrunk
      · exact absurd fits unfit
      · exact absurd full (Nat.not_le_of_lt shrunk)

theorem stops_positive {run : Compression} (positive : 1 ≤ bytes.length) (stops : Stops bytes run) :
    0 < run.polled := by
  cases stops with
  | complete _ _ _ _ front finished =>
      rw [← front]
      exact finished_positive positive finished
  | short _ full _ => exact Nat.lt_of_lt_of_le positive full

theorem stored_holds {memory : Bool × Bool} {old slot : MessagePayload}
    (positive : 1 ≤ bytes.length) (small : bytes.length ≤ 1200)
    (stores : storeMessage memory bytes old = .ok slot) : HoldsBytes bytes slot := by
  obtain ⟨⟨compressionSize, payload⟩, compresses, later⟩ := bind_ok.mp stores
  by_cases allocated : memory.1 = true ∧ memory.2 = true
  · obtain ⟨run, computed, stops, -⟩ := compression_ends positive small old.payload
    have returned := returned_polled computed
    rw [allocated.1, allocated.2, returned] at compresses
    cases compresses
    have some' := stops_positive positive stops
    simp only [some', ↓reduceIte] at later
    split at later
    · cases later
    · cases later
      exact @HoldsBytes.compressed bytes ⟨run.polled, run.output⟩ (true, true) _ returned some'
        (stops_whole stops)
  · have returned := (unallocated bytes old.payload allocated).2
    rw [returned] at compresses
    cases compresses
    simp only [Nat.lt_irrefl, ↓reduceIte] at later
    obtain ⟨written, writes, same⟩ := bind_ok.mp later
    cases same
    have short : bytes.length % 2 ^ 16 = bytes.length := Nat.mod_eq_of_lt (by omega)
    refine .plain returned short ?_
    rw [writeAt] at writes
    split at writes
    · cases writes
      rw [short, List.take_zero, List.nil_append, List.take_left]
    · cases writes

theorem holds_positive {slot : MessagePayload} (positive : 1 ≤ bytes.length)
    (holds : HoldsBytes bytes slot) : 0 < slot.size := by
  cases holds with
  | compressed _ some' _ => exact some'
  | plain _ size _ =>
      rw [size]
      exact positive

theorem holds_short {slot : MessagePayload} (fits : Fits bytes) (holds : HoldsBytes bytes slot) :
    slot.size ≤ bytes.length := by
  cases holds with
  | compressed _ _ whole => exact (whole (Or.inl fits)).inside
  | plain _ size _ => exact Nat.le_of_eq size

end Stored

section Slots

variable (cborEncodeMsg : Msg → Option (List UInt8))

def Carries (message : Msg) (slot : MessagePayload) : Prop :=
  ∃ bytes, cborEncodeMsg message = some bytes ∧ HoldsBytes bytes slot

/-- The k-th message went to slot k mod 60 of bank k / 60 mod 2, and is there until
120 messages later. -/
structure PlacedMessage (written : Nat) (state : Slots) (index : Nat) (flush : Flush) : Prop where
  placed : ∃ slot, flush.stored = some ⟨index / 60 % 2, index % 60, slot⟩ ∧
    Carries cborEncodeMsg flush.message slot ∧
    (written ≤ index + 120 → state.slotAt (index / 60 % 2) (index % 60) = some slot)

structure Placed (flushes : List Flush) (state : Slots) : Prop where
  bank : state.msgIndex = flushes.length / 60 % 2
  index : state.collectedAccel = flushes.length % 60
  messages : ∀ index flush, flushes[index]? = some flush →
    PlacedMessage cborEncodeMsg flushes.length state index flush

variable {cborEncodeMsg} {state next : Slots} {flush : Flush} {flushes : List Flush}

theorem slots_differ {earlier later : Nat} (before : earlier < later) (near : later < earlier + 120) :
    ¬ (earlier / 60 % 2 = later / 60 % 2 ∧ earlier % 60 = later % 60) := by
  rintro ⟨bank, index⟩
  omega

variable (cborEncodeMsg) in
def Encoded (flush : Flush) : Prop :=
  ∃ bytes, cborEncodeMsg flush.message = some bytes ∧ 1 ≤ bytes.length ∧ bytes.length ≤ 1200

theorem placed_step (layout : Layout state) (placed : Placed cborEncodeMsg flushes state)
    (step : FlushStep cborEncodeMsg state flush next) (encoded : Encoded cborEncodeMsg flush) :
    Placed cborEncodeMsg (flushes ++ [flush]) next ∧
      next.sendFlag = (state.sendFlag || decide ((flushes.length + 1) % 60 = 0)) := by
  obtain ⟨bytes', encodes', positive, small⟩ := encoded
  cases step with
  | failed fails lost =>
      rw [fails] at encodes'
      cases encodes'
  | @stored bytes memory old slot encodes previous stores payload kept =>
      have same : bytes = bytes' := Option.some.inj (encodes.symm.trans encodes')
      have holds := stored_holds positive small (same ▸ stores)
      have bank := placed.bank
      have index := placed.index
      have long : (flushes ++ [flush]).length = flushes.length + 1 := List.length_append
      have full : state.collectedAccel + 1 = payloadCount ↔ (flushes.length + 1) % 60 = 0 := by
        rw [index, payloadCount]
        omega
      refine ⟨⟨?_, ?_, ?_⟩, ?_⟩
      · rw [long]
        by_cases last : state.collectedAccel + 1 = payloadCount
        · have wraps := full.mp last
          simp only [Slots.store, last, ↓reduceIte]
          split <;> omega
        · have inside : ¬ (flushes.length + 1) % 60 = 0 := fun wraps => last (full.mpr wraps)
          simp only [Slots.store, last, ↓reduceIte]
          omega
      · rw [long]
        by_cases last : state.collectedAccel + 1 = payloadCount
        · simp only [Slots.store, last, ↓reduceIte]
          exact (full.mp last).symm
        · have inside : ¬ (flushes.length + 1) % 60 = 0 := fun wraps => last (full.mpr wraps)
          simp only [Slots.store, last, ↓reduceIte]
          omega
      · intro position other present
        rw [long]
        by_cases old' : position < flushes.length
        · rw [List.getElem?_append_left old'] at present
          obtain ⟨slot', written, carries, there⟩ := (placed.messages position other present).placed
          refine ⟨slot', written, carries, ?_⟩
          intro near
          have apart := slots_differ old' (by omega)
          rw [slot_at_store layout, bank, index, if_neg apart]
          exact there (by omega)
        · have last : position = flushes.length := by
            have inside := (List.getElem?_eq_some_iff.mp present).1
            omega
          rw [last, List.getElem?_append_right (Nat.le_refl _), Nat.sub_self] at present
          cases present
          refine ⟨slot, ?_, ⟨bytes', encodes', holds⟩, ?_⟩
          · rw [kept, bank, index, last]
          · intro _
            rw [slot_at_store layout, bank, index, last, if_pos ⟨rfl, rfl⟩]
      · simp only [Slots.store]
        by_cases last : state.collectedAccel + 1 = payloadCount
        · simp [last, full.mp last]
        · have inside : ¬ (flushes.length + 1) % 60 = 0 := fun wraps => last (full.mpr wraps)
          simp [last, inside]

/-- The messages of a call go to the slots behind those of the calls before, and
the flag is raised when one of them is the last of a bank. -/
theorem placed_run {last : Slots} {new : List Flush} (layout : Layout state)
    (placed : Placed cborEncodeMsg flushes state) (stores : FlushRun cborEncodeMsg state new last)
    (encoded : ∀ flush ∈ new, Encoded cborEncodeMsg flush) :
    Placed cborEncodeMsg (flushes ++ new) last ∧
      (last.sendFlag = true ↔ state.sendFlag = true ∨
        ∃ k, flushes.length ≤ k ∧ k < flushes.length + new.length ∧ (k + 1) % 60 = 0) := by
  induction stores generalizing flushes with
  | done state =>
      rw [List.append_nil]
      refine ⟨placed, ?_⟩
      constructor
      · exact Or.inl
      · rintro (raised | ⟨k, low, high, _⟩)
        · exact raised
        · exact absurd (Nat.lt_of_le_of_lt low high) (Nat.lt_irrefl _)
  | @step state next last flush rest first later ih =>
      obtain ⟨placed', raised⟩ := placed_step layout placed first (encoded flush List.mem_cons_self)
      obtain ⟨placed'', raised'⟩ := ih (flush_step_layout layout first) placed'
        fun other member => encoded other (List.mem_cons_of_mem _ member)
      rw [List.append_assoc] at placed''
      refine ⟨placed'', ?_⟩
      have long : (flushes ++ [flush]).length = flushes.length + 1 := List.length_append
      rw [raised', raised, long, List.length_cons, Bool.or_eq_true, decide_eq_true_eq, or_assoc]
      apply or_congr_right
      constructor
      · rintro (now | ⟨k, low, high, multiple⟩)
        · exact ⟨flushes.length, Nat.le_refl _, by omega, now⟩
        · exact ⟨k, by omega, by omega, multiple⟩
      · rintro ⟨k, low, high, multiple⟩
        by_cases here : k = flushes.length
        · rw [here] at multiple
          exact Or.inl multiple
        · exact Or.inr ⟨k, by omega, by omega, multiple⟩

end Slots

section Runs

variable {cborEncodeMsg : Msg → Option (List UInt8)} {call : Call} {run next : SampleRun}

def callTriples (call : Call) : List MsgXyz :=
  if Succeeds call then triplesOf call.fifoGet.2.values else []

theorem holds_encodable {input : Msg} {bin : MessageBin} (holds : Holds input bin)
    (range : Bounded bin.items ∧ 99 ≤ bin.items.length) : Encodable 1200 input := by
  obtain ⟨bounded, least⟩ := range
  have most := bounded_count bounded
  have light := bounded_bytes bounded
  have count := holds.count
  refine ⟨by omega, by omega, ?_, ?_⟩
  · rw [holds.triples]
    exact bounded.narrow
  · rw [canonical_length holds (by omega) most]
    omega

theorem holds_size {input : Msg} {bin : MessageBin} (holds : Holds input bin)
    (range : Bounded bin.items ∧ 99 ≤ bin.items.length) :
    1 ≤ (encodeMsg input).length ∧ (encodeMsg input).length ≤ 1100 := by
  have room := bounded_bytes range.1
  have tare := (metadata_bytes_range bin.label).1
  rw [closed_length holds range]
  simp only [MessageBin.bytes, Bin.weight] at room ⊢
  omega

theorem flushes_encode (canonical : CanonicalEncoder cborEncodeMsg)
    (complete : CompleteEncoder 1200 cborEncodeMsg) {flushes : List Flush} {bins : List MessageBin}
    (held : List.Forall₂ (fun flush closed => Holds flush.message closed) flushes bins)
    (closed : ∀ bin ∈ bins, Bounded bin.items ∧ 99 ≤ bin.items.length) :
    ∀ flush ∈ flushes, Encoded cborEncodeMsg flush := by
  intro flush member
  obtain ⟨bin, inside, holds⟩ := flush_bin held flush member
  obtain ⟨bytes, encodes⟩ := complete flush.message (holds_encodable holds (closed bin inside))
  refine ⟨bytes, encodes, ?_⟩
  rw [canonical flush.message bytes encodes]
  obtain ⟨positive, small⟩ := holds_size holds (closed bin inside)
  exact ⟨positive, Nat.le_trans small (by decide)⟩

theorem flush_triples {flushes : List Flush} {bins : List MessageBin}
    (held : List.Forall₂ (fun flush closed => Holds flush.message closed) flushes bins) :
    (flushes.map Flush.message).flatMap Msg.triples = bins.flatMap Bin.items := by
  induction held with
  | nil => rfl
  | cons head _ ih => rw [List.map_cons, List.flatMap_cons, List.flatMap_cons, head.triples, ih]

/-- The messages of a run with the triples that are still open are what the calls
brought, and the messages are in their slots. -/
structure Conserved (cborEncodeMsg : Msg → Option (List UInt8)) (calls : List Call)
    (run : SampleRun) : Prop where
  triples : (messages run.log).flatMap Msg.triples ++ run.sampler.encodeMsgBuf.triples =
    calls.flatMap callTriples
  placed : Placed cborEncodeMsg (run.log.map Entry.flush) (slots run.sampler)

theorem conserved_start : Conserved cborEncodeMsg [] startRun := by
  refine ⟨rfl, ⟨rfl, rfl, ?_⟩⟩
  intro index flush present
  cases present

theorem conserved_step {calls : List Call} (canonical : CanonicalEncoder cborEncodeMsg)
    (complete : CompleteEncoder 1200 cborEncodeMsg)
    (consistent : Consistent run.sampler) (conserved : Conserved cborEncodeMsg calls run)
    (serves : ServesCall cborEncodeMsg call run next) :
    Conserved cborEncodeMsg (calls ++ [call]) next := by
  have triples := conserved.triples
  cases serves with
  | failed fails =>
      refine ⟨?_, conserved.placed⟩
      rw [List.flatMap_append, ← triples, List.flatMap_singleton, callTriples, if_neg fails,
        List.append_nil]
  | @served sampler flushes succeeds held open' closed stores _ =>
      constructor
      · have kept := @pack_items _ _ Metadata.bytes xyzBytes payloadSize Metadata.cleared
          (opening call run.sampler) (triplesOf call.fifoGet.2.values)
        rw [messages_append, List.flatMap_append, flush_triples held, open', List.append_assoc,
          List.flatMap_append, ← triples, List.flatMap_singleton, callTriples, if_pos succeeds,
          List.append_assoc]
        exact congrArg _ kept
      · obtain ⟨placed, -⟩ := placed_run consistent.layout conserved.placed stores
          (flushes_encode canonical complete held closed)
        rw [List.map_append, List.map_map]
        simpa [Function.comp_def] using placed

theorem conserved_run (canonical : CanonicalEncoder cborEncodeMsg)
    (complete : CompleteEncoder 1200 cborEncodeMsg) (calls : List Call) :
    ∃ run, runCalls cborEncodeMsg calls = .ok run ∧ Consistent run.sampler ∧
      Conserved cborEncodeMsg calls run :=
  run_induction canonical conserved_start (fun _ _ _ _ _ consistent conserved serves =>
    conserved_step canonical complete consistent conserved serves) calls

theorem conserved_logged {calls : List Call} (consistent : Consistent run.sampler)
    (conserved : Conserved cborEncodeMsg calls run)
    (many : 254 < (calls.flatMap callTriples).length) : run.log ≠ [] := by
  intro none
  have most := bounded_count consistent.ready.bounded
  rw [← conserved.triples, none] at many
  exact absurd many (Nat.not_lt_of_le most)

theorem device_triples (data : Samples) (calls : List DeviceCall) :
    ((deviceCalls data calls).flatMap callTriples).map xyzValues =
      calls.flatMap DeviceCall.triples := by
  induction calls generalizing data with
  | nil => rfl
  | cons call rest ih =>
      rw [deviceCalls, List.flatMap_cons, List.map_append, ih, List.flatMap_cons]
      apply congrArg (· ++ _)
      cases answer : call.spi with
      | error failure =>
          rw [callTriples, if_neg (driver_fails data call answer).1, DeviceCall.triples, answer]
          rfl
      | ok burst =>
          obtain ⟨succeeds, same⟩ := driver_succeeds data call answer
          rw [callTriples, if_pos succeeds, same]

/-- Whoever cleared the flag in between, the next call leaves a consistent state
and raises the flag exactly when one of its messages is the last of a bank. -/
theorem next_call (canonical : CanonicalEncoder cborEncodeMsg)
    (complete : CompleteEncoder 1200 cborEncodeMsg) {calls : List Call}
    (consistent : Consistent run.sampler) (conserved : Conserved cborEncodeMsg calls run)
    (call : Call) (flag : Bool) :
    ∃ served, emptyFifoFn cborEncodeMsg call { run.sampler with sendFlag := flag } = .ok served ∧
      (¬ Succeeds call → served = ⟨{ run.sampler with sendFlag := flag }, [], false⟩) ∧
      (served.sampler.sendFlag = true ↔ flag = true ∨
        ∃ k, run.log.length ≤ k ∧ k < run.log.length + served.flushes.length ∧ (k + 1) % 60 = 0) := by
  by_cases succeeds : Succeeds call
  · obtain ⟨ready, layout⟩ := consistent_flagged consistent flag
    have placed : Placed cborEncodeMsg (run.log.map Entry.flush)
        (slots { run.sampler with sendFlag := flag }) :=
      ⟨conserved.placed.bank, conserved.placed.index, fun index flush present =>
        ⟨(conserved.placed.messages index flush present).placed⟩⟩
    obtain ⟨served, computed, held, -, closed, stores, -⟩ :=
      call_exact canonical succeeds ready layout
    refine ⟨served, computed, fun fails => absurd succeeds fails, ?_⟩
    have raised := (placed_run layout placed stores (flushes_encode canonical complete held closed)).2
    rw [List.length_map] at raised
    exact raised
  · refine ⟨_, failed_call succeeds, fun _ => rfl, ?_⟩
    constructor
    · exact Or.inl
    · rintro (raised | ⟨k, low, high, _⟩)
      · exact raised
      · exact absurd (Nat.lt_of_le_of_lt low high) (Nat.lt_irrefl _)

/-- The run of the calls exists; its messages and the open triples are the samples
of the bursts in order; the k-th message is in slot k mod 60 of bank k / 60 mod 2
until 120 messages later; and whatever call comes next, it changes nothing if it
fails and raises the flag exactly when one of its messages is the last of a bank. -/
def SamplesKept (cborEncodeMsg : Msg → Option (List UInt8)) (data : Samples)
    (calls : List DeviceCall) : Prop :=
  ∃ run, runCalls cborEncodeMsg (deviceCalls data calls) = .ok run ∧
    ((messages run.log).flatMap Msg.triples ++ run.sampler.encodeMsgBuf.triples).map xyzValues =
      calls.flatMap DeviceCall.triples ∧
    (∀ k entry, run.log[k]? = some entry →
      ∃ slot, entry.flush.stored = some ⟨k / 60 % 2, k % 60, slot⟩ ∧
        Carries cborEncodeMsg entry.flush.message slot ∧
        (run.log.length ≤ k + 120 →
          (slots run.sampler).slotAt (k / 60 % 2) (k % 60) = some slot)) ∧
    ∀ (call : DeviceCall) (flag : Bool), ∃ served,
      emptyFifoFn cborEncodeMsg (throughDriver (driverData data calls) call).1
          { run.sampler with sendFlag := flag } = .ok served ∧
        ((∃ failure, call.spi = .error failure) →
          served = ⟨{ run.sampler with sendFlag := flag }, [], false⟩ ∧
            (throughDriver (driverData data calls) call).2 = driverData data calls) ∧
        (served.sampler.sendFlag = true ↔ flag = true ∨
          ∃ k, run.log.length ≤ k ∧ k < run.log.length + served.flushes.length ∧ (k + 1) % 60 = 0)

/-- No sample is lost, repeated or moved on the way into the messages. -/
theorem samples_conserved (canonical : CanonicalEncoder cborEncodeMsg)
    (complete : CompleteEncoder 1200 cborEncodeMsg) (data : Samples) (calls : List DeviceCall) :
    SamplesKept cborEncodeMsg data calls := by
  obtain ⟨run, computed, consistent, conserved⟩ :=
    conserved_run canonical complete (deviceCalls data calls)
  refine ⟨run, computed, ?_, ?_, ?_⟩
  · rw [conserved.triples]
    exact device_triples data calls
  · intro k entry present
    have placed := (conserved.placed.messages k entry.flush (by simp [present])).placed
    rw [List.length_map] at placed
    exact placed
  · intro call flag
    obtain ⟨served, serves, unchanged, raised⟩ := next_call canonical complete consistent conserved
      (throughDriver (driverData data calls) call).1 flag
    refine ⟨served, serves, ?_, raised⟩
    rintro ⟨failure, fails⟩
    obtain ⟨failed, kept⟩ := driver_fails (driverData data calls) call fails
    exact ⟨unchanged failed, kept⟩

def restingSamples : Samples := ⟨List.replicate 510 0, List.length_replicate⟩

def restingBurst : Burst :=
  { bytes := List.replicate 1020 0, count := List.length_replicate
    extended := by
      intro index high present
      rw [List.eq_of_mem_replicate (List.mem_of_getElem? present)]
      rfl }

def restingCall (spi : Except SpiFailure Burst) : DeviceCall :=
  { uptime := 60000, spi := spi, temp1 := ⟨25, 0⟩, press := ⟨101, 325000⟩, humidity := ⟨45, 0⟩
    memory := fun _ => (true, true) }

def restingCalls : List DeviceCall :=
  [restingCall (.ok restingBurst), restingCall (.error ⟨-5, by decide⟩),
    restingCall (.ok restingBurst)]

theorem samples_conserved_resting :
    CanonicalEncoder (checkedEncoder 1200) ∧ CompleteEncoder 1200 (checkedEncoder 1200) ∧
      (∃ run, runCalls (checkedEncoder 1200) (deviceCalls restingSamples restingCalls) = .ok run ∧
        run.log ≠ []) ∧
      SamplesKept (checkedEncoder 1200) restingSamples restingCalls := by
  have canonical := checked_encoder_canonical 1200
  have complete := checked_encoder_complete 1200
  obtain ⟨run, computed, consistent, conserved⟩ :=
    conserved_run canonical complete (deviceCalls restingSamples restingCalls)
  have logged : run.log ≠ [] := by
    apply conserved_logged consistent conserved
    have same := congrArg List.length (device_triples restingSamples restingCalls)
    rw [List.length_map] at same
    rw [same]
    simp only [restingCalls, restingCall, DeviceCall.triples, Burst.triples, List.flatMap_cons,
      List.flatMap_nil, List.length_append, List.length_map, List.length_range, List.length_nil]
    decide
  exact ⟨canonical, complete, ⟨run, computed, logged⟩,
    samples_conserved canonical complete restingSamples restingCalls⟩

end Runs

end ThingyAccel.SampleConservation
