import ThingyAccel.SampleConservation

/-!
No check of `empty_fifo_fn` guards its array accesses or the element count of a
message: the byte estimate alone keeps them inside.
-/
namespace ThingyAccel.MessageBounds

open Memory Messages EmptyFifo NextFit MessageSize MessagePacking SampleRuns MessageContents
  SampleConservation

section Loop

variable (cborEncodeMsg : Msg → Option (List UInt8)) (memory : Nat → Bool × Bool)

theorem encode_loop_append (front rest : List Int16) (whole : 3 ∣ front.length) (run : Filling) :
    encodeLoop cborEncodeMsg memory (front ++ rest) run =
      encodeLoop cborEncodeMsg memory front run >>= encodeLoop cborEncodeMsg memory rest := by
  induction front using triplesOf.induct generalizing run with
  | case1 x y z front ih =>
      have later : 3 ∣ front.length := by
        simp only [List.length_cons] at whole
        omega
      simp only [List.cons_append, encodeLoop, ih later]
      split
      · simp only [bind_assoc]
      · simp only [bind_assoc]
  | case2 front short =>
      rcases front with - | ⟨x, - | ⟨y, - | ⟨z, front⟩⟩⟩
      · rfl
      · exact absurd whole (by simp)
      · exact absurd whole (by simp)
      · exact (short x y z front rfl).elim

def handedOver (run : Filling) : Msg :=
  { run.sampler.encodeMsgBuf with msgXyzCount := run.encodeIndex }

/-- A hand-over: the message is encoded, the bytes fit into the payload of the slot
they go to, and the slot is there. -/
structure HandsOver (run : Filling) : Prop where
  encodable : Encodable 1200 (handedOver run)
  fits : ∃ bytes, cborEncodeMsg (handedOver run) = some bytes ∧ 1 ≤ bytes.length ∧
    bytes.length ≤ 1100
  bank : run.sampler.msgIndex < 2
  slot : run.sampler.collectedAccel < payloadCount
  present : ∃ slot, (slots run.sampler).slotAt run.sampler.msgIndex run.sampler.collectedAccel =
    some slot ∧ slot.payload.length = 1100

def elementSize (x y z : Int16) : Nat :=
  (cborBitWidth x.toInt + cborBitWidth y.toInt + cborBitWidth z.toInt) % 2 ^ 8

def Overflows (run : Filling) (x y z : Int16) : Prop :=
  payloadSize < run.sampler.encodeMsgBuf.size + elementSize x y z + arrayByte

instance (run : Filling) (x y z : Int16) : Decidable (Overflows run x y z) :=
  inferInstanceAs (Decidable (_ < _))

structure PassInside (run : Filling) (x y z : Int16) : Prop where
  handsOver : Overflows run x y z → HandsOver cborEncodeMsg run
  writes : ∃ middle next,
    (if Overflows run x y z then flushMessage cborEncodeMsg memory run else .ok run) = .ok middle ∧
      middle.sampler.encodeMsgBuf.msgXyz.length = 256 ∧ middle.encodeIndex < 256 ∧
      appendXyz (elementSize x y z) x y z middle = .ok next

variable {cborEncodeMsg} {bin : MessageBin} {run : Filling}

theorem overflows_iff (fills : Fills bin run) (x y z : Int16) :
    Overflows run x y z ↔ payloadSize < bin.bytes + xyzBytes (xyzOf x y z) := by
  rw [Overflows, elementSize, Nat.add_assoc, xyz_of_bytes, fills.size]

theorem index_below (fills : Fills bin run) (bounded : Bounded bin.items) :
    run.encodeIndex < 256 := by
  have count := bounded_count bounded
  rw [fills.index]
  omega

theorem hands_over (canonical : CanonicalEncoder cborEncodeMsg)
    (complete : CompleteEncoder 1200 cborEncodeMsg) (fills : Fills bin run)
    (bounded : Bounded bin.items) (least : 99 ≤ bin.items.length)
    (layout : Layout (slots run.sampler)) : HandsOver cborEncodeMsg run := by
  have holds := fills_holds fills
  have encodable := holds_encodable holds ⟨bounded, least⟩
  obtain ⟨bytes, encodes⟩ := complete _ encodable
  have long : bytes.length = bin.bytes := by
    rw [canonical _ bytes encodes]
    exact closed_length holds ⟨bounded, least⟩
  have light := bounded_bytes bounded
  have tare := (metadata_bytes_range bin.label).1
  have positive : 1 ≤ bin.bytes := by
    rw [MessageBin.bytes, Bin.weight]
    omega
  obtain ⟨bank, slot, here, found, -, payload⟩ :=
    layout_present layout layout.bank layout.index
  refine ⟨encodable, ⟨bytes, encodes, ?_, ?_⟩, layout.bank, layout.index, slot, ?_, payload⟩
  · rw [long]
    exact positive
  · rw [long]
    exact Nat.le_trans light (by decide)
  · rw [Slots.slotAt]
    exact (congrArg (Option.bind · _) here).trans found

theorem pass_inside (canonical : CanonicalEncoder cborEncodeMsg)
    (complete : CompleteEncoder 1200 cborEncodeMsg) (fills : Fills bin run)
    (bounded : Bounded bin.items) (layout : Layout (slots run.sampler)) (x y z : Int16) :
    PassInside cborEncodeMsg memory run x y z := by
  by_cases full : Overflows run x y z
  · have least := full_count bounded (xyz_of_narrow x y z) ((overflows_iff fills x y z).mp full)
    obtain ⟨middle, flush, flushes, -, -, empty, -, -⟩ :=
      flush_message_exact canonical memory fills bounded (Nat.le_trans (by decide) least) layout
    have light : Bounded [] := ⟨Nat.zero_le _, fun xyz member => absurd member List.not_mem_nil⟩
    obtain ⟨next, appends, -⟩ := append_xyz_exact x y z empty light
    constructor
    · intro _
      exact hands_over canonical complete fills bounded least layout
    · refine ⟨middle, next, ?_, empty.storage, index_below empty light, appends⟩
      rw [if_pos full, flushes]
  · obtain ⟨next, appends, -⟩ := append_xyz_exact x y z fills bounded
    constructor
    · intro overflows
      exact absurd overflows full
    · refine ⟨run, next, ?_, fills.storage, index_below fills bounded, appends⟩
      rw [if_neg full]

end Loop

section Runs

variable (cborEncodeMsg : Msg → Option (List UInt8))

def loopStart (call : Call) (st : Sampler) : Filling :=
  { sampler := { st with encodeMsgBuf := startMessage call st.encodeMsgBuf }
    encodeIndex := (startMessage call st.encodeMsgBuf).msgXyzCount
    flushes := [] }

/-- A call ends without a fault, and each pass of its loop stays inside: the loop
gets to every sample, goes on with it from there, and finds the place for it. -/
structure CallInside (call : Call) (st : Sampler) : Prop where
  ends : ∃ served, emptyFifoFn cborEncodeMsg call st = .ok served
  passes : ∀ front x y z rest, call.fifoGet.2.values = front ++ x :: y :: z :: rest →
    3 ∣ front.length → ∃ head,
      encodeLoop cborEncodeMsg call.memory front (loopStart call st) = .ok head ∧
        encodeLoop cborEncodeMsg call.memory call.fifoGet.2.values (loopStart call st) =
          encodeLoop cborEncodeMsg call.memory (x :: y :: z :: rest) head ∧
        PassInside cborEncodeMsg call.memory head x y z

variable {cborEncodeMsg} {st : Sampler}

theorem call_inside (canonical : CanonicalEncoder cborEncodeMsg)
    (complete : CompleteEncoder 1200 cborEncodeMsg) (consistent : Consistent st) (call : Call) :
    CallInside cborEncodeMsg call st := by
  constructor
  · by_cases succeeds : Succeeds call
    · obtain ⟨served, computed, -⟩ :=
        call_exact canonical succeeds consistent.ready consistent.layout
      exact ⟨served, computed⟩
    · exact ⟨_, failed_call succeeds⟩
  · intro front x y z rest split whole
    have bounded : Bounded (opening call st).items := consistent.ready.bounded
    obtain ⟨head, -, reached, -, -, fills, light, -, -, layout⟩ :=
      encode_loop_exact canonical call.memory front whole (opening call st) (loopStart call st)
        (start_fills consistent.ready call) bounded consistent.layout
    refine ⟨head, reached, ?_,
      pass_inside call.memory canonical complete fills light layout x y z⟩
    rw [split, encode_loop_append cborEncodeMsg call.memory front _ whole, reached, checked_bind]

/-- Whatever calls have been made, the next one stays inside all arrays, encodes
every message it closes and finds room for it. -/
theorem calls_inside (canonical : CanonicalEncoder cborEncodeMsg)
    (complete : CompleteEncoder 1200 cborEncodeMsg) (calls : List Call) :
    ∃ run, runCalls cborEncodeMsg calls = .ok run ∧
      ∀ call, CallInside cborEncodeMsg call run.sampler := by
  obtain ⟨run, computed, consistent, -⟩ := @run_induction cborEncodeMsg canonical
    (fun _ _ => True) trivial (fun _ _ _ _ _ _ _ _ => trivial) calls
  exact ⟨run, computed, fun call => call_inside canonical complete consistent call⟩

theorem calls_inside_brimming :
    CanonicalEncoder (checkedEncoder 1200) ∧ CompleteEncoder 1200 (checkedEncoder 1200) ∧
      ∃ run, runCalls (checkedEncoder 1200) [brimmingCall] = .ok run ∧
        ∀ call, CallInside (checkedEncoder 1200) call run.sampler :=
  ⟨checked_encoder_canonical 1200, checked_encoder_complete 1200,
    calls_inside (checked_encoder_canonical 1200) (checked_encoder_complete 1200) [brimmingCall]⟩

end Runs

end ThingyAccel.MessageBounds
