import ThingyAccel.HeatshrinkCompression

/-!
src/heatshrink_encoder.c under any client: `heatshrink_encoder_sink`,
`heatshrink_encoder_poll` and `heatshrink_encoder_finish` in any order, with input in any
chunks and output buffers of any sizes.
-/
namespace ThingyAccel.HeatshrinkClients

open Memory Bits Lzss HeatshrinkEncoder HeatshrinkOutput HeatshrinkPoll
open HeatshrinkCompression (freshEncoder fresh_inv stretch_sunk)

inductive ClientCall where
  | sink (inBuf : List UInt8)
  | poll (outBufSize : Nat)
  | finish
  deriving DecidableEq, Repr

/-- The encoder, the bytes that its sinks have taken and those that its polls have
written. -/
structure Client where
  hse : Encoder
  taken : List UInt8
  out : List UInt8
  deriving DecidableEq, Repr

def startClient : Client := ⟨freshEncoder, [], []⟩

def clientStep (client : Client) : ClientCall → Checked Client
  | .sink inBuf => do
      let (_, hse, inputSize) ← heatshrinkEncoderSink client.hse inBuf inBuf.length
      .ok ⟨hse, client.taken ++ inBuf.take (inputSize.getD 0), client.out⟩
  | .poll outBufSize => do
      let (_, hse, bytes) ← heatshrinkEncoderPoll client.hse outBufSize
      .ok ⟨hse, client.taken, client.out ++ bytes.getD []⟩
  | .finish => .ok ⟨(heatshrinkEncoderFinish client.hse).2, client.taken, client.out⟩

def runClient : List ClientCall → Client → Checked Client
  | [], client => .ok client
  | call :: rest, client => do
      let client ← clientStep client call
      runClient rest client

def encoding (input : List UInt8) : List UInt8 := packAll (stream 9 3 (tokensFrom input 0))

theorem encoding_decodes (input : List UInt8) :
    (decode 9 3 (ofBytes (encoding input)) (List.replicate 512 0)).drop 512 = input := by
  obtain ⟨padding, few, spelled⟩ := of_bytes_pack_all (stream 9 3 (tokensFrom input 0))
  have zeros : (history input).take 512 = List.replicate 512 0 := by
    rw [history, List.take_left' List.length_replicate]
  have decoded := @decode_greedy (history input) 512 8 1 9 3 (by decide) (by decide) 512
    (Nat.le_refl _) (by simp) padding (by omega)
  rw [zeros] at decoded
  rw [encoding, spelled, tokensFrom, decoded, history, List.drop_left' List.length_replicate]

section Points

variable {input out : List UInt8} {sunk allowance : Nat} {hse : Encoder}

/-- Bits that wait in a byte need no more than that byte, so the point of the parse does not
depend on how much room the last buffer had. -/
theorem inv_allowance (inv : Inv input sunk allowance out hse) {wider : Nat}
    (room : out.length < wider) : Inv input sunk wider out hse := by
  obtain ⟨base, spoken, pending, stands⟩ := inv
  have few := stands.packed.short
  have below : 8 * out.length + pending.length < 8 * wider := by omega
  have between (last : Between allowance hse spoken (8 * out.length + pending.length)) :
      Between wider hse spoken (8 * out.length + pending.length) := ⟨last.plain, Or.inl below⟩
  refine ⟨base, spoken, pending, stands.geometry, stands.packed, stands.split, stands.bits, ?_⟩
  have shape := stands.shape
  cases state : hse.state with
  | notFull | filled | search | saveBacklog | flushBits =>
      simp only [Shape, state] at shape ⊢
      exact ⟨between shape.1, shape.2⟩
  | yieldTagBit | yieldLiteral | yieldBrIndex | yieldBrLength =>
      simp only [Shape, state] at shape ⊢
      exact shape
  | done => simp only [Shape, state] at shape

theorem reached_inside {base : Nat} {spoken : List Token} {pending : List Bool}
    (stands : Represents input sunk allowance out hse base spoken pending) :
    reached base hse ≤ sunk := by
  have total := stands.geometry.total
  have inside := stands.geometry.inside
  have shape := stands.shape
  have held : hse.matchScanIndex + hse.matchLength ≤ hse.inputSize := by
    cases state : hse.state with
    | notFull =>
        simp only [Shape, state] at shape
        rw [shape.2.2.2, shape.1.plain]
        exact Nat.zero_le _
    | filled =>
        simp only [Shape, state] at shape
        rw [shape.2.2, shape.1.plain]
        exact Nat.zero_le _
    | search =>
        simp only [Shape, state] at shape
        rw [shape.1.plain]
        exact shape.2.2
    | yieldTagBit =>
        simp only [Shape, state] at shape
        rcases shape.2 with ⟨literal, -⟩ | ⟨backref, -⟩
        · rw [literal.plain]
          exact literal.inside
        · exact backref.inside
    | yieldLiteral =>
        simp only [Shape, state] at shape
        rw [shape.2.1.plain]
        exact shape.2.1.inside
    | yieldBrIndex | yieldBrLength =>
        simp only [Shape, state] at shape
        exact shape.2.1.inside
    | saveBacklog =>
        simp only [Shape, state] at shape
        rw [shape.1.plain, shape.2.2.1]
        exact shape.2.2.2.2
    | flushBits =>
        simp only [Shape, state] at shape
        rw [shape.1.plain, shape.2.2]
        exact Nat.le_refl _
    | done =>
        simp only [Shape, state] at shape
  rw [reached]
  omega

theorem written_front (inv : Inv input sunk allowance out hse) :
    ofBytes out <+: stream 9 3 (tokensFrom input 0) := by
  obtain ⟨base, spoken, pending, stands⟩ := inv
  rw [stands.split, stream_append, ← stands.bits, List.append_assoc, List.append_assoc]
  exact List.prefix_append _ _

theorem split_taken {taken more : List UInt8} {base : Nat} {spoken : List Token}
    (inside : reached base hse ≤ taken.length)
    (split : tokensFrom (taken ++ more) 0 =
      spoken ++ tokensFrom (taken ++ more) (reached base hse)) :
    tokensFrom taken 0 = spoken ++ tokensFrom taken (reached base hse) := by
  have longer : history (taken ++ more) = history taken ++ more := by
    rw [history, history, List.append_assoc]
  rw [tokensFrom, tokensFrom, longer] at split
  refine greedy_front (Nat.le_add_right _ _) ?_ (Nat.le_add_right _ _) ?_ split
  · rw [history_length]
    omega
  · rw [history_length]
    omega

end Points

def Resting : HseState → Prop
  | .notFull | .filled => True
  | state => Yields state

/-- Before the end of the input the encoder stands at a point of the parse of whatever may
follow the bytes taken; then at one of the parse of these; and at last it has written their
encoding. -/
inductive Standing (client : Client) : Prop where
  | running (resting : Resting client.hse.state)
      (inv : ∀ more, more ≠ [] → Inv (client.taken ++ more) client.taken.length
        (client.out.length + 1) client.out client.hse)
  | ending (inv : Inv client.taken client.taken.length (client.out.length + 1) client.out client.hse)
  | ended (state : client.hse.state = .done) (written : client.out = encoding client.taken)

/-- Behind the end of the input: all of the buffers offered have been filled, unless the
encoder is done. -/
def Filled (offered : Nat) (client : Client) : Prop :=
  client.hse.state = .done ∨ isFinishing client.hse = true ∧ offered ≤ client.out.length

section Calls

variable {client : Client}

theorem start_standing : Standing startClient := by
  refine .running trivial ?_
  intro more present
  exact inv_allowance (fresh_inv (List.length_pos_iff.mpr present)) (Nat.lt_succ_self _)

theorem running_unmarked {taken out : List UInt8} {allowance : Nat} {hse : Encoder}
    (inv : ∀ more, more ≠ [] → Inv (taken ++ more) taken.length allowance out hse) :
    isFinishing hse = false := by
  obtain ⟨base, spoken, pending, stands⟩ := inv [0] (List.cons_ne_nil _ _)
  by_contra marked
  have all := stands.geometry.finishing.mp (by simpa using marked)
  rw [List.length_append, List.length_singleton] at all
  omega

theorem ending_marked {taken out : List UInt8} {allowance : Nat} {hse : Encoder}
    (inv : Inv taken taken.length allowance out hse) : isFinishing hse = true := by
  obtain ⟨base, spoken, pending, stands⟩ := inv
  exact stands.geometry.finishing.mpr rfl

/-- A sink that is not misuse takes what the window has room for, and what may follow is
then shorter by that. -/
theorem sink_running {taken out : List UInt8} {allowance : Nat} {hse : Encoder}
    (state : hse.state = .notFull)
    (inv : ∀ more, more ≠ [] → Inv (taken ++ more) taken.length allowance out hse)
    (chunk : List UInt8) :
    ∃ count next, heatshrinkEncoderSink hse chunk chunk.length = .ok (.ok, next, some count) ∧
      Resting next.state ∧ ∀ more, more ≠ [] →
        Inv (taken ++ chunk.take count ++ more) (taken ++ chunk.take count).length allowance out
          next := by
  have running := running_unmarked inv
  obtain ⟨windowBits, capacity, free⟩ :
      hse.windowSz2 = 9 ∧ hse.buffer.length = 1024 ∧ hse.inputSize < 512 := by
    obtain ⟨base, spoken, pending, stands⟩ := inv [0] (List.cons_ne_nil _ _)
    have shape := stands.shape
    simp only [Shape, state] at shape
    exact ⟨stands.geometry.windowBits, stands.geometry.capacity, shape.2.2.1⟩
  have offset : getInputOffset hse = 512 := by
    simp [getInputOffset, getInputBufferSize, windowBits]
  have window : getInputBufferSize hse = 512 := by
    simp [getInputBufferSize, windowBits]
  obtain ⟨count, fewer⟩ : ∃ count, (if 512 - hse.inputSize < chunk.length
      then 512 - hse.inputSize else chunk.length) = count := ⟨_, rfl⟩
  have bounds : count ≤ chunk.length ∧ hse.inputSize + count ≤ 512 := by
    split at fewer <;> omega
  obtain ⟨some', room⟩ := bounds
  have copied : (chunk.take count).length = count := by
    rw [List.length_take]
    omega
  have fits : 512 + hse.inputSize + (chunk.take count).length ≤ hse.buffer.length := by omega
  obtain ⟨buffer, stored⟩ : ∃ buffer, hse.buffer.take (512 + hse.inputSize) ++ chunk.take count ++
      hse.buffer.drop (512 + hse.inputSize + (chunk.take count).length) = buffer := ⟨_, rfl⟩
  refine ⟨count, { hse with
    buffer := buffer, inputSize := hse.inputSize + count,
    state := if count = 512 - hse.inputSize then .filled else hse.state }, ?_, ?_, ?_⟩
  · simp only [heatshrinkEncoderSink, running, state, offset, window, fewer]
    simp only [ne_eq, not_true_eq_false, Bool.false_eq_true, ↓reduceIte]
    rw [if_neg (by omega), write_at_inside fits, checked_bind, stored]
  · rw [state]
    show Resting (if count = 512 - hse.inputSize then .filled else .notFull)
    split <;> trivial
  · intro more present
    obtain ⟨base, spoken, pending, geometry, packed, split, bits, shape⟩ :=
      inv (chunk.take count ++ more) (List.append_ne_nil_of_right_ne_nil _ present)
    simp only [Shape, state] at shape
    obtain ⟨between, -, -, start⟩ := shape
    have total := geometry.total
    have positive := List.length_pos_iff.mpr present
    have follows : ((taken ++ (chunk.take count ++ more)).drop taken.length).take count =
        chunk.take count := by
      rw [List.drop_left, List.take_left' copied]
    have inside : taken.length + count ≤ (taken ++ (chunk.take count ++ more)).length := by
      rw [List.length_append, List.length_append, copied]
      omega
    have stretched := @stretch_sunk _ _ _ _ _ count geometry.window total inside
      (by rw [follows]; exact fits)
    rw [follows, stored] at stretched
    rw [List.append_assoc]
    have bufferLength : buffer.length = 1024 := by rw [← stored, written_length fits, capacity]
    refine ⟨base, spoken, pending, ⟨geometry.windowBits, geometry.lookaheadBits, bufferLength,
      room, ?_, ?_, stretched, ?_⟩, ⟨packed.short, packed.mask, packed.byte⟩, split, ?_, ?_⟩
    · rw [List.length_append, copied, ← total]
      simp only
      omega
    · simp only [List.length_append, copied]
      omega
    · have unmarked : ¬ isFinishing hse = true := by
        rw [running]
        decide
      refine iff_of_false unmarked ?_
      simp only [List.length_append, copied]
      omega
    · by_cases full : count = 512 - hse.inputSize
      · simpa [owed, state, full] using bits
      · simpa [owed, state, full] using bits
    · have closed := between.closed
      by_cases full : count = 512 - hse.inputSize
      · rw [if_pos full]
        exact ⟨⟨between.plain, closed⟩, Or.inr (by simp only; omega), start⟩
      · rw [if_neg full, state]
        exact ⟨⟨between.plain, closed⟩, running, by simp only; omega, start⟩

theorem standing_sink (standing : Standing client) (inBuf : List UInt8) :
    ∃ next, clientStep client (.sink inBuf) = .ok next ∧ Standing next := by
  -- A sink that is misuse takes nothing.
  have misused (refused : isFinishing client.hse = true ∨ client.hse.state ≠ .notFull) :
      clientStep client (.sink inBuf) = .ok client := by
    have misuse : heatshrinkEncoderSink client.hse inBuf inBuf.length =
        .ok (.errorMisuse, client.hse, none) := by
      rw [heatshrinkEncoderSink]
      by_cases marked : isFinishing client.hse = true
      · rw [if_pos marked]
      · rw [if_neg marked, if_pos (refused.resolve_left marked)]
    simp only [clientStep, misuse, checked_bind, Option.getD_none, List.take_zero, List.append_nil]
  cases standing with
  | running resting inv =>
      by_cases state : client.hse.state = .notFull
      · obtain ⟨count, next, sinks, rests, after⟩ := sink_running state inv inBuf
        refine ⟨⟨next, client.taken ++ inBuf.take count, client.out⟩, ?_, .running rests after⟩
        simp only [clientStep, sinks, checked_bind, Option.getD_some]
      · exact ⟨client, misused (Or.inr state), .running resting inv⟩
  | ending inv => exact ⟨client, misused (Or.inl (ending_marked inv)), .ending inv⟩
  | ended state written =>
      exact ⟨client, misused (Or.inr (by rw [state]; decide)), .ended state written⟩

theorem outcome_running {taken more out : List UInt8} {allowance : Nat} {res : PollRes}
    {hse : Encoder} (present : more ≠ [])
    (outcome : Outcome (taken ++ more) taken.length allowance out res hse) :
    Resting hse.state ∧ Inv (taken ++ more) taken.length allowance out hse := by
  have shorter : taken.length ≠ (taken ++ more).length := by
    have positive := List.length_pos_iff.mpr present
    rw [List.length_append]
    omega
  cases outcome with
  | waiting state inv => exact ⟨by rw [state]; trivial, inv⟩
  | finished state searched sunkAll finished => exact absurd sunkAll shorter
  | unflushed state inv full waiting =>
      obtain ⟨base, spoken, pending, stands⟩ := inv
      have shape := stands.shape
      simp only [Shape, state] at shape
      exact absurd (stands.geometry.finishing.mp shape.2.1) shorter
  | full yields inv full =>
      refine ⟨?_, inv⟩
      cases state : hse.state with
      | notFull | filled => trivial
      | _ =>
          rw [state] at yields
          exact yields

theorem running_unfilled {offered : Nat} (resting : Resting client.hse.state)
    (running : isFinishing client.hse = false) : ¬ Filled offered client := by
  rintro (state | ⟨marked, -⟩)
  · rw [state] at resting
    exact resting
  · rw [running] at marked
    cases marked

theorem standing_poll (standing : Standing client) {outBufSize : Nat} (positive : outBufSize ≠ 0) :
    ∃ next, clientStep client (.poll outBufSize) = .ok next ∧ next.taken = client.taken ∧
      Standing next ∧
      ∀ offered, Filled offered client → Filled (offered + outBufSize) next := by
  have wider : client.out.length < client.out.length + outBufSize :=
    Nat.lt_add_of_pos_right (Nat.pos_of_ne_zero positive)
  cases standing with
  | running resting inv =>
      have polled (more : List UInt8) (present : more ≠ []) :=
        poll_exact (inv_allowance (inv more present) wider) positive rfl
      obtain ⟨res, hse, bytes, polls, -, -⟩ := polled [0] (List.cons_ne_nil _ _)
      have after (more : List UInt8) (present : more ≠ []) : Resting hse.state ∧
          Inv (client.taken ++ more) client.taken.length (client.out.length + outBufSize)
            (client.out ++ bytes) hse := by
        obtain ⟨res', hse', bytes', polls', -, outcome⟩ := polled more present
        rw [polls] at polls'
        cases polls'
        exact outcome_running present outcome
      refine ⟨⟨hse, client.taken, client.out ++ bytes⟩, ?_, rfl, .running ?_ ?_, ?_⟩
      · simp only [clientStep, polls, checked_bind, Option.getD_some]
      · exact (after [0] (List.cons_ne_nil _ _)).1
      · intro more present
        exact inv_allowance (after more present).2 (Nat.lt_succ_self _)
      · intro offered filled
        exact absurd filled (running_unfilled resting (running_unmarked inv))
  | ending inv =>
      obtain ⟨res, hse, bytes, polls, -, outcome⟩ :=
        poll_exact (inv_allowance inv wider) positive rfl
      have step : clientStep client (.poll outBufSize) =
          .ok ⟨hse, client.taken, client.out ++ bytes⟩ := by
        simp only [clientStep, polls, checked_bind, Option.getD_some]
      have open' : client.hse.state ≠ .done := by
        intro state
        obtain ⟨base, spoken, pending, stands⟩ := inv
        have shape := stands.shape
        simp only [Shape, state] at shape
      have more (marked : isFinishing hse = true)
          (full : (client.out ++ bytes).length = client.out.length + outBufSize) (offered : Nat)
          (filled : Filled offered client) :
          Filled (offered + outBufSize) ⟨hse, client.taken, client.out ++ bytes⟩ := by
        refine Or.inr ⟨marked, ?_⟩
        simp only [full]
        exact Nat.add_le_add_right (filled.resolve_left open').2 _
      refine ⟨_, step, rfl, ?_⟩
      cases outcome with
      | waiting state inv =>
          have marked := ending_marked inv
          obtain ⟨base, spoken, pending, stands⟩ := inv
          have shape := stands.shape
          simp only [Shape, state] at shape
          rw [marked] at shape
          exact absurd shape.2.1 (by decide)
      | finished state searched sunkAll finished =>
          obtain ⟨padding, few, spelled⟩ := finished.spelled
          exact ⟨.ended state (pack_all_unique few spelled), fun _ _ => Or.inl state⟩
      | unflushed state inv full waiting =>
          exact ⟨.ending (inv_allowance inv (Nat.lt_succ_self _)), more (ending_marked inv) full⟩
      | full yields inv full =>
          exact ⟨.ending (inv_allowance inv (Nat.lt_succ_self _)), more (ending_marked inv) full⟩
  | ended state written =>
      have step : clientStep client (.poll outBufSize) = .ok client := by
        obtain ⟨fuel, some'⟩ := Nat.exists_eq_succ_of_ne_zero
          (Nat.ne_zero_of_lt (effort_bound client.hse))
        have polls : heatshrinkEncoderPoll client.hse outBufSize =
            .ok (.empty, client.hse, some []) := by
          rw [heatshrinkEncoderPoll, if_neg positive, some']
          simp only [pollLoop, pollStep, state, checked_bind]
        simp only [clientStep, polls, checked_bind, Option.getD_some, List.append_nil]
      exact ⟨client, step, rfl, .ended state written, fun _ _ => Or.inl state⟩

theorem finish_state (hse : Encoder) : (heatshrinkEncoderFinish hse).2.state =
    if hse.state = .notFull then .filled else hse.state := rfl

theorem finish_running {taken out : List UInt8} {hse : Encoder} {allowance : Nat}
    (resting : Resting hse.state)
    (inv : ∀ more, more ≠ [] → Inv (taken ++ more) taken.length allowance out hse) :
    Inv taken taken.length allowance out (heatshrinkEncoderFinish hse).2 := by
  obtain ⟨base, spoken, pending, stands⟩ := inv [0] (List.cons_ne_nil _ _)
  have inside := reached_inside stands
  obtain ⟨geometry, packed, split, bits, shape⟩ := stands
  have marked := finish_marks hse
  have total := geometry.total
  have front : Stretch (history taken) hse.buffer base (512 + hse.inputSize) := by
    intro index bound
    have here := geometry.window index bound
    have longer : history (taken ++ [0]) = history taken ++ [0] := by
      rw [history, history, List.append_assoc]
    rw [longer, List.getElem?_append_left (by rw [history_length]; omega)] at here
    exact here
  refine ⟨base, spoken, pending, ⟨geometry.windowBits, geometry.lookaheadBits, geometry.capacity,
    geometry.inside, total, Nat.le_refl _, front, iff_of_true marked rfl⟩,
    ⟨packed.short, packed.mask, packed.byte⟩, split_taken inside split, ?_, ?_⟩
  · rw [← bits]
    apply congrArg (ofBytes out ++ pending ++ ·)
    by_cases waiting : hse.state = .notFull
    · simp only [owed, finish_state, waiting, ↓reduceIte]
    · simp only [owed, finish_state, waiting, ↓reduceIte]
      rfl
  · cases state : hse.state with
    | notFull =>
        simp only [Shape, state] at shape
        simp only [Shape, finish_state, state, ↓reduceIte]
        exact ⟨⟨shape.1.plain, shape.1.closed⟩, Or.inl marked, shape.2.2.2⟩
    | filled =>
        simp only [Shape, state] at shape
        simp only [Shape, finish_state, state, reduceCtorEq, ↓reduceIte]
        exact ⟨⟨shape.1.plain, shape.1.closed⟩, Or.inl marked, shape.2.2⟩
    | yieldTagBit =>
        simp only [Shape, state] at shape
        simp only [Shape, finish_state, state, reduceCtorEq, ↓reduceIte]
        obtain ⟨searchable, token⟩ := shape
        refine ⟨⟨Or.inl marked, searchable.indexed⟩, ?_⟩
        rcases token with ⟨literal, ends⟩ | ⟨backref, ends⟩
        · exact Or.inl ⟨⟨literal.plain, literal.positive, literal.inside⟩, ends⟩
        · exact Or.inr ⟨⟨backref.short, backref.long, backref.inside, backref.near, backref.far⟩,
            ends⟩
    | yieldLiteral =>
        simp only [Shape, state] at shape
        simp only [Shape, finish_state, state, reduceCtorEq, ↓reduceIte]
        obtain ⟨searchable, literal, ends⟩ := shape
        exact ⟨⟨Or.inl marked, searchable.indexed⟩,
          ⟨literal.plain, literal.positive, literal.inside⟩, ends⟩
    | yieldBrIndex | yieldBrLength =>
        simp only [Shape, state] at shape
        simp only [Shape, finish_state, state, reduceCtorEq, ↓reduceIte]
        obtain ⟨searchable, backref, ends, few⟩ := shape
        exact ⟨⟨Or.inl marked, searchable.indexed⟩,
          ⟨backref.short, backref.long, backref.inside, backref.near, backref.far⟩, ends, few⟩
    | search | saveBacklog | flushBits | done =>
        rw [state] at resting
        exact resting.elim

theorem finish_again {hse : Encoder} (marked : isFinishing hse = true)
    (state : hse.state ≠ .notFull) : (heatshrinkEncoderFinish hse).2 = hse := by
  have kept : hse.flags ||| flagIsFinishing = hse.flags := by
    have bit : hse.flags.toNat.testBit 0 = true := by
      by_contra clear
      refine of_decide_eq_true marked (UInt8.toNat_inj.mp ?_)
      rw [UInt8.toNat_and]
      apply Nat.eq_of_testBit_eq
      intro place
      cases place with
      | zero => simpa [flagIsFinishing] using clear
      | succ place => simp [flagIsFinishing, Nat.testBit_succ]
    apply UInt8.toNat_inj.mp
    rw [UInt8.toNat_or]
    apply Nat.eq_of_testBit_eq
    intro place
    cases place with
    | zero => simp [flagIsFinishing, bit]
    | succ place =>
        have clear : Nat.testBit 1 (place + 1) = false := by simp [Nat.testBit_succ]
        simp [flagIsFinishing, clear]
  simp only [heatshrinkEncoderFinish, kept, if_neg state]

theorem standing_finish (standing : Standing client) :
    Standing ⟨(heatshrinkEncoderFinish client.hse).2, client.taken, client.out⟩ ∧
      Filled client.out.length
        ⟨(heatshrinkEncoderFinish client.hse).2, client.taken, client.out⟩ := by
  refine ⟨?_, Or.inr ⟨finish_marks client.hse, Nat.le_refl _⟩⟩
  cases standing with
  | running resting inv => exact .ending (finish_running resting inv)
  | ending inv =>
      have marked := ending_marked inv
      have busy : client.hse.state ≠ .notFull := by
        intro state
        obtain ⟨base, spoken, pending, stands⟩ := inv
        have shape := stands.shape
        simp only [Shape, state] at shape
        rw [marked] at shape
        exact absurd shape.2.1 (by decide)
      rw [finish_again marked busy]
      exact .ending inv
  | ended state written =>
      refine .ended ?_ written
      rw [finish_state, state]
      rfl

theorem poll_misused (client : Client) : clientStep client (.poll 0) = .ok client := by
  simp only [clientStep, heatshrinkEncoderPoll, ↓reduceIte, checked_bind, Option.getD_none,
    List.append_nil]

theorem standing_step (standing : Standing client) (call : ClientCall) :
    ∃ next, clientStep client call = .ok next ∧ Standing next := by
  cases call with
  | sink inBuf => exact standing_sink standing inBuf
  | poll outBufSize =>
      by_cases zero : outBufSize = 0
      · rw [zero]
        exact ⟨client, poll_misused client, standing⟩
      · obtain ⟨next, step, -, after, -⟩ := standing_poll standing zero
        exact ⟨next, step, after⟩
  | finish => exact ⟨_, rfl, (standing_finish standing).1⟩

theorem standing_run (standing : Standing client) (calls : List ClientCall) :
    ∃ last, runClient calls client = .ok last ∧ Standing last := by
  induction calls generalizing client with
  | nil => exact ⟨client, rfl, standing⟩
  | cons call rest ih =>
      obtain ⟨next, step, after⟩ := standing_step standing call
      obtain ⟨last, run, end'⟩ := ih after
      refine ⟨last, ?_, end'⟩
      rw [runClient, step, checked_bind, run]

theorem run_append {client next : Client} {front : List ClientCall}
    (run : runClient front client = .ok next) (back : List ClientCall) :
    runClient (front ++ back) client = runClient back next := by
  induction front generalizing client with
  | nil =>
      cases run
      rfl
  | cons call rest ih =>
      rw [runClient] at run
      obtain ⟨middle, step, later⟩ := bind_ok.mp run
      rw [List.cons_append, runClient, step, checked_bind, ih later]

theorem standing_polls (standing : Standing client) (sizes : List Nat) {offered : Nat}
    (filled : Filled offered client) :
    ∃ last, runClient (sizes.map .poll) client = .ok last ∧ last.taken = client.taken ∧
      Standing last ∧ Filled (offered + sizes.sum) last := by
  induction sizes generalizing client offered with
  | nil => exact ⟨client, rfl, rfl, standing, filled⟩
  | cons size rest ih =>
      by_cases zero : size = 0
      · obtain ⟨last, run, taken, after, more⟩ := ih standing filled
        refine ⟨last, ?_, taken, after, ?_⟩
        · rw [List.map_cons, runClient, zero, poll_misused, checked_bind, run]
        · rwa [List.sum_cons, zero, Nat.zero_add]
      · obtain ⟨next, step, same, after, grows⟩ := standing_poll standing zero
        obtain ⟨last, run, taken, end', more⟩ := ih after (grows offered filled)
        refine ⟨last, ?_, taken.trans same, end', ?_⟩
        · rw [List.map_cons, runClient, step, checked_bind, run]
        · rwa [List.sum_cons, ← Nat.add_assoc]

end Calls

section Results

variable {client : Client}

theorem standing_front (standing : Standing client) (open' : client.hse.state ≠ .done)
    (more : List UInt8) (last : isFinishing client.hse = true → more = []) :
    ofBytes client.out <+: stream 9 3 (tokensFrom (client.taken ++ more) 0) := by
  cases standing with
  | running resting inv =>
      cases more with
      | nil =>
          rw [List.append_nil]
          exact written_front (finish_running resting inv)
      | cons byte rest => exact written_front (inv (byte :: rest) (List.cons_ne_nil _ _))
  | ending inv =>
      rw [last (ending_marked inv), List.append_nil]
      exact written_front inv
  | ended state written => exact absurd state open'

theorem standing_done (standing : Standing client) (state : client.hse.state = .done) :
    client.out = encoding client.taken := by
  cases standing with
  | running resting inv =>
      rw [state] at resting
      exact resting.elim
  | ending inv =>
      obtain ⟨base, spoken, pending, stands⟩ := inv
      have shape := stands.shape
      simp only [Shape, state] at shape
  | ended state written => exact written

/-- No sequence of calls reads or writes outside the encoder's memory or fails to return.
Before the encoder is done its output is a front of the stream of the bytes taken,
whatever may follow them; then it is their encoding, which decodes to them. -/
theorem clients_encode (calls : List ClientCall) :
    ∃ client, runClient calls startClient = .ok client ∧
      (client.hse.state ≠ .done → ∀ more, (isFinishing client.hse = true → more = []) →
        ofBytes client.out <+: stream 9 3 (tokensFrom (client.taken ++ more) 0)) ∧
      (client.hse.state = .done → client.out = encoding client.taken ∧
        (decode 9 3 (ofBytes client.out) (List.replicate 512 0)).drop 512 = client.taken) := by
  obtain ⟨client, run, standing⟩ := standing_run start_standing calls
  refine ⟨client, run, standing_front standing, ?_⟩
  intro state
  have written := standing_done standing state
  exact ⟨written, by rw [written, encoding_decodes]⟩

/-- Behind the end of the input the encoder is done as soon as the output buffers offered
to it hold more than the encoding. -/
theorem clients_end (calls : List ClientCall) (sizes : List Nat) :
    ∃ client last, runClient calls startClient = .ok client ∧
      runClient (calls ++ .finish :: sizes.map .poll) startClient = .ok last ∧
      ((encoding client.taken).length < client.out.length + sizes.sum →
        last.hse.state = .done ∧ last.out = encoding client.taken) := by
  obtain ⟨client, run, standing⟩ := standing_run start_standing calls
  obtain ⟨finished, offered⟩ := standing_finish standing
  obtain ⟨last, polls, taken, after, filled⟩ := standing_polls finished sizes offered
  have same : last.taken = client.taken := taken
  refine ⟨client, last, run, ?_, ?_⟩
  · rw [run_append run, runClient, clientStep, checked_bind, polls]
  · intro enough
    have done : last.hse.state = .done := by
      by_contra open'
      obtain ⟨marked, full⟩ := filled.resolve_left open'
      have front := (standing_front after open' [] (fun _ => rfl)).length_le
      rw [List.append_nil, same, of_bytes_length] at front
      obtain ⟨padding, few, spelled⟩ := of_bytes_pack_all (stream 9 3 (tokensFrom client.taken 0))
      have total := congrArg List.length spelled
      rw [← encoding, of_bytes_length, List.length_append, List.length_replicate] at total
      omega
    refine ⟨done, ?_⟩
    rw [standing_done after done, same]

end Results

end ThingyAccel.HeatshrinkClients
