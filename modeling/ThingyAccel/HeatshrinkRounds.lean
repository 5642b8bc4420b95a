import ThingyAccel.HeatshrinkPoll

/-!
What the calls of the encoder leave alone, whatever state it is in: the fields that a
yield state keeps, and the sizes of the window buffer and of the search index.
-/
namespace ThingyAccel.HeatshrinkRounds

open Memory HeatshrinkEncoder HeatshrinkOutput HeatshrinkPoll

section Pushes

variable {hse : Encoder} {oi : OutputInfo} {bits : UInt8} {count : Nat}

theorem push_bit_loop_frame {next : Encoder × OutputInfo}
    (run : pushBitLoop bits count hse oi = .ok next) :
    ∃ currentByte bitIndex, next.1 = withByte hse currentByte bitIndex := by
  induction count generalizing hse oi with
  | zero =>
      cases run
      exact ⟨hse.currentByte, hse.bitIndex, rfl⟩
  | succ count ih =>
      simp only [pushBitLoop] at run
      split at run
      · obtain ⟨pushed, -, rest⟩ := bind_ok.mp run
        obtain ⟨currentByte, bitIndex, same⟩ := ih rest
        exact ⟨currentByte, bitIndex, same⟩
      · obtain ⟨currentByte, bitIndex, same⟩ := ih run
        exact ⟨currentByte, bitIndex, same⟩

theorem push_bits_frame {next : Encoder × OutputInfo} (run : pushBits hse count bits oi = .ok next) :
    ∃ currentByte bitIndex, next.1 = withByte hse currentByte bitIndex := by
  rw [pushBits] at run
  split at run
  · obtain ⟨pushed, -, same⟩ := bind_ok.mp run
    cases same
    exact ⟨hse.currentByte, hse.bitIndex, rfl⟩
  · exact push_bit_loop_frame run

theorem push_outgoing_bits_frame {next : Nat × Encoder × OutputInfo}
    (run : pushOutgoingBits hse oi = .ok next) :
    ∃ currentByte bitIndex left,
      next.2.1 = { withByte hse currentByte bitIndex with outgoingBitsCount := left } := by
  simp only [pushOutgoingBits] at run
  by_cases queued : 0 < if 8 < hse.outgoingBitsCount then 8 else hse.outgoingBitsCount
  · rw [if_pos queued] at run
    obtain ⟨pushed, pushes, same⟩ := bind_ok.mp run
    obtain ⟨currentByte, bitIndex, kept⟩ := push_bits_frame pushes
    cases same
    exact ⟨currentByte, bitIndex, _, by rw [kept]⟩
  · rw [if_neg queued] at run
    cases run
    exact ⟨hse.currentByte, hse.bitIndex, hse.outgoingBitsCount, rfl⟩

end Pushes

section Yield

variable {hse next : Encoder} {oi after : OutputInfo}

structure Wrote (hse : Encoder) (oi : OutputInfo) (next : Encoder) : Prop where
  free : canTakeByte oi = true
  frame : frame next = frame hse
  place : next.matchScanIndex + next.matchLength = hse.matchScanIndex + hse.matchLength
  tagged : next.state ≠ .yieldTagBit
  starts : hse.state = .yieldTagBit → Yields next.state
  ends : ¬ Yields next.state → next.state = .search

theorem yield_round (yields : Yields hse.state) (round : pollStep hse oi = .ok (none, next, after)) :
    next = hse ∨ Wrote hse oi next := by
  by_cases free : canTakeByte oi = true
  case neg =>
    rw [yield_waits yields (by simpa using free)] at round
    cases round
    exact Or.inl rfl
  case pos =>
    apply Or.inr
    cases state : hse.state with
    | yieldTagBit =>
        simp only [pollStep, state, stYieldTagBit, free, ↓reduceIte] at round
        split at round
        · obtain ⟨_, wrote, same⟩ := bind_ok.mp round
          obtain ⟨pushed, pushes, moved⟩ := bind_ok.mp wrote
          obtain ⟨currentByte, bitIndex, kept⟩ := push_bits_frame pushes
          cases moved
          cases same
          rw [kept]
          exact ⟨free, rfl, rfl, by simp, fun _ => trivial, fun other => absurd trivial other⟩
        · obtain ⟨_, wrote, same⟩ := bind_ok.mp round
          obtain ⟨pushed, pushes, moved⟩ := bind_ok.mp wrote
          obtain ⟨currentByte, bitIndex, kept⟩ := push_bits_frame pushes
          cases moved
          cases same
          rw [kept]
          exact ⟨free, rfl, rfl, by simp, fun _ => trivial, fun other => absurd trivial other⟩
    | yieldLiteral =>
        simp only [pollStep, state, stYieldLiteral, free, ↓reduceIte] at round
        obtain ⟨_, wrote, same⟩ := bind_ok.mp round
        obtain ⟨pushed, loads, moved⟩ := bind_ok.mp wrote
        obtain ⟨byte, -, pushes⟩ := bind_ok.mp loads
        obtain ⟨currentByte, bitIndex, kept⟩ := push_bits_frame pushes
        cases moved
        cases same
        rw [kept]
        exact ⟨free, rfl, rfl, by simp, fun tag => by simp [state] at tag, fun _ => rfl⟩
    | yieldBrIndex =>
        simp only [pollStep, state, stYieldBrIndex, free, ↓reduceIte] at round
        obtain ⟨_, wrote, same⟩ := bind_ok.mp round
        obtain ⟨pushed, pushes, moved⟩ := bind_ok.mp wrote
        obtain ⟨currentByte, bitIndex, left, kept⟩ := push_outgoing_bits_frame pushes
        split at moved
        · cases moved
          cases same
          rw [kept]
          exact ⟨free, rfl, rfl, by simp, fun _ => trivial, fun other => absurd trivial other⟩
        · cases moved
          cases same
          rw [kept]
          exact ⟨free, rfl, rfl, by simp, fun _ => trivial, fun other => absurd trivial other⟩
    | yieldBrLength =>
        simp only [pollStep, state, stYieldBrLength, free, ↓reduceIte] at round
        obtain ⟨_, wrote, same⟩ := bind_ok.mp round
        obtain ⟨pushed, pushes, moved⟩ := bind_ok.mp wrote
        obtain ⟨currentByte, bitIndex, left, kept⟩ := push_outgoing_bits_frame pushes
        split at moved
        · cases moved
          cases same
          rw [kept]
          exact ⟨free, rfl, rfl, by simp, fun _ => trivial, fun other => absurd trivial other⟩
        · cases moved
          cases same
          rw [kept]
          exact ⟨free, rfl, rfl, by simp, fun tag => by simp [state] at tag, fun _ => rfl⟩
    | notFull | filled | search | saveBacklog | flushBits | done =>
        rw [state] at yields
        exact yields.elim

end Yield

section Sizes

variable {hse next : Encoder} {oi after : OutputInfo}

/-- The window buffer has 1024 bytes, and no entry is written behind the 1024 entries
of the search index. -/
structure Sized (hse : Encoder) : Prop where
  buffer : hse.buffer.length = 1024
  searchIndex : hse.searchIndex.length ≤ 1024

theorem sized_frame (sized : Sized hse) (same : frame next = frame hse) : Sized next := by
  simp only [frame, Prod.mk.injEq] at same
  obtain ⟨-, -, buffer, -, -, index⟩ := same
  exact ⟨by rw [buffer, sized.buffer], by rw [index]; exact sized.searchIndex⟩

theorem write_at_length {region written bytes : List UInt8} {offset : Nat}
    (write : writeAt region offset bytes = .ok written) : written.length = region.length := by
  rw [writeAt] at write
  split at write
  · rename_i inside
    cases write
    exact written_length inside
  · cases write

theorem index_entries_length {data : List UInt8} {remaining position : Nat} {last : UInt8 → Int}
    {entries : List Int} (indexed : indexEntries data remaining position last = .ok entries) :
    entries.length = remaining ∧ (0 < remaining → position + remaining ≤ data.length) := by
  induction remaining generalizing position last entries with
  | zero =>
      cases indexed
      exact ⟨rfl, fun positive => absurd positive (Nat.lt_irrefl 0)⟩
  | succ remaining ih =>
      rw [indexEntries] at indexed
      obtain ⟨value, read, later⟩ := bind_ok.mp indexed
      obtain ⟨rest, rests, same⟩ := bind_ok.mp later
      obtain ⟨count, inside⟩ := ih rests
      cases same
      have here : position < data.length := by
        rw [readAt] at read
        split at read
        · rename_i found
          exact (List.getElem?_eq_some_iff.mp found).1
        · cases read
      refine ⟨by rw [List.length_cons, count], fun _ => ?_⟩
      by_cases more : 0 < remaining
      · have bound := inside more
        omega
      · omega

theorem do_indexing_sized (sized : Sized hse) (indexed : doIndexing hse = .ok next) : Sized next := by
  rw [doIndexing] at indexed
  obtain ⟨entries, loops, same⟩ := bind_ok.mp indexed
  obtain ⟨count, inside⟩ := index_entries_length loops
  cases same
  have room := sized.buffer
  have index := sized.searchIndex
  refine ⟨room, ?_⟩
  simp only [List.length_append, List.length_drop, count]
  by_cases some' : 0 < getInputOffset hse + hse.inputSize
  · have bound := inside some'
    omega
  · omega

theorem search_frame {state : HseState} (searched : stStepSearch hse = .ok (state, next)) :
    frame next = frame hse := by
  simp only [stStepSearch] at searched
  by_cases exhausted : (hse.inputSize : Int) -
      (if isFinishing hse then 1 else getLookaheadSize hse : Nat) < hse.matchScanIndex
  · rw [if_pos exhausted] at searched
    cases searched
    rfl
  · rw [if_neg exhausted] at searched
    obtain ⟨found, -, moved⟩ := bind_ok.mp searched
    split at moved
    · cases moved
      rfl
    · cases moved
      rfl

theorem save_backlog_sized (sized : Sized hse) (saved : saveBacklog hse = .ok next) : Sized next := by
  simp only [saveBacklog] at saved
  split at saved
  · cases saved
  · obtain ⟨buffer, write, same⟩ := bind_ok.mp saved
    cases same
    exact ⟨(write_at_length write).trans sized.buffer, sized.searchIndex⟩

theorem flush_frame {state : HseState} (flushed : stFlushBitBuffer hse oi = .ok (state, next, after)) :
    frame next = frame hse := by
  rw [stFlushBitBuffer] at flushed
  split at flushed
  · cases flushed
    rfl
  · split at flushed
    · obtain ⟨pushed, -, same⟩ := bind_ok.mp flushed
      cases same
      rfl
    · cases flushed
      rfl

theorem poll_step_sized {res : Option PollRes} (sized : Sized hse)
    (round : pollStep hse oi = .ok (res, next, after)) : Sized next := by
  cases state : hse.state with
  | notFull | done =>
      simp only [pollStep, state] at round
      cases round
      exact sized
  | filled =>
      simp only [pollStep, state] at round
      obtain ⟨indexed, indexes, same⟩ := bind_ok.mp round
      have kept := do_indexing_sized sized indexes
      cases same
      exact ⟨kept.buffer, kept.searchIndex⟩
  | search =>
      simp only [pollStep, state] at round
      obtain ⟨searched, searches, same⟩ := bind_ok.mp round
      have kept := sized_frame sized (search_frame searches)
      cases same
      exact ⟨kept.buffer, kept.searchIndex⟩
  | saveBacklog =>
      simp only [pollStep, state, stSaveBacklog] at round
      obtain ⟨_, saves, same⟩ := bind_ok.mp round
      obtain ⟨saved, shifts, moved⟩ := bind_ok.mp saves
      have kept := save_backlog_sized sized shifts
      cases moved
      cases same
      exact ⟨kept.buffer, kept.searchIndex⟩
  | flushBits =>
      simp only [pollStep, state] at round
      obtain ⟨flushed, flushes, same⟩ := bind_ok.mp round
      have kept := sized_frame sized (flush_frame flushes)
      cases same
      exact ⟨kept.buffer, kept.searchIndex⟩
  | yieldTagBit | yieldLiteral | yieldBrIndex | yieldBrLength =>
      have continues : res = none := by
        simp only [pollStep, state] at round
        obtain ⟨wrote, -, same⟩ := bind_ok.mp round
        cases same
        rfl
      rw [continues] at round
      rcases yield_round (by rw [state]; trivial) round with same | wrote
      · rw [same]
        exact sized
      · exact sized_frame sized wrote.frame

theorem sink_sized {input : List UInt8} {size : Nat} {res : SinkRes} {taken : Option Nat}
    (sized : Sized hse) (sinks : heatshrinkEncoderSink hse input size = .ok (res, next, taken)) :
    Sized next := by
  simp only [heatshrinkEncoderSink] at sinks
  split at sinks
  · cases sinks
    exact sized
  · split at sinks
    · cases sinks
      exact sized
    · by_cases short : input.length < if getInputBufferSize hse - hse.inputSize < size then
          getInputBufferSize hse - hse.inputSize else size
      · rw [if_pos short] at sinks
        cases sinks
      · rw [if_neg short] at sinks
        obtain ⟨buffer, write, same⟩ := bind_ok.mp sinks
        cases same
        exact ⟨(write_at_length write).trans sized.buffer, sized.searchIndex⟩

theorem sink_place {input : List UInt8} {size taken : Nat} {res : SinkRes}
    (sinks : heatshrinkEncoderSink hse input size = .ok (res, next, some taken)) :
    next.inputSize = hse.inputSize + taken ∧ next.matchScanIndex = hse.matchScanIndex ∧
      next.matchLength = hse.matchLength := by
  simp only [heatshrinkEncoderSink] at sinks
  split at sinks
  · cases sinks
  · split at sinks
    · cases sinks
    · by_cases short : input.length < if getInputBufferSize hse - hse.inputSize < size then
          getInputBufferSize hse - hse.inputSize else size
      · rw [if_pos short] at sinks
        cases sinks
      · rw [if_neg short] at sinks
        obtain ⟨buffer, -, same⟩ := bind_ok.mp sinks
        cases same
        exact ⟨rfl, rfl, rfl⟩

/-- The encoders that sinks, rounds of the poll loop and finishes lead to. -/
inductive Encodes (start : Encoder) : Encoder → Prop where
  | start : Encodes start start
  | sink {hse next : Encoder} {input : List UInt8} {size : Nat} {res : SinkRes} {taken : Option Nat}
      (before : Encodes start hse)
      (sinks : heatshrinkEncoderSink hse input size = .ok (res, next, taken)) : Encodes start next
  | round {hse next : Encoder} {oi after : OutputInfo} {res : Option PollRes}
      (before : Encodes start hse) (rounds : pollStep hse oi = .ok (res, next, after)) :
      Encodes start next
  | finish {hse : Encoder} (before : Encodes start hse) :
      Encodes start (heatshrinkEncoderFinish hse).2

/-- No sequence of calls changes the size of the buffer or writes behind the index. -/
theorem encodes_sized {start : Encoder} (sized : Sized start) (reached : Encodes start hse) :
    Sized hse := by
  induction reached with
  | start => exact sized
  | sink before sinks ih => exact sink_sized ih sinks
  | round before rounds ih => exact poll_step_sized ih rounds
  | finish before ih => exact ⟨ih.buffer, ih.searchIndex⟩

end Sizes

end ThingyAccel.HeatshrinkRounds
