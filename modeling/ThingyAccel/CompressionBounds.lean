import ThingyAccel.HeatshrinkCompression

/-!
The length that `heatshrink_compression` returns against the bytes its polls have
written, and the bounds it keeps while it runs.
-/
namespace ThingyAccel.CompressionBounds

open Memory HeatshrinkEncoder HeatshrinkRounds HeatshrinkPauses HeatshrinkCompression Executions

def outputBytes : Option Compression → Nat
  | none => 0
  | some run => sumOver bytesWritten run.calls

/-- The wrapper returns no more than its polls have written, and so no more than it
was given. -/
def ReportsWritten (encoderMemory indexMemory : Bool) (input output : List UInt8) : Prop :=
  ∃ run result, compressionRun encoderMemory indexMemory input output = .ok run ∧
    heatshrinkCompression encoderMemory indexMemory input output = .ok result ∧
    result.1 ≤ outputBytes run ∧ result.1 ≤ input.length

section Runs

variable {input : List UInt8}

theorem unallocated {encoderMemory indexMemory : Bool} (input output : List UInt8)
    (missing : ¬ (encoderMemory = true ∧ indexMemory = true)) :
    compressionRun encoderMemory indexMemory input output = .ok none ∧
      heatshrinkCompression encoderMemory indexMemory input output = .ok (0, output) := by
  have none' : compressionRun encoderMemory indexMemory input output = .ok none := by
    rw [compressionRun, alloc_exact, if_neg (by simpa using missing)]
  refine ⟨none', ?_⟩
  rw [heatshrinkCompression, none', checked_bind]

theorem returned_polled {encoderMemory indexMemory : Bool} {output : List UInt8}
    {run : Compression}
    (computed : compressionRun encoderMemory indexMemory input output = .ok (some run)) :
    heatshrinkCompression encoderMemory indexMemory input output = .ok (run.polled, run.output) := by
  rw [heatshrinkCompression, computed, checked_bind]

/-- The returned length is too large exactly when a poll has asked for room that is
not there: the count of the poll before it is added once more. -/
theorem reports_written_iff (encoderMemory indexMemory : Bool) (input output : List UInt8)
    (positive : 1 ≤ input.length) (small : input.length ≤ 1200) :
    ReportsWritten encoderMemory indexMemory input output ↔
      encoderMemory = false ∨ indexMemory = false ∨ Settles input := by
  by_cases allocated : encoderMemory = true ∧ indexMemory = true
  · obtain ⟨rfl, rfl⟩ := allocated
    obtain ⟨run, computed, ended⟩ := compression_ended positive small output
    have returns := returned_polled computed
    constructor
    · rintro ⟨run', result, same, same', reported, -⟩
      rw [computed] at same
      rw [returns] at same'
      cases same
      cases same'
      rcases ended.returns with ⟨settles, -⟩ | ⟨-, more⟩
      · exact Or.inr (Or.inr settles)
      · exact absurd reported (Nat.not_le_of_lt more)
    · rintro (impossible | impossible | settles)
      · cases impossible
      · cases impossible
      · obtain ⟨out, inside, recorded⟩ := ended.recorded
        rcases ended.returns with ⟨-, exact'⟩ | ⟨unsettled, -⟩
        · refine ⟨some run, _, computed, returns, Nat.le_of_eq exact', ?_⟩
          rw [exact', recorded.written]
          exact inside
        · exact absurd settles unsettled
  · obtain ⟨computed, returns⟩ := unallocated input output allocated
    constructor
    · intro _
      cases encoderMemory with
      | false => exact Or.inl rfl
      | true =>
          cases indexMemory with
          | false => exact Or.inr (Or.inl rfl)
          | true => exact absurd ⟨rfl, rfl⟩ allocated
    · intro _
      exact ⟨none, (0, output), computed, returns, Nat.le_refl 0, Nat.zero_le _⟩

theorem reports_written_iff_single :
    1 ≤ [(0x2a : UInt8)].length ∧ [(0x2a : UInt8)].length ≤ 1200 ∧
      (ReportsWritten true true [0x2a] [] ↔ true = false ∨ true = false ∨ Settles [0x2a]) :=
  ⟨by decide, by decide, reports_written_iff true true [0x2a] [] (by decide) (by decide)⟩

theorem eight_bytes_overreported : ¬ ReportsWritten true true [1, 2, 3, 4, 5, 6, 7, 8] [] := by
  rintro ⟨run, result, -, returns, -, inside⟩
  have sixteen : heatshrinkCompression true true [1, 2, 3, 4, 5, 6, 7, 8] [] =
      .ok (16, [128, 192, 160, 112, 72, 44, 26, 15]) := by
    decide +kernel
  rw [sixteen] at returns
  cases returns
  exact absurd inside (by decide)

end Runs

section Bounds

theorem taken_inside {inputLen : Nat} {calls : List EncoderCall}
    (inside : AtEvery (CallInside inputLen) calls) : sumOver bytesTaken calls ≤ inputLen := by
  induction calls using List.reverseRecOn with
  | nil => exact Nat.zero_le _
  | append_singleton earlier call ih =>
      have before : AtEvery (CallInside inputLen) earlier := by
        intro front other later split
        exact inside front other (later ++ [call]) (by rw [split]; simp)
      have bound := ih before
      have here := inside earlier call [] rfl
      rw [sum_over_snoc]
      cases call with
      | sink res offered bytes =>
          obtain ⟨-, left, count, same, -, few⟩ := here
          rw [same, bytesTaken, Option.getD_some]
          omega
      | poll res offset room bytes => exact bound

/-- A finished run: every call was inside, the input was not taken beyond its end, the
memory behind as many bytes of output is untouched, and the encoder has gone through
the calls alone. -/
structure StaysInside (input output : List UInt8) (run : Compression) : Prop where
  calls : AtEvery (CallInside input.length) run.calls
  sunk : run.sunk = sumOver bytesTaken run.calls ∧ run.sunk ≤ input.length
  behind : ∀ index, input.length ≤ index → run.output[index]? = output[index]?
  encodes : Encodes freshEncoder run.hse

theorem recorded_inside {input output out : List UInt8} {run : Compression}
    (recorded : Recorded input output run out) (encodes : Encodes freshEncoder run.hse) :
    StaysInside input output run :=
  ⟨recorded.calls, ⟨recorded.taken.symm, recorded.taken ▸ taken_inside recorded.calls⟩,
    recorded.behind, encodes⟩

section Encoders

variable {start : Encoder} {input : List UInt8} {run next : Compression}

theorem encoder_loop_encodes (fuel : Nat) {hse hse' : Encoder} {oi oi' : OutputInfo} {res : PollRes}
    (before : Encodes start hse)
    (loops : HeatshrinkEncoder.pollLoop fuel hse oi = .ok (res, hse', oi')) :
    Encodes start hse' := by
  induction fuel generalizing hse oi with
  | zero => cases loops
  | succ fuel ih =>
      obtain ⟨⟨returned, stepped, after⟩, rounds, later⟩ := bind_ok.mp loops
      have reached := Encodes.round before rounds
      cases returned with
      | some last =>
          cases later
          exact reached
      | none =>
          simp only at later
          split at later
          · cases later
            exact reached
          · exact ih reached later

theorem poll_encodes {hse hse' : Encoder} {size : Nat} {res : PollRes} {bytes : Option (List UInt8)}
    (before : Encodes start hse) (polls : heatshrinkEncoderPoll hse size = .ok (res, hse', bytes)) :
    Encodes start hse' := by
  rw [heatshrinkEncoderPoll] at polls
  split at polls
  · cases polls
    exact before
  · obtain ⟨⟨last, reached, after⟩, loops, same⟩ := bind_ok.mp polls
    cases same
    exact encoder_loop_encodes _ before loops

theorem poll_loop_encodes (fuel : Nat) (before : Encodes start run.hse)
    (loops : HeatshrinkCompression.pollLoop input.length fuel run = .ok next) :
    Encodes start next.hse := by
  induction fuel generalizing run with
  | zero => cases loops
  | succ fuel ih =>
      obtain ⟨⟨pres, hse, bytes⟩, polls, later⟩ := bind_ok.mp loops
      have reached := poll_encodes before polls
      simp only at later
      split at later
      · exact ih reached later
      · cases later
        exact reached

theorem finish_encodes (before : Encodes start run.hse) :
    Encodes start (finishAtEnd input.length run).hse := by
  rw [finishAtEnd]
  split
  · exact .finish before
  · exact before

theorem sink_loop_encodes (fuel : Nat) (before : Encodes start run.hse)
    (loops : sinkLoop input fuel run = .ok next) : Encodes start next.hse := by
  induction fuel generalizing run with
  | zero => cases loops
  | succ fuel ih =>
      rw [sinkLoop] at loops
      split at loops
      · obtain ⟨sunk, sinks, later⟩ := bind_ok.mp loops
        obtain ⟨⟨res, hse, taken⟩, takes, same⟩ := bind_ok.mp sinks
        cases same
        obtain ⟨polled, polls, rest⟩ := bind_ok.mp later
        have reached := poll_loop_encodes 2 (finish_encodes (.sink before takes)) polls
        split at rest
        · cases rest
          exact reached
        · exact ih (finish_encodes reached) rest
      · cases loops
        exact before

def freshRun (output : List UInt8) : Compression :=
  { hse := freshEncoder, sunk := 0, polled := 0, count := 0, output := output, calls := [] }

theorem run_encodes {output : List UInt8}
    (computed : compressionRun true true input output = .ok (some run)) :
    Encodes freshEncoder run.hse := by
  simp only [compressionRun, alloc_exact, Bool.and_self, ↓reduceIte] at computed
  obtain ⟨last, loops, same⟩ := bind_ok.mp computed
  cases same
  exact sink_loop_encodes _ .start loops

end Encoders

theorem fresh_sized : Sized freshEncoder :=
  ⟨List.length_replicate, Nat.zero_le 1024⟩

/-- Both loops end without an access outside the window or the search index, every sink
succeeds and makes progress, and no byte is written beyond the allowance. -/
theorem compression_inside (encoderMemory indexMemory : Bool) (input output : List UInt8)
    (small : input.length ≤ 1200) :
    (∃ run, compressionRun encoderMemory indexMemory input output = .ok run ∧
      ∀ done, run = some done → StaysInside input output done) ∧
      ∀ fresh hse, heatshrinkEncoderAlloc 9 3 encoderMemory indexMemory = some fresh →
        Encodes fresh hse → Sized hse := by
  constructor
  · by_cases allocated : encoderMemory = true ∧ indexMemory = true
    · obtain ⟨rfl, rfl⟩ := allocated
      rcases Nat.eq_zero_or_pos input.length with empty | positive
      · -- Nothing is sunk and nothing polled.
        have computed : compressionRun true true input output = .ok (some (freshRun output)) := by
          rw [compressionRun, alloc_exact]
          simp only [Bool.and_self, ↓reduceIte, sinkLoop, empty, Nat.lt_irrefl, checked_bind]
          rfl
        refine ⟨some (freshRun output), computed, ?_⟩
        intro done same
        cases same
        exact ⟨at_every_nil, ⟨rfl, Nat.zero_le _⟩, fun _ _ => rfl, .start⟩
      · obtain ⟨run, computed, ended⟩ := compression_ended positive small output
        obtain ⟨out, -, recorded⟩ := ended.recorded
        refine ⟨some run, computed, ?_⟩
        intro done same
        cases same
        exact recorded_inside recorded (run_encodes computed)
    · refine ⟨none, (unallocated input output allocated).1, ?_⟩
      intro done same
      cases same
  · intro fresh hse allocated reached
    rw [alloc_exact] at allocated
    split at allocated
    · cases allocated
      exact encodes_sized fresh_sized reached
    · cases allocated

theorem compression_inside_eight :
    [(1 : UInt8), 2, 3, 4, 5, 6, 7, 8].length ≤ 1200 ∧
      (∃ run, compressionRun true true [1, 2, 3, 4, 5, 6, 7, 8] [] = .ok run ∧
        ∀ done, run = some done → StaysInside [1, 2, 3, 4, 5, 6, 7, 8] [] done) ∧
      ∀ fresh hse, heatshrinkEncoderAlloc 9 3 true true = some fresh →
        Encodes fresh hse → Sized hse :=
  ⟨by decide, compression_inside true true [1, 2, 3, 4, 5, 6, 7, 8] [] (by decide)⟩

end Bounds

end ThingyAccel.CompressionBounds
