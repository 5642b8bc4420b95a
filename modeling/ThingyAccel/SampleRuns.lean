import Mathlib.Data.List.Induction
import ThingyAccel.MessagePacking

/-! Runs of `empty_fifo_fn`: any number of calls from the initial globals, with the
messages handed over on the way. -/
namespace ThingyAccel.SampleRuns

open Memory Messages EmptyFifo NextFit MessageSize MessagePacking

/-- A message that was handed over, with the number of the call. -/
structure Entry where
  call : Nat
  flush : Flush
  deriving DecidableEq, Repr

structure SampleRun where
  sampler : Sampler
  log : List Entry
  calls : Nat
  deriving DecidableEq, Repr

def startRun : SampleRun := ⟨initialSampler, [], 0⟩

def messages (log : List Entry) : List Msg := log.map fun entry => entry.flush.message

section Runs

variable (cborEncodeMsg : Msg → Option (List UInt8))

def serveCall (run : SampleRun) (call : Call) : Checked SampleRun := do
  let served ← emptyFifoFn cborEncodeMsg call run.sampler
  .ok ⟨served.sampler, run.log ++ served.flushes.map (Entry.mk run.calls), run.calls + 1⟩

def runCalls (calls : List Call) : Checked SampleRun := calls.foldlM (serveCall cborEncodeMsg) startRun

theorem run_snoc (calls : List Call) (call : Call) :
    runCalls cborEncodeMsg (calls ++ [call]) =
      runCalls cborEncodeMsg calls >>= fun run => serveCall cborEncodeMsg run call := by
  simp [runCalls, List.foldlM_append]

/-- The buffer and the slots as every call leaves them. -/
structure Consistent (st : Sampler) : Prop where
  ready : Ready st.encodeMsgBuf.triples st
  layout : Layout (slots st)

inductive ServesCall (call : Call) (run : SampleRun) : SampleRun → Prop where
  | failed (fails : ¬ Succeeds call) :
      ServesCall call run { run with calls := run.calls + 1 }
  | served {sampler : Sampler} {flushes : List Flush} (succeeds : Succeeds call)
      (held : List.Forall₂ (fun flush closed => Holds flush.message closed) flushes
        (callPacking call run.sampler).1)
      (open' : sampler.encodeMsgBuf.triples = (callPacking call run.sampler).2.items)
      (closed : ∀ bin ∈ (callPacking call run.sampler).1,
        Bounded bin.items ∧ 99 ≤ bin.items.length)
      (stores : FlushRun cborEncodeMsg (slots run.sampler) flushes (slots sampler))
      (timestamp : sampler.encodeMsgBuf.msgTphgTimestamp = call.uptime) :
      ServesCall call run
        ⟨sampler, run.log ++ flushes.map (Entry.mk run.calls), run.calls + 1⟩

variable {cborEncodeMsg}

theorem initial_layout : Layout (slots initialSampler) := by
  have banks : (slots initialSampler).message =
      List.replicate 2 (List.replicate 60 ⟨0, List.replicate 1100 0⟩) := rfl
  refine ⟨Nat.zero_lt_succ 1, Nat.zero_lt_succ 59, ?_, ?_, ?_⟩
  · rw [banks, List.length_replicate]
  · intro bank member
    rw [banks] at member
    rw [List.eq_of_mem_replicate member, List.length_replicate, payloadCount]
  · intro bank member slot inside
    rw [banks] at member
    rw [List.eq_of_mem_replicate member] at inside
    rw [List.eq_of_mem_replicate inside, List.length_replicate]

theorem initial_consistent : Consistent initialSampler := by
  have empty : initialSampler.encodeMsgBuf.triples = [] := List.take_zero
  refine ⟨?_, initial_layout⟩
  rw [empty]
  refine ⟨cleared_length, rfl, empty, rfl, Nat.zero_le _, ?_⟩
  intro xyz member
  exact absurd member List.not_mem_nil

theorem consistent_flagged {st : Sampler} (consistent : Consistent st) (flag : Bool) :
    Consistent { st with sendFlag := flag } :=
  ⟨⟨consistent.ready.storage, consistent.ready.count, rfl, consistent.ready.size,
      consistent.ready.bounded⟩,
    ⟨consistent.layout.bank, consistent.layout.index, consistent.layout.banks,
      consistent.layout.slots, consistent.layout.payloads⟩⟩

theorem serve_call (canonical : CanonicalEncoder cborEncodeMsg) (call : Call) (run : SampleRun)
    (consistent : Consistent run.sampler) :
    ∃ next, serveCall cborEncodeMsg run call = .ok next ∧ Consistent next.sampler ∧
      ServesCall cborEncodeMsg call run next := by
  by_cases succeeds : Succeeds call
  · obtain ⟨served, computed, held, ready, closed, stores, layout, timestamp, -⟩ :=
      call_exact canonical succeeds consistent.ready consistent.layout
    refine ⟨_, ?_, ⟨?_, layout⟩, .served succeeds held ready.front closed stores timestamp⟩
    · rw [serveCall, computed, checked_bind]
    · rw [← ready.front] at ready
      exact ready
  · refine ⟨{ run with calls := run.calls + 1 }, ?_, consistent, .failed succeeds⟩
    rw [serveCall, failed_call succeeds, checked_bind, List.map_nil, List.append_nil]

/-- No run faults, and what holds at the start and is kept by a call holds after
every run. -/
theorem run_induction (canonical : CanonicalEncoder cborEncodeMsg)
    {holds : List Call → SampleRun → Prop} (start : holds [] startRun)
    (step : ∀ calls call run next, runCalls cborEncodeMsg calls = .ok run →
      Consistent run.sampler → holds calls run → ServesCall cborEncodeMsg call run next →
      holds (calls ++ [call]) next) (calls : List Call) :
    ∃ run, runCalls cborEncodeMsg calls = .ok run ∧ Consistent run.sampler ∧ holds calls run := by
  induction calls using List.reverseRecOn with
  | nil => exact ⟨startRun, rfl, initial_consistent, start⟩
  | append_singleton calls call ih =>
      obtain ⟨run, computed, consistent, before⟩ := ih
      obtain ⟨next, serves, consistent', served⟩ := serve_call canonical call run consistent
      refine ⟨next, ?_, consistent', step calls call run next computed consistent before served⟩
      rw [run_snoc, computed, checked_bind, serves]

/-- A call that brings more bytes of triples than a message can hold closes one. -/
theorem heavy_closes {call : Call} {st : Sampler} (light : Bounded (callPacking call st).2.items)
    (heavy : 1017 < load xyzBytes (triplesOf call.fifoGet.2.values)) :
    (callPacking call st).1 ≠ [] := by
  intro none
  have all := @pack_items _ _ Metadata.bytes xyzBytes payloadSize Metadata.cleared
    (opening call st) (triplesOf call.fifoGet.2.values)
  have kept : (callPacking call st).2.items =
      st.encodeMsgBuf.triples ++ triplesOf call.fifoGet.2.values := by
    rw [← show (opening call st).items = st.encodeMsgBuf.triples from rfl, ← all]
    show _ = (callPacking call st).1.flatMap Bin.items ++ _
    rw [none]
    rfl
  have most := light.light
  rw [kept, load_append] at most
  omega

theorem heavy_logged (canonical : CanonicalEncoder cborEncodeMsg) (calls : List Call) {call : Call}
    (succeeds : Succeeds call) (heavy : 1017 < load xyzBytes (triplesOf call.fifoGet.2.values))
    {run : SampleRun} (computed : runCalls cborEncodeMsg (calls ++ [call]) = .ok run) :
    run.log ≠ [] := by
  obtain ⟨before, computed', consistent, -⟩ :=
    @run_induction cborEncodeMsg canonical (fun _ _ => True) trivial
      (fun _ _ _ _ _ _ _ _ => trivial) calls
  obtain ⟨next, serves, consistent', served⟩ := serve_call canonical call before consistent
  rw [run_snoc, computed', checked_bind, serves] at computed
  cases computed
  cases served with
  | failed fails => exact absurd succeeds fails
  | @served sampler flushes _ held open' _ _ _ =>
      have light := consistent'.ready.bounded
      rw [open'] at light
      have closes := heavy_closes light heavy
      intro empty
      have new := List.map_eq_nil_iff.mp (List.append_eq_nil_iff.mp empty).2
      rw [new] at held
      exact closes (List.forall₂_nil_left_iff.mp held)

variable (cborEncodeMsg)

def AtEveryCall (condition : SampleRun → Call → Prop) (calls : List Call) : Prop :=
  ∀ before call after, calls = before ++ call :: after →
    ∀ run, runCalls cborEncodeMsg before = .ok run → condition run call

variable {cborEncodeMsg}

theorem at_every_call_nil (condition : SampleRun → Call → Prop) :
    AtEveryCall cborEncodeMsg condition [] := by
  intro before call after split
  simp at split

theorem at_every_call_snoc {condition : SampleRun → Call → Prop} {calls : List Call} {call : Call}
    {run : SampleRun} (computed : runCalls cborEncodeMsg calls = .ok run) :
    AtEveryCall cborEncodeMsg condition (calls ++ [call]) ↔
      AtEveryCall cborEncodeMsg condition calls ∧ condition run call := by
  constructor
  · intro every
    constructor
    · intro before other after split
      apply every before other (after ++ [call])
      rw [split, List.append_assoc]
      rfl
    · exact every calls call [] rfl run computed
  · rintro ⟨earlier, last⟩
    intro before other after split other' computed'
    -- Either the last call is meant, or a call of the run before it.
    cases after using List.reverseRecOn with
    | nil =>
        obtain ⟨rfl, same⟩ := List.append_inj' split rfl
        cases same
        rw [computed] at computed'
        cases computed'
        exact last
    | append_singleton after final =>
        have shifted : calls ++ [call] = (before ++ other :: after) ++ [final] := by
          rw [split]
          simp
        obtain ⟨front, -⟩ := List.append_inj' shifted rfl
        exact earlier before other after front other' computed'

end Runs

end ThingyAccel.SampleRuns
