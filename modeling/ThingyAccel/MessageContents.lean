import Mathlib.Data.List.Forall2
import ThingyAccel.SampleRuns

/-!
What the messages of a run hold: their size field, their encoded length, and the
metadata that goes out with them.
-/
namespace ThingyAccel.MessageContents

open Memory Messages EmptyFifo NextFit MessageSize MessagePacking SampleRuns

section Messages

variable {cborEncodeMsg : Msg → Option (List UInt8)} {call : Call} {run : SampleRun}

theorem related_member {α β : Type} {relation : α → β → Prop} {left : List α} {right : List β}
    (related : List.Forall₂ relation left right) :
    ∀ item ∈ left, ∃ other ∈ right, relation item other := by
  induction related with
  | nil =>
      intro item member
      exact absurd member List.not_mem_nil
  | cons head _ ih =>
      intro item member
      rcases List.mem_cons.mp member with rfl | member
      · exact ⟨_, List.mem_cons_self, head⟩
      · obtain ⟨other, inside, holds⟩ := ih item member
        exact ⟨other, List.mem_cons_of_mem _ inside, holds⟩

theorem flush_bin {flushes : List Flush} {bins : List MessageBin}
    (held : List.Forall₂ (fun flush closed => Holds flush.message closed) flushes bins) :
    ∀ flush ∈ flushes, ∃ bin ∈ bins, Holds flush.message bin := related_member held

theorem bin_flush {flushes : List Flush} {bins : List MessageBin}
    (held : List.Forall₂ (fun flush closed => Holds flush.message closed) flushes bins) :
    ∀ bin ∈ bins, ∃ flush ∈ flushes, Holds flush.message bin :=
  related_member (@List.Forall₂.flip _ _
    (fun (bin : MessageBin) (flush : Flush) => Holds flush.message bin) _ _ held)

theorem messages_append (log : List Entry) (flushes : List Flush) (number : Nat) :
    messages (log ++ flushes.map (Entry.mk number)) =
      messages log ++ flushes.map Flush.message := by
  simp [messages, Function.comp_def]

theorem closed_length {input : Msg} {bin : MessageBin} (holds : Holds input bin)
    (range : Bounded bin.items ∧ 99 ≤ bin.items.length) :
    (encodeMsg input).length = bin.bytes :=
  canonical_length holds (Nat.le_trans (by decide) range.2) (bounded_count range.1)

theorem repeated_values_length (count : Nat) (x y z : Int16) :
    (List.replicate count [x, y, z]).flatten.length = 3 * count := by
  induction count with
  | zero => rfl
  | succ count ih =>
      rw [List.replicate_succ, List.flatten_cons, List.length_append, ih, Nat.mul_succ, Nat.add_comm]
      rfl

def indoorCall (uptime : UInt64) (samples : Samples) : Call :=
  { uptime := uptime, sampleFetch := 0, fifoGet := (0, samples), temp1 := ⟨25, 0⟩
    press := ⟨101, 325000⟩, humidity := ⟨45, 0⟩, memory := fun _ => (true, true) }

def steadySamples (x y z : Int16) : Samples :=
  ⟨(List.replicate 170 [x, y, z]).flatten, repeated_values_length 170 x y z⟩

/-- A first call that leaves 1010 bytes of triples open. -/
def brimmingCall : Call :=
  indoorCall 70000
    ⟨(List.replicate 160 [24, 24, 0]).flatten ++ (List.replicate 10 [24, 0, 0]).flatten,
      by rw [List.length_append, repeated_values_length, repeated_values_length]; rfl⟩

/-- The call behind it, whose message has the uptime of the first call. -/
def followingCall : Call := indoorCall 75000 (steadySamples 24 24 0)

/-- The size field of every message handed over is the length of its canonical
encoding. -/
theorem size_estimate_exact (canonical : CanonicalEncoder cborEncodeMsg) (calls : List Call) :
    ∃ run, runCalls cborEncodeMsg calls = .ok run ∧
      ∀ message ∈ messages run.log, message.size = (encodeMsg message).length := by
  obtain ⟨run, computed, -, sized⟩ := @run_induction cborEncodeMsg canonical
    (fun _ run => ∀ message ∈ messages run.log, message.size = (encodeMsg message).length)
    (fun message member => absurd member List.not_mem_nil)
    (by
      intro calls call run next _ _ earlier serves
      cases serves with
      | failed _ => exact earlier
      | served _ held _ closed _ _ =>
          intro message member
          rw [messages_append] at member
          rcases List.mem_append.mp member with old | new
          · exact earlier message old
          · obtain ⟨flush, inside, rfl⟩ := List.mem_map.mp new
            obtain ⟨bin, member', holds⟩ := flush_bin held flush inside
            rw [holds.size, closed_length holds (closed bin member')])
    calls
  exact ⟨run, computed, sized⟩

theorem size_estimate_exact_brimming :
    CanonicalEncoder (checkedEncoder 1200) ∧
      ∃ run, runCalls (checkedEncoder 1200) [brimmingCall, followingCall] = .ok run ∧
        run.log ≠ [] ∧ ∀ message ∈ messages run.log, message.size = (encodeMsg message).length := by
  have canonical := checked_encoder_canonical 1200
  obtain ⟨run, computed, sized⟩ := size_estimate_exact canonical [brimmingCall, followingCall]
  refine ⟨canonical, run, computed, ?_, sized⟩
  exact heavy_logged canonical [brimmingCall] (by decide : Succeeds followingCall)
    (by decide +kernel) computed

end Messages

section Limit

variable {cborEncodeMsg : Msg → Option (List UInt8)} {call : Call} {run : SampleRun}

/-- The open triples leave room for the metadata that the call puts in. -/
def LeavesRoom (run : SampleRun) (call : Call) : Prop :=
  Succeeds call → run.sampler.encodeMsgBuf.size + (callLabel call run.sampler).bytes ≤ payloadSize

theorem fresh_fits (xyz : MsgXyz) : Metadata.cleared.bytes + xyzBytes xyz ≤ payloadSize := by
  have most := (xyz_bytes_range xyz).2
  rw [cleared_bytes, payloadSize]
  omega

theorem samples_present (samples : Samples) : triplesOf samples.values ≠ [] := by
  intro empty
  have long := samples.count
  match values : samples.values, long with
  | [], long => cases long
  | [x], long => cases long
  | [x, y], long => cases long
  | x :: y :: z :: rest, _ =>
      rw [values] at empty
      cases empty

theorem opening_bytes (consistent : Consistent run.sampler) (call : Call) :
    (opening call run.sampler).bytes =
      run.sampler.encodeMsgBuf.size + (callLabel call run.sampler).bytes := by
  rw [consistent.ready.size, MessageBin.bytes, Bin.weight, opening, Nat.add_comm]

theorem closed_within_iff (consistent : Consistent run.sampler) (call : Call) :
    (∀ bin ∈ (callPacking call run.sampler).1, bin.bytes ≤ payloadSize) ↔
      run.sampler.encodeMsgBuf.size + (callLabel call run.sampler).bytes ≤ payloadSize := by
  rw [← opening_bytes consistent call]
  constructor
  · intro within
    by_contra above
    exact above (within _ (pack_over (Nat.lt_of_not_le above) (samples_present call.fifoGet.2)))
  · intro fits bin member
    obtain ⟨first, later, sequence, -, -, light, others⟩ := pack_sequence fresh_fits
      (opening call run.sampler) (triplesOf call.fifoGet.2.values)
    have inside : bin ∈ first :: later := by
      rw [← sequence]
      exact List.mem_append_left _ member
    rcases List.mem_cons.mp inside with rfl | inside
    · rcases light with rfl | light
      · exact fits
      · exact light
    · exact (others bin inside).2.2

def WithinLimit (log : List Entry) : Prop :=
  ∀ message ∈ messages log, (encodeMsg message).length ≤ payloadSize

theorem limit_run (canonical : CanonicalEncoder cborEncodeMsg) (calls : List Call) :
    ∃ run, runCalls cborEncodeMsg calls = .ok run ∧ Consistent run.sampler ∧
      (WithinLimit run.log ↔ AtEveryCall cborEncodeMsg LeavesRoom calls) := by
  refine @run_induction cborEncodeMsg canonical
    (fun calls run => WithinLimit run.log ↔ AtEveryCall cborEncodeMsg LeavesRoom calls) ?_ ?_ calls
  · constructor
    · intro _
      exact at_every_call_nil _
    · intro _ message member
      exact absurd member List.not_mem_nil
  · intro calls call run next computed consistent earlier serves
    rw [at_every_call_snoc computed, ← earlier]
    cases serves with
    | failed fails =>
        constructor
        · intro within
          exact ⟨within, fun succeeds => absurd succeeds fails⟩
        · rintro ⟨within, _⟩
          exact within
    | served succeeds held _ closed _ _ =>
        have step := closed_within_iff consistent call
        simp only [WithinLimit, messages_append, List.forall_mem_append]
        apply and_congr_right'
        constructor
        · intro within _
          apply step.mp
          intro bin member
          obtain ⟨flush, inside, holds⟩ := bin_flush held bin member
          rw [← closed_length holds (closed bin member)]
          exact within _ (List.mem_map_of_mem inside)
        · intro room message member
          obtain ⟨flush, inside, rfl⟩ := List.mem_map.mp member
          obtain ⟨bin, member', holds⟩ := flush_bin held flush inside
          rw [closed_length holds (closed bin member')]
          exact step.mpr (room succeeds) bin member'

/-- The size limit is kept exactly in the runs in which no call finds more triples
open than its own metadata leaves room for. -/
theorem size_limit_iff (canonical : CanonicalEncoder cborEncodeMsg) (calls : List Call) :
    ∃ run, runCalls cborEncodeMsg calls = .ok run ∧
      (WithinLimit run.log ↔ AtEveryCall cborEncodeMsg LeavesRoom calls) := by
  obtain ⟨run, computed, -, limit⟩ := limit_run canonical calls
  exact ⟨run, computed, limit⟩

theorem size_limit_iff_brimming :
    CanonicalEncoder (checkedEncoder 1200) ∧
      ∃ run, runCalls (checkedEncoder 1200) [brimmingCall, followingCall] = .ok run ∧
        (WithinLimit run.log ↔
          AtEveryCall (checkedEncoder 1200) LeavesRoom [brimmingCall, followingCall]) :=
  ⟨checked_encoder_canonical 1200,
    size_limit_iff (checked_encoder_canonical 1200) [brimmingCall, followingCall]⟩

theorem quiet_call {next : SampleRun} (serves : ServesCall cborEncodeMsg call run next)
    (succeeds : Succeeds call)
    (room : (opening call run.sampler).bytes + load xyzBytes (triplesOf call.fifoGet.2.values) ≤
      payloadSize) :
    next.sampler.encodeMsgBuf.triples =
        run.sampler.encodeMsgBuf.triples ++ triplesOf call.fifoGet.2.values ∧
      next.sampler.encodeMsgBuf.msgTphgTimestamp = call.uptime := by
  cases serves with
  | failed fails => exact absurd succeeds fails
  | served _ _ open' _ _ timestamp =>
      have packing := @pack_all _ _ _ _ _ Metadata.cleared _ _ room
      refine ⟨?_, timestamp⟩
      rw [open', callPacking, packed, packing]
      rfl

theorem following_metadata_over_limit :
    ∃ run, runCalls (checkedEncoder 1200) [brimmingCall, followingCall] = .ok run ∧
      ∃ message ∈ messages run.log, payloadSize < (encodeMsg message).length := by
  have canonical := checked_encoder_canonical 1200
  obtain ⟨run, computed, consistent, limit⟩ := limit_run canonical [brimmingCall, followingCall]
  refine ⟨run, computed, ?_⟩
  by_contra none
  have within : WithinLimit run.log := by
    intro message member
    by_contra above
    exact none ⟨message, member, Nat.lt_of_not_le above⟩
  obtain ⟨first, serves, consistent', served⟩ :=
    serve_call canonical brimmingCall startRun initial_consistent
  have single : runCalls (checkedEncoder 1200) [brimmingCall] = .ok first := by
    have start : runCalls (checkedEncoder 1200) [] = .ok startRun := rfl
    rw [← List.nil_append [brimmingCall], run_snoc, start, checked_bind, serves]
  have room := limit.mp within [brimmingCall] followingCall [] rfl first single (by decide)
  obtain ⟨triples, timestamp⟩ := quiet_call served (by decide) (by decide +kernel)
  have size : first.sampler.encodeMsgBuf.size = 1010 := by
    rw [consistent'.ready.size, triples]
    decide +kernel
  have label : callLabel followingCall first.sampler = ⟨70000, 25, 101325, 45000⟩ := by
    rw [callLabel, startMessage, metadata]
    simp only [timestamp]
    decide
  rw [size, label] at room
  exact absurd room (by decide)

end Limit

end ThingyAccel.MessageContents
