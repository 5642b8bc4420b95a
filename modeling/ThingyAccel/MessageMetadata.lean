import ThingyAccel.MessageContents

/-!
Where the metadata of a message comes from. Triples are counted through a whole
run, so that a call contributes to a message when their ranges meet.
-/
namespace ThingyAccel.MessageMetadata

open Memory Messages EmptyFifo NextFit MessageSize MessagePacking SampleRuns MessageContents

def triplesPerCall : Nat := fifoSize / 3

def countsBefore (log : List Entry) (index : Nat) : Nat :=
  ((log.take index).map fun entry => entry.flush.message.msgXyzCount).sum

def Contributes (log : List Entry) (index number : Nat) : Prop :=
  triplesPerCall * number < countsBefore log (index + 1) ∧
    countsBefore log index < triplesPerCall * (number + 1)

def HasReading (message : Msg) (call : Call) : Prop :=
  message.msgTphgTemp = call.temp1.val1 ∧
    message.msgTphgPress = call.press.val1 * 1000 + call.press.val2 / 1000 ∧
    message.msgTphgHum = call.humidity.val1 * 1000 + call.humidity.val2 / 1000

/-- The environment of a message was read by a call that contributes to it or that
hands it over, and its timestamp is the uptime of a call that contributes. -/
structure GenuineEntry (calls : List Call) (log : List Entry) (index : Nat) (entry : Entry) :
    Prop where
  reading : ∃ number call, calls[number]? = some call ∧
    (Contributes log index number ∨ entry.call = number) ∧ HasReading entry.flush.message call
  timestamp : ∃ number call, calls[number]? = some call ∧ Contributes log index number ∧
    entry.flush.message.msgTphgTimestamp = call.uptime

def Genuine (calls : List Call) (log : List Entry) : Prop :=
  ∀ index entry, log[index]? = some entry → GenuineEntry calls log index entry

/-- The first call closes no message and every other call closes one at most. -/
def SingleFlush (run : SampleRun) (call : Call) : Prop :=
  (callPacking call run.sampler).1.length ≤ if run.calls = 0 then 0 else 1

instance (run : SampleRun) (call : Call) : Decidable (SingleFlush run call) :=
  inferInstanceAs (Decidable (_ ≤ _))

section Counts

variable {log : List Entry}

theorem counts_before_append (more : List Entry) {index : Nat} (inside : index ≤ log.length) :
    countsBefore (log ++ more) index = countsBefore log index := by
  rw [countsBefore, List.take_append_of_le_length inside]
  rfl

theorem contributes_append (more : List Entry) {index number : Nat} (inside : index < log.length) :
    Contributes (log ++ more) index number ↔ Contributes log index number := by
  rw [Contributes, Contributes, counts_before_append more (Nat.le_of_lt inside),
    counts_before_append more inside]

theorem counts_before_all (log : List Entry) :
    countsBefore log log.length = (log.map fun entry => entry.flush.message.msgXyzCount).sum := by
  rw [countsBefore, List.take_length]

theorem counts_before_flushes (log : List Entry) (flushes : List Flush) (number : Nat) :
    countsBefore (log ++ flushes.map (Entry.mk number))
        (log ++ flushes.map (Entry.mk number)).length =
      countsBefore log log.length + (flushes.map fun flush => flush.message.msgXyzCount).sum := by
  rw [counts_before_all, counts_before_all, List.map_append, List.sum_append, List.map_map]
  rfl

theorem flush_counts {flushes : List Flush} {bins : List MessageBin}
    (held : List.Forall₂ (fun flush closed => Holds flush.message closed) flushes bins) :
    (flushes.map fun flush => flush.message.msgXyzCount).sum = (bins.flatMap Bin.items).length := by
  induction held with
  | nil => rfl
  | cons head _ ih =>
      rw [List.map_cons, List.sum_cons, List.flatMap_cons, List.length_append, head.count, ih]

theorem triples_of_length (accel : List Int16) : (triplesOf accel).length = accel.length / 3 := by
  induction accel using triplesOf.induct with
  | case1 x y z rest ih =>
      simp only [triplesOf, List.length_cons, ih]
      omega
  | case2 accel short =>
      rcases accel with - | ⟨x, - | ⟨y, - | ⟨z, rest⟩⟩⟩
      · rfl
      · simp [triplesOf]
      · simp [triplesOf]
      · exact (short x y z rest rfl).elim

theorem packing_counts (call : Call) (st : Sampler) :
    ((callPacking call st).1.flatMap Bin.items).length + (callPacking call st).2.items.length =
      st.encodeMsgBuf.triples.length + triplesPerCall := by
  have kept := congrArg List.length (@pack_items _ _ Metadata.bytes xyzBytes payloadSize
    Metadata.cleared (opening call st) (triplesOf call.fifoGet.2.values))
  rw [List.length_append, List.length_append, triples_of_length, call.fifoGet.2.count] at kept
  exact kept

end Counts

section Metadata

variable {cborEncodeMsg : Msg → Option (List UInt8)} {calls : List Call} {call : Call}
  {run : SampleRun}

theorem genuine_append {log : List Entry} (genuine : Genuine calls log) (more : List Entry)
    (later : List Call) {index : Nat} {entry : Entry} (present : log[index]? = some entry) :
    GenuineEntry (calls ++ later) (log ++ more) index entry := by
  have inside : index < log.length := (List.getElem?_eq_some_iff.mp present).1
  have extends' {number : Nat} {call : Call} (found : calls[number]? = some call) :
      (calls ++ later)[number]? = some call := by
    rw [List.getElem?_append_left (List.getElem?_eq_some_iff.mp found).1]
    exact found
  obtain ⟨⟨number, call, found, source, reads⟩, ⟨number', call', found', contributes, stamped⟩⟩ :=
    genuine index entry present
  constructor
  · exact ⟨number, call, extends' found,
      source.imp_left (contributes_append more inside).mpr, reads⟩
  · exact ⟨number', call', extends' found', (contributes_append more inside).mpr contributes, stamped⟩

/-- The labels of the bins that a call closes: its own reading with the timestamp
of the buffer first, cleared metadata after. -/
theorem closed_labels {first : MessageBin} {later : List MessageBin}
    (closed : (callPacking call run.sampler).1 = first :: later) :
    first.label = callLabel call run.sampler ∧
      run.sampler.encodeMsgBuf.triples.length ≤ first.items.length ∧
      ∀ bin ∈ later, bin.label = Metadata.cleared := by
  obtain ⟨head, others, sequence, label, ⟨taken, grown⟩, -, fresh⟩ := pack_sequence fresh_fits
    (opening call run.sampler) (triplesOf call.fifoGet.2.values)
  have front : (callPacking call run.sampler).1 ++ [(callPacking call run.sampler).2] =
      head :: others := sequence
  rw [closed, List.cons_append] at front
  obtain ⟨rfl, rfl⟩ := List.cons.inj front
  refine ⟨label, ?_, ?_⟩
  · rw [grown, List.length_append]
    exact Nat.le_add_right _ _
  · intro bin member
    exact (fresh bin (List.mem_append_left _ member)).1

structure Tracked (cborEncodeMsg : Msg → Option (List UInt8)) (calls : List Call)
    (run : SampleRun) : Prop where
  number : run.calls = calls.length
  total : countsBefore run.log run.log.length + run.sampler.encodeMsgBuf.triples.length =
    triplesPerCall * calls.length
  open' : calls ≠ [] → run.sampler.encodeMsgBuf.triples ≠ []
  timestamp : run.sampler.encodeMsgBuf.msgTphgTimestamp =
    (calls.getLast?.map Call.uptime).getD 0
  verdict : (AtEveryCall cborEncodeMsg SingleFlush calls ∧ Genuine calls run.log) ∨
    ¬ AtEveryCall cborEncodeMsg SingleFlush calls ∧
      ∃ message ∈ messages run.log, message.msgTphgTimestamp = 0

theorem tracked_start : Tracked cborEncodeMsg [] startRun := by
  refine ⟨rfl, rfl, fun present => absurd rfl present, rfl, Or.inl ⟨at_every_call_nil _, ?_⟩⟩
  intro index entry present
  cases present

theorem late_message {flushes : List Flush} (tracked : Tracked cborEncodeMsg calls run)
    (held : List.Forall₂ (fun flush closed => Holds flush.message closed) flushes
      (callPacking call run.sampler).1)
    (late : ¬ SingleFlush run call) :
    ∃ flush ∈ flushes, flush.message.msgTphgTimestamp = 0 := by
  cases closed : (callPacking call run.sampler).1 with
  | nil =>
      rw [SingleFlush, closed] at late
      exact absurd (Nat.zero_le _) late
  | cons first later =>
      obtain ⟨label, -, cleared⟩ := closed_labels closed
      cases later with
      | nil =>
          -- A single message is late only in the first call, which finds the buffer cleared.
          have initial : run.calls = 0 := by
            by_contra earlier
            apply late
            rw [SingleFlush, closed, if_neg earlier]
            exact Nat.le_refl 1
          have empty : calls = [] := by
            apply List.eq_nil_of_length_eq_zero
            rw [← tracked.number, initial]
          have stamp := tracked.timestamp
          rw [empty] at stamp
          obtain ⟨flush, member, holds⟩ := bin_flush held first (by rw [closed]; simp)
          refine ⟨flush, member, ?_⟩
          have same := congrArg Metadata.timestamp (holds.label.trans label)
          exact same.trans stamp
      -- Every message behind the first has the cleared metadata.
      | cons second rest =>
          obtain ⟨flush, member, holds⟩ := bin_flush held second (by rw [closed]; simp)
          refine ⟨flush, member, ?_⟩
          have same := congrArg Metadata.timestamp
            (holds.label.trans (cleared second List.mem_cons_self))
          exact same

/-- The one message of a later call: its triples begin in the call before, whose
uptime it has, and the environment is the call's own. -/
theorem single_message {flush : Flush} {first : MessageBin}
    (tracked : Tracked cborEncodeMsg calls run) (holds : Holds flush.message first)
    (closed : (callPacking call run.sampler).1 = [first]) (later : calls ≠ []) :
    GenuineEntry (calls ++ [call]) (run.log ++ [⟨run.calls, flush⟩]) run.log.length
      ⟨run.calls, flush⟩ := by
  obtain ⟨label, grown, -⟩ := closed_labels closed
  have same := holds.label.trans label
  have total := tracked.total
  have some' := List.length_pos_iff.mpr (tracked.open' later)
  have many := List.length_pos_iff.mpr later
  have after : countsBefore (run.log ++ [⟨run.calls, flush⟩]) (run.log.length + 1) =
      countsBefore run.log run.log.length + first.items.length := by
    have whole := counts_before_flushes run.log [flush] run.calls
    simpa [holds.count] using whole
  have before := counts_before_append [⟨run.calls, flush⟩] (Nat.le_refl run.log.length)
  constructor
  · refine ⟨calls.length, call, by simp, Or.inr tracked.number, ?_⟩
    exact ⟨congrArg Metadata.temp same, congrArg Metadata.press same, congrArg Metadata.hum same⟩
  -- The open triples come from the call before, which set the timestamp.
  · refine ⟨calls.length - 1, calls.getLast later, ?_, ⟨?_, ?_⟩, ?_⟩
    · rw [List.getElem?_append_left (by omega), ← List.getLast?_eq_getElem?]
      exact List.getLast?_eq_some_getLast later
    · rw [after]
      simp only [triplesPerCall, fifoSize] at total ⊢
      omega
    · rw [before]
      simp only [triplesPerCall, fifoSize] at total ⊢
      omega
    · have stamp := tracked.timestamp
      rw [List.getLast?_eq_some_getLast later] at stamp
      exact (congrArg Metadata.timestamp same).trans stamp

theorem new_message {flushes : List Flush} {index : Nat} {entry : Entry}
    (tracked : Tracked cborEncodeMsg calls run)
    (held : List.Forall₂ (fun flush closed => Holds flush.message closed) flushes
      (callPacking call run.sampler).1)
    (single : SingleFlush run call) (beyond : ¬ index < run.log.length)
    (present : (flushes.map (Entry.mk run.calls))[index - run.log.length]? = some entry) :
    GenuineEntry (calls ++ [call]) (run.log ++ flushes.map (Entry.mk run.calls)) index entry := by
  cases closed : (callPacking call run.sampler).1 with
  | nil =>
      rw [closed] at held
      cases held
      cases present
  | cons first rest =>
      rw [SingleFlush, closed] at single
      have later : run.calls ≠ 0 := by
        intro initial
        rw [if_pos initial] at single
        exact absurd single (Nat.not_succ_le_zero _)
      rw [if_neg later] at single
      have alone : rest = [] := by
        apply List.eq_nil_of_length_eq_zero
        exact Nat.le_zero.mp (Nat.le_of_succ_le_succ single)
      rw [closed, alone] at held
      rw [alone] at closed
      cases held with
      | @cons flush _ _ _ holds none =>
          cases none
          have here : index - run.log.length < 1 := (List.getElem?_eq_some_iff.mp present).1
          have last : index = run.log.length := by omega
          rw [last, Nat.sub_self] at present
          cases present
          rw [last]
          apply single_message tracked holds closed
          intro empty
          rw [tracked.number, empty] at later
          exact later rfl

theorem tracked_step {next : SampleRun} (computed : runCalls cborEncodeMsg calls = .ok run)
    (tracked : Tracked cborEncodeMsg calls run) (succeeds : Succeeds call)
    (serves : ServesCall cborEncodeMsg call run next) :
    Tracked cborEncodeMsg (calls ++ [call]) next := by
  cases serves with
  | failed fails => exact absurd succeeds fails
  | @served sampler flushes _ held open' closed stores timestamp =>
      refine ⟨?_, ?_, ?_, ?_, ?_⟩
      · rw [tracked.number, List.length_append]
        rfl
      · have total := tracked.total
        have packing := packing_counts call run.sampler
        have counts := flush_counts held
        have grown := counts_before_flushes run.log flushes run.calls
        have calls' : (calls ++ [call]).length = calls.length + 1 := List.length_append
        rw [calls', Nat.mul_succ, open', grown, counts]
        omega
      · intro _
        rw [open']
        exact pack_open fresh_fits _ (samples_present call.fifoGet.2)
      · rw [timestamp, List.getLast?_concat]
        rfl
      · rcases tracked.verdict with ⟨every, genuine⟩ | ⟨broken, message, member, zero⟩
        · by_cases single : SingleFlush run call
          · refine Or.inl ⟨(at_every_call_snoc computed).mpr ⟨every, single⟩, ?_⟩
            intro index entry present
            -- An old message stays genuine; a new one is the single message of the call.
            by_cases inside : index < run.log.length
            · rw [List.getElem?_append_left inside] at present
              exact genuine_append genuine _ [call] present
            · rw [List.getElem?_append_right (Nat.le_of_not_lt inside)] at present
              exact new_message tracked held single inside present
          · refine Or.inr ⟨fun all => single ((at_every_call_snoc computed).mp all).2, ?_⟩
            obtain ⟨flush, member, zero⟩ := late_message tracked held single
            refine ⟨flush.message, ?_, zero⟩
            rw [messages_append]
            exact List.mem_append_right _ (List.mem_map_of_mem member)
        · refine Or.inr ⟨fun all => broken ((at_every_call_snoc computed).mp all).1, ?_⟩
          refine ⟨message, ?_, zero⟩
          rw [messages_append]
          exact List.mem_append_left _ member

theorem metadata_run (canonical : CanonicalEncoder cborEncodeMsg) (calls : List Call)
    (succeed : ∀ call ∈ calls, Succeeds call) :
    ∃ run, runCalls cborEncodeMsg calls = .ok run ∧ Tracked cborEncodeMsg calls run := by
  obtain ⟨run, computed, -, tracked⟩ := @run_induction cborEncodeMsg canonical
    (fun calls run => (∀ call ∈ calls, Succeeds call) → Tracked cborEncodeMsg calls run)
    (fun _ => tracked_start)
    (by
      intro calls call run next computed _ earlier serves succeed
      have before : ∀ call ∈ calls, Succeeds call := fun other member =>
        succeed other (List.mem_append_left _ member)
      exact tracked_step computed (earlier before)
        (succeed call (List.mem_append_right _ (List.mem_singleton.mpr rfl))) serves)
    calls
  exact ⟨run, computed, tracked succeed⟩

theorem zero_not_genuine {log : List Entry} (positive : ∀ call ∈ calls, 0 < call.uptime)
    (zero : ∃ message ∈ messages log, message.msgTphgTimestamp = 0) : ¬ Genuine calls log := by
  intro genuine
  obtain ⟨message, member, stamp⟩ := zero
  obtain ⟨entry, inside, rfl⟩ := List.mem_map.mp member
  obtain ⟨index, present⟩ := List.mem_iff_getElem?.mp inside
  obtain ⟨number, call, found, -, same⟩ := (genuine index entry present).timestamp
  have later := positive call (List.mem_of_getElem? found)
  rw [← same, stamp] at later
  exact absurd later (by decide)

/-- The metadata is genuine exactly when the first call hands over no message and
no other call more than one. -/
theorem metadata_genuine_iff (canonical : CanonicalEncoder cborEncodeMsg) (calls : List Call)
    (succeed : ∀ call ∈ calls, Succeeds call) (positive : ∀ call ∈ calls, 0 < call.uptime) :
    ∃ run, runCalls cborEncodeMsg calls = .ok run ∧
      (Genuine calls run.log ↔ AtEveryCall cborEncodeMsg SingleFlush calls) := by
  obtain ⟨run, computed, tracked⟩ := metadata_run canonical calls succeed
  refine ⟨run, computed, ?_⟩
  rcases tracked.verdict with ⟨every, genuine⟩ | ⟨broken, zero⟩
  · exact iff_of_true genuine every
  · exact iff_of_false (zero_not_genuine positive zero) broken

def lively : Call := indoorCall 60000 (steadySamples 300 300 300)

theorem metadata_genuine_iff_lively :
    CanonicalEncoder (checkedEncoder 1200) ∧ (∀ call ∈ [lively], Succeeds call) ∧
      (∀ call ∈ [lively], 0 < call.uptime) ∧
      ∃ run, runCalls (checkedEncoder 1200) [lively] = .ok run ∧
        (Genuine [lively] run.log ↔ AtEveryCall (checkedEncoder 1200) SingleFlush [lively]) :=
  ⟨checked_encoder_canonical 1200, by decide, by decide,
    metadata_genuine_iff (checked_encoder_canonical 1200) [lively] (by decide) (by decide)⟩

/-- The message that the first call hands over has timestamp zero. -/
theorem first_call_not_genuine :
    ∃ run, runCalls (checkedEncoder 1200) [lively] = .ok run ∧ ¬ Genuine [lively] run.log := by
  obtain ⟨run, computed, tracked⟩ :=
    metadata_run (checked_encoder_canonical 1200) [lively] (by decide)
  refine ⟨run, computed, ?_⟩
  have broken : ¬ AtEveryCall (checkedEncoder 1200) SingleFlush [lively] := by
    intro every
    have single := every [] lively [] rfl startRun rfl
    exact absurd single (by decide +kernel)
  rcases tracked.verdict with ⟨every, _⟩ | ⟨_, zero⟩
  · exact absurd every broken
  · exact zero_not_genuine (by decide) zero

end Metadata

end ThingyAccel.MessageMetadata
