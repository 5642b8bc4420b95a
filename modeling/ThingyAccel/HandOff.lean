import ThingyAccel.Executions
import ThingyAccel.MessageMetadata
import ThingyAccel.SampleConservation
import ThingyAccel.WorkQueue

/-!
The two banks between `empty_fifo_fn` on the system queue and `coap_send_fn` on
the networking queue, under any interleaving of sampling calls and upload runs.
-/
namespace ThingyAccel.HandOff

open Memory Messages EmptyFifo NextFit MessageSize MessagePacking SampleRuns MessageContents
  MessageMetadata SampleConservation WorkQueue

inductive Event where
  | written (bank index : Nat)
  | completed (bank : Nat)
  | picked (bank : Nat)
  | sent (bank index : Nat)
  | returned (bank : Nat)
  deriving DecidableEq, Repr

/-- The globals and the work item `coap_send`, whose job is the bank it sends. -/
structure Device where
  sampler : Sampler
  coapSend : WorkItem Nat
  deriving DecidableEq, Repr

def startDevice : Device := ⟨initialSampler, idle⟩

def otherBank (msgIndex : Nat) : Nat := if msgIndex = 1 then 0 else 1

def flushEvents (flush : Flush) : List Event :=
  match flush.stored with
  | none => []
  | some stored =>
      .written stored.bank stored.index ::
        if stored.index + 1 = payloadCount then [.completed stored.bank] else []

section Steps

variable (cborEncodeMsg : Msg → Option (List UInt8)) (allowed : Device → Call → Prop)

/-- One step of either side. An upload run starts by clearing the flag and picking
its bank, transmits slots in any number and order, and returns. -/
inductive Step (device : Device) : List Event → Device → Prop where
  | sample (call : Call) (permitted : allowed device call) {served : Served}
      (serves : emptyFifoFn cborEncodeMsg call device.sampler = .ok served) :
      Step device (served.flushes.flatMap flushEvents)
        ⟨served.sampler, if served.submitted then device.coapSend.submit else device.coapSend⟩
  | start (queued : device.coapSend.queued = true) (ready : device.coapSend.running = none) :
      Step device [.picked (otherBank device.sampler.msgIndex)]
        ⟨{ device.sampler with sendFlag := false },
          device.coapSend.start (otherBank device.sampler.msgIndex)⟩
  | transmit {bank : Nat} (running : device.coapSend.running = some bank) (index : Nat)
      (inside : index < payloadCount) : Step device [.sent bank index] device
  | return' {bank : Nat} (running : device.coapSend.running = some bank) :
      Step device [.returned bank] { device with coapSend := device.coapSend.finish }

inductive Reaches : List Event → Device → Prop where
  | start : Reaches [] startDevice
  | step {trace events : List Event} {device next : Device} (before : Reaches trace device)
      (moves : Step cborEncodeMsg allowed device events next) : Reaches (trace ++ events) next

end Steps

def uploading (trace : List Event) : Option Nat :=
  trace.foldl (fun bank event =>
    match event with
    | .picked picked => some picked
    | .returned _ => none
    | _ => bank) none

/-- How many runs have picked a bank since it was last completed; none when it was
never completed or has been written since. -/
def picksSince (bank : Nat) (trace : List Event) : Option Nat :=
  trace.foldl (fun picks event =>
    match event with
    | .written other _ => if other = bank then none else picks
    | .completed other => if other = bank then some 0 else picks
    | .picked other => if other = bank then picks.map (· + 1) else picks
    | _ => picks) none

/-- A slot is not written while its bank is being sent, nor before exactly one run
has picked the bank that was completed; a run picks a completed bank that no run
has picked. -/
def Safe (earlier : List Event) : Event → Prop
  | .written bank _ => uploading earlier ≠ some bank ∧
      (picksSince bank earlier = none ∨ picksSince bank earlier = some 1)
  | .picked bank => picksSince bank earlier = some 0
  | _ => True

def HandedOver (trace : List Event) : Prop :=
  ∀ earlier event later, trace = earlier ++ event :: later → Safe earlier event

def handOvers (call : Call) (st : Sampler) : Nat :=
  if Succeeds call then (callPacking call st).1.length else 0

/-- The upload keeps pace with a call: while an upload is pending, the call does not
complete a bank; while an upload runs, it completes the other bank at most with its
last message, and hands over nothing once it has turned to the bank being sent. -/
structure KeepsPace (device : Device) (call : Call) : Prop where
  pending : device.coapSend.queued = true →
    device.sampler.collectedAccel + handOvers call device.sampler < payloadCount
  behind : ∀ bank, device.coapSend.running = some bank → bank = device.sampler.msgIndex →
    handOvers call device.sampler = 0
  beside : ∀ bank, device.coapSend.running = some bank → bank ≠ device.sampler.msgIndex →
    device.sampler.collectedAccel + handOvers call device.sampler ≤ payloadCount

section Traces

variable {trace : List Event}

@[simp] theorem uploading_snoc (trace : List Event) (event : Event) :
    uploading (trace ++ [event]) =
      match event with
      | .picked picked => some picked
      | .returned _ => none
      | _ => uploading trace := by
  simp only [uploading, List.foldl_append, List.foldl_cons, List.foldl_nil]

@[simp] theorem picks_since_snoc (bank : Nat) (trace : List Event) (event : Event) :
    picksSince bank (trace ++ [event]) =
      match event with
      | .written other _ => if other = bank then none else picksSince bank trace
      | .completed other => if other = bank then some 0 else picksSince bank trace
      | .picked other =>
          if other = bank then (picksSince bank trace).map (· + 1) else picksSince bank trace
      | _ => picksSince bank trace := by
  simp only [picksSince, List.foldl_append, List.foldl_cons, List.foldl_nil]

theorem handed_over_nil : HandedOver [] := Executions.at_every_nil

theorem handed_over_snoc {event : Event} (handed : HandedOver trace) (safe : Safe trace event) :
    HandedOver (trace ++ [event]) :=
  Executions.at_every_snoc handed safe

theorem other_bank_ne (bank : Nat) : otherBank bank ≠ bank := by
  rw [otherBank]
  split <;> omega

theorem other_bank_twice {bank : Nat} (inside : bank < 2) : otherBank (otherBank bank) = bank := by
  rw [otherBank, otherBank]
  split <;> split <;> omega

end Traces

section Flushes

variable {cborEncodeMsg : Msg → Option (List UInt8)} {running : Option Nat} {state next : Slots}
  {trace : List Event} {flush : Flush}

def Settled (bank : Nat) (trace : List Event) : Prop :=
  picksSince bank trace = none ∨ picksSince bank trace = some 1

/-- The banks between two messages of a call. A raised flag stands for the other
bank, which waits for its upload. -/
structure Banked (running : Option Nat) (state : Slots) (trace : List Event) : Prop where
  handed : HandedOver trace
  layout : Layout state
  uploads : uploading trace = running
  current : Settled state.msgIndex trace
  waiting : state.sendFlag = true → picksSince (otherBank state.msgIndex) trace = some 0
  settled : state.sendFlag = false → Settled (otherBank state.msgIndex) trace

/-- The pace for the messages that a call has still to hand over. -/
structure Pace (running : Option Nat) (state : Slots) (left : Nat) : Prop where
  few : left < payloadCount
  pending : state.sendFlag = true → state.collectedAccel + left < payloadCount
  behind : ∀ bank, running = some bank → bank = state.msgIndex → left = 0
  beside : ∀ bank, running = some bank → bank ≠ state.msgIndex →
    state.collectedAccel + left ≤ payloadCount

theorem banked_event {running' : Option Nat} {event : Event} (banked : Banked running state trace)
    (safe : Safe trace event) (uploads : uploading (trace ++ [event]) = running')
    (picks : ∀ bank, picksSince bank (trace ++ [event]) = picksSince bank trace) :
    Banked running' state (trace ++ [event]) := by
  refine ⟨handed_over_snoc banked.handed safe, banked.layout, uploads, ?_, ?_, ?_⟩
  · rw [Settled, picks]
    exact banked.current
  · rw [picks]
    exact banked.waiting
  · rw [Settled, picks]
    exact banked.settled

theorem banked_store (banked : Banked running state trace) {slot : MessagePayload}
    (payload : slot.payload.length = 1100) (apart : running ≠ some state.msgIndex)
    (inner : state.collectedAccel + 1 ≠ payloadCount) :
    Banked running (state.store slot) (trace ++ [.written state.msgIndex state.collectedAccel]) := by
  have different := other_bank_ne state.msgIndex
  have layout := layout_store banked.layout payload
  have same : (state.store slot).msgIndex = state.msgIndex := if_neg inner
  have flag : (state.store slot).sendFlag = state.sendFlag := if_neg inner
  constructor
  · apply handed_over_snoc banked.handed
    exact ⟨by rw [banked.uploads]; exact apart, banked.current⟩
  · exact layout
  · rw [uploading_snoc]
    exact banked.uploads
  · rw [same]
    left
    simp
  · rw [same, flag, picks_since_snoc]
    simp only [different.symm, ↓reduceIte]
    exact banked.waiting
  · rw [same, flag, Settled, picks_since_snoc]
    simp only [different.symm, ↓reduceIte]
    exact banked.settled

theorem banked_complete (banked : Banked running state trace) {slot : MessagePayload}
    (payload : slot.payload.length = 1100) (apart : running ≠ some state.msgIndex)
    (last : state.collectedAccel + 1 = payloadCount) (lowered : state.sendFlag = false) :
    Banked running (state.store slot)
      (trace ++ [.written state.msgIndex state.collectedAccel] ++ [.completed state.msgIndex]) := by
  have different := other_bank_ne state.msgIndex
  have layout := layout_store banked.layout payload
  have turned : (state.store slot).msgIndex = otherBank state.msgIndex := by
    simp only [Slots.store, last, ↓reduceIte]
    rfl
  have flag : (state.store slot).sendFlag = true := if_pos last
  constructor
  · apply handed_over_snoc
    · apply handed_over_snoc banked.handed
      exact ⟨by rw [banked.uploads]; exact apart, banked.current⟩
    · trivial
  · exact layout
  · rw [uploading_snoc, uploading_snoc]
    exact banked.uploads
  · rw [turned, Settled, picks_since_snoc, picks_since_snoc]
    simp only [different.symm, ↓reduceIte]
    exact banked.settled lowered
  · intro _
    rw [turned, other_bank_twice banked.layout.bank, picks_since_snoc]
    simp
  · intro clear
    rw [flag] at clear
    cases clear

theorem pace_lost {left : Nat} (pace : Pace running state (left + 1)) : Pace running state left := by
  have few := pace.few
  constructor
  · omega
  · intro raised
    have pending := pace.pending raised
    omega
  · intro bank runs same
    exact absurd (pace.behind bank runs same) (Nat.succ_ne_zero _)
  · intro bank runs other
    have beside := pace.beside bank runs other
    omega

theorem pace_store {left : Nat} (pace : Pace running state (left + 1)) (slot : MessagePayload)
    (inner : state.collectedAccel + 1 ≠ payloadCount) : Pace running (state.store slot) left := by
  have few := pace.few
  have same : (state.store slot).msgIndex = state.msgIndex := if_neg inner
  have flag : (state.store slot).sendFlag = state.sendFlag := if_neg inner
  have moved : (state.store slot).collectedAccel = state.collectedAccel + 1 := if_neg inner
  constructor
  · omega
  · intro raised
    rw [flag] at raised
    rw [moved]
    have pending := pace.pending raised
    omega
  · intro bank runs equal
    rw [same] at equal
    exact absurd (pace.behind bank runs equal) (Nat.succ_ne_zero _)
  · intro bank runs other
    rw [same] at other
    rw [moved]
    have beside := pace.beside bank runs other
    omega

theorem pace_complete {left : Nat} (pace : Pace running state (left + 1)) (slot : MessagePayload)
    (last : state.collectedAccel + 1 = payloadCount) : Pace running (state.store slot) left := by
  have few := pace.few
  have restarted : (state.store slot).collectedAccel = 0 := if_pos last
  constructor
  · omega
  · intro _
    rw [restarted]
    omega
  · intro bank runs same
    have distinct : bank ≠ state.msgIndex := fun equal =>
      absurd (pace.behind bank runs equal) (Nat.succ_ne_zero _)
    have beside := pace.beside bank runs distinct
    omega
  · intro bank runs _
    rw [restarted]
    omega

theorem banked_flush {left : Nat} (banked : Banked running state trace)
    (pace : Pace running state (left + 1)) (step : FlushStep cborEncodeMsg state flush next) :
    Banked running next (trace ++ flushEvents flush) ∧ Pace running next left := by
  cases step with
  | failed _ lost =>
      constructor
      · rw [flushEvents, lost]
        simpa using banked
      · exact pace_lost pace
  | @stored bytes memory old slot _ _ _ payload kept =>
      have apart : running ≠ some state.msgIndex := fun runs =>
        absurd (pace.behind _ runs rfl) (Nat.succ_ne_zero _)
      by_cases last : state.collectedAccel + 1 = payloadCount
      · -- A raised flag would leave no room for a whole bank.
        have lowered : state.sendFlag = false := by
          cases raised : state.sendFlag with
          | false => rfl
          | true =>
              have pending := pace.pending raised
              omega
        have events : flushEvents flush =
            [.written state.msgIndex state.collectedAccel] ++ [.completed state.msgIndex] := by
          simp [flushEvents, kept, last]
        constructor
        · rw [events, ← List.append_assoc]
          exact banked_complete banked payload apart last lowered
        · exact pace_complete pace slot last
      · have events : flushEvents flush = [.written state.msgIndex state.collectedAccel] := by
          simp [flushEvents, kept, last]
        constructor
        · rw [events]
          exact banked_store banked payload apart last
        · exact pace_store pace slot last

theorem banked_flushes {flushes : List Flush} {last : Slots} (banked : Banked running state trace)
    (pace : Pace running state flushes.length) (run : FlushRun cborEncodeMsg state flushes last) :
    Banked running last (trace ++ flushes.flatMap flushEvents) := by
  induction run generalizing trace with
  | done state => simpa using banked
  | step first rest ih =>
      obtain ⟨banked', pace'⟩ := banked_flush banked pace first
      rw [List.flatMap_cons, ← List.append_assoc]
      exact ih banked' pace'

theorem flush_run_flag {flushes : List Flush} {last : Slots}
    (run : FlushRun cborEncodeMsg state flushes last) (raised : state.sendFlag = true) :
    last.sendFlag = true := by
  induction run with
  | done state => exact raised
  | step first rest ih =>
      apply ih
      cases first with
      | failed _ _ => exact raised
      | stored _ _ _ _ _ =>
          simp only [Slots.store]
          split
          · rfl
          · exact raised

theorem flagged_served {served : Served} {st : Sampler} {item : WorkItem Nat}
    (flagged : item.queued = st.sendFlag)
    (stores : FlushRun cborEncodeMsg (slots st) served.flushes (slots served.sampler))
    (submitted : served.submitted = served.sampler.sendFlag) :
    (if served.submitted then item.submit else item).queued = served.sampler.sendFlag := by
  cases flag : served.submitted with
  | true => exact flag.symm.trans submitted
  | false =>
      have clear := submitted.symm.trans flag
      show item.queued = served.sampler.sendFlag
      rw [flagged, clear]
      cases raised : st.sendFlag with
      | false => rfl
      | true =>
          have still : served.sampler.sendFlag = true := flush_run_flag stores raised
          rw [clear] at still
          cases still

theorem closed_few {st : Sampler} {call : Call} (consistent : Consistent st)
    (closed : ∀ bin ∈ (callPacking call st).1, Bounded bin.items ∧ 99 ≤ bin.items.length) :
    (callPacking call st).1.length ≤ 4 := by
  have found := bounded_count consistent.ready.bounded
  have counts := packing_counts call st
  have least := load_lower (fun bin : Bin Metadata MsgXyz => bin.items.length) (callPacking call st).1
    fun bin member => (closed bin member).2
  rw [List.length_flatMap] at counts
  simp only [load, triplesPerCall, fifoSize] at least counts
  omega

theorem hand_overs_few (canonical : CanonicalEncoder cborEncodeMsg) {st : Sampler}
    (consistent : Consistent st) (call : Call) : handOvers call st ≤ 4 := by
  rw [handOvers]
  split
  · rename_i succeeds
    obtain ⟨served, -, -, -, closed, -⟩ :=
      call_exact canonical succeeds consistent.ready consistent.layout
    exact closed_few consistent closed
  · exact Nat.zero_le 4

theorem idle_paced (call : Call) {device : Device} (idle' : device.coapSend = idle) :
    KeepsPace device call := by
  constructor
  · intro queued
    rw [idle'] at queued
    cases queued
  · intro bank runs
    rw [idle'] at runs
    cases runs
  · intro bank runs
    rw [idle'] at runs
    cases runs

end Flushes

section Progress

variable {allowed : Device → Call → Prop} {trace : List Event} {device : Device}
  {flushes : List Flush}

structure Progress (allowed : Device → Call → Prop) (device : Device) (trace : List Event)
    (flushes : List Flush) : Prop where
  reached : Reaches (checkedEncoder 1200) allowed trace device
  consistent : Consistent device.sampler
  placed : Placed (checkedEncoder 1200) flushes (slots device.sampler)
  flagged : device.coapSend.queued = device.sampler.sendFlag

theorem progress_start : Progress allowed startDevice [] [] :=
  ⟨.start, initial_consistent, ⟨rfl, rfl, fun index flush present => by cases present⟩, rfl⟩

theorem lively_succeeds : Succeeds lively := by decide

theorem lively_sample (progress : Progress allowed device trace flushes)
    (permitted : allowed device lively) :
    ∃ next new, Progress allowed next (trace ++ new.flatMap flushEvents) (flushes ++ new) ∧
      1 ≤ new.length ∧ new.length ≤ 4 ∧ next.coapSend.running = device.coapSend.running ∧
      (next.coapSend.queued = true ↔ device.coapSend.queued = true ∨
        ∃ k, flushes.length ≤ k ∧ k < flushes.length + new.length ∧ (k + 1) % 60 = 0) := by
  have canonical := checked_encoder_canonical 1200
  have consistent := progress.consistent
  obtain ⟨served, serves, held, ready, closed, stores, layout, -, submitted⟩ :=
    call_exact canonical lively_succeeds consistent.ready consistent.layout
  obtain ⟨placed, raised⟩ := placed_run consistent.layout progress.placed stores
    (flushes_encode canonical (checked_encoder_complete 1200) held closed)
  have few := closed_few consistent closed
  rw [← held.length_eq] at few
  have some' : 1 ≤ served.flushes.length := by
    rw [held.length_eq]
    apply Nat.succ_le_of_lt
    apply List.length_pos_iff.mpr
    -- 170 triples of ten bytes do not fit into one message.
    exact heavy_closes ready.bounded (by decide +kernel)
  have flagged := flagged_served progress.flagged stores submitted
  have ready' : Ready served.sampler.encodeMsgBuf.triples served.sampler := by
    rw [← ready.front] at ready
    exact ready
  refine ⟨_, served.flushes, ⟨.step progress.reached (.sample lively permitted serves),
    ⟨ready', layout⟩, placed, flagged⟩, some', few, ?_, ?_⟩
  · cases served.submitted with
    | true => rfl
    | false => rfl
  · rw [flagged, progress.flagged]
    exact raised

theorem first_bank (left : Nat)
    (permits : ∀ device : Device, device.coapSend = idle → allowed device lively)
    (progress : Progress allowed device (flushes.flatMap flushEvents) flushes)
    (idle' : device.coapSend = idle) (some' : 0 < left) (early : flushes.length + left = 60) :
    ∃ device' flushes', Progress allowed device' (flushes'.flatMap flushEvents) flushes' ∧
      60 ≤ flushes'.length ∧ flushes'.length < 64 ∧ device'.coapSend.queued = true ∧
      device'.coapSend.running = none := by
  induction left using Nat.strongRecOn generalizing device flushes with
  | ind left ih =>
      obtain ⟨next, new, progress', more, few, same, queues⟩ :=
        lively_sample progress (permits device idle')
      rw [← List.flatMap_append] at progress'
      rw [idle'] at same queues
      have long : (flushes ++ new).length = flushes.length + new.length := List.length_append
      by_cases filled : 60 ≤ flushes.length + new.length
      · refine ⟨next, _, progress', by omega, by omega, queues.mpr (Or.inr ?_), same⟩
        exact ⟨59, by omega, by omega, rfl⟩
      · have unqueued : next.coapSend.queued = false := by
          apply Bool.eq_false_iff.mpr
          intro queued
          rcases queues.mp queued with before | ⟨k, low, high, last⟩
          · cases before
          · omega
        have still : next.coapSend = idle := by
          have item : next.coapSend = ⟨next.coapSend.queued, next.coapSend.running⟩ := rfl
          rw [item, unqueued, same]
          rfl
        exact ih (left - new.length) (by omega) progress' still (by omega) (by omega)

theorem first_picked (progress : Progress allowed device trace flushes) (full : 60 ≤ flushes.length)
    (below : flushes.length < 120) (queued : device.coapSend.queued = true)
    (ready : device.coapSend.running = none) :
    Progress allowed ⟨{ device.sampler with sendFlag := false }, device.coapSend.start 0⟩
      (trace ++ [.picked 0]) flushes := by
  have turned : device.sampler.msgIndex = 1 := by
    have placed := progress.placed.bank
    simp only [slots] at placed
    omega
  have bank : otherBank device.sampler.msgIndex = 0 := by
    rw [turned]
    rfl
  have picks := Reaches.step progress.reached (.start queued ready)
  rw [bank] at picks
  have placed := progress.placed
  exact ⟨picks, consistent_flagged progress.consistent false, ⟨placed.bank, placed.index,
    fun index flush present => ⟨(placed.messages index flush present).placed⟩⟩, rfl⟩

theorem progress_transmits (progress : Progress allowed device trace flushes) {bank index : Nat}
    (runs : device.coapSend.running = some bank) (inside : index < payloadCount) :
    Progress allowed device (trace ++ [.sent bank index]) flushes :=
  ⟨.step progress.reached (.transmit runs index inside), progress.consistent, progress.placed,
    progress.flagged⟩

theorem bank_completed (progress : Progress allowed device trace flushes)
    (full : 60 ≤ flushes.length) : Event.completed 0 ∈ flushes.flatMap flushEvents := by
  have present := List.getElem?_eq_getElem (show 59 < flushes.length from full)
  obtain ⟨slot, stored, -⟩ := (progress.placed.messages 59 _ present).placed
  apply List.mem_flatMap.mpr
  refine ⟨_, List.mem_of_getElem? present, ?_⟩
  rw [flushEvents, stored]
  exact List.mem_cons_of_mem _ List.mem_cons_self

theorem beside_written {new : List Flush} (progress : Progress allowed device trace (flushes ++ new))
    (full : 60 ≤ flushes.length) (below : flushes.length < 120) (some' : 1 ≤ new.length) :
    ∃ index, Event.written 1 index ∈ new.flatMap flushEvents := by
  have present := List.getElem?_eq_getElem (show 0 < new.length from some')
  have behind : (flushes ++ new)[flushes.length]? = some new[0] := by
    rw [List.getElem?_append_right (Nat.le_refl _), Nat.sub_self, present]
  obtain ⟨slot, stored, -⟩ := (progress.placed.messages _ _ behind).placed
  have bank : flushes.length / 60 % 2 = 1 := by omega
  rw [bank] at stored
  refine ⟨flushes.length % 60, List.mem_flatMap.mpr ⟨_, List.mem_of_getElem? present, ?_⟩⟩
  rw [flushEvents, stored]
  exact List.mem_cons_self

end Progress

section Runs

variable {cborEncodeMsg : Msg → Option (List UInt8)} {trace events : List Event}
  {device next : Device}

structure Sound (device : Device) (trace : List Event) : Prop where
  consistent : Consistent device.sampler
  banked : Banked device.coapSend.running (slots device.sampler) trace
  flagged : device.coapSend.queued = device.sampler.sendFlag

theorem sound_start : Sound startDevice [] :=
  ⟨initial_consistent, ⟨handed_over_nil, initial_layout, rfl, Or.inl rfl,
    (fun raised => by cases raised), fun _ => Or.inl rfl⟩, rfl⟩

theorem sound_sample (canonical : CanonicalEncoder cborEncodeMsg) (sound : Sound device trace)
    {call : Call} (paced : KeepsPace device call) {served : Served}
    (serves : emptyFifoFn cborEncodeMsg call device.sampler = .ok served) :
    Sound ⟨served.sampler, if served.submitted then device.coapSend.submit else device.coapSend⟩
      (trace ++ served.flushes.flatMap flushEvents) := by
  by_cases succeeds : Succeeds call
  · obtain ⟨served', computed, held, ready, closed, stores, layout, -, submitted⟩ :=
      call_exact canonical succeeds sound.consistent.ready sound.consistent.layout
    rw [serves] at computed
    cases computed
    have number : handOvers call device.sampler = served.flushes.length := by
      rw [handOvers, if_pos succeeds, held.length_eq]
    have few := closed_few sound.consistent closed
    rw [← held.length_eq] at few
    have pace : Pace device.coapSend.running (slots device.sampler) served.flushes.length := by
      refine ⟨Nat.lt_of_le_of_lt few (by decide), ?_, ?_, ?_⟩
      · intro raised
        rw [← number]
        exact paced.pending (sound.flagged.trans raised)
      · intro bank runs same
        rw [← number]
        exact paced.behind bank runs same
      · intro bank runs other
        rw [← number]
        exact paced.beside bank runs other
    refine ⟨⟨?_, layout⟩, ?_, ?_⟩
    · rw [← ready.front] at ready
      exact ready
    · have banked := banked_flushes sound.banked pace stores
      cases served.submitted with
      | true => exact banked
      | false => exact banked
    · exact flagged_served sound.flagged stores submitted
  · rw [failed_call succeeds] at serves
    cases serves
    simpa using sound

theorem sound_step (canonical : CanonicalEncoder cborEncodeMsg) (sound : Sound device trace)
    (moves : Step cborEncodeMsg KeepsPace device events next) : Sound next (trace ++ events) := by
  have banked := sound.banked
  cases moves with
  | sample call paced serves => exact sound_sample canonical sound paced serves
  | start queued ready =>
      -- A queued item means a raised flag, so the other bank waits for this run.
      have raised : (slots device.sampler).sendFlag = true := sound.flagged.symm.trans queued
      have waits := banked.waiting raised
      have different := other_bank_ne device.sampler.msgIndex
      have consistent := consistent_flagged sound.consistent false
      refine ⟨consistent, ⟨?_, consistent.layout, ?_, ?_, ?_, ?_⟩, rfl⟩
      · exact handed_over_snoc banked.handed waits
      · exact uploading_snoc trace _
      · rw [Settled, picks_since_snoc]
        simp only [slots, different, ↓reduceIte]
        exact banked.current
      · intro impossible
        cases impossible
      · intro _
        right
        rw [picks_since_snoc]
        simp only [slots, ↓reduceIte]
        exact congrArg (Option.map (· + 1)) waits
  | transmit running index inside =>
      refine ⟨sound.consistent, banked_event banked trivial ?_ ?_, sound.flagged⟩
      · rw [uploading_snoc]
        exact banked.uploads
      · intro bank
        rw [picks_since_snoc]
  | return' running =>
      refine ⟨sound.consistent, banked_event banked trivial ?_ ?_, sound.flagged⟩
      · rw [uploading_snoc]
        rfl
      · intro bank
        rw [picks_since_snoc]

/-- In every run in which the upload keeps pace, nothing is torn or lost. -/
theorem hand_over_paced (canonical : CanonicalEncoder cborEncodeMsg)
    (run : Reaches cborEncodeMsg KeepsPace trace device) : HandedOver trace := by
  have sound : Sound device trace := by
    induction run with
    | start => exact sound_start
    | step _ moves ih => exact sound_step canonical ih moves
  exact sound.banked.handed

/-- A bank is filled and sent; while it is sent, messages are written to the other one. -/
theorem hand_over_paced_lively :
    ∃ filled beside device, CanonicalEncoder (checkedEncoder 1200) ∧
      Event.completed 0 ∈ filled ∧ (∃ index, Event.written 1 index ∈ beside) ∧
      Reaches (checkedEncoder 1200) KeepsPace
        (filled ++ [.picked 0] ++ [.sent 0 0] ++ beside ++ [.sent 0 1] ++ [.returned 0]) device ∧
      HandedOver
        (filled ++ [.picked 0] ++ [.sent 0 0] ++ beside ++ [.sent 0 1] ++ [.returned 0]) := by
  have canonical := checked_encoder_canonical 1200
  obtain ⟨device, flushes, progress, full, below, queued, ready⟩ :=
    @first_bank KeepsPace startDevice [] 60 (fun _ => idle_paced lively) progress_start rfl
      (by decide) rfl
  have picked := first_picked progress full (by omega) queued ready
  have sends := progress_transmits picked rfl (by decide : 0 < payloadCount)
  -- At most eight messages are in the other bank behind this call.
  have paced : KeepsPace ⟨{ device.sampler with sendFlag := false }, device.coapSend.start 0⟩
      lively := by
    have few := hand_overs_few canonical sends.consistent lively
    have bank : device.sampler.msgIndex = flushes.length / 60 % 2 := sends.placed.bank
    have index : device.sampler.collectedAccel = flushes.length % 60 := sends.placed.index
    constructor
    · intro waits
      cases waits
    · intro bank' runs same
      cases runs
      have impossible : 0 = device.sampler.msgIndex := same
      omega
    · intro bank' runs other
      show device.sampler.collectedAccel + _ ≤ 60
      omega
  obtain ⟨next, new, progress', some', -, same, -⟩ := lively_sample sends paced
  have sends' := progress_transmits progress' same (by decide : 1 < payloadCount)
  have run := Reaches.step sends'.reached (.return' same)
  exact ⟨_, _, _, canonical, bank_completed progress full,
    beside_written progress' full (by omega) some', run, hand_over_paced canonical run⟩

end Runs

section Overrun

/-- No pace is asked for. -/
def Anyhow (_ : Device) (_ : Call) : Prop := True

variable {trace : List Event} {device : Device} {flushes : List Flush}

theorem uploading_flushes (trace : List Event) (flushes : List Flush) :
    uploading (trace ++ flushes.flatMap flushEvents) = uploading trace := by
  induction flushes generalizing trace with
  | nil => simp
  | cons flush rest ih =>
      rw [List.flatMap_cons, ← List.append_assoc, ih]
      cases stored : flush.stored with
      | none => simp [flushEvents, stored]
      | some place =>
          by_cases last : place.index + 1 = payloadCount
          · have events : flushEvents flush =
                [.written place.bank place.index] ++ [.completed place.bank] := by
              simp [flushEvents, stored, last]
            rw [events, ← List.append_assoc, uploading_snoc, uploading_snoc]
          · have events : flushEvents flush = [.written place.bank place.index] := by
              simp [flushEvents, stored, last]
            rw [events, uploading_snoc]

theorem torn_call {new : List Flush} {next : Slots}
    (placed : Placed (checkedEncoder 1200) (flushes ++ new) next) (sends : uploading trace = some 0)
    (before : flushes.length ≤ 120) (past : 120 < flushes.length + new.length) :
    ¬ HandedOver (trace ++ new.flatMap flushEvents) := by
  intro handed
  have inside : 120 - flushes.length < new.length := by omega
  have present : (flushes ++ new)[120]? = some new[120 - flushes.length] := by
    rw [List.getElem?_append_right before, List.getElem?_eq_getElem inside]
  obtain ⟨slot, stored, -⟩ := (placed.messages 120 _ present).placed
  have split : new = new.take (120 - flushes.length) ++
      new[120 - flushes.length] :: new.drop (120 - flushes.length + 1) := by
    rw [← List.drop_eq_getElem_cons inside, List.take_append_drop]
  have first : flushEvents new[120 - flushes.length] = [.written 0 0] := by
    rw [flushEvents, stored]
    rfl
  have safe := handed (trace ++ (new.take (120 - flushes.length)).flatMap flushEvents) (.written 0 0)
    ((new.drop (120 - flushes.length + 1)).flatMap flushEvents) (by
      conv_lhs => rw [split]
      rw [List.flatMap_append, List.flatMap_cons, first, List.append_assoc]
      rfl)
  exact safe.1 (by rw [uploading_flushes, sends])

theorem upload_overrun (left : Nat) (progress : Progress Anyhow device trace flushes)
    (sends : uploading trace = some 0) (early : flushes.length + left = 120) :
    ∃ trace' device', Reaches (checkedEncoder 1200) Anyhow trace' device' ∧
      ¬ HandedOver trace' := by
  induction left using Nat.strongRecOn generalizing device trace flushes with
  | ind left ih =>
      obtain ⟨next, new, progress', more, -, -, -⟩ := lively_sample progress trivial
      have long : (flushes ++ new).length = flushes.length + new.length := List.length_append
      by_cases past : 120 < flushes.length + new.length
      · exact ⟨_, _, progress'.reached, torn_call progress'.placed sends (by omega) past⟩
      · exact ih (left - new.length) (by omega) progress' (by rw [uploading_flushes, sends])
          (by omega)

/-- Sampling goes on while the first upload is still running. -/
theorem hand_over_torn :
    ¬ ∀ trace device, Reaches (checkedEncoder 1200) Anyhow trace device → HandedOver trace := by
  intro every
  obtain ⟨device, flushes, progress, sixty, below, queued, ready⟩ :=
    @first_bank Anyhow startDevice [] 60 (fun _ _ => trivial) progress_start rfl (by decide) rfl
  have picked := first_picked progress sixty (by omega) queued ready
  obtain ⟨trace', device', reached, torn⟩ := upload_overrun (120 - flushes.length) picked
    (uploading_snoc _ _) (by omega)
  exact torn (every trace' device' reached)

end Overrun

end ThingyAccel.HandOff
