import ThingyAccel.Delivery
import ThingyAccel.HandOff
import ThingyAccel.SlotReading

/-!
The whole way from the samples to the server: `empty_fifo_fn` on the system queue,
`coap_send_fn` on the networking queue, datagrams that carry the bytes of a slot, and a
server that keeps what it receives.
-/
namespace ThingyAccel.Uplink

open Messages EmptyFifo MessagePacking SampleRuns MessageContents SampleConservation WorkQueue
  HandOff CoapSend CoapRun Executions MessageReading SlotReading
open Delivery (World Request Response Unheard Timely Delivered transmitted replies worldStep)
open HeatshrinkCompression (Fits)
open MessageSize (bounded_count)
open MessageMetadata (lively triples_of_length)

structure Packet where
  request : Request
  slot : MessagePayload
  deriving DecidableEq, Repr

def Packet.place (packet : Packet) : Nat × Nat := (packet.request.run, packet.request.slot)

/-- The globals and the work item of the device, the locals of its upload run, the
datagrams in flight and what the server keeps. Runs are numbered from one; `calls` is a
record for statements. -/
structure Firmware where
  run : SampleRun
  calls : List Call
  coapSend : WorkItem Nat
  sender : Sender
  number : Nat
  packets : List Packet
  responses : List Response
  store : List Packet

def Firmware.device (st : Firmware) : Device := ⟨st.run.sampler, st.coapSend⟩

def Firmware.world (st : Firmware) : World :=
  ⟨st.sender, st.number, st.packets.map Packet.request, st.responses, st.store.map Packet.place⟩

def startFirmware : Firmware :=
  { run := startRun, calls := [], coapSend := idle
    sender := { startSender 0 0 with point := .returned }
    number := 0, packets := [], responses := [], store := [] }

inductive Action where
  | sample (call : Call)
  | start
  | call (answer : Answer)
  | hear (position : Nat)
  | deliver (position : Nat) (created : Bool)
  | loseRequest (position : Nat)
  | loseResponse (position : Nat)
  | finish

/-- The packet of a successful send: the slot `message[t][index]` as it is then. -/
def sent (st : Firmware) (answer : Answer) : Option (List Packet) :=
  if st.sender.point = .send ∧ ¬ answer.sendErr < 0 then
    ((slots st.run.sampler).slotAt st.sender.t st.sender.index).map fun slot =>
      [⟨⟨st.number, st.sender.index, st.sender.confirmable⟩, slot⟩]
  else some []

section Steps

variable (cborEncodeMsg : Msg → Option (List UInt8))

/-- One step of the device, the network or the server. Behind a reset nothing of the
device goes on. -/
def firmwareStep (st : Firmware) : Action → Option Firmware
  | .sample call =>
      match emptyFifoFn cborEncodeMsg call st.run.sampler with
      | .error _ => none
      | .ok served =>
          if st.sender.point = .reset then none
          else some { st with
            run := ⟨served.sampler, st.run.log ++ served.flushes.map (Entry.mk st.run.calls),
              st.run.calls + 1⟩
            calls := st.calls ++ [call]
            coapSend := if served.submitted then st.coapSend.submit else st.coapSend }
  | .start =>
      if st.coapSend.queued = true ∧ st.coapSend.running = none then
        some { st with
          run := { st.run with sampler := { st.run.sampler with sendFlag := false } }
          coapSend := st.coapSend.start (otherBank st.run.sampler.msgIndex)
          sender := startSender st.run.sampler.msgIndex st.sender.conToken
          number := st.number + 1 }
      else none
  | .call answer =>
      if st.coapSend.running.isSome ∧ Unheard answer then
        (sent st answer).map fun new =>
          { st with sender := step st.sender answer, packets := new ++ st.packets }
      else none
  | .hear position =>
      (st.responses[position]?).bind fun response =>
        if st.coapSend.running.isSome ∧ st.sender.point = .recv then
          some { st with
            sender := step st.sender ⟨0, 0, 0, some response.datagram⟩
            responses := st.responses.eraseIdx position }
        else none
  | .deliver position created =>
      (st.packets[position]?).bind fun packet =>
        let store := packet :: st.store
        let received := store.map Packet.place
        if created = true →
            Delivered received packet.request.run (packet.request.slot / 10) then
          some { st with
            packets := st.packets.eraseIdx position
            responses := replies received packet.request created ++ st.responses
            store := store }
        else none
  | .loseRequest position => some { st with packets := st.packets.eraseIdx position }
  | .loseResponse position => some { st with responses := st.responses.eraseIdx position }
  | .finish =>
      if st.coapSend.running.isSome ∧ st.sender.point = .returned then
        some { st with coapSend := st.coapSend.finish }
      else none

end Steps

def Paced (st : Firmware) : Action → Prop
  | .sample call => KeepsPace st.device call
  | _ => True

def Fair (st : Firmware) : Action → Prop
  | .hear position => Timely st.world (.hear position)
  | action => Paced st action

theorem fair_paced {st : Firmware} {action : Action} (fair : Fair st action) : Paced st action := by
  cases action with
  | hear _ => trivial
  | _ => exact fair

def acting : Delivery.Action → Option Action
  | .call answer => some (.call answer)
  | .hear position => some (.hear position)
  | .deliver position created => some (.deliver position created)
  | .loseRequest position => some (.loseRequest position)
  | .loseResponse position => some (.loseResponse position)
  | .nextRun _ => none

section Projection

variable {st : Firmware} {answer : Answer} {new : List Packet}

theorem sent_transmitted (sends : sent st answer = some new) :
    new.map Packet.request = transmitted st.world answer := by
  rw [sent] at sends
  rw [transmitted]
  by_cases succeeds : st.sender.point = .send ∧ ¬ answer.sendErr < 0
  · rw [if_pos succeeds] at sends
    obtain ⟨slot, -, rfl⟩ := Option.map_eq_some_iff.mp sends
    rw [if_pos (show st.world.sender.point = .send ∧ _ from succeeds)]
    rfl
  · rw [if_neg succeeds] at sends
    cases sends
    rw [if_neg (show ¬ (st.world.sender.point = .send ∧ _) from succeeds)]
    rfl

end Projection

section Links

variable {cborEncodeMsg : Msg → Option (List UInt8)} {st : Firmware}

/-- The packet carries the slot that message 60 (run - 1) + slot was stored in. -/
structure Genuine (number : Nat) (log : List Entry) (packet : Packet) : Prop where
  started : 1 ≤ packet.request.run ∧ packet.request.run ≤ number
  slot : packet.request.slot < 60
  stored : ∃ entry place, log[60 * (packet.request.run - 1) + packet.request.slot]? = some entry ∧
    entry.flush.stored = some place ∧ place.slot = packet.slot

/-- Banks, runs and datagrams as long as the upload keeps pace. Run n sends the n-th bank
to be completed, and a completed bank that no run has picked waits as the queued item. -/
structure Linked (cborEncodeMsg : Msg → Option (List UInt8)) (st : Firmware) : Prop where
  consistent : Consistent st.run.sampler
  conserved : Conserved cborEncodeMsg st.calls st.run
  closed : ∀ message ∈ messages st.run.log, Closed message
  flagged : st.coapSend.queued = st.run.sampler.sendFlag
  count : st.run.log.length / 60 = st.number + if st.coapSend.queued then 1 else 0
  sends : ∀ bank, st.coapSend.running = some bank → 1 ≤ st.number ∧ bank = (st.number - 1) % 2 ∧
    st.sender.t = bank ∧ st.run.log.length ≤ 60 * (st.number + 1)
  resting : st.coapSend.running = none → st.sender.point = .returned
  sound : Delivery.Sound st.world
  carried : ∀ packet ∈ st.packets ++ st.store, Genuine st.number st.run.log packet

theorem linked_start : Linked cborEncodeMsg startFirmware where
  consistent := initial_consistent
  conserved := conserved_start
  closed := fun _ member => absurd member List.not_mem_nil
  flagged := rfl
  count := rfl
  sends := fun _ runs => by cases runs
  resting := fun _ => rfl
  sound := ⟨⟨⟨(by decide : 9 ≤ 255), Nat.zero_le 3, Nat.zero_le 6,
      fun active => absurd (Or.inl rfl) active, trivial⟩, Nat.le_refl 9, trivial⟩,
    fun _ member => absurd member List.not_mem_nil, fun _ member => absurd member List.not_mem_nil,
    fun _ member => absurd member List.not_mem_nil⟩
  carried := fun _ member => absurd member List.not_mem_nil

theorem genuine_mono {number later : Nat} {log more : List Entry} {packet : Packet}
    (genuine : Genuine number log packet) (order : number ≤ later) :
    Genuine later (log ++ more) packet := by
  obtain ⟨entry, place, present, stored, same⟩ := genuine.stored
  have inside := (List.getElem?_eq_some_iff.mp present).1
  refine ⟨⟨genuine.started.1, Nat.le_trans genuine.started.2 order⟩, genuine.slot, entry, place, ?_,
    stored, same⟩
  rw [List.getElem?_append_left inside, present]

theorem fills_bank {before added : Nat} :
    (∃ k, before ≤ k ∧ k < before + added ∧ (k + 1) % 60 = 0) ↔ 60 ≤ before % 60 + added := by
  constructor
  · rintro ⟨k, low, high, last⟩
    omega
  · intro full
    exact ⟨before + (59 - before % 60), by omega, by omega, by omega⟩

theorem linked_failed (linked : Linked cborEncodeMsg st) {call : Call} (fails : ¬ Succeeds call) :
    Linked cborEncodeMsg { st with
      run := { st.run with calls := st.run.calls + 1 }, calls := st.calls ++ [call] } where
  consistent := linked.consistent
  conserved := by
    obtain ⟨triples, placed⟩ := linked.conserved
    refine ⟨?_, placed⟩
    rw [List.flatMap_append, ← triples, List.flatMap_singleton, callTriples, if_neg fails,
      List.append_nil]
  closed := linked.closed
  flagged := linked.flagged
  count := linked.count
  sends := linked.sends
  resting := linked.resting
  sound := linked.sound
  carried := linked.carried

theorem linked_sample (canonical : CanonicalEncoder cborEncodeMsg)
    (complete : CompleteEncoder 1200 cborEncodeMsg) (linked : Linked cborEncodeMsg st) {call : Call}
    (paced : KeepsPace st.device call) {served : Served}
    (serves : emptyFifoFn cborEncodeMsg call st.run.sampler = .ok served) :
    Linked cborEncodeMsg { st with
      run := ⟨served.sampler, st.run.log ++ served.flushes.map (Entry.mk st.run.calls),
        st.run.calls + 1⟩
      calls := st.calls ++ [call]
      coapSend := if served.submitted then st.coapSend.submit else st.coapSend } := by
  by_cases succeeds : Succeeds call
  · obtain ⟨served', computed, held, ready, closed, stores, layout, timestamp, submitted⟩ :=
      call_exact canonical succeeds linked.consistent.ready linked.consistent.layout
    rw [serves] at computed
    cases computed
    have few := closed_few linked.consistent closed
    rw [← held.length_eq] at few
    have number : handOvers call st.device.sampler = served.flushes.length :=
      (if_pos succeeds).trans held.length_eq.symm
    have long : (st.run.log ++ served.flushes.map (Entry.mk st.run.calls)).length =
        st.run.log.length + served.flushes.length := by
      rw [List.length_append, List.length_map]
    have bank : st.device.sampler.msgIndex = st.run.log.length / 60 % 2 := by
      have placed := linked.conserved.placed.bank
      rwa [List.length_map] at placed
    have index : st.device.sampler.collectedAccel = st.run.log.length % 60 := by
      have placed := linked.conserved.placed.index
      rwa [List.length_map] at placed
    have raised : served.sampler.sendFlag = true ↔
        st.run.sampler.sendFlag = true ∨ 60 ≤ st.run.log.length % 60 + served.flushes.length := by
      have flag := (placed_run linked.consistent.layout linked.conserved.placed stores
        (flushes_encode canonical complete held closed)).2
      rw [List.length_map, fills_bank] at flag
      exact flag
    have pending : st.coapSend.queued = true →
        st.run.log.length % 60 + served.flushes.length < 60 := by
      intro queued
      have room := paced.pending queued
      rwa [number, index] at room
    have queued : (if served.submitted then st.coapSend.submit else st.coapSend).queued =
        served.sampler.sendFlag := by
      rw [submitted]
      cases flag : served.sampler.sendFlag with
      | true => rfl
      | false =>
          show st.coapSend.queued = false
          rw [linked.flagged]
          cases before : st.run.sampler.sendFlag with
          | false => rfl
          | true =>
              rw [raised.mpr (Or.inl before)] at flag
              cases flag
    have running : (if served.submitted then st.coapSend.submit else st.coapSend).running =
        st.coapSend.running := by
      split <;> rfl
    have serving : ServesCall cborEncodeMsg call st.run ⟨served.sampler,
        st.run.log ++ served.flushes.map (Entry.mk st.run.calls), st.run.calls + 1⟩ :=
      .served succeeds held ready.front closed stores timestamp
    constructor
    · refine ⟨?_, layout⟩
      rw [← ready.front] at ready
      exact ready
    · exact conserved_step canonical complete linked.consistent linked.conserved serving
    · intro message member
      rw [messages_append] at member
      rcases List.mem_append.mp member with old | new
      · exact linked.closed message old
      · obtain ⟨flush, inside, rfl⟩ := List.mem_map.mp new
        obtain ⟨bin, member', holds⟩ := flush_bin held flush inside
        exact ⟨bin, holds, closed bin member'⟩
    · exact queued
    · -- A bank is completed only while none waits.
      have count := linked.count
      simp only [queued, long]
      cases before : st.coapSend.queued with
      | true =>
          have room := pending before
          have still := raised.mpr (Or.inl (linked.flagged.symm.trans before))
          rw [before] at count
          rw [still]
          simp only [↓reduceIte] at count ⊢
          omega
      | false =>
          have clear : ¬ st.run.sampler.sendFlag = true := by
            rw [← linked.flagged, before]
            exact Bool.false_ne_true
          rw [before] at count
          simp only [Bool.false_eq_true, ↓reduceIte] at count
          by_cases full : 60 ≤ st.run.log.length % 60 + served.flushes.length
          · rw [raised.mpr (Or.inr full)]
            simp only [↓reduceIte]
            omega
          · have lowered : served.sampler.sendFlag = false := by
              cases flag : served.sampler.sendFlag with
              | false => rfl
              | true => exact absurd (raised.mp flag) (not_or.mpr ⟨clear, full⟩)
            rw [lowered]
            simp only [Bool.false_eq_true, ↓reduceIte]
            omega
    · intro other runs
      rw [running] at runs
      obtain ⟨some', same, sends, room⟩ := linked.sends other runs
      refine ⟨some', same, sends, ?_⟩
      show (st.run.log ++ served.flushes.map (Entry.mk st.run.calls)).length ≤ 60 * (st.number + 1)
      have count := linked.count
      rw [long]
      -- Behind a waiting bank nothing is handed over, beside the run's bank one bank at most.
      cases before : st.coapSend.queued with
      | true =>
          rw [before] at count
          simp only [↓reduceIte] at count
          have still := paced.behind other runs (by rw [bank, same]; omega)
          rw [number] at still
          omega
      | false =>
          rw [before] at count
          simp only [Bool.false_eq_true, ↓reduceIte] at count
          have beside := paced.beside other runs (by rw [bank, same]; omega)
          rw [number, index, payloadCount] at beside
          omega
    · intro runs
      rw [running] at runs
      exact linked.resting runs
    · exact linked.sound
    · intro packet member
      exact genuine_mono (linked.carried packet member) (Nat.le_refl _)
  · rw [failed_call succeeds] at serves
    cases serves
    simpa using linked_failed linked succeeds

theorem linked_picked (linked : Linked cborEncodeMsg st) (queued : st.coapSend.queued = true) :
    Linked cborEncodeMsg { st with
      run := { st.run with sampler := { st.run.sampler with sendFlag := false } }
      coapSend := st.coapSend.start (otherBank st.run.sampler.msgIndex)
      sender := startSender st.run.sampler.msgIndex st.sender.conToken
      number := st.number + 1 } := by
  have count := linked.count
  rw [queued] at count
  simp only [↓reduceIte] at count
  have bank : st.run.sampler.msgIndex = st.run.log.length / 60 % 2 := by
    have placed := linked.conserved.placed.bank
    rwa [List.length_map] at placed
  have other : otherBank st.run.sampler.msgIndex = st.number % 2 := by
    rw [otherBank, bank]
    split <;> omega
  constructor
  · exact consistent_flagged linked.consistent false
  · obtain ⟨triples, placed⟩ := linked.conserved
    exact ⟨triples, placed.bank, placed.index, fun index flush present =>
      ⟨(placed.messages index flush present).placed⟩⟩
  · exact linked.closed
  · rfl
  · exact count
  · intro picked runs
    cases runs
    have sends : (startSender st.run.sampler.msgIndex st.sender.conToken).t =
        otherBank st.run.sampler.msgIndex := rfl
    refine ⟨Nat.le_add_left 1 st.number, other, sends, ?_⟩
    show st.run.log.length ≤ 60 * (st.number + 1 + 1)
    omega
  · intro runs
    cases runs
  · exact ⟨Delivery.steady_start _ _, linked.sound.slots, linked.sound.small, linked.sound.truthful⟩
  · intro packet member
    have genuine := @genuine_mono _ _ _ [] _ (linked.carried packet member) (Nat.le_succ st.number)
    rwa [List.append_nil] at genuine

theorem moved_bank {run next : Sender} {answer : Answer} (moved : Moved run answer next) :
    next.t = run.t := by
  have entered (other : Sender) : (enterBlock other).t = other.t := by
    rw [enterBlock]
    split <;> rfl
  cases moved with
  | rejected => exact entered run
  | incomplete => exact entered _
  | advance => exact entered _
  | _ => rfl

theorem sending_index (linked : Linked cborEncodeMsg st) (sending : st.sender.point = .send) :
    st.sender.index < 60 := by
  have steady := linked.sound.steady
  have point : st.world.sender.point = .send := sending
  have inside := (kept_inside steady.kept steady.last).1 point
  have block := (steady.kept.active (active_at point (by decide) (by decide))).1
  have below : st.world.sender.index = st.sender.index := rfl
  omega

/-- The slot that is sent still has the message that the run's bank was completed with. -/
theorem sent_genuine (linked : Linked cborEncodeMsg st) {bank : Nat}
    (runs : st.coapSend.running = some bank) {answer : Answer} {new : List Packet}
    (sends : sent st answer = some new) : ∀ packet ∈ new, Genuine st.number st.run.log packet := by
  intro packet member
  obtain ⟨some', same, bank', room⟩ := linked.sends bank runs
  have count := linked.count
  rw [sent] at sends
  split at sends
  · rename_i sending
    obtain ⟨slot, found, rfl⟩ := Option.map_eq_some_iff.mp sends
    cases List.mem_singleton.mp member
    have index := sending_index linked sending.1
    obtain ⟨k, position⟩ : ∃ k, 60 * (st.number - 1) + st.sender.index = k := ⟨_, rfl⟩
    have written : k < st.run.log.length := by
      split at count <;> omega
    have present := List.getElem?_eq_getElem written
    obtain ⟨stored, places, -, there⟩ :=
      (linked.conserved.placed.messages k st.run.log[k].flush (by simp [present])).placed
    have kept := there (by rw [List.length_map]; omega)
    have where' : k / 60 % 2 = st.sender.t ∧ k % 60 = st.sender.index := by
      rw [bank', same]
      omega
    rw [where'.1, where'.2, found] at kept
    refine ⟨⟨some', Nat.le_refl _⟩, index, st.run.log[k], _, ?_, places, (Option.some.inj kept).symm⟩
    rw [position]
    exact present
  · cases sends
    cases member

theorem linked_call (linked : Linked cborEncodeMsg st) {bank : Nat}
    (runs : st.coapSend.running = some bank) {answer : Answer} (unheard : Unheard answer)
    {new : List Packet} (sends : sent st answer = some new) :
    Linked cborEncodeMsg { st with
      sender := step st.sender answer, packets := new ++ st.packets } where
  consistent := linked.consistent
  conserved := linked.conserved
  closed := linked.closed
  flagged := linked.flagged
  count := linked.count
  sends := by
    intro other runs'
    obtain ⟨some', same, bank', room⟩ := linked.sends other runs'
    exact ⟨some', same, (moved_bank (step_moved st.sender answer)).trans bank', room⟩
  resting := fun idle => by rw [runs] at idle; cases idle
  sound := by
    have sound := Delivery.sound_call linked.sound unheard
    rw [← sent_transmitted sends] at sound
    simpa only [Firmware.world, List.map_append] using sound
  carried := by
    intro packet member
    rw [List.append_assoc] at member
    rcases List.mem_append.mp member with fresh | old
    · exact sent_genuine linked runs sends packet fresh
    · exact linked.carried packet old

theorem linked_hear (linked : Linked cborEncodeMsg st) {bank : Nat}
    (runs : st.coapSend.running = some bank) {position : Nat} {response : Response}
    (found : st.responses[position]? = some response) :
    Linked cborEncodeMsg { st with
      sender := step st.sender ⟨0, 0, 0, some response.datagram⟩
      responses := st.responses.eraseIdx position } where
  consistent := linked.consistent
  conserved := linked.conserved
  closed := linked.closed
  flagged := linked.flagged
  count := linked.count
  sends := by
    intro other runs'
    obtain ⟨some', same, bank', room⟩ := linked.sends other runs'
    exact ⟨some', same, (moved_bank (step_moved st.sender _)).trans bank', room⟩
  resting := fun idle => by rw [runs] at idle; cases idle
  sound := Delivery.sound_hear linked.sound found
  carried := linked.carried

theorem linked_deliver (linked : Linked cborEncodeMsg st) {position : Nat} {packet : Packet}
    (found : st.packets[position]? = some packet) {created : Bool}
    (whole : created = true → Delivered ((packet :: st.store).map Packet.place)
      packet.request.run (packet.request.slot / 10)) :
    Linked cborEncodeMsg { st with
      packets := st.packets.eraseIdx position
      responses :=
        replies ((packet :: st.store).map Packet.place) packet.request created ++ st.responses
      store := packet :: st.store } where
  consistent := linked.consistent
  conserved := linked.conserved
  closed := linked.closed
  flagged := linked.flagged
  count := linked.count
  sends := linked.sends
  resting := linked.resting
  sound := by
    have request : st.world.requests[position]? = some packet.request := by
      simp [Firmware.world, found]
    have sound := Delivery.sound_deliver linked.sound request whole
    simp only [Firmware.world, List.eraseIdx_map] at sound
    exact sound
  carried := by
    intro other member
    apply linked.carried other
    rcases List.mem_append.mp member with flying | kept
    · exact List.mem_append_left _ (List.mem_of_mem_eraseIdx flying)
    · rcases List.mem_cons.mp kept with rfl | old
      · exact List.mem_append_left _ (List.mem_of_getElem? found)
      · exact List.mem_append_right _ old

theorem linked_step (canonical : CanonicalEncoder cborEncodeMsg)
    (complete : CompleteEncoder 1200 cborEncodeMsg) (linked : Linked cborEncodeMsg st)
    {action : Action} (paced : Paced st action) {next : Firmware}
    (moves : firmwareStep cborEncodeMsg st action = some next) : Linked cborEncodeMsg next := by
  cases action with
  | sample call =>
      simp only [firmwareStep] at moves
      split at moves
      · cases moves
      · rename_i served serves
        split at moves
        · cases moves
        · cases moves
          exact linked_sample canonical complete linked paced serves
  | start =>
      simp only [firmwareStep] at moves
      split at moves
      · rename_i ready
        cases moves
        exact linked_picked linked ready.1
      · cases moves
  | call answer =>
      simp only [firmwareStep] at moves
      split at moves
      · rename_i ready
        obtain ⟨bank, runs⟩ := Option.isSome_iff_exists.mp ready.1
        obtain ⟨new, sends, rfl⟩ := Option.map_eq_some_iff.mp moves
        exact linked_call linked runs ready.2 sends
      · cases moves
  | hear position =>
      obtain ⟨response, found, heard⟩ := Option.bind_eq_some_iff.mp moves
      split at heard
      · rename_i ready
        obtain ⟨bank, runs⟩ := Option.isSome_iff_exists.mp ready.1
        cases heard
        exact linked_hear linked runs found
      · cases heard
  | deliver position created =>
      obtain ⟨packet, found, taken⟩ := Option.bind_eq_some_iff.mp moves
      simp only at taken
      split at taken
      · rename_i whole
        cases taken
        exact linked_deliver linked found whole
      · cases taken
  | loseRequest position =>
      cases moves
      have sound := linked.sound
      refine { linked with sound := ⟨sound.steady, ?_, sound.small, sound.truthful⟩, carried := ?_ }
      · intro request member
        rw [Firmware.world, ← List.eraseIdx_map] at member
        exact sound.slots request (List.mem_of_mem_eraseIdx member)
      · intro packet member
        apply linked.carried packet
        rcases List.mem_append.mp member with flying | kept
        · exact List.mem_append_left _ (List.mem_of_mem_eraseIdx flying)
        · exact List.mem_append_right _ kept
  | loseResponse position =>
      cases moves
      have sound := linked.sound
      exact { linked with
        sound := ⟨sound.steady, sound.slots,
          fun response member => sound.small response (List.mem_of_mem_eraseIdx member),
          fun response member => sound.truthful response (List.mem_of_mem_eraseIdx member)⟩ }
  | finish =>
      simp only [firmwareStep] at moves
      split at moves
      · rename_i ready
        cases moves
        exact { linked with
          sends := fun bank runs => by cases runs
          resting := fun _ => ready.2 }
      · cases moves

end Links

section Server

variable {cborEncodeMsg : Msg → Option (List UInt8)} {st next : Firmware}

def Counts (st : Firmware) : Prop :=
  ∀ block < st.sender.i, Delivered (st.store.map Packet.place) st.number block

theorem moved_forward {run next : Sender} {answer : Answer} (moved : Moved run answer next) :
    next.i = run.i ∨ next.i = run.i + 1 := by
  cases moved with
  | rejected => exact Or.inl (enter_block_same run)
  | incomplete => exact Or.inl (enter_block_same _)
  | advance => exact Or.inr (enter_block_same _)
  | _ => exact Or.inl rfl

theorem counts_hear (linked : Linked cborEncodeMsg st) (counts : Counts st) {position : Nat}
    (timely : Timely st.world (.hear position)) {response : Response}
    (found : st.responses[position]? = some response) (point : st.sender.point = .recv) :
    Counts { st with
      sender := step st.sender ⟨0, 0, 0, some response.datagram⟩
      responses := st.responses.eraseIdx position } := by
  have heard : worldStep st.world (.hear position) = some { st.world with
      sender := step st.sender ⟨0, 0, 0, some response.datagram⟩
      responses := st.responses.eraseIdx position } := by
    simp [worldStep, Firmware.world, found, point]
  have counted := Delivery.counted_step linked.sound timely _ heard
  intro block below
  by_cases old : block < st.sender.i
  · exact counts block old
  · -- The block is the one that the response ends.
    have later : block < (step st.sender ⟨0, 0, 0, some response.datagram⟩).i := below
    rcases moved_forward (step_moved st.sender ⟨0, 0, 0, some response.datagram⟩) with same | one
    · omega
    · have here : block = st.sender.i := by omega
      rw [here]
      exact counted (show st.sender.i < (step st.sender _).i by omega)

theorem counts_step (linked : Linked cborEncodeMsg st) (counts : Counts st) {action : Action}
    (fair : Fair st action) (moves : firmwareStep cborEncodeMsg st action = some next) :
    Counts next := by
  cases action with
  | sample call =>
      simp only [firmwareStep] at moves
      split at moves
      · cases moves
      · split at moves
        · cases moves
        · cases moves
          exact counts
  | start =>
      simp only [firmwareStep] at moves
      split at moves
      · cases moves
        intro block below
        exact absurd below (Nat.not_lt_zero block)
      · cases moves
  | call answer =>
      simp only [firmwareStep] at moves
      split at moves
      · rename_i ready
        obtain ⟨new, -, rfl⟩ := Option.map_eq_some_iff.mp moves
        have same := Delivery.moved_block (Delivery.unheard_open ready.2)
          (step_moved st.sender answer)
        intro block below
        exact counts block (same ▸ below)
      · cases moves
  | hear position =>
      obtain ⟨response, found, heard⟩ := Option.bind_eq_some_iff.mp moves
      split at heard
      · rename_i ready
        cases heard
        exact counts_hear linked counts fair found ready.2
      · cases heard
  | deliver position created =>
      obtain ⟨packet, -, taken⟩ := Option.bind_eq_some_iff.mp moves
      simp only at taken
      split at taken
      · cases taken
        exact fun block below => Delivery.delivered_cons (counts block below) packet.place
      · cases taken
  | loseRequest position | loseResponse position =>
      cases moves
      exact counts
  | finish =>
      simp only [firmwareStep] at moves
      split at moves
      · cases moves
        exact counts
      · cases moves

theorem followed_linked (canonical : CanonicalEncoder cborEncodeMsg)
    (complete : CompleteEncoder 1200 cborEncodeMsg)
    (followed : Follows (firmwareStep cborEncodeMsg) Paced startFirmware st) :
    Linked cborEncodeMsg st :=
  follows_invariant linked_start
    (fun _ _ _ linked paced moves => linked_step canonical complete linked paced moves) followed

theorem followed_counts (canonical : CanonicalEncoder cborEncodeMsg)
    (complete : CompleteEncoder 1200 cborEncodeMsg)
    (followed : Follows (firmwareStep cborEncodeMsg) Fair startFirmware st) :
    Linked cborEncodeMsg st ∧ Counts st := by
  refine @follows_invariant _ _ _ Fair _ _ (fun st => Linked cborEncodeMsg st ∧ Counts st)
    ⟨linked_start, fun block below => absurd below (Nat.not_lt_zero block)⟩ ?_ followed
  rintro st action next ⟨linked, counts⟩ fair moves
  exact ⟨linked_step canonical complete linked (fair_paced fair) moves,
    counts_step linked counts fair moves⟩

theorem sample_moves {call : Call} {served : Served}
    (serves : emptyFifoFn cborEncodeMsg call st.run.sampler = .ok served)
    (up : st.sender.point ≠ .reset) :
    firmwareStep cborEncodeMsg st (.sample call) = some { st with
      run := ⟨served.sampler, st.run.log ++ served.flushes.map (Entry.mk st.run.calls),
        st.run.calls + 1⟩
      calls := st.calls ++ [call]
      coapSend := if served.submitted then st.coapSend.submit else st.coapSend } := by
  simp only [firmwareStep, serves, if_neg up]

theorem calls_follow (canonical : CanonicalEncoder cborEncodeMsg)
    (complete : CompleteEncoder 1200 cborEncodeMsg) {call : Call} (succeeds : Succeeds call)
    (count : Nat) :
    ∃ st, Follows (firmwareStep cborEncodeMsg) Fair startFirmware st ∧
      st.coapSend.running = none ∧ st.world = startFirmware.world ∧
      (st.coapSend.queued = true ∨ st.calls = List.replicate count call) := by
  induction count with
  | zero => exact ⟨startFirmware, .start, rfl, rfl, Or.inr rfl⟩
  | succ count ih =>
      obtain ⟨st, followed, free, same, before⟩ := ih
      cases queued : st.coapSend.queued with
      | true => exact ⟨st, followed, free, same, Or.inl queued⟩
      | false =>
          have linked := (followed_counts canonical complete followed).1
          obtain ⟨served, serves, -⟩ := call_exact canonical succeeds linked.consistent.ready
            linked.consistent.layout
          have item : st.coapSend = ⟨st.coapSend.queued, st.coapSend.running⟩ := rfl
          have fair : Fair st (.sample call) :=
            idle_paced call (show st.coapSend = idle by rw [item, queued, free]; rfl)
          have up : st.sender.point ≠ .reset := by
            rw [linked.resting free]
            decide
          refine ⟨_, .step followed fair (sample_moves serves up), ?_, same, ?_⟩
          · dsimp only
            split
            · exact free
            · exact free
          · rcases before with waits | calls
            · rw [queued] at waits
              cases waits
            · right
              dsimp only
              rw [calls, List.replicate_succ']

theorem triples_few {messages : List Msg} (few : ∀ message ∈ messages, message.triples.length ≤ 254) :
    (messages.flatMap Msg.triples).length ≤ 254 * messages.length := by
  induction messages with
  | nil => exact Nat.zero_le _
  | cons message rest ih =>
      obtain ⟨here, others⟩ := List.forall_mem_cons.mp few
      have tail := ih others
      rw [List.flatMap_cons, List.length_append, List.length_cons]
      omega

theorem open_bank (linked : Linked cborEncodeMsg st) (none' : st.number = 0)
    (idle' : st.coapSend.queued = false) : (st.calls.flatMap callTriples).length ≤ 254 * 60 := by
  have count := linked.count
  rw [none', idle'] at count
  simp only [Bool.false_eq_true, ↓reduceIte] at count
  have closed := triples_few fun message member => by
    obtain ⟨bin, holds, range, -⟩ := linked.closed message member
    rw [holds.triples]
    exact bounded_count range
  have last := bounded_count linked.consistent.ready.bounded
  rw [← linked.conserved.triples, List.length_append]
  have logged : (messages st.run.log).length = st.run.log.length := List.length_map ..
  rw [logged] at closed
  have short : st.run.log.length < 60 := by omega
  have whole := Nat.mul_le_mul_left 254 (Nat.le_of_lt_succ short)
  omega

theorem head_moves (runs : st.coapSend.running.isSome = true) (head : st.sender.point = .head) :
    firmwareStep cborEncodeMsg st (.call ⟨0, 0, 0, none⟩) =
      some { st with sender := stepHead st.sender } := by
  have silent : sent st ⟨0, 0, 0, none⟩ = some [] := if_neg fun sends => by
    rw [head] at sends
    cases sends.1
  have unheard : Unheard ⟨0, 0, 0, none⟩ := fun _ member => by cases member
  rw [firmwareStep, if_pos ⟨runs, unheard⟩, silent, Option.map_some, step, head]
  rfl

/-- The first run is about to send the first bank. -/
def firstWorld : World := ⟨stepHead (startSender 1 0), 1, [], [], []⟩

theorem first_upload (canonical : CanonicalEncoder cborEncodeMsg)
    (complete : CompleteEncoder 1200 cborEncodeMsg) {call : Call} (succeeds : Succeeds call) :
    ∃ st, Follows (firmwareStep cborEncodeMsg) Fair startFirmware st ∧
      st.coapSend.running.isSome = true ∧ st.world = firstWorld := by
  obtain ⟨st, followed, free, same, full⟩ := calls_follow canonical complete succeeds 90
  have linked := (followed_counts canonical complete followed).1
  have number : st.number = 0 := congrArg World.run same
  have queued : st.coapSend.queued = true := by
    rcases full with queued | calls
    · exact queued
    · by_contra waits
      have few := open_bank linked number (Bool.eq_false_iff.mpr waits)
      have each : (callTriples call).length = 170 := by
        rw [callTriples, if_pos succeeds, triples_of_length, call.fifoGet.2.count]
        rfl
      rw [calls, List.length_flatMap, List.map_replicate, List.sum_replicate, each] at few
      exact absurd few (by decide)
  have turned : st.run.sampler.msgIndex = 1 := by
    have count := linked.count
    have bank := linked.conserved.placed.bank
    rw [queued, number] at count
    simp only [↓reduceIte, slots, List.length_map] at count bank
    omega
  have token : st.sender.conToken = 0 := congrArg (fun world : World => world.sender.conToken) same
  have requests : st.packets.map Packet.request = [] := congrArg World.requests same
  have responses : st.responses = [] := congrArg World.responses same
  have store : st.store.map Packet.place = [] := congrArg World.received same
  have started : firmwareStep cborEncodeMsg st .start = some { st with
      run := { st.run with sampler := { st.run.sampler with sendFlag := false } }
      coapSend := st.coapSend.start (otherBank st.run.sampler.msgIndex)
      sender := startSender st.run.sampler.msgIndex st.sender.conToken
      number := st.number + 1 } := if_pos ⟨queued, free⟩
  have begun := Follows.step followed (show Fair st .start from trivial) started
  have sends := @head_moves cborEncodeMsg { st with
      run := { st.run with sampler := { st.run.sampler with sendFlag := false } }
      coapSend := st.coapSend.start (otherBank st.run.sampler.msgIndex)
      sender := startSender st.run.sampler.msgIndex st.sender.conToken
      number := st.number + 1 } rfl rfl
  refine ⟨_, .step begun (show Fair _ (.call ⟨0, 0, 0, none⟩) from trivial) sends, rfl, ?_⟩
  simp only [Firmware.world, firstWorld, turned, token, number, requests, responses, store]

theorem sending_slot (linked : Linked cborEncodeMsg st) (runs : st.coapSend.running.isSome = true)
    (sending : st.sender.point = .send) :
    ∃ slot, (slots st.run.sampler).slotAt st.sender.t st.sender.index = some slot ∧
      slot.payload.length = 1100 := by
  obtain ⟨bank, runs'⟩ := Option.isSome_iff_exists.mp runs
  obtain ⟨-, same, bank', -⟩ := linked.sends bank runs'
  have inside : st.sender.t < 2 := by
    rw [bank', same]
    exact Nat.mod_lt _ (by decide)
  obtain ⟨bankSlots, slot, there, found, -, long⟩ :=
    layout_present linked.consistent.layout inside (sending_index linked sending)
  refine ⟨slot, ?_, long⟩
  rw [Slots.slotAt, there]
  exact found

theorem sent_possible (linked : Linked cborEncodeMsg st) (runs : st.coapSend.running.isSome = true)
    (answer : Answer) : ∃ new, sent st answer = some new := by
  rw [sent]
  split
  · rename_i sending
    obtain ⟨slot, found, -⟩ := sending_slot linked runs sending.1
    exact ⟨_, by rw [found]; rfl⟩
  · exact ⟨[], rfl⟩

theorem step_world (linked : Linked cborEncodeMsg st) (runs : st.coapSend.running.isSome = true)
    {other : Delivery.Action} {action : Action} (same : acting other = some action) :
    (firmwareStep cborEncodeMsg st action).map Firmware.world = worldStep st.world other := by
  cases other with
  | call answer =>
      cases same
      obtain ⟨new, sends⟩ := sent_possible linked runs answer
      by_cases unheard : Unheard answer
      · rw [firmwareStep, if_pos ⟨runs, unheard⟩, sends, worldStep, if_pos unheard,
          ← sent_transmitted sends]
        simp only [Option.map_some, Firmware.world, List.map_append]
      · rw [firmwareStep, if_neg (fun ready => unheard ready.2), worldStep, if_neg unheard]
        rfl
  | hear position =>
      cases same
      simp only [firmwareStep, worldStep, Firmware.world, runs, true_and]
      cases st.responses[position]? with
      | none => rfl
      | some response =>
          by_cases point : st.sender.point = .recv
          · simp only [Option.bind_some, point, ↓reduceIte, Option.map_some, Firmware.world]
          · simp only [Option.bind_some, point, ↓reduceIte, Option.map_none]
  | deliver position created =>
      cases same
      simp only [firmwareStep, worldStep, Firmware.world, List.getElem?_map, List.eraseIdx_map]
      cases st.packets[position]? with
      | none => rfl
      | some packet =>
          simp only [Option.bind_some, Option.map_some, List.map_cons, Packet.place]
          split <;> rfl
  | loseRequest position | loseResponse position =>
      cases same
      simp only [firmwareStep, worldStep, Firmware.world, Option.map_some, List.eraseIdx_map]
  | nextRun msgIndex => cases same

theorem step_beside {other : Delivery.Action} {action : Action} (same : acting other = some action)
    (moves : firmwareStep cborEncodeMsg st action = some next) :
    next.coapSend = st.coapSend ∧ next.run = st.run ∧ next.number = st.number := by
  cases other with
  | call answer =>
      cases same
      simp only [firmwareStep] at moves
      split at moves
      · obtain ⟨new, -, rfl⟩ := Option.map_eq_some_iff.mp moves
        exact ⟨rfl, rfl, rfl⟩
      · cases moves
  | hear position =>
      cases same
      obtain ⟨response, -, heard⟩ := Option.bind_eq_some_iff.mp moves
      split at heard
      · cases heard
        exact ⟨rfl, rfl, rfl⟩
      · cases heard
  | deliver position created =>
      cases same
      obtain ⟨packet, -, taken⟩ := Option.bind_eq_some_iff.mp moves
      simp only at taken
      split at taken
      · cases taken
        exact ⟨rfl, rfl, rfl⟩
      · cases taken
  | loseRequest position | loseResponse position =>
      cases same
      cases moves
      exact ⟨rfl, rfl, rfl⟩
  | nextRun msgIndex => cases same

theorem acting_fair {other : Delivery.Action} {action : Action} (same : acting other = some action)
    (timely : Timely st.world other) : Fair st action := by
  cases other with
  | hear position =>
      cases same
      exact timely
  | call _ | deliver _ _ | loseRequest _ | loseResponse _ =>
      cases same
      trivial
  | nextRun msgIndex => cases same

def timelyStep (world : World) (other : Delivery.Action) : Option World :=
  if Timely world other ∧ (acting other).isSome = true then worldStep world other else none

theorem world_followed (canonical : CanonicalEncoder cborEncodeMsg)
    (complete : CompleteEncoder 1200 cborEncodeMsg) (others : List Delivery.Action) {world : World}
    (followed : Follows (firmwareStep cborEncodeMsg) Fair startFirmware st)
    (runs : st.coapSend.running.isSome = true)
    (executed : execute timelyStep st.world others = some world) :
    ∃ next, Follows (firmwareStep cborEncodeMsg) Fair startFirmware next ∧ next.world = world := by
  induction others generalizing st with
  | nil =>
      cases executed
      exact ⟨st, followed, rfl⟩
  | cons other rest ih =>
      obtain ⟨middle, moves, tail⟩ := Option.bind_eq_some_iff.mp executed
      rw [timelyStep] at moves
      split at moves
      · rename_i allowed
        obtain ⟨action, same⟩ := Option.isSome_iff_exists.mp allowed.2
        have linked := (followed_counts canonical complete followed).1
        rw [← step_world linked runs same] at moves
        obtain ⟨next, moves', rfl⟩ := Option.map_eq_some_iff.mp moves
        refine ih (.step followed (acting_fair same allowed.1) moves') ?_ tail
        rw [(step_beside same moves').1]
        exact runs
      · cases moves

/-- The ten messages of a block are sent, arrive in order and are answered. -/
def arrivingBlock : List Delivery.Action :=
  List.replicate 30 Delivery.fine ++ (List.range 9).map (fun earlier => .deliver (9 - earlier) false) ++
    [.deliver 0 true, .hear 0]

theorem first_block (canonical : CanonicalEncoder cborEncodeMsg)
    (complete : CompleteEncoder 1200 cborEncodeMsg) {call : Call} (succeeds : Succeeds call) :
    ∃ st, Follows (firmwareStep cborEncodeMsg) Fair startFirmware st ∧
      st.sender.i = 1 ∧ st.store.length = 10 := by
  obtain ⟨st, followed, runs, begins⟩ := first_upload canonical complete succeeds
  have evaluated : ∃ world ∈ execute timelyStep firstWorld arrivingBlock,
      world.sender.i = 1 ∧ world.received.length = 10 := by decide +kernel
  obtain ⟨world, executed, one, ten⟩ := evaluated
  rw [← begins] at executed
  obtain ⟨next, followed', rfl⟩ := world_followed canonical complete arrivingBlock followed runs executed
  refine ⟨next, followed', one, ?_⟩
  rwa [Firmware.world, List.length_map] at ten

/-- The packet is what message 60 (run - 1) + slot was stored as. A receiver reads the
message if its stream fits. -/
def CarriesMessage (cborEncodeMsg : Msg → Option (List UInt8)) (log : List Entry)
    (packet : Packet) : Prop :=
  ∃ entry, log[60 * (packet.request.run - 1) + packet.request.slot]? = some entry ∧
    entry.flush.stored =
      some ⟨(packet.request.run - 1) % 2, packet.request.slot, packet.slot⟩ ∧
    Carries cborEncodeMsg entry.flush.message packet.slot ∧
    (Fits (encodeMsg entry.flush.message) → packet.slot.size ≤ 1100 ∧
      receive (slotBytes packet.slot) = some (reportOf entry.flush.message))

theorem genuine_carries (canonical : CanonicalEncoder cborEncodeMsg)
    (linked : Linked cborEncodeMsg st) {packet : Packet}
    (genuine : Genuine st.number st.run.log packet) :
    CarriesMessage cborEncodeMsg st.run.log packet := by
  obtain ⟨entry, place, present, stored, same⟩ := genuine.stored
  obtain ⟨k, position⟩ : ∃ k, 60 * (packet.request.run - 1) + packet.request.slot = k := ⟨_, rfl⟩
  rw [position] at present
  have flushed : (st.run.log.map Entry.flush)[k]? = some entry.flush := by
    rw [List.getElem?_map, present]
    rfl
  obtain ⟨slot, placed, carries, -⟩ := (linked.conserved.placed.messages k _ flushed).placed
  rw [stored] at placed
  cases Option.some.inj placed
  have below := genuine.slot
  have where' : k / 60 % 2 = (packet.request.run - 1) % 2 ∧ k % 60 = packet.request.slot := by omega
  rw [where'.1, where'.2] at stored
  simp only at same
  rw [same] at stored carries
  have closed := linked.closed _ (List.mem_map_of_mem (List.mem_of_getElem? present))
  refine ⟨entry, by rw [position, present], stored, carries, fun fits => ⟨?_, ?_⟩⟩
  · obtain ⟨bytes, encodes, holds⟩ := carries
    rw [canonical _ bytes encodes] at holds
    exact Nat.le_trans (holds_short fits holds) (closed_size closed).2
  · exact carried_received canonical closed carries fits

/-- All that the server holds of run r is messages 60 (r - 1) to 60 r - 1, each under its
own slot. -/
def ServerHolds (cborEncodeMsg : Msg → Option (List UInt8)) (st : Firmware) : Prop :=
  ∀ packet ∈ st.store, (1 ≤ packet.request.run ∧ packet.request.run ≤ st.number) ∧
    packet.request.slot < payloadCount ∧ CarriesMessage cborEncodeMsg st.run.log packet

/-- The ten messages of every block that the upload run has counted are at the server. -/
def CountedHeld (cborEncodeMsg : Msg → Option (List UInt8)) (st : Firmware) : Prop :=
  ∀ block < st.sender.i, ∀ k < 10, ∃ packet ∈ st.store,
    packet.place = (st.number, 10 * block + k) ∧ CarriesMessage cborEncodeMsg st.run.log packet

theorem counts_held (canonical : CanonicalEncoder cborEncodeMsg) (linked : Linked cborEncodeMsg st)
    (counts : Counts st) : CountedHeld cborEncodeMsg st := by
  intro block below k small
  obtain ⟨packet, member, place⟩ := List.mem_map.mp (counts block below k small)
  exact ⟨packet, member, place, genuine_carries canonical linked
    (linked.carried packet (List.mem_append_right _ member))⟩

/-- As long as the upload keeps pace, the server holds nothing but messages of the log,
whatever the network does, and these with the open triples are the samples of all
calls. -/
theorem server_holds_messages (canonical : CanonicalEncoder cborEncodeMsg)
    (complete : CompleteEncoder 1200 cborEncodeMsg)
    (followed : Follows (firmwareStep cborEncodeMsg) Paced startFirmware st) :
    ((messages st.run.log).flatMap Msg.triples ++ st.run.sampler.encodeMsgBuf.triples =
      st.calls.flatMap callTriples) ∧ ServerHolds cborEncodeMsg st := by
  have linked := followed_linked canonical complete followed
  refine ⟨linked.conserved.triples, ?_⟩
  intro packet member
  have genuine := linked.carried packet (List.mem_append_right _ member)
  exact ⟨genuine.started, genuine.slot, genuine_carries canonical linked genuine⟩

theorem server_holds_messages_lively :
    ∃ st, CanonicalEncoder (checkedEncoder 1200) ∧ CompleteEncoder 1200 (checkedEncoder 1200) ∧
      Follows (firmwareStep (checkedEncoder 1200)) Paced startFirmware st ∧ st.store.length = 10 ∧
      ((messages st.run.log).flatMap Msg.triples ++ st.run.sampler.encodeMsgBuf.triples =
        st.calls.flatMap callTriples) ∧ ServerHolds (checkedEncoder 1200) st := by
  have canonical := checked_encoder_canonical 1200
  have complete := checked_encoder_complete 1200
  obtain ⟨st, followed, -, held⟩ := first_block canonical complete lively_succeeds
  have paced := follows_weaken (fun _ _ fair => fair_paced fair) followed
  exact ⟨st, canonical, complete, paced, held, server_holds_messages canonical complete paced⟩

/-- When besides the responses that end blocks belong to the run, the server has the ten
messages of every block that the run has counted. -/
theorem counted_blocks_held (canonical : CanonicalEncoder cborEncodeMsg)
    (complete : CompleteEncoder 1200 cborEncodeMsg)
    (followed : Follows (firmwareStep cborEncodeMsg) Fair startFirmware st) :
    CountedHeld cborEncodeMsg st := by
  obtain ⟨linked, counts⟩ := followed_counts canonical complete followed
  exact counts_held canonical linked counts

theorem counted_blocks_held_lively :
    ∃ st, CanonicalEncoder (checkedEncoder 1200) ∧ CompleteEncoder 1200 (checkedEncoder 1200) ∧
      Follows (firmwareStep (checkedEncoder 1200)) Fair startFirmware st ∧ st.sender.i = 1 ∧
      CountedHeld (checkedEncoder 1200) st := by
  have canonical := checked_encoder_canonical 1200
  have complete := checked_encoder_complete 1200
  obtain ⟨st, followed, one, -⟩ := first_block canonical complete lively_succeeds
  exact ⟨st, canonical, complete, followed, one, counted_blocks_held canonical complete followed⟩

end Server

end ThingyAccel.Uplink
