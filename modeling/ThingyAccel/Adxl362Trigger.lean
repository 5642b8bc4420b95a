import Mathlib.Data.List.Induction
import Mathlib.Data.List.Perm.Basic

/-!
The triggers of src/ncsFiles/adxl362/adxl362_trigger.c: the handlers that
`adxl362_trigger_set` keeps, and the two routines that serve an interrupt, one in
each build variant. Handlers are known by their identity only.
-/
namespace ThingyAccel.Adxl362Trigger

/-- The trigger types that the driver supports, and every other one by its value. -/
inductive SensorTriggerType where
  | dataReady
  | motion
  | stationary
  | fifo
  | other (value : Nat)
  deriving DecidableEq, Repr

structure SensorTrigger where
  type : SensorTriggerType
  chan : Nat
  deriving DecidableEq, Repr

/-- The handlers and triggers in `struct adxl362_data`, `none` for NULL. -/
structure Adxl362Data (Handler : Type) where
  fifoHandler : Option Handler
  fifoTrigger : Option SensorTrigger
  inactHandler : Option Handler
  inactTrigger : Option SensorTrigger
  actHandler : Option Handler
  actTrigger : Option SensorTrigger
  drdyHandler : Option Handler
  drdyTrigger : Option SensorTrigger
  deriving DecidableEq, Repr

structure HandlerCall (Handler : Type) where
  handler : Handler
  trigger : Option SensorTrigger
  deriving DecidableEq, Repr

/-- A call of `adxl362_trigger_set`, with what `adxl362_reg_write_mask` returns for
each mask and value of INTMAP1. -/
structure TriggerSet (Handler : Type) where
  trig : SensorTrigger
  handler : Option Handler
  regWriteMask : UInt8 → UInt8 → Int

inductive NullPointer where
  | null
  deriving DecidableEq, Repr

def enotsup : Int := 134

def intmap1Inact : UInt8 := 1 <<< (5 : UInt8)

def intmap1Act : UInt8 := 1 <<< (4 : UInt8)

def intmap1FifoWatermark : UInt8 := 1 <<< (2 : UInt8)

def intmap1DataReady : UInt8 := 1 <<< (0 : UInt8)

def statusCheckDataReady (status : UInt8) : UInt8 := (status >>> 0) &&& 0x1

def statusCheckInact (status : UInt8) : UInt8 := (status >>> 5) &&& 0x1

def statusCheckActivity (status : UInt8) : UInt8 := (status >>> 4) &&& 0x1

section Driver

variable {Handler : Type}

def zeroedData : Adxl362Data Handler := ⟨none, none, none, none, none, none, none, none⟩

def adxl362TriggerSet (interruptPort : Bool) (call : TriggerSet Handler)
    (drvData : Adxl362Data Handler) : Int × Adxl362Data Handler :=
  let enable (intMask : UInt8) : Int :=
    call.regWriteMask intMask (if call.handler.isSome then intMask else 0)
  if interruptPort = false then (-enotsup, drvData)
  else match call.trig.type with
    | .motion => (enable intmap1Act,
        { drvData with actHandler := call.handler, actTrigger := some call.trig })
    | .fifo => (enable intmap1FifoWatermark,
        { drvData with fifoHandler := call.handler, fifoTrigger := some call.trig })
    | .stationary => (enable intmap1Inact,
        { drvData with inactHandler := call.handler, inactTrigger := some call.trig })
    | .dataReady => (enable intmap1DataReady,
        { drvData with drdyHandler := call.handler, drdyTrigger := some call.trig })
    | .other _ => (-enotsup, drvData)

def triggersSet (interruptPort : Bool) (calls : List (TriggerSet Handler)) : Adxl362Data Handler :=
  calls.foldl (fun drvData call => (adxl362TriggerSet interruptPort call drvData).2) zeroedData

/-- `if (handler != NULL) { if (event) handler(dev, trigger); }`. -/
def callOn (event : Bool) (handler : Option Handler) (trigger : Option SensorTrigger) :
    List (HandlerCall Handler) :=
  match handler with
  | none => []
  | some handler => if event then [⟨handler, trigger⟩] else []

/-- The handlers that the own thread calls: none when STATUS cannot be read, and the
one for the FIFO whatever STATUS is. -/
def adxl362ThreadCb (getStatus : Int × UInt8) (drvData : Adxl362Data Handler) :
    List (HandlerCall Handler) :=
  let (err, statusBuf) := getStatus
  if err ≠ 0 then []
  else
    callOn true drvData.fifoHandler drvData.fifoTrigger ++
      callOn (statusCheckInact statusBuf ≠ 0) drvData.inactHandler drvData.inactTrigger ++
      callOn (statusCheckActivity statusBuf ≠ 0) drvData.actHandler drvData.actTrigger ++
      callOn (statusCheckDataReady statusBuf ≠ 0) drvData.drdyHandler drvData.drdyTrigger

/-- The log line reads the trigger, then the handler is called. -/
def adxl362ThreadCbFifo (drvData : Adxl362Data Handler) :
    Except NullPointer (List (HandlerCall Handler)) :=
  match drvData.fifoTrigger with
  | none => .error .null
  | some trigger =>
      match drvData.fifoHandler with
      | none => .error .null
      | some handler => .ok [⟨handler, some trigger⟩]

def adxl362WorkCb (drvData : Adxl362Data Handler) : Except NullPointer (List (HandlerCall Handler)) :=
  adxl362ThreadCbFifo drvData

end Driver

section Dispatch

variable {Handler : Type}

inductive Event where
  | fifoWatermark
  | inactivity
  | activity
  | dataReady
  deriving DecidableEq, Repr

def Event.type : Event → SensorTriggerType
  | .fifoWatermark => .fifo
  | .inactivity => .stationary
  | .activity => .motion
  | .dataReady => .dataReady

def Event.bit : Event → Nat
  | .fifoWatermark => 2
  | .inactivity => 5
  | .activity => 4
  | .dataReady => 0

def Event.signalled (event : Event) (status : UInt8) : Bool := status.toNat.testBit event.bit

def events : List Event := [.fifoWatermark, .inactivity, .activity, .dataReady]

def registered (interruptPort : Bool) (calls : List (TriggerSet Handler)) (event : Event) :
    Option (HandlerCall Handler) :=
  if interruptPort then
    (calls.reverse.find? fun call => call.trig.type = event.type).bind fun call =>
      call.handler.map fun handler => ⟨handler, some call.trig⟩
  else none

def rightCalls (interruptPort : Bool) (calls : List (TriggerSet Handler)) (status : UInt8) :
    List (HandlerCall Handler) :=
  events.filterMap fun event =>
    if event.signalled status then registered interruptPort calls event else none

/-- Both variants serve an interrupt with the right calls, in any order. -/
def DispatchesAlike (interruptPort : Bool) (calls : List (TriggerSet Handler)) (status : UInt8) :
    Prop :=
  (∃ called, adxl362WorkCb (triggersSet interruptPort calls) = .ok called ∧
    called.Perm (rightCalls interruptPort calls status)) ∧
  (adxl362ThreadCb (0, status) (triggersSet interruptPort calls)).Perm
    (rightCalls interruptPort calls status)

def Adxl362Data.kept (drvData : Adxl362Data Handler) : Event → Option Handler × Option SensorTrigger
  | .fifoWatermark => (drvData.fifoHandler, drvData.fifoTrigger)
  | .inactivity => (drvData.inactHandler, drvData.inactTrigger)
  | .activity => (drvData.actHandler, drvData.actTrigger)
  | .dataReady => (drvData.drdyHandler, drvData.drdyTrigger)

variable {interruptPort : Bool} {calls : List (TriggerSet Handler)} {status : UInt8}

theorem type_injective {event other : Event} (same : event.type = other.type) : event = other := by
  cases event <;> cases other <;> first | rfl | cases same

theorem trigger_set_kept (call : TriggerSet Handler) (drvData : Adxl362Data Handler)
    (event : Event) :
    (adxl362TriggerSet true call drvData).2.kept event =
      if call.trig.type = event.type then (call.handler, some call.trig)
      else drvData.kept event := by
  cases type : call.trig.type with
  | dataReady | motion | stationary | fifo =>
      cases event <;> simp [adxl362TriggerSet, type, Event.type, Adxl362Data.kept]
  | other value => cases event <;> simp [adxl362TriggerSet, type, Event.type, Adxl362Data.kept]

theorem unported_kept (calls : List (TriggerSet Handler)) :
    triggersSet false calls = zeroedData := by
  induction calls using List.reverseRecOn with
  | nil => rfl
  | append_singleton calls call ih =>
      rw [triggersSet, List.foldl_append, ← triggersSet, ih]
      rfl

theorem kept_registered (interruptPort : Bool) (calls : List (TriggerSet Handler)) (event : Event) :
    (((triggersSet interruptPort calls).kept event).1.map fun handler =>
      (⟨handler, ((triggersSet interruptPort calls).kept event).2⟩ : HandlerCall Handler)) =
        registered interruptPort calls event := by
  cases interruptPort with
  | false =>
      rw [unported_kept]
      cases event <;> rfl
  | true =>
      induction calls using List.reverseRecOn with
      | nil => cases event <;> rfl
      | append_singleton calls call ih =>
          have last : triggersSet true (calls ++ [call]) =
              (adxl362TriggerSet true call (triggersSet true calls)).2 := by
            rw [triggersSet, List.foldl_append]
            rfl
          rw [last, trigger_set_kept]
          by_cases same : call.trig.type = event.type
          · simp [registered, same]
          · simp only [registered, ↓reduceIte] at ih ⊢
            simp [same, ih]

theorem registered_trigger {event : Event} {call : HandlerCall Handler}
    (found : registered interruptPort calls event = some call) :
    ∃ trigger, call.trigger = some trigger ∧ trigger.type = event.type := by
  rw [registered] at found
  split at found
  · obtain ⟨set, last, kept⟩ := Option.bind_eq_some_iff.mp found
    obtain ⟨handler, -, rfl⟩ := Option.map_eq_some_iff.mp kept
    have type := List.find?_some last
    exact ⟨set.trig, rfl, of_decide_eq_true type⟩
  · cases found

theorem call_on_registered (event : Event) (signalled : Bool) :
    callOn signalled ((triggersSet interruptPort calls).kept event).1
        ((triggersSet interruptPort calls).kept event).2 =
      if signalled then (registered interruptPort calls event).toList else [] := by
  rw [← kept_registered]
  cases ((triggersSet interruptPort calls).kept event).1 with
  | none => cases signalled <;> rfl
  | some handler => cases signalled <;> rfl

theorem work_cb_registered :
    adxl362WorkCb (triggersSet interruptPort calls) =
      match registered interruptPort calls .fifoWatermark with
      | none => .error .null
      | some call => .ok [call] := by
  have kept := kept_registered interruptPort calls .fifoWatermark
  simp only [Adxl362Data.kept] at kept
  rw [adxl362WorkCb, adxl362ThreadCbFifo]
  cases trigger : (triggersSet interruptPort calls).fifoTrigger with
  | none =>
      cases handler : (triggersSet interruptPort calls).fifoHandler with
      | none =>
          rw [handler] at kept
          rw [← kept]
          rfl
      | some handler' =>
          -- A handler never comes without its trigger.
          rw [handler, trigger] at kept
          obtain ⟨there, found, -⟩ := registered_trigger kept.symm
          cases found
  | some trigger' =>
      cases handler : (triggersSet interruptPort calls).fifoHandler with
      | none =>
          rw [handler] at kept
          rw [← kept]
          rfl
      | some handler' =>
          rw [handler, trigger] at kept
          rw [← kept]
          rfl

theorem check_bit (status shift : UInt8) (small : shift.toNat < 8) :
    decide ((status >>> shift) &&& 0x1 ≠ 0) = status.toNat.testBit shift.toNat := by
  have zero : (status >>> shift) &&& 0x1 = 0 ↔ 1 &&& status.toNat >>> shift.toNat = 0 := by
    rw [← UInt8.toNat_inj, UInt8.toNat_and, UInt8.toNat_shiftRight, Nat.mod_eq_of_lt small,
      Nat.and_comm]
    rfl
  rw [Nat.testBit]
  by_cases clear : 1 &&& status.toNat >>> shift.toNat = 0
  · rw [zero.mpr clear, clear]
    rfl
  · have set : (status >>> shift) &&& 0x1 ≠ 0 := fun none => clear (zero.mp none)
    rw [decide_eq_true set, bne, beq_false_of_ne clear]
    rfl

theorem filter_map_cons {α β : Type} (choose : α → Option β) (item : α) (rest : List α) :
    (item :: rest).filterMap choose = (choose item).toList ++ rest.filterMap choose := by
  rw [List.filterMap_cons]
  cases choose item <;> rfl

theorem to_list_ite {β : Type} (condition : Prop) [Decidable condition] (value : Option β) :
    (if condition then value else none).toList = if condition then value.toList else [] := by
  split <;> rfl

/-- The own thread misses the check of the FIFO alone. -/
theorem thread_cb_registered (status : UInt8) :
    adxl362ThreadCb (0, status) (triggersSet interruptPort calls) =
      events.filterMap fun event =>
        if event = .fifoWatermark ∨ event.signalled status then
          registered interruptPort calls event
        else none := by
  have inactivity := @call_on_registered _ interruptPort calls .inactivity
    (statusCheckInact status ≠ 0)
  have activity := @call_on_registered _ interruptPort calls .activity
    (statusCheckActivity status ≠ 0)
  have dataReady := @call_on_registered _ interruptPort calls .dataReady
    (statusCheckDataReady status ≠ 0)
  have fifo := @call_on_registered _ interruptPort calls .fifoWatermark true
  have five : decide (statusCheckInact status ≠ 0) = Event.inactivity.signalled status :=
    check_bit status 5 (by decide)
  have four : decide (statusCheckActivity status ≠ 0) = Event.activity.signalled status :=
    check_bit status 4 (by decide)
  have zero : decide (statusCheckDataReady status ≠ 0) = Event.dataReady.signalled status :=
    check_bit status 0 (by decide)
  simp only [Adxl362Data.kept] at inactivity activity dataReady fifo
  simp only [adxl362ThreadCb, ne_eq, not_true_eq_false, ↓reduceIte]
  simp only [ne_eq] at inactivity activity dataReady five four zero
  rw [fifo, inactivity, activity, dataReady, five, four, zero]
  simp only [events, filter_map_cons, List.filterMap_nil, to_list_ite, reduceCtorEq, true_or,
    false_or, ↓reduceIte, List.append_nil, List.append_assoc]

theorem thread_cb_right (watermark : Event.fifoWatermark.signalled status = true) :
    adxl362ThreadCb (0, status) (triggersSet interruptPort calls) =
      rightCalls interruptPort calls status := by
  rw [thread_cb_registered, rightCalls]
  apply congrArg (List.filterMap · events)
  funext event
  by_cases fifo : event = .fifoWatermark
  · rw [fifo, watermark]
    rfl
  · simp only [fifo, false_or]

theorem right_calls_member {call : HandlerCall Handler} :
    call ∈ rightCalls interruptPort calls status ↔
      ∃ event, event.signalled status = true ∧ registered interruptPort calls event = some call := by
  rw [rightCalls, List.mem_filterMap]
  constructor
  · rintro ⟨event, -, found⟩
    split at found
    · exact ⟨event, ‹_›, found⟩
    · cases found
  · rintro ⟨event, signalled, found⟩
    refine ⟨event, ?_, ?_⟩
    · cases event <;> decide
    · rw [if_pos signalled]
      exact found

theorem registered_event {event other : Event} {call : HandlerCall Handler}
    (found : registered interruptPort calls event = some call)
    (found' : registered interruptPort calls other = some call) : event = other := by
  obtain ⟨trigger, kept, type⟩ := registered_trigger found
  obtain ⟨trigger', kept', type'⟩ := registered_trigger found'
  rw [kept] at kept'
  cases kept'
  exact type_injective (type.symm.trans type')

/-- The FIFO handler alone is called rightly: one is registered, the watermark is
signalled, and nothing else that is signalled has a handler. -/
def FifoAlone (interruptPort : Bool) (calls : List (TriggerSet Handler)) (status : UInt8) : Prop :=
  (registered interruptPort calls .fifoWatermark).isSome = true ∧
    Event.fifoWatermark.signalled status = true ∧
    ∀ event : Event, event.signalled status = true → event ≠ .fifoWatermark →
      registered interruptPort calls event = none

theorem right_calls_alone {call : HandlerCall Handler}
    (found : registered interruptPort calls .fifoWatermark = some call)
    (alone : FifoAlone interruptPort calls status) :
    rightCalls interruptPort calls status = [call] := by
  obtain ⟨-, watermark, others⟩ := alone
  have silent (event : Event) (other : event ≠ .fifoWatermark) :
      (if event.signalled status = true then registered interruptPort calls event else none) =
        none := by
    split
    · exact others event ‹_› other
    · rfl
  simp only [rightCalls, events, filter_map_cons, List.filterMap_nil, watermark, found, ↓reduceIte,
    silent .inactivity (by decide), silent .activity (by decide), silent .dataReady (by decide)]
  rfl

/-- The two variants serve an interrupt alike and rightly exactly when the FIFO
handler is the one to call. -/
theorem dispatches_alike_iff (interruptPort : Bool) (calls : List (TriggerSet Handler))
    (status : UInt8) :
    DispatchesAlike interruptPort calls status ↔ FifoAlone interruptPort calls status := by
  constructor
  · rintro ⟨⟨called, serves, same⟩, -⟩
    rw [work_cb_registered] at serves
    cases found : registered interruptPort calls .fifoWatermark with
    | none =>
        rw [found] at serves
        cases serves
    | some call =>
        rw [found] at serves
        cases serves
        have right := List.perm_singleton.mp same.symm
        have only (event : Event) (other : HandlerCall Handler)
            (signalled : event.signalled status = true)
            (found' : registered interruptPort calls event = some other) :
            event = .fifoWatermark := by
          have member := right_calls_member.mpr ⟨event, signalled, found'⟩
          rw [right, List.mem_singleton] at member
          rw [member] at found'
          exact registered_event found' found
        refine ⟨by rw [found]; rfl, ?_, ?_⟩
        · have member : call ∈ rightCalls interruptPort calls status := by
            rw [right]
            exact List.mem_singleton_self call
          obtain ⟨event, signalled, found'⟩ := right_calls_member.mp member
          rw [← only event call signalled found']
          exact signalled
        · intro event signalled other
          cases found' : registered interruptPort calls event with
          | none => rfl
          | some call' => exact absurd (only event call' signalled found') other
  · intro alone
    obtain ⟨call, found⟩ := Option.isSome_iff_exists.mp alone.1
    have right := right_calls_alone found alone
    refine ⟨⟨[call], ?_, ?_⟩, ?_⟩
    · rw [work_cb_registered, found]
    · rw [right]
    · rw [thread_cb_right alone.2.1]

theorem activity_dispatched_wrong :
    ¬ DispatchesAlike true
      [⟨⟨.fifo, 0⟩, some 1, fun _ _ => 0⟩, ⟨⟨.motion, 0⟩, some 2, fun _ _ => 0⟩] 0x10 := by
  rintro ⟨⟨called, serves, same⟩, -⟩
  cases serves
  exact absurd same (by decide)

end Dispatch

end ThingyAccel.Adxl362Trigger
