import ThingyAccel.SamplingChain
import ThingyAccel.Startup

/-!
The steps of `main` against the interrupts that it arms in its first step: in which
order work items are initialised, submitted and run.
-/
namespace ThingyAccel.StartupOrder

open WorkQueue Adxl362Trigger Executions SamplingChain Startup

/-- The step of `main` that comes next; `sensor_trigger_set` first keeps the handler
and then maps the interrupt. -/
inductive Position where
  | sensors
  | mapping
  | modem
  | connect
  | initCoapSend
  | startQueue
  | initEmptyFifo
  | ended
  deriving DecidableEq, Repr

/-- `made` are the steps of `main` behind its checks. -/
structure World where
  position : Position
  made : List StartStep
  chain : Chain
  coapSend : WorkItem Unit
  deriving DecidableEq, Repr

inductive Event where
  | main
  | chain (action : Action)
  | submitUpload
  | startUpload
  | finishUpload
  deriving DecidableEq, Repr

def registerTrigger (drvData : Adxl362Data AppHandler) : Adxl362Data AppHandler :=
  (adxl362TriggerSet true ⟨trig, some .triggerHandler, fun _ _ => 0⟩ drvData).2

def mainStep (outcomes : Outcomes) (world : World) : Option World :=
  match world.position with
  | .sensors =>
      if ¬ outcomes.adxl362Ready ∧ ¬ outcomes.bme680Ready ∨ configAdxl362Trigger = false then
        some { world with position := .modem }
      else
        some { world with
          position := .mapping
          chain := { world.chain with drvData := registerTrigger world.chain.drvData } }
  | .mapping =>
      some { world with
        position := if initializeSensors outcomes < 0 then .ended else .modem
        chain := { world.chain with
          chip := if outcomes.sensorTriggerSet = 0 then world.chain.chip.map else world.chain.chip } }
  | .modem =>
      some { world with position := if initializeModem outcomes < 0 then .ended else .connect }
  | .connect =>
      some { world with position := if connectToServer outcomes < 0 then .ended else .initCoapSend }
  | .initCoapSend =>
      some { world with
        position := .startQueue
        made := world.made ++ [.initCoapSend]
        coapSend := idle }
  | .startQueue =>
      some { world with position := .initEmptyFifo, made := world.made ++ [.startQueue] }
  | .initEmptyFifo =>
      some { world with
        position := .ended
        made := world.made ++ [.initEmptyFifo]
        chain := { world.chain with emptyFifoHandler := true } }
  | .ended => none

/-- A step of `main`, of the sampling chain, or of the upload that `empty_fifo_fn`
submits when the flag is set. -/
def step (outcomes : Outcomes) (world : World) : Event → Option World
  | .main => mainStep outcomes world
  | .chain action => (SamplingChain.step world.chain action).map fun chain => { world with chain := chain }
  | .submitUpload =>
      if world.chain.queue.running = some .encoding then
        some { world with chain := world.chain.runs .returning, coapSend := world.coapSend.submit }
      else none
  | .startUpload =>
      if StartStep.startQueue ∈ world.made ∧ world.coapSend.queued = true ∧
          world.coapSend.running = none then
        some { world with coapSend := world.coapSend.start () }
      else none
  | .finishUpload =>
      if world.coapSend.running = some () then
        some { world with coapSend := world.coapSend.finish }
      else none

/-- `main` is about to begin. Words have come in since the device was initialised;
INT1 is not mapped and no work item is initialised but the driver's. -/
def boot (words : Nat) : World :=
  { position := .sensors, made := []
    chain :=
      { chip := Chip.arrive ⟨0, Nat.zero_le _, false, false⟩ words, drvData := zeroedData
        emptyFifoHandler := false, queue := ⟨[], none⟩ }
    coapSend := idle }

def emptyFifoJobs : List Job := [.fetching, .encoding, .returning, .nullCall]

/-- `trigger_handler` submits an item that has its handler, `k_work_init` is given an
idle item, and `coap_send` is submitted to a queue that is started. -/
def Orderly (world : World) : Event → Prop
  | .main =>
      match world.position with
      | .initCoapSend => world.coapSend = idle
      | .initEmptyFifo => Item.emptyFifo ∉ world.chain.queue.waiting ∧
          ∀ job, world.chain.queue.running = some job → job ∉ emptyFifoJobs
      | _ => True
  | .chain .callHandler =>
      ∀ calls, adxl362WorkCb world.chain.drvData = .ok calls → world.chain.emptyFifoHandler = true
  | .submitUpload => StartStep.initCoapSend ∈ world.made ∧ StartStep.startQueue ∈ world.made
  | _ => True

def Ordered (step : World → Event → Option World) (start : World) : Prop :=
  ∀ world, Reaches step start world →
    ∀ event next, step world event = some next → Orderly world event

/-- The system work queue does not turn to the driver's work item before `main` has
initialised `empty_fifo`. -/
def unhurried (world : World) : Event → Bool
  | .chain .take =>
      world.chain.queue.waiting.head? != some .driverWork || world.chain.emptyFifoHandler
  | _ => true

def unhurriedStep (outcomes : Outcomes) (world : World) (event : Event) : Option World :=
  if unhurried world event then step outcomes world event else none

def fifoJobs : List Job := [.fetching, .encoding, .returning]

section Order

variable {outcomes : Outcomes} {words : Nat} {world next : World}

inductive Moved (outcomes : Outcomes) (world : World) : Event → World → Prop where
  | main {next : World} (moves : mainStep outcomes world = some next) :
      Moved outcomes world .main next
  | chain {action : Action} {chain : Chain}
      (moves : SamplingChain.step world.chain action = some chain) :
      Moved outcomes world (.chain action) { world with chain := chain }
  | submitUpload (encoding : world.chain.queue.running = some .encoding) :
      Moved outcomes world .submitUpload { world with
        chain := world.chain.runs .returning
        coapSend := world.coapSend.submit }
  | startUpload (queued : world.coapSend.queued = true) :
      Moved outcomes world .startUpload { world with coapSend := world.coapSend.start () }
  | finishUpload (running : world.coapSend.running = some ()) :
      Moved outcomes world .finishUpload { world with coapSend := world.coapSend.finish }

theorem step_moved {event : Event} (moves : step outcomes world event = some next) :
    Moved outcomes world event next := by
  cases event with
  | main => exact .main moves
  | chain action =>
      obtain ⟨chain, moves', rfl⟩ := Option.map_eq_some_iff.mp moves
      exact .chain moves'
  | submitUpload =>
      simp only [step, Option.ite_none_right_eq_some] at moves
      cases moves.2
      exact .submitUpload moves.1
  | startUpload =>
      simp only [step, Option.ite_none_right_eq_some] at moves
      cases moves.2
      exact .startUpload moves.1.2.1
  | finishUpload =>
      simp only [step, Option.ite_none_right_eq_some] at moves
      cases moves.2
      exact .finishUpload moves.1

structure Progress (world : World) : Prop where
  unset : world.position = .sensors → world.chain.drvData = zeroedData
  registered : world.position = .mapping → world.chain.drvData = armedData
  armed : world.chain.chip.mapped = true → world.chain.drvData = armedData
  second : world.position = .startQueue → StartStep.initCoapSend ∈ world.made
  third : world.position = .initEmptyFifo →
    StartStep.initCoapSend ∈ world.made ∧ StartStep.startQueue ∈ world.made
  last : world.chain.emptyFifoHandler = true → world.position = .ended ∧
    StartStep.initCoapSend ∈ world.made ∧ StartStep.startQueue ∈ world.made
  worked : ∀ job, world.chain.queue.running = some job → job ∈ fifoJobs →
    world.chain.emptyFifoHandler = true

theorem step_works {chain after : Chain} {action : Action}
    (moves : SamplingChain.step chain action = some after) {job : Job}
    (running : after.queue.running = some job) (works : job ∈ fifoJobs) :
    chain.emptyFifoHandler = true ∨
      ∃ before, chain.queue.running = some before ∧ before ∈ fifoJobs := by
  cases step_acted moves with
  | arrive _ => exact Or.inr ⟨job, running, works⟩
  | interrupt _ =>
      rw [submit_running] at running
      exact Or.inr ⟨job, running, works⟩
  | @take item _ _ _ =>
      cases running
      cases handler : chain.emptyFifoHandler with
      | true => exact Or.inl rfl
      | false =>
          rw [handler] at works
          cases item with
          | driverWork => exact absurd works (by decide)
          | emptyFifo => exact absurd works (by decide)
  | callHandler _ =>
      rw [callHandler] at running
      split at running
      · cases running
        exact absurd works (by decide)
      · cases running
        exact absurd works (by decide)
  | burst fetching | failure fetching => exact Or.inr ⟨.fetching, fetching, by decide⟩
  | finish _ _ => cases running

theorem progress_chain (progress : Progress world) {action : Action} {chain : Chain}
    (moves : SamplingChain.step world.chain action = some chain) :
    Progress { world with chain := chain } := by
  obtain ⟨data, handler, mapped⟩ := step_frame moves
  constructor
  · rw [data]
    exact progress.unset
  · rw [data]
    exact progress.registered
  · rw [data, mapped]
    exact progress.armed
  · exact progress.second
  · exact progress.third
  · rw [handler]
    exact progress.last
  · intro job running works
    rw [handler]
    rcases step_works moves running works with there | ⟨before, running', works'⟩
    · exact there
    · exact progress.worked before running' works'

theorem on_the_way (progress : Progress world) (before : world.position ≠ .ended) :
    world.chain.emptyFifoHandler = false := by
  cases handler : world.chain.emptyFifoHandler with
  | false => rfl
  | true => exact absurd (progress.last handler).1 before

def plain : List Position := [.modem, .connect, .initCoapSend, .ended]

theorem progress_moved (progress : Progress world) (unready : world.chain.emptyFifoHandler = false)
    {position : Position} (free : position ∈ plain) :
    Progress { world with position := position } := by
  constructor
  · rintro rfl
    exact absurd free (by decide)
  · rintro rfl
    exact absurd free (by decide)
  · exact progress.armed
  · rintro rfl
    exact absurd free (by decide)
  · rintro rfl
    exact absurd free (by decide)
  · intro handler
    rw [unready] at handler
    cases handler
  · exact progress.worked

theorem progress_mapped (progress : Progress world) (armed : world.chain.drvData = armedData) :
    Progress { world with chain := { world.chain with chip := world.chain.chip.map } } :=
  ⟨progress.unset, progress.registered, fun _ => armed, progress.second, progress.third,
    progress.last, progress.worked⟩

theorem progress_registered (progress : Progress world)
    (unready : world.chain.emptyFifoHandler = false) (unset : world.chain.drvData = zeroedData) :
    Progress { world with
      position := .mapping
      chain := { world.chain with drvData := registerTrigger world.chain.drvData } } := by
  have armed : registerTrigger world.chain.drvData = armedData := by
    rw [unset]
    rfl
  constructor
  · exact nofun
  · exact fun _ => armed
  · exact fun _ => armed
  · exact nofun
  · exact nofun
  · intro handler
    have there : world.chain.emptyFifoHandler = true := handler
    rw [unready] at there
    cases there
  · exact progress.worked

theorem progress_main (progress : Progress world) (moves : mainStep outcomes world = some next) :
    Progress next := by
  have way := on_the_way progress
  cases position : world.position with
  | sensors =>
      have unready := way (by rw [position]; decide)
      simp only [mainStep, position] at moves
      split at moves
      · cases moves
        exact progress_moved progress unready (by decide)
      · cases moves
        exact progress_registered progress unready (progress.unset position)
  | mapping =>
      have unready := way (by rw [position]; decide)
      have armed := progress.registered position
      have modem := @progress_moved world progress unready .modem (by decide)
      simp only [mainStep, position, initialize_sensors_zero, Int.lt_irrefl, ↓reduceIte] at moves
      split at moves
      · cases moves
        exact progress_mapped modem armed
      · cases moves
        exact modem
  | modem =>
      have unready := way (by rw [position]; decide)
      simp only [mainStep, position] at moves
      cases moves
      apply progress_moved progress unready
      split <;> decide
  | connect =>
      have unready := way (by rw [position]; decide)
      simp only [mainStep, position] at moves
      cases moves
      apply progress_moved progress unready
      split <;> decide
  | initCoapSend =>
      have unready := way (by rw [position]; decide)
      simp only [mainStep, position] at moves
      cases moves
      constructor
      · exact nofun
      · exact nofun
      · exact progress.armed
      · exact fun _ => List.mem_append_right _ (List.mem_singleton_self _)
      · exact nofun
      · intro handler
        rw [unready] at handler
        cases handler
      · exact progress.worked
  | startQueue =>
      have unready := way (by rw [position]; decide)
      have first := progress.second position
      simp only [mainStep, position] at moves
      cases moves
      constructor
      · exact nofun
      · exact nofun
      · exact progress.armed
      · exact nofun
      · exact fun _ => ⟨List.mem_append_left _ first,
          List.mem_append_right _ (List.mem_singleton_self _)⟩
      · intro handler
        rw [unready] at handler
        cases handler
      · exact progress.worked
  | initEmptyFifo =>
      obtain ⟨first, second⟩ := progress.third position
      simp only [mainStep, position] at moves
      cases moves
      constructor
      · exact nofun
      · exact nofun
      · exact progress.armed
      · exact nofun
      · exact nofun
      · exact fun _ => ⟨rfl, List.mem_append_left _ first, List.mem_append_left _ second⟩
      · exact fun _ _ _ => rfl
  | ended =>
      simp only [mainStep, position] at moves
      cases moves

theorem progress_step (progress : Progress world) {event : Event}
    (moves : step outcomes world event = some next) : Progress next := by
  cases step_moved moves with
  | main acts => exact progress_main progress acts
  | chain acts => exact progress_chain progress acts
  | submitUpload encoding =>
      have handler := progress.worked .encoding encoding (by decide)
      exact ⟨progress.unset, progress.registered, progress.armed, progress.second, progress.third,
        progress.last, fun _ _ _ => handler⟩
  | startUpload _ | finishUpload _ =>
      exact ⟨progress.unset, progress.registered, progress.armed, progress.second, progress.third,
        progress.last, progress.worked⟩

theorem boot_progress (words : Nat) : Progress (boot words) := by
  constructor
  · exact fun _ => rfl
  · exact nofun
  · intro mapped
    cases mapped
  · exact nofun
  · exact nofun
  · intro handler
    cases handler
  · intro job running
    cases running

theorem uploads_ordered (reached : Reaches (step outcomes) (boot words) world)
    (moves : step outcomes world .submitUpload = some next) : Orderly world .submitUpload := by
  have progress := reaches_invariant (boot_progress words)
    (fun _ _ _ progress moves => progress_step progress moves) reached
  cases step_moved moves with
  | submitUpload encoding => exact (progress.last (progress.worked .encoding encoding (by decide))).2

/-- The steps made so far and the checks that `main` has passed. -/
def Path (outcomes : Outcomes) (world : World) : Prop :=
  match world.position with
  | .sensors | .mapping | .modem => world.made = []
  | .connect => world.made = [] ∧ ¬ initializeModem outcomes < 0
  | .initCoapSend => world.made = [] ∧ ¬ initializeModem outcomes < 0 ∧ ¬ connectToServer outcomes < 0
  | .startQueue => world.made = [.initCoapSend] ∧
      ¬ initializeModem outcomes < 0 ∧ ¬ connectToServer outcomes < 0
  | .initEmptyFifo => world.made = [.initCoapSend, .startQueue] ∧
      ¬ initializeModem outcomes < 0 ∧ ¬ connectToServer outcomes < 0
  | .ended => world.made = (main outcomes).2

theorem path_main (path : Path outcomes world) (moves : mainStep outcomes world = some next) :
    Path outcomes next := by
  have sensors := initialize_sensors_zero outcomes
  cases position : world.position with
  | sensors =>
      simp only [Path, position] at path
      simp only [mainStep, position] at moves
      split at moves
      · cases moves
        exact path
      · cases moves
        exact path
  | mapping =>
      simp only [Path, position] at path
      simp only [mainStep, position, sensors, Int.lt_irrefl, ↓reduceIte] at moves
      cases moves
      exact path
  | modem =>
      simp only [Path, position] at path
      simp only [mainStep, position] at moves
      cases moves
      by_cases failed : initializeModem outcomes < 0
      · simp only [Path, failed, ↓reduceIte, main, sensors, Int.lt_irrefl, path]
      · simp only [Path, failed, ↓reduceIte, path, not_false_eq_true, and_self]
  | connect =>
      simp only [Path, position] at path
      simp only [mainStep, position] at moves
      cases moves
      by_cases failed : connectToServer outcomes < 0
      · simp only [Path, failed, ↓reduceIte, main, sensors, Int.lt_irrefl, path]
      · simp only [Path, failed, ↓reduceIte, path, not_false_eq_true, and_self]
  | initCoapSend =>
      simp only [Path, position] at path
      simp only [mainStep, position] at moves
      cases moves
      exact ⟨by rw [path.1]; rfl, path.2⟩
  | startQueue =>
      simp only [Path, position] at path
      simp only [mainStep, position] at moves
      cases moves
      exact ⟨by rw [path.1]; rfl, path.2⟩
  | initEmptyFifo =>
      simp only [Path, position] at path
      simp only [mainStep, position] at moves
      cases moves
      simp only [Path, main, sensors, Int.lt_irrefl, ↓reduceIte, path, List.cons_append,
        List.nil_append]
  | ended =>
      simp only [mainStep, position] at moves
      cases moves

theorem path_step (path : Path outcomes world) {event : Event}
    (moves : step outcomes world event = some next) : Path outcomes next := by
  cases step_moved moves with
  | main acts => exact path_main path acts
  | chain _ | submitUpload _ | startUpload _ | finishUpload _ => exact path

/-- Under every interleaving `main` ends with the steps that it makes by itself. -/
theorem steps_made (reached : Reaches (step outcomes) (boot words) world)
    (ended' : world.position = .ended) : world.made = (main outcomes).2 := by
  have begins : Path outcomes (boot words) := rfl
  have path := reaches_invariant begins (fun _ _ _ path moves => path_step path moves) reached
  simp only [Path, ended'] at path
  exact path

end Order

section Calm

variable {outcomes : Outcomes} {words : Nat} {world next : World} {event : Event}

/-- Until `empty_fifo` has its handler nothing runs, and an interrupt that is due is
pending or with the driver's work item. -/
structure Calm (world : World) : Prop where
  free : world.chain.queue.running = none
  unsubmitted : Item.emptyFifo ∉ world.chain.queue.waiting
  quiet : world.coapSend = idle
  signalled : world.chain.chip.mapped = true → watermark ≤ world.chain.chip.level →
    world.chain.chip.edge = true ∨ Item.driverWork ∈ world.chain.queue.waiting

theorem calm_chain (calm : Calm world) (unready : world.chain.emptyFifoHandler = false)
    {action : Action} {chain : Chain} (moves : SamplingChain.step world.chain action = some chain)
    (waits : unhurried world (.chain action) = true) : Calm { world with chain := chain } := by
  have free := calm.free
  cases step_acted moves with
  | arrive words =>
      exact ⟨free, calm.unsubmitted, calm.quiet, fun mapped =>
        arrive_signals mapped (calm.signalled mapped)⟩
  | interrupt _ =>
      refine ⟨?_, ?_, calm.quiet, ?_⟩
      · rw [submit_running]
        exact free
      · rw [submit_waiting]
        rintro (there | same)
        · exact calm.unsubmitted there
        · cases same
      · intro _ _
        exact Or.inr ((submit_waiting _ _ _).mpr (Or.inr rfl))
  | @take item rest _ waiting =>
      cases item with
      | driverWork =>
          rw [unhurried, waiting, unready] at waits
          cases waits
      | emptyFifo =>
          have there : Item.emptyFifo ∈ world.chain.queue.waiting := by
            rw [waiting]
            exact List.mem_cons_self
          exact absurd there calm.unsubmitted
  | callHandler running | burst running | failure running | finish running _ =>
      rw [free] at running
      cases running

theorem calm_main (calm : Calm world) (moves : mainStep outcomes world = some next) : Calm next := by
  have same {position : Position} {made : List StartStep} {drvData : Adxl362Data AppHandler}
      {handler : Bool} :
      Calm { world with
        position := position
        made := made
        chain := { world.chain with drvData := drvData, emptyFifoHandler := handler } } :=
    ⟨calm.free, calm.unsubmitted, calm.quiet, calm.signalled⟩
  cases position : world.position with
  | sensors =>
      simp only [mainStep, position] at moves
      split at moves
      · cases moves
        exact same
      · cases moves
        exact same
  | mapping =>
      simp only [mainStep, position, initialize_sensors_zero, Int.lt_irrefl, ↓reduceIte] at moves
      split at moves
      · cases moves
        exact ⟨calm.free, calm.unsubmitted, calm.quiet, fun _ => map_signals calm.signalled⟩
      · cases moves
        exact same
  | modem =>
      simp only [mainStep, position] at moves
      cases moves
      exact same
  | connect =>
      simp only [mainStep, position] at moves
      cases moves
      exact same
  | initCoapSend =>
      simp only [mainStep, position] at moves
      cases moves
      exact ⟨calm.free, calm.unsubmitted, rfl, calm.signalled⟩
  | startQueue =>
      simp only [mainStep, position] at moves
      cases moves
      exact same
  | initEmptyFifo =>
      simp only [mainStep, position] at moves
      cases moves
      exact same
  | ended =>
      simp only [mainStep, position] at moves
      cases moves

theorem calm_step (calm : Calm world) (unready : world.chain.emptyFifoHandler = false)
    {event : Event} (moves : unhurriedStep outcomes world event = some next) : Calm next := by
  simp only [unhurriedStep, Option.ite_none_right_eq_some] at moves
  obtain ⟨waits, moves⟩ := moves
  cases step_moved moves with
  | main acts => exact calm_main calm acts
  | chain acts => exact calm_chain calm unready acts waits
  | submitUpload encoding =>
      rw [calm.free] at encoding
      cases encoding
  | startUpload queued =>
      rw [calm.quiet] at queued
      cases queued
  | finishUpload running =>
      rw [calm.quiet] at running
      cases running

theorem handler_kept (progress : Progress world) (moves : step outcomes world event = some next)
    (unready : next.chain.emptyFifoHandler = false) : world.chain.emptyFifoHandler = false := by
  cases step_moved moves with
  | main acts =>
      cases handler : world.chain.emptyFifoHandler with
      | false => rfl
      | true =>
          simp only [mainStep, (progress.last handler).1] at acts
          cases acts
  | chain acts =>
      rw [← (step_frame acts).2.1]
      exact unready
  | submitUpload _ | startUpload _ | finishUpload _ => exact unready

structure Waiting (world : World) : Prop where
  progress : Progress world
  calm : world.chain.emptyFifoHandler = false → Calm world

theorem boot_waiting (words : Nat) : Waiting (boot words) := by
  refine ⟨boot_progress words, fun _ => ⟨rfl, List.not_mem_nil, rfl, ?_⟩⟩
  intro mapped
  cases mapped

theorem waiting_step (waiting : Waiting world)
    (moves : unhurriedStep outcomes world event = some next) : Waiting next := by
  have moves' := moves
  simp only [unhurriedStep, Option.ite_none_right_eq_some] at moves'
  refine ⟨progress_step waiting.progress moves'.2, ?_⟩
  intro unready
  have before := handler_kept waiting.progress moves'.2 unready
  exact calm_step (waiting.calm before) before moves

theorem waiting_reached (reached : Reaches (unhurriedStep outcomes) (boot words) world) :
    Waiting world :=
  reaches_invariant (boot_waiting words) (fun _ _ _ waiting moves => waiting_step waiting moves)
    reached

theorem waiting_orderly (waiting : Waiting world) (moves : step outcomes world event = some next) :
    Orderly world event := by
  have way := on_the_way waiting.progress
  cases step_moved moves with
  | main _ =>
      simp only [Orderly]
      split
      · rename_i position
        exact (waiting.calm (way (by rw [position]; decide))).quiet
      · rename_i position
        have calm := waiting.calm (way (by rw [position]; decide))
        refine ⟨calm.unsubmitted, ?_⟩
        intro job running
        rw [calm.free] at running
        cases running
      · trivial
  | @chain action _ acts =>
      cases action with
      | callHandler =>
          intro calls _
          cases step_acted acts with
          | callHandler running =>
              cases handler : world.chain.emptyFifoHandler with
              | true => rfl
              | false =>
                  rw [(waiting.calm handler).free] at running
                  cases running
      | arrive _ | interrupt | take | transfer _ | finish => trivial
  | submitUpload encoding =>
      have handler := waiting.progress.worked .encoding encoding (by decide)
      exact (waiting.progress.last handler).2
  | startUpload _ | finishUpload _ => trivial

/-- The start-up is in order in every run in which the driver's work item is not
turned to before `main` has made its last step. -/
theorem startup_ordered (outcomes : Outcomes) (words : Nat) :
    Ordered (unhurriedStep outcomes) (boot words) := by
  intro world reached event next moves
  simp only [unhurriedStep, Option.ite_none_right_eq_some] at moves
  exact waiting_orderly (waiting_reached reached) moves.2

/-- With the last step of `main` such a run is ready to sample, if the interrupt could
be mapped. -/
theorem startup_ready (reached : Reaches (unhurriedStep outcomes) (boot words) world)
    (last : world.position = .initEmptyFifo) (mapped : world.chain.chip.mapped = true)
    (moves : mainStep outcomes world = some next) : Ready next.chain := by
  have waiting := waiting_reached reached
  have unready := on_the_way waiting.progress (by rw [last]; decide)
  have calm := waiting.calm unready
  simp only [mainStep, last] at moves
  cases moves
  exact ⟨mapped, waiting.progress.armed mapped, rfl, calm.free, calm.unsubmitted,
    calm.signalled mapped⟩

end Calm

section Haste

variable {outcomes : Outcomes} {world next : World}

theorem hasty_disorderly (armed : world.chain.drvData = armedData)
    (unready : world.chain.emptyFifoHandler = false)
    (hasty : world.chain.queue.waiting.head? = some .driverWork)
    (moves : step outcomes world (.chain .take) = some next) :
    (step outcomes next (.chain .callHandler)).isSome = true ∧
      ¬ Orderly next (.chain .callHandler) := by
  obtain ⟨chain, moves', rfl⟩ := Option.map_eq_some_iff.mp moves
  obtain ⟨queue, taken, rfl⟩ := Option.map_eq_some_iff.mp moves'
  obtain ⟨item, rest, -, waiting, rfl⟩ := take_cases taken
  rw [waiting, List.head?_cons] at hasty
  cases hasty
  refine ⟨rfl, ?_⟩
  intro orderly
  have handler := orderly [⟨.triggerHandler, some trig⟩] (by rw [armed]; rfl)
  rw [unready] at handler
  cases handler

def succeeding : Outcomes := { unarmed with sensorTriggerSet := 0 }

def attaching : World :=
  { position := .modem, made := []
    chain :=
      { chip := ⟨509, by decide, true, false⟩, drvData := armedData, emptyFifoHandler := false
        queue := ⟨[], some .workCb⟩ }
    coapSend := idle }

theorem startup_disordered : ¬ ∀ outcomes words, Ordered (step outcomes) (boot words) := by
  intro ordered
  have runs : execute (step succeeding) (boot 0) [.main, .main, .chain (.arrive 509),
      .chain .interrupt, .chain .take] = some attaching := by
    decide +kernel
  have reached := execute_reaches (step succeeding) _ .start runs
  have orderly := ordered succeeding 0 attaching reached (.chain .callHandler) _ rfl
  have handler := orderly [⟨.triggerHandler, some trig⟩] rfl
  cases handler

end Haste

end ThingyAccel.StartupOrder
