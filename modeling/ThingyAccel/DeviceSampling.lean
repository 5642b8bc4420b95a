import ThingyAccel.Adxl362Operation

/-!
The sampling chain over the registers of the accelerometer: calls of the driver, samples,
interrupts and work items in any order, from the start-up over the `sensor_trigger_set` of
the application on.
-/
namespace ThingyAccel.DeviceSampling

open RegisterBus Adxl362Registers Adxl362Configuration Adxl362Calls Adxl362Operation SamplingChain
  Executions
open Adxl362Trigger (Event zeroedData intmap1FifoWatermark)

/-- The device with its driver, and the chain behind its interrupt. -/
structure Working where
  dev : Device AppHandler
  chain : Chain

inductive Action where
  | call (call : DriverCall AppHandler)
  | chain (action : SamplingChain.Action)

def watermarkMapped (dev : Device AppHandler) : Bool :=
  decide (dev.registers.values regIntmap1 &&& intmap1FifoWatermark ≠ 0)

def initialised (dev : Device AppHandler) (level : Nat) (fits : level ≤ fifoCapacity) : Working :=
  ⟨dev, ⟨⟨level, fits, watermarkMapped dev, false⟩, dev.drvData, true, ⟨[], none⟩⟩⟩

/-- INT1 follows the registers; a fetch that succeeds takes its words out of the FIFO. -/
def follow (chip : Chip) (call : DriverCall AppHandler) (result : Except Int Unit)
    (mapped : Bool) : Chip :=
  match call, result with
  | .sampleFetch, .ok _ => chip.burst
  | _, _ => chip.become chip.level chip.fits mapped

section Steps

variable (surroundings : Surroundings) (config : Config)

def called (working : Working) (call : DriverCall AppHandler) : Working :=
  let ends := driverCall surroundings config call working.dev
  ⟨ends.2, { working.chain with
    chip := follow working.chain.chip call ends.1 (watermarkMapped ends.2)
    drvData := ends.2.drvData }⟩

def workingStep (working : Working) : Action → Option Working
  | .call call => some (called surroundings config working call)
  | .chain (.transfer succeeds) =>
      -- `empty_fifo_fn` fetches through the driver.
      let ends := driverCall surroundings config .sampleFetch working.dev
      if ends.1.isOk = succeeds then
        (step working.chain (.transfer succeeds)).map fun chain => ⟨ends.2, chain⟩
      else none
  | .chain action => (step working.chain action).map fun chain => ⟨working.dev, chain⟩

/-- Calls that register no handler, and steps whose failed transfers recover. -/
def quiet (working : Working) : Action → Bool
  | .call call =>
      !([Event.fifoWatermark, .inactivity, .activity, .dataReady].any fun event => concerns event call)
  | .chain action => recovers working.chain action

def quietStep (working : Working) (action : Action) : Option Working :=
  if quiet working action then workingStep surroundings config working action else none

end Steps

section Quiet

variable {surroundings : Surroundings} {config : Config} {working next : Working}
  {call : DriverCall AppHandler}

theorem quiet_unconcerned (quiet' : quiet working (.call call) = true) (event : Event) :
    concerns event call = false := by
  simp only [quiet, List.any_cons, List.any_nil, Bool.or_false, Bool.not_eq_true',
    Bool.or_eq_false_iff] at quiet'
  obtain ⟨watermark, inactivity, activity, ready⟩ := quiet'
  cases event with
  | fifoWatermark => exact watermark
  | inactivity => exact inactivity
  | activity => exact activity
  | dataReady => exact ready

theorem quiet_call (unconcerned : ∀ event, concerns event call = false) (dev : Device AppHandler) :
    watermarkMapped (driverCall surroundings config call dev).2 = watermarkMapped dev ∧
      (driverCall surroundings config call dev).2.drvData = dev.drvData := by
  rcases acted_intmap (@call_acted _ surroundings config call dev) with
    ⟨same, data, -⟩ | ⟨trig, handler, event, rfl, type, -⟩
  · rw [watermarkMapped, same]
    exact ⟨rfl, data⟩
  · exact absurd type (of_decide_eq_false (unconcerned event))

theorem become_same (chip : Chip) : chip.become chip.level chip.fits chip.mapped = chip := by
  have settled : (!chip.int1 && (chip.mapped && decide (watermark ≤ chip.level))) = false := by
    rw [← Chip.int1, Bool.not_and_self]
  rw [Chip.become, settled, Bool.or_false]

/-- The settings of the start-up are there, and the chain is that of the registers. -/
structure Coherent (surroundings : Surroundings) (config : Config) (working : Working) : Prop where
  settled : Settled config surroundings.initial working.dev.registers.values
  mapped : working.chain.chip.mapped = watermarkMapped working.dev
  data : working.chain.drvData = working.dev.drvData

theorem follow_cases (chip : Chip) (result : Except Int Unit) :
    follow chip call result chip.mapped = chip ∨
      follow chip call result chip.mapped = chip.burst := by
  unfold follow
  split
  · exact Or.inr rfl
  · exact Or.inl (become_same chip)

theorem burst_mapped (chip : Chip) : chip.burst.mapped = chip.mapped := by
  rw [Chip.burst, Chip.become]

inductive Evolves (chain : Chain) : Chain → Prop where
  | alone : Evolves chain chain
  | fetched {chip : Chip} (burst : chip = chain.chip.burst) : Evolves chain { chain with chip := chip }
  | step {action : SamplingChain.Action} {next : Chain}
      (moves : recoveringStep chain action = some next) : Evolves chain next

theorem coherent_call (coherent : Coherent surroundings config working)
    (unconcerned : ∀ event, concerns event call = false) :
    Coherent surroundings config (called surroundings config working call) ∧
      Evolves working.chain (called surroundings config working call).chain := by
  obtain ⟨mapped, data⟩ := @quiet_call surroundings config call unconcerned working.dev
  have settled := acted_settles (@call_acted _ surroundings config call working.dev) coherent.settled
  rw [called]
  generalize driverCall surroundings config call working.dev = ends at mapped data settled ⊢
  have kept := @follow_cases call working.chain.chip ends.1
  rw [coherent.mapped, ← mapped] at kept
  generalize follow working.chain.chip call ends.1 (watermarkMapped ends.2) = chip at kept ⊢
  have frame : { working.chain with chip := chip, drvData := ends.2.drvData } =
      { working.chain with chip := chip } := by
    rw [data, ← coherent.data]
  have line : chip.mapped = working.chain.chip.mapped := by
    rcases kept with same | burst
    · rw [same]
    · rw [burst, burst_mapped]
  constructor
  · exact ⟨settled, line.trans (coherent.mapped.trans mapped.symm), rfl⟩
  · show Evolves working.chain { working.chain with chip := chip, drvData := ends.2.drvData }
    rw [frame]
    rcases kept with same | burst
    · rw [same]
      exact .alone
    · exact .fetched burst

theorem fetch_idle (dev : Device AppHandler) :
    (driverCall surroundings config .sampleFetch dev).2.registers.values = dev.registers.values ∧
      (driverCall surroundings config .sampleFetch dev).2.drvData = dev.drvData := by
  rw [driverCall, adxl362FifoCmd]
  split <;> exact ⟨rfl, rfl⟩

theorem coherent_step (coherent : Coherent surroundings config working) {action : Action}
    (moves : quietStep surroundings config working action = some next) :
    Coherent surroundings config next ∧ Evolves working.chain next.chain := by
  rw [quietStep] at moves
  split at moves
  · rename_i allowed
    cases action with
    | call call =>
        cases moves
        exact coherent_call coherent (quiet_unconcerned allowed)
    | chain action =>
        have recovering (chain : Chain) (moved : step working.chain action = some chain) :
            recoveringStep working.chain action = some chain := by
          rw [recoveringStep, if_pos (show recovers working.chain action = true from allowed), moved]
        have onward {dev : Device AppHandler} {chain : Chain}
            (moved : step working.chain action = some chain)
            (values : dev.registers.values = working.dev.registers.values)
            (data : dev.drvData = working.dev.drvData) :
            Coherent surroundings config ⟨dev, chain⟩ ∧ Evolves working.chain chain := by
          obtain ⟨same, -, mapped⟩ := step_frame moved
          refine ⟨⟨?_, ?_, same.trans (coherent.data.trans data.symm)⟩, .step (recovering chain moved)⟩
          · show Settled config surroundings.initial dev.registers.values
            rw [values]
            exact coherent.settled
          · show chain.chip.mapped = _
            rw [mapped, coherent.mapped, watermarkMapped, watermarkMapped, values]
        cases action with
        | transfer succeeds =>
            simp only [workingStep, Option.ite_none_right_eq_some] at moves
            obtain ⟨chain, moved, rfl⟩ := Option.map_eq_some_iff.mp moves.2
            obtain ⟨values, data⟩ := @fetch_idle surroundings config working.dev
            exact onward moved values data
        | arrive _ | interrupt | take | callHandler | finish =>
            simp only [workingStep] at moves
            obtain ⟨chain, moved, rfl⟩ := Option.map_eq_some_iff.mp moves
            exact onward moved rfl rfl
  · cases moves

theorem coherent_run {kept : Chain → Prop}
    (evolving : ∀ {chain later : Chain}, kept chain → Evolves chain later → kept later)
    (coherent : Coherent surroundings config working) (begins : kept working.chain)
    (reached : Reaches (quietStep surroundings config) working next) :
    Coherent surroundings config next ∧ kept next.chain := by
  refine @reaches_invariant _ _ _ _ _
    (fun working => Coherent surroundings config working ∧ kept working.chain)
    ⟨coherent, begins⟩ ?_ reached
  rintro working action next ⟨coherent, holds⟩ moves
  obtain ⟨coherent', evolves⟩ := coherent_step coherent moves
  exact ⟨coherent', evolving holds evolves⟩

end Quiet

section Arming

variable {surroundings : Surroundings} {config : Config} {working next : Working}
  {dev after : Device AppHandler}

structure Resting (chain : Chain) : Prop where
  unmapped : chain.chip.mapped = false
  calm : chain.chip.edge = false
  zeroed : chain.drvData = zeroedData
  initialised : chain.emptyFifoHandler = true
  queue : chain.queue = ⟨[], none⟩

theorem become_calm {chip : Chip} (calm : chip.edge = false) {level : Nat}
    (fits : level ≤ fifoCapacity) : (chip.become level fits false).edge = false := by
  rw [Chip.become, calm, Bool.false_and, Bool.and_false, Bool.or_false]

theorem resting_evolves {chain later : Chain} (resting : Resting chain)
    (evolves : Evolves chain later) : Resting later := by
  obtain ⟨unmapped, calm, zeroed, initialised, queue⟩ := resting
  have free : chain.queue.running = none := by rw [queue]
  cases evolves with
  | alone => exact ⟨unmapped, calm, zeroed, initialised, queue⟩
  | @fetched chip burst =>
      refine ⟨?_, ?_, zeroed, initialised, queue⟩
      · show chip.mapped = false
        rw [burst, burst_mapped, unmapped]
      · show chip.edge = false
        rw [burst, Chip.burst, unmapped]
        exact become_calm calm _
  | step moves =>
      simp only [recoveringStep, Option.ite_none_right_eq_some] at moves
      cases step_acted moves.2 with
      | arrive words =>
          refine ⟨unmapped, ?_, zeroed, initialised, queue⟩
          rw [Chip.arrive, unmapped]
          exact become_calm calm _
      | interrupt edge =>
          rw [calm] at edge
          cases edge
      | take _ waiting =>
          rw [queue] at waiting
          cases waiting
      | callHandler running | burst running | failure running | finish running =>
          rw [free] at running
          cases running

theorem watched_evolves {chain later : Chain} (watched : Watched chain)
    (evolves : Evolves chain later) : Watched later := by
  cases evolves with
  | alone => exact watched
  | @fetched chip burst =>
      have below := burst_below chain.chip
      have mapped := burst_mapped chain.chip
      rw [← burst] at below mapped
      refine ⟨mapped.trans watched.mapped, watched.armed, watched.initialised, watched.sound, ?_⟩
      intro full
      exact absurd full (Nat.not_le_of_lt below)
  | step moves => exact watched_step watched moves

def arming : DriverCall AppHandler := .triggerSet trig (some .triggerHandler)

theorem arming_registers (dev : Device AppHandler) (zeroed : dev.drvData = zeroedData)
    (arms : (driverCall surroundings config arming dev).1 = .ok ()) :
    watermarkMapped (driverCall surroundings config arming dev).2 = true ∧
      (driverCall surroundings config arming dev).2.drvData = armedData := by
  have enabled := @trigger_enables _ surroundings config .fifoWatermark arming dev rfl
    (by rw [arms]; rfl)
  rcases acted_intmap (@call_acted _ surroundings config arming dev) with
    ⟨-, -, impossible | failed | other⟩ | ⟨_, _, _, call, -, data, -⟩
  · cases impossible
  · rw [arms] at failed
    cases failed
  · exact absurd rfl (other trig (some .triggerHandler))
  · cases call
    rw [zeroed] at data
    have bit := enabled.mapped
    rw [enabled.kept trig (some .triggerHandler) rfl] at bit
    have there : (driverCall surroundings config arming dev).2.registers.values regIntmap1 &&&
        intmap1FifoWatermark = intmap1FifoWatermark := bit
    rw [watermarkMapped, there]
    exact ⟨by decide, data⟩

theorem armed_ready (coherent : Coherent surroundings config working)
    (resting : Resting working.chain)
    (arms : (driverCall surroundings config arming working.dev).1 = .ok ()) :
    Coherent surroundings config (called surroundings config working arming) ∧
      Ready (called surroundings config working arming).chain := by
  obtain ⟨mapped, data⟩ :=
    arming_registers working.dev (coherent.data.symm.trans resting.zeroed) arms
  have settled := acted_settles (@call_acted _ surroundings config arming working.dev) coherent.settled
  have armed : called surroundings config working arming =
      ⟨(driverCall surroundings config arming working.dev).2,
        { working.chain with chip := working.chain.chip.map, drvData := armedData }⟩ := by
    rw [called, mapped, data]
    rfl
  rw [armed]
  refine ⟨⟨settled, mapped.symm, data.symm⟩, ⟨rfl, rfl, resting.initialised, ?_, ?_, ?_⟩⟩
  · show working.chain.queue.running = none
    rw [resting.queue]
  · show Item.emptyFifo ∉ working.chain.queue.waiting
    rw [resting.queue]
    exact List.not_mem_nil
  · intro full
    left
    rcases become_signals working.chain.chip.fits full with edge | ⟨active, -⟩
    · exact edge
    · rw [resting.unmapped] at active
      cases active

/-- A FIFO at the watermark has an edge pending, or a work item queued or running that has
its look at the FIFO still before it. -/
def Due (chain : Chain) : Prop :=
  watermark ≤ chain.chip.level → chain.chip.edge = true ∨
    Item.driverWork ∈ chain.queue.waiting ∨ Item.emptyFifo ∈ chain.queue.waiting ∨
    chain.queue.running = some .workCb ∨ chain.queue.running = some .fetching

theorem initialised_coherent (starts : adxl362Init surroundings config dev = (.ok (), after))
    {level : Nat} (fits : level ≤ fifoCapacity) :
    Coherent surroundings config (initialised after level fits) :=
  ⟨configured_settled (init_configured starts).1, rfl, rfl⟩

theorem initialised_resting (starts : adxl362Init surroundings config dev = (.ok (), after))
    (port : config.interruptPort = true) (unmapped : config.int1Config = 0)
    (zeroed : dev.drvData = zeroedData) {level : Nat} (fits : level ≤ fifoCapacity) :
    Resting (initialised after level fits).chain := by
  obtain ⟨configured, -, data⟩ := init_configured starts
  refine ⟨?_, rfl, data.trans zeroed, rfl, rfl⟩
  show decide (after.registers.values regIntmap1 &&& intmap1FifoWatermark ≠ 0) = false
  rw [(configured.intmap port).1, unmapped]
  decide

/-- Once `adxl362_init` and the `sensor_trigger_set` of the application have returned zero,
the level in the registers is that of the chain, the watermark is mapped and a FIFO at it is
due, whatever is called that registers no handler, as long as failed transfers leave
something to look at the FIFO again. -/
theorem registers_attended (starts : adxl362Init surroundings config dev = (.ok (), after))
    (port : config.interruptPort = true) (unmapped : config.int1Config = 0)
    (zeroed : dev.drvData = zeroedData) {level : Nat} (fits : level ≤ fifoCapacity)
    {unarmed working : Working}
    (before : Reaches (quietStep surroundings config) (initialised after level fits) unarmed)
    (arms : (driverCall surroundings config arming unarmed.dev).1 = .ok ())
    (reached : Reaches (quietStep surroundings config) (called surroundings config unarmed arming)
      working) :
    fifoWatermark working.dev.registers.values = watermark ∧ watermarkMapped working.dev = true ∧
      Due working.chain := by
  obtain ⟨coherent, resting⟩ := coherent_run resting_evolves (initialised_coherent starts fits)
    (initialised_resting starts port unmapped zeroed fits) before
  obtain ⟨armed, ready⟩ := armed_ready coherent resting arms
  obtain ⟨coherent', watched⟩ := coherent_run watched_evolves armed (ready_watched ready) reached
  exact ⟨coherent'.settled.level, coherent'.mapped.symm.trans watched.mapped, watched.looked⟩

def earlySteps : List Action :=
  [.call (.attrSet .accelXyz .fullScale ⟨29, 419950⟩), .chain (.arrive 505)]

/-- The watermark is reached while the interrupt mode is set; both work items run, and while
`empty_fifo_fn` still encodes the FIFO fills up again. -/
def lateSteps : List Action :=
  [.chain (.arrive 4), .call (.setInterruptMode modeLink), .chain .interrupt, .chain .take,
    .chain .callHandler, .chain .finish, .chain .take, .chain (.transfer true),
    .call (.attrSet .accelXyz .fullScale ⟨19, 613300⟩), .chain (.arrive 512)]

theorem registers_attended_attached :
    ∃ unarmed working, Reaches (quietStep attached selected)
        (initialised (started attached selected powered) 0 (Nat.zero_le _)) unarmed ∧
      Reaches (quietStep attached selected) (called attached selected unarmed arming) working ∧
      working.chain.chip.level = 512 ∧ fifoWatermark working.dev.registers.values = watermark ∧
      watermarkMapped working.dev = true ∧ Due working.chain := by
  have evaluated : ∃ unarmed ∈ execute (quietStep attached selected)
      (initialised (started attached selected powered) 0 (Nat.zero_le _)) earlySteps,
      (driverCall attached selected arming unarmed.dev).1.isOk = true ∧
      ∃ working ∈ execute (quietStep attached selected) (called attached selected unarmed arming)
        lateSteps, working.chain.chip.level = 512 := by
    decide +kernel
  obtain ⟨unarmed, early, succeeds, working, late, full⟩ := evaluated
  have before := execute_reaches _ earlySteps .start early
  have reached := execute_reaches _ lateSteps .start late
  have arms : (driverCall attached selected arming unarmed.dev).1 = .ok () := by
    cases result : (driverCall attached selected arming unarmed.dev).1 with
    | ok value => rfl
    | error code =>
        rw [result] at succeeds
        cases succeeds
  exact ⟨unarmed, working, before, reached, full,
    registers_attended attached_starts rfl rfl rfl (Nat.zero_le _) before arms reached⟩

end Arming

end ThingyAccel.DeviceSampling
