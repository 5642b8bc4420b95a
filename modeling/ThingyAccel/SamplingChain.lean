import Mathlib.Order.Basic
import ThingyAccel.Adxl362Trigger
import ThingyAccel.Executions
import ThingyAccel.WorkQueue

/-!
From a full FIFO to `empty_fifo_fn`: the accelerometer with its interrupt line, the
driver's work item, `trigger_handler` and the work item `empty_fifo`, all served by
the system work queue. Samples, interrupts and the queue's thread take turns in any
order.
-/
namespace ThingyAccel.SamplingChain

open WorkQueue Adxl362Trigger Executions

def fifoCapacity : Nat := 512

/-- `adxl362_fifo_setup(dev, ADXL362_FIFO_STREAM, 253, false)` with the ninth bit of
the level set. -/
def watermark : Nat := 256 + 253

def burstWords : Nat := 510

/-- The FIFO, whether INTMAP1 maps the watermark to INT1, and whether the GPIO port
has seen an edge that it has not served. -/
structure Chip where
  level : Nat
  fits : level ≤ fifoCapacity
  mapped : Bool
  edge : Bool
  deriving DecidableEq, Repr

def Chip.int1 (chip : Chip) : Bool := chip.mapped && decide (watermark ≤ chip.level)

/-- The port remembers a change of INT1 to active. -/
def Chip.become (chip : Chip) (level : Nat) (fits : level ≤ fifoCapacity) (mapped : Bool) : Chip :=
  { level := level, fits := fits, mapped := mapped
    edge := chip.edge || (!chip.int1 && (mapped && decide (watermark ≤ level))) }

def Chip.arrive (chip : Chip) (words : Nat) : Chip :=
  chip.become (min (chip.level + words) fifoCapacity) (Nat.min_le_right _ _) chip.mapped

def Chip.burst (chip : Chip) : Chip :=
  chip.become (chip.level - burstWords) (Nat.le_trans (Nat.sub_le _ _) chip.fits) chip.mapped

def Chip.map (chip : Chip) : Chip := chip.become chip.level chip.fits true

inductive AppHandler where
  | triggerHandler
  deriving DecidableEq, Repr

inductive Item where
  | driverWork
  | emptyFifo
  deriving DecidableEq, Repr

/-- How far the thread of the system work queue has got in a work item:
`adxl362_work_cb` before and behind the handler's call, `empty_fifo_fn` before and
behind `sensor_sample_fetch`, or a jump to NULL. -/
inductive Job where
  | workCb
  | handled
  | fetching
  | encoding
  | returning
  | nullCall
  deriving DecidableEq, Repr

/-- `emptyFifoHandler` is whether `k_work_init` has given `empty_fifo` its handler. -/
structure Chain where
  chip : Chip
  drvData : Adxl362Data AppHandler
  emptyFifoHandler : Bool
  queue : Queue Item Job
  deriving DecidableEq, Repr

inductive Action where
  | arrive (words : Nat)
  | interrupt
  | take
  | callHandler
  | transfer (succeeds : Bool)
  | finish
  deriving DecidableEq, Repr

def triggerHandler (trig : Option SensorTrigger) (queue : Queue Item Job) : Queue Item Job :=
  match trig with
  | some ⟨.fifo, _⟩ => queue.submit .emptyFifo
  | _ => queue

def begins (emptyFifoHandler : Bool) : Item → Job
  | .driverWork => .workCb
  | .emptyFifo => if emptyFifoHandler then .fetching else .nullCall

def Chain.runs (chain : Chain) (job : Job) : Chain :=
  { chain with queue := { chain.queue with running := some job } }

def callHandler (chain : Chain) : Chain :=
  match adxl362WorkCb chain.drvData with
  | .error _ => chain.runs .nullCall
  | .ok calls =>
      let queue := calls.foldl (fun queue call => triggerHandler call.trigger queue) chain.queue
      ({ chain with queue := queue }).runs .handled

def step (chain : Chain) : Action → Option Chain
  | .arrive words => some { chain with chip := chain.chip.arrive words }
  | .interrupt =>
      if chain.chip.edge then
        some { chain with
          chip := { chain.chip with edge := false }
          queue := chain.queue.submit .driverWork }
      else none
  | .take =>
      (chain.queue.take (begins chain.emptyFifoHandler)).map fun queue => { chain with queue := queue }
  | .callHandler => if chain.queue.running = some .workCb then some (callHandler chain) else none
  | .transfer succeeds =>
      if chain.queue.running = some .fetching then
        -- When the fetch fails, `empty_fifo_fn` returns and the words stay where they are.
        if succeeds then some (({ chain with chip := chain.chip.burst }).runs .encoding)
        else some (chain.runs .returning)
      else none
  | .finish =>
      match chain.queue.running with
      | some .handled | some .encoding | some .returning =>
          some { chain with queue := { chain.queue with running := none } }
      | _ => none

section Spec

def sensorAdxlFifoRaw : Nat := 60

def trig : SensorTrigger := ⟨.fifo, sensorAdxlFifoRaw⟩

def armedData : Adxl362Data AppHandler := triggersSet true [⟨trig, some .triggerHandler, fun _ _ => 0⟩]

/-- Both work items are initialised and the trigger is set, and an interrupt that was
due is pending or has been handed to the driver's work item. -/
structure Ready (chain : Chain) : Prop where
  mapped : chain.chip.mapped = true
  armed : chain.drvData = armedData
  initialised : chain.emptyFifoHandler = true
  free : chain.queue.running = none
  unsubmitted : Item.emptyFifo ∉ chain.queue.waiting
  signalled : watermark ≤ chain.chip.level →
    chain.chip.edge = true ∨ Item.driverWork ∈ chain.queue.waiting

/-- A FIFO at the watermark has an edge pending or a work item queued or running. -/
def Attended (chain : Chain) : Prop :=
  watermark ≤ chain.chip.level → chain.chip.edge = true ∨
    Item.driverWork ∈ chain.queue.waiting ∨ Item.emptyFifo ∈ chain.queue.waiting ∨
    ∃ job, chain.queue.running = some job ∧ job ≠ .nullCall

/-- A transfer that fails leaves the FIFO below the watermark or something pending
that will look at it again. -/
def recovers (chain : Chain) : Action → Bool
  | .transfer false =>
      decide (chain.chip.level < watermark) || chain.chip.edge || !chain.queue.waiting.isEmpty
  | _ => true

def recoveringStep (chain : Chain) (action : Action) : Option Chain :=
  if recovers chain action then step chain action else none

end Spec

section Watch

variable {start chain next : Chain}

theorem become_keeps {chip : Chip} (pending : chip.edge = true) {level : Nat}
    (fits : level ≤ fifoCapacity) (mapped : Bool) : (chip.become level fits mapped).edge = true := by
  rw [Chip.become, pending, Bool.true_or]

theorem become_signals {chip : Chip} {level : Nat} (fits : level ≤ fifoCapacity)
    (full : watermark ≤ level) :
    (chip.become level fits true).edge = true ∨ (chip.mapped = true ∧ watermark ≤ chip.level) := by
  cases active : chip.int1 with
  | false =>
      apply Or.inl
      simp only [Chip.become, active, Bool.not_false, Bool.true_and, decide_eq_true full,
        Bool.or_true]
  | true =>
      rw [Chip.int1, Bool.and_eq_true, decide_eq_true_eq] at active
      exact Or.inr active

inductive Acted (chain : Chain) : Action → Chain → Prop where
  | arrive (words : Nat) : Acted chain (.arrive words) { chain with chip := chain.chip.arrive words }
  | interrupt (edge : chain.chip.edge = true) :
      Acted chain .interrupt { chain with
        chip := { chain.chip with edge := false }
        queue := chain.queue.submit .driverWork }
  | take {item : Item} {rest : List Item} (free : chain.queue.running = none)
      (waiting : chain.queue.waiting = item :: rest) :
      Acted chain .take { chain with queue := ⟨rest, some (begins chain.emptyFifoHandler item)⟩ }
  | callHandler (running : chain.queue.running = some .workCb) :
      Acted chain .callHandler (callHandler chain)
  | burst (fetching : chain.queue.running = some .fetching) :
      Acted chain (.transfer true) (({ chain with chip := chain.chip.burst }).runs .encoding)
  | failure (fetching : chain.queue.running = some .fetching) :
      Acted chain (.transfer false) (chain.runs .returning)
  | finish {job : Job} (running : chain.queue.running = some job)
      (last : job ∈ [.handled, .encoding, .returning]) :
      Acted chain .finish { chain with queue := { chain.queue with running := none } }

theorem step_acted {action : Action} (moves : step chain action = some next) :
    Acted chain action next := by
  cases action with
  | arrive words =>
      cases moves
      exact .arrive words
  | interrupt =>
      simp only [step, Option.ite_none_right_eq_some] at moves
      rw [← Option.some.inj moves.2]
      exact .interrupt moves.1
  | take =>
      obtain ⟨queue, taken, rfl⟩ := Option.map_eq_some_iff.mp moves
      obtain ⟨item, rest, free, waiting, rfl⟩ := take_cases taken
      exact .take free waiting
  | callHandler =>
      simp only [step, Option.ite_none_right_eq_some] at moves
      rw [← Option.some.inj moves.2]
      exact .callHandler moves.1
  | transfer succeeds =>
      simp only [step, Option.ite_none_right_eq_some] at moves
      cases succeeds with
      | true =>
          rw [← Option.some.inj moves.2]
          exact .burst moves.1
      | false =>
          rw [← Option.some.inj moves.2]
          exact .failure moves.1
  | finish =>
      simp only [step] at moves
      split at moves
      · rename_i running
        cases moves
        exact .finish running (by decide)
      · rename_i running
        cases moves
        exact .finish running (by decide)
      · rename_i running
        cases moves
        exact .finish running (by decide)
      · cases moves

theorem step_frame {action : Action} (moves : step chain action = some next) :
    next.drvData = chain.drvData ∧ next.emptyFifoHandler = chain.emptyFifoHandler ∧
      next.chip.mapped = chain.chip.mapped := by
  cases step_acted moves with
  | arrive _ | interrupt _ | take _ _ | failure _ | finish _ _ => exact ⟨rfl, rfl, rfl⟩
  | callHandler _ =>
      rw [callHandler]
      split <;> exact ⟨rfl, rfl, rfl⟩
  | burst _ => simp only [Chain.runs, Chip.burst, Chip.become, and_self]

theorem arrive_signals {chip : Chip} {pending : Prop} {words : Nat} (mapped : chip.mapped = true)
    (before : watermark ≤ chip.level → chip.edge = true ∨ pending)
    (full : watermark ≤ (chip.arrive words).level) :
    (chip.arrive words).edge = true ∨ pending := by
  rw [Chip.arrive, mapped] at full ⊢
  rcases become_signals (Nat.min_le_right _ _) full with edge | ⟨-, before'⟩
  · exact Or.inl edge
  · rcases before before' with edge | waits
    · exact Or.inl (become_keeps edge _ _)
    · exact Or.inr waits

theorem map_signals {chip : Chip} {pending : Prop}
    (before : chip.mapped = true → watermark ≤ chip.level → chip.edge = true ∨ pending)
    (full : watermark ≤ chip.level) : chip.map.edge = true ∨ pending := by
  rcases become_signals chip.fits full with edge | ⟨mapped, before'⟩
  · exact Or.inl edge
  · rcases before mapped before' with edge | waits
    · exact Or.inl (become_keeps edge _ _)
    · exact Or.inr waits

theorem call_handler_armed (armed : chain.drvData = armedData) :
    callHandler chain =
      ({ chain with queue := chain.queue.submit .emptyFifo }).runs .handled := by
  rw [callHandler, armed]
  rfl

/-- What every step keeps while failures recover: something that will look at a full
FIFO is pending, and the job that runs has it still before it otherwise. -/
structure Watched (chain : Chain) : Prop where
  mapped : chain.chip.mapped = true
  armed : chain.drvData = armedData
  initialised : chain.emptyFifoHandler = true
  sound : chain.queue.running ≠ some .nullCall
  looked : watermark ≤ chain.chip.level → chain.chip.edge = true ∨
    Item.driverWork ∈ chain.queue.waiting ∨ Item.emptyFifo ∈ chain.queue.waiting ∨
    chain.queue.running = some .workCb ∨ chain.queue.running = some .fetching

theorem ready_watched (ready : Ready chain) : Watched chain := by
  refine ⟨ready.mapped, ready.armed, ready.initialised, ?_, ?_⟩
  · rw [ready.free]
    intro running
    cases running
  · intro full
    rcases ready.signalled full with edge | waiting
    · exact Or.inl edge
    · exact Or.inr (Or.inl waiting)

theorem watched_attended (watched : Watched chain) : Attended chain := by
  intro full
  rcases watched.looked full with edge | driver | fifo | running | running
  · exact Or.inl edge
  · exact Or.inr (Or.inl driver)
  · exact Or.inr (Or.inr (Or.inl fifo))
  · exact Or.inr (Or.inr (Or.inr ⟨.workCb, running, by decide⟩))
  · exact Or.inr (Or.inr (Or.inr ⟨.fetching, running, by decide⟩))

theorem watched_arrive (watched : Watched chain) (words : Nat) :
    Watched { chain with chip := chain.chip.arrive words } :=
  ⟨watched.mapped, watched.armed, watched.initialised, watched.sound,
    arrive_signals watched.mapped watched.looked⟩

theorem watched_interrupt (watched : Watched chain) :
    Watched { chain with
      chip := { chain.chip with edge := false }
      queue := chain.queue.submit .driverWork } := by
  refine ⟨watched.mapped, watched.armed, watched.initialised, ?_, ?_⟩
  · rw [submit_running]
    exact watched.sound
  · intro _
    exact Or.inr (Or.inl ((submit_waiting _ _ _).mpr (Or.inr rfl)))

theorem watched_take (watched : Watched chain) (item : Item) (rest : List Item) :
    Watched { chain with queue := ⟨rest, some (begins chain.emptyFifoHandler item)⟩ } := by
  rw [watched.initialised]
  refine ⟨watched.mapped, watched.armed, rfl, ?_, ?_⟩
  · cases item with
    | driverWork => exact fun running => by cases running
    | emptyFifo => exact fun running => by cases running
  · intro _
    cases item with
    | driverWork => exact Or.inr (Or.inr (Or.inr (Or.inl rfl)))
    | emptyFifo => exact Or.inr (Or.inr (Or.inr (Or.inr rfl)))

theorem watched_call (watched : Watched chain) : Watched (callHandler chain) := by
  rw [call_handler_armed watched.armed]
  refine ⟨watched.mapped, watched.armed, watched.initialised, by simp [Chain.runs], ?_⟩
  intro _
  exact Or.inr (Or.inr (Or.inl ((submit_waiting _ _ _).mpr (Or.inr rfl))))

theorem burst_below (chip : Chip) : chip.burst.level < watermark := by
  have fits := chip.fits
  simp only [Chip.burst, Chip.become, watermark, burstWords]
  simp only [fifoCapacity] at fits
  omega

theorem watched_burst (watched : Watched chain) :
    Watched (({ chain with chip := chain.chip.burst }).runs .encoding) := by
  have mapped : chain.chip.burst.mapped = true := by
    rw [Chip.burst, Chip.become]
    exact watched.mapped
  have below := burst_below chain.chip
  -- The subtraction of the burst is kept folded.
  obtain ⟨chip, burst⟩ : ∃ chip, chain.chip.burst = chip := ⟨_, rfl⟩
  rw [burst] at mapped below ⊢
  refine ⟨mapped, watched.armed, watched.initialised, by simp [Chain.runs], ?_⟩
  intro full
  exact absurd full (Nat.not_le_of_lt below)

theorem watched_failure (watched : Watched chain)
    (recovering : recovers chain (.transfer false) = true) : Watched (chain.runs .returning) := by
  refine ⟨watched.mapped, watched.armed, watched.initialised, by simp [Chain.runs], ?_⟩
  intro full
  simp only [recovers, Bool.or_eq_true, decide_eq_true_eq, Bool.not_eq_true',
    List.isEmpty_eq_false_iff] at recovering
  rcases recovering with (below | edge) | waiting
  · exact absurd full (Nat.not_le_of_lt below)
  · exact Or.inl edge
  · obtain ⟨item, there⟩ := List.exists_mem_of_ne_nil _ waiting
    cases item with
    | driverWork => exact Or.inr (Or.inl there)
    | emptyFifo => exact Or.inr (Or.inr (Or.inl there))

theorem watched_finish (watched : Watched chain) {job : Job}
    (running : chain.queue.running = some job) (last : job ∈ [.handled, .encoding, .returning]) :
    Watched { chain with queue := { chain.queue with running := none } } := by
  refine ⟨watched.mapped, watched.armed, watched.initialised, by simp, ?_⟩
  intro full
  rcases watched.looked full with edge | driver | fifo | running' | running'
  · exact Or.inl edge
  · exact Or.inr (Or.inl driver)
  · exact Or.inr (Or.inr (Or.inl fifo))
  · rw [running] at running'
    cases running'
    exact absurd last (by decide)
  · rw [running] at running'
    cases running'
    exact absurd last (by decide)

theorem watched_step (watched : Watched chain) {action : Action}
    (moves : recoveringStep chain action = some next) : Watched next := by
  simp only [recoveringStep, Option.ite_none_right_eq_some] at moves
  obtain ⟨recovering, moves⟩ := moves
  cases step_acted moves with
  | arrive words => exact watched_arrive watched words
  | interrupt _ => exact watched_interrupt watched
  | @take item rest _ _ => exact watched_take watched item rest
  | callHandler _ => exact watched_call watched
  | burst _ => exact watched_burst watched
  | failure _ => exact watched_failure watched recovering
  | finish running last => exact watched_finish watched running last

/-- Sampling goes on in every run whose failed transfers recover. -/
theorem sampling_attended (ready : Ready start) (reached : Reaches recoveringStep start chain) :
    Attended chain :=
  watched_attended (reaches_invariant (ready_watched ready)
    (fun _ _ _ watched moves => watched_step watched moves) reached)

def rested : Chain :=
  { chip := ⟨0, Nat.zero_le _, true, false⟩, drvData := armedData, emptyFifoHandler := true
    queue := ⟨[], none⟩ }

theorem rested_ready : Ready rested :=
  ⟨rfl, rfl, rfl, rfl, List.not_mem_nil, fun full => absurd full (by decide)⟩

def refilled : Chain :=
  { rested with
    chip := ⟨512, Nat.le_refl _, true, true⟩
    queue := ⟨[], some .encoding⟩ }

theorem sampling_attended_refilled :
    Ready rested ∧ Reaches recoveringStep rested refilled ∧ Attended refilled := by
  have runs : execute recoveringStep rested [.arrive 509, .interrupt, .take, .callHandler, .finish,
      .take, .transfer true, .arrive 512] = some refilled := by
    decide +kernel
  have reached := execute_reaches recoveringStep _ .start runs
  exact ⟨rested_ready, reached, sampling_attended rested_ready reached⟩

end Watch

section Stuck

variable {chain next : Chain}

/-- The level is high, so that no edge will come, and nothing is pending. -/
structure Stuck (chain : Chain) : Prop where
  mapped : chain.chip.mapped = true
  full : watermark ≤ chain.chip.level
  silent : chain.chip.edge = false
  idle : chain.queue = ⟨[], none⟩

theorem stuck_unattended (stuck : Stuck chain) : ¬ Attended chain := by
  intro attended
  have silent := stuck.silent
  have pending := attended stuck.full
  rw [stuck.idle] at pending
  rcases pending with edge | driver | fifo | ⟨job, running, -⟩
  · rw [silent] at edge
    cases edge
  · exact List.not_mem_nil driver
  · exact List.not_mem_nil fifo
  · cases running

theorem stuck_step (stuck : Stuck chain) {action : Action} (moves : step chain action = some next) :
    Stuck next := by
  have idle := stuck.idle
  have free : chain.queue.running = none := by rw [idle]
  cases step_acted moves with
  | arrive words =>
      have full := stuck.full
      have active : chain.chip.int1 = true := by
        rw [Chip.int1, stuck.mapped, decide_eq_true full]
        rfl
      refine ⟨stuck.mapped, ?_, ?_, idle⟩
      · simp only [Chip.arrive, Chip.become, watermark, fifoCapacity] at full ⊢
        omega
      · simp only [Chip.arrive, Chip.become, active, stuck.silent, Bool.not_true, Bool.false_and,
          Bool.or_false]
  | interrupt edge =>
      rw [stuck.silent] at edge
      cases edge
  | take _ waiting =>
      rw [idle] at waiting
      cases waiting
  | callHandler running | burst running | failure running | finish running _ =>
      rw [free] at running
      cases running

/-- A FIFO that is stuck is never read again. -/
theorem stuck_for_good (stuck : Stuck chain) (reached : Reaches step chain next) : Stuck next :=
  reaches_invariant stuck (fun _ _ _ still moves => stuck_step still moves) reached

theorem unrecovered_sticks (watched : Watched chain) (fetching : chain.queue.running = some .fetching)
    (lost : recovers chain (.transfer false) = false) :
    ∃ last, execute step chain [.transfer false, .finish] = some last ∧ Stuck last := by
  simp only [recovers, Bool.or_eq_false_iff, decide_eq_false_iff_not, Bool.not_eq_false',
    List.isEmpty_iff] at lost
  obtain ⟨⟨full, silent⟩, empty⟩ := lost
  refine ⟨{ chain with queue := ⟨[], none⟩ }, ?_, watched.mapped, Nat.le_of_not_lt full, silent, rfl⟩
  simp only [execute, step, fetching, ↓reduceIte, Bool.false_eq_true, Option.bind_some, Chain.runs,
    empty]

theorem sampling_stops :
    ¬ ∀ start chain, Ready start → Reaches step start chain → Attended chain := by
  intro attended
  have runs : execute step rested [.arrive 509, .interrupt, .take, .callHandler, .finish, .take,
      .transfer false, .finish] = some { rested with chip := ⟨509, by decide, true, false⟩ } := by
    decide +kernel
  have stuck : Stuck { rested with chip := ⟨509, by decide, true, false⟩ } :=
    ⟨rfl, Nat.le_refl _, rfl, rfl⟩
  exact stuck_unattended stuck (attended rested _ rested_ready (execute_reaches step _ .start runs))

end Stuck

end ThingyAccel.SamplingChain
