import ThingyAccel.StartupOrder

/-!
The wait for the LTE network in src/src/modem.c: `main` takes a semaphore that the handler
of the link controller gives, while events, interrupts and the queues go on. It is
`StartupOrder` with the steps of `initialize_modem`.
-/
namespace ThingyAccel.NetworkAttach

open Executions Startup StartupOrder

/-! A counting semaphore. -/

structure Semaphore where
  count : Nat
  limit : Nat
  fits : count ≤ limit
  deriving DecidableEq, Repr

def Semaphore.give (sem : Semaphore) : Semaphore :=
  { sem with count := min (sem.count + 1) sem.limit, fits := Nat.min_le_right _ _ }

def Semaphore.take (sem : Semaphore) : Option Semaphore :=
  if 0 < sem.count then
    some { sem with count := sem.count - 1, fits := Nat.le_trans (Nat.sub_le _ _) sem.fits }
  else none

theorem give_available {sem : Semaphore} (room : 0 < sem.limit) : 0 < sem.give.count :=
  Nat.lt_min.mpr ⟨Nat.succ_pos _, room⟩

theorem take_none {sem : Semaphore} : sem.take = none ↔ sem.count = 0 := by
  rw [Semaphore.take]
  split
  · rename_i available
    exact ⟨nofun, fun empty => absurd empty (Nat.ne_of_gt available)⟩
  · rename_i empty
    exact ⟨fun _ => Nat.eq_zero_of_not_pos empty, fun _ => rfl⟩

/-! The events of the link controller. -/

inductive LteLcNwRegStatus where
  | registeredHome
  | registeredRoaming
  | other (value : Nat)
  deriving DecidableEq, Repr

/-- What the handler only logs is left out of the events. -/
inductive LteLcEvt where
  | nwRegStatus (status : LteLcNwRegStatus)
  | psmUpdate
  | edrxUpdate
  | rrcUpdate
  | cellUpdate
  | other (type : Nat)
  deriving DecidableEq, Repr

def lteHandler (evt : LteLcEvt) (lteConnected : Semaphore) : Semaphore :=
  match evt with
  | .nwRegStatus status =>
      if status ≠ .registeredHome ∧ status ≠ .registeredRoaming then lteConnected
      else lteConnected.give
  | .psmUpdate | .edrxUpdate | .rrcUpdate | .cellUpdate | .other _ => lteConnected

/-! The steps of `initialize_modem`. -/

/-- Before `nrf_modem_lib_init`, before `lte_lc_connect_async`, before `k_sem_take`, and
before `configure_low_power`. -/
inductive Stage where
  | library
  | connect
  | waiting
  | lowPower
  deriving DecidableEq, Repr

/-- `installed` is whether the link controller has been given the handler; `heard` is a
record of the events, for statements. -/
structure Device where
  world : World
  stage : Stage
  installed : Bool
  lteConnected : Semaphore
  heard : List LteLcEvt
  deriving DecidableEq, Repr

/-- A failure of `modem_configure` is logged, and `configure_low_power` is called as well. -/
def modemStep (outcomes : Outcomes) (dev : Device) : Option Device :=
  match dev.stage with
  | .library =>
      some { dev with stage := if outcomes.nrfModemLibInit ≠ 0 then .lowPower else .connect }
  | .connect =>
      some { dev with
        installed := true
        stage := if outcomes.lteLcConnectAsync ≠ 0 then .lowPower else .waiting }
  | .waiting =>
      dev.lteConnected.take.map fun sem => { dev with lteConnected := sem, stage := .lowPower }
  | .lowPower =>
      some { dev with world := { dev.world with
        position := if configureLowPower outcomes < 0 then .ended else .connect } }

inductive Action where
  | world (event : Event)
  | lte (evt : LteLcEvt)
  deriving DecidableEq, Repr

def step (outcomes : Outcomes) (dev : Device) : Action → Option Device
  | .world .main =>
      if dev.world.position = .modem then modemStep outcomes dev
      else (mainStep outcomes dev.world).map fun world => { dev with world := world }
  | .world event =>
      (StartupOrder.step outcomes dev.world event).map fun world => { dev with world := world }
  | .lte evt =>
      if dev.installed then
        some { dev with
          lteConnected := lteHandler evt dev.lteConnected
          heard := dev.heard ++ [evt] }
      else none

def powerUp (words : Nat) : Device :=
  { world := boot words, stage := .library, installed := false
    lteConnected := ⟨0, 1, Nat.zero_le _⟩, heard := [] }

section Runs

variable {outcomes : Outcomes} {words : Nat} {dev next : Device} {action : Action}

inductive Moved (outcomes : Outcomes) (dev : Device) : Action → Device → Prop where
  | modem {next : Device} (here : dev.world.position = .modem)
      (moves : modemStep outcomes dev = some next) : Moved outcomes dev (.world .main) next
  | main {world : World} (elsewhere : dev.world.position ≠ .modem)
      (moves : mainStep outcomes dev.world = some world) :
      Moved outcomes dev (.world .main) { dev with world := world }
  | others {event : Event} {world : World} (other : event ≠ .main)
      (moves : StartupOrder.step outcomes dev.world event = some world) :
      Moved outcomes dev (.world event) { dev with world := world }
  | lte {evt : LteLcEvt} (installed : dev.installed = true) :
      Moved outcomes dev (.lte evt) { dev with
        lteConnected := lteHandler evt dev.lteConnected, heard := dev.heard ++ [evt] }

theorem step_moved (moves : step outcomes dev action = some next) :
    Moved outcomes dev action next := by
  cases action with
  | world event =>
      cases event with
      | main =>
          rw [step] at moves
          split at moves
          · rename_i here
            exact .modem here moves
          · rename_i elsewhere
            obtain ⟨world, moves', rfl⟩ := Option.map_eq_some_iff.mp moves
            exact .main elsewhere moves'
      | chain action =>
          obtain ⟨world, moves', rfl⟩ := Option.map_eq_some_iff.mp moves
          exact .others nofun moves'
      | submitUpload | startUpload | finishUpload =>
          obtain ⟨world, moves', rfl⟩ := Option.map_eq_some_iff.mp moves
          exact .others nofun moves'
  | lte evt =>
      rw [step] at moves
      split at moves
      · rename_i installed
        cases moves
        exact .lte installed
      · cases moves

theorem initialize_modem_low_power (outcomes : Outcomes) :
    initializeModem outcomes = configureLowPower outcomes := by
  simp only [initializeModem, ite_self]

theorem step_seen (moves : step outcomes dev action = some next) :
    next.world = dev.world ∨ ∃ event, StartupOrder.step outcomes dev.world event = some next.world := by
  cases step_moved moves with
  | modem here acts =>
      rw [modemStep] at acts
      split at acts
      · cases acts
        exact Or.inl rfl
      · cases acts
        exact Or.inl rfl
      · obtain ⟨sem, -, rfl⟩ := Option.map_eq_some_iff.mp acts
        exact Or.inl rfl
      · cases acts
        refine Or.inr ⟨.main, ?_⟩
        simp only [StartupOrder.step, mainStep, here, initialize_modem_low_power]
  | main elsewhere acts => exact Or.inr ⟨.main, acts⟩
  | others other acts => exact Or.inr ⟨_, acts⟩
  | lte installed => exact Or.inl rfl

def registers : LteLcEvt → Bool
  | .nwRegStatus .registeredHome | .nwRegStatus .registeredRoaming => true
  | _ => false

theorem lte_handler_gives (evt : LteLcEvt) (sem : Semaphore) :
    lteHandler evt sem = if registers evt then sem.give else sem := by
  cases evt with
  | nwRegStatus status => cases status <;> rfl
  | psmUpdate | edrxUpdate | rrcUpdate | cellUpdate | other type => rfl

/-- How far `main` is before, in and behind `initialize_modem`, and what has been heard. -/
structure Tracked (outcomes : Outcomes) (dev : Device) : Prop where
  limit : dev.lteConnected.limit = 1
  before : dev.world.position = .sensors ∨ dev.world.position = .mapping → dev.stage = .library
  behind : dev.world.position ∉ [Position.sensors, .mapping, .modem] → dev.stage = .lowPower
  quiet : dev.stage = .library ∨ dev.stage = .connect → dev.installed = false
  unheard : dev.installed = false → dev.heard = [] ∧ dev.lteConnected.count = 0
  initialised : dev.stage = .connect ∨ dev.stage = .waiting → outcomes.nrfModemLibInit = 0
  called : dev.stage = .waiting → outcomes.lteLcConnectAsync = 0
  waiting : dev.stage = .waiting →
    (dev.lteConnected.count = 0 ↔ ∀ evt ∈ dev.heard, registers evt = false)
  registered : dev.stage = .lowPower → outcomes.nrfModemLibInit = 0 →
    outcomes.lteLcConnectAsync = 0 → ∃ evt ∈ dev.heard, registers evt = true

theorem power_up_tracked (words : Nat) : Tracked outcomes (powerUp words) where
  limit := rfl
  before _ := rfl
  behind outside := absurd List.mem_cons_self outside
  quiet _ := rfl
  unheard _ := ⟨rfl, rfl⟩
  initialised impossible := by rcases impossible with impossible | impossible <;> cases impossible
  called impossible := by cases impossible
  waiting impossible := by cases impossible
  registered impossible := by cases impossible

theorem tracked_lte (tracked : Tracked outcomes dev) (evt : LteLcEvt)
    (installed : dev.installed = true) :
    Tracked outcomes { dev with
      lteConnected := lteHandler evt dev.lteConnected, heard := dev.heard ++ [evt] } := by
  rw [lte_handler_gives]
  constructor
  case limit =>
    dsimp only
    split
    · exact tracked.limit
    · exact tracked.limit
  case before => exact tracked.before
  case behind => exact tracked.behind
  case quiet => exact tracked.quiet
  case unheard =>
    intro uninstalled
    exact absurd (installed.symm.trans uninstalled) (by decide)
  case initialised => exact tracked.initialised
  case called => exact tracked.called
  case waiting =>
    intro here
    have waiting := tracked.waiting here
    dsimp only
    simp only [List.mem_append, List.mem_singleton]
    cases registering : registers evt with
    | true =>
        have available := @give_available dev.lteConnected (by rw [tracked.limit]; decide)
        constructor
        · exact fun empty => absurd empty (Nat.ne_of_gt available)
        · intro none
          rw [none evt (Or.inr rfl)] at registering
          cases registering
    | false =>
        constructor
        · rintro empty other (old | rfl)
          · exact waiting.mp empty other old
          · exact registering
        · exact fun none => waiting.mpr fun other old => none other (Or.inl old)
  case registered =>
    intro here library called
    obtain ⟨other, old, registering⟩ := tracked.registered here library called
    exact ⟨other, List.mem_append_left _ old, registering⟩

def ahead : List Position := [.sensors, .mapping]

def upTo : List Position := [.sensors, .mapping, .modem]

theorem main_ahead {world after : World} (position : world.position ∈ ahead)
    (acts : mainStep outcomes world = some after) : after.position ∈ [Position.mapping, .modem] := by
  have sensors := initialize_sensors_zero outcomes
  rw [mainStep] at acts
  split at acts
  · split at acts
    · cases acts
      exact List.mem_cons_of_mem _ List.mem_cons_self
    · cases acts
      exact List.mem_cons_self
  · rw [sensors] at acts
    cases acts
    exact List.mem_cons_of_mem _ List.mem_cons_self
  all_goals
    rename_i other
    rw [other] at position
    exact absurd position (by decide)

theorem main_behind {world after : World} (position : world.position ∉ upTo)
    (acts : mainStep outcomes world = some after) : after.position ∉ upTo := by
  rw [mainStep] at acts
  split at acts
  · rename_i here
    rw [here] at position
    exact absurd List.mem_cons_self position
  · rename_i here
    rw [here] at position
    exact absurd (by decide) position
  · rename_i here
    rw [here] at position
    exact absurd (by decide) position
  · cases acts
    dsimp only
    split <;> decide
  · cases acts
    dsimp only
    decide
  · cases acts
    dsimp only
    decide
  · cases acts
    dsimp only
    decide
  · cases acts

theorem tracked_world (tracked : Tracked outcomes dev) {world : World}
    (before : world.position = .sensors ∨ world.position = .mapping → dev.world.position ∈ ahead)
    (behind : world.position ∉ upTo → dev.world.position ∉ upTo) :
    Tracked outcomes { dev with world := world } where
  limit := tracked.limit
  before here := by
    have position := before here
    simp only [ahead, List.mem_cons, List.not_mem_nil, or_false] at position
    exact tracked.before position
  behind here := tracked.behind (behind here)
  quiet := tracked.quiet
  unheard := tracked.unheard
  initialised := tracked.initialised
  called := tracked.called
  waiting := tracked.waiting
  registered := tracked.registered

theorem tracked_library (tracked : Tracked outcomes dev) (here : dev.world.position = .modem)
    (library : dev.stage = .library) :
    Tracked outcomes { dev with
      stage := if outcomes.nrfModemLibInit ≠ 0 then .lowPower else .connect } := by
  have fresh := tracked.unheard (tracked.quiet (Or.inl library))
  by_cases failed : outcomes.nrfModemLibInit ≠ 0
  · rw [if_pos failed]
    refine ⟨tracked.limit, ?_, fun _ => rfl, nofun, tracked.unheard, nofun, nofun, nofun, ?_⟩
    · rintro (early | early) <;> exact absurd (here.symm.trans early) nofun
    · exact fun _ succeeded => absurd succeeded failed
  · rw [if_neg failed]
    refine ⟨tracked.limit, ?_, ?_, fun _ => tracked.quiet (Or.inl library), tracked.unheard,
      fun _ => not_not.mp failed, nofun, nofun, nofun⟩
    · rintro (early | early) <;> exact absurd (here.symm.trans early) nofun
    · exact fun outside => absurd (by rw [here]; decide) outside

theorem tracked_connect (tracked : Tracked outcomes dev) (here : dev.world.position = .modem)
    (connect : dev.stage = .connect) :
    Tracked outcomes { dev with
      installed := true
      stage := if outcomes.lteLcConnectAsync ≠ 0 then .lowPower else .waiting } := by
  obtain ⟨unheard, empty⟩ := tracked.unheard (tracked.quiet (Or.inr connect))
  have library := tracked.initialised (Or.inl connect)
  by_cases failed : outcomes.lteLcConnectAsync ≠ 0
  · rw [if_pos failed]
    refine ⟨tracked.limit, ?_, fun _ => rfl, nofun, nofun, nofun, nofun, nofun, ?_⟩
    · rintro (early | early) <;> exact absurd (here.symm.trans early) nofun
    · exact fun _ _ succeeded => absurd succeeded failed
  · rw [if_neg failed]
    refine ⟨tracked.limit, ?_, ?_, nofun, nofun, fun _ => library, fun _ => not_not.mp failed, ?_, nofun⟩
    · rintro (early | early) <;> exact absurd (here.symm.trans early) nofun
    · exact fun outside => absurd (by rw [here]; decide) outside
    · intro _
      rw [unheard]
      exact ⟨fun _ evt impossible => absurd impossible List.not_mem_nil, fun _ => empty⟩

theorem tracked_take (tracked : Tracked outcomes dev) (here : dev.world.position = .modem)
    (waiting : dev.stage = .waiting) {sem : Semaphore} (taken : dev.lteConnected.take = some sem) :
    Tracked outcomes { dev with lteConnected := sem, stage := .lowPower } := by
  have available : dev.lteConnected.count ≠ 0 := fun empty => by
    rw [take_none.mpr empty] at taken
    cases taken
  have limit : sem.limit = dev.lteConnected.limit := by
    rw [Semaphore.take] at taken
    split at taken
    · cases taken
      rfl
    · cases taken
  have heard : ∃ evt ∈ dev.heard, registers evt = true := by
    by_contra none
    exact available ((tracked.waiting waiting).mpr fun evt member =>
      Bool.not_eq_true _ |>.mp fun registering => none ⟨evt, member, registering⟩)
  refine ⟨limit.trans tracked.limit, ?_, fun _ => rfl, nofun, ?_, nofun, nofun, nofun, fun _ _ _ => heard⟩
  · rintro (early | early) <;> exact absurd (here.symm.trans early) nofun
  · intro uninstalled
    obtain ⟨evt, member, -⟩ := heard
    rw [(tracked.unheard uninstalled).1] at member
    cases member

theorem tracked_low_power (tracked : Tracked outcomes dev) (lowPower : dev.stage = .lowPower) :
    Tracked outcomes { dev with world := { dev.world with
      position := if configureLowPower outcomes < 0 then .ended else .connect } } where
  limit := tracked.limit
  before early := by
    dsimp only at early
    split at early <;> rcases early with early | early <;> cases early
  behind _ := lowPower
  quiet := tracked.quiet
  unheard := tracked.unheard
  initialised := tracked.initialised
  called := tracked.called
  waiting := tracked.waiting
  registered := tracked.registered

theorem tracked_modem (tracked : Tracked outcomes dev) (here : dev.world.position = .modem)
    (acts : modemStep outcomes dev = some next) : Tracked outcomes next := by
  rw [modemStep] at acts
  split at acts
  · rename_i library
    cases acts
    exact tracked_library tracked here library
  · rename_i connect
    cases acts
    exact tracked_connect tracked here connect
  · rename_i waiting
    obtain ⟨sem, taken, rfl⟩ := Option.map_eq_some_iff.mp acts
    exact tracked_take tracked here waiting taken
  · rename_i lowPower
    cases acts
    exact tracked_low_power tracked lowPower

theorem others_position {event : Event} (other : event ≠ .main) {world after : World}
    (acts : StartupOrder.step outcomes world event = some after) :
    after.position = world.position := by
  cases event with
  | main => exact absurd rfl other
  | chain action =>
      obtain ⟨chain, -, rfl⟩ := Option.map_eq_some_iff.mp acts
      rfl
  | submitUpload | startUpload | finishUpload =>
      rw [StartupOrder.step] at acts
      split at acts
      · cases acts
        rfl
      · cases acts

theorem tracked_step (tracked : Tracked outcomes dev) (moves : step outcomes dev action = some next) :
    Tracked outcomes next := by
  cases step_moved moves with
  | modem here acts => exact tracked_modem tracked here acts
  | main elsewhere acts =>
      by_cases early : dev.world.position ∈ ahead
      · have arrived := main_ahead early acts
        refine tracked_world tracked (fun _ => early) fun outside => ?_
        exact absurd (List.mem_cons_of_mem _ arrived) outside
      · have outside : dev.world.position ∉ upTo := by
          simp only [ahead, upTo, List.mem_cons, List.not_mem_nil, or_false, not_or] at early ⊢
          exact ⟨early.1, early.2, elsewhere⟩
        have behind := main_behind outside acts
        refine tracked_world tracked (fun back => ?_) fun _ => outside
        refine absurd ?_ behind
        rcases back with back | back
        · rw [back]
          decide
        · rw [back]
          decide
  | others other acts =>
      have position := others_position other acts
      refine tracked_world tracked (fun here => ?_) fun here => ?_
      · rw [position] at here
        rcases here with here | here
        · rw [here]
          decide
        · rw [here]
          decide
      · rwa [← position]
  | lte installed => exact tracked_lte tracked _ installed

/-- `main` waits in one place, and only until a registration has been heard. -/
theorem blocked_waiting (tracked : Tracked outcomes dev) :
    step outcomes dev (.world .main) = none ↔ dev.world.position = .ended ∨
      dev.world.position = .modem ∧ dev.stage = .waiting ∧
        ∀ evt ∈ dev.heard, registers evt = false := by
  rw [step]
  split
  · rename_i here
    rw [modemStep]
    cases stage : dev.stage with
    | waiting => simp only [Option.map_eq_none_iff, take_none, tracked.waiting stage, here,
        reduceCtorEq, true_and, false_or]
    | library | connect | lowPower => simp only [here, reduceCtorEq, false_and, and_false, or_self]
  · rename_i elsewhere
    rw [Option.map_eq_none_iff]
    cases position : dev.world.position with
    | modem => exact absurd position elsewhere
    | ended => exact ⟨fun _ => Or.inl rfl, fun _ => by rw [mainStep, position]⟩
    | sensors =>
        simp only [mainStep, position, reduceCtorEq, false_and, or_self, iff_false]
        intro blocked
        split at blocked
        · cases blocked
        · cases blocked
    | mapping | connect | initCoapSend | startQueue | initEmptyFifo =>
        simp only [mainStep, position, reduceCtorEq, false_and, or_self]

def stepsLeft (dev : Device) : Nat :=
  match dev.world.position with
  | .sensors => 10
  | .mapping => 9
  | .modem => match dev.stage with
      | .library => 8
      | .connect => 7
      | .waiting => 6
      | .lowPower => 5
  | .connect => 4
  | .initCoapSend => 3
  | .startQueue => 2
  | .initEmptyFifo => 1
  | .ended => 0

theorem main_moves_on (tracked : Tracked outcomes dev)
    (moves : step outcomes dev (.world .main) = some next) :
    stepsLeft next < stepsLeft dev ∧ next.heard = dev.heard := by
  have sensors := initialize_sensors_zero outcomes
  cases step_moved moves with
  | modem here acts =>
      rw [modemStep] at acts
      split at acts
      · rename_i stage
        cases acts
        refine ⟨?_, rfl⟩
        rcases ite_eq_or_eq (outcomes.nrfModemLibInit ≠ 0) Stage.lowPower Stage.connect with
          chosen | chosen <;> simp only [stepsLeft, here, stage, chosen] <;> decide
      · rename_i stage
        cases acts
        refine ⟨?_, rfl⟩
        rcases ite_eq_or_eq (outcomes.lteLcConnectAsync ≠ 0) Stage.lowPower Stage.waiting with
          chosen | chosen <;> simp only [stepsLeft, here, stage, chosen] <;> decide
      · rename_i stage
        obtain ⟨sem, -, rfl⟩ := Option.map_eq_some_iff.mp acts
        refine ⟨?_, rfl⟩
        simp only [stepsLeft, here, stage]
        decide
      · rename_i stage
        cases acts
        refine ⟨?_, rfl⟩
        rcases ite_eq_or_eq (configureLowPower outcomes < 0) Position.ended Position.connect with
          chosen | chosen <;> simp only [stepsLeft, here, stage, chosen] <;> decide
  | @main world elsewhere acts =>
      refine ⟨?_, rfl⟩
      cases position : dev.world.position with
      | modem => exact absurd position elsewhere
      | sensors =>
          have stage := tracked.before (Or.inl position)
          simp only [mainStep, position] at acts
          split at acts <;> cases acts <;> simp only [stepsLeft, position, stage] <;> decide
      | mapping =>
          have stage := tracked.before (Or.inr position)
          simp only [mainStep, position, sensors, Int.lt_irrefl, ↓reduceIte] at acts
          cases acts
          simp only [stepsLeft, position, stage]
          decide
      | connect =>
          simp only [mainStep, position] at acts
          cases acts
          rcases ite_eq_or_eq (connectToServer outcomes < 0) Position.ended Position.initCoapSend with
            chosen | chosen <;> simp only [stepsLeft, position, chosen] <;> decide
      | initCoapSend | startQueue | initEmptyFifo =>
          simp only [mainStep, position] at acts
          cases acts
          simp only [stepsLeft, position]
          decide
      | ended => simp only [mainStep, position, reduceCtorEq] at acts
  | others other acts => exact absurd rfl other

/-- Once a registration has been heard, `main` by itself comes to its end. -/
theorem main_ends (tracked : Tracked outcomes dev) {evt : LteLcEvt} (member : evt ∈ dev.heard)
    (registering : registers evt = true) :
    ∃ count last, execute (step outcomes) dev (List.replicate count (.world .main)) = some last ∧
      last.world.position = .ended := by
  induction left : stepsLeft dev using Nat.strongRecOn generalizing dev with
  | ind left' ih =>
      cases moves : step outcomes dev (.world .main) with
      | none =>
          rcases (blocked_waiting tracked).mp moves with ended | ⟨-, -, unregistered⟩
          · exact ⟨0, dev, rfl, ended⟩
          · rw [unregistered evt member] at registering
            cases registering
      | some next =>
          obtain ⟨fewer, heard⟩ := main_moves_on tracked moves
          rw [left] at fewer
          obtain ⟨count, last, executed, ended⟩ := ih (stepsLeft next) fewer
            (tracked_step tracked moves) (by rw [heard]; exact member) rfl
          refine ⟨count + 1, last, ?_, ended⟩
          rw [List.replicate_succ, execute, moves]
          exact executed

/-- The attachment to the network in any run: what is seen of it is a run of the start-up;
`main` is blocked exactly while it waits and has heard no registration; unless the modem
library or the link controller fails it goes on behind the modem when it has heard one; and
then it is not blocked again. -/
structure Attaches (outcomes : Outcomes) (words : Nat) (dev : Device) : Prop where
  seen : Reaches (StartupOrder.step outcomes) (boot words) dev.world
  blocked : step outcomes dev (.world .main) = none ↔ dev.world.position = .ended ∨
    dev.world.position = .modem ∧ dev.stage = .waiting ∧ ∀ evt ∈ dev.heard, registers evt = false
  registered : outcomes.nrfModemLibInit = 0 → outcomes.lteLcConnectAsync = 0 →
    dev.world.position ∉ upTo → ∃ evt ∈ dev.heard, registers evt = true
  ends : ∀ evt ∈ dev.heard, registers evt = true → ∃ count last,
    execute (step outcomes) dev (List.replicate count (.world .main)) = some last ∧
      last.world.position = .ended

theorem attachment_exact (reached : Reaches (step outcomes) (powerUp words) dev) :
    Attaches outcomes words dev := by
  have tracked : Tracked outcomes dev := reaches_invariant (power_up_tracked words)
    (fun _ _ _ tracked moves => tracked_step tracked moves) reached
  constructor
  case seen => exact @reaches_seen _ _ _ _ _ _ Device.world _ _ (fun _ _ _ => step_seen) reached
  case blocked => exact blocked_waiting tracked
  case registered =>
    exact fun library called behind => tracked.registered (tracked.behind behind) library called
  case ends => exact fun evt member registering => main_ends tracked member registering

def roaming : Device :=
  { world := { boot 0 with
      position := .modem
      chain := { (boot 0).chain with
        drvData := SamplingChain.armedData, chip := ⟨0, by decide, true, false⟩ } }
    stage := .waiting, installed := true, lteConnected := ⟨1, 1, Nat.le_refl 1⟩
    heard := [.cellUpdate, .nwRegStatus .registeredRoaming] }

theorem attachment_roaming : Attaches succeeding 0 roaming := by
  have runs : execute (step succeeding) (powerUp 0) [.world .main, .world .main, .world .main,
      .world .main, .lte .cellUpdate, .lte (.nwRegStatus .registeredRoaming)] = some roaming := by
    decide +kernel
  exact attachment_exact (execute_reaches (step succeeding) _ .start runs)

end Runs

end ThingyAccel.NetworkAttach
